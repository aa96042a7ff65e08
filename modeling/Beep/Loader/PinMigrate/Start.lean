import Beep.Loader.PinMigrate.Plan

/-!
# `Loader.PinMigrate.Start` — a start of the loader, as the pins see it

`load_ebpf`: replace the pins whose shape is not the requested one (`recreateMismatchedPins`), create what is missing
(`loadMaps`), write the entries carried over (`restoreMigrated`), drop the `_migrating` pins (`unparkMigrated`). A start
may be stopped between any two operations on pins or maps; an operation that fails ends it the same way.

The phases work name by name. So each has one lemma, about any one name: what it leaves there when it is through, and
what it may leave there when it is not. What holds of several names together is read off these.
-/

namespace Beep

open Crash

variable [Host]

/-! ## The program -/

/-- A start: the shapes it requests, the order in which the load creates maps, what the kernel is free to answer, and
    after how many operations it is stopped, if it is. -/
structure Start where
  requested : MapName → MapShape
  order : IterationOrder MapName
  snapshotFails : MapName → Bool
  refuses : MapName → Entry → Option Refusal
  victim : MapName → Entry → Nat
  stop : Option Nat

/-- `Recreated`. -/
structure Recreated where
  name : MapName
  snapshot : Option (List Entry)
  parked : Bool

/-- `WriteFailure`. -/
structure WriteFailure where
  map : MapName
  errno : Option Int

/-- `RestoreFailure`. -/
structure RestoreFailure where
  map : MapName
  errno : Option Int
  count : Nat

/-- The two pins of one name are changed. -/
abbrev Pinning := Prog Pins RestoreFailure

/-- The pin directory is changed. -/
abbrev Loading := Prog PinDir RestoreFailure

/-- The map under the pin that a source names. -/
def Pins.under (pins : Pins) : Source → Option KernelMap
  | .plain => pins.live
  | .migrating => pins.parked

/-- The pins of one name are replaced: the match on the source and on whether its entries are kept. -/
def replacePins (wanted : MapShape) (source : Source) (keepsEntries : Bool) : Pinning Unit :=
  match source, keepsEntries with
  | .plain, true => do
      Prog.act Pins.link
      Prog.act Pins.removePlain
  | .plain, false => Prog.act Pins.removePlain
  | .migrating, true => do
      -- a plain pin of the wanted shape is the new map of an interrupted start, and reused
      let live ← Prog.read Pins.live
      if live.any fun plain => ¬ plain.shape.Fits wanted then Prog.act Pins.removePlain else pure ()
  | .migrating, false => do
      Prog.act Pins.removeMigrating
      let live ← Prog.read Pins.live
      if live.isSome then Prog.act Pins.removePlain else pure ()

/-- The loop body of `recreate_mismatched_pins` for a pin that is not kept. -/
def recreatePins (wanted : MapShape) (source : Source) (fate : Fate) (snapshotFails : Bool) :
    Pinning (Option (List Entry)) := do
  let snapshot ← Prog.read fun pins =>
    if fate = .migrate ∧ ¬ snapshotFails then (pins.under source).map KernelMap.snapshot else none
  replacePins wanted source snapshot.isSome
  return snapshot

/-- The fate of a name: the front maps share theirs. -/
def coupledFate (coupled : Fate × Fate) (own : Fate) : MapName → Fate
  | .frontMeta => coupled.1
  | .frontEndpoints => coupled.2
  | _ => own

/-- `recreate_mismatched_pins`, for one name. -/
def recreateName (s : Start) (coupled : Fate × Fate) (sources : MapName → Option (Source × MapShape × Fate))
    (name : MapName) : Loading (Option Recreated) :=
  match sources name with
  | none => pure none
  | some (source, _, own) =>
      let fate := coupledFate coupled own name
      if fate = .keep then pure none
      else do
        let snapshot ← (recreatePins (s.requested name) source fate (s.snapshotFails name)).focus name
        return some ⟨name, snapshot, snapshot.isSome⟩

namespace Start

/-- Which pin of a name holds the entries to carry over. -/
def sourceOf (s : Start) (d : PinDir) (name : MapName) : Option (Source × MapShape × Fate) :=
  pinSource ((d name).live.map (·.shape)) ((d name).parked.map (·.shape)) (s.requested name)

/-- The fate the front maps share. -/
def coupled (s : Start) (d : PinDir) : Fate × Fate :=
  coupleFrontFates ((s.sourceOf d .frontMeta).map (·.2.2)) ((s.sourceOf d .frontEndpoints).map (·.2.2))

end Start

/-- `recreate_mismatched_pins`. -/
def recreateMismatchedPins (s : Start) : Loading (List Recreated) := do
  let (coupled, sources) ← Prog.read fun d => (s.coupled d, s.sourceOf d)
  Prog.collect (recreateName s coupled sources) mapNames

/-- `EbpfLoader::load`, as far as the pins go. -/
def loadMaps (s : Start) : Loading Unit :=
  Prog.forEach (fun name => (Prog.act (Pins.create (s.requested name))).focus name) (s.order.arrange mapNames)

/-- `write_landed`. -/
def writeLanded : Except IoError Unit → Bool
  | .ok _ => true
  | .error e => e.rawOsError = some eexist

/-- The write `apply_restore` hands to `apply_plan`. -/
def Start.write (s : Start) (name : MapName) (entry : Entry) : Loading (Except IoError Unit) :=
  (Prog.call fun pins => pins.write entry (s.refuses name entry) (s.victim name entry)).focus name

section
variable {σ : Type} (write : MapName → Entry → Prog σ RestoreFailure (Except IoError Unit))

/-- What `write_all` records of a result. -/
def failuresOf (name : MapName) (result : Except IoError Unit) : List WriteFailure :=
  match result with
  | .error e => if writeLanded result then [] else [⟨name, e.rawOsError⟩]
  | .ok _ => []

/-- `write_all`, with the write it is handed. -/
def writeAll (name : MapName) : List Entry → Prog σ RestoreFailure (List Bool × List WriteFailure)
  | [] => pure ([], [])
  | entry :: entries => do
      let result ← write name entry
      let (landed, failures) ← writeAll name entries
      return (writeLanded result :: landed, failuresOf name result ++ failures)

/-- The first loop of `apply_plan`: the maps other than the front maps. -/
def writeGeneric : List (MapName × List Entry) → Prog σ RestoreFailure (List WriteFailure)
  | [] => pure []
  | (name, entries) :: rest => do
      let (_, failures) ← writeAll write name entries
      let more ← writeGeneric rest
      return failures ++ more

/-- The second loop of `apply_plan`: the endpoint rows of every front, and which fronts' all landed. -/
def writeFrontRows : List FrontCopy → Prog σ RestoreFailure (List Bool × List WriteFailure)
  | [] => pure ([], [])
  | front :: fronts => do
      let (results, failures) ← writeAll write .frontEndpoints front.rows
      let (landed, more) ← writeFrontRows fronts
      return (results.all id :: landed, failures ++ more)

/-- The end of `apply_plan`. -/
def reportFailures : List WriteFailure → Prog σ RestoreFailure Unit
  | [] => pure ()
  | first :: more => Prog.fail ⟨first.map, first.errno, more.length + 1⟩

/-- `apply_plan`. -/
def applyPlan (plan : RestorePlan) : Prog σ RestoreFailure Unit := do
  let generic ← writeGeneric write plan.generic
  let (landed, rows) ← writeFrontRows write plan.fronts
  let metas := ((plan.fronts.zip landed).filter (·.2)).map (·.1.metaEntry)
  let (_, written) ← writeAll write .frontMeta metas
  reportFailures (generic ++ (rows ++ written))

end

/-- The snapshots of the maps that were recreated. -/
def snapshotsOf (recreated : List Recreated) : List (MapName × List Entry) :=
  recreated.filterMap fun r => r.snapshot.map fun entries => (r.name, entries)

/-- `restore_migrated`. -/
def restoreMigrated (s : Start) (recreated : List Recreated) : Loading Unit :=
  if snapshotsOf recreated = [] then pure ()
  else applyPlan s.write (planRestore (snapshotsOf recreated) fun name => (s.requested name).maxEntries)

/-- `unpark_migrated`. -/
def unparkMigrated (parked : List MapName) : Loading Unit :=
  Prog.forEach (fun name => (Prog.act Pins.removeMigrating).focus name) parked

/-- `load_ebpf`, from the load on. -/
def loadRecreated (s : Start) (recreated : List Recreated) : Loading Unit := do
  let parked := (recreated.filter (·.parked)).map (·.name)
  loadMaps s
  restoreMigrated s recreated
  unparkMigrated parked

/-- `load_ebpf`. -/
def loadEbpf (s : Start) : Loading Unit := do
  let recreated ← recreateMismatchedPins s
  loadRecreated s recreated

/-- What a start leaves of the pin directory. -/
def PinDir.start (d : PinDir) (s : Start) : PinDir :=
  match s.stop with
  | some n => (loadEbpf s).stopped n d
  | none => ((loadEbpf s).run d).final

/-- The start comes to its end, without an error. -/
def Start.Completes (s : Start) (d : PinDir) : Prop := s.stop = none ∧ ((loadEbpf s).run d).result = .ok ()

/-! ## Replacing the pins of a name -/

namespace Pins

/-- What migrating a name makes of its pins: its entries are under the `_migrating` one, and a plain pin that is still
    there has the wanted shape. -/
def readied (wanted : MapShape) : Pins → Pins
  | plain m => migrating m
  | both m old => if m.shape.Fits wanted then both m old else migrating old
  | shared m => if m.shape.Fits wanted then shared m else migrating m
  | pins => pins

/-- What a fate makes of the pins of a name. -/
def recreated (wanted : MapShape) (pins : Pins) : Option Fate → Pins
  | some .migrate => pins.readied wanted
  | some .recreateEmpty => none
  | _ => pins

/-- What the pins of a name may be on the way there. -/
def Recreating (wanted : MapShape) (pins : Pins) (fate : Option Fate) (now : Pins) : Prop :=
  now = pins ∨ now = pins.recreated wanted fate ∨ (fate = some .migrate ∧ now = pins.link) ∨
    (fate = some .recreateEmpty ∧ now = pins.removeMigrating)

end Pins

omit [Host] in
/-- The source of a name is where its entries are. -/
theorem under_of_pinSource {pins : Pins} {wanted : MapShape} {source : Source} {existing : MapShape} {own : Fate}
    (h : pinSource (pins.live.map (·.shape)) (pins.parked.map (·.shape)) wanted = some (source, existing, own)) :
    pins.under source = pins.source ∧ pins.source ≠ none ∧ (source = .plain ↔ pins.parked = none) := by
  cases pins with
  | none => cases h
  | plain m | migrating m | both m old | shared m =>
    obtain ⟨rfl, -⟩ := Prod.mk.inj (Option.some_inj.mp h)
    simp [Pins.under, Pins.source, Pins.live, Pins.parked]

section
variable {wanted existing : MapShape} {source : Source} {own : Fate} {pins : Pins}

omit [Host] in
/-- The pins of a name whose entries are kept. -/
theorem replacePins_true (hsource : source = .plain ↔ pins.parked = none) (hsome : pins.source ≠ none) :
    Triple (· = pins) (replacePins wanted source true) (fun _ now => now = pins.readied wanted)
      fun now => now = pins.link ∨ now = pins.readied wanted := by
  cases source with
  | plain =>
    obtain ⟨m, rfl⟩ : ∃ m, pins = .plain m := by
      cases pins with
      | plain m => exact ⟨m, rfl⟩
      | none => exact absurd rfl hsome
      | migrating m | both m old | shared m => exact nomatch hsource.mp rfl
    refine Triple.bind (R := fun _ now => now = .shared m) (Triple.act ?_) fun _ => Triple.act ?_
    · rintro _ rfl
      exact ⟨Or.inl rfl, rfl⟩
    · rintro _ rfl
      exact ⟨Or.inr rfl, rfl⟩
  | migrating =>
    refine Triple.bind (R := fun live now => now = pins ∧ live = pins.live) (Triple.read ?_) fun live => ?_
    · rintro _ rfl
      exact ⟨rfl, rfl⟩
    · refine Triple.of_state ?_
      rintro _ ⟨rfl, rfl⟩
      rename_i pins
      have hplain : ∀ m, pins ≠ .plain m := by
        rintro m rfl
        exact nomatch hsource.mpr rfl
      split
      · rename_i hstale
        have hremove : pins.removePlain = pins.readied wanted := by
          cases pins with
          | none => exact absurd rfl hsome
          | plain m => exact absurd rfl (hplain m)
          | migrating m => cases hstale
          | both m old | shared m =>
            have hfits : ¬ m.shape.Fits wanted := of_decide_eq_true hstale
            simp only [Pins.removePlain, Pins.readied, if_neg hfits]
        refine Triple.act ?_
        rintro _ rfl
        exact ⟨Or.inr hremove, hremove⟩
      · rename_i hfits
        refine Triple.pure fun now hnow => ?_
        rw [hnow]
        cases pins with
        | none => exact absurd rfl hsome
        | plain m => exact absurd rfl (hplain m)
        | migrating m => rfl
        | both m old | shared m =>
          have hfits : m.shape.Fits wanted := by
            by_contra hstale
            exact hfits (decide_eq_true hstale)
          simp only [Pins.readied, if_pos hfits]

omit [Host] in
/-- The pins of a name whose entries are not kept. -/
theorem replacePins_false (hsource : source = .plain ↔ pins.parked = none) (hsome : pins.source ≠ none) :
    Triple (· = pins) (replacePins wanted source false) (fun _ now => now = .none)
      fun now => now = pins.removeMigrating ∨ now = .none := by
  cases source with
  | plain =>
    refine Triple.act ?_
    rintro _ rfl
    rename_i pins
    cases pins with
    | none => exact absurd rfl hsome
    | plain m => exact ⟨Or.inr rfl, rfl⟩
    | migrating m | both m old | shared m => exact nomatch hsource.mp rfl
  | migrating =>
    refine Triple.bind (R := fun _ now => now = pins.removeMigrating) (Triple.act ?_) fun _ => ?_
    · rintro _ rfl
      exact ⟨Or.inl rfl, rfl⟩
    refine Triple.bind (R := fun live now => now = pins.removeMigrating ∧ live = pins.removeMigrating.live)
      (Triple.read ?_) fun live => ?_
    · rintro _ rfl
      exact ⟨rfl, rfl⟩
    refine Triple.of_state ?_
    rintro _ ⟨rfl, rfl⟩
    cases pins with
    | none => exact absurd rfl hsome
    | plain m => exact nomatch hsource.mpr rfl
    | migrating m => exact Triple.pure fun _ h => h
    | both m old | shared m =>
      refine Triple.act ?_
      rintro _ rfl
      exact ⟨Or.inr rfl, rfl⟩

omit [Host] in
/-- **The pins of one name**, as its fate has them replaced. -/
theorem recreatePins_spec {fate : Fate}
    (hsource : pinSource (pins.live.map (·.shape)) (pins.parked.map (·.shape)) wanted = some (source, existing, own))
    (hfate : fate ≠ .keep) :
    Triple (· = pins) (recreatePins wanted source fate false)
      (fun snapshot now => snapshot = (if fate = .migrate then pins.source.map KernelMap.snapshot else none) ∧
        now = pins.recreated wanted (some fate))
      fun now => pins.Recreating wanted (some fate) now := by
  obtain ⟨hunder, hsome, hplain⟩ := under_of_pinSource hsource
  let snapshot := if fate = .migrate then pins.source.map KernelMap.snapshot else none
  refine Triple.bind (R := fun read now => now = pins ∧ read = snapshot) (Triple.read ?_) fun read => ?_
  · rintro _ rfl
    exact ⟨rfl, by simp [snapshot, hunder]⟩
  refine Triple.of_state ?_
  rintro _ ⟨rfl, rfl⟩
  rename_i pins
  cases fate with
  | keep => exact absurd rfl hfate
  | migrate =>
    have hkeeps : snapshot.isSome = true := by
      simpa [snapshot, Option.isSome_iff_ne_none] using hsome
    rw [hkeeps]
    refine Triple.bind ((replacePins_true hplain hsome).weaken (fun _ h => h) (fun _ _ h => h) ?_) fun _ =>
      Triple.pure fun now hnow => ⟨rfl, hnow⟩
    rintro now (rfl | rfl)
    · exact Or.inr (Or.inr (Or.inl ⟨rfl, rfl⟩))
    · exact Or.inr (Or.inl rfl)
  | recreateEmpty =>
    refine Triple.bind ((replacePins_false hplain hsome).weaken (fun _ h => h) (fun _ _ h => h) ?_) fun _ =>
      Triple.pure fun now hnow => ⟨rfl, hnow⟩
    rintro now (rfl | rfl)
    · exact Or.inr (Or.inr (Or.inr ⟨rfl, rfl⟩))
    · exact Or.inr (Or.inl rfl)

end

/-! ## The first phase, at one name -/

/-- The fate of a name, if it has a pin. -/
def Start.fateOf (s : Start) (d : PinDir) (name : MapName) : Option Fate :=
  (s.sourceOf d name).map fun own => coupledFate (s.coupled d) own.2.2 name

/-- A map is not migrated if its entries cannot be read. -/
def Fate.taken (snapshotFails : Bool) (fate : Fate) : Fate :=
  if snapshotFails = true ∧ fate = .migrate then .recreateEmpty else fate

/-- What becomes of the pins of a name. -/
def Start.fateTaken (s : Start) (d : PinDir) (name : MapName) : Option Fate :=
  (s.fateOf d name).map (.taken (s.snapshotFails name))

omit [Host] in
theorem Start.fateTaken_eq {s : Start} {name : MapName} (hsnapshot : s.snapshotFails name = false) (d : PinDir) :
    s.fateTaken d name = s.fateOf d name := by
  unfold fateTaken
  rw [hsnapshot]
  cases s.fateOf d name <;> rfl

omit [Host] in
theorem recreatePins_taken (wanted : MapShape) (source : Source) (fate : Fate) (snapshotFails : Bool) :
    recreatePins wanted source fate snapshotFails = recreatePins wanted source (fate.taken snapshotFails) false := by
  unfold recreatePins
  cases snapshotFails with
  | false => rfl
  | true => cases fate <;> rfl

/-- What the first phase returns of a name. -/
def recordOf (name : MapName) (pins : Pins) : Option Fate → Option Recreated
  | some .migrate => some ⟨name, pins.source.map KernelMap.snapshot, true⟩
  | some .recreateEmpty => some ⟨name, none, false⟩
  | _ => none

section
variable {s : Start} {d₀ : PinDir}

omit [Host] in
theorem recreateName_self {name : MapName} :
    Triple (fun d : PinDir => d name = d₀ name) (recreateName s (s.coupled d₀) (s.sourceOf d₀) name)
      (fun one d => one = recordOf name (d₀ name) (s.fateTaken d₀ name) ∧
        d name = (d₀ name).recreated (s.requested name) (s.fateTaken d₀ name))
      fun d => (d₀ name).Recreating (s.requested name) (s.fateTaken d₀ name) (d name) := by
  unfold recreateName Start.fateTaken Start.fateOf
  cases hsource : s.sourceOf d₀ name with
  | none => exact Triple.pure fun d hd => ⟨rfl, hd⟩
  | some found =>
    obtain ⟨source, existing, own⟩ := found
    dsimp only [Option.map_some]
    generalize coupledFate (s.coupled d₀) own name = fate
    split
    · rename_i hkeep
      rw [hkeep]
      have hnothing : Fate.keep.taken (s.snapshotFails name) = .keep := by simp [Fate.taken]
      rw [hnothing]
      exact Triple.pure fun d hd => ⟨rfl, hd⟩
    · rename_i hfate
      have htaken : fate.taken (s.snapshotFails name) ≠ .keep := by
        unfold Fate.taken
        split
        · exact fun h => nomatch h
        · exact hfate
      rw [recreatePins_taken]
      generalize fate.taken (s.snapshotFails name) = taken at htaken ⊢
      refine Triple.bind (Triple.focus (recreatePins_spec hsource htaken)) fun snapshot => ?_
      refine Triple.pure ?_
      rintro d ⟨rfl, hd⟩
      refine ⟨?_, hd⟩
      obtain ⟨-, hsome, -⟩ := under_of_pinSource hsource
      cases taken with
      | keep => exact absurd rfl htaken
      | migrate => simp [recordOf, Option.isSome_iff_ne_none, hsome]
      | recreateEmpty => rfl

omit [Host] in
theorem recreateName_other {name other : MapName} (hne : name ≠ other) (coupled : Fate × Fate)
    (sources : MapName → Option (Source × MapShape × Fate)) (R : Pins → Prop) :
    Triple (fun d : PinDir => R (d name)) (recreateName s coupled sources other)
      (fun one d => (∀ r ∈ one, r.name = other) ∧ R (d name)) fun d => R (d name) := by
  unfold recreateName
  cases sources other with
  | none => exact Triple.pure fun d hd => ⟨by simp, hd⟩
  | some found =>
    dsimp only
    split
    · exact Triple.pure fun d hd => ⟨by simp, hd⟩
    · exact Triple.bind (Triple.focus_of_ne hne _ R) fun snapshot => Triple.pure fun d hd => ⟨by simp, hd⟩

omit [Host] in
/-- **The first phase**, at one name, whether or not its entries can be read. -/
theorem recreateMismatchedPins_taken (d₀ : PinDir) (name : MapName) :
    Triple (· = d₀) (recreateMismatchedPins s)
      (fun recreated d => recreated.filter (·.name = name) = (recordOf name (d₀ name) (s.fateTaken d₀ name)).toList ∧
        d name = (d₀ name).recreated (s.requested name) (s.fateTaken d₀ name))
      fun d => (d₀ name).Recreating (s.requested name) (s.fateTaken d₀ name) (d name) := by
  refine Triple.bind (R := fun read d => d = d₀ ∧ read = (s.coupled d₀, s.sourceOf d₀)) (Triple.read ?_) fun read => ?_
  · rintro d rfl
    exact ⟨rfl, rfl⟩
  refine Triple.of_state ?_
  rintro d ⟨rfl, rfl⟩
  dsimp only
  -- before the name's turn its pins are as they were, after it as its fate has them
  let I (rest : List MapName) (sofar : List Recreated) (d' : PinDir) : Prop :=
    if name ∈ rest then (sofar.filter (·.name = name) = [] ∧ d' name = d name)
    else sofar.filter (·.name = name) = (recordOf name (d name) (s.fateTaken d name)).toList ∧
      d' name = (d name).recreated (s.requested name) (s.fateTaken d name)
  have hloop := Triple.collect (C := fun d' : PinDir =>
      (d name).Recreating (s.requested name) (s.fateTaken d name) (d' name))
    (f := recreateName s (s.coupled d) (s.sourceOf d)) (I := I) (l := mapNames) ?_ []
  · refine hloop.weaken ?_ ?_ fun _ h => h
    · rintro d' rfl
      exact (if_pos (mem_mapNames name)).mpr ⟨rfl, rfl⟩
    · intro recreated d' h
      simpa [I] using h
  · intro other rest sofar hsuffix
    have hnodup : (other :: rest).Nodup := List.Nodup.sublist hsuffix.sublist (by decide)
    by_cases hother : name = other
    · subst hother
      have hlater : name ∉ rest := (List.nodup_cons.mp hnodup).1
      simp only [I, List.mem_cons_self, if_true, hlater, if_false]
      refine Triple.of_fact fun hsofar => recreateName_self.post ?_
      rintro one d' ⟨rfl, hd'⟩
      refine ⟨?_, hd'⟩
      rw [List.filter_append, hsofar, List.nil_append]
      cases s.fateTaken d name with
      | none => rfl
      | some fate => cases fate <;> simp [recordOf]
    · have hmem : name ∈ other :: rest ↔ name ∈ rest := by simp [hother]
      simp only [I, hmem]
      by_cases hlater : name ∈ rest
      · simp only [hlater, if_true]
        refine Triple.of_fact fun hsofar => ?_
        refine (recreateName_other hother _ _ (· = d name)).weaken (fun _ h => h) ?_ fun d' h => Or.inl h
        rintro one d' ⟨hone, hd'⟩
        refine ⟨?_, hd'⟩
        rw [List.filter_append, hsofar, List.nil_append, List.filter_eq_nil_iff]
        intro r hr
        rw [hone r (Option.mem_toList.mp hr)]
        simp [Ne.symm hother]
      · simp only [hlater, if_false]
        refine Triple.of_fact fun hsofar => ?_
        refine (recreateName_other hother _ _ (· = _)).weaken (fun _ h => h) ?_ fun d' h => Or.inr (Or.inl h)
        rintro one d' ⟨hone, hd'⟩
        refine ⟨?_, hd'⟩
        have hnone : one.toList.filter (·.name = name) = [] := by
          rw [List.filter_eq_nil_iff]
          intro r hr
          rw [hone r (Option.mem_toList.mp hr)]
          simp [Ne.symm hother]
        rw [List.filter_append, hsofar, hnone, List.append_nil]

omit [Host] in
/-- **The first phase**, at one name. -/
theorem recreateMismatchedPins_at (d₀ : PinDir) {name : MapName} (hsnapshot : s.snapshotFails name = false) :
    Triple (· = d₀) (recreateMismatchedPins s)
      (fun recreated d => recreated.filter (·.name = name) = (recordOf name (d₀ name) (s.fateOf d₀ name)).toList ∧
        d name = (d₀ name).recreated (s.requested name) (s.fateOf d₀ name))
      fun d => (d₀ name).Recreating (s.requested name) (s.fateOf d₀ name) (d name) := by
  rw [← Start.fateTaken_eq hsnapshot d₀]
  exact recreateMismatchedPins_taken d₀ name

end

/-! ## The load and the unpinning, at one name -/

namespace Pins

omit [Host]

theorem create_create (wanted : MapShape) (pins : Pins) : (pins.create wanted).create wanted = pins.create wanted := by
  cases pins <;> rfl

theorem live_create (wanted : MapShape) (pins : Pins) : ∃ m, (pins.create wanted).live = some m := by
  cases pins <;> exact ⟨_, rfl⟩

theorem live_removeMigrating (pins : Pins) : pins.removeMigrating.live = pins.live := by cases pins <;> rfl

theorem removeMigrating_twice (pins : Pins) : pins.removeMigrating.removeMigrating = pins.removeMigrating := by
  cases pins <;> rfl

end Pins

omit [Host] in
/-- **The load**, at one name: a missing map is created. -/
theorem loadMaps_at (s : Start) (name : MapName) (pins : Pins) :
    Triple (fun d : PinDir => d name = pins) (loadMaps s) (fun _ d => d name = pins.create (s.requested name))
      fun d => d name = pins ∨ d name = pins.create (s.requested name) := by
  have hmem : name ∈ s.order.arrange mapNames := s.order.mem_arrange.mpr (mem_mapNames name)
  refine (Triple.forEach_act (g := fun name => Pins.create (s.requested name)) (i := name)
    (Pins.create_create _) (s.order.arrange mapNames) pins).weaken (fun _ h => h) ?_ ?_
  · intro _ d hd
    rwa [if_pos hmem] at hd
  · rintro d (hd | ⟨-, hd⟩)
    · exact Or.inl hd
    · exact Or.inr hd

omit [Host] in
/-- **The unpinning**, at one name. -/
theorem unparkMigrated_at (parked : List MapName) (name : MapName) (pins : Pins) :
    Triple (fun d : PinDir => d name = pins) (unparkMigrated parked)
      (fun _ d => d name = if name ∈ parked then pins.removeMigrating else pins)
      fun d => d name = pins ∨ (name ∈ parked ∧ d name = pins.removeMigrating) :=
  Triple.forEach_act (g := fun _ => Pins.removeMigrating) Pins.removeMigrating_twice parked pins

/-! ## The restore, at one name -/

/-- The pins have a value under the key in the map under the plain one. -/
def Pins.Has (pins : Pins) (key : List UInt8) : Prop := ∃ m, pins.live = some m ∧ m.get key ≠ Option.none

/-- Writes of the given entries keep `J` and every key, and a write that landed left its key. -/
def Writable (J : Pins → Prop) (writes : List Entry) : Prop :=
  ∀ pins entry refused victim, J pins → entry ∈ writes →
    J (pins.write entry refused victim).2 ∧ (∀ key, pins.Has key → (pins.write entry refused victim).2.Has key) ∧
      (writeLanded (pins.write entry refused victim).1 = true → (pins.write entry refused victim).2.Has entry.1)

/-- `J` holds of the pins of the name, and the keys of `R` are there. -/
def Kept (J : Pins → Prop) (name : MapName) (R : List UInt8 → Prop) (d : PinDir) : Prop :=
  J (d name) ∧ ∀ key, R key → (d name).Has key

section
variable {s : Start} {J : Pins → Prop} {writes : List Entry} {name : MapName} (hwrites : Writable J writes)

omit [Host]
include hwrites

theorem write_at {other : MapName} {entry : Entry} (hentry : other = name → entry ∈ writes) (R : List UInt8 → Prop) :
    Triple (Kept J name R) (s.write other entry)
      (fun result => Kept J name fun key => R key ∨ (writeLanded result = true ∧ other = name ∧ entry.1 = key))
      fun d => J (d name) := by
  by_cases hother : name = other
  · subst hother
    refine (Triple.focus (P := fun pins => J pins ∧ ∀ key, R key → pins.Has key)
      (Q := fun result pins => J pins ∧ ∀ key, R key ∨ (writeLanded result = true ∧ entry.1 = key) → pins.Has key)
      (Triple.call ?_)).weaken (fun _ h => h) ?_ fun _ h => h
    · rintro pins ⟨hJ, hR⟩
      obtain ⟨hJ', hkeep, hland⟩ := hwrites pins entry (s.refuses name entry) (s.victim name entry) hJ (hentry rfl)
      refine ⟨hJ', hJ', ?_⟩
      rintro key (hkey | ⟨hlanded, rfl⟩)
      · exact hkeep key (hR key hkey)
      · exact hland hlanded
    · rintro result d ⟨hJ, hR⟩
      exact ⟨hJ, fun key hkey => hR key (hkey.imp_right fun h => ⟨h.1, h.2.2⟩)⟩
  · refine (Triple.focus_of_ne hother _ fun pins => J pins ∧ ∀ key, R key → pins.Has key).weaken (fun _ h => h) ?_
      fun _ h => h.1
    rintro result d ⟨hJ, hR⟩
    refine ⟨hJ, ?_⟩
    rintro key (hkey | ⟨-, hname, -⟩)
    · exact hR key hkey
    · exact absurd hname.symm hother

theorem writeAll_at {other : MapName} {entries : List Entry} (hentries : other = name → ∀ e ∈ entries, e ∈ writes)
    (R : List UInt8 → Prop) : Triple (Kept J name R) (writeAll s.write other entries)
      (fun out => Kept J name fun key => R key ∨ (out.2 = [] ∧ other = name ∧ ∃ e ∈ entries, e.1 = key))
      fun d => J (d name) := by
  induction entries generalizing R with
  | nil => exact Triple.pure fun d hd => ⟨hd.1, fun key hkey => hd.2 key (by simpa using hkey)⟩
  | cons entry entries ih =>
    refine Triple.bind (write_at hwrites (fun h => hentries h _ List.mem_cons_self) R) fun result => ?_
    refine Triple.bind (ih (fun h e he => hentries h e (List.mem_cons_of_mem _ he)) _) ?_
    rintro ⟨landed, failures⟩
    refine Triple.pure ?_
    rintro d ⟨hJ, hR⟩
    refine ⟨hJ, ?_⟩
    rintro key (hkey | ⟨hnone, rfl, e, he, rfl⟩)
    · exact hR key (Or.inl (Or.inl hkey))
    · obtain ⟨hfailed, hfailures⟩ := List.append_eq_nil_iff.mp hnone
      rcases List.mem_cons.mp he with rfl | he
      · refine hR _ (Or.inl (Or.inr ⟨?_, rfl, rfl⟩))
        cases result with
        | ok _ => rfl
        | error err =>
          by_contra hnot
          simp [failuresOf, hnot] at hfailed
      · exact hR _ (Or.inr ⟨hfailures, rfl, e, he, rfl⟩)

theorem writeGeneric_at {generic : List (MapName × List Entry)}
    (hgeneric : ∀ p ∈ generic, p.1 = name → ∀ e ∈ p.2, e ∈ writes) (R : List UInt8 → Prop) :
    Triple (Kept J name R) (writeGeneric s.write generic)
      (fun failures => Kept J name fun key =>
        R key ∨ (failures = [] ∧ ∃ p ∈ generic, p.1 = name ∧ ∃ e ∈ p.2, e.1 = key))
      fun d => J (d name) := by
  induction generic generalizing R with
  | nil => exact Triple.pure fun d hd => ⟨hd.1, fun key hkey => hd.2 key (by simpa using hkey)⟩
  | cons p generic ih =>
    obtain ⟨other, entries⟩ := p
    refine Triple.bind (writeAll_at hwrites (hgeneric _ List.mem_cons_self) R) ?_
    rintro ⟨landed, failures⟩
    refine Triple.bind (ih (fun p hp => hgeneric p (List.mem_cons_of_mem _ hp)) _) fun more => Triple.pure ?_
    rintro d ⟨hJ, hR⟩
    refine ⟨hJ, ?_⟩
    rintro key (hkey | ⟨hnone, p, hp, hname, e, he, rfl⟩)
    · exact hR key (Or.inl (Or.inl hkey))
    · obtain ⟨hfailures, hmore⟩ := List.append_eq_nil_iff.mp hnone
      rcases List.mem_cons.mp hp with rfl | hp
      · exact hR _ (Or.inl (Or.inr ⟨hfailures, hname, e, he, rfl⟩))
      · exact hR _ (Or.inr ⟨hmore, p, hp, hname, e, he, rfl⟩)

theorem writeFrontRows_at {fronts : List FrontCopy}
    (hfronts : .frontEndpoints = name → ∀ f ∈ fronts, ∀ e ∈ f.rows, e ∈ writes) (R : List UInt8 → Prop) :
    Triple (Kept J name R) (writeFrontRows s.write fronts)
      (fun out => Kept J name fun key =>
        R key ∨ (out.2 = [] ∧ .frontEndpoints = name ∧ ∃ f ∈ fronts, ∃ e ∈ f.rows, e.1 = key))
      fun d => J (d name) := by
  induction fronts generalizing R with
  | nil => exact Triple.pure fun d hd => ⟨hd.1, fun key hkey => hd.2 key (by simpa using hkey)⟩
  | cons front fronts ih =>
    refine Triple.bind (writeAll_at hwrites (fun h => hfronts h _ List.mem_cons_self) R) ?_
    rintro ⟨results, failures⟩
    refine Triple.bind (ih (fun h f hf => hfronts h f (List.mem_cons_of_mem _ hf)) _) ?_
    rintro ⟨landed, more⟩
    refine Triple.pure ?_
    rintro d ⟨hJ, hR⟩
    refine ⟨hJ, ?_⟩
    rintro key (hkey | ⟨hnone, hname, f, hf, e, he, rfl⟩)
    · exact hR key (Or.inl (Or.inl hkey))
    · obtain ⟨hfailures, hmore⟩ := List.append_eq_nil_iff.mp hnone
      rcases List.mem_cons.mp hf with rfl | hf
      · exact hR _ (Or.inl (Or.inr ⟨hfailures, hname, e, he, rfl⟩))
      · exact hR _ (Or.inr ⟨hmore, hname, f, hf, e, he, rfl⟩)

variable (name) in
/-- **The restore**, at one name: what the plan writes there is written, or the start fails. -/
theorem applyPlan_at {plan : RestorePlan} (hgeneric : ∀ p ∈ plan.generic, p.1 = name → ∀ e ∈ p.2, e ∈ writes)
    (hrows : .frontEndpoints = name → ∀ f ∈ plan.fronts, ∀ e ∈ f.rows, e ∈ writes)
    (hmetas : .frontMeta = name → ∀ f ∈ plan.fronts, f.metaEntry ∈ writes) (R : List UInt8 → Prop) :
    Triple (Kept J name R) (applyPlan s.write plan)
      (fun _ => Kept J name fun key => R key ∨ (∃ p ∈ plan.generic, p.1 = name ∧ ∃ e ∈ p.2, e.1 = key) ∨
        (.frontEndpoints = name ∧ ∃ f ∈ plan.fronts, ∃ e ∈ f.rows, e.1 = key))
      fun d => J (d name) := by
  refine Triple.bind (writeGeneric_at hwrites hgeneric R) fun generic => ?_
  refine Triple.bind (writeFrontRows_at hwrites hrows _) ?_
  rintro ⟨landed, rows⟩
  refine Triple.bind (writeAll_at hwrites ?_ _) ?_
  · intro hname e he
    obtain ⟨⟨f, ok⟩, hf, rfl⟩ := List.mem_map.mp he
    exact hmetas hname f (List.of_mem_zip (List.mem_filter.mp hf).1).1
  rintro ⟨_, written⟩
  dsimp only
  unfold reportFailures
  split
  · rename_i hnone
    obtain ⟨hgen, hmore⟩ := List.append_eq_nil_iff.mp hnone
    obtain ⟨hrow, -⟩ := List.append_eq_nil_iff.mp hmore
    refine Triple.pure ?_
    rintro d ⟨hJ, hR⟩
    refine ⟨hJ, ?_⟩
    rintro key (hkey | hkey | hkey)
    · exact hR key (Or.inl (Or.inl (Or.inl hkey)))
    · exact hR key (Or.inl (Or.inl (Or.inr ⟨hgen, hkey⟩)))
    · exact hR key (Or.inl (Or.inr ⟨hrow, hkey⟩))
  · exact Triple.fail fun d hd => hd.1

end

/-! ## What is restored of a name -/

omit [Host]

theorem mem_snapshotsOf {recreated : List Recreated} {name : MapName} {entries : List Entry} :
    (name, entries) ∈ snapshotsOf recreated ↔
      ∃ r ∈ recreated.filter (·.name = name), r.snapshot = some entries := by
  simp only [snapshotsOf, List.mem_filterMap, Option.map_eq_some_iff, Prod.mk.injEq, List.mem_filter,
    decide_eq_true_eq]
  constructor
  · rintro ⟨r, hr, entries', hsnapshot, rfl, rfl⟩
    exact ⟨r, ⟨hr, rfl⟩, hsnapshot⟩
  · rintro ⟨r, ⟨hr, rfl⟩, hsnapshot⟩
    exact ⟨r, hr, entries, hsnapshot, rfl, rfl⟩

theorem mem_parked {recreated : List Recreated} {name : MapName} :
    name ∈ (recreated.filter (·.parked)).map (·.name) ↔
      ∃ r ∈ recreated.filter (·.name = name), r.parked = true := by
  simp only [List.mem_map, List.mem_filter, decide_eq_true_eq]
  constructor
  · rintro ⟨r, ⟨hr, hparked⟩, rfl⟩
    exact ⟨r, ⟨hr, rfl⟩, hparked⟩
  · rintro ⟨r, ⟨hr, rfl⟩, hparked⟩
    exact ⟨r, ⟨hr, hparked⟩, rfl⟩

variable [Host]

theorem mem_generic_planRestore {snapshots : List (MapName × List Entry)} {cap : MapName → UInt32} {name : MapName}
    {entries : List Entry} : (name, entries) ∈ (planRestore snapshots cap).generic ↔
      (name ≠ .frontMeta ∧ name ≠ .frontEndpoints) ∧
        ∃ all, (name, all) ∈ snapshots ∧ entries = all.take (cap name).toNat := by
  simp only [planRestore, List.mem_map, List.mem_filter, decide_eq_true_eq, Prod.mk.injEq]
  constructor
  · rintro ⟨⟨name', all⟩, ⟨hmem, hfront⟩, rfl, rfl⟩
    exact ⟨hfront, all, hmem, rfl⟩
  · rintro ⟨hfront, all, hmem, rfl⟩
    exact ⟨(name, all), ⟨hmem, hfront⟩, rfl, rfl⟩

/-- A front is copied only if both front maps have a snapshot to copy it from. -/
theorem rows_of_mem_fronts {snapshots : List (MapName × List Entry)} {cap : MapName → UInt32} {copy : FrontCopy}
    (h : copy ∈ (planRestore snapshots cap).fronts) :
    (∃ metas, (.frontMeta, metas) ∈ snapshots ∧ copy.metaEntry ∈ metas) ∧
      ∀ e ∈ copy.rows, ∃ endpoints, (.frontEndpoints, endpoints) ∈ snapshots ∧ e ∈ endpoints := by
  have hlast : ∀ {name : MapName} {e : Entry}, e ∈ (Table.lastValue snapshots name).getD [] →
      ∃ entries, (name, entries) ∈ snapshots ∧ e ∈ entries := by
    intro name e he
    cases hvalue : Table.lastValue snapshots name with
    | none =>
      rw [hvalue] at he
      exact nomatch he
    | some entries =>
      rw [hvalue] at he
      exact ⟨entries, Table.mem_of_lastValue hvalue, he⟩
  rw [fronts_planRestore] at h
  obtain ⟨hmeta, front, m, -, -, hrows, -⟩ := of_mem_copiedFronts h
  refine ⟨hlast hmeta, fun e he => hlast ?_⟩
  rw [hrows] at he
  exact (mem_liveRows.mp he).1

/-- **A name that has no snapshot** is left as it is, once its pins were replaced: it gets a map if it has none. -/
theorem loadRecreated_unwritten {s : Start} {recreated : List Recreated} {name : MapName} {pins : Pins}
    (hnone : ∀ r ∈ recreated.filter (·.name = name), r.snapshot = none ∧ r.parked = false) :
    Triple (fun d : PinDir => d name = pins) (loadRecreated s recreated)
      (fun _ d => d name = pins.create (s.requested name))
      fun d => d name = pins ∨ d name = pins.create (s.requested name) := by
  have hsnapshot : ∀ entries, (name, entries) ∉ snapshotsOf recreated := by
    intro entries hmem
    obtain ⟨r, hr, hsome⟩ := mem_snapshotsOf.mp hmem
    rw [(hnone r hr).1] at hsome
    cases hsome
  refine Triple.bind (loadMaps_at s name pins) fun _ => ?_
  refine Triple.bind (R := fun _ d => d name = pins.create (s.requested name)) ?_ fun _ => ?_
  · unfold restoreMigrated
    split
    · exact Triple.pure fun _ h => h
    · have hempty : Writable (· = pins.create (s.requested name)) [] := fun _ _ _ _ _ h => nomatch h
      refine (applyPlan_at (R := fun _ => False) name hempty ?_ ?_ ?_).weaken ?_ ?_ fun _ h => Or.inr h
      · rintro ⟨name', entries⟩ hp rfl
        obtain ⟨-, all, hmem, -⟩ := mem_generic_planRestore.mp hp
        exact absurd hmem (hsnapshot all)
      · rintro rfl f hf e he
        obtain ⟨endpoints, hmem, -⟩ := (rows_of_mem_fronts hf).2 e he
        exact absurd hmem (hsnapshot endpoints)
      · rintro rfl f hf
        obtain ⟨metas, hmem, -⟩ := (rows_of_mem_fronts hf).1
        exact absurd hmem (hsnapshot metas)
      · exact fun d h => ⟨h, fun _ hfalse => hfalse.elim⟩
      · exact fun _ d h => h.1
  · have hparked : name ∉ (recreated.filter (·.parked)).map (·.name) := by
      rw [mem_parked]
      rintro ⟨r, hr, htrue⟩
      rw [(hnone r hr).2] at htrue
      cases htrue
    refine (unparkMigrated_at _ name (pins.create (s.requested name))).weaken (fun _ h => h) ?_ ?_
    · intro _ d h
      rwa [if_neg hparked] at h
    · rintro d (h | ⟨hmem, -⟩)
      · exact Or.inr h
      · exact absurd hmem hparked

end Beep
