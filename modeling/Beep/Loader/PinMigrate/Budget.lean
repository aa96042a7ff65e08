import Beep.Loader.PinMigrate.FrontsCarried
import Beep.Loader.PinMigrate.GapFilling
import Beep.Loader.PinMigrate.Greedy

/-!
# `Loader.PinMigrate.Budget` — the restore writes, and the room there is for them

`plan_restore` counts as if the maps it writes to were empty. They are, unless a start finds a plain map of the wanted
shape next to the parked one, which it reuses with what an interrupted start wrote to it. As long as there is room in
such a map for what it lacks of the plan (`Start.Room`), no write finds its map full, and a start that nothing else
stops comes to its end and leaves no `_migrating` pin (`restore_within_budget`).
-/

namespace Beep

open Crash GapFill Run

/-! ## Maps with room -/

namespace KernelMap

/-- How many of the entries the map lacks. -/
def lacks (m : KernelMap) (writes : List Entry) : Nat := (writes.filter fun e => (m.get e.1).isNone).length

/-- There is room in the map for those of the entries it lacks. An LRU map makes room. -/
structure Roomy (m : KernelMap) (writes : List Entry) : Prop where
  lru : m.shape.mapType = bpfMapTypeLruHash → writes ≠ [] → 0 < m.shape.maxEntries.toNat
  room : m.shape.mapType ≠ bpfMapTypeLruHash →
    m.entries.entries.length + m.lacks writes ≤ m.shape.maxEntries.toNat

section
variable {m : KernelMap} {writes : List Entry} {entry : Entry}

/-- An entry that is new is lacking. -/
theorem lacks_pos (hentry : entry ∈ writes) (hnew : m.get entry.1 = none) : 0 < m.lacks writes := by
  refine List.length_pos_of_mem (a := entry) (List.mem_filter.mpr ⟨hentry, ?_⟩)
  rw [hnew]
  rfl

/-- An entry that is written is no longer lacking. -/
theorem lacks_insert (hentry : entry ∈ writes) (hnew : m.get entry.1 = none)
    (h : m.entries.entries.length < m.shape.maxEntries.toNat) : (m.insert entry h).lacks writes < m.lacks writes := by
  let lacking := writes.filter fun e => (m.get e.1).isNone
  have hstill : (writes.filter fun e => ((m.insert entry h).get e.1).isNone) =
      lacking.filter fun e => ((m.insert entry h).get e.1).isNone := by
    rw [List.filter_filter]
    refine List.filter_congr fun e _ => ?_
    rw [get_insert]
    split <;> simp
  unfold lacks
  rw [hstill]
  refine List.length_filter_lt_length_iff_exists.mpr ⟨entry, List.mem_filter.mpr ⟨hentry, ?_⟩, ?_⟩
  · rw [hnew]
    rfl
  · rw [get_insert, if_pos rfl]
    exact fun h => nomatch h

/-- An insertion adds one entry at most. -/
theorem length_insert_le (h : m.entries.entries.length < m.shape.maxEntries.toNat) :
    (m.insert entry h).entries.entries.length ≤ m.entries.entries.length + 1 := by
  show (AList.insert entry.1 entry.2 m.entries).entries.length ≤ _
  rw [AList.entries_insert, List.length_cons]
  exact Nat.succ_le_succ (List.kerase_sublist entry.1 m.entries.entries).length_le

/-- A key that is given up makes room. -/
theorem length_erase_lt {key : List UInt8} (hkey : key ∈ m.entries.keys) :
    (m.erase key).entries.entries.length < m.entries.entries.length := by
  have hkeys : m.entries.keys.length = m.entries.entries.length := List.length_map _
  have herased : (m.entries.erase key).keys.length = (m.entries.erase key).entries.length := List.length_map _
  have hpos := List.length_pos_of_mem hkey
  have hlength := @List.length_erase_of_mem _ instBEqOfDecidableEq _ _ _ hkey
  rw [← AList.keys_erase, herased, hkeys] at hlength
  show (m.entries.erase key).entries.length < _
  omega

/-- There is room for a new entry. -/
theorem Roomy.length_lt (h : m.Roomy writes) (hentry : entry ∈ writes) (hnew : m.get entry.1 = none)
    (hlru : m.shape.mapType ≠ bpfMapTypeLruHash) : m.entries.entries.length < m.shape.maxEntries.toNat := by
  have hroom := h.room hlru
  have hpos := lacks_pos hentry hnew
  omega

/-- **A write leaves room** for the others. -/
theorem Roomy.updateNoExist (h : m.Roomy writes) (hentry : entry ∈ writes) (refused : Option Refusal) (victim : Nat) :
    (m.updateNoExist entry refused victim).2.Roomy writes := by
  have hshape := shape_updateNoExist m entry refused victim
  refine ⟨fun hlru hne => ?_, fun hlru => ?_⟩
  · rw [hshape] at hlru ⊢
    exact h.lru hlru hne
  · rw [hshape] at hlru ⊢
    have hroom := h.room hlru
    rcases updateNoExist_cases (fun _ h => absurd h hlru) refused victim with
      ⟨e, heq⟩ | ⟨_, heq⟩ | ⟨hnew, hlen, heq⟩
    · rw [heq]
      exact hroom
    · rw [heq]
      exact hroom
    · rw [heq]
      have hlength : (m.insert entry hlen).entries.entries.length ≤ _ := length_insert_le hlen
      have hlacks := lacks_insert hentry hnew hlen
      dsimp only
      omega

/-- **A write that the kernel does not refuse lands.** -/
theorem Roomy.landed (h : m.Roomy writes) (hentry : entry ∈ writes) (victim : Nat) :
    writeLanded (m.updateNoExist entry none victim).1 = true := by
  unfold KernelMap.updateNoExist
  dsimp only
  split
  · rfl
  rename_i hnew
  split
  · rfl
  rename_i hfull
  by_cases hlru : m.shape.mapType = bpfMapTypeLruHash
  · rw [if_pos hlru]
    -- there is an entry to give up
    have hpos := h.lru hlru (List.ne_nil_of_mem hentry)
    have hkeys : m.entries.keys.length = m.entries.entries.length := List.length_map _
    have hvictim : victim % m.entries.keys.length < m.entries.keys.length := Nat.mod_lt _ (by omega)
    rw [List.getElem?_eq_getElem hvictim]
    dsimp only
    have herase := length_erase_lt (List.getElem_mem hvictim)
    replace herase := herase.trans_le m.bounded
    rw [dif_pos herase]
    rfl
  · -- a map of any other type is not full
    have hroom := h.length_lt hentry (Option.not_isSome_iff_eq_none.mp hnew) hlru
    exact absurd hroom hfull

end

end KernelMap

namespace Pins

/-- The write would bring the map above its `max_entries`. -/
def exceeds (pins : Pins) (entry : Entry) : Bool :=
  pins.live.any fun m => (m.get entry.1).isNone && m.shape.mapType != bpfMapTypeLruHash &&
    decide (m.shape.maxEntries.toNat ≤ m.entries.entries.length)

/-- There is a map under the plain pin, with room. -/
def Roomy (pins : Pins) (writes : List Entry) : Prop := ∃ m, pins.live = some m ∧ m.Roomy writes

section
variable {pins : Pins} {writes : List Entry} {entry : Entry}

/-- Where there is room no write exceeds the map. -/
theorem Roomy.not_exceeds (h : pins.Roomy writes) (hentry : entry ∈ writes) : pins.exceeds entry = false := by
  obtain ⟨m, hlive, hroom⟩ := h
  rw [exceeds, hlive, Option.any_some]
  by_contra hexceeds
  simp only [Bool.not_eq_false, Bool.and_eq_true, Option.isNone_iff_eq_none, bne_iff_ne, decide_eq_true_eq] at hexceeds
  obtain ⟨⟨hnew, hlru⟩, hfull⟩ := hexceeds
  exact absurd (hroom.length_lt hentry hnew hlru) (by omega)

/-- **A write** that is planned keeps the room, what is parked, and lands unless the kernel refuses it. -/
theorem Roomy.write (h : pins.Roomy writes) (hentry : entry ∈ writes) (refused : Option Refusal) (victim : Nat) :
    (pins.write entry refused victim).2.Roomy writes ∧
      ((pins.write entry refused victim).2.parked = Option.none ↔ pins.parked = Option.none) ∧
      (refused = Option.none → writeLanded (pins.write entry refused victim).1 = true) := by
  obtain ⟨m, hlive, hroom⟩ := h
  have hkeeps := hroom.updateNoExist hentry refused victim
  have hlands : refused = Option.none → writeLanded (m.updateNoExist entry refused victim).1 = true := by
    rintro rfl
    exact hroom.landed hentry victim
  cases pins with
  | none | migrating _ => cases hlive
  | plain _ | both _ _ | shared _ =>
    obtain rfl := Option.some_inj.mp hlive
    exact ⟨⟨_, rfl, hkeeps⟩, by simp [Pins.write, Pins.parked], hlands⟩

end

end Pins

/-! ## Writers with an account -/

/-- The write to the pins, with an account of the maps that were found full. -/
def Start.notedWrite (s : Start) (name : MapName) (entry : Entry) :
    Prog (PinDir × List MapName) RestoreFailure (Except IoError Unit) :=
  Prog.call fun at' =>
    (((at'.1 name).write entry (s.refuses name entry) (s.victim name entry)).1,
      (Function.update at'.1 name ((at'.1 name).write entry (s.refuses name entry) (s.victim name entry)).2,
        if (at'.1 name).exceeds entry then at'.2 ++ [name] else at'.2))

/-- The account is all that is added. -/
theorem notedWrite_projects (s : Start) (name : MapName) (entry : Entry) :
    Prog.Projects Prod.fst (s.notedWrite name entry) (s.write name entry) := fun _ => rfl

section
variable {σ τ : Type} {π : σ → τ} {write : MapName → Entry → Prog σ RestoreFailure (Except IoError Unit)}
  {write' : MapName → Entry → Prog τ RestoreFailure (Except IoError Unit)}
  (hwrite : ∀ name entry, Prog.Projects π (write name entry) (write' name entry))

include hwrite

/-- One map's entries, one after the other. -/
theorem writeAll_projects (name : MapName) (entries : List Entry) :
    Prog.Projects π (writeAll write name entries) (writeAll write' name entries) := by
  induction entries with
  | nil => exact Prog.Projects.pure
  | cons entry entries ih => exact (hwrite name entry).bind fun _ => ih.bind fun _ => Prog.Projects.pure

/-- **The account changes nothing**: the plan is run as it is without it. -/
theorem applyPlan_projects (plan : RestorePlan) :
    Prog.Projects π (applyPlan write plan) (applyPlan write' plan) := by
  have hgeneric : ∀ generic, Prog.Projects π (writeGeneric write generic) (writeGeneric write' generic) := by
    intro generic
    induction generic with
    | nil => exact Prog.Projects.pure
    | cons p generic ih =>
      exact (writeAll_projects hwrite p.1 p.2).bind fun _ => ih.bind fun _ => Prog.Projects.pure
  have hrows : ∀ fronts, Prog.Projects π (writeFrontRows write fronts) (writeFrontRows write' fronts) := by
    intro fronts
    induction fronts with
    | nil => exact Prog.Projects.pure
    | cons front fronts ih =>
      exact (writeAll_projects hwrite _ front.rows).bind fun _ => ih.bind fun _ => Prog.Projects.pure
  refine (hgeneric _).bind fun generic => (hrows _).bind fun rows => ?_
  refine (writeAll_projects hwrite _ _).bind fun written => ?_
  show Prog.Projects π (reportFailures (generic ++ (rows.2 ++ written.2))) (reportFailures _)
  cases generic ++ (rows.2 ++ written.2) with
  | nil => exact Prog.Projects.pure
  | cons first more => exact Prog.Projects.fail

end

/-! ## What every write keeps -/

section
variable {σ : Type} {write : MapName → Entry → Prog σ RestoreFailure (Except IoError Unit)} {I : σ → Prop}
  {lands : Prop} {planned : MapName → Entry → Prop}
  (hwrite : ∀ name entry t, planned name entry → I t →
    ∃ r t', (write name entry).Ends t r t' ∧ I t' ∧ (lands → writeLanded r = true))

/-- A write that landed reports no failure. -/
theorem failuresOf_of_landed {name : MapName} {r : Except IoError Unit} (h : writeLanded r = true) :
    failuresOf name r = [] := by
  unfold failuresOf
  cases r with
  | ok _ => rfl
  | error e => exact if_pos h

include hwrite

/-- The entries of one map, by induction on them. -/
theorem writeAll_keeps {name : MapName} {entries : List Entry} (hplanned : ∀ e ∈ entries, planned name e) {t : σ}
    (ht : I t) : ∃ out t', (writeAll write name entries).Ends t out t' ∧ I t' ∧ (lands → out.2 = []) := by
  induction entries generalizing t with
  | nil => exact ⟨_, t, Prog.Ends.pure, ht, fun _ => rfl⟩
  | cons entry entries ih =>
    obtain ⟨r, t₁, hends, ht₁, hlands⟩ := hwrite name entry t (hplanned entry List.mem_cons_self) ht
    obtain ⟨out, t₂, hends', ht₂, hnone⟩ := ih (fun e he => hplanned e (List.mem_cons_of_mem _ he)) ht₁
    refine ⟨_, t₂, hends.bind (hends'.bind Prog.Ends.pure), ht₂, fun h => ?_⟩
    show failuresOf name r ++ out.2 = []
    rw [failuresOf_of_landed (hlands h), hnone h, List.append_nil]

/-- The maps that are copied whole. -/
theorem writeGeneric_keeps {generic : List (MapName × List Entry)}
    (hplanned : ∀ p ∈ generic, ∀ e ∈ p.2, planned p.1 e) {t : σ} (ht : I t) :
    ∃ out t', (writeGeneric write generic).Ends t out t' ∧ I t' ∧ (lands → out = []) := by
  induction generic generalizing t with
  | nil => exact ⟨_, t, Prog.Ends.pure, ht, fun _ => rfl⟩
  | cons p generic ih =>
    obtain ⟨failures, t₁, hends, ht₁, hnone⟩ := writeAll_keeps hwrite (hplanned p List.mem_cons_self) ht
    obtain ⟨more, t₂, hends', ht₂, hnone'⟩ := ih (fun q hq => hplanned q (List.mem_cons_of_mem _ hq)) ht₁
    refine ⟨_, t₂, hends.bind (hends'.bind Prog.Ends.pure), ht₂, fun h => ?_⟩
    show failures.2 ++ more = []
    rw [hnone h, hnone' h, List.append_nil]

/-- The endpoint rows, front by front. -/
theorem writeFrontRows_keeps {fronts : List FrontCopy}
    (hplanned : ∀ f ∈ fronts, ∀ e ∈ f.rows, planned .frontEndpoints e) {t : σ} (ht : I t) :
    ∃ out t', (writeFrontRows write fronts).Ends t out t' ∧ I t' ∧ (lands → out.2 = []) := by
  induction fronts generalizing t with
  | nil => exact ⟨_, t, Prog.Ends.pure, ht, fun _ => rfl⟩
  | cons front fronts ih =>
    obtain ⟨failures, t₁, hends, ht₁, hnone⟩ := writeAll_keeps hwrite (hplanned front List.mem_cons_self) ht
    obtain ⟨more, t₂, hends', ht₂, hnone'⟩ := ih (fun f hf => hplanned f (List.mem_cons_of_mem _ hf)) ht₁
    refine ⟨_, t₂, hends.bind (hends'.bind Prog.Ends.pure), ht₂, fun h => ?_⟩
    show failures.2 ++ more.2 = []
    rw [hnone h, hnone' h, List.append_nil]

/-- **What every planned write keeps, the plan keeps**, and if they all land it ends well. -/
theorem applyPlan_keeps {plan : RestorePlan} (hplanned : ∀ w ∈ plannedWrites plan, planned w.table (w.key, w.value))
    {t : σ} (ht : I t) : I ((applyPlan write plan).run t).final ∧
      (lands → (applyPlan write plan).Ends t () ((applyPlan write plan).run t).final) := by
  have hgeneric : ∀ p ∈ plan.generic, ∀ e ∈ p.2, planned p.1 e := fun p hp e he =>
    hplanned (restoreWrite p.1 e) (List.mem_append_left _ (List.mem_append_left _
      (List.mem_flatMap.mpr ⟨p, hp, List.mem_map.mpr ⟨e, he, rfl⟩⟩)))
  have hrows : ∀ f ∈ plan.fronts, ∀ e ∈ f.rows, planned .frontEndpoints e := fun f hf e he =>
    hplanned (restoreWrite .frontEndpoints e) (List.mem_append_left _ (List.mem_append_right _
      (List.mem_flatMap.mpr ⟨f, hf, List.mem_map.mpr ⟨e, he, rfl⟩⟩)))
  have hmetas : ∀ f ∈ plan.fronts, planned .frontMeta f.metaEntry := fun f hf =>
    hplanned (restoreWrite .frontMeta f.metaEntry) (List.mem_append_right _
      (List.mem_map.mpr ⟨_, List.mem_map.mpr ⟨f, hf, rfl⟩, rfl⟩))
  obtain ⟨generic, t₁, hends₁, ht₁, hnone₁⟩ := writeGeneric_keeps hwrite hgeneric ht
  obtain ⟨rows, t₂, hends₂, ht₂, hnone₂⟩ := writeFrontRows_keeps hwrite hrows ht₁
  have hwritten : ∀ e ∈ ((plan.fronts.zip rows.1).filter (·.2)).map (·.1.metaEntry), planned .frontMeta e := by
    intro e he
    obtain ⟨⟨f, ok⟩, hf, rfl⟩ := List.mem_map.mp he
    exact hmetas f (List.of_mem_zip (List.mem_filter.mp hf).1).1
  obtain ⟨written, t₃, hends₃, ht₃, hnone₃⟩ := writeAll_keeps hwrite hwritten ht₂
  have hresult : ((applyPlan write plan).run t).result =
      ((reportFailures (generic ++ (rows.2 ++ written.2)) : Prog σ RestoreFailure Unit).run t₃).result := by
    unfold applyPlan
    rw [hends₁.andThen.1, hends₂.andThen.1, hends₃.andThen.1]
  have hfinal : ((applyPlan write plan).run t).final =
      ((reportFailures (generic ++ (rows.2 ++ written.2)) : Prog σ RestoreFailure Unit).run t₃).final := by
    unfold applyPlan
    rw [hends₁.andThen.2, hends₂.andThen.2, hends₃.andThen.2]
  constructor
  · rw [hfinal]
    cases generic ++ (rows.2 ++ written.2) <;> exact ht₃
  · intro h
    refine ⟨?_, rfl⟩
    rw [hresult, hnone₁ h, hnone₂ h, hnone₃ h]
    rfl

end

/-! ## What a start copies -/

section
variable [Host]

namespace Start

variable (s : Start) (d : PinDir)

/-- The entries of a name that a start reads to carry them over. -/
def taken (name : MapName) : List Entry :=
  if s.fateTaken d name = some .migrate then ((d name).source.map KernelMap.snapshot).getD [] else []

/-- The fronts it copies. -/
def copies : List FrontCopy :=
  copiedFronts (s.taken d .frontMeta) (s.taken d .frontEndpoints) (s.requested .frontMeta).maxEntries.toNat
    (s.requested .frontEndpoints).maxEntries.toNat

/-- What it writes to the map of a name. -/
def copiedTo (name : MapName) : List Entry :=
  if name = .frontMeta then (s.copies d).map (·.metaEntry)
  else if name = .frontEndpoints then (s.copies d).flatMap (·.rows)
  else (s.taken d name).take (s.requested name).maxEntries.toNat

/-- Where a start that migrates a name reuses the plain map that it finds next to the parked one, there is room for the
    entries that are copied and not there yet. -/
def Room : Prop :=
  ∀ name m, s.fateTaken d name = some .migrate → (d name).reused (s.requested name) = some m →
    m.shape.mapType ≠ bpfMapTypeLruHash →
    m.entries.entries.length + m.lacks (s.copiedTo d name) ≤ m.shape.maxEntries.toNat

variable {s d} {name : MapName}

/-- Nothing is written to a map that is not migrated. -/
theorem copiedTo_eq_nil (h : s.fateTaken d name ≠ some .migrate) : s.copiedTo d name = [] := by
  have htaken : s.taken d name = [] := if_neg h
  unfold copiedTo
  split
  · rename_i hname
    rw [List.map_eq_nil_iff, List.eq_nil_iff_forall_not_mem]
    intro copy hcopy
    have hmem := (of_mem_copiedFronts hcopy).1
    rw [← hname, htaken] at hmem
    cases hmem
  · split
    · rename_i hname
      rw [List.flatMap_eq_nil_iff]
      intro copy hcopy
      obtain ⟨-, front, m, -, -, hrows, -⟩ := of_mem_copiedFronts hcopy
      rw [← hname, htaken] at hrows
      exact hrows
    · rw [htaken, List.take_nil]

/-- What is copied fits an empty map. -/
theorem length_copiedTo_le : (s.copiedTo d name).length ≤ (s.requested name).maxEntries.toNat := by
  have hfit : (s.copies d).length ≤ (s.requested .frontMeta).maxEntries.toNat ∧
      ((s.copies d).map (·.rows.length)).sum ≤ (s.requested .frontEndpoints).maxEntries.toNat := by
    unfold copies copiedFronts
    refine firstFit_keeps (P := fun taken : List FrontCopy =>
      taken.length ≤ (s.requested .frontMeta).maxEntries.toNat ∧
        (taken.map (·.rows.length)).sum ≤ (s.requested .frontEndpoints).maxEntries.toNat) ?_ ?_ _
    · rintro taken copy - ⟨hmeta, hrows⟩
      simp only [List.length_append, List.length_singleton, List.map_append, List.sum_append, List.map_cons,
        List.map_nil, List.sum_singleton]
      exact ⟨hmeta, hrows⟩
    · exact ⟨Nat.zero_le _, Nat.zero_le _⟩
  unfold copiedTo
  split
  · rename_i hname
    rw [List.length_map, hname]
    exact hfit.1
  · split
    · rename_i hname
      rw [List.length_flatMap, hname]
      exact hfit.2
    · exact List.length_take_le _ _

/-! ## The pins that the writes begin with -/

variable (s d) in
/-- The pins of a name when the writes begin. -/
def prepared (name : MapName) : Pins :=
  ((d name).recreated (s.requested name) (s.fateTaken d name)).create (s.requested name)

/-- An empty map has room for what is copied. -/
theorem roomy_new : (KernelMap.new (s.requested name)).Roomy (s.copiedTo d name) := by
  have hlength : (s.copiedTo d name).length ≤ (s.requested name).maxEntries.toNat := length_copiedTo_le
  refine ⟨fun _ hne => (List.length_pos_of_ne_nil hne).trans_le hlength, fun _ => ?_⟩
  have hlacks := List.length_filter_le (fun e : Entry => ((KernelMap.new (s.requested name)).get e.1).isNone)
    (s.copiedTo d name)
  show 0 + (KernelMap.new (s.requested name)).lacks (s.copiedTo d name) ≤ (s.requested name).maxEntries.toNat
  unfold KernelMap.lacks
  omega

/-- A map that is reused has room for what it lacks of the copies. -/
theorem roomy_reused (hroom : s.Room d) (hfate : s.fateTaken d name = some .migrate) {m : KernelMap}
    (hreused : (d name).reused (s.requested name) = some m) (hfits : m.shape.Fits (s.requested name)) :
    m.Roomy (s.copiedTo d name) := by
  refine ⟨fun _ hne => ?_, hroom name m hfate hreused⟩
  have hlength : (s.copiedTo d name).length ≤ (s.requested name).maxEntries.toNat := length_copiedTo_le
  rw [(MapShape.fits_iff.mp hfits).2.1]
  exact (List.length_pos_of_ne_nil hne).trans_le hlength

omit [Host] in
/-- A name that is migrated has entries to carry over. -/
theorem source_of_migrate (hfate : s.fateTaken d name = some .migrate) : ∃ m, (d name).source = some m := by
  unfold fateTaken fateOf at hfate
  rw [Option.map_map] at hfate
  obtain ⟨⟨source, existing, own⟩, hsource, -⟩ := Option.map_eq_some_iff.mp hfate
  exact Option.ne_none_iff_exists'.mp (under_of_pinSource hsource).2.1

/-- **There is room** when the writes begin. -/
theorem roomy_prepared (hroom : s.Room d) (name : MapName) : (s.prepared d name).Roomy (s.copiedTo d name) := by
  by_cases hfate : s.fateTaken d name = some .migrate
  · obtain ⟨m, hm⟩ := source_of_migrate hfate
    unfold prepared
    rw [hfate]
    show (((d name).readied (s.requested name)).create (s.requested name)).Roomy _
    rcases Pins.readied_of_source (s.requested name) hm with
      ⟨hready, -⟩ | ⟨live, hready, -, hfits, hreused⟩ | ⟨hready, -, hfits, hreused⟩ <;> rw [hready]
    · exact ⟨_, rfl, roomy_new⟩
    · exact ⟨live, rfl, roomy_reused hroom hfate hreused hfits⟩
    · exact ⟨m, rfl, roomy_reused hroom hfate hreused hfits⟩
  · -- nothing is to be written there
    obtain ⟨m, hm⟩ := Pins.live_create (s.requested name) ((d name).recreated (s.requested name) (s.fateTaken d name))
    rw [copiedTo_eq_nil hfate]
    exact ⟨m, hm, fun _ hne => absurd rfl hne, fun _ => m.bounded⟩

omit [Host] in
/-- What is parked is never kept. -/
theorem parked_of_keep {wanted : MapShape} {pins : Pins} {source : Source} {existing : MapShape}
    {own : Fate} (hsource : pinSource (pins.live.map (·.shape)) (pins.parked.map (·.shape)) wanted =
      some (source, existing, own)) (hown : own = .keep) : pins.parked = none := by
  cases hparked : pins.parked with
  | none => rfl
  | some m =>
    rw [hparked, Option.map_some, pinSource] at hsource
    obtain ⟨-, -, hfate⟩ := by simpa only [Option.some.injEq, Prod.mk.injEq] using hsource
    rw [hown] at hfate
    revert hfate
    cases pinFate m.shape wanted <;> intro hfate <;> cases hfate

omit [Host] in
/-- A map that is kept is one whose own fate it is. -/
theorem own_of_keep {source : Source} {existing : MapShape} {own : Fate}
    (hsource : s.sourceOf d name = some (source, existing, own)) (hkeep : coupledFate (s.coupled d) own name = .keep) :
    own = .keep := by
  have hboth : ∀ metas endpoints, coupleFrontFates metas endpoints = (.keep, .keep) →
      (∀ fate, metas = some fate → fate = .keep) ∧ ∀ fate, endpoints = some fate → fate = .keep := by
    intro metas endpoints h
    rcases metas with _ | ⟨_ | _ | _⟩ <;> rcases endpoints with _ | ⟨_ | _ | _⟩ <;>
      simp [coupleFrontFates] at h ⊢
  have hpair : (s.coupled d).1 = .keep ∨ (s.coupled d).2 = .keep → s.coupled d = (.keep, .keep) := by
    unfold coupled coupleFrontFates
    dsimp only
    intro h
    rw [h.elim id id]
  cases name with
  | frontMeta =>
    refine (hboth _ _ (hpair (Or.inl hkeep))).1 own ?_
    rw [hsource]
    rfl
  | frontEndpoints =>
    refine (hboth _ _ (hpair (Or.inr hkeep))).2 own ?_
    rw [hsource]
    rfl
  | _ => exact hkeep

omit [Host] in
/-- A name that is not migrated has nothing parked when the writes begin. -/
theorem parked_prepared (hfate : s.fateTaken d name ≠ some .migrate) : (s.prepared d name).parked = none := by
  have hcreate : ∀ pins : Pins, pins.parked = none → (pins.create (s.requested name)).parked = none := by
    intro pins hpins
    cases pins with
    | migrating m => cases hpins
    | none | plain _ | both _ _ | shared _ => exact hpins
  refine hcreate _ ?_
  cases htaken : s.fateTaken d name with
  | none =>
    show (d name).parked = none
    unfold fateTaken fateOf sourceOf at htaken
    rw [Option.map_eq_none_iff, Option.map_eq_none_iff] at htaken
    cases hpins : d name with
    | none => rfl
    | plain m => rfl
    | migrating m | both _ m | shared m =>
      rw [hpins] at htaken
      cases htaken
  | some fate =>
    cases fate with
    | migrate => exact absurd htaken hfate
    | recreateEmpty => rfl
    | keep =>
      show (d name).parked = none
      unfold fateTaken fateOf at htaken
      rw [Option.map_map] at htaken
      obtain ⟨⟨source, existing, own⟩, hsource, hkeep⟩ := Option.map_eq_some_iff.mp htaken
      refine parked_of_keep hsource (own_of_keep hsource ?_)
      -- reading the entries or not makes no difference here
      revert hkeep
      show Fate.taken _ (coupledFate (s.coupled d) own name) = .keep → _
      unfold Fate.taken
      split
      · exact fun h => nomatch h
      · exact id

/-! ## What is planned -/

/-- What the first phase returned. -/
def Records (s : Start) (d : PinDir) (recreated : List Recreated) : Prop :=
  ∀ name, recreated.filter (·.name = name) = (recordOf name (d name) (s.fateTaken d name)).toList

section
variable {recreated : List Recreated} (hrecords : s.Records d recreated)

include hrecords

omit [Host] in
/-- A snapshot among the records is the one that was taken. -/
theorem Records.mem_snapshots {entries : List Entry} (h : (name, entries) ∈ snapshotsOf recreated) :
    entries = s.taken d name := by
  obtain ⟨r, hr, hsnapshot⟩ := mem_snapshotsOf.mp h
  rw [hrecords name, Option.mem_toList] at hr
  unfold taken
  cases hfate : s.fateTaken d name with
  | none =>
    rw [hfate] at hr
    cases hr
  | some fate =>
    rw [hfate] at hr
    cases fate with
    | keep => cases hr
    | recreateEmpty =>
      obtain rfl := Option.some_inj.mp hr
      cases hsnapshot
    | migrate =>
      obtain rfl := Option.some_inj.mp hr
      rw [if_pos rfl, show (d name).source.map KernelMap.snapshot = some entries from hsnapshot]
      rfl

omit [Host] in
/-- The last snapshot of a map is the one that was taken. -/
theorem Records.lastValue (name : MapName) :
    (Table.lastValue (snapshotsOf recreated) name).getD [] = s.taken d name := by
  cases hlast : Table.lastValue (snapshotsOf recreated) name with
  | some entries => exact Records.mem_snapshots hrecords (Table.mem_of_lastValue hlast)
  | none =>
    -- nothing was read of it
    symm
    unfold taken
    split
    · rename_i hfate
      obtain ⟨m, hm⟩ := source_of_migrate hfate
      have hmem : (name, m.snapshot) ∈ snapshotsOf recreated := by
        refine mem_snapshotsOf.mpr ⟨⟨name, some m.snapshot, true⟩, ?_, rfl⟩
        rw [hrecords name, hfate, Option.mem_toList]
        simp [recordOf, hm]
      exact absurd rfl (Table.lastValue_eq_none.mp hlast _ hmem)
    · rfl

/-- **The plan writes what is said to be copied.** -/
theorem Records.planned {w : MapWrite}
    (hw : w ∈ plannedWrites (planRestore (snapshotsOf recreated) fun name => (s.requested name).maxEntries)) :
    (w.key, w.value) ∈ s.copiedTo d w.table := by
  have hfronts :
      (planRestore (snapshotsOf recreated) fun name => (s.requested name).maxEntries).fronts = s.copies d := by
    rw [fronts_planRestore, Records.lastValue hrecords, Records.lastValue hrecords]
    rfl
  unfold plannedWrites planWrites at hw
  rw [hfronts] at hw
  rcases List.mem_append.mp hw with hw | hw
  · rcases List.mem_append.mp hw with hw | hw
    · obtain ⟨⟨name, entries⟩, hp, hw⟩ := List.mem_flatMap.mp hw
      obtain ⟨e, he, rfl⟩ := List.mem_map.mp hw
      obtain ⟨⟨hmeta, hendpoints⟩, all, hmem, rfl⟩ := mem_generic_planRestore.mp hp
      show e ∈ s.copiedTo d name
      rw [copiedTo, if_neg hmeta, if_neg hendpoints, ← Records.mem_snapshots hrecords hmem]
      exact he
    · obtain ⟨copy, hcopy, hw⟩ := List.mem_flatMap.mp hw
      obtain ⟨e, he, rfl⟩ := List.mem_map.mp hw
      exact List.mem_flatMap.mpr ⟨copy, hcopy, he⟩
  · obtain ⟨e, he, rfl⟩ := List.mem_map.mp hw
    exact he

omit [Host] in
/-- The records say which maps are parked. -/
theorem Records.parked_iff :
    name ∈ (recreated.filter (·.parked)).map (·.name) ↔ s.fateTaken d name = some .migrate := by
  rw [mem_parked, hrecords name]
  cases s.fateTaken d name with
  | none => simp [recordOf]
  | some fate => cases fate <;> simp [recordOf]

end

/-! ## The start -/

omit [Host] in
/-- Recreating ends with a value from everywhere. -/
theorem recreate_total (s : Start) : (recreateMismatchedPins s).Total := by
  have hreplace : ∀ (wanted : MapShape) source keeps, (replacePins wanted source keeps).Total := by
    intro wanted source keeps
    cases source <;> cases keeps
    · exact Prog.Total.act
    · exact Prog.Total.act.bind fun _ => Prog.Total.act
    · refine Prog.Total.act.bind fun _ => Prog.Total.read.bind fun live => ?_
      split
      · exact Prog.Total.act
      · exact Prog.Total.pure
    · refine Prog.Total.read.bind fun live => ?_
      split
      · exact Prog.Total.act
      · exact Prog.Total.pure
  have hpins : ∀ (wanted : MapShape) source fate fails, (recreatePins wanted source fate fails).Total := by
    intro wanted source fate fails
    exact Prog.Total.read.bind fun _ => (hreplace _ _ _).bind fun _ => Prog.Total.pure
  refine Prog.Total.read.bind fun read => Prog.Total.collect (fun name => ?_) _
  unfold recreateName
  split
  · exact Prog.Total.pure
  · dsimp only
    split
    · exact Prog.Total.pure
    · exact ((hpins _ _ _ _).focus _).bind fun _ => Prog.Total.pure

omit [Host] in
/-- So does loading the maps. -/
theorem loadMaps_total (s : Start) : (loadMaps s).Total := Prog.Total.forEach (fun _ => Prog.Total.act.focus _) _

omit [Host] in
/-- And unpinning the parked ones. -/
theorem unpark_total (parked : List MapName) : (unparkMigrated parked).Total :=
  Prog.Total.forEach (fun _ => Prog.Total.act.focus _) _

omit [Host] in
/-- The two phases before the writes. -/
theorem records_of_ends {recreated : List Recreated} {d₁ d₂ : PinDir}
    (hrecreate : (recreateMismatchedPins s).Ends d recreated d₁) (hload : (loadMaps s).Ends d₁ () d₂) :
    s.Records d recreated ∧ ∀ name, d₂ name = s.prepared d name := by
  have hat : ∀ name, _ := fun name => (recreateMismatchedPins_taken d name).of_ends rfl hrecreate
  refine ⟨fun name => (hat name).1, fun name => ?_⟩
  rw [(loadMaps_at s name (d₁ name)).of_ends rfl hload, (hat name).2]
  rfl

/-- What the writes keep: none found its map full, there is room for the others, and what is parked stays parked. -/
structure Filling (s : Start) (d : PinDir) (noted : PinDir × List MapName) : Prop where
  within : noted.2 = []
  roomy : ∀ name, (noted.1 name).Roomy (s.copiedTo d name)
  parked : ∀ name, s.fateTaken d name ≠ some .migrate → (noted.1 name).parked = none

/-- **One write of the plan**: there is room left for the others, and it lands unless it is refused. -/
theorem Filling.write {noted : PinDir × List MapName} (h : s.Filling d noted) {entry : Entry}
    (hentry : entry ∈ s.copiedTo d name) : ∃ r noted', (s.notedWrite name entry).Ends noted r noted' ∧
      s.Filling d noted' ∧ ((∀ name entry, s.refuses name entry = none) → writeLanded r = true) := by
  obtain ⟨hroomy, hparked, hlands⟩ :=
    (h.roomy name).write hentry (s.refuses name entry) (s.victim name entry)
  refine ⟨_, _, Prog.Ends.call, ⟨?_, fun other => ?_, fun other hfate => ?_⟩, fun hrefuses => hlands (hrefuses _ _)⟩
  · rw [(h.roomy name).not_exceeds hentry]
    exact h.within
  · by_cases hother : other = name
    · subst hother
      simpa using hroomy
    · simpa [hother] using h.roomy other
  · by_cases hother : other = name
    · subst hother
      simpa using hparked.mpr (h.parked other hfate)
    · simpa [hother] using h.parked other hfate

variable (s d) in
/-- No restore write of a start finds its map full. -/
def WithinBudget : Prop :=
  ∀ recreated d₁ d₂, (recreateMismatchedPins s).Ends d recreated d₁ → (loadMaps s).Ends d₁ () d₂ →
    ((applyPlan s.notedWrite
      (planRestore (snapshotsOf recreated) fun name => (s.requested name).maxEntries)).run (d₂, [])).final.2 = []

/-- **The writes of a start that has room**: none finds its map full, and if the kernel refuses none they all land. -/
theorem filling_restore (hroom : s.Room d) {recreated : List Recreated} {d₁ d₂ : PinDir}
    (hrecreate : (recreateMismatchedPins s).Ends d recreated d₁) (hload : (loadMaps s).Ends d₁ () d₂) :
    ∃ noted, ((applyPlan s.notedWrite
        (planRestore (snapshotsOf recreated) fun name => (s.requested name).maxEntries)).run (d₂, [])).final = noted ∧
      s.Filling d noted ∧ ((∀ name entry, s.refuses name entry = none) →
        (restoreMigrated s recreated).Ends d₂ () noted.1) := by
  obtain ⟨hrecords, hprepared⟩ := records_of_ends hrecreate hload
  let plan := planRestore (snapshotsOf recreated) fun name => (s.requested name).maxEntries
  have hstart : s.Filling d (d₂, []) := by
    refine ⟨rfl, fun name => ?_, fun name hfate => ?_⟩
    · show (d₂ name).Roomy _
      rw [hprepared name]
      exact roomy_prepared hroom name
    · show (d₂ name).parked = none
      rw [hprepared name]
      exact parked_prepared hfate
  have hwrite : ∀ name entry noted, entry ∈ s.copiedTo d name → s.Filling d noted →
      ∃ r noted', (s.notedWrite name entry).Ends noted r noted' ∧ s.Filling d noted' ∧
        ((∀ name entry, s.refuses name entry = none) → writeLanded r = true) :=
    fun _ _ _ hentry h => h.write hentry
  have hplanned : ∀ w ∈ plannedWrites plan, (w.key, w.value) ∈ s.copiedTo d w.table :=
    fun w hw => Records.planned hrecords hw
  obtain ⟨hfilling, hends⟩ := applyPlan_keeps hwrite hplanned hstart
  refine ⟨_, rfl, hfilling, fun hrefuses => ?_⟩
  have hresult := (hends hrefuses).1
  -- the same without the account
  have hrun := applyPlan_projects (notedWrite_projects s) plan (d₂, [])
  unfold restoreMigrated
  split
  · rename_i hnone
    refine ⟨rfl, ?_⟩
    rw [hnone]
    rfl
  · show (applyPlan s.write plan).Ends d₂ () _
    unfold Prog.Ends
    rw [hrun]
    exact ⟨hresult, rfl⟩

/-- **A start that has room** stays within budget, and comes to its end with nothing parked unless something else stops
    it. -/
theorem within_of_room (hroom : s.Room d) : s.WithinBudget d ∧
    (s.stop = none → (∀ name, s.snapshotFails name = false) → (∀ name entry, s.refuses name entry = none) →
      s.Completes d ∧ ∀ name, (d.start s name).parked = none) := by
  constructor
  · intro recreated d₁ d₂ hrecreate hload
    obtain ⟨noted, heq, hfilling, -⟩ := filling_restore hroom hrecreate hload
    rw [heq]
    exact hfilling.within
  · intro hstop _ hrefuses
    obtain ⟨recreated, d₁, hrecreate⟩ := recreate_total s d
    obtain ⟨_, d₂, hload⟩ := loadMaps_total s d₁
    obtain ⟨noted, -, hfilling, hrestore⟩ := filling_restore hroom hrecreate hload
    obtain ⟨_, d₄, hunpark⟩ := unpark_total ((recreated.filter (·.parked)).map (·.name)) noted.1
    have hdone : (loadEbpf s).Ends d () d₄ :=
      hrecreate.bind (hload.bind ((hrestore hrefuses).bind hunpark))
    refine ⟨⟨hstop, hdone.1⟩, fun name => ?_⟩
    have hfinal : d.start s = d₄ := by
      unfold PinDir.start
      rw [hstop]
      exact hdone.2
    rw [hfinal, (unparkMigrated_at _ name (noted.1 name)).of_ends rfl hunpark]
    split
    · cases noted.1 name <;> rfl
    · rename_i hnot
      refine hfilling.parked name fun hfate => hnot ?_
      exact (Records.parked_iff (records_of_ends hrecreate hload).1).mpr hfate

end Start

/-- **The restore writes stay within budget**, on every start of any run all of whose starts have room: none of them
    finds its map full, and a start that nothing else stops comes to its end and leaves no `_migrating` pin. -/
theorem restore_within_budget (d : PinDir) (starts : List Start)
    (hroom : Along PinDir.start (fun d s => s.Room d) d starts) : Along PinDir.start (fun d s => s.WithinBudget d ∧
      (s.stop = none → (∀ name, s.snapshotFails name = false) → (∀ name entry, s.refuses name entry = none) →
        s.Completes d ∧ ∀ name, (d.start s name).parked = none)) d starts := by
  rw [along_iff] at hroom ⊢
  exact fun before s after hsplit => Start.within_of_room (hroom before s after hsplit)

/-- There is room in every map that is reused, read off the maps. -/
def roomCheck (s : Start) (d : PinDir) : Bool :=
  mapNames.all fun name => ((d name).reused (s.requested name)).all fun m =>
    decide (m.entries.entries.length + m.lacks (s.copiedTo d name) ≤ m.shape.maxEntries.toNat)

/-- The check is sound. -/
theorem room_of_check {s : Start} {d : PinDir} (h : roomCheck s d = true) : s.Room d := by
  intro name m _ hreused _
  have hname := List.all_eq_true.mp h name (mem_mapNames name)
  rw [hreused, Option.all_some] at hname
  exact of_decide_eq_true hname

end

/-! ## A map that was filled for other capacities -/

section

local instance budgetHost : Host := ⟨.little⟩

/-- The same capacities again: the maps of the interrupted start have all that is copied. -/
theorem restore_within_budget_same_caps :
    (frontsStart 8 none).Completes frontsWritten ∧
      ((frontsWritten.start (frontsStart 8 none)) .frontMeta).parked = none := by
  have hroom : Along PinDir.start (fun d s => s.Room d) frontsPinned [frontsStart 8 (some 17), frontsStart 8 none] :=
    ⟨room_of_check (by decide), room_of_check (by decide), trivial⟩
  obtain ⟨-, ⟨-, hlast⟩, -⟩ := restore_within_budget frontsPinned _ hroom
  obtain ⟨hdone, hparked⟩ := hlast rfl (fun _ => rfl) fun _ _ => rfl
  exact ⟨hdone, hparked .frontMeta⟩

/-- Port 80 of a third address. -/
def thirdFront : LbFrontKey := ⟨.replicate 16 3, 80, 6, 0⟩

/-- Generation 1, with three rows. -/
def threeRowMeta : List UInt8 := [1, 0, 0, 0, 3, 0, 0, 0, 0, 0, 0, 0]

/-- Three fronts, the first of three rows. -/
def threeMetas : KernelMap where
  shape := ⟨bpfMapTypeHash, 20, 12, 3, comparedMapFlags⟩
  entries := (∅ : Table (List UInt8) (List UInt8)).insert thirdFront.toBytes.toList oneRowMeta
    |>.insert secondFront.toBytes.toList oneRowMeta |>.insert firstFront.toBytes.toList threeRowMeta
  bounded := by decide

def fiveEndpoints : KernelMap where
  shape := ⟨bpfMapTypeHash, 28, 40, 5, comparedMapFlags⟩
  entries := (∅ : Table (List UInt8) (List UInt8)).insert (slotKey thirdFront 1 0) (.replicate 40 3)
    |>.insert (slotKey secondFront 1 0) (.replicate 40 2) |>.insert (slotKey firstFront 1 2) (.replicate 40 1)
    |>.insert (slotKey firstFront 1 1) (.replicate 40 1) |>.insert (slotKey firstFront 1 0) (.replicate 40 1)
  bounded := by decide

/-- Only the front maps are pinned. -/
def threePinned : PinDir
  | .frontMeta => .plain threeMetas
  | .frontEndpoints => .plain fiveEndpoints
  | _ => .none

/-- A start that requests room for two fronts and the given number of endpoint rows. -/
def twoFrontsStart (endpoints : UInt32) (stop : Option Nat) : Start where
  requested
    | .frontMeta => ⟨bpfMapTypeHash, 20, 12, 2, comparedMapFlags⟩
    | _ => ⟨bpfMapTypeHash, 28, 40, endpoints, comparedMapFlags⟩
  order := .asStored
  snapshotFails _ := false
  refuses _ _ := none
  victim _ _ := 0
  stop := stop

/-- With room for two rows the second and the third front are copied, and the start is stopped. With room for four rows
    the next one copies the first and the second, into a `FRONT_META` that is full. -/
theorem twoFrontsStart_fails : ((loadEbpf (twoFrontsStart 4 none)).run
    (threePinned.start (twoFrontsStart 2 (some 17)))).result.toOption = none := by decide

/-- **Not from the plan alone**: a map that is reused with other entries in it is found full. -/
theorem not_restore_within_budget : ¬ ∀ (d : PinDir) (starts : List Start),
    Along PinDir.start (fun d s => s.WithinBudget d ∧
      (s.stop = none → (∀ name, s.snapshotFails name = false) → (∀ name entry, s.refuses name entry = none) →
        s.Completes d ∧ ∀ name, (d.start s name).parked = none)) d starts := by
  intro hwithin
  obtain ⟨-, ⟨-, hlast⟩, -⟩ := hwithin threePinned [twoFrontsStart 2 (some 17), twoFrontsStart 4 none]
  obtain ⟨⟨-, hdone⟩, -⟩ := hlast rfl (fun _ => rfl) fun _ _ => rfl
  have hfails := twoFrontsStart_fails
  rw [hdone] at hfails
  cases hfails

end

end Beep
