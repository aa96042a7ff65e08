import Beep.Lib.GapFill
import Beep.Loader.PinMigrate.Start

/-!
# `Loader.PinMigrate.GapFilling` — the restore writes, over any writer

`apply_plan` is handed the write it makes (`EntryWriter`). Here it runs over a writer that only fills gaps, refuses what
it likes and keeps an account of what was tried: what was there before stays, a meta row is written after the rows of
its front, the plan fails exactly if something was refused, and a retry makes up for it (`applyPlan_gap_filling`).

The writes of a plan are one list, in the order they are made; which meta rows are among them is read off the answers to
the rows before (`PlanRun`).
-/

namespace Beep

open Crash GapFill

/-! ## A writer that fills gaps -/

/-- A write to one of the maps. -/
abbrev MapWrite := Write MapName (List UInt8) (List UInt8)

/-- What the maps hold, and the writes that were tried on them. -/
abbrev MapTarget := Target MapName (List UInt8) (List UInt8) Refusal

/-- What may refuse a write: it may depend on all that was tried before. -/
abbrev Refuses := List (Attempt MapName (List UInt8) (List UInt8) Refusal) → MapWrite → Option Refusal

/-- The write of an entry. -/
def restoreWrite (name : MapName) (entry : Entry) : MapWrite := ⟨name, entry.1, entry.2⟩

/-- What the system call returns. -/
def resultOf : Answer Refusal → Except IoError Unit
  | .written => .ok ()
  | .present => .error ⟨some eexist⟩
  | .refused e => .error e.1

theorem writeLanded_resultOf (a : Answer Refusal) : writeLanded (resultOf a) = a.landed := by
  cases a with
  | written => rfl
  | present => rfl
  | refused e => exact decide_eq_false e.2

/-- `BPF_MAP_UPDATE_ELEM` with `BPF_NOEXIST`, where nothing is evicted. -/
def attemptWrite (refuse : Refuses) (name : MapName) (entry : Entry) :
    Prog MapTarget RestoreFailure (Except IoError Unit) :=
  Prog.call fun t => (resultOf (answer refuse t (restoreWrite name entry)), tryWrite refuse t (restoreWrite name entry))

/-! ## What the loops write -/

/-- The entries, as writes to the map. -/
def writesTo (name : MapName) (entries : List Entry) : List MapWrite := entries.map (restoreWrite name)

/-- The writes of the first loop. -/
def genericWrites (generic : List (MapName × List Entry)) : List MapWrite :=
  generic.flatMap fun p => writesTo p.1 p.2

/-- The writes of the second loop. -/
def rowWrites (fronts : List FrontCopy) : List MapWrite := fronts.flatMap fun f => writesTo .frontEndpoints f.rows

section
variable {refuse : Refuses} {t : MapTarget}

/-- No failure is recorded exactly if all writes landed. -/
def Recorded (refuse : Refuses) (t : MapTarget) (ws : List MapWrite) (failures : List WriteFailure) : Prop :=
  failures = [] ↔ ∀ a ∈ answers refuse t ws, a.landed = true

theorem Recorded.append {ws ws' : List MapWrite} {failures failures' : List WriteFailure}
    (h : Recorded refuse t ws failures) (h' : Recorded refuse (after refuse t ws) ws' failures') :
    Recorded refuse t (ws ++ ws') (failures ++ failures') := by
  unfold Recorded at *
  rw [List.append_eq_nil_iff, h, h', answers_append, List.forall_mem_append]

theorem failuresOf_eq_nil {name : MapName} {a : Answer Refusal} :
    failuresOf name (resultOf a) = [] ↔ a.landed = true := by
  cases a with
  | written => exact ⟨fun _ => rfl, fun _ => rfl⟩
  | present => exact ⟨fun _ => rfl, fun _ => rfl⟩
  | refused e =>
    have hnot : writeLanded (.error e.1) = false := writeLanded_resultOf (.refused e)
    simp [failuresOf, resultOf, hnot, Answer.landed]

theorem writeAll_ends (refuse : Refuses) (name : MapName) (entries : List Entry) (t : MapTarget) :
    ∃ failures, (writeAll (attemptWrite refuse) name entries).Ends t
        ((answers refuse t (writesTo name entries)).map Answer.landed, failures)
        (after refuse t (writesTo name entries)) ∧
      Recorded refuse t (writesTo name entries) failures := by
  induction entries generalizing t with
  | nil => exact ⟨[], Prog.Ends.pure, by simp [Recorded, writesTo, answers]⟩
  | cons entry entries ih =>
    let w := restoreWrite name entry
    obtain ⟨failures, hends, hrecorded⟩ := ih (tryWrite refuse t w)
    refine ⟨failuresOf name (resultOf (answer refuse t w)) ++ failures, ?_, ?_⟩
    · have hlanded : (answers refuse t (writesTo name (entry :: entries))).map Answer.landed =
          writeLanded (resultOf (answer refuse t w)) ::
            (answers refuse (tryWrite refuse t w) (writesTo name entries)).map Answer.landed := by
        rw [writeLanded_resultOf]
        rfl
      rw [hlanded]
      exact Prog.Ends.bind Prog.Ends.call (Prog.Ends.bind hends Prog.Ends.pure)
    · unfold Recorded at *
      have hanswers : answers refuse t (writesTo name (entry :: entries)) =
          answer refuse t w :: answers refuse (tryWrite refuse t w) (writesTo name entries) := rfl
      rw [List.append_eq_nil_iff, failuresOf_eq_nil, hrecorded, hanswers, List.forall_mem_cons]

theorem writeGeneric_ends (refuse : Refuses) (generic : List (MapName × List Entry)) (t : MapTarget) :
    ∃ failures, (writeGeneric (attemptWrite refuse) generic).Ends t failures
        (after refuse t (genericWrites generic)) ∧
      Recorded refuse t (genericWrites generic) failures := by
  induction generic generalizing t with
  | nil => exact ⟨[], Prog.Ends.pure, by simp [Recorded, genericWrites, answers]⟩
  | cons p generic ih =>
    obtain ⟨failures, hends, hrecorded⟩ := writeAll_ends refuse p.1 p.2 t
    obtain ⟨more, hmore, hrecorded'⟩ := ih (after refuse t (writesTo p.1 p.2))
    have hwrites : genericWrites (p :: generic) = writesTo p.1 p.2 ++ genericWrites generic := List.flatMap_cons
    refine ⟨failures ++ more, ?_, hwrites ▸ hrecorded.append hrecorded'⟩
    rw [hwrites, after_append]
    exact Prog.Ends.bind hends (Prog.Ends.bind hmore Prog.Ends.pure)

/-- The rows of the front are there. -/
def RowsIn (t : MapTarget) (front : FrontCopy) : Prop := ∀ row ∈ front.rows, t.contents .frontEndpoints row.1 ≠ none

/-- The second loop says of each front whether its rows are there. -/
theorem writeFrontRows_ends (refuse : Refuses) (fronts : List FrontCopy) (t : MapTarget) :
    ∃ landed failures, (writeFrontRows (attemptWrite refuse) fronts).Ends t (landed, failures)
        (after refuse t (rowWrites fronts)) ∧
      Recorded refuse t (rowWrites fronts) failures ∧
      landed.length = fronts.length ∧ (failures = [] → ∀ ok ∈ landed, ok = true) ∧
      ∀ p ∈ fronts.zip landed, p.2 = true → RowsIn (after refuse t (rowWrites fronts)) p.1 := by
  induction fronts generalizing t with
  | nil => exact ⟨[], [], Prog.Ends.pure, by simp [Recorded, rowWrites, answers]⟩
  | cons front fronts ih =>
    let rows := writesTo .frontEndpoints front.rows
    obtain ⟨failures, hends, hrecorded⟩ := writeAll_ends refuse .frontEndpoints front.rows t
    obtain ⟨landed, more, hmore, hrecorded', hlength, hall, hrows⟩ := ih (after refuse t rows)
    have hwrites : rowWrites (front :: fronts) = rows ++ rowWrites fronts := List.flatMap_cons
    refine ⟨((answers refuse t rows).map Answer.landed).all id :: landed, failures ++ more, ?_,
      hwrites ▸ hrecorded.append hrecorded', by simp [hlength], ?_, ?_⟩
    · rw [hwrites, after_append]
      exact Prog.Ends.bind hends (Prog.Ends.bind hmore Prog.Ends.pure)
    · intro hnone
      obtain ⟨hfailures, hmore⟩ := List.append_eq_nil_iff.mp hnone
      refine List.forall_mem_cons.mpr ⟨?_, hall hmore⟩
      simpa using hrecorded.mp hfailures
    · rw [hwrites, after_append]
      intro p hp hok
      rw [List.zip_cons_cons] at hp
      rcases List.mem_cons.mp hp with rfl | hp
      · -- the rows of this front landed, and what comes after leaves them
        intro row hrow
        refine after_ne_none ?_ _
        refine after_landed (w := restoreWrite .frontEndpoints row) ?_ (List.mem_map.mpr ⟨row, hrow, rfl⟩)
        simpa using hok
      · exact hrows p hp hok

/-! ## The plan -/

/-- The writes of a plan, of which the meta rows depend on the answers. -/
def planWrites (plan : RestorePlan) (metas : List Entry) : List MapWrite :=
  (genericWrites plan.generic ++ rowWrites plan.fronts) ++ writesTo .frontMeta metas

/-- How a plan is run: its meta rows are those of fronts whose rows are there by then, and it ends well exactly if all
    writes landed. -/
structure PlanRun (refuse : Refuses) (plan : RestorePlan) (t : MapTarget) (metas : List Entry) : Prop where
  final : ((applyPlan (attemptWrite refuse) plan).run t).final = after refuse t (planWrites plan metas)
  rows : ∀ e ∈ metas, ∃ copy ∈ plan.fronts, copy.metaEntry = e ∧
    RowsIn (after refuse t (genericWrites plan.generic ++ rowWrites plan.fronts)) copy
  result : ((applyPlan (attemptWrite refuse) plan).run t).result = .ok () ↔
    ∀ a ∈ answers refuse t (planWrites plan metas), a.landed = true
  complete : ((applyPlan (attemptWrite refuse) plan).run t).result = .ok () →
    metas = plan.fronts.map (·.metaEntry)

theorem exists_planRun (refuse : Refuses) (plan : RestorePlan) (t : MapTarget) :
    ∃ metas, PlanRun refuse plan t metas := by
  obtain ⟨generic, hgeneric, hrecorded⟩ := writeGeneric_ends refuse plan.generic t
  obtain ⟨landed, rows, hrows, hrecorded', hlength, hall, hin⟩ :=
    writeFrontRows_ends refuse plan.fronts (after refuse t (genericWrites plan.generic))
  let metas := ((plan.fronts.zip landed).filter (·.2)).map (·.1.metaEntry)
  obtain ⟨written, hwritten, hrecorded''⟩ := writeAll_ends refuse .frontMeta metas
    (after refuse (after refuse t (genericWrites plan.generic)) (rowWrites plan.fronts))
  -- the failures of the three loops decide
  have hdecide : Recorded refuse t (planWrites plan metas) (generic ++ (rows ++ written)) := by
    rw [← List.append_assoc, planWrites]
    refine (hrecorded.append hrecorded').append ?_
    rw [after_append]
    exact hrecorded''
  have hresult : ((applyPlan (attemptWrite refuse) plan).run t).result =
      ((reportFailures (generic ++ (rows ++ written)) : Prog MapTarget RestoreFailure Unit).run
        (after refuse t (planWrites plan metas))).result := by
    unfold applyPlan
    rw [hgeneric.andThen.1, hrows.andThen.1, hwritten.andThen.1, planWrites, after_append, after_append]
  have hfinal : ((applyPlan (attemptWrite refuse) plan).run t).final =
      ((reportFailures (generic ++ (rows ++ written)) : Prog MapTarget RestoreFailure Unit).run
        (after refuse t (planWrites plan metas))).final := by
    unfold applyPlan
    rw [hgeneric.andThen.2, hrows.andThen.2, hwritten.andThen.2, planWrites, after_append, after_append]
  have hreport : ∀ (failures : List WriteFailure) (t' : MapTarget),
      (((reportFailures failures).run t').result = .ok () ↔ failures = []) ∧
        ((reportFailures failures).run t').final = t' := by
    intro failures t'
    cases failures with
    | nil => exact ⟨⟨fun _ => rfl, fun _ => rfl⟩, rfl⟩
    | cons first more => exact ⟨⟨fun h => (nomatch h), fun h => (nomatch h)⟩, rfl⟩
  have hok : ((applyPlan (attemptWrite refuse) plan).run t).result = .ok () ↔
      generic ++ (rows ++ written) = [] := by
    rw [hresult]
    exact (hreport _ _).1
  refine ⟨metas, ?_, ?_, hok.trans hdecide, ?_⟩
  · rw [hfinal]
    exact (hreport _ _).2
  · intro e he
    obtain ⟨⟨copy, ok⟩, hcopy, rfl⟩ := List.mem_map.mp he
    obtain ⟨hmem, htrue⟩ := List.mem_filter.mp hcopy
    refine ⟨copy, (List.of_mem_zip hmem).1, rfl, ?_⟩
    rw [after_append]
    exact hin _ hmem htrue
  · intro hdone
    obtain ⟨-, hmore⟩ := List.append_eq_nil_iff.mp (hok.mp hdone)
    have htrue := hall (List.append_eq_nil_iff.mp hmore).1
    have hfilter : (plan.fronts.zip landed).filter (·.2) = plan.fronts.zip landed :=
      List.filter_eq_self.mpr fun p hp => htrue p.2 (List.of_mem_zip hp).2
    have hfirst : (plan.fronts.zip landed).map Prod.fst = plan.fronts := List.map_fst_zip hlength.ge
    calc metas = (plan.fronts.zip landed).map (·.1.metaEntry) := congrArg (List.map _) hfilter
      _ = ((plan.fronts.zip landed).map Prod.fst).map (·.metaEntry) := by rw [List.map_map]; rfl
      _ = plan.fronts.map (·.metaEntry) := by rw [hfirst]

/-! ## The writes of a plan -/

/-- What the snapshots of a start are: at most one for each map, of entries with different keys. -/
structure Snapshots where
  entries : List (MapName × List Entry)
  names : (entries.map Prod.fst).Nodup
  keys : ∀ p ∈ entries, (p.2.map Prod.fst).Nodup

end

/-- No key is read twice. -/
def KeysOnce (snapshot : Option (List Entry)) : Prop :=
  ∀ entries, snapshot = some entries → (entries.map Prod.fst).Nodup

theorem recreatePins_keysOnce (wanted : MapShape) (source : Source) (fate : Fate) (snapshotFails : Bool) :
    Triple (fun _ => True) (recreatePins wanted source fate snapshotFails) (fun snapshot _ => KeysOnce snapshot)
      fun _ => True := by
  refine Triple.bind (R := fun snapshot _ => KeysOnce snapshot) (Triple.read ?_) fun snapshot => ?_
  · intro pins _ entries hentries
    split at hentries
    · obtain ⟨m, -, rfl⟩ := Option.map_eq_some_iff.mp hentries
      exact m.nodup_snapshot
    · cases hentries
  · exact Triple.bind (Triple.keep_fact _) fun _ => Triple.pure fun _ h => h

theorem names_snapshotsOf (recreated : List Recreated) :
    ((snapshotsOf recreated).map Prod.fst).Sublist (recreated.map (·.name)) := by
  induction recreated with
  | nil => exact List.nil_sublist _
  | cons r recreated ih =>
    unfold snapshotsOf at *
    rw [List.filterMap_cons, List.map_cons]
    cases r.snapshot with
    | none => exact ih.cons _
    | some entries => exact ih.cons_cons _

/-- **A start's snapshots**: one for each map at most, of different keys. -/
theorem recreateMismatchedPins_snapshots (s : Start) : Triple (fun _ => True) (recreateMismatchedPins s)
    (fun recreated _ => ∃ snapshots : Snapshots, snapshots.entries = snapshotsOf recreated) fun _ => True := by
  -- the names of the records are among those that are through
  let I : List MapName → List Recreated → PinDir → Prop := fun rest sofar _ => ∃ through,
    through ++ rest = mapNames ∧ (sofar.map (·.name)).Sublist through ∧ ∀ r ∈ sofar, KeysOnce r.snapshot
  have hname : ∀ coupled sources name, Triple (fun _ => True) (recreateName s coupled sources name)
      (fun one _ => ∀ r ∈ one.toList, r.name = name ∧ KeysOnce r.snapshot) fun _ => True := by
    intro coupled sources name
    unfold recreateName
    split
    · exact Triple.pure fun _ _ r hr => by cases hr
    · dsimp only
      split
      · exact Triple.pure fun _ _ r hr => by cases hr
      · refine Triple.bind (Triple.focus (recreatePins_keysOnce _ _ _ _)) fun snapshot => Triple.pure ?_
        intro _ honce r hr
        obtain rfl := List.mem_singleton.mp hr
        exact ⟨rfl, honce⟩
  refine Triple.bind (R := fun _ _ => True) (Triple.read fun _ _ => trivial) ?_
  rintro ⟨coupled, sources⟩
  refine (Triple.collect (I := I) (C := fun _ => True) ?_ []).weaken ?_ ?_ fun _ h => h
  · intro name rest sofar _
    refine Triple.of_fact (F := ∃ through, through ++ name :: rest = mapNames ∧
      (sofar.map (·.name)).Sublist through ∧ ∀ r ∈ sofar, KeysOnce r.snapshot) ?_ |>.pre fun _ h => ⟨h, trivial⟩
    rintro ⟨through, hthrough, hsub, honce⟩
    refine (hname coupled sources name).post ?_
    rintro one d hone
    refine ⟨through ++ [name], by simpa using hthrough, ?_, ?_⟩
    · rw [List.map_append]
      refine hsub.append ?_
      cases one with
      | none => exact List.nil_sublist _
      | some r => simp [(hone r (by simp)).1]
    · intro r hr
      rcases List.mem_append.mp hr with hr | hr
      · exact honce r hr
      · exact (hone r hr).2
  · exact fun _ _ => ⟨[], rfl, List.Sublist.refl _, fun r hr => nomatch hr⟩
  · rintro recreated d ⟨through, hthrough, hsub, honce⟩
    rw [List.append_nil] at hthrough
    rw [List.nil_append] at hsub honce
    have hnodup : mapNames.Nodup := by decide
    refine ⟨⟨snapshotsOf recreated, ?_, ?_⟩, rfl⟩
    · exact ((names_snapshotsOf recreated).trans hsub).nodup (hthrough ▸ hnodup)
    · rintro ⟨name, entries⟩ hp
      obtain ⟨r, hr, hsnapshot⟩ := mem_snapshotsOf.mp hp
      exact honce r (List.mem_filter.mp hr).1 entries hsnapshot

/-- Whatever a plan may write. -/
def plannedWrites (plan : RestorePlan) : List MapWrite := planWrites plan (plan.fronts.map (·.metaEntry))

section
variable [Host] {snapshots : Snapshots} {cap : MapName → UInt32}

/-- A planned write is an entry of the snapshot of its map. -/
theorem snapshot_of_planned {w : MapWrite} (h : w ∈ plannedWrites (planRestore snapshots.entries cap)) :
    ∃ entries, (w.table, entries) ∈ snapshots.entries ∧ (w.key, w.value) ∈ entries := by
  unfold plannedWrites planWrites at h
  rcases List.mem_append.mp h with h | h
  · rcases List.mem_append.mp h with h | h
    · obtain ⟨⟨name, entries⟩, hp, hw⟩ := List.mem_flatMap.mp h
      obtain ⟨e, he, rfl⟩ := List.mem_map.mp hw
      obtain ⟨-, all, hmem, rfl⟩ := mem_generic_planRestore.mp hp
      exact ⟨all, hmem, List.mem_of_mem_take he⟩
    · obtain ⟨copy, hcopy, hw⟩ := List.mem_flatMap.mp h
      obtain ⟨e, he, rfl⟩ := List.mem_map.mp hw
      exact (rows_of_mem_fronts hcopy).2 e he
  · obtain ⟨e, he, rfl⟩ := List.mem_map.mp h
    obtain ⟨copy, hcopy, rfl⟩ := List.mem_map.mp he
    exact (rows_of_mem_fronts hcopy).1

/-- **The planned writes agree.** -/
theorem agree_planned : Agree (plannedWrites (planRestore snapshots.entries cap)) := by
  intro w hw w' hw' htable hkey
  obtain ⟨entries, hmem, hentry⟩ := snapshot_of_planned hw
  obtain ⟨entries', hmem', hentry'⟩ := snapshot_of_planned hw'
  have hsnapshot := List.inj_on_of_nodup_map snapshots.names hmem hmem' htable
  obtain rfl : entries = entries' := (Prod.mk.inj hsnapshot).2
  have hentries := List.inj_on_of_nodup_map (snapshots.keys _ hmem) hentry hentry' hkey
  exact (Prod.mk.inj hentries).2

omit [Host] in
/-- The meta rows that are written are planned. -/
theorem planned_of_run {refuse : Refuses} {plan : RestorePlan} {t : MapTarget} {metas : List Entry}
    (h : PlanRun refuse plan t metas) : planWrites plan metas ⊆ plannedWrites plan := by
  intro w hw
  unfold plannedWrites
  rcases List.mem_append.mp hw with hw | hw
  · exact List.mem_append_left _ hw
  · obtain ⟨e, he, rfl⟩ := List.mem_map.mp hw
    obtain ⟨copy, hcopy, rfl, -⟩ := h.rows e he
    exact List.mem_append_right _ (List.mem_map.mpr ⟨_, List.mem_map.mpr ⟨copy, hcopy, rfl⟩, rfl⟩)

omit [Host] in
/-- **A meta row is tried after the rows of its front**, which are there when it is. -/
theorem rows_before_meta {refuse : Refuses} {plan : RestorePlan} {t : MapTarget} {metas : List Entry}
    (h : PlanRun refuse plan t metas) (hgeneric : ∀ p ∈ plan.generic, p.1 ≠ .frontMeta) {before rest : List MapWrite}
    {w : MapWrite} (hsplit : planWrites plan metas = before ++ w :: rest) (hmeta : w.table = .frontMeta) :
    ∃ copy ∈ plan.fronts, copy.metaEntry = (w.key, w.value) ∧ RowsIn (after refuse t before) copy := by
  let rows := genericWrites plan.generic ++ rowWrites plan.fronts
  have hnot : w ∉ rows := by
    intro hmem
    rcases List.mem_append.mp hmem with hmem | hmem
    · obtain ⟨p, hp, hw⟩ := List.mem_flatMap.mp hmem
      obtain ⟨e, -, rfl⟩ := List.mem_map.mp hw
      exact hgeneric p hp hmeta
    · obtain ⟨copy, -, hw⟩ := List.mem_flatMap.mp hmem
      obtain ⟨e, -, rfl⟩ := List.mem_map.mp hw
      cases hmeta
  -- so it is among the meta rows, and what was written before it ends with some of them
  obtain ⟨between, rfl, hmetas⟩ : ∃ between, before = rows ++ between ∧
      writesTo .frontMeta metas = between ++ w :: rest := by
    rcases List.append_eq_append_iff.mp hsplit with ⟨between, hbefore, hmetas⟩ | ⟨some, hrows, hrest⟩
    · exact ⟨between, hbefore, hmetas⟩
    · cases some with
      | nil => exact ⟨[], by simpa using hrows.symm, hrest.symm⟩
      | cons first some =>
        obtain ⟨rfl, -⟩ := List.cons.inj hrest
        have hmem : w ∈ rows := by
          rw [show rows = before ++ w :: some from hrows]
          exact List.mem_append_right _ List.mem_cons_self
        exact absurd hmem hnot
  have hw : w ∈ writesTo .frontMeta metas := by
    rw [hmetas]
    exact List.mem_append_right _ List.mem_cons_self
  obtain ⟨e, he, rfl⟩ := List.mem_map.mp hw
  obtain ⟨copy, hcopy, hentry, hrows⟩ := h.rows e he
  refine ⟨copy, hcopy, hentry, fun row hrow => ?_⟩
  rw [after_append]
  exact after_ne_none (hrows row hrow) between

omit [Host] in
/-- Nothing is refused: all planned writes are made. -/
theorem applyPlan_never (plan : RestorePlan) (t : MapTarget) :
    ((applyPlan (attemptWrite never) plan).run t).result = .ok () ∧
      ((applyPlan (attemptWrite never) plan).run t).final = after never t (plannedWrites plan) := by
  obtain ⟨metas, h⟩ := exists_planRun never plan t
  have hok := h.result.mpr fun a ha => answers_never ha
  refine ⟨hok, ?_⟩
  rw [h.final, plannedWrites, h.complete hok]

/-- What a meta row finds: its front's rows, with what they had or what is planned for them. -/
theorem found_rows_of_meta {refuse : Refuses} {t : MapTarget} {metas : List Entry}
    (h : PlanRun refuse (planRestore snapshots.entries cap) t metas) {before rest : List MapWrite} {w : MapWrite}
    (hsplit : planWrites (planRestore snapshots.entries cap) metas = before ++ w :: rest)
    (hmeta : w.table = .frontMeta) : ∃ copy ∈ (planRestore snapshots.entries cap).fronts,
      copy.metaEntry = (w.key, w.value) ∧ ∀ row ∈ copy.rows,
        (after refuse t before).contents .frontEndpoints row.1 =
          some ((t.contents .frontEndpoints row.1).getD row.2) := by
  have hgeneric : ∀ p ∈ (planRestore snapshots.entries cap).generic, p.1 ≠ .frontMeta := by
    rintro ⟨name, entries⟩ hp
    exact (mem_generic_planRestore.mp hp).1.1
  obtain ⟨copy, hcopy, hentry, hrows⟩ := rows_before_meta h hgeneric hsplit hmeta
  refine ⟨copy, hcopy, hentry, fun row hrow => ?_⟩
  obtain ⟨value, hvalue⟩ := Option.ne_none_iff_exists'.mp (hrows row hrow)
  rcases after_origin hvalue with hthere | ⟨hnone, hmem⟩
  · rw [hvalue, hthere, Option.getD_some]
  · rw [hvalue, hnone, Option.getD_none]
    have hin : ⟨.frontEndpoints, row.1, value⟩ ∈ planWrites (planRestore snapshots.entries cap) metas := by
      rw [hsplit]
      exact List.mem_append_left _ hmem
    have hrow' : restoreWrite .frontEndpoints row ∈ plannedWrites (planRestore snapshots.entries cap) :=
      List.mem_append_left _ (List.mem_append_right _ (List.mem_flatMap.mpr ⟨copy, hcopy,
        List.mem_map.mpr ⟨row, hrow, rfl⟩⟩))
    exact congrArg some (agree_planned _ (planned_of_run h hin) _ hrow' rfl rfl)

/-- **The restore fills gaps**, whatever it finds and whatever is refused: what is there stays as it is, a meta row is
    written only where the rows of its front are there, it fails exactly if something was refused, and else all its keys
    are there; and running it again when nothing is refused comes to what one such run would have. The plan is one from
    snapshots such as every start takes. -/
theorem applyPlan_gap_filling :
    (∀ (s : Start) (d : PinDir) recreated, ((recreateMismatchedPins s).run d).result = .ok recreated →
      ∃ snapshots : Snapshots, snapshots.entries = snapshotsOf recreated) ∧
    ∀ (snapshots : Snapshots) (cap : MapName → UInt32) (contents : Contents MapName (List UInt8) (List UInt8))
      (refuse : Refuses),
    let plan := planRestore snapshots.entries cap
    let run := fun refuse contents => (applyPlan (attemptWrite refuse) plan).run ⟨contents, []⟩
    (∀ name key value, contents name key = some value → (run refuse contents).final.contents name key = some value ∧
      ∀ a ∈ (run refuse contents).final.attempts, a.found name key = some value) ∧
    (∀ a ∈ (run refuse contents).final.attempts, a.write.table = .frontMeta → ∃ copy ∈ plan.fronts,
      copy.metaEntry = (a.write.key, a.write.value) ∧
        ∀ row ∈ copy.rows, a.found .frontEndpoints row.1 = some ((contents .frontEndpoints row.1).getD row.2)) ∧
    ((∃ e, (run refuse contents).result = .error e) ↔
      ∃ a ∈ (run refuse contents).final.attempts, ∃ e, a.answer = .refused e) ∧
    ((run refuse contents).result = .ok () →
      ∀ w ∈ plannedWrites plan, (run refuse contents).final.contents w.table w.key ≠ none) ∧
    (run never (run refuse contents).final.contents).result = .ok () ∧
    (run never (run refuse contents).final.contents).final.contents = (run never contents).final.contents := by
  refine ⟨fun s d recreated hok => (recreateMismatchedPins_snapshots s).ends d trivial recreated hok, ?_⟩
  intro snapshots cap contents refuse plan run
  obtain ⟨metas, h⟩ := exists_planRun refuse plan ⟨contents, []⟩
  have hfinal : (run refuse contents).final = after refuse ⟨contents, []⟩ (planWrites plan metas) := h.final
  have hattempts : ∀ a ∈ (run refuse contents).final.attempts, ∃ before w rest,
      planWrites plan metas = before ++ w :: rest ∧ a = ⟨w, (after refuse ⟨contents, []⟩ before).contents,
        answer refuse (after refuse ⟨contents, []⟩ before) w⟩ := by
    intro a ha
    rw [hfinal, mem_attempts_after] at ha
    exact ha.resolve_left List.not_mem_nil
  have hplanned := planned_of_run h
  refine ⟨?_, ?_, ?_, ?_, ?_, ?_⟩
  · intro name key value hthere
    rw [hfinal]
    refine ⟨after_kept hthere _, fun a ha => ?_⟩
    obtain ⟨before, w, rest, -, rfl⟩ := hattempts a (hfinal ▸ ha)
    exact after_kept hthere before
  · intro a ha hmeta
    obtain ⟨before, w, rest, hsplit, rfl⟩ := hattempts a ha
    exact found_rows_of_meta h hsplit hmeta
  · rw [hfinal, attempt_refused_iff rfl, ← h.result]
    show (∃ e, (run refuse contents).result = .error e) ↔ ¬ (run refuse contents).result = .ok ()
    cases (run refuse contents).result with
    | ok _ => simp
    | error e => simp
  · intro hok w hw
    rw [hfinal]
    rw [plannedWrites, ← h.complete hok] at hw
    exact after_landed (h.result.mp hok) hw
  · exact (applyPlan_never plan _).1
  · have hagain : (run never (run refuse contents).final.contents).final = _ := (applyPlan_never plan _).2
    have honce : (run never contents).final = _ := (applyPlan_never plan _).2
    rw [hagain, honce]
    have hleft : (run refuse contents).final.contents =
        (after refuse ⟨contents, []⟩ (planWrites plan metas)).contents := by rw [hfinal]
    exact after_again agree_planned hplanned rfl hleft

end

end Beep
