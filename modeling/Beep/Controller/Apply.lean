import Beep.Controller.Reconcile

/-!
# `Controller.Apply` — one reconcile tick

`controller/src/apply.rs`: a tick first decides which pod IPs have departed or changed hands, has their flows evicted
in one walk, and from the outcome derives what the rest of the tick may write (`planTick`). What it has to remember
from tick to tick is `known_backends` and whether the one walk for orphaned pins was done (`TickMemory`).

The eviction, the walk for orphans and the `POD_TARGETS` read are the kernel's: a tick takes their outcomes
(`TickInput`). What is only logged or reported is left out.
-/

namespace Beep

/-- `reused_pod_ips`: the IPs in both maps under different known uids. -/
def reusedPodIps (known desired : Table (Bytes 16) (Option String)) : Finset (Bytes 16) :=
  (desired.keys.filter fun ip =>
    match known.lookup ip, desired.lookup ip with
    | some (some old), some (some new) => old != new
    | _, _ => false).toFinset

/-- `orphan_sweep_due`. -/
def orphanSweepDue (desired : DesiredEntries) (alreadySwept : Bool) : Bool :=
  desired.frontsKnown && !alreadySwept && !desired.clusterBackends.entries.isEmpty

/-- `orphans_swept_after`. -/
def orphansSweptAfter (already : Bool) (swept : Option (Finset (Bytes 16))) (sweepFailed : Bool) : Bool :=
  already || (swept.isSome && !sweepFailed)

/-- `stale_pod_targets`. -/
def stalePodTargets (existing : List (Bytes 16)) (live : Finset (Bytes 16)) : Finset (Bytes 16) :=
  (existing.filter fun ip => ip ∉ live).toFinset

/-- `TickPlan`. -/
structure TickPlan where
  sweepFailed : Bool
  fronts : Table LbFrontKey DesiredFront
  pruneFronts : Bool
  podTargets : Finset (Bytes 16)
  deleteRows : Finset (Bytes 16)

/-- The IPs a tick has to sweep: the orphans, the rows no longer desired, and every backend that left or came back
    under another uid. -/
def sweepSet (desired : DesiredEntries) (installedPodTargets : List (Bytes 16))
    (known : Table (Bytes 16) (Option String)) (orphans : Option (Finset (Bytes 16))) : Finset (Bytes 16) :=
  orphans.getD ∅ ∪
    if desired.podTargetsKnown then
      stalePodTargets installedPodTargets desired.podTargets ∪
        (known.keys.filter fun ip => (desired.clusterBackends.lookup ip).isNone).toFinset ∪
        reusedPodIps known desired.clusterBackends
    else ∅

/-- What `known` is after a tick whose sweep of `pending` failed. -/
def knownAfterFailure (known : Table (Bytes 16) (Option String)) (desired : DesiredEntries)
    (pending : Finset (Bytes 16)) : Table (Bytes 16) (Option String) :=
  (desired.clusterBackends.filter fun ip _ => ip ∉ pending) ∪ known.filter fun ip _ => ip ∈ pending

/-- Whether a front names one of the given pods. -/
def DesiredFront.names (front : DesiredFront) (pods : Finset (Bytes 16)) : Bool :=
  front.endpoints.any fun e => decide (e.backend.podIp ∈ pods)

/-- The fronts that name none of the given pods. -/
def withoutPending (fronts : Table LbFrontKey DesiredFront) (pending : Finset (Bytes 16)) :
    Table LbFrontKey DesiredFront :=
  fronts.filter fun _ front => !front.names pending

/-- `plan_tick`: the plan, and `known` after the tick. `evict` is one walk that fails or not. -/
def planTick (desired : DesiredEntries) (installedPodTargets : List (Bytes 16))
    (known : Table (Bytes 16) (Option String)) (orphans : Option (Finset (Bytes 16)))
    (evict : Finset (Bytes 16) → Bool) : TickPlan × Table (Bytes 16) (Option String) :=
  let sweep := sweepSet desired installedPodTargets known orphans
  let deleteRows := if desired.podTargetsKnown then stalePodTargets installedPodTargets desired.podTargets else ∅
  let sweepFailed := if sweep = ∅ then false else !evict sweep
  let pending := if sweepFailed then sweep else ∅
  let known :=
    if desired.podTargetsKnown then
      if sweepFailed then knownAfterFailure known desired pending else desired.clusterBackends
    else known
  let fronts := withoutPending desired.fronts pending
  ({ sweepFailed
     fronts
     pruneFronts := fronts.entries.length == desired.fronts.entries.length
     podTargets := desired.podTargets \ pending
     deleteRows := if desired.podTargetsKnown && sweepFailed then ∅ else deleteRows }, known)

/-! ## Ticks -/

/-- What a process remembers between ticks. -/
structure TickMemory where
  known : Table (Bytes 16) (Option String) := ∅
  orphansSwept : Bool := false

/-- What a tick is given: the desired entries, the `POD_TARGETS` rows it reads, the backends the forward pins name
    if it walks them (`none` for a failed walk), and whether an eviction goes through. -/
structure TickInput where
  desired : DesiredEntries
  installed : List (Bytes 16)
  pinned : Option (Finset (Bytes 16))
  evict : Finset (Bytes 16) → Bool

namespace TickInput

/-- The rows `apply` hands to `plan_tick`: it reads none while the pods of the node are not known. -/
def rows (t : TickInput) : List (Bytes 16) := if t.desired.podTargetsKnown then t.installed else []

/-- The orphans of a tick: `orphaned_pin_backends`, if the walk is due and goes through. -/
def orphans (t : TickInput) (m : TickMemory) : Option (Finset (Bytes 16)) :=
  if orphanSweepDue t.desired m.orphansSwept then
    t.pinned.map fun pinned => pinned \ t.desired.clusterBackends.keys.toFinset
  else none

/-- The IPs a tick sweeps. -/
def sweep (t : TickInput) (m : TickMemory) : Finset (Bytes 16) :=
  sweepSet t.desired t.rows m.known (t.orphans m)

/-- The plan of a tick. -/
def plan (t : TickInput) (m : TickMemory) : TickPlan :=
  (planTick t.desired t.rows m.known (t.orphans m) t.evict).1

/-- Whether the eviction of a tick fails. -/
def sweepFailed (t : TickInput) (m : TickMemory) : Bool := (t.plan m).sweepFailed

end TickInput

/-- `PinnedMaps::apply`, as far as it changes what is remembered. -/
def TickMemory.step (m : TickMemory) (t : TickInput) : TickMemory :=
  let (plan, known) := planTick t.desired t.rows m.known (t.orphans m) t.evict
  { known, orphansSwept := orphansSweptAfter m.orphansSwept (t.orphans m) plan.sweepFailed }

/-! ## What a tick does -/

section
variable {t : TickInput} {m : TickMemory} {x : Bytes 16}

theorem mem_stalePodTargets {rows : List (Bytes 16)} {live : Finset (Bytes 16)} :
    x ∈ stalePodTargets rows live ↔ x ∈ rows ∧ x ∉ live := by
  simp [stalePodTargets]

/-- With nothing pending no front is held back. -/
theorem withoutPending_empty (fronts : Table LbFrontKey DesiredFront) : withoutPending fronts ∅ = fronts := by
  apply AList.ext
  refine List.filter_eq_self.mpr ?_
  intro e he
  simp [DesiredFront.names]

theorem mem_reusedPodIps {known desired : Table (Bytes 16) (Option String)} :
    x ∈ reusedPodIps known desired ↔
      ∃ a b, known.lookup x = some (some a) ∧ desired.lookup x = some (some b) ∧ a ≠ b := by
  simp only [reusedPodIps, List.mem_toFinset, List.mem_filter, Table.mem_keys_iff]
  constructor
  · rintro ⟨⟨_, hdesired⟩, hreused⟩
    split at hreused
    · rename_i a b hknown hdesired'
      exact ⟨a, b, hknown, hdesired', bne_iff_ne.mp hreused⟩
    · cases hreused
  · rintro ⟨a, b, hknown, hdesired, hne⟩
    refine ⟨⟨_, hdesired⟩, ?_⟩
    rw [hknown, hdesired]
    exact bne_iff_ne.mpr hne

/-- Rows are read only while the pods of the node are known. -/
theorem TickInput.mem_rows : x ∈ t.rows ↔ t.desired.podTargetsKnown = true ∧ x ∈ t.installed := by
  unfold TickInput.rows
  cases t.desired.podTargetsKnown <;> simp

/-- **What is swept**: orphans, and while the node's pods are known the rows no longer desired, the backends that
    left and the ones under a new uid. -/
theorem TickInput.mem_sweep : x ∈ t.sweep m ↔ x ∈ (t.orphans m).getD ∅ ∨ t.desired.podTargetsKnown = true ∧
    ((x ∈ t.rows ∧ x ∉ t.desired.podTargets) ∨
      (m.known.lookup x ≠ none ∧ t.desired.clusterBackends.lookup x = none) ∨
      ∃ a b, m.known.lookup x = some (some a) ∧ t.desired.clusterBackends.lookup x = some (some b) ∧ a ≠ b) := by
  unfold TickInput.sweep sweepSet
  cases t.desired.podTargetsKnown with
  | false => simp
  | true =>
    simp only [if_true, Finset.mem_union, stalePodTargets, List.mem_toFinset, List.mem_filter, Table.mem_keys_iff,
      mem_reusedPodIps, decide_eq_true_eq, Option.isNone_iff_eq_none, ← Option.ne_none_iff_exists', true_and,
      or_assoc]

/-- An orphan is no backend of the tick. -/
theorem TickInput.orphans_absent (h : x ∈ (t.orphans m).getD ∅) : t.desired.clusterBackends.lookup x = none := by
  unfold TickInput.orphans at h
  split at h
  · cases hpinned : t.pinned with
    | none => simp [hpinned] at h
    | some pinned =>
      simp only [hpinned, Option.map_some, Option.getD_some, Finset.mem_sdiff, List.mem_toFinset] at h
      exact AList.lookup_eq_none.mpr fun hmem => h.2 (AList.mem_keys.mp hmem)
  · simp at h

/-- **What is remembered**: the backends of the tick, where the tick could sweep. -/
theorem TickMemory.lookup_known_step : (m.step t).known.lookup x =
    if t.desired.podTargetsKnown = true ∧ ¬ (t.sweepFailed m = true ∧ x ∈ t.sweep m) then
      t.desired.clusterBackends.lookup x
    else m.known.lookup x := by
  simp only [TickMemory.step, planTick, TickInput.sweepFailed, TickInput.plan]
  cases t.desired.podTargetsKnown with
  | false => rfl
  | true =>
    simp only [if_true, true_and]
    cases hfailed : (if sweepSet t.desired t.rows m.known (t.orphans m) = ∅ then false
      else !t.evict (sweepSet t.desired t.rows m.known (t.orphans m))) with
    | false => simp
    | true =>
      simp only [if_true, true_and, knownAfterFailure, Table.lookup_union, Table.lookup_filter, TickInput.sweep]
      have hall : ∀ o : Option (Option String), o.filter (fun _ => true) = o := fun o => by cases o <;> rfl
      by_cases hx : x ∈ sweepSet t.desired t.rows m.known (t.orphans m)
      · simp [hx, hall]
      · simp [hx, hall]

/-- A tick that sweeps all it has to asks for everything. -/
theorem TickInput.plan_of_swept (h : t.sweepFailed m = false) :
    (t.plan m).fronts = t.desired.fronts ∧ (t.plan m).pruneFronts = true ∧
      (t.plan m).podTargets = t.desired.podTargets ∧
      (t.desired.podTargetsKnown = true → (t.plan m).deleteRows = stalePodTargets t.rows t.desired.podTargets) := by
  unfold sweepFailed at h
  have hplan : ∀ plan : TickPlan, t.plan m = plan → plan.sweepFailed = false →
      plan.fronts = t.desired.fronts ∧ plan.pruneFronts = true ∧ plan.podTargets = t.desired.podTargets ∧
        (t.desired.podTargetsKnown = true → plan.deleteRows = stalePodTargets t.rows t.desired.podTargets) := by
    rintro _ rfl hswept
    unfold plan planTick at hswept ⊢
    dsimp only at hswept ⊢
    rw [hswept]
    simp only [Bool.false_eq_true, if_false, withoutPending_empty, beq_self_eq_true, Finset.sdiff_empty, Bool.and_false,
      true_and]
    intro hknown
    rw [if_pos hknown]
  exact hplan _ rfl h

/-- A tick on the given entries that goes through: its sweep does, and so does the walk for orphans if it is due. -/
structure TickInput.GoesThrough (t : TickInput) (m : TickMemory) (d : DesiredEntries) : Prop where
  entries : t.desired = d
  swept : t.sweepFailed m = false
  walked : orphanSweepDue d m.orphansSwept = true → t.pinned.isSome = true

/-- The `POD_TARGETS` rows after a tick whose writes go through; while the pods of the node are not known it writes
    none. -/
def TickInput.rowsAfter (t : TickInput) (m : TickMemory) : Finset (Bytes 16) :=
  if t.desired.podTargetsKnown then (t.installed.toFinset \ (t.plan m).deleteRows) ∪ (t.plan m).podTargets
  else t.installed.toFinset

namespace TickInput.GoesThrough

variable {d : DesiredEntries}

/-- Where the pods of the node are known, it leaves their rows. -/
theorem mem_rowsAfter (h : t.GoesThrough m d) (hknown : d.podTargetsKnown = true) :
    x ∈ t.rowsAfter m ↔ x ∈ d.podTargets := by
  obtain ⟨-, -, hput, hdelete⟩ := plan_of_swept h.swept
  rw [h.entries] at hput hdelete
  unfold rowsAfter
  rw [h.entries, if_pos hknown, hput, hdelete hknown, Finset.mem_union, Finset.mem_sdiff, mem_stalePodTargets, mem_rows,
    List.mem_toFinset, h.entries]
  constructor
  · rintro (⟨hrow, hkept⟩ | hpod)
    · by_contra hstale
      exact hkept ⟨⟨hknown, hrow⟩, hstale⟩
    · exact hpod
  · exact Or.inr

/-- Where the pods of the node are known, it remembers their backends. -/
theorem lookup_known (h : t.GoesThrough m d) (hknown : d.podTargetsKnown = true) :
    (m.step t).known.lookup x = d.clusterBackends.lookup x := by
  rw [TickMemory.lookup_known_step, h.entries, h.swept, if_pos ⟨hknown, fun h => nomatch h.1⟩]

/-- It has the walk for orphans behind it, if the walk was due. -/
theorem orphansSwept (h : t.GoesThrough m d) :
    (m.step t).orphansSwept = (m.orphansSwept || orphanSweepDue d m.orphansSwept) := by
  show orphansSweptAfter m.orphansSwept (t.orphans m) (t.sweepFailed m) = _
  unfold orphansSweptAfter orphans
  rw [h.swept, h.entries]
  cases hdue : orphanSweepDue d m.orphansSwept with
  | false => rfl
  | true =>
    obtain ⟨pinned, hpinned⟩ := Option.isSome_iff_exists.mp (h.walked hdue)
    rw [hpinned]
    rfl

end TickInput.GoesThrough

/-- A tick on entries of which nothing is known yet remembers nothing new. -/
theorem TickMemory.step_unlisted (hfronts : t.desired.frontsKnown = false) (hpods : t.desired.podTargetsKnown = false) :
    m.step t = m := by
  have horphans : t.orphans m = none := by
    unfold TickInput.orphans orphanSweepDue
    rw [hfronts]
    rfl
  simp only [TickMemory.step, planTick, horphans, hpods, orphansSweptAfter]
  simp

/-- Whether the entries say anything about a pod. -/
def DesiredEntries.Mentions (d : DesiredEntries) (x : Bytes 16) : Prop :=
  d.clusterBackends.lookup x ≠ none ∨ x ∈ d.podTargets ∨
    ∃ key front, d.fronts.lookup key = some front ∧ front.names {x} = true

/-- A plan installs something that names the pod. -/
def TickPlan.Names (p : TickPlan) (x : Bytes 16) : Prop :=
  x ∈ p.podTargets ∨ ∃ key front, p.fronts.lookup key = some front ∧ front.names {x} = true

/-- **What is installed** was asked for and is not pending. -/
theorem TickInput.plan_names (h : (t.plan m).Names x) :
    t.desired.Mentions x ∧ ¬ (t.sweepFailed m = true ∧ x ∈ t.sweep m) := by
  have hpending : x ∉ (if t.sweepFailed m then t.sweep m else ∅) ∧ t.desired.Mentions x := by
    rcases h with hpod | ⟨key, front, hfront, hnames⟩
    · obtain ⟨hdesired, hpending⟩ := Finset.mem_sdiff.mp hpod
      exact ⟨hpending, Or.inr (Or.inl hdesired)⟩
    · replace hfront : (withoutPending t.desired.fronts (if t.sweepFailed m then t.sweep m else ∅)).lookup key =
        some front := hfront
      rw [withoutPending, Table.lookup_filter, Option.filter_eq_some_iff] at hfront
      obtain ⟨hdesired, hclear⟩ := hfront
      refine ⟨fun hx => ?_, Or.inr (Or.inr ⟨key, front, hdesired, hnames⟩)⟩
      obtain ⟨e, he, hpod⟩ := List.any_eq_true.mp hnames
      have hpending : front.names (if t.sweepFailed m then t.sweep m else ∅) = true := by
        refine List.any_eq_true.mpr ⟨e, he, decide_eq_true ?_⟩
        rw [Finset.mem_singleton.mp (of_decide_eq_true hpod)]
        exact hx
      rw [hpending] at hclear
      cases hclear
  refine ⟨hpending.2, fun hfailed => hpending.1 ?_⟩
  rw [if_pos hfailed.1]
  exact hfailed.2

end

end Beep
