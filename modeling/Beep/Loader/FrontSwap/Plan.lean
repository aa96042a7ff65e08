import Beep.Common.Values
import Beep.Lib.Table
import Mathlib.Data.Finset.Insert

/-!
# `Loader.FrontSwap.Plan` — planning the writes of a generation swap

`src/front_swap.rs`: from the two front maps as they were read and the desired fronts, one ordered list of
writes per front (`planFrontWrites`). A front whose endpoints change gets its next generation written
beside the live one and a single `FRONT_META` write that commits it.

A `HashMap` argument is a `Table`; the order of its entries is the order its iterator yields them in. The
`HashSet` the planner collects the fronts into hands them out in some `IterationOrder`.
-/

namespace Beep

/-- `DesiredFront`: the endpoint set a front should have; slot `i` is `endpoints[i]`. -/
structure DesiredFront where
  flags : UInt16
  preferLocal : Bool
  endpoints : List FrontEndpoint
  deriving DecidableEq

/-- `DesiredFront::local_count`: the length of the leading run of local endpoints, `0` if the front does
    not prefer them. -/
def DesiredFront.localCount (d : DesiredFront) : UInt16 :=
  if !d.preferLocal then 0
  else UInt16.ofNat (d.endpoints.takeWhile fun e => e.flags &&& endpointFlagIsLocal != 0).length

/-- `endpoints.len() as u16`. -/
def DesiredFront.count (d : DesiredFront) : UInt16 := UInt16.ofNat d.endpoints.length

/-- `FrontWrite`: one write to one of the two front maps. -/
inductive FrontWrite where
  | deleteEndpoint (key : FrontEndpointKey)
  | putEndpoint (key : FrontEndpointKey) (value : FrontEndpoint)
  | putMeta (front : LbFrontKey) (value : FrontMeta)
  | deleteMeta (front : LbFrontKey)
  deriving DecidableEq

/-- The front whose rows a write touches. -/
def FrontWrite.front : FrontWrite → LbFrontKey
  | .deleteEndpoint k => k.front
  | .putEndpoint k _ => k.front
  | .putMeta f _ => f
  | .deleteMeta f => f

/-- `FrontPlan`: the ordered writes for one front. -/
structure FrontPlan where
  front : LbFrontKey
  steps : List FrontWrite
  deriving DecidableEq

/-- `endpoint_key`. -/
def endpointKey (front : LbFrontKey) (generation : UInt32) (slot : Nat) : FrontEndpointKey where
  front := front
  generation := generation
  slot := UInt16.ofNat slot
  pad := 0

/-! ## The effect of a plan on the number of entries -/

/-- The change one write makes to the number of endpoint rows. -/
def FrontWrite.endpointDelta : FrontWrite → Int
  | .putEndpoint .. => 1
  | .deleteEndpoint _ => -1
  | _ => 0

/-- The change one write makes to the number of `FRONT_META` rows. -/
def FrontWrite.metaDelta (frontHadMeta : Bool) : FrontWrite → Int
  | .putMeta .. => if frontHadMeta then 0 else 1
  | .deleteMeta _ => -1
  | _ => 0

/-- The running totals of `plan_effect`. -/
structure EffectTotals where
  ep : Int := 0
  epPeak : Int := 0
  metas : Int := 0
  metasPeak : Int := 0

/-- `plan_effect`: net endpoint change, endpoint peak and meta peak of a plan run in step order. -/
def planEffect (plan : FrontPlan) (frontHadMeta : Bool) : Int × Nat × Nat :=
  let totals := plan.steps.foldl (fun (t : EffectTotals) step =>
    let ep := t.ep + step.endpointDelta
    let metas := t.metas + step.metaDelta frontHadMeta
    { ep, epPeak := max t.epPeak ep, metas, metasPeak := max t.metasPeak metas }) {}
  (totals.ep, totals.epPeak.toNat, totals.metasPeak.toNat)

/-- The order `plans.sort_by_key` sorts by: net endpoint change, then front address, port and protocol. -/
def planOrdering (frontHadMeta : LbFrontKey → Bool) (p q : FrontPlan) : Ordering :=
  (compare (planEffect p (frontHadMeta p.front)).1 (planEffect q (frontHadMeta q.front)).1).then <|
  (compare p.front.frontIp.toList q.front.frontIp.toList).then <|
  (compare p.front.frontPort q.front.frontPort).then (compare p.front.proto q.front.proto)

/-! ## Planning -/

/-- The live meta row, if the front's endpoint set is the one wanted. -/
def unchangedMeta (endpoints : Table FrontEndpointKey FrontEndpoint) (front : LbFrontKey)
    (want : DesiredFront) (live : Option FrontMeta) : Option FrontMeta :=
  live.filter fun m =>
    m.count == want.count && m.localCount == want.localCount &&
      want.endpoints.zipIdx.all fun e =>
        endpoints.lookup (endpointKey front m.generation e.2) == some e.1

/-- The generation a swap writes: `1` for a new front, else the live one plus one, wrapping. -/
def nextGeneration (live : Option FrontMeta) : UInt32 :=
  match live with
  | some m => m.generation + 1
  | none => 1

/-- The `FRONT_META` row a swap commits. -/
def DesiredFront.committed (want : DesiredFront) (generation : UInt32) : FrontMeta where
  generation := generation
  count := want.count
  flags := want.flags
  localCount := want.localCount
  pad := 0

/-- Whether an unchanged front deletes an endpoint row: every generation but the live one, and the one
    before it while the front is in its grace. -/
def staleGeneration (live : UInt32) (kept : Bool) (k : FrontEndpointKey) : Bool :=
  k.generation != live && !(kept && k.generation == live - 1)

/-- The steps for a front whose desired endpoint set is not the live one. -/
def swapSteps (existing : List FrontEndpointKey) (front : LbFrontKey) (want : DesiredFront)
    (live : Option FrontMeta) : List FrontWrite :=
  (existing.filter fun k => some k.generation != live.map (·.generation)).map .deleteEndpoint
    ++ want.endpoints.zipIdx.map (fun e =>
        .putEndpoint (endpointKey front (nextGeneration live) e.2) e.1)
    ++ [.putMeta front (want.committed (nextGeneration live))]

/-- The steps for a front whose desired endpoint set is the live one. -/
def refreshSteps (existing : List FrontEndpointKey) (front : LbFrontKey) (want : DesiredFront)
    (m : FrontMeta) (kept : Bool) : List FrontWrite :=
  (existing.filter (staleGeneration m.generation kept)).map .deleteEndpoint
    ++ if m.flags != want.flags then [.putMeta front { m with flags := want.flags }] else []

/-- The steps for a front that is no longer desired. -/
def pruneSteps (existing : List FrontEndpointKey) (front : LbFrontKey) (live : Option FrontMeta) :
    List FrontWrite :=
  (if live.isSome then [.deleteMeta front] else []) ++ existing.map .deleteEndpoint

section
variable (currentMeta : Table LbFrontKey FrontMeta)
  (currentEndpoints : Table FrontEndpointKey FrontEndpoint)
  (desired : Table LbFrontKey DesiredFront) (pruneAbsent : Bool) (keepPrevious : Finset LbFrontKey)

/-- `endpoints_by_front`, read at one front. -/
def endpointsOf (front : LbFrontKey) : List FrontEndpointKey :=
  currentEndpoints.keys.filter fun k => k.front = front

/-- The body of the planner's loop over the fronts. -/
def planFrontSteps (front : LbFrontKey) : List FrontWrite :=
  let existing := endpointsOf currentEndpoints front
  match desired.lookup front with
  | none => if pruneAbsent then pruneSteps existing front (currentMeta.lookup front) else []
  | some want =>
      match unchangedMeta currentEndpoints front want (currentMeta.lookup front) with
      | some m => refreshSteps existing front want m (front ∈ keepPrevious)
      | none => swapSteps existing front want (currentMeta.lookup front)

/-- The set of fronts the planner visits. -/
def plannedFronts : List LbFrontKey :=
  (desired.keys ++
    if pruneAbsent then currentMeta.keys ++ currentEndpoints.keys.map (·.front) else []).dedup

/-- `plan_front_writes`. -/
def planFrontWrites (order : IterationOrder LbFrontKey) : List FrontPlan :=
  let fronts := order.arrange (plannedFronts currentMeta currentEndpoints desired pruneAbsent)
  let plans : List FrontPlan := fronts.map fun front =>
    { front, steps := planFrontSteps currentMeta currentEndpoints desired pruneAbsent keepPrevious front }
  (plans.filter fun p => !p.steps.isEmpty).insertionSort fun p q =>
    (planOrdering (fun front => (currentMeta.lookup front).isSome) p q).isLE = true

/-! ## What the planner returns -/

variable {currentMeta currentEndpoints desired pruneAbsent keepPrevious}

/-- The plans are those of the fronts with something to do. -/
theorem mem_planFrontWrites {order : IterationOrder LbFrontKey} {p : FrontPlan} :
    p ∈ planFrontWrites currentMeta currentEndpoints desired pruneAbsent keepPrevious order ↔
      p.front ∈ plannedFronts currentMeta currentEndpoints desired pruneAbsent ∧
        p.steps = planFrontSteps currentMeta currentEndpoints desired pruneAbsent keepPrevious p.front ∧
        p.steps ≠ [] := by
  unfold planFrontWrites
  rw [List.mem_insertionSort, List.mem_filter, List.mem_map]
  constructor
  · rintro ⟨⟨f, hf, rfl⟩, hne⟩
    exact ⟨order.mem_arrange.mp hf, rfl, by simpa using hne⟩
  · rintro ⟨hf, hsteps, hne⟩
    refine ⟨⟨p.front, order.mem_arrange.mpr hf, ?_⟩, by simpa using hne⟩
    rw [← hsteps]

/-- One plan a front. -/
theorem nodup_planFrontWrites (order : IterationOrder LbFrontKey) :
    ((planFrontWrites currentMeta currentEndpoints desired pruneAbsent keepPrevious order).map
      FrontPlan.front).Nodup := by
  unfold planFrontWrites
  have hperm := fun l : List FrontPlan => List.perm_insertionSort (fun p q : FrontPlan =>
    (planOrdering (fun front => (currentMeta.lookup front).isSome) p q).isLE = true) l
  rw [((hperm _).map FrontPlan.front).nodup_iff]
  refine List.Nodup.sublist ((List.filter_sublist).map FrontPlan.front) ?_
  rw [List.map_map, Function.comp_def, List.map_id']
  exact order.nodup_arrange (List.nodup_dedup _)

theorem mem_endpointsOf {front : LbFrontKey} {k : FrontEndpointKey} :
    k ∈ endpointsOf currentEndpoints front ↔ k.front = front ∧ ∃ v, currentEndpoints.lookup k = some v := by
  rw [endpointsOf, List.mem_filter, Table.mem_keys_iff]
  simp [and_comm]

/-- A plan writes rows of its own front only. -/
theorem front_of_mem_planFrontSteps {front : LbFrontKey} {w : FrontWrite}
    (hw : w ∈ planFrontSteps currentMeta currentEndpoints desired pruneAbsent keepPrevious front) :
    w.front = front := by
  have hdel : ∀ sel : FrontEndpointKey → Bool,
      w ∈ ((endpointsOf currentEndpoints front).filter sel).map FrontWrite.deleteEndpoint →
        w.front = front := by
    intro sel hw
    obtain ⟨k, hk, rfl⟩ := List.mem_map.mp hw
    exact (mem_endpointsOf.mp (List.mem_filter.mp hk).1).1
  unfold planFrontSteps at hw
  simp only at hw
  split at hw
  · split at hw
    · rcases List.mem_append.mp hw with hw | hw
      · split at hw
        · rw [List.mem_singleton.mp hw]
          rfl
        · cases hw
      · exact hdel (fun _ => true) (by rwa [List.filter_true])
    · cases hw
  · split at hw
    · rcases List.mem_append.mp hw with hw | hw
      · exact hdel _ hw
      · split at hw
        · rw [List.mem_singleton.mp hw]
          rfl
        · cases hw
    · rcases List.mem_append.mp hw with hw | hw
      · rcases List.mem_append.mp hw with hw | hw
        · exact hdel _ hw
        · obtain ⟨e, _, rfl⟩ := List.mem_map.mp hw
          rfl
      · rw [List.mem_singleton.mp hw]
        rfl

theorem front_of_mem_steps {order : IterationOrder LbFrontKey} {p : FrontPlan}
    (hp : p ∈ planFrontWrites currentMeta currentEndpoints desired pruneAbsent keepPrevious order)
    {w : FrontWrite} (hw : w ∈ p.steps) : w.front = p.front := by
  rw [(mem_planFrontWrites.mp hp).2.1] at hw
  exact front_of_mem_planFrontSteps hw

/-- The endpoint rows a generation must hold for a front to be as wanted. -/
def HoldsSlots (endpoints : Table FrontEndpointKey FrontEndpoint) (front : LbFrontKey)
    (generation : UInt32) (want : DesiredFront) : Prop :=
  ∀ slot (h : slot < want.endpoints.length),
    endpoints.lookup (endpointKey front generation slot) = some want.endpoints[slot]

/-- The live row is kept exactly when it already serves what is wanted, flags apart. -/
theorem unchangedMeta_eq_some {front : LbFrontKey} {want : DesiredFront} {live : Option FrontMeta}
    {m : FrontMeta} :
    unchangedMeta currentEndpoints front want live = some m ↔
      live = some m ∧ m.count = want.count ∧ m.localCount = want.localCount ∧
        HoldsSlots currentEndpoints front m.generation want := by
  unfold unchangedMeta
  rw [Option.filter_eq_some_iff]
  simp only [Bool.and_eq_true, beq_iff_eq, List.all_eq_true, and_assoc]
  refine and_congr_right fun _ => and_congr_right fun _ => and_congr_right fun _ => ⟨fun h => ?_, fun h => ?_⟩
  · intro slot hslot
    exact h (want.endpoints[slot], slot) (List.mk_mem_zipIdx_iff_getElem?.mpr (List.getElem?_eq_getElem hslot))
  · rintro ⟨e, slot⟩ he
    obtain ⟨hslot, rfl⟩ := List.getElem?_eq_some_iff.mp (List.mk_mem_zipIdx_iff_getElem?.mp he)
    exact h slot hslot

/-- What is planned for a front: nothing, a prune, a refresh of the live generation or a swap to the next. -/
theorem planFrontSteps_cases (f : LbFrontKey) :
    (desired.lookup f = none ∧ pruneAbsent = false ∧
        planFrontSteps currentMeta currentEndpoints desired pruneAbsent keepPrevious f = []) ∨
      (desired.lookup f = none ∧ pruneAbsent = true ∧
        planFrontSteps currentMeta currentEndpoints desired pruneAbsent keepPrevious f =
          pruneSteps (endpointsOf currentEndpoints f) f (currentMeta.lookup f)) ∨
      (∃ want m, desired.lookup f = some want ∧ currentMeta.lookup f = some m ∧
        planFrontSteps currentMeta currentEndpoints desired pruneAbsent keepPrevious f =
          refreshSteps (endpointsOf currentEndpoints f) f want m (f ∈ keepPrevious)) ∨
      ∃ want, desired.lookup f = some want ∧
        planFrontSteps currentMeta currentEndpoints desired pruneAbsent keepPrevious f =
          swapSteps (endpointsOf currentEndpoints f) f want (currentMeta.lookup f) := by
  unfold planFrontSteps
  cases hd : desired.lookup f with
  | none =>
    cases hprune : pruneAbsent with
    | false => exact Or.inl ⟨rfl, rfl, rfl⟩
    | true => exact Or.inr (Or.inl ⟨rfl, rfl, rfl⟩)
  | some want =>
    cases hu : unchangedMeta currentEndpoints f want (currentMeta.lookup f) with
    | some m => exact Or.inr (Or.inr (Or.inl ⟨want, m, rfl, (unchangedMeta_eq_some.mp hu).1, by simp only [hu]⟩))
    | none => exact Or.inr (Or.inr (Or.inr ⟨want, rfl, by simp only [hu]⟩))

end

end Beep
