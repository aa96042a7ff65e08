import Beep.Controller.Apply
import Beep.Loader.FrontSwap.Execute

/-!
# `Controller.PinnedMaps` — a tick and all it issues

`PinnedMaps::apply` of `controller/src/apply.rs` with the four gates in it: the fronts are written only while they are
known, `NODE_ALLOW` rows are deleted only once they have been, the pods of the node are written only while they are
known, and `plan_tick` sweeps nothing before that. What a tick reads and how its operations go is a `TickReads`; what it
issues is collected map by map (`TickOps`).
-/

namespace Beep

/-- The content of the pinned maps as a tick reads it, and how its operations go; a read that fails gives nothing. -/
structure TickReads where
  podTargets : Option (List (Bytes 16))
  pinned : Option (Finset (Bytes 16))
  fronts : Option FrontStore
  nodeAllow : Option (List (Bytes 16))
  now : Nat
  order : IterationOrder LbFrontKey
  evict : Finset (Bytes 16) → Bool
  failsFront : FrontLog → FrontWrite → Option MapError

/-- What a tick issues: the pods whose flows are evicted, the front writes, and the rows removed from and put into the
    two sets. -/
structure TickOps where
  evicted : Finset (Bytes 16)
  fronts : FrontLog
  nodeAllowRemoved : Finset (Bytes 16)
  nodeAllowPut : Finset (Bytes 16)
  podTargetsRemoved : Finset (Bytes 16)
  podTargetsPut : Finset (Bytes 16)

/-- `PREVIOUS_GENERATION_GRACE`, in nanoseconds. -/
def previousGenerationGrace : Nat := 2000000000

/-- `RecentSwaps`: when each front last committed a generation. -/
abbrev RecentSwaps := Table LbFrontKey Nat

namespace RecentSwaps

/-- The swaps whose grace has not run out. -/
def inGrace (swaps : RecentSwaps) (now : Nat) : RecentSwaps :=
  swaps.filter fun _ swappedAt => now - swappedAt < previousGenerationGrace

/-- `RecentSwaps::held`. -/
def held (swaps : RecentSwaps) (now : Nat) : Finset LbFrontKey := (swaps.inGrace now).keys.toFinset

/-- `RecentSwaps::record`. -/
def record (swaps : RecentSwaps) (swapped : List LbFrontKey) (now : Nat) : RecentSwaps :=
  swapped.foldl (fun swaps front => swaps.insert front now) (swaps.inGrace now)

end RecentSwaps

/-- `PinnedMaps`, without the maps. -/
structure PinnedMaps where
  capacity : FrontCapacity
  recentSwaps : RecentSwaps := ∅
  memory : TickMemory := {}
  frontsEverKnown : Bool := false

/-- `node_allow_may_delete`. -/
def nodeAllowMayDelete (frontsKnown frontsEverKnown : Bool) : Bool := frontsKnown || frontsEverKnown

/-- `node_allow_stale_peers`. -/
def nodeAllowStalePeers (existing : List (Bytes 16)) (live : Finset (Bytes 16)) (mayDelete : Bool) :
    Finset (Bytes 16) := if mayDelete then stalePodTargets existing live else ∅

namespace PinnedMaps

/-- The tick as `plan_tick` sees it. -/
def input (d : DesiredEntries) (r : TickReads) : TickInput where
  desired := d
  installed := r.podTargets.getD []
  pinned := r.pinned
  evict := r.evict

/-- `apply_front_maps`: the swaps on record, and the writes; none if the maps cannot be read. -/
def applyFrontMaps (p : PinnedMaps) (plan : TickPlan) (r : TickReads) : RecentSwaps × FrontLog :=
  match r.fronts with
  | none => (p.recentSwaps, [])
  | some store =>
      let used : FrontUsage := { metas := store.metas.entries.length, endpoints := store.endpoints.entries.length }
      let (log, applied) := frontPass r.failsFront r.order store plan.fronts plan.pruneFronts
        (p.recentSwaps.held r.now) used p.capacity
      (p.recentSwaps.record applied.swapped r.now, log)

/-- `apply_node_allow`: the rows removed and the rows put; none if the map cannot be read. -/
def applyNodeAllow (live : Finset (Bytes 16)) (mayDelete : Bool) (r : TickReads) :
    Finset (Bytes 16) × Finset (Bytes 16) :=
  match if mayDelete then r.nodeAllow else some [] with
  | none => (∅, ∅)
  | some existing => (nodeAllowStalePeers existing live mayDelete, live)

/-- `apply`. -/
def apply (p : PinnedMaps) (d : DesiredEntries) (r : TickReads) : PinnedMaps × TickOps :=
  let t := input d r
  let plan := t.plan p.memory
  let (recentSwaps, fronts) := if d.frontsKnown then p.applyFrontMaps plan r else (p.recentSwaps, [])
  let frontsEverKnown := nodeAllowMayDelete d.frontsKnown p.frontsEverKnown
  let (nodeAllowRemoved, nodeAllowPut) := applyNodeAllow d.nodeAllow frontsEverKnown r
  let writesPods := r.podTargets.isSome && d.podTargetsKnown
  ({ p with recentSwaps, memory := p.memory.step t, frontsEverKnown },
    { evicted := t.sweep p.memory
      fronts
      nodeAllowRemoved
      nodeAllowPut
      podTargetsRemoved := if writesPods then plan.deleteRows else ∅
      podTargetsPut := if writesPods then plan.podTargets else ∅ })

/-! ## The gates -/

variable {p : PinnedMaps} {d : DesiredEntries} {r : TickReads}

/-- While the pods of the node are not known, no row of theirs is removed or put. -/
theorem podTargets_untouched (h : d.podTargetsKnown = false) :
    (p.apply d r).2.podTargetsRemoved = ∅ ∧ (p.apply d r).2.podTargetsPut = ∅ := by
  unfold apply
  dsimp only
  rw [h, Bool.and_false]
  exact ⟨rfl, rfl⟩

/-- While the fronts are not known and never were, and neither are the pods, a tick only puts `NODE_ALLOW` rows. -/
theorem apply_unlisted (hfronts : d.frontsKnown = false) (hpods : d.podTargetsKnown = false)
    (hnever : p.frontsEverKnown = false) :
    (p.apply d r).2.fronts = [] ∧ (p.apply d r).2.nodeAllowRemoved = ∅ ∧ (p.apply d r).2.evicted = ∅ ∧
      (p.apply d r).1.frontsEverKnown = false := by
  have horphans : (input d r).orphans p.memory = none := by
    unfold TickInput.orphans orphanSweepDue input
    rw [hfronts]
    rfl
  have hsweep : (input d r).sweep p.memory = ∅ := by
    refine Finset.eq_empty_of_forall_notMem fun x hx => ?_
    rcases TickInput.mem_sweep.mp hx with hx | ⟨hknown, -⟩
    · rw [horphans] at hx
      exact absurd hx (Finset.notMem_empty x)
    · rw [show (input d r).desired.podTargetsKnown = false from hpods] at hknown
      cases hknown
  unfold apply
  dsimp only
  rw [hfronts, hnever, hsweep]
  exact ⟨rfl, rfl, rfl, rfl⟩

end PinnedMaps

end Beep
