import Beep.Controller.Correctness.PreviousGeneration
import Beep.Controller.Publish

/-!
# `Controller.ReconcileLoop` — when ticks run, and what they do to the maps

`controller/src/main.rs`, the part that runs `PinnedMaps::apply`: after every watch event and every LIST that is not
refused (`watch`), and from the retry loop (`poll`), which runs it when a failed one is due (`retry_tick`) or, if none
was, when a swapped front's grace is over (`follow_up_tick`).

The three maps that ticks write are held as the kernel does (`SyncedMaps`). How the operations of one tick go, and the
times it reads, are its `TickCourse`: any read, walk, eviction or write may fail.
-/

namespace Beep

/-- The order in which the kernel hands out the keys of a set. -/
structure KeyOrder where
  list : Finset (Bytes 16) → List (Bytes 16)
  mem_list : ∀ {rows x}, x ∈ list rows ↔ x ∈ rows

/-- How one tick goes: when it starts and when it gets to the fronts, what can be read, and what fails. -/
structure TickCourse where
  startedAt : Nat
  writtenAt : Nat
  readsPodTargets : Bool
  /-- the backends that the pins name, if they can be walked -/
  pinned : Option (Finset (Bytes 16))
  evict : Finset (Bytes 16) → Bool
  readsFronts : Bool
  readsNodeAllow : Bool
  order : IterationOrder LbFrontKey
  keyOrder : KeyOrder
  failsFront : FrontLog → FrontWrite → Option MapError
  failsNodeAllow : Bytes 16 → Bool
  failsPodTarget : Bytes 16 → Bool

/-- The maps that ticks write. `POD_TARGETS` and `NODE_ALLOW` hold `1` under each of their keys. -/
structure SyncedMaps where
  fronts : FrontStore
  podTargets : Finset (Bytes 16)
  nodeAllow : Finset (Bytes 16)

/-- The rows after some of them are removed and others put; an operation that fails changes nothing. -/
def syncRows (rows removed put : Finset (Bytes 16)) (fails : Bytes 16 → Bool) : Finset (Bytes 16) :=
  (rows \ removed.filter fun x => !fails x) ∪ put.filter fun x => !fails x

/-- No operation on these rows fails. -/
def noneFails (rows : Finset (Bytes 16)) (fails : Bytes 16 → Bool) : Bool := rows.filter (fun x => fails x = true) = ∅

theorem noneFails_iff {rows : Finset (Bytes 16)} {fails : Bytes 16 → Bool} :
    noneFails rows fails = true ↔ ∀ x ∈ rows, fails x = false := by
  unfold noneFails
  rw [decide_eq_true_iff, Finset.filter_eq_empty_iff]
  exact forall₂_congr fun x _ => by rw [Bool.not_eq_true]

namespace SyncedMaps

/-- What a tick reads of the maps. -/
def reads (k : SyncedMaps) (c : TickCourse) : TickReads where
  podTargets := if c.readsPodTargets then some (c.keyOrder.list k.podTargets) else none
  pinned := c.pinned
  fronts := if c.readsFronts then some k.fronts else none
  nodeAllow := if c.readsNodeAllow then some (c.keyOrder.list k.nodeAllow) else none
  now := c.writtenAt
  order := c.order
  evict := c.evict
  failsFront := c.failsFront

/-- The maps after what a tick issues. -/
def after (k : SyncedMaps) (ops : TickOps) (c : TickCourse) : SyncedMaps where
  fronts := storeAfter k.fronts ops.fronts
  podTargets := syncRows k.podTargets ops.podTargetsRemoved ops.podTargetsPut c.failsPodTarget
  nodeAllow := syncRows k.nodeAllow ops.nodeAllowRemoved ops.nodeAllowPut c.failsNodeAllow

end SyncedMaps

namespace PinnedMaps

variable (p : PinnedMaps) (d : DesiredEntries) (r : TickReads) (c : TickCourse)

/-- Whether `apply_front_maps` returns `Ok`: the maps can be read, and no front's writes are refused or fail. -/
def frontsResult : Bool :=
  match r.fronts with
  | none => false
  | some store =>
      let plan := (input d r).plan p.memory
      (applyFronts r.failsFront r.order store plan.fronts plan.pruneFronts (p.recentSwaps.held r.now)
        p.capacity).2.failures.isEmpty

/-- Whether `apply_node_allow` returns `Ok`; the map is read only where rows may be deleted. -/
def nodeAllowResult : Bool :=
  let ops := (p.apply d r).2
  (!nodeAllowMayDelete d.frontsKnown p.frontsEverKnown || r.nodeAllow.isSome) &&
    noneFails (ops.nodeAllowRemoved ∪ ops.nodeAllowPut) c.failsNodeAllow

/-- Whether the `POD_TARGETS` rows are read and written. -/
def podTargetsResult : Bool :=
  let ops := (p.apply d r).2
  r.podTargets.isSome && noneFails (ops.podTargetsRemoved ∪ ops.podTargetsPut) c.failsPodTarget

/-- Whether the sweep, and the walk for orphans if it is due, went through. -/
def sweepResult : Bool :=
  !(input d r).sweepFailed p.memory && !(orphanSweepDue d p.memory.orphansSwept && r.pinned.isNone)

/-- Whether `apply` returns `Ok`. -/
def succeeds : Bool :=
  (!d.frontsKnown || p.frontsResult d r) && p.nodeAllowResult d r c && (!d.podTargetsKnown || p.podTargetsResult d r c) &&
    p.sweepResult d r

end PinnedMaps

/-- Whether an input changes what is watched: a LIST can be refused. -/
def WatchState.accepts (localNodeIp : IpAddr) (s : WatchState) : WatchInput → Bool
  | .services items => (s.replaceServices items).2.toBool
  | .endpointSlices items => (s.replaceEndpointSlices items).2.toBool
  | .nodes items => (s.replaceNodes items localNodeIp).2.toBool
  | .service _ | .endpointSlice _ | .node _ => true

/-- What the three watches and the retry loop share, and the maps. -/
structure Reconciler where
  state : WatchState := {}
  maps : PinnedMaps
  retry : RetryBackoff := {}
  kernel : SyncedMaps

/-- What happens: an input of the watch, or the retry loop's next poll, each with the course of the tick that it may
    run. -/
inductive ReconcileStep where
  | watch (input : WatchInput) (course : TickCourse)
  | poll (now : Instant) (course : TickCourse)

namespace Reconciler

variable [Host] (node : NodeContext)

/-- What the state asks for. -/
def wants (s : Reconciler) : DesiredEntries := s.state.desired node

/-- `apply_reconcile`, with `reconcile_once`. -/
def applyReconcile (s : Reconciler) (c : TickCourse) : Reconciler :=
  let d := s.wants node
  let r := s.kernel.reads c
  let (maps, ops) := s.maps.apply d r
  { s with
    maps
    retry := s.retry.record (s.maps.succeeds d r c) c.startedAt
    kernel := s.kernel.after ops c }

/-- An event or a LIST comes in. -/
def watch (s : Reconciler) (input : WatchInput) (c : TickCourse) : Reconciler :=
  if s.state.accepts node.nodeIp input then
    { s with state := s.state.apply node.nodeIp input }.applyReconcile node c
  else s

/-- `retry_tick`, and whether it ran. -/
def retryTick (s : Reconciler) (now : Instant) (c : TickCourse) : Reconciler × Bool :=
  if s.retry.due now then (s.applyReconcile node c, true) else (s, false)

/-- `follow_up_tick`. -/
def followUpTick (s : Reconciler) (ran : Bool) (now : Instant) (c : TickCourse) : Reconciler :=
  if !ran && s.maps.recentSwaps.expired now then s.applyReconcile node c else s

/-- One round of `run_retry_loop`. -/
def poll (s : Reconciler) (now : Instant) (c : TickCourse) : Reconciler :=
  let (s, ran) := s.retryTick node now c
  s.followUpTick node ran now c

/-- The step. -/
def step (s : Reconciler) : ReconcileStep → Reconciler
  | .watch input c => s.watch node input c
  | .poll now c => s.poll node now c

end Reconciler

end Beep
