import Beep.Controller.Apply
import Beep.Lib.Run
import Beep.Loader.EvictFlows
import Beep.Loader.FrontSwap.Execute

/-!
# `Controller.Ticking` — one tick, step by step, with packets in between

`PinnedMaps::apply` as the sequence of map operations it is: `evict_pod_flows` collects the keys of the pods to sweep
and removes them, then come the front writes one by one, then the `POD_TARGETS` deletes and inserts. Here every one of
them succeeds; between any two anything may happen to the node's maps (`Ticking.step`).
-/

namespace Beep

variable [Host]

/-- What a tick works on. -/
structure TickJob where
  desired : DesiredEntries
  memory : TickMemory
  keepPrevious : Finset LbFrontKey
  order : IterationOrder LbFrontKey

namespace TickJob

/-- The tick as `plan_tick` sees it: its reads of the maps, and a sweep that succeeds. -/
def input (job : TickJob) (n : Node) : TickInput where
  desired := job.desired
  installed := n.podTargets.keys
  pinned := some n.pinnedBackends
  evict _ := true

/-- The writes of `apply_front_maps`: none while the fronts are not known. -/
def frontWrites (job : TickJob) (plan : TickPlan) (n : Node) : List FrontWrite :=
  if job.desired.frontsKnown then
    (planFrontWrites n.frontMeta n.frontEndpoints plan.fronts plan.pruneFronts job.keepPrevious job.order).flatMap
      (·.steps)
  else []

/-- A pod IP that was known before the tick and is no backend of it. -/
def Departed (job : TickJob) (pod : Bytes 16) : Prop :=
  job.memory.known.lookup pod ≠ none ∧ job.desired.clusterBackends.lookup pod = none

end TickJob

/-- How far a tick is: what is still to be removed, written, deleted and inserted. -/
inductive TickPhase where
  | start
  | evict (pending : List TcpFlowKey) (flows : List FlowKey) (plan : TickPlan)
  | fronts (writes : List FrontWrite) (plan : TickPlan)
  | podTargets (deletes inserts : Finset (Bytes 16))

/-- A node and a tick on it. -/
structure Ticking where
  node : Node
  phase : TickPhase

/-- What happens next: something to the node, the tick's next operation, or, among its `POD_TARGETS` writes, the one for
    the given pod. -/
inductive TickingStep where
  | traffic (e : NodeEvent)
  | next
  | podTarget (pod : Bytes 16)

namespace Ticking

/-- The tick's next operation. -/
def next (job : TickJob) (w : Ticking) : Ticking :=
  match w.phase with
  | .start =>
      let sweep := (job.input w.node).sweep job.memory
      let (pending, flows) := w.node.evictPodFlows sweep
      { w with phase := .evict pending flows ((job.input w.node).plan job.memory) }
  | .evict (key :: pending) flows plan =>
      { node := w.node.step (.dropPending key), phase := .evict pending flows plan }
  | .evict [] (key :: flows) plan => { node := w.node.step (.dropFlow key), phase := .evict [] flows plan }
  | .evict [] [] plan => { w with phase := .fronts (job.frontWrites plan w.node) plan }
  | .fronts (write :: writes) plan =>
      let store := FrontStore.apply ⟨w.node.frontMeta, w.node.frontEndpoints⟩ write
      { node := w.node.step (.setFronts store.metas store.endpoints), phase := .fronts writes plan }
  | .fronts [] plan =>
      if job.desired.podTargetsKnown then { w with phase := .podTargets plan.deleteRows plan.podTargets }
      else { w with phase := .podTargets ∅ ∅ }
  | .podTargets _ _ => w

/-- The delete or insert of one pod; the inserts come after the deletes. -/
def podTarget (w : Ticking) (pod : Bytes 16) : Ticking :=
  match w.phase with
  | .podTargets deletes inserts =>
      if pod ∈ deletes then
        { node := w.node.step (.setPodTargets (w.node.podTargets.erase pod))
          phase := .podTargets (deletes.erase pod) inserts }
      else if deletes = ∅ ∧ pod ∈ inserts then
        { node := w.node.step (.setPodTargets (w.node.podTargets.insert pod 1))
          phase := .podTargets deletes (inserts.erase pod) }
      else w
  | _ => w

/-- The step. -/
def step (job : TickJob) (w : Ticking) : TickingStep → Ticking
  | .traffic e => { w with node := w.node.step e }
  | .next => w.next job
  | .podTarget pod => w.podTarget pod

/-- The tick is through. -/
def Done (w : Ticking) : Prop := w.phase = .podTargets ∅ ∅

/-! ## The phases, one by one -/

variable (job : TickJob) (n : Node) (plan : TickPlan)

theorem run_traffic (phase : TickPhase) (e : NodeEvent) (steps : List TickingStep) :
    (.traffic e :: steps).foldl (step job) ⟨n, phase⟩ = steps.foldl (step job) ⟨n.step e, phase⟩ := rfl

theorem run_next (w : Ticking) (steps : List TickingStep) :
    (.next :: steps).foldl (step job) w = steps.foldl (step job) (w.next job) := rfl

theorem next_start {pending : List TcpFlowKey} {flows : List FlowKey}
    (h : n.evictPodFlows ((job.input n).sweep job.memory) = (pending, flows)) :
    next job ⟨n, .start⟩ = ⟨n, .evict pending flows ((job.input n).plan job.memory)⟩ := by
  simp only [next, h]

theorem next_dropPending (key : TcpFlowKey) (pending : List TcpFlowKey) (flows : List FlowKey) :
    next job ⟨n, .evict (key :: pending) flows plan⟩ =
      ⟨n.step (.dropPending key), .evict pending flows plan⟩ := rfl

theorem next_evicted : next job ⟨n, .evict [] [] plan⟩ = ⟨n, .fronts (job.frontWrites plan n) plan⟩ := rfl

end Ticking

end Beep
