import Beep.Controller.Ticking
import Beep.Ebpf.Correctness.Affinity

/-!
# `Controller.Correctness.DepartedPins` — pins to pods that are gone

A tick removes the entries and rows of the departed pods first, and only then takes the pods out of the fronts and out
of `POD_TARGETS`. In between a new flow can still be hashed to one of them, and a forward packet for one is still
taken, and what they leave no later tick looks for. Without such packets nothing is left (`departed_unpinned`).
-/

namespace Beep

open Run

section
variable [Host]

/-- Rows of the pods are left under keys that are still to be removed only, once the keys were collected. -/
def Ticking.Clear (pods : Bytes 16 → Prop) (w : Ticking) : Prop :=
  match w.phase with
  | .start => True
  | .evict pending flows _ => NamedOnly pods pending flows w.node
  | _ => NamedOnly pods [] [] w.node

/-- From the collecting on, nothing that happens to the node gives one of the pods an entry or a row. -/
def StaysClear (pods : Bytes 16 → Prop) (w : Ticking) : TickingStep → Prop
  | .traffic e => w.phase ≠ .start → KeepsClear pods w.node e
  | _ => True

section
variable {job : TickJob} {w : Ticking}

/-- The departed pods are swept. -/
theorem TickJob.Departed.swept {pod : Bytes 16} (h : job.Departed pod) (hknown : job.desired.podTargetsKnown = true)
    (n : Node) : pod ∈ (job.input n).sweep job.memory :=
  TickInput.mem_sweep.mpr (Or.inr ⟨hknown, Or.inr (Or.inl h)⟩)

/-- The tick's own operations. -/
theorem Ticking.Clear.next (hknown : job.desired.podTargetsKnown = true) (h : w.Clear job.Departed) :
    (w.next job).Clear job.Departed := by
  obtain ⟨n, phase⟩ := w
  cases phase with
  | start => exact NamedOnly.collected n fun pod hpod => hpod.swept hknown n
  | evict pending flows plan =>
    replace h : NamedOnly job.Departed pending flows n := h
    cases pending with
    | cons key pending => exact h.dropPending
    | nil =>
      cases flows with
      | cons key flows => exact h.dropFlow
      | nil => exact h
  | fronts writes plan =>
    replace h : NamedOnly job.Departed [] [] n := h
    cases writes with
    | cons write writes => exact ⟨h.pending, h.forward, h.keyed⟩
    | nil =>
      unfold Ticking.next
      dsimp only
      split <;> exact h
  | podTargets deletes inserts => exact h

theorem Ticking.Clear.podTarget {pods : Bytes 16 → Prop} (h : w.Clear pods) (pod : Bytes 16) :
    (w.podTarget pod).Clear pods := by
  obtain ⟨n, phase⟩ := w
  cases phase with
  | podTargets deletes inserts =>
    replace h : NamedOnly pods [] [] n := h
    unfold Ticking.podTarget
    dsimp only
    split
    · exact ⟨h.pending, h.forward, h.keyed⟩
    · split
      · exact ⟨h.pending, h.forward, h.keyed⟩
      · exact h
  | _ => exact h

/-- What happens to the node meanwhile. -/
theorem Ticking.Clear.traffic {pods : Bytes 16 → Prop} (h : w.Clear pods) {e : NodeEvent}
    (he : w.phase ≠ .start → KeepsClear pods w.node e) : Ticking.Clear pods { w with node := w.node.step e } := by
  obtain ⟨n, phase⟩ := w
  cases phase with
  | start => trivial
  | evict pending flows plan => exact NamedOnly.traffic h (he fun h => nomatch h)
  | fronts writes plan => exact NamedOnly.traffic h (he fun h => nomatch h)
  | podTargets deletes inserts => exact NamedOnly.traffic h (he fun h => nomatch h)

/-- **The step.** -/
theorem Ticking.Clear.step (hknown : job.desired.podTargetsKnown = true) (h : w.Clear job.Departed) {e : TickingStep}
    (he : StaysClear job.Departed w e) : (w.step job e).Clear job.Departed := by
  cases e with
  | traffic e => exact h.traffic he
  | next => exact h.next hknown
  | podTarget pod => exact h.podTarget pod

/-- **After a tick no departed pod is pinned**, if from its sweep on no flow is started on one of them or established,
    and no forward packet for one leaves a row. -/
theorem departed_unpinned {n : Node} {steps : List TickingStep} (hknown : job.desired.podTargetsKnown = true)
    (hclear : Along (Ticking.step job) (StaysClear job.Departed) ⟨n, .start⟩ steps)
    (hdone : (steps.foldl (Ticking.step job) ⟨n, .start⟩).Done) (pod : Bytes 16) (hpod : job.Departed pod) :
    ¬ (steps.foldl (Ticking.step job) ⟨n, .start⟩).node.PinsPod pod ∧
      ¬ (steps.foldl (Ticking.step job) ⟨n, .start⟩).node.KeysPod pod := by
  have hend : (steps.foldl (Ticking.step job) ⟨n, .start⟩).Clear job.Departed :=
    Along.inv (fun w e (h : w.Clear job.Departed) he => h.step hknown he) hclear trivial
  unfold Ticking.Clear at hend
  rw [hdone] at hend
  exact hend.clear hpod

end

end

/-! ## One front that changes its only endpoint -/

section
local instance departedHost : Host := littleHost

/-- The front's new endpoint, on the pod `10.1.0.8`. -/
def newEndpoint : FrontEndpoint :=
  { oneEndpoint with backend := { oneEndpoint.backend with podIp := mappedAddr 10 1 0 8 } }

/-- The tick after the pod `10.1.0.9` was replaced. -/
def replacedJob : TickJob where
  desired :=
    { frontsKnown := true
      podTargetsKnown := true
      clusterBackends := (∅ : Table (Bytes 16) (Option String)).insert (mappedAddr 10 1 0 8) (some "b")
      fronts := (∅ : Table LbFrontKey DesiredFront).insert oneFront
        { flags := 0, preferLocal := false, endpoints := [newEndpoint] } }
  memory :=
    { known := (∅ : Table (Bytes 16) (Option String)).insert (mappedAddr 10 1 0 9) (some "a"), orphansSwept := true }
  keepPrevious := ∅
  order := .asStored

/-- The first packet of a flow to the front. -/
def firstPacket : NodeEvent := .uplinkIngress clientSkb fun _ => true

/-- The ingress node once that packet was steered to the pod that goes. -/
def pinnedIngress : Node := oneIngress.step firstPacket

/-- The plan of the tick. -/
def replacedPlan (n : Node) : TickPlan := (replacedJob.input n).plan replacedJob.memory

/-- The writes of the tick's front. -/
def replacedWrites : List FrontWrite :=
  [.putEndpoint (endpointKey oneFront 2 0) newEndpoint,
    .putMeta oneFront { generation := 2, count := 1, flags := 0, localCount := 0, pad := 0 }]

theorem replacedJob_departed : replacedJob.Departed (mappedAddr 10 1 0 9) := by
  have hknown : (replacedJob.memory.known.lookup (mappedAddr 10 1 0 9)).isSome = true := by decide
  have hgone : replacedJob.desired.clusterBackends.lookup (mappedAddr 10 1 0 9) = none := by decide
  exact ⟨Option.isSome_iff_ne_none.mp hknown, hgone⟩

theorem replacedPlan_before :
    (replacedPlan oneIngress).deleteRows = ∅ ∧ (replacedPlan oneIngress).podTargets = ∅ := by
  decide

theorem replacedPlan_after :
    (replacedPlan pinnedIngress).deleteRows = ∅ ∧ (replacedPlan pinnedIngress).podTargets = ∅ := by
  decide

theorem replacedWrites_before : replacedJob.frontWrites (replacedPlan oneIngress) pinnedIngress = replacedWrites := by
  decide

theorem replacedWrites_after (key : TcpFlowKey) : replacedJob.frontWrites (replacedPlan pinnedIngress)
    (pinnedIngress.step (.dropPending key)) = replacedWrites := by
  have hsame : replacedJob.frontWrites (replacedPlan pinnedIngress) pinnedIngress = replacedWrites := by
    decide
  exact hsame

/-- The flow is pinned to the pod that goes. -/
theorem pinnedIngress_pin :
    (pinnedIngress.fwdPending.lookup clientFlow.flowKey).map (·.backend.podIp) = some (mappedAddr 10 1 0 9) := by
  decide

theorem pinnedIngress_collected :
    pinnedIngress.evictPodFlows ((replacedJob.input pinnedIngress).sweep replacedJob.memory) =
      ([clientFlow.flowKey], []) := by
  decide

theorem oneIngress_collected :
    oneIngress.evictPodFlows ((replacedJob.input oneIngress).sweep replacedJob.memory) = ([], []) := by
  decide

/-- The front writes end the tick, and leave the pins alone. -/
theorem replaced_finish (n : Node) {plan : TickPlan} (hplan : plan.deleteRows = ∅ ∧ plan.podTargets = ∅) :
    ([.next, .next, .next].foldl (Ticking.step replacedJob) ⟨n, .fronts replacedWrites plan⟩).Done ∧
      ([.next, .next, .next].foldl (Ticking.step replacedJob) ⟨n, .fronts replacedWrites plan⟩).node.fwdPending =
        n.fwdPending := by
  refine ⟨?_, rfl⟩
  show TickPhase.podTargets plan.deleteRows plan.podTargets = .podTargets ∅ ∅
  rw [hplan.1, hplan.2]

/-- The packet comes before the tick. -/
def packetBefore : List TickingStep := [.traffic firstPacket, .next, .next, .next, .next, .next, .next]

/-- The packet comes after the sweep, before the front is written. -/
def packetBetween : List TickingStep := [.next, .traffic firstPacket, .next, .next, .next, .next]

theorem packetBefore_eq : packetBefore.foldl (Ticking.step replacedJob) ⟨oneIngress, .start⟩ =
    [.next, .next, .next].foldl (Ticking.step replacedJob)
      ⟨pinnedIngress.step (.dropPending clientFlow.flowKey), .fronts replacedWrites (replacedPlan pinnedIngress)⟩ := by
  have hpin : oneIngress.step firstPacket = pinnedIngress := rfl
  rw [packetBefore, Ticking.run_traffic, hpin, Ticking.run_next, Ticking.next_start replacedJob _ pinnedIngress_collected,
    Ticking.run_next, Ticking.next_dropPending, Ticking.run_next, Ticking.next_evicted, ← replacedPlan,
    replacedWrites_after]

theorem packetBetween_eq : packetBetween.foldl (Ticking.step replacedJob) ⟨oneIngress, .start⟩ =
    [.next, .next, .next].foldl (Ticking.step replacedJob)
      ⟨pinnedIngress, .fronts replacedWrites (replacedPlan oneIngress)⟩ := by
  have hpin : oneIngress.step firstPacket = pinnedIngress := rfl
  rw [packetBetween, Ticking.run_next, Ticking.next_start replacedJob _ oneIngress_collected, Ticking.run_traffic, hpin,
    Ticking.run_next, Ticking.next_evicted, ← replacedPlan, replacedWrites_before]

/-- The theorem at a flow that was started before the tick. -/
theorem departed_unpinned_packet_before :
    ¬ (packetBefore.foldl (Ticking.step replacedJob) ⟨oneIngress, .start⟩).node.PinsPod (mappedAddr 10 1 0 9) := by
  have hclear : Along (Ticking.step replacedJob) (StaysClear replacedJob.Departed) ⟨oneIngress, .start⟩
      packetBefore := ⟨fun h => absurd rfl h, trivial, trivial, trivial, trivial, trivial, trivial, trivial⟩
  refine (departed_unpinned rfl hclear ?_ _ replacedJob_departed).1
  rw [packetBefore_eq]
  exact (replaced_finish _ replacedPlan_after).1

end

/-- A flow that starts between the sweep and the front's write stays pinned to the pod that is gone. -/
theorem not_departed_unpinned : ¬ ∀ (_host : Host) (job : TickJob) (n : Node) (steps : List TickingStep)
    (pod : Bytes 16), job.desired.frontsKnown = true → job.desired.podTargetsKnown = true →
    (∀ e, .traffic e ∈ steps → e.IsPacket) → (steps.foldl (Ticking.step job) ⟨n, .start⟩).Done → job.Departed pod →
      ¬ (steps.foldl (Ticking.step job) ⟨n, .start⟩).node.PinsPod pod ∧
        ¬ (steps.foldl (Ticking.step job) ⟨n, .start⟩).node.KeysPod pod := by
  intro hunpinned
  let := littleHost
  have hpackets : ∀ e, TickingStep.traffic e ∈ packetBetween → NodeEvent.IsPacket e := by
    intro e he
    simp only [packetBetween, List.mem_cons, reduceCtorEq, false_or, TickingStep.traffic.injEq, List.not_mem_nil,
      or_false] at he
    rw [he]
    trivial
  have hclear := hunpinned littleHost replacedJob oneIngress packetBetween
    (mappedAddr 10 1 0 9) rfl rfl hpackets
  rw [packetBetween_eq] at hclear
  obtain ⟨hdone, hpins⟩ := replaced_finish pinnedIngress replacedPlan_before
  refine (hclear hdone replacedJob_departed).1 (Or.inl ?_)
  obtain ⟨v, hv, hpod⟩ := Option.map_eq_some_iff.mp pinnedIngress_pin
  rw [hpins]
  exact ⟨clientFlow.flowKey, v, hv, hpod⟩

end Beep
