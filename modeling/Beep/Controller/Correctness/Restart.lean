import Beep.Controller.Correctness.Unconcerned
import Beep.Controller.ListWatch
import Beep.Controller.PinnedMaps

/-!
# `Controller.Correctness.Restart` — a restart keeps what is live

A fresh controller finds the maps of the process before it. Its state is listed exactly once a LIST of each kind has been
accepted (`listed_iff`), and nothing before the last of them is gone for good: the latch for `NODE_ALLOW` opens no
earlier (`latched_run`), and the other gates read the state of the tick.
-/

namespace Beep

open Json (Value)

/-! ## Accepted LISTs -/

namespace WatchState

/-- The state after some inputs of a fresh process. -/
def after (localNodeIp : IpAddr) (inputs : List WatchInput) : WatchState :=
  inputs.foldl (WatchState.apply localNodeIp) {}

/-- A LIST of the resource is among the inputs, and was accepted. -/
def Accepted (localNodeIp : IpAddr) (inputs : List WatchInput) (resource : Resource) : Prop :=
  ∃ before items rest, inputs = before ++ resource.list items :: rest ∧
    ((after localNodeIp before).relist localNodeIp items resource).2 = true

theorem Accepted.append {localNodeIp : IpAddr} {inputs : List WatchInput} {resource : Resource}
    (h : Accepted localNodeIp inputs resource) (more : List WatchInput) :
    Accepted localNodeIp (inputs ++ more) resource := by
  obtain ⟨before, items, rest, rfl, haccepted⟩ := h
  exact ⟨before, items, rest ++ more, by simp, haccepted⟩

/-- **A resource is listed** once a LIST of it has been accepted. -/
theorem listed_iff (localNodeIp : IpAddr) (inputs : List WatchInput) (resource : Resource) :
    (Slot.listed resource).get (after localNodeIp inputs) = true ↔ Accepted localNodeIp inputs resource := by
  -- on the last input
  induction inputs using List.reverseRecOn with
  | nil =>
    constructor
    · intro h
      cases resource <;> cases h
    · rintro ⟨before, items, rest, h, -⟩
      simp at h
  | append_singleton inputs input ih =>
    have hafter : after localNodeIp (inputs ++ [input]) = (after localNodeIp inputs).apply localNodeIp input := by
      unfold after
      rw [List.foldl_append, List.foldl_cons, List.foldl_nil]
    rw [hafter, listed_apply, ih]
    constructor
    · rintro (h | ⟨items, rfl, haccepted⟩)
      · exact h.append [input]
      · exact ⟨inputs, items, [], rfl, haccepted⟩
    · rintro ⟨before, items, rest, h, haccepted⟩
      rcases List.eq_nil_or_concat rest with rfl | ⟨rest, last, rfl⟩
      · obtain ⟨rfl, hlast⟩ := List.append_inj' h rfl
        exact Or.inr ⟨items, (List.cons.inj hlast).1, haccepted⟩
      · rw [List.concat_eq_append, ← List.cons_append, ← List.append_assoc] at h
        exact Or.inl ⟨before, items, rest, (List.append_inj' h rfl).1, haccepted⟩

/-- A state is fully listed once a LIST of each resource was accepted. -/
theorem fullyListed_after_iff (localNodeIp : IpAddr) (inputs : List WatchInput) :
    (after localNodeIp inputs).fullyListed = true ↔
      ∀ resource, Accepted localNodeIp inputs resource := by
  unfold WatchState.fullyListed
  simp only [Bool.and_eq_true]
  constructor
  · rintro ⟨⟨hnodes, hservices⟩, hslices⟩ resource
    rw [← listed_iff]
    cases resource with
    | services => exact hservices
    | endpointSlices => exact hslices
    | nodes => exact hnodes
  · intro h
    exact ⟨⟨(listed_iff _ _ .nodes).mpr (h .nodes), (listed_iff _ _ .services).mpr (h .services)⟩,
      (listed_iff _ _ .endpointSlices).mpr (h .endpointSlices)⟩

end WatchState

/-! ## Ticks of a fresh process -/

section
variable [Host]

/-- Some iteration order of the maps of a state. -/
structure Reordering where
  of : WatchState → WatchState
  same : ∀ s, (of s).SameContent s

/-- A fresh controller: its state, and the maps it found. -/
structure Restarted where
  state : WatchState := {}
  maps : PinnedMaps

/-- An input and the tick after it. -/
structure InputTick where
  input : WatchInput
  order : Reordering
  reads : TickReads

namespace Restarted

variable (node : NodeContext) (w : Restarted) (t : InputTick)

/-- The state the tick runs on. -/
def fed : WatchState := w.state.apply node.nodeIp t.input

/-- The entries the tick asks for. -/
def wants : DesiredEntries := (t.order.of (w.fed node t)).desired node

/-- The step: the input, then the tick. -/
def step (w : Restarted) (t : InputTick) : Restarted where
  state := w.fed node t
  maps := (w.maps.apply (w.wants node t) t.reads).1

/-- What the tick issues. -/
def ops : TickOps := (w.maps.apply (w.wants node t) t.reads).2

theorem wants_frontsKnown : (w.wants node t).frontsKnown = (w.fed node t).fullyListed := by
  unfold wants
  rw [WatchState.desired_frontsKnown, (t.order.same _).fullyListed]

theorem wants_podTargetsKnown : (w.wants node t).podTargetsKnown =
    ((w.fed node t).fullyListed && ((w.fed node t).ownNodeAddrs node.nodeIp).isSome) := by
  unfold wants
  rw [WatchState.desired_podTargetsKnown, (t.order.same _).fullyListed, (t.order.same _).ownNodeAddrs]

/-- The latch for `NODE_ALLOW` is open only on a listed state. -/
def Latched : Prop := w.maps.frontsEverKnown = true → w.state.fullyListed = true

variable {node w t}

omit [Host] in
/-- What was listed stays listed. -/
theorem fullyListed_fed (h : w.state.fullyListed = true) : (w.fed node t).fullyListed = true :=
  WatchState.fullyListed_apply _ _ h

theorem Latched.step (h : w.Latched) : (w.step node t).Latched := by
  intro hever
  show (w.fed node t).fullyListed = true
  have hlatch : (w.step node t).maps.frontsEverKnown =
      nodeAllowMayDelete (w.wants node t).frontsKnown w.maps.frontsEverKnown := rfl
  rw [hlatch, nodeAllowMayDelete, Bool.or_eq_true, wants_frontsKnown] at hever
  rcases hever with hlisted | hbefore
  · exact hlisted
  · exact fullyListed_fed (h hbefore)

/-- The latch opens with the last of the LISTs. -/
theorem latched_run (h : w.Latched) (ticks : List InputTick) : (ticks.foldl (Restarted.step node) w).Latched := by
  induction ticks generalizing w with
  | nil => exact h
  | cons t ticks ih => exact ih h.step

theorem state_run (ticks : List InputTick) : (ticks.foldl (Restarted.step node) w).state =
    (ticks.map (·.input)).foldl (WatchState.apply node.nodeIp) w.state := by
  induction ticks generalizing w with
  | nil => rfl
  | cons t ticks ih =>
    rw [List.foldl_cons, ih]
    rfl

end Restarted

/-- **A restart keeps what is live.** Until a LIST of each resource has been accepted, a tick touches no front, no pod of
    the node and no flow, and deletes no `NODE_ALLOW` row; and no tick touches a pod of the node while the Node of this
    process is not resolved. -/
theorem Restarted.restart_keeps_live (node : NodeContext) (capacity : FrontCapacity) (ticks : List InputTick)
    (t : InputTick) :
    let w := ticks.foldl (Restarted.step node) { maps := { capacity } }
    let ops := w.ops node t
    ((¬ ∀ resource, WatchState.Accepted node.nodeIp (ticks.map (·.input) ++ [t.input]) resource) →
      ops.fronts = [] ∧ ops.podTargetsRemoved = ∅ ∧ ops.podTargetsPut = ∅ ∧ ops.nodeAllowRemoved = ∅ ∧
        ops.evicted = ∅) ∧
    ((w.fed node t).ownNodeAddrs node.nodeIp = none → ops.podTargetsRemoved = ∅ ∧ ops.podTargetsPut = ∅) := by
  intro w ops
  have hstate : w.fed node t = WatchState.after node.nodeIp (ticks.map (·.input) ++ [t.input]) := by
    unfold Restarted.fed WatchState.after
    rw [Restarted.state_run, List.foldl_append]
    rfl
  have hlatched : w.Latched := Restarted.latched_run (fun h => absurd h Bool.false_ne_true) ticks
  refine ⟨fun hmissing => ?_, fun hown => ?_⟩
  · have hunlisted : (w.fed node t).fullyListed = false := by
      rw [hstate, Bool.eq_false_iff, Ne, WatchState.fullyListed_after_iff]
      exact hmissing
    have hfronts : (w.wants node t).frontsKnown = false := by rw [Restarted.wants_frontsKnown, hunlisted]
    have hpods : (w.wants node t).podTargetsKnown = false := by
      rw [Restarted.wants_podTargetsKnown, hunlisted, Bool.false_and]
    -- the latch was closed before, since the state before the tick was listed no further
    have hnever : w.maps.frontsEverKnown = false := by
      rw [Bool.eq_false_iff]
      intro hever
      rw [Restarted.fullyListed_fed (hlatched hever)] at hunlisted
      cases hunlisted
    obtain ⟨hnone, hallow, hevicted, -⟩ := PinnedMaps.apply_unlisted (r := t.reads) hfronts hpods hnever
    obtain ⟨hremoved, hput⟩ := PinnedMaps.podTargets_untouched (p := w.maps) (r := t.reads) hpods
    exact ⟨hnone, hremoved, hput, hallow, hevicted⟩
  · have hpods : (w.wants node t).podTargetsKnown = false := by
      rw [Restarted.wants_podTargetsKnown, hown]
      exact Bool.and_false _
    exact PinnedMaps.podTargets_untouched hpods

end

end Beep
