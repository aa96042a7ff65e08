import Beep.Controller.Apply
import Beep.Controller.Correctness.OwnPorts
import Beep.Controller.History

/-!
# `Controller.Correctness.Installs` — what is installed is a backend

A front and a pod of the node need the addresses of a Node, a backend only its name. Every Node with addresses is known
by name (`nodesNamed_run`), so whatever is installed is a backend of the same state. A tick that sweeps a pod it installs
therefore does so for a new uid, or because the pod has a `POD_TARGETS` row and is none of this node's pods any more: a
pod that moved to another node is swept by the tick that writes it into the fronts.
-/

namespace Beep

open Json (Value)
open Objects (Tells says_added)

namespace WatchState

/-! ## Nodes with addresses have names -/

/-- Every Node with addresses is known by name. -/
def NodesNamed (s : WatchState) : Prop := ∀ name addrs, s.nodeIps.lookup name = some addrs → name ∈ s.nodeNames

theorem nodesNamed_empty : ({} : WatchState).NodesNamed := by
  intro name addrs h
  cases h

theorem NodesNamed.applyNodeEvent {s : WatchState} (h : s.NodesNamed) (event : Value) :
    (s.applyNodeEvent event).NodesNamed := by
  by_cases hsaid : ∃ kind id, Tells metadataName event kind id
  · obtain ⟨kind, id, hsaid⟩ := hsaid
    intro name addrs hlookup
    rw [lookup_applyNodeEvent s hsaid] at hlookup
    rw [mem_nodeNames_applyNodeEvent s hsaid]
    by_cases hname : name = id
    · rw [if_pos hname]
      cases kind with
      | upsert => rfl
      | delete => simp [hname] at hlookup
    · rw [if_neg fun h => hname h.1] at hlookup
      rw [if_neg hname]
      exact h name addrs hlookup
  · rw [applyNodeEvent_of_unsaid s fun kind id h => hsaid ⟨kind, id, h⟩]
    exact h

theorem NodesNamed.relistNode {fresh : WatchState} (h : fresh.NodesNamed) (held : Table String NodeAddrs) (item : Value) :
    (relistNode held fresh item).NodesNamed := by
  have hadded := h.applyNodeEvent (added item)
  unfold WatchState.relistNode
  dsimp only
  split
  · exact hadded
  · rename_i id hid
    split
    · -- the addresses held are kept for a Node that is listed
      intro name addrs hlookup
      show name ∈ (fresh.applyNodeEvent (added item)).nodeNames
      change AList.lookup name ((fresh.applyNodeEvent (added item)).nodeIps.insert id _) = some addrs at hlookup
      by_cases hname : name = id
      · rw [mem_nodeNames_applyNodeEvent fresh (says_added hid), if_pos hname]
      · rw [AList.lookup_insert_ne hname] at hlookup
        exact hadded name addrs hlookup
    · exact hadded

theorem NodesNamed.apply {s : WatchState} (h : s.NodesNamed) (localNodeIp : IpAddr) (input : WatchInput) :
    (s.apply localNodeIp input).NodesNamed := by
  cases input with
  | service event =>
    show NodesNamed (s.applyServiceEvent event).1
    rw [applyServiceEvent_frame]
    exact h
  | endpointSlice event =>
    show NodesNamed (s.applyEndpointSliceEvent event).1
    rw [applyEndpointSliceEvent_frame]
    exact h
  | node event => exact h.applyNodeEvent event
  | services items =>
    show NodesNamed (s.replaceServices items).1
    unfold replaceServices
    dsimp only
    split <;> exact h
  | endpointSlices items =>
    show NodesNamed (s.replaceEndpointSlices items).1
    unfold replaceEndpointSlices
    dsimp only
    split <;> exact h
  | nodes items =>
    show NodesNamed (s.replaceNodes items localNodeIp).1
    unfold replaceNodes
    dsimp only
    split
    · exact h
    · exact List.foldlRecOn items (WatchState.relistNode s.nodeIps) (motive := fun fresh => fresh.NodesNamed)
        nodesNamed_empty fun _ hfresh item _ => hfresh.relistNode s.nodeIps item

theorem nodesNamed_run (localNodeIp : IpAddr) (inputs : List WatchInput) :
    (inputs.foldl (WatchState.apply localNodeIp) {}).NodesNamed :=
  List.foldlRecOn inputs (WatchState.apply localNodeIp) (motive := fun s => s.NodesNamed)
    nodesNamed_empty fun _ h input _ => h.apply localNodeIp input

/-- An endpoint whose Node is resolved has not departed. -/
theorem NodesNamed.tracks {s : WatchState} (h : s.NodesNamed) {name : String} {addrs : NodeAddrs}
    (haddrs : s.nodeIps.lookup name = some addrs) : s.Tracks (some name) = true := by
  simp [Tracks, h name addrs haddrs]

/-! ## What is installed -/

variable [Host] {s : WatchState} {node : NodeContext} {x : Bytes 16}

/-- **A pod of the node** is a backend. -/
theorem NodesNamed.backend_of_podTarget (h : s.NodesNamed) (hx : x ∈ (s.desired node).podTargets) :
    (s.desired node).clusterBackends.lookup x ≠ none := by
  obtain ⟨f, hf, n, addrs, hn, haddrs, -⟩ := isPodTarget_iff.mp hx
  exact isBackend_iff.mpr ⟨f, hf, hn ▸ h.tracks haddrs⟩

/-- **An endpoint of a front** is a backend. -/
theorem NodesNamed.backend_of_front (h : s.NodesNamed) {key : LbFrontKey} {front : DesiredFront}
    (hfront : (s.desired node).fronts.lookup key = some front) {slot : FrontEndpoint} (hslot : slot ∈ front.endpoints) :
    (s.desired node).clusterBackends.lookup slot.backend.podIp ≠ none := by
  have hlisted : s.fullyListed = true := by
    by_contra hnot
    rw [lookup_fronts, if_neg hnot] at hfront
    cases hfront
  rw [lookup_fronts_owners hlisted] at hfront
  obtain ⟨r, hr, hmap⟩ := Option.bind_eq_some_iff.mp hfront
  obtain ⟨t, -, rfl⟩ := Option.map_eq_some_iff.mp hmap
  obtain ⟨e, he, rfl⟩ := mem_requested_endpoints.mp hslot
  -- the endpoint comes from a slice of the Service, with its Node resolved
  have hcandidate : e ∈ s.candidates node r t := (mem_chosenEndpoints he).1
  obtain ⟨svcKey, hsvc, hslices, -⟩ := mem_requests.mp (mem_owners.mp (List.mem_of_getLast? hr)).1
  obtain ⟨name, slice, raw, hname, hraw, hres⟩ := mem_endpointSlices.mp (List.mem_filter.mp hcandidate).1
  obtain ⟨n, addrs, pick, hn, haddrs, -, rfl⟩ := resolveEndpoint_eq_some.mp hres
  refine isBackend_iff.mpr ⟨⟨svcKey, name, raw.podIp, raw.nodeName, raw.podUid⟩, ⟨rfl, slice, raw, ⟨?_, ?_⟩, hraw, rfl,
    rfl, rfl⟩, hn ▸ h.tracks haddrs⟩
  · rw [hsvc]
    rfl
  · rw [← hslices]
    exact hname

/-- What the desired entries mention is a backend. -/
theorem NodesNamed.backend_of_mentions (h : s.NodesNamed) (hx : (s.desired node).Mentions x) :
    (s.desired node).clusterBackends.lookup x ≠ none := by
  rcases hx with hx | hx | ⟨key, front, hfront, hnames⟩
  · exact hx
  · exact h.backend_of_podTarget hx
  · obtain ⟨slot, hslot, hpod⟩ := List.any_eq_true.mp hnames
    rw [← Finset.mem_singleton.mp (of_decide_eq_true hpod)]
    exact h.backend_of_front hfront hslot

/-- **Nothing installed looks departed.** Whatever the fronts and the node's pods name is a backend, and every Node with
    addresses is known by name. A tick that sweeps a pod it installs does so for a new uid, or for a `POD_TARGETS` row of
    a pod that is none of this node's any more. -/
theorem installed_not_departed (localNodeIp : IpAddr) (inputs : List WatchInput) (node : NodeContext) :
    let s := inputs.foldl (WatchState.apply localNodeIp) {}
    (∀ key front, (s.desired node).fronts.lookup key = some front → ∀ slot ∈ front.endpoints,
      (s.desired node).clusterBackends.lookup slot.backend.podIp ≠ none) ∧
    (∀ x ∈ (s.desired node).podTargets, (s.desired node).clusterBackends.lookup x ≠ none) ∧
    (∀ name addrs, s.nodeIps.lookup name = some addrs → name ∈ s.nodeNames) ∧
    ∀ (t : TickInput) (m : TickMemory) (x : Bytes 16), t.desired = s.desired node → (t.plan m).Names x → x ∈ t.sweep m →
      (∃ a b, m.known.lookup x = some (some a) ∧ t.desired.clusterBackends.lookup x = some (some b) ∧ a ≠ b) ∨
        (x ∈ t.rows ∧ x ∉ t.desired.podTargets) := by
  intro s
  have hnamed : s.NodesNamed := nodesNamed_run localNodeIp inputs
  refine ⟨fun key front hfront slot hslot => hnamed.backend_of_front hfront hslot,
    fun x hx => hnamed.backend_of_podTarget hx, hnamed, fun t m x ht hnames hsweep => ?_⟩
  have hbackend : t.desired.clusterBackends.lookup x ≠ none := by
    rw [ht]
    exact hnamed.backend_of_mentions (ht ▸ (TickInput.plan_names hnames).1)
  rcases TickInput.mem_sweep.mp hsweep with horphan | ⟨-, hstale | ⟨-, hgone⟩ | hreused⟩
  · exact absurd (TickInput.orphans_absent horphan) hbackend
  · exact Or.inr hstale
  · exact absurd hgone hbackend
  · exact Or.inl hreused

end WatchState

/-! ## A pod that moved -/

/-- `10.0.0.1`, one of the two nodes. -/
def movedFrom : NodeContext := ⟨.v4 0x0a000001, ⟨some ⟨0x0a010000, 16⟩, none⟩⟩

/-- The three LISTs of a cluster with two nodes and a pod at `10.1.0.5` on the first. -/
def beforeMove : List WatchInput :=
  [.services [serviceObject "web" [portObject 80]],
    .endpointSlices [sliceObject "web" "web-1" [portObject 8080] [endpointObject "10.1.0.5" "n1" "a"]],
    .nodes [nodeObject "n1" "10.0.0.1", nodeObject "n2" "10.0.0.2"]]

/-- The event that lists the pod on the second. -/
def move : WatchInput :=
  .endpointSlice (added (sliceObject "web" "web-1" [portObject 8080] [endpointObject "10.1.0.5" "n2" "a"]))

/-- The state after some inputs. -/
def movingState (inputs : List WatchInput) : WatchState := inputs.foldl (WatchState.apply movedFrom.nodeIp) {}

section
local instance movedHost : Host := littleHost

/-- A tick on the state after some inputs whose sweep succeeds. -/
def movingTick (inputs : List WatchInput) (installed : List (Bytes 16)) : TickInput where
  desired := (movingState inputs).desired movedFrom
  installed := installed
  pinned := some ∅
  evict _ := true

/-- The tick after the move sweeps the pod, which has kept its uid, and writes it into the fronts. -/
theorem moved_pod_swept_and_installed :
    let pod := wireIpV6 (.v4 0x0a010005)
    let m := ({} : TickMemory).step (movingTick beforeMove [])
    let t := movingTick (beforeMove ++ [move]) [pod]
    ((movingTick beforeMove []).plan {}).podTargets = {pod} ∧
      (t.plan m).Names pod ∧ pod ∈ t.sweep m ∧
      m.known.lookup pod = some (some "a") ∧ t.desired.clusterBackends.lookup pod = some (some "a") := by
  have hnamed : ((((movingTick (beforeMove ++ [move]) [wireIpV6 (.v4 0x0a010005)]).plan
      (({} : TickMemory).step (movingTick beforeMove []))).fronts.entries.any fun e =>
        e.2.names {wireIpV6 (.v4 0x0a010005)})) = true := by decide +kernel
  obtain ⟨⟨key, front⟩, hmem, hnames⟩ := List.any_eq_true.mp hnamed
  have hrest : ((movingTick beforeMove []).plan {}).podTargets = {wireIpV6 (.v4 0x0a010005)} ∧
      wireIpV6 (.v4 0x0a010005) ∈ (movingTick (beforeMove ++ [move]) [wireIpV6 (.v4 0x0a010005)]).sweep
        (({} : TickMemory).step (movingTick beforeMove [])) ∧
      (({} : TickMemory).step (movingTick beforeMove [])).known.lookup (wireIpV6 (.v4 0x0a010005)) = some (some "a") ∧
      (movingTick (beforeMove ++ [move]) [wireIpV6 (.v4 0x0a010005)]).desired.clusterBackends.lookup
        (wireIpV6 (.v4 0x0a010005)) = some (some "a") := by decide +kernel
  exact ⟨hrest.1, Or.inr ⟨key, front, AList.mem_lookup_iff.mpr hmem, hnames⟩, hrest.2⟩

end

end Beep
