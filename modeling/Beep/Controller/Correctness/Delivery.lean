import Beep.Controller.Facts
import Beep.Controller.Requests

/-!
# `Controller.Correctness.Delivery` — what one node selects another one takes

Every node derives its slots, the pods it takes, the peers it admits and what is local to it from the same objects by
itself. Where the addresses of two nodes and the pods of two nodes never share a key of the maps, the four fit together:
each slot leads to the one node that takes the pod (`ClusterView.selection_delivered`). An IPv4 address and the IPv6 address
it is mapped to share their key (`not_selection_delivered`).
-/

namespace Beep

/-! ## Slots and what they come from -/

theorem NodeAddrs.contains_iff {addrs : NodeAddrs} {ip : IpAddr} :
    addrs.contains ip = true ↔ ip ∈ addrs.underlay ++ addrs.fronts := by
  simp [NodeAddrs.contains]

theorem pickUnderlayIp_mem {ips : List IpAddr} {nodeIp : IpAddr} {pick : UnderlayPick}
    (h : pickUnderlayIp ips nodeIp = some pick) : pick.ip ∈ ips := by
  unfold pickUnderlayIp at h
  split at h
  · rename_i ip hfound
    obtain rfl := Option.some_inj.mp h
    exact List.mem_of_find?_eq_some hfound
  · obtain ⟨ip, hhead, rfl⟩ := Option.map_eq_some_iff.mp h
    exact List.mem_of_head? hhead

/-- Some address is picked where there is one. -/
theorem pickUnderlayIp_isSome {ips : List IpAddr} {ip : IpAddr} (h : ip ∈ ips) (nodeIp : IpAddr) :
    (pickUnderlayIp ips nodeIp).isSome = true := by
  unfold pickUnderlayIp
  split
  · rfl
  · rw [Option.isSome_map]
    cases ips with
    | nil => cases h
    | cons ip ips => rfl

namespace WatchState

/-- The endpoints of the tracked Services. -/
def listedEndpoints (s : WatchState) : List RawEndpoint := s.sliceList.flatMap (·.endpoints)

variable [Host] {s : WatchState} {node : NodeContext}

theorem HasFact.listed {x : Bytes 16} {f : Fact} (h : s.HasFact x f) :
    ∃ e ∈ s.listedEndpoints, e.podIp = f.podIp ∧ e.nodeName = f.nodeName := by
  obtain ⟨-, slice, e, hslice, he, hpod, hnode, -⟩ := h
  exact ⟨e, List.mem_flatMap.mpr ⟨slice, mem_sliceList.mpr ⟨_, _, hslice⟩, he⟩, hpod, hnode⟩

/-- A slot leads to an underlay address of the Node of an endpoint, and to its pod. -/
structure LeadsTo (s : WatchState) (node : NodeContext) (slot : FrontEndpoint) (f : Fact) (n : String)
    (addrs : NodeAddrs) (ip : IpAddr) : Prop where
  fact : s.HasFact slot.backend.podIp f
  nodeName : f.nodeName = some n
  resolved : s.nodeIps.lookup n = some addrs
  underlay : ip ∈ addrs.underlay
  backendNodeIp : slot.backend.backendNodeIp = tunnelRemoteV6 ip
  flags : slot.flags = if addrs.contains node.nodeIp then endpointFlagIsLocal else 0

theorem leadsTo_of_slot {key : LbFrontKey} {front : DesiredFront} {slot : FrontEndpoint}
    (hlisted : s.fullyListed = true) (hfront : (s.desired node).fronts.lookup key = some front)
    (hslot : slot ∈ front.endpoints) : ∃ f n addrs ip, s.LeadsTo node slot f n addrs ip := by
  rw [lookup_fronts_owners hlisted] at hfront
  obtain ⟨r, hr, hfront⟩ := Option.bind_eq_some_iff.mp hfront
  obtain ⟨t, -, rfl⟩ := Option.map_eq_some_iff.mp hfront
  obtain ⟨service, hservice, hslices, -⟩ := mem_requests.mp (mem_owners.mp (List.mem_of_getLast? hr)).1
  -- the slot is that of an endpoint of the request
  obtain ⟨e, he, rfl⟩ := List.mem_map.mp hslot
  have hcandidate := (mem_chosenEndpoints ((eligibleEndpoints_perm _ _ _).mem_iff.mp he)).1
  obtain ⟨name, slice, raw, hslice, hraw, hresolves⟩ := mem_endpointSlices.mp (List.mem_filter.mp hcandidate).1
  obtain ⟨n, addrs, pick, hn, haddrs, hpick, rfl⟩ := resolveEndpoint_eq_some.mp hresolves
  rw [hslices] at hslice
  refine ⟨⟨service, name, raw.podIp, raw.nodeName, raw.podUid⟩, n, addrs, pick.ip, ?_, hn, haddrs,
    pickUnderlayIp_mem hpick, rfl, ?_⟩
  · exact ⟨rfl, slice, raw, ⟨Option.isSome_iff_exists.mpr ⟨_, hservice⟩, hslice⟩, hraw, rfl, rfl, rfl⟩
  · have hlocal : addrs.contains node.nodeIp = (addrs.underlay ++ addrs.fronts).contains node.nodeIp := by
      rw [Bool.eq_iff_iff, NodeAddrs.contains_iff, List.contains_iff_mem]
    rw [hlocal]
    rfl

end WatchState

/-! ## Clusters -/

/-- A cluster all of whose nodes hold the same objects, each with its maps in an order of its own. -/
structure ClusterView where
  objects : WatchState
  view : String → WatchState
  same : ∀ n, (view n).SameContent objects
  listed : objects.fullyListed = true
  podCidr : PodCidrs
  nodeIp : String → IpAddr
  own : ∀ n addrs, objects.nodeIps.lookup n = some addrs → addrs.contains (nodeIp n) = true
  admitted : ∀ e ∈ objects.listedEndpoints, ∀ n addrs, e.nodeName = some n → objects.nodeIps.lookup n = some addrs →
    podCidr.contains e.podIp = true ∨ addrs.contains e.podIp = true

namespace ClusterView

/-- The name is one of a node. -/
def IsNode (c : ClusterView) (n : String) : Prop := ∃ addrs, c.objects.nodeIps.lookup n = some addrs

/-- No two nodes have an address with the same key. -/
def NodesApart {α : Type} (c : ClusterView) (key : IpAddr → α) : Prop :=
  ∀ n n' addrs addrs' ip ip', c.objects.nodeIps.lookup n = some addrs → c.objects.nodeIps.lookup n' = some addrs' →
    addrs.contains ip = true → addrs'.contains ip' = true → key ip = key ip' → n = n'

/-- Endpoints whose pods have the same key name the same node. -/
def PodsApart {α : Type} (c : ClusterView) (key : IpAddr → α) : Prop :=
  ∀ e ∈ c.objects.listedEndpoints, ∀ e' ∈ c.objects.listedEndpoints, key e.podIp = key e'.podIp →
    e.nodeName = e'.nodeName

section
variable [Host]

/-- What a node asks of its maps. -/
def desired (c : ClusterView) (n : String) : DesiredEntries := (c.view n).desired ⟨c.nodeIp n, c.podCidr⟩

/-- The peer address is one of the node's underlay addresses. -/
def IsUnderlay (c : ClusterView) (n : String) (x : Bytes 16) : Prop :=
  ∃ addrs ip, c.objects.nodeIps.lookup n = some addrs ∧ ip ∈ addrs.underlay ∧ tunnelRemoteV6 ip = x

/-- A slot of node `a` is delivered: its peer address is that of one node, which every node admits; that node and no
    other takes the pod; and the slot is flagged local if that node is `a`. -/
def Delivers (c : ClusterView) (a : String) (slot : FrontEndpoint) : Prop :=
  ∃ b, c.IsNode b ∧ (∀ n, c.IsUnderlay n slot.backend.backendNodeIp ↔ n = b) ∧
    (∀ n, slot.backend.backendNodeIp ∈ (c.desired n).nodeAllow) ∧
    (∀ n, c.IsNode n → (slot.backend.podIp ∈ (c.desired n).podTargets ↔ n = b)) ∧
    (slot.flags &&& endpointFlagIsLocal ≠ 0 ↔ a = b)

/-- Every slot any node asks for is delivered. -/
def DeliversAll (c : ClusterView) : Prop :=
  ∀ a, c.IsNode a → ∀ key front, (c.desired a).fronts.lookup key = some front → ∀ slot ∈ front.endpoints,
    c.Delivers a slot

variable {c : ClusterView} {n b : String} {addrs : NodeAddrs}

/-- A node's own address is found at that node only. -/
theorem own_iff (hnodes : c.NodesApart tunnelRemoteV6) (hn : c.IsNode n)
    (hb : c.objects.nodeIps.lookup b = some addrs) : addrs.contains (c.nodeIp n) = true ↔ n = b := by
  obtain ⟨addrs', hn⟩ := hn
  constructor
  · intro hcontains
    exact hnodes n b addrs' addrs _ _ hn hb (c.own n addrs' hn) hcontains rfl
  · rintro rfl
    exact c.own n addrs hb

/-- The pod of an endpoint is taken by the node of the endpoint, and no other. -/
theorem podTargets_iff (hnodes : c.NodesApart tunnelRemoteV6) (hpods : c.PodsApart wireIpV6) {x : Bytes 16} {f : Fact}
    {ip : IpAddr} (hf : c.objects.HasFact x f) (hfb : f.nodeName = some b)
    (hb : c.objects.nodeIps.lookup b = some addrs) (hip : ip ∈ addrs.underlay) (hn : c.IsNode n) :
    x ∈ (c.desired n).podTargets ↔ n = b := by
  obtain ⟨e, he, hpod, hname⟩ := hf.listed
  unfold desired
  rw [WatchState.isPodTarget_iff]
  constructor
  · rintro ⟨f', hf', b', addrs', hfb', hb', -, hlocal, -⟩
    rw [(c.same n).hasFact] at hf'
    obtain ⟨e', he', hpod', hname'⟩ := hf'.listed
    have hkey : wireIpV6 e.podIp = wireIpV6 e'.podIp := by rw [hpod, hpod', hf.1, hf'.1]
    have hnames := hpods e he e' he' hkey
    rw [hname, hname', hfb, hfb'] at hnames
    obtain rfl := Option.some_inj.mp hnames
    rw [(c.same n).nodeIps] at hb'
    rw [List.contains_iff_mem, ← NodeAddrs.contains_iff] at hlocal
    exact (own_iff hnodes hn hb').mp hlocal
  · rintro rfl
    refine ⟨f, (c.same n).hasFact.mpr hf, n, addrs, hfb, ?_, pickUnderlayIp_isSome hip _, ?_, ?_⟩
    · rw [(c.same n).nodeIps]
      exact hb
    · rw [List.contains_iff_mem, ← NodeAddrs.contains_iff]
      exact c.own n addrs hb
    · rw [Bool.or_eq_true, List.contains_iff_mem, ← NodeAddrs.contains_iff, ← hpod]
      exact c.admitted e he n addrs (hname.trans hfb) hb

end

/-- **What one node selects another one takes**, where neither the addresses of two nodes nor the pods of two nodes
    share a key. -/
theorem selection_delivered [Host] (c : ClusterView) (hnodes : c.NodesApart tunnelRemoteV6)
    (hpods : c.PodsApart wireIpV6) : c.DeliversAll := by
  intro a ha key front hfront slot hslot
  have hlisted : (c.view a).fullyListed = true := by rw [(c.same a).fullyListed, c.listed]
  obtain ⟨f, b, addrs, ip, hleads⟩ := WatchState.leadsTo_of_slot hlisted hfront hslot
  have hb : c.objects.nodeIps.lookup b = some addrs := by
    rw [← (c.same a).nodeIps]
    exact hleads.resolved
  have hip : addrs.contains ip = true := NodeAddrs.contains_iff.mpr (List.mem_append_left _ hleads.underlay)
  refine ⟨b, ⟨addrs, hb⟩, fun n => ⟨?_, ?_⟩, fun n => ?_, fun n hn => ?_, ?_⟩
  · rintro ⟨addrs', ip', hn, hip', hkey⟩
    exact hnodes n b addrs' addrs ip' ip hn hb (NodeAddrs.contains_iff.mpr (List.mem_append_left _ hip')) hip
      (hkey.trans hleads.backendNodeIp)
  · rintro rfl
    exact ⟨addrs, ip, hb, hleads.underlay, hleads.backendNodeIp.symm⟩
  · unfold desired
    rw [WatchState.desired_nodeAllow, WatchState.mem_nodeAllow]
    refine ⟨b, addrs, ip, ?_, hleads.underlay, hleads.backendNodeIp.symm⟩
    rw [(c.same n).nodeIps]
    exact hb
  · exact podTargets_iff hnodes hpods ((c.same a).hasFact.mp hleads.fact) hleads.nodeName hb hleads.underlay hn
  · rw [← own_iff hnodes ha hb, hleads.flags]
    show _ ↔ addrs.contains (c.nodeIp a) = true
    cases addrs.contains (c.nodeIp a) with
    | true => simpa using by decide
    | false => simp

end ClusterView

/-! ## Two nodes -/

section
local instance deliveryHost : Host := ⟨.little⟩

/-- A Service, its endpoints and two Nodes. -/
def twoNodeLists (endpoints : List Json.Value) : List WatchInput :=
  [.services [serviceObject "web" [portObject 80]],
    .endpointSlices [sliceObject "web" "web-1" [portObject 8080] endpoints],
    .nodes [nodeObject "n1" "10.0.0.1", nodeObject "n2" "10.0.0.2"]]

/-- What the nodes hold of them. -/
def twoNodeObjects (endpoints : List Json.Value) : WatchState :=
  (twoNodeLists endpoints).foldl (WatchState.apply (.v4 0x0a000001)) {}

/-- The address each of them was started with. -/
def twoNodeIp (n : String) : IpAddr := if n = "n2" then .v4 0x0a000002 else .v4 0x0a000001

/-- Their pod ranges. -/
def twoNodeCidr : PodCidrs := ⟨some ⟨0x0a010000, 16⟩, some ⟨Vector.replicate 16 0, 0⟩⟩

/-- What a cluster asks of what the two nodes hold, read off the entries. -/
def twoNodeChecks (s : WatchState) : Bool :=
  s.fullyListed && (s.nodeIps.entries.all fun p => p.2.contains (twoNodeIp p.1)) &&
    s.listedEndpoints.all fun e => twoNodeCidr.contains e.podIp

/-- The cluster of the two nodes. -/
def twoNodes (s : WatchState) (h : twoNodeChecks s = true) : ClusterView where
  objects := s
  view := fun _ => s
  same := fun _ => .refl s
  listed := (Bool.and_eq_true_iff.mp (Bool.and_eq_true_iff.mp h).1).1
  podCidr := twoNodeCidr
  nodeIp := twoNodeIp
  own := fun n addrs hn => List.all_eq_true.mp (Bool.and_eq_true_iff.mp (Bool.and_eq_true_iff.mp h).1).2 ⟨n, addrs⟩
    (AList.mem_lookup_iff.mp hn)
  admitted := fun e he _ _ _ _ => Or.inl (List.all_eq_true.mp (Bool.and_eq_true_iff.mp h).2 e he)

/-- No two Nodes have an address with the same key, read off the entries. -/
def nodesApartCheck {α : Type} [DecidableEq α] (s : WatchState) (key : IpAddr → α) : Bool :=
  s.nodeIps.entries.all fun p => s.nodeIps.entries.all fun q => (p.2.underlay ++ p.2.fronts).all fun ip =>
    (q.2.underlay ++ q.2.fronts).all fun ip' => key ip != key ip' || p.1 == q.1

theorem nodesApart_of_check {α : Type} [DecidableEq α] {c : ClusterView} {key : IpAddr → α}
    (h : nodesApartCheck c.objects key = true) : c.NodesApart key := by
  intro n n' addrs addrs' ip ip' hn hn' hip hip' hkey
  have hpair := List.all_eq_true.mp (List.all_eq_true.mp h ⟨n, addrs⟩ (AList.mem_lookup_iff.mp hn)) ⟨n', addrs'⟩
    (AList.mem_lookup_iff.mp hn')
  have hips := List.all_eq_true.mp (List.all_eq_true.mp hpair ip (NodeAddrs.contains_iff.mp hip)) ip'
    (NodeAddrs.contains_iff.mp hip')
  simpa [hkey] using hips

/-- Endpoints whose pods have the same key name the same node, read off the list. -/
def podsApartCheck {α : Type} [DecidableEq α] (s : WatchState) (key : IpAddr → α) : Bool :=
  s.listedEndpoints.all fun e => s.listedEndpoints.all fun e' =>
    key e.podIp != key e'.podIp || e.nodeName == e'.nodeName

theorem podsApart_of_check {α : Type} [DecidableEq α] {c : ClusterView} {key : IpAddr → α}
    (h : podsApartCheck c.objects key = true) : c.PodsApart key := by
  intro e he e' he' hkey
  have hpair := List.all_eq_true.mp (List.all_eq_true.mp h e he) e' he'
  simpa [hkey] using hpair

/-- A pod on the first node. -/
def plainObjects : WatchState := twoNodeObjects [endpointObject "10.1.0.9" "n1" "a"]

theorem plainObjects_checks : twoNodeChecks plainObjects = true := by decide

/-- The node and pod keys are apart, and the first node asks for a slot on each node's address. -/
theorem plainObjects_apart : nodesApartCheck plainObjects tunnelRemoteV6 = true ∧
    podsApartCheck plainObjects wireIpV6 = true ∧
    ((plainObjects.desired ⟨twoNodeIp "n1", twoNodeCidr⟩).fronts.entries.flatMap fun e => e.2.endpoints).length = 2 := by
  decide +kernel

/-- The theorem at the two nodes. -/
theorem selection_delivered_two_nodes :
    (((twoNodes plainObjects plainObjects_checks).desired "n1").fronts.entries.flatMap fun e =>
      e.2.endpoints).length = 2 ∧ (twoNodes plainObjects plainObjects_checks).DeliversAll :=
  ⟨plainObjects_apart.2.2, ClusterView.selection_delivered _ (nodesApart_of_check plainObjects_apart.1)
    (podsApart_of_check plainObjects_apart.2.1)⟩

/-- A pod on the first node, and on the second one a pod with the IPv6 address that of the first is mapped to. -/
def mappedObjects : WatchState :=
  twoNodeObjects [endpointObject "10.1.0.9" "n1" "a", endpointObject "::ffff:10.1.0.9" "n2" "b"]

theorem mappedObjects_checks : twoNodeChecks mappedObjects = true := by decide

theorem mappedObjects_nodesApart : nodesApartCheck mappedObjects id = true := by decide

theorem mappedObjects_podsApart : podsApartCheck mappedObjects id = true := by decide

/-- The key of both pods. -/
def mappedPodKey : Bytes 16 := wireIpV6 (.v4 0x0a010009)

/-- The first node has a slot on the key, and takes it for a pod of its own. -/
theorem mappedObjects_first : ((mappedObjects.desired ⟨twoNodeIp "n1", twoNodeCidr⟩).fronts.lookup
      (frontKey (.v4 0x0a000001) 80 .tcp)).any (fun front => front.endpoints.any fun slot =>
        slot.backend.podIp == mappedPodKey) = true ∧
    mappedPodKey ∈ (mappedObjects.desired ⟨twoNodeIp "n1", twoNodeCidr⟩).podTargets := by
  decide +kernel

theorem mappedObjects_second :
    mappedPodKey ∈ (mappedObjects.desired ⟨twoNodeIp "n2", twoNodeCidr⟩).podTargets := by decide

theorem mappedObjects_isNode {n : String} (h : (mappedObjects.nodeIps.lookup n).isSome = true) :
    (twoNodes mappedObjects mappedObjects_checks).IsNode n := Option.isSome_iff_exists.mp h

theorem mappedObjects_not_delivered : ¬ (twoNodes mappedObjects mappedObjects_checks).DeliversAll := by
  intro hdelivers
  obtain ⟨front, hfront, hslots⟩ := (Option.any_eq_true _ _).mp mappedObjects_first.1
  obtain ⟨slot, hslot, hkey⟩ := List.any_eq_true.mp hslots
  have hfirst := mappedObjects_isNode (n := "n1") (by decide)
  have hsecond := mappedObjects_isNode (n := "n2") (by decide)
  obtain ⟨b, -, -, -, htakes, -⟩ := hdelivers "n1" hfirst _ front hfront slot hslot
  rw [beq_iff_eq.mp hkey] at htakes
  -- both nodes take the pod
  have hone := (htakes "n1" hfirst).mp mappedObjects_first.2
  have htwo := (htakes "n2" hsecond).mp mappedObjects_second
  exact absurd (hone.trans htwo.symm) (by decide)

end

/-- Addresses that differ can share a key: a pod is then taken by two nodes. -/
theorem not_selection_delivered : ¬ ∀ (host : Host) (c : ClusterView), c.NodesApart id → c.PodsApart id →
    @ClusterView.DeliversAll host c := fun hdelivers =>
  mappedObjects_not_delivered (hdelivers deliveryHost (twoNodes mappedObjects mappedObjects_checks)
    (nodesApart_of_check mappedObjects_nodesApart) (podsApart_of_check mappedObjects_podsApart))

end Beep
