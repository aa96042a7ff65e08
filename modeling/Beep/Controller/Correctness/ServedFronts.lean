import Beep.Controller.Publish
import Beep.Controller.Correctness.Delivery
import Beep.Controller.Correctness.FrontOrder

/-!
# `Controller.Correctness.ServedFronts` — who publishes, and what for

Which nodes list their address on an `externalTrafficPolicy: Local` Service is decided over all its endpoints, the
fronts are built port by port over the endpoints whose Node is resolved. Over the objects that all nodes share the two
fit: the nodes that publish are the ones with a usable pod, or all of them (`publishes_iff`), and what a node publishes
its front can serve (`served_of_published`), as long as addresses are told apart by their keys and a port means one
number over all the slices.
-/

namespace Beep

namespace WatchState

variable {s s' : WatchState} {key : ServiceKey}

/-- The endpoints of a Service, slice by slice. -/
def endpointsOfService (s : WatchState) (key : ServiceKey) : List RawEndpoint :=
  (s.slicesOf key).values.flatMap (·.endpoints)

/-- An endpoint of a Service is one of some slice of it. -/
theorem mem_endpointsOfService {e : RawEndpoint} :
    e ∈ s.endpointsOfService key ↔ ∃ name slice, (s.slicesOf key).lookup name = some slice ∧ e ∈ slice.endpoints := by
  simp only [endpointsOfService, List.mem_flatMap, Table.mem_values]
  constructor
  · rintro ⟨slice, ⟨name, hname⟩, he⟩
    exact ⟨name, slice, hname, he⟩
  · rintro ⟨name, slice, hname, he⟩
    exact ⟨slice, ⟨name, hname⟩, he⟩

/-- Whatever order the slices are held in. -/
theorem SameContent.mem_endpointsOfService (h : s.SameContent s') {e : RawEndpoint} :
    e ∈ s.endpointsOfService key ↔ e ∈ s'.endpointsOfService key := by
  rw [WatchState.mem_endpointsOfService, WatchState.mem_endpointsOfService]
  simp only [h.slices key _]

/-- Every Node is known by some address where peers reach it. -/
def Addressed (s : WatchState) : Prop := ∀ n addrs, s.nodeIps.lookup n = some addrs → addrs.underlay ≠ []

/-- Only the Nodes count. -/
theorem Addressed.congr (h : s.Addressed) (hnodes : s'.nodeIps = s.nodeIps) : s'.Addressed := by
  intro n addrs hn
  rw [hnodes] at hn
  exact h n addrs hn

/-- A Node that comes without an address to reach it by is not held. -/
theorem Addressed.applyNodeEvent (h : s.Addressed) (event : Json.Value) : (s.applyNodeEvent event).Addressed := by
  unfold WatchState.applyNodeEvent
  dsimp only
  split
  · intro n addrs hn
    replace hn := (Table.lookup_erase_ite s.nodeIps _ n).symm.trans hn
    split at hn
    · cases hn
    · exact h n addrs hn
  · rename_i name _ _
    intro n addrs hn
    dsimp only at hn
    split at hn
    · exact h n addrs hn
    · rename_i hsome
      rw [Table.lookup_insert_ite] at hn
      split at hn
      · rw [← Option.some_inj.mp hn]
        exact hsome
      · exact h n addrs hn
  · exact h

/-- A Node that keeps what was held for it keeps an address. -/
theorem Addressed.relistNode {held : Table String NodeAddrs}
    (hheld : ∀ n addrs, held.lookup n = some addrs → addrs.underlay ≠ []) (h : s.Addressed) (item : Json.Value) :
    (WatchState.relistNode held s item).Addressed := by
  have hevent := h.applyNodeEvent (added item)
  unfold WatchState.relistNode
  dsimp only
  split
  · exact hevent
  · rename_i name _
    split
    · rename_i prev hprev _
      intro n addrs hn
      replace hn := (Table.lookup_insert_ite _ name n prev).symm.trans hn
      split at hn
      · rw [← Option.some_inj.mp hn]
        exact hheld name prev hprev
      · exact hevent n addrs hn
    · exact hevent

/-- **Every state that is reached.** -/
theorem addressed_of_reached (localNodeIp : IpAddr) (inputs : List WatchInput) :
    (inputs.foldl (WatchState.apply localNodeIp) {}).Addressed := by
  -- on the inputs, the last one first
  induction inputs using List.reverseRecOn with
  | nil => exact fun n addrs hn => nomatch hn
  | append_singleton inputs input ih =>
    rw [List.foldl_append, List.foldl_cons, List.foldl_nil]
    generalize inputs.foldl (WatchState.apply localNodeIp) {} = s at ih ⊢
    cases input with
    | node event => exact ih.applyNodeEvent event
    | nodes items =>
      have hfresh : (items.foldl (WatchState.relistNode s.nodeIps) {}).Addressed := by
        induction items using List.reverseRecOn with
        | nil => exact fun n addrs hn => nomatch hn
        | append_singleton items item ihItems =>
          rw [List.foldl_append, List.foldl_cons, List.foldl_nil]
          exact ihItems.relistNode ih item
      unfold WatchState.apply replaceNodes
      dsimp only
      split
      · exact ih
      · exact hfresh
    | service event =>
      refine ih.congr ?_
      unfold WatchState.apply applyServiceEvent
      dsimp only
      split
      · rfl
      · split <;> rfl
      · rfl
    | services items =>
      refine ih.congr ?_
      unfold WatchState.apply replaceServices
      dsimp only
      split <;> rfl
    | endpointSlice event =>
      refine ih.congr ?_
      unfold WatchState.apply applyEndpointSliceEvent
      dsimp only
      split <;> rfl
    | endpointSlices items =>
      refine ih.congr ?_
      unfold WatchState.apply replaceEndpointSlices
      dsimp only
      split <;> rfl

/-- An endpoint as `ips_to_publish` looks at it. -/
def ingressEndpoint (s : WatchState) (localNodeIp : IpAddr) (e : RawEndpoint) : Endpoint where
  podIp := e.podIp
  nodeIp := localNodeIp
  nodeAddrs := ((e.nodeName.bind fun n => s.nodeIps.lookup n).map fun a => a.underlay ++ a.fronts).getD []
  ready := e.ready
  terminating := e.terminating
  serving := e.serving
  ports := []
  podUid := none

/-- Read off the slices, one endpoint after the other. -/
theorem ingressEndpoints_eq (localNodeIp : IpAddr) :
    s.ingressEndpoints key localNodeIp = (s.endpointsOfService key).map (s.ingressEndpoint localNodeIp) := rfl

/-- It is local where it names a Node with the address. -/
theorem isLocal_ingressEndpoint {localNodeIp : IpAddr} {e : RawEndpoint} :
    (s.ingressEndpoint localNodeIp e).isLocal localNodeIp = true ↔
      ∃ n addrs, e.nodeName = some n ∧ s.nodeIps.lookup n = some addrs ∧ addrs.contains localNodeIp = true := by
  unfold Endpoint.isLocal ingressEndpoint
  dsimp only
  cases hn : e.nodeName with
  | none => simp
  | some n =>
    cases ha : s.nodeIps.lookup n with
    | none => simp [ha]
    | some addrs => simp [ha, NodeAddrs.contains]

end WatchState

/-- The endpoint takes new flows, or drains and still serves. -/
def RawEndpoint.usable (e : RawEndpoint) : Bool := (e.ready && !e.terminating) || (e.serving && e.terminating)

/-- Where a local endpoint counts, it is a usable one. -/
theorem usable_ingressEndpoint {s : WatchState} {localNodeIp : IpAddr} {e : RawEndpoint}
    (h : (s.ingressEndpoint localNodeIp e).isLocal localNodeIp = true) :
    (s.ingressEndpoint localNodeIp e).Usable .onlyLocal localNodeIp ↔ e.usable = true := by
  unfold Endpoint.Usable Endpoint.takesNewFlows RawEndpoint.usable
  rw [Bool.or_eq_true, Bool.and_eq_true, Bool.and_eq_true, Bool.and_eq_true]
  simp only [h, true_and]
  rfl

/-- **`publishes_ingress`** over the endpoints of the slices: no endpoint of the family is usable, or a local one is. -/
theorem publishesIngress_iff {s : WatchState} {key : ServiceKey} {localNodeIp : IpAddr} {familyIsV4 : Bool} :
    publishesIngress .onlyLocal (s.ingressEndpoints key localNodeIp) localNodeIp familyIsV4 = true ↔
      (∀ e ∈ s.endpointsOfService key, e.podIp.isIpv4 = familyIsV4 → e.usable = false) ∨
        ∃ e ∈ s.endpointsOfService key, e.podIp.isIpv4 = familyIsV4 ∧ e.usable = true ∧
          ∃ n addrs, e.nodeName = some n ∧ s.nodeIps.lookup n = some addrs ∧ addrs.contains localNodeIp = true := by
  let family := (s.ingressEndpoints key localNodeIp).filter fun x => x.podIp.isIpv4 == familyIsV4
  have hfamily : ∀ x, x ∈ family ↔ ∃ e ∈ s.endpointsOfService key, e.podIp.isIpv4 = familyIsV4 ∧
      s.ingressEndpoint localNodeIp e = x := by
    intro x
    simp only [family, WatchState.ingressEndpoints_eq, List.mem_filter, List.mem_map, beq_iff_eq]
    constructor
    · rintro ⟨⟨e, he, rfl⟩, hv4⟩
      exact ⟨e, he, hv4, rfl⟩
    · rintro ⟨e, he, hv4, rfl⟩
      exact ⟨⟨e, he, rfl⟩, hv4⟩
  unfold publishesIngress
  rw [if_neg (by decide), Bool.or_eq_true]
  refine or_congr ?_ ?_
  · show (!family.any fun x => (x.ready && !x.terminating) || (x.serving && x.terminating)) = true ↔ _
    rw [Bool.not_eq_true', List.any_eq_false]
    constructor
    · intro h e he hv4
      exact Bool.eq_false_iff.mpr (h _ ((hfamily _).mpr ⟨e, he, hv4, rfl⟩))
    · intro h x hx
      obtain ⟨e, he, hv4, rfl⟩ := (hfamily x).mp hx
      exact Bool.eq_false_iff.mp (h e he hv4)
  · show (!(localUsableEndpoints family localNodeIp).isEmpty) = true ↔ _
    rw [Bool.not_eq_true', List.isEmpty_eq_false_iff, ne_eq, localUsableEndpoints_eq_nil]
    constructor
    · intro h
      by_contra hnone
      refine h fun x hx hlocal husable => hnone ?_
      obtain ⟨e, he, hv4, rfl⟩ := (hfamily x).mp hx
      exact ⟨e, he, hv4, (usable_ingressEndpoint hlocal).mp husable, WatchState.isLocal_ingressEndpoint.mp hlocal⟩
    · rintro ⟨e, he, hv4, husable, hnode⟩ h
      have hlocal := WatchState.isLocal_ingressEndpoint.mpr hnode
      exact h _ ((hfamily _).mpr ⟨e, he, hv4, rfl⟩) hlocal ((usable_ingressEndpoint hlocal).mpr husable)

/-! ## A cluster -/

/-- The objects that all nodes of a cluster hold, each with its maps in an order of its own. The address a node was
    started with is one of its Node's, no two Nodes have an address in common, and a Node is known by some address. -/
structure SharedCluster where
  objects : WatchState
  view : String → WatchState
  same : ∀ n, (view n).SameContent objects
  listed : objects.fullyListed = true
  nodeIp : String → IpAddr
  own : ∀ n addrs, objects.nodeIps.lookup n = some addrs → addrs.contains (nodeIp n) = true
  apart : ∀ n n' addrs addrs' ip, objects.nodeIps.lookup n = some addrs → objects.nodeIps.lookup n' = some addrs' →
    addrs.contains ip = true → addrs'.contains ip = true → n = n'
  addressed : ∀ n addrs, objects.nodeIps.lookup n = some addrs → addrs.underlay ≠ []

namespace SharedCluster

variable (c : SharedCluster) (key : ServiceKey)

/-- The name is one of a known Node. -/
def IsNode (n : String) : Prop := ∃ addrs, c.objects.nodeIps.lookup n = some addrs

/-- A usable endpoint of the Service in the family. -/
def Usable (familyIsV4 : Bool) (e : RawEndpoint) : Prop :=
  e ∈ c.objects.endpointsOfService key ∧ e.podIp.isIpv4 = familyIsV4 ∧ e.usable = true

/-- The node hosts one. -/
def Hosts (familyIsV4 : Bool) (n : String) : Prop := ∃ e, c.Usable key familyIsV4 e ∧ e.nodeName = some n

/-- The node lists its addresses of the family on the Service. -/
def Publishes (svc : RawService) (familyIsV4 : Bool) (n : String) : Prop :=
  publishesIngress svc.policy ((c.view n).ingressEndpoints key (c.nodeIp n)) (c.nodeIp n) familyIsV4 = true

variable {c key} {svc : RawService} {familyIsV4 : Bool} {n : String}

/-- Every node's view has the same endpoints. -/
theorem mem_endpoints_view {e : RawEndpoint} :
    e ∈ (c.view n).endpointsOfService key ↔ e ∈ c.objects.endpointsOfService key :=
  (c.same n).mem_endpointsOfService

/-- A node's own address is found at that node only. -/
theorem contains_nodeIp {m : String} {addrs : NodeAddrs} (hn : c.IsNode n)
    (hm : c.objects.nodeIps.lookup m = some addrs) : addrs.contains (c.nodeIp n) = true ↔ m = n := by
  obtain ⟨own, hown⟩ := hn
  constructor
  · intro hcontains
    exact c.apart m n addrs own _ hm hown hcontains (c.own n own hown)
  · rintro rfl
    exact c.own m addrs hm

/-- **Who publishes**: the nodes with a usable endpoint, or all of them where none is usable. -/
theorem publishes_iff (hpolicy : svc.policy = .onlyLocal) (hn : c.IsNode n) :
    c.Publishes key svc familyIsV4 n ↔ c.Hosts key familyIsV4 n ∨ ¬ ∃ e, c.Usable key familyIsV4 e := by
  unfold Publishes
  rw [hpolicy, publishesIngress_iff, or_comm]
  refine or_congr ?_ ?_
  · unfold Hosts Usable
    constructor
    · rintro ⟨e, he, hv4, husable, m, addrs, hm, haddrs, hcontains⟩
      rw [(c.same n).nodeIps] at haddrs
      obtain rfl := (contains_nodeIp hn haddrs).mp hcontains
      exact ⟨e, ⟨mem_endpoints_view.mp he, hv4, husable⟩, hm⟩
    · rintro ⟨e, ⟨he, hv4, husable⟩, hm⟩
      obtain ⟨addrs, haddrs⟩ := hn
      refine ⟨e, mem_endpoints_view.mpr he, hv4, husable, n, addrs, hm, ?_, c.own n addrs haddrs⟩
      rw [(c.same n).nodeIps]
      exact haddrs
  · constructor
    · rintro h ⟨e, he, hv4, husable⟩
      rw [h e (mem_endpoints_view.mpr he) hv4] at husable
      cases husable
    · intro h e he hv4
      refine Bool.eq_false_iff.mpr fun husable => h ⟨e, mem_endpoints_view.mp he, hv4, husable⟩

/-- Somebody publishes. -/
theorem exists_publishes (hpolicy : svc.policy = .onlyLocal)
    (hknown : ∀ e, c.Usable key familyIsV4 e → ∃ n, e.nodeName = some n ∧ c.IsNode n) (hnodes : ∃ n, c.IsNode n) :
    ∃ n, c.IsNode n ∧ c.Publishes key svc familyIsV4 n := by
  by_cases hany : ∃ e, c.Usable key familyIsV4 e
  · obtain ⟨e, he⟩ := hany
    obtain ⟨n, hname, hn⟩ := hknown e he
    exact ⟨n, hn, (publishes_iff hpolicy hn).mpr (Or.inl ⟨e, he, hname⟩)⟩
  · obtain ⟨n, hn⟩ := hnodes
    exact ⟨n, hn, (publishes_iff hpolicy hn).mpr (Or.inr hany)⟩

/-! ## What a node publishes -/

/-- The port of the Service: the entries of `spec.ports` with its number and protocol. -/
def EntryOf (svc : RawService) (port : RawServicePort) (p : RawServicePort) : Prop :=
  p ∈ svc.ports ∧ p.port = port.port ∧ p.protocol = port.protocol

/-- The port is resolved to one number over all the slices of its Service. -/
def ResolvesTo (svc : RawService) (port : RawServicePort) (slices : Table String RawEndpointSlice) (target : UInt16) :
    Prop := ∀ p, EntryOf svc port p → WatchState.resolveTargetPort p (WatchState.unionPorts slices) = some target

/-- Every slice of the Service resolves the port to the number by itself. -/
def EachResolvesTo (svc : RawService) (port : RawServicePort) (slices : Table String RawEndpointSlice)
    (target : UInt16) : Prop :=
  ∀ p, EntryOf svc port p → ∀ name slice, slices.lookup name = some slice →
    WatchState.resolveTargetPort p slice.ports = some target

/-- A slice and another one name their ports alike. -/
def NamedAlike (slices : Table String RawEndpointSlice) : Prop :=
  ∀ name slice name' slice', slices.lookup name = some slice → slices.lookup name' = some slice' →
    slice.ports.map (·.name) = slice'.ports.map (·.name)

/-- **A port means one number** over all the slices where it means it in every one of them, if it has a name or the
    slices name their ports alike. -/
theorem resolvesTo_of_each {svc : RawService} {port : RawServicePort} {slices : Table String RawEndpointSlice}
    {target : UInt16} (hsome : ∃ name slice, slices.lookup name = some slice)
    (heach : EachResolvesTo svc port slices target)
    (hnames : (∀ p, EntryOf svc port p → p.name ≠ none) ∨ NamedAlike slices) : ResolvesTo svc port slices target := by
  intro p hp
  replace heach := heach p hp
  cases hname : p.name with
  | some name =>
    simp only [WatchState.resolveTargetPort, hname] at heach
    -- some slice has a port of the name, and all that have one give it the number
    have hknown : PortKnown p slices := by
      unfold PortKnown
      obtain ⟨key, slice, hslice⟩ := hsome
      obtain ⟨sp, hsp, -⟩ := Option.map_eq_some_iff.mp (heach key slice hslice)
      rw [hname]
      refine ⟨sp, ⟨key, slice, hslice, List.mem_of_find?_eq_some hsp⟩, ?_⟩
      simpa using List.find?_some hsp
    obtain ⟨t, ht⟩ := Option.isSome_iff_exists.mp (WatchState.resolveTargetPort_isSome.mpr hknown)
    have hmay := WatchState.mayResolve_of_resolveTargetPort ht
    simp only [MayResolve, hname] at hmay
    obtain ⟨key, slice, sp, hslice, hsp, hnum⟩ := hmay
    have hnumber := heach key slice hslice
    rw [hsp, Option.map_some, hnum] at hnumber
    rw [ht, hnumber]
  | none =>
    have halike := hnames.resolve_left fun h => h p hp hname
    -- each slice has one port, and they are all the same one
    have hone : ∀ key slice, slices.lookup key = some slice → ∃ sp, slice.ports = [sp] ∧ sp.port = target := by
      intro key slice hslice
      have hresolved := heach key slice hslice
      simp only [WatchState.resolveTargetPort, hname] at hresolved
      split at hresolved
      · rename_i hlength
        obtain ⟨sp, hsp⟩ := List.length_eq_one_iff.mp hlength
        rw [hsp] at hresolved
        exact ⟨sp, hsp, Option.some_inj.mp hresolved⟩
      · cases hresolved
    obtain ⟨key, slice, hslice⟩ := hsome
    obtain ⟨sp, hports, hnum⟩ := hone key slice hslice
    have honly : ∀ sp', Exposed slices sp' → sp' = sp := by
      rintro sp' ⟨key', slice', hslice', hsp'⟩
      obtain ⟨sp'', hports', hnum'⟩ := hone key' slice' hslice'
      rw [hports'] at hsp'
      obtain rfl := List.mem_singleton.mp hsp'
      have hnames := halike key slice key' slice' hslice hslice'
      rw [hports, hports'] at hnames
      exact RawSlicePort.mk.injEq .. ▸ ⟨(List.cons.inj hnames).1.symm, hnum'.trans hnum.symm⟩
    have hexposed : Exposed slices sp := ⟨key, slice, hslice, hports ▸ List.mem_singleton_self sp⟩
    have hknown : PortKnown p slices := by
      unfold PortKnown
      rw [hname]
      exact ⟨sp, hexposed, honly⟩
    obtain ⟨t, ht⟩ := Option.isSome_iff_exists.mp (WatchState.resolveTargetPort_isSome.mpr hknown)
    obtain ⟨sp', hsp', hnum', -⟩ := WatchState.exposed_of_resolveTargetPort ht
    rw [ht, ← hnum', honly sp' hsp', hnum]

/-- The node publishes an address on the Service, whose port no other Service has, while an endpoint of the address's
    family that a slice with the target port lists is ready on a known Node. -/
structure PublishedPort (c : SharedCluster) (key : ServiceKey) (svc : RawService) (port : RawServicePort)
    (target : UInt16) (n : String) (ip : IpAddr) : Prop where
  service : c.objects.services.lookup key = some svc
  port_mem : port ∈ svc.ports
  alone : ∀ key' svc', c.objects.services.lookup key' = some svc' → key' ≠ key → ∀ p, ¬ EntryOf svc' port p
  node : c.IsNode n
  published : ip ∈ (c.view n).ipsToPublish key (c.nodeIp n)
  ready : ∃ name slice e m, (c.objects.slicesOf key).lookup name = some slice ∧ e ∈ slice.endpoints ∧
    e.ready = true ∧ e.terminating = false ∧ e.podIp.isIpv4 = ip.isIpv4 ∧ e.nodeName = some m ∧ c.IsNode m ∧
    ∃ sp ∈ slice.ports, sp.port = target

section
variable [Host]

/-- The node's desired front for the address and port has an endpoint. -/
def Served (c : SharedCluster) (port : RawServicePort) (n : String) (ip : IpAddr) : Prop :=
  ∀ podCidr, ∃ front, ((c.view n).desired ⟨c.nodeIp n, podCidr⟩).fronts.lookup
    (frontKey ip port.port port.protocol) = some front ∧ front.endpoints ≠ []

/-- No other front address of the Service's families has the key of this one. -/
def FrontApart (c : SharedCluster) (svc : RawService) (ip : IpAddr) : Prop :=
  ∀ ip' ∈ c.objects.frontIps, svc.frontsFamily (.of ip') = true → wireIpV6 ip' = wireIpV6 ip → ip' = ip

/-- A front key tells the port, the protocol and the address as it goes over the wire. -/
theorem frontKey_inj {ip ip' : IpAddr} {port port' : UInt16} {protocol protocol' : Protocol}
    (h : frontKey ip port protocol = frontKey ip' port' protocol') :
    wireIpV6 ip = wireIpV6 ip' ∧ port = port' ∧ protocol = protocol' := by
  simp only [frontKey, LbFrontKey.mk.injEq, wirePort_inj, and_true] at h
  obtain ⟨hip, hport, hproto⟩ := h
  refine ⟨hip, hport, ?_⟩
  cases protocol <;> cases protocol' <;> first | rfl | exact absurd hproto (by decide)

omit [Host] in
/-- The front addresses are those of all Nodes. -/
theorem mem_frontIps {s : WatchState} {ip : IpAddr} :
    ip ∈ s.frontIps ↔ ∃ n addrs, s.nodeIps.lookup n = some addrs ∧ ip ∈ addrs.fronts := by
  simp only [WatchState.frontIps, List.mem_flatMap, Table.mem_values]
  constructor
  · rintro ⟨addrs, ⟨n, hn⟩, hip⟩
    exact ⟨n, addrs, hn, hip⟩
  · rintro ⟨n, addrs, hn, hip⟩
    exact ⟨addrs, ⟨n, hn⟩, hip⟩

omit [Host] in
/-- Every node's view has the same front addresses. -/
theorem mem_frontIps_view {ip : IpAddr} : ip ∈ (c.view n).frontIps ↔ ip ∈ c.objects.frontIps := by
  rw [mem_frontIps, mem_frontIps]
  simp only [(c.same n).nodeIps _]

omit [Host] in
/-- What a node publishes is a front address of its own, in a family of the Service. -/
theorem front_of_published {ip : IpAddr} (hn : c.IsNode n) (hsvc : c.objects.services.lookup key = some svc)
    (h : ip ∈ (c.view n).ipsToPublish key (c.nodeIp n)) :
    ip ∈ c.objects.frontIps ∧ svc.frontsFamily (.of ip) = true := by
  have hsvc' : (c.view n).services.lookup key = some svc := by rw [(c.same n).services, hsvc]
  unfold WatchState.ipsToPublish at h
  rw [hsvc'] at h
  obtain ⟨hfront, hfamily⟩ := List.mem_filter.mp (List.mem_filter.mp h).1
  refine ⟨?_, hfamily⟩
  unfold WatchState.ownFronts at hfront
  split at hfront
  · rename_i addrs howned
    obtain ⟨m, hm⟩ := Table.mem_values.mp (List.mem_of_find?_eq_some howned)
    rw [(c.same n).nodeIps] at hm
    exact mem_frontIps.mpr ⟨m, addrs, hm, hfront⟩
  · -- the node's own Node is there
    rename_i hnone
    obtain ⟨addrs, haddrs⟩ := hn
    have hvalue : addrs ∈ (c.view n).nodeIps.values := by
      refine Table.mem_values.mpr ⟨n, ?_⟩
      rw [(c.same n).nodeIps, haddrs]
    have hno := List.find?_eq_none.mp hnone addrs hvalue
    exact absurd (c.own n addrs haddrs) hno

/-- **What a node publishes its front can serve**, where the port means one number over all the slices and the address
    is told apart by its key. -/
theorem served_of_published {port : RawServicePort} {target : UInt16} {ip : IpAddr}
    (h : PublishedPort c key svc port target n ip) (hport : ResolvesTo svc port ((c.view n).slicesOf key) target)
    (hapart : c.FrontApart svc ip) : c.Served port n ip := by
  intro podCidr
  let s := c.view n
  let node : NodeContext := ⟨c.nodeIp n, podCidr⟩
  have hlisted : s.fullyListed = true := by rw [(c.same n).fullyListed, c.listed]
  obtain ⟨hfront, hfamily⟩ := front_of_published h.node h.service h.published
  have hsvc : s.services.lookup key = some svc := by rw [(c.same n).services, h.service]
  -- the request of the port for the address is met, so some request decides
  let own : FrontRequest := ⟨svc, s.slicesOf key, ip, port⟩
  have hown : own ∈ s.owners (frontKey ip port.port port.protocol) := by
    refine WatchState.mem_owners.mpr ⟨WatchState.mem_requests.mpr ?_, rfl, ?_⟩
    · exact ⟨key, hsvc, rfl, h.port_mem, mem_frontIps_view.mpr hfront, hfamily⟩
    · show (WatchState.resolveTargetPort port (WatchState.unionPorts (s.slicesOf key))).isSome = true
      rw [hport port ⟨h.port_mem, rfl, rfl⟩]
      rfl
  obtain ⟨r, hr⟩ := Option.isSome_iff_exists.mp (List.getLast?_isSome.mpr (List.ne_nil_of_mem hown))
  -- whichever it is, it is of the same Service and address, and of the same target port
  obtain ⟨hrequest, hkey, -⟩ := WatchState.mem_owners.mp (List.mem_of_getLast? hr)
  obtain ⟨key', hsvc', hslices, hmem, hip, hfamily'⟩ := WatchState.mem_requests.mp hrequest
  obtain ⟨hwire, hnumber, hprotocol⟩ := frontKey_inj hkey
  have hsame : key' = key := by
    by_contra hne
    rw [(c.same n).services] at hsvc'
    exact h.alone key' r.svc hsvc' hne r.port ⟨hmem, hnumber, hprotocol⟩
  rw [hsame] at hsvc' hslices
  rw [hsvc] at hsvc'
  have hrsvc : r.svc = svc := (Option.some_inj.mp hsvc').symm
  rw [hrsvc] at hmem hfamily'
  have hrip : r.frontIp = ip := hapart r.frontIp (mem_frontIps_view.mp hip) hfamily' hwire
  have htarget : r.targetPort = some target := by
    unfold FrontRequest.targetPort
    rw [hslices]
    exact hport r.port ⟨hmem, hnumber, hprotocol⟩
  refine ⟨s.requested node r target, ?_, ?_⟩
  · rw [WatchState.lookup_fronts_owners hlisted, hr, Option.bind_some, htarget, Option.map_some]
  · rw [ne_eq, WatchState.requested_endpoints_eq_nil htarget, not_not]
    obtain ⟨name, slice, e, m, hslice, he, hready, hterminating, hv4, hm, ⟨addrs, haddrs⟩, sp, hsp, hnum⟩ := h.ready
    obtain ⟨peer, hpeer⟩ := List.exists_mem_of_ne_nil _ (c.addressed m addrs haddrs)
    obtain ⟨pick, hpick⟩ := Option.isSome_iff_exists.mp (pickUnderlayIp_isSome hpeer node.nodeIp)
    -- the ready endpoint is resolved, and a candidate
    have haddrs' : s.nodeIps.lookup m = some addrs := by rw [(c.same n).nodeIps, haddrs]
    have hslice' : r.slices.lookup name = some slice := by rw [hslices, (c.same n).slices, hslice]
    obtain ⟨x, hx⟩ : ∃ x, x = Endpoint.mk e.podIp pick.ip (addrs.underlay ++ addrs.fronts) e.ready e.terminating
      e.serving (slice.ports.map (·.port)) e.podUid := ⟨_, rfl⟩
    have hresolved : s.resolveEndpoint node slice e = some x :=
      WatchState.resolveEndpoint_eq_some.mpr ⟨m, addrs, pick, hm, haddrs', hpick, hx⟩
    have hcandidate : x ∈ s.candidates node r target := by
      refine List.mem_filter.mpr ⟨WatchState.mem_endpointSlices.mpr ⟨name, slice, e, hslice', he, hresolved⟩, ?_⟩
      rw [hx, hrip, Bool.and_eq_true, List.contains_iff_mem, beq_iff_eq]
      exact ⟨List.mem_map.mpr ⟨sp, hsp, hnum⟩, hv4⟩
    refine ⟨target, htarget, x, hcandidate, Or.inl ?_⟩
    rw [hx, Endpoint.takesNewFlows, Bool.and_eq_true, Bool.not_eq_true']
    exact ⟨hready, hterminating⟩

/-- The slices of a Service mean one number by the port: each of them does, the port having a name or the slices naming
    their ports alike, or all of them do that the node has, taken together. -/
def PortResolves (c : SharedCluster) (key : ServiceKey) (svc : RawService) (port : RawServicePort) (target : UInt16)
    (n : String) : Prop :=
  EachResolvesTo svc port (c.objects.slicesOf key) target ∧
      ((∀ p, EntryOf svc port p → p.name ≠ none) ∨ NamedAlike (c.objects.slicesOf key)) ∨
    ResolvesTo svc port ((c.view n).slicesOf key) target

omit [Host] in
/-- Whichever it is, it is so for the slices of the node. -/
theorem resolvesTo_of_portResolves {port : RawServicePort} {target : UInt16} {ip : IpAddr}
    (h : PublishedPort c key svc port target n ip) (hport : c.PortResolves key svc port target n) :
    ResolvesTo svc port ((c.view n).slicesOf key) target := by
  rcases hport with ⟨heach, hnames⟩ | htogether
  · -- a node has the slices that all have
    have hslices : ∀ name, ((c.view n).slicesOf key).lookup name = (c.objects.slicesOf key).lookup name :=
      fun name => (c.same n).slices key name
    obtain ⟨name, slice, -, -, hslice, -⟩ := h.ready
    refine resolvesTo_of_each ⟨name, slice, by rw [hslices, hslice]⟩ ?_ ?_
    · intro p hp name slice hslice
      rw [hslices] at hslice
      exact heach p hp name slice hslice
    · refine hnames.imp_right fun halike => ?_
      intro name slice name' slice' hslice hslice'
      rw [hslices] at hslice hslice'
      exact halike name slice name' slice' hslice hslice'
  · exact htogether

/-- **Some node publishes, and a publishing node can serve.** -/
theorem publishers_serve (c : SharedCluster) (key : ServiceKey) (svc : RawService) (hpolicy : svc.policy = .onlyLocal) :
    (∀ familyIsV4, (∀ e, c.Usable key familyIsV4 e → ∃ n, e.nodeName = some n ∧ c.IsNode n) →
      (∀ n, c.IsNode n →
        (c.Publishes key svc familyIsV4 n ↔ c.Hosts key familyIsV4 n ∨ ¬ ∃ e, c.Usable key familyIsV4 e)) ∧
      ((∃ n, c.IsNode n) → ∃ n, c.IsNode n ∧ c.Publishes key svc familyIsV4 n)) ∧
    ∀ port target n ip, PublishedPort c key svc port target n ip → c.PortResolves key svc port target n →
      c.FrontApart svc ip → c.Served port n ip := by
  refine ⟨fun familyIsV4 hknown => ⟨fun n hn => publishes_iff hpolicy hn, ?_⟩, ?_⟩
  · exact exists_publishes hpolicy hknown
  · intro port target n ip h hport hapart
    exact served_of_published h (resolvesTo_of_portResolves h hport) hapart

end

/-! ## A node with pods -/

/-- What a cluster asks of what its nodes hold, read off the entries. -/
def sharedChecks (s : WatchState) : Bool :=
  s.fullyListed && (s.nodeIps.entries.all fun p => p.2.contains (twoNodeIp p.1)) && nodesApartCheck s id

/-- What the nodes hold after the lists. -/
def afterLists (inputs : List WatchInput) : WatchState := inputs.foldl (WatchState.apply (.v4 0x0a000001)) {}

/-- The cluster whose nodes have listed the objects. -/
def ofLists (inputs : List WatchInput)
    (h : sharedChecks (afterLists inputs) = true) : SharedCluster where
  objects := afterLists inputs
  view := fun _ => afterLists inputs
  same := fun _ => .refl _
  listed := (Bool.and_eq_true_iff.mp (Bool.and_eq_true_iff.mp h).1).1
  nodeIp := twoNodeIp
  own := fun n addrs hn => List.all_eq_true.mp (Bool.and_eq_true_iff.mp (Bool.and_eq_true_iff.mp h).1).2 ⟨n, addrs⟩
    (AList.mem_lookup_iff.mp hn)
  apart := by
    intro n n' addrs addrs' ip hn hn' hip hip'
    have hpair := List.all_eq_true.mp (List.all_eq_true.mp (Bool.and_eq_true_iff.mp h).2 ⟨n, addrs⟩
      (AList.mem_lookup_iff.mp hn)) ⟨n', addrs'⟩ (AList.mem_lookup_iff.mp hn')
    have hips := List.all_eq_true.mp (List.all_eq_true.mp hpair ip (NodeAddrs.contains_iff.mp hip)) ip
      (NodeAddrs.contains_iff.mp hip')
    simpa using hips
  addressed := WatchState.addressed_of_reached _ inputs

/-- A node with an internal and two external addresses, one the other mapped to IPv6; a Service whose endpoints may be
    used at their own node only; and a pod on the node, in every slice. -/
def localFrontLists (externals families : List String) (slices : List (String × List Json.Value)) : List WatchInput :=
  [.services [.obj [metaObject "default" "web" [],
      ("spec", .obj [("type", .str "LoadBalancer"), ("externalTrafficPolicy", .str "Local"),
        ("ports", .arr [portObject 80]), ("ipFamilies", .arr (families.map .str))])]],
    .endpointSlices (slices.map fun e => sliceObject "web" e.1 e.2 [endpointObject "10.1.0.9" "n1" "a"]),
    .nodes [.obj [metaObject "" "n1" [], ("status", .obj [("addresses",
      .arr (.obj [("type", .str "InternalIP"), ("address", .str "10.0.0.1")] ::
        externals.map fun a => .obj [("type", .str "ExternalIP"), ("address", .str a)]))])]]]

/-- The Service, its port, the pod, and the address the node publishes. -/
def localKey : ServiceKey := ⟨"default", "web"⟩

def localPort : RawServicePort := ⟨none, 80, .tcp⟩

def localService (families : List IpFamily) : RawService := ⟨[localPort], families, .onlyLocal, false⟩

def localPod : RawEndpoint := ⟨.v4 0x0a010009, some "n1", true, false, true, some "a"⟩

def localFrontIp : IpAddr := .v4 0xcb007107

/-- The Service has one entry. -/
theorem entryOf_localService {families : List IpFamily} {p : RawServicePort}
    (h : EntryOf (localService families) localPort p) : p = localPort := List.mem_singleton.mp h.1

/-- What the node holds: the Service alone, a slice that lists the pod with the target port, and the Node. -/
def localFrontChecks (s : WatchState) (families : List IpFamily) (name : Option String) : Bool :=
  s.services.entries == [⟨localKey, localService families⟩] && (s.nodeIps.lookup "n1").isSome &&
    (s.ipsToPublish localKey (twoNodeIp "n1")).contains localFrontIp &&
    (s.slicesOf localKey).lookup "web-1" == some ⟨[⟨name, 8080⟩], [localPod]⟩

/-- The checks are sound: the node publishes the address, and the pod is there for it. -/
theorem publishedPort_of_checks {inputs : List WatchInput} {families : List IpFamily} (name : Option String)
    (h : sharedChecks (afterLists inputs) = true)
    (hfront : localFrontChecks (afterLists inputs) families name = true) :
    PublishedPort (ofLists inputs h) localKey (localService families) localPort 8080 "n1" localFrontIp := by
  simp only [localFrontChecks, Bool.and_eq_true, beq_iff_eq, List.contains_iff_mem] at hfront
  obtain ⟨⟨⟨hservices, hnode⟩, hpublished⟩, hslice⟩ := hfront
  have hknown : (ofLists inputs h).IsNode "n1" := Option.isSome_iff_exists.mp hnode
  refine ⟨?_, List.mem_singleton_self _, ?_, hknown, hpublished, ?_⟩
  · refine AList.mem_lookup_iff.mpr ?_
    show _ ∈ (afterLists inputs).services.entries
    rw [hservices]
    exact List.mem_singleton_self _
  · intro key' svc' hsvc' hne
    have hmem : _ ∈ (afterLists inputs).services.entries :=
      AList.mem_lookup_iff.mp hsvc'
    rw [hservices] at hmem
    exact absurd (congrArg Sigma.fst (List.mem_singleton.mp hmem)) hne
  · exact ⟨"web-1", _, localPod, "n1", hslice, List.mem_singleton_self _, rfl, rfl, rfl, rfl, hknown, ⟨name, 8080⟩,
      List.mem_singleton_self _, rfl⟩

section
variable {inputs : List WatchInput} {families : List IpFamily}
  {h : sharedChecks (afterLists inputs) = true}

/-- Read off the slices one by one. -/
theorem eachResolvesTo_of_check
    (hcheck : (((afterLists inputs).slicesOf localKey).entries.all fun e =>
      WatchState.resolveTargetPort localPort e.2.ports == some 8080) = true) :
    EachResolvesTo (localService families) localPort ((ofLists inputs h).objects.slicesOf localKey) 8080 := by
  intro p hp name slice hslice
  rw [entryOf_localService hp]
  exact beq_iff_eq.mp (List.all_eq_true.mp hcheck ⟨name, slice⟩ (AList.mem_lookup_iff.mp hslice))

/-- All slices have one list of port names. -/
theorem namedAlike_of_check (names : List (Option String))
    (hcheck : (((afterLists inputs).slicesOf localKey).entries.all fun e =>
      e.2.ports.map (·.name) == names) = true) : NamedAlike ((ofLists inputs h).objects.slicesOf localKey) := by
  have hnames : ∀ name slice, ((ofLists inputs h).objects.slicesOf localKey).lookup name = some slice →
      slice.ports.map (·.name) = names := fun name slice hslice =>
    beq_iff_eq.mp (List.all_eq_true.mp hcheck ⟨name, slice⟩ (AList.mem_lookup_iff.mp hslice))
  intro name slice name' slice' hslice hslice'
  rw [hnames name slice hslice, hnames name' slice' hslice']

/-- Every pod is on the one node. -/
theorem knownPods_of_check (hnode : (ofLists inputs h).IsNode "n1")
    (hcheck : ((afterLists inputs).endpointsOfService localKey).all
      (fun e => e.nodeName == some "n1") = true) (familyIsV4 : Bool) :
    ∀ e, (ofLists inputs h).Usable localKey familyIsV4 e → ∃ n, e.nodeName = some n ∧ (ofLists inputs h).IsNode n :=
  fun e he => ⟨"n1", beq_iff_eq.mp (List.all_eq_true.mp hcheck e he.1), hnode⟩

/-- Any other front address is another one over the wire too. -/
theorem frontApart_of_check [Host] (hcheck : ((afterLists inputs).frontIps.all fun ip =>
      ip == localFrontIp || wireIpV6 ip != wireIpV6 localFrontIp) = true) :
    (ofLists inputs h).FrontApart (localService families) localFrontIp := by
  intro ip hip _ hkey
  have hip := List.all_eq_true.mp hcheck ip hip
  rw [hkey, bne_self_eq_false, Bool.or_false] at hip
  exact beq_iff_eq.mp hip

/-- The desired front is there and has no endpoint. -/
theorem not_served_of_check [Host]
    (hcheck : (((afterLists inputs).desired ⟨twoNodeIp "n1", ⟨none, none⟩⟩).fronts.lookup
      (frontKey localFrontIp 80 .tcp)).all (fun front => front.endpoints.isEmpty) = true) :
    ¬ (ofLists inputs h).Served localPort "n1" localFrontIp := by
  intro hserved
  -- whatever the preferences of the node, it would have one
  obtain ⟨front, hfront, hne⟩ := hserved ⟨none, none⟩
  replace hfront : ((afterLists inputs).desired ⟨twoNodeIp "n1", ⟨none, none⟩⟩).fronts.lookup
    (frontKey localFrontIp 80 .tcp) = some front := hfront
  rw [hfront, Option.all_some, List.isEmpty_iff] at hcheck
  exact hne hcheck

end

/-- A second node and a second slice, with another pod on the first node. -/
def plainFrontLists : List WatchInput :=
  localFrontLists ["203.0.113.7"] ["IPv4"] [("web-1", [portObject 8080])] ++
    [.node (.obj [("type", .str "ADDED"), ("object", nodeObject "n2" "10.0.0.2")]),
      .endpointSlice (.obj [("type", .str "ADDED"),
        ("object", sliceObject "web" "web-2" [portObject 8080] [endpointObject "10.1.0.10" "n1" "b"])])]

/-- Its lists are those of a cluster. -/
theorem plainFront_checks : sharedChecks (afterLists plainFrontLists) = true := by decide +kernel

/-- The first node publishes. -/
theorem plainFront_published : PublishedPort (ofLists plainFrontLists plainFront_checks) localKey (localService [.v4])
    localPort 8080 "n1" localFrontIp := publishedPort_of_checks none plainFront_checks (by decide +kernel)

/-- Every pod is on the first node. -/
theorem plainFront_pods : ((afterLists plainFrontLists).endpointsOfService localKey).all
    (fun e => e.nodeName == some "n1") = true := by
  decide +kernel

/-- The second node is known. -/
theorem plainFront_other : (ofLists plainFrontLists plainFront_checks).IsNode "n2" :=
  Option.isSome_iff_exists.mp (by decide +kernel)

/-- The first node hosts the first pod. -/
theorem plainFront_hosts : (ofLists plainFrontLists plainFront_checks).Hosts localKey true "n1" :=
  ⟨localPod, ⟨List.contains_iff_mem.mp (by decide +kernel), rfl, rfl⟩, rfl⟩

/-- The second node hosts none of the pods, and there are some. -/
theorem plainFront_spare : ¬ ((ofLists plainFrontLists plainFront_checks).Hosts localKey true "n2" ∨
    ¬ ∃ e, (ofLists plainFrontLists plainFront_checks).Usable localKey true e) := by
  rintro (⟨e, he, hname⟩ | hnone)
  · have hfirst := beq_iff_eq.mp (List.all_eq_true.mp plainFront_pods e he.1)
    rw [hname] at hfirst
    exact absurd (Option.some_inj.mp hfirst) (by decide)
  · obtain ⟨e, he, -⟩ := plainFront_hosts
    exact hnone ⟨e, he⟩

/-- The node lists both external addresses, in both families. -/
def mappedFrontLists : List WatchInput :=
  localFrontLists ["203.0.113.7", "::ffff:203.0.113.7"] ["IPv4", "IPv6"] [("web-1", [portObject 8080])]

/-- Its lists are those of a cluster. -/
theorem mappedFront_checks : sharedChecks (afterLists mappedFrontLists) = true := by decide

/-- The node publishes its IPv4 address. -/
theorem mappedFront_published : PublishedPort (ofLists mappedFrontLists mappedFront_checks) localKey
    (localService [.v4, .v6]) localPort 8080 "n1" localFrontIp :=
  publishedPort_of_checks none mappedFront_checks (by decide)

/-- Two slices name the port differently. -/
def renamedFrontLists : List WatchInput :=
  localFrontLists ["203.0.113.7"] ["IPv4"]
    [("web-1", [namedPortObject "" 8080]), ("web-2", [namedPortObject "http" 8080])]

/-- Its lists are those of a cluster. -/
theorem renamedFront_checks : sharedChecks (afterLists renamedFrontLists) = true := by
  decide

/-- The node publishes, since a pod of its own is ready. -/
theorem renamedFront_published : PublishedPort (ofLists renamedFrontLists renamedFront_checks) localKey
    (localService [.v4]) localPort 8080 "n1" localFrontIp :=
  publishedPort_of_checks (some "") renamedFront_checks (by decide)

section
local instance localFrontHost : Host := ⟨.little⟩

/-- There is one external address. -/
theorem plainFront_apart : (ofLists plainFrontLists plainFront_checks).FrontApart (localService [.v4]) localFrontIp :=
  frontApart_of_check (by decide +kernel)

/-- Both slices give the unnamed port the one number. -/
theorem plainFront_resolves :
    (ofLists plainFrontLists plainFront_checks).PortResolves localKey (localService [.v4]) localPort 8080 "n1" :=
  Or.inl ⟨eachResolvesTo_of_check (by decide +kernel), Or.inr (namedAlike_of_check [none] (by decide +kernel))⟩

/-- The theorem at two nodes: the one with the pods publishes and serves, and the other one does not publish. -/
theorem publishers_serve_two_nodes :
    ((ofLists plainFrontLists plainFront_checks).Publishes localKey (localService [.v4]) true "n1" ∧
      (ofLists plainFrontLists plainFront_checks).Served localPort "n1" localFrontIp) ∧
    (ofLists plainFrontLists plainFront_checks).IsNode "n2" ∧
      ¬ (ofLists plainFrontLists plainFront_checks).Publishes localKey (localService [.v4]) true "n2" := by
  have hnode := plainFront_published.node
  obtain ⟨hpublishers, hserve⟩ :=
    publishers_serve (ofLists plainFrontLists plainFront_checks) localKey (localService [.v4]) rfl
  obtain ⟨hexactly, -⟩ := hpublishers true (knownPods_of_check hnode plainFront_pods true)
  refine ⟨⟨(hexactly "n1" hnode).mpr (Or.inl plainFront_hosts), ?_⟩, plainFront_other, fun hpublishes => ?_⟩
  · exact hserve localPort 8080 "n1" localFrontIp plainFront_published plainFront_resolves plainFront_apart
  · exact plainFront_spare ((hexactly "n2" plainFront_other).mp hpublishes)

/-- The front of the IPv6 family has the key, and no endpoint. -/
theorem mappedFront_not_served :
    ¬ (ofLists mappedFrontLists mappedFront_checks).Served localPort "n1" localFrontIp :=
  not_served_of_check (by decide)

/-- The port without a name is none of the two, so the front has no endpoint. -/
theorem renamedFront_not_served :
    ¬ (ofLists renamedFrontLists renamedFront_checks).Served localPort "n1" localFrontIp :=
  not_served_of_check (by decide)

end

/-- Two front addresses of one Service can share a key, and the front of the family without an endpoint then stands for
    both; and where slices name a port differently, a Service port without a name means none of them. -/
theorem not_publishers_serve :
    (¬ ∀ (_ : Host) (c : SharedCluster) key svc port target n ip, svc.policy = .onlyLocal →
      (∀ familyIsV4 e, c.Usable key familyIsV4 e → ∃ n, e.nodeName = some n ∧ c.IsNode n) →
      PublishedPort c key svc port target n ip → EachResolvesTo svc port (c.objects.slicesOf key) target →
      NamedAlike (c.objects.slicesOf key) → c.Served port n ip) ∧
    ¬ ∀ (_ : Host) (c : SharedCluster) key svc port target n ip, svc.policy = .onlyLocal →
      (∀ familyIsV4 e, c.Usable key familyIsV4 e → ∃ n, e.nodeName = some n ∧ c.IsNode n) →
      PublishedPort c key svc port target n ip → EachResolvesTo svc port (c.objects.slicesOf key) target →
      c.FrontApart svc ip → c.Served port n ip := by
  constructor
  · intro hserve
    refine mappedFront_not_served (hserve localFrontHost _ localKey _ localPort 8080 "n1" localFrontIp rfl ?_
      mappedFront_published (eachResolvesTo_of_check (by decide)) (namedAlike_of_check [none] (by decide)))
    exact knownPods_of_check mappedFront_published.node (by decide)
  · intro hserve
    refine renamedFront_not_served (hserve localFrontHost _ localKey _ localPort 8080 "n1" localFrontIp rfl ?_
      renamedFront_published (eachResolvesTo_of_check (by decide))
      (@frontApart_of_check _ _ _ localFrontHost (by decide)))
    exact knownPods_of_check renamedFront_published.node (by decide)

end SharedCluster

end Beep
