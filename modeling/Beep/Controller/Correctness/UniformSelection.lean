import Beep.Common.SlotFairness
import Beep.Controller.Reconcile
import Beep.Lib.StableSort
import Beep.Loader.FrontSwap.Written

/-!
# `Controller.Correctness.UniformSelection` — one pick on every ingress node

For a Service that prefers no pods the slots of a front hold the same pods on every node (`pods_lookup`): they are
sorted by address, and what is relative to a node, the address a pod's node is reached by and whether the pod is local,
decides nothing. What a flow without a pin is steered to is read off the pods and the hash alone (`pick_steer`), and
neither knows the generation.
-/

namespace Beep

open StableSort

/-! ## Endpoints on two nodes -/

/-- An endpoint without what is relative to the node that sees it. -/
def Endpoint.forgetNode (e : Endpoint) : Endpoint := { e with nodeIp := .v4 0, nodeAddrs := [] }

/-- The same endpoints, in whatever slices and order. -/
def SameEndpoints (slices slices' : List (List Endpoint)) : Prop :=
  (slices.flatten.map Endpoint.forgetNode).Perm (slices'.flatten.map Endpoint.forgetNode)

/-- The slices in another order. -/
theorem SameEndpoints.of_perm {slices slices' : List (List Endpoint)} (h : slices.Perm slices') :
    SameEndpoints slices slices' := (h.flatten).map _

/-- The pods of a front's slots, with their ports. -/
def DesiredFront.pods (want : DesiredFront) : List (Bytes 16 × UInt16) :=
  want.endpoints.map fun e => (e.backend.podIp, e.targetPort)

/-! ## The slots of a front -/

section
variable [Host] {svc : ServiceView} {slices slices' : List (List Endpoint)} {node node' : NodeContext}

/-- The port that names a key: the last one, where several do. -/
def ServiceView.portOf (svc : ServiceView) (key : LbFrontKey) : Option ServicePort :=
  (svc.ports.filter fun port => frontKey svc.frontIp port.port port.protocol = key).getLast?

theorem lookup_reconcileService (svc : ServiceView) (slices : List (List Endpoint)) (node : NodeContext)
    (key : LbFrontKey) : (reconcileService svc slices node).fronts.lookup key =
      (svc.portOf key).map (svc.frontOf slices.flatten node) := by
  have hfold : (reconcileService svc slices node).fronts = (svc.ports.map fun port =>
      (frontKey svc.frontIp port.port port.protocol, svc.frontOf slices.flatten node port)).foldl
        (fun fronts e => fronts.insert e.1 e.2) ∅ := by
    rw [List.foldl_map]
    rfl
  rw [hfold, Table.lookup_foldl_insert, Table.lastValue, List.filter_map, List.getLast?_map, Option.map_map]
  show ((svc.portOf key).map _).or none = _
  rw [Option.or_none]
  rfl

/-- The endpoints a front uses when no pods are preferred, without what is relative to the node. -/
def ServiceView.uniformEndpoints (svc : ServiceView) (slices : List (List Endpoint)) (port : ServicePort) :
    List Endpoint :=
  (matchingEndpoints (slices.flatten.map Endpoint.forgetNode) svc.frontIp port.targetPort).filter Endpoint.takesNewFlows

/-- What they are sorted by. -/
def Endpoint.uniformRank (e : Endpoint) : Nat ×ₗ Nat := toLex (0, e.podIp.rank)

omit [Host] in
theorem uniformEndpoints_perm (h : SameEndpoints slices slices') (port : ServicePort) :
    (svc.uniformEndpoints slices port).Perm (svc.uniformEndpoints slices' port) := (h.filter _).filter _

/-- The slots are those of the endpoints sorted by address. -/
theorem pods_frontOf (hpolicy : svc.policy = .uniform) (port : ServicePort) :
    (svc.frontOf slices.flatten node port).pods =
      (sortByRank Endpoint.uniformRank (svc.uniformEndpoints slices port)).map fun e =>
        (wireIpV6 e.podIp, wirePort port.targetPort) := by
  have hrank : slotRank svc.policy node.nodeIp = fun e => e.forgetNode.uniformRank := by
    funext e
    rw [slotRank, hpolicy]
    rfl
  have hchosen : chosenEndpoints svc.policy (matchingEndpoints slices.flatten svc.frontIp port.targetPort) node.nodeIp =
      (matchingEndpoints slices.flatten svc.frontIp port.targetPort).filter Endpoint.takesNewFlows := by
    rw [hpolicy]
    rfl
  have hforget : svc.uniformEndpoints slices port =
      (chosenEndpoints svc.policy (matchingEndpoints slices.flatten svc.frontIp port.targetPort) node.nodeIp).map
        Endpoint.forgetNode := by
    rw [hchosen, ServiceView.uniformEndpoints, matchingEndpoints, List.filter_map, List.filter_map]
    rfl
  have hslots : (svc.frontOf slices.flatten node port).endpoints = (sortByRank (slotRank svc.policy node.nodeIp)
      (chosenEndpoints svc.policy (matchingEndpoints slices.flatten svc.frontIp port.targetPort) node.nodeIp)).map
        fun e => e.toSlot port.targetPort node.nodeIp := rfl
  rw [hforget, ← map_sortByRank, DesiredFront.pods, hslots, hrank, List.map_map, List.map_map]
  rfl

/-- The order of the endpoints decides nothing: those of one address fill their slots alike. -/
theorem pods_frontOf_eq (hpolicy : svc.policy = .uniform) (h : SameEndpoints slices slices') (port : ServicePort) :
    (svc.frontOf slices.flatten node port).pods = (svc.frontOf slices'.flatten node' port).pods := by
  rw [pods_frontOf hpolicy, pods_frontOf hpolicy]
  refine map_sortByRank_eq (uniformEndpoints_perm h port) fun a _ b _ hrank => ?_
  have hpod : a.podIp = b.podIp := IpAddr.rank_inj.mp (Prod.mk.inj (toLex.injective hrank)).2
  rw [hpod]

theorem localCount_frontOf (hpolicy : svc.policy = .uniform) (port : ServicePort) :
    (svc.frontOf slices.flatten node port).localCount = 0 := by
  have hprefer : (svc.frontOf slices.flatten node port).preferLocal = false := by
    show (svc.policy != .uniform) = false
    rw [hpolicy]
    rfl
  rw [DesiredFront.localCount, hprefer]
  rfl

end

/-! ## The pick -/

/-- The pod and port a packet is forwarded to. -/
def IngressSteer.pick : IngressSteer → Option (Bytes 16 × UInt16)
  | .drop => none
  | .forward backend targetPort => some (backend.podIp, targetPort)

/-- What `ingress_steer` makes of a packet of a flow without a pin, on the rows of the maps. -/
def FrontStore.steer (s : FrontStore) (seed : UInt64) (clientIp : Bytes 16) (clientPort : UInt16) (front : LbFrontKey) :
    Option IngressSteer :=
  (s.metas.lookup front).map fun m =>
    ingressSteer m none none (frontFlowHash seed clientIp clientPort front m) front s.endpoints.lookup

/-- The pod a hash picks from the pods of a front: of the slots, those that the count covers. -/
def pickPod (pods : List (Bytes 16 × UInt16)) (hash : UInt32) : Option (Bytes 16 × UInt16) :=
  (selectEndpointSlot hash (UInt16.ofNat pods.length) 0).bind
    (Table.lastValue (pods.zipIdx.map fun e => (UInt16.ofNat e.2, e.1)))

theorem row_pod (want : DesiredFront) (slot : UInt16) :
    (want.row slot).map (fun e => (e.backend.podIp, e.targetPort)) =
      Table.lastValue (want.pods.zipIdx.map fun e => (UInt16.ofNat e.2, e.1)) slot := by
  rw [DesiredFront.row, DesiredFront.pods, ← Table.lastValue_map, List.zipIdx_map, List.map_map, List.map_map]
  rfl

section
variable {s : FrontStore} {f : LbFrontKey} {want : DesiredFront} {m : FrontMeta}

theorem pick_ingressSteer (h : Serves s f want m) (hlocal : want.localCount = 0) (hash : UInt32) :
    (ingressSteer m none none hash f s.endpoints.lookup).pick = pickPod want.pods hash := by
  have hcount : UInt16.ofNat want.pods.length = m.count := by
    rw [h.count, DesiredFront.pods, List.length_map]
    rfl
  have hnolocal : m.localCount = 0 := h.localCount.trans hlocal
  unfold ingressSteer pickPod
  rw [hcount, hnolocal]
  show IngressSteer.pick (if m.count = 0 then _ else _) = _
  cases hslot : selectEndpointSlot hash m.count 0 with
  | none =>
    split <;> rfl
  | some slot =>
    have hlt : slot < m.count := selectEndpointSlot_lt_range hslot
    have hcounted : m.count ≠ 0 := by
      rintro hzero
      rw [hzero] at hlt
      exact absurd hlt (by simp)
    obtain ⟨e, he⟩ := DesiredFront.row_isSome (h.count ▸ hlt)
    rw [if_neg hcounted, Option.bind_some, ← row_pod, he]
    simp only [h.rows slot e he, true_or, if_true]
    rfl

/-- **What is picked** is read off the pods of the front. -/
theorem pick_steer (h : Serves s f want m) (hlocal : want.localCount = 0) (seed : UInt64) (clientIp : Bytes 16)
    (clientPort : UInt16) : (s.steer seed clientIp clientPort f).map IngressSteer.pick =
      some (pickPod want.pods (flowHash seed clientIp
        (if want.flags &&& frontFlagClientIpAffinity ≠ 0 then 0 else clientPort) f)) := by
  rw [FrontStore.steer, h.live, Option.map_some, Option.map_some, pick_ingressSteer h hlocal, frontFlowHash, h.flags]

/-- With the affinity of a client the port of the client does not count. -/
theorem steer_affinity (h : Serves s f want m) (hflags : want.flags = frontFlagClientIpAffinity) (seed : UInt64)
    (clientIp : Bytes 16) (clientPort clientPort' : UInt16) :
    s.steer seed clientIp clientPort f = s.steer seed clientIp clientPort' f := by
  have haffine : m.flags &&& frontFlagClientIpAffinity ≠ 0 := by
    rw [h.flags, hflags]
    decide
  rw [FrontStore.steer, FrontStore.steer, h.live, Option.map_some, Option.map_some, frontFlowHash, frontFlowHash,
    if_pos haffine, if_pos haffine]

end

/-- **A uniform Service is balanced alike on every node.** From the same endpoints, in whatever slices and order, two
    nodes derive for each front the same pods slot by slot and no local count. Whatever passes wrote the two fronts, a
    flow without a pin is steered to the same pod and port on both, and with client affinity regardless of its port. -/
theorem ServiceView.uniform_selection [Host] {svc : ServiceView} (hpolicy : svc.policy = .uniform)
    {slices slices' : List (List Endpoint)} (hsame : SameEndpoints slices slices') (node node' : NodeContext)
    (key : LbFrontKey) :
    let front := (reconcileService svc slices node).fronts.lookup key
    let front' := (reconcileService svc slices' node').fronts.lookup key
    front.map DesiredFront.pods = front'.map DesiredFront.pods ∧
    ∀ want want', front = some want → front' = some want' → want.localCount = 0 ∧ want'.localCount = 0 ∧
      ∀ s s', WrittenFrom key want s → WrittenFrom key want' s' → ∀ seed clientIp clientPort,
        (s.steer seed clientIp clientPort key).map IngressSteer.pick =
            (s'.steer seed clientIp clientPort key).map IngressSteer.pick ∧
          (svc.clientIpAffinity = true → ∀ clientPort',
            s.steer seed clientIp clientPort' key = s.steer seed clientIp clientPort key) := by
  intro front front'
  simp only [front, front', lookup_reconcileService]
  cases svc.portOf key with
  | none => exact ⟨rfl, fun _ _ h => nomatch h⟩
  | some port =>
    have hpods : (svc.frontOf slices.flatten node port).pods = (svc.frontOf slices'.flatten node' port).pods :=
      pods_frontOf_eq hpolicy hsame port
    refine ⟨congrArg some hpods, ?_⟩
    intro want want' hwant hwant'
    obtain rfl := Option.some_inj.mp hwant
    obtain rfl := Option.some_inj.mp hwant'
    refine ⟨localCount_frontOf hpolicy port, localCount_frontOf hpolicy port, ?_⟩
    intro s s' hwritten hwritten' seed clientIp clientPort
    obtain ⟨m, hm⟩ := hwritten.serves
    obtain ⟨m', hm'⟩ := hwritten'.serves
    refine ⟨?_, fun haffinity clientPort' => ?_⟩
    · rw [pick_steer hm (localCount_frontOf hpolicy port), pick_steer hm' (localCount_frontOf hpolicy port), hpods]
      rfl
    · refine steer_affinity hm ?_ seed clientIp clientPort' clientPort
      show (if svc.clientIpAffinity then frontFlagClientIpAffinity else 0) = _
      rw [haffinity, if_pos rfl]

section
local instance uniformHost : Host := ⟨.little⟩

/-- A pod on the node with the given address. -/
def podOn (pod node : UInt32) : Endpoint where
  podIp := .v4 pod
  nodeIp := .v4 node
  nodeAddrs := [.v4 node]
  ready := true
  terminating := false
  serving := true
  ports := [8080]
  podUid := none

/-- A Service on port 80 that prefers no pods. -/
def uniformService : ServiceView where
  frontIp := .v4 0xcb007101
  policy := .uniform
  clientIpAffinity := true
  ports := [⟨80, .tcp, 8080⟩]

/-- Its slices. -/
def podSlices : List (List Endpoint) := [[podOn 0x0a010009 0x0a000002], [podOn 0x0a010001 0x0a000001]]

/-- Two nodes with a pod each hold different rows of the front, and pick the same pods. -/
theorem uniform_selection_two_nodes :
    let front := (reconcileService uniformService podSlices ⟨.v4 0x0a000001, ⟨none, none⟩⟩).fronts.lookup
      (frontKey (.v4 0xcb007101) 80 .tcp)
    let front' := (reconcileService uniformService podSlices.reverse ⟨.v4 0x0a000002, ⟨none, none⟩⟩).fronts.lookup
      (frontKey (.v4 0xcb007101) 80 .tcp)
    front ≠ front' ∧ front.map DesiredFront.pods = front'.map DesiredFront.pods := by
  refine ⟨by decide, ?_⟩
  exact (ServiceView.uniform_selection rfl (.of_perm (List.reverse_perm podSlices).symm) _ _ _).1

end

end Beep
