import Beep.Common.FlowStep
import Beep.Common.Steer
import Beep.Lib.Net
import Beep.Loader.FrontSwap.Plan
import Mathlib.Algebra.GroupWithZero.Nat
import Mathlib.Data.Finset.Union
import Mathlib.Data.Prod.Lex

/-!
# `Controller.Reconcile` — from a Service and its endpoints to map entries

`controller/src/reconcile.rs`: the parsed views of a Service and of its EndpointSlices, the choice of the
endpoints a front uses and of their slots (`eligibleEndpoints`), the pods this node serves (`podTargetsForNode`),
the backends of the cluster with their owners (`clusterBackends`), and the fronts of one Service on one address
(`reconcileService`).

A `HashMap` is a `Table`, whose entries stand in the order its iterator yields them; a `HashSet` is a `Finset`.
What is only logged is left out.
-/

namespace Beep

variable [Host]

/-! ## Keys -/

/-- `wire_ip`: the native integer whose bytes in memory are the address in network order. -/
def wireIp (ip : UInt32) : UInt32 := Host.endian.u32OfBytes (Endian.big.u32Bytes ip)

/-- `wire_port`. -/
def wirePort (port : UInt16) : UInt16 := Host.endian.u16OfBytes (Endian.big.u16Bytes port)

theorem wirePort_inj {p q : UInt16} : wirePort p = wirePort q ↔ p = q := by
  refine ⟨fun h => ?_, fun h => h ▸ rfl⟩
  have hbytes := congrArg Host.endian.u16Bytes h
  rw [wirePort, wirePort, Endian.u16Bytes_u16OfBytes, Endian.u16Bytes_u16OfBytes] at hbytes
  exact (Endian.big.u16Bytes_inj).mp hbytes

/-- `wire_ip_v6`. -/
def wireIpV6 : IpAddr → Bytes 16
  | .v4 bits => ipv4MappedV6 (wireIp bits)
  | .v6 octets => octets

/-- `tunnel_remote_v6`: an IPv4 address stays host-native. -/
def tunnelRemoteV6 : IpAddr → Bytes 16
  | .v4 bits => ipv4MappedV6 bits
  | .v6 octets => octets

/-! ## Views -/

/-- `Protocol`. -/
inductive Protocol where
  | tcp
  | udp
  deriving DecidableEq

/-- `as_ip_proto`. -/
def Protocol.asIpProto : Protocol → UInt8
  | .tcp => ipprotoTcp
  | .udp => ipprotoUdp

/-- `Ipv4Cidr`. -/
structure Ipv4Cidr where
  network : UInt32
  prefixLen : Fin 33

instance prefixLensV4 : NeZero 33 := ⟨by decide⟩

/-- `Ipv4Cidr::mask`. -/
def Ipv4Cidr.mask (prefixLen : Fin 33) : UInt32 :=
  if prefixLen = 0 then 0 else 0xffffffff <<< UInt32.ofNat (32 - prefixLen.val)

/-- `Ipv4Cidr::contains`. -/
def Ipv4Cidr.contains (c : Ipv4Cidr) (ip : UInt32) : Bool :=
  let mask := Ipv4Cidr.mask c.prefixLen
  ip &&& mask == c.network &&& mask

/-- `Ipv6Cidr`. -/
structure Ipv6Cidr where
  network : Bytes 16
  prefixLen : Fin 129

instance prefixLensV6 : NeZero 129 := ⟨by decide⟩

/-- `Ipv6Cidr::mask`. -/
def Ipv6Cidr.mask (prefixLen : Fin 129) : BitVec 128 :=
  if prefixLen = 0 then 0 else BitVec.allOnes 128 <<< (128 - prefixLen.val)

/-- `Ipv6Cidr::contains`. -/
def Ipv6Cidr.contains (c : Ipv6Cidr) (octets : Bytes 16) : Bool :=
  let mask := Ipv6Cidr.mask c.prefixLen
  let bits (octets : Bytes 16) := BitVec.ofNat 128 (IpAddr.octetsToNat octets)
  bits octets &&& mask == bits c.network &&& mask

/-- `PodCidrs`: at most one per family. -/
structure PodCidrs where
  v4 : Option Ipv4Cidr
  v6 : Option Ipv6Cidr

/-- `PodCidrs::contains`. -/
def PodCidrs.contains (c : PodCidrs) : IpAddr → Bool
  | .v4 bits => c.v4.any (·.contains bits)
  | .v6 octets => c.v6.any (·.contains octets)

/-- `NodeContext`: the node the controller runs on. -/
structure NodeContext where
  nodeIp : IpAddr
  podCidr : PodCidrs

/-- `ServicePort`: a port with its target port resolved. -/
structure ServicePort where
  port : UInt16
  protocol : Protocol
  targetPort : UInt16

/-- `EndpointPolicy`: which endpoints a front uses. -/
inductive EndpointPolicy where
  | uniform
  | preferLocal
  | onlyLocal
  deriving DecidableEq

/-- `EndpointPolicy::from_spec`. -/
def EndpointPolicy.fromSpec (externalTrafficPolicy trafficDistribution : Option String) : EndpointPolicy :=
  if externalTrafficPolicy = some "Local" then .onlyLocal
  else
    match trafficDistribution with
    | none => .uniform
    | some "PreferSameNode" | some "PreferClose" | some "PreferSameZone" => .preferLocal
    | some _ => .uniform

/-- `client_ip_affinity`. -/
def clientIpAffinity (sessionAffinity : Option String) : Bool := sessionAffinity == some "ClientIP"

/-- `ServiceView`: a Service on one front address. -/
structure ServiceView where
  frontIp : IpAddr
  policy : EndpointPolicy
  clientIpAffinity : Bool
  ports : List ServicePort

/-- `Endpoint`: an endpoint whose node is resolved. -/
structure Endpoint where
  podIp : IpAddr
  nodeIp : IpAddr
  nodeAddrs : List IpAddr
  ready : Bool
  terminating : Bool
  serving : Bool
  ports : List UInt16
  podUid : Option String
  deriving DecidableEq

/-- `RejectedEndpoint`. -/
structure RejectedEndpoint where
  podIp : IpAddr
  reason : String
  deriving DecidableEq

/-- `DesiredEntries`. -/
structure DesiredEntries where
  fronts : Table LbFrontKey DesiredFront := ∅
  podTargets : Finset (Bytes 16) := ∅
  clusterBackends : Table (Bytes 16) (Option String) := ∅
  nodeAllow : Finset (Bytes 16) := ∅
  rejected : List RejectedEndpoint := []
  frontsKnown : Bool := false
  podTargetsKnown : Bool := false

/-! ## Endpoints -/

/-- `is_local`. -/
def Endpoint.isLocal (e : Endpoint) (nodeIp : IpAddr) : Bool := e.nodeAddrs.contains nodeIp

/-- Ready and not on its way out. -/
def Endpoint.takesNewFlows (e : Endpoint) : Bool := e.ready && !e.terminating

/-- `local_usable_endpoints`. -/
def localUsableEndpoints (candidates : List Endpoint) (nodeIp : IpAddr) : List Endpoint :=
  let localReady := candidates.filter fun e => e.isLocal nodeIp && e.takesNewFlows
  if localReady ≠ [] then localReady
  else candidates.filter fun e => e.isLocal nodeIp && e.serving && e.terminating

/-- The endpoints a policy lets a front use, before they are put in slot order. -/
def chosenEndpoints (policy : EndpointPolicy) (candidates : List Endpoint) (nodeIp : IpAddr) : List Endpoint :=
  match policy with
  | .onlyLocal =>
      let localOnes := localUsableEndpoints candidates nodeIp
      if localOnes = [] then candidates.filter Endpoint.takesNewFlows else localOnes
  | _ => candidates.filter Endpoint.takesNewFlows

/-- The key the slots are sorted by: the address, behind locality where the policy prefers local pods. -/
def slotRank (policy : EndpointPolicy) (nodeIp : IpAddr) (e : Endpoint) : Nat ×ₗ Nat :=
  toLex (if policy = .preferLocal ∧ e.isLocal nodeIp = false then 1 else 0, e.podIp.rank)

/-- `eligible_endpoints`; `sort_by_key` is stable, as insertion sort is. -/
def eligibleEndpoints (policy : EndpointPolicy) (candidates : List Endpoint) (nodeIp : IpAddr) : List Endpoint :=
  (chosenEndpoints policy candidates nodeIp).insertionSort fun a b =>
    slotRank policy nodeIp a ≤ slotRank policy nodeIp b

/-- `is_admitted`. -/
def isAdmitted (e : Endpoint) (node : NodeContext) : Bool :=
  node.podCidr.contains e.podIp || e.nodeAddrs.contains e.podIp

/-- `pod_targets_for_node`: readiness is not consulted. -/
def podTargetsForNode (slices : List (List Endpoint)) (node : NodeContext) : Finset (Bytes 16) :=
  ((slices.flatten.filter fun e => e.isLocal node.nodeIp && isAdmitted e node).map
    fun e => wireIpV6 e.podIp).toFinset

/-- `rejected_endpoints_for_node`. -/
def rejectedEndpointsForNode (slices : List (List Endpoint)) (node : NodeContext) : List RejectedEndpoint :=
  (slices.flatten.filter fun e => e.isLocal node.nodeIp && !isAdmitted e node).map fun e =>
    { podIp := e.podIp
      reason := "pod_ip is outside the configured --pod-cidr and is not this node's own address (hostNetwork)" }

/-! ## Backends and their owners -/

/-- One more endpoint of an address: the first known uid stays. -/
def noteBackend (backends : Table (Bytes 16) (Option String)) (ip : Bytes 16) (uid : Option String) :
    Table (Bytes 16) (Option String) :=
  backends.insert ip ((backends.lookup ip).join.or uid)

/-- `cluster_backends`. -/
def clusterBackends (endpoints : List (IpAddr × Option String)) : Table (Bytes 16) (Option String) :=
  endpoints.foldl (fun backends e => noteBackend backends (wireIpV6 e.1) e.2) ∅

/-! ## Fronts -/

/-- `front_key`. -/
def frontKey (frontIp : IpAddr) (port : UInt16) (protocol : Protocol) : LbFrontKey where
  frontIp := wireIpV6 frontIp
  frontPort := wirePort port
  proto := protocol.asIpProto
  pad := 0

/-- The slot of a front an endpoint becomes. -/
def Endpoint.toSlot (e : Endpoint) (targetPort : UInt16) (nodeIp : IpAddr) : FrontEndpoint where
  backend := { backendNodeIp := tunnelRemoteV6 e.nodeIp, podIp := wireIpV6 e.podIp }
  targetPort := wirePort targetPort
  flags := if e.isLocal nodeIp then endpointFlagIsLocal else 0
  pad := #v[0, 0, 0, 0]

/-- The endpoints that serve a target port in the family of a front address. -/
def matchingEndpoints (endpoints : List Endpoint) (frontIp : IpAddr) (targetPort : UInt16) : List Endpoint :=
  endpoints.filter fun e => e.ports.contains targetPort && e.podIp.isIpv4 == frontIp.isIpv4

/-- The front of one port: without a usable endpoint it has no slots. -/
def ServiceView.frontOf (svc : ServiceView) (endpoints : List Endpoint) (node : NodeContext) (port : ServicePort) :
    DesiredFront where
  flags := if svc.clientIpAffinity then frontFlagClientIpAffinity else 0
  preferLocal := svc.policy != .uniform
  endpoints := (eligibleEndpoints svc.policy (matchingEndpoints endpoints svc.frontIp port.targetPort)
    node.nodeIp).map fun e => e.toSlot port.targetPort node.nodeIp

/-- `reconcile_service`. -/
def reconcileService (svc : ServiceView) (slices : List (List Endpoint)) (node : NodeContext) : DesiredEntries where
  podTargets := podTargetsForNode slices node
  rejected := rejectedEndpointsForNode slices node
  fronts := svc.ports.foldl (fun fronts port =>
    fronts.insert (frontKey svc.frontIp port.port port.protocol) (svc.frontOf slices.flatten node port)) ∅

end Beep
