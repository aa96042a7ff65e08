import Beep.Controller.Reconcile
import Beep.Lib.Json

/-!
# `Controller.Parse` — reading API objects

The JSON readers of `controller/src/watch.rs`: what a Service, an EndpointSlice and a Node say to the dataplane, and
which key each object is held under. A Service that does not parse is no Service to front; an EndpointSlice always
parses, to an empty one if it must; a Node may parse to no addresses.
-/

namespace Beep

open Json (Value)

/-- `ServiceKey`. -/
structure ServiceKey where
  ns : String
  name : String
  deriving DecidableEq

/-- `Family`: one entry of `spec.ipFamilies`. -/
inductive IpFamily where
  | v4
  | v6
  deriving DecidableEq

/-- `Family::of`. -/
def IpFamily.of (ip : IpAddr) : IpFamily := if ip.isIpv6 then .v6 else .v4

/-- `RawServicePort`. -/
structure RawServicePort where
  name : Option String
  port : UInt16
  protocol : Protocol
  deriving DecidableEq

/-- `RawService`. -/
structure RawService where
  ports : List RawServicePort
  ipFamilies : List IpFamily
  policy : EndpointPolicy
  clientIpAffinity : Bool
  deriving DecidableEq

/-- `fronts_family`. -/
def RawService.frontsFamily (svc : RawService) (family : IpFamily) : Bool := svc.ipFamilies.contains family

/-- `RawSlicePort`. -/
structure RawSlicePort where
  name : Option String
  port : UInt16
  deriving DecidableEq

/-- `RawEndpoint`. -/
structure RawEndpoint where
  podIp : IpAddr
  nodeName : Option String
  ready : Bool
  terminating : Bool
  serving : Bool
  podUid : Option String
  deriving DecidableEq

/-- `RawEndpointSlice`. -/
structure RawEndpointSlice where
  ports : List RawSlicePort
  endpoints : List RawEndpoint
  deriving DecidableEq

/-- `NodeAddrs`: where peers reach a node, and where clients do. -/
structure NodeAddrs where
  underlay : List IpAddr
  fronts : List IpAddr
  deriving DecidableEq

/-- `NodeAddrs::contains`. -/
def NodeAddrs.contains (a : NodeAddrs) (ip : IpAddr) : Bool := a.underlay.contains ip || a.fronts.contains ip

/-! ## Events and keys -/

/-- `EventKind`. -/
inductive EventKind where
  | upsert
  | delete
  deriving DecidableEq

/-- `event_kind`. -/
def eventKind (event : Value) : Option EventKind :=
  match (event.get "type").asStr with
  | some "ADDED" | some "MODIFIED" => some .upsert
  | some "DELETED" => some .delete
  | _ => none

/-- `added`. -/
def added (object : Value) : Value := .obj [("type", .str "ADDED"), ("object", object)]

/-- `metadata_name`. -/
def metadataName (obj : Value) : Option String := ((obj.get "metadata").get "name").asStr

/-- `service_key`. -/
def serviceKey (obj : Value) : Option ServiceKey := do
  let ns ← ((obj.get "metadata").get "namespace").asStr
  let name ← metadataName obj
  return { ns, name }

/-- `owning_service_key`: read off the `kubernetes.io/service-name` label. -/
def owningServiceKey (obj : Value) : Option ServiceKey := do
  let ns ← ((obj.get "metadata").get "namespace").asStr
  let name ← (((obj.get "metadata").get "labels").get "kubernetes.io/service-name").asStr
  return { ns, name }

/-! ## Services -/

/-- `parse_protocol`: `TCP` by default. -/
def parseProtocol (s : Option String) : Option Protocol :=
  match s.getD "TCP" with
  | "TCP" => some .tcp
  | "UDP" => some .udp
  | _ => none

/-- `parse_ip_families`: none for a missing or empty list. -/
def parseIpFamilies (obj : Value) : Option (List IpFamily) := do
  let items ← ((obj.get "spec").get "ipFamilies").asArray
  let families := items.filterMap fun f =>
    match f.asStr with
    | some "IPv4" => some IpFamily.v4
    | some "IPv6" => some IpFamily.v6
    | _ => none
  if families = [] then none else some families

/-- One entry of `spec.ports`. -/
def parseServicePort (p : Value) : Option RawServicePort := do
  let port ← (← (p.get "port").asU64) |> Json.u16TryFrom
  let protocol ← parseProtocol (p.get "protocol").asStr
  return { name := (p.get "name").asStr, port, protocol }

/-- `parse_service`: none for anything but a `LoadBalancer` Service with families. -/
def parseService (obj : Value) : Option RawService := do
  let spec := obj.get "spec"
  let type ← (spec.get "type").asStr
  guard (type = "LoadBalancer")
  let items ← (spec.get "ports").asArray
  let ipFamilies ← parseIpFamilies obj
  return {
    ports := items.filterMap parseServicePort
    ipFamilies
    policy := .fromSpec (spec.get "externalTrafficPolicy").asStr (spec.get "trafficDistribution").asStr
    clientIpAffinity := clientIpAffinity (spec.get "sessionAffinity").asStr }

/-! ## EndpointSlices -/

/-- One entry of `ports`. -/
def parseSlicePort (p : Value) : Option RawSlicePort := do
  let port ← (← (p.get "port").asU64) |> Json.u16TryFrom
  return { name := (p.get "name").asStr, port }

/-- One entry of `endpoints`: the first address counts, and a missing `ready` means ready. -/
def parseEndpoint (e : Value) : Option RawEndpoint := do
  let addresses ← (e.get "addresses").asArray
  let podIp ← IpAddr.parse (← (← addresses.head?).asStr)
  let conditions := e.get "conditions"
  let ready := (conditions.get "ready").asBool.getD true
  return {
    podIp
    nodeName := (e.get "nodeName").asStr
    ready
    terminating := (conditions.get "terminating").asBool.getD false
    serving := (conditions.get "serving").asBool.getD ready
    podUid := ((e.get "targetRef").get "uid").asStr }

/-- `parse_endpoint_slice`: missing lists are empty. -/
def parseEndpointSlice (obj : Value) : RawEndpointSlice where
  ports := ((obj.get "ports").asArray.getD []).filterMap parseSlicePort
  endpoints := ((obj.get "endpoints").asArray.getD []).filterMap parseEndpoint

/-! ## Nodes -/

/-- `parse_addresses_of_type`. -/
def parseAddressesOfType (addresses : List Value) (ty : String) : List IpAddr :=
  ((addresses.filter fun a => (a.get "type").asStr == some ty).filterMap fun a => (a.get "address").asStr).filterMap
    IpAddr.parse

/-- `prefer_per_family`: a fallback address only of a family that has no preferred one. -/
def preferPerFamily (preferred fallback : List IpAddr) : List IpAddr :=
  preferred ++ fallback.filter fun fb => !preferred.any fun p => p.isIpv6 == fb.isIpv6

/-- `parse_node_addrs`. -/
def parseNodeAddrs (obj : Value) : NodeAddrs :=
  match ((obj.get "status").get "addresses").asArray with
  | none => { underlay := [], fronts := [] }
  | some addresses =>
      let internal := parseAddressesOfType addresses "InternalIP"
      let external := parseAddressesOfType addresses "ExternalIP"
      { underlay := preferPerFamily internal external, fronts := preferPerFamily external internal }

/-- `UnderlayPick`. -/
structure UnderlayPick where
  ip : IpAddr
  sharedFamily : Bool

/-- `pick_underlay_ip`. -/
def pickUnderlayIp (peerIps : List IpAddr) (localNodeIp : IpAddr) : Option UnderlayPick :=
  match peerIps.find? fun ip => ip.isIpv6 == localNodeIp.isIpv6 with
  | some ip => some { ip, sharedFamily := true }
  | none => peerIps.head?.map fun ip => { ip, sharedFamily := false }

end Beep
