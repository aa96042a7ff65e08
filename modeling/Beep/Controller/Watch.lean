import Beep.Controller.Parse
import Mathlib.Data.Finset.Card

/-!
# `Controller.Watch` — the watched objects and what they ask of the maps

`WatchState` of `controller/src/watch.rs`: the Services, EndpointSlices and Nodes as they were last seen, one watch
event at a time (`applyServiceEvent`, `applyEndpointSliceEvent`, `applyNodeEvent`) or one complete LIST at a time
(`replaceServices`, `replaceEndpointSlices`, `replaceNodes`, each of which can refuse a list), and the map entries
they add up to (`desired`).
-/

namespace Beep

open Json (Value)

/-- `WatchState`. -/
structure WatchState where
  services : Table ServiceKey RawService := ∅
  /-- by owning Service, then by the slice's own name -/
  slices : Table ServiceKey (Table String RawEndpointSlice) := ∅
  nodeIps : Table String NodeAddrs := ∅
  nodeNames : Finset String := ∅
  nodesListed : Bool := false
  servicesListed : Bool := false
  slicesListed : Bool := false

/-- What the watch hands over: one event, or one complete LIST. -/
inductive WatchInput where
  | service (event : Value)
  | endpointSlice (event : Value)
  | node (event : Value)
  | services (items : List Value)
  | endpointSlices (items : List Value)
  | nodes (items : List Value)

namespace WatchState

/-! ## Events -/

/-- `apply_service_event`. -/
def applyServiceEvent (s : WatchState) (event : Value) : WatchState × Option ServiceKey :=
  let obj := event.get "object"
  match eventKind event, serviceKey obj with
  | some .delete, some key => ({ s with services := s.services.erase key }, none)
  | some .upsert, some key =>
      match parseService obj with
      | some raw => ({ s with services := s.services.insert key raw }, some key)
      | none => ({ s with services := s.services.erase key }, none)
  | _, _ => (s, none)

/-- `own_node_addrs`: the first entry, in iteration order, that has the node's address. -/
def ownNodeAddrs (s : WatchState) (localNodeIp : IpAddr) : Option NodeAddrs :=
  s.nodeIps.values.find? (·.contains localNodeIp)

/-- `is_local_policy`. -/
def isLocalPolicy (s : WatchState) (key : ServiceKey) : Bool :=
  (s.services.lookup key).any fun svc => svc.policy == .onlyLocal

/-- The slices with one of them removed; an owner without slices has nothing to remove. -/
def removeSlice (slices : Table ServiceKey (Table String RawEndpointSlice)) (owner : ServiceKey) (name : String) :
    Table ServiceKey (Table String RawEndpointSlice) :=
  match slices.lookup owner with
  | some set => slices.insert owner (set.erase name)
  | none => slices

/-- The slices with one of them set. -/
def putSlice (slices : Table ServiceKey (Table String RawEndpointSlice)) (owner : ServiceKey) (name : String)
    (slice : RawEndpointSlice) : Table ServiceKey (Table String RawEndpointSlice) :=
  slices.insert owner (((slices.lookup owner).getD ∅).insert name slice)

/-- `apply_endpoint_slice_event`. -/
def applyEndpointSliceEvent (s : WatchState) (event : Value) : WatchState × Option ServiceKey :=
  let obj := event.get "object"
  match eventKind event, owningServiceKey obj, metadataName obj with
  | some kind, some owner, some sliceName =>
      let slices :=
        match kind with
        | .delete => removeSlice s.slices owner sliceName
        | .upsert => putSlice s.slices owner sliceName (parseEndpointSlice obj)
      ({ s with slices }, if s.isLocalPolicy owner then some owner else none)
  | _, _, _ => (s, none)

/-- `apply_node_event`: an update without a parseable address leaves the addresses held. -/
def applyNodeEvent (s : WatchState) (event : Value) : WatchState :=
  let obj := event.get "object"
  match eventKind event, metadataName obj with
  | some .delete, some name =>
      { s with nodeIps := s.nodeIps.erase name, nodeNames := s.nodeNames.erase name }
  | some .upsert, some name =>
      let addrs := parseNodeAddrs obj
      { s with
        nodeNames := insert name s.nodeNames
        nodeIps := if addrs.underlay = [] then s.nodeIps else s.nodeIps.insert name addrs }
  | _, _ => s

/-! ## Relists -/

/-- `replace_services`: the keys left tracked, or the reason to keep what is held. -/
def replaceServices (s : WatchState) (items : List Value) : WatchState × Except String (List ServiceKey) :=
  let held := s.services.entries.length
  if items.isEmpty && held != 0 then
    (s, .error s!"relist refused: empty Service relist: keeping the previous {held} tracked Service(s)")
  else
    let (fresh, keys) := items.foldl (fun (acc : WatchState × List ServiceKey) item =>
      let (fresh, key) := acc.1.applyServiceEvent (added item)
      (fresh, acc.2 ++ key.toList)) ({}, [])
    ({ s with services := fresh.services, servicesListed := true }, .ok keys)

/-- How many tracked Services have slices in a set of slices. -/
def trackedWithSlices (s : WatchState) (slices : Table ServiceKey (Table String RawEndpointSlice)) : Nat :=
  (slices.entries.filter fun e => (s.services.lookup e.1).isSome && !e.2.entries.isEmpty).length

/-- `replace_endpoint_slices`. -/
def replaceEndpointSlices (s : WatchState) (items : List Value) : WatchState × Except String Unit :=
  let fresh := items.foldl (fun (fresh : WatchState) item => (fresh.applyEndpointSliceEvent (added item)).1) {}
  let held := s.trackedWithSlices s.slices
  let listed := s.trackedWithSlices fresh.slices
  let count := items.length
  if 0 < held ∧ listed = 0 then
    (s, .error (s!"relist refused: EndpointSlice relist of {count} item(s): none belongs to a tracked Service " ++
      s!"while {held} tracked Service(s) hold slices; keeping the previous set"))
  else ({ s with slices := fresh.slices, slicesListed := true }, .ok ())

/-- One item of a Node LIST: without a parseable address a Node keeps the ones held for it. -/
def relistNode (held : Table String NodeAddrs) (fresh : WatchState) (item : Value) : WatchState :=
  let fresh := fresh.applyNodeEvent (added item)
  match metadataName item with
  | none => fresh
  | some name =>
      match held.lookup name, fresh.nodeIps.lookup name with
      | some prev, none => { fresh with nodeIps := fresh.nodeIps.insert name prev }
      | _, _ => fresh

/-- `replace_nodes`. -/
def replaceNodes (s : WatchState) (items : List Value) (localNodeIp : IpAddr) : WatchState × Except String Unit :=
  let fresh := items.foldl (relistNode s.nodeIps) {}
  let count := items.length
  let held := s.nodeNames.card
  let address := localNodeIp.display
  if (fresh.ownNodeAddrs localNodeIp).isNone ∧ s.nodeNames ≠ ∅ then
    (s, .error (s!"relist refused: Node relist of {count} item(s): none carries this node's address " ++
      s!"{address}; keeping the previous set of {held} node(s)"))
  else ({ s with nodeIps := fresh.nodeIps, nodeNames := fresh.nodeNames, nodesListed := true }, .ok ())

/-- The state after an input; a refused LIST leaves it as it was. -/
def apply (localNodeIp : IpAddr) (s : WatchState) : WatchInput → WatchState
  | .service event => (s.applyServiceEvent event).1
  | .endpointSlice event => (s.applyEndpointSliceEvent event).1
  | .node event => s.applyNodeEvent event
  | .services items => (s.replaceServices items).1
  | .endpointSlices items => (s.replaceEndpointSlices items).1
  | .nodes items => (s.replaceNodes items localNodeIp).1

/-! ## What the objects ask for -/

/-- `fully_listed`. -/
def fullyListed (s : WatchState) : Bool := s.nodesListed && s.servicesListed && s.slicesListed

/-- `resolve_target_port`: by name, or the only port there is. -/
def resolveTargetPort (port : RawServicePort) (slicePorts : List RawSlicePort) : Option UInt16 :=
  match port.name with
  | some name => (slicePorts.find? fun sp => sp.name == some name).map (·.port)
  | none => if slicePorts.length = 1 then slicePorts.head?.map (·.port) else none

/-- The ports of the slices of a Service, each once, in the order they are first met. -/
def unionPorts (slices : Table String RawEndpointSlice) : List RawSlicePort :=
  (slices.values.flatMap (·.ports)).foldl (fun seen p => if p ∈ seen then seen else seen ++ [p]) []

/-- The ports of a Service that resolve. -/
def resolvedPorts (svc : RawService) (slices : Table String RawEndpointSlice) : List ServicePort :=
  svc.ports.filterMap fun p =>
    (resolveTargetPort p (unionPorts slices)).map fun targetPort =>
      { port := p.port, protocol := p.protocol, targetPort }

/-- An endpoint with the addresses of its node; none while the node is not resolved. -/
def resolveEndpoint (s : WatchState) (node : NodeContext) (slice : RawEndpointSlice) (e : RawEndpoint) :
    Option Endpoint := do
  let peer ← s.nodeIps.lookup (← e.nodeName)
  let pick ← pickUnderlayIp peer.underlay node.nodeIp
  return {
    podIp := e.podIp
    nodeIp := pick.ip
    nodeAddrs := peer.underlay ++ peer.fronts
    ready := e.ready
    terminating := e.terminating
    serving := e.serving
    ports := slice.ports.map (·.port)
    podUid := e.podUid }

/-- The views of the slices of a Service. -/
def endpointSlices (s : WatchState) (node : NodeContext) (slices : Table String RawEndpointSlice) :
    List (List Endpoint) :=
  slices.values.map fun slice => slice.endpoints.filterMap (s.resolveEndpoint node slice)

/-- The endpoints that have not departed: only a Node missing from a complete Node set ends its backends. -/
def trackedEndpoints (s : WatchState) (slices : Table String RawEndpointSlice) : List (IpAddr × Option String) :=
  ((slices.values.flatMap (·.endpoints)).filter fun e =>
    e.nodeName.any fun n => !s.nodesListed || n ∈ s.nodeNames).map fun e => (e.podIp, e.podUid)

/-- Every front address of every known node. -/
def frontIps (s : WatchState) : List IpAddr := s.nodeIps.values.flatMap (·.fronts)

variable [Host]

/-- Every underlay address of every known node. -/
def nodeAllow (s : WatchState) : Finset (Bytes 16) :=
  ((s.nodeIps.values.flatMap (·.underlay)).map tunnelRemoteV6).toFinset

/-- A Service on one front address. -/
def serviceView (svc : RawService) (slices : Table String RawEndpointSlice) (frontIp : IpAddr) : ServiceView where
  frontIp := frontIp
  policy := svc.policy
  clientIpAffinity := svc.clientIpAffinity
  ports := resolvedPorts svc slices

/-- What one Service adds to the fronts: one for each port on each front address of its families. -/
def addFronts (s : WatchState) (node : NodeContext) (svc : RawService) (slices : Table String RawEndpointSlice)
    (fronts : Table LbFrontKey DesiredFront) : Table LbFrontKey DesiredFront :=
  (s.frontIps.filter fun ip => svc.frontsFamily (.of ip)).foldl (fun fronts frontIp =>
    (reconcileService (serviceView svc slices frontIp) (s.endpointSlices node slices) node).fronts ∪ fronts) fronts

/-- What one Service adds to the desired entries. -/
def addService (s : WatchState) (node : NodeContext) (aggregate : DesiredEntries) (key : ServiceKey)
    (svc : RawService) : DesiredEntries :=
  let slices := (s.slices.lookup key).getD ∅
  let views := s.endpointSlices node slices
  { aggregate with
    podTargets := aggregate.podTargets ∪ podTargetsForNode views node
    clusterBackends := (clusterBackends (s.trackedEndpoints slices)).entries.foldl
      (fun backends e => noteBackend backends e.1 e.2) aggregate.clusterBackends
    rejected := aggregate.rejected ++ rejectedEndpointsForNode views node
    fronts := if s.fullyListed then s.addFronts node svc slices aggregate.fronts else aggregate.fronts }

/-- `desired`. -/
def desired (s : WatchState) (node : NodeContext) : DesiredEntries :=
  s.services.entries.foldl (fun aggregate e => s.addService node aggregate e.1 e.2)
    { frontsKnown := s.fullyListed
      podTargetsKnown := s.fullyListed && (s.ownNodeAddrs node.nodeIp).isSome
      nodeAllow := s.nodeAllow }

end WatchState

/-! ## Objects -/

section

/-- `metadata` of an object. -/
def metaObject (ns name : String) (labels : List (String × Value)) : String × Value :=
  ("metadata", .obj [("namespace", .str ns), ("name", .str name), ("labels", .obj labels)])

/-- A `LoadBalancer` Service for IPv4 with the given `spec.ports`. -/
def serviceObject (name : String) (ports : List Value) : Value :=
  .obj [metaObject "default" name [],
    ("spec", .obj [("type", .str "LoadBalancer"), ("ports", .arr ports), ("ipFamilies", .arr [.str "IPv4"])])]

/-- An EndpointSlice of a Service. -/
def sliceObject (service name : String) (ports endpoints : List Value) : Value :=
  .obj [metaObject "default" name [("kubernetes.io/service-name", .str service)], ("ports", .arr ports),
    ("endpoints", .arr endpoints)]

/-- An unnamed port. -/
def portObject (port : UInt64) : Value := .obj [("port", .uint port)]

/-- A named port. -/
def namedPortObject (name : String) (port : UInt64) : Value := .obj [("name", .str name), ("port", .uint port)]

/-- An endpoint of a pod on a node. -/
def endpointObject (address nodeName uid : String) : Value :=
  .obj [("addresses", .arr [.str address]), ("nodeName", .str nodeName), ("targetRef", .obj [("uid", .str uid)])]

/-- A Node with one address. -/
def nodeObject (name address : String) : Value :=
  .obj [metaObject "" name [],
    ("status", .obj [("addresses", .arr [.obj [("type", .str "InternalIP"), ("address", .str address)]])])]

end

end Beep
