import Beep.Common.GeneveOpt
import Beep.Common.PortRemap
import Beep.Common.Steer
import Beep.Ebpf.Skb
import Beep.Lib.Table

/-!
# `Ebpf.Node` — the maps of one node and the functions that write them

A `Node` is the state the programs of one node share: their maps. The functions here are the ones of
`ebpf/src/main.rs` that read or write a map without looking at packet bytes. `FLOW_TABLE` is written only by
whole-value inserts; a refused insert leaves it as it is. What LRU eviction or the controller take out of a
map between two packets is not a function of a program, so it is an event of its own (`Ebpf.Effects`).
-/

namespace Beep

/-- The maps of one node. -/
structure Node where
  frontMeta : Table LbFrontKey FrontMeta
  frontEndpoints : Table FrontEndpointKey FrontEndpoint
  frontMisses : Nat
  podTargets : Table (Bytes 16) UInt8
  nodeAllow : Table (Bytes 16) UInt8
  fwdPending : Table TcpFlowKey ForwardFlowValue
  flowTable : Table FlowKey FlowValue
  config : Option Config
  uplinkConfig : Table UInt32 UplinkConfig

namespace Node

variable [Host]

/-- `flow_table_get_forward`. -/
def flowTableGetForward (n : Node) (key : FlowKey) : Option ForwardFlowValue :=
  (n.flowTable.lookup key).map FlowValue.forward

/-- `flow_table_get_reverse`. -/
def flowTableGetReverse (n : Node) (key : FlowKey) : Option RevFlowValue :=
  (n.flowTable.lookup key).map FlowValue.reverse

/-- `flow_table_get_port_memo`. -/
def flowTableGetPortMemo (n : Node) (key : FlowKey) : Option PortMemoValue :=
  (n.flowTable.lookup key).map FlowValue.portMemo

/-- `flow_table_insert`, when the kernel does not refuse it. -/
def flowTableInsert (n : Node) (key : FlowKey) (value : FlowValue) : Node :=
  { n with flowTable := n.flowTable.insert key value }

/-- `is_node_allowed`. -/
def isNodeAllowed (n : Node) (addr : Bytes 16) : Bool := (n.nodeAllow.lookup addr).isSome

/-- `is_pod_target`. -/
def isPodTarget (n : Node) (addr : Bytes 16) : Bool := (n.podTargets.lookup addr).isSome

/-- `gc_parity`. -/
def gcParity (n : Node) : GcParity :=
  match n.config with
  | some c => { udp := c.udpParity != 0, tcp := c.tcpParity != 0 }
  | none => { udp := false, tcp := false }

/-- `touch_forward_row`. -/
def touchForwardRow (n : Node) (h : Helpers) (key : FlowKey) (value : ForwardFlowValue) (proto : UInt8)
    (tcpFlags : UInt8) (side : FlowSide) : Node :=
  match flowStep (some value.flags) proto tcpFlags side n.gcParity with
  | .keep | .skip => n
  | .write flags =>
      if h .flowInsert then n.flowTableInsert key (FlowValue.fromForward { value with flags }) else n

/-- `touch_return_row`. -/
def touchReturnRow (n : Node) (h : Helpers) (key : FlowKey) (rev : RevFlowValue) (proto : UInt8)
    (tcpFlags : UInt8) : Node :=
  match flowStep (some rev.flags) proto tcpFlags .pod n.gcParity with
  | .keep | .skip => n
  | .write flags =>
      if h .flowInsert then n.flowTableInsert key (FlowValue.fromReverse { rev with flags }) else n

/-- `commit_reverse_row`: `none` where the insert is refused. -/
def commitReverseRow (n : Node) (h : Helpers) (revKey : FlowKey) (revValue : RevFlowValue) (proto : UInt8)
    (tcpFlags : UInt8) : Option Node :=
  let stored := n.flowTableGetReverse revKey
  let mine := stored.filter fun v =>
    !occupantConflicts (some v.identity) (revValue.frontIp, revValue.frontPort) revValue.originalClientPort
  let mineFlags := (mine.map (·.flags)).getD 0
  match flowStepFlags mine.isSome mineFlags proto tcpFlags .client n.gcParity with
  | .skip => some n
  | step =>
      let revValue := { revValue with flags := step.flagsAfter mineFlags }
      if stored ≠ some revValue then
        if h .flowInsert then some (n.flowTableInsert revKey (FlowValue.fromReverse revValue)) else none
      else some n

/-- `ingress_backend`: the backend of one packet of a front, or the verdict to return instead. -/
def ingressBackend (n : Node) (h : Helpers) (front : LbFrontKey) (clientIp : Bytes 16) (clientPort : UInt16)
    (flowKey : TcpFlowKey) (fwdKey : FlowKey) (ingressIfindex : UInt32) (tcpFlags : UInt8) :
    Node × Except TcAction (LbFrontBackend × UInt16) :=
  match n.frontMeta.lookup front with
  | none => (n, .error .ok)
  | some m =>
      match n.config.map (·.flowHashSeed) with
      | none => (n, .error .ok)
      | some seed =>
          let established := n.flowTableGetForward fwdKey
          let n₁ := match established with
            | some value => n.touchForwardRow h fwdKey value front.proto tcpFlags .client
            | none => n
          let pending := if established.isSome then none else n.fwdPending.lookup flowKey
          match ingressSteer m established pending (frontFlowHash seed clientIp clientPort front m) front
              (fun key => n.frontEndpoints.lookup key) with
          | .drop => ({ n₁ with frontMisses := n₁.frontMisses + 1 }, .error .shot)
          | .forward backend targetPort =>
              match forwardAdmission established.isSome with
              | .established => (n₁, .ok (backend, targetPort))
              | .mintPending =>
                  let admitted : ForwardFlowValue := { backend, ingressIfindex, targetPort, flags := 0 }
                  match fwdPendingAffinityPin pending admitted with
                  | .keep => (n₁, .ok (backend, targetPort))
                  | .insert candidate =>
                      if h .pendingInsert then
                        ({ n₁ with fwdPending := n₁.fwdPending.insert flowKey candidate },
                          .ok (backend, targetPort))
                      else (n₁, .error .ok)

end Node

/-! ## The port of a forward packet -/

section
variable [Host]

/-- The bytes `32..34` of a key buffer replaced by a port (`candidate_key[32..34].copy_from_slice`). -/
def patchPort (key : FlowKey) (port : UInt16) : FlowKey :=
  Bytes.slice key 0 32 (by omega) ++ Host.endian.u16Bytes port ++ Bytes.slice key 34 4 (by omega)

/-- The patched buffer is the key encoded afresh. -/
theorem patchPort_encodeFlowKey (c : Bytes 16) (cp cp' : UInt16) (o : Bytes 16) (op : UInt16) (p : UInt8)
    (d : FlowDirection) : patchPort (encodeFlowKey c cp o op p d) cp' = encodeFlowKey c cp' o op p d := by
  have hkey : ∀ port, encodeFlowKey c port o op p d =
      ((c ++ o) ++ Host.endian.u16Bytes port : Bytes 34) ++
        (Host.endian.u16Bytes op ++ #v[p] ++ #v[d.toByte] : Bytes 4) := by
    intro port
    refine Vector.toArray_inj.mp ?_
    show ((c.toArray ++ o.toArray ++ (Host.endian.u16Bytes port).toArray ++
        (Host.endian.u16Bytes op).toArray) ++ #[p]) ++ #[d.toByte] =
      (c.toArray ++ o.toArray ++ (Host.endian.u16Bytes port).toArray) ++
        (((Host.endian.u16Bytes op).toArray ++ #[p]) ++ #[d.toByte])
    simp only [Array.append_assoc]
  have hhead : Bytes.slice (encodeFlowKey c cp o op p d) 0 32 (by omega) = c ++ o := by
    rw [hkey, Bytes.slice_append_left, Bytes.slice_append_left, Bytes.slice_all] <;> omega
  have htail : Bytes.slice (encodeFlowKey c cp o op p d) 34 4 (by omega) =
      (Host.endian.u16Bytes op ++ #v[p] ++ #v[d.toByte] : Bytes 4) := by
    rw [hkey, Bytes.slice_append_right (by omega) (by omega)]
    exact Bytes.slice_all _ _
  rw [patchPort, hhead, htail, hkey]

/-- One packet of a flow at the backend node: the client, the pod and port it is for, the protocol and the
    front it came through. -/
structure ClientFlow where
  clientIp : Bytes 16
  clientPort : UInt16
  podIp : Bytes 16
  targetPort : UInt16
  proto : UInt8
  frontIp : Bytes 16
  frontPort : UInt16
  deriving DecidableEq

namespace ClientFlow

/-- The `Reverse` key of the flow under a backend-facing port. -/
def revKey (f : ClientFlow) (port : UInt16) : FlowKey :=
  encodeFlowKey f.clientIp port f.podIp f.targetPort f.proto .reverse

/-- The `PortMemo` key, always under the client's own port. -/
def memoKey (f : ClientFlow) : FlowKey :=
  encodeFlowKey f.clientIp f.clientPort f.podIp f.targetPort f.proto .portMemo

/-- What the flow's reverse row is held by. -/
def identity (f : ClientFlow) : Occupant := ((f.frontIp, f.frontPort), f.clientPort)

end ClientFlow

/-- `is_reverse_key_taken`: patches the candidate key and looks its row up. -/
def Node.isReverseKeyTaken (n : Node) (f : ClientFlow) (candidateKey : FlowKey) (candidatePort : UInt16) :
    FlowKey × Bool :=
  let candidateKey := patchPort candidateKey candidatePort
  let occupant := (n.flowTableGetReverse candidateKey).bind reverseOccupant
  (candidateKey, occupantConflicts occupant (f.frontIp, f.frontPort) f.clientPort)

/-- What the port resolution of a forward packet ends in. -/
inductive PortOutcome where
  | port (n : Node) (revKey : FlowKey) (backendSrcPort : UInt16)
  | exhausted
  | refused

/-- The memo lookup, the probe and the memo insert of `try_geneve_decap_forward_v4`/`_v6`. -/
def Node.resolvePort (n : Node) (h : Helpers) (f : ClientFlow) : PortOutcome :=
  let memoizedPort := (n.flowTableGetPortMemo f.memoKey).map (·.backendSrcPort)
  match backendPortResolution memoizedPort with
  | .memoized port => .port n (f.revKey port) port
  | .probe =>
      let existingOccupant := (n.flowTableGetReverse (f.revKey f.clientPort)).bind reverseOccupant
      match resolveBackendSrcPort (n.isReverseKeyTaken f) existingOccupant (f.frontIp, f.frontPort)
          f.clientPort (f.revKey 0) with
      | (.noRemap, _) => .port n (f.revKey f.clientPort) f.clientPort
      | (.remap syntheticPort, candidateKey) =>
          if h .memoInsert then
            .port (n.flowTableInsert f.memoKey (FlowValue.fromPortMemo { backendSrcPort := syntheticPort }))
              candidateKey syntheticPort
          else .refused
      | (.exhausted, _) => .exhausted

end

end Beep
