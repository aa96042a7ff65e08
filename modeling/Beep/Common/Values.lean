import Beep.Common.Keys

/-!
# `Common.Values` — what the maps hold

The `#[repr(C)]` structures of `common/src/lib.rs`, field for field and with their explicit padding: the
kernel compares keys byte by byte and `commit_reverse_row` compares whole values, so a `pad` is part of the
value. `FlowValue` is the 40-byte union of the three row roles; it is modelled by the bytes themselves,
grouped at the field boundaries the arms share, so reading an arm other than the one written is defined and
means what it means in memory.
-/

namespace Beep

/-- `LbFrontKey`: the key of `FRONT_META`. -/
structure LbFrontKey where
  frontIp : Bytes 16
  frontPort : UInt16
  proto : UInt8
  pad : UInt8
  deriving DecidableEq

/-- `LbFrontBackend`: the node hosting a pod, and the pod. -/
structure LbFrontBackend where
  backendNodeIp : Bytes 16
  podIp : Bytes 16
  deriving DecidableEq

/-- `FrontMeta`: which endpoint generation of a front is live, and how many endpoints it holds. -/
structure FrontMeta where
  generation : UInt32
  count : UInt16
  flags : UInt16
  localCount : UInt16
  pad : UInt16
  deriving DecidableEq

/-- `FRONT_FLAG_CLIENT_IP_AFFINITY`. -/
def frontFlagClientIpAffinity : UInt16 := 1

/-- `FrontEndpointKey`: one endpoint slot of one generation of a front. -/
structure FrontEndpointKey where
  front : LbFrontKey
  generation : UInt32
  slot : UInt16
  pad : UInt16
  deriving DecidableEq

/-- `FrontEndpoint`: where one slot of a front sends traffic. -/
structure FrontEndpoint where
  backend : LbFrontBackend
  targetPort : UInt16
  flags : UInt16
  pad : Bytes 4
  deriving DecidableEq

/-- `ENDPOINT_FLAG_IS_LOCAL`. -/
def endpointFlagIsLocal : UInt16 := 1

/-- `ForwardFlowValue`: the backend a flow is pinned to and the uplink that admitted it. -/
structure ForwardFlowValue where
  backend : LbFrontBackend
  ingressIfindex : UInt32
  targetPort : UInt16
  flags : UInt16
  deriving DecidableEq

/-- `RevFlowValue`: what the backend node needs to undo its rewrite of a flow. -/
structure RevFlowValue where
  ingressNodeIp : Bytes 16
  frontIp : Bytes 16
  frontPort : UInt16
  originalClientPort : UInt16
  pad : UInt16
  flags : UInt16
  deriving DecidableEq

/-- `PortMemoValue`: the backend-facing source port a flow was given. -/
structure PortMemoValue where
  backendSrcPort : UInt16
  deriving DecidableEq

/-! ## The union `FlowValue` -/

/-- `FlowValue`: the 40 bytes of a `FLOW_TABLE` row. The arms lay their fields over them: `forward` as
    node address, pod address, ifindex (two halves), target port, flags; `reverse` as node address, front
    address, front port, client port, padding, flags; `port_memo` as a port in the first two bytes. -/
structure FlowValue where
  addr0 : Bytes 16
  addr1 : Bytes 16
  half0 : UInt16
  half1 : UInt16
  half2 : UInt16
  flags : UInt16
  deriving DecidableEq

namespace FlowValue

variable [Host]

/-- `FlowValue::from_forward`. -/
def fromForward (v : ForwardFlowValue) : FlowValue :=
  let ifindex := Host.endian.u32Bytes v.ingressIfindex
  { addr0 := v.backend.backendNodeIp
    addr1 := v.backend.podIp
    half0 := Host.endian.u16OfBytes (Bytes.slice ifindex 0 2 (by omega))
    half1 := Host.endian.u16OfBytes (Bytes.slice ifindex 2 2 (by omega))
    half2 := v.targetPort
    flags := v.flags }

/-- The `forward` arm. -/
def forward (v : FlowValue) : ForwardFlowValue where
  backend := { backendNodeIp := v.addr0, podIp := v.addr1 }
  ingressIfindex :=
    Host.endian.u32OfBytes (Host.endian.u16Bytes v.half0 ++ Host.endian.u16Bytes v.half1)
  targetPort := v.half2
  flags := v.flags

/-- `FlowValue::from_reverse`. -/
def fromReverse (v : RevFlowValue) : FlowValue where
  addr0 := v.ingressNodeIp
  addr1 := v.frontIp
  half0 := v.frontPort
  half1 := v.originalClientPort
  half2 := v.pad
  flags := v.flags

/-- The `reverse` arm. -/
def reverse (v : FlowValue) : RevFlowValue where
  ingressNodeIp := v.addr0
  frontIp := v.addr1
  frontPort := v.half0
  originalClientPort := v.half1
  pad := v.half2
  flags := v.flags

/-- `FlowValue::from_port_memo`: the memo in the first two bytes, zeroes behind it. -/
def fromPortMemo (v : PortMemoValue) : FlowValue where
  addr0 := Host.endian.u16Bytes v.backendSrcPort ++ (Vector.replicate 14 0 : Bytes 14)
  addr1 := Vector.replicate 16 0
  half0 := 0
  half1 := 0
  half2 := 0
  flags := 0

/-- The `port_memo` arm. -/
def portMemo (v : FlowValue) : PortMemoValue where
  backendSrcPort := Host.endian.u16OfBytes (Bytes.slice v.addr0 0 2 (by omega))

@[simp] theorem forward_fromForward (v : ForwardFlowValue) : (fromForward v).forward = v := by
  simp only [fromForward, forward, Endian.u16Bytes_u16OfBytes]
  rw [Bytes.slice_append_slice (n := 2) (m := 2), Endian.u32OfBytes_u32Bytes]

omit [Host] in
@[simp] theorem reverse_fromReverse (v : RevFlowValue) : (fromReverse v).reverse = v := rfl

@[simp] theorem portMemo_fromPortMemo (v : PortMemoValue) : (fromPortMemo v).portMemo = v := by
  simp only [fromPortMemo, portMemo]
  rw [Bytes.slice_append_left _ (by omega), Bytes.slice_all, Endian.u16OfBytes_u16Bytes]

@[simp] theorem flags_fromForward (v : ForwardFlowValue) : (fromForward v).flags = v.flags := rfl

omit [Host] in
@[simp] theorem flags_fromReverse (v : RevFlowValue) : (fromReverse v).flags = v.flags := rfl

end FlowValue

/-! ## Configuration -/

/-- `GcParity`: the two global idle-GC parities. -/
structure GcParity where
  udp : Bool
  tcp : Bool
  deriving DecidableEq

/-- `Config`: the single entry of the `CONFIG` map. -/
structure Config where
  geneveIfindex : UInt32
  udpParity : UInt8
  tcpParity : UInt8
  flowHashSeed : UInt64
  deriving DecidableEq

/-- `UplinkConfig`: the L2 header length of one configured uplink. -/
structure UplinkConfig where
  l2Hlen : UInt32
  deriving DecidableEq

end Beep
