import Beep.Ebpf.Node

/-!
# `Ebpf.Hooks` — the three programs

`uplink_ingress` on the uplinks' ingress, `geneve_ingress` on `geneve0`, `uplink_egress_return` on the
uplinks' egress. Each takes the node's maps and a packet and returns both with a verdict. A failed read or
call (`?` in the source) is `none`: the uplink programs answer it with `TC_ACT_OK`, `geneve_ingress` with
`TC_ACT_SHOT`.

The IPv4 and IPv6 siblings take the same steps over different header layouts; each is the common body at its
`Family`. Reading a packet and deciding whose it is comes first and writes nothing; what it comes to is said
once per program (`decapForwardAdmit`, `decapReturnAdmit`, `egressAdmit`), and the steps that write maps are
functions of their own.
-/

namespace Beep

variable [Host]

/-- `VNI_FWD`. -/
def vniFwd : UInt32 := 100
/-- `VNI_RET`. -/
def vniRet : UInt32 := 200
/-- `NO_L3_ETHERTYPE`. -/
def noL3Ethertype : UInt16 := 0

/-- Maps, packet and verdict of one program run; `none` is a failed `?`. -/
abbrev HookResult := Node × Skb × Option TcAction

/-! ## Tunnel metadata -/

/-- `set_tunnel_remote`. -/
def setTunnelRemote (nodeIp : Bytes 16) : TunnelRemote :=
  match unmapIpv4 nodeIp with
  | some v4 => .v4 v4
  | none => .v6 (Bytes.toWords Host.endian nodeIp)

/-- `tunnel_remote` of the key `get_tunnel_key` fills: the call for the family of the tunnel is the one
    that succeeds. -/
def tunnelRemote : TunnelRemote → Bytes 16
  | .v4 addr => tunnelRemoteAddr false addr #v[addr, 0, 0, 0]
  | .v6 words => tunnelRemoteAddr true words.head words

/-- What goes out as a tunnel remote comes back as the same address. -/
@[simp] theorem tunnelRemote_setTunnelRemote (nodeIp : Bytes 16) :
    tunnelRemote (setTunnelRemote nodeIp) = nodeIp := by
  unfold setTunnelRemote
  cases h : unmapIpv4 nodeIp with
  | some v4 => exact ipv4MappedV6_of_unmapIpv4 h
  | none => exact Bytes.ofWords_toWords _ nodeIp

/-- The Ethernet header `redirect_to_geneve` synthesizes for a packet that has none (`l3Ethertype` other than
    the sentinel). -/
def Edit.ethHeader (h : Helpers) (l3Ethertype : UInt16) : Edit := fun skb =>
  if l3Ethertype = noL3Ethertype then (skb, true)
  else if h .changeHead then
    Edit.store (h .storeEthertype) 12 (Host.endian.u16Bytes l3Ethertype)
      { skb with data := List.replicate ethHlen 0 ++ skb.data, linear := ethHlen + skb.linear }
  else (skb, false)

/-- `redirect_to_geneve`: stamps remote, VNI and option and redirects to `geneve0`. -/
def Skb.redirectToGeneve (skb : Skb) (h : Helpers) (geneveIfindex : UInt32) (remote : Bytes 16)
    (vni : UInt32) (opt : Bytes 24) (l3Ethertype : UInt16) : Skb × TcAction :=
  if !h .setTunnelKey then (skb, .shot)
  else
    let stamped : TunnelInfo := { remote := setTunnelRemote remote, tunnelId := vni, options := [] }
    let skb := { skb with stamped := some stamped }
    if !h .setTunnelOpt then (skb, .shot)
    else
      match Edit.ethHeader h l3Ethertype { skb with stamped := some { stamped with options := opt.toList } } with
      | (skb, false) => (skb, .shot)
      | (skb, true) => (skb, if h .redirect then .redirect geneveIfindex false else .shot)

/-! ## Hook 1: uplink ingress -/

/-- `IngressFlow`: what the parse hands to the steering and encapsulation. -/
structure IngressFlow where
  front : LbFrontKey
  clientIp : Bytes 16
  clientPort : UInt16
  ethertype : UInt16
  tcpFlags : UInt8
  deriving DecidableEq

/-- The version check of an uplink packet; IPv4 headers with options are left alone. -/
def Family.uplinkHeaderOk (ver : UInt8) : Family → Bool
  | .v4 => ver >>> 4 = 4 && ver &&& 0x0f = 5
  | .v6 => ver >>> 4 = 6

/-- Whether a protocol is one the dataplane handles. -/
def isFlowProto (proto : UInt8) : Bool := proto = ipprotoTcp || proto = ipprotoUdp

/-- The first byte of the IP header on an uplink: offset `0` cannot be read directly. -/
def loadVersion (skb : Skb) (l2Hlen : Nat) : Option UInt8 :=
  if l2Hlen = 0 then skb.load.u8 0 else skb.loadDirect.u8 l2Hlen

/-- The TCP flags byte of an uplink packet, `0` for any other protocol. -/
def ingressTcpFlags (skb : Skb) (proto : UInt8) (l4Off : Nat) : Option UInt8 :=
  if proto = ipprotoTcp then skb.loadDirect.u8 (l4Off + 13) else some 0

/-- The common body of `try_uplink_ingress_headers_v4` and `_v6`. -/
def uplinkIngressHeaders (fam : Family) (l2Hlen : Nat) (skb : Skb) : Option IngressFlow := do
  let ver ← loadVersion skb l2Hlen
  guard (fam.uplinkHeaderOk ver)
  let l4Off := l2Hlen + fam.ipHlen
  let proto ← skb.loadDirect.u8 (l2Hlen + fam.protoOff)
  guard (isFlowProto proto)
  let dstIp ← fam.loadAddr skb.loadDirect (l2Hlen + fam.dstOff)
  let dstPort ← skb.loadDirect.u16 (l4Off + 2)
  let srcIp ← fam.loadAddr skb.loadDirect (l2Hlen + fam.srcOff)
  let srcPort ← skb.loadDirect.u16 l4Off
  let tcpFlags ← ingressTcpFlags skb proto l4Off
  return { front := { frontIp := dstIp, frontPort := dstPort, proto, pad := 0 }
           clientIp := srcIp, clientPort := srcPort, ethertype := fam.ethertype, tcpFlags }

/-- `try_uplink_ingress_headers_v4`. -/
def tryUplinkIngressHeadersV4 (l2Hlen : Nat) (skb : Skb) : Option IngressFlow :=
  uplinkIngressHeaders .v4 l2Hlen skb

/-- `try_uplink_ingress_headers_v6`. -/
def tryUplinkIngressHeadersV6 (l2Hlen : Nat) (skb : Skb) : Option IngressFlow :=
  uplinkIngressHeaders .v6 l2Hlen skb

/-- The family of an uplink packet: by EtherType, or by IP version where there is no Ethernet header. -/
def uplinkFamily (l2Hlen : Nat) (skb : Skb) : Option (Option Family) :=
  if l2Hlen = ethHlen then (skb.loadDirect.u16 12).map Family.ofEthertype
  else (skb.load.u8 0).map fun (ver : UInt8) => Family.ofVersion (ver >>> 4)

/-- `try_uplink_ingress_headers`. -/
def tryUplinkIngressHeaders (l2Hlen : Nat) (skb : Skb) : Option IngressFlow :=
  match uplinkFamily l2Hlen skb with
  | some (some .v4) => tryUplinkIngressHeadersV4 l2Hlen skb
  | some (some .v6) => tryUplinkIngressHeadersV6 l2Hlen skb
  | _ => none

/-- `uplink_ingress_encap`. -/
def uplinkIngressEncap (n : Node) (h : Helpers) (skb : Skb) (ingressIfindex : UInt32) (flow : IngressFlow)
    (l3Only : Bool) : HookResult :=
  let key := flow.front
  let flowKey := encodeTcpFlowKey flow.clientIp flow.clientPort key.frontIp key.frontPort key.proto
  let fwdKey := encodeFlowKey flow.clientIp flow.clientPort key.frontIp key.frontPort key.proto .forward
  match n.ingressBackend h key flow.clientIp flow.clientPort flowKey fwdKey ingressIfindex flow.tcpFlags with
  | (n, .error verdict) => (n, skb, some verdict)
  | (n, .ok (backend, targetPort)) =>
      match n.config.map (·.geneveIfindex) with
      | none => (n, skb, none)
      | some geneveIfindex =>
          let (skb, verdict) := skb.redirectToGeneve h geneveIfindex backend.backendNodeIp vniFwd
            (encodePodIdOption backend.podIp targetPort) (if l3Only then flow.ethertype else noL3Ethertype)
          (n, skb, some verdict)

/-- The packet of a front an uplink delivered, with the header length of that uplink. -/
def ingressAdmit (n : Node) (skb : Skb) : Option (IngressFlow × Nat) :=
  match n.uplinkConfig.lookup skb.ingressIfindex with
  | none => none
  | some uplink =>
      let l2Hlen := uplink.l2Hlen.toNat
      if l2Hlen = 0 ∨ l2Hlen = ethHlen then
        (tryUplinkIngressHeaders l2Hlen skb).map fun flow => (flow, l2Hlen)
      else none

/-- `try_uplink_ingress`: a packet that is not a flow of a configured uplink passes. -/
def tryUplinkIngress (n : Node) (h : Helpers) (skb : Skb) : HookResult :=
  match ingressAdmit n skb with
  | some (flow, l2Hlen) => uplinkIngressEncap n h skb skb.ingressIfindex flow (l2Hlen = 0)
  | none => (n, skb, some .ok)

/-- `uplink_ingress`. -/
def uplinkIngress (n : Node) (h : Helpers) (skb : Skb) : Node × Skb × TcAction :=
  let (n, skb, verdict) := tryUplinkIngress n h skb
  (n, skb, verdict.getD .ok)

/-! ## Hooks 2 and 4: decapsulation on `geneve0` -/

/-- The addresses, ports and protocol of an inner packet. -/
structure InnerPacket where
  proto : UInt8
  srcIp : Bytes 16
  srcPort : UInt16
  dstIp : Bytes 16
  dstPort : UInt16
  deriving DecidableEq

/-- The header check on `geneve0`: IPv4 headers with options pass by. -/
def Family.innerHeaderOk (skb : Skb) : Family → Option Bool
  | .v4 => (skb.load.u8 ethHlen).map fun verIhl => verIhl &&& 0x0f = 5
  | .v6 => some true

/-- The reads both decapsulation paths begin with; `some none` for a packet that is not a flow's. -/
def parseInner (fam : Family) (skb : Skb) : Option (Option InnerPacket) := do
  let headerOk ← fam.innerHeaderOk skb
  if !headerOk then return none
  let proto ← skb.load.u8 (ethHlen + fam.protoOff)
  if !isFlowProto proto then return none
  let l4Off := ethHlen + fam.ipHlen
  let srcIp ← fam.loadAddr skb.load (ethHlen + fam.srcOff)
  let srcPort ← skb.load.u16 l4Off
  let dstIp ← fam.loadAddr skb.load (ethHlen + fam.dstOff)
  let dstPort ← skb.load.u16 (l4Off + 2)
  return some { proto, srcIp, srcPort, dstIp, dstPort }

/-- Reads the inner packet of a frame and acts on it; one that is not a flow's passes. -/
def withInner (n : Node) (skb : Skb) (fam : Family) (deliver : InnerPacket → HookResult) : HookResult :=
  match parseInner fam skb with
  | none => (n, skb, none)
  | some none => (n, skb, some .ok)
  | some (some inner) => deliver inner

/-- The result of the sibling the frame's EtherType names; any other EtherType passes. -/
def byEthertype (n : Node) (skb : Skb) (v4 v6 : HookResult) : HookResult :=
  match skb.load.u16 12 with
  | none => (n, skb, none)
  | some ethertype =>
      match Family.ofEthertype ethertype with
      | some .v4 => v4
      | some .v6 => v6
      | none => (n, skb, some .ok)

/-- A forward packet the backend node takes: its layout, its flow and the node it came from. -/
structure ForwardPacket where
  family : Family
  flow : ClientFlow
  ingressNodeIp : Bytes 16
  deriving DecidableEq

/-- The forward packet an inner packet is, given the pod its option names and the tunnel it came through. -/
def InnerPacket.toForward (inner : InnerPacket) (fam : Family) (info : TunnelInfo) (podIp : Bytes 16)
    (targetPort : UInt16) : ForwardPacket where
  family := fam
  flow :=
    { clientIp := inner.srcIp, clientPort := inner.srcPort, podIp, targetPort, proto := inner.proto
      frontIp := inner.dstIp, frontPort := inner.dstPort }
  ingressNodeIp := tunnelRemote info.remote

/-- The reverse row a forward packet commits. -/
def ForwardPacket.revValue (p : ForwardPacket) : RevFlowValue where
  ingressNodeIp := p.ingressNodeIp
  frontIp := p.flow.frontIp
  frontPort := p.flow.frontPort
  originalClientPort := p.flow.clientPort
  pad := 0
  flags := 0

/-- The map writes of `try_geneve_decap_forward_v4`/`_v6`: port, memo and reverse row. The TCP flags are read
    only after the memo is written. -/
def decapForwardCommit (n : Node) (h : Helpers) (skb : Skb) (p : ForwardPacket) :
    Node × Except (Option TcAction) UInt16 :=
  match n.resolvePort h p.flow with
  | .exhausted => (n, .error (some .shot))
  | .refused => (n, .error none)
  | .port n₁ revKey backendSrcPort =>
      match tcpFlagsDirect skb p.flow.proto (ethHlen + p.family.ipHlen) with
      | none => (n₁, .error none)
      | some tcpFlags =>
          match n₁.commitReverseRow h revKey p.revValue p.flow.proto tcpFlags with
          | none => (n₁, .error none)
          | some n₂ => (n₂, .ok backendSrcPort)

/-- The rewrites of a forward packet: source port, then destination address and port. -/
def decapForwardRewrite (h : Helpers) (p : ForwardPacket) (backendSrcPort : UInt16) : Edit :=
  let l4Off := ethHlen + p.family.ipHlen
  Edit.andThen
    (Edit.rewriteL4Port h l4Off l4Off p.flow.clientPort backendSrcPort p.flow.proto)
    (Edit.rewriteAddrPort h (ethHlen + p.family.dstOff) p.flow.frontIp p.flow.podIp (l4Off + 2)
      p.flow.frontPort p.flow.targetPort p.flow.proto p.family)

/-- What happens to a forward packet of a flow. -/
def deliverForward (n : Node) (h : Helpers) (skb : Skb) (p : ForwardPacket) : HookResult :=
  match decapForwardCommit n h skb p with
  | (n, .error verdict) => (n, skb, verdict)
  | (n, .ok backendSrcPort) =>
      match decapForwardRewrite h p backendSrcPort skb with
      | (skb, false) => (n, skb, none)
      | (skb, true) =>
          if h .changeType then (n, { skb with host := true }, some .ok) else (n, skb, some .shot)

/-- The common body of `try_geneve_decap_forward_v4` and `_v6`. -/
def geneveDecapForward (fam : Family) (n : Node) (h : Helpers) (skb : Skb) (info : TunnelInfo)
    (podIp : Bytes 16) (targetPort : UInt16) : HookResult :=
  withInner n skb fam fun inner => deliverForward n h skb (inner.toForward fam info podIp targetPort)

/-- `try_geneve_decap_forward_v4`. -/
def tryGeneveDecapForwardV4 := geneveDecapForward .v4

/-- `try_geneve_decap_forward_v6`. -/
def tryGeneveDecapForwardV6 := geneveDecapForward .v6

/-- The gates of `try_geneve_decap_forward`: a known peer, a whole pod option and a local pod. -/
def decapForwardGate (n : Node) (skb : Skb) (info : TunnelInfo) : Option (Bytes 16 × UInt16) :=
  match peerNodeAdmission (n.isNodeAllowed (tunnelRemote info.remote)) with
  | .drop => none
  | .continue =>
      match skb.getTunnelOpt with
      | none => none
      | some (len, opt) =>
          if len ≠ 24 then none
          else
            match decodePodIdOption opt with
            | none => none
            | some (podIp, targetPort) =>
                match decapForwardPodAdmission (n.isPodTarget podIp) with
                | .drop => none
                | .deliver => some (podIp, targetPort)

/-- `try_geneve_decap_forward`: a packet that does not pass the gates is dropped. -/
def tryGeneveDecapForward (n : Node) (h : Helpers) (skb : Skb) (info : TunnelInfo) : HookResult :=
  match decapForwardGate n skb info with
  | none => (n, skb, some .shot)
  | some (podIp, targetPort) =>
      byEthertype n skb (tryGeneveDecapForwardV4 n h skb info podIp targetPort)
        (tryGeneveDecapForwardV6 n h skb info podIp targetPort)

/-- A return packet the ingress node takes: its layout, the inner packet and the echoed front. -/
structure ReturnPacket where
  family : Family
  inner : InnerPacket
  frontIp : Bytes 16
  frontPort : UInt16

namespace ReturnPacket

/-- The `FWD_PENDING` key of the flow a return packet answers. -/
def flowKey (p : ReturnPacket) : TcpFlowKey :=
  encodeTcpFlowKey p.inner.dstIp p.inner.dstPort p.frontIp p.frontPort p.inner.proto

/-- Its `Forward` key. -/
def fwdKey (p : ReturnPacket) : FlowKey :=
  encodeFlowKey p.inner.dstIp p.inner.dstPort p.frontIp p.frontPort p.inner.proto .forward

end ReturnPacket

/-- `FWD_PENDING.remove`, its result ignored. -/
def Node.removePending (n : Node) (h : Helpers) (key : TcpFlowKey) : Node :=
  if h .pendingRemove then { n with fwdPending := n.fwdPending.erase key } else n

/-- The authorization of a return packet: an established row is touched, a pending one is promoted. -/
def Node.authorizeReturn (n : Node) (h : Helpers) (p : ReturnPacket) (tcpFlags : UInt8) :
    Node × Option ForwardFlowValue :=
  match n.flowTableGetForward p.fwdKey with
  | some value => (n.touchForwardRow h p.fwdKey value p.inner.proto tcpFlags .pod, some value)
  | none =>
      let pendingValue := n.fwdPending.lookup p.flowKey
      match returnAuthorization false pendingValue.isSome with
      | .drop | .established => (n, none)
      | .promote =>
          match pendingValue with
          | none => (n, none)
          | some value =>
              match flowStep none p.inner.proto tcpFlags .pod n.gcParity with
              | .skip => (n.removePending h p.flowKey, some value)
              | step =>
                  let value := { value with flags := step.flagsAfter value.flags }
                  if h .flowInsert then
                    ((n.flowTableInsert p.fwdKey (FlowValue.fromForward value)).removePending h p.flowKey,
                      some value)
                  else (n, none)

/-- `redirect_client_bound`: an Ethernet uplink resolves the neighbour. -/
def Node.redirectClientBound (n : Node) (h : Helpers) (ingressIfindex : UInt32) : Option TcAction :=
  match n.uplinkConfig.lookup ingressIfindex with
  | none => none
  | some uplink =>
      if h .redirect then some (.redirect ingressIfindex (uplink.l2Hlen.toNat = ethHlen)) else some .shot

/-- What happens to a return packet of a flow. -/
def deliverReturn (n : Node) (h : Helpers) (skb : Skb) (p : ReturnPacket) : HookResult :=
  let l4Off := ethHlen + p.family.ipHlen
  match tcpFlagsDirect skb p.inner.proto l4Off with
  | none => (n, skb, none)
  | some tcpFlags =>
      match n.authorizeReturn h p tcpFlags with
      | (n, none) => (n, skb, none)
      | (n, some forwardValue) =>
          match Edit.rewriteAddrPort h (ethHlen + p.family.srcOff) p.inner.srcIp p.frontIp l4Off
              p.inner.srcPort p.frontPort p.inner.proto p.family skb with
          | (skb, false) => (n, skb, none)
          | (skb, true) =>
              (n, { skb with mark := redirectedReturnMark },
                n.redirectClientBound h forwardValue.ingressIfindex)

/-- The common body of `try_geneve_decap_return_v4` and `_v6`. -/
def geneveDecapReturn (fam : Family) (n : Node) (h : Helpers) (skb : Skb) (frontIp : Bytes 16)
    (frontPort : UInt16) : HookResult :=
  withInner n skb fam fun inner => deliverReturn n h skb { family := fam, inner, frontIp, frontPort }

/-- `try_geneve_decap_return_v4`. -/
def tryGeneveDecapReturnV4 := geneveDecapReturn .v4

/-- `try_geneve_decap_return_v6`. -/
def tryGeneveDecapReturnV6 := geneveDecapReturn .v6

/-- The gates of `try_geneve_decap_return`: a known peer and a front echo. -/
def decapReturnGate (n : Node) (skb : Skb) (info : TunnelInfo) : Option (Bytes 16 × UInt16) :=
  match peerNodeAdmission (n.isNodeAllowed (tunnelRemote info.remote)) with
  | .drop => none
  | .continue => skb.getTunnelOpt.bind fun opt => decodeFrontEcho opt.2

/-- `try_geneve_decap_return`. -/
def tryGeneveDecapReturn (n : Node) (h : Helpers) (skb : Skb) (info : TunnelInfo) : HookResult :=
  match decapReturnGate n skb info with
  | none => (n, skb, some .shot)
  | some (frontIp, frontPort) =>
      byEthertype n skb (tryGeneveDecapReturnV4 n h skb frontIp frontPort)
        (tryGeneveDecapReturnV6 n h skb frontIp frontPort)

/-- `geneve_ingress`: one program for both directions, told apart by the VNI. -/
def geneveIngress (n : Node) (h : Helpers) (skb : Skb) : Node × Skb × TcAction :=
  match skb.received with
  | none => (n, skb, .ok)
  | some info =>
      if info.tunnelId = vniFwd then
        let (n, skb, verdict) := tryGeneveDecapForward n h skb info
        (n, skb, verdict.getD .shot)
      else if info.tunnelId = vniRet then
        let (n, skb, verdict) := tryGeneveDecapReturn n h skb info
        (n, skb, verdict.getD .shot)
      else (n, skb, .ok)

/-! ## Hook 3: uplink egress -/

/-- A pod's reply on an uplink: layout, header length, and the tuple it is looked up under. -/
structure ReplyPacket where
  family : Family
  l2Hlen : Nat
  podIp : Bytes 16
  targetPort : UInt16
  clientIp : Bytes 16
  backendDstPort : UInt16
  proto : UInt8

/-- The `Reverse` key a reply is looked up under. -/
def ReplyPacket.key (p : ReplyPacket) : FlowKey :=
  encodeFlowKey p.clientIp p.backendDstPort p.podIp p.targetPort p.proto .reverse

/-- The reads and gates of `try_uplink_egress_return_headers_v4` and `_v6`: only a packet from a backend pod
    of this node is looked up; `some none` for one that is not. -/
def egressHeaders (n : Node) (fam : Family) (l2Hlen : Nat) (skb : Skb) : Option (Option ReplyPacket) := do
  let ver ← loadVersion skb l2Hlen
  if !fam.uplinkHeaderOk ver then return none
  let l4Off := l2Hlen + fam.ipHlen
  let proto ← skb.loadDirect.u8 (l2Hlen + fam.protoOff)
  if !isFlowProto proto then return none
  let podIp ← fam.loadAddr skb.loadDirect (l2Hlen + fam.srcOff)
  match egressReturnAdmission (n.isPodTarget podIp) with
  | .notBackendTraffic => return none
  | .backendTraffic =>
      let targetPort ← skb.loadDirect.u16 l4Off
      let clientIp ← fam.loadAddr skb.loadDirect (l2Hlen + fam.dstOff)
      let backendDstPort ← skb.loadDirect.u16 (l4Off + 2)
      return some { family := fam, l2Hlen, podIp, targetPort, clientIp, backendDstPort, proto }

/-- What happens to a pod's reply: one with a reverse row is un-remapped and tunnelled to the node its flow
    came from, any other passes. -/
def tunnelReply (n : Node) (h : Helpers) (skb : Skb) (p : ReplyPacket) : HookResult :=
  let l4Off := p.l2Hlen + p.family.ipHlen
  let revLookup := n.flowTableGetReverse p.key
  match egressReturnOutcome revLookup.isSome with
  | .passThrough => (n, skb, some .ok)
  | .forward =>
      match revLookup with
      | none => (n, skb, none)
      | some rev =>
          match tcpFlagsDirect skb p.proto l4Off with
          | none => (n, skb, none)
          | some tcpFlags =>
              let n := n.touchReturnRow h p.key rev p.proto tcpFlags
              match Edit.rewriteL4Port h l4Off (l4Off + 2) p.backendDstPort rev.originalClientPort p.proto
                  skb with
              | (skb, false) => (n, skb, none)
              | (skb, true) =>
                  match n.config.map (·.geneveIfindex) with
                  | none => (n, skb, none)
                  | some geneveIfindex =>
                      let (skb, verdict) := skb.redirectToGeneve h geneveIfindex rev.ingressNodeIp vniRet
                        (encodeFrontEcho rev.frontIp rev.frontPort)
                        (if p.l2Hlen = 0 then p.family.ethertype else noL3Ethertype)
                      (n, skb, some verdict)

/-- The common body of `try_uplink_egress_return_headers_v4` and `_v6`. -/
def uplinkEgressReply (fam : Family) (l2Hlen : Nat) (n : Node) (h : Helpers) (skb : Skb) : HookResult :=
  match egressHeaders n fam l2Hlen skb with
  | none => (n, skb, none)
  | some none => (n, skb, some .ok)
  | some (some p) => tunnelReply n h skb p

/-- `try_uplink_egress_return_headers_v4`. -/
def tryUplinkEgressReturnHeadersV4 := uplinkEgressReply .v4

/-- `try_uplink_egress_return_headers_v6`. -/
def tryUplinkEgressReturnHeadersV6 := uplinkEgressReply .v6

/-- `try_uplink_egress_return_headers`. -/
def tryUplinkEgressReturnHeaders (l2Hlen : Nat) (n : Node) (h : Helpers) (skb : Skb) : HookResult :=
  match uplinkFamily l2Hlen skb with
  | none => (n, skb, none)
  | some none => (n, skb, some .ok)
  | some (some .v4) => tryUplinkEgressReturnHeadersV4 l2Hlen n h skb
  | some (some .v6) => tryUplinkEgressReturnHeadersV6 l2Hlen n h skb

/-- `try_uplink_egress_return`: the packet that return decapsulation redirected here passes, unmarked. -/
def tryUplinkEgressReturn (n : Node) (h : Helpers) (skb : Skb) : HookResult :=
  if isRedirectedReturnMark skb.mark then (n, { skb with mark := 0 }, some .ok)
  else
    match n.uplinkConfig.lookup skb.ifindex with
    | none => (n, skb, none)
    | some uplink =>
        let l2Hlen := uplink.l2Hlen.toNat
        if l2Hlen = 0 ∨ l2Hlen = ethHlen then tryUplinkEgressReturnHeaders l2Hlen n h skb
        else (n, skb, some .ok)

/-- `uplink_egress_return`. -/
def uplinkEgressReturn (n : Node) (h : Helpers) (skb : Skb) : Node × Skb × TcAction :=
  let (n, skb, verdict) := tryUplinkEgressReturn n h skb
  (n, skb, verdict.getD .ok)

/-! ## Which packets reach the maps -/

/-- The family of a frame on `geneve0` and its inner packet, if it is a flow's. -/
def innerPacket (skb : Skb) : Option (Family × InnerPacket) := do
  let fam ← Family.ofEthertype (← skb.load.u16 12)
  let inner ← (← parseInner fam skb)
  return (fam, inner)

/-- The forward packet a frame on `geneve0` is, if the backend node takes it. -/
def decapForwardAdmit (n : Node) (skb : Skb) : Option ForwardPacket := do
  let info ← skb.received
  guard (info.tunnelId = vniFwd)
  let (podIp, targetPort) ← decapForwardGate n skb info
  let (fam, inner) ← innerPacket skb
  return inner.toForward fam info podIp targetPort

/-- The return packet a frame on `geneve0` is, if the ingress node takes it. -/
def decapReturnAdmit (n : Node) (skb : Skb) : Option ReturnPacket := do
  let info ← skb.received
  guard (info.tunnelId = vniRet)
  let (frontIp, frontPort) ← decapReturnGate n skb info
  let (family, inner) ← innerPacket skb
  return { family, inner, frontIp, frontPort }

/-- The reply a packet on an uplink's egress is, if it comes from a backend pod of the node. -/
def egressAdmit (n : Node) (skb : Skb) : Option ReplyPacket := do
  guard (!isRedirectedReturnMark skb.mark)
  let uplink ← n.uplinkConfig.lookup skb.ifindex
  let l2Hlen := uplink.l2Hlen.toNat
  guard (l2Hlen = 0 ∨ l2Hlen = ethHlen)
  let fam ← (← uplinkFamily l2Hlen skb)
  (← egressHeaders n fam l2Hlen skb)

end Beep
