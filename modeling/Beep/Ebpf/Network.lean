import Beep.Ebpf.Frames
import Beep.Ebpf.Tunnel

/-!
# `Ebpf.Network` — the nodes and the tunnel between them

A cluster is a set of nodes with tunnel addresses, one of which the clients' packets arrive at. Its state is
the maps of every node and what has been observed so far: the packets put into the tunnel, the clients'
packets that were answered and the packets handed to pods. A step is an event at one node. The tunnel may lose,
repeat and reorder: a packet that was sent once may come out at its destination at any later step.
-/

namespace Beep

variable [Host] {ι : Type*} [DecidableEq ι]

/-- A packet in the tunnel: outer addresses, VNI, options and the inner frame. -/
structure TunnelPacket where
  src : Bytes 16
  dst : Bytes 16
  vni : UInt32
  options : List UInt8
  data : List UInt8

/-- A client's packet that was answered with an endpoint, and the uplink it came in on. -/
structure Admission where
  flow : IngressFlow
  answer : LbFrontBackend × UInt16
  ifindex : UInt32

/-- The flow of an answered packet, as its backend node sees it. -/
def Admission.clientFlow (a : Admission) : ClientFlow where
  clientIp := a.flow.clientIp
  clientPort := a.flow.clientPort
  podIp := a.answer.1.podIp
  targetPort := a.answer.2
  proto := a.flow.front.proto
  frontIp := a.flow.front.frontIp
  frontPort := a.flow.front.frontPort

/-- A packet handed to a pod, with the flow it was taken for. -/
structure Delivery (ι : Type*) where
  node : ι
  flow : ClientFlow
  skb : Skb

/-- The tunnel address of each node, and the node the clients' packets arrive at. -/
structure Cluster (ι : Type*) where
  addr : ι → Bytes 16
  ingress : ι

/-- The maps of every node, and what has been observed. -/
structure Network (ι : Type*) where
  node : ι → Node
  sent : List TunnelPacket
  admitted : List Admission
  delivered : List (Delivery ι)

/-! ## What one event at one node shows -/

/-- What a redirect to `geneve0` puts into the tunnel. -/
def tunnelled (src : Bytes 16) (skb : Skb) : TcAction → Option TunnelPacket
  | .redirect _ _ => skb.stamped.map fun info =>
      { src, dst := tunnelRemote info.remote, vni := info.tunnelId, options := info.options, data := skb.data }
  | _ => none

/-- The tunnel packet an event sends. -/
def Node.sends (n : Node) (src : Bytes 16) : NodeEvent → Option TunnelPacket
  | .uplinkIngress skb h => tunnelled src (uplinkIngress n h skb).2.1 (uplinkIngress n h skb).2.2
  | .uplinkEgress skb h => tunnelled src (uplinkEgressReturn n h skb).2.1 (uplinkEgressReturn n h skb).2.2
  | _ => none

/-- The answer `ingress_backend` gives to an event. -/
def Node.admits (n : Node) : NodeEvent → Option Admission
  | .uplinkIngress skb h =>
      match ingressAdmit n skb with
      | none => none
      | some (flow, _) =>
          match (n.steer h flow skb.ingressIfindex).2 with
          | .ok answer => some { flow, answer, ifindex := skb.ingressIfindex }
          | .error _ => none
  | _ => none

/-- The packet an event hands to a pod. -/
def Node.delivers (n : Node) (i : ι) : NodeEvent → Option (Delivery ι)
  | .geneveIngress skb h =>
      match decapForwardAdmit n skb with
      | none => none
      | some p =>
          if (geneveIngress n h skb).2.2 = .ok then
            some { node := i, flow := p.flow, skb := (geneveIngress n h skb).2.1 }
          else none
  | _ => none

/-! ## Steps -/

/-- An event at one node. -/
structure NetEvent (ι : Type*) where
  place : ι
  event : NodeEvent

/-- The network after an event. -/
def Network.step (c : Cluster ι) (net : Network ι) (e : NetEvent ι) : Network ι where
  node := Function.update net.node e.place ((net.node e.place).step e.event)
  sent := net.sent ++ ((net.node e.place).sends (c.addr e.place) e.event).toList
  admitted := net.admitted ++ ((net.node e.place).admits e.event).toList
  delivered := net.delivered ++ ((net.node e.place).delivers e.place e.event).toList

/-- What comes out of the tunnel for a packet that was put into it. -/
def TunnelPacket.ArrivesAs (m : TunnelPacket) (skb : Skb) : Prop :=
  skb.data = m.data ∧ ∃ info, skb.received = some info ∧ tunnelRemote info.remote = m.src ∧
    info.tunnelId = m.vni ∧ info.options = m.options

/-- A flow's packet on an uplink, in or out, that is a reset. -/
def NodeEvent.CarriesRst (n : Node) : NodeEvent → Prop
  | .uplinkIngress skb _ => ∃ f l2Hlen, ingressAdmit n skb = some (f, l2Hlen) ∧ IsRst f.front.proto f.tcpFlags
  | .uplinkEgress skb _ => ∃ p tcpFlags, egressAdmit n skb = some p ∧
      tcpFlagsDirect skb p.proto (p.l2Hlen + p.family.ipHlen) = some tcpFlags ∧ IsRst p.proto tcpFlags
  | _ => False

/-- The steps of a run over a set of flows: the clients' packets arrive at the ingress node and are packets
    of these flows, what comes out of the tunnel was put into it for the node, no packet is a reset, no row is
    dropped, and the controller rewrites nothing but front maps and `CONFIG`. -/
def NetEvent.Allowed (c : Cluster ι) (flows : ClientFlow → Prop) (net : Network ι) (e : NetEvent ι) : Prop :=
  match e.event with
  | .uplinkIngress _ _ => e.place = c.ingress ∧ ¬ e.event.CarriesRst (net.node e.place) ∧
      ∀ a, (net.node e.place).admits e.event = some a → flows a.clientFlow
  | .geneveIngress skb _ => ∃ m ∈ net.sent, m.dst = c.addr e.place ∧ m.ArrivesAs skb
  | .uplinkEgress _ _ => ¬ e.event.CarriesRst (net.node e.place)
  | .setFronts _ _ | .setConfig _ => True
  | _ => False

/-- Where a run starts: no rows, nothing observed, every node configured, and every node a peer of the
    ingress node. -/
structure Network.Initial (c : Cluster ι) (net : Network ι) : Prop where
  flowTable : ∀ i key, (net.node i).flowTable.lookup key = none
  fwdPending : ∀ i key, (net.node i).fwdPending.lookup key = none
  config : ∀ i, (net.node i).config ≠ none
  peers : ∀ i, (net.node c.ingress).isNodeAllowed (c.addr i) = true
  sent : net.sent = []
  admitted : net.admitted = []
  delivered : net.delivered = []

/-- The first packet of a flow that was answered. -/
def Network.firstAdmission (net : Network ι) (key : TcpFlowKey) : Option Admission :=
  net.admitted.find? fun a => a.flow.flowKey = key

/-! ## Replies -/

/-- Source and destination swapped. -/
def InnerPacket.swap (q : InnerPacket) : InnerPacket where
  proto := q.proto
  srcIp := q.dstIp
  srcPort := q.dstPort
  dstIp := q.srcIp
  dstPort := q.srcPort

/-- The packet `r` a pod sends on a configured uplink of the node answers the packet `d` it was handed: source
    and destination swapped, headers whole, no reset. -/
def IsReply (n : Node) (d r : Skb) : Prop :=
  isRedirectedReturnMark r.mark = false ∧
    ∃ uplink fam q f, n.uplinkConfig.lookup r.ifindex = some uplink ∧
      (uplink.l2Hlen.toNat = 0 ∨ uplink.l2Hlen.toNat = ethHlen) ∧ innerPacket d = some (fam, q) ∧
      uplinkFamily uplink.l2Hlen.toNat r = some (some fam) ∧
      uplinkIngressHeaders fam uplink.l2Hlen.toNat r = some f ∧ f.packet = q.swap ∧
      ¬ IsRst f.front.proto f.tcpFlags ∧
      uplink.l2Hlen.toNat + fam.ipHlen + Edit.l4Hlen f.front.proto ≤ r.data.length

end Beep
