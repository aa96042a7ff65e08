import Beep.Ebpf.Messages
import Beep.Controller.Desired

/-!
# `Controller.Correctness.KeyAgreement` — the keys the controller writes and the hooks look up

An address is in the same 16 bytes in two conventions: the maps of fronts and pods have an IPv4 address as it
stands in a packet (`wireIpV6`), the tunnel's remotes and the peers as the number it is (`tunnelRemoteV6`).
Both are stated against what is on the wire, an address in network order: the hooks' reads give the
controller's keys there, and the kernel's conversion of `remote_ipv4` on both ends of the tunnel is the one
`tunnelRemoteV6` is made for.
-/

/-- An address as a header has it. -/
inductive NetworkAddr where
  | v4 (bytes : Bytes 4)
  | v6 (bytes : Bytes 16)
  deriving DecidableEq

namespace IpAddr

/-- An address in network order. -/
def inNetworkOrder : IpAddr → NetworkAddr
  | .v4 bits => .v4 (Endian.big.u32Bytes bits)
  | .v6 octets => .v6 octets

/-! The zeros and the ones of the mapped prefix. -/

theorem mappedZeros_fit : 0 + 10 ≤ 16 := by decide
theorem mappedOnes_fit : 10 + 2 ≤ 16 := by decide

/-- The prefix `::ffff:0:0/96`. -/
def HasMappedPrefix (octets : Bytes 16) : Prop :=
  Bytes.slice octets 0 10 mappedZeros_fit = Vector.replicate 10 0 ∧
    Bytes.slice octets 10 2 mappedOnes_fit = Vector.replicate 2 0xff

/-- No IPv4-mapped IPv6 address. -/
def Unmapped (ip : IpAddr) : Prop := ∀ octets, ip = .v6 octets → ¬ HasMappedPrefix octets

end IpAddr

namespace Beep

variable [Host]

/-! ## The two conventions -/

theorem unmapIpv4_eq_none {octets : Bytes 16} : unmapIpv4 octets = none ↔ ¬ IpAddr.HasMappedPrefix octets := by
  unfold unmapIpv4 IpAddr.HasMappedPrefix
  split
  · rename_i hmapped
    refine ⟨fun h => ?_, fun h => absurd hmapped h⟩
    cases h
  · rename_i hother
    exact ⟨fun _ => hother, fun _ => rfl⟩

theorem wireIp_inj {x y : UInt32} : wireIp x = wireIp y ↔ x = y := by
  refine ⟨fun h => ?_, fun h => h ▸ rfl⟩
  have hbytes := congrArg Host.endian.u32Bytes h
  rw [wireIp, wireIp, Endian.u32Bytes_u32OfBytes, Endian.u32Bytes_u32OfBytes] at hbytes
  exact (Endian.big.u32Bytes_inj).mp hbytes

/-- An embedded IPv4 address is no IPv6 address of its own. -/
theorem ipv4MappedV6_ne {x : UInt32} {octets : Bytes 16} (h : ¬ IpAddr.HasMappedPrefix octets) :
    ipv4MappedV6 x ≠ octets := by
  rintro rfl
  have hnone := unmapIpv4_eq_none.mpr h
  rw [unmapIpv4_ipv4MappedV6] at hnone
  cases hnone

/-- A convention for IPv4 addresses that confuses no two of them confuses no two addresses. -/
theorem embedded_inj {key : IpAddr → Bytes 16} (token : UInt32 → UInt32)
    (hv4 : ∀ bits, key (.v4 bits) = ipv4MappedV6 (token bits)) (hv6 : ∀ octets, key (.v6 octets) = octets)
    (htoken : ∀ x y, token x = token y → x = y) {a b : IpAddr} (ha : a.Unmapped) (hb : b.Unmapped)
    (h : key a = key b) : a = b := by
  cases a with
  | v4 x =>
    cases b with
    | v4 y =>
      rw [hv4, hv4, ipv4MappedV6_inj] at h
      rw [htoken x y h]
    | v6 octets =>
      rw [hv4, hv6] at h
      exact absurd h (ipv4MappedV6_ne (hb octets rfl))
  | v6 octets =>
    cases b with
    | v4 y =>
      rw [hv4, hv6] at h
      exact absurd h.symm (ipv4MappedV6_ne (ha octets rfl))
    | v6 octets' =>
      rw [hv6, hv6] at h
      rw [h]

theorem wireIpV6_inj {a b : IpAddr} (ha : a.Unmapped) (hb : b.Unmapped) (h : wireIpV6 a = wireIpV6 b) : a = b :=
  embedded_inj wireIp (fun _ => rfl) (fun _ => rfl) (fun _ _ => wireIp_inj.mp) ha hb h

theorem tunnelRemoteV6_inj {a b : IpAddr} (ha : a.Unmapped) (hb : b.Unmapped)
    (h : tunnelRemoteV6 a = tunnelRemoteV6 b) : a = b :=
  embedded_inj id (fun _ => rfl) (fun _ => rfl) (fun _ _ => id) ha hb h

/-! ## Reads -/

/-- The address bytes of a header. -/
def Family.networkAddr (load : Loader) (off : Nat) : Family → Option NetworkAddr
  | .v4 => (load off 4).map .v4
  | .v6 => (load off 16).map .v6

omit [Host] in
theorem v4_of_networkAddr {load : Loader} {off : Nat} {fam : Family} {bytes : Bytes 4}
    (h : fam.networkAddr load off = some (.v4 bytes)) : fam = .v4 ∧ load off 4 = some bytes := by
  cases fam with
  | v4 =>
    obtain ⟨b, hb, heq⟩ := Option.map_eq_some_iff.mp h
    cases heq
    exact ⟨rfl, hb⟩
  | v6 =>
    obtain ⟨b, _, heq⟩ := Option.map_eq_some_iff.mp h
    cases heq

omit [Host] in
theorem v6_of_networkAddr {load : Loader} {off : Nat} {fam : Family} {bytes : Bytes 16}
    (h : fam.networkAddr load off = some (.v6 bytes)) : fam = .v6 ∧ load off 16 = some bytes := by
  cases fam with
  | v4 =>
    obtain ⟨b, _, heq⟩ := Option.map_eq_some_iff.mp h
    cases heq
  | v6 =>
    obtain ⟨b, hb, heq⟩ := Option.map_eq_some_iff.mp h
    cases heq
    exact ⟨rfl, hb⟩

/-- **Addresses.** What a hook reads where a packet has the address is the controller's key of it. -/
theorem loadAddr_of_networkAddr {load : Loader} {off : Nat} {fam : Family} {ip : IpAddr}
    (h : fam.networkAddr load off = some ip.inNetworkOrder) : fam.loadAddr load off = some (wireIpV6 ip) := by
  cases ip with
  | v4 bits =>
    obtain ⟨rfl, hload⟩ := v4_of_networkAddr h
    exact Option.map_eq_some_iff.mpr ⟨_, hload, rfl⟩
  | v6 octets =>
    obtain ⟨rfl, hload⟩ := v6_of_networkAddr h
    exact hload

/-- **Ports.** -/
theorem u16_of_networkPort {load : Loader} {off : Nat} {port : UInt16}
    (h : load off 2 = some (Endian.big.u16Bytes port)) : load.u16 off = some (wirePort port) :=
  Option.map_eq_some_iff.mpr ⟨_, h, rfl⟩

/-- The packet goes to this address and port. -/
structure SentTo (skb : Skb) (fam : Family) (ipOff : Nat) (ip : IpAddr) (port : UInt16) : Prop where
  dst : fam.networkAddr skb.load (ipOff + fam.dstOff) = some ip.inNetworkOrder
  dstPort : skb.load (ipOff + fam.ipHlen + 2) 2 = some (Endian.big.u16Bytes port)

/-- **Fronts.** The key of a packet is the controller's key of the address, the port and the protocol it has. -/
theorem front_eq_frontKey {n : Node} {skb : Skb} {f : IngressFlow} {l2Hlen : Nat} {fam : Family} {ip : IpAddr}
    {port : UInt16} {protocol : Protocol} (hadm : ingressAdmit n skb = some (f, l2Hlen))
    (hfam : uplinkFamily l2Hlen skb = some (some fam)) (hsent : SentTo skb fam l2Hlen ip port)
    (hproto : skb.load.u8 (l2Hlen + fam.protoOff) = some protocol.asIpProto) :
    f.front = frontKey ip port protocol := by
  obtain ⟨_, _, _, _, hparse⟩ := ingressAdmit_eq_some.mp hadm
  obtain ⟨fam', hfam', hpacket⟩ := tryUplinkIngressHeaders_eq_some.mp hparse
  obtain rfl : fam = fam' := by
    rw [hfam, Option.some_inj, Option.some_inj] at hfam'
    exact hfam'
  have hcarries := (refines_loadDirect skb l2Hlen).carries hpacket.frame.carries
  have hip := Option.some_inj.mp (hcarries.dstIp.symm.trans (loadAddr_of_networkAddr hsent.dst))
  have hport := Option.some_inj.mp (hcarries.dstPort.symm.trans (u16_of_networkPort hsent.dstPort))
  have hproto' := Option.some_inj.mp (hcarries.proto.symm.trans hproto)
  have hpad := hpacket.pad
  obtain ⟨⟨frontIp, frontPort, proto, pad⟩, _, _, _, _⟩ := f
  simp only [IngressFlow.packet] at hip hport hproto' hpad
  unfold frontKey
  rw [hip, hport, hproto', hpad]

/-- **Pods, from the pod.** The packet of a pod is looked up under the controller's key of it. -/
theorem srcIp_eq_wireIpV6 {fam : Family} {l2Hlen : Nat} {skb : Skb} {q : InnerPacket} {ip : IpAddr}
    (hframe : UplinkFrame fam l2Hlen skb q)
    (hsrc : fam.networkAddr skb.load (l2Hlen + fam.srcOff) = some ip.inNetworkOrder) : q.srcIp = wireIpV6 ip :=
  Option.some_inj.mp ((((refines_loadDirect skb l2Hlen).carries hframe.carries).srcIp).symm.trans
    (loadAddr_of_networkAddr hsrc))

theorem egressHeaders_isPodTarget {n : Node} {fam : Family} {l2Hlen : Nat} {skb : Skb} {q : InnerPacket}
    (hframe : UplinkFrame fam l2Hlen skb q) :
    (∃ p, egressHeaders n fam l2Hlen skb = some (some p)) ↔ n.isPodTarget q.srcIp = true := by
  constructor
  · rintro ⟨p, hp⟩
    obtain ⟨hframe', _, _, htarget⟩ := egressHeaders_eq_some.mp hp
    rw [hframe.carries.unique hframe'.carries]
    exact htarget
  · intro htarget
    exact ⟨⟨fam, l2Hlen, q.srcIp, q.srcPort, q.dstIp, q.dstPort, q.proto⟩,
      egressHeaders_eq_some.mpr ⟨hframe, rfl, rfl, htarget⟩⟩

/-- **Pods, from the tunnel.** What is stamped for a pod is what is looked up where it arrives. -/
theorem decapForwardGate_podIdOption {n : Node} {skb : Skb} {info : TunnelInfo} {podIp : Bytes 16}
    {targetPort : UInt16} (hinfo : skb.received = some info)
    (hopt : info.options = (encodePodIdOption podIp targetPort).toList) :
    decapForwardGate n skb info =
      if n.isNodeAllowed (tunnelRemote info.remote) && n.isPodTarget podIp then some (podIp, targetPort)
      else none := by
  unfold decapForwardGate peerNodeAdmission
  cases hallowed : n.isNodeAllowed (tunnelRemote info.remote) with
  | false => simp
  | true =>
    cases htarget : n.isPodTarget podIp with
    | false => simp [getTunnelOpt_of_options hinfo hopt, decapForwardPodAdmission, htarget]
    | true => simp [getTunnelOpt_of_options hinfo hopt, decapForwardPodAdmission, htarget]

/-! ## The tunnel -/

/-- `bpf_skb_set_tunnel_key`: `remote_ipv4` goes from host to network order, `remote_ipv6` as it is in memory. -/
def outerDestination : TunnelRemote → NetworkAddr
  | .v4 addr => .v4 (Endian.big.u32Bytes addr)
  | .v6 words => .v6 (Bytes.ofWords Host.endian words)

/-- `bpf_skb_get_tunnel_key`: the outer source, `remote_ipv4` from network to host order. -/
def remoteOfSource : NetworkAddr → TunnelRemote
  | .v4 bytes => .v4 (Endian.big.u32OfBytes bytes)
  | .v6 bytes => .v6 (Bytes.toWords Host.endian bytes)

/-- **To a node.** -/
theorem outerDestination_tunnelRemoteV6 {ip : IpAddr} (h : ip.Unmapped) :
    outerDestination (setTunnelRemote (tunnelRemoteV6 ip)) = ip.inNetworkOrder := by
  cases ip with
  | v4 bits => simp [setTunnelRemote, tunnelRemoteV6, outerDestination, IpAddr.inNetworkOrder]
  | v6 octets =>
    have hnone := unmapIpv4_eq_none.mpr (h octets rfl)
    simp [setTunnelRemote, tunnelRemoteV6, outerDestination, IpAddr.inNetworkOrder, hnone]

/-- **From a node.** -/
theorem tunnelRemote_remoteOfSource (ip : IpAddr) :
    tunnelRemote (remoteOfSource ip.inNetworkOrder) = tunnelRemoteV6 ip := by
  cases ip with
  | v4 bits => simp [remoteOfSource, tunnelRemote, tunnelRemoteV6, tunnelRemoteAddr, IpAddr.inNetworkOrder]
  | v6 octets => simp [remoteOfSource, tunnelRemote, tunnelRemoteV6, tunnelRemoteAddr, IpAddr.inNetworkOrder]

/-! ## Agreement -/

/-- **The controller's keys are the dataplane's.** -/
theorem keys_agree :
    (∀ n skb f l2Hlen fam ip port protocol, ingressAdmit n skb = some (f, l2Hlen) →
      uplinkFamily l2Hlen skb = some (some fam) → SentTo skb fam l2Hlen ip port →
      skb.load.u8 (l2Hlen + fam.protoOff) = some (Protocol.asIpProto protocol) →
      f.front = frontKey ip port protocol) ∧
    (∀ n fam l2Hlen skb q ip, UplinkFrame fam l2Hlen skb q →
      fam.networkAddr skb.load (l2Hlen + fam.srcOff) = some (IpAddr.inNetworkOrder ip) →
      ((∃ p, egressHeaders n fam l2Hlen skb = some (some p)) ↔ n.isPodTarget (wireIpV6 ip) = true) ∧
        ∀ p, egressHeaders n fam l2Hlen skb = some (some p) → p.podIp = wireIpV6 ip) ∧
    (∀ n skb info ip port, skb.received = some info →
      info.options = (encodePodIdOption (wireIpV6 ip) (wirePort port)).toList →
      decapForwardGate n skb info =
        if n.isNodeAllowed (tunnelRemote info.remote) && n.isPodTarget (wireIpV6 ip) then
          some (wireIpV6 ip, wirePort port)
        else none) ∧
    (∀ skb skb' h geneveIfindex ifindex vni opt l3Ethertype neigh ip, IpAddr.Unmapped ip →
      Skb.redirectToGeneve skb h geneveIfindex (tunnelRemoteV6 ip) vni opt l3Ethertype =
        (skb', .redirect ifindex neigh) →
      skb'.stamped.map (fun info => outerDestination info.remote) = some ip.inNetworkOrder) ∧
    (∀ skb info ip, Skb.received skb = some info → info.remote = remoteOfSource (IpAddr.inNetworkOrder ip) →
      tunnelRemote info.remote = tunnelRemoteV6 ip) ∧
    (∀ (s : WatchState) name addrs ip, s.nodeIps.lookup name = some addrs → ip ∈ addrs.underlay →
      tunnelRemoteV6 ip ∈ s.nodeAllow) ∧
    (∀ a b, IpAddr.Unmapped a → IpAddr.Unmapped b → wireIpV6 a = wireIpV6 b → a = b) ∧
    ∀ a b, IpAddr.Unmapped a → IpAddr.Unmapped b → tunnelRemoteV6 a = tunnelRemoteV6 b → a = b := by
  refine ⟨?_, ?_, ?_, ?_, ?_, ?_, fun _ _ => wireIpV6_inj, fun _ _ => tunnelRemoteV6_inj⟩
  · intro n skb f l2Hlen fam ip port protocol hadm hfam hsent hproto
    exact front_eq_frontKey hadm hfam hsent hproto
  · intro n fam l2Hlen skb q ip hframe hsrc
    have hkey := srcIp_eq_wireIpV6 hframe hsrc
    refine ⟨hkey ▸ egressHeaders_isPodTarget hframe, fun p hp => ?_⟩
    obtain ⟨hframe', _, _, _⟩ := egressHeaders_eq_some.mp hp
    exact srcIp_eq_wireIpV6 hframe' hsrc
  · intro n skb info ip port hinfo hopt
    exact decapForwardGate_podIdOption hinfo hopt
  · intro skb skb' h geneveIfindex ifindex vni opt l3Ethertype neigh ip hip hres
    obtain ⟨hstamped, _⟩ := redirectToGeneve_redirect hres
    rw [hstamped, Option.map_some, outerDestination_tunnelRemoteV6 hip]
  · intro skb info ip _ hremote
    rw [hremote, tunnelRemote_remoteOfSource]
  · intro s name addrs ip hname hip
    exact s.mem_nodeAllow.mpr ⟨name, addrs, ip, hname, hip, rfl⟩

end Beep
