import Beep.Ebpf.Wire

/-!
# `Ebpf.Tunnel` — from one end of the tunnel to the other

A packet an uplink program hands to `redirect_to_geneve` gets an Ethernet header if it has none, and the
metadata for the other end. What comes out there says the same (`FramedFrom`), and the option decodes to what
was encoded; the gates of the two decapsulation paths are stated for such packets.
-/

namespace Beep

variable [Host]

/-! ## Replies -/

/-- What a pod's reply says. -/
def ReplyPacket.packet (p : ReplyPacket) : InnerPacket where
  proto := p.proto
  srcIp := p.podIp
  srcPort := p.targetPort
  dstIp := p.clientIp
  dstPort := p.backendDstPort

/-- A packet that is read as a reply: a flow's packet that comes from a backend pod of the node. -/
theorem egressHeaders_eq_some {n : Node} {fam : Family} {l2Hlen : Nat} {skb : Skb} {p : ReplyPacket} :
    egressHeaders n fam l2Hlen skb = some (some p) ↔
      UplinkFrame fam l2Hlen skb p.packet ∧ p.family = fam ∧ p.l2Hlen = l2Hlen ∧
        n.isPodTarget p.podIp = true := by
  simp only [egressHeaders, Option.bind_eq_bind, Option.bind_eq_some_iff, Option.pure_def]
  constructor
  · rintro ⟨ver, hver, h⟩
    cases hok : fam.uplinkHeaderOk ver with
    | false => simp [hok] at h
    | true =>
      simp only [hok, Bool.not_true, Bool.false_eq_true, if_false, Option.bind_eq_some_iff] at h
      obtain ⟨proto, hproto, h⟩ := h
      cases hflow : isFlowProto proto with
      | false => simp [hflow] at h
      | true =>
        simp only [hflow, Bool.not_true, Bool.false_eq_true, if_false, Option.bind_eq_some_iff] at h
        obtain ⟨podIp, hpod, h⟩ := h
        cases htarget : n.isPodTarget podIp with
        | false => simp [egressReturnAdmission, htarget] at h
        | true =>
          simp only [egressReturnAdmission, htarget, if_true, Option.bind_eq_some_iff, Option.some.injEq] at h
          obtain ⟨targetPort, hport, clientIp, hclient, dstPort, hdst, rfl⟩ := h
          exact ⟨⟨⟨ver, hver, hok⟩, hflow, hproto, hpod, hport, hclient, hdst⟩, rfl, rfl, htarget⟩
  · rintro ⟨⟨⟨ver, hver, hok⟩, hflow, hq⟩, rfl, rfl, htarget⟩
    refine ⟨ver, hver, ?_⟩
    simp only [hok, Bool.not_true, Bool.false_eq_true, if_false, Option.bind_eq_some_iff]
    refine ⟨_, hq.proto, ?_⟩
    simp only [hflow, Bool.not_true, Bool.false_eq_true, if_false, Option.bind_eq_some_iff]
    refine ⟨_, hq.srcIp, ?_⟩
    simp only [egressReturnAdmission, ReplyPacket.packet, htarget, if_true, Option.bind_eq_some_iff]
    exact ⟨_, hq.srcPort, _, hq.dstIp, _, hq.dstPort, rfl⟩

/-! ## Framing -/

/-- The frame says from offset `ethHlen` on what the packet says behind its own header, and names the family. -/
structure FramedFrom (fam : Family) (l2Hlen : Nat) (skb frame : Skb) : Prop where
  load : Refines skb.load frame.load l2Hlen ethHlen
  ethertype : frame.load.u16 12 = some fam.ethertype
  length : frame.data.length + l2Hlen = skb.data.length + ethHlen

omit [Host] in
/-- Behind 14 bytes of header the packet is as it was. -/
theorem load_append {skb frame : Skb} {header : List UInt8} (hheader : header.length = ethHlen)
    (hdata : frame.data = header ++ skb.data) (i n : Nat) : frame.load (ethHlen + i) n = skb.load i n := by
  unfold Skb.load Buffer.loadBytes
  rw [hdata, List.length_append, hheader]
  have hcond : (ethHlen + i + n ≤ ethHlen + skb.data.length) ↔ i + n ≤ skb.data.length := by omega
  by_cases hfit : i + n ≤ skb.data.length
  · rw [if_pos (hcond.mpr hfit), if_pos hfit, Option.some_inj]
    apply Vector.ext
    intro j hj
    rw [Vector.getElem_ofFn, Vector.getElem_ofFn, List.getD_eq_getElem?_getD,
      List.getElem?_append_right (by omega), hheader, List.getD_eq_getElem?_getD]
    congr 2
    omega
  · rw [if_neg (fun h => hfit (hcond.mp h)), if_neg hfit]

/-- Behind a synthesized header the packet is as it was. -/
theorem ethHeader_load {skb skb' : Skb} {h : Helpers} {l3Ethertype : UInt16} (hl3 : l3Ethertype ≠ noL3Ethertype)
    (hres : Edit.ethHeader h l3Ethertype skb = (skb', true)) (i n : Nat) :
    skb'.load (ethHlen + i) n = skb.load i n := by
  unfold Edit.ethHeader at hres
  rw [if_neg hl3] at hres
  split at hres
  · obtain ⟨hsame, _⟩ := Edit.store_eq_true hres
    rw [hsame.load, load_append (by simp) (show _ = List.replicate ethHlen 0 ++ skb.data from rfl)]
    intro j hj hw
    have := hj.1
    have := hw.2
    unfold ethHlen at *
    omega
  · simp at hres

/-- The frame is the packet itself, or the packet behind a header of the given EtherType. -/
theorem ethHeader_eq_true {skb skb' : Skb} {h : Helpers} {l3Ethertype : UInt16}
    (hres : Edit.ethHeader h l3Ethertype skb = (skb', true)) :
    skb'.stamped = skb.stamped ∧
      ((l3Ethertype = noL3Ethertype ∧ skb'.data = skb.data) ∨
        (l3Ethertype ≠ noL3Ethertype ∧ Refines skb.load skb'.load 0 ethHlen ∧
          skb'.load.u16 12 = some l3Ethertype ∧ skb'.data.length = skb.data.length + ethHlen)) := by
  by_cases hl3 : l3Ethertype = noL3Ethertype
  · rw [Edit.ethHeader, if_pos hl3] at hres
    obtain ⟨rfl, _⟩ := Prod.mk.inj hres
    exact ⟨rfl, Or.inl ⟨hl3, rfl⟩⟩
  · have hbehind := ethHeader_load hl3 hres
    rw [Edit.ethHeader, if_neg hl3] at hres
    split at hres
    · obtain ⟨hsame, hload⟩ := Edit.store_eq_true hres
      refine ⟨by rw [hsame.rest], Or.inr ⟨hl3, ?_, ?_, ?_⟩⟩
      · intro i n v hv
        rw [Nat.zero_add] at hv
        rw [hbehind, hv]
      · rw [Loader.u16, hload, Option.map_some, Endian.u16OfBytes_u16Bytes]
      · rw [hsame.length]
        simp [Nat.add_comm]
    · simp at hres

/-- A redirected packet carries the metadata it was given, over a frame of the packet. -/
theorem redirectToGeneve_redirect {skb skb' : Skb} {h : Helpers} {geneveIfindex ifindex vni : UInt32}
    {remote : Bytes 16} {opt : Bytes 24} {l3Ethertype : UInt16} {neigh : Bool}
    (hres : skb.redirectToGeneve h geneveIfindex remote vni opt l3Ethertype = (skb', .redirect ifindex neigh)) :
    skb'.stamped = some { remote := setTunnelRemote remote, tunnelId := vni, options := opt.toList } ∧
      ((l3Ethertype = noL3Ethertype ∧ skb'.data = skb.data) ∨
        (l3Ethertype ≠ noL3Ethertype ∧ Refines skb.load skb'.load 0 ethHlen ∧
          skb'.load.u16 12 = some l3Ethertype ∧ skb'.data.length = skb.data.length + ethHlen)) := by
  unfold Skb.redirectToGeneve at hres
  split at hres
  · simp at hres
  · simp only at hres
    split at hres
    · simp at hres
    · split at hres
      · simp at hres
      · rename_i framed hframed
        obtain ⟨rfl, _⟩ := Prod.mk.inj hres
        exact ethHeader_eq_true hframed

/-- With no call refused, a packet is redirected. -/
theorem redirectToGeneve_all (skb : Skb) (geneveIfindex vni : UInt32) (remote : Bytes 16) (opt : Bytes 24)
    (l3Ethertype : UInt16) :
    ∃ skb', skb.redirectToGeneve (fun _ => true) geneveIfindex remote vni opt l3Ethertype =
      (skb', .redirect geneveIfindex false) := by
  have hheader : ∀ skb, ∃ skb', Edit.ethHeader (fun _ => true) l3Ethertype skb = (skb', true) := by
    intro skb
    unfold Edit.ethHeader
    by_cases hl3 : l3Ethertype = noL3Ethertype
    · exact ⟨skb, if_pos hl3⟩
    · rw [if_neg hl3, if_pos rfl]
      obtain ⟨skb', hstore, _⟩ := Edit.Succeeds.store (Host.endian.u16Bytes l3Ethertype)
        (show 12 + 2 ≤ ethHlen by decide)
        { skb with data := List.replicate ethHlen 0 ++ skb.data, linear := ethHlen + skb.linear } (by simp)
      exact ⟨skb', hstore⟩
  unfold Skb.redirectToGeneve
  simp only [Bool.not_true, Bool.false_eq_true, if_false]
  obtain ⟨skb', hskb'⟩ :=
    hheader { skb with stamped := some ⟨setTunnelRemote remote, vni, opt.toList⟩ }
  exact ⟨skb', by rw [hskb']; rfl⟩

/-- **Framing.** What goes into the tunnel for a packet of an uplink is a frame of it. -/
theorem framedFrom_redirect {fam : Family} {l2Hlen : Nat} {skb skb' : Skb} {h : Helpers}
    {geneveIfindex ifindex vni : UInt32} {remote : Bytes 16} {opt : Bytes 24} {neigh : Bool}
    (hlen : l2Hlen = 0 ∨ l2Hlen = ethHlen) (hfam : uplinkFamily l2Hlen skb = some (some fam))
    (hres : skb.redirectToGeneve h geneveIfindex remote vni opt
      (if l2Hlen = 0 then fam.ethertype else noL3Ethertype) = (skb', .redirect ifindex neigh)) :
    skb'.stamped = some { remote := setTunnelRemote remote, tunnelId := vni, options := opt.toList } ∧
      FramedFrom fam l2Hlen skb skb' := by
  obtain ⟨hstamped, hframe⟩ := redirectToGeneve_redirect hres
  refine ⟨hstamped, ?_⟩
  rcases hlen with rfl | rfl
  · rw [if_pos rfl] at hframe
    rcases hframe with ⟨hno, _⟩ | ⟨_, hload, hether, hlength⟩
    · exact absurd hno (ethertype_ne_noL3 fam)
    · exact ⟨hload, hether, by omega⟩
  · have hne : ¬ ethHlen = 0 := by decide
    rw [if_neg hne] at hframe
    rcases hframe with ⟨_, hdata⟩ | ⟨hno, _⟩
    · have hload : skb'.load = skb.load := by
        unfold Skb.load
        rw [hdata]
      -- the EtherType is the packet's own
      have hether : skb.load.u16 12 = some fam.ethertype := by
        rw [uplinkFamily, if_pos rfl] at hfam
        obtain ⟨ethertype, hread, hof⟩ := Option.map_eq_some_iff.mp hfam
        rw [← ethertype_of_ofEthertype hof]
        exact (refines_loadDirect skb 12).u16 (i := 0) hread
      exact ⟨fun i n v hv => by rw [hload]; exact hv, by rw [hload]; exact hether, by rw [hdata]⟩
    · exact absurd rfl hno

/-- The frame says what the packet said. -/
theorem FramedFrom.innerPacket {fam : Family} {l2Hlen : Nat} {skb frame : Skb} {q : InnerPacket}
    (hframe : FramedFrom fam l2Hlen skb frame) (hq : UplinkFrame fam l2Hlen skb q) :
    innerPacket frame = some (fam, q) := by
  refine innerPacket_iff.mpr ⟨hframe.ethertype, ?_, hq.flowProto,
    hframe.load.carries ((refines_loadDirect skb l2Hlen).carries hq.carries)⟩
  obtain ⟨ver, hver, hok⟩ := hq.header
  cases fam with
  | v6 => rfl
  | v4 =>
    have hread : skb.load.u8 l2Hlen = some ver := by
      unfold loadVersion at hver
      split at hver
      · rename_i hzero
        rw [hzero]
        exact hver
      · exact (refines_loadDirect skb l2Hlen).u8 (i := 0) hver
    have hread' : frame.load.u8 ethHlen = some ver := hframe.load.u8 (i := 0) hread
    have hihl : ver &&& 0x0f = 5 := by
      simp only [Family.uplinkHeaderOk, Bool.and_eq_true, decide_eq_true_eq] at hok
      exact hok.2
    simp [Family.innerHeaderOk, hread', hihl]

theorem FramedFrom.tcpFlags {fam : Family} {l2Hlen : Nat} {skb frame : Skb} {proto tcpFlags : UInt8}
    (hframe : FramedFrom fam l2Hlen skb frame)
    (hflags : tcpFlagsDirect skb proto (l2Hlen + fam.ipHlen) = some tcpFlags) :
    tcpFlagsDirect frame proto (ethHlen + fam.ipHlen) = some tcpFlags := by
  unfold tcpFlagsDirect at hflags ⊢
  split at hflags
  · rename_i htcp
    rw [if_pos htcp]
    rw [Nat.add_assoc] at hflags ⊢
    exact hframe.load.u8 hflags
  · rename_i htcp
    rw [if_neg htcp]
    exact hflags

/-- The flags the ingress program reads are the ones every other hook reads. -/
theorem UplinkPacket.tcpFlagsDirect {fam : Family} {l2Hlen : Nat} {skb : Skb} {f : IngressFlow}
    (h : UplinkPacket fam l2Hlen skb f) :
    tcpFlagsDirect skb f.front.proto (l2Hlen + fam.ipHlen) = some f.tcpFlags := by
  have hflags := h.tcpFlags
  unfold ingressTcpFlags at hflags
  unfold Beep.tcpFlagsDirect
  split at hflags
  · rename_i htcp
    rw [if_pos htcp]
    exact (refines_loadDirect skb _).u8 (i := 13) hflags
  · rename_i htcp
    rw [if_neg htcp]
    exact hflags

/-! ## The other end -/

omit [Host] in
/-- A 24-byte option comes out as it went in. -/
theorem getTunnelOpt_of_options {skb : Skb} {info : TunnelInfo} {opt : Bytes 24}
    (hinfo : skb.received = some info) (hopt : info.options = opt.toList) :
    skb.getTunnelOpt = some (24, opt) := by
  have hlen : info.options.length = 24 := by rw [hopt, Vector.length_toList]
  have hcond : ¬ (info.options = [] ∨ info.options.length > 24) := by
    rw [hlen, ← List.length_eq_zero_iff, hlen]
    omega
  have hbytes : (Vector.ofFn fun i : Fin 24 => info.options.getD i 0) = opt := by
    apply Vector.ext
    intro i hi
    rw [Vector.getElem_ofFn, hopt, List.getD_eq_getElem?_getD, Vector.getElem?_toList,
      Vector.getElem?_eq_getElem hi, Option.getD_some]
  unfold Skb.getTunnelOpt
  rw [hinfo]
  refine (if_neg hcond).trans ?_
  rw [hlen, hbytes]

/-- A forward packet the node takes comes from an attested peer, for a pod of the node. -/
theorem decapForwardGate_some {n : Node} {skb : Skb} {info : TunnelInfo} {podIp : Bytes 16}
    {targetPort : UInt16} (h : decapForwardGate n skb info = some (podIp, targetPort)) :
    n.isPodTarget podIp = true ∧
      ∃ opt, skb.getTunnelOpt = some (24, opt) ∧ decodePodIdOption opt = some (podIp, targetPort) := by
  unfold decapForwardGate at h
  split at h
  · cases h
  · split at h
    · cases h
    · rename_i len opt hopt
      split at h
      · cases h
      · rename_i hlen
        split at h
        · cases h
        · rename_i pod port hdecode
          unfold decapForwardPodAdmission at h
          cases htarget : n.isPodTarget pod with
          | false => simp [htarget] at h
          | true =>
            simp only [htarget, if_true] at h
            cases h
            rw [not_not] at hlen
            subst hlen
            exact ⟨htarget, opt, hopt, hdecode⟩

/-- The front echo of an attested peer is read back. -/
theorem decapReturnGate_of_echo {n : Node} {skb : Skb} {info : TunnelInfo} {frontIp : Bytes 16}
    {frontPort : UInt16} (hallowed : n.isNodeAllowed (tunnelRemote info.remote) = true)
    (hinfo : skb.received = some info) (hopt : info.options = (encodeFrontEcho frontIp frontPort).toList) :
    decapReturnGate n skb info = some (frontIp, frontPort) := by
  simp only [decapReturnGate, peerNodeAdmission, hallowed, if_true, getTunnelOpt_of_options hinfo hopt,
    Option.bind_some, decodeFrontEcho_encode]

end Beep
