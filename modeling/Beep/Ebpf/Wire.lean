import Beep.Ebpf.Rewrite
import Beep.Ebpf.Rows

/-!
# `Ebpf.Wire` — what a packet says, from one hook to the next

The hooks read the same five fields off a packet with different loaders and at different offsets. `Carries`
is what they have in common: the packet behind a header of some length says so and so. Every parse comes to
it, framing a packet for the tunnel keeps it, and the rewrites change the fields they are for.
-/

namespace Beep

variable [Host]

/-! ## Reading -/

/-- The packet whose IP header starts at `ipOff` has these addresses, ports and protocol. -/
structure Carries (load : Loader) (fam : Family) (ipOff : Nat) (q : InnerPacket) : Prop where
  proto : load.u8 (ipOff + fam.protoOff) = some q.proto
  srcIp : fam.loadAddr load (ipOff + fam.srcOff) = some q.srcIp
  srcPort : load.u16 (ipOff + fam.ipHlen) = some q.srcPort
  dstIp : fam.loadAddr load (ipOff + fam.dstOff) = some q.dstIp
  dstPort : load.u16 (ipOff + fam.ipHlen + 2) = some q.dstPort

/-- A packet says one thing. -/
theorem Carries.unique {load : Loader} {fam : Family} {ipOff : Nat} {q q' : InnerPacket}
    (h : Carries load fam ipOff q) (h' : Carries load fam ipOff q') : q = q' := by
  have hproto := Option.some_inj.mp (h.proto.symm.trans h'.proto)
  have hsrc := Option.some_inj.mp (h.srcIp.symm.trans h'.srcIp)
  have hsrcPort := Option.some_inj.mp (h.srcPort.symm.trans h'.srcPort)
  have hdst := Option.some_inj.mp (h.dstIp.symm.trans h'.dstIp)
  have hdstPort := Option.some_inj.mp (h.dstPort.symm.trans h'.dstPort)
  cases q
  cases q'
  simp_all

/-- A loader that answers whatever another one does, at offsets moved by a constant. -/
def Refines (load load' : Loader) (off off' : Nat) : Prop :=
  ∀ i n v, load (off + i) n = some v → load' (off' + i) n = some v

omit [Host] in
theorem Refines.u8 {load load' : Loader} {off off' i : Nat} {v : UInt8} (h : Refines load load' off off')
    (hv : load.u8 (off + i) = some v) : load'.u8 (off' + i) = some v := by
  obtain ⟨b, hb, rfl⟩ := Option.map_eq_some_iff.mp hv
  exact Option.map_eq_some_iff.mpr ⟨b, h _ _ _ hb, rfl⟩

theorem Refines.u16 {load load' : Loader} {off off' i : Nat} {v : UInt16} (h : Refines load load' off off')
    (hv : load.u16 (off + i) = some v) : load'.u16 (off' + i) = some v := by
  obtain ⟨b, hb, rfl⟩ := Option.map_eq_some_iff.mp hv
  exact Option.map_eq_some_iff.mpr ⟨b, h _ _ _ hb, rfl⟩

theorem Refines.loadAddr {load load' : Loader} {off off' i : Nat} {fam : Family} {v : Bytes 16}
    (h : Refines load load' off off') (hv : fam.loadAddr load (off + i) = some v) :
    fam.loadAddr load' (off' + i) = some v := by
  cases fam with
  | v4 =>
    obtain ⟨b, hb, rfl⟩ := Option.map_eq_some_iff.mp hv
    exact Option.map_eq_some_iff.mpr ⟨b, h _ _ _ hb, rfl⟩
  | v6 => exact h _ _ _ hv

theorem Refines.carries {load load' : Loader} {off off' : Nat} {fam : Family} {q : InnerPacket}
    (h : Refines load load' off off') (hq : Carries load fam off q) : Carries load' fam off' q where
  proto := h.u8 hq.proto
  srcIp := h.loadAddr hq.srcIp
  srcPort := h.u16 hq.srcPort
  dstIp := h.loadAddr hq.dstIp
  dstPort := by
    have := hq.dstPort
    rw [Nat.add_assoc] at this ⊢
    exact h.u16 this

omit [Host] in
/-- What is in the linear head is in the packet. -/
theorem refines_loadDirect (skb : Skb) (off : Nat) : Refines skb.loadDirect skb.load off off := by
  intro i n v hv
  unfold Skb.loadDirect at hv
  split at hv
  · exact hv
  · cases hv

/-! ## Parsing -/

@[simp] theorem ofEthertype_ethertype (fam : Family) : Family.ofEthertype fam.ethertype = some fam := by
  unfold Family.ofEthertype Family.ethertype
  cases Host.endian <;> cases fam <;> decide

theorem ethertype_of_ofEthertype {ethertype : UInt16} {fam : Family}
    (h : Family.ofEthertype ethertype = some fam) : ethertype = fam.ethertype := by
  unfold Family.ofEthertype at h
  split at h
  · rename_i heq
    rw [← Option.some_inj.mp h]
    exact heq
  · split at h
    · rename_i heq
      rw [← Option.some_inj.mp h]
      exact heq
    · cases h

theorem ethertype_ne_noL3 (fam : Family) : fam.ethertype ≠ noL3Ethertype := by
  unfold Family.ethertype noL3Ethertype
  cases Host.endian <;> cases fam <;> decide

/-- A frame on `geneve0` that is read as a flow's packet. -/
theorem parseInner_eq_some {fam : Family} {skb : Skb} {q : InnerPacket} :
    parseInner fam skb = some (some q) ↔
      fam.innerHeaderOk skb = some true ∧ isFlowProto q.proto = true ∧ Carries skb.load fam ethHlen q := by
  simp only [parseInner, Option.bind_eq_bind, Option.bind_eq_some_iff, Option.pure_def]
  constructor
  · rintro ⟨headerOk, hok, h⟩
    cases headerOk with
    | false => simp at h
    | true =>
      simp only [Bool.not_true, Bool.false_eq_true, if_false, Option.bind_eq_some_iff] at h
      obtain ⟨proto, hproto, h⟩ := h
      cases hflow : isFlowProto proto with
      | false => simp [hflow] at h
      | true =>
        simp only [hflow, Bool.not_true, Bool.false_eq_true, if_false, Option.bind_eq_some_iff,
          Option.some.injEq] at h
        obtain ⟨srcIp, hsrc, srcPort, hsrcPort, dstIp, hdst, dstPort, hdstPort, rfl⟩ := h
        exact ⟨hok, hflow, hproto, hsrc, hsrcPort, hdst, hdstPort⟩
  · rintro ⟨hok, hflow, hq⟩
    refine ⟨true, hok, ?_⟩
    simp only [Bool.not_true, Bool.false_eq_true, if_false, Option.bind_eq_some_iff]
    refine ⟨q.proto, hq.proto, ?_⟩
    simp only [hflow, Bool.not_true, Bool.false_eq_true, if_false, Option.bind_eq_some_iff]
    exact ⟨_, hq.srcIp, _, hq.srcPort, _, hq.dstIp, _, hq.dstPort, rfl⟩

/-- The packet an uplink delivered. -/
def IngressFlow.packet (f : IngressFlow) : InnerPacket where
  proto := f.front.proto
  srcIp := f.clientIp
  srcPort := f.clientPort
  dstIp := f.front.frontIp
  dstPort := f.front.frontPort

/-- A packet on an uplink that both programs there read as a flow's. -/
structure UplinkFrame (fam : Family) (l2Hlen : Nat) (skb : Skb) (q : InnerPacket) : Prop where
  header : ∃ ver, loadVersion skb l2Hlen = some ver ∧ fam.uplinkHeaderOk ver = true
  flowProto : isFlowProto q.proto = true
  carries : Carries skb.loadDirect fam l2Hlen q

/-- A packet of an uplink that is read as a flow's, with what the ingress program reads besides. -/
structure UplinkPacket (fam : Family) (l2Hlen : Nat) (skb : Skb) (f : IngressFlow) : Prop where
  frame : UplinkFrame fam l2Hlen skb f.packet
  tcpFlags : ingressTcpFlags skb f.front.proto (l2Hlen + fam.ipHlen) = some f.tcpFlags
  ethertype : f.ethertype = fam.ethertype
  pad : f.front.pad = 0

theorem uplinkIngressHeaders_eq_some {fam : Family} {l2Hlen : Nat} {skb : Skb} {f : IngressFlow} :
    uplinkIngressHeaders fam l2Hlen skb = some f ↔ UplinkPacket fam l2Hlen skb f := by
  simp only [uplinkIngressHeaders, Option.bind_eq_bind, Option.bind_eq_some_iff, Option.guard_eq_some',
    Option.pure_def, Option.some.injEq]
  constructor
  · rintro ⟨ver, hver, _, hok, proto, hproto, _, hflow, dstIp, hdst, dstPort, hdstPort, srcIp, hsrc, srcPort,
      hsrcPort, tcpFlags, hflags, rfl⟩
    exact ⟨⟨⟨ver, hver, hok⟩, hflow, hproto, hsrc, hsrcPort, hdst, hdstPort⟩, hflags, rfl, rfl⟩
  · rintro ⟨⟨⟨ver, hver, hok⟩, hflow, hq⟩, hflags, hether, hpad⟩
    refine ⟨ver, hver, (), hok, _, hq.proto, (), hflow, _, hq.dstIp, _, hq.dstPort, _, hq.srcIp, _,
      hq.srcPort, _, hflags, ?_⟩
    obtain ⟨⟨frontIp, frontPort, proto, pad⟩, clientIp, clientPort, ethertype, tcpFlags⟩ := f
    simp only [IngressFlow.packet] at hether hpad ⊢
    rw [hether, hpad]

/-- The parse of an uplink packet, with the family it is for. -/
theorem tryUplinkIngressHeaders_eq_some {l2Hlen : Nat} {skb : Skb} {f : IngressFlow} :
    tryUplinkIngressHeaders l2Hlen skb = some f ↔
      ∃ fam, uplinkFamily l2Hlen skb = some (some fam) ∧ UplinkPacket fam l2Hlen skb f := by
  unfold tryUplinkIngressHeaders
  split
  · rename_i hfam
    rw [tryUplinkIngressHeadersV4, uplinkIngressHeaders_eq_some]
    exact ⟨fun h => ⟨.v4, hfam, h⟩, fun ⟨fam, hfam', h⟩ => by
      rw [hfam] at hfam'
      cases hfam'
      exact h⟩
  · rename_i hfam
    rw [tryUplinkIngressHeadersV6, uplinkIngressHeaders_eq_some]
    exact ⟨fun h => ⟨.v6, hfam, h⟩, fun ⟨fam, hfam', h⟩ => by
      rw [hfam] at hfam'
      cases hfam'
      exact h⟩
  · rename_i hv4 hv6
    refine ⟨fun h => (nomatch h), fun ⟨fam, hfam, _⟩ => ?_⟩
    cases fam with
    | v4 => exact absurd hfam hv4
    | v6 => exact absurd hfam hv6

/-- A frame on `geneve0` and what is read off it. -/
theorem innerPacket_iff {skb : Skb} {fam : Family} {q : InnerPacket} :
    innerPacket skb = some (fam, q) ↔
      skb.load.u16 12 = some fam.ethertype ∧ fam.innerHeaderOk skb = some true ∧ isFlowProto q.proto = true ∧
        Carries skb.load fam ethHlen q := by
  rw [innerPacket_eq_some]
  constructor
  · rintro ⟨ethertype, hload, hfam, hparsed⟩
    rw [ethertype_of_ofEthertype hfam] at hload
    exact ⟨hload, parseInner_eq_some.mp hparsed⟩
  · rintro ⟨hload, hparsed⟩
    exact ⟨_, hload, ofEthertype_ethertype fam, parseInner_eq_some.mpr hparsed⟩

/-! ## Rewriting -/

section
variable {W : Nat → Prop} {skb skb' : Skb}

omit [Host] in
theorem SameBut.u8 {off : Nat} (h : SameBut W skb skb') (hout : ¬ W off) :
    skb'.load.u8 off = skb.load.u8 off := by
  have hload : skb'.load off 1 = skb.load off 1 := h.load fun i hi hw => by
    obtain ⟨hlo, hhi⟩ := hi
    obtain rfl : i = off := by omega
    exact hout hw
  rw [Loader.u8, hload, Loader.u8]

theorem SameBut.u16 {off : Nat} (h : SameBut W skb skb') (hout : ∀ i, Within off 2 i → ¬ W i) :
    skb'.load.u16 off = skb.load.u16 off := by
  rw [Loader.u16, h.load hout, Loader.u16]

theorem SameBut.loadAddr {off : Nat} {fam : Family} (h : SameBut W skb skb')
    (hout : ∀ i, Within off fam.addrLen i → ¬ W i) : fam.loadAddr skb'.load off = fam.loadAddr skb.load off := by
  cases fam with
  | v4 => rw [Family.loadAddr, h.load (n := 4) hout, Family.loadAddr]
  | v6 => rw [Family.loadAddr, h.load (n := 16) hout, Family.loadAddr]

omit [Host] in
/-- The header check reads one byte. -/
theorem SameBut.innerHeaderOk {fam : Family} (h : SameBut W skb skb') (hout : ¬ W ethHlen) :
    fam.innerHeaderOk skb' = fam.innerHeaderOk skb := by
  cases fam with
  | v4 => rw [Family.innerHeaderOk, h.u8 hout, Family.innerHeaderOk]
  | v6 => rfl

omit [Host] in
theorem l4CsumOff_cases (l4Off : Nat) (proto : UInt8) :
    Edit.l4CsumOff l4Off proto = l4Off + 16 ∨ Edit.l4CsumOff l4Off proto = l4Off + 6 := by
  unfold Edit.l4CsumOff
  split
  · exact Or.inl rfl
  · exact Or.inr rfl

/-- Rewriting the source port of a flow's frame. -/
theorem innerPacket_rewrite_srcPort {h : Helpers} {fam : Family} {q : InnerPacket} {port : UInt16}
    (hq : innerPacket skb = some (fam, q))
    (hres : Edit.rewriteL4Port h (ethHlen + fam.ipHlen) (ethHlen + fam.ipHlen) q.srcPort port q.proto skb =
      (skb', true)) :
    innerPacket skb' = some (fam, { q with srcPort := port }) := by
  obtain ⟨hether, hheader, hflow, hcarries⟩ := innerPacket_iff.mp hq
  obtain ⟨hsame, hport⟩ := Edit.rewriteL4Port_spec hcarries.srcPort hres
  have hcsum := l4CsumOff_cases (ethHlen + fam.ipHlen) q.proto
  -- nothing below the ports is written, and of the ports only the first
  have hbelow : ∀ i, i < ethHlen + fam.ipHlen ∨ Within (ethHlen + fam.ipHlen + 2) 2 i →
      ¬ (Within (Edit.l4CsumOff (ethHlen + fam.ipHlen) q.proto) 2 i ∨ Within (ethHlen + fam.ipHlen) 2 i) := by
    intro i hi hw
    unfold Within at hi hw
    omega
  have hlens : fam.protoOff < fam.ipHlen ∧ fam.srcOff + fam.addrLen ≤ fam.ipHlen ∧
      fam.dstOff + fam.addrLen ≤ fam.ipHlen ∧ 0 < fam.ipHlen := by
    cases fam <;> decide
  obtain ⟨hproto, hsrc, hdst, hpos⟩ := hlens
  refine innerPacket_iff.mpr ⟨?_, ?_, hflow, ?_, ?_, hport, ?_, ?_⟩
  · rw [hsame.u16 fun i hi => hbelow i (Or.inl (by unfold Within ethHlen at *; omega)), hether]
  · rw [hsame.innerHeaderOk (hbelow _ (Or.inl (by omega))), hheader]
  · rw [hsame.u8 (hbelow _ (Or.inl (by omega))), hcarries.proto]
  · rw [hsame.loadAddr fun i hi => hbelow i (Or.inl (by unfold Within at hi; omega)), hcarries.srcIp]
  · rw [hsame.loadAddr fun i hi => hbelow i (Or.inl (by unfold Within at hi; omega)), hcarries.dstIp]
  · rw [hsame.u16 fun i hi => hbelow i (Or.inr hi), hcarries.dstPort]

/-- An address rewrite writes above the protocol: whether a frame is a flow's does not change. -/
theorem rewriteAddrPort_above {fam : Family} {q : InnerPacket} {ipOff portOff : Nat}
    (hq : innerPacket skb = some (fam, q))
    (hsame : SameBut (Edit.addrPortOffsets fam ipOff portOff q.proto) skb skb')
    (hip : ethHlen + fam.srcOff ≤ ipOff) (hport : ethHlen + fam.ipHlen ≤ portOff) :
    skb'.load.u16 12 = some fam.ethertype ∧ fam.innerHeaderOk skb' = some true ∧
      skb'.load.u8 (ethHlen + fam.protoOff) = some q.proto := by
  obtain ⟨hether, hheader, _, hcarries⟩ := innerPacket_iff.mp hq
  have hcsum := l4CsumOff_cases (ethHlen + fam.ipHlen) q.proto
  have habove : ∀ i, i ≤ ethHlen + fam.protoOff → ¬ Edit.addrPortOffsets fam ipOff portOff q.proto i := by
    intro i hi hw
    have hoffs : (fam = .v4 → fam.protoOff < 10) ∧ fam.protoOff < fam.srcOff ∧ fam.srcOff < fam.ipHlen := by
      cases fam <;> decide
    unfold Edit.addrPortOffsets Within at hw
    rcases hw with ⟨hv4, hw⟩ | hw | hw | hw
    · have := hoffs.1 hv4
      omega
    all_goals omega
  refine ⟨?_, ?_, ?_⟩
  · rw [hsame.u16 fun i hi => habove i (by unfold Within ethHlen at *; omega), hether]
  · rw [hsame.innerHeaderOk (habove _ (Nat.le_add_right ..)), hheader]
  · rw [hsame.u8 (habove _ le_rfl), hcarries.proto]

/-- Rewriting the destination of a flow's frame. -/
theorem innerPacket_rewrite_dst {h : Helpers} {fam : Family} {q : InnerPacket} {ip : Bytes 16} {port : UInt16}
    (hq : innerPacket skb = some (fam, q))
    (hres : Edit.rewriteAddrPort h (ethHlen + fam.dstOff) q.dstIp ip (ethHlen + fam.ipHlen + 2) q.dstPort port
      q.proto fam skb = (skb', true)) :
    innerPacket skb' = some (fam, { q with dstIp := ip, dstPort := port }) := by
  obtain ⟨_, _, hflow, hcarries⟩ := innerPacket_iff.mp hq
  have hdis : ethHlen + fam.dstOff + fam.addrLen ≤ ethHlen + fam.ipHlen + 2 := by cases fam <;> decide
  obtain ⟨hsame, hip, hport⟩ := Edit.rewriteAddrPort_spec hdis hres
  obtain ⟨hether, hheader, hproto⟩ :=
    rewriteAddrPort_above hq hsame (by cases fam <;> decide) (Nat.le_add_right ..)
  have hcsum := l4CsumOff_cases (ethHlen + fam.ipHlen) q.proto
  refine innerPacket_iff.mpr ⟨hether, hheader, hflow, hproto, ?_, ?_, hip, hport⟩
  · rw [hsame.loadAddr, hcarries.srcIp]
    intro i hi hw
    cases fam <;> simp only [Edit.addrPortOffsets, Within, ethHlen, Family.dstOff, Family.ipHlen,
      Family.addrLen, Family.srcOff, reduceCtorEq, false_and, false_or] at hcsum hi hw <;> omega
  · rw [hsame.u16, hcarries.srcPort]
    intro i hi hw
    cases fam <;> simp only [Edit.addrPortOffsets, Within, ethHlen, Family.dstOff, Family.ipHlen,
      Family.addrLen, reduceCtorEq, false_and, false_or] at hcsum hi hw <;> omega

/-- Rewriting the source of a flow's frame. -/
theorem innerPacket_rewrite_src {h : Helpers} {fam : Family} {q : InnerPacket} {ip : Bytes 16} {port : UInt16}
    (hq : innerPacket skb = some (fam, q))
    (hres : Edit.rewriteAddrPort h (ethHlen + fam.srcOff) q.srcIp ip (ethHlen + fam.ipHlen) q.srcPort port
      q.proto fam skb = (skb', true)) :
    innerPacket skb' = some (fam, { q with srcIp := ip, srcPort := port }) := by
  obtain ⟨_, _, hflow, hcarries⟩ := innerPacket_iff.mp hq
  have hdis : ethHlen + fam.srcOff + fam.addrLen ≤ ethHlen + fam.ipHlen := by cases fam <;> decide
  obtain ⟨hsame, hip, hport⟩ := Edit.rewriteAddrPort_spec hdis hres
  obtain ⟨hether, hheader, hproto⟩ := rewriteAddrPort_above hq hsame le_rfl le_rfl
  have hcsum := l4CsumOff_cases (ethHlen + fam.ipHlen) q.proto
  refine innerPacket_iff.mpr ⟨hether, hheader, hflow, hproto, hip, hport, ?_, ?_⟩
  · rw [hsame.loadAddr, hcarries.dstIp]
    intro i hi hw
    cases fam <;> simp only [Edit.addrPortOffsets, Within, ethHlen, Family.dstOff, Family.ipHlen,
      Family.addrLen, Family.srcOff, reduceCtorEq, false_and, false_or] at hcsum hi hw <;> omega
  · rw [hsame.u16, hcarries.dstPort]
    intro i hi hw
    cases fam <;> simp only [Edit.addrPortOffsets, Within, ethHlen, Family.srcOff, Family.ipHlen,
      Family.addrLen, reduceCtorEq, false_and, false_or] at hcsum hi hw <;> omega

end

/-! ## A delivered packet -/

/-- What a forward packet says as it comes out of the tunnel. -/
def ForwardPacket.original (p : ForwardPacket) : InnerPacket where
  proto := p.flow.proto
  srcIp := p.flow.clientIp
  srcPort := p.flow.clientPort
  dstIp := p.flow.frontIp
  dstPort := p.flow.frontPort

/-- What it says to the pod. -/
def ForwardPacket.toPod (p : ForwardPacket) (backendSrcPort : UInt16) : InnerPacket where
  proto := p.flow.proto
  srcIp := p.flow.clientIp
  srcPort := backendSrcPort
  dstIp := p.flow.podIp
  dstPort := p.flow.targetPort

theorem decapForwardAdmit_innerPacket {n : Node} {skb : Skb} {p : ForwardPacket}
    (hp : decapForwardAdmit n skb = some p) : innerPacket skb = some (p.family, p.original) := by
  obtain ⟨info, podIp, targetPort, fam, inner, _, _, _, hinner, rfl⟩ := decapForwardAdmit_eq_some.mp hp
  exact hinner

theorem decapForwardRewrite_spec {h : Helpers} {p : ForwardPacket} {port : UInt16} {skb skb' : Skb}
    (hq : innerPacket skb = some (p.family, p.original))
    (hres : decapForwardRewrite h p port skb = (skb', true)) :
    innerPacket skb' = some (p.family, p.toPod port) := by
  obtain ⟨mid, hfst, hsnd⟩ := Edit.andThen_eq_true.mp hres
  have hmid := innerPacket_rewrite_srcPort hq hfst
  exact innerPacket_rewrite_dst hmid hsnd

/-- **A packet handed to a pod** was given a port, and says so: it comes from the client's address and that
    port, and is for the pod and its target port. -/
theorem deliverForward_ok {n n' : Node} {h : Helpers} {skb skb' : Skb} {p : ForwardPacket}
    (hq : innerPacket skb = some (p.family, p.original))
    (hres : deliverForward n h skb p = (n', skb', some .ok)) :
    ∃ port, decapForwardCommit n h skb p = (n', .ok port) ∧
      innerPacket skb' = some (p.family, p.toPod port) := by
  unfold deliverForward at hres
  rcases hc : decapForwardCommit n h skb p with ⟨n₁, verdict | port⟩
  · -- no error of the commit is `TC_ACT_OK`
    exfalso
    simp only [hc, Prod.mk.injEq] at hres
    obtain ⟨rfl, -, rfl⟩ := hres
    unfold decapForwardCommit at hc
    cases hport : n.resolvePort h p.flow with
    | exhausted | refused => simp [hport] at hc
    | port n₂ key port =>
      simp only [hport] at hc
      split at hc
      · simp at hc
      · split at hc <;> simp at hc
  · simp only [hc] at hres
    rcases hedit : decapForwardRewrite h p port skb with ⟨skb₁, _ | _⟩
    · simp [hedit] at hres
    · simp only [hedit] at hres
      refine ⟨port, ?_⟩
      have hpod := decapForwardRewrite_spec hq hedit
      split at hres
      · simp only [Prod.mk.injEq] at hres
        obtain ⟨rfl, rfl, _⟩ := hres
        exact ⟨rfl, hpod⟩
      · simp at hres

end Beep
