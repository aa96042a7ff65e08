import Beep.Ebpf.Messages
import Beep.Ebpf.Frames
import Beep.Ebpf.Correctness.Affinity

/-!
# `Ebpf.Correctness.Fragments` — fragments without a transport header

The two uplink programs check that an IPv4 header has no options, so that the ports are where they are read,
but not that there are ports: a fragment other than the first has payload there. Whether it is left alone is a
matter of what the payload reads as (`fragment_untouched_iff`). Over IPv6 every fragment has an extension
header, which neither program takes for a flow's packet.
-/

namespace Beep

variable [Host]

/-! ## Packets left alone -/

/-- The packet passes, as it is, and no row of a flow is another: whatever the kernel answers. Its mark is no
    part of the packet. -/
def Untouched (n : Node) (skb : Skb) (run : Helpers → Node × Skb × TcAction) : Prop :=
  ∀ h, (run h).2.2 = .ok ∧ { (run h).2.1 with mark := skb.mark } = skb ∧
    (∀ key, (run h).1.flowTable.lookup key = n.flowTable.lookup key) ∧
    ∀ key, (run h).1.fwdPending.lookup key = n.fwdPending.lookup key

omit [Host] in
/-- A run that ends where it began. -/
theorem Untouched.of_eq {n : Node} {skb : Skb} {run : Helpers → Node × Skb × TcAction}
    (h : ∀ h, run h = (n, skb, .ok)) : Untouched n skb run := by
  intro helpers
  rw [h helpers]
  exact ⟨rfl, rfl, fun _ => rfl, fun _ => rfl⟩

/-! ## On an uplink's ingress -/

theorem uplinkIngress_none {n : Node} {skb : Skb} (h : Helpers) (hadm : ingressAdmit n skb = none) :
    uplinkIngress n h skb = (n, skb, .ok) := by
  unfold uplinkIngress tryUplinkIngress
  rw [hadm]
  rfl

theorem uplinkIngress_some {n : Node} {skb : Skb} {f : IngressFlow} {l2Hlen : Nat} (h : Helpers)
    (hadm : ingressAdmit n skb = some (f, l2Hlen)) :
    uplinkIngress n h skb = ((uplinkIngressEncap n h skb skb.ingressIfindex f (l2Hlen = 0)).1,
      (uplinkIngressEncap n h skb skb.ingressIfindex f (l2Hlen = 0)).2.1,
      (uplinkIngressEncap n h skb skb.ingressIfindex f (l2Hlen = 0)).2.2.getD .ok) := by
  unfold uplinkIngress tryUplinkIngress
  rw [hadm]

/-- What is tunnelled does not pass. -/
theorem redirectToGeneve_ne_ok (skb : Skb) (h : Helpers) (geneveIfindex vni : UInt32) (remote : Bytes 16)
    (opt : Bytes 24) (l3Ethertype : UInt16) :
    (skb.redirectToGeneve h geneveIfindex remote vni opt l3Ethertype).2 ≠ .ok := by
  unfold Skb.redirectToGeneve
  split
  · simp
  · simp only
    split
    · simp
    · split
      · simp
      · split <;> simp

/-- With a pin that is taken, a packet of a front is forwarded or dropped. -/
theorem steer_ne_pass {n : Node} {h : Helpers} {f : IngressFlow} {ifindex : UInt32}
    (hinsert : h .pendingInsert = true) (hfront : n.frontMeta.lookup f.front ≠ none) (hconfig : n.config ≠ none) :
    (n.steer h f ifindex).2 ≠ .error .ok := by
  obtain ⟨m, hm⟩ := Option.ne_none_iff_exists'.mp hfront
  obtain ⟨c, hc⟩ := Option.ne_none_iff_exists'.mp hconfig
  unfold Node.steer Node.ingressBackend
  simp only [hm, hc, Option.map_some]
  split
  · simp
  · split
    · simp
    · split
      · simp
      · simp [hinsert]

/-- **Ingress.** A packet is left alone unless it is read as one of a front. -/
theorem uplinkIngress_untouched_iff {n : Node} {skb : Skb} :
    Untouched n skb (fun h => uplinkIngress n h skb) ↔
      ∀ f l2Hlen, ingressAdmit n skb = some (f, l2Hlen) → n.frontMeta.lookup f.front = none ∨ n.config = none := by
  constructor
  · intro huntouched f l2Hlen hadm
    by_contra hnot
    obtain ⟨hfront, hconfig⟩ := not_or.mp hnot
    have hok := (huntouched fun _ => true).1
    simp only [uplinkIngress_some _ hadm] at hok
    have hsteer : (n.steer (fun _ => true) f skb.ingressIfindex).2 ≠ .error .ok := steer_ne_pass rfl hfront hconfig
    have hsettings := (SameSettings.steer n (fun _ => true) f skb.ingressIfindex).config
    unfold uplinkIngressEncap at hok
    unfold Node.steer IngressFlow.flowKey IngressFlow.fwdKey at hsteer hsettings
    dsimp only at hok
    revert hok hsteer hsettings
    generalize n.ingressBackend _ f.front f.clientIp f.clientPort _ _ skb.ingressIfindex f.tcpFlags = found
    rcases found with ⟨n', verdict | ⟨backend, targetPort⟩⟩
    · intro hok hsteer _
      exact hsteer (congrArg Except.error hok)
    · intro hok _ hsettings
      obtain ⟨c, hc⟩ := Option.ne_none_iff_exists'.mp hconfig
      have hc' : n'.config = some c := hsettings.trans hc
      simp only [hc', Option.map_some, Option.getD_some] at hok
      exact redirectToGeneve_ne_ok _ _ _ _ _ _ _ hok
  · intro hpass
    apply Untouched.of_eq
    intro h
    cases hadm : ingressAdmit n skb with
    | none => exact uplinkIngress_none h hadm
    | some found =>
      obtain ⟨f, l2Hlen⟩ := found
      rw [uplinkIngress_some h hadm]
      unfold uplinkIngressEncap Node.ingressBackend
      rcases hpass f l2Hlen hadm with hfront | hconfig
      · simp only [hfront, Option.getD_some]
      · simp only [hconfig, Option.map_none]
        cases n.frontMeta.lookup f.front with
        | none => rfl
        | some m => rfl

/-! ## On an uplink's egress -/

/-- A packet that is no reply passes. -/
theorem untouched_of_no_reply {n : Node} {skb : Skb} (hp : egressAdmit n skb = none) :
    Untouched n skb (fun h => uplinkEgressReturn n h skb) := by
  intro h
  obtain ⟨mark, hres⟩ := uplinkEgressReturn_pass (h := h) hp
  simp only [hres]
  exact ⟨trivial, trivial, fun _ => trivial, fun _ => trivial⟩

omit [Host] in
/-- A step that writes a row that is there writes other flags. -/
theorem flags_ne_of_flowStep {existing flags : UInt16} {proto tcpFlags : UInt8} {side : FlowSide}
    {parity : GcParity} (h : flowStep (some existing) proto tcpFlags side parity = .write flags) :
    flags ≠ existing := by
  unfold flowStep flowStepFlags at h
  split at h
  · cases h
  · split at h
    · cases h
    · rename_i hne
      cases h
      intro heq
      exact hne ⟨rfl, heq.symm⟩

omit [Host] in
/-- **The row of a reply.** It stays as it is, whatever the kernel answers, if and only if the step keeps it. -/
theorem touchReturnRow_same_iff {n : Node} {key : FlowKey} {rev : RevFlowValue} {proto tcpFlags : UInt8}
    (hrev : n.flowTableGetReverse key = some rev) :
    (∀ h key', (n.touchReturnRow h key rev proto tcpFlags).flowTable.lookup key' = n.flowTable.lookup key') ↔
      flowStep (some rev.flags) proto tcpFlags .pod n.gcParity = .keep := by
  constructor
  · intro hsame
    have hwritten := hsame (fun _ => true) key
    cases hstep : flowStep (some rev.flags) proto tcpFlags .pod n.gcParity with
    | keep => rfl
    | skip =>
      have hskip := flowStepFlags_skip_iff.mp hstep
      exact absurd hskip.2.2 (by simp)
    | write flags =>
      unfold Node.touchReturnRow at hwritten
      rw [hstep] at hwritten
      simp only [if_true, lookup_flowTableInsert] at hwritten
      obtain ⟨row, hrow, hrev'⟩ := Option.map_eq_some_iff.mp hrev
      rw [hrow, Option.some_inj] at hwritten
      rw [← hwritten, FlowValue.reverse_fromReverse] at hrev'
      exact absurd (congrArg RevFlowValue.flags hrev') (flags_ne_of_flowStep hstep)
  · intro hstep h key'
    unfold Node.touchReturnRow
    rw [hstep]

omit [Host] in
theorem touchReturnRow_keep {n : Node} {key : FlowKey} {rev : RevFlowValue} {proto tcpFlags : UInt8} (h : Helpers)
    (hstep : flowStep (some rev.flags) proto tcpFlags .pod n.gcParity = .keep) :
    n.touchReturnRow h key rev proto tcpFlags = n := by
  unfold Node.touchReturnRow
  rw [hstep]

/-- The maps after a reply with a row. -/
theorem tunnelReply_touches {n : Node} {h : Helpers} {skb : Skb} {p : ReplyPacket} {rev : RevFlowValue}
    {tcpFlags : UInt8} (hrev : n.flowTableGetReverse p.key = some rev)
    (hflags : tcpFlagsDirect skb p.proto (p.l2Hlen + p.family.ipHlen) = some tcpFlags) :
    (tunnelReply n h skb p).1 = n.touchReturnRow h p.key rev p.proto tcpFlags := by
  unfold tunnelReply
  simp only [hrev, Option.isSome_some, egressReturnOutcome, if_true, hflags]
  split
  · rfl
  · split <;> rfl

/-- The offset of a field that can be read is in the packet. -/
theorem length_of_load_u16 {skb : Skb} {off : Nat} {v : UInt16} (h : skb.load.u16 off = some v) :
    off + 2 ≤ skb.data.length := by
  obtain ⟨b, hb, _⟩ := Option.map_eq_some_iff.mp h
  unfold Skb.load Buffer.loadBytes at hb
  split at hb
  · assumption
  · cases hb

/-- Where the checksum is out of reach, no other port is set. -/
theorem rewriteL4Port_refused {skb : Skb} {l4Off portOff : Nat} {oldPort newPort : UInt16} {proto : UInt8}
    (h : Helpers) (hne : oldPort ≠ newPort) (hsum : skb.load.u16 (Edit.l4CsumOff l4Off proto) = none) :
    Edit.rewriteL4Port h l4Off portOff oldPort newPort proto skb = (skb, false) := by
  unfold Edit.rewriteL4Port
  rw [if_neg hne]
  simp only
  unfold Edit.l4CsumOff at hsum
  split
  · rename_i hudp
    rw [if_neg (by rw [hudp]; decide)] at hsum
    rw [hsum]
  · unfold Edit.andThen Edit.csum Edit.l4CsumOff
    rw [hsum]

/-- Where it is not, and no call is refused, the port is set. -/
theorem rewriteL4Port_set {skb : Skb} {l4Off portOff : Nat} {oldPort sum : UInt16} {proto : UInt8} (newPort : UInt16)
    (hport : skb.load.u16 portOff = some oldPort)
    (hsum : skb.load.u16 (Edit.l4CsumOff l4Off proto) = some sum) :
    ∃ skb', Edit.rewriteL4Port (fun _ => true) l4Off portOff oldPort newPort proto skb = (skb', true) ∧
      skb'.load.u16 portOff = some newPort := by
  have hset : (Edit.store true portOff (Host.endian.u16Bytes newPort)).Succeeds skb.data.length :=
    Edit.Succeeds.store _ (length_of_load_u16 hport)
  have hboth : (Edit.andThen (Edit.csum true (Edit.l4CsumOff l4Off proto) oldPort.toUInt32 newPort.toUInt32)
      (Edit.store true portOff (Host.endian.u16Bytes newPort))).Succeeds skb.data.length :=
    (Edit.Succeeds.csum _ _ (length_of_load_u16 hsum)).andThen hset
  have hres : ∃ skb', Edit.rewriteL4Port (fun _ => true) l4Off portOff oldPort newPort proto skb =
      (skb', true) := by
    unfold Edit.rewriteL4Port
    split
    · exact ⟨skb, rfl⟩
    · simp only
      split
      · rename_i hudp
        have hsum' : skb.load.u16 (l4Off + 6) = some sum := by
          rw [Edit.l4CsumOff, if_neg (by rw [hudp]; decide)] at hsum
          exact hsum
        rw [hsum']
        simp only
        split
        · obtain ⟨skb', hskb', _⟩ := hset skb le_rfl
          exact ⟨skb', hskb'⟩
        · obtain ⟨skb', hskb', _⟩ := hboth skb le_rfl
          exact ⟨skb', hskb'⟩
      · obtain ⟨skb', hskb', _⟩ := hboth skb le_rfl
        exact ⟨skb', hskb'⟩
  obtain ⟨skb', hskb'⟩ := hres
  exact ⟨skb', hskb', (Edit.rewriteL4Port_spec hport hskb').2⟩

/-- What the egress program does to a reply's row and to its packet is nothing. -/
structure Ignores (n : Node) (skb : Skb) (p : ReplyPacket) (rev : RevFlowValue) (tcpFlags : UInt8) : Prop where
  /-- the row keeps its flags -/
  row : flowStep (some rev.flags) p.proto tcpFlags .pod n.gcParity = .keep
  /-- there is no tunnel for a packet whose port stays -/
  natural : p.backendDstPort = rev.originalClientPort → n.config = none
  /-- the checksum is out of reach of a packet whose port would not -/
  remapped : p.backendDstPort ≠ rev.originalClientPort →
    skb.load.u16 (Edit.l4CsumOff (p.l2Hlen + p.family.ipHlen) p.proto) = none

/-- The destination port of a reply is in its packet. -/
theorem egressAdmit_dstPort {n : Node} {skb : Skb} {p : ReplyPacket} (hp : egressAdmit n skb = some p) :
    skb.load.u16 (p.l2Hlen + p.family.ipHlen + 2) = some p.backendDstPort := by
  obtain ⟨_, uplink, fam, _, _, _, hparsed⟩ := egressAdmit_eq_some.mp hp
  obtain ⟨hframe, rfl, hl2, _⟩ := egressHeaders_eq_some.mp hparsed
  rw [hl2]
  exact ((refines_loadDirect skb _).carries hframe.carries).dstPort

/-- **Egress.** A packet is left alone unless it is read as a reply with a row, and something is to be done for
    it. -/
theorem uplinkEgress_untouched_iff {n : Node} {skb : Skb} :
    Untouched n skb (fun h => uplinkEgressReturn n h skb) ↔
      ∀ p rev tcpFlags, egressAdmit n skb = some p → n.flowTableGetReverse p.key = some rev →
        tcpFlagsDirect skb p.proto (p.l2Hlen + p.family.ipHlen) = some tcpFlags →
        Ignores n skb p rev tcpFlags := by
  constructor
  · intro huntouched p rev tcpFlags hp hrev hflags
    have hrow : flowStep (some rev.flags) p.proto tcpFlags .pod n.gcParity = .keep := by
      refine (touchReturnRow_same_iff hrev).mp fun h key => ?_
      have hsame := (huntouched h).2.2.1 key
      simp only [uplinkEgressReturn_reply hp, tunnelReply_touches hrev hflags] at hsame
      exact hsame
    obtain ⟨hok, hskb, _⟩ := huntouched fun _ => true
    have hkeep : n.touchReturnRow (fun _ => true) p.key rev p.proto tcpFlags = n := touchReturnRow_keep _ hrow
    simp only [uplinkEgressReturn_reply hp, tunnelReply, hrev, Option.isSome_some, egressReturnOutcome, if_true,
      hflags, hkeep] at hok hskb
    refine ⟨hrow, fun hport => ?_, fun hport => ?_⟩
    · by_contra hconfig
      obtain ⟨c, hc⟩ := Option.ne_none_iff_exists'.mp hconfig
      have hdone : Edit.rewriteL4Port (fun _ => true) (p.l2Hlen + p.family.ipHlen)
          (p.l2Hlen + p.family.ipHlen + 2) p.backendDstPort rev.originalClientPort p.proto skb = (skb, true) := by
        rw [Edit.rewriteL4Port, if_pos hport, Edit.done]
      simp only [hdone, hc, Option.map_some, Option.getD_some] at hok
      exact redirectToGeneve_ne_ok _ _ _ _ _ _ _ hok
    · cases hsum : skb.load.u16 (Edit.l4CsumOff (p.l2Hlen + p.family.ipHlen) p.proto) with
      | none => rfl
      | some sum =>
        have hold := egressAdmit_dstPort hp
        obtain ⟨skb', hset, hnew⟩ := rewriteL4Port_set rev.originalClientPort hold hsum
        simp only [hset] at hok hskb
        exfalso
        cases hconfig : n.config with
        | none =>
          simp only [hconfig, Option.map_none] at hskb
          -- the port of the packet is another
          have hdata := congrArg Skb.data hskb
          have hload : skb'.load = skb.load := by
            unfold Skb.load
            rw [show skb'.data = skb.data from hdata]
          rw [hload, hold, Option.some_inj] at hnew
          exact hport hnew
        | some c =>
          simp only [hconfig, Option.map_some, Option.getD_some] at hok
          exact redirectToGeneve_ne_ok _ _ _ _ _ _ _ hok
  · intro hignored
    cases hp : egressAdmit n skb with
    | none => exact untouched_of_no_reply hp
    | some p =>
      apply Untouched.of_eq
      intro h
      rw [uplinkEgressReturn_reply hp]
      unfold tunnelReply
      cases hrev : n.flowTableGetReverse p.key with
      | none => simp [egressReturnOutcome]
      | some rev =>
        simp only [Option.isSome_some, egressReturnOutcome, if_true]
        cases hflags : tcpFlagsDirect skb p.proto (p.l2Hlen + p.family.ipHlen) with
        | none => rfl
        | some tcpFlags =>
          have hignore := hignored p rev tcpFlags hp hrev hflags
          simp only [touchReturnRow_keep h hignore.row]
          by_cases hport : p.backendDstPort = rev.originalClientPort
          · simp only [Edit.rewriteL4Port, if_pos hport, Edit.done, hignore.natural hport, Option.map_none,
              Option.getD_none]
          · simp only [rewriteL4Port_refused h hport (hignore.remapped hport), Option.getD_none]

/-! ## Fragments -/

/-- An IPv4 fragment of TCP or UDP other than the first, without IP options. -/
structure NonFirstFragment (l2Hlen : Nat) (skb : Skb) : Prop where
  ethertype : l2Hlen = ethHlen → skb.load.u16 12 = some Family.v4.ethertype
  header : ∃ ver, skb.load.u8 l2Hlen = some ver ∧ Family.v4.uplinkHeaderOk ver = true
  proto : ∃ proto, skb.load.u8 (l2Hlen + Family.v4.protoOff) = some proto ∧ isFlowProto proto = true
  /-- the 13 bits of the fragment offset are not all zero -/
  offset : ∃ hi lo, skb.load.u8 (l2Hlen + 6) = some hi ∧ skb.load.u8 (l2Hlen + 7) = some lo ∧
    ¬ (hi &&& 0x1f = 0 ∧ lo = 0)

omit [Host] in
/-- What is behind a byte that can be read directly can be, too. -/
theorem loadDirect_before {skb : Skb} {off off' n n' : Nat} {v : Bytes n} {v' : Bytes n'}
    (hlater : skb.loadDirect off' n' = some v') (hle : off + n ≤ off' + n') (hload : skb.load off n = some v) :
    skb.loadDirect off n = some v := by
  unfold Skb.loadDirect at hlater ⊢
  split at hlater
  · rw [if_pos (by omega)]
    exact hload
  · cases hlater

omit [Host] in
theorem ofVersion_of_header {ver : UInt8} (h : Family.v4.uplinkHeaderOk ver = true) :
    Family.ofVersion (ver >>> 4) = some .v4 := by
  simp only [Family.uplinkHeaderOk, Bool.and_eq_true, decide_eq_true_eq] at h
  unfold Family.ofVersion
  rw [if_pos h.1]

namespace NonFirstFragment

variable {l2Hlen : Nat} {skb : Skb}

/-- A fragment is taken for IPv4, if for anything. -/
theorem family_eq (hfrag : NonFirstFragment l2Hlen skb) (hlen : l2Hlen = 0 ∨ l2Hlen = ethHlen) {fam : Family}
    (hfam : uplinkFamily l2Hlen skb = some (some fam)) : fam = .v4 := by
  unfold uplinkFamily at hfam
  rcases hlen with rfl | rfl
  · rw [if_neg (by decide)] at hfam
    obtain ⟨ver, hver, hok⟩ := hfrag.header
    rw [hver, Option.map_some, ofVersion_of_header hok, Option.some_inj, Option.some_inj] at hfam
    exact hfam.symm
  · rw [if_pos rfl] at hfam
    obtain ⟨ethertype, hread, hof⟩ := Option.map_eq_some_iff.mp hfam
    have hload := (refines_loadDirect skb 12).u16 (i := 0) hread
    rw [Nat.add_zero, hfrag.ethertype rfl, Option.some_inj] at hload
    rw [← hload, ofEthertype_ethertype, Option.some_inj] at hof
    exact hof.symm

/-- One whose payload can be read as ports is. -/
theorem family_of_frame (hfrag : NonFirstFragment l2Hlen skb) (hlen : l2Hlen = 0 ∨ l2Hlen = ethHlen)
    {q : InnerPacket} (hq : UplinkFrame .v4 l2Hlen skb q) : uplinkFamily l2Hlen skb = some (some .v4) := by
  unfold uplinkFamily
  rcases hlen with rfl | rfl
  · rw [if_neg (by decide)]
    obtain ⟨ver, hver, hok⟩ := hfrag.header
    rw [hver, Option.map_some, ofVersion_of_header hok]
  · rw [if_pos rfl]
    obtain ⟨b, hb, hether⟩ := Option.map_eq_some_iff.mp (hfrag.ethertype rfl)
    obtain ⟨b', hb', _⟩ := Option.map_eq_some_iff.mp hq.carries.dstPort
    have hdirect : skb.loadDirect 12 2 = some b := loadDirect_before hb' (by decide) hb
    rw [Loader.u16, hdirect, Option.map_some, Option.map_some, hether, ofEthertype_ethertype]

end NonFirstFragment

/-- The payload of a fragment reads as the transport header of this flow. -/
def MisreadOnIngress (n : Node) (skb : Skb) (f : IngressFlow) : Prop :=
  ∃ uplink, n.uplinkConfig.lookup skb.ingressIfindex = some uplink ∧
    (uplink.l2Hlen.toNat = 0 ∨ uplink.l2Hlen.toNat = ethHlen) ∧ UplinkPacket .v4 uplink.l2Hlen.toNat skb f

/-- The payload of a fragment a backend pod sent reads as the ports of this reply. -/
def MisreadOnEgress (n : Node) (skb : Skb) (p : ReplyPacket) : Prop :=
  isRedirectedReturnMark skb.mark = false ∧ ∃ uplink, n.uplinkConfig.lookup skb.ifindex = some uplink ∧
    (uplink.l2Hlen.toNat = 0 ∨ uplink.l2Hlen.toNat = ethHlen) ∧ UplinkFrame .v4 uplink.l2Hlen.toNat skb p.packet ∧
    p.family = .v4 ∧ p.l2Hlen = uplink.l2Hlen.toNat ∧ n.isPodTarget p.podIp = true

theorem misreadOnIngress_iff {n : Node} {skb : Skb} {f : IngressFlow}
    (hfrag : ∀ uplink, n.uplinkConfig.lookup skb.ingressIfindex = some uplink →
      NonFirstFragment uplink.l2Hlen.toNat skb) :
    MisreadOnIngress n skb f ↔ ∃ l2Hlen, ingressAdmit n skb = some (f, l2Hlen) := by
  constructor
  · rintro ⟨uplink, huplink, hlen, hpacket⟩
    refine ⟨uplink.l2Hlen.toNat, ingressAdmit_eq_some.mpr ⟨uplink, huplink, rfl, hlen, ?_⟩⟩
    have hfam := (hfrag uplink huplink).family_of_frame hlen hpacket.frame
    exact tryUplinkIngressHeaders_eq_some.mpr ⟨.v4, hfam, hpacket⟩
  · rintro ⟨l2Hlen, hadm⟩
    obtain ⟨uplink, huplink, rfl, hlen, hparse⟩ := ingressAdmit_eq_some.mp hadm
    obtain ⟨fam, hfam, hpacket⟩ := tryUplinkIngressHeaders_eq_some.mp hparse
    obtain rfl := (hfrag uplink huplink).family_eq hlen hfam
    exact ⟨uplink, huplink, hlen, hpacket⟩

theorem misreadOnEgress_iff {n : Node} {skb : Skb} {p : ReplyPacket}
    (hfrag : ∀ uplink, n.uplinkConfig.lookup skb.ifindex = some uplink →
      NonFirstFragment uplink.l2Hlen.toNat skb) :
    MisreadOnEgress n skb p ↔ egressAdmit n skb = some p := by
  rw [egressAdmit_eq_some]
  constructor
  · rintro ⟨hmark, uplink, huplink, hlen, hframe, hv4, hl2, htarget⟩
    have hfam := (hfrag uplink huplink).family_of_frame hlen hframe
    exact ⟨hmark, uplink, .v4, huplink, hlen, hfam, egressHeaders_eq_some.mpr ⟨hframe, hv4, hl2, htarget⟩⟩
  · rintro ⟨hmark, uplink, fam, huplink, hlen, hfam, hparsed⟩
    obtain rfl := (hfrag uplink huplink).family_eq hlen hfam
    obtain ⟨hframe, hv4, hl2, htarget⟩ := egressHeaders_eq_some.mp hparsed
    exact ⟨hmark, uplink, huplink, hlen, hframe, hv4, hl2, htarget⟩

/-- **Fragments.** One on an uplink's ingress is left alone if and only if its payload does not read as the ports
    of a front; one on an uplink's egress, if and only if its payload does not read as the ports of a reply for
    which there is something to do. -/
theorem fragment_untouched_iff :
    (∀ (n : Node) (skb : Skb), (∀ uplink, n.uplinkConfig.lookup skb.ingressIfindex = some uplink →
        NonFirstFragment uplink.l2Hlen.toNat skb) →
      (Untouched n skb (fun h => uplinkIngress n h skb) ↔
        ∀ f, MisreadOnIngress n skb f → n.frontMeta.lookup f.front = none ∨ n.config = none)) ∧
    ∀ (n : Node) (skb : Skb), (∀ uplink, n.uplinkConfig.lookup skb.ifindex = some uplink →
        NonFirstFragment uplink.l2Hlen.toNat skb) →
      (Untouched n skb (fun h => uplinkEgressReturn n h skb) ↔
        ∀ p rev tcpFlags, MisreadOnEgress n skb p → n.flowTableGetReverse p.key = some rev →
          tcpFlagsDirect skb p.proto (p.l2Hlen + p.family.ipHlen) = some tcpFlags →
          Ignores n skb p rev tcpFlags) := by
  refine ⟨fun n skb hfrag => ?_, fun n skb hfrag => ?_⟩
  · rw [uplinkIngress_untouched_iff]
    constructor
    · intro h f hf
      obtain ⟨l2Hlen, hadm⟩ := (misreadOnIngress_iff hfrag).mp hf
      exact h f l2Hlen hadm
    · intro h f l2Hlen hadm
      exact h f ((misreadOnIngress_iff hfrag).mpr ⟨l2Hlen, hadm⟩)
  · rw [uplinkEgress_untouched_iff]
    constructor
    · intro h p rev tcpFlags hp
      exact h p rev tcpFlags ((misreadOnEgress_iff hfrag).mp hp)
    · intro h p rev tcpFlags hp
      exact h p rev tcpFlags ((misreadOnEgress_iff hfrag).mpr hp)

end Beep

/-! ## A fragment that is pinned -/

namespace Beep

section
local instance fragmentHost : Host := littleHost

/-- The second fragment of a datagram from `198.51.100.7` to `192.0.2.1`, at offset 1480: its payload begins with
    the bytes of the ports 40000 and 80. -/
def secondFragment : Skb :=
  { clientSkb with data := clientSkb.data.set 21 0xb9 }

theorem nonFirstFragment_second : NonFirstFragment 14 secondFragment where
  ethertype := fun _ => by decide
  header := ⟨0x45, by decide, by decide⟩
  proto := ⟨17, by decide, by decide⟩
  offset := ⟨0, 0xb9, by decide, by decide, by decide⟩

/-- It mints the pin of a flow, and is tunnelled. -/
theorem not_fragment_untouched :
    NonFirstFragment 14 secondFragment ∧
      ((oneIngress.step (.uplinkIngress secondFragment fun _ => true)).fwdPending.lookup clientFlow.flowKey).isSome =
        true ∧
      ¬ Untouched oneIngress secondFragment (fun h => uplinkIngress oneIngress h secondFragment) := by
  refine ⟨nonFirstFragment_second, by decide, fun huntouched => ?_⟩
  have hverdict : (uplinkIngress oneIngress (fun _ => true) secondFragment).2.2 ≠ .ok := by decide
  exact hverdict (huntouched fun _ => true).1

end

end Beep
