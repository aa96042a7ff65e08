import Beep.Ebpf.Correctness.Affinity
import Beep.Ebpf.Footprint
import Beep.Ebpf.Tunnel

/-!
# `Ebpf.Correctness.Families` — IPv4 and IPv6 packets keep out of each other's entries

Both families share one key space: an IPv4 address is embedded under `::ffff:0:0/96`, an IPv6 address is taken
off the wire as it is. So an entry is an IPv4 one when all addresses in its key lie in that range, and an IPv6
one otherwise, and a packet keeps to its own family exactly when the addresses of its first lookup do
(`families_apart`). None of the programs checks that of an IPv6 packet. Where it holds of every packet of a
run, the IPv4 packets fare as if no IPv6 packet had come, and the other way round.
-/

namespace Beep

open Run

variable [Host]

/-! ## Families of entries -/

/-- The other family. -/
def Family.other : Family → Family
  | .v4 => .v6
  | .v6 => .v4

/-- The family a key with these addresses belongs to. -/
def addrsFamily (addrs : List (Bytes 16)) : Family :=
  if addrs.all fun addr => (unmapIpv4 addr).isSome then .v4 else .v6

/-- The family an entry belongs to. -/
def EntryKey.family (key : EntryKey) : Family := addrsFamily key.addrs

/-- The family of a packet, as its program tells it. -/
def Node.packetFamily (n : Node) : NodeEvent → Option Family
  | .uplinkIngress skb _ =>
      match n.uplinkConfig.lookup skb.ingressIfindex with
      | none => none
      | some uplink => (uplinkFamily uplink.l2Hlen.toNat skb).join
  | .geneveIngress skb _ => (skb.load.u16 12).bind Family.ofEthertype
  | .uplinkEgress skb _ =>
      match n.uplinkConfig.lookup skb.ifindex with
      | none => none
      | some uplink => (uplinkFamily uplink.l2Hlen.toNat skb).join
  | _ => none

/-- The addresses of the first entry a packet's program looks up: the destination of an uplink packet, the
    pod of a forward frame's option, the client and the echoed front of a return frame whose flags can be read,
    the source of a packet on its way out. -/
def Node.firstAddrs (n : Node) : NodeEvent → Option (List (Bytes 16))
  | .uplinkIngress skb _ => (ingressAdmit n skb).map fun found => [found.1.front.frontIp]
  | .geneveIngress skb _ =>
      match skb.received with
      | none => none
      | some info =>
          if info.tunnelId = vniFwd then (podOption n skb info).map fun pod => [pod.1]
          else
            -- a return frame is looked up only after its flags are read
            (decapReturnAdmit n skb).bind fun p => (p.tcpFlags skb).map fun _ => [p.inner.dstIp, p.frontIp]
  | .uplinkEgress skb _ =>
      match egressFrame n skb with
      | none => none
      | some (l2Hlen, fam) => (egressSource fam l2Hlen skb).map fun src => [src]
  | _ => none

/-- A packet seeks entries of its own family only. -/
def Node.KeepsApart (n : Node) (e : NodeEvent) : Prop :=
  ∀ fam, n.packetFamily e = some fam → ∀ key, n.Seeks e key → key.family = fam

/-- The addresses a packet is first looked up by are of its own family. -/
def Node.OwnAddrs (n : Node) (e : NodeEvent) : Prop :=
  ∀ fam, n.packetFamily e = some fam → ∀ addrs, n.firstAddrs e = some addrs → addrsFamily addrs = fam

/-! ## Addresses off the wire -/

theorem loadAddr_mapped {load : Loader} {off : Nat} {addr : Bytes 16}
    (h : Family.v4.loadAddr load off = some addr) : (unmapIpv4 addr).isSome := by
  obtain ⟨b, _, rfl⟩ := Option.map_eq_some_iff.mp h
  rw [unmapIpv4_ipv4MappedV6]
  rfl

/-- The family of a pair of addresses is that of the second, if the first is an IPv4 address where the second
    is. -/
theorem addrsFamily_pair {a b : Bytes 16} {fam : Family} (hb : addrsFamily [b] = fam)
    (ha : fam = .v4 → (unmapIpv4 a).isSome) : addrsFamily [a, b] = fam := by
  unfold addrsFamily at *
  simp only [List.all_cons, List.all_nil, Bool.and_true] at *
  cases hmapped : (unmapIpv4 b).isSome with
  | false =>
    rw [hmapped] at hb
    rw [Bool.and_false]
    exact hb
  | true =>
    rw [hmapped] at hb
    rw [ha hb.symm]
    exact hb

theorem ingressAdmit_frame {n : Node} {skb : Skb} {h : Helpers} {f : IngressFlow} {l2Hlen : Nat}
    (hadm : ingressAdmit n skb = some (f, l2Hlen)) :
    ∃ fam, n.packetFamily (.uplinkIngress skb h) = some fam ∧ UplinkPacket fam l2Hlen skb f := by
  unfold ingressAdmit at hadm
  cases huplink : n.uplinkConfig.lookup skb.ingressIfindex with
  | none => simp [huplink] at hadm
  | some uplink =>
    simp only [huplink] at hadm
    split at hadm
    · obtain ⟨g, hg, heq⟩ := Option.map_eq_some_iff.mp hadm
      obtain ⟨rfl, rfl⟩ := Prod.mk.inj heq
      obtain ⟨fam, hfam, hpacket⟩ := tryUplinkIngressHeaders_eq_some.mp hg
      exact ⟨fam, by simp [Node.packetFamily, huplink, hfam], hpacket⟩
    · cases hadm

theorem innerPacket_family {n : Node} {skb : Skb} {h : Helpers} {fam : Family} {inner : InnerPacket}
    (hinner : innerPacket skb = some (fam, inner)) : n.packetFamily (.geneveIngress skb h) = some fam := by
  obtain ⟨ethertype, hload, hfam, _⟩ := innerPacket_eq_some.mp hinner
  simp [Node.packetFamily, hload, hfam]

theorem egressFrame_eq_some {n : Node} {skb : Skb} {l2Hlen : Nat} {fam : Family} :
    egressFrame n skb = some (l2Hlen, fam) ↔
      isRedirectedReturnMark skb.mark = false ∧ ∃ uplink, n.uplinkConfig.lookup skb.ifindex = some uplink ∧
        uplink.l2Hlen.toNat = l2Hlen ∧ (l2Hlen = 0 ∨ l2Hlen = ethHlen) ∧
        uplinkFamily l2Hlen skb = some (some fam) := by
  simp only [egressFrame, Option.bind_eq_bind, Option.bind_eq_some_iff, Option.guard_eq_some',
    Bool.not_eq_eq_eq_not, Bool.not_true, Option.pure_def, Option.some.injEq, Prod.mk.injEq]
  constructor
  · rintro ⟨_, hmark, uplink, huplink, _, hlen, found, hfound, fam', rfl, rfl, rfl⟩
    exact ⟨hmark, uplink, huplink, rfl, hlen, hfound⟩
  · rintro ⟨hmark, uplink, huplink, rfl, hlen, hfam⟩
    exact ⟨(), hmark, uplink, huplink, (), hlen, some fam, hfam, fam, rfl, rfl, rfl⟩

theorem egressSource_of_frame {fam : Family} {l2Hlen : Nat} {skb : Skb} {q : InnerPacket}
    (h : UplinkFrame fam l2Hlen skb q) : egressSource fam l2Hlen skb = some q.srcIp := by
  obtain ⟨ver, hver, hok⟩ := h.header
  simp [egressSource, hver, hok, h.carries.proto, h.flowProto, h.carries.srcIp, guard]

/-- A reply the program takes is a frame from the pod it was first looked up by. -/
theorem egressAdmit_frame {n : Node} {skb : Skb} {h : Helpers} {p : ReplyPacket}
    (hadm : egressAdmit n skb = some p) :
    n.packetFamily (.uplinkEgress skb h) = some p.family ∧
      n.firstAddrs (.uplinkEgress skb h) = some [p.podIp] ∧ UplinkFrame p.family p.l2Hlen skb p.packet := by
  obtain ⟨hmark, uplink, fam, huplink, hlen, hfam, hparsed⟩ := egressAdmit_eq_some.mp hadm
  obtain ⟨hframe, rfl, hl2, _⟩ := egressHeaders_eq_some.mp hparsed
  have hegress : egressFrame n skb = some (uplink.l2Hlen.toNat, p.family) :=
    egressFrame_eq_some.mpr ⟨hmark, uplink, huplink, rfl, hlen, hfam⟩
  refine ⟨by simp [Node.packetFamily, huplink, hfam], ?_, hl2 ▸ hframe⟩
  simp only [Node.firstAddrs, hegress, egressSource_of_frame hframe, Option.map_some, ReplyPacket.packet]

/-! ## One packet -/

/-- The first addresses are those of an entry that is sought. -/
theorem firstAddrs_sought {n : Node} {e : NodeEvent} {addrs : List (Bytes 16)}
    (h : n.firstAddrs e = some addrs) : ∃ key, n.Seeks e key ∧ key.addrs = addrs := by
  cases e with
  | uplinkIngress skb helpers =>
    obtain ⟨found, hadm, rfl⟩ := Option.map_eq_some_iff.mp h
    exact ⟨_, .front hadm, rfl⟩
  | geneveIngress skb helpers =>
    unfold Node.firstAddrs at h
    cases hinfo : skb.received with
    | none => simp [hinfo] at h
    | some info =>
      simp only [hinfo] at h
      split at h
      · rename_i hvni
        obtain ⟨pod, hopt, rfl⟩ := Option.map_eq_some_iff.mp h
        exact ⟨_, .optionPod hinfo hvni hopt, rfl⟩
      · obtain ⟨p, hadm, hread⟩ := Option.bind_eq_some_iff.mp h
        obtain ⟨tcpFlags, hflags, rfl⟩ := Option.map_eq_some_iff.mp hread
        exact ⟨_, .returnForward hadm hflags, EntryKey.addrs_encodeFlowKey ..⟩
  | uplinkEgress skb helpers =>
    unfold Node.firstAddrs at h
    cases hframe : egressFrame n skb with
    | none => simp [hframe] at h
    | some found =>
      simp only [hframe] at h
      obtain ⟨src, hsrc, rfl⟩ := Option.map_eq_some_iff.mp h
      exact ⟨_, .sourcePod hframe hsrc, rfl⟩
  | _ => simp [Node.firstAddrs] at h

/-- Every entry a packet seeks belongs to the family of its first addresses. -/
theorem Node.OwnAddrs.keepsApart {n : Node} {e : NodeEvent} (h : n.OwnAddrs e) : n.KeepsApart e := by
  intro fam hfam key hseeks
  have hfirst := h fam hfam
  unfold EntryKey.family
  -- the client's address comes off the wire, so it is an IPv4 one for an IPv4 packet
  cases hseeks with
  | front hadm => exact hfirst _ (by simp only [Node.firstAddrs, hadm, Option.map_some]; rfl)
  | pending hadm | forward hadm =>
    obtain ⟨fam', hfam', hpacket⟩ := ingressAdmit_frame hadm
    rw [hfam] at hfam'
    obtain rfl := Option.some_inj.mp hfam'
    have hfront := hfirst _ (by simp only [Node.firstAddrs, hadm, Option.map_some]; rfl)
    simp only [IngressFlow.flowKey, IngressFlow.fwdKey, EntryKey.addrs_encodeTcpFlowKey,
      EntryKey.addrs_encodeFlowKey]
    exact addrsFamily_pair hfront fun hv4 => loadAddr_mapped (hv4 ▸ hpacket.frame.carries.srcIp)
  | optionPod hinfo hvni hopt =>
    exact hfirst _ (by simp only [Node.firstAddrs, hinfo, if_pos hvni, hopt, Option.map_some]; rfl)
  | memo hadm | reverse hadm _ =>
    obtain ⟨info, podIp, targetPort, fam', inner, hinfo, hvni, hgate, hinner, rfl⟩ :=
      decapForwardAdmit_eq_some.mp hadm
    rw [innerPacket_family hinner] at hfam
    obtain rfl := Option.some_inj.mp hfam
    rw [decapForwardGate_eq, Option.filter_eq_some_iff] at hgate
    have hpod := hfirst _ (by simp only [Node.firstAddrs, hinfo, if_pos hvni, hgate.1, Option.map_some]; rfl)
    simp only [ClientFlow.memoKey, ClientFlow.revKey, EntryKey.addrs_encodeFlowKey]
    exact addrsFamily_pair hpod fun hv4 =>
      loadAddr_mapped (hv4 ▸ (innerPacket_iff.mp hinner).2.2.2.srcIp)
  | returnForward hadm hflags | returnPending hadm hflags =>
    obtain ⟨info, hinfo, hvni, _⟩ := decapReturnAdmit_eq_some.mp hadm
    have hother : ¬ info.tunnelId = vniFwd := by
      rw [hvni]
      decide
    have hboth := hfirst _ (by
      simp only [Node.firstAddrs, hinfo, if_neg hother, hadm, Option.bind_some, hflags, Option.map_some]
      rfl)
    simp only [ReturnPacket.fwdKey, ReturnPacket.flowKey, EntryKey.addrs_encodeFlowKey,
      EntryKey.addrs_encodeTcpFlowKey]
    exact hboth
  | sourcePod hframe hsrc =>
    exact hfirst _ (by simp only [Node.firstAddrs, hframe, hsrc, Option.map_some]; rfl)
  | reply hadm =>
    obtain ⟨hfam', hsrc, hframe⟩ := egressAdmit_frame (h := _) hadm
    rw [hfam'] at hfam
    obtain rfl := Option.some_inj.mp hfam
    simp only [ReplyPacket.key, EntryKey.addrs_encodeFlowKey]
    exact addrsFamily_pair (hfirst _ hsrc) fun hv4 => loadAddr_mapped (hv4 ▸ hframe.carries.dstIp)

theorem keepsApart_iff {n : Node} {e : NodeEvent} : n.KeepsApart e ↔ n.OwnAddrs e := by
  refine ⟨fun h fam hfam addrs haddrs => ?_, Node.OwnAddrs.keepsApart⟩
  obtain ⟨key, hseeks, rfl⟩ := firstAddrs_sought haddrs
  exact h fam hfam key hseeks

/-! ## Runs -/

theorem packetFamily_congr {K : EntryKey → Prop} {n n' : Node} (h : AgreeOn K n n') (e : NodeEvent) :
    n.packetFamily e = n'.packetFamily e := by
  unfold Node.packetFamily
  rw [h.uplinkConfig]

/-- A packet of no family changes nothing. -/
theorem step_of_no_family {n : Node} {e : NodeEvent} (hpacket : e.IsPacket) (hfam : n.packetFamily e = none) :
    n.step e = n := by
  cases e with
  | uplinkIngress skb helpers =>
    simp only [Node.step, uplinkIngress_fst]
    cases hadm : ingressAdmit n skb with
    | none => rfl
    | some found =>
      obtain ⟨fam, hfam', _⟩ := ingressAdmit_frame (h := helpers) hadm
      rw [hfam] at hfam'
      cases hfam'
  | geneveIngress skb helpers =>
    have hinner : innerPacket skb = none := by
      cases hinner : innerPacket skb with
      | none => rfl
      | some found =>
        rw [innerPacket_family (n := n) (h := helpers) hinner] at hfam
        cases hfam
    have hfwd : decapForwardAdmit n skb = none := by simp [decapForwardAdmit, hinner]
    have hret : decapReturnAdmit n skb = none := by simp [decapReturnAdmit, hinner]
    obtain ⟨v, hv⟩ := geneveIngress_other (h := helpers) hfwd hret
    simp only [Node.step, hv]
  | uplinkEgress skb helpers =>
    cases hadm : egressAdmit n skb with
    | none =>
      obtain ⟨skb', hskb'⟩ := uplinkEgressReturn_other (h := helpers) hadm
      simp only [Node.step, hskb']
    | some p =>
      rw [(egressAdmit_frame (h := helpers) hadm).1] at hfam
      cases hfam
  | _ => exact hpacket.elim

theorem isPacket_of_family {n : Node} {e : NodeEvent} {fam : Family} (h : n.packetFamily e = some fam) :
    e.IsPacket := by
  cases e with
  | uplinkIngress _ _ | geneveIngress _ _ | uplinkEgress _ _ => trivial
  | _ => simp [Node.packetFamily] at h

omit [Host] in
theorem Family.eq_or_other (fam fam' : Family) : fam' = fam ∨ fam' = fam.other := by
  cases fam <;> cases fam' <;> simp [Family.other]

omit [Host] in
theorem Family.other_ne (fam : Family) : fam.other ≠ fam := by cases fam <;> decide

/-- The entries of one family. -/
def OfFamily (fam : Family) (key : EntryKey) : Prop := key.family = fam

/-- Whether a packet belongs to a family. -/
def Node.isOf (fam : Family) (n : Node) (e : NodeEvent) : Bool := n.packetFamily e = some fam

/-- **Non-interference.** Where every packet is first looked up by addresses of its own family, the entries of
    a family at the end of a run are those the run leaves without the other family's packets. -/
theorem agree_without_other (fam : Family) {n : Node} {es : List NodeEvent}
    (h : Along Node.step Node.OwnAddrs n es) :
    AgreeOn (OfFamily fam) (es.foldl Node.step n) (without Node.step (Node.isOf fam.other) n es) := by
  refine h.unwind (R := AgreeOn (OfFamily fam)) ?_ ?_ ?_ (.refl n)
  · intro s t e hst
    unfold Node.isOf
    rw [packetFamily_congr hst]
  · -- the other family's packets write no entry of this one
    intro s t e hst hown hother
    have hfam : s.packetFamily e = some fam.other := of_decide_eq_true hother
    refine AgreeOn.trans (AgreeOn.unsought (isPacket_of_family hfam) fun key hseeks hkey => ?_) hst
    exact fam.other_ne ((hown.keepsApart _ hfam key hseeks).symm.trans hkey)
  · intro s t e hst hown hnot
    have hnot : s.packetFamily e ≠ some fam.other := of_decide_eq_false hnot
    cases hfam : s.packetFamily e with
    | some fam' =>
      rcases fam.eq_or_other fam' with rfl | rfl
      · exact hst.step fun key hseeks => hown.keepsApart _ hfam key hseeks
      · exact absurd hfam hnot
    | none =>
      by_cases hpacket : e.IsPacket
      · rw [step_of_no_family hpacket hfam, step_of_no_family hpacket ((packetFamily_congr hst e).symm.trans hfam)]
        exact hst
      · refine hst.step fun key hseeks => absurd ?_ hpacket
        cases hseeks <;> trivial

/-- **Address families.** On any maps a packet of either family seeks entries of its own family only, exactly
    when the addresses it is first looked up by are of its own family. Along a run of such packets the entries
    of a family, and what becomes of its next packet, are those of the run without the other family's packets. -/
theorem families_apart :
    (∀ (n : Node) (e : NodeEvent), n.KeepsApart e ↔ n.OwnAddrs e) ∧
    ∀ (n : Node) (es : List NodeEvent), Along Node.step Node.OwnAddrs n es → ∀ fam : Family,
      AgreeOn (OfFamily fam) (es.foldl Node.step n) (without Node.step (Node.isOf fam.other) n es) ∧
      ∀ e, (es.foldl Node.step n).packetFamily e = some fam → (es.foldl Node.step n).OwnAddrs e →
        (es.foldl Node.step n).outcome e = (without Node.step (Node.isOf fam.other) n es).outcome e := by
  refine ⟨fun n e => keepsApart_iff, fun n es h fam => ?_⟩
  have hagree := agree_without_other fam h
  exact ⟨hagree, fun e hfam hown => hagree.packet fun key hseeks => hown.keepsApart _ hfam key hseeks⟩

end Beep

/-! ## An IPv6 packet between mapped addresses -/

namespace Beep

open Run

/-- An IPv6 packet from `::ffff:198.51.100.7` to `::ffff:192.0.2.1`, with the client's ports. -/
def mappedSkb [Host] : Skb := { clientSkb with
  data := List.replicate 12 0 ++ [0x86, 0xdd, 0x60, 0, 0, 0, 0, 8, 17, 64] ++ (mappedAddr 198 51 100 7).toList ++
    (mappedAddr 192 0 2 1).toList ++ [0x9c, 0x40, 0, 80, 0, 8, 0, 0]
  linear := 62 }

/-- It pins the flow of an IPv4 client. -/
theorem not_families_apart :
    letI := littleHost
    let e : NodeEvent := .uplinkIngress mappedSkb fun _ => true
    (¬ ∀ (n : Node) (e : NodeEvent), n.KeepsApart e) ∧
      oneIngress.packetFamily e = some .v6 ∧ (EntryKey.fwdPending clientFlow.flowKey).family = .v4 ∧
      oneIngress.fwdPending.lookup clientFlow.flowKey = none ∧
      (oneIngress.step e).fwdPending.lookup clientFlow.flowKey ≠ none := by
  let := littleHost
  have hfam : oneIngress.packetFamily (.uplinkIngress mappedSkb fun _ => true) = some .v6 := by decide
  have hadm : ingressAdmit oneIngress mappedSkb =
      some ({ clientFlow with ethertype := Family.v6.ethertype }, 14) := by decide
  have hkey : (EntryKey.fwdPending clientFlow.flowKey).family = .v4 := by decide
  refine ⟨fun hall => ?_, hfam, hkey, rfl, by decide⟩
  have hv6 := hall oneIngress _ .v6 hfam _ (.pending hadm)
  exact Family.noConfusion (hkey.symm.trans hv6)

end Beep
