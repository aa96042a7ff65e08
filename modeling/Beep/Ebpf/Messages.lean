import Beep.Ebpf.Network

/-!
# `Ebpf.Messages` — what the tunnel carries

The two uplink programs are the only ones that send. What each of them sends is said here by what the other
end will read: a forward packet is a frame of the client's packet with the pod option of its answer, a reply
is a frame of the pod's packet with the front echo of its row. `ForwardMessage` and `ReturnMessage` are the
same as predicates on what is in the tunnel, and `taken` says what a node that takes such a packet has in
hand.
-/

namespace Beep

variable [Host] {ι : Type*}

/-! ## Into the tunnel -/

theorem ingressAdmit_eq_some {n : Node} {skb : Skb} {f : IngressFlow} {l2Hlen : Nat} :
    ingressAdmit n skb = some (f, l2Hlen) ↔
      ∃ uplink, n.uplinkConfig.lookup skb.ingressIfindex = some uplink ∧ l2Hlen = uplink.l2Hlen.toNat ∧
        (l2Hlen = 0 ∨ l2Hlen = ethHlen) ∧ tryUplinkIngressHeaders l2Hlen skb = some f := by
  unfold ingressAdmit
  cases n.uplinkConfig.lookup skb.ingressIfindex with
  | none => simp
  | some uplink =>
    simp only
    split
    · rename_i hlen
      simp only [Option.map_eq_some_iff, Prod.mk.injEq, Option.some.injEq, exists_eq_left']
      constructor
      · rintro ⟨g, hg, rfl, rfl⟩
        exact ⟨rfl, hlen, hg⟩
      · rintro ⟨rfl, _, hg⟩
        exact ⟨f, hg, rfl, rfl⟩
    · rename_i hlen
      simp only [reduceCtorEq, Option.some.injEq, exists_eq_left', false_iff]
      rintro ⟨rfl, hlen', _⟩
      exact hlen hlen'

/-- No error of `ingress_backend` is a redirect. -/
theorem steer_error {n : Node} {h : Helpers} {f : IngressFlow} {ifindex : UInt32} {verdict : TcAction}
    (herr : (n.steer h f ifindex).2 = .error verdict) : verdict = .ok ∨ verdict = .shot := by
  generalize hres : n.steer h f ifindex = res at herr
  have hs := steer_steered n h f ifindex
  rw [hres] at hs
  cases hs with
  | notFront _ | unpinned _ _ => exact Or.inl (Except.error.inj herr).symm
  | missed _ _ => exact Or.inr (Except.error.inj herr).symm
  | established _ _ _ | pending _ _ _ _ | minted _ _ _ _ => cases herr

/-- An uplink packet that is redirected was answered, and is redirected to the answer. -/
theorem uplinkIngress_redirect {n : Node} {h : Helpers} {skb : Skb} {ifindex : UInt32} {neigh : Bool}
    (hres : (uplinkIngress n h skb).2.2 = .redirect ifindex neigh) :
    ∃ f l2Hlen answer geneveIfindex, ingressAdmit n skb = some (f, l2Hlen) ∧
      (n.steer h f skb.ingressIfindex).2 = .ok answer ∧
      skb.redirectToGeneve h geneveIfindex answer.1.backendNodeIp vniFwd
        (encodePodIdOption answer.1.podIp answer.2) (if l2Hlen = 0 then f.ethertype else noL3Ethertype) =
        ((uplinkIngress n h skb).2.1, .redirect ifindex neigh) := by
  have hun : uplinkIngress n h skb = ((tryUplinkIngress n h skb).1, (tryUplinkIngress n h skb).2.1,
    (tryUplinkIngress n h skb).2.2.getD .ok) := rfl
  rw [hun] at hres ⊢
  unfold tryUplinkIngress at hres ⊢
  cases hadm : ingressAdmit n skb with
  | none =>
    rw [hadm] at hres
    cases hres
  | some found =>
    obtain ⟨f, l2Hlen⟩ := found
    simp only [hadm] at hres ⊢
    rcases hsteer : n.steer h f skb.ingressIfindex with ⟨n', verdict | ⟨backend, targetPort⟩⟩
    · -- an error is no redirect
      have henc : uplinkIngressEncap n h skb skb.ingressIfindex f (l2Hlen = 0) = (n', skb, some verdict) := by
        unfold Node.steer IngressFlow.flowKey IngressFlow.fwdKey at hsteer
        simp only [uplinkIngressEncap, hsteer]
      rw [henc] at hres
      rcases steer_error (congrArg Prod.snd hsteer) with rfl | rfl <;> cases hres
    · cases hconfig : n'.config.map (·.geneveIfindex) with
      | none =>
        have henc : uplinkIngressEncap n h skb skb.ingressIfindex f (l2Hlen = 0) = (n', skb, none) := by
          unfold Node.steer IngressFlow.flowKey IngressFlow.fwdKey at hsteer
          simp only [uplinkIngressEncap, hsteer, hconfig]
        rw [henc] at hres
        cases hres
      | some geneveIfindex =>
        refine ⟨f, l2Hlen, (backend, targetPort), geneveIfindex, rfl, by rw [hsteer], ?_⟩
        unfold Node.steer IngressFlow.flowKey IngressFlow.fwdKey at hsteer
        simp only [uplinkIngressEncap, hsteer, hconfig, decide_eq_true_eq, Option.getD_some] at hres ⊢
        rw [← hres]

/-- A packet on an uplink's egress that is redirected is a pod's reply with a row. -/
theorem uplinkEgress_redirect {n : Node} {h : Helpers} {skb : Skb} {ifindex : UInt32} {neigh : Bool}
    (hres : (uplinkEgressReturn n h skb).2.2 = .redirect ifindex neigh) :
    ∃ p rev tcpFlags skb₁ geneveIfindex, egressAdmit n skb = some p ∧
      n.flowTableGetReverse p.key = some rev ∧
      tcpFlagsDirect skb p.proto (p.l2Hlen + p.family.ipHlen) = some tcpFlags ∧
      Edit.rewriteL4Port h (p.l2Hlen + p.family.ipHlen) (p.l2Hlen + p.family.ipHlen + 2) p.backendDstPort
        rev.originalClientPort p.proto skb = (skb₁, true) ∧
      skb₁.redirectToGeneve h geneveIfindex rev.ingressNodeIp vniRet
        (encodeFrontEcho rev.frontIp rev.frontPort)
        (if p.l2Hlen = 0 then p.family.ethertype else noL3Ethertype) =
        ((uplinkEgressReturn n h skb).2.1, .redirect ifindex neigh) := by
  cases hp : egressAdmit n skb with
  | none =>
    obtain ⟨skb', hskb'⟩ := uplinkEgressReturn_other (h := h) hp
    rw [hskb'] at hres
    cases hres
  | some p =>
    rw [uplinkEgressReturn_reply hp] at hres ⊢
    unfold tunnelReply at hres ⊢
    cases hrev : n.flowTableGetReverse p.key with
    | none => simp [hrev, egressReturnOutcome] at hres
    | some rev =>
      simp only [hrev, Option.isSome_some, egressReturnOutcome, if_true] at hres ⊢
      cases hflags : tcpFlagsDirect skb p.proto (p.l2Hlen + p.family.ipHlen) with
      | none => simp [hflags] at hres
      | some tcpFlags =>
        simp only [hflags] at hres ⊢
        rcases hedit : Edit.rewriteL4Port h (p.l2Hlen + p.family.ipHlen) (p.l2Hlen + p.family.ipHlen + 2)
          p.backendDstPort rev.originalClientPort p.proto skb with ⟨skb₁, _ | _⟩
        · simp [hedit] at hres
        · simp only [hedit] at hres ⊢
          cases hconfig : (n.touchReturnRow h p.key rev p.proto tcpFlags).config.map (·.geneveIfindex) with
          | none => simp [hconfig] at hres
          | some geneveIfindex =>
            simp only [hconfig, Option.getD_some] at hres ⊢
            refine ⟨p, rev, tcpFlags, skb₁, geneveIfindex, rfl, hrev, hflags, hedit, ?_⟩
            rw [← hres]

/-! ## What is in the tunnel -/

/-- A frame of these bytes is read as this packet, with these TCP flags. -/
def Says (data : List UInt8) (fam : Family) (q : InnerPacket) (tcpFlags : UInt8) : Prop :=
  ∀ skb : Skb, skb.data = data → innerPacket skb = some (fam, q) ∧
    tcpFlagsDirect skb q.proto (ethHlen + fam.ipHlen) = some tcpFlags

/-- What a frame says depends on its bytes only. -/
theorem says_data {skb : Skb} {fam : Family} {q : InnerPacket} {tcpFlags : UInt8}
    (hq : innerPacket skb = some (fam, q))
    (hflags : tcpFlagsDirect skb q.proto (ethHlen + fam.ipHlen) = some tcpFlags) :
    Says skb.data fam q tcpFlags := by
  intro skb' hdata
  have hload : skb'.load = skb.load := by
    unfold Skb.load
    rw [hdata]
  obtain ⟨hether, hheader, hflow, hcarries⟩ := innerPacket_iff.mp hq
  constructor
  · refine innerPacket_iff.mpr ⟨hload ▸ hether, ?_, hflow, hload ▸ hcarries⟩
    cases fam with
    | v4 =>
      rw [Family.innerHeaderOk, hload]
      exact hheader
    | v6 => rfl
  · rw [← hflags]
    unfold tcpFlagsDirect
    rw [hload]

/-- The packet a client's packet is tunnelled as. -/
theorem sends_of_uplinkIngress {n : Node} {src : Bytes 16} {skb : Skb} {h : Helpers} {m : TunnelPacket}
    (hm : n.sends src (.uplinkIngress skb h) = some m) :
    ∃ a, n.admits (.uplinkIngress skb h) = some a ∧ m.src = src ∧ m.vni = vniFwd ∧
      m.options = (encodePodIdOption a.answer.1.podIp a.answer.2).toList ∧
      ∃ fam, Says m.data fam a.flow.packet a.flow.tcpFlags := by
  simp only [Node.sends] at hm
  cases hverdict : (uplinkIngress n h skb).2.2 with
  | ok | shot => simp [hverdict, tunnelled] at hm
  | redirect ifindex neigh =>
    rw [hverdict] at hm
    obtain ⟨f, l2Hlen, answer, geneveIfindex, hadm, hok, hredirect⟩ := uplinkIngress_redirect hverdict
    obtain ⟨uplink, _, _, hlen, hparse⟩ := ingressAdmit_eq_some.mp hadm
    obtain ⟨fam, hfam, hpacket⟩ := tryUplinkIngressHeaders_eq_some.mp hparse
    rw [hpacket.ethertype] at hredirect
    obtain ⟨hstamped, hframe⟩ := framedFrom_redirect hlen hfam hredirect
    simp only [tunnelled, hstamped, Option.map_some, Option.some.injEq] at hm
    subst hm
    refine ⟨⟨f, answer, skb.ingressIfindex⟩, ?_, rfl, rfl, rfl, fam, ?_⟩
    · simp only [Node.admits, hadm, hok]
    · exact says_data (hframe.innerPacket hpacket.frame) (hframe.tcpFlags hpacket.tcpFlagsDirect)

/-- The packet a pod's reply is tunnelled as, where it is not remapped. -/
theorem sends_of_uplinkEgress {n : Node} {src : Bytes 16} {skb : Skb} {h : Helpers} {m : TunnelPacket}
    (hnatural : ∀ p rev, egressAdmit n skb = some p → n.flowTableGetReverse p.key = some rev →
      rev.originalClientPort = p.backendDstPort)
    (hm : n.sends src (.uplinkEgress skb h) = some m) :
    ∃ p rev tcpFlags, egressAdmit n skb = some p ∧ n.flowTableGetReverse p.key = some rev ∧
      tcpFlagsDirect skb p.proto (p.l2Hlen + p.family.ipHlen) = some tcpFlags ∧ m.src = src ∧
      m.dst = rev.ingressNodeIp ∧ m.vni = vniRet ∧
      m.options = (encodeFrontEcho rev.frontIp rev.frontPort).toList ∧
      Says m.data p.family p.packet tcpFlags ∧ m.data.length + p.l2Hlen = skb.data.length + ethHlen := by
  simp only [Node.sends] at hm
  cases hverdict : (uplinkEgressReturn n h skb).2.2 with
  | ok | shot => simp [hverdict, tunnelled] at hm
  | redirect ifindex neigh =>
    rw [hverdict] at hm
    obtain ⟨p, rev, tcpFlags, skb₁, geneveIfindex, hp, hrev, hflags, hedit, hredirect⟩ :=
      uplinkEgress_redirect hverdict
    obtain ⟨_, uplink, fam, _, hlen, hfam, hparsed⟩ := egressAdmit_eq_some.mp hp
    obtain ⟨hframe, rfl, hl2, _⟩ := egressHeaders_eq_some.mp hparsed
    -- the port is the client's own, so nothing is rewritten
    have hsame : skb₁ = skb := by
      rw [hnatural p rev hp hrev, Edit.rewriteL4Port, if_pos rfl] at hedit
      exact (Prod.mk.inj hedit).1.symm
    subst hsame
    rw [← hl2] at hlen hfam hframe
    obtain ⟨hstamped, hframed⟩ := framedFrom_redirect hlen hfam hredirect
    simp only [tunnelled, hstamped, Option.map_some, Option.some.injEq] at hm
    subst hm
    refine ⟨p, rev, tcpFlags, hp, hrev, hflags, rfl, ?_, rfl, rfl, ?_, hframed.length⟩
    · exact tunnelRemote_setTunnelRemote _
    · exact says_data (hframed.innerPacket hframe) (hframed.tcpFlags hflags)

/-- A frame of an answered packet, on its way from the ingress node to the backend. -/
def ForwardMessage (c : Cluster ι) (admitted : List Admission) (m : TunnelPacket) : Prop :=
  m.vni = vniFwd ∧ m.src = c.addr c.ingress ∧ ∃ a ∈ admitted, ¬ IsRst a.flow.front.proto a.flow.tcpFlags ∧
    m.options = (encodePodIdOption a.answer.1.podIp a.answer.2).toList ∧
    ∃ fam, Says m.data fam a.flow.packet a.flow.tcpFlags

/-- A reply on its way back. -/
def ReturnMessage (m : TunnelPacket) : Prop :=
  m.vni = vniRet ∧ ∃ fam q tcpFlags, Says m.data fam q tcpFlags ∧ ¬ IsRst q.proto tcpFlags

/-- A forward packet a node takes is of an answered flow. -/
theorem ForwardMessage.taken {c : Cluster ι} {admitted : List Admission} {m : TunnelPacket} {n : Node} {skb : Skb}
    {p : ForwardPacket} (hm : ForwardMessage c admitted m ∨ ReturnMessage m) (harrives : m.ArrivesAs skb)
    (hp : decapForwardAdmit n skb = some p) :
    ∃ a ∈ admitted, p.flow = a.clientFlow ∧ p.ingressNodeIp = c.addr c.ingress ∧
      n.isPodTarget p.flow.podIp = true ∧ ∃ tcpFlags, ¬ IsRst p.flow.proto tcpFlags ∧
      tcpFlagsDirect skb p.flow.proto (ethHlen + p.family.ipHlen) = some tcpFlags := by
  obtain ⟨hdata, info, hinfo, hsrc, hvni, hoptions⟩ := harrives
  obtain ⟨info', podIp, targetPort, fam, inner, hinfo', hvni', hgate, hinner, rfl⟩ :=
    decapForwardAdmit_eq_some.mp hp
  obtain rfl : info' = info := Option.some_inj.mp (hinfo'.symm.trans hinfo)
  rcases hm with ⟨_, hsrc', a, ha, hrst, hopt, fam', htold⟩ | ⟨hret, _⟩
  · obtain ⟨hinner', hflags⟩ := htold skb hdata
    obtain ⟨rfl, rfl⟩ : fam' = fam ∧ a.flow.packet = inner := by
      have := Option.some_inj.mp (hinner'.symm.trans hinner)
      exact Prod.mk.inj this
    obtain ⟨htarget, opt, hget, hdecode⟩ := decapForwardGate_some hgate
    rw [getTunnelOpt_of_options hinfo (hoptions.trans hopt)] at hget
    obtain ⟨-, rfl⟩ := Prod.mk.inj (Option.some_inj.mp hget)
    rw [decodePodIdOption_encode] at hdecode
    obtain ⟨rfl, rfl⟩ := Prod.mk.inj (Option.some_inj.mp hdecode)
    exact ⟨a, ha, rfl, hsrc.trans hsrc', htarget, a.flow.tcpFlags, hrst, hflags⟩
  · rw [hvni', hret] at hvni
    exact absurd hvni (by decide)

/-- A return packet a node takes is no reset. -/
theorem ReturnMessage.taken {c : Cluster ι} {admitted : List Admission} {m : TunnelPacket} {n : Node} {skb : Skb}
    {p : ReturnPacket} {tcpFlags : UInt8} (hm : ForwardMessage c admitted m ∨ ReturnMessage m)
    (harrives : m.ArrivesAs skb) (hp : decapReturnAdmit n skb = some p)
    (hflags : tcpFlagsDirect skb p.inner.proto (ethHlen + p.family.ipHlen) = some tcpFlags) :
    ¬ IsRst p.inner.proto tcpFlags := by
  obtain ⟨hdata, info, hinfo, _, hvni, _⟩ := harrives
  obtain ⟨info', hinfo', hvni', _, hinner⟩ := decapReturnAdmit_eq_some.mp hp
  obtain rfl : info' = info := Option.some_inj.mp (hinfo'.symm.trans hinfo)
  rcases hm with ⟨hfwd, _⟩ | ⟨_, fam, q, tcpFlags', htold, hrst⟩
  · rw [hvni', hfwd] at hvni
    exact absurd hvni (by decide)
  · obtain ⟨hinner', hflags'⟩ := htold skb hdata
    obtain ⟨hfam, hq⟩ := Prod.mk.inj (Option.some_inj.mp (hinner'.symm.trans hinner))
    rw [hfam, hq, hflags] at hflags'
    rw [hq, ← Option.some_inj.mp hflags'] at hrst
    exact hrst

end Beep
