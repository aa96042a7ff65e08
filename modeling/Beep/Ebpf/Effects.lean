import Beep.Ebpf.Hooks
import Beep.Lib.Run

/-!
# `Ebpf.Effects` — what one event does to the maps of a node

A node's maps change by the three programs, by rows that are evicted, swept or deleted, and by writes of the
controller (`NodeEvent`, `Node.step`). Whatever a program does to a packet, its effect on the maps is one of
a few functions of `Ebpf.Node`, applied to the packet it admitted: `step_uplinkIngress`,
`step_geneveIngress`, `step_uplinkEgress`. The rest of the file says once what each of these functions writes;
every invariant of the datapath is derived from these lemmas.
-/

namespace Beep

variable [Host]

/-! ## Events -/

/-- One thing that happens to the maps of a node. -/
inductive NodeEvent where
  /-- a packet arrives on an uplink -/
  | uplinkIngress (skb : Skb) (h : Helpers)
  /-- a packet comes out of `geneve0` -/
  | geneveIngress (skb : Skb) (h : Helpers)
  /-- a packet leaves on an uplink -/
  | uplinkEgress (skb : Skb) (h : Helpers)
  /-- a `FLOW_TABLE` row is evicted, swept or deleted -/
  | dropFlow (key : FlowKey)
  /-- a `FWD_PENDING` row is evicted or deleted -/
  | dropPending (key : TcpFlowKey)
  /-- the controller rewrites the front maps -/
  | setFronts (metas : Table LbFrontKey FrontMeta) (endpoints : Table FrontEndpointKey FrontEndpoint)
  /-- the controller rewrites `CONFIG` (parities, seed) -/
  | setConfig (config : Config)
  /-- the controller rewrites `POD_TARGETS` -/
  | setPodTargets (pods : Table (Bytes 16) UInt8)
  /-- the controller rewrites `NODE_ALLOW` -/
  | setNodeAllow (nodes : Table (Bytes 16) UInt8)
  /-- the loader rewrites `UPLINK_CONFIG` -/
  | setUplinks (uplinks : Table UInt32 UplinkConfig)

/-- A packet, on any hook. -/
def NodeEvent.IsPacket : NodeEvent → Prop
  | .uplinkIngress _ _ | .geneveIngress _ _ | .uplinkEgress _ _ => True
  | _ => False

/-- The maps after an event. -/
def Node.step (n : Node) : NodeEvent → Node
  | .uplinkIngress skb h => (uplinkIngress n h skb).1
  | .geneveIngress skb h => (geneveIngress n h skb).1
  | .uplinkEgress skb h => (uplinkEgressReturn n h skb).1
  | .dropFlow key => { n with flowTable := n.flowTable.erase key }
  | .dropPending key => { n with fwdPending := n.fwdPending.erase key }
  | .setFronts metas endpoints => { n with frontMeta := metas, frontEndpoints := endpoints }
  | .setConfig config => { n with config := some config }
  | .setPodTargets pods => { n with podTargets := pods }
  | .setNodeAllow nodes => { n with nodeAllow := nodes }
  | .setUplinks uplinks => { n with uplinkConfig := uplinks }

/-! ## From a program to the function that writes -/

theorem innerPacket_eq_some {skb : Skb} {fam : Family} {inner : InnerPacket} :
    innerPacket skb = some (fam, inner) ↔
      ∃ ethertype, skb.load.u16 12 = some ethertype ∧ Family.ofEthertype ethertype = some fam ∧
        parseInner fam skb = some (some inner) := by
  simp only [innerPacket, Option.bind_eq_bind, Option.bind_eq_some_iff, Option.pure_def, Option.some.injEq,
    Prod.mk.injEq]
  constructor
  · rintro ⟨ethertype, hload, fam', hfam, parsed, hparsed, inner', rfl, rfl, rfl⟩
    exact ⟨ethertype, hload, hfam, hparsed⟩
  · rintro ⟨ethertype, hload, hfam, hparsed⟩
    exact ⟨ethertype, hload, fam, hfam, some inner, hparsed, inner, rfl, rfl, rfl⟩

/-- A flow's frame is handed to the sibling of its family, which delivers it. -/
theorem byEthertype_some (n : Node) {skb : Skb} (deliver : Family → InnerPacket → HookResult) {fam : Family}
    {inner : InnerPacket} (h : innerPacket skb = some (fam, inner)) :
    byEthertype n skb (withInner n skb .v4 (deliver .v4)) (withInner n skb .v6 (deliver .v6)) =
      deliver fam inner := by
  obtain ⟨ethertype, hload, hfam, hparsed⟩ := innerPacket_eq_some.mp h
  unfold byEthertype
  simp only [hload, hfam]
  cases fam with
  | v4 => simp only [withInner, hparsed]
  | v6 => simp only [withInner, hparsed]

/-- Any other frame changes nothing. -/
theorem byEthertype_none (n : Node) {skb : Skb} (deliver : Family → InnerPacket → HookResult)
    (h : innerPacket skb = none) :
    ∃ v, byEthertype n skb (withInner n skb .v4 (deliver .v4)) (withInner n skb .v6 (deliver .v6)) =
      (n, skb, v) := by
  unfold byEthertype
  cases hload : skb.load.u16 12 with
  | none => exact ⟨none, rfl⟩
  | some ethertype =>
    cases hfam : Family.ofEthertype ethertype with
    | none => exact ⟨some .ok, by simp only [hfam]⟩
    | some fam =>
      have hpass : ∃ v, withInner n skb fam (deliver fam) = (n, skb, v) := by
        unfold withInner
        cases hparsed : parseInner fam skb with
        | none => exact ⟨none, rfl⟩
        | some parsed =>
          cases parsed with
          | none => exact ⟨some .ok, rfl⟩
          | some inner =>
            have hinner := innerPacket_eq_some.mpr ⟨ethertype, hload, hfam, hparsed⟩
            rw [h] at hinner
            cases hinner
      simp only [hfam]
      cases fam with
      | v4 => exact hpass
      | v6 => exact hpass

theorem decapForwardAdmit_eq_some {n : Node} {skb : Skb} {p : ForwardPacket} :
    decapForwardAdmit n skb = some p ↔
      ∃ info podIp targetPort fam inner, skb.received = some info ∧ info.tunnelId = vniFwd ∧
        decapForwardGate n skb info = some (podIp, targetPort) ∧ innerPacket skb = some (fam, inner) ∧
        p = inner.toForward fam info podIp targetPort := by
  simp only [decapForwardAdmit, Option.bind_eq_bind, Option.bind_eq_some_iff, Option.guard_eq_some',
    Option.pure_def, Option.some.injEq]
  constructor
  · rintro ⟨info, hinfo, _, hvni, ⟨podIp, targetPort⟩, hgate, ⟨fam, inner⟩, hinner, rfl⟩
    exact ⟨info, podIp, targetPort, fam, inner, hinfo, hvni, hgate, hinner, rfl⟩
  · rintro ⟨info, podIp, targetPort, fam, inner, hinfo, hvni, hgate, hinner, rfl⟩
    exact ⟨info, hinfo, (), hvni, (podIp, targetPort), hgate, (fam, inner), hinner, rfl⟩

theorem decapReturnAdmit_eq_some {n : Node} {skb : Skb} {p : ReturnPacket} :
    decapReturnAdmit n skb = some p ↔
      ∃ info, skb.received = some info ∧ info.tunnelId = vniRet ∧
        decapReturnGate n skb info = some (p.frontIp, p.frontPort) ∧
        innerPacket skb = some (p.family, p.inner) := by
  simp only [decapReturnAdmit, Option.bind_eq_bind, Option.bind_eq_some_iff, Option.guard_eq_some',
    Option.pure_def, Option.some.injEq]
  constructor
  · rintro ⟨info, hinfo, _, hvni, ⟨frontIp, frontPort⟩, hgate, ⟨fam, inner⟩, hinner, rfl⟩
    exact ⟨info, hinfo, hvni, hgate, hinner⟩
  · rintro ⟨info, hinfo, hvni, hgate, hinner⟩
    exact ⟨info, hinfo, (), hvni, (p.frontIp, p.frontPort), hgate, (p.family, p.inner), hinner, rfl⟩

/-- A forward packet the node takes is delivered. -/
theorem geneveIngress_forward {n : Node} {h : Helpers} {skb : Skb} {p : ForwardPacket}
    (hp : decapForwardAdmit n skb = some p) :
    geneveIngress n h skb = ((deliverForward n h skb p).1, (deliverForward n h skb p).2.1,
      (deliverForward n h skb p).2.2.getD .shot) := by
  obtain ⟨info, podIp, targetPort, fam, inner, hinfo, hvni, hgate, hinner, rfl⟩ :=
    decapForwardAdmit_eq_some.mp hp
  have htry : tryGeneveDecapForward n h skb info =
      deliverForward n h skb (inner.toForward fam info podIp targetPort) := by
    unfold tryGeneveDecapForward
    rw [hgate]
    exact byEthertype_some n (fun fam inner =>
      deliverForward n h skb (inner.toForward fam info podIp targetPort)) hinner
  unfold geneveIngress
  simp only [hinfo, hvni, if_true, htry]

/-- A return packet the node takes is delivered. -/
theorem geneveIngress_return {n : Node} {h : Helpers} {skb : Skb} {p : ReturnPacket}
    (hp : decapReturnAdmit n skb = some p) :
    geneveIngress n h skb = ((deliverReturn n h skb p).1, (deliverReturn n h skb p).2.1,
      (deliverReturn n h skb p).2.2.getD .shot) := by
  obtain ⟨info, hinfo, hvni, hgate, hinner⟩ := decapReturnAdmit_eq_some.mp hp
  have htry : tryGeneveDecapReturn n h skb info = deliverReturn n h skb p := by
    unfold tryGeneveDecapReturn
    rw [hgate]
    exact byEthertype_some n (fun fam inner => deliverReturn n h skb
      { family := fam, inner, frontIp := p.frontIp, frontPort := p.frontPort }) hinner
  unfold geneveIngress
  simp only [hinfo, hvni, if_neg (show ¬ vniRet = vniFwd by decide), if_true, htry]

/-- Any other frame on `geneve0` leaves maps and packet alone. -/
theorem geneveIngress_other {n : Node} {h : Helpers} {skb : Skb} (hfwd : decapForwardAdmit n skb = none)
    (hret : decapReturnAdmit n skb = none) : ∃ v, geneveIngress n h skb = (n, skb, v) := by
  have hnone : ∀ {info}, skb.received = some info →
      (info.tunnelId = vniFwd → ∃ v, tryGeneveDecapForward n h skb info = (n, skb, v)) ∧
      (info.tunnelId = vniRet → ∃ v, tryGeneveDecapReturn n h skb info = (n, skb, v)) := by
    intro info hinfo
    constructor
    · intro hvni
      unfold tryGeneveDecapForward
      cases hgate : decapForwardGate n skb info with
      | none => exact ⟨_, rfl⟩
      | some pod =>
        cases hinner : innerPacket skb with
        | none =>
          exact byEthertype_none n (fun fam inner =>
            deliverForward n h skb (inner.toForward fam info pod.1 pod.2)) hinner
        | some found =>
          have := decapForwardAdmit_eq_some.mpr
            ⟨info, pod.1, pod.2, found.1, found.2, hinfo, hvni, hgate, hinner, rfl⟩
          rw [hfwd] at this
          cases this
    · intro hvni
      unfold tryGeneveDecapReturn
      cases hgate : decapReturnGate n skb info with
      | none => exact ⟨_, rfl⟩
      | some front =>
        cases hinner : innerPacket skb with
        | none =>
          exact byEthertype_none n (fun fam inner => deliverReturn n h skb
            { family := fam, inner, frontIp := front.1, frontPort := front.2 }) hinner
        | some found =>
          have hadm : decapReturnAdmit n skb = some ⟨found.1, found.2, front.1, front.2⟩ :=
            decapReturnAdmit_eq_some.mpr ⟨info, hinfo, hvni, hgate, hinner⟩
          rw [hret] at hadm
          cases hadm
  unfold geneveIngress
  cases hinfo : skb.received with
  | none => exact ⟨_, rfl⟩
  | some info =>
    by_cases hvni : info.tunnelId = vniFwd
    · obtain ⟨v, hv⟩ := (hnone hinfo).1 hvni
      exact ⟨v.getD .shot, by simp only [if_pos hvni, hv]⟩
    · by_cases hvni' : info.tunnelId = vniRet
      · obtain ⟨v, hv⟩ := (hnone hinfo).2 hvni'
        exact ⟨v.getD .shot, by simp only [if_neg hvni, if_pos hvni', hv]⟩
      · exact ⟨.ok, by simp only [if_neg hvni, if_neg hvni']⟩

theorem egressAdmit_eq_some {n : Node} {skb : Skb} {p : ReplyPacket} :
    egressAdmit n skb = some p ↔
      isRedirectedReturnMark skb.mark = false ∧ ∃ uplink fam, n.uplinkConfig.lookup skb.ifindex = some uplink ∧
        (uplink.l2Hlen.toNat = 0 ∨ uplink.l2Hlen.toNat = ethHlen) ∧
        uplinkFamily uplink.l2Hlen.toNat skb = some (some fam) ∧
        egressHeaders n fam uplink.l2Hlen.toNat skb = some (some p) := by
  simp only [egressAdmit, Option.bind_eq_bind, Option.bind_eq_some_iff, Option.guard_eq_some',
    Bool.not_eq_eq_eq_not, Bool.not_true]
  constructor
  · rintro ⟨_, hmark, uplink, huplink, _, hlen, found, hfound, fam, rfl, parsed, hparsed, rfl⟩
    exact ⟨hmark, uplink, fam, huplink, hlen, hfound, hparsed⟩
  · rintro ⟨hmark, uplink, fam, huplink, hlen, hfound, hparsed⟩
    exact ⟨(), hmark, uplink, huplink, (), hlen, some fam, hfound, fam, rfl, some p, hparsed, rfl⟩

/-- A reply of a backend pod is looked up and tunnelled. -/
theorem uplinkEgressReturn_reply {n : Node} {h : Helpers} {skb : Skb} {p : ReplyPacket}
    (hp : egressAdmit n skb = some p) :
    uplinkEgressReturn n h skb = ((tunnelReply n h skb p).1, (tunnelReply n h skb p).2.1,
      (tunnelReply n h skb p).2.2.getD .ok) := by
  obtain ⟨hmark, uplink, fam, huplink, hlen, hfam, hparsed⟩ := egressAdmit_eq_some.mp hp
  have htry : tryUplinkEgressReturn n h skb = tunnelReply n h skb p := by
    simp only [tryUplinkEgressReturn, hmark, Bool.false_eq_true, if_false, huplink, if_pos hlen,
      tryUplinkEgressReturnHeaders, hfam]
    cases fam with
    | v4 => simp only [tryUplinkEgressReturnHeadersV4, uplinkEgressReply, hparsed]
    | v6 => simp only [tryUplinkEgressReturnHeadersV6, uplinkEgressReply, hparsed]
  unfold uplinkEgressReturn
  rw [htry]

/-- Any other packet on an uplink's egress passes, with its mark taken off at most. -/
theorem uplinkEgressReturn_pass {n : Node} {h : Helpers} {skb : Skb} (hp : egressAdmit n skb = none) :
    ∃ mark, uplinkEgressReturn n h skb = (n, { skb with mark }, .ok) := by
  have htry : ∃ mark v, tryUplinkEgressReturn n h skb = (n, { skb with mark }, v) ∧ v.getD .ok = .ok := by
    unfold tryUplinkEgressReturn
    by_cases hmark : isRedirectedReturnMark skb.mark = true
    · rw [if_pos hmark]
      exact ⟨0, _, rfl, rfl⟩
    · rw [if_neg hmark]
      cases huplink : n.uplinkConfig.lookup skb.ifindex with
      | none => exact ⟨skb.mark, _, rfl, rfl⟩
      | some uplink =>
        by_cases hlen : uplink.l2Hlen.toNat = 0 ∨ uplink.l2Hlen.toNat = ethHlen
        · simp only [if_pos hlen, tryUplinkEgressReturnHeaders]
          cases hfam : uplinkFamily uplink.l2Hlen.toNat skb with
          | none => exact ⟨skb.mark, _, rfl, rfl⟩
          | some found =>
            cases found with
            | none => exact ⟨skb.mark, _, rfl, rfl⟩
            | some fam =>
              have hpass : ∃ mark v, uplinkEgressReply fam uplink.l2Hlen.toNat n h skb =
                  (n, { skb with mark }, v) ∧ v.getD .ok = .ok := by
                unfold uplinkEgressReply
                cases hparsed : egressHeaders n fam uplink.l2Hlen.toNat skb with
                | none => exact ⟨skb.mark, _, rfl, rfl⟩
                | some parsed =>
                  cases parsed with
                  | none => exact ⟨skb.mark, _, rfl, rfl⟩
                  | some p =>
                    have hadm := egressAdmit_eq_some.mpr
                      ⟨Bool.eq_false_iff.mpr hmark, uplink, fam, huplink, hlen, hfam, hparsed⟩
                    rw [hp] at hadm
                    cases hadm
              cases fam with
              | v4 => exact hpass
              | v6 => exact hpass
        · simp only [if_neg hlen]
          exact ⟨skb.mark, _, rfl, rfl⟩
  obtain ⟨mark, v, hres, hv⟩ := htry
  refine ⟨mark, ?_⟩
  simp only [uplinkEgressReturn, hres, hv]

theorem uplinkEgressReturn_other {n : Node} {h : Helpers} {skb : Skb} (hp : egressAdmit n skb = none) :
    ∃ skb', uplinkEgressReturn n h skb = (n, skb', .ok) := by
  obtain ⟨mark, hres⟩ := uplinkEgressReturn_pass (h := h) hp
  exact ⟨{ skb with mark }, hres⟩

/-- The `FWD_PENDING` and `Forward` keys of an ingress flow. -/
def IngressFlow.flowKey (f : IngressFlow) : TcpFlowKey :=
  encodeTcpFlowKey f.clientIp f.clientPort f.front.frontIp f.front.frontPort f.front.proto

def IngressFlow.fwdKey (f : IngressFlow) : FlowKey :=
  encodeFlowKey f.clientIp f.clientPort f.front.frontIp f.front.frontPort f.front.proto .forward

/-- `ingress_backend` on a parsed packet of an uplink. -/
def Node.steer (n : Node) (h : Helpers) (f : IngressFlow) (ingressIfindex : UInt32) :
    Node × Except TcAction (LbFrontBackend × UInt16) :=
  n.ingressBackend h f.front f.clientIp f.clientPort f.flowKey f.fwdKey ingressIfindex f.tcpFlags

/-- The maps after a packet on an uplink: those of `ingress_backend`, for a flow's packet. -/
theorem uplinkIngress_fst (n : Node) (h : Helpers) (skb : Skb) :
    (uplinkIngress n h skb).1 =
      match ingressAdmit n skb with
      | some (flow, _) => (n.steer h flow skb.ingressIfindex).1
      | none => n := by
  show (tryUplinkIngress n h skb).1 = _
  unfold tryUplinkIngress
  cases ingressAdmit n skb with
  | none => rfl
  | some found =>
    obtain ⟨flow, l2Hlen⟩ := found
    show (uplinkIngressEncap n h skb skb.ingressIfindex flow (l2Hlen = 0)).1 =
      (n.steer h flow skb.ingressIfindex).1
    unfold uplinkIngressEncap Node.steer IngressFlow.flowKey IngressFlow.fwdKey
    dsimp only
    generalize n.ingressBackend h flow.front flow.clientIp flow.clientPort _ _ skb.ingressIfindex flow.tcpFlags = found
    rcases found with ⟨n', verdict | ⟨backend, targetPort⟩⟩
    · rfl
    · simp only
      cases n'.config with
      | none => rfl
      | some c => rfl

end Beep
