import Beep.Ebpf.Correctness.Affinity

/-!
# `Ebpf.Correctness.Admission` — who may put a flow into `FLOW_TABLE`

A client's packets alone never grow `FLOW_TABLE`: they touch the row that is there, or pin the flow in
`FWD_PENDING`. A forward row appears only with a return packet of an attested peer that finds the flow
pending, and what it holds is what the packet that minted the pending entry was answered. The last is a
statement about the whole history of the row (`ForwardProvenance`): its mint, the stretch it was pending, its
promotion.
-/

namespace Beep

open Run

variable [Host]

/-! ## Minting and promoting -/

/-- The step is an uplink packet that pins a flow which was not pending. -/
def Mints (n : Node) (key : TcpFlowKey) (v : ForwardFlowValue) : NodeEvent → Prop
  | .uplinkIngress skb h => ∃ f l2Hlen, ingressAdmit n skb = some (f, l2Hlen) ∧ f.flowKey = key ∧
      n.fwdPending.lookup key = none ∧
      (n.steer h f skb.ingressIfindex).2 = .ok (v.backend, v.targetPort) ∧
      v.ingressIfindex = skb.ingressIfindex
  | _ => False

/-- The step is a return packet of an attested peer, of a flow that is pending and has no forward row. -/
def Promotes (n : Node) (key : TcpFlowKey) (v : ForwardFlowValue) : NodeEvent → Prop
  | .geneveIngress skb _ => ∃ info p, skb.received = some info ∧ info.tunnelId = vniRet ∧
      n.isNodeAllowed (tunnelRemote info.remote) = true ∧ decapReturnAdmit n skb = some p ∧ p.flowKey = key ∧
      n.fwdPending.lookup key = some v ∧ n.flowTable.lookup (forwardKey key) = none
  | _ => False

/-- The peer of a return packet the node takes is attested. -/
theorem decapReturnAdmit_attested {n : Node} {skb : Skb} {p : ReturnPacket}
    (hp : decapReturnAdmit n skb = some p) :
    ∃ info, skb.received = some info ∧ info.tunnelId = vniRet ∧
      n.isNodeAllowed (tunnelRemote info.remote) = true := by
  obtain ⟨info, hinfo, hvni, hgate, _⟩ := decapReturnAdmit_eq_some.mp hp
  refine ⟨info, hinfo, hvni, ?_⟩
  unfold decapReturnGate peerNodeAdmission at hgate
  cases hallowed : n.isNodeAllowed (tunnelRemote info.remote) with
  | true => rfl
  | false => simp [hallowed] at hgate

/-! ## What a step adds -/

theorem flowTableGetForward_eq_none {n : Node} {key : FlowKey} :
    n.flowTableGetForward key = none ↔ n.flowTable.lookup key = none :=
  Option.map_eq_none_iff

/-- A touched row was there before. -/
theorem lookup_touchForwardRow {n : Node} {key : FlowKey} {v : ForwardFlowValue} (key' : FlowKey) (h : Helpers)
    (proto tcpFlags : UInt8) (side : FlowSide) (hrow : n.flowTableGetForward key = some v) :
    (n.touchForwardRow h key v proto tcpFlags side).flowTable.lookup key' = n.flowTable.lookup key' ∨
      (key' = key ∧ n.flowTable.lookup key' ≠ none ∧
        ∃ flags, (n.touchForwardRow h key v proto tcpFlags side).flowTable.lookup key' =
          some (FlowValue.fromForward { v with flags })) := by
  rcases touchForwardRow_cases n h key v proto tcpFlags side with heq | ⟨flags, heq⟩
  · exact Or.inl (by rw [heq])
  · rw [heq, lookup_flowTableInsert]
    by_cases hkey : key' = key
    · subst hkey
      refine Or.inr ⟨rfl, fun hnone => ?_, flags, if_pos rfl⟩
      rw [flowTableGetForward_eq_none.mpr hnone] at hrow
      cases hrow
    · exact Or.inl (if_neg hkey)

/-- **Uplink packets add no row.** -/
theorem uplinkIngress_adds_no_flow {n : Node} {skb : Skb} {h : Helpers} {key : FlowKey}
    (hnone : n.flowTable.lookup key = none) :
    (n.step (.uplinkIngress skb h)).flowTable.lookup key = none := by
  simp only [Node.step, uplinkIngress_fst]
  cases ingressAdmit n skb with
  | none => exact hnone
  | some found =>
    show (n.steer h found.1 skb.ingressIfindex).1.flowTable.lookup key = none
    generalize hres : n.steer h found.1 skb.ingressIfindex = res
    have hs := steer_steered n h found.1 skb.ingressIfindex
    rw [hres] at hs
    cases hs with
    | notFront _ | pending _ _ _ _ | minted _ _ _ _ | unpinned _ _ | missed _ _ => exact hnone
    | established _ _ hrow =>
      rcases lookup_touchForwardRow key h found.1.front.proto found.1.tcpFlags .client hrow with
        hsame | ⟨_, hthere, _⟩
      · exact hsame.trans hnone
      · exact absurd hnone hthere

/-- A pending entry after a step was there before it, or the step minted it. -/
theorem step_pending {n : Node} {e : NodeEvent} {key : TcpFlowKey} {v : ForwardFlowValue}
    (hv : (n.step e).fwdPending.lookup key = some v) :
    n.fwdPending.lookup key = some v ∨ Mints n key v e := by
  rcases step_ingress n e with ⟨skb, h, f, l2Hlen, rfl, hadm, hstep⟩ |
    ⟨skb, h, p, tcpFlags, rfl, hp, hread, hstep⟩ | ⟨key', rfl⟩ | ⟨key', rfl⟩ | hframe
  · rw [hstep] at hv
    generalize hres : n.steer h f skb.ingressIfindex = res at hv
    have hs := steer_steered n h f skb.ingressIfindex
    rw [hres] at hs
    cases hs with
    | notFront _ | pending _ _ _ _ | unpinned _ _ | missed _ _ => exact Or.inl hv
    | established _ _ _ =>
      refine Or.inl ?_
      rcases touchForwardRow_cases n h f.fwdKey _ f.front.proto f.tcpFlags .client with heq | ⟨flags, heq⟩
      · rw [heq] at hv
        exact hv
      · rw [heq] at hv
        exact hv
    | minted _ _ _ hpin =>
      replace hv := (Table.lookup_insert_ite ..).symm.trans hv
      by_cases hkey : key = f.flowKey
      · rw [if_pos hkey] at hv
        obtain rfl := Option.some_inj.mp hv
        refine Or.inr ⟨f, l2Hlen, hadm, hkey.symm, hkey ▸ hpin, ?_, rfl⟩
        rw [hres]
      · rw [if_neg hkey] at hv
        exact Or.inl hv
  · refine Or.inl ?_
    -- a return packet only ever removes a pending entry
    have hremoved : ∀ {n' : Node}, n'.fwdPending = n.fwdPending →
        (n'.removePending h p.flowKey).fwdPending.lookup key = some v → n.fwdPending.lookup key = some v := by
      intro n' hsame hv'
      by_cases hkey : key = p.flowKey
      · unfold Node.removePending at hv'
        split at hv'
        · rw [show _ = _ from Table.lookup_erase_ite .., if_pos hkey] at hv'
          cases hv'
        · rw [← hsame]
          exact hv'
      · rw [lookup_removePending hkey, hsame] at hv'
        exact hv'
    rw [hstep] at hv
    generalize hres : n.authorizeReturn h p tcpFlags = res at hv
    have ha := authorizeReturn_authorized n h p tcpFlags
    rw [hres] at ha
    cases ha with
    | unknown _ _ | refused _ _ _ => exact hv
    | established _ =>
      rcases touchForwardRow_cases n h p.fwdKey _ p.inner.proto tcpFlags .pod with heq | ⟨flags, heq⟩
      · rw [heq] at hv
        exact hv
      · rw [heq] at hv
        exact hv
    | reset _ _ _ => exact hremoved rfl hv
    | promoted _ _ _ _ =>
      exact hremoved (show (n.flowTableInsert p.fwdKey _).fwdPending = n.fwdPending from rfl) hv
  · exact Or.inl hv
  · refine Or.inl ?_
    replace hv := (Table.lookup_erase_ite ..).symm.trans hv
    split at hv
    · cases hv
    · exact hv
  · rw [hframe.pending] at hv
    exact Or.inl hv

/-- A forward row after a step was there before it but for its flags, or the step promoted it. -/
theorem step_forward {n : Node} {e : NodeEvent} {key : TcpFlowKey} {v : ForwardFlowValue}
    (hv : (n.step e).flowTableGetForward (forwardKey key) = some v) :
    (∃ w, n.flowTableGetForward (forwardKey key) = some w ∧ v.core = w.core) ∨
      ∃ w, Promotes n key w e ∧ v.core = w.core := by
  -- a touch leaves the rows there are
  have htouched : ∀ {key' : TcpFlowKey} {w : ForwardFlowValue} {h : Helpers} {proto tcpFlags : UInt8}
      {side : FlowSide}, n.flowTableGetForward (forwardKey key') = some w →
      (n.touchForwardRow h (forwardKey key') w proto tcpFlags side).flowTableGetForward (forwardKey key) =
        some v → ∃ w, n.flowTableGetForward (forwardKey key) = some w ∧ v.core = w.core := by
    intro key' w h proto tcpFlags side hrow hv'
    rcases lookup_touchForwardRow (forwardKey key) h proto tcpFlags side hrow with
      hsame | ⟨hkey, -, flags, hflags⟩
    · rw [Node.flowTableGetForward, hsame] at hv'
      exact ⟨v, hv', rfl⟩
    · rw [Node.flowTableGetForward, hflags, Option.map_some, FlowValue.forward_fromForward] at hv'
      exact ⟨w, hkey ▸ hrow, by rw [← Option.some_inj.mp hv']; rfl⟩
  rcases step_ingress n e with ⟨skb, h, f, l2Hlen, rfl, hadm, hstep⟩ |
    ⟨skb, h, p, tcpFlags, rfl, hp, hread, hstep⟩ | ⟨key', rfl⟩ | ⟨key', rfl⟩ | hframe
  · refine Or.inl ?_
    rw [hstep] at hv
    generalize hres : n.steer h f skb.ingressIfindex = res at hv
    have hs := steer_steered n h f skb.ingressIfindex
    rw [hres] at hs
    cases hs with
    | notFront _ | pending _ _ _ _ | minted _ _ _ _ | unpinned _ _ | missed _ _ => exact ⟨v, hv, rfl⟩
    | established _ _ hrow => exact htouched hrow hv
  · rw [hstep] at hv
    generalize hres : n.authorizeReturn h p tcpFlags = res at hv
    have ha := authorizeReturn_authorized n h p tcpFlags
    rw [hres] at ha
    cases ha with
    | unknown _ _ | refused _ _ _ => exact Or.inl ⟨v, hv, rfl⟩
    | established hrow => exact Or.inl (htouched hrow hv)
    | reset _ _ _ =>
      simp only [Node.flowTableGetForward, flowTable_removePending] at hv
      exact Or.inl ⟨v, hv, rfl⟩
    | @promoted w flags hrow hpin _ _ =>
      simp only [Node.flowTableGetForward, flowTable_removePending, lookup_flowTableInsert] at hv
      by_cases hkey : key = p.flowKey
      · subst hkey
        obtain ⟨info, hinfo, hvni, hallowed⟩ := decapReturnAdmit_attested hp
        refine Or.inr ⟨w, ⟨info, p, hinfo, hvni, hallowed, hp, rfl, hpin,
          flowTableGetForward_eq_none.mp hrow⟩, ?_⟩
        rw [if_pos (ReturnPacket.fwdKey_eq p).symm, Option.map_some, FlowValue.forward_fromForward] at hv
        rw [← Option.some_inj.mp hv]
        rfl
      · have hne : forwardKey key ≠ p.fwdKey := fun h => hkey (forwardKey_inj.mp h)
        rw [if_neg hne] at hv
        exact Or.inl ⟨v, hv, rfl⟩
  · refine Or.inl ⟨v, ?_, rfl⟩
    by_cases hkey : forwardKey key = key'
    · rw [← hkey] at hv
      replace hv : ((n.flowTable.erase (forwardKey key)).lookup (forwardKey key)).map FlowValue.forward =
        some v := hv
      rw [AList.lookup_erase] at hv
      cases hv
    · rw [Node.flowTableGetForward, lookup_step_dropFlow hkey] at hv
      exact hv
  · exact Or.inl ⟨v, hv, rfl⟩
  · rw [Node.flowTableGetForward, hframe.forward _ (direction_forwardKey key)] at hv
    exact Or.inl ⟨v, hv, rfl⟩

/-! ## The history of a row -/

/-- The pending entry `v` was minted in the run, and has been there since. -/
def PendingProvenance (n₀ : Node) (es : List NodeEvent) (key : TcpFlowKey) (v : ForwardFlowValue) : Prop :=
  ∃ before mint between, es = before ++ mint :: between ∧ Mints (before.foldl Node.step n₀) key v mint ∧
    Along Node.step (fun n _ => n.fwdPending.lookup key = some v)
      ((before ++ [mint]).foldl Node.step n₀) between

/-- The forward row `v` was promoted in the run from a pending entry that had been minted in it. -/
def ForwardProvenance (n₀ : Node) (es : List NodeEvent) (key : TcpFlowKey) (v : ForwardFlowValue) : Prop :=
  ∃ before promote after w, es = before ++ promote :: after ∧ PendingProvenance n₀ before key w ∧
    Promotes (before.foldl Node.step n₀) key w promote ∧ v.core = w.core

/-- From empty tables, every pending entry has a mint. -/
theorem pendingProvenance_run {n₀ : Node} (hempty : ∀ key, n₀.fwdPending.lookup key = none)
    (es : List NodeEvent) {key : TcpFlowKey} {v : ForwardFlowValue}
    (hv : (es.foldl Node.step n₀).fwdPending.lookup key = some v) : PendingProvenance n₀ es key v := by
  refine exists_origin (fun n => n.fwdPending.lookup key = some v) (fun n e => Mints n key v e)
    (fun n e => step_pending) ?_ es hv
  rw [hempty]
  exact fun h => nomatch h

/-- From empty tables, every forward row has a mint and a promotion. -/
theorem forwardProvenance_run {n₀ : Node} (hempty : ∀ key, n₀.fwdPending.lookup key = none)
    (hnoflow : ∀ key, n₀.flowTable.lookup (forwardKey key) = none) (es : List NodeEvent) {key : TcpFlowKey}
    {v : ForwardFlowValue} (hv : (es.foldl Node.step n₀).flowTableGetForward (forwardKey key) = some v) :
    ForwardProvenance n₀ es key v := by
  -- the row is followed by its core: touches change its flags
  let Has : Node → Prop := fun n => ∃ w, n.flowTableGetForward (forwardKey key) = some w ∧ w.core = v.core
  let Born : Node → NodeEvent → Prop := fun n e => ∃ w, Promotes n key w e ∧ w.core = v.core
  have hone : ∀ n e, Has (Node.step n e) → Has n ∨ Born n e := by
    rintro n e ⟨w, hw, hcore⟩
    rcases step_forward hw with ⟨w', hw', hcore'⟩ | ⟨w', hpromotes, hcore'⟩
    · exact Or.inl ⟨w', hw', hcore'.symm.trans hcore⟩
    · exact Or.inr ⟨w', hpromotes, hcore'.symm.trans hcore⟩
  have hstart : ¬ Has n₀ := by
    rintro ⟨w, hw, -⟩
    rw [flowTableGetForward_eq_none.mpr (hnoflow key)] at hw
    cases hw
  obtain ⟨before, promote, after, rfl, ⟨w, hpromotes, hcore⟩, -⟩ :=
    exists_origin Has Born hone hstart es ⟨v, hv, rfl⟩
  refine ⟨before, promote, after, w, rfl, pendingProvenance_run hempty before ?_, hpromotes, hcore.symm⟩
  cases promote with
  | geneveIngress skb h =>
    obtain ⟨_, _, _, _, _, _, _, hpin, _⟩ := hpromotes
    exact hpin
  | _ => exact hpromotes.elim

/-! ## Unknown flows -/

/-- A return packet of a flow that is neither established nor pending changes nothing and is dropped. -/
theorem geneveIngress_unknown {n : Node} {skb : Skb} {p : ReturnPacket} (h : Helpers)
    (hp : decapReturnAdmit n skb = some p) (hrow : n.flowTable.lookup p.fwdKey = none)
    (hpin : n.fwdPending.lookup p.flowKey = none) : geneveIngress n h skb = (n, skb, .shot) := by
  rw [geneveIngress_return hp]
  have hdel : deliverReturn n h skb p = (n, skb, none) := by
    unfold deliverReturn
    simp only
    cases tcpFlagsDirect skb p.inner.proto (ethHlen + p.family.ipHlen) with
    | none => rfl
    | some tcpFlags =>
      have hunknown : n.authorizeReturn h p tcpFlags = (n, none) := by
        simp only [Node.authorizeReturn, flowTableGetForward_eq_none.mpr hrow, hpin, Option.isSome_none,
          returnAuthorization, Bool.false_eq_true, if_false]
      simp only [hunknown]
  rw [hdel]
  rfl

/-! ## Runs -/

/-- **Flow admission.** In every run from tables with no forward row and no pending entry, of any packets, any
    deletions and any writes of the controller: (a) an uplink packet adds no key to `FLOW_TABLE`; (b) a forward
    row is added only by a return packet of an attested peer whose flow is pending then; (c) what a forward row
    holds is what the packet that minted the pending entry it was promoted from was answered, and the uplink
    that packet came in on; (d) a return packet of a flow that is neither established nor pending changes
    nothing and is dropped. -/
theorem flow_admission {n₀ : Node} (hempty : ∀ key, n₀.fwdPending.lookup key = none)
    (hnoflow : ∀ key, n₀.flowTable.lookup (forwardKey key) = none) (es : List NodeEvent) :
    Along Node.step (fun n e => ∀ skb h key, e = .uplinkIngress skb h → n.flowTable.lookup key = none →
        (n.step e).flowTable.lookup key = none) n₀ es ∧
      Along Node.step (fun n e => ∀ key, n.flowTable.lookup (forwardKey key) = none →
        (n.step e).flowTable.lookup (forwardKey key) ≠ none → ∃ v, Promotes n key v e) n₀ es ∧
      (∀ key v, (es.foldl Node.step n₀).flowTableGetForward (forwardKey key) = some v →
        ForwardProvenance n₀ es key v) ∧
      Along Node.step (fun n e => ∀ skb h p, e = .geneveIngress skb h → decapReturnAdmit n skb = some p →
        n.flowTable.lookup p.fwdKey = none → n.fwdPending.lookup p.flowKey = none →
        geneveIngress n h skb = (n, skb, .shot)) n₀ es := by
  refine ⟨along_iff.mpr ?_, along_iff.mpr ?_, fun key v hv => forwardProvenance_run hempty hnoflow es hv,
    along_iff.mpr ?_⟩
  · rintro before _ after - skb h key rfl hnone
    exact uplinkIngress_adds_no_flow hnone
  · intro before e after _ key hnone hsome
    obtain ⟨row, hrow⟩ := Option.ne_none_iff_exists'.mp hsome
    have hv : ((before.foldl Node.step n₀).step e).flowTableGetForward (forwardKey key) = some row.forward := by
      rw [Node.flowTableGetForward, hrow, Option.map_some]
    rcases step_forward hv with ⟨w, hw, _⟩ | ⟨w, hpromotes, _⟩
    · rw [flowTableGetForward_eq_none.mpr hnone] at hw
      cases hw
    · exact ⟨w, hpromotes⟩
  · rintro before _ after - skb h p rfl hp hrow hpin
    exact geneveIngress_unknown h hp hrow hpin

end Beep

/-! ## One flow, answered -/

namespace Beep

open Run

section
variable [Host]

/-- The ingress node, with the node of the pod for a peer. -/
def peeredIngress : Node :=
  { oneIngress with nodeAllow := (∅ : Table (Bytes 16) UInt8).insert (mappedAddr 10 0 0 2) 1 }

/-- The pod's answer, as it comes out of the tunnel. -/
def answerSkb : Skb where
  data := udpFrame (quad 10 1 0 9) (quad 198 51 100 7) (pair 0x1f 0x90) (pair 0x9c 0x40)
  linear := 42
  mark := 0
  ingressIfindex := 7
  ifindex := 7
  received := some ⟨setTunnelRemote (mappedAddr 10 0 0 2), vniRet,
    (encodeFrontEcho oneFront.frontIp oneFront.frontPort).toList⟩
  stamped := none
  host := false

/-- The ingress node once the flow is pending. -/
def pendingIngress : Node :=
  { peeredIngress with
    fwdPending := (∅ : Table TcpFlowKey ForwardFlowValue).insert clientFlow.flowKey
      ⟨oneEndpoint.backend, 1, oneEndpoint.targetPort, 0⟩ }

end

section
local instance admissionHost : Host := littleHost

/-- A packet of the flow, and the pod's answer. -/
def answeredRun : List NodeEvent :=
  [.uplinkIngress clientSkb fun _ => true, .geneveIngress answerSkb fun _ => true]

theorem step_peeredIngress : peeredIngress.step (.uplinkIngress clientSkb fun _ => true) = pendingIngress := rfl

theorem answeredRun_row : (answeredRun.foldl Node.step peeredIngress).flowTableGetForward
    (forwardKey clientFlow.flowKey) = some ⟨oneEndpoint.backend, 1, oneEndpoint.targetPort, 0⟩ := by
  rw [answeredRun, List.foldl_cons, step_peeredIngress]
  decide

/-- The answer finds the flow pending, and its forward row is what the packet before it was answered. -/
theorem flow_admission_one_answer :
    (∀ key, peeredIngress.fwdPending.lookup key = none) ∧
      (∀ key, peeredIngress.flowTable.lookup (forwardKey key) = none) ∧
      ForwardProvenance peeredIngress answeredRun clientFlow.flowKey
        ⟨oneEndpoint.backend, 1, oneEndpoint.targetPort, 0⟩ := by
  have hempty : ∀ key, peeredIngress.fwdPending.lookup key = none := fun _ => rfl
  have hnoflow : ∀ key, peeredIngress.flowTable.lookup (forwardKey key) = none := fun _ => rfl
  exact ⟨hempty, hnoflow, (flow_admission hempty hnoflow answeredRun).2.2.1 _ _ answeredRun_row⟩

end

end Beep
