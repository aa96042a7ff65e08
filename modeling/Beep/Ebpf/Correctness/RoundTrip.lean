import Beep.Ebpf.Correctness.Admission
import Beep.Ebpf.Correctness.ReverseRows
import Beep.Ebpf.Messages

/-!
# `Ebpf.Correctness.RoundTrip` — a reply comes back to its client

Five rewriting steps on two nodes compose to the identity on what the client sees. The invariant of a run
(`NetInv`) says what the three tables and the tunnel hold:

* every packet in the tunnel is a frame of a packet the ingress node answered, or a reply that is no reset;
* no backend remaps: there is no memo, and every reverse row is under the client's own port, held by the flow
  and naming the ingress node;
* every flow that was answered is pinned, with the uplink of its first packet.

The flows are such that no two fronts share a tuple: a row under a flow's own key is then the flow's.
-/

namespace Beep

open Run

variable [Host] {ι : Type*}

/-! ## The invariant -/

/-- The `FWD_PENDING` key of a flow. -/
def ClientFlow.flowKey (f : ClientFlow) : TcpFlowKey :=
  encodeTcpFlowKey f.clientIp f.clientPort f.frontIp f.frontPort f.proto

/-- The keys of an answered packet and of its flow are one key. -/
theorem flowKey_clientFlow (a : Admission) : a.clientFlow.flowKey = a.flow.flowKey := rfl

/-- What a packet of the flow says to its pod, where it is not remapped. -/
def ClientFlow.toPod (f : ClientFlow) : InnerPacket where
  proto := f.proto
  srcIp := f.clientIp
  srcPort := f.clientPort
  dstIp := f.podIp
  dstPort := f.targetPort

/-- What the client is to see of an answer: it comes from the front the client talks to. -/
def ClientFlow.toClient (f : ClientFlow) : InnerPacket where
  proto := f.proto
  srcIp := f.frontIp
  srcPort := f.frontPort
  dstIp := f.clientIp
  dstPort := f.clientPort

/-- No two flows through different fronts share a tuple. -/
def TuplesDistinct (flows : ClientFlow → Prop) : Prop :=
  ∀ f g, flows f → flows g → f.clientIp = g.clientIp → f.clientPort = g.clientPort → f.podIp = g.podIp →
    f.targetPort = g.targetPort → f.proto = g.proto → f.frontIp = g.frontIp ∧ f.frontPort = g.frontPort

/-- A backend's rows where nothing is remapped. -/
structure BackendInv (flows : ClientFlow → Prop) (ingressAddr : Bytes 16) (n : Node) : Prop where
  memo : ∀ f : ClientFlow, n.flowTableGetPortMemo f.memoKey = none
  rows : ∀ key row, flowKeyDirection key = some .reverse → n.flowTableGetReverse key = some row →
    ∃ f, flows f ∧ key = f.revKey f.clientPort ∧ row.identity = f.identity ∧ row.ingressNodeIp = ingressAddr

/-- The row under a flow's own key is the flow's. -/
theorem BackendInv.own {flows : ClientFlow → Prop} {ingressAddr : Bytes 16} {n : Node} {f : ClientFlow}
    {row : RevFlowValue} (hdistinct : TuplesDistinct flows) (hinv : BackendInv flows ingressAddr n) (hf : flows f)
    (hrow : n.flowTableGetReverse (f.revKey f.clientPort) = some row) :
    row.identity = f.identity ∧ row.ingressNodeIp = ingressAddr := by
  obtain ⟨g, hg, hkey, hid, hnode⟩ := hinv.rows _ row (direction_revKey ..) hrow
  obtain ⟨hclient, hport, hpod, htarget, hproto, _⟩ := encodeFlowKey_inj.mp hkey
  obtain ⟨hip, hfront⟩ := hdistinct f g hf hg hclient hport hpod htarget hproto
  refine ⟨?_, hnode⟩
  rw [hid, ClientFlow.identity, ClientFlow.identity, hip, hfront, hport]

/-- A packet of one of the flows keeps the client's own port. -/
theorem BackendInv.chosen {flows : ClientFlow → Prop} {ingressAddr : Bytes 16} {n n₁ : Node} {f : ClientFlow}
    {port : UInt16} (hdistinct : TuplesDistinct flows) (hinv : BackendInv flows ingressAddr n) (hf : flows f)
    (hchosen : PortChosen n f n₁ port) : n₁ = n ∧ port = f.clientPort := by
  cases hchosen with
  | memoized hmemo =>
    rw [hinv.memo] at hmemo
    cases hmemo
  | natural _ _ => exact ⟨rfl, rfl⟩
  | remapped _ htaken _ _ =>
    exact absurd (fun row hrow _ => (hinv.own hdistinct hf hrow).1) htaken

/-- Leaving the backend's rows alone keeps the invariant. -/
theorem BackendInv.frame {flows : ClientFlow → Prop} {ingressAddr : Bytes 16} {n n' : Node}
    (hinv : BackendInv flows ingressAddr n) (hframe : BackendFrame n n') : BackendInv flows ingressAddr n' where
  memo f := (hframe.memo _ (direction_memoKey f)).trans (hinv.memo f)
  rows key row' hkey hrow' := by
    have hsame := hframe.reverse key hkey
    rw [hrow', Option.map_some] at hsame
    obtain ⟨row, hrow, hcore⟩ := Option.map_eq_some_iff.mp hsame.symm
    obtain ⟨f, hf, hkey', hid, hnode⟩ := hinv.rows key row hkey hrow
    refine ⟨f, hf, hkey', (identity_of_core hcore).symm.trans hid, ?_⟩
    rw [← hnode]
    exact (congrArg RevFlowValue.ingressNodeIp hcore).symm

/-- A forward packet of one of the flows keeps the invariant. -/
theorem BackendInv.decapForwardCommit {flows : ClientFlow → Prop} {ingressAddr : Bytes 16} {n : Node}
    {p : ForwardPacket} (hdistinct : TuplesDistinct flows) (hinv : BackendInv flows ingressAddr n)
    (hf : flows p.flow) (hnode : p.ingressNodeIp = ingressAddr) (h : Helpers) (skb : Skb) :
    BackendInv flows ingressAddr (decapForwardCommit n h skb p).1 := by
  rcases decapForwardCommit_cases n h skb p with heq | ⟨n₁, port, hchosen, hn⟩
  · rw [heq]
    exact hinv
  · obtain ⟨rfl, rfl⟩ := hinv.chosen hdistinct hf hchosen
    rcases hn with heq | ⟨tcpFlags, flags, _, _, _, heq⟩
    · rw [heq]
      exact hinv
    · rw [heq]
      constructor
      · intro g
        rw [flowTableGetPortMemo_insert,
          if_neg (ne_of_direction (direction_memoKey g) (direction_revKey ..) (by decide))]
        exact hinv.memo g
      · intro key row hkey hrow
        rw [flowTableGetReverse_insert] at hrow
        split at hrow
        · rename_i hkey'
          rw [← Option.some_inj.mp hrow]
          exact ⟨p.flow, hf, hkey', rfl, hnode⟩
        · exact hinv.rows key row hkey hrow

/-- What is known of a delivered packet: its flow, the row it left, and what the pod was told. -/
structure DeliveryInv (flows : ClientFlow → Prop) (net : Network ι) (d : Delivery ι) : Prop where
  flow : flows d.flow
  row : (net.node d.node).flowTableGetReverse (d.flow.revKey d.flow.clientPort) ≠ none
  target : (net.node d.node).isPodTarget d.flow.podIp = true
  admitted : net.firstAdmission d.flow.flowKey ≠ none
  packet : ∃ fam, innerPacket d.skb = some (fam, d.flow.toPod) ∧
    (fam = .v4 → (unmapIpv4 d.flow.frontIp).isSome)

/-- The pins of the answered flows. -/
structure PinInv (ingress : Node) (net : Network ι) : Prop where
  pinned : ∀ key a, net.firstAdmission key = some a →
    ∃ v, ingress.pin key = some v ∧ v.ingressIfindex = a.ifindex ∧
      ingress.uplinkConfig.lookup a.ifindex ≠ none
  unpinned : ∀ key, net.firstAdmission key = none → ingress.pin key = none

/-- **The invariant of a run.** -/
structure NetInv (c : Cluster ι) (flows : ClientFlow → Prop) (net : Network ι) : Prop where
  sent : ∀ m ∈ net.sent, ForwardMessage c net.admitted m ∨ ReturnMessage m
  answered : ∀ a ∈ net.admitted, flows a.clientFlow
  backend : ∀ i, BackendInv flows (c.addr c.ingress) (net.node i)
  delivered : ∀ d ∈ net.delivered, DeliveryInv flows net d
  pins : PinInv (net.node c.ingress) net
  config : ∀ i, (net.node i).config ≠ none
  peers : ∀ i, (net.node c.ingress).isNodeAllowed (c.addr i) = true

/-- Nothing was sent, answered or delivered, and no table has a row. -/
theorem netInv_initial {c : Cluster ι} {flows : ClientFlow → Prop} {net : Network ι} (h : net.Initial c) :
    NetInv c flows net where
  sent m hm := by
    rw [h.sent] at hm
    cases hm
  answered a ha := by
    rw [h.admitted] at ha
    cases ha
  backend i := by
    constructor
    · intro f
      rw [Node.flowTableGetPortMemo, h.flowTable, Option.map_none]
    · intro key row _ hrow
      rw [Node.flowTableGetReverse, h.flowTable] at hrow
      cases hrow
  delivered d hd := by
    rw [h.delivered] at hd
    cases hd
  pins := by
    constructor
    · intro key a ha
      rw [Network.firstAdmission, h.admitted] at ha
      cases ha
    · intro key _
      rw [Node.pin, Node.flowTableGetForward, h.flowTable, h.fwdPending]
      rfl
  config := h.config
  peers := h.peers

/-! ## One step at one node -/

/-- What an answered packet was: a client's, steered by the ingress hook. -/
theorem admits_eq_some {n : Node} {e : NodeEvent} {a : Admission} (ha : n.admits e = some a) :
    ∃ skb h l2Hlen, e = .uplinkIngress skb h ∧ ingressAdmit n skb = some (a.flow, l2Hlen) ∧
      (n.steer h a.flow skb.ingressIfindex).2 = .ok a.answer ∧ a.ifindex = skb.ingressIfindex := by
  cases e with
  | uplinkIngress skb h =>
    simp only [Node.admits] at ha
    split at ha
    · cases ha
    · rename_i flow l2Hlen hadm
      split at ha
      · rename_i answer hok
        cases ha
        exact ⟨skb, h, l2Hlen, rfl, hadm, hok, rfl⟩
      · cases ha
  | _ => cases ha

/-- What an allowed event leaves of the settings. -/
structure SettingsKept (n n' : Node) : Prop where
  podTargets : n'.podTargets = n.podTargets
  nodeAllow : n'.nodeAllow = n.nodeAllow
  uplinkConfig : n'.uplinkConfig = n.uplinkConfig
  config : n.config ≠ none → n'.config ≠ none

omit [Host] in
/-- The programs write no settings. -/
theorem SettingsKept.of_same {n n' : Node} (h : SameSettings n n') : SettingsKept n n' :=
  ⟨h.podTargets, h.nodeAllow, h.uplinkConfig, fun hc => h.config ▸ hc⟩

/-- Of the settings an allowed event changes the fronts and `CONFIG` at most. -/
theorem settingsKept_step {c : Cluster ι} {flows : ClientFlow → Prop} {net : Network ι} {e : NetEvent ι}
    (he : e.Allowed c flows net) (n : Node) : SettingsKept n (n.step e.event) := by
  obtain ⟨i, e⟩ := e
  cases e with
  | uplinkIngress _ _ | geneveIngress _ _ | uplinkEgress _ _ => exact .of_same (step_settings id)
  | setFronts _ _ => exact ⟨rfl, rfl, rfl, id⟩
  | setConfig _ => exact ⟨rfl, rfl, rfl, fun _ => Option.some_ne_none _⟩
  | dropFlow _ | dropPending _ | setPodTargets _ | setNodeAllow _ | setUplinks _ => exact he.elim

/-- A reverse row is there until it is dropped. -/
theorem reverse_row_kept {n : Node} {e : NodeEvent} {key : FlowKey} (hdrop : ∀ key, e ≠ .dropFlow key)
    (hkey : flowKeyDirection key = some .reverse) (hrow : n.flowTableGetReverse key ≠ none) :
    (n.step e).flowTableGetReverse key ≠ none := by
  have hinsert : ∀ {n : Node} (key' : FlowKey) (v : FlowValue), n.flowTableGetReverse key ≠ none →
      (n.flowTableInsert key' v).flowTableGetReverse key ≠ none := by
    intro n key' v hrow
    rw [flowTableGetReverse_insert]
    split
    · exact Option.some_ne_none _
    · exact hrow
  rcases step_backend n e with ⟨skb, h, p, rfl, _, hstep⟩ | ⟨key', rfl⟩ | hframe
  · rw [hstep]
    rcases decapForwardCommit_cases n h skb p with heq | ⟨n₁, port, hchosen, hn⟩
    · rw [heq]
      exact hrow
    · have hrow₁ : n₁.flowTableGetReverse key ≠ none := by
        cases hchosen with
        | memoized _ | natural _ _ => exact hrow
        | remapped _ _ _ _ => exact hinsert _ _ hrow
      rcases hn with heq | ⟨_, _, _, _, _, heq⟩
      · rw [heq]
        exact hrow₁
      · rw [heq]
        exact hinsert _ _ hrow₁
  · exact absurd rfl (hdrop key')
  · obtain ⟨row, hrow⟩ := Option.ne_none_iff_exists'.mp hrow
    obtain ⟨row', hrow', _⟩ := hframe.row hkey hrow
    rw [hrow']
    exact Option.some_ne_none _

/-- The first packet of a flow that is answered pins the flow to its own uplink. -/
theorem pin_of_first {n : Node} {f : IngressFlow} {h : Helpers} {ifindex : UInt32}
    {answer : LbFrontBackend × UInt16} (hnone : n.pin f.flowKey = none)
    (hok : (n.steer h f ifindex).2 = .ok answer) :
    ∃ v, (n.steer h f ifindex).1.pin f.flowKey = some v ∧ v.ingressIfindex = ifindex := by
  rw [Node.pin, ← IngressFlow.fwdKey_eq] at hnone
  generalize hres : n.steer h f ifindex = res at hok
  have hs := steer_steered n h f ifindex
  rw [hres] at hs
  cases hs with
  | notFront _ | unpinned _ _ | missed _ _ => cases hok
  | established _ _ hrow =>
    rw [hrow, Option.some_or] at hnone
    cases hnone
  | pending _ _ hrow hpin =>
    rw [hrow, hpin, Option.none_or] at hnone
    cases hnone
  | @minted backend targetPort _ _ hrow _ =>
    refine ⟨⟨backend, ifindex, targetPort, 0⟩, ?_, rfl⟩
    show (n.flowTableGetForward (forwardKey f.flowKey)).or _ = _
    rw [← IngressFlow.fwdKey_eq, hrow, Option.none_or, Table.lookup_insert_ite, if_pos rfl]

/-- A flow none of whose packets is answered stays without a pin. -/
theorem unpinned_step {n : Node} {e : NodeEvent} {key : TcpFlowKey} (hnone : n.pin key = none)
    (hother : ∀ a, n.admits e = some a → a.flow.flowKey ≠ key) : (n.step e).pin key = none := by
  obtain ⟨hforward, hpending⟩ := Option.or_eq_none_iff.mp hnone
  refine Option.or_eq_none_iff.mpr ⟨?_, ?_⟩
  · refine Option.eq_none_iff_forall_ne_some.mpr fun v hv => ?_
    rcases step_forward hv with ⟨w, hw, _⟩ | ⟨w, hpromotes, _⟩
    · rw [hforward] at hw
      cases hw
    · -- a promoted flow was pending
      cases e with
      | geneveIngress skb h =>
        obtain ⟨_, _, _, _, _, _, _, hw, _⟩ := hpromotes
        rw [hpending] at hw
        cases hw
      | _ => exact hpromotes
  · refine Option.eq_none_iff_forall_ne_some.mpr fun v hv => ?_
    rcases step_pending hv with hv' | hmints
    · rw [hpending] at hv'
      cases hv'
    · cases e with
      | uplinkIngress skb h =>
        obtain ⟨f, l2Hlen, hadm, hkey, _, hok, _⟩ := hmints
        refine hother ⟨f, (v.backend, v.targetPort), skb.ingressIfindex⟩ ?_ hkey
        simp only [Node.admits, hadm, hok]
      | _ => exact hmints

/-- A pod's reply goes to the client's own port. -/
theorem BackendInv.natural {flows : ClientFlow → Prop} {ingressAddr : Bytes 16} {n : Node} {p : ReplyPacket}
    {rev : RevFlowValue} (hinv : BackendInv flows ingressAddr n) (hrev : n.flowTableGetReverse p.key = some rev) :
    rev.originalClientPort = p.backendDstPort := by
  obtain ⟨f, _, hkey, hid, _⟩ := hinv.rows _ rev (direction_replyKey p) hrev
  obtain ⟨_, hport, _⟩ := encodeFlowKey_inj.mp hkey
  rw [hport]
  exact (Prod.mk.inj hid).2

/-! ## One step of the network -/

section
variable [DecidableEq ι] {c : Cluster ι} {flows : ClientFlow → Prop} {net : Network ι} {e : NetEvent ι}

/-- The node an event is at takes its step. -/
theorem node_step_self : (net.step c e).node e.place = (net.node e.place).step e.event :=
  Function.update_self ..

/-- Every other node stays as it is. -/
theorem node_step_other {i : ι} (hi : i ≠ e.place) : (net.step c e).node i = net.node i :=
  Function.update_of_ne hi ..

/-- A step at one node: the node it is at, and every other one. -/
theorem node_step (P : Node → Prop) (i : ι) (hother : P (net.node i))
    (hplace : i = e.place → P ((net.node e.place).step e.event)) : P ((net.step c e).node i) := by
  by_cases hi : i = e.place
  · rw [hi, node_step_self]
    exact hplace hi
  · rw [node_step_other hi]
    exact hother

/-- The tunnel gains what the node sends. -/
theorem mem_sent_step {m : TunnelPacket} (hm : m ∈ (net.step c e).sent) :
    m ∈ net.sent ∨ (net.node e.place).sends (c.addr e.place) e.event = some m := by
  simpa [Network.step] using hm

/-- Deliveries are never taken back. -/
theorem mem_delivered_step {d : Delivery ι} (hd : d ∈ (net.step c e).delivered) :
    d ∈ net.delivered ∨ (net.node e.place).delivers e.place e.event = some d := by
  simpa [Network.step] using hd

/-- Answers are never taken back. -/
theorem mem_admitted_step {a : Admission} :
    a ∈ (net.step c e).admitted ↔ a ∈ net.admitted ∨ (net.node e.place).admits e.event = some a := by
  simp [Network.step]

/-- The first packet of a flow stays the first. -/
theorem firstAdmission_step {key : TcpFlowKey} {a : Admission} (ha : net.firstAdmission key = some a) :
    (net.step c e).firstAdmission key = some a := by
  unfold Network.firstAdmission at ha ⊢
  show (net.admitted ++ _).find? _ = _
  rw [List.find?_append, ha, Option.some_or]

/-- What the first packet of a flow after a step is, where there was none before. -/
theorem firstAdmission_step_none {key : TcpFlowKey} (hnone : net.firstAdmission key = none) :
    (net.step c e).firstAdmission key =
      ((net.node e.place).admits e.event).filter fun a => a.flow.flowKey = key := by
  unfold Network.firstAdmission at hnone ⊢
  show (net.admitted ++ _).find? _ = _
  rw [List.find?_append, hnone, Option.none_or]
  cases (net.node e.place).admits e.event with
  | none => rfl
  | some a =>
    rw [Option.toList_some, List.find?_singleton, Option.filter_some]

/-- What a step sends. -/
theorem NetInv.sent_step (hinv : NetInv c flows net) (he : e.Allowed c flows net) {m : TunnelPacket}
    (hm : (net.node e.place).sends (c.addr e.place) e.event = some m) :
    ForwardMessage c (net.step c e).admitted m ∨ ReturnMessage m := by
  obtain ⟨i, event⟩ := e
  cases event with
  | uplinkIngress skb h =>
    obtain ⟨a, ha, hsrc, hvni, hopt, htold⟩ := sends_of_uplinkIngress hm
    obtain ⟨rfl, hrst, _⟩ := he
    obtain ⟨_, _, l2Hlen, heq, hadm, _⟩ := admits_eq_some ha
    cases heq
    refine Or.inl ⟨hvni, hsrc, a, mem_admitted_step.mpr (Or.inr ha), ?_, hopt, htold⟩
    exact fun h => hrst ⟨a.flow, l2Hlen, hadm, h⟩
  | uplinkEgress skb h =>
    obtain ⟨p, rev, tcpFlags, hp, _, hflags, _, _, hvni, _, htold, _⟩ :=
      sends_of_uplinkEgress (fun p rev _ hrev => (hinv.backend i).natural hrev) hm
    refine Or.inr ⟨hvni, p.family, p.packet, tcpFlags, htold, ?_⟩
    exact fun h => he ⟨p, tcpFlags, hp, hflags, h⟩
  | _ => cases hm

omit [DecidableEq ι] in
/-- The backend of every node. -/
theorem NetInv.backend_step (hdistinct : TuplesDistinct flows) (hinv : NetInv c flows net)
    (he : e.Allowed c flows net) :
    BackendInv flows (c.addr c.ingress) ((net.node e.place).step e.event) := by
  have hplace := hinv.backend e.place
  obtain ⟨i, event⟩ := e
  rcases step_backend (net.node i) event with ⟨skb, h, p, rfl, hp, hstep⟩ | ⟨key, rfl⟩ | hframe
  · obtain ⟨m, hm, _, harrives⟩ := he
    obtain ⟨a, ha, hflow, hnode, _⟩ := ForwardMessage.taken (hinv.sent m hm) harrives hp
    rw [hstep]
    exact hplace.decapForwardCommit hdistinct (hflow ▸ hinv.answered a ha) hnode h skb
  · exact he.elim
  · exact hplace.frame hframe

omit [DecidableEq ι] in
/-- No allowed step takes a pin away. -/
theorem NetInv.pinKept (hinv : NetInv c flows net) (he : e.Allowed c flows net) (key : TcpFlowKey) :
    PinKept key (net.node e.place) e.event := by
  obtain ⟨i, event⟩ := e
  refine ⟨?_, ?_, ?_⟩
  · -- a row is not dropped in an allowed run, neither here
    rintro rfl
    exact he
  · -- nor in `FWD_PENDING`
    rintro rfl
    exact he
  · -- and what comes out of the tunnel is a reply, so no reset
    intro hreset
    cases event with
    | geneveIngress skb h =>
      obtain ⟨m, hm, _, harrives⟩ := he
      obtain ⟨p, tcpFlags, hp, _, hflags, hrst, _⟩ := hreset
      exact ReturnMessage.taken (hinv.sent m hm) harrives hp hflags hrst
    | _ => exact hreset

omit [DecidableEq ι] in
/-- Clients' packets are answered at the ingress node only. -/
theorem place_of_admits (he : e.Allowed c flows net) {a : Admission}
    (ha : (net.node e.place).admits e.event = some a) : e.place = c.ingress ∧ flows a.clientFlow := by
  obtain ⟨i, event⟩ := e
  obtain ⟨skb, h, _, rfl, _⟩ := admits_eq_some ha
  exact ⟨he.1, he.2.2 a ha⟩

/-- The pins after a step. -/
theorem NetInv.pins_step (hinv : NetInv c flows net) (he : e.Allowed c flows net) :
    PinInv ((net.step c e).node c.ingress) (net.step c e) := by
  constructor
  · intro key a ha
    cases hold : net.firstAdmission key with
    | some a' =>
      -- the flow was pinned, and stays so
      obtain rfl : a' = a := Option.some_inj.mp ((firstAdmission_step hold).symm.trans ha)
      obtain ⟨v, hv, hifindex, huplink⟩ := hinv.pins.pinned key a' hold
      refine node_step (fun n => ∃ v, n.pin key = some v ∧ v.ingressIfindex = a'.ifindex ∧
        n.uplinkConfig.lookup a'.ifindex ≠ none) c.ingress ⟨v, hv, hifindex, huplink⟩ fun hi => ?_
      rw [hi] at hv huplink
      obtain ⟨v', hv', hcore⟩ := step_pin hv (hinv.pinKept he key)
      refine ⟨v', hv', (fields_of_core hcore).2.2.trans hifindex, ?_⟩
      rw [(settingsKept_step he _).uplinkConfig]
      exact huplink
    | none =>
      -- the packet of this step is the flow's first
      rw [firstAdmission_step_none hold] at ha
      obtain ⟨hadmits, hkey⟩ := Option.filter_eq_some_iff.mp ha
      obtain ⟨hi, _⟩ := place_of_admits he hadmits
      obtain ⟨skb, h, l2Hlen, hevent, hadm, hok, hifindex⟩ := admits_eq_some hadmits
      have hnone := hinv.pins.unpinned key hold
      rw [← of_decide_eq_true hkey] at hnone ⊢
      rw [← hi] at hnone
      obtain ⟨v, hv, hv'⟩ := pin_of_first hnone hok
      obtain ⟨uplink, huplink, _⟩ := ingressAdmit_eq_some.mp hadm
      have hstep : (net.node e.place).step e.event =
          ((net.node e.place).steer h a.flow skb.ingressIfindex).1 := by
        simp only [hevent, Node.step, uplinkIngress_fst, hadm]
      rw [← hi, node_step_self, hstep]
      refine ⟨v, hv, hv'.trans hifindex.symm, ?_⟩
      rw [(SameSettings.steer ..).uplinkConfig, hifindex, huplink]
      exact Option.some_ne_none _
  · intro key hnone
    have hold : net.firstAdmission key = none := by
      cases hold : net.firstAdmission key with
      | none => rfl
      | some a =>
        rw [firstAdmission_step hold] at hnone
        cases hnone
    refine node_step (fun n => n.pin key = none) c.ingress (hinv.pins.unpinned key hold) fun hi => ?_
    refine unpinned_step (hi ▸ hinv.pins.unpinned key hold) fun a ha hkey => ?_
    rw [firstAdmission_step_none hold, ha, Option.filter_some, if_pos (decide_eq_true hkey)] at hnone
    cases hnone

omit [DecidableEq ι] in
/-- A packet that is handed to a pod: its flow is one that was answered, and it keeps the client's port. -/
theorem NetInv.delivers (hdistinct : TuplesDistinct flows) (hinv : NetInv c flows net)
    (he : e.Allowed c flows net) {d : Delivery ι} (hd : (net.node e.place).delivers e.place e.event = some d) :
    d.node = e.place ∧ (∃ a ∈ net.admitted, d.flow = a.clientFlow) ∧
      ((net.node e.place).step e.event).flowTableGetReverse (d.flow.revKey d.flow.clientPort) ≠ none ∧
      (net.node e.place).isPodTarget d.flow.podIp = true ∧
      ∃ fam, innerPacket d.skb = some (fam, d.flow.toPod) ∧
        (fam = .v4 → (unmapIpv4 d.flow.frontIp).isSome) := by
  have hbackend := hinv.backend e.place
  obtain ⟨i, event⟩ := e
  cases event with
  | geneveIngress skb h =>
    simp only [Node.delivers] at hd
    cases hp : decapForwardAdmit (net.node i) skb with
    | none => simp [hp] at hd
    | some p =>
      simp only [hp, geneveIngress_forward hp] at hd
      split at hd
      · rename_i hverdict
        cases hd
        obtain ⟨m, hm, _, harrives⟩ := he
        obtain ⟨a, ha, hflow, _, htarget, tcpFlags, hrst, hflags⟩ :=
          ForwardMessage.taken (hinv.sent m hm) harrives hp
        have hq := decapForwardAdmit_innerPacket hp
        -- the verdict is the program's own, so the commit went through
        have hok : deliverForward (net.node i) h skb p = ((deliverForward (net.node i) h skb p).1,
            (deliverForward (net.node i) h skb p).2.1, some .ok) := by
          cases hres : (deliverForward (net.node i) h skb p).2.2 with
          | none => simp [hres] at hverdict
          | some verdict =>
            rw [hres, Option.getD_some] at hverdict
            rw [← hverdict, ← hres]
        obtain ⟨port, hcommit, hpod⟩ := deliverForward_ok hq hok
        obtain ⟨n₁, tcpFlags', hchosen, hflags', hrow⟩ := decapForwardCommit_ok hcommit
        obtain ⟨rfl, rfl⟩ := hbackend.chosen hdistinct (hflow ▸ hinv.answered a ha) hchosen
        obtain rfl : tcpFlags' = tcpFlags := Option.some_inj.mp (hflags'.symm.trans hflags)
        refine ⟨rfl, ⟨a, ha, hflow⟩, ?_, htarget, p.family, hpod, fun hfam => ?_⟩
        · rcases hrow with ⟨_, hrst', _⟩ | ⟨flags, hget, _⟩
          · exact absurd hrst' hrst
          · simp only [Node.step, geneveIngress_forward hp, hget]
            exact Option.some_ne_none _
        · have hdst := (innerPacket_iff.mp hq).2.2.2.dstIp
          rw [hfam] at hdst
          obtain ⟨addr, _, haddr⟩ := Option.map_eq_some_iff.mp hdst
          show (unmapIpv4 p.original.dstIp).isSome
          rw [← haddr, unmapIpv4_ipv4MappedV6]
          rfl
      · cases hd
  | _ => cases hd

/-- An earlier delivery keeps its row, target and first packet; a new one has them from its step. -/
theorem NetInv.delivered_step (hdistinct : TuplesDistinct flows) (hinv : NetInv c flows net)
    (he : e.Allowed c flows net) {d : Delivery ι} (hd : d ∈ (net.step c e).delivered) :
    DeliveryInv flows (net.step c e) d := by
  have htargets : ((net.node e.place).step e.event).podTargets = (net.node e.place).podTargets :=
    (settingsKept_step he _).podTargets
  rcases mem_delivered_step hd with hd | hd
  · have hold := hinv.delivered d hd
    refine ⟨hold.flow, ?_, ?_, ?_, hold.packet⟩
    · refine node_step (fun n => n.flowTableGetReverse _ ≠ none) d.node hold.row fun hi => ?_
      refine reverse_row_kept ?_ (direction_revKey ..) (hi ▸ hold.row)
      intro key hdrop
      obtain ⟨i, event⟩ := e
      cases hdrop
      exact he
    · refine node_step (fun n => n.isPodTarget _ = true) d.node hold.target fun hi => ?_
      rw [Node.isPodTarget, htargets]
      exact hi ▸ hold.target
    · obtain ⟨a, ha⟩ := Option.ne_none_iff_exists'.mp hold.admitted
      rw [firstAdmission_step ha]
      exact Option.some_ne_none _
  · obtain ⟨hi, ⟨a, ha, hflow⟩, hrow, htarget, hpacket⟩ := hinv.delivers hdistinct he hd
    have hnode : (net.step c e).node d.node = (net.node e.place).step e.event := by
      rw [hi, node_step_self]
    refine ⟨hflow ▸ hinv.answered a ha, ?_, ?_, ?_, hpacket⟩
    · rw [hnode]
      exact hrow
    · rw [hnode, Node.isPodTarget, htargets]
      exact htarget
    · intro hnone
      have hkey := List.find?_eq_none.mp hnone a (mem_admitted_step.mpr (Or.inl ha))
      rw [hflow, flowKey_clientFlow] at hkey
      simp at hkey

/-- **The step lemma.** -/
theorem NetInv.step (hdistinct : TuplesDistinct flows) (hinv : NetInv c flows net)
    (he : e.Allowed c flows net) : NetInv c flows (net.step c e) where
  sent m hm := by
    rcases mem_sent_step hm with hm | hm
    · refine (hinv.sent m hm).imp_left ?_
      rintro ⟨hvni, hsrc, a, ha, hrest⟩
      exact ⟨hvni, hsrc, a, mem_admitted_step.mpr (Or.inl ha), hrest⟩
    · exact hinv.sent_step he hm
  answered a ha := by
    rcases mem_admitted_step.mp ha with ha | ha
    · exact hinv.answered a ha
    · exact (place_of_admits he ha).2
  backend i := node_step (BackendInv flows (c.addr c.ingress)) i (hinv.backend i)
    fun _ => hinv.backend_step hdistinct he
  delivered _ hd := hinv.delivered_step hdistinct he hd
  pins := hinv.pins_step he
  config i := node_step (fun n => n.config ≠ none) i (hinv.config i)
    fun _ => (settingsKept_step he _).config (hinv.config _)
  peers i := by
    refine node_step (fun n => n.isNodeAllowed (c.addr i) = true) c.ingress (hinv.peers i) fun hplace => ?_
    rw [Node.isNodeAllowed, (settingsKept_step he _).nodeAllow]
    exact hplace ▸ hinv.peers i

/-- **The run lemma.** -/
theorem NetInv.run (hdistinct : TuplesDistinct flows) (hinv : NetInv c flows net) {es : List (NetEvent ι)}
    (hrun : Along (Network.step c) (NetEvent.Allowed c flows) net es) :
    NetInv c flows (es.foldl (Network.step c) net) :=
  hrun.inv (fun _ _ hinv he => hinv.step hdistinct he) hinv

/-- The first packet of a flow stays the first over any run. -/
theorem firstAdmission_run {key : TcpFlowKey} {a : Admission} (ha : net.firstAdmission key = some a)
    (es : List (NetEvent ι)) : (es.foldl (Network.step c) net).firstAdmission key = some a := by
  induction es generalizing net with
  | nil => exact ha
  | cons e es ih => exact ih (firstAdmission_step ha)

end

/-! ## The reply -/

/-- A reply to a packet of the flow is one of a backend pod, and whole. -/
theorem IsReply.taken {n : Node} {d r : Skb} {fam : Family} {f : ClientFlow} (hreply : IsReply n d r)
    (hd : innerPacket d = some (fam, f.toPod)) (htarget : n.isPodTarget f.podIp = true) :
    ∃ p tcpFlags, egressAdmit n r = some p ∧ p.family = fam ∧ p.packet = f.toPod.swap ∧
      tcpFlagsDirect r p.proto (p.l2Hlen + p.family.ipHlen) = some tcpFlags ∧ ¬ IsRst p.proto tcpFlags ∧
      p.l2Hlen + fam.ipHlen + Edit.l4Hlen p.proto ≤ r.data.length := by
  obtain ⟨hmark, uplink, fam', q, g, huplink, hlen, hd', hfam, hg, hq, hrst, hwhole⟩ := hreply
  obtain ⟨rfl, rfl⟩ := Prod.mk.inj (Option.some_inj.mp (hd.symm.trans hd'))
  have hpacket := uplinkIngressHeaders_eq_some.mp hg
  have hproto : g.front.proto = f.proto := congrArg InnerPacket.proto hq
  have hframe := hpacket.frame
  rw [hq] at hframe
  have hflags := hpacket.tcpFlagsDirect
  rw [hproto] at hflags hrst hwhole
  refine ⟨⟨fam, uplink.l2Hlen.toNat, f.podIp, f.targetPort, f.clientIp, f.clientPort, f.proto⟩, g.tcpFlags,
    egressAdmit_eq_some.mpr ⟨hmark, uplink, fam, huplink, hlen, hfam, ?_⟩, rfl, rfl, hflags, hrst, hwhole⟩
  exact egressHeaders_eq_some.mpr ⟨hframe, rfl, rfl, htarget⟩

/-- A reply with a row under its own port is tunnelled, when no call is refused. -/
theorem tunnelReply_all {n : Node} {r : Skb} {p : ReplyPacket} {rev : RevFlowValue} {tcpFlags : UInt8}
    (hrev : n.flowTableGetReverse p.key = some rev) (hport : rev.originalClientPort = p.backendDstPort)
    (hflags : tcpFlagsDirect r p.proto (p.l2Hlen + p.family.ipHlen) = some tcpFlags)
    (hconfig : n.config ≠ none) :
    ∃ skb ifindex, (tunnelReply n (fun _ => true) r p).2 = (skb, some (.redirect ifindex false)) := by
  have hsame : (n.touchReturnRow (fun _ => true) p.key rev p.proto tcpFlags).config = n.config := by
    rcases touchReturnRow_cases n (fun _ => true) p.key rev p.proto tcpFlags with heq | ⟨flags, _, heq⟩
    · rw [heq]
    · rw [heq]
      rfl
  obtain ⟨config, hconfig⟩ := Option.ne_none_iff_exists'.mp hconfig
  obtain ⟨skb, hskb⟩ := redirectToGeneve_all r config.geneveIfindex vniRet rev.ingressNodeIp
    (encodeFrontEcho rev.frontIp rev.frontPort) (if p.l2Hlen = 0 then p.family.ethertype else noL3Ethertype)
  refine ⟨skb, config.geneveIfindex, ?_⟩
  simp only [tunnelReply, hrev, Option.isSome_some, egressReturnOutcome, if_true, hflags, hport,
    Edit.rewriteL4Port, Edit.done, hsame, hconfig, Option.map_some, hskb]

/-- Such a reply goes into the tunnel. -/
theorem sends_reply {n : Node} {r : Skb} {p : ReplyPacket} {rev : RevFlowValue} {tcpFlags : UInt8}
    (src : Bytes 16) (hp : egressAdmit n r = some p) (hrev : n.flowTableGetReverse p.key = some rev)
    (hport : rev.originalClientPort = p.backendDstPort)
    (hflags : tcpFlagsDirect r p.proto (p.l2Hlen + p.family.ipHlen) = some tcpFlags)
    (hconfig : n.config ≠ none) : ∃ m, n.sends src (.uplinkEgress r fun _ => true) = some m := by
  obtain ⟨skb, ifindex, htunnel⟩ := tunnelReply_all hrev hport hflags hconfig
  have hres := uplinkEgressReturn_reply (h := fun _ => true) hp
  rw [htunnel] at hres
  have hverdict : (uplinkEgressReturn n (fun _ => true) r).2.2 = .redirect ifindex false := by rw [hres]; rfl
  obtain ⟨_, _, _, _, _, _, _, _, _, hredirect⟩ := uplinkEgress_redirect hverdict
  obtain ⟨hstamped, _⟩ := redirectToGeneve_redirect hredirect
  simp only [Node.sends, hverdict, tunnelled, hstamped, Option.map_some]
  exact ⟨_, rfl⟩

/-- A return packet of a pinned flow is authorized by the pin, unless it is a reset. -/
theorem authorizeReturn_of_pin {n : Node} {p : ReturnPacket} {tcpFlags : UInt8} {v : ForwardFlowValue}
    (hpin : n.pin p.flowKey = some v) (hrst : ¬ IsRst p.inner.proto tcpFlags) :
    ∃ n' v', n.authorizeReturn (fun _ => true) p tcpFlags = (n', some v') ∧
      v'.ingressIfindex = v.ingressIfindex := by
  rw [Node.pin, ← ReturnPacket.fwdKey_eq] at hpin
  generalize hres : n.authorizeReturn (fun _ => true) p tcpFlags = res
  have ha := authorizeReturn_authorized n (fun _ => true) p tcpFlags
  rw [hres] at ha
  cases ha with
  | established hrow =>
    rw [hrow, Option.some_or] at hpin
    exact ⟨_, _, rfl, congrArg _ (Option.some_inj.mp hpin)⟩
  | unknown hrow hnone =>
    rw [hrow, hnone] at hpin
    cases hpin
  | reset _ _ hrst' => exact absurd hrst' hrst
  | promoted hrow hfound _ _ =>
    rw [hrow, hfound, Option.none_or] at hpin
    obtain rfl := Option.some_inj.mp hpin
    exact ⟨_, _, rfl, rfl⟩
  | refused _ _ hins => cases hins

/-- **Return decapsulation.** A whole return packet of a pinned flow goes out on the uplink of the pin, from
    the front it echoes. -/
theorem deliverReturn_all {n : Node} {skb : Skb} {p : ReturnPacket} {tcpFlags : UInt8} {v : ForwardFlowValue}
    (hq : innerPacket skb = some (p.family, p.inner))
    (hflags : tcpFlagsDirect skb p.inner.proto (ethHlen + p.family.ipHlen) = some tcpFlags)
    (hrst : ¬ IsRst p.inner.proto tcpFlags) (hpin : n.pin p.flowKey = some v)
    (huplink : n.uplinkConfig.lookup v.ingressIfindex ≠ none)
    (hmapped : p.family = .v4 → (unmapIpv4 p.frontIp).isSome)
    (hwhole : ethHlen + p.family.ipHlen + Edit.l4Hlen p.inner.proto ≤ skb.data.length) :
    ∃ out neigh, (deliverReturn n (fun _ => true) skb p).2 = (out, some (.redirect v.ingressIfindex neigh)) ∧
      innerPacket out = some (p.family, { p.inner with srcIp := p.frontIp, srcPort := p.frontPort }) := by
  obtain ⟨n', v', hauth, hifindex⟩ := authorizeReturn_of_pin hpin hrst
  have huplink' : n'.uplinkConfig = n.uplinkConfig := by
    have hsame := SameSettings.authorizeReturn n (fun _ => true) p tcpFlags
    rw [hauth] at hsame
    exact hsame.uplinkConfig
  have hold : p.family = .v4 → (unmapIpv4 p.inner.srcIp).isSome := by
    intro hfam
    have hsrc := (innerPacket_iff.mp hq).2.2.2.srcIp
    rw [hfam] at hsrc
    obtain ⟨addr, _, haddr⟩ := Option.map_eq_some_iff.mp hsrc
    rw [← haddr, unmapIpv4_ipv4MappedV6]
    rfl
  obtain ⟨skb', hedit⟩ := Edit.rewriteAddrPort_succeeds p.inner.srcPort p.frontPort p.inner.proto
    (fun hfam => ⟨hold hfam, hmapped hfam⟩)
    (show ethHlen + p.family.srcOff + p.family.addrLen ≤ _ by cases p.family <;> decide)
    (show ethHlen + p.family.ipHlen + 2 ≤ _ by omega) hwhole
  obtain ⟨uplink, hfound⟩ := Option.ne_none_iff_exists'.mp huplink
  refine ⟨{ skb' with mark := redirectedReturnMark }, uplink.l2Hlen.toNat = ethHlen, ?_, ?_⟩
  · have hredirect : n'.redirectClientBound (fun _ => true) v'.ingressIfindex =
        some (.redirect v.ingressIfindex (uplink.l2Hlen.toNat = ethHlen)) := by
      rw [Node.redirectClientBound, huplink', hifindex, hfound]
      rfl
    simp only [deliverReturn, hflags, hauth, hedit, hredirect]
  · have hsrc := innerPacket_rewrite_src hq hedit
    exact hsrc

/-! ## Runs -/

/-- **The round trip.** In every run over flows that share no tuple across fronts, when a pod answers a packet
    it was handed, the reply is tunnelled to the ingress node, and whatever happens until it gets there, it
    goes out there from the flow's own front to the client's own address and port, on the uplink the flow's
    first packet came in on. No call of the two programs that carry the reply is refused. -/
theorem reply_reaches_client [DecidableEq ι] {c : Cluster ι} {flows : ClientFlow → Prop} {net₀ : Network ι}
    {es : List (NetEvent ι)} (hstart : net₀.Initial c) (hdistinct : TuplesDistinct flows)
    (hrun : Along (Network.step c) (NetEvent.Allowed c flows) net₀ es) {d : Delivery ι}
    (hd : d ∈ (es.foldl (Network.step c) net₀).delivered) {r : Skb}
    (hreply : IsReply ((es.foldl (Network.step c) net₀).node d.node) d.skb r) :
    let net := es.foldl (Network.step c) net₀
    let reply : NetEvent ι := ⟨d.node, .uplinkEgress r fun _ => true⟩
    ∃ m, (net.node d.node).sends (c.addr d.node) reply.event = some m ∧ m.dst = c.addr c.ingress ∧
      ∀ es', Along (Network.step c) (NetEvent.Allowed c flows) (net.step c reply) es' →
        ∀ skb, m.ArrivesAs skb →
          ∃ a out neigh fam, net.firstAdmission d.flow.flowKey = some a ∧
            (geneveIngress ((es'.foldl (Network.step c) (net.step c reply)).node c.ingress) (fun _ => true)
              skb).2 = (out, .redirect a.ifindex neigh) ∧
            innerPacket out = some (fam, d.flow.toClient) := by
  intro net reply
  have hinv : NetInv c flows net := (netInv_initial hstart).run hdistinct hrun
  have hdel := hinv.delivered d hd
  obtain ⟨fam, hpacket, hmapped⟩ := hdel.packet
  obtain ⟨p, tcpFlags, hp, rfl, htold, hflags, hrst, hwhole⟩ := hreply.taken hpacket hdel.target
  obtain ⟨rev, hrev⟩ := Option.ne_none_iff_exists'.mp hdel.row
  obtain ⟨hid, hnode⟩ := (hinv.backend d.node).own hdistinct hdel.flow hrev
  have hkey : p.key = d.flow.revKey d.flow.clientPort := by
    obtain ⟨hproto, hpod, htarget, hclient, hport⟩ := InnerPacket.mk.inj htold
    unfold ReplyPacket.key ClientFlow.revKey
    rw [hproto, hpod, htarget, hclient, hport]
    rfl
  rw [← hkey] at hrev
  have hnatural := fun p rev (_ : egressAdmit (net.node d.node) r = some p)
    (hrev : (net.node d.node).flowTableGetReverse p.key = some rev) => (hinv.backend d.node).natural hrev
  obtain ⟨m, hm⟩ := sends_reply (c.addr d.node) hp hrev (hnatural p rev hp hrev) hflags (hinv.config d.node)
  -- what is in the tunnel is a frame of the reply, with the flow's front as its echo
  obtain ⟨p', rev', tcpFlags', hp', hrev', hflags', hsrc, hdst, hvni, hopt, hframe, hlength⟩ :=
    sends_of_uplinkEgress hnatural hm
  obtain rfl : p' = p := Option.some_inj.mp (hp'.symm.trans hp)
  obtain rfl : rev' = rev := Option.some_inj.mp (hrev'.symm.trans hrev)
  obtain rfl : tcpFlags' = tcpFlags := Option.some_inj.mp (hflags'.symm.trans hflags)
  refine ⟨m, hm, hdst.trans hnode, ?_⟩
  intro es' hrun' skb ⟨hdata, info, hinfo, hremote, htunnel, hoptions⟩
  have hallowed : reply.Allowed c flows net := by
    rintro ⟨p₂, tcpFlags₂, hp₂, hflags₂, hrst₂⟩
    obtain rfl : p₂ = p' := Option.some_inj.mp (hp₂.symm.trans hp)
    obtain rfl : tcpFlags₂ = tcpFlags' := Option.some_inj.mp (hflags₂.symm.trans hflags)
    exact hrst hrst₂
  have hinv' := (hinv.step hdistinct hallowed).run hdistinct hrun'
  -- the flow's first packet is still the first, so the pin is its
  obtain ⟨a, ha⟩ := Option.ne_none_iff_exists'.mp hdel.admitted
  obtain ⟨v, hpin, hifindex, huplink⟩ :=
    hinv'.pins.pinned _ a (firstAdmission_run (firstAdmission_step ha) es')
  obtain ⟨hinner, htcp⟩ := hframe skb hdata
  have hfront : rev'.frontIp = d.flow.frontIp ∧ rev'.frontPort = d.flow.frontPort :=
    Prod.mk.inj (Prod.mk.inj hid).1
  rw [hfront.1, hfront.2] at hopt
  have hgate := decapReturnGate_of_echo (hremote ▸ hsrc ▸ hinv'.peers d.node) hinfo (hoptions.trans hopt)
  let q : ReturnPacket := ⟨p'.family, p'.packet, d.flow.frontIp, d.flow.frontPort⟩
  have hq : decapReturnAdmit _ skb = some q :=
    decapReturnAdmit_eq_some.mpr ⟨info, hinfo, htunnel.trans hvni, hgate, hinner⟩
  have hflowKey : q.flowKey = d.flow.flowKey := by
    show encodeTcpFlowKey p'.packet.dstIp p'.packet.dstPort _ _ p'.packet.proto = _
    rw [htold]
    rfl
  -- the frame is whole, so the rewrite goes through
  have hlong : ethHlen + p'.family.ipHlen + Edit.l4Hlen p'.proto ≤ skb.data.length := by
    rw [hdata]
    omega
  obtain ⟨out, neigh, hout, hsaid⟩ := deliverReturn_all (p := q) hinner htcp hrst (hflowKey ▸ hpin)
    (hifindex ▸ huplink) hmapped hlong
  refine ⟨a, out, neigh, p'.family, ha, ?_, ?_⟩
  · rw [geneveIngress_return hq, hout, hifindex]
    rfl
  · rw [hsaid]
    show some (p'.family, ({ p'.packet with srcIp := _, srcPort := _ } : InnerPacket)) = _
    rw [htold]
    rfl

end Beep

/-! ## One client, one pod -/

namespace Beep

open Run

section
variable [Host]

/-- The nodes `10.0.0.1`, which the clients' packets arrive at, and `10.0.0.2`. -/
def pairCluster : Cluster Bool where
  addr i := if i then mappedAddr 10 0 0 1 else mappedAddr 10 0 0 2
  ingress := true

/-- Both nodes are peers of each other. -/
def pairAllow : Table (Bytes 16) UInt8 :=
  ((∅ : Table (Bytes 16) UInt8).insert (mappedAddr 10 0 0 1) 1).insert (mappedAddr 10 0 0 2) 1

/-- The front is configured on the first node, its pod runs on the second. -/
def pairNode (i : Bool) : Node :=
  if i then { oneIngress with nodeAllow := pairAllow }
  else { oneIngress with
    nodeAllow := pairAllow
    podTargets := (∅ : Table (Bytes 16) UInt8).insert oneEndpoint.backend.podIp 1 }

def pairNet : Network Bool where
  node := pairNode
  sent := []
  admitted := []
  delivered := []

/-- The flow of the client `198.51.100.7:40000`. -/
def pairFlow : ClientFlow where
  clientIp := clientFlow.clientIp
  clientPort := clientFlow.clientPort
  podIp := oneEndpoint.backend.podIp
  targetPort := oneEndpoint.targetPort
  proto := ipprotoUdp
  frontIp := oneFront.frontIp
  frontPort := oneFront.frontPort

/-- The client's packet as it comes out of the tunnel. -/
def tunnelSkb : Skb where
  data := clientSkb.data
  linear := 42
  mark := 0
  ingressIfindex := 7
  ifindex := 7
  received := some
    ⟨setTunnelRemote (mappedAddr 10 0 0 1), vniFwd, (encodePodIdOption pairFlow.podIp pairFlow.targetPort).toList⟩
  stamped := none
  host := false

/-- The pod's answer. -/
def podSkb : Skb where
  data := udpFrame (quad 10 1 0 9) (quad 198 51 100 7) (pair 0x1f 0x90) (pair 0x9c 0x40)
  linear := 42
  mark := 0
  ingressIfindex := 0
  ifindex := 1
  received := none
  stamped := none
  host := false

end

section
local instance pairHost : Host := littleHost

/-- The first node sends the client's packet to the second one. -/
theorem pair_sends : ((pairNode true).sends (mappedAddr 10 0 0 1) (.uplinkIngress clientSkb fun _ => true)).map
    (fun m => (m.src, m.dst, m.vni, m.options, m.data)) =
      some (mappedAddr 10 0 0 1, mappedAddr 10 0 0 2, vniFwd,
        (encodePodIdOption pairFlow.podIp pairFlow.targetPort).toList, clientSkb.data) := by
  decide

/-- The first node answers it for that flow. -/
theorem pair_admits : ((pairNode true).admits (.uplinkIngress clientSkb fun _ => true)).map
    (fun a => (a.clientFlow, a.flow.tcpFlags)) = some (pairFlow, 0) := by
  decide

/-- The second node hands the pod what the client said. -/
theorem pair_delivers : ((pairNode false).delivers false (.geneveIngress tunnelSkb fun _ => true)).map
    (fun d => (d.node, innerPacket d.skb)) = some (false, some (.v4, pairFlow.toPod)) := by
  decide

/-- Both tables are empty, and each node is the other's peer. -/
theorem pair_initial : pairNet.Initial pairCluster where
  flowTable i _ := by cases i <;> rfl
  fwdPending i _ := by cases i <;> rfl
  config i := by cases i <;> exact nofun
  peers := by decide
  sent := rfl
  admitted := rfl
  delivered := rfl

/-- The client's packet, and the same packet out of the tunnel. -/
def pairRun : List (NetEvent Bool) :=
  [⟨true, .uplinkIngress clientSkb fun _ => true⟩, ⟨false, .geneveIngress tunnelSkb fun _ => true⟩]

/-- Both events are what a run may do: a client's packet, and a packet out of the tunnel. -/
theorem pair_allowed :
    Along (Network.step pairCluster) (NetEvent.Allowed pairCluster (· = pairFlow)) pairNet pairRun := by
  obtain ⟨m, hm, hmEq⟩ := Option.map_eq_some_iff.mp pair_sends
  obtain ⟨a, ha, haEq⟩ := Option.map_eq_some_iff.mp pair_admits
  simp only [Prod.mk.injEq] at hmEq haEq
  obtain ⟨hsrc, hdst, hvni, hoptions, hdata⟩ := hmEq
  refine ⟨⟨rfl, ?_, ?_⟩, ⟨m, ?_, hdst, hdata.symm, ⟨_, _, _⟩, rfl, ?_, hvni.symm, hoptions.symm⟩, trivial⟩
  · -- UDP, so no reset
    rintro ⟨f, l2Hlen, hadm, hrst⟩
    have hproto : (ingressAdmit (pairNode true) clientSkb).map (fun f => f.1.front.proto) =
        some ipprotoUdp := by decide
    rw [show ingressAdmit (pairNode true) clientSkb = some (f, l2Hlen) from hadm] at hproto
    rw [Option.map_some, Option.some_inj] at hproto
    exact absurd (hproto.symm.trans hrst.1) (by decide)
  · intro a' ha'
    obtain rfl : a' = a := Option.some_inj.mp (ha'.symm.trans ha)
    exact haEq.1
  · exact List.mem_append_right _ (Option.mem_toList.mpr hm)
  · rw [hsrc]
    exact tunnelRemote_setTunnelRemote (mappedAddr 10 0 0 1)

end

/-- One packet of the client has reached the pod, and the pod answers it. -/
theorem reply_reaches_client_one_packet :
    letI := littleHost
    let net := pairRun.foldl (Network.step pairCluster) pairNet
    pairNet.Initial pairCluster ∧ TuplesDistinct (· = pairFlow) ∧
      Along (Network.step pairCluster) (NetEvent.Allowed pairCluster (· = pairFlow)) pairNet pairRun ∧
      ∃ d ∈ net.delivered, IsReply (net.node d.node) d.skb podSkb ∧
        ∃ m, (net.node d.node).sends (pairCluster.addr d.node) (.uplinkEgress podSkb fun _ => true) = some m ∧
          m.dst = mappedAddr 10 0 0 1 := by
  let := littleHost
  have hdistinct : TuplesDistinct (· = pairFlow) := by
    rintro f g rfl rfl _ _ _ _ _
    exact ⟨rfl, rfl⟩
  obtain ⟨d, hd, hdEq⟩ := Option.map_eq_some_iff.mp pair_delivers
  obtain ⟨hnode, hsaid⟩ := Prod.mk.inj hdEq
  have hmem : d ∈ (pairRun.foldl (Network.step pairCluster) pairNet).delivered :=
    List.mem_append_right _ (Option.mem_toList.mpr hd)
  have hplace : (pairRun.foldl (Network.step pairCluster) pairNet).node false =
      (pairNode false).step (.geneveIngress tunnelSkb fun _ => true) := by
    have hother : (pairNet.step pairCluster ⟨true, .uplinkIngress clientSkb fun _ => true⟩).node false =
        pairNode false := node_step_other (by decide)
    rw [← hother]
    exact node_step_self
  have hreply : IsReply ((pairRun.foldl (Network.step pairCluster) pairNet).node d.node) d.skb podSkb := by
    have hsame := step_settings (n := pairNode false) (e := .geneveIngress tunnelSkb fun _ => true) id
    rw [hnode, hplace]
    refine ⟨by decide, ⟨14⟩, .v4, pairFlow.toPod, ⟨⟨mappedAddr 198 51 100 7, pairFlow.clientPort, ipprotoUdp, 0⟩,
      pairFlow.podIp, pairFlow.targetPort, Family.v4.ethertype, 0⟩, ?_, Or.inr rfl, hsaid, ?_, ?_, ?_, ?_, ?_⟩
    · rw [hsame.uplinkConfig]
      decide
    · decide
    · decide
    · decide
    · exact fun h => absurd h.1 (by decide)
    · decide
  obtain ⟨reply, hsent, hback, _⟩ := reply_reaches_client pair_initial hdistinct pair_allowed hmem hreply
  exact ⟨pair_initial, hdistinct, pair_allowed, d, hmem, hreply, reply, hsent, hback⟩

end Beep
