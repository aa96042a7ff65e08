import Beep.Ebpf.Frames

/-!
# `Ebpf.Correctness.Affinity` — a flow keeps its backend

The ingress node pins a flow to the endpoint its first packet was hashed to. The pin starts in `FWD_PENDING`
and moves to `FLOW_TABLE` when the pod's first answer comes back; `Node.pin` reads it wherever it is. A pin
wins over whatever the front maps say, so as long as it is there every packet of the flow gets the same
answer.
-/

namespace Beep

open Run

variable [Host]

/-! ## Pins -/

/-- The `Forward` key over a `FWD_PENDING` key. -/
def forwardKey (key : TcpFlowKey) : FlowKey := key ++ (#v[FlowDirection.forward.toByte] : Bytes 1)

omit [Host] in
theorem forwardKey_inj {key key' : TcpFlowKey} : forwardKey key = forwardKey key' ↔ key = key' :=
  ⟨fun h => (Vector.append_inj h).1, fun h => h ▸ rfl⟩

theorem IngressFlow.fwdKey_eq (f : IngressFlow) : f.fwdKey = forwardKey f.flowKey := rfl

theorem ReturnPacket.fwdKey_eq (p : ReturnPacket) : p.fwdKey = forwardKey p.flowKey := rfl

omit [Host] in
@[simp] theorem direction_forwardKey (key : TcpFlowKey) :
    flowKeyDirection (forwardKey key) = some .forward := by
  have htag : (forwardKey key)[37] = FlowDirection.forward.toByte := by
    simp only [forwardKey]
    rw [Vector.getElem_append_right (by omega) (by omega)]
    rfl
  simp only [flowKeyDirection, htag, if_true]

/-- The pin of a flow: its forward row, or else its pending entry. -/
def Node.pin (n : Node) (key : TcpFlowKey) : Option ForwardFlowValue :=
  (n.flowTableGetForward (forwardKey key)).or (n.fwdPending.lookup key)

/-- A forward value without its flags: what pins a flow. -/
def ForwardFlowValue.core (v : ForwardFlowValue) : ForwardFlowValue := { v with flags := 0 }

omit [Host] in
/-- Values of one core name one backend, target port and uplink. -/
theorem fields_of_core {v v' : ForwardFlowValue} (h : v'.core = v.core) :
    v'.backend = v.backend ∧ v'.targetPort = v.targetPort ∧ v'.ingressIfindex = v.ingressIfindex := by
  obtain ⟨backend, ifindex, targetPort, flags⟩ := v
  obtain ⟨backend', ifindex', targetPort', flags'⟩ := v'
  simp only [ForwardFlowValue.core, ForwardFlowValue.mk.injEq] at h
  exact ⟨h.1, h.2.2.1, h.2.1⟩

/-- A return packet of the flow is a reset, and finds the flow pending. -/
def ResetsPending (key : TcpFlowKey) (n : Node) : NodeEvent → Prop
  | .geneveIngress skb _ => ∃ p tcpFlags, decapReturnAdmit n skb = some p ∧ p.flowKey = key ∧
      tcpFlagsDirect skb p.inner.proto (ethHlen + p.family.ipHlen) = some tcpFlags ∧
      IsRst p.inner.proto tcpFlags ∧ n.flowTableGetForward (forwardKey key) = none
  | _ => False

/-- The flow's entry is not evicted, swept or ended by a reset before it is established. -/
structure PinKept (key : TcpFlowKey) (n : Node) (e : NodeEvent) : Prop where
  flow : e ≠ .dropFlow (forwardKey key)
  pending : e ≠ .dropPending key
  reset : ¬ ResetsPending key n e

/-! ## What a step does to a pin -/

theorem pin_of_frame {n n' : Node} (h : IngressFrame n n') (key : TcpFlowKey) : n'.pin key = n.pin key := by
  simp only [Node.pin, Node.flowTableGetForward, h.forward _ (direction_forwardKey key), h.pending]

/-- A touch of a forward row changes no pin but for the flags. -/
theorem pin_touchForwardRow {n : Node} {key : TcpFlowKey} {v : ForwardFlowValue} (key' : TcpFlowKey)
    (h : Helpers) (proto tcpFlags : UInt8) (side : FlowSide) (hrow : n.flowTableGetForward (forwardKey key) = some v) :
    ((n.touchForwardRow h (forwardKey key) v proto tcpFlags side).pin key').map ForwardFlowValue.core =
      (n.pin key').map ForwardFlowValue.core := by
  rcases touchForwardRow_cases n h (forwardKey key) v proto tcpFlags side with heq | ⟨flags, heq⟩
  · rw [heq]
  · rw [heq]
    unfold Node.pin
    rw [flowTableGetForward_insert]
    by_cases hkey : key' = key
    · rw [hkey, if_pos rfl, hrow, FlowValue.forward_fromForward]
      rfl
    · rw [if_neg (fun h => hkey (forwardKey_inj.mp h))]
      rfl

omit [Host] in
theorem lookup_removePending {n : Node} {h : Helpers} {key key' : TcpFlowKey} (hne : key' ≠ key) :
    (n.removePending h key).fwdPending.lookup key' = n.fwdPending.lookup key' := by
  unfold Node.removePending
  split
  · exact (Table.lookup_erase_ite ..).trans (if_neg hne)
  · rfl

/-- Steering a packet leaves every pin that is there. -/
theorem pin_steer {n : Node} {key : TcpFlowKey} {v : ForwardFlowValue} (hpin : n.pin key = some v)
    (h : Helpers) (f : IngressFlow) (ifindex : UInt32) :
    ∃ v', (n.steer h f ifindex).1.pin key = some v' ∧ v'.core = v.core := by
  generalize hres : n.steer h f ifindex = res
  have hs := steer_steered n h f ifindex
  rw [hres] at hs
  cases hs with
  | notFront _ | pending _ _ _ _ | unpinned _ _ => exact ⟨v, hpin, rfl⟩
  | missed _ _ => exact ⟨v, hpin, rfl⟩
  | established _ _ hrow =>
    have htouch := pin_touchForwardRow key h f.front.proto f.tcpFlags .client hrow
    rw [hpin] at htouch
    exact Option.map_eq_some_iff.mp htouch
  | minted _ _ hrow hnone =>
    -- the flow that is minted has no pin, so it is another one
    refine ⟨v, ?_, rfl⟩
    have hne : key ≠ f.flowKey := by
      rintro rfl
      rw [Node.pin, ← IngressFlow.fwdKey_eq, hrow, hnone] at hpin
      cases hpin
    rw [← hpin]
    show (n.flowTableGetForward (forwardKey key)).or _ = _
    rw [Table.lookup_insert_ite, if_neg hne]
    rfl

/-- Authorizing a return packet leaves every pin that is there, unless it is a reset of a pending flow. -/
theorem pin_authorizeReturn {n : Node} {key : TcpFlowKey} {v : ForwardFlowValue} (hpin : n.pin key = some v)
    (h : Helpers) (p : ReturnPacket) (tcpFlags : UInt8)
    (hreset : ¬ (p.flowKey = key ∧ IsRst p.inner.proto tcpFlags ∧
      n.flowTableGetForward (forwardKey key) = none)) :
    ∃ v', (n.authorizeReturn h p tcpFlags).1.pin key = some v' ∧ v'.core = v.core := by
  generalize hres : n.authorizeReturn h p tcpFlags = res
  have ha := authorizeReturn_authorized n h p tcpFlags
  rw [hres] at ha
  cases ha with
  | unknown _ _ | refused _ _ _ => exact ⟨v, hpin, rfl⟩
  | established hrow =>
    have htouch := pin_touchForwardRow key h p.inner.proto tcpFlags .pod hrow
    rw [hpin] at htouch
    exact Option.map_eq_some_iff.mp htouch
  | reset hrow _ hrst =>
    refine ⟨v, ?_, rfl⟩
    have hne : key ≠ p.flowKey := by
      rintro rfl
      exact hreset ⟨rfl, hrst, hrow⟩
    rw [← hpin, Node.pin, Node.pin, lookup_removePending hne, Node.flowTableGetForward,
      flowTable_removePending]
    rfl
  | @promoted v₀ flags hrow hfound _ _ =>
    by_cases hkey : key = p.flowKey
    · -- the pin moves to the flow table
      subst hkey
      have hv : v = v₀ := by
        rw [Node.pin, ← ReturnPacket.fwdKey_eq, hrow, hfound] at hpin
        exact (Option.some_inj.mp hpin).symm
      refine ⟨{ v₀ with flags }, ?_, by rw [hv]; rfl⟩
      rw [Node.pin, Node.flowTableGetForward, flowTable_removePending]
      show Option.or (Node.flowTableGetForward (n.flowTableInsert p.fwdKey _) p.fwdKey) _ = _
      rw [flowTableGetForward_insert, if_pos rfl, FlowValue.forward_fromForward, Option.some_or]
    · refine ⟨v, ?_, rfl⟩
      have hne : forwardKey key ≠ p.fwdKey := fun h => hkey (forwardKey_inj.mp h)
      rw [← hpin, Node.pin, Node.pin, lookup_removePending hkey, Node.flowTableGetForward,
        flowTable_removePending]
      show Option.or (Node.flowTableGetForward (n.flowTableInsert p.fwdKey _) (forwardKey key)) _ = _
      rw [flowTableGetForward_insert, if_neg hne]
      rfl

/-- **The step lemma.** A pin that is kept goes on naming the same backend, port and uplink. -/
theorem step_pin {n : Node} {e : NodeEvent} {key : TcpFlowKey} {v : ForwardFlowValue}
    (hpin : n.pin key = some v) (hkept : PinKept key n e) :
    ∃ v', (n.step e).pin key = some v' ∧ v'.core = v.core := by
  rcases step_ingress n e with ⟨skb, h, f, l2Hlen, rfl, -, hstep⟩ | ⟨skb, h, p, tcpFlags, rfl, hp, hread, hstep⟩ |
    ⟨key', rfl⟩ | ⟨key', rfl⟩ | hframe
  · rw [hstep]
    exact pin_steer hpin h f skb.ingressIfindex
  · rw [hstep]
    refine pin_authorizeReturn hpin h p tcpFlags fun ⟨hkey, hrst, hrow⟩ => ?_
    exact hkept.reset ⟨p, tcpFlags, hp, hkey, hread, hrst, hrow⟩
  · refine ⟨v, ?_, rfl⟩
    have hne : forwardKey key ≠ key' := fun h => hkept.flow (by rw [h])
    rw [← hpin, Node.pin, Node.flowTableGetForward, lookup_step_dropFlow hne]
    rfl
  · refine ⟨v, ?_, rfl⟩
    have hne : key ≠ key' := fun h => hkept.pending (by rw [h])
    rw [← hpin]
    show (n.flowTableGetForward (forwardKey key)).or ((n.fwdPending.erase key').lookup key) = _
    rw [Table.lookup_erase_ite, if_neg hne]
    rfl
  · exact ⟨v, (pin_of_frame hframe key).trans hpin, rfl⟩

/-! ## Answers -/

/-- Packets of one flow: one client and one front. -/
def IngressFlow.SameFlow (f g : IngressFlow) : Prop :=
  f.front = g.front ∧ f.clientIp = g.clientIp ∧ f.clientPort = g.clientPort

theorem IngressFlow.SameFlow.flowKey {f g : IngressFlow} (h : f.SameFlow g) : f.flowKey = g.flowKey := by
  unfold IngressFlow.flowKey
  rw [h.1, h.2.1, h.2.2]

/-- A pinned packet of a configured front is answered by the pin. -/
theorem steer_of_pin {n : Node} {f : IngressFlow} {v : ForwardFlowValue} (h : Helpers) (ifindex : UInt32)
    (hfront : n.frontMeta.lookup f.front ≠ none) (hconfig : n.config ≠ none) (hpin : n.pin f.flowKey = some v) :
    (n.steer h f ifindex).2 = .ok (v.backend, v.targetPort) := by
  rw [Node.pin, ← IngressFlow.fwdKey_eq] at hpin
  generalize hres : n.steer h f ifindex = res
  have hs := steer_steered n h f ifindex
  rw [hres] at hs
  cases hs with
  | notFront hnone => exact absurd hnone (by simp [hfront, hconfig])
  | established _ _ hrow =>
    rw [hrow, Option.some_or] at hpin
    rw [Option.some_inj.mp hpin]
  | pending _ _ hrow hfound =>
    rw [hrow, hfound, Option.none_or] at hpin
    rw [Option.some_inj.mp hpin]
  | minted _ _ hrow hnone | unpinned hrow hnone | missed hrow hnone =>
    rw [hrow, hnone] at hpin
    cases hpin

/-- A packet that is answered leaves its flow pinned to the answer. -/
theorem pin_of_steer_ok {n : Node} {f : IngressFlow} {h : Helpers} {ifindex : UInt32}
    {answer : LbFrontBackend × UInt16} (hok : (n.steer h f ifindex).2 = .ok answer) :
    n.frontMeta.lookup f.front ≠ none ∧ n.config ≠ none ∧
      ∃ v, (n.steer h f ifindex).1.pin f.flowKey = some v ∧ (v.backend, v.targetPort) = answer := by
  generalize hres : n.steer h f ifindex = res at hok
  have hs := steer_steered n h f ifindex
  rw [hres] at hs
  cases hs with
  | notFront _ | unpinned _ _ | missed _ _ => cases hok
  | @established v hfront hconfig hrow =>
    have hpin : n.pin f.flowKey = some v := by rw [Node.pin, ← IngressFlow.fwdKey_eq, hrow, Option.some_or]
    have htouch := pin_touchForwardRow f.flowKey h f.front.proto f.tcpFlags .client hrow
    rw [hpin] at htouch
    obtain ⟨v', hv', hcore⟩ := Option.map_eq_some_iff.mp htouch
    obtain ⟨hbackend, htarget, _⟩ := fields_of_core hcore
    refine ⟨hfront, hconfig, v', hv', ?_⟩
    rw [hbackend, htarget]
    exact Except.ok.inj hok
  | pending hfront hconfig hrow hfound =>
    refine ⟨hfront, hconfig, _, ?_, Except.ok.inj hok⟩
    rw [Node.pin, ← IngressFlow.fwdKey_eq, hrow, hfound, Option.none_or]
  | minted hfront hconfig hrow _ =>
    refine ⟨hfront, hconfig, ⟨_, ifindex, _, 0⟩, ?_, Except.ok.inj hok⟩
    show (n.flowTableGetForward (forwardKey f.flowKey)).or _ = _
    rw [← IngressFlow.fwdKey_eq, hrow, Option.none_or, Table.lookup_insert_ite, if_pos rfl]

/-- The step keeps the flow's entry and a `FRONT_META` row for its front. -/
structure FlowKept (f : IngressFlow) (n : Node) (e : NodeEvent) : Prop where
  pin : PinKept f.flowKey n e
  front : ∀ metas endpoints, e = .setFronts metas endpoints → metas.lookup f.front ≠ none

/-- A packet of the flow is answered so. -/
def AnsweredWith (f : IngressFlow) (answer : LbFrontBackend × UInt16) (n : Node) : NodeEvent → Prop
  | .uplinkIngress skb h => ∀ g l2Hlen, ingressAdmit n skb = some (g, l2Hlen) → g.SameFlow f →
      (n.steer h g skb.ingressIfindex).2 = .ok answer
  | _ => True

/-- The flow is pinned to the answer, and its front is there to be looked up. -/
structure Pinned (f : IngressFlow) (answer : LbFrontBackend × UInt16) (n : Node) : Prop where
  front : n.frontMeta.lookup f.front ≠ none
  config : n.config ≠ none
  pin : ∃ v, n.pin f.flowKey = some v ∧ (v.backend, v.targetPort) = answer

theorem Pinned.step {f : IngressFlow} {answer : LbFrontBackend × UInt16} {n : Node} {e : NodeEvent}
    (hp : Pinned f answer n) (hkept : FlowKept f n e) : Pinned f answer (n.step e) := by
  obtain ⟨v, hpin, hanswer⟩ := hp.pin
  obtain ⟨v', hpin', hcore⟩ := step_pin hpin hkept.pin
  obtain ⟨hbackend, htarget, _⟩ := fields_of_core hcore
  have hpin'' : ∃ v, (n.step e).pin f.flowKey = some v ∧ (v.backend, v.targetPort) = answer :=
    ⟨v', hpin', by rw [hbackend, htarget, hanswer]⟩
  by_cases he : e.IsControl
  · cases e with
    | setFronts metas endpoints => exact ⟨hkept.front metas endpoints rfl, hp.config, hpin''⟩
    | setConfig config => exact ⟨hp.front, by simp [Node.step], hpin''⟩
    | setPodTargets _ | setNodeAllow _ | setUplinks _ => exact ⟨hp.front, hp.config, hpin''⟩
    | _ => exact he.elim
  · have hsame := step_settings (n := n) he
    exact ⟨hsame.frontMeta ▸ hp.front, hsame.config ▸ hp.config, hpin''⟩

theorem Pinned.answered {f : IngressFlow} {answer : LbFrontBackend × UInt16} {n : Node} (hp : Pinned f answer n)
    (e : NodeEvent) : AnsweredWith f answer n e := by
  cases e with
  | uplinkIngress skb h =>
    intro g l2Hlen _ hsame
    obtain ⟨v, hpin, rfl⟩ := hp.pin
    refine steer_of_pin h skb.ingressIfindex ?_ hp.config (hsame.flowKey ▸ hpin)
    rw [hsame.1]
    exact hp.front
  | _ => trivial

/-! ## Runs -/

/-- **Connection affinity.** Once a packet of a flow was answered with a backend and a port, every later packet
    of the flow is answered with them: whatever other flows do and however the front maps are rewritten, as
    long as a `FRONT_META` row for the front stays and the flow's entry is not evicted, swept or ended by a
    reset while it is pending. -/
theorem answer_stable {f : IngressFlow} {answer : LbFrontBackend × UInt16} {n : Node} {skb : Skb} {h : Helpers}
    {l2Hlen : Nat} {es : List NodeEvent} (hfirst : ingressAdmit n skb = some (f, l2Hlen))
    (hok : (n.steer h f skb.ingressIfindex).2 = .ok answer)
    (hkept : Along Node.step (FlowKept f) (n.step (.uplinkIngress skb h)) es) :
    Along Node.step (AnsweredWith f answer) (n.step (.uplinkIngress skb h)) es := by
  have hpinned : Pinned f answer (n.step (.uplinkIngress skb h)) := by
    obtain ⟨hfront, hconfig, hpin⟩ := pin_of_steer_ok hok
    have hstep : n.step (.uplinkIngress skb h) = (n.steer h f skb.ingressIfindex).1 := by
      simp only [Node.step, uplinkIngress_fst, hfirst]
    have hsame := SameSettings.steer n h f skb.ingressIfindex
    rw [hstep]
    exact ⟨hsame.frontMeta ▸ hfront, hsame.config ▸ hconfig, hpin⟩
  exact hkept.strengthen (fun n e hp hk => hp.step hk) (fun n e hp _ => hp.answered e) hpinned

end Beep

/-! ## One front -/

namespace Beep

open Run

section
variable [Host]

/-- The front `192.0.2.1:80` over UDP. -/
def oneFront : LbFrontKey where
  frontIp := mappedAddr 192 0 2 1
  frontPort := Host.endian.u16OfBytes (pair 0 80)
  proto := ipprotoUdp
  pad := 0

/-- Port `8080` of the pod `10.1.0.9` on the node `10.0.0.2`. -/
def oneEndpoint : FrontEndpoint where
  backend := { backendNodeIp := mappedAddr 10 0 0 2, podIp := mappedAddr 10 1 0 9 }
  targetPort := Host.endian.u16OfBytes (pair 0x1f 0x90)
  flags := 0
  pad := Vector.replicate 4 0

/-- The meta row of the front, in its first generation. -/
def oneMeta (count : UInt16) : Table LbFrontKey FrontMeta :=
  (∅ : Table LbFrontKey FrontMeta).insert oneFront
    { generation := 1, count, flags := 0, localCount := 0, pad := 0 }

/-- An ingress node with that front and one Ethernet uplink. -/
def oneIngress : Node where
  frontMeta := oneMeta 1
  frontEndpoints := (∅ : Table FrontEndpointKey FrontEndpoint).insert
    { front := oneFront, generation := 1, slot := 0, pad := 0 } oneEndpoint
  frontMisses := 0
  podTargets := ∅
  nodeAllow := ∅
  fwdPending := ∅
  flowTable := ∅
  config := some { geneveIfindex := 7, udpParity := 0, tcpParity := 0, flowHashSeed := 1 }
  uplinkConfig := (∅ : Table UInt32 UplinkConfig).insert 1 { l2Hlen := 14 }

/-- A packet of the client `198.51.100.7:40000` to the front. -/
def clientSkb : Skb where
  data := udpFrame (quad 198 51 100 7) (quad 192 0 2 1) (pair 0x9c 0x40) (pair 0 80)
  linear := 42
  mark := 0
  ingressIfindex := 1
  ifindex := 1
  received := none
  stamped := none
  host := true

/-- What the ingress node reads off it. -/
def clientFlow : IngressFlow where
  front := oneFront
  clientIp := mappedAddr 198 51 100 7
  clientPort := Host.endian.u16OfBytes (pair 0x9c 0x40)
  ethertype := Family.v4.ethertype
  tcpFlags := 0

end

/-- The front is drained between two packets of the flow. -/
theorem answer_stable_drained_front :
    letI := littleHost
    let es : List NodeEvent := [.setFronts (oneMeta 0) ∅, .uplinkIngress clientSkb fun _ => true]
    let n := oneIngress.step (.uplinkIngress clientSkb fun _ => true)
    ingressAdmit oneIngress clientSkb = some (clientFlow, 14) ∧
      (oneIngress.steer (fun _ => true) clientFlow 1).2 = .ok (oneEndpoint.backend, oneEndpoint.targetPort) ∧
      Along Node.step (FlowKept clientFlow) n es ∧
      Along Node.step (AnsweredWith clientFlow (oneEndpoint.backend, oneEndpoint.targetPort)) n es := by
  let := littleHost
  have hfirst : ingressAdmit oneIngress clientSkb = some (clientFlow, 14) := by decide
  have hok : (oneIngress.steer (fun _ => true) clientFlow 1).2 =
      .ok (oneEndpoint.backend, oneEndpoint.targetPort) := by decide
  have hkept : ∀ n, Along Node.step (FlowKept clientFlow) n
      [.setFronts (oneMeta 0) ∅, .uplinkIngress clientSkb fun _ => true] := by
    intro n
    refine ⟨⟨⟨fun h => (nomatch h), fun h => (nomatch h), id⟩, ?_⟩,
      ⟨⟨fun h => (nomatch h), fun h => (nomatch h), id⟩, fun _ _ h => (nomatch h)⟩, trivial⟩
    rintro metas endpoints h
    cases h
    show (oneMeta 0).lookup oneFront ≠ none
    rw [oneMeta, AList.lookup_insert]
    exact fun h => nomatch h
  exact ⟨hfirst, hok, hkept _, answer_stable hfirst hok (hkept _)⟩

end Beep
