import Beep.Ebpf.Correctness.ReverseRows
import Beep.Ebpf.Wire

/-!
# `Ebpf.Correctness.PortStability` — a flow keeps its backend-facing port

A flow's port is held in one of two ways (`PortHeld`): a memo under its tuple names it, or there is no memo
and the flow's own row sits under the client's own port. A memo is never rewritten. The second way is lost
when a packet through another front of the same tuple is moved away and leaves its memo under the tuple, when
a memoized packet steals the row, or when the flow began with a reset, which leaves no row to hold the port
by. Along a run with none of these (`Undisturbed`) every packet handed to the pod comes from one port.
-/

namespace Beep

open Run

variable [Host]

/-! ## What a run is asked -/

/-- The step hands a packet of the flow to its pod, from this port. -/
def DeliversFrom (n : Node) (f : ClientFlow) (port : UInt16) : NodeEvent → Prop
  | .geneveIngress skb h => ∃ p q, decapForwardAdmit n skb = some p ∧ p.flow = f ∧
      (geneveIngress n h skb).2.2 = .ok ∧ innerPacket (geneveIngress n h skb).2.1 = some (p.family, q) ∧
      q.srcPort = port
  | _ => False

/-- The flow's own rows live on: its memo is not dropped, and no reverse row of its identity is dropped or
    closed. -/
def OwnRowsKept (f : ClientFlow) (n : Node) (e : NodeEvent) : Prop :=
  e ≠ .dropFlow f.memoKey ∧ ∀ port row, n.flowTableGetReverse (f.revKey port) = some row →
    row.identity = f.identity → row.isClosed = false ∧ e ≠ .dropFlow (f.revKey port)

/-- The flow has no memo, and its row under the client's own port. -/
def HoldsNatural (f : ClientFlow) (n : Node) : Prop :=
  n.flowTableGetPortMemo f.memoKey = none ∧
    ∃ row, n.flowTableGetReverse (f.revKey f.clientPort) = some row ∧ row.identity = f.identity

/-- The step is a packet of the flow's tuple through another front. -/
def SharesTuple (f : ClientFlow) (n : Node) : NodeEvent → Prop
  | .geneveIngress skb _ => ∃ p, decapForwardAdmit n skb = some p ∧ p.flow.memoKey = f.memoKey ∧ p.flow ≠ f
  | _ => False

/-- The step is a reset of the flow that finds no row of the flow. -/
def ResetsWithoutRow (f : ClientFlow) (n : Node) : NodeEvent → Prop
  | .geneveIngress skb _ => ∃ p tcpFlags, decapForwardAdmit n skb = some p ∧ p.flow = f ∧
      tcpFlagsDirect skb p.flow.proto (ethHlen + p.family.ipHlen) = some tcpFlags ∧
      IsRst p.flow.proto tcpFlags ∧ n.flowTableGetPortMemo f.memoKey = none ∧
      ∀ row, n.flowTableGetReverse (f.revKey f.clientPort) = some row → row.identity ≠ f.identity
  | _ => False

/-- Nothing takes the client's own port from the flow while it is held by the row alone, and the flow is not
    given it without a row. -/
structure Undisturbed (f : ClientFlow) (n : Node) (e : NodeEvent) : Prop where
  tuple : HoldsNatural f n → ¬ SharesTuple f n e
  row : HoldsNatural f n → ¬ StealsRow n (f.revKey f.clientPort) e
  reset : ¬ ResetsWithoutRow f n e

/-! ## The invariant -/

/-- The port is the flow's: a memo names it, or it is the client's own and held by the row alone. -/
def PortHeld (f : ClientFlow) (port : UInt16) (n : Node) : Prop :=
  n.flowTableGetPortMemo f.memoKey = some { backendSrcPort := port } ∨
    (port = f.clientPort ∧ HoldsNatural f n)

/-- The flow's own row does not keep it from its port. -/
theorem HoldsNatural.portFree {f : ClientFlow} {n : Node} (h : HoldsNatural f n) :
    n.PortFree f f.clientPort := by
  obtain ⟨_, row, hrow, hown⟩ := h
  intro row' hrow' _
  rw [← Option.some_inj.mp (hrow.symm.trans hrow')]
  exact hown

/-- A delivered packet was given its port by the commit. -/
theorem DeliversFrom.commit {n : Node} {f : ClientFlow} {port : UInt16} {e : NodeEvent}
    (hd : DeliversFrom n f port e) :
    ∃ skb h p n', e = .geneveIngress skb h ∧ decapForwardAdmit n skb = some p ∧ p.flow = f ∧
      n.step e = n' ∧ decapForwardCommit n h skb p = (n', .ok port) := by
  cases e with
  | geneveIngress skb h =>
    obtain ⟨p, q, hp, hf, hok, hread, rfl⟩ := hd
    rw [geneveIngress_forward hp] at hok hread
    rcases hdel : deliverForward n h skb p with ⟨n', skb', verdict⟩
    rw [hdel] at hok hread
    have hverdict : verdict = some .ok := by
      cases verdict with
      | none => cases hok
      | some v => exact congrArg some hok
    subst hverdict
    obtain ⟨port, hcommit, hpod⟩ := deliverForward_ok (decapForwardAdmit_innerPacket hp) hdel
    rw [hpod] at hread
    obtain ⟨-, rfl⟩ := Prod.mk.inj (Option.some_inj.mp hread)
    refine ⟨skb, h, p, n', rfl, hp, hf, ?_, hcommit⟩
    simp only [Node.step, geneveIngress_forward hp, hdel]
  | _ => exact hd.elim

/-- A packet of a flow that holds its port is delivered from it. -/
theorem PortHeld.delivers {f : ClientFlow} {port port' : UInt16} {n : Node} {e : NodeEvent}
    (hheld : PortHeld f port n) (hd : DeliversFrom n f port' e) : port' = port := by
  obtain ⟨skb, h, p, n', -, -, rfl, -, hcommit⟩ := hd.commit
  obtain ⟨n₁, _, hchosen, _⟩ := decapForwardCommit_ok hcommit
  rcases hheld with hmemo | ⟨rfl, hnatural⟩
  · cases hchosen with
    | memoized hmemo' => exact congrArg PortMemoValue.backendSrcPort (Option.some_inj.mp (hmemo'.symm.trans hmemo))
    | natural hnone _ | remapped hnone _ _ _ =>
      rw [hmemo] at hnone
      cases hnone
  · cases hchosen with
    | memoized hmemo' =>
      rw [hnatural.1] at hmemo'
      cases hmemo'
    | natural _ _ => rfl
    | remapped _ htaken _ _ => exact absurd hnatural.portFree htaken

/-- The first delivered packet takes hold of its port. -/
theorem PortHeld.of_delivers {f : ClientFlow} {port : UInt16} {n : Node} {e : NodeEvent}
    (hd : DeliversFrom n f port e) (hreset : ¬ ResetsWithoutRow f n e) : PortHeld f port (n.step e) := by
  obtain ⟨skb, h, p, n', rfl, hp, rfl, hstep, hcommit⟩ := hd.commit
  obtain ⟨n₁, tcpFlags, hchosen, hread, hrow⟩ := decapForwardCommit_ok hcommit
  rw [hstep]
  -- the row, if one is written, does not hide the memo
  have hmemo : n'.flowTableGetPortMemo p.flow.memoKey = n₁.flowTableGetPortMemo p.flow.memoKey := by
    rcases hrow with ⟨rfl, _⟩ | ⟨flags, _, rfl | rfl⟩
    · rfl
    · rfl
    · rw [flowTableGetPortMemo_insert,
        if_neg (ne_of_direction (direction_memoKey _) (direction_revKey ..) (by decide))]
  unfold PortHeld HoldsNatural
  rw [hmemo]
  cases hchosen with
  | memoized hm => exact Or.inl hm
  | remapped _ _ _ _ =>
    refine Or.inl ?_
    rw [flowTableGetPortMemo_insert, if_pos rfl, FlowValue.portMemo_fromPortMemo]
  | natural hnone _ =>
    refine Or.inr ⟨rfl, hnone, ?_⟩
    rcases hrow with ⟨_, hrst, hother⟩ | ⟨flags, hget, _⟩
    · exact absurd ⟨p, tcpFlags, hp, rfl, hread, hrst, hnone, hother⟩ hreset
    · exact ⟨_, hget, rfl⟩

/-- **The step lemma.** A held port stays held. -/
theorem PortHeld.step {f : ClientFlow} {port : UInt16} {n : Node} {e : NodeEvent} (hheld : PortHeld f port n)
    (hown : OwnRowsKept f n e) (hund : Undisturbed f n e) : PortHeld f port (n.step e) := by
  rcases hheld with hmemo | ⟨rfl, hnatural⟩
  · -- a memo is never rewritten
    rcases step_portMemo (f := f) hown.1 with hsame | ⟨skb, h, p, -, -, -, hnone, -⟩
    · exact Or.inl (hsame.trans hmemo)
    · rw [hmemo] at hnone
      cases hnone
  · obtain ⟨hnone, row, hrow, hid⟩ := id hnatural
    obtain ⟨hlive, hdrop⟩ := hown.2 _ row hrow hid
    refine Or.inr ⟨rfl, ?_, ?_⟩
    · rcases step_portMemo (f := f) hown.1 with hsame | ⟨skb, h, p, rfl, hp, htuple, -, htaken⟩
      · exact hsame.trans hnone
      · by_cases hf : p.flow = f
        · rw [hf] at htaken
          exact absurd hnatural.portFree htaken
        · exact absurd ⟨p, hp, htuple, hf⟩ (hund.tuple hnatural)
    · rcases step_keeps_row_or_steals (direction_revKey ..) hrow hlive hdrop with ⟨row', hrow', hsame⟩ | hsteals
      · exact ⟨row', hrow', hsame.trans hid⟩
      · exact absurd hsteals (hund.row hnatural)

/-! ## Runs -/

/-- **A flow keeps its port.** From the first packet that is handed to the pod on, along a run that keeps the
    flow's own rows and does not disturb it, every packet of the flow that is handed to the pod comes from
    the same port, whatever other flows do and whichever of their rows are dropped. -/
theorem delivered_port_stable {f : ClientFlow} {port : UInt16} {n : Node} {e : NodeEvent} {es : List NodeEvent}
    (hfirst : DeliversFrom n f port e) (hown : Along Node.step (OwnRowsKept f) n (e :: es))
    (hund : Along Node.step (Undisturbed f) n (e :: es)) :
    Along Node.step (fun n e => ∀ port', DeliversFrom n f port' e → port' = port) (n.step e) es := by
  exact (hown.2.and hund.2).strengthen (fun n e hheld h => hheld.step h.1 h.2)
    (fun n e hheld _ port' => hheld.delivers) (PortHeld.of_delivers hfirst hund.1.reset)

/-- A committed packet that is rewritten is delivered from its port. -/
theorem deliversFrom_of_commit {n n' : Node} {h : Helpers} {skb : Skb} {p : ForwardPacket} {port : UInt16}
    (hp : decapForwardAdmit n skb = some p) (hcommit : decapForwardCommit n h skb p = (n', .ok port))
    (hedit : (decapForwardRewrite h p port skb).2 = true) (htype : h .changeType = true) :
    DeliversFrom n p.flow port (.geneveIngress skb h) := by
  rcases hres : decapForwardRewrite h p port skb with ⟨skb', ok⟩
  rw [hres] at hedit
  subst hedit
  have hpod := decapForwardRewrite_spec (decapForwardAdmit_innerPacket hp) hres
  have hdel : deliverForward n h skb p = (n', { skb' with host := true }, some .ok) := by
    simp only [deliverForward, hcommit, hres, htype, if_true]
  refine ⟨p, p.toPod port, hp, rfl, ?_, ?_, rfl⟩
  · rw [geneveIngress_forward hp, hdel]
    rfl
  · rw [geneveIngress_forward hp, hdel]
    exact hpod

end Beep

/-! ## Two fronts, one client port, one pod -/

namespace Beep

open Run

section
local instance : Host := littleHost

theorem delivers_first : DeliversFrom oneBackend (flowThrough 1) (flowThrough 1).clientPort (packetThrough 1) :=
  deliversFrom_of_commit decapForwardAdmit_first decapForwardCommit_first (by decide) rfl

theorem delivers_third : DeliversFrom afterSecond (flowThrough 1) movedPort (packetThrough 1) :=
  deliversFrom_of_commit (show decapForwardAdmit afterSecond (skbThrough 1) = some (forwardThrough 1) from
    decapForwardAdmit_first) decapForwardCommit_third (by decide) rfl

/-- No row of the run is closed. -/
theorem ownRowsKept_through {n : Node} (hn : n = oneBackend ∨ n = afterFirst ∨ n = afterSecond) (x : UInt8) :
    OwnRowsKept (flowThrough 1) n (packetThrough x) := by
  refine ⟨fun h => (nomatch h), fun port row hrow _ => ⟨?_, fun h => (nomatch h)⟩⟩
  have hlive : ∀ y, (forwardThrough y).revValue.isClosed = false := fun y => by
    show ((0 : UInt16) &&& flowFlagClosed != 0) = false
    decide
  rcases hn with rfl | rfl | rfl
  · cases hrow
  · rw [flowTableGetReverse_afterFirst] at hrow
    split at hrow
    · rw [← Option.some_inj.mp hrow]
      exact hlive 1
    · cases hrow
  · rw [afterSecond, flowTableGetReverse_insert, flowTableGetReverse_insert,
      if_neg (ne_of_direction (direction_revKey ..) (direction_memoKey _) (by decide)),
      flowTableGetReverse_afterFirst] at hrow
    split at hrow
    · rw [← Option.some_inj.mp hrow]
      exact hlive 2
    · split at hrow
      · rw [← Option.some_inj.mp hrow]
        exact hlive 1
      · cases hrow

/-- As long as there is no memo, a packet of the flow does not disturb it. -/
theorem undisturbed_through {n : Node} (hp : decapForwardAdmit n (skbThrough 1) = some (forwardThrough 1))
    (hmemo : n.flowTableGetPortMemo (flowThrough 1).memoKey = none) :
    Undisturbed (flowThrough 1) n (packetThrough 1) := by
  constructor
  · rintro - ⟨p, hp', -, hother⟩
    rw [hp] at hp'
    obtain rfl := Option.some_inj.mp hp'
    exact hother rfl
  · rintro - ⟨p, memo, row, tcpFlags, hp', hmemo', -⟩
    rw [hp] at hp'
    obtain rfl := Option.some_inj.mp hp'
    cases hmemo.symm.trans hmemo'
  · rintro ⟨p, tcpFlags, hp', -, -, hrst, -⟩
    rw [hp] at hp'
    obtain rfl := Option.some_inj.mp hp'
    exact absurd hrst.1 (by decide)

theorem flowTableGetPortMemo_afterFirst :
    afterFirst.flowTableGetPortMemo (flowThrough 1).memoKey = none := by
  rw [afterFirst, flowTableGetPortMemo_insert,
    if_neg (ne_of_direction (direction_memoKey _) (direction_revKey ..) (by decide))]
  rfl

end

theorem delivered_port_stable_two_packets :
    letI := littleHost
    DeliversFrom oneBackend (flowThrough 1) (flowThrough 1).clientPort (packetThrough 1) ∧
      Along Node.step (OwnRowsKept (flowThrough 1)) oneBackend [packetThrough 1, packetThrough 1] ∧
      Along Node.step (Undisturbed (flowThrough 1)) oneBackend [packetThrough 1, packetThrough 1] ∧
      Along Node.step (fun n e => ∀ port', DeliversFrom n (flowThrough 1) port' e →
        port' = (flowThrough 1).clientPort) (oneBackend.step (packetThrough 1)) [packetThrough 1] := by
  let := littleHost
  have hown : Along Node.step (OwnRowsKept (flowThrough 1)) oneBackend [packetThrough 1, packetThrough 1] :=
    ⟨ownRowsKept_through (Or.inl rfl) 1, ownRowsKept_through (Or.inr (Or.inl step_first)) 1, trivial⟩
  have hund : Along Node.step (Undisturbed (flowThrough 1)) oneBackend [packetThrough 1, packetThrough 1] := by
    refine ⟨undisturbed_through decapForwardAdmit_first rfl, ?_, trivial⟩
    rw [step_first]
    exact undisturbed_through decapForwardAdmit_first flowTableGetPortMemo_afterFirst
  exact ⟨delivers_first, hown, hund, delivered_port_stable delivers_first hown hund⟩

/-- The flow through `192.0.2.1` begins on the client's own port and continues on the one the flow through
    `192.0.2.2` was moved to. -/
theorem delivered_port_changes_with_shared_memo :
    ¬ ∀ (_ : Host) (f : ClientFlow) (port : UInt16) (n : Node) (e : NodeEvent) (es : List NodeEvent),
      n.flowTable = ∅ → (∀ e' ∈ e :: es, e'.IsBackendPacket ∨ ∃ key, e' = .dropFlow key) →
      DeliversFrom n f port e → Along Node.step (OwnRowsKept f) n (e :: es) →
      Along Node.step (fun n e => ∀ port', DeliversFrom n f port' e → port' = port) (n.step e) es := by
  intro hstable
  let := littleHost
  have hown : Along Node.step (OwnRowsKept (flowThrough 1)) oneBackend
      [packetThrough 1, packetThrough 2, packetThrough 1] := by
    refine ⟨ownRowsKept_through (Or.inl rfl) 1, ?_, ?_, trivial⟩
    · exact ownRowsKept_through (Or.inr (Or.inl step_first)) 2
    · rw [step_first, step_second]
      exact ownRowsKept_through (Or.inr (Or.inr rfl)) 1
  have hrun := hstable littleHost (flowThrough 1) (flowThrough 1).clientPort oneBackend (packetThrough 1)
    [packetThrough 2, packetThrough 1] rfl (by simp [packetThrough, NodeEvent.IsBackendPacket])
    delivers_first hown
  obtain ⟨_, hthird, _⟩ := hrun
  rw [step_first, step_second] at hthird
  have hsame := hthird movedPort delivers_third
  revert hsame
  decide

end Beep
