import Beep.Ebpf.Frames

/-!
# `Ebpf.Correctness.ReverseRows` — who holds a reverse row

A reverse row is held by an identity: a front and the client's own port. The probe never takes a port whose
row is live and someone else's (`PortChosen`), so along the probe path no live row changes hands. A memo is
taken without looking at the row under its port, and it is kept under a tuple that does not name the front:
two flows of one client port to one pod through two fronts share a memo. That path, and only that one,
overwrites a live row (`StealsRow`, `step_keeps_row_or_steals`).
-/

namespace Beep

open Run

variable [Host]

/-! ## The property of one step -/

/-- Every live reverse row has the same holder after the step. -/
def LiveRowsKept (n : Node) (e : NodeEvent) : Prop :=
  ∀ key row, flowKeyDirection key = some .reverse → n.flowTableGetReverse key = some row →
    row.isClosed = false →
    ∃ row', (n.step e).flowTableGetReverse key = some row' ∧ row'.identity = row.identity

/-- The step is a forward packet whose memo names a port under which the row is live and someone else's, and
    whose own row is written: it is no reset, its flags can be read and the insert is not refused. -/
def StealsRow (n : Node) (key : FlowKey) : NodeEvent → Prop
  | .geneveIngress skb h => ∃ p memo row tcpFlags, decapForwardAdmit n skb = some p ∧
      n.flowTableGetPortMemo p.flow.memoKey = some memo ∧ key = p.flow.revKey memo.backendSrcPort ∧
      n.flowTableGetReverse key = some row ∧ row.isClosed = false ∧ row.identity ≠ p.flow.identity ∧
      tcpFlagsDirect skb p.flow.proto (ethHlen + p.family.ipHlen) = some tcpFlags ∧
      ¬ IsRst p.flow.proto tcpFlags ∧ h .flowInsert = true
  | _ => False

/-! ## The step lemma -/

/-- A memo insert leaves the reverse rows alone. -/
theorem PortChosen.reverse {n n₁ : Node} {f : ClientFlow} {port : UInt16} (hchosen : PortChosen n f n₁ port)
    {key : FlowKey} (hkey : flowKeyDirection key = some .reverse) :
    n₁.flowTableGetReverse key = n.flowTableGetReverse key := by
  cases hchosen with
  | memoized _ | natural _ _ => rfl
  | remapped _ _ _ _ =>
    rw [flowTableGetReverse_insert, if_neg (ne_of_direction hkey (direction_memoKey f) (by decide))]

/-- A forward packet leaves every row under another key than its own alone. -/
theorem decapForwardCommit_reverse (n : Node) (h : Helpers) (skb : Skb) (p : ForwardPacket) {key : FlowKey}
    (hkey : flowKeyDirection key = some .reverse) :
    (decapForwardCommit n h skb p).1.flowTableGetReverse key = n.flowTableGetReverse key ∨
      ∃ n₁ port tcpFlags flags, PortChosen n p.flow n₁ port ∧ key = p.flow.revKey port ∧
        tcpFlagsDirect skb p.flow.proto (ethHlen + p.family.ipHlen) = some tcpFlags ∧
        n₁.reverseRowFlags key p.flow.identity p.flow.proto tcpFlags = some flags ∧ h .flowInsert = true ∧
        (decapForwardCommit n h skb p).1.flowTableGetReverse key = some { p.revValue with flags } := by
  rcases decapForwardCommit_cases n h skb p with heq | ⟨n₁, port, hchosen, heq | hrow⟩
  · exact Or.inl (by rw [heq])
  · exact Or.inl (by rw [heq, hchosen.reverse hkey])
  · obtain ⟨tcpFlags, flags, hread, hins, hflags, heq⟩ := hrow
    rw [heq, flowTableGetReverse_insert]
    by_cases hsame : key = p.flow.revKey port
    · subst hsame
      refine Or.inr ⟨n₁, port, tcpFlags, flags, hchosen, rfl, hread, hflags, hins, ?_⟩
      rw [if_pos rfl, FlowValue.reverse_fromReverse]
    · exact Or.inl (by rw [if_neg hsame, hchosen.reverse hkey])

/-- A probed port never has someone else's live row under it. -/
theorem PortChosen.free_or_memoized {n n₁ : Node} {f : ClientFlow} {port : UInt16}
    (hchosen : PortChosen n f n₁ port) :
    n.PortFree f port ∨ ∃ memo, n.flowTableGetPortMemo f.memoKey = some memo ∧ port = memo.backendSrcPort := by
  cases hchosen with
  | memoized hmemo => exact Or.inr ⟨_, hmemo, rfl⟩
  | natural _ hfree | remapped _ _ _ hfree => exact Or.inl hfree

/-- **The step lemma.** A live row keeps its holder, unless it is dropped or a memoized packet steals it. -/
theorem step_keeps_row_or_steals {n : Node} {e : NodeEvent} {key : FlowKey} {row : RevFlowValue}
    (hkey : flowKeyDirection key = some .reverse) (hrow : n.flowTableGetReverse key = some row)
    (hlive : row.isClosed = false) (hdrop : e ≠ .dropFlow key) :
    (∃ row', (n.step e).flowTableGetReverse key = some row' ∧ row'.identity = row.identity) ∨
      StealsRow n key e := by
  rcases step_backend n e with ⟨skb, h, p, rfl, hp, hstep⟩ | ⟨key', rfl⟩ | hframe
  · -- a forward packet: its own row, or a row it does not reach
    rw [hstep]
    rcases decapForwardCommit_reverse n h skb p hkey with
      heq | ⟨n₁, port, tcpFlags, flags, hchosen, rfl, hread, hflags, hins, heq⟩
    · exact Or.inl ⟨row, heq.trans hrow, rfl⟩
    · by_cases hown : row.identity = p.flow.identity
      · exact Or.inl ⟨_, heq, hown.symm⟩
      · refine Or.inr ?_
        rcases hchosen.free_or_memoized with hfree | ⟨memo, hmemo, rfl⟩
        · exact absurd (hfree row hrow hlive) hown
        · refine ⟨p, memo, row, tcpFlags, hp, hmemo, rfl, hrow, hlive, hown, hread, fun hrst => ?_, hins⟩
          -- a reset that finds someone else's row writes none
          have hskip : n₁.reverseRowFlags (p.flow.revKey memo.backendSrcPort) p.flow.identity
              p.flow.proto tcpFlags = none := by
            refine reverseRowFlags_eq_none.mpr ⟨hrst, fun v hv => ?_⟩
            rw [hchosen.reverse hkey, hrow] at hv
            rw [← Option.some_inj.mp hv]
            exact hown
          rw [hskip] at hflags
          cases hflags
  · -- another row is dropped
    refine Or.inl ⟨row, ?_, rfl⟩
    have hne : key ≠ key' := fun h => hdrop (by rw [h])
    rw [Node.flowTableGetReverse, lookup_step_dropFlow hne]
    exact hrow
  · obtain ⟨row', hrow', hcore⟩ := hframe.row hkey hrow
    exact Or.inl ⟨row', hrow', identity_of_core hcore⟩

/-- A packet that steals a row leaves its own identity in it. -/
theorem not_liveRowsKept_of_stealsRow {n : Node} {e : NodeEvent} {key : FlowKey} (hsteals : StealsRow n key e) :
    ¬ LiveRowsKept n e := by
  intro hkept
  cases e with
  | geneveIngress skb h =>
    obtain ⟨p, memo, row, tcpFlags, hp, hmemo, rfl, hrow, hlive, hother, hread, hrst, hins⟩ := hsteals
    have hstolen := decapForwardCommit_fresh (resolvePort_memoized h hmemo) hread hrst hins
      (fun w hw => Option.some_inj.mp (hrow.symm.trans hw) ▸ hother)
    obtain ⟨row', hrow', hsame⟩ := hkept _ row (direction_revKey ..) hrow hlive
    simp only [Node.step, geneveIngress_forward hp, deliverForward_fst, hstolen, flowTableGetReverse_insert,
      if_true, FlowValue.reverse_fromReverse] at hrow'
    obtain rfl := Option.some_inj.mp hrow'
    exact hother hsame.symm
  | _ => exact hsteals

/-- A memo appears only with a packet of its tuple that found no memo and the client's port taken. -/
theorem step_portMemo {n : Node} {e : NodeEvent} {f : ClientFlow} (hdrop : e ≠ .dropFlow f.memoKey) :
    (n.step e).flowTableGetPortMemo f.memoKey = n.flowTableGetPortMemo f.memoKey ∨
      ∃ skb h p, e = .geneveIngress skb h ∧ decapForwardAdmit n skb = some p ∧ p.flow.memoKey = f.memoKey ∧
        n.flowTableGetPortMemo f.memoKey = none ∧ ¬ n.PortFree p.flow p.flow.clientPort := by
  rcases step_backend n e with ⟨skb, h, p, rfl, hp, hstep⟩ | ⟨key', rfl⟩ | hframe
  · by_cases hkey : p.flow.memoKey = f.memoKey
    · rw [hstep]
      rcases decapForwardCommit_cases n h skb p with heq | ⟨n₁, port, hchosen, hn⟩
      · exact Or.inl (by rw [heq])
      · cases hchosen with
        | remapped hmemo htaken _ _ => exact Or.inr ⟨skb, h, p, rfl, hp, hkey, hkey ▸ hmemo, htaken⟩
        | memoized _ | natural _ _ =>
          refine Or.inl ?_
          rcases hn with heq | ⟨_, _, _, _, _, heq⟩
          · rw [heq]
          · rw [heq, flowTableGetPortMemo_insert,
              if_neg (ne_of_direction (direction_memoKey f) (direction_revKey ..) (by decide))]
    · rw [hstep]
      refine Or.inl ?_
      rcases decapForwardCommit_cases n h skb p with heq | ⟨n₁, port, hchosen, hn⟩
      · rw [heq]
      · have hmemo : n₁.flowTableGetPortMemo f.memoKey = n.flowTableGetPortMemo f.memoKey := by
          cases hchosen with
          | memoized _ | natural _ _ => rfl
          | remapped _ _ _ _ => rw [flowTableGetPortMemo_insert, if_neg (Ne.symm hkey)]
        rcases hn with heq | ⟨_, _, _, _, _, heq⟩
        · rw [heq, hmemo]
        · rw [heq, flowTableGetPortMemo_insert,
            if_neg (ne_of_direction (direction_memoKey f) (direction_revKey ..) (by decide)), hmemo]
  · refine Or.inl ?_
    have hne : f.memoKey ≠ key' := fun h => hdrop (by rw [h])
    rw [Node.flowTableGetPortMemo, lookup_step_dropFlow hne]
    rfl
  · exact Or.inl (hframe.memo _ (direction_memoKey f))

/-! ## Runs -/

/-- **Live reverse rows are kept along a run exactly as long as no memoized packet steals one.** The run is
    any sequence of packets and of writes of the controller, with no row dropped, from any table. -/
theorem liveRows_kept_iff_no_memo_steals {n : Node} {es : List NodeEvent}
    (hdrop : ∀ e ∈ es, ∀ key, e ≠ .dropFlow key) :
    Along Node.step LiveRowsKept n es ↔ Along Node.step (fun n e => ∀ key, ¬ StealsRow n key e) n es := by
  rw [along_iff, along_iff]
  refine forall₄_congr fun before e after hes => ?_
  refine ⟨fun hkept key hsteals => not_liveRowsKept_of_stealsRow hsteals hkept,
    fun hnone key row hkey hrow hlive => ?_⟩
  have hdrop' : e ≠ .dropFlow key := hdrop e (by simp [hes]) key
  exact (step_keeps_row_or_steals hkey hrow hlive hdrop').resolve_right (hnone key)

end Beep

/-! ## Two fronts, one client port, one pod -/

namespace Beep

open Run

section
variable [Host]

/-- A backend node with one pod, `10.1.0.9`, and one peer, `10.0.0.1`. -/
def oneBackend : Node where
  frontMeta := ∅
  frontEndpoints := ∅
  frontMisses := 0
  podTargets := (∅ : Table (Bytes 16) UInt8).insert (mappedAddr 10 1 0 9) 1
  nodeAllow := (∅ : Table (Bytes 16) UInt8).insert (mappedAddr 10 0 0 1) 1
  fwdPending := ∅
  flowTable := ∅
  config := none
  uplinkConfig := ∅

/-- `198.51.100.7:40000` through the front `192.0.2.x:80` to port `8080` of the pod. -/
def flowThrough (x : UInt8) : ClientFlow where
  clientIp := mappedAddr 198 51 100 7
  clientPort := Host.endian.u16OfBytes (pair 0x9c 0x40)
  podIp := mappedAddr 10 1 0 9
  targetPort := Host.endian.u16OfBytes (pair 0x1f 0x90)
  proto := ipprotoUdp
  frontIp := mappedAddr 192 0 2 x
  frontPort := Host.endian.u16OfBytes (pair 0 80)

/-- The fronts share the tuple: a port has one reverse key. -/
theorem revKey_through (x y : UInt8) (port : UInt16) :
    (flowThrough x).revKey port = (flowThrough y).revKey port := by
  simp only [ClientFlow.revKey, flowThrough]

theorem memoKey_through (x y : UInt8) : (flowThrough x).memoKey = (flowThrough y).memoKey := by
  simp only [ClientFlow.memoKey, flowThrough]

/-- A packet of that flow, as it comes out of the peer's tunnel. -/
def skbThrough (x : UInt8) : Skb where
  data := udpFrame (quad 198 51 100 7) (quad 192 0 2 x) (pair 0x9c 0x40) (pair 0 80)
  linear := 42
  mark := 0
  ingressIfindex := 1
  ifindex := 1
  received := some
    { remote := .v4 (Host.endian.u32OfBytes (quad 10 0 0 1)), tunnelId := vniFwd
      options := (encodePodIdOption (flowThrough x).podIp (flowThrough x).targetPort).toList }
  stamped := none
  host := false

/-- That packet on the backend node, with no call refused. -/
def packetThrough (x : UInt8) : NodeEvent := .geneveIngress (skbThrough x) fun _ => true

/-- What the node reads off it. -/
def forwardThrough (x : UInt8) : ForwardPacket where
  family := .v4
  flow := flowThrough x
  ingressNodeIp := mappedAddr 10 0 0 1

/-- The port the flow through `192.0.2.2` is moved to: `60733`. -/
def movedPort : UInt16 := Host.endian.u16OfBytes (pair 61 237)

/-- A packet the backend node handles: a decapsulated one or one a pod sends. -/
def NodeEvent.IsBackendPacket : NodeEvent → Prop
  | .geneveIngress _ _ | .uplinkEgress _ _ => True
  | _ => False

end

theorem liveRows_kept_iff_no_memo_steals_two_packets :
    letI := littleHost
    (∀ e ∈ [packetThrough 1, packetThrough 2], ∀ key, e ≠ .dropFlow key) ∧
      (Along Node.step LiveRowsKept oneBackend [packetThrough 1, packetThrough 2] ↔
        Along Node.step (fun n e => ∀ key, ¬ StealsRow n key e) oneBackend
          [packetThrough 1, packetThrough 2]) := by
  let := littleHost
  have hdrop : ∀ e ∈ [packetThrough 1, packetThrough 2], ∀ key, e ≠ .dropFlow key := by
    intro e he key
    rcases List.mem_pair.mp he with rfl | rfl <;> exact fun h => nomatch h
  exact ⟨hdrop, liveRows_kept_iff_no_memo_steals hdrop⟩

section
local instance exampleHost : Host := littleHost

/-- The node after the first packet of the flow through `192.0.2.1`. -/
def afterFirst : Node :=
  oneBackend.flowTableInsert ((flowThrough 1).revKey (flowThrough 1).clientPort)
    (FlowValue.fromReverse (forwardThrough 1).revValue)

/-- The node after the first packet of the flow through `192.0.2.2`. -/
def afterSecond : Node :=
  (afterFirst.flowTableInsert (flowThrough 2).memoKey
      (FlowValue.fromPortMemo { backendSrcPort := movedPort })).flowTableInsert
    ((flowThrough 2).revKey movedPort) (FlowValue.fromReverse (forwardThrough 2).revValue)

/-- The node after the next packet of the flow through `192.0.2.1`. -/
def afterThird : Node :=
  afterSecond.flowTableInsert ((flowThrough 1).revKey movedPort)
    (FlowValue.fromReverse (forwardThrough 1).revValue)

theorem decapForwardAdmit_first :
    decapForwardAdmit oneBackend (skbThrough 1) = some (forwardThrough 1) := by
  decide

theorem decapForwardAdmit_second :
    decapForwardAdmit oneBackend (skbThrough 2) = some (forwardThrough 2) := by
  decide

theorem identity_ne : (flowThrough 1).identity ≠ (flowThrough 2).identity := by
  decide

theorem resolvePort_first (h : Helpers) :
    oneBackend.resolvePort h (flowThrough 1) =
      .port oneBackend ((flowThrough 1).revKey (flowThrough 1).clientPort) (flowThrough 1).clientPort :=
  resolvePort_natural h rfl fun _ hrow => nomatch hrow

theorem flowTableGetReverse_afterFirst (key : FlowKey) :
    afterFirst.flowTableGetReverse key =
      if key = (flowThrough 1).revKey (flowThrough 1).clientPort then some (forwardThrough 1).revValue
      else none := by
  rw [afterFirst, flowTableGetReverse_insert]
  rfl

theorem decapForwardCommit_first :
    decapForwardCommit oneBackend (fun _ => true) (skbThrough 1) (forwardThrough 1) =
      (afterFirst, .ok (flowThrough 1).clientPort) :=
  decapForwardCommit_fresh (resolvePort_first _) rfl (by decide) rfl fun _ hw => nomatch hw

/-- The natural key is the first flow's, so the second one is moved. -/
theorem resolvePort_second {h : Helpers} (hins : h .memoInsert = true) :
    afterFirst.resolvePort h (flowThrough 2) =
      .port (afterFirst.flowTableInsert (flowThrough 2).memoKey
        (FlowValue.fromPortMemo { backendSrcPort := movedPort })) ((flowThrough 2).revKey movedPort)
        movedPort := by
  have hnatural : (flowThrough 2).revKey (flowThrough 2).clientPort =
      (flowThrough 1).revKey (flowThrough 1).clientPort := by
    rw [revKey_through 2 1]
    rfl
  have hmoved : (flowThrough 2).revKey movedPort ≠ (flowThrough 1).revKey (flowThrough 1).clientPort := by
    decide
  refine resolvePort_first_candidate ?_ ?_ (by decide) (by decide) ?_ hins
  · rw [afterFirst, flowTableGetPortMemo_insert,
      if_neg (ne_of_direction (direction_memoKey _) (direction_revKey ..) (by decide))]
    rfl
  · intro hfree
    have := hfree (forwardThrough 1).revValue
      (by rw [flowTableGetReverse_afterFirst, if_pos hnatural]) (by decide)
    revert this
    decide
  · intro row hrow
    rw [flowTableGetReverse_afterFirst, if_neg hmoved] at hrow
    cases hrow

/-- The row under the port the second flow is moved to. -/
theorem flowTableGetReverse_afterSecond :
    afterSecond.flowTableGetReverse ((flowThrough 2).revKey movedPort) = some (forwardThrough 2).revValue := by
  rw [afterSecond, flowTableGetReverse_insert, if_pos rfl, FlowValue.reverse_fromReverse]

theorem decapForwardCommit_second :
    decapForwardCommit afterFirst (fun _ => true) (skbThrough 2) (forwardThrough 2) =
      (afterSecond, .ok movedPort) := by
  have hmoved : (flowThrough 2).revKey movedPort ≠ (flowThrough 1).revKey (flowThrough 1).clientPort := by
    decide
  refine decapForwardCommit_fresh (resolvePort_second rfl) rfl (by decide) rfl fun w hw => ?_
  rw [flowTableGetReverse_insert,
    if_neg (ne_of_direction (direction_revKey ..) (direction_memoKey _) (by decide)),
    flowTableGetReverse_afterFirst] at hw
  exact nomatch (if_neg hmoved).symm.trans hw

/-- The memo of the second flow is the first one's too. -/
theorem decapForwardCommit_third :
    decapForwardCommit afterSecond (fun _ => true) (skbThrough 1) (forwardThrough 1) =
      (afterThird, .ok movedPort) := by
  have hmemo : afterSecond.flowTableGetPortMemo (flowThrough 1).memoKey =
      some { backendSrcPort := movedPort } := by
    rw [afterSecond, flowTableGetPortMemo_insert,
      if_neg (ne_of_direction (direction_memoKey _) (direction_revKey ..) (by decide)),
      flowTableGetPortMemo_insert, if_pos (memoKey_through ..),
      FlowValue.portMemo_fromPortMemo]
  refine decapForwardCommit_fresh (resolvePort_memoized _ hmemo) rfl (by decide) rfl fun w hw => ?_
  rw [show (forwardThrough 1).flow = flowThrough 1 from rfl, revKey_through 1 2] at hw
  rw [← Option.some_inj.mp (flowTableGetReverse_afterSecond.symm.trans hw)]
  exact identity_ne.symm

theorem step_first : oneBackend.step (packetThrough 1) = afterFirst := by
  simp only [Node.step, packetThrough, geneveIngress_forward decapForwardAdmit_first, deliverForward_fst,
    decapForwardCommit_first]

theorem step_second : afterFirst.step (packetThrough 2) = afterSecond := by
  have hp : decapForwardAdmit afterFirst (skbThrough 2) = some (forwardThrough 2) := decapForwardAdmit_second
  simp only [Node.step, packetThrough, geneveIngress_forward hp, deliverForward_fst,
    decapForwardCommit_second]

theorem step_third : afterSecond.step (packetThrough 1) = afterThird := by
  have hp : decapForwardAdmit afterSecond (skbThrough 1) = some (forwardThrough 1) := decapForwardAdmit_first
  simp only [Node.step, packetThrough, geneveIngress_forward hp, deliverForward_fst,
    decapForwardCommit_third]

theorem third_steals_row : ¬ LiveRowsKept afterSecond (packetThrough 1) := by
  intro hkept
  obtain ⟨row', hrow', hsame⟩ := hkept _ _ (direction_revKey ..) flowTableGetReverse_afterSecond rfl
  have hstolen : afterThird.flowTableGetReverse ((flowThrough 2).revKey movedPort) =
      some (forwardThrough 1).revValue := by
    rw [afterThird, flowTableGetReverse_insert, FlowValue.reverse_fromReverse]
    exact if_pos (revKey_through ..)
  rw [step_third, hstolen] at hrow'
  rw [← Option.some_inj.mp hrow'] at hsame
  exact identity_ne hsame

end

/-- The second flow is moved to another port and its memo put under the tuple both flows share, so the next
    packet of the first one takes that port, and the row under it. -/
theorem liveRows_stolen_by_shared_memo :
    ¬ ∀ (_ : Host) (n : Node) (es : List NodeEvent), n.flowTable = ∅ → (∀ e ∈ es, e.IsBackendPacket) →
      Along Node.step LiveRowsKept n es := by
  intro hkept
  have hrun := hkept littleHost (@oneBackend littleHost)
    [@packetThrough littleHost 1, @packetThrough littleHost 2, @packetThrough littleHost 1] rfl
    (by simp [packetThrough, NodeEvent.IsBackendPacket])
  obtain ⟨_, _, hthird, _⟩ := hrun
  rw [step_first, step_second] at hthird
  exact third_steals_row hthird

end Beep
