import Beep.Common.Values
import Beep.Lib.Flags

/-!
# `Common.FlowStep` — the flags of a flow row

What one matched packet does to the flag word of a `Forward` or `Reverse` row (`flowStep`), and which idle
sweep owns the row and deletes it (`sweepClass`, `paritySweepDeletes`).

A row carries one parity bit per sweep class. A packet copies the global parity of the class the row is in
**after** the packet into that class's bit (`paritySweepDeletes_flowStep`); a sweep compares the bit of the
row's class with the global parity.
-/

namespace Beep

/-- `IPPROTO_TCP`. -/
def ipprotoTcp : UInt8 := 6
/-- `IPPROTO_UDP`. -/
def ipprotoUdp : UInt8 := 17
/-- `TCP_FLAG_FIN`. -/
def tcpFlagFin : UInt8 := 0x01
/-- `TCP_FLAG_SYN`. -/
def tcpFlagSyn : UInt8 := 0x02
/-- `TCP_FLAG_RST`. -/
def tcpFlagRst : UInt8 := 0x04

/-- `FLOW_FLAG_FIN_CLIENT`: a FIN was seen from the client side. -/
def flowFlagFinClient : UInt16 := 1
/-- `FLOW_FLAG_FIN_POD`: a FIN was seen from the pod side. -/
def flowFlagFinPod : UInt16 := 2
/-- `FLOW_FLAG_UDP_PARITY`: the parity bit of the UDP sweep class. -/
def flowFlagUdpParity : UInt16 := 4
/-- `FLOW_FLAG_TCP_PARITY`: the parity bit of the TCP sweep class. -/
def flowFlagTcpParity : UInt16 := 8
/-- `FLOW_FLAG_CLOSED`: the TCP connection ended. -/
def flowFlagClosed : UInt16 := 16

/-- `FlowSide`: which end of the connection sent the packet. -/
inductive FlowSide where
  | client
  | pod
  deriving DecidableEq

/-- `sweep_class`: the idle sweep that owns a row. -/
def sweepClass (flags : UInt16) (proto : UInt8) : UInt8 :=
  if proto = ipprotoTcp ∧ flags &&& flowFlagClosed ≠ 0 then ipprotoUdp else proto

/-- `parity_bit`: the parity bit a row carries, and the global parity it is compared against. -/
def parityBit (proto : UInt8) (flags : UInt16) (parity : GcParity) : Option (UInt16 × Bool) :=
  if sweepClass flags proto = ipprotoUdp then some (flowFlagUdpParity, parity.udp)
  else if sweepClass flags proto = ipprotoTcp then some (flowFlagTcpParity, parity.tcp)
  else none

/-- `parity_sweep_deletes`: whether the idle sweep deletes a row. -/
def paritySweepDeletes (flags : UInt16) (proto : UInt8) (parity : GcParity) : Bool :=
  match parityBit proto flags parity with
  | some (bit, global) => (flags &&& bit != 0) != global
  | none => false

/-- `FlowStep`: what the datapath does with the row a packet matched. -/
inductive FlowStep where
  | keep
  | write (flags : UInt16)
  | skip
  deriving DecidableEq

/-- The FIN bit a side sets. -/
def finFlag : FlowSide → UInt16
  | .client => flowFlagFinClient
  | .pod => flowFlagFinPod

/-- The flags of a row after the TCP part of `flow_step_flags`; `none` where it answers `Skip`. -/
def tcpStepFlags (present : Bool) (existing : UInt16) (tcpFlags : UInt8) (side : FlowSide) :
    Option UInt16 :=
  let both := flowFlagFinClient ||| flowFlagFinPod
  let flags := if tcpFlags &&& tcpFlagSyn ≠ 0 then existing &&& ~~~(both ||| flowFlagClosed) else existing
  if tcpFlags &&& tcpFlagRst ≠ 0 ∧ present = false then none
  else
    let flags := if tcpFlags &&& tcpFlagRst ≠ 0 then flags ||| flowFlagClosed else flags
    let flags := if tcpFlags &&& tcpFlagFin ≠ 0 then flags ||| finFlag side else flags
    some (if flags &&& both = both then flags ||| flowFlagClosed else flags)

/-- The last part of `flow_step_flags`: the parity bit of the row's class is a copy of the global one. -/
def copyParity (proto : UInt8) (flags : UInt16) (parity : GcParity) : UInt16 :=
  match parityBit proto flags parity with
  | some (bit, global) => if global then flags ||| bit else flags &&& ~~~bit
  | none => flags

/-- `flow_step_flags`: the per-packet decision on a row's flags. `present` says whether the row exists and
    `existing` is its flag word (`0` when it does not). -/
def flowStepFlags (present : Bool) (existing : UInt16) (proto tcpFlags : UInt8) (side : FlowSide)
    (parity : GcParity) : FlowStep :=
  match if proto = ipprotoTcp then tcpStepFlags present existing tcpFlags side else some existing with
  | none => .skip
  | some flags =>
      if present ∧ existing = copyParity proto flags parity then .keep
      else .write (copyParity proto flags parity)

/-- `flow_step`: `flow_step_flags` on an optional row. -/
def flowStep (existing : Option UInt16) (proto tcpFlags : UInt8) (side : FlowSide) (parity : GcParity) :
    FlowStep :=
  flowStepFlags existing.isSome (existing.getD 0) proto tcpFlags side parity

/-- The flag word a row holds once a `FlowStep` decided for it has run. -/
def FlowStep.flagsAfter (existing : UInt16) : FlowStep → UInt16
  | .write flags => flags
  | _ => existing

/-- `port_memo_wanted`: whether a `PortMemo` row still has its reverse row. -/
def portMemoWanted (memoClientPort : UInt16) (reverseOriginalPort : Option UInt16) : Bool :=
  reverseOriginalPort = some memoClientPort

/-! ## What a step leaves behind -/

theorem tcpStepFlags_eq_none {present : Bool} {existing : UInt16} {tcpFlags : UInt8} {side : FlowSide} :
    tcpStepFlags present existing tcpFlags side = none ↔
      tcpFlags &&& tcpFlagRst ≠ 0 ∧ present = false := by
  unfold tcpStepFlags
  by_cases h : tcpFlags &&& tcpFlagRst ≠ 0 ∧ present = false
  · rw [if_pos h]
    exact ⟨fun _ => h, fun _ => rfl⟩
  · rw [if_neg h]
    exact ⟨fun hn => (nomatch hn), fun hc => absurd hc h⟩

/-- Only an RST without a row is skipped. -/
theorem flowStepFlags_skip_iff {present : Bool} {existing : UInt16} {proto tcpFlags : UInt8}
    {side : FlowSide} {parity : GcParity} :
    flowStepFlags present existing proto tcpFlags side parity = .skip ↔
      proto = ipprotoTcp ∧ tcpFlags &&& tcpFlagRst ≠ 0 ∧ present = false := by
  unfold flowStepFlags
  split
  · rename_i hnone
    split at hnone
    · rename_i hp
      exact ⟨fun _ => ⟨hp, tcpStepFlags_eq_none.mp hnone⟩, fun _ => rfl⟩
    · cases hnone
  · rename_i flags hsome
    refine ⟨fun h => ?_, fun ⟨hp, hr⟩ => ?_⟩
    · split at h <;> cases h
    · rw [if_pos hp, tcpStepFlags_eq_none.mpr hr] at hsome
      cases hsome

/-- A packet that matched a row leaves it with the parity of its class copied in. -/
theorem flagsAfter_flowStep (existing : UInt16) (proto tcpFlags : UInt8) (side : FlowSide)
    (parity : GcParity) :
    ∃ base, (flowStep (some existing) proto tcpFlags side parity).flagsAfter existing
      = copyParity proto base parity := by
  have hns : flowStep (some existing) proto tcpFlags side parity ≠ .skip := by
    rw [Ne, flowStep, flowStepFlags_skip_iff]
    rintro ⟨_, _, h⟩
    cases h
  unfold flowStep flowStepFlags at hns ⊢
  split at hns
  · exact absurd rfl hns
  · rename_i base _
    refine ⟨base, ?_⟩
    split
    · rename_i hkeep
      exact hkeep.2
    · rfl

/-- Copying a parity changes no test of a mask without parity bits. -/
theorem copyParity_and {c : UInt16} (hudp : flowFlagUdpParity &&& c = 0) (htcp : flowFlagTcpParity &&& c = 0)
    (proto : UInt8) (flags : UInt16) (parity : GcParity) : copyParity proto flags parity &&& c = flags &&& c := by
  have hbit : ∀ (bit : UInt16) (global : Bool), bit &&& c = 0 →
      (if global then flags ||| bit else flags &&& ~~~bit) &&& c = flags &&& c := by
    intro bit global h
    cases global with
    | true => exact Flags.or_and_of_disjoint h
    | false => exact Flags.andNot_and_of_disjoint h
  unfold copyParity parityBit
  by_cases hclass : sweepClass flags proto = ipprotoUdp
  · rw [if_pos hclass]
    exact hbit _ _ hudp
  · rw [if_neg hclass]
    by_cases hclass' : sweepClass flags proto = ipprotoTcp
    · rw [if_pos hclass']
      exact hbit _ _ htcp
    · rw [if_neg hclass']

/-- Writing a parity bit does not move a row to the other sweep class. -/
theorem sweepClass_copyParity (flags : UInt16) (proto : UInt8) (parity : GcParity) :
    sweepClass (copyParity proto flags parity) proto = sweepClass flags proto := by
  unfold sweepClass
  rw [copyParity_and (by decide) (by decide)]

/-- Reading back the parity bit just written. -/
theorem setParity_test (flags : UInt16) (global : Bool) {bit : UInt16} (hbit : bit ≠ 0) :
    ((if global then flags ||| bit else flags &&& ~~~bit) &&& bit != 0) = global := by
  cases global
  · simp
  · simpa using hbit

/-- A row whose class's parity was just copied in is not idle for that class. -/
theorem paritySweepDeletes_copyParity (flags : UInt16) (proto : UInt8) (parity : GcParity) :
    paritySweepDeletes (copyParity proto flags parity) proto parity = false := by
  unfold paritySweepDeletes parityBit
  rw [sweepClass_copyParity]
  unfold copyParity parityBit
  by_cases hudp : sweepClass flags proto = ipprotoUdp
  · simp only [if_pos hudp, setParity_test flags parity.udp (show flowFlagUdpParity ≠ 0 by decide),
      bne_self_eq_false]
  · by_cases htcp : sweepClass flags proto = ipprotoTcp
    · simp only [if_neg hudp, if_pos htcp,
        setParity_test flags parity.tcp (show flowFlagTcpParity ≠ 0 by decide), bne_self_eq_false]
    · simp only [if_neg hudp, if_neg htcp]

/-- **A matched packet refreshes the row.** Whatever the packet did to the FIN and closed bits, no sweep of
    the class the row is now in deletes it under the same parities. -/
theorem paritySweepDeletes_flowStep (existing : UInt16) (proto tcpFlags : UInt8) (side : FlowSide)
    (parity : GcParity) :
    paritySweepDeletes ((flowStep (some existing) proto tcpFlags side parity).flagsAfter existing) proto
      parity = false := by
  obtain ⟨base, hbase⟩ := flagsAfter_flowStep existing proto tcpFlags side parity
  rw [hbase]
  exact paritySweepDeletes_copyParity base proto parity

end Beep
