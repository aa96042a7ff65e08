import Beep.Common.FlowStep
import Beep.Lib.Run
import Mathlib.Data.List.Induction

/-!
# `Common.TcpClose` — the close tracking of a flow row over its packets

What a row knows of its connection is what the packets since the last SYN said: which sides sent a FIN, and whether the
connection has ended (`Ended`), by an RST or by a FIN from both. `Tracks` says so of the FIN and closed bits; a packet
keeps it (`Tracks.packet`), a change of the parities does not touch the row, so it holds after every history
(`tracks_run`).

A packet also copies the parity of its class into the row. It does so once: the same packet again, or a packet that
leaves the FIN and closed bits as they are after the first one did, writes nothing.
-/

namespace Beep

/-! ## Packets and rows -/

/-- What a packet says to a row. -/
structure RowPacket where
  tcpFlags : UInt8
  side : FlowSide
  deriving DecidableEq

namespace RowPacket

def syn (p : RowPacket) : Prop := p.tcpFlags &&& tcpFlagSyn ≠ 0
def rst (p : RowPacket) : Prop := p.tcpFlags &&& tcpFlagRst ≠ 0
def fin (p : RowPacket) : Prop := p.tcpFlags &&& tcpFlagFin ≠ 0

instance (p : RowPacket) : Decidable p.syn := inferInstanceAs (Decidable (_ ≠ _))
instance (p : RowPacket) : Decidable p.rst := inferInstanceAs (Decidable (_ ≠ _))
instance (p : RowPacket) : Decidable p.fin := inferInstanceAs (Decidable (_ ≠ _))

end RowPacket

/-- The FIN bits and the closed bit. -/
def closeMask : UInt16 := flowFlagFinClient ||| flowFlagFinPod ||| flowFlagClosed

/-- A row that exists, and the parities its packets are compared with. -/
structure FlowRow where
  flags : UInt16
  parity : GcParity

/-- What happens to it. -/
inductive RowEvent where
  | packet (p : RowPacket)
  | parity (parity : GcParity)

/-- The packets among the events. -/
def rowPackets (events : List RowEvent) : List RowPacket :=
  events.filterMap fun
    | .packet p => some p
    | .parity _ => none

namespace FlowRow

/-- What is decided for a packet. -/
def answer (proto : UInt8) (row : FlowRow) (p : RowPacket) : FlowStep :=
  flowStep (some row.flags) proto p.tcpFlags p.side row.parity

/-- A packet writes what is decided; the parities are the controller's. -/
def step (proto : UInt8) (row : FlowRow) : RowEvent → FlowRow
  | .packet p => { row with flags := (row.answer proto p).flagsAfter row.flags }
  | .parity parity => { row with parity }

/-- How many of the packets write the row. -/
def writes (proto : UInt8) : FlowRow → List RowPacket → Nat
  | _, [] => 0
  | row, p :: ps => (if row.answer proto p = .keep then 0 else 1) + writes proto (row.step proto (.packet p)) ps

end FlowRow

/-! ## One packet -/

/-- The flags of a row that exists after the TCP part of `flow_step_flags`. -/
def tcpPart (proto : UInt8) (existing : UInt16) (p : RowPacket) : UInt16 :=
  if proto = ipprotoTcp then (tcpStepFlags true existing p.tcpFlags p.side).getD existing else existing

section
variable {existing : UInt16} {proto : UInt8} {p : RowPacket} {parity : GcParity} {row : FlowRow}

theorem isBit_finFlag (side : FlowSide) : Flags.IsBit (finFlag side) := by
  cases side with
  | client => exact Flags.isBit_twoPow (i := 0) (by omega)
  | pod => exact Flags.isBit_twoPow (i := 1) (by omega)

theorem isBit_closed : Flags.IsBit flowFlagClosed := Flags.isBit_twoPow (i := 4) (by omega)

/-- Both FIN bits are set. -/
theorem both_fins (w : UInt16) : w &&& (flowFlagFinClient ||| flowFlagFinPod) = flowFlagFinClient ||| flowFlagFinPod ↔
    ∀ side, w &&& finFlag side ≠ 0 := by
  show w &&& (finFlag .client ||| finFlag .pod) = finFlag .client ||| finFlag .pod ↔ _
  rw [Flags.and_or_eq_iff (isBit_finFlag .client) (isBit_finFlag .pod)]
  constructor
  · rintro ⟨hclient, hpod⟩ side
    cases side with
    | client => exact hclient
    | pod => exact hpod
  · intro h
    exact ⟨h .client, h .pod⟩

/-- The flags after the TCP part: SYN clears, RST closes, FIN marks its side, two FINs close. -/
theorem tcpStepFlags_present (existing : UInt16) (p : RowPacket) : ∃ flags,
    tcpStepFlags true existing p.tcpFlags p.side = some flags ∧
      (∀ side, flags &&& finFlag side ≠ 0 ↔ (p.fin ∧ p.side = side) ∨ (¬ p.syn ∧ existing &&& finFlag side ≠ 0)) ∧
      (flags &&& flowFlagClosed ≠ 0 ↔
        p.rst ∨ (∀ side, flags &&& finFlag side ≠ 0) ∨ (¬ p.syn ∧ existing &&& flowFlagClosed ≠ 0)) ∧
      flags &&& ~~~closeMask = existing &&& ~~~closeMask := by
  unfold tcpStepFlags
  rw [if_neg (by simp)]
  refine ⟨_, rfl, ?_, ?_, ?_⟩
  · intro side
    have hbit := isBit_finFlag side
    have hclosed : flowFlagClosed &&& finFlag side = 0 := by cases side <;> decide
    rw [Flags.set_and_of_disjoint hclosed]
    by_cases hside : p.side = side
    · subst hside
      rw [Flags.set_and_ne_zero hbit, Flags.set_and_of_disjoint hclosed,
        Flags.clear_and_ne_zero (by cases p.side <;> decide)]
      simp [RowPacket.fin, RowPacket.syn]
    · have hother : finFlag p.side &&& finFlag side = 0 := by
        revert hside
        cases p.side <;> cases side <;> decide
      rw [Flags.set_and_of_disjoint hother, Flags.set_and_of_disjoint hclosed,
        Flags.clear_and_ne_zero (by cases side <;> decide)]
      simp [hside, RowPacket.syn]
  · -- the closing test sees the FIN bits that are written
    have hfin : finFlag p.side &&& flowFlagClosed = 0 := by cases p.side <;> decide
    have hsame : ∀ side (w : UInt16) (q : Prop) [Decidable q],
        (if q then w ||| flowFlagClosed else w) &&& finFlag side = w &&& finFlag side := by
      intro side w q _
      exact Flags.set_and_of_disjoint (by cases side <;> decide)
    simp only [hsame _ _ (_ = _)]
    rw [Flags.set_and_ne_zero isBit_closed, Flags.set_and_of_disjoint hfin, Flags.set_and_ne_zero isBit_closed,
      Flags.clear_and_ne_zero (by decide), both_fins]
    simp only [RowPacket.rst, RowPacket.syn]
    tauto
  · have hfin : finFlag p.side &&& ~~~closeMask = 0 := by cases p.side <;> decide
    rw [Flags.set_and_of_disjoint (by decide), Flags.set_and_of_disjoint hfin, Flags.set_and_of_disjoint (by decide),
      Flags.clear_and_of_disjoint (by decide)]

/-- Copying a parity twice is copying it once. -/
theorem copyParity_copyParity (proto : UInt8) (flags : UInt16) (parity : GcParity) :
    copyParity proto (copyParity proto flags parity) parity = copyParity proto flags parity := by
  have hclass : parityBit proto (copyParity proto flags parity) parity = parityBit proto flags parity := by
    unfold parityBit
    rw [sweepClass_copyParity]
  have htwice : ∀ (w bit : UInt16) (global : Bool),
      (if global then (if global then w ||| bit else w &&& ~~~bit) ||| bit
        else (if global then w ||| bit else w &&& ~~~bit) &&& ~~~bit) =
        if global then w ||| bit else w &&& ~~~bit := by
    intro w bit global
    cases global <;> simp [UInt16.or_assoc, UInt16.and_assoc]
  conv_lhs => rw [copyParity, hclass]
  conv_rhs => rw [copyParity]
  cases hbit : parityBit proto flags parity with
  | none => simp [copyParity, hbit]
  | some found =>
    obtain ⟨bit, global⟩ := found
    simpa [copyParity, hbit] using htwice flags bit global

theorem tcpPart_spec (existing : UInt16) (p : RowPacket) :
    (∀ side, tcpPart ipprotoTcp existing p &&& finFlag side ≠ 0 ↔
      (p.fin ∧ p.side = side) ∨ (¬ p.syn ∧ existing &&& finFlag side ≠ 0)) ∧
    (tcpPart ipprotoTcp existing p &&& flowFlagClosed ≠ 0 ↔ p.rst ∨
      (∀ side, tcpPart ipprotoTcp existing p &&& finFlag side ≠ 0) ∨ (¬ p.syn ∧ existing &&& flowFlagClosed ≠ 0)) ∧
    tcpPart ipprotoTcp existing p &&& ~~~closeMask = existing &&& ~~~closeMask := by
  obtain ⟨flags, hflags, hspec⟩ := tcpStepFlags_present existing p
  have hpart : tcpPart ipprotoTcp existing p = flags := by simp [tcpPart, hflags]
  rw [hpart]
  exact hspec

theorem tcpPart_of_ne (hproto : proto ≠ ipprotoTcp) : tcpPart proto existing p = existing := by
  simp [tcpPart, hproto]

/-- **The answer for a row that exists**: its flags after the TCP part, with the parity of their class copied in. -/
theorem FlowRow.answer_eq (proto : UInt8) (row : FlowRow) (p : RowPacket) : row.answer proto p =
    if row.flags = copyParity proto (tcpPart proto row.flags p) row.parity then .keep
    else .write (copyParity proto (tcpPart proto row.flags p) row.parity) := by
  unfold answer flowStep flowStepFlags tcpPart
  by_cases hproto : proto = ipprotoTcp
  · obtain ⟨flags, hflags, -⟩ := tcpStepFlags_present row.flags p
    simp [hproto, hflags]
  · simp [hproto]

theorem FlowRow.flags_step (proto : UInt8) (row : FlowRow) (p : RowPacket) :
    (row.step proto (.packet p)).flags = copyParity proto (tcpPart proto row.flags p) row.parity := by
  simp only [step, answer_eq]
  split
  · assumption
  · rfl

/-- The close bits of a row after a packet are those of the TCP part. -/
theorem FlowRow.closeBits_step (proto : UInt8) (row : FlowRow) (p : RowPacket) {c : UInt16}
    (hudp : flowFlagUdpParity &&& c = 0) (htcp : flowFlagTcpParity &&& c = 0) :
    (row.step proto (.packet p)).flags &&& c = tcpPart proto row.flags p &&& c := by
  rw [flags_step, copyParity_and hudp htcp]

/-- Words with the same close bits that agree elsewhere are the same. -/
theorem eq_of_closeBits {w v : UInt16} (hfin : ∀ side, w &&& finFlag side ≠ 0 ↔ v &&& finFlag side ≠ 0)
    (hclosed : w &&& flowFlagClosed ≠ 0 ↔ v &&& flowFlagClosed ≠ 0)
    (hrest : w &&& ~~~closeMask = v &&& ~~~closeMask) : w = v := by
  apply Flags.eq_of_and_eq closeMask _ hrest
  have hclient : w &&& flowFlagFinClient = v &&& flowFlagFinClient := (isBit_finFlag .client).and_eq_iff.mpr (hfin .client)
  have hpod : w &&& flowFlagFinPod = v &&& flowFlagFinPod := (isBit_finFlag .pod).and_eq_iff.mpr (hfin .pod)
  unfold closeMask
  rw [Flags.and_or_distrib, Flags.and_or_distrib, Flags.and_or_distrib v, Flags.and_or_distrib v, hclient, hpod,
    isBit_closed.and_eq_iff.mpr hclosed]

end

/-! ## The history of a connection -/

/-- The packets from the last SYN on; all of them if there was none. -/
def fromLastSyn : List RowPacket → List RowPacket
  | [] => []
  | p :: ps => if ps.any (decide ·.syn) then fromLastSyn ps else p :: ps

theorem fromLastSyn_append (ps : List RowPacket) (p : RowPacket) :
    fromLastSyn (ps ++ [p]) = if p.syn then [p] else fromLastSyn ps ++ [p] := by
  induction ps with
  | nil => simp [fromLastSyn]
  | cons q ps ih =>
    rw [List.cons_append, fromLastSyn, ih]
    by_cases hsyn : p.syn
    · simp [hsyn]
    · by_cases hany : ps.any (decide ·.syn) = true <;> simp [fromLastSyn, hsyn, hany]

/-- The connection has ended: an RST, or a FIN from both sides. -/
def Ended (packets : List RowPacket) : Prop :=
  (∃ p ∈ packets, p.rst) ∨ ∀ side, ∃ p ∈ packets, p.fin ∧ p.side = side

/-- The close bits of a row say what its packets since the last SYN said. -/
structure Tracks (packets : List RowPacket) (flags : UInt16) : Prop where
  fins : ∀ side, flags &&& finFlag side ≠ 0 ↔ ∃ p ∈ fromLastSyn packets, p.fin ∧ p.side = side
  closed : flags &&& flowFlagClosed ≠ 0 ↔ Ended (fromLastSyn packets)

section
variable {packets : List RowPacket} {flags : UInt16} {row : FlowRow} {proto : UInt8} {p : RowPacket}

/-- A row without close bits knows of nothing. -/
theorem tracks_nil (h : flags &&& closeMask = 0) : Tracks [] flags := by
  have hclear : ∀ {c : UInt16}, closeMask &&& c = c → flags &&& c = 0 := by
    intro c hc
    rw [← hc, ← UInt16.and_assoc, h]
    simp
  refine ⟨?_, ?_⟩
  · intro side
    have hside : flags &&& finFlag side = 0 := hclear (by cases side <;> decide)
    simp [fromLastSyn, hside]
  · have hclosed : flags &&& flowFlagClosed = 0 := hclear (by decide)
    have hends : ¬ Ended [] := by
      rintro (⟨p, hp, -⟩ | hfins)
      · simp at hp
      · obtain ⟨p, hp, -⟩ := hfins .client
        simp at hp
    simp [fromLastSyn, hclosed, hends]

/-- **One packet.** -/
theorem Tracks.packet (h : Tracks packets row.flags) (p : RowPacket) :
    Tracks (packets ++ [p]) (row.step ipprotoTcp (.packet p)).flags := by
  obtain ⟨hfin, hclosed, -⟩ := tcpPart_spec row.flags p
  have hfins : ∀ side, (row.step ipprotoTcp (.packet p)).flags &&& finFlag side ≠ 0 ↔
      ∃ p' ∈ fromLastSyn (packets ++ [p]), p'.fin ∧ p'.side = side := by
    intro side
    rw [row.closeBits_step _ p (by cases side <;> decide) (by cases side <;> decide), hfin, h.fins,
      fromLastSyn_append]
    by_cases hsyn : p.syn
    · simp [hsyn]
    · simp only [hsyn, not_false_iff, true_and, if_false, List.mem_append, List.mem_singleton, or_and_right, exists_or,
        exists_eq_left]
      exact or_comm
  refine ⟨hfins, ?_⟩
  have hwritten : ∀ side, tcpPart ipprotoTcp row.flags p &&& finFlag side ≠ 0 ↔
      ∃ p' ∈ fromLastSyn (packets ++ [p]), p'.fin ∧ p'.side = side := by
    intro side
    rw [← hfins, row.closeBits_step _ p (by cases side <;> decide) (by cases side <;> decide)]
  rw [row.closeBits_step _ p (by decide) (by decide), hclosed, h.closed]
  simp only [hwritten]
  rw [fromLastSyn_append]
  unfold Ended
  by_cases hsyn : p.syn
  · simp [hsyn]
  · simp only [hsyn, not_false_iff, true_and, if_false, List.mem_append, List.mem_singleton, or_and_right, exists_or,
      exists_eq_left]
    constructor
    · rintro (hrst | hfins | hrst | hfins)
      · exact Or.inl (Or.inr hrst)
      · exact Or.inr hfins
      · exact Or.inl (Or.inl hrst)
      · exact Or.inr fun side => Or.inl (hfins side)
    · rintro ((hrst | hrst) | hfins)
      · exact Or.inr (Or.inr (Or.inl hrst))
      · exact Or.inl hrst
      · exact Or.inr (Or.inl hfins)

/-- **Every history.** -/
theorem tracks_run (h : flags &&& closeMask = 0) (parity : GcParity) (events : List RowEvent) :
    Tracks (rowPackets events) (events.foldl (FlowRow.step ipprotoTcp) ⟨flags, parity⟩).flags := by
  -- on the last event
  induction events using List.reverseRecOn with
  | nil => exact tracks_nil h
  | append_singleton events event ih =>
    rw [List.foldl_append]
    unfold rowPackets
    rw [List.filterMap_append]
    cases event with
    | packet p => exact ih.packet p
    | parity parity' =>
      rw [List.filterMap_cons_none rfl, List.filterMap_nil, List.append_nil]
      exact ih

/-- Only a SYN reopens. -/
theorem closed_kept (hsyn : ¬ p.syn) (h : row.flags &&& flowFlagClosed ≠ 0) :
    (row.step ipprotoTcp (.packet p)).flags &&& flowFlagClosed ≠ 0 := by
  rw [row.closeBits_step _ p (by decide) (by decide), (tcpPart_spec row.flags p).2.1]
  exact Or.inr (Or.inr ⟨hsyn, h⟩)

/-- What a packet said of the connection, it says again. -/
theorem tcpPart_step (proto : UInt8) (row : FlowRow) (p : RowPacket) :
    tcpPart proto (row.step proto (.packet p)).flags p = (row.step proto (.packet p)).flags := by
  by_cases hproto : proto = ipprotoTcp
  · subst hproto
    obtain ⟨hfin, hclosed, -⟩ := tcpPart_spec row.flags p
    obtain ⟨hfin', hclosed', hrest⟩ := tcpPart_spec (row.step ipprotoTcp (.packet p)).flags p
    have hsame : ∀ side, tcpPart ipprotoTcp (row.step ipprotoTcp (.packet p)).flags p &&& finFlag side ≠ 0 ↔
        tcpPart ipprotoTcp row.flags p &&& finFlag side ≠ 0 := by
      intro side
      rw [hfin', row.closeBits_step _ p (by cases side <;> decide) (by cases side <;> decide), hfin]
      by_cases hsyn : p.syn <;> simp [hsyn]
    refine eq_of_closeBits ?_ ?_ hrest
    · intro side
      rw [hsame, row.closeBits_step _ p (by cases side <;> decide) (by cases side <;> decide)]
    · rw [hclosed', row.closeBits_step _ p (by decide) (by decide)]
      simp only [hsame]
      constructor
      · rintro (hrst | hfins | ⟨-, hkept⟩)
        · exact hclosed.mpr (Or.inl hrst)
        · exact hclosed.mpr (Or.inr (Or.inl hfins))
        · exact hkept
      · intro hkept
        rcases hclosed.mp hkept with hrst | hfins | ⟨hsyn, -⟩
        · exact Or.inl hrst
        · exact Or.inr (Or.inl hfins)
        · exact Or.inr (Or.inr ⟨hsyn, hkept⟩)
  · exact tcpPart_of_ne hproto

/-- **A packet that comes twice** writes nothing the second time. -/
theorem answer_again (proto : UInt8) (row : FlowRow) (p : RowPacket) :
    (row.step proto (.packet p)).answer proto p = .keep := by
  rw [FlowRow.answer_eq, if_pos]
  rw [tcpPart_step, row.flags_step proto p]
  exact (copyParity_copyParity ..).symm

/-! ## Writes between two changes of the parities -/

/-- The parity of the row's class is copied in. -/
def FlowRow.Copied (proto : UInt8) (row : FlowRow) : Prop := row.flags = copyParity proto row.flags row.parity

/-- The packet leaves the close bits. -/
def FlowRow.KeepsCloseBits (proto : UInt8) (row : FlowRow) (p : RowPacket) : Prop :=
  (row.step proto (.packet p)).flags &&& closeMask = row.flags &&& closeMask

theorem FlowRow.KeepsCloseBits.tcpPart (h : row.KeepsCloseBits proto p) : tcpPart proto row.flags p = row.flags := by
  by_cases hproto : proto = ipprotoTcp
  · subst hproto
    refine Flags.eq_of_and_eq closeMask ?_ (tcpPart_spec row.flags p).2.2
    rw [← h, row.closeBits_step _ p (by decide) (by decide)]
  · exact tcpPart_of_ne hproto

/-- After such a packet the parity is copied in. -/
theorem FlowRow.KeepsCloseBits.copied (h : row.KeepsCloseBits proto p) : (row.step proto (.packet p)).Copied proto := by
  show (row.step proto (.packet p)).flags = copyParity proto (row.step proto (.packet p)).flags row.parity
  rw [row.flags_step, h.tcpPart, copyParity_copyParity]

/-- Once it is, such a packet writes nothing. -/
theorem FlowRow.KeepsCloseBits.keep (h : row.KeepsCloseBits proto p) (hcopied : row.Copied proto) :
    row.answer proto p = .keep := by
  rw [row.answer_eq, h.tcpPart]
  exact if_pos hcopied

open Run in
theorem writes_eq_zero (hcopied : row.Copied proto)
    (h : Along (fun row p => row.step proto (.packet p)) (FlowRow.KeepsCloseBits proto) row packets) :
    row.writes proto packets = 0 := by
  induction packets generalizing row with
  | nil => rfl
  | cons p ps ih => simp [FlowRow.writes, h.1.keep hcopied, ih h.1.copied h.2]

open Run in
/-- **At most one write** while the parities and the close bits stay. -/
theorem writes_le_one (h : Along (fun row p => row.step proto (.packet p)) (FlowRow.KeepsCloseBits proto) row packets) :
    row.writes proto packets ≤ 1 := by
  cases packets with
  | nil => exact Nat.zero_le 1
  | cons p ps =>
    rw [FlowRow.writes, writes_eq_zero h.1.copied h.2]
    split <;> omega

/-! ## Rows that are not there, and rows of UDP -/

/-- Without a row, an RST of TCP is skipped and every other packet writes one. -/
theorem flowStep_none (proto : UInt8) (p : RowPacket) (parity : GcParity) :
    if proto = ipprotoTcp ∧ p.rst then flowStep none proto p.tcpFlags p.side parity = .skip
    else ∃ flags, flowStep none proto p.tcpFlags p.side parity = .write flags := by
  split
  · rename_i h
    exact flowStepFlags_skip_iff.mpr ⟨h.1, h.2, rfl⟩
  · rename_i h
    unfold flowStep flowStepFlags
    split
    · rename_i hnone
      split at hnone
      · rename_i hproto
        exact absurd ⟨hproto, (tcpStepFlags_eq_none.mp hnone).1⟩ h
      · cases hnone
    · exact ⟨_, by simp; rfl⟩

/-- A packet of UDP leaves the close bits. -/
theorem closeBits_udp (row : FlowRow) (event : RowEvent) :
    (row.step ipprotoUdp event).flags &&& closeMask = row.flags &&& closeMask := by
  cases event with
  | packet p => rw [row.closeBits_step _ p (by decide) (by decide), tcpPart_of_ne (by decide)]
  | parity parity => rfl

theorem closeBits_udp_run (events : List RowEvent) (row : FlowRow) :
    (events.foldl (FlowRow.step ipprotoUdp) row).flags &&& closeMask = row.flags &&& closeMask := by
  induction events generalizing row with
  | nil => rfl
  | cons event events ih => rw [List.foldl_cons, ih, closeBits_udp]

/-- A row of UDP is written without them. -/
theorem closeBits_udp_new {p : RowPacket} {parity : GcParity} {flags : UInt16}
    (h : flowStep none ipprotoUdp p.tcpFlags p.side parity = .write flags) : flags &&& closeMask = 0 := by
  have hwritten : flags = copyParity ipprotoUdp 0 parity := by
    simp only [flowStep, flowStepFlags, if_neg (show ipprotoUdp ≠ ipprotoTcp by decide)] at h
    simpa using h.symm
  rw [hwritten, copyParity_and (by decide) (by decide)]
  simp

end

open Run in
/-- **The close tracking.** A row without close bits is closed after a history of TCP packets exactly if the packets
    since the last SYN ended the connection. Only a SYN reopens it. A packet that comes twice writes once, and so do all
    packets between two changes of the parities that leave the close bits. Without a row only an RST is skipped, and a
    row of UDP has no close bits. -/
theorem close_tracking :
    (∀ flags, flags &&& closeMask = 0 → ∀ parity (events : List RowEvent),
      ((events.foldl (FlowRow.step ipprotoTcp) ⟨flags, parity⟩).flags &&& flowFlagClosed ≠ 0 ↔
        Ended (fromLastSyn (rowPackets events)))) ∧
    (∀ (row : FlowRow) (event : RowEvent), (∀ p, event = .packet p → ¬ p.syn) → row.flags &&& flowFlagClosed ≠ 0 →
      (row.step ipprotoTcp event).flags &&& flowFlagClosed ≠ 0) ∧
    (∀ (proto : UInt8) (row : FlowRow) (p : RowPacket), (row.step proto (.packet p)).answer proto p = .keep) ∧
    (∀ (proto : UInt8) (row : FlowRow) (packets : List RowPacket),
      Along (fun row p => row.step proto (.packet p)) (FlowRow.KeepsCloseBits proto) row packets →
        row.writes proto packets ≤ 1) ∧
    (∀ (proto : UInt8) (p : RowPacket) (parity : GcParity),
      if proto = ipprotoTcp ∧ p.rst then flowStep none proto p.tcpFlags p.side parity = .skip
      else ∃ flags, flowStep none proto p.tcpFlags p.side parity = .write flags) ∧
    (∀ flags, flags &&& closeMask = 0 → ∀ parity (events : List RowEvent),
      (events.foldl (FlowRow.step ipprotoUdp) ⟨flags, parity⟩).flags &&& closeMask = 0) ∧
    ∀ (p : RowPacket) (parity : GcParity) (flags : UInt16),
      flowStep none ipprotoUdp p.tcpFlags p.side parity = .write flags → flags &&& closeMask = 0 := by
  refine ⟨?_, ?_, answer_again, ?_, flowStep_none, ?_, ?_⟩
  · intro flags hclean parity events
    exact (tracks_run hclean parity events).closed
  · intro row event hsyn hclosed
    cases event with
    | packet p => exact closed_kept (hsyn p rfl) hclosed
    | parity parity => exact hclosed
  · intro proto row packets hkeeps
    exact writes_le_one hkeeps
  · intro flags hclean parity events
    rw [closeBits_udp_run]
    exact hclean
  · intro p parity flags hwritten
    exact closeBits_udp_new hwritten

/-- The theorem at a connection that both sides close, with a change of the parities in between. -/
theorem close_tracking_two_fins : ([.packet ⟨tcpFlagFin, .client⟩, .parity ⟨true, true⟩, .packet ⟨tcpFlagFin, .pod⟩].foldl
    (FlowRow.step ipprotoTcp) ⟨0, ⟨false, false⟩⟩).flags &&& flowFlagClosed ≠ 0 := by
  apply (close_tracking.1 0 (by decide) _ _).mpr
  refine Or.inr ?_
  intro side
  cases side with
  | client => exact ⟨⟨tcpFlagFin, .client⟩, by decide, by decide, rfl⟩
  | pod => exact ⟨⟨tcpFlagFin, .pod⟩, by decide, by decide, rfl⟩

end Beep
