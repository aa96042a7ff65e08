import Beep.Common.Decisions
import Beep.Common.FlowStep

/-!
# `Common.PortRemap` — the backend-facing source port of a flow

`resolve_backend_src_port`: a flow uses the client's own source port unless a row of another identity holds
the reverse key of that port; then a bounded probe looks for a synthetic port whose reverse key is free. The
probe's closure is an `FnMut`: it may change a state of its own (the dataplane patches one key buffer in
place), so here it takes and returns that state, and the decision comes back together with it.
-/

namespace Beep

variable [Host]

/-- `(front, original client port)`: what a reverse row is held by. -/
abbrev Occupant := (Bytes 16 × UInt16) × UInt16

/-- `BackendPortDecision`. -/
inductive BackendPortDecision where
  | noRemap
  | remap (port : UInt16)
  | exhausted
  deriving DecidableEq

/-- `PROBE_LIMIT`. -/
def probeLimit : Nat := 16
/-- `REMAP_PORT_BASE`. -/
def remapPortBase : UInt16 := 49152
/-- `REMAP_PORT_RANGE`. -/
def remapPortRange : UInt16 := 16384

/-- `occupant_conflicts`. -/
def occupantConflicts (occupant : Option Occupant) (resolvingFront : Bytes 16 × UInt16)
    (resolvingClientPort : UInt16) : Bool :=
  match occupant with
  | some identity => identity != (resolvingFront, resolvingClientPort)
  | none => false

/-- The identity of a reverse row. -/
def RevFlowValue.identity (row : RevFlowValue) : Occupant :=
  ((row.frontIp, row.frontPort), row.originalClientPort)

/-- Whether a row carries `FLOW_FLAG_CLOSED`. -/
def RevFlowValue.isClosed (row : RevFlowValue) : Bool := row.flags &&& flowFlagClosed != 0

/-- `reverse_occupant`: the identity of a stored row, `none` once it is closed. -/
def reverseOccupant (row : RevFlowValue) : Option Occupant :=
  if row.isClosed then none else some row.identity

/-- `synthetic_port_seed`. -/
def syntheticPortSeed (frontIp : Bytes 16) (frontPort : UInt16) : UInt16 :=
  let word := fun off (h : off + 4 ≤ 16) => Host.endian.u32OfBytes (Bytes.slice frontIp off 4 h)
  let folded := word 0 Bytes.word0 ^^^ word 4 Bytes.word1 ^^^ word 8 Bytes.word2 ^^^ word 12 Bytes.word3
  let rotated := (folded >>> 16) ||| (folded <<< 16)
  let mixed := folded ^^^ rotated ^^^ frontPort.toUInt32 ^^^ (frontPort.toUInt32 <<< 3)
  mixed.toUInt16 % remapPortRange

/-- The candidate the probe tries at index `i`. -/
def remapCandidate (seed i : UInt16) : UInt16 := remapPortBase + (seed + i) % remapPortRange

section
variable {σ : Type*} (isReverseKeyTaken : σ → UInt16 → σ × Bool)

/-- The probe loop, with `fuel` tries left at index `i`. -/
def probeLoop (seed originalPort : UInt16) : Nat → UInt16 → σ → BackendPortDecision × σ
  | 0, _, s => (.exhausted, s)
  | fuel + 1, i, s =>
      let candidate := remapCandidate seed i
      if candidate = originalPort then probeLoop seed originalPort fuel (i + 1) s
      else
        match isReverseKeyTaken s candidate with
        | (s', true) => probeLoop seed originalPort fuel (i + 1) s'
        | (s', false) => (.remap candidate, s')

/-- `resolve_backend_src_port`. -/
def resolveBackendSrcPort (existingOccupant : Option Occupant) (newFront : Bytes 16 × UInt16)
    (originalPort : UInt16) (s : σ) : BackendPortDecision × σ :=
  if !occupantConflicts existingOccupant newFront originalPort then (.noRemap, s)
  else probeLoop isReverseKeyTaken (syntheticPortSeed newFront.1 newFront.2) originalPort probeLimit 0 s

end

/-! ## What a decision means -/

omit [Host] in
theorem occupantConflicts_some {identity : Occupant} {front : Bytes 16 × UInt16} {port : UInt16} :
    occupantConflicts (some identity) front port = false ↔ identity = (front, port) := by
  simp [occupantConflicts]

section
variable {σ : Type*} {isReverseKeyTaken : σ → UInt16 → σ × Bool}

omit [Host] in
/-- A port the probe settles on is not the client's own, and the closure's last answer was that it is
    free. -/
theorem probeLoop_remap {seed originalPort : UInt16} {fuel : Nat} {i : UInt16} {s s' : σ} {port : UInt16}
    (h : probeLoop isReverseKeyTaken seed originalPort fuel i s = (.remap port, s')) :
    port ≠ originalPort ∧ ∃ t, isReverseKeyTaken t port = (s', false) := by
  induction fuel generalizing i s with
  | zero => cases h
  | succ fuel ih =>
    simp only [probeLoop] at h
    by_cases hown : remapCandidate seed i = originalPort
    · rw [if_pos hown] at h
      exact ih h
    · rw [if_neg hown] at h
      split at h
      · exact ih h
      · rename_i s'' htaken
        cases h
        exact ⟨hown, s, htaken⟩

omit [Host] in
theorem probeLoop_ne_noRemap {seed originalPort : UInt16} {fuel : Nat} {i : UInt16} {s : σ} :
    (probeLoop isReverseKeyTaken seed originalPort fuel i s).1 ≠ .noRemap := by
  induction fuel generalizing i s with
  | zero => exact fun h => nomatch h
  | succ fuel ih =>
    simp only [probeLoop]
    split
    · exact ih
    · split
      · exact ih
      · exact fun h => nomatch h

/-- The client's own port is used exactly when nobody else holds its key. -/
theorem resolveBackendSrcPort_noRemap {existing : Option Occupant} {front : Bytes 16 × UInt16}
    {port : UInt16} {s : σ} :
    (resolveBackendSrcPort isReverseKeyTaken existing front port s).1 = .noRemap ↔
      occupantConflicts existing front port = false := by
  unfold resolveBackendSrcPort
  cases occupantConflicts existing front port with
  | false => exact ⟨fun _ => rfl, fun _ => rfl⟩
  | true => exact ⟨fun h => absurd h probeLoop_ne_noRemap, fun h => nomatch h⟩

theorem resolveBackendSrcPort_remap {existing : Option Occupant} {front : Bytes 16 × UInt16}
    {original port : UInt16} {s s' : σ}
    (h : resolveBackendSrcPort isReverseKeyTaken existing front original s = (.remap port, s')) :
    occupantConflicts existing front original = true ∧ port ≠ original ∧
      ∃ t, isReverseKeyTaken t port = (s', false) := by
  unfold resolveBackendSrcPort at h
  cases hc : occupantConflicts existing front original with
  | false => rw [hc] at h; cases h
  | true =>
    rw [hc] at h
    exact ⟨rfl, probeLoop_remap h⟩

end

end Beep
