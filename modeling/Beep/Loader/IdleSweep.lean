import Beep.Common.FlowStep
import Beep.Lib.Run

/-!
# `Loader.IdleSweep` — the idle sweeps and the life of one row under them

`rowSwept` (`src/lib.rs`) selects the rows a sweep of one class deletes; the controller's sweep loop calls
it with the parity of that class and then flips the parity. This file follows **one** `Forward` or
`Reverse` row through packets that match it and sweeps of both classes, in any order (`GcState`, `gcStep`).

The two clocks are independent and the row moves between them when a connection closes or a SYN reopens it,
so the invariant does not speak about one class. It speaks about the class the row is in **now**
(`Fresh`): as long as that class's parity has not flipped since the last packet, the row's bit of that
class equals the global one.
-/

namespace Beep

/-- `config_keeping_parity`: the `CONFIG` row a start writes. -/
def configKeepingParity (existing : Config) (geneveIfindex : UInt32) (flowHashSeed : UInt64) : Config where
  geneveIfindex
  udpParity := existing.udpParity
  tcpParity := existing.tcpParity
  flowHashSeed

/-- `row_swept`: whether the sweep of `cls` deletes this `Forward`/`Reverse` row. -/
def rowSwept (key : FlowKey) (value : FlowValue) (cls : UInt8) (parity : GcParity) : Bool :=
  sweepClass value.flags key.proto = cls && paritySweepDeletes value.flags key.proto parity

/-- The two sweep classes. -/
inductive SweepClass where
  | udp
  | tcp
  deriving DecidableEq

namespace SweepClass

/-- The protocol number that names the class. -/
def proto : SweepClass → UInt8
  | .udp => ipprotoUdp
  | .tcp => ipprotoTcp

/-- The class's bit of the global parities. -/
def parity (p : GcParity) : SweepClass → Bool
  | .udp => p.udp
  | .tcp => p.tcp

/-- The parities the sweep loop hands to a sweep: its own class's, `false` for the other one. -/
def sweepParity (p : GcParity) : SweepClass → GcParity
  | .udp => { udp := p.udp, tcp := false }
  | .tcp => { udp := false, tcp := p.tcp }

/-- The parities after a sweep of the class. -/
def flip (p : GcParity) : SweepClass → GcParity
  | .udp => { p with udp := !p.udp }
  | .tcp => { p with tcp := !p.tcp }

end SweepClass

/-! ## One row, packets and sweeps -/

/-- One row (`none` once it is deleted) and the two global parities. -/
structure GcState where
  row : Option FlowValue
  parity : GcParity

/-- A packet that matches the row, or one pass of the idle sweep of a class. -/
inductive GcEvent where
  | packet (tcpFlags : UInt8) (side : FlowSide)
  | sweep (cls : SweepClass)

/-- A matched packet runs `flow_step` on the row; a sweep deletes it if `row_swept` says so and flips the
    class's parity. -/
def gcStep (key : FlowKey) (s : GcState) : GcEvent → GcState
  | .packet tcpFlags side =>
      { s with row := s.row.map fun v =>
          { v with flags := (flowStep (some v.flags) key.proto tcpFlags side s.parity).flagsAfter v.flags } }
  | .sweep cls =>
      { row := s.row.filter fun v => !rowSwept key v cls.proto (cls.sweepParity s.parity)
        parity := cls.flip s.parity }

/-- The row is in class `cls`. -/
def OwnedBy (key : FlowKey) (s : GcState) (cls : SweepClass) : Prop :=
  ∀ v, s.row = some v → sweepClass v.flags key.proto = cls.proto

/-- The row carries the current parity of the class it is in. -/
def Fresh (key : FlowKey) (s : GcState) : Prop :=
  ∀ v, s.row = some v → paritySweepDeletes v.flags key.proto s.parity = false

variable {key : FlowKey}

theorem proto_eq_iff {a b : SweepClass} : a.proto = b.proto ↔ a = b := by
  cases a <;> cases b <;> simp [SweepClass.proto, ipprotoTcp, ipprotoUdp]

/-- For a row of class `cls`, only that class's parity counts. -/
theorem paritySweepDeletes_congr {flags : UInt16} {proto : UInt8} {cls : SweepClass} {p q : GcParity}
    (hcls : sweepClass flags proto = cls.proto) (h : cls.parity p = cls.parity q) :
    paritySweepDeletes flags proto p = paritySweepDeletes flags proto q := by
  unfold paritySweepDeletes parityBit
  rw [hcls]
  cases cls with
  | udp => simp only [SweepClass.proto, if_true, show p.udp = q.udp from h]
  | tcp =>
    simp only [SweepClass.proto, show ¬ipprotoTcp = ipprotoUdp by decide, if_false, if_true,
      show p.tcp = q.tcp from h]

/-- Flipping a class's parity turns every verdict on its rows around. -/
theorem paritySweepDeletes_flip {flags : UInt16} {proto : UInt8} {cls : SweepClass} (p : GcParity)
    (hcls : sweepClass flags proto = cls.proto) :
    paritySweepDeletes flags proto (cls.flip p) = !paritySweepDeletes flags proto p := by
  unfold paritySweepDeletes parityBit
  rw [hcls]
  cases cls with
  | udp =>
    simp only [SweepClass.proto, if_true, SweepClass.flip]
    cases (flags &&& flowFlagUdpParity != 0) <;> cases p.udp <;> rfl
  | tcp =>
    simp only [SweepClass.proto, show ¬ipprotoTcp = ipprotoUdp by decide, if_false, if_true,
      SweepClass.flip]
    cases (flags &&& flowFlagTcpParity != 0) <;> cases p.tcp <;> rfl

/-- What a sweep does to a row of its own class, in terms of the global parities. -/
theorem rowSwept_of_owned {v : FlowValue} {cls : SweepClass} {p : GcParity}
    (hcls : sweepClass v.flags key.proto = cls.proto) :
    rowSwept key v cls.proto (cls.sweepParity p) = paritySweepDeletes v.flags key.proto p := by
  have hpar : cls.parity (cls.sweepParity p) = cls.parity p := by cases cls <;> rfl
  rw [rowSwept, hcls, paritySweepDeletes_congr hcls hpar]
  simp

/-- A packet leaves the row fresh. -/
theorem fresh_packet (s : GcState) (tcpFlags : UInt8) (side : FlowSide) :
    Fresh key (gcStep key s (.packet tcpFlags side)) := by
  intro v hv
  obtain ⟨w, _, rfl⟩ := Option.map_eq_some_iff.mp hv
  exact paritySweepDeletes_flowStep w.flags key.proto tcpFlags side s.parity

/-- A sweep that does not own the row leaves both its freshness and its class alone. -/
theorem gcStep_sweep_other {s : GcState} {cls other : SweepClass} (hne : other ≠ cls)
    (hown : OwnedBy key s cls) :
    (gcStep key s (.sweep other)).row = s.row ∧ cls.parity (other.flip s.parity) = cls.parity s.parity := by
  constructor
  · show s.row.filter _ = s.row
    cases hrow : s.row with
    | none => rfl
    | some v =>
      have hcls : ¬ sweepClass v.flags key.proto = other.proto := by
        rw [hown v hrow, proto_eq_iff]
        exact fun h => hne h.symm
      simp [rowSwept, hcls]
  · cases cls <;> cases other <;> first | rfl | exact absurd rfl hne

/-! ## An active row is kept -/

/-- The row's class has not been swept since its last packet: if the class it is in is `cls`, its parity
    bit is current. Kept by every event but a sweep of `cls`. -/
def FreshIn (key : FlowKey) (cls : SweepClass) (s : GcState) : Prop :=
  OwnedBy key s cls → Fresh key s

theorem freshIn_step {s : GcState} {cls : SweepClass} {e : GcEvent} (hne : e ≠ .sweep cls)
    (h : FreshIn key cls s) : FreshIn key cls (gcStep key s e) := by
  cases e with
  | packet tcpFlags side => exact fun _ => fresh_packet s tcpFlags side
  | sweep other =>
    intro hown v hv
    have hother : other ≠ cls := fun he => hne (by rw [he])
    -- the row after the sweep is the row before it, so it was in `cls` before the sweep too
    have hrow : s.row = some v := (Option.filter_eq_some_iff.mp hv).1
    have hown' : OwnedBy key s cls := by
      intro w hw
      rw [hrow] at hw
      cases hw
      exact hown v hv
    have hpar := (gcStep_sweep_other hother hown').2
    show paritySweepDeletes v.flags key.proto (other.flip s.parity) = false
    rw [paritySweepDeletes_congr (hown v hv) hpar]
    exact h hown' v hrow

/-- Without a sweep of `cls` in between, a packet keeps the row fresh for as long as it is in `cls`. -/
theorem freshIn_run {s : GcState} {cls : SweepClass} {es : List GcEvent}
    (hns : ∀ e ∈ es, e ≠ .sweep cls) (h : FreshIn key cls s) : FreshIn key cls (es.foldl (gcStep key) s) := by
  induction es generalizing s with
  | nil => exact h
  | cons e es ih =>
    exact ih (fun e' he' => hns e' (List.mem_cons_of_mem _ he'))
      (freshIn_step (hns e List.mem_cons_self) h)

/-- A fresh row survives the sweep of any class. -/
theorem fresh_survives {s : GcState} {cls : SweepClass} (h : FreshIn key cls s) :
    (gcStep key s (.sweep cls)).row = s.row := by
  show s.row.filter _ = s.row
  cases hrow : s.row with
  | none => rfl
  | some v =>
    by_cases hcls : sweepClass v.flags key.proto = cls.proto
    · have hown : OwnedBy key s cls := by
        intro w hw
        rw [hrow] at hw
        cases hw
        exact hcls
      rw [Option.filter_some, rowSwept_of_owned hcls, h hown v hrow]
      rfl
    · simp [rowSwept, hcls]

/-! ## A dead row is reclaimed -/

/-- Sweeps of the other class do not touch a row of `cls` nor its parity. -/
theorem otherSweeps_run {s : GcState} {cls : SweepClass} {es : List GcEvent}
    (hes : ∀ e ∈ es, ∃ other, other ≠ cls ∧ e = .sweep other) (hown : OwnedBy key s cls) :
    (es.foldl (gcStep key) s).row = s.row ∧
      cls.parity (es.foldl (gcStep key) s).parity = cls.parity s.parity := by
  induction es generalizing s with
  | nil => exact ⟨rfl, rfl⟩
  | cons e es ih =>
    obtain ⟨other, hne, rfl⟩ := hes e List.mem_cons_self
    obtain ⟨hrow, hpar⟩ := gcStep_sweep_other hne hown
    have hown' : OwnedBy key (gcStep key s (.sweep other)) cls := fun v hv => hown v (hrow ▸ hv)
    obtain ⟨hrow', hpar'⟩ := ih (fun e' he' => hes e' (List.mem_cons_of_mem _ he')) hown'
    exact ⟨hrow'.trans hrow, hpar'.trans hpar⟩

/-- **Two sweeps of its class with no packet in between delete the row.** The first one either deletes it
    or finds its bit equal to the parity it then flips away from it. -/
theorem idle_row_reclaimed {s : GcState} {cls : SweepClass} {mid : List GcEvent}
    (hmid : ∀ e ∈ mid, ∃ other, other ≠ cls ∧ e = .sweep other) (hown : OwnedBy key s cls) :
    ((GcEvent.sweep cls :: mid ++ [GcEvent.sweep cls]).foldl (gcStep key) s).row = none := by
  simp only [List.cons_append, List.foldl_cons, List.foldl_append, List.foldl_nil]
  have hown₁ : OwnedBy key (gcStep key s (.sweep cls)) cls :=
    fun v hv => hown v (Option.filter_eq_some_iff.mp hv).1
  obtain ⟨hrow, hpar⟩ := otherSweeps_run hmid hown₁
  show Option.filter _ (mid.foldl (gcStep key) (gcStep key s (.sweep cls))).row = none
  rw [hrow]
  cases hv : (gcStep key s (.sweep cls)).row with
  | none => rfl
  | some v =>
    have hcls := hown₁ v hv
    have hsurv : paritySweepDeletes v.flags key.proto s.parity = false := by
      have := (Option.filter_eq_some_iff.mp hv).2
      rw [rowSwept_of_owned hcls] at this
      simpa using this
    have hdue : paritySweepDeletes v.flags key.proto
        (mid.foldl (gcStep key) (gcStep key s (.sweep cls))).parity = true := by
      rw [paritySweepDeletes_congr hcls hpar]
      show paritySweepDeletes v.flags key.proto (cls.flip s.parity) = true
      rw [paritySweepDeletes_flip _ hcls, hsurv]
      rfl
    rw [Option.filter_some, rowSwept_of_owned hcls, hdue]
    rfl

/-- Every row of a stored protocol belongs to one of the two sweeps. -/
theorem exists_sweepClass (flags : UInt16) {proto : UInt8} (h : proto = ipprotoTcp ∨ proto = ipprotoUdp) :
    ∃ cls : SweepClass, sweepClass flags proto = cls.proto := by
  unfold sweepClass
  by_cases hclosed : proto = ipprotoTcp ∧ flags &&& flowFlagClosed ≠ 0
  · exact ⟨.udp, by rw [if_pos hclosed]; rfl⟩
  · rw [if_neg hclosed]
    rcases h with rfl | rfl
    · exact ⟨.tcp, rfl⟩
    · exact ⟨.udp, rfl⟩

theorem ownedBy_of_row {s : GcState} {cls : SweepClass} {v : FlowValue} (hrow : s.row = some v)
    (hcls : sweepClass v.flags key.proto = cls.proto) : OwnedBy key s cls := by
  intro w hw
  rw [hrow] at hw
  cases hw
  exact hcls

/-- **The idle sweep keeps active rows and reclaims dead ones.** A row of a stored protocol always belongs
    to one sweep. If no sweep of the class it is in flipped that class's parity since a packet matched it, a
    sweep of either class keeps it; if no packet matches it between two sweeps of its class, the second one
    leaves no row. Sweeps of the other class may stand anywhere. -/
theorem idleSweep_spares_active_reclaims_dead (key : FlowKey)
    (hproto : key.proto = ipprotoTcp ∨ key.proto = ipprotoUdp) (s : GcState) :
    (∀ v : FlowValue, ∃ cls : SweepClass, sweepClass v.flags key.proto = cls.proto) ∧
    (∀ (before after : List GcEvent) (tcpFlags : UInt8) (side : FlowSide) (owner cls : SweepClass)
        (v : FlowValue),
      ((before ++ GcEvent.packet tcpFlags side :: after).foldl (gcStep key) s).row = some v →
      sweepClass v.flags key.proto = owner.proto → (∀ e ∈ after, e ≠ GcEvent.sweep owner) →
      ((before ++ GcEvent.packet tcpFlags side :: after ++ [GcEvent.sweep cls]).foldl (gcStep key) s).row
        = some v) ∧
    (∀ (before between : List GcEvent) (owner : SweepClass) (v : FlowValue),
      (before.foldl (gcStep key) s).row = some v → sweepClass v.flags key.proto = owner.proto →
      (∀ e ∈ between, ∃ other, other ≠ owner ∧ e = GcEvent.sweep other) →
      ((before ++ (GcEvent.sweep owner :: between ++ [GcEvent.sweep owner])).foldl (gcStep key) s).row
        = none) := by
  refine ⟨fun v => exists_sweepClass v.flags hproto, ?_, ?_⟩
  · intro before after tcpFlags side owner cls v hrow hcls hafter
    rw [List.foldl_append, List.foldl_cons, List.foldl_nil]
    have hown := ownedBy_of_row hrow hcls
    by_cases hc : cls = owner
    · subst hc
      have hfresh : FreshIn key cls
          ((before ++ GcEvent.packet tcpFlags side :: after).foldl (gcStep key) s) := by
        rw [List.foldl_append, List.foldl_cons]
        exact freshIn_run hafter fun _ => fresh_packet _ tcpFlags side
      rw [fresh_survives hfresh]
      exact hrow
    · rw [(gcStep_sweep_other hc hown).1]
      exact hrow
  · intro before between owner v hrow hcls hbetween
    rw [List.foldl_append]
    exact idle_row_reclaimed hbetween (ownedBy_of_row hrow hcls)

/-- A TCP row over all-zero addresses and ports. -/
def sampleTcpKey : FlowKey := ((Vector.replicate 36 0 : Bytes 36) ++ (#v[ipprotoTcp] : Bytes 1)) ++ (#v[0] : Bytes 1)

/-- An open row. -/
def sampleRow : FlowValue := ⟨Vector.replicate 16 0, Vector.replicate 16 0, 0, 0, 0, 0⟩

/-- A UDP sweep flips that class's parity, then an RST closes a TCP row and so moves it to the UDP class:
    the next UDP sweep spares it, the one after that does not. -/
theorem idleSweep_spares_active_reclaims_dead_closed_row :
    ([.sweep .udp, .packet tcpFlagRst .client, .sweep .udp].foldl (gcStep sampleTcpKey)
      ⟨some sampleRow, ⟨true, true⟩⟩).row = some { sampleRow with flags := flowFlagClosed } ∧
    ([.sweep .udp, .packet tcpFlagRst .client, .sweep .udp, .sweep .tcp, .sweep .udp].foldl
      (gcStep sampleTcpKey) ⟨some sampleRow, ⟨true, true⟩⟩).row = none := by
  obtain ⟨_, active, dead⟩ := idleSweep_spares_active_reclaims_dead sampleTcpKey
    (Or.inl (by decide)) ⟨some sampleRow, ⟨true, true⟩⟩
  constructor
  · exact active [.sweep .udp] [] tcpFlagRst .client .udp .udp _ (by decide) (by decide)
      (by simp)
  · exact dead [.sweep .udp, .packet tcpFlagRst .client] [.sweep .tcp] .udp
      { sampleRow with flags := flowFlagClosed } (by decide) (by decide) (by simp)

end Beep
