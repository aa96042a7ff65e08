import Beep.Common.FlowStep
import Beep.Controller.Apply
import Beep.Lib.Run

/-!
# `Controller.Correctness.Reuse` — an IP is swept before its next owner is installed

The memory of what still has to be swept is `known_backends`. Over a run of ticks it is compared with the history of
the run: who owned an IP at which tick (`ownerAt`) and which evictions of it went through (`Swept`). A tick that cannot
sweep, a uid that is missing, and a failed sweep of an IP that is not remembered each break the chain; where none of
them does (`TickOk`), every IP a plan installs has been swept since its last owner (`swept_before_installed`).
-/

namespace Beep

open Run

/-! ## Runs of ticks -/

/-- A process between ticks: what it remembers, and beside it the IPs whose owner is gone and whose flows have not
    been evicted. -/
structure TickRun where
  memory : TickMemory := {}
  due : Finset (Bytes 16) := ∅

/-- A failed sweep leaves its IPs due; without the node's pods known, so are the backends that left. -/
def TickRun.step (r : TickRun) (t : TickInput) : TickRun where
  memory := r.memory.step t
  due := (if t.sweepFailed r.memory then r.due ∪ t.sweep r.memory else r.due \ t.sweep r.memory) ∪
    if t.desired.podTargetsKnown then ∅
    else (r.memory.known.keys.filter fun ip => (t.desired.clusterBackends.lookup ip).isNone).toFinset

/-- The process before tick `i`. -/
def runAt (ts : List TickInput) (i : Nat) : TickRun := (ts.take i).foldl TickRun.step {}

/-- Who owns an IP at tick `i`: nobody, or a pod whose uid may be unknown. -/
def ownerAt (ts : List TickInput) (x : Bytes 16) (i : Nat) : Option (Option String) :=
  ts[i]?.bind fun t => t.desired.clusterBackends.lookup x

/-- Tick `j` evicts the flows of an IP, successfully. -/
def Swept (ts : List TickInput) (x : Bytes 16) (j : Nat) : Prop :=
  ∃ t, ts[j]? = some t ∧ x ∈ t.sweep (runAt ts j).memory ∧ t.sweepFailed (runAt ts j).memory = false

/-- The IP is swept after tick `m` and no later than tick `n`. -/
def SweptSince (ts : List TickInput) (x : Bytes 16) (m n : Nat) : Prop := ∃ j, m < j ∧ j ≤ n ∧ Swept ts x j

/-- At tick `n` the IP is back under a known uid it had by tick `m`. -/
def Back (ts : List TickInput) (x : Bytes 16) (m n : Nat) : Prop :=
  ∃ m' uid, m' ≤ m ∧ ownerAt ts x m' = some (some uid) ∧ ownerAt ts x n = some (some uid)

/-- **Swept before installed.** An IP that the plan of tick `n` installs has been swept since any tick that saw it
    under another known uid or saw it last before it left, unless it is back under a known uid it had; and an IP whose
    row was left behind by an earlier process has been swept since it was found there. -/
structure SweptBeforeInstalled (ts : List TickInput) (x : Bytes 16) (n : Nat) : Prop where
  reused : ∀ m a b, m < n → ownerAt ts x m = some (some a) → ownerAt ts x n = some (some b) → a ≠ b →
    SweptSince ts x m n ∨ Back ts x m n
  departed : ∀ m, m < n → ownerAt ts x m ≠ none → ownerAt ts x (m + 1) = none →
    SweptSince ts x m n ∨ Back ts x m n
  row : ∀ k t, k ≤ n → ts[k]? = some t → x ∈ t.rows → x ∉ t.desired.podTargets → (∀ m, m ≤ k → ownerAt ts x m = none) →
    ∃ j, k ≤ j ∧ j ≤ n ∧ Swept ts x j

/-- A tick that keeps the memory whole. -/
structure TickOk (r : TickRun) (t : TickInput) : Prop where
  /-- while the node's own Node is unknown, what is asked for is remembered under the uid it has -/
  unknown : t.desired.podTargetsKnown = false → ∀ x, t.desired.Mentions x →
    t.desired.clusterBackends.lookup x ≠ none ∧
      r.memory.known.lookup x = t.desired.clusterBackends.lookup x
  /-- an IP remembered under a uid does not turn up without one -/
  uid : ∀ x a, r.memory.known.lookup x = some (some a) → t.desired.clusterBackends.lookup x ≠ some none
  /-- an IP that is due turns up as a row that is swept again, or with both uids known -/
  due : ∀ x ∈ r.due, t.desired.Mentions x →
    (x ∈ t.rows ∧ x ∉ t.desired.podTargets) ∨
      ∃ a b, r.memory.known.lookup x = some (some a) ∧ t.desired.clusterBackends.lookup x = some (some b)

/-! ## One tick -/

section
variable {r : TickRun} {t : TickInput} {x : Bytes 16}

theorem mem_due_step : x ∈ (r.step t).due ↔
    (if t.sweepFailed r.memory then x ∈ r.due ∨ x ∈ t.sweep r.memory else x ∈ r.due ∧ x ∉ t.sweep r.memory) ∨
      (t.desired.podTargetsKnown = false ∧ r.memory.known.lookup x ≠ none ∧
        t.desired.clusterBackends.lookup x = none) := by
  unfold TickRun.step
  cases t.sweepFailed r.memory <;> cases t.desired.podTargetsKnown <;>
    simp [Table.mem_keys_iff, ← Option.ne_none_iff_exists', or_assoc]

/-- What is due stays due until it is swept. -/
theorem due_step_of_due (hdue : x ∈ r.due)
    (hno : ¬ (x ∈ t.sweep r.memory ∧ t.sweepFailed r.memory = false)) : x ∈ (r.step t).due := by
  rw [mem_due_step]
  left
  cases hfailed : t.sweepFailed r.memory with
  | true => exact Or.inl hdue
  | false => exact ⟨hdue, fun hx => hno ⟨hx, hfailed⟩⟩

/-- A remembered backend that left is swept or due. -/
theorem due_step_of_left (hknown : r.memory.known.lookup x ≠ none)
    (hleft : t.desired.clusterBackends.lookup x = none)
    (hno : ¬ (x ∈ t.sweep r.memory ∧ t.sweepFailed r.memory = false)) : x ∈ (r.step t).due := by
  rw [mem_due_step]
  cases hpods : t.desired.podTargetsKnown with
  | false => exact Or.inr ⟨rfl, hknown, hleft⟩
  | true =>
    have hx : x ∈ t.sweep r.memory := TickInput.mem_sweep.mpr (Or.inr ⟨hpods, Or.inr (Or.inl ⟨hknown, hleft⟩)⟩)
    left
    cases hfailed : t.sweepFailed r.memory with
    | true => exact Or.inr hx
    | false => exact absurd ⟨hx, hfailed⟩ hno

/-- What the step of a tick that keeps the memory whole leaves in memory for an IP that is not swept: the owner the
    tick saw, unless the tick could not sweep or its sweep of the IP failed. -/
theorem known_step (hno : ¬ (x ∈ t.sweep r.memory ∧ t.sweepFailed r.memory = false)) :
    (r.step t).memory.known.lookup x = r.memory.known.lookup x ∨
      (t.desired.podTargetsKnown = true ∧ x ∉ t.sweep r.memory ∧
        (r.step t).memory.known.lookup x = t.desired.clusterBackends.lookup x) := by
  have hknown : (r.step t).memory.known.lookup x = _ := TickMemory.lookup_known_step
  by_cases hupdate : t.desired.podTargetsKnown = true ∧ ¬ (t.sweepFailed r.memory = true ∧ x ∈ t.sweep r.memory)
  · rw [if_pos hupdate] at hknown
    refine Or.inr ⟨hupdate.1, fun hx => ?_, hknown⟩
    cases hfailed : t.sweepFailed r.memory with
    | true => exact hupdate.2 ⟨hfailed, hx⟩
    | false => exact hno ⟨hx, hfailed⟩
  · rw [if_neg hupdate] at hknown
    exact Or.inl hknown

/-- An IP remembered under a uid that a tick does not sweep is seen under that uid. -/
theorem TickOk.same_uid (hok : TickOk r t) {a : String} (hpods : t.desired.podTargetsKnown = true)
    (hx : x ∉ t.sweep r.memory) (ha : r.memory.known.lookup x = some (some a)) :
    t.desired.clusterBackends.lookup x = some (some a) := by
  rcases hb : t.desired.clusterBackends.lookup x with _ | _ | b
  · refine absurd (TickInput.mem_sweep.mpr (Or.inr ⟨hpods, Or.inr (Or.inl ⟨?_, hb⟩)⟩)) hx
    rw [ha]
    exact fun h => nomatch h
  · exact absurd hb (hok.uid x a ha)
  · by_cases hab : a = b
    · rw [hab]
    · exact absurd (TickInput.mem_sweep.mpr (Or.inr ⟨hpods, Or.inr (Or.inr ⟨a, b, ha, hb, hab⟩)⟩)) hx

/-- A due IP that is not remembered under a uid does not turn up at a tick that does not sweep it. -/
theorem TickOk.not_mentioned (hok : TickOk r t) (hdue : x ∈ r.due)
    (hno : ∀ a, r.memory.known.lookup x ≠ some (some a)) (hx : x ∉ t.sweep r.memory) : ¬ t.desired.Mentions x := by
  intro hmentions
  rcases hok.due x hdue hmentions with hstale | ⟨a, _, ha, _⟩
  · exact hx (TickInput.mem_sweep.mpr (Or.inr ⟨(TickInput.mem_rows.mp hstale.1).1, Or.inl hstale⟩))
  · exact hno a ha

/-- An IP that is remembered under no uid, and that the tick does not see, is not remembered under one after it. -/
theorem unnamed_step (hno : ¬ (x ∈ t.sweep r.memory ∧ t.sweepFailed r.memory = false))
    (hnone : ∀ a, r.memory.known.lookup x ≠ some (some a))
    (hgone : x ∉ t.sweep r.memory → t.desired.clusterBackends.lookup x = none) (a : String) :
    (r.step t).memory.known.lookup x ≠ some (some a) := by
  rcases known_step hno with hkeep | ⟨-, hx, hnew⟩
  · rw [hkeep]
    exact hnone a
  · rw [hnew, hgone hx]
    exact fun h => nomatch h

/-- A due IP that is remembered under no uid stays so until it is swept. -/
theorem TickOk.due_unnamed_step (hok : TickOk r t) (hdue : x ∈ r.due)
    (hnone : ∀ a, r.memory.known.lookup x ≠ some (some a))
    (hno : ¬ (x ∈ t.sweep r.memory ∧ t.sweepFailed r.memory = false)) :
    x ∈ (r.step t).due ∧ ∀ a, (r.step t).memory.known.lookup x ≠ some (some a) := by
  refine ⟨due_step_of_due hdue hno, unnamed_step hno hnone fun hx => ?_⟩
  exact not_not.mp fun hsome => hok.not_mentioned hdue hnone hx (Or.inl hsome)

/-- What a tick leaves in memory for an IP it sees: the owner it saw, unless the IP is due, and remembered as before. -/
theorem TickOk.known_step_of_seen (hok : TickOk r t) (hsome : t.desired.clusterBackends.lookup x ≠ none) :
    (r.step t).memory.known.lookup x = t.desired.clusterBackends.lookup x ∨
      x ∈ (r.step t).due ∧ (r.step t).memory.known.lookup x = r.memory.known.lookup x := by
  have hknown : (r.step t).memory.known.lookup x = _ := TickMemory.lookup_known_step
  by_cases hupdate : t.desired.podTargetsKnown = true ∧ ¬ (t.sweepFailed r.memory = true ∧ x ∈ t.sweep r.memory)
  · rw [if_pos hupdate] at hknown
    exact Or.inl hknown
  · rw [if_neg hupdate] at hknown
    cases hpods : t.desired.podTargetsKnown with
    | false => exact Or.inl (hknown.trans (hok.unknown hpods x (Or.inl hsome)).2)
    | true =>
      obtain ⟨hfailed, hx⟩ := not_not.mp fun hstill => hupdate ⟨hpods, hstill⟩
      refine Or.inr ⟨mem_due_step.mpr (Or.inl ?_), hknown⟩
      rw [if_pos hfailed]
      exact Or.inr hx

end

/-! ## A run of ticks -/

section
variable {ts : List TickInput} {x : Bytes 16}

theorem runAt_succ {n : Nat} {t : TickInput} (ht : ts[n]? = some t) : runAt ts (n + 1) = (runAt ts n).step t := by
  rw [runAt, List.take_add_one, ht, Option.toList_some, List.foldl_append]
  rfl

theorem ownerAt_eq {n : Nat} {t : TickInput} (ht : ts[n]? = some t) :
    ownerAt ts x n = t.desired.clusterBackends.lookup x := by
  rw [ownerAt, ht]
  rfl

/-- A tick keeps its IPs unswept unless it sweeps them. -/
theorem not_swept_iff {n : Nat} {t : TickInput} (ht : ts[n]? = some t) :
    ¬ Swept ts x n ↔ ¬ (x ∈ t.sweep (runAt ts n).memory ∧ t.sweepFailed (runAt ts n).memory = false) := by
  refine not_congr ⟨?_, fun h => ⟨t, ht, h⟩⟩
  rintro ⟨t', ht', h⟩
  obtain rfl := Option.some_inj.mp (ht'.symm.trans ht)
  exact h

/-- Tick `m` saw an owner of the IP that has to be swept away: one with a known uid, or one that left. -/
def Owed (ts : List TickInput) (x : Bytes 16) (n m : Nat) : Prop :=
  (∃ a, ownerAt ts x m = some (some a)) ∨
    (ownerAt ts x m ≠ none ∧ m + 1 < n ∧ ownerAt ts x (m + 1) = none)

/-- What memory holds of an IP before tick `n`. -/
structure Remembers (ts : List TickInput) (x : Bytes 16) (n : Nat) : Prop where
  /-- an owner that is owed a sweep was there before the one in memory, or the IP is due -/
  owed : ∀ m, m < n → ¬ SweptSince ts x m (n - 1) → Owed ts x n m →
    (∃ a m', m' ≤ m ∧ (runAt ts n).memory.known.lookup x = some (some a) ∧ ownerAt ts x m' = some (some a)) ∨
      (x ∈ (runAt ts n).due ∧ ∀ a, (runAt ts n).memory.known.lookup x ≠ some (some a))
  /-- an owner without a uid that was just seen is remembered as such, or due -/
  anonymous : ∀ m, m + 1 = n → ownerAt ts x m = some none →
    (runAt ts n).memory.known.lookup x = some none ∨
      ((runAt ts n).memory.known.lookup x = none ∧ x ∈ (runAt ts n).due)
  /-- what is in memory was seen -/
  seen : ∀ u, (runAt ts n).memory.known.lookup x = some u → ∃ m, m < n ∧ ownerAt ts x m = some u

/-- An owner that is owed a sweep, at a tick after it that does not sweep the IP. -/
theorem Remembers.owed_before {n m : Nat} {t : TickInput} (h : Remembers ts x n) (ht : ts[n]? = some t)
    (hok : TickOk (runAt ts n) t) (hlt : m < n) (hunswept : ¬ SweptSince ts x m n) (howed : Owed ts x (n + 1) m) :
    (∃ a m', m' ≤ m ∧ ((runAt ts n).step t).memory.known.lookup x = some (some a) ∧ ownerAt ts x m' = some (some a)) ∨
      (x ∈ ((runAt ts n).step t).due ∧ ∀ a, ((runAt ts n).step t).memory.known.lookup x ≠ some (some a)) := by
  have hno := (not_swept_iff (x := x) ht).mp fun hswept => hunswept ⟨n, hlt, Nat.le_refl n, hswept⟩
  have hbefore : ¬ SweptSince ts x m (n - 1) := by
    rintro ⟨j, hj, hjn, hswept⟩
    exact hunswept ⟨j, hj, by omega, hswept⟩
  by_cases hold : Owed ts x n m
  · rcases h.owed m hlt hbefore hold with ⟨a, m', hm', ha, hseen⟩ | ⟨hdue, hnone⟩
    · refine Or.inl ⟨a, m', hm', ?_, hseen⟩
      rcases known_step hno with hkeep | ⟨hpods, hx, hnew⟩
      · rw [hkeep, ha]
      · rw [hnew, hok.same_uid hpods hx ha]
    · exact Or.inr (hok.due_unnamed_step hdue hnone hno)
  · -- the owner the tick before saw has just left, and had no uid
    rcases howed with hnamed | ⟨hsome, hnext, hleft⟩
    · exact absurd (Or.inl hnamed) hold
    · have hmn : m + 1 = n := by
        by_contra hne
        exact hold (Or.inr ⟨hsome, by omega, hleft⟩)
      have hanon : ownerAt ts x m = some none := by
        rcases hu : ownerAt ts x m with _ | _ | a
        · exact absurd hu hsome
        · rfl
        · exact absurd (Or.inl ⟨a, hu⟩) hold
      have hgone : t.desired.clusterBackends.lookup x = none := by rw [← ownerAt_eq ht, ← hmn, hleft]
      right
      rcases h.anonymous m hmn hanon with hknown | ⟨hknown, hdue⟩
      · refine ⟨due_step_of_left ?_ hgone hno, unnamed_step hno (fun a => ?_) fun _ => hgone⟩
        · rw [hknown]
          exact fun h => nomatch h
        · rw [hknown]
          exact fun h => nomatch h
      · refine ⟨due_step_of_due hdue hno, unnamed_step hno (fun a => ?_) fun _ => hgone⟩
        rw [hknown]
        exact fun h => nomatch h

/-- The owner that the tick itself sees. -/
theorem Remembers.owed_now {n : Nat} {t : TickInput} (h : Remembers ts x n) (ht : ts[n]? = some t)
    (hok : TickOk (runAt ts n) t) (howed : Owed ts x (n + 1) n) :
    (∃ a m', m' ≤ n ∧ ((runAt ts n).step t).memory.known.lookup x = some (some a) ∧ ownerAt ts x m' = some (some a)) ∨
      (x ∈ ((runAt ts n).step t).due ∧ ∀ a, ((runAt ts n).step t).memory.known.lookup x ≠ some (some a)) := by
  rcases howed with ⟨b, hb⟩ | ⟨-, habs, -⟩
  · have hseen : t.desired.clusterBackends.lookup x = some (some b) := (ownerAt_eq ht).symm.trans hb
    rcases hok.known_step_of_seen (by rw [hseen]; exact fun h => nomatch h) with hknown | ⟨hdue, hknown⟩
    · exact Or.inl ⟨b, n, Nat.le_refl n, hknown.trans hseen, hb⟩
    · by_cases hnamed : ∃ a, (runAt ts n).memory.known.lookup x = some (some a)
      · obtain ⟨a, ha⟩ := hnamed
        obtain ⟨m', hm', hseen⟩ := h.seen (some a) ha
        exact Or.inl ⟨a, m', hm'.le, hknown.trans ha, hseen⟩
      · exact Or.inr ⟨hdue, fun a ha => hnamed ⟨a, hknown.symm.trans ha⟩⟩
  · exact absurd habs (Nat.lt_irrefl _)

/-- **The step.** A tick that keeps the memory whole keeps what memory holds of every IP. -/
theorem Remembers.step {n : Nat} {t : TickInput} (h : Remembers ts x n) (ht : ts[n]? = some t)
    (hok : TickOk (runAt ts n) t) : Remembers ts x (n + 1) := by
  have hsucc := runAt_succ ht
  have howner : ownerAt ts x n = t.desired.clusterBackends.lookup x := ownerAt_eq ht
  refine ⟨fun m hm hunswept howed => ?_, fun m hm hanon => ?_, fun u hu => ?_⟩
  · rw [Nat.add_sub_cancel] at hunswept
    rw [hsucc]
    rcases Nat.lt_succ_iff_lt_or_eq.mp hm with hlt | rfl
    · exact h.owed_before ht hok hlt hunswept howed
    · exact h.owed_now ht hok howed
  · obtain rfl : m = n := Nat.succ_injective hm
    rw [hsucc]
    rw [howner] at hanon
    rcases hok.known_step_of_seen (by rw [hanon]; exact fun h => nomatch h) with hknown | ⟨hdue, hknown⟩
    · exact Or.inl (hknown.trans hanon)
    · rcases hu : (runAt ts m).memory.known.lookup x with _ | _ | a
      · exact Or.inr ⟨hknown.trans hu, hdue⟩
      · exact Or.inl (hknown.trans hu)
      · exact absurd hanon (hok.uid x a hu)
  · have hstep : ((runAt ts n).step t).memory.known.lookup x = _ := TickMemory.lookup_known_step
    rw [hsucc, hstep] at hu
    split at hu
    · exact ⟨n, Nat.lt_succ_self n, howner.trans hu⟩
    · obtain ⟨m, hm, hseen⟩ := h.seen u hu
      exact ⟨m, Nat.lt_succ_of_lt hm, hseen⟩

/-- **The run.** -/
theorem remembers (hok : Along TickRun.step TickOk {} ts) {n : Nat} (hn : n ≤ ts.length) : Remembers ts x n := by
  induction n with
  | zero =>
    refine ⟨fun m hm => absurd hm (Nat.not_lt_zero m), fun m hm => absurd hm (Nat.succ_ne_zero m), fun u hu => ?_⟩
    exact absurd hu fun h => nomatch h
  | succ n ih =>
    have ht : ts[n]? = some ts[n] := List.getElem?_eq_getElem hn
    refine (ih (Nat.le_of_succ_le hn)).step ht (along_iff.mp hok (ts.take n) ts[n] (ts.drop (n + 1)) ?_)
    rw [List.getElem_cons_drop, List.take_append_drop]

/-- A row left behind whose sweep is still to come: swept since, or due and not remembered. -/
theorem row_due (hok : Along TickRun.step TickOk {} ts) {k : Nat} {t : TickInput} (ht : ts[k]? = some t)
    (hrow : x ∈ t.rows) (hstale : x ∉ t.desired.podTargets) (hnever : ∀ m, m ≤ k → ownerAt ts x m = none) {i : Nat}
    (hki : k < i) (hi : i ≤ ts.length) :
    (∃ j, k ≤ j ∧ j < i ∧ Swept ts x j) ∨
      (x ∈ (runAt ts i).due ∧ ∀ a, (runAt ts i).memory.known.lookup x ≠ some (some a)) := by
  induction i with
  | zero => exact absurd hki (Nat.not_lt_zero k)
  | succ i ih =>
    have hti : ts[i]? = some ts[i] := List.getElem?_eq_getElem hi
    have htick : TickOk (runAt ts i) ts[i] := along_iff.mp hok (ts.take i) ts[i] (ts.drop (i + 1))
      (by rw [List.getElem_cons_drop, List.take_append_drop])
    by_cases hswept : Swept ts x i
    · exact Or.inl ⟨i, Nat.lt_succ_iff.mp hki, Nat.lt_succ_self i, hswept⟩
    · have hno := (not_swept_iff (x := x) hti).mp hswept
      rcases Nat.lt_succ_iff_lt_or_eq.mp hki with hlt | rfl
      · rcases ih hlt (Nat.le_of_succ_le hi) with ⟨j, hj, hji, hswept⟩ | ⟨hdue, hnone⟩
        · exact Or.inl ⟨j, hj, Nat.lt_succ_of_lt hji, hswept⟩
        · rw [runAt_succ hti]
          exact Or.inr (htick.due_unnamed_step hdue hnone hno)
      · -- the tick that finds the row
        obtain rfl := Option.some_inj.mp (hti.symm.trans ht)
        have hx : x ∈ ts[k].sweep (runAt ts k).memory :=
          TickInput.mem_sweep.mpr (Or.inr ⟨(TickInput.mem_rows.mp hrow).1, Or.inl ⟨hrow, hstale⟩⟩)
        have hfailed : ts[k].sweepFailed (runAt ts k).memory = true := by
          by_contra hfailed
          exact hno ⟨hx, Bool.eq_false_iff.mpr hfailed⟩
        right
        rw [runAt_succ hti]
        refine ⟨mem_due_step.mpr (Or.inl ?_), fun a ha => ?_⟩
        · rw [if_pos hfailed]
          exact Or.inr hx
        · rcases known_step hno with hkeep | ⟨_, hnot, _⟩
          · obtain ⟨m, hm, hseen⟩ := (remembers hok (Nat.le_of_succ_le hi)).seen (some a) (hkeep.symm.trans ha)
            rw [hnever m hm.le] at hseen
            cases hseen
          · exact hnot hx

/-- **A reused IP is swept before it is installed**, in every run whose ticks keep the memory whole. -/
theorem swept_before_installed (hok : Along TickRun.step TickOk {} ts) {n : Nat} {t : TickInput}
    (ht : ts[n]? = some t) (hnames : (t.plan (runAt ts n).memory).Names x) : SweptBeforeInstalled ts x n := by
  obtain ⟨hn, rfl⟩ := List.getElem?_eq_some_iff.mp ht
  have htick : TickOk (runAt ts n) ts[n] := along_iff.mp hok (ts.take n) ts[n] (ts.drop (n + 1))
    (by rw [List.getElem_cons_drop, List.take_append_drop])
  obtain ⟨hmentions, hpending⟩ := TickInput.plan_names hnames
  by_cases hswept : Swept ts x n
  · exact ⟨fun m _ _ hm _ _ _ => Or.inl ⟨n, hm, Nat.le_refl n, hswept⟩,
      fun m hm _ _ => Or.inl ⟨n, hm, Nat.le_refl n, hswept⟩,
      fun k _ hk _ _ _ _ => ⟨n, hk, Nat.le_refl n, hswept⟩⟩
  -- the tick does not sweep the IP: it is installed because nothing is known against it
  have hno := (not_swept_iff (x := x) ht).mp hswept
  have hx : x ∉ ts[n].sweep (runAt ts n).memory := by
    intro hx
    cases hfailed : ts[n].sweepFailed (runAt ts n).memory with
    | true => exact hpending ⟨hfailed, hx⟩
    | false => exact hno ⟨hx, hfailed⟩
  have hmem := remembers (x := x) hok hn.le
  have howed : ∀ m, m < n → Owed ts x n m → SweptSince ts x m n ∨ Back ts x m n := by
    intro m hm howed
    by_cases hsince : SweptSince ts x m (n - 1)
    · obtain ⟨j, hj, hjn, hswept⟩ := hsince
      exact Or.inl ⟨j, hj, by omega, hswept⟩
    · rcases hmem.owed m hm hsince howed with ⟨a, m', hm', ha, hseen⟩ | ⟨hdue, hnone⟩
      · refine Or.inr ⟨m', a, hm', hseen, (ownerAt_eq ht).trans ?_⟩
        cases hpods : ts[n].desired.podTargetsKnown with
        | true => exact htick.same_uid hpods hx ha
        | false => rw [← (htick.unknown hpods x hmentions).2, ha]
      · exact absurd hmentions (htick.not_mentioned hdue hnone hx)
  refine ⟨fun m a b hm ha _ _ => howed m hm (Or.inl ⟨a, ha⟩), ?_, ?_⟩
  · intro m hm hsome hleft
    by_cases hnext : m + 1 < n
    · exact howed m hm (Or.inr ⟨hsome, hnext, hleft⟩)
    · -- it has just left, and is still named
      obtain rfl : m + 1 = n := by omega
      have hgone : ts[m + 1].desired.clusterBackends.lookup x = none := (ownerAt_eq ht).symm.trans hleft
      rcases hu : ownerAt ts x m with _ | _ | a
      · exact absurd hu hsome
      · rcases hmem.anonymous m rfl hu with hknown | ⟨hknown, hdue⟩
        · cases hpods : ts[m + 1].desired.podTargetsKnown with
          | true =>
            refine absurd (TickInput.mem_sweep.mpr (Or.inr ⟨hpods, Or.inr (Or.inl ⟨?_, hgone⟩)⟩)) hx
            rw [hknown]
            exact fun h => nomatch h
          | false => exact absurd hgone (htick.unknown hpods x hmentions).1
        · refine absurd hmentions (htick.not_mentioned hdue (fun a => ?_) hx)
          rw [hknown]
          exact fun h => nomatch h
      · exact howed m hm (Or.inl ⟨a, hu⟩)
  · intro k t hk htk hrow hstale hnever
    rcases Nat.lt_or_eq_of_le hk with hlt | rfl
    · rcases row_due hok htk hrow hstale hnever hlt hn.le with ⟨j, hj, hjn, hswept⟩ | ⟨hdue, hnone⟩
      · exact ⟨j, hj, hjn.le, hswept⟩
      · exact absurd hmentions (htick.not_mentioned hdue hnone hx)
    · obtain rfl := Option.some_inj.mp (htk.symm.trans ht)
      exact absurd (TickInput.mem_sweep.mpr (Or.inr ⟨(TickInput.mem_rows.mp hrow).1, Or.inl ⟨hrow, hstale⟩⟩)) hx

end

/-! ## A reuse that is swept, and one that is not -/

/-- The pod IP the two runs are about. -/
def reusedIp : Bytes 16 := Vector.replicate 16 7

/-- A front with one slot, on that IP. -/
def reusedFront : DesiredFront where
  flags := 0
  preferLocal := false
  endpoints := [⟨⟨reusedIp, reusedIp⟩, 0, 0, Vector.replicate 4 0⟩]

/-- The IP belongs to the pod with the given uid and is fronted. -/
def ownedBy (uid : String) (podTargetsKnown : Bool) : TickInput where
  desired :=
    { fronts := (∅ : Table LbFrontKey DesiredFront).insert ⟨reusedIp, 80, ipprotoTcp, 0⟩ reusedFront
      clusterBackends := (∅ : Table (Bytes 16) (Option String)).insert reusedIp (some uid)
      frontsKnown := true
      podTargetsKnown }
  installed := []
  pinned := some ∅
  evict := fun _ => true

theorem lookup_ownedBy (uid : String) (known : Bool) (x : Bytes 16) :
    (ownedBy uid known).desired.clusterBackends.lookup x = if x = reusedIp then some (some uid) else none := by
  show ((∅ : Table (Bytes 16) (Option String)).insert reusedIp (some uid)).lookup x = _
  rw [Table.lookup_insert_ite]
  rfl

theorem ownedBy_names (known : Bool) : ((ownedBy "b" known).plan
    (runAt [ownedBy "a" true, ownedBy "b" known] 1).memory).Names reusedIp := by
  refine Or.inr ⟨⟨reusedIp, 80, ipprotoTcp, 0⟩, reusedFront, ?_, by decide⟩
  cases known with
  | true => decide
  | false => decide

/-- The next tick sees the IP under another uid, and sweeps it. -/
theorem swept_before_installed_two_ticks :
    Along TickRun.step TickOk {} [ownedBy "a" true, ownedBy "b" true] ∧
      SweptBeforeInstalled [ownedBy "a" true, ownedBy "b" true] reusedIp 1 := by
  have hsome : ∀ uid x, (ownedBy uid true).desired.clusterBackends.lookup x ≠ some none := by
    intro uid x
    rw [lookup_ownedBy]
    split <;> exact fun h => nomatch h
  have hok : Along TickRun.step TickOk {} [ownedBy "a" true, ownedBy "b" true] := by
    refine ⟨⟨(fun h => nomatch h), fun x _ _ => hsome "a" x, fun x hx => absurd hx (Finset.notMem_empty x)⟩,
      ⟨(fun h => nomatch h), fun x _ _ => hsome "b" x, fun x hx => ?_⟩, trivial⟩
    have hdue : (TickRun.step {} (ownedBy "a" true)).due = ∅ := by decide
    rw [hdue] at hx
    exact absurd hx (Finset.notMem_empty x)
  exact ⟨hok, swept_before_installed hok rfl (ownedBy_names true)⟩

/-- The rows a tick reads are the ones the ticks before left: nothing but a plan adds one, nor deletes one. -/
def RowsConsistent (ts : List TickInput) : Prop :=
  ∀ i t t', ts[i]? = some t → ts[i + 1]? = some t' →
    (∀ y ∈ t'.installed, y ∈ t.installed ∨
      (t.desired.podTargetsKnown = true ∧ y ∈ (t.plan (runAt ts i).memory).podTargets)) ∧
    ∀ y ∈ t.installed, y ∉ (t.plan (runAt ts i).memory).deleteRows → y ∈ t'.installed

/-- While the node's own Node is unknown, a reused IP is installed unswept. -/
theorem not_swept_before_installed : ¬ ∀ ts : List TickInput, (∀ t ∈ ts, t.desired.frontsKnown = true) →
    RowsConsistent ts → ∀ n t x, ts[n]? = some t → (t.plan (runAt ts n).memory).Names x →
      SweptBeforeInstalled ts x n := by
  intro hswept
  have hrun := hswept [ownedBy "a" true, ownedBy "b" false] ?_ ?_ 1 (ownedBy "b" false) reusedIp rfl
    (ownedBy_names false)
  · have hnotSwept : reusedIp ∉ (ownedBy "b" false).sweep
        (runAt [ownedBy "a" true, ownedBy "b" false] 1).memory := by decide
    rcases hrun.reused 0 "a" "b" Nat.one_pos rfl rfl (by decide) with ⟨j, hj, hjn, t, ht, hx, _⟩ |
      ⟨m, uid, hm, hbefore, hnow⟩
    · obtain rfl : j = 1 := by omega
      obtain rfl := Option.some_inj.mp ht
      exact hnotSwept hx
    · obtain rfl := Nat.le_zero.mp hm
      have ha : uid = "a" := Option.some_inj.mp (Option.some_inj.mp hbefore.symm)
      have hb : uid = "b" := Option.some_inj.mp (Option.some_inj.mp hnow.symm)
      rw [ha] at hb
      exact absurd hb (by decide)
  · intro t ht
    rcases List.mem_pair.mp ht with rfl | rfl <;> rfl
  · intro i t t' ht ht'
    have hnone : ∀ t ∈ [ownedBy "a" true, ownedBy "b" false], t.installed = [] := by
      intro t ht
      rcases List.mem_pair.mp ht with rfl | rfl <;> rfl
    rw [hnone t (List.mem_of_getElem? ht), hnone t' (List.mem_of_getElem? ht')]
    exact ⟨fun y hy => absurd hy List.not_mem_nil, fun y hy => absurd hy List.not_mem_nil⟩

end Beep
