import Beep.Controller.Publish

/-!
# `Controller.Correctness.Retries` — no failed attempt is forgotten

`PublishRetry` keeps one deadline for all Services whose publish or clear failed. The retry loop disarms it when it hands
the failed ones out (`take_due`), and the attempts it then makes end later, in any order and between the records of others.

The deadline may therefore be disarmed while there are failures, but then every one of them was handed out and not recorded
since (`Deadline.unarmed`): a failure is recorded with the deadline armed, and what disarms it hands out all of them or
leaves none.
-/

namespace Beep

/-- An operation on the record of failed attempts. -/
inductive RetryOp where
  | record (key : ServiceKey) (ok clear : Bool) (now : Instant)
  | deferClear (key : ServiceKey)
  | takeDue (now : Instant)

namespace RetryOp

/-- The record after the operation. -/
def apply (r : PublishRetry) : RetryOp → PublishRetry
  | record key ok clear now => r.record key ok clear now
  | deferClear key => r.deferClear key
  | takeDue now => (r.takeDue now).1

/-- When the operation is made; `defer_clear` reads no clock. -/
def time : RetryOp → Option Instant
  | record _ _ _ now => some now
  | deferClear _ => none
  | takeDue now => some now

/-- When the operation records a failure. -/
def failedAt : RetryOp → Option Instant
  | record _ ok _ now => if ok then none else some now
  | deferClear _ => none
  | takeDue _ => none

/-- The outcome of an attempt for the Service is recorded. -/
def Records (key : ServiceKey) : RetryOp → Prop
  | record other _ _ _ => other = key
  | deferClear _ => False
  | takeDue _ => False

/-- The outcome is recorded, or the attempt is deferred. -/
def Settles (key : ServiceKey) : RetryOp → Prop
  | record other _ _ _ => other = key
  | deferClear other => other = key
  | takeDue _ => False

theorem time_of_failedAt {op : RetryOp} {now : Instant} (h : op.failedAt = some now) : op.time = some now := by
  cases op with
  | record key ok clear t =>
    cases ok with
    | true => cases h
    | false => exact h
  | deferClear key => cases h
  | takeDue t => cases h

end RetryOp

/-! ## Runs of operations -/

/-- The record after a run. -/
def retryAfter (ops : List RetryOp) : PublishRetry := ops.foldl RetryOp.apply {}

/-- The clock does not go back. -/
def InOrder (ops : List RetryOp) : Prop := (ops.filterMap RetryOp.time).Pairwise (· ≤ ·)

instance (ops : List RetryOp) : Decidable (InOrder ops) := inferInstanceAs (Decidable (List.Pairwise _ _))

/-- `take_due` handed the Service out, and no outcome was recorded nor the attempt deferred since. -/
def Outstanding (ops : List RetryOp) (key : ServiceKey) : Prop :=
  ∃ before now after clear, ops = before ++ .takeDue now :: after ∧
    (key, clear) ∈ ((retryAfter before).takeDue now).2 ∧ ∀ op ∈ after, ¬ op.Settles key

/-- When a failure was recorded last. -/
def lastFailure (ops : List RetryOp) : Option Instant := (ops.filterMap RetryOp.failedAt).getLast?

theorem retryAfter_concat (ops : List RetryOp) (op : RetryOp) :
    retryAfter (ops ++ [op]) = RetryOp.apply (retryAfter ops) op := by
  unfold retryAfter
  rw [List.foldl_append]
  rfl

theorem InOrder.before {ops : List RetryOp} {op : RetryOp} (h : InOrder (ops ++ [op])) : InOrder ops := by
  unfold InOrder at h
  rw [List.filterMap_append] at h
  exact (List.pairwise_append.mp h).1

theorem lastFailure_concat (ops : List RetryOp) (op : RetryOp) :
    lastFailure (ops ++ [op]) = op.failedAt.or (lastFailure ops) := by
  unfold lastFailure
  rw [List.filterMap_append, List.getLast?_append]
  cases hfailed : op.failedAt with
  | none => simp [hfailed]
  | some now => simp [hfailed]

/-- An operation is not before the last recorded failure. -/
theorem InOrder.failure_le {ops : List RetryOp} {op : RetryOp} {t now : Instant} (h : InOrder (ops ++ [op]))
    (hlast : lastFailure ops = some t) (hnow : op.time = some now) : t ≤ now := by
  unfold InOrder at h
  rw [List.filterMap_append] at h
  obtain ⟨failing, hmem, hfailed⟩ := List.mem_filterMap.mp (List.mem_of_getLast? hlast)
  refine (List.pairwise_append.mp h).2.2 t ?_ now ?_
  · exact List.mem_filterMap.mpr ⟨failing, hmem, RetryOp.time_of_failedAt hfailed⟩
  · exact List.mem_filterMap.mpr ⟨op, List.mem_singleton_self op, hnow⟩

/-- What is handed out stays so until the attempt's outcome comes in. -/
theorem Outstanding.concat {ops : List RetryOp} {key : ServiceKey} {op : RetryOp} (h : Outstanding ops key)
    (hop : ¬ op.Settles key) : Outstanding (ops ++ [op]) key := by
  obtain ⟨before, now, after, clear, rfl, hmem, hafter⟩ := h
  refine ⟨before, now, after ++ [op], clear, by simp, hmem, fun other hother => ?_⟩
  rcases List.mem_append.mp hother with hother | hother
  · exact hafter other hother
  · rw [List.mem_singleton.mp hother]
    exact hop

/-! ## The deadline -/

namespace RetryBackoff

/-- A failure leaves a deadline: the one that was armed, or a new one within `RETRY_MAX`. -/
theorem record_failure (b : RetryBackoff) (now : Instant) :
    ∃ retryAt, (b.record false now).retryAt = some retryAt ∧
      (b.retryAt = some retryAt ∨ retryAt ≤ now + retryMax) := by
  unfold record
  simp only [Bool.false_eq_true, if_false]
  split
  · rename_i harmed
    cases hb : b.retryAt with
    | none =>
      rw [hb] at harmed
      cases harmed
    | some retryAt => exact ⟨retryAt, rfl, Or.inl rfl⟩
  · exact ⟨_, rfl, Or.inr (Nat.add_le_add_left (Nat.min_le_right _ _) now)⟩

end RetryBackoff

/-- **The invariant.** An armed deadline is within `RETRY_MAX` of the last failure, and while there is none every failed
    Service is handed out. -/
structure Deadline (ops : List RetryOp) : Prop where
  armed : ∀ retryAt, (retryAfter ops).backoff.retryAt = some retryAt →
    ∃ t, lastFailure ops = some t ∧ retryAt ≤ t + retryMax
  unarmed : (retryAfter ops).backoff.retryAt = none → ∀ key, (retryAfter ops).Failed key → Outstanding ops key

theorem deadline_nil : Deadline [] where
  armed := by
    intro retryAt h
    cases h
  unarmed := by
    rintro - key ⟨clear, h⟩
    cases h

/-- An operation that leaves the deadline or resets it, and makes nothing failed. -/
theorem Deadline.keep {ops : List RetryOp} {op : RetryOp} (h : Deadline ops) (hfailed : op.failedAt = none)
    (hbackoff : (retryAfter (ops ++ [op])).backoff = (retryAfter ops).backoff ∨
      (retryAfter (ops ++ [op])).backoff = {} ∧ ∀ key, ¬ (retryAfter (ops ++ [op])).Failed key)
    (hkeys : ∀ key, (retryAfter (ops ++ [op])).Failed key → (retryAfter ops).Failed key ∧ ¬ op.Settles key) :
    Deadline (ops ++ [op]) := by
  constructor
  · intro retryAt harmed
    rw [lastFailure_concat, hfailed, Option.none_or]
    rcases hbackoff with hsame | ⟨hreset, -⟩
    · rw [hsame] at harmed
      exact h.armed retryAt harmed
    · rw [hreset] at harmed
      cases harmed
  · intro hnone key hkey
    rcases hbackoff with hsame | ⟨-, hnokey⟩
    · rw [hsame] at hnone
      obtain ⟨hbefore, hop⟩ := hkeys key hkey
      exact (h.unarmed hnone key hbefore).concat hop
    · exact absurd hkey (hnokey key)

/-- **One operation** keeps the invariant. -/
theorem Deadline.step {ops : List RetryOp} (h : Deadline ops) (op : RetryOp) (horder : InOrder (ops ++ [op])) :
    Deadline (ops ++ [op]) := by
  cases op with
  | deferClear other =>
    refine h.keep rfl ?_ ?_
    · rw [retryAfter_concat]
      exact (retryAfter ops).backoff_deferClear other
    · rintro key ⟨clear, hkey⟩
      rw [retryAfter_concat] at hkey
      replace hkey : ((retryAfter ops).deferClear other).keys.lookup key = some (.failed clear) := hkey
      rw [PublishRetry.lookup_deferClear] at hkey
      split at hkey
      · cases hkey
      · rename_i hne
        exact ⟨⟨clear, hkey⟩, Ne.symm hne⟩
  | takeDue now =>
    cases hdue : (retryAfter ops).backoff.due now with
    | false =>
      have hsame : retryAfter (ops ++ [.takeDue now]) = retryAfter ops := by
        rw [retryAfter_concat]
        show ((retryAfter ops).takeDue now).1 = retryAfter ops
        unfold PublishRetry.takeDue
        rw [hdue]
        rfl
      refine h.keep rfl (Or.inl (by rw [hsame])) fun key hkey => ?_
      rw [hsame] at hkey
      exact ⟨hkey, not_false⟩
    | true =>
      -- what disarms the deadline hands out all that failed
      constructor
      · intro retryAt harmed
        rw [retryAfter_concat] at harmed
        replace harmed : ((retryAfter ops).takeDue now).1.backoff.retryAt = some retryAt := harmed
        unfold PublishRetry.takeDue at harmed
        rw [hdue] at harmed
        cases harmed
      · rintro - key ⟨clear, hkey⟩
        rw [retryAfter_concat] at hkey
        replace hkey : ((retryAfter ops).takeDue now).1.keys.lookup key = some (.failed clear) := hkey
        rw [PublishRetry.keys_takeDue] at hkey
        refine ⟨ops, now, [], clear, rfl, (PublishRetry.mem_takeDue _).mpr ⟨hdue, hkey⟩, fun op hop => ?_⟩
        cases hop
  | record other ok clear now =>
    cases ok with
    | true =>
      refine h.keep rfl ?_ ?_
      · rw [retryAfter_concat]
        exact (retryAfter ops).backoff_record_success other clear now
      · rintro key ⟨c, hkey⟩
        rw [retryAfter_concat] at hkey
        replace hkey : ((retryAfter ops).record other true clear now).keys.lookup key = some (.failed c) := hkey
        rw [PublishRetry.lookup_record] at hkey
        split at hkey
        · cases hkey
        · rename_i hne
          exact ⟨⟨c, hkey⟩, Ne.symm hne⟩
    | false =>
      -- a failure leaves a deadline
      obtain ⟨retryAt, hretry, hwhich⟩ := (retryAfter ops).backoff.record_failure now
      have hbackoff : (retryAfter (ops ++ [.record other false clear now])).backoff.retryAt = some retryAt := by
        rw [retryAfter_concat]
        exact hretry
      constructor
      · intro at' harmed
        rw [hbackoff] at harmed
        obtain rfl := Option.some_inj.mp harmed
        refine ⟨now, by rw [lastFailure_concat]; rfl, ?_⟩
        rcases hwhich with hold | hnew
        · obtain ⟨t, hlast, hle⟩ := h.armed retryAt hold
          have htime := horder.failure_le hlast rfl
          exact Nat.le_trans hle (Nat.add_le_add_right htime retryMax)
        · exact hnew
      · intro hnone
        rw [hbackoff] at hnone
        cases hnone

/-- **Every run** keeps it. -/
theorem deadline_run (ops : List RetryOp) (horder : InOrder ops) : Deadline ops := by
  -- on the operations, the last one first
  induction ops using List.reverseRecOn with
  | nil => exact deadline_nil
  | append_singleton ops op ih => exact (ih horder.before).step op horder

/-! ## Deferred clears -/

/-- A deferred clear stays deferred until an outcome of the Service is recorded. -/
theorem lookup_deferred_apply {r : PublishRetry} {key : ServiceKey} {op : RetryOp}
    (h : r.keys.lookup key = some .deferredClear) (hop : ¬ op.Records key) :
    (op.apply r).keys.lookup key = some .deferredClear := by
  cases op with
  | record other ok clear now =>
    have hne : key ≠ other := fun hsame => hop hsame.symm
    exact (r.lookup_record_of_ne hne ok clear now).trans h
  | deferClear other =>
    show (r.deferClear other).keys.lookup key = _
    rw [PublishRetry.lookup_deferClear]
    split
    · rfl
    · exact h
  | takeDue now =>
    show (r.takeDue now).1.keys.lookup key = _
    rw [PublishRetry.keys_takeDue]
    exact h

theorem lookup_deferred_run {r : PublishRetry} {key : ServiceKey} {later : List RetryOp}
    (h : r.keys.lookup key = some .deferredClear) (hlater : ∀ op ∈ later, ¬ op.Records key) :
    (later.foldl RetryOp.apply r).keys.lookup key = some .deferredClear := by
  induction later generalizing r with
  | nil => exact h
  | cons op later ih =>
    exact ih (lookup_deferred_apply h (hlater op List.mem_cons_self)) fun o ho => hlater o (List.mem_cons_of_mem op ho)

/-! ## The record as a whole -/

/-- What a run leaves in the record. -/
structure RetriesKept (ops : List RetryOp) : Prop where
  /-- once nothing is handed out, what failed has a deadline, within `RETRY_MAX` of the last failure -/
  armed : ∀ key, (retryAfter ops).Failed key → (∀ other, ¬ Outstanding ops other) →
    ∃ retryAt t, (retryAfter ops).backoff.retryAt = some retryAt ∧ lastFailure ops = some t ∧ retryAt ≤ t + retryMax
  /-- any deadline is -/
  within : ∀ retryAt, (retryAfter ops).backoff.retryAt = some retryAt →
    ∃ t, lastFailure ops = some t ∧ retryAt ≤ t + retryMax
  /-- a deferred clear is pending and never due, until an outcome of the Service is recorded -/
  deferred : ∀ key later, (retryAfter ops).keys.lookup key = some .deferredClear →
    (∀ op ∈ later, ¬ op.Records key) →
      (retryAfter (ops ++ later)).keys.lookup key = some .deferredClear ∧
        key ∈ (retryAfter (ops ++ later)).pendingClears ∧
        ∀ now clear, (key, clear) ∉ ((retryAfter (ops ++ later)).takeDue now).2
  /-- a success of one Service leaves the deadline of another's failure -/
  undisturbed : ∀ key other clear now, other ≠ key → (retryAfter ops).Failed other →
    ((retryAfter ops).record key true clear now).backoff = (retryAfter ops).backoff

/-- **No retry is forgotten**, whatever is recorded, deferred and taken, in any order. -/
theorem no_retry_forgotten (ops : List RetryOp) (horder : InOrder ops) : RetriesKept ops where
  armed := by
    intro key hfailed hsettled
    have hdeadline := deadline_run ops horder
    cases hretry : (retryAfter ops).backoff.retryAt with
    | none => exact absurd (hdeadline.unarmed hretry key hfailed) (hsettled key)
    | some retryAt =>
      obtain ⟨t, hlast, hle⟩ := hdeadline.armed retryAt hretry
      exact ⟨retryAt, t, rfl, hlast, hle⟩
  within := (deadline_run ops horder).armed
  deferred := by
    intro key later hkey hlater
    have hstill : (retryAfter (ops ++ later)).keys.lookup key = some .deferredClear := by
      unfold retryAfter
      rw [List.foldl_append]
      exact lookup_deferred_run hkey hlater
    refine ⟨hstill, (PublishRetry.mem_pendingClears _).mpr (Or.inr hstill), fun now clear hdue => ?_⟩
    have hfailed := ((PublishRetry.mem_takeDue _).mp hdue).2
    rw [hstill] at hfailed
    cases hfailed
  undisturbed := by
    rintro key other clear now hne ⟨c, hother⟩
    rcases (retryAfter ops).backoff_record_success key clear now with hsame | ⟨-, hnone⟩
    · exact hsame
    · refine absurd ⟨c, ?_⟩ (hnone other)
      rw [PublishRetry.lookup_record_of_ne _ hne]
      exact hother

/-- Two Services fail, both are handed out; one fails again while the other is deferred. -/
def failedTwice : List RetryOp :=
  [.record ⟨"default", "web"⟩ false false 0, .record ⟨"default", "dns"⟩ false true (fromSecs 1),
    .takeDue (fromSecs 2), .deferClear ⟨"default", "dns"⟩, .record ⟨"default", "web"⟩ false false (fromSecs 3)]

theorem no_retry_forgotten_failed_twice : RetriesKept failedTwice := no_retry_forgotten failedTwice (by decide)

end Beep
