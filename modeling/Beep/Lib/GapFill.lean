import Mathlib.Data.List.Basic
import Mathlib.Logic.Function.Basic

/-!
# `Lib.GapFill` — writes that only fill gaps

A write gives a key a value if the key has none, and is answered that one is there otherwise; it may also be refused,
for reasons that are its table's own. Writes are tried one after the other, whatever they are answered (`after`,
`answers`), and the target keeps an account of them.

* what is there stays (`after_kept`), and what is new was written (`after_origin`);
* a write that landed left its key behind (`after_landed`);
* trying all writes again, when nothing is refused, comes to what trying them once would have (`after_again`).
-/

namespace GapFill

variable {ι κ ν ε : Type}

/-- What the keys of each table hold. -/
abbrev Contents (ι κ ν : Type) := ι → κ → Option ν

/-- A value for a key of a table. -/
structure Write (ι κ ν : Type) where
  table : ι
  key : κ
  value : ν

/-- What a write is answered. -/
inductive Answer (ε : Type) where
  | written
  | present
  | refused (e : ε)

/-- The key has a value now. -/
def Answer.landed : Answer ε → Bool
  | refused _ => false
  | _ => true

theorem Answer.landed_eq_false {a : Answer ε} : a.landed = false ↔ ∃ e, a = refused e := by
  cases a <;> simp [landed]

/-- A write that was tried, with what it found and what it was answered. -/
structure Attempt (ι κ ν ε : Type) where
  write : Write ι κ ν
  found : Contents ι κ ν
  answer : Answer ε

/-- The tables, and the writes that were tried on them. -/
structure Target (ι κ ν ε : Type) where
  contents : Contents ι κ ν
  attempts : List (Attempt ι κ ν ε)

variable [DecidableEq ι] [DecidableEq κ]

/-- The write is done. -/
def Contents.fill (c : Contents ι κ ν) (w : Write ι κ ν) : Contents ι κ ν :=
  Function.update c w.table (Function.update (c w.table) w.key (some w.value))

theorem Contents.fill_apply (c : Contents ι κ ν) (w : Write ι κ ν) (i : ι) (k : κ) :
    c.fill w i k = if i = w.table ∧ k = w.key then some w.value else c i k := by
  unfold fill
  by_cases hi : i = w.table
  · subst hi
    by_cases hk : k = w.key
    · subst hk
      simp
    · simp [hk]
  · simp [hi]

variable (refuse : List (Attempt ι κ ν ε) → Write ι κ ν → Option ε)

/-- What the write is answered: what refuses it may depend on all that was tried before. -/
def answer (t : Target ι κ ν ε) (w : Write ι κ ν) : Answer ε :=
  (refuse t.attempts w).elim (if (t.contents w.table w.key).isSome then .present else .written) .refused

/-- One write. -/
def tryWrite (t : Target ι κ ν ε) (w : Write ι κ ν) : Target ι κ ν ε where
  contents := if refuse t.attempts w = none ∧ t.contents w.table w.key = none then t.contents.fill w else t.contents
  attempts := t.attempts ++ [⟨w, t.contents, answer refuse t w⟩]

/-- One write after the other. -/
def after (t : Target ι κ ν ε) (ws : List (Write ι κ ν)) : Target ι κ ν ε := ws.foldl (tryWrite refuse) t

/-- What they are answered. -/
def answers : Target ι κ ν ε → List (Write ι κ ν) → List (Answer ε)
  | _, [] => []
  | t, w :: ws => answer refuse t w :: answers (tryWrite refuse t w) ws

variable {refuse} {t : Target ι κ ν ε} {w : Write ι κ ν} {ws : List (Write ι κ ν)} {i : ι} {k : κ} {v : ν}

/-! ## One write -/

omit [DecidableEq ι] [DecidableEq κ] in
theorem landed_answer : (answer refuse t w).landed = true ↔ refuse t.attempts w = none := by
  unfold answer
  cases refuse t.attempts w with
  | some e => simp [Answer.landed]
  | none => split <;> simp_all [Answer.landed]

/-- What is there stays. -/
theorem tryWrite_kept (h : t.contents i k = some v) : (tryWrite refuse t w).contents i k = some v := by
  simp only [tryWrite]
  split
  · rename_i hnew
    rw [Contents.fill_apply, if_neg, h]
    rintro ⟨rfl, rfl⟩
    rw [hnew.2] at h
    cases h
  · exact h

/-- What is new was written. -/
theorem tryWrite_origin (h : (tryWrite refuse t w).contents i k = some v) :
    t.contents i k = some v ∨ (t.contents i k = none ∧ w = ⟨i, k, v⟩) := by
  simp only [tryWrite] at h
  split at h
  · rename_i hnew
    rw [Contents.fill_apply] at h
    split at h
    · rename_i hkey
      obtain ⟨rfl, rfl⟩ := hkey
      obtain rfl := Option.some_inj.mp h
      exact Or.inr ⟨hnew.2, rfl⟩
    · exact Or.inl h
  · exact Or.inl h

/-- A write that landed left its key. -/
theorem tryWrite_landed (h : (answer refuse t w).landed = true) :
    (tryWrite refuse t w).contents w.table w.key ≠ none := by
  intro hnone
  cases hbefore : t.contents w.table w.key with
  | some v =>
    rw [tryWrite_kept hbefore] at hnone
    cases hnone
  | none =>
    simp only [tryWrite, if_pos (And.intro (landed_answer.mp h) hbefore), Contents.fill_apply] at hnone
    simp at hnone

/-! ## One after the other -/

theorem after_append (t : Target ι κ ν ε) (ws ws' : List (Write ι κ ν)) :
    after refuse t (ws ++ ws') = after refuse (after refuse t ws) ws' := List.foldl_append

theorem answers_append (t : Target ι κ ν ε) (ws ws' : List (Write ι κ ν)) :
    answers refuse t (ws ++ ws') = answers refuse t ws ++ answers refuse (after refuse t ws) ws' := by
  induction ws generalizing t with
  | nil => rfl
  | cons w ws ih => exact congrArg _ (ih (tryWrite refuse t w))

theorem after_kept (h : t.contents i k = some v) (ws : List (Write ι κ ν)) :
    (after refuse t ws).contents i k = some v := by
  induction ws generalizing t with
  | nil => exact h
  | cons w ws ih => exact ih (tryWrite_kept h)

/-- A key that is there stays. -/
theorem after_ne_none (h : t.contents i k ≠ none) (ws : List (Write ι κ ν)) :
    (after refuse t ws).contents i k ≠ none := by
  obtain ⟨v, hv⟩ := Option.ne_none_iff_exists'.mp h
  rw [after_kept hv]
  exact Option.some_ne_none v

theorem after_origin (h : (after refuse t ws).contents i k = some v) :
    t.contents i k = some v ∨ (t.contents i k = none ∧ ⟨i, k, v⟩ ∈ ws) := by
  induction ws generalizing t with
  | nil => exact Or.inl h
  | cons w ws ih =>
    rcases ih h with hthen | ⟨hnone, hmem⟩
    · rcases tryWrite_origin hthen with hbefore | ⟨hnone, rfl⟩
      · exact Or.inl hbefore
      · exact Or.inr ⟨hnone, List.mem_cons_self⟩
    · refine Or.inr ⟨?_, List.mem_cons_of_mem w hmem⟩
      cases hbefore : t.contents i k with
      | none => rfl
      | some v' =>
        rw [tryWrite_kept hbefore] at hnone
        cases hnone

/-- The writes all landed: their keys are there. -/
theorem after_landed (h : ∀ a ∈ answers refuse t ws, a.landed = true) (hw : w ∈ ws) :
    (after refuse t ws).contents w.table w.key ≠ none := by
  induction ws generalizing t with
  | nil => cases hw
  | cons w' ws ih =>
    rcases List.mem_cons.mp hw with rfl | hw
    · exact after_ne_none (tryWrite_landed (h _ List.mem_cons_self)) ws
    · exact ih (fun a ha => h a (List.mem_cons_of_mem _ ha)) hw

/-- The account of the writes: each found what the ones before it left. -/
theorem mem_attempts_after {a : Attempt ι κ ν ε} : a ∈ (after refuse t ws).attempts ↔ a ∈ t.attempts ∨
    ∃ before w rest, ws = before ++ w :: rest ∧
      a = ⟨w, (after refuse t before).contents, answer refuse (after refuse t before) w⟩ := by
  induction ws generalizing t with
  | nil => simp [after]
  | cons w ws ih =>
    show a ∈ (after refuse (tryWrite refuse t w) ws).attempts ↔ _
    rw [ih]
    simp only [tryWrite, List.mem_append, List.mem_singleton]
    constructor
    · rintro ((hold | rfl) | ⟨before, w', rest, rfl, rfl⟩)
      · exact Or.inl hold
      · exact Or.inr ⟨[], w, ws, rfl, rfl⟩
      · exact Or.inr ⟨w :: before, w', rest, rfl, rfl⟩
    · rintro (hold | ⟨before, w', rest, hws, rfl⟩)
      · exact Or.inl (Or.inl hold)
      · cases before with
        | nil =>
          obtain ⟨rfl, rfl⟩ := List.cons.inj hws
          exact Or.inl (Or.inr rfl)
        | cons b before =>
          obtain ⟨rfl, rfl⟩ := List.cons.inj hws
          exact Or.inr ⟨before, w', rest, rfl, rfl⟩

theorem mem_answers {a : Answer ε} : a ∈ answers refuse t ws ↔
    ∃ before w rest, ws = before ++ w :: rest ∧ a = answer refuse (after refuse t before) w := by
  induction ws generalizing t with
  | nil => simp [answers]
  | cons w ws ih =>
    rw [answers, List.mem_cons, ih]
    constructor
    · rintro (rfl | ⟨before, w', rest, rfl, rfl⟩)
      · exact ⟨[], w, ws, rfl, rfl⟩
      · exact ⟨w :: before, w', rest, rfl, rfl⟩
    · rintro ⟨before, w', rest, hws, rfl⟩
      cases before with
      | nil =>
        obtain ⟨rfl, rfl⟩ := List.cons.inj hws
        exact Or.inl rfl
      | cons b before =>
        obtain ⟨rfl, rfl⟩ := List.cons.inj hws
        exact Or.inr ⟨before, w', rest, rfl, rfl⟩

/-- A run records a refusal exactly if a write of it has not landed. -/
theorem attempt_refused_iff (hnew : t.attempts = []) :
    (∃ a ∈ (after refuse t ws).attempts, ∃ e, a.answer = .refused e) ↔
      ¬ ∀ a ∈ answers refuse t ws, a.landed = true := by
  push Not
  simp only [Bool.not_eq_true, Answer.landed_eq_false]
  constructor
  · rintro ⟨a, ha, e, he⟩
    rw [mem_attempts_after, hnew] at ha
    obtain ⟨before, w, rest, hsplit, rfl⟩ := ha.resolve_left List.not_mem_nil
    exact ⟨_, mem_answers.mpr ⟨before, w, rest, hsplit, rfl⟩, e, he⟩
  · rintro ⟨a, ha, e, he⟩
    obtain ⟨before, w, rest, hsplit, rfl⟩ := mem_answers.mp ha
    exact ⟨_, mem_attempts_after.mpr (Or.inr ⟨before, w, rest, hsplit, rfl⟩), e, he⟩

/-! ## Trying again -/

/-- No two of the writes give a key different values. -/
def Agree (ws : List (Write ι κ ν)) : Prop :=
  ∀ w ∈ ws, ∀ w' ∈ ws, w.table = w'.table → w.key = w'.key → w.value = w'.value

/-- Nothing is refused. -/
def never (_ : List (Attempt ι κ ν ε)) (_ : Write ι κ ν) : Option ε := none

theorem answers_never {a : Answer ε} (h : a ∈ answers never t ws) : a.landed = true := by
  obtain ⟨before, w, rest, -, rfl⟩ := mem_answers.mp h
  exact landed_answer.mpr rfl

/-- What is there when nothing is refused: what was, and else what is written. -/
theorem after_never_iff (hagree : Agree ws) : (after never t ws).contents i k = some v ↔
    t.contents i k = some v ∨ (t.contents i k = none ∧ ⟨i, k, v⟩ ∈ ws) := by
  refine ⟨after_origin, ?_⟩
  rintro (hthere | ⟨hnone, hmem⟩)
  · exact after_kept hthere ws
  · obtain ⟨v', hv'⟩ := Option.ne_none_iff_exists'.mp (after_landed (fun a ha => answers_never ha) hmem)
    rcases after_origin hv' with hthere | ⟨-, hmem'⟩
    · rw [hnone] at hthere
      cases hthere
    · exact hv'.trans (congrArg some (hagree _ hmem' _ hmem rfl rfl))

/-- **Trying again.** Whatever was refused the first time, trying all writes when nothing is comes to what trying them
    once comes to. -/
theorem after_again {ws' : List (Write ι κ ν)} (hagree : Agree ws) (hsub : ws' ⊆ ws) {t' t'' : Target ι κ ν ε}
    (ht' : t'.contents = t.contents) (ht'' : t''.contents = (after refuse t' ws').contents) :
    (after never t'' ws).contents = (after never t ws).contents := by
  funext i k
  refine Option.ext fun v => ?_
  rw [after_never_iff hagree, after_never_iff hagree, ht'', ← ht']
  constructor
  · rintro (hthere | ⟨hnone, hmem⟩)
    · exact (after_origin hthere).imp_right fun h => ⟨h.1, hsub h.2⟩
    · refine Or.inr ⟨?_, hmem⟩
      by_contra hthere
      exact after_ne_none hthere ws' hnone
  · rintro (hthere | ⟨hnone, hmem⟩)
    · exact Or.inl (after_kept hthere ws')
    · cases hthen : (after refuse t' ws').contents i k with
      | none => exact Or.inr ⟨rfl, hmem⟩
      | some v' =>
        rcases after_origin hthen with hthere | ⟨-, hmem'⟩
        · rw [hnone] at hthere
          cases hthere
        · exact Or.inl (congrArg some (hagree _ (hsub hmem') _ hmem rfl rfl))

end GapFill
