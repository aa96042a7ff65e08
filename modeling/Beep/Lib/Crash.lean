import Mathlib.Logic.Function.Basic
import Mathlib.Tactic.Common

/-!
# `Lib.Crash` — programs that may be stopped, and their triples

A program changes a state by one operation after the other and ends with a value or an error. What it leaves behind is
one of three things: the state it ends in, the state an error ends it in, or, when it is stopped from outside, any of the
states it passes through. A triple therefore has two conditions on what is left: `Q` where the program ends with a value,
and `C` wherever else it may leave the state (`Triple`).

* the rules for the operations, for sequencing and for loops;
* the rule for a program that works on one component of a state (`Triple.focus`), and that the others stay as they are
  (`Triple.focus_of_ne`);
* what ends with a value from everywhere (`Prog.Total`) or from some states (`Prog.Succeeds`), and what is done on part of a
  state (`Prog.Projects`);
* **the recovery rule** (`Triple.stopped`): what is left after a stop meets `C`, so a `C` that is a precondition again is
  kept by any number of attempts.
-/

namespace Crash

variable {σ τ ι ε α β : Type}

/-- How a program runs from a state: the states it passes through, the one it ends in, and its result. -/
structure Outcome (σ ε α : Type) where
  passed : List σ
  final : σ
  result : Except ε α

/-- A result with a value is no error. -/
theorem eq_ok_of_toOption {r : Except ε α} {a : α} (h : r.toOption = some a) : r = .ok a := by
  cases r with
  | ok b => exact congrArg Except.ok (Option.some_inj.mp h)
  | error e => cases h

/-- A program on states `σ`. -/
structure Prog (σ ε α : Type) where
  run : σ → Outcome σ ε α

namespace Prog

/-- `f` after `p`, if `p` ends with a value. -/
def andThen (p : Prog σ ε α) (f : α → Prog σ ε β) : Prog σ ε β where
  run s :=
    let first := p.run s
    match first.result with
    | .ok a =>
        let second := (f a).run first.final
        { second with passed := first.passed ++ second.passed }
    | .error e => ⟨first.passed, first.final, .error e⟩

instance : Monad (Prog σ ε) where
  pure a := ⟨fun s => ⟨[], s, .ok a⟩⟩
  bind := andThen

/-- Reads the state. -/
def read (get : σ → α) : Prog σ ε α := ⟨fun s => ⟨[], s, .ok (get s)⟩⟩

/-- One operation: it answers and changes the state at once, and the program may be stopped after it. -/
def call (op : σ → α × σ) : Prog σ ε α := ⟨fun s => ⟨[(op s).2], (op s).2, .ok (op s).1⟩⟩

/-- One operation without an answer. -/
def act (op : σ → σ) : Prog σ ε Unit := call fun s => ((), op s)

/-- Ends with an error. -/
def fail (e : ε) : Prog σ ε α := ⟨fun s => ⟨[], s, .error e⟩⟩

/-- The program, on one component of a state. -/
def focus [DecidableEq ι] (i : ι) (p : Prog τ ε α) : Prog (ι → τ) ε α where
  run s :=
    let run := p.run (s i)
    ⟨run.passed.map (Function.update s i), Function.update s i run.final, run.result⟩

/-- The program on every element, in order. -/
def forEach (f : β → Prog σ ε Unit) : List β → Prog σ ε Unit
  | [] => pure ()
  | x :: xs => do
      f x
      forEach f xs

/-- The program on every element, in order, and what it answered. -/
def collect (f : β → Prog σ ε (Option α)) : List β → Prog σ ε (List α)
  | [] => pure []
  | x :: xs => do
      let one ← f x
      let rest ← collect f xs
      return one.toList ++ rest

/-- What is left of a run that is stopped after `n` operations. -/
def stopped (p : Prog σ ε α) (n : Nat) (s : σ) : σ := (s :: (p.run s).passed).getD n (p.run s).final

/-- After a value the second part runs where the first left the state. -/
theorem run_bind_ok {p : Prog σ ε α} {f : α → Prog σ ε β} {s : σ} {a : α} (h : (p.run s).result = .ok a) :
    (p >>= f).run s =
      ⟨(p.run s).passed ++ ((f a).run (p.run s).final).passed, ((f a).run (p.run s).final).final,
        ((f a).run (p.run s).final).result⟩ := by
  show (p.andThen f).run s = _
  simp only [andThen, h]

/-- After an error the second part does not run. -/
theorem run_bind_error {p : Prog σ ε α} {f : α → Prog σ ε β} {s : σ} {e : ε} (h : (p.run s).result = .error e) :
    (p >>= f).run s = ⟨(p.run s).passed, (p.run s).final, .error e⟩ := by
  show (p.andThen f).run s = _
  simp only [andThen, h]

/-- The run ends with the value, in the state. -/
def Ends (p : Prog σ ε α) (s : σ) (a : α) (s' : σ) : Prop := (p.run s).result = .ok a ∧ (p.run s).final = s'

/-- A value, at once. -/
theorem Ends.pure {a : α} {s : σ} : (pure a : Prog σ ε α).Ends s a s := ⟨rfl, rfl⟩

/-- An operation ends with its answer, in the state it makes. -/
theorem Ends.call {op : σ → α × σ} {s : σ} : (Prog.call op : Prog σ ε α).Ends s (op s).1 (op s).2 := ⟨rfl, rfl⟩

/-- What comes after a run that ends decides. -/
theorem Ends.andThen {p : Prog σ ε α} {f : α → Prog σ ε β} {s s' : σ} {a : α} (h : p.Ends s a s') :
    ((p >>= f).run s).result = ((f a).run s').result ∧ ((p >>= f).run s).final = ((f a).run s').final := by
  obtain ⟨hresult, rfl⟩ := h
  rw [run_bind_ok hresult]
  exact ⟨rfl, rfl⟩

/-- Two parts that end, one after the other. -/
theorem Ends.bind {p : Prog σ ε α} {f : α → Prog σ ε β} {s s' s'' : σ} {a : α} {b : β} (h : p.Ends s a s')
    (hf : (f a).Ends s' b s'') : (p >>= f).Ends s b s'' := by
  obtain ⟨hresult, hfinal⟩ := h.andThen (f := f)
  exact ⟨hresult.trans hf.1, hfinal.trans hf.2⟩

/-- A read leaves the state. -/
theorem Ends.read {get : σ → α} {s : σ} : (Prog.read get : Prog σ ε α).Ends s (get s) s := ⟨rfl, rfl⟩

/-! ## Programs without errors -/

/-- The program ends with a value from everywhere. -/
def Total (p : Prog σ ε α) : Prop := ∀ s, ∃ a s', p.Ends s a s'

/-- A value, at once. -/
theorem Total.pure {a : α} : (pure a : Prog σ ε α).Total := fun s => ⟨a, s, Ends.pure⟩

/-- A read has an answer everywhere. -/
theorem Total.read {get : σ → α} : (Prog.read get : Prog σ ε α).Total := fun s => ⟨get s, s, Ends.read⟩

/-- So has an operation. -/
theorem Total.act {op : σ → σ} : (Prog.act op : Prog σ ε Unit).Total := fun s => ⟨(), op s, Ends.call⟩

/-- Two such programs, one after the other. -/
theorem Total.bind {p : Prog σ ε α} {f : α → Prog σ ε β} (h : p.Total) (hf : ∀ a, (f a).Total) : (p >>= f).Total := by
  intro s
  obtain ⟨a, s', hends⟩ := h s
  obtain ⟨b, s'', hends'⟩ := hf a s'
  exact ⟨b, s'', hends.bind hends'⟩

/-- On one component, as on the state it works on. -/
theorem Total.focus [DecidableEq ι] {p : Prog τ ε α} (h : p.Total) (i : ι) : (p.focus i).Total := by
  intro s
  obtain ⟨a, v, hresult, hfinal⟩ := h (s i)
  exact ⟨a, _, hresult, rfl⟩

/-- By induction on the list. -/
theorem Total.forEach {f : β → Prog σ ε Unit} (h : ∀ x, (f x).Total) (xs : List β) : (Prog.forEach f xs).Total := by
  induction xs with
  | nil => exact Total.pure
  | cons x xs ih => exact (h x).bind fun _ => ih

/-- By induction on the list. -/
theorem Total.collect {f : β → Prog σ ε (Option α)} (h : ∀ x, (f x).Total) (xs : List β) :
    (Prog.collect f xs).Total := by
  induction xs with
  | nil => exact Total.pure
  | cons x xs ih => exact (h x).bind fun _ => ih.bind fun _ => Total.pure

/-! ## Programs that succeed -/

/-- From `P`, the run ends with a value, in `Q`. -/
def Succeeds (P : σ → Prop) (p : Prog σ ε α) (Q : α → σ → Prop) : Prop := ∀ s, P s → ∃ a s', p.Ends s a s' ∧ Q a s'

section
variable {P P' : σ → Prop} {p : Prog σ ε α} {Q Q' : α → σ → Prop}

/-- **The consequence rule.** -/
theorem Succeeds.weaken (h : Succeeds P p Q) (hP : ∀ s, P' s → P s) (hQ : ∀ a s, Q a s → Q' a s) :
    Succeeds P' p Q' := by
  intro s hs
  obtain ⟨a, s', hends, ha⟩ := h s (hP s hs)
  exact ⟨a, s', hends, hQ a s' ha⟩

/-- A value, at once. -/
theorem Succeeds.pure {a : α} (h : ∀ s, P s → Q a s) : Succeeds P (pure a : Prog σ ε α) Q :=
  fun s hs => ⟨a, s, Ends.pure, h s hs⟩

/-- An operation, by what it answers and makes. -/
theorem Succeeds.call {op : σ → α × σ} (h : ∀ s, P s → Q (op s).1 (op s).2) :
    Succeeds P (Prog.call op : Prog σ ε α) Q := fun s hs => ⟨_, _, Ends.call, h s hs⟩

/-- The second part succeeds from what the first one leaves. -/
theorem Succeeds.bind {f : α → Prog σ ε β} {R : β → σ → Prop} (h : Succeeds P p Q)
    (hf : ∀ a, Succeeds (Q a) (f a) R) : Succeeds P (p >>= f) R := by
  intro s hs
  obtain ⟨a, s', hends, ha⟩ := h s hs
  obtain ⟨b, s'', hends', hb⟩ := hf a s' ha
  exact ⟨b, s'', hends.bind hends', hb⟩

/-- The loop rule: `I` says what holds when the given elements are still to come. -/
theorem Succeeds.forEach {f : β → Prog σ ε Unit} {I : List β → σ → Prop} {xs : List β}
    (h : ∀ x rest, x :: rest <:+ xs → Succeeds (I (x :: rest)) (f x) fun _ => I rest) :
    Succeeds (I xs) (Prog.forEach f xs) fun _ => I [] := by
  induction xs with
  | nil => exact Succeeds.pure fun _ hs => hs
  | cons x xs ih =>
    exact (h x xs (List.suffix_refl _)).bind fun _ => ih fun y rest hy => h y rest (hy.trans (List.suffix_cons x xs))

/-- The loop rule where answers are collected. -/
theorem Succeeds.collect {f : β → Prog σ ε (Option α)} {I : List β → σ → Prop} {xs : List β}
    (h : ∀ x rest, x :: rest <:+ xs → Succeeds (I (x :: rest)) (f x) fun _ => I rest) :
    Succeeds (I xs) (Prog.collect f xs) fun _ => I [] := by
  induction xs with
  | nil => exact Succeeds.pure fun _ hs => hs
  | cons x xs ih =>
    refine (h x xs (List.suffix_refl _)).bind fun _ => ?_
    exact (ih fun y rest hy => h y rest (hy.trans (List.suffix_cons x xs))).bind fun _ => Succeeds.pure fun _ hs => hs

end

/-! ## Programs with an account -/

/-- `q` does on part of the state what `p` does. -/
def Projects (π : σ → τ) (p : Prog σ ε α) (q : Prog τ ε α) : Prop :=
  ∀ s, q.run (π s) = ⟨(p.run s).passed.map π, π (p.run s).final, (p.run s).result⟩

/-- A value changes neither state. -/
theorem Projects.pure {π : σ → τ} {a : α} : Projects π (pure a : Prog σ ε α) (pure a) := fun _ => rfl

/-- Neither does an error. -/
theorem Projects.fail {π : σ → τ} {e : ε} : Projects π (Prog.fail e : Prog σ ε α) (Prog.fail e) := fun _ => rfl

/-- Part by part, with the same value in between. -/
theorem Projects.bind {π : σ → τ} {p : Prog σ ε α} {q : Prog τ ε α} {f : α → Prog σ ε β} {g : α → Prog τ ε β}
    (h : Projects π p q) (hf : ∀ a, Projects π (f a) (g a)) : Projects π (p >>= f) (q >>= g) := by
  intro s
  have hq := h s
  cases hres : (p.run s).result with
  | error e =>
    rw [run_bind_error hres, run_bind_error (by rw [hq, hres]), hq]
  | ok a =>
    rw [run_bind_ok hres, run_bind_ok (by rw [hq, hres]), hq, hf a, List.map_append]

end Prog

/-- From `P`, a run that ends with a value ends in `Q`, and leaves `C` wherever else it leaves the state. -/
structure Triple (P : σ → Prop) (p : Prog σ ε α) (Q : α → σ → Prop) (C : σ → Prop) : Prop where
  passes : ∀ s, P s → ∀ s' ∈ (p.run s).passed, C s'
  ends : ∀ s, P s → ∀ a, (p.run s).result = .ok a → Q a (p.run s).final
  fails : ∀ s, P s → ∀ e, (p.run s).result = .error e → C (p.run s).final

namespace Triple

variable {P P' : σ → Prop} {p : Prog σ ε α} {Q Q' : α → σ → Prop} {C C' : σ → Prop}

/-! ## The rules -/

/-- The condition of a run that ends. -/
theorem of_ends (h : Triple P p Q C) {s s' : σ} {a : α} (hs : P s) (hends : p.Ends s a s') : Q a s' := by
  obtain ⟨hresult, rfl⟩ := hends
  exact h.ends s hs a hresult

/-- **The consequence rule.** -/
theorem weaken (h : Triple P p Q C) (hP : ∀ s, P' s → P s) (hQ : ∀ a s, Q a s → Q' a s) (hC : ∀ s, C s → C' s) :
    Triple P' p Q' C' where
  passes s hs s' hs' := hC s' (h.passes s (hP s hs) s' hs')
  ends s hs a ha := hQ a _ (h.ends s (hP s hs) a ha)
  fails s hs e he := hC _ (h.fails s (hP s hs) e he)

/-- From more, the same. -/
theorem pre (h : Triple P p Q C) (hP : ∀ s, P' s → P s) : Triple P' p Q C :=
  h.weaken hP (fun _ _ h => h) fun _ h => h

/-- To less, the same. -/
theorem post (h : Triple P p Q C) (hQ : ∀ a s, Q a s → Q' a s) : Triple P p Q' C :=
  h.weaken (fun _ h => h) hQ fun _ h => h

/-- Two triples of one program. -/
theorem and (h : Triple P p Q C) (h' : Triple P' p Q' C') :
    Triple (fun s => P s ∧ P' s) p (fun a s => Q a s ∧ Q' a s) fun s => C s ∧ C' s where
  passes s hs s' hs' := ⟨h.passes s hs.1 s' hs', h'.passes s hs.2 s' hs'⟩
  ends s hs a ha := ⟨h.ends s hs.1 a ha, h'.ends s hs.2 a ha⟩
  fails s hs e he := ⟨h.fails s hs.1 e he, h'.fails s hs.2 e he⟩

/-- State by state. -/
theorem of_state (h : ∀ s₀, P s₀ → Triple (· = s₀) p Q C) : Triple P p Q C where
  passes s hs := (h s hs).passes s rfl
  ends s hs := (h s hs).ends s rfl
  fails s hs := (h s hs).fails s rfl

/-- What does not depend on the state may be assumed. -/
theorem of_fact {F : Prop} (h : F → Triple P p Q C) : Triple (fun s => F ∧ P s) p Q C where
  passes s hs := (h hs.1).passes s hs.2
  ends s hs := (h hs.1).ends s hs.2
  fails s hs := (h hs.1).fails s hs.2

/-- What does not depend on the state is so whatever a program does. -/
theorem keep_fact {F : Prop} (p : Prog σ ε α) : Triple (fun _ => F) p (fun _ _ => F) fun _ => True where
  passes _ _ _ _ := trivial
  ends _ hF _ _ := hF
  fails _ _ _ _ := trivial

/-- A value passes through no state. -/
theorem pure {a : α} (h : ∀ s, P s → Q a s) : Triple P (pure a : Prog σ ε α) Q C where
  passes _ _ _ hs' := nomatch hs'
  ends s hs a' ha' := by
    obtain rfl : a = a' := Except.ok.inj ha'
    exact h s hs
  fails _ _ _ he := nomatch he

/-- A read passes through no state either. -/
theorem read {get : σ → α} (h : ∀ s, P s → Q (get s) s) : Triple P (Prog.read get : Prog σ ε α) Q C where
  passes _ _ _ hs' := nomatch hs'
  ends s hs a' ha' := by
    obtain rfl : get s = a' := Except.ok.inj ha'
    exact h s hs
  fails _ _ _ he := nomatch he

/-- An error leaves the state to `C`. -/
theorem fail {e : ε} (h : ∀ s, P s → C s) : Triple P (Prog.fail e : Prog σ ε α) Q C where
  passes _ _ _ hs' := nomatch hs'
  ends _ _ _ ha := nomatch ha
  fails s hs _ _ := h s hs

/-- After an error nothing comes. -/
theorem fail_bind {e : ε} {f : α → Prog σ ε β} {Q : β → σ → Prop} (h : ∀ s, P s → C s) :
    Triple P (Prog.fail e >>= f) Q C where
  passes _ _ _ hs' := nomatch hs'
  ends _ _ _ ha := nomatch ha
  fails s hs _ _ := h s hs

/-- One operation may be the last one, so `C` holds after it too. -/
theorem call {op : σ → α × σ} (h : ∀ s, P s → C (op s).2 ∧ Q (op s).1 (op s).2) :
    Triple P (Prog.call op : Prog σ ε α) Q C where
  passes s hs s' hs' := by
    obtain rfl := List.mem_singleton.mp hs'
    exact (h s hs).1
  ends s hs a' ha' := by
    obtain rfl : (op s).1 = a' := Except.ok.inj ha'
    exact (h s hs).2
  fails _ _ _ he := nomatch he

/-- One operation without an answer. -/
theorem act {op : σ → σ} {Q : Unit → σ → Prop} (h : ∀ s, P s → C (op s) ∧ Q () (op s)) :
    Triple P (Prog.act op : Prog σ ε Unit) Q C := call h

/-- **The rule for sequencing**: what the first part ends in, the second starts from. -/
theorem bind {f : α → Prog σ ε β} {Q : β → σ → Prop} {R : α → σ → Prop} (h : Triple P p R C)
    (hf : ∀ a, Triple (R a) (f a) Q C) : Triple P (p >>= f) Q C where
  passes s hs s' hs' := by
    cases hres : (p.run s).result with
    | error e =>
      rw [Prog.run_bind_error hres] at hs'
      exact h.passes s hs s' hs'
    | ok a =>
      rw [Prog.run_bind_ok hres] at hs'
      rcases List.mem_append.mp hs' with hfirst | hsecond
      · exact h.passes s hs s' hfirst
      · exact (hf a).passes _ (h.ends s hs a hres) s' hsecond
  ends s hs b hb := by
    cases hres : (p.run s).result with
    | error e =>
      rw [Prog.run_bind_error hres] at hb
      cases hb
    | ok a =>
      rw [Prog.run_bind_ok hres] at hb ⊢
      exact (hf a).ends _ (h.ends s hs a hres) b hb
  fails s hs e he := by
    cases hres : (p.run s).result with
    | error e' =>
      rw [Prog.run_bind_error hres]
      exact h.fails s hs e' hres
    | ok a =>
      rw [Prog.run_bind_ok hres] at he ⊢
      exact (hf a).fails _ (h.ends s hs a hres) e he

/-- **The loop rule**: `I` says what holds when the given elements are still to come. -/
theorem forEach {f : β → Prog σ ε Unit} {I : List β → σ → Prop} {xs : List β}
    (h : ∀ x rest, x :: rest <:+ xs → Triple (I (x :: rest)) (f x) (fun _ => I rest) C) :
    Triple (I xs) (Prog.forEach f xs) (fun _ => I []) C := by
  induction xs with
  | nil => exact pure fun _ hs => hs
  | cons x xs ih =>
    exact bind (h x xs (List.suffix_refl _)) fun _ =>
      ih fun y rest hy => h y rest (hy.trans (List.suffix_cons x xs))

/-- A loop that comes to `y`: `B` holds from there on, `A` until then. -/
theorem forEach_reaches {f : β → Prog σ ε Unit} {A B : σ → Prop} {xs : List β} {y : β} (hmem : y ∈ xs)
    (hBA : ∀ s, B s → A s) (hit : Triple A (f y) (fun _ => B) C)
    (miss : ∀ x ∈ xs, x ≠ y → Triple A (f x) (fun _ => A) C ∧ Triple B (f x) (fun _ => B) C) :
    Triple A (Prog.forEach f xs) (fun _ => B) C := by
  refine (forEach (I := fun rest s => (y ∈ rest → A s) ∧ (y ∉ rest → B s)) fun x rest hrest => ?_).weaken
    (fun s hs => ⟨fun _ => hs, fun h => absurd hmem h⟩) (fun _ s hs => hs.2 List.not_mem_nil) fun _ hs => hs
  by_cases hxy : x = y
  · subst hxy
    exact hit.weaken (fun s hs => hs.1 List.mem_cons_self) (fun _ s hs => ⟨fun _ => hBA s hs, fun _ => hs⟩) fun _ hs => hs
  · obtain ⟨hA, hB⟩ := miss x (hrest.subset List.mem_cons_self) hxy
    by_cases hy : y ∈ rest
    · refine hA.weaken (fun s hs => hs.1 (List.mem_cons_of_mem x hy)) (fun _ s hs => ?_) fun _ hs => hs
      exact ⟨fun _ => hs, fun hny => absurd hy hny⟩
    · refine hB.weaken (fun s hs => hs.2 ?_) (fun _ s hs => ⟨fun h => absurd h hy, fun _ => hs⟩) fun _ hs => hs
      rintro (_ | ⟨_, hmem'⟩)
      · exact hxy rfl
      · exact hy hmem'

/-- The loop rule where the answers are collected: `I` also says what they are so far. -/
theorem collect {f : β → Prog σ ε (Option α)} {I : List β → List α → σ → Prop} {l : List β}
    (h : ∀ x rest sofar, x :: rest <:+ l →
      Triple (I (x :: rest) sofar) (f x) (fun one => I rest (sofar ++ one.toList)) C) (sofar : List α) :
    Triple (I l sofar) (Prog.collect f l) (fun out => I [] (sofar ++ out)) C := by
  induction l generalizing sofar with
  | nil => exact pure fun s hs => by rwa [List.append_nil]
  | cons x l ih =>
    refine bind (h x l sofar (List.suffix_refl _)) fun one => ?_
    refine bind (ih (fun y rest out hy => h y rest out (hy.trans (List.suffix_cons x l))) _) fun rest => ?_
    exact pure fun s hs => by rwa [← List.append_assoc]

/-- **The component rule.** -/
theorem focus [DecidableEq ι] {i : ι} {p : Prog τ ε α} {P : τ → Prop} {Q : α → τ → Prop} {C : τ → Prop}
    (h : Triple P p Q C) : Triple (fun s => P (s i)) (p.focus i) (fun a s => Q a (s i)) fun s => C (s i) where
  passes s hs s' hs' := by
    obtain ⟨v, hv, rfl⟩ := List.mem_map.mp hs'
    rw [Function.update_self]
    exact h.passes _ hs v hv
  ends s hs a ha := by
    show Q a (Function.update s i _ i)
    rw [Function.update_self]
    exact h.ends _ hs a ha
  fails s hs e he := by
    show C (Function.update s i _ i)
    rw [Function.update_self]
    exact h.fails _ hs e he

/-- The other components stay as they are. -/
theorem focus_of_ne [DecidableEq ι] {i j : ι} (hij : i ≠ j) (p : Prog τ ε α) (R : τ → Prop) :
    Triple (fun s => R (s i)) (p.focus j) (fun _ s => R (s i)) fun s => R (s i) where
  passes s hs s' hs' := by
    obtain ⟨v, hv, rfl⟩ := List.mem_map.mp hs'
    rwa [Function.update_of_ne hij]
  ends s hs a ha := by
    show R (Function.update s j _ i)
    rwa [Function.update_of_ne hij]
  fails s hs e he := by
    show R (Function.update s j _ i)
    rwa [Function.update_of_ne hij]

/-- A loop that changes its components by one operation each, seen at one of them: doing it twice is doing it once. -/
theorem forEach_act [DecidableEq ι] {g : ι → τ → τ} {i : ι} (htwice : ∀ v, g i (g i v) = g i v) (xs : List ι)
    (v : τ) : Triple (fun s : ι → τ => s i = v)
      (Prog.forEach (fun j => (Prog.act (g j)).focus j) xs : Prog (ι → τ) ε Unit)
      (fun _ s => s i = if i ∈ xs then g i v else v) fun s => s i = v ∨ (i ∈ xs ∧ s i = g i v) := by
  induction xs generalizing v with
  | nil => exact pure fun s hs => by simpa using hs
  | cons j xs ih =>
    by_cases hij : i = j
    · subst hij
      refine bind (R := fun _ s => s i = g i v) ?_ fun _ => (ih (g i v)).weaken (fun _ h => h) ?_ ?_
      · refine (focus (P := (· = v)) (Q := fun _ w => w = g i v) (C := (· = g i v)) (act ?_)).weaken
          (fun _ h => h) (fun _ _ h => h) fun s hs => Or.inr ⟨List.mem_cons_self, hs⟩
        rintro _ rfl
        exact ⟨rfl, rfl⟩
      · intro _ s hs
        simpa [htwice] using hs
      · rintro s (hs | ⟨-, hs⟩)
        · exact Or.inr ⟨List.mem_cons_self, hs⟩
        · exact Or.inr ⟨List.mem_cons_self, hs.trans (htwice v)⟩
    · refine bind (R := fun _ s => s i = v) ?_ fun _ => (ih v).weaken (fun _ h => h) ?_ ?_
      · exact (focus_of_ne hij _ (· = v)).weaken (fun _ h => h) (fun _ _ h => h) fun s hs => Or.inl hs
      · intro _ s hs
        simpa [hij] using hs
      · rintro s (hs | ⟨hmem, hs⟩)
        · exact Or.inl hs
        · exact Or.inr ⟨List.mem_cons_of_mem j hmem, hs⟩

/-! ## Recovery -/

/-- What a run leaves that is stopped somewhere. -/
theorem stopped (h : Triple P p Q C) {s : σ} (hs : P s) (hC : C s) (hQ : ∀ a s', Q a s' → C s') (n : Nat) :
    C (p.stopped n s) := by
  have hfinal : C (p.run s).final := by
    cases hres : (p.run s).result with
    | ok a => exact hQ a _ (h.ends s hs a hres)
    | error e => exact h.fails s hs e hres
  unfold Prog.stopped
  rw [List.getD_eq_getElem?_getD]
  cases hat : (s :: (p.run s).passed)[n]? with
  | none => exact hfinal
  | some s' =>
    rcases List.mem_cons.mp (List.mem_of_getElem? hat) with rfl | hmem
    · exact hC
    · exact h.passes s hs s' hmem

end Triple

end Crash
