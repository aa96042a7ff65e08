import Mathlib.Data.List.Basic
import Mathlib.Data.List.Induction
import Mathlib.Tactic.Common

/-!
# `Lib.Run` — runs of a step function, and what holds along them

A system is a function `step : σ → ε → σ`: the state after an event, from the state before it. A run is a
list of events, and the state it ends in is `es.foldl step s`. Two things are said about runs everywhere:

* a condition holds of **every step** of the run, read in the state that step starts from (`Along`);
* a predicate on states is kept by every step that meets such a condition, so it holds at the end of the
  whole run (`Along.inv`), and a condition implied by it holds along the run (`Along.strengthen`);
* a run and the same run without its hidden events end alike (`Along.unwind`);
* what is true at the end and was not at the start has an origin in the run (`exists_origin`).

Nothing here knows what the states and the events are.
-/

namespace Run

variable {σ ε : Type*} {step : σ → ε → σ}

/-- Every step of the run of `es` from `s` meets `P`, read in the state the step starts from. -/
def Along (step : σ → ε → σ) (P : σ → ε → Prop) : σ → List ε → Prop
  | _, [] => True
  | s, e :: es => P s e ∧ Along step P (step s e) es

theorem along_append {P : σ → ε → Prop} {es es' : List ε} {s : σ} :
    Along step P s (es ++ es') ↔ Along step P s es ∧ Along step P (es.foldl step s) es' := by
  induction es generalizing s with
  | nil => simp [Along]
  | cons e es ih => simp only [List.cons_append, Along, ih, List.foldl_cons, and_assoc]

/-- `Along`, read off the run: at every split of the events, the step in the middle meets `P`. -/
theorem along_iff {P : σ → ε → Prop} {es : List ε} {s : σ} :
    Along step P s es ↔ ∀ before e after, es = before ++ e :: after → P (before.foldl step s) e := by
  constructor
  · rintro h before e after rfl
    exact (along_append.mp h).2.1
  · intro h
    induction es generalizing s with
    | nil => trivial
    | cons e es ih =>
      refine ⟨h [] e es rfl, ih ?_⟩
      rintro before e' after rfl
      exact h (e :: before) e' after rfl

/-- Two conditions hold along a run when both do at every step. -/
theorem Along.and {P Q : σ → ε → Prop} {s : σ} {es : List ε} (hP : Along step P s es)
    (hQ : Along step Q s es) : Along step (fun s e => P s e ∧ Q s e) s es := by
  induction es generalizing s with
  | nil => trivial
  | cons e es ih => exact ⟨⟨hP.1, hQ.1⟩, ih hP.2 hQ.2⟩

/-- **The invariant rule.** What every step meeting `P` keeps, a run along which `P` holds keeps. -/
theorem Along.inv {P : σ → ε → Prop} {Inv : σ → Prop}
    (hkeep : ∀ s e, Inv s → P s e → Inv (step s e)) {es : List ε} {s : σ}
    (h : Along step P s es) (hs : Inv s) : Inv (es.foldl step s) := by
  induction es generalizing s with
  | nil => exact hs
  | cons e es ih => exact ih h.2 (hkeep s e hs h.1)

/-- A condition that an invariant turns into another one does so along the whole run. -/
theorem Along.strengthen {P Q : σ → ε → Prop} {Inv : σ → Prop}
    (hkeep : ∀ s e, Inv s → P s e → Inv (step s e)) (himp : ∀ s e, Inv s → P s e → Q s e)
    {es : List ε} {s : σ} (h : Along step P s es) (hs : Inv s) : Along step Q s es := by
  induction es generalizing s with
  | nil => trivial
  | cons e es ih => exact ⟨himp s e hs h.1, ih h.2 (hkeep s e hs h.1)⟩

/-- The state a run ends in when its hidden events are left out; what is hidden is read in the state the
    shortened run is in. -/
def without (step : σ → ε → σ) (hidden : σ → ε → Bool) : σ → List ε → σ
  | s, [] => s
  | s, e :: es => without step hidden (if hidden s e then s else step s e) es

/-- **The unwinding rule.** A relation that a hidden event keeps on its own, and any other event keeps when
    both sides take it, holds between the end of a run and the end of the run without its hidden events. -/
theorem Along.unwind {P : σ → ε → Prop} {hidden : σ → ε → Bool} {R : σ → σ → Prop}
    (hsame : ∀ s t e, R s t → hidden s e = hidden t e)
    (hlocal : ∀ s t e, R s t → P s e → hidden s e = true → R (step s e) t)
    (hboth : ∀ s t e, R s t → P s e → hidden s e = false → R (step s e) (step t e))
    {es : List ε} {s t : σ} (h : Along step P s es) (hst : R s t) :
    R (es.foldl step s) (without step hidden t es) := by
  induction es generalizing s t with
  | nil => exact hst
  | cons e es ih =>
    refine ih h.2 ?_
    rw [← hsame s t e hst]
    cases hhidden : hidden s e with
    | true => exact hlocal s t e hst h.1 hhidden
    | false => exact hboth s t e hst h.1 hhidden

/-- **The provenance rule.** What is true at the end of a run and was not at its start was brought about by a
    step of it, and has been true since. -/
theorem exists_origin (Has : σ → Prop) (Born : σ → ε → Prop)
    (hone : ∀ s e, Has (step s e) → Has s ∨ Born s e) {s : σ} (hs : ¬ Has s) (es : List ε)
    (h : Has (es.foldl step s)) :
    ∃ before e after, es = before ++ e :: after ∧ Born (before.foldl step s) e ∧
      Along step (fun s _ => Has s) ((before ++ [e]).foldl step s) after := by
  -- on the last event of the run
  induction es using List.reverseRecOn with
  | nil => exact absurd h hs
  | append_singleton es e ih =>
    rw [List.foldl_append] at h
    rcases hone _ _ h with hbefore | hborn
    · obtain ⟨before, e', after, rfl, hborn, hsince⟩ := ih hbefore
      refine ⟨before, e', after ++ [e], by simp, hborn, along_append.mpr ⟨hsince, ?_, trivial⟩⟩
      rw [← List.foldl_append]
      simpa using hbefore
    · exact ⟨es, e, [], rfl, hborn, trivial⟩

end Run
