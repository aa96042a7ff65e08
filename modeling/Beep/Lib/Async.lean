import Mathlib.Logic.Function.Basic
import Mathlib.Tactic.Common

/-!
# `Lib.Async` — asynchronous programs

A task asks a request, waits, and goes on with the answer. Between its requests anything may happen to the state the
requests are served on; a request is served at one instant. `Async.Safe` says what a task can be relied on for while the
state moves only as `R` allows:

* `G` holds of every request at the instant it is served, and `P` of the result at the instant it is known;
* the rules for a result, a request and sequencing (`Safe.done`, `Safe.ask`, `Safe.bind`), and that a waiting task stays
  safe while the state moves (`Safe.waits`) and through its own step (`Safe.step`).

A pool is any number of tasks over one state (`Pool`). **The pool rule** (`Pool.AllSafe.serve`): if what each task asks
for moves the state as the others allow it, all tasks stay safe whichever of them is served.
-/

/-- A program that asks requests `Q` and goes on with their answers `A`. -/
inductive Async (Q A α : Type) where
  | done (result : α)
  | ask (request : Q) (resume : A → Async Q A α)

namespace Async

variable {Q A α β σ ε : Type}

/-- `f` after `t`. -/
def andThen : Async Q A α → (α → Async Q A β) → Async Q A β
  | done a, f => f a
  | ask q resume, f => ask q fun a => (resume a).andThen f

instance : Monad (Async Q A) where
  pure := done
  bind := andThen

/-- One request. -/
def request (q : Q) : Async Q A A := ask q done

@[simp] theorem pure_eq (a : α) : (pure a : Async Q A α) = done a := rfl

@[simp] theorem done_bind (a : α) (f : α → Async Q A β) : (done a >>= f) = f a := rfl

@[simp] theorem ask_bind (q : Q) (resume : A → Async Q A α) (f : α → Async Q A β) :
    (ask q resume >>= f) = ask q fun a => resume a >>= f := rfl

@[simp] theorem request_bind (q : Q) (f : A → Async Q A β) : (request q >>= f) = ask q f := rfl

theorem andThen_assoc {γ : Type} (t : Async Q A α) (f : α → Async Q A β) (g : β → Async Q A γ) :
    (t.andThen f).andThen g = t.andThen fun a => (f a).andThen g := by
  induction t with
  | done a => rfl
  | ask q resume ih => exact congrArg (ask q) (funext ih)

theorem andThen_done (t : Async Q A α) : t.andThen done = t := by
  induction t with
  | done a => rfl
  | ask q resume ih => exact congrArg (ask q) (funext ih)

instance : LawfulMonad (Async Q A) :=
  LawfulMonad.mk' _ (fun t => andThen_done t) (fun _ _ => rfl) fun t f g => andThen_assoc t f g

/-- Every request of the task, whatever the answers are, meets `p`. -/
def Asks (p : Q → Prop) : Async Q A α → Prop
  | done _ => True
  | ask q resume => p q ∧ ∀ a, (resume a).Asks p

theorem Asks.bind {p : Q → Prop} {t : Async Q A α} {f : α → Async Q A β} (ht : t.Asks p) (hf : ∀ a, (f a).Asks p) :
    (t >>= f).Asks p := by
  induction t with
  | done a => exact hf a
  | ask q resume ih => exact ⟨ht.1, fun a => ih a (ht.2 a)⟩

/-! ## One task on a state -/

/-- The request of the task is served: `e` is how that goes. -/
def step (serve : σ → Q → ε → σ × A) (s : σ) (t : Async Q A α) (e : ε) : σ × Async Q A α :=
  match t with
  | done a => (s, done a)
  | ask q resume => ((serve s q e).1, resume (serve s q e).2)

/-- Whatever happens to the state between the requests, as far as `R` allows it, every request meets `G` when it is
    served, and the result meets `P` when it is known. -/
def Safe (serve : σ → Q → ε → σ × A) (R : σ → σ → Prop) (G : σ → Q → Prop) (P : σ → α → Prop) :
    σ → Async Q A α → Prop
  | s, done a => P s a
  | s, ask q resume => ∀ s', R s s' → G s' q ∧ ∀ e, Safe serve R G P (serve s' q e).1 (resume (serve s' q e).2)

/-- One turn: what happens to the state in the meantime, and then how the request goes. -/
structure Turn (σ ε : Type) where
  meanwhile : σ → σ
  how : ε

/-- The task to its end, its requests going as the script says. -/
def finish (serve : σ → Q → ε → σ × A) : (Nat → Turn σ ε) → σ → Async Q A α → σ × α
  | _, s, done a => (s, a)
  | script, s, ask q resume =>
      let served := serve ((script 0).meanwhile s) q (script 0).how
      finish serve (fun n => script (n + 1)) served.1 (resume served.2)

theorem finish_map {serve : σ → Q → ε → σ × A} {script : Nat → Turn σ ε} {s : σ} (t : Async Q A α) (f : α → β) :
    (f <$> t).finish serve script s = ((t.finish serve script s).1, f (t.finish serve script s).2) := by
  -- on the requests of the task
  induction t generalizing s script with
  | done a => rfl
  | ask q resume ih => exact ih _

/-- The task is waiting for an answer. -/
def Waiting : Async Q A α → Prop
  | done _ => False
  | ask _ _ => True

instance : DecidablePred (Waiting : Async Q A α → Prop)
  | done _ => isFalse id
  | ask _ _ => isTrue trivial

section
variable {serve : σ → Q → ε → σ × A} {R : σ → σ → Prop} {G : σ → Q → Prop} {P : σ → α → Prop} {s s' : σ}

theorem Safe.done {a : α} (h : P s a) : Safe serve R G P s (.done a) := h

theorem Safe.ask {q : Q} {resume : A → Async Q A α}
    (h : ∀ s', R s s' → G s' q ∧ ∀ e, Safe serve R G P (serve s' q e).1 (resume (serve s' q e).2)) :
    Safe serve R G P s (.ask q resume) := h

theorem Safe.request {q : Q} {f : A → Async Q A α}
    (h : ∀ s', R s s' → G s' q ∧ ∀ e, Safe serve R G P (serve s' q e).1 (f (serve s' q e).2)) :
    Safe serve R G P s (request q >>= f) := h

/-- A waiting task stays safe while the state moves. -/
theorem Safe.waits (htrans : ∀ a b c, R a b → R b c → R a c) {t : Async Q A α} (ht : t.Waiting)
    (h : Safe serve R G P s t) (hR : R s s') : Safe serve R G P s' t := by
  cases t with
  | done a => exact ht.elim
  | ask q resume => exact fun s'' hR' => h s'' (htrans _ _ _ hR hR')

/-- The request a safe task waits with meets `G`. -/
theorem Safe.request_meets (hrefl : ∀ a, R a a) {q : Q} {resume : A → Async Q A α}
    (h : Safe serve R G P s (.ask q resume)) : G s q := (h s (hrefl s)).1

/-- A safe task is safe after its step. -/
theorem Safe.step (hrefl : ∀ a, R a a) {t : Async Q A α} (h : Safe serve R G P s t) (e : ε) :
    Safe serve R G P (t.step serve s e).1 (t.step serve s e).2 := by
  cases t with
  | done a => exact h
  | ask q resume => exact (h s (hrefl s)).2 e

/-- Weaker conditions are met as well. -/
theorem Safe.weaken {G' : σ → Q → Prop} {P' : σ → α → Prop} (hG : ∀ s q, G s q → G' s q)
    (hP : ∀ s a, P s a → P' s a) {t : Async Q A α} (h : Safe serve R G P s t) : Safe serve R G' P' s t := by
  induction t generalizing s with
  | done a => exact hP s a h
  | ask q resume ih => exact fun s' hR => ⟨hG s' q (h s' hR).1, fun e => ih _ ((h s' hR).2 e)⟩

/-- Sequencing: the second task is safe from wherever the first one ends. -/
theorem Safe.bind {P' : σ → β → Prop} {t : Async Q A α} {f : α → Async Q A β}
    (ht : Safe serve R G (fun s a => Safe serve R G P' s (f a)) s t) : Safe serve R G P' s (t >>= f) := by
  -- on the requests of the first task
  induction t generalizing s with
  | done a => exact ht
  | ask q resume ih => exact fun s' hR => ⟨(ht s' hR).1, fun e => ih _ ((ht s' hR).2 e)⟩

/-- What the state keeps on its own and what every request of the task keeps holds at the end too. -/
theorem Safe.keeps {Inv : σ → Prop} (hR : ∀ s s', R s s' → Inv s → Inv s')
    (hserve : ∀ s q e, G s q → Inv s → Inv (serve s q e).1) {t : Async Q A α} (h : Safe serve R G P s t) :
    Safe serve R G (fun s' a => P s' a ∧ (Inv s → Inv s')) s t := by
  -- on the requests of the task
  induction t generalizing s with
  | done a => exact ⟨h, id⟩
  | ask q resume ih =>
    refine fun s' hR' => ⟨(h s' hR').1, fun e => ?_⟩
    refine (ih _ ((h s' hR').2 e)).weaken (fun _ _ hG => hG) fun s'' a hP => ⟨hP.1, fun hs => hP.2 ?_⟩
    exact hserve s' q e (h s' hR').1 (hR s s' hR' hs)

/-- Less may happen in the meantime. -/
theorem Safe.calm {R' : σ → σ → Prop} (hR : ∀ s s', R' s s' → R s s') {t : Async Q A α} (h : Safe serve R G P s t) :
    Safe serve R' G P s t := by
  induction t generalizing s with
  | done a => exact h
  | ask q resume ih => exact fun s' hR' => ⟨(h s' (hR s s' hR')).1, fun e => ih _ ((h s' (hR s s' hR')).2 e)⟩

/-- Only the requests that the task asks matter of how requests are served. -/
theorem Safe.serve_congr {ε' : Type} {serve' : σ → Q → ε' → σ × A} {f : ε' → ε} {p : Q → Prop}
    (hserve : ∀ s q e, p q → serve' s q e = serve s q (f e)) {t : Async Q A α} (hp : t.Asks p)
    (h : Safe serve R G P s t) : Safe serve' R G P s t := by
  induction t generalizing s with
  | done a => exact h
  | ask q resume ih =>
    refine fun s' hR => ⟨(h s' hR).1, fun e => ?_⟩
    rw [hserve s' q e hp.1]
    exact ih _ (hp.2 _) ((h s' hR).2 (f e))

/-- A safe task has met `P` where it ended, and what the turns keep is kept. -/
theorem Safe.finish (script : Nat → Turn σ ε) (Inv : σ → Prop) (hR : ∀ n s, Inv s → R s ((script n).meanwhile s))
    (hmeanwhile : ∀ n s, Inv s → Inv ((script n).meanwhile s))
    (hserve : ∀ n s q, Inv s → G s q → Inv (serve s q (script n).how).1) {t : Async Q A α}
    (h : Safe serve R G P s t) (hs : Inv s) :
    Inv (t.finish serve script s).1 ∧ P (t.finish serve script s).1 (t.finish serve script s).2 := by
  -- on the requests of the task
  induction t generalizing s script with
  | done a => exact ⟨hs, h⟩
  | ask q resume ih =>
    obtain ⟨hG, hresume⟩ := h _ (hR 0 s hs)
    exact ih _ (fun n => script (n + 1)) (fun n => hR (n + 1)) (fun n => hmeanwhile (n + 1))
      (fun n => hserve (n + 1)) (hresume (script 0).how) (hserve 0 _ q (hmeanwhile 0 s hs) hG)

theorem Safe.map {P' : σ → β → Prop} {t : Async Q A α} {f : α → β}
    (ht : Safe serve R G (fun s a => P' s (f a)) s t) : Safe serve R G P' s (f <$> t) := Safe.bind ht

end

end Async

/-! ## Pools -/

/-- Tasks over one state, each with a name; a finished one has its result. -/
structure Pool (ι σ Q A α : Type) where
  state : σ
  tasks : ι → Async Q A α

namespace Pool

variable {ι Q A α σ ε : Type} [DecidableEq ι]

/-- The request of one task is served. -/
def serve (serve : ι → σ → Q → ε → σ × A) (p : Pool ι σ Q A α) (i : ι) (e : ε) : Pool ι σ Q A α where
  state := ((p.tasks i).step (serve i) p.state e).1
  tasks := Function.update p.tasks i ((p.tasks i).step (serve i) p.state e).2

/-- A task is started under a name whose task, if there was one, has finished. -/
def start (p : Pool ι σ Q A α) (i : ι) (t : Async Q A α) : Pool ι σ Q A α :=
  if (p.tasks i).Waiting then p else { p with tasks := Function.update p.tasks i t }

/-- Every waiting task is safe, each in its own way. -/
def AllSafe (server : ι → σ → Q → ε → σ × A) (R : ι → σ → σ → Prop) (G : ι → σ → Q → Prop)
    (P : ι → σ → α → Prop) (p : Pool ι σ Q A α) : Prop :=
  ∀ i, (p.tasks i).Waiting → (p.tasks i).Safe (server i) (R i) (G i) (P i) p.state

section
variable {server : ι → σ → Q → ε → σ × A} {R : ι → σ → σ → Prop} {G : ι → σ → Q → Prop} {P : ι → σ → α → Prop}
  {p : Pool ι σ Q A α}

/-- The others keep their tasks. -/
theorem tasks_serve_of_ne {i j : ι} (e : ε) (h : j ≠ i) : (p.serve server i e).tasks j = p.tasks j :=
  Function.update_of_ne h _ _

theorem tasks_serve_self (i : ι) (e : ε) :
    (p.serve server i e).tasks i = ((p.tasks i).step (server i) p.state e).2 := Function.update_self _ _ _

omit [DecidableEq ι] in
/-- What the state does on its own leaves all tasks safe, as far as they allow it. -/
theorem AllSafe.moves (h : p.AllSafe server R G P) (htrans : ∀ i a b c, R i a b → R i b c → R i a c) {s : σ}
    (hR : ∀ i, R i p.state s) : ({ p with state := s } : Pool ι σ Q A α).AllSafe server R G P :=
  fun i hi => (h i hi).waits (htrans i) hi (hR i)

/-- **The pool rule.** What one task asks for moves the state as the others allow it. -/
theorem AllSafe.serve (h : p.AllSafe server R G P) (hrefl : ∀ i s, R i s s)
    (htrans : ∀ i a b c, R i a b → R i b c → R i a c)
    (hserve : ∀ i j s q e, j ≠ i → G i s q → R j s (server i s q e).1) (i : ι) (e : ε) :
    (p.serve server i e).AllSafe server R G P := by
  intro j hj
  cases ht : p.tasks i with
  | done a =>
    -- a finished task does nothing
    have hsame : p.serve server i e = p := by
      unfold Pool.serve
      rw [ht]
      show Pool.mk p.state (Function.update p.tasks i (.done a)) = p
      rw [← ht, Function.update_eq_self]
    rw [hsame] at hj ⊢
    exact h j hj
  | ask q resume =>
    have hsafe := h i (by rw [ht]; trivial)
    have hstate : (p.serve server i e).state = (server i p.state q e).1 := by
      show ((p.tasks i).step (server i) p.state e).1 = _
      rw [ht]
      rfl
    by_cases hji : j = i
    · subst hji
      rw [tasks_serve_self]
      exact hsafe.step (hrefl j) e
    · rw [tasks_serve_of_ne e hji] at hj ⊢
      rw [ht] at hsafe
      rw [hstate]
      exact (h j hj).waits (htrans j) hj (hserve i j _ _ e hji (hsafe.request_meets (hrefl i)))

/-- A safe task may be started where none waits; the others stay as safe as they were. -/
theorem allSafe_start {i : ι} {t : Async Q A α} (hi : ¬ (p.tasks i).Waiting)
    (ht : t.Safe (server i) (R i) (G i) (P i) p.state)
    (hothers : ∀ j, j ≠ i → (p.tasks j).Waiting → (p.tasks j).Safe (server j) (R j) (G j) (P j) p.state) :
    (p.start i t).AllSafe server R G P := by
  unfold Pool.start
  rw [if_neg hi]
  intro j hj
  by_cases hji : j = i
  · subst hji
    show (Function.update p.tasks j t j).Safe (server j) (R j) (G j) (P j) p.state
    rw [Function.update_self]
    exact ht
  · have hother : Function.update p.tasks i t j = p.tasks j := Function.update_of_ne hji _ _
    simp only [hother] at hj ⊢
    exact hothers j hji hj

end

end Pool
