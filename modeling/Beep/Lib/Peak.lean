import Mathlib.Data.List.Basic
import Mathlib.Order.Basic
import Mathlib.Tactic.Common

/-!
# `Lib.Peak` — the net and the peak of a sequence of changes

Steps that change a count: `net` is what they add up to, `peak` the most they add on the way, which is never below
`0`, where they start. What starts with room for the peak has room for the peak of what is left after every step
(`room_step`), so a sequence that is checked once before it starts stays in bounds throughout.
-/

namespace Peak

variable {α : Type*} {δ : α → Int}

/-- What the steps add up to. -/
def net (δ : α → Int) : List α → Int
  | [] => 0
  | a :: l => δ a + net δ l

/-- The most the steps add on the way. -/
def peak (δ : α → Int) : List α → Int
  | [] => 0
  | a :: l => max 0 (δ a + peak δ l)

@[simp] theorem net_nil : net δ [] = 0 := rfl

@[simp] theorem net_cons (a : α) (l : List α) : net δ (a :: l) = δ a + net δ l := rfl

theorem net_append (l l' : List α) : net δ (l ++ l') = net δ l + net δ l' := by
  induction l with
  | nil => simp
  | cons a l ih => simp only [List.cons_append, net_cons, ih]; omega

theorem net_congr {δ' : α → Int} {l : List α} (h : ∀ a ∈ l, δ a = δ' a) : net δ l = net δ' l := by
  induction l with
  | nil => rfl
  | cons a l ih =>
    rw [net_cons, net_cons, h a List.mem_cons_self, ih fun b hb => h b (List.mem_cons_of_mem _ hb)]

theorem net_nonpos {l : List α} (h : ∀ a ∈ l, δ a ≤ 0) : net δ l ≤ 0 := by
  induction l with
  | nil => exact Int.le_refl 0
  | cons a l ih =>
    have ha := h a List.mem_cons_self
    have hl := ih fun b hb => h b (List.mem_cons_of_mem _ hb)
    rw [net_cons]
    omega

theorem net_nonneg {l : List α} (h : ∀ a ∈ l, 0 ≤ δ a) : 0 ≤ net δ l := by
  induction l with
  | nil => exact Int.le_refl 0
  | cons a l ih =>
    have ha := h a List.mem_cons_self
    have hl := ih fun b hb => h b (List.mem_cons_of_mem _ hb)
    rw [net_cons]
    omega

theorem net_eq_zero {l : List α} (h : ∀ a ∈ l, δ a = 0) : net δ l = 0 :=
  Int.le_antisymm (net_nonpos fun a ha => Int.le_of_eq (h a ha)) (net_nonneg fun a ha => Int.le_of_eq (h a ha).symm)

theorem net_eq_length {l : List α} (h : ∀ a ∈ l, δ a = 1) : net δ l = l.length := by
  induction l with
  | nil => rfl
  | cons a l ih =>
    rw [net_cons, h a List.mem_cons_self, ih fun b hb => h b (List.mem_cons_of_mem _ hb), List.length_cons]
    omega

theorem net_eq_neg_length {l : List α} (h : ∀ a ∈ l, δ a = -1) : net δ l = -l.length := by
  induction l with
  | nil => rfl
  | cons a l ih =>
    rw [net_cons, h a List.mem_cons_self, ih fun b hb => h b (List.mem_cons_of_mem _ hb), List.length_cons]
    omega

theorem peak_nonneg (l : List α) : 0 ≤ peak δ l := by
  cases l with
  | nil => exact Int.le_refl 0
  | cons a l =>
    rw [peak]
    omega

theorem peak_congr {δ' : α → Int} {l : List α} (h : ∀ a ∈ l, δ a = δ' a) : peak δ l = peak δ' l := by
  induction l with
  | nil => rfl
  | cons a l ih => rw [peak, peak, h a List.mem_cons_self, ih fun b hb => h b (List.mem_cons_of_mem _ hb)]

/-- Room for a step and all behind it is room for what is behind it, once the step is done. -/
theorem room_step (a : α) (l : List α) : δ a + peak δ l ≤ peak δ (a :: l) := by
  rw [peak]
  omega

/-- A step that adds nothing, or is left out although it would add something, leaves room for the others. -/
theorem room_skip {a : α} (h : 0 ≤ δ a) (l : List α) : peak δ l ≤ peak δ (a :: l) := by
  have hstep := @room_step _ δ a l
  omega

theorem peak_append (l l' : List α) : peak δ (l ++ l') = max (peak δ l) (net δ l + peak δ l') := by
  induction l with
  | nil =>
    have hpos := @peak_nonneg _ δ l'
    rw [List.nil_append, net_nil, peak]
    omega
  | cons a l ih =>
    rw [List.cons_append, peak, peak, net_cons, ih]
    omega

theorem peak_le_of_prefix {l l' : List α} (h : l <+: l') : peak δ l ≤ peak δ l' := by
  obtain ⟨rest, rfl⟩ := h
  rw [peak_append]
  omega

/-- Where nothing is added the peak is the start. -/
theorem peak_of_nonpos {l : List α} (h : ∀ a ∈ l, δ a ≤ 0) : peak δ l = 0 := by
  induction l with
  | nil => rfl
  | cons a l ih =>
    have ha := h a List.mem_cons_self
    rw [peak, ih fun b hb => h b (List.mem_cons_of_mem _ hb)]
    omega

/-- Where nothing is taken away the peak is the end. -/
theorem peak_of_nonneg {l : List α} (h : ∀ a ∈ l, 0 ≤ δ a) : peak δ l = net δ l := by
  induction l with
  | nil => rfl
  | cons a l ih =>
    have ha := h a List.mem_cons_self
    have hl := ih fun b hb => h b (List.mem_cons_of_mem _ hb)
    have hpos := @peak_nonneg _ δ l
    rw [peak, net_cons, hl]
    omega

/-- **Deletes first.** Where all that is taken away is taken away first, the peak is the start or the end. -/
theorem peak_of_deletes_first {l l' : List α} (h : ∀ a ∈ l, δ a ≤ 0) (h' : ∀ a ∈ l', 0 ≤ δ a) :
    peak δ (l ++ l') = max 0 (net δ (l ++ l')) := by
  rw [peak_append, net_append, peak_of_nonpos h, peak_of_nonneg h']

end Peak
