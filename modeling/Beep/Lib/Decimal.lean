import Beep.Lib.Encoding
import Mathlib.Data.Nat.Init

/-!
# `Lib.Decimal` — decimal numbers of a fixed width

A number written with leading zeros (`Decimal.padded`) is known by its text, and numbers of one width stand in the order
of their texts. Where several fields of fixed widths are written one behind another, the texts are ordered by the first
field in which they differ (`Decimal.append_lt_append_iff`).
-/

namespace Decimal

/-- `{n:0<width>}`: the number with leading zeros, up to `width` characters. -/
def padded (width n : Nat) : List Char :=
  let digits := Nat.toDigits 10 n
  List.replicate (width - digits.length) '0' ++ digits

/-- **A number is known by its text.** -/
theorem padded_inj {width m n : Nat} : padded width m = padded width n ↔ m = n := by
  refine ⟨fun h => ?_, fun h => h ▸ rfl⟩
  have hvalue := congrArg (Nat.ofDigitChars 10 · 0) h
  simpa [padded, Nat.ofDigitChars_append] using hvalue

/-- The last digit of a number that fits its width. -/
theorem padded_succ {width n : Nat} (hwidth : 0 < width) (hn : n < 10 ^ (width + 1)) :
    padded (width + 1) n = padded width (n / 10) ++ [Nat.digitChar (n % 10)] := by
  unfold padded
  rcases Nat.lt_or_ge n 10 with hsmall | hlarge
  · rw [Nat.toDigits_of_lt_base hsmall, Nat.div_eq_of_lt hsmall, Nat.mod_eq_of_lt hsmall,
      Nat.toDigits_of_lt_base (Nat.zero_lt_succ 9)]
    obtain ⟨w, rfl⟩ := Nat.exists_eq_add_of_le' hwidth
    simp [List.replicate_succ', Nat.digitChar]
  · rw [Nat.toDigits_of_base_le (by omega) hlarge]
    simp

/-- A number that fits its width fills it. -/
theorem length_padded {width n : Nat} (hwidth : 0 < width) (hn : n < 10 ^ width) : (padded width n).length = width := by
  induction width, hwidth using Nat.le_induction generalizing n with
  | base =>
    unfold padded
    rw [Nat.toDigits_of_lt_base (by simpa using hn)]
    rfl
  | succ width hwidth ih =>
    rw [padded_succ hwidth hn, List.length_append, ih (by rw [Nat.pow_succ] at hn; omega)]
    rfl

/-! ## The order of texts -/

/-- Behind fields of the same width, what comes next decides only if they are equal. -/
theorem append_lt_append_iff {a a' b b' : List Char} (h : a.length = a'.length) :
    a ++ b < a' ++ b' ↔ a < a' ∨ a = a' ∧ b < b' := by
  induction a generalizing a' with
  | nil =>
    rw [List.length_eq_zero_iff.mp h.symm]
    simp
  | cons c a ih =>
    cases a' with
    | nil => simp at h
    | cons c' a' =>
      simp only [List.cons_append, List.cons_lt_cons_iff, ih (Nat.succ_inj.mp h), List.cons.injEq]
      tauto

theorem digitChar_lt_digitChar {m n : Nat} (hm : m < 10) (hn : n < 10) :
    Nat.digitChar m < Nat.digitChar n ↔ m < n := by
  have hall : ∀ m n : Fin 10, Nat.digitChar m < Nat.digitChar n ↔ m < n := by decide
  exact hall ⟨m, hm⟩ ⟨n, hn⟩

/-- **Numbers of one width stand in the order of their texts.** -/
theorem padded_lt_padded {width m n : Nat} (hwidth : 0 < width) (hm : m < 10 ^ width) (hn : n < 10 ^ width) :
    padded width m < padded width n ↔ m < n := by
  -- on the width, the last digit split off
  induction width, hwidth using Nat.le_induction generalizing m n with
  | base =>
    simp only [Nat.pow_one] at hm hn
    unfold padded
    rw [Nat.toDigits_of_lt_base hm, Nat.toDigits_of_lt_base hn]
    simpa [List.cons_lt_cons_iff] using digitChar_lt_digitChar hm hn
  | succ width hwidth ih =>
    rw [padded_succ hwidth hm, padded_succ hwidth hn]
    rw [Nat.pow_succ] at hm hn
    have hm' : m / 10 < 10 ^ width := by omega
    have hn' : n / 10 < 10 ^ width := by omega
    rw [append_lt_append_iff (by rw [length_padded hwidth hm', length_padded hwidth hn']), ih hm' hn', padded_inj,
      List.cons_lt_cons_iff, digitChar_lt_digitChar (Nat.mod_lt _ (by decide)) (Nat.mod_lt _ (by decide))]
    simp only [List.not_lt_nil, and_false, or_false]
    omega

/-! ## Fields of fixed widths -/

section
variable {width m n : Nat} {sep : Char} {b b' : List Char}

/-- A field decides, unless it is the same. -/
theorem field_lt_field (hwidth : 0 < width) (hm : m < 10 ^ width) (hn : n < 10 ^ width) :
    padded width m ++ sep :: b < padded width n ++ sep :: b' ↔ m < n ∨ m = n ∧ b < b' := by
  rw [append_lt_append_iff (by rw [length_padded hwidth hm, length_padded hwidth hn]), padded_lt_padded hwidth hm hn,
    padded_inj, List.cons_lt_cons_iff]
  simp

theorem field_inj (hwidth : 0 < width) (hm : m < 10 ^ width) (hn : n < 10 ^ width) :
    padded width m ++ sep :: b = padded width n ++ sep :: b' ↔ m = n ∧ b = b' := by
  rw [List.append_eq_append_iff_of_size_eq_left (by rw [length_padded hwidth hm, length_padded hwidth hn]), padded_inj]
  simp

end

end Decimal
