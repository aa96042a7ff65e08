import Mathlib.Data.Finset.Card
import Mathlib.Order.Interval.Finset.Nat
import Mathlib.Tactic.Common

/-!
# `Lib.MultiplyShift` — reducing a hash to a range by multiplication

A hash below `N` is reduced to a slot below `n` as `hash * n / N`, which takes no division where `N` is a power of two.
The slot is in range (`slot_lt`), grows with the hash (`slot_mono`), and every slot has a run of `N / n` hashes, rounded
down or up (`card_slot`).
-/

namespace MultiplyShift

variable {N n : Nat}

theorem slot_lt (hn : 0 < n) {hash : Nat} (hhash : hash < N) : hash * n / N < n :=
  Nat.div_lt_of_lt_mul (Nat.mul_lt_mul_of_pos_right hhash hn)

theorem slot_mono {hash hash' : Nat} (h : hash ≤ hash') : hash * n / N ≤ hash' * n / N :=
  Nat.div_le_div_right (Nat.mul_le_mul_right n h)

/-- Division rounded up, as the least number whose multiple is large enough. -/
theorem ceil_le_iff (hn : 0 < n) {a c : Nat} : (a + (n - 1)) / n ≤ c ↔ a ≤ c * n := by
  rw [Nat.div_le_iff_le_mul_add_pred hn, Nat.mul_comm n c]
  omega

/-- The hashes of a slot are those of an interval. -/
theorem slot_eq_iff (hn : 0 < n) (hN : 0 < N) {hash slot : Nat} :
    hash * n / N = slot ↔
      (slot * N + (n - 1)) / n ≤ hash ∧ hash < ((slot + 1) * N + (n - 1)) / n := by
  rw [ceil_le_iff hn, ← Nat.not_le, ceil_le_iff hn, Nat.not_le]
  constructor
  · rintro rfl
    exact ⟨Nat.div_mul_le_self _ _, Nat.lt_mul_of_div_lt (Nat.lt_succ_self _) hN⟩
  · rintro ⟨hle, hlt⟩
    exact Nat.div_eq_of_lt_le hle hlt

/-- An interval as long as `N`, told in multiples of `n`. -/
theorem ceil_sub_ceil (hn : 0 < n) (a : Nat) :
    (a + N + (n - 1)) / n - (a + (n - 1)) / n = N / n ∨
      (a + N + (n - 1)) / n - (a + (n - 1)) / n = (N + (n - 1)) / n := by
  have hshift : a + N + (n - 1) = a + (n - 1) + N := by omega
  have hlong := Nat.add_div (a := a + (n - 1)) (b := N) hn
  have hceil := Nat.add_div (a := N) (b := n - 1) hn
  have hpred : (n - 1) / n = 0 := Nat.div_eq_of_lt (by omega)
  have hmod : (n - 1) % n = n - 1 := Nat.mod_eq_of_lt (by omega)
  have hrest := Nat.mod_lt (a + (n - 1)) hn
  rw [hpred, hmod] at hceil
  rw [hshift, hlong, hceil]
  generalize (a + (n - 1)) / n = before
  generalize N / n = share
  by_cases hcarry : n ≤ (a + (n - 1)) % n + N % n
  · -- a carry, so `n` does not divide `N`
    right
    rw [if_pos hcarry, if_pos (by omega)]
    omega
  · left
    rw [if_neg hcarry]
    omega

/-- **Every slot has its share**: `N / n` hashes, rounded down or up. -/
theorem card_slot (hn : 0 < n) {slot : Nat} (hslot : slot < n) :
    ((Finset.range N).filter fun hash => hash * n / N = slot).card = N / n ∨
      ((Finset.range N).filter fun hash => hash * n / N = slot).card = (N + (n - 1)) / n := by
  rcases Nat.eq_zero_or_pos N with rfl | hN
  · left
    simp
  have hinterval : (Finset.range N).filter (fun hash => hash * n / N = slot) =
      Finset.Ico ((slot * N + (n - 1)) / n) (((slot + 1) * N + (n - 1)) / n) := by
    ext hash
    rw [Finset.mem_filter, Finset.mem_range, Finset.mem_Ico, slot_eq_iff hn hN]
    constructor
    · exact fun h => h.2
    · intro h
      refine ⟨?_, h⟩
      -- the last interval ends at `N`
      by_contra hlarge
      have hfar : N * n ≤ hash * n := Nat.mul_le_mul_right n (Nat.not_lt.mp hlarge)
      have hnear : (slot + 1) * N ≤ N * n := by
        rw [Nat.mul_comm]
        exact Nat.mul_le_mul_left N hslot
      have hend : ((slot + 1) * N + (n - 1)) / n ≤ hash := (ceil_le_iff hn).mpr (hnear.trans hfar)
      omega
  rw [hinterval, Nat.card_Ico, Nat.add_mul, Nat.one_mul]
  exact ceil_sub_ceil hn (slot * N)

end MultiplyShift
