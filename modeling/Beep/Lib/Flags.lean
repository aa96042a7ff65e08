import Mathlib.Tactic.Common

/-!
# `Lib.Flags` — flag words

A flag word is a `UInt16` whose bits are tested (`w &&& mask`), set (`w ||| mask`) and cleared
(`w &&& ~~~mask`) by mask. Two facts carry every argument about such words: a test of the mask just
written, and a test of a mask that shares no bit with it. A mask of one bit (`IsBit`) is in the word whole or
not at all, so a word is known from the tests of its single bits (`eq_of_and_eq`).
-/

namespace Flags

variable {w b c : UInt16}

/-- Setting `b` does not change a test of a disjoint mask. -/
theorem or_and_of_disjoint (h : b &&& c = 0) : (w ||| b) &&& c = w &&& c := by
  have hb := congrArg UInt16.toBitVec h
  apply UInt16.toBitVec_inj.mp
  simp only [UInt16.toBitVec_and, UInt16.toBitVec_or, UInt16.toBitVec_ofNat] at hb ⊢
  ext i hi
  have hbit := congrArg (fun v : BitVec 16 => v.getLsbD i) hb
  simp at hbit
  grind

/-- Clearing `b` does not change a test of a disjoint mask. -/
theorem andNot_and_of_disjoint (h : b &&& c = 0) : (w &&& ~~~b) &&& c = w &&& c := by
  have hb := congrArg UInt16.toBitVec h
  apply UInt16.toBitVec_inj.mp
  simp only [UInt16.toBitVec_and, UInt16.toBitVec_not, UInt16.toBitVec_ofNat] at hb ⊢
  ext i hi
  have hbit := congrArg (fun v : BitVec 16 => v.getLsbD i) hb
  simp at hbit
  grind

@[simp] theorem or_and_self (w b : UInt16) : (w ||| b) &&& b = b := by
  apply UInt16.toBitVec_inj.mp
  ext i hi
  simp
  grind

@[simp] theorem andNot_and_self (w b : UInt16) : (w &&& ~~~b) &&& b = 0 := by
  apply UInt16.toBitVec_inj.mp
  ext i hi
  simp

/-! ## Single bits -/

/-- A mask of one bit. -/
structure IsBit (b : UInt16) : Prop where
  ne_zero : b ≠ 0
  whole : ∀ w : UInt16, w &&& b ≠ 0 → w &&& b = b

theorem isBit_twoPow {i : Nat} (hi : i < 16) : IsBit ⟨BitVec.twoPow 16 i⟩ where
  ne_zero := by
    intro h
    have hbit := congrArg (fun w : UInt16 => w.toBitVec.getLsbD i) h
    simp [hi] at hbit
  whole w h := by
    apply UInt16.toBitVec_inj.mp
    have hbit : w.toBitVec.getLsbD i = true := by
      by_contra hclear
      apply h
      apply UInt16.toBitVec_inj.mp
      simp [BitVec.and_twoPow, hclear]
    simp [BitVec.and_twoPow, hbit]

/-- Two words agree on a bit when both or neither have it. -/
theorem IsBit.and_eq_iff (hb : IsBit b) {v : UInt16} : w &&& b = v &&& b ↔ (w &&& b ≠ 0 ↔ v &&& b ≠ 0) := by
  constructor
  · intro h
    rw [h]
  · intro h
    by_cases hw : w &&& b ≠ 0
    · rw [hb.whole w hw, hb.whole v (h.mp hw)]
    · rw [not_not.mp hw, not_not.mp (mt h.mpr hw)]

theorem and_or_distrib (w b c : UInt16) : w &&& (b ||| c) = (w &&& b) ||| (w &&& c) := by
  apply UInt16.toBitVec_inj.mp
  ext i hi
  simp
  grind

/-- Both of two bits are set. -/
theorem and_or_eq_iff (hb : IsBit b) (hc : IsBit c) : w &&& (b ||| c) = b ||| c ↔ w &&& b ≠ 0 ∧ w &&& c ≠ 0 := by
  have hpart : ∀ d e : UInt16, w &&& (d ||| e) = d ||| e → w &&& d = d := by
    intro d e h
    have hd := congrArg (· &&& d) h
    simp only [UInt16.and_assoc] at hd
    have habsorb : (d ||| e) &&& d = d := by rw [UInt16.or_comm, or_and_self]
    rwa [habsorb] at hd
  constructor
  · intro h
    refine ⟨?_, ?_⟩
    · rw [hpart b c h]
      exact hb.ne_zero
    · rw [UInt16.or_comm] at h
      rw [hpart c b h]
      exact hc.ne_zero
  · rintro ⟨hwb, hwc⟩
    rw [and_or_distrib, hb.whole w hwb, hc.whole w hwc]

/-- Words that agree on a mask and outside it are the same. -/
theorem eq_of_and_eq {v : UInt16} (m : UInt16) (h : w &&& m = v &&& m) (h' : w &&& ~~~m = v &&& ~~~m) : w = v := by
  have hsplit : ∀ w : UInt16, w = (w &&& m) ||| (w &&& ~~~m) := by
    intro w
    rw [← and_or_distrib]
    simp
  rw [hsplit w, hsplit v, h, h']

/-! ## Bits set and cleared under a condition -/

section
variable {p : Prop} [Decidable p]

theorem set_and_of_disjoint (h : b &&& c = 0) : (if p then w ||| b else w) &&& c = w &&& c := by
  split
  · exact or_and_of_disjoint h
  · rfl

theorem clear_and_of_disjoint (h : b &&& c = 0) : (if p then w &&& ~~~b else w) &&& c = w &&& c := by
  split
  · exact andNot_and_of_disjoint h
  · rfl

/-- A bit after it may have been set. -/
theorem set_and_ne_zero (hb : IsBit b) : (if p then w ||| b else w) &&& b ≠ 0 ↔ p ∨ w &&& b ≠ 0 := by
  by_cases hp : p
  · simp [hp, hb.ne_zero]
  · simp [hp]

/-- A bit after a mask it is part of may have been cleared. -/
theorem clear_and_ne_zero (h : c &&& b = b) : (if p then w &&& ~~~c else w) &&& b ≠ 0 ↔ ¬ p ∧ w &&& b ≠ 0 := by
  have hclear : w &&& ~~~c &&& b = 0 := by
    rw [← h, ← UInt16.and_assoc, andNot_and_self]
    simp
  by_cases hp : p
  · simp [hp, hclear]
  · simp [hp]

end

end Flags
