import Beep.Lib.Bytes

/-!
# `Lib.OnesComplement` — the sixteen-bit one's-complement sum of a byte string

The checksum of the internet protocols: a byte string is read as 16-bit words in network order, the words are added
with the carry coming back in at the bottom (`sum`), and the string verifies if the sum is all ones (`Verifies`).

Such a sum is a residue modulo `65535` with two representatives of zero, of which it takes `0` for a string of zeroes
only. So a string verifies exactly if its `value` is a positive multiple of `65535` (`verifies_iff`), and `value` is
plain addition: over an even split (`value_append`), and over a buffer in which some bytes are replaced
(`value_range_store`). An integer of the host is its bytes in either order, so up to the factor `Endian.scale` the value
of its bytes is the integer itself (`value_u16Bytes`, `value_u32Bytes`).
-/

namespace OnesComplement

/-- The sum of two words, the carry added back in. -/
def add (a b : UInt16) : UInt16 :=
  let s := a + b
  if s < a then s + 1 else s

/-- The sum of some words. -/
def sum (words : List UInt16) : UInt16 := words.foldl add 0

/-- The words of a byte string; a last odd byte is followed by a zero. -/
def words : List UInt8 → List UInt16
  | hi :: lo :: rest => Endian.big.u16OfBytes #v[hi, lo] :: words rest
  | [hi] => [Endian.big.u16OfBytes #v[hi, 0]]
  | [] => []

/-- What a receiver checks of a string with its checksum in it. -/
def Verifies (bytes : List UInt8) : Prop := sum (words bytes) = 0xffff

instance (bytes : List UInt8) : Decidable (Verifies bytes) := inferInstanceAs (Decidable (_ = _))

/-- The words of a byte string, added as numbers. -/
def value : List UInt8 → Nat
  | hi :: lo :: rest => 256 * hi.toNat + lo.toNat + value rest
  | [hi] => 256 * hi.toNat
  | [] => 0

/-! ## The sum and the value -/

theorem toNat_add (a b : UInt16) :
    (add a b).toNat = if a.toNat + b.toNat < 65536 then a.toNat + b.toNat else a.toNat + b.toNat - 65535 := by
  have ha := a.toNat_lt
  have hb := b.toNat_lt
  simp only [add, UInt16.lt_iff_toNat_lt]
  split <;> split <;> simp_all <;> omega

theorem toNat_big (hi lo : UInt8) : (Endian.big.u16OfBytes #v[hi, lo]).toNat = 256 * hi.toNat + lo.toNat := by
  have hhi := hi.toNat_lt
  have hlo := lo.toNat_lt
  simp [Endian.u16OfBytes]
  omega

/-- From any word on, the sum is the value's residue, and `0` only if nothing was added to `0`. -/
theorem foldl_add (bytes : List UInt8) (acc : UInt16) :
    ((words bytes).foldl add acc).toNat % 65535 = (acc.toNat + value bytes) % 65535 ∧
      (((words bytes).foldl add acc).toNat = 0 ↔ acc.toNat + value bytes = 0) := by
  induction bytes using words.induct generalizing acc with
  | case1 hi lo rest ih =>
    obtain ⟨hresidue, hzero⟩ := ih (add acc (Endian.big.u16OfBytes #v[hi, lo]))
    have hadd := toNat_add acc (Endian.big.u16OfBytes #v[hi, lo])
    rw [toNat_big] at hadd
    simp only [words, List.foldl_cons, value]
    rw [hresidue, hzero, hadd]
    split <;> omega
  | case2 hi =>
    have hadd := toNat_add acc (Endian.big.u16OfBytes #v[hi, 0])
    rw [toNat_big] at hadd
    simp only [words, List.foldl_cons, List.foldl_nil, value]
    rw [hadd]
    simp only [UInt8.toNat_zero, Nat.add_zero]
    split <;> omega
  | case3 => simp [words, value]

/-- **A string verifies** if its value is a multiple of `65535` other than `0`. -/
theorem verifies_iff (bytes : List UInt8) : Verifies bytes ↔ value bytes % 65535 = 0 ∧ 0 < value bytes := by
  obtain ⟨hresidue, hzero⟩ := foldl_add bytes 0
  have hlt := (sum (words bytes)).toNat_lt
  unfold Verifies
  rw [← UInt16.toNat_inj]
  change (sum (words bytes)).toNat % 65535 = _ at hresidue
  change (sum (words bytes)).toNat = 0 ↔ _ at hzero
  simp only [Nat.zero_add, UInt16.toNat_ofNat, Nat.reducePow, Nat.reduceMod] at hresidue hzero ⊢
  omega

/-! ## Parts of a string -/

theorem value_append (a b : List UInt8) (heven : a.length % 2 = 0) : value (a ++ b) = value a + value b := by
  induction a using words.induct with
  | case1 hi lo rest ih =>
    simp only [List.cons_append, value]
    rw [ih (by simp only [List.length_cons] at heven; omega)]
    omega
  | case2 hi => simp at heven
  | case3 => simp [value]

/-- A byte that is not zero shows in the value. -/
theorem value_pos {bytes : List UInt8} {b : UInt8} (hmem : b ∈ bytes) (hb : b ≠ 0) : 0 < value bytes := by
  have hpos : 0 < b.toNat := by
    rw [Nat.pos_iff_ne_zero]
    intro hzero
    exact hb (UInt8.toNat_inj.mp hzero)
  induction bytes using words.induct with
  | case1 hi lo rest ih =>
    simp only [List.mem_cons] at hmem
    simp only [value]
    rcases hmem with rfl | rfl | hrest
    · omega
    · omega
    · have := ih hrest
      omega
  | case2 hi =>
    simp only [List.mem_singleton] at hmem
    subst hmem
    simp only [value]
    omega
  | case3 => simp at hmem

end OnesComplement

namespace Buffer

/-- The `len` bytes of a buffer from `off` on. -/
def range (b : List UInt8) (off len : Nat) : List UInt8 := (b.drop off).take len

theorem length_range {b : List UInt8} {off len : Nat} (hfit : off + len ≤ b.length) :
    (range b off len).length = len := by
  simp only [range, List.length_take, List.length_drop]
  omega

theorem range_add (b : List UInt8) (off m n : Nat) :
    range b off (m + n) = range b off m ++ range b (off + m) n := by
  simp only [range, List.take_add, List.drop_drop]

theorem loadBytes_eq_some {n : Nat} {b : List UInt8} {off : Nat} {v : Bytes n} :
    loadBytes n b off = some v ↔ off + n ≤ b.length ∧ range b off n = v.toList := by
  unfold loadBytes
  by_cases hfit : off + n ≤ b.length
  · rw [if_pos hfit, Option.some_inj]
    have hrange : range b off n = (Vector.ofFn fun i : Fin n => b.getD (off + i) 0).toList := by
      apply List.ext_getElem
      · rw [length_range hfit, Vector.length_toList]
      · intro i hi hi'
        rw [Vector.length_toList] at hi'
        simp only [range, List.getElem_take, List.getElem_drop, Vector.getElem_toList, Vector.getElem_ofFn]
        rw [List.getD_eq_getElem?_getD, List.getElem?_eq_getElem (by omega), Option.getD_some]
    rw [hrange]
    constructor
    · rintro rfl
      exact ⟨hfit, rfl⟩
    · rintro ⟨-, h⟩
      exact Vector.toList_inj.mp h
  · rw [if_neg hfit]
    simp [hfit]

/-- Bytes that are the same one by one are the same range. -/
theorem range_congr {b b' : List UInt8} {off len : Nat} (hlen : b'.length = b.length)
    (h : ∀ i, off ≤ i → i < off + len → b'.getD i 0 = b.getD i 0) : range b' off len = range b off len := by
  apply List.ext_getElem
  · simp [range, hlen]
  · intro i hi hi'
    simp only [range, List.length_take, List.length_drop] at hi hi'
    simp only [range, List.getElem_take, List.getElem_drop]
    have hsame := h (off + i) (by omega) (by omega)
    rwa [List.getD_eq_getElem?_getD, List.getElem?_eq_getElem (by omega), List.getD_eq_getElem?_getD,
      List.getElem?_eq_getElem (by omega)] at hsame

end Buffer

namespace OnesComplement

open Buffer

/-- The value of a range in which `n` bytes are replaced at an even distance from its beginning. -/
theorem value_range_replace {b b' : List UInt8} {off len i n : Nat} (hlen : b'.length = b.length)
    (hfit : off + len ≤ b.length) (hin : i + n ≤ len) (hi : i % 2 = 0) (hn : n % 2 = 0)
    (hsame : ∀ j, ¬ (off + i ≤ j ∧ j < off + i + n) → b'.getD j 0 = b.getD j 0) :
    value (range b' off len) + value (range b (off + i) n) =
      value (range b off len) + value (range b' (off + i) n) := by
  obtain ⟨rest, rfl⟩ := Nat.exists_eq_add_of_le hin
  have hbefore : range b' off i = range b off i := range_congr hlen fun j _ _ => hsame j (by omega)
  have hafter : range b' (off + i + n) rest = range b (off + i + n) rest :=
    range_congr hlen fun j _ _ => hsame j (by omega)
  have hvalue : ∀ c : List UInt8, c.length = b.length → value (range c off (i + n + rest)) =
      value (range c off i) + (value (range c (off + i) n) + value (range c (off + i + n) rest)) := by
    intro c hc
    rw [Nat.add_assoc, range_add, range_add, value_append _ _ (by rw [length_range (by omega)]; exact hi),
      value_append _ _ (by rw [length_range (by omega)]; exact hn)]
  rw [hvalue b' hlen, hvalue b rfl, hbefore, hafter]
  omega

/-! ## Integers of the host -/

/-- The value of an integer's bytes, as a multiple of the integer. -/
def scale : Endian → Nat
  | .little => 256
  | .big => 1

theorem value_u16Bytes (e : Endian) (x : UInt16) :
    ∃ k, scale e * x.toNat = value (e.u16Bytes x).toList + 65535 * k := by
  have hx := x.toNat_lt
  cases e with
  | little =>
    refine ⟨x.toNat / 256, ?_⟩
    simp [Endian.u16Bytes, value, scale]
    omega
  | big =>
    refine ⟨0, ?_⟩
    simp [Endian.u16Bytes, value, scale]
    omega

theorem value_u32Bytes (e : Endian) (x : UInt32) :
    ∃ k, scale e * x.toNat = value (e.u32Bytes x).toList + 65535 * k := by
  have hx := x.toNat_lt
  cases e with
  | little =>
    refine ⟨x.toNat / 256 % 256 + 256 * (x.toNat / 65536 % 256) + 65537 * (x.toNat / 16777216 % 256), ?_⟩
    simp [Endian.u32Bytes, value, scale]
    omega
  | big =>
    refine ⟨256 * (x.toNat / 16777216 % 256) + x.toNat / 65536 % 256, ?_⟩
    simp [Endian.u32Bytes, value, scale]
    omega

/-- Scaling loses no residue. -/
theorem dvd_scale_mul (e : Endian) (z : Int) : 65535 ∣ scale e * z ↔ 65535 ∣ z := by
  cases e <;> simp only [scale] <;> omega

end OnesComplement
