import Mathlib.Tactic.Common

/-!
# `Lib.Bytes` — byte order, fixed-width byte strings and byte buffers

Programs that share memory with a kernel or a wire read and write integers as bytes. Three things are
needed and nothing else:

* **byte order** (`Endian`, `Host`): `u16Bytes`/`u32Bytes` give the bytes of a native integer in memory
  order, `u16OfBytes`/`u32OfBytes` read them back, and the two are inverse in both directions;
* **byte strings** of a fixed length (`Bytes n`);
* **buffers** (`List UInt8`): reading `n` bytes at an offset (`loadBytes`) and overwriting them
  (`storeBytes`), with what every proof about a rewritten header uses — each byte after a store
  (`getD_storeBytes`), and reading back what was stored.
-/

/-- A byte string of length `n`. -/
abbrev Bytes (n : Nat) := Vector UInt8 n

/-- The byte order of an integer in memory. -/
inductive Endian where
  | little
  | big
  deriving DecidableEq, Repr

/-- The machine the code runs on: what its native integers look like in memory. -/
class Host where
  endian : Endian

namespace Endian

/-- `u16::to_ne_bytes` on a machine of this byte order. -/
def u16Bytes (e : Endian) (x : UInt16) : Bytes 2 :=
  let lo := UInt8.ofNat x.toNat
  let hi := UInt8.ofNat (x.toNat / 256)
  match e with
  | .little => #v[lo, hi]
  | .big => #v[hi, lo]

/-- `u16::from_ne_bytes` on a machine of this byte order. -/
def u16OfBytes (e : Endian) (b : Bytes 2) : UInt16 :=
  match e with
  | .little => UInt16.ofNat (b[0].toNat + 256 * b[1].toNat)
  | .big => UInt16.ofNat (b[1].toNat + 256 * b[0].toNat)

/-- `u32::to_ne_bytes` on a machine of this byte order. -/
def u32Bytes (e : Endian) (x : UInt32) : Bytes 4 :=
  let b0 := UInt8.ofNat x.toNat
  let b1 := UInt8.ofNat (x.toNat / 256)
  let b2 := UInt8.ofNat (x.toNat / 65536)
  let b3 := UInt8.ofNat (x.toNat / 16777216)
  match e with
  | .little => #v[b0, b1, b2, b3]
  | .big => #v[b3, b2, b1, b0]

/-- `u32::from_ne_bytes` on a machine of this byte order. -/
def u32OfBytes (e : Endian) (b : Bytes 4) : UInt32 :=
  match e with
  | .little =>
      UInt32.ofNat (b[0].toNat + 256 * b[1].toNat + 65536 * b[2].toNat + 16777216 * b[3].toNat)
  | .big =>
      UInt32.ofNat (b[3].toNat + 256 * b[2].toNat + 65536 * b[1].toNat + 16777216 * b[0].toNat)

@[simp] theorem u16OfBytes_u16Bytes (e : Endian) (x : UInt16) : e.u16OfBytes (e.u16Bytes x) = x := by
  have hx := x.toNat_lt
  apply UInt16.toNat_inj.mp
  cases e <;> simp [u16OfBytes, u16Bytes, UInt16.toNat_ofNat'] <;> omega

@[simp] theorem u32OfBytes_u32Bytes (e : Endian) (x : UInt32) : e.u32OfBytes (e.u32Bytes x) = x := by
  have hx := x.toNat_lt
  apply UInt32.toNat_inj.mp
  cases e <;> simp [u32OfBytes, u32Bytes, UInt32.toNat_ofNat'] <;> omega

theorem u16Bytes_inj (e : Endian) {x y : UInt16} : e.u16Bytes x = e.u16Bytes y ↔ x = y :=
  ⟨fun h => by rw [← u16OfBytes_u16Bytes e x, h, u16OfBytes_u16Bytes], fun h => h ▸ rfl⟩

theorem u32Bytes_inj (e : Endian) {x y : UInt32} : e.u32Bytes x = e.u32Bytes y ↔ x = y :=
  ⟨fun h => by rw [← u32OfBytes_u32Bytes e x, h, u32OfBytes_u32Bytes], fun h => h ▸ rfl⟩

@[simp] theorem u32Bytes_u32OfBytes (e : Endian) (b : Bytes 4) : e.u32Bytes (e.u32OfBytes b) = b := by
  have h0 := b[0].toNat_lt
  have h1 := b[1].toNat_lt
  have h2 := b[2].toNat_lt
  have h3 := b[3].toNat_lt
  apply Vector.ext
  intro i hi
  apply UInt8.toNat_inj.mp
  have hi' : i = 0 ∨ i = 1 ∨ i = 2 ∨ i = 3 := by omega
  cases e <;> rcases hi' with rfl | rfl | rfl | rfl <;>
    simp [u32OfBytes, u32Bytes] <;> omega

@[simp] theorem u16Bytes_u16OfBytes (e : Endian) (b : Bytes 2) : e.u16Bytes (e.u16OfBytes b) = b := by
  have h0 := b[0].toNat_lt
  have h1 := b[1].toNat_lt
  apply Vector.ext
  intro i hi
  apply UInt8.toNat_inj.mp
  have hi' : i = 0 ∨ i = 1 := by omega
  cases e <;> rcases hi' with rfl | rfl <;> simp [u16OfBytes, u16Bytes] <;> omega

end Endian

/-! ## Slices of byte strings -/

namespace Bytes

variable {n m : Nat}

/-- The `len` bytes from `off` on. -/
def slice (v : Bytes n) (off len : Nat) (h : off + len ≤ n) : Bytes len :=
  Vector.ofFn fun i => v[off + i]

theorem slice_all (v : Bytes n) (h : 0 + n ≤ n) : slice v 0 n h = v := by
  apply Vector.ext
  intro i hi
  simp [slice]

/-- A slice inside the first of two joined byte strings. -/
theorem slice_append_left {a : Bytes n} {b : Bytes m} {off len : Nat} (h : off + len ≤ n + m)
    (hl : off + len ≤ n) : slice (a ++ b) off len h = slice a off len hl := by
  apply Vector.ext
  intro i hi
  simp only [slice, Vector.getElem_ofFn]
  rw [Vector.getElem_append_left]

/-- A slice inside the second of two joined byte strings. -/
theorem slice_append_right {a : Bytes n} {b : Bytes m} {off len : Nat} (h : off + len ≤ n + m)
    (hr : n ≤ off) : slice (a ++ b) off len h = slice b (off - n) len (by omega) := by
  apply Vector.ext
  intro i hi
  simp only [slice, Vector.getElem_ofFn]
  rw [Vector.getElem_append_right (by omega) (by omega)]
  congr 1
  omega

/-- Two adjacent slices join to one. -/
theorem slice_append_adjacent (v : Bytes n) {off len len' : Nat} (h : off + len ≤ n)
    (h' : off + len + len' ≤ n) :
    slice v off len h ++ slice v (off + len) len' h' = slice v off (len + len') (by omega) := by
  apply Vector.ext
  intro i hi
  rcases Nat.lt_or_ge i len with hlt | hge
  · rw [Vector.getElem_append_left hlt]
    simp [slice]
  · rw [Vector.getElem_append_right (by omega) hge]
    simp only [slice, Vector.getElem_ofFn]
    congr 1
    omega

/-- Two adjacent slices that cover a byte string join back to it. -/
theorem slice_append_slice (v : Bytes (n + m)) (h₁ : 0 + n ≤ n + m) (h₂ : n + m ≤ n + m) :
    slice v 0 n h₁ ++ slice v n m h₂ = v := by
  have hjoin := slice_append_adjacent v h₁ (show 0 + n + m ≤ n + m by omega)
  simp only [Nat.zero_add] at hjoin
  rw [hjoin, slice_all]

/-! The four words of 16 bytes. -/

theorem word0 : 0 + 4 ≤ 16 := by decide
theorem word1 : 4 + 4 ≤ 16 := by decide
theorem word2 : 8 + 4 ≤ 16 := by decide
theorem word3 : 12 + 4 ≤ 16 := by decide

/-- The bytes of four native integers one after the other. -/
def ofWords (e : Endian) (words : Vector UInt32 4) : Bytes 16 :=
  e.u32Bytes words[0] ++ e.u32Bytes words[1] ++ e.u32Bytes words[2] ++ e.u32Bytes words[3]

/-- The four native integers that 16 bytes hold. -/
def toWords (e : Endian) (v : Bytes 16) : Vector UInt32 4 :=
  #v[e.u32OfBytes (slice v 0 4 word0), e.u32OfBytes (slice v 4 4 word1), e.u32OfBytes (slice v 8 4 word2),
    e.u32OfBytes (slice v 12 4 word3)]

@[simp] theorem ofWords_toWords (e : Endian) (v : Bytes 16) : ofWords e (toWords e v) = v := by
  show e.u32Bytes (e.u32OfBytes (slice v 0 4 _)) ++ e.u32Bytes (e.u32OfBytes (slice v 4 4 _)) ++
    e.u32Bytes (e.u32OfBytes (slice v 8 4 _)) ++ e.u32Bytes (e.u32OfBytes (slice v 12 4 _)) = v
  simp only [Endian.u32Bytes_u32OfBytes]
  have h8 := slice_append_adjacent v (show 0 + 4 ≤ 16 by omega) (show 0 + 4 + 4 ≤ 16 by omega)
  have h12 := slice_append_adjacent v (show 0 + 8 ≤ 16 by omega) (show 0 + 8 + 4 ≤ 16 by omega)
  have h16 := slice_append_adjacent v (show 0 + 12 ≤ 16 by omega) (show 0 + 12 + 4 ≤ 16 by omega)
  exact (congrArg₂ _ ((congrArg₂ _ h8 rfl).trans h12) rfl).trans (h16.trans (slice_all _ _))

end Bytes

/-! ## Buffers -/

namespace Buffer

/-- The `n` bytes of `b` from `off` on, if the buffer has them. -/
def loadBytes (n : Nat) (b : List UInt8) (off : Nat) : Option (Bytes n) :=
  if off + n ≤ b.length then some (Vector.ofFn fun i => b.getD (off + i) 0) else none

/-- `b` with the bytes from `off` on replaced by `v`; `none` if the buffer is too short for them. -/
def storeBytes {n : Nat} (b : List UInt8) (off : Nat) (v : Bytes n) : Option (List UInt8) :=
  if off + n ≤ b.length then some (b.take off ++ v.toList ++ b.drop (off + n)) else none

theorem storeBytes_length {n : Nat} {b b' : List UInt8} {off : Nat} {v : Bytes n}
    (h : storeBytes b off v = some b') : b'.length = b.length := by
  unfold storeBytes at h
  split at h
  · cases h
    simp only [List.length_append, List.length_take, List.length_drop, Vector.length_toList]
    omega
  · cases h

theorem getD_storeBytes {n : Nat} {b b' : List UInt8} {off : Nat} {v : Bytes n}
    (h : storeBytes b off v = some b') (j : Nat) :
    b'.getD j 0 = if hj : off ≤ j ∧ j < off + n then v[j - off] else b.getD j 0 := by
  unfold storeBytes at h
  split at h
  · rename_i hlen
    cases h
    simp only [List.getD_eq_getElem?_getD, List.append_assoc]
    rcases Nat.lt_or_ge j off with hlt | hge
    · have hj : ¬(off ≤ j ∧ j < off + n) := by omega
      rw [dif_neg hj, List.getElem?_append_left (by simp; omega), List.getElem?_take_of_lt hlt]
    · rw [List.getElem?_append_right (by simp; omega)]
      have htake : (b.take off).length = off := by simp; omega
      rw [htake]
      rcases Nat.lt_or_ge j (off + n) with hlt | hge'
      · rw [dif_pos ⟨hge, hlt⟩, List.getElem?_append_left (by simp; omega)]
        have hjn : j - off < n := by omega
        simp [hjn]
      · have hj : ¬(off ≤ j ∧ j < off + n) := by omega
        rw [dif_neg hj, List.getElem?_append_right (by simp; omega), List.getElem?_drop]
        congr 2
        simp only [Vector.length_toList]
        omega
  · cases h

/-- Reading back the bytes just stored. -/
theorem loadBytes_store_same {n : Nat} {b b' : List UInt8} {off : Nat} {v : Bytes n}
    (h : storeBytes b off v = some b') : loadBytes n b' off = some v := by
  have hlen := storeBytes_length h
  have hfit : off + n ≤ b.length := by
    unfold storeBytes at h
    split at h
    · assumption
    · cases h
  rw [loadBytes, if_pos (by omega), Option.some_inj]
  apply Vector.ext
  intro i hi
  rw [Vector.getElem_ofFn, getD_storeBytes h, dif_pos (by omega)]
  simp

end Buffer
