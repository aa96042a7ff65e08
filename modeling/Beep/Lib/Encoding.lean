import Beep.Lib.Net

/-!
# `Lib.Encoding` — bytes and numbers as text

The standard base64 of RFC 4648, with canonical padding and no stray bits, and numbers in a radix: read with an optional
`+` (`fromStrRadix`), written with a fixed width (`hexPadded`). What is written is read back
(`base64Decode_base64Encode`, `fromStrRadix_hexPadded`).
-/

namespace Encoding

/-! ## Base64 -/

/-- The character of six bits. -/
def base64Char (n : Nat) : Char :=
  "ABCDEFGHIJKLMNOPQRSTUVWXYZabcdefghijklmnopqrstuvwxyz0123456789+/".toList.getD n '='

/-- The six bits of a character. -/
def base64Value (c : Char) : Option Nat := (List.range 64).find? fun n => base64Char n == c

set_option maxRecDepth 4000 in
theorem base64Value_base64Char {n : Nat} (h : n < 64) : base64Value (base64Char n) = some n := by
  have hall : ∀ n : Fin 64, base64Value (base64Char n) = some n.val := by decide
  exact hall ⟨n, h⟩

set_option maxRecDepth 4000 in
theorem base64Char_ne_pad {n : Nat} (h : n < 64) : base64Char n ≠ '=' := by
  have hall : ∀ n : Fin 64, base64Char n ≠ '=' := by decide
  exact hall ⟨n, h⟩

/-- Three bytes are four characters; fewer at the end are padded. -/
def base64Encode : List UInt8 → List Char
  | [] => []
  | [a] => [base64Char (a.toNat / 4), base64Char (a.toNat % 4 * 16), '=', '=']
  | [a, b] =>
      [base64Char (a.toNat / 4), base64Char (a.toNat % 4 * 16 + b.toNat / 16), base64Char (b.toNat % 16 * 4), '=']
  | a :: b :: c :: rest =>
      base64Char (a.toNat / 4) :: base64Char (a.toNat % 4 * 16 + b.toNat / 16) ::
        base64Char (b.toNat % 16 * 4 + c.toNat / 64) :: base64Char (c.toNat % 64) :: base64Encode rest

/-- The last four characters: the bits that the padding stands for are zero. -/
def base64DecodeLast (w x y z : Char) : Option (List UInt8) :=
  if y = '=' then do
    let (w, x) := (← base64Value w, ← base64Value x)
    if z = '=' ∧ x % 16 = 0 then some [UInt8.ofNat (w * 4 + x / 16)] else none
  else do
    let (w, x, y) := (← base64Value w, ← base64Value x, ← base64Value y)
    if y % 4 = 0 then some [UInt8.ofNat (w * 4 + x / 16), UInt8.ofNat (x % 16 * 16 + y / 4)] else none

/-- Four characters at a time. -/
def base64Decode : List Char → Option (List UInt8)
  | [] => some []
  | w :: x :: y :: z :: rest =>
      if z = '=' then
        if rest = [] then base64DecodeLast w x y z else none
      else do
        let (w, x, y, z) := (← base64Value w, ← base64Value x, ← base64Value y, ← base64Value z)
        let bytes ← base64Decode rest
        return UInt8.ofNat (w * 4 + x / 16) :: UInt8.ofNat (x % 16 * 16 + y / 4) :: UInt8.ofNat (y % 4 * 64 + z) ::
          bytes
  | _ => none

theorem ofNat_eq_of_toNat (a : UInt8) {n : Nat} (h : n = a.toNat) : UInt8.ofNat n = a := by
  rw [h]
  exact UInt8.ofNat_toNat

theorem base64Decode_base64Encode (bytes : List UInt8) : base64Decode (base64Encode bytes) = some bytes := by
  -- three bytes at a time
  fun_induction base64Encode bytes with
  | case1 => rfl
  | case2 a =>
    have ha := a.toNat_lt
    simp only [base64Decode, base64DecodeLast, if_true, base64Value_base64Char (show a.toNat / 4 < 64 by omega),
      base64Value_base64Char (show a.toNat % 4 * 16 < 64 by omega), Option.bind_eq_bind, Option.bind_some, true_and]
    rw [if_pos (by omega), ofNat_eq_of_toNat a (by omega)]
  | case3 a b =>
    have ha := a.toNat_lt
    have hb := b.toNat_lt
    have hlast : b.toNat % 16 * 4 < 64 := by omega
    simp only [base64Decode, base64DecodeLast, if_true, base64Char_ne_pad hlast, if_false,
      base64Value_base64Char (show a.toNat / 4 < 64 by omega),
      base64Value_base64Char (show a.toNat % 4 * 16 + b.toNat / 16 < 64 by omega), base64Value_base64Char hlast,
      Option.bind_eq_bind, Option.bind_some]
    rw [if_pos (by omega), ofNat_eq_of_toNat a (by omega), ofNat_eq_of_toNat b (by omega)]
  | case4 a b c rest ih =>
    have ha := a.toNat_lt
    have hb := b.toNat_lt
    have hc := c.toNat_lt
    have hlast : c.toNat % 64 < 64 := by omega
    simp only [base64Decode, base64Char_ne_pad hlast, if_false, ih,
      base64Value_base64Char (show a.toNat / 4 < 64 by omega),
      base64Value_base64Char (show a.toNat % 4 * 16 + b.toNat / 16 < 64 by omega),
      base64Value_base64Char (show b.toNat % 16 * 4 + c.toNat / 64 < 64 by omega), base64Value_base64Char hlast,
      Option.bind_eq_bind, Option.bind_some]
    rw [ofNat_eq_of_toNat a (by omega), ofNat_eq_of_toNat b (by omega), ofNat_eq_of_toNat c (by omega)]
    rfl

example : String.ofList (base64Encode "seed".toUTF8.toList) = "c2VlZA==" := by decide +kernel

/-! ## Numbers in a radix -/

/-- The number that digits write after the ones read so far. -/
def digitsValue (radix : Nat) (n : Nat) : List Char → Option Nat
  | [] => some n
  | c :: cs => (IpAddr.toDigit radix c).bind fun d => digitsValue radix (radix * n + d) cs

/-- The text behind an optional `+`. -/
def withoutPlus : List Char → List Char
  | '+' :: rest => rest
  | cs => cs

/-- `from_str_radix` of an unsigned type with `2 ^ bits` values. -/
def fromStrRadix (radix bits : Nat) (cs : List Char) : Option Nat :=
  let digits := withoutPlus cs
  if digits = [] then none else (digitsValue radix 0 digits).filter (· < 2 ^ bits)

/-- `IntErrorKind`. -/
inductive IntErrorKind where
  | empty
  | invalidDigit
  | posOverflow

/-- The number that digits write after the ones read so far, which is to stay below a bound. -/
def digitsBelow (radix bound : Nat) (n : Nat) : List Char → Except IntErrorKind Nat
  | [] => .ok n
  | c :: cs =>
      match IpAddr.toDigit radix c with
      | none => .error .invalidDigit
      | some d => if radix * n + d < bound then digitsBelow radix bound (radix * n + d) cs else .error .posOverflow

/-- `from_str`, with what is wrong with a text that is not read. -/
def fromStr (radix bits : Nat) (cs : List Char) : Except IntErrorKind Nat :=
  if cs = [] then .error .empty
  else if withoutPlus cs = [] then .error .invalidDigit
  else digitsBelow radix (2 ^ bits) 0 (withoutPlus cs)

theorem le_of_digitsValue {radix : Nat} (hradix : 0 < radix) {n v : Nat} {cs : List Char}
    (h : digitsValue radix n cs = some v) : n ≤ v := by
  induction cs generalizing n with
  | nil => exact Nat.le_of_eq (Option.some_inj.mp h)
  | cons c cs ih =>
    obtain ⟨d, -, hd⟩ := Option.bind_eq_some_iff.mp h
    have hgrow : n ≤ radix * n := Nat.le_mul_of_pos_left n hradix
    exact Nat.le_trans (Nat.le_trans hgrow (Nat.le_add_right _ d)) (ih hd)

theorem digitsBelow_eq_ok {radix bound : Nat} (hradix : 0 < radix) {n v : Nat} (hn : n < bound) {cs : List Char} :
    digitsBelow radix bound n cs = .ok v ↔ digitsValue radix n cs = some v ∧ v < bound := by
  induction cs generalizing n with
  | nil =>
    simp only [digitsBelow, digitsValue, Except.ok.injEq, Option.some.injEq]
    exact ⟨fun h => ⟨h, h ▸ hn⟩, And.left⟩
  | cons c cs ih =>
    unfold digitsBelow digitsValue
    cases IpAddr.toDigit radix c with
    | none => simp
    | some d =>
      rw [Option.bind_some]
      dsimp only
      split_ifs with hbelow
      · exact ih hbelow
      · -- it only grows
        refine iff_of_false (fun h => by cases h) fun h => hbelow ?_
        exact Nat.lt_of_le_of_lt (le_of_digitsValue hradix h.1) h.2

/-- What is read is the number that `from_str_radix` reads. -/
theorem fromStr_eq_ok {radix bits : Nat} (hradix : 0 < radix) {cs : List Char} {v : Nat} :
    fromStr radix bits cs = .ok v ↔ fromStrRadix radix bits cs = some v := by
  unfold fromStr fromStrRadix
  dsimp only
  by_cases hdigits : withoutPlus cs = []
  · rw [if_pos hdigits, if_pos hdigits]
    split_ifs <;> simp
  · have hne : cs ≠ [] := by
      rintro rfl
      exact hdigits rfl
    rw [if_neg hne, if_neg hdigits, if_neg hdigits, digitsBelow_eq_ok hradix (Nat.two_pow_pos bits),
      Option.filter_eq_some_iff]
    simp

/-- What is read fits its type. -/
theorem lt_of_fromStrRadix {radix bits v : Nat} {cs : List Char} (h : fromStrRadix radix bits cs = some v) :
    v < 2 ^ bits := by
  unfold fromStrRadix at h
  dsimp only at h
  split_ifs at h
  simpa using (Option.filter_eq_some_iff.mp h).2

/-- A number is written with digits, behind an optional sign. -/
theorem chars_of_digitsValue {radix n v : Nat} {cs : List Char} (h : digitsValue radix n cs = some v) :
    ∀ c ∈ cs, IpAddr.toDigit radix c ≠ none := by
  induction cs generalizing n with
  | nil => simp
  | cons c cs ih =>
    obtain ⟨d, hc, hd⟩ := Option.bind_eq_some_iff.mp h
    intro c' hc'
    rcases List.mem_cons.mp hc' with rfl | hc'
    · simp [hc]
    · exact ih hd c' hc'

theorem chars_of_fromStrRadix {radix bits v : Nat} {cs : List Char} (h : fromStrRadix radix bits cs = some v) :
    cs ≠ [] ∧ ∀ c ∈ cs, IpAddr.toDigit radix c ≠ none ∨ c = '+' := by
  unfold fromStrRadix at h
  dsimp only at h
  split_ifs at h with hdigits
  have hchars := chars_of_digitsValue (Option.filter_eq_some_iff.mp h).1
  refine ⟨fun hnil => hdigits (by rw [hnil]; rfl), fun c hc => ?_⟩
  unfold withoutPlus at hchars
  split at hchars
  · rcases List.mem_cons.mp hc with rfl | hc
    · exact Or.inr rfl
    · exact Or.inl (hchars c hc)
  · exact Or.inl (hchars c hc)

theorem digitsValue_append (radix n : Nat) (cs cs' : List Char) :
    digitsValue radix n (cs ++ cs') = (digitsValue radix n cs).bind fun m => digitsValue radix m cs' := by
  induction cs generalizing n with
  | nil => rfl
  | cons c cs ih =>
    rw [List.cons_append, digitsValue, digitsValue]
    cases IpAddr.toDigit radix c with
    | none => rfl
    | some d => exact ih _

theorem toDigit_digitChar {d : Nat} (h : d < 16) : IpAddr.toDigit 16 (Nat.digitChar d) = some d := by
  have hall : ∀ d : Fin 16, IpAddr.toDigit 16 (Nat.digitChar d) = some d.val := by decide
  exact hall ⟨d, h⟩

theorem digitsValue_toDigits (n : Nat) : digitsValue 16 0 (Nat.toDigits 16 n) = some n := by
  -- on the number, its last digit split off
  induction n using Nat.strongRecOn with
  | ind n ih =>
    rcases Nat.lt_or_ge n 16 with hsmall | hlarge
    · rw [Nat.toDigits_of_lt_base hsmall, digitsValue, toDigit_digitChar hsmall]
      simp [digitsValue]
    · rw [Nat.toDigits_of_base_le (by omega) hlarge, digitsValue_append, ih (n / 16) (by omega), Option.bind_some,
        digitsValue, toDigit_digitChar (Nat.mod_lt n (by omega))]
      simp only [Option.bind_some, digitsValue]
      rw [Nat.div_add_mod]

theorem digitsValue_zeros (n : Nat) (cs : List Char) :
    digitsValue 16 0 (List.replicate n '0' ++ cs) = digitsValue 16 0 cs := by
  induction n with
  | zero => rfl
  | succ n ih => exact ih

/-- `{n:0<width>x}`. -/
def hexPadded (width n : Nat) : List Char :=
  let digits := Nat.toDigits 16 n
  List.replicate (width - digits.length) '0' ++ digits

theorem digitsValue_hexPadded (width n : Nat) : digitsValue 16 0 (hexPadded width n) = some n := by
  rw [hexPadded, digitsValue_zeros, digitsValue_toDigits]

theorem withoutPlus_hexPadded (width n : Nat) : withoutPlus (hexPadded width n) = hexPadded width n := by
  unfold withoutPlus
  split
  · rename_i rest hplus
    -- a sign is no digit
    have hvalue := digitsValue_hexPadded width n
    rw [hplus] at hvalue
    cases hvalue
  · rfl

/-- What is written with a fixed width is read back. -/
theorem fromStrRadix_hexPadded {width bits n : Nat} (h : n < 2 ^ bits) :
    fromStrRadix 16 bits (hexPadded width n) = some n := by
  have hne : hexPadded width n ≠ [] := by simp [hexPadded]
  simp only [fromStrRadix, withoutPlus_hexPadded, hne, if_false, digitsValue_hexPadded]
  simp [h]

end Encoding
