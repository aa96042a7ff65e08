import Beep.Lib.Bytes
import Mathlib.Algebra.Group.Nat.Defs
import Mathlib.Data.List.Induction

/-!
# `Lib.Net` — IP addresses and their text

An address of either family, the order of addresses (every IPv4 address before every IPv6 one, each family by its
bytes), the parser of the textual forms (dotted decimal without leading zeros; groups of up to four hexadecimal digits with
at most one `::` and possibly an IPv4 address in place of the last two groups), and the text an address is shown as.
-/

/-- An IP address: an IPv4 one as the number its four bytes write, an IPv6 one as its bytes. -/
inductive IpAddr where
  | v4 (bits : UInt32)
  | v6 (octets : Bytes 16)
  deriving DecidableEq

namespace IpAddr

/-- `is_ipv6`. -/
def isIpv6 : IpAddr → Bool
  | .v4 _ => false
  | .v6 _ => true

/-- `is_ipv4`. -/
def isIpv4 (ip : IpAddr) : Bool := !ip.isIpv6

/-- The number the bytes of an IPv6 address write. -/
def octetsToNat (octets : Bytes 16) : Nat := octets.toList.foldl (fun n b => 256 * n + b.toNat) 0

/-- The place of an address in the order of addresses. -/
def rank : IpAddr → Nat
  | .v4 bits => bits.toNat
  | .v6 octets => 2 ^ 32 + octetsToNat octets

theorem foldl_octets_inj (l l' : List UInt8) (h : l.length = l'.length)
    (heq : l.foldl (fun n b => 256 * n + b.toNat) 0 = l'.foldl (fun n b => 256 * n + b.toNat) 0) : l = l' := by
  -- on the bytes, the last one first
  induction l using List.reverseRecOn generalizing l' with
  | nil => exact (List.length_eq_zero_iff.mp h.symm).symm
  | append_singleton l b ih =>
    cases l' using List.reverseRecOn with
    | nil => simp at h
    | append_singleton l' b' =>
      rw [List.foldl_append, List.foldl_append, List.foldl_cons, List.foldl_cons, List.foldl_nil, List.foldl_nil] at heq
      have hb := b.toNat_lt
      have hb' := b'.toNat_lt
      have hbytes : b = b' := UInt8.toNat_inj.mp (by omega)
      rw [ih l' (by simpa using h) (by omega), hbytes]

/-- An address is known by its place. -/
theorem rank_inj {ip ip' : IpAddr} : ip.rank = ip'.rank ↔ ip = ip' := by
  refine ⟨fun h => ?_, fun h => h ▸ rfl⟩
  cases ip with
  | v4 bits =>
    have hbits := bits.toNat_lt
    cases ip' with
    | v4 bits' => exact congrArg v4 (UInt32.toNat_inj.mp h)
    | v6 octets' =>
      simp only [rank] at h
      omega
  | v6 octets =>
    cases ip' with
    | v4 bits' =>
      have hbits := bits'.toNat_lt
      simp only [rank] at h
      omega
    | v6 octets' =>
      refine congrArg v6 (Vector.toList_inj.mp (foldl_octets_inj _ _ (by simp) ?_))
      exact Nat.add_left_cancel h

/-! ## Parsing -/

/-- `char::to_digit`. -/
def toDigit (radix : Nat) (c : Char) : Option Nat :=
  let n := c.toNat
  let digit :=
    if 48 ≤ n ∧ n ≤ 57 then some (n - 48)
    else if 97 ≤ n ∧ n ≤ 122 then some (n - 97 + 10)
    else if 65 ≤ n ∧ n ≤ 90 then some (n - 65 + 10)
    else none
  digit.filter (· < radix)

/-- Splits off the digits a text begins with. -/
def spanDigits (radix : Nat) : List Char → List Nat × List Char
  | [] => ([], [])
  | c :: cs =>
      match toDigit radix c with
      | some d => let (ds, rest) := spanDigits radix cs; (d :: ds, rest)
      | none => ([], c :: cs)

/-- `read_number`: a number of at most `maxDigits` digits that is below `bound`. -/
def readNumber (radix maxDigits bound : Nat) (allowZeroPrefix : Bool) (cs : List Char) :
    Option (Nat × List Char) :=
  let (digits, rest) := spanDigits radix cs
  let value := digits.foldl (fun n d => radix * n + d) 0
  if digits = [] ∨ maxDigits < digits.length then none
  else if !allowZeroPrefix && digits.head? == some 0 && 1 < digits.length then none
  else if value < bound then some (value, rest)
  else none

/-- `read_given_char`. -/
def readGivenChar (c : Char) : List Char → Option (List Char)
  | [] => none
  | c' :: cs => if c' = c then some cs else none

/-- `read_separator`: every item but the first stands behind the separator. -/
def readSeparator (sep : Char) (i : Nat) (cs : List Char) : Option (List Char) :=
  if i = 0 then some cs else readGivenChar sep cs

/-- `read_ipv4_addr`. -/
def readIpv4Addr (cs : List Char) : Option (UInt32 × List Char) := do
  let octet (i : Nat) (cs : List Char) := (readSeparator '.' i cs).bind (readNumber 10 3 256 false)
  let (a, cs) ← octet 0 cs
  let (b, cs) ← octet 1 cs
  let (c, cs) ← octet 2 cs
  let (d, cs) ← octet 3 cs
  return (UInt32.ofNat (((a * 256 + b) * 256 + c) * 256 + d), cs)

/-- `read_groups`, for `left` more groups of which the first is number `i`: the groups, whether they end in an
    IPv4 address, and the rest. -/
def readGroups : (left i : Nat) → List Char → List Nat × Bool × List Char
  | 0, _, cs => ([], false, cs)
  | left + 1, i, cs =>
      -- an embedded IPv4 address takes the place of two groups
      match (if 1 ≤ left then (readSeparator ':' i cs).bind readIpv4Addr else none) with
      | some (bits, rest) => ([bits.toNat / 65536, bits.toNat % 65536], true, rest)
      | none =>
          match (readSeparator ':' i cs).bind (readNumber 16 4 65536 true) with
          | some (group, rest) =>
              let (groups, embedded, rest) := readGroups left (i + 1) rest
              (group :: groups, embedded, rest)
          | none => ([], false, cs)

/-- The address eight groups write. -/
def ofGroups (groups : List Nat) : Bytes 16 :=
  Vector.ofFn fun i : Fin 16 =>
    let group := groups.getD (i / 2) 0
    UInt8.ofNat (if i.val % 2 = 0 then group / 256 else group % 256)

/-- `read_ipv6_addr`. -/
def readIpv6Addr (cs : List Char) : Option (Bytes 16 × List Char) :=
  let (head, headIpv4, cs) := readGroups 8 0 cs
  if head.length = 8 then some (ofGroups head, cs)
  else if headIpv4 then none
  else do
    let cs ← readGivenChar ':' cs
    let cs ← readGivenChar ':' cs
    let (tail, _, cs) := readGroups (8 - (head.length + 1)) 0 cs
    return (ofGroups (head ++ List.replicate (8 - head.length - tail.length) 0 ++ tail), cs)

/-- `str::parse::<IpAddr>`: the whole text is one address. -/
def parse (s : String) : Option IpAddr :=
  let cs := s.toList
  match (readIpv4Addr cs).map (fun r => (IpAddr.v4 r.1, r.2)) <|>
      (readIpv6Addr cs).map (fun r => (IpAddr.v6 r.1, r.2)) with
  | some (ip, []) => some ip
  | _ => none

/-! ## Display -/

/-- `Display` of an IPv4 address. -/
def displayV4 (bits : UInt32) : String :=
  let byte (shift : Nat) := toString (bits.toNat / shift % 256)
  ".".intercalate [byte 16777216, byte 65536, byte 256, byte 1]

/-- The groups of an IPv6 address. -/
def segments (octets : Bytes 16) : List Nat :=
  (List.range 8).map fun i => 256 * (octets.toList.getD (2 * i) 0).toNat + (octets.toList.getD (2 * i + 1) 0).toNat

/-- The first of the longest runs of zero groups, as its start and its length. -/
def zeroRun (groups : List Nat) : Nat × Nat :=
  (groups.zipIdx.foldl (fun (runs : (Nat × Nat) × (Nat × Nat)) group =>
    let (current, longest) := runs
    if group.1 = 0 then
      let current := (if current.2 = 0 then group.2 else current.1, current.2 + 1)
      (current, if longest.2 < current.2 then current else longest)
    else ((0, 0), longest)) ((0, 0), (0, 0))).2

/-- `Display` of an IPv6 address. -/
def displayV6 (octets : Bytes 16) : String :=
  let groups := segments octets
  let subslice (groups : List Nat) := ":".intercalate (groups.map fun g => String.ofList (Nat.toDigits 16 g))
  if groups.take 6 = [0, 0, 0, 0, 0, 0xffff] then
    "::ffff:" ++ displayV4 (UInt32.ofNat (65536 * groups.getD 6 0 + groups.getD 7 0))
  else
    let (start, len) := zeroRun groups
    if 1 < len then subslice (groups.take start) ++ "::" ++ subslice (groups.drop (start + len))
    else subslice groups

/-- `Display` of an address. -/
def display : IpAddr → String
  | .v4 bits => displayV4 bits
  | .v6 octets => displayV6 octets

example : parse "10.1.0.9" = some (.v4 0x0a010009) := by decide

example : parse "10.1.0.09" = none := by decide

example : parse "fd00::1:10.0.0.1" =
    some (.v6 #v[0xfd, 0, 0, 0, 0, 0, 0, 0, 0, 0, 0, 1, 10, 0, 0, 1]) := by decide

example : (parse "fd00:0:0:1::1").map display = some "fd00:0:0:1::1" := by decide

end IpAddr
