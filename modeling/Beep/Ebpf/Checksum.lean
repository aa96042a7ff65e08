import Beep.Lib.OnesComplement
import Beep.Ebpf.Rewrite

/-!
# `Ebpf.Checksum` — what the rewrites make of a checksum

An incremental update (`csumReplace`) moves a checksum by the difference of two words, modulo `65535`, and never leaves
it all ones (`toNat_csumReplace`): where the updates come to a multiple of `65535` the field is `0`
(`updated_eq_zero`). Both rewrites are told from that: the field afterwards is the one before with an update for each
word that changes, or as it was where UDP's checksum is not in use (`inUse`), and the words around the field move by
what the updates miss (`rewriteL4Port_checksum`, `rewriteAddrPort_checksum`).
-/

namespace Beep

open OnesComplement Buffer

/-! ## One update -/

theorem toNat_csumAdd (a b : UInt32) : (csumAdd a b).toNat =
    if a.toNat + b.toNat < 4294967296 then a.toNat + b.toNat else a.toNat + b.toNat - 4294967295 := by
  have ha := a.toNat_lt
  have hb := b.toNat_lt
  simp only [csumAdd, UInt32.lt_iff_toNat_lt]
  split <;> split <;> simp_all <;> omega

/-- The low and the high half of a 32-bit sum, added. -/
theorem toNat_halves (s : UInt32) :
    ((s &&& (0xffff : UInt32)) + (s >>> 16)).toNat = s.toNat % 65536 + s.toNat / 65536 := by
  have hs := s.toNat_lt
  have hand : s.toNat &&& 65535 = s.toNat % 65536 := Nat.and_two_pow_sub_one_eq_mod s.toNat 16
  simp only [UInt32.toNat_add, UInt32.toNat_and, UInt32.toNat_shiftRight, UInt32.toNat_ofNat, Nat.reducePow,
    Nat.reduceMod, Nat.shiftRight_eq_div_pow, hand]
  omega

/-- Folding a sum other than `0` gives its negative, reduced. -/
theorem toNat_csumFold {s : UInt32} (hs : 0 < s.toNat) :
    ∃ k, (csumFold s).toNat + s.toNat = 65535 * k ∧ (csumFold s).toNat < 65535 := by
  have hlt := s.toNat_lt
  have h₁ := toNat_halves s
  have h₂ := toNat_halves ((s &&& (0xffff : UInt32)) + (s >>> 16))
  rw [h₁] at h₂
  have hfold : (csumFold s).toNat = 65535 - ((s.toNat % 65536 + s.toNat / 65536) % 65536 +
      (s.toNat % 65536 + s.toNat / 65536) / 65536) := by
    simp only [csumFold, UInt16.toNat_not, UInt32.toNat_toUInt16, h₂]
    simp only [UInt16.size]
    omega
  rw [hfold]
  refine ⟨1 + s.toNat / 65536 + (s.toNat % 65536 + s.toNat / 65536) / 65536, ?_, ?_⟩ <;> omega

/-- **One update** moves a checksum by the difference of the words, and never leaves it all ones. -/
theorem toNat_csumReplace (sum : UInt16) (old new : UInt32) :
    ∃ k : Int, ((csumReplace sum old new).toNat : Int) + new.toNat = sum.toNat + old.toNat + 65535 * k ∧
      (csumReplace sum old new).toNat < 65535 := by
  have hsum := sum.toNat_lt
  have hold := old.toNat_lt
  have hnew := new.toNat_lt
  have h₁ := toNat_csumAdd (~~~ sum.toUInt32) (~~~ old)
  have h₂ := toNat_csumAdd (csumAdd (~~~ sum.toUInt32) (~~~ old)) new
  simp only [UInt32.toNat_not, UInt32.size, UInt16.toNat_toUInt32] at h₁
  -- the complement of a 16-bit word, extended, is not zero
  have hpos : 0 < (csumAdd (csumAdd (~~~ sum.toUInt32) (~~~ old)) new).toNat := by
    split at h₁ <;> split at h₂ <;> omega
  obtain ⟨k, hk, hlt⟩ := toNat_csumFold hpos
  have hnum : ∃ j : Nat, (csumAdd (csumAdd (~~~ sum.toUInt32) (~~~ old)) new).toNat + sum.toNat + old.toNat =
      new.toNat + 65535 * j := by
    split at h₁ <;> split at h₂
    · exact ⟨131074, by omega⟩
    · exact ⟨65537, by omega⟩
    · exact ⟨65537, by omega⟩
    · exact ⟨0, by omega⟩
  obtain ⟨j, hj⟩ := hnum
  refine ⟨(k : Int) - j, ?_, hlt⟩
  unfold csumReplace
  omega

section
variable [Host]

/-! ## On the wire -/

/-- The number the bytes of a port or a checksum stand for. -/
def wire16 (x : UInt16) : Int := value (Host.endian.u16Bytes x).toList

/-- The sum of the two numbers the bytes of a word stand for. -/
def wire32 (x : UInt32) : Int := value (Host.endian.u32Bytes x).toList

/-- The words of an address in the 16-byte shape, added as numbers. -/
def wireAddr (ip : Bytes 16) : Int := value ip.toList

theorem wire16_scale (x : UInt16) : ∃ k : Int, scale Host.endian * x.toNat = wire16 x + 65535 * k := by
  obtain ⟨k, hk⟩ := value_u16Bytes Host.endian x
  exact ⟨k, by unfold wire16; omega⟩

theorem wire32_scale (x : UInt32) : ∃ k : Int, scale Host.endian * x.toNat = wire32 x + 65535 * k := by
  obtain ⟨k, hk⟩ := value_u32Bytes Host.endian x
  exact ⟨k, by unfold wire32; omega⟩

theorem wire32_toUInt32 (x : UInt16) : ∃ k : Int, wire32 x.toUInt32 = wire16 x + 65535 * k := by
  obtain ⟨k, hk⟩ := wire32_scale x.toUInt32
  obtain ⟨j, hj⟩ := wire16_scale x
  rw [UInt16.toNat_toUInt32] at hk
  exact ⟨j - k, by omega⟩

/-- A checksum stands for a multiple of `65535` only as one of the two zeroes. -/
theorem wire16_dvd (x : UInt16) (hx : x.toNat < 65535) : (65535 : Int) ∣ wire16 x ↔ x = 0 := by
  obtain ⟨k, hk⟩ := wire16_scale x
  have hscale := dvd_scale_mul Host.endian x.toNat
  rw [← UInt16.toNat_inj, UInt16.toNat_zero]
  omega

theorem wire16_csumReplace (sum : UInt16) (old new : UInt32) :
    ∃ k : Int, wire16 (csumReplace sum old new) = wire16 sum + (wire32 old - wire32 new) + 65535 * k := by
  obtain ⟨k, hk, -⟩ := toNat_csumReplace sum old new
  obtain ⟨k₁, h₁⟩ := wire16_scale (csumReplace sum old new)
  obtain ⟨k₂, h₂⟩ := wire16_scale sum
  obtain ⟨k₃, h₃⟩ := wire32_scale old
  obtain ⟨k₄, h₄⟩ := wire32_scale new
  cases hendian : Host.endian with
  | little =>
    rw [hendian] at h₁ h₂ h₃ h₄
    simp only [scale] at h₁ h₂ h₃ h₄
    exact ⟨256 * k - k₁ + k₂ + k₃ - k₄, by omega⟩
  | big =>
    rw [hendian] at h₁ h₂ h₃ h₄
    simp only [scale] at h₁ h₂ h₃ h₄
    exact ⟨k - k₁ + k₂ + k₃ - k₄, by omega⟩

/-! ## Several updates -/

/-- A checksum after an update for each of the changed words. -/
def updated (sum : UInt16) (ws : List (UInt32 × UInt32)) : UInt16 :=
  ws.foldl (fun sum w => csumReplace sum w.1 w.2) sum

/-- By how much the updates move a checksum. -/
def drift : List (UInt32 × UInt32) → Int
  | [] => 0
  | w :: ws => wire32 w.1 - wire32 w.2 + drift ws

theorem drift_append (ws ws' : List (UInt32 × UInt32)) : drift (ws ++ ws') = drift ws + drift ws' := by
  induction ws with
  | nil => simp [drift]
  | cons w ws ih =>
    simp only [List.cons_append, drift, ih]
    omega

theorem wire16_updated (sum : UInt16) (ws : List (UInt32 × UInt32)) :
    ∃ k : Int, wire16 (updated sum ws) = wire16 sum + drift ws + 65535 * k := by
  induction ws generalizing sum with
  | nil => exact ⟨0, by simp [updated, drift]⟩
  | cons w ws ih =>
    obtain ⟨k, hk⟩ := wire16_csumReplace sum w.1 w.2
    obtain ⟨j, hj⟩ := ih (csumReplace sum w.1 w.2)
    refine ⟨k + j, ?_⟩
    change wire16 (updated (csumReplace sum w.1 w.2) ws) = _
    simp only [drift]
    omega

omit [Host] in
theorem updated_lt (sum : UInt16) (w : UInt32 × UInt32) (ws : List (UInt32 × UInt32)) :
    (updated sum (w :: ws)).toNat < 65535 := by
  induction ws generalizing sum w with
  | nil =>
    obtain ⟨_, _, hlt⟩ := toNat_csumReplace sum w.1 w.2
    simp only [updated, List.foldl_cons, List.foldl_nil, hlt]
  | cons w' ws ih =>
    simp only [updated, List.foldl_cons] at ih ⊢
    exact ih (csumReplace sum w.1 w.2) w'

/-- **The zero**: what updates leave is `0` exactly if they come to a multiple of `65535`. -/
theorem updated_eq_zero (sum : UInt16) {ws : List (UInt32 × UInt32)} (hws : ws ≠ []) :
    updated sum ws = 0 ↔ (65535 : Int) ∣ wire16 sum + drift ws := by
  obtain ⟨w, ws, rfl⟩ := List.exists_cons_of_ne_nil hws
  obtain ⟨k, hk⟩ := wire16_updated sum (w :: ws)
  rw [← wire16_dvd _ (updated_lt sum w ws)]
  omega

/-! ## The words of a packet -/

/-- The words of the packet in a range of offsets, added as numbers. -/
def Skb.value (skb : Skb) (off len : Nat) : Int := OnesComplement.value (range skb.data off len)

omit [Host] in
theorem Skb.value_of_load {skb : Skb} {off n : Nat} {v : Bytes n} (h : skb.load off n = some v) :
    skb.value off n = OnesComplement.value v.toList := by
  rw [Skb.value, (loadBytes_eq_some.mp h).2]

theorem Skb.value_of_load_u16 {skb : Skb} {off : Nat} {x : UInt16} (h : skb.load.u16 off = some x) :
    skb.value off 2 = wire16 x := by
  obtain ⟨b, hb, rfl⟩ := Option.map_eq_some_iff.mp h
  rw [Skb.value_of_load hb, wire16, Endian.u16Bytes_u16OfBytes]

/-- The `n` bytes at `p` are whole words of the `len` bytes at `off`. -/
structure Aligned (off len p n : Nat) : Prop where
  low : off ≤ p
  high : p + n ≤ off + len
  even : (p - off) % 2 = 0
  whole : n % 2 = 0

namespace SameBut

variable {skb skb' : Skb}

omit [Host] in
/-- Replacing some words moves the sum of the words around them by their difference. -/
theorem value {p n off len : Nat} (h : SameBut (Within p n) skb skb') (hfit : off + len ≤ skb.data.length)
    (hp : Aligned off len p n) :
    skb'.value off len + skb.value p n = skb.value off len + skb'.value p n := by
  obtain ⟨hlo, hhi, heven, hn⟩ := hp
  obtain ⟨i, rfl⟩ := Nat.exists_eq_add_of_le hlo
  have hsame : ∀ j, ¬ (off + i ≤ j ∧ j < off + i + n) → skb'.data.getD j 0 = skb.data.getD j 0 := h.bytes
  have hvalue := value_range_replace h.length hfit (i := i) (n := n) (by omega) (by omega) hn hsame
  unfold Skb.value
  exact_mod_cast hvalue

omit [Host] in
/-- Words elsewhere add up to what they did. -/
theorem value_outside {W : Nat → Prop} {off len : Nat} (h : SameBut W skb skb')
    (hout : ∀ i, Within off len i → ¬ W i) : skb'.value off len = skb.value off len := by
  unfold Skb.value
  rw [range_congr h.length fun i hlo hhi => h.bytes i (hout i ⟨hlo, hhi⟩)]

theorem load_u16 {W : Nat → Prop} {off : Nat} (h : SameBut W skb skb') (hout : ∀ i, Within off 2 i → ¬ W i) :
    skb'.load.u16 off = skb.load.u16 off := by
  unfold Loader.u16
  rw [h.load hout]

end SameBut

/-! ## Edits -/

/-- The packet with the checksum at `off` updated for the words. -/
structure Updated (off : Nat) (ws : List (UInt32 × UInt32)) (skb skb' : Skb) : Prop where
  same : SameBut (Within off 2) skb skb'
  field : ∀ sum, skb.load.u16 off = some sum → skb'.load.u16 off = some (updated sum ws)

namespace Updated

variable {off : Nat} {ws ws' : List (UInt32 × UInt32)} {skb skb' skb'' : Skb}

theorem refl (off : Nat) (skb : Skb) : Updated off [] skb skb := ⟨.refl _ _, fun _ h => h⟩

theorem trans (h : Updated off ws skb skb') (h' : Updated off ws' skb' skb'') :
    Updated off (ws ++ ws') skb skb'' := by
  refine ⟨h.same.trans h'.same, ?_⟩
  intro sum hsum
  rw [updated, List.foldl_append]
  exact h'.field _ (h.field sum hsum)

theorem csum {ok : Bool} {old new : UInt32} (h : Edit.csum ok off old new skb = (skb', true)) :
    Updated off [(old, new)] skb skb' := by
  unfold Edit.csum at h
  cases hload : skb.load.u16 off with
  | none => simp [hload] at h
  | some sum =>
    rw [hload] at h
    obtain ⟨hsame, hstored⟩ := Edit.store_eq_true h
    refine ⟨hsame, ?_⟩
    intro sum' hsum'
    rw [hload] at hsum'
    cases hsum'
    rw [Loader.u16, hstored, Option.map_some, Endian.u16OfBytes_u16Bytes]
    rfl

/-- The words around the checksum move with it. -/
theorem value (h : Updated off ws skb skb') {sum : UInt16} (hsum : skb.load.u16 off = some sum) {start len : Nat}
    (hfit : start + len ≤ skb.data.length) (hoff : Aligned start len off 2) :
    ∃ k : Int, skb'.value start len = skb.value start len + drift ws + 65535 * k := by
  obtain ⟨k, hk⟩ := wire16_updated sum ws
  have hvalue := h.same.value hfit hoff
  rw [Skb.value_of_load_u16 hsum, Skb.value_of_load_u16 (h.field sum hsum)] at hvalue
  exact ⟨k, by omega⟩

end Updated

namespace Edit

variable {skb skb' : Skb}

omit [Host] in
/-- The words around a stored field move by what the field changes. -/
theorem store_value {n p : Nat} {ok : Bool} {v old : Bytes n} (h : store ok p v skb = (skb', true))
    (hold : skb.load p n = some old) {start len : Nat} (hfit : start + len ≤ skb.data.length)
    (hp : Aligned start len p n) :
    skb'.value start len + OnesComplement.value old.toList =
      skb.value start len + OnesComplement.value v.toList := by
  obtain ⟨hsame, hstored⟩ := store_eq_true h
  have hvalue := hsame.value hfit hp
  rwa [Skb.value_of_load hold, Skb.value_of_load hstored] at hvalue

/-- The words around a stored port. -/
theorem store_port_value {p : Nat} {ok : Bool} {new old : UInt16}
    (h : store ok p (Host.endian.u16Bytes new) skb = (skb', true)) (hold : skb.load.u16 p = some old)
    {start len : Nat} (hfit : start + len ≤ skb.data.length) (hp : Aligned start len p 2) :
    skb'.value start len = skb.value start len - (wire16 old - wire16 new) := by
  obtain ⟨b, hb, rfl⟩ := Option.map_eq_some_iff.mp hold
  have hvalue := store_value h hb hfit hp
  simp only [wire16, Endian.u16Bytes_u16OfBytes]
  omega

/-- The updates of the L4 checksum: none if it is not in use. -/
def inUse (proto : UInt8) (sum : UInt16) (ws : List (UInt32 × UInt32)) : List (UInt32 × UInt32) :=
  if proto = ipprotoUdp ∧ sum = 0 then [] else ws

/-- The updates for a port that may change. -/
def portWords (oldPort newPort : UInt16) : List (UInt32 × UInt32) :=
  if oldPort = newPort then [] else [(oldPort.toUInt32, newPort.toUInt32)]

theorem drift_port (oldPort newPort : UInt16) :
    ∃ k : Int, drift [(oldPort.toUInt32, newPort.toUInt32)] = wire16 oldPort - wire16 newPort + 65535 * k := by
  obtain ⟨k, hk⟩ := wire32_toUInt32 oldPort
  obtain ⟨j, hj⟩ := wire32_toUInt32 newPort
  simp only [drift]
  exact ⟨k - j, by omega⟩

/-- **`rewrite_l4_port`**: the checksum, if in use, is updated for the port, and the words around both move by what the
    checksum misses. -/
theorem rewriteL4Port_checksum {h : Helpers} {l4Off portOff : Nat} {oldPort newPort sum : UInt16} {proto : UInt8}
    (hres : rewriteL4Port h l4Off portOff oldPort newPort proto skb = (skb', true))
    (hold : skb.load.u16 portOff = some oldPort) (hsum : skb.load.u16 (l4CsumOff l4Off proto) = some sum)
    {start len : Nat} (hfit : start + len ≤ skb.data.length) (hport : Aligned start len portOff 2)
    (hcsum : Aligned start len (l4CsumOff l4Off proto) 2) (hdis : portOff + 2 ≤ l4CsumOff l4Off proto) :
    skb'.load.u16 (l4CsumOff l4Off proto) = some (updated sum (inUse proto sum (portWords oldPort newPort))) ∧
      ∃ k : Int, skb'.value start len =
        skb.value start len + drift (inUse proto sum (portWords oldPort newPort)) -
          drift (portWords oldPort newPort) + 65535 * k := by
  unfold rewriteL4Port at hres
  by_cases hsame : oldPort = newPort
  · rw [if_pos hsame] at hres
    cases hres
    simp only [portWords, if_pos hsame, inUse, ite_self]
    exact ⟨hsum, 0, by omega⟩
  · rw [if_neg hsame] at hres
    simp only [portWords, if_neg hsame]
    obtain ⟨j, hj⟩ := drift_port oldPort newPort
    -- whatever was updated before it, storing the port finishes the rewrite
    have hfinish : ∀ {ws : List (UInt32 × UInt32)} {mid : Skb}, Updated (l4CsumOff l4Off proto) ws skb mid →
        store (h .remapStore) portOff (Host.endian.u16Bytes newPort) mid = (skb', true) →
        skb'.load.u16 (l4CsumOff l4Off proto) = some (updated sum ws) ∧
          ∃ k : Int, skb'.value start len = skb.value start len + drift ws -
            drift [(oldPort.toUInt32, newPort.toUInt32)] + 65535 * k := by
      intro ws mid hupd hstore
      obtain ⟨k, hk⟩ := hupd.value hsum hfit hcsum
      have holdMid : mid.load.u16 portOff = some oldPort := by
        rw [hupd.same.load_u16, hold]
        intro i hi hw
        have := hi.2
        have := hw.1
        omega
      have hvalue := store_port_value hstore holdMid (by rw [hupd.same.length]; exact hfit) hport
      refine ⟨?_, k + j, by omega⟩
      rw [(store_eq_true hstore).1.load_u16, hupd.field sum hsum]
      intro i hi hw
      have := hi.1
      have := hw.2
      omega
    by_cases hudp : proto = ipprotoUdp
    · have hoff : l4CsumOff l4Off proto = l4Off + 6 := by
        rw [hudp]
        rfl
      simp only [if_pos hudp] at hres
      rw [← hoff, hsum] at hres
      simp only at hres
      by_cases hzero : sum = 0
      · rw [if_pos hzero] at hres
        rw [inUse, if_pos ⟨hudp, hzero⟩]
        exact hfinish (.refl _ _) hres
      · rw [if_neg hzero] at hres
        rw [inUse, if_neg fun hc => hzero hc.2]
        obtain ⟨mid, hfst, hsnd⟩ := andThen_eq_true.mp hres
        exact hfinish (.csum hfst) hsnd
    · simp only [if_neg hudp] at hres
      rw [inUse, if_neg fun hc => hudp hc.1]
      obtain ⟨mid, hfst, hsnd⟩ := andThen_eq_true.mp hres
      exact hfinish (.csum hfst) hsnd

/-! ### Addresses -/

/-- The updates for an address of the family: its one wire token, or the four words of an IPv6 address. -/
def addrWords (oldIp newIp : Bytes 16) : Family → List (UInt32 × UInt32)
  | .v4 =>
      match unmapIpv4 oldIp, unmapIpv4 newIp with
      | some old, some new => [(old, new)]
      | _, _ => []
  | .v6 =>
      [(addrWord oldIp 0 Bytes.word0, addrWord newIp 0 Bytes.word0),
        (addrWord oldIp 4 Bytes.word1, addrWord newIp 4 Bytes.word1),
        (addrWord oldIp 8 Bytes.word2, addrWord newIp 8 Bytes.word2),
        (addrWord oldIp 12 Bytes.word3, addrWord newIp 12 Bytes.word3)]

/-- An IPv4 address has the words `0xffff` and its own. -/
theorem wireAddr_mapped (x : UInt32) : wireAddr (ipv4MappedV6 x) = 65535 + wire32 x := by
  have hprefix : ((Vector.replicate 10 0 : Bytes 10) ++ (#v[0xff, 0xff] : Bytes 2)).toList.length % 2 = 0 := by
    rw [Vector.length_toList]
  have hvalue : OnesComplement.value ((Vector.replicate 10 0 : Bytes 10) ++ (#v[0xff, 0xff] : Bytes 2)).toList =
      65535 := by decide
  rw [wireAddr, ipv4MappedV6, Vector.toList_append, value_append _ _ hprefix, hvalue, wire32]
  omega

theorem wireAddr_words (ip : Bytes 16) :
    wireAddr ip = wire32 (addrWord ip 0 Bytes.word0) + wire32 (addrWord ip 4 Bytes.word1) +
      wire32 (addrWord ip 8 Bytes.word2) + wire32 (addrWord ip 12 Bytes.word3) := by
  have hwords : ip = Host.endian.u32Bytes (addrWord ip 0 Bytes.word0) ++
      Host.endian.u32Bytes (addrWord ip 4 Bytes.word1) ++ Host.endian.u32Bytes (addrWord ip 8 Bytes.word2) ++
      Host.endian.u32Bytes (addrWord ip 12 Bytes.word3) := (Bytes.ofWords_toWords Host.endian ip).symm
  rw [wireAddr]
  conv_lhs => rw [hwords]
  simp only [Vector.toList_append]
  rw [value_append _ _ (by simp), value_append _ _ (by simp), value_append _ _ (by simp)]
  simp only [wire32]
  omega

/-- The two stores at the end of an address rewrite. -/
theorem store_addr_port_value {n ipOff portOff : Nat} {okAddr okPort : Bool} {new old : Bytes n}
    {newPort oldPort : UInt16}
    (h : andThen (store okAddr ipOff new) (store okPort portOff (Host.endian.u16Bytes newPort)) skb = (skb', true))
    (hdis : ipOff + n ≤ portOff) (hold : skb.load ipOff n = some old)
    (holdPort : skb.load.u16 portOff = some oldPort) {start len : Nat} (hfit : start + len ≤ skb.data.length)
    (hip : Aligned start len ipOff n) (hport : Aligned start len portOff 2) :
    skb'.value start len = skb.value start len -
      (OnesComplement.value old.toList - OnesComplement.value new.toList) - (wire16 oldPort - wire16 newPort) := by
  obtain ⟨mid, haddr, hstore⟩ := andThen_eq_true.mp h
  have hsame := (store_eq_true haddr).1
  have hmid : mid.load.u16 portOff = some oldPort := by
    rw [hsame.load_u16, holdPort]
    intro i hi hw
    have := hi.1
    have := hw.2
    omega
  have h₁ := store_value haddr hold hfit hip
  have h₂ := store_port_value hstore hmid (by rw [hsame.length]; exact hfit) hport
  omega

/-- What is left of an address rewrite once the checksum is up to date. -/
theorem finish_checksum {n ipOff portOff off : Nat} {ws : List (UInt32 × UInt32)} {mid : Skb} {okAddr okPort : Bool}
    {new old : Bytes n} {newPort oldPort sum : UInt16} (hupd : Updated off ws skb mid)
    (h : andThen (store okAddr ipOff new) (store okPort portOff (Host.endian.u16Bytes newPort)) mid = (skb', true))
    (hdis : ipOff + n ≤ portOff) (hdis' : portOff + 2 ≤ off) (hold : skb.load ipOff n = some old)
    (holdPort : skb.load.u16 portOff = some oldPort) (hsum : skb.load.u16 off = some sum) {start len : Nat}
    (hfit : start + len ≤ skb.data.length) (hip : Aligned start len ipOff n) (hport : Aligned start len portOff 2)
    (hoff : Aligned start len off 2) :
    skb'.load.u16 off = some (updated sum ws) ∧
      ∃ k : Int, skb'.value start len = skb.value start len + drift ws -
        (OnesComplement.value old.toList - OnesComplement.value new.toList) - (wire16 oldPort - wire16 newPort) +
        65535 * k := by
  have hmid : mid.load ipOff n = some old := by
    rw [hupd.same.load, hold]
    intro i hi hw
    have := hi.2
    have := hw.1
    omega
  have hmidPort : mid.load.u16 portOff = some oldPort := by
    rw [hupd.same.load_u16, holdPort]
    intro i hi hw
    have := hi.2
    have := hw.1
    omega
  have hvalue := store_addr_port_value h hdis hmid hmidPort (by rw [hupd.same.length]; exact hfit) hip hport
  obtain ⟨k, hk⟩ := hupd.value hsum hfit hoff
  refine ⟨?_, k, by omega⟩
  obtain ⟨mid', haddr, hstore⟩ := andThen_eq_true.mp h
  rw [(store_eq_true hstore).1.load_u16, (store_eq_true haddr).1.load_u16, hupd.field sum hsum]
  · intro i hi hw
    have := hi.1
    have := hw.2
    omega
  · intro i hi hw
    have := hi.1
    have := hw.2
    omega

/-- All the updates of an address rewrite. -/
def addrPortWords (fam : Family) (oldIp newIp : Bytes 16) (oldPort newPort : UInt16) : List (UInt32 × UInt32) :=
  addrWords oldIp newIp fam ++ [(oldPort.toUInt32, newPort.toUInt32)]

omit [Host] in
/-- The addresses are the end of the IP header. -/
theorem family_layout (fam : Family) : fam.dstOff = fam.srcOff + fam.addrLen ∧
    fam.ipHlen = fam.srcOff + 2 * fam.addrLen ∧ fam.srcOff % 2 = 0 ∧ fam.addrLen % 2 = 0 := by
  cases fam <;> decide

omit [Host] in
theorem l4CsumOff_eq_add (l4Off : Nat) (proto : UInt8) :
    ∃ c, l4CsumOff l4Off proto = l4Off + c ∧ c % 2 = 0 ∧ 6 ≤ c ∧ c + 2 ≤ l4Hlen proto := by
  unfold l4CsumOff l4Hlen
  by_cases htcp : proto = ipprotoTcp
  · exact ⟨16, by simp [htcp]⟩
  · exact ⟨6, by simp [htcp]⟩

/-- Where the fields of the rewrites lie among the addresses and the L4 segment. -/
structure Fields (fam : Family) (proto : UInt8) (ipOff len addrOff portOff : Nat) : Prop where
  addr : Aligned (ipOff + fam.srcOff) (2 * fam.addrLen + len) addrOff fam.addrLen
  port : Aligned (ipOff + fam.srcOff) (2 * fam.addrLen + len) portOff 2
  csum : Aligned (ipOff + fam.srcOff) (2 * fam.addrLen + len) (l4CsumOff (ipOff + fam.ipHlen) proto) 2
  addr_le : addrOff + fam.addrLen ≤ portOff
  port_le : portOff + 2 ≤ l4CsumOff (ipOff + fam.ipHlen) proto

omit [Host] in
theorem fields {fam : Family} {proto : UInt8} {ipOff len addrOff portOff : Nat}
    (haddr : addrOff = ipOff + fam.srcOff ∨ addrOff = ipOff + fam.dstOff)
    (hport : portOff = ipOff + fam.ipHlen ∨ portOff = ipOff + fam.ipHlen + 2) (hlen : l4Hlen proto ≤ len) :
    Fields fam proto ipOff len addrOff portOff := by
  obtain ⟨hdst, hhlen, hsrc, heven⟩ := family_layout fam
  obtain ⟨c, hc, hceven, hlow, hhigh⟩ := l4CsumOff_eq_add (ipOff + fam.ipHlen) proto
  refine ⟨⟨?_, ?_, ?_, heven⟩, ⟨?_, ?_, ?_, rfl⟩, ⟨?_, ?_, ?_, rfl⟩, ?_, ?_⟩ <;> omega

/-- All the updates together, of an address that unmaps where it has to. -/
theorem drift_addrPort (fam : Family) {oldIp newIp : Bytes 16} (oldPort newPort : UInt16)
    (hmapped : fam = .v4 → (unmapIpv4 oldIp).isSome ∧ (unmapIpv4 newIp).isSome) :
    ∃ k : Int, drift (addrPortWords fam oldIp newIp oldPort newPort) =
      wireAddr oldIp - wireAddr newIp + (wire16 oldPort - wire16 newPort) + 65535 * k := by
  obtain ⟨k, hk⟩ := drift_port oldPort newPort
  refine ⟨k, ?_⟩
  rw [addrPortWords, drift_append, hk]
  cases fam with
  | v4 =>
    obtain ⟨old, hold⟩ := Option.isSome_iff_exists.mp (hmapped rfl).1
    obtain ⟨new, hnew⟩ := Option.isSome_iff_exists.mp (hmapped rfl).2
    rw [← ipv4MappedV6_of_unmapIpv4 hold, ← ipv4MappedV6_of_unmapIpv4 hnew, wireAddr_mapped, wireAddr_mapped]
    simp only [addrWords, unmapIpv4_ipv4MappedV6, drift]
    omega
  | v6 =>
    rw [wireAddr_words oldIp, wireAddr_words newIp]
    simp only [addrWords, drift]
    omega

/-- A rewrite that goes through had IPv4 addresses to rewrite. -/
theorem mapped_of_rewriteAddrPort {h : Helpers} {fam : Family} {addrOff portOff : Nat} {oldIp newIp : Bytes 16}
    {oldPort newPort : UInt16} {proto : UInt8}
    (hres : rewriteAddrPort h addrOff oldIp newIp portOff oldPort newPort proto fam skb = (skb', true))
    (hfam : fam = .v4) : (unmapIpv4 oldIp).isSome ∧ (unmapIpv4 newIp).isSome := by
  subst hfam
  unfold rewriteAddrPort at hres
  simp only at hres
  split at hres
  · rename_i old new hold hnew
    rw [hold, hnew]
    exact ⟨rfl, rfl⟩
  · cases hres

/-- Whether a rewrite leaves the L4 checksum out. -/
theorem checksum_disabled {l4Off : Nat} {proto : UInt8} {sum : UInt16} {disabled : Bool}
    (hsum : skb.load.u16 (l4CsumOff l4Off proto) = some sum)
    (h : (if proto = ipprotoUdp then (skb.load.u16 (l4Off + 6)).map (· == 0) else some false) = some disabled) :
    disabled = decide (proto = ipprotoUdp ∧ sum = 0) := by
  split at h
  · rename_i hudp
    have hoff : l4CsumOff l4Off proto = l4Off + 6 := by
      rw [hudp]
      rfl
    rw [← hoff, hsum, Option.map_some, Option.some.injEq] at h
    simp [← h, hudp, beq_eq_decide]
  · rename_i hudp
    simp only [Option.some.injEq] at h
    simp [← h, hudp]

/-- The edits of `rewrite_ip_port`: both checksums, then the fields. -/
theorem rewriteIpPort_edits {h : Helpers} {addrOff portOff : Nat} {old new : UInt32} {oldPort newPort sum : UInt16}
    {proto : UInt8} (hres : rewriteIpPort h addrOff old new portOff oldPort newPort proto skb = (skb', true))
    (hsum : skb.load.u16 (l4CsumOff (ethHlen + Family.v4.ipHlen) proto) = some sum) :
    ∃ skb₁ skb₂, Updated (ethHlen + 10) [(old, new)] skb skb₁ ∧
      Updated (l4CsumOff (ethHlen + Family.v4.ipHlen) proto)
        (inUse proto sum [(old, new), (oldPort.toUInt32, newPort.toUInt32)]) skb₁ skb₂ ∧
      andThen (store (h .addrStore) addrOff (Host.endian.u32Bytes new))
        (store (h .portStore) portOff (Host.endian.u16Bytes newPort)) skb₂ = (skb', true) := by
  unfold rewriteIpPort at hres
  simp only at hres
  split at hres
  · cases hres
  · rename_i disabled hread
    obtain ⟨skb₁, hip, hres⟩ := andThen_eq_true.mp hres
    obtain ⟨skb₂, hl4, hres⟩ := andThen_eq_true.mp hres
    refine ⟨skb₁, skb₂, .csum hip, ?_, hres⟩
    rw [checksum_disabled hsum hread] at hl4
    unfold inUse
    by_cases hoff : proto = ipprotoUdp ∧ sum = 0
    · simp only [hoff, and_self, decide_true, if_true] at hl4 ⊢
      cases hl4
      exact .refl _ _
    · simp only [hoff, decide_false, Bool.false_eq_true, if_false] at hl4 ⊢
      obtain ⟨mid, haddr, hport⟩ := andThen_eq_true.mp hl4
      exact (Updated.csum haddr).trans (.csum hport)

/-- The edits of `rewrite_ipv6_port`: the L4 checksum, then the fields. -/
theorem rewriteIpv6Port_edits {h : Helpers} {addrOff portOff l4Off : Nat} {oldIp newIp : Bytes 16}
    {oldPort newPort sum : UInt16} {proto : UInt8}
    (hres : rewriteIpv6Port h addrOff oldIp newIp portOff oldPort newPort proto (l4CsumOff l4Off proto) (l4Off + 6)
      skb = (skb', true))
    (hsum : skb.load.u16 (l4CsumOff l4Off proto) = some sum) :
    ∃ mid, Updated (l4CsumOff l4Off proto) (inUse proto sum (addrPortWords .v6 oldIp newIp oldPort newPort)) skb mid ∧
      andThen (store (h .addrStore) addrOff newIp) (store (h .portStore) portOff (Host.endian.u16Bytes newPort)) mid =
        (skb', true) := by
  unfold rewriteIpv6Port at hres
  simp only at hres
  split at hres
  · cases hres
  · rename_i disabled hread
    obtain ⟨mid, hl4, hres⟩ := andThen_eq_true.mp hres
    refine ⟨mid, ?_, hres⟩
    rw [checksum_disabled hsum hread] at hl4
    unfold inUse
    by_cases hoff : proto = ipprotoUdp ∧ sum = 0
    · simp only [hoff, and_self, decide_true, if_true] at hl4 ⊢
      cases hl4
      exact .refl _ _
    · simp only [hoff, decide_false, Bool.false_eq_true, if_false] at hl4 ⊢
      obtain ⟨m₀, h₀, hl4⟩ := andThen_eq_true.mp hl4
      obtain ⟨m₁, h₁, hl4⟩ := andThen_eq_true.mp hl4
      obtain ⟨m₂, h₂, hl4⟩ := andThen_eq_true.mp hl4
      obtain ⟨m₃, h₃, hport⟩ := andThen_eq_true.mp hl4
      exact (Updated.csum h₀).trans ((Updated.csum h₁).trans ((Updated.csum h₂).trans ((Updated.csum h₃).trans
        (.csum hport))))

/-- The token an IPv4 address in the packet unmaps to. -/
theorem load_of_unmap {addrOff : Nat} {ip : Bytes 16} {token : UInt32}
    (hip : Family.v4.loadAddr skb.load addrOff = some ip) (h : unmapIpv4 ip = some token) :
    skb.load addrOff 4 = some (Host.endian.u32Bytes token) := by
  obtain ⟨b, hb, hmapped⟩ := Option.map_eq_some_iff.mp hip
  rw [← hmapped, unmapIpv4_ipv4MappedV6] at h
  rw [hb, ← Option.some.inj h, Endian.u32Bytes_u32OfBytes]

/-- **`rewrite_ip_port` and `rewrite_ipv6_port`**: the checksum, if in use, is updated for the address and the port, and
    the words around all of them move by what the checksum misses. -/
theorem rewriteAddrPort_checksum {h : Helpers} {fam : Family} {addrOff portOff len : Nat} {oldIp newIp : Bytes 16}
    {oldPort newPort sum : UInt16} {proto : UInt8}
    (hres : rewriteAddrPort h addrOff oldIp newIp portOff oldPort newPort proto fam skb = (skb', true))
    (hip : fam.loadAddr skb.load addrOff = some oldIp) (hport : skb.load.u16 portOff = some oldPort)
    (hsum : skb.load.u16 (l4CsumOff (ethHlen + fam.ipHlen) proto) = some sum)
    (hf : Fields fam proto ethHlen len addrOff portOff) (hfit : ethHlen + fam.ipHlen + len ≤ skb.data.length) :
    skb'.load.u16 (l4CsumOff (ethHlen + fam.ipHlen) proto) =
        some (updated sum (inUse proto sum (addrPortWords fam oldIp newIp oldPort newPort))) ∧
      ∃ k : Int, skb'.value (ethHlen + fam.srcOff) (2 * fam.addrLen + len) =
        skb.value (ethHlen + fam.srcOff) (2 * fam.addrLen + len) +
          drift (inUse proto sum (addrPortWords fam oldIp newIp oldPort newPort)) -
          drift (addrPortWords fam oldIp newIp oldPort newPort) + 65535 * k := by
  have hstart : ethHlen + fam.srcOff + (2 * fam.addrLen + len) ≤ skb.data.length := by
    have := (family_layout fam).2.1
    omega
  cases fam with
  | v4 =>
    unfold rewriteAddrPort at hres
    simp only at hres
    split at hres
    · rename_i old new hold hnew
      have hwords : [(old, new), (oldPort.toUInt32, newPort.toUInt32)] =
          addrPortWords .v4 oldIp newIp oldPort newPort := by
        simp only [addrPortWords, addrWords, hold, hnew, List.cons_append, List.nil_append]
      obtain ⟨j, hj⟩ := drift_addrPort .v4 oldPort newPort fun _ => ⟨by rw [hold]; rfl, by rw [hnew]; rfl⟩
      -- the token that is replaced is the one in the packet
      have hb := load_of_unmap hip hold
      rw [← ipv4MappedV6_of_unmapIpv4 hold, ← ipv4MappedV6_of_unmapIpv4 hnew, wireAddr_mapped, wireAddr_mapped] at hj
      obtain ⟨skb₁, skb₂, hhead, hl4, hstores⟩ := rewriteIpPort_edits hres hsum
      -- the header's checksum is before the addresses
      have hout : ∀ p n, ethHlen + Family.v4.srcOff ≤ p → ∀ i, Within p n i → ¬ Within (ethHlen + 10) 2 i := by
        intro p n hp i hi hw
        have := hi.1
        have := hw.2
        simp only [Family.srcOff] at hp
        omega
      obtain ⟨hfield, k, hk⟩ := finish_checksum hl4 hstores hf.addr_le hf.port_le
        (by rw [hhead.same.load (hout _ _ hf.addr.low), hb]) (by rw [hhead.same.load_u16 (hout _ _ hf.port.low), hport])
        (by rw [hhead.same.load_u16 (hout _ _ hf.csum.low), hsum]) (by rw [hhead.same.length]; exact hstart)
        hf.addr hf.port hf.csum
      rw [hhead.same.value_outside (hout _ _ (Nat.le_refl _))] at hk
      change skb'.value _ _ = _ - (wire32 old - wire32 new) - _ + _ at hk
      rw [hwords] at hfield hk
      rw [ipv4MappedV6_of_unmapIpv4 hold, ipv4MappedV6_of_unmapIpv4 hnew] at hj
      exact ⟨hfield, k + j, by omega⟩
    · cases hres
  | v6 =>
    obtain ⟨mid, hl4, hstores⟩ := rewriteIpv6Port_edits hres hsum
    have hv6 : Family.v6 ≠ .v4 := by decide
    obtain ⟨j, hj⟩ := @drift_addrPort _ .v6 oldIp newIp oldPort newPort
      fun hv4 => absurd hv4 hv6
    obtain ⟨hfield, k, hk⟩ :=
      finish_checksum hl4 hstores hf.addr_le hf.port_le hip hport hsum hstart hf.addr hf.port hf.csum
    exact ⟨hfield, k + j, by
      simp only [wireAddr] at hj
      omega⟩

/-- The words of the IPv4 header add up to what they did. -/
theorem rewriteAddrPort_header {h : Helpers} {addrOff portOff : Nat} {oldIp newIp : Bytes 16}
    {oldPort newPort sum : UInt16} {proto : UInt8}
    (hres : rewriteAddrPort h addrOff oldIp newIp portOff oldPort newPort proto .v4 skb = (skb', true))
    (hip : Family.v4.loadAddr skb.load addrOff = some oldIp)
    (hsum : skb.load.u16 (l4CsumOff (ethHlen + Family.v4.ipHlen) proto) = some sum)
    (haddr : Aligned ethHlen Family.v4.ipHlen addrOff 4) (hlow : ethHlen + Family.v4.srcOff ≤ addrOff)
    (hport : ethHlen + Family.v4.ipHlen ≤ portOff) (hfit : ethHlen + Family.v4.ipHlen ≤ skb.data.length) :
    ∃ k : Int, skb'.value ethHlen Family.v4.ipHlen = skb.value ethHlen Family.v4.ipHlen + 65535 * k := by
  unfold rewriteAddrPort at hres
  simp only at hres
  split at hres
  · rename_i old new hold hnew
    have hb := load_of_unmap hip hold
    obtain ⟨skb₁, skb₂, hhead, hl4, hstores⟩ := rewriteIpPort_edits hres hsum
    obtain ⟨skb₃, hstoreAddr, hstorePort⟩ := andThen_eq_true.mp hstores
    obtain ⟨c, hc, -, -, -⟩ := l4CsumOff_eq_add (ethHlen + Family.v4.ipHlen) proto
    have hhlen : Family.v4.ipHlen = 20 := rfl
    have hsrc : Family.v4.srcOff = 12 := rfl
    obtain ⟨hsum₀, hread⟩ := load_u16_isSome skb (ethHlen + 10) (by omega)
    -- the checksum is in the header, the L4 fields are behind it
    obtain ⟨k, hk⟩ := hhead.value hread hfit ⟨by omega, by omega, by omega, rfl⟩
    have hl4Value : skb₂.value ethHlen Family.v4.ipHlen = skb₁.value ethHlen Family.v4.ipHlen := by
      refine hl4.same.value_outside ?_
      intro i hi hw
      have := hi.2
      have := hw.1
      omega
    have hload : skb₂.load addrOff 4 = some (Host.endian.u32Bytes old) := by
      rw [hl4.same.load, hhead.same.load, hb]
      · intro i hi hw
        have := hi.1
        have := hw.2
        omega
      · intro i hi hw
        have := hi.2
        have := hw.1
        have := haddr.high
        omega
    have haddrValue := store_value hstoreAddr hload (by rw [hl4.same.length, hhead.same.length]; exact hfit) haddr
    have hportValue : skb'.value ethHlen Family.v4.ipHlen = skb₃.value ethHlen Family.v4.ipHlen := by
      refine (store_eq_true hstorePort).1.value_outside ?_
      intro i hi hw
      have := hi.2
      have := hw.1
      omega
    simp only [drift, wire32] at hk
    exact ⟨k, by omega⟩
  · cases hres

end Edit

end

end Beep
