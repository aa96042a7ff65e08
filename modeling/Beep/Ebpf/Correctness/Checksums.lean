import Beep.Ebpf.Checksum
import Beep.Ebpf.Tunnel

/-!
# `Ebpf.Correctness.Checksums` — the checksums behind the rewrites

A packet's checksums verify by the sums of its header, and of the pseudo-header and the L4 segment (`Checked`). The two
rewrites of a path, the second one behind another header on the return path, keep both sums as long as the L4 checksum
is in use (`Rewrites`). A UDP checksum may come to zero on the way, and then it reads as one that is not in use: to the
second rewrite if the first one leaves it so, to the receiver if both do (`rechecked_iff`).
-/

namespace Beep

open OnesComplement Buffer

section
variable [Host]

/-! ## A packet's checksums -/

/-- A length in network order. -/
def be16 (b : Bytes 2) : Nat := (Endian.big.u16OfBytes b).toNat

/-- The length of the L4 segment behind an IP header at `ipOff`: what UDP says of itself, what the IP header leaves
    for TCP. -/
def l4Len (fam : Family) (proto : UInt8) (skb : Skb) (ipOff : Nat) : Option Nat :=
  if proto = ipprotoUdp then (skb.load (ipOff + fam.ipHlen + 4) 2).map be16
  else match fam with
    | .v4 => (skb.load (ipOff + 2) 2).map fun b => be16 b - fam.ipHlen
    | .v6 => (skb.load (ipOff + 4) 2).map be16

/-- What the pseudo-header has behind the addresses. -/
def pseudoTail (proto : UInt8) (len : Nat) : Family → List UInt8
  | .v4 => [0, proto] ++ (Endian.big.u16Bytes (UInt16.ofNat len)).toList
  | .v6 => (Endian.big.u32Bytes (UInt32.ofNat len)).toList ++ [0, 0, 0, proto]

/-- The bytes the L4 checksum covers: the pseudo-header and the segment. -/
def l4Covered (fam : Family) (proto : UInt8) (skb : Skb) (ipOff len : Nat) : List UInt8 :=
  range skb.data (ipOff + fam.srcOff) (2 * fam.addrLen) ++ pseudoTail proto len fam ++
    range skb.data (ipOff + fam.ipHlen) len

/-- A packet with a whole L4 segment. -/
structure Segment (fam : Family) (proto : UInt8) (skb : Skb) (ipOff len : Nat) : Prop where
  length : l4Len fam proto skb ipOff = some len
  header : Edit.l4Hlen proto ≤ len
  whole : ipOff + fam.ipHlen + len ≤ skb.data.length

/-- The checksum of the IPv4 header verifies. -/
def HeaderOk (fam : Family) (skb : Skb) (ipOff : Nat) : Prop :=
  fam = .v4 → Verifies (range skb.data ipOff fam.ipHlen)

/-- The L4 checksum verifies. -/
def L4Ok (fam : Family) (proto : UInt8) (skb : Skb) (ipOff : Nat) : Prop :=
  ∃ len, Segment fam proto skb ipOff len ∧ Verifies (l4Covered fam proto skb ipOff len)

/-- The L4 checksum field. -/
def l4Csum (fam : Family) (proto : UInt8) (skb : Skb) (ipOff : Nat) : Option UInt16 :=
  skb.load.u16 (Edit.l4CsumOff (ipOff + fam.ipHlen) proto)

/-- A TCP or UDP packet with correct checksums: UDP over IPv4 may do without, and then the field is `0`. -/
structure Checked (fam : Family) (proto : UInt8) (skb : Skb) (ipOff : Nat) (sum : UInt16) : Prop where
  segment : ∃ len, Segment fam proto skb ipOff len
  field : l4Csum fam proto skb ipOff = some sum
  ip : HeaderOk fam skb ipOff
  l4 : (fam = .v4 ∧ proto = ipprotoUdp ∧ sum = 0) ∨ ((proto = ipprotoUdp → sum ≠ 0) ∧ L4Ok fam proto skb ipOff)

/-- What is to hold of the packet a rewrite makes of one with the L4 checksum `sum`. -/
structure Rechecked (fam : Family) (proto : UInt8) (skb : Skb) (sum : UInt16) : Prop where
  ip : HeaderOk fam skb ethHlen
  tcp : proto = ipprotoTcp → L4Ok fam proto skb ethHlen
  udp4 : proto = ipprotoUdp → fam = .v4 → ∃ sum', l4Csum fam proto skb ethHlen = some sum' ∧
    (sum' = 0 ↔ sum = 0) ∧ (sum' ≠ 0 → L4Ok fam proto skb ethHlen)
  udp6 : proto = ipprotoUdp → fam = .v6 → ∃ sum', l4Csum fam proto skb ethHlen = some sum' ∧
    sum' ≠ 0 ∧ L4Ok fam proto skb ethHlen

/-- Whether a checksum comes to a zero of one's complement on the way: with the update for the port that is rewritten
    first, if that changes, or with all of them. -/
def ComesToZero (sum port port' : UInt16) (oldIp newIp : Bytes 16) (oldPort newPort : UInt16) : Prop :=
  (port ≠ port' ∧ (65535 : Int) ∣ wire16 sum + (wire16 port - wire16 port')) ∨
    (65535 : Int) ∣ wire16 sum + (wire16 port - wire16 port') + (wireAddr oldIp - wireAddr newIp) +
      (wire16 oldPort - wire16 newPort)

instance (sum port port' : UInt16) (oldIp newIp : Bytes 16) (oldPort newPort : UInt16) :
    Decidable (ComesToZero sum port port' oldIp newIp oldPort newPort) := inferInstanceAs (Decidable (_ ∨ _))

/-! ## The sums that verify -/

omit [Host] in
theorem length_pseudoTail (proto : UInt8) (len : Nat) (fam : Family) : (pseudoTail proto len fam).length % 2 = 0 := by
  cases fam <;> simp [pseudoTail]

omit [Host] in
/-- The protocol makes the pseudo-header's sum positive. -/
theorem value_pseudoTail_pos {proto : UInt8} (hproto : isFlowProto proto = true) (len : Nat) (fam : Family) :
    0 < OnesComplement.value (pseudoTail proto len fam) := by
  have hpos : 0 < proto.toNat := by
    simp only [isFlowProto, Bool.or_eq_true, decide_eq_true_eq] at hproto
    rcases hproto with rfl | rfl <;> decide
  cases fam with
  | v4 =>
    simp only [pseudoTail, List.cons_append, List.nil_append, OnesComplement.value]
    omega
  | v6 =>
    rw [pseudoTail, value_append _ _ (by simp)]
    simp only [OnesComplement.value]
    omega

omit [Host] in
/-- What the L4 checksum covers verifies if the addresses, the segment and the rest of the pseudo-header add up to a
    multiple of `65535`. -/
theorem verifies_l4Covered {fam : Family} {proto : UInt8} {skb : Skb} {ipOff len : Nat}
    (hproto : isFlowProto proto = true) (hwhole : ipOff + fam.ipHlen + len ≤ skb.data.length) :
    Verifies (l4Covered fam proto skb ipOff len) ↔ (65535 : Int) ∣
      skb.value (ipOff + fam.srcOff) (2 * fam.addrLen + len) + OnesComplement.value (pseudoTail proto len fam) := by
  obtain ⟨-, hhlen, -, heven⟩ := Edit.family_layout fam
  have htail := length_pseudoTail proto len fam
  have hpos := value_pseudoTail_pos hproto len fam
  have haddrs : (range skb.data (ipOff + fam.srcOff) (2 * fam.addrLen)).length = 2 * fam.addrLen :=
    length_range (by omega)
  have hcovered : OnesComplement.value (l4Covered fam proto skb ipOff len) =
      OnesComplement.value (range skb.data (ipOff + fam.srcOff) (2 * fam.addrLen)) +
        OnesComplement.value (pseudoTail proto len fam) +
        OnesComplement.value (range skb.data (ipOff + fam.ipHlen) len) := by
    rw [l4Covered, value_append _ _ (by rw [List.length_append, haddrs]; omega), value_append _ _ (by omega)]
  have hregion : skb.value (ipOff + fam.srcOff) (2 * fam.addrLen + len) =
      OnesComplement.value (range skb.data (ipOff + fam.srcOff) (2 * fam.addrLen)) +
        OnesComplement.value (range skb.data (ipOff + fam.ipHlen) len) := by
    have hoff : ipOff + fam.srcOff + 2 * fam.addrLen = ipOff + fam.ipHlen := by omega
    rw [Skb.value, range_add, value_append _ _ (by omega), hoff]
    exact Int.natCast_add ..
  rw [verifies_iff]
  omega

omit [Host] in
/-- The header verifies if its words add up to a multiple of `65535`: the protocol is one of its bytes. -/
theorem verifies_header {skb : Skb} {ipOff : Nat} {proto : UInt8} (hproto : isFlowProto proto = true)
    (hload : skb.load.u8 (ipOff + Family.v4.protoOff) = some proto) :
    Verifies (range skb.data ipOff Family.v4.ipHlen) ↔ (65535 : Int) ∣ skb.value ipOff Family.v4.ipHlen := by
  obtain ⟨b, hb, rfl⟩ := Option.map_eq_some_iff.mp hload
  have hsplit : range skb.data ipOff Family.v4.ipHlen =
      range skb.data ipOff 9 ++ b.toList ++ range skb.data (ipOff + 10) 10 := by
    rw [← (loadBytes_eq_some.mp hb).2]
    exact (range_add skb.data ipOff 10 10).trans (congrArg (· ++ _) (range_add skb.data ipOff 9 1))
  have hmem : b[0] ∈ range skb.data ipOff Family.v4.ipHlen := by
    rw [hsplit]
    simp
  have hpos : 0 < OnesComplement.value (range skb.data ipOff Family.v4.ipHlen) := by
    refine value_pos hmem ?_
    intro hzero
    rw [hzero] at hproto
    exact absurd hproto (by decide)
  rw [verifies_iff, Skb.value]
  omega

/-! ## What the rewrites leave alone -/

omit [Host] in
/-- Bytes that differ behind the length fields only. -/
theorem SameBut.segment {W : Nat → Prop} {fam : Family} {proto : UInt8} {skb skb' : Skb} {ipOff len : Nat}
    (h : SameBut W skb skb') (hW : ∀ i, W i → ipOff + 8 ≤ i ∧ ¬ Within (ipOff + fam.ipHlen + 4) 2 i)
    (hseg : Segment fam proto skb ipOff len) : Segment fam proto skb' ipOff len := by
  have hudp : skb'.load (ipOff + fam.ipHlen + 4) 2 = skb.load (ipOff + fam.ipHlen + 4) 2 :=
    h.load fun i hi hw => (hW i hw).2 hi
  have hip : ∀ p, p + 2 ≤ ipOff + 8 → skb'.load p 2 = skb.load p 2 := by
    intro p hp
    refine h.load ?_
    intro i hi hw
    have := hi.2
    have := (hW i hw).1
    omega
  obtain ⟨hlength, hheader, hwhole⟩ := hseg
  refine ⟨?_, hheader, by rw [h.length]; exact hwhole⟩
  unfold l4Len at hlength ⊢
  rw [hudp]
  split
  · rename_i hproto
    rw [if_pos hproto] at hlength
    exact hlength
  · rename_i hproto
    rw [if_neg hproto] at hlength
    cases fam with
    | v4 =>
      rw [hip (ipOff + 2) (by omega)]
      exact hlength
    | v6 =>
      rw [hip (ipOff + 4) (by omega)]
      exact hlength

omit [Host] in
/-- A packet behind another header is the same packet. -/
theorem Refines.range {skb frame : Skb} {off off' i n : Nat} (h : Refines skb.load frame.load off off')
    (hfit : off + i + n ≤ skb.data.length) :
    off' + i + n ≤ frame.data.length ∧ range frame.data (off' + i) n = range skb.data (off + i) n := by
  obtain ⟨v, hv⟩ := Edit.load_isSome hfit
  obtain ⟨hfit', hrange'⟩ := loadBytes_eq_some.mp (h i n v hv)
  rw [hrange', (loadBytes_eq_some.mp hv).2]
  exact ⟨hfit', rfl⟩

omit [Host] in
theorem Refines.segment {fam : Family} {proto : UInt8} {skb frame : Skb} {off off' len : Nat}
    (h : Refines skb.load frame.load off off') (hseg : Segment fam proto skb off len) :
    Segment fam proto frame off' len := by
  obtain ⟨hlength, hheader, hwhole⟩ := hseg
  refine ⟨?_, hheader, ?_⟩
  · unfold l4Len at hlength ⊢
    split
    · rename_i hproto
      rw [if_pos hproto, Nat.add_assoc] at hlength
      obtain ⟨b, hb, rfl⟩ := Option.map_eq_some_iff.mp hlength
      rw [Nat.add_assoc, h _ _ _ hb, Option.map_some]
    · rename_i hproto
      rw [if_neg hproto] at hlength
      cases fam with
      | v4 =>
        obtain ⟨b, hb, rfl⟩ := Option.map_eq_some_iff.mp hlength
        exact Option.map_eq_some_iff.mpr ⟨b, h _ _ _ hb, rfl⟩
      | v6 =>
        obtain ⟨b, hb, rfl⟩ := Option.map_eq_some_iff.mp hlength
        exact Option.map_eq_some_iff.mpr ⟨b, h _ _ _ hb, rfl⟩
  · rw [Nat.add_assoc] at hwhole ⊢
    have := (h.range (i := fam.ipHlen + len) (n := 0) (by omega)).1
    omega

/-! ## Both rewrites -/

/-- A checksum and the sum around it after both rewrites, told from the updates. -/
structure Rewrites (fam : Family) (proto : UInt8) (skb skb' : Skb) (ipOff : Nat) (sum : UInt16)
    (ws ws' : List (UInt32 × UInt32)) : Prop where
  segment : ∀ len, Segment fam proto skb ipOff len → Segment fam proto skb' ethHlen len
  ip : HeaderOk fam skb ipOff → HeaderOk fam skb' ethHlen
  field : l4Csum fam proto skb' ethHlen = some (updated (updated sum (Edit.inUse proto sum ws))
    (Edit.inUse proto (updated sum (Edit.inUse proto sum ws)) ws'))
  value : ∀ len, Segment fam proto skb ipOff len → ∃ k : Int,
    skb'.value (ethHlen + fam.srcOff) (2 * fam.addrLen + len) =
      skb.value (ipOff + fam.srcOff) (2 * fam.addrLen + len) + (drift (Edit.inUse proto sum ws) - drift ws) +
        (drift (Edit.inUse proto (updated sum (Edit.inUse proto sum ws)) ws') - drift ws') + 65535 * k

/-- Which offsets of a packet a port is at. -/
def IsPortOff (fam : Family) (ipOff off : Nat) : Prop := off = ipOff + fam.ipHlen ∨ off = ipOff + fam.ipHlen + 2

/-- Which offsets of a packet an address is at. -/
def IsAddrOff (fam : Family) (ipOff off : Nat) : Prop := off = ipOff + fam.srcOff ∨ off = ipOff + fam.dstOff

section
variable {fam : Family} {proto : UInt8} {skb skb₁ frame skb' : Skb} {h h' : Helpers} {ipOff off portOff addrOff : Nat}
  {port port' oldPort newPort sum : UInt16} {oldIp newIp : Bytes 16}

omit [Host] in
/-- What the first rewrite writes is behind the header, and no length. -/
theorem l4Port_writes (hoff : IsPortOff fam ipOff off) (i : Nat)
    (hi : Within (Edit.l4CsumOff (ipOff + fam.ipHlen) proto) 2 i ∨ Within off 2 i) :
    ipOff + fam.ipHlen ≤ i ∧ ¬ Within (ipOff + fam.ipHlen + 4) 2 i := by
  obtain ⟨c, hc, hceven, hlow, -⟩ := Edit.l4CsumOff_eq_add (ipOff + fam.ipHlen) proto
  unfold IsPortOff at hoff
  unfold Within at *
  omega

omit [Host] in
/-- What the second one writes is behind the protocol, and no length. -/
theorem addrPort_writes (haddrOff : IsAddrOff fam ethHlen addrOff) (hportOff : IsPortOff fam ethHlen portOff) (i : Nat)
    (hi : Edit.addrPortOffsets fam addrOff portOff proto i) :
    ethHlen + 8 ≤ i ∧ (fam = .v4 → ethHlen + 10 ≤ i) ∧ ¬ Within (ethHlen + fam.ipHlen + 4) 2 i := by
  obtain ⟨hdst, hhlen, -, -⟩ := Edit.family_layout fam
  obtain ⟨c, hc, hceven, hlow, -⟩ := Edit.l4CsumOff_eq_add (ethHlen + fam.ipHlen) proto
  have hsrc : 8 ≤ fam.srcOff ∧ (fam = .v4 → 12 ≤ fam.srcOff) := by cases fam <;> decide
  unfold IsPortOff at hportOff
  unfold IsAddrOff at haddrOff
  unfold Edit.addrPortOffsets Within at hi
  unfold Within
  rcases hi with ⟨rfl, hi⟩ | hi | hi | hi
  · have hv4 : Family.v4.ipHlen = 20 := rfl
    omega
  · exact ⟨by omega, fun hfam => by have := hsrc.2 hfam; omega, by omega⟩
  · exact ⟨by omega, fun hfam => by have := hsrc.2 hfam; omega, by omega⟩
  · exact ⟨by omega, fun hfam => by have := hsrc.2 hfam; omega, by omega⟩

omit [Host] in
/-- The IPv4 header still verifies: the first rewrite is behind it, and the second one keeps its sum. -/
theorem verifies_header_rewrites {W W' : Nat → Prop} (hproto : isFlowProto proto = true)
    (hload : skb.load.u8 (ipOff + Family.v4.protoOff) = some proto)
    (hfit : ipOff + Family.v4.ipHlen ≤ skb.data.length) (hsame : SameBut W skb skb₁)
    (hW : ∀ i, W i → ipOff + Family.v4.ipHlen ≤ i) (hmove : Refines skb₁.load frame.load ipOff ethHlen)
    (hsame' : SameBut W' frame skb') (hW' : ∀ i, W' i → ethHlen + 10 ≤ i)
    (hvalue : ∃ k : Int,
      skb'.value ethHlen Family.v4.ipHlen = frame.value ethHlen Family.v4.ipHlen + 65535 * k)
    (hok : Verifies (range skb.data ipOff Family.v4.ipHlen)) :
    Verifies (range skb'.data ethHlen Family.v4.ipHlen) := by
  have hv4 : Family.v4.ipHlen = 20 ∧ Family.v4.protoOff = 9 := ⟨rfl, rfl⟩
  have hload₁ : skb₁.load.u8 (ipOff + Family.v4.protoOff) = some proto := by
    rw [← hload]
    unfold Loader.u8
    rw [hsame.load]
    intro i hi hw
    have := hW i hw
    have := hi.2
    omega
  have hload' : skb'.load.u8 (ethHlen + Family.v4.protoOff) = some proto := by
    rw [← hmove.u8 hload₁]
    unfold Loader.u8
    rw [hsame'.load]
    intro i hi hw
    have := hW' i hw
    have := hi.2
    omega
  have hvalue₁ : skb₁.value ipOff Family.v4.ipHlen = skb.value ipOff Family.v4.ipHlen := by
    refine hsame.value_outside ?_
    intro i hi hw
    have := hW i hw
    have := hi.2
    omega
  have hframe : frame.value ethHlen Family.v4.ipHlen = skb₁.value ipOff Family.v4.ipHlen := by
    unfold Skb.value
    have hrange := (hmove.range (i := 0) (n := Family.v4.ipHlen) (by rw [hsame.length]; exact hfit)).2
    rw [Nat.add_zero, Nat.add_zero] at hrange
    rw [hrange]
  rw [verifies_header hproto hload] at hok
  rw [verifies_header hproto hload']
  obtain ⟨k, hk⟩ := hvalue
  omega

/-- What the two rewrites do to a packet's checksums. -/
theorem rewrites (hproto : isFlowProto proto = true) (hload : skb.load.u8 (ipOff + fam.protoOff) = some proto)
    (hsum : l4Csum fam proto skb ipOff = some sum) (hseg : ∃ len, Segment fam proto skb ipOff len)
    (hoff : IsPortOff fam ipOff off) (hport : skb.load.u16 off = some port)
    (hfst : Edit.rewriteL4Port h (ipOff + fam.ipHlen) off port port' proto skb = (skb₁, true))
    (hmove : Refines skb₁.load frame.load ipOff ethHlen)
    (haddrOff : IsAddrOff fam ethHlen addrOff) (hip : fam.loadAddr frame.load addrOff = some oldIp)
    (hportOff : IsPortOff fam ethHlen portOff) (holdPort : frame.load.u16 portOff = some oldPort)
    (hsnd : Edit.rewriteAddrPort h' addrOff oldIp newIp portOff oldPort newPort proto fam frame = (skb', true)) :
    Rewrites fam proto skb skb' ipOff sum (Edit.portWords port port')
      (Edit.addrPortWords fam oldIp newIp oldPort newPort) := by
  obtain ⟨len, hlen⟩ := hseg
  obtain ⟨hdst, hhlen, hsrc, heven⟩ := Edit.family_layout fam
  have hf : ∀ {len}, Segment fam proto skb ipOff len → Edit.Fields fam proto ipOff len (ipOff + fam.srcOff) off :=
    fun hseg => Edit.fields (Or.inl rfl) hoff hseg.header
  have hf' : ∀ {len}, Segment fam proto skb ipOff len → Edit.Fields fam proto ethHlen len addrOff portOff :=
    fun hseg => Edit.fields haddrOff hportOff hseg.header
  have hsame := (Edit.rewriteL4Port_spec hport hfst).1
  have hsame' := (Edit.rewriteAddrPort_spec (hf' hlen).addr_le hsnd).1
  -- the segment is behind what is read for its length
  have hseg₁ : ∀ {len}, Segment fam proto skb ipOff len → Segment fam proto skb₁ ipOff len := by
    intro len hseg
    refine hsame.segment ?_ hseg
    intro i hi
    have hsrc' : 8 ≤ fam.srcOff := by cases fam <;> decide
    obtain ⟨hlow, hout⟩ := l4Port_writes hoff i hi
    exact ⟨by omega, hout⟩
  have hfst' : ∀ {len}, Segment fam proto skb ipOff len → _ := fun {len} hseg =>
    Edit.rewriteL4Port_checksum hfst hport hsum
      (show ipOff + fam.srcOff + (2 * fam.addrLen + len) ≤ skb.data.length by have := hseg.whole; omega)
      (hf hseg).port (hf hseg).csum (hf hseg).port_le
  have hmoved : ∀ {len}, Segment fam proto skb ipOff len →
      frame.value (ethHlen + fam.srcOff) (2 * fam.addrLen + len) =
        skb₁.value (ipOff + fam.srcOff) (2 * fam.addrLen + len) := by
    intro len hseg
    unfold Skb.value
    rw [(hmove.range (by have := (hseg₁ hseg).whole; omega)).2]
  have hsum₁ : l4Csum fam proto frame ethHlen =
      some (updated sum (Edit.inUse proto sum (Edit.portWords port port'))) := by
    obtain ⟨c, hc, -, -, -⟩ := Edit.l4CsumOff_eq_add (ipOff + fam.ipHlen) proto
    have hc' : Edit.l4CsumOff (ethHlen + fam.ipHlen) proto = ethHlen + (fam.ipHlen + c) := by
      unfold Edit.l4CsumOff at hc ⊢
      split at hc <;> simp_all <;> omega
    have hfield := (hfst' hlen).1
    rw [hc, Nat.add_assoc] at hfield
    rw [l4Csum, hc']
    exact hmove.u16 hfield
  have hsnd' : ∀ {len}, Segment fam proto skb ipOff len → _ := fun {len} hseg =>
    Edit.rewriteAddrPort_checksum hsnd hip holdPort hsum₁ (hf' hseg) (hmove.segment (hseg₁ hseg)).whole
  refine ⟨?_, ?_, (hsnd' hlen).1, ?_⟩
  · intro len hseg
    refine hsame'.segment ?_ (hmove.segment (hseg₁ hseg))
    intro i hi
    obtain ⟨hlow, -, hout⟩ := addrPort_writes haddrOff hportOff i hi
    exact ⟨hlow, hout⟩
  · intro hok hfam
    subst hfam
    have hwhole := hlen.whole
    refine verifies_header_rewrites hproto hload (by omega) hsame (fun i hi => (l4Port_writes hoff i hi).1) hmove hsame'
      (fun i hi => (addrPort_writes haddrOff hportOff i hi).2.1 rfl) ?_ (hok rfl)
    have haddr := (hf' hlen).addr
    have hfit := (hmove.segment (hseg₁ hlen)).whole
    refine Edit.rewriteAddrPort_header hsnd hip hsum₁ ⟨?_, ?_, ?_, rfl⟩ haddr.low ?_ (by omega)
    all_goals
      unfold IsAddrOff at haddrOff
      unfold IsPortOff at hportOff
      have hv4 : Family.v4.srcOff = 12 ∧ Family.v4.dstOff = 16 ∧ Family.v4.ipHlen = 20 := ⟨rfl, rfl, rfl⟩
      omega
  · intro len hseg
    obtain ⟨-, k, hk⟩ := hfst' hseg
    obtain ⟨-, j, hj⟩ := hsnd' hseg
    have := hmoved hseg
    exact ⟨k + j, by omega⟩

/-- With the checksum in use throughout, it verifies as before. -/
theorem Rewrites.l4Ok {ws ws' : List (UInt32 × UInt32)} (hr : Rewrites fam proto skb skb' ipOff sum ws ws')
    (hproto : isFlowProto proto = true) (huse : ¬ (proto = ipprotoUdp ∧ sum = 0))
    (huse' : ¬ (proto = ipprotoUdp ∧ updated sum ws = 0)) (hok : L4Ok fam proto skb ipOff) :
    L4Ok fam proto skb' ethHlen := by
  obtain ⟨len, hseg, hverifies⟩ := hok
  have hseg' := hr.segment len hseg
  refine ⟨len, hseg', ?_⟩
  obtain ⟨k, hk⟩ := hr.value len hseg
  rw [show Edit.inUse proto sum ws = ws from if_neg huse,
    show Edit.inUse proto (updated sum ws) ws' = ws' from if_neg huse'] at hk
  rw [verifies_l4Covered hproto hseg.whole] at hverifies
  rw [verifies_l4Covered hproto hseg'.whole]
  omega

omit [Host] in
theorem not_udp_of_tcp {proto : UInt8} (htcp : proto = ipprotoTcp) : proto ≠ ipprotoUdp := by
  rw [htcp]
  decide

/-- When a UDP checksum in use is lost: the first update or all of them come to zero. -/
theorem updated_eq_zero_iff (hmapped : fam = .v4 → (unmapIpv4 oldIp).isSome ∧ (unmapIpv4 newIp).isSome)
    (hsum : sum ≠ 0) :
    updated sum (Edit.portWords port port') = 0 ∨
        updated (updated sum (Edit.portWords port port')) (Edit.addrPortWords fam oldIp newIp oldPort newPort) = 0 ↔
      ComesToZero sum port port' oldIp newIp oldPort newPort := by
  have hne : Edit.addrPortWords fam oldIp newIp oldPort newPort ≠ [] := by
    simp [Edit.addrPortWords]
  obtain ⟨j, hj⟩ := Edit.drift_addrPort fam oldPort newPort hmapped
  obtain ⟨k, hk⟩ := wire16_updated sum (Edit.portWords port port')
  rw [updated_eq_zero _ hne, hk, hj]
  unfold ComesToZero
  by_cases hsame : port = port'
  · subst hsame
    simp only [Edit.portWords, if_true, updated, List.foldl_nil, drift, hsum, false_or, ne_eq, not_true_eq_false,
      false_and]
    omega
  · obtain ⟨i, hi⟩ := Edit.drift_port port port'
    rw [show Edit.portWords port port' = [(port.toUInt32, port'.toUInt32)] from if_neg hsame] at hk ⊢
    rw [updated_eq_zero _ (List.cons_ne_nil _ _), hi]
    simp only [ne_eq, hsame, not_false_eq_true, true_and]
    omega

/-- A UDP checksum that was in use has to be one that verifies. -/
theorem rechecked_udp_iff {sum' : UInt16} (hudp : proto = ipprotoUdp) (hsum : sum ≠ 0)
    (hip : HeaderOk fam skb' ethHlen) (hfield : l4Csum fam proto skb' ethHlen = some sum') :
    Rechecked fam proto skb' sum ↔ sum' ≠ 0 ∧ L4Ok fam proto skb' ethHlen := by
  constructor
  · intro hre
    cases fam with
    | v4 =>
      obtain ⟨s, hs, hiff, hok⟩ := hre.udp4 hudp rfl
      rw [hfield] at hs
      cases hs
      exact ⟨fun h => hsum (hiff.mp h), hok fun h => hsum (hiff.mp h)⟩
    | v6 =>
      obtain ⟨s, hs, hne, hok⟩ := hre.udp6 hudp rfl
      rw [hfield] at hs
      cases hs
      exact ⟨hne, hok⟩
  · rintro ⟨hne, hok⟩
    exact ⟨hip, fun h => absurd hudp (not_udp_of_tcp h),
      fun _ _ => ⟨sum', hfield, ⟨fun h => absurd h hne, fun h => absurd h hsum⟩, fun _ => hok⟩,
      fun _ _ => ⟨sum', hfield, hne, hok⟩⟩

/-- A UDP checksum that is not in use stays so. -/
theorem Rewrites.rechecked_unused {ws ws' : List (UInt32 × UInt32)} (hr : Rewrites fam proto skb skb' ipOff 0 ws ws')
    (hudp : proto = ipprotoUdp) (hchecked : Checked fam proto skb ipOff 0) : Rechecked fam proto skb' 0 := by
  have hfam : fam = .v4 := by
    rcases hchecked.l4 with ⟨hfam, -, -⟩ | ⟨hne, -⟩
    · exact hfam
    · exact absurd rfl (hne hudp)
  have hdone : ∀ ws, Edit.inUse proto 0 ws = [] := fun ws => if_pos ⟨hudp, rfl⟩
  have hzero : l4Csum fam proto skb' ethHlen = some 0 := by
    rw [hr.field, hdone]
    exact congrArg (fun ws => some (updated 0 ws)) (hdone _)
  refine ⟨hr.ip hchecked.ip, fun h => absurd hudp (not_udp_of_tcp h), fun _ _ => ?_, fun _ hv6 => ?_⟩
  · exact ⟨0, hzero, Iff.rfl, fun h => absurd rfl h⟩
  · rw [hfam] at hv6
    cases hv6

/-- **Exactly when both rewrites leave correct checksums.** -/
theorem rechecked_iff (hproto : isFlowProto proto = true) (hchecked : Checked fam proto skb ipOff sum)
    (hmapped : fam = .v4 → (unmapIpv4 oldIp).isSome ∧ (unmapIpv4 newIp).isSome)
    (hr : Rewrites fam proto skb skb' ipOff sum (Edit.portWords port port')
      (Edit.addrPortWords fam oldIp newIp oldPort newPort)) :
    Rechecked fam proto skb' sum ↔
      ¬ (proto = ipprotoUdp ∧ sum ≠ 0 ∧ ComesToZero sum port port' oldIp newIp oldPort newPort) := by
  have hip := hr.ip hchecked.ip
  by_cases hudp : proto = ipprotoUdp
  · by_cases hsum : sum = 0
    · subst hsum
      exact iff_of_true (hr.rechecked_unused hudp hchecked) fun h => h.2.1 rfl
    · have huse : ¬ (proto = ipprotoUdp ∧ sum = 0) := fun h => hsum h.2
      have hl4 : L4Ok fam proto skb ipOff := by
        rcases hchecked.l4 with ⟨-, -, hzero⟩ | ⟨-, hok⟩
        · exact absurd hzero hsum
        · exact hok
      have hfield := hr.field
      rw [show Edit.inUse proto sum (Edit.portWords port port') = Edit.portWords port port' from if_neg huse] at hfield
      rw [← updated_eq_zero_iff hmapped hsum, rechecked_udp_iff hudp hsum hip hfield]
      -- the field ends as `0` if either update leaves it so
      by_cases hfirst : updated sum (Edit.portWords port port') = 0
      · have hdone : Edit.inUse proto (updated sum (Edit.portWords port port'))
            (Edit.addrPortWords fam oldIp newIp oldPort newPort) = [] := if_pos ⟨hudp, hfirst⟩
        rw [hdone]
        exact iff_of_false (fun h => h.1 hfirst) fun h => h ⟨hudp, hsum, Or.inl hfirst⟩
      · have huse' : ¬ (proto = ipprotoUdp ∧ updated sum (Edit.portWords port port') = 0) := fun h => hfirst h.2
        have hok := hr.l4Ok hproto huse huse' hl4
        rw [show Edit.inUse proto (updated sum (Edit.portWords port port'))
          (Edit.addrPortWords fam oldIp newIp oldPort newPort) = Edit.addrPortWords fam oldIp newIp oldPort newPort
          from if_neg huse']
        constructor
        · rintro ⟨hne, -⟩ ⟨-, -, h | h⟩
          · exact hfirst h
          · exact hne h
        · intro h
          exact ⟨fun hzero => h ⟨hudp, hsum, Or.inr hzero⟩, hok⟩
  · -- TCP has no checksum that is not in use
    have hl4 : L4Ok fam proto skb ipOff := by
      rcases hchecked.l4 with ⟨-, h, -⟩ | ⟨-, hok⟩
      · exact absurd h hudp
      · exact hok
    have hok := hr.l4Ok hproto (fun h => hudp h.1) (fun h => hudp h.1) hl4
    exact iff_of_true ⟨hip, fun _ => hok, fun h => absurd h hudp, fun h => absurd h hudp⟩ fun h => hudp h.1

/-- The fields the second rewrite replaces are as the packet has them. -/
theorem SameBut.fields
    (hsame : SameBut (fun i => Within (Edit.l4CsumOff (ipOff + fam.ipHlen) proto) 2 i ∨ Within off 2 i) skb skb₁)
    (hoff : IsPortOff fam ipOff off) (haddrOff : IsAddrOff fam ipOff addrOff) (hportOff : IsPortOff fam ipOff portOff)
    (hne : portOff ≠ off) :
    fam.loadAddr skb₁.load addrOff = fam.loadAddr skb.load addrOff ∧ skb₁.load.u16 portOff = skb.load.u16 portOff := by
  obtain ⟨hdst, hhlen, -, -⟩ := Edit.family_layout fam
  obtain ⟨c, hc, -, hlow, -⟩ := Edit.l4CsumOff_eq_add (ipOff + fam.ipHlen) proto
  unfold IsAddrOff at haddrOff
  unfold IsPortOff at hoff hportOff
  constructor
  · refine hsame.loadAddr ?_
    intro i hi hw
    unfold Within at hi hw
    omega
  · refine hsame.load_u16 ?_
    intro i hi hw
    unfold Within at hi hw
    omega

end

/-- **The rewrites and the checksums.** A packet with correct checksums has correct checksums after the rewrites of the
    forward path, and after those of the return path on both its nodes, unless it has a UDP checksum that comes to zero
    on the way. -/
theorem nat_checksums_iff :
    (∀ (h : Helpers) (fam : Family) (info : TunnelInfo) (q : InnerPacket) (podIp : Bytes 16)
        (targetPort port sum : UInt16) (skb skb' : Skb),
      isFlowProto q.proto = true → Carries skb.load fam ethHlen q → Checked fam q.proto skb ethHlen sum →
      decapForwardRewrite h (q.toForward fam info podIp targetPort) port skb = (skb', true) →
      (Rechecked fam q.proto skb' sum ↔ ¬ (q.proto = ipprotoUdp ∧ sum ≠ 0 ∧
        ComesToZero sum q.srcPort port q.dstIp podIp q.dstPort targetPort))) ∧
    ∀ (h h' : Helpers) (fam : Family) (l2Hlen : Nat) (q : InnerPacket) (frontIp : Bytes 16)
        (clientPort frontPort sum : UInt16) (skb skb₁ frame skb' : Skb),
      isFlowProto q.proto = true → Carries skb.load fam l2Hlen q → Checked fam q.proto skb l2Hlen sum →
      Edit.rewriteL4Port h (l2Hlen + fam.ipHlen) (l2Hlen + fam.ipHlen + 2) q.dstPort clientPort q.proto skb =
        (skb₁, true) →
      FramedFrom fam l2Hlen skb₁ frame →
      Edit.rewriteAddrPort h' (ethHlen + fam.srcOff) q.srcIp frontIp (ethHlen + fam.ipHlen) q.srcPort frontPort q.proto
        fam frame = (skb', true) →
      (Rechecked fam q.proto skb' sum ↔ ¬ (q.proto = ipprotoUdp ∧ sum ≠ 0 ∧
        ComesToZero sum q.dstPort clientPort q.srcIp frontIp q.srcPort frontPort)) := by
  constructor
  · intro h fam info q podIp targetPort port sum skb skb' hproto hq hchecked hres
    simp only [decapForwardRewrite, InnerPacket.toForward] at hres
    obtain ⟨skb₁, hfst, hsnd⟩ := Edit.andThen_eq_true.mp hres
    have hsame := (Edit.rewriteL4Port_spec hq.srcPort hfst).1
    obtain ⟨haddr, hport⟩ := hsame.fields (Or.inl rfl) (Or.inr rfl) (Or.inr rfl)
      (by omega)
    refine rechecked_iff hproto hchecked (Edit.mapped_of_rewriteAddrPort hsnd) ?_
    exact rewrites hproto hq.proto hchecked.field hchecked.segment (Or.inl rfl) hq.srcPort hfst (fun _ _ _ h => h)
      (Or.inr rfl) (haddr.trans hq.dstIp) (Or.inr rfl) (hport.trans hq.dstPort) hsnd
  · intro h h' fam l2Hlen q frontIp clientPort frontPort sum skb skb₁ frame skb' hproto hq hchecked hfst hframe hsnd
    have hsame := (Edit.rewriteL4Port_spec hq.dstPort hfst).1
    obtain ⟨haddr, hport⟩ := hsame.fields (Or.inr rfl) (Or.inl rfl) (Or.inl rfl)
      (by omega)
    refine rechecked_iff hproto hchecked (Edit.mapped_of_rewriteAddrPort hsnd) ?_
    exact rewrites hproto hq.proto hchecked.field hchecked.segment (Or.inr rfl) hq.dstPort hfst hframe.load
      (Or.inl rfl) (hframe.load.loadAddr (haddr.trans hq.srcIp)) (Or.inl rfl)
      (hframe.load.u16 (hport.trans hq.srcPort)) hsnd

end

/-! ### A checksum that is lost, and one that is not -/

/-- A UDP packet of no payload over IPv4 in an Ethernet frame, with both checksums. -/
def checkedFrame (ipSum : Bytes 2) (src dst : Bytes 4) (srcPort dstPort udpSum : Bytes 2) : List UInt8 :=
  List.replicate 12 0 ++ [0x08, 0x00] ++ [0x45, 0, 0, 28, 0, 0, 0, 0, 64, 17] ++ ipSum.toList ++ src.toList ++
    dst.toList ++ srcPort.toList ++ dstPort.toList ++ [0, 8] ++ udpSum.toList

section
local instance checkedHost : Host := littleHost

/-- A client's packet to a front, of the source port for which the checksum of the packet to the pod comes to zero. -/
def unluckySkb : Skb where
  data := checkedFrame (pair 0x66 0xcf) (quad 10 0 0 1) (quad 10 0 0 2) (pair 0xcb 0x4c) (pair 0 80) (pair 0x20 0x3f)
  linear := 42
  mark := 0
  ingressIfindex := 2
  ifindex := 2
  received := none
  stamped := none
  host := true

/-- What it says. -/
def unluckyPacket : InnerPacket where
  proto := ipprotoUdp
  srcIp := mappedAddr 10 0 0 1
  srcPort := Host.endian.u16OfBytes (pair 0xcb 0x4c)
  dstIp := mappedAddr 10 0 0 2
  dstPort := Host.endian.u16OfBytes (pair 0 80)

theorem unlucky_checked : Checked .v4 ipprotoUdp unluckySkb ethHlen (Host.endian.u16OfBytes (pair 0x20 0x3f)) := by
  have hseg : Segment .v4 ipprotoUdp unluckySkb ethHlen 8 := ⟨by decide, by decide, by decide⟩
  exact ⟨⟨8, hseg⟩, by decide, fun _ => by decide, Or.inr ⟨fun _ => by decide, 8, hseg, by decide⟩⟩

theorem unlucky_carries : Carries unluckySkb.load .v4 ethHlen unluckyPacket where
  proto := by decide
  srcIp := by decide
  srcPort := by decide
  dstIp := by decide
  dstPort := by decide

/-- The packet as the backend node rewrites it for its pod. -/
def unluckyRewritten : Skb × Bool :=
  decapForwardRewrite (fun _ => true)
    (unluckyPacket.toForward .v4 ⟨.v4 0, vniFwd, []⟩ (mappedAddr 10 0 1 1) (Host.endian.u16OfBytes (pair 0x1f 0x90)))
    unluckyPacket.srcPort unluckySkb

/-- A pod's reply to a client that was given another port. -/
def replySkb : Skb :=
  { unluckySkb with
    data := checkedFrame (pair 0x65 0xd0) (quad 10 0 1 1) (quad 10 0 0 1) (pair 0x1f 0x90) (pair 0x80 0x01)
      (pair 0x4b 0x4b) }

/-- What it says. -/
def replyPacket : InnerPacket where
  proto := ipprotoUdp
  srcIp := mappedAddr 10 0 1 1
  srcPort := Host.endian.u16OfBytes (pair 0x1f 0x90)
  dstIp := mappedAddr 10 0 0 1
  dstPort := Host.endian.u16OfBytes (pair 0x80 0x01)

theorem reply_checked : Checked .v4 ipprotoUdp replySkb ethHlen (Host.endian.u16OfBytes (pair 0x4b 0x4b)) := by
  have hseg : Segment .v4 ipprotoUdp replySkb ethHlen 8 := ⟨by decide, by decide, by decide⟩
  exact ⟨⟨8, hseg⟩, by decide, fun _ => by decide, Or.inr ⟨fun _ => by decide, 8, hseg, by decide⟩⟩

theorem reply_carries : Carries replySkb.load .v4 ethHlen replyPacket where
  proto := by decide
  srcIp := by decide
  srcPort := by decide
  dstIp := by decide
  dstPort := by decide

/-- The reply as it leaves the pod's node. -/
def replyTunnelled : Skb × Bool :=
  Edit.rewriteL4Port (fun _ => true) (ethHlen + Family.v4.ipHlen) (ethHlen + Family.v4.ipHlen + 2) replyPacket.dstPort
    (Host.endian.u16OfBytes (pair 0x13 0x88)) ipprotoUdp replySkb

/-- The reply as the client's node delivers it. -/
def replyRewritten : Skb × Bool :=
  Edit.rewriteAddrPort (fun _ => true) (ethHlen + Family.v4.srcOff) replyPacket.srcIp (mappedAddr 10 0 0 2)
    (ethHlen + Family.v4.ipHlen) replyPacket.srcPort (Host.endian.u16OfBytes (pair 0 80)) ipprotoUdp .v4
    replyTunnelled.1

end

/-- The reply keeps its checksums, the packet to the pod does not. -/
theorem nat_checksums_of_two_packets :
    letI := littleHost
    Rechecked .v4 ipprotoUdp replyRewritten.1 (Host.endian.u16OfBytes (pair 0x4b 0x4b)) ∧
      ¬ Rechecked .v4 ipprotoUdp unluckyRewritten.1 (Host.endian.u16OfBytes (pair 0x20 0x3f)) := by
  let := littleHost
  constructor
  · have hiff := nat_checksums_iff.2 (fun _ => true) (fun _ => true) .v4 ethHlen replyPacket (mappedAddr 10 0 0 2)
      (Host.endian.u16OfBytes (pair 0x13 0x88)) (Host.endian.u16OfBytes (pair 0 80)) _ replySkb replyTunnelled.1
      replyTunnelled.1 replyRewritten.1 (by decide) reply_carries reply_checked
      (show _ = (replyTunnelled.1, true) from Prod.ext rfl (by decide))
      ⟨fun _ _ _ h => h, by decide, by decide⟩
      (show _ = (replyRewritten.1, true) from Prod.ext rfl (by decide))
    exact hiff.mpr (by decide)
  · have hiff := nat_checksums_iff.1 (fun _ => true) .v4 _ unluckyPacket _ _ _ _ unluckySkb unluckyRewritten.1
      (by decide) unlucky_carries unlucky_checked
      (show _ = (unluckyRewritten.1, true) from Prod.ext rfl (by decide))
    exact fun hre => hiff.mp hre (by decide)

/-- The checksum of the rewritten packet would be zero, and is then none at all. -/
theorem not_nat_checksums : ¬ ∀ [Host] (h : Helpers) (fam : Family) (info : TunnelInfo) (q : InnerPacket)
    (podIp : Bytes 16) (targetPort port sum : UInt16) (skb skb' : Skb),
    isFlowProto q.proto = true → Carries skb.load fam ethHlen q → Checked fam q.proto skb ethHlen sum →
    decapForwardRewrite h (q.toForward fam info podIp targetPort) port skb = (skb', true) →
    Rechecked fam q.proto skb' sum := by
  intro hvalid
  let := littleHost
  have hre := hvalid _ _ _ _ _ _ _ _ _ unluckyRewritten.1 (by decide) unlucky_carries unlucky_checked
    (show _ = (unluckyRewritten.1, true) from Prod.ext rfl (by decide))
  obtain ⟨sum', hsum', hiff, -⟩ := hre.udp4 rfl rfl
  have hzero : l4Csum .v4 ipprotoUdp unluckyRewritten.1 ethHlen = some 0 := by decide
  rw [show unluckyPacket.proto = ipprotoUdp from rfl, hzero] at hsum'
  cases hsum'
  exact absurd (hiff.mp rfl) (by decide)

end Beep
