import Beep.Common.Steer
import Beep.Lib.MultiplyShift

/-!
# `Common.SlotFairness` — every slot gets its share of the hashes

`select_endpoint_slot` multiplies a 32-bit hash into a 64-bit product and shifts: none of the casts loses a bit, so on
numbers it is `hash * n / 2 ^ 32` (`selectEndpointSlot_eq`), and what is true of multiply-shift is true of it.
-/

namespace Beep

/-- How many slots a hash is reduced to. -/
def slotRange (readyCount localCount : UInt16) : UInt16 := if localCount > 0 then localCount else readyCount

/-- How many 32-bit hashes there are. -/
def hashCount : Nat := 4294967296

theorem toNat_lt_hashCount (hash : UInt32) : hash.toNat < hashCount := hash.toNat_lt

/-- The product of a hash and a count fits into 64 bits. -/
theorem toNat_product (hash : UInt32) (n : UInt16) :
    (hash.toUInt64 * n.toUInt32.toUInt64).toNat = hash.toNat * n.toNat := by
  have hhash := toNat_lt_hashCount hash
  have hn := n.toNat_lt
  have hle : hash.toNat * n.toNat ≤ 4294967295 * 65535 := Nat.mul_le_mul (by unfold hashCount at hhash; omega) (by omega)
  rw [UInt64.toNat_mul, UInt32.toNat_toUInt64, UInt32.toNat_toUInt64, UInt16.toNat_toUInt32]
  exact Nat.mod_eq_of_lt (by omega)

theorem slotInRange_eq (hash : UInt32) {n : UInt16} (hn : n ≠ 0) :
    (slotInRange hash n.toUInt32).map (·.toUInt16) = some (UInt16.ofNat (hash.toNat * n.toNat / hashCount)) := by
  have hwide : n.toUInt32 ≠ 0 := by
    intro hzero
    have hnat := congrArg UInt32.toNat hzero
    exact hn (UInt16.toNat_inj.mp (by simpa using hnat))
  unfold slotInRange
  rw [if_neg hwide, Option.map_some, Option.some_inj]
  apply UInt16.toNat_inj.mp
  have hpos : 0 < n.toNat := Nat.pos_of_ne_zero fun hzero => hn (UInt16.toNat_inj.mp hzero)
  have hslot := MultiplyShift.slot_lt hpos (toNat_lt_hashCount hash)
  have hbound := n.toNat_lt
  have hshift : ((hash.toUInt64 * n.toUInt32.toUInt64) >>> 32).toNat = hash.toNat * n.toNat / hashCount := by
    rw [UInt64.toNat_shiftRight, toNat_product, Nat.shiftRight_eq_div_pow]
    rfl
  have hsmall : hash.toNat * n.toNat / hashCount < 65536 := hslot.trans hbound
  rw [UInt32.toNat_toUInt16, UInt64.toNat_toUInt32, hshift, UInt16.toNat_ofNat_of_lt' hsmall]
  omega

/-- **The slot, on numbers.** -/
theorem selectEndpointSlot_eq {readyCount localCount : UInt16} (hle : ¬localCount > readyCount) (hready : readyCount ≠ 0)
    (hash : UInt32) : selectEndpointSlot hash readyCount localCount =
      some (UInt16.ofNat (hash.toNat * (slotRange readyCount localCount).toNat / hashCount)) := by
  have hrange : slotRange readyCount localCount ≠ 0 := by
    unfold slotRange
    split
    · rename_i hpos
      exact fun hzero => absurd (hzero ▸ hpos) (by decide)
    · exact hready
  unfold selectEndpointSlot
  rw [if_neg hle]
  exact slotInRange_eq hash hrange

/-- There is no slot where more endpoints are local than there are, or none are there. -/
theorem selectEndpointSlot_eq_none {hash : UInt32} {readyCount localCount : UInt16} :
    selectEndpointSlot hash readyCount localCount = none ↔ localCount > readyCount ∨ readyCount = 0 := by
  by_cases hle : localCount > readyCount
  · unfold selectEndpointSlot
    simp [hle]
  · by_cases hready : readyCount = 0
    · -- then no endpoint is local either
      subst hready
      have hzero : localCount = 0 := by
        apply UInt16.toNat_inj.mp
        rw [gt_iff_lt, UInt16.lt_iff_toNat_lt] at hle
        exact Nat.le_zero.mp (Nat.not_lt.mp hle)
      subst hzero
      exact ⟨fun _ => Or.inr rfl, fun _ => rfl⟩
    · rw [selectEndpointSlot_eq hle hready]
      simp [hle, hready]

/-- A slot is chosen where there is one, and it is the number the reduction gives. -/
theorem of_selectEndpointSlot {hash : UInt32} {readyCount localCount slot : UInt16}
    (h : selectEndpointSlot hash readyCount localCount = some slot) :
    0 < (slotRange readyCount localCount).toNat ∧
      slot.toNat = hash.toNat * (slotRange readyCount localCount).toNat / hashCount := by
  have hsome : ¬(localCount > readyCount ∨ readyCount = 0) := by
    rw [← @selectEndpointSlot_eq_none hash, h]
    exact Option.some_ne_none slot
  obtain ⟨hle, hready⟩ := not_or.mp hsome
  have hpos : 0 < (slotRange readyCount localCount).toNat := by
    unfold slotRange
    split
    · rename_i hlocal
      exact UInt16.lt_iff_toNat_lt.mp hlocal
    · exact Nat.pos_of_ne_zero fun hzero => hready (UInt16.toNat_inj.mp hzero)
  refine ⟨hpos, ?_⟩
  rw [selectEndpointSlot_eq hle hready] at h
  obtain rfl := Option.some_inj.mp h
  have hlt := MultiplyShift.slot_lt hpos (toNat_lt_hashCount hash)
  have hbound := (slotRange readyCount localCount).toNat_lt
  exact UInt16.toNat_ofNat_of_lt' (hlt.trans hbound)

/-- It is one of those the hash is reduced over. -/
theorem selectEndpointSlot_lt_range {hash : UInt32} {readyCount localCount slot : UInt16}
    (h : selectEndpointSlot hash readyCount localCount = some slot) : slot < slotRange readyCount localCount := by
  obtain ⟨hpos, hslot⟩ := of_selectEndpointSlot h
  rw [UInt16.lt_iff_toNat_lt, hslot]
  exact MultiplyShift.slot_lt hpos (toNat_lt_hashCount hash)

/-- The hashes of a slot. -/
def hashesOf (readyCount localCount slot : UInt16) : Finset Nat :=
  (Finset.range hashCount).filter fun hash =>
    selectEndpointSlot (UInt32.ofNat hash) readyCount localCount = some slot

theorem hashesOf_eq {readyCount localCount slot : UInt16} (hle : ¬localCount > readyCount) (hready : readyCount ≠ 0) :
    hashesOf readyCount localCount slot = (Finset.range hashCount).filter fun hash =>
      hash * (slotRange readyCount localCount).toNat / hashCount = slot.toNat := by
  refine Finset.filter_congr fun hash hhash => ?_
  have hnat : (UInt32.ofNat hash).toNat = hash := UInt32.toNat_ofNat_of_lt' (Finset.mem_range.mp hhash)
  constructor
  · intro h
    have hslot := (of_selectEndpointSlot h).2
    rw [hnat] at hslot
    exact hslot.symm
  · intro h
    rw [selectEndpointSlot_eq hle hready, hnat, h, UInt16.ofNat_toNat]

/-- What a packet without a pin is steered to depends on one endpoint row only. -/
theorem ingressSteer_reads {m : FrontMeta} {hash : UInt32} {front : LbFrontKey}
    {endpointAt endpointAt' : FrontEndpointKey → Option FrontEndpoint}
    (h : ∀ slot, selectEndpointSlot hash m.count m.localCount = some slot →
      endpointAt ⟨front, m.generation, slot, 0⟩ = endpointAt' ⟨front, m.generation, slot, 0⟩) :
    ingressSteer m none none hash front endpointAt = ingressSteer m none none hash front endpointAt' := by
  unfold ingressSteer
  cases hslot : selectEndpointSlot hash m.count m.localCount with
  | none => rfl
  | some slot => simp only [h slot hslot]

/-- **The slots of a front are chosen evenly**: in range, in the order of the hashes, each for `2 ^ 32 / n` of them,
    rounded down or up; and no row is read for a packet without a pin but that of its slot. -/
theorem slots_balanced (readyCount localCount : UInt16) :
    (∀ hash, selectEndpointSlot hash readyCount localCount = none ↔ localCount > readyCount ∨ readyCount = 0) ∧
    (∀ hash slot, selectEndpointSlot hash readyCount localCount = some slot →
      slot < slotRange readyCount localCount ∧
      (hash.toUInt64 * (slotRange readyCount localCount).toUInt32.toUInt64).toNat =
        hash.toNat * (slotRange readyCount localCount).toNat ∧
      slot.toNat = hash.toNat * (slotRange readyCount localCount).toNat / hashCount) ∧
    (∀ hash hash' slot slot', hash ≤ hash' → selectEndpointSlot hash readyCount localCount = some slot →
      selectEndpointSlot hash' readyCount localCount = some slot' → slot ≤ slot') ∧
    (¬(localCount > readyCount ∨ readyCount = 0) → ∀ slot, slot < slotRange readyCount localCount →
      (hashesOf readyCount localCount slot).card = hashCount / (slotRange readyCount localCount).toNat ∨
      (hashesOf readyCount localCount slot).card =
        (hashCount + ((slotRange readyCount localCount).toNat - 1)) / (slotRange readyCount localCount).toNat) ∧
    ∀ (m : FrontMeta) (hash : UInt32) (front : LbFrontKey)
      (endpointAt endpointAt' : FrontEndpointKey → Option FrontEndpoint),
      (∀ slot, selectEndpointSlot hash m.count m.localCount = some slot →
        endpointAt ⟨front, m.generation, slot, 0⟩ = endpointAt' ⟨front, m.generation, slot, 0⟩) →
      ingressSteer m none none hash front endpointAt = ingressSteer m none none hash front endpointAt' := by
  refine ⟨fun _ => selectEndpointSlot_eq_none, ?_, ?_, ?_, fun _ _ _ _ _ h => ingressSteer_reads h⟩
  · intro hash slot h
    exact ⟨selectEndpointSlot_lt_range h, toNat_product _ _, (of_selectEndpointSlot h).2⟩
  · intro hash hash' slot slot' hle h h'
    rw [UInt16.le_iff_toNat_le, (of_selectEndpointSlot h).2, (of_selectEndpointSlot h').2]
    exact MultiplyShift.slot_mono (UInt32.le_iff_toNat_le.mp hle)
  · intro hsome slot hslot
    obtain ⟨hle, hready⟩ := not_or.mp hsome
    rw [hashesOf_eq hle hready]
    have hlt := UInt16.lt_iff_toNat_lt.mp hslot
    exact MultiplyShift.card_slot (Nat.zero_lt_of_lt hlt) hlt

end Beep
