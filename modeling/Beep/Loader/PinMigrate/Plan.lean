import Beep.Loader.FrontSwap.Plan
import Beep.Loader.PinMigrate.Pins
import Mathlib.Algebra.GroupWithZero.Nat

/-!
# `Loader.PinMigrate.Plan` — what is copied into a recreated map

`src/pin_migrate.rs` and the decision table of `src/lib.rs`: which pin holds the entries to carry over (`pinSource`),
what becomes of it (`pinFate`, `coupleFrontFates`), and which entries are copied (`planRestore`).

The front maps are copied by the front. What that comes to is said apart from how the loop does it: the whole fronts of
the two maps, in key order, each taken if it still fits (`firstFit`). A front counts as whole when there are as many rows
for its live generation as its `FRONT_META` row says; these are the rows the row names where the paddings are zero
(`namedRows_of_whole`), or where the rows it names exist (`row_of_whole`).
-/

namespace Beep

open StableSort

/-! ## Fates -/

/-- `Fate`. -/
inductive Fate where
  | keep
  | migrate
  | recreateEmpty
  deriving DecidableEq, Repr

/-- `restorable_map_type`. -/
def restorableMapType (mapType : UInt32) : Bool := [bpfMapTypeHash, bpfMapTypeLruHash].contains mapType

/-- `pin_fate`. -/
def pinFate (existing wanted : MapShape) : Fate :=
  if mapShapeMismatches existing wanted = [] then .keep
  else if (existing.mapType, existing.keySize, existing.valueSize) = (wanted.mapType, wanted.keySize, wanted.valueSize) ∧
      restorableMapType wanted.mapType then .migrate
  else .recreateEmpty

/-- `Source`. -/
inductive Source where
  | plain
  | migrating
  deriving DecidableEq, Repr

/-- `pin_source`. -/
def pinSource (plain migrating : Option MapShape) (wanted : MapShape) : Option (Source × MapShape × Fate) :=
  match migrating, plain with
  | some m, _ =>
      let fate := match pinFate m wanted with
        | .keep => .migrate
        | other => other
      some (.migrating, m, fate)
  | none, some p => some (.plain, p, pinFate p wanted)
  | none, none => none

/-- `couple_front_fates`, in the order `FRONT_META`, `FRONT_ENDPOINTS`. -/
def coupleFrontFates (metaFate endpointsFate : Option Fate) : Fate × Fate :=
  let both := match metaFate, endpointsFate with
    | some .keep, some .keep => .keep
    | some .keep, some .migrate | some .migrate, some .keep | some .migrate, some .migrate => .migrate
    | none, none => .keep
    | _, _ => .recreateEmpty
  (both, both)

/-- A map of the wanted layout is kept or migrated. -/
theorem pinFate_of_layout {existing wanted : MapShape} (h : existing.layout = wanted.layout)
    (hrestore : restorableMapType wanted.mapType) :
    pinFate existing wanted = if existing.Fits wanted then .keep else .migrate := by
  unfold pinFate
  exact if_congr Iff.rfl rfl (if_pos ⟨h, hrestore⟩)

theorem layout_of_pinFate {existing wanted : MapShape} (h : pinFate existing wanted ≠ .recreateEmpty) :
    existing.layout = wanted.layout := by
  unfold pinFate at h
  split at h
  · rename_i hfits
    exact (MapShape.fits_iff.mp hfits).1
  · split at h
    · rename_i hlayout
      exact hlayout.1
    · exact absurd rfl h

/-! ## Raw entries -/

/-- `decode`: a value is as many bytes as its type has. -/
def decode {T : Type} (size : Nat) (read : Bytes size → T) (bytes : List UInt8) : Option T :=
  if h : bytes.length = size then some (read ⟨bytes.toArray, h⟩) else none

theorem decode_toList {T : Type} {size : Nat} {read : Bytes size → T} (v : Bytes size) :
    decode size read v.toList = some (read v) := by
  rw [decode, dif_pos (Vector.length_toList)]
  rfl

theorem of_decode {T : Type} {size : Nat} {read : Bytes size → T} {bytes : List UInt8} {value : T}
    (h : decode size read bytes = some value) : ∃ v : Bytes size, bytes = v.toList ∧ read v = value := by
  unfold decode at h
  split at h
  · rename_i hlen
    exact ⟨⟨bytes.toArray, hlen⟩, rfl, Option.some_inj.mp h⟩
  · cases h

variable [Host]

namespace LbFrontKey

/-- The 20 bytes of a key. -/
def toBytes (k : LbFrontKey) : Bytes 20 := k.frontIp ++ Host.endian.u16Bytes k.frontPort ++ #v[k.proto] ++ #v[k.pad]

/-- The key in 20 bytes. -/
def ofBytes (v : Bytes 20) : LbFrontKey where
  frontIp := Bytes.slice v 0 16 (by omega)
  frontPort := Host.endian.u16OfBytes (Bytes.slice v 16 2 (by omega))
  proto := v[18]
  pad := v[19]

theorem ofBytes_toBytes (k : LbFrontKey) : ofBytes k.toBytes = k := by
  have hip : Bytes.slice k.toBytes 0 16 (by omega) = k.frontIp := by
    unfold toBytes
    rw [Bytes.slice_append_left, Bytes.slice_append_left, Bytes.slice_append_left, Bytes.slice_all] <;> omega
  have hport : Bytes.slice k.toBytes 16 2 (by omega) = Host.endian.u16Bytes k.frontPort := by
    unfold toBytes
    rw [Bytes.slice_append_left, Bytes.slice_append_left, Bytes.slice_append_right]
    · exact Bytes.slice_all _ _
    all_goals omega
  have hproto : k.toBytes[18] = k.proto := by
    unfold toBytes
    rw [Vector.getElem_append_left (by omega), Vector.getElem_append_right (by omega) (by omega)]
    rfl
  have hpad : k.toBytes[19] = k.pad := by
    unfold toBytes
    rw [Vector.getElem_append_right (by omega) (by omega)]
    rfl
  simp only [ofBytes, hip, hport, hproto, hpad, Endian.u16OfBytes_u16Bytes]

end LbFrontKey

namespace FrontEndpointKey

/-- The 28 bytes of a key. -/
def toBytes (k : FrontEndpointKey) : Bytes 28 :=
  k.front.toBytes ++ Host.endian.u32Bytes k.generation ++ Host.endian.u16Bytes k.slot ++ Host.endian.u16Bytes k.pad

/-- The key in 28 bytes. -/
def ofBytes (v : Bytes 28) : FrontEndpointKey where
  front := .ofBytes (Bytes.slice v 0 20 (by omega))
  generation := Host.endian.u32OfBytes (Bytes.slice v 20 4 (by omega))
  slot := Host.endian.u16OfBytes (Bytes.slice v 24 2 (by omega))
  pad := Host.endian.u16OfBytes (Bytes.slice v 26 2 (by omega))

theorem ofBytes_toBytes (k : FrontEndpointKey) : ofBytes k.toBytes = k := by
  have hfront : Bytes.slice k.toBytes 0 20 (by omega) = k.front.toBytes := by
    unfold toBytes
    rw [Bytes.slice_append_left, Bytes.slice_append_left, Bytes.slice_append_left, Bytes.slice_all] <;> omega
  have hgeneration : Bytes.slice k.toBytes 20 4 (by omega) = Host.endian.u32Bytes k.generation := by
    unfold toBytes
    rw [Bytes.slice_append_left, Bytes.slice_append_left, Bytes.slice_append_right]
    · exact Bytes.slice_all _ _
    all_goals omega
  have hslot : Bytes.slice k.toBytes 24 2 (by omega) = Host.endian.u16Bytes k.slot := by
    unfold toBytes
    rw [Bytes.slice_append_left, Bytes.slice_append_right]
    · exact Bytes.slice_all _ _
    all_goals omega
  have hpad : Bytes.slice k.toBytes 26 2 (by omega) = Host.endian.u16Bytes k.pad := by
    unfold toBytes
    rw [Bytes.slice_append_right]
    · exact Bytes.slice_all _ _
    omega
  simp only [ofBytes, hfront, hgeneration, hslot, hpad, LbFrontKey.ofBytes_toBytes, Endian.u32OfBytes_u32Bytes,
    Endian.u16OfBytes_u16Bytes]

theorem toBytes_ofBytes (v : Bytes 28) : (ofBytes v).toBytes = v := by
  have hfront : ∀ w : Bytes 20, (LbFrontKey.ofBytes w).toBytes = w := by
    intro w
    have hproto : (#v[w[18]] : Bytes 1) = Bytes.slice w 18 1 (by omega) := rfl
    have hpad : (#v[w[19]] : Bytes 1) = Bytes.slice w 19 1 (by omega) := rfl
    simp only [LbFrontKey.ofBytes, LbFrontKey.toBytes, Endian.u16Bytes_u16OfBytes, hproto, hpad]
    rw [Bytes.slice_append_adjacent w (show 0 + 16 ≤ 20 by omega) (show 0 + 16 + 2 ≤ 20 by omega),
      Bytes.slice_append_adjacent w (show 0 + 18 ≤ 20 by omega) (show 0 + 18 + 1 ≤ 20 by omega),
      Bytes.slice_append_adjacent w (show 0 + 19 ≤ 20 by omega) (show 0 + 19 + 1 ≤ 20 by omega)]
    exact Bytes.slice_all _ _
  simp only [ofBytes, toBytes, hfront, Endian.u32Bytes_u32OfBytes, Endian.u16Bytes_u16OfBytes]
  rw [Bytes.slice_append_adjacent v (show 0 + 20 ≤ 28 by omega) (show 0 + 20 + 4 ≤ 28 by omega),
    Bytes.slice_append_adjacent v (show 0 + 24 ≤ 28 by omega) (show 0 + 24 + 2 ≤ 28 by omega),
    Bytes.slice_append_adjacent v (show 0 + 26 ≤ 28 by omega) (show 0 + 26 + 2 ≤ 28 by omega)]
  exact Bytes.slice_all _ _

end FrontEndpointKey

/-- The meta row in 12 bytes. -/
def FrontMeta.ofBytes (v : Bytes 12) : FrontMeta where
  generation := Host.endian.u32OfBytes (Bytes.slice v 0 4 (by omega))
  count := Host.endian.u16OfBytes (Bytes.slice v 4 2 (by omega))
  flags := Host.endian.u16OfBytes (Bytes.slice v 6 2 (by omega))
  localCount := Host.endian.u16OfBytes (Bytes.slice v 8 2 (by omega))
  pad := Host.endian.u16OfBytes (Bytes.slice v 10 2 (by omega))

/-- `decode::<LbFrontKey>`. -/
def decodeLbFrontKey : List UInt8 → Option LbFrontKey := decode 20 LbFrontKey.ofBytes

/-- `decode::<FrontEndpointKey>`. -/
def decodeFrontEndpointKey : List UInt8 → Option FrontEndpointKey := decode 28 FrontEndpointKey.ofBytes

/-- `decode::<FrontMeta>`. -/
def decodeFrontMeta : List UInt8 → Option FrontMeta := decode 12 FrontMeta.ofBytes

/-- The bytes a slot of a front's generation is looked up under. -/
def slotKey (front : LbFrontKey) (generation : UInt32) (slot : Nat) : List UInt8 :=
  (endpointKey front generation slot).toBytes.toList

theorem decode_slotKey (front : LbFrontKey) (generation : UInt32) (slot : Nat) :
    decodeFrontEndpointKey (slotKey front generation slot) = some (endpointKey front generation slot) := by
  rw [decodeFrontEndpointKey, slotKey, decode_toList, FrontEndpointKey.ofBytes_toBytes]

/-- Two slots are looked up under two keys. -/
theorem slotKey_inj {front : LbFrontKey} {generation : UInt32} {i j : Nat} (hi : i < 65536) (hj : j < 65536)
    (heq : slotKey front generation i = slotKey front generation j) : i = j := by
  have hkeys := (decode_slotKey front generation i).symm.trans (heq ▸ decode_slotKey front generation j)
  have hslots : UInt16.ofNat i = UInt16.ofNat j := congrArg FrontEndpointKey.slot (Option.some_inj.mp hkeys)
  have hnats := congrArg UInt16.toNat hslots
  rwa [UInt16.toNat_ofNat_of_lt' hi, UInt16.toNat_ofNat_of_lt' hj] at hnats

/-- A key of zero padding is the one its slot is looked up under. -/
theorem slotKey_of_decode {bytes : List UInt8} {k : FrontEndpointKey} (h : decodeFrontEndpointKey bytes = some k)
    (hpad : k.pad = 0) : bytes = slotKey k.front k.generation k.slot.toNat := by
  obtain ⟨v, rfl, rfl⟩ := of_decode h
  have hkey : endpointKey (FrontEndpointKey.ofBytes v).front (FrontEndpointKey.ofBytes v).generation
      (FrontEndpointKey.ofBytes v).slot.toNat = FrontEndpointKey.ofBytes v := by
    rw [endpointKey, UInt16.ofNat_toNat, ← hpad]
  rw [slotKey, hkey, FrontEndpointKey.toBytes_ofBytes]

/-! ## The plan -/

/-- `FrontCopy`: a front's `FRONT_META` row and its live endpoint rows. -/
structure FrontCopy where
  metaEntry : Entry
  rows : List Entry

/-- A line of `RestorePlan::losses`. -/
inductive RestoreLoss where
  | exceeds (map : MapName) (entries cap : Nat)
  | endpointsKey
  | metaValue
  | fronts (copied total rowsUsed metaCap epCap dropped : Nat)

/-- `RestorePlan`. -/
structure RestorePlan where
  generic : List (MapName × List Entry)
  fronts : List FrontCopy
  losses : List RestoreLoss

/-- The rows of a front's live generation: those of `FRONT_ENDPOINTS` below `count`, in slot order. A key of `FRONT_META`
    is asked for once, so what `remove` takes from `rows_by_gen` is what is there. -/
def liveRows (endpoints : List Entry) (front : LbFrontKey) (m : FrontMeta) : List Entry :=
  let rows := endpoints.filterMap fun e => (decodeFrontEndpointKey e.1).map fun k => (k, e)
  let live := rows.filter fun r => r.1.front = front ∧ r.1.generation = m.generation ∧ r.1.slot < m.count
  (sortByRank (fun r => r.1.slot.toNat) live).map Prod.snd

/-- What the loop over the fronts has so far. -/
structure FrontAdmission where
  fronts : List FrontCopy := []
  rowsUsed : Nat := 0
  dropped : Nat := 0

/-- One front of the loop. -/
def FrontAdmission.step (endpoints : List Entry) (metaCap epCap : Nat) (acc : FrontAdmission)
    (row : List UInt8 × FrontMeta × List UInt8) : FrontAdmission :=
  let (key, m, value) := row
  let front := decodeLbFrontKey key
  let rows := match front with
    | some f => liveRows endpoints f m
    | none => []
  let complete := rows.length = m.count.toNat
  let fits := acc.fronts.length < metaCap ∧ acc.rowsUsed + rows.length ≤ epCap
  if ¬ complete ∨ ¬ fits ∨ front = none then { acc with dropped := acc.dropped + 1 }
  else { acc with fronts := acc.fronts ++ [⟨(key, value), rows⟩], rowsUsed := acc.rowsUsed + rows.length }

/-- `sorted_metas`: the decodable rows of `FRONT_META`, in the order of their keys. -/
def sortedMetas (metas : List Entry) : List (List UInt8 × FrontMeta × List UInt8) :=
  sortByRank (fun row => row.1.map UInt8.toNat)
    (metas.filterMap fun (key, value) => (decodeFrontMeta value).map fun m => (key, m, value))

/-- `plan_restore`. -/
def planRestore (snapshots : List (MapName × List Entry)) (cap : MapName → UInt32) : RestorePlan :=
  let metas := (Table.lastValue snapshots .frontMeta).getD []
  let endpoints := (Table.lastValue snapshots .frontEndpoints).getD []
  let others := snapshots.filter fun s => s.1 ≠ .frontMeta ∧ s.1 ≠ .frontEndpoints
  let metaCap := (cap .frontMeta).toNat
  let epCap := (cap .frontEndpoints).toNat
  let admission := (sortedMetas metas).foldl (FrontAdmission.step endpoints metaCap epCap) {}
  let exceeding := others.filter fun s => (cap s.1).toNat < s.2.length
  { generic := others.map fun s => (s.1, s.2.take (cap s.1).toNat)
    fronts := admission.fronts
    losses := exceeding.map (fun s => .exceeds s.1 s.2.length (cap s.1).toNat) ++
      (endpoints.filter fun e => decodeFrontEndpointKey e.1 = none).map (fun _ => .endpointsKey) ++
      (metas.filter fun e => decodeFrontMeta e.2 = none).map (fun _ => .metaValue) ++
      if 0 < admission.dropped then
        [.fronts admission.fronts.length metas.length admission.rowsUsed metaCap epCap admission.dropped]
      else [] }

/-! ## The fronts that are copied -/

/-- First-fit admission: the elements in order, each taken if it still fits beside the ones taken before. -/
def firstFit {α : Type} (fits : List α → α → Prop) [∀ taken x, Decidable (fits taken x)] (taken : List α) :
    List α → List α
  | [] => taken
  | x :: xs => firstFit fits (if fits taken x then taken ++ [x] else taken) xs

omit [Host] in
theorem mem_firstFit {α : Type} {fits : List α → α → Prop} [∀ taken x, Decidable (fits taken x)] {taken l : List α}
    {x : α} (h : x ∈ firstFit fits taken l) : x ∈ taken ∨ x ∈ l := by
  induction l generalizing taken with
  | nil => exact Or.inl h
  | cons y l ih =>
    rcases ih h with hnow | hlater
    · split at hnow
      · rcases List.mem_append.mp hnow with hold | hnew
        · exact Or.inl hold
        · exact Or.inr (List.mem_singleton.mp hnew ▸ List.mem_cons_self)
      · exact Or.inl hnow
    · exact Or.inr (List.mem_cons_of_mem y hlater)

/-- A front fits beside others in maps of these capacities. -/
def FitsCaps (metaCap epCap : Nat) (taken : List FrontCopy) (front : FrontCopy) : Prop :=
  taken.length < metaCap ∧ (taken.map (·.rows.length)).sum + front.rows.length ≤ epCap

instance (metaCap epCap : Nat) (taken : List FrontCopy) (front : FrontCopy) :
    Decidable (FitsCaps metaCap epCap taken front) := inferInstanceAs (Decidable (_ ∧ _))

/-- The front of a meta row, if it has as many rows as this says. -/
def wholeFront (endpoints : List Entry) (row : List UInt8 × FrontMeta × List UInt8) : Option FrontCopy :=
  (decodeLbFrontKey row.1).bind fun front =>
    let rows := liveRows endpoints front row.2.1
    if rows.length = row.2.1.count.toNat then some ⟨(row.1, row.2.2), rows⟩ else none

/-- The whole fronts of two maps, in key order. -/
def wholeFronts (metas endpoints : List Entry) : List FrontCopy := (sortedMetas metas).filterMap (wholeFront endpoints)

/-- The fronts that are copied into maps of the given capacities. -/
def copiedFronts (metas endpoints : List Entry) (metaCap epCap : Nat) : List FrontCopy :=
  firstFit (FitsCaps metaCap epCap) [] (wholeFronts metas endpoints)

/-- A front that is not whole is dropped. -/
theorem FrontAdmission.step_of_none {endpoints : List Entry} {row : List UInt8 × FrontMeta × List UInt8}
    (h : wholeFront endpoints row = none) (metaCap epCap : Nat) (acc : FrontAdmission) :
    acc.step endpoints metaCap epCap row = { acc with dropped := acc.dropped + 1 } := by
  obtain ⟨key, m, value⟩ := row
  unfold FrontAdmission.step
  unfold wholeFront at h
  cases hfront : decodeLbFrontKey key with
  | none => simp only [hfront, or_true, ↓reduceIte]
  | some front =>
    rw [hfront, Option.bind_some] at h
    by_cases hcomplete : (liveRows endpoints front m).length = m.count.toNat
    · simp only [hcomplete, ↓reduceIte] at h
      cases h
    · simp only [hfront, hcomplete, not_false_eq_true, true_or, ↓reduceIte]

/-- A whole front is taken if it fits. -/
theorem FrontAdmission.step_of_some {endpoints : List Entry} {row : List UInt8 × FrontMeta × List UInt8} {copy : FrontCopy}
    (h : wholeFront endpoints row = some copy) {metaCap epCap : Nat} {acc : FrontAdmission}
    (hused : acc.rowsUsed = (acc.fronts.map (·.rows.length)).sum) :
    acc.step endpoints metaCap epCap row =
      if FitsCaps metaCap epCap acc.fronts copy then
        { acc with fronts := acc.fronts ++ [copy], rowsUsed := acc.rowsUsed + copy.rows.length }
      else { acc with dropped := acc.dropped + 1 } := by
  obtain ⟨key, m, value⟩ := row
  unfold FrontAdmission.step
  unfold wholeFront at h
  cases hfront : decodeLbFrontKey key with
  | none =>
    rw [hfront] at h
    cases h
  | some front =>
    rw [hfront, Option.bind_some] at h
    by_cases hcomplete : (liveRows endpoints front m).length = m.count.toNat
    · simp only [hcomplete, ↓reduceIte, Option.some_inj] at h
      subst h
      simp only [hfront, hcomplete, FitsCaps, hused, not_true_eq_false, reduceCtorEq, or_false, false_or, ite_not]
    · simp only [hcomplete, ↓reduceIte] at h
      cases h

/-- **The loop is first-fit admission** of the whole fronts. -/
theorem foldl_step_fronts (endpoints : List Entry) (metaCap epCap : Nat)
    (rows : List (List UInt8 × FrontMeta × List UInt8)) {acc : FrontAdmission}
    (hused : acc.rowsUsed = (acc.fronts.map (·.rows.length)).sum) :
    (rows.foldl (FrontAdmission.step endpoints metaCap epCap) acc).fronts =
      firstFit (FitsCaps metaCap epCap) acc.fronts (rows.filterMap (wholeFront endpoints)) := by
  induction rows generalizing acc with
  | nil => rfl
  | cons row rows ih =>
    rw [List.foldl_cons]
    cases hwhole : wholeFront endpoints row with
    | none =>
      rw [FrontAdmission.step_of_none hwhole, List.filterMap_cons_none hwhole]
      exact ih hused
    | some copy =>
      rw [FrontAdmission.step_of_some hwhole hused, List.filterMap_cons_some hwhole, firstFit]
      split
      · refine ih ?_
        simp [hused]
      · exact ih hused

theorem fronts_planRestore (snapshots : List (MapName × List Entry)) (cap : MapName → UInt32) :
    (planRestore snapshots cap).fronts = copiedFronts ((Table.lastValue snapshots .frontMeta).getD [])
      ((Table.lastValue snapshots .frontEndpoints).getD []) (cap .frontMeta).toNat (cap .frontEndpoints).toNat :=
  foldl_step_fronts _ _ _ _ rfl

/-! ## What a front names, and what is copied of it -/

/-- The keys of the endpoint rows that a row of `FRONT_META` names. -/
def namedRows (row : Entry) : List (List UInt8) :=
  match decodeLbFrontKey row.1, decodeFrontMeta row.2 with
  | some front, some m => (List.range m.count.toNat).map (slotKey front m.generation)
  | _, _ => []

/-- A copied front comes from its row in `FRONT_META`, with all its live rows. -/
theorem of_mem_copiedFronts {metas endpoints : List Entry} {metaCap epCap : Nat} {copy : FrontCopy}
    (h : copy ∈ copiedFronts metas endpoints metaCap epCap) :
    copy.metaEntry ∈ metas ∧ ∃ front m, decodeLbFrontKey copy.metaEntry.1 = some front ∧
      decodeFrontMeta copy.metaEntry.2 = some m ∧ copy.rows = liveRows endpoints front m ∧
      copy.rows.length = m.count.toNat := by
  rcases mem_firstFit h with hnone | hwhole
  · cases hnone
  · obtain ⟨⟨key, m, value⟩, hrow, hcopy⟩ := List.mem_filterMap.mp hwhole
    obtain ⟨⟨key', value'⟩, hmem, hdecode⟩ := List.mem_filterMap.mp ((perm_sortByRank _ _).mem_iff.mp hrow)
    obtain ⟨m', hm, heq⟩ := Option.map_eq_some_iff.mp hdecode
    obtain ⟨rfl, rfl, rfl⟩ : key' = key ∧ m' = m ∧ value' = value := by simpa using heq
    obtain ⟨front, hfront, hcopy⟩ := Option.bind_eq_some_iff.mp hcopy
    dsimp only at hcopy
    split at hcopy
    · rename_i hcomplete
      obtain rfl := Option.some_inj.mp hcopy
      exact ⟨hmem, front, m', hfront, hm, rfl, hcomplete⟩
    · cases hcopy

theorem mem_liveRows {endpoints : List Entry} {front : LbFrontKey} {m : FrontMeta} {e : Entry} :
    e ∈ liveRows endpoints front m ↔ e ∈ endpoints ∧ ∃ k, decodeFrontEndpointKey e.1 = some k ∧ k.front = front ∧
      k.generation = m.generation ∧ k.slot < m.count := by
  unfold liveRows
  simp only [List.mem_map, (perm_sortByRank _ _).mem_iff, List.mem_filter, List.mem_filterMap, Option.map_eq_some_iff,
    decide_eq_true_eq]
  constructor
  · rintro ⟨⟨k, e'⟩, ⟨⟨e₀, hmem, k₀, hk₀, heq⟩, hlive⟩, rfl⟩
    obtain ⟨rfl, rfl⟩ := Prod.mk.inj heq
    exact ⟨hmem, k₀, hk₀, hlive⟩
  · rintro ⟨hmem, k, hk, hlive⟩
    exact ⟨(k, e), ⟨⟨e, hmem, k, hk, rfl⟩, hlive⟩, rfl⟩

/-- A row that a front names is one of its live rows. -/
theorem mem_liveRows_of_slot {endpoints : List Entry} {front : LbFrontKey} {m : FrontMeta} {slot : Nat}
    (hslot : slot < m.count.toNat) {value : List UInt8} (h : (slotKey front m.generation slot, value) ∈ endpoints) :
    (slotKey front m.generation slot, value) ∈ liveRows endpoints front m := by
  refine mem_liveRows.mpr ⟨h, endpointKey front m.generation slot, decode_slotKey _ _ _, rfl, rfl, ?_⟩
  have hcount := m.count.toNat_lt
  rw [UInt16.lt_iff_toNat_lt]
  show (UInt16.ofNat slot).toNat < _
  rw [UInt16.toNat_ofNat_of_lt' (hslot.trans hcount)]
  exact hslot

theorem nodup_liveRows {endpoints : List Entry} (h : (endpoints.map Prod.fst).Nodup) (front : LbFrontKey)
    (m : FrontMeta) : ((liveRows endpoints front m).map Prod.fst).Nodup := by
  have hsub : ∀ l : List Entry, ((l.filterMap fun e => (decodeFrontEndpointKey e.1).map fun k => (k, e)).map
      Prod.snd).Sublist l := by
    intro l
    induction l with
    | nil => exact .slnil
    | cons e l ih =>
      cases hk : decodeFrontEndpointKey e.1 with
      | none =>
        rw [List.filterMap_cons_none (by rw [hk]; rfl)]
        exact ih.cons e
      | some k =>
        rw [List.filterMap_cons_some (by rw [hk]; rfl), List.map_cons]
        exact ih.cons_cons e
  unfold liveRows
  rw [(((perm_sortByRank _ _).map Prod.snd).map Prod.fst).nodup_iff]
  exact h.sublist (((List.filter_sublist.map Prod.snd).trans (hsub endpoints)).map Prod.fst)

omit [Host] in
/-- As many distinct numbers below a bound as the bound says are all of them. -/
theorem mem_of_nodup_of_length {l : List Nat} {n : Nat} (hnodup : l.Nodup) (hlt : ∀ i ∈ l, i < n) (hlen : l.length = n)
    {i : Nat} (hi : i < n) : i ∈ l := by
  have hsub : l.Subperm (List.range n) := List.subperm_of_subset hnodup fun i hi => List.mem_range.mpr (hlt i hi)
  have hperm : l.Perm (List.range n) := hsub.perm_of_length_le (by rw [List.length_range, hlen])
  exact hperm.mem_iff.mpr (List.mem_range.mpr hi)

/-- **A whole front names its rows** where no padding is set. -/
theorem namedRows_of_whole {endpoints : List Entry} (hnodup : (endpoints.map Prod.fst).Nodup)
    (hpad : ∀ e ∈ endpoints, ∀ k, decodeFrontEndpointKey e.1 = some k → k.pad = 0) {front : LbFrontKey} {m : FrontMeta}
    (hwhole : (liveRows endpoints front m).length = m.count.toNat) {slot : Nat} (hslot : slot < m.count.toNat) :
    ∃ value, (slotKey front m.generation slot, value) ∈ liveRows endpoints front m := by
  have hkeys : ∀ e ∈ liveRows endpoints front m, ∃ i, i < m.count.toNat ∧ e.1 = slotKey front m.generation i := by
    intro e he
    obtain ⟨hmem, k, hk, rfl, hgeneration, hlive⟩ := mem_liveRows.mp he
    refine ⟨k.slot.toNat, UInt16.lt_iff_toNat_lt.mp hlive, ?_⟩
    rw [← hgeneration]
    exact slotKey_of_decode hk (hpad e hmem k hk)
  choose! slotOf hslotOf using hkeys
  have hall := mem_of_nodup_of_length (l := (liveRows endpoints front m).map slotOf) ?_ ?_ (by simpa using hwhole) hslot
  · obtain ⟨⟨key, value⟩, he, hat⟩ := List.mem_map.mp hall
    obtain ⟨-, hkey⟩ := hslotOf _ he
    rw [hat] at hkey
    obtain rfl : key = _ := hkey
    exact ⟨value, he⟩
  · refine List.Nodup.map_on (fun e he e' he' heq => ?_) (nodup_liveRows hnodup front m).of_map
    refine List.inj_on_of_nodup_map (nodup_liveRows hnodup front m) he he' ?_
    rw [(hslotOf e he).2, (hslotOf e' he').2, heq]
  · intro i hi
    obtain ⟨e, he, rfl⟩ := List.mem_map.mp hi
    exact (hslotOf e he).1

/-- **A whole front has no other rows** where the rows it names exist. -/
theorem row_of_whole {endpoints : List Entry} {front : LbFrontKey} {m : FrontMeta}
    (hnamed : ∀ slot, slot < m.count.toNat → ∃ value, (slotKey front m.generation slot, value) ∈ endpoints)
    (hwhole : (liveRows endpoints front m).length = m.count.toNat) {e : Entry} (he : e ∈ liveRows endpoints front m) :
    ∃ slot, slot < m.count.toNat ∧ e.1 = slotKey front m.generation slot := by
  -- the named rows are `count` of the keys, so they are all of them
  let named := (List.range m.count.toNat).map (slotKey front m.generation)
  have hinj : ∀ i ∈ List.range m.count.toNat, ∀ j ∈ List.range m.count.toNat,
      slotKey front m.generation i = slotKey front m.generation j → i = j := by
    intro i hi j hj heq
    have hcount := m.count.toNat_lt
    exact slotKey_inj ((List.mem_range.mp hi).trans hcount) ((List.mem_range.mp hj).trans hcount) heq
  have hsub : named.Subperm ((liveRows endpoints front m).map Prod.fst) := by
    refine List.subperm_of_subset (List.nodup_range.map_on hinj) fun key hkey => ?_
    obtain ⟨slot, hslot, rfl⟩ := List.mem_map.mp hkey
    obtain ⟨value, hvalue⟩ := hnamed slot (List.mem_range.mp hslot)
    exact List.mem_map.mpr ⟨_, mem_liveRows_of_slot (List.mem_range.mp hslot) hvalue, rfl⟩
  have hperm := hsub.perm_of_length_le (by simp [named, hwhole])
  obtain ⟨slot, hslot, hkey⟩ := List.mem_map.mp (hperm.mem_iff.mpr (List.mem_map.mpr ⟨e, he, rfl⟩))
  exact ⟨slot, List.mem_range.mp hslot, hkey.symm⟩

end Beep
