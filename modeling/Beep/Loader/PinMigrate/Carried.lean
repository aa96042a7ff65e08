import Beep.Loader.PinMigrate.Start
import Beep.Lib.Run
import Mathlib.Data.Finset.Card

/-!
# `Loader.PinMigrate.Carried` — interrupted starts lose no entry

Whatever a start leaves when it is stopped, one of the two pins of a map has all its entries, and the next start copies
from that one (`Carried`). A start that comes to its end leaves them under the plain pin, and no other
(`entries_carried`).
-/

namespace Beep

open Crash Run

section
variable [Host]

/-- What is carried over: the original entries, what the plain map held before, the keys of both, and their layout. -/
structure Cargo where
  orig : List UInt8 → Option (List UInt8)
  old : List UInt8 → Option (List UInt8)
  keys : Finset (List UInt8)
  layout : UInt32 × UInt32 × UInt32

namespace Cargo

omit [Host]

/-- Where the map has an original key, it has its value, or the one the plain map held. -/
def Agrees (c : Cargo) (m : KernelMap) : Prop :=
  ∀ key v w, c.orig key = some v → m.get key = some w → w = v ∨ c.old key = some w

/-- The map has all of it. -/
structure Holds (c : Cargo) (m : KernelMap) : Prop where
  covers : ∀ key v, c.orig key = some v → m.get key ≠ none
  agrees : c.Agrees m
  within : ∀ key, m.get key ≠ none → key ∈ c.keys
  layout : m.shape.layout = c.layout

/-- **The invariant**: the map that a start copies from has all of it, and a second map nothing that contradicts it. -/
def Carried (c : Cargo) : Pins → Prop
  | .none => False
  | .plain m | .migrating m | .shared m => c.Holds m
  | .both m parked => c.Holds parked ∧ c.Agrees m ∧ ∀ key, m.get key ≠ none → key ∈ c.keys

/-- The start requests a map of the layout, with room for all of it, and takes the snapshot of it. -/
structure Admits (c : Cargo) (name : MapName) (s : Start) : Prop where
  layout : (s.requested name).layout = c.layout
  room : c.keys.card ≤ (s.requested name).maxEntries.toNat
  snapshot : s.snapshotFails name = false

/-- What the pins are while the entries of `parked` are written. -/
def Filling (c : Cargo) (wanted : MapShape) (parked : KernelMap) (pins : Pins) : Prop :=
  c.Holds parked ∧ (pins = .shared parked ∨
    ∃ m, pins = .both m parked ∧ m.shape.Fits wanted ∧ c.Agrees m ∧ ∀ key, m.get key ≠ none → key ∈ c.keys)

section
variable {c : Cargo} {wanted : MapShape} {parked : KernelMap} {pins : Pins}

theorem Filling.carried (h : c.Filling wanted parked pins) : c.Carried pins := by
  obtain ⟨hparked, rfl | ⟨m, rfl, -, hagrees, hwithin⟩⟩ := h
  · exact hparked
  · exact ⟨hparked, hagrees, hwithin⟩

/-- A new map beside the parked one. -/
theorem filling_new (h : c.Holds parked) : c.Filling wanted parked (.both (.new wanted) parked) :=
  ⟨h, Or.inr ⟨.new wanted, rfl, .refl _, fun _ _ _ _ hw => (nomatch hw), fun _ hsome => absurd rfl hsome⟩⟩

/-- A map has no more entries than there are keys it may have. -/
theorem length_le_card {m : KernelMap} {keys : Finset (List UInt8)} (hwithin : ∀ key, m.get key ≠ none → key ∈ keys) :
    m.entries.entries.length ≤ keys.card := by
  have hsub : m.entries.keys.toFinset ⊆ keys := by
    intro k hk
    obtain ⟨v, hv⟩ := (Table.mem_keys_iff m.entries k).mp (List.mem_toFinset.mp hk)
    refine hwithin k ?_
    rw [KernelMap.get, hv]
    exact fun h => nomatch h
  have hcard := Finset.card_le_card hsub
  rw [List.toFinset_card_of_nodup m.entries.keys_nodup] at hcard
  have hlen : m.entries.keys.length = m.entries.entries.length := by simp [AList.keys, List.keys]
  omega

/-- A map whose keys are among the given ones, and not all of them, has fewer entries. -/
theorem length_lt_card {m : KernelMap} {keys : Finset (List UInt8)} (hwithin : ∀ key, m.get key ≠ none → key ∈ keys)
    {key : List UInt8} (hkey : key ∈ keys) (hnone : m.get key = none) : m.entries.entries.length < keys.card := by
  have hothers : ∀ k, m.get k ≠ none → k ∈ keys.erase key := by
    intro k hk
    refine Finset.mem_erase.mpr ⟨?_, hwithin k hk⟩
    rintro rfl
    exact hk hnone
  have hcard := length_le_card hothers
  have hpos : 0 < keys.card := Finset.card_pos.mpr ⟨key, hkey⟩
  rw [Finset.card_erase_of_mem hkey] at hcard
  omega

/-- **The writes of the parked entries** keep the invariant. -/
theorem writable_filling (hroom : c.keys.card ≤ wanted.maxEntries.toNat) :
    Writable (c.Filling wanted parked) parked.snapshot := by
  intro pins entry refused victim hpins hentry
  have hget : parked.get entry.1 = some entry.2 := KernelMap.mem_snapshot.mp hentry
  obtain ⟨hparked, rfl | ⟨m, rfl, hfits, hagrees, hwithin⟩⟩ := hpins
  · have hkey : parked.get entry.1 ≠ none := by rw [hget]; exact fun h => nomatch h
    have hsame : (parked.updateNoExist entry refused victim).2 = parked := by
      have hroom : parked.get entry.1 = none → parked.shape.mapType = bpfMapTypeLruHash →
          parked.entries.entries.length < parked.shape.maxEntries.toNat := fun hnone => absurd hnone hkey
      rcases KernelMap.updateNoExist_cases hroom refused victim with
        ⟨e, heq⟩ | ⟨-, heq⟩ | ⟨hnone, -⟩
      · rw [heq]
      · rw [heq]
      · exact absurd hnone hkey
    have hpins : ((Pins.shared parked).write entry refused victim).2 = .shared parked := by
      show Pins.shared _ = _
      rw [hsame]
    rw [hpins]
    exact ⟨⟨hparked, Or.inl rfl⟩, fun key h => h, fun _ => ⟨parked, rfl, hkey⟩⟩
  · have hlt : m.get entry.1 = none → m.entries.entries.length < m.shape.maxEntries.toNat := by
      intro hnone
      have hmem : entry.1 ∈ c.keys := hparked.within _ (by rw [hget]; exact fun h => nomatch h)
      rw [(MapShape.fits_iff.mp hfits).2.1]
      exact lt_of_lt_of_le (length_lt_card hwithin hmem hnone) hroom
    simp only [Pins.write]
    rcases KernelMap.updateNoExist_cases (fun hnone _ => hlt hnone) refused victim with
      ⟨e, heq⟩ | ⟨hkey, heq⟩ | ⟨hnone, hlen, heq⟩
    · rw [heq]
      refine ⟨⟨hparked, Or.inr ⟨m, rfl, hfits, hagrees, hwithin⟩⟩, fun key h => h, fun hlanded => ?_⟩
      exact absurd (of_decide_eq_true hlanded) e.2
    · rw [heq]
      exact ⟨⟨hparked, Or.inr ⟨m, rfl, hfits, hagrees, hwithin⟩⟩, fun key h => h, fun _ => ⟨m, rfl, hkey⟩⟩
    · rw [heq]
      refine ⟨⟨hparked, Or.inr ⟨_, rfl, hfits, ?_, ?_⟩⟩, ?_, fun _ => ⟨_, rfl, ?_⟩⟩
      · intro key v w hv hw
        rw [KernelMap.get_insert] at hw
        split at hw
        · rename_i hsame
          subst hsame
          obtain rfl := Option.some_inj.mp hw
          exact hparked.agrees _ _ _ hv hget
        · exact hagrees key v w hv hw
      · intro key hkey
        rw [KernelMap.get_insert] at hkey
        split at hkey
        · rename_i hsame
          subst hsame
          exact hparked.within _ (by rw [hget]; exact fun h => nomatch h)
        · exact hwithin key hkey
      · rintro key ⟨m', hm', hkey⟩
        obtain rfl : m = m' := Option.some_inj.mp hm'
        refine ⟨_, rfl, ?_⟩
        rw [KernelMap.get_insert]
        split
        · exact fun h => nomatch h
        · exact hkey
      · rw [KernelMap.get_insert, if_pos rfl]
        exact fun h => nomatch h

end

/-! ## One start -/

section
variable [Host] {c : Cargo} {name : MapName} {s : Start} {d : PinDir}
  (hname : name ≠ .frontMeta ∧ name ≠ .frontEndpoints) (hrestore : restorableMapType c.layout.1)

include hname

omit [Host] in
include hrestore in
/-- A map of the layout is kept or migrated. -/
theorem fateOf_carried (hadmits : c.Admits name s) (h : c.Carried (d name)) :
    (s.fateOf d name = some .keep ∧ ∃ m, d name = .plain m) ∨ s.fateOf d name = some .migrate := by
  have hcoupled : ∀ own, coupledFate (s.coupled d) own name = own := by
    intro own
    cases name <;> first | rfl | exact absurd rfl hname.1 | exact absurd rfl hname.2
  have hfate : ∀ m : KernelMap, c.Holds m → pinFate m.shape (s.requested name) =
      if m.shape.Fits (s.requested name) then .keep else .migrate := by
    intro m hm
    refine pinFate_of_layout (hm.layout.trans hadmits.layout.symm) ?_
    rw [← hadmits.layout] at hrestore
    exact hrestore
  simp only [Start.fateOf, Start.sourceOf, hcoupled]
  cases hpins : d name with
  | none => rw [hpins] at h; exact h.elim
  | plain m =>
    rw [hpins] at h
    by_cases hfits : m.shape.Fits (s.requested name)
    · exact Or.inl ⟨by simp [pinSource, Pins.live, Pins.parked, hfate m h, hfits], m, rfl⟩
    · exact Or.inr (by simp [pinSource, Pins.live, Pins.parked, hfate m h, hfits])
  | migrating m | shared m =>
    rw [hpins] at h
    refine Or.inr ?_
    by_cases hfits : m.shape.Fits (s.requested name) <;>
      simp [pinSource, Pins.live, Pins.parked, hfate m h, hfits]
  | both m old =>
    rw [hpins] at h
    refine Or.inr ?_
    by_cases hfits : old.shape.Fits (s.requested name) <;>
      simp [pinSource, Pins.live, Pins.parked, hfate old h.1, hfits]

omit hname in
/-- A map that is kept. -/
theorem loadEbpf_keep {m : KernelMap} (hadmits : c.Admits name s) (hfate : s.fateOf d name = some .keep)
    (hpins : d name = .plain m) : Triple (· = d) (loadEbpf s) (fun _ d' => d' name = .plain m)
      fun d' => d' name = .plain m := by
  have hkept : ∀ now, (Pins.plain m).Recreating (s.requested name) (some .keep) now → now = .plain m := by
    rintro now (rfl | rfl | ⟨hne, -⟩ | ⟨hne, -⟩)
    · rfl
    · rfl
    · cases hne
    · cases hne
  have hfirst := recreateMismatchedPins_at d hadmits.snapshot
  rw [hfate, hpins] at hfirst
  refine Triple.bind (hfirst.weaken (fun _ h => h) (fun _ _ h => h) fun _ h => hkept _ h) fun recreated => ?_
  refine Triple.of_fact fun hnone => ?_
  refine (loadRecreated_unwritten ?_).weaken (fun _ h => h) (fun _ _ h => h) ?_
  · intro r hr
    rw [hnone] at hr
    exact nomatch hr
  · rintro d' (h | h) <;> exact h

omit [Host] hname in
/-- A carried map has a source, which has all of it. -/
theorem holds_source {pins : Pins} (h : c.Carried pins) : ∃ parked, pins.source = some parked ∧ c.Holds parked := by
  cases pins with
  | none => exact h.elim
  | plain m | migrating m | shared m => exact ⟨m, rfl, h⟩
  | both m old => exact ⟨old, rfl, h.1⟩

omit [Host] hname in
theorem Carried.link {pins : Pins} (h : c.Carried pins) : c.Carried pins.link := by
  cases pins with
  | none => exact h.elim
  | plain m | migrating m | shared m | both m old => exact h

omit [Host] hname in
/-- The pins are replaced, and entries are never only in a map that is not pinned. -/
theorem Carried.readied {pins : Pins} {parked : KernelMap} (h : c.Carried pins) (hsource : pins.source = some parked)
    (wanted : MapShape) :
    c.Filling wanted parked ((pins.readied wanted).create wanted) ∧ c.Carried (pins.readied wanted) := by
  cases pins with
  | none => exact h.elim
  | plain m | migrating m =>
    obtain rfl := Option.some_inj.mp hsource
    exact ⟨filling_new h, h⟩
  | shared m =>
    obtain rfl := Option.some_inj.mp hsource
    unfold Pins.readied
    dsimp only
    split
    · exact ⟨⟨h, Or.inl rfl⟩, h⟩
    · exact ⟨filling_new h, h⟩
  | both m old =>
    obtain rfl := Option.some_inj.mp hsource
    unfold Pins.readied
    dsimp only
    split
    · rename_i hfits
      exact ⟨⟨h.1, Or.inr ⟨m, rfl, hfits, h.2.1, h.2.2⟩⟩, h⟩
    · exact ⟨filling_new h.1, h.1⟩

/-- **Copying** the parked entries: all of their keys are there at the end. -/
theorem restoreMigrated_filling (hadmits : c.Admits name s) {parked : KernelMap} (hparked : c.Holds parked)
    {recreated : List Recreated} (hone : recreated.filter (·.name = name) = [⟨name, some parked.snapshot, true⟩])
    {start : Pins} (hstart : c.Filling (s.requested name) parked start) :
    Triple (fun d' : PinDir => d' name = start) (restoreMigrated s recreated)
      (fun _ d' => c.Filling (s.requested name) parked (d' name) ∧ ∀ key, parked.get key ≠ none → (d' name).Has key)
      fun d' => c.Carried (d' name) := by
  have hsnapshot : ∀ all, (name, all) ∈ snapshotsOf recreated ↔ all = parked.snapshot := by
    intro all
    rw [mem_snapshotsOf, hone]
    simp [eq_comm]
  have htake : parked.snapshot.take ((s.requested name).maxEntries.toNat) = parked.snapshot := by
    refine List.take_of_length_le ?_
    rw [KernelMap.length_snapshot]
    exact (length_le_card hparked.within).trans hadmits.room
  unfold restoreMigrated
  rw [if_neg fun hnil => List.not_mem_nil (hnil ▸ (hsnapshot _).mpr rfl)]
  have hwrites : Writable (c.Filling (s.requested name) parked) parked.snapshot := writable_filling hadmits.room
  refine (applyPlan_at (R := fun _ => False) name hwrites ?_ ?_ ?_).weaken ?_ ?_ ?_
  · rintro ⟨name', entries⟩ hp rfl e he
    obtain ⟨-, all, hmem, rfl⟩ := mem_generic_planRestore.mp hp
    obtain rfl := (hsnapshot all).mp hmem
    exact List.mem_of_mem_take he
  · rintro rfl
    exact absurd rfl hname.2
  · rintro rfl
    exact absurd rfl hname.1
  · rintro d' rfl
    exact ⟨hstart, fun _ hfalse => hfalse.elim⟩
  · rintro _ d' ⟨hfilling, hkeys⟩
    refine ⟨hfilling, fun key hkey => hkeys key (Or.inr (Or.inl ?_))⟩
    obtain ⟨value, hvalue⟩ := Option.ne_none_iff_exists'.mp hkey
    refine ⟨(name, parked.snapshot), ?_, rfl, (key, value), KernelMap.mem_snapshot.mpr hvalue, rfl⟩
    exact mem_generic_planRestore.mpr ⟨hname, _, (hsnapshot _).mpr rfl, htake.symm⟩
  · exact fun d' hfilling => hfilling.carried

omit [Host] hname in
/-- The map that is left has the parked entries, or is the parked one. -/
theorem Filling.removeMigrating {wanted : MapShape} {parked : KernelMap} {pins : Pins}
    (h : c.Filling wanted parked pins) (hlayout : wanted.layout = c.layout)
    (hkeys : ∀ key, parked.get key ≠ none → pins.Has key) : ∃ m, pins.removeMigrating = .plain m ∧ c.Holds m := by
  obtain ⟨hparked, rfl | ⟨m, rfl, hfits, hagrees, hwithin⟩⟩ := h
  · exact ⟨parked, rfl, hparked⟩
  · refine ⟨m, rfl, fun key v hv => ?_, hagrees, hwithin, ?_⟩
    · obtain ⟨m', hm', hkey⟩ := hkeys key (hparked.covers key v hv)
      obtain rfl : m = m' := Option.some_inj.mp hm'
      exact hkey
    · exact (MapShape.fits_iff.mp hfits).1.trans hlayout

/-- **A map that is migrated.** -/
theorem loadEbpf_migrate (hadmits : c.Admits name s) (h : c.Carried (d name))
    (hfate : s.fateOf d name = some .migrate) : Triple (· = d) (loadEbpf s)
      (fun _ d' => ∃ m, d' name = .plain m ∧ c.Holds m) fun d' => c.Carried (d' name) := by
  obtain ⟨parked, hsource, hparked⟩ := holds_source h
  obtain ⟨hfilling, hready⟩ := h.readied hsource (s.requested name)
  have hfirst := recreateMismatchedPins_at d hadmits.snapshot
  rw [hfate] at hfirst
  refine Triple.bind (hfirst.weaken (fun _ h => h) (fun _ _ h => h) ?_) fun recreated => ?_
  · rintro d' (heq | heq | ⟨-, heq⟩ | ⟨hne, -⟩)
    · rwa [heq]
    · rwa [heq]
    · rw [heq]
      exact h.link
    · cases hne
  refine Triple.of_fact fun hone => ?_
  have hone : recreated.filter (·.name = name) = [⟨name, some parked.snapshot, true⟩] := by
    rw [hone]
    simp only [recordOf, hsource]
    rfl
  refine Triple.bind ((loadMaps_at s name _).weaken (fun _ h => h) (fun _ _ h => h) ?_) fun _ => ?_
  · rintro d' (heq | heq)
    · rwa [heq]
    · rw [heq]
      exact hfilling.carried
  refine Triple.bind (restoreMigrated_filling hname hadmits hparked hone hfilling) fun _ => ?_
  have hmem : name ∈ (recreated.filter (·.parked)).map (·.name) := by
    rw [mem_parked, hone]
    exact ⟨_, List.mem_singleton_self _, rfl⟩
  refine Triple.of_state ?_
  rintro d' ⟨hfilled, hkeys⟩
  obtain ⟨m, hm, hholds⟩ := hfilled.removeMigrating hadmits.layout hkeys
  refine (unparkMigrated_at _ name (d' name)).weaken ?_ ?_ ?_
  · rintro _ rfl
    rfl
  · intro _ d'' h''
    rw [if_pos hmem] at h''
    exact ⟨m, h''.trans hm, hholds⟩
  · rintro d'' (h'' | ⟨-, h''⟩)
    · rw [h'']
      exact hfilled.carried
    · rw [h'', hm]
      exact hholds

end

/-! ## Any number of starts -/

section
variable [Host] {c : Cargo} {name : MapName} {s : Start} {d : PinDir}
  (hname : name ≠ .frontMeta ∧ name ≠ .frontEndpoints) (hrestore : restorableMapType c.layout.1)

include hname hrestore

/-- A start of any kind. -/
theorem loadEbpf_carried (hadmits : c.Admits name s) (h : c.Carried (d name)) : Triple (· = d) (loadEbpf s)
    (fun _ d' => ∃ m, d' name = .plain m ∧ c.Holds m) fun d' => c.Carried (d' name) := by
  rcases fateOf_carried hname hrestore hadmits h with ⟨hkeep, m, hpins⟩ | hmigrate
  · have hm : c.Holds m := by
      rw [hpins] at h
      exact h
    refine (loadEbpf_keep hadmits hkeep hpins).weaken (fun _ h => h) ?_ ?_
    · exact fun _ d' hd' => ⟨m, hd', hm⟩
    · intro d' hd'
      rw [hd']
      exact hm
  · exact loadEbpf_migrate hname hadmits h hmigrate

/-- **The step.** -/
theorem Carried.start (h : c.Carried (d name)) (hadmits : c.Admits name s) : c.Carried ((d.start s) name) := by
  have hload := loadEbpf_carried hname hrestore hadmits h
  have hend : ∀ (a : Unit) (d' : PinDir), (∃ m, d' name = .plain m ∧ c.Holds m) → c.Carried (d' name) := by
    rintro _ d' ⟨m, hpins, hm⟩
    rw [hpins]
    exact hm
  unfold PinDir.start
  cases s.stop with
  | some n => exact hload.stopped rfl h hend n
  | none =>
    cases hres : ((loadEbpf s).run d).result with
    | ok a => exact hend a _ (hload.ends d rfl a hres)
    | error e => exact hload.fails d rfl e hres

/-- The start that comes to its end. -/
theorem Carried.completed (h : c.Carried (d name)) (hadmits : c.Admits name s) (hdone : s.Completes d) :
    ∃ m, (d.start s) name = .plain m ∧ c.Holds m := by
  have hload := loadEbpf_carried hname hrestore hadmits h
  unfold PinDir.start
  rw [hdone.1]
  exact hload.ends d rfl () hdone.2

end

end Cargo

/-! ## What a directory carries over -/

/-- What is carried over from the pins of a name: the entries of the map a start copies from, and what the plain map
    holds. -/
def Pins.cargo (pins : Pins) (original : KernelMap) : Cargo where
  orig := original.get
  old key := pins.live.bind (·.get key)
  keys := (original.entries.keys ++ (pins.live.elim [] (·.entries.keys))).toFinset
  layout := original.shape.layout

omit [Host] in
theorem carried_cargo {pins : Pins} {original : KernelMap} (h : pins.source = some original) :
    (pins.cargo original).Carried pins := by
  have hkey : ∀ (m : KernelMap) key, m.get key ≠ none → key ∈ m.entries.keys := fun m key hsome =>
    (Table.mem_keys_iff _ _).mpr (Option.ne_none_iff_exists'.mp hsome)
  have hholds : (pins.cargo original).Holds original := by
    refine ⟨fun key v hv => ?_, fun key v w hv hw => Or.inl ?_, fun key hsome => ?_, rfl⟩
    · show original.get key ≠ none
      rw [show original.get key = some v from hv]
      exact fun h => nomatch h
    · exact Option.some_inj.mp (hw.symm.trans hv)
    · exact List.mem_toFinset.mpr (List.mem_append_left _ (hkey original key hsome))
  cases pins with
  | none => cases h
  | plain m | migrating m | shared m =>
    obtain rfl := Option.some_inj.mp h
    exact hholds
  | both m parked =>
    obtain rfl := Option.some_inj.mp h
    refine ⟨hholds, fun key v w hv hw => Or.inr hw, fun key hsome => ?_⟩
    exact List.mem_toFinset.mpr (List.mem_append_right _ (hkey m key hsome))

/-- **No entry is lost or reverted.** After any number of starts, stopped anywhere or failing anywhere, the first one that
    comes to its end leaves every entry of the original map under the plain pin, with its value or the one the plain map
    held before, and no `_migrating` pin; if every start requests a hash map of the layout with room for the entries and
    none fails to take the snapshot. -/
theorem entries_carried {d : PinDir} {name : MapName} {original : KernelMap} {starts : List Start} {last : Start}
    (hname : name ≠ .frontMeta ∧ name ≠ .frontEndpoints) (horiginal : (d name).source = some original)
    (hrestore : restorableMapType original.shape.mapType)
    (hlayout : ∀ s ∈ starts ++ [last], (s.requested name).layout = original.shape.layout)
    (hfits : ∀ s ∈ starts ++ [last],
      ((d name).cargo original).keys.card ≤ (s.requested name).maxEntries.toNat)
    (hsnapshot : ∀ s ∈ starts ++ [last], s.snapshotFails name = false)
    (hdone : last.Completes (starts.foldl PinDir.start d)) :
    ∃ m, ((starts ++ [last]).foldl PinDir.start d) name = .plain m ∧
      ∀ key value, original.get key = some value →
        ∃ now, m.get key = some now ∧ (now = value ∨ (d name).live.bind (·.get key) = some now) := by
  let c := (d name).cargo original
  have hadmits : ∀ s ∈ starts ++ [last], c.Admits name s := fun s hs => ⟨hlayout s hs, hfits s hs, hsnapshot s hs⟩
  have hbefore : c.Carried ((starts.foldl PinDir.start d) name) := by
    refine List.foldlRecOn starts PinDir.start (motive := fun d' => c.Carried (d' name))
      (carried_cargo horiginal) fun d' hd' s hs => ?_
    exact hd'.start hname hrestore (hadmits s (List.mem_append_left _ hs))
  obtain ⟨m, hpins, hm⟩ := hbefore.completed hname hrestore
    (hadmits last (List.mem_append_right _ (List.mem_singleton_self _))) hdone
  rw [List.foldl_append]
  refine ⟨m, hpins, fun key value hvalue => ?_⟩
  obtain ⟨now, hnow⟩ := Option.ne_none_iff_exists'.mp (hm.covers key value hvalue)
  exact ⟨now, hnow, hm.agrees key value now hvalue hnow⟩

end

/-! ## A node list that outgrows its map -/

section

local instance carriedHost : Host := ⟨.little⟩

/-- A `NODE_ALLOW` map with room for two nodes, which it has. -/
def fullNodeAllow : KernelMap where
  shape := ⟨bpfMapTypeHash, 16, 1, 2, 0⟩
  entries := (∅ : Table (List UInt8) (List UInt8)).insert [2] [1] |>.insert [1] [1]
  bounded := by decide

/-- Only this map is pinned. -/
def nodeAllowPinned : PinDir := fun name => if name = .nodeAllow then .plain fullNodeAllow else .none

/-- A start that requests room for `maxEntries`. -/
def growingStart (maxEntries : UInt32) (stop : Option Nat) : Start where
  requested _ := ⟨bpfMapTypeHash, 16, 1, maxEntries, 0⟩
  order := .asStored
  snapshotFails _ := false
  refuses _ _ := none
  victim _ _ := 0
  stop := stop

theorem growingStart_completes : (growingStart 8 none).Completes (nodeAllowPinned.start (growingStart 4 (some 12))) := by
  have hok : ((loadEbpf (growingStart 8 none)).run
      (nodeAllowPinned.start (growingStart 4 (some 12)))).result.toOption = some () := by
    decide
  exact ⟨rfl, eq_ok_of_toOption hok⟩

/-- The theorem for a start that is stopped after the first restore write, and one that requests something else. -/
theorem entries_carried_two_starts :
    ∃ m, (([growingStart 4 (some 12)] ++ [growingStart 8 none]).foldl PinDir.start nodeAllowPinned) .nodeAllow =
        .plain m ∧
      ∀ key value, fullNodeAllow.get key = some value → ∃ now, m.get key = some now ∧
        (now = value ∨ (nodeAllowPinned .nodeAllow).live.bind (·.get key) = some now) := by
  refine entries_carried ⟨by decide, by decide⟩ rfl rfl ?_ ?_ ?_ growingStart_completes
  · intro s hs
    simp only [List.cons_append, List.nil_append, List.mem_cons, List.not_mem_nil, or_false] at hs
    rcases hs with rfl | rfl <;> rfl
  · intro s hs
    simp only [List.cons_append, List.nil_append, List.mem_cons, List.not_mem_nil, or_false] at hs
    rcases hs with rfl | rfl <;> decide
  · intro s hs
    simp only [List.cons_append, List.nil_append, List.mem_cons, List.not_mem_nil, or_false] at hs
    rcases hs with rfl | rfl <;> rfl

end

end Beep
