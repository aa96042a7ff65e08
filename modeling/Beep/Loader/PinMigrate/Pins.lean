import Beep.Lib.Crash
import Beep.Lib.StableSort
import Beep.Lib.Table
import Mathlib.Data.List.Lex

/-!
# `Loader.PinMigrate.Pins` — the pin directory

A map lives as long as something refers to it; what refers to it across loader starts are the pins. Every map has up to
two of them: its plain name, and the `_migrating` one its predecessor is parked under while its entries are carried
over. `Pins` lists what the two can name: maps of their own, or one map both, as between the two halves of a re-pin.
-/

namespace Beep

open StableSort

/-- The maps `beep-ebpf` declares. -/
inductive MapName where
  | config
  | uplinkConfig
  | frontMeta
  | frontEndpoints
  | frontMisses
  | podTargets
  | nodeAllow
  | fwdPending
  | flowTable
  deriving DecidableEq, Repr

/-- `MAP_NAMES`. -/
def mapNames : List MapName :=
  [.config, .uplinkConfig, .frontMeta, .frontEndpoints, .frontMisses, .podTargets, .nodeAllow, .fwdPending, .flowTable]

theorem mem_mapNames (name : MapName) : name ∈ mapNames := by cases name <;> decide

/-! ## Shapes -/

/-- `BPF_MAP_TYPE_HASH`. -/
def bpfMapTypeHash : UInt32 := 1

/-- `BPF_MAP_TYPE_LRU_HASH`. -/
def bpfMapTypeLruHash : UInt32 := 9

/-- `MapShape`. -/
structure MapShape where
  mapType : UInt32
  keySize : UInt32
  valueSize : UInt32
  maxEntries : UInt32
  mapFlags : UInt32
  deriving DecidableEq

/-- `COMPARED_MAP_FLAGS`: `BPF_F_NO_PREALLOC`. -/
def comparedMapFlags : UInt32 := 1

/-- `map_shape_mismatches`. -/
def mapShapeMismatches (existing requested : MapShape) : List String :=
  [("map_type", existing.mapType, requested.mapType), ("key_size", existing.keySize, requested.keySize),
    ("value_size", existing.valueSize, requested.valueSize), ("max_entries", existing.maxEntries, requested.maxEntries),
    ("map_flags", existing.mapFlags &&& comparedMapFlags, requested.mapFlags &&& comparedMapFlags)].filterMap
    fun (field, old, new) => if old ≠ new then some (field ++ " " ++ toString old ++ " -> " ++ toString new) else none

/-- A pin of the wanted shape: it is reused. -/
def MapShape.Fits (existing requested : MapShape) : Prop := mapShapeMismatches existing requested = []

instance (existing requested : MapShape) : Decidable (existing.Fits requested) :=
  inferInstanceAs (Decidable (_ = []))

/-- What `max_entries` and `map_flags` leave open: the layout of the entries. -/
def MapShape.layout (s : MapShape) : UInt32 × UInt32 × UInt32 := (s.mapType, s.keySize, s.valueSize)

theorem MapShape.fits_iff {s t : MapShape} : s.Fits t ↔ s.layout = t.layout ∧ s.maxEntries = t.maxEntries ∧
    s.mapFlags &&& comparedMapFlags = t.mapFlags &&& comparedMapFlags := by
  simp [Fits, mapShapeMismatches, layout, and_assoc]

theorem MapShape.Fits.refl (s : MapShape) : s.Fits s := fits_iff.mpr ⟨rfl, rfl, rfl⟩

/-! ## Maps -/

/-- `Entry`: the bytes of a key and of its value. -/
abbrev Entry := List UInt8 × List UInt8

/-- A map in the kernel. -/
structure KernelMap where
  shape : MapShape
  entries : Table (List UInt8) (List UInt8)
  bounded : entries.entries.length ≤ shape.maxEntries.toNat

/-- `io::Error`: its `raw_os_error`. -/
structure IoError where
  rawOsError : Option Int
  deriving DecidableEq

/-- `EEXIST`. -/
def eexist : Int := 17

/-- `E2BIG`. -/
def e2big : Int := 7

/-- Whatever else the kernel refuses a write for. It says `EEXIST` only of a key that exists. -/
abbrev Refusal := { e : IoError // e.rawOsError ≠ some eexist }

namespace KernelMap

/-- A new map. -/
def new (shape : MapShape) : KernelMap := ⟨shape, ∅, Nat.zero_le _⟩

/-- What a key of the map holds. -/
def get (m : KernelMap) (key : List UInt8) : Option (List UInt8) := m.entries.lookup key

/-- `snapshot_pin`: the entries in the order of their keys. -/
def snapshot (m : KernelMap) : List Entry :=
  sortByRank (fun e : Entry => e.1.map UInt8.toNat) (m.entries.entries.map fun e => (e.1, e.2))

theorem mem_snapshot {m : KernelMap} {key value : List UInt8} : (key, value) ∈ m.snapshot ↔ m.get key = some value := by
  rw [snapshot, (perm_sortByRank _ _).mem_iff, List.mem_map]
  constructor
  · rintro ⟨⟨k, v⟩, hmem, heq⟩
    obtain ⟨rfl, rfl⟩ := Prod.mk.inj heq
    exact AList.mem_lookup_iff.mpr hmem
  · intro h
    exact ⟨⟨key, value⟩, AList.mem_lookup_iff.mp h, rfl⟩

theorem length_snapshot (m : KernelMap) : m.snapshot.length = m.entries.entries.length := by
  rw [snapshot, (perm_sortByRank _ _).length_eq, List.length_map]

theorem nodup_snapshot (m : KernelMap) : (m.snapshot.map Prod.fst).Nodup := by
  have hperm := (perm_sortByRank (fun e : Entry => e.1.map UInt8.toNat)
    (m.entries.entries.map fun e => (e.1, e.2))).map Prod.fst
  rw [snapshot, hperm.nodup_iff, List.map_map]
  exact m.entries.nodupKeys

/-- The map with one more entry, of which there are fewer than it may have. -/
def insert (m : KernelMap) (entry : Entry) (h : m.entries.entries.length < m.shape.maxEntries.toNat) : KernelMap where
  shape := m.shape
  entries := m.entries.insert entry.1 entry.2
  bounded := by
    rw [AList.entries_insert, List.length_cons]
    have herase := (List.kerase_sublist entry.1 m.entries.entries).length_le
    omega

/-- The map without one of its entries. -/
def erase (m : KernelMap) (key : List UInt8) : KernelMap where
  shape := m.shape
  entries := m.entries.erase key
  bounded := (List.kerase_sublist key m.entries.entries).length_le.trans m.bounded

/-- `BPF_MAP_UPDATE_ELEM` with `BPF_NOEXIST`. A full LRU map gives up one of its entries for a new one. -/
def updateNoExist (m : KernelMap) (entry : Entry) (refused : Option Refusal) (victim : Nat) :
    Except IoError Unit × KernelMap :=
  match refused with
  | some e => (.error e, m)
  | none =>
      if (m.get entry.1).isSome then (.error ⟨some eexist⟩, m)
      else if h : m.entries.entries.length < m.shape.maxEntries.toNat then (.ok (), m.insert entry h)
      else if m.shape.mapType = bpfMapTypeLruHash then
        match m.entries.keys[victim % m.entries.keys.length]? with
        | some key =>
            if h : (m.erase key).entries.entries.length < m.shape.maxEntries.toNat then
              (.ok (), (m.erase key).insert entry h)
            else (.error ⟨some e2big⟩, m)
        | none => (.error ⟨some e2big⟩, m)
      else (.error ⟨some e2big⟩, m)

@[simp] theorem get_new (shape : MapShape) (key : List UInt8) : (new shape).get key = none := rfl

theorem get_insert (m : KernelMap) (entry : Entry) (h : m.entries.entries.length < m.shape.maxEntries.toNat)
    (key : List UInt8) : (m.insert entry h).get key = if key = entry.1 then some entry.2 else m.get key :=
  Table.lookup_insert_ite _ _ _ _

theorem shape_updateNoExist (m : KernelMap) (entry : Entry) (refused : Option Refusal) (victim : Nat) :
    (m.updateNoExist entry refused victim).2.shape = m.shape := by
  unfold updateNoExist
  repeat' split
  all_goals rfl

/-- A write to a map that does not have to give up an entry for it: the map has a key more if this is a new one and
    there is no reason to refuse it. -/
theorem updateNoExist_cases {m : KernelMap} {entry : Entry}
    (hroom : m.get entry.1 = none → m.shape.mapType = bpfMapTypeLruHash →
      m.entries.entries.length < m.shape.maxEntries.toNat) (refused : Option Refusal) (victim : Nat) :
    (∃ e : Refusal, m.updateNoExist entry refused victim = (.error e, m)) ∨
    (m.get entry.1 ≠ none ∧ m.updateNoExist entry refused victim = (.error ⟨some eexist⟩, m)) ∨
    (m.get entry.1 = none ∧ ∃ h, m.updateNoExist entry refused victim = (.ok (), m.insert entry h)) := by
  unfold updateNoExist
  cases refused with
  | some e => exact Or.inl ⟨e, rfl⟩
  | none =>
    dsimp only
    have hfull : (⟨some e2big⟩ : IoError).rawOsError ≠ some eexist := by decide
    by_cases hkey : (m.get entry.1).isSome
    · rw [if_pos hkey]
      exact Or.inr (Or.inl ⟨Option.isSome_iff_ne_none.mp hkey, rfl⟩)
    · rw [if_neg hkey]
      have hnone : m.get entry.1 = none := Option.not_isSome_iff_eq_none.mp hkey
      by_cases hlen : m.entries.entries.length < m.shape.maxEntries.toNat
      · rw [dif_pos hlen]
        exact Or.inr (Or.inr ⟨hnone, hlen, rfl⟩)
      · rw [dif_neg hlen, if_neg fun hlru => hlen (hroom hnone hlru)]
        exact Or.inl ⟨⟨⟨some e2big⟩, hfull⟩, rfl⟩

end KernelMap

/-! ## Pins -/

/-- What the plain and the `_migrating` pin of a name refer to. -/
inductive Pins where
  | none
  | plain (live : KernelMap)
  | migrating (parked : KernelMap)
  /-- Two maps. -/
  | both (live parked : KernelMap)
  /-- One map under both names. -/
  | shared (map : KernelMap)

namespace Pins

/-- The map under the plain pin. -/
def live : Pins → Option KernelMap
  | plain m | both m _ | shared m => some m
  | none | migrating _ => Option.none

/-- The map under the `_migrating` pin. -/
def parked : Pins → Option KernelMap
  | migrating m | both _ m | shared m => some m
  | none | plain _ => Option.none

/-- `PinStore::remove` of the plain pin. -/
def removePlain : Pins → Pins
  | plain _ => none
  | both _ m | shared m => migrating m
  | pins => pins

/-- `PinStore::remove` of the `_migrating` pin. -/
def removeMigrating : Pins → Pins
  | migrating _ => none
  | both m _ | shared m => plain m
  | pins => pins

/-- The first half of `PinStore::repin`: the map under the plain pin gets the `_migrating` pin too. -/
def link : Pins → Pins
  | plain m => shared m
  | pins => pins

/-- The load: a plain pin that is there is reused, whatever it refers to, and else a new map is pinned. -/
def create (shape : MapShape) : Pins → Pins
  | none => plain (.new shape)
  | migrating m => both (.new shape) m
  | pins => pins

/-- A restore write, to the map under the plain pin. -/
def write (entry : Entry) (refused : Option Refusal) (victim : Nat) : Pins → Except IoError Unit × Pins
  | plain m => ((m.updateNoExist entry refused victim).1, plain (m.updateNoExist entry refused victim).2)
  | both m old => ((m.updateNoExist entry refused victim).1, both (m.updateNoExist entry refused victim).2 old)
  | shared m => ((m.updateNoExist entry refused victim).1, shared (m.updateNoExist entry refused victim).2)
  | pins => (.error ⟨Option.none⟩, pins)

/-- The map a start copies from. -/
def source (pins : Pins) : Option KernelMap := pins.parked.or pins.live

end Pins

/-- `PIN_DIR`. -/
abbrev PinDir := MapName → Pins

end Beep
