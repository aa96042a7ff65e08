import Beep.Loader.PinMigrate.FrontPair

/-!
# `Loader.PinMigrate.FrontsCarried` — copying the fronts, over any number of starts

A start that migrates the front maps parks both, fills the new ones front by front and unpins the parked ones. Until it
unpins them a migration is pending; then the pair fits together, if every row that a reused `FRONT_META` came with has its
endpoint rows there too (`Start.CopiesNamed`). Over any number of starts, stopped anywhere, the first one that comes to
its end leaves a pair that fits together (`fronts_consistent`).
-/

namespace Beep

open Crash Run

/-! ## Pins that are parked -/

namespace Pins

/-- The map under the plain pin that a start reuses beside the one it copies from. -/
def reused (wanted : MapShape) (pins : Pins) : Option KernelMap :=
  if pins.parked = Option.none then Option.none else pins.live.filter fun m => m.shape.Fits wanted

/-- What the pins of a name are while they are parked. -/
def Parking (wanted : MapShape) (before now : Pins) : Prop :=
  now = before ∨ now = before.readied wanted ∨ now = before.link

section
variable {wanted : MapShape} {before now : Pins} {m : KernelMap}

/-- A name that migrates is only parked while the mismatched pins are recreated. -/
theorem Recreating.parking (h : before.Recreating wanted (some .migrate) now) : before.Parking wanted now := by
  rcases h with h | h | ⟨-, h⟩ | ⟨hne, -⟩
  · exact Or.inl h
  · exact Or.inr (Or.inl h)
  · exact Or.inr (Or.inr h)
  · cases hne

/-- The pins are as they should be, or only the map that is copied from is left. -/
theorem readied_cases (wanted : MapShape) (pins : Pins) :
    (pins.readied wanted = pins ∧ ((∃ m, pins = .migrating m) ∨ pins = .none ∨ ∃ m, pins.live = some m ∧
      m.shape.Fits wanted ∧ pins.parked ≠ Option.none)) ∨
    ∃ m, pins.source = some m ∧ pins.readied wanted = .migrating m ∧
      (pins.parked = Option.none ∨ ∃ stale, pins.live = some stale ∧ ¬ stale.shape.Fits wanted) := by
  cases pins with
  | none => exact Or.inl ⟨rfl, Or.inr (Or.inl rfl)⟩
  | plain m => exact Or.inr ⟨m, rfl, rfl, Or.inl rfl⟩
  | migrating m => exact Or.inl ⟨rfl, Or.inl ⟨m, rfl⟩⟩
  -- a plain map beside the parked one is reused if it has the wanted shape
  | both m old | shared m =>
    unfold readied
    dsimp only
    split
    · rename_i hfits
      exact Or.inl ⟨rfl, Or.inr (Or.inr ⟨m, rfl, hfits, fun h => nomatch h⟩)⟩
    · rename_i hstale
      exact Or.inr ⟨_, rfl, rfl, Or.inr ⟨m, rfl, hstale⟩⟩

/-- A second pin for the map changes nothing in what is copied from. -/
theorem source_link (pins : Pins) : pins.link.source = pins.source := by cases pins <;> rfl

/-- Nor does what is done to the pin that is not copied from. -/
theorem source_readied (wanted : MapShape) (pins : Pins) : (pins.readied wanted).source = pins.source := by
  rcases readied_cases wanted pins with ⟨heq, -⟩ | ⟨m, hm, heq, -⟩
  · rw [heq]
  · rw [heq, hm]
    rfl

/-- What is copied from is the same before and after. -/
theorem Parking.source (h : before.Parking wanted now) : now.source = before.source := by
  rcases h with rfl | rfl | rfl
  · rfl
  · exact source_readied wanted before
  · exact source_link before

/-- No map comes while the pins are parked. -/
theorem Parking.pinned (h : before.Parking wanted now) (hm : now.Pinned m) : before.Pinned m := by
  rcases h with rfl | rfl | rfl
  · exact hm
  · rcases readied_cases wanted before with ⟨heq, -⟩ | ⟨old, hold, heq, -⟩
    · rwa [heq] at hm
    · rw [heq] at hm
      refine pinned_source ?_
      rw [hold]
      exact hm.elim (fun h => nomatch h) id
  · cases before with
    | plain old => exact hm.elim Or.inl Or.inl
    | _ => exact hm

/-- The plain pin goes or stays. -/
theorem Parking.live (h : before.Parking wanted now) : now.live = Option.none ∨ now.live = before.live := by
  rcases h with rfl | rfl | rfl
  · exact Or.inr rfl
  · rcases readied_cases wanted before with ⟨heq, -⟩ | ⟨old, -, heq, -⟩
    · exact Or.inr (by rw [heq])
    · exact Or.inl (by rw [heq]; rfl)
  · exact Or.inr (by cases before <;> rfl)

/-- Two maps are there only if there were two. -/
theorem Parking.both {live parked : KernelMap} (h : before.Parking wanted now) (hnow : now = .both live parked) :
    before = .both live parked := by
  rcases h with rfl | rfl | rfl
  · exact hnow
  · rcases readied_cases wanted before with ⟨heq, -⟩ | ⟨old, -, heq, -⟩
    · rwa [heq] at hnow
    · rw [heq] at hnow
      cases hnow
  · cases before <;> first | exact hnow | cases hnow

/-- Once something is done there is a `_migrating` pin. -/
theorem Parking.parked (h : before.Parking wanted now) (hsome : before.source ≠ Option.none) :
    now = before ∨ now.parked ≠ Option.none := by
  rcases h with rfl | rfl | rfl
  · exact Or.inl rfl
  · rcases readied_cases wanted before with ⟨heq, -⟩ | ⟨old, -, heq, -⟩
    · exact Or.inl heq
    · exact Or.inr (by rw [heq]; exact fun h => nomatch h)
  · cases before with
    -- nothing under the name, so nothing to copy from
    | none => exact absurd rfl hsome
    | plain _ => exact Or.inr fun h => nomatch h
    | migrating _ | both _ _ | shared _ => exact Or.inl rfl

end

/-- What the pins are once they are parked: the map that is copied from, and beside it the one that is reused. -/
theorem readied_of_source (wanted : MapShape) {pins : Pins} {m : KernelMap} (h : pins.source = some m) :
    (pins.readied wanted = .migrating m ∧ pins.reused wanted = Option.none) ∨
    (∃ live, pins.readied wanted = .both live m ∧ pins = .both live m ∧ live.shape.Fits wanted ∧
      pins.reused wanted = some live) ∨
    (pins.readied wanted = .shared m ∧ pins = .shared m ∧ m.shape.Fits wanted ∧ pins.reused wanted = some m) := by
  cases pins with
  | none => cases h
  | plain live | migrating live =>
    obtain rfl := Option.some_inj.mp h
    exact Or.inl ⟨rfl, rfl⟩
  | both live parked =>
    obtain rfl := Option.some_inj.mp h
    by_cases hfits : live.shape.Fits wanted
    · exact Or.inr (Or.inl ⟨live, by simp [readied, hfits], rfl, hfits, by
        simp [reused, Pins.parked, Pins.live, hfits]⟩)
    · exact Or.inl ⟨by simp [readied, hfits], by simp [reused, Pins.parked, Pins.live, hfits]⟩
  | shared live =>
    obtain rfl := Option.some_inj.mp h
    by_cases hfits : live.shape.Fits wanted
    · exact Or.inr (Or.inr ⟨by simp [readied, hfits], rfl, hfits, by
        simp [reused, Pins.parked, Pins.live, hfits]⟩)
    · exact Or.inl ⟨by simp [readied, hfits], by simp [reused, Pins.parked, Pins.live, hfits]⟩

end Pins

/-! ## Writing the fronts -/

/-- The pins with another map under the plain one. -/
def Pins.withLive (m : KernelMap) : Pins → Pins
  | .plain _ => .plain m
  | .both _ parked => .both m parked
  | .shared _ => .shared m
  | pins => pins

/-- A write to a hash map adds its entry if the key is new and nothing refuses it. -/
theorem Pins.write_cases {pins : Pins} {m : KernelMap} (hlive : pins.live = some m)
    (hhash : m.shape.mapType = bpfMapTypeHash) (entry : Entry) (refused : Option Refusal) (victim : Nat) :
    ((pins.write entry refused victim).2 = pins ∧
      (writeLanded (pins.write entry refused victim).1 = true → pins.Has entry.1)) ∨
    (m.get entry.1 = Option.none ∧
      ∃ h, (pins.write entry refused victim).2 = pins.withLive (m.insert entry h)) := by
  have hwrite : (pins.write entry refused victim).1 = (m.updateNoExist entry refused victim).1 ∧
      (pins.write entry refused victim).2 = pins.withLive (m.updateNoExist entry refused victim).2 := by
    cases pins with
    | none | migrating _ => cases hlive
    | plain _ | both _ _ | shared _ =>
      obtain rfl := Option.some_inj.mp hlive
      exact ⟨rfl, rfl⟩
  have hsame : pins.withLive m = pins := by
    cases pins with
    | none | migrating _ => rfl
    | plain _ | both _ _ | shared _ =>
      obtain rfl := Option.some_inj.mp hlive
      rfl
  rw [hwrite.1, hwrite.2]
  -- hash maps are not LRU maps, so nothing is given up
  have hroom : m.get entry.1 = Option.none → m.shape.mapType = bpfMapTypeLruHash →
      m.entries.entries.length < m.shape.maxEntries.toNat := by
    intro _ hlru
    rw [hhash] at hlru
    exact absurd hlru (by decide)
  rcases KernelMap.updateNoExist_cases hroom refused victim with
    ⟨e, heq⟩ | ⟨hkey, heq⟩ | ⟨hnone, hlen, heq⟩
  · rw [heq, hsame]
    exact Or.inl ⟨rfl, fun hlanded => absurd (of_decide_eq_true hlanded) e.2⟩
  · rw [heq, hsame]
    exact Or.inl ⟨rfl, fun _ => ⟨m, hlive, hkey⟩⟩
  · rw [heq]
    exact Or.inr ⟨hnone, hlen, rfl⟩

/-- What the pins have after an insertion. -/
theorem Pins.has_withLive_insert {pins : Pins} {m : KernelMap} (hlive : pins.live = some m) {entry : Entry}
    (h : m.entries.entries.length < m.shape.maxEntries.toNat) (key : List UInt8) :
    (pins.withLive (m.insert entry h)).Has key ↔ pins.Has key ∨ key = entry.1 := by
  have hlive' : (pins.withLive (m.insert entry h)).live = some (m.insert entry h) := by
    cases pins <;> first | rfl | cases hlive
  unfold Pins.Has
  rw [hlive, hlive']
  simp only [Option.some.injEq, exists_eq_left', KernelMap.get_insert]
  by_cases hkey : key = entry.1
  · simp [hkey]
  · simp [hkey]

/-- What the writes of a front map keep is kept by the map as it is and by an insertion. -/
theorem writable_of_insert {J : Pins → Prop} {writes : List Entry}
    (hhash : ∀ pins, J pins → ∃ m, pins.live = some m ∧ m.shape.mapType = bpfMapTypeHash)
    (hinsert : ∀ pins m entry, J pins → pins.live = some m → entry ∈ writes → m.get entry.1 = none → ∀ h,
      J (pins.withLive (m.insert entry h))) : Writable J writes := by
  intro pins entry refused victim hJ hentry
  obtain ⟨m, hlive, htype⟩ := hhash pins hJ
  rcases Pins.write_cases hlive htype entry refused victim with ⟨hsame, hlanded⟩ | ⟨hnone, hlen, hwrite⟩
  · rw [hsame]
    exact ⟨hJ, fun key h => h, hlanded⟩
  · rw [hwrite]
    refine ⟨hinsert pins m entry hJ hlive hentry hnone hlen, fun key hkey => ?_, fun _ => ?_⟩
    · exact (Pins.has_withLive_insert hlive hlen key).mpr (Or.inl hkey)
    · exact (Pins.has_withLive_insert hlive hlen entry.1).mpr (Or.inr rfl)

section
variable [Host]

/-- The pins of `FRONT_META` while the fronts are copied: the parked map has the rows it had, and the plain one those of
    the reused map and of copied fronts. -/
structure MetaFilling (layout : UInt32 × UInt32 × UInt32) (metas : KernelMap) (reused : Option KernelMap)
    (copies : List FrontCopy) (pins : Pins) : Prop where
  parked : ∃ m, pins.parked = some m ∧ m.shape.layout = layout ∧
    ∀ key value, m.get key = some value → metas.get key = some value
  live : ∀ m, pins.live = some m → m.shape.layout = layout ∧ ∀ key value, m.get key = some value →
    (∃ r, reused = some r ∧ r.get key = some value) ∨ ∃ copy ∈ copies, copy.metaEntry = (key, value)

/-- The pins of `FRONT_ENDPOINTS` while the fronts are copied. -/
def EndpointFilling (layout : UInt32 × UInt32 × UInt32) (endpoints : KernelMap) (pins : Pins) : Prop :=
  endpoints.shape.layout = layout ∧ (pins = .migrating endpoints ∨ pins = .shared endpoints ∨
    ∃ m, pins = .both m endpoints ∧ m.shape.layout = layout ∧ m.PaddingZero)

omit [Host] in
/-- **A `FRONT_META` row is written**: the filled map stays one of reused and copied rows. -/
theorem writable_metas {layout : UInt32 × UInt32 × UInt32} (hhash : layout.1 = bpfMapTypeHash) (metas : KernelMap)
    (reused : Option KernelMap) {copies : List FrontCopy}
    (hcopies : ∀ copy ∈ copies, copy.metaEntry ∈ metas.snapshot) :
    Writable (fun pins => MetaFilling layout metas reused copies pins ∧ pins.live ≠ none)
      (copies.map (·.metaEntry)) := by
  refine writable_of_insert ?_ ?_
  · rintro pins ⟨hJ, hsome⟩
    obtain ⟨m, hlive⟩ := Option.ne_none_iff_exists'.mp hsome
    exact ⟨m, hlive, by rw [← hhash, ← (hJ.live m hlive).1]; rfl⟩
  rintro pins m entry ⟨hJ, -⟩ hlive hentry hnone hlen
  obtain ⟨copy, hcopy, rfl⟩ := List.mem_map.mp hentry
  obtain ⟨hlayout, hrows⟩ := hJ.live m hlive
  obtain ⟨old, hparked, holayout, horows⟩ := hJ.parked
  have hlive' : (pins.withLive (m.insert copy.metaEntry hlen)).live = some (m.insert copy.metaEntry hlen) := by
    cases pins <;> first | rfl | cases hlive
  refine ⟨⟨?_, fun m' hm' => ?_⟩, by rw [hlive']; exact fun h => nomatch h⟩
  · cases pins with
    | none | plain _ => cases hparked
    | migrating _ => cases hlive
    | both _ _ => exact ⟨old, hparked, holayout, horows⟩
    -- one map under both pins: the row is one it was copied from
    | shared _ =>
      obtain rfl := Option.some_inj.mp hparked
      obtain rfl := Option.some_inj.mp hlive
      refine ⟨_, rfl, hlayout, fun key value hkey => ?_⟩
      rw [KernelMap.get_insert] at hkey
      split at hkey
      · rename_i hsame
        rw [hsame, ← Option.some_inj.mp hkey]
        exact KernelMap.mem_snapshot.mp (hcopies copy hcopy)
      · exact horows key value hkey
  · obtain rfl := Option.some_inj.mp (hlive'.symm.trans hm')
    refine ⟨hlayout, fun key value hkey => ?_⟩
    rw [KernelMap.get_insert] at hkey
    split at hkey
    · rename_i hsame
      exact Or.inr ⟨copy, hcopy, by rw [hsame, ← Option.some_inj.mp hkey]⟩
    · exact hrows key value hkey

/-- **Endpoint rows are written**: only a map of its own is filled. -/
theorem writable_rows {layout : UInt32 × UInt32 × UInt32} (hhash : layout.1 = bpfMapTypeHash)
    (endpoints : KernelMap) {rows : List Entry} (hrows : ∀ e ∈ rows, endpoints.get e.1 ≠ none)
    (hpadding : ∀ e ∈ rows, ∀ k, decodeFrontEndpointKey e.1 = some k → k.pad = 0) :
    Writable (fun pins => EndpointFilling layout endpoints pins ∧ pins.live ≠ none) rows := by
  refine writable_of_insert ?_ ?_
  · rintro pins ⟨⟨hlayout, rfl | rfl | ⟨m, rfl, hmlayout, -⟩⟩, hsome⟩
    · exact absurd rfl hsome
    · exact ⟨endpoints, rfl, by rw [← hhash, ← hlayout]; rfl⟩
    · exact ⟨m, rfl, by rw [← hhash, ← hmlayout]; rfl⟩
  rintro pins m entry ⟨⟨hlayout, rfl | rfl | ⟨m', rfl, hmlayout, hpad⟩⟩, -⟩ hlive hentry hnone hlen
  · cases hlive
  · obtain rfl := Option.some_inj.mp hlive
    -- one map under both pins has the row already
    exact absurd hnone (hrows entry hentry)
  · obtain rfl := Option.some_inj.mp hlive
    refine ⟨⟨hlayout, Or.inr (Or.inr ⟨_, rfl, hmlayout, fun key hsome k hk => ?_⟩)⟩, fun h => nomatch h⟩
    rw [KernelMap.get_insert] at hsome
    split at hsome
    · rename_i hsame
      exact hpadding entry hentry k (hsame ▸ hk)
    · exact hpad key hsome k hk

/-! ## Starts that copy the fronts -/

/-- If the front maps migrate, every endpoint row that a reused `FRONT_META` names is in the `FRONT_ENDPOINTS` reused with
    it, or belongs to a front that is copied: one of the whole fronts, in key order, as they fit the requested
    capacities. -/
def Start.CopiesNamed (s : Start) (d : PinDir) : Prop :=
  s.fateOf d .frontMeta = some .migrate → ∀ metas endpoints reused, (d .frontMeta).source = some metas →
    (d .frontEndpoints).source = some endpoints → (d .frontMeta).reused (s.requested .frontMeta) = some reused →
      ∀ key value, reused.get key = some value → ∀ row ∈ namedRows (key, value),
        (∃ m, (d .frontEndpoints).reused (s.requested .frontEndpoints) = some m ∧ m.get row ≠ none) ∨
        ∃ copy ∈ copiedFronts metas.snapshot endpoints.snapshot (s.requested .frontMeta).maxEntries.toNat
          (s.requested .frontEndpoints).maxEntries.toNat, ∃ e ∈ copy.rows, e.1 = row

section
variable {layouts : FrontLayouts} {metas endpoints : KernelMap} {metaCap epCap : Nat} {copy : FrontCopy}

/-- The rows of a copied front are those its row names. -/
theorem rows_of_copied (hcounts : Counts metas endpoints)
    (hcopy : copy ∈ copiedFronts metas.snapshot endpoints.snapshot metaCap epCap) :
    (∀ e ∈ copy.rows, endpoints.get e.1 ≠ none ∧ ∀ k, decodeFrontEndpointKey e.1 = some k → k.pad = 0) ∧
      ∀ row ∈ namedRows copy.metaEntry, ∃ e ∈ copy.rows, e.1 = row := by
  obtain ⟨hmeta, front, m, hfront, hm, hrows, hwhole⟩ := of_mem_copiedFronts hcopy
  have hkey := KernelMap.mem_snapshot.mp hmeta
  rw [hrows] at hwhole
  have hslots : ∀ slot, slot < m.count.toNat →
      ∃ value, (slotKey front m.generation slot, value) ∈ endpoints.snapshot := by
    intro slot hslot
    obtain ⟨value, hvalue⟩ := Option.ne_none_iff_exists'.mp
      (hcounts _ _ hkey front m hfront hm hwhole slot hslot)
    exact ⟨value, KernelMap.mem_snapshot.mpr hvalue⟩
  rw [hrows]
  constructor
  · intro e he
    obtain ⟨slot, -, hslot⟩ := row_of_whole hslots hwhole he
    refine ⟨?_, fun k hk => ?_⟩
    · rw [KernelMap.mem_snapshot.mp (mem_liveRows.mp he).1]
      exact fun h => nomatch h
    · rw [hslot, decode_slotKey] at hk
      rw [← Option.some_inj.mp hk]
      rfl
  · intro row hrow
    obtain ⟨front', m', slot, hfront', hm', hslot, rfl⟩ := mem_namedRows.mp hrow
    obtain rfl := Option.some_inj.mp (hfront.symm.trans hfront')
    obtain rfl := Option.some_inj.mp (hm.symm.trans hm')
    obtain ⟨value, hvalue⟩ := hslots slot hslot
    exact ⟨_, mem_liveRows_of_slot hslot hvalue, rfl⟩

end

section
variable {layouts : FrontLayouts} {s : Start} {d : PinDir} (hs : layouts.Requested s) (h : d.fronts.Sound layouts)
  {metas endpoints : KernelMap} (hmsource : (d .frontMeta).source = some metas)
  (hesource : (d .frontEndpoints).source = some endpoints)

include h hmsource hesource in
/-- While the pins are parked, a migration is pending, or nothing has changed. -/
theorem sound_parking {d' : PinDir}
    (hmparking : (d .frontMeta).Parking (s.requested .frontMeta) (d' .frontMeta))
    (heparking : (d .frontEndpoints).Parking (s.requested .frontEndpoints) (d' .frontEndpoints)) :
    d'.fronts.Sound layouts := by
  refine ⟨?_, fun m e hpinned hsource => ?_, fun e parked hboth => ?_⟩
  · rcases h.state with hpending | hsettled
    · refine Or.inl ⟨?_, fun m hm' => hpending.metaLayout m (hmparking.pinned hm'),
        fun e he' => hpending.endpointLayout e (heparking.pinned he')⟩
      rcases hmparking.parked (by rw [hmsource]; exact fun h => nomatch h) with hmsame | hmparked
      · rcases heparking.parked (by rw [hesource]; exact fun h => nomatch h) with hesame | heparked
        · have hsame : d'.fronts = d.fronts := by rw [PinDir.fronts, PinDir.fronts, hmsame, hesame]
          rw [hsame]
          exact hpending.parked
        · exact Or.inr heparked
      · exact Or.inl hmparked
    · exact Or.inr (hsettled.of_live hmparking.live heparking.live)
  · have hsource' : (d .frontEndpoints).source = some e := heparking.source.symm.trans hsource
    exact h.countable.counts m e (hmparking.pinned hpinned) hsource'
  · exact h.countable.padding e parked (heparking.both hboth)

include h hmsource hesource in
/-- While the fronts are copied, a migration is pending. -/
theorem sound_filling {copies : List FrontCopy} (hcopies : ∀ copy ∈ copies, copy.metaEntry ∈ metas.snapshot)
    {p : FrontPair}
    (hm : MetaFilling layouts.metas metas ((d .frontMeta).reused (s.requested .frontMeta)) copies p.metas)
    (he : EndpointFilling layouts.endpoints endpoints p.endpoints) : p.Sound layouts := by
  have hreused : ∀ r, (d .frontMeta).reused (s.requested .frontMeta) = some r → d.fronts.metas.Pinned r := by
    intro r hr
    rcases Pins.readied_of_source (s.requested .frontMeta) hmsource with
      ⟨-, hnone⟩ | ⟨live, -, hpins, -, hlive⟩ | ⟨-, hpins, -, hlive⟩
    · rw [hnone] at hr
      cases hr
    · obtain rfl := Option.some_inj.mp (hlive.symm.trans hr)
      exact Or.inl (by rw [PinDir.fronts, hpins]; rfl)
    · obtain rfl := Option.some_inj.mp (hlive.symm.trans hr)
      exact Or.inl (by rw [PinDir.fronts, hpins]; rfl)
  have hcounts : ∀ m, d.fronts.metas.Pinned m → Counts m endpoints := fun m hm =>
    h.countable.counts m endpoints hm hesource
  have hesource' : p.endpoints.source = some endpoints := by
    obtain ⟨-, heq | heq | ⟨m, heq, -⟩⟩ := he <;> rw [heq] <;> rfl
  obtain ⟨old, hparked, holayout, horows⟩ := hm.parked
  refine ⟨Or.inl ⟨Or.inl (by rw [hparked]; exact Option.some_ne_none old), ?_, ?_⟩, ?_, ?_⟩
  · rintro m (hlive | hparked')
    · exact (hm.live m hlive).1
    · obtain rfl := Option.some_inj.mp (hparked.symm.trans hparked')
      exact holayout
  · obtain ⟨hlayout, heq | heq | ⟨m, heq, hmlayout, -⟩⟩ := he <;> rw [heq]
    · rintro e (hlive | hparked)
      · cases hlive
      · obtain rfl := Option.some_inj.mp hparked
        exact hlayout
    · rintro e (hlive | hparked)
      · obtain rfl := Option.some_inj.mp hlive
        exact hlayout
      · obtain rfl := Option.some_inj.mp hparked
        exact hlayout
    · rintro e (hlive | hparked)
      · obtain rfl := Option.some_inj.mp hlive
        exact hmlayout
      · obtain rfl := Option.some_inj.mp hparked
        exact hlayout
  · -- a row is counted right in whichever map it was found
    intro m e hpinned hsource
    obtain rfl := Option.some_inj.mp (hesource'.symm.trans hsource)
    intro key value hkey
    have hfrom : metas.get key = some value ∨ ∃ r, (d .frontMeta).reused (s.requested .frontMeta) = some r ∧
        r.get key = some value := by
      rcases hpinned with hlive | hparked'
      · rcases (hm.live m hlive).2 key value hkey with hr | ⟨copy, hcopy, heq⟩
        · exact Or.inr hr
        · exact Or.inl (KernelMap.mem_snapshot.mp (heq ▸ hcopies copy hcopy))
      · obtain rfl := Option.some_inj.mp (hparked.symm.trans hparked')
        exact Or.inl (horows key value hkey)
    rcases hfrom with hmetas | ⟨r, hr, hrkey⟩
    · exact hcounts metas (Pins.pinned_source hmsource) key value hmetas
    · exact hcounts r (hreused r hr) key value hrkey
  · intro e parked hboth
    obtain ⟨-, heq | heq | ⟨m, heq, -, hpad⟩⟩ := he <;> rw [heq] at hboth
    · cases hboth
    · cases hboth
    · cases hboth
      exact hpad

end

section
variable {layouts : FrontLayouts} {s : Start} {d : PinDir} (hs : layouts.Requested s) (h : d.fronts.Sound layouts)
  {metas endpoints : KernelMap} (hmsource : (d .frontMeta).source = some metas)
  (hesource : (d .frontEndpoints).source = some endpoints)

omit [Host] in
include hs hmsource in
/-- The pins of `FRONT_META` that the copying begins with. -/
theorem metaFilling_readied (hlayout : metas.shape.layout = layouts.metas) (copies : List FrontCopy) {pins : Pins}
    (hpins : pins = (d .frontMeta).readied (s.requested .frontMeta) ∨
      pins = ((d .frontMeta).readied (s.requested .frontMeta)).create (s.requested .frontMeta)) :
    MetaFilling layouts.metas metas ((d .frontMeta).reused (s.requested .frontMeta)) copies pins := by
  have hfits : ∀ m : KernelMap, m.shape.Fits (s.requested .frontMeta) → m.shape.layout = layouts.metas :=
    fun m hfits => (MapShape.fits_iff.mp hfits).1.trans hs.metas
  rcases Pins.readied_of_source (s.requested .frontMeta) hmsource with
    ⟨hready, -⟩ | ⟨live, hready, -, hlive, hreused⟩ | ⟨hready, -, hlive, hreused⟩ <;> rw [hready] at hpins
  · rcases hpins with rfl | rfl
    · exact ⟨⟨metas, rfl, hlayout, fun _ _ h => h⟩, fun m hm => nomatch hm⟩
    · refine ⟨⟨metas, rfl, hlayout, fun _ _ h => h⟩, fun m hm => ?_⟩
      obtain rfl := Option.some_inj.mp hm
      exact ⟨hs.metas, fun key value hkey => nomatch hkey⟩
  · obtain rfl : pins = .both live metas := hpins.elim id id
    refine ⟨⟨metas, rfl, hlayout, fun _ _ h => h⟩, fun m hm => ?_⟩
    obtain rfl := Option.some_inj.mp hm
    exact ⟨hfits live hlive, fun key value hkey => Or.inl ⟨live, hreused, hkey⟩⟩
  · obtain rfl : pins = .shared metas := hpins.elim id id
    refine ⟨⟨metas, rfl, hlayout, fun _ _ h => h⟩, fun m hm => ?_⟩
    obtain rfl := Option.some_inj.mp hm
    exact ⟨hlayout, fun key value hkey => Or.inl ⟨metas, hreused, hkey⟩⟩

include hs h hesource in
/-- The pins of `FRONT_ENDPOINTS` that the copying begins with. -/
theorem endpointFilling_readied (hlayout : endpoints.shape.layout = layouts.endpoints) {pins : Pins}
    (hpins : pins = (d .frontEndpoints).readied (s.requested .frontEndpoints) ∨
      pins = ((d .frontEndpoints).readied (s.requested .frontEndpoints)).create (s.requested .frontEndpoints)) :
    EndpointFilling layouts.endpoints endpoints pins := by
  rcases Pins.readied_of_source (s.requested .frontEndpoints) hesource with
    ⟨hready, -⟩ | ⟨live, hready, hbefore, hlive, -⟩ | ⟨hready, -, -, -⟩ <;> rw [hready] at hpins
  · rcases hpins with rfl | rfl
    · exact ⟨hlayout, Or.inl rfl⟩
    · exact ⟨hlayout, Or.inr (Or.inr ⟨_, rfl, hs.endpoints, fun key hsome => absurd rfl hsome⟩)⟩
  · obtain rfl : pins = .both live endpoints := hpins.elim id id
    exact ⟨hlayout, Or.inr (Or.inr ⟨live, rfl, (MapShape.fits_iff.mp hlive).1.trans hs.endpoints,
      h.countable.padding live endpoints hbefore⟩)⟩
  · obtain rfl : pins = .shared endpoints := hpins.elim id id
    exact ⟨hlayout, Or.inr (Or.inl rfl)⟩

/-- A row of the reused `FRONT_ENDPOINTS`. -/
def ReusedRow (s : Start) (d : PinDir) (row : List UInt8) : Prop :=
  ∃ m, (d .frontEndpoints).reused (s.requested .frontEndpoints) = some m ∧ m.get row ≠ none

omit [Host] in
include hesource in
/-- The rows of the reused map are there when the writes begin. -/
theorem has_reusedRow {row : List UInt8} (h : ReusedRow s d row) :
    (((d .frontEndpoints).readied (s.requested .frontEndpoints)).create (s.requested .frontEndpoints)).Has row := by
  obtain ⟨m, hm, hsome⟩ := h
  refine ⟨m, ?_, hsome⟩
  rcases Pins.readied_of_source (s.requested .frontEndpoints) hesource with
    ⟨-, hnone⟩ | ⟨live, hready, -, -, hreused⟩ | ⟨hready, -, -, hreused⟩
  · rw [hnone] at hm
    cases hm
  · rw [hready, ← hm, hreused]
    rfl
  · rw [hready, ← hm, hreused]
    rfl

omit [Host] in
/-- The snapshot of a name that one record is about. -/
theorem mem_snapshotsOf_of_record {recreated : List Recreated} {name : MapName} {snapshot : List Entry} {parked : Bool}
    (hrecord : recreated.filter (·.name = name) = [⟨name, some snapshot, parked⟩]) (entries : List Entry) :
    (name, entries) ∈ snapshotsOf recreated ↔ entries = snapshot := by
  rw [mem_snapshotsOf, hrecord]
  simp [eq_comm]

/-- The fronts that a plan copies, of the snapshots of the two front maps. -/
theorem fronts_planRestore_of_records {recreated : List Recreated} {metaSnapshot epSnapshot : List Entry}
    {parkedMeta parkedEp : Bool} {cap : MapName → UInt32}
    (hmrecord : recreated.filter (·.name = .frontMeta) = [⟨.frontMeta, some metaSnapshot, parkedMeta⟩])
    (herecord : recreated.filter (·.name = .frontEndpoints) = [⟨.frontEndpoints, some epSnapshot, parkedEp⟩]) :
    (planRestore (snapshotsOf recreated) cap).fronts =
      copiedFronts metaSnapshot epSnapshot (cap .frontMeta).toNat (cap .frontEndpoints).toNat := by
  have hm := mem_snapshotsOf_of_record hmrecord
  have he := mem_snapshotsOf_of_record herecord
  rw [fronts_planRestore, Table.lastValue_eq_some ((hm _).mpr rfl) fun v hv => (hm v).mp hv,
    Table.lastValue_eq_some ((he _).mpr rfl) fun v hv => (he v).mp hv]
  rfl

include hs h hmsource hesource in
/-- Every write of a copied front keeps its map filling. -/
theorem writable_copied {copies : List FrontCopy} {metaCap epCap : Nat}
    (hcopies : copies = copiedFronts metas.snapshot endpoints.snapshot metaCap epCap) :
    Writable (fun pins => MetaFilling layouts.metas metas ((d .frontMeta).reused (s.requested .frontMeta)) copies pins ∧
        pins.live ≠ none) (copies.map (·.metaEntry)) ∧
      Writable (fun pins => EndpointFilling layouts.endpoints endpoints pins ∧ pins.live ≠ none)
        (copies.flatMap (·.rows)) := by
  have hcounts : Counts metas endpoints := h.countable.counts metas endpoints (Pins.pinned_source hmsource) hesource
  have hrow : ∀ e ∈ copies.flatMap (·.rows), endpoints.get e.1 ≠ none ∧
      ∀ k, decodeFrontEndpointKey e.1 = some k → k.pad = 0 := by
    intro e he
    obtain ⟨copy, hcopy, he⟩ := List.mem_flatMap.mp he
    exact (rows_of_copied hcounts (hcopies ▸ hcopy)).1 e he
  have hmeta : ∀ copy ∈ copies, copy.metaEntry ∈ metas.snapshot := fun copy hcopy =>
    (of_mem_copiedFronts (hcopies ▸ hcopy)).1
  exact ⟨writable_metas hs.metasHash metas _ hmeta,
    writable_rows hs.endpointsHash endpoints (fun e he => (hrow e he).1) fun e he => (hrow e he).2⟩

include hs h hmsource hesource in
/-- **Copying the fronts**: the rows of the reused map and those of the copied fronts are there at the end. -/
theorem restoreMigrated_fronts (hmlayout : metas.shape.layout = layouts.metas)
    (helayout : endpoints.shape.layout = layouts.endpoints) {recreated : List Recreated}
    (hmrecord : recreated.filter (·.name = .frontMeta) = [⟨.frontMeta, some metas.snapshot, true⟩])
    (herecord : recreated.filter (·.name = .frontEndpoints) = [⟨.frontEndpoints, some endpoints.snapshot, true⟩])
    {copies : List FrontCopy} (hcopies : copies = copiedFronts metas.snapshot endpoints.snapshot
      (s.requested .frontMeta).maxEntries.toNat (s.requested .frontEndpoints).maxEntries.toNat) :
    Triple (fun d' : PinDir =>
        d' .frontMeta = ((d .frontMeta).readied (s.requested .frontMeta)).create (s.requested .frontMeta) ∧
        d' .frontEndpoints =
          ((d .frontEndpoints).readied (s.requested .frontEndpoints)).create (s.requested .frontEndpoints))
      (restoreMigrated s recreated)
      (fun _ d' =>
        MetaFilling layouts.metas metas ((d .frontMeta).reused (s.requested .frontMeta)) copies (d' .frontMeta) ∧
        EndpointFilling layouts.endpoints endpoints (d' .frontEndpoints) ∧
        ∀ row, ReusedRow s d row ∨ (∃ copy ∈ copies, ∃ e ∈ copy.rows, e.1 = row) → (d' .frontEndpoints).Has row)
      fun d' =>
        MetaFilling layouts.metas metas ((d .frontMeta).reused (s.requested .frontMeta)) copies (d' .frontMeta) ∧
        EndpointFilling layouts.endpoints endpoints (d' .frontEndpoints) := by
  have hplan : (planRestore (snapshotsOf recreated) fun name => (s.requested name).maxEntries).fronts = copies :=
    (fronts_planRestore_of_records hmrecord herecord).trans hcopies.symm
  obtain ⟨hmwrites, hewrites⟩ := writable_copied hs h hmsource hesource hcopies
  have hnogeneric : ∀ p ∈ (planRestore (snapshotsOf recreated) fun name => (s.requested name).maxEntries).generic,
      p.1 ≠ .frontMeta ∧ p.1 ≠ .frontEndpoints := by
    rintro ⟨name, entries⟩ hp
    exact (mem_generic_planRestore.mp hp).1
  unfold restoreMigrated
  rw [if_neg fun hnil => List.not_mem_nil (hnil ▸ (mem_snapshotsOf_of_record hmrecord _).mpr rfl)]
  have hmetas := applyPlan_at (s := s) (R := fun _ => False) .frontMeta hmwrites
    (fun p hp hname => absurd hname (hnogeneric p hp).1) (fun hname => nomatch hname)
    (fun _ f hf => List.mem_map_of_mem (hplan ▸ hf))
  have hrows := applyPlan_at (s := s) (R := ReusedRow s d) .frontEndpoints hewrites
    (fun p hp hname => absurd hname (hnogeneric p hp).2)
    (fun _ f hf e he => List.mem_flatMap.mpr ⟨f, hplan ▸ hf, he⟩) (fun hname => nomatch hname)
  refine (hmetas.and hrows).weaken ?_ ?_ fun d' hd' => ⟨hd'.1.1, hd'.2.1⟩
  · rintro d' ⟨hm, he⟩
    have hlive : ∀ (wanted : MapShape) (pins : Pins), (pins.create wanted).live ≠ none := fun wanted pins =>
      Option.ne_none_iff_exists'.mpr (Pins.live_create wanted pins)
    refine ⟨⟨⟨metaFilling_readied hs hmsource hmlayout copies (Or.inr hm), ?_⟩, fun _ hfalse => hfalse.elim⟩,
      ⟨endpointFilling_readied hs h hesource helayout (Or.inr he), ?_⟩, fun row hrow => ?_⟩
    · rw [hm]
      exact hlive _ _
    · rw [he]
      exact hlive _ _
    · rw [he]
      exact has_reusedRow hesource hrow
  · rintro _ d' ⟨hm, he⟩
    refine ⟨hm.1.1, he.1.1, fun row hrow => he.2 row ?_⟩
    rcases hrow with hreused | ⟨copy, hcopy, hrow⟩
    · exact Or.inl hreused
    · exact Or.inr (Or.inr ⟨rfl, copy, hplan ▸ hcopy, hrow⟩)

/-- The live pair of a copy that has run through fits together. -/
theorem consistent_of_copied {layout : UInt32 × UInt32 × UInt32} {copies : List FrontCopy} {metaPins endpointPins : Pins}
    {reused : Option KernelMap} (hm : MetaFilling layout metas reused copies metaPins)
    (hreused : ∀ r, reused = some r → ∀ key value, r.get key = some value → ∀ row ∈ namedRows (key, value),
      endpointPins.Has row)
    (hcopied : ∀ copy ∈ copies, ∀ row ∈ namedRows copy.metaEntry, endpointPins.Has row) :
    FrontsConsistent metaPins endpointPins := by
  intro m hlive key value hkey row hrow
  rcases (hm.live m hlive).2 key value hkey with ⟨r, hr, hrkey⟩ | ⟨copy, hcopy, heq⟩
  · exact hreused r hr key value hrkey row hrow
  · exact hcopied copy hcopy row (heq ▸ hrow)

/-- The `_migrating` pins of a pair that fits together go. -/
theorem sound_unparking {filled now : PinDir} (hsound : filled.fronts.Sound layouts)
    (hconsistent : FrontsConsistent (filled .frontMeta) (filled .frontEndpoints))
    (hm : now .frontMeta = filled .frontMeta ∨ now .frontMeta = (filled .frontMeta).removeMigrating)
    (he : now .frontEndpoints = filled .frontEndpoints ∨
      now .frontEndpoints = (filled .frontEndpoints).removeMigrating) :
    now.fronts.Sound layouts ∧ FrontsConsistent (now .frontMeta) (now .frontEndpoints) := by
  have hlive : ∀ {before now : Pins}, now = before ∨ now = before.removeMigrating → now.live = before.live := by
    rintro before now (rfl | rfl)
    · rfl
    · exact Pins.live_removeMigrating before
  have hpair := hconsistent.of_live (hlive hm) (hlive he)
  have hmremoving : (filled .frontMeta).Removing (now .frontMeta) := hm.imp_right Or.inl
  have hcountable := hsound.countable.of_removing (q := now.fronts) (fun m hm => hmremoving.pinned hm)
    (he.imp_right Or.inl)
  exact ⟨⟨Or.inr (Or.inr (Or.inr hpair)), hcountable⟩, hpair⟩

include hs h hmsource hesource in
/-- **Both front maps are copied.** -/
theorem loadEbpf_fronts_migrated (hmfate : s.fateOf d .frontMeta = some .migrate)
    (hefate : s.fateOf d .frontEndpoints = some .migrate) (hmlayout : metas.shape.layout = layouts.metas)
    (helayout : endpoints.shape.layout = layouts.endpoints) (hnamed : s.CopiesNamed d) : Triple (· = d) (loadEbpf s)
      (fun _ d' => d'.fronts.Sound layouts ∧ FrontsConsistent (d' .frontMeta) (d' .frontEndpoints))
      fun d' => d'.fronts.Sound layouts := by
  let copies := copiedFronts metas.snapshot endpoints.snapshot (s.requested .frontMeta).maxEntries.toNat
    (s.requested .frontEndpoints).maxEntries.toNat
  have hcopies : ∀ copy ∈ copies, copy.metaEntry ∈ metas.snapshot := fun copy hcopy => (of_mem_copiedFronts hcopy).1
  have hmeta := recreateMismatchedPins_at d hs.metasSnapshot
  have hendpoints := recreateMismatchedPins_at d hs.endpointsSnapshot
  rw [hmfate] at hmeta
  rw [hefate] at hendpoints
  refine Triple.bind ((hmeta.and hendpoints).weaken (fun _ h => ⟨h, h⟩) (fun _ _ h => h) ?_) fun recreated => ?_
  · exact fun d' hd' => sound_parking h hmsource hesource hd'.1.parking hd'.2.parking
  -- what the first phase returned, and the pins it left
  refine Triple.pre (P := fun d' =>
      (recreated.filter (·.name = .frontMeta) = [⟨.frontMeta, some metas.snapshot, true⟩] ∧
      recreated.filter (·.name = .frontEndpoints) = [⟨.frontEndpoints, some endpoints.snapshot, true⟩]) ∧
      d' .frontMeta = (d .frontMeta).readied (s.requested .frontMeta) ∧
      d' .frontEndpoints = (d .frontEndpoints).readied (s.requested .frontEndpoints)) ?_ ?_
  swap
  · rintro d' ⟨⟨hmrecord, hm⟩, herecord, he⟩
    refine ⟨⟨hmrecord.trans ?_, herecord.trans ?_⟩, hm, he⟩
    · simp only [recordOf, hmsource]
      rfl
    · simp only [recordOf, hesource]
      rfl
  refine Triple.of_fact fun hrecords => ?_
  have hfilling : ∀ d' : PinDir,
      MetaFilling layouts.metas metas ((d .frontMeta).reused (s.requested .frontMeta)) copies (d' .frontMeta) →
      EndpointFilling layouts.endpoints endpoints (d' .frontEndpoints) → d'.fronts.Sound layouts :=
    fun d' hm he => sound_filling h hmsource hesource hcopies (p := d'.fronts) hm he
  refine Triple.bind (((loadMaps_at s .frontMeta _).and (loadMaps_at s .frontEndpoints _)).weaken (fun _ h => h)
    (fun _ _ h => h) ?_) fun _ => ?_
  · rintro d' ⟨hm, he⟩
    exact hfilling d' (metaFilling_readied hs hmsource hmlayout copies hm)
      (endpointFilling_readied hs h hesource helayout he)
  refine Triple.bind ((restoreMigrated_fronts hs h hmsource hesource hmlayout helayout hrecords.1 hrecords.2 rfl).weaken
    (fun _ h => h) (fun _ _ h => h) fun d' hd' => hfilling d' hd'.1 hd'.2) fun _ => ?_
  -- the maps are filled, and their `_migrating` pins go
  refine Triple.of_state ?_
  rintro filled ⟨hm, he, hrows⟩
  have hsound : filled.fronts.Sound layouts := hfilling filled hm he
  have hcounts : Counts metas endpoints := h.countable.counts metas endpoints (Pins.pinned_source hmsource) hesource
  have hconsistent : FrontsConsistent (filled .frontMeta) (filled .frontEndpoints) := by
    refine consistent_of_copied hm (fun r hr key value hkey row hrow => ?_) fun copy hcopy row hrow => ?_
    · exact hrows row (hnamed hmfate metas endpoints r hmsource hesource hr key value hkey row hrow)
    · exact hrows row (Or.inr ⟨copy, hcopy, (rows_of_copied hcounts hcopy).2 row hrow⟩)
  refine ((unparkMigrated_at _ .frontMeta (filled .frontMeta)).and
    (unparkMigrated_at _ .frontEndpoints (filled .frontEndpoints))).weaken ?_ ?_ ?_
  · rintro _ rfl
    exact ⟨rfl, rfl⟩
  · rintro _ d' ⟨hm', he'⟩
    refine sound_unparking hsound hconsistent ?_ ?_
    · split at hm'
      · exact Or.inr hm'
      · exact Or.inl hm'
    · split at he'
      · exact Or.inr he'
      · exact Or.inl he'
  · rintro d' ⟨hm', he'⟩
    exact (sound_unparking hsound hconsistent (hm'.imp_right And.right) (he'.imp_right And.right)).1

end

/-! ## Any number of starts -/

section
variable {layouts : FrontLayouts} {s : Start} {d : PinDir}

/-- A start of any kind. -/
theorem loadEbpf_fronts (hs : layouts.Requested s) (h : d.fronts.Sound layouts) (hnamed : s.CopiesNamed d) :
    Triple (· = d) (loadEbpf s)
      (fun _ d' => d'.fronts.Sound layouts ∧ FrontsConsistent (d' .frontMeta) (d' .frontEndpoints))
      fun d' => d'.fronts.Sound layouts := by
  rcases fateOf_fronts hs d with ⟨m, e, hmfate, hefate, hm, he, hmlayout, helayout⟩ |
    ⟨hmfate, hefate, ⟨m, hm⟩, e, he⟩ | ⟨hmfate, hefate, hwhy⟩
  · exact loadEbpf_fronts_migrated hs h hm he hmfate hefate hmlayout helayout hnamed
  · exact loadEbpf_fronts_kept hs h hmfate hefate hm he
  · exact loadEbpf_fronts_removed hs h hmfate hefate hwhy

/-- **The step.** -/
theorem FrontPair.Sound.start (h : d.fronts.Sound layouts) (hs : layouts.Requested s) (hnamed : s.CopiesNamed d) :
    (d.start s).fronts.Sound layouts := by
  have hload := loadEbpf_fronts hs h hnamed
  unfold PinDir.start
  cases s.stop with
  | some n => exact hload.stopped rfl h (fun _ _ hend => hend.1) n
  | none =>
    cases hres : ((loadEbpf s).run d).result with
    | ok a => exact (hload.ends d rfl a hres).1
    | error e => exact hload.fails d rfl e hres

/-- The start that comes to its end. -/
theorem FrontPair.Sound.completed (h : d.fronts.Sound layouts) (hs : layouts.Requested s) (hnamed : s.CopiesNamed d)
    (hdone : s.Completes d) : FrontsConsistent (d.start s .frontMeta) (d.start s .frontEndpoints) := by
  have hload := loadEbpf_fronts hs h hnamed
  unfold PinDir.start
  rw [hdone.1]
  exact (hload.ends d rfl () hdone.2).2

/-! ## From a pair that fits together -/

/-- The front pins of a directory may be taken over: nothing is parked, or the endpoint rows are keyed as `endpoint_key`
    keys them. -/
def PinDir.FrontsKeyed (d : PinDir) : Prop :=
  ((d .frontMeta).parked = none ∧ (d .frontEndpoints).parked = none) ∨
    ∀ e, (d .frontEndpoints).Pinned e → e.PaddingZero

/-- A directory whose front pair fits together meets the invariant. -/
theorem FrontPair.sound_of_consistent (layouts : FrontLayouts) {d : PinDir}
    (hconsistent : FrontsConsistent (d .frontMeta) (d .frontEndpoints)) (hkeyed : d.FrontsKeyed) :
    d.fronts.Sound layouts := by
  refine ⟨Or.inr (Or.inr (Or.inr hconsistent)), ?_⟩
  rcases hkeyed with ⟨hmnone, henone⟩ | hpadding
  · refine ⟨fun m e hpinned hsource => ?_, fun e parked hboth => ?_⟩
    · have hlive : (d .frontMeta).live = some m := hpinned.resolve_right fun hparked => by
        rw [PinDir.fronts, hmnone] at hparked
        cases hparked
      have helive : (d .frontEndpoints).live = some e := by
        rwa [PinDir.fronts, Pins.source, henone, Option.none_or] at hsource
      exact hconsistent.counts hlive helive
    · have hparked : (d .frontEndpoints).parked = some parked := congrArg Pins.parked hboth
      rw [henone] at hparked
      cases hparked
  · refine ⟨fun m e _ hsource => (hpadding e (Pins.pinned_source hsource)).counts m, fun e parked hboth => ?_⟩
    exact hpadding e (Or.inl (congrArg Pins.live hboth))

/-- **The front pair survives interrupted migrations.** Whatever number of starts was stopped before, and whatever
    capacities they requested: the first one that comes to its end leaves no row of `FRONT_META` that names a missing
    endpoint row, provided that every start copies what a reused `FRONT_META` names. -/
theorem fronts_consistent (layouts : FrontLayouts) {d : PinDir} {starts : List Start} {last : Start}
    (hstarts : ∀ s ∈ starts ++ [last], layouts.Requested s)
    (hconsistent : FrontsConsistent (d .frontMeta) (d .frontEndpoints)) (hkeyed : d.FrontsKeyed)
    (hnamed : Along PinDir.start (fun d s => s.CopiesNamed d) d (starts ++ [last]))
    (hdone : last.Completes (starts.foldl PinDir.start d)) :
    FrontsConsistent ((starts ++ [last]).foldl PinDir.start d .frontMeta)
      ((starts ++ [last]).foldl PinDir.start d .frontEndpoints) := by
  have hrequested : Along PinDir.start (fun _ s => layouts.Requested s) d (starts ++ [last]) :=
    along_iff.mpr fun before s after hsplit => hstarts s (by rw [hsplit]; simp)
  obtain ⟨halong, hlast, -⟩ := along_append.mp (hrequested.and hnamed)
  have hkeep : ∀ (d : PinDir) (s : Start), d.fronts.Sound layouts → layouts.Requested s ∧ s.CopiesNamed d →
      (d.start s).fronts.Sound layouts := fun d s h hs => h.start hs.1 hs.2
  have hsound := halong.inv hkeep (FrontPair.sound_of_consistent layouts hconsistent hkeyed)
  rw [List.foldl_append, List.foldl_cons, List.foldl_nil]
  exact hsound.completed hlast.1 hlast.2 hdone

/-- The pair fits together, as far as it can be told by running it. -/
theorem frontsConsistent_iff {metaPins endpointPins : Pins} : FrontsConsistent metaPins endpointPins ↔
    (metaPins.live.toList.all fun m => m.snapshot.all fun e => (namedRows e).all fun row =>
      (endpointPins.live.bind fun m => m.get row).isSome) = true := by
  have hhas : ∀ row, (endpointPins.live.bind fun m => m.get row).isSome = true ↔ endpointPins.Has row := by
    intro row
    unfold Pins.Has
    cases endpointPins.live with
    | none => simp
    | some m => simp [Option.isSome_iff_ne_none]
  simp only [List.all_eq_true, Option.mem_toList, hhas]
  constructor
  · exact fun h m hm e he row hrow => h m hm e.1 e.2 (KernelMap.mem_snapshot.mp he) row hrow
  · exact fun h m hm key value hkey row hrow => h m hm (key, value) (KernelMap.mem_snapshot.mpr hkey) row hrow

instance (metaPins endpointPins : Pins) : Decidable (FrontsConsistent metaPins endpointPins) :=
  decidable_of_iff _ frontsConsistent_iff.symm

end

end

/-! ## A start after an interrupted one -/

section

local instance frontsHost : Host := ⟨.little⟩

/-- Port 80 of two addresses. -/
def firstFront : LbFrontKey := ⟨.replicate 16 1, 80, 6, 0⟩

def secondFront : LbFrontKey := ⟨.replicate 16 2, 80, 6, 0⟩

/-- Generation 1, with one row. -/
def oneRowMeta : List UInt8 := [1, 0, 0, 0, 1, 0, 0, 0, 0, 0, 0, 0]

/-- The layouts of the two maps. -/
def frontLayouts : FrontLayouts := ⟨(bpfMapTypeHash, 20, 12), bpfMapTypeHash, 28, 40⟩

/-- Two fronts of one row each, in maps with room for four. -/
def twoMetas : KernelMap where
  shape := ⟨bpfMapTypeHash, 20, 12, 4, comparedMapFlags⟩
  entries := (∅ : Table (List UInt8) (List UInt8)).insert secondFront.toBytes.toList oneRowMeta
    |>.insert firstFront.toBytes.toList oneRowMeta
  bounded := by decide

def twoEndpoints : KernelMap where
  shape := ⟨bpfMapTypeHash, 28, 40, 4, comparedMapFlags⟩
  entries := (∅ : Table (List UInt8) (List UInt8)).insert (slotKey secondFront 1 0) (.replicate 40 2)
    |>.insert (slotKey firstFront 1 0) (.replicate 40 1)
  bounded := by decide

/-- Only the front maps are pinned. -/
def frontsPinned : PinDir
  | .frontMeta => .plain twoMetas
  | .frontEndpoints => .plain twoEndpoints
  | _ => .none

/-- A start that requests room for eight fronts and the given number of endpoint rows. -/
def frontsStart (endpoints : UInt32) (stop : Option Nat) : Start where
  requested
    | .frontMeta => ⟨bpfMapTypeHash, 20, 12, 8, comparedMapFlags⟩
    | _ => ⟨bpfMapTypeHash, 28, 40, endpoints, comparedMapFlags⟩
  order := .asStored
  snapshotFails _ := false
  refuses _ _ := none
  victim _ _ := 0
  stop := stop

/-- The starts of the run ask for the layouts of the source. -/
theorem frontsStart_requested (endpoints : UInt32) (stop : Option Nat) :
    frontLayouts.Requested (frontsStart endpoints stop) := ⟨rfl, rfl, rfl, rfl, rfl, rfl⟩

/-- What a start leaves that is stopped when it has written both fronts. -/
def frontsWritten : PinDir := frontsPinned.start (frontsStart 8 (some 17))

/-- Two fronts, each with its one endpoint row. -/
theorem frontsPinned_consistent : FrontsConsistent (frontsPinned .frontMeta) (frontsPinned .frontEndpoints) := by
  decide +kernel

/-- Rows that a reused `FRONT_ENDPOINTS` has need not be copied. -/
theorem Start.copiesNamed_of_reused {s : Start} {d : PinDir}
    (h : (((d .frontMeta).reused (s.requested .frontMeta)).toList.all fun metas =>
      ((d .frontEndpoints).reused (s.requested .frontEndpoints)).toList.any fun endpoints =>
        decide (FrontsConsistent (.plain metas) (.plain endpoints))) = true) : s.CopiesNamed d := by
  intro _ metas endpoints reused _ _ hreused key value hkey row hrow
  have hmeta := List.all_eq_true.mp h reused (Option.mem_toList.mpr hreused)
  obtain ⟨m, hm, hpair⟩ := List.any_eq_true.mp hmeta
  obtain ⟨m', hm', hsome⟩ := of_decide_eq_true hpair reused rfl key value hkey row hrow
  obtain rfl : m = m' := Option.some_inj.mp hm'
  exact Or.inl ⟨m, Option.mem_toList.mp hm, hsome⟩

/-- The stopped start had written both fronts, so the reused rows have theirs. -/
theorem frontsWritten_copiesNamed : (frontsStart 8 none).CopiesNamed frontsWritten := by
  refine Start.copiesNamed_of_reused ?_
  decide +kernel

/-- A start with the same capacities comes to its end. -/
theorem frontsStart_completes : (frontsStart 8 none).Completes frontsWritten := by
  have hok : ((loadEbpf (frontsStart 8 none)).run frontsWritten).result.toOption = some () := by decide +kernel
  exact ⟨rfl, eq_ok_of_toOption hok⟩

/-- The same capacities again: both maps are reused, and both fronts are there. -/
theorem fronts_consistent_same_caps :
    FrontsConsistent (([frontsStart 8 (some 17)] ++ [frontsStart 8 none]).foldl PinDir.start frontsPinned .frontMeta)
      (([frontsStart 8 (some 17)] ++ [frontsStart 8 none]).foldl PinDir.start frontsPinned .frontEndpoints) := by
  refine fronts_consistent frontLayouts ?_ frontsPinned_consistent (Or.inl ⟨rfl, rfl⟩) ?_ frontsStart_completes
  · intro s hs
    simp only [List.cons_append, List.nil_append, List.mem_cons, List.not_mem_nil, or_false] at hs
    rcases hs with rfl | rfl <;> exact frontsStart_requested _ _
  · exact along_append.mpr
      ⟨⟨fun _ _ _ _ _ _ hreused => (nomatch hreused), trivial⟩, frontsWritten_copiesNamed, trivial⟩

/-- So does one with room for one endpoint row. -/
theorem frontsStart_shrinking_completes : (frontsStart 1 none).Completes frontsWritten := by
  have hok : ((loadEbpf (frontsStart 1 none)).run frontsWritten).result.toOption = some () := by decide +kernel
  exact ⟨rfl, eq_ok_of_toOption hok⟩

/-- Room for one endpoint row only: the reused `FRONT_META` still has the second front, whose row was not copied. -/
theorem frontsStart_shrinking_inconsistent : ¬ FrontsConsistent (frontsWritten.start (frontsStart 1 none) .frontMeta)
    (frontsWritten.start (frontsStart 1 none) .frontEndpoints) := by
  decide +kernel

/-- **Not without the condition**: the start that shrinks the map leaves a reused front without its endpoint row. -/
theorem not_fronts_consistent : ¬ ∀ (layouts : FrontLayouts) (d : PinDir) (starts : List Start) (last : Start),
    (∀ s ∈ starts ++ [last], layouts.Requested s) → FrontsConsistent (d .frontMeta) (d .frontEndpoints) →
    d.FrontsKeyed → last.Completes (starts.foldl PinDir.start d) →
    FrontsConsistent ((starts ++ [last]).foldl PinDir.start d .frontMeta)
      ((starts ++ [last]).foldl PinDir.start d .frontEndpoints) := by
  intro hconsistent
  refine frontsStart_shrinking_inconsistent (hconsistent frontLayouts frontsPinned [frontsStart 8 (some 17)]
    (frontsStart 1 none) ?_ frontsPinned_consistent (Or.inl ⟨rfl, rfl⟩) frontsStart_shrinking_completes)
  intro s hs
  simp only [List.cons_append, List.nil_append, List.mem_cons, List.not_mem_nil, or_false] at hs
  rcases hs with rfl | rfl <;> exact frontsStart_requested _ _

end

end Beep
