import Beep.Lib.Run
import Beep.Loader.PinMigrate.Start

/-!
# `Loader.PinMigrate.FrontPair` — the front maps across interrupted starts

A row of `FRONT_META` names rows of `FRONT_ENDPOINTS`. The two maps are parked, recreated, refilled and unpinned one
after the other, so in between the pair need not fit together; what holds at every point is that a migration is pending,
or the pair does (`FrontPair.Sound`).

One thing can break this: a start that reuses the `FRONT_META` an interrupted start made, with the rows that one wrote,
next to a `FRONT_ENDPOINTS` of its own, into which it need not copy the same fronts.
-/

namespace Beep

open Crash Run

section
variable [Host]

/-! ## What fits together -/

/-- Every endpoint row that `FRONT_META` names is in `FRONT_ENDPOINTS`. -/
def FrontsConsistent (metaPins endpointPins : Pins) : Prop :=
  ∀ m, metaPins.live = some m → ∀ key value, m.get key = some value → ∀ row ∈ namedRows (key, value),
    endpointPins.Has row

/-- The rows are keyed as `endpoint_key` keys them: the padding is zero. -/
def KernelMap.PaddingZero (m : KernelMap) : Prop :=
  ∀ key, m.get key ≠ none → ∀ k, decodeFrontEndpointKey key = some k → k.pad = 0

/-- Where there are as many live rows as a row of `metas` says, they are those it names. -/
def Counts (metas endpoints : KernelMap) : Prop :=
  ∀ key value, metas.get key = some value → ∀ front m, decodeLbFrontKey key = some front →
    decodeFrontMeta value = some m → (liveRows endpoints.snapshot front m).length = m.count.toNat →
      ∀ slot, slot < m.count.toNat → endpoints.get (slotKey front m.generation slot) ≠ none

theorem mem_namedRows {key value : List UInt8} {row : List UInt8} : row ∈ namedRows (key, value) ↔
    ∃ front m slot, decodeLbFrontKey key = some front ∧ decodeFrontMeta value = some m ∧ slot < m.count.toNat ∧
      row = slotKey front m.generation slot := by
  unfold namedRows
  dsimp only
  cases decodeLbFrontKey key with
  | none => simp
  | some front =>
    cases decodeFrontMeta value with
    | none => simp
    | some m => simp [eq_comm, and_comm]

/-- Rows of zero padding are counted right. -/
theorem KernelMap.PaddingZero.counts {endpoints : KernelMap} (h : endpoints.PaddingZero) (metas : KernelMap) :
    Counts metas endpoints := by
  intro key value _ front m _ _ hwhole slot hslot
  obtain ⟨row, hrow⟩ := namedRows_of_whole endpoints.nodup_snapshot
    (fun e he k hk => h e.1 (by rw [KernelMap.mem_snapshot.mp he]; exact fun h => nomatch h) k hk) hwhole hslot
  rw [KernelMap.mem_snapshot.mp (mem_liveRows.mp hrow).1]
  exact fun h => nomatch h

/-- The rows of a consistent pair are counted right. -/
theorem FrontsConsistent.counts {metaPins endpointPins : Pins} (h : FrontsConsistent metaPins endpointPins)
    {metas endpoints : KernelMap} (hmetas : metaPins.live = some metas) (hendpoints : endpointPins.live = some endpoints) :
    Counts metas endpoints := by
  intro key value hkey front m hfront hm _ slot hslot
  obtain ⟨m', hm', hrow⟩ := h metas hmetas key value hkey _
    (mem_namedRows.mpr ⟨front, m, slot, hfront, hm, hslot, rfl⟩)
  obtain rfl : endpoints = m' := Option.some_inj.mp (hendpoints.symm.trans hm')
  exact hrow

/-! ## The invariant -/

/-- The two pins of `FRONT_META`, and of `FRONT_ENDPOINTS`. -/
structure FrontPair where
  metas : Pins
  endpoints : Pins

/-- The front maps of a directory. -/
def PinDir.fronts (d : PinDir) : FrontPair := ⟨d .frontMeta, d .frontEndpoints⟩

/-- A map under one of the two pins. -/
def Pins.Pinned (pins : Pins) (m : KernelMap) : Prop := pins.live = some m ∨ pins.parked = some m

/-- The layouts the loader's own maps have. -/
structure FrontLayouts where
  metas : UInt32 × UInt32 × UInt32
  endpoints : UInt32 × UInt32 × UInt32

namespace FrontPair

/-- A migration is pending: a map is parked, and none is of a foreign layout. -/
structure Pending (layouts : FrontLayouts) (p : FrontPair) : Prop where
  parked : p.metas.parked ≠ none ∨ p.endpoints.parked ≠ none
  metaLayout : ∀ m, p.metas.Pinned m → m.shape.layout = layouts.metas
  endpointLayout : ∀ m, p.endpoints.Pinned m → m.shape.layout = layouts.endpoints

/-- The plain pins fit together, or one of them is missing. -/
def Settled (p : FrontPair) : Prop :=
  p.metas.live = none ∨ p.endpoints.live = none ∨ FrontsConsistent p.metas p.endpoints

/-- What a start copies can be told whole from not: it is counted right, and a map that replaces the parked one has no
    padding. -/
structure Countable (p : FrontPair) : Prop where
  counts : ∀ m e, p.metas.Pinned m → p.endpoints.source = some e → Counts m e
  padding : ∀ e parked, p.endpoints = .both e parked → e.PaddingZero

/-- **The invariant.** -/
structure Sound (layouts : FrontLayouts) (p : FrontPair) : Prop where
  state : p.Pending layouts ∨ p.Settled
  countable : p.Countable

end FrontPair

end

/-! ## The fates of the front maps -/

/-- The source of a name, as `pin_source` finds it. -/
theorem sourceOf_cases (s : Start) (d : PinDir) (name : MapName) :
    (s.sourceOf d name = none ∧ d name = .none) ∨
    ∃ m source own, (d name).source = some m ∧ s.sourceOf d name = some (source, m.shape, own) ∧
      (own = .keep → d name = .plain m) ∧ (own ≠ .recreateEmpty → m.shape.layout = (s.requested name).layout) ∧
      (restorableMapType (s.requested name).mapType = true → m.shape.layout = (s.requested name).layout →
        own ≠ .recreateEmpty) := by
  have hplain : ∀ m : KernelMap, restorableMapType (s.requested name).mapType = true →
      m.shape.layout = (s.requested name).layout → pinFate m.shape (s.requested name) ≠ .recreateEmpty := by
    intro m hrestore hlayout
    rw [pinFate_of_layout hlayout hrestore]
    split <;> exact fun h => nomatch h
  have hparked : ∀ (plain : Option MapShape) (m : KernelMap), ∃ own,
      pinSource plain (some m.shape) (s.requested name) = some (.migrating, m.shape, own) ∧ own ≠ .keep ∧
        (own ≠ .recreateEmpty → m.shape.layout = (s.requested name).layout) ∧
        (restorableMapType (s.requested name).mapType = true → m.shape.layout = (s.requested name).layout →
          own ≠ .recreateEmpty) := by
    intro plain m
    have hlayout : pinFate m.shape (s.requested name) ≠ .recreateEmpty →
        m.shape.layout = (s.requested name).layout := layout_of_pinFate
    unfold pinSource
    dsimp only
    cases hfate : pinFate m.shape (s.requested name) with
    | keep | migrate =>
      exact ⟨.migrate, rfl, by decide, fun _ => hlayout (by rw [hfate]; decide), fun _ _ => by decide⟩
    | recreateEmpty =>
      exact ⟨.recreateEmpty, rfl, by decide, fun h => absurd rfl h,
        fun hrestore hl => absurd hfate (hplain m hrestore hl)⟩
  unfold Start.sourceOf
  cases hpins : d name with
  | none => exact Or.inl ⟨rfl, rfl⟩
  | plain m =>
    exact Or.inr ⟨m, .plain, pinFate m.shape (s.requested name), rfl, rfl, fun _ => rfl, layout_of_pinFate, hplain m⟩
  | migrating m | shared m =>
    obtain ⟨own, hown, hkeep, hrest⟩ := hparked _ m
    exact Or.inr ⟨m, .migrating, own, rfl, hown, fun h => absurd h hkeep, hrest⟩
  | both m old =>
    obtain ⟨own, hown, hkeep, hrest⟩ := hparked _ old
    exact Or.inr ⟨old, .migrating, own, rfl, hown, fun h => absurd h hkeep, hrest⟩

/-- What a start asks of the front maps: hash maps of the loader's layouts, and that it takes their snapshots. -/
structure FrontLayouts.Requested (layouts : FrontLayouts) (s : Start) : Prop where
  metas : (s.requested .frontMeta).layout = layouts.metas
  endpoints : (s.requested .frontEndpoints).layout = layouts.endpoints
  metasHash : layouts.metas.1 = bpfMapTypeHash
  endpointsHash : layouts.endpoints.1 = bpfMapTypeHash
  metasSnapshot : s.snapshotFails .frontMeta = false
  endpointsSnapshot : s.snapshotFails .frontEndpoints = false

/-- **The front maps share a fate**: both are copied, or both are kept, or both are removed. -/
theorem fateOf_fronts {layouts : FrontLayouts} {s : Start} (hs : layouts.Requested s) (d : PinDir) :
    (∃ m e, s.fateOf d .frontMeta = some .migrate ∧ s.fateOf d .frontEndpoints = some .migrate ∧
      (d .frontMeta).source = some m ∧ (d .frontEndpoints).source = some e ∧
      m.shape.layout = layouts.metas ∧ e.shape.layout = layouts.endpoints) ∨
    (s.fateOf d .frontMeta = some .keep ∧ s.fateOf d .frontEndpoints = some .keep ∧
      (∃ m, d .frontMeta = .plain m) ∧ ∃ e, d .frontEndpoints = .plain e) ∨
    ((s.fateOf d .frontMeta = some .recreateEmpty ∨ (s.fateOf d .frontMeta = none ∧ d .frontMeta = .none)) ∧
      (s.fateOf d .frontEndpoints = some .recreateEmpty ∨
        (s.fateOf d .frontEndpoints = none ∧ d .frontEndpoints = .none)) ∧
      (d .frontMeta = .none ∨ d .frontEndpoints = .none ∨
        (∃ m, (d .frontMeta).source = some m ∧ m.shape.layout ≠ layouts.metas) ∨
        ∃ e, (d .frontEndpoints).source = some e ∧ e.shape.layout ≠ layouts.endpoints)) := by
  have hmetaType : restorableMapType (s.requested .frontMeta).mapType = true := by
    have htype : (s.requested .frontMeta).mapType = bpfMapTypeHash := by rw [← hs.metasHash, ← hs.metas]; rfl
    rw [htype]
    rfl
  have hendpointType : restorableMapType (s.requested .frontEndpoints).mapType = true := by
    have htype : (s.requested .frontEndpoints).mapType = bpfMapTypeHash := by
      rw [← hs.endpointsHash, ← hs.endpoints]
      rfl
    rw [htype]
    rfl
  simp only [Start.fateOf, coupledFate, Start.coupled]
  rcases sourceOf_cases s d .frontMeta with ⟨hm, hmpins⟩ | ⟨m, msource, mown, hmsource, hm, hmkeep, hmlayout, hmgood⟩ <;>
    rcases sourceOf_cases s d .frontEndpoints with
      ⟨he, hepins⟩ | ⟨e, esource, eown, hesource, he, hekeep, helayout, hegood⟩ <;>
    simp only [hm, he, Option.map_none, Option.map_some]
  · exact Or.inr (Or.inr ⟨Or.inr ⟨by trivial, hmpins⟩, Or.inr ⟨by trivial, hepins⟩, Or.inl hmpins⟩)
  · exact Or.inr (Or.inr ⟨Or.inr ⟨by trivial, hmpins⟩, Or.inl (by cases eown <;> rfl), Or.inl hmpins⟩)
  · exact Or.inr (Or.inr ⟨Or.inl (by cases mown <;> rfl), Or.inr ⟨by trivial, hepins⟩, Or.inr (Or.inl hepins)⟩)
  · rw [hs.metas] at hmlayout hmgood
    rw [hs.endpoints] at helayout hegood
    by_cases hmempty : mown = .recreateEmpty
    · have hbad : m.shape.layout ≠ layouts.metas := fun hl => hmgood hmetaType hl hmempty
      subst hmempty
      exact Or.inr (Or.inr ⟨Or.inl (by cases eown <;> rfl), Or.inl (by cases eown <;> rfl),
        Or.inr (Or.inr (Or.inl ⟨m, hmsource, hbad⟩))⟩)
    · by_cases heempty : eown = .recreateEmpty
      · have hbad : e.shape.layout ≠ layouts.endpoints := fun hl => hegood hendpointType hl heempty
        subst heempty
        exact Or.inr (Or.inr ⟨Or.inl (by cases mown <;> rfl), Or.inl (by cases mown <;> rfl),
          Or.inr (Or.inr (Or.inr ⟨e, hesource, hbad⟩))⟩)
      · have hlayouts := And.intro (hmlayout hmempty) (helayout heempty)
        cases mown <;> cases eown <;>
          first
          | exact absurd rfl hmempty
          | exact absurd rfl heempty
          | exact Or.inr (Or.inl ⟨rfl, rfl, ⟨m, hmkeep rfl⟩, e, hekeep rfl⟩)
          | exact Or.inl ⟨m, e, rfl, rfl, hmsource, hesource, hlayouts⟩

/-! ## Pins that go -/

namespace Pins

/-- The source is pinned. -/
theorem pinned_source {pins : Pins} {m : KernelMap} (h : pins.source = some m) : pins.Pinned m := by
  cases pins with
  | none => cases h
  | plain _ => exact Or.inl h
  | migrating _ | both _ _ | shared _ => exact Or.inr h

/-- What the pins of a name are while they are removed. -/
def Removing (before now : Pins) : Prop := now = before ∨ now = before.removeMigrating ∨ now = .none

theorem Removing.pinned {before now : Pins} (h : before.Removing now) {m : KernelMap} (hm : now.Pinned m) :
    before.Pinned m := by
  rcases h with rfl | rfl | rfl
  · exact hm
  · cases before with
    | none | plain _ => exact hm
    | migrating _ => exact hm.elim (fun h => nomatch h) fun h => nomatch h
    | both _ _ | shared _ => exact hm.elim Or.inl fun h => nomatch h
  · exact hm.elim (fun h => nomatch h) fun h => nomatch h

theorem Removing.live {before now : Pins} (h : before.Removing now) : now.live = Option.none ∨ now.live = before.live := by
  rcases h with rfl | rfl | rfl
  · exact Or.inr rfl
  · exact Or.inr (live_removeMigrating before)
  · exact Or.inl rfl

theorem Recreating.removing {wanted : MapShape} {before now : Pins} {fate : Option Fate}
    (h : before.Recreating wanted fate now) (hfate : fate = some .recreateEmpty ∨ (fate = Option.none ∧ before = .none)) :
    before.Removing now := by
  rcases hfate with rfl | ⟨rfl, rfl⟩
  · rcases h with rfl | rfl | ⟨hne, -⟩ | ⟨-, rfl⟩
    · exact Or.inl rfl
    · exact Or.inr (Or.inr rfl)
    · cases hne
    · exact Or.inr (Or.inl rfl)
  · rcases h with rfl | rfl | ⟨hne, -⟩ | ⟨hne, -⟩
    · exact Or.inl rfl
    · exact Or.inl rfl
    · cases hne
    · cases hne

end Pins

/-- Two pairs with the same maps under their plain pins. -/
theorem FrontsConsistent.of_live [Host] {metas metas' endpoints endpoints' : Pins} (h : FrontsConsistent metas endpoints)
    (hm : metas'.live = metas.live) (he : endpoints'.live = endpoints.live) : FrontsConsistent metas' endpoints' := by
  intro m hlive key value hkey row hrow
  obtain ⟨e, hlive', hsome⟩ := h m (hm.symm.trans hlive) key value hkey row hrow
  exact ⟨e, he.trans hlive', hsome⟩

namespace FrontPair

section
variable [Host]

/-- A map less, or the same, under a plain pin. -/
theorem Settled.of_live {p q : FrontPair} (h : p.Settled) (hm : q.metas.live = none ∨ q.metas.live = p.metas.live)
    (he : q.endpoints.live = none ∨ q.endpoints.live = p.endpoints.live) : q.Settled := by
  rcases hm with hm | hm
  · exact Or.inl hm
  rcases he with he | he
  · exact Or.inr (Or.inl he)
  rcases h with h | h | h
  · exact Or.inl (hm.trans h)
  · exact Or.inr (Or.inl (he.trans h))
  · exact Or.inr (Or.inr (h.of_live hm he))

/-- The endpoint pins on their way out. -/
theorem Countable.of_removing {p q : FrontPair} (h : p.Countable) (hm : ∀ m, q.metas.Pinned m → p.metas.Pinned m)
    (he : p.endpoints.Removing q.endpoints) : q.Countable := by
  rcases he with he | he | he
  · exact ⟨fun m e hpinned hsource => h.counts m e (hm m hpinned) (he ▸ hsource),
      fun e parked hboth => h.padding e parked (he ▸ hboth)⟩
  · refine ⟨fun m e hpinned hsource => ?_, fun e parked hboth => ?_⟩
    · rw [he] at hsource
      cases hpins : p.endpoints with
      | none | migrating _ => rw [hpins] at hsource; cases hsource
      | plain e' | shared e' =>
        rw [hpins] at hsource
        exact h.counts m e (hm m hpinned) (by rw [hpins]; exact hsource)
      | both e' parked =>
        rw [hpins] at hsource
        obtain rfl := Option.some_inj.mp hsource
        exact (h.padding _ _ hpins).counts m
    · rw [he] at hboth
      cases hpins : p.endpoints <;> rw [hpins] at hboth <;> cases hboth
  · exact ⟨fun m e _ hsource => (by rw [he] at hsource; cases hsource),
      fun e parked hboth => (by rw [he] at hboth; cases hboth)⟩

/-- A `FRONT_META` without rows fits with everything. -/
theorem sound_of_empty {layouts : FrontLayouts} {p : FrontPair} (hm : ∀ m, p.metas.Pinned m → ∀ key, m.get key = none)
    (he : ∀ e parked, p.endpoints ≠ .both e parked) : p.Sound layouts := by
  refine ⟨Or.inr (Or.inr (Or.inr fun m hlive key value hkey => ?_)), ⟨fun m e hpinned _ key value hkey => ?_, ?_⟩⟩
  · rw [hm m (Or.inl hlive)] at hkey
    cases hkey
  · rw [hm m hpinned] at hkey
    cases hkey
  · exact fun e parked hboth => absurd hboth (he e parked)

end

end FrontPair

/-! ## Starts that write no front -/

section
variable [Host] {layouts : FrontLayouts} {s : Start} {d : PinDir} (hs : layouts.Requested s) (h : d.fronts.Sound layouts)

include hs h

/-- Both front maps are kept. -/
theorem loadEbpf_fronts_kept {m e : KernelMap} (hmfate : s.fateOf d .frontMeta = some .keep)
    (hefate : s.fateOf d .frontEndpoints = some .keep) (hm : d .frontMeta = .plain m)
    (he : d .frontEndpoints = .plain e) : Triple (· = d) (loadEbpf s)
      (fun _ d' => d'.fronts.Sound layouts ∧ FrontsConsistent (d' .frontMeta) (d' .frontEndpoints))
      fun d' => d'.fronts.Sound layouts := by
  have hpair : ∀ d' : PinDir, d' .frontMeta = .plain m ∧ d' .frontEndpoints = .plain e →
      d'.fronts.Sound layouts ∧ FrontsConsistent (d' .frontMeta) (d' .frontEndpoints) := by
    rintro d' ⟨hm', he'⟩
    have hsame : d'.fronts = d.fronts := by rw [PinDir.fronts, PinDir.fronts, hm, he, hm', he']
    refine ⟨hsame ▸ h, ?_⟩
    rcases h.state with hpending | hsettled
    · rcases hpending.parked with hparked | hparked
      · exact absurd (by rw [PinDir.fronts, hm]; rfl) hparked
      · exact absurd (by rw [PinDir.fronts, he]; rfl) hparked
    · rw [PinDir.fronts, hm, he] at hsettled
      rw [hm', he']
      rcases hsettled with hnone | hnone | hconsistent
      · cases hnone
      · cases hnone
      · exact hconsistent
  have hkeep : ∀ {wanted : MapShape} {m : KernelMap} {now : Pins},
      (Pins.plain m).Recreating wanted (some .keep) now → now = .plain m := by
    rintro wanted m now (rfl | rfl | ⟨hne, -⟩ | ⟨hne, -⟩)
    · rfl
    · rfl
    · cases hne
    · cases hne
  have hmeta := recreateMismatchedPins_at d hs.metasSnapshot
  have hendpoints := recreateMismatchedPins_at d hs.endpointsSnapshot
  rw [hmfate, hm] at hmeta
  rw [hefate, he] at hendpoints
  refine Triple.bind ((hmeta.and hendpoints).weaken (fun _ h => ⟨h, h⟩) (fun _ _ h => h) ?_) fun recreated => ?_
  · exact fun d' h' => (hpair d' ⟨hkeep h'.1, hkeep h'.2⟩).1
  have hrest : ∀ (name : MapName) (map : KernelMap), recreated.filter (·.name = name) = [] →
      Triple (fun d' : PinDir => d' name = .plain map) (loadRecreated s recreated)
        (fun _ d' => d' name = .plain map) fun d' => d' name = .plain map := by
    intro name map hnone
    refine (loadRecreated_unwritten ?_).weaken (fun _ h => h) (fun _ _ h => h) fun d' h' => h'.elim id id
    intro r hr
    rw [hnone] at hr
    exact nomatch hr
  refine Triple.pre (P := fun d' => (recreated.filter (·.name = .frontMeta) = [] ∧
    recreated.filter (·.name = .frontEndpoints) = []) ∧ d' .frontMeta = .plain m ∧ d' .frontEndpoints = .plain e)
    ?_ fun d' h' => ⟨⟨h'.1.1, h'.2.1⟩, h'.1.2, h'.2.2⟩
  refine Triple.of_fact fun hnone => ?_
  exact ((hrest _ m hnone.1).and (hrest _ e hnone.2)).weaken (fun _ h => h) (fun _ d' h' => hpair d' h')
    fun d' h' => (hpair d' h').1

/-- Both front maps are removed, as far as they are there. -/
theorem loadEbpf_fronts_removed
    (hmfate : s.fateOf d .frontMeta = some .recreateEmpty ∨ (s.fateOf d .frontMeta = none ∧ d .frontMeta = .none))
    (hefate : s.fateOf d .frontEndpoints = some .recreateEmpty ∨
      (s.fateOf d .frontEndpoints = none ∧ d .frontEndpoints = .none))
    (hwhy : d .frontMeta = .none ∨ d .frontEndpoints = .none ∨
      (∃ m, (d .frontMeta).source = some m ∧ m.shape.layout ≠ layouts.metas) ∨
      ∃ e, (d .frontEndpoints).source = some e ∧ e.shape.layout ≠ layouts.endpoints) : Triple (· = d) (loadEbpf s)
      (fun _ d' => d'.fronts.Sound layouts ∧ FrontsConsistent (d' .frontMeta) (d' .frontEndpoints))
      fun d' => d'.fronts.Sound layouts := by
  -- no migration is pending that is given up here
  have hsettled : d.fronts.Settled := by
    rcases h.state with hpending | hsettled
    · rcases hwhy with hnone | hnone | ⟨m, hm, hbad⟩ | ⟨e, he, hbad⟩
      · exact Or.inl (by rw [PinDir.fronts, hnone]; rfl)
      · exact Or.inr (Or.inl (by rw [PinDir.fronts, hnone]; rfl))
      · exact absurd (hpending.metaLayout m (Pins.pinned_source hm)) hbad
      · exact absurd (hpending.endpointLayout e (Pins.pinned_source he)) hbad
    · exact hsettled
  have hgone : ∀ {name : MapName} {fate : Option Fate} (wanted : MapShape),
      fate = some .recreateEmpty ∨ (fate = none ∧ d name = .none) →
        (d name).recreated wanted fate = .none ∧ ∀ r ∈ (recordOf name (d name) fate).toList,
          r.snapshot = none ∧ r.parked = false := by
    rintro name fate wanted (rfl | ⟨rfl, hnone⟩)
    · exact ⟨rfl, fun r hr => by simp [recordOf] at hr; subst hr; exact ⟨rfl, rfl⟩⟩
    · exact ⟨hnone, fun r hr => absurd hr List.not_mem_nil⟩
  have hmeta := recreateMismatchedPins_at d hs.metasSnapshot
  have hendpoints := recreateMismatchedPins_at d hs.endpointsSnapshot
  refine Triple.bind ((hmeta.and hendpoints).weaken (fun _ h => ⟨h, h⟩) (fun _ _ h => h) ?_) fun recreated => ?_
  · rintro d' ⟨hm', he'⟩
    have hmremoving := hm'.removing hmfate
    have heremoving := he'.removing hefate
    exact ⟨Or.inr (hsettled.of_live hmremoving.live heremoving.live),
      h.countable.of_removing (fun m hm => hmremoving.pinned hm) heremoving⟩
  have hempty : ∀ d' : PinDir, (d' .frontMeta = .none ∨ d' .frontMeta = .plain (.new (s.requested .frontMeta))) →
      (d' .frontEndpoints = .none ∨ d' .frontEndpoints = .plain (.new (s.requested .frontEndpoints))) →
        d'.fronts.Sound layouts := by
    intro d' hm' he'
    refine FrontPair.sound_of_empty (fun m hpinned key => ?_) fun e parked hboth => ?_
    · unfold PinDir.fronts at hpinned
      rcases hm' with hm' | hm' <;> rw [hm'] at hpinned
      · exact hpinned.elim (fun h => absurd h.symm (Option.some_ne_none m)) fun h => absurd h.symm (Option.some_ne_none m)
      · refine hpinned.elim (fun h => ?_) fun h => absurd h.symm (Option.some_ne_none m)
        obtain rfl := Option.some_inj.mp h
        rfl
    · unfold PinDir.fronts at hboth
      rcases he' with he' | he' <;> rw [he'] at hboth <;> cases hboth
  have hrest : ∀ (name : MapName) (fate : Option Fate), fate = some .recreateEmpty ∨ (fate = none ∧ d name = .none) →
      recreated.filter (·.name = name) = (recordOf name (d name) fate).toList →
        Triple (fun d' : PinDir => d' name = .none) (loadRecreated s recreated)
          (fun _ d' => d' name = .plain (.new (s.requested name)))
          fun d' => d' name = .none ∨ d' name = .plain (.new (s.requested name)) := by
    intro name fate hfate hrecord
    refine loadRecreated_unwritten ?_
    rw [hrecord]
    exact (hgone (s.requested name) hfate).2
  refine Triple.pre (P := fun d' => (recreated.filter (·.name = .frontMeta) =
      (recordOf .frontMeta (d .frontMeta) (s.fateOf d .frontMeta)).toList ∧
    recreated.filter (·.name = .frontEndpoints) =
      (recordOf .frontEndpoints (d .frontEndpoints) (s.fateOf d .frontEndpoints)).toList) ∧
    d' .frontMeta = .none ∧ d' .frontEndpoints = .none) ?_ fun d' h' =>
      ⟨⟨h'.1.1, h'.2.1⟩, h'.1.2.trans (hgone _ hmfate).1, h'.2.2.trans (hgone _ hefate).1⟩
  refine Triple.of_fact fun hrecords => ?_
  refine ((hrest _ _ hmfate hrecords.1).and (hrest _ _ hefate hrecords.2)).weaken (fun _ h => h) ?_
    fun d' h' => hempty d' h'.1 h'.2
  rintro _ d' ⟨hm', he'⟩
  refine ⟨hempty d' (Or.inr hm') (Or.inr he'), ?_⟩
  intro m hlive key value hkey
  rw [hm'] at hlive
  obtain rfl := Option.some_inj.mp hlive
  cases hkey

end

end Beep
