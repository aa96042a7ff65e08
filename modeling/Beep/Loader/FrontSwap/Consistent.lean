import Beep.Loader.FrontSwap.Issued

/-!
# `Loader.FrontSwap.Consistent` — a reader never sees a mix of two generations

The dataplane loads `FRONT_META[front]` and then slots of the generation it names. This file shows that a
pass keeps both reads consistent at **every** prefix of the writes it issues, whatever fails: the meta row
never names a missing slot (`FrontStore.Complete`), a reader sees the old endpoint set or the desired one
(`FrontStore.view`), and the generation a reader loaded stays readable to the end of the pass.

For one front a pass has two phases. Until the commit only rows of other generations than the live one
change (`QuietFor`); the commit itself is the last write. A pruned front loses its meta row first.
-/

namespace Beep

/-! ## What a reader relies on -/

/-- All slots that the meta row of `f` in `s` names exist, and `t` still holds them. -/
def SlotsFrom (f : LbFrontKey) (s t : FrontStore) : Prop :=
  ∀ m, s.metas.lookup f = some m → ∀ slot < m.count.toNat,
    ∃ e, s.endpoints.lookup (endpointKey f m.generation slot) = some e ∧
      t.endpoints.lookup (endpointKey f m.generation slot) = some e

/-- Every `FRONT_META` row has all the endpoint rows it names. -/
def FrontStore.Complete (s : FrontStore) : Prop := ∀ f, SlotsFrom f s s

/-- What a reader of a front finds: the meta fields it acts on and the slots of the live generation. -/
structure FrontView where
  count : UInt16
  flags : UInt16
  localCount : UInt16
  endpoints : List (Option FrontEndpoint)
  deriving DecidableEq

def FrontStore.view (s : FrontStore) (f : LbFrontKey) : Option FrontView :=
  (s.metas.lookup f).map fun m =>
    { count := m.count
      flags := m.flags
      localCount := m.localCount
      endpoints := (List.range m.count.toNat).map fun slot =>
        s.endpoints.lookup (endpointKey f m.generation slot) }

/-- What a reader finds for a front that is as desired. -/
def DesiredFront.view (want : DesiredFront) : FrontView where
  count := want.count
  flags := want.flags
  localCount := want.localCount
  endpoints := want.endpoints.map some

/-- What the pass means a front to look like afterwards. -/
def targetView (s : FrontStore) (desired : Table LbFrontKey DesiredFront) (pruneAbsent : Bool)
    (f : LbFrontKey) : Option FrontView :=
  match desired.lookup f with
  | some want => some want.view
  | none => if pruneAbsent then none else s.view f

theorem SlotsFrom.congr {f : LbFrontKey} {s s' t t' : FrontStore} (hs : SameFront f s s')
    (ht : SameFront f t t') (h : SlotsFrom f s' t') : SlotsFrom f s t := by
  intro m hm slot hslot
  rw [hs.2 _ rfl, ht.2 _ rfl]
  exact h m (hs.1 ▸ hm) slot hslot

theorem view_congr {f : LbFrontKey} {s t : FrontStore} (h : SameFront f s t) : s.view f = t.view f := by
  unfold FrontStore.view
  rw [h.1]
  refine congrArg (Option.map · _) (funext fun m => ?_)
  have hslots : (fun slot => s.endpoints.lookup (endpointKey f m.generation slot)) =
      fun slot => t.endpoints.lookup (endpointKey f m.generation slot) :=
    funext fun slot => h.2 _ rfl
  rw [hslots]

theorem count_toNat {want : DesiredFront} (hlen : want.endpoints.length ≤ 65535) :
    want.count.toNat = want.endpoints.length := by
  rw [DesiredFront.count, UInt16.toNat_ofNat']
  omega

/-- A front with the desired meta fields and slots is seen as desired. -/
theorem view_of_holdsSlots {f : LbFrontKey} {s : FrontStore} {want : DesiredFront} {m : FrontMeta}
    (hlen : want.endpoints.length ≤ 65535) (hm : s.metas.lookup f = some m) (hc : m.count = want.count)
    (hfl : m.flags = want.flags) (hlc : m.localCount = want.localCount)
    (hslots : HoldsSlots s.endpoints f m.generation want) : s.view f = some want.view := by
  unfold FrontStore.view DesiredFront.view
  rw [hm, Option.map_some, hc, hfl, hlc, count_toNat hlen]
  have hlist : (List.range want.endpoints.length).map
      (fun slot => s.endpoints.lookup (endpointKey f m.generation slot)) = want.endpoints.map some := by
    refine List.ext_getElem (by simp) fun slot h₁ h₂ => ?_
    rw [List.getElem_map, List.getElem_range, List.getElem_map]
    exact hslots slot (by simpa using h₂)
  rw [hlist]

theorem slotsFrom_of_holdsSlots {f : LbFrontKey} {s : FrontStore} {want : DesiredFront} {m : FrontMeta}
    (hlen : want.endpoints.length ≤ 65535) (hm : s.metas.lookup f = some m) (hc : m.count = want.count)
    (hslots : HoldsSlots s.endpoints f m.generation want) : SlotsFrom f s s := by
  intro m' hm' slot hslot
  obtain rfl : m = m' := Option.some_inj.mp (hm.symm.trans hm')
  rw [hc, count_toNat hlen] at hslot
  exact ⟨_, hslots slot hslot, hslots slot hslot⟩

/-- A reader that found the slots of `s` in `s'` too may load the meta row there. -/
theorem SlotsFrom.via {f : LbFrontKey} {s s' t : FrontStore} (h : s'.metas.lookup f = s.metas.lookup f)
    (hs' : SlotsFrom f s s') (ht : SlotsFrom f s t) : SlotsFrom f s' t := by
  intro m hm slot hslot
  obtain ⟨e, he, he'⟩ := hs' m (h ▸ hm) slot hslot
  obtain ⟨e₁, he₁, ht₁⟩ := ht m (h ▸ hm) slot hslot
  obtain rfl : e = e₁ := Option.some_inj.mp (he.symm.trans he₁)
  exact ⟨e, he', ht₁⟩

/-! ## The quiet phase -/

/-- An endpoint write that leaves the generation `live` of every front alone. -/
def QuietFor (live : Option UInt32) : FrontWrite → Prop
  | .deleteEndpoint k => some k.generation ≠ live
  | .putEndpoint k _ => some k.generation ≠ live
  | _ => False

/-- Quiet writes change neither meta rows nor rows of the live generation. -/
theorem quiet_frame {live : Option UInt32} {log : FrontLog} (hq : ∀ w ∈ log, QuietFor live w.1)
    (s : FrontStore) :
    (storeAfter s log).metas = s.metas ∧
      ∀ k : FrontEndpointKey, some k.generation = live →
        (storeAfter s log).endpoints.lookup k = s.endpoints.lookup k := by
  induction log generalizing s with
  | nil => exact ⟨rfl, fun _ _ => rfl⟩
  | cons e log ih =>
    obtain ⟨w, ok⟩ := e
    have hw : QuietFor live w := hq (w, ok) List.mem_cons_self
    obtain ⟨hm, he⟩ := ih (fun w' hw' => hq w' (List.mem_cons_of_mem _ hw')) (if ok then s.apply w else s)
    rw [storeAfter_cons]
    cases ok with
    | false => exact ⟨hm, he⟩
    | true =>
      cases w with
      | deleteEndpoint k =>
        refine ⟨hm, fun k' hk' => (he k' hk').trans ?_⟩
        show (s.endpoints.erase k).lookup k' = _
        rw [Table.lookup_erase_ite, if_neg]
        rintro rfl
        exact hw hk'
      | putEndpoint k v =>
        refine ⟨hm, fun k' hk' => (he k' hk').trans ?_⟩
        show (s.endpoints.insert k v).lookup k' = _
        rw [Table.lookup_insert_ite, if_neg]
        rintro rfl
        exact hw hk'
      | putMeta => exact hw.elim
      | deleteMeta => exact hw.elim

/-! ## One front through a pass -/

/-- Every two points of a log: the earlier one shows the old or the target view, its slots exist, and they
    still do at the later point unless the front is pruned. -/
def ReaderSafe (f : LbFrontKey) (s : FrontStore) (target : Option FrontView) (pruned : Prop)
    (log : FrontLog) : Prop :=
  ∀ p q, p <+: q → q <+: log →
    ((storeAfter s p).view f = s.view f ∨ (storeAfter s p).view f = target) ∧
    SlotsFrom f (storeAfter s p) (storeAfter s p) ∧
    (¬ pruned → SlotsFrom f (storeAfter s p) (storeAfter s q))

section
variable {f : LbFrontKey} {s : FrontStore} {target : Option FrontView} {pruned : Prop}

/-- In the quiet phase a reader finds what it found at the start. -/
theorem quiet_same {log : FrontLog} (hq : ∀ w ∈ log, QuietFor ((s.metas.lookup f).map (·.generation)) w.1)
    (hs : SlotsFrom f s s) :
    (storeAfter s log).view f = s.view f ∧ (storeAfter s log).metas.lookup f = s.metas.lookup f ∧
      SlotsFrom f s (storeAfter s log) := by
  obtain ⟨hm, he⟩ := quiet_frame hq s
  refine ⟨?_, by rw [hm], ?_⟩
  · unfold FrontStore.view
    rw [hm]
    cases hlive : s.metas.lookup f with
    | none => rfl
    | some m =>
      rw [hlive] at he
      have hslots : (fun slot => (storeAfter s log).endpoints.lookup (endpointKey f m.generation slot)) =
          fun slot => s.endpoints.lookup (endpointKey f m.generation slot) :=
        funext fun slot => he _ rfl
      rw [Option.map_some, Option.map_some, hslots]
  · intro m hlive slot hslot
    rw [hlive] at he
    obtain ⟨e, hs₁, _⟩ := hs m hlive slot hslot
    exact ⟨e, hs₁, (he _ rfl).trans hs₁⟩

/-- A log of quiet writes is safe. -/
theorem readerSafe_quiet {log : FrontLog}
    (hq : ∀ w ∈ log, QuietFor ((s.metas.lookup f).map (·.generation)) w.1) (hs : SlotsFrom f s s) :
    ReaderSafe f s target pruned log := by
  intro p q hpq hq'
  have hquiet : ∀ l, l <+: log → ∀ w ∈ l, QuietFor ((s.metas.lookup f).map (·.generation)) w.1 :=
    fun l hl w hw => hq w (hl.subset hw)
  obtain ⟨hview, hmeta, hslots⟩ := quiet_same (hquiet p (hpq.trans hq')) hs
  obtain ⟨_, _, hslots'⟩ := quiet_same (hquiet q hq') hs
  exact ⟨Or.inl hview, hslots.via hmeta hslots, fun _ => hslots.via hmeta hslots'⟩

/-- A quiet phase and a meta write that names a complete generation are safe. -/
theorem readerSafe_commit {before : FrontLog} {m : FrontMeta} {ok : Bool} {want : DesiredFront}
    (hq : ∀ w ∈ before, QuietFor ((s.metas.lookup f).map (·.generation)) w.1) (hs : SlotsFrom f s s)
    (hlen : want.endpoints.length ≤ 65535) (hc : m.count = want.count) (hfl : m.flags = want.flags)
    (hlc : m.localCount = want.localCount)
    (hslots : ok = true → HoldsSlots (storeAfter s before).endpoints f m.generation want) :
    ReaderSafe f s (some want.view) pruned (before ++ [(.putMeta f m, ok)]) := by
  have hquiet : ReaderSafe f s (some want.view) pruned before := readerSafe_quiet hq hs
  have hend : storeAfter s (before ++ [(.putMeta f m, ok)]) =
      if ok then (storeAfter s before).apply (.putMeta f m) else storeAfter s before := by
    rw [storeAfter_append, storeAfter_cons, storeAfter_nil]
  obtain ⟨_, hmeta, hold⟩ := quiet_same hq hs
  intro p q hpq hq'
  cases ok with
  | false =>
    -- a failed commit leaves the store of the quiet phase
    have hback : ∀ l, l <+: before ++ [(.putMeta f m, false)] → ∃ l', l' <+: before ∧
        storeAfter s l = storeAfter s l' := by
      intro l hl
      rcases List.prefix_concat_iff.mp hl with rfl | hl
      · exact ⟨before, List.prefix_rfl, hend⟩
      · exact ⟨l, hl, rfl⟩
    obtain ⟨p', hp', hsp⟩ := hback p (hpq.trans hq')
    obtain ⟨q', hq'', hsq⟩ := hback q hq'
    obtain ⟨hview, hself, _⟩ := hquiet p' p' List.prefix_rfl hp'
    obtain ⟨_, hpm, hslots'⟩ := quiet_same (fun w hw => hq w (hp'.subset hw)) hs
    obtain ⟨_, _, hlater⟩ := quiet_same (fun w hw => hq w (hq''.subset hw)) hs
    rw [hsp, hsq]
    exact ⟨hview, hself, fun _ => hslots'.via hpm hlater⟩
  | true =>
    have hnew : (storeAfter s (before ++ [(.putMeta f m, true)])).metas.lookup f = some m := by
      rw [hend]
      exact AList.lookup_insert _
    have hrows : HoldsSlots (storeAfter s (before ++ [(.putMeta f m, true)])).endpoints f m.generation
        want := by
      rw [hend]
      exact hslots rfl
    rcases List.prefix_concat_iff.mp hq' with rfl | hq''
    · rcases List.prefix_concat_iff.mp hpq with rfl | hp
      · exact ⟨Or.inr (view_of_holdsSlots hlen hnew hc hfl hlc hrows),
          slotsFrom_of_holdsSlots hlen hnew hc hrows,
          fun _ => slotsFrom_of_holdsSlots hlen hnew hc hrows⟩
      · -- loaded before the commit, read after it: the live generation was not touched
        obtain ⟨hview, hself, _⟩ := hquiet p p List.prefix_rfl hp
        obtain ⟨_, hpm, hslots'⟩ := quiet_same (fun w hw => hq w (hp.subset hw)) hs
        refine ⟨hview, hself, fun _ => hslots'.via hpm ?_⟩
        rw [hend]
        exact hold
    · exact hquiet p q hpq hq''

end

/-! ## The new generation -/

theorem endpointKey_slot_inj {f f' : LbFrontKey} {g g' : UInt32} {i j : Nat} (hi : i < 65536)
    (hj : j < 65536) (h : endpointKey f g i = endpointKey f' g' j) : i = j := by
  have hslot : UInt16.ofNat i = UInt16.ofNat j := congrArg FrontEndpointKey.slot h
  have htoNat := congrArg UInt16.toNat hslot
  rw [UInt16.toNat_ofNat', UInt16.toNat_ofNat'] at htoNat
  omega

/-- The log of the endpoint writes of a new generation, from slot `n` on, if all of them succeed. -/
def putLog (f : LbFrontKey) (g : UInt32) (l : List FrontEndpoint) (n : Nat) : FrontLog :=
  (l.zipIdx n).map fun e => (.putEndpoint (endpointKey f g e.2) e.1, true)

/-- After the endpoint writes every slot holds its endpoint, and other rows are as they were. -/
theorem lookup_putLog (f : LbFrontKey) (g : UInt32) (l : List FrontEndpoint) (n : Nat)
    (hlen : n + l.length ≤ 65536) (s : FrontStore) :
    (∀ i (h : i < l.length),
      (storeAfter s (putLog f g l n)).endpoints.lookup (endpointKey f g (n + i)) = some l[i]) ∧
    (∀ k, (∀ i < l.length, k ≠ endpointKey f g (n + i)) →
      (storeAfter s (putLog f g l n)).endpoints.lookup k = s.endpoints.lookup k) := by
  induction l generalizing n s with
  | nil => exact ⟨fun i h => absurd h (Nat.not_lt_zero i), fun _ _ => rfl⟩
  | cons e l ih =>
    rw [List.length_cons] at hlen
    obtain ⟨hslots, hframe⟩ := ih (n + 1) (by omega) (s.apply (.putEndpoint (endpointKey f g n) e))
    have hcons : storeAfter s (putLog f g (e :: l) n) =
        storeAfter (s.apply (.putEndpoint (endpointKey f g n) e)) (putLog f g l (n + 1)) := rfl
    have happly : ∀ k, (s.apply (.putEndpoint (endpointKey f g n) e)).endpoints.lookup k =
        if k = endpointKey f g n then some e else s.endpoints.lookup k :=
      fun k => Table.lookup_insert_ite _ _ _ _
    rw [hcons]
    constructor
    · intro i hi
      cases i with
      | zero =>
        rw [Nat.add_zero, hframe, happly, if_pos rfl]
        · rfl
        · intro i hi heq
          have := endpointKey_slot_inj (by omega) (by omega) heq
          omega
      | succ i =>
        rw [show n + (i + 1) = n + 1 + i by omega, hslots i (by simpa using hi)]
        rfl
    · intro k hk
      rw [hframe k, happly, if_neg]
      · exact hk 0 (by simp)
      · intro i hi
        have := hk (i + 1) (by simpa using hi)
        rwa [show n + (i + 1) = n + 1 + i by omega] at this

/-- A log whose writes all succeeded is determined by the writes. -/
theorem eq_map_ok {log : FrontLog} (h : ∀ w ∈ log, w.2 = true) :
    log = (log.map Prod.fst).map fun w => (w, true) := by
  induction log with
  | nil => rfl
  | cons e log ih =>
    obtain ⟨w, ok⟩ := e
    obtain rfl : ok = true := h (w, ok) List.mem_cons_self
    rw [List.map_cons, List.map_cons, ← ih fun w hw => h w (List.mem_cons_of_mem _ hw)]

theorem nextGeneration_ne (live : Option FrontMeta) :
    some (nextGeneration live) ≠ live.map (·.generation) := by
  cases live with
  | none => exact Option.some_ne_none _
  | some m =>
    intro h
    have hg : m.generation + 1 = m.generation := Option.some_inj.mp h
    have hnat := congrArg UInt32.toNat hg
    rw [UInt32.toNat_add] at hnat
    have := m.generation.toNat_lt
    have hone : (1 : UInt32).toNat = 1 := rfl
    omega

/-- The deletes and endpoint writes of a swap, all of them issued. -/
def swapQuiet (existing : List FrontEndpointKey) (f : LbFrontKey) (want : DesiredFront)
    (live : Option FrontMeta) : List FrontWrite :=
  (existing.filter fun k => some k.generation != live.map (·.generation)).map .deleteEndpoint
    ++ want.endpoints.zipIdx.map fun e => .putEndpoint (endpointKey f (nextGeneration live) e.2) e.1

theorem quietFor_of_mem_swapQuiet {existing : List FrontEndpointKey} {f : LbFrontKey} {want : DesiredFront}
    {live : Option FrontMeta} {w : FrontWrite} (hw : w ∈ swapQuiet existing f want live) :
    QuietFor (live.map (·.generation)) w := by
  rcases List.mem_append.mp hw with hw | hw
  · obtain ⟨k, hk, rfl⟩ := List.mem_map.mp hw
    exact bne_iff_ne.mp (List.mem_filter.mp hk).2
  · obtain ⟨e, _, rfl⟩ := List.mem_map.mp hw
    exact nextGeneration_ne live

theorem QuietFor.not_meta {live : Option UInt32} {w : FrontWrite} (h : QuietFor live w) :
    w.isPutMeta = false ∧ w.isDeleteMeta = false := by
  cases w with
  | deleteEndpoint | putEndpoint => exact ⟨rfl, rfl⟩
  | putMeta | deleteMeta => exact h.elim

/-- The quiet part of a swap ends with the endpoint writes, if all of them succeeded. -/
theorem swapQuiet_log {existing : List FrontEndpointKey} {f : LbFrontKey} {want : DesiredFront}
    {live : Option FrontMeta} {before : FrontLog} (hbefore : before.map Prod.fst = swapQuiet existing f want live)
    (hok : ∀ w ∈ before, w.1.isPutEndpoint = true → w.2 = true) :
    ∃ dels, before = dels ++ putLog f (nextGeneration live) want.endpoints 0 := by
  obtain ⟨dels, puts, rfl, _, hputs⟩ := List.map_eq_append_iff.mp hbefore
  have hputs_ok : ∀ w ∈ puts, w.2 = true := by
    intro w hw
    refine hok w (List.mem_append_right _ hw) ?_
    have hmem : w.1 ∈ puts.map Prod.fst := List.mem_map_of_mem hw
    rw [hputs] at hmem
    obtain ⟨e, _, he⟩ := List.mem_map.mp hmem
    rw [← he]
    rfl
  have hlog : puts = putLog f (nextGeneration live) want.endpoints 0 := by
    rw [eq_map_ok hputs_ok, hputs, List.map_map]
    rfl
  exact ⟨dels, by rw [hlog]⟩

/-- Once all its endpoint writes succeeded, the next generation is complete. -/
theorem holdsSlots_swapQuiet {existing : List FrontEndpointKey} {f : LbFrontKey} {want : DesiredFront}
    {live : Option FrontMeta} {before : FrontLog} (hlen : want.endpoints.length ≤ 65535)
    (hbefore : before.map Prod.fst = swapQuiet existing f want live)
    (hok : ∀ w ∈ before, w.1.isPutEndpoint = true → w.2 = true) (s : FrontStore) :
    HoldsSlots (storeAfter s before).endpoints f (nextGeneration live) want := by
  obtain ⟨dels, rfl⟩ := swapQuiet_log hbefore hok
  intro slot hslot
  rw [storeAfter_append]
  have h := (lookup_putLog f (nextGeneration live) want.endpoints 0 (by omega) (storeAfter s dels)).1 slot hslot
  rwa [Nat.zero_add] at h

/-! ## The three kinds of plans -/

section
variable {f : LbFrontKey} {s : FrontStore} {log : FrontLog} {existing : List FrontEndpointKey}
  {want : DesiredFront}

theorem readerSafe_swap (hs : SlotsFrom f s s) (hlen : want.endpoints.length ≤ 65535)
    (h : IssuedBy false (swapSteps existing f want (s.metas.lookup f)) log) {pruned : Prop} :
    ReaderSafe f s (some want.view) pruned log := by
  have hsteps : swapSteps existing f want (s.metas.lookup f) = swapQuiet existing f want (s.metas.lookup f)
      ++ [.putMeta f (want.committed (nextGeneration (s.metas.lookup f)))] := rfl
  rw [hsteps] at h
  obtain ⟨before, after, blocked, rfl, hbefore, hafter, hok⟩ :=
    h.split_quiet fun w hw => (quietFor_of_mem_swapQuiet hw).not_meta
  have hq : ∀ w ∈ before, QuietFor ((s.metas.lookup f).map (·.generation)) w.1 := by
    intro w hw
    have hmem : w.1 ∈ before.map Prod.fst := List.mem_map_of_mem hw
    rw [hbefore] at hmem
    exact quietFor_of_mem_swapQuiet hmem
  cases hafter with
  | skipped _ hnil =>
    obtain rfl := hnil.eq_nil
    rw [List.append_nil]
    exact readerSafe_quiet hq hs
  | done hw hnil =>
    obtain rfl := hnil.eq_nil
    have hb : blocked = false := by simpa [FrontWrite.isPutMeta] using hw
    exact readerSafe_commit hq hs hlen rfl rfl rfl fun _ =>
      holdsSlots_swapQuiet hlen hbefore (hok hb).2 s
  | failed _ _ hnil =>
    obtain rfl := hnil.eq_nil
    exact readerSafe_commit hq hs hlen rfl rfl rfl fun hok => absurd hok Bool.false_ne_true
  | stopped hd => cases hd

theorem readerSafe_refresh {m : FrontMeta} {kept : Bool} (hs : SlotsFrom f s s)
    (hlen : want.endpoints.length ≤ 65535) (hm : unchangedMeta s.endpoints f want (s.metas.lookup f) = some m)
    (h : IssuedBy false (refreshSteps existing f want m kept) log) {pruned : Prop} :
    ReaderSafe f s (some want.view) pruned log := by
  obtain ⟨hlive, hc, hlc, hslots⟩ := unchangedMeta_eq_some.mp hm
  have hstale : ∀ w ∈ (existing.filter (staleGeneration m.generation kept)).map FrontWrite.deleteEndpoint,
      QuietFor ((s.metas.lookup f).map (·.generation)) w := by
    intro w hw
    obtain ⟨k, hk, rfl⟩ := List.mem_map.mp hw
    have hk' := (Bool.and_eq_true_iff.mp (List.mem_filter.mp hk).2).1
    rw [hlive]
    exact fun he => bne_iff_ne.mp hk' (Option.some_inj.mp he)
  obtain ⟨before, after, blocked, rfl, hbefore, hafter, _⟩ :=
    h.split_quiet fun w hw => (hstale w hw).not_meta
  have hq : ∀ w ∈ before, QuietFor ((s.metas.lookup f).map (·.generation)) w.1 := by
    intro w hw
    have hmem : w.1 ∈ before.map Prod.fst := List.mem_map_of_mem hw
    rw [hbefore] at hmem
    exact hstale w.1 hmem
  -- the flags are rewritten in place: the rows behind the new meta row are the live ones
  have hrows : HoldsSlots (storeAfter s before).endpoints f m.generation want := by
    intro slot hslot
    rw [(quiet_frame hq s).2 _ (by rw [hlive]; rfl)]
    exact hslots slot hslot
  by_cases hfl : (m.flags != want.flags) = true
  · rw [if_pos hfl] at hafter
    cases hafter with
    | skipped _ hnil =>
      obtain rfl := hnil.eq_nil
      rw [List.append_nil]
      exact readerSafe_quiet hq hs
    | done _ hnil =>
      obtain rfl := hnil.eq_nil
      exact readerSafe_commit hq hs hlen hc rfl hlc fun _ => hrows
    | failed _ _ hnil =>
      obtain rfl := hnil.eq_nil
      exact readerSafe_commit hq hs hlen hc rfl hlc fun _ => hrows
    | stopped hd => cases hd
  · rw [if_neg hfl] at hafter
    obtain rfl := hafter.eq_nil
    rw [List.append_nil]
    exact readerSafe_quiet hq hs

/-- A front that is no longer desired loses its meta row before any endpoint; if that delete fails, nothing
    else happens. -/
theorem readerSafe_prune (hs : SlotsFrom f s s)
    (h : IssuedBy false (pruneSteps existing f (s.metas.lookup f)) log) :
    ReaderSafe f s none True log := by
  have hdels : ∀ {l : FrontLog} {blocked : Bool}, IssuedBy blocked (existing.map .deleteEndpoint) l →
      ∀ l', l' <+: l → ∀ t : FrontStore, (storeAfter t l').metas = t.metas := by
    intro l blocked hl l' hl' t
    have hquiet : ∀ w ∈ l', QuietFor none w.1 := by
      intro w hw
      obtain ⟨k, _, hk⟩ := List.mem_map.mp (hl.mem_steps w (hl'.subset hw))
      rw [← hk]
      exact Option.some_ne_none _
    exact (quiet_frame hquiet t).1
  have hgone : ∀ {t : FrontStore}, t.metas.lookup f = none → t.view f = none ∧ SlotsFrom f t t := by
    intro t ht
    refine ⟨by rw [FrontStore.view, ht]; rfl, fun m hm => ?_⟩
    rw [ht] at hm
    cases hm
  have hpoint : ∀ p, p <+: log →
      ((storeAfter s p).view f = s.view f ∨ (storeAfter s p).view f = none) ∧
        SlotsFrom f (storeAfter s p) (storeAfter s p) := by
    intro p hp
    unfold pruneSteps at h
    cases hlive : s.metas.lookup f with
    | none =>
      rw [hlive] at h
      have hnone : (storeAfter s p).metas.lookup f = none := by rw [hdels h p hp s, hlive]
      exact ⟨Or.inr (hgone hnone).1, (hgone hnone).2⟩
    | some m =>
      rw [hlive] at h
      cases h with
      | failed _ hd _ => cases hd
      | stopped _ =>
        have hsame : storeAfter s p = s := by
          rcases List.prefix_cons_iff.mp hp with rfl | ⟨p', rfl, hp'⟩
          · rfl
          · rw [List.prefix_nil.mp hp']; rfl
        rw [hsame]
        exact ⟨Or.inl rfl, hs⟩
      | done _ h =>
        rcases List.prefix_cons_iff.mp hp with rfl | ⟨p', rfl, hp'⟩
        · exact ⟨Or.inl rfl, hs⟩
        · have hnone : (storeAfter s ((.deleteMeta f, true) :: p')).metas.lookup f = none := by
            rw [storeAfter_cons, hdels h p' hp']
            exact AList.lookup_erase _ _
          exact ⟨Or.inr (hgone hnone).1, (hgone hnone).2⟩
  intro p q hpq hq
  exact ⟨(hpoint p (hpq.trans hq)).1, (hpoint p (hpq.trans hq)).2, fun hn => absurd trivial hn⟩

end

/-! ## The whole pass -/

/-- The log of one front in a pass is safe for its readers. -/
theorem readerSafe_planFrontSteps {s : FrontStore} {desired : Table LbFrontKey DesiredFront}
    (hlen : ∀ f want, desired.lookup f = some want → want.endpoints.length ≤ 65535)
    {pruneAbsent : Bool} {keepPrevious : Finset LbFrontKey} {f : LbFrontKey} {log : FrontLog}
    (hs : SlotsFrom f s s)
    (h : IssuedBy false (planFrontSteps s.metas s.endpoints desired pruneAbsent keepPrevious f) log) :
    ReaderSafe f s (targetView s desired pruneAbsent f) (pruneAbsent = true ∧ desired.lookup f = none)
      log := by
  unfold planFrontSteps at h
  unfold targetView
  cases hd : desired.lookup f with
  | none =>
    simp only [hd] at h
    cases pruneAbsent with
    | false =>
      obtain rfl := h.eq_nil
      exact readerSafe_quiet (fun w hw => absurd hw List.not_mem_nil) hs
    | true =>
      intro p q hpq hq
      obtain ⟨hview, hself, _⟩ := readerSafe_prune hs h p q hpq hq
      exact ⟨hview, hself, fun hn => absurd ⟨rfl, rfl⟩ hn⟩
  | some want =>
    simp only [hd] at h
    cases hu : unchangedMeta s.endpoints f want (s.metas.lookup f) with
    | some m =>
      rw [hu] at h
      exact readerSafe_refresh hs (hlen f want hd) hu h
    | none =>
      rw [hu] at h
      exact readerSafe_swap hs (hlen f want hd) h

/-- The writes of a pass are safe for the readers of any one front. -/
theorem readerSafe_frontPass (fails : FrontLog → FrontWrite → Option MapError)
    (order : IterationOrder LbFrontKey) (s : FrontStore) (desired : Table LbFrontKey DesiredFront)
    (pruneAbsent : Bool) (keepPrevious : Finset LbFrontKey) (used : FrontUsage) (cap : FrontCapacity)
    (hs : s.Complete)
    (hlen : ∀ f want, desired.lookup f = some want → want.endpoints.length ≤ 65535) (f : LbFrontKey) :
    ReaderSafe f s (targetView s desired pruneAbsent f) (pruneAbsent = true ∧ desired.lookup f = none)
      (FrontLog.of f (frontPass fails order s desired pruneAbsent keepPrevious used cap).1) := by
  obtain ⟨logs, hlog, hplans⟩ := runFrontPlans_issued fails
    (planFrontWrites s.metas s.endpoints desired pruneAbsent keepPrevious order) s.metas used cap
  unfold frontPass
  rw [hlog]
  have hown : ∀ plan ∈ planFrontWrites s.metas s.endpoints desired pruneAbsent keepPrevious order,
      ∀ log, (log = [] ∨ IssuedBy false plan.steps log) → ∀ w ∈ log, w.1.front = plan.front := by
    rintro plan hplan log (rfl | hissued) w hw
    · cases hw
    · exact front_of_mem_steps hplan (hissued.mem_steps w hw)
  have hquiet : ReaderSafe f s (targetView s desired pruneAbsent f)
      (pruneAbsent = true ∧ desired.lookup f = none) [] :=
    readerSafe_quiet (fun w hw => absurd hw List.not_mem_nil) (hs f)
  rcases flatten_of hplans.issued hown (nodup_planFrontWrites order) f with
    ⟨_, hnil⟩ | ⟨plan, hplan, rfl, hnil | hissued⟩
  · rw [hnil]
    exact hquiet
  · rw [hnil]
    exact hquiet
  · rw [(mem_planFrontWrites.mp hplan).2.1] at hissued
    exact readerSafe_planFrontSteps hlen (hs plan.front) hissued

/-- What the front's own writes are safe for, a log with other writes between them is. -/
theorem ReaderSafe.of_log {f : LbFrontKey} {s : FrontStore} {target : Option FrontView} {pruned : Prop} {log : FrontLog}
    (h : ReaderSafe f s target pruned (FrontLog.of f log)) {p q : FrontLog} (hpq : p <+: q) (hq : q <+: log) :
    ((storeAfter s p).view f = s.view f ∨ (storeAfter s p).view f = target) ∧
      SlotsFrom f (storeAfter s p) (storeAfter s p) ∧
      (¬ pruned → SlotsFrom f (storeAfter s p) (storeAfter s q)) := by
  -- only the front's own writes matter to its readers
  obtain ⟨hview, hself, hlater⟩ :=
    h (FrontLog.of f p) (FrontLog.of f q) (FrontLog.of_prefix hpq) (FrontLog.of_prefix hq)
  have hp := storeAfter_of f s p
  have hq' := storeAfter_of f s q
  rw [view_congr hp]
  exact ⟨hview, hself.congr hp hp, fun hn => (hlater hn).congr hp hq'⟩

/-- **A pass is consistent for its readers at every point.** From a store in which every meta row has its
    slots, whatever is desired, pruned, kept, refused or fails: after every prefix of the writes issued all
    meta rows have their slots, a reader of any front sees what it saw before the pass or what is desired,
    and a front that is not pruned still holds, unchanged, the slots of any meta row a reader loaded
    earlier in the pass. -/
theorem frontPass_readers_consistent (fails : FrontLog → FrontWrite → Option MapError)
    (order : IterationOrder LbFrontKey) (s : FrontStore) (desired : Table LbFrontKey DesiredFront)
    (pruneAbsent : Bool) (keepPrevious : Finset LbFrontKey) (used : FrontUsage) (cap : FrontCapacity)
    (hs : s.Complete)
    (hlen : ∀ f want, desired.lookup f = some want → want.endpoints.length ≤ 65535) :
    ∀ p q, p <+: q → q <+: (frontPass fails order s desired pruneAbsent keepPrevious used cap).1 →
      (storeAfter s p).Complete ∧
      (∀ f, (storeAfter s p).view f = s.view f ∨
        (storeAfter s p).view f = targetView s desired pruneAbsent f) ∧
      (∀ f, ¬ (pruneAbsent = true ∧ desired.lookup f = none) →
        SlotsFrom f (storeAfter s p) (storeAfter s q)) := by
  intro p q hpq hq
  have hfront := fun f =>
    (readerSafe_frontPass fails order s desired pruneAbsent keepPrevious used cap hs hlen f).of_log hpq hq
  exact ⟨fun f => (hfront f).2.1, fun f => (hfront f).1, fun f => (hfront f).2.2⟩

/-- One front on `203.0.113.1:80/tcp`. -/
def sampleFront : LbFrontKey :=
  { frontIp := #v[0, 0, 0, 0, 0, 0, 0, 0, 0, 0, 0xff, 0xff, 203, 0, 113, 1], frontPort := 80, proto := 6, pad := 0 }

/-- A remote endpoint, told apart by its target port. -/
def sampleEndpoint (port : UInt16) : FrontEndpoint :=
  { backend := { backendNodeIp := Vector.replicate 16 1, podIp := Vector.replicate 16 2 }
    targetPort := port, flags := 0, pad := Vector.replicate 4 0 }

/-- The front at generation `5` with one endpoint. -/
def sampleFrontStore : FrontStore where
  metas := AList.insert sampleFront { generation := 5, count := 1, flags := 0, localCount := 0, pad := 0 } ∅
  endpoints := AList.insert (endpointKey sampleFront 5 0) (sampleEndpoint 8080) ∅

/-- Two endpoints wanted in its place. -/
def sampleDesired : Table LbFrontKey DesiredFront :=
  AList.insert sampleFront
    { flags := 0, preferLocal := true, endpoints := [sampleEndpoint 8081, sampleEndpoint 8082] } ∅

/-- The second endpoint write of a swap fails: the commit is not issued and the old endpoint is served. -/
theorem frontPass_readers_consistent_failed_put :
    letI pass := frontPass (fun log _ => if log.length = 1 then some (.other "") else none)
      ⟨id, fun _ => .rfl⟩ sampleFrontStore sampleDesired true ∅ {} ⟨10, 10⟩
    pass.1.map Prod.snd = [true, false] ∧ (storeAfter sampleFrontStore pass.1).Complete := by
  refine ⟨by decide, (frontPass_readers_consistent _ _ _ _ _ _ _ _ ?_ ?_ _ _ List.prefix_rfl
    List.prefix_rfl).1⟩
  · intro f m hm slot hslot
    rw [sampleFrontStore, Table.lookup_insert_ite] at hm
    by_cases hf : f = sampleFront
    · subst hf
      rw [if_pos rfl] at hm
      cases hm
      obtain rfl : slot = 0 := Nat.lt_one_iff.mp hslot
      exact ⟨sampleEndpoint 8080, AList.lookup_insert _, AList.lookup_insert _⟩
    · rw [if_neg hf] at hm
      cases hm
  · intro f want hwant
    rw [sampleDesired, Table.lookup_insert_ite] at hwant
    by_cases hf : f = sampleFront
    · rw [if_pos hf] at hwant
      cases hwant
      exact show 2 ≤ 65535 by decide
    · rw [if_neg hf] at hwant
      cases hwant

end Beep
