import Beep.Lib.Peak
import Beep.Loader.FrontSwap.Generations

/-!
# `Loader.FrontSwap.Capacity` — the counts of a pass, and the caps of the two maps

`apply_fronts` counts what it read, and the executor keeps the count as it writes. A plan is run only if its peak
fits, so the question is whether the count it is checked against can fall behind the maps, and whether a plan that
is cut short or loses its commit can go above the peak it was checked for.

Both are answered by one invariant of the executor (`Accounted`), kept by every write (`Accounted.done`,
`Accounted.failed`), by a plan with room (`Accounted.runSteps`) and by a pass (`passState_accounted`). What it
needs to know of a plan is that its writes land (`LandsAll`): a row that is deleted is there, and so is the row that
a commit is counted as replacing.
-/

namespace Beep

open Run Peak

/-! ## What is counted -/

/-- A write that deletes. -/
def FrontWrite.isDelete : FrontWrite → Bool
  | .deleteEndpoint _ | .deleteMeta _ => true
  | _ => false

/-- How many rows the two maps hold. -/
def FrontStore.usage (s : FrontStore) : FrontUsage where
  metas := s.metas.entries.length
  endpoints := s.endpoints.entries.length

/-- `apply_fronts`: the pass starts from the count of what it read. -/
def applyFronts (fails : FrontLog → FrontWrite → Option MapError) (order : IterationOrder LbFrontKey)
    (s : FrontStore) (desired : Table LbFrontKey DesiredFront) (pruneAbsent : Bool)
    (keepPrevious : Finset LbFrontKey) (cap : FrontCapacity) : FrontLog × FrontApply :=
  frontPass fails order s desired pruneAbsent keepPrevious s.usage cap

/-- Neither count is above its cap. -/
structure FrontUsage.Within (u : FrontUsage) (cap : FrontCapacity) : Prop where
  metas : u.metas ≤ cap.metas.toNat
  endpoints : u.endpoints ≤ cap.endpoints.toNat

/-- Neither count is below the other one. -/
structure FrontUsage.Covers (u v : FrontUsage) : Prop where
  metas : v.metas ≤ u.metas
  endpoints : v.endpoints ≤ u.endpoints

theorem FrontUsage.Covers.within {u v : FrontUsage} {cap : FrontCapacity} (h : u.Covers v) (hu : u.Within cap) :
    v.Within cap :=
  ⟨h.metas.trans hu.metas, h.endpoints.trans hu.endpoints⟩

/-- The store after one issued write. -/
def FrontStore.issue (s : FrontStore) (w : FrontWrite × Bool) : FrontStore :=
  if w.2 then s.apply w.1 else s

/-- The writes of a log that succeeded. -/
def FrontLog.landed (log : FrontLog) : List FrontWrite := (log.filter Prod.snd).map Prod.fst

theorem storeAfter_concat (s : FrontStore) (log : FrontLog) (w : FrontWrite × Bool) :
    storeAfter s (log ++ [w]) = (storeAfter s log).issue w := by
  rw [storeAfter_append]
  rfl

theorem FrontLog.landed_concat (log : FrontLog) (w : FrontWrite) (ok : Bool) :
    FrontLog.landed (log ++ [(w, ok)]) = FrontLog.landed log ++ if ok then [w] else [] := by
  unfold FrontLog.landed
  rw [List.filter_append, List.map_append]
  cases ok <;> rfl

/-! ## One write -/

/-- What the count takes for granted about a write: what it deletes is there, and a meta row is replaced where
    the front had one when the pass began. -/
def FrontWrite.Lands (had : Bool) (s : FrontStore) : FrontWrite → Prop
  | .deleteEndpoint k => (s.endpoints.lookup k).isSome
  | .putEndpoint .. => True
  | .putMeta f _ => had = true → (s.metas.lookup f).isSome
  | .deleteMeta f => (s.metas.lookup f).isSome

/-- **One write is counted.** A count that covers the maps changes by what the write is planned to change, and covers
    them after it. -/
theorem FrontUsage.Covers.apply {u : FrontUsage} {s : FrontStore} {w : FrontWrite} {had : Bool}
    (h : u.Covers s.usage) (hw : w.Lands had s) :
    (u.apply w had).Covers (s.apply w).usage ∧
      ((u.apply w had).endpoints : Int) = u.endpoints + w.endpointDelta ∧
      ((u.apply w had).metas : Int) = u.metas + w.metaDelta had := by
  obtain ⟨hm, he⟩ := h
  simp only [FrontStore.usage] at hm he
  cases w with
  | deleteEndpoint k =>
    have hlen := Table.length_erase_of_mem hw
    refine ⟨⟨hm, ?_⟩, ?_, ?_⟩ <;>
      simp only [FrontStore.usage, FrontStore.apply, FrontUsage.apply, FrontWrite.endpointDelta,
        FrontWrite.metaDelta] <;>
      omega
  | putEndpoint k v =>
    have hlen := Table.length_insert_le s.endpoints k v
    refine ⟨⟨hm, ?_⟩, ?_, ?_⟩ <;>
      simp only [FrontStore.usage, FrontStore.apply, FrontUsage.apply, FrontWrite.endpointDelta,
        FrontWrite.metaDelta] <;>
      omega
  | putMeta f m =>
    cases had with
    | false =>
      have hlen := Table.length_insert_le s.metas f m
      refine ⟨⟨?_, he⟩, ?_, ?_⟩ <;>
        simp only [FrontStore.usage, FrontStore.apply, FrontUsage.apply, FrontWrite.endpointDelta,
          FrontWrite.metaDelta, Bool.false_eq_true, if_false] <;>
        omega
    | true =>
      have hlen := Table.length_insert_of_mem m (hw rfl)
      refine ⟨⟨?_, he⟩, ?_, ?_⟩ <;>
        simp only [FrontStore.usage, FrontStore.apply, FrontUsage.apply, FrontWrite.endpointDelta,
          FrontWrite.metaDelta, if_true] <;>
        omega
  | deleteMeta f =>
    have hlen := Table.length_erase_of_mem hw
    refine ⟨⟨?_, he⟩, ?_, ?_⟩ <;>
      simp only [FrontStore.usage, FrontStore.apply, FrontUsage.apply, FrontWrite.endpointDelta,
        FrontWrite.metaDelta] <;>
      omega

/-! ## The invariant of the executor -/

/-- The executor has kept its books: every write it issued fits in the maps, and the count it holds covers what they
    hold, is within the caps and is the count it began with plus what the writes that succeeded were planned to
    change. -/
structure Accounted (s : FrontStore) (cap : FrontCapacity) (log : FrontLog) (used : FrontUsage) : Prop where
  fits : Along FrontStore.issue (fun t w => (t.apply w.1).usage.Within cap) s log
  covers : used.Covers (storeAfter s log).usage
  within : used.Within cap
  endpoints_eq : (used.endpoints : Int) = s.usage.endpoints + net FrontWrite.endpointDelta (FrontLog.landed log)
  metas_eq : (used.metas : Int) =
    s.usage.metas + net (fun w => w.metaDelta (s.metas.lookup w.front).isSome) (FrontLog.landed log)

/-- There is room for the peak of some steps. -/
structure HasRoom (used : FrontUsage) (cap : FrontCapacity) (had : Bool) (steps : List FrontWrite) : Prop where
  endpoints : used.endpoints + peak FrontWrite.endpointDelta steps ≤ cap.endpoints.toNat
  metas : used.metas + peak (FrontWrite.metaDelta had) steps ≤ cap.metas.toNat

variable {s : FrontStore} {cap : FrontCapacity} {log : FrontLog} {used : FrontUsage}

theorem accounted_start (hs : s.usage.Within cap) : Accounted s cap [] s.usage where
  fits := trivial
  covers := ⟨le_refl _, le_refl _⟩
  within := hs
  endpoints_eq := by rw [FrontLog.landed, List.filter_nil, List.map_nil, net_nil, Int.add_zero]
  metas_eq := by rw [FrontLog.landed, List.filter_nil, List.map_nil, net_nil, Int.add_zero]

namespace Accounted

variable {w : FrontWrite} {rest : List FrontWrite} {had : Bool}

/-- A write with room behind it fits. -/
theorem fits_apply (h : Accounted s cap log used) (hw : w.Lands had (storeAfter s log))
    (hroom : HasRoom used cap had (w :: rest)) :
    (used.apply w had).Within cap ∧ ((storeAfter s log).apply w).usage.Within cap := by
  obtain ⟨hcovers, he, hm⟩ := h.covers.apply hw
  have hin : (used.apply w had).Within cap := by
    obtain ⟨hroomE, hroomM⟩ := hroom
    have hstepE := @room_step _ FrontWrite.endpointDelta w rest
    have hstepM := @room_step _ (FrontWrite.metaDelta had) w rest
    have hposE := @peak_nonneg _ FrontWrite.endpointDelta rest
    have hposM := @peak_nonneg _ (FrontWrite.metaDelta had) rest
    constructor <;> omega
  exact ⟨hin, hcovers.within hin⟩

/-- A write that succeeds is booked. -/
theorem done (h : Accounted s cap log used) (hhad : (s.metas.lookup w.front).isSome = had)
    (hw : w.Lands had (storeAfter s log)) (hroom : HasRoom used cap had (w :: rest)) :
    Accounted s cap (log ++ [(w, true)]) (used.apply w had) ∧ HasRoom (used.apply w had) cap had rest := by
  obtain ⟨hin, hfits⟩ := h.fits_apply hw hroom
  obtain ⟨hcovers, he, hm⟩ := h.covers.apply hw
  refine ⟨⟨along_append.mpr ⟨h.fits, hfits, trivial⟩, ?_, hin, ?_, ?_⟩, ?_⟩
  · rw [storeAfter_concat]
    exact hcovers
  · rw [FrontLog.landed_concat, if_pos rfl, net_append, he, h.endpoints_eq]
    simp only [net_cons, net_nil]
    omega
  · rw [FrontLog.landed_concat, if_pos rfl, net_append, hm, h.metas_eq]
    simp only [net_cons, net_nil, hhad]
    omega
  · obtain ⟨hroomE, hroomM⟩ := hroom
    have hstepE := @room_step _ FrontWrite.endpointDelta w rest
    have hstepM := @room_step _ (FrontWrite.metaDelta had) w rest
    constructor <;> omega

/-- A write that fails changes neither the maps nor the count. -/
theorem failed (h : Accounted s cap log used) (hw : w.Lands had (storeAfter s log))
    (hroom : HasRoom used cap had (w :: rest)) : Accounted s cap (log ++ [(w, false)]) used := by
  refine ⟨along_append.mpr ⟨h.fits, (h.fits_apply hw hroom).2, trivial⟩, ?_, h.within, ?_, ?_⟩
  · rw [storeAfter_concat]
    exact h.covers
  · rw [FrontLog.landed_concat, if_neg Bool.false_ne_true, List.append_nil]
    exact h.endpoints_eq
  · rw [FrontLog.landed_concat, if_neg Bool.false_ne_true, List.append_nil]
    exact h.metas_eq

end Accounted

theorem FrontWrite.endpointDelta_nonneg {w : FrontWrite} (hw : w.isDelete = false) : 0 ≤ w.endpointDelta := by
  cases w with
  | deleteEndpoint | deleteMeta => cases hw
  | putEndpoint | putMeta => simp [FrontWrite.endpointDelta]

theorem FrontWrite.metaDelta_nonneg {w : FrontWrite} (hw : w.isDelete = false) (had : Bool) : 0 ≤ w.metaDelta had := by
  cases w with
  | deleteEndpoint | deleteMeta => cases hw
  | putEndpoint | putMeta => cases had <;> simp [FrontWrite.metaDelta]

/-- Leaving out a put leaves room for the rest. -/
theorem HasRoom.skip {w : FrontWrite} {rest : List FrontWrite} {had : Bool} (h : HasRoom used cap had (w :: rest))
    (hw : w.isDelete = false) : HasRoom used cap had rest := by
  obtain ⟨hroomE, hroomM⟩ := h
  have hskipE := room_skip (FrontWrite.endpointDelta_nonneg hw) rest
  have hskipM := room_skip (FrontWrite.metaDelta_nonneg hw had) rest
  constructor <;> omega

theorem HasRoom.of_prefix {steps steps' : List FrontWrite} {had : Bool} (h : HasRoom used cap had steps')
    (hp : steps <+: steps') : HasRoom used cap had steps := by
  obtain ⟨hroomE, hroomM⟩ := h
  have hpeakE : peak FrontWrite.endpointDelta steps ≤ peak FrontWrite.endpointDelta steps' := peak_le_of_prefix hp
  have hpeakM : peak (FrontWrite.metaDelta had) steps ≤ peak (FrontWrite.metaDelta had) steps' := peak_le_of_prefix hp
  constructor <;> omega

/-! ## What the planner counts -/

/-- The running totals of `plan_effect` are a net and a peak. -/
theorem effectTotals_foldl (had : Bool) (steps : List FrontWrite) (t : EffectTotals) (hep : t.ep ≤ t.epPeak)
    (hmetas : t.metas ≤ t.metasPeak) :
    steps.foldl (fun (t : EffectTotals) step =>
      let ep := t.ep + step.endpointDelta
      let metas := t.metas + step.metaDelta had
      { ep, epPeak := max t.epPeak ep, metas, metasPeak := max t.metasPeak metas }) t =
    { ep := t.ep + net FrontWrite.endpointDelta steps
      epPeak := max t.epPeak (t.ep + peak FrontWrite.endpointDelta steps)
      metas := t.metas + net (FrontWrite.metaDelta had) steps
      metasPeak := max t.metasPeak (t.metas + peak (FrontWrite.metaDelta had) steps) } := by
  induction steps generalizing t with
  | nil =>
    rw [List.foldl_nil, EffectTotals.mk.injEq]
    refine ⟨?_, ?_, ?_, ?_⟩ <;> simp only [net_nil, peak] <;> omega
  | cons w rest ih =>
    have hposE := @peak_nonneg _ FrontWrite.endpointDelta rest
    have hposM := @peak_nonneg _ (FrontWrite.metaDelta had) rest
    rw [List.foldl_cons, ih _ (by simp only; omega) (by simp only; omega), EffectTotals.mk.injEq]
    refine ⟨?_, ?_, ?_, ?_⟩ <;> simp only [net_cons, peak] <;> omega

theorem planEffect_eq (plan : FrontPlan) (had : Bool) :
    planEffect plan had = (net FrontWrite.endpointDelta plan.steps,
      (peak FrontWrite.endpointDelta plan.steps).toNat, (peak (FrontWrite.metaDelta had) plan.steps).toNat) := by
  have hposE := @peak_nonneg _ FrontWrite.endpointDelta plan.steps
  have hposM := @peak_nonneg _ (FrontWrite.metaDelta had) plan.steps
  unfold planEffect
  rw [effectTotals_foldl had plan.steps {} (le_refl _) (le_refl _)]
  simp only [Int.zero_add, Int.max_eq_right hposE, Int.max_eq_right hposM]

/-- A plan that is not refused has room for its peak. -/
theorem capacityShortfall_eq_none_iff {plan : FrontPlan} {had : Bool} :
    capacityShortfall plan had used cap = none ↔ HasRoom used cap had plan.steps := by
  have hposE := @peak_nonneg _ FrontWrite.endpointDelta plan.steps
  have hposM := @peak_nonneg _ (FrontWrite.metaDelta had) plan.steps
  unfold capacityShortfall
  rw [planEffect_eq]
  simp only
  constructor
  · intro h
    split at h
    · cases h
    · split at h
      · cases h
      · constructor <;> omega
  · rintro ⟨hroomE, hroomM⟩
    rw [if_neg (by omega), if_neg (by omega)]

/-! ## One plan -/

/-- Every step lands, whichever of the puts before it fail or are left out. -/
def LandsAll (had : Bool) : FrontStore → List FrontWrite → Prop
  | _, [] => True
  | s, w :: rest => w.Lands had s ∧ LandsAll had (s.apply w) rest ∧ (w.isDelete = false → LandsAll had s rest)

theorem LandsAll.of_prefix {had : Bool} {steps steps' : List FrontWrite} (h : LandsAll had s steps')
    (hp : steps <+: steps') : LandsAll had s steps := by
  induction steps generalizing s steps' with
  | nil => trivial
  | cons w rest ih =>
    obtain ⟨more, rfl⟩ := hp
    obtain ⟨hw, hdone, hskipped⟩ := h
    exact ⟨hw, ih hdone (List.prefix_append rest more), fun hput => ih (hskipped hput) (List.prefix_append rest more)⟩

/-- Whether the steps of one front land is a matter of that front's rows. -/
theorem LandsAll.congr {had : Bool} {f : LbFrontKey} {t : FrontStore} {steps : List FrontWrite}
    (hown : ∀ w ∈ steps, w.front = f) (hsame : SameFront f s t) (h : LandsAll had s steps) : LandsAll had t steps := by
  induction steps generalizing s t with
  | nil => trivial
  | cons w rest ih =>
    obtain ⟨hw, hdone, hskipped⟩ := h
    have hrest : ∀ v ∈ rest, v.front = f := fun v hv => hown v (List.mem_cons_of_mem _ hv)
    refine ⟨?_, ih hrest (sameFront_apply hsame w) hdone, fun hput => ih hrest hsame (hskipped hput)⟩
    have hf := hown w List.mem_cons_self
    obtain ⟨hmeta, hrows⟩ := hsame
    cases w with
    | deleteEndpoint k =>
      show (t.endpoints.lookup k).isSome
      rw [← hrows k hf]
      exact hw
    | putEndpoint => trivial
    | putMeta g m =>
      obtain rfl : g = f := hf
      show had = true → (t.metas.lookup g).isSome
      rw [← hmeta]
      exact hw
    | deleteMeta g =>
      obtain rfl : g = f := hf
      show (t.metas.lookup g).isSome
      rw [← hmeta]
      exact hw

/-- Deletes of rows that are there land, whatever they are followed by. -/
theorem landsAll_deletes {had : Bool} {ks : List FrontEndpointKey} (hnodup : ks.Nodup)
    (hthere : ∀ k ∈ ks, (s.endpoints.lookup k).isSome) {rest : List FrontWrite}
    (hrest : ∀ t : FrontStore, t.metas = s.metas → LandsAll had t rest) :
    LandsAll had s (ks.map FrontWrite.deleteEndpoint ++ rest) := by
  induction ks generalizing s with
  | nil => exact hrest s rfl
  | cons k ks ih =>
    obtain ⟨hfresh, hnodup⟩ := List.nodup_cons.mp hnodup
    refine ⟨hthere k List.mem_cons_self, ih hnodup (fun k' hk' => ?_) hrest, fun hput => absurd hput.symm Bool.false_ne_true⟩
    have hne : k' ≠ k := by
      rintro rfl
      exact hfresh hk'
    show ((s.endpoints.erase k).lookup k').isSome
    rw [Table.lookup_erase_ite, if_neg hne]
    exact hthere k' (List.mem_cons_of_mem _ hk')

/-- Puts of endpoint rows land, whatever they are followed by. -/
theorem landsAll_puts {α : Type*} {es : List α} (key : α → FrontEndpointKey) (value : α → FrontEndpoint) {had : Bool}
    {rest : List FrontWrite} (hrest : ∀ t : FrontStore, t.metas = s.metas → LandsAll had t rest) :
    LandsAll had s (es.map (fun e => FrontWrite.putEndpoint (key e) (value e)) ++ rest) := by
  induction es generalizing s with
  | nil => exact hrest s rfl
  | cons e es ih => exact ⟨trivial, ih hrest, fun _ => ih hrest⟩

theorem landsAll_commit {f : LbFrontKey} {m : FrontMeta} {t : FrontStore} (h : t.metas = s.metas) :
    LandsAll (s.metas.lookup f).isSome t [.putMeta f m] := by
  refine ⟨fun hhad => ?_, trivial, fun _ => trivial⟩
  rw [h]
  exact hhad

/-- **The steps that are planned land** in the maps they are planned for. -/
theorem landsAll_planFrontSteps {desired : Table LbFrontKey DesiredFront} {pruneAbsent : Bool}
    {keepPrevious : Finset LbFrontKey} (f : LbFrontKey) :
    LandsAll (s.metas.lookup f).isSome s
      (planFrontSteps s.metas s.endpoints desired pruneAbsent keepPrevious f) := by
  have hnodup : (endpointsOf s.endpoints f).Nodup := List.Nodup.filter _ s.endpoints.nodupKeys
  have hthere : ∀ k ∈ endpointsOf s.endpoints f, (s.endpoints.lookup k).isSome := by
    intro k hk
    obtain ⟨v, hv⟩ := (mem_endpointsOf.mp hk).2
    rw [hv]
    rfl
  have hsome : ∀ sel : FrontEndpointKey → Bool, ∀ k ∈ (endpointsOf s.endpoints f).filter sel,
      (s.endpoints.lookup k).isSome := fun sel k hk => hthere k (List.mem_filter.mp hk).1
  rcases @planFrontSteps_cases s.metas s.endpoints desired pruneAbsent keepPrevious f with
    ⟨_, _, hsteps⟩ | ⟨_, _, hsteps⟩ | ⟨want, m, _, _, hsteps⟩ | ⟨want, _, hsteps⟩ <;> rw [hsteps]
  · trivial
  · -- the meta row first: the endpoint rows are still there behind it
    unfold pruneSteps
    have hdeletes : ∀ t : FrontStore, t.endpoints = s.endpoints →
        LandsAll (s.metas.lookup f).isSome t ((endpointsOf s.endpoints f).map FrontWrite.deleteEndpoint) := by
      intro t ht
      rw [← List.append_nil (List.map _ _)]
      exact landsAll_deletes hnodup (by rwa [ht]) fun _ _ => trivial
    by_cases hlive : (s.metas.lookup f).isSome = true
    · rw [if_pos hlive]
      exact ⟨hlive, hdeletes _ rfl, fun hput => absurd hput.symm Bool.false_ne_true⟩
    · rw [if_neg hlive]
      exact hdeletes s rfl
  · unfold refreshSteps
    refine landsAll_deletes (hnodup.filter _) (hsome _) fun t ht => ?_
    split
    · exact landsAll_commit ht
    · trivial
  · unfold swapSteps
    rw [List.append_assoc]
    refine landsAll_deletes (hnodup.filter _) (hsome _) fun t ht => ?_
    exact landsAll_puts _ Prod.fst fun t' ht' => landsAll_commit (ht'.trans ht)

section
variable {fails : FrontLog → FrontWrite → Option MapError}

/-- **One plan is accounted for**, where its deletes succeed. -/
theorem Accounted.runSteps (hdel : ∀ log w, w.isDelete = true → fails log w = none) {live : Option FrontMeta}
    {steps : List FrontWrite} (hlive : ∀ w ∈ steps, s.metas.lookup w.front = live) (blocked : Bool)
    {st : FrontLog × FrontUsage × Bool} (h : Accounted s cap st.1 st.2.1)
    (hlands : LandsAll live.isSome (storeAfter s st.1) steps) (hroom : HasRoom st.2.1 cap live.isSome steps) :
    Accounted s cap (Beep.runSteps (trackedWrite (issueWrite fails) live) blocked st steps).1.1
      (Beep.runSteps (trackedWrite (issueWrite fails) live) blocked st steps).1.2.1 := by
  -- on the steps; what is left of the plan lands and has room after each of them
  induction steps generalizing blocked st with
  | nil => exact h
  | cons w rest ih =>
    obtain ⟨hw, hdone, hskipped⟩ := hlands
    have hhad : (s.metas.lookup w.front).isSome = live.isSome := by rw [hlive w List.mem_cons_self]
    have hrest : ∀ v ∈ rest, s.metas.lookup v.front = live := fun v hv => hlive v (List.mem_cons_of_mem _ hv)
    unfold Beep.runSteps
    by_cases hskip : (blocked && w.isPutMeta) = true
    · rw [if_pos hskip]
      have hput : w.isDelete = false := by cases w <;> simp_all [FrontWrite.isPutMeta, FrontWrite.isDelete]
      exact ih hrest blocked h (hskipped hput) (hroom.skip hput)
    · rw [if_neg hskip]
      cases hf : fails st.1 w with
      | none =>
        have hwrite : trackedWrite (issueWrite fails) live st w = ((st.1 ++ [(w, true)],
            st.2.1.apply w live.isSome, st.2.2 || w.commits live), .ok ()) := by
          simp only [trackedWrite, issueWrite, hf]
        rw [hwrite]
        obtain ⟨hdoneAcc, hroom'⟩ := h.done hhad hw hroom
        refine ih hrest blocked hdoneAcc ?_ hroom'
        rw [storeAfter_concat]
        exact hdone
      | some e =>
        have hwrite : trackedWrite (issueWrite fails) live st w =
            ((st.1 ++ [(w, false)], st.2.1, st.2.2), .error e) := by
          simp only [trackedWrite, issueWrite, hf]
        have hput : w.isDelete = false := by
          by_contra hdelete
          rw [hdel st.1 w (Bool.not_eq_false _ ▸ hdelete)] at hf
          cases hf
        have hnotMeta : w.isDeleteMeta = false := by cases w <;> simp_all [FrontWrite.isDeleteMeta, FrontWrite.isDelete]
        rw [hwrite]
        simp only [hnotMeta, Bool.false_eq_true, if_false]
        refine ih hrest _ (h.failed hw hroom) ?_ (hroom.skip hput)
        rw [storeAfter_concat]
        exact hskipped hput

/-! ## The pass -/

variable (fails) in
/-- The state of `run_front_plans` after its first `n` plans. -/
def passState (currentMeta : Table LbFrontKey FrontMeta) (cap : FrontCapacity) (plans : List FrontPlan)
    (used : FrontUsage) (n : Nat) : FrontLog × FrontUsage × FrontApply :=
  (plans.take n).foldl (runOnePlan (issueWrite fails) currentMeta cap) ([], used, {})

variable (fails) in
/-- Where a pass can stand: between two plans, or some steps into one that is not refused. With the log of what
    was issued so far, and the count it holds. -/
inductive PassPoint (currentMeta : Table LbFrontKey FrontMeta) (cap : FrontCapacity) (plans : List FrontPlan)
    (used : FrontUsage) : FrontLog → FrontUsage → Prop
  | between (n : Nat) :
      PassPoint currentMeta cap plans used (passState fails currentMeta cap plans used n).1
        (passState fails currentMeta cap plans used n).2.1
  | inside (n steps : Nat) {p : FrontPlan} (hp : plans[n]? = some p)
      (hroom : capacityShortfall p (currentMeta.lookup p.front).isSome
        (passState fails currentMeta cap plans used n).2.1 cap = none) {log : FrontLog} {held : FrontUsage} {c : Bool}
      (hrun : (runFrontPlan (trackedWrite (issueWrite fails) (currentMeta.lookup p.front))
        { p with steps := p.steps.take steps } ((passState fails currentMeta cap plans used n).1,
          (passState fails currentMeta cap plans used n).2.1, false)).1 = (log, held, c)) :
      PassPoint currentMeta cap plans used log held

variable {currentMeta : Table LbFrontKey FrontMeta} {plans : List FrontPlan}

theorem passState_succ {n : Nat} {p : FrontPlan} (hp : plans[n]? = some p) :
    passState fails currentMeta cap plans used (n + 1) =
      runOnePlan (issueWrite fails) currentMeta cap (passState fails currentMeta cap plans used n) p := by
  unfold passState
  rw [List.take_add_one, hp, List.foldl_append]
  rfl

/-- What some plans of a pass issue concerns their fronts. -/
theorem mem_foldl_runOnePlan (hown : ∀ p ∈ plans, ∀ w ∈ p.steps, w.front = p.front)
    (st : FrontLog × FrontUsage × FrontApply) {w : FrontWrite × Bool}
    (hw : w ∈ (plans.foldl (runOnePlan (issueWrite fails) currentMeta cap) st).1) :
    w ∈ st.1 ∨ ∃ p ∈ plans, w.1.front = p.front := by
  induction plans generalizing st with
  | nil => exact Or.inl hw
  | cons p plans ih =>
    rcases ih (fun q hq => hown q (List.mem_cons_of_mem _ hq)) _ hw with hw | ⟨q, hq, hwq⟩
    · obtain ⟨log, hlog, hissued, _⟩ := runOnePlan_issued fails currentMeta cap st p
      rw [hlog] at hw
      rcases List.mem_append.mp hw with hw | hw
      · exact Or.inl hw
      · rcases hissued with rfl | hissued
        · cases hw
        · exact Or.inr ⟨p, List.mem_cons_self, hown p List.mem_cons_self w.1 (hissued.mem_steps w hw)⟩
    · exact Or.inr ⟨q, List.mem_cons_of_mem _ hq, hwq⟩

/-- The plans before and behind one are of other fronts. -/
theorem fronts_differ (hnodup : (plans.map FrontPlan.front).Nodup) {n : Nat} {p : FrontPlan} (hp : plans[n]? = some p) :
    (∀ q ∈ plans.take n, q.front ≠ p.front) ∧ ∀ q ∈ plans.drop (n + 1), q.front ≠ p.front := by
  obtain ⟨hn, rfl⟩ := List.getElem?_eq_some_iff.mp hp
  have hsplit : plans = plans.take n ++ plans[n] :: plans.drop (n + 1) := by simp
  rw [hsplit, List.map_append, List.map_cons] at hnodup
  obtain ⟨_, htail, hdisjoint⟩ := List.nodup_append.mp hnodup
  refine ⟨fun q hq => ?_, fun q hq heq => ?_⟩
  · exact hdisjoint _ (List.mem_map_of_mem hq) _ List.mem_cons_self
  · exact (List.nodup_cons.mp htail).1 (List.mem_map.mpr ⟨q, hq, heq⟩)

/-- A front that no write of a log concerns keeps its rows. -/
theorem sameFront_untouched {f : LbFrontKey} (h : ∀ w ∈ log, w.1.front ≠ f) : SameFront f (storeAfter s log) s := by
  have hnone : FrontLog.of f log = [] :=
    List.filter_eq_nil_iff.mpr fun w hw hf => h w hw (of_decide_eq_true hf)
  have hsame := storeAfter_of f s log
  rwa [hnone] at hsame

variable {order : IterationOrder LbFrontKey} {desired : Table LbFrontKey DesiredFront} {pruneAbsent : Bool}
  {keepPrevious : Finset LbFrontKey}

/-- Some steps of a plan that is not refused are accounted for, where nothing was written to its front before. -/
theorem Accounted.runFrontPlan (hdel : ∀ log w, w.isDelete = true → fails log w = none)
    {p : FrontPlan} (hp : p ∈ planFrontWrites s.metas s.endpoints desired pruneAbsent keepPrevious order)
    (h : Accounted s cap log used) (hfresh : ∀ w ∈ log, w.1.front ≠ p.front)
    (hroom : capacityShortfall p (s.metas.lookup p.front).isSome used cap = none) {steps : List FrontWrite}
    (hsteps : steps <+: p.steps) :
    Accounted s cap
      (Beep.runFrontPlan (trackedWrite (issueWrite fails) (s.metas.lookup p.front)) { p with steps }
        (log, used, false)).1.1
      (Beep.runFrontPlan (trackedWrite (issueWrite fails) (s.metas.lookup p.front)) { p with steps }
        (log, used, false)).1.2.1 := by
  have hown : ∀ w ∈ p.steps, w.front = p.front := fun w hw => front_of_mem_steps hp hw
  have hlands : LandsAll (s.metas.lookup p.front).isSome (storeAfter s log) p.steps := by
    obtain ⟨hmeta, hrows⟩ := sameFront_untouched (s := s) hfresh
    refine LandsAll.congr hown ⟨hmeta.symm, fun k hk => (hrows k hk).symm⟩ ?_
    rw [(mem_planFrontWrites.mp hp).2.1]
    exact landsAll_planFrontSteps p.front
  have hlandsSteps := LandsAll.of_prefix hlands hsteps
  have hroomSteps := HasRoom.of_prefix (capacityShortfall_eq_none_iff.mp hroom) hsteps
  refine h.runSteps hdel (fun w hw => ?_) false hlandsSteps hroomSteps
  rw [hown w (hsteps.subset hw)]

/-- **The invariant of the pass**: the books are kept, and what was issued concerns the fronts of the plans run. -/
theorem passState_accounted (hs : s.usage.Within cap) (hdel : ∀ log w, w.isDelete = true → fails log w = none)
    (hplans : plans = planFrontWrites s.metas s.endpoints desired pruneAbsent keepPrevious order) (n : Nat) :
    Accounted s cap (passState fails s.metas cap plans s.usage n).1 (passState fails s.metas cap plans s.usage n).2.1 ∧
      ∀ w ∈ (passState fails s.metas cap plans s.usage n).1, ∃ q ∈ plans.take n, w.1.front = q.front := by
  have hnodup : (plans.map FrontPlan.front).Nodup := by
    rw [hplans]
    exact nodup_planFrontWrites order
  have hown : ∀ p ∈ plans, ∀ w ∈ p.steps, w.front = p.front := by
    rw [hplans]
    exact fun p hp w hw => front_of_mem_steps hp hw
  constructor
  · induction n with
    | zero => exact accounted_start hs
    | succ n ih =>
      cases hp : plans[n]? with
      | none =>
        have hstay : passState fails s.metas cap plans s.usage (n + 1) = passState fails s.metas cap plans s.usage n := by
          unfold passState
          rw [List.take_add_one, hp, Option.toList_none, List.append_nil]
        rw [hstay]
        exact ih
      | some p =>
        rw [passState_succ hp]
        have hfresh : ∀ w ∈ (passState fails s.metas cap plans s.usage n).1, w.1.front ≠ p.front := by
          intro w hw
          rcases mem_foldl_runOnePlan (fun q hq => hown q (List.take_subset n plans hq)) _ hw with hw | ⟨q, hq, hwq⟩
          · cases hw
          · rw [hwq]
            exact (fronts_differ hnodup hp).1 q hq
        have hmem : p ∈ planFrontWrites s.metas s.endpoints desired pruneAbsent keepPrevious order := by
          rw [← hplans]
          exact List.mem_of_getElem? hp
        revert ih hfresh
        obtain ⟨log, used, applied⟩ := passState fails s.metas cap plans s.usage n
        intro ih hfresh
        simp only [runOnePlan]
        cases hcap : capacityShortfall p (s.metas.lookup p.front).isSome used cap with
        | some refused => exact ih
        | none => exact ih.runFrontPlan hdel hmem hfresh hcap List.prefix_rfl
  · intro w hw
    rcases mem_foldl_runOnePlan (fun q hq => hown q (List.take_subset n plans hq)) _ hw with hw | hw
    · cases hw
    · exact hw

/-- The maps are within the caps after every write of a log whose writes fit. -/
theorem within_of_fits (hs : s.usage.Within cap)
    (h : Along FrontStore.issue (fun t w => (t.apply w.1).usage.Within cap) s log) {before : FrontLog}
    (hp : before <+: log) : (storeAfter s before).usage.Within cap := by
  induction before using List.reverseRecOn with
  | nil => exact hs
  | append_singleton before w ih =>
    obtain ⟨after, hafter⟩ := hp
    rw [List.append_assoc] at hafter
    have hfits := along_iff.mp h before w after hafter.symm
    rw [storeAfter_concat]
    unfold FrontStore.issue
    split
    · exact hfits
    · exact ih ⟨_, hafter⟩

/-- **The caps hold, and nothing is under-counted.** From maps within their caps, in a pass none of whose deletes
    fails: at every write that is issued, whether it succeeds or not, the maps are within the caps with it, so none can
    be turned away for want of room; the count the executor holds covers what the maps hold, wherever it stands; and a
    plan that is refused issues nothing, and the rows of its front are at the end what they were. -/
theorem applyFronts_within_caps (hs : s.usage.Within cap)
    (hdel : ∀ log w, w.isDelete = true → fails log w = none) :
    let plans := planFrontWrites s.metas s.endpoints desired pruneAbsent keepPrevious order
    let log := (applyFronts fails order s desired pruneAbsent keepPrevious cap).1
    (∀ before w ok, before ++ [(w, ok)] <+: log →
      ((storeAfter s before).apply w).usage.Within cap ∧ (storeAfter s (before ++ [(w, ok)])).usage.Within cap) ∧
    (∀ reached used, PassPoint fails s.metas cap plans s.usage reached used →
      used.Covers (storeAfter s reached).usage) ∧
    ∀ n p, plans[n]? = some p →
      capacityShortfall p (s.metas.lookup p.front).isSome (passState fails s.metas cap plans s.usage n).2.1 cap ≠ none →
        (passState fails s.metas cap plans s.usage (n + 1)).1 = (passState fails s.metas cap plans s.usage n).1 ∧
          (∀ w ∈ log, w.1.front ≠ p.front) ∧ SameFront p.front (storeAfter s log) s := by
  intro plans log
  have hnodup : (plans.map FrontPlan.front).Nodup := nodup_planFrontWrites order
  have hown : ∀ p ∈ plans, ∀ w ∈ p.steps, w.front = p.front := fun p hp w hw => front_of_mem_steps hp hw
  have hinv := fun n => (passState_accounted hs hdel (rfl : plans = _) n)
  have hlog : log = (passState fails s.metas cap plans s.usage plans.length).1 := by
    unfold passState
    rw [List.take_length]
    rfl
  have hfresh : ∀ {n : Nat} {p : FrontPlan}, plans[n]? = some p →
      ∀ w ∈ (passState fails s.metas cap plans s.usage n).1, w.1.front ≠ p.front := by
    intro n p hp w hw
    obtain ⟨q, hq, hwq⟩ := (hinv n).2 w hw
    rw [hwq]
    exact (fronts_differ hnodup hp).1 q hq
  refine ⟨?_, ?_, ?_⟩
  · -- what the whole pass keeps, read at the write
    have hfits := (hinv plans.length).1.fits
    rw [← hlog] at hfits
    intro before w ok hprefix
    refine ⟨?_, within_of_fits hs hfits hprefix⟩
    obtain ⟨after, hafter⟩ := hprefix
    rw [List.append_assoc] at hafter
    exact along_iff.mp hfits before (w, ok) after hafter.symm
  · intro reached used hpoint
    cases hpoint with
    | between n => exact (hinv n).1.covers
    | inside n steps hp hroom hrun =>
      have hacc := (hinv n).1.runFrontPlan hdel (List.mem_of_getElem? hp) (hfresh hp) hroom (List.take_prefix steps _)
      rw [hrun] at hacc
      exact hacc.covers
  · intro n p hp hrefused
    have hstay : (passState fails s.metas cap plans s.usage (n + 1)).1 =
        (passState fails s.metas cap plans s.usage n).1 := by
      rw [passState_succ hp]
      simp only [runOnePlan]
      split
      · rfl
      · rename_i hnone
        exact absurd hnone hrefused
    have huntouched : ∀ w ∈ log, w.1.front ≠ p.front := by
      intro w hw
      have hsplit : log = ((plans.drop (n + 1)).foldl (runOnePlan (issueWrite fails) s.metas cap)
          (passState fails s.metas cap plans s.usage (n + 1))).1 := by
        unfold passState
        rw [← List.foldl_append, List.take_append_drop]
        rfl
      rw [hsplit] at hw
      rcases mem_foldl_runOnePlan (fun q hq => hown q (List.drop_subset (n + 1) plans hq)) _ hw with hw | ⟨q, hq, hwq⟩
      · rw [hstay] at hw
        exact hfresh hp w hw
      · rw [hwq]
        exact (fronts_differ hnodup hp).2 q hq
    exact ⟨hstay, huntouched, sameFront_untouched huntouched⟩

end

/-- The caps leave room for one row beside the two that are there; the second put fails. -/
theorem applyFronts_within_caps_one_spare :
    let fails := fun (log : FrontLog) (w : FrontWrite) =>
      if w.isDelete then none else if log.length = 2 then some (MapError.other "") else none
    let log := (applyFronts fails .asStored wrapStore sampleDesired true ∅ ⟨1, 3⟩).1
    wrapStore.usage.Within ⟨1, 3⟩ ∧ log.map Prod.snd = [true, true, false] ∧
      ∀ before w ok, before ++ [(w, ok)] <+: log → ((storeAfter wrapStore before).apply w).usage.Within ⟨1, 3⟩ := by
  intro fails log
  have hs : wrapStore.usage.Within ⟨1, 3⟩ := ⟨by decide, by decide⟩
  have hdel : ∀ log w, w.isDelete = true → fails log w = none := fun log w hw => if_pos hw
  refine ⟨hs, by decide, fun before w ok hprefix => ?_⟩
  exact ((applyFronts_within_caps hs hdel).1 before w ok hprefix).1

end Beep
