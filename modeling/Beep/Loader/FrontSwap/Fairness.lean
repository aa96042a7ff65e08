import Beep.Lib.StableSort
import Beep.Loader.FrontSwap.Capacity

/-!
# `Loader.FrontSwap.Fairness` — what a pass frees, and who gets it

The plans of a pass are ordered by what they do to the endpoint rows, so that what one front frees is there for the
next. The other map is not looked at. What a plan does to `FRONT_META` is a matter of its front alone
(`metaChange`): a new front adds a row, a pruned one frees one. A pruned front without endpoint rows is ordered
among the fronts that keep their number of rows, by its key, and so behind a new front that wants the row it frees.

`freesInTime_iff` says when that goes well.
-/

namespace Beep

open Peak

/-- The two front maps. -/
inductive FrontMap where
  | metas
  | endpoints
  deriving DecidableEq

/-- What `capacity_shortfall` calls a map. -/
def FrontMap.name : FrontMap → String
  | .metas => "FRONT_META"
  | .endpoints => "FRONT_ENDPOINTS"

/-- What a plan does to the number of rows of a map. -/
def FrontMap.net (had : Bool) (p : FrontPlan) : FrontMap → Int
  | .metas => Peak.net (FrontWrite.metaDelta had) p.steps
  | .endpoints => Peak.net FrontWrite.endpointDelta p.steps

/-- The map that `capacity_shortfall` finds too full for a plan. -/
def shortMap (p : FrontPlan) (had : Bool) (used : FrontUsage) (cap : FrontCapacity) : Option FrontMap :=
  if used.endpoints + (planEffect p had).2.1 > cap.endpoints.toNat then some .endpoints
  else if used.metas + (planEffect p had).2.2 > cap.metas.toNat then some .metas
  else none

/-- The refusal names the map, what the plan needs of it and what is used. -/
theorem capacityShortfall_eq (p : FrontPlan) (had : Bool) (used : FrontUsage) (cap : FrontCapacity) :
    capacityShortfall p had used cap = (shortMap p had used cap).map fun m =>
      match m with
      | .endpoints => shortfall m.name (planEffect p had).2.1 used.endpoints cap.endpoints
      | .metas => shortfall m.name (planEffect p had).2.2 used.metas cap.metas := by
  unfold capacityShortfall shortMap
  simp only
  split
  · rfl
  · split <;> rfl

theorem shortMap_eq_none_iff {p : FrontPlan} {had : Bool} {used : FrontUsage} {cap : FrontCapacity} :
    shortMap p had used cap = none ↔ HasRoom used cap had p.steps := by
  rw [← capacityShortfall_eq_none_iff, capacityShortfall_eq, Option.map_eq_none_iff]

theorem shortMap_eq_endpoints_iff {p : FrontPlan} {had : Bool} {used : FrontUsage} {cap : FrontCapacity} :
    shortMap p had used cap = some .endpoints ↔
      (cap.endpoints.toNat : Int) < used.endpoints + peak FrontWrite.endpointDelta p.steps := by
  have hpos := @peak_nonneg _ FrontWrite.endpointDelta p.steps
  unfold shortMap
  rw [planEffect_eq]
  simp only
  constructor
  · intro h
    split at h
    · omega
    · split at h <;> cases h
  · intro h
    rw [if_pos (by omega)]

theorem shortMap_eq_metas_iff {p : FrontPlan} {had : Bool} {used : FrontUsage} {cap : FrontCapacity} :
    shortMap p had used cap = some .metas ↔
      used.endpoints + peak FrontWrite.endpointDelta p.steps ≤ cap.endpoints.toNat ∧
        (cap.metas.toNat : Int) < used.metas + peak (FrontWrite.metaDelta had) p.steps := by
  have hposE := @peak_nonneg _ FrontWrite.endpointDelta p.steps
  have hposM := @peak_nonneg _ (FrontWrite.metaDelta had) p.steps
  unfold shortMap
  rw [planEffect_eq]
  simp only
  constructor
  · intro h
    split at h
    · cases h
    · split at h
      · constructor <;> omega
      · cases h
  · rintro ⟨hE, hM⟩
    rw [if_neg (by omega), if_pos (by omega)]

/-! ## What a plan does to the two maps -/

/-- What a pass does to the number of `FRONT_META` rows for a front: a new one adds a row, a pruned one frees one. -/
def metaChange (s : FrontStore) (desired : Table LbFrontKey DesiredFront) (pruneAbsent : Bool) (f : LbFrontKey) :
    Int :=
  if (desired.lookup f).isSome then if (s.metas.lookup f).isSome then 0 else 1
  else if pruneAbsent && (s.metas.lookup f).isSome then -1 else 0

section
variable {s : FrontStore} {desired : Table LbFrontKey DesiredFront} {pruneAbsent : Bool}
  {keepPrevious : Finset LbFrontKey} {order : IterationOrder LbFrontKey}

theorem endpointDelta_deletes (ks : List FrontEndpointKey) :
    ∀ w ∈ ks.map FrontWrite.deleteEndpoint, w.endpointDelta ≤ 0 := by
  intro w hw
  obtain ⟨k, _, rfl⟩ := List.mem_map.mp hw
  exact Int.neg_nonpos_of_nonneg (Int.zero_le_ofNat 1)

/-- A plan deletes endpoint rows before it puts any, and a prune puts none. -/
theorem endpoint_deletes_first (f : LbFrontKey) :
    ∃ before after, planFrontSteps s.metas s.endpoints desired pruneAbsent keepPrevious f = before ++ after ∧
      (∀ w ∈ before, w.endpointDelta ≤ 0) ∧ (∀ w ∈ after, 0 ≤ w.endpointDelta) ∧
      (desired.lookup f = none → after = []) := by
  rcases @planFrontSteps_cases s.metas s.endpoints desired pruneAbsent keepPrevious f with
    ⟨hd, _, hsteps⟩ | ⟨hd, _, hsteps⟩ | ⟨want, m, hd, _, hsteps⟩ | ⟨want, hd, hsteps⟩ <;> rw [hsteps]
  · exact ⟨[], [], rfl, fun w hw => absurd hw List.not_mem_nil, fun w hw => absurd hw List.not_mem_nil, fun _ => rfl⟩
  · refine ⟨_, [], (List.append_nil _).symm, fun w hw => ?_, fun w hw => absurd hw List.not_mem_nil, fun _ => rfl⟩
    rcases List.mem_append.mp hw with hw | hw
    · split at hw
      · rw [List.mem_singleton.mp hw]
        exact Int.le_refl 0
      · cases hw
    · exact endpointDelta_deletes _ w hw
  · refine ⟨_, _, rfl, endpointDelta_deletes _, fun w hw => ?_, fun h => absurd (hd.symm.trans h) (Option.some_ne_none _)⟩
    split at hw
    · rw [List.mem_singleton.mp hw]
      exact Int.le_refl 0
    · cases hw
  · refine ⟨_, _, List.append_assoc .., endpointDelta_deletes _, fun w hw => ?_,
      fun h => absurd (hd.symm.trans h) (Option.some_ne_none _)⟩
    rcases List.mem_append.mp hw with hw | hw
    · obtain ⟨e, _, rfl⟩ := List.mem_map.mp hw
      exact Int.zero_le_ofNat 1
    · rw [List.mem_singleton.mp hw]
      exact Int.le_refl 0

/-- What a plan does to `FRONT_META`, and the room it wants there. -/
theorem meta_effect (f : LbFrontKey) :
    net (FrontWrite.metaDelta (s.metas.lookup f).isSome)
        (planFrontSteps s.metas s.endpoints desired pruneAbsent keepPrevious f) = metaChange s desired pruneAbsent f ∧
      peak (FrontWrite.metaDelta (s.metas.lookup f).isSome)
        (planFrontSteps s.metas s.endpoints desired pruneAbsent keepPrevious f) =
          max 0 (metaChange s desired pruneAbsent f) := by
  have hdeletes : ∀ ks : List FrontEndpointKey, ∀ w ∈ ks.map FrontWrite.deleteEndpoint,
      w.metaDelta (s.metas.lookup f).isSome = 0 := by
    intro ks w hw
    obtain ⟨k, _, rfl⟩ := List.mem_map.mp hw
    rfl
  have hnone : ∀ {l : List FrontWrite}, (∀ w ∈ l, w.metaDelta (s.metas.lookup f).isSome = 0) → ∀ l',
      net (FrontWrite.metaDelta (s.metas.lookup f).isSome) (l ++ l') =
          net (FrontWrite.metaDelta (s.metas.lookup f).isSome) l' ∧
        peak (FrontWrite.metaDelta (s.metas.lookup f).isSome) (l ++ l') =
          peak (FrontWrite.metaDelta (s.metas.lookup f).isSome) l' := by
    intro l hl l'
    have hpos := @peak_nonneg _ (FrontWrite.metaDelta (s.metas.lookup f).isSome) l'
    rw [net_append, peak_append, net_eq_zero hl, peak_of_nonpos fun w hw => (hl w hw).le]
    constructor <;> omega
  unfold metaChange
  rcases @planFrontSteps_cases s.metas s.endpoints desired pruneAbsent keepPrevious f with
    ⟨hd, hprune, hsteps⟩ | ⟨hd, hprune, hsteps⟩ | ⟨want, m, hd, hlive, hsteps⟩ | ⟨want, hd, hsteps⟩ <;> rw [hsteps, hd]
  · rw [hprune]
    exact ⟨rfl, rfl⟩
  · unfold pruneSteps
    rw [hprune]
    have hnet := net_eq_zero (hdeletes (endpointsOf s.endpoints f))
    have hpeak := peak_of_nonpos fun w hw => (hdeletes (endpointsOf s.endpoints f) w hw).le
    cases hlive : (s.metas.lookup f).isSome with
    | false =>
      rw [hlive] at hnet hpeak
      exact ⟨hnet, hpeak⟩
    | true =>
      rw [hlive] at hnet hpeak
      refine ⟨?_, ?_⟩
      · show -1 + net _ ((endpointsOf s.endpoints f).map FrontWrite.deleteEndpoint) = -1
        rw [hnet]
        rfl
      · show max 0 (-1 + peak _ ((endpointsOf s.endpoints f).map FrontWrite.deleteEndpoint)) = _
        rw [hpeak]
        rfl
  · have hzero : ∀ w ∈ refreshSteps (endpointsOf s.endpoints f) f want m (f ∈ keepPrevious),
        w.metaDelta (s.metas.lookup f).isSome = 0 := by
      intro w hw
      rcases List.mem_append.mp hw with hw | hw
      · exact hdeletes _ w hw
      · split at hw
        · rw [List.mem_singleton.mp hw, hlive]
          rfl
        · cases hw
    rw [net_eq_zero hzero, peak_of_nonpos fun w hw => (hzero w hw).le, hlive]
    exact ⟨rfl, rfl⟩
  · have hquiet : ∀ (ks : List FrontEndpointKey) (es : List (FrontEndpoint × Nat)) (g : UInt32),
        ∀ w ∈ ks.map FrontWrite.deleteEndpoint ++ es.map fun e => FrontWrite.putEndpoint (endpointKey f g e.2) e.1,
          w.metaDelta (s.metas.lookup f).isSome = 0 := by
      intro ks es g w hw
      rcases List.mem_append.mp hw with hw | hw
      · exact hdeletes _ w hw
      · obtain ⟨e, _, rfl⟩ := List.mem_map.mp hw
        rfl
    unfold swapSteps
    obtain ⟨hnet, hpeak⟩ := hnone (hquiet ((endpointsOf s.endpoints f).filter _) want.endpoints.zipIdx _) _
    refine ⟨hnet.trans ?_, hpeak.trans ?_⟩ <;> cases (s.metas.lookup f).isSome <;> rfl

/-- A front that frees a row of `FRONT_META` is pruned. -/
theorem absent_of_metaChange_neg {f : LbFrontKey} (h : metaChange s desired pruneAbsent f < 0) :
    desired.lookup f = none := by
  unfold metaChange at h
  split at h
  · split at h <;> omega
  · rename_i hd
    exact Option.not_isSome_iff_eq_none.mp hd

/-! ## The plans of a pass -/

/-- The plans are in the order of what they do to the endpoint rows. -/
theorem pairwise_planFrontWrites :
    (planFrontWrites s.metas s.endpoints desired pruneAbsent keepPrevious order).Pairwise fun p q =>
      net FrontWrite.endpointDelta p.steps ≤ net FrontWrite.endpointDelta q.steps := by
  unfold planFrontWrites
  refine StableSort.pairwise_insertionSort_of_rank (fun p q h => ?_) (fun p q h => ?_) _
  · simp only [planOrdering, planEffect_eq] at h
    by_contra hlt
    rw [Int.compare_eq_gt.mpr (by omega)] at h
    cases h
  · simp only [planOrdering, planEffect_eq] at h
    by_contra hlt
    rw [Int.compare_eq_lt.mpr (by omega)] at h
    exact h rfl

variable {plans before after : List FrontPlan} {p : FrontPlan}

theorem endpoint_peak (hp : p ∈ planFrontWrites s.metas s.endpoints desired pruneAbsent keepPrevious order) :
    peak FrontWrite.endpointDelta p.steps = max 0 (net FrontWrite.endpointDelta p.steps) := by
  obtain ⟨before, after, hsteps, hbefore, hafter, _⟩ :=
    @endpoint_deletes_first s desired pruneAbsent keepPrevious p.front
  rw [(mem_planFrontWrites.mp hp).2.1, hsteps]
  exact peak_of_deletes_first hbefore hafter

/-- A plan that frees a row of `FRONT_META` adds no endpoint row. -/
theorem endpoint_net_nonpos
    (hp : p ∈ planFrontWrites s.metas s.endpoints desired pruneAbsent keepPrevious order)
    (hfrees : metaChange s desired pruneAbsent p.front < 0) : net FrontWrite.endpointDelta p.steps ≤ 0 := by
  obtain ⟨before, after, hsteps, hbefore, _, hafter⟩ :=
    @endpoint_deletes_first s desired pruneAbsent keepPrevious p.front
  rw [(mem_planFrontWrites.mp hp).2.1, hsteps, hafter (absent_of_metaChange_neg hfrees), List.append_nil]
  exact net_nonpos hbefore

theorem plan_meta_effect
    (hp : p ∈ planFrontWrites s.metas s.endpoints desired pruneAbsent keepPrevious order) :
    net (FrontWrite.metaDelta (s.metas.lookup p.front).isSome) p.steps = metaChange s desired pruneAbsent p.front ∧
      peak (FrontWrite.metaDelta (s.metas.lookup p.front).isSome) p.steps =
        max 0 (metaChange s desired pruneAbsent p.front) := by
  rw [(mem_planFrontWrites.mp hp).2.1]
  exact meta_effect p.front

/-! ## A pass in which no write fails -/

/-- No write fails. -/
def neverFails : FrontLog → FrontWrite → Option MapError := fun _ _ => none

/-- What the executor counts behind some plans, when no write fails. -/
def usedBehind (s : FrontStore) (cap : FrontCapacity) (before : List FrontPlan) : FrontUsage :=
  (before.foldl (runOnePlan (issueWrite neverFails) s.metas cap) ([], s.usage, {})).2.1

/-- The map that is too full for a plan when its turn comes. -/
def shortBehind (s : FrontStore) (cap : FrontCapacity) (before : List FrontPlan) (p : FrontPlan) : Option FrontMap :=
  shortMap p (s.metas.lookup p.front).isSome (usedBehind s cap before) cap

/-- A plan then runs whole. -/
theorem runSteps_never (live : Option FrontMeta) (steps : List FrontWrite) (st : FrontLog × FrontUsage × Bool) :
    runSteps (trackedWrite (issueWrite neverFails) live) false st steps =
      ((st.1 ++ steps.map fun w => (w, true), steps.foldl (fun u w => u.apply w live.isSome) st.2.1,
        st.2.2 || steps.any (FrontWrite.commits live)), []) := by
  induction steps generalizing st with
  | nil => simp [runSteps]
  | cons w rest ih =>
    unfold runSteps
    rw [Bool.false_and, if_neg Bool.false_ne_true]
    show runSteps _ false (st.1 ++ [(w, true)], st.2.1.apply w live.isSome, st.2.2 || w.commits live) rest = _
    rw [ih, List.append_assoc, Bool.or_assoc]
    rfl

/-- A plan that is refused is reported. -/
theorem runOnePlan_refused {σ : Type*} {write : σ → FrontWrite → σ × Except MapError Unit}
    {metas : Table LbFrontKey FrontMeta} {cap : FrontCapacity} {st : σ × FrontUsage × FrontApply} {p : FrontPlan}
    {refused : FrontFailure} (h : capacityShortfall p (metas.lookup p.front).isSome st.2.1 cap = some refused) :
    runOnePlan write metas cap st p =
      (st.1, st.2.1, { st.2.2 with failures := st.2.2.failures ++ [(p.front, refused)] }) := by
  unfold runOnePlan
  simp only [h]

/-- A plan that fits runs whole. -/
theorem runOnePlan_ran {metas : Table LbFrontKey FrontMeta} {cap : FrontCapacity}
    {st : FrontLog × FrontUsage × FrontApply} {p : FrontPlan}
    (h : capacityShortfall p (metas.lookup p.front).isSome st.2.1 cap = none) :
    runOnePlan (issueWrite neverFails) metas cap st p =
      (st.1 ++ p.steps.map fun w => (w, true),
        p.steps.foldl (fun u w => u.apply w (metas.lookup p.front).isSome) st.2.1,
        { st.2.2 with swapped := if p.steps.any (FrontWrite.commits (metas.lookup p.front)) then
            st.2.2.swapped ++ [p.front] else st.2.2.swapped }) := by
  unfold runOnePlan
  simp only [h, runFrontPlan, runSteps_never, Bool.false_or, List.map_nil, List.append_nil]

theorem landed_append_done (log : FrontLog) (steps : List FrontWrite) :
    FrontLog.landed (log ++ steps.map fun w => (w, true)) = FrontLog.landed log ++ steps := by
  unfold FrontLog.landed
  rw [List.filter_append, List.map_append, List.filter_map, List.map_map]
  simp [Function.comp_def]

variable {cap : FrontCapacity}

/-- A plan that is refused changes nothing. -/
theorem usedBehind_refused (h : shortBehind s cap before p ≠ none) :
    usedBehind s cap (before ++ [p]) = usedBehind s cap before := by
  unfold usedBehind
  rw [List.foldl_append, List.foldl_cons, List.foldl_nil, runOnePlan]
  simp only
  split
  · rfl
  · rename_i hnone
    rw [capacityShortfall_eq, Option.map_eq_none_iff] at hnone
    exact absurd hnone h

/-- The books are kept behind any of the first plans. -/
theorem accounted_behind (hs : s.usage.Within cap)
    (hp : before <+: planFrontWrites s.metas s.endpoints desired pruneAbsent keepPrevious order) :
    Accounted s cap (before.foldl (runOnePlan (issueWrite neverFails) s.metas cap) ([], s.usage, {})).1
      (usedBehind s cap before) := by
  have hdel : ∀ log w, w.isDelete = true → neverFails log w = none := fun _ _ _ => rfl
  generalize hplans : planFrontWrites s.metas s.endpoints desired pruneAbsent keepPrevious order = plans at hp
  have hinv := (passState_accounted hs hdel hplans.symm before.length).1
  unfold passState at hinv
  rwa [← List.prefix_iff_eq_take.mp hp] at hinv

/-- A plan that is not refused changes what is counted by its net. -/
theorem usedBehind_ran (hs : s.usage.Within cap)
    (hp : before ++ [p] <+: planFrontWrites s.metas s.endpoints desired pruneAbsent keepPrevious order)
    (h : shortBehind s cap before p = none) :
    ((usedBehind s cap (before ++ [p])).endpoints : Int) =
        (usedBehind s cap before).endpoints + net FrontWrite.endpointDelta p.steps ∧
      ((usedBehind s cap (before ++ [p])).metas : Int) =
        (usedBehind s cap before).metas + metaChange s desired pruneAbsent p.front := by
  have hmem : p ∈ planFrontWrites s.metas s.endpoints desired pruneAbsent keepPrevious order :=
    hp.subset (List.mem_append_right _ List.mem_cons_self)
  have hbefore := accounted_behind hs ((List.prefix_append before [p]).trans hp)
  have hafter := accounted_behind hs hp
  -- the log has grown by all of the plan
  have hlog : ((before ++ [p]).foldl (runOnePlan (issueWrite neverFails) s.metas cap) ([], s.usage, {})).1 =
      (before.foldl (runOnePlan (issueWrite neverFails) s.metas cap) ([], s.usage, {})).1
        ++ p.steps.map fun w => (w, true) := by
    have hnone : capacityShortfall p (s.metas.lookup p.front).isSome (usedBehind s cap before) cap = none := by
      rw [capacityShortfall_eq, Option.map_eq_none_iff]
      exact h
    rw [List.foldl_append, List.foldl_cons, List.foldl_nil, runOnePlan_ran hnone]
  have hown : ∀ w ∈ p.steps, w.metaDelta (s.metas.lookup w.front).isSome = w.metaDelta (s.metas.lookup p.front).isSome := by
    intro w hw
    rw [front_of_mem_steps hmem hw]
  have hnetE := hafter.endpoints_eq
  have hnetM := hafter.metas_eq
  rw [hlog, landed_append_done, net_append] at hnetE hnetM
  rw [net_congr hown, (plan_meta_effect hmem).1] at hnetM
  have hstartE := hbefore.endpoints_eq
  have hstartM := hbefore.metas_eq
  constructor <;> omega

/-- Where a map is above its cap, nothing is run. -/
theorem usedBehind_of_not_within (hs : ¬s.usage.Within cap) (before : List FrontPlan) :
    usedBehind s cap before = s.usage := by
  induction before using List.reverseRecOn with
  | nil => rfl
  | append_singleton before p ih =>
    rw [usedBehind_refused, ih]
    intro hran
    obtain ⟨hroomE, hroomM⟩ := shortMap_eq_none_iff.mp hran
    rw [ih] at hroomE hroomM
    have hposE := @peak_nonneg _ FrontWrite.endpointDelta p.steps
    have hposM := @peak_nonneg _ (FrontWrite.metaDelta (s.metas.lookup p.front).isSome) p.steps
    exact hs ⟨by omega, by omega⟩

/-- Endpoint rows within their cap stay within it. -/
theorem usedBehind_endpoints_le (hE : s.usage.endpoints ≤ cap.endpoints.toNat)
    (hp : before <+: planFrontWrites s.metas s.endpoints desired pruneAbsent keepPrevious order) :
    (usedBehind s cap before).endpoints ≤ cap.endpoints.toNat := by
  by_cases hs : s.usage.Within cap
  · exact (accounted_behind hs hp).within.endpoints
  · rw [usedBehind_of_not_within hs]
    exact hE

/-- A plan does no more to the endpoint rows than one behind it. -/
theorem endpoint_net_le_of_behind {q : FrontPlan}
    (hsplit : planFrontWrites s.metas s.endpoints desired pruneAbsent keepPrevious order = before ++ p :: after)
    (hq : q ∈ after) : net FrontWrite.endpointDelta p.steps ≤ net FrontWrite.endpointDelta q.steps := by
  have hsorted := @pairwise_planFrontWrites s desired pruneAbsent keepPrevious order
  rw [hsplit] at hsorted
  exact (List.pairwise_cons.mp (List.pairwise_append.mp hsorted).2.1).1 q hq

variable (s desired pruneAbsent cap) in
/-- There is room in `FRONT_META` for a plan behind others, counting what all of them do to it. -/
def MetaRoom (before : List FrontPlan) (p : FrontPlan) : Prop :=
  s.usage.metas + net (fun q => metaChange s desired pruneAbsent q.front) before
    + max 0 (metaChange s desired pruneAbsent p.front) ≤ cap.metas.toNat

/-- A plan, and one behind it, are plans of the pass. -/
theorem mem_of_split {q : FrontPlan} (hsplit : plans = before ++ p :: after) (hq : q ∈ after) :
    p ∈ plans ∧ q ∈ plans := by
  rw [hsplit]
  exact ⟨List.mem_append_right _ List.mem_cons_self, List.mem_append_right _ (List.mem_cons_of_mem _ hq)⟩

/-- Ahead of a plan that frees a row of `FRONT_META`, plans with room there are all run. -/
theorem usedBehind_of_room (hE : s.usage.endpoints ≤ cap.endpoints.toNat)
    (hsplit : planFrontWrites s.metas s.endpoints desired pruneAbsent keepPrevious order = before ++ after)
    (hfrees : ∃ q ∈ after, metaChange s desired pruneAbsent q.front < 0)
    (hroom : ∀ b r a, before = b ++ r :: a → MetaRoom s desired pruneAbsent cap b r) :
    ((usedBehind s cap before).metas : Int) =
      s.usage.metas + net (fun q => metaChange s desired pruneAbsent q.front) before := by
  -- on the plans, the last one first
  induction before using List.reverseRecOn generalizing after with
  | nil => exact (Int.add_zero _).symm
  | append_singleton b r ih =>
    obtain ⟨q, hq, hqfrees⟩ := hfrees
    have hsplit' : planFrontWrites s.metas s.endpoints desired pruneAbsent keepPrevious order = b ++ r :: after := by
      rw [hsplit, List.append_assoc]
      rfl
    have hprefix : b ++ [r] <+: planFrontWrites s.metas s.endpoints desired pruneAbsent keepPrevious order :=
      ⟨after, hsplit.symm⟩
    obtain ⟨hmem, hqmem⟩ := mem_of_split hsplit' hq
    have hused := ih hsplit' ⟨q, List.mem_cons_of_mem _ hq, hqfrees⟩ fun b' r' a' h =>
      hroom b' r' (a' ++ [r]) (by rw [h, List.append_assoc]; rfl)
    have hroomR := hroom b r [] rfl
    -- the first plan's room shows that the maps are within their caps
    have hs : s.usage.Within cap := by
      refine ⟨?_, hE⟩
      obtain ⟨x, xs, hx⟩ := List.exists_cons_of_ne_nil (List.append_ne_nil_of_right_ne_nil b (List.cons_ne_nil r []))
      have hfirst := hroom [] x xs hx
      unfold MetaRoom at hfirst
      rw [net_nil] at hfirst
      omega
    have hran : shortBehind s cap b r = none := by
      have hnet := (endpoint_net_le_of_behind hsplit' hq).trans (endpoint_net_nonpos hqmem hqfrees)
      have hle := usedBehind_endpoints_le hE ((List.prefix_append b [r]).trans hprefix)
      unfold MetaRoom at hroomR
      refine shortMap_eq_none_iff.mpr ⟨?_, ?_⟩
      · rw [endpoint_peak hmem]
        omega
      · rw [(plan_meta_effect hmem).2]
        omega
    rw [(usedBehind_ran hs hprefix hran).2, hused, net_append, net_cons, net_nil]
    omega

variable (order s desired pruneAbsent keepPrevious cap) in
/-- **What is freed is not missed**: behind a plan that is refused because a map has no room, no plan frees a row of
    that map. -/
def FreesInTime : Prop :=
  ∀ before p after m,
    planFrontWrites s.metas s.endpoints desired pruneAbsent keepPrevious order = before ++ p :: after →
      shortBehind s cap before p = some m → ∀ q ∈ after, 0 ≤ m.net (s.metas.lookup q.front).isSome q

variable (order s desired pruneAbsent keepPrevious cap) in
/-- Nothing that is freed is freed too late. Where `FRONT_ENDPOINTS` is within its cap, the question is whether
    `FRONT_META` has room for every plan ahead of a front that frees a row of it; maps above their cap are not
    met in the kernel, and nothing is run on them. -/
def FreedEarlyEnough : Prop :=
  (s.usage.endpoints ≤ cap.endpoints.toNat → ∀ before p after,
    planFrontWrites s.metas s.endpoints desired pruneAbsent keepPrevious order = before ++ p :: after →
      (∃ q ∈ after, metaChange s desired pruneAbsent q.front < 0) → MetaRoom s desired pruneAbsent cap before p) ∧
  (cap.endpoints.toNat < s.usage.endpoints →
    ∀ p ∈ planFrontWrites s.metas s.endpoints desired pruneAbsent keepPrevious order,
      ∀ q ∈ planFrontWrites s.metas s.endpoints desired pruneAbsent keepPrevious order,
        net FrontWrite.endpointDelta p.steps < 0 → net FrontWrite.endpointDelta q.steps < 0 → p = q)

/-- Two plans of a pass are one behind the other. -/
theorem behind_or_behind {l : List FrontPlan} {p q : FrontPlan} (hp : p ∈ l) (hq : q ∈ l) (hne : p ≠ q) :
    (∃ before after, l = before ++ p :: after ∧ q ∈ after) ∨ ∃ before after, l = before ++ q :: after ∧ p ∈ after := by
  obtain ⟨before, after, rfl⟩ := List.append_of_mem hp
  rcases List.mem_append.mp hq with hq | hq
  · obtain ⟨b, b', rfl⟩ := List.append_of_mem hq
    exact Or.inr ⟨b, b' ++ p :: after, List.append_assoc .., List.mem_append_right _ List.mem_cons_self⟩
  · exact Or.inl ⟨before, after, rfl, (List.mem_cons.mp hq).resolve_left hne.symm⟩

theorem shortBehind_of_above (hE : cap.endpoints.toNat < s.usage.endpoints) (before : List FrontPlan) (p : FrontPlan) :
    shortBehind s cap before p = some .endpoints := by
  have hnot : ¬s.usage.Within cap := fun h => absurd h.endpoints (Nat.not_le.mpr hE)
  have hpos := @peak_nonneg _ FrontWrite.endpointDelta p.steps
  refine shortMap_eq_endpoints_iff.mpr ?_
  rw [usedBehind_of_not_within hnot]
  omega

/-- Where nothing that is freed is missed, there is room ahead of a plan that frees a row of `FRONT_META`. -/
theorem metaRoom_of_freesInTime (hfair : FreesInTime s desired pruneAbsent keepPrevious order cap)
    (hE : s.usage.endpoints ≤ cap.endpoints.toNat) (before : List FrontPlan) (p : FrontPlan) (after : List FrontPlan)
    (hsplit : planFrontWrites s.metas s.endpoints desired pruneAbsent keepPrevious order = before ++ p :: after)
    (hfrees : ∃ q ∈ after, metaChange s desired pruneAbsent q.front < 0) : MetaRoom s desired pruneAbsent cap before p := by
  -- on the number of plans ahead: those ahead of them are all run
  induction hlen : before.length using Nat.strong_induction_on generalizing before p after with
  | _ n ih =>
    subst hlen
    have hahead : ∀ b r a, before = b ++ r :: a → MetaRoom s desired pruneAbsent cap b r := by
      rintro b r a rfl
      obtain ⟨q, hq, hqfrees⟩ := hfrees
      refine ih b.length (by simp) b r (a ++ p :: after) (hsplit.trans (by simp)) ⟨q, ?_, hqfrees⟩ rfl
      exact List.mem_append_right _ (List.mem_cons_of_mem _ hq)
    obtain ⟨q, hq, hqfrees⟩ := hfrees
    have hused := usedBehind_of_room hE hsplit ⟨q, List.mem_cons_of_mem _ hq, hqfrees⟩ hahead
    obtain ⟨hmem, hqmem⟩ := mem_of_split hsplit hq
    have hnet := (endpoint_net_le_of_behind hsplit hq).trans (endpoint_net_nonpos hqmem hqfrees)
    have hle := usedBehind_endpoints_le hE ⟨p :: after, hsplit.symm⟩
    -- a plan without room would be refused for `FRONT_META`, with a freed row behind it
    by_contra hfull
    unfold MetaRoom at hfull
    have hshort : shortBehind s cap before p = some .metas := by
      refine shortMap_eq_metas_iff.mpr ⟨?_, ?_⟩
      · rw [endpoint_peak hmem]
        omega
      · rw [(plan_meta_effect hmem).2]
        omega
    have hkept := hfair before p after .metas hsplit hshort q hq
    simp only [FrontMap.net, (plan_meta_effect hqmem).1] at hkept
    omega

/-- Above the cap nothing is run, so of two plans that free rows one is refused ahead of the other. -/
theorem frees_once_of_freesInTime (hfair : FreesInTime s desired pruneAbsent keepPrevious order cap)
    (hE : cap.endpoints.toNat < s.usage.endpoints) {p q : FrontPlan}
    (hp : p ∈ planFrontWrites s.metas s.endpoints desired pruneAbsent keepPrevious order)
    (hq : q ∈ planFrontWrites s.metas s.endpoints desired pruneAbsent keepPrevious order)
    (hpneg : net FrontWrite.endpointDelta p.steps < 0) (hqneg : net FrontWrite.endpointDelta q.steps < 0) : p = q := by
  by_contra hne
  rcases behind_or_behind hp hq hne with ⟨before, after, hsplit, hbehind⟩ | ⟨before, after, hsplit, hbehind⟩
  · have hkept := hfair before p after .endpoints hsplit (shortBehind_of_above hE before p) q hbehind
    simp only [FrontMap.net] at hkept
    omega
  · have hkept := hfair before q after .endpoints hsplit (shortBehind_of_above hE before q) p hbehind
    simp only [FrontMap.net] at hkept
    omega

/-- No plan behind one that is refused for `FRONT_ENDPOINTS` frees a row of it. -/
theorem endpoints_in_time (h : FreedEarlyEnough s desired pruneAbsent keepPrevious order cap) {q : FrontPlan}
    (hsplit : planFrontWrites s.metas s.endpoints desired pruneAbsent keepPrevious order = before ++ p :: after)
    (hshort : shortBehind s cap before p = some .endpoints) (hq : q ∈ after) :
    0 ≤ net FrontWrite.endpointDelta q.steps := by
  obtain ⟨hmem, hqmem⟩ := mem_of_split hsplit hq
  have hle := endpoint_net_le_of_behind hsplit hq
  by_contra hneg
  by_cases hE : cap.endpoints.toNat < s.usage.endpoints
  · obtain rfl := h.2 hE p hmem q hqmem (by omega) (by omega)
    have hnodup := @nodup_planFrontWrites s.metas s.endpoints desired pruneAbsent keepPrevious order
    rw [hsplit, List.map_append, List.map_cons] at hnodup
    exact (List.nodup_cons.mp (List.nodup_append.mp hnodup).2.1).1 (List.mem_map_of_mem hq)
  · have hused := usedBehind_endpoints_le (Nat.le_of_not_lt hE) ⟨p :: after, hsplit.symm⟩
    have hfull := shortMap_eq_endpoints_iff.mp hshort
    rw [endpoint_peak hmem] at hfull
    omega

/-- No plan behind one that is refused for `FRONT_META` frees a row of it. -/
theorem metas_in_time (h : FreedEarlyEnough s desired pruneAbsent keepPrevious order cap) {q : FrontPlan}
    (hsplit : planFrontWrites s.metas s.endpoints desired pruneAbsent keepPrevious order = before ++ p :: after)
    (hshort : shortBehind s cap before p = some .metas) (hq : q ∈ after) :
    0 ≤ metaChange s desired pruneAbsent q.front := by
  obtain ⟨hmem, -⟩ := mem_of_split hsplit hq
  by_contra hneg
  by_cases hE : cap.endpoints.toNat < s.usage.endpoints
  · rw [shortBehind_of_above hE] at hshort
    cases hshort
  · replace hE := Nat.le_of_not_lt hE
    have hfrees : ∃ q ∈ after, metaChange s desired pruneAbsent q.front < 0 := ⟨q, hq, by omega⟩
    have hused := usedBehind_of_room hE hsplit ⟨q, List.mem_cons_of_mem _ hq, by omega⟩ fun b r a hb => by
      refine h.1 hE b r (a ++ p :: after) (by rw [hsplit, hb]; simp) ⟨q, ?_, by omega⟩
      exact List.mem_append_right _ (List.mem_cons_of_mem _ hq)
    have hroom := h.1 hE before p after hsplit hfrees
    unfold MetaRoom at hroom
    have hfull := (shortMap_eq_metas_iff.mp hshort).2
    rw [(plan_meta_effect hmem).2] at hfull
    omega

/-- **Fairness, exactly.** -/
theorem freesInTime_iff :
    FreesInTime s desired pruneAbsent keepPrevious order cap ↔
      FreedEarlyEnough s desired pruneAbsent keepPrevious order cap := by
  constructor
  · intro hfair
    refine ⟨metaRoom_of_freesInTime hfair, fun hE p hp q hq hpneg hqneg => ?_⟩
    exact frees_once_of_freesInTime hfair hE hp hq hpneg hqneg
  · intro h before p after m hsplit hshort q hq
    cases m with
    | endpoints => exact endpoints_in_time h hsplit hshort hq
    | metas =>
      show 0 ≤ net (FrontWrite.metaDelta (s.metas.lookup q.front).isSome) q.steps
      rw [(plan_meta_effect (mem_of_split hsplit hq).2).1]
      exact metas_in_time h hsplit hshort hq

end

/-! ## A row freed too late -/

/-- A front without endpoints, ordered behind the sample front. -/
def drainedFront : LbFrontKey := { sampleFront with frontPort := 443 }

def drainedStore : FrontStore where
  metas := AList.insert drainedFront { generation := 5, count := 0, flags := 0, localCount := 0, pad := 0 } ∅
  endpoints := ∅

/-- The sample front takes its place, with no endpoint yet. -/
def replacedDesired : Table LbFrontKey DesiredFront :=
  AList.insert sampleFront { flags := 0, preferLocal := false, endpoints := [] } ∅

/-- The new front is refused the only row of `FRONT_META`, which is freed behind it. -/
theorem not_freesInTime_replaced : ¬FreesInTime drainedStore replacedDesired true ∅ .asStored ⟨1, 10⟩ := by
  intro hfair
  have hplans : planFrontWrites drainedStore.metas drainedStore.endpoints replacedDesired true ∅ .asStored =
      [⟨sampleFront, [.putMeta sampleFront { generation := 1, count := 0, flags := 0, localCount := 0, pad := 0 }]⟩,
        ⟨drainedFront, [.deleteMeta drainedFront]⟩] := by decide
  have hkept := hfair [] _ _ .metas hplans (by decide) _ List.mem_cons_self
  exact absurd hkept (by decide)

end Beep
