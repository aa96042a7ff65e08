import Beep.Controller.PinnedMaps
import Beep.Loader.FrontSwap.Capacity
import Beep.Loader.FrontSwap.Converge

/-!
# `Controller.Correctness.PreviousGeneration` — the rows a swap leaves behind

A swap keeps the rows of the generation it replaces, and the passes of the next two seconds do too: the front is in
`held`. After that the hold is reported as expired, and the next pass that names the front deletes the rows. The hold is
one time in a map that every pass filters and extends, so what has to be followed through the passes is that time, the
live generation and the rows of the one before (`Holding`).
-/

namespace Beep

open Run Peak

/-! ## `RecentSwaps` -/

namespace RecentSwaps

variable {swaps : RecentSwaps} {f : LbFrontKey} {now swappedAt : Nat}

/-- `RecentSwaps::expired`. -/
def expired (swaps : RecentSwaps) (now : Nat) : Bool :=
  swaps.values.any fun swappedAt => previousGenerationGrace ≤ now - swappedAt

theorem lookup_inGrace :
    (swaps.inGrace now).lookup f = (swaps.lookup f).filter fun swappedAt => now - swappedAt < previousGenerationGrace := by
  unfold inGrace
  rw [Table.lookup_filter]

/-- A front is held while its swap is less than the grace ago. -/
theorem mem_held :
    f ∈ swaps.held now ↔ ∃ swappedAt, swaps.lookup f = some swappedAt ∧ now - swappedAt < previousGenerationGrace := by
  unfold held
  rw [List.mem_toFinset, Table.mem_keys_iff, lookup_inGrace]
  refine exists_congr fun swappedAt => ?_
  rw [Option.filter_eq_some_iff, decide_eq_true_eq]

/-- What is on record for a front after a pass. -/
theorem lookup_record (swaps : RecentSwaps) (swapped : List LbFrontKey) (now : Nat) (f : LbFrontKey) :
    (swaps.record swapped now).lookup f = if f ∈ swapped then some now else (swaps.inGrace now).lookup f := by
  unfold record
  -- on the fronts that swapped, the last one first
  induction swapped using List.reverseRecOn with
  | nil => rw [List.foldl_nil, if_neg List.not_mem_nil]
  | append_singleton swapped g ih =>
    rw [List.foldl_append, List.foldl_cons, List.foldl_nil, Table.lookup_insert_ite, ih]
    by_cases hf : f = g
    · rw [if_pos hf, if_pos (List.mem_append_right _ (List.mem_singleton.mpr hf))]
    · rw [if_neg hf]
      refine if_congr ?_ rfl rfl
      rw [List.mem_append, List.mem_singleton, or_iff_left hf]

/-- A hold has expired from the end of its grace on. -/
theorem expired_of_lookup (h : swaps.lookup f = some swappedAt) (hnow : swappedAt + previousGenerationGrace ≤ now) :
    swaps.expired now = true := by
  refine List.any_eq_true.mpr ⟨swappedAt, Table.mem_values.mpr ⟨f, h⟩, ?_⟩
  rw [decide_eq_true_eq]
  omega

end RecentSwaps

/-! ## What a pass reports as swapped -/

section
variable {fails : FrontLog → FrontWrite → Option MapError}

/-- The commit flag is set by a commit that succeeded. -/
theorem runSteps_committed (live : Option FrontMeta) (steps : List FrontWrite) (blocked : Bool) (before : FrontLog)
    (st : FrontLog × FrontUsage × Bool)
    (hst : ∀ e ∈ st.1, e.2 = true → e.1.commits live = true → e ∈ before ∨ st.2.2 = true) :
    ∀ e ∈ (runSteps (trackedWrite (issueWrite fails) live) blocked st steps).1.1, e.2 = true →
      e.1.commits live = true →
        e ∈ before ∨ (runSteps (trackedWrite (issueWrite fails) live) blocked st steps).1.2.2 = true := by
  induction steps generalizing blocked st with
  | nil => exact hst
  | cons step rest ih =>
    unfold runSteps
    by_cases hskip : (blocked && step.isPutMeta) = true
    · rw [if_pos hskip]
      exact ih blocked st hst
    · rw [if_neg hskip]
      cases hf : fails st.1 step with
      | none =>
        have hwrite : trackedWrite (issueWrite fails) live st step =
            ((st.1 ++ [(step, true)], st.2.1.apply step live.isSome, st.2.2 || step.commits live), .ok ()) := by
          simp only [trackedWrite, issueWrite, hf]
        rw [hwrite]
        refine ih blocked _ fun e he hok hcommits => ?_
        rcases List.mem_append.mp he with he | he
        · refine (hst e he hok hcommits).imp_right fun hset => ?_
          show (st.2.2 || step.commits live) = true
          rw [hset, Bool.true_or]
        · obtain rfl := List.mem_singleton.mp he
          right
          show (st.2.2 || step.commits live) = true
          rw [hcommits, Bool.or_true]
      | some err =>
        have hwrite : trackedWrite (issueWrite fails) live st step =
            ((st.1 ++ [(step, false)], st.2.1, st.2.2), .error err) := by
          simp only [trackedWrite, issueWrite, hf]
        have hst' : ∀ e ∈ st.1 ++ [(step, false)], e.2 = true → e.1.commits live = true →
            e ∈ before ∨ st.2.2 = true := by
          intro e he hok hcommits
          rcases List.mem_append.mp he with he | he
          · exact hst e he hok hcommits
          · rw [List.mem_singleton.mp he] at hok
            cases hok
        rw [hwrite]
        by_cases hd : step.isDeleteMeta = true
        · simp only [if_pos hd]
          exact hst'
        · simp only [if_neg hd]
          exact ih _ _ hst'

/-- Every commit that succeeded is reported. -/
def SwapsReported (currentMeta : Table LbFrontKey FrontMeta) (st : FrontLog × FrontUsage × FrontApply) : Prop :=
  ∀ e ∈ st.1, e.2 = true → e.1.commits (currentMeta.lookup e.1.front) = true → e.1.front ∈ st.2.2.swapped

variable {currentMeta : Table LbFrontKey FrontMeta} {cap : FrontCapacity}

/-- One plan reports its commit. -/
theorem SwapsReported.runOnePlan {st : FrontLog × FrontUsage × FrontApply} (h : SwapsReported currentMeta st)
    {plan : FrontPlan} (hown : ∀ w ∈ plan.steps, w.front = plan.front) :
    SwapsReported currentMeta (Beep.runOnePlan (issueWrite fails) currentMeta cap st plan) := by
  obtain ⟨before, used, applied⟩ := st
  unfold Beep.runOnePlan
  simp only
  cases hcap : capacityShortfall plan (currentMeta.lookup plan.front).isSome used cap with
  | some refused => exact h
  | none =>
    simp only
    obtain ⟨log, hlog, hissued, -⟩ :=
      runSteps_issuedBy fails (currentMeta.lookup plan.front) plan.steps false (before, used, false)
    have hflag := @runSteps_committed fails (currentMeta.lookup plan.front) plan.steps false before
      (before, used, false) fun e he _ _ => Or.inl he
    intro e he hok hcommits
    show e.1.front ∈ if _ then applied.swapped ++ [plan.front] else applied.swapped
    by_cases hbefore : e ∈ before
    · have hthere := h e hbefore hok hcommits
      split
      · exact List.mem_append_left _ hthere
      · exact hthere
    · -- the plan's own write: of its front
      have hmem : e ∈ before ++ log := by
        rw [← hlog]
        exact he
      have hfront : e.1.front = plan.front :=
        hown e.1 (hissued.mem_steps e ((List.mem_append.mp hmem).resolve_left hbefore))
      rw [hfront] at hcommits ⊢
      have hset := (hflag e he hok hcommits).resolve_left hbefore
      unfold runFrontPlan
      rw [if_pos hset]
      exact List.mem_append_right _ (List.mem_singleton_self _)

/-- So does a pass. -/
theorem swapsReported_foldl {plans : List FrontPlan} (hown : ∀ p ∈ plans, ∀ w ∈ p.steps, w.front = p.front)
    {st : FrontLog × FrontUsage × FrontApply} (h : SwapsReported currentMeta st) :
    SwapsReported currentMeta (plans.foldl (runOnePlan (issueWrite fails) currentMeta cap) st) := by
  induction plans generalizing st with
  | nil => exact h
  | cons plan plans ih =>
    exact ih (fun p hp => hown p (List.mem_cons_of_mem _ hp)) (h.runOnePlan (hown plan List.mem_cons_self))

end

/-! ## A plan that takes no room -/

section
variable {fails : FrontLog → FrontWrite → Option MapError} {order : IterationOrder LbFrontKey} {s : FrontStore}
  {desired : Table LbFrontKey DesiredFront} {pruneAbsent : Bool} {keepPrevious : Finset LbFrontKey} {cap : FrontCapacity}

/-- A plan that adds no row is never refused: its steps are issued. -/
theorem issued_of_peak_zero (hs : s.usage.Within cap) (hdel : ∀ log w, w.isDelete = true → fails log w = none)
    {p : FrontPlan} (hp : p ∈ planFrontWrites s.metas s.endpoints desired pruneAbsent keepPrevious order)
    (hep : peak FrontWrite.endpointDelta p.steps = 0)
    (hmeta : peak (FrontWrite.metaDelta (s.metas.lookup p.front).isSome) p.steps = 0) :
    IssuedBy false p.steps
      (FrontLog.of p.front (applyFronts fails order s desired pruneAbsent keepPrevious cap).1) := by
  let plans := planFrontWrites s.metas s.endpoints desired pruneAbsent keepPrevious order
  obtain ⟨n, hn⟩ := List.mem_iff_getElem?.mp hp
  have hown : ∀ q ∈ plans, ∀ w ∈ q.steps, w.front = q.front := fun q hq w hw => front_of_mem_steps hq hw
  obtain ⟨hbefore, hafter⟩ := fronts_differ (nodup_planFrontWrites order) hn
  obtain ⟨hacc, hconcern⟩ := @passState_accounted _ cap fails plans _ _ _ _ hs hdel rfl n
  -- the log of the pass: what came before the plan, the plan's own, and what came behind it
  have hlog : (applyFronts fails order s desired pruneAbsent keepPrevious cap).1 =
      ((plans.drop (n + 1)).foldl (runOnePlan (issueWrite fails) s.metas cap)
        (passState fails s.metas cap plans s.usage (n + 1))).1 := by
    unfold passState
    rw [← List.foldl_append, List.take_append_drop]
    rfl
  have hfresh : FrontLog.of p.front (passState fails s.metas cap plans s.usage n).1 = [] := by
    refine List.filter_eq_nil_iff.mpr fun w hw hf => ?_
    obtain ⟨q, hq, hwq⟩ := hconcern w hw
    exact hbefore q hq (hwq.symm.trans (of_decide_eq_true hf))
  rw [hlog, passState_succ hn]
  revert hacc hfresh
  obtain ⟨before, used, applied⟩ := passState fails s.metas cap plans s.usage n
  intro hacc hfresh
  have hroom : capacityShortfall p (s.metas.lookup p.front).isSome used cap = none := by
    obtain ⟨hm, he⟩ := hacc.within
    simp only at hm he
    refine capacityShortfall_eq_none_iff.mpr ⟨?_, ?_⟩
    · rw [hep]
      omega
    · rw [hmeta]
      omega
  obtain ⟨own, hownlog, hissued, -⟩ :=
    runSteps_issuedBy fails (s.metas.lookup p.front) p.steps false (before, used, false)
  have hone : (runOnePlan (issueWrite fails) s.metas cap (before, used, applied) p).1 = before ++ own := by
    unfold runOnePlan
    simp only [hroom]
    exact hownlog
  obtain ⟨logs, hlogs, ⟨failed, -, hreported⟩, -⟩ := runOnePlan_foldl_issued fails s.metas cap (plans.drop (n + 1))
    (runOnePlan (issueWrite fails) s.metas cap (before, used, applied) p)
  have hrest : FrontLog.of p.front logs.flatten = [] := by
    have hnodup : ((plans.drop (n + 1)).map FrontPlan.front).Nodup :=
      (nodup_planFrontWrites order).sublist ((List.drop_sublist _ _).map _)
    have hfront : ∀ q ∈ plans.drop (n + 1), ∀ log, ReportedBy failed q log → ∀ w ∈ log, w.1.front = q.front := by
      rintro q hq log ⟨rfl | hissued, -⟩ w hw
      · cases hw
      · exact hown q (List.drop_subset (n + 1) plans hq) w.1 (hissued.mem_steps w hw)
    rcases flatten_of hreported hfront hnodup p.front with ⟨-, hnil⟩ | ⟨q, hq, hqf, -⟩
    · exact hnil
    · exact absurd hqf (hafter q hq)
  rw [hlogs, hone]
  unfold FrontLog.of at hfresh hrest ⊢
  rw [List.filter_append, List.filter_append, hfresh, hrest, List.nil_append, List.append_nil]
  have hall : own.filter (fun w => decide (w.1.front = p.front)) = own :=
    List.filter_eq_self.mpr fun w hw => decide_eq_true (hown p hp w.1 (hissued.mem_steps w hw))
  rw [hall]
  exact hissued

/-- Whether or not there is a plan for the front. -/
theorem issued_planFrontSteps (hs : s.usage.Within cap) (hdel : ∀ log w, w.isDelete = true → fails log w = none)
    {f : LbFrontKey}
    (hep : peak FrontWrite.endpointDelta
      (planFrontSteps s.metas s.endpoints desired pruneAbsent keepPrevious f) = 0)
    (hmeta : peak (FrontWrite.metaDelta (s.metas.lookup f).isSome)
      (planFrontSteps s.metas s.endpoints desired pruneAbsent keepPrevious f) = 0) :
    IssuedBy false (planFrontSteps s.metas s.endpoints desired pruneAbsent keepPrevious f)
      (FrontLog.of f (applyFronts fails order s desired pruneAbsent keepPrevious cap).1) := by
  by_cases hsteps : planFrontSteps s.metas s.endpoints desired pruneAbsent keepPrevious f = []
  · have hnone : FrontLog.of f (applyFronts fails order s desired pruneAbsent keepPrevious cap).1 = [] := by
      refine List.filter_eq_nil_iff.mpr fun w hw hf => ?_
      have hmem := mem_frontPass hw
      rw [of_decide_eq_true hf, hsteps] at hmem
      cases hmem
    rw [hsteps, hnone]
    exact .nil
  · have hplanned : f ∈ plannedFronts s.metas s.endpoints desired pruneAbsent := by
      by_contra hnot
      exact hsteps (planFrontSteps_of_not_planned hnot)
    exact issued_of_peak_zero hs hdel (mem_planFrontWrites.mpr ⟨hplanned, rfl, hsteps⟩ :
      (⟨f, planFrontSteps s.metas s.endpoints desired pruneAbsent keepPrevious f⟩ : FrontPlan) ∈ _) hep hmeta

/-- What the writer keeps, a pass keeps. -/
theorem frontPass_inv {P : FrontLog → Prop} (hkeep : ∀ log w, P log → P (issueWrite fails log w).1) (hnil : P [])
    {used : FrontUsage} : P (frontPass fails order s desired pruneAbsent keepPrevious used cap).1 := by
  have hsteps : ∀ (live : Option FrontMeta) (steps : List FrontWrite) (blocked : Bool)
      (st : FrontLog × FrontUsage × Bool), P st.1 →
        P (runSteps (trackedWrite (issueWrite fails) live) blocked st steps).1.1 := by
    intro live steps
    induction steps with
    | nil => exact fun _ _ hst => hst
    | cons step rest ih =>
      intro blocked st hst
      unfold runSteps
      have hwrite := hkeep st.1 step hst
      unfold trackedWrite
      generalize issueWrite fails st.1 step = written at hwrite
      obtain ⟨log, answer⟩ := written
      cases answer with
      | ok _ =>
        split
        · exact ih _ _ hst
        · exact ih _ _ hwrite
      | error e =>
        split
        · exact ih _ _ hst
        · simp only
          split
          · exact hwrite
          · exact ih _ _ hwrite
  have hplans : ∀ (plans : List FrontPlan) (st : FrontLog × FrontUsage × FrontApply), P st.1 →
      P (plans.foldl (runOnePlan (issueWrite fails) s.metas cap) st).1 := by
    intro plans
    induction plans with
    | nil => exact fun _ hst => hst
    | cons plan plans ih =>
      intro st hst
      refine ih _ ?_
      unfold runOnePlan
      simp only
      split
      · exact hst
      · exact hsteps _ _ _ _ hst
  exact hplans _ _ hnil

/-- Where no delete fails, every delete of a log succeeded. -/
theorem deletes_succeeded (hdel : ∀ log w, w.isDelete = true → fails log w = none) {used : FrontUsage}
    {w : FrontWrite × Bool} (hw : w ∈ (frontPass fails order s desired pruneAbsent keepPrevious used cap).1)
    (hdelete : w.1.isDelete = true) : w.2 = true := by
  refine frontPass_inv (P := fun log => ∀ w ∈ log, w.1.isDelete = true → w.2 = true) (fun log step h => ?_)
    (fun w hw => absurd hw List.not_mem_nil) w hw hdelete
  unfold issueWrite
  cases hf : fails log step with
  | none =>
    intro w hw hdelete
    rcases List.mem_append.mp hw with hw | hw
    · exact h w hw hdelete
    · rw [List.mem_singleton.mp hw]
  | some e =>
    intro w hw hdelete
    rcases List.mem_append.mp hw with hw | hw
    · exact h w hw hdelete
    · rw [List.mem_singleton.mp hw] at hdelete
      rw [hdel log step hdelete] at hf
      cases hf

/-- A refresh takes no room: it deletes, and replaces the row it keeps. -/
theorem peak_refreshSteps {existing : List FrontEndpointKey} {f : LbFrontKey} {want : DesiredFront} {m : FrontMeta}
    {kept : Bool} :
    peak FrontWrite.endpointDelta (refreshSteps existing f want m kept) = 0 ∧
      peak (FrontWrite.metaDelta true) (refreshSteps existing f want m kept) = 0 := by
  have hsteps : ∀ w ∈ refreshSteps existing f want m kept, w.endpointDelta ≤ 0 ∧ w.metaDelta true ≤ 0 := by
    intro w hw
    rcases List.mem_append.mp hw with hw | hw
    · obtain ⟨k, -, rfl⟩ := List.mem_map.mp hw
      exact ⟨Int.neg_nonpos_of_nonneg (by decide), le_refl _⟩
    · split at hw
      · rw [List.mem_singleton.mp hw]
        exact ⟨le_refl _, le_refl _⟩
      · cases hw
  exact ⟨peak_of_nonpos fun w hw => (hsteps w hw).1, peak_of_nonpos fun w hw => (hsteps w hw).2⟩

/-- A meta row was there before a log, or the log put it there. -/
theorem meta_storeAfter {log : FrontLog} {f : LbFrontKey} {m : FrontMeta} {s : FrontStore}
    (h : (storeAfter s log).metas.lookup f = some m) :
    s.metas.lookup f = some m ∨ (FrontWrite.putMeta f m, true) ∈ log := by
  induction log generalizing s with
  | nil => exact Or.inl h
  | cons e log ih =>
    obtain ⟨w, ok⟩ := e
    rw [storeAfter_cons] at h
    rcases ih h with hm | hput
    · cases ok with
      | false => exact Or.inl hm
      | true =>
        rw [if_pos rfl] at hm
        cases w with
        | deleteEndpoint | putEndpoint => exact Or.inl hm
        | putMeta f' m' =>
          replace hm := (Table.lookup_insert_ite s.metas f' f m').symm.trans hm
          split at hm
          · rename_i hf
            rw [hf, ← Option.some_inj.mp hm]
            exact Or.inr List.mem_cons_self
          · exact Or.inl hm
        | deleteMeta f' =>
          replace hm := (Table.lookup_erase_ite s.metas f' f).symm.trans hm
          split at hm
          · cases hm
          · exact Or.inl hm
    · exact Or.inr (List.mem_cons_of_mem _ hput)

/-- A row that no write of a log names is as it was. -/
theorem lookup_storeAfter_untouched {log : FrontLog} {k : FrontEndpointKey}
    (h : ∀ w ∈ log, w.1 ≠ .deleteEndpoint k ∧ ∀ v, w.1 ≠ .putEndpoint k v) (s : FrontStore) :
    (storeAfter s log).endpoints.lookup k = s.endpoints.lookup k := by
  induction log generalizing s with
  | nil => rfl
  | cons e log ih =>
    obtain ⟨w, ok⟩ := e
    rw [storeAfter_cons, ih (fun w' hw' => h w' (List.mem_cons_of_mem _ hw'))]
    obtain ⟨hdelete, hput⟩ := h (w, ok) List.mem_cons_self
    cases ok with
    | false => rfl
    | true =>
      rw [if_pos rfl]
      cases w with
      | deleteEndpoint k' =>
        show (s.endpoints.erase k').lookup k = _
        rw [Table.lookup_erase_ite, if_neg]
        rintro rfl
        exact hdelete rfl
      | putEndpoint k' v =>
        show (s.endpoints.insert k' v).lookup k = _
        rw [Table.lookup_insert_ite, if_neg]
        rintro rfl
        exact hput v rfl
      | putMeta | deleteMeta => rfl

/-- **Out of its grace** a front that a pass refreshes is left with rows of its live generation only, whatever puts
    fail. -/
theorem refreshed_only_live (hs : s.usage.Within cap) (hdel : ∀ log w, w.isDelete = true → fails log w = none)
    {f : LbFrontKey} {want : DesiredFront} {m : FrontMeta} (hd : desired.lookup f = some want)
    (hu : unchangedMeta s.endpoints f want (s.metas.lookup f) = some m) (hheld : f ∉ keepPrevious) :
    OnlyGenerations (storeAfter s (applyFronts fails order s desired pruneAbsent keepPrevious cap).1) f
      (· = m.generation) := by
  let log := (applyFronts fails order s desired pruneAbsent keepPrevious cap).1
  have hsteps : planFrontSteps s.metas s.endpoints desired pruneAbsent keepPrevious f =
      refreshSteps (endpointsOf s.endpoints f) f want m (decide (f ∈ keepPrevious)) := by
    unfold planFrontSteps
    simp only [hd, hu]
  have hlive : s.metas.lookup f = some m := (unchangedMeta_eq_some.mp hu).1
  have hissued : IssuedBy false (refreshSteps (endpointsOf s.endpoints f) f want m (decide (f ∈ keepPrevious)))
      (FrontLog.of f log) := by
    rw [← hsteps]
    refine issued_planFrontSteps hs hdel ?_ ?_ <;> rw [hsteps]
    · exact peak_refreshSteps.1
    · rw [hlive]
      exact peak_refreshSteps.2
  unfold refreshSteps at hissued
  obtain ⟨before, after, blocked, hlog, hbefore, hafter, -⟩ := hissued.split_quiet fun w hw => by
    obtain ⟨k, -, rfl⟩ := List.mem_map.mp hw
    exact ⟨rfl, rfl⟩
  have hdeletes : ∀ w ∈ before, ∃ k, w.1 = .deleteEndpoint k := by
    intro w hw
    have hmem : w.1 ∈ before.map Prod.fst := List.mem_map_of_mem hw
    rw [hbefore] at hmem
    obtain ⟨k, -, hk⟩ := List.mem_map.mp hmem
    exact ⟨k, hk.symm⟩
  have hmetas : ∀ k, ∀ w ∈ after, w.1 ≠ .deleteEndpoint k ∧ ∀ v, w.1 ≠ .putEndpoint k v := by
    intro k w hw
    have hmem := hafter.mem_steps w hw
    split at hmem
    · rw [List.mem_singleton.mp hmem]
      exact ⟨by simp, by simp⟩
    · cases hmem
  refine OnlyGenerations.congr (storeAfter_of f s log) fun k hk v hv => ?_
  by_contra hg
  -- a row of another generation was not there, or its delete succeeded
  have hgone : s.endpoints.lookup k = none ∨ (FrontWrite.deleteEndpoint k, true) ∈ before := by
    cases hthere : s.endpoints.lookup k with
    | none => exact Or.inl rfl
    | some v' =>
      right
      have hstale : staleGeneration m.generation (decide (f ∈ keepPrevious)) k = true := by
        unfold staleGeneration
        rw [decide_eq_false hheld, Bool.false_and, Bool.not_false, Bool.and_true]
        exact bne_iff_ne.mpr hg
      have hmem : FrontWrite.deleteEndpoint k ∈ before.map Prod.fst := by
        rw [hbefore]
        exact List.mem_map_of_mem (List.mem_filter.mpr ⟨mem_endpointsOf.mpr ⟨hk, v', hthere⟩, hstale⟩)
      obtain ⟨w, hw, hwk⟩ := List.mem_map.mp hmem
      have hin : w ∈ log := by
        have hof : w ∈ FrontLog.of f log := by
          rw [hlog]
          exact List.mem_append_left _ hw
        exact (List.mem_filter.mp hof).1
      have hok : w.2 = true := deletes_succeeded hdel hin (by rw [hwk]; rfl)
      rw [← hwk, ← hok]
      exact hw
  rw [hlog, storeAfter_append, lookup_storeAfter_untouched (hmetas k), lookup_storeAfter_deletes hdeletes hgone] at hv
  cases hv

end

/-! ## The passes of one process -/

/-- The two front maps, which never hold more than they are made for, and the swaps on record. -/
structure FrontProcess (cap : FrontCapacity) where
  store : FrontStore
  recentSwaps : RecentSwaps
  within : store.usage.Within cap

/-- What one pass is given, and which of its writes fail: none that deletes. -/
structure FrontPass where
  now : Nat
  order : IterationOrder LbFrontKey
  desired : Table LbFrontKey DesiredFront
  pruneAbsent : Bool
  fails : FrontLog → FrontWrite → Option MapError
  deletes_succeed : ∀ log w, w.isDelete = true → fails log w = none

namespace FrontProcess

variable {cap : FrontCapacity}

/-- The writes the pass issues, and its report. -/
def run (s : FrontProcess cap) (p : FrontPass) : FrontLog × FrontApply :=
  applyFronts p.fails p.order s.store p.desired p.pruneAbsent (s.recentSwaps.held p.now) cap

theorem run_within (s : FrontProcess cap) (p : FrontPass) : (storeAfter s.store (s.run p).1).usage.Within cap := by
  let plans := planFrontWrites s.store.metas s.store.endpoints p.desired p.pruneAbsent (s.recentSwaps.held p.now) p.order
  have hacc := (passState_accounted s.within p.deletes_succeed (rfl : plans = _) plans.length).1
  unfold passState at hacc
  rw [List.take_length] at hacc
  exact hacc.covers.within hacc.within

/-- The process after a pass. -/
def pass (s : FrontProcess cap) (p : FrontPass) : FrontProcess cap where
  store := storeAfter s.store (s.run p).1
  recentSwaps := s.recentSwaps.record (s.run p).2.swapped p.now
  within := s.run_within p

/-- `previous_generations_due`. -/
def previousGenerationsDue (s : FrontProcess cap) (now : Nat) : Bool := s.recentSwaps.expired now

/-- The pass prunes the front, or its plan is for another endpoint list or local count than the live one. -/
def Replans (s : FrontProcess cap) (p : FrontPass) (f : LbFrontKey) : Prop :=
  (p.desired.lookup f = none ∧ p.pruneAbsent = true) ∨
    ∃ want, p.desired.lookup f = some want ∧ unchangedMeta s.store.endpoints f want (s.store.metas.lookup f) = none

/-- The pass takes the front from the live generation `g` to the next. -/
def Swaps (s : FrontProcess cap) (p : FrontPass) (f : LbFrontKey) (g : UInt32) : Prop :=
  (s.store.metas.lookup f).map (·.generation) = some g ∧
    ((s.pass p).store.metas.lookup f).map (·.generation) = some (g + 1)

variable {s : FrontProcess cap} {p : FrontPass} {f : LbFrontKey} {g : UInt32} {t : Nat}

/-- What is planned for a front that a pass does not replan: nothing, or a refresh. -/
theorem planned_of_not_replans (h : ¬ s.Replans p f) :
    planFrontSteps s.store.metas s.store.endpoints p.desired p.pruneAbsent (s.recentSwaps.held p.now) f = [] ∨
      ∃ want m, p.desired.lookup f = some want ∧
        unchangedMeta s.store.endpoints f want (s.store.metas.lookup f) = some m ∧
        planFrontSteps s.store.metas s.store.endpoints p.desired p.pruneAbsent (s.recentSwaps.held p.now) f =
          refreshSteps (endpointsOf s.store.endpoints f) f want m (decide (f ∈ s.recentSwaps.held p.now)) := by
  unfold Replans at h
  unfold planFrontSteps
  cases hd : p.desired.lookup f with
  | none =>
    left
    have hprune : ¬ p.pruneAbsent = true := fun hprune => h (Or.inl ⟨hd, hprune⟩)
    simp only [if_neg hprune]
  | some want =>
    cases hu : unchangedMeta s.store.endpoints f want (s.store.metas.lookup f) with
    | none => exact absurd (Or.inr ⟨want, hd, hu⟩) h
    | some m => exact Or.inr ⟨want, m, rfl, hu, by simp only [hu]⟩

/-- Such a pass keeps the front's generation. -/
theorem generation_of_not_replans (h : ¬ s.Replans p f) :
    ((s.pass p).store.metas.lookup f).map (·.generation) = (s.store.metas.lookup f).map (·.generation) := by
  rcases planned_of_not_replans h with hnone | ⟨want, m, hd, hu, -⟩
  · have hsame : SameFront f (s.pass p).store s.store := by
      refine sameFront_untouched fun w hw hf => ?_
      have hmem := mem_frontPass hw
      rw [hf, hnone] at hmem
      cases hmem
    rw [hsame.1]
  · rw [(unchangedMeta_eq_some.mp hu).1]
    exact frontPass_keeps_generation hd hu List.prefix_rfl

/-- And does not report it as swapped. -/
theorem not_swapped_of_not_replans (h : ¬ s.Replans p f) : f ∉ (s.run p).2.swapped := by
  intro hswapped
  obtain ⟨logs, -, hlogs⟩ := runFrontPlans_issued p.fails
    (planFrontWrites s.store.metas s.store.endpoints p.desired p.pruneAbsent (s.recentSwaps.held p.now) p.order)
    s.store.metas s.store.usage cap
  obtain ⟨plan, hplan, rfl, w, hw, hcommits⟩ := hlogs.swapped_commits f hswapped
  rw [(mem_planFrontWrites.mp hplan).2.1] at hw
  rcases planned_of_not_replans h with hnone | ⟨want, m, -, hu, hsteps⟩
  · rw [hnone] at hw
    cases hw
  · rw [hsteps] at hw
    rcases List.mem_append.mp hw with hw | hw
    · obtain ⟨k, -, rfl⟩ := List.mem_map.mp hw
      cases hcommits
    · split at hw
      · -- the row that is put is of the live generation
        rw [List.mem_singleton.mp hw, (unchangedMeta_eq_some.mp hu).1] at hcommits
        exact bne_iff_ne.mp hcommits rfl
      · cases hw

/-- So the hold of the front stays what it was, as long as it has not expired. -/
theorem hold_of_not_replans (h : ¬ s.Replans p f) :
    (s.pass p).recentSwaps.lookup f =
      (s.recentSwaps.lookup f).filter fun swappedAt => p.now - swappedAt < previousGenerationGrace := by
  show (s.recentSwaps.record (s.run p).2.swapped p.now).lookup f = _
  rw [RecentSwaps.lookup_record, if_neg (not_swapped_of_not_replans h), RecentSwaps.lookup_inGrace]

/-- A pass within the grace keeps the rows of the generation before the live one. -/
theorem rows_kept (h : ¬ s.Replans p f) (hlive : (s.store.metas.lookup f).map (·.generation) = some (g + 1))
    (hheld : f ∈ s.recentSwaps.held p.now) {k : FrontEndpointKey} (hk : k.front = f) (hg : k.generation = g) :
    (s.pass p).store.endpoints.lookup k = s.store.endpoints.lookup k := by
  refine (storeAfter_of f s.store (s.run p).1).2 k hk |>.trans (lookup_storeAfter_untouched ?_ s.store)
  intro w hw
  obtain ⟨hw, hfront⟩ := List.mem_filter.mp hw
  have hmem := mem_frontPass hw
  rw [of_decide_eq_true hfront] at hmem
  rcases planned_of_not_replans h with hnone | ⟨want, m, -, hu, hsteps⟩
  · rw [hnone] at hmem
    cases hmem
  · rw [(unchangedMeta_eq_some.mp hu).1, Option.map_some, Option.some_inj] at hlive
    rw [hsteps] at hmem
    rcases List.mem_append.mp hmem with hmem | hmem
    · obtain ⟨k', hk', hwk⟩ := List.mem_map.mp hmem
      refine ⟨fun heq => ?_, fun v heq => ?_⟩
      · -- the generation before the live one is spared, also where the live one is the first after the wrap
        obtain rfl : k' = k := by
          rw [heq] at hwk
          exact FrontWrite.deleteEndpoint.inj hwk
        have hstale := (Bool.and_eq_true_iff.mp (List.mem_filter.mp hk').2).2
        rw [decide_eq_true hheld, hg, hlive, UInt32.add_sub_cancel] at hstale
        simp at hstale
      · rw [heq] at hwk
        cases hwk
    · split at hmem
      · rw [List.mem_singleton.mp hmem]
        exact ⟨by simp, by simp⟩
      · cases hmem

/-- What a swap planned. -/
theorem Swaps.planned (h : s.Swaps p f g) :
    ∃ want m, (FrontWrite.putMeta f m, true) ∈ (s.run p).1 ∧ m.generation = g + 1 ∧
      planFrontSteps s.store.metas s.store.endpoints p.desired p.pruneAbsent (s.recentSwaps.held p.now) f =
        swapSteps (endpointsOf s.store.endpoints f) f want (s.store.metas.lookup f) := by
  obtain ⟨hlive, hafter⟩ := h
  obtain ⟨m, hm, hgen⟩ := Option.map_eq_some_iff.mp hafter
  have hput : (FrontWrite.putMeta f m, true) ∈ (s.run p).1 := by
    refine (meta_storeAfter hm).resolve_left fun hbefore => ?_
    rw [hbefore, Option.map_some, hgen, Option.some_inj] at hlive
    simp at hlive
  have hmem := mem_frontPass hput
  rcases @planFrontSteps_cases s.store.metas s.store.endpoints p.desired p.pruneAbsent (s.recentSwaps.held p.now) f with
    ⟨-, -, hsteps⟩ | ⟨-, -, hsteps⟩ | ⟨want, m', -, hm', hsteps⟩ | ⟨want, -, hsteps⟩ <;>
      rw [show (FrontWrite.putMeta f m, true).1.front = f from rfl, hsteps] at hmem
  · cases hmem
  · unfold pruneSteps at hmem
    rcases List.mem_append.mp hmem with hmem | hmem
    · split at hmem
      · cases List.mem_singleton.mp hmem
      · cases hmem
    · obtain ⟨k, -, hk⟩ := List.mem_map.mp hmem
      cases hk
  · -- a refresh does not change the generation
    rw [hm', Option.map_some, Option.some_inj] at hlive
    rcases List.mem_append.mp hmem with hmem | hmem
    · obtain ⟨k, -, hk⟩ := List.mem_map.mp hmem
      cases hk
    · split at hmem
      · obtain ⟨-, rfl⟩ := FrontWrite.putMeta.inj (List.mem_singleton.mp hmem)
        rw [← hlive] at hgen
        simp at hgen
      · cases hmem
  · exact ⟨want, m, hput, hgen, hsteps⟩

/-- A swap is reported. -/
theorem Swaps.reported (h : s.Swaps p f g) : f ∈ (s.run p).2.swapped := by
  obtain ⟨want, m, hput, hgen, -⟩ := h.planned
  have hreported : SwapsReported s.store.metas (((planFrontWrites s.store.metas s.store.endpoints p.desired
      p.pruneAbsent (s.recentSwaps.held p.now) p.order).foldl (runOnePlan (issueWrite p.fails) s.store.metas cap)
        ([], s.store.usage, {}))) :=
    swapsReported_foldl (fun q hq w hw => front_of_mem_steps hq hw) fun e he => absurd he List.not_mem_nil
  refine hreported (FrontWrite.putMeta f m, true) hput rfl ?_
  unfold FrontWrite.commits
  show ((s.store.metas.lookup f).map (·.generation) != some m.generation) = true
  rw [h.1, hgen]
  simp

/-- A swap leaves the rows of the generation it replaces. -/
theorem Swaps.rows_kept (h : s.Swaps p f g) {k : FrontEndpointKey} (hk : k.front = f) (hg : k.generation = g) :
    (s.pass p).store.endpoints.lookup k = s.store.endpoints.lookup k := by
  obtain ⟨want, m, -, -, hsteps⟩ := h.planned
  refine (storeAfter_of f s.store (s.run p).1).2 k hk |>.trans (lookup_storeAfter_untouched ?_ s.store)
  intro w hw
  obtain ⟨hw, hfront⟩ := List.mem_filter.mp hw
  have hmem := mem_frontPass hw
  rw [of_decide_eq_true hfront, hsteps] at hmem
  rcases List.mem_append.mp hmem with hmem | hmem
  · have hquiet := quietFor_of_mem_swapQuiet hmem
    rw [h.1] at hquiet
    refine ⟨fun heq => ?_, fun v heq => ?_⟩ <;> rw [heq] at hquiet <;> exact hquiet (by rw [hg])
  · rw [List.mem_singleton.mp hmem]
    exact ⟨by simp, by simp⟩

/-! ## From one swap to the end of its grace -/

/-- The front is on the generation it was swapped to at `t`, its hold is on record, and the rows of the generation
    before are what they were in `start`. -/
structure Holding (start : FrontProcess cap) (f : LbFrontKey) (g : UInt32) (t : Nat) (s : FrontProcess cap) : Prop where
  live : (s.store.metas.lookup f).map (·.generation) = some (g + 1)
  hold : s.recentSwaps.lookup f = some t
  rows : ∀ k : FrontEndpointKey, k.front = f → k.generation = g →
    s.store.endpoints.lookup k = start.store.endpoints.lookup k

variable {start : FrontProcess cap}

theorem Swaps.holding (h : s.Swaps p f g) : Holding s f g p.now (s.pass p) where
  live := h.2
  hold := by
    show (s.recentSwaps.record (s.run p).2.swapped p.now).lookup f = _
    rw [RecentSwaps.lookup_record, if_pos h.reported]
  rows _ hk hg := h.rows_kept hk hg

/-- **A pass within the grace.** -/
theorem Holding.pass (h : Holding start f g t s) (hp : ¬ s.Replans p f) (hnow : p.now < t + previousGenerationGrace) :
    Holding start f g t (s.pass p) := by
  have hgrace : p.now - t < previousGenerationGrace := by
    unfold previousGenerationGrace at hnow ⊢
    omega
  refine ⟨(generation_of_not_replans hp).trans h.live, ?_, fun k hk hg => ?_⟩
  · rw [hold_of_not_replans hp, h.hold, Option.filter_some, decide_eq_true hgrace, if_pos rfl]
  · have hheld : f ∈ s.recentSwaps.held p.now := RecentSwaps.mem_held.mpr ⟨t, h.hold, hgrace⟩
    exact (FrontProcess.rows_kept hp h.live hheld hk hg).trans (h.rows k hk hg)

/-- The passes within the grace. -/
theorem Holding.passes {passes : List FrontPass} (h : Holding start f g t s)
    (hquiet : Along FrontProcess.pass (fun s p => ¬ s.Replans p f) s passes)
    (hnow : ∀ p ∈ passes, p.now < t + previousGenerationGrace) :
    Holding start f g t (passes.foldl FrontProcess.pass s) := by
  induction passes generalizing s with
  | nil => exact h
  | cons p passes ih =>
    refine ih (h.pass hquiet.1 (hnow p List.mem_cons_self)) hquiet.2 fun q hq => ?_
    exact hnow q (List.mem_cons_of_mem _ hq)

/-- No other hold of the front than the one of `t` is on record. -/
def HeldSince (f : LbFrontKey) (t : Nat) (s : FrontProcess cap) : Prop := 
  ∀ swappedAt, s.recentSwaps.lookup f = some swappedAt → swappedAt = t

theorem HeldSince.pass (h : HeldSince f t s) (hp : ¬ s.Replans p f) : HeldSince f t (s.pass p) := by
  intro swappedAt hat
  rw [hold_of_not_replans hp] at hat
  exact h swappedAt (Option.filter_eq_some_iff.mp hat).1

/-- **A pass after the grace** that names the front. -/
theorem HeldSince.only_live (h : HeldSince f t s) (hp : ¬ s.Replans p f) (hnow : t + previousGenerationGrace ≤ p.now)
    (hnamed : (p.desired.lookup f).isSome) :
    OnlyGenerations (s.pass p).store f
      fun g => ((s.pass p).store.metas.lookup f).map (·.generation) = some g := by
  obtain ⟨want, hd⟩ := Option.isSome_iff_exists.mp hnamed
  cases hu : unchangedMeta s.store.endpoints f want (s.store.metas.lookup f) with
  | none => exact absurd (Or.inr ⟨want, hd, hu⟩) hp
  | some m =>
    have hheld : f ∉ s.recentSwaps.held p.now := by
      intro hmem
      obtain ⟨swappedAt, hat, hlt⟩ := RecentSwaps.mem_held.mp hmem
      rw [h swappedAt hat] at hlt
      omega
    intro k hk v hv
    rw [generation_of_not_replans hp, (unchangedMeta_eq_some.mp hu).1, Option.map_some, Option.some_inj]
    exact (refreshed_only_live s.within p.deletes_succeed hd hu hheld k hk v hv).symm

/-- **The previous generation and its grace.** A front is swapped from generation `g` to the next by a pass at `t`, and
    no later pass prunes it or plans another endpoint list or local count for it. Then after every pass before
    `t + grace` the rows of generation `g` are what they were; the hold is reported as expired at every time from
    `t + grace` on, as long as no pass has come; and every pass from then on that names the front leaves it rows of its
    live generation only. -/
theorem previous_generation_grace {swap : FrontPass} {later : List FrontPass}
    (htimes : (swap :: later).Pairwise fun p q => p.now ≤ q.now) (hswap : s.Swaps swap f g)
    (hquiet : Along FrontProcess.pass (fun s p => ¬ s.Replans p f) (s.pass swap) later) :
    (∀ before p after, swap :: later = before ++ p :: after → p.now < swap.now + previousGenerationGrace →
      ∀ k : FrontEndpointKey, k.front = f → k.generation = g →
        ((before ++ [p]).foldl FrontProcess.pass s).store.endpoints.lookup k = s.store.endpoints.lookup k) ∧
    (∀ before after now, later = before ++ after → (∀ p ∈ before, p.now < swap.now + previousGenerationGrace) →
      swap.now + previousGenerationGrace ≤ now →
        (before.foldl FrontProcess.pass (s.pass swap)).previousGenerationsDue now = true) ∧
    ∀ before p after, later = before ++ p :: after → swap.now + previousGenerationGrace ≤ p.now →
      (p.desired.lookup f).isSome →
        OnlyGenerations ((before ++ [p]).foldl FrontProcess.pass (s.pass swap)).store f fun g =>
          (((before ++ [p]).foldl FrontProcess.pass (s.pass swap)).store.metas.lookup f).map (·.generation) = some g := by
  refine ⟨?_, ?_, ?_⟩
  · intro before p after hsplit hnow k hk hg
    rcases List.cons_eq_append_iff.mp hsplit with ⟨rfl, hcons⟩ | ⟨before', rfl, hlater⟩
    · obtain ⟨rfl, -⟩ := List.cons.inj hcons
      exact hswap.rows_kept hk hg
    · -- the passes up to this one are within the grace too
      have hsplit' : later = (before' ++ [p]) ++ after := by rw [hlater, List.append_assoc, List.singleton_append]
      rw [hsplit', along_append] at hquiet
      refine (hswap.holding.passes hquiet.1 fun q hq => ?_).rows k hk hg
      refine lt_of_le_of_lt ?_ hnow
      rcases List.mem_append.mp hq with hq | hq
      · rw [hlater, ← List.cons_append, List.pairwise_append] at htimes
        exact htimes.2.2 q (List.mem_cons_of_mem _ hq) p List.mem_cons_self
      · rw [List.mem_singleton.mp hq]
  · intro before after now hsplit hbefore hnow
    rw [hsplit, along_append] at hquiet
    exact RecentSwaps.expired_of_lookup (hswap.holding.passes hquiet.1 hbefore).hold hnow
  · intro before p after hsplit hnow hnamed
    rw [hsplit, along_append] at hquiet
    have hheld : HeldSince f swap.now (before.foldl FrontProcess.pass (s.pass swap)) :=
      Along.inv (fun s p (h : HeldSince f swap.now s) hp => h.pass hp) hquiet.1 fun _ hat =>
        Option.some_inj.mp (hat.symm.trans hswap.holding.hold)
    rw [List.foldl_append]
    exact hheld.only_live hquiet.2.1 hnow hnamed

end FrontProcess

/-- A pass for two endpoints of the front, `elapsed` nanoseconds after the first. -/
def gracePass (elapsed : Nat) : FrontPass where
  now := 7000000000 + elapsed
  order := .asStored
  desired := sampleDesired
  pruneAbsent := true
  fails := fun _ _ => none
  deletes_succeed := fun _ _ _ => rfl

/-- A front at the last generation before the wrap. -/
def graceProcess : FrontProcess ⟨10, 10⟩ where
  store := wrapStore
  recentSwaps := ∅
  within := ⟨by decide, by decide⟩

/-- The swap over the wrap, a pass a second later and one when the grace is over. -/
theorem previous_generation_grace_wrap :
    let passes := [gracePass 0, gracePass 1000000000, gracePass 2000000000]
    ((passes.take 2).foldl FrontProcess.pass graceProcess).store.endpoints.lookup
        (endpointKey sampleFront 0xffffffff 0) = some (sampleEndpoint 8080) ∧
      ((passes.take 2).foldl FrontProcess.pass graceProcess).previousGenerationsDue 9000000000 = true ∧
      OnlyGenerations (passes.foldl FrontProcess.pass graceProcess).store sampleFront (some · = some 0) := by
  intro passes
  have hswap : graceProcess.Swaps (gracePass 0) sampleFront 0xffffffff := ⟨by decide, by decide⟩
  have hnamed : sampleDesired.lookup sampleFront =
      some { flags := 0, preferLocal := true, endpoints := [sampleEndpoint 8081, sampleEndpoint 8082] } :=
    AList.lookup_insert _
  have hquiet : Along FrontProcess.pass (fun s p => ¬ s.Replans p sampleFront) (graceProcess.pass (gracePass 0))
      [gracePass 1000000000, gracePass 2000000000] := by
    refine ⟨?_, ?_, trivial⟩ <;> rintro (⟨hd, -⟩ | ⟨want, hd, hu⟩)
    · rw [show (gracePass 1000000000).desired.lookup sampleFront = _ from hnamed] at hd
      cases hd
    · obtain rfl := Option.some_inj.mp (hnamed.symm.trans hd)
      revert hu
      decide
    · rw [show (gracePass 2000000000).desired.lookup sampleFront = _ from hnamed] at hd
      cases hd
    · obtain rfl := Option.some_inj.mp (hnamed.symm.trans hd)
      revert hu
      decide
  have htimes : passes.Pairwise fun p q => p.now ≤ q.now := by
    simp [passes, gracePass]
  obtain ⟨hrows, hdue, honly⟩ := FrontProcess.previous_generation_grace htimes hswap hquiet
  refine ⟨?_, ?_, ?_⟩
  · exact (hrows [gracePass 0] (gracePass 1000000000) [gracePass 2000000000] rfl (by decide) _ rfl rfl).trans
      (by decide)
  · exact hdue [gracePass 1000000000] [gracePass 2000000000] 9000000000 rfl (by simp [gracePass, previousGenerationGrace])
      (by decide)
  · have hlive : ((passes.foldl FrontProcess.pass graceProcess).store.metas.lookup sampleFront).map (·.generation) =
        some 0 := by decide
    intro k hk v hv
    rw [← hlive]
    have hsome : ((gracePass 2000000000).desired.lookup sampleFront).isSome := Option.isSome_iff_exists.mpr ⟨_, hnamed⟩
    exact (honly [gracePass 1000000000] (gracePass 2000000000) [] rfl (by decide) hsome k hk v hv).symm

end Beep
