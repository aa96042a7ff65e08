import Beep.Loader.FrontSwap.Consistent

/-!
# `Loader.FrontSwap.Converge` — the planner and the executor agree on when to stop

A pass in which nothing is refused and nothing fails leaves the maps as desired; the planner, run again on
what the executor left, then has nothing to do but delete generations that are not live, and after that
nothing at all.

The executor is reduced to its effect on one front (`sameFront_cleanPass`), and each of the three kinds of
plans to the rows it leaves there. `AsDesired` and `OnlyLive` are what the next planning reads off them.
-/

namespace Beep

/-! ## The effect of a plan that runs whole -/

/-- A store after the steps of a plan, all of which succeed. -/
def runWhole (s : FrontStore) (steps : List FrontWrite) : FrontStore :=
  storeAfter s (steps.map fun w => (w, true))

theorem runWhole_append (s : FrontStore) (ws ws' : List FrontWrite) :
    runWhole s (ws ++ ws') = runWhole (runWhole s ws) ws' := by
  rw [runWhole, List.map_append, storeAfter_append]
  rfl

/-- Deleting rows takes away exactly those rows. -/
theorem runWhole_deletes (s : FrontStore) (ks : List FrontEndpointKey) :
    (runWhole s (ks.map .deleteEndpoint)).metas = s.metas ∧
      ∀ k, (runWhole s (ks.map .deleteEndpoint)).endpoints.lookup k =
        if k ∈ ks then none else s.endpoints.lookup k := by
  induction ks generalizing s with
  | nil => exact ⟨rfl, fun k => (if_neg List.not_mem_nil).symm⟩
  | cons k₀ ks ih =>
    obtain ⟨hm, he⟩ := ih (s.apply (.deleteEndpoint k₀))
    refine ⟨hm, fun k => (he k).trans ?_⟩
    have happly : (s.apply (.deleteEndpoint k₀)).endpoints.lookup k =
        if k = k₀ then none else s.endpoints.lookup k :=
      Table.lookup_erase_ite _ _ _
    rw [happly]
    by_cases hk : k ∈ ks
    · rw [if_pos hk, if_pos (List.mem_cons_of_mem _ hk)]
    · rw [if_neg hk]
      by_cases hk₀ : k = k₀
      · rw [if_pos hk₀, if_pos (by rw [hk₀]; exact List.mem_cons_self)]
      · rw [if_neg hk₀, if_neg (fun h => (List.mem_cons.mp h).elim hk₀ hk)]

section
variable {s : FrontStore} {desired : Table LbFrontKey DesiredFront} {pruneAbsent : Bool}
  {keepPrevious : Finset LbFrontKey} {f : LbFrontKey}

/-- A front the planner does not visit has nothing to do. -/
theorem planFrontSteps_of_not_planned
    (h : f ∉ plannedFronts s.metas s.endpoints desired pruneAbsent) :
    planFrontSteps s.metas s.endpoints desired pruneAbsent keepPrevious f = [] := by
  simp only [plannedFronts, List.mem_dedup, List.mem_append, not_or] at h
  obtain ⟨hdesired, hrest⟩ := h
  have hd : desired.lookup f = none := by
    by_contra hne
    obtain ⟨want, hwant⟩ := Option.ne_none_iff_exists'.mp hne
    exact hdesired ((Table.mem_keys_iff _ _).mpr ⟨want, hwant⟩)
  unfold planFrontSteps
  rw [hd]
  cases pruneAbsent with
  | false => rfl
  | true =>
    simp only [if_true, List.mem_append, not_or] at hrest
    have hm : s.metas.lookup f = none := by
      by_contra hne
      obtain ⟨m, hm⟩ := Option.ne_none_iff_exists'.mp hne
      exact hrest.1 ((Table.mem_keys_iff _ _).mpr ⟨m, hm⟩)
    have he : endpointsOf s.endpoints f = [] := by
      refine List.eq_nil_iff_forall_not_mem.mpr fun k hk => hrest.2 ?_
      obtain ⟨hkf, hk'⟩ := mem_endpointsOf.mp hk
      exact List.mem_map.mpr ⟨k, (Table.mem_keys_iff _ _).mpr hk', hkf⟩
    rw [hm, he]
    rfl

/-- After a pass that reports no failure of a front, the front is as its plan, run whole, leaves it. -/
theorem sameFront_reported {fails : FrontLog → FrontWrite → Option MapError}
    {order : IterationOrder LbFrontKey} {used : FrontUsage} {cap : FrontCapacity} (f : LbFrontKey)
    (hreport : ∀ e ∈ (frontPass fails order s desired pruneAbsent keepPrevious used cap).2.failures, e.1 ≠ f) :
    SameFront f (storeAfter s (frontPass fails order s desired pruneAbsent keepPrevious used cap).1)
      (runWhole s (planFrontSteps s.metas s.endpoints desired pruneAbsent keepPrevious f)) := by
  obtain ⟨logs, hlog, hplans, -⟩ := runFrontPlans_reported fails
    (planFrontWrites s.metas s.endpoints desired pruneAbsent keepPrevious order) s.metas used cap
  have hown : ∀ plan ∈ planFrontWrites s.metas s.endpoints desired pruneAbsent keepPrevious order,
      ∀ log, ReportedBy (frontPass fails order s desired pruneAbsent keepPrevious used cap).2.failures plan log →
        ∀ w ∈ log, w.1.front = plan.front := by
    rintro plan hplan log ⟨rfl | hissued, -⟩ w hw
    · cases hw
    · exact front_of_mem_steps hplan (hissued.mem_steps w hw)
  have hof := storeAfter_of f s logs.flatten
  unfold frontPass
  rw [hlog]
  rcases flatten_of hplans hown (nodup_planFrontWrites order) f with ⟨hnone, hnil⟩ | ⟨plan, hplan, rfl, -, hwhole⟩
  · -- no plan: the front was not visited, or it had no steps
    rw [hnil] at hof
    have hsteps : planFrontSteps s.metas s.endpoints desired pruneAbsent keepPrevious f = [] := by
      by_cases hf : f ∈ plannedFronts s.metas s.endpoints desired pruneAbsent
      · by_contra hne
        exact hnone ⟨f, _⟩ (mem_planFrontWrites.mpr ⟨hf, rfl, hne⟩) rfl
      · exact planFrontSteps_of_not_planned hf
    rw [hsteps]
    exact hof
  · rw [hwhole hreport, (mem_planFrontWrites.mp hplan).2.1] at hof
    exact hof

/-- After a pass without refusals and failures every front is as its plan, run whole, leaves it. -/
theorem sameFront_cleanPass {fails : FrontLog → FrontWrite → Option MapError}
    {order : IterationOrder LbFrontKey} {used : FrontUsage} {cap : FrontCapacity}
    (hclean : (frontPass fails order s desired pruneAbsent keepPrevious used cap).2.failures = [])
    (f : LbFrontKey) :
    SameFront f (storeAfter s (frontPass fails order s desired pruneAbsent keepPrevious used cap).1)
      (runWhole s (planFrontSteps s.metas s.endpoints desired pruneAbsent keepPrevious f)) := by
  refine sameFront_reported f fun e he => ?_
  rw [hclean] at he
  exact absurd he List.not_mem_nil

end

/-! ## What planning reads off a store -/

/-- A front is as desired: meta fields, and the slots of its generation. -/
def AsDesired (s : FrontStore) (f : LbFrontKey) (want : DesiredFront) (m : FrontMeta) : Prop :=
  s.metas.lookup f = some m ∧ m.count = want.count ∧ m.flags = want.flags ∧
    m.localCount = want.localCount ∧ HoldsSlots s.endpoints f m.generation want

/-- Every endpoint row of a front is of a generation that `keep` admits. -/
def OnlyGenerations (s : FrontStore) (f : LbFrontKey) (keep : UInt32 → Prop) : Prop :=
  ∀ k : FrontEndpointKey, k.front = f → ∀ v, s.endpoints.lookup k = some v → keep k.generation

/-- A front without any row. -/
def Absent (s : FrontStore) (f : LbFrontKey) : Prop :=
  s.metas.lookup f = none ∧ ∀ k : FrontEndpointKey, k.front = f → s.endpoints.lookup k = none

section
variable {s t : FrontStore} {desired : Table LbFrontKey DesiredFront} {pruneAbsent : Bool}
  {keepPrevious : Finset LbFrontKey} {f : LbFrontKey} {want : DesiredFront} {m : FrontMeta}

theorem AsDesired.congr (h : SameFront f s t) (ht : AsDesired t f want m) : AsDesired s f want m := by
  obtain ⟨hm, hc, hfl, hlc, hslots⟩ := ht
  exact ⟨h.1.trans hm, hc, hfl, hlc, fun slot hslot => (h.2 _ rfl).trans (hslots slot hslot)⟩

theorem OnlyGenerations.congr {keep : UInt32 → Prop} (h : SameFront f s t)
    (ht : OnlyGenerations t f keep) : OnlyGenerations s f keep :=
  fun k hk v hv => ht k hk v ((h.2 k hk) ▸ hv)

theorem Absent.congr (h : SameFront f s t) (ht : Absent t f) : Absent s f :=
  ⟨h.1.trans ht.1, fun k hk => (h.2 k hk).trans (ht.2 k hk)⟩

/-- For a front that is as desired only stale generations are left to delete. -/
theorem planFrontSteps_asDesired (hd : desired.lookup f = some want) (h : AsDesired s f want m) :
    planFrontSteps s.metas s.endpoints desired pruneAbsent keepPrevious f =
      ((endpointsOf s.endpoints f).filter
        (staleGeneration m.generation (f ∈ keepPrevious))).map .deleteEndpoint := by
  obtain ⟨hm, hc, hfl, hlc, hslots⟩ := h
  have hu : unchangedMeta s.endpoints f want (s.metas.lookup f) = some m :=
    unchangedMeta_eq_some.mpr ⟨hm, hc, hlc, hslots⟩
  unfold planFrontSteps
  simp only [hd, hu]
  rw [refreshSteps, hfl, bne_self_eq_false]
  exact List.append_nil _

/-- A front that is neither desired nor in the maps needs no step. -/
theorem planFrontSteps_absent (hd : desired.lookup f = none) (h : Absent s f) :
    planFrontSteps s.metas s.endpoints desired pruneAbsent keepPrevious f = [] := by
  have he : endpointsOf s.endpoints f = [] := by
    refine List.eq_nil_iff_forall_not_mem.mpr fun k hk => ?_
    obtain ⟨hkf, v, hv⟩ := mem_endpointsOf.mp hk
    rw [h.2 k hkf] at hv
    cases hv
  unfold planFrontSteps
  simp only [hd, he, h.1]
  cases pruneAbsent <;> rfl

/-! ## What each kind of plan leaves -/

/-- A swap run whole leaves the front as desired, with rows of the new and the previous generation only. -/
theorem runWhole_swapSteps (s : FrontStore) (f : LbFrontKey) (hlen : want.endpoints.length ≤ 65535) :
    AsDesired (runWhole s (swapSteps (endpointsOf s.endpoints f) f want (s.metas.lookup f))) f want
        (want.committed (nextGeneration (s.metas.lookup f))) ∧
      OnlyGenerations (runWhole s (swapSteps (endpointsOf s.endpoints f) f want (s.metas.lookup f))) f
        (fun g => g = nextGeneration (s.metas.lookup f) ∨
          some g = (s.metas.lookup f).map (·.generation)) := by
  let quiet := swapQuiet (endpointsOf s.endpoints f) f want (s.metas.lookup f)
  let t := runWhole s quiet
  have hend : runWhole s (swapSteps (endpointsOf s.endpoints f) f want (s.metas.lookup f)) =
      t.apply (.putMeta f (want.committed (nextGeneration (s.metas.lookup f)))) :=
    runWhole_append s quiet _
  rw [hend]
  constructor
  · refine ⟨AList.lookup_insert _, rfl, rfl, rfl, ?_⟩
    have hwrites : (quiet.map fun w => (w, true)).map Prod.fst = quiet := by
      rw [List.map_map, Function.comp_def, List.map_id']
    refine holdsSlots_swapQuiet hlen hwrites ?_ s
    intro w hw _
    obtain ⟨w', _, rfl⟩ := List.mem_map.mp hw
    rfl
  · intro k hk v hv
    let dels := (endpointsOf s.endpoints f).filter
      fun k => some k.generation != (s.metas.lookup f).map (·.generation)
    have hrows : t.endpoints.lookup k = some v := hv
    have ht : t = storeAfter (runWhole s (dels.map .deleteEndpoint))
        (putLog f (nextGeneration (s.metas.lookup f)) want.endpoints 0) := by
      show runWhole s (dels.map .deleteEndpoint ++ _) = _
      rw [runWhole_append, runWhole, List.map_map]
      rfl
    by_cases hnew : ∃ i < want.endpoints.length,
        k = endpointKey f (nextGeneration (s.metas.lookup f)) (0 + i)
    · obtain ⟨i, _, rfl⟩ := hnew
      exact Or.inl rfl
    · -- an older row: the deletes spared it, so it is of the live generation
      rw [ht, (lookup_putLog f _ want.endpoints 0 (by omega) _).2 k fun i hi he => hnew ⟨i, hi, he⟩,
        (runWhole_deletes s dels).2 k] at hrows
      split at hrows
      · cases hrows
      · rename_i hkept
        by_cases hlive : some k.generation = (s.metas.lookup f).map (·.generation)
        · exact Or.inr hlive
        · exact absurd (List.mem_filter.mpr ⟨mem_endpointsOf.mpr ⟨hk, v, hrows⟩, by simpa using hlive⟩) hkept

/-- A refresh run whole leaves the front as desired and its generation as it was; a generation before the
    live one survives only in its grace. -/
theorem runWhole_refreshSteps (kept : Bool)
    (hu : unchangedMeta s.endpoints f want (s.metas.lookup f) = some m) :
    AsDesired (runWhole s (refreshSteps (endpointsOf s.endpoints f) f want m kept)) f want
        { m with flags := want.flags } ∧
      OnlyGenerations (runWhole s (refreshSteps (endpointsOf s.endpoints f) f want m kept)) f
        (fun g => g = m.generation ∨ (kept = true ∧ g = m.generation - 1)) := by
  obtain ⟨hlive, hc, hlc, hslots⟩ := unchangedMeta_eq_some.mp hu
  let stale := (endpointsOf s.endpoints f).filter (staleGeneration m.generation kept)
  let t := runWhole s (stale.map .deleteEndpoint)
  obtain ⟨hmetas, hrows⟩ := runWhole_deletes s stale
  have hend : SameFront f (runWhole s (refreshSteps (endpointsOf s.endpoints f) f want m kept))
      (t.apply (.putMeta f { m with flags := want.flags })) := by
    rw [refreshSteps, runWhole_append]
    split
    · exact sameFront_refl f _
    · rename_i hfl
      have hfl' : m.flags = want.flags := by simpa using hfl
      refine ⟨?_, fun _ _ => rfl⟩
      show t.metas.lookup f = (t.metas.insert f { m with flags := want.flags }).lookup f
      rw [AList.lookup_insert, ← hfl', hmetas, hlive]
  constructor
  · refine AsDesired.congr hend ⟨AList.lookup_insert _, hc, rfl, hlc, fun slot hslot => ?_⟩
    show t.endpoints.lookup (endpointKey f m.generation slot) = some want.endpoints[slot]
    have hspared : endpointKey f m.generation slot ∉ stale := by
      intro hmem
      have := (Bool.and_eq_true_iff.mp (List.mem_filter.mp hmem).2).1
      exact bne_iff_ne.mp this rfl
    rw [hrows, if_neg hspared]
    exact hslots slot hslot
  · refine OnlyGenerations.congr hend fun k hk v hv => ?_
    have hv' : t.endpoints.lookup k = some v := hv
    rw [hrows] at hv'
    split at hv'
    · cases hv'
    · rename_i hspared
      by_contra hg
      refine hspared (List.mem_filter.mpr ⟨mem_endpointsOf.mpr ⟨hk, v, hv'⟩, ?_⟩)
      simp only [not_or, not_and] at hg
      simp only [staleGeneration, Bool.and_eq_true, bne_iff_ne, ne_eq, Bool.not_eq_true',
        Bool.and_eq_false_iff]
      refine ⟨hg.1, ?_⟩
      cases kept with
      | false => exact Or.inl rfl
      | true => exact Or.inr (beq_eq_false_iff_ne.mpr (hg.2 rfl))

/-- A pruned front is gone. -/
theorem runWhole_pruneSteps (s : FrontStore) (f : LbFrontKey) :
    Absent (runWhole s (pruneSteps (endpointsOf s.endpoints f) f (s.metas.lookup f))) f := by
  let t := runWhole s (if (s.metas.lookup f).isSome then [.deleteMeta f] else [])
  have ht : t.metas.lookup f = none ∧ t.endpoints = s.endpoints := by
    show (runWhole s _).metas.lookup f = none ∧ (runWhole s _).endpoints = s.endpoints
    cases hlive : s.metas.lookup f with
    | none => exact ⟨hlive, rfl⟩
    | some m => exact ⟨AList.lookup_erase _ _, rfl⟩
  obtain ⟨hmetas, hrows⟩ := runWhole_deletes t (endpointsOf s.endpoints f)
  rw [pruneSteps, runWhole_append]
  refine ⟨by rw [hmetas]; exact ht.1, fun k hk => (hrows k).trans ?_⟩
  by_cases hmem : k ∈ endpointsOf s.endpoints f
  · rw [if_pos hmem]
  · rw [if_neg hmem, ht.2]
    by_contra hne
    obtain ⟨v, hv⟩ := Option.ne_none_iff_exists'.mp hne
    exact hmem (mem_endpointsOf.mpr ⟨hk, v, hv⟩)

end

/-! ## Pass after pass -/

section
variable {s : FrontStore} {desired : Table LbFrontKey DesiredFront} {keepPrevious : Finset LbFrontKey}
  {fails : FrontLog → FrontWrite → Option MapError} {order : IterationOrder LbFrontKey}
  {used : FrontUsage} {cap : FrontCapacity}

/-- A pruning pass without refusals and failures leaves every desired front as desired. -/
theorem cleanPass_asDesired
    (hclean : (frontPass fails order s desired true keepPrevious used cap).2.failures = [])
    (hlen : ∀ f want, desired.lookup f = some want → want.endpoints.length ≤ 65535) {f : LbFrontKey}
    {want : DesiredFront} (hd : desired.lookup f = some want) :
    ∃ m, AsDesired (storeAfter s (frontPass fails order s desired true keepPrevious used cap).1) f want m := by
  have hsame := sameFront_cleanPass hclean f
  simp only [planFrontSteps, hd] at hsame
  cases hu : unchangedMeta s.endpoints f want (s.metas.lookup f) with
  | some m =>
    rw [hu] at hsame
    exact ⟨_, AsDesired.congr hsame (runWhole_refreshSteps _ hu).1⟩
  | none =>
    rw [hu] at hsame
    exact ⟨_, AsDesired.congr hsame (runWhole_swapSteps s f (hlen f want hd)).1⟩

/-- And it leaves nothing of a front that is not desired. -/
theorem cleanPass_absent
    (hclean : (frontPass fails order s desired true keepPrevious used cap).2.failures = [])
    {f : LbFrontKey} (hd : desired.lookup f = none) :
    Absent (storeAfter s (frontPass fails order s desired true keepPrevious used cap).1) f := by
  have hsame := sameFront_cleanPass hclean f
  simp only [planFrontSteps, hd, if_true] at hsame
  exact Absent.congr hsame (runWhole_pruneSteps s f)

/-- A front reported as swapped went through a swap, not a refresh. -/
theorem unchangedMeta_none_of_swapped {f : LbFrontKey}
    (hf : f ∈ (frontPass fails order s desired true keepPrevious used cap).2.swapped) :
    ∃ want, desired.lookup f = some want ∧
      unchangedMeta s.endpoints f want (s.metas.lookup f) = none := by
  obtain ⟨logs, _, hplans⟩ := runFrontPlans_issued fails
    (planFrontWrites s.metas s.endpoints desired true keepPrevious order) s.metas used cap
  obtain ⟨plan, hplan, rfl, w, hw, hcommits⟩ := hplans.swapped_commits f hf
  rw [(mem_planFrontWrites.mp hplan).2.1] at hw
  simp only [planFrontSteps] at hw
  have hdel : ∀ ks : List FrontEndpointKey, w ∉ ks.map FrontWrite.deleteEndpoint := by
    intro ks hmem
    obtain ⟨k, _, rfl⟩ := List.mem_map.mp hmem
    cases hcommits
  cases hd : desired.lookup plan.front with
  | none =>
    simp only [hd, if_true, pruneSteps] at hw
    rcases List.mem_append.mp hw with hw | hw
    · split at hw
      · rw [List.mem_singleton.mp hw] at hcommits
        cases hcommits
      · cases hw
    · exact absurd hw (hdel _)
  | some want =>
    refine ⟨want, rfl, ?_⟩
    cases hu : unchangedMeta s.endpoints plan.front want (s.metas.lookup plan.front) with
    | none => rfl
    | some m =>
      -- a refresh writes the live generation again, which commits nothing
      simp only [hd, hu, refreshSteps] at hw
      rcases List.mem_append.mp hw with hw | hw
      · exact absurd hw (hdel _)
      · split at hw
        · rw [List.mem_singleton.mp hw, (unchangedMeta_eq_some.mp hu).1] at hcommits
          exact absurd hcommits (by simp [FrontWrite.commits])
        · cases hw

/-- A front in its grace that was just swapped has nothing to do. -/
theorem planFrontSteps_swapped
    (hclean : (frontPass fails order s desired true keepPrevious used cap).2.failures = [])
    (hlen : ∀ f want, desired.lookup f = some want → want.endpoints.length ≤ 65535) {f : LbFrontKey}
    (hf : f ∈ (frontPass fails order s desired true keepPrevious used cap).2.swapped)
    {keep : Finset LbFrontKey} (hkeep : f ∈ keep) :
    planFrontSteps (storeAfter s (frontPass fails order s desired true keepPrevious used cap).1).metas
      (storeAfter s (frontPass fails order s desired true keepPrevious used cap).1).endpoints desired true
      keep f = [] := by
  obtain ⟨want, hd, hu⟩ := unchangedMeta_none_of_swapped hf
  have hsame := sameFront_cleanPass hclean f
  simp only [planFrontSteps, hd, hu] at hsame
  obtain ⟨hdone, honly⟩ := runWhole_swapSteps s f (hlen f want hd)
  rw [planFrontSteps_asDesired hd (AsDesired.congr hsame hdone), List.map_eq_nil_iff,
    List.filter_eq_nil_iff]
  intro k hk hstale
  obtain ⟨hkf, v, hv⟩ := mem_endpointsOf.mp hk
  simp only [staleGeneration, Bool.and_eq_true, bne_iff_ne, Bool.not_eq_true', Bool.and_eq_false_iff,
    decide_eq_false_iff_not, beq_eq_false_iff_ne] at hstale
  obtain ⟨hnew, hprev⟩ := hstale
  rcases OnlyGenerations.congr hsame honly k hkf v hv with hg | hg
  · exact hnew hg
  · cases hlive : s.metas.lookup f with
    | none => rw [hlive] at hg; cases hg
    | some m =>
      rw [hlive] at hg hprev
      rcases hprev with hprev | hprev
      · exact hprev hkeep
      · refine hprev ((Option.some_inj.mp hg).trans ?_)
        show m.generation = m.generation + 1 - 1
        exact (UInt32.add_sub_cancel m.generation 1).symm

/-- Planning without a grace deletes rows of generations that are not live, and nothing else. -/
theorem planFrontSteps_asDesired_mem {f : LbFrontKey} {want : DesiredFront} {m : FrontMeta}
    {pruneAbsent : Bool} {keep : Finset LbFrontKey} (hd : desired.lookup f = some want)
    (h : AsDesired s f want m) {w : FrontWrite}
    (hw : w ∈ planFrontSteps s.metas s.endpoints desired pruneAbsent keep f) :
    ∃ k, w = .deleteEndpoint k ∧ k.front = f ∧ k.generation ≠ m.generation := by
  rw [planFrontSteps_asDesired hd h] at hw
  obtain ⟨k, hk, rfl⟩ := List.mem_map.mp hw
  obtain ⟨hmem, hstale⟩ := List.mem_filter.mp hk
  exact ⟨k, rfl, (mem_endpointsOf.mp hmem).1, bne_iff_ne.mp (Bool.and_eq_true_iff.mp hstale).1⟩

/-- The deletions planned without a grace, run whole, leave a front with its live generation only. -/
theorem runWhole_asDesired {f : LbFrontKey} {want : DesiredFront} {m : FrontMeta}
    (hd : desired.lookup f = some want) (h : AsDesired s f want m) :
    AsDesired (runWhole s (planFrontSteps s.metas s.endpoints desired true ∅ f)) f want m ∧
      OnlyGenerations (runWhole s (planFrontSteps s.metas s.endpoints desired true ∅ f)) f
        (fun g => g = m.generation) := by
  have hsteps : planFrontSteps s.metas s.endpoints desired true ∅ f =
      refreshSteps (endpointsOf s.endpoints f) f want m false := by
    rw [planFrontSteps_asDesired hd h, refreshSteps, h.2.2.1, bne_self_eq_false]
    simp
  have hu : unchangedMeta s.endpoints f want (s.metas.lookup f) = some m :=
    unchangedMeta_eq_some.mpr ⟨h.1, h.2.1, h.2.2.2.1, h.2.2.2.2⟩
  obtain ⟨hdone, honly⟩ := runWhole_refreshSteps false hu
  rw [hsteps]
  refine ⟨?_, fun k hk v hv => (honly k hk v hv).resolve_right fun hf => Bool.false_ne_true hf.1⟩
  rwa [show { m with flags := want.flags } = m by rw [← h.2.2.1]] at hdone

/-- Once every front is as desired and has its live generation only, planning returns nothing. -/
theorem planFrontWrites_settled {pruneAbsent : Bool} {keep : Finset LbFrontKey}
    (hdesired : ∀ f want, desired.lookup f = some want →
      ∃ m, AsDesired s f want m ∧ OnlyGenerations s f fun g => g = m.generation)
    (habsent : ∀ f, desired.lookup f = none → Absent s f) :
    planFrontWrites s.metas s.endpoints desired pruneAbsent keep order = [] := by
  refine List.eq_nil_iff_forall_not_mem.mpr fun plan hplan => ?_
  obtain ⟨_, hsteps, hne⟩ := mem_planFrontWrites.mp hplan
  refine hne (hsteps.trans ?_)
  cases hd : desired.lookup plan.front with
  | none => exact planFrontSteps_absent hd (habsent _ hd)
  | some want =>
    obtain ⟨m, hdone, honly⟩ := hdesired _ want hd
    rw [planFrontSteps_asDesired hd hdone, List.map_eq_nil_iff, List.filter_eq_nil_iff]
    intro k hk hstale
    obtain ⟨hkf, v, hv⟩ := mem_endpointsOf.mp hk
    exact bne_iff_ne.mp (Bool.and_eq_true_iff.mp hstale).1 (honly k hkf v hv)

end

/-! ## A front that is as desired keeps its generation -/

/-- Writes that neither drop a front's meta row nor give it another generation. -/
def KeepsGeneration (f : LbFrontKey) (g : UInt32) (w : FrontWrite) : Prop :=
  w ≠ .deleteMeta f ∧ ∀ m, w = .putMeta f m → m.generation = g

theorem generation_storeAfter {f : LbFrontKey} {g : UInt32} {log : FrontLog}
    (hlog : ∀ w ∈ log, KeepsGeneration f g w.1) {s : FrontStore}
    (hs : (s.metas.lookup f).map (·.generation) = some g) :
    ((storeAfter s log).metas.lookup f).map (·.generation) = some g := by
  induction log generalizing s with
  | nil => exact hs
  | cons e log ih =>
    obtain ⟨w, ok⟩ := e
    rw [storeAfter_cons]
    refine ih (fun w' hw' => hlog w' (List.mem_cons_of_mem _ hw')) ?_
    cases ok with
    | false => exact hs
    | true =>
      obtain ⟨hdel, hput⟩ := hlog (w, true) List.mem_cons_self
      by_cases hw : w.front = f
      · cases w with
        | deleteEndpoint | putEndpoint => exact hs
        | putMeta f' m =>
          obtain rfl : f' = f := hw
          show ((s.metas.insert f' m).lookup f').map (·.generation) = some g
          rw [AList.lookup_insert, Option.map_some, hput m rfl]
        | deleteMeta f' =>
          obtain rfl : f' = f := hw
          exact absurd rfl hdel
      · rw [if_pos rfl, (sameFront_apply_other hw).1]
        exact hs

/-- At every point of every pass. -/
theorem frontPass_keeps_generation {fails : FrontLog → FrontWrite → Option MapError}
    {order : IterationOrder LbFrontKey} {s : FrontStore} {desired : Table LbFrontKey DesiredFront}
    {pruneAbsent : Bool} {keepPrevious : Finset LbFrontKey} {used : FrontUsage} {cap : FrontCapacity}
    {f : LbFrontKey} {want : DesiredFront} {m : FrontMeta} (hd : desired.lookup f = some want)
    (hu : unchangedMeta s.endpoints f want (s.metas.lookup f) = some m) {p : FrontLog}
    (hp : p <+: (frontPass fails order s desired pruneAbsent keepPrevious used cap).1) :
    ((storeAfter s p).metas.lookup f).map (·.generation) = some m.generation := by
  have hsteps : ∀ w ∈ planFrontSteps s.metas s.endpoints desired pruneAbsent keepPrevious f,
      KeepsGeneration f m.generation w := by
    intro w hw
    simp only [planFrontSteps, hd, hu, refreshSteps] at hw
    rcases List.mem_append.mp hw with hw | hw
    · obtain ⟨k, _, rfl⟩ := List.mem_map.mp hw
      exact ⟨by simp, by simp⟩
    · split at hw
      · rw [List.mem_singleton.mp hw]
        refine ⟨by simp, fun m' hm' => ?_⟩
        rw [← (FrontWrite.putMeta.inj hm').2]
      · cases hw
  refine generation_storeAfter (fun w hw => ?_) ?_
  · by_cases hf : w.1.front = f
    · exact hsteps w.1 (hf ▸ mem_frontPass (hp.subset hw))
    · exact ⟨fun h => hf (by rw [h]; rfl), fun m' h => absurd (by rw [h]; rfl) hf⟩
  · rw [(unchangedMeta_eq_some.mp hu).1, Option.map_some]

/-- **Planner and executor converge, and then stay quiet.** After a pruning pass in which nothing was refused
    and nothing failed, `FRONT_META` holds exactly the desired fronts, each with its count, flags, local count
    and slots; planning again with the swapped fronts in their grace has no plan for them; planning without a
    grace only deletes rows of generations that are not live; and after those deletions every planning is
    empty. A front whose desired endpoint list and local count are the live ones keeps its generation at every
    point of every pass, whatever is pruned, kept, refused or fails. -/
theorem frontPass_converges_then_quiet (fails : FrontLog → FrontWrite → Option MapError)
    (order : IterationOrder LbFrontKey) (s : FrontStore) (desired : Table LbFrontKey DesiredFront)
    (keepPrevious : Finset LbFrontKey) (used : FrontUsage) (cap : FrontCapacity)
    (hlen : ∀ f want, desired.lookup f = some want → want.endpoints.length ≤ 65535)
    (hclean : (frontPass fails order s desired true keepPrevious used cap).2.failures = [])
    (s₁ : FrontStore)
    (hs₁ : s₁ = storeAfter s (frontPass fails order s desired true keepPrevious used cap).1) :
    ((∀ f, desired.lookup f = none → s₁.metas.lookup f = none) ∧
      ∀ f want, desired.lookup f = some want → ∃ m, s₁.metas.lookup f = some m ∧
        m.count.toNat = want.endpoints.length ∧ m.flags = want.flags ∧ m.localCount = want.localCount ∧
        ∀ slot (h : slot < want.endpoints.length),
          s₁.endpoints.lookup (endpointKey f m.generation slot) = some want.endpoints[slot]) ∧
    (∀ (keep : Finset LbFrontKey) (order' : IterationOrder LbFrontKey),
      (∀ f ∈ (frontPass fails order s desired true keepPrevious used cap).2.swapped, f ∈ keep) →
      ∀ plan ∈ planFrontWrites s₁.metas s₁.endpoints desired true keep order',
        plan.front ∉ (frontPass fails order s desired true keepPrevious used cap).2.swapped) ∧
    (∀ order' : IterationOrder LbFrontKey,
      ∀ plan ∈ planFrontWrites s₁.metas s₁.endpoints desired true ∅ order', ∀ w ∈ plan.steps,
        ∃ k m, w = .deleteEndpoint k ∧ s₁.metas.lookup k.front = some m ∧ k.generation ≠ m.generation) ∧
    (∀ (fails' : FrontLog → FrontWrite → Option MapError) (order' : IterationOrder LbFrontKey)
      (used' : FrontUsage) (cap' : FrontCapacity) (s₂ : FrontStore),
      (frontPass fails' order' s₁ desired true ∅ used' cap').2.failures = [] →
      s₂ = storeAfter s₁ (frontPass fails' order' s₁ desired true ∅ used' cap').1 →
      ∀ (pruneAbsent : Bool) (keep : Finset LbFrontKey) (order'' : IterationOrder LbFrontKey),
        planFrontWrites s₂.metas s₂.endpoints desired pruneAbsent keep order'' = []) ∧
    (∀ (fails' : FrontLog → FrontWrite → Option MapError) (order' : IterationOrder LbFrontKey)
      (pruneAbsent : Bool) (keep : Finset LbFrontKey) (used' : FrontUsage) (cap' : FrontCapacity)
      (p : FrontLog), p <+: (frontPass fails' order' s desired pruneAbsent keep used' cap').1 →
      ∀ f want m, desired.lookup f = some want → s.metas.lookup f = some m →
        m.count.toNat = want.endpoints.length →
        (∀ slot (h : slot < want.endpoints.length),
          s.endpoints.lookup (endpointKey f m.generation slot) = some want.endpoints[slot]) →
        m.localCount = want.localCount →
        ((storeAfter s p).metas.lookup f).map (·.generation) = some m.generation) := by
  have hdesired : ∀ f want, desired.lookup f = some want → ∃ m, AsDesired s₁ f want m :=
    fun f want hd => hs₁ ▸ cleanPass_asDesired hclean hlen hd
  have habsent : ∀ f, desired.lookup f = none → Absent s₁ f :=
    fun f hd => hs₁ ▸ cleanPass_absent hclean hd
  refine ⟨⟨fun f hd => (habsent f hd).1, fun f want hd => ?_⟩, ?_, ?_, ?_, ?_⟩
  · obtain ⟨m, hm, hc, hfl, hlc, hslots⟩ := hdesired f want hd
    exact ⟨m, hm, by rw [hc, count_toNat (hlen f want hd)], hfl, hlc, hslots⟩
  · intro keep order' hkeep plan hplan hswapped
    obtain ⟨_, hsteps, hne⟩ := mem_planFrontWrites.mp hplan
    refine hne (hsteps.trans ?_)
    rw [hs₁]
    exact planFrontSteps_swapped hclean hlen hswapped (hkeep _ hswapped)
  · intro order' plan hplan w hw
    obtain ⟨_, hsteps, _⟩ := mem_planFrontWrites.mp hplan
    rw [hsteps] at hw
    cases hd : desired.lookup plan.front with
    | none => rw [planFrontSteps_absent hd (habsent _ hd)] at hw; cases hw
    | some want =>
      obtain ⟨m, hdone⟩ := hdesired _ want hd
      obtain ⟨k, rfl, hkf, hg⟩ := planFrontSteps_asDesired_mem hd hdone hw
      exact ⟨k, m, rfl, by rw [hkf]; exact hdone.1, hg⟩
  · intro fails' order' used' cap' s₂ hclean' hs₂ pruneAbsent keep order''
    have hsame := fun f => sameFront_cleanPass hclean' f
    subst hs₂
    refine planFrontWrites_settled (fun f want hd => ?_) fun f hd => ?_
    · obtain ⟨m, hdone⟩ := hdesired f want hd
      obtain ⟨hdone', honly⟩ := runWhole_asDesired hd hdone
      exact ⟨m, AsDesired.congr (hsame f) hdone', OnlyGenerations.congr (hsame f) honly⟩
    · have hend := hsame f
      rw [planFrontSteps_absent hd (habsent f hd)] at hend
      exact Absent.congr hend (habsent f hd)
  · intro fails' order' pruneAbsent keep used' cap' p hp f want m hd hm hc hslots hlc
    refine frontPass_keeps_generation hd (unchangedMeta_eq_some.mpr ⟨hm, ?_, hlc, hslots⟩) hp
    have hc' := count_toNat (hlen f want hd)
    exact UInt16.toNat_inj.mp (hc.trans hc'.symm)

/-- A swap from one endpoint to two: the pass is clean, the front is as desired, and with the front in its
    grace there is no plan left. -/
theorem frontPass_converges_then_quiet_two_endpoints :
    letI pass := frontPass (fun _ _ => none) ⟨id, fun _ => .rfl⟩ sampleFrontStore sampleDesired true ∅
      { metas := 1, endpoints := 1 } ⟨10, 10⟩
    letI s₁ := storeAfter sampleFrontStore pass.1
    pass.2.failures = [] ∧ pass.2.swapped = [sampleFront] ∧
      (∀ plan ∈ planFrontWrites s₁.metas s₁.endpoints sampleDesired true {sampleFront} ⟨id, fun _ => .rfl⟩,
        plan.front ∉ pass.2.swapped) ∧
      (s₁.metas.lookup sampleFront).map (·.generation) = some 6 := by
  have hclean : (frontPass (fun _ _ => none) ⟨id, fun _ => .rfl⟩ sampleFrontStore sampleDesired true ∅
      { metas := 1, endpoints := 1 } ⟨10, 10⟩).2.failures = [] := by decide
  have hswapped : (frontPass (fun _ _ => none) ⟨id, fun _ => .rfl⟩ sampleFrontStore sampleDesired true ∅
      { metas := 1, endpoints := 1 } ⟨10, 10⟩).2.swapped = [sampleFront] := by decide
  have hlen : ∀ f want, sampleDesired.lookup f = some want → want.endpoints.length ≤ 65535 := by
    intro f want hwant
    rw [sampleDesired, Table.lookup_insert_ite] at hwant
    by_cases hf : f = sampleFront
    · rw [if_pos hf] at hwant
      cases hwant
      exact show 2 ≤ 65535 by decide
    · rw [if_neg hf] at hwant
      cases hwant
  have h := frontPass_converges_then_quiet (fun _ _ => none) ⟨id, fun _ => .rfl⟩ sampleFrontStore
    sampleDesired ∅ { metas := 1, endpoints := 1 } ⟨10, 10⟩ hlen hclean _ rfl
  refine ⟨hclean, hswapped, h.2.1 {sampleFront} _ fun f hf => ?_, by decide⟩
  rw [hswapped] at hf
  simpa using hf

/-- The same front with a local endpoint that is preferred. -/
def localFrontStore : FrontStore where
  metas := AList.insert sampleFront { generation := 5, count := 1, flags := 0, localCount := 1, pad := 0 } ∅
  endpoints := AList.insert (endpointKey sampleFront 5 0)
    { sampleEndpoint 8080 with flags := endpointFlagIsLocal } ∅

/-- The same endpoint wanted, without the preference. -/
def unpreferredFront : DesiredFront where
  flags := 0
  preferLocal := false
  endpoints := [{ sampleEndpoint 8080 with flags := endpointFlagIsLocal }]

/-- Dropping the preference for local endpoints changes the generation of a front although the desired
    endpoint list is the live one. -/
theorem generation_changes_with_preference :
    letI desired : Table LbFrontKey DesiredFront := AList.insert sampleFront unpreferredFront ∅
    letI pass := frontPass (fun _ _ => none) ⟨id, fun _ => .rfl⟩ localFrontStore desired true ∅
      { metas := 1, endpoints := 1 } ⟨10, 10⟩
    pass.2.failures = [] ∧
      (localFrontStore.view sampleFront).map (·.endpoints) = some (unpreferredFront.endpoints.map some) ∧
      (localFrontStore.metas.lookup sampleFront).map (·.generation) = some 5 ∧
      ((storeAfter localFrontStore pass.1).metas.lookup sampleFront).map (·.generation) = some 6 := by
  decide

end Beep
