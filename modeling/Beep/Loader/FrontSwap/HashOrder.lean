import Beep.Lib.StableSort
import Beep.Loader.FrontSwap.Converge
import Beep.Loader.FrontSwap.Fairness

/-!
# `Loader.FrontSwap.HashOrder` — planning does not depend on the order of the hash maps

The planner walks hash maps and a hash set, so the rows of a front and the fronts reach it in any order. Of the steps of a
front only the deletes of endpoint rows come from such a walk, and they stand side by side (`SameSteps`). The effect of a
plan does not tell their order, and the sort tells all fronts apart whose pad byte is zero; so the plans come in the same
order, and the executor refuses, swaps and leaves behind the same.
-/

namespace Beep

open Peak

/-- The same two maps, iterated in another order. -/
structure FrontStore.Same (s t : FrontStore) : Prop where
  metas : s.metas.Same t.metas
  endpoints : s.endpoints.Same t.endpoints

/-- The same steps, up to the order of deletes of endpoint rows that stand side by side. -/
def SameSteps (steps steps' : List FrontWrite) : Prop :=
  ∃ (before : List FrontWrite) (ks ks' : List FrontEndpointKey) (after : List FrontWrite), ks.Perm ks' ∧
    steps = before ++ ks.map .deleteEndpoint ++ after ∧ steps' = before ++ ks'.map .deleteEndpoint ++ after

/-- The same plan, up to the order of its deletes. -/
def SamePlan (p q : FrontPlan) : Prop := p.front = q.front ∧ SameSteps p.steps q.steps

/-! ## The steps of a front -/

/-- What does not tell one delete from another does not tell the steps apart. -/
theorem SameSteps.map_eq {β : Type*} {g : FrontWrite → β} {steps steps' : List FrontWrite} (h : SameSteps steps steps')
    (hg : ∀ k k', g (.deleteEndpoint k) = g (.deleteEndpoint k')) : steps.map g = steps'.map g := by
  obtain ⟨before, ks, ks', after, hperm, rfl, rfl⟩ := h
  have hdeletes : (ks.map FrontWrite.deleteEndpoint).map g = (ks'.map FrontWrite.deleteEndpoint).map g := by
    apply List.ext_getElem
    · simp only [List.length_map, hperm.length_eq]
    · intro i hi hi'
      simp only [List.getElem_map]
      exact hg _ _
  rw [List.map_append, List.map_append, hdeletes, ← List.map_append, ← List.map_append]

theorem SameSteps.isEmpty_eq {steps steps' : List FrontWrite} (h : SameSteps steps steps') :
    steps.isEmpty = steps'.isEmpty := by
  have hshape := congrArg List.isEmpty (@SameSteps.map_eq _ (fun _ => ()) _ _ h fun _ _ => rfl)
  rwa [List.isEmpty_map, List.isEmpty_map] at hshape

/-- The effect of a plan is that of its steps one by one. -/
theorem planEffect_same {p q : FrontPlan} (h : SamePlan p q) (had : Bool) : planEffect p had = planEffect q had := by
  have hdeltas := @SameSteps.map_eq _ (fun w => (w.endpointDelta, w.metaDelta had)) _ _ h.2 fun _ _ => rfl
  have hfold : ∀ steps : List FrontWrite, ∀ t : EffectTotals,
      steps.foldl (fun (t : EffectTotals) step =>
        let ep := t.ep + step.endpointDelta
        let metas := t.metas + step.metaDelta had
        { ep, epPeak := max t.epPeak ep, metas, metasPeak := max t.metasPeak metas }) t =
      (steps.map fun w => (w.endpointDelta, w.metaDelta had)).foldl (fun t d =>
        { ep := t.ep + d.1, epPeak := max t.epPeak (t.ep + d.1),
          metas := t.metas + d.2, metasPeak := max t.metasPeak (t.metas + d.2) }) t := by
    intro steps t
    rw [List.foldl_map]
  unfold planEffect
  rw [hfold, hfold, hdeltas]

section
variable {s t : FrontStore} {desired desired' : Table LbFrontKey DesiredFront} {pruneAbsent : Bool}
  {keepPrevious : Finset LbFrontKey}

theorem endpointsOf_perm (h : s.endpoints.Same t.endpoints) (f : LbFrontKey) :
    (endpointsOf s.endpoints f).Perm (endpointsOf t.endpoints f) :=
  ((Table.same_iff_perm.mp h).map Sigma.fst).filter _

theorem unchangedMeta_same (h : s.Same t) (f : LbFrontKey) (want : DesiredFront) :
    unchangedMeta s.endpoints f want (s.metas.lookup f) = unchangedMeta t.endpoints f want (t.metas.lookup f) := by
  unfold unchangedMeta
  rw [h.metas f]
  simp only [h.endpoints _]

theorem refreshSteps_same {existing existing' : List FrontEndpointKey} (h : existing.Perm existing') (f : LbFrontKey)
    (want : DesiredFront) (m : FrontMeta) (kept : Bool) :
    SameSteps (refreshSteps existing f want m kept) (refreshSteps existing' f want m kept) :=
  ⟨[], _, _, _, h.filter (staleGeneration m.generation kept), rfl, rfl⟩

theorem swapSteps_same {existing existing' : List FrontEndpointKey} (h : existing.Perm existing') (f : LbFrontKey)
    (want : DesiredFront) (live : Option FrontMeta) :
    SameSteps (swapSteps existing f want live) (swapSteps existing' f want live) :=
  ⟨[], _, _, _, h.filter fun k => some k.generation != live.map (·.generation), List.append_assoc .., List.append_assoc ..⟩

/-- **One front** has the same steps whatever the maps are iterated in. -/
theorem planFrontSteps_same (h : s.Same t) (hd : desired.Same desired') (f : LbFrontKey) :
    SameSteps (planFrontSteps s.metas s.endpoints desired pruneAbsent keepPrevious f)
      (planFrontSteps t.metas t.endpoints desired' pruneAbsent keepPrevious f) := by
  have hperm := endpointsOf_perm h.endpoints f
  unfold planFrontSteps
  rw [hd f, h.metas f]
  cases desired'.lookup f with
  | none =>
    cases pruneAbsent with
    | false => exact ⟨[], [], [], [], .nil, rfl, rfl⟩
    | true => exact ⟨_, _, _, [], hperm, (List.append_nil _).symm, (List.append_nil _).symm⟩
  | some want =>
    have hunchanged := unchangedMeta_same h f want
    rw [h.metas f] at hunchanged
    simp only [hunchanged]
    cases unchangedMeta t.endpoints f want (t.metas.lookup f) with
    | some m => exact refreshSteps_same hperm f want m _
    | none => exact swapSteps_same hperm f want _

/-! ## The plans of a pass -/

/-- The pad byte of every front is zero. -/
structure PadsZero (s : FrontStore) (desired : Table LbFrontKey DesiredFront) : Prop where
  metas : ∀ f ∈ s.metas.keys, f.pad = 0
  endpoints : ∀ k ∈ s.endpoints.keys, k.front.pad = 0 ∧ k.pad = 0
  desired : ∀ f ∈ desired.keys, f.pad = 0

theorem PadsZero.planned (h : PadsZero s desired) {f : LbFrontKey}
    (hf : f ∈ plannedFronts s.metas s.endpoints desired pruneAbsent) : f.pad = 0 := by
  unfold plannedFronts at hf
  rcases List.mem_append.mp (List.mem_dedup.mp hf) with hf | hf
  · exact h.desired f hf
  · split at hf
    · rcases List.mem_append.mp hf with hf | hf
      · exact h.metas f hf
      · obtain ⟨k, hk, rfl⟩ := List.mem_map.mp hf
        exact (h.endpoints k hk).1
    · cases hf

theorem plannedFronts_perm (h : s.Same t) (hd : desired.Same desired') :
    (plannedFronts s.metas s.endpoints desired pruneAbsent).Perm
      (plannedFronts t.metas t.endpoints desired' pruneAbsent) := by
  have hkeys : ∀ {V : Type} {a b : Table LbFrontKey V}, a.Same b → a.keys.Perm b.keys := fun hab =>
    (Table.same_iff_perm.mp hab).map Sigma.fst
  have hrows : s.endpoints.keys.Perm t.endpoints.keys := (Table.same_iff_perm.mp h.endpoints).map Sigma.fst
  unfold plannedFronts
  refine List.Perm.dedup ((hkeys hd).append ?_)
  cases pruneAbsent with
  | false => exact .nil
  | true => exact (hkeys h.metas).append (hrows.map _)

/-- The order of the plans is one of comparisons behind each other. -/
instance (had : LbFrontKey → Bool) : Std.TransCmp (planOrdering had) :=
  inferInstanceAs (Std.TransCmp (compareLex (compareOn fun p => (planEffect p (had p.front)).1)
    (compareLex (compareOn fun p => p.front.frontIp.toList)
      (compareLex (compareOn fun p => p.front.frontPort) (compareOn fun p => p.front.proto)))))

/-- It tells fronts apart that differ in more than the pad byte. -/
theorem front_eq_of_planOrdering {had : LbFrontKey → Bool} {p q : FrontPlan} (h : planOrdering had p q = .eq)
    (hp : p.front.pad = 0) (hq : q.front.pad = 0) : p.front = q.front := by
  unfold planOrdering at h
  simp only [Ordering.then_eq_eq, Std.LawfulEqOrd.compare_eq_iff_eq] at h
  obtain ⟨-, hip, hport, hproto⟩ := h
  obtain ⟨f, steps⟩ := p
  obtain ⟨g, steps'⟩ := q
  obtain ⟨ip, port, proto, pad⟩ := f
  obtain ⟨ip', port', proto', pad'⟩ := g
  obtain rfl : ip = ip' := Vector.toList_inj.mp hip
  obtain rfl : port = port' := hport
  obtain rfl : proto = proto' := hproto
  obtain rfl : pad = 0 := hp
  obtain rfl : pad' = 0 := hq
  rfl

/-- The plan of a front. -/
def planOf (s : FrontStore) (desired : Table LbFrontKey DesiredFront) (pruneAbsent : Bool)
    (keepPrevious : Finset LbFrontKey) (f : LbFrontKey) : FrontPlan where
  front := f
  steps := planFrontSteps s.metas s.endpoints desired pruneAbsent keepPrevious f

/-- The planner sorts the fronts. -/
theorem planFrontWrites_eq (order : IterationOrder LbFrontKey) :
    planFrontWrites s.metas s.endpoints desired pruneAbsent keepPrevious order =
      (((order.arrange (plannedFronts s.metas s.endpoints desired pruneAbsent)).filter fun f =>
        !(planOf s desired pruneAbsent keepPrevious f).steps.isEmpty).insertionSort fun f g =>
          (planOrdering (fun f => (s.metas.lookup f).isSome) (planOf s desired pruneAbsent keepPrevious f)
            (planOf s desired pruneAbsent keepPrevious g)).isLE = true).map (planOf s desired pruneAbsent keepPrevious) := by
  unfold planFrontWrites
  rw [List.map_insertionSort _ (fun p q : FrontPlan =>
    (planOrdering (fun f => (s.metas.lookup f).isSome) p q).isLE = true) _ _ fun _ _ _ _ => Iff.rfl]
  exact congrArg (List.insertionSort _) List.filter_map

theorem planOf_same (h : s.Same t) (hd : desired.Same desired') (f : LbFrontKey) :
    SamePlan (planOf s desired pruneAbsent keepPrevious f) (planOf t desired' pruneAbsent keepPrevious f) :=
  ⟨rfl, planFrontSteps_same h hd f⟩

/-- **The plans** are the same, in the same order. -/
theorem planFrontWrites_same (h : s.Same t) (hd : desired.Same desired') (hpads : PadsZero s desired)
    (order order' : IterationOrder LbFrontKey) :
    List.Forall₂ SamePlan (planFrontWrites s.metas s.endpoints desired pruneAbsent keepPrevious order)
      (planFrontWrites t.metas t.endpoints desired' pruneAbsent keepPrevious order') := by
  -- the other side plans for the same fronts and compares them alike
  have hwork : ∀ f, (planOf t desired' pruneAbsent keepPrevious f).steps.isEmpty =
      (planOf s desired pruneAbsent keepPrevious f).steps.isEmpty :=
    fun f => (planOf_same h hd f).2.isEmpty_eq.symm
  have hcompare : ∀ f g, planOrdering (fun f => (t.metas.lookup f).isSome) (planOf t desired' pruneAbsent keepPrevious f)
      (planOf t desired' pruneAbsent keepPrevious g) =
        planOrdering (fun f => (s.metas.lookup f).isSome) (planOf s desired pruneAbsent keepPrevious f)
          (planOf s desired pruneAbsent keepPrevious g) := by
    intro f g
    unfold planOrdering
    simp only [planEffect_same (planOf_same h hd f), planEffect_same (planOf_same h hd g), h.metas _]
    rfl
  have hfronts : ((order.arrange (plannedFronts s.metas s.endpoints desired pruneAbsent)).filter fun f =>
      !(planOf s desired pruneAbsent keepPrevious f).steps.isEmpty).Perm
        ((order'.arrange (plannedFronts t.metas t.endpoints desired' pruneAbsent)).filter fun f =>
          !(planOf s desired pruneAbsent keepPrevious f).steps.isEmpty) :=
    (((order.perm _).trans (plannedFronts_perm h hd)).trans (order'.perm _).symm).filter _
  let cmp : LbFrontKey → LbFrontKey → Ordering := fun f g =>
    planOrdering (fun f => (s.metas.lookup f).isSome) (planOf s desired pruneAbsent keepPrevious f)
      (planOf s desired pruneAbsent keepPrevious g)
  have htrans : Std.TransCmp cmp := StableSort.transCmp_image (planOf s desired pruneAbsent keepPrevious)
  have hsorted := @StableSort.insertionSort_eq_of_perm _ cmp _ _ _ hfronts fun f hf g hg htie =>
    front_eq_of_planOrdering htie (hpads.planned (order.mem_arrange.mp (List.mem_filter.mp hf).1))
      (hpads.planned (order.mem_arrange.mp (List.mem_filter.mp hg).1))
  rw [planFrontWrites_eq, planFrontWrites_eq]
  simp only [hwork, hcompare]
  rw [← hsorted, List.forall₂_map_left_iff, List.forall₂_map_right_iff, List.forall₂_same]
  exact fun f _ => planOf_same h hd f

/-! ## The runs -/

theorem FrontStore.Same.apply (h : s.Same t) (w : FrontWrite) : (s.apply w).Same (t.apply w) := by
  cases w with
  | deleteEndpoint k =>
    refine ⟨h.metas, fun k' => ?_⟩
    show (s.endpoints.erase k).lookup k' = (t.endpoints.erase k).lookup k'
    rw [Table.lookup_erase_ite, Table.lookup_erase_ite, h.endpoints k']
  | putEndpoint k v =>
    refine ⟨h.metas, fun k' => ?_⟩
    show (s.endpoints.insert k v).lookup k' = (t.endpoints.insert k v).lookup k'
    rw [Table.lookup_insert_ite, Table.lookup_insert_ite, h.endpoints k']
  | putMeta f m =>
    refine ⟨fun f' => ?_, h.endpoints⟩
    show (s.metas.insert f m).lookup f' = (t.metas.insert f m).lookup f'
    rw [Table.lookup_insert_ite, Table.lookup_insert_ite, h.metas f']
  | deleteMeta f =>
    refine ⟨fun f' => ?_, h.endpoints⟩
    show (s.metas.erase f).lookup f' = (t.metas.erase f).lookup f'
    rw [Table.lookup_erase_ite, Table.lookup_erase_ite, h.metas f']

theorem FrontStore.Same.runWhole (h : s.Same t) (steps : List FrontWrite) :
    (runWhole s steps).Same (runWhole t steps) := by
  induction steps generalizing s t with
  | nil => exact h
  | cons w steps ih => exact ih (h.apply w)

/-- **One plan** leaves the same rows, whatever the order of its deletes. -/
theorem FrontStore.Same.runWhole_sameSteps (h : s.Same t) {steps steps' : List FrontWrite}
    (hsteps : SameSteps steps steps') :
    (Beep.runWhole s steps).Same (Beep.runWhole t steps') := by
  obtain ⟨before, ks, ks', after, hperm, rfl, rfl⟩ := hsteps
  rw [runWhole_append, runWhole_append, runWhole_append, runWhole_append]
  refine FrontStore.Same.runWhole ?_ after
  have hbefore := h.runWhole before
  obtain ⟨hmetas, hrows⟩ := runWhole_deletes (Beep.runWhole s before) ks
  obtain ⟨hmetas', hrows'⟩ := runWhole_deletes (Beep.runWhole t before) ks'
  refine ⟨fun f => ?_, fun k => ?_⟩
  · rw [hmetas, hmetas']
    exact hbefore.metas f
  · rw [hrows, hrows', hbefore.endpoints k]
    simp only [hperm.mem_iff]

/-- What the executor has done so far, when no write fails: as much on both sides. -/
structure SameSoFar (s t : FrontStore) (a b : FrontLog × FrontUsage × FrontApply) : Prop where
  store : (storeAfter s a.1).Same (storeAfter t b.1)
  used : a.2.1 = b.2.1
  applied : a.2.2 = b.2.2

/-- **One plan of the pass** is refused or run on both sides. -/
theorem SameSoFar.runOnePlan {a b : FrontLog × FrontUsage × FrontApply} (hst : s.Same t) (h : SameSoFar s t a b)
    {p q : FrontPlan} (hpq : SamePlan p q) (cap : FrontCapacity) :
    SameSoFar s t (runOnePlan (issueWrite neverFails) s.metas cap a p)
      (runOnePlan (issueWrite neverFails) t.metas cap b q) := by
  obtain ⟨log, used, applied⟩ := a
  obtain ⟨log', used', applied'⟩ := b
  obtain ⟨hstore, hused, happlied⟩ := h
  dsimp only at hstore hused happlied
  subst hused happlied
  have hshort : capacityShortfall q (t.metas.lookup q.front).isSome used cap =
      capacityShortfall p (s.metas.lookup p.front).isSome used cap := by
    unfold capacityShortfall
    rw [← hpq.1, hst.metas p.front, planEffect_same hpq]
  -- neither tells one delete from another
  have hcommits : q.steps.any (FrontWrite.commits (t.metas.lookup q.front)) =
      p.steps.any (FrontWrite.commits (s.metas.lookup p.front)) := by
    have hmap := @SameSteps.map_eq _ (FrontWrite.commits (s.metas.lookup p.front)) _ _ hpq.2 fun _ _ => rfl
    rw [← hpq.1, ← hst.metas p.front]
    simpa [List.any_map] using congrArg (fun l : List Bool => l.any id) hmap.symm
  have hcount : q.steps.foldl (fun u w => u.apply w (t.metas.lookup q.front).isSome) used =
      p.steps.foldl (fun u w => u.apply w (s.metas.lookup p.front).isSome) used := by
    have hmap := @SameSteps.map_eq _ (fun w u => FrontUsage.apply u w (s.metas.lookup p.front).isSome) _ _ hpq.2
      fun _ _ => rfl
    rw [← hpq.1, ← hst.metas p.front]
    simpa [List.foldl_map] using
      congrArg (fun l : List (FrontUsage → FrontUsage) => l.foldl (fun u g => g u) used) hmap.symm
  cases hfits : capacityShortfall p (s.metas.lookup p.front).isSome used cap with
  | some refused =>
    rw [runOnePlan_refused hfits, runOnePlan_refused (hshort.trans hfits), hpq.1]
    exact ⟨hstore, rfl, rfl⟩
  | none =>
    rw [runOnePlan_ran hfits, runOnePlan_ran (hshort.trans hfits)]
    refine ⟨?_, hcount.symm, ?_⟩
    · show (storeAfter s (log ++ p.steps.map fun w => (w, true))).Same
        (storeAfter t (log' ++ q.steps.map fun w => (w, true)))
      rw [storeAfter_append, storeAfter_append]
      exact hstore.runWhole_sameSteps hpq.2
    · dsimp only
      rw [hcommits, hpq.1]

/-- **The pass** is refused or run plan by plan. -/
theorem SameSoFar.foldl {ps qs : List FrontPlan} (hst : s.Same t) (hplans : List.Forall₂ SamePlan ps qs)
    (cap : FrontCapacity) {a b : FrontLog × FrontUsage × FrontApply} (h : SameSoFar s t a b) :
    SameSoFar s t (ps.foldl (Beep.runOnePlan (issueWrite neverFails) s.metas cap) a)
      (qs.foldl (Beep.runOnePlan (issueWrite neverFails) t.metas cap) b) := by
  induction hplans generalizing a b with
  | nil => exact h
  | cons hpq _ ih => exact ih (h.runOnePlan hst hpq cap)

end

/-- **Planning does not depend on hash order**: whatever the maps and the set of fronts are iterated in, the plans are the
    same in the same order, and with no write failing the passes refuse and swap the same and end in the same two maps. -/
theorem planning_order_free {s t : FrontStore} (hst : s.Same t) {desired desired' : Table LbFrontKey DesiredFront}
    (hd : desired.Same desired') (hpads : PadsZero s desired) (pruneAbsent : Bool) (keepPrevious : Finset LbFrontKey)
    (order order' : IterationOrder LbFrontKey) (used : FrontUsage) (cap : FrontCapacity) :
    List.Forall₂ SamePlan (planFrontWrites s.metas s.endpoints desired pruneAbsent keepPrevious order)
        (planFrontWrites t.metas t.endpoints desired' pruneAbsent keepPrevious order') ∧
      (frontPass neverFails order s desired pruneAbsent keepPrevious used cap).2 =
        (frontPass neverFails order' t desired' pruneAbsent keepPrevious used cap).2 ∧
      (storeAfter s (frontPass neverFails order s desired pruneAbsent keepPrevious used cap).1).Same
        (storeAfter t (frontPass neverFails order' t desired' pruneAbsent keepPrevious used cap).1) := by
  have hplans := @planFrontWrites_same s t desired desired' pruneAbsent keepPrevious hst hd hpads order order'
  have hstart : SameSoFar s t ([], used, {}) ([], used, {}) := ⟨hst, rfl, rfl⟩
  have hrun := hstart.foldl hst hplans cap
  exact ⟨hplans, hrun.applied, hrun.store⟩

/-- Two fronts with one endpoint each. -/
def twoFronts : Table LbFrontKey DesiredFront :=
  AList.insert drainedFront { flags := 0, preferLocal := false, endpoints := [sampleEndpoint 1] }
    (AList.insert sampleFront { flags := 0, preferLocal := false, endpoints := [sampleEndpoint 1] } ∅)

/-- The same, handed out the other way round. -/
def twoFrontsReversed : Table LbFrontKey DesiredFront :=
  AList.insert sampleFront { flags := 0, preferLocal := false, endpoints := [sampleEndpoint 1] }
    (AList.insert drainedFront { flags := 0, preferLocal := false, endpoints := [sampleEndpoint 1] } ∅)

theorem planning_order_free_two_fronts :
    (frontPass neverFails .asStored drainedStore twoFronts true ∅ drainedStore.usage ⟨2, 3⟩).2 =
      (frontPass neverFails .asStored drainedStore twoFrontsReversed true ∅ drainedStore.usage ⟨2, 3⟩).2 := by
  have hsame : twoFronts.Same twoFrontsReversed :=
    Table.same_iff_perm.mpr (List.Perm.swap ..)
  have hpads : PadsZero drainedStore twoFronts := ⟨by decide, by decide, by decide⟩
  exact (planning_order_free ⟨.refl _, .refl _⟩ hsame hpads true ∅ .asStored .asStored _ _).2.1

end Beep
