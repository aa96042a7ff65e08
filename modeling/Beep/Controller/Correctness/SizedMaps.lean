import Beep.Controller.Correctness.PreviousGeneration
import Mathlib.Algebra.Order.BigOperators.Group.Finset
import Mathlib.Algebra.BigOperators.Ring.Finset

/-!
# `Controller.Correctness.SizedMaps` — front maps that are sized for their fronts

`front_map_max_entries` gives `FRONT_ENDPOINTS` two rows for every endpoint of every front. With maps of that size no
plan is ever refused for want of room (`sized_never_refuses`).

A plan is refused for what the pass has used up before it. What the plans before it leave behind is at most the sum of
their peaks (`IssuedBy.net_le_peak`), so where the maps have room for the peaks of all plans together none is refused
(`never_refused`), and a pass none of whose writes fails then has nothing to report (`clean_of_room`). How large the
peaks are is a matter of one front at a time: a refresh and a prune have none, and a swap deletes everything but the live
generation before it writes the next (`rows_add_peak_le`).
-/

namespace Beep

open Peak Run

/-! ## What a plan leaves behind -/

/-- What the writes that succeed add up to is no more than the peak, whichever of the others are missing. -/
theorem IssuedBy.net_le_peak {δ : FrontWrite → Int} (hδ : ∀ w : FrontWrite, w.isDelete = false → 0 ≤ δ w)
    {blocked : Bool} {steps : List FrontWrite} {log : FrontLog} (h : IssuedBy blocked steps log)
    (hdel : ∀ w ∈ log, w.1.isDelete = true → w.2 = true) : net δ (FrontLog.landed log) ≤ peak δ steps := by
  induction h with
  | nil => exact Int.le_refl 0
  | @skipped w rest log hw _ ih =>
    have hput : w.isDelete = false := by cases w <;> first | rfl | cases hw
    exact (ih hdel).trans (room_skip (hδ w hput) rest)
  | @done _ w rest log _ _ ih =>
    have hrest := ih fun v hv => hdel v (List.mem_cons_of_mem _ hv)
    have hlanded : FrontLog.landed ((w, true) :: log) = w :: FrontLog.landed log := rfl
    rw [hlanded, net_cons]
    have hstep := @room_step _ δ w rest
    omega
  | @failed _ w rest log _ _ _ ih =>
    have hrest := ih fun v hv => hdel v (List.mem_cons_of_mem _ hv)
    have hput : w.isDelete = false := by
      by_contra hdelete
      exact Bool.false_ne_true (hdel (w, false) List.mem_cons_self ((Bool.not_eq_false _).mp hdelete))
    exact hrest.trans (room_skip (hδ w hput) rest)
  | @stopped _ w rest hw =>
    have hdelete : w.isDelete = true := by cases w <;> first | rfl | cases hw
    exact absurd (hdel (w, false) List.mem_cons_self hdelete) Bool.false_ne_true

theorem landed_append (log log' : FrontLog) :
    FrontLog.landed (log ++ log') = FrontLog.landed log ++ FrontLog.landed log' := by
  unfold FrontLog.landed
  rw [List.filter_append, List.map_append]

/-- The peaks of some plans, added up. -/
def peaks (δ : FrontWrite → Int) (plans : List FrontPlan) : Int := (plans.map fun p => peak δ p.steps).sum

theorem peaks_cons (δ : FrontWrite → Int) (p : FrontPlan) (plans : List FrontPlan) :
    peaks δ (p :: plans) = peak δ p.steps + peaks δ plans := List.sum_cons

theorem peaks_append (δ : FrontWrite → Int) (plans plans' : List FrontPlan) :
    peaks δ (plans ++ plans') = peaks δ plans + peaks δ plans' := by
  unfold peaks
  rw [List.map_append, List.sum_append]

theorem peaks_nonneg {δ : FrontWrite → Int} (plans : List FrontPlan) : 0 ≤ peaks δ plans := by
  refine List.sum_nonneg fun x hx => ?_
  obtain ⟨p, -, rfl⟩ := List.mem_map.mp hx
  exact peak_nonneg p.steps

/-- What the plans of a pass leave behind is no more than their peaks. -/
theorem net_le_peaks {δ : FrontWrite → Int} (hδ : ∀ w : FrontWrite, w.isDelete = false → 0 ≤ δ w)
    {plans : List FrontPlan} {logs : List FrontLog}
    (h : List.Forall₂ (fun p log => log = [] ∨ IssuedBy false p.steps log) plans logs)
    (hdel : ∀ w ∈ logs.flatten, w.1.isDelete = true → w.2 = true) :
    net δ (FrontLog.landed logs.flatten) ≤ peaks δ plans := by
  induction h with
  | nil => exact Int.le_refl 0
  | @cons p log plans logs hissued _ ih =>
    rw [List.flatten_cons] at hdel ⊢
    have hrest := ih fun w hw => hdel w (List.mem_append_right _ hw)
    have hown : net δ (FrontLog.landed log) ≤ peak δ p.steps := by
      rcases hissued with rfl | hissued
      · exact peak_nonneg p.steps
      · exact hissued.net_le_peak hδ fun w hw => hdel w (List.mem_append_left _ hw)
    rw [landed_append, net_append, peaks_cons]
    omega

/-! ## No refusal -/

section
variable {fails : FrontLog → FrontWrite → Option MapError} {order : IterationOrder LbFrontKey} {s : FrontStore}
  {desired : Table LbFrontKey DesiredFront} {pruneAbsent : Bool} {keepPrevious : Finset LbFrontKey}
  {cap : FrontCapacity}

/-- The change of the number of `FRONT_META` rows, in maps in which a front has a row or not. -/
def FrontStore.metaDelta (s : FrontStore) (w : FrontWrite) : Int := w.metaDelta (s.metas.lookup w.front).isSome

/-- There is room for the peaks of all plans. -/
structure RoomForAll (s : FrontStore) (cap : FrontCapacity) (plans : List FrontPlan) : Prop where
  endpoints : s.usage.endpoints + peaks FrontWrite.endpointDelta plans ≤ cap.endpoints.toNat
  metas : s.usage.metas + peaks s.metaDelta plans ≤ cap.metas.toNat

theorem RoomForAll.within {plans : List FrontPlan} (h : RoomForAll s cap plans) : s.usage.Within cap := by
  obtain ⟨hendpoints, hmetas⟩ := h
  have hposE := @peaks_nonneg FrontWrite.endpointDelta plans
  have hposM := @peaks_nonneg s.metaDelta plans
  constructor <;> omega

/-- The deletes among what the first plans of a pass issue succeed, where no delete fails. -/
theorem passState_deletes (hdel : ∀ log w, w.isDelete = true → fails log w = none) {plans : List FrontPlan}
    (hplans : plans = planFrontWrites s.metas s.endpoints desired pruneAbsent keepPrevious order) (n : Nat)
    {w : FrontWrite × Bool} (hw : w ∈ (passState fails s.metas cap plans s.usage n).1)
    (hdelete : w.1.isDelete = true) : w.2 = true := by
  obtain ⟨logs, hlogs, -⟩ := runOnePlan_foldl_issued fails s.metas cap (plans.drop n)
    (passState fails s.metas cap plans s.usage n)
  have hwhole : (frontPass fails order s desired pruneAbsent keepPrevious s.usage cap).1 =
      ((plans.drop n).foldl (runOnePlan (issueWrite fails) s.metas cap)
        (passState fails s.metas cap plans s.usage n)).1 := by
    unfold passState
    rw [← List.foldl_append, List.take_append_drop, hplans]
    rfl
  have hmem : w ∈ (frontPass fails order s desired pruneAbsent keepPrevious s.usage cap).1 := by
    rw [hwhole, hlogs]
    exact List.mem_append_left _ hw
  exact deletes_succeeded hdel hmem hdelete

/-- **With room for all plans none is refused**, whichever puts of the others fail. -/
theorem never_refused (hdel : ∀ log w, w.isDelete = true → fails log w = none) {plans : List FrontPlan}
    (hplans : plans = planFrontWrites s.metas s.endpoints desired pruneAbsent keepPrevious order)
    (hroom : RoomForAll s cap plans) {n : Nat} {p : FrontPlan} (hp : plans[n]? = some p) :
    capacityShortfall p (s.metas.lookup p.front).isSome (passState fails s.metas cap plans s.usage n).2.1 cap = none := by
  have hacc := (passState_accounted hroom.within hdel hplans n).1
  obtain ⟨logs, hlogs, ⟨own, -, hreported⟩, -⟩ :=
    runOnePlan_foldl_issued fails s.metas cap (plans.take n) ([], s.usage, {})
  have hlog : (passState fails s.metas cap plans s.usage n).1 = logs.flatten := hlogs
  have hissued := hreported.imp fun _ _ h => h.1
  have hdeletes : ∀ w ∈ logs.flatten, w.1.isDelete = true → w.2 = true := by
    intro w hw
    rw [← hlog] at hw
    exact passState_deletes hdel hplans n hw
  -- what is used up is at most the peaks of the plans before
  have hendpoints := @net_le_peaks FrontWrite.endpointDelta (fun w hw => FrontWrite.endpointDelta_nonneg hw) _ _ hissued
    hdeletes
  have hmetas := @net_le_peaks s.metaDelta (fun w hw => FrontWrite.metaDelta_nonneg hw _) _ _ hissued hdeletes
  have hbooksE := hacc.endpoints_eq
  have hbooksM := hacc.metas_eq
  rw [hlog] at hbooksE hbooksM
  change _ = (s.usage.metas : Int) + net s.metaDelta (FrontLog.landed logs.flatten) at hbooksM
  -- and the plan's own peak is still in the sum
  have hsplit : ∀ δ, peaks δ (plans.take n) + peak δ p.steps ≤ peaks δ plans := by
    intro δ
    obtain ⟨hn, rfl⟩ := List.getElem?_eq_some_iff.mp hp
    have hrest := @peaks_nonneg δ (plans.drop (n + 1))
    have hsum : peaks δ plans = peaks δ (plans.take n) + (peak δ plans[n].steps + peaks δ (plans.drop (n + 1))) := by
      rw [← peaks_cons, ← peaks_append, List.getElem_cons_drop, List.take_append_drop]
    omega
  have hE := hsplit FrontWrite.endpointDelta
  have hM := hsplit s.metaDelta
  have hsame : peak s.metaDelta p.steps = peak (FrontWrite.metaDelta (s.metas.lookup p.front).isSome) p.steps := by
    have hmem : p ∈ planFrontWrites s.metas s.endpoints desired pruneAbsent keepPrevious order := by
      rw [← hplans]
      exact List.mem_of_getElem? hp
    refine peak_congr fun w hw => ?_
    unfold FrontStore.metaDelta
    rw [front_of_mem_steps hmem hw]
  obtain ⟨hroomE, hroomM⟩ := hroom
  refine capacityShortfall_eq_none_iff.mpr ⟨?_, ?_⟩
  · omega
  · omega

/-- Steps none of which fails leave nothing to report. -/
theorem runSteps_clean {fails : FrontLog → FrontWrite → Option MapError} (hfails : ∀ log w, fails log w = none)
    (live : Option FrontMeta) (steps : List FrontWrite) (blocked : Bool) (st : FrontLog × FrontUsage × Bool) :
    (runSteps (trackedWrite (issueWrite fails) live) blocked st steps).2 = [] := by
  induction steps generalizing blocked st with
  | nil => rfl
  | cons w rest ih =>
    have hwrite : trackedWrite (issueWrite fails) live st w =
        ((st.1 ++ [(w, true)], st.2.1.apply w live.isSome, st.2.2 || w.commits live), .ok ()) := by
      simp only [trackedWrite, issueWrite, hfails]
    unfold runSteps
    rw [hwrite]
    split
    · exact ih blocked st
    · exact ih blocked _

/-- **With room for all plans, a pass none of whose writes fails reports nothing.** -/
theorem clean_of_room (hfails : ∀ log w, fails log w = none)
    (hroom : RoomForAll s cap (planFrontWrites s.metas s.endpoints desired pruneAbsent keepPrevious order)) :
    (applyFronts fails order s desired pruneAbsent keepPrevious cap).2.failures = [] := by
  let plans := planFrontWrites s.metas s.endpoints desired pruneAbsent keepPrevious order
  have hstate : ∀ n, (passState fails s.metas cap plans s.usage n).2.2.failures = [] := by
    intro n
    induction n with
    | zero => rfl
    | succ n ih =>
      cases hp : plans[n]? with
      | none =>
        unfold passState at ih ⊢
        rw [List.take_add_one, hp, Option.toList_none, List.append_nil]
        exact ih
      | some p =>
        have hfits := never_refused (fun log w _ => hfails log w) (rfl : plans = _) hroom hp
        rw [passState_succ hp]
        unfold runOnePlan
        simp only [hfits, runFrontPlan, runSteps_clean hfails, List.map_nil, List.append_nil]
        exact ih
  have hend := hstate plans.length
  unfold passState at hend
  rw [List.take_length] at hend
  exact hend

end

/-! ## The peaks, front by front -/

section
variable {s : FrontStore} {desired : Table LbFrontKey DesiredFront} {pruneAbsent : Bool}
  {keepPrevious : Finset LbFrontKey} {f : LbFrontKey}

/-- How many endpoints a front should have. -/
def wantedSlots (desired : Table LbFrontKey DesiredFront) (f : LbFrontKey) : Nat :=
  ((desired.lookup f).map (·.endpoints.length)).getD 0

/-- The rows of a front that are of its live generation. -/
def FrontStore.liveRows (s : FrontStore) (f : LbFrontKey) : List FrontEndpointKey :=
  (endpointsOf s.endpoints f).filter fun k => some k.generation == (s.metas.lookup f).map (·.generation)

/-- A prune only deletes. -/
theorem peak_pruneSteps {existing : List FrontEndpointKey} {live : Option FrontMeta} (had : Bool) :
    peak FrontWrite.endpointDelta (pruneSteps existing f live) = 0 ∧
      peak (FrontWrite.metaDelta had) (pruneSteps existing f live) = 0 := by
  have hsteps : ∀ w ∈ pruneSteps existing f live, w.endpointDelta ≤ 0 ∧ w.metaDelta had ≤ 0 := by
    intro w hw
    rcases List.mem_append.mp hw with hw | hw
    · split at hw
      · rw [List.mem_singleton.mp hw]
        exact ⟨Int.le_refl 0, Int.neg_nonpos_of_nonneg Int.one_nonneg⟩
      · cases hw
    · obtain ⟨k, -, rfl⟩ := List.mem_map.mp hw
      exact ⟨Int.neg_nonpos_of_nonneg Int.one_nonneg, Int.le_refl 0⟩
  exact ⟨peak_of_nonpos fun w hw => (hsteps w hw).1, peak_of_nonpos fun w hw => (hsteps w hw).2⟩

/-- A swap deletes first, so at its peak there are the live rows and the wanted ones, if it grows at all. -/
theorem peak_swapSteps {want : DesiredFront} :
    (endpointsOf s.endpoints f).length +
        peak FrontWrite.endpointDelta (swapSteps (endpointsOf s.endpoints f) f want (s.metas.lookup f)) =
      max ((endpointsOf s.endpoints f).length : Int) ((s.liveRows f).length + want.endpoints.length) := by
  let existing := endpointsOf s.endpoints f
  let live := s.metas.lookup f
  let dels := (existing.filter fun k => some k.generation != live.map (·.generation)).map FrontWrite.deleteEndpoint
  let puts := want.endpoints.zipIdx.map fun e => FrontWrite.putEndpoint (endpointKey f (nextGeneration live) e.2) e.1
  have hdels : ∀ w ∈ dels, w.endpointDelta = -1 := by
    intro w hw
    obtain ⟨k, -, rfl⟩ := List.mem_map.mp hw
    rfl
  have hputs : ∀ w ∈ puts, w.endpointDelta = 1 := by
    intro w hw
    obtain ⟨e, -, rfl⟩ := List.mem_map.mp hw
    rfl
  have hgrow : ∀ w ∈ puts ++ [FrontWrite.putMeta f (want.committed (nextGeneration live))], 0 ≤ w.endpointDelta := by
    intro w hw
    rcases List.mem_append.mp hw with hw | hw
    · rw [hputs w hw]
      exact Int.one_nonneg
    · rw [List.mem_singleton.mp hw]
      exact Int.le_refl 0
  have hsteps : swapSteps existing f want live =
      dels ++ (puts ++ [FrontWrite.putMeta f (want.committed (nextGeneration live))]) := List.append_assoc ..
  have hcount : existing.length = (s.liveRows f).length + dels.length := by
    rw [List.length_eq_length_filter_add fun k => some k.generation == live.map (·.generation), List.length_map]
    rfl
  have hlen : puts.length = want.endpoints.length := by rw [List.length_map, List.length_zipIdx]
  rw [hsteps, peak_of_deletes_first (fun w hw => by rw [hdels w hw]; decide) hgrow, net_append, net_append,
    net_eq_neg_length hdels, net_eq_length hputs, hlen, net_cons, net_nil]
  have hmeta : (FrontWrite.putMeta f (want.committed (nextGeneration live))).endpointDelta = 0 := rfl
  change ((existing.length : Nat) : Int) + _ = max (existing.length : Int) _
  omega

/-- A swap puts one `FRONT_META` row, and none that is new to a front that has one. -/
theorem peak_swapSteps_meta {existing : List FrontEndpointKey} {want : DesiredFront} {live : Option FrontMeta} :
    peak (FrontWrite.metaDelta live.isSome) (swapSteps existing f want live) = if live.isSome then 0 else 1 := by
  have hquiet : ∀ w ∈ swapQuiet existing f want live, w.metaDelta live.isSome = 0 := by
    intro w hw
    rcases List.mem_append.mp hw with hw | hw
    · obtain ⟨k, -, rfl⟩ := List.mem_map.mp hw
      rfl
    · obtain ⟨e, -, rfl⟩ := List.mem_map.mp hw
      rfl
  have hsteps : swapSteps existing f want live =
      swapQuiet existing f want live ++ [.putMeta f (want.committed (nextGeneration live))] := rfl
  rw [hsteps, peak_append, peak_of_nonpos fun w hw => Int.le_of_eq (hquiet w hw), net_eq_zero hquiet]
  cases live <;> rfl

/-- The rows of a front and what its plan adds at its peak. -/
theorem rows_add_peak_le {bound : Nat} (hrows : (endpointsOf s.endpoints f).length ≤ bound)
    (hlive : (s.liveRows f).length + wantedSlots desired f ≤ bound) :
    (endpointsOf s.endpoints f).length +
      peak FrontWrite.endpointDelta (planFrontSteps s.metas s.endpoints desired pruneAbsent keepPrevious f) ≤ bound := by
  rcases @planFrontSteps_cases s.metas s.endpoints desired pruneAbsent keepPrevious f with
    ⟨-, -, hsteps⟩ | ⟨-, -, hsteps⟩ | ⟨want, m, -, -, hsteps⟩ | ⟨want, hd, hsteps⟩ <;> rw [hsteps]
  · rw [peak]
    omega
  · rw [(peak_pruneSteps true).1]
    omega
  · rw [peak_refreshSteps.1]
    omega
  · have hwanted : wantedSlots desired f = want.endpoints.length := by
      unfold wantedSlots
      rw [hd]
      rfl
    rw [peak_swapSteps]
    omega

/-- What a plan adds at its peak is at most what is wanted. -/
theorem peak_le_wanted :
    peak FrontWrite.endpointDelta (planFrontSteps s.metas s.endpoints desired pruneAbsent keepPrevious f) ≤
      wantedSlots desired f := by
  have hlive : (s.liveRows f).length ≤ (endpointsOf s.endpoints f).length := List.length_filter_le _ _
  have hpeak := @rows_add_peak_le s desired pruneAbsent keepPrevious f
    ((endpointsOf s.endpoints f).length + wantedSlots desired f) (Nat.le_add_right _ _) (by omega)
  omega

/-- A front has at most one `FRONT_META` row, at the peak of its plan too. -/
theorem meta_add_peak_le :
    (s.metas.lookup f).isSome.toNat +
      peak s.metaDelta (planFrontSteps s.metas s.endpoints desired pruneAbsent keepPrevious f) ≤ 1 := by
  have hown : peak s.metaDelta (planFrontSteps s.metas s.endpoints desired pruneAbsent keepPrevious f) =
      peak (FrontWrite.metaDelta (s.metas.lookup f).isSome)
        (planFrontSteps s.metas s.endpoints desired pruneAbsent keepPrevious f) := by
    refine peak_congr fun w hw => ?_
    unfold FrontStore.metaDelta
    rw [front_of_mem_planFrontSteps hw]
  have hle : (s.metas.lookup f).isSome.toNat ≤ 1 := Bool.toNat_le _
  rw [hown]
  rcases @planFrontSteps_cases s.metas s.endpoints desired pruneAbsent keepPrevious f with
    ⟨-, -, hsteps⟩ | ⟨-, -, hsteps⟩ | ⟨want, m, -, hm, hsteps⟩ | ⟨want, hd, hsteps⟩ <;> rw [hsteps]
  · rw [peak]
    omega
  · rw [(peak_pruneSteps _).2]
    omega
  · rw [hm, Option.isSome_some, peak_refreshSteps.2]
    decide
  · rw [peak_swapSteps_meta]
    cases s.metas.lookup f with
    | none => decide
    | some m => exact Int.le_refl 1

/-! ## All of them together -/

/-- The fronts that have a row in either map. -/
def FrontStore.fronts (s : FrontStore) : Finset LbFrontKey :=
  s.metas.keys.toFinset ∪ (s.endpoints.keys.map (·.front)).toFinset

theorem FrontStore.mem_fronts {s : FrontStore} {f : LbFrontKey} :
    f ∈ s.fronts ↔ (s.metas.lookup f).isSome = true ∨ endpointsOf s.endpoints f ≠ [] := by
  unfold fronts
  rw [Finset.mem_union, List.mem_toFinset, List.mem_toFinset, List.mem_map, Table.mem_keys_iff, ← Option.isSome_iff_exists,
    List.ne_nil_iff_exists_cons]
  refine or_congr_right ⟨fun ⟨k, hk, hf⟩ => ?_, fun ⟨k, rest, hrows⟩ => ?_⟩
  · exact List.ne_nil_iff_exists_cons.mp (List.ne_nil_of_mem (mem_endpointsOf.mpr ⟨hf, (Table.mem_keys_iff _ _).mp hk⟩))
  · obtain ⟨hf, hk⟩ := mem_endpointsOf.mp (by rw [hrows]; exact List.mem_cons_self : k ∈ endpointsOf s.endpoints f)
    exact ⟨k, (Table.mem_keys_iff _ _).mpr hk, hf⟩

/-- Every `FRONT_ENDPOINTS` row is a row of one front. -/
theorem usage_endpoints_eq {F : Finset LbFrontKey} (hF : s.fronts ⊆ F) :
    s.usage.endpoints = ∑ f ∈ F, (endpointsOf s.endpoints f).length := by
  have hrows : ∀ f, (endpointsOf s.endpoints f).length = (s.endpoints.keys.toFinset.filter fun k => k.front = f).card := by
    intro f
    have hnodup : (endpointsOf s.endpoints f).Nodup := s.endpoints.keys_nodup.filter _
    rw [← List.toFinset_card_of_nodup hnodup, endpointsOf, List.toFinset_filter]
    simp only [decide_eq_true_eq]
  have hmaps : ∀ k ∈ s.endpoints.keys.toFinset, k.front ∈ F := by
    intro k hk
    refine hF (Finset.mem_union_right _ (List.mem_toFinset.mpr (List.mem_map.mpr ⟨k, ?_, rfl⟩)))
    exact List.mem_toFinset.mp hk
  have hcount : s.usage.endpoints = s.endpoints.keys.toFinset.card := by
    rw [List.toFinset_card_of_nodup s.endpoints.keys_nodup, Table.length_keys]
    rfl
  rw [hcount, Finset.card_eq_sum_card_fiberwise hmaps]
  exact Finset.sum_congr rfl fun f _ => (hrows f).symm

/-- Every `FRONT_META` row is the one of a front. -/
theorem usage_metas_eq {F : Finset LbFrontKey} (hF : s.fronts ⊆ F) :
    s.usage.metas = ∑ f ∈ F, (s.metas.lookup f).isSome.toNat := by
  have hkeys : s.metas.keys.toFinset = F.filter fun f => (s.metas.lookup f).isSome = true := by
    ext f
    rw [List.mem_toFinset, Finset.mem_filter, Table.mem_keys_iff, ← Option.isSome_iff_exists]
    refine ⟨fun h => ⟨hF (FrontStore.mem_fronts.mpr (Or.inl h)), h⟩, fun h => h.2⟩
  have hcount : s.usage.metas = s.metas.keys.toFinset.card := by
    rw [List.toFinset_card_of_nodup s.metas.keys_nodup, Table.length_keys]
    rfl
  rw [hcount, hkeys, Finset.card_filter]
  refine Finset.sum_congr rfl fun f _ => ?_
  cases (s.metas.lookup f).isSome <;> rfl

/-- The plans are of different fronts, all of them in the maps or wanted. -/
theorem peaks_le_sum {order : IterationOrder LbFrontKey} {F : Finset LbFrontKey} (δ : FrontWrite → Int)
    (hF : s.fronts ∪ desired.keys.toFinset ⊆ F) :
    peaks δ (planFrontWrites s.metas s.endpoints desired pruneAbsent keepPrevious order) ≤
      ∑ f ∈ F, peak δ (planFrontSteps s.metas s.endpoints desired pruneAbsent keepPrevious f) := by
  let plans := planFrontWrites s.metas s.endpoints desired pruneAbsent keepPrevious order
  let planned := plans.map FrontPlan.front
  have hmap : plans.map (fun p => peak δ p.steps) =
      planned.map fun f => peak δ (planFrontSteps s.metas s.endpoints desired pruneAbsent keepPrevious f) := by
    rw [List.map_map]
    refine List.map_congr_left fun p hp => ?_
    rw [(mem_planFrontWrites.mp hp).2.1]
    rfl
  have hsub : planned.toFinset ⊆ F := by
    intro f hf
    obtain ⟨p, hp, rfl⟩ := List.mem_map.mp (List.mem_toFinset.mp hf)
    have hplanned := (mem_planFrontWrites.mp hp).1
    refine hF ?_
    unfold plannedFronts at hplanned
    unfold FrontStore.fronts
    rw [List.mem_dedup, List.mem_append] at hplanned
    rcases hplanned with hd | hrest
    · exact Finset.mem_union_right _ (List.mem_toFinset.mpr hd)
    · split at hrest
      · refine Finset.mem_union_left _ ?_
        rw [Finset.mem_union, List.mem_toFinset, List.mem_toFinset]
        exact List.mem_append.mp hrest
      · cases hrest
  unfold peaks
  rw [hmap, ← List.sum_toFinset _ (nodup_planFrontWrites order)]
  exact Finset.sum_le_sum_of_subset_of_nonneg hsub fun f _ _ => peak_nonneg _

/-- **Room for all plans** is a matter of each front by itself. -/
theorem roomForAll_of_fronts {cap : FrontCapacity} {order : IterationOrder LbFrontKey} {F : Finset LbFrontKey}
    {bound : LbFrontKey → Nat} (hF : s.fronts ∪ desired.keys.toFinset ⊆ F) (hmetas : F.card ≤ cap.metas.toNat)
    (hendpoints : ∑ f ∈ F, bound f ≤ cap.endpoints.toNat)
    (hrows : ∀ f ∈ F, (endpointsOf s.endpoints f).length +
      peak FrontWrite.endpointDelta (planFrontSteps s.metas s.endpoints desired pruneAbsent keepPrevious f) ≤ bound f) :
    RoomForAll s cap (planFrontWrites s.metas s.endpoints desired pruneAbsent keepPrevious order) := by
  have hfronts := Finset.union_subset_left hF
  have hpeaksE := @peaks_le_sum s desired pruneAbsent keepPrevious order F FrontWrite.endpointDelta hF
  have hpeaksM := @peaks_le_sum s desired pruneAbsent keepPrevious order F s.metaDelta hF
  have hsumE := Finset.sum_le_sum hrows
  have hsumM := Finset.sum_le_sum fun f (_ : f ∈ F) => @meta_add_peak_le s desired pruneAbsent keepPrevious f
  rw [Finset.sum_add_distrib] at hsumE hsumM
  constructor
  · rw [usage_endpoints_eq hfronts, Nat.cast_sum]
    have hcast : ∑ f ∈ F, (bound f : Int) ≤ cap.endpoints.toNat := by
      rw [← Nat.cast_sum]
      exact Int.ofNat_le.mpr hendpoints
    omega
  · rw [usage_metas_eq hfronts, Nat.cast_sum]
    rw [Finset.sum_const, nsmul_one] at hsumM
    have hcast : (F.card : Int) ≤ cap.metas.toNat := Int.ofNat_le.mpr hmetas
    omega

end

/-! ## The sizes -/

/-- `u32::checked_mul`. -/
def checkedMul (a b : UInt32) : Option UInt32 :=
  if a.toNat * b.toNat < UInt32.size then some (a * b) else none

/-- `front_map_max_entries`: the sizes of `FRONT_META` and `FRONT_ENDPOINTS`. -/
def frontMapMaxEntries (maxFronts endpointsPerFront : UInt32) : Except String (UInt32 × UInt32) :=
  if maxFronts = 0 ∨ endpointsPerFront = 0 then .error "--max-fronts and --endpoints-per-front must be at least 1"
  else
    match (checkedMul maxFronts endpointsPerFront).bind (checkedMul · 2) with
    | some rows => .ok (maxFronts, rows)
    | none => .error (s!"--max-fronts {maxFronts} x --endpoints-per-front {endpointsPerFront} x 2 " ++
        "overflows the FRONT_ENDPOINTS row count")

theorem checkedMul_eq_some {a b c : UInt32} (h : checkedMul a b = some c) : c.toNat = a.toNat * b.toNat := by
  unfold checkedMul at h
  split at h
  · rename_i hfits
    rw [← Option.some_inj.mp h, UInt32.toNat_mul]
    exact Nat.mod_eq_of_lt hfits
  · cases h

/-- Two generations of every front that may be there. -/
theorem frontMapMaxEntries_eq_ok {maxFronts endpointsPerFront metas endpoints : UInt32}
    (h : frontMapMaxEntries maxFronts endpointsPerFront = .ok (metas, endpoints)) :
    metas = maxFronts ∧ endpoints.toNat = maxFronts.toNat * (2 * endpointsPerFront.toNat) := by
  unfold frontMapMaxEntries at h
  split at h
  · cases h
  · split at h
    · rename_i rows hrows
      obtain ⟨one, hone, htwo⟩ := Option.bind_eq_some_iff.mp hrows
      cases h
      refine ⟨rfl, ?_⟩
      rw [checkedMul_eq_some htwo, checkedMul_eq_some hone, Nat.mul_assoc, Nat.mul_comm _ (UInt32.toNat 2)]
      rfl
    · cases h

/-! ## Rows of two generations -/

/-- What every row that is there or put meets, every row afterwards does. -/
theorem rows_storeAfter {P : FrontEndpointKey → FrontEndpoint → Prop} {log : FrontLog}
    (hlog : ∀ k v ok, (FrontWrite.putEndpoint k v, ok) ∈ log → P k v) {s : FrontStore}
    (hs : ∀ k v, s.endpoints.lookup k = some v → P k v) {k : FrontEndpointKey} {v : FrontEndpoint}
    (h : (storeAfter s log).endpoints.lookup k = some v) : P k v := by
  induction log generalizing s with
  | nil => exact hs k v h
  | cons e log ih =>
    obtain ⟨w, ok⟩ := e
    rw [storeAfter_cons] at h
    refine ih (fun k v ok hmem => hlog k v ok (List.mem_cons_of_mem _ hmem)) (fun k' v' hv => ?_) h
    split at hv
    · cases w with
      | deleteEndpoint gone =>
        rw [show (s.apply (.deleteEndpoint gone)).endpoints.lookup k' = _ from Table.lookup_erase_ite ..] at hv
        split at hv
        · cases hv
        · exact hs k' v' hv
      | putEndpoint key value =>
        rw [show (s.apply (.putEndpoint key value)).endpoints.lookup k' = _ from Table.lookup_insert_ite ..] at hv
        split at hv
        · rename_i hkey
          cases hv
          rw [hkey]
          exact hlog key v' ok List.mem_cons_self
        · exact hs k' v' hv
      | putMeta | deleteMeta => exact hs k' v' hv
    · exact hs k' v' hv

/-- At most two generations of every front, none with more rows than a front is sized for. -/
structure FrontStore.SizedFor (endpointsPerFront : UInt32) (s : FrontStore) : Prop where
  twoGenerations : s.TwoGenerations
  slots : ∀ k v, s.endpoints.lookup k = some v → k.slot.toNat < endpointsPerFront.toNat ∧ k.pad = 0

namespace FrontStore.SizedFor

variable {endpointsPerFront : UInt32} {s : FrontStore}

/-- Rows of some generations of a front. -/
theorem length_le (h : s.SizedFor endpointsPerFront) {f : LbFrontKey} {rows : List FrontEndpointKey}
    (hrows : rows.Sublist (endpointsOf s.endpoints f)) {G : Finset UInt32} (hG : ∀ k ∈ rows, k.generation ∈ G) :
    rows.length ≤ G.card * endpointsPerFront.toNat := by
  have hnodup : rows.Nodup := (s.endpoints.keys_nodup.filter _).sublist hrows
  have hrow : ∀ k ∈ rows, k.front = f ∧ k.slot.toNat < endpointsPerFront.toNat ∧ k.pad = 0 := by
    intro k hk
    obtain ⟨hf, v, hv⟩ := mem_endpointsOf.mp (hrows.subset hk)
    exact ⟨hf, h.slots k v hv⟩
  rw [← List.toFinset_card_of_nodup hnodup, ← Finset.card_range endpointsPerFront.toNat, ← Finset.card_product]
  refine Finset.card_le_card_of_injOn (fun k => (k.generation, k.slot.toNat)) (fun k hk => ?_) fun k hk k' hk' hsame => ?_
  · have hmem := List.mem_toFinset.mp (Finset.mem_coe.mp hk)
    exact Finset.mem_coe.mpr (Finset.mem_product.mpr ⟨hG k hmem, Finset.mem_range.mpr (hrow k hmem).2.1⟩)
  · obtain ⟨hf, -, hpad⟩ := hrow k (List.mem_toFinset.mp (Finset.mem_coe.mp hk))
    obtain ⟨hf', -, hpad'⟩ := hrow k' (List.mem_toFinset.mp (Finset.mem_coe.mp hk'))
    obtain ⟨hg, hslot⟩ := Prod.mk.inj hsame
    cases k
    cases k'
    simp only at hf hf' hg hslot hpad hpad'
    rw [hf, hf', hg, hpad, hpad', UInt16.toNat_inj.mp hslot]

/-- A front that wants no more than it is sized for never has more than two generations of that, at the peak of its
    plan neither. -/
theorem rows_add_peak_le (h : s.SizedFor endpointsPerFront) {desired : Table LbFrontKey DesiredFront} {f : LbFrontKey}
    (hwanted : wantedSlots desired f ≤ endpointsPerFront.toNat) {pruneAbsent : Bool} {keepPrevious : Finset LbFrontKey} :
    (endpointsOf s.endpoints f).length +
        peak FrontWrite.endpointDelta (planFrontSteps s.metas s.endpoints desired pruneAbsent keepPrevious f) ≤
      (2 * endpointsPerFront.toNat : Nat) := by
  have hrows : (endpointsOf s.endpoints f).length ≤ 2 * endpointsPerFront.toNat := by
    refine (h.length_le (List.Sublist.refl _) fun k hk => ?_).trans
      (Nat.mul_le_mul_right _ (h.twoGenerations f))
    obtain ⟨hf, v, hv⟩ := mem_endpointsOf.mp hk
    exact FrontStore.mem_generations.mpr ⟨k, v, hf, hv, rfl⟩
  have hlive : (s.liveRows f).length ≤ endpointsPerFront.toNat := by
    refine (h.length_le List.filter_sublist (G := ((s.metas.lookup f).map (·.generation)).toFinset) fun k hk => ?_).trans ?_
    · rw [Option.mem_toFinset]
      exact (beq_iff_eq.mp (List.mem_filter.mp hk).2).symm
    · refine (Nat.mul_le_mul_right _ ?_).trans (Nat.le_of_eq (Nat.one_mul _))
      rw [Option.card_toFinset]
      cases s.metas.lookup f with
      | none => exact Nat.zero_le 1
      | some m => exact Nat.le_refl 1
  exact Beep.rows_add_peak_le hrows (by omega)

end FrontStore.SizedFor

/-! ## The passes of a process -/

namespace FrontProcess

variable {cap : FrontCapacity} {endpointsPerFront : UInt32} {s : FrontProcess cap} {p : FrontPass}

/-- The plans of a pass. -/
def plans (s : FrontProcess cap) (p : FrontPass) : List FrontPlan :=
  planFrontWrites s.store.metas s.store.endpoints p.desired p.pruneAbsent (s.recentSwaps.held p.now) p.order

/-- A pass that the maps are sized for: no front wants more than `endpointsPerFront`, and the fronts that are there or
    wanted are no more than `FRONT_META` has room for. -/
structure Sized (cap : FrontCapacity) (endpointsPerFront : UInt32) (s : FrontProcess cap) (p : FrontPass) : Prop where
  fronts : (s.store.fronts ∪ p.desired.keys.toFinset).card ≤ cap.metas.toNat
  endpoints : ∀ f want, p.desired.lookup f = some want → want.endpoints.length ≤ endpointsPerFront.toNat

theorem Sized.wanted (h : Sized cap endpointsPerFront s p) (f : LbFrontKey) :
    wantedSlots p.desired f ≤ endpointsPerFront.toNat := by
  unfold wantedSlots
  cases hd : p.desired.lookup f with
  | none => exact Nat.zero_le _
  | some want => exact h.endpoints f want hd

/-- **The step**: after a pass that the maps are sized for they hold what they are sized for. -/
theorem sizedFor_pass (hs : s.store.SizedFor endpointsPerFront) (hp : Sized cap endpointsPerFront s p) :
    (s.pass p).store.SizedFor endpointsPerFront where
  twoGenerations := by
    let input : FrontPassInput :=
      ⟨p.fails, p.order, p.desired, p.pruneAbsent, s.recentSwaps.held p.now, s.store.usage, cap⟩
    have hdel : (input.log s.store).DeletesSucceed :=
      fun k ok hmem => deletes_succeeded p.deletes_succeed hmem rfl
    exact twoGenerations_prefix hs.twoGenerations hdel List.prefix_rfl
  slots := by
    intro k v hv
    refine rows_storeAfter (P := fun k _ => k.slot.toNat < endpointsPerFront.toNat ∧ k.pad = 0) ?_ hs.slots hv
    intro k v ok hmem
    -- what is put is a slot of what is wanted
    obtain ⟨want, slot, hd, he, hk⟩ := putEndpoint_of_frontPass hmem
    have hslot := (List.getElem?_eq_some_iff.mp he).1
    have hle := hp.endpoints k.front want hd
    rw [hk]
    refine ⟨?_, rfl⟩
    show (UInt16.ofNat slot).toNat < _
    rw [UInt16.toNat_ofNat']
    have := Nat.mod_le slot (2 ^ 16)
    omega

/-- **Room**: such a pass has room for all of its plans. -/
theorem roomForAll (hs : s.store.SizedFor endpointsPerFront) (hp : Sized cap endpointsPerFront s p)
    (hcap : cap.endpoints.toNat = cap.metas.toNat * (2 * endpointsPerFront.toNat)) :
    RoomForAll s.store cap (s.plans p) := by
  refine roomForAll_of_fronts (F := s.store.fronts ∪ p.desired.keys.toFinset) subset_rfl hp.fronts ?_
    fun f _ => hs.rows_add_peak_le (hp.wanted f)
  rw [Finset.sum_const_nat fun _ _ => rfl, hcap]
  exact Nat.mul_le_mul_right _ hp.fronts

/-- **Maps that are sized for the fronts never refuse one.** With the two front maps of the sizes that
    `front_map_max_entries` computes, from maps that hold two generations of a front at most, at slots below
    `endpoints_per_front`, in every run of passes in which no delete fails, no front is to have more than
    `endpoints_per_front` endpoints and the fronts that are there or desired are `max_fronts` at most: no plan of any pass
    is refused for want of room, whatever is held, pruned or fails to be put, and a pass none of whose puts fails reports
    no failure. -/
theorem sized_never_refuses {maxFronts : UInt32}
    (hcap : frontMapMaxEntries maxFronts endpointsPerFront = .ok (cap.metas, cap.endpoints))
    (hs : s.store.SizedFor endpointsPerFront) {passes : List FrontPass}
    (hpasses : Along FrontProcess.pass (Sized cap endpointsPerFront) s passes) :
    Along FrontProcess.pass (fun s p =>
      (∀ n plan, (s.plans p)[n]? = some plan →
        capacityShortfall plan (s.store.metas.lookup plan.front).isSome
          (passState p.fails s.store.metas cap (s.plans p) s.store.usage n).2.1 cap = none) ∧
      ((∀ log w, p.fails log w = none) → (s.run p).2.failures = [])) s passes := by
  obtain ⟨hmetas, hendpoints⟩ := frontMapMaxEntries_eq_ok hcap
  rw [← hmetas] at hendpoints
  have hkeep : ∀ (s : FrontProcess cap) (p : FrontPass), s.store.SizedFor endpointsPerFront →
      Sized cap endpointsPerFront s p → (s.pass p).store.SizedFor endpointsPerFront := fun s p => sizedFor_pass
  refine hpasses.strengthen hkeep ?_ hs
  intro s p hs hp
  have hroom := roomForAll hs hp hendpoints
  refine ⟨fun n plan hplan => never_refused p.deletes_succeed rfl hroom hplan, fun hputs => ?_⟩
  exact clean_of_room hputs hroom

end FrontProcess

/-- Empty maps, for one front of two endpoints. -/
def emptyProcess : FrontProcess ⟨1, 4⟩ where
  store := ⟨∅, ∅⟩
  recentSwaps := ∅
  within := ⟨by decide, by decide⟩

/-- The front is installed, and two seconds later it is looked at again. -/
theorem sized_never_refuses_one_front :
    frontMapMaxEntries 1 2 = .ok (1, 4) ∧
      (emptyProcess.run (gracePass 0)).2.failures = [] ∧
      ((emptyProcess.pass (gracePass 0)).run (gracePass 2000000000)).2.failures = [] := by
  have hcap : frontMapMaxEntries 1 2 = .ok (1, 4) := by decide
  have hs : emptyProcess.store.SizedFor 2 := by
    refine ⟨fun f => ?_, fun k v hv => ?_⟩
    · exact Nat.zero_le 2
    · cases hv
  have hwanted : ∀ f want, sampleDesired.lookup f = some want → want.endpoints.length ≤ 2 := by
    intro f want hd
    rw [sampleDesired, Table.lookup_insert_ite] at hd
    split at hd
    · cases hd
      exact Nat.le_refl 2
    · cases hd
  have hpasses : Along FrontProcess.pass (FrontProcess.Sized ⟨1, 4⟩ 2) emptyProcess [gracePass 0, gracePass 2000000000] :=
    ⟨⟨by decide, hwanted⟩, ⟨by decide, hwanted⟩, trivial⟩
  obtain ⟨hfirst, hsecond, -⟩ := FrontProcess.sized_never_refuses hcap hs hpasses
  exact ⟨hcap, hfirst.2 fun _ _ => rfl, hsecond.2 fun _ _ => rfl⟩

end Beep
