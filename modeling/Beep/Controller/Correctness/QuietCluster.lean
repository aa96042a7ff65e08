import Beep.Controller.Correctness.FailedSweep
import Beep.Controller.Correctness.SizedMaps
import Beep.Controller.Correctness.Unconcerned
import Beep.Controller.ReconcileLoop

/-!
# `Controller.Correctness.QuietCluster` — the maps once no tick is due

A tick that returns `Ok` leaves the maps as its entries ask (`converged_of_succeeds`), and one that does not arms the
retry. Ticks follow every change of the watched state, so in every run, whatever fails in it, the maps are as the state
asks whenever no retry is armed (`quiet_converged`).

Left alone, a controller gets there in bounded time and then does nothing more. A tick whose operations go through
succeeds where there is room (`succeeds_of_clean`); what it leaves of other generations it has on record
(`leftovers_recorded`), and the ticks that follow it up only delete.
-/

namespace Beep

open Run

/-! ## One tick -/

/-- The front maps hold the fronts and no others. -/
structure FrontStore.AsWanted (s : FrontStore) (fronts : Table LbFrontKey DesiredFront) : Prop where
  present : ∀ f want, fronts.lookup f = some want → ∃ m, AsDesired s f want m
  absent : ∀ f, fronts.lookup f = none → Absent s f

/-- The maps hold what is asked for, as far as it is known. Until the fronts are, `NODE_ALLOW` may hold more. -/
structure SyncedMaps.Converged (k : SyncedMaps) (d : DesiredEntries) (mayDelete : Bool) : Prop where
  fronts : d.frontsKnown = true → k.fronts.AsWanted d.fronts
  podTargets : d.podTargetsKnown = true → k.podTargets = d.podTargets
  nodeAllow : d.nodeAllow ⊆ k.nodeAllow
  nodeAllow_only : mayDelete = true → k.nodeAllow ⊆ d.nodeAllow

/-- No front has more endpoints than a slot number can tell apart. -/
def DesiredEntries.Numbered (d : DesiredEntries) : Prop :=
  ∀ f want, d.fronts.lookup f = some want → want.endpoints.length ≤ 65535

/-- The rows after a pass of a set map that nothing failed in. -/
theorem mem_syncRows {rows removed put : Finset (Bytes 16)} {fails : Bytes 16 → Bool}
    (h : noneFails (removed ∪ put) fails = true) {x : Bytes 16} :
    x ∈ syncRows rows removed put fails ↔ (x ∈ rows ∧ x ∉ removed) ∨ x ∈ put := by
  have hok := noneFails_iff.mp h
  unfold syncRows
  simp only [Finset.mem_union, Finset.mem_sdiff, Finset.mem_filter, Bool.not_eq_true']
  constructor
  · rintro (⟨hrow, hkept⟩ | ⟨hput, -⟩)
    · refine Or.inl ⟨hrow, fun hremoved => hkept ⟨hremoved, hok x (Finset.mem_union_left _ hremoved)⟩⟩
    · exact Or.inr hput
  · rintro (⟨hrow, hkept⟩ | hput)
    · exact Or.inl ⟨hrow, fun hremoved => hkept hremoved.1⟩
    · exact Or.inr ⟨hput, hok x (Finset.mem_union_right _ hput)⟩

/-- Rows that are synced with what they are to be: whatever is not wanted any more is removed. -/
theorem mem_syncRows_stale {rows live : Finset (Bytes 16)} {listed : List (Bytes 16)} {fails : Bytes 16 → Bool}
    (h : noneFails (stalePodTargets listed live ∪ live) fails = true) (hlisted : ∀ x, x ∈ listed ↔ x ∈ rows)
    {x : Bytes 16} : x ∈ syncRows rows (stalePodTargets listed live) live fails ↔ x ∈ live := by
  rw [mem_syncRows h, mem_stalePodTargets, hlisted]
  constructor
  · rintro (⟨hrow, hkept⟩ | hlive)
    · by_contra hstale
      exact hkept ⟨hrow, hstale⟩
    · exact hlive
  · exact Or.inr

section
variable {p : PinnedMaps} {d : DesiredEntries} {k : SyncedMaps} {c : TickCourse}

/-- What a tick that succeeds has gone through. -/
structure PinnedMaps.Succeeded (p : PinnedMaps) (d : DesiredEntries) (k : SyncedMaps) (c : TickCourse) : Prop where
  fronts : d.frontsKnown = true → p.frontsResult d (k.reads c) = true
  nodeAllow : p.nodeAllowResult d (k.reads c) c = true
  podTargets : d.podTargetsKnown = true → p.podTargetsResult d (k.reads c) c = true
  swept : (PinnedMaps.input d (k.reads c)).sweepFailed p.memory = false
  walked : orphanSweepDue d p.memory.orphansSwept = true → c.pinned.isSome = true

/-- The result a tick returns says whether all its parts went well. -/
theorem PinnedMaps.succeeds_iff : p.succeeds d (k.reads c) c = true ↔ p.Succeeded d k c := by
  unfold PinnedMaps.succeeds PinnedMaps.sweepResult
  simp only [Bool.and_eq_true, Bool.or_eq_true, Bool.not_eq_true', Bool.and_eq_false_iff]
  constructor
  · rintro ⟨⟨⟨hfronts, hallow⟩, hpods⟩, hswept, hwalked⟩
    refine ⟨fun h => ?_, hallow, fun h => ?_, hswept, fun h => ?_⟩
    · exact hfronts.resolve_left (by rw [h]; decide)
    · exact hpods.resolve_left (by rw [h]; decide)
    · have hpinned : c.pinned.isNone = false := hwalked.resolve_left (by rw [h]; decide)
      rw [← Option.not_isNone, hpinned]
      rfl
  · rintro ⟨hfronts, hallow, hpods, hswept, hwalked⟩
    refine ⟨⟨⟨?_, hallow⟩, ?_⟩, hswept, ?_⟩
    · cases hknown : d.frontsKnown with
      | false => exact Or.inl rfl
      | true => exact Or.inr (hfronts hknown)
    · cases hknown : d.podTargetsKnown with
      | false => exact Or.inl rfl
      | true => exact Or.inr (hpods hknown)
    · cases hdue : orphanSweepDue d p.memory.orphansSwept with
      | false => exact Or.inl rfl
      | true =>
        right
        show c.pinned.isNone = false
        rw [← Option.not_isSome, hwalked hdue]
        rfl

/-- The pass over the fronts of a tick that withholds none. -/
def PinnedMaps.wholePass (p : PinnedMaps) (d : DesiredEntries) (k : SyncedMaps) (c : TickCourse) : FrontLog × FrontApply :=
  applyFronts c.failsFront c.order k.fronts d.fronts true (p.recentSwaps.held c.writtenAt) p.capacity

/-- A tick that sweeps all it has to, and can read the front maps, passes over all fronts. -/
theorem PinnedMaps.apply_fronts (hknown : d.frontsKnown = true) (hread : c.readsFronts = true)
    (hswept : (PinnedMaps.input d (k.reads c)).sweepFailed p.memory = false) :
    (p.apply d (k.reads c)).2.fronts = (p.wholePass d k c).1 ∧
      (p.apply d (k.reads c)).1.recentSwaps = p.recentSwaps.record (p.wholePass d k c).2.swapped c.writtenAt ∧
      p.frontsResult d (k.reads c) = (p.wholePass d k c).2.failures.isEmpty := by
  obtain ⟨hfronts, hprune, -, -⟩ := TickInput.plan_of_swept hswept
  have hreads : (k.reads c).fronts = some k.fronts := if_pos hread
  have hmaps : p.applyFrontMaps ((PinnedMaps.input d (k.reads c)).plan p.memory) (k.reads c) =
      (p.recentSwaps.record (p.wholePass d k c).2.swapped c.writtenAt, (p.wholePass d k c).1) := by
    unfold PinnedMaps.applyFrontMaps
    simp only [hreads, hfronts, hprune]
    rfl
  unfold PinnedMaps.apply PinnedMaps.frontsResult
  simp only [hknown, if_true, hmaps, hreads, hfronts, hprune, true_and]
  rfl

/-- With the fronts known, a tick that went well has read the maps. -/
theorem PinnedMaps.Succeeded.readsFronts (h : p.Succeeded d k c) (hknown : d.frontsKnown = true) :
    c.readsFronts = true := by
  have hresult := h.fronts hknown
  by_contra hread
  have hreads : (k.reads c).fronts = none := if_neg hread
  unfold PinnedMaps.frontsResult at hresult
  rw [hreads] at hresult
  cases hresult

/-- The fronts of a tick that succeeds. -/
theorem PinnedMaps.Succeeded.asWanted (h : p.Succeeded d k c) (hnumbered : d.Numbered) (hknown : d.frontsKnown = true) :
    (k.after (p.apply d (k.reads c)).2 c).fronts.AsWanted d.fronts := by
  obtain ⟨hlog, -, hresult⟩ := PinnedMaps.apply_fronts hknown (h.readsFronts hknown) h.swept
  have hclean : (p.wholePass d k c).2.failures = [] := by
    rw [← List.isEmpty_iff, ← hresult]
    exact h.fronts hknown
  have hstore : (k.after (p.apply d (k.reads c)).2 c).fronts = storeAfter k.fronts (p.wholePass d k c).1 := by
    show storeAfter k.fronts (p.apply d (k.reads c)).2.fronts = _
    rw [hlog]
  rw [hstore]
  exact ⟨fun f want hd => cleanPass_asDesired hclean hnumbered hd, fun f hd => cleanPass_absent hclean hd⟩

/-- The rows of `POD_TARGETS`. -/
theorem PinnedMaps.Succeeded.podTargets_eq (h : p.Succeeded d k c) (hknown : d.podTargetsKnown = true) :
    (k.after (p.apply d (k.reads c)).2 c).podTargets = d.podTargets := by
  have hresult := h.podTargets hknown
  unfold PinnedMaps.podTargetsResult at hresult
  obtain ⟨hread, hwrites⟩ := Bool.and_eq_true_iff.mp hresult
  have hreads : (k.reads c).podTargets = some (c.keyOrder.list k.podTargets) := by
    by_contra hne
    have hnone : (k.reads c).podTargets = none := if_neg fun hreads => hne (if_pos hreads)
    rw [hnone] at hread
    cases hread
  obtain ⟨-, -, hput, hdelete⟩ := TickInput.plan_of_swept h.swept
  have hrows : (PinnedMaps.input d (k.reads c)).rows = c.keyOrder.list k.podTargets := by
    unfold TickInput.rows PinnedMaps.input
    rw [hreads]
    exact if_pos hknown
  have hremoved : (p.apply d (k.reads c)).2.podTargetsRemoved =
      stalePodTargets (c.keyOrder.list k.podTargets) d.podTargets := by
    show (if ((k.reads c).podTargets.isSome && d.podTargetsKnown) = true then _ else ∅) = _
    rw [hread, hknown, Bool.and_self, if_pos rfl, hdelete hknown, hrows]
    rfl
  have hputs : (p.apply d (k.reads c)).2.podTargetsPut = d.podTargets := by
    show (if ((k.reads c).podTargets.isSome && d.podTargetsKnown) = true then _ else ∅) = _
    rw [hread, hknown, Bool.and_self, if_pos rfl, hput]
    rfl
  ext x
  show x ∈ syncRows _ _ _ _ ↔ _
  rw [hremoved, hputs] at hwrites ⊢
  exact mem_syncRows_stale hwrites fun _ => c.keyOrder.mem_list

/-- The rows of `NODE_ALLOW`. -/
theorem PinnedMaps.Succeeded.nodeAllow_eq (h : p.Succeeded d k c) :
    d.nodeAllow ⊆ (k.after (p.apply d (k.reads c)).2 c).nodeAllow ∧
      ((p.apply d (k.reads c)).1.frontsEverKnown = true →
        (k.after (p.apply d (k.reads c)).2 c).nodeAllow ⊆ d.nodeAllow) := by
  have hresult := h.nodeAllow
  unfold PinnedMaps.nodeAllowResult at hresult
  obtain ⟨hread, hwrites⟩ := Bool.and_eq_true_iff.mp hresult
  have hops : ((p.apply d (k.reads c)).2.nodeAllowRemoved, (p.apply d (k.reads c)).2.nodeAllowPut) =
      PinnedMaps.applyNodeAllow d.nodeAllow (nodeAllowMayDelete d.frontsKnown p.frontsEverKnown) (k.reads c) := rfl
  have hever : (p.apply d (k.reads c)).1.frontsEverKnown = nodeAllowMayDelete d.frontsKnown p.frontsEverKnown := rfl
  rw [hever]
  cases hmay : nodeAllowMayDelete d.frontsKnown p.frontsEverKnown with
  | false =>
    rw [hmay] at hops
    obtain ⟨hremoved, hput⟩ := Prod.mk.inj hops
    refine ⟨fun x hx => ?_, fun h => absurd h Bool.false_ne_true⟩
    refine (mem_syncRows hwrites).mpr (Or.inr ?_)
    rw [hput]
    exact hx
  | true =>
    rw [hmay, Bool.not_true, Bool.false_or] at hread
    have hreads : (k.reads c).nodeAllow = some (c.keyOrder.list k.nodeAllow) := by
      by_contra hne
      have hnone : (k.reads c).nodeAllow = none := if_neg fun hreads => hne (if_pos hreads)
      rw [hnone] at hread
      cases hread
    have hsync : PinnedMaps.applyNodeAllow d.nodeAllow true (k.reads c) =
        (stalePodTargets (c.keyOrder.list k.nodeAllow) d.nodeAllow, d.nodeAllow) := by
      unfold PinnedMaps.applyNodeAllow
      rw [if_pos rfl, hreads]
      rfl
    rw [hmay, hsync] at hops
    obtain ⟨hremoved, hput⟩ := Prod.mk.inj hops
    have hmem : ∀ x, x ∈ (k.after (p.apply d (k.reads c)).2 c).nodeAllow ↔ x ∈ d.nodeAllow := by
      intro x
      show x ∈ syncRows _ _ _ _ ↔ _
      rw [hremoved, hput] at hwrites ⊢
      exact mem_syncRows_stale hwrites fun _ => c.keyOrder.mem_list
    exact ⟨fun x hx => (hmem x).mpr hx, fun _ x hx => (hmem x).mp hx⟩

/-- **A tick that succeeds** leaves the maps as it was asked to. -/
theorem PinnedMaps.Succeeded.converged (h : p.Succeeded d k c) (hnumbered : d.Numbered) :
    (k.after (p.apply d (k.reads c)).2 c).Converged d (p.apply d (k.reads c)).1.frontsEverKnown where
  fronts := h.asWanted hnumbered
  podTargets := h.podTargets_eq
  nodeAllow := h.nodeAllow_eq.1
  nodeAllow_only := h.nodeAllow_eq.2

end

/-! ## Every run -/

/-- Only a result without an error leaves no retry armed. -/
theorem RetryBackoff.retryAt_record {b : RetryBackoff} {ok : Bool} {now : Instant} :
    (b.record ok now).retryAt = none ↔ ok = true := by
  unfold RetryBackoff.record
  cases ok with
  | true => exact ⟨fun _ => rfl, fun _ => rfl⟩
  | false =>
    refine ⟨fun h => ?_, fun h => absurd h Bool.false_ne_true⟩
    rw [if_neg Bool.false_ne_true] at h
    split at h
    · rename_i harmed
      rw [h] at harmed
      cases harmed
    · cases h

namespace Reconciler

variable [Host] {node : NodeContext} {s : Reconciler} {c : TickCourse}

/-- The maps are as the state asks. -/
def Converged (node : NodeContext) (s : Reconciler) : Prop :=
  s.kernel.Converged (s.wants node) s.maps.frontsEverKnown

/-- Unless a retry is armed. -/
def QuietConverged (node : NodeContext) (s : Reconciler) : Prop :=
  s.retry.retryAt = none → (s.wants node).Numbered → s.Converged node

/-- **The tick.** -/
theorem quietConverged_applyReconcile : (s.applyReconcile node c).QuietConverged node := by
  intro hquiet hnumbered
  have hok := RetryBackoff.retryAt_record.mp hquiet
  exact (PinnedMaps.succeeds_iff.mp hok).converged hnumbered

/-- A poll runs one tick at most: for a retry that is due, or a grace that is over. -/
theorem poll_eq (now : Instant) : s.poll node now c =
    if s.retry.due now || s.maps.recentSwaps.expired now then s.applyReconcile node c else s := by
  unfold poll retryTick followUpTick
  cases s.retry.due now <;> rfl

/-- **The step.** -/
theorem QuietConverged.step (h : s.QuietConverged node) (e : ReconcileStep) : (s.step node e).QuietConverged node := by
  cases e with
  | watch input c =>
    show (s.watch node input c).QuietConverged node
    unfold watch
    split
    · exact quietConverged_applyReconcile
    · exact h
  | poll now c =>
    show (s.poll node now c).QuietConverged node
    rw [poll_eq]
    split
    · exact quietConverged_applyReconcile
    · exact h

/-- A fresh process on the maps it finds. -/
def start (capacity : FrontCapacity) (kernel : SyncedMaps) : Reconciler := { maps := { capacity }, kernel }

/-- A fresh process asks for nothing yet, so the maps are as asked. -/
theorem converged_start (capacity : FrontCapacity) (kernel : SyncedMaps) : (start capacity kernel).Converged node := by
  have hallow : ((start capacity kernel).wants node).nodeAllow = ∅ := rfl
  refine ⟨fun h => absurd h Bool.false_ne_true, fun h => absurd h Bool.false_ne_true, ?_,
    fun h => absurd h Bool.false_ne_true⟩
  rw [hallow]
  exact Finset.empty_subset _

/-- **Quiet means converged.** From any content of the maps, in every run of watch inputs and polls in which any read,
    walk, eviction or write of any tick may fail: whenever no retry is armed, and no front has more endpoints than slot
    numbers tell apart, the front maps hold exactly the fronts that the watched state asks for, each with its endpoints,
    if these are known; `POD_TARGETS` exactly the pods of the node, if those are; and `NODE_ALLOW` the nodes, and no
    other once the fronts have been known. -/
theorem quiet_converged (capacity : FrontCapacity) (kernel : SyncedMaps) (steps : List ReconcileStep) :
    let s := steps.foldl (step node) (start capacity kernel)
    (s.wants node).Numbered → s.retry.retryAt = none →
      ((s.wants node).frontsKnown = true → s.kernel.fronts.AsWanted (s.wants node).fronts) ∧
      ((s.wants node).podTargetsKnown = true → s.kernel.podTargets = (s.wants node).podTargets) ∧
      (s.wants node).nodeAllow ⊆ s.kernel.nodeAllow ∧
      (s.maps.frontsEverKnown = true → s.kernel.nodeAllow = (s.wants node).nodeAllow) := by
  intro s hnumbered hquiet
  have hstart : (start capacity kernel).QuietConverged node := fun _ _ => converged_start capacity kernel
  have hrun : ∀ (steps : List ReconcileStep) (s : Reconciler), s.QuietConverged node →
      (steps.foldl (step node) s).QuietConverged node := by
    intro steps
    induction steps with
    | nil => exact fun s hs => hs
    | cons e steps ih => exact fun s hs => ih _ (hs.step e)
  have hconverged := hrun steps _ hstart hquiet hnumbered
  refine ⟨hconverged.fronts, hconverged.podTargets, hconverged.nodeAllow, fun hever => ?_⟩
  exact Finset.Subset.antisymm (hconverged.nodeAllow_only hever) hconverged.nodeAllow

end Reconciler

/-! ## What a tick leaves of other generations -/

section
variable {s : FrontStore} {desired : Table LbFrontKey DesiredFront} {keepPrevious : Finset LbFrontKey}
  {fails : FrontLog → FrontWrite → Option MapError} {order : IterationOrder LbFrontKey} {used : FrontUsage}
  {cap : FrontCapacity} {f : LbFrontKey} {want : DesiredFront}

/-- A clean pass that takes a front to another generation reports it as swapped. -/
theorem swapped_of_cleanPass (hclean : (frontPass fails order s desired true keepPrevious used cap).2.failures = [])
    (hlen : ∀ f want, desired.lookup f = some want → want.endpoints.length ≤ 65535) (hd : desired.lookup f = some want)
    (hu : unchangedMeta s.endpoints f want (s.metas.lookup f) = none) :
    f ∈ (frontPass fails order s desired true keepPrevious used cap).2.swapped := by
  have hsame := sameFront_cleanPass hclean f
  simp only [planFrontSteps, hd, hu] at hsame
  obtain ⟨hdone, -⟩ := AsDesired.congr hsame (runWhole_swapSteps s f (hlen f want hd)).1
  have hnew : (s.metas.lookup f).map (·.generation) ≠ some (nextGeneration (s.metas.lookup f)) :=
    (nextGeneration_ne _).symm
  -- the row is not the one from before, so it was put, and that was a commit
  have hput := (meta_storeAfter hdone).resolve_left fun hbefore => hnew (congrArg (Option.map (·.generation)) hbefore)
  have hreported : SwapsReported s.metas
      ((planFrontWrites s.metas s.endpoints desired true keepPrevious order).foldl
        (runOnePlan (issueWrite fails) s.metas cap) ([], used, {})) :=
    swapsReported_foldl (fun q hq w hw => front_of_mem_steps hq hw) fun e he => absurd he List.not_mem_nil
  exact hreported _ hput rfl (bne_iff_ne.mpr hnew)

/-- **A clean pass leaves a front its live generation only**, unless it was to keep the one before or swapped it. -/
theorem live_only_of_cleanPass (hclean : (frontPass fails order s desired true keepPrevious used cap).2.failures = [])
    (hlen : ∀ f want, desired.lookup f = some want → want.endpoints.length ≤ 65535) (hd : desired.lookup f = some want)
    (hkeep : f ∉ keepPrevious)
    (hswapped : f ∉ (frontPass fails order s desired true keepPrevious used cap).2.swapped) :
    ∃ m, AsDesired (storeAfter s (frontPass fails order s desired true keepPrevious used cap).1) f want m ∧
      OnlyGenerations (storeAfter s (frontPass fails order s desired true keepPrevious used cap).1) f
        fun g => g = m.generation := by
  have hsame := sameFront_cleanPass hclean f
  cases hu : unchangedMeta s.endpoints f want (s.metas.lookup f) with
  | none => exact absurd (swapped_of_cleanPass hclean hlen hd hu) hswapped
  | some m =>
    simp only [planFrontSteps, hd, hu] at hsame
    obtain ⟨hdone, honly⟩ := runWhole_refreshSteps (decide (f ∈ keepPrevious)) hu
    refine ⟨_, AsDesired.congr hsame hdone, OnlyGenerations.congr hsame fun k hk v hv => ?_⟩
    refine (honly k hk v hv).resolve_right fun hkept => hkeep (of_decide_eq_true hkept.1)

/-- A pass over fronts that are as desired swaps none. -/
theorem not_swapped_of_asWanted (hs : s.AsWanted desired) :
    f ∉ (frontPass fails order s desired true keepPrevious used cap).2.swapped := by
  intro hswapped
  obtain ⟨want, hd, hu⟩ := unchangedMeta_none_of_swapped hswapped
  obtain ⟨m, hm, hcount, -, hlocal, hslots⟩ := hs.present f want hd
  rw [unchangedMeta_eq_some.mpr ⟨hm, hcount, hlocal, hslots⟩] at hu
  cases hu

/-- And has room for all its plans: they only delete. -/
theorem roomForAll_of_asWanted (hs : s.AsWanted desired) (hwithin : s.usage.Within cap) :
    RoomForAll s cap (planFrontWrites s.metas s.endpoints desired true keepPrevious order) := by
  have hpeaks : ∀ δ : FrontWrite → Int, (∀ k, δ (.deleteEndpoint k) ≤ 0) →
      peaks δ (planFrontWrites s.metas s.endpoints desired true keepPrevious order) = 0 := by
    intro δ hδ
    refine List.sum_eq_zero fun x hx => ?_
    obtain ⟨p, hp, rfl⟩ := List.mem_map.mp hx
    refine Peak.peak_of_nonpos fun w hw => ?_
    rw [(mem_planFrontWrites.mp hp).2.1] at hw
    cases hd : desired.lookup p.front with
    | none =>
      rw [planFrontSteps_absent hd (hs.absent _ hd)] at hw
      cases hw
    | some want =>
      obtain ⟨m, hdone⟩ := hs.present _ _ hd
      obtain ⟨k, rfl, -⟩ := planFrontSteps_asDesired_mem hd hdone hw
      exact hδ k
  obtain ⟨hmetas, hendpoints⟩ := hwithin
  constructor
  · rw [hpeaks _ fun k => Int.neg_nonpos_of_nonneg Int.one_nonneg]
    omega
  · rw [hpeaks _ fun k => Int.le_refl 0]
    omega

end

/-! ## A tick whose operations go through -/

/-- Nothing fails. -/
structure TickCourse.Clean (c : TickCourse) : Prop where
  readsPodTargets : c.readsPodTargets = true
  walks : c.pinned.isSome = true
  evicts : ∀ pods, c.evict pods = true
  readsFronts : c.readsFronts = true
  readsNodeAllow : c.readsNodeAllow = true
  front : ∀ log w, c.failsFront log w = none
  nodeAllow : ∀ x, c.failsNodeAllow x = false
  podTarget : ∀ x, c.failsPodTarget x = false

/-- There is room for whatever a pass that installs these fronts may plan. -/
def FrontStore.RoomFor (s : FrontStore) (cap : FrontCapacity) (fronts : Table LbFrontKey DesiredFront) : Prop :=
  ∀ keep order, RoomForAll s cap (planFrontWrites s.metas s.endpoints fronts true keep order)

/-- What has room is within the capacities. -/
theorem FrontStore.RoomFor.within {s : FrontStore} {cap : FrontCapacity} {fronts : Table LbFrontKey DesiredFront}
    (h : s.RoomFor cap fronts) : s.usage.Within cap := (h ∅ .asStored).within

/-- Room for the rows that are there and for all that are wanted is enough. -/
theorem roomFor_of_wanted {s : FrontStore} {cap : FrontCapacity} {fronts : Table LbFrontKey DesiredFront}
    (hmetas : (s.fronts ∪ fronts.keys.toFinset).card ≤ cap.metas.toNat)
    (hendpoints : s.usage.endpoints + ∑ f ∈ fronts.keys.toFinset, wantedSlots fronts f ≤ cap.endpoints.toNat) :
    s.RoomFor cap fronts := by
  intro keep order
  have hsum : ∑ f ∈ s.fronts ∪ fronts.keys.toFinset, ((endpointsOf s.endpoints f).length + wantedSlots fronts f) =
      s.usage.endpoints + ∑ f ∈ fronts.keys.toFinset, wantedSlots fronts f := by
    rw [Finset.sum_add_distrib, ← usage_endpoints_eq Finset.subset_union_left]
    congr 1
    refine (Finset.sum_subset Finset.subset_union_right fun f _ hf => ?_).symm
    have hnone : fronts.lookup f = none := by
      rw [AList.lookup_eq_none]
      exact fun hmem => hf (List.mem_toFinset.mpr (AList.mem_keys.mp hmem))
    unfold wantedSlots
    rw [hnone]
    rfl
  refine roomForAll_of_fronts subset_rfl hmetas (hsum.trans_le hendpoints) fun f _ => ?_
  have hpeak := @peak_le_wanted s fronts true keep f
  omega

section
variable {p : PinnedMaps} {d : DesiredEntries} {k : SyncedMaps} {c : TickCourse}

/-- Nothing fails on any row. -/
theorem noneFails_of_clean {rows : Finset (Bytes 16)} {fails : Bytes 16 → Bool} (h : ∀ x, fails x = false) :
    noneFails rows fails = true := noneFails_iff.mpr fun x _ => h x

/-- **With room for the fronts, it succeeds.** -/
theorem succeeds_of_clean (hc : c.Clean) (hroom : k.fronts.RoomFor p.capacity d.fronts) : p.Succeeded d k c := by
  have hswept : (PinnedMaps.input d (k.reads c)).sweepFailed p.memory = false := by
    unfold TickInput.sweepFailed TickInput.plan planTick PinnedMaps.input SyncedMaps.reads
    simp only [hc.evicts, Bool.not_true, ite_self]
  refine ⟨fun hknown => ?_, ?_, fun hknown => ?_, hswept, fun _ => hc.walks⟩
  · rw [(PinnedMaps.apply_fronts hknown hc.readsFronts hswept).2.2, List.isEmpty_iff]
    exact clean_of_room hc.front (hroom _ _)
  · have hread : (k.reads c).nodeAllow.isSome = true := by
      unfold SyncedMaps.reads
      rw [if_pos hc.readsNodeAllow]
      rfl
    unfold PinnedMaps.nodeAllowResult
    rw [hread, Bool.or_true, Bool.true_and]
    exact noneFails_of_clean hc.nodeAllow
  · have hread : (k.reads c).podTargets.isSome = true := by
      unfold SyncedMaps.reads
      rw [if_pos hc.readsPodTargets]
      rfl
    unfold PinnedMaps.podTargetsResult
    rw [hread, Bool.true_and]
    exact noneFails_of_clean hc.podTarget

end

namespace Reconciler

variable [Host] {node : NodeContext} {s : Reconciler} {c : TickCourse}

/-- Whatever a front still has of another generation is on record as a recent swap. -/
def LeftoversRecorded (node : NodeContext) (s : Reconciler) : Prop :=
  ∀ f want, (s.wants node).fronts.lookup f = some want → s.maps.recentSwaps.lookup f = none →
    ∃ m, AsDesired s.kernel.fronts f want m ∧ OnlyGenerations s.kernel.fronts f fun g => g = m.generation

/-- **A tick that succeeds** has what it leaves over on record. -/
theorem leftovers_recorded (h : s.maps.Succeeded (s.wants node) s.kernel c) (hnumbered : (s.wants node).Numbered)
    (hknown : (s.wants node).frontsKnown = true) : (s.applyReconcile node c).LeftoversRecorded node := by
  obtain ⟨hlog, hswaps, hresult⟩ := PinnedMaps.apply_fronts hknown (h.readsFronts hknown) h.swept
  have hclean : (s.maps.wholePass (s.wants node) s.kernel c).2.failures = [] := by
    rw [← List.isEmpty_iff, ← hresult]
    exact h.fronts hknown
  have hstore : (s.applyReconcile node c).kernel.fronts =
      storeAfter s.kernel.fronts (s.maps.wholePass (s.wants node) s.kernel c).1 := by
    show storeAfter s.kernel.fronts (s.maps.apply (s.wants node) (s.kernel.reads c)).2.fronts = _
    rw [hlog]
  intro f want hd hnone
  have hrecord : (s.applyReconcile node c).maps.recentSwaps =
      s.maps.recentSwaps.record (s.maps.wholePass (s.wants node) s.kernel c).2.swapped c.writtenAt := hswaps
  rw [hrecord, RecentSwaps.lookup_record] at hnone
  split at hnone
  · cases hnone
  · rename_i hswapped
    have hkeep : f ∉ s.maps.recentSwaps.held c.writtenAt := by
      unfold RecentSwaps.held
      rw [List.mem_toFinset, Table.mem_keys_iff, hnone]
      rintro ⟨t, ht⟩
      cases ht
    rw [hstore]
    exact live_only_of_cleanPass hclean hnumbered hd hkeep hswapped

/-- A tick reads and writes nothing of what is watched. -/
@[simp] theorem wants_applyReconcile : (s.applyReconcile node c).wants node = s.wants node := rfl

/-- No swap on record is later than `t`. -/
def SwapsBy (t : Nat) (s : Reconciler) : Prop :=
  ∀ f swappedAt, s.maps.recentSwaps.lookup f = some swappedAt → swappedAt ≤ t

/-- Every swap on record was on record before a tick, or is of the tick. -/
theorem lookup_recentSwaps_applyReconcile {f : LbFrontKey} {swappedAt : Nat}
    (h : (s.applyReconcile node c).maps.recentSwaps.lookup f = some swappedAt) :
    s.maps.recentSwaps.lookup f = some swappedAt ∨ swappedAt = c.writtenAt := by
  have hswaps : (s.applyReconcile node c).maps.recentSwaps =
      (if (s.wants node).frontsKnown then
        s.maps.applyFrontMaps ((PinnedMaps.input (s.wants node) (s.kernel.reads c)).plan s.maps.memory) (s.kernel.reads c)
      else (s.maps.recentSwaps, [])).1 := rfl
  rw [hswaps] at h
  split at h
  · unfold PinnedMaps.applyFrontMaps at h
    split at h
    · exact Or.inl h
    · simp only [RecentSwaps.lookup_record] at h
      split at h
      · exact Or.inr (Option.some_inj.mp h).symm
      · rw [RecentSwaps.lookup_inGrace, Option.filter_eq_some_iff] at h
        exact Or.inl h.1
  · exact Or.inl h

/-- The swaps of a tick that is over by then. -/
theorem SwapsBy.applyReconcile {t : Nat} (h : s.SwapsBy t) (hc : c.writtenAt ≤ t) :
    (s.applyReconcile node c).SwapsBy t := by
  intro f swappedAt hlookup
  rcases lookup_recentSwaps_applyReconcile hlookup with hbefore | rfl
  · exact h f swappedAt hbefore
  · exact hc

/-! ## Left alone -/

/-- The maps are as the state asks, and what is left over of other generations is on record. -/
structure Settled (node : NodeContext) (s : Reconciler) : Prop where
  quiet : s.retry.retryAt = none
  converged : s.Converged node
  recorded : s.LeftoversRecorded node
  within : s.kernel.fronts.usage.Within s.maps.capacity
  latched : s.maps.frontsEverKnown = true

/-- And nothing is left over. -/
structure Exact (node : NodeContext) (s : Reconciler) : Prop extends Settled node s where
  forgotten : ∀ f, s.maps.recentSwaps.lookup f = none

/-- Where the maps are as asked, a pass writes nothing, so there is room. -/
theorem Settled.roomFor (h : s.Settled node) (hknown : (s.wants node).frontsKnown = true) :
    s.kernel.fronts.RoomFor s.maps.capacity (s.wants node).fronts :=
  fun _ _ => roomForAll_of_asWanted (h.converged.fronts hknown) h.within

/-- The latch of `NODE_ALLOW` is open after a tick that knows the fronts. -/
theorem latched_applyReconcile (hknown : (s.wants node).frontsKnown = true) :
    (s.applyReconcile node c).maps.frontsEverKnown = true := by
  show nodeAllowMayDelete (s.wants node).frontsKnown s.maps.frontsEverKnown = true
  rw [hknown]
  rfl

/-- **A clean tick settles.** -/
theorem settled_applyReconcile (hc : c.Clean) (hnumbered : (s.wants node).Numbered)
    (hknown : (s.wants node).frontsKnown = true)
    (hroom : s.kernel.fronts.RoomFor s.maps.capacity (s.wants node).fronts) : (s.applyReconcile node c).Settled node := by
  have hok := @succeeds_of_clean s.maps (s.wants node) s.kernel c hc hroom
  refine ⟨RetryBackoff.retryAt_record.mpr (PinnedMaps.succeeds_iff.mpr hok), hok.converged hnumbered,
    leftovers_recorded hok hnumbered hknown, ?_, latched_applyReconcile hknown⟩
  -- the pass is one of a process on maps within their caps
  let process : FrontProcess s.maps.capacity := ⟨s.kernel.fronts, s.maps.recentSwaps, hroom.within⟩
  let pass : FrontPass :=
    ⟨c.writtenAt, c.order, (s.wants node).fronts, true, c.failsFront, fun log w _ => hc.front log w⟩
  have hlog := (PinnedMaps.apply_fronts hknown hc.readsFronts hok.swept).1
  show (storeAfter s.kernel.fronts (s.maps.apply (s.wants node) (s.kernel.reads c)).2.fronts).usage.Within _
  rw [hlog]
  exact process.run_within pass

/-- A clean tick of a settled controller forgets the swaps whose grace is over, and makes none. -/
theorem Settled.lookup_recentSwaps (h : s.Settled node) (hc : c.Clean) (hknown : (s.wants node).frontsKnown = true)
    (f : LbFrontKey) : (s.applyReconcile node c).maps.recentSwaps.lookup f =
      (s.maps.recentSwaps.lookup f).filter fun swappedAt => c.writtenAt - swappedAt < previousGenerationGrace := by
  have hok := @succeeds_of_clean s.maps (s.wants node) s.kernel c hc (h.roomFor hknown)
  have hswaps := (PinnedMaps.apply_fronts hknown hc.readsFronts hok.swept).2.1
  show (s.maps.apply (s.wants node) (s.kernel.reads c)).1.recentSwaps.lookup f = _
  have hnone : f ∉ (s.maps.wholePass (s.wants node) s.kernel c).2.swapped :=
    not_swapped_of_asWanted (h.converged.fronts hknown)
  rw [hswaps, RecentSwaps.lookup_record, if_neg hnone, RecentSwaps.lookup_inGrace]

omit [Host] in
/-- No retry is due where none is armed. -/
theorem not_due_of_quiet (h : s.retry.retryAt = none) (now : Instant) : s.retry.due now = false := by
  unfold RetryBackoff.due
  rw [h]
  rfl

/-- An exact controller does nothing. -/
theorem Exact.poll (h : s.Exact node) (now : Instant) (c : TickCourse) : s.poll node now c = s := by
  have hfresh : s.maps.recentSwaps.expired now = false := by
    rw [← Bool.not_eq_true]
    intro hexpired
    obtain ⟨swappedAt, hmem, -⟩ := List.any_eq_true.mp hexpired
    obtain ⟨f, hf⟩ := Table.mem_values.mp hmem
    rw [h.forgotten f] at hf
    cases hf
  rw [poll_eq, not_due_of_quiet h.quiet, hfresh]
  rfl

omit [Host] in
/-- Nor later than any later time. -/
theorem SwapsBy.mono {t t' : Nat} (h : s.SwapsBy t) (ht : t ≤ t') : s.SwapsBy t' :=
  fun f swappedAt hf => (h f swappedAt hf).trans ht

end Reconciler

/-- One round of the retry loop in which nothing fails. -/
structure QuietPoll where
  now : Nat
  course : TickCourse
  clean : course.Clean

/-- Rounds of the retry loop that start no more than `gap` after one another, the first no more than that after `since`
    and not before `free`, when the last one was over. -/
def Timely (gap : Nat) : Nat → Nat → List QuietPoll → Prop
  | _, _, [] => True
  | since, free, poll :: polls =>
      free ≤ poll.now ∧ poll.now ≤ since + gap ∧ poll.now ≤ poll.course.startedAt ∧
        poll.course.startedAt ≤ poll.course.writtenAt ∧ Timely gap poll.now poll.course.writtenAt polls

namespace Reconciler

variable [Host] {node : NodeContext} {s : Reconciler} {c : TickCourse}

/-- The round. -/
def quietPoll (node : NodeContext) (s : Reconciler) (p : QuietPoll) : Reconciler := s.poll node p.now p.course

/-- Where a controller stands that is left alone, with a retry armed for `armedBy` at the latest: its last round started
    at `since` and was over at `free`. -/
inductive Phase (node : NodeContext) (armedBy gap : Nat) (s : Reconciler) (since free : Nat) : Prop
  | armed {retryAt : Nat} (hsince : since ≤ armedBy) (harmed : s.retry.retryAt = some retryAt)
      (hby : retryAt ≤ armedBy) (hroom : s.kernel.fronts.RoomFor s.maps.capacity (s.wants node).fronts)
      (hswaps : s.SwapsBy free)
  | settling (hsince : since < armedBy + 2 * gap + previousGenerationGrace) (hsettled : s.Settled node)
      (hswaps : s.SwapsBy (armedBy + 2 * gap) ∨ since ≤ armedBy + gap ∧ s.SwapsBy free)
  | exact (h : s.Exact node)

/-- **One round.** -/
theorem Phase.quietPoll {armedBy gap : Nat} {since free : Nat} (h : Phase node armedBy gap s since free)
    (hnumbered : (s.wants node).Numbered) (hknown : (s.wants node).frontsKnown = true) (p : QuietPoll)
    (hfree : free ≤ p.now) (hgap : p.now ≤ since + gap) (hover : p.now ≤ p.course.writtenAt) :
    Phase node armedBy gap (s.quietPoll node p) p.now p.course.writtenAt := by
  have hgrace : 0 < previousGenerationGrace := by decide
  cases h with
  | armed hsince harmed hby hroom hswaps =>
    rename_i retryAt
    unfold Reconciler.quietPoll
    rw [poll_eq]
    split
    · refine .settling (by omega) (settled_applyReconcile p.clean hnumbered hknown hroom) (Or.inr ⟨by omega, ?_⟩)
      exact (hswaps.mono (hfree.trans hover)).applyReconcile (Nat.le_refl _)
    · rename_i hidle
      have hdue : s.retry.due p.now = false := by
        rw [Bool.not_eq_true, Bool.or_eq_false_iff] at hidle
        exact hidle.1
      have hearly : p.now < retryAt := by
        unfold RetryBackoff.due at hdue
        rw [harmed] at hdue
        simpa using hdue
      exact .armed (by omega) harmed hby hroom (hswaps.mono (hfree.trans hover))
  | settling hsince hsettled hswaps =>
    have hby : s.SwapsBy (armedBy + 2 * gap) := by
      rcases hswaps with hby | ⟨hsince, hby⟩
      · exact hby
      · exact hby.mono (by omega)
    unfold Reconciler.quietPoll
    rw [poll_eq, not_due_of_quiet hsettled.quiet, Bool.false_or]
    split
    · have hagain := settled_applyReconcile p.clean hnumbered hknown (hsettled.roomFor hknown)
      have hlookup := hsettled.lookup_recentSwaps p.clean hknown
      by_cases hlate : p.now < armedBy + 2 * gap + previousGenerationGrace
      · refine .settling hlate hagain (Or.inl fun f swappedAt hf => ?_)
        rw [hlookup, Option.filter_eq_some_iff] at hf
        exact hby f swappedAt hf.1
      · refine .exact ⟨hagain, fun f => ?_⟩
        rw [hlookup, Option.filter_eq_none_iff]
        intro swappedAt hf
        have hold := hby f swappedAt hf
        rw [decide_eq_true_eq]
        omega
    · rename_i hfresh
      by_cases hlate : p.now < armedBy + 2 * gap + previousGenerationGrace
      · exact .settling hlate hsettled (Or.inl hby)
      · refine .exact ⟨hsettled, fun f => ?_⟩
        by_contra hne
        obtain ⟨swappedAt, hf⟩ := Option.ne_none_iff_exists'.mp hne
        have hold := hby f swappedAt hf
        exact hfresh (RecentSwaps.expired_of_lookup hf (by omega))
  | exact h =>
    have hstay : s.quietPoll node p = s := h.poll p.now p.course
    rw [hstay]
    exact .exact h

end Reconciler

/-! ## What leads up to it -/

/-- The tick of a step is over by `t`. -/
def ReconcileStep.By (t : Nat) : ReconcileStep → Prop
  | .watch _ c | .poll _ c => c.startedAt ≤ t ∧ c.writtenAt ≤ t

/-- A retry is armed for the longest delay after the tick that failed, at the latest. -/
theorem RetryBackoff.deadline_record {b : RetryBackoff} {ok : Bool} {now retryAt : Nat}
    (h : (b.record ok now).retryAt = some retryAt) : b.retryAt = some retryAt ∨ retryAt ≤ now + retryMax := by
  unfold RetryBackoff.record at h
  split at h
  · cases h
  · split at h
    · exact Or.inl h
    · right
      rw [← Option.some_inj.mp h]
      exact Nat.add_le_add_left (Nat.min_le_right _ _) now

namespace Reconciler

variable [Host] {node : NodeContext} {s : Reconciler} {c : TickCourse}

/-- What every run keeps whose ticks are over by `t`, whatever fails in them. -/
structure LeadUp (node : NodeContext) (t : Nat) (s : Reconciler) : Prop where
  deadline : ∀ retryAt : Nat, s.retry.retryAt = some retryAt → retryAt ≤ t + retryMax
  swaps : s.SwapsBy t
  latched : (s.wants node).frontsKnown = true → s.maps.frontsEverKnown = true
  converged : s.QuietConverged node
  recorded : s.retry.retryAt = none → (s.wants node).Numbered → (s.wants node).frontsKnown = true →
    s.LeftoversRecorded node

/-- **The tick**, whose state may just have changed. -/
theorem LeadUp.applyReconcile {t : Nat}
    (hdeadline : ∀ retryAt : Nat, s.retry.retryAt = some retryAt → retryAt ≤ t + retryMax)
    (hswaps : s.SwapsBy t) (hstarted : c.startedAt ≤ t) (hwritten : c.writtenAt ≤ t) :
    (s.applyReconcile node c).LeadUp node t where
  deadline := by
    intro retryAt harmed
    -- armed before the tick, or by it
    rcases RetryBackoff.deadline_record harmed with hbefore | hnow
    · exact hdeadline retryAt hbefore
    · exact hnow.trans (Nat.add_le_add_right hstarted _)
  swaps := hswaps.applyReconcile hwritten
  latched := fun h => latched_applyReconcile h
  converged := quietConverged_applyReconcile
  recorded := by
    intro hquiet hnumbered hknown
    have hok := RetryBackoff.retryAt_record.mp hquiet
    exact leftovers_recorded (PinnedMaps.succeeds_iff.mp hok) hnumbered hknown

/-- **The step.** -/
theorem LeadUp.step {t : Nat} (h : s.LeadUp node t) {e : ReconcileStep} (he : e.By t) : (s.step node e).LeadUp node t := by
  cases e with
  | watch input c =>
    show (s.watch node input c).LeadUp node t
    unfold watch
    split
    · exact LeadUp.applyReconcile h.deadline h.swaps he.1 he.2
    · exact h
  | poll now c =>
    show (s.poll node now c).LeadUp node t
    rw [poll_eq]
    split
    · exact LeadUp.applyReconcile h.deadline h.swaps he.1 he.2
    · exact h

/-- By induction on the steps. -/
theorem leadUp_run {t : Nat} (h : s.LeadUp node t) {steps : List ReconcileStep} (hsteps : ∀ e ∈ steps, e.By t) :
    (steps.foldl (Reconciler.step node) s).LeadUp node t := by
  induction steps generalizing s with
  | nil => exact h
  | cons e steps ih =>
    exact ih (h.step (hsteps e List.mem_cons_self)) fun e he => hsteps e (List.mem_cons_of_mem _ he)

/-- A fresh process has armed nothing, and recorded nothing. -/
theorem leadUp_start (capacity : FrontCapacity) (kernel : SyncedMaps) (t : Nat) :
    (start capacity kernel).LeadUp node t where
  deadline := fun _ h => by cases h
  swaps := fun _ _ h => by cases h
  latched := fun h => absurd h Bool.false_ne_true
  converged := fun _ _ => converged_start capacity kernel
  recorded := fun _ _ h => absurd h Bool.false_ne_true

/-- Where a run leaves the controller. -/
theorem LeadUp.phase {t gap : Nat} (h : s.LeadUp node t) (hnumbered : (s.wants node).Numbered)
    (hknown : (s.wants node).frontsKnown = true)
    (hroom : s.kernel.fronts.RoomFor s.maps.capacity (s.wants node).fronts) : Phase node (t + retryMax) gap s t t := by
  have hgrace : 0 < previousGenerationGrace := by decide
  cases hretry : s.retry.retryAt with
  | some retryAt => exact .armed (by omega) hretry (h.deadline retryAt hretry) hroom h.swaps
  | none =>
    refine .settling (by omega) ⟨hretry, h.converged hretry hnumbered, h.recorded hretry hnumbered hknown, hroom.within,
      h.latched hknown⟩ (Or.inr ⟨by omega, h.swaps⟩)

/-- No round changes what is watched. -/
theorem wants_quietPoll (p : QuietPoll) : (s.quietPoll node p).wants node = s.wants node := by
  unfold quietPoll
  rw [poll_eq]
  split <;> rfl

/-- Some rounds. -/
theorem Phase.quietPolls {armedBy gap : Nat} {since free : Nat} (h : Phase node armedBy gap s since free)
    (hnumbered : (s.wants node).Numbered) (hknown : (s.wants node).frontsKnown = true) {before after : List QuietPoll}
    {p : QuietPoll} (hpolls : Timely gap since free (before ++ p :: after)) :
    Phase node armedBy gap ((before ++ [p]).foldl (Reconciler.quietPoll node) s) p.now p.course.writtenAt := by
  induction before generalizing s since free with
  | nil =>
    obtain ⟨hfree, hgap, hstarted, hwritten, -⟩ := hpolls
    exact h.quietPoll hnumbered hknown p hfree hgap (by omega)
  | cons q before ih =>
    obtain ⟨hfree, hgap, hstarted, hwritten, hrest⟩ := hpolls
    have hnext := h.quietPoll hnumbered hknown q hfree hgap (by omega)
    refine ih hnext ?_ ?_ hrest
    · rw [wants_quietPoll]
      exact hnumbered
    · rw [wants_quietPoll]
      exact hknown

/-- By induction on the rounds, each of which changes nothing. -/
theorem Exact.quietPolls (h : s.Exact node) (polls : List QuietPoll) : polls.foldl (quietPoll node) s = s := by
  induction polls with
  | nil => rfl
  | cons p polls ih =>
    have hstay : s.quietPoll node p = s := h.poll p.now p.course
    rw [List.foldl_cons, hstay]
    exact ih

/-- By induction on the rounds. -/
theorem wants_quietPolls (polls : List QuietPoll) : (polls.foldl (quietPoll node) s).wants node = s.wants node := by
  induction polls generalizing s with
  | nil => rfl
  | cons p polls ih => exact ih.trans (wants_quietPoll p)

/-- **A quiet cluster settles.** From any content of the maps, after any run of watch inputs and polls that is over by
    `t`, whatever failed in it: once all three LISTs are in, if no front has more endpoints than slot numbers tell apart,
    nothing more is watched and nothing more fails, the retry loop looks in at least every `gap`, and the front maps have
    room, then `RETRY_MAX`, the grace and two gaps after `t` the maps are exactly as asked (`POD_TARGETS` if the pods of
    the node are known), no row of another generation is left of any front, and no tick runs any more. -/
theorem quiet_cluster_settles (capacity : FrontCapacity) (kernel : SyncedMaps) {steps : List ReconcileStep} {t gap : Nat}
    (hsteps : ∀ e ∈ steps, e.By t) {polls : List QuietPoll} (hpolls : Timely gap t t polls) :
    let s := steps.foldl (step node) (start capacity kernel)
    (s.wants node).frontsKnown = true → (s.wants node).Numbered →
    s.kernel.fronts.RoomFor s.maps.capacity (s.wants node).fronts →
    ∀ before p after, polls = before ++ p :: after → t + retryMax + previousGenerationGrace + 2 * gap ≤ p.now →
      let s' := (before ++ [p]).foldl (quietPoll node) s
      (∀ f want, (s.wants node).fronts.lookup f = some want → ∃ m, AsDesired s'.kernel.fronts f want m ∧
          OnlyGenerations s'.kernel.fronts f fun g => g = m.generation) ∧
        (∀ f, (s.wants node).fronts.lookup f = none → Absent s'.kernel.fronts f) ∧
        ((s.wants node).podTargetsKnown = true → s'.kernel.podTargets = (s.wants node).podTargets) ∧
        s'.kernel.nodeAllow = (s.wants node).nodeAllow ∧ after.foldl (quietPoll node) s' = s' := by
  intro s hknown hnumbered hroom before p after hsplit hlate s'
  have hlead := leadUp_run (@leadUp_start _ node capacity kernel t) hsteps
  rw [hsplit] at hpolls
  have hphase := (hlead.phase hnumbered hknown hroom).quietPolls hnumbered hknown hpolls
  have hgrace : 0 < previousGenerationGrace := by decide
  have hexact : s'.Exact node := by
    cases hphase with
    | armed hsince => omega
    | settling hsince => omega
    | exact h => exact h
  have hwants : s'.wants node = s.wants node := wants_quietPolls _
  have hconverged := hexact.converged
  unfold Converged at hconverged
  have hrecorded := hexact.recorded
  unfold LeftoversRecorded at hrecorded
  rw [hwants] at hconverged hrecorded
  refine ⟨fun f want hd => hrecorded f want hd (hexact.forgotten f), (hconverged.fronts hknown).absent,
    hconverged.podTargets, ?_, hexact.quietPolls after⟩
  exact Finset.Subset.antisymm (hconverged.nodeAllow_only hexact.latched) hconverged.nodeAllow

end Reconciler

/-- Key by key, in some order. -/
noncomputable def someKeyOrder : KeyOrder := ⟨Finset.toList, Finset.mem_toList⟩

/-- A tick at the given time that can read the front maps or not. -/
noncomputable def tickCourse (now : Nat) (readsFronts : Bool) : TickCourse where
  startedAt := now
  writtenAt := now
  readsPodTargets := true
  pinned := some ∅
  evict := fun _ => true
  readsFronts := readsFronts
  readsNodeAllow := true
  order := .asStored
  keyOrder := someKeyOrder
  failsFront := fun _ _ => none
  failsNodeAllow := fun _ => false
  failsPodTarget := fun _ => false

/-- A round at the given time. -/
noncomputable def quietPollAt (now : Nat) : QuietPoll := ⟨now, tickCourse now true, ⟨rfl, rfl, fun _ => rfl, rfl, rfl,
  fun _ _ => rfl, fun _ => rfl, fun _ => rfl⟩⟩

/-- A front that a process before left behind, and a node that is gone. -/
def leftBehind : SyncedMaps := ⟨sampleFrontStore, ∅, {podAt 7}⟩

/-- The LISTs of a cluster without Services and Nodes, none of whose ticks can read the front maps. -/
noncomputable def emptyLists : List ReconcileStep :=
  [.watch (.services []) (tickCourse 0 false), .watch (.endpointSlices []) (tickCourse 0 false),
    .watch (.nodes []) (tickCourse 0 false)]

/-- Three rounds in a minute. -/
noncomputable def sixtySeconds : List QuietPoll :=
  [quietPollAt 20000000000, quietPollAt 40000000000, quietPollAt 60000000000]

local instance quietHost : Host := ⟨.little⟩

/-- A controller that has them. -/
noncomputable def emptyCluster : Reconciler :=
  emptyLists.foldl (Reconciler.step hostNode) (Reconciler.start ⟨10, 10⟩ leftBehind)

/-- An empty cluster asks for no front, and knows so. -/
theorem wants_emptyCluster : emptyCluster.wants hostNode = { frontsKnown := true } := by
  have hstate : emptyCluster.state = { nodesListed := true, servicesListed := true, slicesListed := true } := rfl
  unfold Reconciler.wants
  rw [hstate]
  rfl

/-- The ticks could not read the maps, so the front is still there. -/
theorem kernel_emptyCluster : emptyCluster.kernel.fronts = sampleFrontStore := rfl

/-- There is no front to have too many endpoints. -/
theorem numbered_emptyCluster : (emptyCluster.wants hostNode).Numbered := by
  rw [wants_emptyCluster]
  intro f want hd
  cases hd

/-- There is room for what is to be deleted. -/
theorem roomFor_emptyCluster : emptyCluster.kernel.fronts.RoomFor ⟨10, 10⟩ (emptyCluster.wants hostNode).fronts := by
  rw [wants_emptyCluster, kernel_emptyCluster]
  exact roomFor_of_wanted (by decide) (by decide)

/-- The Services listed once more. -/
noncomputable def listedAgain : List ReconcileStep := emptyLists ++ [.watch (.services []) (tickCourse 1 true)]

/-- The last LIST changes nothing in the state, and has a tick. -/
theorem foldl_listedAgain : listedAgain.foldl (Reconciler.step hostNode) (Reconciler.start ⟨10, 10⟩ leftBehind) =
    emptyCluster.applyReconcile hostNode (tickCourse 1 true) := by
  have haccepts : emptyCluster.state.accepts hostNode.nodeIp (.services []) = true := rfl
  have hsame : emptyCluster.state.apply hostNode.nodeIp (.services []) = emptyCluster.state := rfl
  unfold listedAgain
  rw [List.foldl_append]
  show emptyCluster.watch hostNode (.services []) (tickCourse 1 true) = _
  unfold Reconciler.watch
  rw [if_pos haccepts, hsame]

/-- The Services are listed once more and nothing fails: the front and the node are gone. -/
theorem quiet_converged_left_behind :
    let s := listedAgain.foldl (Reconciler.step hostNode) (Reconciler.start ⟨10, 10⟩ leftBehind)
    (emptyCluster.kernel.fronts.metas.lookup sampleFront).isSome = true ∧ Absent s.kernel.fronts sampleFront ∧
      s.kernel.nodeAllow = ∅ := by
  have hknown : (emptyCluster.wants hostNode).frontsKnown = true := by rw [wants_emptyCluster]
  have hsettled : (emptyCluster.applyReconcile hostNode (tickCourse 1 true)).Settled hostNode :=
    Reconciler.settled_applyReconcile (quietPollAt 1).clean numbered_emptyCluster hknown roomFor_emptyCluster
  have hquiet := @Reconciler.quiet_converged _ hostNode ⟨10, 10⟩ leftBehind listedAgain
  simp only [foldl_listedAgain, Reconciler.wants_applyReconcile, wants_emptyCluster] at hquiet ⊢
  have hnumbered := numbered_emptyCluster
  rw [wants_emptyCluster] at hnumbered
  obtain ⟨hfronts, -, -, hallow⟩ := hquiet hnumbered hsettled.quiet
  rw [kernel_emptyCluster]
  exact ⟨by decide, (hfronts trivial).absent sampleFront rfl, hallow hsettled.latched⟩

/-- The LISTs are in, the retry is armed, and the front is still there; eighty seconds later neither it nor the node is. -/
theorem quiet_cluster_settles_left_behind :
    let s := (sixtySeconds ++ [quietPollAt 80000000000]).foldl (Reconciler.quietPoll hostNode) emptyCluster
    (emptyCluster.kernel.fronts.metas.lookup sampleFront).isSome = true ∧ Absent s.kernel.fronts sampleFront ∧
      s.kernel.nodeAllow = ∅ := by
  have hsteps : ∀ e ∈ emptyLists, e.By 0 := by
    unfold emptyLists
    simp only [List.mem_cons, List.not_mem_nil, or_false, forall_eq_or_imp, forall_eq]
    exact ⟨⟨Nat.le_refl 0, Nat.le_refl 0⟩, ⟨Nat.le_refl 0, Nat.le_refl 0⟩, ⟨Nat.le_refl 0, Nat.le_refl 0⟩⟩
  have hpolls : Timely 20000000000 0 0 (sixtySeconds ++ [quietPollAt 80000000000]) := by
    simp [Timely, sixtySeconds, quietPollAt, tickCourse]
  have hknown : (emptyCluster.wants hostNode).frontsKnown = true := by rw [wants_emptyCluster]
  obtain ⟨-, habsent, -, hallow, -⟩ := Reconciler.quiet_cluster_settles ⟨10, 10⟩ leftBehind hsteps hpolls hknown
    numbered_emptyCluster roomFor_emptyCluster sixtySeconds (quietPollAt 80000000000) [] rfl (by decide)
  change ∀ f, (emptyCluster.wants hostNode).fronts.lookup f = none → _ at habsent
  change _ = (emptyCluster.wants hostNode).nodeAllow at hallow
  rw [wants_emptyCluster] at habsent hallow
  rw [kernel_emptyCluster]
  exact ⟨by decide, habsent sampleFront rfl, hallow⟩

end Beep
