import Beep.Lib.Run
import Beep.Loader.FrontSwap.Consistent
import Mathlib.Data.Finset.Card

/-!
# `Loader.FrontSwap.Generations` — at most two generations of a front

A swap first deletes every row of a front that is not of the live generation and only then writes the next
one, so however many of its writes fail the rows of a front are of the live generation or the next. A pass
that only deletes leaves no more generations than it found. Both hold after every single write.
-/

namespace Beep

open Run

/-- The generations the endpoint rows of a front are of. -/
def FrontStore.generations (s : FrontStore) (f : LbFrontKey) : Finset UInt32 :=
  ((endpointsOf s.endpoints f).map (·.generation)).toFinset

theorem FrontStore.mem_generations {s : FrontStore} {f : LbFrontKey} {g : UInt32} :
    g ∈ s.generations f ↔ ∃ k v, k.front = f ∧ s.endpoints.lookup k = some v ∧ k.generation = g := by
  rw [FrontStore.generations, List.mem_toFinset, List.mem_map]
  constructor
  · rintro ⟨k, hk, hg⟩
    obtain ⟨hf, v, hv⟩ := mem_endpointsOf.mp hk
    exact ⟨k, v, hf, hv, hg⟩
  · rintro ⟨k, v, hf, hv, hg⟩
    exact ⟨k, mem_endpointsOf.mpr ⟨hf, v, hv⟩, hg⟩

theorem generations_congr {f : LbFrontKey} {s t : FrontStore} (h : SameFront f s t) :
    s.generations f = t.generations f := by
  ext g
  simp only [FrontStore.mem_generations]
  refine exists₂_congr fun k v => and_congr_right fun hk => ?_
  rw [h.2 k hk]

/-! ## What a log of writes does to them -/

/-- A write that adds no row outside the generations `G`. -/
def FrontWrite.AddsWithin (G : Finset UInt32) : FrontWrite → Prop
  | .putEndpoint k _ => k.generation ∈ G
  | _ => True

/-- One write adds its own generation at most. -/
theorem generations_apply {f : LbFrontKey} {s : FrontStore} {w : FrontWrite} {G : Finset UInt32}
    (hw : w.AddsWithin G) (hs : s.generations f ⊆ G) : (s.apply w).generations f ⊆ G := by
  intro g hg
  obtain ⟨k, v, hk, hv, rfl⟩ := FrontStore.mem_generations.mp hg
  have hold : s.endpoints.lookup k = some v → k.generation ∈ G :=
    fun h => hs (FrontStore.mem_generations.mpr ⟨k, v, hk, h, rfl⟩)
  cases w with
  | deleteEndpoint k' =>
    replace hv := (Table.lookup_erase_ite s.endpoints k' k).symm.trans hv
    split at hv
    · cases hv
    · exact hold hv
  | putEndpoint k' v' =>
    replace hv := (Table.lookup_insert_ite s.endpoints k' k v').symm.trans hv
    split at hv
    · rename_i hkey
      rw [hkey]
      exact hw
    · exact hold hv
  | putMeta _ _ | deleteMeta _ => exact hold hv

theorem generations_storeAfter {f : LbFrontKey} {G : Finset UInt32} {log : FrontLog}
    (hlog : ∀ w ∈ log, w.1.AddsWithin G) {s : FrontStore} (hs : s.generations f ⊆ G) :
    (storeAfter s log).generations f ⊆ G := by
  induction log generalizing s with
  | nil => exact hs
  | cons e log ih =>
    obtain ⟨w, ok⟩ := e
    rw [storeAfter_cons]
    refine ih (fun w' hw' => hlog w' (List.mem_cons_of_mem _ hw')) ?_
    cases ok with
    | false => exact hs
    | true => exact generations_apply (hlog (w, true) List.mem_cons_self) hs

/-- A row that a log of deletes deletes is gone. -/
theorem lookup_storeAfter_deletes {log : FrontLog} (hdel : ∀ w ∈ log, ∃ k, w.1 = .deleteEndpoint k)
    {s : FrontStore} {k : FrontEndpointKey}
    (hk : s.endpoints.lookup k = none ∨ (FrontWrite.deleteEndpoint k, true) ∈ log) :
    (storeAfter s log).endpoints.lookup k = none := by
  induction log generalizing s with
  | nil => exact hk.resolve_right List.not_mem_nil
  | cons e log ih =>
    obtain ⟨w, ok⟩ := e
    obtain ⟨k', rfl⟩ := hdel (w, ok) List.mem_cons_self
    rw [storeAfter_cons]
    refine ih (fun w' hw' => hdel w' (List.mem_cons_of_mem _ hw')) ?_
    have herase : ok = true → (s.apply (.deleteEndpoint k')).endpoints.lookup k =
        if k = k' then none else s.endpoints.lookup k := fun _ => Table.lookup_erase_ite ..
    rcases hk with hnone | hmem
    · left
      cases ok with
      | false => exact hnone
      | true =>
        rw [if_pos rfl, herase rfl, hnone]
        exact ite_self none
    · rcases List.mem_cons.mp hmem with heq | hmem
      · left
        cases heq
        rw [if_pos rfl, herase rfl, if_pos rfl]
      · exact Or.inr hmem

/-! ## One plan -/

/-- No delete of an endpoint row fails. -/
def FrontLog.DeletesSucceed (log : FrontLog) : Prop :=
  ∀ k ok, (FrontWrite.deleteEndpoint k, ok) ∈ log → ok = true

/-- After a plan that adds no row there are no more generations than before it. -/
theorem generations_of_no_put {f : LbFrontKey} {s : FrontStore} {log : FrontLog}
    (hlog : ∀ w ∈ log, w.1.isPutEndpoint = false) : (storeAfter s log).generations f ⊆ s.generations f := by
  refine generations_storeAfter (fun w hw => ?_) subset_rfl
  obtain ⟨w, ok⟩ := w
  cases w with
  | putEndpoint k v => cases hlog _ hw
  | deleteEndpoint _ | putMeta _ _ | deleteMeta _ => trivial

/-- The rows of a front in the middle of a swap: those it had, or the live generation and the next. -/
theorem generations_swap {f : LbFrontKey} {s : FrontStore} {want : DesiredFront} {log p : FrontLog}
    (h : IssuedBy false (swapSteps (endpointsOf s.endpoints f) f want (s.metas.lookup f)) log)
    (hdel : log.DeletesSucceed) (hp : p <+: log) :
    (storeAfter s p).generations f ⊆ s.generations f ∨
      ∃ g, (storeAfter s p).generations f ⊆ {g, nextGeneration (s.metas.lookup f)} := by
  unfold swapSteps at h
  rw [List.append_assoc] at h
  obtain ⟨before, after, blocked, rfl, hbefore, hafter, _⟩ := h.split_quiet (fun w hw => by
    obtain ⟨k, _, rfl⟩ := List.mem_map.mp hw
    exact ⟨rfl, rfl⟩)
  have hbeforeDel : ∀ w ∈ before, ∃ k, w.1 = FrontWrite.deleteEndpoint k := by
    intro w hw
    have hmem : w.1 ∈ before.map Prod.fst := List.mem_map_of_mem hw
    rw [hbefore] at hmem
    obtain ⟨k, _, hk⟩ := List.mem_map.mp hmem
    exact ⟨k, hk.symm⟩
  have hnoPut : ∀ w ∈ before, w.1.isPutEndpoint = false := by
    intro w hw
    obtain ⟨k, hk⟩ := hbeforeDel w hw
    rw [hk]
    rfl
  rcases List.prefix_or_prefix_of_prefix hp (List.prefix_append before after) with hshort | ⟨p', rfl⟩
  · -- the deletes are not through yet
    exact Or.inl (generations_of_no_put fun w hw => hnoPut w (hshort.subset hw))
  · right
    have hp' : p' <+: after := (List.prefix_append_right_inj before).mp hp
    -- what is left after the deletes is of the live generation
    have hlive : ∀ g ∈ (storeAfter s before).generations f, some g = (s.metas.lookup f).map (·.generation) := by
      intro g hg
      obtain ⟨k, v, hk, hv, rfl⟩ := FrontStore.mem_generations.mp hg
      by_contra hstale
      have hthere : ∃ w, s.endpoints.lookup k = some w := by
        by_contra hnone
        have hnone' := Option.eq_none_iff_forall_ne_some.mpr fun w hw => hnone ⟨w, hw⟩
        rw [lookup_storeAfter_deletes hbeforeDel (Or.inl hnone')] at hv
        cases hv
      have hmem : FrontWrite.deleteEndpoint k ∈ before.map Prod.fst := by
        rw [hbefore]
        refine List.mem_map_of_mem (List.mem_filter.mpr ⟨mem_endpointsOf.mpr ⟨hk, hthere⟩, ?_⟩)
        simpa using hstale
      obtain ⟨⟨w, ok⟩, hw, rfl⟩ := List.mem_map.mp hmem
      obtain rfl := hdel k ok (List.mem_append_left _ hw)
      rw [lookup_storeAfter_deletes hbeforeDel (Or.inr hw)] at hv
      cases hv
    refine ⟨((s.metas.lookup f).map (·.generation)).getD 0, ?_⟩
    rw [storeAfter_append]
    refine generations_storeAfter (fun w hw => ?_) fun g hg => ?_
    · rcases List.mem_append.mp (hafter.mem_steps w (hp'.subset hw)) with hput | hmeta
      · obtain ⟨e, _, he⟩ := List.mem_map.mp hput
        rw [← he]
        exact Finset.mem_insert_of_mem (Finset.mem_singleton_self _)
      · rw [List.mem_singleton.mp hmeta]
        trivial
    · rw [← hlive g hg]
      exact Finset.mem_insert_self ..

/-- The rows of a front while its plan runs. -/
theorem generations_planFrontSteps {f : LbFrontKey} {s : FrontStore} {desired : Table LbFrontKey DesiredFront}
    {pruneAbsent : Bool} {keepPrevious : Finset LbFrontKey} {log p : FrontLog}
    (h : IssuedBy false (planFrontSteps s.metas s.endpoints desired pruneAbsent keepPrevious f) log)
    (hdel : log.DeletesSucceed) (hp : p <+: log) :
    (storeAfter s p).generations f ⊆ s.generations f ∨
      ∃ g, (storeAfter s p).generations f ⊆ {g, nextGeneration (s.metas.lookup f)} := by
  have hshrink : (∀ w ∈ planFrontSteps s.metas s.endpoints desired pruneAbsent keepPrevious f,
      w.isPutEndpoint = false) → (storeAfter s p).generations f ⊆ s.generations f :=
    fun hno => generations_of_no_put fun w hw => hno _ (h.mem_steps w (hp.subset hw))
  have hdeletes : ∀ ks : List FrontEndpointKey, ∀ w ∈ ks.map FrontWrite.deleteEndpoint,
      w.isPutEndpoint = false := by
    intro ks w hw
    obtain ⟨k, _, rfl⟩ := List.mem_map.mp hw
    rfl
  unfold planFrontSteps at h hshrink
  cases hd : desired.lookup f with
  | none =>
    refine Or.inl (hshrink fun w hw => ?_)
    simp only [hd] at hw
    split at hw
    · rcases List.mem_append.mp hw with hw | hw
      · split at hw
        · rw [List.mem_singleton.mp hw]
          rfl
        · cases hw
      · exact hdeletes _ w hw
    · cases hw
  | some want =>
    cases hu : unchangedMeta s.endpoints f want (s.metas.lookup f) with
    | some m =>
      refine Or.inl (hshrink fun w hw => ?_)
      simp only [hd, hu] at hw
      rcases List.mem_append.mp hw with hw | hw
      · exact hdeletes _ w hw
      · split at hw
        · rw [List.mem_singleton.mp hw]
          rfl
        · cases hw
    | none =>
      simp only [hd, hu] at h
      exact generations_swap h hdel hp

/-! ## Passes -/

/-- What one pass is given, and which of its writes fail. -/
structure FrontPassInput where
  fails : FrontLog → FrontWrite → Option MapError
  order : IterationOrder LbFrontKey
  desired : Table LbFrontKey DesiredFront
  pruneAbsent : Bool
  keepPrevious : Finset LbFrontKey
  used : FrontUsage
  cap : FrontCapacity

/-- The writes the pass issues. -/
def FrontPassInput.log (p : FrontPassInput) (s : FrontStore) : FrontLog :=
  (frontPass p.fails p.order s p.desired p.pruneAbsent p.keepPrevious p.used p.cap).1

/-- The maps after the pass. -/
def FrontStore.pass (s : FrontStore) (p : FrontPassInput) : FrontStore := storeAfter s (p.log s)

/-- Every front's rows are of at most two generations. -/
def FrontStore.TwoGenerations (s : FrontStore) : Prop := ∀ f, (s.generations f).card ≤ 2

/-- **One pass.** -/
theorem twoGenerations_prefix {s : FrontStore} {pass : FrontPassInput} (hs : s.TwoGenerations)
    (hdel : (pass.log s).DeletesSucceed) {p : FrontLog} (hp : p <+: pass.log s) :
    (storeAfter s p).TwoGenerations := by
  intro f
  obtain ⟨logs, hlog, hplans⟩ := runFrontPlans_issued pass.fails
    (planFrontWrites s.metas s.endpoints pass.desired pass.pruneAbsent pass.keepPrevious pass.order) s.metas
    pass.used pass.cap
  have hlog' : pass.log s = logs.flatten := hlog
  rw [hlog'] at hp hdel
  have hown : ∀ plan ∈ planFrontWrites s.metas s.endpoints pass.desired pass.pruneAbsent pass.keepPrevious
      pass.order, ∀ log, (log = [] ∨ IssuedBy false plan.steps log) → ∀ w ∈ log, w.1.front = plan.front := by
    rintro plan hplan log (rfl | hissued) w hw
    · cases hw
    · exact front_of_mem_steps hplan (hissued.mem_steps w hw)
  have hdel' : (FrontLog.of f logs.flatten).DeletesSucceed :=
    fun k ok hmem => hdel k ok (List.mem_filter.mp hmem).1
  have hofp := FrontLog.of_prefix (f := f) hp
  -- only the front's own writes matter to its rows
  rw [generations_congr (storeAfter_of f s p)]
  have hnil : FrontLog.of f logs.flatten = [] → ((storeAfter s (FrontLog.of f p)).generations f).card ≤ 2 := by
    intro hnil
    rw [hnil, List.prefix_nil] at hofp
    rw [hofp]
    exact hs f
  rcases flatten_of hplans.issued hown (nodup_planFrontWrites pass.order) f with
    ⟨_, hempty⟩ | ⟨plan, hplan, rfl, hempty | hissued⟩
  · exact hnil hempty
  · exact hnil hempty
  · rw [(mem_planFrontWrites.mp hplan).2.1] at hissued
    rcases generations_planFrontSteps hissued hdel' hofp with hsub | ⟨g, hsub⟩
    · exact (Finset.card_le_card hsub).trans (hs plan.front)
    · exact (Finset.card_le_card hsub).trans Finset.card_le_two

/-- **At most two generations of a front.** From maps in which every front's rows are of at most two
    generations, in every run of passes none of whose endpoint deletes fails, they are so after every single
    write of every pass: whatever is desired, pruned, kept or refused, and whichever other write fails. -/
theorem frontPass_two_generations {s : FrontStore} {passes : List FrontPassInput} (hs : s.TwoGenerations)
    (hdel : Along FrontStore.pass (fun s pass => (pass.log s).DeletesSucceed) s passes) :
    Along FrontStore.pass (fun s pass => ∀ p, p <+: pass.log s → (storeAfter s p).TwoGenerations) s passes := by
  have hkeep : ∀ (s : FrontStore) (pass : FrontPassInput), s.TwoGenerations → (pass.log s).DeletesSucceed →
      (s.pass pass).TwoGenerations := by
    intro s pass hs hdel
    exact twoGenerations_prefix hs hdel (List.prefix_refl (pass.log s))
  refine hdel.strengthen hkeep ?_ hs
  intro s pass hs hdel p hp
  exact twoGenerations_prefix hs hdel hp

/-- A front at the last generation before the wrap, with a row of the one before. -/
def wrapStore : FrontStore where
  metas := AList.insert sampleFront
    { generation := 0xffffffff, count := 1, flags := 0, localCount := 0, pad := 0 } ∅
  endpoints := AList.insert (endpointKey sampleFront 0xffffffff 0) (sampleEndpoint 8080)
    (AList.insert (endpointKey sampleFront 0xfffffffe 0) (sampleEndpoint 8079) ∅)

/-- A swap to two endpoints; `fails` says which write fails, by its position. -/
def wrapPass (failing : Nat) : FrontPassInput where
  fails log _ := if log.length = failing then some (.other "") else none
  order := .asStored
  desired := sampleDesired
  pruneAbsent := true
  keepPrevious := ∅
  used := {}
  cap := ⟨10, 10⟩

theorem deletesSucceed_of_all {log : FrontLog}
    (h : (log.all fun w => w.2 || !(w.1 matches .deleteEndpoint _)) = true) : log.DeletesSucceed := by
  intro k ok hmem
  simpa using List.all_eq_true.mp h _ hmem

/-- The swap is cut short by its second put, done again, and leads over the wrap. -/
theorem frontPass_two_generations_wrap :
    wrapStore.TwoGenerations ∧
      Along FrontStore.pass (fun s pass => (pass.log s).DeletesSucceed) wrapStore [wrapPass 2, wrapPass 9] ∧
      (wrapStore.generations sampleFront).card = 2 ∧
      (((wrapStore.pass (wrapPass 2)).pass (wrapPass 9)).generations sampleFront).card ≤ 2 := by
  have hstart : wrapStore.TwoGenerations := by
    intro f
    refine (Finset.card_le_card (t := {0xffffffff, 0xfffffffe}) fun g hg => ?_).trans Finset.card_le_two
    obtain ⟨k, v, _, hv, rfl⟩ := FrontStore.mem_generations.mp hg
    simp only [wrapStore, Table.lookup_insert_ite] at hv
    split at hv
    · rename_i hk
      rw [hk]
      exact Finset.mem_insert_self ..
    · split at hv
      · rename_i hk
        rw [hk]
        exact Finset.mem_insert_of_mem (Finset.mem_singleton_self _)
      · cases hv
  have hdel : Along FrontStore.pass (fun s pass => (pass.log s).DeletesSucceed) wrapStore
      [wrapPass 2, wrapPass 9] :=
    ⟨deletesSucceed_of_all (by decide), deletesSucceed_of_all (by decide), trivial⟩
  have hall := frontPass_two_generations hstart hdel
  exact ⟨hstart, hdel, by decide, hall.2.1 _ List.prefix_rfl sampleFront⟩

end Beep
