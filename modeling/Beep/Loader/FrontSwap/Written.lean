import Beep.Loader.FrontSwap.Converge

/-!
# `Loader.FrontSwap.Written` — what the maps hold of a front that was written

A pass without a failure for a front leaves its meta row and under the live generation the row of every slot
(`written_front`), and whatever later passes for the same endpoints do, fail at or are stopped in, both stay
(`kept_front`). The slots are counted in 16 bits: of more than 65536 endpoints those that share a slot overwrite each
other, in the order in which they are written (`DesiredFront.row`).
-/

namespace Beep

/-- The row a slot is left with once all endpoints were written. -/
def DesiredFront.row (want : DesiredFront) (slot : UInt16) : Option FrontEndpoint :=
  Table.lastValue (want.endpoints.zipIdx.map fun e => (UInt16.ofNat e.2, e.1)) slot

/-- The endpoint rows of a generation are those of the wanted endpoints. -/
def HoldsRows (endpoints : Table FrontEndpointKey FrontEndpoint) (f : LbFrontKey) (generation : UInt32)
    (want : DesiredFront) : Prop :=
  ∀ slot e, want.row slot = some e → endpoints.lookup { front := f, generation, slot, pad := 0 } = some e

/-- A front is served as wanted. -/
structure Serves (s : FrontStore) (f : LbFrontKey) (want : DesiredFront) (m : FrontMeta) : Prop where
  live : s.metas.lookup f = some m
  count : m.count = want.count
  flags : m.flags = want.flags
  localCount : m.localCount = want.localCount
  rows : HoldsRows s.endpoints f m.generation want

section
variable {s t : FrontStore} {f : LbFrontKey} {want : DesiredFront} {m : FrontMeta}

/-- Every slot that is counted has a row. -/
theorem DesiredFront.row_isSome {slot : UInt16} (h : slot < want.count) : ∃ e, want.row slot = some e := by
  rw [← Option.ne_none_iff_exists']
  intro hnone
  have hlt : slot.toNat < want.endpoints.length := by
    have hcount : slot.toNat < want.endpoints.length % 65536 := by
      rw [← UInt16.toNat_ofNat']
      exact h
    exact lt_of_lt_of_le hcount (Nat.mod_le _ _)
  refine Table.lastValue_eq_none.mp hnone (UInt16.ofNat slot.toNat, want.endpoints[slot.toNat]) ?_ (by simp)
  refine List.mem_map.mpr ⟨(want.endpoints[slot.toNat], slot.toNat), ?_, rfl⟩
  exact List.mk_mem_zipIdx_iff_getElem?.mpr (List.getElem?_eq_getElem hlt)

theorem HoldsSlots.holdsRows {endpoints : Table FrontEndpointKey FrontEndpoint} {generation : UInt32}
    (h : HoldsSlots endpoints f generation want) : HoldsRows endpoints f generation want := by
  intro slot e he
  obtain ⟨⟨e', i⟩, hmem, heq⟩ := List.mem_map.mp (Table.mem_of_lastValue he)
  obtain ⟨rfl, rfl⟩ := Prod.mk.inj heq
  obtain ⟨hi, rfl⟩ := List.getElem?_eq_some_iff.mp (List.mk_mem_zipIdx_iff_getElem?.mp hmem)
  exact h i hi

/-- Where the endpoints fit into the slots, each has its own row. -/
theorem HoldsRows.holdsSlots {endpoints : Table FrontEndpointKey FrontEndpoint} {generation : UInt32}
    (hlen : want.endpoints.length ≤ 65535) (h : HoldsRows endpoints f generation want) :
    HoldsSlots endpoints f generation want := by
  intro i hi
  refine h (UInt16.ofNat i) _ (Table.lastValue_eq_some ?_ fun e he => ?_)
  · refine List.mem_map.mpr ⟨(want.endpoints[i], i), ?_, rfl⟩
    exact List.mk_mem_zipIdx_iff_getElem?.mpr (List.getElem?_eq_getElem hi)
  · obtain ⟨⟨e', j⟩, hmem, heq⟩ := List.mem_map.mp he
    obtain ⟨hslot, rfl⟩ := Prod.mk.inj heq
    obtain ⟨hj, rfl⟩ := List.getElem?_eq_some_iff.mp (List.mk_mem_zipIdx_iff_getElem?.mp hmem)
    have hsame : j = i := by
      have hnat := congrArg UInt16.toNat hslot
      rwa [UInt16.toNat_ofNat', UInt16.toNat_ofNat', Nat.mod_eq_of_lt (by omega), Nat.mod_eq_of_lt (by omega)] at hnat
    subst hsame
    rfl

/-- So a reader finds the front as wanted. -/
theorem Serves.view (hlen : want.endpoints.length ≤ 65535) (h : Serves s f want m) : s.view f = some want.view :=
  view_of_holdsSlots hlen h.live h.count h.flags h.localCount (h.rows.holdsSlots hlen)

theorem Serves.congr (h : SameFront f s t) (ht : Serves t f want m) : Serves s f want m :=
  ⟨h.1.trans ht.live, ht.count, ht.flags, ht.localCount, fun slot e he => (h.2 _ rfl).trans (ht.rows slot e he)⟩

/-! ## Writing a generation -/

/-- The last of the writes to a slot stays. -/
theorem lookup_putLog_last (f : LbFrontKey) (g : UInt32) (l : List FrontEndpoint) (s : FrontStore) (slot : UInt16) :
    (storeAfter s (putLog f g l 0)).endpoints.lookup { front := f, generation := g, slot, pad := 0 } =
      (Table.lastValue (l.zipIdx.map fun e => (UInt16.ofNat e.2, e.1)) slot).or
        (s.endpoints.lookup { front := f, generation := g, slot, pad := 0 }) := by
  have hfold : ∀ (l : List (FrontEndpoint × Nat)) (s : FrontStore),
      (storeAfter s (l.map fun e => (.putEndpoint (endpointKey f g e.2) e.1, true))).endpoints =
        (l.map fun e => (endpointKey f g e.2, e.1)).foldl (fun t e => t.insert e.1 e.2) s.endpoints := by
    intro l
    induction l with
    | nil => exact fun _ => rfl
    | cons e l ih => exact fun s => ih (s.apply (.putEndpoint (endpointKey f g e.2) e.1))
  have hslot : ∀ l : List (FrontEndpoint × Nat),
      Table.lastValue (l.map fun e => (endpointKey f g e.2, e.1)) { front := f, generation := g, slot, pad := 0 } =
        Table.lastValue (l.map fun e => (UInt16.ofNat e.2, e.1)) slot := by
    intro l
    unfold Table.lastValue
    rw [List.filter_map, List.filter_map, List.getLast?_map, List.getLast?_map, Option.map_map, Option.map_map]
    have hkeys : ∀ e : FrontEndpoint × Nat, (endpointKey f g e.2 = { front := f, generation := g, slot, pad := 0 }) ↔
        UInt16.ofNat e.2 = slot := by
      intro e
      simp [endpointKey]
    simp only [Function.comp_def, hkeys]
  rw [putLog, hfold, Table.lookup_foldl_insert, hslot]

/-- Once all its endpoint writes succeeded, the next generation has its rows. -/
theorem holdsRows_swapQuiet {existing : List FrontEndpointKey} {live : Option FrontMeta} {before : FrontLog}
    (hbefore : before.map Prod.fst = swapQuiet existing f want live)
    (hok : ∀ w ∈ before, w.1.isPutEndpoint = true → w.2 = true) (s : FrontStore) :
    HoldsRows (storeAfter s before).endpoints f (nextGeneration live) want := by
  obtain ⟨dels, rfl⟩ := swapQuiet_log hbefore hok
  intro slot e he
  rw [storeAfter_append, lookup_putLog_last]
  exact (congrArg (Option.or · _) he).trans rfl

/-- A commit over the rows of the wanted endpoints serves them. -/
theorem serves_commit {before : FrontLog} (hrows : HoldsRows (storeAfter s before).endpoints f m.generation want)
    (hc : m.count = want.count) (hfl : m.flags = want.flags) (hlc : m.localCount = want.localCount) :
    Serves (storeAfter s (before ++ [(.putMeta f m, true)])) f want m := by
  rw [storeAfter_append]
  exact ⟨AList.lookup_insert _, hc, hfl, hlc, hrows⟩

/-- Quiet writes leave a front served. -/
theorem Serves.quiet {log : FrontLog} (h : Serves s f want m) (hq : ∀ w ∈ log, QuietFor (some m.generation) w.1) :
    Serves (storeAfter s log) f want m := by
  obtain ⟨hmetas, hkept⟩ := quiet_frame hq s
  refine ⟨?_, h.count, h.flags, h.localCount, fun slot e he => ?_⟩
  · rw [hmetas]
    exact h.live
  · rw [hkept _ rfl]
    exact h.rows slot e he

/-- Quiet steps and a commit behind them, stopped anywhere: only quiet writes had an effect, or all was written. -/
theorem IssuedBy.commit_cases {live : Option UInt32} {quiet : List FrontWrite} {log p : FrontLog}
    (h : IssuedBy false (quiet ++ [.putMeta f m]) log) (hq : ∀ w ∈ quiet, QuietFor live w) (hp : p <+: log) :
    (∃ q, (∀ w ∈ q, QuietFor live w.1) ∧ ∀ s, storeAfter s p = storeAfter s q) ∨
      ∃ before, p = before ++ [(.putMeta f m, true)] ∧ before.map Prod.fst = quiet ∧
        ∀ w ∈ before, w.1.isPutEndpoint = true → w.2 = true := by
  obtain ⟨before, after, blocked, rfl, hbefore, hafter, hok⟩ := h.split_quiet fun w hw => (hq w hw).not_meta
  have hquiet : ∀ w ∈ before, QuietFor live w.1 := by
    intro w hw
    have hmem : w.1 ∈ before.map Prod.fst := List.mem_map_of_mem hw
    rw [hbefore] at hmem
    exact hq w.1 hmem
  rcases List.prefix_or_prefix_of_prefix hp (List.prefix_append before after) with hp | ⟨p, rfl⟩
  · exact Or.inl ⟨p, fun w hw => hquiet w (hp.subset hw), fun _ => rfl⟩
  · rw [List.prefix_append_right_inj] at hp
    have hnothing : p = [] → (∃ q, (∀ w ∈ q, QuietFor live w.1) ∧ ∀ s, storeAfter s (before ++ p) = storeAfter s q) := by
      rintro rfl
      exact ⟨before, hquiet, fun s => by rw [List.append_nil]⟩
    cases hafter with
    | skipped _ hnil =>
      obtain rfl := hnil.eq_nil
      exact Or.inl (hnothing (List.prefix_nil.mp hp))
    | done hw hnil =>
      obtain rfl := hnil.eq_nil
      rcases List.prefix_cons_iff.mp hp with rfl | ⟨p', rfl, hp'⟩
      · exact Or.inl (hnothing rfl)
      · obtain rfl := List.prefix_nil.mp hp'
        have hb : blocked = false := by simpa [FrontWrite.isPutMeta] using hw
        exact Or.inr ⟨before, rfl, hbefore, (hok hb).2⟩
    | failed _ _ hnil =>
      obtain rfl := hnil.eq_nil
      rcases List.prefix_cons_iff.mp hp with rfl | ⟨p', rfl, hp'⟩
      · exact Or.inl (hnothing rfl)
      · obtain rfl := List.prefix_nil.mp hp'
        refine Or.inl ⟨before, hquiet, fun s => ?_⟩
        rw [storeAfter_append]
        rfl
    | stopped hd => cases hd

/-! ## A pass -/

variable {existing : List FrontEndpointKey} {log p : FrontLog}

/-- A swap, stopped anywhere, leaves a front served that was. -/
theorem Serves.swap (h : Serves s f want m) (hlog : IssuedBy false (swapSteps existing f want (s.metas.lookup f)) log)
    (hp : p <+: log) : ∃ m, Serves (storeAfter s p) f want m := by
  have hsteps : swapSteps existing f want (s.metas.lookup f) = swapQuiet existing f want (s.metas.lookup f)
      ++ [.putMeta f (want.committed (nextGeneration (s.metas.lookup f)))] := rfl
  rw [hsteps] at hlog
  rcases hlog.commit_cases (fun w hw => quietFor_of_mem_swapQuiet hw) hp with ⟨q, hq, heq⟩ | ⟨before, rfl, hbefore, hok⟩
  · rw [h.live] at hq
    rw [heq]
    exact ⟨m, h.quiet hq⟩
  · exact ⟨_, serves_commit (holdsRows_swapQuiet hbefore hok s) rfl rfl rfl⟩

/-- So does a refresh. -/
theorem Serves.refresh {kept : Bool} (h : Serves s f want m)
    (hlog : IssuedBy false (refreshSteps existing f want m kept) log)
    (hp : p <+: log) : Serves (storeAfter s p) f want m := by
  have hflags : ¬ (m.flags != want.flags) = true := by
    rw [h.flags]
    exact fun hne => bne_iff_ne.mp hne rfl
  rw [refreshSteps, if_neg hflags, List.append_nil] at hlog
  refine h.quiet fun w hw => ?_
  obtain ⟨k, hk, hwk⟩ := List.mem_map.mp (hlog.mem_steps w (hp.subset hw))
  rw [← hwk]
  exact fun he => bne_iff_ne.mp (Bool.and_eq_true_iff.mp (List.mem_filter.mp hk).2).1 (Option.some_inj.mp he)

variable {fails : FrontLog → FrontWrite → Option MapError} {order : IterationOrder LbFrontKey}
  {desired : Table LbFrontKey DesiredFront} {pruneAbsent : Bool} {keepPrevious : Finset LbFrontKey}
  {used : FrontUsage} {cap : FrontCapacity}

/-- **A front that is served stays so**, whatever fails in a pass for the same endpoints and wherever it stops. -/
theorem Serves.frontPass (h : Serves s f want m) (hd : desired.lookup f = some want)
    (hp : p <+: (frontPass fails order s desired pruneAbsent keepPrevious used cap).1) :
    ∃ m, Serves (storeAfter s p) f want m := by
  obtain ⟨logs, hlog, hplans⟩ := runFrontPlans_issued fails
    (planFrontWrites s.metas s.endpoints desired pruneAbsent keepPrevious order) s.metas used cap
  unfold Beep.frontPass at hp
  rw [hlog] at hp
  have hown : ∀ plan ∈ planFrontWrites s.metas s.endpoints desired pruneAbsent keepPrevious order,
      ∀ log, (log = [] ∨ IssuedBy false plan.steps log) → ∀ w ∈ log, w.1.front = plan.front := by
    rintro plan hplan log (rfl | hissued) w hw
    · cases hw
    · exact front_of_mem_steps hplan (hissued.mem_steps w hw)
  suffices hof : ∃ m, Serves (storeAfter s (FrontLog.of f p)) f want m from
    hof.imp fun _ hm => hm.congr (storeAfter_of f s p)
  have hpre := FrontLog.of_prefix (f := f) hp
  have hnothing : FrontLog.of f logs.flatten = [] → ∃ m, Serves (storeAfter s (FrontLog.of f p)) f want m := by
    intro hnil
    rw [hnil, List.prefix_nil] at hpre
    rw [hpre]
    exact ⟨m, h⟩
  rcases flatten_of hplans.issued hown (nodup_planFrontWrites order) f with
    ⟨_, hnil⟩ | ⟨plan, hplan, rfl, hnil | hissued⟩
  · exact hnothing hnil
  · exact hnothing hnil
  · rw [(mem_planFrontWrites.mp hplan).2.1, planFrontSteps] at hissued
    simp only [hd] at hissued
    cases hu : unchangedMeta s.endpoints plan.front want (s.metas.lookup plan.front) with
    | some m' =>
      rw [hu] at hissued
      obtain rfl : m = m' := Option.some_inj.mp (h.live.symm.trans (unchangedMeta_eq_some.mp hu).1)
      exact ⟨m, h.refresh hissued hpre⟩
    | none =>
      rw [hu] at hissued
      exact h.swap hissued hpre

/-- **A front is served** after a pass that reports no failure of it. -/
theorem serves_of_reported (hd : desired.lookup f = some want)
    (hreport : ∀ e ∈ (frontPass fails order s desired pruneAbsent keepPrevious used cap).2.failures, e.1 ≠ f) :
    ∃ m, Serves (storeAfter s (frontPass fails order s desired pruneAbsent keepPrevious used cap).1) f want m := by
  suffices hwhole : ∃ m, Serves (runWhole s (planFrontSteps s.metas s.endpoints desired pruneAbsent keepPrevious f)) f
      want m from hwhole.imp fun _ hm => hm.congr (sameFront_reported f hreport)
  unfold planFrontSteps
  simp only [hd]
  cases hu : unchangedMeta s.endpoints f want (s.metas.lookup f) with
  | some m =>
    obtain ⟨hlive, hc, hfl, hlc, hslots⟩ := (runWhole_refreshSteps (decide (f ∈ keepPrevious)) hu).1
    exact ⟨_, hlive, hc, hfl, hlc, hslots.holdsRows⟩
  | none =>
    let quiet := swapQuiet (endpointsOf s.endpoints f) f want (s.metas.lookup f)
    have hlog : runWhole s (swapSteps (endpointsOf s.endpoints f) f want (s.metas.lookup f)) =
        storeAfter s (quiet.map (fun w => (w, true)) ++
          [(.putMeta f (want.committed (nextGeneration (s.metas.lookup f))), true)]) := by
      show storeAfter s ((quiet ++ _).map _) = _
      rw [List.map_append]
      rfl
    rw [hlog]
    have hall : (quiet.map fun w => (w, true)).map Prod.fst = quiet := by
      rw [List.map_map, Function.comp_def, List.map_id']
    refine ⟨_, serves_commit (holdsRows_swapQuiet hall ?_ s) rfl rfl rfl⟩
    intro w hw _
    obtain ⟨_, _, rfl⟩ := List.mem_map.mp hw
    rfl

end

/-- Passes over the two maps, all for the same endpoints of a front: one of them reported no failure of it, and the ones
    after that may fail at anything and be stopped anywhere. -/
inductive WrittenFrom (f : LbFrontKey) (want : DesiredFront) : FrontStore → Prop
  | written {s : FrontStore} {fails : FrontLog → FrontWrite → Option MapError} {order : IterationOrder LbFrontKey}
      {desired : Table LbFrontKey DesiredFront} {pruneAbsent : Bool} {keepPrevious : Finset LbFrontKey}
      {used : FrontUsage} {cap : FrontCapacity} (hd : desired.lookup f = some want)
      (hreport : ∀ e ∈ (frontPass fails order s desired pruneAbsent keepPrevious used cap).2.failures, e.1 ≠ f) :
      WrittenFrom f want (storeAfter s (frontPass fails order s desired pruneAbsent keepPrevious used cap).1)
  | again {s : FrontStore} {fails : FrontLog → FrontWrite → Option MapError} {order : IterationOrder LbFrontKey}
      {desired : Table LbFrontKey DesiredFront} {pruneAbsent : Bool} {keepPrevious : Finset LbFrontKey}
      {used : FrontUsage} {cap : FrontCapacity} {p : FrontLog} (h : WrittenFrom f want s)
      (hd : desired.lookup f = some want)
      (hp : p <+: (frontPass fails order s desired pruneAbsent keepPrevious used cap).1) :
      WrittenFrom f want (storeAfter s p)

theorem WrittenFrom.serves {f : LbFrontKey} {want : DesiredFront} {s : FrontStore} (h : WrittenFrom f want s) :
    ∃ m, Serves s f want m := by
  induction h with
  | written hd hreport => exact serves_of_reported hd hreport
  | again _ hd hp ih =>
    obtain ⟨m, hm⟩ := ih
    exact hm.frontPass hd hp

end Beep
