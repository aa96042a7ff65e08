import Beep.Loader.FrontSwap.Execute

/-!
# `Loader.FrontSwap.Issued` — what a pass issues, front by front

The executor is summed up once, as a relation between the steps of a plan and the log it leaves
(`IssuedBy`): whatever fails, the meta write comes only after every endpoint write succeeded, and nothing
follows a meta delete that failed. A pass concatenates the logs of its plans (`frontPass_issued`).

Every plan writes rows of its own front only, so for one front the log of the pass can be replaced by the
log of that front's plan (`storeAfter_filter`, `issued_filter`). The consistency and convergence results
are then about one plan.
-/

namespace Beep

/-- The log that the steps of one plan leave, `blocked` saying whether the commit is blocked. -/
inductive IssuedBy : Bool → List FrontWrite → FrontLog → Prop
  | nil {blocked : Bool} : IssuedBy blocked [] []
  | skipped {w : FrontWrite} {rest : List FrontWrite} {log : FrontLog} (hw : w.isPutMeta = true)
      (h : IssuedBy true rest log) : IssuedBy true (w :: rest) log
  | done {blocked : Bool} {w : FrontWrite} {rest : List FrontWrite} {log : FrontLog}
      (hw : (blocked && w.isPutMeta) = false) (h : IssuedBy blocked rest log) :
      IssuedBy blocked (w :: rest) ((w, true) :: log)
  | failed {blocked : Bool} {w : FrontWrite} {rest : List FrontWrite} {log : FrontLog}
      (hw : (blocked && w.isPutMeta) = false) (hd : w.isDeleteMeta = false)
      (h : IssuedBy (blocked || w.isPutEndpoint) rest log) :
      IssuedBy blocked (w :: rest) ((w, false) :: log)
  | stopped {blocked : Bool} {w : FrontWrite} {rest : List FrontWrite} (hd : w.isDeleteMeta = true) :
      IssuedBy blocked (w :: rest) [(w, false)]

namespace IssuedBy

/-- Only steps of the plan are issued. -/
theorem mem_steps {blocked : Bool} {steps : List FrontWrite} {log : FrontLog}
    (h : IssuedBy blocked steps log) : ∀ w ∈ log, w.1 ∈ steps := by
  induction h with
  | nil => exact fun w hw => absurd hw List.not_mem_nil
  | skipped _ _ ih => exact fun w hw => List.mem_cons_of_mem _ (ih w hw)
  | done _ _ ih | failed _ _ _ ih =>
    intro w hw
    rcases List.mem_cons.mp hw with rfl | hw
    · exact List.mem_cons_self
    · exact List.mem_cons_of_mem _ (ih w hw)
  | stopped _ =>
    intro w hw
    rw [List.mem_singleton.mp hw]
    exact List.mem_cons_self

theorem eq_nil {blocked : Bool} {log : FrontLog} (h : IssuedBy blocked [] log) : log = [] := by
  cases h
  rfl

/-- A log without a failure is the whole plan. -/
theorem eq_map_of_all_ok {steps : List FrontWrite} {log : FrontLog} (h : IssuedBy false steps log)
    (hok : ∀ w ∈ log, w.2 = true) : log = steps.map fun w => (w, true) := by
  generalize hb : false = blocked at h
  induction h with
  | nil => rfl
  | skipped => cases hb
  | done _ _ ih =>
    rw [List.map_cons, ih (fun w hw => hok w (List.mem_cons_of_mem _ hw)) hb]
  | failed => exact absurd (hok _ List.mem_cons_self) Bool.false_ne_true
  | stopped => exact absurd (hok _ List.mem_cons_self) Bool.false_ne_true

/-- Endpoint writes and deletes are all issued, whatever fails; the rest of the plan then runs unblocked
    only if every endpoint write among them succeeded. -/
theorem split_quiet {blocked : Bool} {quiet rest : List FrontWrite} {log : FrontLog}
    (h : IssuedBy blocked (quiet ++ rest) log)
    (hq : ∀ w ∈ quiet, w.isPutMeta = false ∧ w.isDeleteMeta = false) :
    ∃ before after blocked', log = before ++ after ∧ before.map Prod.fst = quiet ∧
      IssuedBy blocked' rest after ∧
      (blocked' = false → blocked = false ∧ ∀ w ∈ before, w.1.isPutEndpoint = true → w.2 = true) := by
  induction quiet generalizing blocked log with
  | nil => exact ⟨[], log, blocked, rfl, rfl, h, fun hb => ⟨hb, fun w hw => absurd hw List.not_mem_nil⟩⟩
  | cons q quiet ih =>
    have hq' : ∀ w ∈ quiet, w.isPutMeta = false ∧ w.isDeleteMeta = false :=
      fun w hw => hq w (List.mem_cons_of_mem _ hw)
    obtain ⟨hqm, hqd⟩ := hq q List.mem_cons_self
    cases h with
    | skipped hw _ => rw [hqm] at hw; cases hw
    | stopped hd => rw [hqd] at hd; cases hd
    | done _ h =>
      obtain ⟨before, after, b, rfl, hbefore, hrest, hb⟩ := ih h hq'
      refine ⟨(q, true) :: before, after, b, rfl, by rw [List.map_cons, hbefore], hrest, fun hf => ?_⟩
      refine ⟨(hb hf).1, fun w hw hput => ?_⟩
      rcases List.mem_cons.mp hw with rfl | hw
      · rfl
      · exact (hb hf).2 w hw hput
    | failed _ _ h =>
      obtain ⟨before, after, b, rfl, hbefore, hrest, hb⟩ := ih h hq'
      refine ⟨(q, false) :: before, after, b, rfl, by rw [List.map_cons, hbefore], hrest, fun hf => ?_⟩
      obtain ⟨hor, hall⟩ := hb hf
      obtain ⟨hblocked, hqe⟩ := Bool.or_eq_false_iff.mp hor
      refine ⟨hblocked, fun w hw hput => ?_⟩
      rcases List.mem_cons.mp hw with rfl | hw
      · rw [hqe] at hput; cases hput
      · exact hall w hw hput

end IssuedBy

/-! ## The executor leaves such logs -/

section
variable (fails : FrontLog → FrontWrite → Option MapError)

/-- The log, the report and the commit flag of one plan. -/
theorem runSteps_issuedBy (live : Option FrontMeta) (steps : List FrontWrite) (blocked : Bool)
    (st : FrontLog × FrontUsage × Bool) :
    ∃ log, (runSteps (trackedWrite (issueWrite fails) live) blocked st steps).1.1 = st.1 ++ log ∧
      IssuedBy blocked steps log ∧
      ((runSteps (trackedWrite (issueWrite fails) live) blocked st steps).2 = [] →
        ∀ w ∈ log, w.2 = true) ∧
      ((runSteps (trackedWrite (issueWrite fails) live) blocked st steps).1.2.2 = true →
        st.2.2 = true ∨ ∃ w ∈ steps, w.commits live = true) := by
  induction steps generalizing blocked st with
  | nil => exact ⟨[], (List.append_nil _).symm, .nil, fun _ w hw => absurd hw List.not_mem_nil, Or.inl⟩
  | cons step rest ih =>
    unfold runSteps
    by_cases hskip : (blocked && step.isPutMeta) = true
    · obtain ⟨hb, hmeta⟩ := Bool.and_eq_true_iff.mp hskip
      subst hb
      obtain ⟨log, hlog, hissued, hok, hcommit⟩ := ih true st
      rw [if_pos hskip]
      refine ⟨log, hlog, .skipped hmeta hissued, hok, fun hc => (hcommit hc).imp_right ?_⟩
      exact fun ⟨w, hw, hwc⟩ => ⟨w, List.mem_cons_of_mem _ hw, hwc⟩
    · rw [if_neg hskip]
      have hskip' : (blocked && step.isPutMeta) = false := Bool.eq_false_iff.mpr hskip
      cases hf : fails st.1 step with
      | none =>
        have hwrite : trackedWrite (issueWrite fails) live st step = ((st.1 ++ [(step, true)],
            st.2.1.apply step live.isSome, st.2.2 || step.commits live), .ok ()) := by
          simp only [trackedWrite, issueWrite, hf]
        obtain ⟨log, hlog, hissued, hok, hcommit⟩ := ih blocked (st.1 ++ [(step, true)],
          st.2.1.apply step live.isSome, st.2.2 || step.commits live)
        rw [hwrite]
        refine ⟨(step, true) :: log, by rw [hlog, List.append_assoc]; rfl, .done hskip' hissued, ?_, ?_⟩
        · intro hnil w hw
          rcases List.mem_cons.mp hw with rfl | hw
          · rfl
          · exact hok hnil w hw
        · intro hc
          rcases hcommit hc with hor | ⟨w, hw, hwc⟩
          · rcases Bool.or_eq_true_iff.mp hor with h | h
            · exact Or.inl h
            · exact Or.inr ⟨step, List.mem_cons_self, h⟩
          · exact Or.inr ⟨w, List.mem_cons_of_mem _ hw, hwc⟩
      | some e =>
        have hwrite : trackedWrite (issueWrite fails) live st step =
            ((st.1 ++ [(step, false)], st.2.1, st.2.2), .error e) := by
          simp only [trackedWrite, issueWrite, hf]
        rw [hwrite]
        by_cases hd : step.isDeleteMeta = true
        · simp only [if_pos hd]
          exact ⟨[(step, false)], rfl, .stopped hd, fun h => absurd h (List.cons_ne_nil _ _), Or.inl⟩
        · simp only [if_neg hd]
          obtain ⟨log, hlog, hissued, _, hcommit⟩ := ih (blocked || step.isPutEndpoint)
            (st.1 ++ [(step, false)], st.2.1, st.2.2)
          refine ⟨(step, false) :: log, by rw [hlog, List.append_assoc]; rfl,
            .failed hskip' (Bool.eq_false_iff.mpr hd) hissued,
            fun h => absurd h (List.cons_ne_nil _ _), fun hc => ?_⟩
          exact (hcommit hc).imp_right fun ⟨w, hw, hwc⟩ => ⟨w, List.mem_cons_of_mem _ hw, hwc⟩

/-- The logs of the plans of a pass, and what its report says about them. -/
structure PlanLogs (currentMeta : Table LbFrontKey FrontMeta) (plans : List FrontPlan)
    (logs : List FrontLog) (clean : Prop) (swapped : List LbFrontKey) : Prop where
  issued : List.Forall₂ (fun p log => log = [] ∨ IssuedBy false p.steps log) plans logs
  clean_whole : clean → List.Forall₂ (fun p log => log = p.steps.map fun w => (w, true)) plans logs
  swapped_commits : ∀ f ∈ swapped, ∃ p ∈ plans, p.front = f ∧
    ∃ w ∈ p.steps, w.commits (currentMeta.lookup f) = true

/-- One plan of the pass: it leaves a log of its own, and it is refused or reports its failures. -/
theorem runOnePlan_issued (currentMeta : Table LbFrontKey FrontMeta) (cap : FrontCapacity)
    (st : FrontLog × FrontUsage × FrontApply) (plan : FrontPlan) :
    ∃ log, (runOnePlan (issueWrite fails) currentMeta cap st plan).1 = st.1 ++ log ∧
      (log = [] ∨ IssuedBy false plan.steps log) ∧
      (∃ own, (runOnePlan (issueWrite fails) currentMeta cap st plan).2.2.failures = st.2.2.failures ++ own ∧
        (∀ e ∈ own, e.1 = plan.front) ∧ (own = [] → log = plan.steps.map fun w => (w, true))) ∧
      (∀ f ∈ (runOnePlan (issueWrite fails) currentMeta cap st plan).2.2.swapped,
        f ∈ st.2.2.swapped ∨ plan.front = f ∧
          ∃ w ∈ plan.steps, w.commits (currentMeta.lookup f) = true) := by
  obtain ⟨log₀, used, applied⟩ := st
  simp only [runOnePlan]
  cases hcap : capacityShortfall plan (currentMeta.lookup plan.front).isSome used cap with
  | some refused =>
    refine ⟨[], (List.append_nil _).symm, Or.inl rfl, ⟨[(plan.front, refused)], rfl, ?_, ?_⟩, fun f hf => Or.inl hf⟩
    · intro e he
      rw [List.mem_singleton.mp he]
    · exact fun h => absurd h (List.cons_ne_nil _ _)
  | none =>
    obtain ⟨log, hlog, hissued, hok, hcommit⟩ :=
      runSteps_issuedBy fails (currentMeta.lookup plan.front) plan.steps false (log₀, used, false)
    refine ⟨log, hlog, Or.inr hissued, ⟨_, rfl, ?_, fun h => ?_⟩, fun f hf => ?_⟩
    · intro e he
      obtain ⟨_, _, rfl⟩ := List.mem_map.mp he
      rfl
    · exact hissued.eq_map_of_all_ok (hok (List.map_eq_nil_iff.mp h))
    · simp only at hf
      split at hf
      · rename_i hcommitted
        rcases List.mem_append.mp hf with hf | hf
        · exact Or.inl hf
        · obtain rfl := List.mem_singleton.mp hf
          exact Or.inr ⟨rfl, (hcommit hcommitted).resolve_left Bool.false_ne_true⟩
      · exact Or.inl hf

/-- The log of a plan, where the given failures are reported: it is all of the plan if none of them is the plan's. -/
def ReportedBy (failures : List (LbFrontKey × FrontFailure)) (p : FrontPlan) (log : FrontLog) : Prop :=
  (log = [] ∨ IssuedBy false p.steps log) ∧
    ((∀ e ∈ failures, e.1 ≠ p.front) → log = p.steps.map fun w => (w, true))

/-- The plans of the pass, from any point of it. -/
theorem runOnePlan_foldl_issued (currentMeta : Table LbFrontKey FrontMeta) (cap : FrontCapacity)
    (plans : List FrontPlan) (st : FrontLog × FrontUsage × FrontApply) :
    ∃ logs : List FrontLog,
      (plans.foldl (runOnePlan (issueWrite fails) currentMeta cap) st).1 = st.1 ++ logs.flatten ∧
      (∃ own, (plans.foldl (runOnePlan (issueWrite fails) currentMeta cap) st).2.2.failures = st.2.2.failures ++ own ∧
        List.Forall₂ (ReportedBy own) plans logs) ∧
      (∀ f ∈ (plans.foldl (runOnePlan (issueWrite fails) currentMeta cap) st).2.2.swapped,
        f ∈ st.2.2.swapped ∨ ∃ p ∈ plans, p.front = f ∧
          ∃ w ∈ p.steps, w.commits (currentMeta.lookup f) = true) := by
  induction plans generalizing st with
  | nil =>
    exact ⟨[], (List.append_nil _).symm, ⟨[], (List.append_nil _).symm, .nil⟩, fun f hf => Or.inl hf⟩
  | cons plan plans ih =>
    obtain ⟨log, hlog, hissued, ⟨own, hown, hfront, hwhole⟩, hswapped⟩ := runOnePlan_issued fails currentMeta cap st plan
    obtain ⟨logs, hlogs, ⟨more, hmore, hplans⟩, hswapped'⟩ :=
      ih (runOnePlan (issueWrite fails) currentMeta cap st plan)
    refine ⟨log :: logs, ?_, ⟨own ++ more, ?_, .cons ⟨hissued, fun h => hwhole ?_⟩ ?_⟩, fun f hf => ?_⟩
    · rw [List.foldl_cons, hlogs, hlog, List.append_assoc, List.flatten_cons]
    · rw [List.foldl_cons, hmore, hown, List.append_assoc]
    · exact List.eq_nil_iff_forall_not_mem.mpr fun e he => h e (List.mem_append_left _ he) (hfront e he)
    · exact hplans.imp fun p log hp => ⟨hp.1, fun h => hp.2 fun e he => h e (List.mem_append_right _ he)⟩
    · rcases hswapped' f hf with hf' | ⟨p, hp, hrest⟩
      · rcases hswapped f hf' with h | h
        · exact Or.inl h
        · exact Or.inr ⟨plan, List.mem_cons_self, h⟩
      · exact Or.inr ⟨p, List.mem_cons_of_mem _ hp, hrest⟩

/-- **What a pass issues**, and which of its plans it reports to have failed. -/
theorem runFrontPlans_reported (plans : List FrontPlan) (currentMeta : Table LbFrontKey FrontMeta)
    (used : FrontUsage) (cap : FrontCapacity) :
    ∃ logs, (runFrontPlans (issueWrite fails) plans currentMeta used cap []).1 = logs.flatten ∧
      List.Forall₂ (ReportedBy (runFrontPlans (issueWrite fails) plans currentMeta used cap []).2.failures) plans logs ∧
      ∀ f ∈ (runFrontPlans (issueWrite fails) plans currentMeta used cap []).2.swapped, ∃ p ∈ plans, p.front = f ∧
        ∃ w ∈ p.steps, w.commits (currentMeta.lookup f) = true := by
  obtain ⟨logs, hlogs, ⟨own, hown, hplans⟩, hswapped⟩ :=
    runOnePlan_foldl_issued fails currentMeta cap plans ([], used, {})
  refine ⟨logs, hlogs, ?_, fun f hf => (hswapped f hf).resolve_left List.not_mem_nil⟩
  show List.Forall₂ (ReportedBy (plans.foldl (runOnePlan (issueWrite fails) currentMeta cap) ([], used, {})).2.2.failures)
    plans logs
  rw [hown]
  exact hplans

/-- **What a pass issues.** -/
theorem runFrontPlans_issued (plans : List FrontPlan) (currentMeta : Table LbFrontKey FrontMeta)
    (used : FrontUsage) (cap : FrontCapacity) :
    ∃ logs, (runFrontPlans (issueWrite fails) plans currentMeta used cap []).1 = logs.flatten ∧
      PlanLogs currentMeta plans logs
        ((runFrontPlans (issueWrite fails) plans currentMeta used cap []).2.failures = [])
        (runFrontPlans (issueWrite fails) plans currentMeta used cap []).2.swapped := by
  obtain ⟨logs, hlogs, hplans, hswapped⟩ := runFrontPlans_reported fails plans currentMeta used cap
  refine ⟨logs, hlogs, hplans.imp fun _ _ h => h.1, fun hclean => hplans.imp fun _ _ h => h.2 fun e he => ?_, hswapped⟩
  rw [hclean] at he
  exact absurd he List.not_mem_nil

end

/-! ## One front at a time -/

/-- Two stores that hold the same rows for a front. -/
def SameFront (f : LbFrontKey) (s t : FrontStore) : Prop :=
  s.metas.lookup f = t.metas.lookup f ∧
    ∀ k : FrontEndpointKey, k.front = f → s.endpoints.lookup k = t.endpoints.lookup k

@[simp] theorem storeAfter_nil (s : FrontStore) : storeAfter s [] = s := rfl

@[simp] theorem storeAfter_cons (s : FrontStore) (w : FrontWrite) (ok : Bool) (log : FrontLog) :
    storeAfter s ((w, ok) :: log) = storeAfter (if ok then s.apply w else s) log := rfl

theorem storeAfter_append (s : FrontStore) (log log' : FrontLog) :
    storeAfter s (log ++ log') = storeAfter (storeAfter s log) log' :=
  List.foldl_append

theorem sameFront_refl (f : LbFrontKey) (s : FrontStore) : SameFront f s s :=
  ⟨rfl, fun _ _ => rfl⟩

/-- A write to another front leaves a front's rows alone. -/
theorem sameFront_apply_other {f : LbFrontKey} {s : FrontStore} {w : FrontWrite} (h : w.front ≠ f) :
    SameFront f (s.apply w) s := by
  cases w with
  | deleteEndpoint k =>
    refine ⟨rfl, fun k' hk' => ?_⟩
    show (s.endpoints.erase k).lookup k' = _
    rw [Table.lookup_erase_ite, if_neg]
    rintro rfl
    exact h hk'
  | putEndpoint k v =>
    refine ⟨rfl, fun k' hk' => ?_⟩
    show (s.endpoints.insert k v).lookup k' = _
    rw [Table.lookup_insert_ite, if_neg]
    rintro rfl
    exact h hk'
  | putMeta g m =>
    refine ⟨?_, fun _ _ => rfl⟩
    show (s.metas.insert g m).lookup f = _
    rw [Table.lookup_insert_ite, if_neg (fun hfg => h hfg.symm)]
  | deleteMeta g =>
    refine ⟨?_, fun _ _ => rfl⟩
    show (s.metas.erase g).lookup f = _
    rw [Table.lookup_erase_ite, if_neg (fun hfg => h hfg.symm)]

/-- Stores that agree on a front still do after the same write to it. -/
theorem sameFront_apply {f : LbFrontKey} {s t : FrontStore} (h : SameFront f s t) (w : FrontWrite) :
    SameFront f (s.apply w) (t.apply w) := by
  obtain ⟨hm, he⟩ := h
  cases w with
  | deleteEndpoint k =>
    refine ⟨hm, fun k' hk' => ?_⟩
    show (s.endpoints.erase k).lookup k' = (t.endpoints.erase k).lookup k'
    rw [Table.lookup_erase_ite, Table.lookup_erase_ite, he k' hk']
  | putEndpoint k v =>
    refine ⟨hm, fun k' hk' => ?_⟩
    show (s.endpoints.insert k v).lookup k' = (t.endpoints.insert k v).lookup k'
    rw [Table.lookup_insert_ite, Table.lookup_insert_ite, he k' hk']
  | putMeta g m =>
    refine ⟨?_, he⟩
    show (s.metas.insert g m).lookup f = (t.metas.insert g m).lookup f
    rw [Table.lookup_insert_ite, Table.lookup_insert_ite, hm]
  | deleteMeta g =>
    refine ⟨?_, he⟩
    show (s.metas.erase g).lookup f = (t.metas.erase g).lookup f
    rw [Table.lookup_erase_ite, Table.lookup_erase_ite, hm]

/-- The part of a log that concerns one front. -/
def FrontLog.of (f : LbFrontKey) (log : FrontLog) : FrontLog :=
  log.filter fun w => w.1.front = f

/-- Stores that agree on a front agree on it after logs that do the same to it. -/
theorem sameFront_storeAfter {f : LbFrontKey} {s t : FrontStore} (h : SameFront f s t) (log : FrontLog) :
    SameFront f (storeAfter s log) (storeAfter t (FrontLog.of f log)) := by
  induction log generalizing s t with
  | nil => exact h
  | cons e log ih =>
    obtain ⟨w, ok⟩ := e
    by_cases hw : w.front = f
    · rw [FrontLog.of, List.filter_cons_of_pos (by simpa using hw), storeAfter_cons, storeAfter_cons]
      cases ok
      · exact ih h
      · exact ih (sameFront_apply h w)
    · rw [FrontLog.of, List.filter_cons_of_neg (by simpa using hw), storeAfter_cons]
      cases ok
      · exact ih h
      · obtain ⟨hm, he⟩ := sameFront_apply_other (s := s) hw
        exact ih ⟨hm.trans h.1, fun k hk => (he k hk).trans (h.2 k hk)⟩

theorem storeAfter_of (f : LbFrontKey) (s : FrontStore) (log : FrontLog) :
    SameFront f (storeAfter s log) (storeAfter s (FrontLog.of f log)) :=
  sameFront_storeAfter (sameFront_refl f s) log

theorem FrontLog.of_prefix {f : LbFrontKey} {p log : FrontLog} (h : p <+: log) :
    FrontLog.of f p <+: FrontLog.of f log :=
  h.filter _

/-- The part of a pass's log that concerns a front is the log of that front's plan, or empty if it has
    none. -/
theorem flatten_of {R : FrontPlan → FrontLog → Prop} {plans : List FrontPlan} {logs : List FrontLog}
    (h : List.Forall₂ R plans logs) (hown : ∀ p ∈ plans, ∀ log, R p log → ∀ w ∈ log, w.1.front = p.front)
    (hnodup : (plans.map FrontPlan.front).Nodup) (f : LbFrontKey) :
    ((∀ p ∈ plans, p.front ≠ f) ∧ FrontLog.of f logs.flatten = []) ∨
      ∃ p ∈ plans, p.front = f ∧ R p (FrontLog.of f logs.flatten) := by
  induction h with
  | nil => exact Or.inl ⟨fun p hp => absurd hp List.not_mem_nil, rfl⟩
  | @cons plan log plans logs hR _ ih =>
    rw [List.map_cons, List.nodup_cons] at hnodup
    have hsplit : FrontLog.of f (log :: logs).flatten = FrontLog.of f log ++ FrontLog.of f logs.flatten := by
      rw [List.flatten_cons, FrontLog.of, List.filter_append]
      rfl
    have hlog : ∀ w ∈ log, w.1.front = plan.front := hown plan List.mem_cons_self log hR
    specialize ih (fun p hp => hown p (List.mem_cons_of_mem _ hp)) hnodup.2
    rw [hsplit]
    by_cases hf : plan.front = f
    · -- the plan is the front's own: the other plans, of other fronts, add nothing
      have hall : FrontLog.of f log = log :=
        List.filter_eq_self.mpr fun w hw => decide_eq_true ((hlog w hw).trans hf)
      have hnone : FrontLog.of f logs.flatten = [] := by
        rcases ih with ⟨_, h⟩ | ⟨p, hp, hpf, _⟩
        · exact h
        · exact absurd (List.mem_map.mpr ⟨p, hp, hpf.trans hf.symm⟩) hnodup.1
      rw [hall, hnone, List.append_nil]
      exact Or.inr ⟨plan, List.mem_cons_self, hf, hR⟩
    · have hnil : FrontLog.of f log = [] := by
        refine List.filter_eq_nil_iff.mpr fun w hw hwf => hf ?_
        rw [← hlog w hw]
        exact of_decide_eq_true hwf
      rw [hnil, List.nil_append]
      rcases ih with ⟨hne, h⟩ | ⟨p, hp, hrest⟩
      · refine Or.inl ⟨fun p hp => ?_, h⟩
        rcases List.mem_cons.mp hp with rfl | hp
        · exact hf
        · exact hne p hp
      · exact Or.inr ⟨p, List.mem_cons_of_mem _ hp, hrest⟩

/-- Whatever a pass issues is a step of one of its plans. -/
theorem mem_frontPass {fails : FrontLog → FrontWrite → Option MapError} {order : IterationOrder LbFrontKey}
    {s : FrontStore} {desired : Table LbFrontKey DesiredFront} {pruneAbsent : Bool}
    {keepPrevious : Finset LbFrontKey} {used : FrontUsage} {cap : FrontCapacity} {w : FrontWrite × Bool}
    (hw : w ∈ (frontPass fails order s desired pruneAbsent keepPrevious used cap).1) :
    w.1 ∈ planFrontSteps s.metas s.endpoints desired pruneAbsent keepPrevious w.1.front := by
  obtain ⟨logs, hlog, hplans⟩ := runFrontPlans_issued fails
    (planFrontWrites s.metas s.endpoints desired pruneAbsent keepPrevious order) s.metas used cap
  have hmem : ∀ {plans : List FrontPlan} {logs : List FrontLog},
      List.Forall₂ (fun p log => log = [] ∨ IssuedBy false p.steps log) plans logs →
        w ∈ logs.flatten → ∃ p ∈ plans, w.1 ∈ p.steps := by
    intro plans logs h
    induction h with
    | nil => exact fun hw => absurd hw List.not_mem_nil
    | @cons plan log _ _ hissued _ ih =>
      intro hw
      rcases List.mem_append.mp hw with hw | hw
      · rcases hissued with rfl | hissued
        · cases hw
        · exact ⟨plan, List.mem_cons_self, hissued.mem_steps w hw⟩
      · obtain ⟨p, hp, hwp⟩ := ih hw
        exact ⟨p, List.mem_cons_of_mem _ hp, hwp⟩
  unfold frontPass at hw
  rw [hlog] at hw
  obtain ⟨plan, hplan, hsteps⟩ := hmem hplans.issued hw
  rw [front_of_mem_steps hplan hsteps, ← (mem_planFrontWrites.mp hplan).2.1]
  exact hsteps

/-- A row that a pass puts is a slot of what is wanted of its front. -/
theorem putEndpoint_of_frontPass {fails : FrontLog → FrontWrite → Option MapError} {order : IterationOrder LbFrontKey}
    {s : FrontStore} {desired : Table LbFrontKey DesiredFront} {pruneAbsent : Bool}
    {keepPrevious : Finset LbFrontKey} {used : FrontUsage} {cap : FrontCapacity} {k : FrontEndpointKey}
    {v : FrontEndpoint} {ok : Bool}
    (hw : (FrontWrite.putEndpoint k v, ok) ∈ (frontPass fails order s desired pruneAbsent keepPrevious used cap).1) :
    ∃ want slot, desired.lookup k.front = some want ∧ want.endpoints[slot]? = some v ∧
      k = endpointKey k.front (nextGeneration (s.metas.lookup k.front)) slot := by
  have hstep := mem_frontPass hw
  change FrontWrite.putEndpoint k v ∈ planFrontSteps _ _ _ _ _ k.front at hstep
  rcases @planFrontSteps_cases s.metas s.endpoints desired pruneAbsent keepPrevious k.front with
    ⟨-, -, hsteps⟩ | ⟨-, -, hsteps⟩ | ⟨want, m, -, -, hsteps⟩ | ⟨want, hd, hsteps⟩
  all_goals rw [hsteps] at hstep
  · cases hstep
  · simp [pruneSteps] at hstep
  · simp [refreshSteps] at hstep
  · simp only [swapSteps, List.mem_append, List.mem_map, List.mem_singleton, reduceCtorEq, and_false, exists_false,
      false_or, or_false, FrontWrite.putEndpoint.injEq] at hstep
    obtain ⟨⟨e, slot⟩, he, hk, rfl⟩ := hstep
    exact ⟨want, slot, hd, List.mk_mem_zipIdx_iff_getElem?.mp he, hk.symm⟩

end Beep
