import Beep.Controller.Prune
import Beep.Lib.Run

/-!
# `Controller.Correctness.PruneSightings` — two sightings before a drop

A round of the prune loop runs against any answers, which are recorded with what they answered (`Exchanges`). What one
round can do is said once (`attempt_cases`): its listing fails and nothing changes, or it forgets its suspects, or it
drops only what it suspects and sees unmatched again.

A failed listing keeps the suspects of the pass before, so the drop that follows may be the second of two sightings with
a failed round between them. In runs in which no listing fails while there is a suspect this does not happen.
-/

namespace Beep

open Json (Value)

/-! ## What is recorded -/

/-- What was asked, with the answers. -/
abbrev Exchanges := List (ApiRequest × Option ApiResponse)

namespace Exchanges

/-- The request is answered, and both are recorded. -/
def record (seen : Exchanges) (request : ApiRequest) (answer : Option ApiResponse) : Exchanges × Option ApiResponse :=
  (seen ++ [(request, answer)], answer)

/-- The list in the last answer. -/
def lastRead (seen : Exchanges) : List Value :=
  match seen.getLast? with
  | some (_, some response) => (response.body.map ingressOf).getD []
  | _ => []

/-- A patch was sent without an entry of the address that the list read before had. -/
def Drops (seen : Exchanges) (ip : String) : Prop :=
  ∃ before request answer after patch, seen = before ++ (request, answer) :: after ∧ request.method = .patch ∧
    request.body = some patch ∧ ∃ entry ∈ lastRead before, entryIp entry = some ip ∧ entry ∉ ingressOf patch

theorem drops_nil {ip : String} : ¬ Drops [] ip := by
  rintro ⟨before, request, answer, after, patch, h, -⟩
  simp at h

theorem drops_record {seen : Exchanges} {request : ApiRequest} {answer : Option ApiResponse} {ip : String} :
    Drops (record seen request answer).1 ip ↔ Drops seen ip ∨ ∃ patch, request.method = .patch ∧
      request.body = some patch ∧ ∃ entry ∈ lastRead seen, entryIp entry = some ip ∧ entry ∉ ingressOf patch := by
  constructor
  · rintro ⟨before, request', answer', after, patch, h, hrest⟩
    rcases List.eq_nil_or_concat after with rfl | ⟨after, last, rfl⟩
    · obtain ⟨rfl, hlast⟩ := List.append_inj' h rfl
      obtain ⟨rfl, rfl⟩ := Prod.mk.inj (List.cons.inj hlast).1
      exact Or.inr ⟨patch, hrest⟩
    · rw [List.concat_eq_append, ← List.cons_append, ← List.append_assoc] at h
      exact Or.inl ⟨before, request', answer', after, patch, (List.append_inj' h rfl).1, hrest⟩
  · rintro (⟨before, request', answer', after, patch, rfl, hrest⟩ | ⟨patch, hrest⟩)
    · exact ⟨before, request', answer', after ++ [(request, answer)], patch, by simp [record], hrest⟩
    · exact ⟨seen, request, answer, [], patch, rfl, hrest⟩

theorem lastRead_getService {path version : String} {existing : List Value} {answer : Option ApiResponse}
    (h : readService path answer = .ok (version, existing)) (seen : Exchanges) (request : ApiRequest) :
    lastRead (record seen request answer).1 = existing := by
  unfold readService at h
  split at h
  · cases h
  · rename_i response
    split_ifs at h
    split at h
    · cases h
    · rename_i obj hbody
      split at h
      · cases h
      · simp only [Except.ok.injEq, Prod.mk.injEq] at h
        simp [lastRead, record, hbody, h.2]

/-- The patch sets what is computed from the list that was read last. -/
def Computed {S : Type} (compute : List Value → S → Option (List Value) × S) (Inv : S → Prop) (seen : Exchanges)
    (request : ApiRequest) : Prop :=
  ∀ patch, request.method = .patch → request.body = some patch →
    ∃ s, Inv s ∧ (compute (lastRead seen) s).1 = some (ingressOf patch)

/-- Whatever the answers are, the loop patches with what it computed from the list it has just read. -/
theorem safe_updateAttempts {S : Type} (path : String) {compute : List Value → S → Option (List Value) × S}
    (Inv : S → Prop) (hInv : ∀ existing s, Inv s → Inv (compute existing s).2) (attempts : Nat) {s : S} (hs : Inv s)
    (seen : Exchanges) :
    (updateAttempts path compute attempts s).Safe record (· = ·) (Computed compute Inv) (fun _ result => Inv result.2)
      seen := by
  refine safe_updateAttempts_rule Inv hInv (fun _ _ h => nomatch h) (fun _ _ _ hs => hs) ?_ ?_ attempts hs seen
  · intro seen answer version existing s s' _ hs' _ _
    exact hs'
  · rintro seen answer version existing s ingress s' _ hs hs' hread hcompute rfl
    have hlast : lastRead (record seen (getService path) answer).1 = existing :=
      lastRead_getService hread seen (getService path)
    refine ⟨?_, fun _ _ _ => hs'⟩
    rintro _ - ⟨⟩
    exact ⟨s, hs, by rw [hlast, hcompute]; rfl⟩

end Exchanges

/-! ## One round -/

namespace PruneLoop

open Exchanges

/-- The suspects during a pass: the ones of the pass before, and unmatched ones of this one. -/
def Suspecting (leases : Table String ObservedLease) (now : Instant) (previous : Finset String) (s : PruneSuspects) :
    Prop :=
  s.previous = previous ∧ ∀ ip ∈ s.current, isLiveIp leases now ip = false

theorem Suspecting.compute {leases : Table String ObservedLease} {now : Instant} {previous : Finset String}
    {s : PruneSuspects} (h : Suspecting leases now previous s) (existing : List Value) :
    Suspecting leases now previous (confirmedPrunedIngress existing leases now s).2 := by
  refine ⟨h.1, fun ip hip => ?_⟩
  rcases Finset.mem_union.mp hip with hip | hip
  · exact h.2 ip hip
  · simp only [List.mem_toFinset, List.mem_filterMap, List.mem_filter] at hip
    obtain ⟨entry, ⟨-, hunmatched⟩, hip⟩ := hip
    simpa [isUnmatched, hip] using hunmatched

/-- The patch drops only suspects that have no live Lease. -/
def DropsOnly (leases : Table String ObservedLease) (now : Instant) (previous : Finset String) (seen : Exchanges)
    (request : ApiRequest) : Prop :=
  ∀ patch, request.method = .patch → request.body = some patch → ∀ entry ∈ lastRead seen, entry ∉ ingressOf patch →
    ∃ ip, entryIp entry = some ip ∧ isLiveIp leases now ip = false ∧ ip ∈ previous

theorem safe_pruneServices {leases : Table String ObservedLease} {now : Instant} {previous : Finset String}
    (keys : List ServiceKey) {s : PruneSuspects} (hs : Suspecting leases now previous s) (seen : Exchanges) :
    (pruneServices leases now keys s).Safe record (· = ·) (DropsOnly leases now previous)
      (fun _ result => Suspecting leases now previous result.1) seen := by
  -- on the Services that are left
  induction keys generalizing s seen with
  | nil => exact hs
  | cons key keys ih =>
    refine Async.Safe.bind ((Exchanges.safe_updateAttempts _ (Suspecting leases now previous)
      (fun existing _ h => h.compute existing) _ hs seen).weaken ?_ fun seen result hs => ?_)
    · intro seen request hcomputed patch hmethod hbody entry hentry hgone
      obtain ⟨s, hs, hcompute⟩ := hcomputed patch hmethod hbody
      rw [← hs.1]
      exact unmatched_of_dropped hentry (by rw [hcompute]; exact hgone)
    · exact Async.Safe.bind ((ih hs seen).weaken (fun _ _ h => h) fun _ _ h => h)

end PruneLoop

/-! ## One attempt -/

/-- A round of the loop and the answers in it. -/
structure PruneAttempt where
  round : PruneRound
  answers : Nat → Option ApiResponse

/-- What the listing of the attempt gave. -/
def PruneAttempt.listing (ns : String) (e : PruneAttempt) : Except String (List ListedLease) :=
  readLeaseList (leasesPath ns) (e.answers 0)

/-- The turns of an attempt. -/
def PruneAttempt.script (e : PruneAttempt) (n : Nat) : Async.Turn Exchanges (Option ApiResponse) := ⟨id, e.answers n⟩

namespace PruneLoop

variable {ns nodeName : String} {l : PruneLoop} {e : PruneAttempt}

/-- The attempt: what was asked and answered, what the loop goes on with, and what it logs. -/
def attempt (ns nodeName : String) (l : PruneLoop) (e : PruneAttempt) : Exchanges × PruneLoop × List ServiceKey :=
  (l.prune ns nodeName e.round).finish Exchanges.record e.script []

/-- The step. -/
def step (ns nodeName : String) (l : PruneLoop) (e : PruneAttempt) : PruneLoop := (l.attempt ns nodeName e).2.1

/-- The attempt drops an entry of the address. -/
def Drops (ns nodeName : String) (l : PruneLoop) (e : PruneAttempt) (ip : String) : Prop :=
  Exchanges.Drops (l.attempt ns nodeName e).1 ip

/-- The attempt comes to its pass. -/
def Passes (ns nodeName : String) (l : PruneLoop) (e : PruneAttempt) (listed : List ListedLease) : Prop :=
  e.listing ns = .ok listed ∧ (l.observed e.round listed).mayPrune (leaseName nodeName) (l.passAt e.round) = true

/-- The attempt comes to its pass, and no live Lease carries the address then. -/
def Sights (ns nodeName : String) (l : PruneLoop) (e : PruneAttempt) (ip : String) : Prop :=
  ∃ listed, l.Passes ns nodeName e listed ∧
    isLiveIp (l.observed e.round listed).leases (l.passAt e.round) ip = false

/-- **What an attempt can do**: fail in its listing, forget the suspects, or drop suspects that it sights again and
    suspect what it sights. -/
theorem attempt_cases (ns nodeName : String) {l : PruneLoop} (hcurrent : l.suspects.current = ∅) (e : PruneAttempt) :
    ((∃ error, e.listing ns = .error error) ∧ l.step ns nodeName e = l ∧ ∀ ip, ¬ l.Drops ns nodeName e ip) ∨
    (∃ listed, e.listing ns = .ok listed ∧ (l.step ns nodeName e).tracker = l.observed e.round listed ∧
      (l.step ns nodeName e).clock = l.passAt e.round ∧ (l.step ns nodeName e).suspects.current = ∅ ∧
      (∀ ip ∈ (l.step ns nodeName e).suspects.previous, l.Sights ns nodeName e ip) ∧
      ∀ ip, l.Drops ns nodeName e ip → l.Sights ns nodeName e ip ∧ ip ∈ l.suspects.previous) := by
  have hattempt : l.attempt ns nodeName e = (l.afterListing nodeName e.round (e.listing ns)).finish Exchanges.record
      (fun n => e.script (n + 1)) (Exchanges.record []
        { method := .get, path := leasesPath ns, body := none } (e.answers 0)).1 := rfl
  have hlisting : ∀ ip, ¬ Exchanges.Drops (Exchanges.record []
      { method := .get, path := leasesPath ns, body := none } (e.answers 0)).1 ip := by
    intro ip h
    rcases Exchanges.drops_record.mp h with h | ⟨_, h, -⟩
    · exact Exchanges.drops_nil h
    · cases h
  unfold step Drops
  cases hresult : e.listing ns with
  | error error =>
    rw [hattempt, hresult]
    exact Or.inl ⟨⟨error, rfl⟩, rfl, hlisting⟩
  | ok listed =>
    refine Or.inr ⟨listed, rfl, ?_⟩
    rw [hattempt, hresult]
    by_cases hmay : (l.observed e.round listed).mayPrune (leaseName nodeName) (l.passAt e.round) = true
    · have hpass : l.afterListing nodeName e.round (.ok listed) =
          (pruneServices (l.observed e.round listed).leases (l.passAt e.round) e.round.keys l.suspects >>=
            fun result => pure (⟨l.passAt e.round, l.observed e.round listed, result.1.endPass⟩, result.2)) := by
        simp [afterListing, hmay]
      rw [hpass]
      have hsuspecting : Suspecting (l.observed e.round listed).leases (l.passAt e.round) l.suspects.previous
          l.suspects := ⟨rfl, by simp [hcurrent]⟩
      have hsafe : Async.Safe Exchanges.record (· = ·)
          (DropsOnly (l.observed e.round listed).leases (l.passAt e.round) l.suspects.previous)
          (fun _ (l' : PruneLoop × List ServiceKey) => l'.1.tracker = l.observed e.round listed ∧
            l'.1.clock = l.passAt e.round ∧ l'.1.suspects.current = ∅ ∧ ∀ ip ∈ l'.1.suspects.previous,
              isLiveIp (l.observed e.round listed).leases (l.passAt e.round) ip = false)
          (Exchanges.record [] { method := .get, path := leasesPath ns, body := none } (e.answers 0)).1
          (pruneServices (l.observed e.round listed).leases (l.passAt e.round) e.round.keys l.suspects >>=
            fun result => pure (⟨l.passAt e.round, l.observed e.round listed, result.1.endPass⟩, result.2)) :=
        Async.Safe.bind ((safe_pruneServices e.round.keys hsuspecting _).weaken (fun _ _ h => h)
          fun _ _ hs => ⟨rfl, rfl, rfl, hs.2⟩)
      -- the invariant of the exchanges: what they dropped was suspected, and has no live Lease
      obtain ⟨hdrops, htracker, hclock, hnone, hsuspects⟩ := hsafe.finish (fun n => e.script (n + 1))
        (fun seen => ∀ ip, Exchanges.Drops seen ip →
          isLiveIp (l.observed e.round listed).leases (l.passAt e.round) ip = false ∧ ip ∈ l.suspects.previous)
        (fun _ _ _ => rfl) (fun _ _ h => h)
        (fun n seen request hseen honly ip hip => by
          rcases Exchanges.drops_record.mp hip with hip | ⟨patch, hmethod, hbody, entry, hentry, hshow, hgone⟩
          · exact hseen ip hip
          · obtain ⟨ip', hshow', hlive, hprevious⟩ := honly patch hmethod hbody entry hentry hgone
            obtain rfl : ip' = ip := Option.some_inj.mp (hshow'.symm.trans hshow)
            exact ⟨hlive, hprevious⟩)
        (fun ip h => absurd h (hlisting ip))
      exact ⟨htracker, hclock, hnone, fun ip hip => ⟨listed, ⟨hresult, hmay⟩, hsuspects ip hip⟩,
        fun ip hip => ⟨⟨listed, ⟨hresult, hmay⟩, (hdrops ip hip).1⟩, (hdrops ip hip).2⟩⟩
    · have hskip : l.afterListing nodeName e.round (.ok listed) =
          pure (⟨l.passAt e.round, l.observed e.round listed, l.suspects.reset⟩, []) := by
        simp [afterListing, hmay]
      rw [hskip]
      exact ⟨rfl, rfl, rfl, (fun ip hip => absurd hip (Finset.notMem_empty ip)),
        fun ip hip => absurd hip (hlisting ip)⟩

end PruneLoop

/-! ## Runs -/

namespace PruneLoop

variable {ns nodeName : String} {now₀ : Instant}

/-- What the loop goes on with after some attempts. -/
def after (ns nodeName : String) (now₀ : Instant) (es : List PruneAttempt) : PruneLoop :=
  es.foldl (step ns nodeName) (start now₀)

/-- An address is dropped only by a pass that sights it right after a pass that did. -/
def TwoSightings (ns nodeName : String) (now₀ : Instant) (es : List PruneAttempt) : Prop :=
  ∀ before e rest ip, es = before ++ e :: rest → (after ns nodeName now₀ before).Drops ns nodeName e ip →
    (after ns nodeName now₀ before).Sights ns nodeName e ip ∧
      ∃ earlier e', before = earlier ++ [e'] ∧ (after ns nodeName now₀ earlier).Sights ns nodeName e' ip

/-- No listing fails while an address is suspected. -/
def ListsWhileSuspecting (ns nodeName : String) (now₀ : Instant) (es : List PruneAttempt) : Prop :=
  Run.Along (step ns nodeName) (fun l e => (∃ error, e.listing ns = .error error) → l.suspects.previous = ∅)
    (start now₀) es

theorem after_append (before : List PruneAttempt) (e : PruneAttempt) :
    after ns nodeName now₀ (before ++ [e]) = (after ns nodeName now₀ before).step ns nodeName e := by
  unfold after
  rw [List.foldl_append, List.foldl_cons, List.foldl_nil]

/-- Between two rounds nothing is found yet. -/
theorem current_after (es : List PruneAttempt) : (after ns nodeName now₀ es).suspects.current = ∅ := by
  -- on the last attempt
  induction es using List.reverseRecOn with
  | nil => rfl
  | append_singleton before e ih =>
    rw [after_append]
    rcases attempt_cases ns nodeName ih e with ⟨-, hsame, -⟩ | ⟨listed, -, -, -, hcurrent, -⟩
    · rw [hsame]
      exact ih
    · exact hcurrent

/-- A suspect was sighted by the last attempt, as long as no listing fails while there is one. -/
theorem sighted_of_suspected {es : List PruneAttempt} (hlists : ListsWhileSuspecting ns nodeName now₀ es) {ip : String}
    (hip : ip ∈ (after ns nodeName now₀ es).suspects.previous) :
    ∃ earlier e', es = earlier ++ [e'] ∧ (after ns nodeName now₀ earlier).Sights ns nodeName e' ip := by
  rcases List.eq_nil_or_concat es with rfl | ⟨earlier, e', rfl⟩
  · exact absurd hip (Finset.notMem_empty ip)
  rw [List.concat_eq_append] at hlists hip ⊢
  refine ⟨earlier, e', rfl, ?_⟩
  have hlast := (Run.along_append.mp hlists).2.1
  rw [after_append] at hip
  rcases attempt_cases ns nodeName (current_after earlier) e' with ⟨hfailed, hsame, -⟩ | ⟨listed, -, -, -, -, hsights, -⟩
  · rw [hsame] at hip
    exact absurd (hlast hfailed ▸ hip) (Finset.notMem_empty ip)
  · exact hsights ip hip

theorem twoSightings {es : List PruneAttempt} (hlists : ListsWhileSuspecting ns nodeName now₀ es) :
    TwoSightings ns nodeName now₀ es := by
  rintro before e rest ip rfl hdrops
  rcases attempt_cases ns nodeName (current_after before) e with ⟨-, -, hnone⟩ | ⟨listed, -, -, -, -, -, hdropped⟩
  · exact absurd hdrops (hnone ip)
  · obtain ⟨hsights, hsuspect⟩ := hdropped ip hdrops
    exact ⟨hsights, sighted_of_suspected (Run.along_append.mp hlists).1 hsuspect⟩

/-- No change is observed later than the clock was read. -/
theorem changedAt_le_clock (es : List PruneAttempt) {name : String} {o : ObservedLease}
    (h : (after ns nodeName now₀ es).tracker.leases.lookup name = some o) :
    o.changedAt ≤ (after ns nodeName now₀ es).clock := by
  -- on the last attempt
  induction es using List.reverseRecOn generalizing name o with
  | nil => cases h
  | append_singleton before e ih =>
    rw [after_append] at h ⊢
    rcases attempt_cases ns nodeName (current_after before) e with ⟨-, hsame, -⟩ | ⟨listed, -, htracker, hclock, -⟩
    · rw [hsame] at h ⊢
      exact ih h
    · rw [htracker] at h
      rw [hclock]
      exact Nat.le_trans (LeaseTracker.changedAt_observe_le (fun _ _ => ih) (Nat.le_add_right _ _) h)
        (Nat.le_add_right _ _)

/-- The listing that succeeded last. -/
def LastListing (ns : String) (es : List PruneAttempt) (listed : List ListedLease) : Prop :=
  ∃ earlier e failed, es = earlier ++ e :: failed ∧ e.listing ns = .ok listed ∧
    ∀ e' ∈ failed, ∃ error, e'.listing ns = .error error

/-- What is kept of a name is what was listed last. -/
theorem renewTime_of_lastListing {es : List PruneAttempt} {listed : List ListedLease} (h : LastListing ns es listed)
    {name : String} {o : ObservedLease} (ho : (after ns nodeName now₀ es).tracker.leases.lookup name = some o) :
    ∃ lease, listedAs listed name = some lease ∧ o.renewTime = lease.renewTime := by
  obtain ⟨earlier, e, failed, rfl, hlisted, hfailed⟩ := h
  -- on the failed listings since, the last one first
  induction failed using List.reverseRecOn with
  | nil =>
    rw [after_append] at ho
    rcases attempt_cases ns nodeName (current_after earlier) e with ⟨⟨error, herror⟩, -⟩ | ⟨listed', hok, htracker, -⟩
    · rw [hlisted] at herror
      cases herror
    · rw [hlisted] at hok
      cases hok
      rw [htracker] at ho
      obtain ⟨lease, hlease, hobserves⟩ := LeaseTracker.listed_of_observed ho
      exact ⟨lease, hlease, hobserves.renewTime⟩
  | append_singleton failed e' ih =>
    refine ih ?_ fun e'' he'' => hfailed e'' (List.mem_append_left _ he'')
    rw [← List.cons_append, ← List.append_assoc, after_append] at ho
    rcases attempt_cases ns nodeName (current_after (earlier ++ e :: failed)) e' with ⟨-, hsame, -⟩ | ⟨_, hok, -⟩
    · rwa [hsame] at ho
    · obtain ⟨error, herror⟩ := hfailed e' (List.mem_append_right _ (List.mem_singleton_self e'))
      rw [herror] at hok
      cases hok

/-- A Lease whose `renewTime` is another one than in the listing before has changed when it is observed. -/
theorem changedAt_of_renewed (nodeName : String) (now₀ : Instant) {before : List PruneAttempt}
    {listed₁ : List ListedLease} (hlast : LastListing ns before listed₁) (round : PruneRound)
    {listed : List ListedLease} {lease : ListedLease}
    (hlease : listedAs listed lease.name = some lease)
    (hrenewed : ∀ old, listedAs listed₁ lease.name = some old → old.renewTime ≠ lease.renewTime) :
    ∃ o, ((after ns nodeName now₀ before).observed round listed).leases.lookup lease.name = some o ∧
      o.ips = lease.ips ∧ o.changedAt = (after ns nodeName now₀ before).observedAt round := by
  have hobserved := (after ns nodeName now₀ before).tracker.lookup_observe listed
    ((after ns nodeName now₀ before).observedAt round) lease.name
  rw [hlease] at hobserved
  obtain ⟨o, ho, hobserves⟩ := hobserved
  refine ⟨o, ho, hobserves.ips, hobserves.changedAt.resolve_right ?_⟩
  rintro ⟨old, hold, hsame, -⟩
  obtain ⟨lease₁, hlease₁, hrenew⟩ := renewTime_of_lastListing hlast hold
  exact hrenewed lease₁ hlease₁ (hrenew.symm.trans hsame)

/-- A pass begins soon after the observation, or its own Lease is none of the live ones. -/
theorem took_lt_of_passes {before : List PruneAttempt} {e : PruneAttempt} {listed : List ListedLease}
    (h : (after ns nodeName now₀ before).Passes ns nodeName e listed) :
    (after ns nodeName now₀ before).passAt e.round - (after ns nodeName now₀ before).observedAt e.round <
      leaseDuration := by
  have hown := (Bool.and_eq_true_iff.mp h.2).2
  unfold LeaseTracker.isLive at hown
  cases hlookup : ((after ns nodeName now₀ before).observed e.round listed).leases.lookup (leaseName nodeName) with
  | none =>
    rw [hlookup] at hown
    cases hown
  | some own =>
    rw [hlookup] at hown
    have hchanged := LeaseTracker.changedAt_observe_le (fun _ _ => changedAt_le_clock before)
      (Nat.le_add_right _ _) hlookup
    have hlt : (after ns nodeName now₀ before).passAt e.round - own.changedAt < leaseDuration :=
      of_decide_eq_true hown
    exact Nat.lt_of_le_of_lt (Nat.sub_le_sub_left hchanged _) hlt

/-- **Two sightings.** As long as no listing fails while there is a suspect, an address is dropped only by a pass that
    sights it right after one that did. In every run, a Lease that was renewed since the last listing is live in the
    pass, and none of its addresses is dropped. -/
theorem prune_sightings (ns nodeName : String) (now₀ : Instant) (es : List PruneAttempt) :
    (ListsWhileSuspecting ns nodeName now₀ es → TwoSightings ns nodeName now₀ es) ∧
    ∀ before e rest listed₁ listed lease, es = before ++ e :: rest → LastListing ns before listed₁ →
      e.listing ns = .ok listed → listedAs listed lease.name = some lease →
      (∀ old, listedAs listed₁ lease.name = some old → old.renewTime ≠ lease.renewTime) →
      ((after ns nodeName now₀ before).Passes ns nodeName e listed →
        ((after ns nodeName now₀ before).observed e.round listed).isLive lease.name
          ((after ns nodeName now₀ before).passAt e.round) = true) ∧
      ∀ ip ∈ lease.ips, ¬ (after ns nodeName now₀ before).Drops ns nodeName e ip := by
  refine ⟨twoSightings, fun before e rest listed₁ listed lease _ hlast hlisted hlease hrenewed => ?_⟩
  obtain ⟨o, ho, hips, hchanged⟩ := changedAt_of_renewed nodeName now₀ hlast e.round hlease hrenewed
  have hlive : (after ns nodeName now₀ before).Passes ns nodeName e listed →
      o.isLive ((after ns nodeName now₀ before).passAt e.round) = true := by
    intro hpasses
    unfold ObservedLease.isLive
    rw [hchanged]
    exact decide_eq_true (took_lt_of_passes hpasses)
  constructor
  · intro hpasses
    unfold LeaseTracker.isLive
    rw [ho]
    exact hlive hpasses
  · intro ip hip hdrops
    rcases attempt_cases ns nodeName (current_after before) e with ⟨-, -, hnone⟩ | ⟨_, -, -, -, -, -, hdropped⟩
    · exact hnone ip hdrops
    · obtain ⟨⟨listed', hpasses, hdead⟩, -⟩ := hdropped ip hdrops
      have hsame : listed' = listed := by
        have hok := hpasses.1
        rw [hlisted] at hok
        exact (Except.ok.inj hok).symm
      subst hsame
      refine absurd ?_ (Bool.eq_false_iff.mp hdead)
      refine List.any_eq_true.mpr ⟨o, Table.mem_values.mpr ⟨lease.name, ho⟩, ?_⟩
      rw [hlive hpasses, hips]
      simpa using hip

/-! ## A failed listing between two sightings -/

/-- A pass that sees the Lease of its own node renewed, and an address without one in the list. -/
def strayPass (renewTime : String) : PruneAttempt where
  round := { slept := fromSecs 41, took := 0, keys := [⟨"default", "web"⟩] }
  answers
    | 0 => some ⟨200, some (.obj [("items", .arr [.obj [("metadata", .obj [("name", .str "beep-node-a")]),
        ("spec", .obj [("renewTime", .str renewTime)])]])])⟩
    | _ => some ⟨200, some (IngressRegister.object ⟨1, [ipEntry "10.0.0.9"]⟩)⟩

/-- A listing that fails. -/
def failedListing : PruneAttempt where
  round := { slept := fromSecs 10, took := 0, keys := [] }
  answers _ := none

/-- The pass after the failed listing drops the address, as if it had been sighted by the one in between. -/
theorem not_twoSightings : ¬ TwoSightings "beep" "a" 0 [strayPass "1", failedListing, strayPass "2"] := by
  intro h
  have hseen : ((after "beep" "a" 0 [strayPass "1", failedListing]).attempt "beep" "a" (strayPass "2")).1 =
      [({ method := .get, path := leasesPath "beep", body := none }, (strayPass "2").answers 0),
        (getService (servicePath "default" "web"), (strayPass "2").answers 1)] ++
      [(patchStatus (servicePath "default" "web") (toString 1) [], (strayPass "2").answers 2)] := rfl
  have hdrops : (after "beep" "a" 0 [strayPass "1", failedListing]).Drops "beep" "a" (strayPass "2") "10.0.0.9" :=
    ⟨_, _, _, [], ingressPatch (toString 1) [], hseen, rfl, rfl, ipEntry "10.0.0.9", List.mem_singleton_self _, rfl,
      List.not_mem_nil⟩
  obtain ⟨-, earlier, e', heq, listed, ⟨hlisted, -⟩, -⟩ := h [strayPass "1", failedListing] _ [] _ rfl hdrops
  obtain ⟨-, hlast⟩ := List.append_inj' (show [strayPass "1"] ++ [failedListing] = earlier ++ [e'] from heq) rfl
  obtain rfl := (List.cons.inj hlast).1
  cases hlisted

end PruneLoop

end Beep
