import Beep.Controller.Prune
import Beep.Lib.Run

/-!
# `Controller.Correctness.PruneLatency` — how long a lost node stays listed

One controller prunes, and others write the list of a Service before every round and between its requests (`PrunePass`).
Three facts make the bound: an address that no live Lease carries is suspected by the end of a pass that succeeds or is
not listed any more (`Settled`), after that it is gone with the next pass (`gone_after_dead`), and the Lease of a lost
node is last seen to change in the first round after its last write (`noticed_after`).
-/

namespace Beep

open Json (Value)

/-! ## The list between the requests -/

/-- No entry has the address. -/
def Unlisted (ip : String) (ingress : List Value) : Prop := ∀ entry ∈ ingress, entryIp entry ≠ some ip

/-- What a writer makes of the list. -/
abbrev IngressWrite := List Value → List Value

namespace IngressRegister

/-- The object after some writes. -/
def written (r : IngressRegister) (writes : List IngressWrite) : IngressRegister :=
  writes.foldl (fun r f => { version := r.version + 1, ingress := f r.ingress }) r

theorem moves_written (r : IngressRegister) (writes : List IngressWrite) : r.Moves (r.written writes) := by
  -- on the last write
  induction writes using List.reverseRecOn with
  | nil => exact .refl r
  | append_singleton writes f ih =>
    unfold written at ih ⊢
    rw [List.foldl_append, List.foldl_cons, List.foldl_nil]
    refine ih.trans ⟨Nat.le_succ _, fun h => ?_⟩
    exact absurd h (Nat.succ_ne_self _)

/-- Writers that do not add an address. -/
def Withhold (ip : String) (writes : List IngressWrite) : Prop :=
  ∀ f ∈ writes, ∀ ingress, Unlisted ip ingress → Unlisted ip (f ingress)

theorem unlisted_written {ip : String} {writes : List IngressWrite} (h : Withhold ip writes) {r : IngressRegister}
    (hr : Unlisted ip r.ingress) : Unlisted ip (r.written writes).ingress :=
  List.foldlRecOn writes _ (motive := fun r : IngressRegister => Unlisted ip r.ingress) hr
    fun r hr f hf => h f hf r.ingress hr

/-- How a request goes: as the object has it, or with any answer if it is about something else. -/
structure Reply where
  how : Serving
  other : Option ApiResponse

/-- A request of the loop at the path of a Service. -/
def Concerns (path : String) (request : ApiRequest) : Prop :=
  (request.method = .get ∧ request.path = path) ∨ (request.method = .patch ∧ request.path = path ++ "/status")

instance (path : String) (request : ApiRequest) : Decidable (Concerns path request) :=
  inferInstanceAs (Decidable (_ ∨ _))

/-- A request to the API server, with the Service at the path. -/
def serveAt (path : String) (r : IngressRegister) (request : ApiRequest) (reply : Reply) :
    IngressRegister × Option ApiResponse :=
  if Concerns path request then r.serve request reply.how else (r, reply.other)

/-- The register moves, and the address is not added. -/
def MovesWithout (ip : String) (r r' : IngressRegister) : Prop :=
  r.Moves r' ∧ (Unlisted ip r.ingress → Unlisted ip r'.ingress)

/-- The request does not add the address. -/
def AddsNone (path ip : String) (r : IngressRegister) (request : ApiRequest) : Prop :=
  ∀ reply, Unlisted ip r.ingress → Unlisted ip (serveAt path r request reply).1.ingress

end IngressRegister

/-- What the loop asks for. -/
theorem asks_updateAttempts {S : Type} (path : String) (compute : List Value → S → Option (List Value) × S)
    {p : ApiRequest → Prop} (hget : p (getService path)) (hpatch : ∀ version ingress, p (patchStatus path version ingress))
    (attempts : Nat) (s : S) : (updateAttempts path compute attempts s).Asks p := by
  -- on the attempts that are left
  induction attempts generalizing s with
  | zero => trivial
  | succ attempts ih =>
    refine Async.Asks.bind ⟨hget, fun _ => trivial⟩ fun answer => ?_
    cases readService path answer with
    | error e => trivial
    | ok read =>
      dsimp only
      rcases compute read.2 s with ⟨_ | ingress, s'⟩
      · trivial
      · refine Async.Asks.bind ⟨hpatch _ _, fun _ => trivial⟩ fun answer' => ?_
        cases patchOutcome path answer' with
        | none => exact ih s'
        | some result => trivial

/-- What the loop keeps in mind, whatever it is answered. -/
theorem safe_updateAttempts_of {S σ ε : Type} {serve : σ → ApiRequest → ε → σ × Option ApiResponse} {R : σ → σ → Prop}
    {G : σ → ApiRequest → Prop} (path : String) {compute : List Value → S → Option (List Value) × S} (Inv : S → Prop)
    (hInv : ∀ existing s, Inv s → Inv (compute existing s).2) (hget : ∀ x, G x (getService path))
    (hpatch : ∀ x version ingress, G x (patchStatus path version ingress)) (attempts : Nat) {s : S} (hs : Inv s) (x : σ) :
    (updateAttempts path compute attempts s).Safe serve R G (fun _ result => Inv result.2) x := by
  refine safe_updateAttempts_rule Inv hInv hget (fun _ _ _ hs => hs) ?_ ?_ attempts hs x
  · intro x how version existing s s' _ hs' _ _
    exact hs'
  · intro x how version existing s ingress s' x' _ hs' _ _ _
    exact ⟨hpatch x' version ingress, fun _ _ _ => hs'⟩

/-! ## One pass -/

namespace PruneLoop

variable {leases : Table String ObservedLease} {now : Instant} {ip path : String}

/-- The suspects of the pass before are known, and the address is suspected or listed no more. -/
def Settled (ip : String) (ingress : List Value) (s : PruneSuspects) : Prop :=
  (ip ∈ s.previous → Unlisted ip ingress) ∧ (ip ∈ s.current ∨ Unlisted ip ingress)

/-- Suspicion grows during a pass. -/
def Grows (ip : String) (s s' : PruneSuspects) : Prop := s'.previous = s.previous ∧ (ip ∈ s.current → ip ∈ s'.current)

theorem Grows.compute {s s' : PruneSuspects} (h : Grows ip s s') (existing : List Value) :
    Grows ip s (confirmedPrunedIngress existing leases now s').2 :=
  ⟨h.1, fun hs => Finset.mem_union_left _ (h.2 hs)⟩

/-- A list with the address in it makes it a suspect. -/
theorem suspected_of_listed {existing : List Value} {s : PruneSuspects} (hdead : isLiveIp leases now ip = false)
    (h : ¬ Unlisted ip existing) : ip ∈ (confirmedPrunedIngress existing leases now s).2.current := by
  unfold Unlisted at h
  push Not at h
  obtain ⟨entry, hentry, hip⟩ := h
  refine Finset.mem_union_right _ (List.mem_toFinset.mpr (List.mem_filterMap.mpr ⟨entry, ?_, hip⟩))
  refine List.mem_filter.mpr ⟨hentry, ?_⟩
  simp [isUnmatched, hip, hdead]

/-- What is left after a correction does not have a suspect without a live Lease. -/
theorem unlisted_of_suspected (existing : List Value) {s : PruneSuspects} (hdead : isLiveIp leases now ip = false)
    (hip : ip ∈ s.previous) : Unlisted ip ((confirmedPrunedIngress existing leases now s).1.getD existing) := by
  rw [getD_confirmedPruned]
  intro entry hentry hshow
  obtain ⟨-, hkept⟩ := List.mem_filter.mp hentry
  rw [isConfirmed_iff.mpr ⟨ip, hshow, hdead, hip⟩] at hkept
  cases hkept

/-- A correction adds nothing. -/
theorem subset_of_pruned {existing pruned : List Value} {s : PruneSuspects}
    (h : (confirmedPrunedIngress existing leases now s).1 = some pruned) {entry : Value} (hentry : entry ∈ pruned) :
    entry ∈ existing := by
  have hgetD := getD_confirmedPruned existing leases now s
  rw [h, Option.getD_some] at hgetD
  rw [hgetD] at hentry
  exact (List.mem_filter.mp hentry).1

theorem settled_of_corrected {r : IngressRegister} {s s' : PruneSuspects} (hdead : isLiveIp leases now ip = false)
    (h : IngressRegister.Corrected (fun existing s => confirmedPrunedIngress existing leases now s) (Grows ip s) r s')
    (hgrows : Grows ip s s') : Settled ip r.ingress s' := by
  rcases h with ⟨s₁, hs₁, hcompute⟩ | ⟨old, s₁, hs₁, hcompute⟩
  · have hlist := Prod.mk.inj hcompute
    constructor
    · intro hip
      have hgone := unlisted_of_suspected r.ingress hdead (hs₁.1.trans hgrows.1.symm ▸ hip)
      rwa [show (confirmedPrunedIngress r.ingress leases now s₁).1 = none from hlist.1] at hgone
    · by_cases hlisted : Unlisted ip r.ingress
      · exact Or.inr hlisted
      · exact Or.inl (hlist.2 ▸ suspected_of_listed hdead hlisted)
  · have hlist := Prod.mk.inj hcompute
    constructor
    · intro hip
      have hgone := unlisted_of_suspected old hdead (hs₁.1.trans hgrows.1.symm ▸ hip)
      rwa [show (confirmedPrunedIngress old leases now s₁).1 = some r.ingress from hlist.1] at hgone
    · by_cases hlisted : Unlisted ip old
      · exact Or.inr fun entry hentry => hlisted entry (subset_of_pruned hlist.1 hentry)
      · exact Or.inl (hlist.2 ▸ suspected_of_listed hdead hlisted)

/-- One Service: nothing is added to the list, and if it is the one at the path and its update succeeds, it is settled. -/
theorem safe_update (hdead : isLiveIp leases now ip = false) (key : ServiceKey) (s : PruneSuspects)
    (r : IngressRegister) :
    (updateIngress key.ns key.name (fun existing s => confirmedPrunedIngress existing leases now s) s).Safe
      (IngressRegister.serveAt path) (IngressRegister.MovesWithout ip) (IngressRegister.AddsNone path ip)
      (fun r' result => (Grows ip s result.2 ∧
          (servicePath key.ns key.name = path → result.1 = .ok () → Settled ip r'.ingress result.2)) ∧
        (Unlisted ip r.ingress → Unlisted ip r'.ingress)) r := by
  have hmoves : ∀ r r' : IngressRegister, IngressRegister.MovesWithout ip r r' → Unlisted ip r.ingress →
      Unlisted ip r'.ingress := fun _ _ h => h.2
  have hserves : ∀ (r : IngressRegister) q e, IngressRegister.AddsNone path ip r q → Unlisted ip r.ingress →
      Unlisted ip (IngressRegister.serveAt path r q e).1.ingress := fun r q e h hr => h e hr
  suffices hloop : (updateIngress key.ns key.name (fun existing s => confirmedPrunedIngress existing leases now s)
      s).Safe (IngressRegister.serveAt path) (IngressRegister.MovesWithout ip) (IngressRegister.AddsNone path ip)
      (fun r' result => Grows ip s result.2 ∧
        (servicePath key.ns key.name = path → result.1 = .ok () → Settled ip r'.ingress result.2)) r from
    hloop.keeps hmoves hserves
  by_cases hpath : servicePath key.ns key.name = path
  · have hgrows : ∀ existing s', Grows ip s s' → Grows ip s (confirmedPrunedIngress existing leases now s').2 :=
      fun existing s' h => h.compute existing
    have hsafe := IngressRegister.safe_updateAttempts (servicePath key.ns key.name) (Grows ip s) hgrows
      maxConflictRetries ⟨rfl, id⟩ r
    have hasks : (updateIngress key.ns key.name (fun existing s => confirmedPrunedIngress existing leases now s)
        s).Asks (IngressRegister.Concerns path) :=
      asks_updateAttempts _ _ (Or.inl ⟨rfl, hpath⟩) (fun _ _ => Or.inr ⟨rfl, by rw [← hpath]; rfl⟩) _ _
    have hserve : ∀ (r : IngressRegister) q (e : IngressRegister.Reply), IngressRegister.Concerns path q →
        IngressRegister.serveAt path r q e = r.serve q e.how := fun r q e h => if_pos h
    refine ((hsafe.calm fun _ _ h => h.1).serve_congr hserve hasks).weaken ?_ ?_
    · -- a patch that is accepted takes entries away
      intro r q hreplaces e hr
      unfold IngressRegister.serveAt
      split
      · rcases r.serve_cases q e.how with hsame | ⟨patch, hmethod, hbody, hversion, hset⟩
        · rw [hsame]
          exact hr
        · obtain ⟨s', -, hcompute⟩ := hreplaces patch hmethod hbody hversion
          rw [hset]
          exact fun entry hentry => hr entry (subset_of_pruned hcompute hentry)
      · exact hr
    · exact fun r' result h => ⟨h.1, fun _ hok => settled_of_corrected hdead (h.2 hok) h.1⟩
  · refine (safe_updateAttempts_of _ (Grows ip s) (fun existing s' h => h.compute existing) ?_ ?_ _ ⟨rfl, id⟩ r).weaken
      (fun _ _ h => h) fun _ _ h => ⟨h, fun h' => absurd h' hpath⟩
    · intro r e hr
      unfold IngressRegister.serveAt
      rw [if_neg]
      · exact hr
      · rintro (⟨-, h⟩ | ⟨h, -⟩)
        · exact hpath h
        · cases h
    · intro r version ingress e hr
      unfold IngressRegister.serveAt
      rw [if_neg]
      · exact hr
      · rintro (⟨h, -⟩ | ⟨-, h⟩)
        · cases h
        · exact hpath (String.append_left_inj _ |>.mp h)

/-- **One pass.** It adds nothing to the list, and if the Service is among the ones it covers and is not logged, it is
    settled. -/
theorem safe_pruneServices_settled (hdead : isLiveIp leases now ip = false) (key : ServiceKey) (keys : List ServiceKey)
    (s : PruneSuspects) (r : IngressRegister) :
    (pruneServices leases now keys s).Safe (IngressRegister.serveAt (servicePath key.ns key.name))
      (IngressRegister.MovesWithout ip) (IngressRegister.AddsNone (servicePath key.ns key.name) ip)
      (fun r' result => Grows ip s result.1 ∧ (Unlisted ip r.ingress → Unlisted ip r'.ingress) ∧
        (key ∈ keys → key ∉ result.2 → Settled ip r'.ingress result.1)) r := by
  -- on the Services that are left
  induction keys generalizing s r with
  | nil => exact ⟨⟨rfl, id⟩, id, fun h => absurd h List.not_mem_nil⟩
  | cons k keys ih =>
    refine Async.Safe.bind ((safe_update hdead k s r).weaken (fun _ _ h => h) fun r₁ first hfirst => ?_)
    obtain ⟨result, s₁⟩ := first
    obtain ⟨⟨hgrows₁, hsettled₁⟩, hunlisted₁⟩ := hfirst
    refine Async.Safe.bind ((ih s₁ r₁).weaken (fun _ _ h => h) fun r₂ rest hrest => ?_)
    obtain ⟨s₂, failed⟩ := rest
    obtain ⟨hgrows₂, hunlisted₂, hsettled₂⟩ := hrest
    refine ⟨⟨hgrows₂.1.trans hgrows₁.1, fun h => hgrows₂.2 (hgrows₁.2 h)⟩, fun h => hunlisted₂ (hunlisted₁ h), ?_⟩
    intro hkey hlogged
    by_cases hrest : key ∈ keys
    · refine hsettled₂ hrest fun hfailed => hlogged ?_
      cases result with
      | error e => exact List.mem_cons_of_mem _ hfailed
      | ok _ => exact hfailed
    · obtain rfl : key = k := (List.mem_cons.mp hkey).resolve_right hrest
      cases result with
      | error e => exact absurd List.mem_cons_self hlogged
      | ok _ =>
        -- what the first update settled stays settled
        obtain ⟨hprevious, hcurrent⟩ := hsettled₁ rfl rfl
        exact ⟨fun h => hunlisted₂ (hprevious (hgrows₂.1 ▸ h)), hcurrent.imp hgrows₂.2 hunlisted₂⟩

end PruneLoop

/-! ## Rounds -/

/-- A round among other writers: what they write before it, what they write before each of its requests, and how the
    requests go. -/
structure PrunePass where
  since : List IngressWrite
  round : PruneRound
  others : Nat → List IngressWrite
  replies : Nat → IngressRegister.Reply

/-- When the last round began, what the loop goes on with, and the list of the Service. -/
structure PruneScene where
  began : Instant
  loop : PruneLoop
  register : IngressRegister

/-- The turns of a round. -/
def PrunePass.turns (e : PrunePass) (n : Nat) : Async.Turn IngressRegister IngressRegister.Reply :=
  ⟨fun r => r.written (e.others n), e.replies n⟩

namespace PruneScene

variable {ns nodeName : String} {key : ServiceKey} {b : PruneScene} {e : PrunePass} {listed : List ListedLease}
  {w s₀ : Instant} {last : ListedLease} {ip : String}

/-- The process starts. -/
def start (now : Instant) (r : IngressRegister) : PruneScene := { began := now, loop := .start now, register := r }

/-- The round: the list after it, what the loop goes on with, and what it logs. -/
def outcome (ns nodeName : String) (key : ServiceKey) (b : PruneScene) (e : PrunePass) :
    IngressRegister × PruneLoop × List ServiceKey :=
  (b.loop.prune ns nodeName e.round).finish (IngressRegister.serveAt (servicePath key.ns key.name)) e.turns
    (b.register.written e.since)

/-- The step. -/
def step (ns nodeName : String) (key : ServiceKey) (b : PruneScene) (e : PrunePass) : PruneScene where
  began := b.loop.observedAt e.round
  loop := (b.outcome ns nodeName key e).2.1
  register := (b.outcome ns nodeName key e).1

/-- How the request for the Leases is served. -/
def listingServed (ns : String) (key : ServiceKey) (b : PruneScene) (e : PrunePass) :
    IngressRegister × Option ApiResponse :=
  IngressRegister.serveAt (servicePath key.ns key.name) ((b.register.written e.since).written (e.others 0))
    { method := .get, path := leasesPath ns, body := none } (e.replies 0)

/-- What the listing gives. -/
def listing (ns : String) (key : ServiceKey) (b : PruneScene) (e : PrunePass) : Except String (List ListedLease) :=
  readLeaseList (leasesPath ns) (b.listingServed ns key e).2

/-- The pass that follows the listing. -/
def passed (ns : String) (key : ServiceKey) (b : PruneScene) (e : PrunePass) (listed : List ListedLease) :
    IngressRegister × PruneSuspects × List ServiceKey :=
  (PruneLoop.pruneServices (b.loop.observed e.round listed).leases (b.loop.passAt e.round) e.round.keys
    b.loop.suspects).finish (IngressRegister.serveAt (servicePath key.ns key.name)) (fun n => e.turns (n + 1))
    (b.listingServed ns key e).1

theorem outcome_of_listed (nodeName : String) (hlisting : b.listing ns key e = .ok listed) :
    (b.outcome ns nodeName key e).2.1.tracker = b.loop.observed e.round listed ∧
      (b.outcome ns nodeName key e).2.1.clock = b.loop.passAt e.round ∧
      ((b.loop.observed e.round listed).mayPrune (leaseName nodeName) (b.loop.passAt e.round) = true →
        (b.outcome ns nodeName key e).1 = (b.passed ns key e listed).1 ∧
        (b.outcome ns nodeName key e).2.1.suspects = (b.passed ns key e listed).2.1.endPass ∧
        (b.outcome ns nodeName key e).2.2 = (b.passed ns key e listed).2.2) := by
  have houtcome : b.outcome ns nodeName key e =
      (b.loop.afterListing nodeName e.round (b.listing ns key e)).finish
        (IngressRegister.serveAt (servicePath key.ns key.name)) (fun n => e.turns (n + 1))
        (b.listingServed ns key e).1 := rfl
  rw [houtcome, hlisting]
  by_cases hmay : (b.loop.observed e.round listed).mayPrune (leaseName nodeName) (b.loop.passAt e.round) = true
  · have hpass : b.loop.afterListing nodeName e.round (.ok listed) =
        (fun result : PruneSuspects × List ServiceKey =>
          ((⟨b.loop.passAt e.round, b.loop.observed e.round listed, result.1.endPass⟩ : PruneLoop), result.2)) <$>
        PruneLoop.pruneServices (b.loop.observed e.round listed).leases (b.loop.passAt e.round) e.round.keys
          b.loop.suspects := by
      simp [PruneLoop.afterListing, hmay, map_eq_pure_bind]
    rw [hpass, Async.finish_map]
    exact ⟨rfl, rfl, fun _ => ⟨rfl, rfl, rfl⟩⟩
  · have hskip : b.loop.afterListing nodeName e.round (.ok listed) =
        pure (⟨b.loop.passAt e.round, b.loop.observed e.round listed, b.loop.suspects.reset⟩, []) := by
      simp [PruneLoop.afterListing, hmay]
    rw [hskip]
    exact ⟨rfl, rfl, fun h => absurd h hmay⟩

/-- Asking for the Leases changes no list. -/
theorem register_listingServed (ns : String) (key : ServiceKey) (b : PruneScene) (e : PrunePass) :
    (b.listingServed ns key e).1 = (b.register.written e.since).written (e.others 0) := by
  unfold listingServed IngressRegister.serveAt
  split
  · rcases IngressRegister.serve_cases ((b.register.written e.since).written (e.others 0))
      { method := .get, path := leasesPath ns, body := none } (e.replies 0).how with hsame | ⟨patch, hmethod, -⟩
    · exact hsame
    · cases hmethod
  · rfl

/-! ## What the bound is about -/

/-- A round that begins in time, sees the Lease of its own node live and the lost node's as it was written last, and
    corrects the list, while the others do not add the address again. -/
structure Attends (w : Instant) (last : ListedLease) (ip ns nodeName : String) (key : ServiceKey) (b : PruneScene)
    (e : PrunePass) (listed : List ListedLease) : Prop where
  soon : b.loop.observedAt e.round ≤ b.began + pruneIntervalMax
  listing : b.listing ns key e = .ok listed
  names : (listed.map (·.name)).Nodup
  own : (b.loop.observed e.round listed).isLive (leaseName nodeName) (b.loop.passAt e.round) = true
  lost : w < b.loop.observedAt e.round → listedAs listed last.name = some last
  tracked : key ∈ e.round.keys
  corrected : key ∉ (b.outcome ns nodeName key e).2.2
  since : w < b.loop.clock → IngressRegister.Withhold ip e.since
  others : w < b.loop.observedAt e.round → ∀ n, IngressRegister.Withhold ip (e.others n)

/-- Once the node is lost, no other Lease carries the address. -/
def Alone (w : Instant) (last : ListedLease) (ip : String) (b : PruneScene) (e : PrunePass)
    (listed : List ListedLease) : Prop :=
  w < b.loop.observedAt e.round → ∀ lease ∈ listed, ip ∈ lease.ips → lease.name = last.name

/-- The process has run since `s₀`, and reads a clock that does not go back. -/
structure Timely (s₀ : Instant) (b : PruneScene) : Prop where
  started : b.loop.tracker.started = s₀
  began : b.began ≤ b.loop.clock
  changedAt : ∀ name o, b.loop.tracker.leases.lookup name = some o → o.changedAt ≤ b.loop.clock

theorem timely_start (s₀ : Instant) (r : IngressRegister) : (start s₀ r).Timely s₀ :=
  ⟨rfl, Nat.le_refl _, fun _ _ h => nomatch h⟩

theorem Timely.step (h : b.Timely s₀) (hlisting : b.listing ns key e = .ok listed) :
    (b.step ns nodeName key e).Timely s₀ := by
  obtain ⟨htracker, hclock, -⟩ := outcome_of_listed nodeName hlisting
  refine ⟨?_, ?_, ?_⟩
  · show (b.outcome ns nodeName key e).2.1.tracker.started = s₀
    rw [htracker]
    exact h.started
  · show b.loop.observedAt e.round ≤ (b.outcome ns nodeName key e).2.1.clock
    rw [hclock]
    exact Nat.le_add_right _ _
  · intro name o ho
    change (b.outcome ns nodeName key e).2.1.tracker.leases.lookup name = some o at ho
    show o.changedAt ≤ (b.outcome ns nodeName key e).2.1.clock
    rw [htracker] at ho
    rw [hclock]
    exact Nat.le_trans (LeaseTracker.changedAt_observe_le h.changedAt (Nat.le_add_right _ _) ho)
      (Nat.le_add_right _ _)

/-- A round long enough after the start, with its own Lease live, comes to its pass. -/
theorem Attends.mayPrune (h : Attends w last ip ns nodeName key b e listed) (hb : b.Timely s₀)
    (hwarm : s₀ + leaseDuration ≤ b.loop.observedAt e.round) :
    (b.loop.observed e.round listed).mayPrune (leaseName nodeName) (b.loop.passAt e.round) = true := by
  refine Bool.and_eq_true_iff.mpr ⟨decide_eq_true ?_, h.own⟩
  show leaseDuration ≤ b.loop.passAt e.round - b.loop.tracker.started
  have hpass : b.loop.observedAt e.round ≤ b.loop.passAt e.round := Nat.le_add_right _ _
  have hstarted := hb.started
  unfold Instant at *
  omega

/-- **A pass that finds the address without a live Lease**: the address is suspected from then on or listed no more,
    and a suspect is gone. -/
theorem Attends.settled (h : Attends w last ip ns nodeName key b e listed) (hw : w < b.loop.observedAt e.round)
    (hmay : (b.loop.observed e.round listed).mayPrune (leaseName nodeName) (b.loop.passAt e.round) = true)
    (hdead : isLiveIp (b.loop.observed e.round listed).leases (b.loop.passAt e.round) ip = false) :
    (ip ∈ b.loop.suspects.previous → Unlisted ip (b.step ns nodeName key e).register.ingress) ∧
      (w < b.loop.clock → Unlisted ip b.register.ingress →
        Unlisted ip (b.step ns nodeName key e).register.ingress) ∧
      (ip ∈ (b.step ns nodeName key e).loop.suspects.previous ∨
        Unlisted ip (b.step ns nodeName key e).register.ingress) := by
  obtain ⟨-, -, hpassed⟩ := outcome_of_listed nodeName h.listing
  obtain ⟨hregister, hsuspects, hlogged⟩ := hpassed hmay
  have hmoves : ∀ n (r : IngressRegister), True →
      IngressRegister.MovesWithout ip r ((e.turns (n + 1)).meanwhile r) := fun n r _ =>
    ⟨r.moves_written _, IngressRegister.unlisted_written (h.others hw (n + 1))⟩
  obtain ⟨-, hgrows, hunlisted, hsettled⟩ := (PruneLoop.safe_pruneServices_settled hdead key e.round.keys
    b.loop.suspects (b.listingServed ns key e).1).finish (fun n => e.turns (n + 1)) (fun _ => True) hmoves
    (fun _ _ _ => trivial) (fun _ _ _ _ _ => trivial) trivial
  have hcorrected := h.corrected
  rw [hlogged] at hcorrected
  obtain ⟨hprevious, hcurrent⟩ := hsettled h.tracked hcorrected
  show (_ → Unlisted ip (b.outcome ns nodeName key e).1.ingress) ∧
    (_ → _ → Unlisted ip (b.outcome ns nodeName key e).1.ingress) ∧
    (ip ∈ (b.outcome ns nodeName key e).2.1.suspects.previous ∨ Unlisted ip (b.outcome ns nodeName key e).1.ingress)
  rw [hregister, hsuspects]
  refine ⟨fun hip => hprevious (hgrows.1.symm ▸ hip), fun hclock hlist => hunlisted ?_, hcurrent⟩
  rw [register_listingServed]
  exact IngressRegister.unlisted_written (h.others hw 0) (IngressRegister.unlisted_written (h.since hclock) hlist)

/-! ## The bound -/

/-- Before `D`, or the address is listed no more, or it is suspected and one round more takes it away. -/
def Fading (ip : String) (D : Instant) (b : PruneScene) : Prop :=
  b.began < D ∨ (D ≤ b.began ∧ Unlisted ip b.register.ingress) ∨
    (D ≤ b.began ∧ b.began < D + pruneIntervalMax ∧ ip ∈ b.loop.suspects.previous)

/-- If no Lease with the address is live from `D` on, the address fades from `D` on. -/
theorem Fading.step {D : Instant} (h : b.Fading ip D) (hb : b.Timely s₀) (hw : w < D) (hD : s₀ + leaseDuration ≤ D)
    (he : Attends w last ip ns nodeName key b e listed)
    (hdead : D ≤ b.loop.observedAt e.round →
      isLiveIp (b.loop.observed e.round listed).leases (b.loop.passAt e.round) ip = false) :
    (b.step ns nodeName key e).Fading ip D := by
  by_cases hbefore : b.loop.observedAt e.round < D
  · exact Or.inl hbefore
  have hafter : D ≤ b.loop.observedAt e.round := Nat.le_of_not_lt hbefore
  have hmay := he.mayPrune hb (Nat.le_trans hD hafter)
  obtain ⟨hprevious, hunlisted, hsettled⟩ := he.settled (Nat.lt_of_lt_of_le hw hafter) hmay (hdead hafter)
  rcases h with hearly | ⟨hlate, hgone⟩ | ⟨-, -, hsuspect⟩
  · rcases hsettled with hsuspect | hgone
    · exact Or.inr (Or.inr ⟨hafter, Nat.lt_of_le_of_lt he.soon (Nat.add_lt_add_right hearly _), hsuspect⟩)
    · exact Or.inr (Or.inl ⟨hafter, hgone⟩)
  · have hclock : w < b.loop.clock := Nat.lt_of_lt_of_le hw (Nat.le_trans hlate hb.began)
    exact Or.inr (Or.inl ⟨hafter, hunlisted hclock hgone⟩)
  · exact Or.inr (Or.inl ⟨hafter, hprevious hsuspect⟩)

theorem Fading.unlisted {D : Instant} (h : b.Fading ip D) (hlate : D + pruneIntervalMax ≤ b.began) :
    Unlisted ip b.register.ingress := by
  rcases h with hearly | ⟨-, hgone⟩ | ⟨-, hearly, -⟩
  · exact absurd (Nat.le_trans (Nat.le_add_right _ _) hlate) (Nat.not_le_of_lt hearly)
  · exact hgone
  · exact absurd hlate (Nat.not_le_of_lt hearly)

/-- No round since the last write, or the Lease was last seen to change within a round after it. -/
def Noticed (w s₀ : Instant) (last : ListedLease) (b : PruneScene) : Prop :=
  b.began ≤ max w s₀ ∨ (w < b.began ∧ ∃ o, b.loop.tracker.leases.lookup last.name = some o ∧
    o.renewTime = last.renewTime ∧ o.changedAt ≤ max w s₀ + pruneIntervalMax)

/-- What is observed of the lost node's Lease. -/
theorem noticed_after (h : b.Noticed w s₀ last) (hb : b.Timely s₀) (he : Attends w last ip ns nodeName key b e listed)
    (hw : w < b.loop.observedAt e.round) :
    ∃ o, (b.loop.observed e.round listed).leases.lookup last.name = some o ∧ o.renewTime = last.renewTime ∧
      o.ips = last.ips ∧ o.changedAt ≤ max w s₀ + pruneIntervalMax := by
  have hobserved := b.loop.tracker.lookup_observe listed (b.loop.observedAt e.round) last.name
  rw [he.lost hw] at hobserved
  obtain ⟨o, ho, hobserves⟩ := hobserved
  refine ⟨o, ho, hobserves.renewTime, hobserves.ips, ?_⟩
  rcases h with hearly | ⟨-, old, hold, hsame, hchanged⟩
  · -- the first round after the write
    have hnow := LeaseTracker.changedAt_observe_le hb.changedAt (Nat.le_add_right _ _) ho
    exact Nat.le_trans hnow (Nat.le_trans he.soon (Nat.add_le_add_right hearly _))
  · rw [hobserves.once he.names]
    unfold LeaseTracker.changedAt
    rw [hold]
    dsimp only
    rw [if_pos hsame]
    exact hchanged

theorem Noticed.step (h : b.Noticed w s₀ last) (hb : b.Timely s₀) (he : Attends w last ip ns nodeName key b e listed) :
    (b.step ns nodeName key e).Noticed w s₀ last := by
  by_cases hw : w < b.loop.observedAt e.round
  · obtain ⟨o, ho, hrenew, -, hchanged⟩ := noticed_after h hb he hw
    obtain ⟨htracker, -, -⟩ := outcome_of_listed nodeName he.listing
    refine Or.inr ⟨hw, o, ?_, hrenew, hchanged⟩
    show (b.outcome ns nodeName key e).2.1.tracker.leases.lookup last.name = some o
    rw [htracker]
    exact ho
  · exact Or.inl (Nat.le_trans (Nat.le_of_not_lt hw) (Nat.le_max_left _ _))

/-- Once the node is lost, what carries its address is its Lease. -/
theorem carried_by_lost (he : Attends w last ip ns nodeName key b e listed) (halone : Alone w last ip b e listed)
    (hw : w < b.loop.observedAt e.round) {name : String} {o : ObservedLease}
    (ho : (b.loop.observed e.round listed).leases.lookup name = some o) (hip : ip ∈ o.ips) :
    name = last.name ∧ ip ∈ last.ips := by
  obtain ⟨lease, hlease, hobserves⟩ := LeaseTracker.listed_of_observed ho
  obtain ⟨hmem, rfl⟩ := name_of_listedAs hlease
  rw [hobserves.ips] at hip
  have hname := halone hw lease hmem hip
  have hlast := he.lost hw
  rw [← hname, hlease] at hlast
  exact ⟨hname, Option.some_inj.mp hlast ▸ hip⟩

theorem isLiveIp_iff {leases : Table String ObservedLease} {now : Instant} :
    isLiveIp leases now ip = true ↔ ∃ name o, leases.lookup name = some o ∧ o.isLive now = true ∧ ip ∈ o.ips := by
  simp only [isLiveIp, List.any_eq_true, Table.mem_values, Bool.and_eq_true, List.contains_iff_mem]
  exact ⟨fun ⟨o, ⟨name, ho⟩, h⟩ => ⟨name, o, ho, h⟩, fun ⟨name, o, ho, h⟩ => ⟨o, ⟨name, ho⟩, h⟩⟩

/-- The Lease of a node that died silently has expired four rounds after its last write. -/
theorem dead_of_noticed (h : b.Noticed w s₀ last) (hb : b.Timely s₀) (he : Attends w last ip ns nodeName key b e listed)
    (halone : Alone w last ip b e listed)
    (hlate : max w s₀ + pruneIntervalMax + leaseDuration ≤ b.loop.observedAt e.round) :
    isLiveIp (b.loop.observed e.round listed).leases (b.loop.passAt e.round) ip = false := by
  have hpass : b.loop.observedAt e.round ≤ b.loop.passAt e.round := Nat.le_add_right _ _
  have hw : w < b.loop.observedAt e.round := by
    have hduration : 0 < leaseDuration := by decide
    unfold Instant at *
    omega
  refine Bool.eq_false_iff.mpr fun hlive => ?_
  obtain ⟨name, o, ho, hlive, hip⟩ := isLiveIp_iff.mp hlive
  obtain ⟨rfl, -⟩ := carried_by_lost he halone hw ho hip
  obtain ⟨o', ho', -, -, hchanged⟩ := noticed_after h hb he hw
  rw [ho] at ho'
  cases ho'
  have hlt : b.loop.passAt e.round - o.changedAt < leaseDuration := of_decide_eq_true hlive
  unfold Instant at *
  omega

/-- A node that withdrew its addresses carries none. -/
theorem dead_of_withdrawn (he : Attends w last ip ns nodeName key b e listed) (halone : Alone w last ip b e listed)
    (hw : w < b.loop.observedAt e.round) (hlast : last.ips = []) :
    isLiveIp (b.loop.observed e.round listed).leases (b.loop.passAt e.round) ip = false := by
  refine Bool.eq_false_iff.mpr fun hlive => ?_
  obtain ⟨name, o, ho, -, hip⟩ := isLiveIp_iff.mp hlive
  obtain ⟨-, hcarried⟩ := carried_by_lost he halone hw ho hip
  rw [hlast] at hcarried
  cases hcarried

/-- A lost node's address is listed no more once the bound is over, as long as no other Lease carries it. -/
theorem lost_node_pruned (ns nodeName : String) (key : ServiceKey) (w s₀ : Instant) (last : ListedLease) (ip : String)
    (r : IngressRegister) {es : List PrunePass}
    (h : Run.Along (step ns nodeName key) (fun b e => ∃ listed, Attends w last ip ns nodeName key b e listed ∧
      Alone w last ip b e listed) (start s₀ r) es) :
    ∀ before e rest, es = before ++ e :: rest →
      (max w s₀ + maxPruneLatency false < (before.foldl (step ns nodeName key) (start s₀ r)).loop.observedAt e.round →
        Unlisted ip ((before ++ [e]).foldl (step ns nodeName key) (start s₀ r)).register.ingress) ∧
      (last.ips = [] → max (w + maxPruneLatency true) (s₀ + leaseDuration + 2 * pruneIntervalMax) <
          (before.foldl (step ns nodeName key) (start s₀ r)).loop.observedAt e.round →
        Unlisted ip ((before ++ [e]).foldl (step ns nodeName key) (start s₀ r)).register.ingress) := by
  rintro before e rest rfl
  have hrun : Run.Along (step ns nodeName key) (fun b e => ∃ listed, Attends w last ip ns nodeName key b e listed ∧
      Alone w last ip b e listed) (start s₀ r) (before ++ [e]) := by
    rw [← List.singleton_append, ← List.append_assoc] at h
    exact (Run.along_append.mp h).1
  have hbegan : ((before ++ [e]).foldl (step ns nodeName key) (start s₀ r)).began =
      (before.foldl (step ns nodeName key) (start s₀ r)).loop.observedAt e.round := by
    rw [List.foldl_append]
    rfl
  constructor
  · intro hlate
    have hkeep : ∀ b e, (b.Timely s₀ ∧ b.Noticed w s₀ last ∧
          b.Fading ip (max w s₀ + pruneIntervalMax + leaseDuration)) →
        (∃ listed, Attends w last ip ns nodeName key b e listed ∧ Alone w last ip b e listed) →
        (b.step ns nodeName key e).Timely s₀ ∧ (b.step ns nodeName key e).Noticed w s₀ last ∧
          (b.step ns nodeName key e).Fading ip (max w s₀ + pruneIntervalMax + leaseDuration) := by
      rintro b e ⟨hb, hnoticed, hfading⟩ ⟨listed, he, halone⟩
      refine ⟨hb.step he.listing, hnoticed.step hb he, hfading.step hb ?_ ?_ he (dead_of_noticed hnoticed hb he halone)⟩
      · have hduration : 0 < leaseDuration := by decide
        unfold Instant at *
        omega
      · unfold Instant at *
        omega
    have hend := Run.Along.inv hkeep hrun ⟨timely_start s₀ r, Or.inl (Nat.le_max_right w s₀), Or.inl ?_⟩
    · refine hend.2.2.unlisted ?_
      rw [hbegan]
      simp only [maxPruneLatency, Bool.false_eq_true, if_false] at hlate
      unfold Instant at *
      omega
    · show s₀ < max w s₀ + pruneIntervalMax + leaseDuration
      have hduration : 0 < leaseDuration := by decide
      unfold Instant at *
      omega
  · intro hlast hlate
    have hkeep : ∀ b e, (b.Timely s₀ ∧ b.Fading ip (max w (s₀ + leaseDuration) + 1)) →
        (∃ listed, Attends w last ip ns nodeName key b e listed ∧ Alone w last ip b e listed) →
        (b.step ns nodeName key e).Timely s₀ ∧
          (b.step ns nodeName key e).Fading ip (max w (s₀ + leaseDuration) + 1) := by
      rintro b e ⟨hb, hfading⟩ ⟨listed, he, halone⟩
      have hw : w < max w (s₀ + leaseDuration) + 1 := Nat.lt_succ_of_le (Nat.le_max_left _ _)
      refine ⟨hb.step he.listing, hfading.step hb hw ?_ he fun hD =>
        dead_of_withdrawn he halone (Nat.lt_of_lt_of_le hw hD) hlast⟩
      exact Nat.le_succ_of_le (Nat.le_max_right _ _)
    have hend := Run.Along.inv hkeep hrun ⟨timely_start s₀ r, Or.inl ?_⟩
    · refine hend.2.unlisted ?_
      rw [hbegan]
      simp only [maxPruneLatency, if_true] at hlate
      have hinterval : 0 < pruneIntervalMax := by decide
      unfold Instant at *
      omega
    · show s₀ < max w (s₀ + leaseDuration) + 1
      unfold Instant at *
      omega

/-! ## A node that dies, alone and not -/

/-- A Lease as it is listed. -/
def leaseItem (node renewTime ips : String) : Value :=
  .obj [("metadata", .obj [("name", .str (leaseName node)), ("annotations", .obj [( ipsAnnotation, .str ips)])]),
    ("spec", .obj [("renewTime", .str renewTime)])]

/-- A round 15 s after the one before, in which nobody else writes and everything is served. -/
def quietPass (items : List Value) : PrunePass where
  since := []
  round := { slept := pruneIntervalMax, took := 0, keys := [⟨"default", "web"⟩] }
  others _ := []
  replies _ := ⟨.served, some ⟨200, some (.obj [("items", .arr items)])⟩⟩

/-- Six such rounds of node `a` after the last write of node `b`, with the Leases of others. -/
def roundsAfter (others : String → List Value) : List PrunePass :=
  ["1", "2", "3", "4", "5", "6"].map fun renewTime =>
    quietPass (leaseItem "a" renewTime "10.0.0.1" :: leaseItem "b" "0" "10.0.0.9" :: others renewTime)

/-- The last write of node `b`. -/
def lastOfB : ListedLease := ⟨leaseName "b", "0", ["10.0.0.9"]⟩

/-- What is left to check of a quiet round. -/
theorem attends_quiet {b : PruneScene} {items : List Value} {listed : List ListedLease}
    (hbegan : b.began = b.loop.clock) (hlisting : b.listing "beep" ⟨"default", "web"⟩ (quietPass items) = .ok listed)
    (hnames : (listed.map (·.name)).Nodup)
    (hown : (b.loop.observed (quietPass items).round listed).isLive (leaseName "a")
      (b.loop.passAt (quietPass items).round) = true)
    (hlost : listedAs listed (leaseName "b") = some lastOfB)
    (hcorrected : (b.outcome "beep" "a" ⟨"default", "web"⟩ (quietPass items)).2.2 = []) :
    Attends 0 lastOfB "10.0.0.9" "beep" "a" ⟨"default", "web"⟩ b (quietPass items) listed where
  soon := by
    rw [hbegan]
    exact Nat.le_refl _
  listing := hlisting
  names := hnames
  own := hown
  lost _ := hlost
  tracked := List.mem_singleton_self _
  corrected := by
    rw [hcorrected]
    exact List.not_mem_nil
  since _ _ hf := nomatch hf
  others _ _ _ hf := nomatch hf

/-- The address of node `b` is gone with the round at 90 s. -/
theorem lost_node_pruned_after_90s :
    Unlisted "10.0.0.9" ((roundsAfter fun _ => []).foldl (step "beep" "a" ⟨"default", "web"⟩)
      (start 0 ⟨1, [ipEntry "10.0.0.9"]⟩)).register.ingress := by
  have halone : ∀ b e renewTime, Alone 0 lastOfB "10.0.0.9" b e [⟨leaseName "a", renewTime, ["10.0.0.1"]⟩, lastOfB] := by
    intro b e renewTime _ lease hlease hip
    rcases List.mem_cons.mp hlease with rfl | hlease
    · simp at hip
    · rw [List.mem_singleton.mp hlease]
  have hrun : Run.Along (step "beep" "a" ⟨"default", "web"⟩) (fun b e => ∃ listed,
      Attends 0 lastOfB "10.0.0.9" "beep" "a" ⟨"default", "web"⟩ b e listed ∧ Alone 0 lastOfB "10.0.0.9" b e listed)
      (start 0 ⟨1, [ipEntry "10.0.0.9"]⟩) (roundsAfter fun _ => []) :=
    ⟨⟨_, attends_quiet rfl rfl (by decide) rfl rfl rfl, halone _ _ "1"⟩,
      ⟨_, attends_quiet rfl rfl (by decide) rfl rfl rfl, halone _ _ "2"⟩,
      ⟨_, attends_quiet rfl rfl (by decide) rfl rfl rfl, halone _ _ "3"⟩,
      ⟨_, attends_quiet rfl rfl (by decide) rfl rfl rfl, halone _ _ "4"⟩,
      ⟨_, attends_quiet rfl rfl (by decide) rfl rfl rfl, halone _ _ "5"⟩,
      ⟨_, attends_quiet rfl rfl (by decide) rfl rfl rfl, halone _ _ "6"⟩, trivial⟩
  exact (lost_node_pruned "beep" "a" ⟨"default", "web"⟩ 0 0 lastOfB "10.0.0.9" ⟨1, [ipEntry "10.0.0.9"]⟩ hrun
    ((roundsAfter fun _ => []).take 5) _ [] rfl).1 (by decide)

/-- Node `c` has taken the address over and renews its Lease: it stays listed after the bound. -/
theorem listed_while_carried :
    Run.Along (step "beep" "a" ⟨"default", "web"⟩)
        (fun b e => ∃ listed, Attends 0 lastOfB "10.0.0.9" "beep" "a" ⟨"default", "web"⟩ b e listed)
        (start 0 ⟨1, [ipEntry "10.0.0.9"]⟩) (roundsAfter fun renewTime => [leaseItem "c" renewTime "10.0.0.9"]) ∧
      "10.0.0.9" ∈ lastOfB.ips ∧
      max 0 0 + maxPruneLatency false < ((roundsAfter fun renewTime => [leaseItem "c" renewTime "10.0.0.9"]).foldl
        (step "beep" "a" ⟨"default", "web"⟩) (start 0 ⟨1, [ipEntry "10.0.0.9"]⟩)).began ∧
      ¬ Unlisted "10.0.0.9" ((roundsAfter fun renewTime => [leaseItem "c" renewTime "10.0.0.9"]).foldl
        (step "beep" "a" ⟨"default", "web"⟩) (start 0 ⟨1, [ipEntry "10.0.0.9"]⟩)).register.ingress := by
  refine ⟨⟨⟨_, attends_quiet rfl rfl (by decide) rfl rfl rfl⟩,
      ⟨_, attends_quiet rfl rfl (by decide) rfl rfl rfl⟩,
      ⟨_, attends_quiet rfl rfl (by decide) rfl rfl rfl⟩,
      ⟨_, attends_quiet rfl rfl (by decide) rfl rfl rfl⟩,
      ⟨_, attends_quiet rfl rfl (by decide) rfl rfl rfl⟩,
      ⟨_, attends_quiet rfl rfl (by decide) rfl rfl rfl⟩, trivial⟩,
    List.mem_singleton_self _, by decide, fun h => ?_⟩
  have hlist : ((roundsAfter fun renewTime => [leaseItem "c" renewTime "10.0.0.9"]).foldl
      (step "beep" "a" ⟨"default", "web"⟩) (start 0 ⟨1, [ipEntry "10.0.0.9"]⟩)).register.ingress =
      [ipEntry "10.0.0.9"] := rfl
  rw [hlist] at h
  exact h _ (List.mem_singleton_self _) rfl

end PruneScene

end Beep
