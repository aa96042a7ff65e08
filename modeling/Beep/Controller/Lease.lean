import Beep.Controller.Ingress
import Beep.Lib.Table
import Mathlib.Data.Finset.Union

/-!
# `Controller.Lease` — which nodes are alive

`controller/src/lease.rs`: every controller renews one Lease that carries its node's addresses, and every controller
watches the Leases of all (`LeaseTracker`). A Lease is live while its `renewTime` keeps changing as this process sees
it; an address that no live Lease carries is dropped from an ingress list once it has been found so on two passes
(`PruneSuspects`, `confirmedPrunedIngress`).

An `Instant` is a number of nanoseconds of the process's own clock.
-/

namespace Beep

open Json (Value)

/-- `Instant`. -/
abbrev Instant := Nat

/-- `Duration::from_secs`. -/
def fromSecs (secs : Nat) : Nat := secs * 1000000000

/-- `LEASE_DURATION`. -/
def leaseDuration : Nat := fromSecs 40

/-- `LEASE_RENEW`. -/
def leaseRenew : Nat := fromSecs 10

/-- `PRUNE_JITTER_MAX`. -/
def pruneJitterMax : Nat := fromSecs 5

/-- `PRUNE_INTERVAL_MAX`. -/
def pruneIntervalMax : Nat := leaseRenew + pruneJitterMax

/-- `max_prune_latency`. -/
def maxPruneLatency (graceful : Bool) : Nat :=
  if graceful then 2 * pruneIntervalMax else leaseDuration + 3 * pruneIntervalMax

/-- `lease_name`. -/
def leaseName (node : String) : String := "beep-node-" ++ node

def ipsAnnotation : String := "beep.litehop.io/node-ips"

/-- `lease_body`. -/
def leaseBody (ns node : String) (ips : List IpAddr) (renewTime : String) : Value :=
  .obj
    [("apiVersion", .str "coordination.k8s.io/v1"),
      ("kind", .str "Lease"),
      ("metadata", .obj
        [("name", .str (leaseName node)),
          ("namespace", .str ns),
          ("labels", .obj [("app.kubernetes.io/component", .str "node-lease")]),
          ("annotations", .obj [Prod.mk ipsAnnotation (.str (",".intercalate (ips.map IpAddr.display)))])]),
      ("spec", .obj
        [("holderIdentity", .str node),
          ("leaseDurationSeconds", .uint (UInt64.ofNat (leaseDuration / fromSecs 1))),
          ("renewTime", .str renewTime)])]

/-! ## Leases as they are listed -/

/-- `ListedLease`. -/
structure ListedLease where
  name : String
  renewTime : String
  ips : List String
  deriving DecidableEq

/-- One item of a Lease list. -/
def parseLease (item : Value) : Option ListedLease := do
  let name ← ((item.get "metadata").get "name").asStr
  let renewTime ← ((item.get "spec").get "renewTime").asStr
  let annotation := ((((item.get "metadata").get "annotations").get ipsAnnotation).asStr).getD ""
  let ips := (( annotation.toList.splitOn ',').map String.ofList).filter (· ≠ "")
  return { name, renewTime, ips }

/-- `parse_lease_list`. -/
def parseLeaseList (body : Option Value) : Except String (List ListedLease) :=
  match body with
  | none => .error "parse Lease list response"
  | some list => .ok (((list.get "items").asArray.getD []).filterMap parseLease)

/-- The path of the Leases. -/
def leasesPath (ns : String) : String :=
  s!"/apis/coordination.k8s.io/v1/namespaces/{ns}/leases?labelSelector=app.kubernetes.io%2Fcomponent%3Dnode-lease"

/-- What the answer to the listing says. -/
def readLeaseList (path : String) : Option ApiResponse → Except String (List ListedLease)
  | none => .error s!"GET {path}"
  | some response =>
      if HttpStatus.isSuccess response.status then parseLeaseList response.body
      else .error s!"GET {path} returned HTTP {response.status}"

/-- `list_leases`. -/
def listLeases (ns : String) : ApiTask (Except String (List ListedLease)) :=
  readLeaseList (leasesPath ns) <$> Async.request { method := .get, path := leasesPath ns, body := none }

/-! ## Leases as they are observed -/

/-- `ObservedLease`. -/
structure ObservedLease where
  renewTime : String
  ips : List String
  changedAt : Instant

/-- `ObservedLease::is_live`. -/
def ObservedLease.isLive (l : ObservedLease) (now : Instant) : Bool := decide (now - l.changedAt < leaseDuration)

/-- `LeaseTracker`. -/
structure LeaseTracker where
  started : Instant
  leases : Table String ObservedLease

namespace LeaseTracker

/-- `LeaseTracker::new`. -/
def new (now : Instant) : LeaseTracker := { started := now, leases := ∅ }

/-- When a listed Lease last changed; an unchanged `renewTime` keeps the time of its last observation. -/
def changedAt (previous : Table String ObservedLease) (lease : ListedLease) (now : Instant) : Instant :=
  match previous.lookup lease.name with
  | some old => if old.renewTime = lease.renewTime then old.changedAt else now
  | none => now

/-- One Lease of a listing: it is taken out of the previous ones and put into the new ones. -/
def observeOne (now : Instant) (acc : Table String ObservedLease × Table String ObservedLease) (lease : ListedLease) :
    Table String ObservedLease × Table String ObservedLease :=
  (acc.1.erase lease.name, acc.2.insert lease.name
    { renewTime := lease.renewTime, ips := lease.ips, changedAt := changedAt acc.1 lease now })

/-- `LeaseTracker::observe`. -/
def observe (t : LeaseTracker) (listed : List ListedLease) (now : Instant) : LeaseTracker :=
  { t with leases := (listed.foldl (observeOne now) (t.leases, ∅)).2 }

/-- `LeaseTracker::is_live`. -/
def isLive (t : LeaseTracker) (name : String) (now : Instant) : Bool := (t.leases.lookup name).any (·.isLive now)

/-- `LeaseTracker::warmed_up`. -/
def warmedUp (t : LeaseTracker) (now : Instant) : Bool := decide (leaseDuration ≤ now - t.started)

/-- `may_prune`. -/
def mayPrune (t : LeaseTracker) (ownLease : String) (now : Instant) : Bool := t.warmedUp now && t.isLive ownLease now

end LeaseTracker

/-! ## What is pruned -/

/-- `is_live_ip`. -/
def isLiveIp (leases : Table String ObservedLease) (now : Instant) (ip : String) : Bool :=
  leases.values.any fun l => l.isLive now && l.ips.contains ip

/-- `PruneSuspects`. -/
structure PruneSuspects where
  previous : Finset String := ∅
  current : Finset String := ∅

namespace PruneSuspects

/-- `PruneSuspects::end_pass`. -/
def endPass (s : PruneSuspects) : PruneSuspects := { previous := s.current, current := ∅ }

/-- `PruneSuspects::reset`. -/
def reset (_ : PruneSuspects) : PruneSuspects := {}

end PruneSuspects

/-- An entry whose address no live Lease carries. -/
def isUnmatched (leases : Table String ObservedLease) (now : Instant) (entry : Value) : Bool :=
  (entryIp entry).any fun ip => !isLiveIp leases now ip

/-- An entry that is unmatched now and was on the pass before. -/
def isConfirmed (leases : Table String ObservedLease) (now : Instant) (suspects : PruneSuspects) (entry : Value) :
    Bool :=
  isUnmatched leases now entry && (entryIp entry).any fun ip => decide (ip ∈ suspects.previous)

/-- `confirmed_pruned_ingress`: the corrected list, and the suspects with the ones found now. -/
def confirmedPrunedIngress (existing : List Value) (leases : Table String ObservedLease) (now : Instant)
    (suspects : PruneSuspects) : Option (List Value) × PruneSuspects :=
  let kept := existing.filter fun entry => !isConfirmed leases now suspects entry
  let found := (existing.filter (isUnmatched leases now)).filterMap entryIp
  (if kept.length != existing.length then some kept else none,
    { suspects with current := suspects.current ∪ found.toFinset })

theorem isConfirmed_iff {leases : Table String ObservedLease} {now : Instant} {suspects : PruneSuspects} {entry : Value} :
    isConfirmed leases now suspects entry = true ↔
      ∃ ip, entryIp entry = some ip ∧ isLiveIp leases now ip = false ∧ ip ∈ suspects.previous := by
  unfold isConfirmed isUnmatched
  cases entryIp entry with
  | none => simp
  | some ip => simp

/-- The list that a pass leaves, or finds right, is the old one without what is confirmed. -/
theorem getD_confirmedPruned (existing : List Value) (leases : Table String ObservedLease) (now : Instant)
    (suspects : PruneSuspects) : (confirmedPrunedIngress existing leases now suspects).1.getD existing =
      existing.filter fun entry => !isConfirmed leases now suspects entry := by
  unfold confirmedPrunedIngress
  dsimp only
  split
  · rfl
  · rename_i hlen
    have hkept : existing.filter (fun entry => !isConfirmed leases now suspects entry) = existing :=
      List.filter_sublist.eq_of_length (by simpa using hlen)
    rw [hkept]
    rfl

/-- What a pass drops had no live Lease, and was suspected before. -/
theorem unmatched_of_dropped {existing : List Value} {leases : Table String ObservedLease} {now : Instant}
    {suspects : PruneSuspects} {entry : Value} (hentry : entry ∈ existing)
    (hgone : entry ∉ (confirmedPrunedIngress existing leases now suspects).1.getD existing) :
    ∃ ip, entryIp entry = some ip ∧ isLiveIp leases now ip = false ∧ ip ∈ suspects.previous := by
  rw [getD_confirmedPruned, List.mem_filter, not_and] at hgone
  exact isConfirmed_iff.mp (by simpa using hgone hentry)

/-! ## What is observed -/

/-- The Lease of a name in a listing. -/
def listedAs (listed : List ListedLease) (name : String) : Option ListedLease :=
  (listed.filter fun lease => lease.name = name).getLast?

theorem listedAs_append (listed : List ListedLease) (lease : ListedLease) (name : String) :
    listedAs (listed ++ [lease]) name = if lease.name = name then some lease else listedAs listed name := by
  unfold listedAs
  rw [List.filter_append]
  split
  · rename_i h
    rw [List.filter_cons_of_pos (by simpa using h)]
    simp
  · rename_i h
    rw [List.filter_cons_of_neg (by simpa using h), List.filter_nil, List.append_nil]

theorem name_of_listedAs {listed : List ListedLease} {name : String} {lease : ListedLease}
    (h : listedAs listed name = some lease) : lease ∈ listed ∧ lease.name = name := by
  have hmem := List.mem_filter.mp (List.mem_of_getLast? h)
  exact ⟨hmem.1, by simpa using hmem.2⟩

namespace LeaseTracker

/-- A listed Lease and how it is observed: its last change is now, or the `renewTime` is still the one of the
    observation before; and that is told apart if no name is listed twice. -/
structure Observes (previous : Table String ObservedLease) (listed : List ListedLease) (now : Instant)
    (lease : ListedLease) (o : ObservedLease) : Prop where
  renewTime : o.renewTime = lease.renewTime
  ips : o.ips = lease.ips
  changedAt : o.changedAt = now ∨ ∃ old, previous.lookup lease.name = some old ∧ old.renewTime = lease.renewTime ∧
    o.changedAt = old.changedAt
  once : (listed.map (·.name)).Nodup → o.changedAt = LeaseTracker.changedAt previous lease now

theorem changedAt_cases (previous : Table String ObservedLease) (lease : ListedLease) (now : Instant) :
    changedAt previous lease now = now ∨ ∃ old, previous.lookup lease.name = some old ∧
      old.renewTime = lease.renewTime ∧ changedAt previous lease now = old.changedAt := by
  unfold changedAt
  split
  · rename_i old hold
    split
    · rename_i hsame
      exact Or.inr ⟨old, hold, hsame, rfl⟩
    · exact Or.inl rfl
  · exact Or.inl rfl

/-- **`observe`.** What is observed of a name is the Lease that is listed for it. -/
theorem lookup_observe (t : LeaseTracker) (listed : List ListedLease) (now : Instant) (name : String) :
    match listedAs listed name with
    | some lease => ∃ o, (t.observe listed now).leases.lookup name = some o ∧ Observes t.leases listed now lease o
    | none => (t.observe listed now).leases.lookup name = none := by
  unfold observe
  dsimp only
  -- on the listing, the last Lease first; what is left of the previous ones is what is not listed
  suffices h : (match listedAs listed name with
      | some lease => ∃ o, (listed.foldl (observeOne now) (t.leases, ∅)).2.lookup name = some o ∧
          Observes t.leases listed now lease o
      | none => (listed.foldl (observeOne now) (t.leases, ∅)).2.lookup name = none) ∧
      ∀ name, (listed.foldl (observeOne now) (t.leases, ∅)).1.lookup name =
        if (listedAs listed name).isSome then none else t.leases.lookup name from h.1
  induction listed using List.reverseRecOn with
  | nil => exact ⟨by simp [listedAs], fun _ => rfl⟩
  | append_singleton listed lease ih =>
    rw [List.foldl_append, List.foldl_cons, List.foldl_nil]
    generalize listed.foldl (observeOne now) (t.leases, ∅) = acc at ih ⊢
    obtain ⟨hfound, hleft⟩ := ih
    simp only [listedAs_append, observeOne]
    constructor
    · split_ifs with hname
      · subst hname
        refine ⟨_, AList.lookup_insert _, rfl, rfl, ?_, ?_⟩
        · dsimp only
          rcases changedAt_cases acc.1 lease now with hnow | ⟨old, hold, hsame, hkept⟩
          · exact Or.inl hnow
          · rw [hleft] at hold
            split_ifs at hold
            exact Or.inr ⟨old, hold, hsame, hkept⟩
        · intro hnodup
          rw [List.map_append, List.nodup_append] at hnodup
          have hnone : listedAs listed lease.name = none := by
            cases h : listedAs listed lease.name with
            | none => rfl
            | some other =>
              obtain ⟨hmem, hother⟩ := name_of_listedAs h
              exact absurd hother (hnodup.2.2 _ (List.mem_map_of_mem hmem) _ (by simp))
          have hsame := hleft lease.name
          rw [hnone] at hsame
          dsimp only
          unfold changedAt
          rw [hsame]
          rfl
      · rw [AList.lookup_insert_ne (Ne.symm hname)]
        split at hfound
        · obtain ⟨o, ho, hobserves⟩ := hfound
          refine ⟨o, ho, hobserves.renewTime, hobserves.ips, hobserves.changedAt, fun hnodup => hobserves.once ?_⟩
          rw [List.map_append] at hnodup
          exact hnodup.of_append_left
        · exact hfound
    · intro name'
      rw [Table.lookup_erase_ite, hleft]
      split_ifs <;> simp_all

/-- What is observed was listed. -/
theorem listed_of_observed {t : LeaseTracker} {listed : List ListedLease} {now : Instant} {name : String}
    {o : ObservedLease} (h : (t.observe listed now).leases.lookup name = some o) :
    ∃ lease, listedAs listed name = some lease ∧ Observes t.leases listed now lease o := by
  have hobserved := t.lookup_observe listed now name
  split at hobserved
  · rename_i lease hlease
    obtain ⟨o', ho', hobserves⟩ := hobserved
    rw [h] at ho'
    cases ho'
    exact ⟨lease, hlease, hobserves⟩
  · rw [h] at hobserved
    cases hobserved

/-- No change is observed later than now. -/
theorem changedAt_observe_le {t : LeaseTracker} {clock now : Instant}
    (hclock : ∀ name o, t.leases.lookup name = some o → o.changedAt ≤ clock) (hnow : clock ≤ now)
    {listed : List ListedLease} {name : String} {o : ObservedLease}
    (h : (t.observe listed now).leases.lookup name = some o) : o.changedAt ≤ now := by
  obtain ⟨lease, -, hobserves⟩ := listed_of_observed h
  rcases hobserves.changedAt with hsame | ⟨old, hold, -, hkept⟩
  · exact Nat.le_of_eq hsame
  · rw [hkept]
    exact Nat.le_trans (hclock _ old hold) hnow

end LeaseTracker

end Beep
