import Beep.Controller.Correctness.Relist
import Beep.Controller.Publish

/-!
# `Controller.Correctness.PublishedIngress` — what is listed once all is quiet

Attempts overtake each other, and an old one may be the last to write. What makes up for that is that every write is heard
of, and answered with an attempt that knows the state as it then is. So a tracked Service is always *settled*: its list is
right, or a write of it has not been seen yet, or since some moment all attempts know what is wanted now and one of them
is in flight or failed and on record (`Settled`). Two things can break that, and `Steady` names them. Where all is quiet,
only the first is left (`published_at_quiescence`).
-/

namespace Beep

open Json (Value)
open Objects (Tells)
open Run

variable {localNodeIp : IpAddr}

/-! ## One attempt -/

/-- The object is there, and of the own addresses it lists the desired ones. -/
def Lists (ownIps desiredIps : List IpAddr) (object : Option IngressRegister) : Prop :=
  ∃ r, object = some r ∧ ∀ ip ∈ ownIps, Advertised r.ingress ip ↔ ip ∈ desiredIps

/-- An attempt whose object nobody else writes. -/
def Alone (goal : Option IngressRegister → Prop) (object : Option IngressRegister)
    (t : ApiTask (Except UpdateError Unit)) : Prop :=
  t.Safe serveService Eq (fun _ _ => True) (fun object result => result = .ok () → goal object) object

/-- A GET is answered with a list only if the object is there, and with its own. -/
theorem of_readService_serveService {object : Option IngressRegister} {path version : String} {existing : List Value}
    {how : Serving} (h : readService path (serveService object (getService path) how).2 = .ok (version, existing)) :
    ∃ r, object = some r ∧ existing = r.ingress ∧ (serveService object (getService path) how).1 = some r := by
  cases object with
  | none =>
    cases how with
    | served => cases h
    | lost applied => cases h
    | refused status =>
      have hfailed : HttpStatus.isSuccess status.val = false := status.property
      simp only [serveService, readService, hfailed] at h
      split at h <;> cases h
  | some r =>
    obtain ⟨-, hexisting, hkept⟩ := IngressRegister.of_readService_serve h
    exact ⟨r, rfl, hexisting, congrArg some hkept⟩

/-- Any number of attempts, each on the object as it is by then. -/
theorem safe_attempts (path : String) (ownIps desiredIps : List IpAddr) (attempts : Nat)
    (object : Option IngressRegister) :
    (updateAttempts path (fun existing (_ : Unit) => (mergedIngress existing ownIps desiredIps, ())) attempts ()).Safe
      serveService Eq (fun _ _ => True)
      (fun object result => result.1 = .ok () → Lists ownIps desiredIps object) object := by
  refine safe_updateAttempts_rule (fun _ => True) (fun _ _ _ => trivial) (fun _ => trivial) (fun _ _ _ _ h => nomatch h)
    ?_ ?_ attempts trivial object
  · intro object how version existing _ _ _ _ hread hcompute _
    obtain ⟨r, rfl, rfl, hkept⟩ := of_readService_serveService hread
    rw [hkept]
    refine ⟨r, rfl, fun ip hip => ?_⟩
    have hlisted := advertised_merged r.ingress desiredIps hip
    rwa [(Prod.mk.inj hcompute).1] at hlisted
  · rintro object how version existing _ ingress _ _ _ _ hread hcompute rfl
    obtain ⟨r, rfl, rfl, hkept⟩ := of_readService_serveService hread
    rw [hkept]
    refine ⟨trivial, ?_⟩
    rintro how' _ houtcome rfl
    refine ⟨_, rfl, fun ip hip => ?_⟩
    have hlisted := advertised_merged r.ingress desiredIps hip
    rw [(Prod.mk.inj hcompute).1] at hlisted
    rw [IngressRegister.patchOutcome_serve houtcome]
    exact hlisted

/-- **An attempt** on an object that nobody else writes ends well only with the desired addresses listed. -/
theorem alone_ensureNodeIngress (ns name : String) (ownIps desiredIps : List IpAddr) (object : Option IngressRegister) :
    Alone (Lists ownIps desiredIps) object (ensureNodeIngress ns name ownIps desiredIps) :=
  Async.Safe.map (safe_attempts _ ownIps desiredIps _ object)

/-- To less, the same. -/
theorem Alone.mono {goal goal' : Option IngressRegister → Prop} {object : Option IngressRegister}
    {t : ApiTask (Except UpdateError Unit)} (h : Alone goal object t) (himp : ∀ object, goal object → goal' object) :
    Alone goal' object t :=
  Async.Safe.weaken (fun _ _ h => h) (fun _ _ h hok => himp _ (h hok)) h

/-! ## What an input changes -/

namespace WatchState

variable {s s' : WatchState} {key : ServiceKey}

/-- The keys of the Services that are held. -/
theorem mem_serviceKeys : key ∈ s.serviceKeys ↔ ∃ svc, s.services.lookup key = some svc := Table.mem_keys_iff _ _

/-- And of those with `externalTrafficPolicy: Local`. -/
theorem mem_localPolicyServiceKeys {svc : RawService} (hsvc : s.services.lookup key = some svc)
    (hpolicy : svc.policy = .onlyLocal) : key ∈ s.localPolicyServiceKeys :=
  List.mem_map.mpr ⟨⟨key, svc⟩, List.mem_filter.mpr ⟨AList.mem_lookup_iff.mp hsvc, by simp [hpolicy]⟩, rfl⟩

/-- Another order of the same Nodes apart, the addresses come from the Nodes. -/
theorem ownNodeIps_congr (h : s'.nodeIps = s.nodeIps) : s'.ownNodeIps localNodeIp = s.ownNodeIps localNodeIp := by
  unfold ownNodeIps ownNodeAddrs
  rw [h]

/-- The own fronts depend on the Nodes. -/
theorem ownFronts_congr (h : s'.nodeIps = s.nodeIps) : s'.ownFronts localNodeIp = s.ownFronts localNodeIp := by
  unfold ownFronts ownNodeAddrs
  rw [h]

/-- A Service without `externalTrafficPolicy: Local` is listed on every front of its families. -/
theorem mem_ipsToPublish {svc : RawService} (hsvc : s.services.lookup key = some svc) (hpolicy : svc.policy ≠ .onlyLocal)
    {ip : IpAddr} :
    ip ∈ s.ipsToPublish key localNodeIp ↔ ip ∈ s.ownFronts localNodeIp ∧ svc.frontsFamily (.of ip) = true := by
  have hall : ∀ ip : IpAddr, publishesIngress svc.policy (s.ingressEndpoints key localNodeIp) localNodeIp ip.isIpv4 =
      true := fun ip => if_pos hpolicy
  simp only [ipsToPublish, hsvc, hall, Bool.or_true, List.filter_true, List.mem_filter]

/-- What is wanted of a Service depends on the Service, its slices and the Nodes. -/
theorem ipsToPublish_congr (hsvc : s'.services.lookup key = s.services.lookup key)
    (hslices : s'.slices.lookup key = s.slices.lookup key) (hnodes : s'.nodeIps = s.nodeIps) :
    s'.ipsToPublish key localNodeIp = s.ipsToPublish key localNodeIp := by
  unfold ipsToPublish ingressEndpoints ownNodeAddrs
  rw [hsvc, hslices, hnodes, ownFronts_congr hnodes]

/-- The same is wanted of a Service, of the same addresses. -/
structure SameWish (localNodeIp : IpAddr) (s s' : WatchState) (key : ServiceKey) : Prop where
  own : ∀ ip, ip ∈ s'.ownNodeIps localNodeIp ↔ ip ∈ s.ownNodeIps localNodeIp
  desired : ∀ ip, ip ∈ s'.ipsToPublish key localNodeIp ↔ ip ∈ s.ipsToPublish key localNodeIp

/-- What is wanted of a Service without `externalTrafficPolicy: Local` depends on the Service and the Nodes. -/
theorem sameWish_of_not_local {svc : RawService} (hsvc : s.services.lookup key = some svc)
    (hsame : s'.services.lookup key = s.services.lookup key) (hpolicy : svc.policy ≠ .onlyLocal)
    (hnodes : s'.nodeIps = s.nodeIps) : SameWish localNodeIp s s' key where
  own ip := by rw [ownNodeIps_congr hnodes]
  desired ip := by rw [mem_ipsToPublish (hsame.trans hsvc) hpolicy, mem_ipsToPublish hsvc hpolicy, ownFronts_congr hnodes]

/-! ### Events -/

/-- An event that makes a Service stale is one the parser rejects, for that key. -/
theorem says_of_stale {event : Value} (h : staleIngressKey event = some key) :
    Tells serviceKey event .upsert key ∧ parseService (event.get "object") = none := by
  unfold staleIngressKey at h
  split at h
  · rename_i hkind
    dsimp only at h
    split at h
    · cases h
    · rename_i serviceType htype
      split at h
      · rename_i hstale
        refine ⟨⟨hkind, h⟩, ?_⟩
        unfold parseService
        simp [htype, hstale.1, guard]
      · cases h
  · cases h

/-- A deletion, for the key of its object. -/
theorem says_of_deleted {event : Value} (h : deletedServiceKey event = some key) : Tells serviceKey event .delete key := by
  unfold deletedServiceKey at h
  split at h
  · rename_i hkind
    exact ⟨hkind, h⟩
  · cases h

/-- A Service that is tracked after an event has changed with it, or the event says nothing about it. -/
theorem tracked_applyServiceEvent {event : Value} {svc : RawService}
    (hsvc : (s.applyServiceEvent event).1.services.lookup key = some svc) :
    ((s.applyServiceEvent event).2 = some key ∧ Tells serviceKey event .upsert key ∧
        parseService (event.get "object") = some svc) ∨
      ((∀ kind, ¬ Tells serviceKey event kind key) ∧ s.services.lookup key = some svc) := by
  by_cases hsaid : ∃ kind id, Tells serviceKey event kind id
  · obtain ⟨kind, id, hsaid⟩ := hsaid
    rw [lookup_applyServiceEvent s hsaid] at hsvc
    by_cases hkey : key = id
    · subst hkey
      rw [if_pos rfl] at hsvc
      obtain ⟨hkind, hid⟩ := hsaid
      cases kind with
      | delete => cases hsvc
      | upsert =>
        rw [if_pos rfl] at hsvc
        refine Or.inl ⟨?_, ⟨hkind, hid⟩, hsvc⟩
        unfold applyServiceEvent
        simp only [hkind, hid, hsvc]
    · rw [if_neg hkey] at hsvc
      refine Or.inr ⟨fun kind' hsaid' => ?_, hsvc⟩
      obtain ⟨-, hid⟩ := hsaid
      obtain ⟨-, hid'⟩ := hsaid'
      exact hkey (Option.some_inj.mp (hid'.symm.trans hid))
  · rw [applyServiceEvent_of_unsaid s fun kind id h => hsaid ⟨kind, id, h⟩] at hsvc
    exact Or.inr ⟨fun kind h => hsaid ⟨kind, key, h⟩, hsvc⟩

/-- A slice event changes the slices of one Service, which is published again if its policy is Local. -/
theorem slices_applyEndpointSliceEvent (s : WatchState) (event : Value) {svc : RawService}
    (hsvc : s.services.lookup key = some svc) (hpolicy : svc.policy = .onlyLocal) :
    (s.applyEndpointSliceEvent event).2 = some key ∨
      (s.applyEndpointSliceEvent event).1.slices.lookup key = s.slices.lookup key := by
  unfold applyEndpointSliceEvent
  dsimp only
  split
  · rename_i kind owner name _ _ _
    by_cases howner : key = owner
    · subst howner
      have hlocal : s.isLocalPolicy key = true := by
        unfold isLocalPolicy
        rw [hsvc, Option.any_some, hpolicy]
        rfl
      exact Or.inl (if_pos hlocal)
    · refine Or.inr ?_
      cases kind with
      | upsert => exact (Table.lookup_insert_ite ..).trans (if_neg howner)
      | delete =>
        dsimp only
        unfold removeSlice
        split
        · exact (Table.lookup_insert_ite ..).trans (if_neg howner)
        · rfl
  · exact Or.inr rfl

/-! ### LISTs -/

/-- An accepted LIST of the Services holds those listed, and names the tracked ones. -/
theorem replaceServices_ok {items : List Value} {keys : List ServiceKey} (hok : (s.replaceServices items).2 = .ok keys) :
    ServicesFolded (s.replaceServices items).1.services (Objects.ofList items) ∧
      ∀ key, key ∈ (s.replaceServices items).1.serviceKeys → key ∈ keys := by
  let next (acc : WatchState × List ServiceKey) (item : Value) : WatchState × List ServiceKey :=
    ((acc.1.applyServiceEvent (added item)).1, acc.2 ++ (acc.1.applyServiceEvent (added item)).2.toList)
  have hresult : (s.replaceServices items).1.services = (items.foldl next ({}, [])).1.services ∧
      keys = (items.foldl next ({}, [])).2 := by
    unfold replaceServices at hok ⊢
    dsimp only at hok ⊢
    split at hok
    · cases hok
    · rename_i hheld
      rw [if_neg hheld]
      exact ⟨rfl, (Except.ok.inj hok).symm⟩
  have hfst : (items.foldl next ({}, [])).1 =
      items.foldl (fun (fresh : WatchState) item => (fresh.applyServiceEvent (added item)).1) {} :=
    foldl_fst (fun (fresh : WatchState) item => (fresh.applyServiceEvent (added item)).1)
      (fun acc item => acc.2 ++ (acc.1.applyServiceEvent (added item)).2.toList) items ({}, [])
  have hnamed : ∀ key svc, (items.foldl next ({}, [])).1.services.lookup key = some svc →
      key ∈ (items.foldl next ({}, [])).2 := by
    -- on the items, the last one first
    clear hresult hok hfst
    induction items using List.reverseRecOn with
    | nil => exact fun key svc h => nomatch h
    | append_singleton items item ih =>
      intro key svc hsvc
      rw [List.foldl_append] at hsvc ⊢
      rcases tracked_applyServiceEvent hsvc with ⟨hchanged, -⟩ | ⟨-, hbefore⟩
      · exact List.mem_append_right _ (Option.mem_toList.mpr hchanged)
      · exact List.mem_append_left _ (ih key svc hbefore)
  refine ⟨?_, fun key hkey => ?_⟩
  · rw [hresult.1, hfst]
    exact servicesFolded_list items
  · obtain ⟨svc, hsvc⟩ := mem_serviceKeys.mp hkey
    rw [hresult.1] at hsvc
    rw [hresult.2]
    exact hnamed key svc hsvc

/-- What a LIST, which names each Service once, would have cleared is not tracked after it. -/
theorem not_tracked_of_stale {items : List Value} (hitems : Objects.Distinct serviceKey items) {keys : List ServiceKey}
    (hok : (s.replaceServices items).2 = .ok keys) (hstale : key ∈ staleIngressKeys items) :
    key ∉ (s.replaceServices items).1.serviceKeys := by
  obtain ⟨item, hitem, hkey⟩ := List.mem_filterMap.mp hstale
  obtain ⟨⟨-, hid⟩, hparse⟩ := says_of_stale hkey
  have hheld : (Objects.ofList items : Objects serviceKey).held.lookup key = some item :=
    (Objects.lookup_ofList hitems key item).mpr ⟨hitem, hid⟩
  intro htracked
  obtain ⟨svc, hsvc⟩ := mem_serviceKeys.mp htracked
  rw [(replaceServices_ok hok).1 key, hheld] at hsvc
  have hparse' : parseService item = some svc := hsvc
  rw [get_added] at hparse
  rw [hparse] at hparse'
  cases hparse'

end WatchState

/-! ## Settled Services -/

namespace Publishing

/-- The object lists what this node wants of it now. -/
def Wanted (localNodeIp : IpAddr) (s : Publishing) (key : ServiceKey) (object : Option IngressRegister) : Prop :=
  Lists (s.state.ownNodeIps localNodeIp) (s.state.ipsToPublish key localNodeIp) object

/-- The attempt ends well only with what is wanted now, unless the object is written meanwhile. -/
def Fresh (localNodeIp : IpAddr) (s : Publishing) (t : PublishTask) : Prop :=
  t.clear = false ∧ Alone (s.Wanted localNodeIp t.key) (s.objects t.key) t.remaining

/-- What is wanted of a Service is listed, or something is still to come that sees to it. -/
inductive Settled (localNodeIp : IpAddr) (s : Publishing) (key : ServiceKey) : Prop
  /-- it is listed -/
  | listed (h : s.Wanted localNodeIp key (s.objects key))
  /-- a write of the object was not seen yet -/
  | unseen (h : key ∈ s.unseen)
  /-- since attempt `since` all know what is wanted, and one of them is in flight or failed and on record -/
  | attempted (since : Nat) (hfresh : ∀ t ∈ s.tasks, t.key = key → since ≤ t.number → s.Fresh localNodeIp t)
      (h : (∃ t ∈ s.tasks, t.key = key ∧ since ≤ t.number) ∨ (s.pending.Failed key ∧ since ≤ s.failedBy key))

/-- The Service is tracked. -/
def Tracked (s : Publishing) (key : ServiceKey) : Prop := key ∈ s.state.serviceKeys

/-- The attempts are numbered in the order they were spawned. -/
structure Numbered (s : Publishing) : Prop where
  below : ∀ t ∈ s.tasks, t.number < s.spawned
  distinct : (s.tasks.map PublishTask.number).Nodup

/-- **The invariant**: once the LISTs are complete every tracked Service is settled. -/
structure Sound (localNodeIp : IpAddr) (s : Publishing) : Prop where
  numbered : s.Numbered
  settled : s.state.ingressDecidable = true → ∀ key, s.Tracked key → s.Settled localNodeIp key

section
variable {s s' : Publishing} {key : ServiceKey}

/-- What is wanted is the same and the object is; the attempts have gone on, and what is on record is still there. -/
theorem Settled.carry (h : s.Settled localNodeIp key)
    (hwanted : ∀ object, s.Wanted localNodeIp key object → s'.Wanted localNodeIp key object)
    (hobject : s'.objects key = s.objects key) (hunseen : key ∈ s.unseen → key ∈ s'.unseen)
    (hfresh : ∀ t ∈ s'.tasks, t.key = key →
      ∃ u ∈ s.tasks, u.key = key ∧ u.number = t.number ∧ (s.Fresh localNodeIp u → s'.Fresh localNodeIp t))
    (hflight : ∀ t ∈ s.tasks, t.key = key → ∃ u ∈ s'.tasks, u.key = key ∧ u.number = t.number)
    (hpending : s'.pending.keys.lookup key = s.pending.keys.lookup key) (hfailed : s'.failedBy key = s.failedBy key) :
    s'.Settled localNodeIp key := by
  cases h with
  | listed h => exact .listed (hobject ▸ hwanted _ h)
  | unseen h => exact .unseen (hunseen h)
  | attempted since hall h =>
    refine .attempted since (fun t ht hkey hnumber => ?_) ?_
    · obtain ⟨u, hu, hukey, hsame, himp⟩ := hfresh t ht hkey
      exact himp (hall u hu hukey (hsame ▸ hnumber))
    · rcases h with ⟨t, ht, hkey, hnumber⟩ | ⟨hrecord, hsince⟩
      · obtain ⟨u, hu, hukey, hsame⟩ := hflight t ht hkey
        exact Or.inl ⟨u, hu, hukey, hsame ▸ hnumber⟩
      · refine Or.inr ⟨?_, hfailed ▸ hsince⟩
        unfold PublishRetry.Failed at *
        rwa [hpending]

/-- An attempt stays fresh if no more is wanted and the object is the same. -/
theorem Fresh.congr {t : PublishTask} (h : s.Fresh localNodeIp t)
    (hwanted : ∀ object, s.Wanted localNodeIp t.key object → s'.Wanted localNodeIp t.key object)
    (hobject : s'.objects t.key = s.objects t.key) : s'.Fresh localNodeIp t :=
  ⟨h.1, hobject ▸ h.2.mono hwanted⟩

/-- The same, with the same attempts. -/
theorem Settled.congr (h : s.Settled localNodeIp key)
    (hwanted : ∀ object, s.Wanted localNodeIp key object → s'.Wanted localNodeIp key object)
    (hobject : s'.objects key = s.objects key) (hunseen : key ∈ s.unseen → key ∈ s'.unseen)
    (htasks : ∀ t, t.key = key → (t ∈ s'.tasks ↔ t ∈ s.tasks))
    (hpending : s'.pending.keys.lookup key = s.pending.keys.lookup key) (hfailed : s'.failedBy key = s.failedBy key) :
    s'.Settled localNodeIp key := by
  refine h.carry hwanted hobject hunseen (fun t ht hkey => ?_) (fun t ht hkey => ?_) hpending hfailed
  · refine ⟨t, (htasks t hkey).mp ht, hkey, rfl, fun hfresh => ?_⟩
    subst hkey
    exact hfresh.congr hwanted hobject
  · exact ⟨t, (htasks t hkey).mpr ht, hkey, rfl⟩

/-- At a quiet moment only the first is left. -/
theorem Settled.at_quiescence (h : s.Settled localNodeIp key) (hquiet : s.Quiescent) :
    s.Wanted localNodeIp key (s.objects key) := by
  obtain ⟨hunseen, htasks, hpending⟩ := hquiet
  cases h with
  | listed h => exact h
  | unseen h =>
    rw [hunseen] at h
    exact absurd h (Finset.notMem_empty _)
  | attempted since hfresh h =>
    rcases h with ⟨t, ht, -⟩ | ⟨hrecord, -⟩
    · rw [htasks] at ht
      cases ht
    · exact absurd hrecord (hpending key)

/-! ## Publishing again -/

/-- Once decidable, a Service is published with what is wanted now. -/
theorem publishIngressFor_ready (hready : s.state.ingressDecidable = true) (key : ServiceKey) :
    s.publishIngressFor localNodeIp key =
      s.publishIngress key (s.state.ownNodeIps localNodeIp) (s.state.ipsToPublish key localNodeIp) false :=
  if_neg (by rw [hready]; exact fun h => nomatch h)

/-- A published Service is settled, whatever it was before. -/
theorem settled_publish (hnumbered : s.Numbered) (hready : s.state.ingressDecidable = true) :
    (s.publishIngressFor localNodeIp key).Settled localNodeIp key := by
  rw [publishIngressFor_ready hready]
  refine .attempted s.spawned (fun t ht _ hnumber => ?_) (Or.inl ⟨_, List.mem_append_right _ (List.mem_singleton_self _),
    rfl, Nat.le_refl _⟩)
  rcases List.mem_append.mp ht with hold | hnew
  · exact absurd (hnumbered.below t hold) (Nat.not_lt.mpr hnumber)
  · obtain rfl := List.mem_singleton.mp hnew
    exact ⟨rfl, alone_ensureNodeIngress key.ns key.name _ _ _⟩

variable {now : Instant}

/-- What the work leaves alone. -/
structure SameView (s s' : Publishing) : Prop where
  state : s'.state = s.state
  objects : s'.objects = s.objects
  unseen : s'.unseen = s.unseen
  failedBy : s'.failedBy = s.failedBy

/-- Nothing happened. -/
theorem SameView.refl (s : Publishing) : SameView s s := ⟨rfl, rfl, rfl, rfl⟩

/-- One piece of work after another. -/
theorem SameView.trans {s'' : Publishing} (h : SameView s s') (h' : SameView s' s'') : SameView s s'' :=
  ⟨h'.state.trans h.state, h'.objects.trans h.objects, h'.unseen.trans h.unseen, h'.failedBy.trans h.failedBy⟩

/-- The new attempt gets the next number. -/
theorem Numbered.publishIngress (h : s.Numbered) (key : ServiceKey) (ownIps desiredIps : List IpAddr) (clear : Bool) :
    (s.publishIngress key ownIps desiredIps clear).Numbered where
  below t ht := by
    rcases List.mem_append.mp ht with hold | hnew
    · exact Nat.lt_succ_of_lt (h.below t hold)
    · obtain rfl := List.mem_singleton.mp hnew
      exact Nat.lt_succ_self _
  distinct := by
    show ((s.tasks ++ [_]).map PublishTask.number).Nodup
    rw [List.map_append, List.map_singleton]
    refine List.Nodup.append h.distinct (List.nodup_singleton _) ?_
    intro number hold hnew
    obtain ⟨t, ht, rfl⟩ := List.mem_map.mp hold
    exact absurd (List.mem_singleton.mp hnew) (Nat.ne_of_lt (h.below t ht))

/-! ## Work -/

/-- Each piece of work spawns an attempt, or does nothing. -/
theorem SameView.runIngressWork (s : Publishing) (work : IngressWork × ServiceKey) :
    SameView s (s.runIngressWork localNodeIp now work) := by
  have hpublish : ∀ key ownIps desiredIps clear, SameView s (s.publishIngress key ownIps desiredIps clear) :=
    fun _ _ _ _ => ⟨rfl, rfl, rfl, rfl⟩
  obtain ⟨work, key⟩ := work
  cases work with
  | publish =>
    simp only [Publishing.runIngressWork, publishIngressFor]
    split
    · exact .refl s
    · exact hpublish ..
  | clear =>
    simp only [Publishing.runIngressWork, clearIngressFor]
    split
    · exact ⟨rfl, rfl, rfl, rfl⟩
    · exact hpublish ..
  | forget => exact ⟨rfl, rfl, rfl, rfl⟩

/-- Whichever it is, the attempts stay numbered. -/
theorem Numbered.runIngressWork (h : s.Numbered) (work : IngressWork × ServiceKey) :
    (s.runIngressWork localNodeIp now work).Numbered := by
  obtain ⟨work, key⟩ := work
  cases work with
  | publish =>
    simp only [Publishing.runIngressWork, publishIngressFor]
    split
    · exact h
    · exact h.publishIngress ..
  | clear =>
    simp only [Publishing.runIngressWork, clearIngressFor]
    split
    · exact ⟨h.below, h.distinct⟩
    · exact h.publishIngress ..
  | forget => exact ⟨h.below, h.distinct⟩

/-- An attempt for another Service changes nothing for this one. -/
theorem Settled.publishIngress (h : s.Settled localNodeIp key) {other : ServiceKey} (hother : other ≠ key)
    (ownIps desiredIps : List IpAddr) (clear : Bool) :
    (s.publishIngress other ownIps desiredIps clear).Settled localNodeIp key := by
  refine h.congr (fun _ h => h) rfl id (fun t hkey => ?_) rfl rfl
  refine ⟨fun ht => ?_, fun ht => List.mem_append_left _ ht⟩
  rcases List.mem_append.mp ht with hold | hnew
  · exact hold
  · obtain rfl := List.mem_singleton.mp hnew
    exact absurd hkey hother

/-- Work on a Service that is not to publish it concerns no settled Service. -/
theorem Settled.runIngressWork (h : s.Settled localNodeIp key) (hnumbered : s.Numbered)
    (hready : s.state.ingressDecidable = true) {work : IngressWork × ServiceKey}
    (hwork : work.2 = key → work.1 = .publish) : (s.runIngressWork localNodeIp now work).Settled localNodeIp key := by
  obtain ⟨work, other⟩ := work
  by_cases hother : other = key
  · obtain rfl : work = .publish := hwork hother
    subst hother
    exact settled_publish hnumbered hready
  · cases work with
    | publish =>
      show (s.publishIngressFor localNodeIp other).Settled localNodeIp key
      rw [publishIngressFor_ready hready]
      exact h.publishIngress hother ..
    | clear =>
      show (s.clearIngressFor localNodeIp other).Settled localNodeIp key
      simp only [clearIngressFor, ingressClearIps, if_pos hready]
      exact h.publishIngress hother ..
    | forget =>
      refine h.congr (fun _ h => h) rfl id (fun _ _ => Iff.rfl) ?_ rfl
      exact s.pending.lookup_record_of_ne (Ne.symm hother) true false now

/-- **Work** leaves settled what it publishes and what it does not touch. -/
theorem settled_works {works : List (IngressWork × ServiceKey)} (hnumbered : s.Numbered)
    (hready : s.state.ingressDecidable = true) (hworks : ∀ work ∈ works, work.2 = key → work.1 = .publish)
    (h : s.Settled localNodeIp key ∨ (.publish, key) ∈ works) :
    (works.foldl (Publishing.runIngressWork localNodeIp now) s).Settled localNodeIp key := by
  induction works generalizing s with
  | nil => exact h.resolve_right List.not_mem_nil
  | cons work works ih =>
    have hready' : (s.runIngressWork localNodeIp now work).state.ingressDecidable = true := by
      rw [(SameView.runIngressWork s work).state, hready]
    refine ih (hnumbered.runIngressWork work) hready' (fun w hw => hworks w (List.mem_cons_of_mem _ hw)) ?_
    rcases h with h | h
    · exact Or.inl (h.runIngressWork hnumbered hready (hworks work List.mem_cons_self))
    · rcases List.mem_cons.mp h with rfl | h
      · exact Or.inl (settled_publish hnumbered hready)
      · exact Or.inr h

/-- By induction on the work. -/
theorem SameView.works (localNodeIp : IpAddr) (now : Instant) (s : Publishing) (works : List (IngressWork × ServiceKey)) :
    SameView s (works.foldl (Publishing.runIngressWork localNodeIp now) s) := by
  induction works generalizing s with
  | nil => exact .refl s
  | cons work works ih => exact (SameView.runIngressWork s work).trans (ih _)

/-- By induction on the work. -/
theorem Numbered.works (h : s.Numbered) (works : List (IngressWork × ServiceKey)) :
    (works.foldl (Publishing.runIngressWork localNodeIp now) s).Numbered := by
  induction works generalizing s with
  | nil => exact h
  | cons work works ih => exact ih (h.runIngressWork work)

/-- Publishing one Service after the other is work. -/
theorem foldl_publish (s : Publishing) (keys : List ServiceKey) :
    keys.foldl (publishIngressFor localNodeIp) s =
      (keys.map fun key => (IngressWork.publish, key)).foldl (Publishing.runIngressWork localNodeIp now) s := by
  rw [List.foldl_map]
  rfl

/-- To clear some keys is a list of work too. -/
theorem foldl_clear (s : Publishing) (keys : List ServiceKey) :
    keys.foldl (clearIngressFor localNodeIp) s =
      (keys.map fun key => (IngressWork.clear, key)).foldl (Publishing.runIngressWork localNodeIp now) s := by
  rw [List.foldl_map]
  rfl

/-- What follows a LIST is work: of the tracked Services nothing is cleared, and all are published when this LIST was the
    last one outstanding. -/
theorem afterList_works (localNodeIp : IpAddr) (s : Publishing) (wasReady : Bool) (now : Instant) :
    ∃ works : List (IngressWork × ServiceKey),
      s.afterList localNodeIp wasReady = works.foldl (Publishing.runIngressWork localNodeIp now) s ∧
      (∀ work ∈ works, s.Tracked work.2 → work.1 = .publish) ∧
      (wasReady = false → s.state.ingressDecidable = true → ∀ key, s.Tracked key → (.publish, key) ∈ works) := by
  by_cases hflip : (!wasReady && s.state.ingressDecidable) = true
  · let mid := s.state.serviceKeys.foldl (publishIngressFor localNodeIp) s
    let clears := mid.pending.pendingClears.filter fun key => !s.state.serviceKeys.contains key
    refine ⟨s.state.serviceKeys.map (fun key => (.publish, key)) ++ clears.map fun key => (.clear, key), ?_, ?_, ?_⟩
    · unfold afterList
      rw [if_pos hflip, List.foldl_append, ← foldl_publish]
      exact foldl_clear mid clears
    · intro work hwork htracked
      rcases List.mem_append.mp hwork with hpublish | hclear
      · obtain ⟨key, -, rfl⟩ := List.mem_map.mp hpublish
        rfl
      · obtain ⟨key, hkey, rfl⟩ := List.mem_map.mp hclear
        have hnot := (List.mem_filter.mp hkey).2
        have hcontains : s.state.serviceKeys.contains key = true := List.contains_iff_mem.mpr htracked
        rw [hcontains] at hnot
        cases hnot
    · intro _ _ key htracked
      exact List.mem_append_left _ (List.mem_map.mpr ⟨key, htracked, rfl⟩)
  · refine ⟨[], by unfold afterList; rw [if_neg hflip]; rfl, fun _ h => (nomatch h), fun hwas hready => ?_⟩
    rw [hwas, hready] at hflip
    exact absurd rfl hflip

/-! ## What an input asks for -/

/-- An input leaves alone what is wanted of a Service. -/
structure Kept (localNodeIp : IpAddr) (s mid : Publishing) (key : ServiceKey) : Prop where
  ready : s.state.ingressDecidable = true
  tracked : s.Tracked key
  wish : WatchState.SameWish localNodeIp s.state mid.state key
  unseen : key ∈ s.unseen → key ∈ mid.unseen

/-- What follows an input is work on the new state: no tracked Service is cleared or forgotten, and each is published
    unless the input leaves alone what is wanted of it. -/
structure Answers (localNodeIp : IpAddr) (s mid : Publishing) (works : List (IngressWork × ServiceKey)) : Prop where
  clears : ∀ key, mid.Tracked key → ∀ work ∈ works, work.2 = key → work.1 = .publish
  publishes : mid.state.ingressDecidable = true → ∀ key, mid.Tracked key →
    (.publish, key) ∈ works ∨ Kept localNodeIp s mid key

/-- **Answered inputs** keep the invariant. -/
theorem Sound.answered {mid : Publishing} {works : List (IngressWork × ServiceKey)} (h : s.Sound localNodeIp)
    (hworks : Answers localNodeIp s mid works) (hobjects : mid.objects = s.objects) (hpending : mid.pending = s.pending)
    (htasks : mid.tasks = s.tasks) (hspawned : mid.spawned = s.spawned) (hfailed : mid.failedBy = s.failedBy)
    (now : Instant) : (works.foldl (Publishing.runIngressWork localNodeIp now) mid).Sound localNodeIp where
  numbered := by
    refine Numbered.works ⟨?_, ?_⟩ works
    · rw [htasks, hspawned]
      exact h.numbered.below
    · rw [htasks]
      exact h.numbered.distinct
  settled hready key htracked := by
    have hview := SameView.works localNodeIp now mid works
    rw [hview.state] at hready
    replace htracked : mid.Tracked key := by
      unfold Tracked at htracked
      rwa [hview.state] at htracked
    have hnumbered : mid.Numbered := by
      refine ⟨?_, ?_⟩
      · rw [htasks, hspawned]
        exact h.numbered.below
      · rw [htasks]
        exact h.numbered.distinct
    refine settled_works hnumbered hready (hworks.clears key htracked) ?_
    rcases hworks.publishes hready key htracked with hpublish | hkept
    · exact Or.inr hpublish
    · refine Or.inl ((h.settled hkept.ready key hkept.tracked).congr ?_ ?_ hkept.unseen ?_ ?_ ?_)
      · rintro object ⟨r, hobject, hlists⟩
        refine ⟨r, hobject, fun ip hip => ?_⟩
        rw [hlists ip ((hkept.wish.own ip).mp hip), hkept.wish.desired ip]
      · rw [hobjects]
      · intro t _
        rw [htasks]
      · rw [hpending]
      · rw [hfailed]

/-- The work of an input and then that of a LIST that was the last one outstanding. -/
theorem Answers.afterList (localNodeIp : IpAddr) (s mid : Publishing) {works : List (IngressWork × ServiceKey)}
    (hclears : ∀ key, mid.Tracked key → ∀ work ∈ works, work.2 = key → work.1 = .publish)
    (hpublishes : s.state.ingressDecidable = true → mid.state.ingressDecidable = true → ∀ key, mid.Tracked key →
      (.publish, key) ∈ works ∨ Kept localNodeIp s mid key) (now : Instant) :
    ∃ works', ((works.foldl (Publishing.runIngressWork localNodeIp now) mid).afterList localNodeIp
        s.state.ingressDecidable) = works'.foldl (Publishing.runIngressWork localNodeIp now) mid ∧
      Answers localNodeIp s mid works' := by
  have hview := SameView.works localNodeIp now mid works
  have htracked : ∀ key, mid.Tracked key → (works.foldl (Publishing.runIngressWork localNodeIp now) mid).Tracked key := by
    intro key h
    unfold Tracked
    rwa [hview.state]
  obtain ⟨more, hmore, hclears', hall⟩ := afterList_works localNodeIp
    (works.foldl (Publishing.runIngressWork localNodeIp now) mid) s.state.ingressDecidable now
  refine ⟨works ++ more, by rw [hmore, List.foldl_append], fun key hkey work hwork hsame => ?_, fun hready key hkey => ?_⟩
  · rcases List.mem_append.mp hwork with hwork | hwork
    · exact hclears key hkey work hwork hsame
    · exact hclears' work hwork (hsame ▸ htracked key hkey)
  · cases hwas : s.state.ingressDecidable with
    | false =>
      refine Or.inl (List.mem_append_right _ (hall hwas ?_ key (htracked key hkey)))
      rw [hview.state, hready]
    | true =>
      rcases hpublishes hwas hready key hkey with hpublish | hkept
      · exact Or.inl (List.mem_append_left _ hpublish)
      · exact Or.inr hkept

/-- A Service event publishes the Service it is about, unless that is no longer tracked. -/
theorem answers_service (s : Publishing) (event : Value) :
    Answers localNodeIp s { s with state := (s.state.applyServiceEvent event).1, unseen := unseenAfter s.unseen event }
      (serviceEventWork (s.state.applyServiceEvent event).2 event) where
  clears key htracked work hwork hsame := by
    obtain ⟨svc, hsvc⟩ := WatchState.mem_serviceKeys.mp htracked
    unfold serviceEventWork at hwork
    rcases List.mem_append.mp hwork with hwork | hforget
    · rcases List.mem_append.mp hwork with hpublish | hclear
      · obtain ⟨-, -, rfl⟩ := List.mem_map.mp hpublish
        rfl
      · obtain ⟨key', hstale, rfl⟩ := List.mem_map.mp hclear
        obtain rfl : key' = key := hsame
        obtain ⟨hsaid, hparse⟩ := WatchState.says_of_stale (Option.mem_toList.mp hstale)
        rcases WatchState.tracked_applyServiceEvent hsvc with ⟨-, -, hparse'⟩ | ⟨hnot, -⟩
        · rw [hparse] at hparse'
          cases hparse'
        · exact absurd hsaid (hnot _)
    · obtain ⟨key', hdeleted, rfl⟩ := List.mem_map.mp hforget
      obtain rfl : key' = key := hsame
      have hsaid := WatchState.says_of_deleted (Option.mem_toList.mp hdeleted)
      rcases WatchState.tracked_applyServiceEvent hsvc with ⟨-, hsaid', -⟩ | ⟨hnot, -⟩
      · obtain ⟨hkind, -⟩ := hsaid
        obtain ⟨hkind', -⟩ := hsaid'
        exact nomatch hkind.symm.trans hkind'
      · exact absurd hsaid (hnot _)
  publishes hready key htracked := by
    obtain ⟨svc, hsvc⟩ := WatchState.mem_serviceKeys.mp htracked
    have hframe := WatchState.applyServiceEvent_frame s.state event
    have hslices : (s.state.applyServiceEvent event).1.slices = s.state.slices := by rw [hframe]
    have hnodes : (s.state.applyServiceEvent event).1.nodeIps = s.state.nodeIps := by rw [hframe]
    rcases WatchState.tracked_applyServiceEvent hsvc with ⟨hchanged, -⟩ | ⟨hnot, hbefore⟩
    · refine Or.inl (List.mem_append_left _ (List.mem_append_left _ (List.mem_map.mpr ⟨key, ?_, rfl⟩)))
      exact Option.mem_toList.mpr hchanged
    · refine Or.inr ⟨?_, WatchState.mem_serviceKeys.mpr ⟨svc, hbefore⟩, ⟨fun ip => ?_, fun ip => ?_⟩, fun hunseen => ?_⟩
      · rw [← hready]
        show _ = (s.state.applyServiceEvent event).1.fullyListed
        rw [hframe]
        rfl
      · exact iff_of_eq (congrArg _ (WatchState.ownNodeIps_congr hnodes))
      · exact iff_of_eq (congrArg _ (WatchState.ipsToPublish_congr (hsvc.trans hbefore.symm) (congrArg _ hslices)
          hnodes))
      · show key ∈ unseenAfter s.unseen event
        unfold unseenAfter
        split
        · rename_i kind key' hkind hkey'
          refine Finset.mem_erase.mpr ⟨?_, hunseen⟩
          rintro rfl
          exact hnot kind ⟨hkind, hkey'⟩
        · exact hunseen

/-- What is tracked after a LIST of the Services is published, and nothing of it cleared. -/
theorem answers_services {items : List Value} (hitems : Objects.Distinct serviceKey items) {keys : List ServiceKey}
    (hok : (s.state.replaceServices items).2 = .ok keys) :
    (∀ key, key ∈ (s.state.replaceServices items).1.serviceKeys → ∀ work ∈ servicesRelistWork keys items,
      work.2 = key → work.1 = .publish) ∧
    ∀ key, key ∈ (s.state.replaceServices items).1.serviceKeys → (.publish, key) ∈ servicesRelistWork keys items := by
  refine ⟨fun key htracked work hwork hsame => ?_, fun key htracked => ?_⟩
  · rcases List.mem_append.mp hwork with hpublish | hclear
    · obtain ⟨-, -, rfl⟩ := List.mem_map.mp hpublish
      rfl
    · obtain ⟨key', hstale, rfl⟩ := List.mem_map.mp hclear
      obtain rfl : key' = key := hsame
      exact absurd htracked (WatchState.not_tracked_of_stale hitems hok hstale)
  · exact List.mem_append_left _ (List.mem_map.mpr ⟨key, (WatchState.replaceServices_ok hok).2 key htracked, rfl⟩)

/-- Publishing asks for nothing else. -/
theorem clears_publish (keys : List ServiceKey) (key : ServiceKey) :
    ∀ work ∈ keys.map fun key => (IngressWork.publish, key), work.2 = key → work.1 = .publish := by
  intro work hwork _
  obtain ⟨-, -, rfl⟩ := List.mem_map.mp hwork
  rfl

/-- The Services with `externalTrafficPolicy: Local` are published; of the others the same is wanted while the Services
    and the Nodes are the same. -/
theorem publishes_local {state : WatchState} (hready : s.state.ingressDecidable = true)
    (hservices : state.services = s.state.services) (hnodes : state.nodeIps = s.state.nodeIps) {keys : List ServiceKey}
    (hlocal : ∀ key svc, s.state.services.lookup key = some svc → svc.policy = .onlyLocal →
      key ∈ keys ∨ state.slices.lookup key = s.state.slices.lookup key) {key : ServiceKey}
    (htracked : ({ s with state } : Publishing).Tracked key) :
    (IngressWork.publish, key) ∈ keys.map (fun key => (IngressWork.publish, key)) ∨
      Kept localNodeIp s { s with state } key := by
  obtain ⟨svc, hsvc⟩ := WatchState.mem_serviceKeys.mp htracked
  have hsame : state.services.lookup key = s.state.services.lookup key := by rw [hservices]
  have hbefore := hsame.symm.trans hsvc
  by_cases hpolicy : svc.policy = .onlyLocal
  · rcases hlocal key svc hbefore hpolicy with hmem | hslices
    · exact Or.inl (List.mem_map.mpr ⟨key, hmem, rfl⟩)
    · refine Or.inr ⟨hready, WatchState.mem_serviceKeys.mpr ⟨svc, hbefore⟩, ⟨fun ip => ?_, fun ip => ?_⟩, id⟩
      · exact iff_of_eq (congrArg _ (WatchState.ownNodeIps_congr hnodes))
      · exact iff_of_eq (congrArg _ (WatchState.ipsToPublish_congr hsame hslices hnodes))
  · exact Or.inr ⟨hready, WatchState.mem_serviceKeys.mpr ⟨svc, hbefore⟩,
      WatchState.sameWish_of_not_local hbefore hsame hpolicy hnodes, id⟩

/-- An EndpointSlice event publishes the Service the slice belongs to, if what is wanted of that depends on it. -/
theorem answers_endpointSlice (s : Publishing) (event : Value) :
    Answers localNodeIp s { s with state := (s.state.applyEndpointSliceEvent event).1 }
      ((s.state.applyEndpointSliceEvent event).2.toList.map fun key => (.publish, key)) where
  clears key _ := clears_publish _ key
  publishes hready key htracked := by
    have hframe := WatchState.applyEndpointSliceEvent_frame s.state event
    refine publishes_local ?_ (by rw [hframe]) (by rw [hframe]) (fun key svc hsvc hpolicy => ?_) htracked
    · rw [← hready]
      show _ = (s.state.applyEndpointSliceEvent event).1.fullyListed
      rw [hframe]
      rfl
    · exact (WatchState.slices_applyEndpointSliceEvent s.state event hsvc hpolicy).imp_left Option.mem_toList.mpr

/-- Once the LISTs are complete: while the own addresses stay the same ones, so do the fronts among them that a tracked
    Service is published on whatever its endpoints are. -/
def FrontsKept (localNodeIp : IpAddr) (s s' : WatchState) : Prop :=
  s.ingressDecidable = true → ownNodeIpsChanged (s.ownNodeIps localNodeIp) (s'.ownNodeIps localNodeIp) = false →
  ∀ key svc, s.services.lookup key = some svc → svc.policy ≠ .onlyLocal →
  ∀ ip, svc.frontsFamily (.of ip) = true → (ip ∈ s'.ownFronts localNodeIp ↔ ip ∈ s.ownFronts localNodeIp)

/-- The Services that a change of the Nodes publishes. -/
def nodesKeys (localNodeIp : IpAddr) (s state : WatchState) : List ServiceKey :=
  if ownNodeIpsChanged (s.ownNodeIps localNodeIp) (state.ownNodeIps localNodeIp) then state.serviceKeys
  else state.localPolicyServiceKeys

/-- A change of the Nodes publishes every Service for which something else is wanted after it. -/
theorem publishes_nodes {state : WatchState} (hready : s.state.ingressDecidable = true)
    (hservices : state.services = s.state.services) (hfronts : FrontsKept localNodeIp s.state state) {key : ServiceKey}
    (htracked : ({ s with state } : Publishing).Tracked key) :
    (IngressWork.publish, key) ∈ (nodesKeys localNodeIp s.state state).map (fun key => (IngressWork.publish, key)) ∨
      Kept localNodeIp s { s with state } key := by
  obtain ⟨svc, hsvc⟩ := WatchState.mem_serviceKeys.mp htracked
  have hsame : state.services.lookup key = s.state.services.lookup key := by rw [hservices]
  have hbefore := hsame.symm.trans hsvc
  unfold nodesKeys
  cases hchanged : ownNodeIpsChanged (s.state.ownNodeIps localNodeIp) (state.ownNodeIps localNodeIp) with
  | true =>
    rw [if_pos rfl]
    exact Or.inl (List.mem_map.mpr ⟨key, htracked, rfl⟩)
  | false =>
    rw [if_neg Bool.false_ne_true]
    by_cases hpolicy : svc.policy = .onlyLocal
    · exact Or.inl (List.mem_map.mpr ⟨key, WatchState.mem_localPolicyServiceKeys hsvc hpolicy, rfl⟩)
    · refine Or.inr ⟨hready, WatchState.mem_serviceKeys.mpr ⟨svc, hbefore⟩, ⟨fun ip => ?_, fun ip => ?_⟩, id⟩
      · have hset : (s.state.ownNodeIps localNodeIp).toFinset = (state.ownNodeIps localNodeIp).toFinset :=
          not_not.mp (of_decide_eq_false hchanged)
        rw [← List.mem_toFinset, ← hset, List.mem_toFinset]
      · rw [WatchState.mem_ipsToPublish hsvc hpolicy, WatchState.mem_ipsToPublish hbefore hpolicy]
        exact and_congr_left fun hfamily => hfronts hready hchanged key svc hbefore hpolicy ip hfamily

/-- A LIST that publishes keys. -/
theorem Sound.relisted (h : s.Sound localNodeIp) {state : WatchState} (keys : List ServiceKey)
    (hall : s.state.ingressDecidable = true → ∀ key, ({ s with state } : Publishing).Tracked key →
      (IngressWork.publish, key) ∈ keys.map (fun key => (IngressWork.publish, key)) ∨
        Kept localNodeIp s { s with state } key) (now : Instant) :
    ((keys.foldl (publishIngressFor localNodeIp) { s with state }).afterList localNodeIp
      s.state.ingressDecidable).Sound localNodeIp := by
  obtain ⟨works, hworks, hanswers⟩ := Answers.afterList localNodeIp s { s with state }
    (fun key _ => clears_publish keys key) (fun hwas _ => hall hwas) now
  rw [← foldl_publish] at hworks
  rw [hworks]
  exact h.answered hanswers rfl rfl rfl rfl rfl now

/-! ## The steps -/

/-- **An input.** -/
theorem Sound.watch (h : s.Sound localNodeIp) (input : WatchInput)
    (hitems : ∀ items, input = .services items → Objects.Distinct serviceKey items)
    (hnode : ∀ event, input = .node event → FrontsKept localNodeIp s.state (s.state.applyNodeEvent event))
    (hnodes : ∀ items, input = .nodes items → FrontsKept localNodeIp s.state (s.state.replaceNodes items localNodeIp).1) :
    (s.watch localNodeIp now input).Sound localNodeIp := by
  cases input with
  | service event => exact h.answered (answers_service s event) rfl rfl rfl rfl rfl now
  | endpointSlice event =>
    have hworks := h.answered (answers_endpointSlice s event) rfl rfl rfl rfl rfl now
    rwa [← foldl_publish] at hworks
  | node event =>
    have hframe := WatchState.applyNodeEvent_frame s.state event
    have hanswers : Answers localNodeIp s { s with state := s.state.applyNodeEvent event }
        ((nodesKeys localNodeIp s.state (s.state.applyNodeEvent event)).map fun key => (.publish, key)) := by
      refine ⟨fun key _ => clears_publish _ key, fun hready key htracked => ?_⟩
      refine publishes_nodes ?_ (by rw [hframe]) (hnode event rfl) htracked
      rw [← hready]
      show _ = (s.state.applyNodeEvent event).fullyListed
      rw [hframe]
      rfl
    have hworks := h.answered hanswers rfl rfl rfl rfl rfl now
    rwa [← foldl_publish] at hworks
  | services items =>
    show (s.onServicesRelist localNodeIp items now).Sound localNodeIp
    unfold onServicesRelist
    cases hlist : s.state.replaceServices items with
    | mk state result =>
      cases result with
      | error reason => exact h
      | ok keys =>
        have hok : (s.state.replaceServices items).2 = .ok keys := congrArg Prod.snd hlist
        have hstate : (s.state.replaceServices items).1 = state := congrArg Prod.fst hlist
        obtain ⟨hclears, hall⟩ := answers_services (hitems items rfl) hok
        rw [hstate] at hclears hall
        obtain ⟨works, hworks, hanswers⟩ := Answers.afterList localNodeIp s { s with state, unseen := ∅ } hclears
          (fun _ _ key htracked => Or.inl (hall key htracked)) now
        dsimp only
        rw [hworks]
        exact h.answered hanswers rfl rfl rfl rfl rfl now
  | endpointSlices items =>
    show (s.onEndpointSlicesRelist localNodeIp items).Sound localNodeIp
    unfold onEndpointSlicesRelist
    cases hlist : s.state.replaceEndpointSlices items with
    | mk state result =>
      cases result with
      | error reason => exact h
      | ok _ =>
        have hstate : (s.state.replaceEndpointSlices items).1 = state := congrArg Prod.fst hlist
        have hservices : state.services = s.state.services := by
          rw [← hstate]
          exact services_replaceEndpointSlices items
        have hnodes : state.nodeIps = s.state.nodeIps := by
          rw [← hstate]
          unfold WatchState.replaceEndpointSlices
          dsimp only
          split <;> rfl
        refine h.relisted state.localPolicyServiceKeys (fun hwas key htracked => ?_) now
        refine publishes_local hwas hservices hnodes (fun key svc hsvc hpolicy => Or.inl ?_) htracked
        exact WatchState.mem_localPolicyServiceKeys (hservices ▸ hsvc) hpolicy
  | nodes items =>
    show (s.onNodesRelist localNodeIp items).Sound localNodeIp
    unfold onNodesRelist
    cases hlist : s.state.replaceNodes items localNodeIp with
    | mk state result =>
      cases result with
      | error reason => exact h
      | ok _ =>
        have hstate : (s.state.replaceNodes items localNodeIp).1 = state := congrArg Prod.fst hlist
        have hservices : state.services = s.state.services := by
          rw [← hstate]
          exact (frame_replaceNodes items).1
        have hkept : FrontsKept localNodeIp s.state state := hstate ▸ hnodes items rfl
        exact h.relisted (nodesKeys localNodeIp s.state state)
          (fun hwas key htracked => publishes_nodes hwas hservices hkept htracked) now

/-- A task that is found is there, under its number. -/
theorem mem_of_task? {number : Nat} {t : PublishTask} (h : s.task? number = some t) : t ∈ s.tasks ∧ t.number = number := by
  unfold task? at h
  have hnumber := List.find?_some h
  exact ⟨List.mem_of_find?_eq_some h, of_decide_eq_true hnumber⟩

/-- Two attempts of one number are the same. -/
theorem Numbered.unique (h : s.Numbered) {t u : PublishTask} (ht : t ∈ s.tasks) (hu : u ∈ s.tasks)
    (hsame : u.number = t.number) : u = t := List.inj_on_of_nodup_map h.distinct hu ht hsame

/-- A task that goes on takes the place of what it was. -/
theorem mem_setTask {t u v : PublishTask} (ht : t ∈ s.tasks) (hu : u.number = t.number) :
    v ∈ (s.setTask u).tasks ↔ v = u ∨ v ∈ s.tasks ∧ v.number ≠ t.number := by
  simp only [setTask, List.mem_map]
  constructor
  · rintro ⟨w, hw, rfl⟩
    split
    · exact Or.inl rfl
    · rename_i hne
      exact Or.inr ⟨hw, fun heq => hne (heq.trans hu.symm)⟩
  · rintro (rfl | ⟨hv, hne⟩)
    · exact ⟨t, ht, if_pos hu.symm⟩
    · exact ⟨v, hv, if_neg fun heq => hne (heq.trans hu)⟩

/-- It keeps its number. -/
theorem Numbered.setTask (h : s.Numbered) (t : PublishTask) : (s.setTask t).Numbered := by
  have hnumbers : (s.setTask t).tasks.map PublishTask.number = s.tasks.map PublishTask.number := by
    simp only [Publishing.setTask, List.map_map]
    refine List.map_congr_left fun u _ => ?_
    simp only [Function.comp_apply]
    split
    · rename_i hsame
      exact hsame.symm
    · rfl
  refine ⟨fun u hu => ?_, by rw [hnumbers]; exact h.distinct⟩
  obtain ⟨v, hv, hsame⟩ := List.mem_map.mp (hnumbers ▸ List.mem_map_of_mem hu)
  exact hsame ▸ h.below v hv

/-- An attempt goes on, and its object is as it was. -/
theorem Settled.goesOn (h : s.Settled localNodeIp key) (hnumbered : s.Numbered) {t u : PublishTask} (ht : t ∈ s.tasks)
    (hkey : u.key = t.key) (hnumber : u.number = t.number) (hobject : s'.objects key = s.objects key)
    (hstate : s'.state = s.state) (hunseen : key ∈ s.unseen → key ∈ s'.unseen) (htasks : s'.tasks = (s.setTask u).tasks)
    (hpending : s'.pending = s.pending) (hfailed : s'.failedBy = s.failedBy)
    (hfresh : t.key = key → s.Fresh localNodeIp t → s'.Fresh localNodeIp u) : s'.Settled localNodeIp key := by
  have hwanted : ∀ key object, s.Wanted localNodeIp key object → s'.Wanted localNodeIp key object := by
    intro key object hwanted
    unfold Wanted
    rwa [hstate]
  refine h.carry (hwanted key) hobject hunseen (fun v hv hvkey => ?_) (fun v hv hvkey => ?_) (by rw [hpending])
    (by rw [hfailed])
  · rw [htasks, mem_setTask ht hnumber] at hv
    rcases hv with rfl | ⟨hv, -⟩
    · exact ⟨t, ht, hkey.symm.trans hvkey, hnumber.symm, hfresh (hkey.symm.trans hvkey)⟩
    · subst hvkey
      exact ⟨v, hv, rfl, rfl, fun hold => hold.congr (hwanted v.key) hobject⟩
  · by_cases hsame : v.number = t.number
    · obtain rfl := hnumbered.unique ht hv hsame
      exact ⟨u, htasks ▸ (mem_setTask ht hnumber).mpr (Or.inl rfl), hkey.trans hvkey, hnumber⟩
    · exact ⟨v, htasks ▸ (mem_setTask ht hnumber).mpr (Or.inr ⟨hv, hsame⟩), hvkey, rfl⟩

/-- An object of the same version is the same object. -/
theorem serveService_same {object : Option IngressRegister} {request : ApiRequest} {how : Serving}
    (h : (serveService object request how).1.map (·.version) = object.map (·.version)) :
    (serveService object request how).1 = object := by
  cases object with
  | none => rfl
  | some r =>
    have hversion : (r.serve request how).1.version = r.version := Option.some_inj.mp h
    exact congrArg some (IngressRegister.ext_of_moves (r.moves_serve request how) hversion)

/-- **A request is served.** -/
theorem Sound.served (h : s.Sound localNodeIp) (number : Nat) (how : Serving) :
    (s.served number how).Sound localNodeIp := by
  unfold Publishing.served
  cases htask : s.task? number with
  | none => exact h
  | some t =>
    obtain ⟨ht, -⟩ := mem_of_task? htask
    dsimp only
    split
    · rename_i q resume hrest hanswer
      refine ⟨Numbered.setTask ?_ _, fun hready key htracked => ?_⟩
      · exact ⟨h.numbered.below, h.numbered.distinct⟩
      by_cases hchanged : key = t.key ∧ (serveService (s.objects t.key) q how).1.map (·.version) ≠
          (s.objects t.key).map (·.version)
      · -- the object is written, which has not been seen yet
        refine .unseen ?_
        obtain ⟨rfl, hversion⟩ := hchanged
        show t.key ∈ ite _ _ _
        rw [if_neg hversion]
        exact Finset.mem_insert_self _ _
      · have hobject : Function.update s.objects t.key (serveService (s.objects t.key) q how).1 key = s.objects key := by
          by_cases hkey : key = t.key
          · subst hkey
            rw [Function.update_self]
            exact serveService_same (not_not.mp fun hne => hchanged ⟨rfl, hne⟩)
          · exact Function.update_of_ne hkey _ _
        refine (h.settled hready key htracked).goesOn h.numbered ht (u := { t with
          answer := some (serveService (s.objects t.key) q how).2 }) rfl rfl hobject rfl (fun hunseen => ?_) rfl rfl rfl ?_
        · show key ∈ ite _ _ _
          split
          · exact hunseen
          · exact Finset.mem_insert_of_mem hunseen
        · rintro rfl ⟨hclear, halone⟩
          rw [Function.update_self] at hobject
          refine ⟨hclear, ?_⟩
          show Alone _ (Function.update s.objects t.key _ t.key) _
          rw [Function.update_self]
          unfold PublishTask.remaining at halone ⊢
          rw [hrest, hanswer] at halone
          rw [hrest]
          exact (halone _ rfl).2 how
    · exact h

/-- While the failures that a well-ended attempt takes off the record are those of attempts before it. -/
def RecordKept (s : Publishing) (number : Nat) : Prop :=
  ∀ t ∈ s.tasks, t.number = number → ∀ result, t.remaining = .done result → attemptDone t.clear result = true →
    s.pending.Failed t.key → s.failedBy t.key ≤ number

/-- **An attempt ends.** -/
theorem Sound.ended (h : s.Sound localNodeIp) {t : PublishTask} (ht : t ∈ s.tasks) {result : Except UpdateError Unit}
    (hresult : t.remaining = .done result)
    (hkept : attemptDone t.clear result = true → s.pending.Failed t.key → s.failedBy t.key ≤ t.number) (now : Instant) :
    (s.ended t result now).Sound localNodeIp where
  numbered := by
    refine ⟨fun u hu => h.numbered.below u (List.mem_filter.mp hu).1, ?_⟩
    exact h.numbered.distinct.sublist (List.filter_sublist.map _)
  settled hready key htracked := by
    have hsettled := h.settled hready key htracked
    have hmem : ∀ u, u ∈ (s.ended t result now).tasks ↔ u ∈ s.tasks ∧ u.number ≠ t.number := by
      intro u
      show u ∈ s.tasks.filter _ ↔ _
      rw [List.mem_filter, decide_eq_true_eq]
    by_cases hkey : key = t.key
    · subst hkey
      cases hsettled with
      | listed h => exact .listed h
      | unseen h => exact .unseen h
      | attempted since hfresh hwitness =>
        have hfresh' : ∀ u ∈ (s.ended t result now).tasks, u.key = t.key → since ≤ u.number →
            (s.ended t result now).Fresh localNodeIp u := fun u hu => hfresh u ((hmem u).mp hu).1
        have hothers : t.number < since → (∃ u ∈ s.tasks, u.key = t.key ∧ since ≤ u.number) →
            ∃ u ∈ (s.ended t result now).tasks, u.key = t.key ∧ since ≤ u.number := by
          rintro hbefore ⟨u, hu, hukey, hnumber⟩
          exact ⟨u, (hmem u).mpr ⟨hu, by omega⟩, hukey, hnumber⟩
        cases hdone : attemptDone t.clear result with
        | true =>
          rcases Nat.lt_or_ge t.number since with hbefore | hsince
          · rcases hwitness with hflight | ⟨hrecord, hlast⟩
            · exact .attempted since hfresh' (Or.inl (hothers hbefore hflight))
            · exact absurd (hkept hdone hrecord) (by omega)
          · -- it knew what is wanted, so that is listed
            obtain ⟨hclear, halone⟩ := hfresh t ht rfl hsince
            rw [hresult] at halone
            refine .listed (halone ?_)
            rw [hclear] at hdone
            unfold attemptDone at hdone
            split at hdone
            · rfl
            · cases hdone
            · cases hdone
        | false =>
          have hfailed : (s.ended t result now).pending.Failed t.key := by
            show (s.pending.record t.key (attemptDone t.clear result) t.clear now).Failed t.key
            rw [hdone]
            exact s.pending.failed_record t.key t.clear now
          have hlast : (s.ended t result now).failedBy t.key =
              if s.pending.Failed t.key then max (s.failedBy t.key) t.number else t.number := by
            show (if attemptDone t.clear result = true then s.failedBy else Function.update s.failedBy t.key _) t.key = _
            rw [hdone, if_neg Bool.false_ne_true, Function.update_self]
          rcases Nat.lt_or_ge t.number since with hbefore | hsince
          · rcases hwitness with hflight | ⟨hrecord, hsince⟩
            · exact .attempted since hfresh' (Or.inl (hothers hbefore hflight))
            · refine .attempted since hfresh' (Or.inr ⟨hfailed, ?_⟩)
              rw [hlast, if_pos hrecord]
              exact Nat.le_trans hsince (Nat.le_max_left _ _)
          · refine .attempted since hfresh' (Or.inr ⟨hfailed, ?_⟩)
            rw [hlast]
            split
            · exact Nat.le_trans hsince (Nat.le_max_right _ _)
            · exact hsince
    · refine hsettled.congr (fun _ h => h) rfl id (fun u hukey => ?_)
        (s.pending.lookup_record_of_ne hkey _ _ now) ?_
      · rw [hmem]
        refine ⟨fun hu => hu.1, fun hu => ⟨hu, fun hsame => hkey ?_⟩⟩
        rw [← hukey, h.numbered.unique ht hu hsame]
      · show (if attemptDone t.clear result = true then s.failedBy else Function.update s.failedBy t.key _) key = _
        split
        · rfl
        · exact Function.update_of_ne hkey _ _

/-- **An answer comes back.** -/
theorem Sound.resumed (h : s.Sound localNodeIp) {number : Nat} (hkept : s.RecordKept number) (now : Instant) :
    (s.resumed number now).Sound localNodeIp := by
  unfold Publishing.resumed
  cases htask : s.task? number with
  | none => exact h
  | some t =>
    obtain ⟨ht, hnumber⟩ := mem_of_task? htask
    dsimp only
    split
    · rename_i q resume response hrest hanswer
      have hremaining : t.remaining = resume response := by
        unfold PublishTask.remaining
        rw [hrest, hanswer]
      cases hresume : resume response with
      | done result =>
        subst hnumber
        exact h.ended ht (hremaining.trans hresume) (hkept t ht rfl result (hremaining.trans hresume)) now
      | ask q' resume' =>
        refine ⟨h.numbered.setTask _, fun hready key htracked => ?_⟩
        refine (h.settled hready key htracked).goesOn h.numbered ht (u := { t with
          rest := .ask q' resume', answer := none }) rfl rfl rfl rfl id rfl rfl rfl ?_
        rintro - ⟨hclear, halone⟩
        rw [hremaining, hresume] at halone
        exact ⟨hclear, halone⟩
    · exact h

/-- **The retry loop** publishes the tracked Services that are due. -/
theorem Sound.retry (h : s.Sound localNodeIp) (now : Instant) : (s.retry localNodeIp now).Sound localNodeIp := by
  let mid : Publishing := { s with pending := (s.pending.takeDue now).1 }
  let works := (s.pending.takeDue now).2.map fun e => (retryWork (s.state.serviceKeys.contains e.1) e.2, e.1)
  have hworks : s.retry localNodeIp now = works.foldl (Publishing.runIngressWork localNodeIp now) mid := by
    rw [List.foldl_map]
    rfl
  have hnumbered : mid.Numbered := ⟨h.numbered.below, h.numbered.distinct⟩
  have hview := SameView.works localNodeIp now mid works
  rw [hworks]
  refine ⟨hnumbered.works works, fun hready key htracked => ?_⟩
  unfold Tracked at htracked
  rw [hview.state] at hready htracked
  refine settled_works hnumbered hready (fun work hwork hsame => ?_) (Or.inl ?_)
  · obtain ⟨e, -, rfl⟩ := List.mem_map.mp hwork
    obtain rfl : e.1 = key := hsame
    have hcontains : s.state.serviceKeys.contains e.1 = true := List.contains_iff_mem.mpr htracked
    dsimp only
    rw [hcontains]
    rfl
  · exact (h.settled hready key htracked).congr (fun _ h => h) rfl id (fun _ _ => Iff.rfl)
      (congrArg (fun keys : Table ServiceKey Pending => keys.lookup key) (s.pending.keys_takeDue now)) rfl

/-- **Somebody else writes an object**, which has not been seen yet. -/
theorem Sound.written (h : s.Sound localNodeIp) (other : ServiceKey) (object : Option IngressRegister) :
    ({ s with objects := Function.update s.objects other object, unseen := insert other s.unseen } : Publishing).Sound
      localNodeIp where
  numbered := ⟨h.numbered.below, h.numbered.distinct⟩
  settled hready key htracked := by
    by_cases hkey : key = other
    · exact .unseen (hkey ▸ Finset.mem_insert_self _ _)
    · exact (h.settled hready key htracked).congr (fun _ h => h) (Function.update_of_ne hkey _ _)
        (fun hunseen => Finset.mem_insert_of_mem hunseen) (fun _ _ => Iff.rfl) rfl rfl

/-! ## Runs -/

/-- A LIST of the Services names each once. -/
def ListsOnce : PublishStep → Prop
  | .watch (.services items) _ => Objects.Distinct serviceKey items
  | _ => True

/-- The step neither makes another front of an own address without a change of the own addresses, nor takes the failure of
    an attempt off the record for one that was spawned before it. -/
def Steady (localNodeIp : IpAddr) (s : Publishing) : PublishStep → Prop
  | .watch (.node event) _ => FrontsKept localNodeIp s.state (s.state.applyNodeEvent event)
  | .watch (.nodes items) _ => FrontsKept localNodeIp s.state (s.state.replaceNodes items localNodeIp).1
  | .resumed number _ => s.RecordKept number
  | _ => True

/-- **The step** keeps the invariant. -/
theorem Sound.step (h : s.Sound localNodeIp) {e : PublishStep} (hlist : ListsOnce e) (hsteady : s.Steady localNodeIp e) :
    (Publishing.step localNodeIp s e).Sound localNodeIp := by
  cases e with
  | watch input now =>
    refine h.watch input ?_ ?_ ?_ <;> rintro x rfl
    · exact hlist
    · exact hsteady
    · exact hsteady
  | served number how => exact h.served number how
  | resumed number now => exact h.resumed hsteady now
  | retry now => exact h.retry now
  | written key object => exact h.written key object

/-- Nothing is tracked yet, and nothing decidable. -/
theorem sound_initial (objects : ServiceKey → Option IngressRegister) :
    ({ objects } : Publishing).Sound localNodeIp where
  numbered := ⟨fun _ h => (nomatch h), List.nodup_nil⟩
  settled hready := nomatch hready

/-- The object is there, and of the own addresses it lists the wanted ones. -/
def Published (localNodeIp : IpAddr) (s : Publishing) (key : ServiceKey) : Prop :=
  ∃ r, s.objects key = some r ∧ ∀ ip, (ip ∈ s.state.ownNodeIps localNodeIp ∧ Advertised r.ingress ip) ↔
    ip ∈ s.state.ipsToPublish key localNodeIp

/-- What lists the wanted addresses and none of the other own ones is published. -/
theorem Wanted.published (h : s.Wanted localNodeIp key (s.objects key)) : s.Published localNodeIp key := by
  obtain ⟨r, hobject, hlists⟩ := h
  refine ⟨r, hobject, fun ip => ⟨fun ⟨hown, hlisted⟩ => (hlists ip hown).mp hlisted, fun hwanted => ?_⟩⟩
  have hown := WatchState.ipsToPublish_own hwanted
  exact ⟨hown, (hlists ip hown).mpr hwanted⟩

end

/-- **Published ingress at quiescence.** However events, LISTs, attempts and retries interleave, and whoever else writes
    the objects: once all is quiet and the LISTs are complete, every tracked Service lists, of this node's addresses, just
    the ones wanted, provided that every step was steady. -/
theorem published_at_quiescence {objects : ServiceKey → Option IngressRegister} {steps : List PublishStep}
    (hlists : ∀ e ∈ steps, ListsOnce e) (hsteady : Along (step localNodeIp) (Steady localNodeIp) { objects } steps)
    (hquiet : (steps.foldl (step localNodeIp) { objects }).Quiescent)
    (hready : (steps.foldl (step localNodeIp) { objects }).state.ingressDecidable = true) {key : ServiceKey}
    (htracked : (steps.foldl (step localNodeIp) { objects }).Tracked key) :
    (steps.foldl (step localNodeIp) { objects }).Published localNodeIp key := by
  have hlisted : Along (step localNodeIp) (fun _ e => ListsOnce e) { objects } steps :=
    along_iff.mpr fun before e after hsplit => hlists e (by rw [hsplit]; simp)
  have hkeep : ∀ s e, s.Sound localNodeIp → s.Steady localNodeIp e ∧ ListsOnce e →
      (step localNodeIp s e).Sound localNodeIp :=
    fun s e h hstep => h.step hstep.2 hstep.1
  have hsound := (hsteady.and hlisted).inv hkeep (sound_initial objects)
  exact ((hsound.settled hready key htracked).at_quiescence hquiet).published

end Publishing

/-! ## A front that is announced without a new address -/

section

/-- An address of a Node. -/
def addressObject (kind address : String) : Value := .obj [("type", .str kind), ("address", .str address)]

/-- The Node `edge` with two addresses: `10.0.0.1` is internal. -/
def edgeNode (kind address : String) : Value :=
  .obj [metaObject "" "edge" [], ("status", .obj [("addresses", .arr
    [addressObject "InternalIP" "10.0.0.1", addressObject kind address])])]

/-- An event that brings a new version of it. -/
def edgeModified (kind address : String) : PublishStep :=
  .watch (.node (.obj [("type", .str "MODIFIED"), ("object", edgeNode kind address)])) 0

/-- `10.0.0.1`. -/
def edgeNodeIp : IpAddr := .v4 0x0a000001

/-- The Service `web`. -/
def edgeService : ServiceKey := ⟨"default", "web"⟩

/-- Its object lists `203.0.113.7`. -/
def edgeObjects (key : ServiceKey) : Option IngressRegister :=
  if key = edgeService then some ⟨1, [ipEntry "203.0.113.7"]⟩ else none

/-- The LISTs: one Service, no slices, the Node with `203.0.113.7` as its external address. -/
def edgeLists : List PublishStep :=
  [.watch (.services [serviceObject "web" [portObject 80]]) 0, .watch (.endpointSlices []) 0,
    .watch (.nodes [edgeNode "ExternalIP" "203.0.113.7"]) 0]

/-- The two attempts after the LISTs, one after the other. -/
def edgeAttempts : List PublishStep := [.served 0 .served, .resumed 0 0, .served 1 .served, .resumed 1 0]

/-- The LISTs and what comes after them. -/
def edge (steps : List PublishStep) : Publishing :=
  (edgeLists ++ steps).foldl (Publishing.step edgeNodeIp) { objects := edgeObjects }

/-- Nothing is left to do, as far as it can be told by running it. -/
def Publishing.quiet (s : Publishing) : Bool :=
  decide (s.unseen = ∅) && s.tasks.isEmpty && s.pending.keys.entries.isEmpty && s.state.ingressDecidable &&
    s.state.serviceKeys.contains edgeService

/-- In an empty record no Service has failed. -/
theorem PublishRetry.not_failed {r : PublishRetry} (h : r.keys.entries.isEmpty = true) (key : ServiceKey) :
    ¬ r.Failed key := by
  rintro ⟨clear, hlookup⟩
  have hmem := AList.mem_lookup_iff.mp hlookup
  rw [List.isEmpty_iff.mp h] at hmem
  cases hmem

/-- The check is sound. -/
theorem Publishing.quiescent_of_quiet {s : Publishing} (h : s.quiet = true) :
    s.Quiescent ∧ s.state.ingressDecidable = true ∧ s.Tracked edgeService := by
  simp only [quiet, Bool.and_eq_true, decide_eq_true_eq] at h
  obtain ⟨⟨⟨⟨hunseen, htasks⟩, hpending⟩, hready⟩, htracked⟩ := h
  exact ⟨⟨hunseen, List.isEmpty_iff.mp htasks, PublishRetry.not_failed hpending⟩, hready,
    List.contains_iff_mem.mp htracked⟩

/-- The lists of the run, and whatever comes after them. -/
theorem edge_listsOnce {steps : List PublishStep} (h : ∀ e ∈ steps, Publishing.ListsOnce e) :
    ∀ e ∈ edgeLists ++ steps, Publishing.ListsOnce e := by
  intro e he
  rcases List.mem_append.mp he with hlist | hafter
  · simp only [edgeLists, List.mem_cons, List.not_mem_nil, or_false] at hlist
    rcases hlist with rfl | rfl | rfl
    · exact ⟨fun item hitem => List.mem_singleton.mp hitem ▸ (fun h => nomatch h), List.pairwise_singleton _ _⟩
    · trivial
    · trivial
  · exact h e hafter

/-- With an empty record, an attempt takes nothing off it. -/
theorem Publishing.recordKept_of_empty {s : Publishing} (h : s.pending.keys.entries.isEmpty = true) (number : Nat) :
    s.RecordKept number := by
  intro t _ _ _ _ _ hfailed
  exact absurd hfailed (PublishRetry.not_failed h t.key)

/-- The external address becomes another one, the Service is published with it, and the watch sees what was written. -/
def edgeMoved : List PublishStep :=
  [edgeModified "ExternalIP" "203.0.113.8", .served 2 .served, .resumed 2 0, .served 2 .served, .resumed 2 0,
    .watch (.service (.obj [("type", .str "MODIFIED"), ("object", serviceObject "web" [portObject 80])])) 0,
    .served 3 .served, .resumed 3 0]

/-- The run ends with nothing left to do. -/
theorem edgeMoved_quiet : (edge (edgeAttempts ++ edgeMoved)).quiet = true := by decide

/-- The Service lists the new external address. -/
theorem edge_published : (edge (edgeAttempts ++ edgeMoved)).Published edgeNodeIp edgeService := by
  obtain ⟨hquiet, hready, htracked⟩ := Publishing.quiescent_of_quiet edgeMoved_quiet
  refine Publishing.published_at_quiescence (edge_listsOnce ?_) ?_ hquiet hready htracked
  · simp [edgeAttempts, edgeMoved, edgeModified, Publishing.ListsOnce]
  · -- event by event: each attempt ends with an empty record
    refine along_append.mpr ⟨⟨trivial, trivial, fun h => absurd h (by decide), trivial⟩, along_append.mpr ⟨?_, ?_⟩⟩
    · exact ⟨trivial, Publishing.recordKept_of_empty (by decide) 0, trivial,
        Publishing.recordKept_of_empty (by decide) 1, trivial⟩
    · exact ⟨fun _ hsame => absurd hsame (by decide), trivial, Publishing.recordKept_of_empty (by decide) 2, trivial,
        Publishing.recordKept_of_empty (by decide) 2, trivial, trivial, Publishing.recordKept_of_empty (by decide) 3,
        trivial⟩

/-- `203.0.113.7` turns from an external into an internal address: the own addresses are the same ones, but now `10.0.0.1`
    is a front too. -/
def edgeTurned : Publishing := edge (edgeAttempts ++ [edgeModified "InternalIP" "203.0.113.7"])

/-- And so does this one, with no attempt after the event. -/
theorem edgeTurned_quiet : edgeTurned.quiet = true := by decide

/-- The Service is to be listed on `10.0.0.1` too. -/
theorem edgeTurned_wants : (edgeTurned.state.ipsToPublish edgeService edgeNodeIp).contains edgeNodeIp = true := by
  decide

/-- It is not. -/
theorem edgeTurned_lists : (edgeTurned.objects edgeService).all (fun r => r.ingress.all fun entry =>
    entryIp entry != some edgeNodeIp.display) = true := by
  decide

/-- It is not published again. -/
theorem not_published_at_quiescence : ¬ ∀ (localNodeIp : IpAddr) (objects : ServiceKey → Option IngressRegister)
    (steps : List PublishStep), (∀ e ∈ steps, Publishing.ListsOnce e) →
    (steps.foldl (Publishing.step localNodeIp) { objects }).Quiescent →
    (steps.foldl (Publishing.step localNodeIp) { objects }).state.ingressDecidable = true →
    ∀ key, (steps.foldl (Publishing.step localNodeIp) { objects }).Tracked key →
      (steps.foldl (Publishing.step localNodeIp) { objects }).Published localNodeIp key := by
  intro hpublished
  obtain ⟨hquiet, hready, htracked⟩ := Publishing.quiescent_of_quiet edgeTurned_quiet
  have honce : ∀ e ∈ edgeAttempts ++ [edgeModified "InternalIP" "203.0.113.7"], Publishing.ListsOnce e := by
    simp [edgeAttempts, edgeModified, Publishing.ListsOnce]
  obtain ⟨r, hobject, hlists⟩ := hpublished edgeNodeIp edgeObjects _ (edge_listsOnce honce) hquiet hready edgeService htracked
  obtain ⟨-, entry, hentry, hip⟩ := (hlists edgeNodeIp).mpr (List.contains_iff_mem.mp edgeTurned_wants)
  have hnone := edgeTurned_lists
  rw [show edgeTurned.objects edgeService = some r from hobject] at hnone
  have hother := List.all_eq_true.mp hnone entry hentry
  rw [hip] at hother
  simp at hother

/-- The external address changes, the attempt that knows it fails, and the older ones end well after it. -/
def edgeOvertaken : Publishing :=
  edge [edgeModified "ExternalIP" "203.0.113.8", .served 2 (.refused ⟨500, rfl⟩), .resumed 2 0, .served 0 .served,
    .resumed 0 0, .served 1 .served, .resumed 1 0]

/-- Nothing is left to do then either, and the new address is not listed. -/
example : edgeOvertaken.quiet = true ∧
    (edgeOvertaken.state.ipsToPublish edgeService edgeNodeIp).map IpAddr.display = ["203.0.113.8"] ∧
    (edgeOvertaken.objects edgeService).map (fun r => r.ingress.filterMap entryIp) = some ["203.0.113.7"] := by
  decide

end

end Beep
