import Beep.Controller.Lease
import Beep.Controller.Watch

/-!
# `Controller.Publish` — a node's addresses on its Services

`controller/src/main.rs`, the part that publishes `status.loadBalancer.ingress`: what this node lists on a Service
(`ownNodeIps`, `ipsToPublish`), which Services each watch event and LIST publishes again (`Publishing.watch`), the
attempts, each a task of its own over the GETs and PATCHes of `ensure_node_ingress`, and the record of failed ones that the
retry loop works off (`PublishRetry`).

A request of a task is served at one instant and its answer comes back at a later one; anything may happen before, between
and after. An object that is written tells the watch: `unseen` has the Services written since the last event or LIST of
them came in. The numbers of the attempts say only in which order they were spawned.
-/

namespace Beep

open Json (Value)

/-! ## What a node lists on a Service -/

/-- `publishes_ingress`. -/
def publishesIngress (policy : EndpointPolicy) (endpoints : List Endpoint) (nodeIp : IpAddr) (familyIsV4 : Bool) : Bool :=
  if policy ≠ .onlyLocal then true
  else
    let sameFamily := endpoints.filter fun e => e.podIp.isIpv4 == familyIsV4
    let usableAnywhere := sameFamily.any fun e => (e.ready && !e.terminating) || (e.serving && e.terminating)
    !usableAnywhere || !(localUsableEndpoints sameFamily nodeIp).isEmpty

namespace WatchState

/-- `own_node_ips`. -/
def ownNodeIps (s : WatchState) (localNodeIp : IpAddr) : List IpAddr :=
  match s.ownNodeAddrs localNodeIp with
  | some addrs => addrs.fronts.foldl (fun all ip => if all.contains ip then all else all ++ [ip]) addrs.underlay
  | none => [localNodeIp]

/-- `lease_ips`: the addresses that go into the node's Lease, once the Nodes are listed. -/
def leaseIps (s : WatchState) (localNodeIp : IpAddr) : Option (List IpAddr) :=
  if s.nodesListed then some (s.ownNodeIps localNodeIp) else none

/-- This node's front addresses, as far as they are known. -/
def ownFronts (s : WatchState) (localNodeIp : IpAddr) : List IpAddr :=
  match s.ownNodeAddrs localNodeIp with
  | some addrs => addrs.fronts
  | none => [localNodeIp]

/-- The endpoints of a Service as `ips_to_publish` looks at them. -/
def ingressEndpoints (s : WatchState) (key : ServiceKey) (localNodeIp : IpAddr) : List Endpoint :=
  (((s.slices.lookup key).getD ∅).values.flatMap (·.endpoints)).map fun e =>
    { podIp := e.podIp
      nodeIp := localNodeIp
      nodeAddrs := ((e.nodeName.bind fun n => s.nodeIps.lookup n).map fun a => a.underlay ++ a.fronts).getD []
      ready := e.ready
      terminating := e.terminating
      serving := e.serving
      ports := []
      podUid := none }

/-- `ips_to_publish`. -/
def ipsToPublish (s : WatchState) (key : ServiceKey) (localNodeIp : IpAddr) : List IpAddr :=
  match s.services.lookup key with
  | none => []
  | some svc =>
      let ownKnown := (s.ownNodeAddrs localNodeIp).isSome
      let endpoints := s.ingressEndpoints key localNodeIp
      ((s.ownFronts localNodeIp).filter fun ip => svc.frontsFamily (.of ip)).filter fun ip =>
        !ownKnown || publishesIngress svc.policy endpoints localNodeIp ip.isIpv4

theorem mem_foldl_fresh {ip : IpAddr} {fronts underlay : List IpAddr} :
    ip ∈ fronts.foldl (fun all ip => if all.contains ip then all else all ++ [ip]) underlay ↔
      ip ∈ underlay ∨ ip ∈ fronts := by
  induction fronts generalizing underlay with
  | nil => simp
  | cons front fronts ih =>
    rw [List.foldl_cons, ih, List.mem_cons]
    split
    · rename_i hthere
      have hmem : front ∈ underlay := List.contains_iff_mem.mp hthere
      refine ⟨fun h => h.imp_right Or.inr, fun h => ?_⟩
      rcases h with h | rfl | h
      · exact Or.inl h
      · exact Or.inl hmem
      · exact Or.inr h
    · rw [List.mem_append, List.mem_singleton, or_assoc]

/-- The addresses wanted are of this node. -/
theorem ipsToPublish_own {s : WatchState} {key : ServiceKey} {localNodeIp ip : IpAddr}
    (h : ip ∈ s.ipsToPublish key localNodeIp) :
    ip ∈ s.ownNodeIps localNodeIp := by
  unfold ipsToPublish at h
  split at h
  · cases h
  have hfront := (List.mem_filter.mp (List.mem_filter.mp h).1).1
  unfold ownFronts at hfront
  unfold ownNodeIps
  split at hfront
  · exact mem_foldl_fresh.mpr (Or.inr hfront)
  · exact hfront

/-- `ingress_decidable`. -/
def ingressDecidable (s : WatchState) : Bool := s.fullyListed

/-- `local_policy_service_keys`. -/
def localPolicyServiceKeys (s : WatchState) : List ServiceKey :=
  (s.services.entries.filter fun e => e.2.policy == .onlyLocal).map Sigma.fst

/-- `service_keys`. -/
def serviceKeys (s : WatchState) : List ServiceKey := s.services.keys

end WatchState

/-- `own_node_ips_changed`. -/
def ownNodeIpsChanged (before after : List IpAddr) : Bool := before.toFinset ≠ after.toFinset

/-! ## What an event asks for -/

/-- `stale_ingress_key`. -/
def staleIngressKey (event : Value) : Option ServiceKey :=
  match eventKind event with
  | some .upsert =>
      let obj := event.get "object"
      match ((obj.get "spec").get "type").asStr with
      | none => none
      | some serviceType =>
          let hasIngress := ((((obj.get "status").get "loadBalancer").get "ingress").asArray).any fun ingress =>
            !ingress.isEmpty
          if serviceType ≠ "LoadBalancer" ∧ hasIngress then serviceKey obj else none
  | _ => none

/-- `deleted_service_key`. -/
def deletedServiceKey (event : Value) : Option ServiceKey :=
  match eventKind event with
  | some .delete => serviceKey (event.get "object")
  | _ => none

/-- `stale_ingress_keys`. -/
def staleIngressKeys (items : List Value) : List ServiceKey := items.filterMap fun item => staleIngressKey (added item)

/-- `IngressWork`. -/
inductive IngressWork where
  | publish
  | clear
  | forget
  deriving DecidableEq

/-- `service_event_work`. -/
def serviceEventWork (changed : Option ServiceKey) (event : Value) : List (IngressWork × ServiceKey) :=
  changed.toList.map (fun key => (.publish, key)) ++ (staleIngressKey event).toList.map (fun key => (.clear, key)) ++
    (deletedServiceKey event).toList.map fun key => (.forget, key)

/-- `services_relist_work`. -/
def servicesRelistWork (keys : List ServiceKey) (items : List Value) : List (IngressWork × ServiceKey) :=
  keys.map (fun key => (.publish, key)) ++ (staleIngressKeys items).map fun key => (.clear, key)

/-- `retry_work`. -/
def retryWork (tracked clear : Bool) : IngressWork :=
  match tracked, clear with
  | true, _ => .publish
  | false, true => .clear
  | false, false => .forget

/-! ## The record of failed attempts -/

/-- `RETRY_INITIAL`. -/
def retryInitial : Nat := fromSecs 1

/-- `RETRY_MAX`. -/
def retryMax : Nat := fromSecs 30

/-- `RetryBackoff`. -/
structure RetryBackoff where
  failures : UInt32 := 0
  retryAt : Option Instant := none

namespace RetryBackoff

/-- `record`. -/
def record (b : RetryBackoff) (ok : Bool) (now : Instant) : RetryBackoff :=
  if ok then {}
  else if b.retryAt.any fun retryAt => now < retryAt then b
  else
    let factor := if b.failures < 32 then 2 ^ b.failures.toNat else 2 ^ 32 - 1
    { failures := if b.failures.toNat = 2 ^ 32 - 1 then b.failures else b.failures + 1
      retryAt := some (now + min (retryInitial * factor) retryMax) }

/-- `due`. -/
def due (b : RetryBackoff) (now : Instant) : Bool := b.retryAt.any fun retryAt => retryAt ≤ now

end RetryBackoff

/-- `Pending`. -/
inductive Pending where
  | failed (clear : Bool)
  | deferredClear
  deriving DecidableEq

/-- A failure, not a clear that waits for the LISTs. -/
def Pending.isFailed : Pending → Bool
  | .failed _ => true
  | .deferredClear => false

/-- `PublishRetry`. -/
structure PublishRetry where
  keys : Table ServiceKey Pending := ∅
  backoff : RetryBackoff := {}

namespace PublishRetry

/-- `reset_if_no_failures`. -/
def resetIfNoFailures (r : PublishRetry) : PublishRetry :=
  if r.keys.values.any Pending.isFailed then r else { r with backoff := {} }

/-- `record`. -/
def record (r : PublishRetry) (key : ServiceKey) (ok clear : Bool) (now : Instant) : PublishRetry :=
  if ok then { r with keys := r.keys.erase key }.resetIfNoFailures
  else { keys := r.keys.insert key (.failed clear), backoff := r.backoff.record false now }

/-- `defer_clear`. -/
def deferClear (r : PublishRetry) (key : ServiceKey) : PublishRetry :=
  { r with keys := r.keys.insert key .deferredClear }.resetIfNoFailures

/-- The failed attempt of one entry. -/
def failedEntry (key : ServiceKey) : Pending → Option (ServiceKey × Bool)
  | .failed clear => some (key, clear)
  | .deferredClear => none

/-- `take_due`. -/
def takeDue (r : PublishRetry) (now : Instant) : PublishRetry × List (ServiceKey × Bool) :=
  if !r.backoff.due now then (r, [])
  else
    ({ r with backoff := { r.backoff with retryAt := none } },
      r.keys.entries.filterMap fun e => failedEntry e.1 e.2)

/-- `pending_clears`. -/
def pendingClears (r : PublishRetry) : List ServiceKey :=
  (r.keys.entries.filter fun e => e.2 = .failed true ∨ e.2 = .deferredClear).map Sigma.fst

/-- A failed attempt of the Service is to be retried. -/
def Failed (r : PublishRetry) (key : ServiceKey) : Prop := ∃ clear, r.keys.lookup key = some (.failed clear)

instance (r : PublishRetry) (key : ServiceKey) : Decidable (r.Failed key) :=
  decidable_of_iff ((r.keys.lookup key).any Pending.isFailed = true) (by
    unfold Failed
    cases r.keys.lookup key with
    | none => simp
    | some pending => cases pending <;> simp [Pending.isFailed])

/-! ### What the operations do -/

variable (r : PublishRetry)

@[simp] theorem keys_resetIfNoFailures : r.resetIfNoFailures.keys = r.keys := by
  unfold resetIfNoFailures
  split <;> rfl

/-- The backoff is reset only if nothing failed. -/
theorem backoff_resetIfNoFailures :
    r.resetIfNoFailures.backoff = r.backoff ∨
      r.resetIfNoFailures.backoff = {} ∧ ∀ key, ¬ r.resetIfNoFailures.Failed key := by
  unfold resetIfNoFailures
  split
  · exact Or.inl rfl
  · rename_i hnone
    refine Or.inr ⟨rfl, ?_⟩
    rintro key ⟨clear, hkey⟩
    exact hnone (List.any_eq_true.mpr ⟨_, Table.mem_values.mpr ⟨key, hkey⟩, rfl⟩)

theorem backoff_record_success (key : ServiceKey) (clear : Bool) (now : Instant) :
    (r.record key true clear now).backoff = r.backoff ∨
      (r.record key true clear now).backoff = {} ∧ ∀ other, ¬ (r.record key true clear now).Failed other :=
  backoff_resetIfNoFailures { r with keys := r.keys.erase key }

theorem backoff_deferClear (key : ServiceKey) :
    (r.deferClear key).backoff = r.backoff ∨
      (r.deferClear key).backoff = {} ∧ ∀ other, ¬ (r.deferClear key).Failed other :=
  backoff_resetIfNoFailures { r with keys := r.keys.insert key .deferredClear }

/-- What a record leaves of a Service. -/
theorem lookup_record (key other : ServiceKey) (ok clear : Bool) (now : Instant) :
    (r.record other ok clear now).keys.lookup key =
      if key = other then if ok then none else some (.failed clear) else r.keys.lookup key := by
  cases ok with
  | true =>
    show ({ r with keys := r.keys.erase other } : PublishRetry).resetIfNoFailures.keys.lookup key = _
    rw [keys_resetIfNoFailures, Table.lookup_erase_ite]
    rfl
  | false => exact Table.lookup_insert_ite ..

/-- The record of another Service is as it was. -/
theorem lookup_record_of_ne {key other : ServiceKey} (h : key ≠ other) (ok clear : Bool) (now : Instant) :
    (r.record other ok clear now).keys.lookup key = r.keys.lookup key := by
  rw [lookup_record, if_neg h]

/-- A failure is on record. -/
theorem failed_record (key : ServiceKey) (clear : Bool) (now : Instant) :
    (r.record key false clear now).Failed key := by
  refine ⟨clear, ?_⟩
  rw [lookup_record, if_pos rfl]
  rfl

theorem lookup_deferClear (key other : ServiceKey) :
    (r.deferClear other).keys.lookup key = if key = other then some .deferredClear else r.keys.lookup key := by
  unfold deferClear
  rw [keys_resetIfNoFailures, Table.lookup_insert_ite]

theorem keys_takeDue (now : Instant) : (r.takeDue now).1.keys = r.keys := by
  unfold takeDue
  split <;> rfl

/-- What is due: the failed attempts on record. -/
theorem mem_takeDue {now : Instant} {key : ServiceKey} {clear : Bool} :
    (key, clear) ∈ (r.takeDue now).2 ↔ r.backoff.due now = true ∧ r.keys.lookup key = some (.failed clear) := by
  unfold takeDue
  cases r.backoff.due now with
  | false => simp
  | true =>
    simp only [Bool.not_true, Bool.false_eq_true, if_false, true_and, List.mem_filterMap]
    constructor
    · rintro ⟨⟨other, pending⟩, hmem, hentry⟩
      cases pending with
      | deferredClear => cases hentry
      | failed c =>
        cases hentry
        exact AList.mem_lookup_iff.mpr hmem
    · intro hkey
      exact ⟨⟨key, .failed clear⟩, AList.mem_lookup_iff.mp hkey, rfl⟩

theorem mem_pendingClears {key : ServiceKey} :
    key ∈ r.pendingClears ↔
      r.keys.lookup key = some (.failed true) ∨ r.keys.lookup key = some .deferredClear := by
  unfold pendingClears
  simp only [List.mem_map, List.mem_filter, decide_eq_true_eq]
  constructor
  · rintro ⟨⟨other, pending⟩, ⟨hmem, hwhich⟩, rfl⟩
    have hkey : r.keys.lookup other = some pending := AList.mem_lookup_iff.mpr hmem
    rw [hkey]
    exact hwhich.imp (congrArg some) (congrArg some)
  · rintro (hkey | hkey)
    · exact ⟨_, ⟨AList.mem_lookup_iff.mp hkey, Or.inl rfl⟩, rfl⟩
    · exact ⟨_, ⟨AList.mem_lookup_iff.mp hkey, Or.inr rfl⟩, rfl⟩

end PublishRetry

/-- `attempt_done`. -/
def attemptDone (clear : Bool) : Except UpdateError Unit → Bool
  | .ok () => true
  | .error (.serviceGone _) => clear
  | .error (.failed _) => false

/-! ## Attempts -/

/-- A request to the object of a Service, which may be none. -/
def serveService (object : Option IngressRegister) (request : ApiRequest) (how : Serving) :
    Option IngressRegister × Option ApiResponse :=
  match object with
  | some r => (some (r.serve request how).1, (r.serve request how).2)
  | none =>
      (none,
        match how with
        | .served => some ⟨HttpStatus.notFound, none⟩
        | .refused status => some ⟨status.val, none⟩
        | .lost _ => none)

/-- An attempt in flight: what is left of its task, and the answer to its request, if that was served. -/
structure PublishTask where
  number : Nat
  key : ServiceKey
  clear : Bool
  rest : ApiTask (Except UpdateError Unit)
  answer : Option (Option ApiResponse)

/-- What is left of the task once its answer is back. -/
def PublishTask.remaining (t : PublishTask) : ApiTask (Except UpdateError Unit) :=
  match t.rest, t.answer with
  | .ask _ resume, some response => resume response
  | rest, _ => rest

/-- The controller of one node, as far as it publishes, and the objects it publishes to. -/
structure Publishing where
  state : WatchState := {}
  objects : ServiceKey → Option IngressRegister
  unseen : Finset ServiceKey := ∅
  pending : PublishRetry := {}
  tasks : List PublishTask := []
  spawned : Nat := 0
  /-- the last spawned one of the attempts of a Service whose failure is on record -/
  failedBy : ServiceKey → Nat := fun _ => 0

/-- What happens next: a watch event or a LIST comes in, a request of an attempt is served, its answer comes back, the retry
    loop looks for what is due, or somebody else writes an object. -/
inductive PublishStep where
  | watch (input : WatchInput) (now : Instant)
  | served (number : Nat) (how : Serving)
  | resumed (number : Nat) (now : Instant)
  | retry (now : Instant)
  | written (key : ServiceKey) (object : Option IngressRegister)

namespace Publishing

variable (localNodeIp : IpAddr)

/-- `publish_ingress`. -/
def publishIngress (s : Publishing) (key : ServiceKey) (ownIps desiredIps : List IpAddr) (clear : Bool) : Publishing :=
  let task : PublishTask :=
    { number := s.spawned, key, clear, rest := ensureNodeIngress key.ns key.name ownIps desiredIps, answer := none }
  { s with tasks := s.tasks ++ [task], spawned := s.spawned + 1 }

/-- `publish_ingress_for`. -/
def publishIngressFor (s : Publishing) (key : ServiceKey) : Publishing :=
  if !s.state.ingressDecidable then s
  else s.publishIngress key (s.state.ownNodeIps localNodeIp) (s.state.ipsToPublish key localNodeIp) false

/-- `ingress_clear_ips`. -/
def ingressClearIps (state : WatchState) : Option (List IpAddr) :=
  if state.ingressDecidable then some (state.ownNodeIps localNodeIp) else none

/-- `clear_ingress_for`. -/
def clearIngressFor (s : Publishing) (key : ServiceKey) : Publishing :=
  match ingressClearIps localNodeIp s.state with
  | none => { s with pending := s.pending.deferClear key }
  | some ownIps => s.publishIngress key ownIps [] true

/-- `run_ingress_work`. -/
def runIngressWork (now : Instant) (s : Publishing) (work : IngressWork × ServiceKey) : Publishing :=
  match work.1 with
  | .publish => s.publishIngressFor localNodeIp work.2
  | .clear => s.clearIngressFor localNodeIp work.2
  | .forget => { s with pending := s.pending.record work.2 true false now }

/-- `republish_if_own_ips_changed`. -/
def republishIfOwnIpsChanged (s : Publishing) (before : List IpAddr) : Publishing :=
  let keys :=
    if ownNodeIpsChanged before (s.state.ownNodeIps localNodeIp) then s.state.serviceKeys
    else s.state.localPolicyServiceKeys
  keys.foldl (publishIngressFor localNodeIp) s

/-- `after_list`. -/
def afterList (s : Publishing) (wasReady : Bool) : Publishing :=
  if !wasReady && s.state.ingressDecidable then
    let keys := s.state.serviceKeys
    let s := keys.foldl (publishIngressFor localNodeIp) s
    (s.pending.pendingClears.filter fun key => !keys.contains key).foldl (clearIngressFor localNodeIp) s
  else s

/-- The Services written and not seen since, once an event came in. -/
def unseenAfter (unseen : Finset ServiceKey) (event : Value) : Finset ServiceKey :=
  match eventKind event, serviceKey (event.get "object") with
  | some _, some key => unseen.erase key
  | _, _ => unseen

/-- `on_service`. -/
def onService (s : Publishing) (event : Value) (now : Instant) : Publishing :=
  let (state, changed) := s.state.applyServiceEvent event
  (serviceEventWork changed event).foldl (runIngressWork localNodeIp now)
    { s with state, unseen := unseenAfter s.unseen event }

/-- `on_services_relist`. -/
def onServicesRelist (s : Publishing) (items : List Value) (now : Instant) : Publishing :=
  match s.state.replaceServices items with
  | (_, .error _) => s
  | (state, .ok keys) =>
      ((servicesRelistWork keys items).foldl (runIngressWork localNodeIp now) { s with state, unseen := ∅ }).afterList
        localNodeIp s.state.ingressDecidable

/-- `on_endpoint_slice`. -/
def onEndpointSlice (s : Publishing) (event : Value) : Publishing :=
  let (state, localPolicyKey) := s.state.applyEndpointSliceEvent event
  localPolicyKey.toList.foldl (publishIngressFor localNodeIp) { s with state }

/-- `on_endpoint_slices_relist`. -/
def onEndpointSlicesRelist (s : Publishing) (items : List Value) : Publishing :=
  match s.state.replaceEndpointSlices items with
  | (_, .error _) => s
  | (state, .ok ()) =>
      (state.localPolicyServiceKeys.foldl (publishIngressFor localNodeIp) { s with state }).afterList localNodeIp
        s.state.ingressDecidable

/-- `on_node`. -/
def onNode (s : Publishing) (event : Value) : Publishing :=
  { s with state := s.state.applyNodeEvent event }.republishIfOwnIpsChanged localNodeIp
    (s.state.ownNodeIps localNodeIp)

/-- `on_nodes_relist`. -/
def onNodesRelist (s : Publishing) (items : List Value) : Publishing :=
  match s.state.replaceNodes items localNodeIp with
  | (_, .error _) => s
  | (state, .ok ()) =>
      ({ s with state }.republishIfOwnIpsChanged localNodeIp (s.state.ownNodeIps localNodeIp)).afterList localNodeIp
        s.state.ingressDecidable

/-- A watch event or a LIST comes in. -/
def watch (s : Publishing) (now : Instant) : WatchInput → Publishing
  | .service event => s.onService localNodeIp event now
  | .services items => s.onServicesRelist localNodeIp items now
  | .endpointSlice event => s.onEndpointSlice localNodeIp event
  | .endpointSlices items => s.onEndpointSlicesRelist localNodeIp items
  | .node event => s.onNode localNodeIp event
  | .nodes items => s.onNodesRelist localNodeIp items

/-- The attempt of a number, if it is in flight. -/
def task? (s : Publishing) (number : Nat) : Option PublishTask := s.tasks.find? fun t => t.number = number

/-- The attempt goes on as another one. -/
def setTask (s : Publishing) (t : PublishTask) : Publishing :=
  { s with tasks := s.tasks.map fun u => if u.number = t.number then t else u }

/-- The request of an attempt is served; the watch hears of an object that is written. -/
def served (s : Publishing) (number : Nat) (how : Serving) : Publishing :=
  match s.task? number with
  | none => s
  | some t =>
      match t.rest, t.answer with
      | .ask q _, none =>
          let (object, response) := serveService (s.objects t.key) q how
          let unseen :=
            if object.map (·.version) = (s.objects t.key).map (·.version) then s.unseen else insert t.key s.unseen
          { s with objects := Function.update s.objects t.key object, unseen }.setTask { t with answer := some response }
      | _, _ => s

/-- An attempt ends, and its end is recorded. -/
def ended (s : Publishing) (t : PublishTask) (result : Except UpdateError Unit) (now : Instant) : Publishing :=
  let ok := attemptDone t.clear result
  { s with
    tasks := s.tasks.filter fun u => u.number ≠ t.number
    pending := s.pending.record t.key ok t.clear now
    failedBy :=
      if ok then s.failedBy
      else Function.update s.failedBy t.key
        (if s.pending.Failed t.key then max (s.failedBy t.key) t.number else t.number) }

/-- The answer of an attempt comes back. -/
def resumed (s : Publishing) (number : Nat) (now : Instant) : Publishing :=
  match s.task? number with
  | none => s
  | some t =>
      match t.rest, t.answer with
      | .ask _ resume, some response =>
          match resume response with
          | .done result => s.ended t result now
          | rest => s.setTask { t with rest, answer := none }
      | _, _ => s

/-- One turn of `run_publish_retry_loop`. -/
def retry (s : Publishing) (now : Instant) : Publishing :=
  let (pending, due) := s.pending.takeDue now
  let tracked := s.state.serviceKeys
  due.foldl (fun s e => s.runIngressWork localNodeIp now (retryWork (tracked.contains e.1) e.2, e.1)) { s with pending }

/-- The step. -/
def step (s : Publishing) : PublishStep → Publishing
  | .watch input now => s.watch localNodeIp now input
  | .served number how => s.served number how
  | .resumed number now => s.resumed number now
  | .retry now => s.retry localNodeIp now
  | .written key object =>
      { s with objects := Function.update s.objects key object, unseen := insert key s.unseen }

/-- No write is unseen, no attempt is in flight, and no failed one waits for its retry. -/
def Quiescent (s : Publishing) : Prop := s.unseen = ∅ ∧ s.tasks = [] ∧ ∀ key, ¬ s.pending.Failed key

end Publishing

end Beep
