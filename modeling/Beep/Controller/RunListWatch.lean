import Beep.Controller.ListWatch

/-!
# `Controller.RunListWatch` — the list-then-watch loop of one resource

`run_list_watch` of `controller/src/watch.rs` as a state machine: the loop sends one request at a time, a LIST while it
has no resource version and a WATCH from the one it has, and each reply of the API server is one step
(`ListWatchLoop.step`). The callbacks, what they write to and the text of an HTTP error are parameters.

A reply can say in two ways that the version asked for has expired: as HTTP 410, and as a frame of type `ERROR` with
code 410 in a stream that was accepted. The loop hears the first from the text of the error. The second is a frame like
any other: it goes to `on_event`, where no handler reads it (`WatchState.apply_errorFrame`), and the loop goes on
watching from where it was.
-/

namespace Beep

open Json (Value)
open Run

/-! ## Frames and texts -/

/-- `bookmark_resource_version`. -/
def bookmarkResourceVersion (event : Value) : Option String :=
  if (event.get "type").asStr = some "BOOKMARK" then
    (((event.get "object").get "metadata").get "resourceVersion").asStr
  else none

/-- A frame that says the version watched from has expired. -/
def errorFrame (event : Value) : Bool :=
  (event.get "type").asStr == some "ERROR" && ((event.get "object").get "code").asU64 == some 410

/-- `is_resource_expired`, on the text of the error. -/
def isResourceExpired (err : String) : Bool := decide ("410".toList <:+: err.toList)

/-- `INITIAL_BACKOFF`, in milliseconds. -/
def initialBackoff : Nat := 500

/-- `MAX_BACKOFF`. -/
def maxBackoff : Nat := 30000

/-- `next_backoff`. -/
def nextBackoff (current : Nat) (succeeded : Bool) : Nat :=
  if succeeded then initialBackoff else min (current * 2) maxBackoff

/-- `list_resource_version`. -/
def listResourceVersion (listBody : Value) : Option String :=
  ((listBody.get "metadata").get "resourceVersion").asStr

/-- `parse_list`, on the body as JSON: its items and its version, none for one page of several or without a version. -/
def parseList (parsed : Option Value) : Option (List Value × String) :=
  match parsed with
  | none => none
  | some parsed =>
      if (((parsed.get "metadata").get "continue").asStr.getD "") ≠ "" then none
      else (listResourceVersion parsed).map fun version => ((parsed.get "items").asArray.getD [], version)

/-! ## Requests and replies -/

/-- What the loop asks the API server for. -/
inductive ListWatchRequest where
  | list
  | watch (resourceVersion : String)
  deriving DecidableEq

/-- What becomes of a LIST: no response, or a status with a body (none if it is not JSON). -/
inductive ListReply where
  | failed
  | response (status : Nat) (body : Option Value)

/-- `list`. -/
def ListReply.parsed : ListReply → Option (List Value × String)
  | .failed => none
  | .response status body => if 200 ≤ status ∧ status < 300 then parseList body else none

/-- What becomes of a WATCH: a status that is no success, or a stream of frames that ends or breaks with an error. -/
inductive WatchReply where
  | refused (status : Nat)
  | stream (frames : List Value) (broken : Option String)

/-- What the loop relies on of the client: the text of an HTTP error names the status. -/
structure HyperApiClient where
  httpError : Nat → String
  names_status : ∀ status, (toString status).toList <:+: (httpError status).toList

namespace WatchReply

variable (client : HyperApiClient)

/-- The frames handed to the callback. -/
def frames : WatchReply → List Value
  | .refused _ => []
  | .stream frames _ => frames

/-- The error `watch_stream` returns, none at the end of a stream. -/
def error? : WatchReply → Option String
  | .refused status => some (client.httpError status)
  | .stream _ broken => broken

/-- `latest_rv` after the frames. -/
def latestRv (reply : WatchReply) : Option String := (reply.frames.filterMap bookmarkResourceVersion).getLast?

/-- The API server says that the version asked for is no longer available. -/
def reportsExpired : WatchReply → Bool
  | .refused status => status == 410
  | .stream frames _ => frames.any errorFrame

/-- The loop takes the version for expired. -/
def heardExpired (reply : WatchReply) : Bool := (reply.error? client).any isResourceExpired

end WatchReply

/-- A reply of the API server. -/
inductive ListWatchReply where
  | list (reply : ListReply)
  | watch (reply : WatchReply)

/-! ## The loop -/

/-- `on_event` and `on_relist`, which write to `σ`; `on_relist` can refuse a list. -/
structure ListWatchCallbacks (σ : Type*) where
  onEvent : σ → Value → σ
  onRelist : σ → List Value → σ × Bool

/-- The locals of `run_list_watch` between two requests, and what its callbacks write to. -/
structure ListWatchLoop (σ : Type*) where
  app : σ
  backoff : Nat := initialBackoff
  resourceVersion : Option String := none

namespace ListWatchLoop

variable {σ : Type*} (client : HyperApiClient) (callbacks : ListWatchCallbacks σ)

/-- The next request. -/
def request (loop : ListWatchLoop σ) : ListWatchRequest :=
  match loop.resourceVersion with
  | none => .list
  | some version => .watch version

/-- After a LIST. -/
def listed (loop : ListWatchLoop σ) (reply : ListReply) : ListWatchLoop σ :=
  match reply.parsed with
  | none => { loop with backoff := nextBackoff loop.backoff false }
  | some (items, version) =>
      match callbacks.onRelist loop.app items with
      | (app, true) => { app, backoff := initialBackoff, resourceVersion := some version }
      | (app, false) => { loop with app, backoff := nextBackoff loop.backoff false }

/-- The closure given to `watch_stream`: a bookmark moves the resume point, any other frame is an event. -/
def onFrame (app : σ) (event : Value) : σ :=
  match bookmarkResourceVersion event with
  | some _ => app
  | none => callbacks.onEvent app event

/-- After a WATCH. -/
def watched (loop : ListWatchLoop σ) (reply : WatchReply) : ListWatchLoop σ :=
  let app := reply.frames.foldl (onFrame callbacks) loop.app
  let resourceVersion := reply.latestRv.or loop.resourceVersion
  match reply.error? client with
  | none => { app, backoff := initialBackoff, resourceVersion }
  | some err =>
      { app
        backoff := nextBackoff loop.backoff false
        resourceVersion := if isResourceExpired err then none else resourceVersion }

/-- One reply; only a reply to the request that was made has an effect. -/
def step (loop : ListWatchLoop σ) (reply : ListWatchReply) : ListWatchLoop σ :=
  match loop.resourceVersion, reply with
  | none, .list reply => loop.listed callbacks reply
  | some _, .watch reply => loop.watched client callbacks reply
  | _, _ => loop

/-- The loop after some replies. -/
def run (app : σ) (replies : List ListWatchReply) : ListWatchLoop σ :=
  replies.foldl (step client callbacks) { app }

/-! ## What a reply does -/

section
variable {client : HyperApiClient} {callbacks : ListWatchCallbacks σ} {loop : ListWatchLoop σ}

theorem run_append (app : σ) (replies replies' : List ListWatchReply) :
    run client callbacks app (replies ++ replies') =
      replies'.foldl (step client callbacks) (run client callbacks app replies) := by
  simp [run, List.foldl_append]

theorem request_eq_list : loop.request = .list ↔ loop.resourceVersion = none := by
  unfold request
  cases loop.resourceVersion <;> simp

theorem request_eq_watch {version : String} : loop.request = .watch version ↔ loop.resourceVersion = some version := by
  unfold request
  cases loop.resourceVersion <;> simp

/-- The items of a LIST are handed to `on_relist`. -/
theorem app_step_list (hloop : loop.request = .list) {reply : ListReply} {items : List Value} {version : String}
    (hreply : reply.parsed = some (items, version)) :
    (loop.step client callbacks (.list reply)).app = (callbacks.onRelist loop.app items).1 := by
  have hnone := request_eq_list.mp hloop
  simp only [step, hnone, listed, hreply]
  rcases callbacks.onRelist loop.app items with ⟨app, _ | _⟩ <;> rfl

/-- The resume point after a WATCH. -/
theorem resourceVersion_watched (reply : WatchReply) : (loop.watched client callbacks reply).resourceVersion =
    if reply.heardExpired client then none else reply.latestRv.or loop.resourceVersion := by
  unfold watched WatchReply.heardExpired
  cases reply.error? client with
  | none => simp
  | some err => simp

/-- The version that a reply makes the loop's: that of an accepted LIST, or the last bookmark of a stream that does not
    end in an error that is taken for an expiry. -/
def Gives (client : HyperApiClient) (callbacks : ListWatchCallbacks σ) (loop : ListWatchLoop σ) (reply : ListWatchReply)
    (version : String) : Prop :=
  match loop.request, reply with
  | .list, .list reply => ∃ items, reply.parsed = some (items, version) ∧ (callbacks.onRelist loop.app items).2 = true
  | .watch _, .watch reply => reply.latestRv = some version ∧ reply.heardExpired client = false
  | _, _ => False

/-- **The step**: the resume point is the version a reply gives, or the one it was. -/
theorem resourceVersion_step {reply : ListWatchReply} {version : String} :
    (loop.step client callbacks reply).resourceVersion = some version →
      loop.resourceVersion = some version ∨ Gives client callbacks loop reply version := by
  intro hstep
  cases hversion : loop.resourceVersion with
  | none =>
    cases reply with
    | watch reply => simp [step, hversion] at hstep
    | list reply =>
      simp only [step, hversion, listed] at hstep
      cases hparsed : reply.parsed with
      | none => simp [hparsed] at hstep
      | some parsed =>
        obtain ⟨items, given⟩ := parsed
        simp only [hparsed] at hstep
        rcases hrelist : callbacks.onRelist loop.app items with ⟨app, accepted⟩
        cases accepted with
        | false => simp [hrelist] at hstep
        | true =>
          simp only [hrelist, Option.some.injEq] at hstep
          subst hstep
          right
          simp [Gives, request, hversion, hparsed, hrelist]
  | some old =>
    cases reply with
    | list reply =>
      left
      simpa [step, hversion] using hstep
    | watch reply =>
      simp only [step, hversion, resourceVersion_watched] at hstep
      cases hheard : reply.heardExpired client with
      | true => simp [hheard] at hstep
      | false =>
        simp only [hheard] at hstep
        cases hlatest : reply.latestRv with
        | none =>
          left
          simpa [hlatest] using hstep
        | some given =>
          right
          simpa [Gives, request, hversion, hlatest, hheard] using hstep

/-- What a reply gives is the resume point. -/
theorem Gives.resourceVersion {reply : ListWatchReply} {version : String}
    (h : Gives client callbacks loop reply version) :
    (loop.step client callbacks reply).resourceVersion = some version := by
  cases hversion : loop.resourceVersion with
  | none =>
    cases reply with
    | watch reply => simp [Gives, request, hversion] at h
    | list reply =>
      simp only [Gives, request, hversion] at h
      obtain ⟨items, hparsed, haccepted⟩ := h
      simp only [step, hversion, listed, hparsed]
      rcases hrelist : callbacks.onRelist loop.app items with ⟨app, accepted⟩
      rw [hrelist] at haccepted
      subst haccepted
      rfl
  | some old =>
    cases reply with
    | list reply => simp [Gives, request, hversion] at h
    | watch reply =>
      simp only [Gives, request, hversion] at h
      simp [step, hversion, resourceVersion_watched, h.1, h.2]

/-! ## Expired versions -/

/-- The loop watches from a version, and the reply says that it has expired. -/
def Expires (loop : ListWatchLoop σ) (reply : ListWatchReply) (version : String) : Prop :=
  loop.request = .watch version ∧ ∃ answer, reply = .watch answer ∧ answer.reportsExpired = true

/-- Whenever a reply says that the version has expired, the next request is a LIST, whose items are handed to
    `on_relist`, and no request after that watches from the version. -/
def ExpiryRelists (client : HyperApiClient) (callbacks : ListWatchCallbacks σ) (app : σ)
    (replies : List ListWatchReply) : Prop :=
  ∀ before reply after version, replies = before ++ reply :: after →
    Expires (run client callbacks app before) reply version →
      let next := run client callbacks app (before ++ [reply])
      next.request = .list ∧
        (∀ answer items given, answer.parsed = some (items, given) →
          (next.step client callbacks (.list answer)).app = (callbacks.onRelist next.app items).1) ∧
        ∀ between rest, after = between ++ rest →
          (run client callbacks app (before ++ reply :: between)).request ≠ .watch version

/-- Whenever a reply says that the version has expired, it also ends in an error that names 410, and no reply gives the
    version again. -/
def ExpiryHeard (client : HyperApiClient) (callbacks : ListWatchCallbacks σ) (app : σ)
    (replies : List ListWatchReply) : Prop :=
  ∀ before answer after version, replies = before ++ .watch answer :: after →
    Expires (run client callbacks app before) (.watch answer) version →
      answer.heardExpired client = true ∧
        ∀ between reply rest, after = between ++ reply :: rest →
          ¬ Gives client callbacks (run client callbacks app (before ++ .watch answer :: between)) reply version

/-- HTTP 410 is heard. -/
theorem heardExpired_of_gone : (WatchReply.refused 410).heardExpired client = true := by
  simp only [WatchReply.heardExpired, WatchReply.error?, Option.any_some, isResourceExpired, decide_eq_true_eq]
  exact client.names_status 410

/-- Once it is heard, the version is gone until it is given again. -/
theorem not_resumes_of_not_given {version : String} (hloop : loop.resourceVersion ≠ some version)
    {replies : List ListWatchReply} (h : ∀ between reply rest, replies = between ++ reply :: rest →
      ¬ Gives client callbacks (between.foldl (step client callbacks) loop) reply version) :
    (replies.foldl (step client callbacks) loop).resourceVersion ≠ some version := by
  intro hresumes
  obtain ⟨between, reply, rest, hsplit, hgives, -⟩ := exists_origin
    (fun loop => loop.resourceVersion = some version) (fun loop reply => Gives client callbacks loop reply version)
    (fun loop reply => resourceVersion_step) hloop replies hresumes
  exact h between reply rest hsplit hgives

/-- **An expired watch relists** exactly if the expiry ends the stream with an error that names 410, and no later reply
    gives the version again. -/
theorem expired_watch_relists_iff (client : HyperApiClient) (callbacks : ListWatchCallbacks σ) (app : σ)
    (replies : List ListWatchReply) :
    ExpiryRelists client callbacks app replies ↔ ExpiryHeard client callbacks app replies := by
  constructor
  · intro h before answer after version hsplit hexpires
    obtain ⟨hrequest, -, hnever⟩ := h before _ after version hsplit hexpires
    have hwatches := request_eq_watch.mp hexpires.1
    refine ⟨?_, ?_⟩
    · -- unheard, the loop has a version to watch from
      by_contra hunheard
      rw [request_eq_list, run_append] at hrequest
      simp [step, hwatches, resourceVersion_watched, hunheard] at hrequest
    · rintro between reply rest rfl hgives
      apply hnever (between ++ [reply]) rest (by simp)
      rw [request_eq_watch, ← List.cons_append, ← List.append_assoc, run_append]
      exact hgives.resourceVersion
  · rintro h before reply after version hsplit hexpires
    obtain ⟨hrequest, answer, rfl, hreports⟩ := hexpires
    obtain ⟨hheard, hgiven⟩ := h before answer after version hsplit ⟨hrequest, answer, rfl, hreports⟩
    have hwatches := request_eq_watch.mp hrequest
    have hnone : (run client callbacks app (before ++ [.watch answer])).resourceVersion = none := by
      rw [run_append]
      simp [step, hwatches, resourceVersion_watched, hheard]
    refine ⟨request_eq_list.mpr hnone, ?_, ?_⟩
    · intro list items given hparsed
      exact app_step_list (request_eq_list.mpr hnone) hparsed
    · rintro between rest rfl hrequest'
      have hresumes := request_eq_watch.mp hrequest'
      rw [List.append_cons, run_append] at hresumes
      refine not_resumes_of_not_given (by simp [hnone]) ?_ hresumes
      rintro between' reply rest' rfl hgives
      apply hgiven between' reply (rest' ++ rest) (by simp)
      rw [List.append_cons, run_append]
      exact hgives

end

/-! ## An expiry inside a stream -/

/-- A client whose errors read like those of the one that is used. -/
def statusClient : HyperApiClient where
  httpError status := "watch returned HTTP " ++ toString status
  names_status status := by
    rw [String.toList_append]
    exact List.suffix_append .. |>.isInfix

/-- A LIST at version 5, and a stream from there that says the version has expired and ends. -/
def expiringReplies : List ListWatchReply :=
  [.list (.response 200 (some (.obj [("metadata", .obj [("resourceVersion", .str "5")])]))),
    .watch (.stream [.obj [("type", .str "ERROR"), ("object", .obj [("code", .uint 410)])]] none)]

/-- The loop watches from the expired version again. -/
theorem not_expired_watch_relists : ¬ ∀ (client : HyperApiClient) (callbacks : ListWatchCallbacks Unit) (app : Unit)
    (replies : List ListWatchReply), ExpiryRelists client callbacks app replies := by
  intro hexpiry
  have hrelists := hexpiry statusClient ⟨fun _ _ => (), fun _ _ => ((), true)⟩ () expiringReplies
    [expiringReplies.get ⟨0, by decide⟩] (expiringReplies.get ⟨1, by decide⟩) [] "5" rfl
    ⟨by decide, _, rfl, by decide⟩
  exact absurd hrelists.1 (by decide)

end ListWatchLoop

/-! ## What the rest of the controller makes of it -/

/-- No handler reads an error frame. -/
theorem WatchState.apply_errorFrame (s : WatchState) (localNodeIp : IpAddr) (resource : Resource) {event : Value}
    (h : errorFrame event = true) : s.apply localNodeIp (resource.event event).input = s := by
  have hkind : eventKind event = none := by
    simp only [errorFrame, Bool.and_eq_true, beq_iff_eq] at h
    simp [eventKind, h.1]
  have hunsaid : ∀ {K : Type} (idOf : Value → Option K) kind id, ¬ Objects.Tells idOf event kind id := by
    rintro K idOf kind id ⟨hsaid, -⟩
    simp [hkind] at hsaid
  cases resource with
  | services => exact s.applyServiceEvent_of_unsaid (hunsaid serviceKey)
  | endpointSlices => exact s.applyEndpointSliceEvent_of_unsaid (hunsaid serviceKey)
  | nodes => exact s.applyNodeEvent_of_unsaid (hunsaid metadataName)

/-- The end of a connection is the one of `ListWatch`, with the points of the history for the versions. -/
theorem ListWatch.closed_watched {σ : Type*} {client : HyperApiClient} {callbacks : ListWatchCallbacks σ}
    (version : Nat → String) {loop : ListWatchLoop σ} {watch : ListWatch} {reply : WatchReply}
    (hresume : loop.resourceVersion = watch.resourceVersion.map version)
    (hlatest : reply.latestRv = watch.latestRv.map version) :
    (loop.watched client callbacks reply).resourceVersion =
      (watch.closed (reply.heardExpired client)).resourceVersion.map version := by
  rw [ListWatchLoop.resourceVersion_watched, hresume, hlatest]
  unfold ListWatch.closed
  cases reply.heardExpired client with
  | true => rfl
  | false => cases watch.latestRv <;> simp

end Beep
