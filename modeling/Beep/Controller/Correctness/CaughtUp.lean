import Beep.Controller.RunListWatch
import Beep.Lib.Run

/-!
# `Controller.Correctness.CaughtUp` — the loop against an API server that keeps the history

The loop of `RunListWatch` knows replies and texts, the watch of `ListWatch` points of a history. An API server joins the
two: it has a version for every point, serves a WATCH from the point asked for, and may put bookmarks and expiry frames
anywhere and break any answer off anywhere (`Answers`). Reply by reply, the loop is where the watch is (`Follows.run`).

So what is known of the watch is known of the loop. A stream that comes to the end of the history leaves every entry of
the state what it is when each event is read once, in order, whatever the connections before it repeated
(`watch_catches_up`).
-/

namespace Beep

open Json (Value)
open Run

/-! ## What a reply leaves -/

/-- No bookmark says that a version has expired. -/
theorem errorFrame_not_bookmark {frame : Value} (h : errorFrame frame = true) :
    bookmarkResourceVersion frame = none := by
  simp only [errorFrame, Bool.and_eq_true, beq_iff_eq] at h
  simp [bookmarkResourceVersion, h.1]

/-- The frames of a WATCH are handed over, whatever ends it. -/
theorem ListWatchLoop.app_watched {σ : Type*} {client : HyperApiClient} {callbacks : ListWatchCallbacks σ}
    {loop : ListWatchLoop σ} (reply : WatchReply) :
    (loop.watched client callbacks reply).app = reply.frames.foldl (ListWatchLoop.onFrame callbacks) loop.app := by
  unfold ListWatchLoop.watched
  cases reply.error? client <;> rfl

/-- `on_event` and `on_relist` of a resource. -/
def Resource.callbacks (resource : Resource) (localNodeIp : IpAddr) : ListWatchCallbacks WatchState where
  onEvent s event := s.apply localNodeIp (resource.event event).input
  onRelist s items := s.relist localNodeIp items resource

/-- A refused LIST leaves the state. -/
theorem WatchState.relist_refused {s : WatchState} {localNodeIp : IpAddr} {items : List Value} {resource : Resource}
    (h : (s.relist localNodeIp items resource).2 = false) : (s.relist localNodeIp items resource).1 = s := by
  cases resource with
  | services =>
    unfold WatchState.relist WatchState.replaceServices at *
    dsimp only at *
    split at h
    · rename_i hrefused
      rw [if_pos hrefused]
    · cases h
  | endpointSlices =>
    unfold WatchState.relist WatchState.replaceEndpointSlices at *
    dsimp only at *
    split at h
    · rename_i hrefused
      rw [if_pos hrefused]
    · cases h
  | nodes =>
    unfold WatchState.relist WatchState.replaceNodes at *
    dsimp only at *
    split at h
    · rename_i hrefused
      rw [if_pos hrefused]
    · cases h

/-! ## The API server -/

/-- What an API server sends on a WATCH between two points of the history: the events there, bookmarks of the point it has
    come to, and frames that say the version has expired. The last are no steps of the watch. -/
inductive Sends (history : List Value) (version : Nat → String) : Nat → Nat → List Value → List WatchStep → Prop
  | nil (n : Nat) : Sends history version n n [] []
  | event {n m event frames steps} (hevent : history[n]? = some event) (hframe : bookmarkResourceVersion event = none)
      (rest : Sends history version (n + 1) m frames steps) :
      Sends history version n m (event :: frames) (.event :: steps)
  | bookmark {n m frame frames steps} (hframe : bookmarkResourceVersion frame = some (version n))
      (rest : Sends history version n m frames steps) : Sends history version n m (frame :: frames) (.bookmark :: steps)
  | expired {n m frame frames steps} (hframe : errorFrame frame = true) (rest : Sends history version n m frames steps) :
      Sends history version n m (frame :: frames) steps

/-- What it answers to the loop where the watch is `w`, and the steps of the watch that this is: a LIST of some point, the
    stream from the point asked for, or that this one is gone. Any answer may fail or break off. -/
inductive Answers (client : HyperApiClient) (history : List Value) (version : Nat → String) (w : Watching) :
    ListWatchReply → List WatchStep → Prop
  | list {reply items n} (hnone : w.watch.resourceVersion = none) (hreply : reply.parsed = some (items, version n)) :
      Answers client history version w (.list reply) [.list items n]
  | failed {reply} (hnone : w.watch.resourceVersion = none) (hreply : reply.parsed = none) :
      Answers client history version w (.list reply) []
  | gone {n} (hsome : w.watch.resourceVersion = some n) :
      Answers client history version w (.watch (.refused 410)) [.closed true]
  | stream {n m frames broken steps} (hsome : w.watch.resourceVersion = some n)
      (hsends : Sends history version n m frames steps) :
      Answers client history version w (.watch (.stream frames broken))
        (steps ++ [.closed ((WatchReply.stream frames broken).heardExpired client)])

/-- The replies of a run against this server, and the steps of the watch that they are. -/
inductive Served (resource : Resource) (localNodeIp : IpAddr) (client : HyperApiClient) (history : List Value)
    (version : Nat → String) : Watching → List ListWatchReply → List WatchStep → Prop
  | nil (w : Watching) : Served resource localNodeIp client history version w [] []
  | cons {w reply steps replies rest} (hreply : Answers client history version w reply steps)
      (hreplies : Served resource localNodeIp client history version
        (steps.foldl (Watching.step resource history localNodeIp) w) replies rest) :
      Served resource localNodeIp client history version w (reply :: replies) (steps ++ rest)

/-! ## The loop follows the watch -/

/-- The loop is where the watch is, between two connections. -/
structure Follows (version : Nat → String) (loop : ListWatchLoop WatchState) (w : Watching) : Prop where
  app : loop.app = w.state
  resumes : loop.resourceVersion = w.watch.resourceVersion.map version
  latest : w.watch.latestRv = none
  served : ∀ n, w.watch.resourceVersion = some n → w.watch.served = n

section
variable {resource : Resource} {localNodeIp : IpAddr} {history : List Value} {version : Nat → String}
  {client : HyperApiClient} {w : Watching} {loop : ListWatchLoop WatchState}

/-- **A stream**, frame by frame. -/
theorem Sends.frames (resource : Resource) (localNodeIp : IpAddr) {n m : Nat} {frames : List Value} {steps : List WatchStep}
    (h : Sends history version n m frames steps) (hresumes : w.watch.resourceVersion ≠ none)
    (hserved : w.watch.served = n) :
    let w' := steps.foldl (Watching.step resource history localNodeIp) w
    frames.foldl (ListWatchLoop.onFrame (resource.callbacks localNodeIp)) w.state = w'.state ∧
      (frames.filterMap bookmarkResourceVersion).getLast?.or (w.watch.latestRv.map version) =
        w'.watch.latestRv.map version ∧
      w'.watch.resourceVersion = w.watch.resourceVersion ∧ w'.watch.served = m := by
  induction h generalizing w with
  | nil n => exact ⟨rfl, rfl, rfl, hserved⟩
  | @event n m event frames steps hevent hframe rest ih =>
    obtain ⟨point, hpoint⟩ := Option.ne_none_iff_exists'.mp hresumes
    have hstep : w.step resource history localNodeIp .event =
        { w with
          state := w.state.apply localNodeIp (resource.event event).input
          watch := { w.watch with served := w.watch.served + 1 } } := by
      unfold Watching.step
      simp only [hpoint, hserved, hevent]
    have hrest := ih (w := w.step resource history localNodeIp .event) (by rw [hstep]; exact hresumes)
      (by rw [hstep]; exact congrArg (· + 1) hserved)
    rw [hstep] at hrest
    simp only [List.foldl_cons, ListWatchLoop.onFrame, hframe, List.filterMap_cons, hstep]
    exact hrest
  | @bookmark n m frame frames steps hframe rest ih =>
    have hrest := ih (w := w.step resource history localNodeIp .bookmark) hresumes hserved
    simp only [List.foldl_cons, ListWatchLoop.onFrame, hframe, List.filterMap_cons, List.getLast?_cons, Option.some_or]
    refine ⟨hrest.1, ?_, hrest.2.2⟩
    -- the bookmark is the last one unless another follows
    rw [← hrest.2.1]
    show some _ = Option.or _ (some (version w.watch.served))
    rw [hserved]
    cases (frames.filterMap bookmarkResourceVersion).getLast? <;> rfl
  | @expired n m frame frames steps hframe rest ih =>
    have hrest := ih hresumes hserved
    simp only [List.foldl_cons, ListWatchLoop.onFrame, errorFrame_not_bookmark hframe, List.filterMap_cons]
    have hsame : (resource.callbacks localNodeIp).onEvent w.state frame = w.state :=
      WatchState.apply_errorFrame w.state localNodeIp resource hframe
    rw [hsame]
    exact hrest

/-- **The step**: an answer is the steps it stands for. -/
theorem Follows.step (h : Follows version loop w) {reply : ListWatchReply} {steps : List WatchStep}
    (hreply : Answers client history version w reply steps) :
    Follows version (loop.step client (resource.callbacks localNodeIp) reply)
      (steps.foldl (Watching.step resource history localNodeIp) w) := by
  cases hreply with
  | @list reply items n hnone hreply =>
    have hloop : loop.resourceVersion = none := by rw [h.resumes, hnone]; rfl
    have hcall : (resource.callbacks localNodeIp).onRelist loop.app items = loop.app.relist localNodeIp items resource :=
      rfl
    have hrefused : (loop.app.relist localNodeIp items resource).2 = false →
        (loop.app.relist localNodeIp items resource).1 = loop.app :=
      WatchState.relist_refused
    simp only [ListWatchLoop.step, hloop, ListWatchLoop.listed, hreply, hcall, List.foldl_cons, List.foldl_nil,
      Watching.step, hnone, Option.isNone_none, Bool.true_and, ← h.app]
    rcases hrelist : loop.app.relist localNodeIp items resource with ⟨app, accepted⟩
    rw [hrelist] at hrefused
    cases accepted with
    | true => exact ⟨rfl, rfl, rfl, fun m hm => Option.some_inj.mp hm⟩
    | false =>
      -- refused, the LIST is as one that failed
      exact ⟨(hrefused rfl).trans h.app, hloop.symm.trans h.resumes, h.latest, h.served⟩
  | @failed reply hnone hreply =>
    have hloop : loop.resourceVersion = none := by rw [h.resumes, hnone]; rfl
    simp only [ListWatchLoop.step, hloop, ListWatchLoop.listed, hreply, List.foldl_nil]
    exact ⟨h.app, hloop.symm.trans h.resumes, h.latest, h.served⟩
  | @gone n hsome =>
    have hloop : loop.resourceVersion = some (version n) := by rw [h.resumes, hsome]; rfl
    have hclosed : (loop.watched client (resource.callbacks localNodeIp) (.refused 410)).resourceVersion =
        (w.watch.closed ((WatchReply.refused 410).heardExpired client)).resourceVersion.map version :=
      ListWatch.closed_watched version h.resumes (by rw [h.latest]; rfl)
    rw [ListWatchLoop.heardExpired_of_gone] at hclosed
    simp only [ListWatchLoop.step, hloop, List.foldl_cons, List.foldl_nil]
    exact ⟨h.app, hclosed, rfl, fun m hm => absurd hm.symm (Option.some_ne_none m)⟩
  | @stream n m frames broken steps hsome hsends =>
    have hloop : loop.resourceVersion = some (version n) := by rw [h.resumes, hsome]; rfl
    obtain ⟨hstate, hlatest, hresumes, -⟩ := hsends.frames resource localNodeIp
      (by rw [hsome]; exact Option.some_ne_none _) (h.served n hsome)
    rw [h.latest, Option.map_none, Option.or_none] at hlatest
    set w' := steps.foldl (Watching.step resource history localNodeIp) w
    have hclosed : (loop.watched client (resource.callbacks localNodeIp) (.stream frames broken)).resourceVersion =
        (w'.watch.closed ((WatchReply.stream frames broken).heardExpired client)).resourceVersion.map version :=
      ListWatch.closed_watched version (h.resumes.trans (congrArg (Option.map version) hresumes.symm)) hlatest
    simp only [ListWatchLoop.step, hloop, List.foldl_append, List.foldl_cons, List.foldl_nil]
    refine ⟨?_, hclosed, rfl, ?_⟩
    · rw [← h.app] at hstate
      exact (ListWatchLoop.app_watched _).trans hstate
    · -- it resumes where it will be served from
      intro m hm
      exact congrArg (Option.getD · _) hm

/-- **The run.** -/
theorem Follows.run (h : Follows version loop w) {replies : List ListWatchReply} {steps : List WatchStep}
    (hreplies : Served resource localNodeIp client history version w replies steps) :
    Follows version (replies.foldl (ListWatchLoop.step client (resource.callbacks localNodeIp)) loop)
      (steps.foldl (Watching.step resource history localNodeIp) w) := by
  induction hreplies generalizing loop with
  | nil w => exact h
  | @cons w reply steps replies rest hreply hreplies ih =>
    rw [List.foldl_append]
    exact ih (h.step hreply)

/-! ## Caught up -/

/-- A step of a connection that does not report its version as gone. -/
def WatchStep.Serves : WatchStep → Prop
  | .event => True
  | .bookmark => True
  | .closed expired => expired = false
  | _ => False

/-- The steps of a stream are events and bookmarks. -/
theorem Sends.serves {n m : Nat} {frames : List Value} {steps : List WatchStep}
    (h : Sends history version n m frames steps) : ∀ e ∈ steps, e.Serves := by
  induction h with
  | nil n =>
    intro e he
    cases he
  | event hevent hframe rest ih =>
    intro e he
    rcases List.mem_cons.mp he with rfl | he
    · trivial
    · exact ih e he
  | bookmark hframe rest ih =>
    intro e he
    rcases List.mem_cons.mp he with rfl | he
    · trivial
    · exact ih e he
  | expired hframe rest ih => exact ih

/-- The watch is on track to the end of the history, and has touched no other resource. -/
structure CatchesUp (resource : Resource) (history : List Value) (localNodeIp : IpAddr) (start : WatchState)
    (w : Watching) : Prop where
  onTrack : OnTrack resource history localNodeIp history.length start w
  within : w.watch.served ≤ history.length
  others : ∀ i : Slot, i.resource ≠ resource → i.get w.state = i.get start

variable {start : WatchState}

/-- **The step.** -/
theorem CatchesUp.step (h : CatchesUp resource history localNodeIp start w) {e : WatchStep} (he : e.Serves) :
    CatchesUp resource history localNodeIp start (w.step resource history localNodeIp e) := by
  obtain ⟨r, hresumes, hr⟩ := h.onTrack.resume
  have hwithin : (w.step resource history localNodeIp e).watch.served ≤ history.length := by
    cases e with
    | event =>
      cases hevent : history[w.watch.served]? with
      | none => simpa [Watching.step, hresumes, hevent] using h.within
      | some event =>
        obtain ⟨hlt, -⟩ := List.getElem?_eq_some_iff.mp hevent
        simp only [Watching.step, hresumes, hevent]
        exact hlt
    | bookmark => exact h.within
    | closed expired =>
      -- it is served again from no later than where it was
      obtain rfl : expired = false := he
      cases hlatest : w.watch.latestRv with
      | none => simpa [Watching.step, ListWatch.closed, hresumes, hlatest] using hr.trans h.within
      | some l =>
        simpa [Watching.step, ListWatch.closed, hlatest] using (h.onTrack.bookmark l hlatest).trans h.within
    | list items point => exact he.elim
    | other input => exact he.elim
    | tick order input rows => exact he.elim
  have hother : ∀ input, e ≠ .other input := by
    rintro input rfl
    exact he
  have hreplays : Replays resource history localNodeIp history.length w e := by
    refine ⟨hwithin, ?_, ?_⟩
    · rintro rfl
      cases he
    · intro input hinput
      exact absurd hinput (hother input)
  refine ⟨h.onTrack.step hreplays, hwithin, ?_⟩
  intro i hi
  rw [← h.others i hi]
  apply w.get_step_of_ne hi
  · rw [hresumes]
    exact Option.some_ne_none _
  · intro input hinput
    exact absurd hinput (hother input)

/-- **Some steps.** -/
theorem CatchesUp.steps (h : CatchesUp resource history localNodeIp start w) {steps : List WatchStep}
    (hsteps : ∀ e ∈ steps, e.Serves) :
    CatchesUp resource history localNodeIp start (steps.foldl (Watching.step resource history localNodeIp) w) := by
  induction steps generalizing w with
  | nil => exact h
  | cons e steps ih =>
    apply ih (h.step (hsteps e List.mem_cons_self))
    intro e he
    exact hsteps e (List.mem_cons_of_mem _ he)

/-- **The run**, as long as no version is heard to be gone. -/
theorem CatchesUp.run (h : CatchesUp resource history localNodeIp start w) {replies : List ListWatchReply}
    {steps : List WatchStep} (hreplies : Served resource localNodeIp client history version w replies steps)
    (hheard : ∀ answer, .watch answer ∈ replies → answer.heardExpired client = false) :
    CatchesUp resource history localNodeIp start (steps.foldl (Watching.step resource history localNodeIp) w) := by
  induction hreplies with
  | nil w => exact h
  | @cons w reply steps replies rest hreply hreplies ih =>
    rw [List.foldl_append]
    refine ih (h.steps ?_) fun answer hmem => hheard answer (List.mem_cons_of_mem _ hmem)
    obtain ⟨r, hresumes, -⟩ := h.onTrack.resume
    intro e he
    cases hreply with
    | list hnone hreply => rw [hresumes] at hnone; cases hnone
    | failed hnone hreply => rw [hresumes] at hnone; cases hnone
    | gone hsome =>
      have hunheard := hheard _ List.mem_cons_self
      rw [ListWatchLoop.heardExpired_of_gone] at hunheard
      cases hunheard
    | stream hsome hsends =>
      rcases List.mem_append.mp he with he | he
      · exact hsends.serves e he
      · obtain rfl := List.mem_singleton.mp he
        exact hheard _ List.mem_cons_self

/-- **Reading every event once.** The LIST at the start of the history is accepted. Whatever is served, repeated and
    broken off then, as long as no version is heard to be gone: once a stream comes to the end of the history, every
    entry of the state is what it is when each event is handed over once, in order. -/
theorem watch_catches_up {s : WatchState} {list : ListReply} {items : List Value}
    (hlist : list.parsed = some (items, version 0)) (haccepted : (s.relist localNodeIp items resource).2 = true)
    {replies : List ListWatchReply} {steps : List WatchStep}
    (hreplies : Served resource localNodeIp client history version (.listed (s.relist localNodeIp items resource).1)
      replies steps)
    (hheard : ∀ answer, .watch answer ∈ replies → answer.heardExpired client = false)
    {n : Nat} (hasked : (steps.foldl (Watching.step resource history localNodeIp)
      (.listed (s.relist localNodeIp items resource).1)).watch.resourceVersion = some n)
    {frames : List Value} {last : List WatchStep} (hsends : Sends history version n history.length frames last)
    (broken : Option String) (i : Slot) :
    i.get (ListWatchLoop.run client (resource.callbacks localNodeIp) s
        (.list list :: replies ++ [.watch (.stream frames broken)])).app =
      i.get (history.foldl (fun s event => s.apply localNodeIp (resource.event event).input)
        (s.relist localNodeIp items resource).1) := by
  set start := (s.relist localNodeIp items resource).1 with hstart
  -- where the loop is before the last stream
  have hfollows : Follows version (ListWatchLoop.run client (resource.callbacks localNodeIp) s (.list list :: replies))
      (steps.foldl (Watching.step resource history localNodeIp) (.listed start)) := by
    have hinit : Follows version
        (ListWatchLoop.step client (resource.callbacks localNodeIp) { app := s } (.list list)) (.listed start) := by
      have hrelist : (resource.callbacks localNodeIp).onRelist s items = (start, true) := Prod.ext rfl haccepted
      simp only [ListWatchLoop.step, ListWatchLoop.listed, hlist, hrelist]
      exact ⟨rfl, rfl, rfl, fun n hn => Option.some_inj.mp hn⟩
    exact hinit.run hreplies
  have hcatches : CatchesUp resource history localNodeIp start
      (steps.foldl (Watching.step resource history localNodeIp) (.listed start)) :=
    CatchesUp.run ⟨.listed, Nat.zero_le _, fun i hi => rfl⟩ hreplies hheard
  -- what the last stream hands over
  obtain ⟨hstate, -, -, hserved⟩ := hsends.frames resource localNodeIp
    (by rw [hasked]; exact Option.some_ne_none _) (hfollows.served n hasked)
  have hloop : (ListWatchLoop.run client (resource.callbacks localNodeIp) s (.list list :: replies)).resourceVersion =
      some (version n) := by
    rw [hfollows.resumes, hasked]
    rfl
  have happ : (ListWatchLoop.run client (resource.callbacks localNodeIp) s
      (.list list :: replies ++ [.watch (.stream frames broken)])).app =
        (last.foldl (Watching.step resource history localNodeIp)
          (steps.foldl (Watching.step resource history localNodeIp) (.listed start))).state := by
    rw [ListWatchLoop.run_append, ← hstate, ← hfollows.app]
    simp only [List.foldl_cons, List.foldl_nil, ListWatchLoop.step, hloop]
    exact ListWatchLoop.app_watched _
  have hlast := hcatches.steps hsends.serves
  rw [happ]
  by_cases hi : i.resource = resource
  · rw [hlast.onTrack.caughtUp hserved hi, List.take_length]
  · -- no event is about it
    rw [hlast.others i hi]
    refine (List.foldlRecOn history _ (motive := fun s => i.get s = i.get start) rfl fun s hs event _ => ?_).symm
    rw [← hs]
    exact Slot.get_apply_of_ne (by rw [Resource.input_event]; exact Ne.symm hi)

end

/-! ## A node that comes and goes -/

/-- Another node joins and leaves. -/
def joinedHistory : List Value :=
  [.obj [("type", .str "ADDED"), ("object", nodeObject "n2" "10.0.0.2")],
    .obj [("type", .str "DELETED"), ("object", nodeObject "n2" "10.0.0.2")]]

/-- The LIST before that. -/
def joinedList : ListReply :=
  .response 200 (some (.obj [("metadata", .obj [("resourceVersion", .str "0")]),
    ("items", .arr [nodeObject "n1" "10.0.0.1"])]))

/-- A bookmark of the point where the node has joined. -/
def joinedBookmark : Value :=
  .obj [("type", .str "BOOKMARK"), ("object", .obj [("metadata", .obj [("resourceVersion", .str "1")])])]

/-- The first stream breaks after both events, with a bookmark between them. -/
def joinedReplies : List ListWatchReply :=
  [.watch (.stream [joinedHistory.get ⟨0, by decide⟩, joinedBookmark, joinedHistory.get ⟨1, by decide⟩]
    (some "connection reset"))]

/-- The state after the LIST. -/
def joinedStart : WatchState := (WatchState.relist (.v4 0x0a000001) {} [nodeObject "n1" "10.0.0.1"] .nodes).1

/-- The steps that are. -/
theorem joinedReplies_served : Served .nodes (.v4 0x0a000001) ListWatchLoop.statusClient joinedHistory
    (fun n => toString n) (.listed joinedStart) joinedReplies ([.event, .bookmark, .event] ++ [.closed false] ++ []) :=
  .cons (.stream (m := 2) rfl (.event rfl rfl (.bookmark rfl (.event rfl rfl (.nil 2))))) (.nil _)

/-- The theorem at that run: the second event is handed over again, and the node has left. -/
theorem watch_catches_up_joined :
    (Slot.nodeName "n2").get (ListWatchLoop.run ListWatchLoop.statusClient (Resource.nodes.callbacks (.v4 0x0a000001)) {}
      (.list joinedList :: joinedReplies ++ [.watch (.stream [joinedHistory.get ⟨1, by decide⟩] none)])).app =
    (Slot.nodeName "n2").get
      (joinedHistory.foldl (fun s event => s.apply (.v4 0x0a000001) (Resource.nodes.event event).input) joinedStart) :=
  watch_catches_up (n := 1) rfl (by decide) joinedReplies_served
    (by rintro answer hmem; cases List.mem_singleton.mp hmem; decide) rfl (.event rfl rfl (.nil 2)) none _

end Beep
