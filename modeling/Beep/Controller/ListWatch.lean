import Beep.Controller.Apply
import Beep.Controller.Facts
import Beep.Controller.History
import Beep.Lib.Replay

/-!
# `Controller.ListWatch` — the watch of one resource, and the ticks it causes

`run_list_watch` of `controller/src/watch.rs`: after an accepted LIST the watch hands over one event after the other.
When its stream ends it resumes at the last bookmark of that connection, else where it resumed before, and is served
from there again; when the point has expired it lists anew. The points of the resource's history stand for the resource
versions. Between any two steps the other watches feed the same state, and a tick may run on it (`Watching.step`).

A `Slot` is one entry of the state. Every event of a resource sets the slots it is about and leaves the others, so a
watch that is back at the point it had reached before left every slot as it was (`Watching.replayed`).
-/

namespace Beep

open Json (Value)
open Objects (Tells)
open Run

/-- The watched resources. -/
inductive Resource where
  | services
  | endpointSlices
  | nodes
  deriving DecidableEq

/-- An event of the resource. -/
def Resource.event : Resource → Value → ObjectEvent
  | .services, event => .service event
  | .endpointSlices, event => .endpointSlice event
  | .nodes, event => .node event

/-- The resource an input is about. -/
def WatchInput.resource : WatchInput → Resource
  | .service _ => .services
  | .services _ => .services
  | .endpointSlice _ => .endpointSlices
  | .endpointSlices _ => .endpointSlices
  | .node _ => .nodes
  | .nodes _ => .nodes

/-- `on_relist` of a resource: the state after it, and whether the LIST was accepted. -/
def WatchState.relist (localNodeIp : IpAddr) (s : WatchState) (items : List Value) : Resource → WatchState × Bool
  | .services => ((s.replaceServices items).1, (s.replaceServices items).2.toBool)
  | .endpointSlices => ((s.replaceEndpointSlices items).1, (s.replaceEndpointSlices items).2.toBool)
  | .nodes => ((s.replaceNodes items localNodeIp).1, (s.replaceNodes items localNodeIp).2.toBool)

/-- The locals of `run_list_watch`, and how far the connection has been served. -/
structure ListWatch where
  resourceVersion : Option Nat
  latestRv : Option Nat
  served : Nat

/-- The end of a connection. -/
def ListWatch.closed (watch : ListWatch) (expired : Bool) : ListWatch :=
  let resourceVersion := if expired then none else watch.latestRv.or watch.resourceVersion
  { resourceVersion, latestRv := none, served := resourceVersion.getD watch.served }

/-- The watch of one resource with the state it feeds, what the ticks remember and the `POD_TARGETS` rows. -/
structure Watching where
  watch : ListWatch
  state : WatchState
  memory : TickMemory := {}
  rows : Finset (Bytes 16) := ∅

/-- What happens next: to the watch, to the state by one of the other watches, or a tick on the state (with its maps
    iterated in some order) that leaves the given rows. -/
inductive WatchStep where
  | list (items : List Value) (point : Nat)
  | event
  | bookmark
  | closed (expired : Bool)
  | other (input : WatchInput)
  | tick (order : WatchState) (input : TickInput) (rows : Finset (Bytes 16))

/-- The step, for a resource with the given history of events. -/
def Watching.step (resource : Resource) (history : List Value) (localNodeIp : IpAddr) (w : Watching) :
    WatchStep → Watching
  | .list items point =>
      let (state, accepted) := w.state.relist localNodeIp items resource
      if w.watch.resourceVersion.isNone && accepted then
        { w with state, watch := { resourceVersion := some point, latestRv := none, served := point } }
      else w
  | .event =>
      match w.watch.resourceVersion, history[w.watch.served]? with
      | some _, some event =>
          { w with
            state := w.state.apply localNodeIp (resource.event event).input
            watch := { w.watch with served := w.watch.served + 1 } }
      | _, _ => w
  | .bookmark => { w with watch := { w.watch with latestRv := some w.watch.served } }
  | .closed expired => { w with watch := w.watch.closed expired }
  | .other input => { w with state := w.state.apply localNodeIp input }
  | .tick _ input rows => { w with memory := w.memory.step input, rows }

/-- A watch that was listed at the start of the history. -/
def Watching.listed (state : WatchState) : Watching where
  watch := { resourceVersion := some 0, latestRv := none, served := 0 }
  state := state

/-! ## The entries of the state -/

/-- One entry of the state: what it holds of one object, or whether a resource was listed. -/
inductive Slot where
  | service (key : ServiceKey)
  | owner (key : ServiceKey)
  | slice (key : ServiceKey) (name : String)
  | nodeAddrs (name : String)
  | nodeName (name : String)
  | listed (resource : Resource)

namespace Slot

/-- What an entry can hold. -/
def Val : Slot → Type
  | .service _ => Option RawService
  | .slice _ _ => Option RawEndpointSlice
  | .nodeAddrs _ => Option NodeAddrs
  | .owner _ => Bool
  | .nodeName _ => Bool
  | .listed _ => Bool

/-- What it holds. -/
def get : (i : Slot) → WatchState → i.Val
  | .service key, s => s.services.lookup key
  | .owner key, s => (s.slices.lookup key).isSome
  | .slice key name, s => (s.slicesOf key).lookup name
  | .nodeAddrs name, s => s.nodeIps.lookup name
  | .nodeName name, s => decide (name ∈ s.nodeNames)
  | .listed .services, s => s.servicesListed
  | .listed .endpointSlices, s => s.slicesListed
  | .listed .nodes, s => s.nodesListed

/-- The resource it is part of. -/
def resource : Slot → Resource
  | .service _ => .services
  | .owner _ => .endpointSlices
  | .slice _ _ => .endpointSlices
  | .nodeAddrs _ => .nodes
  | .nodeName _ => .nodes
  | .listed resource => resource

end Slot

section
variable {s : WatchState} {localNodeIp : IpAddr}

/-- A slice event adds the owner it names, and never takes one away. -/
theorem isSome_lookup_applyEndpointSliceEvent (event : Value) (key : ServiceKey) :
    ((s.applyEndpointSliceEvent event).1.slices.lookup key).isSome =
      if eventKind event = some .upsert ∧ owningServiceKey (event.get "object") = some key ∧
        (metadataName (event.get "object")).isSome = true then true
      else (s.slices.lookup key).isSome := by
  unfold WatchState.applyEndpointSliceEvent
  dsimp only
  split
  · rename_i kind owner name hkind howner hname
    rw [hkind, howner, hname]
    cases kind with
    | delete =>
      rw [if_neg fun h : _ ∧ _ => EventKind.noConfusion (Option.some_inj.mp h.1)]
      dsimp only [WatchState.removeSlice]
      split
      · rename_i set hset
        rw [Table.lookup_insert_ite]
        split
        · rename_i hkey
          rw [hkey, hset]
          rfl
        · rfl
      · rfl
    | upsert =>
      dsimp only [WatchState.putSlice]
      rw [Table.lookup_insert_ite]
      by_cases hkey : key = owner
      · rw [if_pos hkey, if_pos ⟨rfl, by rw [hkey], rfl⟩]
        rfl
      · rw [if_neg hkey, if_neg fun h : _ ∧ _ ∧ _ => hkey (Option.some_inj.mp h.2.1).symm]
  · rename_i hno
    rw [if_neg]
    rintro ⟨hkind, howner, hname⟩
    obtain ⟨name, hname⟩ := Option.isSome_iff_exists.mp hname
    exact hno _ _ _ hkind howner hname

namespace Slot

/-- A Service event leaves all but the Services. -/
theorem get_applyServiceEvent {i : Slot} (h : ∀ key, i ≠ .service key) (event : Value) :
    i.get (s.applyServiceEvent event).1 = i.get s := by
  rw [s.applyServiceEvent_frame event]
  cases i with
  | service key => exact absurd rfl (h key)
  | listed resource => cases resource <;> rfl
  | _ => rfl

/-- A slice event leaves all but the slices. -/
theorem get_applyEndpointSliceEvent {i : Slot} (h : ∀ key name, i ≠ .slice key name) (howner : ∀ key, i ≠ .owner key)
    (event : Value) : i.get (s.applyEndpointSliceEvent event).1 = i.get s := by
  rw [s.applyEndpointSliceEvent_frame event]
  cases i with
  | slice key name => exact absurd rfl (h key name)
  | owner key => exact absurd rfl (howner key)
  | listed resource => cases resource <;> rfl
  | _ => rfl

/-- A Node event leaves all but the Nodes. -/
theorem get_applyNodeEvent {i : Slot} (h : ∀ name, i ≠ .nodeAddrs name) (hname : ∀ name, i ≠ .nodeName name)
    (event : Value) : i.get (s.applyNodeEvent event) = i.get s := by
  rw [s.applyNodeEvent_frame event]
  cases i with
  | nodeAddrs name => exact absurd rfl (h name)
  | nodeName name => exact absurd rfl (hname name)
  | listed resource => cases resource <;> rfl
  | _ => rfl

/-- A Service event sets the Service it is about. -/
theorem service_event (i : Slot) (event : Value) :
    (∃ v, ∀ s : WatchState, i.get (s.applyServiceEvent event).1 = v) ∨
      ∀ s : WatchState, i.get (s.applyServiceEvent event).1 = i.get s := by
  by_cases hsaid : ∃ kind id, Tells serviceKey event kind id
  · obtain ⟨kind, id, hsaid⟩ := hsaid
    cases i with
    | service key =>
      by_cases hkey : key = id
      · exact Or.inl ⟨_, fun s => (s.lookup_applyServiceEvent hsaid key).trans (if_pos hkey)⟩
      · exact Or.inr fun s => (s.lookup_applyServiceEvent hsaid key).trans (if_neg hkey)
    | _ => exact Or.inr fun s => get_applyServiceEvent (by rintro key ⟨⟩) event
  · refine Or.inr fun s => ?_
    rw [s.applyServiceEvent_of_unsaid fun kind id h => hsaid ⟨kind, id, h⟩]

/-- A slice event sets the slice under the owner it names. -/
theorem slice_event (i : Slot) (event : Value) :
    (∃ v, ∀ s : WatchState, i.get (s.applyEndpointSliceEvent event).1 = v) ∨
      ∀ s : WatchState, i.get (s.applyEndpointSliceEvent event).1 = i.get s := by
  by_cases hsaid : ∃ kind id, Tells serviceKey event kind id
  · obtain ⟨kind, id, hsaid⟩ := hsaid
    cases i with
    | slice key name =>
      by_cases hslot : owningServiceKey (event.get "object") = some key ∧ name = id.name
      · exact Or.inl ⟨_, fun s => (s.lookup_applyEndpointSliceEvent hsaid key name).trans (if_pos hslot)⟩
      · exact Or.inr fun s => (s.lookup_applyEndpointSliceEvent hsaid key name).trans (if_neg hslot)
    | owner key =>
      by_cases hslot : eventKind event = some .upsert ∧ owningServiceKey (event.get "object") = some key ∧
          (metadataName (event.get "object")).isSome = true
      · exact Or.inl ⟨true, fun s => (isSome_lookup_applyEndpointSliceEvent event key).trans (if_pos hslot)⟩
      · exact Or.inr fun s => (isSome_lookup_applyEndpointSliceEvent event key).trans (if_neg hslot)
    | _ => exact Or.inr fun s => get_applyEndpointSliceEvent (by rintro key name ⟨⟩) (by rintro key ⟨⟩) event
  · refine Or.inr fun s => ?_
    rw [s.applyEndpointSliceEvent_of_unsaid fun kind id h => hsaid ⟨kind, id, h⟩]

/-- A Node event sets the Node it is about; its addresses only if it names one. -/
theorem node_event (i : Slot) (event : Value) :
    (∃ v, ∀ s : WatchState, i.get (s.applyNodeEvent event) = v) ∨
      ∀ s : WatchState, i.get (s.applyNodeEvent event) = i.get s := by
  by_cases hsaid : ∃ kind id, Tells metadataName event kind id
  · obtain ⟨kind, id, hsaid⟩ := hsaid
    cases i with
    | nodeAddrs name =>
      by_cases hslot : name = id ∧ ¬ (kind = .upsert ∧ (parseNodeAddrs (event.get "object")).underlay = [])
      · exact Or.inl ⟨_, fun s => (s.lookup_applyNodeEvent hsaid name).trans (if_pos hslot)⟩
      · exact Or.inr fun s => (s.lookup_applyNodeEvent hsaid name).trans (if_neg hslot)
    | nodeName name =>
      by_cases hname : name = id
      · refine Or.inl ⟨decide (kind = .upsert), fun s => decide_eq_decide.mpr ?_⟩
        rw [s.mem_nodeNames_applyNodeEvent hsaid, if_pos hname]
      · refine Or.inr fun s => decide_eq_decide.mpr ?_
        rw [s.mem_nodeNames_applyNodeEvent hsaid, if_neg hname]
    | _ => exact Or.inr fun s => get_applyNodeEvent (by rintro name ⟨⟩) (by rintro name ⟨⟩) event
  · refine Or.inr fun s => ?_
    rw [s.applyNodeEvent_of_unsaid fun kind id h => hsaid ⟨kind, id, h⟩]

/-- **Entries are slots**: every event sets an entry or leaves it. -/
theorem isSlot (i : Slot) (resource : Resource) (localNodeIp : IpAddr) :
    IsSlot (fun (s : WatchState) event => s.apply localNodeIp (resource.event event).input) i.get := by
  intro event
  cases resource with
  | services => exact i.service_event event
  | endpointSlices => exact i.slice_event event
  | nodes => exact i.node_event event

/-- **The frame**: an input leaves the entries of the other resources. -/
theorem get_apply_of_ne {i : Slot} {input : WatchInput} (h : input.resource ≠ i.resource) :
    i.get (s.apply localNodeIp input) = i.get s := by
  cases input with
  | service event => exact get_applyServiceEvent (by rintro key rfl; exact h rfl) event
  | endpointSlice event =>
    exact get_applyEndpointSliceEvent (by rintro key name rfl; exact h rfl) (by rintro key rfl; exact h rfl) event
  | node event => exact get_applyNodeEvent (by rintro name rfl; exact h rfl) (by rintro name rfl; exact h rfl) event
  | services items =>
    show i.get (s.replaceServices items).1 = _
    unfold WatchState.replaceServices
    dsimp only
    split
    · rfl
    · rcases i with key | key | ⟨key, name⟩ | name | name | ⟨⟨⟩⟩ <;> first | rfl | exact absurd rfl h
  | endpointSlices items =>
    show i.get (s.replaceEndpointSlices items).1 = _
    unfold WatchState.replaceEndpointSlices
    dsimp only
    split
    · rfl
    · rcases i with key | key | ⟨key, name⟩ | name | name | ⟨⟨⟩⟩ <;> first | rfl | exact absurd rfl h
  | nodes items =>
    show i.get (s.replaceNodes items localNodeIp).1 = _
    unfold WatchState.replaceNodes
    dsimp only
    split
    · rfl
    · rcases i with key | key | ⟨key, name⟩ | name | name | ⟨⟨⟩⟩ <;> first | rfl | exact absurd rfl h

end Slot

theorem Resource.input_event (resource : Resource) (event : Value) :
    (resource.event event).input.resource = resource := by
  cases resource <;> rfl

end

/-! ## Accepted LISTs -/

/-- A LIST of a resource. -/
def Resource.list : Resource → List Value → WatchInput
  | .services, items => .services items
  | .endpointSlices, items => .endpointSlices items
  | .nodes, items => .nodes items

namespace WatchState

/-- A LIST is of no other items. -/
theorem exists_list_iff (resource : Resource) (items : List Value) (accepted : List Value → Prop) :
    (∃ items', resource.list items = resource.list items' ∧ accepted items') ↔ accepted items := by
  refine ⟨fun ⟨items', hsame, h⟩ => ?_, fun h => ⟨items, rfl, h⟩⟩
  cases resource <;> cases hsame <;> exact h

/-- A resource is listed by an accepted LIST of it, and stays listed. -/
theorem listed_apply (s : WatchState) (localNodeIp : IpAddr) (input : WatchInput) (resource : Resource) :
    (Slot.listed resource).get (s.apply localNodeIp input) = true ↔ (Slot.listed resource).get s = true ∨
      ∃ items, input = resource.list items ∧ (s.relist localNodeIp items resource).2 = true := by
  by_cases hother : input.resource = resource
  · cases input with
    | service event =>
      subst hother
      have hframe := s.applyServiceEvent_frame event
      show (s.applyServiceEvent event).1.servicesListed = true ↔ s.servicesListed = true ∨ _
      rw [hframe]
      exact ⟨Or.inl, fun h => h.resolve_right fun ⟨_, h, _⟩ => nomatch h⟩
    | endpointSlice event =>
      subst hother
      have hframe := s.applyEndpointSliceEvent_frame event
      show (s.applyEndpointSliceEvent event).1.slicesListed = true ↔ s.slicesListed = true ∨ _
      rw [hframe]
      exact ⟨Or.inl, fun h => h.resolve_right fun ⟨_, h, _⟩ => nomatch h⟩
    | node event =>
      subst hother
      have hframe := s.applyNodeEvent_frame event
      show (s.applyNodeEvent event).nodesListed = true ↔ s.nodesListed = true ∨ _
      rw [hframe]
      exact ⟨Or.inl, fun h => h.resolve_right fun ⟨_, h, _⟩ => nomatch h⟩
    | services items =>
      subst hother
      refine Iff.trans ?_ (or_congr_right (exists_list_iff .services items _).symm)
      show (s.replaceServices items).1.servicesListed = true ↔ s.servicesListed = true ∨
        (s.replaceServices items).2.toBool = true
      unfold replaceServices
      dsimp only
      split
      · exact ⟨Or.inl, fun h => h.resolve_right Bool.false_ne_true⟩
      · exact ⟨fun _ => Or.inr rfl, fun _ => rfl⟩
    | endpointSlices items =>
      subst hother
      refine Iff.trans ?_ (or_congr_right (exists_list_iff .endpointSlices items _).symm)
      show (s.replaceEndpointSlices items).1.slicesListed = true ↔ s.slicesListed = true ∨
        (s.replaceEndpointSlices items).2.toBool = true
      unfold replaceEndpointSlices
      dsimp only
      split
      · exact ⟨Or.inl, fun h => h.resolve_right Bool.false_ne_true⟩
      · exact ⟨fun _ => Or.inr rfl, fun _ => rfl⟩
    | nodes items =>
      subst hother
      refine Iff.trans ?_ (or_congr_right (exists_list_iff .nodes items _).symm)
      show (s.replaceNodes items localNodeIp).1.nodesListed = true ↔ s.nodesListed = true ∨
        (s.replaceNodes items localNodeIp).2.toBool = true
      unfold replaceNodes
      dsimp only
      split
      · exact ⟨Or.inl, fun h => h.resolve_right Bool.false_ne_true⟩
      · exact ⟨fun _ => Or.inr rfl, fun _ => rfl⟩
  · rw [Slot.get_apply_of_ne (i := .listed resource) hother]
    refine ⟨Or.inl, fun h => h.resolve_right ?_⟩
    rintro ⟨items, rfl, -⟩
    cases resource <;> exact hother rfl

/-- What was listed stays listed. -/
theorem fullyListed_apply (s : WatchState) (localNodeIp : IpAddr) {input : WatchInput} (h : s.fullyListed = true) :
    (s.apply localNodeIp input).fullyListed = true := by
  have hkept : ∀ resource, (Slot.listed resource).get s = true →
      (Slot.listed resource).get (s.apply localNodeIp input) = true := by
    intro resource h
    exact (s.listed_apply localNodeIp input resource).mpr (Or.inl h)
  unfold fullyListed at h ⊢
  simp only [Bool.and_eq_true] at h ⊢
  exact ⟨⟨hkept .nodes h.1.1, hkept .services h.1.2⟩, hkept .endpointSlices h.2⟩

end WatchState

/-! ## Going back and catching up -/

/-- A step of a watch that is never served beyond the point `n` and whose resource version does not expire, while the
    other watches feed other resources. -/
structure Replays (resource : Resource) (history : List Value) (localNodeIp : IpAddr) (n : Nat) (w : Watching)
    (e : WatchStep) : Prop where
  within : (w.step resource history localNodeIp e).watch.served ≤ n
  resumes : e ≠ .closed true
  other : ∀ input, e = .other input → input.resource ≠ resource

/-- Reading the history on to the point `n` ends, in the entries of the resource, where reading it once does; and the
    watch resumes no later than where it is. -/
structure OnTrack (resource : Resource) (history : List Value) (localNodeIp : IpAddr) (n : Nat) (start : WatchState)
    (w : Watching) : Prop where
  resume : ∃ r, w.watch.resourceVersion = some r ∧ r ≤ w.watch.served
  bookmark : ∀ r, w.watch.latestRv = some r → r ≤ w.watch.served
  ahead : ∀ i : Slot, i.resource = resource →
    i.get (((history.take n).drop w.watch.served).foldl
        (fun s event => s.apply localNodeIp (resource.event event).input) w.state) =
      i.get ((history.take n).foldl (fun s event => s.apply localNodeIp (resource.event event).input) start)

section
variable {resource : Resource} {history : List Value} {localNodeIp : IpAddr} {n : Nat} {start : WatchState}
  {w : Watching}

theorem OnTrack.listed : OnTrack resource history localNodeIp n start (.listed start) where
  resume := ⟨0, rfl, Nat.le_refl 0⟩
  bookmark _ h := nomatch h
  ahead _ _ := rfl

/-- Back at an earlier point, the watch is still on track. -/
theorem OnTrack.back (h : OnTrack resource history localNodeIp n start w) {r : Nat} (hr : r ≤ w.watch.served) :
    OnTrack resource history localNodeIp n start { w with watch := ⟨some r, none, r⟩ } where
  resume := ⟨r, rfl, Nat.le_refl r⟩
  bookmark _ h := nomatch h
  ahead i hi := (i.isSlot resource localNodeIp).reread hr (h.ahead i hi)

/-- **The step.** -/
theorem OnTrack.step (h : OnTrack resource history localNodeIp n start w) {e : WatchStep}
    (he : Replays resource history localNodeIp n w e) :
    OnTrack resource history localNodeIp n start (w.step resource history localNodeIp e) := by
  obtain ⟨r, hresume, hr⟩ := h.resume
  cases e with
  | list items point =>
    have hstep : w.step resource history localNodeIp (.list items point) = w := by
      simp [Watching.step, hresume]
    rw [hstep]
    exact h
  | event =>
    cases hevent : history[w.watch.served]? with
    | none =>
      have hstep : w.step resource history localNodeIp .event = w := by
        simp [Watching.step, hevent]
      rw [hstep]
      exact h
    | some event =>
      have hwithin := he.within
      have hstep : w.step resource history localNodeIp .event =
          { w with
            state := w.state.apply localNodeIp (resource.event event).input
            watch := { w.watch with served := w.watch.served + 1 } } := by
        simp [Watching.step, hresume, hevent]
      rw [hstep] at hwithin ⊢
      refine ⟨⟨r, hresume, Nat.le_succ_of_le hr⟩, fun l hl => Nat.le_succ_of_le (h.bookmark l hl), fun i hi => ?_⟩
      -- the event is the first of those ahead
      have hnext : (history.take n).drop w.watch.served = event :: (history.take n).drop (w.watch.served + 1) := by
        obtain ⟨hlen, hget⟩ := List.getElem?_eq_some_iff.mp hevent
        have hlen' : w.watch.served < (history.take n).length := by
          rw [List.length_take]
          exact Nat.lt_min.mpr ⟨hwithin, hlen⟩
        rw [List.drop_eq_getElem_cons hlen', List.getElem_take, hget]
      have hahead := h.ahead i hi
      rw [hnext] at hahead
      exact hahead
  | bookmark =>
    refine ⟨⟨r, hresume, hr⟩, fun l hl => ?_, h.ahead⟩
    rw [← Option.some_inj.mp hl]
    exact Nat.le_refl _
  | closed expired =>
    cases expired with
    | true => exact absurd rfl he.resumes
    | false =>
      cases hlatest : w.watch.latestRv with
      | none =>
        have hstep : w.step resource history localNodeIp (.closed false) = { w with watch := ⟨some r, none, r⟩ } := by
          simp [Watching.step, ListWatch.closed, hresume, hlatest]
        rw [hstep]
        exact h.back hr
      | some l =>
        have hstep : w.step resource history localNodeIp (.closed false) = { w with watch := ⟨some l, none, l⟩ } := by
          simp [Watching.step, ListWatch.closed, hlatest]
        rw [hstep]
        exact h.back (h.bookmark l hlatest)
  | other input =>
    refine ⟨⟨r, hresume, hr⟩, h.bookmark, fun i hi => ?_⟩
    rw [← h.ahead i hi]
    refine (i.isSlot resource localNodeIp).foldl_congr _ (Slot.get_apply_of_ne ?_)
    rw [hi]
    exact he.other input rfl
  | tick order input rows => exact ⟨⟨r, hresume, hr⟩, h.bookmark, h.ahead⟩

/-- **The run.** -/
theorem OnTrack.run (h : OnTrack resource history localNodeIp n start w) {steps : List WatchStep}
    (hsteps : Along (Watching.step resource history localNodeIp) (Replays resource history localNodeIp n) w steps) :
    OnTrack resource history localNodeIp n start (steps.foldl (Watching.step resource history localNodeIp) w) :=
  Along.inv (fun w _ (h : OnTrack resource history localNodeIp n start w) he => h.step he) hsteps h

/-- **Caught up**, the entries of the resource are those of a history read once. -/
theorem OnTrack.caughtUp (h : OnTrack resource history localNodeIp n start w) (hserved : w.watch.served = n) {i : Slot}
    (hi : i.resource = resource) : i.get w.state =
      i.get ((history.take n).foldl (fun s event => s.apply localNodeIp (resource.event event).input) start) := by
  rw [← h.ahead i hi, hserved, List.drop_eq_nil_of_le (List.length_take_le n history)]
  rfl

/-- An entry of another resource stays, unless another watch feeds it. -/
theorem Watching.get_step_of_ne {i : Slot} (hi : i.resource ≠ resource) {e : WatchStep}
    (hresume : w.watch.resourceVersion ≠ none) (hother : ∀ input, e = .other input → input.resource ≠ i.resource) :
    i.get (w.step resource history localNodeIp e).state = i.get w.state := by
  cases e with
  | list items point => simp [Watching.step, hresume]
  | event =>
    unfold Watching.step
    dsimp only
    split
    · refine Slot.get_apply_of_ne ?_
      rw [Resource.input_event]
      exact hi.symm
    · rfl
  | bookmark => rfl
  | closed expired => rfl
  | other input => exact Slot.get_apply_of_ne (hother input rfl)
  | tick order input rows => rfl

/-- **Back where it was**, the watch left every entry that no other watch feeds as it was. -/
theorem OnTrack.replayed (h : OnTrack resource history localNodeIp n start w) (hserved : w.watch.served = n)
    {steps : List WatchStep}
    (hsteps : Along (Watching.step resource history localNodeIp) (Replays resource history localNodeIp n) w steps)
    (hback : (steps.foldl (Watching.step resource history localNodeIp) w).watch.served = n) {i : Slot}
    (hother : ∀ input, .other input ∈ steps → input.resource ≠ i.resource) :
    i.get (steps.foldl (Watching.step resource history localNodeIp) w).state = i.get w.state := by
  by_cases hi : i.resource = resource
  · rw [(h.run hsteps).caughtUp hback hi, h.caughtUp hserved hi]
  · clear hserved hback
    induction steps generalizing w with
    | nil => rfl
    | cons e steps ih =>
      obtain ⟨r, hresume, -⟩ := h.resume
      have hone : i.get (w.step resource history localNodeIp e).state = i.get w.state :=
        w.get_step_of_ne hi (by rw [hresume]; exact fun h => nomatch h) fun input he =>
          hother input (he ▸ List.mem_cons_self)
      rw [List.foldl_cons, ih (h.step hsteps.1) hsteps.2 fun input hmem => hother input (List.mem_cons_of_mem e hmem)]
      exact hone

end

end Beep
