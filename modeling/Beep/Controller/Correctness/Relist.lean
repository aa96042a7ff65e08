import Beep.Controller.History
import Beep.Ebpf.Skb

/-!
# `Controller.Correctness.Relist` — folding events and relisting

A state that was folded from events says of every object what its current version says (`Folded`), as long as no slice
changes its owner: slices are held under the owner that their label names, so a version with another label leaves the
one before it in place. Relisting such a state changes nothing (`folding_equals_relisting`), and a relist that is
refused changes nothing in any state.
-/

namespace Beep

open Json (Value)
open Objects (Tells)
open Run

/-- The Services say what their objects say. -/
def ServicesFolded (services : Table ServiceKey RawService) (o : Objects serviceKey) : Prop :=
  ∀ key, services.lookup key = (o.held.lookup key).bind parseService

/-- The slices say what their objects say, each under the owner that its object names. -/
def SlicesFolded (slices : Table ServiceKey (Table String RawEndpointSlice)) (o : Objects serviceKey) : Prop :=
  ∀ key name, ((slices.lookup key).getD ∅).lookup name = (o.held.lookup ⟨key.ns, name⟩).bind fun obj =>
    if owningServiceKey obj = some key then some (parseEndpointSlice obj) else none

/-- The Nodes are those there are, with the addresses they name; one that names none has those it is said to keep. -/
structure NodesFolded (nodeIps kept : Table String NodeAddrs) (nodeNames : Finset String)
    (o : Objects metadataName) : Prop where
  names : ∀ name, name ∈ nodeNames ↔ o.held.lookup name ≠ none
  addrs : ∀ name, nodeIps.lookup name = (o.held.lookup name).bind fun obj =>
    if (parseNodeAddrs obj).underlay = [] then kept.lookup name else some (parseNodeAddrs obj)

/-- The state says of every object what the version held says. -/
structure Folded (s : WatchState) (c : ApiObjects) : Prop where
  services : ServicesFolded s.services c.services
  slices : SlicesFolded s.slices c.slices
  nodes : NodesFolded s.nodeIps s.nodeIps s.nodeNames c.nodes

/-- A slice keeps its owner: an event about a slice that has one names the same. -/
def OwnerKept (c : ApiObjects) : ObjectEvent → Prop
  | .endpointSlice event => ∀ kind id old key, Tells serviceKey event kind id → c.slices.held.lookup id = some old →
      owningServiceKey old = some key → owningServiceKey (event.get "object") = some key
  | _ => True

/-- What relisting one kind of objects leaves as it is. -/
structure RelistAgrees (localNodeIp : IpAddr) (s : WatchState) (c : ApiObjects) : Prop where
  services : ∀ items keys, items.Perm c.services.held.values → (s.replaceServices items).2 = .ok keys →
    (s.replaceServices items).1.services.Same s.services
  slices : ∀ items, items.Perm c.slices.held.values → (s.replaceEndpointSlices items).2 = .ok () →
    ∀ key, ((s.replaceEndpointSlices items).1.slicesOf key).Same (s.slicesOf key)
  nodes : ∀ items, items.Perm c.nodes.held.values → (s.replaceNodes items localNodeIp).2 = .ok () →
    (s.replaceNodes items localNodeIp).1.nodeIps.Same s.nodeIps ∧
      (s.replaceNodes items localNodeIp).1.nodeNames = s.nodeNames

/-- A relist that is refused leaves the state as it was. -/
structure RefusedKeeps (localNodeIp : IpAddr) (s : WatchState) : Prop where
  services : ∀ items reason, (s.replaceServices items).2 = .error reason → (s.replaceServices items).1 = s
  slices : ∀ items reason, (s.replaceEndpointSlices items).2 = .error reason → (s.replaceEndpointSlices items).1 = s
  nodes : ∀ items reason, (s.replaceNodes items localNodeIp).2 = .error reason →
    (s.replaceNodes items localNodeIp).1 = s

theorem refusedKeeps (localNodeIp : IpAddr) (s : WatchState) : RefusedKeeps localNodeIp s where
  services items reason h := by
    unfold WatchState.replaceServices at h ⊢
    dsimp only at h ⊢
    split at h
    · rename_i hrefused
      rw [if_pos hrefused]
    · cases h
  slices items reason h := by
    unfold WatchState.replaceEndpointSlices at h ⊢
    dsimp only at h ⊢
    split at h
    · rename_i hrefused
      rw [if_pos hrefused]
    · cases h
  nodes items reason h := by
    unfold WatchState.replaceNodes at h ⊢
    dsimp only at h ⊢
    split at h
    · rename_i hrefused
      rw [if_pos hrefused]
    · cases h

@[simp] theorem get_added (item : Value) : (added item).get "object" = item := rfl

/-! ## Events -/

section
variable {s : WatchState}

theorem ServicesFolded.step {o : Objects serviceKey} (h : ServicesFolded s.services o) (event : Value) :
    ServicesFolded (s.applyServiceEvent event).1.services (o.track event) := by
  by_cases hsaid : ∃ kind id, Tells serviceKey event kind id
  · obtain ⟨kind, id, hsaid⟩ := hsaid
    intro key
    rw [s.lookup_applyServiceEvent hsaid, o.lookup_track_of_says hsaid, h key]
    split
    · cases kind <;> rfl
    · rfl
  · have hnot : ∀ kind id, ¬ Tells serviceKey event kind id := fun kind id hk => hsaid ⟨kind, id, hk⟩
    rw [s.applyServiceEvent_of_unsaid hnot, o.track_of_unsaid hnot]
    exact h

/-- **A slice that keeps its owner** is where its object says. -/
theorem SlicesFolded.step {o : Objects serviceKey} (h : SlicesFolded s.slices o) {event : Value}
    (hkept : ∀ kind id old key, Tells serviceKey event kind id → o.held.lookup id = some old →
      owningServiceKey old = some key → owningServiceKey (event.get "object") = some key) :
    SlicesFolded (s.applyEndpointSliceEvent event).1.slices (o.track event) := by
  by_cases hsaid : ∃ kind id, Tells serviceKey event kind id
  · obtain ⟨kind, id, hsaid⟩ := hsaid
    have hid : serviceKey (event.get "object") = some id := by
      obtain ⟨-, hid⟩ := hsaid
      exact hid
    intro key name
    have hlookup := s.lookup_applyEndpointSliceEvent hsaid key name
    unfold WatchState.slicesOf at hlookup
    rw [hlookup, o.lookup_track_of_says hsaid, h key name]
    by_cases howner : owningServiceKey (event.get "object") = some key ∧ name = id.name
    · -- the slot the event sets
      have hns := ns_of_owningServiceKey howner.1 hid
      have hslot : (⟨key.ns, name⟩ : ServiceKey) = id := by rw [hns, howner.2]
      rw [if_pos howner, if_pos hslot]
      cases kind with
      | delete => rfl
      | upsert => exact (if_pos howner.1).symm
    · rw [if_neg howner]
      by_cases hslot : (⟨key.ns, name⟩ : ServiceKey) = id
      · -- another owner's slot of the same slice: it was empty
        have hother : owningServiceKey (event.get "object") ≠ some key := fun hkey =>
          howner ⟨hkey, congrArg ServiceKey.name hslot⟩
        rw [if_pos hslot, hslot]
        have hold : (o.held.lookup id).bind (fun obj => if owningServiceKey obj = some key then
            some (parseEndpointSlice obj) else none) = none := by
          cases hobj : o.held.lookup id with
          | none => rfl
          | some old => exact if_neg fun hkey => hother (hkept kind id old key hsaid hobj hkey)
        rw [hold]
        cases kind with
        | delete => rfl
        | upsert => exact (if_neg hother).symm
      · rw [if_neg hslot]
  · have hnot : ∀ kind id, ¬ Tells serviceKey event kind id := fun kind id hk => hsaid ⟨kind, id, hk⟩
    rw [s.applyEndpointSliceEvent_of_unsaid hnot, o.track_of_unsaid hnot]
    exact h

theorem NodesFolded.step {o : Objects metadataName} (h : NodesFolded s.nodeIps s.nodeIps s.nodeNames o)
    (event : Value) : NodesFolded (s.applyNodeEvent event).nodeIps (s.applyNodeEvent event).nodeIps
      (s.applyNodeEvent event).nodeNames (o.track event) := by
  by_cases hsaid : ∃ kind id, Tells metadataName event kind id
  · obtain ⟨kind, id, hsaid⟩ := hsaid
    constructor
    · intro name
      rw [s.mem_nodeNames_applyNodeEvent hsaid, o.lookup_track_of_says hsaid]
      split
      · cases kind <;> simp
      · exact h.names name
    · intro name
      rw [o.lookup_track_of_says hsaid]
      by_cases hname : name = id
      · rw [if_pos hname]
        cases kind with
        | delete => rw [s.lookup_applyNodeEvent hsaid, if_pos ⟨hname, fun h => nomatch h.1⟩]; rfl
        | upsert =>
          show _ = if (parseNodeAddrs (event.get "object")).underlay = [] then _ else _
          split
          · rfl
          · rename_i hparse
            rw [s.lookup_applyNodeEvent hsaid, if_pos ⟨hname, fun h => hparse h.2⟩]
            rfl
      · rw [if_neg hname, s.lookup_applyNodeEvent hsaid, if_neg fun h => hname h.1]
        exact h.addrs name
  · have hnot : ∀ kind id, ¬ Tells metadataName event kind id := fun kind id hk => hsaid ⟨kind, id, hk⟩
    rw [s.applyNodeEvent_of_unsaid hnot, o.track_of_unsaid hnot]
    exact h

/-- **The step.** -/
theorem Folded.step {c : ApiObjects} (h : Folded s c) {e : ObjectEvent} (hkept : OwnerKept c e)
    (localNodeIp : IpAddr) : Folded (s.apply localNodeIp e.input) (c.step e) := by
  cases e with
  | service event =>
    show Folded (s.applyServiceEvent event).1 _
    have hframe := s.applyServiceEvent_frame event
    refine ⟨h.services.step event, ?_, ?_⟩
    · rw [hframe]
      exact h.slices
    · rw [hframe]
      exact h.nodes
  | endpointSlice event =>
    show Folded (s.applyEndpointSliceEvent event).1 _
    have hframe := s.applyEndpointSliceEvent_frame event
    refine ⟨?_, h.slices.step hkept, ?_⟩
    · rw [hframe]
      exact h.services
    · rw [hframe]
      exact h.nodes
  | node event =>
    show Folded (s.applyNodeEvent event) _
    have hframe := s.applyNodeEvent_frame event
    refine ⟨?_, ?_, h.nodes.step event⟩
    · rw [hframe]
      exact h.services
    · rw [hframe]
      exact h.slices

/-- **The run.** -/
theorem Folded.run {c : ApiObjects} (h : Folded s c) {events : List ObjectEvent}
    (hkept : Along ApiObjects.step OwnerKept c events) (localNodeIp : IpAddr) :
    Folded (events.foldl (fun s e => s.apply localNodeIp e.input) s) (events.foldl ApiObjects.step c) := by
  induction events generalizing s c with
  | nil => exact h
  | cons e events ih => exact ih (h.step hkept.1 localNodeIp) hkept.2

end

/-! ## Complete lists -/

/-- The Services of a complete list. -/
theorem servicesFolded_list (items : List Value) :
    ServicesFolded (items.foldl (fun (fresh : WatchState) item => (fresh.applyServiceEvent (added item)).1) {}).services
      (.ofList items) := by
  induction items using List.reverseRecOn with
  | nil => exact fun key => rfl
  | append_singleton items item ih =>
    rw [List.foldl_append, Objects.ofList_append_singleton]
    exact ih.step (added item)

/-- The slices of a complete list. -/
theorem slicesFolded_list {items : List Value} (h : Objects.Distinct serviceKey items) :
    SlicesFolded (items.foldl (fun (fresh : WatchState) item => (fresh.applyEndpointSliceEvent (added item)).1) {}).slices
      (.ofList items) := by
  induction items using List.reverseRecOn with
  | nil => exact fun key name => rfl
  | append_singleton items item ih =>
    rw [List.foldl_append, Objects.ofList_append_singleton]
    refine (ih h.of_append).step fun kind id old key hsaid hold => ?_
    obtain ⟨-, hid⟩ := hsaid
    rw [h.lookup_ofList_eq_none hid] at hold
    cases hold

/-- An item of a Node list sets the addresses of a new Node: its own, or those kept for it. -/
theorem lookup_relistNode {kept : Table String NodeAddrs} {fresh : WatchState} {item : Value} {id : String}
    (hid : metadataName item = some id) (hnone : fresh.nodeIps.lookup id = none) (name : String) :
    (WatchState.relistNode kept fresh item).nodeIps.lookup name = if name = id then
      (if (parseNodeAddrs item).underlay = [] then kept.lookup id else some (parseNodeAddrs item))
    else fresh.nodeIps.lookup name := by
  have hevent := fresh.lookup_applyNodeEvent (Objects.says_added hid)
  rw [get_added] at hevent
  unfold WatchState.relistNode
  dsimp only
  rw [hid]
  dsimp only
  by_cases hparse : (parseNodeAddrs item).underlay = []
  · have hkeep : ∀ name, (fresh.applyNodeEvent (added item)).nodeIps.lookup name = fresh.nodeIps.lookup name := by
      intro name
      rw [hevent name, if_neg fun h => h.2 ⟨rfl, hparse⟩]
    rw [if_pos hparse]
    cases hkept : kept.lookup id with
    | none =>
      dsimp only
      rw [hkeep name]
      split
      · rename_i hname
        rw [hname, hnone]
      · rfl
    | some prev =>
      rw [hkeep id, hnone]
      dsimp only
      rw [Table.lookup_insert_ite, hkeep name]
  · have hset : (fresh.applyNodeEvent (added item)).nodeIps.lookup id = some (parseNodeAddrs item) := by
      rw [hevent id, if_pos ⟨rfl, fun h => hparse h.2⟩, if_pos rfl]
    rw [if_neg hparse, hset]
    have hname : (fresh.applyNodeEvent (added item)).nodeIps.lookup name =
        if name = id then some (parseNodeAddrs item) else fresh.nodeIps.lookup name := by
      rw [hevent name]
      simp [hparse]
    cases kept.lookup id <;> exact hname

theorem nodeNames_relistNode {kept : Table String NodeAddrs} {fresh : WatchState} {item : Value} {id : String}
    (hid : metadataName item = some id) :
    (WatchState.relistNode kept fresh item).nodeNames = (fresh.applyNodeEvent (added item)).nodeNames := by
  unfold WatchState.relistNode
  dsimp only
  rw [hid]
  dsimp only
  split <;> rfl

/-- The Nodes of a complete list: one that names no address keeps the ones held for it. -/
theorem nodesFolded_list (kept : Table String NodeAddrs) {items : List Value}
    (h : Objects.Distinct metadataName items) :
    NodesFolded (items.foldl (WatchState.relistNode kept) {}).nodeIps kept
      (items.foldl (WatchState.relistNode kept) {}).nodeNames (.ofList items) := by
  induction items using List.reverseRecOn with
  | nil => exact ⟨fun name => iff_of_false (Finset.notMem_empty name) fun h => h rfl, fun name => rfl⟩
  | append_singleton items item ih =>
    replace ih := ih h.of_append
    obtain ⟨id, hid⟩ := Option.ne_none_iff_exists'.mp (h.ids item (by simp))
    have hsaid : Tells metadataName (added item) .upsert id := Objects.says_added hid
    rw [List.foldl_append, List.foldl_cons, List.foldl_nil, Objects.ofList_append_singleton]
    generalize items.foldl (WatchState.relistNode kept) {} = fresh at ih
    have hnone : fresh.nodeIps.lookup id = none := by
      rw [ih.addrs id, h.lookup_ofList_eq_none hid]
      rfl
    constructor
    · intro name
      rw [nodeNames_relistNode hid, fresh.mem_nodeNames_applyNodeEvent hsaid, Objects.lookup_track_of_says _ hsaid]
      split
      · simp
      · exact ih.names name
    · intro name
      rw [lookup_relistNode hid hnone, Objects.lookup_track_of_says _ hsaid]
      split
      · rename_i hname
        rw [hname]
        rfl
      · exact ih.addrs name

/-! ## Relists -/

section
variable {s : WatchState}

omit s in
theorem foldl_fst {α β γ : Type*} (f : α → γ → α) (g : α × β → γ → β) (l : List γ) (p : α × β) :
    (l.foldl (fun p x => (f p.1 x, g p x)) p).1 = l.foldl f p.1 := by
  induction l generalizing p with
  | nil => rfl
  | cons x l ih => exact ih _

/-- An accepted relist of the Services holds the Services listed. -/
theorem replaceServices_folded {o : Objects serviceKey} {items : List Value} (hitems : items.Perm o.held.values)
    {keys : List ServiceKey} (haccepted : (s.replaceServices items).2 = .ok keys) :
    ServicesFolded (s.replaceServices items).1.services o := by
  have hresult : (s.replaceServices items).1.services =
      (items.foldl (fun (fresh : WatchState) item => (fresh.applyServiceEvent (added item)).1) {}).services := by
    unfold WatchState.replaceServices at haccepted ⊢
    dsimp only at haccepted ⊢
    split at haccepted
    · cases haccepted
    · rename_i hok
      rw [if_neg hok]
      have hfst := congrArg WatchState.services (foldl_fst
        (fun (fresh : WatchState) item => (fresh.applyServiceEvent (added item)).1)
        (fun acc item => acc.2 ++ (acc.1.applyServiceEvent (added item)).2.toList) items ({}, []))
      exact hfst
  intro key
  rw [hresult, servicesFolded_list items key, Objects.ofList_same hitems]

/-- An accepted relist of the slices holds the slices listed. -/
theorem replaceEndpointSlices_folded {o : Objects serviceKey} {items : List Value}
    (hitems : items.Perm o.held.values) (haccepted : (s.replaceEndpointSlices items).2 = .ok ()) :
    SlicesFolded (s.replaceEndpointSlices items).1.slices o := by
  have hresult : (s.replaceEndpointSlices items).1.slices =
      (items.foldl (fun (fresh : WatchState) item => (fresh.applyEndpointSliceEvent (added item)).1) {}).slices := by
    unfold WatchState.replaceEndpointSlices at haccepted ⊢
    dsimp only at haccepted ⊢
    split at haccepted
    · cases haccepted
    · rename_i hok
      rw [if_neg hok]
  intro key name
  rw [hresult, slicesFolded_list (Objects.distinct_of_perm hitems) key name, Objects.ofList_same hitems]

/-- An accepted relist of the Nodes holds the Nodes listed. -/
theorem replaceNodes_folded {o : Objects metadataName} {items : List Value} (hitems : items.Perm o.held.values)
    {localNodeIp : IpAddr} (haccepted : (s.replaceNodes items localNodeIp).2 = .ok ()) :
    NodesFolded (s.replaceNodes items localNodeIp).1.nodeIps s.nodeIps
      (s.replaceNodes items localNodeIp).1.nodeNames o := by
  have hresult : (s.replaceNodes items localNodeIp).1.nodeIps =
      (items.foldl (WatchState.relistNode s.nodeIps) {}).nodeIps ∧ (s.replaceNodes items localNodeIp).1.nodeNames =
      (items.foldl (WatchState.relistNode s.nodeIps) {}).nodeNames := by
    unfold WatchState.replaceNodes at haccepted ⊢
    dsimp only at haccepted ⊢
    split at haccepted
    · cases haccepted
    · rename_i hok
      rw [if_neg hok]
      exact ⟨rfl, rfl⟩
  have hfolded := nodesFolded_list s.nodeIps (Objects.distinct_of_perm hitems)
  rw [hresult.1, hresult.2]
  refine ⟨fun name => ?_, fun name => ?_⟩
  · rw [hfolded.names, Objects.ofList_same hitems]
  · rw [hfolded.addrs, Objects.ofList_same hitems]

/-- Keeping what is kept already is keeping it. -/
theorem NodesFolded.keep {nodeIps kept : Table String NodeAddrs} {nodeNames : Finset String}
    {o : Objects metadataName} (h : NodesFolded nodeIps kept nodeNames o) : NodesFolded nodeIps nodeIps nodeNames o := by
  refine ⟨h.names, fun name => ?_⟩
  cases hobj : o.held.lookup name with
  | none => rw [h.addrs name, hobj]; rfl
  | some obj =>
    rw [Option.bind_some]
    split
    · rfl
    · rename_i hparse
      rw [h.addrs name, hobj, Option.bind_some, if_neg hparse]

/-- **Relisting what is held** changes nothing. -/
theorem Folded.relistAgrees {c : ApiObjects} (h : Folded s c) (localNodeIp : IpAddr) :
    RelistAgrees localNodeIp s c where
  services items keys hitems haccepted key := by
    rw [replaceServices_folded hitems haccepted key, h.services key]
  slices items hitems haccepted key name :=
    (replaceEndpointSlices_folded hitems haccepted key name).trans (h.slices key name).symm
  nodes items hitems haccepted := by
    have hlisted := replaceNodes_folded hitems haccepted
    refine ⟨fun name => (hlisted.addrs name).trans (h.nodes.addrs name).symm, Finset.ext fun name => ?_⟩
    rw [hlisted.names name, h.nodes.names name]

end

/-- The three LISTs of the objects, each in some order, are accepted one after the other and lead to the second
    state. -/
def Listed (localNodeIp : IpAddr) (c : ApiObjects) (s s' : WatchState) : Prop :=
  ∃ services slices nodes keys, services.Perm c.services.held.values ∧ slices.Perm c.slices.held.values ∧
    nodes.Perm c.nodes.held.values ∧ (s.replaceServices services).2 = .ok keys ∧
    ((s.replaceServices services).1.replaceEndpointSlices slices).2 = .ok () ∧
    (((s.replaceServices services).1.replaceEndpointSlices slices).1.replaceNodes nodes localNodeIp).2 = .ok () ∧
    s' = (((s.replaceServices services).1.replaceEndpointSlices slices).1.replaceNodes nodes localNodeIp).1

section
variable {localNodeIp : IpAddr} {c : ApiObjects} {s s' : WatchState}

theorem services_replaceEndpointSlices (items : List Value) : (s.replaceEndpointSlices items).1.services = s.services := by
  unfold WatchState.replaceEndpointSlices
  dsimp only
  split <;> rfl

theorem frame_replaceNodes (items : List Value) : (s.replaceNodes items localNodeIp).1.services = s.services ∧
    (s.replaceNodes items localNodeIp).1.slices = s.slices := by
  unfold WatchState.replaceNodes
  dsimp only
  split <;> exact ⟨rfl, rfl⟩

/-- The LISTs hold the objects. -/
theorem Listed.folded (h : Listed localNodeIp c s s') : Folded s' c := by
  obtain ⟨services, slices, nodes, keys, hservices, hslices, hnodes, hok, hok', hok'', rfl⟩ := h
  refine ⟨?_, ?_, (replaceNodes_folded hnodes hok'').keep⟩
  · rw [(frame_replaceNodes nodes).1, services_replaceEndpointSlices]
    exact replaceServices_folded hservices hok
  · rw [(frame_replaceNodes nodes).2]
    exact replaceEndpointSlices_folded hslices hok'

/-- **Folding equals relisting**, in every run in which no slice changes its owner. -/
theorem folding_equals_relisting (h : Listed localNodeIp c s s') {events : List ObjectEvent}
    (hkept : Along ApiObjects.step OwnerKept c events) :
    RelistAgrees localNodeIp (events.foldl (fun s e => s.apply localNodeIp e.input) s')
        (events.foldl ApiObjects.step c) ∧
      RefusedKeeps localNodeIp (events.foldl (fun s e => s.apply localNodeIp e.input) s') :=
  ⟨(h.folded.run hkept localNodeIp).relistAgrees localNodeIp, refusedKeeps localNodeIp _⟩

end

/-! ## A slice that changes its owner -/

/-- The event fits the objects: what is added is new, what is modified or deleted is there. -/
def FitsObjects {K : Type} [DecidableEq K] {idOf : Value → Option K} (o : Objects idOf) (event : Value) : Prop :=
  ∃ id, idOf (event.get "object") = some id ∧
    if (event.get "type").asStr = some "ADDED" then o.held.lookup id = none
    else ((event.get "type").asStr = some "MODIFIED" ∨ (event.get "type").asStr = some "DELETED") ∧
      o.held.lookup id ≠ none

/-- The event is one of the history of the objects. -/
def Consistent (c : ApiObjects) : ObjectEvent → Prop
  | .service event => FitsObjects c.services event
  | .endpointSlice event => FitsObjects c.slices event
  | .node event => FitsObjects c.nodes event

/-- The state after the first LISTs of a process. -/
def initialState (localNodeIp : IpAddr) (c : ApiObjects) : WatchState :=
  ((((({} : WatchState).replaceServices c.services.held.values).1.replaceEndpointSlices c.slices.held.values).1
    ).replaceNodes c.nodes.held.values localNodeIp).1

/-- A fresh state accepts every LIST. -/
theorem listed_initialState (localNodeIp : IpAddr) (c : ApiObjects) :
    Listed localNodeIp c {} (initialState localNodeIp c) := by
  have hservices : ∃ keys, (({} : WatchState).replaceServices c.services.held.values).2 = .ok keys := by
    have hheld : ¬ ((c.services.held.values.isEmpty && (({} : WatchState).services.entries.length != 0)) = true) :=
      fun h => Bool.noConfusion (Bool.and_eq_true_iff.mp h).2
    unfold WatchState.replaceServices
    dsimp only at hheld ⊢
    rw [if_neg hheld]
    exact ⟨_, rfl⟩
  obtain ⟨keys, hservices⟩ := hservices
  refine ⟨_, _, _, keys, .refl _, .refl _, .refl _, hservices, ?_, ?_, rfl⟩
  · have hslices : (({} : WatchState).replaceServices c.services.held.values).1.slices = ∅ := by
      unfold WatchState.replaceServices
      dsimp only
      split <;> rfl
    unfold WatchState.replaceEndpointSlices
    dsimp only
    rw [if_neg]
    rw [hslices]
    exact fun h => absurd h.1 (Nat.lt_irrefl 0)
  · have hnames : ((({} : WatchState).replaceServices c.services.held.values).1.replaceEndpointSlices
        c.slices.held.values).1.nodeNames = ∅ := by
      unfold WatchState.replaceEndpointSlices WatchState.replaceServices
      dsimp only
      split <;> split <;> rfl
    unfold WatchState.replaceNodes
    dsimp only
    rw [if_neg fun h => h.2 hnames]

/-- The Services `web` and `api`. -/
def twoServices : List Value := [serviceObject "web" [portObject 80], serviceObject "api" [portObject 81]]

/-- The slice `web-1` under a Service. -/
def movedSlice (service : String) : Value :=
  sliceObject service "web-1" [portObject 8080] [endpointObject "10.1.0.9" "n1" "a"]

/-- The objects of a cluster: the two Services, the slice under the first of them, and one Node. -/
def movedObjects : ApiObjects where
  services := .ofList twoServices
  slices := .ofList [movedSlice "web"]
  nodes := .ofList [nodeObject "n1" "10.0.0.1"]

/-- A new version of the slice. -/
def sliceModified (service : String) : ObjectEvent :=
  .endpointSlice (.obj [("type", .str "MODIFIED"), ("object", movedSlice service)])

/-- `10.0.0.1`, the one node. -/
def movedNodeIp : IpAddr := .v4 0x0a000001

/-- A version under the same owner: the relist agrees. -/
theorem folding_equals_relisting_same_owner :
    Along ApiObjects.step OwnerKept movedObjects [sliceModified "web"] ∧
      RelistAgrees movedNodeIp ((initialState movedNodeIp movedObjects).apply movedNodeIp (sliceModified "web").input)
        (movedObjects.step (sliceModified "web")) := by
  have hkept : Along ApiObjects.step OwnerKept movedObjects [sliceModified "web"] := by
    refine ⟨fun kind id old key _ hold howner => ?_, trivial⟩
    have hone : Objects.Distinct serviceKey [movedSlice "web"] :=
      ⟨fun item hitem => List.mem_singleton.mp hitem ▸ (fun h => nomatch h), List.pairwise_singleton _ _⟩
    have hmem := ((Objects.lookup_ofList hone id old).mp hold).1
    rw [List.mem_singleton.mp hmem] at howner
    exact howner
  exact ⟨hkept, (folding_equals_relisting (listed_initialState movedNodeIp movedObjects) hkept).1⟩

/-- The state after a version under the other owner. -/
def movedState : WatchState :=
  (initialState movedNodeIp movedObjects).apply movedNodeIp (sliceModified "api").input

/-- The slices listed then. -/
def movedList : List Value := (movedObjects.step (sliceModified "api")).slices.held.values

theorem movedState_phantom : ((movedState.slicesOf ⟨"default", "web"⟩).lookup "web-1").isSome = true := by
  decide

theorem movedState_accepts : (movedState.replaceEndpointSlices movedList).2.toBool = true := by decide

theorem movedState_relisted : (((movedState.replaceEndpointSlices movedList).1.slicesOf ⟨"default", "web"⟩).lookup
    "web-1").isNone = true := by
  decide

theorem movedSlice_held : (movedObjects.slices.held.lookup ⟨"default", "web-1"⟩).isSome = true := by decide

/-- A slice that changes its owner stays with the old one until the next relist. -/
theorem not_folding_equals_relisting : ¬ ∀ (localNodeIp : IpAddr) (c : ApiObjects) (s s' : WatchState)
    (events : List ObjectEvent), Listed localNodeIp c s s' → Along ApiObjects.step Consistent c events →
      RelistAgrees localNodeIp (events.foldl (fun s e => s.apply localNodeIp e.input) s')
        (events.foldl ApiObjects.step c) := by
  intro hfolds
  have hagrees := hfolds movedNodeIp movedObjects {} _ [sliceModified "api"] (listed_initialState _ _)
    ⟨⟨⟨"default", "web-1"⟩, rfl, ?_⟩, trivial⟩
  · have haccepted : (movedState.replaceEndpointSlices movedList).2 = .ok () := by
      have hok := movedState_accepts
      cases hresult : (movedState.replaceEndpointSlices movedList).2 with
      | ok u => rfl
      | error reason =>
        rw [hresult] at hok
        cases hok
    have hsame : ((movedState.replaceEndpointSlices movedList).1.slicesOf ⟨"default", "web"⟩).lookup "web-1" =
        (movedState.slicesOf ⟨"default", "web"⟩).lookup "web-1" :=
      hagrees.slices movedList (.refl _) haccepted ⟨"default", "web"⟩ "web-1"
    have hsome := movedState_phantom
    rw [← hsame, Option.isNone_iff_eq_none.mp movedState_relisted] at hsome
    cases hsome
  · obtain ⟨old, hold⟩ := Option.isSome_iff_exists.mp movedSlice_held
    refine ⟨Or.inl rfl, ?_⟩
    rw [hold]
    exact fun h => nomatch h

end Beep
