import Beep.Controller.Facts
import Beep.Lib.Run

/-!
# `Controller.History` — the API objects behind the watch

The objects of the cluster change one event at a time (`ApiObjects.step`), each kept under its own identity: namespace
and name for a Service or an EndpointSlice, the name for a Node. Any field may differ between two versions of an
object, the label that names the owner of a slice included. What each event does to a state is said once here, slot by
slot (`lookup_applyServiceEvent`, `lookup_applyEndpointSliceEvent`, `lookup_applyNodeEvent`).
-/

namespace Beep

open Json (Value)

/-- The objects of one kind, each under its identity. -/
structure Objects {K : Type} [DecidableEq K] (idOf : Value → Option K) where
  held : Table K Value
  id_eq : ∀ id obj, held.lookup id = some obj → idOf obj = some id

namespace Objects

variable {K : Type} [DecidableEq K] {idOf : Value → Option K}

/-- No objects. -/
def empty : Objects idOf := ⟨∅, fun _ _ h => nomatch h⟩

/-- The objects after an event; an event of no known type or on an object without identity is none. -/
def track (o : Objects idOf) (event : Value) : Objects idOf :=
  match eventKind event, hid : idOf (event.get "object") with
  | some .delete, some id =>
      { held := o.held.erase id
        id_eq := fun id' obj h => by
          rw [Table.lookup_erase_ite] at h
          split at h
          · cases h
          · exact o.id_eq id' obj h }
  | some .upsert, some id =>
      { held := o.held.insert id (event.get "object")
        id_eq := fun id' obj h => by
          rw [Table.lookup_insert_ite] at h
          split at h
          · rename_i hk
            rw [hk, ← Option.some_inj.mp h, hid]
          · exact o.id_eq id' obj h }
  | _, _ => o

/-- The events that say something about an object. -/
inductive Tells (idOf : Value → Option K) (event : Value) : EventKind → K → Prop
  | intro {kind : EventKind} {id : K} (hkind : eventKind event = some kind)
      (hid : idOf (event.get "object") = some id) : Tells idOf event kind id

theorem lookup_track_of_says (o : Objects idOf) {event : Value} {kind : EventKind} {id : K}
    (h : Tells idOf event kind id) (id' : K) : (o.track event).held.lookup id' =
      if id' = id then (if kind = .upsert then some (event.get "object") else none) else o.held.lookup id' := by
  obtain ⟨hkind, hid⟩ := h
  unfold track
  split
  · rename_i id₁ hkind₁ hid₁
    obtain rfl := Option.some_inj.mp (hid.symm.trans hid₁)
    obtain rfl := Option.some_inj.mp (hkind.symm.trans hkind₁)
    exact Table.lookup_erase_ite _ _ _
  · rename_i id₁ hkind₁ hid₁
    obtain rfl := Option.some_inj.mp (hid.symm.trans hid₁)
    obtain rfl := Option.some_inj.mp (hkind.symm.trans hkind₁)
    exact Table.lookup_insert_ite _ _ _ _
  · rename_i hno hno'
    cases kind with
    | delete => exact absurd hid (hno id hkind)
    | upsert => exact absurd hid (hno' id hkind)

theorem track_of_unsaid (o : Objects idOf) {event : Value} (h : ∀ kind id, ¬ Tells idOf event kind id) :
    o.track event = o := by
  unfold track
  split
  · rename_i id hkind hid
    exact absurd ⟨hkind, hid⟩ (h .delete id)
  · rename_i id hkind hid
    exact absurd ⟨hkind, hid⟩ (h .upsert id)
  · rfl

/-! ## Complete lists -/

omit [DecidableEq K] in
theorem says_added {item : Value} {id : K} (hid : idOf item = some id) : Tells idOf (added item) .upsert id :=
  ⟨rfl, hid⟩

/-- The objects that a list of them adds up to. -/
def ofList (items : List Value) : Objects idOf := items.foldl (fun o item => o.track (added item)) .empty

theorem ofList_append_singleton (items : List Value) (item : Value) :
    (ofList (items ++ [item]) : Objects idOf) = (ofList items).track (added item) := by
  rw [ofList, List.foldl_append]
  rfl

/-- A list of objects, each with an identity of its own. -/
structure Distinct (idOf : Value → Option K) (items : List Value) : Prop where
  ids : ∀ item ∈ items, idOf item ≠ none
  differ : items.Pairwise fun item item' => idOf item ≠ idOf item'

omit [DecidableEq K] in
theorem Distinct.of_append {items rest : List Value} (h : Distinct idOf (items ++ rest)) : Distinct idOf items :=
  ⟨fun item hitem => h.ids item (List.mem_append_left rest hitem), (List.pairwise_append.mp h.differ).1⟩

theorem lookup_ofList {items : List Value} (h : Distinct idOf items) (id : K) (obj : Value) :
    (ofList items : Objects idOf).held.lookup id = some obj ↔ obj ∈ items ∧ idOf obj = some id := by
  induction items using List.reverseRecOn with
  | nil => exact iff_of_false (fun h => nomatch h) fun h => absurd h.1 List.not_mem_nil
  | append_singleton items item ih =>
    obtain ⟨id', hid'⟩ := Option.ne_none_iff_exists'.mp (h.ids item (by simp))
    rw [ofList_append_singleton, lookup_track_of_says _ (says_added hid'), List.mem_append, List.mem_singleton]
    split
    · rename_i hk
      subst hk
      constructor
      · intro hobj
        obtain rfl := Option.some_inj.mp hobj
        exact ⟨Or.inr rfl, hid'⟩
      · rintro ⟨hmem | rfl, hobj⟩
        · exact absurd (hobj.trans hid'.symm) ((List.pairwise_append.mp h.differ).2.2 obj hmem item (by simp))
        · rfl
    · rename_i hk
      rw [ih h.of_append]
      constructor
      · rintro ⟨hmem, hobj⟩
        exact ⟨Or.inl hmem, hobj⟩
      · rintro ⟨hmem | rfl, hobj⟩
        · exact ⟨hmem, hobj⟩
        · exact absurd (Option.some_inj.mp (hobj.symm.trans hid')) hk

/-- The item after the ones listed is new. -/
theorem Distinct.lookup_ofList_eq_none {items : List Value} {item : Value} {id : K}
    (h : Distinct idOf (items ++ [item])) (hid : idOf item = some id) :
    (ofList items : Objects idOf).held.lookup id = none := by
  cases hobj : (ofList items : Objects idOf).held.lookup id with
  | none => rfl
  | some obj =>
    obtain ⟨hmem, hobj⟩ := (lookup_ofList h.of_append id obj).mp hobj
    exact absurd (hobj.trans hid.symm) ((List.pairwise_append.mp h.differ).2.2 obj hmem item (by simp))

/-- A complete list of the objects held, in any order. -/
theorem distinct_of_perm {o : Objects idOf} {items : List Value} (h : items.Perm o.held.values) :
    Distinct idOf items := by
  have hids : o.held.values.map idOf = o.held.keys.map some := by
    show (o.held.entries.map Sigma.snd).map idOf = (o.held.entries.map Sigma.fst).map some
    rw [List.map_map, List.map_map]
    exact List.map_congr_left fun e he => o.id_eq e.1 e.2 (AList.mem_lookup_iff.mpr he)
  constructor
  · intro item hitem
    have hmem : idOf item ∈ o.held.values.map idOf := List.mem_map_of_mem (h.mem_iff.mp hitem)
    rw [hids] at hmem
    obtain ⟨id, -, hid⟩ := List.mem_map.mp hmem
    rw [← hid]
    exact fun h => nomatch h
  · have hnodup : (items.map idOf).Nodup := by
      rw [(h.map idOf).nodup_iff, hids]
      exact o.held.keys_nodup.map (Option.some_injective K)
    exact List.pairwise_map.mp hnodup

/-- **A complete list** adds up to the objects held. -/
theorem ofList_same {o : Objects idOf} {items : List Value} (h : items.Perm o.held.values) :
    (ofList items : Objects idOf).held.Same o.held := by
  refine fun id => Option.ext fun obj => ?_
  rw [lookup_ofList (distinct_of_perm h), h.mem_iff, Table.mem_values]
  constructor
  · rintro ⟨⟨id', hid'⟩, hid⟩
    obtain rfl := Option.some_inj.mp ((o.id_eq id' obj hid').symm.trans hid)
    exact hid'
  · intro hobj
    exact ⟨⟨id, hobj⟩, o.id_eq id obj hobj⟩

end Objects

/-- The API objects as they are at one time. -/
structure ApiObjects where
  services : Objects serviceKey := .empty
  slices : Objects serviceKey := .empty
  nodes : Objects metadataName := .empty

/-- One watch event. -/
inductive ObjectEvent where
  | service (event : Value)
  | endpointSlice (event : Value)
  | node (event : Value)

/-- The event as the watch hands it over. -/
def ObjectEvent.input : ObjectEvent → WatchInput
  | .service event => .service event
  | .endpointSlice event => .endpointSlice event
  | .node event => .node event

/-- The objects after an event. -/
def ApiObjects.step (c : ApiObjects) : ObjectEvent → ApiObjects
  | .service event => { c with services := c.services.track event }
  | .endpointSlice event => { c with slices := c.slices.track event }
  | .node event => { c with nodes := c.nodes.track event }

/-! ## Identities -/

theorem ns_of_owningServiceKey {obj : Value} {key id : ServiceKey} (howner : owningServiceKey obj = some key)
    (hid : serviceKey obj = some id) : key.ns = id.ns := by
  simp only [owningServiceKey, serviceKey, Option.bind_eq_bind, Option.bind_eq_some_iff, Option.pure_def,
    Option.some.injEq] at howner hid
  obtain ⟨ns, hns, _, _, rfl⟩ := howner
  obtain ⟨ns', hns', _, _, rfl⟩ := hid
  exact Option.some_inj.mp (hns.symm.trans hns')

theorem metadataName_of_serviceKey {obj : Value} {id : ServiceKey} (hid : serviceKey obj = some id) :
    metadataName obj = some id.name := by
  simp only [serviceKey, Option.bind_eq_bind, Option.bind_eq_some_iff, Option.pure_def, Option.some.injEq] at hid
  obtain ⟨_, _, name, hname, rfl⟩ := hid
  exact hname

/-- An object with an owner and a name has an identity. -/
theorem serviceKey_of_owner {obj : Value} {key : ServiceKey} {name : String} (howner : owningServiceKey obj = some key)
    (hname : metadataName obj = some name) : serviceKey obj = some ⟨key.ns, name⟩ := by
  simp only [owningServiceKey, Option.bind_eq_bind, Option.bind_eq_some_iff, Option.pure_def,
    Option.some.injEq] at howner
  obtain ⟨ns, hns, _, _, rfl⟩ := howner
  simp [serviceKey, hns, hname]

/-! ## What one event does to a state -/

namespace WatchState

open Objects (Tells)

theorem lookup_putSlice (slices : Table ServiceKey (Table String RawEndpointSlice)) (owner key : ServiceKey)
    (name name' : String) (slice : RawEndpointSlice) :
    ((((putSlice slices owner name slice).lookup key).getD ∅).lookup name') =
      if key = owner ∧ name' = name then some slice else ((slices.lookup key).getD ∅).lookup name' := by
  rw [putSlice, Table.lookup_insert_ite]
  by_cases hkey : key = owner
  · rw [if_pos hkey, Option.getD_some, Table.lookup_insert_ite, hkey]
    simp
  · rw [if_neg hkey, if_neg fun h => hkey h.1]

theorem lookup_removeSlice (slices : Table ServiceKey (Table String RawEndpointSlice)) (owner key : ServiceKey)
    (name name' : String) : ((((removeSlice slices owner name).lookup key).getD ∅).lookup name') =
      if key = owner ∧ name' = name then none else ((slices.lookup key).getD ∅).lookup name' := by
  unfold removeSlice
  split
  · rename_i set hset
    rw [Table.lookup_insert_ite]
    by_cases hkey : key = owner
    · rw [if_pos hkey, Option.getD_some, Table.lookup_erase_ite, hkey, hset]
      simp
    · rw [if_neg hkey, if_neg fun h => hkey h.1]
  · rename_i hnone
    split
    · rename_i h
      rw [h.1, hnone]
      rfl
    · rfl

/-- **A Service event** sets the Service it is about. -/
theorem lookup_applyServiceEvent (s : WatchState) {event : Value} {kind : EventKind} {id : ServiceKey}
    (h : Tells serviceKey event kind id) (key : ServiceKey) : (s.applyServiceEvent event).1.services.lookup key =
      if key = id then (if kind = .upsert then parseService (event.get "object") else none)
      else s.services.lookup key := by
  obtain ⟨hkind, hid⟩ := h
  unfold applyServiceEvent
  simp only [hkind, hid]
  cases kind with
  | delete => exact Table.lookup_erase_ite _ _ _
  | upsert =>
    cases hparse : parseService (event.get "object") with
    | some raw => exact Table.lookup_insert_ite _ _ _ _
    | none => exact Table.lookup_erase_ite _ _ _

/-- It leaves the rest of the state as it is. -/
theorem applyServiceEvent_frame (s : WatchState) (event : Value) : (s.applyServiceEvent event).1 =
    { s with services := (s.applyServiceEvent event).1.services } := by
  unfold applyServiceEvent
  dsimp only
  split
  · rfl
  · split <;> rfl
  · rfl

theorem applyServiceEvent_of_unsaid (s : WatchState) {event : Value}
    (h : ∀ kind id, ¬ Tells serviceKey event kind id) : (s.applyServiceEvent event).1 = s := by
  unfold applyServiceEvent
  dsimp only
  cases hkind : eventKind event with
  | none => rfl
  | some kind =>
    cases hid : serviceKey (event.get "object") with
    | none => cases kind <;> rfl
    | some id => exact absurd ⟨hkind, hid⟩ (h kind id)

/-- **A slice event** sets the slice under the owner it names. -/
theorem lookup_applyEndpointSliceEvent (s : WatchState) {event : Value} {kind : EventKind} {id : ServiceKey}
    (h : Tells serviceKey event kind id) (key : ServiceKey) (name : String) :
    ((s.applyEndpointSliceEvent event).1.slicesOf key).lookup name =
      if owningServiceKey (event.get "object") = some key ∧ name = id.name then
        (if kind = .upsert then some (parseEndpointSlice (event.get "object")) else none)
      else (s.slicesOf key).lookup name := by
  obtain ⟨hkind, hid⟩ := h
  unfold applyEndpointSliceEvent
  simp only [hkind, metadataName_of_serviceKey hid]
  cases howner : owningServiceKey (event.get "object") with
  | none =>
    rw [if_neg fun h => nomatch h.1]
  | some owner =>
    simp only [Option.some.injEq, slicesOf]
    cases kind with
    | delete =>
      rw [lookup_removeSlice]
      simp [eq_comm]
    | upsert =>
      rw [lookup_putSlice]
      simp [eq_comm]

/-- It leaves the rest of the state as it is. -/
theorem applyEndpointSliceEvent_frame (s : WatchState) (event : Value) : (s.applyEndpointSliceEvent event).1 =
    { s with slices := (s.applyEndpointSliceEvent event).1.slices } := by
  unfold applyEndpointSliceEvent
  dsimp only
  split <;> rfl

theorem applyEndpointSliceEvent_of_unsaid (s : WatchState) {event : Value}
    (h : ∀ kind id, ¬ Tells serviceKey event kind id) : (s.applyEndpointSliceEvent event).1 = s := by
  unfold applyEndpointSliceEvent
  dsimp only
  cases hkind : eventKind event with
  | none => rfl
  | some kind =>
    cases howner : owningServiceKey (event.get "object") with
    | none => rfl
    | some owner =>
      cases hname : metadataName (event.get "object") with
      | none => rfl
      | some name => exact absurd ⟨hkind, serviceKey_of_owner howner hname⟩ (h kind _)

theorem mem_nodeNames_applyNodeEvent (s : WatchState) {event : Value} {kind : EventKind} {id : String}
    (h : Tells metadataName event kind id) (name : String) : name ∈ (s.applyNodeEvent event).nodeNames ↔
      if name = id then kind = .upsert else name ∈ s.nodeNames := by
  obtain ⟨hkind, hid⟩ := h
  unfold applyNodeEvent
  simp only [hkind, hid]
  cases kind with
  | delete => by_cases hname : name = id <;> simp [hname]
  | upsert => by_cases hname : name = id <;> simp [hname]

/-- **A Node event** sets the addresses of its Node, unless it names none. -/
theorem lookup_applyNodeEvent (s : WatchState) {event : Value} {kind : EventKind} {id : String}
    (h : Tells metadataName event kind id) (name : String) : (s.applyNodeEvent event).nodeIps.lookup name =
      if name = id ∧ ¬ (kind = .upsert ∧ (parseNodeAddrs (event.get "object")).underlay = []) then
        (if kind = .upsert then some (parseNodeAddrs (event.get "object")) else none)
      else s.nodeIps.lookup name := by
  obtain ⟨hkind, hid⟩ := h
  unfold applyNodeEvent
  simp only [hkind, hid]
  cases kind with
  | delete =>
    show AList.lookup name (s.nodeIps.erase id) = _
    rw [Table.lookup_erase_ite]
    simp
  | upsert =>
    dsimp only
    by_cases hparse : (parseNodeAddrs (event.get "object")).underlay = []
    · rw [if_pos hparse, if_neg fun h => h.2 ⟨rfl, hparse⟩]
    · rw [if_neg hparse, Table.lookup_insert_ite]
      simp [hparse]

/-- It leaves the rest of the state as it is. -/
theorem applyNodeEvent_frame (s : WatchState) (event : Value) : s.applyNodeEvent event =
    { s with nodeIps := (s.applyNodeEvent event).nodeIps, nodeNames := (s.applyNodeEvent event).nodeNames } := by
  unfold applyNodeEvent
  dsimp only
  split <;> rfl

theorem applyNodeEvent_of_unsaid (s : WatchState) {event : Value}
    (h : ∀ kind id, ¬ Tells metadataName event kind id) : s.applyNodeEvent event = s := by
  unfold applyNodeEvent
  dsimp only
  cases hkind : eventKind event with
  | none => rfl
  | some kind =>
    cases hid : metadataName (event.get "object") with
    | none => cases kind <;> rfl
    | some id => exact absurd ⟨hkind, hid⟩ (h kind id)

end WatchState

end Beep
