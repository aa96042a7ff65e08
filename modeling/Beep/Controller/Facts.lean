import Beep.Controller.Desired

/-!
# `Controller.Facts` — what the objects say about one address

For one pod IP the state comes down to its facts: which slices of which tracked Services list the address, on which
Node and for which pod (`HasFact`). Whether the address is a backend of the cluster and whether it is a pod of this node
depends on its facts and their Nodes only, in whatever order the maps are iterated (`SameContent`); the uid it is known
by is the first known one of some slice (`NamedFirst`), and any slice can be the first.
-/

namespace Beep

/-- An endpoint of a slice, as far as it says whose the address is. -/
structure Fact where
  service : ServiceKey
  slice : String
  podIp : IpAddr
  nodeName : Option String
  uid : Option String

namespace WatchState

/-- Two states that hold the same objects; their maps may be iterated in different orders. -/
structure SameContent (s s' : WatchState) : Prop where
  services : s.services.Same s'.services
  slices : ∀ key, (s.slicesOf key).Same (s'.slicesOf key)
  nodeIps : s.nodeIps.Same s'.nodeIps
  nodeNames : s.nodeNames = s'.nodeNames
  nodesListed : s.nodesListed = s'.nodesListed
  servicesListed : s.servicesListed = s'.servicesListed
  slicesListed : s.slicesListed = s'.slicesListed

theorem SameContent.refl (s : WatchState) : s.SameContent s :=
  ⟨.refl _, fun _ => .refl _, .refl _, rfl, rfl, rfl, rfl⟩

theorem SameContent.fullyListed {s s' : WatchState} (h : s.SameContent s') : s.fullyListed = s'.fullyListed := by
  unfold WatchState.fullyListed
  rw [h.nodesListed, h.servicesListed, h.slicesListed]

/-- A slice a tracked Service holds. -/
def HasSlice (s : WatchState) (key : ServiceKey) (name : String) (slice : RawEndpointSlice) : Prop :=
  (s.services.lookup key).isSome = true ∧ (s.slicesOf key).lookup name = some slice

theorem SameContent.hasSlice {s s' : WatchState} (h : s.SameContent s') {key : ServiceKey} {name : String}
    {slice : RawEndpointSlice} : s.HasSlice key name slice ↔ s'.HasSlice key name slice := by
  unfold HasSlice
  rw [h.services key, h.slices key name]

/-- The endpoint of a fact has not departed. -/
def Tracks (s : WatchState) (nodeName : Option String) : Bool :=
  nodeName.any fun n => !s.nodesListed || n ∈ s.nodeNames

theorem SameContent.tracks {s s' : WatchState} (h : s.SameContent s') (nodeName : Option String) :
    s.Tracks nodeName = s'.Tracks nodeName := by
  unfold Tracks
  rw [h.nodesListed, h.nodeNames]

/-- The Node of a fact is this one and may serve the address. -/
def Serves (s : WatchState) (node : NodeContext) (podIp : IpAddr) (nodeName : Option String) : Prop :=
  ∃ n addrs, nodeName = some n ∧ s.nodeIps.lookup n = some addrs ∧
    (pickUnderlayIp addrs.underlay node.nodeIp).isSome = true ∧
    (addrs.underlay ++ addrs.fronts).contains node.nodeIp = true ∧
    (node.podCidr.contains podIp || (addrs.underlay ++ addrs.fronts).contains podIp) = true

/-- The slices of the tracked Services, in the order they are visited. -/
def sliceList (s : WatchState) : List RawEndpointSlice :=
  s.services.entries.flatMap fun e => (s.slicesOf e.1).values

theorem mem_sliceList {s : WatchState} {slice : RawEndpointSlice} :
    slice ∈ s.sliceList ↔ ∃ key name, s.HasSlice key name slice := by
  simp only [sliceList, List.mem_flatMap, Table.mem_values, HasSlice, Option.isSome_iff_exists, Sigma.exists]
  constructor
  · rintro ⟨key, svc, hmem, name, hslice⟩
    exact ⟨key, name, ⟨svc, AList.mem_lookup_iff.mpr hmem⟩, hslice⟩
  · rintro ⟨key, name, ⟨svc, hsvc⟩, hslice⟩
    exact ⟨key, svc, AList.mem_lookup_iff.mp hsvc, name, hslice⟩

theorem resolveEndpoint_eq_some {s : WatchState} {node : NodeContext} {slice : RawEndpointSlice} {raw : RawEndpoint}
    {e : Endpoint} : s.resolveEndpoint node slice raw = some e ↔
      ∃ n addrs pick, raw.nodeName = some n ∧ s.nodeIps.lookup n = some addrs ∧
        pickUnderlayIp addrs.underlay node.nodeIp = some pick ∧
        e = ⟨raw.podIp, pick.ip, addrs.underlay ++ addrs.fronts, raw.ready, raw.terminating, raw.serving,
          slice.ports.map (·.port), raw.podUid⟩ := by
  simp only [resolveEndpoint, Option.bind_eq_bind, Option.bind_eq_some_iff, Option.pure_def, Option.some.injEq]
  constructor
  · rintro ⟨n, hn, addrs, haddrs, pick, hpick, rfl⟩
    exact ⟨n, addrs, pick, hn, haddrs, hpick, rfl⟩
  · rintro ⟨n, addrs, pick, hn, haddrs, hpick, rfl⟩
    exact ⟨n, hn, addrs, haddrs, pick, hpick, rfl⟩

/-- The views of the slices hold the endpoints whose Node is resolved. -/
theorem mem_endpointSlices {s : WatchState} {node : NodeContext} {slices : Table String RawEndpointSlice}
    {e : Endpoint} : e ∈ (s.endpointSlices node slices).flatten ↔
      ∃ name slice raw, slices.lookup name = some slice ∧ raw ∈ slice.endpoints ∧
        s.resolveEndpoint node slice raw = some e := by
  simp only [endpointSlices, List.mem_flatten, List.mem_map, Table.mem_values]
  constructor
  · rintro ⟨_, ⟨slice, ⟨name, hname⟩, rfl⟩, he⟩
    obtain ⟨raw, hraw, hres⟩ := List.mem_filterMap.mp he
    exact ⟨name, slice, raw, hname, hraw, hres⟩
  · rintro ⟨name, slice, raw, hname, hraw, hres⟩
    exact ⟨_, ⟨slice, ⟨name, hname⟩, rfl⟩, List.mem_filterMap.mpr ⟨raw, hraw, hres⟩⟩

variable [Host]

/-- A fact about an address. -/
def HasFact (s : WatchState) (x : Bytes 16) (f : Fact) : Prop :=
  wireIpV6 f.podIp = x ∧ ∃ slice e, s.HasSlice f.service f.slice slice ∧ e ∈ slice.endpoints ∧ e.podIp = f.podIp ∧
    e.nodeName = f.nodeName ∧ e.podUid = f.uid

theorem SameContent.hasFact {s s' : WatchState} (h : s.SameContent s') {x : Bytes 16} {f : Fact} :
    s.HasFact x f ↔ s'.HasFact x f := by
  unfold HasFact
  simp only [h.hasSlice]

/-! ## The backends -/

/-- The backends one slice lists, in order. -/
def sliceBackends (s : WatchState) (slice : RawEndpointSlice) : List (Bytes 16 × Option String) :=
  (slice.endpoints.filter fun e => s.Tracks e.nodeName).map fun e => (wireIpV6 e.podIp, e.podUid)

theorem backendList_eq (s : WatchState) : s.backendList = s.sliceList.flatMap s.sliceBackends := by
  unfold backendList sliceList
  rw [List.flatMap_assoc]
  refine List.flatMap_congr fun e _ => ?_
  unfold trackedEndpoints sliceBackends
  rw [List.filter_flatMap, List.map_flatMap, List.map_flatMap]
  refine List.flatMap_congr fun slice _ => ?_
  rw [List.map_map]
  rfl

theorem mem_backendList {s : WatchState} {x : Bytes 16} {u : Option String} :
    (x, u) ∈ s.backendList ↔ ∃ f, s.HasFact x f ∧ s.Tracks f.nodeName = true ∧ f.uid = u := by
  simp only [backendList_eq, List.mem_flatMap, mem_sliceList, sliceBackends, List.mem_map, List.mem_filter,
    Prod.mk.injEq]
  constructor
  · rintro ⟨slice, ⟨key, name, hslice⟩, e, ⟨he, htracks⟩, hx, hu⟩
    exact ⟨⟨key, name, e.podIp, e.nodeName, e.podUid⟩, ⟨hx, slice, e, hslice, he, rfl, rfl, rfl⟩, htracks, hu⟩
  · rintro ⟨f, ⟨hx, slice, e, hslice, he, hip, hnode, huid⟩, htracks, hu⟩
    refine ⟨slice, ⟨f.service, f.slice, hslice⟩, e, ⟨he, ?_⟩, ?_, huid.trans hu⟩
    · rw [hnode]
      exact htracks
    · rw [hip]
      exact hx

/-- Some endpoint of the address has not departed. -/
def IsBackend (s : WatchState) (x : Bytes 16) : Prop := ∃ f, s.HasFact x f ∧ s.Tracks f.nodeName = true

theorem SameContent.isBackend {s s' : WatchState} (h : s.SameContent s') {x : Bytes 16} :
    s.IsBackend x ↔ s'.IsBackend x := by
  unfold IsBackend
  simp only [h.hasFact, h.tracks]

/-- **A backend** is an address with a fact whose endpoint has not departed. -/
theorem isBackend_iff {s : WatchState} {node : NodeContext} {x : Bytes 16} :
    (s.desired node).clusterBackends.lookup x ≠ none ↔ ∃ f, s.HasFact x f ∧ s.Tracks f.nodeName = true := by
  rw [lookup_clusterBackends]
  have hnil : firstUid (uidsOf x s.backendList) ≠ none ↔ ∃ u, u ∈ uidsOf x s.backendList := by
    cases uidsOf x s.backendList with
    | nil => simp [firstUid]
    | cons u uids => simp [firstUid]
  rw [hnil]
  simp only [mem_uidsOf, mem_backendList]
  constructor
  · rintro ⟨u, f, hf, htracks, _⟩
    exact ⟨f, hf, htracks⟩
  · rintro ⟨f, hf, htracks⟩
    exact ⟨f.uid, f, hf, htracks, rfl⟩

/-- Some address is a backend. -/
theorem hasBackend_iff {s : WatchState} {node : NodeContext} :
    (s.desired node).clusterBackends.entries.isEmpty = false ↔ ∃ y, s.IsBackend y := by
  rw [Table.isEmpty_entries_eq_false]
  exact exists_congr fun y => isBackend_iff

/-! ## The pods of the node -/

/-- Some endpoint of the address is served by this node. -/
def ServesAddr (s : WatchState) (node : NodeContext) (x : Bytes 16) : Prop :=
  ∃ f, s.HasFact x f ∧ s.Serves node f.podIp f.nodeName

theorem SameContent.servesAddr {s s' : WatchState} (h : s.SameContent s') {node : NodeContext} {x : Bytes 16} :
    s.ServesAddr node x ↔ s'.ServesAddr node x := by
  unfold ServesAddr Serves
  simp only [h.hasFact, h.nodeIps _]

/-- **A pod of the node** is an address with a fact that this node serves. -/
theorem isPodTarget_iff {s : WatchState} {node : NodeContext} {x : Bytes 16} :
    x ∈ (s.desired node).podTargets ↔ ∃ f, s.HasFact x f ∧ s.Serves node f.podIp f.nodeName := by
  simp only [mem_podTargets, podTargetsForNode, List.mem_toFinset, List.mem_map, List.mem_filter,
    mem_endpointSlices, resolveEndpoint_eq_some, Bool.and_eq_true]
  constructor
  · rintro ⟨key, svc, hsvc, _, ⟨⟨name, slice, raw, hname, hraw, n, addrs, pick, hn, haddrs, hpick, rfl⟩, hlocal, hadm⟩,
      hx⟩
    exact ⟨⟨key, name, raw.podIp, raw.nodeName, raw.podUid⟩,
      ⟨hx, slice, raw, ⟨Option.isSome_iff_exists.mpr ⟨svc, hsvc⟩, hname⟩, hraw, rfl, rfl, rfl⟩,
      n, addrs, hn, haddrs, Option.isSome_iff_exists.mpr ⟨pick, hpick⟩, hlocal, hadm⟩
  · rintro ⟨⟨key, name, podIp, nodeName, uid⟩, ⟨hx, slice, raw, ⟨hsvc, hname⟩, hraw, rfl, rfl, rfl⟩, n, addrs, hn,
      haddrs, hpick, hlocal, hadm⟩
    obtain ⟨svc, hsvc⟩ := Option.isSome_iff_exists.mp hsvc
    obtain ⟨pick, hpick⟩ := Option.isSome_iff_exists.mp hpick
    exact ⟨key, svc, hsvc, _, ⟨⟨name, slice, raw, hname, hraw, n, addrs, pick, hn, haddrs, hpick, rfl⟩, hlocal, hadm⟩,
      hx⟩

/-! ## The uid an address is known by -/

/-- Some slice of a tracked Service lists the address first under the uid. -/
def NamedFirst (s : WatchState) (x : Bytes 16) (uid : String) : Prop :=
  ∃ key name slice, s.HasSlice key name slice ∧ (uidsOf x (s.sliceBackends slice)).findSome? id = some uid

theorem SameContent.sliceBackends {s s' : WatchState} (h : s.SameContent s') (slice : RawEndpointSlice) :
    s.sliceBackends slice = s'.sliceBackends slice := by
  unfold WatchState.sliceBackends WatchState.Tracks
  rw [h.nodesListed, h.nodeNames]

theorem SameContent.namedFirst {s s' : WatchState} (h : s.SameContent s') {x : Bytes 16} {uid : String} :
    s.NamedFirst x uid ↔ s'.NamedFirst x uid := by
  unfold NamedFirst
  simp only [h.hasSlice, h.sliceBackends]

omit [Host] in
theorem exists_of_findSome?_flatMap {α : Type*} {l : List α} {f : α → List (Option String)} {uid : String}
    (h : (l.flatMap f).findSome? id = some uid) : ∃ a ∈ l, (f a).findSome? id = some uid := by
  induction l with
  | nil => exact absurd h (by simp)
  | cons a l ih =>
    rw [List.flatMap_cons, List.findSome?_append, Option.or_eq_some_iff] at h
    rcases h with ha | ⟨_, hl⟩
    · exact ⟨a, List.mem_cons_self, ha⟩
    · obtain ⟨b, hb, hfirst⟩ := ih hl
      exact ⟨b, List.mem_cons_of_mem a hb, hfirst⟩

omit [Host] in
theorem uidsOf_flatMap {α : Type*} (x : Bytes 16) (l : List α) (f : α → List (Bytes 16 × Option String)) :
    uidsOf x (l.flatMap f) = l.flatMap fun a => uidsOf x (f a) := List.filterMap_flatMap

/-- The uid an address is known by is the first one of some slice. -/
theorem namedFirst_of_lookup {s : WatchState} {node : NodeContext} {x : Bytes 16} {uid : String}
    (h : (s.desired node).clusterBackends.lookup x = some (some uid)) : s.NamedFirst x uid := by
  rw [lookup_clusterBackends] at h
  have hfirst : (uidsOf x s.backendList).findSome? id = some uid := by
    unfold firstUid at h
    split at h
    · cases h
    · exact Option.some_inj.mp h
  rw [backendList_eq, uidsOf_flatMap] at hfirst
  obtain ⟨slice, hslice, hfirst⟩ := exists_of_findSome?_flatMap hfirst
  obtain ⟨key, name, hslice⟩ := mem_sliceList.mp hslice
  exact ⟨key, name, slice, hslice, hfirst⟩

/-- Any slice can be the first to be visited. -/
theorem NamedFirst.exists_order {s : WatchState} {x : Bytes 16} {uid : String} (h : s.NamedFirst x uid)
    (node : NodeContext) :
    ∃ s' : WatchState, s'.SameContent s ∧ (s'.desired node).clusterBackends.lookup x = some (some uid) := by
  obtain ⟨key, name, slice, ⟨hsvc, hname⟩, hfirst⟩ := h
  obtain ⟨svc, hsvc⟩ := Option.isSome_iff_exists.mp hsvc
  let set := (s.slicesOf key).insert name slice
  let s' : WatchState :=
    { s with services := s.services.insert key svc, slices := s.slices.insert key set }
  have hset : ∀ k, s'.slicesOf k = if k = key then set else s.slicesOf k := by
    intro k
    show (AList.lookup k (s.slices.insert key set)).getD ∅ = _
    rw [Table.lookup_insert_ite]
    split <;> rfl
  have hsame : s'.SameContent s := by
    refine ⟨fun k => ?_, fun k name' => ?_, .refl _, rfl, rfl, rfl, rfl⟩
    · show AList.lookup k (s.services.insert key svc) = _
      rw [Table.lookup_insert_ite]
      split
      · rename_i hk
        rw [hk, hsvc]
      · rfl
    · rw [hset]
      split
      · rename_i hk
        show AList.lookup name' ((s.slicesOf key).insert name slice) = _
        rw [Table.lookup_insert_ite, hk]
        split
        · rename_i hname'
          rw [hname', hname]
        · rfl
      · rfl
  refine ⟨s', hsame, ?_⟩
  -- the slice is visited first
  have hlist : ∃ rest, s'.sliceList = slice :: rest := by
    refine ⟨?_, ?_⟩
    · exact (List.map Sigma.snd (List.kerase name (s.slicesOf key).entries)) ++
        (List.kerase key s.services.entries).flatMap fun e => (s'.slicesOf e.1).values
    · show (List.flatMap (fun e => (s'.slicesOf e.1).values) (s.services.insert key svc).entries) = _
      rw [AList.entries_insert, List.flatMap_cons, hset, if_pos rfl]
      show List.map Sigma.snd ((s.slicesOf key).insert name slice).entries ++ _ = _
      rw [AList.entries_insert]
      rfl
  obtain ⟨rest, hlist⟩ := hlist
  rw [lookup_clusterBackends, backendList_eq, hlist, List.flatMap_cons, uidsOf_append]
  have hne : uidsOf x (s'.sliceBackends slice) ≠ [] := by
    intro hnil
    rw [hsame.sliceBackends] at hnil
    rw [hnil] at hfirst
    cases hfirst
  unfold firstUid
  rw [if_neg (fun h => hne (List.append_eq_nil_iff.mp h).1), List.findSome?_append, hsame.sliceBackends, hfirst]
  rfl

end WatchState

end Beep
