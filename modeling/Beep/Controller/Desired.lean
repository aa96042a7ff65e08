import Beep.Controller.Watch

/-!
# `Controller.Desired` — what the desired entries hold

`WatchState.desired` folds over the tracked Services, and every field of its result is read off the Services once and
for all here: the pods of the node (`mem_podTargets`), the backends of the cluster with the uid that stands for each
(`lookup_clusterBackends`), and the fronts as the last of a list of writes (`lookup_fronts`). Nothing else looks into
the folds.
-/

namespace Beep

/-! ## The uid of an address -/

/-- The uid a list of owners of one address is known by: none if there are no owners, else the first known one. -/
def firstUid (uids : List (Option String)) : Option (Option String) :=
  if uids = [] then none else some (uids.findSome? id)

/-- The uids an address is listed under, in order. -/
def uidsOf (x : Bytes 16) (l : List (Bytes 16 × Option String)) : List (Option String) :=
  l.filterMap fun e => if e.1 = x then some e.2 else none

theorem uidsOf_append (x : Bytes 16) (l l' : List (Bytes 16 × Option String)) :
    uidsOf x (l ++ l') = uidsOf x l ++ uidsOf x l' := List.filterMap_append

theorem mem_uidsOf {x : Bytes 16} {l : List (Bytes 16 × Option String)} {u : Option String} :
    u ∈ uidsOf x l ↔ (x, u) ∈ l := by
  simp only [uidsOf, List.mem_filterMap, Option.ite_none_right_eq_some, Option.some.injEq, Prod.exists]
  constructor
  · rintro ⟨y, v, hmem, rfl, rfl⟩
    exact hmem
  · intro hmem
    exact ⟨x, u, hmem, rfl, rfl⟩

theorem firstUid_append (l l' : List (Option String)) :
    firstUid (l ++ l') = firstUid ((firstUid l).toList ++ l') := by
  cases l with
  | nil => rfl
  | cons u l =>
    show some (((u :: l) ++ l').findSome? id) = some (((u :: l).findSome? id :: l').findSome? id)
    rw [List.findSome?_append]
    cases (u :: l).findSome? id <;> rfl

theorem lookup_noteBackend (t : Table (Bytes 16) (Option String)) (ip : Bytes 16) (uid : Option String)
    (x : Bytes 16) :
    (noteBackend t ip uid).lookup x = firstUid ((t.lookup x).toList ++ uidsOf x [(ip, uid)]) := by
  rw [noteBackend, Table.lookup_insert_ite]
  by_cases hx : x = ip
  · subst hx
    rcases t.lookup x with _ | _ | u <;> simp [firstUid, uidsOf]
  · rcases t.lookup x with _ | _ | u <;> simp [firstUid, uidsOf, hx, Ne.symm hx]

theorem lookup_foldl_noteBackend (l : List (Bytes 16 × Option String)) (t : Table (Bytes 16) (Option String))
    (x : Bytes 16) :
    (l.foldl (fun backends e => noteBackend backends e.1 e.2) t).lookup x =
      firstUid ((t.lookup x).toList ++ uidsOf x l) := by
  induction l generalizing t with
  | nil =>
    show t.lookup x = firstUid ((t.lookup x).toList ++ [])
    rcases t.lookup x with _ | _ | u <;> rfl
  | cons e l ih =>
    rw [List.foldl_cons, ih, lookup_noteBackend, ← firstUid_append, List.append_assoc, ← uidsOf_append]
    rfl

/-- A map lists an address at most once. -/
theorem uidsOf_entries (t : Table (Bytes 16) (Option String)) (x : Bytes 16) :
    uidsOf x (t.entries.map fun e => (e.1, e.2)) = (t.lookup x).toList := by
  obtain ⟨entries, hnodup⟩ := t
  show uidsOf x (entries.map fun e => (e.1, e.2)) = (entries.dlookup x).toList
  induction entries with
  | nil => rfl
  | cons e entries ih =>
    obtain ⟨y, u⟩ := e
    obtain ⟨hy, hnodup⟩ := List.nodupKeys_cons.mp hnodup
    rw [List.map_cons, ← List.singleton_append, uidsOf_append, ih hnodup]
    by_cases hx : y = x
    · subst hx
      rw [List.dlookup_cons_eq, List.dlookup_eq_none.mpr hy]
      simp [uidsOf]
    · rw [List.dlookup_cons_ne _ _ (Ne.symm hx)]
      simp [uidsOf, hx]

/-! ## Reading the desired entries -/

variable [Host]

theorem lookup_clusterBackends_list (endpoints : List (IpAddr × Option String)) (x : Bytes 16) :
    (clusterBackends endpoints).lookup x = firstUid (uidsOf x (endpoints.map fun e => (wireIpV6 e.1, e.2))) := by
  have hfold : clusterBackends endpoints = (endpoints.map fun e => (wireIpV6 e.1, e.2)).foldl
      (fun backends e => noteBackend backends e.1 e.2) ∅ := by
    rw [List.foldl_map]
    rfl
  rw [hfold, lookup_foldl_noteBackend]
  rfl

namespace WatchState

/-- The slices of a Service, none if none is held. -/
def slicesOf (s : WatchState) (key : ServiceKey) : Table String RawEndpointSlice := (s.slices.lookup key).getD ∅

/-- The endpoints of the tracked Services with their uids, in the order they are visited. -/
def backendList (s : WatchState) : List (Bytes 16 × Option String) :=
  s.services.entries.flatMap fun e => (s.trackedEndpoints (s.slicesOf e.1)).map fun f => (wireIpV6 f.1, f.2)

/-- The fronts one Service writes on one address. -/
def portWrites (s : WatchState) (node : NodeContext) (svc : RawService) (slices : Table String RawEndpointSlice)
    (frontIp : IpAddr) : List (LbFrontKey × DesiredFront) :=
  (resolvedPorts svc slices).map fun port => (frontKey frontIp port.port port.protocol,
    (serviceView svc slices frontIp).frontOf (s.endpointSlices node slices).flatten node port)

/-- The fronts one Service writes, in order. -/
def serviceWrites (s : WatchState) (node : NodeContext) (svc : RawService) (slices : Table String RawEndpointSlice) :
    List (LbFrontKey × DesiredFront) :=
  (s.frontIps.filter fun ip => svc.frontsFamily (.of ip)).flatMap (s.portWrites node svc slices)

/-- All the fronts that are written, in order. -/
def frontWrites (s : WatchState) (node : NodeContext) : List (LbFrontKey × DesiredFront) :=
  s.services.entries.flatMap fun e => s.serviceWrites node e.2 (s.slicesOf e.1)

theorem lookup_addFronts (s : WatchState) (node : NodeContext) (svc : RawService)
    (slices : Table String RawEndpointSlice) (fronts : Table LbFrontKey DesiredFront) (key : LbFrontKey) :
    (s.addFronts node svc slices fronts).lookup key =
      (Table.lastValue (s.serviceWrites node svc slices) key).or (fronts.lookup key) := by
  have hone : ∀ frontIp, (reconcileService (serviceView svc slices frontIp) (s.endpointSlices node slices)
      node).fronts.lookup key = Table.lastValue (s.portWrites node svc slices frontIp) key := by
    intro frontIp
    have hfold : (reconcileService (serviceView svc slices frontIp) (s.endpointSlices node slices) node).fronts =
        (s.portWrites node svc slices frontIp).foldl (fun fronts e => fronts.insert e.1 e.2) ∅ := by
      rw [portWrites, List.foldl_map]
      rfl
    rw [hfold, Table.lookup_foldl_insert]
    cases Table.lastValue (s.portWrites node svc slices frontIp) key <;> rfl
  unfold addFronts serviceWrites
  generalize s.frontIps.filter (fun ip => svc.frontsFamily (.of ip)) = frontIps
  induction frontIps generalizing fronts with
  | nil => rfl
  | cons frontIp frontIps ih =>
    rw [List.foldl_cons, ih, Table.lookup_union, hone, List.flatMap_cons, Table.lastValue_append, Option.or_assoc]

section
variable (s : WatchState) (node : NodeContext)

/-- What holds of every step of the fold over the Services holds of the fold. -/
theorem desired_induction {P : List (Sigma fun _ : ServiceKey => RawService) → DesiredEntries → Prop}
    (hinit : P [] { frontsKnown := s.fullyListed
                    podTargetsKnown := s.fullyListed && (s.ownNodeAddrs node.nodeIp).isSome
                    nodeAllow := s.nodeAllow })
    (hstep : ∀ before e d, P before d → P (before ++ [e]) (s.addService node d e.1 e.2)) :
    P s.services.entries (s.desired node) := by
  unfold desired
  induction s.services.entries using List.reverseRecOn with
  | nil => exact hinit
  | append_singleton before e ih =>
    rw [List.foldl_append]
    exact hstep before e _ ih

@[simp] theorem desired_frontsKnown : (s.desired node).frontsKnown = s.fullyListed :=
  s.desired_induction node (P := fun _ d => d.frontsKnown = s.fullyListed) rfl fun _ _ _ h => h

@[simp] theorem desired_podTargetsKnown :
    (s.desired node).podTargetsKnown = (s.fullyListed && (s.ownNodeAddrs node.nodeIp).isSome) :=
  s.desired_induction node
    (P := fun _ d => d.podTargetsKnown = (s.fullyListed && (s.ownNodeAddrs node.nodeIp).isSome)) rfl fun _ _ _ h => h

@[simp] theorem desired_nodeAllow : (s.desired node).nodeAllow = s.nodeAllow :=
  s.desired_induction node (P := fun _ d => d.nodeAllow = s.nodeAllow) rfl fun _ _ _ h => h

/-- **The peers.** -/
theorem mem_nodeAllow {x : Bytes 16} : x ∈ s.nodeAllow ↔
    ∃ n addrs ip, s.nodeIps.lookup n = some addrs ∧ ip ∈ addrs.underlay ∧ tunnelRemoteV6 ip = x := by
  simp only [nodeAllow, List.mem_toFinset, List.mem_map, List.mem_flatMap, Table.mem_values]
  constructor
  · rintro ⟨ip, ⟨addrs, ⟨n, hn⟩, hip⟩, hx⟩
    exact ⟨n, addrs, ip, hn, hip, hx⟩
  · rintro ⟨n, addrs, ip, hn, hip, hx⟩
    exact ⟨ip, ⟨addrs, ⟨n, hn⟩, hip⟩, hx⟩

/-- **The pods of the node.** -/
theorem mem_podTargets {x : Bytes 16} : x ∈ (s.desired node).podTargets ↔
    ∃ key svc, s.services.lookup key = some svc ∧
      x ∈ podTargetsForNode (s.endpointSlices node (s.slicesOf key)) node := by
  have hfold : x ∈ (s.desired node).podTargets ↔
      ∃ e ∈ s.services.entries, x ∈ podTargetsForNode (s.endpointSlices node (s.slicesOf e.1)) node := by
    refine s.desired_induction node (P := fun l d => x ∈ d.podTargets ↔
      ∃ e ∈ l, x ∈ podTargetsForNode (s.endpointSlices node (s.slicesOf e.1)) node) (by simp) ?_
    intro before e d h
    show x ∈ d.podTargets ∪ podTargetsForNode (s.endpointSlices node (s.slicesOf e.1)) node ↔ _
    rw [Finset.mem_union, h]
    simp only [List.mem_append, List.mem_singleton]
    constructor
    · rintro (⟨e', he', hx⟩ | hx)
      · exact ⟨e', Or.inl he', hx⟩
      · exact ⟨e, Or.inr rfl, hx⟩
    · rintro ⟨e', he' | rfl, hx⟩
      · exact Or.inl ⟨e', he', hx⟩
      · exact Or.inr hx
  rw [hfold]
  constructor
  · rintro ⟨⟨key, svc⟩, he, hx⟩
    exact ⟨key, svc, AList.mem_lookup_iff.mpr he, hx⟩
  · rintro ⟨key, svc, hsvc, hx⟩
    exact ⟨⟨key, svc⟩, AList.mem_lookup_iff.mp hsvc, hx⟩

/-- **The backends.** An address is known by the first known uid among its endpoints. -/
theorem lookup_clusterBackends (x : Bytes 16) :
    (s.desired node).clusterBackends.lookup x = firstUid (uidsOf x s.backendList) := by
  refine s.desired_induction node (P := fun l d => d.clusterBackends.lookup x = firstUid (uidsOf x
    (l.flatMap fun e => (s.trackedEndpoints (s.slicesOf e.1)).map fun f => (wireIpV6 f.1, f.2)))) rfl ?_
  intro before e d h
  show ((clusterBackends (s.trackedEndpoints (s.slicesOf e.1))).entries.foldl
    (fun backends e => noteBackend backends e.1 e.2) d.clusterBackends).lookup x = _
  have hentries : ∀ t t' : Table (Bytes 16) (Option String), t'.entries.foldl
      (fun backends e => noteBackend backends e.1 e.2) t =
      (t'.entries.map fun e => (e.1, e.2)).foldl (fun backends e => noteBackend backends e.1 e.2) t := by
    intro t t'
    rw [List.foldl_map]
  rw [hentries, lookup_foldl_noteBackend, uidsOf_entries, lookup_clusterBackends_list, h, List.flatMap_append,
    uidsOf_append, List.flatMap_singleton]
  generalize uidsOf x (before.flatMap _) = seen
  generalize uidsOf x (List.map _ _) = more
  -- merging the two maps merges the two lists
  rw [← firstUid_append]
  rcases hmore : firstUid more with _ | u
  · have hnil : more = [] := by
      unfold firstUid at hmore
      split at hmore
      · assumption
      · cases hmore
    rw [hnil]
    rfl
  · unfold firstUid at hmore ⊢
    split at hmore
    · cases hmore
    · rename_i hne
      obtain rfl := Option.some_inj.mp hmore
      simp only [Option.toList_some, List.append_eq_nil_iff, hne, List.cons_ne_nil, and_false, if_false,
        List.findSome?_append]
      congr 2
      cases more.findSome? id <;> rfl

/-- **The fronts.** The last write to a key stays. -/
theorem lookup_fronts (key : LbFrontKey) : (s.desired node).fronts.lookup key =
    if s.fullyListed then Table.lastValue (s.frontWrites node) key else none := by
  refine s.desired_induction node (P := fun l d => d.fronts.lookup key = if s.fullyListed then
    Table.lastValue (l.flatMap fun e => s.serviceWrites node e.2 (s.slicesOf e.1)) key else none) ?_ ?_
  · cases s.fullyListed <;> rfl
  · intro before e d h
    show (if s.fullyListed then s.addFronts node e.2 (s.slicesOf e.1) d.fronts else d.fronts).lookup key = _
    cases hlisted : s.fullyListed with
    | false =>
      rw [hlisted] at h
      exact h
    | true =>
      rw [hlisted] at h
      simp only [if_true] at h ⊢
      rw [lookup_addFronts, h, List.flatMap_append, Table.lastValue_append, List.flatMap_singleton]

end

end WatchState

end Beep
