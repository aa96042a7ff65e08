import Beep.Controller.Correctness.FrontOrder
import Beep.Controller.Correctness.OwnedFronts

/-!
# `Controller.Correctness.OwnPorts` — which slots carry their own port

The number a Service port resolves to is read off all slices of the Service at once, and the endpoints of a front are
those of the slices that list that number. The endpoints that should make the slots are those of the slices that
expose the port, each with the number its own slice gives (`Selects`). So it comes down to which slices give the port
which number, which of them list the number under another name, and which addresses they list (`OneNumber`,
`own_ports_iff`). Where the policy goes by readiness alone that is: no slice with the number has a ready pod unless it
gives the port that number, a pod of a slice with another number is also in one with this number, and no two of the
places that give the number list one address (`oneNumber_iff_ready`).
-/

namespace Beep

open StableSort

/-- The number a slice gives a Service port. -/
def RawEndpointSlice.number (slice : RawEndpointSlice) (port : RawServicePort) : Option UInt16 :=
  WatchState.resolveTargetPort port slice.ports

/-- What a list offers, by its positions. -/
theorem mem_filterMap_at {α β : Type*} {l : List α} {g : α → Option β} {b : β} :
    b ∈ l.filterMap g ↔ ∃ i : Nat, (l[i]?).bind g = some b := by
  simp only [List.mem_filterMap, Option.bind_eq_some_iff]
  constructor
  · rintro ⟨a, ha, hb⟩
    obtain ⟨i, ha⟩ := List.mem_iff_getElem?.mp ha
    exact ⟨i, a, ha, hb⟩
  · rintro ⟨i, a, ha, hb⟩
    exact ⟨a, List.mem_iff_getElem?.mpr ⟨i, ha⟩, hb⟩

/-- It is all different exactly if no two positions offer the same. -/
theorem nodup_filterMap_at {α β : Type*} {l : List α} {g : α → Option β} :
    (l.filterMap g).Nodup ↔ ∀ (i i' : Nat) b, (l[i]?).bind g = some b → (l[i']?).bind g = some b → i = i' := by
  rw [List.Nodup, List.pairwise_filterMap, List.pairwise_iff_getElem]
  constructor
  · intro h i i' b hi hi'
    obtain ⟨a, ha, hb⟩ := Option.bind_eq_some_iff.mp hi
    obtain ⟨a', ha', hb'⟩ := Option.bind_eq_some_iff.mp hi'
    obtain ⟨hlt, rfl⟩ := List.getElem?_eq_some_iff.mp ha
    obtain ⟨hlt', rfl⟩ := List.getElem?_eq_some_iff.mp ha'
    rcases lt_trichotomy i i' with hord | heq | hord
    · exact absurd rfl (h i i' hlt hlt' hord b hb b hb')
    · exact heq
    · exact absurd rfl (h i' i hlt' hlt hord b hb' b hb)
  · rintro h i i' hlt hlt' hord b hb _ hb' rfl
    have hsame : i = i' := h i i' b (by rwa [List.getElem?_eq_getElem hlt]) (by rwa [List.getElem?_eq_getElem hlt'])
    omega

namespace WatchState

/-- The endpoints one slice offers a request, if it exposes the port, each with the number the slice gives it. -/
def sliceOffers (s : WatchState) (node : NodeContext) (r : FrontRequest) (slice : RawEndpointSlice) :
    List (Endpoint × UInt16) :=
  match slice.number r.port with
  | some t => ((slice.endpoints.filterMap (s.resolveEndpoint node slice)).filter fun e =>
      e.podIp.isIpv4 == r.frontIp.isIpv4).map fun e => (e, t)
  | none => []

/-- The endpoints of the slices that expose the port of a request, in the family of its address. -/
def offers (s : WatchState) (node : NodeContext) (r : FrontRequest) : List (Endpoint × UInt16) :=
  r.slices.values.flatMap (s.sliceOffers node r)

/-- The policy selects the endpoint among them, and its slice gives the port the number. -/
def Selects (s : WatchState) (node : NodeContext) (r : FrontRequest) (e : Endpoint) (t : UInt16) : Prop :=
  (e, t) ∈ s.offers node r ∧
    e ∈ chosenEndpoints r.svc.policy ((s.offers node r).map Prod.fst) node.nodeIp

/-- The slice at a place, a position in the slice of a name, lists the endpoint, in the family of the front. -/
structure Lists (s : WatchState) (node : NodeContext) (r : FrontRequest) (place : String × Nat)
    (slice : RawEndpointSlice) (e : Endpoint) : Prop where
  held : r.slices.lookup place.1 = some slice
  endpoint : (slice.endpoints[place.2]?).bind (s.resolveEndpoint node slice) = some e
  family : e.podIp.isIpv4 = r.frontIp.isIpv4

section
variable [Host] {s : WatchState} {node : NodeContext} {r : FrontRequest} {t : UInt16}

/-- The slots of the front are the selected endpoints, each address once and with the number of its own slice. -/
def OwnPorts (s : WatchState) (node : NodeContext) (r : FrontRequest) : Prop :=
  ∃ front, (s.desired node).fronts.lookup r.key = some front ∧
    (front.endpoints.map fun slot => slot.backend.podIp).Nodup ∧
    (∀ e t, s.Selects node r e t → ∃ slot ∈ front.endpoints, slot.backend.podIp = wireIpV6 e.podIp) ∧
    ∀ slot ∈ front.endpoints, ∃ e t, s.Selects node r e t ∧ slot.backend.podIp = wireIpV6 e.podIp ∧
      slot.targetPort = wirePort t

/-- Among the slices that have a property, the one at a place lists the address, by an endpoint that the policy can use
    and to which it prefers no other. -/
def ListsBest (s : WatchState) (node : NodeContext) (r : FrontRequest) (has : RawEndpointSlice → Prop)
    (place : String × Nat) (slice : RawEndpointSlice) (x : Bytes 16) : Prop :=
  has slice ∧ ∃ e, s.Lists node r place slice e ∧ wireIpV6 e.podIp = x ∧ 0 < e.tier r.svc.policy node.nodeIp ∧
    ∀ place' slice' e', has slice' → s.Lists node r place' slice' e' →
      e'.tier r.svc.policy node.nodeIp ≤ e.tier r.svc.policy node.nodeIp

/-- Among the slices that expose the port, one that gives it the number lists the address. -/
def Gives (s : WatchState) (node : NodeContext) (r : FrontRequest) (x : Bytes 16) (u : UInt16) : Prop :=
  ∃ place slice, s.ListsBest node r (fun slice => (slice.number r.port).isSome = true) place slice x ∧
    slice.number r.port = some u

/-- Among the slices that list the number, under whatever name, the one at the place lists the address. -/
def Numbers (s : WatchState) (node : NodeContext) (r : FrontRequest) (t : UInt16) (x : Bytes 16)
    (place : String × Nat) : Prop :=
  ∃ slice, s.ListsBest node r (fun slice => t ∈ slice.ports.map (·.port)) place slice x

/-- The slices of a request make do with the number that another request, or the same, resolves to. -/
structure OneNumber (s : WatchState) (node : NodeContext) (r r' : FrontRequest) (t : UInt16) : Prop where
  /-- an address in a slice that gives the port another number is also in one that gives it this number -/
  given : ∀ x u, s.Gives node r x u → s.Gives node r x t
  /-- an address in a slice that gives the port this number is at one place of the slices that list the number -/
  listed : ∀ x, s.Gives node r x t → ∃! place, s.Numbers node r' t x place
  /-- and no slice that lists the number has another address -/
  only : ∀ x place, s.Numbers node r' t x place → s.Gives node r x t

/-- The slots are those of the chosen endpoints. -/
theorem mem_requested_endpoints {slot : FrontEndpoint} : slot ∈ (s.requested node r t).endpoints ↔
    ∃ e ∈ s.chosen node r t, e.toSlot t node.nodeIp = slot := by
  rw [requested_endpoints, List.mem_map]
  simp only [(perm_sortByRank _ (s.chosen node r t)).mem_iff]

/-- And so are their addresses, in some order. -/
theorem podIps_perm : ((s.requested node r t).endpoints.map fun slot => slot.backend.podIp).Perm
    ((s.chosen node r t).map fun e => wireIpV6 e.podIp) := by
  rw [requested_endpoints, List.map_map]
  exact (perm_sortByRank _ _).map _

omit [Host] in
/-- An endpoint has the ports of its slice. -/
theorem resolved_ports {slice : RawEndpointSlice} {raw : RawEndpoint} {e : Endpoint}
    (h : s.resolveEndpoint node slice raw = some e) : e.ports = slice.ports.map (·.port) := by
  obtain ⟨n, addrs, pick, -, -, -, rfl⟩ := resolveEndpoint_eq_some.mp h
  rfl

omit [Host] in
/-- The number that a slice gives the port is one it lists. -/
theorem exposed_number {slice : RawEndpointSlice} {port : RawServicePort} (h : slice.number port = some t) :
    t ∈ slice.ports.map (·.port) := by
  unfold RawEndpointSlice.number resolveTargetPort at h
  split at h
  · obtain ⟨sp, hfind, ht⟩ := Option.map_eq_some_iff.mp h
    exact List.mem_map.mpr ⟨sp, List.mem_of_find?_eq_some hfind, ht⟩
  · split at h
    · obtain ⟨sp, hhead, ht⟩ := Option.map_eq_some_iff.mp h
      exact List.mem_map.mpr ⟨sp, List.mem_of_head? hhead, ht⟩
    · cases h

/-! ## What the slices list -/

omit [Host] in
/-- A candidate is listed by a slice that exposes the number. -/
theorem mem_candidates {e : Endpoint} : e ∈ s.candidates node r t ↔
    ∃ place slice, t ∈ slice.ports.map (·.port) ∧ s.Lists node r place slice e := by
  simp only [candidates, matchingEndpoints, List.mem_filter, mem_endpointSlices, Bool.and_eq_true, beq_iff_eq,
    List.contains_iff_mem]
  constructor
  · rintro ⟨⟨name, slice, raw, hname, hraw, hres⟩, hport, hfamily⟩
    obtain ⟨i, hi⟩ := List.mem_iff_getElem?.mp hraw
    rw [resolved_ports hres] at hport
    exact ⟨(name, i), slice, hport, hname, Option.bind_eq_some_iff.mpr ⟨raw, hi, hres⟩, hfamily⟩
  · rintro ⟨place, slice, hport, hlists⟩
    obtain ⟨raw, hi, hres⟩ := Option.bind_eq_some_iff.mp hlists.endpoint
    rw [resolved_ports hres]
    exact ⟨⟨place.1, slice, raw, hlists.held, List.mem_iff_getElem?.mpr ⟨place.2, hi⟩, hres⟩, hport, hlists.family⟩

omit [Host] in
/-- An offer is listed by a slice that gives the port a number. -/
theorem mem_offers {e : Endpoint} {u : UInt16} : (e, u) ∈ s.offers node r ↔
    ∃ place slice, slice.number r.port = some u ∧ s.Lists node r place slice e := by
  unfold offers
  simp only [List.mem_flatMap, Table.mem_values]
  constructor
  · rintro ⟨slice, ⟨name, hname⟩, ho⟩
    unfold sliceOffers at ho
    split at ho
    · rename_i u' hu'
      obtain ⟨e', he', hpair⟩ := List.mem_map.mp ho
      obtain ⟨rfl, rfl⟩ := Prod.mk.inj hpair
      obtain ⟨hmem, hfamily⟩ := List.mem_filter.mp he'
      obtain ⟨i, hi⟩ := mem_filterMap_at.mp hmem
      exact ⟨(name, i), slice, hu', hname, hi, beq_iff_eq.mp hfamily⟩
    · cases ho
  · rintro ⟨place, slice, hu, hlists⟩
    refine ⟨slice, ⟨place.1, hlists.held⟩, ?_⟩
    unfold sliceOffers
    rw [hu]
    refine List.mem_map.mpr ⟨e, List.mem_filter.mpr ⟨mem_filterMap_at.mpr ⟨place.2, hlists.endpoint⟩, ?_⟩, rfl⟩
    exact beq_iff_eq.mpr hlists.family

/-- What a policy chooses from the endpoints that some slices list. -/
theorem listsBest_iff {has : RawEndpointSlice → Prop} {l : List Endpoint}
    (hl : ∀ e, e ∈ l ↔ ∃ place slice, has slice ∧ s.Lists node r place slice e) {place : String × Nat}
    {slice : RawEndpointSlice} {x : Bytes 16} : s.ListsBest node r has place slice x ↔
      has slice ∧ ∃ e ∈ chosenEndpoints r.svc.policy l node.nodeIp, s.Lists node r place slice e ∧
        wireIpV6 e.podIp = x := by
  refine and_congr_right fun hhas => exists_congr fun e => ?_
  rw [mem_chosenEndpoints_iff]
  constructor
  · rintro ⟨hlists, hx, hpos, hbest⟩
    refine ⟨⟨(hl e).mpr ⟨place, slice, hhas, hlists⟩, hpos, fun e' he' => ?_⟩, hlists, hx⟩
    obtain ⟨place', slice', hhas', hlists'⟩ := (hl e').mp he'
    exact hbest place' slice' e' hhas' hlists'
  · rintro ⟨⟨-, hpos, hbest⟩, hlists, hx⟩
    exact ⟨hlists, hx, hpos, fun place' slice' e' hhas' hlists' =>
      hbest e' ((hl e').mpr ⟨place', slice', hhas', hlists'⟩)⟩

omit [Host] in
/-- What is offered under any number. -/
theorem mem_offered {e : Endpoint} : e ∈ (s.offers node r).map Prod.fst ↔
    ∃ place slice, (slice.number r.port).isSome = true ∧ s.Lists node r place slice e := by
  rw [List.mem_map]
  constructor
  · rintro ⟨⟨e, u⟩, ho, rfl⟩
    obtain ⟨place, slice, hu, hlists⟩ := mem_offers.mp ho
    exact ⟨place, slice, hu ▸ rfl, hlists⟩
  · rintro ⟨place, slice, hu, hlists⟩
    obtain ⟨u, hu⟩ := Option.isSome_iff_exists.mp hu
    exact ⟨(e, u), mem_offers.mpr ⟨place, slice, hu, hlists⟩, rfl⟩

/-- The addresses that are selected with a number are those that slices give it. -/
theorem gives_iff {x : Bytes 16} {u : UInt16} :
    s.Gives node r x u ↔ ∃ e, s.Selects node r e u ∧ wireIpV6 e.podIp = x := by
  unfold Gives
  simp only [listsBest_iff fun e => mem_offered]
  constructor
  · rintro ⟨place, slice, ⟨-, e, he, hlists, hx⟩, hu⟩
    exact ⟨e, ⟨mem_offers.mpr ⟨place, slice, hu, hlists⟩, he⟩, hx⟩
  · rintro ⟨e, ⟨ho, he⟩, hx⟩
    obtain ⟨place, slice, hu, hlists⟩ := mem_offers.mp ho
    exact ⟨place, slice, ⟨hu ▸ rfl, e, he, hlists, hx⟩, hu⟩

/-- The addresses that are chosen for a number are those of the slices that list it. -/
theorem exists_numbers_iff {x : Bytes 16} :
    (∃ place, s.Numbers node r t x place) ↔ ∃ e ∈ s.chosen node r t, wireIpV6 e.podIp = x := by
  unfold Numbers
  simp only [listsBest_iff fun e => mem_candidates]
  constructor
  · rintro ⟨place, slice, -, e, he, -, hx⟩
    exact ⟨e, he, hx⟩
  · rintro ⟨e, he, hx⟩
    obtain ⟨place, slice, hport, hlists⟩ := mem_candidates.mp (mem_chosenEndpoints he).1
    exact ⟨place, slice, hport, e, he, hlists, hx⟩

/-- An address is chosen once exactly if it is listed at one place. -/
theorem nodup_chosen_iff : ((s.chosen node r t).map fun e => wireIpV6 e.podIp).Nodup ↔
    ∀ x place place', s.Numbers node r t x place → s.Numbers node r t x place' → place = place' := by
  obtain ⟨k, hchosen, -⟩ := chosenEndpoints_eq_tier r.svc.policy (s.candidates node r t) node.nodeIp
  let keep (e : Endpoint) : Bool := (e.ports.contains t && e.podIp.isIpv4 == r.frontIp.isIpv4) &&
    e.tier r.svc.policy node.nodeIp == k
  let offer (slice : RawEndpointSlice) (raw : RawEndpoint) : Option (Bytes 16) :=
    ((s.resolveEndpoint node slice raw).filter keep).map fun e => wireIpV6 e.podIp
  have hlist : (s.chosen node r t).map (fun e => wireIpV6 e.podIp) =
      r.slices.values.flatMap fun slice => slice.endpoints.filterMap (offer slice) := by
    unfold chosen
    rw [hchosen, candidates, matchingEndpoints, flatten_endpointSlices, List.filter_filter, List.filter_flatMap,
      List.map_flatMap]
    refine List.flatMap_congr fun slice _ => ?_
    rw [List.filter_filterMap, List.map_filterMap]
    simp only [offer, keep, Bool.and_comm]
  have hplace : ∀ x place, s.Numbers node r t x place ↔ ∃ slice, r.slices.lookup place.1 = some slice ∧
      (slice.endpoints[place.2]?).bind (offer slice) = some x := by
    intro x place
    unfold Numbers
    simp only [listsBest_iff fun e => mem_candidates, hchosen, List.mem_filter]
    constructor
    · rintro ⟨slice, hport, e, ⟨-, htier⟩, hlists, hx⟩
      obtain ⟨raw, hi, hres⟩ := Option.bind_eq_some_iff.mp hlists.endpoint
      have hkeep : keep e = true := by
        simp only [keep, resolved_ports hres, List.contains_iff_mem.mpr hport, hlists.family, htier, BEq.rfl,
          Bool.and_self]
      refine ⟨slice, hlists.held, Option.bind_eq_some_iff.mpr ⟨raw, hi, ?_⟩⟩
      simp only [offer, hres, Option.filter_some, hkeep, if_true, Option.map_some, hx]
    · rintro ⟨slice, hname, hoffer⟩
      obtain ⟨raw, hi, hraw⟩ := Option.bind_eq_some_iff.mp hoffer
      obtain ⟨e, hfilter, hx⟩ := Option.map_eq_some_iff.mp hraw
      obtain ⟨hres, hkeep⟩ := Option.filter_eq_some_iff.mp hfilter
      simp only [keep, Bool.and_eq_true, beq_iff_eq, List.contains_iff_mem, resolved_ports hres] at hkeep
      have hlists : s.Lists node r place slice e := ⟨hname, Option.bind_eq_some_iff.mpr ⟨raw, hi, hres⟩, hkeep.1.2⟩
      exact ⟨slice, hkeep.1.1, e, ⟨mem_candidates.mpr ⟨place, slice, hkeep.1.1, hlists⟩, beq_iff_eq.mpr hkeep.2⟩,
        hlists, hx⟩
  rw [hlist, Table.nodup_flatMap_values]
  constructor
  · rintro ⟨hslice, hacross⟩ x place place' h h'
    obtain ⟨slice, hname, hi⟩ := (hplace x place).mp h
    obtain ⟨slice', hname', hi'⟩ := (hplace x place').mp h'
    have hsame : place.1 = place'.1 :=
      hacross _ _ _ _ x hname hname' (mem_filterMap_at.mpr ⟨_, hi⟩) (mem_filterMap_at.mpr ⟨_, hi'⟩)
    rw [hsame, hname'] at hname
    obtain rfl := Option.some_inj.mp hname
    exact Prod.ext hsame (nodup_filterMap_at.mp (hslice _ _ hname') _ _ x hi hi')
  · refine fun h => ⟨fun name slice hname => nodup_filterMap_at.mpr fun i i' x hi hi' => ?_, ?_⟩
    · exact congrArg Prod.snd (h x (name, i) (name, i') ((hplace _ _).mpr ⟨slice, hname, hi⟩)
        ((hplace _ _).mpr ⟨slice, hname, hi'⟩))
    · intro name name' slice slice' x hname hname' hx hx'
      obtain ⟨i, hi⟩ := mem_filterMap_at.mp hx
      obtain ⟨i', hi'⟩ := mem_filterMap_at.mp hx'
      exact congrArg Prod.fst (h x (name, i) (name', i') ((hplace _ _).mpr ⟨slice, hname, hi⟩)
        ((hplace _ _).mpr ⟨slice', hname', hi'⟩))

/-! ## When every slot carries its own port -/

/-- The slots of a front carry their own ports exactly if the one number that decides the key does. -/
theorem ownPorts_iff_chosen (hlisted : s.fullyListed = true) (r : FrontRequest) : s.OwnPorts node r ↔
    ∃ r' t, s.Decides r.key r' ∧ r'.targetPort = some t ∧
      ((s.chosen node r' t).map fun e => wireIpV6 e.podIp).Nodup ∧
      (∀ e u, s.Selects node r e u → ∃ e' ∈ s.chosen node r' t, wireIpV6 e'.podIp = wireIpV6 e.podIp) ∧
      ∀ e' ∈ s.chosen node r' t, ∃ e, s.Selects node r e t ∧ wireIpV6 e.podIp = wireIpV6 e'.podIp := by
  have hlookup := lookup_fronts_owners hlisted node r.key
  constructor
  · rintro ⟨front, hfront, honce, hall, hown⟩
    rw [hlookup] at hfront
    obtain ⟨r', hr', hmap⟩ := Option.bind_eq_some_iff.mp hfront
    obtain ⟨t, ht, rfl⟩ := Option.map_eq_some_iff.mp hmap
    refine ⟨r', t, getLast?_owners.mp hr', ht, podIps_perm.nodup_iff.mp honce, fun e u he => ?_, fun e' he' => ?_⟩
    · obtain ⟨slot, hslot, hpod⟩ := hall e u he
      obtain ⟨e', he', rfl⟩ := mem_requested_endpoints.mp hslot
      exact ⟨e', he', hpod⟩
    · obtain ⟨e, u, he, hpod, hport⟩ := hown _ (mem_requested_endpoints.mpr ⟨e', he', rfl⟩)
      obtain rfl : t = u := wirePort_inj.mp hport
      exact ⟨e, he, hpod.symm⟩
  · rintro ⟨r', t, hr', ht, honce, hall, hown⟩
    refine ⟨s.requested node r' t, ?_, podIps_perm.nodup_iff.mpr honce, fun e u he => ?_, fun slot hslot => ?_⟩
    · rw [hlookup, getLast?_owners.mpr hr', Option.bind_some, ht]
      rfl
    · obtain ⟨e', he', hpod⟩ := hall e u he
      exact ⟨_, mem_requested_endpoints.mpr ⟨e', he', rfl⟩, hpod⟩
    · obtain ⟨e', he', rfl⟩ := mem_requested_endpoints.mp hslot
      obtain ⟨e, he, hpod⟩ := hown e' he'
      exact ⟨e, t, he, hpod.symm, rfl⟩

/-- **When every slot carries its own port**: the request that decides the key resolves to a number with which the
    slices make do. -/
theorem own_ports_iff (hlisted : s.fullyListed = true) (r : FrontRequest) : s.OwnPorts node r ↔
    ∃ r' t, s.Decides r.key r' ∧ r'.targetPort = some t ∧ s.OneNumber node r r' t := by
  rw [ownPorts_iff_chosen hlisted]
  refine exists_congr fun r' => exists_congr fun t => and_congr_right fun _ => and_congr_right fun _ => ?_
  rw [nodup_chosen_iff]
  constructor
  · rintro ⟨honce, hall, hown⟩
    have honly : ∀ x place, s.Numbers node r' t x place → s.Gives node r x t := by
      intro x place hplace
      obtain ⟨e', he', rfl⟩ := exists_numbers_iff.mp ⟨place, hplace⟩
      exact gives_iff.mpr (hown e' he')
    have hlists : ∀ x u, s.Gives node r x u → ∃ place, s.Numbers node r' t x place := by
      intro x u hx
      obtain ⟨e, he, rfl⟩ := gives_iff.mp hx
      exact exists_numbers_iff.mpr (hall e u he)
    refine ⟨fun x u hx => ?_, fun x hx => ?_, honly⟩
    · obtain ⟨place, hplace⟩ := hlists x u hx
      exact honly x place hplace
    · obtain ⟨place, hplace⟩ := hlists x t hx
      exact ⟨place, hplace, fun place' hplace' => honce x place' place hplace' hplace⟩
  · intro h
    refine ⟨fun x place place' hplace hplace' => ?_, fun e u he => ?_, fun e' he' => ?_⟩
    · exact (h.listed x (h.only x place hplace)).unique hplace hplace'
    · obtain ⟨place, hplace, -⟩ := h.listed _ (h.given _ u (gives_iff.mpr ⟨e, he, rfl⟩))
      exact exists_numbers_iff.mp ⟨place, hplace⟩
    · obtain ⟨place, hplace⟩ := exists_numbers_iff.mpr ⟨e', he', rfl⟩
      exact gives_iff.mp (h.only _ place hplace)

/-! ## Where readiness decides -/

/-- The slice at a place lists the address as one that takes new flows. -/
def ListsReady (s : WatchState) (node : NodeContext) (r : FrontRequest) (place : String × Nat)
    (slice : RawEndpointSlice) (x : Bytes 16) : Prop :=
  ∃ e, s.Lists node r place slice e ∧ wireIpV6 e.podIp = x ∧ e.takesNewFlows = true

/-- Without `externalTrafficPolicy: Local` the tiers are those of the endpoints alone. -/
theorem listsBest_ready (hpolicy : r.svc.policy ≠ .onlyLocal) {has : RawEndpointSlice → Prop} {place : String × Nat}
    {slice : RawEndpointSlice} {x : Bytes 16} :
    s.ListsBest node r has place slice x ↔ has slice ∧ s.ListsReady node r place slice x := by
  refine and_congr_right fun _ => exists_congr fun e => and_congr_right fun _ => and_congr_right fun _ => ?_
  simp only [Endpoint.tier_of_ne hpolicy]
  cases e.takesNewFlows with
  | false => simp
  | true =>
    refine iff_of_true ⟨Nat.one_pos, fun place' slice' e' _ _ => ?_⟩ rfl
    split <;> simp

/-- **What that takes**, where the Service of the port decides its own key and its policy goes by readiness: no slice
    with the number has a ready pod unless it gives the port that number, a ready pod of a slice with another number is
    also in one with this number, and the slices that give it list it once. -/
theorem oneNumber_iff_ready (hpolicy : r.svc.policy ≠ .onlyLocal) : s.OneNumber node r r t ↔
    (∀ place slice x, s.ListsReady node r place slice x → t ∈ slice.ports.map (·.port) →
      slice.number r.port = some t) ∧
    (∀ place slice x u, s.ListsReady node r place slice x → slice.number r.port = some u →
      ∃ place' slice', s.ListsReady node r place' slice' x ∧ slice'.number r.port = some t) ∧
    ∀ place place' slice slice' x, s.ListsReady node r place slice x → slice.number r.port = some t →
      s.ListsReady node r place' slice' x → slice'.number r.port = some t → place = place' := by
  have hgives : ∀ x u, s.Gives node r x u ↔
      ∃ place slice, s.ListsReady node r place slice x ∧ slice.number r.port = some u := by
    intro x u
    unfold Gives
    simp only [listsBest_ready hpolicy]
    refine exists_congr fun place => exists_congr fun slice => ⟨fun ⟨hready, hu⟩ => ⟨hready.2, hu⟩, ?_⟩
    rintro ⟨hready, hu⟩
    exact ⟨⟨hu ▸ rfl, hready⟩, hu⟩
  have hnumbers : ∀ x place, s.Numbers node r t x place ↔
      ∃ slice, t ∈ slice.ports.map (·.port) ∧ s.ListsReady node r place slice x := by
    intro x place
    unfold Numbers
    simp only [listsBest_ready hpolicy]
  constructor
  · intro h
    refine ⟨fun place slice x hready hport => ?_, fun place slice x u hready hu => ?_, ?_⟩
    · -- the slice that gives the number lists the address too, so it is the same place
      have hplace := (hnumbers x place).mpr ⟨slice, hport, hready⟩
      obtain ⟨place', slice', hready', ht⟩ := (hgives x t).mp (h.only x place hplace)
      have hsame := (h.listed x ((hgives x t).mpr ⟨place', slice', hready', ht⟩)).unique hplace
        ((hnumbers x place').mpr ⟨slice', exposed_number ht, hready'⟩)
      subst hsame
      obtain ⟨e, hlists, -⟩ := hready
      obtain ⟨e', hlists', -⟩ := hready'
      obtain rfl := Option.some_inj.mp (hlists.held.symm.trans hlists'.held)
      exact ht
    · exact (hgives x t).mp (h.given x u ((hgives x u).mpr ⟨place, slice, hready, hu⟩))
    · intro place place' slice slice' x hready ht hready' ht'
      exact (h.listed x ((hgives x t).mpr ⟨place, slice, hready, ht⟩)).unique
        ((hnumbers x place).mpr ⟨slice, exposed_number ht, hready⟩)
        ((hnumbers x place').mpr ⟨slice', exposed_number ht', hready'⟩)
  · rintro ⟨hgive, hgiven, honce⟩
    refine ⟨fun x u hx => ?_, fun x hx => ?_, fun x place hplace => ?_⟩
    · obtain ⟨place, slice, hready, hu⟩ := (hgives x u).mp hx
      exact (hgives x t).mpr (hgiven place slice x u hready hu)
    · obtain ⟨place, slice, hready, ht⟩ := (hgives x t).mp hx
      refine ⟨place, (hnumbers x place).mpr ⟨slice, exposed_number ht, hready⟩, fun place' hplace' => ?_⟩
      obtain ⟨slice', hport, hready'⟩ := (hnumbers x place').mp hplace'
      exact honce place' place slice' slice x hready' (hgive place' slice' x hready' hport) hready ht
    · obtain ⟨slice, hport, hready⟩ := (hnumbers x place).mp hplace
      exact (hgives x t).mpr ⟨place, slice, hready, hgive place slice x hready hport⟩

/-- Only the slices of the request have a say. -/
theorem ListsBest.congr {has has' : RawEndpointSlice → Prop} {place : String × Nat} {slice : RawEndpointSlice}
    {x : Bytes 16} (h : s.ListsBest node r has place slice x)
    (hsame : ∀ name slice, r.slices.lookup name = some slice → (has slice ↔ has' slice)) :
    s.ListsBest node r has' place slice x := by
  obtain ⟨hhas, e, hlists, hx, hpos, hbest⟩ := h
  refine ⟨(hsame _ _ hlists.held).mp hhas, e, hlists, hx, hpos, fun place' slice' e' hhas' hlists' => ?_⟩
  exact hbest place' slice' e' ((hsame _ _ hlists'.held).mpr hhas') hlists'

/-- **One number.** Every slot carries its own port where every slice gives the port one number or has neither the port
    nor the number, no address is used twice, and the request decides its key. -/
theorem own_ports_of_one_number (hlisted : s.fullyListed = true) (hr : s.Decides r.key r)
    (ht : r.targetPort = some t) (hone : ∀ name slice, r.slices.lookup name = some slice →
      slice.number r.port = some t ∨ (slice.number r.port = none ∧ t ∉ slice.ports.map (·.port)))
    (honce : ((s.chosen node r t).map fun e => wireIpV6 e.podIp).Nodup) : s.OwnPorts node r := by
  have hsame : ∀ name slice, r.slices.lookup name = some slice →
      ((slice.number r.port).isSome = true ↔ t ∈ slice.ports.map (·.port)) := by
    intro name slice hname
    rcases hone name slice hname with hgives | ⟨hnone, hlacks⟩
    · simp only [hgives, Option.isSome_some, exposed_number hgives]
    · simp only [hnone, Option.isSome_none, hlacks, Bool.false_eq_true]
  have hnumber : ∀ place slice e, s.Lists node r place slice e → t ∈ slice.ports.map (·.port) →
      slice.number r.port = some t := by
    intro place slice e hlists hport
    exact (hone _ _ hlists.held).resolve_right fun hnone => hnone.2 hport
  -- the one number is every slice's, so what is chosen by it is what is best of all
  refine (own_ports_iff hlisted r).mpr ⟨r, t, hr, ht, fun x u hx => ?_, fun x hx => ?_, fun x place hplace => ?_⟩
  · obtain ⟨place, slice, hbest, hu⟩ := hx
    obtain ⟨hsome, e, hlists, -⟩ := id hbest
    exact ⟨place, slice, hbest, hnumber place slice e hlists ((hsame _ _ hlists.held).mp hsome)⟩
  · obtain ⟨place, slice, hbest, -⟩ := hx
    exact ⟨place, ⟨slice, hbest.congr hsame⟩, fun place' hplace' =>
      nodup_chosen_iff.mp honce x place' place hplace' ⟨slice, hbest.congr hsame⟩⟩
  · obtain ⟨slice, hbest⟩ := hplace
    obtain ⟨hport, e, hlists, -⟩ := id hbest
    exact ⟨place, slice, hbest.congr fun name slice hname => (hsame name slice hname).symm,
      hnumber place slice e hlists hport⟩

end

end WatchState

/-! ## One pod, and a rollout -/

section
local instance ownPortsHost : Host := littleHost

/-- Its one slice gives its one number. -/
theorem oneWebPod_numbers : (oneWebPod.requests.all fun r => r.targetPort == some 8080 &&
    r.slices.values.all fun slice => slice.number r.port == some 8080) = true := by
  decide

/-- The pod is chosen once. -/
theorem oneWebPod_once : (oneWebPod.requests.all fun r => decide
    ((oneWebPod.chosen soleNode r 8080).map fun e => wireIpV6 e.podIp).Nodup) = true := by
  decide

/-- With one pod its slot carries its own port. -/
theorem own_ports_iff_one_pod : oneWebPod.requests.length = 1 ∧ ∀ r ∈ oneWebPod.requests,
    ∃ r' t, oneWebPod.Decides r.key r' ∧ r'.targetPort = some t ∧ oneWebPod.OneNumber soleNode r r' t := by
  refine ⟨oneWebPod_one, fun r hr => (WatchState.own_ports_iff oneWebPod_listed r).mp ?_⟩
  obtain ⟨ht, hnumbers⟩ := Bool.and_eq_true_iff.mp (List.all_eq_true.mp oneWebPod_numbers r hr)
  refine WatchState.own_ports_of_one_number oneWebPod_listed (oneWebPod_decides hr) (beq_iff_eq.mp ht)
    (fun name slice hslice => Or.inl ?_) (of_decide_eq_true (List.all_eq_true.mp oneWebPod_once r hr))
  exact beq_iff_eq.mp (List.all_eq_true.mp hnumbers slice (Table.mem_values.mpr ⟨name, hslice⟩))

/-- The endpoints of the rollout: the new pod and the old one, each with its number. -/
theorem rolloutState_offers : (rolloutState.offers rolloutNode rolloutRequest).map (fun o => (o.1.podIp, o.2)) =
    [(.v4 0x0a01000a, 9090), (.v4 0x0a010009, 8080)] := by
  decide

/-- Both pods take new flows. -/
theorem rolloutState_ready :
    ((rolloutState.offers rolloutNode rolloutRequest).all fun o => o.1.takesNewFlows) = true := by
  decide

/-- So the Service selects both. -/
theorem rolloutState_selects {ip : IpAddr} {t : UInt16}
    (h : (ip, t) ∈ [((.v4 0x0a01000a : IpAddr), (9090 : UInt16)), (.v4 0x0a010009, 8080)]) :
    ∃ e, e.podIp = ip ∧ rolloutState.Selects rolloutNode rolloutRequest e t := by
  rw [← rolloutState_offers] at h
  obtain ⟨⟨e, u⟩, ho, hpair⟩ := List.mem_map.mp h
  obtain ⟨rfl, rfl⟩ := Prod.mk.inj hpair
  refine ⟨e, rfl, ho, List.mem_filter.mpr ⟨List.mem_map.mpr ⟨(e, u), ho, rfl⟩, ?_⟩⟩
  exact List.all_eq_true.mp rolloutState_ready (e, u) ho

/-- The front has one slot. -/
theorem rolloutState_one_slot : ((rolloutState.desired rolloutNode).fronts.lookup rolloutRequest.key).map
    (fun front => front.endpoints.length) = some 1 := by
  decide +kernel

/-- The pods have two addresses over the wire. -/
theorem wireIpV6_rollout : wireIpV6 (.v4 0x0a01000a) ≠ wireIpV6 (.v4 0x0a010009) := by decide

/-- There is no slot for the other one. -/
theorem rolloutState_not_ownPorts : ¬ rolloutState.OwnPorts rolloutNode rolloutRequest := by
  rintro ⟨front, hfront, -, hall, -⟩
  have hlength := rolloutState_one_slot
  rw [hfront] at hlength
  obtain ⟨slot, hslots⟩ := List.length_eq_one_iff.mp (Option.some_inj.mp hlength)
  obtain ⟨e, hip, he⟩ := rolloutState_selects (List.mem_cons_self)
  obtain ⟨e', hip', he'⟩ := rolloutState_selects (List.mem_cons_of_mem _ List.mem_cons_self)
  -- both pods would need the one slot
  obtain ⟨slot₁, hslot₁, hpod₁⟩ := hall e _ he
  obtain ⟨slot₂, hslot₂, hpod₂⟩ := hall e' _ he'
  rw [hslots, List.mem_singleton] at hslot₁ hslot₂
  rw [hslot₁, hip] at hpod₁
  rw [hslot₂, hip'] at hpod₂
  exact wireIpV6_rollout (hpod₁.symm.trans hpod₂)

/-- The front is one that the node asks for. -/
theorem rolloutRequest_mem : rolloutRequest ∈ rolloutState.requests := by
  obtain ⟨addrs, haddrs, hfront⟩ := Option.map_eq_some_iff.mp rolloutRequest_front
  obtain ⟨hip, hfamily⟩ := List.mem_filter.mp (List.mem_of_getLast? hfront)
  refine WatchState.mem_requests.mpr ⟨⟨"default", "web"⟩, rolloutRequest_service, rfl, List.mem_cons_self, ?_,
    (Bool.and_eq_true_iff.mp hfamily).1⟩
  exact List.mem_flatMap.mpr ⟨addrs, Table.mem_values.mpr ⟨"n1", haddrs⟩, hip⟩

end

/-- During a rollout a ready pod gets no slot. -/
theorem not_own_ports : ¬ ∀ (host : Host) (node : NodeContext) (inputs : List WatchInput) (r : FrontRequest),
    let s : WatchState := inputs.foldl (WatchState.apply node.nodeIp) {}
    s.fullyListed = true → r ∈ s.requests → @WatchState.OwnPorts host s node r :=
  fun hown => rolloutState_not_ownPorts
    (hown littleHost rolloutNode rolloutLists rolloutRequest rolloutState_listed rolloutRequest_mem)

end Beep
