import Beep.Controller.Requests
import Beep.Ebpf.Skb
import Beep.Lib.StableSort

/-!
# `Controller.Correctness.FrontOrder` — what the desired fronts depend on

Two states hold the same objects if they differ in the order in which their maps and the endpoints of their slices are
iterated (`Reordered`). Which request decides a key, which number it resolves to and which of two endpoints with one
address comes first can all depend on that order, and nothing else does. So the fronts are the same in every order
exactly if the requests that may decide a key ask for one front and endpoints of one address make one slot
(`fronts_orderFree_iff`).
-/

namespace Beep

open StableSort

/-- Slices that hold the same; the slices and the endpoints in each may stand in different orders. -/
structure SlicesAlike (t t' : Table String RawEndpointSlice) : Prop where
  none_iff : ∀ name, t.lookup name = none ↔ t'.lookup name = none
  slice : ∀ name a b, t.lookup name = some a → t'.lookup name = some b → a.ports = b.ports ∧ a.endpoints.Perm b.endpoints

/-- A slice in one map has its like in the other. -/
theorem SlicesAlike.of_lookup {t t' : Table String RawEndpointSlice} (h : SlicesAlike t t') {name : String}
    {a : RawEndpointSlice} (ha : t.lookup name = some a) :
    ∃ b, t'.lookup name = some b ∧ a.ports = b.ports ∧ a.endpoints.Perm b.endpoints := by
  cases hb : t'.lookup name with
  | none =>
    rw [(h.none_iff name).mpr hb] at ha
    cases ha
  | some b => exact ⟨b, rfl, h.slice name a b ha hb⟩

/-- To be alike has no direction. -/
theorem SlicesAlike.symm {t t' : Table String RawEndpointSlice} (h : SlicesAlike t t') : SlicesAlike t' t where
  none_iff name := (h.none_iff name).symm
  slice name a b ha hb := ⟨(h.slice name b a hb ha).1.symm, (h.slice name b a hb ha).2.symm⟩

/-- Slices visited in another order are alike. -/
theorem SlicesAlike.of_same {t t' : Table String RawEndpointSlice} (h : t.Same t') : SlicesAlike t t' where
  none_iff name := by rw [h name]
  slice name a b ha hb := by
    rw [h name, hb] at ha
    obtain rfl := Option.some_inj.mp ha
    exact ⟨rfl, .refl _⟩

/-- Slices are like themselves. -/
theorem SlicesAlike.refl (t : Table String RawEndpointSlice) : SlicesAlike t t := .of_same (.refl t)

/-- Alike slices expose the same ports. -/
theorem SlicesAlike.exposed {t t' : Table String RawEndpointSlice} (h : SlicesAlike t t') {sp : RawSlicePort} :
    Exposed t sp ↔ Exposed t' sp := by
  have himp : ∀ {u u' : Table String RawEndpointSlice}, SlicesAlike u u' → Exposed u sp → Exposed u' sp := by
    rintro u u' hu ⟨name, slice, hname, hsp⟩
    obtain ⟨slice', hname', hports, -⟩ := hu.of_lookup hname
    exact ⟨name, slice', hname', hports ▸ hsp⟩
  exact ⟨himp h, himp h.symm⟩

/-- So they know the same ports of the Service. -/
theorem SlicesAlike.portKnown {t t' : Table String RawEndpointSlice} (h : SlicesAlike t t') {port : RawServicePort} :
    PortKnown port t ↔ PortKnown port t' := by
  unfold PortKnown
  cases port.name <;> simp only [h.exposed]

/-- What is read off alike slices is the same up to its order. -/
theorem SlicesAlike.flatMap_perm {t t' : Table String RawEndpointSlice} (h : SlicesAlike t t') {α : Type*}
    {f : RawEndpointSlice → List α}
    (hf : ∀ a b : RawEndpointSlice, a.ports = b.ports → a.endpoints.Perm b.endpoints → (f a).Perm (f b)) :
    (t.values.flatMap f).Perm (t'.values.flatMap f) := by
  rw [Table.flatMap_values, Table.flatMap_values]
  have hkeys : t.keys.Perm t'.keys := by
    refine (List.perm_ext_iff_of_nodup t.keys_nodup t'.keys_nodup).mpr fun name => ?_
    rw [← AList.mem_keys, ← AList.mem_keys, ← not_iff_not, ← AList.lookup_eq_none, ← AList.lookup_eq_none]
    exact h.none_iff name
  refine hkeys.flatMap fun name _ => ?_
  cases ha : t.lookup name with
  | none =>
    rw [(h.none_iff name).mp ha]
  | some a =>
    obtain ⟨b, hb, hports, hperm⟩ := h.of_lookup ha
    rw [hb]
    exact hf a b hports hperm

/-- Some order of the slices gives the port the number: that of the first port of its name in some slice, or of the
    only port. -/
def MayResolve (port : RawServicePort) (slices : Table String RawEndpointSlice) (t : UInt16) : Prop :=
  match port.name with
  | some name => ∃ key slice sp, slices.lookup key = some slice ∧
      slice.ports.find? (fun sp => sp.name == some name) = some sp ∧ sp.port = t
  | none => ∃ sp, Exposed slices sp ∧ (∀ sp', Exposed slices sp' → sp' = sp) ∧ sp.port = t

namespace WatchState

/-- Two states that hold the same objects: their maps, and the endpoints of their slices, may stand in different
    orders. -/
structure Reordered (s s' : WatchState) : Prop where
  services : s.services.Same s'.services
  slices : ∀ key, SlicesAlike (s.slicesOf key) (s'.slicesOf key)
  nodeIps : s.nodeIps.Same s'.nodeIps
  listed : s.fullyListed = s'.fullyListed

/-! ## Numbers -/

/-- Collecting each element once does not change what is found first. -/
theorem find?_foldl_once {α : Type*} [DecidableEq α] (p : α → Bool) (l seen : List α) :
    (l.foldl (fun seen a => if a ∈ seen then seen else seen ++ [a]) seen).find? p =
      (seen.find? p).or (l.find? p) := by
  induction l generalizing seen with
  | nil => simp
  | cons a l ih =>
    rw [List.foldl_cons, ih]
    by_cases ha : a ∈ seen
    · rw [if_pos ha, List.find?_cons]
      cases hp : p a with
      | false => rfl
      | true =>
        have hfound : (seen.find? p).isSome = true := List.find?_isSome.mpr ⟨a, ha, hp⟩
        obtain ⟨b, hb⟩ := Option.isSome_iff_exists.mp hfound
        simp [hb]
    · rw [if_neg ha, List.find?_append, Option.or_assoc]
      congr 1
      rw [List.find?_cons, List.find?_cons]
      cases p a <;> rfl

/-- The first port with a property, in the union as over the slices. -/
theorem find?_unionPorts (slices : Table String RawEndpointSlice) (p : RawSlicePort → Bool) :
    (unionPorts slices).find? p = slices.values.findSome? fun slice => slice.ports.find? p := by
  rw [unionPorts, find?_foldl_once, List.find?_nil, Option.none_or, List.find?_flatMap]

/-- **The number** a port resolves to is one that some order gives it. -/
theorem mayResolve_of_resolveTargetPort {port : RawServicePort} {slices : Table String RawEndpointSlice} {t : UInt16}
    (h : resolveTargetPort port (unionPorts slices) = some t) : MayResolve port slices t := by
  unfold MayResolve
  cases hname : port.name with
  | some name =>
    simp only [resolveTargetPort, hname, find?_unionPorts] at h
    obtain ⟨sp, hfind, ht⟩ := Option.map_eq_some_iff.mp h
    obtain ⟨slice, hslice, hsp⟩ := List.exists_of_findSome?_eq_some hfind
    obtain ⟨key, hkey⟩ := Table.mem_values.mp hslice
    exact ⟨key, slice, sp, hkey, hsp, ht⟩
  | none =>
    obtain ⟨sp, hsp, ht, -, honly⟩ := exposed_of_resolveTargetPort h
    exact ⟨sp, hsp, honly hname, ht⟩

/-- What some order gives the port does not depend on the order. -/
theorem mayResolve_alike {port : RawServicePort} {slices slices' : Table String RawEndpointSlice}
    (h : SlicesAlike slices slices') {t : UInt16} (ht : MayResolve port slices t) : MayResolve port slices' t := by
  unfold MayResolve at ht ⊢
  cases hname : port.name with
  | some name =>
    simp only [hname] at ht ⊢
    obtain ⟨key, slice, sp, hkey, hsp, hport⟩ := ht
    obtain ⟨slice', hkey', hports, -⟩ := h.of_lookup hkey
    exact ⟨key, slice', sp, hkey', hports ▸ hsp, hport⟩
  | none =>
    simp only [hname, h.exposed] at ht ⊢
    exact ht

/-- A number that some order gives, in that order. -/
theorem exists_order_of_mayResolve {port : RawServicePort} {slices : Table String RawEndpointSlice} {t : UInt16}
    (h : MayResolve port slices t) :
    ∃ slices', SlicesAlike slices' slices ∧ resolveTargetPort port (unionPorts slices') = some t := by
  unfold MayResolve at h
  cases hname : port.name with
  | some name =>
    simp only [hname] at h
    obtain ⟨key, slice, sp, hkey, hsp, rfl⟩ := h
    obtain ⟨slices', hsame, rest, hfirst⟩ := Table.exists_first hkey
    refine ⟨slices', .of_same hsame, ?_⟩
    simp only [resolveTargetPort, hname, find?_unionPorts, Table.values, hfirst, List.map_cons, List.findSome?_cons, hsp,
      Option.map_some]
  | none =>
    simp only [hname] at h
    obtain ⟨sp, hsp, honly, rfl⟩ := h
    refine ⟨slices, .refl slices, ?_⟩
    have hknown : PortKnown port slices := by
      unfold PortKnown
      rw [hname]
      exact ⟨sp, hsp, honly⟩
    obtain ⟨t, ht⟩ := Option.isSome_iff_exists.mp (resolveTargetPort_isSome.mpr hknown)
    obtain ⟨sp', hsp', rfl, -⟩ := exposed_of_resolveTargetPort ht
    rw [ht, honly sp' hsp']

/-! ## Which request decides -/

/-- The last pick from a list of picks, each pick offering the same list. -/
theorem getLast?_flatMap_ite {α β γ : Type*} (l : List α) (offers : List β) (p : α → Bool) (mk : α → β → γ) :
    (l.flatMap fun a => if p a then offers.map (mk a) else []).getLast? =
      offers.getLast?.bind fun b => (l.filter p).getLast?.map fun a => mk a b := by
  induction l using List.reverseRecOn with
  | nil => cases offers.getLast? <;> rfl
  | append_singleton l a ih =>
    rw [List.flatMap_append, List.getLast?_append, ih, List.flatMap_singleton, List.filter_append]
    cases hp : p a with
    | false => simp [hp]
    | true =>
      rw [if_pos rfl, List.getLast?_map]
      cases offers.getLast? with
      | none => rfl
      | some b => simp [hp]

variable [Host]

/-- The last of the front addresses of a Service that has the address of a key. -/
def lastFront (svc : RawService) (K : LbFrontKey) (fronts : List IpAddr) : Option IpAddr :=
  (fronts.filter fun ip => svc.frontsFamily (.of ip) && wireIpV6 ip == K.frontIp).getLast?

/-- The last of the ports of a Service that has the port and protocol of a key and resolves. -/
def lastPort (svc : RawService) (slices : Table String RawEndpointSlice) (K : LbFrontKey) : Option RawServicePort :=
  (svc.ports.filter fun p => wirePort p.port == K.frontPort && p.protocol.asIpProto == K.proto &&
    (resolveTargetPort p (unionPorts slices)).isSome).getLast?

/-- A key from the wire is that of a front, field by field. -/
theorem frontKey_eq_iff {ip : IpAddr} {port : UInt16} {protocol : Protocol} {K : LbFrontKey} :
    frontKey ip port protocol = K ↔
      (wireIpV6 ip = K.frontIp ∧ wirePort port = K.frontPort ∧ protocol.asIpProto = K.proto) ∧ K.pad = 0 := by
  obtain ⟨frontIp, frontPort, proto, pad⟩ := K
  simp only [frontKey, LbFrontKey.mk.injEq]
  constructor
  · rintro ⟨rfl, rfl, rfl, rfl⟩
    exact ⟨⟨rfl, rfl, rfl⟩, rfl⟩
  · rintro ⟨⟨rfl, rfl, rfl⟩, rfl⟩
    exact ⟨rfl, rfl, rfl, rfl⟩

/-- **The last owner**, Service by Service from the last one. -/
theorem getLast?_owners_eq (s : WatchState) {K : LbFrontKey} (hpad : K.pad = 0) :
    (s.owners K).getLast? = s.services.entries.reverse.findSome? fun e =>
      (lastPort e.2 (s.slicesOf e.1) K).bind fun p =>
        (s.nodeIps.values.reverse.findSome? fun addrs => lastFront e.2 K addrs.fronts).map fun ip =>
          ⟨e.2, s.slicesOf e.1, ip, p⟩ := by
  unfold owners requests
  rw [List.filter_flatMap, List.getLast?_flatMap]
  congr 1
  funext e
  -- an address offers the ports of the key, or nothing
  have hone : ∀ ip, (e.2.ports.map fun p => (⟨e.2, s.slicesOf e.1, ip, p⟩ : FrontRequest)).filter
      (fun r => decide (r.key = K ∧ r.targetPort.isSome = true)) =
      if wireIpV6 ip == K.frontIp then (e.2.ports.filter fun p => wirePort p.port == K.frontPort &&
        p.protocol.asIpProto == K.proto && (resolveTargetPort p (unionPorts (s.slicesOf e.1))).isSome).map
          fun p => ⟨e.2, s.slicesOf e.1, ip, p⟩ else [] := by
    intro ip
    rw [List.filter_map]
    by_cases hip : wireIpV6 ip = K.frontIp
    · rw [if_pos (beq_iff_eq.mpr hip)]
      refine congrArg (List.map _) (List.filter_congr fun p _ => ?_)
      simp only [Function.comp_apply, FrontRequest.key, frontKey_eq_iff, FrontRequest.targetPort, hip, hpad]
      rw [Bool.eq_iff_iff]
      simp [and_assoc]
    · rw [if_neg (fun h => hip (beq_iff_eq.mp h))]
      refine List.map_eq_nil_iff.mpr (List.filter_eq_nil_iff.mpr fun p _ => ?_)
      simp only [Function.comp_apply, FrontRequest.key, frontKey_eq_iff, hip]
      simp
  simp only [List.filter_flatMap, hone]
  rw [getLast?_flatMap_ite _ _ (fun ip => wireIpV6 ip == K.frontIp) fun ip p =>
    (⟨e.2, s.slicesOf e.1, ip, p⟩ : FrontRequest)]
  unfold lastPort
  congr 1
  funext p
  rw [List.filter_filter, frontIps, List.filter_flatMap, List.getLast?_flatMap]
  simp only [lastFront, Bool.and_comm]

/-- Some order has the request decide the key, with that number: its address is the last of the key on some node, its
    port the last of the key that resolves. -/
structure Contends (s : WatchState) (K : LbFrontKey) (r : FrontRequest) (t : UInt16) : Prop where
  key : r.key = K
  service : ∃ key, s.services.lookup key = some r.svc ∧ r.slices = s.slicesOf key
  front : ∃ n addrs, s.nodeIps.lookup n = some addrs ∧ lastFront r.svc K addrs.fronts = some r.frontIp
  port : lastPort r.svc r.slices K = some r.port
  number : MayResolve r.port r.slices t

section
variable {s s' : WatchState} {node : NodeContext} {K : LbFrontKey} {r : FrontRequest} {t : UInt16}

/-- **Who decides contends.** -/
theorem contends_of_lookup (hlisted : s.fullyListed = true) {front : DesiredFront}
    (h : (s.desired node).fronts.lookup K = some front) :
    ∃ r t, s.Contends K r t ∧ front = s.requested node r t := by
  rw [lookup_fronts_owners hlisted] at h
  obtain ⟨r, hlast, hmap⟩ := Option.bind_eq_some_iff.mp h
  obtain ⟨t, ht, rfl⟩ := Option.map_eq_some_iff.mp hmap
  have hkey := (mem_owners.mp (List.mem_of_getLast? hlast)).2.1
  have hpad : K.pad = 0 := hkey ▸ rfl
  rw [getLast?_owners_eq s hpad] at hlast
  obtain ⟨⟨key, svc⟩, hsvc, hbind⟩ := List.exists_of_findSome?_eq_some hlast
  obtain ⟨p, hp, hpick⟩ := Option.bind_eq_some_iff.mp hbind
  obtain ⟨ip, hip, rfl⟩ := Option.map_eq_some_iff.mp hpick
  obtain ⟨addrs, haddrs, hfront⟩ := List.exists_of_findSome?_eq_some hip
  obtain ⟨n, hn⟩ := Table.mem_values.mp (List.mem_reverse.mp haddrs)
  exact ⟨_, t, ⟨hkey, ⟨key, AList.mem_lookup_iff.mpr (List.mem_reverse.mp hsvc), rfl⟩, ⟨n, addrs, hn, hfront⟩, hp,
    mayResolve_of_resolveTargetPort ht⟩, rfl⟩

/-- A request that contends is met, so the key has a front. -/
theorem Contends.lookup_ne_none (h : s.Contends K r t) (hlisted : s.fullyListed = true) :
    (s.desired node).fronts.lookup K ≠ none := by
  obtain ⟨key, hsvc, hslices⟩ := h.service
  obtain ⟨n, addrs, hn, hfront⟩ := h.front
  obtain ⟨hip, hfamily⟩ := List.mem_filter.mp (List.mem_of_getLast? hfront)
  obtain ⟨hport, hresolves⟩ := List.mem_filter.mp (List.mem_of_getLast? h.port)
  simp only [Bool.and_eq_true] at hfamily hresolves
  have hmem : r ∈ s.owners K := by
    refine mem_owners.mpr ⟨mem_requests.mpr ⟨key, hsvc, hslices, hport, ?_, hfamily.1⟩, h.key, hresolves.2⟩
    exact List.mem_flatMap.mpr ⟨addrs, Table.mem_values.mpr ⟨n, hn⟩, hip⟩
  rw [lookup_fronts_owners hlisted]
  obtain ⟨r', hr'⟩ := Option.isSome_iff_exists.mp (List.getLast?_isSome.mpr (List.ne_nil_of_mem hmem))
  obtain ⟨t', ht'⟩ := Option.isSome_iff_exists.mp (mem_owners.mp (List.mem_of_getLast? hr')).2.2
  rw [hr', Option.bind_some, ht']
  exact fun h => nomatch h

/-- Which port of the Service comes last is the same for alike slices. -/
theorem lastPort_alike {svc : RawService} {slices slices' : Table String RawEndpointSlice}
    (h : SlicesAlike slices slices') : lastPort svc slices K = lastPort svc slices' K := by
  unfold lastPort
  refine congrArg List.getLast? (List.filter_congr fun p _ => ?_)
  congr 1
  rw [Bool.eq_iff_iff, resolveTargetPort_isSome, resolveTargetPort_isSome, h.portKnown]

/-- What contends in one order contends in the other. -/
theorem Contends.reordered (h : s.Contends K r t) (hs : s.Reordered s') :
    ∃ slices, SlicesAlike r.slices slices ∧ s'.Contends K { r with slices } t := by
  obtain ⟨key, hsvc, hslices⟩ := h.service
  obtain ⟨n, addrs, hn, hfront⟩ := h.front
  have halike : SlicesAlike r.slices (s'.slicesOf key) := hslices ▸ hs.slices key
  exact ⟨s'.slicesOf key, halike, h.key, ⟨key, (hs.services key).symm.trans hsvc, rfl⟩,
    ⟨n, addrs, (hs.nodeIps n).symm.trans hn, hfront⟩, (lastPort_alike halike).symm.trans h.port,
    mayResolve_alike halike h.number⟩

omit [Host] in
/-- An endpoint is resolved by its own fields, the ports of its slice and the Nodes. -/
theorem resolveEndpoint_congr (hs : s.nodeIps.Same s'.nodeIps) {a b : RawEndpointSlice} (hports : a.ports = b.ports) :
    s.resolveEndpoint node a = s'.resolveEndpoint node b := by
  funext e
  unfold resolveEndpoint
  rw [hports]
  cases e.nodeName with
  | none => rfl
  | some n =>
    show (s.nodeIps.lookup n).bind _ = (s'.nodeIps.lookup n).bind _
    rw [hs n]

omit [Host] in
/-- The endpoints of all slices, in the order of the slices. -/
theorem flatten_endpointSlices (s : WatchState) (node : NodeContext) (slices : Table String RawEndpointSlice) :
    (s.endpointSlices node slices).flatten =
      slices.values.flatMap fun slice => slice.endpoints.filterMap (s.resolveEndpoint node slice) := rfl

/-- Only the Nodes count of the state a front is requested in. -/
theorem requested_congr (hs : s.nodeIps.Same s'.nodeIps) : s.requested node r t = s'.requested node r t := by
  unfold requested
  rw [flatten_endpointSlices, flatten_endpointSlices]
  simp only [resolveEndpoint_congr hs rfl]

omit [Host] in
/-- Alike slices offer the same endpoints. -/
theorem candidates_perm {slices : Table String RawEndpointSlice} (h : SlicesAlike r.slices slices) :
    (s.candidates node r t).Perm (s.candidates node { r with slices } t) := by
  unfold candidates matchingEndpoints
  rw [flatten_endpointSlices, flatten_endpointSlices]
  refine List.Perm.filter _ (h.flatMap_perm fun a b hports hperm => ?_)
  rw [resolveEndpoint_congr (Table.Same.refl s.nodeIps) hports]
  exact hperm.filterMap _

/-- **Any contender can decide**, over any order of its slices that gives it a number. -/
theorem Contends.exists_order (h : s.Contends K r t) (hlisted : s.fullyListed = true) (node : NodeContext)
    {slices : Table String RawEndpointSlice} (halike : SlicesAlike slices r.slices) {t' : UInt16}
    (ht' : resolveTargetPort r.port (unionPorts slices) = some t') :
    ∃ s' : WatchState, s'.Reordered s ∧
      (s'.desired node).fronts.lookup K = some (s.requested node { r with slices } t') := by
  obtain ⟨key, hsvc, hslices⟩ := h.service
  obtain ⟨n, addrs, hn, hfront⟩ := h.front
  obtain ⟨services, hservices, before, hlast⟩ := Table.exists_last hsvc
  obtain ⟨nodeIps, hnodeIps, nodesBefore, hnodeLast⟩ := Table.exists_last hn
  let s' : WatchState := { s with services, nodeIps, slices := s.slices.insert key slices }
  have hset : ∀ k, s'.slicesOf k = if k = key then slices else s.slicesOf k := by
    intro k
    show (AList.lookup k (s.slices.insert key slices)).getD ∅ = _
    rw [Table.lookup_insert_ite]
    split <;> rfl
  have hreordered : s'.Reordered s := by
    refine ⟨hservices, fun k => ?_, hnodeIps, rfl⟩
    rw [hset]
    split
    · rename_i hk
      rw [hk, ← hslices]
      exact halike
    · exact .refl _
  refine ⟨s', hreordered, ?_⟩
  have hpad : K.pad = 0 := h.key ▸ rfl
  have howner : (s'.owners K).getLast? = some { r with slices } := by
    have hvalues : s'.nodeIps.values.reverse = addrs :: (nodesBefore.map Sigma.snd).reverse := by
      show (nodeIps.entries.map Sigma.snd).reverse = _
      rw [hnodeLast, List.map_append, List.reverse_append]
      rfl
    have hentries : s'.services.entries.reverse = ⟨key, r.svc⟩ :: before.reverse := by
      show services.entries.reverse = _
      rw [hlast, List.reverse_append]
      rfl
    rw [getLast?_owners_eq s' hpad, hentries, List.findSome?_cons, hvalues, List.findSome?_cons, hset, if_pos rfl]
    simp only [hfront, lastPort_alike halike, h.port, Option.bind_some, Option.map_some]
  rw [lookup_fronts_owners (show s'.fullyListed = true from hlisted), howner, Option.bind_some]
  show (resolveTargetPort r.port (unionPorts slices)).map _ = _
  rw [ht', Option.map_some, show s'.requested node _ t' = s.requested node _ t' from requested_congr hnodeIps]

/-! ## Endpoints of one address -/

omit [Host] in
/-- The endpoints a request uses. -/
def chosen (s : WatchState) (node : NodeContext) (r : FrontRequest) (t : UInt16) : List Endpoint :=
  chosenEndpoints r.svc.policy (s.candidates node r t) node.nodeIp

omit [Host] in
/-- The endpoints a request uses that have one address, and where the policy prefers local pods one locality, are
    reached in the same way. -/
def TiesAgree (s : WatchState) (node : NodeContext) (r : FrontRequest) (t : UInt16) : Prop :=
  ∀ a ∈ s.chosen node r t, ∀ b ∈ s.chosen node r t, a.podIp = b.podIp →
    (r.svc.policy = .preferLocal → a.isLocal node.nodeIp = b.isLocal node.nodeIp) →
    tunnelRemoteV6 a.nodeIp = tunnelRemoteV6 b.nodeIp ∧ a.isLocal node.nodeIp = b.isLocal node.nodeIp

omit [Host] in
/-- The rank of an endpoint: its address, and with `preferLocal` whether it is local. -/
theorem slotRank_eq_iff {policy : EndpointPolicy} {nodeIp : IpAddr} {a b : Endpoint} :
    slotRank policy nodeIp a = slotRank policy nodeIp b ↔
      a.podIp = b.podIp ∧ (policy = .preferLocal → a.isLocal nodeIp = b.isLocal nodeIp) := by
  rw [slotRank, slotRank, toLex.injective.eq_iff, Prod.mk.injEq, IpAddr.rank_inj, and_comm]
  refine and_congr_right fun _ => ?_
  by_cases hpolicy : policy = .preferLocal
  · cases a.isLocal nodeIp <;> cases b.isLocal nodeIp <;> simp [hpolicy]
  · simp [hpolicy]

/-- With one address, two endpoints have one slot if they are reached in one way and are as local. -/
theorem toSlot_eq_iff {nodeIp : IpAddr} {a b : Endpoint} (hpod : a.podIp = b.podIp) :
    a.toSlot t nodeIp = b.toSlot t nodeIp ↔
      tunnelRemoteV6 a.nodeIp = tunnelRemoteV6 b.nodeIp ∧ a.isLocal nodeIp = b.isLocal nodeIp := by
  have hflag : endpointFlagIsLocal ≠ 0 := by decide
  simp only [Endpoint.toSlot, FrontEndpoint.mk.injEq, LbFrontBackend.mk.injEq, hpod, and_true, true_and]
  refine and_congr_right fun _ => ?_
  cases a.isLocal nodeIp <;> cases b.isLocal nodeIp <;> simp [hflag, hflag.symm]

/-- The slots of a front: the chosen endpoints, sorted by rank. -/
theorem requested_endpoints (s : WatchState) (node : NodeContext) (r : FrontRequest) (t : UInt16) :
    (s.requested node r t).endpoints =
      (sortByRank (slotRank r.svc.policy node.nodeIp) (s.chosen node r t)).map fun e => e.toSlot t node.nodeIp := rfl

omit [Host] in
/-- Alike slices give the same endpoints, in some order. -/
theorem chosen_perm {slices : Table String RawEndpointSlice} (h : SlicesAlike r.slices slices) :
    (s.chosen node r t).Perm (s.chosen node { r with slices } t) := chosenEndpoints_perm (candidates_perm h)

/-- Where ties agree, alike slices ask for the same front. -/
theorem TiesAgree.requested_eq (hties : s.TiesAgree node r t) {slices : Table String RawEndpointSlice}
    (h : SlicesAlike r.slices slices) : s.requested node { r with slices } t = s.requested node r t := by
  have hendpoints : (s.requested node { r with slices } t).endpoints = (s.requested node r t).endpoints := by
    rw [requested_endpoints, requested_endpoints]
    refine (map_sortByRank_eq (chosen_perm h) fun a ha b hb hrank => ?_).symm
    obtain ⟨hpod, hlocal⟩ := slotRank_eq_iff.mp hrank
    exact (toSlot_eq_iff hpod).mpr (hties a ha b hb hpod hlocal)
  exact congrArg (fun endpoints => ({ s.requested node r t with endpoints } : DesiredFront)) hendpoints

omit [Host] in
/-- Any endpoint a request uses can be the first. -/
theorem exists_chosen_first {e : Endpoint} (he : e ∈ s.chosen node r t) :
    ∃ slices, SlicesAlike slices r.slices ∧ ∃ rest, s.chosen node { r with slices } t = e :: rest := by
  have hcandidate := (mem_chosenEndpoints he).1
  obtain ⟨hmem, hmatch⟩ := List.mem_filter.mp hcandidate
  obtain ⟨name, slice, raw, hname, hraw, hresolves⟩ := mem_endpointSlices.mp hmem
  let first : RawEndpointSlice := { slice with endpoints := raw :: slice.endpoints.erase raw }
  let slices : Table String RawEndpointSlice := r.slices.insert name first
  have halike : SlicesAlike slices r.slices := by
    refine ⟨fun name' => ?_, fun name' a b ha hb => ?_⟩
    · rw [Table.lookup_insert_ite]
      split
      · rename_i hk
        rw [hk, hname]
        exact iff_of_false (fun h => nomatch h) fun h => nomatch h
      · rfl
    · rw [Table.lookup_insert_ite] at ha
      split at ha
      · rename_i hk
        obtain rfl := Option.some_inj.mp ha
        rw [hk, hname] at hb
        obtain rfl := Option.some_inj.mp hb
        exact ⟨rfl, (List.perm_cons_erase hraw).symm⟩
      · rw [hb] at ha
        obtain rfl := Option.some_inj.mp ha
        exact ⟨rfl, .refl _⟩
  refine ⟨slices, halike, ?_⟩
  -- it is the first candidate, and the choice moves none
  have hcandidates : ∃ rest, s.candidates node { r with slices } t = e :: rest := by
    have hvalues : slices.values = first :: (List.kerase name r.slices.entries).map Sigma.snd := by
      show List.map Sigma.snd (r.slices.insert name first).entries = _
      rw [AList.entries_insert]
      rfl
    have hfirst : first.endpoints.filterMap (s.resolveEndpoint node first) =
        e :: (slice.endpoints.erase raw).filterMap (s.resolveEndpoint node first) := by
      rw [show first.endpoints = raw :: slice.endpoints.erase raw from rfl]
      exact List.filterMap_cons_some ((congrFun (resolveEndpoint_congr (.refl _) rfl) raw).trans hresolves)
    unfold candidates matchingEndpoints
    rw [flatten_endpointSlices, hvalues, List.flatMap_cons, hfirst, List.cons_append]
    exact ⟨_, List.filter_cons_of_pos hmatch⟩
  obtain ⟨rest, hrest⟩ := hcandidates
  obtain ⟨p, hp⟩ := chosenEndpoints_eq_filter r.svc.policy (s.candidates node { r with slices } t) node.nodeIp
  have hkeep : e ∈ s.chosen node { r with slices } t := (chosen_perm halike.symm).mem_iff.mp he
  unfold chosen at hkeep ⊢
  rw [hp, hrest] at hkeep
  rw [hp, hrest, List.filter_cons_of_pos (List.mem_filter.mp hkeep).2]
  exact ⟨_, rfl⟩

/-! ## The fronts -/

/-- The desired fronts do not depend on the order in which the objects are iterated. -/
def FrontsOrderFree (s : WatchState) (node : NodeContext) : Prop :=
  ∀ s₁ s₂ : WatchState, s₁.Reordered s → s₂.Reordered s → (s₁.desired node).fronts.Same (s₂.desired node).fronts

/-- With two numbers in reach, a front with slots is not free of the order. -/
theorem number_unique (hfree : s.FrontsOrderFree node) (hlisted : s.fullyListed = true) (h : s.Contends K r t)
    (hused : s.chosen node r t ≠ []) {t' : UInt16} (ht' : MayResolve r.port r.slices t') : t' = t := by
  obtain ⟨slices₁, halike₁, ht₁⟩ := exists_order_of_mayResolve h.number
  obtain ⟨slices₂, halike₂, ht₂⟩ := exists_order_of_mayResolve ht'
  obtain ⟨s₁, hs₁, hfront₁⟩ := h.exists_order hlisted node halike₁ ht₁
  obtain ⟨s₂, hs₂, hfront₂⟩ := h.exists_order hlisted node halike₂ ht₂
  have hsame := hfree s₁ s₂ hs₁ hs₂ K
  rw [hfront₁, hfront₂, Option.some_inj] at hsame
  -- the slots of the one have the one number, those of the other the other
  have hports : ∀ (slices : Table String RawEndpointSlice) (u : UInt16), ∀ slot ∈ (s.requested node { r with slices }
      u).endpoints, slot.targetPort = wirePort u := by
    intro slices u slot hslot
    obtain ⟨e, -, rfl⟩ := List.mem_map.mp hslot
    rfl
  obtain ⟨e, he⟩ := List.exists_mem_of_ne_nil _ hused
  have hslot : e.toSlot t node.nodeIp ∈ (s.requested node { r with slices := slices₁ } t).endpoints := by
    refine List.mem_map.mpr ⟨e, (perm_sortByRank _ _).mem_iff.mpr ?_, rfl⟩
    exact (chosen_perm halike₁.symm).mem_iff.mp he
  have hport₁ := hports slices₁ t _ hslot
  rw [hsame] at hslot
  have hwire := (hports slices₂ t' _ hslot).symm.trans hport₁
  exact wirePort_inj.mp hwire

/-- Where the fronts are free of the order, ties agree. -/
theorem ties_agree_of_orderFree (hfree : s.FrontsOrderFree node) (hlisted : s.fullyListed = true)
    (h : s.Contends K r t) : s.TiesAgree node r t := by
  intro a ha b hb hpod hlocal
  obtain ⟨slices₁, halike₁, rest₁, hfirst₁⟩ := exists_chosen_first ha
  obtain ⟨slices₂, halike₂, rest₂, hfirst₂⟩ := exists_chosen_first hb
  -- the number is the same, whichever slice comes first
  have hnumber : ∀ slices, SlicesAlike slices r.slices → resolveTargetPort r.port (unionPorts slices) = some t := by
    intro slices halike
    have hport := (List.mem_filter.mp (List.mem_of_getLast? h.port)).2
    rw [Bool.and_eq_true, resolveTargetPort_isSome, ← halike.portKnown, ← resolveTargetPort_isSome] at hport
    obtain ⟨t', ht'⟩ := Option.isSome_iff_exists.mp hport.2
    rw [ht', number_unique hfree hlisted h (List.ne_nil_of_mem ha)
      (mayResolve_alike halike (mayResolve_of_resolveTargetPort ht'))]
  obtain ⟨s₁, hs₁, hfront₁⟩ := h.exists_order hlisted node halike₁ (hnumber _ halike₁)
  obtain ⟨s₂, hs₂, hfront₂⟩ := h.exists_order hlisted node halike₂ (hnumber _ halike₂)
  have hsame := hfree s₁ s₂ hs₁ hs₂ K
  rw [hfront₁, hfront₂, Option.some_inj] at hsame
  have hslots := congrArg DesiredFront.endpoints hsame
  rw [requested_endpoints, requested_endpoints, hfirst₁, hfirst₂] at hslots
  have hperm : (a :: rest₁).Perm (b :: rest₂) := by
    rw [← hfirst₁, ← hfirst₂]
    exact (chosen_perm halike₁.symm).symm.trans (chosen_perm halike₂.symm)
  exact (toSlot_eq_iff hpod).mp (eq_of_map_sortByRank_eq hperm (slotRank_eq_iff.mpr ⟨hpod, hlocal⟩) hslots)

/-- The front under a key is what some contender asks for. -/
theorem lookup_of_reordered (hties : ∀ K r t, s.Contends K r t → s.TiesAgree node r t) {s' : WatchState}
    (hs : s'.Reordered s) (hlisted : s.fullyListed = true) {front : DesiredFront}
    (h : (s'.desired node).fronts.lookup K = some front) :
    ∃ r t, s.Contends K r t ∧ front = s.requested node r t := by
  obtain ⟨r, t, hcontends, rfl⟩ := contends_of_lookup (hs.listed.trans hlisted) h
  obtain ⟨slices, halike, hcontends'⟩ := hcontends.reordered hs
  refine ⟨_, t, hcontends', ?_⟩
  rw [requested_congr hs.nodeIps]
  exact (hties K _ t hcontends').requested_eq halike.symm

omit [Host] in
/-- To hold the same objects has no direction. -/
theorem Reordered.symm {s s' : WatchState} (h : s.Reordered s') : s'.Reordered s :=
  ⟨h.services.symm, fun key => (h.slices key).symm, h.nodeIps.symm, h.listed.symm⟩

/-- **When the fronts are a function of the objects**: endpoints with one address that a front uses are reached in one
    way, and all requests that some order has decide a key ask for one front. -/
theorem fronts_orderFree_iff : s.FrontsOrderFree node ↔ (s.fullyListed = true →
    (∀ K r t, s.Contends K r t → s.TiesAgree node r t) ∧
      ∀ K r t r' t', s.Contends K r t → s.Contends K r' t' → s.requested node r t = s.requested node r' t') := by
  constructor
  · intro hfree hlisted
    have hties := fun K r t h => ties_agree_of_orderFree (K := K) (r := r) (t := t) hfree hlisted h
    refine ⟨hties, fun K r t r' t' h h' => ?_⟩
    -- each request has an order in which its number is the one, and then its front is there
    obtain ⟨slices₁, halike₁, ht₁⟩ := exists_order_of_mayResolve h.number
    obtain ⟨slices₂, halike₂, ht₂⟩ := exists_order_of_mayResolve h'.number
    obtain ⟨s₁, hs₁, hfront₁⟩ := h.exists_order hlisted node halike₁ ht₁
    obtain ⟨s₂, hs₂, hfront₂⟩ := h'.exists_order hlisted node halike₂ ht₂
    have hsame := hfree s₁ s₂ hs₁ hs₂ K
    rw [hfront₁, hfront₂, Option.some_inj] at hsame
    rw [← (hties K r t h).requested_eq halike₁.symm, hsame, (hties K r' t' h').requested_eq halike₂.symm]
  · intro hagree s₁ s₂ hs₁ hs₂ K
    cases hlisted : s.fullyListed with
    | false =>
      have hno : ¬ (false = true) := fun h => nomatch h
      rw [lookup_fronts, lookup_fronts, hs₁.listed, hs₂.listed, hlisted, if_neg hno, if_neg hno]
    | true =>
      obtain ⟨hties, hone⟩ := hagree hlisted
      -- a front of one order is there in the other too
      have hnone : ∀ s' s'' : WatchState, s'.Reordered s → s''.Reordered s →
          (s'.desired node).fronts.lookup K = none → (s''.desired node).fronts.lookup K = none := by
        intro s' s'' hs' hs'' hnone
        by_contra hsome
        obtain ⟨front, hfront⟩ := Option.ne_none_iff_exists'.mp hsome
        obtain ⟨r, t, hcontends, -⟩ := lookup_of_reordered hties hs'' hlisted hfront
        obtain ⟨slices, -, hcontends'⟩ := hcontends.reordered hs'.symm
        exact hcontends'.lookup_ne_none (hs'.listed.trans hlisted) hnone
      cases hfront₁ : (s₁.desired node).fronts.lookup K with
      | none => exact (hnone s₁ s₂ hs₁ hs₂ hfront₁).symm
      | some front₁ =>
        cases hfront₂ : (s₂.desired node).fronts.lookup K with
        | none =>
          rw [hnone s₂ s₁ hs₂ hs₁ hfront₂] at hfront₁
          cases hfront₁
        | some front₂ =>
          obtain ⟨r₁, t₁, h₁, rfl⟩ := lookup_of_reordered hties hs₁ hlisted hfront₁
          obtain ⟨r₂, t₂, h₂, rfl⟩ := lookup_of_reordered hties hs₂ hlisted hfront₂
          rw [hone K r₁ t₁ r₂ t₂ h₁ h₂]

end

end WatchState

/-! ## A rollout that changes a container port -/

/-- `10.0.0.1`, the one node. -/
def rolloutNode : NodeContext := ⟨.v4 0x0a000001, ⟨none, none⟩⟩

/-- The three LISTs of a cluster whose Service has an old pod on port 8080 and a new one on port 9090, both under the
    port name `http`. -/
def rolloutLists : List WatchInput :=
  [.services [serviceObject "web" [namedPortObject "http" 80]],
    .endpointSlices [
      sliceObject "web" "web-1" [namedPortObject "http" 8080] [endpointObject "10.1.0.9" "n1" "a"],
      sliceObject "web" "web-2" [namedPortObject "http" 9090] [endpointObject "10.1.0.10" "n1" "b"]],
    .nodes [nodeObject "n1" "10.0.0.1"]]

/-- The state after them. -/
def rolloutState : WatchState := rolloutLists.foldl (WatchState.apply rolloutNode.nodeIp) {}

/-- Its one request. -/
def rolloutRequest : FrontRequest where
  svc := { ports := [⟨some "http", 80, .tcp⟩], ipFamilies := [.v4], policy := .uniform, clientIpAffinity := false }
  slices := rolloutState.slicesOf ⟨"default", "web"⟩
  frontIp := .v4 0x0a000001
  port := ⟨some "http", 80, .tcp⟩

section
local instance rolloutHost : Host := littleHost

/-- All three LISTs came. -/
theorem rolloutState_listed : rolloutState.fullyListed = true := by decide

/-- The Service of the request. -/
theorem rolloutRequest_service : rolloutState.services.lookup ⟨"default", "web"⟩ = some rolloutRequest.svc := by
  decide

/-- The one node's address is its last front address. -/
theorem rolloutRequest_front : (rolloutState.nodeIps.lookup "n1").map (fun addrs =>
    WatchState.lastFront rolloutRequest.svc rolloutRequest.key addrs.fronts) = some (some rolloutRequest.frontIp) := by
  decide +kernel

/-- Its port is the last one. -/
theorem rolloutRequest_port : WatchState.lastPort rolloutRequest.svc rolloutRequest.slices rolloutRequest.key =
    some rolloutRequest.port := by
  decide

/-- The number a slice gives the port. -/
def sliceNumber (slices : Table String RawEndpointSlice) (name : String) : Option UInt16 :=
  (slices.lookup name).bind fun slice => (slice.ports.find? fun sp => sp.name == some "http").map (·.port)

/-- The old slice. -/
theorem rolloutRequest_old : sliceNumber rolloutRequest.slices "web-1" = some 8080 := by decide

/-- The new slice. -/
theorem rolloutRequest_new : sliceNumber rolloutRequest.slices "web-2" = some 9090 := by decide

/-- Either number comes first in some order. -/
theorem rolloutRequest_mayResolve {name : String} {t : UInt16} (h : sliceNumber rolloutRequest.slices name = some t) :
    MayResolve rolloutRequest.port rolloutRequest.slices t := by
  obtain ⟨slice, hslice, hport⟩ := Option.bind_eq_some_iff.mp h
  obtain ⟨sp, hsp, ht⟩ := Option.map_eq_some_iff.mp hport
  exact ⟨name, slice, sp, hslice, hsp, ht⟩

/-- So it decides its key in some order. -/
theorem rolloutRequest_contends : rolloutState.Contends rolloutRequest.key rolloutRequest 8080 := by
  obtain ⟨addrs, haddrs, hfront⟩ := Option.map_eq_some_iff.mp rolloutRequest_front
  exact ⟨rfl, ⟨_, rolloutRequest_service, rfl⟩, ⟨"n1", addrs, haddrs, hfront⟩, rolloutRequest_port,
    rolloutRequest_mayResolve rolloutRequest_old⟩

/-- The front has an endpoint. -/
theorem rolloutRequest_used : rolloutState.chosen rolloutNode rolloutRequest 8080 ≠ [] := by
  have hone : (rolloutState.chosen rolloutNode rolloutRequest 8080).length = 1 := by decide
  exact fun hnil => by simp [hnil] at hone

/-- Two numbers for a front that is in use. -/
theorem rolloutState_not_orderFree : ¬ rolloutState.FrontsOrderFree rolloutNode := by
  intro hfree
  have hnumber := WatchState.number_unique hfree rolloutState_listed rolloutRequest_contends rolloutRequest_used
    (rolloutRequest_mayResolve rolloutRequest_new)
  exact absurd hnumber (by decide)

end

/-- The same objects do not always give the same fronts. -/
theorem not_fronts_orderFree : ¬ ∀ (host : Host) (node : NodeContext) (inputs : List WatchInput),
    @WatchState.FrontsOrderFree host (inputs.foldl (WatchState.apply node.nodeIp) {}) node :=
  fun hfree => rolloutState_not_orderFree (hfree littleHost rolloutNode rolloutLists)

end Beep
