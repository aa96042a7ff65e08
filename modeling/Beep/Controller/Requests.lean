import Beep.Controller.Facts

/-!
# `Controller.Requests` — who asks for a front

Every port of a tracked Service asks for a front on every known front address of the Service's families
(`FrontRequest`). The request is met with the number that its port resolves to over all the slices of the Service
(`PortKnown` says when it does), and the last request for a key that resolves decides the front under it
(`lookup_fronts_owners`). Which endpoints a front can use is read off once (`chosenEndpoints_eq_nil`).
-/

namespace Beep

/-- One port of a Service on one front address. -/
structure FrontRequest where
  svc : RawService
  slices : Table String RawEndpointSlice
  frontIp : IpAddr
  port : RawServicePort

/-- Some slice has the port. -/
def Exposed (slices : Table String RawEndpointSlice) (sp : RawSlicePort) : Prop :=
  ∃ name slice, slices.lookup name = some slice ∧ sp ∈ slice.ports

/-- A Service port has a target port: some slice has a port of its name, or, where it has no name, all ports of all
    slices are one. -/
def PortKnown (port : RawServicePort) (slices : Table String RawEndpointSlice) : Prop :=
  match port.name with
  | some name => ∃ sp, Exposed slices sp ∧ sp.name = some name
  | none => ∃ sp, Exposed slices sp ∧ ∀ sp', Exposed slices sp' → sp' = sp

/-! ## The target port -/

namespace WatchState

/-- Collecting each element once keeps them all, and each once. -/
theorem foldl_once {α : Type*} [DecidableEq α] (l seen : List α) (hseen : seen.Nodup) :
    (l.foldl (fun seen a => if a ∈ seen then seen else seen ++ [a]) seen).Nodup ∧
      ∀ a, a ∈ l.foldl (fun seen a => if a ∈ seen then seen else seen ++ [a]) seen ↔ a ∈ seen ∨ a ∈ l := by
  induction l generalizing seen with
  | nil => exact ⟨hseen, fun a => by simp⟩
  | cons b l ih =>
    rw [List.foldl_cons]
    by_cases hb : b ∈ seen
    · rw [if_pos hb]
      obtain ⟨hnodup, hmem⟩ := ih seen hseen
      refine ⟨hnodup, fun a => ?_⟩
      rw [hmem, List.mem_cons]
      constructor
      · rintro (ha | ha)
        · exact Or.inl ha
        · exact Or.inr (Or.inr ha)
      · rintro (ha | rfl | ha)
        · exact Or.inl ha
        · exact Or.inl hb
        · exact Or.inr ha
    · rw [if_neg hb]
      obtain ⟨hnodup, hmem⟩ := ih (seen ++ [b]) (List.nodup_append.mpr ⟨hseen, List.nodup_singleton b, by
        intro a ha b' hb'
        rw [List.mem_singleton.mp hb']
        rintro rfl
        exact hb ha⟩)
      refine ⟨hnodup, fun a => ?_⟩
      rw [hmem, List.mem_append, List.mem_singleton, List.mem_cons, or_assoc]

theorem nodup_unionPorts (slices : Table String RawEndpointSlice) : (unionPorts slices).Nodup :=
  (foldl_once _ [] List.nodup_nil).1

theorem mem_unionPorts {slices : Table String RawEndpointSlice} {sp : RawSlicePort} :
    sp ∈ unionPorts slices ↔ Exposed slices sp := by
  rw [unionPorts, (foldl_once _ [] List.nodup_nil).2, List.mem_flatMap]
  simp only [List.not_mem_nil, false_or, Table.mem_values, Exposed]
  constructor
  · rintro ⟨slice, ⟨name, hname⟩, hsp⟩
    exact ⟨name, slice, hname, hsp⟩
  · rintro ⟨name, slice, hname, hsp⟩
    exact ⟨slice, ⟨name, hname⟩, hsp⟩

/-- A list without repetition has one element if all its elements are one. -/
theorem length_eq_one_of_nodup {α : Type*} {l : List α} (hnodup : l.Nodup) :
    l.length = 1 ↔ ∃ a, a ∈ l ∧ ∀ b ∈ l, b = a := by
  constructor
  · intro h
    obtain ⟨a, rfl⟩ := List.length_eq_one_iff.mp h
    exact ⟨a, List.mem_singleton_self a, fun b hb => List.mem_singleton.mp hb⟩
  · rintro ⟨a, ha, hall⟩
    match l, hnodup with
    | [], _ => exact absurd ha List.not_mem_nil
    | [_], _ => rfl
    | b :: c :: l, hnodup =>
      have hbc : b = c := (hall b (by simp)).trans (hall c (by simp)).symm
      exact absurd (hbc ▸ List.mem_cons_self) (List.nodup_cons.mp hnodup).1

/-- **The target port** is the number of a port that some slice has: of one with the name, or of the only one. -/
theorem exposed_of_resolveTargetPort {port : RawServicePort} {slices : Table String RawEndpointSlice} {t : UInt16}
    (h : resolveTargetPort port (unionPorts slices) = some t) :
    ∃ sp, Exposed slices sp ∧ sp.port = t ∧ (∀ name, port.name = some name → sp.name = some name) ∧
      (port.name = none → ∀ sp', Exposed slices sp' → sp' = sp) := by
  unfold resolveTargetPort at h
  cases hname : port.name with
  | some name =>
    simp only [hname] at h
    obtain ⟨sp, hfind, rfl⟩ := Option.map_eq_some_iff.mp h
    refine ⟨sp, mem_unionPorts.mp (List.mem_of_find?_eq_some hfind), rfl, ?_, fun h => nomatch h⟩
    rintro name' ⟨rfl⟩
    simpa using List.find?_some hfind
  | none =>
    simp only [hname] at h
    split at h
    · rename_i hone
      obtain ⟨sp, hhead, rfl⟩ := Option.map_eq_some_iff.mp h
      obtain ⟨sp', hsp'⟩ := List.length_eq_one_iff.mp hone
      obtain rfl : sp' = sp := by
        rw [hsp'] at hhead
        exact Option.some_inj.mp hhead
      refine ⟨sp', mem_unionPorts.mp (hsp' ▸ List.mem_singleton_self sp'), rfl, (fun name h => nomatch h), ?_⟩
      intro _ sp'' hsp''
      have hmem := mem_unionPorts.mpr hsp''
      rw [hsp'] at hmem
      exact List.mem_singleton.mp hmem
    · cases h

/-- A port resolves exactly if it is known. -/
theorem resolveTargetPort_isSome {port : RawServicePort} {slices : Table String RawEndpointSlice} :
    (resolveTargetPort port (unionPorts slices)).isSome = true ↔ PortKnown port slices := by
  constructor
  · intro h
    obtain ⟨t, ht⟩ := Option.isSome_iff_exists.mp h
    obtain ⟨sp, hsp, _, hnamed, hunnamed⟩ := exposed_of_resolveTargetPort ht
    unfold PortKnown
    cases hname : port.name with
    | some name => exact ⟨sp, hsp, hnamed name hname⟩
    | none => exact ⟨sp, hsp, hunnamed hname⟩
  · intro h
    unfold PortKnown at h
    unfold resolveTargetPort
    cases hname : port.name with
    | some name =>
      simp only [hname] at h ⊢
      obtain ⟨sp, hsp, hspname⟩ := h
      rw [Option.isSome_map, List.find?_isSome]
      exact ⟨sp, mem_unionPorts.mpr hsp, beq_iff_eq.mpr hspname⟩
    | none =>
      simp only [hname] at h ⊢
      obtain ⟨sp, hsp, honly⟩ := h
      have hone := (length_eq_one_of_nodup (nodup_unionPorts slices)).mpr
        ⟨sp, mem_unionPorts.mpr hsp, fun sp' hsp' => honly sp' (mem_unionPorts.mp hsp')⟩
      rw [if_pos hone, Option.isSome_map, List.isSome_head?]
      exact fun hnil => by simp [hnil] at hone

end WatchState

/-! ## The endpoints of a front -/

/-- The endpoint takes new flows, or is a local one that drains and still serves those of an `OnlyLocal` front. -/
def Endpoint.Usable (e : Endpoint) (policy : EndpointPolicy) (nodeIp : IpAddr) : Prop :=
  e.takesNewFlows = true ∨
    (policy = .onlyLocal ∧ e.isLocal nodeIp = true ∧ e.serving = true ∧ e.terminating = true)

theorem mem_localUsableEndpoints {candidates : List Endpoint} {nodeIp : IpAddr} {e : Endpoint}
    (h : e ∈ localUsableEndpoints candidates nodeIp) :
    e ∈ candidates ∧ e.isLocal nodeIp = true ∧ e.Usable .onlyLocal nodeIp := by
  unfold localUsableEndpoints at h
  dsimp only at h
  split at h
  · obtain ⟨hmem, huse⟩ := List.mem_filter.mp h
    obtain ⟨hlocal, hflows⟩ := Bool.and_eq_true_iff.mp huse
    exact ⟨hmem, hlocal, Or.inl hflows⟩
  · obtain ⟨hmem, huse⟩ := List.mem_filter.mp h
    simp only [Bool.and_eq_true] at huse
    exact ⟨hmem, huse.1.1, Or.inr ⟨rfl, huse.1.1, huse.1.2, huse.2⟩⟩

theorem localUsableEndpoints_eq_nil {candidates : List Endpoint} {nodeIp : IpAddr} :
    localUsableEndpoints candidates nodeIp = [] ↔
      ∀ e ∈ candidates, e.isLocal nodeIp = true → ¬ e.Usable .onlyLocal nodeIp := by
  constructor
  · intro h e he hlocal huse
    unfold localUsableEndpoints at h
    dsimp only at h
    split at h
    · rename_i hready
      exact hready h
    · rename_i hready
      rcases huse with hflows | ⟨_, _, hserving, hterminating⟩
      · exact hready (List.ne_nil_of_mem (List.mem_filter.mpr ⟨he, by simp [hlocal, hflows]⟩))
      · exact List.ne_nil_of_mem (List.mem_filter.mpr ⟨he, by simp [hlocal, hserving, hterminating]⟩) h
  · intro h
    by_contra hne
    obtain ⟨e, he⟩ := List.exists_mem_of_ne_nil _ hne
    obtain ⟨hmem, hlocal, huse⟩ := mem_localUsableEndpoints he
    exact h e hmem hlocal huse

/-- Only usable endpoints are chosen. -/
theorem mem_chosenEndpoints {policy : EndpointPolicy} {candidates : List Endpoint} {nodeIp : IpAddr} {e : Endpoint}
    (h : e ∈ chosenEndpoints policy candidates nodeIp) : e ∈ candidates ∧ e.Usable policy nodeIp := by
  unfold chosenEndpoints at h
  split at h
  · dsimp only at h
    split at h
    · exact ⟨(List.mem_filter.mp h).1, Or.inl (List.mem_filter.mp h).2⟩
    · obtain ⟨hmem, _, huse⟩ := mem_localUsableEndpoints h
      exact ⟨hmem, huse⟩
  · exact ⟨(List.mem_filter.mp h).1, Or.inl (List.mem_filter.mp h).2⟩

/-- **None is chosen** exactly if none is usable. -/
theorem chosenEndpoints_eq_nil {policy : EndpointPolicy} {candidates : List Endpoint} {nodeIp : IpAddr} :
    chosenEndpoints policy candidates nodeIp = [] ↔ ∀ e ∈ candidates, ¬ e.Usable policy nodeIp := by
  constructor
  · intro h e he huse
    rcases huse with hflows | ⟨rfl, hlocal, hserving, hterminating⟩
    · have hmem : e ∈ candidates.filter Endpoint.takesNewFlows := List.mem_filter.mpr ⟨he, hflows⟩
      unfold chosenEndpoints at h
      split at h
      · dsimp only at h
        split at h
        · exact List.ne_nil_of_mem hmem h
        · rename_i hne
          exact hne h
      · exact List.ne_nil_of_mem hmem h
    · have hne : localUsableEndpoints candidates nodeIp ≠ [] := fun hnil =>
        localUsableEndpoints_eq_nil.mp hnil e he hlocal (Or.inr ⟨rfl, hlocal, hserving, hterminating⟩)
      simp only [chosenEndpoints] at h
      rw [if_neg hne] at h
      exact hne h
  · intro h
    by_contra hne
    obtain ⟨e, he⟩ := List.exists_mem_of_ne_nil _ hne
    obtain ⟨hmem, huse⟩ := mem_chosenEndpoints he
    exact h e hmem huse

/-- How good an endpoint is to a policy: a front uses the best ones there are, and none of tier `0`. To `OnlyLocal` a
    local endpoint is better than any other, even while it drains. -/
def Endpoint.tier (e : Endpoint) (policy : EndpointPolicy) (nodeIp : IpAddr) : Nat :=
  if policy = .onlyLocal ∧ e.isLocal nodeIp = true then
    if e.takesNewFlows then 3 else if e.serving && e.terminating then 2 else 0
  else if e.takesNewFlows then 1 else 0

section
variable {policy : EndpointPolicy} {nodeIp : IpAddr} {e : Endpoint} {l : List Endpoint}

theorem Endpoint.tier_of_ne (h : policy ≠ .onlyLocal) : e.tier policy nodeIp = if e.takesNewFlows then 1 else 0 := by
  unfold Endpoint.tier
  rw [if_neg fun hlocal => h hlocal.1]

theorem Endpoint.tier_onlyLocal (e : Endpoint) (nodeIp : IpAddr) :
    e.tier .onlyLocal nodeIp ≤ 3 ∧
      (e.tier .onlyLocal nodeIp == 3) = (e.isLocal nodeIp && e.takesNewFlows) ∧
      (e.tier .onlyLocal nodeIp == 2) = (e.isLocal nodeIp && e.serving && e.terminating) ∧
      (e.tier .onlyLocal nodeIp == 1) = (!e.isLocal nodeIp && e.takesNewFlows) := by
  unfold Endpoint.tier Endpoint.takesNewFlows
  cases e.isLocal nodeIp <;> cases e.ready <;> cases e.serving <;> cases e.terminating <;> simp

/-- **The choice** is the best tier there is. -/
theorem chosenEndpoints_eq_tier (policy : EndpointPolicy) (l : List Endpoint) (nodeIp : IpAddr) :
    ∃ k, chosenEndpoints policy l nodeIp = l.filter (fun e => e.tier policy nodeIp == k) ∧
      0 < k ∧ (∀ e ∈ l, e.tier policy nodeIp ≤ k) ∧ (k = 1 ∨ ∃ e ∈ l, e.tier policy nodeIp = k) := by
  have hattained : ∀ k, l.filter (fun e => e.tier policy nodeIp == k) ≠ [] →
      ∃ e ∈ l, e.tier policy nodeIp = k := by
    intro k hk
    obtain ⟨e, he⟩ := List.exists_mem_of_ne_nil _ hk
    exact ⟨e, (List.mem_filter.mp he).1, beq_iff_eq.mp (List.mem_filter.mp he).2⟩
  have hlower : ∀ k, (∀ e ∈ l, e.tier policy nodeIp ≤ k + 1) →
      l.filter (fun e => e.tier policy nodeIp == k + 1) = [] → ∀ e ∈ l, e.tier policy nodeIp ≤ k := by
    intro k hle hnil e he
    have hne := List.filter_eq_nil_iff.mp hnil e he
    rw [beq_iff_eq] at hne
    exact Nat.le_of_lt_succ (lt_of_le_of_ne (hle e he) hne)
  by_cases hpolicy : policy = .onlyLocal
  · subst hpolicy
    simp only [chosenEndpoints, localUsableEndpoints, ← (Endpoint.tier_onlyLocal _ nodeIp).2.1,
      ← (Endpoint.tier_onlyLocal _ nodeIp).2.2.1, ne_eq, ite_not]
    have hthree : ∀ e ∈ l, e.tier .onlyLocal nodeIp ≤ 3 := fun e _ => (e.tier_onlyLocal nodeIp).1
    by_cases hready : l.filter (fun e => e.tier .onlyLocal nodeIp == 3) = []
    · have htwo := hlower 2 hthree hready
      by_cases hdrains : l.filter (fun e => e.tier .onlyLocal nodeIp == 2) = []
      · -- no local endpoint is left, so what takes new flows is remote
        refine ⟨1, ?_, Nat.one_pos, hlower 1 htwo hdrains, Or.inl rfl⟩
        rw [if_pos hready, if_pos hdrains]
        refine List.filter_congr fun e he => ?_
        have hnone := List.filter_eq_nil_iff.mp hready e he
        rw [(e.tier_onlyLocal nodeIp).2.1] at hnone
        rw [(e.tier_onlyLocal nodeIp).2.2.2]
        cases hlocal : e.isLocal nodeIp with
        | false => rfl
        | true => simpa [hlocal] using hnone
      · refine ⟨2, ?_, Nat.two_pos, htwo, Or.inr (hattained 2 hdrains)⟩
        rw [if_pos hready, if_neg hdrains]
    · refine ⟨3, ?_, by decide, hthree, Or.inr (hattained 3 hready)⟩
      rw [if_neg hready, if_neg hready]
  · refine ⟨1, ?_, Nat.one_pos, fun e _ => ?_, Or.inl rfl⟩
    · have hchosen : chosenEndpoints policy l nodeIp = l.filter Endpoint.takesNewFlows := by
        unfold chosenEndpoints
        cases policy <;> first | rfl | exact absurd rfl hpolicy
      rw [hchosen]
      refine List.filter_congr fun e _ => ?_
      rw [Endpoint.tier_of_ne hpolicy]
      cases e.takesNewFlows <;> rfl
    · rw [Endpoint.tier_of_ne hpolicy]
      split <;> omega

/-- An endpoint is used if it can be, and no candidate is better. -/
theorem mem_chosenEndpoints_iff : e ∈ chosenEndpoints policy l nodeIp ↔
    e ∈ l ∧ 0 < e.tier policy nodeIp ∧ ∀ e' ∈ l, e'.tier policy nodeIp ≤ e.tier policy nodeIp := by
  obtain ⟨k, hchosen, hpos, hbest, hk⟩ := chosenEndpoints_eq_tier policy l nodeIp
  rw [hchosen, List.mem_filter, beq_iff_eq]
  refine and_congr_right fun he => ⟨?_, fun ⟨hsome, hmost⟩ => le_antisymm (hbest e he) ?_⟩
  · rintro rfl
    exact ⟨hpos, hbest⟩
  · rcases hk with rfl | ⟨e', he', rfl⟩
    · exact hsome
    · exact hmost e' he'

end

/-- The choice drops endpoints; it moves none. -/
theorem chosenEndpoints_eq_filter (policy : EndpointPolicy) (candidates : List Endpoint) (nodeIp : IpAddr) :
    ∃ p, chosenEndpoints policy candidates nodeIp = candidates.filter p := by
  obtain ⟨k, hchosen, -⟩ := chosenEndpoints_eq_tier policy candidates nodeIp
  exact ⟨_, hchosen⟩

theorem chosenEndpoints_perm {policy : EndpointPolicy} {l l' : List Endpoint} {nodeIp : IpAddr} (h : l.Perm l') :
    (chosenEndpoints policy l nodeIp).Perm (chosenEndpoints policy l' nodeIp) := by
  have hlocal : (localUsableEndpoints l nodeIp).Perm (localUsableEndpoints l' nodeIp) := by
    have hready := h.filter fun e => e.isLocal nodeIp && e.takesNewFlows
    unfold localUsableEndpoints
    dsimp only
    by_cases hnil : l.filter (fun e => e.isLocal nodeIp && e.takesNewFlows) = []
    · have hnil' := (hnil ▸ hready).nil_eq
      rw [if_neg (not_not.mpr hnil), if_neg (not_not.mpr hnil'.symm)]
      exact h.filter _
    · have hne : l'.filter (fun e => e.isLocal nodeIp && e.takesNewFlows) ≠ [] := fun hnil' =>
        hnil (List.Perm.eq_nil (hnil' ▸ hready))
      rw [if_pos hnil, if_pos hne]
      exact hready
  unfold chosenEndpoints
  cases policy with
  | uniform => exact h.filter _
  | preferLocal => exact h.filter _
  | onlyLocal =>
    dsimp only
    by_cases hnil : localUsableEndpoints l nodeIp = []
    · have hnil' := (hnil ▸ hlocal).nil_eq
      rw [if_pos hnil, if_pos hnil'.symm]
      exact h.filter _
    · have hne : localUsableEndpoints l' nodeIp ≠ [] := fun hnil' => hnil (List.Perm.eq_nil (hnil' ▸ hlocal))
      rw [if_neg hnil, if_neg hne]
      exact hlocal

theorem eligibleEndpoints_perm (policy : EndpointPolicy) (candidates : List Endpoint) (nodeIp : IpAddr) :
    (eligibleEndpoints policy candidates nodeIp).Perm (chosenEndpoints policy candidates nodeIp) :=
  List.perm_insertionSort _ _

/-! ## Requests -/

variable [Host]

/-- The key a request is for. -/
def FrontRequest.key (r : FrontRequest) : LbFrontKey := frontKey r.frontIp r.port.port r.port.protocol

omit [Host] in
/-- The number the port of a request resolves to. -/
def FrontRequest.targetPort (r : FrontRequest) : Option UInt16 :=
  WatchState.resolveTargetPort r.port (WatchState.unionPorts r.slices)

namespace WatchState

/-- The front a request asks for, its port resolved. -/
def requested (s : WatchState) (node : NodeContext) (r : FrontRequest) (targetPort : UInt16) : DesiredFront :=
  (serviceView r.svc r.slices r.frontIp).frontOf (s.endpointSlices node r.slices).flatten node
    { port := r.port.port, protocol := r.port.protocol, targetPort }

omit [Host] in
/-- The endpoints of a request: those of its Service that have its target port, in the family of its address. -/
def candidates (s : WatchState) (node : NodeContext) (r : FrontRequest) (targetPort : UInt16) : List Endpoint :=
  matchingEndpoints (s.endpointSlices node r.slices).flatten r.frontIp targetPort

omit [Host] in
/-- Some endpoint of the request can be used. -/
def HasUsable (s : WatchState) (node : NodeContext) (r : FrontRequest) : Prop :=
  ∃ t, r.targetPort = some t ∧ ∃ e ∈ s.candidates node r t, e.Usable r.svc.policy node.nodeIp

omit [Host] in
/-- All requests, in the order they are met. -/
def requests (s : WatchState) : List FrontRequest :=
  s.services.entries.flatMap fun e => (s.frontIps.filter fun ip => e.2.frontsFamily (.of ip)).flatMap fun ip =>
    e.2.ports.map fun p => ⟨e.2, s.slicesOf e.1, ip, p⟩

/-- The requests for a key that are met. -/
def owners (s : WatchState) (key : LbFrontKey) : List FrontRequest :=
  s.requests.filter fun r => r.key = key ∧ r.targetPort.isSome = true

omit [Host] in
theorem mem_requests {s : WatchState} {r : FrontRequest} : r ∈ s.requests ↔
    ∃ key, s.services.lookup key = some r.svc ∧ r.slices = s.slicesOf key ∧ r.port ∈ r.svc.ports ∧
      r.frontIp ∈ s.frontIps ∧ r.svc.frontsFamily (.of r.frontIp) = true := by
  simp only [requests, List.mem_flatMap, List.mem_filter, List.mem_map]
  constructor
  · rintro ⟨⟨key, svc⟩, hsvc, ip, ⟨hip, hfamily⟩, p, hp, rfl⟩
    exact ⟨key, AList.mem_lookup_iff.mpr hsvc, rfl, hp, hip, hfamily⟩
  · rintro ⟨key, hsvc, hslices, hport, hip, hfamily⟩
    exact ⟨⟨key, r.svc⟩, AList.mem_lookup_iff.mp hsvc, r.frontIp, ⟨hip, hfamily⟩, r.port, hport, by rw [← hslices]⟩

theorem mem_owners {s : WatchState} {key : LbFrontKey} {r : FrontRequest} :
    r ∈ s.owners key ↔ r ∈ s.requests ∧ r.key = key ∧ r.targetPort.isSome = true := by
  simp [owners]

/-- The writes are the requests that are met. -/
theorem frontWrites_eq (s : WatchState) (node : NodeContext) :
    s.frontWrites node = s.requests.filterMap fun r => r.targetPort.map fun t => (r.key, s.requested node r t) := by
  unfold frontWrites requests
  rw [List.filterMap_flatMap]
  refine List.flatMap_congr fun e _ => ?_
  unfold serviceWrites
  rw [List.filterMap_flatMap]
  refine List.flatMap_congr fun ip _ => ?_
  unfold portWrites resolvedPorts
  rw [List.map_filterMap, List.filterMap_map]
  refine List.filterMap_congr fun p _ => ?_
  simp only [Option.map_map, Function.comp_apply, FrontRequest.targetPort]
  rfl

/-- **Whose front it is.** The last request for a key that is met decides. -/
theorem lookup_fronts_owners {s : WatchState} (hlisted : s.fullyListed = true) (node : NodeContext)
    (key : LbFrontKey) : (s.desired node).fronts.lookup key =
      ((s.owners key).getLast?).bind fun r => r.targetPort.map (s.requested node r) := by
  rw [lookup_fronts, if_pos hlisted, frontWrites_eq]
  unfold owners
  induction s.requests using List.reverseRecOn with
  | nil => rfl
  | append_singleton requests r ih =>
    rw [List.filterMap_append, Table.lastValue_append, List.filter_append, ih]
    cases ht : r.targetPort with
    | none => simp [ht, Table.lastValue]
    | some t =>
      by_cases hkey : r.key = key
      · simp [ht, hkey, Table.lastValue]
      · simp [ht, hkey, Table.lastValue]

/-- A front without endpoints is one whose request finds none that can be used. -/
theorem requested_endpoints_eq_nil {s : WatchState} {node : NodeContext} {r : FrontRequest} {t : UInt16}
    (ht : r.targetPort = some t) : (s.requested node r t).endpoints = [] ↔ ¬ s.HasUsable node r := by
  have hchosen : (s.requested node r t).endpoints = [] ↔
      chosenEndpoints r.svc.policy (s.candidates node r t) node.nodeIp = [] := by
    show List.map _ (eligibleEndpoints r.svc.policy (s.candidates node r t) node.nodeIp) = [] ↔ _
    rw [List.map_eq_nil_iff]
    constructor
    · intro h
      exact List.Perm.eq_nil (h ▸ (eligibleEndpoints_perm _ _ _).symm)
    · intro h
      exact List.Perm.eq_nil (h ▸ eligibleEndpoints_perm _ _ _)
  rw [hchosen, chosenEndpoints_eq_nil]
  constructor
  · rintro h ⟨t', ht', e, he, huse⟩
    obtain rfl := Option.some_inj.mp (ht.symm.trans ht')
    exact h e he huse
  · intro h e he huse
    exact h ⟨t, ht, e, he, huse⟩

end WatchState

end Beep
