import Beep.Common.SlotFairness
import Beep.Loader.FrontSwap.Written
import Beep.Controller.Correctness.UniformSelection
import Mathlib.Data.List.TakeWhile

/-!
# `Controller.Correctness.LocalPrefix` — local endpoints come first

A front that prefers local endpoints has them in its first slots, and `FRONT_META` says how many there are: the
controller sorts them there, the planner counts them, and the dataplane drops a new flow that it hashes to a
slot of the prefix without the flag. The three fit together (`local_prefix_contract`): over maps that only
reconciled fronts were written to, a new flow is dropped for want of an endpoint only.
-/

namespace Beep

/-! ## Slot order -/

/-- The endpoints of `OnlyLocal` are all of the node, or none is. -/
theorem chosenEndpoints_onlyLocal (candidates : List Endpoint) (nodeIp : IpAddr) :
    (∀ e ∈ chosenEndpoints .onlyLocal candidates nodeIp, e.isLocal nodeIp = true) ∨
      ∀ e ∈ chosenEndpoints .onlyLocal candidates nodeIp, e.isLocal nodeIp = false := by
  unfold chosenEndpoints
  simp only
  split
  · -- no local endpoint is usable, so none is ready
    rename_i hnone
    right
    intro e he
    obtain ⟨hmem, htakes⟩ := List.mem_filter.mp he
    cases hlocal : e.isLocal nodeIp with
    | false => rfl
    | true =>
      unfold localUsableEndpoints at hnone
      simp only at hnone
      split at hnone
      · contradiction
      · rename_i hready
        rw [not_not, List.filter_eq_nil_iff] at hready
        exact absurd (by simp [hlocal, htakes]) (hready e hmem)
  · left
    intro e he
    unfold localUsableEndpoints at he
    simp only at he
    split at he
    · have hboth := (List.mem_filter.mp he).2
      exact (Bool.and_eq_true_iff.mp hboth).1
    · have hall := (List.mem_filter.mp he).2
      exact (Bool.and_eq_true_iff.mp (Bool.and_eq_true_iff.mp hall).1).1

theorem mem_eligibleEndpoints {policy : EndpointPolicy} {candidates : List Endpoint} {nodeIp : IpAddr} {e : Endpoint} :
    e ∈ eligibleEndpoints policy candidates nodeIp ↔ e ∈ chosenEndpoints policy candidates nodeIp :=
  (List.perm_insertionSort _ _).mem_iff

/-- **Slot order.** Under a policy that prefers local endpoints, they come first. -/
theorem eligibleEndpoints_local_first {policy : EndpointPolicy} (hpolicy : policy ≠ .uniform)
    (candidates : List Endpoint) (nodeIp : IpAddr) :
    (eligibleEndpoints policy candidates nodeIp).Pairwise fun a b =>
      b.isLocal nodeIp = true → a.isLocal nodeIp = true := by
  cases policy with
  | uniform => exact absurd rfl hpolicy
  | preferLocal =>
    refine (StableSort.pairwise_sortByRank (slotRank .preferLocal nodeIp) _).imp fun {a b} hrank hb => ?_
    cases ha : a.isLocal nodeIp with
    | true => rfl
    | false =>
      have hfirst := (Prod.Lex.le_iff.mp hrank)
      simp [slotRank, ha, hb] at hfirst
  | onlyLocal =>
    refine List.pairwise_of_forall_mem_list fun a ha b hb hlocal => ?_
    rw [mem_eligibleEndpoints] at ha hb
    rcases chosenEndpoints_onlyLocal candidates nodeIp with hall | hnone
    · exact hall a ha
    · rw [hnone b hb] at hlocal
      cases hlocal

/-! ## A reconciled front -/

/-- The slot is flagged as one of the node. -/
def FrontEndpoint.isLocal (e : FrontEndpoint) : Bool := e.flags &&& endpointFlagIsLocal != 0

variable [Host]

@[simp] theorem isLocal_toSlot (e : Endpoint) (targetPort : UInt16) (nodeIp : IpAddr) :
    (e.toSlot targetPort nodeIp).isLocal = e.isLocal nodeIp := by
  unfold FrontEndpoint.isLocal Endpoint.toSlot
  cases e.isLocal nodeIp with
  | false => simp
  | true => simp [endpointFlagIsLocal]

section
variable {svc : ServiceView} {slices : List (List Endpoint)} {node : NodeContext} {key : LbFrontKey} {front : DesiredFront}

theorem frontOf_of_lookup (h : (reconcileService svc slices node).fronts.lookup key = some front) :
    ∃ port, front = svc.frontOf slices.flatten node port := by
  rw [lookup_reconcileService] at h
  obtain ⟨port, _, rfl⟩ := Option.map_eq_some_iff.mp h
  exact ⟨port, rfl⟩

omit [Host] in
theorem toNat_localCount (hlen : front.endpoints.length ≤ 65535) :
    front.localCount.toNat =
      if front.preferLocal then (front.endpoints.takeWhile FrontEndpoint.isLocal).length else 0 := by
  unfold DesiredFront.localCount
  cases front.preferLocal with
  | false => rfl
  | true =>
    have hle := (List.takeWhile_sublist (l := front.endpoints) FrontEndpoint.isLocal).length_le
    simp only [Bool.not_true, Bool.false_eq_true, if_false, if_true]
    rw [UInt16.toNat_ofNat']
    exact Nat.mod_eq_of_lt (Nat.lt_succ_of_le (hle.trans hlen))

omit [Host] in
/-- The prefix is in range. -/
theorem localCount_le (hlen : front.endpoints.length ≤ 65535) : front.localCount.toNat ≤ front.endpoints.length := by
  rw [toNat_localCount hlen]
  split
  · exact (List.takeWhile_sublist _).length_le
  · exact Nat.zero_le _

/-- **The prefix** is the slots that are flagged. -/
theorem isLocal_iff_lt_localCount (h : (reconcileService svc slices node).fronts.lookup key = some front)
    (hlen : front.endpoints.length ≤ 65535) (hprefer : front.preferLocal = true) {i : Nat}
    (hi : i < front.endpoints.length) : front.endpoints[i].isLocal = true ↔ i < front.localCount.toNat := by
  rw [toNat_localCount hlen, if_pos hprefer]
  obtain ⟨port, rfl⟩ := frontOf_of_lookup h
  have hpolicy : svc.policy ≠ .uniform := by
    simpa [ServiceView.frontOf] using hprefer
  refine StableSort.getElem_leading_iff ?_ hi
  refine List.pairwise_map.mpr ((eligibleEndpoints_local_first hpolicy _ _).imp fun {a b} hab => ?_)
  rw [isLocal_toSlot, isLocal_toSlot]
  exact hab

/-- Under `OnlyLocal` the prefix is empty or everything. -/
theorem localCount_onlyLocal (h : (reconcileService svc slices node).fronts.lookup key = some front)
    (hlen : front.endpoints.length ≤ 65535) (hpolicy : svc.policy = .onlyLocal) :
    front.localCount.toNat = 0 ∨ front.localCount.toNat = front.endpoints.length := by
  rw [toNat_localCount hlen]
  obtain ⟨port, rfl⟩ := frontOf_of_lookup h
  have hprefer : (svc.frontOf slices.flatten node port).preferLocal = true := by
    simp [ServiceView.frontOf, hpolicy]
  rw [if_pos hprefer]
  have hslots : ∀ slot ∈ (svc.frontOf slices.flatten node port).endpoints, ∃ e ∈ chosenEndpoints .onlyLocal
      (matchingEndpoints slices.flatten svc.frontIp port.targetPort) node.nodeIp,
      slot.isLocal = e.isLocal node.nodeIp := by
    intro slot hslot
    obtain ⟨e, he, rfl⟩ := List.mem_map.mp hslot
    rw [mem_eligibleEndpoints, hpolicy] at he
    exact ⟨e, he, isLocal_toSlot ..⟩
  rcases chosenEndpoints_onlyLocal (matchingEndpoints slices.flatten svc.frontIp port.targetPort) node.nodeIp with
    hall | hnone
  · right
    congr 1
    refine List.takeWhile_eq_self_iff.mpr fun slot hslot => ?_
    obtain ⟨e, he, heq⟩ := hslots slot hslot
    rw [heq]
    exact hall e he
  · left
    rw [List.length_eq_zero_iff, List.takeWhile_eq_nil_iff]
    intro hpos
    obtain ⟨e, he, heq⟩ := hslots _ (List.getElem_mem hpos)
    rw [List.get_eq_getElem, heq, hnone e he]
    exact Bool.false_ne_true

end

/-! ## Steering -/

/-- A new flow of the front finds an endpoint, unless there is none. -/
def FrontView.Answers (v : FrontView) : Prop :=
  ∀ hash, v.count ≠ 0 → ∃ slot e, selectEndpointSlot hash v.count v.localCount = some slot ∧
    v.endpoints[slot.toNat]? = some (some e) ∧ (v.localCount = 0 ∨ e.isLocal = true)

omit [Host] in
/-- What a view answers the maps answer. -/
theorem FrontView.Answers.steers {s : FrontStore} {f : LbFrontKey} {m : FrontMeta} {v : FrontView}
    (h : v.Answers) (hv : s.view f = some v) (hm : s.metas.lookup f = some m) {hash : UInt32}
    (hdrop : ingressSteer m none none hash f (fun key => s.endpoints.lookup key) = .drop) : m.count = 0 := by
  unfold FrontStore.view at hv
  rw [hm, Option.map_some, Option.some_inj] at hv
  subst hv
  by_contra hcount
  obtain ⟨slot, e, hslot, hrow, hlocal⟩ := h hash hcount
  obtain ⟨hlt, hlookup⟩ := List.getElem?_eq_some_iff.mp hrow
  rw [List.getElem_map, List.getElem_range, endpointKey, UInt16.ofNat_toNat] at hlookup
  have hflag : m.localCount = 0 ∨ e.flags &&& endpointFlagIsLocal ≠ 0 := by
    unfold FrontEndpoint.isLocal at hlocal
    rwa [bne_iff_ne] at hlocal
  unfold ingressSteer at hdrop
  simp only [Option.or_none, if_neg hcount, hslot, hlookup, if_pos hflag] at hdrop
  cases hdrop

/-- **A reconciled front answers.** -/
theorem answers_of_reconciled {svc : ServiceView} {slices : List (List Endpoint)} {node : NodeContext}
    {key : LbFrontKey} {front : DesiredFront} (h : (reconcileService svc slices node).fronts.lookup key = some front)
    (hlen : front.endpoints.length ≤ 65535) : front.view.Answers := by
  intro hash hcount
  have hready : front.count.toNat = front.endpoints.length := count_toNat hlen
  have hle := localCount_le hlen
  have hsome : selectEndpointSlot hash front.count front.localCount ≠ none := by
    rw [Ne, selectEndpointSlot_eq_none, not_or, gt_iff_lt, UInt16.lt_iff_toNat_lt]
    exact ⟨by omega, hcount⟩
  obtain ⟨slot, hslot⟩ := Option.ne_none_iff_exists'.mp hsome
  have hrange := selectEndpointSlot_lt_range hslot
  refine ⟨slot, ?_⟩
  have hlt : slot.toNat < front.endpoints.length := by
    rw [UInt16.lt_iff_toNat_lt] at hrange
    unfold slotRange at hrange
    split at hrange
    · omega
    · omega
  refine ⟨front.endpoints[slot.toNat], hslot, ?_, ?_⟩
  · show (front.endpoints.map some)[slot.toNat]? = _
    rw [List.getElem?_map, List.getElem?_eq_getElem hlt, Option.map_some]
  · by_cases hzero : front.localCount = 0
    · exact Or.inl hzero
    · right
      -- a slot of the prefix
      have hpos : 0 < front.localCount := UInt16.pos_iff_ne_zero.mpr hzero
      have hprefer : front.preferLocal = true := by
        cases hprefer : front.preferLocal with
        | true => rfl
        | false =>
          refine absurd (UInt16.toNat_inj.mp ?_) hzero
          rw [toNat_localCount hlen, hprefer]
          rfl
      rw [slotRange, if_pos hpos, UInt16.lt_iff_toNat_lt] at hrange
      exact (isLocal_iff_lt_localCount h hlen hprefer hlt).mpr hrange

/-- A front of some reconciled Service, with no more endpoints than slots. -/
def Reconciled (f : LbFrontKey) (want : DesiredFront) : Prop :=
  (∃ svc slices node, (reconcileService svc slices node).fronts.lookup f = some want) ∧ want.endpoints.length ≤ 65535

/-- The two front maps after passes for reconciled fronts, each of which may fail at anything and be stopped
    anywhere. -/
inductive ReconciledMaps : FrontStore → Prop
  | empty : ReconciledMaps { metas := ∅, endpoints := ∅ }
  | pass {s : FrontStore} {fails : FrontLog → FrontWrite → Option MapError} {order : IterationOrder LbFrontKey}
      {desired : Table LbFrontKey DesiredFront} {pruneAbsent : Bool} {keepPrevious : Finset LbFrontKey}
      {used : FrontUsage} {cap : FrontCapacity} {p : FrontLog} (h : ReconciledMaps s)
      (hd : ∀ f want, desired.lookup f = some want → Reconciled f want)
      (hp : p <+: (frontPass fails order s desired pruneAbsent keepPrevious used cap).1) :
      ReconciledMaps (storeAfter s p)

/-- Whatever a reader finds there answers. -/
theorem ReconciledMaps.answers {s : FrontStore} (h : ReconciledMaps s) :
    s.Complete ∧ ∀ f v, s.view f = some v → v.Answers := by
  induction h with
  | empty =>
    refine ⟨fun f m hm => ?_, fun f v hv => ?_⟩
    · cases hm
    · cases hv
  | @pass s fails order desired pruneAbsent keepPrevious used cap p _ hd hp ih =>
    obtain ⟨hcomplete, hanswers⟩ := ih
    have hfront := fun f => (readerSafe_frontPass fails order s desired pruneAbsent keepPrevious used cap hcomplete
      (fun f want hwant => (hd f want hwant).2) f).of_log List.prefix_rfl hp
    refine ⟨fun f => (hfront f).2.1, fun f v hv => ?_⟩
    rcases (hfront f).1 with hsame | htarget
    · exact hanswers f v (hsame ▸ hv)
    · rw [htarget] at hv
      unfold targetView at hv
      cases hwant : desired.lookup f with
      | some want =>
        rw [hwant] at hv
        obtain rfl := Option.some_inj.mp hv
        obtain ⟨⟨svc, slices, node, hfront⟩, hlen⟩ := hd f want hwant
        exact answers_of_reconciled hfront hlen
      | none =>
        rw [hwant] at hv
        simp only at hv
        split at hv
        · cases hv
        · exact hanswers f v hv

/-- **The local prefix** between the reconciler, the planner and the dataplane: it is in range, it is the flagged
    slots, and a new flow is dropped only where there is no endpoint, over maps that were only ever written for
    reconciled fronts as well as over any maps once a pass has written the front. -/
theorem local_prefix_contract :
    (∀ svc slices node key front, (reconcileService svc slices node).fronts.lookup key = some front →
      front.endpoints.length ≤ 65535 →
      front.localCount.toNat ≤ front.endpoints.length ∧
      (front.preferLocal = true → ∀ i (hi : i < front.endpoints.length),
        front.endpoints[i].isLocal = true ↔ i < front.localCount.toNat) ∧
      (svc.policy = .onlyLocal →
        front.localCount.toNat = 0 ∨ front.localCount.toNat = front.endpoints.length)) ∧
    (∀ s, ReconciledMaps s → ∀ f m hash, s.metas.lookup f = some m →
      ingressSteer m none none hash f (fun key => s.endpoints.lookup key) = .drop → m.count = 0) ∧
    ∀ fails order s desired pruneAbsent keepPrevious used cap f want, desired.lookup f = some want →
      Reconciled f want →
      (∀ e ∈ (frontPass fails order s desired pruneAbsent keepPrevious used cap).2.failures, e.1 ≠ f) →
      ∀ m hash, (storeAfter s (frontPass fails order s desired pruneAbsent keepPrevious used cap).1).metas.lookup f =
          some m →
        ingressSteer m none none hash f (fun key =>
          (storeAfter s (frontPass fails order s desired pruneAbsent keepPrevious used cap).1).endpoints.lookup key) =
          .drop → m.count = 0 := by
  refine ⟨?_, ?_, ?_⟩
  · intro svc slices node key front h hlen
    exact ⟨localCount_le hlen, fun hprefer i hi => isLocal_iff_lt_localCount h hlen hprefer hi,
      localCount_onlyLocal h hlen⟩
  · intro s hs f m hash hm hdrop
    obtain ⟨v, hv⟩ : ∃ v, s.view f = some v := by
      unfold FrontStore.view
      rw [hm, Option.map_some]
      exact ⟨_, rfl⟩
    exact (hs.answers.2 f v hv).steers hv hm hdrop
  · intro fails order s desired pruneAbsent keepPrevious used cap f want hd hwant hreport m hash hm hdrop
    obtain ⟨⟨svc, slices, node, hfront⟩, hlen⟩ := hwant
    obtain ⟨m', hserves⟩ := serves_of_reported hd hreport
    exact (answers_of_reconciled hfront hlen).steers (hserves.view hlen) hm hdrop

end Beep
