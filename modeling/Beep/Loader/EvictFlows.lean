import Beep.Ebpf.Frames
import Mathlib.Data.Finset.Dedup
import Mathlib.Data.Finset.Lattice.Basic

/-!
# `Loader.EvictFlows` — the conntrack eviction of departed pods

`evict_pod_flows` of `src/lib.rs`: every entry of `FWD_PENDING` and every `Forward` row of `FLOW_TABLE` that names one
of the pods, and every `Reverse` or `PortMemo` row that is keyed on one, is collected first and removed afterwards.
Between the two, and between any two removals, the programs go on writing both maps: `NamedOnly` says that rows of the
pods are left under collected keys only.
-/

namespace Beep

variable [Host]

/-! ## What is collected -/

/-- `stale_forward_entries`: the keys of the entries that name one of the pods. -/
def staleForwardEntries {K : Type} (entries : List (K × ForwardFlowValue)) (departedPods : Finset (Bytes 16)) :
    List K :=
  (entries.filter fun e => e.2.backend.podIp ∈ departedPods).map Prod.fst

/-- The pod a `Reverse` or `PortMemo` row is keyed on. -/
def FlowKey.otherIp (key : FlowKey) : Bytes 16 :=
  (decodeTcpFlowKey (Bytes.slice key 0 37 tcpFlowKey_fits)).2.2.1

/-- `stale_flow_table_keys`: the keys that embed one of the pods. -/
def staleFlowTableKeys (keys : List FlowKey) (departedPods : Finset (Bytes 16)) : List FlowKey :=
  keys.filter fun key => key.otherIp ∈ departedPods

namespace Node

/-- The `FLOW_TABLE` rows of the `Forward` role. -/
def forwardEntries (n : Node) : List (FlowKey × ForwardFlowValue) :=
  (n.flowTable.entries.filter fun e => flowKeyDirection e.1 = some .forward).map fun e => (e.1, e.2.forward)

/-- The `FLOW_TABLE` keys of the other two roles. -/
def reverseAndPortMemoKeys (n : Node) : List FlowKey :=
  n.flowTable.keys.filter fun key =>
    flowKeyDirection key = some .reverse || flowKeyDirection key = some .portMemo

/-- The `FWD_PENDING` entries. -/
def pendingEntries (n : Node) : List (TcpFlowKey × ForwardFlowValue) :=
  n.fwdPending.entries.map fun e => (e.1, e.2)

/-- What `evict_pod_flows` collects: keys of `FWD_PENDING` and of `FLOW_TABLE`. -/
def evictPodFlows (n : Node) (departedPods : Finset (Bytes 16)) : List TcpFlowKey × List FlowKey :=
  (staleForwardEntries n.pendingEntries departedPods,
    staleForwardEntries n.forwardEntries departedPods ++ staleFlowTableKeys n.reverseAndPortMemoKeys departedPods)

/-- `orphaned_pin_backends` before `backends_absent_from`: the pods named by a forward pin. -/
def pinnedBackends (n : Node) : Finset (Bytes 16) :=
  (n.pendingEntries.map fun e => e.2.backend.podIp).toFinset ∪
    (n.forwardEntries.map fun e => e.2.backend.podIp).toFinset

/-! ## Rows of a pod -/

/-- A `FWD_PENDING` entry or a `Forward` row names the pod. -/
def PinsPod (n : Node) (pod : Bytes 16) : Prop :=
  (∃ key v, n.fwdPending.lookup key = some v ∧ v.backend.podIp = pod) ∨
    ∃ key v, flowKeyDirection key = some .forward ∧ n.flowTableGetForward key = some v ∧ v.backend.podIp = pod

/-- A `Reverse` or `PortMemo` row is keyed on the pod. -/
def KeysPod (n : Node) (pod : Bytes 16) : Prop :=
  ∃ key, (flowKeyDirection key = some .reverse ∨ flowKeyDirection key = some .portMemo) ∧ key.otherIp = pod ∧
    n.flowTable.lookup key ≠ none

end Node

/-- Every entry and row of the pods is under one of the given keys. -/
structure NamedOnly (pods : Bytes 16 → Prop) (pending : List TcpFlowKey) (flows : List FlowKey) (n : Node) : Prop where
  pending : ∀ key v, n.fwdPending.lookup key = some v → pods v.backend.podIp → key ∈ pending
  forward : ∀ key v, flowKeyDirection key = some .forward → n.flowTableGetForward key = some v →
    pods v.backend.podIp → key ∈ flows
  keyed : ∀ key, flowKeyDirection key = some .reverse ∨ flowKeyDirection key = some .portMemo → pods key.otherIp →
    n.flowTable.lookup key ≠ none → key ∈ flows

section
variable {n : Node} {pods : Bytes 16 → Prop} {pending : List TcpFlowKey} {flows : List FlowKey}

theorem otherIp_encodeFlowKey (c : Bytes 16) (cp : UInt16) (o : Bytes 16) (op : UInt16) (p : UInt8)
    (d : FlowDirection) : FlowKey.otherIp (encodeFlowKey c cp o op p d) = o := by
  unfold FlowKey.otherIp encodeFlowKey
  rw [Bytes.slice_append_left, Bytes.slice_all]
  · exact decodeTcpFlowKey_other c cp o op p
  all_goals omega

@[simp] theorem otherIp_revKey (f : ClientFlow) (port : UInt16) : (f.revKey port).otherIp = f.podIp :=
  otherIp_encodeFlowKey ..

@[simp] theorem otherIp_memoKey (f : ClientFlow) : f.memoKey.otherIp = f.podIp :=
  otherIp_encodeFlowKey ..

/-- With no key left, no row of the pods is. -/
theorem NamedOnly.clear (h : NamedOnly pods [] [] n) {pod : Bytes 16} (hpod : pods pod) :
    ¬ n.PinsPod pod ∧ ¬ n.KeysPod pod := by
  constructor
  · rintro (⟨key, v, hv, rfl⟩ | ⟨key, v, hkey, hv, rfl⟩)
    · exact absurd (h.pending key v hv hpod) List.not_mem_nil
    · exact absurd (h.forward key v hkey hv hpod) List.not_mem_nil
  · rintro ⟨key, hkey, rfl, hrow⟩
    exact absurd (h.keyed key hkey hpod hrow) List.not_mem_nil

/-- **Collecting**: every row of the pods is under a collected key. -/
theorem NamedOnly.collected (n : Node) {departedPods : Finset (Bytes 16)} (h : ∀ pod, pods pod → pod ∈ departedPods) :
    NamedOnly pods (n.evictPodFlows departedPods).1 (n.evictPodFlows departedPods).2 n where
  pending key v hv hpod := by
    have hentry : (key, v) ∈ n.pendingEntries :=
      List.mem_map.mpr ⟨⟨key, v⟩, AList.mem_lookup_iff.mp hv, rfl⟩
    exact List.mem_map.mpr ⟨(key, v), List.mem_filter.mpr ⟨hentry, decide_eq_true (h _ hpod)⟩, rfl⟩
  forward key v hkey hv hpod := by
    obtain ⟨value, hvalue, rfl⟩ := Option.map_eq_some_iff.mp hv
    have hentry : (key, value.forward) ∈ n.forwardEntries :=
      List.mem_map.mpr ⟨⟨key, value⟩,
        List.mem_filter.mpr ⟨AList.mem_lookup_iff.mp hvalue, decide_eq_true hkey⟩, rfl⟩
    exact List.mem_append_left _ (List.mem_map.mpr
      ⟨(key, value.forward), List.mem_filter.mpr ⟨hentry, decide_eq_true (h _ hpod)⟩, rfl⟩)
  keyed key hkey hpod hrow := by
    have hmem : key ∈ n.reverseAndPortMemoKeys := by
      refine List.mem_filter.mpr ⟨(Table.mem_keys_iff _ _).mpr (Option.ne_none_iff_exists'.mp hrow), ?_⟩
      simpa using hkey
    exact List.mem_append_right _ (List.mem_filter.mpr ⟨hmem, decide_eq_true (h _ hpod)⟩)

/-- **Removing** a collected `FWD_PENDING` key. -/
theorem NamedOnly.dropPending {key : TcpFlowKey} (h : NamedOnly pods (key :: pending) flows n) :
    NamedOnly pods pending flows (n.step (.dropPending key)) where
  pending key' v hv hpod := by
    replace hv : (n.fwdPending.erase key).lookup key' = some v := hv
    rw [Table.lookup_erase_ite] at hv
    split at hv
    · cases hv
    · rename_i hne
      exact (List.mem_cons.mp (h.pending key' v hv hpod)).resolve_left hne
  forward := h.forward
  keyed := h.keyed

/-- **Removing** a collected `FLOW_TABLE` key. -/
theorem NamedOnly.dropFlow {key : FlowKey} (h : NamedOnly pods pending (key :: flows) n) :
    NamedOnly pods pending flows (n.step (.dropFlow key)) where
  pending := h.pending
  forward key' v hkey hv hpod := by
    by_cases hne : key' = key
    · replace hv : ((n.flowTable.erase key).lookup key').map FlowValue.forward = some v := hv
      rw [Table.lookup_erase_ite, if_pos hne] at hv
      cases hv
    · rw [Node.flowTableGetForward, lookup_step_dropFlow hne] at hv
      exact (List.mem_cons.mp (h.forward key' v hkey hv hpod)).resolve_left hne
  keyed key' hkey hpod hrow := by
    by_cases hne : key' = key
    · replace hrow : (n.flowTable.erase key).lookup key' ≠ none := hrow
      rw [Table.lookup_erase_ite, if_pos hne] at hrow
      exact absurd rfl hrow
    · rw [lookup_step_dropFlow hne] at hrow
      exact (List.mem_cons.mp (h.keyed key' hkey hpod hrow)).resolve_left hne

end

/-! ## Packets meanwhile -/

namespace Node

/-- The endpoint that the first packet of a flow is hashed to. -/
def freshEndpoint (n : Node) (f : IngressFlow) : Option LbFrontBackend := do
  let m ← n.frontMeta.lookup f.front
  let seed ← n.config.map (·.flowHashSeed)
  match ingressSteer m none none (frontFlowHash seed f.clientIp f.clientPort f.front m) f.front
      (fun key => n.frontEndpoints.lookup key) with
  | .forward backend _ => some backend
  | .drop => none

/-- An uplink packet is the first of a flow, and is pinned to the backend. -/
def StartsFlow (n : Node) (h : Helpers) (f : IngressFlow) (backend : LbFrontBackend) : Prop :=
  n.flowTableGetForward f.fwdKey = none ∧ n.fwdPending.lookup f.flowKey = none ∧
    n.freshEndpoint f = some backend ∧ h .pendingInsert = true

/-- A forward packet that is taken and writes nothing new: it needs no memo, and its row is refused or it is a reset. -/
def LeavesNoRow (n : Node) (h : Helpers) (skb : Skb) (p : ForwardPacket) : Prop :=
  (n.flowTableGetPortMemo p.flow.memoKey ≠ none ∨ n.PortFree p.flow p.flow.clientPort) ∧
    (h .flowInsert = false ∨ ∃ tcpFlags, tcpFlagsDirect skb p.flow.proto (ethHlen + p.family.ipHlen) = some tcpFlags ∧
      IsRst p.flow.proto tcpFlags)

end Node

/-- A return packet makes a pending flow an established one. -/
def PromotesTo (n : Node) (h : Helpers) (skb : Skb) (p : ReturnPacket) (v : ForwardFlowValue) : Prop :=
  n.flowTableGetForward p.fwdKey = none ∧ n.fwdPending.lookup p.flowKey = some v ∧ h .flowInsert = true ∧
    ∃ tcpFlags, tcpFlagsDirect skb p.inner.proto (ethHlen + p.family.ipHlen) = some tcpFlags ∧
      ¬ IsRst p.inner.proto tcpFlags

/-- The event gives none of the pods an entry or a row: no flow is started on one of them, none is established, and no
    forward packet for one leaves a row. -/
def KeepsClear (pods : Bytes 16 → Prop) (n : Node) : NodeEvent → Prop
  | .uplinkIngress skb h => ∀ f l2Hlen backend, ingressAdmit n skb = some (f, l2Hlen) →
      n.StartsFlow h f backend → ¬ pods backend.podIp
  | .geneveIngress skb h =>
      (∀ p, decapForwardAdmit n skb = some p → pods p.flow.podIp → n.LeavesNoRow h skb p) ∧
        ∀ p v, decapReturnAdmit n skb = some p → PromotesTo n h skb p v → ¬ pods v.backend.podIp
  | _ => True

section
variable {n : Node} {pods : Bytes 16 → Prop} {pending : List TcpFlowKey} {flows : List FlowKey}

/-- The only entry a steered packet adds is the one of a flow it starts. -/
theorem lookup_fwdPending_steer {h : Helpers} {f : IngressFlow} {ifindex : UInt32} {key : TcpFlowKey}
    {v : ForwardFlowValue} (hv : (n.steer h f ifindex).1.fwdPending.lookup key = some v) :
    n.fwdPending.lookup key = some v ∨ n.StartsFlow h f v.backend := by
  unfold Node.steer Node.ingressBackend at hv
  cases hmeta : n.frontMeta.lookup f.front with
  | none =>
    rw [hmeta] at hv
    exact Or.inl hv
  | some m =>
    cases hconfig : n.config with
    | none =>
      simp only [hmeta, hconfig, Option.map_none] at hv
      exact Or.inl hv
    | some c =>
      cases hrow : n.flowTableGetForward f.fwdKey with
      | some row =>
        simp only [hmeta, hconfig, hrow, Option.map_some, Option.isSome_some, if_true, forwardAdmission,
          ingressSteer_pinned (show Option.or (some row) none = some row from rfl)] at hv
        left
        rcases touchForwardRow_cases n h f.fwdKey row f.front.proto f.tcpFlags .client with heq | ⟨flags, heq⟩
        · rw [heq] at hv
          exact hv
        · rw [heq] at hv
          exact hv
      | none =>
        cases hpin : n.fwdPending.lookup f.flowKey with
        | some pin =>
          simp only [hmeta, hconfig, hrow, hpin, Option.map_some, Option.isSome_none, Bool.false_eq_true, if_false,
            forwardAdmission, fwdPendingAffinityPin,
            ingressSteer_pinned (show Option.or none (some pin) = some pin from rfl)] at hv
          exact Or.inl hv
        | none =>
          simp only [hmeta, hconfig, hrow, hpin, Option.map_some, Option.isSome_none, Bool.false_eq_true,
            if_false] at hv
          split at hv
          · exact Or.inl hv
          · rename_i backend targetPort hsteer
            simp only [forwardAdmission, Bool.false_eq_true, if_false, fwdPendingAffinityPin] at hv
            split at hv
            · rename_i hins
              replace hv : (n.fwdPending.insert f.flowKey _).lookup key = some v := hv
              rw [Table.lookup_insert_ite] at hv
              split at hv
              · right
                refine ⟨hrow, hpin, ?_, hins⟩
                unfold Node.freshEndpoint
                simp only [hmeta, hconfig, Option.map_some, Option.bind_eq_bind, Option.bind_some, hsteer]
                rw [← Option.some_inj.mp hv]
              · exact Or.inl hv
            · exact Or.inl hv

/-- Rows that go take nothing with them. -/
theorem NamedOnly.of_sub {n' : Node} (hn : NamedOnly pods pending flows n)
    (hpending : ∀ key v, n'.fwdPending.lookup key = some v → n.fwdPending.lookup key = some v)
    (hflows : ∀ key v, n'.flowTable.lookup key = some v → n.flowTable.lookup key = some v) :
    NamedOnly pods pending flows n' where
  pending key v hv := hn.pending key v (hpending key v hv)
  forward key v hkey hv := by
    obtain ⟨value, hvalue, rfl⟩ := Option.map_eq_some_iff.mp hv
    exact hn.forward key value.forward hkey (Option.map_eq_some_iff.mpr ⟨value, hflows key value hvalue, rfl⟩)
  keyed key hkey hpod hrow := by
    obtain ⟨value, hvalue⟩ := Option.ne_none_iff_exists'.mp hrow
    refine hn.keyed key hkey hpod ?_
    rw [hflows key value hvalue]
    exact fun h => nomatch h

/-- A row that is written: it is not one of the pods', or its key is given. -/
theorem NamedOnly.insert {key : FlowKey} {value : FlowValue} (hn : NamedOnly pods pending flows n)
    (hforward : flowKeyDirection key = some .forward → pods value.forward.backend.podIp → key ∈ flows)
    (hkeyed : flowKeyDirection key = some .reverse ∨ flowKeyDirection key = some .portMemo → pods key.otherIp →
      key ∈ flows) : NamedOnly pods pending flows (n.flowTableInsert key value) where
  pending := hn.pending
  forward key' v hkey hv hpod := by
    rw [flowTableGetForward_insert] at hv
    split at hv
    · rename_i hsame
      subst hsame
      rw [← Option.some_inj.mp hv] at hpod
      exact hforward hkey hpod
    · exact hn.forward key' v hkey hv hpod
  keyed key' hkey hpod hrow := by
    rw [lookup_flowTableInsert] at hrow
    split at hrow
    · rename_i hsame
      subst hsame
      exact hkeyed hkey hpod
    · exact hn.keyed key' hkey hpod hrow

omit [Host] in
/-- A forward key is no other. -/
theorem not_keyed_of_forward {key : FlowKey} (hkey : flowKeyDirection key = some .forward) :
    ¬ (flowKeyDirection key = some .reverse ∨ flowKeyDirection key = some .portMemo) := by
  rw [hkey]
  simp

/-- A touched forward row names the backend it named. -/
theorem NamedOnly.touchForwardRow {key : FlowKey} {v : ForwardFlowValue} (hn : NamedOnly pods pending flows n)
    (hkey : flowKeyDirection key = some .forward) (hrow : n.flowTableGetForward key = some v) (h : Helpers)
    (proto tcpFlags : UInt8) (side : FlowSide) :
    NamedOnly pods pending flows (n.touchForwardRow h key v proto tcpFlags side) := by
  rcases touchForwardRow_cases n h key v proto tcpFlags side with heq | ⟨flags, heq⟩
  · rw [heq]
    exact hn
  · rw [heq]
    refine hn.insert (fun _ hpod => ?_) fun hother => absurd hother (not_keyed_of_forward hkey)
    rw [FlowValue.forward_fromForward] at hpod
    exact hn.forward key v hkey hrow hpod

/-- **An uplink packet** that starts no flow on one of the pods. -/
theorem NamedOnly.steer (hn : NamedOnly pods pending flows n) {h : Helpers} {f : IngressFlow} {ifindex : UInt32}
    (hstart : ∀ backend, n.StartsFlow h f backend → ¬ pods backend.podIp) :
    NamedOnly pods pending flows (n.steer h f ifindex).1 := by
  have hpending : ∀ key v, (n.steer h f ifindex).1.fwdPending.lookup key = some v → pods v.backend.podIp →
      key ∈ pending := by
    intro key v hv hpod
    rcases lookup_fwdPending_steer hv with hold | hnew
    · exact hn.pending key v hold hpod
    · exact absurd hpod (hstart v.backend hnew)
  generalize hres : n.steer h f ifindex = res at hpending ⊢
  have hs := steer_steered n h f ifindex
  rw [hres] at hs
  cases hs with
  | notFront _ | pending _ _ _ _ | unpinned _ _ => exact hn
  | missed _ _ => exact ⟨hn.pending, hn.forward, hn.keyed⟩
  | minted _ _ _ _ => exact ⟨hpending, hn.forward, hn.keyed⟩
  | established _ _ hrow => exact hn.touchForwardRow (direction_ingressFwdKey f) hrow h _ _ _

theorem NamedOnly.removePending (hn : NamedOnly pods pending flows n) (h : Helpers) (key : TcpFlowKey) :
    NamedOnly pods pending flows (n.removePending h key) := by
  refine hn.of_sub (fun key' v hv => ?_) fun key' v hv => ?_
  · unfold Node.removePending at hv
    split at hv
    · replace hv : (n.fwdPending.erase key).lookup key' = some v := hv
      rw [Table.lookup_erase_ite] at hv
      split at hv
      · cases hv
      · exact hv
    · exact hv
  · rw [flowTable_removePending] at hv
    exact hv

/-- **A return packet** that establishes no flow of one of the pods. -/
theorem NamedOnly.authorizeReturn (hn : NamedOnly pods pending flows n) {h : Helpers} {skb : Skb} {p : ReturnPacket}
    {tcpFlags : UInt8}
    (hread : tcpFlagsDirect skb p.inner.proto (ethHlen + p.family.ipHlen) = some tcpFlags)
    (hpromote : ∀ v, PromotesTo n h skb p v → ¬ pods v.backend.podIp) :
    NamedOnly pods pending flows (n.authorizeReturn h p tcpFlags).1 := by
  generalize hres : n.authorizeReturn h p tcpFlags = res
  have ha := authorizeReturn_authorized n h p tcpFlags
  rw [hres] at ha
  cases ha with
  | established hrow => exact hn.touchForwardRow (direction_returnFwdKey p) hrow h _ _ _
  | unknown _ _ | refused _ _ _ => exact hn
  | reset _ _ _ => exact hn.removePending h p.flowKey
  | @promoted v flags hrow hpin hrst hins =>
    refine (hn.insert (fun _ hpod => ?_) fun hother => ?_).removePending h p.flowKey
    · rw [FlowValue.forward_fromForward] at hpod
      exact absurd hpod (hpromote v ⟨hrow, hpin, hins, tcpFlags, hread, hrst⟩)
    · exact absurd hother (not_keyed_of_forward (direction_returnFwdKey p))

omit [Host] in
/-- A key of the other two roles is no forward key. -/
theorem not_forward_of_keyed {key : FlowKey} {d : FlowDirection} (hkey : flowKeyDirection key = some d)
    (hd : d ≠ .forward) : flowKeyDirection key ≠ some .forward := by
  rw [hkey]
  exact fun h => hd (Option.some_inj.mp h)

/-- **A forward packet** for another pod, or one that leaves no row. -/
theorem NamedOnly.decapForwardCommit (hn : NamedOnly pods pending flows n) {h : Helpers} {skb : Skb}
    {p : ForwardPacket} (hrow : pods p.flow.podIp → n.LeavesNoRow h skb p) :
    NamedOnly pods pending flows (decapForwardCommit n h skb p).1 := by
  rcases decapForwardCommit_cases n h skb p with heq | ⟨n₁, port, hchosen, hn₁⟩
  · rw [heq]
    exact hn
  · have hmemo : NamedOnly pods pending flows n₁ ∧ (pods p.flow.podIp → n₁ = n) := by
      cases hchosen with
      | memoized _ | natural _ _ => exact ⟨hn, fun _ => rfl⟩
      | remapped hnone htaken _ _ =>
        have hother : ¬ pods p.flow.podIp := by
          intro hpod
          rcases (hrow hpod).1 with hmemo | hfree
          · exact hmemo hnone
          · exact htaken hfree
        refine ⟨hn.insert (fun hkey => ?_) fun _ hpod => ?_, fun hpod => absurd hpod hother⟩
        · exact absurd hkey (not_forward_of_keyed (direction_memoKey p.flow) (by decide))
        · rw [otherIp_memoKey] at hpod
          exact absurd hpod hother
    rcases hn₁ with heq | ⟨tcpFlags, flags, hread, hins, hflags, heq⟩
    · rw [heq]
      exact hmemo.1
    · rw [heq]
      refine hmemo.1.insert (fun hkey => ?_) fun hkey hpod => ?_
      · exact absurd hkey (not_forward_of_keyed (direction_revKey p.flow port) (by decide))
      · -- only a reset writes here, and it finds its row
        rw [otherIp_revKey] at hpod
        obtain rfl := hmemo.2 hpod
        rcases (hrow hpod).2 with hno | ⟨tcpFlags', hread', hrst⟩
        · rw [hins] at hno
          cases hno
        · obtain rfl := Option.some_inj.mp (hread'.symm.trans hread)
          have hown : n₁.flowTableGetReverse (p.flow.revKey port) ≠ none := by
            intro hnone
            have hskip : n₁.reverseRowFlags (p.flow.revKey port) p.flow.identity _ _ = none :=
              reverseRowFlags_eq_none.mpr ⟨hrst, fun v hv => by rw [hnone] at hv; cases hv⟩
            rw [hflags] at hskip
            cases hskip
          refine hn.keyed _ hkey (by rw [otherIp_revKey]; exact hpod) fun hnone => hown ?_
          unfold Node.flowTableGetReverse
          rw [hnone]
          rfl

/-- A reply of a pod touches the row it was sent through. -/
theorem NamedOnly.tunnelReply (hn : NamedOnly pods pending flows n) (h : Helpers) (skb : Skb) (p : ReplyPacket) :
    NamedOnly pods pending flows (tunnelReply n h skb p).1 := by
  rcases tunnelReply_fst n h skb p with heq | ⟨rev, tcpFlags, hrev, heq⟩
  · rw [heq]
    exact hn
  · rw [heq]
    rcases touchReturnRow_cases n h p.key rev p.proto tcpFlags with heq | ⟨flags, _, heq⟩
    · rw [heq]
      exact hn
    · rw [heq]
      refine hn.insert (fun hkey => ?_) fun hkey hpod => hn.keyed _ hkey hpod fun hnone => ?_
      · exact absurd hkey (not_forward_of_keyed (direction_replyKey p) (by decide))
      · rw [Node.flowTableGetReverse, hnone] at hrev
        cases hrev

/-- **The step**: an event that keeps the pods clear gives them no row under another key. -/
theorem NamedOnly.traffic (hn : NamedOnly pods pending flows n) {e : NodeEvent} (he : KeepsClear pods n e) :
    NamedOnly pods pending flows (n.step e) := by
  cases e with
  | uplinkIngress skb h =>
    simp only [Node.step, uplinkIngress_fst]
    cases hadm : ingressAdmit n skb with
    | none => exact hn
    | some found => exact hn.steer fun backend => he found.1 found.2 backend hadm
  | geneveIngress skb h =>
    cases hfwd : decapForwardAdmit n skb with
    | some p =>
      simp only [Node.step, geneveIngress_forward hfwd, deliverForward_fst]
      exact hn.decapForwardCommit (he.1 p hfwd)
    | none =>
      cases hret : decapReturnAdmit n skb with
      | some p =>
        simp only [Node.step, geneveIngress_return hret, deliverReturn_fst]
        cases hread : tcpFlagsDirect skb p.inner.proto (ethHlen + p.family.ipHlen) with
        | none => exact hn
        | some tcpFlags => exact hn.authorizeReturn hread fun v => he.2 p v hret
      | none =>
        obtain ⟨v, hv⟩ := geneveIngress_other (h := h) hfwd hret
        simp only [Node.step, hv]
        exact hn
  | uplinkEgress skb h =>
    cases hp : egressAdmit n skb with
    | none =>
      obtain ⟨skb', hskb'⟩ := uplinkEgressReturn_other (h := h) hp
      simp only [Node.step, hskb']
      exact hn
    | some p =>
      simp only [Node.step, uplinkEgressReturn_reply hp]
      exact hn.tunnelReply h skb p
  | dropFlow key =>
    refine hn.of_sub (fun key' v hv => hv) fun key' v hv => ?_
    by_cases hne : key' = key
    · replace hv : (n.flowTable.erase key).lookup key' = some v := hv
      rw [Table.lookup_erase_ite, if_pos hne] at hv
      cases hv
    · rw [lookup_step_dropFlow hne] at hv
      exact hv
  | dropPending key =>
    refine hn.of_sub (fun key' v hv => ?_) fun key' v hv => hv
    replace hv : (n.fwdPending.erase key).lookup key' = some v := hv
    rw [Table.lookup_erase_ite] at hv
    split at hv
    · cases hv
    · exact hv
  | setFronts _ _ | setConfig _ | setPodTargets _ | setNodeAllow _ | setUplinks _ =>
    exact ⟨hn.pending, hn.forward, hn.keyed⟩

end

end Beep
