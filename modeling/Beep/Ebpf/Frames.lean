import Beep.Ebpf.Rows

/-!
# `Ebpf.Frames` — what one event leaves alone

A node plays two parts. As a **backend** it owns the `Reverse` and `PortMemo` rows; as an **ingress** node it
owns the `Forward` rows and the pending pins. `BackendFrame` and `IngressFrame` say that a step leaves one
part alone, and `step_backend`, `step_ingress` name the only events that do not: a proof about one part never
looks at the programs of the other.
-/

namespace Beep

variable [Host]

/-! ## The two frames -/

/-- A reverse row without its flags: what a touch leaves alone. -/
def RevFlowValue.core (row : RevFlowValue) : RevFlowValue := { row with flags := 0 }

omit [Host] in
/-- Rows of one core have one identity. -/
theorem identity_of_core {row row' : RevFlowValue} (h : row.core = row'.core) :
    row.identity = row'.identity := by
  show row.core.identity = row'.core.identity
  rw [h]

/-- The backend's rows are the same, but for the flags of the reverse ones. -/
structure BackendFrame (n n' : Node) : Prop where
  reverse : ∀ key, flowKeyDirection key = some .reverse →
    (n'.flowTableGetReverse key).map RevFlowValue.core = (n.flowTableGetReverse key).map RevFlowValue.core
  memo : ∀ key, flowKeyDirection key = some .portMemo →
    n'.flowTableGetPortMemo key = n.flowTableGetPortMemo key

/-- The forward rows and the pending pins are the same. -/
structure IngressFrame (n n' : Node) : Prop where
  forward : ∀ key, flowKeyDirection key = some .forward → n'.flowTable.lookup key = n.flowTable.lookup key
  pending : n'.fwdPending = n.fwdPending

theorem BackendFrame.of_flowTable {n n' : Node} (h : n'.flowTable = n.flowTable) : BackendFrame n n' where
  reverse key _ := by simp only [Node.flowTableGetReverse, h]
  memo key _ := by simp only [Node.flowTableGetPortMemo, h]

omit [Host] in
theorem IngressFrame.of_eq {n n' : Node} (h : n'.flowTable = n.flowTable)
    (hpending : n'.fwdPending = n.fwdPending) : IngressFrame n n' where
  forward key _ := by rw [h]
  pending := hpending

/-- A row that survives a frame has its core. -/
theorem BackendFrame.row {n n' : Node} (hf : BackendFrame n n') {key : FlowKey}
    (hkey : flowKeyDirection key = some .reverse) {row : RevFlowValue}
    (hrow : n.flowTableGetReverse key = some row) :
    ∃ row', n'.flowTableGetReverse key = some row' ∧ row'.core = row.core := by
  have h := hf.reverse key hkey
  rw [hrow] at h
  exact Option.map_eq_some_iff.mp h

omit [Host] in
theorem lookup_flowTableInsert (n : Node) (key key' : FlowKey) (v : FlowValue) :
    (n.flowTableInsert key v).flowTable.lookup key' = if key' = key then some v else n.flowTable.lookup key' :=
  Table.lookup_insert_ite ..

/-- An insert under a forward key is no business of the backend. -/
theorem BackendFrame.insert_forward (n : Node) {key : FlowKey} (hkey : flowKeyDirection key = some .forward)
    (v : FlowValue) : BackendFrame n (n.flowTableInsert key v) where
  reverse key' hkey' := by
    rw [flowTableGetReverse_insert, if_neg (ne_of_direction hkey' hkey (by decide))]
  memo key' hkey' := by
    rw [flowTableGetPortMemo_insert, if_neg (ne_of_direction hkey' hkey (by decide))]

omit [Host] in
/-- An insert under any other key is no business of the ingress node. -/
theorem IngressFrame.insert (n : Node) {key : FlowKey} (hkey : flowKeyDirection key ≠ some .forward)
    (v : FlowValue) : IngressFrame n (n.flowTableInsert key v) where
  forward key' hkey' := by
    rw [lookup_flowTableInsert, if_neg]
    rintro rfl
    exact hkey hkey'
  pending := rfl

omit [Host] in
theorem IngressFrame.trans {n n' n'' : Node} (h : IngressFrame n n') (h' : IngressFrame n' n'') :
    IngressFrame n n'' where
  forward key hkey := (h'.forward key hkey).trans (h.forward key hkey)
  pending := h'.pending.trans h.pending

/-! ## The functions that write -/

theorem BackendFrame.touchForwardRow (n : Node) (h : Helpers) {key : FlowKey}
    (hkey : flowKeyDirection key = some .forward) (v : ForwardFlowValue) (proto tcpFlags : UInt8)
    (side : FlowSide) : BackendFrame n (n.touchForwardRow h key v proto tcpFlags side) := by
  rcases touchForwardRow_cases n h key v proto tcpFlags side with heq | ⟨flags, heq⟩
  · rw [heq]
    exact .of_flowTable rfl
  · rw [heq]
    exact .insert_forward n hkey _

/-- A touch rewrites the flags of the row it read. -/
theorem BackendFrame.touchReturnRow {n : Node} {key : FlowKey} {rev : RevFlowValue}
    (hkey : flowKeyDirection key = some .reverse) (hrev : n.flowTableGetReverse key = some rev) (h : Helpers)
    (proto tcpFlags : UInt8) : BackendFrame n (n.touchReturnRow h key rev proto tcpFlags) := by
  rcases touchReturnRow_cases n h key rev proto tcpFlags with heq | ⟨flags, _, heq⟩
  · rw [heq]
    exact .of_flowTable rfl
  · rw [heq]
    constructor
    · intro key' _
      rw [flowTableGetReverse_insert]
      by_cases hsame : key' = key
      · rw [if_pos hsame, hsame, hrev]
        rfl
      · rw [if_neg hsame]
    · intro key' hkey'
      rw [flowTableGetPortMemo_insert, if_neg (ne_of_direction hkey' hkey (by decide))]

omit [Host] in
theorem IngressFrame.touchReturnRow (n : Node) (h : Helpers) {key : FlowKey} (rev : RevFlowValue)
    (hkey : flowKeyDirection key = some .reverse) (proto tcpFlags : UInt8) :
    IngressFrame n (n.touchReturnRow h key rev proto tcpFlags) := by
  rcases touchReturnRow_cases n h key rev proto tcpFlags with heq | ⟨flags, _, heq⟩
  · rw [heq]
    exact .of_eq rfl rfl
  · rw [heq]
    exact .insert n (by rw [hkey]; decide) _

omit [Host] in
@[simp] theorem flowTable_removePending (n : Node) (h : Helpers) (key : TcpFlowKey) :
    (n.removePending h key).flowTable = n.flowTable := by
  unfold Node.removePending
  split <;> rfl

/-- Steering a packet only touches its forward row. -/
theorem BackendFrame.steer (n : Node) (h : Helpers) (f : IngressFlow) (ifindex : UInt32) :
    BackendFrame n (n.steer h f ifindex).1 := by
  generalize hres : n.steer h f ifindex = res
  have hs := steer_steered n h f ifindex
  rw [hres] at hs
  cases hs with
  | notFront _ | pending _ _ _ _ | minted _ _ _ _ | unpinned _ _ | missed _ _ => exact .of_flowTable rfl
  | established _ _ _ => exact .touchForwardRow n h (direction_ingressFwdKey f) _ _ _ _

/-- Authorizing a return packet only touches or writes its forward row. -/
theorem BackendFrame.authorizeReturn (n : Node) (h : Helpers) (p : ReturnPacket) (tcpFlags : UInt8) :
    BackendFrame n (n.authorizeReturn h p tcpFlags).1 := by
  generalize hres : n.authorizeReturn h p tcpFlags = res
  have ha := authorizeReturn_authorized n h p tcpFlags
  rw [hres] at ha
  cases ha with
  | established _ => exact .touchForwardRow n h (direction_returnFwdKey p) _ _ _ _
  | unknown _ _ | refused _ _ _ => exact .of_flowTable rfl
  | reset _ _ _ => exact .of_flowTable (flowTable_removePending ..)
  | promoted _ _ _ _ =>
    have hins := BackendFrame.insert_forward n (direction_returnFwdKey p)
    constructor
    · intro key hkey
      simp only [Node.flowTableGetReverse, flowTable_removePending]
      exact (hins _).reverse key hkey
    · intro key hkey
      simp only [Node.flowTableGetPortMemo, flowTable_removePending]
      exact (hins _).memo key hkey

/-- A forward packet at the backend writes no forward row and no pin. -/
theorem IngressFrame.decapForwardCommit (n : Node) (h : Helpers) (skb : Skb) (p : ForwardPacket) :
    IngressFrame n (decapForwardCommit n h skb p).1 := by
  rcases decapForwardCommit_cases n h skb p with heq | ⟨n₁, port, hchosen, hn⟩
  · rw [heq]
    exact .of_eq rfl rfl
  · have hmemo : IngressFrame n n₁ := by
      cases hchosen with
      | memoized _ | natural _ _ => exact .of_eq rfl rfl
      | remapped _ _ _ _ => exact .insert n (by rw [direction_memoKey]; decide) _
    rcases hn with heq | ⟨tcpFlags, flags, _, _, _, heq⟩
    · rw [heq]
      exact hmemo
    · rw [heq]
      exact hmemo.trans (.insert n₁ (by rw [direction_revKey]; decide) _)

/-! ## What only the controller writes -/

/-- The maps of the controller and the loader are the same. -/
structure SameSettings (n n' : Node) : Prop where
  frontMeta : n'.frontMeta = n.frontMeta
  frontEndpoints : n'.frontEndpoints = n.frontEndpoints
  podTargets : n'.podTargets = n.podTargets
  nodeAllow : n'.nodeAllow = n.nodeAllow
  config : n'.config = n.config
  uplinkConfig : n'.uplinkConfig = n.uplinkConfig

omit [Host] in
theorem SameSettings.refl (n : Node) : SameSettings n n := ⟨rfl, rfl, rfl, rfl, rfl, rfl⟩

omit [Host] in
theorem SameSettings.insert (n : Node) (key : FlowKey) (v : FlowValue) :
    SameSettings n (n.flowTableInsert key v) := ⟨rfl, rfl, rfl, rfl, rfl, rfl⟩

omit [Host] in
theorem SameSettings.trans {n n' n'' : Node} (h : SameSettings n n') (h' : SameSettings n' n'') :
    SameSettings n n'' where
  frontMeta := h'.frontMeta.trans h.frontMeta
  frontEndpoints := h'.frontEndpoints.trans h.frontEndpoints
  podTargets := h'.podTargets.trans h.podTargets
  nodeAllow := h'.nodeAllow.trans h.nodeAllow
  config := h'.config.trans h.config
  uplinkConfig := h'.uplinkConfig.trans h.uplinkConfig

omit [Host] in
theorem SameSettings.removePending (n : Node) (h : Helpers) (key : TcpFlowKey) :
    SameSettings n (n.removePending h key) := by
  unfold Node.removePending
  split <;> exact ⟨rfl, rfl, rfl, rfl, rfl, rfl⟩

theorem SameSettings.touchForwardRow (n : Node) (h : Helpers) (key : FlowKey) (v : ForwardFlowValue)
    (proto tcpFlags : UInt8) (side : FlowSide) :
    SameSettings n (n.touchForwardRow h key v proto tcpFlags side) := by
  rcases touchForwardRow_cases n h key v proto tcpFlags side with heq | ⟨flags, heq⟩
  · rw [heq]
    exact .refl n
  · rw [heq]
    exact .insert n _ _

theorem SameSettings.steer (n : Node) (h : Helpers) (f : IngressFlow) (ifindex : UInt32) :
    SameSettings n (n.steer h f ifindex).1 := by
  generalize hres : n.steer h f ifindex = res
  have hs := steer_steered n h f ifindex
  rw [hres] at hs
  cases hs with
  | notFront _ | pending _ _ _ _ | unpinned _ _ => exact .refl n
  | minted _ _ _ _ | missed _ _ => exact ⟨rfl, rfl, rfl, rfl, rfl, rfl⟩
  | established _ _ _ => exact .touchForwardRow ..

theorem SameSettings.authorizeReturn (n : Node) (h : Helpers) (p : ReturnPacket) (tcpFlags : UInt8) :
    SameSettings n (n.authorizeReturn h p tcpFlags).1 := by
  generalize hres : n.authorizeReturn h p tcpFlags = res
  have ha := authorizeReturn_authorized n h p tcpFlags
  rw [hres] at ha
  cases ha with
  | established _ => exact .touchForwardRow ..
  | unknown _ _ | refused _ _ _ => exact .refl n
  | reset _ _ _ => exact .removePending ..
  | promoted _ _ _ _ => exact (SameSettings.insert n _ _).trans (.removePending ..)

theorem SameSettings.decapForwardCommit (n : Node) (h : Helpers) (skb : Skb) (p : ForwardPacket) :
    SameSettings n (decapForwardCommit n h skb p).1 := by
  rcases decapForwardCommit_cases n h skb p with heq | ⟨n₁, port, hchosen, hn⟩
  · rw [heq]
    exact .refl n
  · have hmemo : SameSettings n n₁ := by
      cases hchosen with
      | memoized _ | natural _ _ => exact .refl n
      | remapped _ _ _ _ => exact .insert n _ _
    rcases hn with heq | ⟨tcpFlags, flags, _, _, _, heq⟩
    · rw [heq]
      exact hmemo
    · rw [heq]
      exact hmemo.trans (.insert n₁ _ _)

/-! ## Events -/

/-- Only the row under the key is dropped. -/
theorem lookup_step_dropFlow {n : Node} {key key' : FlowKey} (hne : key' ≠ key) :
    (n.step (.dropFlow key)).flowTable.lookup key' = n.flowTable.lookup key' := by
  show (n.flowTable.erase key).lookup key' = _
  rw [Table.lookup_erase_ite, if_neg hne]

/-- **The backend's part.** Only a forward packet it takes and a dropped row change it. -/
theorem step_backend (n : Node) (e : NodeEvent) :
    (∃ skb h p, e = .geneveIngress skb h ∧ decapForwardAdmit n skb = some p ∧
        n.step e = (decapForwardCommit n h skb p).1) ∨
      (∃ key, e = .dropFlow key) ∨ BackendFrame n (n.step e) := by
  cases e with
  | uplinkIngress skb h =>
    refine Or.inr (Or.inr ?_)
    simp only [Node.step, uplinkIngress_fst]
    cases ingressAdmit n skb with
    | none => exact .of_flowTable rfl
    | some found => exact .steer n h found.1 skb.ingressIfindex
  | geneveIngress skb h =>
    cases hfwd : decapForwardAdmit n skb with
    | some p =>
      refine Or.inl ⟨skb, h, p, rfl, hfwd, ?_⟩
      simp only [Node.step, geneveIngress_forward hfwd, deliverForward_fst]
    | none =>
      refine Or.inr (Or.inr ?_)
      cases hret : decapReturnAdmit n skb with
      | some p =>
        simp only [Node.step, geneveIngress_return hret, deliverReturn_fst]
        cases tcpFlagsDirect skb p.inner.proto (ethHlen + p.family.ipHlen) with
        | none => exact .of_flowTable rfl
        | some tcpFlags => exact .authorizeReturn n h p tcpFlags
      | none =>
        obtain ⟨v, hv⟩ := geneveIngress_other (h := h) hfwd hret
        simp only [Node.step, hv]
        exact .of_flowTable rfl
  | uplinkEgress skb h =>
    refine Or.inr (Or.inr ?_)
    cases hp : egressAdmit n skb with
    | none =>
      obtain ⟨skb', hskb'⟩ := uplinkEgressReturn_other (h := h) hp
      simp only [Node.step, hskb']
      exact .of_flowTable rfl
    | some p =>
      simp only [Node.step, uplinkEgressReturn_reply hp]
      rcases tunnelReply_fst n h skb p with heq | ⟨rev, tcpFlags, hrev, heq⟩
      · rw [heq]
        exact .of_flowTable rfl
      · rw [heq]
        exact .touchReturnRow (direction_replyKey p) hrev h _ _
  | dropFlow key => exact Or.inr (Or.inl ⟨key, rfl⟩)
  | dropPending _ | setFronts _ _ | setConfig _ | setPodTargets _ | setNodeAllow _ | setUplinks _ =>
    exact Or.inr (Or.inr (.of_flowTable rfl))

/-- **The ingress node's part.** Only an uplink packet of a flow, a return packet it takes and a dropped row
    change it. -/
theorem step_ingress (n : Node) (e : NodeEvent) :
    (∃ skb h f l2Hlen, e = .uplinkIngress skb h ∧ ingressAdmit n skb = some (f, l2Hlen) ∧
        n.step e = (n.steer h f skb.ingressIfindex).1) ∨
      (∃ skb h p tcpFlags, e = .geneveIngress skb h ∧ decapReturnAdmit n skb = some p ∧
        tcpFlagsDirect skb p.inner.proto (ethHlen + p.family.ipHlen) = some tcpFlags ∧
        n.step e = (n.authorizeReturn h p tcpFlags).1) ∨
      (∃ key, e = .dropFlow key) ∨ (∃ key, e = .dropPending key) ∨ IngressFrame n (n.step e) := by
  cases e with
  | uplinkIngress skb h =>
    cases hadm : ingressAdmit n skb with
    | none =>
      refine Or.inr (Or.inr (Or.inr (Or.inr ?_)))
      simp only [Node.step, uplinkIngress_fst, hadm]
      exact .of_eq rfl rfl
    | some found =>
      refine Or.inl ⟨skb, h, found.1, found.2, rfl, hadm, ?_⟩
      simp only [Node.step, uplinkIngress_fst, hadm]
  | geneveIngress skb h =>
    cases hfwd : decapForwardAdmit n skb with
    | some p =>
      refine Or.inr (Or.inr (Or.inr (Or.inr ?_)))
      simp only [Node.step, geneveIngress_forward hfwd, deliverForward_fst]
      exact .decapForwardCommit n h skb p
    | none =>
      cases hret : decapReturnAdmit n skb with
      | some p =>
        cases hflags : tcpFlagsDirect skb p.inner.proto (ethHlen + p.family.ipHlen) with
        | none =>
          refine Or.inr (Or.inr (Or.inr (Or.inr ?_)))
          simp only [Node.step, geneveIngress_return hret, deliverReturn_fst, hflags]
          exact .of_eq rfl rfl
        | some tcpFlags =>
          refine Or.inr (Or.inl ⟨skb, h, p, tcpFlags, rfl, hret, hflags, ?_⟩)
          simp only [Node.step, geneveIngress_return hret, deliverReturn_fst, hflags]
      | none =>
        obtain ⟨v, hv⟩ := geneveIngress_other (h := h) hfwd hret
        refine Or.inr (Or.inr (Or.inr (Or.inr ?_)))
        simp only [Node.step, hv]
        exact .of_eq rfl rfl
  | uplinkEgress skb h =>
    refine Or.inr (Or.inr (Or.inr (Or.inr ?_)))
    cases hp : egressAdmit n skb with
    | none =>
      obtain ⟨skb', hskb'⟩ := uplinkEgressReturn_other (h := h) hp
      simp only [Node.step, hskb']
      exact .of_eq rfl rfl
    | some p =>
      simp only [Node.step, uplinkEgressReturn_reply hp]
      rcases tunnelReply_fst n h skb p with heq | ⟨rev, tcpFlags, hrev, heq⟩
      · rw [heq]
        exact .of_eq rfl rfl
      · rw [heq]
        exact .touchReturnRow n h rev (direction_replyKey p) _ _
  | dropFlow key => exact Or.inr (Or.inr (Or.inl ⟨key, rfl⟩))
  | dropPending key => exact Or.inr (Or.inr (Or.inr (Or.inl ⟨key, rfl⟩)))
  | setFronts _ _ | setConfig _ | setPodTargets _ | setNodeAllow _ | setUplinks _ =>
    exact Or.inr (Or.inr (Or.inr (Or.inr (.of_eq rfl rfl))))

/-- A write of the controller or the loader. -/
def NodeEvent.IsControl : NodeEvent → Prop
  | .setFronts _ _ | .setConfig _ | .setPodTargets _ | .setNodeAllow _ | .setUplinks _ => True
  | _ => False

/-- **Settings.** Only the controller and the loader change them. -/
theorem step_settings {n : Node} {e : NodeEvent} (he : ¬ e.IsControl) : SameSettings n (n.step e) := by
  cases e with
  | uplinkIngress skb h =>
    simp only [Node.step, uplinkIngress_fst]
    cases ingressAdmit n skb with
    | none => exact .refl n
    | some found => exact .steer n h found.1 skb.ingressIfindex
  | geneveIngress skb h =>
    cases hfwd : decapForwardAdmit n skb with
    | some p =>
      simp only [Node.step, geneveIngress_forward hfwd, deliverForward_fst]
      exact .decapForwardCommit n h skb p
    | none =>
      cases hret : decapReturnAdmit n skb with
      | some p =>
        simp only [Node.step, geneveIngress_return hret, deliverReturn_fst]
        cases tcpFlagsDirect skb p.inner.proto (ethHlen + p.family.ipHlen) with
        | none => exact .refl n
        | some tcpFlags => exact .authorizeReturn n h p tcpFlags
      | none =>
        obtain ⟨v, hv⟩ := geneveIngress_other (h := h) hfwd hret
        simp only [Node.step, hv]
        exact .refl n
  | uplinkEgress skb h =>
    cases hp : egressAdmit n skb with
    | none =>
      obtain ⟨skb', hskb'⟩ := uplinkEgressReturn_other (h := h) hp
      simp only [Node.step, hskb']
      exact .refl n
    | some p =>
      simp only [Node.step, uplinkEgressReturn_reply hp]
      rcases tunnelReply_fst n h skb p with heq | ⟨rev, tcpFlags, _, heq⟩
      · rw [heq]
        exact .refl n
      · rw [heq]
        rcases touchReturnRow_cases n h p.key rev p.proto tcpFlags with heq | ⟨flags, _, heq⟩
        · rw [heq]
          exact .refl n
        · rw [heq]
          exact .insert n _ _
  | dropFlow _ | dropPending _ => exact ⟨rfl, rfl, rfl, rfl, rfl, rfl⟩
  | setFronts _ _ | setConfig _ | setPodTargets _ | setNodeAllow _ | setUplinks _ => exact absurd trivial he

end Beep
