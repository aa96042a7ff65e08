import Beep.Ebpf.Effects

/-!
# `Ebpf.Rows` — what each map-writing function writes

One lemma per function of `Ebpf.Node`, stated by cases and with every guard, so that no proof above this file
unfolds one of them. A write to `FLOW_TABLE` is a `flowTableInsert` under one key; the keys of the three
roles are distinct by their tag, so an insert in one role never shows in another.
-/

namespace Beep

variable [Host]

/-! ## Reading after an insert -/

omit [Host] in
theorem flowTableGetReverse_insert (n : Node) (key key' : FlowKey) (v : FlowValue) :
    (n.flowTableInsert key v).flowTableGetReverse key' =
      if key' = key then some v.reverse else n.flowTableGetReverse key' := by
  unfold Node.flowTableGetReverse Node.flowTableInsert
  rw [Table.lookup_insert_ite]
  split <;> rfl

theorem flowTableGetForward_insert (n : Node) (key key' : FlowKey) (v : FlowValue) :
    (n.flowTableInsert key v).flowTableGetForward key' =
      if key' = key then some v.forward else n.flowTableGetForward key' := by
  unfold Node.flowTableGetForward Node.flowTableInsert
  rw [Table.lookup_insert_ite]
  split <;> rfl

theorem flowTableGetPortMemo_insert (n : Node) (key key' : FlowKey) (v : FlowValue) :
    (n.flowTableInsert key v).flowTableGetPortMemo key' =
      if key' = key then some v.portMemo else n.flowTableGetPortMemo key' := by
  unfold Node.flowTableGetPortMemo Node.flowTableInsert
  rw [Table.lookup_insert_ite]
  split <;> rfl

omit [Host] in
/-- Keys of different roles are different. -/
theorem ne_of_direction {k k' : FlowKey} {d d' : FlowDirection} (hk : flowKeyDirection k = some d)
    (hk' : flowKeyDirection k' = some d') (hd : d ≠ d') : k ≠ k' := by
  rintro rfl
  rw [hk] at hk'
  exact hd (Option.some_inj.mp hk')

@[simp] theorem direction_revKey (f : ClientFlow) (port : UInt16) :
    flowKeyDirection (f.revKey port) = some .reverse :=
  flowKeyDirection_encodeFlowKey ..

@[simp] theorem direction_memoKey (f : ClientFlow) : flowKeyDirection f.memoKey = some .portMemo :=
  flowKeyDirection_encodeFlowKey ..

@[simp] theorem direction_replyKey (p : ReplyPacket) : flowKeyDirection p.key = some .reverse :=
  flowKeyDirection_encodeFlowKey ..

@[simp] theorem direction_returnFwdKey (p : ReturnPacket) : flowKeyDirection p.fwdKey = some .forward :=
  flowKeyDirection_encodeFlowKey ..

@[simp] theorem direction_ingressFwdKey (f : IngressFlow) : flowKeyDirection f.fwdKey = some .forward :=
  flowKeyDirection_encodeFlowKey ..

/-! ## Touching a row -/

omit [Host] in
/-- A touch leaves the maps alone or rewrites the flags of the row. -/
theorem touchReturnRow_cases (n : Node) (h : Helpers) (key : FlowKey) (rev : RevFlowValue)
    (proto tcpFlags : UInt8) :
    n.touchReturnRow h key rev proto tcpFlags = n ∨
      ∃ flags, flowStep (some rev.flags) proto tcpFlags .pod n.gcParity = .write flags ∧
        n.touchReturnRow h key rev proto tcpFlags =
          n.flowTableInsert key (FlowValue.fromReverse { rev with flags }) := by
  unfold Node.touchReturnRow
  cases hstep : flowStep (some rev.flags) proto tcpFlags .pod n.gcParity with
  | keep | skip => exact Or.inl rfl
  | write flags =>
    by_cases hins : h .flowInsert = true
    · exact Or.inr ⟨flags, rfl, by simp only [hins, if_true]⟩
    · exact Or.inl (by simp only [if_neg hins])

theorem touchForwardRow_cases (n : Node) (h : Helpers) (key : FlowKey) (value : ForwardFlowValue)
    (proto tcpFlags : UInt8) (side : FlowSide) :
    n.touchForwardRow h key value proto tcpFlags side = n ∨
      ∃ flags, n.touchForwardRow h key value proto tcpFlags side =
        n.flowTableInsert key (FlowValue.fromForward { value with flags }) := by
  unfold Node.touchForwardRow
  cases hstep : flowStep (some value.flags) proto tcpFlags side n.gcParity with
  | keep | skip => exact Or.inl rfl
  | write flags =>
    by_cases hins : h .flowInsert = true
    · exact Or.inr ⟨flags, by simp only [hins, if_true]⟩
    · exact Or.inl (by simp only [if_neg hins])

/-! ## The reverse row of a forward packet -/

/-- A TCP reset. -/
def IsRst (proto tcpFlags : UInt8) : Prop := proto = ipprotoTcp ∧ tcpFlags &&& tcpFlagRst ≠ 0

instance (proto tcpFlags : UInt8) : Decidable (IsRst proto tcpFlags) := inferInstanceAs (Decidable (_ ∧ _))

/-- The row of a forward packet, with its flags: `none` where it would be skipped. The flags of a row of the
    flow's own identity are carried on, those of any other row are not. -/
def Node.reverseRowFlags (n : Node) (key : FlowKey) (identity : Occupant) (proto tcpFlags : UInt8) :
    Option UInt16 :=
  let mine := (n.flowTableGetReverse key).filter fun v => v.identity = identity
  match flowStepFlags mine.isSome ((mine.map (·.flags)).getD 0) proto tcpFlags .client n.gcParity with
  | .skip => none
  | step => some (step.flagsAfter ((mine.map (·.flags)).getD 0))

omit [Host] in
theorem occupantConflicts_identity (v : RevFlowValue) (identity : Occupant) :
    (!occupantConflicts (some v.identity) identity.1 identity.2) = decide (v.identity = identity) := by
  unfold occupantConflicts
  by_cases h : v.identity = identity
  · simp [h]
  · simp [h]

omit [Host] in
/-- The row is skipped exactly for a reset that finds no row of its own identity. -/
theorem reverseRowFlags_eq_none {n : Node} {key : FlowKey} {identity : Occupant} {proto tcpFlags : UInt8} :
    n.reverseRowFlags key identity proto tcpFlags = none ↔
      IsRst proto tcpFlags ∧ ∀ v, n.flowTableGetReverse key = some v → v.identity ≠ identity := by
  unfold Node.reverseRowFlags
  simp only
  split
  · rename_i hskip
    obtain ⟨hp, hrst, hmine⟩ := flowStepFlags_skip_iff.mp hskip
    refine ⟨fun _ => ⟨⟨hp, hrst⟩, fun v hv hid => ?_⟩, fun _ => rfl⟩
    rw [hv] at hmine
    simp [Option.filter, hid] at hmine
  · rename_i step hstep
    refine ⟨fun hn => (nomatch hn), fun ⟨hrst, hother⟩ => absurd ?_ hstep⟩
    refine flowStepFlags_skip_iff.mpr ⟨hrst.1, hrst.2, ?_⟩
    cases hv : n.flowTableGetReverse key with
    | none => rfl
    | some v => simp [Option.filter, hother v hv]

omit [Host] in
/-- `commit_reverse_row`: nothing for a skipped packet, else the row holds the packet's identity and the
    flags above, unless the insert is refused. -/
theorem commitReverseRow_eq (n : Node) (h : Helpers) (key : FlowKey) (v : RevFlowValue)
    (proto tcpFlags : UInt8) :
    n.commitReverseRow h key v proto tcpFlags =
      match n.reverseRowFlags key v.identity proto tcpFlags with
      | none => some n
      | some flags =>
          if n.flowTableGetReverse key = some { v with flags } then some n
          else if h .flowInsert then
            some (n.flowTableInsert key (FlowValue.fromReverse { v with flags }))
          else none := by
  have hmine : (n.flowTableGetReverse key).filter (fun w =>
        !occupantConflicts (some w.identity) (v.frontIp, v.frontPort) v.originalClientPort) =
      (n.flowTableGetReverse key).filter fun w => w.identity = v.identity := by
    refine congrArg (fun p => Option.filter p _) (funext fun w => ?_)
    exact occupantConflicts_identity w v.identity
  unfold Node.commitReverseRow Node.reverseRowFlags
  simp only [hmine]
  cases flowStepFlags _ _ proto tcpFlags .client n.gcParity with
  | skip => rfl
  | keep | write flags => simp only [ne_eq, ite_not]

omit [Host] in
/-- The maps after a commit that is not refused: the row is skipped, or it holds the packet's identity. -/
theorem commitReverseRow_some {n n' : Node} {h : Helpers} {key : FlowKey} {v : RevFlowValue}
    {proto tcpFlags : UInt8} (hc : n.commitReverseRow h key v proto tcpFlags = some n') :
    (n' = n ∧ IsRst proto tcpFlags ∧ ∀ w, n.flowTableGetReverse key = some w → w.identity ≠ v.identity) ∨
      (∃ flags, n.reverseRowFlags key v.identity proto tcpFlags = some flags ∧
        n'.flowTableGetReverse key = some { v with flags } ∧
        (n' = n ∨ (h .flowInsert = true ∧
          n' = n.flowTableInsert key (FlowValue.fromReverse { v with flags })))) := by
  rw [commitReverseRow_eq] at hc
  cases hflags : n.reverseRowFlags key v.identity proto tcpFlags with
  | none =>
    rw [hflags] at hc
    exact Or.inl ⟨(Option.some_inj.mp hc).symm, reverseRowFlags_eq_none.mp hflags⟩
  | some flags =>
    simp only [hflags] at hc
    refine Or.inr ⟨flags, rfl, ?_⟩
    split at hc
    · rename_i hsame
      obtain rfl := Option.some_inj.mp hc
      exact ⟨hsame, Or.inl rfl⟩
    · split at hc
      · rename_i hins
        obtain rfl := Option.some_inj.mp hc
        refine ⟨?_, Or.inr ⟨hins, rfl⟩⟩
        rw [flowTableGetReverse_insert, if_pos rfl, FlowValue.reverse_fromReverse]
      · cases hc

/-! ## The port of a forward packet -/

/-- No live row of another identity sits under a port of the flow. -/
def Node.PortFree (n : Node) (f : ClientFlow) (port : UInt16) : Prop :=
  ∀ row, n.flowTableGetReverse (f.revKey port) = some row → row.isClosed = false →
    row.identity = f.identity

theorem occupantConflicts_eq_false {n : Node} {f : ClientFlow} {port : UInt16} :
    occupantConflicts ((n.flowTableGetReverse (f.revKey port)).bind reverseOccupant) (f.frontIp, f.frontPort)
      f.clientPort = false ↔ n.PortFree f port := by
  unfold Node.PortFree
  cases hrow : n.flowTableGetReverse (f.revKey port) with
  | none => simp [occupantConflicts]
  | some row =>
    cases hclosed : row.isClosed with
    | true => simp [reverseOccupant, hclosed, occupantConflicts]
    | false =>
      simp only [Option.bind_some, reverseOccupant, hclosed, Bool.false_eq_true, if_false,
        occupantConflicts_some]
      exact ⟨fun h row' hrow' _ => Option.some_inj.mp hrow' ▸ h, fun h => h row rfl hclosed⟩

/-- How the port of a forward packet comes about, and the maps it leaves. -/
inductive PortChosen (n : Node) (f : ClientFlow) : Node → UInt16 → Prop
  /-- a memo names it -/
  | memoized {memo : PortMemoValue} (hmemo : n.flowTableGetPortMemo f.memoKey = some memo) :
      PortChosen n f n memo.backendSrcPort
  /-- there is no memo and the client's own port is free -/
  | natural (hmemo : n.flowTableGetPortMemo f.memoKey = none) (hfree : n.PortFree f f.clientPort) :
      PortChosen n f n f.clientPort
  /-- there is no memo, the client's own port is taken, and the probe found another one -/
  | remapped {port : UInt16} (hmemo : n.flowTableGetPortMemo f.memoKey = none)
      (htaken : ¬ n.PortFree f f.clientPort) (hne : port ≠ f.clientPort) (hfree : n.PortFree f port) :
      PortChosen n f (n.flowTableInsert f.memoKey (FlowValue.fromPortMemo { backendSrcPort := port })) port

theorem patchPort_revKey (f : ClientFlow) (port port' : UInt16) :
    patchPort (f.revKey port) port' = f.revKey port' :=
  patchPort_encodeFlowKey ..

/-- The probe only ever patches the port of a reverse key of the flow. -/
theorem probeLoop_isReverseKeyTaken {n : Node} {f : ClientFlow} {seed original : UInt16} {fuel : Nat}
    {i start port : UInt16} {key : FlowKey}
    (h : probeLoop (n.isReverseKeyTaken f) seed original fuel i (f.revKey start) = (.remap port, key)) :
    key = f.revKey port ∧ n.PortFree f port := by
  induction fuel generalizing i start with
  | zero => cases h
  | succ fuel ih =>
    simp only [probeLoop] at h
    split at h
    · exact ih h
    · simp only [Node.isReverseKeyTaken, patchPort_revKey] at h
      split at h
      · rename_i s' htaken
        rw [← (Prod.mk.inj htaken).1] at h
        exact ih h
      · rename_i s' htaken
        obtain ⟨hkey, hfree⟩ := Prod.mk.inj htaken
        cases h
        exact ⟨hkey.symm, occupantConflicts_eq_false.mp hfree⟩

/-- A memo is taken as it is. -/
theorem resolvePort_memoized {n : Node} {f : ClientFlow} {memo : PortMemoValue} (h : Helpers)
    (hmemo : n.flowTableGetPortMemo f.memoKey = some memo) :
    n.resolvePort h f = .port n (f.revKey memo.backendSrcPort) memo.backendSrcPort := by
  unfold Node.resolvePort
  simp only [hmemo, Option.map_some, backendPortResolution]

/-- With no memo, the client's own port is taken when it is free. -/
theorem resolvePort_natural {n : Node} {f : ClientFlow} (h : Helpers)
    (hmemo : n.flowTableGetPortMemo f.memoKey = none) (hfree : n.PortFree f f.clientPort) :
    n.resolvePort h f = .port n (f.revKey f.clientPort) f.clientPort := by
  unfold Node.resolvePort
  simp only [hmemo, Option.map_none, backendPortResolution, resolveBackendSrcPort,
    occupantConflicts_eq_false.mpr hfree, Bool.not_false, if_true]

/-- With no memo and the client's own port taken, the first candidate of the probe is taken when it is
    free. -/
theorem resolvePort_first_candidate {n : Node} {f : ClientFlow} {h : Helpers} {port : UInt16}
    (hmemo : n.flowTableGetPortMemo f.memoKey = none) (htaken : ¬ n.PortFree f f.clientPort)
    (hport : remapCandidate (syntheticPortSeed f.frontIp f.frontPort) 0 = port) (hne : port ≠ f.clientPort)
    (hfree : n.PortFree f port) (hins : h .memoInsert = true) :
    n.resolvePort h f =
      .port (n.flowTableInsert f.memoKey (FlowValue.fromPortMemo { backendSrcPort := port })) (f.revKey port)
        port := by
  have hconflict : occupantConflicts ((n.flowTableGetReverse (f.revKey f.clientPort)).bind reverseOccupant)
      (f.frontIp, f.frontPort) f.clientPort = true := by
    rw [← Bool.not_eq_false, occupantConflicts_eq_false]
    exact htaken
  have hprobe : probeLoop (n.isReverseKeyTaken f) (syntheticPortSeed f.frontIp f.frontPort) f.clientPort
      probeLimit 0 (f.revKey 0) = (.remap port, f.revKey port) := by
    show probeLoop _ _ _ (15 + 1) _ _ = _
    rw [probeLoop]
    simp only [hport, if_neg hne, Node.isReverseKeyTaken, patchPort_revKey,
      occupantConflicts_eq_false.mpr hfree]
  unfold Node.resolvePort
  simp only [hmemo, Option.map_none, backendPortResolution, resolveBackendSrcPort, hconflict, Bool.not_true,
    Bool.false_eq_true, if_false, hprobe, hins, if_true]

/-- The port of a forward packet and the key its row goes under. -/
theorem resolvePort_port {n n₁ : Node} {h : Helpers} {f : ClientFlow} {key : FlowKey} {port : UInt16}
    (hr : n.resolvePort h f = .port n₁ key port) : PortChosen n f n₁ port ∧ key = f.revKey port := by
  unfold Node.resolvePort at hr
  cases hmemo : n.flowTableGetPortMemo f.memoKey with
  | some memo =>
    simp only [hmemo, Option.map_some, backendPortResolution] at hr
    cases hr
    exact ⟨.memoized hmemo, rfl⟩
  | none =>
    simp only [hmemo, Option.map_none, backendPortResolution] at hr
    split at hr
    · rename_i s hres
      cases hr
      have hno := resolveBackendSrcPort_noRemap.mp (congrArg Prod.fst hres)
      exact ⟨.natural hmemo (occupantConflicts_eq_false.mp hno), rfl⟩
    · rename_i synthetic candidateKey hres
      split at hr
      · cases hr
        obtain ⟨hconflict, hne, _⟩ := resolveBackendSrcPort_remap hres
        unfold resolveBackendSrcPort at hres
        rw [hconflict] at hres
        obtain ⟨hkey, hfree⟩ := probeLoop_isReverseKeyTaken hres
        refine ⟨.remapped hmemo (fun hfree' => ?_) hne hfree, hkey⟩
        rw [occupantConflicts_eq_false.mpr hfree'] at hconflict
        cases hconflict
      · cases hr
    · cases hr

/-! ## The backend of an uplink packet -/

/-- What `ingress_backend` does with a packet of a flow that came in on `ifindex`. -/
inductive Steered (n : Node) (h : Helpers) (f : IngressFlow) (ifindex : UInt32) :
    Node × Except TcAction (LbFrontBackend × UInt16) → Prop
  /-- not a front, or not configured -/
  | notFront (hfront : n.frontMeta.lookup f.front = none ∨ n.config = none) :
      Steered n h f ifindex (n, .error .ok)
  /-- the flow is established: its row is touched and names the backend -/
  | established {v : ForwardFlowValue} (hfront : n.frontMeta.lookup f.front ≠ none) (hconfig : n.config ≠ none)
      (hrow : n.flowTableGetForward f.fwdKey = some v) :
      Steered n h f ifindex
        (n.touchForwardRow h f.fwdKey v f.front.proto f.tcpFlags .client, .ok (v.backend, v.targetPort))
  /-- the flow is pending: the pin names the backend -/
  | pending {v : ForwardFlowValue} (hfront : n.frontMeta.lookup f.front ≠ none) (hconfig : n.config ≠ none)
      (hrow : n.flowTableGetForward f.fwdKey = none) (hpin : n.fwdPending.lookup f.flowKey = some v) :
      Steered n h f ifindex (n, .ok (v.backend, v.targetPort))
  /-- a new flow is pinned to the endpoint it hashes to -/
  | minted {backend : LbFrontBackend} {targetPort : UInt16}
      (hfront : n.frontMeta.lookup f.front ≠ none) (hconfig : n.config ≠ none)
      (hrow : n.flowTableGetForward f.fwdKey = none) (hpin : n.fwdPending.lookup f.flowKey = none) :
      Steered n h f ifindex
        ({ n with fwdPending := n.fwdPending.insert f.flowKey ⟨backend, ifindex, targetPort, 0⟩ },
          .ok (backend, targetPort))
  /-- a new flow cannot be pinned -/
  | unpinned (hrow : n.flowTableGetForward f.fwdKey = none) (hpin : n.fwdPending.lookup f.flowKey = none) :
      Steered n h f ifindex (n, .error .ok)
  /-- a new flow finds no endpoint -/
  | missed (hrow : n.flowTableGetForward f.fwdKey = none) (hpin : n.fwdPending.lookup f.flowKey = none) :
      Steered n h f ifindex ({ n with frontMisses := n.frontMisses + 1 }, .error .shot)

theorem steer_steered (n : Node) (h : Helpers) (f : IngressFlow) (ifindex : UInt32) :
    Steered n h f ifindex (n.steer h f ifindex) := by
  unfold Node.steer Node.ingressBackend
  cases hmeta : n.frontMeta.lookup f.front with
  | none => exact .notFront (.inl hmeta)
  | some m =>
    cases hconfig : n.config with
    | none => exact .notFront (.inr hconfig)
    | some c =>
      have hfront : n.frontMeta.lookup f.front ≠ none := by simp [hmeta]
      have hc : n.config ≠ none := by simp [hconfig]
      cases hrow : n.flowTableGetForward f.fwdKey with
      | some v =>
        simp only [Option.map_some, Option.isSome_some, if_true, forwardAdmission,
          ingressSteer_pinned (show Option.or (some v) none = some v from rfl)]
        exact .established hfront hc hrow
      | none =>
        cases hpin : n.fwdPending.lookup f.flowKey with
        | some v =>
          simp only [Option.map_some, Option.isSome_none, Bool.false_eq_true, if_false, forwardAdmission,
            fwdPendingAffinityPin, ingressSteer_pinned (show Option.or none (some v) = some v from rfl)]
          exact .pending hfront hc hrow hpin
        | none =>
          simp only [Option.map_some, Option.isSome_none, Bool.false_eq_true, if_false]
          split
          · exact .missed hrow hpin
          · simp only [forwardAdmission, Bool.false_eq_true, if_false, fwdPendingAffinityPin]
            split
            · exact .minted hfront hc hrow hpin
            · exact .unpinned hrow hpin

/-! ## The authorization of a return packet -/

/-- What authorizing a return packet does. -/
inductive Authorized (n : Node) (h : Helpers) (p : ReturnPacket) (tcpFlags : UInt8) :
    Node × Option ForwardFlowValue → Prop
  /-- the flow is established: its row is touched -/
  | established {v : ForwardFlowValue} (hrow : n.flowTableGetForward p.fwdKey = some v) :
      Authorized n h p tcpFlags (n.touchForwardRow h p.fwdKey v p.inner.proto tcpFlags .pod, some v)
  /-- the flow is unknown -/
  | unknown (hrow : n.flowTableGetForward p.fwdKey = none) (hpin : n.fwdPending.lookup p.flowKey = none) :
      Authorized n h p tcpFlags (n, none)
  /-- a reset ends a pending flow -/
  | reset {v : ForwardFlowValue} (hrow : n.flowTableGetForward p.fwdKey = none)
      (hpin : n.fwdPending.lookup p.flowKey = some v) (hrst : IsRst p.inner.proto tcpFlags) :
      Authorized n h p tcpFlags (n.removePending h p.flowKey, some v)
  /-- a pending flow becomes an established one -/
  | promoted {v : ForwardFlowValue} {flags : UInt16} (hrow : n.flowTableGetForward p.fwdKey = none)
      (hpin : n.fwdPending.lookup p.flowKey = some v) (hrst : ¬ IsRst p.inner.proto tcpFlags)
      (hins : h .flowInsert = true) :
      Authorized n h p tcpFlags
        ((n.flowTableInsert p.fwdKey (FlowValue.fromForward { v with flags })).removePending h p.flowKey,
          some { v with flags })
  /-- the row is refused -/
  | refused {v : ForwardFlowValue} (hrow : n.flowTableGetForward p.fwdKey = none)
      (hpin : n.fwdPending.lookup p.flowKey = some v) (hins : h .flowInsert = false) :
      Authorized n h p tcpFlags (n, none)

theorem authorizeReturn_authorized (n : Node) (h : Helpers) (p : ReturnPacket) (tcpFlags : UInt8) :
    Authorized n h p tcpFlags (n.authorizeReturn h p tcpFlags) := by
  unfold Node.authorizeReturn
  cases hrow : n.flowTableGetForward p.fwdKey with
  | some v => exact .established hrow
  | none =>
    cases hpin : n.fwdPending.lookup p.flowKey with
    | none => exact .unknown hrow hpin
    | some v =>
      simp only [Option.isSome_some, returnAuthorization, Bool.false_eq_true, if_false, if_true]
      by_cases hrst : IsRst p.inner.proto tcpFlags
      · have hskip : flowStep none p.inner.proto tcpFlags .pod n.gcParity = .skip :=
          flowStepFlags_skip_iff.mpr ⟨hrst.1, hrst.2, rfl⟩
        rw [hskip]
        exact .reset hrow hpin hrst
      · have hskip : flowStep none p.inner.proto tcpFlags .pod n.gcParity ≠ .skip := fun hs =>
          hrst ⟨(flowStepFlags_skip_iff.mp hs).1, (flowStepFlags_skip_iff.mp hs).2.1⟩
        split
        · exact absurd (by assumption) hskip
        · cases hins : h .flowInsert with
          | true => exact .promoted hrow hpin hrst hins
          | false => exact .refused hrow hpin hins

/-! ## What the programs do to the maps -/

theorem deliverForward_fst (n : Node) (h : Helpers) (skb : Skb) (p : ForwardPacket) :
    (deliverForward n h skb p).1 = (decapForwardCommit n h skb p).1 := by
  unfold deliverForward
  rcases decapForwardCommit n h skb p with ⟨n', verdict | port⟩
  · rfl
  · rcases hedit : decapForwardRewrite h p port skb with ⟨skb', ok⟩
    cases ok with
    | false => simp only [hedit]
    | true =>
      simp only [hedit]
      split <;> rfl

/-- The maps after a forward packet: as they were, or with the port's memo, or with the row as well. -/
theorem decapForwardCommit_cases (n : Node) (h : Helpers) (skb : Skb) (p : ForwardPacket) :
    (decapForwardCommit n h skb p).1 = n ∨
      ∃ n₁ port, PortChosen n p.flow n₁ port ∧
        ((decapForwardCommit n h skb p).1 = n₁ ∨
          ∃ tcpFlags flags,
            tcpFlagsDirect skb p.flow.proto (ethHlen + p.family.ipHlen) = some tcpFlags ∧
            h .flowInsert = true ∧
            n₁.reverseRowFlags (p.flow.revKey port) p.flow.identity p.flow.proto tcpFlags = some flags ∧
            (decapForwardCommit n h skb p).1 =
              n₁.flowTableInsert (p.flow.revKey port) (FlowValue.fromReverse { p.revValue with flags })) := by
  unfold decapForwardCommit
  cases hport : n.resolvePort h p.flow with
  | exhausted | refused => exact Or.inl rfl
  | port n₁ revKey port =>
    obtain ⟨hchosen, rfl⟩ := resolvePort_port hport
    refine Or.inr ⟨n₁, port, hchosen, ?_⟩
    simp only
    cases hflags : tcpFlagsDirect skb p.flow.proto (ethHlen + p.family.ipHlen) with
    | none => exact Or.inl rfl
    | some tcpFlags =>
      simp only
      cases hrow : n₁.commitReverseRow h (p.flow.revKey port) p.revValue p.flow.proto tcpFlags with
      | none => exact Or.inl rfl
      | some n₂ =>
        rcases commitReverseRow_some hrow with ⟨rfl, _⟩ | ⟨flags, hstep, _, rfl | ⟨hins, rfl⟩⟩
        · exact Or.inl rfl
        · exact Or.inl rfl
        · exact Or.inr ⟨tcpFlags, flags, rfl, hins, hstep, rfl⟩

/-- A packet that is no reset takes over a row that is not its own. -/
theorem decapForwardCommit_fresh {n n₁ : Node} {h : Helpers} {skb : Skb} {p : ForwardPacket} {port : UInt16}
    {tcpFlags : UInt8} (hport : n.resolvePort h p.flow = .port n₁ (p.flow.revKey port) port)
    (hread : tcpFlagsDirect skb p.flow.proto (ethHlen + p.family.ipHlen) = some tcpFlags)
    (hrst : ¬ IsRst p.flow.proto tcpFlags) (hins : h .flowInsert = true)
    (hother : ∀ w, n₁.flowTableGetReverse (p.flow.revKey port) = some w → w.identity ≠ p.flow.identity) :
    decapForwardCommit n h skb p =
      (n₁.flowTableInsert (p.flow.revKey port) (FlowValue.fromReverse { p.revValue with
        flags := (flowStep none p.flow.proto tcpFlags .client n₁.gcParity).flagsAfter 0 }), .ok port) := by
  have hmine : (n₁.flowTableGetReverse (p.flow.revKey port)).filter (fun w => w.identity = p.revValue.identity) =
      none := by
    cases hrow : n₁.flowTableGetReverse (p.flow.revKey port) with
    | none => rfl
    | some w =>
      have hw : w.identity ≠ p.revValue.identity := hother w hrow
      simp [Option.filter, hw]
  have hflags : n₁.reverseRowFlags (p.flow.revKey port) p.revValue.identity p.flow.proto tcpFlags =
      some ((flowStep none p.flow.proto tcpFlags .client n₁.gcParity).flagsAfter 0) := by
    have hstep : flowStep none p.flow.proto tcpFlags .client n₁.gcParity ≠ .skip := fun hs =>
      hrst ⟨(flowStepFlags_skip_iff.mp hs).1, (flowStepFlags_skip_iff.mp hs).2.1⟩
    unfold Node.reverseRowFlags
    simp only [hmine, Option.isSome_none, Option.map_none, Option.getD_none]
    split
    · exact absurd (by assumption) hstep
    · rfl
  have hdiffers : ∀ flags, n₁.flowTableGetReverse (p.flow.revKey port) ≠ some { p.revValue with flags } :=
    fun flags hsame => hother _ hsame rfl
  simp only [decapForwardCommit, hport, hread, commitReverseRow_eq, hflags, if_neg (hdiffers _), if_pos hins]

/-- A packet that is given a port: where the port comes from, and the row it leaves. A reset that finds no
    row of its own leaves none. -/
theorem decapForwardCommit_ok {n n' : Node} {h : Helpers} {skb : Skb} {p : ForwardPacket} {port : UInt16}
    (hc : decapForwardCommit n h skb p = (n', .ok port)) :
    ∃ n₁ tcpFlags, PortChosen n p.flow n₁ port ∧
      tcpFlagsDirect skb p.flow.proto (ethHlen + p.family.ipHlen) = some tcpFlags ∧
      ((n' = n₁ ∧ IsRst p.flow.proto tcpFlags ∧
          ∀ w, n₁.flowTableGetReverse (p.flow.revKey port) = some w → w.identity ≠ p.flow.identity) ∨
        ∃ flags, n'.flowTableGetReverse (p.flow.revKey port) = some { p.revValue with flags } ∧
          (n' = n₁ ∨
            n' = n₁.flowTableInsert (p.flow.revKey port) (FlowValue.fromReverse { p.revValue with flags }))) := by
  unfold decapForwardCommit at hc
  cases hport : n.resolvePort h p.flow with
  | exhausted | refused =>
    rw [hport] at hc
    cases hc
  | port n₁ revKey port' =>
    obtain ⟨hchosen, rfl⟩ := resolvePort_port hport
    simp only [hport] at hc
    cases hflags : tcpFlagsDirect skb p.flow.proto (ethHlen + p.family.ipHlen) with
    | none =>
      rw [hflags] at hc
      cases hc
    | some tcpFlags =>
      simp only [hflags] at hc
      cases hrow : n₁.commitReverseRow h (p.flow.revKey port') p.revValue p.flow.proto tcpFlags with
      | none =>
        rw [hrow] at hc
        cases hc
      | some n₂ =>
        rw [hrow] at hc
        cases hc
        refine ⟨n₁, tcpFlags, hchosen, rfl, ?_⟩
        rcases commitReverseRow_some hrow with hskip | ⟨flags, _, hget, hn⟩
        · exact Or.inl hskip
        · exact Or.inr ⟨flags, hget, hn.imp_right And.right⟩

/-- The maps after a return packet are those of its authorization. -/
theorem deliverReturn_fst (n : Node) (h : Helpers) (skb : Skb) (p : ReturnPacket) :
    (deliverReturn n h skb p).1 =
      match tcpFlagsDirect skb p.inner.proto (ethHlen + p.family.ipHlen) with
      | none => n
      | some tcpFlags => (n.authorizeReturn h p tcpFlags).1 := by
  unfold deliverReturn
  simp only
  cases tcpFlagsDirect skb p.inner.proto (ethHlen + p.family.ipHlen) with
  | none => rfl
  | some tcpFlags =>
    simp only
    rcases n.authorizeReturn h p tcpFlags with ⟨n', _ | value⟩
    · rfl
    · simp only
      split <;> rfl

/-- The maps after a pod's reply: its row is touched, if it has one. -/
theorem tunnelReply_fst (n : Node) (h : Helpers) (skb : Skb) (p : ReplyPacket) :
    (tunnelReply n h skb p).1 = n ∨
      ∃ rev tcpFlags, n.flowTableGetReverse p.key = some rev ∧
        (tunnelReply n h skb p).1 = n.touchReturnRow h p.key rev p.proto tcpFlags := by
  unfold tunnelReply
  cases hrev : n.flowTableGetReverse p.key with
  | none => exact Or.inl rfl
  | some rev =>
    simp only [Option.isSome_some, egressReturnOutcome, if_true]
    cases tcpFlagsDirect skb p.proto (p.l2Hlen + p.family.ipHlen) with
    | none => exact Or.inl rfl
    | some tcpFlags =>
      refine Or.inr ⟨rev, tcpFlags, rfl, ?_⟩
      simp only
      split
      · rfl
      · split <;> rfl

end Beep
