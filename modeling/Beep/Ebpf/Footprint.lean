import Beep.Ebpf.Rows

/-!
# `Ebpf.Footprint` — the map entries one packet looks up

Four of a node's maps are keyed by addresses. What a packet's program looks up or writes in them is said once
(`Node.Seeks`), from what it reads off the packet and the gates that stand before the lookup. Two facts make
this a footprint of the three programs: an entry that is not sought is left as it is
(`Node.Unsought`), and on two nodes that agree where the packet looks, its program gives the same packet and
the same verdict and leaves them in agreement (`AgreeOn.packet`).
-/

namespace Beep

variable [Host]

/-! ## Entries -/

/-- An entry of the maps that are keyed by addresses. The `FRONT_ENDPOINTS` rows of a front go with its
    `FRONT_META` entry. -/
inductive EntryKey where
  | frontMeta (key : LbFrontKey)
  | fwdPending (key : TcpFlowKey)
  | flowTable (key : FlowKey)
  | podTargets (addr : Bytes 16)

/-- The addresses in a key. -/
def EntryKey.addrs : EntryKey → List (Bytes 16)
  | .frontMeta key => [key.frontIp]
  | .fwdPending key => tcpFlowKeyAddrs key
  | .flowTable key => [Bytes.slice key 0 16 (by omega), Bytes.slice key 16 16 (by omega)]
  | .podTargets addr => [addr]

/-- The addresses in a flow's key are the client's and the other end's. -/
@[simp] theorem EntryKey.addrs_encodeTcpFlowKey (c : Bytes 16) (cp : UInt16) (o : Bytes 16) (op : UInt16)
    (p : UInt8) : (EntryKey.fwdPending (encodeTcpFlowKey c cp o op p)).addrs = [c, o] := by
  have hclient : Bytes.slice (encodeTcpFlowKey c cp o op p) 0 16 (by omega) = c := by
    unfold encodeTcpFlowKey
    rw [Bytes.slice_append_left, Bytes.slice_append_left, Bytes.slice_append_left, Bytes.slice_append_left,
      Bytes.slice_all] <;> omega
  have hother : Bytes.slice (encodeTcpFlowKey c cp o op p) 16 16 (by omega) = o := decodeTcpFlowKey_other ..
  show [Bytes.slice _ 0 16 _, Bytes.slice _ 16 16 _] = [c, o]
  rw [hclient, hother]

/-- And so they are with the direction behind them. -/
@[simp] theorem EntryKey.addrs_encodeFlowKey (c : Bytes 16) (cp : UInt16) (o : Bytes 16) (op : UInt16) (p : UInt8)
    (d : FlowDirection) : (EntryKey.flowTable (encodeFlowKey c cp o op p d)).addrs = [c, o] := by
  show [Bytes.slice (encodeTcpFlowKey c cp o op p ++ #v[d.toByte]) 0 16 _,
    Bytes.slice (encodeTcpFlowKey c cp o op p ++ #v[d.toByte]) 16 16 _] = [c, o]
  rw [Bytes.slice_append_left (by omega) (by omega), Bytes.slice_append_left (by omega) (by omega)]
  exact EntryKey.addrs_encodeTcpFlowKey c cp o op p

/-- Two nodes hold the same in a set of entries, and in the maps no address keys. -/
structure AgreeOn (K : EntryKey → Prop) (n n' : Node) : Prop where
  frontMeta : ∀ key, K (.frontMeta key) → n.frontMeta.lookup key = n'.frontMeta.lookup key
  frontEndpoints : ∀ key : FrontEndpointKey, K (.frontMeta key.front) →
    n.frontEndpoints.lookup key = n'.frontEndpoints.lookup key
  fwdPending : ∀ key, K (.fwdPending key) → n.fwdPending.lookup key = n'.fwdPending.lookup key
  flowTable : ∀ key, K (.flowTable key) → n.flowTable.lookup key = n'.flowTable.lookup key
  podTargets : ∀ addr, K (.podTargets addr) → n.podTargets.lookup addr = n'.podTargets.lookup addr
  nodeAllow : n.nodeAllow = n'.nodeAllow
  config : n.config = n'.config
  uplinkConfig : n.uplinkConfig = n'.uplinkConfig

/-- Two results that come to the same, on maps in agreement. -/
structure EndAlike (K : EntryKey → Prop) {α : Type*} (r r' : Node × α) : Prop where
  rest : r.2 = r'.2
  maps : AgreeOn K r.1 r'.1

/-! ## What a packet seeks -/

/-- The pod option of a forward frame from a known peer: the address `POD_TARGETS` is asked for. -/
def podOption (n : Node) (skb : Skb) (info : TunnelInfo) : Option (Bytes 16 × UInt16) :=
  match peerNodeAdmission (n.isNodeAllowed (tunnelRemote info.remote)) with
  | .drop => none
  | .continue =>
      match skb.getTunnelOpt with
      | none => none
      | some (len, opt) => if len ≠ 24 then none else decodePodIdOption opt

/-- The source address of a flow's packet on an uplink's egress: the one `POD_TARGETS` is asked for. -/
def egressSource (fam : Family) (l2Hlen : Nat) (skb : Skb) : Option (Bytes 16) := do
  let ver ← loadVersion skb l2Hlen
  guard (fam.uplinkHeaderOk ver)
  let proto ← skb.loadDirect.u8 (l2Hlen + fam.protoOff)
  guard (isFlowProto proto)
  fam.loadAddr skb.loadDirect (l2Hlen + fam.srcOff)

/-- The uplink egress layout of a packet: header length and family. -/
def egressFrame (n : Node) (skb : Skb) : Option (Nat × Family) := do
  guard (!isRedirectedReturnMark skb.mark)
  let uplink ← n.uplinkConfig.lookup skb.ifindex
  let l2Hlen := uplink.l2Hlen.toNat
  guard (l2Hlen = 0 ∨ l2Hlen = ethHlen)
  let fam ← (← uplinkFamily l2Hlen skb)
  return (l2Hlen, fam)

/-- The TCP flags byte of a return packet, which is read before any of its entries is looked up: a TCP frame that
    ends before it is dropped unread. -/
def ReturnPacket.tcpFlags (p : ReturnPacket) (skb : Skb) : Option UInt8 :=
  tcpFlagsDirect skb p.inner.proto (ethHlen + p.family.ipHlen)

/-- The entries a packet's program may look up or write. Of a forward packet these are the reverse rows under
    every port, since the probe goes through many. -/
inductive Node.Seeks (n : Node) : NodeEvent → EntryKey → Prop
  | front {skb h f l2Hlen} (hadm : ingressAdmit n skb = some (f, l2Hlen)) :
      Seeks n (.uplinkIngress skb h) (.frontMeta f.front)
  | pending {skb h f l2Hlen} (hadm : ingressAdmit n skb = some (f, l2Hlen)) :
      Seeks n (.uplinkIngress skb h) (.fwdPending f.flowKey)
  | forward {skb h f l2Hlen} (hadm : ingressAdmit n skb = some (f, l2Hlen)) :
      Seeks n (.uplinkIngress skb h) (.flowTable f.fwdKey)
  | optionPod {skb h info pod} (hinfo : skb.received = some info) (hvni : info.tunnelId = vniFwd)
      (hopt : podOption n skb info = some pod) : Seeks n (.geneveIngress skb h) (.podTargets pod.1)
  | memo {skb h p} (hadm : decapForwardAdmit n skb = some p) :
      Seeks n (.geneveIngress skb h) (.flowTable p.flow.memoKey)
  | reverse {skb h p} (hadm : decapForwardAdmit n skb = some p) (port : UInt16) :
      Seeks n (.geneveIngress skb h) (.flowTable (p.flow.revKey port))
  | returnForward {skb h p tcpFlags} (hadm : decapReturnAdmit n skb = some p)
      (hflags : p.tcpFlags skb = some tcpFlags) : Seeks n (.geneveIngress skb h) (.flowTable p.fwdKey)
  | returnPending {skb h p tcpFlags} (hadm : decapReturnAdmit n skb = some p)
      (hflags : p.tcpFlags skb = some tcpFlags) : Seeks n (.geneveIngress skb h) (.fwdPending p.flowKey)
  | sourcePod {skb h l2Hlen fam src} (hframe : egressFrame n skb = some (l2Hlen, fam))
      (hsrc : egressSource fam l2Hlen skb = some src) : Seeks n (.uplinkEgress skb h) (.podTargets src)
  | reply {skb h p} (hadm : egressAdmit n skb = some p) : Seeks n (.uplinkEgress skb h) (.flowTable p.key)

/-- The packet and the verdict a program ends with. -/
def Node.outcome (n : Node) : NodeEvent → Option (Skb × TcAction)
  | .uplinkIngress skb h => some (uplinkIngress n h skb).2
  | .geneveIngress skb h => some (geneveIngress n h skb).2
  | .uplinkEgress skb h => some (uplinkEgressReturn n h skb).2
  | _ => none

/-! ## Agreement

Agreement is an equivalence, and what is written alike on both sides, or outside the set, keeps it. -/

namespace AgreeOn

variable {K : EntryKey → Prop} {n n' n'' : Node}

omit [Host] in
/-- A node agrees with itself. -/
theorem refl (n : Node) : AgreeOn K n n := by constructor <;> intros <;> rfl

omit [Host] in
/-- Agreement goes both ways. -/
theorem symm (h : AgreeOn K n n') : AgreeOn K n' n where
  frontMeta key hkey := (h.frontMeta key hkey).symm
  frontEndpoints key hkey := (h.frontEndpoints key hkey).symm
  fwdPending key hkey := (h.fwdPending key hkey).symm
  flowTable key hkey := (h.flowTable key hkey).symm
  podTargets addr haddr := (h.podTargets addr haddr).symm
  nodeAllow := h.nodeAllow.symm
  config := h.config.symm
  uplinkConfig := h.uplinkConfig.symm

omit [Host] in
/-- Agreement is handed on. -/
theorem trans (h : AgreeOn K n n') (h' : AgreeOn K n' n'') : AgreeOn K n n'' where
  frontMeta key hkey := (h.frontMeta key hkey).trans (h'.frontMeta key hkey)
  frontEndpoints key hkey := (h.frontEndpoints key hkey).trans (h'.frontEndpoints key hkey)
  fwdPending key hkey := (h.fwdPending key hkey).trans (h'.fwdPending key hkey)
  flowTable key hkey := (h.flowTable key hkey).trans (h'.flowTable key hkey)
  podTargets addr haddr := (h.podTargets addr haddr).trans (h'.podTargets addr haddr)
  nodeAllow := h.nodeAllow.trans h'.nodeAllow
  config := h.config.trans h'.config
  uplinkConfig := h.uplinkConfig.trans h'.uplinkConfig

omit [Host] in
/-- Maps that differ in their miss counter only agree everywhere. -/
theorem misses (n : Node) (misses : Nat) : AgreeOn K { n with frontMisses := misses } n := by
  constructor <;> intros <;> rfl

omit [Host] in
/-- The same row on both sides. -/
theorem flowTableInsert (h : AgreeOn K n n') (key : FlowKey) (v : FlowValue) :
    AgreeOn K (n.flowTableInsert key v) (n'.flowTableInsert key v) :=
  { h with
    flowTable := fun key' hkey' => by
      unfold Node.flowTableInsert
      rw [Table.lookup_insert_ite, Table.lookup_insert_ite, h.flowTable key' hkey'] }

omit [Host] in
/-- A row outside the set does not show in it. -/
theorem flowTableInsert_outside (n : Node) {key : FlowKey} (hkey : ¬ K (.flowTable key)) (v : FlowValue) :
    AgreeOn K (n.flowTableInsert key v) n :=
  { refl n with
    flowTable := fun key' hkey' => by
      have hne : key' ≠ key := fun heq => hkey (heq ▸ hkey')
      unfold Node.flowTableInsert
      rw [Table.lookup_insert_ite, if_neg hne] }

omit [Host] in
/-- The same pending entry on both sides. -/
theorem pendingInsert (h : AgreeOn K n n') (key : TcpFlowKey) (v : ForwardFlowValue) :
    AgreeOn K { n with fwdPending := n.fwdPending.insert key v }
      { n' with fwdPending := n'.fwdPending.insert key v } :=
  { h with
    fwdPending := fun key' hkey' => by
      rw [Table.lookup_insert_ite, Table.lookup_insert_ite, h.fwdPending key' hkey'] }

omit [Host] in
/-- A pending entry outside the set does not show in it. -/
theorem pendingInsert_outside (n : Node) {key : TcpFlowKey} (hkey : ¬ K (.fwdPending key))
    (v : ForwardFlowValue) : AgreeOn K { n with fwdPending := n.fwdPending.insert key v } n :=
  { refl n with
    fwdPending := fun key' hkey' => by
      have hne : key' ≠ key := fun heq => hkey (heq ▸ hkey')
      rw [Table.lookup_insert_ite, if_neg hne] }

omit [Host] in
/-- The same pending entry taken off on both sides, or refused on both. -/
theorem removePending (h : AgreeOn K n n') (helpers : Helpers) (key : TcpFlowKey) :
    AgreeOn K (n.removePending helpers key) (n'.removePending helpers key) := by
  unfold Node.removePending
  split
  · exact { h with
      fwdPending := fun key' hkey' => by
        rw [Table.lookup_erase_ite, Table.lookup_erase_ite, h.fwdPending key' hkey'] }
  · exact h

omit [Host] in
/-- Taking off an entry outside the set does not show in it. -/
theorem removePending_outside (n : Node) (helpers : Helpers) {key : TcpFlowKey}
    (hkey : ¬ K (.fwdPending key)) : AgreeOn K (n.removePending helpers key) n := by
  unfold Node.removePending
  split
  · exact { refl n with
      fwdPending := fun key' hkey' => by
        have hne : key' ≠ key := fun heq => hkey (heq ▸ hkey')
        rw [Table.lookup_erase_ite, if_neg hne] }
  · exact refl n

omit [Host] in
/-- The parities are read from `CONFIG`, which is the same. -/
theorem gcParity (h : AgreeOn K n n') : n.gcParity = n'.gcParity := by
  unfold Node.gcParity
  rw [h.config]

omit [Host] in
/-- `NODE_ALLOW` is the same. -/
theorem isNodeAllowed (h : AgreeOn K n n') (addr : Bytes 16) : n.isNodeAllowed addr = n'.isNodeAllowed addr := by
  unfold Node.isNodeAllowed
  rw [h.nodeAllow]

omit [Host] in
/-- An address in the set is a local pod on both or on neither. -/
theorem isPodTarget (h : AgreeOn K n n') {addr : Bytes 16} (haddr : K (.podTargets addr)) :
    n.isPodTarget addr = n'.isPodTarget addr := by
  unfold Node.isPodTarget
  rw [h.podTargets addr haddr]

omit [Host] in
/-- A row in the set, read as a reverse row. -/
theorem reverseRow (h : AgreeOn K n n') {key : FlowKey} (hkey : K (.flowTable key)) :
    n.flowTableGetReverse key = n'.flowTableGetReverse key := by
  unfold Node.flowTableGetReverse
  rw [h.flowTable key hkey]

/-- A row in the set, read as a forward row. -/
theorem forwardRow (h : AgreeOn K n n') {key : FlowKey} (hkey : K (.flowTable key)) :
    n.flowTableGetForward key = n'.flowTableGetForward key := by
  unfold Node.flowTableGetForward
  rw [h.flowTable key hkey]

/-- A row in the set, read as a memo. -/
theorem portMemo (h : AgreeOn K n n') {key : FlowKey} (hkey : K (.flowTable key)) :
    n.flowTableGetPortMemo key = n'.flowTableGetPortMemo key := by
  unfold Node.flowTableGetPortMemo
  rw [h.flowTable key hkey]

/-! ## The functions that write

`flow_step` looks at the row and at the parities, so it writes the same flags on both sides. -/

/-- The forward row is touched alike. -/
theorem touchForwardRow (h : AgreeOn K n n') (helpers : Helpers) (key : FlowKey) (v : ForwardFlowValue)
    (proto tcpFlags : UInt8) (side : FlowSide) :
    AgreeOn K (n.touchForwardRow helpers key v proto tcpFlags side)
      (n'.touchForwardRow helpers key v proto tcpFlags side) := by
  unfold Node.touchForwardRow
  rw [h.gcParity]
  cases flowStep (some v.flags) proto tcpFlags side n'.gcParity with
  | keep | skip => exact h
  | write flags =>
    cases helpers .flowInsert with
    | true => exact h.flowTableInsert _ _
    | false => exact h

omit [Host] in
/-- The reverse row is touched alike. -/
theorem touchReturnRow (h : AgreeOn K n n') (helpers : Helpers) (key : FlowKey) (rev : RevFlowValue)
    (proto tcpFlags : UInt8) :
    AgreeOn K (n.touchReturnRow helpers key rev proto tcpFlags)
      (n'.touchReturnRow helpers key rev proto tcpFlags) := by
  unfold Node.touchReturnRow
  rw [h.gcParity]
  cases flowStep (some rev.flags) proto tcpFlags .pod n'.gcParity with
  | keep | skip => exact h
  | write flags =>
    cases helpers .flowInsert with
    | true => exact h.flowTableInsert _ _
    | false => exact h

end AgreeOn

/-! ## Steering -/

omit [Host] in
/-- The endpoint a packet is steered to depends on the rows of its own front. -/
theorem ingressSteer_congr {m : FrontMeta} {established pending : Option ForwardFlowValue} {hash : UInt32}
    {front : LbFrontKey} {endpointAt endpointAt' : FrontEndpointKey → Option FrontEndpoint}
    (h : ∀ key : FrontEndpointKey, key.front = front → endpointAt key = endpointAt' key) :
    ingressSteer m established pending hash front endpointAt =
      ingressSteer m established pending hash front endpointAt' := by
  unfold ingressSteer
  have hrow : ∀ slot, endpointAt { front, generation := m.generation, slot, pad := 0 } =
      endpointAt' { front, generation := m.generation, slot, pad := 0 } := fun slot => h _ rfl
  simp only [hrow]

namespace AgreeOn

variable {K : EntryKey → Prop} {n n' : Node}

/-- Steering a packet depends on the entries of its flow and its front. -/
theorem steer (h : AgreeOn K n n') (helpers : Helpers) {f : IngressFlow} (ifindex : UInt32)
    (hfront : K (.frontMeta f.front)) (hpending : K (.fwdPending f.flowKey))
    (hforward : K (.flowTable f.fwdKey)) :
    EndAlike K (n.steer helpers f ifindex) (n'.steer helpers f ifindex) := by
  unfold Node.steer Node.ingressBackend
  rw [← h.frontMeta _ hfront, ← h.config, ← h.forwardRow hforward, ← h.fwdPending _ hpending]
  cases n.frontMeta.lookup f.front with
  | none => exact ⟨rfl, h⟩
  | some m =>
    cases hconfig : n.config.map (·.flowHashSeed) with
    | none => exact ⟨rfl, h⟩
    | some seed =>
      have hendpoints : ∀ established pending hash,
          ingressSteer m established pending hash f.front (fun key => n.frontEndpoints.lookup key) =
            ingressSteer m established pending hash f.front (fun key => n'.frontEndpoints.lookup key) :=
        fun _ _ _ => ingressSteer_congr fun key hkey => h.frontEndpoints key (hkey ▸ hfront)
      simp only [hendpoints]
      -- the row is touched on both sides
      have htouched : ∀ value, AgreeOn K (n.touchForwardRow helpers f.fwdKey value f.front.proto f.tcpFlags .client)
          (n'.touchForwardRow helpers f.fwdKey value f.front.proto f.tcpFlags .client) :=
        fun value => h.touchForwardRow ..
      -- only an established flow touches its row
      cases n.flowTableGetForward f.fwdKey with
      | none =>
        simp only
        split
        · exact ⟨rfl, ((misses _ _).trans h).trans (misses _ _).symm⟩
        · split
          · exact ⟨rfl, h⟩
          · split
            · exact ⟨rfl, h⟩
            · split
              · exact ⟨rfl, h.pendingInsert _ _⟩
              · exact ⟨rfl, h⟩
      | some value =>
        simp only
        split
        · exact ⟨rfl, ((misses _ _).trans (htouched value)).trans (misses _ _).symm⟩
        · split
          · exact ⟨rfl, htouched value⟩
          · split
            · exact ⟨rfl, htouched value⟩
            · split
              · exact ⟨rfl, (htouched value).pendingInsert _ _⟩
              · exact ⟨rfl, htouched value⟩

/-- Entries of other flows and fronts stay. -/
theorem steer_outside (n : Node) (helpers : Helpers) {f : IngressFlow} (ifindex : UInt32)
    (hpending : ¬ K (.fwdPending f.flowKey)) (hforward : ¬ K (.flowTable f.fwdKey)) :
    AgreeOn K (n.steer helpers f ifindex).1 n := by
  generalize hres : n.steer helpers f ifindex = res
  have hs := steer_steered n helpers f ifindex
  rw [hres] at hs
  -- a packet mints a pending entry, touches its forward row or writes nothing
  cases hs with
  | notFront _ | pending _ _ _ _ | unpinned _ _ => exact refl n
  | missed _ _ => exact misses n _
  | minted _ _ _ _ => exact pendingInsert_outside n hpending _
  | established _ _ hrow =>
    rcases touchForwardRow_cases n helpers f.fwdKey _ f.front.proto f.tcpFlags .client with heq | ⟨_, heq⟩
    · rw [heq]
      exact refl n
    · rw [heq]
      exact flowTableInsert_outside n hforward _

/-! ## Return packets -/

/-- The authorization of a return packet depends on the two entries of its flow. -/
theorem authorizeReturn (h : AgreeOn K n n') (helpers : Helpers) {p : ReturnPacket} (tcpFlags : UInt8)
    (hpending : K (.fwdPending p.flowKey)) (hforward : K (.flowTable p.fwdKey)) :
    EndAlike K (n.authorizeReturn helpers p tcpFlags) (n'.authorizeReturn helpers p tcpFlags) := by
  unfold Node.authorizeReturn
  rw [← h.forwardRow hforward, ← h.fwdPending _ hpending, ← h.gcParity]
  -- established, pending, or neither
  cases n.flowTableGetForward p.fwdKey with
  | some value => exact ⟨rfl, h.touchForwardRow ..⟩
  | none =>
    cases n.fwdPending.lookup p.flowKey with
    | none => exact ⟨rfl, h⟩
    | some value =>
      simp only [Option.isSome_some, returnAuthorization, Bool.false_eq_true, if_false, if_true]
      split
      · exact ⟨rfl, h.removePending ..⟩
      · split
        · exact ⟨rfl, (h.flowTableInsert _ _).removePending ..⟩
        · exact ⟨rfl, h⟩

/-- Entries of other flows stay. -/
theorem authorizeReturn_outside (n : Node) (helpers : Helpers) {p : ReturnPacket} (tcpFlags : UInt8)
    (hpending : ¬ K (.fwdPending p.flowKey)) (hforward : ¬ K (.flowTable p.fwdKey)) :
    AgreeOn K (n.authorizeReturn helpers p tcpFlags).1 n := by
  generalize hres : n.authorizeReturn helpers p tcpFlags = res
  have ha := authorizeReturn_authorized n helpers p tcpFlags
  rw [hres] at ha
  -- both entries are the flow's own
  cases ha with
  | unknown _ _ | refused _ _ _ => exact refl n
  | reset _ _ _ => exact removePending_outside n helpers hpending
  | promoted _ _ _ _ =>
    exact (removePending_outside _ helpers hpending).trans (flowTableInsert_outside n hforward _)
  | established hrow =>
    rcases touchForwardRow_cases n helpers p.fwdKey _ p.inner.proto tcpFlags .pod with heq | ⟨_, heq⟩
    · rw [heq]
      exact refl n
    · rw [heq]
      exact flowTableInsert_outside n hforward _

/-! ## Forward packets -/

/-- The probe looks at reverse rows of the flow only. -/
theorem probeLoop (h : AgreeOn K n n') {f : ClientFlow} (hreverse : ∀ port, K (.flowTable (f.revKey port)))
    (seed original : UInt16) (fuel : Nat) (i start : UInt16) :
    Beep.probeLoop (n.isReverseKeyTaken f) seed original fuel i (f.revKey start) =
      Beep.probeLoop (n'.isReverseKeyTaken f) seed original fuel i (f.revKey start) := by
  induction fuel generalizing i start with
  | zero => rfl
  | succ fuel ih =>
    simp only [Beep.probeLoop]
    -- the port the client has is skipped without a lookup
    by_cases hown : remapCandidate seed i = original
    · rw [if_pos hown, if_pos hown, ih]
    · rw [if_neg hown, if_neg hown]
      have htaken : n.isReverseKeyTaken f (f.revKey start) (remapCandidate seed i) =
          n'.isReverseKeyTaken f (f.revKey start) (remapCandidate seed i) := by
        simp only [Node.isReverseKeyTaken, patchPort_revKey]
        rw [h.reverseRow (hreverse _)]
      have hnext : (n'.isReverseKeyTaken f (f.revKey start) (remapCandidate seed i)).1 =
          f.revKey (remapCandidate seed i) := patchPort_revKey ..
      -- a taken candidate leads on, from the key it was asked under
      rw [htaken]
      split
      · rename_i s htaken'
        rw [htaken'] at hnext
        obtain rfl : s = f.revKey (remapCandidate seed i) := hnext
        exact ih _ _
      · rfl

/-- Two resolutions of a port that come to the same, on maps in agreement. -/
inductive SamePort (K : EntryKey → Prop) : PortOutcome → PortOutcome → Prop
  | port {m m' : Node} (h : AgreeOn K m m') (key : FlowKey) (port : UInt16) :
      SamePort K (.port m key port) (.port m' key port)
  | exhausted : SamePort K .exhausted .exhausted
  | refused : SamePort K .refused .refused

/-- The port of a forward packet depends on the flow's memo and on its reverse rows. -/
theorem resolvePort (h : AgreeOn K n n') (helpers : Helpers) {f : ClientFlow}
    (hmemo : K (.flowTable f.memoKey)) (hreverse : ∀ port, K (.flowTable (f.revKey port))) :
    SamePort K (n.resolvePort helpers f) (n'.resolvePort helpers f) := by
  unfold Node.resolvePort
  rw [← h.portMemo hmemo, ← h.reverseRow (hreverse f.clientPort)]
  simp only
  -- a memo decides on its own, else the probe does
  cases backendPortResolution ((n.flowTableGetPortMemo f.memoKey).map (·.backendSrcPort)) with
  | memoized port => exact .port h _ _
  | probe =>
    have hprobe : ∀ occupant, resolveBackendSrcPort (n.isReverseKeyTaken f) occupant
        (f.frontIp, f.frontPort) f.clientPort (f.revKey 0) =
        resolveBackendSrcPort (n'.isReverseKeyTaken f) occupant (f.frontIp, f.frontPort) f.clientPort
          (f.revKey 0) := by
      intro occupant
      unfold resolveBackendSrcPort
      rw [h.probeLoop hreverse]
    simp only [hprobe]
    split
    · exact .port h _ _
    · split
      · exact .port (h.flowTableInsert _ _) _ _
      · exact .refused
    · exact .exhausted

omit [Host] in
/-- A reverse row is written on both sides, with the same flags, or refused on both. -/
theorem commitReverseRow (h : AgreeOn K n n') (helpers : Helpers) {key : FlowKey} (hkey : K (.flowTable key))
    (v : RevFlowValue) (proto tcpFlags : UInt8) :
    Option.Rel (AgreeOn K) (n.commitReverseRow helpers key v proto tcpFlags)
      (n'.commitReverseRow helpers key v proto tcpFlags) := by
  unfold Node.commitReverseRow
  rw [← h.reverseRow hkey, ← h.gcParity]
  simp only
  split
  · exact .some h
  · split
    · split
      · exact .some (h.flowTableInsert _ _)
      · exact .none
    · exact .some h

/-- What a forward packet commits depends on the rows of its flow. -/
theorem decapForwardCommit (h : AgreeOn K n n') (helpers : Helpers) (skb : Skb) {p : ForwardPacket}
    (hmemo : K (.flowTable p.flow.memoKey)) (hreverse : ∀ port, K (.flowTable (p.flow.revKey port))) :
    EndAlike K (Beep.decapForwardCommit n helpers skb p) (Beep.decapForwardCommit n' helpers skb p) := by
  unfold Beep.decapForwardCommit
  have hport := h.resolvePort helpers hmemo hreverse
  generalize hres : n.resolvePort helpers p.flow = res at hport ⊢
  generalize n'.resolvePort helpers p.flow = res' at hport ⊢
  cases hport with
  | exhausted | refused => exact ⟨rfl, h⟩
  | @port n₁ n₁' hagree revKey port =>
    obtain ⟨_, rfl⟩ := resolvePort_port hres
    simp only
    cases tcpFlagsDirect skb p.flow.proto (ethHlen + p.family.ipHlen) with
    | none => exact ⟨rfl, hagree⟩
    | some tcpFlags =>
      have hrow := hagree.commitReverseRow helpers (hreverse port) p.revValue p.flow.proto tcpFlags
      simp only
      generalize n₁.commitReverseRow helpers (p.flow.revKey port) p.revValue p.flow.proto tcpFlags = row
        at hrow ⊢
      generalize n₁'.commitReverseRow helpers (p.flow.revKey port) p.revValue p.flow.proto tcpFlags = row'
        at hrow ⊢
      cases hrow with
      | none => exact ⟨rfl, hagree⟩
      | some hagree' => exact ⟨rfl, hagree'⟩

end AgreeOn

namespace AgreeOn

variable {K : EntryKey → Prop} {n n' : Node}

/-- Rows of other flows stay. -/
theorem decapForwardCommit_outside (n : Node) (helpers : Helpers) (skb : Skb) {p : ForwardPacket}
    (hmemo : ¬ K (.flowTable p.flow.memoKey)) (hreverse : ∀ port, ¬ K (.flowTable (p.flow.revKey port))) :
    AgreeOn K (Beep.decapForwardCommit n helpers skb p).1 n := by
  -- the memo is written with the port, then the reverse row under that port
  rcases decapForwardCommit_cases n helpers skb p with heq | ⟨n₁, port, hchosen, hn⟩
  · rw [heq]
    exact refl n
  · have hport : AgreeOn K n₁ n := by
      cases hchosen with
      | memoized _ | natural _ _ => exact refl n
      | remapped _ _ _ _ => exact flowTableInsert_outside n hmemo _
    rcases hn with heq | ⟨tcpFlags, flags, _, _, _, heq⟩
    · rw [heq]
      exact hport
    · rw [heq]
      exact (flowTableInsert_outside n₁ (hreverse port) _).trans hport

/-! ## The programs' last steps

What is left of each program reads the maps no more, apart from the uplink's row. -/

omit [Host] in
/-- The way back to a client depends on the uplinks. -/
theorem redirectClientBound (h : AgreeOn K n n') (helpers : Helpers) (ingressIfindex : UInt32) :
    n.redirectClientBound helpers ingressIfindex = n'.redirectClientBound helpers ingressIfindex := by
  unfold Node.redirectClientBound
  rw [h.uplinkConfig]

/-- A forward frame comes to the same where its flow's rows agree. -/
theorem deliverForward (h : AgreeOn K n n') (helpers : Helpers) (skb : Skb) {p : ForwardPacket}
    (hmemo : K (.flowTable p.flow.memoKey)) (hreverse : ∀ port, K (.flowTable (p.flow.revKey port))) :
    EndAlike K (Beep.deliverForward n helpers skb p) (Beep.deliverForward n' helpers skb p) := by
  have hcommit := h.decapForwardCommit helpers skb hmemo hreverse
  unfold Beep.deliverForward
  rcases hres : Beep.decapForwardCommit n helpers skb p with ⟨m, result⟩
  rcases hres' : Beep.decapForwardCommit n' helpers skb p with ⟨m', result'⟩
  rw [hres, hres'] at hcommit
  obtain ⟨rfl, hagree⟩ := hcommit
  cases result with
  | error verdict => exact ⟨rfl, hagree⟩
  | ok port =>
    simp only
    rcases decapForwardRewrite helpers p port skb with ⟨skb', _ | _⟩
    · exact ⟨rfl, hagree⟩
    · simp only
      split
      · exact ⟨rfl, hagree⟩
      · exact ⟨rfl, hagree⟩

/-- A return frame comes to the same where its flow's two entries agree, if its flags byte can be read. -/
theorem deliverReturn (h : AgreeOn K n n') (helpers : Helpers) (skb : Skb) {p : ReturnPacket}
    (hsought : ∀ tcpFlags, p.tcpFlags skb = some tcpFlags → K (.fwdPending p.flowKey) ∧ K (.flowTable p.fwdKey)) :
    EndAlike K (Beep.deliverReturn n helpers skb p) (Beep.deliverReturn n' helpers skb p) := by
  unfold ReturnPacket.tcpFlags at hsought
  unfold Beep.deliverReturn
  simp only
  -- an unreadable frame ends before the first lookup
  cases hflags : tcpFlagsDirect skb p.inner.proto (ethHlen + p.family.ipHlen) with
  | none => exact ⟨rfl, h⟩
  | some tcpFlags =>
    obtain ⟨hpending, hforward⟩ := hsought tcpFlags hflags
    have hauth := h.authorizeReturn helpers tcpFlags hpending hforward
    simp only
    rcases hres : n.authorizeReturn helpers p tcpFlags with ⟨m, value⟩
    rcases hres' : n'.authorizeReturn helpers p tcpFlags with ⟨m', value'⟩
    rw [hres, hres'] at hauth
    obtain ⟨rfl, hagree⟩ := hauth
    cases value with
    | none => exact ⟨rfl, hagree⟩
    | some value =>
      simp only
      split
      · exact ⟨rfl, hagree⟩
      · exact ⟨congrArg (Prod.mk _) (hagree.redirectClientBound helpers _), hagree⟩

/-- A reply comes to the same where its reverse row agrees. -/
theorem tunnelReply (h : AgreeOn K n n') (helpers : Helpers) (skb : Skb) {p : ReplyPacket}
    (hrow : K (.flowTable p.key)) :
    EndAlike K (Beep.tunnelReply n helpers skb p) (Beep.tunnelReply n' helpers skb p) := by
  unfold Beep.tunnelReply
  rw [← h.reverseRow hrow]
  cases n.flowTableGetReverse p.key with
  | none => exact ⟨rfl, h⟩
  | some rev =>
    simp only [Option.isSome_some, egressReturnOutcome, if_true]
    cases tcpFlagsDirect skb p.proto (p.l2Hlen + p.family.ipHlen) with
    | none => exact ⟨rfl, h⟩
    | some tcpFlags =>
      have htouched := h.touchReturnRow helpers p.key rev p.proto tcpFlags
      simp only [htouched.config]
      split
      · exact ⟨rfl, htouched⟩
      · split
        · exact ⟨rfl, htouched⟩
        · exact ⟨rfl, htouched⟩

/-! ## Reads

What the gates read of a node is no entry that an address keys, apart from `POD_TARGETS`. -/

/-- Which packets of an uplink are a flow's depends on the uplinks. -/
theorem ingressAdmit (h : AgreeOn K n n') (skb : Skb) :
    Beep.ingressAdmit n skb = Beep.ingressAdmit n' skb := by
  unfold Beep.ingressAdmit
  rw [h.uplinkConfig]

/-- The pod option counts if the peer is known. -/
theorem podOption (h : AgreeOn K n n') (skb : Skb) (info : TunnelInfo) :
    Beep.podOption n skb info = Beep.podOption n' skb info := by
  unfold Beep.podOption
  rw [h.isNodeAllowed]

/-- So does the echoed front. -/
theorem decapReturnGate (h : AgreeOn K n n') (skb : Skb) (info : TunnelInfo) :
    Beep.decapReturnGate n skb info = Beep.decapReturnGate n' skb info := by
  unfold Beep.decapReturnGate
  rw [h.isNodeAllowed]

end AgreeOn

/-- The gates of a forward frame: its pod option, and whether the pod is a local one. -/
theorem decapForwardGate_eq (n : Node) (skb : Skb) (info : TunnelInfo) :
    decapForwardGate n skb info = (podOption n skb info).filter fun pod => n.isPodTarget pod.1 := by
  unfold decapForwardGate podOption
  cases peerNodeAdmission (n.isNodeAllowed (tunnelRemote info.remote)) with
  | drop => rfl
  | «continue» =>
    cases skb.getTunnelOpt with
    | none => rfl
    | some found =>
      -- an option of another length is no pod's
      by_cases hlen : found.1 ≠ 24
      · simp only [if_pos hlen, Option.filter_none]
      · simp only [if_neg hlen]
        cases decodePodIdOption found.2 with
        | none => rfl
        | some pod =>
          unfold decapForwardPodAdmission
          cases hpod : n.isPodTarget pod.1 <;> simp [Option.filter, hpod]

/-- What a reply is read as depends on the node by its source pod only. -/
theorem egressHeaders_congr {n n' : Node} {fam : Family} {l2Hlen : Nat} {skb : Skb}
    (h : ∀ src, egressSource fam l2Hlen skb = some src → n.isPodTarget src = n'.isPodTarget src) :
    egressHeaders n fam l2Hlen skb = egressHeaders n' fam l2Hlen skb := by
  unfold egressHeaders
  unfold egressSource at h
  -- the source is read after the header checks, and asked for last
  cases hver : loadVersion skb l2Hlen with
  | none => rfl
  | some ver =>
    cases hok : fam.uplinkHeaderOk ver with
    | false => simp [hok]
    | true =>
      cases hproto : skb.loadDirect.u8 (l2Hlen + fam.protoOff) with
      | none => simp [hok]
      | some proto =>
        cases hflow : isFlowProto proto with
        | false => simp [hflow]
        | true =>
          cases hsrc : fam.loadAddr skb.loadDirect (l2Hlen + fam.srcOff) with
          | none => simp [hok, hflow]
          | some src =>
            have hpod := h src (by simp [hver, hok, hproto, hflow, hsrc, guard])
            simp [hok, hflow, hpod]

/-! ## Packets

The three programs, each from the entries it seeks. -/

section
variable {K : EntryKey → Prop} {n n' : Node} {skb : Skb} {helpers : Helpers}

/-- A packet steered alike goes into the tunnel alike. -/
theorem EndAlike.uplinkIngressEncap {f : IngressFlow} {ifindex : UInt32} (l3Only : Bool)
    (h : EndAlike K (n.steer helpers f ifindex) (n'.steer helpers f ifindex)) :
    EndAlike K (Beep.uplinkIngressEncap n helpers skb ifindex f l3Only)
      (Beep.uplinkIngressEncap n' helpers skb ifindex f l3Only) := by
  rcases hres : n.steer helpers f ifindex with ⟨m, answer⟩
  rcases hres' : n'.steer helpers f ifindex with ⟨m', answer'⟩
  rw [hres, hres'] at h
  obtain ⟨rfl, hagree⟩ := h
  simp only [Node.steer, IngressFlow.flowKey, IngressFlow.fwdKey] at hres hres'
  simp only [Beep.uplinkIngressEncap, hres, hres']
  cases answer with
  | error verdict => exact ⟨rfl, hagree⟩
  | ok answer =>
    have hconfig : m.config = m'.config := hagree.config
    simp only [hconfig]
    cases m'.config.map (·.geneveIfindex) with
    | none => exact ⟨rfl, hagree⟩
    | some geneveIfindex => exact ⟨rfl, hagree⟩

/-- **Uplink ingress**: the front, the pending entry and the forward row of the packet's flow. -/
theorem EndAlike.uplinkIngress (h : AgreeOn K n n')
    (hseeks : ∀ key, n.Seeks (.uplinkIngress skb helpers) key → K key) :
    EndAlike K (Beep.uplinkIngress n helpers skb) (Beep.uplinkIngress n' helpers skb) := by
  have htry : EndAlike K (tryUplinkIngress n helpers skb) (tryUplinkIngress n' helpers skb) := by
    unfold tryUplinkIngress
    rw [← h.ingressAdmit skb]
    cases hadm : ingressAdmit n skb with
    | none => exact ⟨rfl, h⟩
    | some found =>
      exact .uplinkIngressEncap _ (h.steer helpers skb.ingressIfindex (hseeks _ (.front hadm))
        (hseeks _ (.pending hadm)) (hseeks _ (.forward hadm)))
  exact ⟨congrArg (fun r : Skb × Option TcAction => (r.1, r.2.getD .ok)) htry.rest, htry.maps⟩

/-- A frame on `geneve0` comes to the same when its sibling does. -/
theorem EndAlike.byEthertype (h : AgreeOn K n n') (deliver deliver' : Family → InnerPacket → HookResult)
    (hdeliver : ∀ fam inner, innerPacket skb = some (fam, inner) →
      EndAlike K (deliver fam inner) (deliver' fam inner)) :
    EndAlike K
      (Beep.byEthertype n skb (withInner n skb .v4 (deliver .v4)) (withInner n skb .v6 (deliver .v6)))
      (Beep.byEthertype n' skb (withInner n' skb .v4 (deliver' .v4)) (withInner n' skb .v6 (deliver' .v6))) := by
  unfold Beep.byEthertype
  -- the frame's EtherType says which sibling it goes to
  cases hload : skb.load.u16 12 with
  | none => exact ⟨rfl, h⟩
  | some ethertype =>
    cases hfam : Family.ofEthertype ethertype with
    | none => simpa only [hfam] using ⟨rfl, h⟩
    | some fam =>
      have hinner : EndAlike K (withInner n skb fam (deliver fam)) (withInner n' skb fam (deliver' fam)) := by
        unfold withInner
        cases hparsed : parseInner fam skb with
        | none => exact ⟨rfl, h⟩
        | some parsed =>
          cases parsed with
          | none => exact ⟨rfl, h⟩
          | some inner => exact hdeliver fam inner (innerPacket_eq_some.mpr ⟨ethertype, hload, hfam, hparsed⟩)
      simp only [hfam]
      cases fam with
      | v4 => exact hinner
      | v6 => exact hinner

/-- **`geneve0`**: the pod of the option, then the rows of the flow that the frame belongs to. -/
theorem EndAlike.geneveIngress (h : AgreeOn K n n')
    (hseeks : ∀ key, n.Seeks (.geneveIngress skb helpers) key → K key) :
    EndAlike K (Beep.geneveIngress n helpers skb) (Beep.geneveIngress n' helpers skb) := by
  have hgetD : ∀ {r r' : HookResult}, EndAlike K r r' →
      EndAlike K (r.1, r.2.1, r.2.2.getD TcAction.shot) (r'.1, r'.2.1, r'.2.2.getD TcAction.shot) :=
    fun hr => ⟨congrArg (fun r : Skb × Option TcAction => (r.1, r.2.getD .shot)) hr.rest, hr.maps⟩
  unfold Beep.geneveIngress
  cases hinfo : skb.received with
  | none => exact ⟨rfl, h⟩
  | some info =>
    by_cases hfwd : info.tunnelId = vniFwd
    · -- the gates ask `POD_TARGETS` for the pod of the option
      have hgate : decapForwardGate n skb info = decapForwardGate n' skb info := by
        rw [decapForwardGate_eq, decapForwardGate_eq, ← h.podOption]
        cases hopt : podOption n skb info with
        | none => rfl
        | some pod => simp only [Option.filter, h.isPodTarget (hseeks _ (.optionPod hinfo hfwd hopt))]
      simp only [if_pos hfwd]
      refine hgetD ?_
      unfold tryGeneveDecapForward
      rw [← hgate]
      cases hpassed : decapForwardGate n skb info with
      | none => exact ⟨rfl, h⟩
      | some pod =>
        refine .byEthertype h (fun fam inner => deliverForward n helpers skb (inner.toForward fam info pod.1 pod.2))
          (fun fam inner => deliverForward n' helpers skb (inner.toForward fam info pod.1 pod.2)) ?_
        intro fam inner hinner
        have hadm := decapForwardAdmit_eq_some.mpr
          ⟨info, pod.1, pod.2, fam, inner, hinfo, hfwd, hpassed, hinner, rfl⟩
        exact h.deliverForward helpers skb (hseeks _ (.memo hadm)) fun port => hseeks _ (.reverse hadm port)
    · -- not a forward frame: a return frame, or none of ours
      simp only [if_neg hfwd]
      by_cases hret : info.tunnelId = vniRet
      · simp only [if_pos hret]
        refine hgetD ?_
        unfold tryGeneveDecapReturn
        rw [← h.decapReturnGate]
        cases hpassed : decapReturnGate n skb info with
        | none => exact ⟨rfl, h⟩
        | some front =>
          refine .byEthertype h
            (fun fam inner => deliverReturn n helpers skb ⟨fam, inner, front.1, front.2⟩)
            (fun fam inner => deliverReturn n' helpers skb ⟨fam, inner, front.1, front.2⟩) ?_
          intro fam inner hinner
          have hadm : decapReturnAdmit n skb = some ⟨fam, inner, front.1, front.2⟩ :=
            decapReturnAdmit_eq_some.mpr ⟨info, hinfo, hret, hpassed, hinner⟩
          exact h.deliverReturn helpers skb fun _ hflags =>
            ⟨hseeks _ (.returnPending hadm hflags), hseeks _ (.returnForward hadm hflags)⟩
      · simp only [if_neg hret]
        exact ⟨rfl, h⟩

/-- **Uplink egress**: the source pod, then the reverse row of the reply. -/
theorem EndAlike.uplinkEgressReturn (h : AgreeOn K n n')
    (hseeks : ∀ key, n.Seeks (.uplinkEgress skb helpers) key → K key) :
    EndAlike K (Beep.uplinkEgressReturn n helpers skb) (Beep.uplinkEgressReturn n' helpers skb) := by
  have htry : EndAlike K (tryUplinkEgressReturn n helpers skb) (tryUplinkEgressReturn n' helpers skb) := by
    unfold tryUplinkEgressReturn
    -- a packet that was redirected here passes at once
    by_cases hmark : isRedirectedReturnMark skb.mark = true
    · simp only [if_pos hmark]
      exact ⟨rfl, h⟩
    · simp only [if_neg hmark, ← h.uplinkConfig]
      cases huplink : n.uplinkConfig.lookup skb.ifindex with
      | none => exact ⟨rfl, h⟩
      | some uplink =>
        by_cases hlen : uplink.l2Hlen.toNat = 0 ∨ uplink.l2Hlen.toNat = ethHlen
        · simp only [if_pos hlen, tryUplinkEgressReturnHeaders]
          -- neither family passes
          cases hfam : uplinkFamily uplink.l2Hlen.toNat skb with
          | none => exact ⟨rfl, h⟩
          | some found =>
            cases found with
            | none => exact ⟨rfl, h⟩
            | some fam =>
              have hframe : egressFrame n skb = some (uplink.l2Hlen.toNat, fam) := by
                simp [egressFrame, hmark, huplink, hlen, hfam, guard]
              have hreply : EndAlike K (uplinkEgressReply fam uplink.l2Hlen.toNat n helpers skb)
                  (uplinkEgressReply fam uplink.l2Hlen.toNat n' helpers skb) := by
                unfold uplinkEgressReply
                rw [← egressHeaders_congr fun src hsrc =>
                  h.isPodTarget (hseeks _ (.sourcePod hframe hsrc))]
                cases hparsed : egressHeaders n fam uplink.l2Hlen.toNat skb with
                | none => exact ⟨rfl, h⟩
                | some parsed =>
                  cases parsed with
                  | none => exact ⟨rfl, h⟩
                  | some p =>
                    have hadm := egressAdmit_eq_some.mpr
                      ⟨Bool.eq_false_iff.mpr hmark, uplink, fam, huplink, hlen, hfam, hparsed⟩
                    exact h.tunnelReply helpers skb (hseeks _ (.reply hadm))
              cases fam with
              | v4 => exact hreply
              | v6 => exact hreply
        · simp only [if_neg hlen]
          exact ⟨rfl, h⟩
  exact ⟨congrArg (fun r : Skb × Option TcAction => (r.1, r.2.getD .ok)) htry.rest, htry.maps⟩

/-- **The footprint is enough.** On nodes that agree on what a packet seeks, its program comes to the same. -/
theorem AgreeOn.packet {e : NodeEvent} (h : AgreeOn K n n') (hseeks : ∀ key, n.Seeks e key → K key) :
    n.outcome e = n'.outcome e := by
  cases e with
  | uplinkIngress skb helpers => exact congrArg some (EndAlike.uplinkIngress h hseeks).rest
  | geneveIngress skb helpers => exact congrArg some (EndAlike.geneveIngress h hseeks).rest
  | uplinkEgress skb helpers => exact congrArg some (EndAlike.uplinkEgressReturn h hseeks).rest
  | _ => rfl

/-- What is sought is enough for the maps as well; every other event writes the same on both sides. -/
theorem AgreeOn.step {e : NodeEvent} (h : AgreeOn K n n') (hseeks : ∀ key, n.Seeks e key → K key) :
    AgreeOn K (n.step e) (n'.step e) := by
  cases e with
  | uplinkIngress skb helpers => exact (EndAlike.uplinkIngress h hseeks).maps
  | geneveIngress skb helpers => exact (EndAlike.geneveIngress h hseeks).maps
  | uplinkEgress skb helpers => exact (EndAlike.uplinkEgressReturn h hseeks).maps
  | dropFlow key =>
    exact { h with
      flowTable := fun key' hkey' => by
        simp only [Node.step, Table.lookup_erase_ite, h.flowTable key' hkey'] }
  | dropPending key =>
    exact { h with
      fwdPending := fun key' hkey' => by
        simp only [Node.step, Table.lookup_erase_ite, h.fwdPending key' hkey'] }
  | setFronts _ _ => exact { h with frontMeta := fun _ _ => rfl, frontEndpoints := fun _ _ => rfl }
  | setConfig _ => exact { h with config := rfl }
  | setPodTargets _ => exact { h with podTargets := fun _ _ => rfl }
  | setNodeAllow _ => exact { h with nodeAllow := rfl }
  | setUplinks _ => exact { h with uplinkConfig := rfl }

/-- **The footprint is all.** A packet leaves the entries it does not seek as they are. -/
theorem AgreeOn.unsought {e : NodeEvent} (hpacket : e.IsPacket) (hseeks : ∀ key, n.Seeks e key → ¬ K key) :
    AgreeOn K (n.step e) n := by
  cases e with
  | uplinkIngress skb helpers =>
    simp only [Node.step, uplinkIngress_fst]
    cases hadm : Beep.ingressAdmit n skb with
    | none => exact .refl n
    | some found => exact .steer_outside n helpers _ (hseeks _ (.pending hadm)) (hseeks _ (.forward hadm))
  | geneveIngress skb helpers =>
    cases hfwd : decapForwardAdmit n skb with
    | some p =>
      simp only [Node.step, geneveIngress_forward hfwd, deliverForward_fst]
      exact .decapForwardCommit_outside n helpers skb (hseeks _ (.memo hfwd))
        fun port => hseeks _ (.reverse hfwd port)
    | none =>
      -- a frame on `geneve0` is a forward packet, a return packet or neither
      cases hret : decapReturnAdmit n skb with
      | some p =>
        simp only [Node.step, geneveIngress_return hret, deliverReturn_fst]
        cases hflags : tcpFlagsDirect skb p.inner.proto (ethHlen + p.family.ipHlen) with
        | none => exact .refl n
        | some tcpFlags =>
          exact .authorizeReturn_outside n helpers tcpFlags (hseeks _ (.returnPending hret hflags))
            (hseeks _ (.returnForward hret hflags))
      | none =>
        obtain ⟨v, hv⟩ := geneveIngress_other (h := helpers) hfwd hret
        simp only [Node.step, hv]
        exact .refl n
  | uplinkEgress skb helpers =>
    cases hp : egressAdmit n skb with
    | none =>
      obtain ⟨skb', hskb'⟩ := uplinkEgressReturn_other (h := helpers) hp
      simp only [Node.step, hskb']
      exact .refl n
    | some p =>
      simp only [Node.step, uplinkEgressReturn_reply hp]
      rcases tunnelReply_fst n helpers skb p with heq | ⟨rev, tcpFlags, _, heq⟩
      · rw [heq]
        exact .refl n
      · rw [heq]
        rcases touchReturnRow_cases n helpers p.key rev p.proto tcpFlags with heq | ⟨flags, _, heq⟩
        · rw [heq]
          exact .refl n
        · rw [heq]
          exact .flowTableInsert_outside n (hseeks _ (.reply hp)) _
  | _ => exact hpacket.elim

end

end Beep
