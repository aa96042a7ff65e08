import Beep.Ebpf.Correctness.PortStability

/-!
# `Ebpf.Correctness.PortProbe` — which port the probe finds, and what the pod sees of it

The probe tries the 16 candidates of its front in order and takes the first one that is not the client's own port and
whose reverse key is free (`resolveBackendSrcPort_spec`). The candidates are host integers from the dynamic range, and
stored as the wire tokens they are compared with. So what the pod reads in network order is the candidate on a
big-endian host, and the candidate with its bytes swapped on any other (`remapped_port_dynamic_iff`).
-/

namespace Beep

variable [Host]

/-! ## The candidates -/

/-- The ports the probe tries, in order. -/
def remapCandidates (seed : UInt16) : List UInt16 :=
  (List.range probeLimit).map fun i => remapCandidate seed (UInt16.ofNat i)

theorem syntheticPortSeed_lt (frontIp : Bytes 16) (frontPort : UInt16) :
    (syntheticPortSeed frontIp frontPort).toNat < 16384 := by
  unfold syntheticPortSeed
  rw [UInt16.toNat_mod]
  exact Nat.mod_lt _ (by decide)

omit [Host] in
/-- A candidate is a number of the dynamic range: nothing overflows, also where the window wraps. -/
theorem toNat_remapCandidate (seed : UInt16) {i : Nat} (hi : i < probeLimit) :
    (remapCandidate seed (UInt16.ofNat i)).toNat = 49152 + (seed.toNat + i) % 16384 := by
  have hi : i < 16 := hi
  have hindex : (UInt16.ofNat i).toNat = i := UInt16.toNat_ofNat_of_lt' (show i < 65536 by omega)
  have hbase : remapPortBase.toNat = 49152 := rfl
  have hrange : remapPortRange.toNat = 16384 := rfl
  unfold remapCandidate
  rw [UInt16.toNat_add, UInt16.toNat_mod, UInt16.toNat_add, hindex, hbase, hrange]
  omega

omit [Host] in
theorem nodup_remapCandidates (seed : UInt16) : (remapCandidates seed).Nodup := by
  refine List.nodup_range.map_on fun i hi j hj heq => ?_
  have hnat := congrArg UInt16.toNat heq
  rw [List.mem_range] at hi hj
  rw [toNat_remapCandidate seed hi, toNat_remapCandidate seed hj] at hnat
  have hlimit : probeLimit = 16 := rfl
  omega

/-! ## The probe -/

section
variable {σ : Type*}

omit [Host] in
/-- The loop finds the first candidate that will do, where the closure's answers do not depend on its state in the
    states it is called in. -/
theorem probeLoop_find {isTaken : σ → UInt16 → σ × Bool} {taken : UInt16 → Bool} {Called : σ → Prop}
    (htaken : ∀ s port, Called s → (isTaken s port).2 = taken port ∧ Called (isTaken s port).1)
    (seed originalPort : UInt16) {fuel k : Nat} (hk : k + fuel = probeLimit) {s : σ} (hs : Called s) :
    (probeLoop isTaken seed originalPort fuel (UInt16.ofNat k) s).1 =
      match (((List.range probeLimit).drop k).map fun i => remapCandidate seed (UInt16.ofNat i)).find?
          fun c => c ≠ originalPort ∧ taken c = false with
      | some port => .remap port
      | none => .exhausted := by
  -- on the tries that are left
  induction fuel generalizing k s with
  | zero =>
    rw [List.drop_of_length_le (by rw [List.length_range]; omega)]
    rfl
  | succ fuel ih =>
    have hlt : k < (List.range probeLimit).length := by
      rw [List.length_range]
      omega
    have hnext : UInt16.ofNat k + 1 = UInt16.ofNat (k + 1) := by
      apply UInt16.toNat_inj.mp
      simp [UInt16.toNat_add]
    rw [List.drop_eq_getElem_cons hlt, List.getElem_range, List.map_cons, List.find?_cons, probeLoop, hnext]
    generalize remapCandidate seed (UInt16.ofNat k) = candidate
    by_cases hown : candidate = originalPort
    · rw [if_pos hown, decide_eq_false (fun h => h.1 hown)]
      exact ih (by omega) hs
    · rw [if_neg hown]
      obtain ⟨hanswer, hcalled⟩ := htaken s candidate hs
      rcases hcall : isTaken s candidate with ⟨s', answer⟩
      rw [hcall] at hanswer hcalled
      dsimp only at hanswer hcalled
      rw [← hanswer]
      cases answer with
      | true =>
        rw [decide_eq_false (fun h => Bool.noConfusion h.2)]
        exact ih (by omega) hcalled
      | false =>
        rw [decide_eq_true ⟨hown, rfl⟩]

/-- The first candidate of a front that is not the client's own port and not taken. -/
def firstFree (front : Bytes 16 × UInt16) (originalPort : UInt16) (taken : UInt16 → Bool) : Option UInt16 :=
  (remapCandidates (syntheticPortSeed front.1 front.2)).find? fun c => c ≠ originalPort ∧ taken c = false

theorem resolveBackendSrcPort_conflict {isTaken : σ → UInt16 → σ × Bool} {taken : UInt16 → Bool} {Called : σ → Prop}
    (htaken : ∀ s port, Called s → (isTaken s port).2 = taken port ∧ Called (isTaken s port).1)
    {existing : Option Occupant} {front : Bytes 16 × UInt16} {originalPort : UInt16}
    (hconflict : occupantConflicts existing front originalPort = true) {s : σ} (hs : Called s) :
    (resolveBackendSrcPort isTaken existing front originalPort s).1 =
      match firstFree front originalPort taken with
      | some port => .remap port
      | none => .exhausted := by
  unfold resolveBackendSrcPort
  rw [hconflict]
  have hfind := probeLoop_find htaken (syntheticPortSeed front.1 front.2) originalPort
    (k := 0) (Nat.zero_add probeLimit) hs
  rw [List.drop_zero] at hfind
  exact hfind

end

/-- Whether another flow holds the reverse key of a port. -/
def Node.portTaken (n : Node) (f : ClientFlow) (port : UInt16) : Bool :=
  occupantConflicts ((n.flowTableGetReverse (f.revKey port)).bind reverseOccupant) (f.frontIp, f.frontPort) f.clientPort

/-- The closure patches the port of a reverse key and looks it up. -/
theorem isReverseKeyTaken_revKey (n : Node) (f : ClientFlow) (start port : UInt16) :
    n.isReverseKeyTaken f (f.revKey start) port = (f.revKey port, n.portTaken f port) := by
  unfold Node.isReverseKeyTaken Node.portTaken
  rw [patchPort_revKey]

/-- **The port resolution meets its specification**: the client's own port if its key is not another flow's, else the
    first of 16 distinct ports of the dynamic range that is not the client's own and not taken. The port it settles on
    is the last one it asked for, so the caller's patched key is that of the port. -/
theorem resolveBackendSrcPort_spec (existing : Option Occupant) (front : Bytes 16 × UInt16) (originalPort : UInt16) :
    (∀ {σ : Type} (next : σ → UInt16 → σ) (taken : UInt16 → Bool) (s : σ),
      let decision := resolveBackendSrcPort (fun s port => (next s port, taken port)) existing front originalPort s
      (decision.1 = .noRemap ↔ occupantConflicts existing front originalPort = false) ∧
      (∀ port, decision.1 = .remap port ↔
        occupantConflicts existing front originalPort = true ∧ firstFree front originalPort taken = some port) ∧
      (decision.1 = .exhausted ↔
        occupantConflicts existing front originalPort = true ∧ firstFree front originalPort taken = none) ∧
      ∀ port, decision.1 = .remap port → ∃ before, decision.2 = next before port) ∧
    (remapCandidates (syntheticPortSeed front.1 front.2)).Nodup ∧
    (remapCandidates (syntheticPortSeed front.1 front.2)).length = 16 ∧
    (∀ candidate ∈ remapCandidates (syntheticPortSeed front.1 front.2),
      49152 ≤ candidate.toNat ∧ candidate.toNat ≤ 65535) ∧
    (∀ i, i < 16 → (syntheticPortSeed front.1 front.2).toNat + i < 65536 ∧
      (remapCandidate (syntheticPortSeed front.1 front.2) (UInt16.ofNat i)).toNat =
        49152 + ((syntheticPortSeed front.1 front.2).toNat + i) % 16384) ∧
    ∀ (n : Node) (f : ClientFlow) (port : UInt16),
      (resolveBackendSrcPort (n.isReverseKeyTaken f) existing front originalPort (f.revKey 0)).1 = .remap port →
      (resolveBackendSrcPort (n.isReverseKeyTaken f) existing front originalPort (f.revKey 0)).2 =
        encodeFlowKey f.clientIp port f.podIp f.targetPort f.proto .reverse := by
  have hseed := syntheticPortSeed_lt front.1 front.2
  refine ⟨?_, nodup_remapCandidates _, ?_, ?_, ?_, ?_⟩
  · intro σ next taken s
    have hno := @resolveBackendSrcPort_noRemap _ σ (fun s port => (next s port, taken port)) existing front originalPort s
    have hfind := @resolveBackendSrcPort_conflict _ σ (fun s port => (next s port, taken port)) taken (fun _ => True)
      (fun _ _ _ => ⟨rfl, trivial⟩) existing front originalPort
    have hlast := @resolveBackendSrcPort_remap _ σ (fun s port => (next s port, taken port)) existing front originalPort
    generalize resolveBackendSrcPort (fun s port => (next s port, taken port)) existing front originalPort = resolve
      at hno hfind hlast ⊢
    refine ⟨hno, ?_, ?_, ?_⟩
    · intro port
      cases hconflict : occupantConflicts existing front originalPort with
      | false => simp [hno.mpr hconflict]
      | true =>
        rw [hfind hconflict trivial]
        cases firstFree front originalPort taken <;> simp
    · cases hconflict : occupantConflicts existing front originalPort with
      | false => simp [hno.mpr hconflict]
      | true =>
        rw [hfind hconflict trivial]
        cases firstFree front originalPort taken <;> simp
    · intro port hport
      obtain ⟨_, _, before, hcall⟩ := hlast (Prod.ext hport rfl)
      exact ⟨before, (Prod.mk.inj hcall).1.symm⟩
  · simp [remapCandidates, probeLimit]
  · intro candidate hcandidate
    obtain ⟨i, hi, rfl⟩ := List.mem_map.mp hcandidate
    rw [toNat_remapCandidate _ (List.mem_range.mp hi)]
    omega
  · intro i hi
    exact ⟨by omega, toNat_remapCandidate _ hi⟩
  · intro n f port hport
    obtain ⟨hconflict, _, _⟩ := resolveBackendSrcPort_remap (Prod.ext hport rfl)
    unfold resolveBackendSrcPort at hport ⊢
    rw [hconflict] at hport ⊢
    exact (probeLoop_isReverseKeyTaken (Prod.ext hport rfl)).1

/-! ## What the pod sees of the port -/

/-- The first candidate of a forward packet that will do. -/
def Node.firstFreePort (n : Node) (f : ClientFlow) : Option UInt16 :=
  firstFree (f.frontIp, f.frontPort) f.clientPort (n.portTaken f)

/-- The decision `resolve_backend_src_port` comes to for a forward packet without a memo. -/
def Node.portDecision (n : Node) (f : ClientFlow) : BackendPortDecision :=
  (resolveBackendSrcPort (n.isReverseKeyTaken f) ((n.flowTableGetReverse (f.revKey f.clientPort)).bind reverseOccupant)
    (f.frontIp, f.frontPort) f.clientPort (f.revKey 0)).1

theorem firstFreePort_of_remap {n : Node} {f : ClientFlow} {port : UInt16} (h : n.portDecision f = .remap port) :
    n.firstFreePort f = some port := by
  unfold Node.portDecision at h
  obtain ⟨hconflict, _, _⟩ := resolveBackendSrcPort_remap (Prod.ext h rfl)
  have hfind := @resolveBackendSrcPort_conflict _ FlowKey (n.isReverseKeyTaken f) (n.portTaken f)
    (fun key => ∃ start, key = f.revKey start) ?_ _ _ _ hconflict (f.revKey 0) ⟨0, rfl⟩
  · rw [hfind] at h
    show firstFree _ _ _ = some port
    cases hfirst : firstFree (f.frontIp, f.frontPort) f.clientPort (n.portTaken f) with
    | none =>
      rw [hfirst] at h
      cases h
    | some first =>
      rw [hfirst] at h
      cases h
      rfl
  · rintro _ port' ⟨start, rfl⟩
    rw [isReverseKeyTaken_revKey]
    exact ⟨rfl, port', rfl⟩

/-- A packet that is remapped and handed to its pod is given the port of the probe. -/
theorem decapForwardCommit_remap {n n' : Node} {h : Helpers} {skb : Skb} {p : ForwardPacket} {port port' : UInt16}
    (hmemo : n.flowTableGetPortMemo p.flow.memoKey = none) (hremap : n.portDecision p.flow = .remap port)
    (hcommit : decapForwardCommit n h skb p = (n', .ok port')) : port' = port := by
  obtain ⟨n₁, _, hchosen, _⟩ := decapForwardCommit_ok hcommit
  have hprobe := firstFreePort_of_remap hremap
  unfold decapForwardCommit Node.resolvePort at hcommit
  unfold Node.portDecision at hremap
  rcases hdecision : resolveBackendSrcPort (n.isReverseKeyTaken p.flow)
      ((n.flowTableGetReverse (p.flow.revKey p.flow.clientPort)).bind reverseOccupant)
      (p.flow.frontIp, p.flow.frontPort) p.flow.clientPort (p.flow.revKey 0) with ⟨decision, key⟩
  rw [hdecision] at hremap
  dsimp only at hremap
  subst hremap
  simp only [hmemo, Option.map_none, backendPortResolution, hdecision] at hcommit
  cases hins : h .memoInsert with
  | false => simp [hins] at hcommit
  | true =>
    simp only [hins, if_true] at hcommit
    split at hcommit
    · cases hcommit
    · split at hcommit
      · cases hcommit
      · simpa using (Prod.mk.inj hcommit).2.symm

/-- The source port in the L4 header of a frame on `geneve0`, read in network order. -/
def Skb.sourcePort (skb : Skb) (fam : Family) : Option Nat :=
  (skb.load (ethHlen + fam.ipHlen) 2).map fun b => (Endian.big.u16OfBytes b).toNat

/-- The wire reads a host integer with its bytes as they are in memory. -/
theorem toNat_wire (port : UInt16) : (Endian.big.u16OfBytes (Host.endian.u16Bytes port)).toNat =
    if Host.endian = .big then port.toNat else port.toNat % 256 * 256 + port.toNat / 256 := by
  have hport := port.toNat_lt
  cases Host.endian with
  | big => rw [if_pos rfl, Endian.u16OfBytes_u16Bytes]
  | little =>
    rw [if_neg (fun h => nomatch h)]
    simp only [Endian.u16OfBytes, Endian.u16Bytes, UInt16.toNat_ofNat', Vector.getElem_mk, List.getElem_toArray,
      List.getElem_cons_zero, List.getElem_cons_succ, UInt8.toNat_ofNat']
    have hhigh : port.toNat / 256 < 256 := Nat.div_lt_of_lt_mul hport
    have hlow : port.toNat % 256 < 256 := Nat.mod_lt _ (by decide)
    show (port.toNat / 256 % 256 + 256 * (port.toNat % 256)) % 65536 = _
    rw [Nat.mod_eq_of_lt hhigh, Nat.mod_eq_of_lt (by omega), Nat.mul_comm]
    exact Nat.add_comm _ _

omit [Host] in
/-- With its bytes swapped, a dynamic port is one if its low byte is that of one. -/
theorem swapped_dynamic_iff {port : Nat} (hport : port < 65536) :
    (49152 ≤ port % 256 * 256 + port / 256 ∧ port % 256 * 256 + port / 256 ≤ 65535) ↔ 192 ≤ port % 256 := by
  omega

/-- The frame of a packet says its source port. -/
theorem sourcePort_of_innerPacket {skb : Skb} {fam : Family} {q : InnerPacket}
    (h : innerPacket skb = some (fam, q)) :
    skb.sourcePort fam = some (Endian.big.u16OfBytes (Host.endian.u16Bytes q.srcPort)).toNat := by
  obtain ⟨_, hparse⟩ := innerPacket_iff.mp h
  have hport := hparse.2.2.srcPort
  obtain ⟨b, hb, hq⟩ := Option.map_eq_some_iff.mp hport
  unfold Skb.sourcePort
  rw [hb, ← hq, Endian.u16Bytes_u16OfBytes]
  rfl

/-- A packet that is remapped and handed to its pod comes from the port of the probe. -/
theorem sourcePort_remapped {n n' : Node} {h : Helpers} {skb skb' : Skb} {p : ForwardPacket} {port : UInt16}
    (hp : decapForwardAdmit n skb = some p) (hmemo : n.flowTableGetPortMemo p.flow.memoKey = none)
    (hremap : n.portDecision p.flow = .remap port) (hok : geneveIngress n h skb = (n', skb', .ok)) :
    skb'.sourcePort p.family = some (Endian.big.u16OfBytes (Host.endian.u16Bytes port)).toNat := by
  rw [geneveIngress_forward hp] at hok
  rcases hdel : deliverForward n h skb p with ⟨n₁, skb₁, verdict⟩
  rw [hdel] at hok
  simp only [Prod.mk.injEq] at hok
  obtain ⟨rfl, rfl, hok⟩ := hok
  have hverdict : verdict = some .ok := by
    cases verdict with
    | none => cases hok
    | some v => exact congrArg some hok
  subst hverdict
  obtain ⟨port', hcommit, hpod⟩ := deliverForward_ok (decapForwardAdmit_innerPacket hp) hdel
  obtain rfl := decapForwardCommit_remap hmemo hremap hcommit
  have hport : (p.toPod port').srcPort = port' := rfl
  rw [sourcePort_of_innerPacket hpod, hport]

/-- **A remapped port is a dynamic port on the wire** on a big-endian host, and on a little-endian one where the low byte
    of the first free candidate is that of a dynamic port, too. -/
theorem remapped_port_dynamic_iff {n n' : Node} {h : Helpers} {skb skb' : Skb} {p : ForwardPacket} {port : UInt16}
    (hp : decapForwardAdmit n skb = some p) (hmemo : n.flowTableGetPortMemo p.flow.memoKey = none)
    (hremap : n.portDecision p.flow = .remap port) (hok : geneveIngress n h skb = (n', skb', .ok)) :
    ∃ wire, skb'.sourcePort p.family = some wire ∧ ((49152 ≤ wire ∧ wire ≤ 65535) ↔
      Host.endian = .big ∨ ∃ candidate, n.firstFreePort p.flow = some candidate ∧ 192 ≤ candidate.toNat % 256) := by
  have hfirst := firstFreePort_of_remap hremap
  refine ⟨_, sourcePort_remapped hp hmemo hremap hok, ?_⟩
  -- the candidate itself is a dynamic port
  have hdynamic : 49152 ≤ port.toNat := by
    obtain ⟨i, hi, hcandidate⟩ := List.mem_map.mp (List.mem_of_find?_eq_some hfirst)
    rw [← hcandidate, toNat_remapCandidate _ (List.mem_range.mp hi)]
    omega
  have hport := port.toNat_lt
  rw [toNat_wire, hfirst]
  by_cases hbig : Host.endian = .big
  · rw [if_pos hbig]
    exact ⟨fun _ => Or.inl hbig, fun _ => ⟨hdynamic, Nat.le_of_lt_succ hport⟩⟩
  · rw [if_neg hbig, swapped_dynamic_iff hport]
    constructor
    · exact fun hlow => Or.inr ⟨port, rfl, hlow⟩
    · rintro (h | ⟨candidate, hsome, hlow⟩)
      · exact absurd h hbig
      · rwa [Option.some_inj.mp hsome]

end Beep

/-! ## The flow that is moved -/

namespace Beep

section
local instance movedPortHost : Host := littleHost

theorem portDecision_second : afterFirst.portDecision (flowThrough 2) = .remap movedPort := by
  decide

/-- The second flow has no memo when its first packet comes. -/
theorem flowTableGetPortMemo_second : afterFirst.flowTableGetPortMemo (forwardThrough 2).flow.memoKey = none := by
  rw [show (forwardThrough 2).flow = flowThrough 2 from rfl, memoKey_through 2 1]
  exact flowTableGetPortMemo_afterFirst

theorem decapForwardAdmit_afterFirst : decapForwardAdmit afterFirst (skbThrough 2) = some (forwardThrough 2) :=
  decapForwardAdmit_second

/-- The packet of the second flow, as its pod gets it. -/
def movedPacket : Skb := (geneveIngress afterFirst (fun _ => true) (skbThrough 2)).2.1

theorem geneveIngress_second : geneveIngress afterFirst (fun _ => true) (skbThrough 2) =
    ((geneveIngress afterFirst (fun _ => true) (skbThrough 2)).1, movedPacket, .ok) := by
  have hverdict : (geneveIngress afterFirst (fun _ => true) (skbThrough 2)).2.2 = .ok := by decide
  exact Prod.ext rfl (Prod.ext rfl hverdict)

theorem sourcePort_movedPacket : movedPacket.sourcePort .v4 = some 15853 := by
  have hport := sourcePort_remapped decapForwardAdmit_afterFirst flowTableGetPortMemo_second portDecision_second
    geneveIngress_second
  rw [show (forwardThrough 2).family = .v4 from rfl] at hport
  rw [hport]
  decide

/-- The port of the second flow's packet is none of the dynamic range, and the condition does not hold of it. -/
theorem remapped_port_dynamic_iff_second :
    ∃ wire, movedPacket.sourcePort .v4 = some wire ∧ ((49152 ≤ wire ∧ wire ≤ 65535) ↔ Host.endian = .big ∨
      ∃ candidate, afterFirst.firstFreePort (flowThrough 2) = some candidate ∧ 192 ≤ candidate.toNat % 256) :=
  remapped_port_dynamic_iff decapForwardAdmit_afterFirst flowTableGetPortMemo_second portDecision_second
    geneveIngress_second

/-- `60733` is `0xed3d`, and `0x3ded` on the wire of a little-endian host: `15853`. -/
theorem not_remapped_port_dynamic :
    ¬ ∀ (_ : Host) (n n' : Node) (h : Helpers) (skb skb' : Skb) (p : ForwardPacket) (port : UInt16),
      decapForwardAdmit n skb = some p → n.flowTableGetPortMemo p.flow.memoKey = none →
      n.portDecision p.flow = .remap port → geneveIngress n h skb = (n', skb', .ok) →
      ∃ wire, skb'.sourcePort p.family = some wire ∧ 49152 ≤ wire ∧ wire ≤ 65535 := by
  intro hdynamic
  obtain ⟨wire, hwire, hlow, -⟩ := hdynamic movedPortHost afterFirst _ _ (skbThrough 2) movedPacket
    (forwardThrough 2) movedPort decapForwardAdmit_afterFirst flowTableGetPortMemo_second portDecision_second
    geneveIngress_second
  rw [show (forwardThrough 2).family = .v4 from rfl, sourcePort_movedPacket] at hwire
  obtain rfl := Option.some_inj.mp hwire
  revert hlow
  decide

end

end Beep
