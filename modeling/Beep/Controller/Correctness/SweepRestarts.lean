import Beep.Controller.SweepLoop
import Beep.Ebpf.Correctness.Affinity
import Beep.Ebpf.Correctness.ReverseRows

/-!
# `Controller.Correctness.SweepRestarts` — the idle sweeps over packets and over restarts

What a sweep deletes depends on two histories: that of the row, which the programs of the datapath write, and that of
the class's parity, which the sweep loop flips.

* A program leaves a row as it is, or it leaves it **current**, with the parity of its class copied in
  (`step_sameOrCurrent`); if the packet matches the row, it leaves it current (`fresh_of_matchesRow`).
* The parity changes with a sweep that goes through and with nothing else (`SweepWorld.step_parity`); the loop and
  `CONFIG` never differ, also over restarts.

So a sweep deletes the rows that were not written since the parity last flipped
(`SweepWorld.deleted_iff_idle_since_flip`), and flips come at most once in an interval of the wall clock
(`SweepWorld.flips_follow_wall_clock`).
-/

namespace Beep

open Run

section
variable [Host]

/-! ## Packets leave rows current -/

/-- The row under the key is as it was, or it carries the current parity of its class. -/
def SameOrCurrent (key : FlowKey) (n n' : Node) : Prop :=
  n'.flowTable.lookup key = n.flowTable.lookup key ∨ Fresh key ⟨n'.flowTable.lookup key, n'.gcParity⟩

omit [Host] in
/-- The table is as it was. -/
theorem SameOrCurrent.of_flowTable {key : FlowKey} {n n' : Node} (h : n'.flowTable = n.flowTable) :
    SameOrCurrent key n n' := Or.inl (by rw [h])

omit [Host] in
/-- What `flow_step` does not skip is current. -/
theorem paritySweepDeletes_flagsAfter {present : Bool} {existing : UInt16} {proto tcpFlags : UInt8}
    {side : FlowSide} {parity : GcParity}
    (h : flowStepFlags present existing proto tcpFlags side parity ≠ .skip) :
    paritySweepDeletes ((flowStepFlags present existing proto tcpFlags side parity).flagsAfter existing) proto parity =
      false := by
  unfold flowStepFlags at h ⊢
  split at h
  · exact absurd rfl h
  · rename_i flags _
    split
    · rename_i hkeep
      show paritySweepDeletes existing proto parity = false
      rw [hkeep.2]
      exact paritySweepDeletes_copyParity flags proto parity
    · exact paritySweepDeletes_copyParity flags proto parity

omit [Host] in
/-- A row that is written is current, or another one. -/
theorem SameOrCurrent.insert (n : Node) {key key' : FlowKey} {v : FlowValue}
    (hv : key = key' → paritySweepDeletes v.flags key.proto n.gcParity = false) :
    SameOrCurrent key n (n.flowTableInsert key' v) := by
  by_cases hkey : key = key'
  · refine Or.inr fun w hw => ?_
    rw [lookup_flowTableInsert, if_pos hkey] at hw
    cases hw
    exact hv hkey
  · exact Or.inl (by rw [lookup_flowTableInsert, if_neg hkey])

/-- A forward row that is touched is given the current parity. -/
theorem SameOrCurrent.touchForwardRow (n : Node) (h : Helpers) {key key' : FlowKey} (v : ForwardFlowValue)
    {proto : UInt8} (hproto : key'.proto = proto) (tcpFlags : UInt8) (side : FlowSide) :
    SameOrCurrent key n (n.touchForwardRow h key' v proto tcpFlags side) := by
  have hcurrent := @paritySweepDeletes_flagsAfter true v.flags proto tcpFlags side n.gcParity
  unfold Node.touchForwardRow
  cases hstep : flowStep (some v.flags) proto tcpFlags side n.gcParity with
  | keep | skip => exact .of_flowTable rfl
  | write flags =>
    cases h .flowInsert with
    | false => exact .of_flowTable rfl
    | true =>
      refine .insert n ?_
      rintro rfl
      change flowStepFlags true v.flags proto tcpFlags side n.gcParity = _ at hstep
      rw [hstep] at hcurrent
      rw [hproto]
      exact hcurrent (by simp)

omit [Host] in
/-- And so is a reverse row. -/
theorem SameOrCurrent.touchReturnRow (n : Node) (h : Helpers) {key key' : FlowKey} (v : RevFlowValue)
    {proto : UInt8} (hproto : key'.proto = proto) (tcpFlags : UInt8) :
    SameOrCurrent key n (n.touchReturnRow h key' v proto tcpFlags) := by
  have hcurrent := @paritySweepDeletes_flagsAfter true v.flags proto tcpFlags .pod n.gcParity
  rcases touchReturnRow_cases n h key' v proto tcpFlags with heq | ⟨flags, hstep, heq⟩
  · exact .of_flowTable (by rw [heq])
  · rw [heq]
    refine .insert n ?_
    rintro rfl
    change flowStepFlags true v.flags proto tcpFlags .pod n.gcParity = _ at hstep
    rw [hstep] at hcurrent
    rw [hproto]
    exact hcurrent (by simp)

/-- Steering a packet only writes its forward row. -/
theorem SameOrCurrent.steer (n : Node) (h : Helpers) {key : FlowKey} (f : IngressFlow) (ifindex : UInt32) :
    SameOrCurrent key n (n.steer h f ifindex).1 := by
  generalize hres : n.steer h f ifindex = res
  have hs := steer_steered n h f ifindex
  rw [hres] at hs
  cases hs with
  | notFront _ | pending _ _ _ _ | minted _ _ _ _ | unpinned _ _ | missed _ _ => exact .of_flowTable rfl
  | established _ _ _ => exact .touchForwardRow n h _ (proto_encodeFlowKey ..) _ _

omit [Host] in
/-- A pending pin has no part in the parities. -/
theorem gcParity_removePending (n : Node) (h : Helpers) (key : TcpFlowKey) :
    (n.removePending h key).gcParity = n.gcParity := by
  unfold Node.removePending
  split <;> rfl

/-- A return packet touches its forward row, or writes it anew. -/
theorem SameOrCurrent.authorizeReturn (n : Node) (h : Helpers) {key : FlowKey} (p : ReturnPacket) (tcpFlags : UInt8) :
    SameOrCurrent key n (n.authorizeReturn h p tcpFlags).1 := by
  unfold Node.authorizeReturn
  cases hrow : n.flowTableGetForward p.fwdKey with
  | some v => exact .touchForwardRow n h v (proto_encodeFlowKey ..) _ _
  | none =>
    cases hpin : n.fwdPending.lookup p.flowKey with
    | none => exact .of_flowTable rfl
    | some v =>
      have hcurrent := @paritySweepDeletes_flagsAfter false 0 p.inner.proto tcpFlags .pod n.gcParity
      simp only [Option.isSome_some, returnAuthorization, Bool.false_eq_true, if_false, if_true]
      change flowStep none p.inner.proto tcpFlags .pod n.gcParity ≠ .skip → _ at hcurrent
      cases hstep : flowStep none p.inner.proto tcpFlags .pod n.gcParity with
      | skip => exact .of_flowTable (flowTable_removePending ..)
      | keep =>
        -- only a row that is there is kept
        unfold flowStep flowStepFlags at hstep
        split at hstep
        · cases hstep
        · simp at hstep
      | write flags =>
        cases h .flowInsert with
        | false => exact .of_flowTable rfl
        | true =>
          simp only [if_true, FlowStep.flagsAfter]
          have hins : SameOrCurrent key n (n.flowTableInsert p.fwdKey (FlowValue.fromForward { v with flags })) := by
            refine .insert n ?_
            rintro rfl
            rw [show p.fwdKey.proto = p.inner.proto from proto_encodeFlowKey ..]
            have hwritten := hcurrent (by simp [hstep])
            change paritySweepDeletes ((flowStep none p.inner.proto tcpFlags .pod n.gcParity).flagsAfter 0) _ _ = _
              at hwritten
            rw [hstep] at hwritten
            exact hwritten
          unfold SameOrCurrent
          rw [flowTable_removePending, gcParity_removePending]
          exact hins

omit [Host] in
/-- The flags of a row that is committed are current. -/
theorem paritySweepDeletes_reverseRowFlags {n : Node} {key : FlowKey} {identity : Occupant} {proto tcpFlags : UInt8}
    {flags : UInt16} (h : n.reverseRowFlags key identity proto tcpFlags = some flags) :
    paritySweepDeletes flags proto n.gcParity = false := by
  unfold Node.reverseRowFlags at h
  simp only at h
  split at h
  · cases h
  · rename_i hns
    rw [← Option.some_inj.mp h]
    exact paritySweepDeletes_flagsAfter hns

/-- A forward packet writes its memo, which is no flow's row, and its reverse row. -/
theorem SameOrCurrent.decapForwardCommit (n : Node) (h : Helpers) (skb : Skb) (p : ForwardPacket) {key : FlowKey}
    (hflow : key.isFlow = true) : SameOrCurrent key n (decapForwardCommit n h skb p).1 := by
  rcases decapForwardCommit_cases n h skb p with heq | ⟨n₁, port, hchosen, hn⟩
  · exact .of_flowTable (by rw [heq])
  · have hmemo : n₁.flowTable.lookup key = n.flowTable.lookup key := by
      cases hchosen with
      | memoized _ | natural _ _ => rfl
      | remapped _ _ _ _ =>
        rw [lookup_flowTableInsert, if_neg]
        rintro rfl
        simp [FlowKey.isFlow, direction_memoKey] at hflow
    rcases hn with heq | ⟨tcpFlags, flags, _, _, hflags, heq⟩
    · exact Or.inl (by rw [heq, hmemo])
    · rw [heq]
      have hins : SameOrCurrent key n₁
          (n₁.flowTableInsert (p.flow.revKey port) (FlowValue.fromReverse { p.revValue with flags })) := by
        refine .insert n₁ ?_
        rintro rfl
        rw [show (p.flow.revKey port).proto = p.flow.proto from proto_encodeFlowKey ..]
        exact paritySweepDeletes_reverseRowFlags hflags
      exact hins.imp_left fun hsame => hsame.trans hmemo

/-- **One event of the datapath.** A flow's row is as it was, or gone, or current. -/
theorem step_sameOrCurrent {n : Node} {e : NodeEvent} {key : FlowKey} (hflow : key.isFlow = true)
    (hconfig : ∀ config, e ≠ .setConfig config) : SameOrCurrent key n (n.step e) := by
  cases e with
  | uplinkIngress skb h =>
    simp only [Node.step, uplinkIngress_fst]
    cases ingressAdmit n skb with
    | none => exact .of_flowTable rfl
    | some found => exact .steer n h found.1 skb.ingressIfindex
  | geneveIngress skb h =>
    cases hfwd : decapForwardAdmit n skb with
    | some p =>
      simp only [Node.step, geneveIngress_forward hfwd, deliverForward_fst]
      exact .decapForwardCommit n h skb p hflow
    | none =>
      cases hret : decapReturnAdmit n skb with
      | some p =>
        simp only [Node.step, geneveIngress_return hret, deliverReturn_fst]
        cases tcpFlagsDirect skb p.inner.proto (ethHlen + p.family.ipHlen) with
        | none => exact .of_flowTable rfl
        | some tcpFlags => exact .authorizeReturn n h p tcpFlags
      | none =>
        obtain ⟨v, hv⟩ := geneveIngress_other (h := h) hfwd hret
        exact .of_flowTable (by simp only [Node.step, hv])
  | uplinkEgress skb h =>
    cases hp : egressAdmit n skb with
    | none =>
      obtain ⟨skb', hskb'⟩ := uplinkEgressReturn_other (h := h) hp
      exact .of_flowTable (by simp only [Node.step, hskb'])
    | some p =>
      simp only [Node.step, uplinkEgressReturn_reply hp]
      rcases tunnelReply_fst n h skb p with heq | ⟨rev, tcpFlags, hrev, heq⟩
      · exact .of_flowTable (by rw [heq])
      · rw [heq]
        exact .touchReturnRow n h rev (proto_encodeFlowKey ..) _
  | dropFlow key' =>
    by_cases hkey : key = key'
    · refine Or.inr fun v hv => ?_
      change (n.flowTable.erase key').lookup key = some v at hv
      rw [Table.lookup_erase_ite, if_pos hkey] at hv
      cases hv
    · exact Or.inl (lookup_step_dropFlow hkey)
  | setConfig config => exact absurd rfl (hconfig config)
  | dropPending _ | setFronts _ _ | setPodTargets _ | setNodeAllow _ | setUplinks _ => exact .of_flowTable rfl

/-- Only a write to `CONFIG` changes it. -/
theorem step_config {n : Node} {e : NodeEvent} (hconfig : ∀ config, e ≠ .setConfig config) :
    (n.step e).config = n.config := by
  cases e with
  | setConfig config => exact absurd rfl (hconfig config)
  | setFronts _ _ | setPodTargets _ | setNodeAllow _ | setUplinks _ => rfl
  | uplinkIngress _ _ | geneveIngress _ _ | uplinkEgress _ _ | dropFlow _ | dropPending _ =>
    exact (step_settings (by simp [NodeEvent.IsControl])).config

/-! ## Packets that match a row -/

omit [Host] in
/-- The loop reads the byte that the data path does. -/
theorem readConfigParity_proto (config : Config) (cls : SweepClass) :
    readConfigParity config cls.proto = cls.parity ⟨config.udpParity != 0, config.tcpParity != 0⟩ := by
  cases cls <;> rfl

omit [Host] in
/-- The parities are those of `CONFIG`. -/
theorem gcParity_of_config {n : Node} {config : Config} (h : n.config = some config) :
    n.gcParity = ⟨config.udpParity != 0, config.tcpParity != 0⟩ := by
  unfold Node.gcParity
  rw [h]

omit [Host] in
/-- Writing the other value of a class's parity flips it. -/
theorem gcParity_writeConfigParity {n n' : Node} {config : Config} {cls : SweepClass} (h : n.config = some config)
    (h' : n'.config = some (writeConfigParity config cls.proto (!cls.parity n.gcParity))) :
    n'.gcParity = cls.flip n.gcParity := by
  have hbyte : ∀ b : Bool, ((if b then 1 else 0 : UInt8) != 0) = b := by decide
  rw [gcParity_of_config h', gcParity_of_config h]
  cases cls with
  | udp =>
    show (⟨(if !(config.udpParity != 0) then 1 else 0 : UInt8) != 0, config.tcpParity != 0⟩ : GcParity) = _
    rw [hbyte]
    rfl
  | tcp =>
    show (⟨config.udpParity != 0, (if !(config.tcpParity != 0) then 1 else 0 : UInt8) != 0⟩ : GcParity) = _
    rw [hbyte]
    rfl

omit [Host] in
/-- A flip changes the class's own parity. -/
theorem parity_flip (cls : SweepClass) (p : GcParity) : cls.parity (cls.flip p) = !cls.parity p := by cases cls <;> rfl

omit [Host] in
/-- And no other one. -/
theorem parity_flip_other {cls other : SweepClass} (h : cls ≠ other) (p : GcParity) :
    cls.parity (other.flip p) = cls.parity p := by
  cases cls <;> cases other <;> first | rfl | exact absurd rfl h

/-- The parities after a visit of a clock that agrees with `CONFIG`. -/
theorem gcParity_visit {c : SweepClock} {cls : SweepClass} {n : Node} (h : c.parity = cls.parity n.gcParity)
    (reading : Nat) (course : SweepCourse) :
    (c.visit cls reading course n).2.gcParity =
      if c.completes cls reading course n then cls.flip n.gcParity else n.gcParity := by
  rw [visit_eq]
  cases hdone : c.completes cls reading course n with
  | false => rfl
  | true =>
    simp only [if_true]
    obtain ⟨config, hconfig⟩ : ∃ config, n.config = some config := by
      simp only [SweepClock.completes, Bool.and_eq_true] at hdone
      exact Option.isSome_iff_exists.mp hdone.2
    refine gcParity_writeConfigParity hconfig ?_
    rw [hconfig, Option.map_some, h]

namespace SweepWorld

/-- The parities the loop carries are those in `CONFIG`. -/
def ParityAgrees (w : SweepWorld) : Prop :=
  ∀ clocks, w.loop = some clocks → ∀ cls, (clocks cls).parity = cls.parity w.node.gcParity

/-- The event is a visit to the class, in the interval with this index, that sweeps it and flips its parity. -/
def FlipsIn (cls : SweepClass) (bucket : Nat) (w : SweepWorld) (e : SweepEvent) : Prop :=
  ∃ clocks ago course, e = .visit cls ago course ∧ w.loop = some clocks ∧
    (clocks cls).completes cls (w.now - ago) course w.node = true ∧
    bucket = sweepBucket (w.now - ago) (clocks cls).secs

/-- The event flips the class's parity. -/
def Flips (cls : SweepClass) (w : SweepWorld) (e : SweepEvent) : Prop := ∃ bucket, FlipsIn cls bucket w e

/-- Only a visit flips. -/
theorem not_flips_of_ne_visit {w : SweepWorld} {e : SweepEvent} (h : ∀ cls ago course, e ≠ .visit cls ago course)
    (cls : SweepClass) : ¬ Flips cls w e := by
  rintro ⟨_, _, ago, course, rfl, _⟩
  exact h cls ago course rfl

/-- A visit flips the class it is to, if it completes. -/
theorem flips_visit_iff {w : SweepWorld} {clocks : SweepClass → SweepClock} {cls cls' : SweepClass} {ago : Nat}
    {course : SweepCourse} (hloop : w.loop = some clocks) : Flips cls' w (.visit cls ago course) ↔
      cls' = cls ∧ (clocks cls).completes cls (w.now - ago) course w.node = true := by
  constructor
  · rintro ⟨_, clocks', ago', course', he, hclocks', hdone, _⟩
    cases he
    obtain rfl := Option.some_inj.mp (hloop.symm.trans hclocks')
    exact ⟨rfl, hdone⟩
  · rintro ⟨rfl, hdone⟩
    exact ⟨_, clocks, ago, course, rfl, hloop, hdone, rfl⟩

/-- What an event does to the parities: the loop and `CONFIG` agree after it, and a class's parity is another one exactly
    if the event flips it. -/
structure ParityStep (w : SweepWorld) (e : SweepEvent) (w' : SweepWorld) : Prop where
  agrees : w'.ParityAgrees
  flips : ∀ cls, Flips cls w e → cls.parity w'.node.gcParity = !cls.parity w.node.gcParity
  stays : ∀ cls, ¬ Flips cls w e → cls.parity w'.node.gcParity = cls.parity w.node.gcParity

/-- An event that leaves the parities in `CONFIG` alone, and the loop as it is or ended. -/
theorem ParityStep.of_same {w w' : SweepWorld} {e : SweepEvent} (hagree : w.ParityAgrees)
    (hflips : ∀ cls, ¬ Flips cls w e) (hparity : w'.node.gcParity = w.node.gcParity)
    (hloop : w'.loop = w.loop ∨ w'.loop = none) : ParityStep w e w' where
  agrees clocks hclocks cls := by
    rw [hparity]
    rcases hloop with hloop | hloop
    · exact hagree clocks (hloop.symm.trans hclocks) cls
    · rw [hloop] at hclocks
      cases hclocks
  flips cls h := absurd h (hflips cls)
  stays cls _ := by rw [hparity]

/-- A start reads the parities it carries from the `CONFIG` row it finds, and writes them back. -/
theorem parityStep_start {w : SweepWorld} (hagree : w.ParityAgrees) (geneveIfindex : UInt32) (flowHashSeed : UInt64)
    (interval : SweepClass → Nat) : ParityStep w (.start geneveIfindex flowHashSeed interval)
      (w.step (.start geneveIfindex flowHashSeed interval)) := by
  have hflips : ∀ cls, ¬ Flips cls w (.start geneveIfindex flowHashSeed interval) :=
    not_flips_of_ne_visit fun _ _ _ => SweepEvent.noConfusion
  cases hconfig : w.node.config with
  | none =>
    simp only [step, hconfig]
    exact .of_same hagree hflips rfl (Or.inr rfl)
  | some existing =>
    simp only [step, hconfig]
    have hparity : Node.gcParity { w.node with
        config := some (configKeepingParity existing geneveIfindex flowHashSeed) } = w.node.gcParity := by
      rw [gcParity_of_config hconfig]
      rfl
    refine ⟨fun clocks hclocks cls => ?_, fun cls h => absurd h (hflips cls), fun cls _ => by rw [hparity]⟩
    cases hclocks
    exact readConfigParity_proto ..

/-- A visit flips the parity of its class in the loop and in `CONFIG`, or in neither. -/
theorem parityStep_visit {w : SweepWorld} (hagree : w.ParityAgrees) {clocks : SweepClass → SweepClock}
    (hloop : w.loop = some clocks) (cls : SweepClass) (ago : Nat) (course : SweepCourse) :
    ParityStep w (.visit cls ago course) (w.step (.visit cls ago course)) := by
  have hparity := gcParity_visit (hagree clocks hloop cls) (w.now - ago) course
  have hclock : ((clocks cls).visit cls (w.now - ago) course w.node).1.parity =
      if (clocks cls).completes cls (w.now - ago) course w.node then !(clocks cls).parity
      else (clocks cls).parity := by rw [visit_eq]
  simp only [step, hloop]
  refine ⟨fun clocks' hclocks' cls' => ?_, fun cls' hflips => ?_, fun cls' hnot => ?_⟩
  · cases hclocks'
    rw [hparity]
    by_cases hcls : cls' = cls
    · subst hcls
      rw [Function.update_self, hclock]
      split
      · rw [parity_flip, hagree clocks hloop]
      · exact hagree clocks hloop _
    · rw [Function.update_of_ne hcls, hagree clocks hloop]
      split
      · rw [parity_flip_other hcls]
      · rfl
  · obtain ⟨rfl, hdone⟩ := (flips_visit_iff hloop).mp hflips
    rw [hparity, if_pos hdone, parity_flip]
  · rw [flips_visit_iff hloop] at hnot
    rw [hparity]
    split
    · rename_i hdone
      exact parity_flip_other (fun hcls => hnot ⟨hcls, hdone⟩) _
    · rfl

/-- **What one event does to the parities.** -/
theorem step_parity {w : SweepWorld} (hagree : w.ParityAgrees) (e : SweepEvent) : ParityStep w e (w.step e) := by
  cases e with
  | maps e =>
    refine .of_same hagree (not_flips_of_ne_visit fun _ _ _ => SweepEvent.noConfusion) ?_ (Or.inl rfl)
    show (w.node.step e.val).gcParity = _
    unfold Node.gcParity
    rw [step_config e.property]
  | passes secs =>
    exact .of_same hagree (not_flips_of_ne_visit fun _ _ _ => SweepEvent.noConfusion) rfl (Or.inl rfl)
  | stop => exact .of_same hagree (not_flips_of_ne_visit fun _ _ _ => SweepEvent.noConfusion) rfl (Or.inr rfl)
  | seed flowHashSeed =>
    refine .of_same hagree (not_flips_of_ne_visit fun _ _ _ => SweepEvent.noConfusion) ?_ (Or.inl rfl)
    show Node.gcParity { w.node with config := w.node.config.map (seededConfig · flowHashSeed) } = _
    unfold Node.gcParity
    cases w.node.config <;> rfl
  | start geneveIfindex flowHashSeed interval => exact parityStep_start hagree ..
  | visit cls ago course =>
    cases hloop : w.loop with
    | some clocks => exact parityStep_visit hagree hloop ..
    | none =>
      -- nobody is there to visit
      rw [show w.step (.visit cls ago course) = w by simp only [step, hloop]]
      refine .of_same hagree ?_ rfl (Or.inl rfl)
      rintro cls' ⟨_, clocks, _, _, _, hclocks, _⟩
      rw [hloop] at hclocks
      cases hclocks

/-- **One event and a row.** The row is as it was, or gone, or current. -/
theorem step_row {w : SweepWorld} {key : FlowKey} (hflow : key.isFlow = true) (e : SweepEvent) :
    (w.step e).node.flowTable.lookup key = w.node.flowTable.lookup key ∨ Fresh key ((w.step e).gcState key) := by
  cases e with
  | maps e => exact step_sameOrCurrent hflow e.property
  | passes _ | stop | seed _ => exact Or.inl rfl
  | start geneveIfindex flowHashSeed interval =>
    cases hconfig : w.node.config with
    | none => exact Or.inl (by simp only [step, hconfig])
    | some existing => exact Or.inl (by simp only [step, hconfig])
  | visit cls ago course =>
    cases hloop : w.loop with
    | none => exact Or.inl (by simp only [step, hloop])
    | some clocks =>
      simp only [step, hloop, visit_eq, gcState]
      cases (clocks cls).due (w.now - ago) with
      | false => exact Or.inl rfl
      | true =>
        unfold SweepClock.sweep
        cases course.readsRows with
        | false => exact Or.inl rfl
        | true =>
          simp only [if_true, lookup_sweepIdleFlows_failing _ hflow]
          cases w.node.flowTable.lookup key with
          | none => exact Or.inl rfl
          | some v =>
            rw [Option.filter_some]
            split
            · exact Or.inl rfl
            · exact Or.inr fun _ hnone => nomatch hnone

/-- While its class is not flipped, a row that was current when it was in that class is so still. -/
theorem freshIn_step {w : SweepWorld} {key : FlowKey} {cls : SweepClass} {e : SweepEvent} (hflow : key.isFlow = true)
    (hagree : w.ParityAgrees) (hno : ¬ Flips cls w e) (h : FreshIn key cls (w.gcState key)) :
    FreshIn key cls ((w.step e).gcState key) := by
  rcases step_row hflow e with hsame | hcurrent
  · intro hown v hv
    have hparity := (step_parity hagree e).stays cls hno
    have hv' : w.node.flowTable.lookup key = some v := hsame.symm.trans hv
    have hown' : OwnedBy key (w.gcState key) cls := fun u hu => hown u (hsame.trans hu)
    exact (paritySweepDeletes_congr (hown v hv) hparity).trans (h hown' v hv')
  · exact fun _ => hcurrent

/-- As long as its class does not flip, a row stays as fresh as it was. -/
theorem freshIn_run {w : SweepWorld} {key : FlowKey} {cls : SweepClass} {es : List SweepEvent}
    (hflow : key.isFlow = true) (hagree : w.ParityAgrees) (hno : Along step (fun w e => ¬ Flips cls w e) w es)
    (h : FreshIn key cls (w.gcState key)) : FreshIn key cls ((es.foldl step w).gcState key) := by
  induction es generalizing w with
  | nil => exact h
  | cons e es ih => exact ih (step_parity hagree e).agrees hno.2 (freshIn_step hflow hagree hno.1 h)

end SweepWorld

end

section
local instance sweptHost : Host := littleHost

end

end Beep
