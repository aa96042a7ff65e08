import Beep.Controller.Correctness.OwnedFronts
import Beep.Controller.Correctness.Relist
import Beep.Controller.Correctness.Unconcerned
import Beep.Controller.ListWatch

/-!
# `Controller.Correctness.Reconnect` — a watch that resumes earlier

A reconnect walks the state back to old versions and forward again. The state ends up where it was
(`OnTrack.replayed`). On the way the ticks see the old versions: an address that an old version does not list yet is
swept as if its pod had left. It is left alone as long as each state that a tick runs on still lists the address, under
no other uid, and has it served by the same node as before (`LeavesBe`, `Along.notSwept`).
-/

namespace Beep

open Run

section
variable [Host]

/-- A tick on the state: the maps are iterated in some order, the rows read are there, and the rows it leaves are old or
    planned. -/
structure TickOn (node : NodeContext) (w : Watching) (order : WatchState) (t : TickInput) (rows : Finset (Bytes 16)) :
    Prop where
  same : order.SameContent w.state
  entries : t.desired = order.desired node
  installed : ∀ y, y ∈ t.installed → y ∈ w.rows
  rows : ∀ y, y ∈ rows → y ∈ w.rows ∨ t.desired.podTargetsKnown = true ∧ y ∈ (t.plan w.memory).podTargets

/-- Every tick is one on the state it starts from. -/
def TicksOn (node : NodeContext) (w : Watching) : WatchStep → Prop
  | .tick order t rows => TickOn node w order t rows
  | _ => True

/-- A state that leaves an address alone: where a tick can sweep it, some slice lists the address on a Node that has
    not gone, it is a pod of this node as before, and every slice that knows a uid for it lists the given one first. -/
structure LeavesBe (node : NodeContext) (x : Bytes 16) (uid : String) (pod : Prop) (s : WatchState) (m : TickMemory) :
    Prop where
  backend : s.fullyListed = true → ((s.ownNodeAddrs node.nodeIp).isSome = true ∨ m.orphansSwept = false) →
    ∃ f, s.HasFact x f ∧ s.Tracks f.nodeName = true
  pod : s.fullyListed = true → (s.ownNodeAddrs node.nodeIp).isSome = true → (s.ServesAddr node x ↔ pod)
  uid : s.fullyListed = true → (s.ownNodeAddrs node.nodeIp).isSome = true → ∀ v, s.NamedFirst x v → v = uid

/-- Every tick of the run is on a state that leaves the address alone. -/
def TicksLeaveBe (node : NodeContext) (x : Bytes 16) (uid : String) (pod : Prop) (w : Watching) : WatchStep → Prop
  | .tick _ _ _ => LeavesBe node x uid pod w.state w.memory
  | _ => True

/-- No tick sweeps the address. -/
def NotSwept (x : Bytes 16) (w : Watching) : WatchStep → Prop
  | .tick _ t _ => x ∉ t.sweep w.memory
  | _ => True

/-- Every tick's eviction goes through. -/
def TicksSucceed (w : Watching) : WatchStep → Prop
  | .tick _ t _ => t.sweepFailed w.memory = false
  | _ => True

/-- What is remembered of the address: no other uid, and a row only for a pod of this node. -/
structure Recalls (x : Bytes 16) (uid : String) (pod : Prop) (w : Watching) : Prop where
  known : ∀ v, w.memory.known.lookup x = some (some v) → v = uid
  row : x ∈ w.rows → pod

section
variable {node : NodeContext} {x : Bytes 16} {uid : String} {pod : Prop} {w : Watching}

namespace TickOn

variable {order : WatchState} {t : TickInput} {rows : Finset (Bytes 16)}

/-- A tick knows the pods of the node once all is listed and the own Node is there. -/
theorem podTargetsKnown (h : TickOn node w order t rows) : t.desired.podTargetsKnown = true ↔
    w.state.fullyListed = true ∧ (w.state.ownNodeAddrs node.nodeIp).isSome = true := by
  rw [h.entries, h.same.podTargetsKnown, WatchState.desired_podTargetsKnown, Bool.and_eq_true]

/-- Where a tick can sweep an address that the state leaves alone, the address is a backend. -/
theorem backend (h : TickOn node w order t rows) (hleaves : LeavesBe node x uid pod w.state w.memory)
    (hlisted : w.state.fullyListed = true)
    (hsweeps : (w.state.ownNodeAddrs node.nodeIp).isSome = true ∨ w.memory.orphansSwept = false) :
    t.desired.clusterBackends.lookup x ≠ none := by
  obtain ⟨f, hf, htracks⟩ := hleaves.backend hlisted hsweeps
  rw [h.entries, WatchState.isBackend_iff]
  exact ⟨f, h.same.hasFact.mpr hf, (h.same.tracks f.nodeName).trans htracks⟩

/-- The pods of the node are the ones of the state. -/
theorem mem_podTargets (h : TickOn node w order t rows) : x ∈ t.desired.podTargets ↔ w.state.ServesAddr node x := by
  rw [h.entries, WatchState.isPodTarget_iff]
  exact h.same.servesAddr

/-- The uid the tick knows the address by is the one expected. -/
theorem uid_eq (h : TickOn node w order t rows) (hleaves : LeavesBe node x uid pod w.state w.memory)
    (hknown : t.desired.podTargetsKnown = true) {v : String}
    (hv : t.desired.clusterBackends.lookup x = some (some v)) : v = uid := by
  obtain ⟨hlisted, hown⟩ := h.podTargetsKnown.mp hknown
  rw [h.entries] at hv
  exact hleaves.uid hlisted hown v (h.same.namedFirst.mp (WatchState.namedFirst_of_lookup hv))

/-- **A tick on a state that leaves the address alone** does not sweep it. -/
theorem notSwept (h : TickOn node w order t rows) (hleaves : LeavesBe node x uid pod w.state w.memory)
    (hw : Recalls x uid pod w) : x ∉ t.sweep w.memory := by
  intro hx
  rcases TickInput.mem_sweep.mp hx with horphan | ⟨hknown, hcase⟩
  · have hgone := TickInput.orphans_absent horphan
    -- the walk was due: the fronts are known and it was not done yet
    have hdue : orphanSweepDue t.desired w.memory.orphansSwept = true := by
      by_contra hnot
      unfold TickInput.orphans at horphan
      rw [if_neg hnot] at horphan
      exact absurd horphan (Finset.notMem_empty x)
    simp only [orphanSweepDue, h.entries, WatchState.desired_frontsKnown, h.same.fullyListed, Bool.and_eq_true,
      Bool.not_eq_true'] at hdue
    exact h.backend hleaves hdue.1.1 (Or.inr hdue.1.2) hgone
  · obtain ⟨hlisted, hown⟩ := h.podTargetsKnown.mp hknown
    rcases hcase with ⟨hrow, hgone⟩ | ⟨-, hgone⟩ | ⟨a, b, ha, hb, hab⟩
    · have hpod := hw.row (h.installed x (TickInput.mem_rows.mp hrow).2)
      exact hgone (h.mem_podTargets.mpr ((hleaves.pod hlisted hown).mpr hpod))
    · exact h.backend hleaves hlisted (Or.inl hown) hgone
    · exact hab ((hw.known a ha).trans (h.uid_eq hleaves hknown hb).symm)

/-- What it recalls is right. -/
theorem recalls (h : TickOn node w order t rows) (hleaves : LeavesBe node x uid pod w.state w.memory)
    (hw : Recalls x uid pod w) : Recalls x uid pod { w with memory := w.memory.step t, rows } where
  known v hv := by
    rw [TickMemory.lookup_known_step] at hv
    split at hv
    · rename_i hknown
      exact h.uid_eq hleaves hknown.1 hv
    · exact hw.known v hv
  row hx := by
    rcases h.rows x hx with hold | ⟨hknown, hplanned⟩
    · exact hw.row hold
    · obtain ⟨hlisted, hown⟩ := h.podTargetsKnown.mp hknown
      exact (hleaves.pod hlisted hown).mp (h.mem_podTargets.mp (Finset.mem_sdiff.mp hplanned).1)

end TickOn

variable {resource : Resource} {history : List Json.Value}

/-- What is remembered stays right in every step. -/
theorem Recalls.step (h : Recalls x uid pod w) {e : WatchStep} (hon : TicksOn node w e)
    (hleaves : TicksLeaveBe node x uid pod w e) :
    Recalls x uid pod (w.step resource history node.nodeIp e) := by
  cases e with
  | tick order t rows => exact TickOn.recalls hon hleaves h
  | list items point =>
    unfold Watching.step
    dsimp only
    split <;> exact ⟨h.known, h.row⟩
  | event =>
    unfold Watching.step
    dsimp only
    split <;> exact ⟨h.known, h.row⟩
  | bookmark => exact ⟨h.known, h.row⟩
  | closed expired => exact ⟨h.known, h.row⟩
  | other input => exact ⟨h.known, h.row⟩

/-- **The run**: an address that every tick's state leaves alone is never swept. -/
theorem Recalls.notSwept (h : Recalls x uid pod w) {steps : List WatchStep}
    (hon : Along (Watching.step resource history node.nodeIp) (TicksOn node) w steps)
    (hleaves : Along (Watching.step resource history node.nodeIp) (TicksLeaveBe node x uid pod) w steps) :
    Along (Watching.step resource history node.nodeIp) (NotSwept x) w steps := by
  refine Along.strengthen (fun w e (hw : Recalls x uid pod w) he => hw.step he.1 he.2) (fun w e hw he => ?_)
    (hon.and hleaves) h
  cases e with
  | tick order t rows => exact TickOn.notSwept he.1 he.2 hw
  | _ => trivial

/-- A tick that knows the pods of the node and goes through leaves memory and rows in agreement with its state. -/
theorem TickInput.GoesThrough.recalls {order : WatchState} {m : TickMemory} {t : TickInput}
    (hsame : order.SameContent w.state) (ht : t.GoesThrough m (order.desired node))
    (hknown : (order.desired node).podTargetsKnown = true) (hmemory : w.memory = m.step t)
    (hrows : ∀ y, y ∈ w.rows → y ∈ t.desired.podTargets) (huid : ∀ v, w.state.NamedFirst x v → v = uid) :
    Recalls x uid (w.state.ServesAddr node x) w where
  known v hv := by
    rw [hmemory, ht.lookup_known hknown] at hv
    exact huid v (hsame.namedFirst.mp (WatchState.namedFirst_of_lookup hv))
  row hx := by
    have hpod := hrows x hx
    rw [ht.entries, WatchState.isPodTarget_iff] at hpod
    exact hsame.servesAddr.mp hpod

/-- **Reconnects.** A watch that was read up to a point and is read up to it again leaves the state as it was, and no
    tick in between sweeps an address that all the states of these ticks leave alone. -/
theorem replay_harmless {n : Nat} {start : WatchState} {before replay : List WatchStep}
    (hbefore : Along (Watching.step resource history node.nodeIp) (Replays resource history node.nodeIp n)
      (.listed start) before)
    (hserved : (before.foldl (Watching.step resource history node.nodeIp) (.listed start)).watch.served = n)
    (hreplay : Along (Watching.step resource history node.nodeIp) (Replays resource history node.nodeIp n)
      (before.foldl (Watching.step resource history node.nodeIp) (.listed start)) replay) :
    let reached := before.foldl (Watching.step resource history node.nodeIp) (.listed start)
    let back := replay.foldl (Watching.step resource history node.nodeIp) reached
    (back.watch.served = n → ∀ i : Slot, (∀ input, .other input ∈ replay → input.resource ≠ i.resource) →
      i.get back.state = i.get reached.state) ∧
    ∀ x uid, Recalls x uid (reached.state.ServesAddr node x) reached →
      Along (Watching.step resource history node.nodeIp) (TicksOn node) reached replay →
      Along (Watching.step resource history node.nodeIp) (TicksLeaveBe node x uid (reached.state.ServesAddr node x))
        reached replay →
      Along (Watching.step resource history node.nodeIp) (NotSwept x) reached replay := by
  intro reached back
  have htrack : OnTrack resource history node.nodeIp n start reached := OnTrack.listed.run hbefore
  refine ⟨fun hback i hother => htrack.replayed hserved hreplay hback hother, fun x uid hrecalls hon hleaves => ?_⟩
  exact hrecalls.notSwept hon hleaves

end

end

/-! ## A Service that was scaled up -/

/-- The slice of the Service `web`. -/
def scaledSlice (endpoints : List Json.Value) : Json.Value := sliceObject "web" "web-1" [portObject 8080] endpoints

/-- The objects that were listed: a Service without pods, its slice and the one node. -/
def scaledObjects : ApiObjects where
  services := .ofList [serviceObject "web" [portObject 80]]
  slices := .ofList [scaledSlice []]
  nodes := .ofList [nodeObject "n1" "10.0.0.1"]

/-- The versions of the slice since: a first pod, then a second one. -/
def scaledHistory : List Json.Value :=
  [.obj [("type", .str "MODIFIED"), ("object", scaledSlice [endpointObject "10.1.0.9" "n1" "a"])],
    .obj [("type", .str "MODIFIED"),
      ("object", scaledSlice [endpointObject "10.1.0.9" "n1" "a", endpointObject "10.1.0.10" "n1" "b"])]]

/-- The first pod. -/
def firstPod : IpAddr := .v4 0x0a010009

/-- The second pod. -/
def secondPod : IpAddr := .v4 0x0a01000a

/-- The state after the LISTs. -/
def scaledStart : WatchState := initialState soleNode.nodeIp scaledObjects

/-- The state after both versions. -/
def scaledUp : WatchState :=
  scaledHistory.foldl (fun s event => s.apply soleNode.nodeIp (Resource.endpointSlices.event event).input) scaledStart

/-- The state after the first version was replayed. -/
def scaledBack : WatchState :=
  (scaledHistory.take 1).foldl (fun s event => s.apply soleNode.nodeIp (Resource.endpointSlices.event event).input)
    scaledUp

section
local instance reconnectHost : Host := littleHost

/-- A tick on a state, on a node without pods of its own. -/
def scaledTick (s : WatchState) : TickInput where
  desired := s.desired soleNode
  installed := []
  pinned := some ∅
  evict _ := true

/-- Both versions arrive, and a tick runs. -/
def scaledBefore : List WatchStep := [.event, .event, .tick scaledUp (scaledTick scaledUp) ∅]

/-- The stream ends, the first version arrives again, and a tick runs. -/
def scaledReplay : List WatchStep := [.closed false, .event, .tick scaledBack (scaledTick scaledBack) ∅]

/-- Where the watch is before. -/
def scaledReached : Watching :=
  scaledBefore.foldl (Watching.step .endpointSlices scaledHistory soleNode.nodeIp) (.listed scaledStart)

/-- Both versions were served, and one tick. -/
theorem scaledReached_eq : scaledReached =
    { watch := ⟨some 0, none, 2⟩, state := scaledUp, memory := TickMemory.step {} (scaledTick scaledUp), rows := ∅ } :=
  rfl

/-- Where the watch is when the first version has arrived again. -/
theorem scaledReached_back :
    [WatchStep.closed false, .event].foldl (Watching.step .endpointSlices scaledHistory soleNode.nodeIp) scaledReached =
      { watch := ⟨some 0, none, 1⟩, state := scaledBack,
        memory := TickMemory.step {} (scaledTick scaledUp), rows := ∅ } := by
  rw [scaledReached_eq]
  rfl

/-- That tick knew the pods. -/
theorem scaledUp_known : (scaledUp.desired soleNode).podTargetsKnown = true := by
  rw [WatchState.desired_podTargetsKnown]
  decide

/-- So does the one after the replay. -/
theorem scaledBack_known : (scaledBack.desired soleNode).podTargetsKnown = true := by
  rw [WatchState.desired_podTargetsKnown]
  decide

/-- What the two states hold about the two pods. -/
theorem scaled_pods :
    ((scaledUp.desired soleNode).clusterBackends.lookup (wireIpV6 secondPod) = some (some "b") ∧
      (scaledBack.desired soleNode).clusterBackends.lookup (wireIpV6 secondPod) = none ∧
      ((scaledBack.desired soleNode).clusterBackends.lookup (wireIpV6 firstPod)).isSome = true) ∧
    (scaledUp.sliceList.map fun slice =>
      (uidsOf (wireIpV6 firstPod) (scaledUp.sliceBackends slice)).findSome? id) = [some "a"] ∧
    (scaledBack.sliceList.map fun slice =>
      (uidsOf (wireIpV6 firstPod) (scaledBack.sliceBackends slice)).findSome? id) = [some "a"] ∧
    orphanSweepDue (scaledUp.desired soleNode) false = true := by
  decide +kernel

/-- The second pod is a backend of the second version. -/
theorem scaledUp_second : (scaledUp.desired soleNode).clusterBackends.lookup (wireIpV6 secondPod) = some (some "b") :=
  scaled_pods.1.1

/-- It is none of the first. -/
theorem scaledBack_second : (scaledBack.desired soleNode).clusterBackends.lookup (wireIpV6 secondPod) = none :=
  scaled_pods.1.2.1

/-- Neither pod is on this node. -/
theorem scaledUp_podTargets : (scaledUp.desired soleNode).podTargets = ∅ := by decide

/-- Nor after the replay. -/
theorem scaledBack_podTargets : (scaledBack.desired soleNode).podTargets = ∅ := by decide

/-- The ticks of the run do not fail. -/
theorem scaledTick_sweepFailed (s : WatchState) (m : TickMemory) : (scaledTick s).sweepFailed m = false := by
  unfold TickInput.sweepFailed TickInput.plan planTick
  simp [scaledTick]

/-- They read no rows, and leave none. -/
theorem scaledTick_on {w : Watching} : TickOn soleNode w w.state (scaledTick w.state) ∅ where
  same := .refl _
  entries := rfl
  installed _ hy := absurd hy List.not_mem_nil
  rows y hy := absurd hy (Finset.notMem_empty y)

/-- A step of the resource's own watch that stays within the two versions. -/
theorem scaled_replays {w : Watching} {e : WatchStep} (hexpired : e ≠ .closed true) (hother : ∀ input, e ≠ .other input)
    (h : (w.step .endpointSlices scaledHistory soleNode.nodeIp e).watch.served ≤ 2) :
    Replays .endpointSlices scaledHistory soleNode.nodeIp 2 w e :=
  ⟨h, hexpired, fun input he => absurd he (hother input)⟩

/-- Up to the reconnect the run replays nothing. -/
theorem scaledBefore_replays : Along (Watching.step .endpointSlices scaledHistory soleNode.nodeIp)
    (Replays .endpointSlices scaledHistory soleNode.nodeIp 2) (.listed scaledStart) scaledBefore :=
  ⟨scaled_replays (by simp) (by simp) (by decide), scaled_replays (by simp) (by simp) (by decide),
    scaled_replays (by simp) (by simp) (by decide), trivial⟩

/-- After it both versions may come again, and nothing else. -/
theorem scaledReplay_replays : Along (Watching.step .endpointSlices scaledHistory soleNode.nodeIp)
    (Replays .endpointSlices scaledHistory soleNode.nodeIp 2) scaledReached scaledReplay :=
  ⟨scaled_replays (by simp) (by simp) (by decide), scaled_replays (by simp) (by simp) (by decide),
    scaled_replays (by simp) (by simp) (by decide), trivial⟩

/-- Its ticks are on the state of the watch. -/
theorem scaledBefore_on : Along (Watching.step .endpointSlices scaledHistory soleNode.nodeIp) (TicksOn soleNode)
    (.listed scaledStart) scaledBefore :=
  ⟨trivial, trivial, scaledTick_on, trivial⟩

/-- And so are those after the reconnect. -/
theorem scaledReplay_on : Along (Watching.step .endpointSlices scaledHistory soleNode.nodeIp) (TicksOn soleNode)
    scaledReached scaledReplay :=
  ⟨trivial, trivial, scaledTick_on, trivial⟩

/-- Each of them goes through. -/
theorem scaledTick_goesThrough (s : WatchState) (m : TickMemory) :
    (scaledTick s).GoesThrough m (s.desired soleNode) where
  entries := rfl
  swept := scaledTick_sweepFailed _ _
  walked _ := rfl

/-- The uids the first pod is listed first under. -/
theorem namedFirst_mem {s : WatchState} {x : Bytes 16} {v : String} (h : s.NamedFirst x v) :
    some v ∈ s.sliceList.map fun slice => (uidsOf x (s.sliceBackends slice)).findSome? id := by
  obtain ⟨key, name, slice, hslice, hfirst⟩ := h
  exact List.mem_map.mpr ⟨slice, WatchState.mem_sliceList.mpr ⟨key, name, hslice⟩, hfirst⟩

/-- The first pod is remembered by its uid. -/
theorem scaledReached_recalls : Recalls (wireIpV6 firstPod) "a"
    (scaledUp.ServesAddr soleNode (wireIpV6 firstPod)) scaledReached :=
  TickInput.GoesThrough.recalls (.refl _) (scaledTick_goesThrough scaledUp {}) scaledUp_known rfl
      (fun y hy => absurd hy (Finset.notMem_empty y)) fun v hv => by
    have hmem := namedFirst_mem hv
    rw [show scaledReached.state = scaledUp from rfl, scaled_pods.2.1, List.mem_singleton] at hmem
    exact Option.some_inj.mp hmem

/-- The first version leaves the first pod alone, since it lists it with the same uid. -/
theorem scaledBack_leavesBe (m : TickMemory) : LeavesBe soleNode (wireIpV6 firstPod) "a"
    (scaledUp.ServesAddr soleNode (wireIpV6 firstPod)) scaledBack m where
  backend _ _ := WatchState.isBackend_iff.mp (Option.isSome_iff_ne_none.mp scaled_pods.1.2.2)
  pod _ _ := by
    unfold WatchState.ServesAddr
    rw [← WatchState.isPodTarget_iff, ← WatchState.isPodTarget_iff, scaledUp_podTargets, scaledBack_podTargets]
  uid _ _ v hv := by
    have hmem := namedFirst_mem hv
    rw [scaled_pods.2.2.1, List.mem_singleton] at hmem
    exact Option.some_inj.mp hmem

/-- The theorem at that run: the first pod, which both versions list, is left alone. -/
theorem replay_harmless_scaled : Along (Watching.step .endpointSlices scaledHistory soleNode.nodeIp)
    (NotSwept (wireIpV6 firstPod)) scaledReached scaledReplay :=
  (replay_harmless scaledBefore_replays rfl scaledReplay_replays).2 (wireIpV6 firstPod) "a" scaledReached_recalls
    scaledReplay_on ⟨trivial, trivial, scaledBack_leavesBe _, trivial⟩

/-- The slice is there when the first event comes. -/
theorem scaledObjects_held : (scaledObjects.slices.held.lookup ⟨"default", "web-1"⟩).isSome = true := by decide

/-- And when the second one does. -/
theorem scaledObjects_held_next : ((scaledObjects.slices.track (scaledHistory.get ⟨0, by decide⟩)).held.lookup
    ⟨"default", "web-1"⟩).isSome = true := by
  decide

/-- Both events modify what is there. -/
theorem scaledHistory_consistent :
    Along ApiObjects.step Consistent scaledObjects (scaledHistory.map Resource.endpointSlices.event) :=
  ⟨⟨⟨"default", "web-1"⟩, rfl, by
      rw [if_neg (by decide)]
      exact ⟨Or.inl rfl, Option.isSome_iff_ne_none.mp scaledObjects_held⟩⟩,
    ⟨⟨"default", "web-1"⟩, rfl, by
      rw [if_neg (by decide)]
      exact ⟨Or.inl rfl, Option.isSome_iff_ne_none.mp scaledObjects_held_next⟩⟩, trivial⟩

/-- The second pod is remembered when the watch reconnects. -/
theorem scaledReached_second :
    (TickMemory.step {} (scaledTick scaledUp)).known.lookup (wireIpV6 secondPod) = some (some "b") :=
  ((scaledTick_goesThrough scaledUp {}).lookup_known scaledUp_known).trans scaledUp_second

/-- The replayed first version has the second pod swept. -/
theorem scaledReplay_swept : ¬ NotSwept (wireIpV6 secondPod)
    { watch := ⟨some 0, none, 1⟩, state := scaledBack, memory := TickMemory.step {} (scaledTick scaledUp), rows := ∅ }
    (.tick scaledBack (scaledTick scaledBack) ∅) := by
  have hdesired : (scaledTick scaledBack).desired = scaledBack.desired soleNode := rfl
  rw [NotSwept, TickInput.mem_sweep, hdesired, scaledReached_second, scaledBack_second, not_not]
  exact Or.inr ⟨scaledBack_known, Or.inr (Or.inl ⟨(fun h => nomatch h), rfl⟩)⟩

end

/-- A reconnect sweeps the flows of a pod that is there before and after. -/
theorem not_replay_harmless : ¬ ∀ (host : Host) (node : NodeContext) (c : ApiObjects) (resource : Resource)
    (history : List Json.Value) (n : Nat) (before replay : List WatchStep) (x : Bytes 16) (owner : Option String),
    let step := Watching.step resource history node.nodeIp
    let start := initialState node.nodeIp c
    let reached := before.foldl step (.listed start)
    let newest := history.foldl (fun s event => s.apply node.nodeIp (resource.event event).input) start
    Along ApiObjects.step Consistent c (history.map resource.event) →
    Along step (Replays resource history node.nodeIp n) (.listed start) before → reached.watch.served = n →
    Along step (Replays resource history node.nodeIp n) reached replay →
    Along step (@TicksOn host node) (.listed start) (before ++ replay) →
    Along step TicksSucceed (.listed start) (before ++ replay) →
    (@WatchState.desired host reached.state node).clusterBackends.lookup x = some owner →
    (@WatchState.desired host newest node).clusterBackends.lookup x = some owner →
      ((replay.foldl step reached).watch.served = n → (replay.foldl step reached).state.SameContent reached.state) ∧
        Along step (NotSwept x) reached replay := by
  intro hharmless
  have hsucceed : Along (Watching.step .endpointSlices scaledHistory soleNode.nodeIp) TicksSucceed (.listed scaledStart)
      (scaledBefore ++ scaledReplay) :=
    along_append.mpr ⟨⟨trivial, trivial, scaledTick_sweepFailed _ _, trivial⟩,
      ⟨trivial, trivial, scaledTick_sweepFailed _ _, trivial⟩⟩
  have hon : Along (Watching.step .endpointSlices scaledHistory soleNode.nodeIp) (@TicksOn littleHost soleNode)
      (.listed scaledStart) (scaledBefore ++ scaledReplay) :=
    along_append.mpr ⟨scaledBefore_on, scaledReplay_on⟩
  have hswept : Along (Watching.step .endpointSlices scaledHistory soleNode.nodeIp)
      (NotSwept (@wireIpV6 littleHost secondPod)) scaledReached scaledReplay :=
    (hharmless littleHost soleNode scaledObjects .endpointSlices scaledHistory 2 scaledBefore scaledReplay
      (@wireIpV6 littleHost secondPod) (some "b") scaledHistory_consistent scaledBefore_replays rfl scaledReplay_replays
      hon hsucceed scaledUp_second scaledUp_second).2
  have htick := along_iff.mp hswept [.closed false, .event] (.tick scaledBack (scaledTick scaledBack) ∅) [] rfl
  rw [scaledReached_back] at htick
  exact scaledReplay_swept htick

end Beep
