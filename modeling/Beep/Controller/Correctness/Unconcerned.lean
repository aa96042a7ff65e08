import Beep.Controller.ListWatch
import Beep.Ebpf.Skb

/-!
# `Controller.Correctness.Unconcerned` — events about other objects

An event or a relist that leaves the facts of an address and their Nodes as they are (`Unconcerned`) leaves the address
a backend and a pod of this node exactly if it was one. What it can change is the uid the address is known by: that is
the first known uid of whichever slice is visited first, and a rebuilt map may visit another slice first. And the last of
the three LISTs lets the tick after it walk for orphans and read the rows that an earlier process left. So after a tick
that went through the address is never swept exactly when every slice lists it first under one uid and that last LIST
finds it listed (`unconcerned_not_swept_iff`).
-/

namespace Beep

open WatchState

section
variable [Host]

/-- The facts of an address, their Nodes and this node's own Nodes are the same before and after, and what was listed
    stays listed. -/
structure Unconcerned (node : NodeContext) (x : Bytes 16) (s s' : WatchState) : Prop where
  facts : ∀ f, s.HasFact x f ↔ s'.HasFact x f
  nodes : ∀ f n, s.HasFact x f → f.nodeName = some n →
    s'.nodeIps.lookup n = s.nodeIps.lookup n ∧ (n ∈ s'.nodeNames ↔ n ∈ s.nodeNames)
  ownNode : ∀ n addrs, addrs.contains node.nodeIp = true →
    (s.nodeIps.lookup n = some addrs ↔ s'.nodeIps.lookup n = some addrs)
  listed : s.fullyListed = true → s'.fullyListed = true

/-- A process in some run: what it watches, and what it remembers. Its ticks may fail, and iterate the maps in any
    order. -/
inductive Reached (node : NodeContext) : WatchState → TickMemory → Prop
  | start : Reached node {} {}
  | input {s m} (h : Reached node s m) (input : WatchInput) : Reached node (s.apply node.nodeIp input) m
  | tick {s m} (h : Reached node s m) {order : WatchState} (hsame : order.SameContent s) {t : TickInput}
      (ht : t.desired = order.desired node) : Reached node s (m.step t)

/-- Whatever the order in which the maps are iterated before and after: the tick after one that went through does not
    sweep the address. -/
def NeverSwept (node : NodeContext) (x : Bytes 16) (s s' : WatchState) (m : TickMemory) : Prop :=
  ∀ (s₁ s₂ : WatchState) (t t' : TickInput), s₁.SameContent s → s₂.SameContent s' → t.GoesThrough m (s₁.desired node) →
    t'.desired = s₂.desired node → (∀ y, y ∈ t'.installed ↔ y ∈ t.rowsAfter m) → x ∉ t'.sweep (m.step t)

/-- The pods of the node are known: everything is listed, and this node's own Node is there. -/
def WatchState.PodsKnown (s : WatchState) (node : NodeContext) : Prop :=
  s.fullyListed = true ∧ (s.ownNodeAddrs node.nodeIp).isSome = true

/-- What keeps an address from being swept between two states, for a process with the given memory. -/
structure SweepSpares (node : NodeContext) (x : Bytes 16) (s s' : WatchState) (m : TickMemory) : Prop where
  /-- where the tick before remembers whose the address is, all slices list it first under one known uid -/
  oneUid : s.PodsKnown node → ∀ uid uid', (s.NamedFirst x uid ∨ s'.NamedFirst x uid) →
    (s.NamedFirst x uid' ∨ s'.NamedFirst x uid') → uid = uid'
  /-- where the walk for orphans can be due after, the address is a backend, or the walk was due before -/
  walked : s'.fullyListed = true → (∃ y, s'.IsBackend y) → ¬ s'.IsBackend x →
    m.orphansSwept = true ∨ (s.fullyListed = true ∧ ∃ y, s.IsBackend y)
  /-- where the rows that an earlier process left are read for the first time, the address is a pod of this node -/
  firstRead : ¬ s.PodsKnown node → s'.PodsKnown node → s'.ServesAddr node x

section
variable {node : NodeContext} {x : Bytes 16} {s s' : WatchState}

omit [Host] in
/-- The Nodes are among the LISTs. -/
theorem nodesListed_of_fullyListed (h : s.fullyListed = true) : s.nodesListed = true := by
  simp only [WatchState.fullyListed, Bool.and_eq_true] at h
  exact h.1.1

omit [Host] in
/-- This node is known if some Node has its address. -/
theorem ownNodeAddrs_isSome {ip : IpAddr} : (s.ownNodeAddrs ip).isSome = true ↔
    ∃ n addrs, s.nodeIps.lookup n = some addrs ∧ addrs.contains ip = true := by
  simp only [ownNodeAddrs, List.find?_isSome, Table.mem_values]
  constructor
  · rintro ⟨addrs, ⟨n, hn⟩, hip⟩
    exact ⟨n, addrs, hn, hip⟩
  · rintro ⟨n, addrs, hn, hip⟩
    exact ⟨addrs, ⟨n, hn⟩, hip⟩

omit [Host] in
/-- Whether the own Node is there does not depend on the order of the maps. -/
theorem WatchState.SameContent.ownNodeAddrs {s₁ : WatchState} (h : s₁.SameContent s) (ip : IpAddr) :
    (s₁.ownNodeAddrs ip).isSome = (s.ownNodeAddrs ip).isSome := by
  rw [Bool.eq_iff_iff, ownNodeAddrs_isSome, ownNodeAddrs_isSome]
  simp only [h.nodeIps _]

/-- Nor does whether the pods of the node are known. -/
theorem WatchState.SameContent.podTargetsKnown {s₁ : WatchState} (h : s₁.SameContent s) :
    (s₁.desired node).podTargetsKnown = (s.desired node).podTargetsKnown := by
  rw [desired_podTargetsKnown, desired_podTargetsKnown, h.fullyListed, h.ownNodeAddrs]

/-- The tick on a state knows the pods of the node exactly if the state does. -/
theorem WatchState.SameContent.podsKnown_iff {s₁ : WatchState} (h : s₁.SameContent s) :
    (s₁.desired node).podTargetsKnown = true ↔ s.PodsKnown node := by
  rw [h.podTargetsKnown, desired_podTargetsKnown, Bool.and_eq_true]
  rfl

/-- When the walk for orphans is due on a state. -/
theorem WatchState.SameContent.orphanSweepDue_iff {s₁ : WatchState} (h : s₁.SameContent s) {already : Bool} :
    orphanSweepDue (s₁.desired node) already = true ↔
      s.fullyListed = true ∧ already = false ∧ ∃ y, s.IsBackend y := by
  have hbackend : (s₁.desired node).clusterBackends.entries.isEmpty = false ↔ ∃ y, s.IsBackend y := by
    rw [hasBackend_iff]
    exact exists_congr fun y => h.isBackend
  unfold orphanSweepDue
  rw [desired_frontsKnown, h.fullyListed, Bool.and_eq_true, Bool.and_eq_true, Bool.not_eq_true', Bool.not_eq_true',
    hbackend, and_assoc]

/-- The pods of the node stay known; they become known with the last LIST only. -/
theorem Unconcerned.podsKnown (h : Unconcerned node x s s') (hpods : s.PodsKnown node) : s'.PodsKnown node := by
  obtain ⟨n, addrs, hn, hown⟩ := ownNodeAddrs_isSome.mp hpods.2
  exact ⟨h.listed hpods.1, ownNodeAddrs_isSome.mpr ⟨n, addrs, (h.ownNode n addrs hown).mp hn, hown⟩⟩

/-- Only the last of the LISTs, or the own Node, makes the pods known. -/
theorem Unconcerned.not_listed (h : Unconcerned node x s s') (hpods : ¬ s.PodsKnown node) (hpods' : s'.PodsKnown node) :
    s.fullyListed = false := by
  obtain ⟨n, addrs, hn, hown⟩ := ownNodeAddrs_isSome.mp hpods'.2
  refine Bool.eq_false_iff.mpr fun hlisted => hpods ⟨hlisted, ?_⟩
  exact ownNodeAddrs_isSome.mpr ⟨n, addrs, (h.ownNode n addrs hown).mpr hn, hown⟩

/-- The Nodes of the address's endpoints are tracked as before. -/
theorem Unconcerned.tracks (h : Unconcerned node x s s') (hlisted : s.fullyListed = true) {f : Fact}
    (hf : s.HasFact x f) : s'.Tracks f.nodeName = s.Tracks f.nodeName := by
  unfold WatchState.Tracks
  rw [nodesListed_of_fullyListed hlisted, nodesListed_of_fullyListed (h.listed hlisted)]
  cases hn : f.nodeName with
  | none => rfl
  | some n => simp [(h.nodes f n hf hn).2]

/-- The address stays a backend, or none. -/
theorem Unconcerned.isBackend (h : Unconcerned node x s s') (hlisted : s.fullyListed = true) :
    s'.IsBackend x ↔ s.IsBackend x := by
  constructor
  · rintro ⟨f, hf, htracks⟩
    have hf' := (h.facts f).mpr hf
    exact ⟨f, hf', (h.tracks hlisted hf').symm.trans htracks⟩
  · rintro ⟨f, hf, htracks⟩
    exact ⟨f, (h.facts f).mp hf, (h.tracks hlisted hf).trans htracks⟩

/-- The address stays a pod of this node, or none. -/
theorem Unconcerned.servesAddr (h : Unconcerned node x s s') : s'.ServesAddr node x ↔ s.ServesAddr node x := by
  constructor
  · rintro ⟨f, hf, n, addrs, hn, haddrs, hrest⟩
    have hf' := (h.facts f).mpr hf
    exact ⟨f, hf', n, addrs, hn, (h.nodes f n hf' hn).1.symm.trans haddrs, hrest⟩
  · rintro ⟨f, hf, n, addrs, hn, haddrs, hrest⟩
    exact ⟨f, (h.facts f).mp hf, n, addrs, hn, (h.nodes f n hf hn).1.trans haddrs, hrest⟩

/-- Some slice lists the address under a known uid, before as after. -/
theorem exists_namedFirst_iff : (∃ uid, s.NamedFirst x uid) ↔
    ∃ f, s.HasFact x f ∧ s.Tracks f.nodeName = true ∧ f.uid ≠ none := by
  constructor
  · rintro ⟨uid, key, name, slice, hslice, hfirst⟩
    obtain ⟨u, hu, huid⟩ := List.exists_of_findSome?_eq_some hfirst
    obtain rfl : u = some uid := huid
    obtain ⟨e, he, hpair⟩ := List.mem_map.mp (mem_uidsOf.mp hu)
    obtain ⟨hmem, htracks⟩ := List.mem_filter.mp he
    obtain ⟨hx, huid⟩ := Prod.mk.inj hpair
    refine ⟨⟨key, name, e.podIp, e.nodeName, e.podUid⟩, ⟨hx, slice, e, hslice, hmem, rfl, rfl, rfl⟩, htracks, ?_⟩
    show e.podUid ≠ none
    rw [huid]
    exact fun h => nomatch h
  · rintro ⟨f, ⟨hx, slice, e, hslice, hmem, hip, hnode, huid⟩, htracks, hsome⟩
    obtain ⟨uid, hu⟩ := Option.ne_none_iff_exists'.mp hsome
    have hlisted : some uid ∈ uidsOf x (s.sliceBackends slice) := by
      refine mem_uidsOf.mpr (List.mem_map.mpr ⟨e, List.mem_filter.mpr ⟨hmem, ?_⟩, ?_⟩)
      · rw [hnode]
        exact htracks
      · rw [hip, hx, huid, hu]
    cases hfirst : (uidsOf x (s.sliceBackends slice)).findSome? id with
    | some uid' => exact ⟨uid', f.service, f.slice, slice, hslice, hfirst⟩
    | none => exact absurd (List.findSome?_eq_none_iff.mp hfirst _ hlisted) fun h => nomatch h

/-- Some slice names the address in both or in neither. -/
theorem Unconcerned.exists_namedFirst (h : Unconcerned node x s s') (hlisted : s.fullyListed = true) :
    (∃ uid, s.NamedFirst x uid) ↔ ∃ uid, s'.NamedFirst x uid := by
  rw [exists_namedFirst_iff, exists_namedFirst_iff]
  constructor
  · rintro ⟨f, hf, htracks, huid⟩
    exact ⟨f, (h.facts f).mp hf, (h.tracks hlisted hf).trans htracks, huid⟩
  · rintro ⟨f, hf, htracks, huid⟩
    have hf' := (h.facts f).mpr hf
    exact ⟨f, hf', (h.tracks hlisted hf').symm.trans htracks, huid⟩

/-! ## The tick after -/

/-- Until everything is listed a process remembers nothing. -/
theorem Reached.memory {m : TickMemory} (h : Reached node s m) (hlisted : s.fullyListed = false) : m = {} := by
  induction h with
  | start => rfl
  | input h input ih =>
    refine ih (Bool.eq_false_iff.mpr fun hbefore => ?_)
    rw [WatchState.fullyListed_apply _ _ hbefore] at hlisted
    cases hlisted
  | tick h hsame ht ih =>
    rw [TickMemory.step_unlisted, ih hlisted]
    · rw [ht, desired_frontsKnown, hsame.fullyListed, hlisted]
    · rw [ht, desired_podTargetsKnown, hsame.fullyListed, hlisted, Bool.false_and]

/-- Any inputs after it, by induction on them. -/
theorem Reached.inputs {m : TickMemory} (h : Reached node s m) (inputs : List WatchInput) :
    Reached node (inputs.foldl (WatchState.apply node.nodeIp) s) m := by
  induction inputs generalizing s with
  | nil => exact h
  | cons input inputs ih => exact ih (h.input input)

section
variable {m : TickMemory} {s₁ s₂ : WatchState} {t t' : TickInput}

/-- The tick after finds the address no orphan, where the walk before is behind it or the address is a backend. -/
theorem SweepSpares.not_orphan (h : SweepSpares node x s s' m) (h₁ : s₁.SameContent s) (h₂ : s₂.SameContent s')
    (ht : t.GoesThrough m (s₁.desired node)) (ht' : t'.desired = s₂.desired node) :
    x ∉ (t'.orphans (m.step t)).getD ∅ := by
  intro hx
  have hgone : ¬ s'.IsBackend x := by
    have habsent := TickInput.orphans_absent hx
    rw [ht'] at habsent
    exact fun hbackend => isBackend_iff.mpr (h₂.isBackend.mpr hbackend) habsent
  have hdue : orphanSweepDue (s₂.desired node) (m.step t).orphansSwept = true := by
    by_contra hnot
    unfold TickInput.orphans at hx
    rw [ht', if_neg hnot] at hx
    exact absurd hx (Finset.notMem_empty x)
  obtain ⟨hlisted', hundone, hsome'⟩ := h₂.orphanSweepDue_iff.mp hdue
  rw [ht.orphansSwept, Bool.or_eq_false_iff] at hundone
  rcases h.walked hlisted' hsome' hgone with hdone | ⟨hlisted, hsome⟩
  · rw [hdone] at hundone
    cases hundone.1
  · exact Bool.false_ne_true (hundone.2.symm.trans (h₁.orphanSweepDue_iff.mpr ⟨hlisted, hundone.1, hsome⟩))

/-- **The tick after a tick that knew the pods of the node** sweeps the address, orphans apart, only if it is now known
    by another uid. -/
theorem Unconcerned.renamed_of_sweep (h : Unconcerned node x s s') (h₁ : s₁.SameContent s) (h₂ : s₂.SameContent s')
    (hpods : s.PodsKnown node) (ht : t.GoesThrough m (s₁.desired node)) (ht' : t'.desired = s₂.desired node)
    (hrows : ∀ y, y ∈ t'.installed ↔ y ∈ t.rowsAfter m)
    (hx : (x ∈ t'.rows ∧ x ∉ t'.desired.podTargets) ∨
      ((m.step t).known.lookup x ≠ none ∧ t'.desired.clusterBackends.lookup x = none) ∨
      ∃ a b, (m.step t).known.lookup x = some (some a) ∧ t'.desired.clusterBackends.lookup x = some (some b) ∧ a ≠ b) :
    ∃ a b, s.NamedFirst x a ∧ s'.NamedFirst x b ∧ a ≠ b := by
  have hknown := h₁.podsKnown_iff.mpr hpods
  rw [ht', ht.lookup_known hknown] at hx
  rcases hx with ⟨hrow, hgone⟩ | ⟨hwas, hgone⟩ | ⟨a, b, ha, hb, hab⟩
  · -- the rows are the pods of the state before, which are those of the state after
    have hpod := (ht.mem_rowsAfter hknown).mp ((hrows x).mp (TickInput.mem_rows.mp hrow).2)
    rw [isPodTarget_iff] at hpod hgone
    exact absurd (h₂.servesAddr.mpr (h.servesAddr.mpr (h₁.servesAddr.mp hpod))) hgone
  · have hbackend := h₁.isBackend.mp (isBackend_iff.mp hwas)
    exact absurd hgone (isBackend_iff.mpr (h₂.isBackend.mpr ((h.isBackend hpods.1).mpr hbackend)))
  · exact ⟨a, b, h₁.namedFirst.mp (namedFirst_of_lookup ha), h₂.namedFirst.mp (namedFirst_of_lookup hb), hab⟩

/-- An address that is spared is not swept. -/
theorem SweepSpares.neverSwept (hspares : SweepSpares node x s s' m) (h : Unconcerned node x s s') (hm : Reached node s m) :
    NeverSwept node x s s' m := by
  intro s₁ s₂ t t' h₁ h₂ ht ht' hrows hx
  rcases TickInput.mem_sweep.mp hx with horphan | ⟨hknown', hcase⟩
  · exact hspares.not_orphan h₁ h₂ ht ht' horphan
  · have hpods' : s'.PodsKnown node := h₂.podsKnown_iff.mp (ht' ▸ hknown')
    by_cases hpods : s.PodsKnown node
    · obtain ⟨a, b, ha, hb, hab⟩ := h.renamed_of_sweep h₁ h₂ hpods ht ht' hrows hcase
      exact hab (hspares.oneUid hpods a b (Or.inl ha) (Or.inr hb))
    · -- nothing is remembered yet, so only a row that was left behind can be swept
      have hlisted := h.not_listed hpods hpods'
      have hnone : (m.step t).known.lookup x = none := by
        have hunknown : t.desired.podTargetsKnown = false := by
          rw [ht.entries]
          exact Bool.eq_false_iff.mpr fun hknown => hpods (h₁.podsKnown_iff.mp hknown)
        rw [TickMemory.lookup_known_step, if_neg (fun hboth => Bool.eq_false_iff.mp hunknown hboth.1), hm.memory hlisted]
        rfl
      rcases hcase with ⟨-, hgone⟩ | ⟨hwas, -⟩ | ⟨a, -, ha, -⟩
      · rw [ht', isPodTarget_iff] at hgone
        exact hgone (h₂.servesAddr.mpr (hspares.firstRead hpods hpods'))
      · exact hwas hnone
      · rw [hnone] at ha
        cases ha

/-- A tick that goes through, whatever it has to sweep. -/
def smoothTick (d : DesiredEntries) (installed : List (Bytes 16)) (pinned : Finset (Bytes 16)) : TickInput where
  desired := d
  installed := installed
  pinned := some pinned
  evict _ := true

omit [Host] in
/-- Nothing fails in it, and it walks the rows it is given. -/
theorem smoothTick_goesThrough (d : DesiredEntries) (installed : List (Bytes 16)) (pinned : Finset (Bytes 16)) :
    (smoothTick d installed pinned).GoesThrough m d where
  entries := rfl
  swept := by
    show (if _ then false else !true) = false
    split <;> rfl
  walked _ := rfl

/-- Two slices that list the address first under different uids: some order of the maps has it swept. -/
theorem NeverSwept.oneUid (hnever : NeverSwept node x s s' m) (h : Unconcerned node x s s') (hpods : s.PodsKnown node)
    {a b : String} (ha : s.NamedFirst x a) (hb : s'.NamedFirst x b) : a = b := by
  by_contra hab
  obtain ⟨s₁, h₁, ha⟩ := ha.exists_order node
  obtain ⟨s₂, h₂, hb⟩ := hb.exists_order node
  let t := smoothTick (s₁.desired node) [] ∅
  have ht : t.GoesThrough m (s₁.desired node) := smoothTick_goesThrough _ _ _
  refine hnever s₁ s₂ t (smoothTick (s₂.desired node) (t.rowsAfter m).toList ∅) h₁ h₂ ht rfl
    (fun y => Finset.mem_toList) (TickInput.mem_sweep.mpr (Or.inr ⟨h₂.podsKnown_iff.mpr (h.podsKnown hpods), ?_⟩))
  refine Or.inr (Or.inr ⟨a, b, ?_, hb, hab⟩)
  rw [ht.lookup_known (h₁.podsKnown_iff.mpr hpods), ha]

/-- A pin of an address that is no backend: the walk sweeps it where it is due. -/
theorem NeverSwept.walked (hnever : NeverSwept node x s s' m) (hlisted' : s'.fullyListed = true)
    (hsome' : ∃ y, s'.IsBackend y) (hgone : ¬ s'.IsBackend x) :
    m.orphansSwept = true ∨ (s.fullyListed = true ∧ ∃ y, s.IsBackend y) := by
  by_contra hundone
  obtain ⟨hnot, hnotDue⟩ := not_or.mp hundone
  let t := smoothTick (s.desired node) [] ∅
  have ht : t.GoesThrough m (s.desired node) := smoothTick_goesThrough _ _ _
  have hswept : (m.step t).orphansSwept = false := by
    rw [ht.orphansSwept, Bool.or_eq_false_iff, Bool.eq_false_iff, Bool.eq_false_iff]
    exact ⟨hnot, fun hdue => hnotDue
      ⟨((WatchState.SameContent.refl s).orphanSweepDue_iff.mp hdue).1,
        ((WatchState.SameContent.refl s).orphanSweepDue_iff.mp hdue).2.2⟩⟩
  refine hnever s s' t (smoothTick (s'.desired node) (t.rowsAfter m).toList {x}) (.refl s) (.refl s') ht rfl
    (fun y => Finset.mem_toList) (TickInput.mem_sweep.mpr (Or.inl ?_))
  have hdue : orphanSweepDue (s'.desired node) (m.step t).orphansSwept = true :=
    (WatchState.SameContent.refl s').orphanSweepDue_iff.mpr ⟨hlisted', hswept, hsome'⟩
  unfold TickInput.orphans
  show x ∈ (if orphanSweepDue (s'.desired node) (m.step t).orphansSwept = true then _ else none).getD ∅
  rw [if_pos hdue]
  show x ∈ {x} \ (s'.desired node).clusterBackends.keys.toFinset
  rw [Finset.mem_sdiff, List.mem_toFinset]
  exact ⟨Finset.mem_singleton_self x, fun hmem => hgone (isBackend_iff.mp
    (Option.ne_none_iff_exists'.mpr ((Table.mem_keys_iff _ _).mp hmem)))⟩

/-- A row that an earlier process left: it is swept when it is first read, unless the address is a pod of this node. -/
theorem NeverSwept.firstRead (hnever : NeverSwept node x s s' m) (hpods : ¬ s.PodsKnown node)
    (hpods' : s'.PodsKnown node) : s'.ServesAddr node x := by
  by_contra hgone
  let t := smoothTick (s.desired node) [x] ∅
  have ht : t.GoesThrough m (s.desired node) := smoothTick_goesThrough _ _ _
  have hunknown : t.desired.podTargetsKnown ≠ true := fun hknown =>
    hpods ((WatchState.SameContent.refl s).podsKnown_iff.mp hknown)
  have hknown' : (s'.desired node).podTargetsKnown = true := (WatchState.SameContent.refl s').podsKnown_iff.mpr hpods'
  have hleft : x ∈ t.rowsAfter m := by
    unfold TickInput.rowsAfter
    rw [if_neg hunknown]
    exact List.mem_toFinset.mpr (List.mem_singleton_self x)
  refine hnever s s' t (smoothTick (s'.desired node) (t.rowsAfter m).toList ∅) (.refl s) (.refl s') ht rfl
    (fun y => Finset.mem_toList) (TickInput.mem_sweep.mpr (Or.inr ⟨hknown', Or.inl ⟨?_, ?_⟩⟩))
  · exact TickInput.mem_rows.mpr ⟨hknown', Finset.mem_toList.mpr hleft⟩
  exact fun hpod => hgone (isPodTarget_iff.mp hpod)

/-- **Whose events sweep nothing.** An address that no event concerned is never swept by the tick after one that went
    through, in whatever order the maps are iterated before and after, exactly if it is spared: by one uid, by the walk
    for orphans being over or the address a backend, and by no row being read for the first time. -/
theorem unconcerned_not_swept_iff (hm : Reached node s m) (h : Unconcerned node x s s') :
    NeverSwept node x s s' m ↔ SweepSpares node x s s' m := by
  refine ⟨fun hnever => ⟨fun hpods uid uid' huid huid' => ?_, hnever.walked, hnever.firstRead⟩,
    fun hspares => hspares.neverSwept h hm⟩
  have hagree : ∀ {a b}, s.NamedFirst x a → s'.NamedFirst x b → a = b := hnever.oneUid h hpods
  rcases huid with ha | ha <;> rcases huid' with hb | hb
  · obtain ⟨c, hc⟩ := (h.exists_namedFirst hpods.1).mp ⟨uid, ha⟩
    exact (hagree ha hc).trans (hagree hb hc).symm
  · exact hagree ha hb
  · exact (hagree hb ha).symm
  · obtain ⟨c, hc⟩ := (h.exists_namedFirst hpods.1).mpr ⟨uid, ha⟩
    exact (hagree hc ha).symm.trans (hagree hc hb)

end

end

end

/-! ## Two pods on one host address -/

/-- `10.0.0.5`, the address of the one node and of the pods on its host network. -/
def hostAddr : IpAddr := .v4 0x0a000005

/-- That node. -/
def hostNode : NodeContext := ⟨hostAddr, ⟨none, none⟩⟩

/-- Two slices of one Service, each with a pod on the host network. -/
def hostSlices : List Json.Value :=
  [sliceObject "web" "web-1" [portObject 8080] [endpointObject "10.0.0.5" "n1" "a"],
    sliceObject "web" "web-2" [portObject 9090] [endpointObject "10.0.0.5" "n1" "b"]]

/-- The three LISTs of that cluster. -/
def hostLists : List WatchInput :=
  [.services [serviceObject "web" [portObject 80]], .endpointSlices hostSlices, .nodes [nodeObject "n1" "10.0.0.5"]]

/-- The state after them. -/
def hostState : WatchState := hostLists.foldl (WatchState.apply hostAddr) {}

section
local instance hostExample : Host := littleHost

/-- A relist of the slices that are held changes nothing. -/
theorem hostState_relist : hostState.apply hostAddr (.endpointSlices hostSlices) = hostState := by
  have haccepted : ¬ (0 < hostState.trackedWithSlices hostState.slices ∧ hostState.trackedWithSlices
      (hostSlices.foldl (fun (fresh : WatchState) item => (fresh.applyEndpointSliceEvent (added item)).1)
        {}).slices = 0) := by decide
  show (if _ then _ else _ : WatchState × Except String Unit).1 = _
  rw [if_neg haccepted]
  rfl

/-- The relist is of the same slices, so it is one with the same endpoints at the address. -/
theorem hostState_unconcerned : Unconcerned hostNode (wireIpV6 hostAddr) hostState hostState where
  facts _ := Iff.rfl
  nodes _ _ _ _ := ⟨rfl, Iff.rfl⟩
  ownNode _ _ _ := Iff.rfl
  listed h := h

/-- The tick knows the pods. -/
theorem hostState_podsKnown : hostState.PodsKnown hostNode := by
  unfold WatchState.PodsKnown
  decide

/-- The three LISTs and no tick. -/
theorem hostState_reached : Reached hostNode hostState {} := Reached.start.inputs hostLists

/-- A uid the address is listed first under in a slice of the Service. -/
theorem hostState_namedFirst (name : String) {uid : String} (h : ((hostState.slicesOf ⟨"default", "web"⟩).lookup name).map
    (fun slice => (uidsOf (wireIpV6 hostAddr) (hostState.sliceBackends slice)).findSome? id) = some (some uid)) :
    hostState.NamedFirst (wireIpV6 hostAddr) uid := by
  obtain ⟨slice, hslice, hfirst⟩ := Option.map_eq_some_iff.mp h
  have hsvc : (hostState.services.lookup ⟨"default", "web"⟩).isSome = true := by decide
  exact ⟨⟨"default", "web"⟩, name, slice, ⟨hsvc, hslice⟩, hfirst⟩

/-- Two slices, two uids. -/
theorem hostState_firstUids : ["web-1", "web-2"].map (fun name => ((hostState.slicesOf ⟨"default", "web"⟩).lookup name).map
    fun slice => (uidsOf (wireIpV6 hostAddr) (hostState.sliceBackends slice)).findSome? id) =
      [some (some "a"), some (some "b")] := by
  decide +kernel

/-- The one. -/
theorem hostState_namedFirst_a : hostState.NamedFirst (wireIpV6 hostAddr) "a" :=
  hostState_namedFirst "web-1" (List.cons.inj hostState_firstUids).1

/-- And the other. -/
theorem hostState_namedFirst_b : hostState.NamedFirst (wireIpV6 hostAddr) "b" :=
  hostState_namedFirst "web-2" (List.cons.inj (List.cons.inj hostState_firstUids).2).1

/-- The theorem at that state: the relist may sweep the address. -/
theorem unconcerned_not_swept_iff_relist : Unconcerned hostNode (wireIpV6 hostAddr) hostState hostState ∧
    ¬ NeverSwept hostNode (wireIpV6 hostAddr) hostState hostState {} := by
  refine ⟨hostState_unconcerned, fun hnever => ?_⟩
  have hspares := (unconcerned_not_swept_iff hostState_reached hostState_unconcerned).mp hnever
  have hone := hspares.oneUid hostState_podsKnown "a" "b" (Or.inl hostState_namedFirst_a) (Or.inl hostState_namedFirst_b)
  exact absurd hone (by decide)

end

/-- A relist of what is held already sweeps an address that two pods of the node share. -/
theorem not_unconcerned_not_swept : ¬ ∀ (host : Host) (node : NodeContext) (s : WatchState) (m : TickMemory)
    (input : WatchInput) (x : Bytes 16), @Reached host node s m →
    @Unconcerned host node x s (s.apply node.nodeIp input) →
      @NeverSwept host node x s (s.apply node.nodeIp input) m := by
  intro hspares
  let := littleHost
  have hnever := hspares littleHost hostNode hostState {} (.endpointSlices hostSlices) (wireIpV6 hostAddr)
    hostState_reached
  rw [show hostState.apply hostNode.nodeIp (.endpointSlices hostSlices) = hostState from hostState_relist] at hnever
  exact absurd ((hnever hostState_unconcerned).oneUid hostState_unconcerned hostState_podsKnown hostState_namedFirst_a
    hostState_namedFirst_b) (by decide)

end Beep
