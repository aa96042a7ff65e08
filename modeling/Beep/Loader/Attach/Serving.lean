import Beep.Loader.Attach.Uplinks

/-!
# `Loader.Attach.Serving` — an uplink stays served

A node's uplink is served if it has its row in `UPLINK_CONFIG` and a link for each direction. Starts follow each other, each
may fail or be stopped at any operation, and devices come and go before, between and during them. **An uplink stays
served** (`Dataplane.uplink_stays_served`) for as long as its device stays and every start lists it, whatever becomes of the
starts and of the other devices.

A start is taken apart once, by what it keeps (`BringUp.prog_keeps`), and a link by what attaching may do to it
(`keptByAttach_runs`).
-/

namespace Beep

open Crash

/-! ## Links across a start -/

/-- The direction a classifier is attached in. -/
def HookName.attachType : HookName → TcAttachType
  | .uplinkIngress | .geneveIngress => .ingress
  | .uplinkEgressReturn => .egress

namespace Dataplane

/-- The classifier runs on the device, by the link pinned for the interface. -/
def Runs (w : Dataplane) (name : HookName) (iface : Iface) (device : Device) (loads : Nat → Prop) : Prop :=
  ∃ link, w.linkPins (linkPinPath name iface) = some link ∧ link.device = some device.ifindex ∧
    link.attachType = name.attachType ∧ link.classifier.name = name ∧ loads link.classifier.load

end Dataplane

section
variable {c : AttachCourse} {classifier : Classifier} {attachType : TcAttachType} {iface iface' : Iface}
  {name : HookName} {device : Device} {loads : Nat → Prop} {P P' : Dataplane → Prop}

/-- What says nothing of links is kept by whatever is done to them. -/
theorem KeptByAttach.of_frame (hstable : c.Stable P) (h : ∀ w linkPins held, P w → P { w with linkPins, held }) :
    KeptByAttach c classifier attachType iface P where
  stable := hstable
  swap w _ hw _ _ := h w _ w.held hw
  unpin w hw _ := h w _ w.held hw
  attach w _ hw _ _ := h w w.linkPins _ hw
  pin w hw _ _ := h w _ none hw

/-- Two kept facts are kept together. -/
theorem KeptByAttach.and (h : KeptByAttach c classifier attachType iface P)
    (h' : KeptByAttach c classifier attachType iface P') :
    KeptByAttach c classifier attachType iface fun w => P w ∧ P' w where
  stable := h.stable.and h'.stable
  swap w link hw hpin hdevice := ⟨h.swap w link hw.1 hpin hdevice, h'.swap w link hw.2 hpin hdevice⟩
  unpin w hw hsevered := ⟨h.unpin w hw.1 hsevered, h'.unpin w hw.2 hsevered⟩
  attach w device hw hpin hdevice := ⟨h.attach w device hw.1 hpin hdevice, h'.attach w device hw.2 hpin hdevice⟩
  pin w hw hpin hheld := ⟨h.pin w hw.1 hpin hheld, h'.pin w hw.2 hpin hheld⟩

/-- A device that stays keeps its running link. -/
theorem stable_runs (hspares : c.Spares iface) :
    c.Stable fun w => w.Has iface device ∧ w.Runs name iface device loads where
  occur := by
    rintro n e he w ⟨hhas, link, hlink, hdevice, hrest⟩
    obtain ⟨hhas', hlinks⟩ := Dataplane.occur_spares hhas (hspares n e he)
    exact ⟨hhas', link, hlinks _ _ hlink hdevice, hdevice, hrest⟩
  counted _ _ hw := ⟨⟨hw.1.distinct, hw.1.lookup⟩, hw.2⟩

/-- A running link is at most given the classifier that is being attached. -/
theorem keptByAttach_runs (hspares : c.Spares iface) (hloads : loads classifier.load) :
    KeptByAttach c classifier attachType iface' fun w => w.Has iface device ∧ w.Runs name iface device loads where
  stable := stable_runs hspares
  swap := by
    rintro w pinned ⟨hhas, link, hlink, hdevice, htype, hname, hload⟩ hpin -
    refine ⟨⟨hhas.distinct, hhas.lookup⟩, ?_⟩
    by_cases hpath : linkPinPath name iface = linkPinPath classifier.name iface'
    · -- its own pin: the link stays, with the classifier being attached
      obtain ⟨rfl, -⟩ := linkPinPath_inj hpath
      rw [hpath, hpin] at hlink
      cases hlink
      refine ⟨{ pinned with classifier }, ?_, hdevice, htype, rfl, hloads⟩
      show Function.update _ _ _ _ = _
      rw [hpath, Function.update_self]
    · refine ⟨link, ?_, hdevice, htype, hname, hload⟩
      exact (Function.update_of_ne hpath ..).trans hlink
  unpin := by
    rintro w ⟨hhas, link, hlink, hdevice, hrest⟩ ⟨severed, hsevered, hnone⟩
    refine ⟨⟨hhas.distinct, hhas.lookup⟩, link, ?_, hdevice, hrest⟩
    -- only a severed link is unpinned, and this one has its device
    have hpath : linkPinPath name iface ≠ linkPinPath classifier.name iface' := by
      intro hpath
      rw [hpath, hsevered] at hlink
      cases hlink
      rw [hnone] at hdevice
      cases hdevice
    exact (Function.update_of_ne hpath ..).trans hlink
  attach _ _ hw _ _ := ⟨⟨hw.1.distinct, hw.1.lookup⟩, hw.2⟩
  pin := by
    -- a new link is pinned on a free path, and this one's is taken
    rintro w ⟨hhas, link, hlink, hrest⟩ hnone -
    refine ⟨⟨hhas.distinct, hhas.lookup⟩, link, ?_, hrest⟩
    have hpath : linkPinPath name iface ≠ linkPinPath classifier.name iface' := by
      intro hpath
      rw [hpath, hnone] at hlink
      cases hlink
    exact (Function.update_of_ne hpath ..).trans hlink

end

namespace BringUp

variable {s : BringUp} {P : Dataplane → Prop}

/-- The names under which a start attaches, and in which direction. -/
theorem attachType_of_mem_hooks {name : HookName} {ifaces : List Iface} {attachType : TcAttachType}
    (h : (name, ifaces, attachType) ∈ s.hooks) : attachType = name.attachType := by
  simp only [hooks, List.mem_cons, Prod.mk.injEq, List.not_mem_nil, or_false] at h
  rcases h with ⟨rfl, -, rfl⟩ | ⟨rfl, -, rfl⟩ | ⟨rfl, -, rfl⟩ <;> rfl

/-- **What a start keeps.** -/
theorem prog_keeps (hstable : s.course.Stable P) (hconfig : ∀ w config, P w → P { w with config })
    (hrows : Triple P (s.course.populateUplinkConfig s.uplinkIfaces) (fun _ => P) P)
    (hattach : ∀ name iface, KeptByAttach s.course ⟨name, s.load⟩ name.attachType iface P)
    (hprogs : ∀ w progPins, P w → P { w with progPins }) : Triple P s.prog (fun _ => P) P := by
  unfold prog
  refine Triple.bind (populateConfig_keeps hstable hconfig _ _) fun _ => Triple.bind hrows fun _ => ?_
  refine Triple.forEach (I := fun _ => P) ?_
  rintro ⟨name, ifaces, attachType⟩ rest hrest
  obtain rfl := attachType_of_mem_hooks (hrest.subset List.mem_cons_self)
  exact attachAndPin_keeps (fun iface _ => hattach name iface) hstable hprogs

/-- What is kept by a start holds wherever it is stopped. -/
theorem during_of_keeps (h : Triple P s.prog (fun _ => P) P) {w : Dataplane} (hw : P { w with done := 0 }) :
    P (s.during w) := by
  unfold during
  cases s.stop with
  -- stopped: the invariant of every operation
  | some n => exact h.stopped hw hw (fun _ _ hw => hw) n
  -- run to its end, with or without an error
  | none =>
    show P (s.prog.run _).final
    cases hres : (s.prog.run { w with done := 0 }).result with
    | ok a => exact h.ends _ hw a hres
    | error e => exact h.fails _ hw e hres

end BringUp

/-! ## An uplink stays served -/

namespace Dataplane

/-- The uplink has its row, and a link for each direction. -/
structure Serves (w : Dataplane) (iface : Iface) (device : Device) (loads : Nat → Prop) : Prop where
  has : w.Has iface device
  row : w.RowOf device
  ingress : w.Runs .uplinkIngress iface device loads
  egress : w.Runs .uplinkEgressReturn iface device loads

/-- Row and links one by one, each with the device that has them. -/
theorem serves_iff {w : Dataplane} {iface : Iface} {device : Device} {loads : Nat → Prop} :
    w.Serves iface device loads ↔ (w.Has iface device ∧ w.RowOf device) ∧
      (w.Has iface device ∧ w.Runs .uplinkIngress iface device loads) ∧
      (w.Has iface device ∧ w.Runs .uplinkEgressReturn iface device loads) :=
  ⟨fun h => ⟨⟨h.has, h.row⟩, ⟨h.has, h.ingress⟩, h.has, h.egress⟩, fun h => ⟨h.1.1, h.1.2, h.2.1.2, h.2.2.2⟩⟩

end Dataplane

/-- The event leaves an uplink with its device, and lists it if it is a start. -/
def AttachEvent.Keeps (iface : Iface) : AttachEvent → Prop
  | .device e => ¬ e.Takes iface
  | .start s => iface ∈ s.uplinkIfaces ∧ s.course.Spares iface

section
variable {s : BringUp} {iface : Iface} {device : Device} {loads : Nat → Prop}

/-- A start leaves a served uplink served, wherever it is stopped. -/
theorem BringUp.prog_serves (hmem : iface ∈ s.uplinkIfaces) (hspares : s.course.Spares iface) (hloads : loads s.load) :
    Triple (Dataplane.Serves · iface device loads) s.prog (fun _ w => w.Serves iface device loads)
      (Dataplane.Serves · iface device loads) := by
  simp only [Dataplane.serves_iff]
  have hrow : s.course.Stable fun w => w.Has iface device ∧ w.RowOf device := hspares.has.and stable_rowOf
  refine prog_keeps (hrow.and ((stable_runs hspares).and (stable_runs hspares))) ?_ ?_ ?_ ?_
  · rintro w config ⟨⟨hhas, hrow⟩, ⟨-, hin⟩, -, hout⟩
    have hhas' : ({ w with config } : Dataplane).Has iface device := ⟨hhas.distinct, hhas.lookup⟩
    exact ⟨⟨hhas', hrow⟩, ⟨hhas', hin⟩, hhas', hout⟩
  · -- the rows leave the links alone, and attaching leaves the rows alone
    have hlinks : ∀ name, Triple (fun w => w.Has iface device ∧ w.Runs name iface device loads)
        (s.course.populateUplinkConfig s.uplinkIfaces) (fun _ w => w.Has iface device ∧ w.Runs name iface device loads)
        fun w => w.Has iface device ∧ w.Runs name iface device loads := by
      refine fun name => populateUplinkConfig_keeps (stable_runs hspares) (fun w rows hw => ?_) _
      exact ⟨⟨hw.1.distinct, hw.1.lookup⟩, hw.2⟩
    exact (populateUplinkConfig_row hspares hmem).and ((hlinks .uplinkIngress).and (hlinks .uplinkEgressReturn))
  · intro name iface'
    refine KeptByAttach.and (.of_frame hrow fun w _ _ hw => ⟨⟨hw.1.distinct, hw.1.lookup⟩, hw.2⟩) ?_
    exact (keptByAttach_runs hspares hloads).and (keptByAttach_runs hspares hloads)
  · rintro w progPins ⟨⟨hhas, hrow⟩, ⟨-, hin⟩, -, hout⟩
    have hhas' : ({ w with progPins } : Dataplane).Has iface device := ⟨hhas.distinct, hhas.lookup⟩
    exact ⟨⟨hhas', hrow⟩, ⟨hhas', hin⟩, hhas', hout⟩

namespace Dataplane

/-- The count of operations is no part of it. -/
theorem Serves.counted {w : Dataplane} (h : w.Serves iface device loads) (n : Nat) :
    { w with done := n }.Serves iface device loads :=
  ⟨⟨h.has.distinct, h.has.lookup⟩, h.row, h.ingress, h.egress⟩

/-- Nor is the link that a start holds. -/
theorem Serves.exit {w : Dataplane} (h : w.Serves iface device loads) : w.exit.Serves iface device loads :=
  ⟨⟨h.has.distinct, h.has.lookup⟩, h.row, h.ingress, h.egress⟩

/-- A start that lists the uplink, or an event that leaves it its device. -/
theorem Serves.step {w : Dataplane} (h : w.Serves iface device fun _ => True) {e : AttachEvent} (he : e.Keeps iface) :
    (w.step e).Serves iface device fun _ => True := by
  cases e with
  | device e =>
    obtain ⟨hhas, hlinks⟩ := occur_spares h.has he
    refine ⟨hhas, ?_, ?_, ?_⟩
    · obtain ⟨l2Hlen, hlen, hrow⟩ := h.row
      exact ⟨l2Hlen, hlen, (congrArg (·.lookup device.ifindex) (w.occur_rows e).1).trans hrow⟩
    · obtain ⟨link, hlink, hdevice, hrest⟩ := h.ingress
      exact ⟨link, hlinks _ _ hlink hdevice, hdevice, hrest⟩
    · obtain ⟨link, hlink, hdevice, hrest⟩ := h.egress
      exact ⟨link, hlinks _ _ hlink hdevice, hdevice, hrest⟩
  | start s => exact (BringUp.during_of_keeps (s.prog_serves he.1 he.2 trivial) (h.counted 0)).exit

/-- **An uplink stays served**: as long as its device keeps its name and every start lists it, no start and no event on
    another device takes away its row or one of its links. -/
theorem uplink_stays_served {w : Dataplane} {events : List AttachEvent} (hserves : w.Serves iface device fun _ => True)
    (hevents : ∀ e ∈ events, e.Keeps iface) : (w.run events).Serves iface device fun _ => True := by
  induction events generalizing w with
  | nil => exact hserves
  | cons e events ih =>
    exact ih (hserves.step (hevents e List.mem_cons_self)) fun e' he' => hevents e' (List.mem_cons_of_mem e he')

end Dataplane

end

/-- A node without devices. -/
def bareNode : Dataplane where
  devices := ∅
  linkPins := fun _ => none
  progPins := fun _ => none
  held := none
  config := ⟨0, 0, 0, 0⟩
  uplinkConfig := ∅
  done := 0

/-- A node with an Ethernet uplink, a WireGuard uplink and the geneve device. -/
def wiredNode : Dataplane :=
  ((bareNode.occur (.add ['e'] ⟨2, arphrdEther⟩)).occur (.add ['w'] ⟨3, 0xFFFE⟩)).occur (.add ['g'] ⟨4, arphrdEther⟩)

/-- A start with both uplinks. -/
def wiredStart (load : Nat) (before : Nat → List DeviceEvent) (stop : Option Nat) : BringUp where
  uplinkIfaces := [['e'], ['w']]
  geneveIface := ['g']
  flowHashSeed := 7
  load
  course := ⟨before, fun _ => none⟩
  stop

/-- Three devices under three names, each added by the kernel. -/
theorem distinct_wiredNode : wiredNode.Distinct := by
  have hbare : bareNode.Distinct := fun _ _ _ _ h => nomatch h
  exact ((hbare.occur _).occur _).occur _

/-- The WireGuard device goes while the second start is running, and the start is stopped; the Ethernet uplink is served
    throughout. -/
theorem uplink_stays_served_wired :
    ((wiredNode.run [.start (wiredStart 0 (fun _ => []) none)]).run
      [.start (wiredStart 1 (fun n => if n = 4 then [.delete ['w']] else []) (some 13)), .device (.delete ['g'])]).Serves
      ['e'] ⟨2, arphrdEther⟩ fun _ => True := by
  refine Dataplane.uplink_stays_served ⟨⟨distinct_wiredNode, rfl⟩, ⟨14, rfl, rfl⟩, ?_, ?_⟩ ?_
  · exact ⟨_, rfl, rfl, rfl, rfl, trivial⟩
  · exact ⟨_, rfl, rfl, rfl, rfl, trivial⟩
  · intro e he
    simp only [List.mem_cons, List.not_mem_nil, or_false] at he
    rcases he with rfl | rfl
    · refine ⟨List.mem_cons_self, fun n e he => ?_⟩
      change e ∈ (if n = 4 then [DeviceEvent.delete ['w']] else []) at he
      split_ifs at he
      · rw [List.mem_singleton.mp he]
        decide
      · cases he
    · show ¬ DeviceEvent.Takes ['e'] (.delete ['g'])
      decide

end Beep
