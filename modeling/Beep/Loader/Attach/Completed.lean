import Beep.Ebpf.Effects
import Beep.Loader.Attach.OneLink

/-!
# `Loader.Attach.Completed` — a start that completes

When a start is through, each uplink it lists is served by the classifiers it loaded, the geneve device has the third, and
the rows are those of the listed uplinks. The links that earlier starts left on other devices stay, but the classifiers let
every packet of such a device pass (**`Dataplane.completed_start_serves`**).
-/

namespace Beep

open Crash

namespace Dataplane

/-- Whatever is pinned for the interface sits on its device, if anywhere. -/
structure Free (w : Dataplane) (name : HookName) (iface : Iface) (device : Device) : Prop where
  has : w.Has iface device
  pinned : ∀ link, w.linkPins (linkPinPath name iface) = some link →
    (∀ ifindex, link.device = some ifindex → ifindex = device.ifindex) ∧ link.attachType = name.attachType

/-- In its place, a link under this name sits on this device. -/
theorem Placed.free {w : Dataplane} (h : w.Placed) {iface : Iface} {device : Device} (hhas : w.Has iface device)
    (name : HookName) : w.Free name iface device where
  has := hhas
  pinned := by
    intro link hlink
    obtain ⟨iface', hpath, htype, hsits⟩ := h.pinned _ link hlink
    obtain ⟨rfl, rfl⟩ := linkPinPath_inj hpath
    refine ⟨fun ifindex hdevice => ?_, htype⟩
    obtain ⟨found, hlookup, rfl⟩ := hsits ifindex hdevice
    rw [Option.some_inj.mp (hlookup.symm.trans hhas.lookup)]

/-- The link that runs on the device is the one under this name. -/
theorem Runs.free {w : Dataplane} {name : HookName} {iface : Iface} {device : Device} {loads : Nat → Prop}
    (h : w.Has iface device ∧ w.Runs name iface device loads) : w.Free name iface device where
  has := h.1
  pinned := by
    intro link hlink
    obtain ⟨link', hlink', hdevice, htype, -, -⟩ := h.2
    rw [hlink'] at hlink
    cases hlink
    exact ⟨fun ifindex hifindex => (Option.some_inj.mp (hdevice.symm.trans hifindex)).symm, htype⟩

/-- The devices change nothing in a pinned link, but where it sits. -/
theorem occur_pinned {w : Dataplane} {e : DeviceEvent} {path : List Char} {link : TcxLink}
    (h : (w.occur e).linkPins path = some link) :
    ∃ link', w.linkPins path = some link' ∧ link.attachType = link'.attachType ∧
      (link.device = link'.device ∨ link.device = none) := by
  rcases w.occur_cases e with heq | ⟨_, _, -, -, -, heq⟩ | ⟨_, device, -, -, heq⟩ | ⟨_, _, _, -, -, -, heq⟩ <;>
    rw [heq] at h
  · exact ⟨link, h, rfl, Or.inl rfl⟩
  · exact ⟨link, h, rfl, Or.inl rfl⟩
  · obtain ⟨link', hlink', rfl⟩ := Option.map_eq_some_iff.mp h
    refine ⟨link', hlink', ?_⟩
    unfold TcxLink.without
    split_ifs
    · exact ⟨rfl, Or.inr rfl⟩
    · exact ⟨rfl, Or.inl rfl⟩
  · exact ⟨link, h, rfl, Or.inl rfl⟩

end Dataplane

section
variable {c : AttachCourse} {classifier : Classifier} {attachType : TcAttachType} {iface iface' : Iface}
  {name : HookName} {device : Device}

/-- A device that stays keeps the pin of its name for itself. -/
theorem stable_free (hspares : c.Spares iface) : c.Stable (Dataplane.Free · name iface device) where
  occur := by
    intro n e he w hw
    refine ⟨hspares.has.occur n e he w hw.has, fun link hlink => ?_⟩
    obtain ⟨link', hlink', htype, hdevice⟩ := Dataplane.occur_pinned hlink
    obtain ⟨hsits, htype'⟩ := hw.pinned link' hlink'
    refine ⟨fun ifindex hifindex => ?_, htype.trans htype'⟩
    -- a link keeps its device or loses it, and gains none
    rcases hdevice with hsame | hnone
    · exact hsits ifindex (hsame.symm.trans hifindex)
    · rw [hnone] at hifindex
      cases hifindex
  counted _ _ hw := ⟨⟨hw.has.distinct, hw.has.lookup⟩, hw.pinned⟩

/-- What is done for another interface or another classifier does not matter. -/
theorem keptByAttach_free (hspares : c.Spares iface)
    (hne : linkPinPath name iface ≠ linkPinPath classifier.name iface') :
    KeptByAttach c classifier attachType iface' (Dataplane.Free · name iface device) where
  stable := stable_free hspares
  swap _ _ hw _ _ := ⟨⟨hw.has.distinct, hw.has.lookup⟩,
    fun link hlink => hw.pinned link ((Function.update_of_ne hne ..).symm.trans hlink)⟩
  unpin _ hw _ := ⟨⟨hw.has.distinct, hw.has.lookup⟩,
    fun link hlink => hw.pinned link ((Function.update_of_ne hne ..).symm.trans hlink)⟩
  attach _ _ hw _ _ := ⟨⟨hw.has.distinct, hw.has.lookup⟩, hw.pinned⟩
  pin _ hw _ _ := ⟨⟨hw.has.distinct, hw.has.lookup⟩,
    fun link hlink => hw.pinned link ((Function.update_of_ne hne ..).symm.trans hlink)⟩

/-- What is pinned stays pinned, severed or not. -/
theorem stable_pinned {path : List Char} : c.Stable fun w => (w.linkPins path).isSome where
  occur := by
    intro _ e _ w hw
    rcases w.occur_cases e with heq | ⟨_, _, -, -, -, heq⟩ | ⟨_, device, -, -, heq⟩ | ⟨_, _, _, -, -, -, heq⟩ <;>
      rw [heq]
    · exact hw
    · exact hw
    · exact (Option.isSome_map ..).trans hw
    · exact hw
  counted _ _ hw := hw

/-- The link that is held for a device that stays is not severed. -/
theorem stable_holds (hspares : c.Spares iface) {link : TcxLink} (hdevice : link.device = some device.ifindex) :
    c.Stable fun w => w.Has iface device ∧ w.held = some (iface, link) where
  occur := by
    rintro n e he w ⟨hhas, hheld⟩
    have hhas' := hspares.has.occur n e he w hhas
    refine ⟨hhas', ?_⟩
    rcases w.occur_cases e with heq | ⟨_, _, -, -, -, heq⟩ | ⟨gone, deleted, rfl, hgone, heq⟩ |
      ⟨_, _, _, -, -, -, heq⟩ <;> rw [heq]
    · exact hheld
    · exact hheld
    · have hne : link.device ≠ some deleted.ifindex := by
        rw [hdevice]
        intro hindex
        refine hspares n _ he ?_
        exact (hhas.distinct _ _ _ _ hhas.lookup hgone (Option.some_inj.mp hindex)).symm
      show w.held.map _ = _
      rw [hheld]
      exact congrArg (fun l => some (iface, l)) (if_neg hne)
    · exact hheld
  counted _ _ hw := ⟨⟨hw.1.distinct, hw.1.lookup⟩, hw.2⟩

/-- Where no new link is wanted, the new classifier runs. -/
theorem reusePinned_attaches (hspares : c.Spares iface) :
    Triple (Dataplane.Free · classifier.name iface device) (c.reusePinned classifier iface)
      (fun fresh w => w.Has iface device ∧ if fresh then w.linkPins (linkPinPath classifier.name iface) = none
        else w.Runs classifier.name iface device (· = classifier.load)) fun _ => True := by
  let path := linkPinPath classifier.name iface
  unfold AttachCourse.reusePinned
  refine Triple.bind (R := fun r w => w.Free classifier.name iface device ∧
    (∀ link, r = .ok link → (w.linkPins path).isSome) ∧
    ∀ e, r = .error e → isNotFound e = true → w.linkPins path = none) ?_ ?_
  · refine kernelOp_triple (stable_free hspares) (fun e w hw => ⟨hw, nofun, ?_⟩) (fun w hw => ⟨hw, ?_⟩)
      fun _ _ _ => trivial
    · intro e' he' hnotFound
      cases he'
      rw [e.2.2] at hnotFound
      cases hnotFound
    · show (∀ link, _ = _ → (w.linkPins path).isSome = true) ∧ ∀ e, _ = _ → _ → w.linkPins path = none
      cases w.linkPins path with
      | none => exact ⟨nofun, fun _ _ _ => rfl⟩
      | some found => exact ⟨fun _ _ => rfl, nofun⟩
  rintro (e | link)
  · -- no pin: a new link is wanted; any other error ends the start
    by_cases hnotFound : isNotFound e = true
    · simp only [hnotFound, if_true]
      exact Triple.pure fun w hw => ⟨hw.1.has, hw.2.2 e rfl hnotFound⟩
    · simp only [hnotFound]
      exact Triple.fail fun _ _ => trivial
  · refine Triple.bind (R := fun r w => w.Has iface device ∧
      (r = .ok () → w.Runs classifier.name iface device (· = classifier.load)) ∧
      ∀ e, r = .error e → isSeveredLink e = true → w.SeveredAt path) ?_ ?_
    · refine Triple.pre (P := fun w => w.Free classifier.name iface device ∧ (w.linkPins path).isSome) ?_
        fun w hw => ⟨hw.1, hw.2.1 link rfl⟩
      refine kernelOp_triple ((stable_free hspares).and stable_pinned) ?_ ?_ fun _ _ _ => trivial
      · refine fun e w hw => ⟨hw.1.has, nofun, fun e' he' hsevered => ?_⟩
        cases he'
        rw [e.2.1] at hsevered
        cases hsevered
      · rintro w ⟨hfree, hsome⟩
        obtain ⟨pinned, hpin⟩ := Option.isSome_iff_exists.mp hsome
        obtain ⟨hsits, htype⟩ := hfree.pinned pinned hpin
        simp only [show w.linkPins (linkPinPath classifier.name iface) = some pinned from hpin]
        -- a severed link refuses the classifier, one with a device takes it
        cases hdevice : pinned.device with
        | none =>
          simp only [Option.isNone_none, if_true]
          exact ⟨hfree.has, nofun, fun e _ _ => ⟨pinned, hpin, hdevice⟩⟩
        | some ifindex =>
          simp only [Option.isNone_some, Bool.false_eq_true, if_false]
          have hhas : ∀ linkPins, ({ w with linkPins } : Dataplane).Has iface device := fun _ =>
            ⟨hfree.has.distinct, hfree.has.lookup⟩
          refine ⟨hhas _, fun _ => ⟨_, Function.update_self .., ?_, htype, rfl, rfl⟩, nofun⟩
          exact congrArg some (hsits ifindex hdevice)
    rintro (e | -)
    · -- the severed link is unpinned first
      by_cases hsevered : isSeveredLink e = true
      · simp only [hsevered, if_true]
        refine (op_bind (R := fun _ w => w.Has iface device ∧ w.linkPins path = none)
          (hspares.has.and stable_severedAt) (fun _ _ => trivial) (fun _ _ _ _ => trivial) ?_ (fun _ _ _ => trivial)
          fun _ => Triple.pure fun w hw => hw).pre fun w hw => ⟨hw.1, hw.2.2 e rfl hsevered⟩
        rintro w ⟨hhas, pinned, hpin, -⟩ - -
        simp only [show w.linkPins (linkPinPath classifier.name iface) = some pinned from hpin]
        exact ⟨⟨hhas.distinct, hhas.lookup⟩, Function.update_self ..⟩
      · simp only [hsevered]
        exact Triple.fail fun _ _ => trivial
    · exact Triple.pure fun w hw => ⟨hw.1, hw.2.1 rfl⟩

/-- A new link runs the new classifier. -/
theorem attachFresh_attaches (hspares : c.Spares iface) :
    Triple (fun w => w.Has iface device ∧ w.linkPins (linkPinPath classifier.name iface) = none)
      (c.attachFresh classifier classifier.name.attachType iface)
      (fun _ w => w.Has iface device ∧ w.Runs classifier.name iface device (· = classifier.load)) fun _ => True := by
  have hbare : c.Stable fun w => w.Has iface device ∧ w.linkPins (linkPinPath classifier.name iface) = none :=
    hspares.has.and stable_unpinned
  unfold AttachCourse.attachFresh
  refine op_bind (R := fun _ w => (w.Has iface device ∧ w.linkPins (linkPinPath classifier.name iface) = none) ∧
    w.Has iface device ∧ w.held = some (iface, ⟨classifier, classifier.name.attachType, some device.ifindex⟩)) hbare
    (fun _ _ => trivial) (fun _ _ _ _ => trivial) ?_ (fun _ _ _ => trivial) fun _ => ?_
  · intro w hw _ _
    simp only [hw.1.lookup]
    exact ⟨⟨⟨hw.1.distinct, hw.1.lookup⟩, hw.2⟩, ⟨hw.1.distinct, hw.1.lookup⟩, trivial⟩
  · refine op_triple (hbare.and (stable_holds hspares rfl)) (fun _ _ => trivial) (fun _ _ _ _ => trivial) ?_
      fun _ _ _ => trivial
    rintro w ⟨⟨hhas, hnone⟩, -, hheld⟩ - -
    simp only [hnone, hheld, Option.map_some]
    exact ⟨⟨hhas.distinct, hhas.lookup⟩, _, Function.update_self .., rfl, rfl, rfl, rfl⟩

/-- **An interface is attached**: when `attach_and_pin` is through with it, the new classifier runs on its device. -/
theorem attachIface_attaches (hspares : c.Spares iface) :
    Triple (Dataplane.Free · classifier.name iface device)
      (c.attachIface classifier classifier.name.attachType iface)
      (fun _ w => w.Has iface device ∧ w.Runs classifier.name iface device (· = classifier.load)) fun _ => True := by
  unfold AttachCourse.attachIface
  refine Triple.bind (reusePinned_attaches hspares) fun fresh => ?_
  cases fresh with
  | true => exact attachFresh_attaches hspares
  | false => exact Triple.pure fun w hw => hw

/-- A triple whose failures do not matter. -/
theorem KeptByAttach.attachIface {P : Dataplane → Prop} (h : KeptByAttach c classifier attachType iface P) :
    Triple P (c.attachIface classifier attachType iface) (fun _ => P) fun _ => True :=
  (attachIface_keeps h).weaken (fun _ hw => hw) (fun _ _ hw => hw) fun _ _ => trivial

/-- `attach_and_pin`, for one of its interfaces. -/
theorem attachAndPin_attaches {ifaces : List Iface} (hspares : c.Spares iface) (hmem : iface ∈ ifaces) :
    Triple (Dataplane.Free · classifier.name iface device)
      (c.attachAndPin classifier ifaces classifier.name.attachType)
      (fun _ w => w.Has iface device ∧ w.Runs classifier.name iface device (· = classifier.load)) fun _ => True := by
  unfold AttachCourse.attachAndPin AttachCourse.pinProgram
  refine op_bind (R := fun _ w => w.Free classifier.name iface device) (stable_free hspares) (fun _ _ => trivial)
    (fun _ _ _ _ => trivial) (fun _ hw _ _ => hw) (fun _ _ _ => trivial) fun _ => ?_
  refine Triple.bind (R := fun _ w => w.Has iface device ∧ w.Runs classifier.name iface device (· = classifier.load))
    ?_ fun _ => ?_
  · -- its turn comes, and no other turn undoes it
    refine Triple.forEach_reaches hmem (fun _ => Dataplane.Runs.free) (attachIface_attaches hspares) ?_
    intro other _ hne
    have hpath : linkPinPath classifier.name iface ≠ linkPinPath classifier.name other :=
      fun hpath => hne (linkPinPath_inj hpath).2.symm
    have hruns : KeptByAttach c classifier classifier.name.attachType other fun w => w.Has iface device ∧
        w.Runs classifier.name iface device (· = classifier.load) := keptByAttach_runs hspares rfl
    exact ⟨(keptByAttach_free hspares hpath).attachIface, hruns.attachIface⟩
  · refine Triple.bind (R := fun _ w => w.Has iface device ∧ w.Runs classifier.name iface device
      (· = classifier.load)) (kernelOp_triple (stable_runs hspares) (fun _ _ hw => hw) ?_ fun _ _ _ => trivial) fun _ => ?_
    · exact fun w hw => ⟨⟨hw.1.distinct, hw.1.lookup⟩, hw.2⟩
    · refine op_triple (stable_runs hspares) (fun _ _ => trivial) (fun _ _ _ _ => trivial) ?_ fun _ _ _ => trivial
      intro w hw _ _
      cases w.progPins (progPinPath classifier.name) with
      | some _ => exact hw
      | none => exact ⟨⟨hw.1.distinct, hw.1.lookup⟩, hw.2⟩

end

/-! ## The parts of a start, one after the other -/

namespace BringUp

variable {s : BringUp} {device : Iface → Device}

/-- The interfaces a start is given. -/
def ifaces (s : BringUp) : List Iface := s.geneveIface :: s.uplinkIfaces

/-- A hook is attached to interfaces the start was given. -/
theorem mem_ifaces_of_hooks {name : HookName} {ifaces : List Iface} {attachType : TcAttachType} {iface : Iface}
    (h : (name, ifaces, attachType) ∈ s.hooks) (hmem : iface ∈ ifaces) : iface ∈ s.ifaces := by
  simp only [hooks, List.mem_cons, Prod.mk.injEq, List.not_mem_nil, or_false] at h
  rcases h with ⟨-, rfl, -⟩ | ⟨-, rfl, -⟩ | ⟨-, rfl, -⟩
  · exact List.mem_cons_of_mem _ hmem
  · rw [List.mem_singleton.mp hmem]
    exact List.mem_cons_self
  · exact List.mem_cons_of_mem _ hmem

/-- Each classifier is attached once. -/
theorem hooks_inj {name : HookName} {ifaces ifaces' : List Iface} {attachType attachType' : TcAttachType}
    (h : (name, ifaces, attachType) ∈ s.hooks) (h' : (name, ifaces', attachType') ∈ s.hooks) :
    (name, ifaces, attachType) = (name, ifaces', attachType') := by
  simp only [hooks, List.mem_cons, Prod.mk.injEq, List.not_mem_nil, or_false] at h h'
  rcases h with ⟨rfl, rfl, rfl⟩ | ⟨rfl, rfl, rfl⟩ | ⟨rfl, rfl, rfl⟩ <;> simp_all

/-- A start attaches each of its classifiers to each of its interfaces. -/
theorem prog_attaches {name : HookName} {ifaces : List Iface} {iface : Iface}
    (hhook : (name, ifaces, name.attachType) ∈ s.hooks) (hmem : iface ∈ ifaces) (hspares : s.course.Spares iface) :
    Triple (Dataplane.Free · name iface (device iface)) s.prog
      (fun _ w => w.Has iface (device iface) ∧ w.Runs name iface (device iface) (· = s.load)) fun _ => True := by
  let Free : Dataplane → Prop := fun w => w.Free name iface (device iface)
  let Ran : Dataplane → Prop := fun w => w.Has iface (device iface) ∧ w.Runs name iface (device iface) (· = s.load)
  have hstable : s.course.Stable Free := stable_free hspares
  have hconfig : Triple Free (s.course.populateConfig s.geneveIface s.flowHashSeed) (fun _ => Free) Free :=
    populateConfig_keeps hstable (fun _ _ hw => ⟨⟨hw.has.distinct, hw.has.lookup⟩, hw.pinned⟩) _ _
  have hrows : Triple Free (s.course.populateUplinkConfig s.uplinkIfaces) (fun _ => Free) Free :=
    populateUplinkConfig_keeps hstable (fun _ _ hw => ⟨⟨hw.has.distinct, hw.has.lookup⟩, hw.pinned⟩) _
  unfold prog
  refine Triple.bind (hconfig.weaken (fun _ hw => hw) (fun _ _ hw => hw) fun _ _ => trivial) fun _ => ?_
  refine Triple.bind (hrows.weaken (fun _ hw => hw) (fun _ _ hw => hw) fun _ _ => trivial) fun _ => ?_
  -- the hook's turn comes, before it the pin is free and after it the classifier runs
  refine Triple.forEach_reaches (A := Free) (B := Ran) hhook (fun _ => Dataplane.Runs.free)
    (@attachAndPin_attaches s.course ⟨name, s.load⟩ iface (device iface) ifaces hspares hmem) ?_
  rintro ⟨other, ifaces', attachType⟩ hother hne
  obtain rfl := attachType_of_mem_hooks hother
  have hname : other ≠ name := by
    rintro rfl
    exact hne (hooks_inj hother hhook)
  have hpath : ∀ iface', linkPinPath name iface ≠ linkPinPath other iface' :=
    fun iface' hpath => hname (linkPinPath_inj hpath).1.symm
  have hfree : Triple Free (s.course.attachAndPin ⟨other, s.load⟩ ifaces' other.attachType) (fun _ => Free) Free :=
    attachAndPin_keeps (fun iface' _ => keptByAttach_free hspares (hpath iface')) hstable
      fun _ _ hw => ⟨⟨hw.has.distinct, hw.has.lookup⟩, hw.pinned⟩
  have hran : Triple Ran (s.course.attachAndPin ⟨other, s.load⟩ ifaces' other.attachType) (fun _ => Ran) Ran :=
    attachAndPin_keeps (fun _ _ => keptByAttach_runs hspares rfl) (stable_runs hspares)
      fun _ _ hw => ⟨⟨hw.1.distinct, hw.1.lookup⟩, hw.2⟩
  exact ⟨hfree.weaken (fun _ hw => hw) (fun _ _ hw => hw) fun _ _ => trivial,
    hran.weaken (fun _ hw => hw) (fun _ _ hw => hw) fun _ _ => trivial⟩

/-- Attaching changes links and nothing else. -/
theorem hooks_keep {P : Dataplane → Prop} (hstable : s.course.Stable P)
    (hlinks : ∀ w linkPins held, P w → P { w with linkPins, held })
    (hprogs : ∀ w progPins, P w → P { w with progPins }) :
    Triple P (Prog.forEach (fun (name, ifaces, attachType) =>
      s.course.attachAndPin ⟨name, s.load⟩ ifaces attachType) s.hooks) (fun _ => P) fun _ => True := by
  refine Triple.forEach (I := fun _ => P) ?_
  rintro ⟨name, ifaces, attachType⟩ rest -
  have hkeeps : Triple P (s.course.attachAndPin ⟨name, s.load⟩ ifaces attachType) (fun _ => P) P :=
    attachAndPin_keeps (fun _ _ => KeptByAttach.of_frame hstable hlinks) hstable hprogs
  exact hkeeps.weaken (fun _ hw => hw) (fun _ _ hw => hw) fun _ _ => trivial

/-- A start leaves the rows of its uplinks. -/
theorem prog_rows (hspares : ∀ iface ∈ s.ifaces, s.course.Spares iface) :
    Triple (Dataplane.Devices · s.ifaces device) s.prog
      (fun _ w => w.Devices s.ifaces device ∧ w.RowsOf s.uplinkIfaces device) fun _ => True := by
  have hstable : s.course.Stable (Dataplane.Devices · s.ifaces device) := stable_devices hspares
  unfold prog
  refine Triple.bind ((populateConfig_keeps hstable (fun _ _ hw => ⟨hw.distinct, hw.lookup⟩) _ _).weaken
    (fun _ hw => hw) (fun _ _ hw => hw) fun _ _ => trivial) fun _ => ?_
  refine Triple.bind ((populateUplinkConfig_exact hspares (List.subset_cons_self _ _)).weaken (fun _ hw => hw)
    (fun _ _ hw => hw) fun _ _ => trivial) fun _ => ?_
  -- the attachments follow, and write no row
  refine hooks_keep (hstable.and ⟨fun n e he w hw => ⟨fun iface hmem => ?_, ?_⟩, fun _ _ hw => ⟨hw.present, hw.only⟩⟩)
    ?_ ?_
  · exact stable_rowOf.occur n e he w (hw.present iface hmem)
  · rw [(w.occur_rows e).1]
    exact hw.only
  · exact fun _ _ _ hw => ⟨⟨hw.1.distinct, hw.1.lookup⟩, hw.2.present, hw.2.only⟩
  · exact fun _ _ hw => ⟨⟨hw.1.distinct, hw.1.lookup⟩, hw.2.present, hw.2.only⟩

/-- A start writes the row of `CONFIG`, with the parities it finds there. -/
theorem prog_config {config : Config} (hspares : s.course.Spares s.geneveIface) :
    Triple (fun w => w.Has s.geneveIface (device s.geneveIface) ∧ w.config = config) s.prog
      (fun _ w => w.config = configKeepingParity config (device s.geneveIface).ifindex s.flowHashSeed)
      fun _ => True := by
  have hstable : ∀ config : Config, s.course.Stable (·.config = config) := fun config =>
    ⟨fun _ e _ w hw => (w.occur_rows e).2.trans hw, fun _ _ hw => hw⟩
  have hpopulate : Triple (fun w => w.Has s.geneveIface (device s.geneveIface) ∧ w.config = config)
      (s.course.populateConfig s.geneveIface s.flowHashSeed)
      (fun _ w => w.config = configKeepingParity config (device s.geneveIface).ifindex s.flowHashSeed)
      fun _ => True := by
    unfold AttachCourse.populateConfig AttachCourse.ifaceIndex
    refine Triple.bind (R := fun ifindex w => ifindex = (device s.geneveIface).ifindex ∧ w.config = config)
      (sysfs_triple (hspares.has.and (hstable config)) (fun _ _ => trivial) ?_ fun _ _ _ => trivial) fun ifindex => ?_
    · intro w hw found hlookup
      rw [Option.some_inj.mp (hlookup.symm.trans hw.1.lookup)]
      exact ⟨rfl, hw.2⟩
    refine Triple.of_fact fun hindex => ?_
    subst hindex
    refine op_bind (R := fun existing w => existing = config ∧ w.config = config) (hstable config) (fun _ _ => trivial)
      (fun _ _ _ _ => trivial) ?_ (fun _ _ _ => trivial) fun existing => Triple.of_fact fun hexisting => ?_
    · intro w hw existing hok
      cases hok
      exact ⟨hw, hw⟩
    · subst hexisting
      exact op_triple (hstable _) (fun _ _ => trivial) (fun _ _ _ _ => trivial) (fun _ _ _ _ => rfl)
        fun _ _ _ => trivial
  unfold prog
  refine Triple.bind hpopulate fun _ => Triple.bind (R := fun _ w => w.config =
    configKeepingParity config (device s.geneveIface).ifindex s.flowHashSeed) ?_ fun _ => ?_
  · exact (populateUplinkConfig_keeps (hstable _) (fun _ _ hw => hw) _).weaken (fun _ hw => hw) (fun _ _ hw => hw)
      fun _ _ => trivial
  · exact hooks_keep (hstable _) (fun _ _ _ hw => hw) fun _ _ hw => hw

end BringUp

/-! ## The start as a whole -/

namespace Dataplane

/-- What a start is for: its uplinks are served by its classifiers, the geneve device has the third of them and is the one
    in `CONFIG`, and no other device has a row. -/
structure BroughtUp (w : Dataplane) (s : BringUp) (device : Iface → Device) : Prop where
  uplinks : ∀ iface ∈ s.uplinkIfaces, w.Serves iface (device iface) (· = s.load)
  geneve : w.Runs .geneveIngress s.geneveIface (device s.geneveIface) (· = s.load)
  config : w.config.geneveIfindex = (device s.geneveIface).ifindex
  others : ∀ ifindex, (∀ iface ∈ s.uplinkIfaces, (device iface).ifindex ≠ ifindex) →
    w.uplinkConfig.lookup ifindex = none

/-- A start that completes, from links in their places: its parts, each with what it leaves. -/
theorem broughtUp_of_completes {w : Dataplane} {s : BringUp} {device : Iface → Device} (hplaced : w.Placed)
    (hdevices : w.Devices s.ifaces device) (hspares : ∀ iface ∈ s.ifaces, s.course.Spares iface)
    (hcompletes : s.Completes w) : (w.step (.start s)).BroughtUp s device := by
  obtain ⟨hstop, hok⟩ := hcompletes
  have hfinal : w.step (.start s) = (s.outcome w).final.exit := by
    show (s.during w).exit = _
    simp only [BringUp.during, hstop]
  have hdevices' : ({ w with done := 0 } : Dataplane).Devices s.ifaces device := ⟨hdevices.distinct, hdevices.lookup⟩
  have hplaced' : ({ w with done := 0 } : Dataplane).Placed := ⟨hplaced.distinct, hplaced.pinned, hplaced.held⟩
  have hruns : ∀ name ifaces iface, (name, ifaces, name.attachType) ∈ s.hooks → iface ∈ ifaces →
      (s.outcome w).final.Runs name iface (device iface) (· = s.load) := by
    intro name ifaces iface hhook hmem
    have hiface := BringUp.mem_ifaces_of_hooks hhook hmem
    exact ((BringUp.prog_attaches hhook hmem (hspares iface hiface)).ends _
      (hplaced'.free (hdevices'.has hiface) name) () hok).2
  obtain ⟨hthere, hrows⟩ := (BringUp.prog_rows hspares).ends _ hdevices' () hok
  have hgeneve := hdevices'.has List.mem_cons_self
  have hconfig := (BringUp.prog_config (hspares _ List.mem_cons_self)).ends _ ⟨hgeneve, rfl⟩ () hok
  rw [hfinal]
  refine ⟨fun iface hmem => ?_, ?_, ?_, fun ifindex hothers => ?_⟩
  · have hhas := hthere.has (List.mem_cons_of_mem s.geneveIface hmem)
    refine ⟨⟨hhas.distinct, hhas.lookup⟩, hrows.present iface hmem, ?_, ?_⟩
    · exact hruns .uplinkIngress s.uplinkIfaces iface List.mem_cons_self hmem
    · exact hruns .uplinkEgressReturn s.uplinkIfaces iface (List.mem_of_getElem? (i := 2) rfl) hmem
  · exact hruns .geneveIngress [s.geneveIface] s.geneveIface (List.mem_of_getElem? (i := 1) rfl) List.mem_cons_self
  · exact congrArg Config.geneveIfindex hconfig
  · refine Option.eq_none_iff_forall_ne_some.mpr fun uplink hlookup => ?_
    obtain ⟨iface, hmem, hindex⟩ := hrows.only ifindex uplink hlookup
    exact hothers iface hmem hindex

/-- A device without a row: every packet passes. On the way out it may lose the mark of a redirected return, which is no
    part of the packet. -/
theorem passes_of_no_row [Host] {n : Node} (h : Helpers) (skb : Skb) :
    (n.uplinkConfig.lookup skb.ingressIfindex = none → uplinkIngress n h skb = (n, skb, .ok)) ∧
    (n.uplinkConfig.lookup skb.ifindex = none →
      ∃ mark, uplinkEgressReturn n h skb = (n, { skb with mark }, .ok)) := by
  constructor
  · intro hrow
    simp only [uplinkIngress, tryUplinkIngress, ingressAdmit, hrow]
    rfl
  · intro hrow
    have hadmit : egressAdmit n skb = none := by
      refine Option.eq_none_iff_forall_ne_some.mpr fun p hp => ?_
      obtain ⟨-, uplink, fam, huplink, -⟩ := egressAdmit_eq_some.mp hp
      rw [hrow] at huplink
      cases huplink
    exact uplinkEgressReturn_pass hadmit

/-- **A start that completes**, after any run of starts and of devices that come and go and keep their names, and during
    which no device takes away one of its interfaces: its uplinks are served by the classifiers it loaded, and whatever
    links earlier starts left on other devices, the packets of those devices pass. -/
theorem completed_start_serves [Host] {w : Dataplane} {events : List AttachEvent} {s : BringUp} {device : Iface → Device}
    (hw : w.Untouched) (hevents : ∀ e ∈ events, e.NoRename)
    (hdevices : ∀ iface ∈ s.ifaces, (w.run events).devices.lookup iface = some (device iface))
    (hspares : ∀ iface ∈ s.ifaces, s.course.Spares iface) (hcompletes : s.Completes (w.run events)) :
    ((w.run events).step (.start s)).BroughtUp s device ∧
    ∀ (n : Node) (h : Helpers) (skb : Skb), n.uplinkConfig = ((w.run events).step (.start s)).uplinkConfig →
      ((∀ iface ∈ s.uplinkIfaces, (device iface).ifindex ≠ skb.ingressIfindex) →
        uplinkIngress n h skb = (n, skb, .ok)) ∧
      ((∀ iface ∈ s.uplinkIfaces, (device iface).ifindex ≠ skb.ifindex) →
        ∃ mark, uplinkEgressReturn n h skb = (n, { skb with mark }, .ok)) := by
  have hplaced := hw.placed.run hevents
  have hup := broughtUp_of_completes hplaced ⟨hplaced.distinct, hdevices⟩ hspares hcompletes
  refine ⟨hup, fun n h skb hrows => ?_⟩
  obtain ⟨hingress, hegress⟩ := passes_of_no_row (n := n) h skb
  rw [hrows] at hingress hegress
  exact ⟨fun hother => hingress (hup.others _ hother), fun hother => hegress (hup.others _ hother)⟩

end Dataplane

/-- The devices of `wiredNode`. -/
def wiredDevice (iface : Iface) : Device :=
  if iface = ['e'] then ⟨2, arphrdEther⟩ else if iface = ['w'] then ⟨3, 0xFFFE⟩ else ⟨4, arphrdEther⟩

local instance wiredHost : Host := littleHost

/-- The second start completes, after the first was stopped. -/
theorem completed_start_serves_wired :
    (((wiredNode.run [.start (wiredStart 0 (fun _ => []) (some 14))]).step
      (.start (wiredStart 1 (fun _ => []) none))).BroughtUp (wiredStart 1 (fun _ => []) none) wiredDevice) ∧
    ∀ (n : Node) (h : Helpers) (skb : Skb), n.uplinkConfig =
      ((wiredNode.run [.start (wiredStart 0 (fun _ => []) (some 14))]).step
        (.start (wiredStart 1 (fun _ => []) none))).uplinkConfig →
      ((∀ iface ∈ [['e'], ['w']], (wiredDevice iface).ifindex ≠ skb.ingressIfindex) →
        uplinkIngress n h skb = (n, skb, .ok)) ∧
      ((∀ iface ∈ [['e'], ['w']], (wiredDevice iface).ifindex ≠ skb.ifindex) →
        ∃ mark, uplinkEgressReturn n h skb = (n, { skb with mark }, .ok)) := by
  have hcalm : ∀ iface, (wiredStart 1 (fun _ => []) none).course.Spares iface := fun _ _ _ hnil => nomatch hnil
  refine Dataplane.completed_start_serves untouched_wiredNode ?_ ?_ (fun iface _ => hcalm iface) ⟨rfl, rfl⟩
  · intro e he
    rw [List.mem_singleton.mp he]
    exact fun _ _ hnil => nomatch hnil
  · intro iface hmem
    simp only [BringUp.ifaces, wiredStart, List.mem_cons, List.not_mem_nil, or_false] at hmem
    rcases hmem with rfl | rfl | rfl <;> rfl

end Beep
