import Beep.Loader.Attach.Serving

/-!
# `Loader.Attach.OneLink` — one link for a device

`attach_and_pin` looks for a link under the name of an interface, the kernel keeps it with a device. If no device was ever
renamed, the two agree (`Dataplane.Placed`): a link sits where the interface of its pin is, if anywhere. So **no device has
two links** of one classifier (`Dataplane.one_link_per_device`), at any point of a start, and no packet is handled twice.
-/

namespace Beep

open Crash

/-- The event leaves every device its name. -/
def DeviceEvent.NoRename : DeviceEvent → Prop
  | .rename .. => False
  | _ => True

/-- No device is renamed, before or during a start. -/
def AttachEvent.NoRename : AttachEvent → Prop
  | .device e => e.NoRename
  | .start s => ∀ n, ∀ e ∈ s.course.before n, e.NoRename

namespace Dataplane

/-- A link sits where its interface is, if anywhere. -/
def Sits (w : Dataplane) (iface : Iface) (link : TcxLink) : Prop :=
  link.attachType = link.classifier.name.attachType ∧
    ∀ ifindex, link.device = some ifindex → ∃ device, w.devices.lookup iface = some device ∧ device.ifindex = ifindex

/-- Every link is pinned under the interface it sits on, or will be. -/
structure Placed (w : Dataplane) : Prop where
  distinct : w.Distinct
  pinned : ∀ path link, w.linkPins path = some link →
    ∃ iface, path = linkPinPath link.classifier.name iface ∧ w.Sits iface link
  held : ∀ iface link, w.held = some (iface, link) →
    w.linkPins (linkPinPath link.classifier.name iface) = none ∧ w.Sits iface link

/-- A node on which no start has been. -/
structure Untouched (w : Dataplane) : Prop where
  distinct : w.Distinct
  unpinned : ∀ path, w.linkPins path = none
  unheld : w.held = none

/-- Without links there is none out of place. -/
theorem Untouched.placed {w : Dataplane} (h : w.Untouched) : w.Placed where
  distinct := h.distinct
  pinned path link hlink := by
    rw [h.unpinned] at hlink
    cases hlink
  held iface link hlink := by
    rw [h.unheld] at hlink
    cases hlink

/-- A link that loses a device with another index sits where it sat, and a severed one may sit anywhere. -/
theorem Sits.without {w : Dataplane} {iface : Iface} {link : TcxLink} {ifindex : UInt32} (h : w.Sits iface link)
    {w' : Dataplane} (hdevices : ∀ device, w.devices.lookup iface = some device → device.ifindex ≠ ifindex →
      w'.devices.lookup iface = some device) : w'.Sits iface (link.without ifindex) := by
  unfold TcxLink.without
  split_ifs with hdevice
  · exact ⟨h.1, fun i hi => nomatch hi⟩
  · refine ⟨h.1, fun i hi => ?_⟩
    obtain ⟨device, hlookup, rfl⟩ := h.2 i hi
    refine ⟨device, hdevices device hlookup ?_, rfl⟩
    rintro rfl
    exact hdevice hi

/-- Without renames the devices leave every link in its place. -/
theorem Placed.occur {w : Dataplane} (h : w.Placed) {e : DeviceEvent} (he : e.NoRename) : (w.occur e).Placed := by
  have hdistinct := h.distinct.occur e
  rcases w.occur_cases e with heq | ⟨new, device, -, hnew, -, heq⟩ | ⟨gone, device, -, hgone, heq⟩ |
    ⟨_, _, _, rfl, -⟩
  · rwa [heq]
  · -- a new device: what sits somewhere still does
    have hsits : ∀ iface link, w.Sits iface link →
        ({ w with devices := w.devices.insert new device } : Dataplane).Sits iface link := by
      rintro iface link ⟨htype, hsits⟩
      refine ⟨htype, fun i hi => ?_⟩
      obtain ⟨found, hlookup, hindex⟩ := hsits i hi
      refine ⟨found, ?_, hindex⟩
      have hne : iface ≠ new := by
        rintro rfl
        rw [hnew] at hlookup
        cases hlookup
      exact (Table.lookup_insert_ite ..).trans ((if_neg hne).trans hlookup)
    rw [heq] at hdistinct ⊢
    refine ⟨hdistinct, fun path link hlink => ?_, fun iface link hlink => ?_⟩
    · obtain ⟨iface, hpath, hlinkSits⟩ := h.pinned path link hlink
      exact ⟨iface, hpath, hsits _ _ hlinkSits⟩
    · exact ⟨(h.held iface link hlink).1, hsits _ _ (h.held iface link hlink).2⟩
  · -- a device is gone, and its links are severed
    have hkept : ∀ iface found, w.devices.lookup iface = some found → found.ifindex ≠ device.ifindex →
        (w.devices.erase gone).lookup iface = some found := by
      intro iface found hlookup hindex
      have hne : iface ≠ gone := by
        rintro rfl
        rw [hgone] at hlookup
        cases hlookup
        exact hindex rfl
      exact (Table.lookup_erase_ite ..).trans ((if_neg hne).trans hlookup)
    rw [heq] at hdistinct ⊢
    refine ⟨hdistinct, fun path link hlink => ?_, fun iface link hlink => ?_⟩
    · obtain ⟨link', hlink', rfl⟩ := Option.map_eq_some_iff.mp hlink
      obtain ⟨iface, hpath, hsits⟩ := h.pinned path link' hlink'
      rw [TcxLink.classifier_without]
      exact ⟨iface, hpath, hsits.without (hkept iface)⟩
    · obtain ⟨⟨iface', link'⟩, hlink', hpair⟩ := Option.map_eq_some_iff.mp hlink
      cases hpair
      obtain ⟨hnone, hsits⟩ := h.held iface link' hlink'
      rw [TcxLink.classifier_without]
      exact ⟨Option.map_eq_none_iff.mpr hnone, hsits.without (hkept iface)⟩
  · -- a rename
    exact he.elim

/-- The link a start holds goes with it. -/
theorem Placed.exit {w : Dataplane} (h : w.Placed) : w.exit.Placed :=
  ⟨h.distinct, h.pinned, fun _ _ hheld => nomatch hheld⟩

/-- No two links of one classifier sit on one device. -/
structure OneLink (w : Dataplane) : Prop where
  pinned : ∀ path path' link link' ifindex, w.linkPins path = some link → w.linkPins path' = some link' →
    link.classifier.name = link'.classifier.name → link.device = some ifindex → link'.device = some ifindex →
      path = path'
  held : ∀ path link iface link' ifindex, w.linkPins path = some link → w.held = some (iface, link') →
    link.classifier.name = link'.classifier.name → link.device = some ifindex → link'.device ≠ some ifindex

/-- Two links of one device would be pinned under the one name it has. -/
theorem Placed.oneLink {w : Dataplane} (h : w.Placed) : w.OneLink where
  pinned := by
    intro path path' link link' ifindex hlink hlink' hname hdevice hdevice'
    obtain ⟨iface, rfl, -, hsits⟩ := h.pinned path link hlink
    obtain ⟨iface', rfl, -, hsits'⟩ := h.pinned path' link' hlink'
    obtain ⟨device, hlookup, hindex⟩ := hsits ifindex hdevice
    obtain ⟨device', hlookup', hindex'⟩ := hsits' ifindex hdevice'
    -- one index, one interface, one path
    rw [hname, h.distinct _ _ _ _ hlookup hlookup' (hindex.trans hindex'.symm)]
  held := by
    intro path link iface' link' ifindex hlink hheld hname hdevice hdevice'
    obtain ⟨iface, rfl, -, hsits⟩ := h.pinned path link hlink
    obtain ⟨hnone, -, hsits'⟩ := h.held iface' link' hheld
    obtain ⟨device, hlookup, hindex⟩ := hsits ifindex hdevice
    obtain ⟨device', hlookup', hindex'⟩ := hsits' ifindex hdevice'
    -- the held link was attached by the name the other is pinned under, and there was no pin under it
    rw [h.distinct _ _ _ _ hlookup hlookup' (hindex.trans hindex'.symm), hname, hnone] at hlink
    cases hlink

end Dataplane

section
variable {c : AttachCourse} {classifier : Classifier} {iface : Iface}

/-- Without renames it is kept by what the devices do during a start. -/
theorem stable_placed (hnames : ∀ n, ∀ e ∈ c.before n, e.NoRename) : c.Stable Dataplane.Placed where
  occur n e he _ hw := hw.occur (hnames n e he)
  counted _ _ hw := ⟨hw.distinct, hw.pinned, hw.held⟩

/-- Links are made, swapped and unpinned under the name of the interface they sit on. -/
theorem keptByAttach_placed (hnames : ∀ n, ∀ e ∈ c.before n, e.NoRename) :
    KeptByAttach c classifier classifier.name.attachType iface Dataplane.Placed where
  stable := stable_placed hnames
  swap := by
    intro w link hw hpin _
    refine ⟨hw.distinct, fun path found hfound => ?_, fun name found hheld => ?_⟩
    · by_cases hpath : path = linkPinPath classifier.name iface
      · subst hpath
        change Function.update w.linkPins _ _ _ = some found at hfound
        rw [Function.update_self] at hfound
        -- the link swapped is the one that was pinned there
        cases hfound
        obtain ⟨iface', hpath', htype, hsits⟩ := hw.pinned _ link hpin
        obtain ⟨hname, rfl⟩ := linkPinPath_inj hpath'
        exact ⟨iface, rfl, htype.trans (congrArg HookName.attachType hname.symm), hsits⟩
      · exact hw.pinned path found ((Function.update_of_ne hpath ..).symm.trans hfound)
    · obtain ⟨hnone, hsits⟩ := hw.held name found hheld
      refine ⟨?_, hsits⟩
      have hpath : linkPinPath found.classifier.name name ≠ linkPinPath classifier.name iface := by
        intro hpath
        rw [hpath, hpin] at hnone
        cases hnone
      exact (Function.update_of_ne hpath ..).trans hnone
  unpin := by
    intro w hw _
    refine ⟨hw.distinct, fun path found hfound => ?_, fun name found hheld => ?_⟩
    · by_cases hpath : path = linkPinPath classifier.name iface
      · subst hpath
        exact absurd ((Function.update_self ..).symm.trans hfound) (by simp)
      · exact hw.pinned path found ((Function.update_of_ne hpath ..).symm.trans hfound)
    · obtain ⟨hnone, hsits⟩ := hw.held name found hheld
      refine ⟨?_, hsits⟩
      show Function.update _ _ _ _ = _
      rw [Function.update_apply]
      split_ifs <;> [rfl; exact hnone]
  attach := by
    intro w device hw hnone hdevice
    refine ⟨hw.distinct, hw.pinned, fun name found hheld => ?_⟩
    cases hheld
    refine ⟨hnone, rfl, fun i hi => ⟨device, hdevice, ?_⟩⟩
    exact Option.some_inj.mp hi
  pin := by
    intro w hw hnone hheld
    refine ⟨hw.distinct, fun path found hfound => ?_, fun _ _ hnothing => nomatch hnothing⟩
    by_cases hpath : path = linkPinPath classifier.name iface
    · subst hpath
      change Function.update w.linkPins _ _ _ = some found at hfound
      rw [Function.update_self] at hfound
      obtain ⟨⟨name, link⟩, hlink, rfl⟩ := Option.map_eq_some_iff.mp hfound
      obtain ⟨rfl, hclassifier⟩ := hheld name link hlink
      exact ⟨name, congrArg (fun c => linkPinPath c.name name) hclassifier.symm, (hw.held name link hlink).2⟩
    · exact hw.pinned path found ((Function.update_of_ne hpath ..).symm.trans hfound)

end

/-- A start leaves every link under the interface it sits on. -/
theorem BringUp.prog_placed {s : BringUp} (hnames : (AttachEvent.start s).NoRename) :
    Triple Dataplane.Placed s.prog (fun _ => Dataplane.Placed) Dataplane.Placed := by
  have hstable : s.course.Stable Dataplane.Placed := stable_placed hnames
  refine prog_keeps hstable ?_ (populateUplinkConfig_keeps hstable ?_ _) (fun _ _ => keptByAttach_placed hnames) ?_
  all_goals exact fun w _ hw => ⟨hw.distinct, hw.pinned, hw.held⟩

namespace Dataplane

/-- A start leaves no link out of place, wherever it is stopped, and neither does a device event. -/
theorem Placed.step {w : Dataplane} (h : w.Placed) {e : AttachEvent} (he : e.NoRename) : (w.step e).Placed := by
  cases e with
  | device e => exact h.occur he
  | start s => exact (BringUp.during_of_keeps (BringUp.prog_placed he) ⟨h.distinct, h.pinned, h.held⟩).exit

/-- By induction on the events. -/
theorem Placed.run {w : Dataplane} (h : w.Placed) {events : List AttachEvent} (hevents : ∀ e ∈ events, e.NoRename) :
    (w.run events).Placed := by
  induction events generalizing w with
  | nil => exact h
  | cons e events ih =>
    exact ih (h.step (hevents e List.mem_cons_self)) fun e' he' => hevents e' (List.mem_cons_of_mem e he')

/-- **No device has two links of one classifier**, at any point of any start, not even the one the start has yet to
    pin. -/
theorem one_link_per_device {w : Dataplane} {events : List AttachEvent} (hw : w.Untouched)
    (hevents : ∀ e ∈ events, e.NoRename) (s : BringUp) (hs : (AttachEvent.start s).NoRename) :
    (s.during (w.run events)).OneLink := by
  have hplaced := hw.placed.run hevents
  exact (BringUp.during_of_keeps (BringUp.prog_placed hs) ⟨hplaced.distinct, hplaced.pinned, hplaced.held⟩).oneLink

end Dataplane

/-- No start has been there. -/
theorem untouched_wiredNode : wiredNode.Untouched := ⟨distinct_wiredNode, fun _ => rfl, rfl⟩

/-- The Ethernet uplink is replaced under its name, and the next start stopped before it pins the new link. -/
theorem one_link_per_device_wired :
    ((wiredStart 1 (fun _ => []) (some 17)).during (wiredNode.run
      [.start (wiredStart 0 (fun _ => []) none), .device (.delete ['e']),
        .device (.add ['e'] ⟨9, arphrdEther⟩)])).OneLink := by
  refine Dataplane.one_link_per_device untouched_wiredNode ?_ _ ?_
  · intro e he
    simp only [List.mem_cons, List.not_mem_nil, or_false] at he
    rcases he with rfl | rfl | rfl
    · exact fun _ _ hnil => nomatch hnil
    · trivial
    · trivial
  · exact fun _ _ hnil => nomatch hnil

end Beep
