import Beep.Loader.Attach.BringUp

/-!
# `Loader.Attach.Links` — what a start does to a link

* what the devices do on their own: two names never share an index (`Dataplane.Distinct`), and a link is severed only
  with its device (`Dataplane.occur_spares`);
* the rules for one operation of a start (`kernelOp_triple`, `op_triple`), and what its parts leave alone;
* **a link is kept** (`attachIface_runs`): a pinned link whose device stays is at most given the classifier of the start.
-/

namespace Beep

open Crash

/-! ## Names of pins -/

/-- The separator of a pin's name is in no hook's name. -/
theorem HookName.dash_notMem (name : HookName) : '-' ∉ name.text := by
  cases name <;> decide

/-- No two hooks have one name. -/
theorem HookName.text_inj {name name' : HookName} (h : name.text = name'.text) : name = name' := by
  revert h
  cases name <;> cases name' <;> decide

/-- The part in front of a separator. -/
theorem append_cons_inj {α : Type} {x : α} {a b s t : List α} (ha : x ∉ a) (hb : x ∉ b)
    (h : a ++ x :: s = b ++ x :: t) : a = b ∧ s = t := by
  -- letter by letter: where one ends at the separator the other does, or it would contain it
  induction a generalizing b with
  | nil =>
    cases b with
    | nil => exact ⟨rfl, (List.cons.inj h).2⟩
    | cons y b =>
      obtain ⟨hxy, -⟩ := List.cons.inj h
      exact absurd (hxy ▸ List.mem_cons_self) hb
  | cons y a ih =>
    cases b with
    | nil =>
      obtain ⟨hxy, -⟩ := List.cons.inj h
      exact absurd (hxy ▸ List.mem_cons_self) ha
    | cons z b =>
      obtain ⟨rfl, hrest⟩ := List.cons.inj h
      obtain ⟨rfl, hst⟩ := ih (fun hx => ha (List.mem_cons_of_mem _ hx)) (fun hx => hb (List.mem_cons_of_mem _ hx)) hrest
      exact ⟨rfl, hst⟩

/-- A pin's name tells the classifier and the interface. -/
theorem linkPinPath_inj {name name' : HookName} {iface iface' : Iface}
    (h : linkPinPath name iface = linkPinPath name' iface') : name = name' ∧ iface = iface' := by
  obtain ⟨htext, htail⟩ := append_cons_inj name.dash_notMem name'.dash_notMem h
  exact ⟨HookName.text_inj htext, List.append_cancel_right htail⟩

/-! ## Devices on their own -/

namespace Dataplane

/-- Two names of devices have two indexes. -/
def Distinct (w : Dataplane) : Prop :=
  ∀ iface iface' device device', w.devices.lookup iface = some device → w.devices.lookup iface' = some device' →
    device.ifindex = device'.ifindex → iface = iface'

/-- What an event does, if anything. -/
theorem occur_cases (w : Dataplane) (e : DeviceEvent) :
    w.occur e = w ∨
    (∃ iface device, e = .add iface device ∧ w.devices.lookup iface = none ∧
      (∀ iface' device', w.devices.lookup iface' = some device' → device'.ifindex ≠ device.ifindex) ∧
      w.occur e = { w with devices := w.devices.insert iface device }) ∨
    (∃ iface device, e = .delete iface ∧ w.devices.lookup iface = some device ∧
      w.occur e = { w with
        devices := w.devices.erase iface
        linkPins := fun path => (w.linkPins path).map (TcxLink.without device.ifindex)
        held := w.held.map fun (name, link) => (name, link.without device.ifindex) }) ∨
    (∃ old new device, e = .rename old new ∧ w.devices.lookup old = some device ∧ w.devices.lookup new = none ∧
      w.occur e = { w with devices := (w.devices.erase old).insert new device }) := by
  cases e with
  | add iface device =>
    by_cases hfree : w.devices.lookup iface = none ∧ device.ifindex ∉ w.devices.values.map (·.ifindex)
    · refine Or.inr (Or.inl ⟨iface, device, rfl, hfree.1, fun iface' device' hdevice hindex => ?_, if_pos hfree⟩)
      exact hfree.2 (List.mem_map.mpr ⟨device', Table.mem_values.mpr ⟨iface', hdevice⟩, hindex⟩)
    · exact Or.inl (if_neg hfree)
  | delete iface =>
    cases hdevice : w.devices.lookup iface with
    | none => exact Or.inl (by simp only [occur, hdevice])
    | some device => exact Or.inr (Or.inr (Or.inl ⟨iface, device, rfl, hdevice, by simp only [occur, hdevice]⟩))
  | rename old new =>
    cases hold : w.devices.lookup old with
    | none => exact Or.inl (by simp only [occur, hold])
    | some device =>
      cases hnew : w.devices.lookup new with
      | some other => exact Or.inl (by simp only [occur, hold, hnew])
      | none =>
        exact Or.inr (Or.inr (Or.inr ⟨old, new, device, rfl, hold, hnew, by simp only [occur, hold, hnew]⟩))

/-- The kernel keeps names and indexes apart: it adds no index that is taken, and renames to no name that is taken. -/
theorem Distinct.occur {w : Dataplane} (h : w.Distinct) (e : DeviceEvent) : (w.occur e).Distinct := by
  rcases w.occur_cases e with heq | ⟨iface, device, -, -, hfree, heq⟩ | ⟨iface, device, -, -, heq⟩ |
    ⟨old, new, device, -, hold, hnew, heq⟩
  · rwa [heq]
  · rw [heq]
    intro a b da db ha hb hindex
    simp only [Table.lookup_insert_ite] at ha hb
    split_ifs at ha hb with hia hib hib
    · rw [hia, hib]
    · cases ha
      exact absurd hindex.symm (hfree b db hb)
    · cases hb
      exact absurd hindex (hfree a da ha)
    · exact h a b da db ha hb hindex
  · rw [heq]
    intro a b da db ha hb hindex
    simp only [Table.lookup_erase_ite] at ha hb
    split_ifs at ha hb
    exact h a b da db ha hb hindex
  · rw [heq]
    intro a b da db ha hb hindex
    simp only [Table.lookup_insert_ite, Table.lookup_erase_ite] at ha hb
    split_ifs at ha hb with hia hib hob hoa hib hob
    · rw [hia, hib]
    · cases ha
      exact absurd (h b old db device hb hold hindex.symm) hob
    · cases hb
      exact absurd (h a old da device ha hold hindex) hoa
    · exact h a b da db ha hb hindex

end Dataplane

/-- The event takes a name from its device. -/
def DeviceEvent.Takes (iface : Iface) : DeviceEvent → Prop
  | .add .. => False
  | .delete iface' => iface' = iface
  | .rename old _ => old = iface

instance (iface : Iface) (e : DeviceEvent) : Decidable (e.Takes iface) := by
  cases e <;> unfold DeviceEvent.Takes <;> infer_instance

namespace Dataplane

/-- The name stands for the device. -/
structure Has (w : Dataplane) (iface : Iface) (device : Device) : Prop where
  distinct : w.Distinct
  lookup : w.devices.lookup iface = some device

/-- A device whose name is not taken stays, and so do its links. -/
theorem occur_spares {w : Dataplane} {iface : Iface} {device : Device} {e : DeviceEvent} (h : w.Has iface device)
    (he : ¬ e.Takes iface) :
    (w.occur e).Has iface device ∧ ∀ path link, w.linkPins path = some link → link.device = some device.ifindex →
      (w.occur e).linkPins path = some link := by
  rcases w.occur_cases e with heq | ⟨new, added, -, hfree, -, heq⟩ | ⟨gone, deleted, rfl, hgone, heq⟩ |
    ⟨old, new, renamed, rfl, -, hnew, heq⟩
  · rw [heq]
    exact ⟨h, fun _ _ hlink _ => hlink⟩
  · refine ⟨⟨h.distinct.occur e, ?_⟩, ?_⟩
    · have hne : iface ≠ new := by
        rintro rfl
        rw [h.lookup] at hfree
        cases hfree
      rw [heq]
      exact (Table.lookup_insert_ite ..).trans ((if_neg hne).trans h.lookup)
    · rw [heq]
      exact fun _ _ hlink _ => hlink
  · have hne : iface ≠ gone := fun heq' => he heq'.symm
    refine ⟨⟨h.distinct.occur _, ?_⟩, fun path link hlink hdevice => ?_⟩
    · rw [heq]
      exact (Table.lookup_erase_ite ..).trans ((if_neg hne).trans h.lookup)
    · have hother : link.device ≠ some deleted.ifindex := by
        rw [hdevice]
        intro hindex
        exact hne (h.distinct _ _ _ _ h.lookup hgone (Option.some_inj.mp hindex))
      rw [heq]
      show (w.linkPins path).map _ = _
      rw [hlink, Option.map_some, TcxLink.without, if_neg hother]
  · have hold : iface ≠ old := fun heq' => he heq'.symm
    have hne : iface ≠ new := by
      rintro rfl
      rw [h.lookup] at hnew
      cases hnew
    refine ⟨⟨h.distinct.occur _, ?_⟩, ?_⟩
    · rw [heq]
      refine (Table.lookup_insert_ite ..).trans ((if_neg hne).trans ?_)
      exact (Table.lookup_erase_ite ..).trans ((if_neg hold).trans h.lookup)
    · rw [heq]
      exact fun _ _ hlink _ => hlink

/-- Devices have no part in the rows. -/
theorem occur_rows (w : Dataplane) (e : DeviceEvent) :
    (w.occur e).uplinkConfig = w.uplinkConfig ∧ (w.occur e).config = w.config := by
  rcases w.occur_cases e with heq | ⟨_, _, -, -, -, heq⟩ | ⟨_, _, -, -, heq⟩ | ⟨_, _, _, -, -, -, heq⟩ <;>
    rw [heq] <;> exact ⟨rfl, rfl⟩

end Dataplane

/-! ## Rules -/

/-- What the devices and the count of operations keep. -/
structure AttachCourse.Stable (c : AttachCourse) (P : Dataplane → Prop) : Prop where
  occur : ∀ n, ∀ e ∈ c.before n, ∀ w, P w → P (w.occur e)
  counted : ∀ w n, P w → P { w with done := n }

/-- It is kept by what happens before the next operation, one event after another. -/
theorem AttachCourse.Stable.next {c : AttachCourse} {P : Dataplane → Prop} (h : c.Stable P) {w : Dataplane}
    (hw : P w) : P (w.next c) := by
  have hevents : ∀ events : List DeviceEvent, (∀ e ∈ events, ∀ w, P w → P (w.occur e)) →
      ∀ w, P w → P (events.foldl Dataplane.occur w) := by
    intro events
    induction events with
    | nil => exact fun _ w hw => hw
    | cons e events ih =>
      intro hkeep w hw
      exact ih (fun e' he' => hkeep e' (List.mem_cons_of_mem e he')) _ (hkeep e List.mem_cons_self w hw)
  exact h.counted _ _ (hevents _ (h.occur w.done) w hw)

/-- Two kept facts are kept together. -/
theorem AttachCourse.Stable.and {c : AttachCourse} {P P' : Dataplane → Prop} (h : c.Stable P) (h' : c.Stable P') :
    c.Stable fun w => P w ∧ P' w where
  occur n e he w hw := ⟨h.occur n e he w hw.1, h'.occur n e he w hw.2⟩
  counted w n hw := ⟨h.counted w n hw.1, h'.counted w n hw.2⟩

section
variable {c : AttachCourse} {α β : Type} {P C : Dataplane → Prop}

/-- **One operation.** -/
theorem kernelOp_triple {op : Dataplane → Except IoError α × Dataplane} {Q : Except IoError α → Dataplane → Prop}
    (hstable : c.Stable P) (hrefused : ∀ e : Unexpected, ∀ w, P w → Q (.error e.1) w)
    (hdone : ∀ w, P w → Q (op w).1 (op w).2) (hC : ∀ r w, Q r w → C w) : Triple P (kernelOp c op) Q C := by
  refine Triple.call fun w hw => ?_
  cases hrefuses : c.refuses w.done with
  | some e =>
    have hQ := hrefused e _ (hstable.next hw)
    exact ⟨hC _ _ hQ, hQ⟩
  | none =>
    have hQ := hdone _ (hstable.next hw)
    exact ⟨hC _ _ hQ, hQ⟩

/-- `?` on the answer of an operation: the start goes on or ends there. -/
theorem orFail_triple {context : String} {r : Except IoError α} {Q : α → Dataplane → Prop}
    (hok : ∀ a, r = .ok a → ∀ w, P w → Q a w) (herror : ∀ w, P w → C w) : Triple P (orFail context r) Q C := by
  cases r with
  | ok a => exact Triple.pure (hok a rfl)
  | error e => exact Triple.fail herror

/-- An operation whose errors end the start, before they do. -/
theorem kernelOp_answers {op : Dataplane → Except IoError α × Dataplane} {Q : α → Dataplane → Prop}
    (hstable : c.Stable P) (hP : ∀ w, P w → C w) (herror : ∀ w, P w → ∀ e, (op w).1 = .error e → C (op w).2)
    (hdone : ∀ w, P w → ∀ a, (op w).1 = .ok a → Q a (op w).2) (hC : ∀ a w, Q a w → C w) :
    Triple P (kernelOp c op) (fun r w => C w ∧ ∀ a, r = .ok a → Q a w) C := by
  refine kernelOp_triple hstable ?_ ?_ fun r w h => h.1
  · exact fun e w hw => ⟨hP w hw, fun a ha => nomatch ha⟩
  · intro w hw
    cases hres : (op w).1 with
    | ok a =>
      have hQ := hdone w hw a hres
      refine ⟨hC a _ hQ, fun a' ha' => ?_⟩
      cases ha'
      exact hQ
    | error e => exact ⟨herror w hw e hres, fun a ha => nomatch ha⟩

/-- **One operation, whose errors end the start.** -/
theorem op_triple {op : Dataplane → Except IoError α × Dataplane} {context : String} {Q : α → Dataplane → Prop}
    (hstable : c.Stable P) (hP : ∀ w, P w → C w) (herror : ∀ w, P w → ∀ e, (op w).1 = .error e → C (op w).2)
    (hdone : ∀ w, P w → ∀ a, (op w).1 = .ok a → Q a (op w).2) (hC : ∀ a w, Q a w → C w) :
    Triple P (do orFail context (← kernelOp c op)) Q C :=
  Triple.bind (kernelOp_answers hstable hP herror hdone hC) fun _ =>
    orFail_triple (fun a ha _ hw => hw.2 a ha) fun _ hw => hw.1

/-- The same, with what comes after it. -/
theorem op_bind {op : Dataplane → Except IoError α × Dataplane} {context : String} {f : α → Starting β}
    {R : α → Dataplane → Prop} {Q : β → Dataplane → Prop} (hstable : c.Stable P) (hP : ∀ w, P w → C w)
    (herror : ∀ w, P w → ∀ e, (op w).1 = .error e → C (op w).2)
    (hdone : ∀ w, P w → ∀ a, (op w).1 = .ok a → R a (op w).2) (hC : ∀ a w, R a w → C w)
    (hf : ∀ a, Triple (R a) (f a) Q C) : Triple P (do let a ← orFail context (← kernelOp c op); f a) Q C :=
  Triple.bind (kernelOp_answers hstable hP herror hdone hC) fun _ =>
    Triple.bind (orFail_triple (fun a ha _ hw => hw.2 a ha) fun _ hw => hw.1) hf

/-- Reading from sysfs. -/
theorem sysfs_triple {context : String} {iface : Iface} {g : Device → β} {Q : β → Dataplane → Prop}
    (hstable : c.Stable P) (hP : ∀ w, P w → C w)
    (hread : ∀ w, P w → ∀ device, w.devices.lookup iface = some device → Q (g device) w)
    (hC : ∀ b w, Q b w → C w) :
    Triple P (do let device ← orFail context (← c.sysfs iface); return g device) Q C := by
  refine op_bind (R := fun device w => Q (g device) w) hstable hP (fun w hw _ _ => hP w hw) ?_ (fun _ _ h => hC _ _ h)
    fun device => Triple.pure fun _ h => h
  intro w hw device hok
  cases hlookup : w.devices.lookup iface with
  | none =>
    simp only [hlookup] at hok
    cases hok
  | some found =>
    simp only [hlookup] at hok
    cases hok
    exact hread w hw device hlookup

end

/-! ## The parts of a start -/

namespace Dataplane

/-- The link pinned at a path is severed. -/
def SeveredAt (w : Dataplane) (path : List Char) : Prop := ∃ link, w.linkPins path = some link ∧ link.device = none

/-- The link a start holds, if any, runs the classifier and was attached by the name. -/
def HeldFor (w : Dataplane) (classifier : Classifier) (iface : Iface) : Prop :=
  ∀ name link, w.held = some (name, link) → name = iface ∧ link.classifier = classifier

end Dataplane

/-- A severed link has no device to lose. -/
theorem TcxLink.without_of_none {link : TcxLink} (h : link.device = none) (ifindex : UInt32) :
    link.without ifindex = link := by
  unfold without
  rw [h, if_neg (by simp)]

/-- A link that loses its device runs what it ran. -/
@[simp] theorem TcxLink.classifier_without (ifindex : UInt32) (link : TcxLink) :
    (link.without ifindex).classifier = link.classifier := by
  unfold without
  split_ifs <;> rfl

section
variable {c : AttachCourse} {path : List Char}

/-- A severed link stays severed, since links only ever lose devices. -/
theorem stable_severedAt : c.Stable (Dataplane.SeveredAt · path) where
  occur := by
    rintro - e - w ⟨link, hlink, hdevice⟩
    rcases w.occur_cases e with heq | ⟨_, _, -, -, -, heq⟩ | ⟨iface, device, -, -, heq⟩ | ⟨_, _, _, -, -, -, heq⟩ <;>
      rw [heq]
    · exact ⟨link, hlink, hdevice⟩
    · exact ⟨link, hlink, hdevice⟩
    · refine ⟨link, ?_, hdevice⟩
      show (w.linkPins path).map _ = _
      rw [hlink, Option.map_some, TcxLink.without_of_none hdevice]
    · exact ⟨link, hlink, hdevice⟩
  counted _ _ h := h

/-- The devices pin nothing. -/
theorem stable_unpinned : c.Stable fun w => w.linkPins path = none where
  occur := by
    intro _ e _ w hnone
    rcases w.occur_cases e with heq | ⟨_, _, -, -, -, heq⟩ | ⟨iface, device, -, -, heq⟩ | ⟨_, _, _, -, -, -, heq⟩ <;>
      rw [heq]
    · exact hnone
    · exact hnone
    · exact Option.map_eq_none_iff.mpr hnone
    · exact hnone
  counted _ _ h := h

/-- The devices have no part in what a start holds, but for the device of its link. -/
theorem stable_heldFor {classifier : Classifier} {iface : Iface} : c.Stable (Dataplane.HeldFor · classifier iface) where
  occur := by
    intro _ e _ w hheld
    rcases w.occur_cases e with heq | ⟨_, _, -, -, -, heq⟩ | ⟨_, device, -, -, heq⟩ | ⟨_, _, _, -, -, -, heq⟩ <;>
      rw [heq]
    · exact hheld
    · exact hheld
    · intro name link hlink
      obtain ⟨⟨name', link'⟩, hlink', heq'⟩ := Option.map_eq_some_iff.mp hlink
      cases heq'
      rw [TcxLink.classifier_without]
      exact hheld _ _ hlink'
    · exact hheld
  counted _ _ h := h

end

/-- What the four writes of `attach_and_pin` for one interface keep. -/
structure KeptByAttach (c : AttachCourse) (classifier : Classifier) (attachType : TcAttachType) (iface : Iface)
    (P : Dataplane → Prop) : Prop where
  stable : c.Stable P
  swap : ∀ w link, P w → w.linkPins (linkPinPath classifier.name iface) = some link → link.device ≠ none →
    P { w with
      linkPins := Function.update w.linkPins (linkPinPath classifier.name iface) (some { link with classifier }) }
  unpin : ∀ w, P w → w.SeveredAt (linkPinPath classifier.name iface) →
    P { w with linkPins := Function.update w.linkPins (linkPinPath classifier.name iface) none }
  attach : ∀ w device, P w → w.linkPins (linkPinPath classifier.name iface) = none →
    w.devices.lookup iface = some device →
    P { w with held := some (iface, ⟨classifier, attachType, some device.ifindex⟩) }
  pin : ∀ w, P w → w.linkPins (linkPinPath classifier.name iface) = none → w.HeldFor classifier iface →
    P { w with
      linkPins := Function.update w.linkPins (linkPinPath classifier.name iface) (w.held.map Prod.snd)
      held := none }

section
variable {c : AttachCourse} {classifier : Classifier} {attachType : TcAttachType} {iface : Iface}
  {P : Dataplane → Prop}

/-- The first part of an attachment, which leaves the path free if it asks for a fresh link. -/
theorem reusePinned_keeps (h : KeptByAttach c classifier attachType iface P) :
    Triple P (c.reusePinned classifier iface)
      (fun fresh w => P w ∧ (fresh = true → w.linkPins (linkPinPath classifier.name iface) = none)) P := by
  unfold AttachCourse.reusePinned
  refine Triple.bind (R := fun r w => P w ∧ ∀ e, r = .error e → isNotFound e = true →
    w.linkPins (linkPinPath classifier.name iface) = none) ?_ ?_
  · refine kernelOp_triple h.stable (fun e w hw => ⟨hw, ?_⟩) (fun w hw => ⟨hw, ?_⟩) fun r w hw => hw.1
    · -- an error the kernel was not expected to give is not taken for a missing pin
      intro e' he' hnotFound
      cases he'
      rw [e.2.2] at hnotFound
      cases hnotFound
    · intro e he _
      cases hpin : w.linkPins (linkPinPath classifier.name iface) with
      | none => rfl
      | some link =>
        simp only [hpin] at he
        cases he
  rintro (e | link)
  · -- no link under the path, or an error the code has no branch for
    by_cases hnotFound : isNotFound e = true
    · simp only [hnotFound, if_true]
      exact Triple.pure fun w hw => ⟨hw.1, fun _ => hw.2 e rfl hnotFound⟩
    · simp only [hnotFound]
      exact Triple.fail fun w hw => hw.1
  · refine Triple.bind (R := fun r w => P w ∧ ∀ e, r = .error e → isSeveredLink e = true →
      w.SeveredAt (linkPinPath classifier.name iface)) ?_ ?_
    · refine Triple.pre (P := P) ?_ fun w hw => hw.1
      refine kernelOp_triple h.stable (fun e w hw => ⟨hw, ?_⟩) ?_ fun r w hw => hw.1
      · -- nor for a severed link
        intro e' he' hsevered
        cases he'
        rw [e.2.1] at hsevered
        cases hsevered
      · intro w hw
        cases hpin : w.linkPins (linkPinPath classifier.name iface) with
        | none => exact ⟨hw, fun e he => nomatch he⟩
        | some link =>
          cases hdevice : link.device with
          | none =>
            simp only [hdevice, Option.isNone_none, if_true]
            exact ⟨hw, fun e _ _ => ⟨link, hpin, hdevice⟩⟩
          | some ifindex =>
            simp only [hdevice, Option.isNone_some, Bool.false_eq_true, if_false]
            rw [← hdevice]
            refine ⟨h.swap w link hw hpin ?_, fun e he => nomatch he⟩
            rw [hdevice]
            exact Option.some_ne_none _
    · rintro (e | -)
      · -- the swap failed: a severed link is unpinned, and any other error ends the start
        by_cases hsevered : isSeveredLink e = true
        · simp only [hsevered, if_true]
          refine (op_bind (R := fun _ w => P w ∧ w.linkPins (linkPinPath classifier.name iface) = none)
            (h.stable.and stable_severedAt) (fun w hw => hw.1) ?_ ?_ (fun _ w hw => hw.1) fun _ =>
            Triple.pure fun w hw => ⟨hw.1, fun _ => hw.2⟩).pre fun w hw => ⟨hw.1, hw.2 e rfl hsevered⟩
          · rintro w ⟨hw, link, hpin, -⟩ e' he'
            simp only [hpin] at he'
            cases he'
          · rintro w ⟨hw, link, hpin, hdevice⟩ - -
            simp only [hpin]
            exact ⟨h.unpin w hw ⟨link, hpin, hdevice⟩, Function.update_self ..⟩
        · simp only [hsevered]
          exact Triple.fail fun w hw => hw.1
      · exact Triple.pure fun w hw => ⟨hw.1, fun hfresh => nomatch hfresh⟩

/-- The second part, on a path that is free. -/
theorem attachFresh_keeps (h : KeptByAttach c classifier attachType iface P) :
    Triple (fun w => P w ∧ w.linkPins (linkPinPath classifier.name iface) = none)
      (c.attachFresh classifier attachType iface) (fun _ => P) P := by
  unfold AttachCourse.attachFresh
  refine op_bind (R := fun _ w => (P w ∧ w.linkPins (linkPinPath classifier.name iface) = none) ∧
    w.HeldFor classifier iface) (h.stable.and stable_unpinned) (fun w hw => hw.1) ?_ ?_ (fun _ w hw => hw.1.1) ?_
  · intro w hw e he
    cases hdevice : w.devices.lookup iface with
    | none => exact hw.1
    | some device =>
      simp only [hdevice] at he
      cases he
  · intro w hw _ hok
    cases hdevice : w.devices.lookup iface with
    | none =>
      simp only [hdevice] at hok
      cases hok
    | some device =>
      refine ⟨⟨h.attach w device hw.1 hw.2 hdevice, hw.2⟩, fun name link hheld => ?_⟩
      cases hheld
      exact ⟨rfl, rfl⟩
  · intro _
    -- the link attached is held until it is pinned
    refine op_triple ((h.stable.and stable_unpinned).and stable_heldFor) (fun w hw => hw.1.1) ?_ ?_ fun _ w hw => hw
    · rintro w ⟨⟨-, hnone⟩, -⟩ e he
      simp only [hnone] at he
      cases he
    · rintro w ⟨⟨hw, hnone⟩, hheld⟩ - -
      simp only [hnone]
      exact h.pin w hw hnone hheld

/-- **What the four writes keep, `attach_and_pin` keeps for one interface.** -/
theorem attachIface_keeps (h : KeptByAttach c classifier attachType iface P) :
    Triple P (c.attachIface classifier attachType iface) (fun _ => P) P := by
  unfold AttachCourse.attachIface
  refine Triple.bind (reusePinned_keeps h) fun fresh => ?_
  cases fresh with
  | true => exact (attachFresh_keeps h).pre fun w hw => ⟨hw.1, hw.2 rfl⟩
  | false => exact Triple.pure fun w hw => hw.1

/-- A hook on all its interfaces keeps what each attachment keeps. -/
theorem attachAndPin_keeps {ifaces : List Iface} (h : ∀ iface ∈ ifaces, KeptByAttach c classifier attachType iface P)
    (hstable : c.Stable P) (hprogs : ∀ w progPins, P w → P { w with progPins }) :
    Triple P (c.attachAndPin classifier ifaces attachType) (fun _ => P) P := by
  unfold AttachCourse.attachAndPin AttachCourse.pinProgram
  refine op_bind (R := fun _ => P) hstable (fun _ hw => hw) (fun _ hw _ _ => hw) (fun _ hw _ _ => hw)
    (fun _ _ hw => hw) fun _ => ?_
  refine Triple.bind (R := fun _ => P) (Triple.forEach (I := fun _ => P) fun iface rest hrest => ?_) fun _ => ?_
  · exact attachIface_keeps (h iface (hrest.subset List.mem_cons_self))
  · -- the program is unpinned and pinned anew after the interfaces
    refine Triple.bind (R := fun _ => P) (kernelOp_triple hstable (fun _ _ hw => hw) (fun w hw => hprogs w _ hw)
      fun _ _ hw => hw) fun _ => ?_
    refine op_triple hstable (fun _ hw => hw) ?_ ?_ fun _ _ hw => hw
    · intro w hw e he
      cases hpin : w.progPins (progPinPath classifier.name) with
      | some _ => exact hw
      | none => exact hprogs w _ hw
    · intro w hw _ hok
      cases hpin : w.progPins (progPinPath classifier.name) with
      | some _ => exact hw
      | none => exact hprogs w _ hw

end

end Beep
