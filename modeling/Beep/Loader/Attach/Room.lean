import Beep.Loader.Attach.Serving
import Mathlib.Data.Finset.Card

/-!
# `Loader.Attach.Room` — room for the rows

`populate_uplink_config` refuses more uplinks than `UPLINK_CONFIG` has room for, and deletes stale rows only when the new
ones are written. So what has to fit is the old rows *and* the new ones: if they do, a start that nothing else stands in
the way of completes; if they do not, it fails, leaves the old rows where they are, and so does every start after it
(**`Dataplane.room_decides_start`**).
-/

namespace Beep

open Crash

namespace Dataplane

/-- The indexes that have a row, and those that are to get one. -/
def rowsInUse (w : Dataplane) (uplinkIfaces : List Iface) (device : Iface → Device) : Finset UInt32 :=
  w.uplinkConfig.keys.toFinset ∪ (uplinkIfaces.map fun iface => (device iface).ifindex).toFinset

/-- The old rows are still there, and there are no more than there is room for. -/
structure Crowded (w : Dataplane) (old : List UInt32) (uplinkIfaces : List Iface) (device : Iface → Device) : Prop where
  devices : w.Devices uplinkIfaces device
  old : ∀ ifindex ∈ old, (w.uplinkConfig.lookup ifindex).isSome
  bounded : w.uplinkConfig.entries.length ≤ uplinkConfigCapacity

/-- A row is written only where it fits, so the bound stands, and no row goes. -/
theorem Crowded.insert {w : Dataplane} {old : List UInt32} {uplinkIfaces : List Iface} {device : Iface → Device}
    (h : w.Crowded old uplinkIfaces device) {ifindex : UInt32} (uplink : UplinkConfig)
    (hroom : ¬ (w.uplinkConfig.lookup ifindex = none ∧ uplinkConfigCapacity ≤ w.uplinkConfig.entries.length)) :
    { w with uplinkConfig := w.uplinkConfig.insert ifindex uplink }.Crowded old uplinkIfaces device where
  devices := ⟨h.devices.distinct, h.devices.lookup⟩
  old i hi := by
    show ((w.uplinkConfig.insert ifindex uplink).lookup i).isSome
    rw [Table.lookup_insert_ite]
    split_ifs
    · rfl
    · exact h.old i hi
  bounded := by
    show (w.uplinkConfig.insert ifindex uplink).entries.length ≤ _
    cases hrow : w.uplinkConfig.lookup ifindex with
    -- a new row: the write found one place free
    | none =>
      have hlen := Table.length_insert_le w.uplinkConfig ifindex uplink
      have hfree : ¬ uplinkConfigCapacity ≤ w.uplinkConfig.entries.length := fun hfull => hroom ⟨hrow, hfull⟩
      omega
    -- a row that is there already is written over in place
    | some _ =>
      rw [Table.length_insert_of_mem uplink (by rw [hrow]; rfl)]
      exact h.bounded

/-- Rows for all of them do not fit. -/
theorem Crowded.not_all {w : Dataplane} {old : List UInt32} {uplinkIfaces : List Iface} {device : Iface → Device}
    (h : w.Crowded old uplinkIfaces device)
    (hcard : uplinkConfigCapacity <
      (old.toFinset ∪ (uplinkIfaces.map fun iface => (device iface).ifindex).toFinset).card) :
    ¬ ∀ iface ∈ uplinkIfaces, (w.uplinkConfig.lookup (device iface).ifindex).isSome := by
  intro hall
  have hsub : old.toFinset ∪ (uplinkIfaces.map fun iface => (device iface).ifindex).toFinset ⊆
      w.uplinkConfig.keys.toFinset := by
    intro i hi
    rw [List.mem_toFinset]
    rcases Finset.mem_union.mp hi with hold | hnew
    · exact Table.mem_keys_of_isSome (h.old i (List.mem_toFinset.mp hold))
    · obtain ⟨iface, hmem, rfl⟩ := List.mem_map.mp (List.mem_toFinset.mp hnew)
      exact Table.mem_keys_of_isSome (hall iface hmem)
  -- the keys are as many as the rows, and no key comes twice
  have hle := (Finset.card_le_card hsub).trans (List.toFinset_card_le _)
  rw [Table.length_keys] at hle
  have hbounded := h.bounded
  omega

end Dataplane

section
variable {c : AttachCourse} {old : List UInt32} {uplinkIfaces : List Iface} {device : Iface → Device}

/-- The devices have no part in the rows, and leave the uplinks where they are. -/
theorem stable_crowded (hspares : ∀ iface ∈ uplinkIfaces, c.Spares iface) :
    c.Stable (Dataplane.Crowded · old uplinkIfaces device) where
  occur n e he w hw := by
    have hrows := (w.occur_rows e).1
    exact ⟨(stable_devices hspares).occur n e he w hw.devices, by rw [hrows]; exact hw.old,
      by rw [hrows]; exact hw.bounded⟩
  counted _ _ hw := ⟨⟨hw.devices.distinct, hw.devices.lookup⟩, hw.old, hw.bounded⟩

/-- **Too many rows**: the stale ones are never reached. -/
theorem populateUplinkConfig_crowded (hspares : ∀ iface ∈ uplinkIfaces, c.Spares iface)
    (hcard : uplinkConfigCapacity <
      (old.toFinset ∪ (uplinkIfaces.map fun iface => (device iface).ifindex).toFinset).card) :
    Triple (Dataplane.Crowded · old uplinkIfaces device) (c.populateUplinkConfig uplinkIfaces) (fun _ _ => False)
      (Dataplane.Crowded · old uplinkIfaces device) := by
  have hstable : c.Stable (Dataplane.Crowded · old uplinkIfaces device) := stable_crowded hspares
  have hfalse : c.Stable fun _ => False := ⟨fun _ _ _ _ hw => hw, fun _ _ hw => hw⟩
  -- the uplinks come across so far have rows
  let Written : List Iface → Dataplane → Prop := fun rest w => w.Crowded old uplinkIfaces device ∧
    ∀ iface ∈ uplinkIfaces, iface ∈ rest ∨ (w.uplinkConfig.lookup (device iface).ifindex).isSome
  have hwritten : ∀ rest, c.Stable (Written rest) := fun rest =>
    ⟨fun n e he w hw => ⟨hstable.occur n e he w hw.1, by rw [(w.occur_rows e).1]; exact hw.2⟩,
      fun w n hw => ⟨hstable.counted w n hw.1, hw.2⟩⟩
  refine (populateUplinkConfig_triple (R := fun _ _ => False) (J := fun _ _ _ => False) (fun _ hw => hw) (fun _ => ?_)
    (fun _ => hfalse) (fun _ _ hw => hw.elim) (fun _ _ => hfalse) (fun _ _ _ _ _ hw => hw.elim)
    fun _ _ _ hw => hw.elim).post fun _ _ ⟨_, hw⟩ => hw
  refine (Triple.collect (I := fun rest _ => Written rest) (fun other rest _ hrest => ?_) []).weaken
    (fun w hw => ⟨hw, fun _ hmem => Or.inl hmem⟩) ?_ fun _ hw => hw
  · have hother : other ∈ uplinkIfaces := hrest.subset List.mem_cons_self
    refine Triple.bind (R := fun _ => Written rest) ?_ fun _ => Triple.pure fun _ hw => hw
    refine configureUplink_triple (F := (· = (device other).ifindex)) (G := fun _ => True) (hwritten _)
      (fun _ hw => hw.1) ?_ (fun _ _ _ _ => trivial) ?_ fun _ _ hw => hw.1
    · intro w found hw hlookup
      rw [Option.some_inj.mp (hlookup.symm.trans (hw.1.devices.lookup other hother))]
    · -- the uplink in turn gets its row, those before it keep theirs
      rintro w _ arphrd l2Hlen hw rfl - - hroom
      refine ⟨hw.1.insert ⟨l2Hlen⟩ hroom, fun iface hmem => ?_⟩
      rcases hw.2 iface hmem with hlisted | hrow
      · rcases List.mem_cons.mp hlisted with rfl | hlater
        · refine Or.inr ?_
          show ((w.uplinkConfig.insert _ _).lookup _).isSome
          rw [Table.lookup_insert_ite, if_pos rfl]
          rfl
        · exact Or.inl hlater
      · refine Or.inr ?_
        show ((w.uplinkConfig.insert _ _).lookup _).isSome
        rw [Table.lookup_insert_ite]
        split_ifs
        · rfl
        · exact hrow
  · -- with every uplink written all would fit
    exact fun _ w hw => hw.1.not_all hcard fun iface hmem => (hw.2 iface hmem).resolve_left List.not_mem_nil

end

/-! ## Starts that find no room -/

/-- The event leaves the uplinks with their devices, and lists them if it is a start. -/
def AttachEvent.Relists (uplinkIfaces : List Iface) : AttachEvent → Prop
  | .device e => ∀ iface ∈ uplinkIfaces, ¬ e.Takes iface
  | .start s => s.uplinkIfaces = uplinkIfaces ∧ ∀ iface ∈ uplinkIfaces, s.course.Spares iface

section
variable {s : BringUp} {old : List UInt32} {uplinkIfaces : List Iface} {device : Iface → Device}

/-- Such a start never comes to its attachments. -/
theorem BringUp.prog_crowded (hs : (AttachEvent.start s).Relists uplinkIfaces)
    (hcard : uplinkConfigCapacity <
      (old.toFinset ∪ (uplinkIfaces.map fun iface => (device iface).ifindex).toFinset).card) :
    Triple (Dataplane.Crowded · old uplinkIfaces device) s.prog (fun _ _ => False)
      (Dataplane.Crowded · old uplinkIfaces device) := by
  obtain ⟨rfl, hspares⟩ := hs
  unfold prog
  refine Triple.bind (populateConfig_keeps (stable_crowded hspares)
    (fun _ _ hw => ⟨⟨hw.devices.distinct, hw.devices.lookup⟩, hw.old, hw.bounded⟩) _ _) fun _ => ?_
  refine Triple.bind (populateUplinkConfig_crowded hspares hcard) fun _ => ?_
  exact ⟨fun _ h => h.elim, fun _ h => h.elim, fun _ h => h.elim⟩

namespace Dataplane

/-- It is as crowded after each event: a start that fails takes no row away. -/
theorem Crowded.step {w : Dataplane} (h : w.Crowded old uplinkIfaces device) {e : AttachEvent}
    (he : e.Relists uplinkIfaces) (hcard : uplinkConfigCapacity <
      (old.toFinset ∪ (uplinkIfaces.map fun iface => (device iface).ifindex).toFinset).card) :
    (w.step e).Crowded old uplinkIfaces device := by
  cases e with
  | device e =>
    have hrows := (w.occur_rows e).1
    refine ⟨⟨h.devices.distinct.occur e, fun iface hmem => ?_⟩, ?_, ?_⟩
    · exact (occur_spares (h.devices.has hmem) (he iface hmem)).1.lookup
    · show ∀ i ∈ old, ((w.occur e).uplinkConfig.lookup i).isSome
      rw [hrows]
      exact h.old
    · show (w.occur e).uplinkConfig.entries.length ≤ _
      rw [hrows]
      exact h.bounded
  | start s =>
    have hkeeps := (BringUp.prog_crowded he hcard).weaken (fun _ hw => hw)
      (fun (_ : Unit) w (hw : False) => (hw.elim : w.Crowded old uplinkIfaces device)) fun _ hw => hw
    have hduring := BringUp.during_of_keeps hkeeps (w := w)
      ⟨⟨h.devices.distinct, h.devices.lookup⟩, h.old, h.bounded⟩
    exact ⟨⟨hduring.devices.distinct, hduring.devices.lookup⟩, hduring.old, hduring.bounded⟩

/-- It is as crowded after any number of events, by induction on them. -/
theorem Crowded.run {w : Dataplane} (h : w.Crowded old uplinkIfaces device) {events : List AttachEvent}
    (hevents : ∀ e ∈ events, e.Relists uplinkIfaces) (hcard : uplinkConfigCapacity <
      (old.toFinset ∪ (uplinkIfaces.map fun iface => (device iface).ifindex).toFinset).card) :
    (w.run events).Crowded old uplinkIfaces device := by
  induction events generalizing w with
  | nil => exact h
  | cons e events ih =>
    exact ih (h.step (hevents e List.mem_cons_self) hcard) fun e' he' => hevents e' (List.mem_cons_of_mem e he')

end Dataplane

end

/-! ## Starts that nothing else stands in the way of -/

/-- Nothing happens to the devices, and the kernel refuses nothing. -/
structure AttachCourse.Calm (c : AttachCourse) : Prop where
  before : ∀ n, c.before n = []
  refuses : ∀ n, c.refuses n = none

/-- The devices are these, and there are rows for these indexes at most. -/
structure Dataplane.Within (w : Dataplane) (devices : Table Iface Device) (indexes : Finset UInt32) : Prop where
  devices : w.devices = devices
  rows : ∀ ifindex, (w.uplinkConfig.lookup ifindex).isSome → ifindex ∈ indexes

section
variable {c : AttachCourse} {α β : Type} {P : Dataplane → Prop} {devices : Table Iface Device}
  {indexes : Finset UInt32} {classifier : Classifier} {attachType : TcAttachType} {iface : Iface} {device : Device}

/-- **One operation**, on a course that refuses none. -/
theorem kernelOp_succeeds {op : Dataplane → Except IoError α × Dataplane} {Q : Except IoError α → Dataplane → Prop}
    (hcalm : c.Calm) (hcounted : ∀ w n, P w → P { w with done := n }) (hop : ∀ w, P w → Q (op w).1 (op w).2) :
    Prog.Succeeds P (kernelOp c op) Q := by
  refine Prog.Succeeds.call fun w hw => ?_
  have hnext : w.next c = { w with done := w.done + 1 } := by
    unfold Dataplane.next
    rw [hcalm.before]
    rfl
  simp only [hcalm.refuses, hnext]
  exact hop _ (hcounted w _ hw)

/-- An operation that is not refused, with what comes after it. -/
theorem op_succeeds {op : Dataplane → Except IoError α × Dataplane} {context : String} {f : α → Starting β}
    {R : α → Dataplane → Prop} {Q : β → Dataplane → Prop} (hcalm : c.Calm)
    (hcounted : ∀ w n, P w → P { w with done := n }) (hop : ∀ w, P w → ∃ a, (op w).1 = .ok a ∧ R a (op w).2)
    (hf : ∀ a, Prog.Succeeds (R a) (f a) Q) :
    Prog.Succeeds P (do let a ← orFail context (← kernelOp c op); f a) Q := by
  refine Prog.Succeeds.bind (kernelOp_succeeds (Q := fun r w => ∃ a, r = .ok a ∧ R a w) hcalm hcounted hop) fun r => ?_
  intro w ⟨a, hr, ha⟩
  subst hr
  exact (Prog.Succeeds.pure (P := R a) fun _ h => h).bind (hf ·) w ha

/-- The same, for the last operation. -/
theorem last_succeeds {op : Dataplane → Except IoError α × Dataplane} {context : String} {Q : α → Dataplane → Prop}
    (hcalm : c.Calm) (hcounted : ∀ w n, P w → P { w with done := n })
    (hop : ∀ w, P w → ∃ a, (op w).1 = .ok a ∧ Q a (op w).2) :
    Prog.Succeeds P (do orFail context (← kernelOp c op)) Q := by
  refine Prog.Succeeds.bind (kernelOp_succeeds (Q := fun r w => ∃ a, r = .ok a ∧ Q a w) hcalm hcounted hop) fun r => ?_
  intro w ⟨a, hr, ha⟩
  subst hr
  exact Prog.Succeeds.pure (P := Q a) (fun _ h => h) w ha

/-- The count of operations is no part of it. -/
theorem Dataplane.Within.counted {w : Dataplane} (h : w.Within devices indexes) (n : Nat) :
    { w with done := n }.Within devices indexes := ⟨h.devices, h.rows⟩

/-- A device that is there is read. -/
theorem sysfs_succeeds {context : String} {g : Device → β} (hcalm : c.Calm)
    (hdevice : devices.lookup iface = some device) :
    Prog.Succeeds (Dataplane.Within · devices indexes)
      (do let found ← orFail context (← c.sysfs iface); return g found)
      fun b w => b = g device ∧ w.Within devices indexes := by
  refine op_succeeds (R := fun found w => found = device ∧ w.Within devices indexes) hcalm (fun w n hw => hw.counted n)
    (fun w hw => ⟨device, ?_, rfl, hw⟩) fun found => Prog.Succeeds.pure fun w hw => ⟨congrArg g hw.1, hw.2⟩
  simp only [hw.devices, hdevice]

/-- The row of one uplink is written, since its index is one of those that fit. -/
theorem configureUplink_succeeds {l2Hlen : UInt32} (hcalm : c.Calm) (hdevice : devices.lookup iface = some device)
    (hlen : uplinkL2HeaderLen device.arphrd = some l2Hlen) (hmem : device.ifindex ∈ indexes)
    (hroom : indexes.card ≤ uplinkConfigCapacity) :
    Prog.Succeeds (Dataplane.Within · devices indexes) (c.configureUplink iface)
      fun _ w => w.Within devices indexes := by
  unfold AttachCourse.configureUplink AttachCourse.ifaceIndex AttachCourse.ifaceArphrdType
  refine Prog.Succeeds.bind (sysfs_succeeds hcalm hdevice) fun ifindex => ?_
  rintro w ⟨rfl, hw⟩
  refine Prog.Succeeds.bind (sysfs_succeeds hcalm hdevice) (fun arphrd => ?_) w hw
  rintro w ⟨rfl, hw⟩
  simp only [uplinkL2HlenOrErr, hlen]
  refine Prog.Succeeds.bind (P := (Dataplane.Within · devices indexes))
    (Q := fun l w => l = l2Hlen ∧ w.Within devices indexes) (Prog.Succeeds.pure fun _ hw => ⟨rfl, hw⟩) (fun l => ?_) w hw
  rintro w ⟨rfl, hw⟩
  refine op_succeeds (P := (Dataplane.Within · devices indexes)) (R := fun _ w => w.Within devices indexes)
    (Q := fun _ w => w.Within devices indexes) hcalm (fun w n hw => hw.counted n) (fun w hw => ⟨(), ?_⟩)
    (fun _ => Prog.Succeeds.pure fun _ hw => hw) w hw
  -- an index that has no row yet is one of the indexes that fit
  have hfits : ¬ (w.uplinkConfig.lookup device.ifindex = none ∧
      uplinkConfigCapacity ≤ w.uplinkConfig.entries.length) := by
    rintro ⟨hnone, hfull⟩
    have hsub : insert device.ifindex w.uplinkConfig.keys.toFinset ⊆ indexes := by
      refine Finset.insert_subset hmem fun i hi => ?_
      obtain ⟨uplink, hlookup⟩ := (Table.mem_keys_iff ..).mp (List.mem_toFinset.mp hi)
      exact hw.rows i (by rw [hlookup]; rfl)
    have hnew : device.ifindex ∉ w.uplinkConfig.keys.toFinset := by
      rw [List.mem_toFinset, Table.mem_keys_iff, hnone]
      rintro ⟨_, hsome⟩
      cases hsome
    have hcard := Finset.card_le_card hsub
    rw [Finset.card_insert_of_notMem hnew, List.toFinset_card_of_nodup w.uplinkConfig.keys_nodup,
      Table.length_keys] at hcard
    omega
  simp only [if_neg hfits]
  refine ⟨trivial, hw.devices, fun i hi => ?_⟩
  change ((w.uplinkConfig.insert _ _).lookup i).isSome at hi
  rw [Table.lookup_insert_ite] at hi
  split_ifs at hi with heq
  · exact heq ▸ hmem
  · exact hw.rows i hi

/-- The rows are written, and the stale ones deleted. -/
theorem populateUplinkConfig_succeeds {uplinkIfaces : List Iface} {device : Iface → Device} (hcalm : c.Calm)
    (hcount : uplinkIfaces.length ≤ uplinkConfigCapacity)
    (hdevices : ∀ iface ∈ uplinkIfaces, devices.lookup iface = some (device iface))
    (hsupported : ∀ iface ∈ uplinkIfaces, (uplinkL2HeaderLen (device iface).arphrd).isSome)
    (hmem : ∀ iface ∈ uplinkIfaces, (device iface).ifindex ∈ indexes) (hroom : indexes.card ≤ uplinkConfigCapacity) :
    Prog.Succeeds (Dataplane.Within · devices indexes) (c.populateUplinkConfig uplinkIfaces)
      fun _ w => w.devices = devices := by
  unfold AttachCourse.populateUplinkConfig checkUplinkCount
  rw [if_neg (Nat.not_lt.mpr hcount)]
  refine Prog.Succeeds.bind (Q := fun (_ : Unit) (w : Dataplane) => w.Within devices indexes)
    (Prog.Succeeds.pure fun _ hw => hw) fun _ => ?_
  refine Prog.Succeeds.bind (Q := fun (_ : List UInt32) (w : Dataplane) => w.Within devices indexes)
    (Prog.Succeeds.collect (I := fun _ (w : Dataplane) => w.Within devices indexes) fun iface rest hrest => ?_)
    fun configured => ?_
  · have hiface := hrest.subset List.mem_cons_self
    obtain ⟨l2Hlen, hlen⟩ := Option.isSome_iff_exists.mp (hsupported iface hiface)
    exact (configureUplink_succeeds hcalm (hdevices iface hiface) hlen (hmem iface hiface) hroom).bind fun _ =>
      Prog.Succeeds.pure fun _ hw => hw
  · -- each stale row is there when its turn comes, since no index comes twice
    let Left : List UInt32 → Dataplane → Prop := fun rest w => w.devices = devices ∧ rest.Nodup ∧
      ∀ ifindex ∈ rest, (w.uplinkConfig.lookup ifindex).isSome
    refine op_succeeds (R := fun existing => Left (staleUplinkIfindexes existing configured)) hcalm
      (fun w n hw => hw.counted n) (fun w hw => ⟨_, rfl, hw.devices, w.uplinkConfig.keys_nodup.filter _, ?_⟩) ?_
    · intro ifindex hstale
      rw [AList.lookup_isSome]
      exact AList.mem_keys.mpr (List.mem_filter.mp hstale).1
    · -- the rows left to delete are the ones still there
      refine fun existing => (Prog.Succeeds.forEach (I := Left) fun ifindex rest _ => ?_).weaken (fun _ hw => hw)
        fun _ _ hw => hw.1
      refine last_succeeds hcalm (fun _ _ hw => hw) fun w hw => ⟨(), ?_⟩
      obtain ⟨hdev, hnodup, hthere⟩ := hw
      have hsome := hthere ifindex List.mem_cons_self
      have hne : w.uplinkConfig.lookup ifindex ≠ none := Option.isSome_iff_ne_none.mp hsome
      obtain ⟨hnot, hrestNodup⟩ := List.nodup_cons.mp hnodup
      simp only [if_neg hne]
      refine ⟨trivial, hdev, hrestNodup, fun i hi => ?_⟩
      show ((w.uplinkConfig.erase ifindex).lookup i).isSome
      rw [Table.lookup_erase_ite, if_neg]
      · exact hthere i (List.mem_cons_of_mem _ hi)
      · rintro rfl
        exact hnot hi

/-- `CONFIG` is written, and has no part in the rows. -/
theorem populateConfig_succeeds {geneveIface : Iface} (hcalm : c.Calm) (flowHashSeed : UInt64)
    (hdevice : devices.lookup geneveIface = some device) :
    Prog.Succeeds (Dataplane.Within · devices indexes) (c.populateConfig geneveIface flowHashSeed)
      fun _ w => w.Within devices indexes := by
  unfold AttachCourse.populateConfig AttachCourse.ifaceIndex
  refine Prog.Succeeds.bind (sysfs_succeeds hcalm hdevice) fun geneveIfindex => ?_
  refine op_succeeds (R := fun _ w => w.Within devices indexes) hcalm (fun w n hw => ⟨hw.1, hw.2.counted n⟩)
    (fun w hw => ⟨_, rfl, hw.2⟩) fun existing => ?_
  exact last_succeeds hcalm (fun w n hw => hw.counted n) fun w hw => ⟨(), rfl, hw.devices, hw.rows⟩

/-- An interface that has a device is attached, whatever is pinned for it. -/
theorem attachIface_succeeds (hcalm : c.Calm) (hdevice : devices.lookup iface = some device) :
    Prog.Succeeds (fun w => w.devices = devices) (c.attachIface classifier attachType iface)
      fun _ w => w.devices = devices := by
  let path := linkPinPath classifier.name iface
  unfold AttachCourse.attachIface
  refine Prog.Succeeds.bind (Q := fun fresh w => w.devices = devices ∧ (fresh = true → w.linkPins path = none)) ?_ ?_
  · -- what the pin says: no link, a link with a device, or a severed one
    unfold AttachCourse.reusePinned
    refine Prog.Succeeds.bind (Q := fun r w => w.devices = devices ∧
      ((∃ link, r = .ok link ∧ w.linkPins path = some link) ∨ r = .error ⟨some enoent⟩ ∧ w.linkPins path = none))
      (kernelOp_succeeds hcalm (fun _ _ hw => hw) fun w hw => ⟨hw, ?_⟩) fun r => ?_
    · cases hpin : w.linkPins path with
      | none => exact Or.inr ⟨rfl, rfl⟩
      | some link => exact Or.inl ⟨link, rfl, rfl⟩
    rintro w ⟨hdev, ⟨link, rfl, hpin⟩ | ⟨rfl, hnone⟩⟩
    · -- pinned: the classifier is swapped, or the link is severed
      refine Prog.Succeeds.bind (P := fun w => w.devices = devices ∧ w.linkPins path = some link)
        (Q := fun r w => w.devices = devices ∧
          (r = .ok () ∨ r = .error ⟨some 67⟩ ∧ w.linkPins path = some link)) ?_ (fun r => ?_) w ⟨hdev, hpin⟩
      · refine kernelOp_succeeds hcalm (fun _ _ hw => hw) fun w hw => ?_
        have hpinned : w.linkPins (linkPinPath classifier.name iface) = some link := hw.2
        simp only [hpinned]
        cases link.device with
        | none => exact ⟨hw.1, Or.inr ⟨rfl, hpinned⟩⟩
        | some _ => exact ⟨hw.1, Or.inl rfl⟩
      · rintro w ⟨hdev, rfl | ⟨rfl, hpin⟩⟩
        · exact Prog.Succeeds.pure (P := fun w => w.devices = devices) (fun _ hw => ⟨hw, nofun⟩) w hdev
        · refine op_succeeds (P := fun w => w.devices = devices ∧ w.linkPins path = some link)
            (R := fun _ w => w.devices = devices ∧ w.linkPins path = none)
            (Q := fun fresh w => w.devices = devices ∧ (fresh = true → w.linkPins path = none)) hcalm
            (fun _ _ hw => hw) (fun w hw => ⟨(), ?_⟩) (fun _ => Prog.Succeeds.pure fun _ hw => ⟨hw.1, fun _ => hw.2⟩) w
            ⟨hdev, hpin⟩
          have hpinned : w.linkPins (linkPinPath classifier.name iface) = some link := hw.2
          simp only [hpinned]
          exact ⟨trivial, hw.1, Function.update_self ..⟩
    · exact Prog.Succeeds.pure (P := fun w => w.devices = devices ∧ w.linkPins path = none)
        (fun _ hw => ⟨hw.1, fun _ => hw.2⟩) w ⟨hdev, hnone⟩
  · intro fresh
    cases fresh with
    | false => exact Prog.Succeeds.pure fun _ hw => hw.1
    | true =>
      simp only [if_true]
      -- only where the path is free is a new link attached and pinned
      unfold AttachCourse.attachFresh
      refine op_succeeds (R := fun _ w => w.devices = devices ∧ w.linkPins path = none) hcalm (fun _ _ hw => hw)
        (fun w hw => ⟨(), ?_⟩) fun _ => ?_
      · simp only [hw.1, hdevice]
        exact ⟨trivial, trivial, hw.2 trivial⟩
      · refine last_succeeds hcalm (fun _ _ hw => hw) fun w hw => ⟨(), ?_⟩
        have hnone : w.linkPins (linkPinPath classifier.name iface) = none := hw.2
        simp only [hnone]
        exact ⟨trivial, hw.1⟩

/-- A hook is attached on interfaces that all have devices, with the program pinned anew. -/
theorem attachAndPin_succeeds {ifaces : List Iface} (hcalm : c.Calm)
    (hdevices : ∀ iface ∈ ifaces, (devices.lookup iface).isSome) :
    Prog.Succeeds (fun w => w.devices = devices) (c.attachAndPin classifier ifaces attachType)
      fun _ w => w.devices = devices := by
  unfold AttachCourse.attachAndPin AttachCourse.pinProgram
  refine op_succeeds (R := fun _ w => w.devices = devices) hcalm (fun _ _ hw => hw) (fun w hw => ⟨(), rfl, hw⟩) ?_
  intro _
  refine Prog.Succeeds.bind (Q := fun (_ : Unit) (w : Dataplane) => w.devices = devices)
    (Prog.Succeeds.forEach (I := fun _ (w : Dataplane) => w.devices = devices) fun iface rest hrest => ?_) fun _ => ?_
  · obtain ⟨device, hdevice⟩ := Option.isSome_iff_exists.mp (hdevices iface (hrest.subset List.mem_cons_self))
    exact attachIface_succeeds hcalm hdevice
  · refine Prog.Succeeds.bind (Q := fun _ w => w.devices = devices ∧ w.progPins (progPinPath classifier.name) = none)
      (kernelOp_succeeds hcalm (fun _ _ hw => hw) fun w hw => ⟨hw, Function.update_self ..⟩) fun _ => ?_
    refine last_succeeds hcalm (fun _ _ hw => hw) fun w hw => ⟨(), ?_⟩
    simp only [hw.2]
    exact ⟨trivial, hw.1⟩

end

/-- A start that finds room and is not refused anything. -/
theorem BringUp.prog_succeeds {s : BringUp} {w : Dataplane} {device : Iface → Device} (hcalm : s.course.Calm)
    (hgeneve : (w.devices.lookup s.geneveIface).isSome) (hcount : s.uplinkIfaces.length ≤ uplinkConfigCapacity)
    (hdevices : ∀ iface ∈ s.uplinkIfaces, w.devices.lookup iface = some (device iface))
    (hsupported : ∀ iface ∈ s.uplinkIfaces, (uplinkL2HeaderLen (device iface).arphrd).isSome)
    (hroom : (w.rowsInUse s.uplinkIfaces device).card ≤ uplinkConfigCapacity) : (s.outcome w).result = .ok () := by
  obtain ⟨geneve, hgeneve⟩ := Option.isSome_iff_exists.mp hgeneve
  have hmem : ∀ iface ∈ s.uplinkIfaces, (device iface).ifindex ∈ w.rowsInUse s.uplinkIfaces device := fun iface hiface =>
    Finset.mem_union_right _ (List.mem_toFinset.mpr (List.mem_map_of_mem hiface))
  have hprog : Prog.Succeeds (Dataplane.Within · w.devices (w.rowsInUse s.uplinkIfaces device)) s.prog
      fun _ w' => w'.devices = w.devices := by
    unfold prog
    refine (populateConfig_succeeds hcalm s.flowHashSeed hgeneve).bind fun _ => ?_
    refine (populateUplinkConfig_succeeds hcalm hcount hdevices hsupported hmem hroom).bind fun _ => ?_
    refine Prog.Succeeds.forEach (I := fun _ (w' : Dataplane) => w'.devices = w.devices) ?_
    rintro ⟨name, ifaces, attachType⟩ rest hrest
    refine attachAndPin_succeeds hcalm fun iface hiface => ?_
    have hhook := hrest.subset List.mem_cons_self
    simp only [hooks, List.mem_cons, Prod.mk.injEq, List.not_mem_nil, or_false] at hhook
    -- the two hooks of the uplinks, and the one of the Geneve device
    rcases hhook with ⟨-, rfl, -⟩ | ⟨-, rfl, -⟩ | ⟨-, rfl, -⟩
    · rw [hdevices iface hiface]
      rfl
    · rw [List.mem_singleton.mp hiface, hgeneve]
      rfl
    · rw [hdevices iface hiface]
      rfl
  obtain ⟨_, _, hends, -⟩ := hprog { w with done := 0 } ⟨rfl, fun ifindex hrow =>
    Finset.mem_union_left _ (List.mem_toFinset.mpr (Table.mem_keys_of_isSome hrow))⟩
  exact hends.1

/-- **Room decides**: with more rows in use than there is room for, old and new ones together, as long as every start lists
    these uplinks and they keep their devices, no start ever completes, whatever becomes of those before it; otherwise a
    start completes that has its devices and that nothing else stands in the way of. -/
theorem Dataplane.room_decides_start {w : Dataplane} {s : BringUp} {device : Iface → Device} (hdistinct : w.Distinct)
    (hbounded : w.uplinkConfig.entries.length ≤ uplinkConfigCapacity)
    (hdevices : ∀ iface ∈ s.uplinkIfaces, w.devices.lookup iface = some (device iface)) :
    (uplinkConfigCapacity < (w.rowsInUse s.uplinkIfaces device).card →
      ∀ events : List AttachEvent, (∀ e ∈ events, e.Relists s.uplinkIfaces) →
        ∀ s' : BringUp, (AttachEvent.start s').Relists s.uplinkIfaces → ¬ s'.Completes (w.run events)) ∧
    ((w.rowsInUse s.uplinkIfaces device).card ≤ uplinkConfigCapacity →
      s.course.Calm → (w.devices.lookup s.geneveIface).isSome → s.uplinkIfaces.length ≤ uplinkConfigCapacity →
      (∀ iface ∈ s.uplinkIfaces, (uplinkL2HeaderLen (device iface).arphrd).isSome) → (s.outcome w).result = .ok ()) := by
  constructor
  · intro hcard events hevents s' hs' hcompletes
    have hcrowded : w.Crowded w.uplinkConfig.keys s.uplinkIfaces device :=
      ⟨⟨hdistinct, hdevices⟩, fun i hi => AList.lookup_isSome.mpr (AList.mem_keys.mpr hi), hbounded⟩
    have hrun := hcrowded.run hevents hcard
    exact (BringUp.prog_crowded hs' hcard).ends { w.run events with done := 0 }
      ⟨⟨hrun.devices.distinct, hrun.devices.lookup⟩, hrun.old, hrun.bounded⟩ () hcompletes.2
  · intro hroom hcalm hgeneve hcount hsupported
    exact BringUp.prog_succeeds hcalm hgeneve hcount hdevices hsupported hroom

/-- Rows for eight indexes that no uplink has. -/
def fullRows : Table UInt32 UplinkConfig :=
  ([10, 11, 12, 13, 14, 15, 16, 17] : List UInt32).foldl (fun rows ifindex => rows.insert ifindex ⟨14⟩) ∅

/-- Where no row is free, a start with two uplinks fails, and so does the next. -/
theorem room_decides_start_full :
    ¬ (wiredStart 1 (fun _ => []) none).Completes
      ({ wiredNode with uplinkConfig := fullRows }.run [.start (wiredStart 0 (fun _ => []) none)]) := by
  let device : Iface → Device := fun iface => if iface = ['e'] then ⟨2, arphrdEther⟩ else ⟨3, 0xFFFE⟩
  have hcalm : ∀ load, (AttachEvent.start (wiredStart load (fun _ => []) none)).Relists [['e'], ['w']] :=
    fun _ => ⟨rfl, fun _ _ _ _ hnil => nomatch hnil⟩
  refine (@Dataplane.room_decides_start { wiredNode with uplinkConfig := fullRows } (wiredStart 0 (fun _ => []) none)
    device distinct_wiredNode (by decide) ?_).1 (by decide) _ ?_ _ (hcalm 1)
  · intro iface hmem
    simp only [wiredStart, List.mem_cons, List.not_mem_nil, or_false] at hmem
    rcases hmem with rfl | rfl <;> rfl
  · intro e he
    rw [List.mem_singleton.mp he]
    exact hcalm 0

end Beep
