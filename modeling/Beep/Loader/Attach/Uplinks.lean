import Beep.Loader.Attach.Links

/-!
# `Loader.Attach.Uplinks` — the rows of the uplinks

`populate_uplink_config` writes one row for each interface it is given, under the index the interface has at that moment,
and only then deletes the rows of the indexes it did not come across.

* the row of a given uplink, once there, is never absent (`populateUplinkConfig_row`);
* when it is through, the rows are those of the given uplinks and no others (`populateUplinkConfig_exact`).
-/

namespace Beep

open Crash

section
variable {c : AttachCourse} {iface : Iface} {F : UInt32 → Prop} {G : UInt16 → Prop} {P : Dataplane → Prop}

/-- One row, when it is written. -/
theorem configureUplink_triple {Q : UInt32 → Dataplane → Prop} {C : Dataplane → Prop} (hstable : c.Stable P)
    (hP : ∀ w, P w → C w) (hifindex : ∀ w device, P w → w.devices.lookup iface = some device → F device.ifindex)
    (harphrd : ∀ w device, P w → w.devices.lookup iface = some device → G device.arphrd)
    (hinsert : ∀ w ifindex arphrd l2Hlen, P w → F ifindex → G arphrd → uplinkL2HeaderLen arphrd = some l2Hlen →
      ¬ (w.uplinkConfig.lookup ifindex = none ∧ uplinkConfigCapacity ≤ w.uplinkConfig.entries.length) →
      Q ifindex { w with uplinkConfig := w.uplinkConfig.insert ifindex ⟨l2Hlen⟩ })
    (hQ : ∀ ifindex w, Q ifindex w → C w) : Triple P (c.configureUplink iface) Q C := by
  unfold AttachCourse.configureUplink AttachCourse.ifaceIndex AttachCourse.ifaceArphrdType
  refine Triple.bind (R := fun ifindex w => F ifindex ∧ P w) (sysfs_triple hstable hP
    (fun w hw device hlookup => ⟨hifindex w device hw hlookup, hw⟩) fun _ w hw => hP w hw.2) fun ifindex => ?_
  refine Triple.of_fact fun hF => ?_
  refine Triple.bind (R := fun arphrd w => G arphrd ∧ P w) (sysfs_triple hstable hP
    (fun w hw device hlookup => ⟨harphrd w device hw hlookup, hw⟩) fun _ w hw => hP w hw.2) fun arphrd => ?_
  refine Triple.of_fact fun hG => ?_
  unfold uplinkL2HlenOrErr
  cases hlen : uplinkL2HeaderLen arphrd with
  | none => exact Triple.fail_bind hP
  | some l2Hlen =>
    refine Triple.bind (R := fun l w => l = l2Hlen ∧ P w) (Triple.pure fun _ hw => ⟨rfl, hw⟩) fun l => ?_
    refine Triple.of_fact fun hl => ?_
    subst hl
    refine op_bind (R := fun _ w => Q ifindex w) hstable hP ?_ ?_ (fun _ w hw => hQ _ w hw) fun _ =>
      Triple.pure fun _ hw => hw
    · intro w hw e he
      split_ifs with hfull
      · exact hP w hw
      · exact hQ _ _ (hinsert w ifindex arphrd l hw hF hG hlen hfull)
    · intro w hw _ hok
      split_ifs at hok ⊢ with hfull
      exact hinsert w ifindex arphrd l hw hF hG hlen hfull

/-- The deletions: `J` says what holds while the given rows are still to go. -/
theorem removeUplinks_triple {J : List UInt32 → Dataplane → Prop} {C : Dataplane → Prop} {stale : List UInt32}
    (hJ : ∀ rest, c.Stable (J rest)) (hdelete : ∀ ifindex rest w, ifindex ∈ stale → J (ifindex :: rest) w →
      J rest { w with uplinkConfig := w.uplinkConfig.erase ifindex }) (hJC : ∀ rest w, J rest w → C w) :
    Triple (J stale) (Prog.forEach (fun ifindex => do orFail "" (← c.removeUplink ifindex)) stale) (fun _ => J []) C := by
  refine Triple.forEach fun ifindex rest hrest => op_triple (hJ _) (hJC _) ?_ ?_ fun _ => hJC rest
  · intro w hw e he
    split_ifs
    · exact hJC _ w hw
    · exact hJC _ _ (hdelete ifindex rest w (hrest.subset List.mem_cons_self) hw)
  · intro w hw _ hok
    split_ifs at hok ⊢
    exact hdelete ifindex rest w (hrest.subset List.mem_cons_self) hw

/-- **The rows**: `R` says what holds when the given rows are written, `J` while stale ones are still to go. -/
theorem populateUplinkConfig_triple {uplinkIfaces : List Iface} {R : List UInt32 → Dataplane → Prop}
    {J : List UInt32 → List UInt32 → Dataplane → Prop} {C : Dataplane → Prop} (hP : ∀ w, P w → C w)
    (hwrite : uplinkIfaces.length ≤ uplinkConfigCapacity →
      Triple P (Prog.collect (fun iface => some <$> c.configureUplink iface) uplinkIfaces) R C)
    (hR : ∀ configured, c.Stable (R configured))
    (hread : ∀ configured w, R configured w → J configured (staleUplinkIfindexes w.uplinkConfig.keys configured) w)
    (hJ : ∀ configured rest, c.Stable (J configured rest))
    (hdelete : ∀ configured ifindex rest w, ifindex ∉ configured → J configured (ifindex :: rest) w →
      J configured rest { w with uplinkConfig := w.uplinkConfig.erase ifindex })
    (hJC : ∀ configured rest w, J configured rest w → C w) :
    Triple P (c.populateUplinkConfig uplinkIfaces) (fun _ w => ∃ configured, J configured [] w) C := by
  unfold AttachCourse.populateUplinkConfig checkUplinkCount
  split_ifs with hcount
  · exact Triple.fail_bind hP
  refine Triple.bind (Triple.pure fun _ hw => hw) fun _ => Triple.bind (hwrite (Nat.le_of_not_lt hcount)) ?_
  intro configured
  have hRC : ∀ w, R configured w → C w := fun w hw => hJC _ _ w (hread configured w hw)
  refine op_bind (R := fun existing w => J configured (staleUplinkIfindexes existing configured) w) (hR configured) hRC
    (fun w hw _ _ => hRC w hw) ?_ (fun _ w hw => hJC _ _ w hw) fun existing => ?_
  · intro w hw existing hok
    cases hok
    exact hread configured w hw
  · refine (removeUplinks_triple (hJ configured) ?_ (hJC configured)).post fun _ w hw => ⟨configured, hw⟩
    intro ifindex rest w hmem
    refine hdelete configured ifindex rest w ?_
    exact of_decide_eq_true (List.mem_filter.mp hmem).2

/-- Rows come and go, and nothing else. -/
theorem populateUplinkConfig_keeps (hstable : c.Stable P) (hrows : ∀ w uplinkConfig, P w → P { w with uplinkConfig })
    (uplinkIfaces : List Iface) : Triple P (c.populateUplinkConfig uplinkIfaces) (fun _ => P) P := by
  refine (populateUplinkConfig_triple (R := fun _ => P) (J := fun _ _ => P) (fun _ hw => hw) (fun _ => ?_)
    (fun _ => hstable) (fun _ _ hw => hw) (fun _ _ => hstable) (fun _ _ _ w _ hw => hrows w _ hw)
    fun _ _ _ hw => hw).post fun _ _ ⟨_, hw⟩ => hw
  refine Triple.collect (I := fun _ _ => P) (fun iface _ _ _ => ?_) []
  refine Triple.bind (R := fun _ => P) ?_ fun _ => Triple.pure fun _ hw => hw
  exact configureUplink_triple (F := fun _ => True) (G := fun _ => True) hstable (fun _ hw => hw)
    (fun _ _ _ _ => trivial) (fun _ _ _ _ => trivial) (fun w _ _ _ hw _ _ _ _ => hrows w _ hw) fun _ _ hw => hw

/-- `CONFIG` is written, and nothing else. -/
theorem populateConfig_keeps (hstable : c.Stable P) (hconfig : ∀ w config, P w → P { w with config })
    (geneveIface : Iface) (flowHashSeed : UInt64) :
    Triple P (c.populateConfig geneveIface flowHashSeed) (fun _ => P) P := by
  unfold AttachCourse.populateConfig AttachCourse.ifaceIndex
  refine Triple.bind (R := fun _ => P) (sysfs_triple hstable (fun _ hw => hw) (fun _ hw _ _ => hw) fun _ _ hw => hw) ?_
  intro geneveIfindex
  refine op_bind (R := fun _ => P) hstable (fun _ hw => hw) (fun _ hw _ _ => hw) (fun _ hw _ _ => hw)
    (fun _ _ hw => hw) fun existing => ?_
  exact op_triple hstable (fun _ hw => hw) (fun w hw _ _ => hconfig w _ hw) (fun w hw _ _ => hconfig w _ hw)
    fun _ _ hw => hw

end

/-! ## The row of an uplink -/

/-- The course leaves a name with its device. -/
def AttachCourse.Spares (c : AttachCourse) (iface : Iface) : Prop := ∀ n, ∀ e ∈ c.before n, ¬ e.Takes iface

namespace Dataplane

/-- The row of a device is there, with the header length of its type. -/
def RowOf (w : Dataplane) (device : Device) : Prop :=
  ∃ l2Hlen, uplinkL2HeaderLen device.arphrd = some l2Hlen ∧ w.uplinkConfig.lookup device.ifindex = some ⟨l2Hlen⟩

/-- The row of another index may go. -/
theorem RowOf.erase {w : Dataplane} {device : Device} {ifindex : UInt32} (h : w.RowOf device)
    (hne : ifindex ≠ device.ifindex) : { w with uplinkConfig := w.uplinkConfig.erase ifindex }.RowOf device := by
  obtain ⟨l2Hlen, hlen, hrow⟩ := h
  refine ⟨l2Hlen, hlen, ?_⟩
  exact (Table.lookup_erase_ite ..).trans ((if_neg hne.symm).trans hrow)

/-- A row that is written for a device with its index is its row. -/
theorem rowOf_insert {w : Dataplane} {device : Device} {ifindex l2Hlen : UInt32} {arphrd : UInt16}
    (hlen : uplinkL2HeaderLen arphrd = some l2Hlen) (h : ifindex ≠ device.ifindex → w.RowOf device)
    (heq : ifindex = device.ifindex → arphrd = device.arphrd) :
    { w with uplinkConfig := w.uplinkConfig.insert ifindex ⟨l2Hlen⟩ }.RowOf device := by
  by_cases hindex : ifindex = device.ifindex
  · refine ⟨l2Hlen, heq hindex ▸ hlen, ?_⟩
    exact (Table.lookup_insert_ite ..).trans (if_pos hindex.symm)
  · obtain ⟨l2Hlen', hlen', hrow⟩ := h hindex
    refine ⟨l2Hlen', hlen', ?_⟩
    exact (Table.lookup_insert_ite ..).trans ((if_neg (Ne.symm hindex)).trans hrow)

end Dataplane

section
variable {c : AttachCourse} {iface : Iface} {device : Device}

/-- The name keeps its device over what the course does. -/
theorem AttachCourse.Spares.has (h : c.Spares iface) : c.Stable (Dataplane.Has · iface device) where
  occur n e he _ hw := (Dataplane.occur_spares hw (h n e he)).1
  counted _ _ hw := ⟨hw.distinct, hw.lookup⟩

/-- The devices have no part in the rows. -/
theorem stable_rowOf : c.Stable (Dataplane.RowOf · device) where
  occur := by
    rintro - e - w ⟨l2Hlen, hlen, hrow⟩
    refine ⟨l2Hlen, hlen, ?_⟩
    rw [(w.occur_rows e).1]
    exact hrow
  counted _ _ hw := hw

/-- **The row of a listed uplink, once there, is never absent.** -/
theorem populateUplinkConfig_row {uplinkIfaces : List Iface} (hspares : c.Spares iface) (hmem : iface ∈ uplinkIfaces) :
    Triple (fun w => w.Has iface device ∧ w.RowOf device) (c.populateUplinkConfig uplinkIfaces)
      (fun _ w => w.Has iface device ∧ w.RowOf device) fun w => w.Has iface device ∧ w.RowOf device := by
  have hstable : c.Stable fun w => w.Has iface device ∧ w.RowOf device := hspares.has.and stable_rowOf
  -- the index of the uplink is still to come, or it has been come across
  let seen : List Iface → List UInt32 → Prop := fun rest sofar => iface ∈ rest ∨ device.ifindex ∈ sofar
  refine (populateUplinkConfig_triple
    (R := fun configured w => (w.Has iface device ∧ w.RowOf device) ∧ device.ifindex ∈ configured)
    (J := fun configured _ w => (w.Has iface device ∧ w.RowOf device) ∧ device.ifindex ∈ configured)
    (fun _ hw => hw) (fun _ => ?_) ?_ (fun _ _ hw => hw) ?_ ?_ fun _ _ _ hw => hw.1).post fun _ _ ⟨_, hw⟩ => hw.1
  · refine (Triple.collect (I := fun rest sofar w => (w.Has iface device ∧ w.RowOf device) ∧ seen rest sofar)
      (fun other rest sofar _ => ?_) []).weaken (fun w hw => ⟨hw, Or.inl hmem⟩) ?_ fun _ hw => hw
    · refine Triple.bind (R := fun ifindex w =>
        (w.Has iface device ∧ w.RowOf device) ∧ seen rest (sofar ++ [ifindex])) ?_ fun _ => Triple.pure fun _ hw => hw
      refine Triple.weaken (P := fun w => seen (other :: rest) sofar ∧ w.Has iface device ∧ w.RowOf device)
        (Triple.of_fact fun hseen => ?_) (fun _ hw => ⟨hw.2, hw.1⟩) (fun _ _ hw => hw) fun _ hw => hw
      refine configureUplink_triple (F := fun ifindex => other = iface ↔ ifindex = device.ifindex)
        (G := fun arphrd => other = iface → arphrd = device.arphrd) hstable (fun _ hw => hw) ?_ ?_ ?_ fun _ _ hw => hw.1
      · intro w found hw hlookup
        refine ⟨?_, fun hindex => hw.1.distinct _ _ _ _ hlookup hw.1.lookup hindex⟩
        rintro rfl
        rw [Option.some_inj.mp (hlookup.symm.trans hw.1.lookup)]
      · rintro w found hw hlookup rfl
        rw [Option.some_inj.mp (hlookup.symm.trans hw.1.lookup)]
      · intro w ifindex arphrd l2Hlen hw hF hG hlen _
        refine ⟨⟨⟨hw.1.distinct, hw.1.lookup⟩, ?_⟩, ?_⟩
        · exact Dataplane.rowOf_insert hlen (fun _ => hw.2) fun hindex => hG (hF.mpr hindex)
        · rcases hseen with hother | hsofar
          · rcases List.mem_cons.mp hother with rfl | hrest
            · exact Or.inr (List.mem_append_right _ (List.mem_singleton.mpr (hF.mp rfl).symm))
            · exact Or.inl hrest
          · exact Or.inr (List.mem_append_left _ hsofar)
    · rintro configured w ⟨hw, hrest | hsofar⟩
      · cases hrest
      · exact ⟨hw, hsofar⟩
  · exact fun configured => hstable.and ⟨fun _ _ _ _ hw => hw, fun _ _ hw => hw⟩
  · exact fun configured _ => hstable.and ⟨fun _ _ _ _ hw => hw, fun _ _ hw => hw⟩
  · rintro configured ifindex - w hstale ⟨⟨hhas, hrow⟩, hmine⟩
    refine ⟨⟨⟨hhas.distinct, hhas.lookup⟩, hrow.erase ?_⟩, hmine⟩
    rintro rfl
    exact hstale hmine

end

/-! ## All rows -/

namespace Dataplane

/-- The names stand for these devices. -/
structure Devices (w : Dataplane) (ifaces : List Iface) (device : Iface → Device) : Prop where
  distinct : w.Distinct
  lookup : ∀ iface ∈ ifaces, w.devices.lookup iface = some (device iface)

/-- Each of the names stands for its device. -/
theorem Devices.has {w : Dataplane} {ifaces : List Iface} {device : Iface → Device} (h : w.Devices ifaces device)
    {iface : Iface} (hmem : iface ∈ ifaces) : w.Has iface (device iface) := ⟨h.distinct, h.lookup iface hmem⟩

/-- The rows are those of the given uplinks. -/
structure RowsOf (w : Dataplane) (ifaces : List Iface) (device : Iface → Device) : Prop where
  present : ∀ iface ∈ ifaces, w.RowOf (device iface)
  only : ∀ ifindex uplink, w.uplinkConfig.lookup ifindex = some uplink → ∃ iface ∈ ifaces, (device iface).ifindex = ifindex

end Dataplane

section
variable {c : AttachCourse} {ifaces uplinkIfaces : List Iface} {device : Iface → Device}

/-- The names keep their devices over what the course does. -/
theorem stable_devices (h : ∀ iface ∈ ifaces, c.Spares iface) : c.Stable (Dataplane.Devices · ifaces device) where
  occur n e he w hw :=
    ⟨hw.distinct.occur e, fun iface hmem => ((h iface hmem).has.occur n e he w (hw.has hmem)).lookup⟩
  counted _ _ hw := ⟨hw.distinct, hw.lookup⟩

/-- **When the rows are written, they are those of the given uplinks.** -/
theorem populateUplinkConfig_exact (hspares : ∀ iface ∈ ifaces, c.Spares iface) (hsub : uplinkIfaces ⊆ ifaces) :
    Triple (Dataplane.Devices · ifaces device) (c.populateUplinkConfig uplinkIfaces)
      (fun _ w => w.Devices ifaces device ∧ w.RowsOf uplinkIfaces device) (Dataplane.Devices · ifaces device) := by
  have hstable : c.Stable (Dataplane.Devices · ifaces device) := stable_devices hspares
  -- the uplinks come across so far have their rows, and theirs are the indexes
  let Written : List Iface → List UInt32 → Dataplane → Prop := fun rest sofar w => w.Devices ifaces device ∧
    (∀ iface ∈ uplinkIfaces, iface ∈ rest ∨ w.RowOf (device iface) ∧ (device iface).ifindex ∈ sofar) ∧
    ∀ ifindex ∈ sofar, ∃ iface ∈ uplinkIfaces, (device iface).ifindex = ifindex
  let Left : List UInt32 → List UInt32 → Dataplane → Prop := fun configured rest w => Written [] configured w ∧
    ∀ ifindex uplink, w.uplinkConfig.lookup ifindex = some uplink → ifindex ∈ configured ∨ ifindex ∈ rest
  have hwritten : ∀ rest sofar, c.Stable (Written rest sofar) := by
    refine fun rest sofar => ⟨fun n e he w hw => ⟨hstable.occur n e he w hw.1, fun iface hmem => ?_, hw.2.2⟩, ?_⟩
    · exact (hw.2.1 iface hmem).imp_right fun hrow => ⟨stable_rowOf.occur n e he w hrow.1, hrow.2⟩
    · exact fun w n hw => ⟨hstable.counted w n hw.1, hw.2⟩
  refine (populateUplinkConfig_triple (R := Written []) (J := Left) (fun _ hw => hw) (fun _ => ?_) (hwritten []) ?_ ?_ ?_
    fun _ _ _ hw => hw.1.1).post ?_
  · refine (Triple.collect (I := Written) (fun other rest sofar hrest => ?_) []).weaken
      (fun w hw => ⟨hw, fun _ hmem => Or.inl hmem, fun _ hnil => nomatch hnil⟩) (fun _ _ hw => hw) fun _ hw => hw
    have hother : other ∈ uplinkIfaces := hrest.subset List.mem_cons_self
    refine Triple.bind (R := fun ifindex => Written rest (sofar ++ [ifindex])) ?_ fun _ => Triple.pure fun _ hw => hw
    refine configureUplink_triple (F := (· = (device other).ifindex)) (G := (· = (device other).arphrd))
      (hwritten _ _) (fun _ hw => hw.1) ?_ ?_ ?_ fun _ _ hw => hw.1
    · intro w found hw hlookup
      rw [Option.some_inj.mp (hlookup.symm.trans (hw.1.lookup other (hsub hother)))]
    · intro w found hw hlookup
      rw [Option.some_inj.mp (hlookup.symm.trans (hw.1.lookup other (hsub hother)))]
    · rintro w _ _ l2Hlen hw rfl rfl hlen -
      refine ⟨⟨hw.1.distinct, hw.1.lookup⟩, fun iface hmem => ?_, fun ifindex hsofar => ?_⟩
      · -- no other uplink has the index that is written
        have hsame : (device other).ifindex = (device iface).ifindex → other = iface :=
          hw.1.distinct _ _ _ _ (hw.1.lookup other (hsub hother)) (hw.1.lookup iface (hsub hmem))
        by_cases heq : other = iface
        · subst heq
          refine Or.inr ⟨Dataplane.rowOf_insert hlen (fun hne => absurd rfl hne) fun _ => rfl, ?_⟩
          exact List.mem_append_right _ (List.mem_singleton.mpr rfl)
        · rcases hw.2.1 iface hmem with hrest | ⟨hrow, hsofar⟩
          · exact Or.inl ((List.mem_cons.mp hrest).resolve_left (Ne.symm heq))
          · refine Or.inr ⟨Dataplane.rowOf_insert hlen (fun _ => hrow) fun hindex => ?_, List.mem_append_left _ hsofar⟩
            exact absurd (hsame hindex) heq
      · rcases List.mem_append.mp hsofar with hold | hnew
        · exact hw.2.2 ifindex hold
        · exact ⟨other, hother, (List.mem_singleton.mp hnew).symm⟩
  · intro configured w hw
    refine ⟨hw, fun ifindex uplink hlookup => ?_⟩
    by_cases hmem : ifindex ∈ configured
    · exact Or.inl hmem
    · refine Or.inr (List.mem_filter.mpr ⟨(Table.mem_keys_iff ..).mpr ⟨uplink, hlookup⟩, ?_⟩)
      exact decide_eq_true hmem
  · intro configured rest
    refine ⟨fun n e he w hw => ⟨(hwritten [] configured).occur n e he w hw.1, ?_⟩, fun w n hw => ?_⟩
    · rw [(w.occur_rows e).1]
      exact hw.2
    · exact ⟨(hwritten [] configured).counted w n hw.1, hw.2⟩
  · rintro configured ifindex rest w hstale ⟨⟨hdevices, hrows, hindexes⟩, hleft⟩
    refine ⟨⟨⟨hdevices.distinct, hdevices.lookup⟩, fun iface hmem => ?_, hindexes⟩, fun i uplink hlookup => ?_⟩
    · rcases hrows iface hmem with hnil | ⟨hrow, hmine⟩
      · cases hnil
      · refine Or.inr ⟨hrow.erase ?_, hmine⟩
        rintro rfl
        exact hstale hmine
    · -- a row that is still there is another one, so it was left before
      simp only [Table.lookup_erase_ite] at hlookup
      split_ifs at hlookup with hi
      rcases hleft i uplink hlookup with hconfigured | hrest
      · exact Or.inl hconfigured
      · exact Or.inr ((List.mem_cons.mp hrest).resolve_left hi)
  · rintro - w ⟨configured, ⟨hdevices, hrows, hindexes⟩, hleft⟩
    refine ⟨hdevices, fun iface hmem => ?_, fun ifindex uplink hlookup => ?_⟩
    · exact ((hrows iface hmem).resolve_left List.not_mem_nil).1
    · exact hindexes ifindex ((hleft ifindex uplink hlookup).resolve_right List.not_mem_nil)

end

end Beep
