import Beep.Controller.Ingress
import Mathlib.Data.List.Nodup

/-!
# `Controller.Correctness.IngressMerge` — the correction of an ingress list

`merged_ingress` as an operation on lists: when it finds nothing to do, that its result is such a list, what it leaves alone
and what it adds, and that the corrections of two nodes commute up to the order of the entries. So nodes with addresses of
their own do not patch each other's list for ever.
-/

namespace Beep

open Json (Value)

/-- The list after a correction; with `None` it stays. -/
def mergeIngress (ownIps desiredIps : List IpAddr) (existing : List Value) : List Value :=
  (mergedIngress existing ownIps desiredIps).getD existing

/-- The entry is of none of these addresses: it has another one, or none. -/
def isForeign (ownIps : List IpAddr) (entry : Value) : Bool :=
  match entryIp entry with
  | some ip => !showsAs ownIps ip
  | none => true

section
variable {existing : List Value} {ownIps desiredIps : List IpAddr}

theorem isForeign_iff {entry : Value} :
    isForeign ownIps entry = true ↔ ∀ ip ∈ ownIps, entryIp entry ≠ some ip.display := by
  unfold isForeign
  cases hentry : entryIp entry with
  | none => simp
  | some text =>
    simp only [Bool.not_eq_true', showsAs, List.any_eq_false, beq_iff_eq]
    exact forall₂_congr fun ip _ => ⟨fun h heq => h (Option.some_inj.mp heq).symm, fun h heq => h (congrArg some heq.symm)⟩

/-- An entry is dropped only if it is of an address of the node that is not desired. -/
theorem keepsEntry_eq_false {entry : Value} :
    keepsEntry ownIps desiredIps entry = false ↔
      ∃ ip ∈ ownIps, ip ∉ desiredIps ∧ entryIp entry = some ip.display := by
  unfold keepsEntry
  cases hentry : entryIp entry with
  | none => simp
  | some text =>
    simp only [Bool.or_eq_false_iff, Bool.not_eq_false']
    constructor
    · rintro ⟨hown, hundesired⟩
      obtain ⟨ip, hip, hshow⟩ := List.any_eq_true.mp hown
      obtain rfl := beq_iff_eq.mp hshow
      refine ⟨ip, hip, fun h => ?_, rfl⟩
      rw [showsAs_iff.mpr h] at hundesired
      cases hundesired
    · rintro ⟨ip, hip, hundesired, htext⟩
      obtain rfl := Option.some_inj.mp htext
      refine ⟨showsAs_iff.mpr hip, Bool.eq_false_iff.mpr fun h => ?_⟩
      exact hundesired (showsAs_iff.mp h)

theorem keepsEntry_of_foreign {entry : Value} (h : isForeign ownIps entry = true) :
    keepsEntry ownIps desiredIps entry = true := by
  cases hkeeps : keepsEntry ownIps desiredIps entry with
  | true => rfl
  | false =>
    obtain ⟨ip, hip, -, hentry⟩ := keepsEntry_eq_false.mp hkeeps
    exact absurd hentry (isForeign_iff.mp h ip hip)

/-! ## One correction -/

/-- **Nothing to do** is exactly: everything desired is there, and of the node's addresses nothing else. -/
theorem mergedIngress_eq_none_iff :
    mergedIngress existing ownIps desiredIps = none ↔
      (∀ ip ∈ desiredIps, Advertised existing ip) ∧ ∀ ip ∈ ownIps, Advertised existing ip → ip ∈ desiredIps := by
  obtain ⟨added, -, hadded, -, hnone⟩ := mergedIngress_spec existing ownIps desiredIps
  rw [hnone, and_comm]
  refine and_congr ?_ ?_
  · rw [List.eq_nil_iff_forall_not_mem]
    refine forall_congr' fun ip => ?_
    rw [hadded, not_and, not_not]
  · rw [List.filter_eq_self]
    constructor
    · rintro hkept ip hown ⟨entry, hentry, hip⟩
      by_contra hundesired
      have hdropped := keepsEntry_eq_false.mpr ⟨ip, hown, hundesired, hip⟩
      rw [hkept entry hentry] at hdropped
      cases hdropped
    · intro hall entry hentry
      cases hkeeps : keepsEntry ownIps desiredIps entry with
      | true => rfl
      | false =>
        obtain ⟨ip, hown, hundesired, hip⟩ := keepsEntry_eq_false.mp hkeeps
        exact absurd (hall ip hown ⟨entry, hentry, hip⟩) hundesired

/-- A corrected list is right. -/
theorem mergedIngress_mergeIngress :
    mergedIngress (mergeIngress ownIps desiredIps existing) ownIps desiredIps = none := by
  refine mergedIngress_eq_none_iff.mpr ⟨fun ip hip => ?_, fun ip hown h => ?_⟩
  · exact advertised_of_desired existing ownIps hip
  · exact (advertised_merged existing desiredIps hown).mp h

/-- What was missing is there once. -/
theorem filter_mergeIngress_added {ip : IpAddr} (hip : ip ∈ desiredIps) (hnew : ¬ Advertised existing ip) :
    (mergeIngress ownIps desiredIps existing).filter (fun entry => entryIp entry = some ip.display) =
      [ipEntry ip.display] := by
  obtain ⟨added, hnodup, hadded, hlist, -⟩ := mergedIngress_spec existing ownIps desiredIps
  unfold mergeIngress
  rw [hlist, List.filter_append]
  have hbefore : (existing.filter (keepsEntry ownIps desiredIps)).filter
      (fun entry => entryIp entry = some ip.display) = [] := by
    refine List.filter_eq_nil_iff.mpr fun entry hentry htext => ?_
    exact hnew ⟨entry, (List.mem_filter.mp hentry).1, of_decide_eq_true htext⟩
  have hsame : ∀ a : IpAddr, decide (entryIp (ipEntry a.display) = some ip.display) = decide (a = ip) := by
    intro a
    rw [decide_eq_decide, entryIp_ipEntry, Option.some_inj]
    exact ⟨fun h => IpAddr.display_injective h, congrArg IpAddr.display⟩
  rw [hbefore, List.nil_append, List.filter_map, Function.comp_def]
  simp only [hsame]
  have hone : added.filter (fun a => decide (a = ip)) = [ip] := by
    have hmem := (hadded ip).mpr ⟨hip, hnew⟩
    rw [List.filter_eq, List.count_eq_one_of_mem hnodup hmem]
    rfl
  rw [hone]
  rfl

end

/-! ## Two corrections -/

section
variable {existing : List Value} {own₁ desired₁ own₂ desired₂ : List IpAddr}

/-- A correction leaves what a list says of the addresses of others. -/
theorem advertised_mergeIngress_of_foreign (hdesired : ∀ ip ∈ desired₁, ip ∈ own₁) {ip : IpAddr} (hforeign : ip ∉ own₁) :
    Advertised (mergeIngress own₁ desired₁ existing) ip ↔ Advertised existing ip := by
  obtain ⟨added, -, hadded, hlist, -⟩ := mergedIngress_spec existing own₁ desired₁
  unfold mergeIngress
  rw [hlist, advertised_append]
  constructor
  · rintro (⟨entry, hentry, hip⟩ | hip)
    · exact ⟨entry, (List.mem_filter.mp hentry).1, hip⟩
    · exact absurd (hdesired ip ((hadded ip).mp hip).1) hforeign
  · rintro ⟨entry, hentry, hip⟩
    refine Or.inl ⟨entry, List.mem_filter.mpr ⟨hentry, ?_⟩, hip⟩
    refine keepsEntry_of_foreign (isForeign_iff.mpr fun own hown hsame => ?_)
    rw [hip] at hsame
    exact hforeign (IpAddr.display_injective (Option.some_inj.mp hsame) ▸ hown)

variable (existing) in
/-- **One correction behind another of other addresses**: what both keep, what the first adds and what the second adds, as
    if it were the only one. -/
theorem mergeIngress_mergeIngress (hdesired₁ : ∀ ip ∈ desired₁, ip ∈ own₁) (hdesired₂ : ∀ ip ∈ desired₂, ip ∈ own₂)
    (hdisjoint : ∀ ip ∈ own₁, ip ∉ own₂) :
    ∃ added₁ added₂ : List IpAddr, added₁.Nodup ∧ added₂.Nodup ∧
      (∀ ip, ip ∈ added₁ ↔ ip ∈ desired₁ ∧ ¬ Advertised existing ip) ∧
      (∀ ip, ip ∈ added₂ ↔ ip ∈ desired₂ ∧ ¬ Advertised existing ip) ∧
      mergeIngress own₂ desired₂ (mergeIngress own₁ desired₁ existing) =
        existing.filter (fun entry => keepsEntry own₁ desired₁ entry && keepsEntry own₂ desired₂ entry) ++
          added₁.map (fun ip => ipEntry ip.display) ++ added₂.map (fun ip => ipEntry ip.display) := by
  obtain ⟨added₁, hnodup₁, hadded₁, hlist₁, -⟩ := mergedIngress_spec existing own₁ desired₁
  obtain ⟨added₂, hnodup₂, hadded₂, hlist₂, -⟩ :=
    mergedIngress_spec (mergeIngress own₁ desired₁ existing) own₂ desired₂
  refine ⟨added₁, added₂, hnodup₁, hnodup₂, hadded₁, fun ip => ?_, ?_⟩
  · rw [hadded₂]
    refine and_congr_right fun hip => not_congr ?_
    exact advertised_mergeIngress_of_foreign hdesired₁ fun hown => hdisjoint ip hown (hdesired₂ ip hip)
  · -- what the first adds is foreign to the second
    have hkept : (added₁.map fun ip => ipEntry ip.display).filter (keepsEntry own₂ desired₂) =
        added₁.map fun ip => ipEntry ip.display := by
      refine List.filter_eq_self.mpr fun entry hentry => ?_
      obtain ⟨ip, hip, rfl⟩ := List.mem_map.mp hentry
      refine keepsEntry_of_foreign (isForeign_iff.mpr fun own hown hsame => ?_)
      have hown₁ := hdesired₁ ip ((hadded₁ ip).mp hip).1
      rw [IpAddr.display_injective (Option.some_inj.mp hsame)] at hown₁
      exact hdisjoint own hown₁ hown
    show (mergedIngress (mergeIngress own₁ desired₁ existing) own₂ desired₂).getD _ = _
    rw [hlist₂]
    refine congrArg (· ++ _) ?_
    show ((mergedIngress existing own₁ desired₁).getD existing).filter _ = _
    rw [hlist₁, List.filter_append, List.filter_filter, hkept]
    refine congrArg (· ++ _) (List.filter_congr fun entry _ => Bool.and_comm _ _)

/-- **The corrections of two nodes commute**, up to the order of what they add. -/
theorem mergeIngress_comm (hdesired₁ : ∀ ip ∈ desired₁, ip ∈ own₁) (hdesired₂ : ∀ ip ∈ desired₂, ip ∈ own₂)
    (hdisjoint : ∀ ip ∈ own₁, ip ∉ own₂) :
    (mergeIngress own₂ desired₂ (mergeIngress own₁ desired₁ existing)).Perm
      (mergeIngress own₁ desired₁ (mergeIngress own₂ desired₂ existing)) := by
  obtain ⟨a₁, a₂, hn₁, hn₂, ha₁, ha₂, hlist⟩ := mergeIngress_mergeIngress existing hdesired₁ hdesired₂ hdisjoint
  obtain ⟨b₂, b₁, hm₂, hm₁, hb₂, hb₁, hlist'⟩ := mergeIngress_mergeIngress existing hdesired₂ hdesired₁
    fun ip h₂ h₁ => hdisjoint ip h₁ h₂
  rw [hlist, hlist', List.append_assoc, List.append_assoc]
  have hfirst : a₁.Perm b₁ := (List.perm_ext_iff_of_nodup hn₁ hm₁).mpr fun ip => (ha₁ ip).trans (hb₁ ip).symm
  have hsecond : a₂.Perm b₂ := (List.perm_ext_iff_of_nodup hn₂ hm₂).mpr fun ip => (ha₂ ip).trans (hb₂ ip).symm
  refine List.Perm.append (List.Perm.of_eq (List.filter_congr fun entry _ => Bool.and_comm _ _)) ?_
  exact ((hfirst.map _).append (hsecond.map _)).trans List.perm_append_comm

end

/-- **The algebra of the correction.** -/
theorem ingress_merge_algebra (existing : List Value) (ownIps desiredIps : List IpAddr)
    (hdesired : ∀ ip ∈ desiredIps, ip ∈ ownIps) :
    (mergedIngress existing ownIps desiredIps = none ↔
      (∀ ip ∈ desiredIps, Advertised existing ip) ∧ ∀ ip ∈ ownIps, Advertised existing ip → ip ∈ desiredIps) ∧
    (∀ merged, mergedIngress existing ownIps desiredIps = some merged →
      mergedIngress merged ownIps desiredIps = none ∧
      merged.filter (isForeign ownIps) = existing.filter (isForeign ownIps) ∧
      (∀ ip ∈ desiredIps, Advertised merged ip) ∧
      ∀ ip ∈ desiredIps, ¬ Advertised existing ip →
        merged.filter (fun entry => entryIp entry = some ip.display) = [ipEntry ip.display]) ∧
    ∀ otherOwn otherDesired, (∀ ip ∈ otherDesired, ip ∈ otherOwn) → (∀ ip ∈ ownIps, ip ∉ otherOwn) →
      (mergeIngress otherOwn otherDesired (mergeIngress ownIps desiredIps existing)).Perm
        (mergeIngress ownIps desiredIps (mergeIngress otherOwn otherDesired existing)) := by
  refine ⟨mergedIngress_eq_none_iff, fun merged hmerged => ?_, fun otherOwn otherDesired hother hdisjoint => ?_⟩
  · have hlist : mergeIngress ownIps desiredIps existing = merged := by
      unfold mergeIngress
      rw [hmerged, Option.getD_some]
    rw [← hlist]
    refine ⟨mergedIngress_mergeIngress, ?_, fun ip hip => ?_, fun ip hip => filter_mergeIngress_added hip⟩
    · exact filter_merged existing hdesired fun entry => isForeign_iff.mp
    · exact advertised_of_desired existing ownIps hip
  · exact mergeIngress_comm hdesired hother hdisjoint

/-- A list with a host name, the address of another node and one that this node fronts no longer. -/
theorem ingress_merge_algebra_three_entries :
    mergedIngress [.obj [("hostname", .str "lb")], ipEntry "10.0.0.9", ipEntry "10.0.0.1"]
        [.v4 0x0a000001, .v4 0x0a000002] [.v4 0x0a000002] =
      some [.obj [("hostname", .str "lb")], ipEntry "10.0.0.9", ipEntry "10.0.0.2"] ∧
    mergedIngress [.obj [("hostname", .str "lb")], ipEntry "10.0.0.9", ipEntry "10.0.0.2"]
        [.v4 0x0a000001, .v4 0x0a000002] [.v4 0x0a000002] = none := by
  have hmerged : mergedIngress [.obj [("hostname", .str "lb")], ipEntry "10.0.0.9", ipEntry "10.0.0.1"]
      [.v4 0x0a000001, .v4 0x0a000002] [.v4 0x0a000002] =
        some [.obj [("hostname", .str "lb")], ipEntry "10.0.0.9", ipEntry "10.0.0.2"] := by
    rfl
  exact ⟨hmerged, ((ingress_merge_algebra _ _ _ (by decide)).2.1 _ hmerged).1⟩

end Beep
