import Beep.Loader.PinMigrate.Plan

/-!
# `Loader.PinMigrate.Greedy` — the fronts a restore copies, front by front

`planRestore` goes over the fronts once, with two budgets. What it comes to can be told without the loop, of any two
snapshots that no key occurs in twice (`planRestore_greedy`): which rows a copied front carries, which fronts are
copied, and what is reported.

The facts about the pass are those of first-fit admission over a list in strict order: what was admitted before an
element is what was admitted of the elements below it. That the rows of a front are counted and not looked up is made
good by their keys, which differ in their slots only (`liveRows_fst`, `whole_iff`).
-/

namespace Beep

open StableSort

/-! ## First-fit admission -/

section
variable {α : Type} {fits : List α → α → Prop} [∀ taken x, Decidable (fits taken x)] {taken : List α}

theorem firstFit_append (l l' : List α) : firstFit fits taken (l ++ l') = firstFit fits (firstFit fits taken l) l' := by
  induction l generalizing taken with
  | nil => rfl
  | cons x l ih => exact ih

/-- What is admitted stays, and is some of what was offered, in its order. -/
theorem firstFit_eq_append (l : List α) : ∃ more, more.Sublist l ∧ firstFit fits taken l = taken ++ more := by
  induction l generalizing taken with
  | nil => exact ⟨[], .slnil, (List.append_nil _).symm⟩
  | cons x l ih =>
    rw [firstFit]
    split
    · obtain ⟨more, hmore, heq⟩ := @ih (taken ++ [x])
      exact ⟨x :: more, hmore.cons_cons x, by rw [heq, List.append_assoc]; rfl⟩
    · obtain ⟨more, hmore, heq⟩ := @ih taken
      exact ⟨more, hmore.cons x, heq⟩

/-- What every admission keeps holds of all that is admitted. -/
theorem firstFit_keeps {P : List α → Prop} (hkeep : ∀ taken x, P taken → fits taken x → P (taken ++ [x])) (h : P taken)
    (l : List α) : P (firstFit fits taken l) := by
  induction l generalizing taken with
  | nil => exact h
  | cons x l ih =>
    rw [firstFit]
    split
    · rename_i hfits
      exact ih (hkeep taken x h hfits)
    · exact ih h

/-- An element that is offered once is admitted if it fits when it is offered. -/
theorem mem_firstFit_iff {before after : List α} {x : α} (htaken : x ∉ taken) (hbefore : x ∉ before)
    (hafter : x ∉ after) :
    x ∈ firstFit fits taken (before ++ x :: after) ↔ fits (firstFit fits taken before) x := by
  have hnew : x ∉ firstFit fits taken before := fun h => (mem_firstFit h).elim htaken hbefore
  rw [firstFit_append, firstFit]
  constructor
  · intro h
    by_contra hfull
    rw [if_neg hfull] at h
    exact (mem_firstFit h).elim hnew hafter
  · intro hfits
    rw [if_pos hfits]
    obtain ⟨more, _, heq⟩ := @firstFit_eq_append _ fits _ (firstFit fits taken before ++ [x]) after
    rw [heq]
    exact List.mem_append_left _ (List.mem_append_right _ List.mem_cons_self)

/-- In a list in strict order, what was admitted before an element is what was admitted of the elements below it. -/
theorem filter_firstFit {R : Type} [LinearOrder R] {rank : α → R} {before after : List α} {x : α}
    [DecidablePred fun a => rank a < rank x] (hsorted : (before ++ x :: after).Pairwise fun a b => rank a < rank b) :
    (firstFit fits [] (before ++ x :: after)).filter (fun a => rank a < rank x) = firstFit fits [] before := by
  obtain ⟨_, hafter, hbefore⟩ := List.pairwise_append.mp hsorted
  obtain ⟨more, hmore, heq⟩ := @firstFit_eq_append _ fits _ (firstFit fits [] before) (x :: after)
  rw [firstFit_append, heq, List.filter_append, List.filter_eq_self.mpr, List.filter_eq_nil_iff.mpr, List.append_nil]
  · intro a ha
    rw [decide_eq_true_eq, not_lt]
    rcases List.mem_cons.mp (hmore.subset ha) with rfl | ha
    · exact le_refl _
    · exact ((List.pairwise_cons.mp hafter).1 a ha).le
  · intro a ha
    rw [decide_eq_true_eq]
    exact hbefore a ((mem_firstFit ha).resolve_left List.not_mem_nil) x List.mem_cons_self

/-- In a list in strict order an element stands once. -/
theorem not_mem_of_sorted {R : Type} [LinearOrder R] {rank : α → R} {before after : List α} {x : α}
    (hsorted : (before ++ x :: after).Pairwise fun a b => rank a < rank b) : x ∉ before ∧ x ∉ after := by
  obtain ⟨_, hafter, hbefore⟩ := List.pairwise_append.mp hsorted
  refine ⟨fun hx => ?_, fun hx => ?_⟩
  · exact lt_irrefl _ (hbefore x hx x List.mem_cons_self)
  · exact lt_irrefl _ ((List.pairwise_cons.mp hafter).1 x hx)

end

section
variable [Host]

/-! ## The rows of a front -/

/-- What is read of the two front maps: no key twice, and none with padding. -/
structure DistinctKeys (metas endpoints : List Entry) : Prop where
  frontKeys : (metas.map Prod.fst).Nodup
  rowKeys : (endpoints.map Prod.fst).Nodup
  pad : ∀ e ∈ endpoints, ∀ k, decodeFrontEndpointKey e.1 = some k → k.pad = 0

omit [Host] in
/-- Distinct numbers in order, below a bound and as many as it says, are the numbers below it. -/
theorem eq_range_of_sorted {l : List Nat} {n : Nat} (hsorted : l.Pairwise (· ≤ ·)) (hnodup : l.Nodup)
    (hlt : ∀ i ∈ l, i < n) (hlen : l.length = n) : l = List.range n := by
  have hsub : l.Subperm (List.range n) := List.subperm_of_subset hnodup fun i hi => List.mem_range.mpr (hlt i hi)
  have hperm : l.Perm (List.range n) := hsub.perm_of_length_le (by rw [List.length_range, hlen])
  exact hperm.eq_of_pairwise' hsorted List.pairwise_le_range

variable {metas endpoints : List Entry} {front : LbFrontKey} {m : FrontMeta}

/-- A live row is found under its slot. -/
theorem key_of_live (h : DistinctKeys metas endpoints) {e : Entry} {k : FrontEndpointKey} (he : e ∈ endpoints)
    (hk : decodeFrontEndpointKey e.1 = some k) (hfront : k.front = front) (hgeneration : k.generation = m.generation) :
    e.1 = slotKey front m.generation k.slot.toNat := by
  rw [← hfront, ← hgeneration]
  exact slotKey_of_decode hk (h.pad e he k hk)

/-- **The rows of a whole front** are those of its slots, in order. -/
theorem liveRows_fst (h : DistinctKeys metas endpoints)
    (hwhole : (liveRows endpoints front m).length = m.count.toNat) :
    (liveRows endpoints front m).map Prod.fst = (List.range m.count.toNat).map (slotKey front m.generation) := by
  have hnodup := nodup_liveRows h.rowKeys front m
  unfold liveRows at hwhole hnodup ⊢
  simp only at hwhole hnodup ⊢
  generalize hlive : sortByRank (fun r : FrontEndpointKey × Entry => r.1.slot.toNat) _ = live at hwhole hnodup ⊢
  have hrow : ∀ r ∈ live, r.2.1 = slotKey front m.generation r.1.slot.toNat ∧ r.1.slot.toNat < m.count.toNat := by
    rw [← hlive]
    intro r hr
    obtain ⟨hmem, hof⟩ := List.mem_filter.mp ((perm_sortByRank _ _).mem_iff.mp hr)
    obtain ⟨hfront, hgeneration, hslot⟩ := of_decide_eq_true hof
    obtain ⟨e, he, hdecode⟩ := List.mem_filterMap.mp hmem
    obtain ⟨k, hk, rfl⟩ := Option.map_eq_some_iff.mp hdecode
    exact ⟨key_of_live h he hk hfront hgeneration, UInt16.lt_iff_toNat_lt.mp hslot⟩
  have hsorted : (live.map fun r => r.1.slot.toNat).Pairwise (· ≤ ·) := by
    rw [← hlive]
    exact List.pairwise_map.mpr (pairwise_sortByRank _ _)
  have hkeys : (live.map Prod.snd).map Prod.fst =
      (live.map fun r => r.1.slot.toNat).map (slotKey front m.generation) := by
    rw [List.map_map, List.map_map]
    exact List.map_congr_left fun r hr => (hrow r hr).1
  rw [hkeys] at hnodup ⊢
  rw [eq_range_of_sorted hsorted hnodup.of_map ?_ ?_]
  · intro i hi
    obtain ⟨r, hr, rfl⟩ := List.mem_map.mp hi
    exact (hrow r hr).2
  · simpa using hwhole

/-- A front is whole if all the rows it names are there. -/
theorem whole_iff (h : DistinctKeys metas endpoints) :
    (liveRows endpoints front m).length = m.count.toNat ↔
      ∀ slot, slot < m.count.toNat → ∃ value, (slotKey front m.generation slot, value) ∈ endpoints := by
  constructor
  · intro hwhole slot hslot
    obtain ⟨value, hvalue⟩ := namedRows_of_whole h.rowKeys h.pad hwhole hslot
    exact ⟨value, (mem_liveRows.mp hvalue).1⟩
  · intro hnamed
    -- the keys of the live rows are the named ones, both ways
    have hcount := m.count.toNat_lt
    have hnodup : ((List.range m.count.toNat).map (slotKey front m.generation)).Nodup :=
      List.nodup_range.map_on fun i hi j hj heq =>
        slotKey_inj ((List.mem_range.mp hi).trans hcount) ((List.mem_range.mp hj).trans hcount) heq
    have hsub : ((List.range m.count.toNat).map (slotKey front m.generation)).Subperm
        ((liveRows endpoints front m).map Prod.fst) := by
      refine List.subperm_of_subset hnodup fun key hkey => ?_
      obtain ⟨slot, hslot, rfl⟩ := List.mem_map.mp hkey
      obtain ⟨value, hvalue⟩ := hnamed slot (List.mem_range.mp hslot)
      exact List.mem_map.mpr ⟨_, mem_liveRows_of_slot (List.mem_range.mp hslot) hvalue, rfl⟩
    have hsub' : ((liveRows endpoints front m).map Prod.fst).Subperm
        ((List.range m.count.toNat).map (slotKey front m.generation)) := by
      refine List.subperm_of_subset (nodup_liveRows h.rowKeys front m) fun key hkey => ?_
      obtain ⟨e, he, rfl⟩ := List.mem_map.mp hkey
      obtain ⟨hmem, k, hk, hfront, hgeneration, hslot⟩ := mem_liveRows.mp he
      exact List.mem_map.mpr ⟨k.slot.toNat, List.mem_range.mpr (UInt16.lt_iff_toNat_lt.mp hslot),
        (key_of_live h hmem hk hfront hgeneration).symm⟩
    have hle := hsub.length_le
    have hle' := hsub'.length_le
    rw [List.length_map, List.length_map, List.length_range] at hle hle'
    omega

/-! ## The order of the fronts -/

/-- The order of the keys in a `BTreeMap`: byte by byte. -/
abbrev FrontCopy.rank (copy : FrontCopy) : List Nat := copy.metaEntry.1.map UInt8.toNat

omit [Host] in
theorem rank_injective : Function.Injective fun key : List UInt8 => key.map UInt8.toNat :=
  List.map_injective_iff.mpr fun _ _ h => UInt8.toNat_inj.mp h

/-- The decoded rows of `FRONT_META`, before they are sorted. -/
def decodedMetas (metas : List Entry) : List (List UInt8 × FrontMeta × List UInt8) :=
  metas.filterMap fun e => (decodeFrontMeta e.2).map fun m => (e.1, m, e.2)

/-- A decoded row is the row and what its value decodes to. -/
theorem mem_decodedMetas {row : List UInt8 × FrontMeta × List UInt8} :
    row ∈ decodedMetas metas ↔ (row.1, row.2.2) ∈ metas ∧ decodeFrontMeta row.2.2 = some row.2.1 := by
  unfold decodedMetas
  rw [List.mem_filterMap]
  constructor
  · rintro ⟨e, hmem, hdecode⟩
    obtain ⟨m, hm, rfl⟩ := Option.map_eq_some_iff.mp hdecode
    exact ⟨hmem, hm⟩
  · rintro ⟨hmem, hm⟩
    exact ⟨(row.1, row.2.2), hmem, Option.map_eq_some_iff.mpr ⟨row.2.1, hm, rfl⟩⟩

/-- Rows of distinct keys decode to rows of distinct keys. -/
theorem nodup_decodedMetas (h : (metas.map Prod.fst).Nodup) : ((decodedMetas metas).map Prod.fst).Nodup := by
  induction metas with
  | nil => exact List.nodup_nil
  | cons e metas ih =>
    obtain ⟨hnew, h⟩ := List.nodup_cons.mp h
    unfold decodedMetas
    cases hm : decodeFrontMeta e.2 with
    | none =>
      rw [List.filterMap_cons_none (by rw [hm]; rfl)]
      exact ih h
    | some m =>
      rw [List.filterMap_cons_some (by rw [hm]; rfl), List.map_cons, List.nodup_cons]
      refine ⟨fun hold => hnew ?_, ih h⟩
      obtain ⟨row, hrow, hkey⟩ := List.mem_map.mp hold
      exact List.mem_map.mpr ⟨(row.1, row.2.2), (mem_decodedMetas.mp hrow).1, hkey⟩

/-- The rows are gone over in strict order of their keys. -/
theorem pairwise_sortedMetas (h : (metas.map Prod.fst).Nodup) :
    (sortedMetas metas).Pairwise fun a b => a.1.map UInt8.toNat < b.1.map UInt8.toNat := by
  have hle := pairwise_sortByRank (fun row : List UInt8 × FrontMeta × List UInt8 => row.1.map UInt8.toNat)
    (decodedMetas metas)
  have hnodup : ((sortedMetas metas).map Prod.fst).Nodup :=
    ((perm_sortByRank _ (decodedMetas metas)).map Prod.fst).nodup_iff.mpr (nodup_decodedMetas h)
  refine (hle.and (List.pairwise_map.mp hnodup)).imp fun hab => ?_
  exact lt_of_le_of_ne hab.1 fun heq => hab.2 (rank_injective heq)

theorem rank_of_wholeFront {row : List UInt8 × FrontMeta × List UInt8} {copy : FrontCopy}
    (h : wholeFront endpoints row = some copy) : copy.metaEntry = (row.1, row.2.2) := by
  obtain ⟨front, _, hcopy⟩ := Option.bind_eq_some_iff.mp h
  dsimp only at hcopy
  split at hcopy
  · rw [← Option.some_inj.mp hcopy]
  · cases hcopy

/-- The whole fronts are offered in strict order of their keys. -/
theorem pairwise_wholeFronts (h : (metas.map Prod.fst).Nodup) :
    (wholeFronts metas endpoints).Pairwise fun a b => a.rank < b.rank := by
  refine (pairwise_sortedMetas h).filterMap _ fun a b hab copy hcopy copy' hcopy' => ?_
  rw [FrontCopy.rank, FrontCopy.rank, rank_of_wholeFront hcopy, rank_of_wholeFront hcopy']
  exact hab

/-- What is offered for a row of `FRONT_META`. -/
theorem mem_wholeFronts {copy : FrontCopy} :
    copy ∈ wholeFronts metas endpoints ↔ copy.metaEntry ∈ metas ∧ ∃ front m,
      decodeLbFrontKey copy.metaEntry.1 = some front ∧ decodeFrontMeta copy.metaEntry.2 = some m ∧
        copy.rows = liveRows endpoints front m ∧ copy.rows.length = m.count.toNat := by
  unfold wholeFronts
  rw [List.mem_filterMap]
  constructor
  · rintro ⟨row, hrow, hcopy⟩
    have hentry := rank_of_wholeFront hcopy
    obtain ⟨hmem, hm⟩ := mem_decodedMetas.mp ((perm_sortByRank _ _).mem_iff.mp hrow)
    obtain ⟨front, hfront, hcopy⟩ := Option.bind_eq_some_iff.mp hcopy
    dsimp only at hcopy
    split at hcopy
    · rename_i hwhole
      obtain rfl := Option.some_inj.mp hcopy
      exact ⟨hmem, front, row.2.1, hfront, hm, rfl, hwhole⟩
    · cases hcopy
  · rintro ⟨hmem, front, m, hfront, hm, hrows, hwhole⟩
    refine ⟨(copy.metaEntry.1, m, copy.metaEntry.2), (perm_sortByRank _ _).mem_iff.mpr ?_, ?_⟩
    · exact mem_decodedMetas.mpr ⟨hmem, hm⟩
    · unfold wholeFront
      simp only [hfront, Option.bind_some, ← hrows]
      rw [if_pos hwhole]

/-! ## Which fronts are copied -/

/-- Neither budget is overrun. -/
theorem copied_within (metas endpoints : List Entry) (metaCap epCap : Nat) :
    (copiedFronts metas endpoints metaCap epCap).length ≤ metaCap ∧
      ((copiedFronts metas endpoints metaCap epCap).map (·.rows.length)).sum ≤ epCap := by
  let Within (taken : List FrontCopy) : Prop := taken.length ≤ metaCap ∧ (taken.map (·.rows.length)).sum ≤ epCap
  have hstart : Within [] := ⟨Nat.zero_le _, Nat.zero_le _⟩
  have hkeep : ∀ taken copy, Within taken → FitsCaps metaCap epCap taken copy → Within (taken ++ [copy]) := by
    rintro taken copy _ ⟨hmeta, hrows⟩
    refine ⟨?_, ?_⟩
    · rw [List.length_append, List.length_singleton]
      exact hmeta
    · rw [List.map_append, List.sum_append]
      simpa using hrows
  exact firstFit_keeps hkeep hstart (wholeFronts metas endpoints)

/-- **A whole front is copied if it fits** beside the copied fronts of lower keys. -/
theorem mem_copiedFronts_iff (h : (metas.map Prod.fst).Nodup) {metaCap epCap : Nat} {copy : FrontCopy} :
    copy ∈ copiedFronts metas endpoints metaCap epCap ↔ copy ∈ wholeFronts metas endpoints ∧
      FitsCaps metaCap epCap ((copiedFronts metas endpoints metaCap epCap).filter fun c => c.rank < copy.rank) copy := by
  have hsorted := @pairwise_wholeFronts _ metas endpoints h
  unfold copiedFronts
  constructor
  · intro hcopy
    have hwhole := (mem_firstFit hcopy).resolve_left List.not_mem_nil
    refine ⟨hwhole, ?_⟩
    obtain ⟨before, after, hsplit⟩ := List.append_of_mem hwhole
    rw [hsplit] at hcopy hsorted ⊢
    rw [filter_firstFit hsorted]
    exact (mem_firstFit_iff List.not_mem_nil (not_mem_of_sorted hsorted).1 (not_mem_of_sorted hsorted).2).mp hcopy
  · rintro ⟨hwhole, hfits⟩
    obtain ⟨before, after, hsplit⟩ := List.append_of_mem hwhole
    rw [hsplit] at hfits hsorted ⊢
    rw [filter_firstFit hsorted] at hfits
    exact (mem_firstFit_iff List.not_mem_nil (not_mem_of_sorted hsorted).1 (not_mem_of_sorted hsorted).2).mpr hfits

/-! ## The order of the snapshots -/

theorem sortedMetas_perm {metas' : List Entry} (h : (metas.map Prod.fst).Nodup) (hperm : metas.Perm metas') :
    sortedMetas metas = sortedMetas metas' := by
  have hdecoded : (decodedMetas metas).Perm (decodedMetas metas') := hperm.filterMap _
  have hties : ∀ a ∈ decodedMetas metas, ∀ b ∈ decodedMetas metas,
      a.1.map UInt8.toNat = b.1.map UInt8.toNat → id a = id b := fun a ha b hb hrank =>
    List.inj_on_of_nodup_map (nodup_decodedMetas h) ha hb (rank_injective hrank)
  have hread := map_sortByRank_eq hdecoded hties
  rwa [List.map_id, List.map_id] at hread

/-- The live rows are the same in whatever order `FRONT_ENDPOINTS` is read. -/
theorem liveRows_perm {endpoints' : List Entry} (h : DistinctKeys metas endpoints) (hperm : endpoints.Perm endpoints')
    (front : LbFrontKey) (m : FrontMeta) : liveRows endpoints front m = liveRows endpoints' front m := by
  unfold liveRows
  refine map_sortByRank_eq ((hperm.filterMap _).filter _) fun a ha b hb hrank => ?_
  have hrow : ∀ r ∈ (endpoints.filterMap fun e => (decodeFrontEndpointKey e.1).map fun k => (k, e)).filter
      (fun r => r.1.front = front ∧ r.1.generation = m.generation ∧ r.1.slot < m.count),
      r.2 ∈ endpoints ∧ r.2.1 = slotKey front m.generation r.1.slot.toNat := by
    intro r hr
    obtain ⟨hmem, hof⟩ := List.mem_filter.mp hr
    obtain ⟨hfront, hgeneration, _⟩ := of_decide_eq_true hof
    obtain ⟨e, he, hdecode⟩ := List.mem_filterMap.mp hmem
    obtain ⟨k, hk, rfl⟩ := Option.map_eq_some_iff.mp hdecode
    exact ⟨he, key_of_live h he hk hfront hgeneration⟩
  obtain ⟨hmemA, hkeyA⟩ := hrow a ha
  obtain ⟨hmemB, hkeyB⟩ := hrow b hb
  exact List.inj_on_of_nodup_map h.rowKeys hmemA hmemB (by rw [hkeyA, hkeyB, hrank])

theorem copiedFronts_perm {metas' endpoints' : List Entry} (h : DistinctKeys metas endpoints)
    (hmetas : metas.Perm metas') (hendpoints : endpoints.Perm endpoints') (metaCap epCap : Nat) :
    copiedFronts metas endpoints metaCap epCap = copiedFronts metas' endpoints' metaCap epCap := by
  have hwhole : wholeFront endpoints = wholeFront endpoints' := by
    funext row
    unfold wholeFront
    simp only [liveRows_perm h hendpoints]
  unfold copiedFronts wholeFronts
  rw [sortedMetas_perm h.frontKeys hmetas, hwhole]

/-! ## What is dropped -/

/-- A row is counted as dropped, or its front is copied. -/
theorem FrontAdmission.step_cases (endpoints : List Entry) (metaCap epCap : Nat) (acc : FrontAdmission)
    (row : List UInt8 × FrontMeta × List UInt8) :
    acc.step endpoints metaCap epCap row = { acc with dropped := acc.dropped + 1 } ∨
      ∃ copy used, acc.step endpoints metaCap epCap row =
        { acc with fronts := acc.fronts ++ [copy], rowsUsed := used } :=
  (ite_eq_or_eq _ _ _).imp_right fun h => ⟨_, _, h⟩

/-- Every row of the loop is copied or counted as dropped. -/
theorem foldl_step_count (endpoints : List Entry) (metaCap epCap : Nat)
    (rows : List (List UInt8 × FrontMeta × List UInt8)) (acc : FrontAdmission) :
    (rows.foldl (FrontAdmission.step endpoints metaCap epCap) acc).fronts.length +
        (rows.foldl (FrontAdmission.step endpoints metaCap epCap) acc).dropped =
      acc.fronts.length + acc.dropped + rows.length := by
  induction rows generalizing acc with
  | nil => rfl
  | cons row rows ih =>
    have hstep : (acc.step endpoints metaCap epCap row).fronts.length + (acc.step endpoints metaCap epCap row).dropped =
        acc.fronts.length + acc.dropped + 1 := by
      rcases acc.step_cases endpoints metaCap epCap row with hstep | ⟨copy, used, hstep⟩ <;> rw [hstep]
      · exact (Nat.add_assoc ..).symm
      · simp only [List.length_append, List.length_singleton]
        omega
    rw [List.foldl_cons, ih, hstep, List.length_cons]
    omega

/-- The rows whose values decode, in key order. -/
def sortedEntries (metas : List Entry) : List Entry := (sortedMetas metas).map fun row => (row.1, row.2.2)

theorem mem_sortedEntries {e : Entry} : e ∈ sortedEntries metas ↔ e ∈ metas ∧ (decodeFrontMeta e.2).isSome := by
  unfold sortedEntries
  rw [List.mem_map]
  constructor
  · rintro ⟨row, hrow, rfl⟩
    obtain ⟨hmem, hm⟩ := mem_decodedMetas.mp ((perm_sortByRank _ _).mem_iff.mp hrow)
    exact ⟨hmem, Option.isSome_iff_exists.mpr ⟨_, hm⟩⟩
  · rintro ⟨hmem, hsome⟩
    obtain ⟨m, hm⟩ := Option.isSome_iff_exists.mp hsome
    exact ⟨(e.1, m, e.2), (perm_sortByRank _ _).mem_iff.mpr (mem_decodedMetas.mpr ⟨hmem, hm⟩), rfl⟩

/-- **A front is counted as dropped** if one of those whose values decode is not copied. -/
theorem dropped_pos_iff (h : (metas.map Prod.fst).Nodup) (metaCap epCap : Nat) :
    0 < ((sortedMetas metas).foldl (FrontAdmission.step endpoints metaCap epCap) {}).dropped ↔
      ∃ e ∈ metas, (decodeFrontMeta e.2).isSome ∧
        ∀ copy ∈ copiedFronts metas endpoints metaCap epCap, copy.metaEntry ≠ e := by
  have hcount := foldl_step_count endpoints metaCap epCap (sortedMetas metas) {}
  have hfronts : ((sortedMetas metas).foldl (FrontAdmission.step endpoints metaCap epCap) {}).fronts =
      copiedFronts metas endpoints metaCap epCap := foldl_step_fronts endpoints metaCap epCap _ rfl
  rw [hfronts] at hcount
  simp only [List.length_nil, Nat.zero_add] at hcount
  let copied := (copiedFronts metas endpoints metaCap epCap).map (·.metaEntry)
  have hlenC : copied.length = (copiedFronts metas endpoints metaCap epCap).length := List.length_map _
  have hlenE : (sortedEntries metas).length = (sortedMetas metas).length := List.length_map _
  have hnodupE : (sortedEntries metas).Nodup := by
    have hkeys : ((sortedEntries metas).map Prod.fst).Nodup := by
      unfold sortedEntries
      rw [List.map_map]
      exact ((perm_sortByRank _ (decodedMetas metas)).map Prod.fst).nodup_iff.mpr (nodup_decodedMetas h)
    exact hkeys.of_map
  have hnodupC : copied.Nodup := by
    obtain ⟨more, hsub, hmore⟩ := @firstFit_eq_append _ (FitsCaps metaCap epCap) _ [] (wholeFronts metas endpoints)
    have hsorted := (pairwise_wholeFronts h).sublist hsub
    refine List.pairwise_map.mpr ?_
    unfold copiedFronts
    rw [hmore, List.nil_append]
    refine hsorted.imp fun hlt heq => ?_
    rw [FrontCopy.rank, FrontCopy.rank, heq] at hlt
    exact lt_irrefl _ hlt
  have hsub : copied.Subperm (sortedEntries metas) := by
    refine List.subperm_of_subset hnodupC fun e he => ?_
    obtain ⟨copy, hcopy, rfl⟩ := List.mem_map.mp he
    obtain ⟨hmem, _, m, _, hm, _⟩ := of_mem_copiedFronts hcopy
    exact mem_sortedEntries.mpr ⟨hmem, Option.isSome_iff_exists.mpr ⟨m, hm⟩⟩
  constructor
  · intro hdropped
    by_contra hall
    have hsup : (sortedEntries metas).Subperm copied := by
      refine List.subperm_of_subset hnodupE fun e he => ?_
      obtain ⟨hmem, hsome⟩ := mem_sortedEntries.mp he
      by_contra hnone
      exact hall ⟨e, hmem, hsome, fun copy hcopy heq => hnone (List.mem_map.mpr ⟨copy, hcopy, heq⟩)⟩
    have hle := hsup.length_le
    omega
  · rintro ⟨e, hmem, hsome, hnot⟩
    by_contra hzero
    have hperm := hsub.perm_of_length_le (by omega)
    obtain ⟨copy, hcopy, heq⟩ := List.mem_map.mp (hperm.mem_iff.mpr (mem_sortedEntries.mpr ⟨hmem, hsome⟩))
    exact hnot copy hcopy heq

/-! ## The plan -/

/-- What was read of a map. -/
def snapshotOf (snapshots : List (MapName × List Entry)) (name : MapName) : List Entry :=
  (Table.lastValue snapshots name).getD []

/-- A map other than the two front maps. -/
def MapName.IsOther (name : MapName) : Prop := name ≠ .frontMeta ∧ name ≠ .frontEndpoints

instance (name : MapName) : Decidable name.IsOther := inferInstanceAs (Decidable (_ ∧ _))

/-- A restore plan, told without the loop that makes it. -/
structure RestorePlan.Greedy (plan : RestorePlan) (snapshots : List (MapName × List Entry)) (cap : MapName → UInt32) :
    Prop where
  /-- A copied front carries the rows of its live generation, all of them, in slot order, as they were read. -/
  rows : ∀ copy ∈ plan.fronts, copy.metaEntry ∈ snapshotOf snapshots .frontMeta ∧ ∃ front m,
    decodeLbFrontKey copy.metaEntry.1 = some front ∧ decodeFrontMeta copy.metaEntry.2 = some m ∧
      copy.rows.map Prod.fst = (List.range m.count.toNat).map (slotKey front m.generation) ∧
      ∀ e ∈ copy.rows, e ∈ snapshotOf snapshots .frontEndpoints
  fronts_le : plan.fronts.length ≤ (cap .frontMeta).toNat
  rows_le : (plan.fronts.map (·.rows.length)).sum ≤ (cap .frontEndpoints).toNat
  /-- A front is copied if it decodes, is complete and fits beside the copied fronts of lower keys. -/
  copied_iff : ∀ e ∈ snapshotOf snapshots .frontMeta, (∃ copy ∈ plan.fronts, copy.metaEntry = e) ↔ ∃ front m,
    decodeLbFrontKey e.1 = some front ∧ decodeFrontMeta e.2 = some m ∧
      (∀ slot, slot < m.count.toNat →
        ∃ value, (slotKey front m.generation slot, value) ∈ snapshotOf snapshots .frontEndpoints) ∧
      (plan.fronts.filter fun c => c.rank < e.1.map UInt8.toNat).length < (cap .frontMeta).toNat ∧
      ((plan.fronts.filter fun c => c.rank < e.1.map UInt8.toNat).map (·.rows.length)).sum + m.count.toNat ≤
        (cap .frontEndpoints).toNat
  /-- Every other map is cut to what it has room for. -/
  generic : List.Forall₂ (fun s g : MapName × List Entry =>
      g.1 = s.1 ∧ g.2 <+: s.2 ∧ g.2.length = min s.2.length (cap s.1).toNat)
    (snapshots.filter fun s => s.1.IsOther) plan.generic
  /-- Something is reported if a front was dropped, a key or value did not decode or another map was cut. -/
  losses_iff : plan.losses ≠ [] ↔
    (∃ e ∈ snapshotOf snapshots .frontMeta, (decodeFrontMeta e.2).isSome ∧ ∀ copy ∈ plan.fronts, copy.metaEntry ≠ e) ∨
      (∃ e ∈ snapshotOf snapshots .frontMeta, decodeLbFrontKey e.1 = none ∨ decodeFrontMeta e.2 = none) ∨
      (∃ e ∈ snapshotOf snapshots .frontEndpoints, decodeFrontEndpointKey e.1 = none) ∨
      ∃ s ∈ snapshots, s.1.IsOther ∧ (cap s.1).toNat < s.2.length

omit [Host] in
/-- Snapshots that were read in another order. -/
theorem snapshotOf_perm {snapshots snapshots' : List (MapName × List Entry)}
    (h : List.Forall₂ (fun s s' : MapName × List Entry => s.1 = s'.1 ∧ s.2.Perm s'.2) snapshots snapshots')
    (name : MapName) : (snapshotOf snapshots name).Perm (snapshotOf snapshots' name) := by
  have hlast : Option.Rel List.Perm (Table.lastValue snapshots name) (Table.lastValue snapshots' name) := by
    induction h with
    | nil => exact .none
    | @cons s s' l l' hs _ ih =>
      have hcons := Table.lastValue_append [s] l name
      have hcons' := Table.lastValue_append [s'] l' name
      rw [List.singleton_append] at hcons hcons'
      rw [hcons, hcons']
      generalize Table.lastValue l name = last at ih ⊢
      generalize Table.lastValue l' name = last' at ih ⊢
      cases ih with
      | some hperm => exact .some hperm
      | none =>
        obtain ⟨hname, hperm⟩ := hs
        by_cases heq : s.1 = name
        · simp [Table.lastValue, heq, ← hname, hperm]
        · simp [Table.lastValue, heq, ← hname]
  unfold snapshotOf
  generalize Table.lastValue snapshots name = last at hlast ⊢
  generalize Table.lastValue snapshots' name = last' at hlast ⊢
  cases hlast with
  | some hperm => exact hperm
  | none => exact .refl _

/-- Nothing is reported without a reason. -/
theorem losses_ne_nil (snapshots : List (MapName × List Entry)) (cap : MapName → UInt32) :
    (planRestore snapshots cap).losses ≠ [] ↔
      0 < ((sortedMetas (snapshotOf snapshots .frontMeta)).foldl (FrontAdmission.step
          (snapshotOf snapshots .frontEndpoints) (cap .frontMeta).toNat (cap .frontEndpoints).toNat) {}).dropped ∨
        (∃ e ∈ snapshotOf snapshots .frontMeta, decodeFrontMeta e.2 = none) ∨
        (∃ e ∈ snapshotOf snapshots .frontEndpoints, decodeFrontEndpointKey e.1 = none) ∨
        ∃ s ∈ snapshots, s.1.IsOther ∧ (cap s.1).toNat < s.2.length := by
  have hsome : ∀ {α β : Type} (p : α → Prop) [DecidablePred p] (l : List α) (g : α → β),
      (l.filter fun a => p a).map g = [] ↔ ¬∃ a ∈ l, p a := by
    intro α β p _ l g
    rw [List.map_eq_nil_iff, List.filter_eq_nil_iff]
    simp
  have hcut : (∃ s ∈ snapshots.filter fun s => s.1 ≠ .frontMeta ∧ s.1 ≠ .frontEndpoints, (cap s.1).toNat < s.2.length) ↔
      ∃ s ∈ snapshots, s.1.IsOther ∧ (cap s.1).toNat < s.2.length := by
    simp only [List.mem_filter, decide_eq_true_eq, and_assoc, MapName.IsOther]
  have hlogic : ∀ cut key value dropped : Prop,
      ¬(((¬cut ∧ ¬key) ∧ ¬value) ∧ ¬dropped) ↔ dropped ∨ value ∨ key ∨ cut := by
    intro cut key value dropped
    tauto
  have hline : ∀ (n : Nat) (loss : RestoreLoss), (if 0 < n then [loss] else []) = [] ↔ ¬0 < n := by
    intro n loss
    by_cases hn : 0 < n <;> simp [hn]
  show (List.map _ (List.filter _ (List.filter _ _)) ++ _ ++ _ ++ ite _ _ _) ≠ [] ↔ _
  rw [Ne, List.append_eq_nil_iff, List.append_eq_nil_iff, List.append_eq_nil_iff, hsome, hsome, hsome, hline]
  exact (hlogic _ _ _ _).trans (or_congr_right (or_congr_right (or_congr_right hcut)))

section
variable {snapshots : List (MapName × List Entry)} {metaCap epCap : Nat}
  (h : DistinctKeys (snapshotOf snapshots .frontMeta) (snapshotOf snapshots .frontEndpoints))

include h

/-- A meta row is copied if its front is complete and fits beside the copied fronts of lower keys. -/
theorem copied_iff_fits {e : Entry} (he : e ∈ snapshotOf snapshots .frontMeta) :
    let copied := copiedFronts (snapshotOf snapshots .frontMeta) (snapshotOf snapshots .frontEndpoints) metaCap epCap
    (∃ copy ∈ copied, copy.metaEntry = e) ↔ ∃ front m,
      decodeLbFrontKey e.1 = some front ∧ decodeFrontMeta e.2 = some m ∧
        (∀ slot, slot < m.count.toNat →
          ∃ value, (slotKey front m.generation slot, value) ∈ snapshotOf snapshots .frontEndpoints) ∧
        (copied.filter fun c => c.rank < e.1.map UInt8.toNat).length < metaCap ∧
        ((copied.filter fun c => c.rank < e.1.map UInt8.toNat).map (·.rows.length)).sum + m.count.toNat ≤ epCap := by
  intro copied
  constructor
  · rintro ⟨copy, hcopy, rfl⟩
    obtain ⟨hmem, front, m, hfront, hm, hrows, hwhole⟩ := of_mem_copiedFronts hcopy
    obtain ⟨hmeta, hfits⟩ := ((mem_copiedFronts_iff h.frontKeys).mp hcopy).2
    rw [hwhole] at hfits
    refine ⟨front, m, hfront, hm, ?_, hmeta, hfits⟩
    rw [hrows] at hwhole
    exact (whole_iff h).mp hwhole
  · rintro ⟨front, m, hfront, hm, hnamed, hmeta, hfits⟩
    have hwhole := (whole_iff h).mpr hnamed
    let copy : FrontCopy := ⟨e, liveRows (snapshotOf snapshots .frontEndpoints) front m⟩
    have hoffered : copy ∈ wholeFronts (snapshotOf snapshots .frontMeta) (snapshotOf snapshots .frontEndpoints) :=
      mem_wholeFronts.mpr ⟨he, front, m, hfront, hm, rfl, hwhole⟩
    refine ⟨copy, (mem_copiedFronts_iff h.frontKeys).mpr ⟨hoffered, hmeta, ?_⟩, rfl⟩
    show _ + (liveRows (snapshotOf snapshots .frontEndpoints) front m).length ≤ _
    rw [hwhole]
    exact hfits

/-- What is reported, in terms of the fronts that are copied. -/
theorem losses_iff_dropped (cap : MapName → UInt32) : (planRestore snapshots cap).losses ≠ [] ↔
    (∃ e ∈ snapshotOf snapshots .frontMeta, (decodeFrontMeta e.2).isSome ∧
      ∀ copy ∈ (planRestore snapshots cap).fronts, copy.metaEntry ≠ e) ∨
      (∃ e ∈ snapshotOf snapshots .frontMeta, decodeLbFrontKey e.1 = none ∨ decodeFrontMeta e.2 = none) ∨
      (∃ e ∈ snapshotOf snapshots .frontEndpoints, decodeFrontEndpointKey e.1 = none) ∨
      ∃ s ∈ snapshots, s.1.IsOther ∧ (cap s.1).toNat < s.2.length := by
  have hfronts : (planRestore snapshots cap).fronts = copiedFronts (snapshotOf snapshots .frontMeta)
      (snapshotOf snapshots .frontEndpoints) (cap .frontMeta).toNat (cap .frontEndpoints).toNat :=
    fronts_planRestore snapshots cap
  rw [losses_ne_nil, dropped_pos_iff h.frontKeys, hfronts]
  constructor
  · rintro (hdropped | ⟨e, he, hm⟩ | hkey | hcut)
    · exact Or.inl hdropped
    · exact Or.inr (Or.inl ⟨e, he, Or.inr hm⟩)
    · exact Or.inr (Or.inr (Or.inl hkey))
    · exact Or.inr (Or.inr (Or.inr hcut))
  · rintro (hdropped | ⟨e, he, hkey | hm⟩ | hkey | hcut)
    · exact Or.inl hdropped
    · -- a key that does not decode is that of a dropped front, or its value does not decode either
      cases hm : decodeFrontMeta e.2 with
      | none => exact Or.inr (Or.inl ⟨e, he, hm⟩)
      | some m =>
        refine Or.inl ⟨e, he, by rw [hm]; rfl, fun copy hcopy heq => ?_⟩
        obtain ⟨_, front, _, hfront, _⟩ := of_mem_copiedFronts hcopy
        rw [heq, hkey] at hfront
        cases hfront
    · exact Or.inr (Or.inl ⟨e, he, hm⟩)
    · exact Or.inr (Or.inr (Or.inl hkey))
    · exact Or.inr (Or.inr (Or.inr hcut))

/-- **The plan is greedy.** -/
theorem greedy_planRestore (cap : MapName → UInt32) : (planRestore snapshots cap).Greedy snapshots cap := by
  have hfronts : (planRestore snapshots cap).fronts = copiedFronts (snapshotOf snapshots .frontMeta)
      (snapshotOf snapshots .frontEndpoints) (cap .frontMeta).toNat (cap .frontEndpoints).toNat :=
    fronts_planRestore snapshots cap
  refine ⟨fun copy hcopy => ?_, ?_, ?_, fun e he => ?_, ?_, losses_iff_dropped h cap⟩
  · rw [hfronts] at hcopy
    obtain ⟨hmem, front, m, hfront, hm, hrows, hwhole⟩ := of_mem_copiedFronts hcopy
    refine ⟨hmem, front, m, hfront, hm, ?_, fun e he => ?_⟩
    · rw [hrows] at hwhole ⊢
      exact liveRows_fst h hwhole
    · rw [hrows] at he
      exact (mem_liveRows.mp he).1
  · rw [hfronts]
    exact (copied_within ..).1
  · rw [hfronts]
    exact (copied_within ..).2
  · rw [hfronts]
    exact copied_iff_fits h he
  · show List.Forall₂ _ _ ((snapshots.filter fun s => s.1.IsOther).map fun s => (s.1, s.2.take (cap s.1).toNat))
    rw [List.forall₂_map_right_iff, List.forall₂_same]
    intro s _
    refine ⟨rfl, List.take_prefix _ _, ?_⟩
    rw [List.length_take, Nat.min_comm]

end

/-- **The plan is greedy**, and the order in which the maps were read does not matter to the fronts. -/
theorem planRestore_greedy {snapshots : List (MapName × List Entry)} (cap : MapName → UInt32)
    (h : DistinctKeys (snapshotOf snapshots .frontMeta) (snapshotOf snapshots .frontEndpoints)) :
    (planRestore snapshots cap).Greedy snapshots cap ∧
      ∀ snapshots', List.Forall₂ (fun s s' : MapName × List Entry => s.1 = s'.1 ∧ s.2.Perm s'.2) snapshots snapshots' →
        (planRestore snapshots' cap).fronts = (planRestore snapshots cap).fronts := by
  refine ⟨greedy_planRestore h cap, fun snapshots' hperm => ?_⟩
  rw [fronts_planRestore, fronts_planRestore]
  exact (copiedFronts_perm h (snapshotOf_perm hperm _) (snapshotOf_perm hperm _) _ _).symm

end

/-! ## Two fronts, and room for one -/

section

local instance greedyHost : Host := ⟨.little⟩

def lowFront : LbFrontKey := ⟨.replicate 16 1, 80, 6, 0⟩

def highFront : LbFrontKey := ⟨.replicate 16 2, 80, 6, 0⟩

/-- Both fronts have one row of generation 1; the one with the higher key is read first. -/
def twoFrontsRead : List (MapName × List Entry) :=
  [(.frontMeta, [(highFront.toBytes.toList, [1, 0, 0, 0, 1, 0, 0, 0, 0, 0, 0, 0]),
      (lowFront.toBytes.toList, [1, 0, 0, 0, 1, 0, 0, 0, 0, 0, 0, 0])]),
    (.frontEndpoints, [(slotKey highFront 1 0, .replicate 40 2), (slotKey lowFront 1 0, .replicate 40 1)])]

theorem twoFrontsRead_distinct :
    DistinctKeys (snapshotOf twoFrontsRead .frontMeta) (snapshotOf twoFrontsRead .frontEndpoints) := by
  refine ⟨by decide, by decide, fun e he k hk => ?_⟩
  have hkeys : ∀ e ∈ snapshotOf twoFrontsRead .frontEndpoints, (decodeFrontEndpointKey e.1).all fun k => k.pad = 0 := by
    decide
  have hall := hkeys e he
  rw [hk] at hall
  exact of_decide_eq_true hall

theorem planRestore_greedy_one_front :
    (planRestore twoFrontsRead fun _ => 1).Greedy twoFrontsRead (fun _ => 1) ∧
      (planRestore twoFrontsRead fun _ => 1).fronts.map (·.metaEntry.1) = [lowFront.toBytes.toList] :=
  ⟨(planRestore_greedy (fun _ => 1) twoFrontsRead_distinct).1, by decide⟩

end

end Beep
