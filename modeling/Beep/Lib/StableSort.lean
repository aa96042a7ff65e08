import Mathlib.Data.List.Sort

/-!
# `Lib.StableSort` — sorting by a rank

A stable sort by a rank keeps the order of elements of one rank. So what is read off the sorted list depends only on
which elements there are, and not on their order, where elements of one rank read the same (`map_sortByRank_eq`); and
only there, for whichever element of a rank comes first stays first (`eq_of_map_sortByRank_eq`).
-/

namespace StableSort

variable {α β R : Type*} [LinearOrder R] {rank : α → R}

/-- Stable sorting by a rank. -/
abbrev sortByRank (rank : α → R) (l : List α) : List α := l.insertionSort fun a b => rank a ≤ rank b

theorem pairwise_sortByRank (rank : α → R) (l : List α) :
    (sortByRank rank l).Pairwise fun a b => rank a ≤ rank b :=
  haveI : IsTrans α fun a b => rank a ≤ rank b := ⟨fun _ _ _ => le_trans⟩
  haveI : Std.Total fun a b : α => rank a ≤ rank b := ⟨fun a b => le_total (rank a) (rank b)⟩
  List.pairwise_insertionSort _ l

theorem perm_sortByRank (rank : α → R) (l : List α) : (sortByRank rank l).Perm l := List.perm_insertionSort _ l

/-- The ranks of a sorted list depend on its elements only. -/
theorem map_rank_sortByRank {l l' : List α} (h : l.Perm l') :
    (sortByRank rank l).map rank = (sortByRank rank l').map rank := by
  have hperm := (((perm_sortByRank rank l).trans h).trans (perm_sortByRank rank l').symm).map rank
  exact hperm.eq_of_pairwise' (List.pairwise_map.mpr (pairwise_sortByRank rank l))
    (List.pairwise_map.mpr (pairwise_sortByRank rank l'))

/-- **Order does not matter** where elements of one rank read the same. -/
theorem map_sortByRank_eq {f : α → β} {l l' : List α} (h : l.Perm l')
    (hties : ∀ a ∈ l, ∀ b ∈ l, rank a = rank b → f a = f b) :
    (sortByRank rank l).map f = (sortByRank rank l').map f := by
  classical
  -- what is read is a function of the rank
  obtain ⟨g, hg⟩ : ∃ g : R → Option β, ∀ a ∈ l, g (rank a) = some (f a) := by
    refine ⟨fun r => if hr : ∃ a ∈ l, rank a = r then some (f hr.choose) else none, fun a ha => ?_⟩
    have hr : ∃ b ∈ l, rank b = rank a := ⟨a, ha, rfl⟩
    simp only [dif_pos hr]
    exact congrArg some (hties _ hr.choose_spec.1 a ha hr.choose_spec.2)
  have hread : ∀ l₁ : List α, l₁.Perm l → (sortByRank rank l₁).map (some ∘ f) = ((sortByRank rank l₁).map rank).map g := by
    intro l₁ hl₁
    rw [List.map_map]
    refine List.map_congr_left fun a ha => ?_
    exact (hg a (hl₁.mem_iff.mp ((perm_sortByRank rank l₁).mem_iff.mp ha))).symm
  have hsome : (sortByRank rank l).map (some ∘ f) = (sortByRank rank l').map (some ∘ f) := by
    rw [hread l (.refl l), hread l' h.symm, map_rank_sortByRank h]
  rw [← List.map_map, ← List.map_map] at hsome
  exact List.map_injective_iff.mpr (Option.some_injective β) hsome

/-- A sort by any relation that decides by the rank first sorts by the rank. -/
theorem pairwise_insertionSort_of_rank {r : α → α → Prop} [DecidableRel r]
    (hr : ∀ a b, r a b → rank a ≤ rank b) (hnr : ∀ a b, ¬r a b → rank b ≤ rank a) (l : List α) :
    (l.insertionSort r).Pairwise fun a b => rank a ≤ rank b := by
  have hinsert : ∀ (a : α) (l : List α), l.Pairwise (fun a b => rank a ≤ rank b) →
      (l.orderedInsert r a).Pairwise fun a b => rank a ≤ rank b := by
    intro a l hl
    induction l with
    | nil => exact List.pairwise_singleton ..
    | cons b l ih =>
      obtain ⟨hb, hl⟩ := List.pairwise_cons.mp hl
      rw [List.orderedInsert]
      split
      · rename_i hab
        refine List.pairwise_cons.mpr ⟨fun c hc => ?_, List.pairwise_cons.mpr ⟨hb, hl⟩⟩
        rcases List.mem_cons.mp hc with rfl | hc
        · exact hr a c hab
        · exact (hr a b hab).trans (hb c hc)
      · rename_i hab
        refine List.pairwise_cons.mpr ⟨fun c hc => ?_, ih hl⟩
        rcases (List.mem_orderedInsert r).mp hc with rfl | hc
        · exact hnr c b hab
        · exact hb c hc
  induction l with
  | nil => exact List.Pairwise.nil
  | cons a l ih => exact hinsert a _ ih

/-- Comparing images. -/
theorem transCmp_image {cmp : β → β → Ordering} [Std.TransCmp cmp] (g : α → β) :
    Std.TransCmp fun a b => cmp (g a) (g b) where
  eq_swap := fun {a b} => @Std.OrientedCmp.eq_swap _ cmp _ (g a) (g b)
  isLE_trans := fun {a b c} => @Std.TransCmp.isLE_trans _ cmp _ (g a) (g b) (g c)

/-- **Sorting by a comparison** depends on the elements only, where it tells them apart. -/
theorem insertionSort_eq_of_perm {cmp : α → α → Ordering} [Std.TransCmp cmp] {l l' : List α} (h : l.Perm l')
    (hties : ∀ a ∈ l, ∀ b ∈ l, cmp a b = .eq → a = b) :
    l.insertionSort (fun a b => (cmp a b).isLE = true) = l'.insertionSort fun a b => (cmp a b).isLE = true := by
  have : IsTrans α fun a b => (cmp a b).isLE = true := ⟨fun _ _ _ => Std.TransCmp.isLE_trans⟩
  have : Std.Total fun a b => (cmp a b).isLE = true := by
    refine ⟨fun a b => ?_⟩
    rw [@Std.OrientedCmp.eq_swap _ cmp _ b a]
    cases cmp a b <;> simp
  have hperm := List.perm_insertionSort fun a b => (cmp a b).isLE = true
  refine List.Perm.eq_of_pairwise (fun a b ha hb hab hba => ?_) (List.pairwise_insertionSort _ l)
    (List.pairwise_insertionSort _ l') (((hperm l).trans h).trans (hperm l').symm)
  have hb' := h.mem_iff.mpr ((hperm l').mem_iff.mp hb)
  exact hties a ((hperm l).mem_iff.mp ha) b hb' (Std.OrientedCmp.isLE_antisymm hab hba)

/-- Sorting by a rank that is read off an image sorts the image. -/
theorem map_sortByRank {rank : β → R} (g : α → β) (l : List α) :
    (sortByRank (fun a => rank (g a)) l).map g = sortByRank rank (l.map g) :=
  List.map_insertionSort _ _ g l fun _ _ _ _ => Iff.rfl

/-- The first element stays the first of its rank. -/
theorem sortByRank_cons (rank : α → R) (a : α) (l : List α) :
    ∃ before after, sortByRank rank (a :: l) = before ++ a :: after ∧ (∀ b ∈ before, rank b < rank a) ∧
      ∀ b ∈ after, rank a ≤ rank b := by
  have hsorted := pairwise_sortByRank rank (a :: l)
  have hsplit : sortByRank rank (a :: l) = _ := List.insertionSort_cons_eq_take_drop _ a l
  rw [hsplit] at hsorted ⊢
  refine ⟨_, _, rfl, fun b hb => ?_, fun b hb => ?_⟩
  · simpa using List.all_eq_true.mp (List.all_takeWhile) b hb
  · exact (List.pairwise_cons.mp (List.pairwise_append.mp hsorted).2.1).1 b hb

/-- **Order matters** where elements of one rank read differently. -/
theorem eq_of_map_sortByRank_eq {f : α → β} {a b : α} {l l' : List α} (h : (a :: l).Perm (b :: l'))
    (hrank : rank a = rank b) (heq : (sortByRank rank (a :: l)).map f = (sortByRank rank (b :: l')).map f) :
    f a = f b := by
  obtain ⟨before, after, hsort, hbefore, hafter⟩ := sortByRank_cons rank a l
  obtain ⟨before', after', hsort', hbefore', hafter'⟩ := sortByRank_cons rank b l'
  -- as many elements stand before the one as before the other
  have hcount : ∀ {c : α} {before after : List α}, (∀ x ∈ before, rank x < rank c) → (∀ x ∈ after, rank c ≤ rank x) →
      (before ++ c :: after).countP (fun x => rank x < rank c) = before.length := by
    intro c before after hbefore hafter
    rw [List.countP_append, List.countP_eq_length.mpr fun x hx => decide_eq_true (hbefore x hx),
      List.countP_eq_zero.mpr ?_, Nat.add_zero]
    intro x hx
    rcases List.mem_cons.mp hx with rfl | hx
    · simp
    · simpa using hafter x hx
  have hlength : before.length = before'.length := by
    have hperm : (sortByRank rank (a :: l)).Perm (sortByRank rank (b :: l')) :=
      ((perm_sortByRank rank _).trans h).trans (perm_sortByRank rank _).symm
    rw [← hcount hbefore hafter, ← hcount hbefore' hafter', ← hsort, ← hsort', hrank]
    exact hperm.countP_eq _
  rw [hsort, hsort', List.map_append, List.map_append] at heq
  have htail := (List.append_inj heq (by rw [List.length_map, List.length_map, hlength])).2
  exact (List.cons.inj htail).1

/-! ## Leading runs -/

/-- Where those with a property come first, the leading run of them is all of them. -/
theorem getElem_leading_iff {p : α → Bool} {l : List α} (h : l.Pairwise fun a b => p b = true → p a = true) {i : Nat}
    (hi : i < l.length) : p l[i] = true ↔ i < (l.takeWhile p).length := by
  induction l generalizing i with
  | nil => exact absurd hi (Nat.not_lt_zero i)
  | cons a l ih =>
    rw [List.pairwise_cons] at h
    cases ha : p a with
    | true =>
      rw [List.takeWhile_cons_of_pos ha, List.length_cons]
      cases i with
      | zero => simp [ha]
      | succ i =>
        rw [List.getElem_cons_succ, Nat.succ_lt_succ_iff]
        exact ih h.2 (Nat.lt_of_succ_lt_succ hi)
    | false =>
      -- then none behind it has the property either
      rw [List.takeWhile_cons_of_neg (by simp [ha])]
      refine ⟨fun hp => ?_, fun hlt => absurd hlt (Nat.not_lt_zero i)⟩
      cases i with
      | zero => simp [ha] at hp
      | succ i =>
        have hback := h.1 _ (List.getElem_mem (Nat.lt_of_succ_lt_succ hi)) hp
        simp [ha] at hback

end StableSort
