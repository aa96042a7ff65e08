import Mathlib.Data.List.AList
import Mathlib.Data.List.Induction
import Mathlib.Data.List.Sort
import Mathlib.Tactic.Common

/-!
# `Lib.Table` — finite maps with an iteration order

A hash map is a list of entries with distinct keys: what a lookup answers is all that the code can rely on,
and the order of the entries is the order in which an iteration happens to hand them out. Every statement
that quantifies over tables therefore quantifies over iteration orders too, and two maps with the same content
(`Table.Same`) may be iterated differently. The same order for a hash *set* is an `IterationOrder`.
-/

/-- A finite map from `K` to `V`. -/
abbrev Table (K V : Type*) := AList fun _ : K => V

namespace Table

variable {K V : Type*} [DecidableEq K]

theorem lookup_insert_ite (t : Table K V) (k k' : K) (v : V) :
    (t.insert k v).lookup k' = if k' = k then some v else t.lookup k' := by
  by_cases h : k' = k
  · subst h
    rw [if_pos rfl]
    exact AList.lookup_insert t
  · rw [if_neg h]
    exact AList.lookup_insert_ne h

theorem lookup_erase_ite (t : Table K V) (k k' : K) :
    (t.erase k).lookup k' = if k' = k then none else t.lookup k' := by
  by_cases h : k' = k
  · subst h
    rw [if_pos rfl]
    exact AList.lookup_erase k' t
  · rw [if_neg h]
    exact AList.lookup_erase_ne h

theorem mem_keys_iff (t : Table K V) (k : K) : k ∈ t.keys ↔ ∃ v, t.lookup k = some v := by
  rw [← AList.mem_keys, ← AList.lookup_isSome, Option.isSome_iff_exists]

omit [DecidableEq K] in
/-- The values, in iteration order. -/
def values (t : Table K V) : List V := t.entries.map Sigma.snd

theorem mem_values {t : Table K V} {v : V} : v ∈ t.values ↔ ∃ k, t.lookup k = some v := by
  simp only [values, List.mem_map, Sigma.exists]
  constructor
  · rintro ⟨k, v', hmem, rfl⟩
    exact ⟨k, AList.mem_lookup_iff.mpr hmem⟩
  · rintro ⟨k, hv⟩
    exact ⟨k, v, AList.mem_lookup_iff.mp hv, rfl⟩

theorem isEmpty_entries_eq_false {t : Table K V} : t.entries.isEmpty = false ↔ ∃ k, t.lookup k ≠ none := by
  rw [List.isEmpty_eq_false_iff_exists_mem]
  constructor
  · rintro ⟨⟨k, v⟩, hmem⟩
    exact ⟨k, Option.ne_none_iff_exists'.mpr ⟨v, AList.mem_lookup_iff.mpr hmem⟩⟩
  · rintro ⟨k, hk⟩
    obtain ⟨v, hv⟩ := Option.ne_none_iff_exists'.mp hk
    exact ⟨⟨k, v⟩, AList.mem_lookup_iff.mp hv⟩

/-! ### How many entries -/

omit [DecidableEq K] in
theorem length_keys (t : Table K V) : t.keys.length = t.entries.length := List.length_map ..

theorem mem_keys_of_isSome {t : Table K V} {k : K} (h : (t.lookup k).isSome) : k ∈ t.keys :=
  AList.mem_keys.mp (AList.lookup_isSome.mp h)

/-- Erasing an entry that is there leaves one less. -/
theorem length_erase_of_mem {t : Table K V} {k : K} (h : (t.lookup k).isSome) :
    (t.erase k).entries.length + 1 = t.entries.length := by
  have hmem := mem_keys_of_isSome h
  have hpos := List.length_pos_of_mem hmem
  rw [← length_keys, ← length_keys, AList.keys_erase, List.length_erase_of_mem hmem]
  omega

/-- An entry that is there is replaced. -/
theorem length_insert_of_mem {t : Table K V} {k : K} (v : V) (h : (t.lookup k).isSome) :
    (t.insert k v).entries.length = t.entries.length := by
  have hmem := mem_keys_of_isSome h
  have hpos := List.length_pos_of_mem hmem
  rw [← length_keys, ← length_keys, AList.keys_insert, List.length_cons, List.length_erase_of_mem hmem]
  omega

theorem length_insert_le (t : Table K V) (k : K) (v : V) :
    (t.insert k v).entries.length ≤ t.entries.length + 1 := by
  rw [← length_keys, ← length_keys, AList.keys_insert, List.length_cons]
  exact Nat.add_le_add_right List.erase_sublist.length_le 1

omit [DecidableEq K] in
/-- The entries that meet a test (`retain`). -/
def filter (p : K → V → Bool) (t : Table K V) : Table K V where
  entries := t.entries.filter fun e => p e.1 e.2
  nodupKeys := t.nodupKeys.sublist List.filter_sublist

theorem lookup_filter (p : K → V → Bool) (t : Table K V) (k : K) :
    (t.filter p).lookup k = (t.lookup k).filter (p k) := by
  refine Option.ext fun v => ?_
  rw [← Option.mem_def, AList.mem_lookup_iff, Option.filter_eq_some_iff, ← Option.mem_def, AList.mem_lookup_iff]
  exact List.mem_filter

/-- What is looked up in a map that was extended by another. -/
theorem lookup_union (t t' : Table K V) (k : K) : (t ∪ t').lookup k = (t.lookup k).or (t'.lookup k) := by
  cases hk : t.lookup k with
  | some v =>
    rw [AList.lookup_union_left ((AList.lookup_isSome).mp (by rw [hk]; rfl)), hk]
    rfl
  | none =>
    rw [AList.lookup_union_right (AList.lookup_eq_none.mp hk)]
    rfl

/-! ## Writes -/

/-- What a sequence of writes leaves at a key. -/
def lastValue (writes : List (K × V)) (k : K) : Option V :=
  ((writes.filter fun e => e.1 = k).getLast?).map Prod.snd

theorem lastValue_append (l l' : List (K × V)) (k : K) :
    lastValue (l ++ l') k = (lastValue l' k).or (lastValue l k) := by
  unfold lastValue
  rw [List.filter_append, List.getLast?_append]
  cases (l'.filter fun e => e.1 = k).getLast? <;> rfl

theorem lastValue_eq_none {l : List (K × V)} {k : K} : lastValue l k = none ↔ ∀ e ∈ l, e.1 ≠ k := by
  simp [lastValue]

theorem mem_of_lastValue {l : List (K × V)} {k : K} {v : V} (h : lastValue l k = some v) : (k, v) ∈ l := by
  obtain ⟨⟨k', v'⟩, he, rfl⟩ := Option.map_eq_some_iff.mp h
  obtain ⟨hmem, hk⟩ := List.mem_filter.mp (List.mem_of_getLast? he)
  obtain rfl : k' = k := of_decide_eq_true hk
  exact hmem

/-- Where the writes to a key agree, that is what they leave. -/
theorem lastValue_eq_some {l : List (K × V)} {k : K} {v : V} (hmem : (k, v) ∈ l)
    (hagree : ∀ v', (k, v') ∈ l → v' = v) : lastValue l k = some v := by
  cases hlast : lastValue l k with
  | none => exact absurd rfl (lastValue_eq_none.mp hlast (k, v) hmem)
  | some v' => rw [hagree v' (mem_of_lastValue hlast)]

theorem lastValue_map {V' : Type*} (g : V → V') (l : List (K × V)) (k : K) :
    lastValue (l.map fun e => (e.1, g e.2)) k = (lastValue l k).map g := by
  unfold lastValue
  rw [List.filter_map, List.getLast?_map, Option.map_map, Option.map_map]
  rfl

theorem lookup_foldl_insert (l : List (K × V)) (t : Table K V) (k : K) :
    (l.foldl (fun t e => t.insert e.1 e.2) t).lookup k = (lastValue l k).or (t.lookup k) := by
  -- on the writes, the last one first
  induction l using List.reverseRecOn with
  | nil => rfl
  | append_singleton l e ih =>
    rw [List.foldl_append, lastValue_append, List.foldl_cons, List.foldl_nil, lookup_insert_ite, ih]
    by_cases hk : e.1 = k
    · simp [lastValue, hk]
    · rw [if_neg (Ne.symm hk)]
      simp [lastValue, hk]

/-- Two maps with the same content, in whatever order they are iterated. -/
def Same (t t' : Table K V) : Prop := ∀ k, t.lookup k = t'.lookup k

/-- The content of a map is its entries up to their order. -/
theorem same_iff_perm {t t' : Table K V} : t.Same t' ↔ t.entries.Perm t'.entries := by
  constructor
  · intro h
    refine List.lookup_ext t.nodupKeys t'.nodupKeys fun k v => ?_
    exact iff_of_eq (congrArg (v ∈ ·) (h k))
  · intro h k
    exact AList.perm_lookup h

/-- Any entry can be the first to be visited. -/
theorem exists_first {t : Table K V} {k : K} {v : V} (h : t.lookup k = some v) :
    ∃ t' : Table K V, t'.Same t ∧ ∃ rest, t'.entries = ⟨k, v⟩ :: rest := by
  refine ⟨t.insert k v, fun k' => ?_, _, AList.entries_insert⟩
  rw [lookup_insert_ite]
  split
  · rename_i hk
    rw [hk, h]
  · rfl

/-- Any entry can be the last to be visited. -/
theorem exists_last {t : Table K V} {k : K} {v : V} (h : t.lookup k = some v) :
    ∃ t' : Table K V, t'.Same t ∧ ∃ before, t'.entries = before ++ [⟨k, v⟩] := by
  obtain ⟨first, hsame, rest, hfirst⟩ := exists_first h
  have hperm : first.entries.reverse.Perm first.entries := List.reverse_perm _
  let last : Table K V := ⟨first.entries.reverse, (List.perm_nodupKeys hperm).mpr first.nodupKeys⟩
  have hlast : last.Same t := fun k' => (same_iff_perm.mpr hperm k').trans (hsame k')
  refine ⟨last, hlast, rest.reverse, ?_⟩
  show first.entries.reverse = _
  rw [hfirst, List.reverse_cons]

/-- The values, one key after the other. -/
theorem flatMap_values {α : Type*} (t : Table K V) (f : V → List α) :
    t.values.flatMap f = t.keys.flatMap fun k => (t.lookup k).elim [] f := by
  show (t.entries.map Sigma.snd).flatMap f = (t.entries.map Sigma.fst).flatMap _
  rw [List.flatMap_map, List.flatMap_map]
  refine List.flatMap_congr fun e he => ?_
  rw [AList.mem_lookup_iff.mpr he]
  rfl

/-- What the values offer is all different exactly if each offers different things and no two offer the same. -/
theorem nodup_flatMap_values {t : Table K V} {β : Type*} {f : V → List β} : (t.values.flatMap f).Nodup ↔
    (∀ k v, t.lookup k = some v → (f v).Nodup) ∧
      ∀ k k' v v' b, t.lookup k = some v → t.lookup k' = some v' → b ∈ f v → b ∈ f v' → k = k' := by
  unfold values
  rw [List.flatMap_map, List.nodup_flatMap]
  refine and_congr ⟨fun h k v hk => h ⟨k, v⟩ (AList.mem_lookup_iff.mp hk),
    fun h e he => h e.1 e.2 (AList.mem_lookup_iff.mpr he)⟩ ?_
  have hsymm : Std.Symm (Function.onFun List.Disjoint fun e : Σ _ : K, V => f e.2) :=
    ⟨fun _ _ h _ hb hb' => h hb' hb⟩
  constructor
  · intro h k k' v v' b hk hk' hb hb'
    by_contra hne
    exact h.forall (AList.mem_lookup_iff.mp hk) (AList.mem_lookup_iff.mp hk')
      (fun heq => hne (congrArg Sigma.fst heq)) hb hb'
  · intro h
    refine t.nodupKeys.nodup.pairwise_of_forall_ne fun e he e' he' hne b hb hb' => hne ?_
    have hk := AList.mem_lookup_iff.mpr he
    have hk' := AList.mem_lookup_iff.mpr he'
    have hkey := h _ _ _ _ b hk hk' hb hb'
    rw [hkey, hk'] at hk
    exact Sigma.ext hkey (heq_of_eq (Option.some_inj.mp hk).symm)

theorem Same.refl (t : Table K V) : t.Same t := fun _ => rfl

theorem Same.symm {t t' : Table K V} (h : t.Same t') : t'.Same t := fun k => (h k).symm

end Table

/-- The order in which a hash set with the given elements is iterated: some permutation of them. -/
structure IterationOrder (K : Type*) where
  arrange : List K → List K
  perm : ∀ l, (arrange l).Perm l

namespace IterationOrder

variable {K : Type*} (order : IterationOrder K)

/-- The order in which the elements are stored. -/
def asStored : IterationOrder K := ⟨id, fun _ => .rfl⟩

@[simp] theorem mem_arrange {k : K} {l : List K} : k ∈ order.arrange l ↔ k ∈ l :=
  (order.perm l).mem_iff

theorem nodup_arrange {l : List K} (h : l.Nodup) : (order.arrange l).Nodup :=
  (order.perm l).nodup_iff.mpr h

end IterationOrder
