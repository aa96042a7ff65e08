import Beep.Lib.Encoding

/-!
# `Lib.NetText` — an address is known by its text

`Display` of addresses is injective (`IpAddr.display_injective`), and what it writes can stand in a list with any other
separator (`IpAddr.display_no_sep`). A text is taken apart at its separators: what stands
between them are the numbers of the address, and where the `::` of an IPv6 address stands is where an empty part is.
-/

namespace IpAddr

/-! ## Texts with separators

Texts joined by a separator that none of them contains are known by the joined text. -/

/-- A joined text is split at the separator again, which stands in none of the parts. -/
theorem intercalate_inj {sep : Char} {l l' : List String} (hl : ∀ s ∈ l, sep ∉ s.toList) (hl' : ∀ s ∈ l', sep ∉ s.toList)
    (hne : l ≠ []) (hne' : l' ≠ [])
    (h : (String.singleton sep).intercalate l = (String.singleton sep).intercalate l') : l = l' := by
  have hlists := congrArg String.toList h
  rw [String.toList_intercalate, String.toList_intercalate, String.toList_singleton] at hlists
  have hsplit := congrArg (List.splitOn sep) hlists
  rw [List.splitOn_intercalate sep (by simpa using hl) (by simpa using hne),
    List.splitOn_intercalate sep (by simpa using hl') (by simpa using hne')] at hsplit
  exact (List.map_inj_right fun _ _ h => String.toList_inj.mp h).mp hsplit

/-- Two joined texts, joined. -/
theorem intercalate_append (sep : String) {l l' : List String} (hne : l ≠ []) (hne' : l' ≠ []) :
    sep.intercalate (l ++ l') = sep.intercalate l ++ sep ++ sep.intercalate l' := by
  induction l with
  | nil => exact absurd rfl hne
  | cons s l ih =>
    cases l with
    | nil =>
      obtain ⟨t, l', rfl⟩ := List.exists_cons_of_ne_nil hne'
      simp [String.intercalate_cons_cons]
    | cons t l =>
      rw [List.cons_append, List.cons_append, String.intercalate_cons_cons, ← List.cons_append,
        ih (List.cons_ne_nil _ _), String.intercalate_cons_cons]
      simp [String.append_assoc]

/-- A number's text has digits only. -/
theorem toDigits_no_sep {sep : Char} (hsep : toDigit 16 sep = none) {b n : Nat} (hb : 1 < b) (hb' : b ≤ 16) :
    sep ∉ Nat.toDigits b n := by
  induction n using Nat.strongRecOn with
  | ind n ih =>
    have hdigit : ∀ d, d < 16 → Nat.digitChar d ≠ sep := by
      rintro d hd rfl
      rw [Encoding.toDigit_digitChar hd] at hsep
      cases hsep
    -- on the digits from the last one on
    rcases Nat.lt_or_ge n b with hsmall | hlarge
    · rw [Nat.toDigits_of_lt_base hsmall, List.mem_singleton]
      exact fun h => hdigit n (by omega) h.symm
    · rw [Nat.toDigits_of_base_le hb hlarge, List.mem_append, List.mem_singleton]
      rintro (h | h)
      · exact ih (n / b) (Nat.div_lt_self (by omega) hb) h
      · exact hdigit (n % b) (by have := Nat.mod_lt n (show 0 < b by omega); omega) h.symm

/-! ## IPv4

The text is the four numbers between dots, and a number is known by its digits. -/

/-- The four numbers of an IPv4 address. -/
def v4Parts (bits : UInt32) : List String :=
  [toString (bits.toNat / 16777216 % 256), toString (bits.toNat / 65536 % 256), toString (bits.toNat / 256 % 256),
    toString (bits.toNat / 1 % 256)]

/-- `Display` of an IPv4 address is its four numbers, joined by dots. -/
theorem displayV4_eq (bits : UInt32) : displayV4 bits = (String.singleton '.').intercalate (v4Parts bits) := rfl

/-- The numbers are decimal, so nothing that is no digit stands in them. -/
theorem v4Parts_no_sep {sep : Char} (hsep : toDigit 16 sep = none) (bits : UInt32) :
    ∀ s ∈ v4Parts bits, sep ∉ s.toList := by
  have hnumber : ∀ n : Nat, sep ∉ (toString n).toList := by
    intro n
    rw [Nat.toString_eq_repr, Nat.toList_repr]
    exact toDigits_no_sep hsep (by omega) (by omega)
  intro s hs
  simp only [v4Parts, List.mem_cons, List.not_mem_nil, or_false] at hs
  rcases hs with rfl | rfl | rfl | rfl <;> exact hnumber _

/-- A number is the value of its decimal digits. -/
theorem toString_nat_inj {m n : Nat} (h : toString m = toString n) : m = n := by
  have hdigits := congrArg String.toList h
  rw [Nat.toString_eq_repr, Nat.toString_eq_repr, Nat.toList_repr, Nat.toList_repr] at hdigits
  have hvalue := congrArg (Nat.ofDigitChars 10 · 0) hdigits
  simpa using hvalue

/-- **An IPv4 address is known by its text**: the four numbers are the base-256 digits of the address. -/
theorem displayV4_injective {bits bits' : UInt32} (h : displayV4 bits = displayV4 bits') : bits = bits' := by
  have hdot : toDigit 16 '.' = none := by decide
  have hparts := intercalate_inj (v4Parts_no_sep hdot bits) (v4Parts_no_sep hdot bits') (List.cons_ne_nil _ _)
    (List.cons_ne_nil _ _) h
  simp only [v4Parts, List.cons.injEq, and_true] at hparts
  obtain ⟨ha, hb, hc, hd⟩ := hparts
  have hlt := bits.toNat_lt
  have hlt' := bits'.toNat_lt
  have ha := toString_nat_inj ha
  have hb := toString_nat_inj hb
  have hc := toString_nat_inj hc
  have hd := toString_nat_inj hd
  refine UInt32.toNat_inj.mp ?_
  omega

/-! ## IPv6

The text is eight groups between colons, with the longest run of zero groups left out and an address that is mapped from
IPv4 written with dots. The parts between the colons tell the three forms apart: only a left-out run makes an empty part
in the middle, and only a mapped address has dots. -/

/-- An address has eight groups. -/
theorem length_segments (octets : Bytes 16) : (segments octets).length = 8 := by simp [segments]

/-- A group is two octets, the first one in front. -/
theorem getElem?_segments (octets : Bytes 16) {i : Nat} (h : i < 8) : (segments octets)[i]? =
    some (256 * (octets.toList.getD (2 * i) 0).toNat + (octets.toList.getD (2 * i + 1) 0).toNat) := by
  simp [segments, h]

/-- The groups are the address: each octet is the upper or the lower half of one. -/
theorem segments_injective {octets octets' : Bytes 16} (h : segments octets = segments octets') : octets = octets' := by
  have hbyte : ∀ i, i < 8 → octets.toList.getD (2 * i) 0 = octets'.toList.getD (2 * i) 0 ∧
      octets.toList.getD (2 * i + 1) 0 = octets'.toList.getD (2 * i + 1) 0 := by
    intro i hi
    have hgroup := getElem?_segments octets hi
    rw [h, getElem?_segments octets' hi, Option.some_inj] at hgroup
    have h₁ := (octets.toList.getD (2 * i) 0).toNat_lt
    have h₂ := (octets.toList.getD (2 * i + 1) 0).toNat_lt
    have h₃ := (octets'.toList.getD (2 * i) 0).toNat_lt
    have h₄ := (octets'.toList.getD (2 * i + 1) 0).toNat_lt
    exact ⟨UInt8.toNat_inj.mp (by omega), UInt8.toNat_inj.mp (by omega)⟩
  refine Vector.toList_inj.mp (List.ext_getElem (by simp) fun j hj hj' => ?_)
  have hj16 : j < 16 := by simpa using hj
  -- octet `j` is in group `j / 2`
  have hget : ∀ v : Bytes 16, ∀ hv : j < v.toList.length, v.toList[j] = v.toList.getD j 0 := by
    intro v hv
    rw [List.getD_eq_getElem?_getD, List.getElem?_eq_getElem hv]
    rfl
  rw [hget octets hj, hget octets' hj']
  obtain ⟨heven, hodd⟩ := hbyte (j / 2) (by omega)
  rcases Nat.mod_two_eq_zero_or_one j with hmod | hmod
  · rwa [show 2 * (j / 2) = j by omega] at heven
  · rwa [show 2 * (j / 2) + 1 = j by omega] at hodd

/-- A group has sixteen bits. -/
theorem segments_lt (octets : Bytes 16) {g : Nat} (h : g ∈ segments octets) : g < 65536 := by
  simp only [segments, List.mem_map, List.mem_range] at h
  obtain ⟨i, -, rfl⟩ := h
  have h₁ := (octets.toList.getD (2 * i) 0).toNat_lt
  have h₂ := (octets.toList.getD (2 * i + 1) 0).toNat_lt
  omega

/-- A run of zero groups. -/
def ZeroRun (groups : List Nat) (run : Nat × Nat) : Prop :=
  ∀ i, run.1 ≤ i → i < run.1 + run.2 → groups[i]? = some 0

/-- What is appended leaves a run of zeros where it is. -/
theorem ZeroRun.append {groups : List Nat} {run : Nat × Nat} (h : ZeroRun groups run) (g : Nat) :
    ZeroRun (groups ++ [g]) run := by
  intro i hi hi'
  have hget := h i hi hi'
  rw [List.getElem?_append_left (List.getElem?_eq_some_iff.mp hget).1, hget]

/-- **The run that is compressed** is a run of zeros. -/
theorem zeroRun_zeroRun (groups : List Nat) : ZeroRun groups (zeroRun groups) := by
  -- on the groups, with the current run ending where the groups read so far do
  have hfold : ∀ groups : List Nat,
      let runs := groups.zipIdx.foldl (fun (runs : (Nat × Nat) × (Nat × Nat)) group =>
        if group.1 = 0 then
          let current := (if runs.1.2 = 0 then group.2 else runs.1.1, runs.1.2 + 1)
          (current, if runs.2.2 < current.2 then current else runs.2)
        else ((0, 0), runs.2)) ((0, 0), (0, 0))
      ZeroRun groups runs.1 ∧ ZeroRun groups runs.2 ∧ (runs.1.2 = 0 ∨ runs.1.1 + runs.1.2 = groups.length) := by
    intro groups
    induction groups using List.reverseRecOn with
    | nil => exact ⟨fun i h h' => by simp at h', fun i h h' => by simp at h', Or.inl rfl⟩
    | append_singleton groups g ih =>
      rw [List.zipIdx_append, List.foldl_append]
      generalize groups.zipIdx.foldl _ _ = runs at ih ⊢
      obtain ⟨current, longest⟩ := runs
      obtain ⟨hcurrent, hlongest, hends⟩ := ih
      dsimp only at hcurrent hlongest hends
      simp only [List.zipIdx_cons, List.zipIdx_nil, List.foldl_cons, List.foldl_nil, Nat.zero_add]
      -- a zero group goes on the current run, which may become the longest one
      by_cases hg : g = 0
      · subst hg
        simp only [if_true]
        have hlonger : ZeroRun (groups ++ [0])
            (if current.2 = 0 then groups.length else current.1, current.2 + 1) := by
          intro i hi hi'
          by_cases hlast : i = groups.length
          · subst hlast
            simp
          · refine hcurrent.append 0 i ?_ ?_
            · split at hi <;> split at hi' <;> simp only at hi hi' <;> omega
            · split at hi <;> split at hi' <;> simp only at hi hi' <;> omega
        refine ⟨hlonger, ?_, Or.inr ?_⟩
        · split
          · exact hlonger
          · exact hlongest.append 0
        · rw [List.length_append, List.length_singleton]
          split <;> omega
      · -- any other group ends it
        simp only [hg, if_false]
        exact ⟨fun i h h' => by simp at h', hlongest.append g, Or.inl trivial⟩
  exact (hfold groups).2.1

/-- The groups as they are written. -/
def v6Groups (groups : List Nat) : List String := groups.map fun g => String.ofList (Nat.toDigits 16 g)

/-- A group is the value of its hexadecimal digits. -/
theorem v6Groups_injective {groups groups' : List Nat} (h : v6Groups groups = v6Groups groups') : groups = groups' := by
  refine (List.map_inj_right fun g g' hg => ?_).mp h
  have hdigits := congrArg (Encoding.digitsValue 16 0 ∘ String.toList) hg
  simpa [Encoding.digitsValue_toDigits] using hdigits

/-- A list of parts, or the empty part if there is none. -/
def orEmptyPart (l : List String) : List String := if l = [] then [""] else l

/-- What stands between the separators of an IPv6 address. -/
def v6Parts (octets : Bytes 16) : List String :=
  let groups := segments octets
  if groups.take 6 = [0, 0, 0, 0, 0, 0xffff] then
    ["", "", "ffff", displayV4 (UInt32.ofNat (65536 * groups.getD 6 0 + groups.getD 7 0))]
  else
    let (start, len) := zeroRun groups
    if 1 < len then
      orEmptyPart (v6Groups (groups.take start)) ++ "" :: orEmptyPart (v6Groups (groups.drop (start + len)))
    else v6Groups groups

/-- The empty part that stands for no parts writes nothing. -/
theorem intercalate_orEmptyPart (sep : String) (l : List String) :
    sep.intercalate (orEmptyPart l) = sep.intercalate l := by
  unfold orEmptyPart
  split
  · rename_i h
    rw [h]
    simp
  · rfl

/-- `Display` of an IPv6 address is its parts, joined by colons. -/
theorem displayV6_eq (octets : Bytes 16) : displayV6 octets = (String.singleton ':').intercalate (v6Parts octets) := by
  have hne : ∀ l, orEmptyPart l ≠ [] := by
    intro l
    unfold orEmptyPart
    split <;> simp_all
  unfold displayV6 v6Parts
  dsimp only
  split
  · generalize displayV4 _ = text
    rw [show ["", "", "ffff", text] = ["", "", "ffff"] ++ [text] from rfl,
      intercalate_append _ (List.cons_ne_nil _ _) (List.cons_ne_nil _ _)]
    rfl
  · split
    · rw [intercalate_append _ (hne _) (List.cons_ne_nil _ _),
        show ∀ l : List String, "" :: l = [""] ++ l from fun _ => rfl,
        intercalate_append _ (List.cons_ne_nil _ _) (hne _), intercalate_orEmptyPart, intercalate_orEmptyPart]
      simp only [String.append_assoc]
      rfl
    · rfl

/-- What is neither in the separator nor in a part is not in the joined text. -/
theorem not_mem_intercalate {c : Char} {sep : String} {l : List String} (hsep : c ∉ sep.toList)
    (hl : ∀ s ∈ l, c ∉ s.toList) : c ∉ (sep.intercalate l).toList := by
  induction l with
  | nil => simp
  | cons s l ih =>
    have hs := hl s List.mem_cons_self
    have hrest := ih fun t ht => hl t (List.mem_cons_of_mem s ht)
    cases l with
    | nil => simpa using hs
    | cons t l =>
      rw [String.intercalate_cons_cons]
      simp only [String.toList_append, List.mem_append, not_or]
      exact ⟨⟨hs, hsep⟩, hrest⟩

/-- The groups are hexadecimal, so nothing that is no such digit stands in them. -/
theorem v6Groups_no_sep {sep : Char} (hsep : toDigit 16 sep = none) (groups : List Nat) :
    ∀ s ∈ v6Groups groups, sep ∉ s.toList := by
  intro s hs
  obtain ⟨g, -, rfl⟩ := List.mem_map.mp hs
  rw [String.toList_ofList]
  exact toDigits_no_sep hsep (by omega) (by omega)

/-- The empty part has nothing in it. -/
theorem orEmptyPart_no_sep {sep : Char} {l : List String} (h : ∀ s ∈ l, sep ∉ s.toList) :
    ∀ s ∈ orEmptyPart l, sep ∉ s.toList := by
  unfold orEmptyPart
  split
  · intro s hs
    rw [List.mem_singleton.mp hs]
    exact List.not_mem_nil
  · exact h

/-- The address is one that is written with an IPv4 address at its end. -/
def ShownMapped (octets : Bytes 16) : Prop := (segments octets).take 6 = [0, 0, 0, 0, 0, 0xffff]

/-- The parts have no separator but the dots of an IPv4 address at the end. -/
theorem v6Parts_no_sep {sep : Char} (hsep : toDigit 16 sep = none) {octets : Bytes 16}
    (hdot : ShownMapped octets → sep ≠ '.') : ∀ s ∈ v6Parts octets, sep ∉ s.toList := by
  have hgroups := v6Groups_no_sep hsep
  unfold v6Parts
  dsimp only
  split
  · rename_i hmapped
    intro s hs
    simp only [List.mem_cons, List.not_mem_nil, or_false] at hs
    rcases hs with rfl | rfl | rfl | rfl
    · exact List.not_mem_nil
    · exact List.not_mem_nil
    · -- `ffff` has digits only
      intro hmem
      have hf : sep = 'f' := by simpa using hmem
      rw [hf] at hsep
      exact absurd hsep (by decide)
    · -- only here can a dot stand
      rw [displayV4_eq]
      exact not_mem_intercalate (by simpa using hdot hmapped) (v4Parts_no_sep hsep _)
  · split
    · intro s hs
      rcases List.mem_append.mp hs with hs | hs
      · exact orEmptyPart_no_sep (hgroups _) s hs
      · rcases List.mem_cons.mp hs with rfl | hs
        · exact List.not_mem_nil
        · exact orEmptyPart_no_sep (hgroups _) s hs
    · exact hgroups _

/-- No part has a colon in it, so the text is split at its colons. -/
theorem v6Parts_no_colon (octets : Bytes 16) : ∀ s ∈ v6Parts octets, ':' ∉ s.toList :=
  v6Parts_no_sep (by decide) fun _ => by decide

/-- There is always some part. -/
theorem v6Parts_ne_nil (octets : Bytes 16) : v6Parts octets ≠ [] := by
  unfold v6Parts
  dsimp only
  split
  · exact List.cons_ne_nil _ _
  · split
    · simp
    · intro h
      have hlen := congrArg List.length h
      simp [v6Groups, length_segments] at hlen

/-- A group has at least one digit. -/
theorem ne_empty_of_mem_v6Groups {groups : List Nat} : ∀ s ∈ v6Groups groups, s ≠ "" := by
  rintro s hs rfl
  obtain ⟨g, -, hg⟩ := List.mem_map.mp hs
  have hnil := congrArg String.toList hg
  simp at hnil

/-- The parts in front of the first empty one. -/
theorem takeWhile_orEmptyPart {l rest : List String} (hl : ∀ s ∈ l, s ≠ "") :
    (orEmptyPart l ++ "" :: rest).takeWhile (· ≠ "") = l := by
  unfold orEmptyPart
  split
  · rename_i h
    rw [h]
    simp
  · rw [List.takeWhile_append_of_pos (by simpa using hl)]
    simp

/-- Read from behind, the parts are those of the groups read from behind. -/
theorem reverse_orEmptyPart (l : List String) : (orEmptyPart l).reverse = orEmptyPart l.reverse := by
  unfold orEmptyPart
  split
  · rename_i h
    rw [h]
    rfl
  · rename_i h
    rw [if_neg (by simpa using h)]

/-- The parts around the `::` are the groups in front of it and behind it. -/
theorem compressed_inj {pre post pre' post' : List String} (hpre : ∀ s ∈ pre, s ≠ "") (hpost : ∀ s ∈ post, s ≠ "")
    (hpre' : ∀ s ∈ pre', s ≠ "") (hpost' : ∀ s ∈ post', s ≠ "")
    (h : orEmptyPart pre ++ "" :: orEmptyPart post = orEmptyPart pre' ++ "" :: orEmptyPart post') :
    pre = pre' ∧ post = post' := by
  constructor
  · have hfront := congrArg (List.takeWhile (· ≠ "")) h
    rwa [takeWhile_orEmptyPart hpre, takeWhile_orEmptyPart hpre'] at hfront
  · have hback := congrArg (fun l => List.takeWhile (· ≠ "") l.reverse) h
    simp only [List.reverse_append, List.reverse_cons, reverse_orEmptyPart, List.append_assoc,
      List.singleton_append] at hback
    rw [takeWhile_orEmptyPart (by simpa using hpost), takeWhile_orEmptyPart (by simpa using hpost')] at hback
    exact List.reverse_inj.mp hback

/-- The groups are known by the ones around a run of zeros. -/
theorem groups_eq_of_around {groups groups' : List Nat} {run run' : Nat × Nat} (hlen : groups.length = groups'.length)
    (hzero : ZeroRun groups run) (hzero' : ZeroRun groups' run') (hin : run.1 + run.2 ≤ groups.length)
    (hin' : run'.1 + run'.2 ≤ groups'.length) (htake : groups.take run.1 = groups'.take run'.1)
    (hdrop : groups.drop (run.1 + run.2) = groups'.drop (run'.1 + run'.2)) : groups = groups' := by
  -- the lengths of what is in front and behind tell where the run is
  have hstart : run.1 = run'.1 := by
    have h := congrArg List.length htake
    simp only [List.length_take] at h
    omega
  have hend : run.1 + run.2 = run'.1 + run'.2 := by
    have h := congrArg List.length hdrop
    simp only [List.length_drop] at h
    omega
  refine List.ext_getElem? fun i => ?_
  -- a group is in front of the run, in it or behind it
  rcases Nat.lt_or_ge i run.1 with hbefore | hbefore
  · have h := congrArg (·[i]?) htake
    simpa [List.getElem?_take, hbefore, ← hstart] using h
  · rcases Nat.lt_or_ge i (run.1 + run.2) with hin | hafter
    · rw [hzero i hbefore hin, hzero' i (by omega) (by omega)]
    · have h := congrArg (·[i - (run.1 + run.2)]?) hdrop
      simp only [List.getElem?_drop] at h
      rwa [show run.1 + run.2 + (i - (run.1 + run.2)) = i by omega, ← hend,
        show run.1 + run.2 + (i - (run.1 + run.2)) = i by omega] at h

/-- A run that is left out lies within the groups. -/
theorem zeroRun_in {groups : List Nat} (h : 1 < (zeroRun groups).2) :
    (zeroRun groups).1 + (zeroRun groups).2 ≤ groups.length := by
  have hlast := zeroRun_zeroRun groups ((zeroRun groups).1 + (zeroRun groups).2 - 1) (by omega) (by omega)
  have hin := (List.getElem?_eq_some_iff.mp hlast).1
  omega

/-- The parts of an address that is written with an IPv4 address at its end. -/
theorem v6Parts_mapped {octets : Bytes 16} (h : ShownMapped octets) : v6Parts octets =
    ["", "", "ffff", displayV4 (UInt32.ofNat (65536 * (segments octets).getD 6 0 + (segments octets).getD 7 0))] :=
  if_pos h

/-- All others are written without a dot. -/
theorem v6Parts_no_dot {octets : Bytes 16} (h : ¬ ShownMapped octets) : ∀ s ∈ v6Parts octets, '.' ∉ s.toList :=
  v6Parts_no_sep (by decide) fun hmapped => absurd hmapped h

/-- An IPv4 address is written with dots. -/
theorem dot_mem_displayV4 (bits : UInt32) : '.' ∈ (displayV4 bits).toList := by
  rw [displayV4_eq, v4Parts, String.intercalate_cons_cons]
  simp

/-- Mapped addresses with the same parts have the same last two groups, and share the first six. -/
theorem segments_eq_of_mapped {octets octets' : Bytes 16} (h : ShownMapped octets) (h' : ShownMapped octets')
    (hparts : v6Parts octets = v6Parts octets') : segments octets = segments octets' := by
  rw [v6Parts_mapped h, v6Parts_mapped h'] at hparts
  simp only [List.cons.injEq, true_and, and_true] at hparts
  -- the last part is an IPv4 address, whose halves are the last two groups
  have hbits := congrArg UInt32.toNat (displayV4_injective hparts)
  have hlt : ∀ (v : Bytes 16) (i : Nat), i < 8 → (segments v).getD i 0 < 65536 := by
    intro v i hi
    have hin : i < (segments v).length := by rw [length_segments]; exact hi
    rw [List.getD_eq_getElem?_getD, List.getElem?_eq_getElem hin]
    exact segments_lt v (List.getElem_mem hin)
  have h6 := hlt octets 6 (by omega)
  have h7 := hlt octets 7 (by omega)
  have h6' := hlt octets' 6 (by omega)
  have h7' := hlt octets' 7 (by omega)
  rw [UInt32.toNat_ofNat', UInt32.toNat_ofNat', Nat.mod_eq_of_lt (by omega), Nat.mod_eq_of_lt (by omega)] at hbits
  have hsplit : ∀ l : List Nat, l.length = 8 → l = l.take 6 ++ [l.getD 6 0, l.getD 7 0] := by
    intro l hl
    match l, hl with
    | [_, _, _, _, _, _, _, _], _ => rfl
  rw [hsplit _ (length_segments octets), hsplit _ (length_segments octets'),
    show (segments octets).take 6 = (segments octets').take 6 from h.trans h'.symm,
    show (segments octets).getD 6 0 = (segments octets').getD 6 0 by omega,
    show (segments octets).getD 7 0 = (segments octets').getD 7 0 by omega]

/-- Other addresses with the same parts have the same groups: both are written in full, or both leave out a run, with
    the same groups around it. -/
theorem segments_eq_of_unmapped {octets octets' : Bytes 16} (h : ¬ ShownMapped octets) (h' : ¬ ShownMapped octets')
    (hparts : v6Parts octets = v6Parts octets') : segments octets = segments octets' := by
  -- a left-out run shows as an empty part, which no group is
  have hno : ∀ (groups : List Nat) (pre post : List String),
      v6Groups groups ≠ orEmptyPart pre ++ "" :: orEmptyPart post := by
    intro groups pre post heq
    have hmem : "" ∈ v6Groups groups := by
      rw [heq]
      simp
    exact ne_empty_of_mem_v6Groups "" hmem rfl
  rw [show v6Parts octets = _ from if_neg h, show v6Parts octets' = _ from if_neg h'] at hparts
  dsimp only at hparts
  split at hparts
  · rename_i hlong
    split at hparts
    · rename_i hlong'
      obtain ⟨hpre, hpost⟩ := compressed_inj ne_empty_of_mem_v6Groups ne_empty_of_mem_v6Groups
        ne_empty_of_mem_v6Groups ne_empty_of_mem_v6Groups hparts
      exact groups_eq_of_around (by rw [length_segments, length_segments]) (zeroRun_zeroRun _) (zeroRun_zeroRun _)
        (zeroRun_in hlong) (zeroRun_in hlong') (v6Groups_injective hpre) (v6Groups_injective hpost)
    · exact absurd hparts.symm (hno _ _ _)
  · split at hparts
    · exact absurd hparts (hno _ _ _)
    · exact v6Groups_injective hparts

/-- **An IPv6 address is known by its text.** -/
theorem displayV6_injective {octets octets' : Bytes 16} (h : displayV6 octets = displayV6 octets') :
    octets = octets' := by
  rw [displayV6_eq, displayV6_eq] at h
  have hparts := intercalate_inj (v6Parts_no_colon octets) (v6Parts_no_colon octets') (v6Parts_ne_nil octets)
    (v6Parts_ne_nil octets') h
  refine segments_injective ?_
  -- the dots tell a mapped address from any other one
  have hclash : ∀ {v v' : Bytes 16}, ShownMapped v → ¬ ShownMapped v' → v6Parts v ≠ v6Parts v' := by
    intro v v' hv hv' heq
    rw [v6Parts_mapped hv] at heq
    have hlast := v6Parts_no_dot hv'
    rw [← heq] at hlast
    simp only [List.mem_cons, forall_eq_or_imp] at hlast
    exact hlast.2.2.2.1 (dot_mem_displayV4 _)
  by_cases hmapped : ShownMapped octets
  · by_cases hmapped' : ShownMapped octets'
    · exact segments_eq_of_mapped hmapped hmapped' hparts
    · exact absurd hparts (hclash hmapped hmapped')
  · by_cases hmapped' : ShownMapped octets'
    · exact absurd hparts.symm (hclash hmapped' hmapped)
    · exact segments_eq_of_unmapped hmapped hmapped' hparts

/-! ## Both families

Only the text of an IPv6 address has a colon, so no two addresses of different families have one text. -/

/-- An IPv6 address has at least two parts, so there is a colon between them. -/
theorem sep_mem_displayV6 (octets : Bytes 16) : ':' ∈ (displayV6 octets).toList := by
  have hlen : 2 ≤ (v6Parts octets).length := by
    have hpart : ∀ l, 1 ≤ (orEmptyPart l).length := by
      intro l
      unfold orEmptyPart
      split
      · exact Nat.le_refl 1
      · rename_i h
        exact List.length_pos_iff.mpr h
    unfold v6Parts
    dsimp only
    split
    · simp
    · split
      · have h := hpart (v6Groups ((segments octets).take (zeroRun (segments octets)).1))
        simp only [List.length_append, List.length_cons]
        omega
      · simp [v6Groups, length_segments]
  rw [displayV6_eq]
  match v6Parts octets, hlen with
  | s :: t :: l, _ =>
    rw [String.intercalate_cons_cons]
    simp

/-- An IPv4 address is written without one. -/
theorem sep_not_mem_displayV4 (bits : UInt32) : ':' ∉ (displayV4 bits).toList := by
  rw [displayV4_eq]
  exact not_mem_intercalate (by decide) (v4Parts_no_sep (by decide) bits)

/-- An address has no other separators in it. -/
theorem display_no_sep {sep : Char} (hsep : toDigit 16 sep = none) (hdot : sep ≠ '.') (hcolon : sep ≠ ':') (ip : IpAddr) :
    sep ∉ ip.display.toList := by
  cases ip with
  | v4 bits =>
    show sep ∉ (displayV4 bits).toList
    rw [displayV4_eq]
    exact not_mem_intercalate (by simpa using hdot) (v4Parts_no_sep hsep bits)
  | v6 octets =>
    show sep ∉ (displayV6 octets).toList
    rw [displayV6_eq]
    exact not_mem_intercalate (by simpa using hcolon) (v6Parts_no_sep hsep fun _ => hdot)

/-- No address is written as the empty text. -/
theorem display_ne_empty (ip : IpAddr) : ip.display ≠ "" := by
  intro h
  cases ip with
  | v4 bits =>
    have hdot := dot_mem_displayV4 bits
    rw [show displayV4 bits = "" from h] at hdot
    exact absurd hdot List.not_mem_nil
  | v6 octets =>
    have hcolon := sep_mem_displayV6 octets
    rw [show displayV6 octets = "" from h] at hcolon
    exact absurd hcolon List.not_mem_nil

/-- **An address is known by its text.** -/
theorem display_injective {ip ip' : IpAddr} (h : ip.display = ip'.display) : ip = ip' := by
  cases ip with
  | v4 bits =>
    cases ip' with
    | v4 bits' => exact congrArg v4 (displayV4_injective h)
    | v6 octets' =>
      have hcolon := sep_mem_displayV6 octets'
      rw [show displayV6 octets' = displayV4 bits from h.symm] at hcolon
      exact absurd hcolon (sep_not_mem_displayV4 bits)
  | v6 octets =>
    cases ip' with
    | v4 bits' =>
      have hcolon := sep_mem_displayV6 octets
      rw [show displayV6 octets = displayV4 bits' from h] at hcolon
      exact absurd hcolon (sep_not_mem_displayV4 bits')
    | v6 octets' => exact congrArg v6 (displayV6_injective h)

end IpAddr
