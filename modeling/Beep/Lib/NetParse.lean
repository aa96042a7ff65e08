import Beep.Lib.Net

/-!
# `Lib.NetParse` — the characters of an address

What a text is made of that the parser of addresses reads: digits and dots for an IPv4 address (`chars_of_parse_v4`), and
hexadecimal digits, colons and dots for an IPv6 one, with a colon among them (`chars_of_parse_v6`). A reader takes a prefix
of what it is given (`Reads`), so a reader of readers takes their prefixes one behind another.
-/

namespace IpAddr

/-- A reader took the text in front of `rest`, all of it characters of a kind. -/
def Reads (p : Char → Prop) (cs rest : List Char) : Prop := ∃ text, cs = text ++ rest ∧ ∀ c ∈ text, p c

theorem Reads.refl {p : Char → Prop} (cs : List Char) : Reads p cs cs := ⟨[], rfl, by simp⟩

theorem Reads.cons {p : Char → Prop} {c : Char} {cs rest : List Char} (hc : p c) (h : Reads p cs rest) :
    Reads p (c :: cs) rest := by
  obtain ⟨text, rfl, htext⟩ := h
  exact ⟨c :: text, rfl, by simpa [hc] using htext⟩

theorem Reads.trans {p : Char → Prop} {cs mid rest : List Char} (h : Reads p cs mid) (h' : Reads p mid rest) :
    Reads p cs rest := by
  obtain ⟨text, rfl, htext⟩ := h
  obtain ⟨text', rfl, htext'⟩ := h'
  refine ⟨text ++ text', by rw [List.append_assoc], fun c hc => ?_⟩
  rcases List.mem_append.mp hc with hc | hc
  · exact htext c hc
  · exact htext' c hc

theorem Reads.mono {p q : Char → Prop} {cs rest : List Char} (h : Reads p cs rest) (hpq : ∀ c, p c → q c) :
    Reads q cs rest := by
  obtain ⟨text, htext, hp⟩ := h
  exact ⟨text, htext, fun c hc => hpq c (hp c hc)⟩

/-- A character of an IPv4 address. -/
def V4Char (c : Char) : Prop := toDigit 10 c ≠ none ∨ c = '.'

/-- A character of an IPv6 address. -/
def V6Char (c : Char) : Prop := toDigit 16 c ≠ none ∨ c = '.' ∨ c = ':'

instance (c : Char) : Decidable (V4Char c) := inferInstanceAs (Decidable (_ ∨ _))

instance (c : Char) : Decidable (V6Char c) := inferInstanceAs (Decidable (_ ∨ _))

/-- A decimal digit is a hexadecimal one. -/
theorem V4Char.toV6 {c : Char} (h : V4Char c) : V6Char c := by
  refine h.imp (fun hdigit hnone => hdigit ?_) Or.inl
  unfold toDigit at hnone ⊢
  rw [Option.filter_eq_none_iff] at hnone ⊢
  intro d hd
  have hlarge := hnone d hd
  simp only [decide_eq_true_eq, Nat.not_lt] at hlarge ⊢
  omega

/-! ## Numbers and separators -/

theorem reads_spanDigits (radix : Nat) (cs : List Char) :
    Reads (fun c => toDigit radix c ≠ none) cs (spanDigits radix cs).2 := by
  induction cs with
  | nil => exact Reads.refl _
  | cons c cs ih =>
    unfold spanDigits
    cases hdigit : toDigit radix c with
    | none => exact Reads.refl _
    | some d => exact ih.cons (by simp [hdigit])

theorem reads_readNumber {radix maxDigits bound n : Nat} {allowZeroPrefix : Bool} {cs rest : List Char}
    (h : readNumber radix maxDigits bound allowZeroPrefix cs = some (n, rest)) :
    Reads (fun c => toDigit radix c ≠ none) cs rest := by
  have hreads := reads_spanDigits radix cs
  unfold readNumber at h
  dsimp only at h
  split_ifs at h
  cases h
  exact hreads

theorem readGivenChar_eq_some {sep : Char} {cs rest : List Char} (h : readGivenChar sep cs = some rest) :
    cs = sep :: rest := by
  cases cs with
  | nil => cases h
  | cons c cs =>
    simp only [readGivenChar] at h
    split_ifs at h with hc
    cases h
    rw [hc]

theorem reads_readSeparator {p : Char → Prop} {sep : Char} (hsep : p sep) {i : Nat} {cs rest : List Char}
    (h : readSeparator sep i cs = some rest) : Reads p cs rest := by
  unfold readSeparator at h
  split_ifs at h
  · cases h
    exact Reads.refl _
  · rw [readGivenChar_eq_some h]
    exact (Reads.refl _).cons hsep

/-- A group behind its separator. -/
theorem reads_separated {p : Char → Prop} {sep : Char} (hsep : p sep) {i : Nat} {cs rest : List Char} {α : Type}
    {reader : List Char → Option (α × List Char)} {a : α}
    (hreader : ∀ {cs rest : List Char} {a : α}, reader cs = some (a, rest) → Reads p cs rest)
    (h : (readSeparator sep i cs).bind reader = some (a, rest)) : Reads p cs rest := by
  obtain ⟨mid, hmid, hrest⟩ := Option.bind_eq_some_iff.mp h
  exact (reads_readSeparator hsep hmid).trans (hreader hrest)

/-! ## Addresses -/

theorem reads_readIpv4Addr {bits : UInt32} {cs rest : List Char} (h : readIpv4Addr cs = some (bits, rest)) :
    Reads V4Char cs rest := by
  have hoctet : ∀ {i n : Nat} {cs rest : List Char},
      (readSeparator '.' i cs).bind (readNumber 10 3 256 false) = some (n, rest) → Reads V4Char cs rest := by
    intro i n cs rest hread
    exact reads_separated (Or.inr rfl) (fun hnumber => (reads_readNumber hnumber).mono fun c => Or.inl) hread
  unfold readIpv4Addr at h
  simp only [Option.bind_eq_bind, Option.bind_eq_some_iff, Prod.exists] at h
  obtain ⟨a, cs₁, ha, b, cs₂, hb, c, cs₃, hc, d, cs₄, hd, hbits⟩ := h
  obtain ⟨-, rfl⟩ := Prod.mk.inj (Option.some.inj hbits)
  exact (hoctet (Option.bind_eq_some_iff.mpr ha)).trans ((hoctet (Option.bind_eq_some_iff.mpr hb)).trans
    ((hoctet (Option.bind_eq_some_iff.mpr hc)).trans (hoctet (Option.bind_eq_some_iff.mpr hd))))

/-- A group of an IPv6 address: but for the first, it begins with a colon. -/
theorem colon_of_separated {i : Nat} {cs rest : List Char} {α : Type} {reader : List Char → Option (α × List Char)} {a : α}
    (hreader : ∀ {cs rest : List Char} {a : α}, reader cs = some (a, rest) → Reads V6Char cs rest)
    (h : (readSeparator ':' i cs).bind reader = some (a, rest)) :
    ∃ text, cs = text ++ rest ∧ (∀ c ∈ text, V6Char c) ∧ (i ≠ 0 → ':' ∈ text) := by
  obtain ⟨mid, hmid, hrest⟩ := Option.bind_eq_some_iff.mp h
  obtain ⟨text, rfl, htext⟩ := hreader hrest
  unfold readSeparator at hmid
  split_ifs at hmid with hi
  · cases hmid
    exact ⟨text, rfl, htext, fun h => absurd hi h⟩
  · refine ⟨':' :: text, readGivenChar_eq_some hmid, fun c hc => ?_, fun _ => List.mem_cons_self⟩
    rcases List.mem_cons.mp hc with rfl | hc
    · exact Or.inr (Or.inr rfl)
    · exact htext c hc

/-- The groups of an IPv6 address: where there are three, or one behind others, there is a colon. -/
theorem reads_readGroups (left i : Nat) (cs : List Char) :
    ∃ text, cs = text ++ (readGroups left i cs).2.2 ∧ (∀ c ∈ text, V6Char c) ∧
      (i ≠ 0 ∧ (readGroups left i cs).1 ≠ [] ∨ 3 ≤ (readGroups left i cs).1.length → ':' ∈ text) := by
  induction left generalizing i cs with
  | zero => exact ⟨[], rfl, by simp, by simp [readGroups]⟩
  | succ left ih =>
    unfold readGroups
    split
    · rename_i bits rest hembedded
      split_ifs at hembedded
      obtain ⟨text, rfl, htext, hcolon⟩ := colon_of_separated
        (fun hread => (reads_readIpv4Addr hread).mono fun c => V4Char.toV6) hembedded
      exact ⟨text, rfl, htext, by simpa using hcolon⟩
    · split
      · rename_i group rest hgroup
        obtain ⟨text, rfl, htext, hcolon⟩ := colon_of_separated
          (fun hread => (reads_readNumber hread).mono fun c => Or.inl) hgroup
        obtain ⟨text', hrest, htext', hcolon'⟩ := ih (i + 1) rest
        refine ⟨text ++ text', ?_, fun c hc => ?_, fun hmany => List.mem_append.mpr ?_⟩
        · rw [List.append_assoc, ← hrest]
        · rcases List.mem_append.mp hc with hc | hc
          · exact htext c hc
          · exact htext' c hc
        · by_cases hi : i = 0
          · refine Or.inr (hcolon' (Or.inl ⟨Nat.succ_ne_zero i, ?_⟩))
            rcases hmany with ⟨hne, -⟩ | hthree
            · exact absurd hi hne
            · rintro hnil
              simp [hnil] at hthree
          · exact Or.inl (hcolon hi)
      · exact ⟨[], rfl, by simp, by simp⟩

theorem reads_readIpv6Addr {octets : Bytes 16} {cs rest : List Char} (h : readIpv6Addr cs = some (octets, rest)) :
    ∃ text, cs = text ++ rest ∧ (∀ c ∈ text, V6Char c) ∧ ':' ∈ text := by
  obtain ⟨text, hcs, htext, hcolon⟩ := reads_readGroups 8 0 cs
  unfold readIpv6Addr at h
  generalize readGroups 8 0 cs = front at h hcs hcolon
  obtain ⟨head, headIpv4, mid⟩ := front
  dsimp only at h hcs hcolon
  split_ifs at h with hfull
  · -- eight groups
    obtain ⟨-, rfl⟩ := Prod.mk.inj (Option.some.inj h)
    exact ⟨text, hcs, htext, hcolon (Or.inr (by omega))⟩
  · -- a `::` between the groups in front of it and those behind it
    simp only [Option.bind_eq_bind, Option.bind_eq_some_iff] at h
    obtain ⟨cs₁, hfirst, cs₂, hsecond, hresult⟩ := h
    obtain ⟨text', htail, htext', -⟩ := reads_readGroups (8 - (head.length + 1)) 0 cs₂
    obtain ⟨-, rfl⟩ := Prod.mk.inj (Option.some.inj hresult)
    rw [readGivenChar_eq_some hfirst, readGivenChar_eq_some hsecond, htail] at hcs
    have hsep : V6Char ':' := Or.inr (Or.inr rfl)
    refine ⟨text ++ ':' :: ':' :: text', by simpa using hcs, ?_, by simp⟩
    intro c hc
    simp only [List.mem_append, List.mem_cons] at hc
    rcases hc with hc | rfl | rfl | hc
    · exact htext c hc
    · exact hsep
    · exact hsep
    · exact htext' c hc

section
variable {s : String} {ip : IpAddr} {bits : UInt32} {octets : Bytes 16}

/-- What is read as an address is read whole. -/
theorem parse_eq_some (h : parse s = some ip) :
    (∃ bits, ip = .v4 bits ∧ readIpv4Addr s.toList = some (bits, [])) ∨
      ∃ octets, ip = .v6 octets ∧ readIpv6Addr s.toList = some (octets, []) := by
  unfold parse at h
  dsimp only at h
  cases hv4 : readIpv4Addr s.toList with
  | some r =>
    obtain ⟨bits, rest⟩ := r
    rw [hv4] at h
    cases rest with
    | nil =>
      cases h
      exact Or.inl ⟨bits, rfl, rfl⟩
    | cons c rest => cases h
  | none =>
    cases hv6 : readIpv6Addr s.toList with
    | none =>
      rw [hv4, hv6] at h
      cases h
    | some r =>
      obtain ⟨octets, rest⟩ := r
      rw [hv4, hv6] at h
      cases rest with
      | nil =>
        cases h
        exact Or.inr ⟨octets, rfl, rfl⟩
      | cons c rest => cases h

/-- **An IPv4 address** is written with digits and dots. -/
theorem chars_of_parse_v4 (h : parse s = some (.v4 bits)) : ∀ c ∈ s.toList, V4Char c := by
  rcases parse_eq_some h with ⟨bits', -, hread⟩ | ⟨octets, hip, -⟩
  · obtain ⟨text, hs, htext⟩ := reads_readIpv4Addr hread
    rw [hs, List.append_nil]
    exact htext
  · cases hip

/-- **An IPv6 address** is written with a colon. -/
theorem chars_of_parse_v6 (h : parse s = some (.v6 octets)) : (∀ c ∈ s.toList, V6Char c) ∧ ':' ∈ s.toList := by
  rcases parse_eq_some h with ⟨bits, hip, -⟩ | ⟨octets', -, hread⟩
  · cases hip
  · obtain ⟨text, hs, htext, hcolon⟩ := reads_readIpv6Addr hread
    rw [hs, List.append_nil]
    exact ⟨htext, hcolon⟩

theorem chars_of_parse (h : parse s = some ip) : ∀ c ∈ s.toList, V6Char c := by
  cases ip with
  | v4 bits => exact fun c hc => (chars_of_parse_v4 h c hc).toV6
  | v6 octets => exact (chars_of_parse_v6 h).1

/-- There is no empty address. -/
theorem ne_nil_of_parse (h : parse s = some ip) : s.toList ≠ [] := by
  have hempty : parse "" = none := by decide
  intro hnil
  rw [String.toList_eq_nil_iff.mp hnil, hempty] at h
  cases h

end

end IpAddr
