import Beep.Loader.Fixture

/-!
# `Loader.FixtureText` — which texts are fixtures

A fixture argument is to be `addr:port:proto:addr:addr:port`, with `:affinity` behind it or not, and an IPv6 address in
brackets (`Fixture.Spelled`). What `parse_fixture` accepts is wider in three ways (`Slip`): a closing bracket needs no
colon behind it, a colon may follow the last field, and every field may stand in brackets. It is these and no others: a
text whose fields were written with none of them is accepted exactly if it has the form, and as exactly these fields.

A text is taken apart into written fields in one way only (`spelling_inj`), so a text with a slip has not got the form.
-/

namespace Beep

/-- A field as it is written: bare or in brackets, with a colon behind it or without. -/
structure WrittenField where
  text : List Char
  bracketed : Bool
  colon : Bool

/-- The field without what is behind it. -/
def WrittenField.enclosed (w : WrittenField) : List Char := if w.bracketed then '[' :: w.text ++ [']'] else w.text

/-- The field as it stands in the text. -/
def WrittenField.spelled (w : WrittenField) : List Char := w.enclosed ++ if w.colon then [':'] else []

/-- The fields one behind another. -/
def spelling (ws : List WrittenField) : List Char := ws.flatMap WrittenField.spelled

/-- A bare field ends at its colon, or at the end of the text. -/
def ToldApart : List WrittenField → Prop
  | [] => True
  | w :: ws => (w.bracketed = true ∨ w.colon = true ∨ ws = []) ∧ ToldApart ws

/-- A text with no brackets in it. -/
structure PlainText (text : List Char) : Prop where
  ne_nil : text ≠ []
  no_open : '[' ∉ text
  no_close : ']' ∉ text

/-- A field that is not taken for more than one, or for less. -/
structure WrittenField.Plain (w : WrittenField) : Prop extends PlainText w.text where
  no_colon : w.bracketed = false → ':' ∉ w.text

/-! ## Taking a text apart -/

theorem nextField_of_bare {rest : List Char} (h : rest.head? ≠ some '[') :
    nextField rest = (splitOnce ':' rest).getD (rest, []) := by
  unfold nextField
  split
  · exact absurd rfl h
  · cases splitOnce ':' rest <;> rfl

theorem WrittenField.Plain.head_ne {w : WrittenField} (hw : w.Plain) (rest : List Char) :
    (w.text ++ rest).head? ≠ some '[' := by
  obtain ⟨c, text, htext⟩ := List.exists_cons_of_ne_nil hw.ne_nil
  intro h
  rw [htext] at h
  exact hw.no_open (by rw [htext, Option.some.inj h]; exact List.mem_cons_self)

/-- **One field** is taken off the front. -/
theorem nextField_spelled {w : WrittenField} (hw : w.Plain) {rest : List Char} (hrest : withoutColon rest = rest)
    (hsep : w.bracketed = true ∨ w.colon = true ∨ rest = []) : nextField (w.spelled ++ rest) = (w.text, rest) := by
  obtain ⟨text, bracketed, colon⟩ := w
  cases bracketed with
  | true =>
    have hsplit := @splitOnce_eq_some ']' (text ++ ']' :: ((if colon then [':'] else []) ++ rest)) text
      ((if colon then [':'] else []) ++ rest)
    have hspelled : (WrittenField.mk text true colon).spelled ++ rest =
        '[' :: (text ++ ']' :: ((if colon then [':'] else []) ++ rest)) := by
      simp [WrittenField.spelled, WrittenField.enclosed]
    rw [hspelled, nextField, hsplit.mpr ⟨rfl, hw.no_close⟩]
    dsimp only
    cases colon with
    | true => rfl
    | false => exact congrArg (Prod.mk text) hrest
  | false =>
    have hcolon := hw.no_colon rfl
    have hspelled : (WrittenField.mk text false colon).spelled ++ rest =
        text ++ ((if colon then [':'] else []) ++ rest) := by
      simp [WrittenField.spelled, WrittenField.enclosed]
    rw [hspelled, nextField_of_bare (hw.head_ne _)]
    cases colon with
    | true =>
      have hsplit : splitOnce ':' (text ++ ':' :: rest) = some (text, rest) := splitOnce_eq_some.mpr ⟨rfl, hcolon⟩
      simp [hsplit]
    | false =>
      obtain rfl : rest = [] := by simpa using hsep
      simp [splitOnce_eq_none.mpr hcolon]

/-- No field begins with a colon. -/
theorem withoutColon_spelling {ws : List WrittenField} (hws : ∀ w ∈ ws, w.Plain) :
    withoutColon (spelling ws) = spelling ws := by
  cases ws with
  | nil => rfl
  | cons w ws =>
    have hw := hws w List.mem_cons_self
    obtain ⟨c, text, htext⟩ := List.exists_cons_of_ne_nil hw.ne_nil
    have hne : (spelling (w :: ws)).head? ≠ some ':' := by
      simp only [spelling, List.flatMap_cons, WrittenField.spelled, WrittenField.enclosed, htext]
      split
      · simp
      · rename_i hbare
        have hcolon := hw.no_colon (by simpa using hbare)
        rw [htext] at hcolon
        simp only [List.mem_cons, not_or] at hcolon
        simpa using fun h => hcolon.1 h.symm
    unfold withoutColon
    split
    · rename_i rest h
      rw [h] at hne
      exact absurd rfl hne
    · rfl

theorem spelling_ne_nil {w : WrittenField} (hw : w.Plain) (ws : List WrittenField) : spelling (w :: ws) ≠ [] := by
  simp only [spelling, List.flatMap_cons, WrittenField.spelled, WrittenField.enclosed]
  split
  · simp
  · simp [hw.ne_nil]

theorem nextField_spelling {w : WrittenField} {ws : List WrittenField} (hws : ∀ w' ∈ w :: ws, w'.Plain)
    (hsep : ToldApart (w :: ws)) : nextField (spelling (w :: ws)) = (w.text, spelling ws) := by
  have hw := hws w List.mem_cons_self
  have hrest := withoutColon_spelling fun w' hw' => hws w' (List.mem_cons_of_mem w hw')
  refine nextField_spelled hw hrest (hsep.1.imp_right (Or.imp_right ?_))
  rintro rfl
  rfl

/-- **Written fields are found again.** -/
theorem splitFixtureFields_spelling {ws : List WrittenField} (hws : ∀ w ∈ ws, w.Plain) (hsep : ToldApart ws) :
    splitFixtureFields (spelling ws) = ws.map WrittenField.text := by
  induction ws with
  | nil => exact splitFixtureFields_nil
  | cons w ws ih =>
    rw [splitFixtureFields_of_ne_nil (spelling_ne_nil (hws w List.mem_cons_self) ws), nextField_spelling hws hsep,
      ih (fun w' hw' => hws w' (List.mem_cons_of_mem w hw')) hsep.2, List.map_cons]

/-- The first field of a text, as it is written there. -/
theorem exists_spelled {rest : List Char} (hhead : (nextField rest).1.head? ≠ some '[') :
    ∃ w : WrittenField, w.text = (nextField rest).1 ∧ w.spelled ++ (nextField rest).2 = rest ∧
      (w.bracketed = false → ':' ∉ w.text) ∧
      (w.bracketed = true ∨ w.colon = true ∨ (nextField rest).2 = []) := by
  by_cases hopen : rest.head? = some '['
  · obtain ⟨afterBracket, rfl⟩ := List.head?_eq_some_iff.mp hopen
    cases hsplit : splitOnce ']' afterBracket with
    | none =>
      -- the bracket is never closed, and belongs to the field
      simp only [nextField, hsplit] at hhead
      exact absurd rfl hhead
    | some parts =>
      obtain ⟨field, after⟩ := parts
      obtain ⟨rfl, -⟩ := splitOnce_eq_some.mp hsplit
      have hnext : nextField ('[' :: (field ++ ']' :: after)) = (field, withoutColon after) := by
        rw [nextField, hsplit]
      rw [hnext]
      by_cases hcolon : withoutColon after = after
      · refine ⟨⟨field, true, false⟩, rfl, ?_, fun h => Bool.noConfusion h, Or.inl rfl⟩
        simp [WrittenField.spelled, WrittenField.enclosed, hcolon]
      · have hafter : after = ':' :: withoutColon after := by
          unfold withoutColon at hcolon ⊢
          split at hcolon
          · rfl
          · exact absurd rfl hcolon
        refine ⟨⟨field, true, true⟩, rfl, ?_, fun h => Bool.noConfusion h, Or.inl rfl⟩
        conv => rhs; rw [hafter]
        simp [WrittenField.spelled, WrittenField.enclosed]
  · rw [nextField_of_bare hopen]
    cases hsplit : splitOnce ':' rest with
    | none =>
      have hcolon := splitOnce_eq_none.mp hsplit
      exact ⟨⟨rest, false, false⟩, rfl, by simp [WrittenField.spelled, WrittenField.enclosed], fun _ => hcolon,
        Or.inr (Or.inr rfl)⟩
    | some parts =>
      obtain ⟨field, remainder⟩ := parts
      obtain ⟨rfl, hcolon⟩ := splitOnce_eq_some.mp hsplit
      exact ⟨⟨field, false, true⟩, rfl, by simp [WrittenField.spelled, WrittenField.enclosed], fun _ => hcolon,
        Or.inr (Or.inl rfl)⟩

/-- **Every text is written fields**, unless a bracket is not closed. -/
theorem exists_spelling {rest : List Char} (hheads : ∀ field ∈ splitFixtureFields rest, field.head? ≠ some '[') :
    ∃ ws : List WrittenField, spelling ws = rest ∧ ws.map WrittenField.text = splitFixtureFields rest ∧
      (∀ w ∈ ws, w.bracketed = false → ':' ∉ w.text) ∧ ToldApart ws := by
  -- on the text, its first field taken off
  fun_induction splitFixtureFields rest with
  | case1 => exact ⟨[], rfl, rfl, by simp, trivial⟩
  | case2 rest hne ih =>
    obtain ⟨w, htext, hspelled, hcolon, hsep⟩ := exists_spelled (hheads _ List.mem_cons_self)
    obtain ⟨ws, hws, htexts, hcolons, happart⟩ := ih fun field hfield => hheads field (List.mem_cons_of_mem _ hfield)
    refine ⟨w :: ws, ?_, by rw [List.map_cons, htext, htexts], ?_, ?_, happart⟩
    · rw [← hspelled, ← hws]
      rfl
    · exact List.forall_mem_cons.mpr ⟨hcolon, hcolons⟩
    · refine hsep.imp_right (Or.imp_right fun hnil => ?_)
      rw [hnil, splitFixtureFields_nil] at htexts
      exact List.map_eq_nil_iff.mp htexts

theorem WrittenField.length_spelled (w : WrittenField) :
    w.spelled.length = w.text.length + ((if w.bracketed then 2 else 0) + if w.colon then 1 else 0) := by
  unfold spelled enclosed
  split_ifs <;> simp

/-- How a field stands in the text is told by its length. -/
theorem WrittenField.spelled_inj {w w' : WrittenField} (htext : w.text = w'.text) (h : w.spelled = w'.spelled) :
    w = w' := by
  have hlen := congrArg List.length h
  rw [length_spelled, length_spelled, htext, Nat.add_left_cancel_iff] at hlen
  obtain ⟨text, bracketed, colon⟩ := w
  obtain ⟨text', bracketed', colon'⟩ := w'
  obtain rfl : text = text' := htext
  cases bracketed <;> cases bracketed' <;> cases colon <;> cases colon' <;> first | rfl | cases hlen

/-- **A text is written in one way.** -/
theorem spelling_inj {ws ws' : List WrittenField} (hws : ∀ w ∈ ws, w.Plain) (hsep : ToldApart ws)
    (hws' : ∀ w ∈ ws', w.Plain) (hsep' : ToldApart ws') (h : spelling ws = spelling ws') : ws = ws' := by
  induction ws generalizing ws' with
  | nil =>
    cases ws' with
    | nil => rfl
    | cons w' ws' => exact absurd h.symm (spelling_ne_nil (hws' w' List.mem_cons_self) ws')
  | cons w ws ih =>
    cases ws' with
    | nil => exact absurd h (spelling_ne_nil (hws w List.mem_cons_self) ws)
    | cons w' ws' =>
      have hnext := nextField_spelling hws hsep
      rw [h, nextField_spelling hws' hsep', Prod.mk.injEq] at hnext
      obtain ⟨htext, hrest⟩ := hnext
      have hspelled : w.spelled = w'.spelled := by
        have hwhole : w.spelled ++ spelling ws = w'.spelled ++ spelling ws' := h
        rw [hrest] at hwhole
        exact List.append_cancel_right hwhole
      rw [WrittenField.spelled_inj htext.symm hspelled,
        ih (fun v hv => hws v (List.mem_cons_of_mem w hv)) hsep.2 (fun v hv => hws' v (List.mem_cons_of_mem w' hv)) hsep'.2
          hrest.symm]

/-! ## What the fields are made of -/

theorem plain_of_address {field : List Char} {ip : IpAddr} (h : HoldsAddress field ip) : PlainText field := by
  have hchars := IpAddr.chars_of_parse h
  have hne := IpAddr.ne_nil_of_parse h
  rw [String.toList_ofList] at hchars hne
  exact ⟨hne, fun hmem => absurd (hchars _ hmem) (by decide), fun hmem => absurd (hchars _ hmem) (by decide)⟩

theorem plain_of_port {field : List Char} {port : UInt16} (h : HoldsPort field port) : PlainText field := by
  obtain ⟨hne, hchars⟩ := Encoding.chars_of_fromStrRadix h
  exact ⟨hne, fun hmem => absurd (hchars _ hmem) (by decide), fun hmem => absurd (hchars _ hmem) (by decide)⟩

theorem plain_of_proto (proto : Proto) : PlainText proto.text.toList := by
  cases proto <;> exact ⟨by simp [Proto.text], by simp [Proto.text], by simp [Proto.text]⟩

theorem plain_of_affinity : PlainText "affinity".toList := ⟨by simp, by simp, by simp⟩

theorem Fixture.HeldBy.plain {f : Fixture} {fields : List (List Char)} (h : f.HeldBy fields) :
    ∀ field ∈ fields, PlainText field := by
  obtain ⟨a, p, b, c, q, ha, hp, hb, hc, hq, rfl⟩ := h
  intro field hfield
  simp only [List.mem_append, List.mem_cons, List.not_mem_nil, or_false] at hfield
  rcases hfield with (rfl | rfl | rfl | rfl | rfl | rfl) | haffinity
  · exact plain_of_address ha
  · exact plain_of_port hp
  · exact plain_of_proto f.proto
  · exact plain_of_address hb
  · exact plain_of_address hc
  · exact plain_of_port hq
  · unfold affinityField at haffinity
    split_ifs at haffinity
    · rw [List.mem_singleton.mp haffinity]
      exact plain_of_affinity
    · cases haffinity

/-- The fields of a fixture, written one behind another. -/
structure Fixture.WrittenAs (f : Fixture) (s : List Char) (ws : List WrittenField) : Prop where
  held : f.HeldBy (ws.map WrittenField.text)
  bare : ∀ w ∈ ws, w.bracketed = false → ':' ∉ w.text
  apart : ToldApart ws
  text : s = spelling ws

theorem Fixture.WrittenAs.plain {f : Fixture} {s : List Char} {ws : List WrittenField} (h : f.WrittenAs s ws) :
    ∀ w ∈ ws, w.Plain :=
  fun w hw => ⟨h.held.plain w.text (List.mem_map_of_mem hw), h.bare w hw⟩

/-- **What `parse_fixture` accepts** are the texts of the fields of a fixture, with slips or without, and it returns that
    fixture. -/
theorem parseFixture_eq_ok_iff_written {s : String} {f : Fixture} :
    parseFixture s = .ok f ↔ ∃ ws, f.WrittenAs s.toList ws := by
  rw [parseFixture_eq_ok]
  constructor
  · intro hheld
    have hheads : ∀ field ∈ splitFixtureFields s.toList, field.head? ≠ some '[' := by
      intro field hfield hhead
      obtain ⟨rest, hrest⟩ := List.head?_eq_some_iff.mp hhead
      refine (hheld.plain field hfield).no_open ?_
      rw [hrest]
      exact List.mem_cons_self
    obtain ⟨ws, hspelling, htexts, hbare, happart⟩ := exists_spelling hheads
    exact ⟨ws, htexts ▸ hheld, hbare, happart, hspelling.symm⟩
  · rintro ⟨ws, h⟩
    rw [h.text, splitFixtureFields_spelling h.plain h.apart]
    exact h.held

/-! ## The form -/

/-- How an address is to be written: an IPv4 address bare or in brackets, an IPv6 address in brackets. -/
inductive AddressText : IpAddr → List Char → Prop where
  | bare {bits : UInt32} {field : List Char} : HoldsAddress field (.v4 bits) → AddressText (.v4 bits) field
  | bracketed {ip : IpAddr} {field : List Char} : HoldsAddress field ip → AddressText ip ('[' :: field ++ [']'])

/-- `addr:port:proto:addr:addr:port` with `:affinity` behind it or not. -/
def Fixture.Spelled (f : Fixture) (s : List Char) : Prop :=
  ∃ frontIp frontPort backendNodeIp podIp targetPort,
    AddressText f.frontIp frontIp ∧ HoldsPort frontPort f.frontPort ∧ AddressText f.backendNodeIp backendNodeIp ∧
      AddressText f.podIp podIp ∧ HoldsPort targetPort f.targetPort ∧
        s = [':'].intercalate ([frontIp, frontPort, f.proto.text.toList, backendNodeIp, podIp, targetPort] ++
          affinityField f.clientIpAffinity)

/-- A slip: no colon between two fields, a colon behind the last one, or brackets around a field that is no address. -/
def Slip (ws : List WrittenField) : Prop :=
  (∃ w ∈ ws.dropLast, w.colon = false) ∨ (∃ w ∈ ws.getLast?, w.colon = true) ∨
    ∃ i ∈ [1, 2, 5, 6], ∃ w ∈ ws[i]?, w.bracketed = true

/-- The fields of some fixture, written with a slip. -/
def Misspelled (s : List Char) : Prop := ∃ f ws, Fixture.WrittenAs f s ws ∧ Slip ws

/-- An address that is written as it is to be. -/
theorem addressText_iff {ip : IpAddr} {text : List Char} :
    AddressText ip text ↔ ∃ field bracketed, HoldsAddress field ip ∧ (bracketed = false → ':' ∉ field) ∧
      text = WrittenField.enclosed ⟨field, bracketed, true⟩ := by
  constructor
  · intro h
    cases h with
    | @bare bits field hfield =>
      refine ⟨text, false, hfield, fun _ hcolon => ?_, rfl⟩
      have hchars := IpAddr.chars_of_parse_v4 hfield
      rw [String.toList_ofList] at hchars
      exact absurd (hchars _ hcolon) (by decide)
    | @bracketed _ field hfield => exact ⟨field, true, hfield, fun h => Bool.noConfusion h, rfl⟩
  · rintro ⟨field, bracketed, hfield, hcolon, rfl⟩
    cases bracketed with
    | true => exact AddressText.bracketed hfield
    | false =>
      cases ip with
      | v4 bits => exact AddressText.bare hfield
      | v6 octets =>
        -- an IPv6 address has a colon in it
        have hchars := (IpAddr.chars_of_parse_v6 hfield).2
        rw [String.toList_ofList] at hchars
        exact absurd hchars (hcolon rfl)

theorem no_colon_of_port {field : List Char} {port : UInt16} (h : HoldsPort field port) : ':' ∉ field :=
  fun hmem => absurd ((Encoding.chars_of_fromStrRadix h).2 _ hmem) (by decide)

theorem no_colon_of_proto (proto : Proto) : ':' ∉ proto.text.toList := by
  cases proto <;> simp [Proto.text]

/-- **The form** is the fields written without a slip. -/
theorem spelled_iff_written {f : Fixture} {s : List Char} :
    f.Spelled s ↔ ∃ ws, f.WrittenAs s ws ∧ ¬ Slip ws := by
  constructor
  · rintro ⟨a', p, b', c', q, ha', hp, hb', hc', hq, rfl⟩
    obtain ⟨a, abr, ha, hacolon, rfl⟩ := addressText_iff.mp ha'
    obtain ⟨b, bbr, hb, hbcolon, rfl⟩ := addressText_iff.mp hb'
    obtain ⟨c, cbr, hc, hccolon, rfl⟩ := addressText_iff.mp hc'
    have hpcolon := no_colon_of_port hp
    have hqcolon := no_colon_of_port hq
    have htcolon := no_colon_of_proto f.proto
    let front : List WrittenField :=
      [⟨a, abr, true⟩, ⟨p, false, true⟩, ⟨f.proto.text.toList, false, true⟩, ⟨b, bbr, true⟩, ⟨c, cbr, true⟩]
    cases haffinity : f.clientIpAffinity with
    | false =>
      refine ⟨front ++ [⟨q, false, false⟩], ⟨⟨a, p, b, c, q, ha, hp, hb, hc, hq, ?_⟩, ?_, ?_, ?_⟩, ?_⟩
      · rw [haffinity]
        rfl
      · simpa [front] using ⟨hacolon, hpcolon, htcolon, hbcolon, hccolon, hqcolon⟩
      · simp [front, ToldApart]
      · simp [front, spelling, WrittenField.spelled, WrittenField.enclosed, affinityField]
      · simp [front, Slip]
    | true =>
      refine ⟨front ++ [⟨q, false, true⟩, ⟨"affinity".toList, false, false⟩],
        ⟨⟨a, p, b, c, q, ha, hp, hb, hc, hq, ?_⟩, ?_, ?_, ?_⟩, ?_⟩
      · rw [haffinity]
        rfl
      · simpa [front] using ⟨hacolon, hpcolon, htcolon, hbcolon, hccolon, hqcolon⟩
      · simp [front, ToldApart]
      · simp [front, spelling, WrittenField.spelled, WrittenField.enclosed, affinityField]
      · simp [front, Slip]
  · rintro ⟨ws, ⟨⟨a, p, b, c, q, ha, hp, hb, hc, hq, htexts⟩, hbare, -, rfl⟩, hslip⟩
    obtain ⟨w₁, ws₁, rfl, rfl, htexts₁⟩ := List.map_eq_cons_iff.mp htexts
    obtain ⟨w₂, ws₂, rfl, rfl, htexts₂⟩ := List.map_eq_cons_iff.mp htexts₁
    obtain ⟨w₃, ws₃, rfl, hproto, htexts₃⟩ := List.map_eq_cons_iff.mp htexts₂
    obtain ⟨w₄, ws₄, rfl, rfl, htexts₄⟩ := List.map_eq_cons_iff.mp htexts₃
    obtain ⟨w₅, ws₅, rfl, rfl, htexts₅⟩ := List.map_eq_cons_iff.mp htexts₄
    obtain ⟨w₆, ws, rfl, rfl, hlast⟩ := List.map_eq_cons_iff.mp htexts₅
    have haddress : ∀ w ∈ w₁ :: w₂ :: w₃ :: w₄ :: w₅ :: w₆ :: ws, ∀ ip, HoldsAddress w.text ip →
        AddressText ip w.enclosed :=
      fun w hw ip hip => addressText_iff.mpr ⟨w.text, w.bracketed, hip, hbare w hw, rfl⟩
    refine ⟨w₁.enclosed, w₂.text, w₄.enclosed, w₅.enclosed, w₆.text, haddress w₁ (by simp) _ ha, hp,
      haddress w₄ (by simp) _ hb, haddress w₅ (by simp) _ hc, hq, ?_⟩
    cases haffinity : f.clientIpAffinity with
    | false =>
      rw [haffinity] at hlast
      obtain rfl := List.map_eq_nil_iff.mp hlast
      simp [Slip] at hslip
      simp [spelling, WrittenField.spelled, WrittenField.enclosed, affinityField, ← hproto, hslip]
    | true =>
      rw [haffinity] at hlast
      obtain ⟨w₇, ws, rfl, haffinityText, hend⟩ := List.map_eq_cons_iff.mp hlast
      obtain rfl := List.map_eq_nil_iff.mp hend
      simp [Slip] at hslip
      simp [spelling, WrittenField.spelled, WrittenField.enclosed, affinityField, ← hproto, ← haffinityText, hslip]

/-- **A text with a slip has not got the form.** -/
theorem not_spelled_of_slip {f f' : Fixture} {s : List Char} {ws : List WrittenField} (h : f.WrittenAs s ws)
    (hslip : Slip ws) : ¬ f'.Spelled s := by
  intro hspelled
  obtain ⟨ws', h', hslip'⟩ := spelled_iff_written.mp hspelled
  obtain rfl := spelling_inj h.plain h.apart h'.plain h'.apart (h.text.symm.trans h'.text)
  exact hslip' hslip

/-- A text without a slip is accepted exactly if it has the form. -/
theorem parse_iff_spelled_of_not_misspelled {s : String} (h : ¬ Misspelled s.toList) (f : Fixture) :
    parseFixture s = .ok f ↔ f.Spelled s.toList := by
  rw [parseFixture_eq_ok_iff_written, spelled_iff_written]
  refine exists_congr fun ws => ⟨fun hws => ⟨hws, fun hslip => h ⟨f, ws, hws, hslip⟩⟩, And.left⟩

/-- A text with a slip is accepted. -/
theorem not_exact_of_misspelled {s : String} (h : Misspelled s.toList) :
    ¬ ∀ f, parseFixture s = .ok f ↔ f.Spelled s.toList := by
  obtain ⟨f, ws, hws, hslip⟩ := h
  intro hexact
  exact not_spelled_of_slip hws hslip ((hexact f).mp (parseFixture_eq_ok_iff_written.mpr ⟨ws, hws⟩))

/-- **Fixtures are parsed exactly**, but for the texts with a slip. -/
theorem fixtures_exact_iff (s : String) :
    (∀ f, parseFixture s = .ok f ↔ f.Spelled s.toList) ↔ ¬ Misspelled s.toList :=
  ⟨fun h hmisspelled => not_exact_of_misspelled hmisspelled h, parse_iff_spelled_of_not_misspelled⟩

/-- There is no colon behind the bracket. -/
theorem fixture_without_colon_accepted :
    ¬ ∀ f, parseFixture "[2001:db8::1]80:tcp:10.0.0.1:10.0.0.2:8080" = .ok f ↔
      f.Spelled "[2001:db8::1]80:tcp:10.0.0.1:10.0.0.2:8080".toList := by
  let ws : List WrittenField :=
    [⟨"2001:db8::1".toList, true, false⟩, ⟨"80".toList, false, true⟩, ⟨"tcp".toList, false, true⟩,
      ⟨"10.0.0.1".toList, false, true⟩, ⟨"10.0.0.2".toList, false, true⟩, ⟨"8080".toList, false, false⟩]
  let f : Fixture :=
    { frontIp := .v6 #v[0x20, 1, 0x0d, 0xb8, 0, 0, 0, 0, 0, 0, 0, 0, 0, 0, 0, 1], frontPort := 80, proto := .tcp
      backendNodeIp := .v4 0x0a000001, podIp := .v4 0x0a000002, targetPort := 8080, clientIpAffinity := false }
  have hheld : f.HeldBy (ws.map WrittenField.text) :=
    ⟨_, _, _, _, _, by decide, by decide, by decide, by decide, by decide, rfl⟩
  have hslip : Slip ws := Or.inl ⟨_, List.mem_cons_self, rfl⟩
  refine not_exact_of_misspelled ⟨f, ws, ⟨hheld, ?_, ?_, by decide⟩, hslip⟩
  · simp [ws]
  · simp [ws, ToldApart]

end Beep
