import Beep.Lib.Encoding
import Beep.Lib.NetParse

/-!
# `Loader.Fixture` — fixture arguments

`parse_fixture` of `src/src/lib.rs`: one `--fixture` argument is a front and its backend, as six or seven fields with
colons between them, where an IPv6 address stands in brackets. The fields are taken off the front of the text one by one
(`splitFixtureFields`), and then read in order (`parseFixture`).
-/

namespace Beep

/-- `Proto`. -/
inductive Proto where
  | tcp
  | udp
  deriving DecidableEq

/-- `Fixture`. -/
structure Fixture where
  frontIp : IpAddr
  frontPort : UInt16
  proto : Proto
  backendNodeIp : IpAddr
  podIp : IpAddr
  targetPort : UInt16
  clientIpAffinity : Bool
  deriving DecidableEq

/-! ## Fields -/

/-- The text in front of the first `sep`, and the text behind it. -/
def splitOnce (sep : Char) : List Char → Option (List Char × List Char)
  | [] => none
  | c :: cs => if c = sep then some ([], cs) else (splitOnce sep cs).map fun (front, back) => (c :: front, back)

theorem splitOnce_eq_some {sep : Char} {cs front back : List Char} :
    splitOnce sep cs = some (front, back) ↔ cs = front ++ sep :: back ∧ sep ∉ front := by
  induction cs generalizing front with
  | nil => simp [splitOnce]
  | cons c cs ih =>
    unfold splitOnce
    split_ifs with hc
    · subst hc
      cases front with
      | nil => simp [eq_comm]
      | cons c' front =>
        simp only [Option.some.injEq, Prod.mk.injEq, List.cons_append, List.cons.injEq, List.mem_cons, not_or]
        grind
    · cases front with
      | nil => simp [hc]
      | cons c' front =>
        simp only [Option.map_eq_some_iff, Prod.exists, Prod.mk.injEq, List.cons_append, List.cons.injEq]
        constructor
        · rintro ⟨front', back', hsplit, ⟨rfl, rfl⟩, rfl⟩
          obtain ⟨hcs, hfront⟩ := ih.mp hsplit
          exact ⟨⟨rfl, hcs⟩, by simp [hfront, Ne.symm hc]⟩
        · rintro ⟨⟨rfl, hcs⟩, hfront⟩
          refine ⟨front, back, ih.mpr ⟨hcs, fun h => hfront (List.mem_cons_of_mem _ h)⟩, ⟨rfl, rfl⟩, rfl⟩

theorem splitOnce_eq_none {sep : Char} {cs : List Char} : splitOnce sep cs = none ↔ sep ∉ cs := by
  induction cs with
  | nil => simp [splitOnce]
  | cons c cs ih =>
    unfold splitOnce
    split_ifs with hc
    · simp [hc]
    · simp [ih, Ne.symm hc]

/-- `strip_prefix(':')`, or all of the text. -/
def withoutColon : List Char → List Char
  | ':' :: rest => rest
  | after => after

/-- The field that a text begins with, and the text behind it. -/
def nextField (rest : List Char) : List Char × List Char :=
  match rest with
  | '[' :: afterBracket =>
      match splitOnce ']' afterBracket with
      | some (field, after) => (field, withoutColon after)
      | none => (rest, [])
  | _ =>
      match splitOnce ':' rest with
      | some (field, remainder) => (field, remainder)
      | none => (rest, [])

theorem length_withoutColon_le (cs : List Char) : (withoutColon cs).length ≤ cs.length := by
  unfold withoutColon
  split
  · simp
  · exact Nat.le_refl _

/-- Every field takes something off the text. -/
theorem length_nextField_lt {rest : List Char} (h : rest ≠ []) : (nextField rest).2.length < rest.length := by
  have hpos := List.length_pos_iff.mpr h
  unfold nextField
  split
  · rename_i afterBracket
    split
    · rename_i field after hsplit
      have hlen := congrArg List.length (splitOnce_eq_some.mp hsplit).1
      have hle := length_withoutColon_le after
      simp only [List.length_append, List.length_cons] at hlen ⊢
      omega
    · exact hpos
  · split
    · rename_i field remainder hsplit
      have hlen := congrArg List.length (splitOnce_eq_some.mp hsplit).1
      simp only [List.length_append, List.length_cons] at hlen ⊢
      omega
    · exact hpos

/-- `split_fixture_fields`. -/
def splitFixtureFields (rest : List Char) : List (List Char) :=
  if _ : rest = [] then [] else (nextField rest).1 :: splitFixtureFields (nextField rest).2
termination_by rest.length
decreasing_by
  rename_i h
  exact length_nextField_lt h

theorem splitFixtureFields_nil : splitFixtureFields [] = [] := by
  unfold splitFixtureFields
  rw [dif_pos rfl]

theorem splitFixtureFields_of_ne_nil {rest : List Char} (h : rest ≠ []) :
    splitFixtureFields rest = (nextField rest).1 :: splitFixtureFields (nextField rest).2 := by
  rw [splitFixtureFields, dif_neg h]

/-! ## Reading them -/

/-- `AddrParseError`, as it is shown. -/
def addrParseError : String := "invalid IP address syntax"

/-- `ParseIntError`, as it is shown. -/
def parseIntError : Encoding.IntErrorKind → String
  | .empty => "cannot parse integer from empty string"
  | .invalidDigit => "invalid digit found in string"
  | .posOverflow => "number too large to fit in target type"

/-- An address field. -/
def addressField (name : String) (field : List Char) : Except String IpAddr :=
  let text := String.ofList field
  match IpAddr.parse text with
  | some ip => .ok ip
  | none => .error s!"{name} `{text}`: {addrParseError}"

/-- A port field. -/
def portField (name : String) (field : List Char) : Except String UInt16 :=
  let text := String.ofList field
  match Encoding.fromStr 10 16 field with
  | .ok port => .ok (UInt16.ofNat port)
  | .error e => .error s!"{name} `{text}`: {parseIntError e}"

/-- The protocol field. -/
def protoField (field : List Char) : Except String Proto :=
  let other := String.ofList field
  if other = "tcp" then .ok .tcp
  else if other = "udp" then .ok .udp
  else .error s!"proto: expected `tcp` or `udp`, got `{other}`"

/-- The fixture of six fields. -/
def readFixture (frontIp frontPort proto backendNodeIp podIp targetPort : List Char) (clientIpAffinity : Bool) :
    Except String Fixture := do
  let frontIp ← addressField "front_ip" frontIp
  let frontPort ← portField "front_port" frontPort
  let proto ← protoField proto
  let backendNodeIp ← addressField "backend_node_ip" backendNodeIp
  let podIp ← addressField "pod_ip" podIp
  let targetPort ← portField "target_port" targetPort
  return { frontIp, frontPort, proto, backendNodeIp, podIp, targetPort, clientIpAffinity }

/-- What is said of a text with another number of fields. -/
def expectedFields (s : String) : String :=
  "expected front_ip:front_port:proto:backend_node_ip:pod_ip:target_port[:affinity] " ++
    s!"(bracket an IPv6 address, e.g. `[2001:db8::1]`), got `{s}`"

/-- `parse_fixture`. -/
def parseFixture (s : String) : Except String Fixture :=
  match splitFixtureFields s.toList with
  | [a, b, c, d, e, f] => readFixture a b c d e f false
  | [a, b, c, d, e, f, affinity] =>
      if String.ofList affinity = "affinity" then readFixture a b c d e f true else .error (expectedFields s)
  | _ => .error (expectedFields s)

example : parseFixture "10.0.0.1:80:tcp:10.0.0.2:[fd00::1]:8080:affinity" = .ok
    { frontIp := .v4 0x0a000001, frontPort := 80, proto := .tcp, backendNodeIp := .v4 0x0a000002
      podIp := .v6 #v[0xfd, 0, 0, 0, 0, 0, 0, 0, 0, 0, 0, 0, 0, 0, 0, 1], targetPort := 8080
      clientIpAffinity := true } := by decide +kernel

/-! ## What is read -/

/-- The text of a protocol. -/
def Proto.text : Proto → String
  | .tcp => "tcp"
  | .udp => "udp"

/-- The text of the last field, if there is one. -/
def affinityField (clientIpAffinity : Bool) : List (List Char) := if clientIpAffinity then ["affinity".toList] else []

/-- A field holds an address, as the standard parser reads it. -/
def HoldsAddress (field : List Char) (ip : IpAddr) : Prop := IpAddr.parse (String.ofList field) = some ip

/-- A field holds a port, as the standard parser reads it. -/
def HoldsPort (field : List Char) (port : UInt16) : Prop := Encoding.fromStrRadix 10 16 field = some port.toNat

instance (field : List Char) (ip : IpAddr) : Decidable (HoldsAddress field ip) := inferInstanceAs (Decidable (_ = _))

instance (field : List Char) (port : UInt16) : Decidable (HoldsPort field port) := inferInstanceAs (Decidable (_ = _))

/-- Six or seven fields hold a fixture. -/
def Fixture.HeldBy (f : Fixture) (fields : List (List Char)) : Prop :=
  ∃ frontIp frontPort backendNodeIp podIp targetPort,
    HoldsAddress frontIp f.frontIp ∧ HoldsPort frontPort f.frontPort ∧ HoldsAddress backendNodeIp f.backendNodeIp ∧
      HoldsAddress podIp f.podIp ∧ HoldsPort targetPort f.targetPort ∧
        fields = [frontIp, frontPort, f.proto.text.toList, backendNodeIp, podIp, targetPort] ++
          affinityField f.clientIpAffinity

theorem addressField_eq_ok {name : String} {field : List Char} {ip : IpAddr} :
    addressField name field = .ok ip ↔ HoldsAddress field ip := by
  unfold addressField HoldsAddress
  dsimp only
  split
  · rename_i ip' h
    simp [h]
  · rename_i h
    simp [h]

theorem portField_eq_ok {name : String} {field : List Char} {port : UInt16} :
    portField name field = .ok port ↔ HoldsPort field port := by
  unfold portField HoldsPort
  dsimp only
  rw [← Encoding.fromStr_eq_ok (Nat.zero_lt_succ 9)]
  split
  · rename_i n h
    have hn : n < 2 ^ 16 := Encoding.lt_of_fromStrRadix ((Encoding.fromStr_eq_ok (Nat.zero_lt_succ 9)).mp h)
    simp only [Except.ok.injEq]
    constructor
    · rintro rfl
      rw [h, UInt16.toNat_ofNat', Nat.mod_eq_of_lt hn]
    · intro hport
      rw [h] at hport
      rw [Except.ok.inj hport, UInt16.ofNat_toNat]
  · rename_i e h
    simp [h]

theorem protoField_eq_ok {field : List Char} {proto : Proto} :
    protoField field = .ok proto ↔ field = proto.text.toList := by
  unfold protoField
  dsimp only
  rw [← String.ofList_inj, String.ofList_toList]
  split_ifs with htcp hudp
  · rw [htcp]
    cases proto <;> simp [Proto.text]
  · rw [hudp]
    cases proto <;> simp [Proto.text]
  · cases proto <;> simp [Proto.text, htcp, hudp]

theorem bind_eq_ok {ε α β : Type} {x : Except ε α} {k : α → Except ε β} {b : β} :
    (x >>= k) = .ok b ↔ ∃ a, x = .ok a ∧ k a = .ok b := by
  cases x with
  | error e =>
    refine iff_of_false (fun h => by cases h) ?_
    rintro ⟨a, h, -⟩
    cases h
  | ok a =>
    refine ⟨fun h => ⟨a, rfl, h⟩, ?_⟩
    rintro ⟨a', h, hk⟩
    cases h
    exact hk

/-- The fixture of six fields is the one they hold. -/
theorem readFixture_eq_ok {a p t b c q : List Char} {affinity : Bool} {f : Fixture} :
    readFixture a p t b c q affinity = .ok f ↔
      HoldsAddress a f.frontIp ∧ HoldsPort p f.frontPort ∧ t = f.proto.text.toList ∧ HoldsAddress b f.backendNodeIp ∧
        HoldsAddress c f.podIp ∧ HoldsPort q f.targetPort ∧ f.clientIpAffinity = affinity := by
  unfold readFixture
  simp only [bind_eq_ok, addressField_eq_ok, portField_eq_ok, protoField_eq_ok]
  constructor
  · rintro ⟨frontIp, ha, frontPort, hp, proto, ht, backendNodeIp, hb, podIp, hc, targetPort, hq, hf⟩
    obtain rfl := Except.ok.inj hf
    exact ⟨ha, hp, ht, hb, hc, hq, rfl⟩
  · rintro ⟨ha, hp, ht, hb, hc, hq, rfl⟩
    exact ⟨_, ha, _, hp, _, ht, _, hb, _, hc, _, hq, rfl⟩

/-- **`parse_fixture`** accepts a text exactly if its fields hold a fixture, and that is the one it returns. -/
theorem parseFixture_eq_ok {s : String} {f : Fixture} :
    parseFixture s = .ok f ↔ f.HeldBy (splitFixtureFields s.toList) := by
  unfold parseFixture Fixture.HeldBy
  generalize splitFixtureFields s.toList = fields
  constructor
  · intro h
    split at h
    · rename_i a p t b c q
      obtain ⟨ha, hp, rfl, hb, hc, hq, haffinity⟩ := readFixture_eq_ok.mp h
      exact ⟨a, p, b, c, q, ha, hp, hb, hc, hq, by simp [affinityField, haffinity]⟩
    · rename_i a p t b c q affinity
      split_ifs at h with htext
      obtain ⟨ha, hp, rfl, hb, hc, hq, haffinity⟩ := readFixture_eq_ok.mp h
      refine ⟨a, p, b, c, q, ha, hp, hb, hc, hq, ?_⟩
      simp [affinityField, haffinity, ← htext]
    · cases h
  · rintro ⟨a, p, b, c, q, ha, hp, hb, hc, hq, rfl⟩
    have hread := fun affinity (h : f.clientIpAffinity = affinity) =>
      readFixture_eq_ok.mpr ⟨ha, hp, rfl, hb, hc, hq, h⟩
    cases haffinity : f.clientIpAffinity with
    | false => exact hread false haffinity
    | true => exact hread true haffinity

end Beep
