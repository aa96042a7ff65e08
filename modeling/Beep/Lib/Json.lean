import Mathlib.Algebra.Group.Nat.Defs
import Mathlib.Tactic.Common

/-!
# `Lib.Json` — JSON values as they are read

A parsed JSON value and the readers a program applies to it. Indexing never fails: a missing field, and a field
of something that is not an object, is `null`, and every reader of `null` answers `none`. So a chain of fields
can be followed without a check at each of them.
-/

namespace Json

/-- A JSON value. A number is kept where it is an unsigned 64-bit integer. -/
inductive Value where
  | null
  | bool (b : Bool)
  | uint (n : UInt64)
  /-- a negative or fractional number -/
  | number
  | str (s : String)
  | arr (items : List Value)
  | obj (fields : List (String × Value))

namespace Value

/-- `value["key"]`. -/
def get (v : Value) (key : String) : Value :=
  match v with
  | .obj fields => (fields.lookup key).getD .null
  | _ => .null

/-- `as_str`. -/
def asStr : Value → Option String
  | .str s => some s
  | _ => none

/-- `as_u64`. -/
def asU64 : Value → Option UInt64
  | .uint n => some n
  | _ => none

/-- `as_bool`. -/
def asBool : Value → Option Bool
  | .bool b => some b
  | _ => none

/-- `as_array`. -/
def asArray : Value → Option (List Value)
  | .arr items => some items
  | _ => none

end Value

/-- `u16::try_from` of a `u64`. -/
def u16TryFrom (n : UInt64) : Option UInt16 :=
  if n.toNat < 2 ^ 16 then some (UInt16.ofNat n.toNat) else none

end Json
