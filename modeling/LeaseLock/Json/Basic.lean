import LeaseLock.Dict
import LeaseLock.Number.Decimal
import LeaseLock.Number.Word

/-!
# JSON values

The values that requests, leases and answers are made of. A number is a whole number of 64 bits or a
double. The members of an object stand in a list; whoever builds one from text keeps them in key
order, each key once (`Json.Canonical`).

`Metadata` is what a client attaches to its lease: an object at the top, anything below.
-/

namespace LeaseLock

/-- A number in a JSON value. -/
inductive Numeral where
  /-- A whole number. -/
  | whole (i : Int)
  /-- A double. -/
  | double (x : Binary64)
deriving DecidableEq, Repr

/-- A JSON value. -/
inductive Json where
  /-- The value `null`. -/
  | null
  /-- A truth value. -/
  | bool (b : Bool)
  /-- A number. -/
  | number (n : Numeral)
  /-- A text. -/
  | text (s : String)
  /-- A list of values. -/
  | array (items : List Json)
  /-- A list of named values. -/
  | object (members : List (String × Json))
deriving Repr, BEq, Inhabited

/-- What a client attaches to a lease. -/
abbrev Metadata := Dict Json

namespace Json

/-- A natural number as a value. -/
def nat (n : Nat) : Json := .number (.whole n)

/-- A value or `null`. -/
def ofOption (f : α → Json) : Option α → Json
  | none => .null
  | some a => f a

/-- The member of an object with the given name. -/
def member? (name : String) : Json → Option Json
  | .object members => Dict.lookup name members
  | _ => none

/-- The text, if the value is one. -/
def text? : Json → Option String
  | .text s => some s
  | _ => none

/-- The truth value, if the value is one. -/
def bool? : Json → Option Bool
  | .bool b => some b
  | _ => none

/-- The whole number, if the value is one. -/
def int? : Json → Option Int
  | .number (.whole i) => some i
  | _ => none

/-- The natural number, if the value is one. -/
def nat? : Json → Option Nat
  | .number (.whole i) => if 0 ≤ i then some i.toNat else none
  | _ => none

/-- The items, if the value is a list. -/
def items? : Json → Option (List Json)
  | .array items => some items
  | _ => none

/-- The members of an object as a map, if the value is one. -/
def metadata? : Json → Option Metadata
  | .object members => some (Dict.ofList members)
  | _ => none

mutual

/-- Every object, at any depth, has its members in strictly increasing key order. -/
def Canonical : Json → Prop
  | .array items => CanonicalItems items
  | .object members =>
    (members.Pairwise fun a b ↦ a.1 < b.1) ∧ CanonicalMembers members
  | _ => True

/-- Every item of the list is canonical. -/
def CanonicalItems : List Json → Prop
  | [] => True
  | item :: items => item.Canonical ∧ CanonicalItems items

/-- Every value of the members is canonical. -/
def CanonicalMembers : List (String × Json) → Prop
  | [] => True
  | (_, value) :: members => value.Canonical ∧ CanonicalMembers members

end

end Json

end LeaseLock
