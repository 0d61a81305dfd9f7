import LeaseLock.Json.Reader

/-!
# Records in JSON

A `Record` describes how the values of a type are written as an object and read back: its fields in
order, each with a name, a reader, a writer and what stands in when it is missing.

A record is read from an object, whose unknown members are skipped, or from a list of its fields in
order. A member that is given twice or missing without a stand-in is unfit. A list may end early
only where the remaining fields have a stand-in for that, and it must not be longer than the record;
a longer one is malformed.
-/

namespace LeaseLock.Json

open Text

/-- One field of a record. -/
structure Field (α : Type) where
  /-- The name of the member. -/
  name : String
  /-- How its value is read. -/
  read : Reader α
  /-- How its value is written; a value without a written form is left out. -/
  write : α → Option Json
  /-- What stands in for the member when an object lacks it. -/
  absent : Option α
  /-- What stands in for the item when a list ends before it. -/
  beyond : Option α

/-- The fields of a record in order, by the types of their values. -/
inductive Fields : List Type → Type 1 where
  /-- No fields. -/
  | nil : Fields []
  /-- A field and those behind it. -/
  | cons {α : Type} {ts : List Type} (f : Field α) (fs : Fields ts) : Fields (α :: ts)

/-- The values of all fields. -/
def Values : List Type → Type
  | [] => Unit
  | t :: ts => t × Values ts

/-- The values of the fields read so far. -/
def Draft : List Type → Type
  | [] => Unit
  | t :: ts => Option t × Draft ts

namespace Fields

/-- Nothing read yet. -/
def start : {ts : List Type} → Fields ts → Draft ts
  | _, .nil => ()
  | _, .cons _ fs => (none, fs.start)

/-- Take the member `name`, whose colon and value are next in the input. -/
def take : {ts : List Type} → Fields ts → Draft ts → String → Reader (Draft ts)
  | _, .nil, (), _, input => do
    let ((), rest) ← Reader.colon input
    let ((), rest) ← Reader.skipped rest
    return ((), rest)
  | _, .cons f fs, (v, vs), name, input =>
    if name = f.name then
      match v with
      | some _ => .error .unfit
      | none => do
        let ((), rest) ← Reader.colon input
        let (v, rest) ← f.read rest
        return ((some v, vs), rest)
    else do
      let (vs, rest) ← fs.take vs name input
      return ((v, vs), rest)

/-- The values of all fields, with the stand-ins for those that an object lacks. -/
def finish : {ts : List Type} → Fields ts → Draft ts → Option (Values ts)
  | _, .nil, () => some ()
  | _, .cons f fs, (v, vs) => do
    let v ← v <|> f.absent
    let vs ← fs.finish vs
    return (v, vs)

/-- The stand-ins for fields that lie beyond the end of a list. -/
def standIns : {ts : List Type} → Fields ts → Option (Values ts)
  | _, .nil => some ()
  | _, .cons f fs => do
    let v ← f.beyond
    let vs ← fs.standIns
    return (v, vs)

/-- The values as the items of a list, read up to its closing bracket, which is not consumed if the
list ends early. -/
def items : {ts : List Type} → Fields ts → Bool → Reader (Values ts)
  | _, .nil, _, input => .ok ((), input)
  | _, .cons f fs, isFirst, input => do
    match ← Reader.nextItem isFirst input with
    | none =>
      match (Fields.cons f fs).standIns with
      | some vs => return (vs, input)
      | none => .error .unfit
    | some input =>
      let (v, rest) ← f.read input
      let (vs, rest) ← fs.items false rest
      return ((v, vs), rest)

/-- The members that have a written form. -/
def members : {ts : List Type} → Fields ts → Values ts → List (String × Json)
  | _, .nil, () => []
  | _, .cons f fs, (v, vs) =>
    match f.write v with
    | some j => (f.name, j) :: fs.members vs
    | none => fs.members vs

end Fields

/-- How the values of a type are written as objects and read back. -/
structure Record (α : Type) where
  /-- The types of the fields. -/
  types : List Type
  /-- The fields. -/
  fields : Fields types
  /-- The value with the given fields. -/
  build : Values types → α
  /-- The fields of a value. -/
  parts : α → Values types

namespace Record

/-- The end of a list: its closing bracket. -/
def closing : Reader Unit := fun input ↦
  match Reader.skipBlanks input with
  | [] => .error .cutShort
  | b :: rest => if b = code ']' then .ok ((), rest) else .error .malformed

/-- A record, as an object or as a list. -/
def read (r : Record α) : Reader α := fun input ↦
  match Reader.skipBlanks input with
  | b :: rest =>
    if b = code '\x7b' then do
      let (draft, rest) ← Reader.foldMembers Reader.quoted r.fields.take (rest.length + 1) true
        r.fields.start rest
      match r.fields.finish draft with
      | some vs => return (r.build vs, rest)
      | none => .error .unfit
    else if b = code '[' then do
      let (vs, rest) ← r.fields.items true rest
      let ((), rest) ← closing rest
      return (r.build vs, rest)
    else Reader.mismatch input
  | [] => Reader.mismatch input

/-- A value as an object. -/
def write (r : Record α) (a : α) : Json := .object (r.fields.members (r.parts a))

/-- The text of a value. -/
def encode (r : Record α) (a : α) : List UInt8 := (r.write a).print

/-- The value that a whole text stands for. -/
def decode (r : Record α) (input : List UInt8) : Except Failure α := Reader.whole r.read input

/-- The value that a JSON value stands for. -/
def ofJson? (r : Record α) (j : Json) : Option α := (r.decode j.print).toOption

end Record

/-! ### Common fields -/

namespace Field

/-- A text that must be given. -/
def text (name : String) : Field String :=
  ⟨name, Reader.text, fun s ↦ some (.text s), none, none⟩

/-- A natural number of 64 bits that must be given. -/
def word (name : String) : Field Nat :=
  ⟨name, Reader.word, fun n ↦ some (Json.nat n), none, none⟩

/-- A truth value that must be given. -/
def truth (name : String) : Field Bool :=
  ⟨name, Reader.truth, fun b ↦ some (.bool b), none, none⟩

/-- A list of texts that must be given. -/
def texts (name : String) : Field (List String) :=
  ⟨name, Reader.list Reader.text, fun l ↦ some (.array (l.map .text)), none, none⟩

/-- A double that must be given. -/
def double (name : String) : Field Binary64 :=
  ⟨name, Reader.double, fun x ↦ some (.number (.double x)), none, none⟩

/-- An object that must be given. -/
def metadata (name : String) : Field Metadata :=
  ⟨name, Reader.metadata (maxNesting - 2), fun m ↦ some (.object m.entries), none, none⟩

/-- The field with `a` standing in for it wherever it is missing. -/
def orElse (f : Field α) (a : α) : Field α := { f with absent := some a, beyond := some a }

/-- The field with a value that may be unset: `null` reads as unset, an object may lack it, and an
unset value is left out in writing. -/
def optional (f : Field α) : Field (Option α) where
  name := f.name
  read := Reader.optional f.read
  write := fun v ↦ v.bind f.write
  absent := some none
  beyond := none

end Field

end LeaseLock.Json
