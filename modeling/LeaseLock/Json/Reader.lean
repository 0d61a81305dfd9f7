import LeaseLock.Json.Printer
import LeaseLock.Number.Scaling

/-!
# Reading JSON

Text is read in one pass from the left, and the first failure met decides the outcome. There are
three kinds of failure: the text is no JSON (`Failure.malformed`), it ends too early
(`Failure.cutShort`), or it is JSON but not of the kind asked for (`Failure.unfit`). A value of the
wrong kind is unfit as soon as its kind is known: a literal, a number or a text is read to its end
first, a list or an object is not.

A `Reader` consumes bytes and hands back the rest. Lists and objects are read by folding a step over
their items or members (`foldItems`, `foldMembers`); the fuel of these loops is the length of the
input, of which every round consumes at least one byte.

Values may nest `maxNesting` deep. A value that nobody asked for is skipped instead of read;
skipping checks the grammar only, at any depth, and does not look at what the texts contain.
-/

namespace LeaseLock.Json

open Text

/-- Why a text could not be read as the value asked for. -/
inductive Failure where
  /-- The text is no JSON. -/
  | malformed
  /-- The text ends before the value does. -/
  | cutShort
  /-- The value is not of the kind or in the range asked for, a member is missing or given twice. -/
  | unfit
deriving DecidableEq, Repr

/-- Reads a value from the front of the input and hands back the rest. -/
abbrev Reader (α : Type) := List UInt8 → Except Failure (α × List UInt8)

/-- How many lists and objects may enclose a value that is read. -/
def maxNesting : Nat := 127

namespace Reader

/-! ### Blanks and literals -/

/-- Blank, tab, line feed or carriage return. -/
def isBlank (b : UInt8) : Bool := b == 32 || b == 9 || b == 10 || b == 13

/-- The input behind its leading blanks. -/
def skipBlanks (input : List UInt8) : List UInt8 := input.dropWhile isBlank

/-- The given bytes. -/
def exactly : List UInt8 → Reader Unit
  | [], input => .ok ((), input)
  | _ :: _, [] => .error .cutShort
  | e :: es, b :: rest => if b = e then exactly es rest else .error .malformed

/-- The value `a` for the given bytes. -/
def literal (bytes : List UInt8) (a : α) : Reader α := fun input ↦ do
  let ((), rest) ← exactly bytes input
  return (a, rest)

/-! ### Numbers -/

/-- What the end of the input means inside a number: a number that is read is cut short by it, a
number that is skipped is malformed. -/
inductive Purpose where
  /-- The number is read. -/
  | read
  /-- The number is skipped. -/
  | skip
deriving DecidableEq, Repr

/-- The failure when a number lacks a digit in front of the given rest. -/
def Purpose.failure : Purpose → List UInt8 → Failure
  | .read, [] => .cutShort
  | _, _ => .malformed

/-- The digits that must follow, at least one of them. -/
def someDigits (purpose : Purpose) : Reader (List UInt8) := fun input ↦
  match input.takeWhile isDigit with
  | [] => .error (purpose.failure input)
  | digits => .ok (digits, input.dropWhile isDigit)

/-- The digits before the point: a single zero, or digits that do not start with one. -/
def wholeDigits (purpose : Purpose) : Reader (List UInt8) := fun input ↦ do
  let (digits, rest) ← someDigits purpose input
  match digits with
  | b :: _ :: _ => if b = 48 then .error .malformed else return (digits, rest)
  | _ => return (digits, rest)

/-- The digits behind the point, if there is one. -/
def fraction (purpose : Purpose) : Reader (Option (List UInt8)) := fun input ↦
  match input with
  | b :: rest =>
    if b = code '.' then do
      let (digits, rest) ← someDigits purpose rest
      return (some digits, rest)
    else .ok (none, input)
  | [] => .ok (none, input)

/-- A sign, if there is one: whether it is a minus. -/
def sign : List UInt8 → Bool × List UInt8
  | [] => (false, [])
  | b :: rest =>
    if b = code '-' then (true, rest)
    else if b = code '+' then (false, rest)
    else (false, b :: rest)

/-- The power of ten behind the letter, if there is one. -/
def power (purpose : Purpose) : Reader (Option Int) := fun input ↦
  match input with
  | b :: rest =>
    if b = code 'e' ∨ b = code 'E' then do
      let (negative, rest) := sign rest
      let (digits, rest) ← someDigits purpose rest
      let n : Int := valueOfDigits digits
      return (some (if negative then -n else n), rest)
    else .ok (none, input)
  | [] => .ok (none, input)

/-- The parts of a written number. -/
structure Written where
  /-- Whether it starts with a minus. -/
  negative : Bool
  /-- Its digits before the point. -/
  whole : List UInt8
  /-- Its digits behind the point, if it has one. -/
  fraction : Option (List UInt8)
  /-- Its power of ten, if it has one. -/
  power : Option Int

/-- A number as it is written. -/
def written (purpose : Purpose) : Reader Written := fun input ↦ do
  let (negative, rest) :=
    match input with
    | b :: rest => if b = code '-' then (true, rest) else (false, input)
    | [] => (false, input)
  let (whole, rest) ← wholeDigits purpose rest
  let (fraction, rest) ← fraction purpose rest
  let (power, rest) ← power purpose rest
  return (⟨negative, whole, fraction, power⟩, rest)

/-- The number that is written: whole if it has neither point nor power and fits 64 bits, with a
minus at most `2 ^ 63` and not zero; a double otherwise. -/
def Written.numeral? (w : Written) : Option Numeral :=
  let n := valueOfDigits w.whole
  let isWhole := w.fraction.isNone && w.power.isNone
  if isWhole ∧ w.negative ∧ 0 < n ∧ n ≤ signedBound then some (.whole (-n))
  else if isWhole ∧ ¬w.negative ∧ n < wordBound then some (.whole n)
  else
    let decimal := Decimal.ofDigits (w.whole.map digitValue)
      ((w.fraction.getD []).map digitValue) (w.power.getD 0)
    (decimal.toBinary64? w.negative).map .double

/-- A number. One too large for a double is malformed. -/
def numeral : Reader Numeral := fun input ↦ do
  let (w, rest) ← written .read input
  match w.numeral? with
  | some n => return (n, rest)
  | none => .error .malformed

/-! ### Texts -/

/-- Four hexadecimal digits. -/
def fourHex : Reader Nat := fun input ↦
  match input with
  | a :: b :: c :: d :: rest =>
    match hexValue a, hexValue b, hexValue c, hexValue d with
    | some a, some b, some c, some d => .ok (((a * 16 + b) * 16 + c) * 16 + d, rest)
    | _, _, _, _ => .error .malformed
  | _ => .error .cutShort

/-- The byte that a one-letter escape stands for. -/
def escapedByte (b : UInt8) : Option UInt8 :=
  if b = code '"' then some b
  else if b = code '\\' then some b
  else if b = code '/' then some b
  else if b = code 'b' then some 8
  else if b = code 'f' then some 12
  else if b = code 'n' then some 10
  else if b = code 'r' then some 13
  else if b = code 't' then some 9
  else none

/-- A character given by its number in hexadecimal, in UTF-8. A number from the upper half of the
surrogates must be followed by one from the lower half, which stands nowhere else. -/
def numberedChar : Reader (List UInt8) := fun input ↦ do
  let (n, rest) ← fourHex input
  if 0xDC00 ≤ n ∧ n ≤ 0xDFFF then .error .malformed
  else if n < 0xD800 ∨ 0xDBFF < n then return (String.utf8EncodeChar (Char.ofNat n), rest)
  else
    let ((), rest) ← exactly [code '\\'] rest
    let ((), rest) ← exactly [code 'u'] rest
    let (low, rest) ← fourHex rest
    if low < 0xDC00 ∨ 0xDFFF < low then .error .malformed
    else
      return (String.utf8EncodeChar (Char.ofNat (0x10000 + (n - 0xD800) * 1024 + (low - 0xDC00))),
        rest)

/-- The bytes that an escape stands for, read behind its backslash. -/
def escape : Reader (List UInt8) := fun input ↦
  match input with
  | [] => .error .cutShort
  | b :: rest =>
    if b = code 'u' then numberedChar rest
    else match escapedByte b with
      | some c => .ok ([c], rest)
      | none => .error .malformed

/-- An escape of which only the shape is checked. -/
def skippedEscape : Reader (List UInt8) := fun input ↦
  match input with
  | [] => .error .cutShort
  | b :: rest =>
    if b = code 'u' then do
      let (_, rest) ← fourHex rest
      return ([], rest)
    else match escapedByte b with
      | some _ => .ok ([], rest)
      | none => .error .malformed

/-- The bytes of a text up to its closing quote, in at most `fuel` rounds. -/
def quotedWith (escape : Reader (List UInt8)) : Nat → Reader (List UInt8)
  | 0, _ => .error .cutShort
  | _, [] => .error .cutShort
  | fuel + 1, b :: rest =>
    if b = code '"' then .ok ([], rest)
    else if b = code '\\' then do
      let (bytes, rest) ← escape rest
      let (more, rest) ← quotedWith escape fuel rest
      return (bytes ++ more, rest)
    else if b < 32 then .error .malformed
    else do
      let (more, rest) ← quotedWith escape fuel rest
      return (b :: more, rest)

/-- A text, read behind its opening quote. -/
def quoted : Reader String := fun input ↦ do
  let (bytes, rest) ← quotedWith escape input.length input
  match String.fromUTF8? ⟨bytes.toArray⟩ with
  | some s => return (s, rest)
  | none => .error .malformed

/-- A text of which only the shape is checked, behind its opening quote. -/
def skippedQuoted : Reader Unit := fun input ↦ do
  let (_, rest) ← quotedWith skippedEscape input.length input
  return ((), rest)

/-! ### Lists and objects -/

/-- Whether another item follows, read in front of it: `none` at the closing bracket, which is not
consumed. -/
def nextItem (isFirst : Bool) (input : List UInt8) : Except Failure (Option (List UInt8)) :=
  match skipBlanks input with
  | [] => .error .cutShort
  | b :: rest =>
    if b = code ']' then .ok none
    else if isFirst then .ok (some (b :: rest))
    else if b = code ',' then
      match skipBlanks rest with
      | [] => .error .cutShort
      | c :: rest' => if c = code ']' then .error .malformed else .ok (some (c :: rest'))
    else .error .malformed

/-- The items of a list folded with `step`, read behind the opening bracket. -/
def foldItems (step : σ → Reader σ) : Nat → Bool → σ → Reader σ
  | 0, _, _, _ => .error .cutShort
  | fuel + 1, isFirst, s, input => do
    match ← nextItem isFirst input with
    | none => return (s, (skipBlanks input).drop 1)
    | some input =>
      let (s, rest) ← step s input
      foldItems step fuel false s rest

/-- Whether another member follows: its input behind the opening quote of the name, or `none` at the
closing brace, which is not consumed. -/
def nextMember (isFirst : Bool) (input : List UInt8) : Except Failure (Option (List UInt8)) :=
  match skipBlanks input with
  | [] => .error .cutShort
  | b :: rest =>
    if b = code '}' then .ok none
    else if isFirst then
      if b = code '"' then .ok (some rest) else .error .malformed
    else if b = code ',' then
      match skipBlanks rest with
      | [] => .error .cutShort
      | c :: rest' => if c = code '"' then .ok (some rest') else .error .malformed
    else .error .malformed

/-- The colon between a name and its value. -/
def colon : Reader Unit := fun input ↦
  match skipBlanks input with
  | [] => .error .cutShort
  | b :: rest => if b = code ':' then .ok ((), rest) else .error .malformed

/-- The members of an object folded with `step`, which gets the name of a member and the input in
front of its colon. -/
def foldMembers (name : Reader κ) (step : σ → κ → Reader σ) : Nat → Bool → σ → Reader σ
  | 0, _, _, _ => .error .cutShort
  | fuel + 1, isFirst, s, input => do
    match ← nextMember isFirst input with
    | none => return (s, (skipBlanks input).drop 1)
    | some input =>
      let (k, rest) ← name input
      let (s, rest) ← step s k rest
      foldMembers name step fuel false s rest

/-! ### Values -/

/-- A value whose items and members are read by `inner`; without one it must not have any. -/
def valueWith (inner : Option (Reader Json)) : Reader Json := fun input ↦
  match skipBlanks input with
  | [] => .error .cutShort
  | b :: rest =>
    if b = code 'n' then literal [code 'u', code 'l', code 'l'] .null rest
    else if b = code 't' then literal [code 'r', code 'u', code 'e'] (.bool true) rest
    else if b = code 'f' then
      literal [code 'a', code 'l', code 's', code 'e'] (.bool false) rest
    else if b = code '-' ∨ isDigit b then do
      let (n, rest) ← numeral (b :: rest)
      return (.number n, rest)
    else if b = code '"' then do
      let (s, rest) ← quoted rest
      return (.text s, rest)
    else match inner with
      | none => .error .malformed
      | some inner =>
        if b = code '[' then do
          let (items, rest) ← foldItems
            (fun items input ↦ do
              let (item, rest) ← inner input
              return (item :: items, rest))
            (rest.length + 1) true [] rest
          return (.array items.reverse, rest)
        else if b = code '\x7b' then do
          let (members, rest) ← foldMembers quoted
            (fun members name input ↦ do
              let ((), rest) ← colon input
              let (value, rest) ← inner rest
              return (Dict.place name value members, rest))
            (rest.length + 1) true [] rest
          return (.object members, rest)
        else .error .malformed

/-- A value in which lists and objects nest at most `depth` deep. -/
def value : Nat → Reader Json
  | 0 => valueWith none
  | depth + 1 => valueWith (some (value depth))

/-- Any value, nested at most `depth` deep, of which only the shape is checked. -/
def skip : Nat → Reader Unit
  | 0, _ => .error .malformed
  | depth + 1, input =>
    match skipBlanks input with
    | [] => .error .cutShort
    | b :: rest =>
      if b = code 'n' then literal [code 'u', code 'l', code 'l'] () rest
      else if b = code 't' then literal [code 'r', code 'u', code 'e'] () rest
      else if b = code 'f' then literal [code 'a', code 'l', code 's', code 'e'] () rest
      else if b = code '-' ∨ isDigit b then do
        let (_, rest) ← written .skip (b :: rest)
        return ((), rest)
      else if b = code '"' then skippedQuoted rest
      else if b = code '[' then
        foldItems (fun _ input ↦ skip depth input) (rest.length + 1) true () rest
      else if b = code '\x7b' then
        foldMembers skippedQuoted
          (fun _ _ input ↦ do
            let ((), rest) ← colon input
            skip depth rest)
          (rest.length + 1) true () rest
      else .error .malformed

/-- Any value, skipped. The length of the input bounds how deep it can nest. -/
def skipped : Reader Unit := fun input ↦ skip (input.length + 1) input

/-! ### Values of one kind -/

/-- The failure for a value of the wrong kind. -/
def mismatch : Reader α := fun input ↦
  match skipBlanks input with
  | [] => .error .cutShort
  | b :: rest =>
    if b = code 'n' then do
      let _ ← exactly [code 'u', code 'l', code 'l'] rest
      .error .unfit
    else if b = code 't' then do
      let _ ← exactly [code 'r', code 'u', code 'e'] rest
      .error .unfit
    else if b = code 'f' then do
      let _ ← exactly [code 'a', code 'l', code 's', code 'e'] rest
      .error .unfit
    else if b = code '-' ∨ isDigit b then do
      let _ ← numeral (b :: rest)
      .error .unfit
    else if b = code '"' then do
      let _ ← quoted rest
      .error .unfit
    else if b = code '[' ∨ b = code '\x7b' then .error .unfit
    else .error .malformed

/-- A text. -/
def text : Reader String := fun input ↦
  match skipBlanks input with
  | b :: rest => if b = code '"' then quoted rest else mismatch input
  | [] => mismatch input

/-- A number, converted by `f`; one that `f` refuses is unfit. -/
def numeralWith (f : Numeral → Option α) : Reader α := fun input ↦
  match skipBlanks input with
  | b :: rest =>
    if b = code '-' ∨ isDigit b then do
      let (n, rest) ← numeral (b :: rest)
      match f n with
      | some a => return (a, rest)
      | none => .error .unfit
    else mismatch input
  | [] => mismatch input

/-- A natural number of 64 bits. -/
def word : Reader Nat := numeralWith fun
  | .whole i => if 0 ≤ i then some i.toNat else none
  | .double _ => none

/-- A double; a whole number is rounded to one. -/
def double : Reader Binary64 := numeralWith fun
  | .whole i => Binary64.ofInt i
  | .double x => some x

/-- A truth value. -/
def truth : Reader Bool := fun input ↦
  match skipBlanks input with
  | b :: rest =>
    if b = code 't' then literal [code 'r', code 'u', code 'e'] true rest
    else if b = code 'f' then literal [code 'a', code 'l', code 's', code 'e'] false rest
    else mismatch input
  | [] => mismatch input

/-- The value `null`, or one that `r` reads. -/
def optional (r : Reader α) : Reader (Option α) := fun input ↦
  match skipBlanks input with
  | b :: rest =>
    if b = code 'n' then literal [code 'u', code 'l', code 'l'] none rest
    else do
      let (a, rest) ← r input
      return (some a, rest)
  | [] => do
    let (a, rest) ← r input
    return (some a, rest)

/-- A list of what `r` reads. -/
def list (r : Reader α) : Reader (List α) := fun input ↦
  match skipBlanks input with
  | b :: rest =>
    if b = code '[' then do
      let (items, rest) ← foldItems
        (fun items input ↦ do
          let (item, rest) ← r input
          return (item :: items, rest))
        (rest.length + 1) true [] rest
      return (items.reverse, rest)
    else mismatch input
  | [] => mismatch input

/-- An object whose values nest at most `depth` deep; of two members with one name the later one
counts. -/
def metadata (depth : Nat) : Reader Metadata := fun input ↦
  match skipBlanks input with
  | b :: rest =>
    if b = code '\x7b' then
      foldMembers quoted
        (fun members name input ↦ do
          let ((), rest) ← colon input
          let (value, rest) ← value depth rest
          return (members.insert name value, rest))
        (rest.length + 1) true (∅ : Metadata) rest
    else mismatch input
  | [] => mismatch input

/-- What `r` reads from the whole input, blanks aside. -/
def whole (r : Reader α) (input : List UInt8) : Except Failure α := do
  let (a, rest) ← r input
  match skipBlanks rest with
  | [] => return a
  | _ => .error .malformed

end Reader

/-- The value that a whole text stands for. -/
def parse (input : List UInt8) : Except Failure Json := Reader.whole (Reader.value maxNesting) input

end LeaseLock.Json
