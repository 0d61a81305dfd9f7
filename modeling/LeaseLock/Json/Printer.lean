import LeaseLock.Json.Basic
import LeaseLock.Text.Bytes

/-!
# Writing JSON

`Json.print` writes a value as the bytes of its compact text: no blanks, members in the order in
which they stand, texts in UTF-8. Inside a text the quote, the backslash and the control characters
are escaped and every other byte stands for itself; a control character without a letter of its own
is written with four hexadecimal digits.
-/

namespace LeaseLock.Json

open Text

/-- One byte of a text as it is written between the quotes. -/
def escapeByte (b : UInt8) : List UInt8 :=
  if b = code '"' then [code '\\', code '"']
  else if b = code '\\' then [code '\\', code '\\']
  else if b = 8 then [code '\\', code 'b']
  else if b = 9 then [code '\\', code 't']
  else if b = 10 then [code '\\', code 'n']
  else if b = 12 then [code '\\', code 'f']
  else if b = 13 then [code '\\', code 'r']
  else if b < 32 then
    [code '\\', code 'u', code '0', code '0', hexDigit (b.toNat / 16), hexDigit (b.toNat % 16)]
  else [b]

/-- A text between quotes. -/
def printText (s : String) : List UInt8 :=
  code '"' :: (utf8 s).flatMap escapeByte ++ [code '"']

/-- The decimal digits of a number, first digit first, `fuel` bounding their count. -/
def decimalDigits : Nat → Nat → List UInt8
  | 0, _ => []
  | fuel + 1, n =>
    if n < 10 then [UInt8.ofNat (48 + n)]
    else decimalDigits fuel (n / 10) ++ [UInt8.ofNat (48 + n % 10)]

/-- A natural number in decimal. -/
def printNat (n : Nat) : List UInt8 := decimalDigits (n + 1) n

/-- A whole number in decimal. -/
def printInt (i : Int) : List UInt8 :=
  if i < 0 then code '-' :: printNat i.natAbs else printNat i.natAbs

/-- A number. -/
def printNumeral : Numeral → List UInt8
  | .whole i => printInt i
  | .double x => utf8 x.text

mutual

/-- The bytes of a value. -/
def print : Json → List UInt8
  | .null => [code 'n', code 'u', code 'l', code 'l']
  | .bool true => [code 't', code 'r', code 'u', code 'e']
  | .bool false => [code 'f', code 'a', code 'l', code 's', code 'e']
  | .number n => printNumeral n
  | .text s => printText s
  | .array items => code '[' :: printItems items ++ [code ']']
  | .object members => code '{' :: printMembers members ++ [code '}']

/-- The items of a list, commas between them. -/
def printItems : List Json → List UInt8
  | [] => []
  | [item] => item.print
  | item :: items => item.print ++ code ',' :: printItems items

/-- The members of an object, commas between them. -/
def printMembers : List (String × Json) → List UInt8
  | [] => []
  | [(name, value)] => printText name ++ code ':' :: value.print
  | (name, value) :: members =>
    printText name ++ code ':' :: value.print ++ code ',' :: printMembers members

end

/-- The text of a value. -/
def render (j : Json) : String := (String.fromUTF8? ⟨j.print.toArray⟩).getD ""

end LeaseLock.Json
