/-!
# Texts as bytes

Texts travel as bytes, those of UTF-8. This module holds the bytes of a text, the digits of numbers
among them, the pieces between separators, and a reading of bytes that need not be UTF-8:
`Text.ofBytes` shows every sequence that is no character as a replacement character.

A sequence of bytes that fails to be a character ends in front of the first byte that could not
follow. So a character that is cut off counts once, and whatever stands behind it is read afresh.
-/

namespace LeaseLock.Text

/-- The byte of an ASCII character. -/
def code (c : Char) : UInt8 := c.toUInt8

/-- The bytes of a text in UTF-8. -/
def utf8 (s : String) : List UInt8 := s.toUTF8.data.toList

/-- Whether the byte is a decimal digit. -/
def isDigit (b : UInt8) : Bool := 48 ≤ b && b ≤ 57

/-- The value of a decimal digit. -/
def digitValue (b : UInt8) : Nat := b.toNat - 48

/-- The number that a row of decimal digits stands for. -/
def valueOfDigits (digits : List UInt8) : Nat :=
  digits.foldl (fun n b ↦ 10 * n + digitValue b) 0

/-- The hexadecimal digit of a number below sixteen. -/
def hexDigit (n : Nat) : UInt8 := if n < 10 then UInt8.ofNat (48 + n) else UInt8.ofNat (87 + n)

/-- The value of a hexadecimal digit. -/
def hexValue (b : UInt8) : Option Nat :=
  if 48 ≤ b ∧ b ≤ 57 then some (b.toNat - 48)
  else if 97 ≤ b ∧ b ≤ 102 then some (b.toNat - 87)
  else if 65 ≤ b ∧ b ≤ 70 then some (b.toNat - 55)
  else none

/-- The number that a row of hexadecimal digits stands for. -/
def valueOfHexDigits (digits : List UInt8) : Nat :=
  digits.foldl (fun n b ↦ 16 * n + (hexValue b).getD 0) 0

/-! ### Pieces -/

/-- The bytes in front of the first `b`, and those behind it. -/
def cut (b : UInt8) (bytes : List UInt8) : List UInt8 × List UInt8 :=
  (bytes.takeWhile (· != b), (bytes.dropWhile (· != b)).drop 1)

/-- The pieces of the bytes between one `b` and the next. -/
def pieces (b : UInt8) : List UInt8 → List (List UInt8)
  | [] => [[]]
  | c :: cs =>
    match c == b, pieces b cs with
    | true, ps => [] :: ps
    | false, p :: ps => (c :: p) :: ps
    | false, [] => [[c]]

/-! ### Sequences -/

/-- A range of bytes, with both ends. -/
structure ByteRange where
  /-- The lower end. -/
  first : UInt8
  /-- The upper end. -/
  last : UInt8

/-- Whether the byte lies in the range. -/
def ByteRange.holds (r : ByteRange) (b : UInt8) : Bool := r.first ≤ b && b ≤ r.last

/-- The range of the bytes inside a character. -/
def inner : ByteRange := ⟨0x80, 0xBF⟩

/-- The ranges of the bytes that follow the first byte of a character. A byte that starts no
character is followed by nothing. -/
def following (b : UInt8) : List ByteRange :=
  if b < 0xC2 then []
  else if b < 0xE0 then [inner]
  else if b = 0xE0 then [⟨0xA0, 0xBF⟩, inner]
  else if b = 0xED then [⟨0x80, 0x9F⟩, inner]
  else if b < 0xF0 then [inner, inner]
  else if b = 0xF0 then [⟨0x90, 0xBF⟩, inner, inner]
  else if b < 0xF4 then [inner, inner, inner]
  else if b = 0xF4 then [⟨0x80, 0x8F⟩, inner, inner]
  else []

/-- How many leading bytes lie in the ranges, one after the other. -/
def fitting : List ByteRange → List UInt8 → Nat
  | r :: rs, b :: bs => if r.holds b then fitting rs bs + 1 else 0
  | _, _ => 0

/-- The sequences of bytes that stand for one character each, or for none. -/
def sequences : List UInt8 → List (List UInt8)
  | [] => []
  | b :: bs =>
    let n := fitting (following b) bs
    (b :: bs.take n) :: sequences (bs.drop n)
termination_by bs => bs.length
decreasing_by simp only [List.length_drop, List.length_cons]; omega

/-- The text of bytes, with a replacement character for each sequence that is no character. -/
def ofBytes (bytes : List UInt8) : String :=
  String.join ((sequences bytes).map fun s ↦ (String.fromUTF8? ⟨s.toArray⟩).getD "\uFFFD")

end LeaseLock.Text
