import LeaseLock.Text.Bytes

/-!
# Percent escapes

In addresses a byte may be written as a percent sign and two hexadecimal digits. A percent sign
without two such digits stands for itself.
-/

namespace LeaseLock.Percent

/-- Decode the percent escapes of a text. -/
def decode : List UInt8 → List UInt8
  | p :: a :: b :: rest =>
    match p == Text.code '%', Text.hexValue a, Text.hexValue b with
    | true, some a, some b => UInt8.ofNat (16 * a + b) :: decode rest
    | _, _, _ => p :: decode (a :: b :: rest)
  | bs => bs

end LeaseLock.Percent
