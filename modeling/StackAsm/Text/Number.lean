/-!
# StackAsm.Text.Number

How numbers are written: decimal, and upper-case hexadecimal with leading zeros.
-/

namespace StackAsm.Text

/-- The decimal digits of `n`. -/
def decimal (n : Nat) : String := String.ofList (Nat.toDigits 10 n)

/-- The upper-case hexadecimal digits of `n`, with zeros in front up to `width` digits. -/
def hexDigits (width n : Nat) : String :=
  let digits := (Nat.toDigits 16 n).map Char.toUpper
  String.ofList (List.replicate (width - digits.length) '0' ++ digits)

/-- A hexadecimal number with its `0x` mark and at least four digits: words and addresses. -/
def hexWord (n : Nat) : String := "0x" ++ hexDigits 4 n

/-- A hexadecimal number with its `0x` mark and at least eight digits: checksums. -/
def hexLong (n : Nat) : String := "0x" ++ hexDigits 8 n

/-- The bytes as two hexadecimal digits each, a blank between them. -/
def hexBytes (raw : List UInt8) : String :=
  " ".intercalate (raw.map fun b => hexDigits 2 b.toNat)

/-- Fills a text up with blanks on its right to at least `width` characters. -/
def padRight (width : Nat) (s : String) : String :=
  s ++ String.ofList (List.replicate (width - s.length) ' ')

end StackAsm.Text
