import StackAsm.Text.Blank

/-!
# StackAsm.Source.Literal

Number literals: unsigned words in decimal, or in base 16, 8 or 2 after `0x`, `0o` or `0b`.

Digits are read from the left. A character that is no digit of the base ends the reading, and so
does a digit that takes the value out of the word; whichever comes first is the fault reported.
-/

namespace StackAsm

/-- What is wrong with a literal. -/
inductive LiteralFault where
  | noDigits
  | invalidDigit
  | signed
  | tooLarge
deriving DecidableEq, Repr

/-- The fault in words. -/
def LiteralFault.message : LiteralFault → String
  | noDigits => "no digits"
  | invalidDigit => "invalid digit"
  | signed => "literals are unsigned"
  | tooLarge => "does not fit in 16 bits"

namespace Literal

/-- The greatest value of a word. -/
def maxWord : Nat := 0xFFFF

/-- The value of a digit in some base up to 16. -/
def digitValue (c : Char) : Option Nat :=
  if '0' ≤ c ∧ c ≤ '9' then some (c.toNat - '0'.toNat)
  else if 'a' ≤ c ∧ c ≤ 'f' then some (c.toNat - 'a'.toNat + 10)
  else if 'A' ≤ c ∧ c ≤ 'F' then some (c.toNat - 'A'.toNat + 10)
  else none

/-- The value of a digit of the given base. -/
def digit? (radix : Nat) (c : Char) : Option Nat :=
  (digitValue c).filter (· < radix)

/-- Reads digits onto a value. -/
def readDigits (radix : Nat) : Nat → List Char → Except LiteralFault Nat
  | value, [] => .ok value
  | value, c :: cs =>
    match digit? radix c with
    | none => .error .invalidDigit
    | some d =>
      if value * radix + d ≤ maxWord then readDigits radix (value * radix + d) cs
      else .error .tooLarge

/-- The base of a literal and its digits: a mark in front, in either case, sets the base. -/
def splitRadix : List Char → Nat × List Char
  | '0' :: c :: digits =>
    if c = 'x' ∨ c = 'X' then (16, digits)
    else if c = 'o' ∨ c = 'O' then (8, digits)
    else if c = 'b' ∨ c = 'B' then (2, digits)
    else (10, '0' :: c :: digits)
  | cs => (10, cs)

/-- Reads the digits of a literal. -/
def readWord (radix : Nat) (digits : List Char) : Except LiteralFault UInt16 :=
  if digits.head? = some '+' ∨ digits.head? = some '-' then .error .signed
  else if digits = [] then .error .noDigits
  else (readDigits radix 0 digits).map UInt16.ofNat

/-- Reads a literal whose outer blanks are gone. -/
def parse (cs : List Char) : Except LiteralFault UInt16 :=
  readWord (splitRadix cs).1 (splitRadix cs).2

end Literal

end StackAsm
