/-!
# StackAsm.Text.Utf8

Texts as bytes, and bytes as texts.

Every text has an encoding, but not all bytes encode a text. Decoding takes any bytes: where they
encode no character, a replacement character takes their place. Bytes that begin a character in the
right way and then break off are replaced as a whole, and the byte that they break off at is looked
at anew.
-/

namespace StackAsm.Text

/-- The bytes of characters. -/
def encodeChars (cs : List Char) : List UInt8 := cs.flatMap String.utf8EncodeChar

/-- The bytes of a text. -/
def encode (text : String) : List UInt8 := encodeChars text.toList

namespace Utf8

/-- What stands for bytes that encode no character. -/
def replacement : Char := '�'

/-- A character whose first bytes are read. -/
structure Unfinished where
  /-- The bits read so far. -/
  value : Nat
  /-- How many bytes are to follow. -/
  owed : Nat
  /-- The least value of the next byte. -/
  low : Nat := 0x80
  /-- The greatest value of the next byte. -/
  high : Nat := 0xBF
deriving DecidableEq, Repr

/-- The character that a byte begins, if more bytes are to follow. The bounds on the next byte rule
out characters that have a shorter encoding, surrogates, and values above those of all characters.
-/
def lead? (b : Nat) : Option Unfinished :=
  if b < 0xC2 then none
  else if b < 0xE0 then some ⟨b - 0xC0, 1, 0x80, 0xBF⟩
  else if b < 0xF0 then
    some ⟨b - 0xE0, 2, if b = 0xE0 then 0xA0 else 0x80, if b = 0xED then 0x9F else 0xBF⟩
  else if b < 0xF5 then
    some ⟨b - 0xF0, 3, if b = 0xF0 then 0x90 else 0x80, if b = 0xF4 then 0x8F else 0xBF⟩
  else none

/-- Takes the next byte of a character, if it can be that. -/
def Unfinished.take? (u : Unfinished) (b : Nat) : Option Unfinished :=
  if u.low ≤ b ∧ b ≤ u.high then some ⟨u.value * 64 + b % 64, u.owed - 1, 0x80, 0xBF⟩ else none

/-- Takes a byte between two characters: the characters that are done with it, and the one that is
not. -/
def start (b : Nat) : List Char × Option Unfinished :=
  if b < 0x80 then ([Char.ofNat b], none)
  else match lead? b with
    | some u => ([], some u)
    | none => ([replacement], none)

/-- Takes a byte. -/
def step (state : Option Unfinished) (b : Nat) : List Char × Option Unfinished :=
  match state with
  | none => start b
  | some u =>
    match u.take? b with
    | some u => if u.owed = 0 then ([Char.ofNat u.value], none) else ([], some u)
    | none => (replacement :: (start b).1, (start b).2)

/-- Takes all bytes. -/
def run : Option Unfinished → List UInt8 → List Char
  | none, [] => []
  | some _, [] => [replacement]
  | state, b :: rest => (step state b.toNat).1 ++ run (step state b.toNat).2 rest

end Utf8

/-- The text that bytes encode, with replacement characters where they encode none. -/
def decode (bytes : List UInt8) : String := String.ofList (Utf8.run none bytes)

end StackAsm.Text
