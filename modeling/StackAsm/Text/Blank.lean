/-!
# StackAsm.Text.Blank

Blank characters, trimming, and the split of a text at its first blank.

Source text may hold any character, so *blank* means the whole White_Space class: 25 code points,
listed in `isBlank`. All functions work on `List Char`.
-/

namespace StackAsm.Text

/-- The characters with the White_Space property. -/
def isBlank (c : Char) : Bool :=
  let n := c.toNat
  (0x09 ≤ n && n ≤ 0x0D) || n == 0x20 || n == 0x85 || n == 0xA0 || n == 0x1680 ||
    (0x2000 ≤ n && n ≤ 0x200A) || n == 0x2028 || n == 0x2029 || n == 0x202F ||
    n == 0x205F || n == 0x3000

/-- Drops the blanks at the front. -/
def trimStart (cs : List Char) : List Char := cs.dropWhile isBlank

/-- Drops the blanks at the end. -/
def trimEnd (cs : List Char) : List Char := (cs.reverse.dropWhile isBlank).reverse

/-- Drops the blanks at both ends. -/
def trimChars (cs : List Char) : List Char := trimEnd (trimStart cs)

/-- The characters before the first blank, and what follows them without the blanks at its ends. -/
def splitWord (cs : List Char) : List Char × List Char :=
  (cs.takeWhile (fun c => !isBlank c), trimChars (cs.dropWhile (fun c => !isBlank c)))

@[simp] theorem trimChars_nil : trimChars [] = [] := rfl

end StackAsm.Text
