/-!
# StackAsm.Cli.Similarity

How alike two words are, as a number from zero to one: by the characters they have in common at
about the same places, and by how they start. A mistyped subcommand is told apart from an arbitrary
word by it.
-/

namespace StackAsm.Cli

/-- Characters that two words have in common, while walking through the first word. -/
structure Matching where
  /-- The positions of the second word that are already matched. -/
  used : List Nat := []
  /-- The position matched last. -/
  last : Nat := 0
  matched : Nat := 0
  /-- How often the matched positions go backwards. -/
  transposed : Nat := 0

/-- The position in `word` that matches `c` at position `i`: the first unused one at most `reach`
away. -/
def Matching.find? (m : Matching) (word : List Char) (reach i : Nat) (c : Char) : Option Nat :=
  (List.range word.length).find? fun j =>
    i - reach ≤ j && j ≤ i + reach && word[j]? == some c && !m.used.contains j

/-- Matches one more character of the first word. -/
def Matching.add (word : List Char) (reach : Nat) (m : Matching) (i : Nat) (c : Char) :
    Matching :=
  match m.find? word reach i c with
  | none => m
  | some j =>
    { used := j :: m.used
      last := j
      matched := m.matched + 1
      transposed := if j < m.last then m.transposed + 1 else m.transposed }

/-- Matches the characters of two words. -/
def Matching.ofWords (a b : List Char) : Matching :=
  let reach := max a.length b.length / 2 - 1
  a.zipIdx.foldl (fun m (c, i) => m.add b reach i c) {}

/-- How alike two words are, by the characters they have in common. -/
def commonShare (a b : List Char) : Float :=
  if a = [] ∧ b = [] then 1
  else if a.length = 1 ∧ b.length = 1 then if a = b then 1 else 0
  else
    let m := Matching.ofWords a b
    let matched := m.matched.toFloat
    if m.matched = 0 then 0
    else (1 / 3) * (matched / a.length.toFloat + matched / b.length.toFloat
      + (matched - m.transposed.toFloat) / matched)

/-- How many characters two words start with in common. -/
def commonStart : List Char → List Char → Nat
  | a :: as, b :: bs => if a = b then commonStart as bs + 1 else 0
  | _, _ => 0

/-- How alike two words are; a common start counts extra. -/
def similarity (a b : String) : Float :=
  let share := commonShare a.toList b.toList
  let s := share + 0.1 * (commonStart a.toList b.toList).toFloat * (1 - share)
  if s ≤ 1 then s else 1

/-- Whether a word may be meant for another. -/
def isLike (a b : String) : Bool := similarity a b > 0.8

end StackAsm.Cli
