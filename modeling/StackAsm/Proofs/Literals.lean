import Mathlib.Data.List.Forall2
import Mathlib.Data.Nat.Digits.Defs
import StackAsm.Proofs.LineForms
import StackAsm.Source.Operand

/-!
# StackAsm.Proofs.Literals

Which texts are literals, what they mean, and what is said of all others.

The meaning of digits is said without the reader: each of them is looked up in a table of digits
(`Literal.IsDigit`), and together they are a number in positional notation (`Literal.Denotes`).
There is no bound in that. The reader has one at every digit, and stops at the first place where it
cannot go on. Nevertheless the value is right whenever it fits, and what is reported is that it does
not fit if and only if some of the digits from the left are too much already.

## Proof shape

`Literal.Reaches` is the unbounded reading of digits onto a value. The reader follows it as long as
the value is a word (`readDigits_eq_ok_iff`), and leaves it where a part of the digits exceeds that
(`readDigits_eq_tooLarge_iff`). Both are by the recursion of the reader.
-/

namespace StackAsm

namespace Literal

/-! ### Digits -/

/-- The digits of base 16 in order, with small letters. -/
def smallDigits : List Char :=
  ['0', '1', '2', '3', '4', '5', '6', '7', '8', '9', 'a', 'b', 'c', 'd', 'e', 'f']

/-- The digits of base 16 in order, with capital letters. -/
def capitalDigits : List Char :=
  ['0', '1', '2', '3', '4', '5', '6', '7', '8', '9', 'A', 'B', 'C', 'D', 'E', 'F']

/-- A character is the digit `d` of a base. -/
def IsDigit (radix : Nat) (c : Char) (d : Nat) : Prop :=
  d < radix ∧ (smallDigits[d]? = some c ∨ capitalDigits[d]? = some c)

/-- The number that digits denote, the most significant one first. -/
def Denotes (radix : Nat) (digits : List Char) (n : Nat) : Prop :=
  ∃ ds, List.Forall₂ (IsDigit radix) digits ds ∧ Nat.ofDigits radix ds.reverse = n

theorem digitValue_eq_some_iff {c : Char} {d : Nat} :
    digitValue c = some d ↔ smallDigits[d]? = some c ∨ capitalDigits[d]? = some c := by
  constructor
  · have hread : ∀ n < 103, ∀ d ∈ digitValue (Char.ofNat n),
        smallDigits[d]? = some (Char.ofNat n) ∨ capitalDigits[d]? = some (Char.ofNat n) := by
      decide +kernel
    intro hvalue
    have hcode : c.toNat < 103 := by
      unfold digitValue at hvalue
      split_ifs at hvalue with hnumber hsmall hcapital
      · exact Nat.lt_of_le_of_lt (show c.toNat ≤ '9'.toNat from hnumber.2) (by decide)
      · exact Nat.lt_of_le_of_lt (show c.toNat ≤ 'f'.toNat from hsmall.2) (by decide)
      · exact Nat.lt_of_le_of_lt (show c.toNat ≤ 'F'.toNat from hcapital.2) (by decide)
    have hc := hread c.toNat hcode d
    rw [Char.ofNat_toNat] at hc
    exact hc hvalue
  · have hspelled : ∀ d < 16, smallDigits[d]?.bind digitValue = some d ∧
        capitalDigits[d]?.bind digitValue = some d := by
      decide +kernel
    intro hdigit
    rcases hdigit with hsmall | hcapital
    · have hvalue := (hspelled d (List.getElem?_eq_some_iff.mp hsmall).1).1
      rwa [hsmall] at hvalue
    · have hvalue := (hspelled d (List.getElem?_eq_some_iff.mp hcapital).1).2
      rwa [hcapital] at hvalue

theorem digit?_eq_some_iff {radix : Nat} {c : Char} {d : Nat} :
    digit? radix c = some d ↔ IsDigit radix c d := by
  unfold digit? IsDigit
  rw [Option.filter_eq_some_iff, digitValue_eq_some_iff, decide_eq_true_iff, and_comm]

/-! ### Reading without a bound -/

/-- Reading digits onto a value gives `n`. -/
def Reaches (radix : Nat) : Nat → List Char → Nat → Prop
  | value, [], n => value = n
  | value, c :: cs, n => ∃ d, IsDigit radix c d ∧ Reaches radix (value * radix + d) cs n

/-- A digit more never makes the value less. -/
theorem Reaches.le {radix value n : Nat} (hradix : 0 < radix) {cs : List Char}
    (h : Reaches radix value cs n) : value ≤ n := by
  induction cs generalizing value with
  | nil => exact Nat.le_of_eq h
  | cons c cs ih =>
    obtain ⟨d, -, hrest⟩ := h
    calc value ≤ value * radix := Nat.le_mul_of_pos_right value hradix
      _ ≤ value * radix + d := Nat.le_add_right _ _
      _ ≤ n := ih hrest

/-- It takes a digit to make it more. -/
theorem Reaches.exists_cons {radix value n : Nat} {cs : List Char} (h : Reaches radix value cs n)
    (hn : value < n) : ∃ c rest, cs = c :: rest := by
  cases cs with
  | nil =>
    obtain rfl : value = n := h
    omega
  | cons c rest => exact ⟨c, rest, rfl⟩

theorem reaches_iff {radix value n : Nat} {cs : List Char} :
    Reaches radix value cs n ↔ ∃ ds, List.Forall₂ (IsDigit radix) cs ds ∧
      ds.foldl (fun value d => d + radix * value) value = n := by
  induction cs generalizing value with
  | nil => simp [Reaches]
  | cons c cs ih =>
    simp only [Reaches, ih, List.forall₂_cons_left_iff]
    constructor
    · intro h
      obtain ⟨d, hd, ds, hds, hvalue⟩ := h
      refine ⟨d :: ds, ⟨d, ds, hd, hds, rfl⟩, ?_⟩
      rw [List.foldl_cons, Nat.add_comm d, Nat.mul_comm radix, hvalue]
    · intro h
      obtain ⟨_, ⟨d, ds, hd, hds, rfl⟩, hvalue⟩ := h
      refine ⟨d, hd, ds, hds, ?_⟩
      rw [List.foldl_cons, Nat.add_comm d, Nat.mul_comm radix] at hvalue
      exact hvalue

theorem denotes_iff_reaches {radix n : Nat} {cs : List Char} :
    Denotes radix cs n ↔ Reaches radix 0 cs n := by
  rw [reaches_iff]
  simp only [Denotes, Nat.ofDigits_eq_foldr, List.foldr_reverse, Nat.cast_id]

/-! ### The reader -/

section Reader

variable {radix value : Nat} {cs : List Char}

theorem not_reaches_of_digit?_eq_none {c : Char} (h : digit? radix c = none) (n : Nat) :
    ¬ Reaches radix value (c :: cs) n := by
  intro hreaches
  obtain ⟨d, hd, -⟩ := hreaches
  rw [digit?_eq_some_iff.mpr hd] at h
  cases h

theorem reaches_cons_iff {c : Char} {d : Nat} (h : digit? radix c = some d) {n : Nat} :
    Reaches radix value (c :: cs) n ↔ Reaches radix (value * radix + d) cs n := by
  constructor
  · intro hreaches
    obtain ⟨d', hd', hrest⟩ := hreaches
    obtain rfl : d = d' := Option.some.inj (h.symm.trans (digit?_eq_some_iff.mpr hd'))
    exact hrest
  · intro hrest
    exact ⟨d, digit?_eq_some_iff.mp h, hrest⟩

/-- The reader gives a value when the digits reach it and it fits. -/
theorem readDigits_eq_ok_iff (hradix : 0 < radix) (hvalue : value ≤ maxWord) {n : Nat} :
    readDigits radix value cs = .ok n ↔ Reaches radix value cs n ∧ n ≤ maxWord := by
  fun_induction readDigits radix value cs with
  | case1 value =>
    simp only [Except.ok.injEq, Reaches]
    constructor
    · intro hn
      exact ⟨hn, hn ▸ hvalue⟩
    · intro h
      exact h.1
  | case2 value c cs hnone => simp [not_reaches_of_digit?_eq_none hnone]
  | case3 value c cs d hd hfits ih => rw [ih hfits, reaches_cons_iff hd]
  | case4 value c cs d hd hlarge =>
    -- what comes behind does not make it less
    refine iff_of_false (by simp) ?_
    intro h
    have hle := Reaches.le hradix ((reaches_cons_iff hd).mp h.1)
    omega

/-- The reader finds the value too large when some of the digits from the left reach one that is. -/
theorem readDigits_eq_tooLarge_iff (hvalue : value ≤ maxWord) :
    readDigits radix value cs = .error .tooLarge ↔
      ∃ front, front <+: cs ∧ ∃ n, maxWord < n ∧ Reaches radix value front n := by
  fun_induction readDigits radix value cs with
  | case1 value =>
    refine iff_of_false (by simp) ?_
    intro h
    obtain ⟨front, hfront, n, hn, hreaches⟩ := h
    obtain ⟨c, rest, rfl⟩ := hreaches.exists_cons (by omega)
    simp at hfront
  | case2 value c cs hnone =>
    refine iff_of_false (by simp) ?_
    intro h
    obtain ⟨front, hfront, n, hn, hreaches⟩ := h
    obtain ⟨c', rest, rfl⟩ := hreaches.exists_cons (by omega)
    obtain ⟨rfl, -⟩ := List.cons_prefix_cons.mp hfront
    exact not_reaches_of_digit?_eq_none hnone n hreaches
  | case3 value c cs d hd hfits ih =>
    rw [ih hfits]
    constructor
    · intro h
      obtain ⟨front, hfront, n, hn, hreaches⟩ := h
      exact ⟨c :: front, List.cons_prefix_cons.mpr ⟨rfl, hfront⟩, n, hn,
        (reaches_cons_iff hd).mpr hreaches⟩
    · intro h
      obtain ⟨front, hfront, n, hn, hreaches⟩ := h
      obtain ⟨c', rest, rfl⟩ := hreaches.exists_cons (by omega)
      obtain ⟨rfl, hrest⟩ := List.cons_prefix_cons.mp hfront
      exact ⟨rest, hrest, n, hn, (reaches_cons_iff hd).mp hreaches⟩
  | case4 value c cs d hd hlarge =>
    refine iff_of_true rfl ⟨[c], by simp, value * radix + d, by omega, ?_⟩
    exact (reaches_cons_iff hd).mpr rfl

/-- There is nothing else that the reader stops at. -/
theorem readDigits_fault {fault : LiteralFault} (h : readDigits radix value cs = .error fault) :
    fault = .tooLarge ∨ fault = .invalidDigit := by
  fun_induction readDigits radix value cs with
  | case1 => cases h
  | case2 =>
    cases h
    exact .inr rfl
  | case3 value c cs d _ _ ih => exact ih h
  | case4 =>
    cases h
    exact .inl rfl

end Reader

/-! ### The base -/

/-- The marks in front of the digits, each with the base that it sets. -/
def marked : List (List Char × Nat) :=
  [(['0', 'x'], 16), (['0', 'X'], 16), (['0', 'o'], 8), (['0', 'O'], 8), (['0', 'b'], 2),
    (['0', 'B'], 2)]

/-- The base of a literal, and its digits. -/
inductive HasBase (cs : List Char) : Nat → List Char → Prop
  /-- A mark in front sets the base. -/
  | marked {mark digits : List Char} {radix : Nat} : (mark, radix) ∈ marked → cs = mark ++ digits →
      HasBase cs radix digits
  /-- Without one the base is ten. -/
  | plain : (∀ m ∈ Literal.marked, ¬ m.1 <+: cs) → HasBase cs 10 cs

theorem HasBase.pos {cs digits : List Char} {radix : Nat} (h : HasBase cs radix digits) :
    0 < radix := by
  have hmarked : ∀ m ∈ Literal.marked, 0 < m.2 := by decide
  cases h with
  | marked hmark _ => exact hmarked _ hmark
  | plain _ => decide

theorem hasBase_splitRadix (cs : List Char) : HasBase cs (splitRadix cs).1 (splitRadix cs).2 := by
  unfold splitRadix
  split
  · rename_i c digits
    split_ifs with hx ho hb
    · have hmark : (['0', c], 16) ∈ marked := by rcases hx with rfl | rfl <;> decide
      exact .marked hmark rfl
    · have hmark : (['0', c], 8) ∈ marked := by rcases ho with rfl | rfl <;> decide
      exact .marked hmark rfl
    · have hmark : (['0', c], 2) ∈ marked := by rcases hb with rfl | rfl <;> decide
      exact .marked hmark rfl
    · refine .plain ?_
      have hnone := And.intro hx (And.intro ho hb)
      simpa [marked, List.cons_prefix_cons, @eq_comm _ _ c, and_assoc] using hnone
  · rename_i hshort
    refine .plain ?_
    intro m hm hprefix
    have hmark : ∀ m ∈ marked, ∃ c, m.1 = ['0', c] := by simp [marked]
    obtain ⟨c, hc⟩ := hmark m hm
    obtain ⟨digits, rfl⟩ := hprefix
    exact hshort c digits (by simp [hc])

/-! ### Literals -/

/-- Whether digits start with a sign. -/
def Signed (digits : List Char) : Prop := digits.head? = some '+' ∨ digits.head? = some '-'

/-- Whether some of the digits, from the left, denote more than a word. -/
def Overflows (radix : Nat) (digits : List Char) : Prop :=
  ∃ front, front <+: digits ∧ ∃ n, 65535 < n ∧ Denotes radix front n

/-- What is wrong with digits. -/
def HasFault (radix : Nat) (digits : List Char) : LiteralFault → Prop
  | .signed => Signed digits
  | .noDigits => digits = []
  | .tooLarge => Overflows radix digits
  | .invalidDigit => ¬ Signed digits ∧ digits ≠ [] ∧ ¬ Overflows radix digits

/-- The message on digits that are not accepted is the right one. -/
structure Explains (radix : Nat) (digits : List Char) (message : String) : Prop where
  signed : message = "literals are unsigned" ↔ Signed digits
  noDigits : message = "no digits" ↔ digits = []
  tooLarge : message = "does not fit in 16 bits" ↔ Overflows radix digits
  invalidDigit : message = "invalid digit" ↔
    ¬ Signed digits ∧ digits ≠ [] ∧ ¬ Overflows radix digits

section Word

variable {radix : Nat} {digits : List Char}

theorem not_reaches_of_signed (h : Signed digits) (value n : Nat) :
    ¬ Reaches radix value digits n := by
  have hsigns : digit? radix '+' = none ∧ digit? radix '-' = none := by
    simp [digit?, digitValue]
  cases digits with
  | nil => simp [Signed] at h
  | cons c rest =>
    have hc : digit? radix c = none := by
      rcases h with h | h
      · obtain rfl := Option.some.inj h
        exact hsigns.1
      · obtain rfl := Option.some.inj h
        exact hsigns.2
    exact not_reaches_of_digit?_eq_none hc n

theorem overflows_iff : Overflows radix digits ↔
    ∃ front, front <+: digits ∧ ∃ n, maxWord < n ∧ Reaches radix 0 front n := by
  simp only [Overflows, denotes_iff_reaches, maxWord]

theorem not_overflows_of_signed (h : Signed digits) : ¬ Overflows radix digits := by
  rw [overflows_iff]
  intro hover
  obtain ⟨front, hfront, n, hn, hreaches⟩ := hover
  obtain ⟨c, rest, rfl⟩ := hreaches.exists_cons (by omega)
  obtain ⟨back, rfl⟩ := hfront
  have hfirst : Signed (c :: rest) := h
  exact not_reaches_of_signed hfirst 0 n hreaches

theorem not_overflows_nil : ¬ Overflows radix [] := by
  intro hover
  obtain ⟨front, hfront, n, hn, hdenotes⟩ := hover
  obtain rfl := List.prefix_nil.mp hfront
  obtain rfl : 0 = n := denotes_iff_reaches.mp hdenotes
  omega

theorem not_signed_nil : ¬ Signed [] := by simp [Signed]

/-- Digits are accepted as what they denote. -/
theorem readWord_eq_ok_iff (hradix : 0 < radix) {n : UInt16} :
    readWord radix digits = .ok n ↔ digits ≠ [] ∧ Denotes radix digits n.toNat := by
  rw [denotes_iff_reaches]
  unfold readWord
  split
  · rename_i hsigned
    simp [not_reaches_of_signed hsigned]
  · split
    · rename_i hnil
      simp [hnil]
    · rename_i hne
      have hn : n.toNat ≤ maxWord := Nat.le_of_lt_succ n.toNat_lt
      rw [and_iff_right hne]
      constructor
      · intro h
        cases hread : readDigits radix 0 digits with
        | error fault =>
          rw [hread] at h
          cases h
        | ok m =>
          rw [hread] at h
          obtain ⟨hreaches, hm⟩ := (readDigits_eq_ok_iff hradix (Nat.zero_le _)).mp hread
          obtain rfl := Except.ok.inj h
          rwa [show (UInt16.ofNat m).toNat = m from Nat.mod_eq_of_lt (Nat.lt_succ_of_le hm)]
      · intro h
        rw [(readDigits_eq_ok_iff hradix (Nat.zero_le _)).mpr ⟨h, hn⟩]
        exact congrArg Except.ok (UInt16.ofNat_toNat)

/-- The reader reports what is wrong. -/
theorem hasFault_of_readWord {fault : LiteralFault} (h : readWord radix digits = .error fault) :
    HasFault radix digits fault := by
  unfold readWord at h
  split at h
  · rename_i hsigned
    cases h
    exact hsigned
  · rename_i hunsigned
    split at h
    · rename_i hnil
      cases h
      exact hnil
    · rename_i hne
      have hread : readDigits radix 0 digits = .error fault := by
        cases hread : readDigits radix 0 digits with
        | ok n =>
          rw [hread] at h
          cases h
        | error fault' =>
          rw [hread] at h
          cases h
          rfl
      have hover : readDigits radix 0 digits = .error .tooLarge ↔ Overflows radix digits := by
        rw [overflows_iff]
        exact readDigits_eq_tooLarge_iff (Nat.zero_le _)
      rw [hread] at hover
      rcases readDigits_fault hread with rfl | rfl
      · exact hover.mp rfl
      · exact ⟨hunsigned, hne, fun hlarge => by cases hover.mpr hlarge⟩

/-- Only one thing is. -/
theorem HasFault.unique {fault fault' : LiteralFault} (h : HasFault radix digits fault)
    (h' : HasFault radix digits fault') : fault = fault' := by
  have hnil : digits = [] → ¬ Signed digits ∧ ¬ Overflows radix digits := by
    intro hnil
    subst hnil
    exact ⟨not_signed_nil, not_overflows_nil⟩
  have hsigned : Signed digits → ¬ Overflows radix digits := not_overflows_of_signed
  cases fault <;> cases fault' <;> simp_all [HasFault]

end Word

end Literal

theorem LiteralFault.message_injective : Function.Injective message := by
  intro fault fault' h
  cases fault <;> cases fault' <;> simp_all [message]

theorem Literal.HasFault.explains {radix : Nat} {digits : List Char} {fault : LiteralFault}
    (h : HasFault radix digits fault) : Explains radix digits fault.message := by
  have hmessage : ∀ kind : LiteralFault,
      fault.message = kind.message ↔ HasFault radix digits kind := by
    intro kind
    rw [LiteralFault.message_injective.eq_iff]
    constructor
    · intro hkind
      exact hkind ▸ h
    · intro hkind
      exact h.unique hkind
  exact ⟨hmessage .signed, hmessage .noDigits, hmessage .tooLarge, hmessage .invalidDigit⟩

/-- **Literals are what they should be, and mean what they should.** Blanks around a text do not
count, and if there is nothing else the literal is missing. Otherwise it has a base and digits, and
it is accepted as `n` if and only if there are digits and they denote `n` in that base. Any other
text is refused as a whole, with a message that tells a sign from no digits, from a number that gets
too large before anything else is wrong, and from a character that is no digit. -/
theorem Operand.literal_exact (text : String) :
    ∃ t, Text.TrimsTo text.toList t ∧
      (t = [] → literal text = .error (.missing .literal)) ∧
      (t ≠ [] → ∃ radix digits, Literal.HasBase t radix digits ∧
        (∀ n, literal text = .ok n ↔ digits ≠ [] ∧ Literal.Denotes radix digits n.toNat) ∧
        ∀ e, literal text = .error e → ∃ fault,
          e = .malformedLiteral (String.ofList t) fault ∧
            Literal.Explains radix digits fault.message) := by
  refine ⟨_, Text.trimsTo_trimChars text.toList, ?_, ?_⟩
  · intro hnil
    rw [literal]
    exact if_pos hnil
  · intro hne
    have hbase := Literal.hasBase_splitRadix (Text.trimChars text.toList)
    have hliteral : literal text = (Literal.parse (Text.trimChars text.toList)).mapError
        (.malformedLiteral (String.ofList (Text.trimChars text.toList))) := if_neg hne
    refine ⟨_, _, hbase, ?_, ?_⟩
    · intro n
      rw [← Literal.readWord_eq_ok_iff hbase.pos, hliteral, Literal.parse]
      cases Literal.readWord _ _ <;> simp [Except.mapError]
    · intro e he
      rw [hliteral, Literal.parse] at he
      cases hread : Literal.readWord (Literal.splitRadix (Text.trimChars text.toList)).1
          (Literal.splitRadix (Text.trimChars text.toList)).2 with
      | ok n =>
        rw [hread] at he
        cases he
      | error fault =>
        rw [hread] at he
        cases he
        exact ⟨fault, rfl, (Literal.hasFault_of_readWord hread).explains⟩

/-- If two things are wrong, the one further to the left is reported. -/
example : Operand.literal " 0X1ffffg " = .error (.malformedLiteral "0X1ffffg" .tooLarge) ∧
    Operand.literal "6553g6" = .error (.malformedLiteral "6553g6" .invalidDigit) := by
  decide

end StackAsm
