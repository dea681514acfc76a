import StackAsm.Proofs.Literals
import StackAsm.Proofs.PrintedText

/-!
# StackAsm.Proofs.Numerals

Numbers that are written out are read back.

Digits are written from the right and read from the left. Reading one part of the digits after the
other (`Literal.reaches_append`) makes the two agree in any base and for any spelling of the digits
(`Literal.reaches_toDigits`). Zeros in front change nothing. Digits reach one number at most
(`Literal.Reaches.unique`), so that different numbers are written in different ways; and a word in
its printed form is the literal that means it (`Operand.literal_hexWord`).
-/

namespace StackAsm

namespace Literal

variable {radix value m n : Nat} {cs : List Char}

/-- Digits are read one part after the other. -/
theorem reaches_append {xs ys : List Char} :
    Reaches radix value (xs ++ ys) n ↔
      ∃ m, Reaches radix value xs m ∧ Reaches radix m ys n := by
  induction xs generalizing value with
  | nil => simp [Reaches]
  | cons c xs ih =>
    simp only [List.cons_append, Reaches, ih]
    constructor
    · intro h
      obtain ⟨d, hd, m, hxs, hys⟩ := h
      exact ⟨m, ⟨d, hd, hxs⟩, hys⟩
    · intro h
      obtain ⟨m, ⟨d, hd, hxs⟩, hys⟩ := h
      exact ⟨d, hd, m, hxs, hys⟩

/-- Digits reach one number at most. -/
theorem Reaches.unique (h : Reaches radix value cs m) (h' : Reaches radix value cs n) : m = n := by
  induction cs generalizing value with
  | nil => exact h.symm.trans h'
  | cons c cs ih =>
    obtain ⟨d, hd, hrest⟩ := h
    exact ih hrest ((reaches_cons_iff (digit?_eq_some_iff.mpr hd)).mp h')

/-- The digits of a number reach it, in whatever way each of them is spelled. -/
theorem reaches_toDigits {spell : Char → Char} (hradix : 1 < radix)
    (hspell : ∀ d < radix, digit? radix (spell (Nat.digitChar d)) = some d) (n : Nat) :
    Reaches radix 0 ((Nat.toDigits radix n).map spell) n := by
  induction n using Nat.strongRecOn with
  | _ n ih =>
    by_cases hsmall : n < radix
    · rw [Nat.toDigits_of_lt_base hsmall, List.map_singleton, reaches_cons_iff (hspell n hsmall)]
      simp [Reaches]
    · have hdiv : n / radix * radix + n % radix = n := Nat.div_add_mod' n radix
      have hless : n / radix < n := Nat.div_lt_self (by omega) hradix
      rw [Nat.toDigits_of_base_le hradix (by omega), List.map_append, List.map_singleton,
        reaches_append]
      refine ⟨n / radix, ih _ hless, ?_⟩
      rw [reaches_cons_iff (hspell _ (Nat.mod_lt n (by omega)))]
      exact hdiv

/-- Zeros in front change nothing. -/
theorem Reaches.zeros (hradix : 0 < radix) (k : Nat) (h : Reaches radix 0 cs n) :
    Reaches radix 0 (List.replicate k '0' ++ cs) n := by
  have hzero : digit? radix '0' = some 0 := by
    simp [digit?, digitValue, Option.filter_some, hradix]
  induction k with
  | zero => exact h
  | succ k ih =>
    rw [List.replicate_succ, List.cons_append, reaches_cons_iff hzero]
    simpa using ih

theorem Denotes.unique (h : Denotes radix cs m) (h' : Denotes radix cs n) : m = n :=
  (denotes_iff_reaches.mp h).unique (denotes_iff_reaches.mp h')

/-- The reader agrees on numbers that fit. -/
theorem Denotes.readDigits_eq (h : Denotes radix cs n) (hradix : 0 < radix) (hn : n ≤ maxWord) :
    readDigits radix 0 cs = .ok n :=
  (readDigits_eq_ok_iff hradix (Nat.zero_le _)).mpr ⟨denotes_iff_reaches.mp h, hn⟩

end Literal

namespace Text

theorem denotes_decimal (n : Nat) : Literal.Denotes 10 (decimal n).toList n := by
  have hspell : ∀ d < 10, Literal.digit? 10 (id (Nat.digitChar d)) = some d := by decide
  rw [decimal, String.toList_ofList, ← List.map_id (Nat.toDigits 10 n)]
  exact Literal.denotes_iff_reaches.mpr (Literal.reaches_toDigits (by decide) hspell n)

theorem denotes_hexDigits (width n : Nat) : Literal.Denotes 16 (hexDigits width n).toList n := by
  have hspell : ∀ d < 16, Literal.digit? 16 (Nat.digitChar d).toUpper = some d := by decide
  obtain ⟨k, hdigits⟩ := toList_hexDigits width n
  rw [hdigits, Literal.denotes_iff_reaches]
  exact (Literal.reaches_toDigits (by decide) hspell n).zeros (by decide) k

theorem decimal_injective : Function.Injective decimal := by
  intro m n h
  have hm := denotes_decimal m
  rw [h] at hm
  exact hm.unique (denotes_decimal n)

theorem hexDigits_injective (width : Nat) : Function.Injective (hexDigits width) := by
  intro m n h
  have hm := denotes_hexDigits width m
  rw [h] at hm
  exact hm.unique (denotes_hexDigits width n)

theorem byteDigits_injective : Function.Injective byteDigits := by
  intro b b' h
  exact UInt8.toNat.inj (hexDigits_injective 2 (String.toList_inj.mp h))

theorem hexWord_injective : Function.Injective hexWord := by
  intro m n h
  exact hexDigits_injective 4 ((String.append_right_inj _).mp h)

theorem hexLong_injective : Function.Injective hexLong := by
  intro m n h
  exact hexDigits_injective 8 ((String.append_right_inj _).mp h)

/-- There is nothing but digits and the mark in a word. -/
theorem mem_hexWord {n : Nat} {c : Char} (h : c ∈ (hexWord n).toList) :
    c = 'x' ∨ ∃ d < 16, c = (Nat.digitChar d).toUpper := by
  rw [hexWord, String.toList_append, List.mem_append] at h
  rcases h with hmark | hdigit
  · have hchars : c = '0' ∨ c = 'x' := by simpa using hmark
    rcases hchars with rfl | rfl
    · exact .inr ⟨0, by decide, rfl⟩
    · exact .inl rfl
  · exact .inr (mem_hexDigits hdigit)

/-- A text without blanks and colons. -/
def Solid (text : String) : Prop := ∀ c ∈ text.toList, isBlank c = false ∧ c ≠ ':'

-- Named, since the search finds a way through all characters first.
instance (text : String) : Decidable (Solid text) := List.decidableBAll _ text.toList

theorem Solid.trimmed {text : String} (h : Solid text) : Trimmed text.toList where
  head c hc := (h c (List.mem_of_mem_head? hc)).1
  last c hc := (h c (List.mem_of_getLast? hc)).1

theorem solid_hexWord (n : Nat) : Solid (hexWord n) := by
  have hdigits : ∀ d < 16, isBlank (Nat.digitChar d).toUpper = false ∧
      (Nat.digitChar d).toUpper ≠ ':' := by decide
  intro c hc
  rcases mem_hexWord hc with rfl | ⟨d, hd, rfl⟩
  · decide
  · exact hdigits d hd

end Text

/-- A word in its printed form is a literal for it. -/
theorem Literal.parse_hexWord (w : UInt16) : parse (Text.hexWord w.toNat).toList = .ok w := by
  have hsplit : splitRadix (Text.hexWord w.toNat).toList =
      (16, (Text.hexDigits 4 w.toNat).toList) := by
    rw [Text.hexWord, String.toList_append]
    rfl
  have hplus : '+' ∉ (Text.hexDigits 4 w.toNat).toList := by simp
  have hminus : '-' ∉ (Text.hexDigits 4 w.toNat).toList := by simp
  have hne : (Text.hexDigits 4 w.toNat).toList ≠ [] := by
    obtain ⟨k, hdigits⟩ := Text.toList_hexDigits 4 w.toNat
    rw [hdigits]
    simp [Nat.toDigits_ne_nil]
  have hread : readDigits 16 0 (Text.hexDigits 4 w.toNat).toList = .ok w.toNat :=
    (Text.denotes_hexDigits 4 w.toNat).readDigits_eq (by decide) (Nat.le_of_lt_succ w.toNat_lt)
  rw [parse, hsplit]
  generalize (Text.hexDigits 4 w.toNat).toList = digits at hplus hminus hne hread ⊢
  rw [readWord, if_neg ?_, if_neg hne, hread]
  · simp [Except.map]
  · rintro (hhead | hhead)
    · exact hplus (List.mem_of_mem_head? hhead)
    · exact hminus (List.mem_of_mem_head? hhead)

theorem Operand.literal_hexWord (w : UInt16) : literal (Text.hexWord w.toNat) = .ok w := by
  have hne : (Text.hexWord w.toNat).toList ≠ [] := by simp
  rw [literal]
  simp only [(Text.solid_hexWord w.toNat).trimmed.trimChars_eq, if_neg hne, Literal.parse_hexWord]
  rfl

end StackAsm
