import StackAsm.Text.Lines
import StackAsm.Text.Number

/-!
# StackAsm.Proofs.PrintedText

What printed text is made of, and how it is taken apart.

Numbers are written in digits, so that a character which is no digit does not occur in them. This is
why printed text can be taken apart: into lines at line feeds (`Text.lines_join`), and into words at
blanks (`Text.words_append_blank`). Padding adds no word, and bytes are a word each.
-/

namespace StackAsm.Text

/-! ### Characters -/

variable {c : Char}

/-- A number is written in digits of its base. -/
theorem mem_toDigits {b n : Nat} (hb : 1 < b) (h : c ∈ Nat.toDigits b n) :
    ∃ d, d < b ∧ c = Nat.digitChar d := by
  induction n using Nat.strongRecOn with
  | _ n ih =>
    by_cases hn : n < b
    · rw [Nat.toDigits_of_lt_base hn, List.mem_singleton] at h
      exact ⟨n, hn, h⟩
    · rw [Nat.toDigits_of_base_le hb (Nat.le_of_not_lt hn)] at h
      rcases List.mem_append.mp h with hfront | hlast
      · exact ih (n / b) (Nat.div_lt_self (by omega) hb) hfront
      · exact ⟨n % b, Nat.mod_lt n (by omega), List.mem_singleton.mp hlast⟩

theorem toList_hexDigits (width n : Nat) :
    ∃ k, (hexDigits width n).toList =
      List.replicate k '0' ++ (Nat.toDigits 16 n).map Char.toUpper :=
  ⟨_, by rw [hexDigits, String.toList_ofList]⟩

theorem mem_hexDigits {width n : Nat} (h : c ∈ (hexDigits width n).toList) :
    ∃ d < 16, c = (Nat.digitChar d).toUpper := by
  obtain ⟨k, hdigits⟩ := toList_hexDigits width n
  rw [hdigits, List.mem_append] at h
  rcases h with hzero | hdigit
  · exact ⟨0, by decide, List.eq_of_mem_replicate hzero⟩
  · obtain ⟨c', hc', rfl⟩ := List.mem_map.mp hdigit
    obtain ⟨d, hd, rfl⟩ := mem_toDigits (by decide) hc'
    exact ⟨d, hd, rfl⟩

@[simp] theorem not_mem_decimal (hdigit : c.isDigit = false) (n : Nat) :
    c ∉ (decimal n).toList := by
  intro h
  rw [decimal, String.toList_ofList] at h
  obtain ⟨d, hd, rfl⟩ := mem_toDigits (by decide) h
  have hdigits : ∀ d < 10, (Nat.digitChar d).isDigit ≠ false := by decide
  exact hdigits d hd hdigit

@[simp] theorem not_mem_hexDigits (hdigit : c.isDigit = false) (hupper : c.isUpper = false)
    (width n : Nat) : c ∉ (hexDigits width n).toList := by
  intro h
  obtain ⟨d, hd, rfl⟩ := mem_hexDigits h
  have hdigits : ∀ d < 16, (Nat.digitChar d).toUpper.isDigit = false →
      (Nat.digitChar d).toUpper.isUpper ≠ false := by decide
  exact hdigits d hd hdigit hupper

theorem ne_zero_of_isDigit (hdigit : c.isDigit = false) : c ≠ '0' := by
  intro hzero
  simp [hzero] at hdigit

@[simp] theorem not_mem_hexWord (hdigit : c.isDigit = false) (hupper : c.isUpper = false)
    (hmark : c ≠ 'x') (n : Nat) : c ∉ (hexWord n).toList := by
  simp [hexWord, ne_zero_of_isDigit hdigit, hmark, hdigit, hupper]

@[simp] theorem not_mem_hexLong (hdigit : c.isDigit = false) (hupper : c.isUpper = false)
    (hmark : c ≠ 'x') (n : Nat) : c ∉ (hexLong n).toList := by
  simp [hexLong, ne_zero_of_isDigit hdigit, hmark, hdigit, hupper]

@[simp] theorem hexWord_ne_empty (n : Nat) : hexWord n ≠ "" := by
  intro h
  simpa [hexWord] using congrArg String.toList h

@[simp] theorem hexLong_ne_empty (n : Nat) : hexLong n ≠ "" := by
  intro h
  simpa [hexLong] using congrArg String.toList h

theorem not_mem_intercalate {sep : List Char} {parts : List (List Char)} (hsep : c ∉ sep)
    (hparts : ∀ part ∈ parts, c ∉ part) : c ∉ sep.intercalate parts := by
  induction parts with
  | nil => simp
  | cons part parts ih =>
    have hrest := ih fun other hother => hparts other (by simp [hother])
    cases parts with
    | nil => simpa using hparts part (by simp)
    | cons next parts =>
      rw [List.intercalate_cons_cons]
      simp [hparts part (by simp), hsep, hrest]

/-- The two digits of a byte. -/
def byteDigits (b : UInt8) : List Char := (hexDigits 2 b.toNat).toList

theorem toList_hexBytes (raw : List UInt8) :
    (hexBytes raw).toList = [' '].intercalate (raw.map byteDigits) := by
  rw [hexBytes, String.toList_intercalate, List.map_map]
  rfl

@[simp] theorem not_mem_hexBytes (hdigit : c.isDigit = false) (hupper : c.isUpper = false)
    (hblank : c ≠ ' ') (raw : List UInt8) : c ∉ (hexBytes raw).toList := by
  rw [toList_hexBytes]
  refine not_mem_intercalate (by simpa using hblank) fun part hpart => ?_
  obtain ⟨b, -, rfl⟩ := List.mem_map.mp hpart
  exact not_mem_hexDigits hdigit hupper 2 b.toNat

theorem toList_padRight (width : Nat) (s : String) :
    ∃ k, (padRight width s).toList = s.toList ++ List.replicate k ' ' :=
  ⟨_, by rw [padRight, String.toList_append, String.toList_ofList]⟩

@[simp] theorem mem_padRight (hblank : c ≠ ' ') (width : Nat) (s : String) :
    c ∈ (padRight width s).toList ↔ c ∈ s.toList := by
  simp [padRight, hblank]

/-! ### Lengths -/

theorem length_padRight (width : Nat) (s : String) :
    (padRight width s).length = max width s.length := by
  rw [padRight, String.length_append, String.length_ofList, List.length_replicate]
  omega

theorem length_byteDigits (b : UInt8) : (byteDigits b).length = 2 := by
  have hdigits : (Nat.toDigits 16 b.toNat).length ≤ 2 :=
    (Nat.length_toDigits_le_iff (by decide) (by decide)).mpr b.toNat_lt
  simp only [byteDigits, hexDigits, String.toList_ofList, List.length_append,
    List.length_replicate, List.length_map]
  omega

/-- Bytes take two columns each, and a blank after all but the last. -/
theorem length_hexBytes (raw : List UInt8) : (hexBytes raw).length = 3 * raw.length - 1 := by
  rw [← String.length_toList, toList_hexBytes]
  induction raw with
  | nil => rfl
  | cons b raw ih =>
    cases raw with
    | nil => simp [length_byteDigits]
    | cons next raw =>
      rw [List.map_cons] at ih
      rw [List.map_cons, List.map_cons, List.intercalate_cons_cons, List.length_append,
        List.length_append, length_byteDigits, ih]
      simp only [List.length_cons, List.length_nil]
      omega

/-! ### Lines -/

/-- A text that is one line. -/
structure IsLine (text : String) : Prop where
  nonempty : text ≠ ""
  feed : '\n' ∉ text.toList
  carriageReturn : '\r' ∉ text.toList

theorem IsLine.dropCarriageReturn_eq {text : String} (h : IsLine text) :
    dropCarriageReturn text.toList = text.toList :=
  if_neg fun hlast => h.carriageReturn (List.mem_of_getLast? hlast)

/-- Lines that are ended are found again. -/
theorem lines_join {texts : List String} (h : ∀ text ∈ texts, IsLine text) :
    lines (String.join (texts.map (· ++ "\n"))) = texts := by
  rw [lines, String.toList_join]
  induction texts with
  | nil => rfl
  | cons text texts ih =>
    have htext := h text (by simp)
    have hfirst : (text ++ "\n").toList = text.toList ++ ['\n'] := by simp
    rw [List.map_cons, List.flatMap_cons, hfirst, List.append_assoc, List.singleton_append,
      lineChars_cons_feed htext.feed, htext.dropCarriageReturn_eq, List.map_cons,
      ih fun other hother => h other (by simp [hother]), String.ofList_toList]

/-- Lines that are divided are found again. -/
theorem lines_intercalate {texts : List String} (h : ∀ text ∈ texts, IsLine text) :
    lines ("\n".intercalate texts) = texts := by
  rw [lines, String.toList_intercalate, show "\n".toList = ['\n'] from rfl]
  induction texts with
  | nil => rfl
  | cons text texts ih =>
    have htext := h text (by simp)
    cases texts with
    | nil =>
      have hne : text.toList ≠ [] := by simpa using htext.nonempty
      simp [lineChars, List.splitOn_eq_singleton htext.feed, hne]
    | cons next texts =>
      have hrest := ih fun other hother => h other (by simp [hother])
      rw [List.map_cons] at hrest
      rw [List.map_cons, List.map_cons, List.intercalate_cons_cons, List.append_assoc,
        List.singleton_append, lineChars_cons_feed htext.feed, htext.dropCarriageReturn_eq,
        List.map_cons, hrest, String.ofList_toList]

/-! ### Words -/

/-- Up to what is not in the front, all of the front is dropped. -/
theorem dropWhile_ne_append {α : Type} [DecidableEq α] {a : α} {xs : List α} (h : a ∉ xs)
    (ys : List α) : (xs ++ ys).dropWhile (· ≠ a) = ys.dropWhile (· ≠ a) := by
  refine List.dropWhile_append_of_pos fun x hx => decide_eq_true ?_
  rintro rfl
  exact h hx

/-- The words of a text: what stands between its blanks. -/
def words (cs : List Char) : List (List Char) := (cs.splitOn ' ').filter (· ≠ [])

@[simp] theorem words_nil : words [] = [] := rfl

theorem words_append_blank (xs ys : List Char) :
    words (xs ++ ' ' :: ys) = words xs ++ words ys := by
  rw [words, List.splitOn_append_cons_self, List.filter_append]
  rfl

@[simp] theorem words_cons_blank (cs : List Char) : words (' ' :: cs) = words cs :=
  words_append_blank [] cs

theorem words_eq_singleton {word : List Char} (hne : word ≠ []) (hblank : ' ' ∉ word) :
    words word = [word] := by
  simp [words, List.splitOn_eq_singleton hblank, hne]

@[simp] theorem words_append_replicate (cs : List Char) (k : Nat) :
    words (cs ++ List.replicate k ' ') = words cs := by
  have hblanks : ∀ k, words (List.replicate k ' ') = [] := by
    intro k
    induction k with
    | zero => rfl
    | succ k ih => rw [List.replicate_succ, words_cons_blank, ih]
  cases k with
  | zero => simp
  | succ k => rw [List.replicate_succ, words_append_blank, hblanks, List.append_nil]

theorem words_intercalate {parts : List (List Char)}
    (h : ∀ part ∈ parts, part ≠ [] ∧ ' ' ∉ part) : words ([' '].intercalate parts) = parts := by
  by_cases hnil : parts = []
  · rw [hnil]
    rfl
  · rw [words, List.splitOn_intercalate ' ' (fun part hpart => (h part hpart).2) hnil,
      List.filter_eq_self]
    intro part hpart
    simp [(h part hpart).1]

theorem words_hexBytes (raw : List UInt8) : words (hexBytes raw).toList = raw.map byteDigits := by
  rw [toList_hexBytes, words_intercalate]
  intro part hpart
  obtain ⟨b, -, rfl⟩ := List.mem_map.mp hpart
  refine ⟨?_, not_mem_hexDigits (by decide) (by decide) 2 b.toNat⟩
  intro hnil
  have hlength := length_byteDigits b
  rw [hnil] at hlength
  cases hlength

end StackAsm.Text
