import StackAsm.Proofs.LineForms
import StackAsm.Proofs.Refusals

/-!
# StackAsm.Proofs.GuardLines

Guard lines are recognised in two places, and in the same way.

The first line of an included file is compared with `#ID` and with what may follow it
(`Directive.guardTag?`). A line that is read is taken apart first, at its first blank, and the name
that comes out is looked up (`Stream.directive`). Written out, both ask for the same letters with a
blank or nothing behind them (`Directive.guardTag?_eq_some_iff`, `Directive.split_eq_iff`). They
part only over lines that start with several signs.
-/

namespace StackAsm

namespace Directive

open Text

variable {text tag name argument : String} {body : List Char}

/-- A line that starts with one `#`, and not with more. -/
def OneSign (text : String) : Prop :=
  ∃ body, trimChars text.toList = '#' :: body ∧ body.head? ≠ some '#'

theorem guardTag?_eq_some_iff :
    guardTag? text = some tag ↔ ∃ rest, trimChars text.toList = '#' :: 'I' :: 'D' :: rest ∧
      (∀ c ∈ rest.head?, isBlank c = true) ∧ tag.toList = trimChars rest := by
  unfold guardTag?
  constructor
  · intro h
    split at h
    · rename_i rest htrim
      refine ⟨rest, htrim, ?_⟩
      cases rest with
      | nil =>
        obtain rfl : "" = tag := Option.some.inj h
        simp
      | cons c rest =>
        obtain ⟨hblank, rfl⟩ := Option.ite_none_right_eq_some.mp h |>.imp_right Option.some.inj
        simpa using hblank
    · cases h
  · rintro ⟨rest, htrim, hhead, htag⟩
    rw [htrim]
    cases rest with
    | nil => simpa using htag.symm
    | cons c rest =>
      have hblank : isBlank c = true := hhead c rfl
      simp [hblank, ← htag]

theorem split_eq_iff (htrim : trimChars text.toList = '#' :: body)
    (hbody : body.head? ≠ some '#') :
    split text = (name, argument) ↔ splitWord body = (name.toList, argument.toList) := by
  have hsign : ('#' :: body).dropWhile (fun c => decide (c = '#')) = body := by
    rw [List.dropWhile_cons_of_pos (by simp)]
    cases body with
    | nil => rfl
    | cons c body => exact List.dropWhile_cons_of_neg (by simpa using hbody)
  simp only [split, htrim, hsign, Prod.ext_iff, ← String.toList_inj, String.toList_ofList]

theorem OneSign.classify (h : OneSign text) : Line.classify text = .directive := by
  obtain ⟨body, htrim, -⟩ := h
  simp [Line.classify, Line.ofTrimmed, htrim]

theorem OneSign.of_guardTag? (h : guardTag? text = some tag) : OneSign text := by
  obtain ⟨rest, htrim, -⟩ := guardTag?_eq_some_iff.mp h
  exact ⟨_, htrim, by simp⟩

/-- Behind one `#`, the comparison and the lookup find the same tag. -/
theorem OneSign.guardTag?_iff (h : OneSign text) :
    guardTag? text = some tag ↔ split text = ("ID", tag) := by
  obtain ⟨body, htrim, hbody⟩ := h
  have hword : ∀ c ∈ "ID".toList, isBlank c = false := by simp [isBlank]
  rw [guardTag?_eq_some_iff, split_eq_iff htrim hbody, splitWord_eq_iff, htrim]
  simp only [List.cons.injEq, true_and]
  constructor
  · intro hrest
    exact ⟨hword, hrest⟩
  · intro hsplit
    exact hsplit.2

/-- Behind more of them, only the lookup does. -/
example : guardTag? "##ID t" = none ∧ split "##ID t" = ("ID", "t") := by decide +kernel

/-- Whatever is found by comparison is found by lookup. -/
theorem split_of_guardTag? (h : guardTag? text = some tag) : split text = ("ID", tag) :=
  (OneSign.of_guardTag? h).guardTag?_iff.mp h

end Directive

namespace Stream

open Directive

variable {load : Loader} {line : Located String} {s : Stream} {tag : String}

/-- Nothing but a guard line registers a tag and does no more. -/
theorem directive_registered_iff (hline : Line.classify line.val = .directive) :
    (s.directive load line).2 = .ok (.registered tag) ↔ split line.val = ("ID", tag) := by
  constructor
  · intro h
    rcases hresult : s.directive load line with ⟨s', result⟩
    rw [hresult] at h
    obtain rfl : result = .ok (.registered tag) := h
    have hadvances : Advances load ⟨line, s.queue.includers⟩ s.queue.pending s.guards
        (some (.registered tag)) s' := directive_advances hline hresult
    cases hadvances with
    | registered hguard => exact hguard.split
  · intro h
    rw [directive_of_guard h]

theorem mem_guards_register {t : String} :
    t ∈ (s.register tag).guards ↔ t ∈ s.guards ∨ t = tag := by
  rw [register, Std.TreeSet.mem_insert, Std.compare_eq_iff_eq, eq_comm, or_comm]

/-- **Both ways to recognise a guard line agree.** Let a line start with exactly one `#`. A
comparison with `#ID` finds a tag in it if and only if the directive `ID` is carried out on it with
this tag as its argument. Then there is no warning, the lines to come and the open files stay as
they are, and the tag is registered besides those that were. If the comparison finds no tag, then
the line is an include, or it is refused as an unknown directive. -/
theorem directive_agrees_with_guardTag (load : Loader) (line : Located String) (s : Stream)
    (h : OneSign line.val) :
    (∀ tag, guardTag? line.val = some tag ↔ split line.val = ("ID", tag)) ∧
      (∀ tag, guardTag? line.val = some tag ↔
        (s.directive load line).2 = .ok (.registered tag)) ∧
      (∀ tag, guardTag? line.val = some tag → ∃ s' effect,
        s.directive load line = (s', .ok effect) ∧ effect.warning? = none ∧
          s'.queue = s.queue ∧ ∀ t, t ∈ s'.guards ↔ t ∈ s.guards ∨ t = tag) ∧
      (guardTag? line.val = none → (split line.val).1 = "include" ∨
        s.directive load line = (s, .error (.unknownDirective (split line.val).1))) := by
  refine ⟨fun tag => h.guardTag?_iff, ?_, ?_, ?_⟩
  · intro tag
    rw [h.guardTag?_iff, directive_registered_iff h.classify]
  · intro tag htag
    exact ⟨_, _, directive_of_guard (h.guardTag?_iff.mp htag), rfl, rfl,
      fun _ => mem_guards_register⟩
  · intro hnone
    rcases hsplit : split line.val with ⟨name, argument⟩
    by_cases hinclude : name = "include"
    · exact .inl hinclude
    · refine .inr (directive_of_unknown hsplit hinclude ?_)
      rintro rfl
      rw [h.guardTag?_iff.mpr hsplit] at hnone
      cases hnone

/-- A tag of two words behind a blank that is no space. -/
theorem directive_agrees_on_wide_blank :
    let load := ({} : Store).load
    let line : Located String := ⟨⟨"a.klt", 3⟩, "\t#ID\u3000two  words "⟩
    let s : Stream := { queue := ⟨[⟨line, ["m.klt"]⟩], ["m.klt"]⟩, guards := {"u"} }
    (s.directive load line).2 = .ok (.registered "two  words") ∧
      ∃ s' effect, s.directive load line = (s', .ok effect) ∧ effect.warning? = none ∧
        s'.queue = s.queue ∧ ∀ t, t ∈ s'.guards ↔ t ∈ s.guards ∨ t = "two  words" := by
  intro load line s
  have htag : guardTag? line.val = some "two  words" := by decide +kernel
  have hagree := directive_agrees_with_guardTag load line s (.of_guardTag? htag)
  exact ⟨(hagree.2.1 _).mp htag, hagree.2.2.1 _ htag⟩

end Stream

end StackAsm
