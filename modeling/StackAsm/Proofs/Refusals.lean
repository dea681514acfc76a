import StackAsm.Proofs.History

/-!
# StackAsm.Proofs.Refusals

What a directive leaves behind when it is refused.

`Refused` lists the five ways out of a directive with an error, each with the reason for it and the
stream that it leaves; `directive_eq_error_iff` says that there are no others. The lines to come and
the open files are those from before in every case. The guards are not: the tag of a file counts as
seen once the file is read, and that it is open already or nested too deeply is found out only after
that (`Stream.directive_refused`).
-/

namespace StackAsm

/-! ### What a directive says -/

namespace Directive

variable {line : Located String}

theorem wanted?_eq_some {path : Path} (h : wanted? line = some path) :
    ∃ argument, split line.val = ("include", argument) ∧ unquote argument ≠ "" ∧
      path = targetPath line.loc.file (unquote argument) := by
  simp only [wanted?, Option.ite_none_right_eq_some, Option.some.injEq] at h
  obtain ⟨⟨hname, htarget⟩, rfl⟩ := h
  exact ⟨(split line.val).2, Prod.ext hname rfl, htarget, rfl⟩

/-- A directive names a guard, a file or no file, or it is unknown. -/
theorem split_cases (line : Located String) :
    (∃ tag, split line.val = ("ID", tag)) ∨
      (∃ name argument, split line.val = (name, argument) ∧ name ≠ "include" ∧ name ≠ "ID") ∨
      (∃ argument, split line.val = ("include", argument) ∧ unquote argument = "") ∨
      ∃ path, wanted? line = some path := by
  by_cases hinclude : (split line.val).1 = "include"
  · by_cases htarget : unquote (split line.val).2 = ""
    · exact .inr (.inr (.inl ⟨(split line.val).2, Prod.ext hinclude rfl, htarget⟩))
    · exact .inr (.inr (.inr ⟨_, if_pos ⟨hinclude, htarget⟩⟩))
  · by_cases hguard : (split line.val).1 = "ID"
    · exact .inl ⟨(split line.val).2, Prod.ext hguard rfl⟩
    · exact .inr (.inl ⟨(split line.val).1, (split line.val).2, rfl, hinclude, hguard⟩)

end Directive

/-- The tag that is registered although the include of its file is refused. -/
def DirectiveError.tagSeen? (load : Loader) : DirectiveError → Option String
  | includeCycle path | includeTooDeep path => (load path).toOption.bind Directive.fileTag?
  | _ => none

namespace Stream

/-- The guards once the tag of a file, if it has one, is registered. -/
def seen (s : Stream) (text : String) : Stream :=
  match Directive.fileTag? text with
  | none => s
  | some tag => s.register tag

/-- How a directive can be refused, and the stream that it leaves behind. -/
inductive Refused (load : Loader) (line : Located String) (s : Stream) :
    DirectiveError → Stream → Prop
  | unknownDirective {name argument : String} : Directive.split line.val = (name, argument) →
      name ≠ "include" → name ≠ "ID" → Refused load line s (.unknownDirective name) s
  | missingIncludePath {argument : String} : Directive.split line.val = ("include", argument) →
      Directive.unquote argument = "" → Refused load line s .missingIncludePath s
  | includeUnreadable {path : Path} {reason : FileError} : Directive.wanted? line = some path →
      load path = .error reason → Refused load line s (.includeUnreadable path reason) s
  | includeCycle {path : Path} {text : String} : Directive.wanted? line = some path →
      load path = .ok text → (∀ tag, Directive.fileTag? text = some tag → tag ∉ s.guards) →
      (s.chain line.loc.file).any (·.same path) →
      Refused load line s (.includeCycle path) (s.seen text)
  | includeTooDeep {path : Path} {text : String} : Directive.wanted? line = some path →
      load path = .ok text → (∀ tag, Directive.fileTag? text = some tag → tag ∉ s.guards) →
      ¬ (s.chain line.loc.file).any (·.same path) →
      maxIncludeDepth ≤ (s.chain line.loc.file).length →
      Refused load line s (.includeTooDeep path) (s.seen text)

variable {load : Loader} {line : Located String} {s s' : Stream} {e : DirectiveError}

@[simp] theorem queue_seen (s : Stream) (text : String) : (s.seen text).queue = s.queue := by
  unfold seen
  split <;> rfl

/-- Files are open or not whatever tags are registered. -/
@[simp] theorem chain_seen (s : Stream) (text file : String) :
    (s.seen text).chain file = s.chain file := by
  rw [chain, chain, queue_seen]

/-- A file is left out if its tag is registered, and else its tag is seen before it is pasted in. -/
theorem accept_ofText (s : Stream) (file : String) (path : Path) (text : String) :
    s.accept file (.ofText path text) =
      if (Inclusion.ofText path text).isKnown s.guards then (s, .ok (.skipped path))
      else (s.seen text).paste file (.ofText path text) := by
  rw [accept_eq, Inclusion.path_ofText, seen, Inclusion.register, Inclusion.tag_ofText]
  cases Directive.fileTag? text <;> rfl

theorem paste_eq_error_iff {file : String} {inc : Inclusion} :
    s.paste file inc = (s', .error e) ↔ s' = s ∧
      ((s.chain file).any (·.same inc.path) ∧ e = .includeCycle inc.path ∨
        ¬ (s.chain file).any (·.same inc.path) ∧ maxIncludeDepth ≤ (s.chain file).length ∧
          e = .includeTooDeep inc.path) := by
  rw [paste]
  by_cases hopen : (s.chain file).any (·.same inc.path) = true
  · simp [hopen, eq_comm]
  · by_cases hdeep : maxIncludeDepth ≤ (s.chain file).length
    · simp [hopen, hdeep, eq_comm]
    · simp [hopen, hdeep]

/-- A file whose tag is not registered is refused if it is open already or if too many files are. -/
theorem accept_ofText_eq_error_iff {file text : String} {path : Path} :
    s.accept file (.ofText path text) = (s', .error e) ↔
      (∀ tag, Directive.fileTag? text = some tag → tag ∉ s.guards) ∧ s' = s.seen text ∧
      ((s.chain file).any (·.same path) ∧ e = .includeCycle path ∨
        ¬ (s.chain file).any (·.same path) ∧ maxIncludeDepth ≤ (s.chain file).length ∧
          e = .includeTooDeep path) := by
  rw [accept_ofText]
  by_cases hknown : (Inclusion.ofText path text).isKnown s.guards = true
  · obtain ⟨tag, htag, hmem⟩ := Inclusion.isKnown_ofText_iff.mp hknown
    rw [if_pos hknown]
    constructor
    · intro h
      cases h
    · intro h
      exact absurd hmem (h.1 tag htag)
  · rw [if_neg hknown, paste_eq_error_iff, chain_seen, Inclusion.path_ofText]
    have hnew : ∀ tag, Directive.fileTag? text = some tag → tag ∉ s.guards :=
      fun tag => Inclusion.not_mem_of_not_isKnown hknown
    exact ⟨fun h => ⟨hnew, h⟩, And.right⟩

/-! ### Each kind of directive -/

theorem directive_of_guard {tag : String} (h : Directive.split line.val = ("ID", tag)) :
    s.directive load line = (s.register tag, .ok (.registered tag)) := by
  rw [directive, h]
  rfl

theorem directive_of_unknown {name argument : String}
    (h : Directive.split line.val = (name, argument)) (hinclude : name ≠ "include")
    (hguard : name ≠ "ID") : s.directive load line = (s, .error (.unknownDirective name)) := by
  rw [directive, h]
  simp only [if_neg hinclude, if_neg hguard]

theorem directive_of_missing {argument : String}
    (h : Directive.split line.val = ("include", argument))
    (htarget : Directive.unquote argument = "") :
    s.directive load line = (s, .error .missingIncludePath) := by
  rw [directive, h]
  simp only [if_true, Inclusion.read, htarget]

theorem directive_of_unreadable {path : Path} {reason : FileError}
    (h : Directive.wanted? line = some path) (hload : load path = .error reason) :
    s.directive load line = (s, .error (.includeUnreadable path reason)) := by
  obtain ⟨argument, hsplit, htarget, rfl⟩ := Directive.wanted?_eq_some h
  rw [directive, hsplit]
  simp only [if_true, Inclusion.read, if_neg htarget, hload]

theorem directive_of_readable {path : Path} {text : String}
    (h : Directive.wanted? line = some path) (hload : load path = .ok text) :
    s.directive load line = s.accept line.loc.file (.ofText path text) := by
  obtain ⟨argument, hsplit, htarget, rfl⟩ := Directive.wanted?_eq_some h
  rw [directive, hsplit]
  simp only [if_true, Inclusion.read, if_neg htarget, hload]
  rfl

/-- The ways in which a directive can be refused are all there are. -/
theorem directive_eq_error_iff :
    s.directive load line = (s', .error e) ↔ Refused load line s e s' := by
  constructor
  · intro h
    obtain ⟨tag, hsplit⟩ | ⟨name, argument, hsplit, hinclude, hguard⟩ |
      ⟨argument, hsplit, htarget⟩ | ⟨path, hwanted⟩ := Directive.split_cases line
    · rw [directive_of_guard hsplit] at h
      cases h
    · rw [directive_of_unknown hsplit hinclude hguard] at h
      cases h
      exact .unknownDirective hsplit hinclude hguard
    · rw [directive_of_missing hsplit htarget] at h
      cases h
      exact .missingIncludePath hsplit htarget
    · cases hload : load path with
      | error reason =>
        rw [directive_of_unreadable hwanted hload] at h
        cases h
        exact .includeUnreadable hwanted hload
      | ok text =>
        rw [directive_of_readable hwanted hload] at h
        obtain ⟨hunknown, rfl, ⟨hopen, rfl⟩ | ⟨hopen, hdeep, rfl⟩⟩ :=
          accept_ofText_eq_error_iff.mp h
        · exact .includeCycle hwanted hload hunknown hopen
        · exact .includeTooDeep hwanted hload hunknown hopen hdeep
  · intro h
    cases h with
    | unknownDirective hsplit hinclude hguard => exact directive_of_unknown hsplit hinclude hguard
    | missingIncludePath hsplit htarget => exact directive_of_missing hsplit htarget
    | includeUnreadable hwanted hload => exact directive_of_unreadable hwanted hload
    | includeCycle hwanted hload hunknown hopen =>
      rw [directive_of_readable hwanted hload]
      exact accept_ofText_eq_error_iff.mpr ⟨hunknown, rfl, .inl ⟨hopen, rfl⟩⟩
    | includeTooDeep hwanted hload hunknown hopen hdeep =>
      rw [directive_of_readable hwanted hload]
      exact accept_ofText_eq_error_iff.mpr ⟨hunknown, rfl, .inr ⟨hopen, hdeep, rfl⟩⟩

/-- What a refused directive leaves behind, read off the error. -/
theorem Refused.tagSeen? (h : Refused load line s e s') :
    match e.tagSeen? load with
    | none => s' = s
    | some tag => tag ∉ s.guards ∧ s' = s.register tag := by
  cases h with
  | unknownDirective | missingIncludePath | includeUnreadable => rfl
  | @includeCycle path text _ hload hunknown | @includeTooDeep path text _ hload hunknown =>
    rw [DirectiveError.tagSeen?, hload, seen]
    cases htag : Directive.fileTag? text with
    | none => simp [Except.toOption, htag]
    | some tag => simpa [Except.toOption, htag] using hunknown tag htag

/-- **A refused directive leaves the lines to come and the open files as they were.** So it does
with the guards, unless it is refused because a file is open already or would be nested too deeply,
and this file starts with a guard line: then the tag of that line was not registered before, and now
it is. -/
theorem directive_refused (load : Loader) (line : Located String) (s s' : Stream)
    (e : DirectiveError) (h : s.directive load line = (s', .error e)) :
    s'.queue = s.queue ∧
      match e.tagSeen? load with
      | none => s'.guards = s.guards
      | some tag => tag ∉ s.guards ∧ s'.guards = s.guards.insert tag := by
  have hleft := (directive_eq_error_iff.mp h).tagSeen?
  cases htag : e.tagSeen? load with
  | none =>
    rw [htag] at hleft
    obtain rfl : s' = s := hleft
    exact ⟨rfl, rfl⟩
  | some tag =>
    rw [htag] at hleft
    obtain ⟨hnew, rfl⟩ := hleft
    exact ⟨rfl, hnew, rfl⟩

/-- A file with a guard. -/
def taggedFile : Store := ({} : Store).insert "a.klt" "#ID t"

/-- An include of this file in itself. -/
def includeTagged : Located String := ⟨⟨"a.klt", 2⟩, "#include a.klt"⟩

theorem directive_includeTagged (h : "t" ∉ s.guards) :
    s.directive taggedFile.load includeTagged =
      (s.register "t", .error (.includeCycle "a.klt")) := by
  have hwanted : Directive.wanted? includeTagged = some "a.klt" := by decide +kernel
  have hload : taggedFile.load "a.klt" = .ok "#ID t" := by cbv
  have htag : Directive.fileTag? "#ID t" = some "t" := by decide +kernel
  have hopen : (s.chain includeTagged.loc.file).any (·.same "a.klt") = true := by
    rw [chain, List.any_append, Bool.or_eq_true]
    exact .inr (by decide +kernel)
  have hnew : ∀ tag, Directive.fileTag? "#ID t" = some tag → tag ∉ s.guards := by
    intro tag hsome
    rw [htag] at hsome
    cases hsome
    exact h
  have hseen : s.seen "#ID t" = s.register "t" := by rw [seen, htag]
  rw [← hseen]
  exact directive_eq_error_iff.mpr (.includeCycle hwanted hload hnew hopen)

/-- It is refused, and the tag is registered all the same. -/
theorem directive_refused_open :
    let s : Stream :=
      { queue := ⟨[⟨⟨⟨"a.klt", 3⟩, "hlt"⟩, ["m.klt"]⟩], ["m.klt"]⟩, guards := {"u"} }
    let after := s.directive taggedFile.load includeTagged
    after.2 = .error (.includeCycle "a.klt") ∧ after.1.queue = s.queue ∧ "t" ∉ s.guards ∧
      after.1.guards = s.guards.insert "t" := by
  intro s after
  have hrefused : s.directive taggedFile.load includeTagged = _ :=
    directive_includeTagged (by decide +kernel)
  have htag : (DirectiveError.includeCycle "a.klt").tagSeen? taggedFile.load = some "t" := by cbv
  have hleft := directive_refused _ _ s _ _ hrefused
  rw [htag] at hleft
  rw [show after = _ from hrefused]
  exact ⟨rfl, hleft⟩

/-- So the guards are not always those from before. -/
theorem directive_refused_registers :
    ¬ ∀ (load : Loader) (line : Located String) (s s' : Stream) (e : DirectiveError),
      s.directive load line = (s', .error e) →
        s'.queue = s.queue ∧ ∀ tag, tag ∈ s'.guards ↔ tag ∈ s.guards := by
  intro h
  have hrefused := directive_includeTagged (s := {}) (by simp)
  have hsame := (h taggedFile.load includeTagged {} _ _ hrefused).2 "t"
  simp [register] at hsame

end Stream

end StackAsm
