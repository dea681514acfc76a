import StackAsm.Proofs.Expansion
import StackAsm.Proofs.Names

/-!
# StackAsm.Proofs.History

What one turn of the first pass does to the stream, and the turns that lead from one scanner to
another.

`Stream.Advances` tells what becomes of the stream by the kind of the line: a line that is no
directive is taken off, a guard line registers its tag, and an include is left out because the tag
of its file is known, or pastes the lines of its file in. Every turn that is not refused is one of
these four (`Scanner.Turn.advances`). All that is shown of whole runs goes through them, and not
through the code that handles a line.

`Scanner.History` is a sequence of turns. Each has a loader of its own, for files may change while
they are read; so a fact about all histories does not need the loader to be a function of the
path. A run under one loader is a history, up to the line that is refused if one is
(`Scanner.Runs.exists_history`).
-/

namespace StackAsm

/-! ### Files and the lines that include them -/

/-- The tag of the guard line that a file starts with. -/
def Directive.fileTag? (text : String) : Option String :=
  (Text.lines text).head?.bind guardTag?

/-- A line is an include of the file at `path`, for which the loader serves `text`. -/
structure Includes (load : Loader) (line : Located String) (path : Path) (text : String) :
    Prop where
  directive : Line.classify line.val = .directive
  wanted : Directive.wanted? line = some path
  served : load path = .ok text

/-- A line registers a tag. -/
structure IsGuardLine (line : Located String) (tag : String) : Prop where
  directive : Line.classify line.val = .directive
  split : Directive.split line.val = ("ID", tag)

theorem Includes.name {load : Loader} {line : Located String} {path : Path} {text : String}
    (h : Includes load line path text) : (Directive.split line.val).1 = "include" := by
  have hwanted := h.wanted
  unfold Directive.wanted? at hwanted
  simp only at hwanted
  split at hwanted
  · rename_i hname
    exact hname.1
  · cases hwanted

/-- An include registers no tag of its own. -/
theorem Includes.not_isGuardLine {load : Loader} {line : Located String} {path : Path}
    {text : String} (h : Includes load line path text) (tag : String) : ¬ IsGuardLine line tag := by
  intro hguard
  have hname : "ID" = "include" := by rw [← h.name, hguard.split]
  exact absurd hname (by decide)

/-- What a line includes is determined by the line and the loader. -/
theorem Includes.unique {load : Loader} {line : Located String} {path path' : Path}
    {text text' : String} (h : Includes load line path text) (h' : Includes load line path' text') :
    path = path' ∧ text = text' := by
  obtain rfl : path = path' := Option.some.inj (h.wanted.symm.trans h'.wanted)
  exact ⟨rfl, Except.ok.inj (h.served.symm.trans h'.served)⟩

/-- The file that a line includes passes for itself. -/
theorem Includes.named {load : Loader} {line : Located String} {path : Path} {text : String}
    (h : Includes load line path text) : path.named = path :=
  Path.named_eq_iff.mpr (Directive.isText_of_wanted? h.wanted)

/-- A line of a file is located in that file. -/
theorem file_of_mem_sourceLines {file text : String} {line : Located String}
    (h : line ∈ sourceLines file text) : line.loc.file = file := by
  obtain ⟨i, hi, rfl⟩ := List.mem_mapIdx.mp h
  rfl

namespace Inclusion

/-- The file with the given text. -/
def ofText (path : Path) (text : String) : Inclusion :=
  ofLines path (sourceLines path.text text)

@[simp] theorem path_ofText (path : Path) (text : String) : (ofText path text).path = path := by
  unfold ofText ofLines
  split
  · rfl
  · split <;> rfl

@[simp] theorem tag_ofText (path : Path) (text : String) :
    (ofText path text).tag = Directive.fileTag? text := by
  unfold ofText ofLines sourceLines Directive.fileTag?
  cases Text.lines text with
  | nil => rfl
  | cons first rest =>
    simp only [List.mapIdx_cons, List.head?_cons, Option.bind_some]
    split <;> simp_all

/-- All that is pasted in are lines of the file. -/
theorem mem_sourceLines_of_mem_body {path : Path} {text : String} {line : Located String}
    (h : line ∈ (ofText path text).body) : line ∈ sourceLines path.text text := by
  unfold ofText ofLines at h
  split at h
  · cases h
  · rename_i first rest hlines
    rw [hlines]
    split at h
    · exact List.mem_cons_of_mem first h
    · exact h

theorem isKnown_ofText_iff {path : Path} {text : String} {guards : Std.TreeSet String} :
    (ofText path text).isKnown guards = true ↔
      ∃ tag, Directive.fileTag? text = some tag ∧ tag ∈ guards := by
  unfold isKnown
  rw [tag_ofText, Option.any_eq_true]
  rfl

theorem not_mem_of_not_isKnown {path : Path} {text tag : String} {guards : Std.TreeSet String}
    (h : ¬ (ofText path text).isKnown guards = true) (htag : Directive.fileTag? text = some tag) :
    tag ∉ guards := by
  intro hmem
  exact h (isKnown_ofText_iff.mpr ⟨tag, htag, hmem⟩)

theorem mem_register_ofText_iff {path : Path} {text tag : String} {guards : Std.TreeSet String} :
    tag ∈ (ofText path text).register guards ↔
      tag ∈ guards ∨ Directive.fileTag? text = some tag := by
  unfold register
  rw [tag_ofText]
  cases Directive.fileTag? text with
  | none => simp
  | some tag' => simp [or_comm]

end Inclusion

/-- What is read for an include that names a file. -/
theorem Inclusion.read_eq_ok {load : Loader} {line : Located String} {inc : Inclusion}
    (hline : Line.classify line.val = .directive) (hname : (Directive.split line.val).1 = "include")
    (h : read load line.loc.file (Directive.split line.val).2 = .ok inc) :
    ∃ path text, Includes load line path text ∧ inc = ofText path text := by
  unfold read at h
  simp only at h
  split at h
  · cases h
  · rename_i htarget
    split at h
    · cases h
    · rename_i text htext
      cases h
      exact ⟨_, text, ⟨hline, by simp [Directive.wanted?, hname, htarget], htext⟩, rfl⟩

/-- A file can be read also while it is open; what is wrong with that is found out later. -/
theorem Inclusion.read_ne_includeCycle {load : Loader} {file argument : String} {path : Path} :
    read load file argument ≠ .error (.includeCycle path) := by
  unfold read
  simp only
  split
  · simp
  · split <;> simp

/-! ### What a line does to the stream -/

/-- The files that are open at a line: those whose includes led to it, and its own. -/
def Pending.openFiles (p : Pending) : List Path := p.includers ++ [.ofText p.line.loc.file]

namespace Stream

/-- What becomes of the stream when `p` is read, with `rest` behind it, and the effect of the line
if it is a directive. -/
inductive Advances (load : Loader) (p : Pending) (rest : List Pending)
    (guards : Std.TreeSet String) : Option Effect → Stream → Prop
  /-- A line that is no directive is taken off. -/
  | plain : Line.classify p.line.val ≠ .directive →
      Advances load p rest guards none ⟨⟨rest, p.includers⟩, guards⟩
  /-- A guard line registers its tag. -/
  | registered {tag : String} : IsGuardLine p.line tag →
      Advances load p rest guards (some (.registered tag))
        ⟨⟨rest, p.includers⟩, guards.insert tag⟩
  /-- A file whose tag is known is left out. -/
  | skipped {path : Path} {text tag : String} : Includes load p.line path text →
      Directive.fileTag? text = some tag → tag ∈ guards →
      Advances load p rest guards (some (.skipped path)) ⟨⟨rest, p.includers⟩, guards⟩
  /-- Any other file is pasted in, if it is not open and one more file may be. -/
  | pasted {path : Path} {text : String} : Includes load p.line path text →
      (∀ tag, Directive.fileTag? text = some tag → tag ∉ guards) →
      (∀ file ∈ p.openFiles, file.same path = false) → p.openFiles.length < maxIncludeDepth →
      Advances load p rest guards (some (.pasted path (Directive.fileTag? text)))
        ⟨⟨(Inclusion.ofText path text).body.map (fun line => ⟨line, p.openFiles⟩) ++ rest,
          p.includers⟩, (Inclusion.ofText path text).register guards⟩

variable {load : Loader} {p : Pending} {rest : List Pending} {guards : Std.TreeSet String}

theorem chain_eq_openFiles (p : Pending) (rest : List Pending) (guards : Std.TreeSet String) :
    (⟨⟨rest, p.includers⟩, guards⟩ : Stream).chain p.line.loc.file = p.openFiles := rfl

/-- What a file does that an include names. -/
theorem accept_advances {path : Path} {text : String} {s' : Stream} {effect : Effect}
    (hincludes : Includes load p.line path text)
    (h : (⟨⟨rest, p.includers⟩, guards⟩ : Stream).accept p.line.loc.file (.ofText path text) =
      (s', .ok effect)) :
    Advances load p rest guards (some effect) s' := by
  rw [accept_eq] at h
  split at h
  · rename_i hknown
    obtain ⟨tag, htag, hmem⟩ := Inclusion.isKnown_ofText_iff.mp hknown
    cases h
    rw [Inclusion.path_ofText]
    exact .skipped hincludes htag hmem
  · rename_i hunknown
    rw [paste, chain_eq_openFiles, Inclusion.path_ofText, Inclusion.tag_ofText] at h
    split at h
    · cases h
    · rename_i hopen
      split at h
      · cases h
      · rename_i hdepth
        cases h
        exact .pasted hincludes (fun tag => Inclusion.not_mem_of_not_isKnown hunknown)
          (by simpa using hopen) (Nat.lt_of_not_le hdepth)

/-- What a directive does that is not refused. -/
theorem directive_advances {s' : Stream} {effect : Effect}
    (hline : Line.classify p.line.val = .directive)
    (h : (⟨⟨rest, p.includers⟩, guards⟩ : Stream).directive load p.line = (s', .ok effect)) :
    Advances load p rest guards (some effect) s' := by
  unfold directive at h
  simp only at h
  split at h
  · rename_i hname
    split at h
    · cases h
    · rename_i inc hread
      obtain ⟨path, text, hincludes, rfl⟩ := Inclusion.read_eq_ok hline hname hread
      exact accept_advances hincludes h
  · split at h
    · rename_i hname
      cases h
      exact .registered ⟨hline, Prod.ext hname rfl⟩
    · cases h

/-- A file is refused as open already only if its tag is not known and it is one of the open
files. -/
theorem directive_includeCycle {path : Path} (hline : Line.classify p.line.val = .directive)
    (h : ((⟨⟨rest, p.includers⟩, guards⟩ : Stream).directive load p.line).2 =
      .error (.includeCycle path)) :
    ∃ text, Includes load p.line path text ∧
      (∀ tag, Directive.fileTag? text = some tag → tag ∉ guards) ∧
      ∃ file ∈ p.openFiles, file.same path = true := by
  unfold directive at h
  simp only at h
  split at h
  · rename_i hname
    split at h
    · rename_i e hread
      cases h
      exact absurd hread Inclusion.read_ne_includeCycle
    · rename_i inc hread
      obtain ⟨path', text, hincludes, rfl⟩ := Inclusion.read_eq_ok hline hname hread
      rw [accept_eq] at h
      split at h
      · cases h
      · rename_i hunknown
        rw [paste, chain_eq_openFiles, Inclusion.path_ofText] at h
        split at h
        · rename_i hopen
          cases h
          exact ⟨text, hincludes, fun tag => Inclusion.not_mem_of_not_isKnown hunknown,
            List.any_eq_true.mp hopen⟩
        · split at h <;> cases h
  · split at h <;> cases h

namespace Advances

variable {effect : Option Effect} {s' : Stream}

/-- The include chain of the queue is that of the line read last. -/
theorem includers (h : Advances load p rest guards effect s') :
    s'.queue.includers = p.includers := by
  cases h <;> rfl

/-- The tags that are registered after a line: those that were before, the tag of a guard line, and
that of a file that is pasted in. -/
theorem mem_guards_iff (h : Advances load p rest guards effect s') {tag : String} :
    tag ∈ s'.guards ↔
      tag ∈ guards ∨ IsGuardLine p.line tag ∨ ∃ path, effect = some (.pasted path (some tag)) := by
  cases h with
  | plain hline =>
    have hguard : ¬ IsGuardLine p.line tag := fun hguard => hline hguard.directive
    simp [hguard]
  | @registered tag' hguard =>
    have hiff : IsGuardLine p.line tag ↔ tag' = tag := by
      constructor
      · intro hguard'
        simpa using hguard.split.symm.trans hguard'.split
      · intro htag
        exact htag ▸ hguard
    simp [hiff, or_comm]
  | skipped hincludes _ _ => simp [hincludes.not_isGuardLine tag]
  | @pasted path text hincludes _ _ _ =>
    simp [hincludes.not_isGuardLine tag, Inclusion.mem_register_ofText_iff]

/-- The tag of a file is registered once an include of it was handled. -/
theorem mem_guards_of_includes (h : Advances load p rest guards effect s') {path : Path}
    {text tag : String} (hincludes : Includes load p.line path text)
    (htag : Directive.fileTag? text = some tag) : tag ∈ s'.guards := by
  cases h with
  | plain hline => exact absurd hincludes.directive hline
  | @registered tag' hguard => exact absurd hguard (hincludes.not_isGuardLine tag')
  | skipped hincludes' htag' hmem =>
    obtain ⟨rfl, rfl⟩ := hincludes.unique hincludes'
    obtain rfl := Option.some.inj (htag.symm.trans htag')
    exact hmem
  | pasted hincludes' _ _ _ =>
    obtain ⟨rfl, rfl⟩ := hincludes.unique hincludes'
    exact Inclusion.mem_register_ofText_iff.mpr (.inr htag)

/-- Of the lines to come, all but those that are pasted in were there before. -/
theorem exists_pending (h : Advances load p rest guards effect s') :
    (s'.queue.pending = rest ∧ ∀ path tag, effect ≠ some (.pasted path tag)) ∨
      ∃ path text, effect = some (.pasted path (Directive.fileTag? text)) ∧
        Includes load p.line path text ∧ (∀ file ∈ p.openFiles, file.same path = false) ∧
        p.openFiles.length < maxIncludeDepth ∧ s'.queue.pending =
          (Inclusion.ofText path text).body.map (fun line => ⟨line, p.openFiles⟩) ++ rest := by
  cases h with
  | plain _ => exact .inl ⟨rfl, by simp⟩
  | registered _ => exact .inl ⟨rfl, by simp⟩
  | skipped _ _ _ => exact .inl ⟨rfl, by simp⟩
  | @pasted path text hincludes _ hopen hdepth =>
    exact .inr ⟨path, text, rfl, hincludes, hopen, hdepth, rfl⟩

end Advances

/-- What the directive on the next line does; `none` if the next line is no directive, or is
refused. -/
def nextEffect? (load : Loader) (s : Stream) : Option Effect :=
  match s.next? with
  | none => none
  | some (line, s') =>
    if Line.classify line.val = .directive then (s'.directive load line).2.toOption else none

theorem nextEffect?_of_pending {s : Stream} (h : s.queue.pending = p :: rest) :
    s.nextEffect? load =
      if Line.classify p.line.val = .directive then
        ((⟨⟨rest, p.includers⟩, s.guards⟩ : Stream).directive load p.line).2.toOption
      else none := by
  have hnext : s.next? = some (p.line, ⟨⟨rest, p.includers⟩, s.guards⟩) := by
    simp [next?, LineQueue.next?, h]
  simp only [nextEffect?, hnext]

end Stream

/-! ### Turns one after another -/

namespace Scanner

variable {load : Loader} {opts : Options} {s s' : Scanner} {line : Located String}

/-- What a turn does to the stream. -/
theorem Turn.advances (h : Turn load opts s line (.ok s')) :
    ∃ p rest, s.stream.queue.pending = p :: rest ∧ line = p.line ∧
      Stream.Advances load p rest s.stream.guards (s.stream.nextEffect? load) s'.stream := by
  obtain ⟨p, rest, hpending, rfl, hstep⟩ := h.exists_pending
  refine ⟨p, rest, hpending, rfl, ?_⟩
  rw [Stream.nextEffect?_of_pending hpending]
  by_cases hline : Line.classify p.line.val = .directive
  · rw [result_step_directive hline] at hstep
    obtain ⟨effect, heffect⟩ := result_directive_eq_ok hstep
    rw [if_pos hline, heffect]
    exact Stream.directive_advances hline heffect
  · rw [if_neg hline, stream_of_step_plain hline hstep]
    exact .plain hline

/-- A line that was read and handled: what the loader served then, and the scanner before and
after. -/
structure Handled where
  load : Loader
  before : Scanner
  line : Located String
  after : Scanner

namespace Handled

/-- What the line did, if it is a directive. -/
def effect? (h : Handled) : Option Effect := h.before.stream.nextEffect? h.load

/-- The files that were open at the line: those that the queue reported then, and the line's own. -/
def openFiles (h : Handled) : List Path :=
  h.after.stream.queue.includers ++ [.ofText h.line.loc.file]

end Handled

/-- The turns that lead from one scanner to another, in order. -/
inductive History (opts : Options) (start : Scanner) : List Handled → Scanner → Prop
  | nil : History opts start [] start
  | snoc {hs : List Handled} {s s' : Scanner} {load : Loader} {line : Located String} :
      History opts start hs s → Turn load opts s line (.ok s') →
      History opts start (hs ++ [⟨load, s, line, s'⟩]) s'

/-- A turn, and then others. -/
theorem History.cons {start : Scanner} {hs : List Handled}
    (turn : Turn load opts start line (.ok s)) (h : History opts s hs s') :
    History opts start (⟨load, start, line, s⟩ :: hs) s' := by
  induction h with
  | nil => exact .snoc .nil turn
  | snoc _ last ih => exact .snoc ih last

/-- A history up to one of its turns is a history. -/
theorem History.split {start : Scanner} {before after : List Handled} {h : Handled}
    (history : History opts start (before ++ h :: after) s) :
    History opts start before h.before ∧ Turn h.load opts h.before h.line (.ok h.after) := by
  generalize hall : before ++ h :: after = all at history
  induction history generalizing after with
  | nil => simp at hall
  | @snoc hs s s' load line rest turn ih =>
    rcases List.eq_nil_or_concat after with rfl | ⟨after', last, rfl⟩
    · obtain ⟨rfl, hlast⟩ := List.append_inj' hall rfl
      obtain rfl : h = ⟨load, s, line, s'⟩ := by simpa using hlast
      exact ⟨rest, turn⟩
    · rw [List.concat_eq_append, ← List.cons_append, ← List.append_assoc] at hall
      exact ih (List.append_inj' hall rfl).1

/-- It ends where its last turn does. -/
theorem History.after_eq {start : Scanner} {before : List Handled} {last : Handled}
    (history : History opts start (before ++ [last]) s) : last.after = s := by
  generalize hall : before ++ [last] = all at history
  cases history with
  | nil => simp at hall
  | @snoc hs s s' load line _ _ =>
    obtain ⟨-, hlast⟩ := List.append_inj' hall rfl
    obtain rfl : last = ⟨load, s, line, _⟩ := by simpa using hlast
    rfl

/-- A run has a history, which ends where no line is left or the next one is refused. -/
theorem Runs.exists_history {read : List (Located String)} {r : Except AssemblyError Scan}
    (h : Runs load opts s read r) :
    ∃ hs s', History opts s hs s' ∧ (∀ x ∈ hs, x.load = load) ∧
      (s'.stream.next? = none ∧ r = .ok s'.scan ∧ read = hs.map Handled.line ∨
        ∃ line e, Turn load opts s' line (.error e) ∧ r = .error e) := by
  induction h with
  | @done s hnext => exact ⟨[], s, .nil, by simp, .inl ⟨hnext, rfl, rfl⟩⟩
  | @refused s line e turn => exact ⟨[], s, .nil, by simp, .inr ⟨line, e, turn, rfl⟩⟩
  | @next s s' line read r turn _ ih =>
    obtain ⟨hs, last, hhistory, hload, hend⟩ := ih
    refine ⟨_, last, hhistory.cons turn, by simpa using hload, ?_⟩
    exact hend.imp_left fun h => ⟨h.1, h.2.1, congrArg (line :: ·) h.2.2⟩

/-- At most `n` turns under one loader, fewer if the run ends before. -/
def turns (load : Loader) (opts : Options) : Nat → Scanner → List Handled
  | 0, _ => []
  | n + 1, s =>
    match s.stream.next? with
    | none => []
    | some (line, stream) =>
      match (({ s with stream } : Scanner).step load opts line).result with
      | .error _ => []
      | .ok s' => ⟨load, s, line, s'⟩ :: turns load opts n s'

theorem exists_history_turns (load : Loader) (opts : Options) (n : Nat) (s : Scanner) :
    ∃ s', History opts s (turns load opts n s) s' := by
  induction n generalizing s with
  | zero => exact ⟨s, .nil⟩
  | succ n ih =>
    unfold turns
    split
    · exact ⟨s, .nil⟩
    · rename_i line stream hnext
      split
      · exact ⟨s, .nil⟩
      · rename_i s' hstep
        obtain ⟨last, hrest⟩ := ih s'
        exact ⟨last, hrest.cons ⟨stream, hnext, hstep⟩⟩

theorem load_of_mem_turns {n : Nat} {h : Handled} (hh : h ∈ turns load opts n s) :
    h.load = load := by
  induction n generalizing s with
  | zero => cases hh
  | succ n ih =>
    unfold turns at hh
    split at hh
    · cases hh
    · split at hh
      · cases hh
      · rcases List.mem_cons.mp hh with rfl | hrest
        · rfl
        · exact ih hrest

end Scanner

end StackAsm
