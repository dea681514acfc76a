import StackAsm.Proofs.GuardLines
import StackAsm.Proofs.OpenFiles
import StackAsm.Proofs.Resolving

/-!
# StackAsm.Proofs.Cycles

When a file is refused because it is open already.

The refusal says that the file includes itself *without a guard line*. That the guard line is
missing is nowhere checked: the tag of a file is looked up before the open files are, and a file
whose tag is known is left out. So the refusal tells the truth only if the tag of every open file
is registered. This holds at any time (`Scanner.History.tagKnown`). A file that is pasted in has
its tag registered with that, and the outermost file, which is not pasted in, has its guard line
read like any other line, before anything else.

But the outermost file is looked up among the open files by its name. If its path is no text, then
another file can have that name for a path, and that file is refused without being open and whatever
guard line it has (`unspelled_includeCycle`).
-/

namespace StackAsm

/-! ### Guard lines -/

/-- The first line of a guarded file registers its tag if it is read like any other line. -/
theorem IsGuardLine.of_guardTag? {line : Located String} {tag : String}
    (h : Directive.guardTag? line.val = some tag) : IsGuardLine line tag :=
  ⟨(Directive.OneSign.of_guardTag? h).classify, Directive.split_of_guardTag? h⟩

theorem IsGuardLine.of_fileTag? {file text tag : String}
    (h : Directive.fileTag? text = some tag) :
    ∃ first rest, sourceLines file text = first :: rest ∧ IsGuardLine first tag := by
  unfold Directive.fileTag? at h
  unfold sourceLines
  cases hlines : Text.lines text with
  | nil => simp [hlines] at h
  | cons first rest =>
    simp only [hlines, List.head?_cons, Option.bind_some] at h
    exact ⟨⟨⟨file, 1⟩, first⟩, _, List.mapIdx_cons, .of_guardTag? h⟩

/-! ### The tags of the open files -/

/-- The tag of a file with such a text, if it has one, is registered or will be by the next line. -/
def TagKnown (s : Stream) (text : String) : Prop :=
  ∀ tag, Directive.fileTag? text = some tag →
    tag ∈ s.guards ∨ ∃ p rest, s.queue.pending = p :: rest ∧ IsGuardLine p.line tag

theorem TagKnown.advance {load : Loader} {s s' : Stream} {p : Pending} {rest : List Pending}
    {effect : Option Effect} {text : String} (h : TagKnown s text)
    (hpending : s.queue.pending = p :: rest)
    (hadvances : Stream.Advances load p rest s.guards effect s') : TagKnown s' text := by
  intro tag htag
  refine .inl (hadvances.mem_guards_iff.mpr ?_)
  rcases h tag htag with hmem | ⟨q, behind, hq, hguard⟩
  · exact .inl hmem
  · obtain ⟨rfl, -⟩ := List.cons.inj (hpending.symm.trans hq)
    exact .inr (.inl hguard)

namespace Scanner

variable {load : Loader} {opts : Options} {root : Path} {source : String} {s : Scanner}
  {hs : List Handled}

/-- At any time the tags of the files that are open at a line to come are known. -/
theorem History.tagKnown (history : History opts (ofLines (sourceLines root.text source)) hs s)
    (hload : ∀ h ∈ hs, h.load = load) (hroot : load root = .ok source) :
    ∀ p ∈ s.stream.queue.pending, ∀ file ∈ p.openFiles,
      ∃ text, load.byName root file = .ok text ∧ TagKnown s.stream text := by
  induction history with
  | nil =>
    have hpending : (ofLines (sourceLines root.text source)).stream.queue.pending =
        (sourceLines root.text source).map fun line => ⟨line, []⟩ := LineQueue.pending_ofLines _
    intro p hp file hfile
    rw [hpending] at hp
    obtain ⟨line, hline, rfl⟩ := List.mem_map.mp hp
    obtain rfl : file = root.named := by
      simpa [Pending.openFiles, file_of_mem_sourceLines hline, Path.named] using hfile
    refine ⟨source, by rw [load.byName_named, hroot], fun tag htag => .inr ?_⟩
    obtain ⟨first, rest, hlines, hguard⟩ := IsGuardLine.of_fileTag? htag
    exact ⟨⟨first, []⟩, _, by rw [hpending, hlines, List.map_cons], hguard⟩
  | @snoc hs s s' load' line before turn ih =>
    obtain rfl : load' = load := hload ⟨load', s, line, s'⟩ (by simp)
    obtain ⟨p, rest, hpending, rfl, hadvances⟩ := turn.advances
    have hknown : ∀ q ∈ p :: rest, ∀ file ∈ q.openFiles,
        ∃ text, load'.byName root file = .ok text ∧ TagKnown s'.stream text := by
      intro q hq file hfile
      rw [← hpending] at hq
      obtain ⟨text, hserved, htag⟩ := ih (fun h hh => hload h (by simp [hh])) q hq file hfile
      exact ⟨text, hserved, htag.advance hpending hadvances⟩
    rcases hadvances.exists_pending with ⟨hsame, -⟩ | ⟨path, text, heffect, hincludes, -, -, hmore⟩
    · rw [hsame]
      exact fun q hq => hknown q (List.mem_cons_of_mem p hq)
    · intro q hq file hfile
      rw [hmore] at hq
      rcases List.mem_append.mp hq with hnew | hold
      · obtain ⟨line, hline, rfl⟩ := List.mem_map.mp hnew
        have hname := file_of_mem_sourceLines (Inclusion.mem_sourceLines_of_mem_body hline)
        rcases List.mem_append.mp hfile with hopen | hown
        · exact hknown p List.mem_cons_self file hopen
        · -- the file that is pasted in: an include of it was handled just now
          obtain rfl : file = path := by
            rw [hname, List.mem_singleton] at hown
            exact hown.trans hincludes.named
          have hne : file ≠ root.named :=
            (before.snoc turn).pasted_ne_root (h := ⟨load', s, p.line, s'⟩) (by simp) heffect
          refine ⟨text, ?_, fun tag htag => .inl (hadvances.mem_guards_of_includes hincludes htag)⟩
          rw [load'.byName_of_ne hne]
          exact hincludes.served
      · exact hknown q (List.mem_cons_of_mem p hold) file hfile

/-- Where a file is refused because it is open, a line includes it whose open files hold it, and
its tag is not registered. -/
theorem Turn.includeCycle {line : Located String} {loc : Location} {path : Path}
    (turn : Turn load opts s line (.error (.directive ⟨loc, .includeCycle path⟩))) :
    ∃ p rest text, s.stream.queue.pending = p :: rest ∧ p.line.loc = loc ∧
      Includes load p.line path text ∧
      (∀ tag, Directive.fileTag? text = some tag → tag ∉ s.stream.guards) ∧
      ∃ file ∈ p.openFiles, file.same path = true := by
  obtain ⟨p, rest, hpending, rfl, hstep⟩ := turn.exists_pending
  by_cases hline : Line.classify p.line.val = .directive
  · rw [result_step_directive hline] at hstep
    obtain ⟨cause, hcause, hrefused⟩ := result_directive_eq_error hstep
    cases hcause
    obtain ⟨text, hincludes, hnew, hopen⟩ := Stream.directive_includeCycle hline hrefused
    exact ⟨p, rest, text, hpending, rfl, hincludes, hnew, hopen⟩
  · obtain ⟨cause, hcause⟩ := error_of_step_plain hline hstep
    cases hcause

end Scanner

/-! ### Assembling a file -/

/-- Directives are refused in the first pass. -/
theorem scanLines_of_assembleFile {load : Loader} {opts : Options} {root : Path}
    {cause : Located DirectiveError}
    (h : (assembleFile load opts root).result = .error (.directive cause)) :
    ∃ source, load root = .ok source ∧
      (scanLines load opts (sourceLines root.text source)).result = .error (.directive cause) := by
  unfold assembleFile at h
  split at h
  · cases h
  · rename_i source hsource
    refine ⟨source, hsource, ?_⟩
    rw [result_assembleLines] at h
    cases hscan : (scanLines load opts (sourceLines root.text source)).result with
    | error e =>
      rw [hscan] at h
      cases h
      rfl
    | ok scan =>
      rw [hscan] at h
      simp only [Except.bind, Scan.result_assemble] at h
      split at h <;> cases h

/-- The first pass over a file comes to the line `p`, and ends there with an error. -/
def EndsAt (load : Loader) (opts : Options) (root : Path) (p : Pending) (e : AssemblyError) :
    Prop :=
  ∃ source hs s rest, load root = .ok source ∧
    Scanner.History opts (.ofLines (sourceLines root.text source)) hs s ∧
    (∀ h ∈ hs, h.load = load) ∧ s.stream.queue.pending = p :: rest ∧
    Scanner.Turn load opts s p.line (.error e)

/-- A directive that is refused is one that the first pass comes to. -/
theorem endsAt_of_assembleFile {load : Loader} {opts : Options} {root : Path}
    {cause : Located DirectiveError}
    (h : (assembleFile load opts root).result = .error (.directive cause)) :
    ∃ p, EndsAt load opts root p (.directive cause) := by
  obtain ⟨source, hroot, hscan⟩ := scanLines_of_assembleFile h
  obtain ⟨read, hruns⟩ := Scanner.exists_runs_scanLines load opts (sourceLines root.text source)
  obtain ⟨hs, s, history, hload, ⟨-, hr, -⟩ | ⟨line, e, turn, hr⟩⟩ := hruns.exists_history
  · cases hscan.symm.trans hr
  · cases hscan.symm.trans hr
    obtain ⟨p, rest, hpending, rfl, -⟩ := turn.exists_pending
    exact ⟨p, source, hs, s, rest, hroot, history, hload, hpending, turn⟩

/-- The files that a program is made of: the outermost one, and all that includes lead to. -/
def ProgramFile (load : Loader) (root file : Path) : Prop :=
  Relation.ReflTransGen (Links fun file text => load file = .ok text) root file

/-- What a file of the program includes is a file of the program. The outermost one goes by its
name. -/
theorem ProgramFile.of_links {load : Loader} {root file target : Path}
    (hfile : file = root.named ∨ ProgramFile load root file)
    (h : Links (fun file text => load.byName root file = .ok text) file target) :
    ProgramFile load root target := by
  obtain ⟨text, line, hserved, hline, hwanted⟩ := h
  by_cases hname : file = root.named
  · rw [hname, load.byName_named] at hserved
    rw [hname, Path.text_named] at hline
    exact .single ⟨text, line, hserved, hline, hwanted⟩
  · rw [load.byName_of_ne hname] at hserved
    exact (hfile.resolve_left hname).tail ⟨text, line, hserved, hline, hwanted⟩

theorem IncludeChain.programFile {load : Loader} {root file : Path} {files : List Path}
    (h : IncludeChain (fun file text => load.byName root file = .ok text) root.named
      (files ++ [file])) :
    file = root.named ∨ ProgramFile load root file := by
  have hne : files ++ [file] ≠ [] := by simp
  have hpath := List.relationReflTransGen_of_exists_isChain _ h.linked hne
  have hhead : (files ++ [file]).head hne = root.named :=
    Option.some.inj ((List.head?_eq_some_head hne).symm.trans h.starts)
  rw [hhead, List.getLast_append_singleton] at hpath
  clear hhead hne h
  induction hpath with
  | refl => exact .inl rfl
  | tail _ hlink ih => exact .inr (.of_links ih hlink)

/-- A file that is included where the first pass comes to belongs to the program. -/
theorem EndsAt.programFile {load : Loader} {opts : Options} {root path : Path} {p : Pending}
    {e : AssemblyError} {text : String} (h : EndsAt load opts root p e)
    (hincludes : Includes load p.line path text) : ProgramFile load root path := by
  obtain ⟨source, hs, s, rest, hroot, history, hload, hpending, -⟩ := h
  have hnested := history.nested.mono (history.served hload hroot)
  have hp : p ∈ s.stream.queue.pending := by simp [hpending]
  obtain ⟨own, hown, hline⟩ := hnested.located p hp
  rw [← Path.text_ofText p.line.loc.file] at hline
  exact .of_links (hnested.chained p hp).programFile
    ⟨own, p.line, hown, hline, hincludes.directive, hincludes.wanted⟩

/-- Paths that mean the same file are served the same text. -/
def Loader.Coherent (load : Loader) : Prop :=
  ∀ file file' text text', file.same file' = true → load file = .ok text →
    load file' = .ok text' → text = text'

/-- The tag of a file that is refused as open already would be known, if it had one. -/
theorem EndsAt.includeCycle {load : Loader} {opts : Options} {root path : Path} {p : Pending}
    {loc : Location} (hcoherent : load.Coherent)
    (h : EndsAt load opts root p (.directive ⟨loc, .includeCycle path⟩)) :
    p.line.loc = loc ∧ ∃ text, Includes load p.line path text ∧
      (∃ file ∈ p.openFiles, file.same path = true) ∧
      (Directive.fileTag? text = none ∨ ¬ root.IsText ∧ root.named.same path = true) := by
  obtain ⟨source, hs, s, rest, hroot, history, hload, hpending, turn⟩ := h
  obtain ⟨q, behind, text, hq, hloc, hincludes, hnew, file, hfile, hopen⟩ := turn.includeCycle
  obtain ⟨rfl, rfl⟩ := List.cons.inj (hpending.symm.trans hq)
  refine ⟨hloc, text, hincludes, ⟨file, hfile, hopen⟩, ?_⟩
  by_cases hname : file = root.named → root.IsText
  · left
    obtain ⟨text', hserved, hknown⟩ :=
      history.tagKnown hload hroot p (by simp [hpending]) file hfile
    rw [load.byName_eq hname] at hserved
    obtain rfl := hcoherent file path text' text hopen hserved hincludes.served
    rw [Option.eq_none_iff_forall_ne_some]
    intro tag htag
    rcases hknown tag htag with hmem | ⟨q, behind, hq, hguard⟩
    · exact hnew tag htag hmem
    · obtain ⟨rfl, -⟩ := List.cons.inj (hpending.symm.trans hq)
      exact hincludes.not_isGuardLine tag hguard
  · right
    obtain ⟨rfl, hroot⟩ := Classical.not_imp.mp hname
    exact ⟨hroot, hopen⟩

theorem Store.coherent_load (store : Store) : Loader.Coherent store.load := by
  intro file file' text text' hsame h h'
  have hcomponents : file.components = file'.components := of_decide_eq_true hsame
  simp only [load, Path.same, hcomponents] at h h'
  exact Except.ok.inj (h.symm.trans h')

theorem Store.mem_files_of_load {store : Store} {file : Path} {text : String}
    (h : store.load file = .ok text) : ∃ entry ∈ store.files, entry.2 = text := by
  unfold Store.load at h
  split at h
  · rename_i entry hfind
    cases h
    exact ⟨entry, List.mem_of_find?_eq_some hfind, rfl⟩
  · cases h

/-- **A file is refused as open already only if it is open and has no guard line.** The refusal is
at a line whose own file or one of whose includers is the file in question, and that file starts
with no guard line. So a program all of whose files start with guard lines is never refused for
this reason. All this holds if the path of the outermost file is a text; if not, there is one
exception, a file for which the outermost one passes. -/
theorem assembleFile_includeCycle (load : Loader) (opts : Options) (root : Path)
    (hcoherent : load.Coherent) :
    (∀ loc path,
      (assembleFile load opts root).result = .error (.directive ⟨loc, .includeCycle path⟩) →
      ∃ p text, EndsAt load opts root p (.directive ⟨loc, .includeCycle path⟩) ∧
        p.line.loc = loc ∧ Includes load p.line path text ∧
        (∃ file ∈ p.openFiles, file.same path = true) ∧
        (Directive.fileTag? text = none ∨ ¬ root.IsText ∧ root.named.same path = true)) ∧
    ((∀ file text, ProgramFile load root file → load file = .ok text →
        (Directive.fileTag? text).isSome = true) →
      ∀ loc path,
        (assembleFile load opts root).result = .error (.directive ⟨loc, .includeCycle path⟩) →
        ¬ root.IsText ∧ root.named.same path = true) := by
  refine ⟨?_, ?_⟩
  · intro loc path h
    obtain ⟨p, hends⟩ := endsAt_of_assembleFile h
    obtain ⟨hloc, text, hincludes, hopen, htag⟩ := hends.includeCycle hcoherent
    exact ⟨p, text, hends, hloc, hincludes, hopen, htag⟩
  · intro htagged loc path h
    obtain ⟨p, hends⟩ := endsAt_of_assembleFile h
    obtain ⟨-, text, hincludes, -, htag⟩ := hends.includeCycle hcoherent
    refine htag.resolve_left ?_
    intro hnone
    have hsome := htagged path text (hends.programFile hincludes) hincludes.served
    rw [hnone] at hsome
    cases hsome

/-- Two files that include each other, the first under two names. Only the second is guarded. -/
def halfGuarded : Store :=
  (({} : Store).insert "d/b" "#ID b\n#include ./a").insert "d/a" "nop\n#include b"

theorem halfGuarded_includeCycle :
    (assembleFile halfGuarded.load {} "d/a").result =
      .error (.directive ⟨⟨"d/b", 2⟩, .includeCycle "d/./a"⟩) ∧
    (∃ p text, EndsAt halfGuarded.load {} "d/a" p
        (.directive ⟨⟨"d/b", 2⟩, .includeCycle "d/./a"⟩) ∧
      p.line.loc = ⟨"d/b", 2⟩ ∧ Includes halfGuarded.load p.line "d/./a" text ∧
      (∃ file ∈ p.openFiles, file.same "d/./a" = true) ∧ Directive.fileTag? text = none) ∧
    ∀ loc path, (assembleFile Scanner.mutualFiles.load {} "a").result ≠
      .error (.directive ⟨loc, .includeCycle path⟩) := by
  have hrefused : (assembleFile halfGuarded.load {} "d/a").result =
      .error (.directive ⟨⟨"d/b", 2⟩, .includeCycle "d/./a"⟩) := by cbv
  refine ⟨hrefused, ?_, ?_⟩
  · obtain ⟨p, text, hends, hloc, hincludes, hopen, htag⟩ :=
      (assembleFile_includeCycle _ {} _ halfGuarded.coherent_load).1 _ _ hrefused
    exact ⟨p, text, hends, hloc, hincludes, hopen,
      htag.resolve_right fun h => h.1 (Path.isText_ofText "d/a")⟩
  · have htagged : ∀ entry ∈ Scanner.mutualFiles.files,
        (Directive.fileTag? entry.2).isSome = true := by decide +kernel
    intro loc path h
    refine ((assembleFile_includeCycle _ {} _ Scanner.mutualFiles.coherent_load).2 ?_ _ _ h).1
      (Path.isText_ofText "a")
    intro file text _ h
    obtain ⟨entry, hentry, rfl⟩ := Store.mem_files_of_load h
    exact htagged entry hentry

/-- A file at a path that no text spells, and the file for which it passes. Both are guarded. -/
def unspelledGuarded : Store :=
  (({} : Store).insert Scanner.unspelled "#ID r\n#include \uFFFD").insert "\uFFFD"
    "#ID t\nmain:\nhlt"

theorem unspelled_includeCycle :
    (assembleFile unspelledGuarded.load {} Scanner.unspelled).result =
      .error (.directive ⟨⟨"\uFFFD", 2⟩, .includeCycle "\uFFFD"⟩) ∧
    unspelledGuarded.load "\uFFFD" = .ok "#ID t\nmain:\nhlt" ∧
    Directive.fileTag? "#ID t\nmain:\nhlt" = some "t" ∧
    Scanner.unspelled.same "\uFFFD" = false ∧ Loader.Coherent unspelledGuarded.load :=
  ⟨by cbv, by cbv, by decide +kernel, by decide +kernel, unspelledGuarded.coherent_load⟩

end StackAsm
