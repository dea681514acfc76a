import Mathlib.Data.List.Chain
import StackAsm.Proofs.Guards

/-!
# StackAsm.Proofs.OpenFiles

The files that are open while a line is read.

The queue stores with every line the files whose includes led to it. `IncludeChain` says what
these files and the line's own are to be: a chain of includes from the outermost file on, without
a repetition, and not longer than the nesting may be. It holds of every pending line at any time
(`Scanner.History.nested`), for a line that is pasted in gets the chain of the line that includes
it and one file more. The chains of the pending lines are nested as well: those further behind are
initial parts of those in front. So after an include the files that are open grow by one, and
after any other line they are what they were, or less if files come to their end
(`Scanner.History.openFiles_chain`).

Open files are known by their names. The chain starts therefore with the path for which the
outermost file passes, and a program sees the files as `Loader.byName` serves them.
-/

namespace StackAsm

/-! ### Chains of includes -/

/-- A file has a line that includes another file; `texts` tells which texts the files have. -/
def Links (texts : Path → String → Prop) (file target : Path) : Prop :=
  ∃ text line, texts file text ∧ line ∈ sourceLines file.text text ∧
    Line.classify line.val = .directive ∧ Directive.wanted? line = some target

/-- What is served for the files as a program knows them: its outermost file goes by its name. -/
def Loader.byName (load : Loader) (root : Path) : Loader :=
  fun path => if path = root.named then load root else load path

theorem Loader.byName_named (load : Loader) (root : Path) :
    load.byName root root.named = load root := if_pos rfl

theorem Loader.byName_of_ne (load : Loader) {root file : Path} (h : file ≠ root.named) :
    load.byName root file = load file := if_neg h

theorem Loader.byName_eq (load : Loader) {root file : Path} (h : file = root.named → root.IsText) :
    load.byName root file = load file := by
  by_cases hfile : file = root.named
  · rw [hfile, load.byName_named, Path.named_eq_iff.mpr (h hfile)]
  · exact load.byName_of_ne hfile

/-- For an outermost file whose path is a text, that is what the loader serves. -/
theorem Loader.byName_of_isText (load : Loader) {root : Path} (h : root.IsText) :
    load.byName root = load :=
  funext fun _ => load.byName_eq fun _ => h

/-- Files that may be open at once, the outermost first. -/
structure IncludeChain (texts : Path → String → Prop) (root : Path) (files : List Path) :
    Prop where
  starts : files.head? = some root
  bounded : files.length ≤ maxIncludeDepth
  distinct : files.Pairwise fun file later => file.same later = false
  linked : files.IsChain (Links texts)

variable {texts texts' : Path → String → Prop} {root : Path}

theorem Links.mono (h : ∀ file text, texts file text → texts' file text) {file target : Path} :
    Links texts file target → Links texts' file target
  | ⟨text, line, htext, hline⟩ => ⟨text, line, h file text htext, hline⟩

namespace IncludeChain

theorem mono (h : ∀ file text, texts file text → texts' file text) {files : List Path}
    (hchain : IncludeChain texts root files) : IncludeChain texts' root files :=
  ⟨hchain.starts, hchain.bounded, hchain.distinct, hchain.linked.imp fun _ _ => Links.mono h⟩

theorem singleton (texts : Path → String → Prop) (root : Path) :
    IncludeChain texts root [root] :=
  ⟨rfl, Nat.le_add_left 1 63, List.pairwise_singleton _ _, .singleton _⟩

/-- A chain goes on with a file that the last one includes. -/
theorem snoc {files : List Path} {file target : Path}
    (hchain : IncludeChain texts root (files ++ [file])) (hlink : Links texts file target)
    (hnew : ∀ f ∈ files ++ [file], f.same target = false)
    (hdepth : (files ++ [file]).length < maxIncludeDepth) :
    IncludeChain texts root (files ++ [file] ++ [target]) where
  starts := by
    rw [List.head?_append_of_ne_nil _ (by simp)]
    exact hchain.starts
  bounded := by
    rw [List.length_append, List.length_singleton]
    omega
  distinct := by
    refine List.pairwise_append.mpr ⟨hchain.distinct, List.pairwise_singleton _ _, ?_⟩
    intro f hf g hg
    obtain rfl := List.mem_singleton.mp hg
    exact hnew f hf
  linked := by
    refine List.isChain_append.mpr ⟨hchain.linked, .singleton _, ?_⟩
    intro f hf g hg
    obtain rfl : file = f := by simpa using hf
    obtain rfl : target = g := by simpa using hg
    exact hlink

end IncludeChain

/-! ### The chains of the pending lines -/

/-- What holds of the lines to come at any time. -/
structure Nested (texts : Path → String → Prop) (root : Path) (pending : List Pending) : Prop where
  /-- They are lines of the files that they are located in. -/
  located : ∀ p ∈ pending, ∃ text, texts (.ofText p.line.loc.file) text ∧
    p.line ∈ sourceLines p.line.loc.file text
  chained : ∀ p ∈ pending, IncludeChain texts root p.openFiles
  /-- Files are left in the order opposite to that in which they were entered. -/
  nested : pending.Pairwise fun p later => later.openFiles <+: p.openFiles

namespace Nested

theorem mono (h : ∀ file text, texts file text → texts' file text) {pending : List Pending}
    (hnested : Nested texts root pending) : Nested texts' root pending where
  located := by
    intro p hp
    obtain ⟨text, htext, hline⟩ := hnested.located p hp
    exact ⟨text, h _ text htext, hline⟩
  chained := fun p hp => (hnested.chained p hp).mono h
  nested := hnested.nested

theorem tail {p : Pending} {rest : List Pending} (hnested : Nested texts root (p :: rest)) :
    Nested texts root rest :=
  ⟨fun q hq => hnested.located q (List.mem_cons_of_mem p hq),
    fun q hq => hnested.chained q (List.mem_cons_of_mem p hq),
    (List.pairwise_cons.mp hnested.nested).2⟩

/-- Lines of one file are put in front of others whose files are open below it. -/
theorem splice {rest : List Pending} {lines : List (Located String)} {file text : String}
    {includers : List Path} (hrest : Nested texts root rest) (htext : texts (.ofText file) text)
    (hlines : ∀ line ∈ lines, line ∈ sourceLines file text)
    (hchain : IncludeChain texts root (includers ++ [.ofText file]))
    (hbelow : ∀ q ∈ rest, q.openFiles <+: includers ++ [.ofText file]) :
    Nested texts root (lines.map (fun line => ⟨line, includers⟩) ++ rest) := by
  have hopen : ∀ p ∈ lines.map (fun line => (⟨line, includers⟩ : Pending)),
      p.line ∈ sourceLines file text ∧ p.openFiles = includers ++ [.ofText file] := by
    intro p hp
    obtain ⟨line, hline, rfl⟩ := List.mem_map.mp hp
    refine ⟨hlines line hline, ?_⟩
    rw [Pending.openFiles, file_of_mem_sourceLines (hlines line hline)]
  constructor
  · intro p hp
    rcases List.mem_append.mp hp with hnew | hold
    · obtain ⟨hline, -⟩ := hopen p hnew
      rw [file_of_mem_sourceLines hline]
      exact ⟨text, htext, hline⟩
    · exact hrest.located p hold
  · intro p hp
    rcases List.mem_append.mp hp with hnew | hold
    · exact (hopen p hnew).2 ▸ hchain
    · exact hrest.chained p hold
  · refine List.pairwise_append.mpr ⟨?_, hrest.nested, ?_⟩
    · refine List.pairwise_of_forall_mem_list fun p hp q hq => ?_
      have heq : q.openFiles = p.openFiles := (hopen q hq).2.trans (hopen p hp).2.symm
      exact heq ▸ List.prefix_rfl
    · intro p hp q hq
      rw [(hopen p hp).2]
      exact hbelow q hq

/-- What a line does to the lines to come, if the text of a file that it pastes in is counted among
the texts. -/
theorem advance {p : Pending} {rest : List Pending} {load : Loader} {guards : Std.TreeSet String}
    {effect : Option Effect} {s' : Stream} (hnested : Nested texts root (p :: rest))
    (hadvances : Stream.Advances load p rest guards effect s')
    (htexts : ∀ path tag text, effect = some (.pasted path tag) → load path = .ok text →
      texts path text) :
    Nested texts root s'.queue.pending := by
  rcases hadvances.exists_pending with
    ⟨hsame, -⟩ | ⟨path, text, heffect, hincludes, hnew, hdepth, hmore⟩
  · exact hsame ▸ hnested.tail
  · have htext : texts path text := htexts path _ text heffect hincludes.served
    have hlink : Links texts (.ofText p.line.loc.file) path := by
      obtain ⟨own, hown, hline⟩ := hnested.located p List.mem_cons_self
      rw [← Path.text_ofText p.line.loc.file] at hline
      exact ⟨own, p.line, hown, hline, hincludes.directive, hincludes.wanted⟩
    have hnamed : Path.ofText path.text = path := hincludes.named
    have hchain : IncludeChain texts root (p.openFiles ++ [path]) :=
      (hnested.chained p List.mem_cons_self).snoc hlink hnew hdepth
    rw [hmore]
    refine hnested.tail.splice (hnamed.symm ▸ htext)
      (fun line => Inclusion.mem_sourceLines_of_mem_body) (hnamed.symm ▸ hchain) ?_
    intro q hq
    exact ((List.pairwise_cons.mp hnested.nested).1 q hq).trans (List.prefix_append _ _)

end Nested

namespace Scanner

/-- The texts read so far: that of the outermost file, under its name, and those of the files pasted
in. -/
def TextRead (root : Path) (source : String) (hs : List Handled) (file : Path) (text : String) :
    Prop :=
  (file = root.named ∧ text = source) ∨
    ∃ h ∈ hs, (∃ tag, h.effect? = some (.pasted file tag)) ∧ h.load file = .ok text

theorem TextRead.mono {source : String} {hs hs' : List Handled} (hsub : hs ⊆ hs') (file : Path)
    (text : String) : TextRead root source hs file text → TextRead root source hs' file text
  | .inl h => .inl h
  | .inr ⟨h, hh, hread⟩ => .inr ⟨h, hsub hh, hread⟩

variable {load : Loader} {opts : Options} {s s' : Scanner} {hs : List Handled}
  {line : Located String} {source : String}

/-- At any time the lines to come are nested. -/
theorem History.nested (history : History opts (ofLines (sourceLines root.text source)) hs s) :
    Nested (TextRead root source hs) root.named s.stream.queue.pending := by
  induction history with
  | nil =>
    rw [show (ofLines (sourceLines root.text source)).stream.queue.pending =
      (sourceLines root.text source).map (fun line => ⟨line, []⟩) ++ [] from rfl]
    exact Nested.splice ⟨by simp, by simp, .nil⟩ (.inl ⟨rfl, rfl⟩) (fun _ hline => hline)
      (.singleton _ root.named) (by simp)
  | @snoc hs s s' load line _ turn ih =>
    obtain ⟨p, rest, hpending, rfl, hadvances⟩ := turn.advances
    rw [hpending] at ih
    refine (ih.mono (TextRead.mono (List.subset_append_left hs _))).advance hadvances ?_
    intro path tag text heffect hserved
    exact .inr ⟨⟨load, s, p.line, s'⟩, by simp, ⟨tag, heffect⟩, hserved⟩

/-- The outermost file is open all the time, and so is never pasted in. -/
theorem History.pasted_ne_root
    (history : History opts (ofLines (sourceLines root.text source)) hs s) {h : Handled}
    (hh : h ∈ hs) {path : Path} {tag : Option String}
    (heffect : h.effect? = some (.pasted path tag)) : path ≠ root.named := by
  obtain ⟨before, after, rfl⟩ := List.append_of_mem hh
  obtain ⟨hbefore, turn⟩ := history.split
  obtain ⟨p, rest, hpending, -, hadvances⟩ := turn.advances
  have hroot : root.named ∈ p.openFiles :=
    List.mem_of_head? (hbefore.nested.chained p (by simp [hpending])).starts
  rcases hadvances.exists_pending with ⟨-, hnone⟩ | ⟨path', text, heffect', -, hnew, -, -⟩
  · exact absurd heffect (hnone path tag)
  · obtain rfl : path' = path := by
      have hsame := heffect'.symm.trans heffect
      simp only [Option.some.injEq, Effect.pasted.injEq] at hsame
      exact hsame.1
    rintro rfl
    have hself := hnew root.named hroot
    simp [Path.same] at hself

/-- Under one loader the texts that were read are those that it serves for the names. -/
theorem History.served (history : History opts (ofLines (sourceLines root.text source)) hs s)
    (hload : ∀ h ∈ hs, h.load = load) (hroot : load root = .ok source) (file : Path)
    (text : String) (h : TextRead root source hs file text) :
    load.byName root file = .ok text := by
  rcases h with ⟨rfl, rfl⟩ | ⟨x, hx, ⟨tag, heffect⟩, hserved⟩
  · rw [load.byName_named]
    exact hroot
  · rw [load.byName_of_ne (history.pasted_ne_root hx heffect)]
    exact hload x hx ▸ hserved

/-! ### From line to line -/

/-- The line that a turn reads was the first to come, and the queue reports its chain from then
on. -/
theorem Turn.pending_eq (turn : Turn load opts s line (.ok s')) :
    ∃ rest, s.stream.queue.pending = ⟨line, s'.stream.queue.includers⟩ :: rest := by
  obtain ⟨p, rest, hpending, rfl, hadvances⟩ := turn.advances
  exact ⟨rest, by rw [hadvances.includers]; exact hpending⟩

/-- The files that are open at the next line, seen from a line that was handled. -/
def Follows (h : Handled) (files : List Path) : Prop :=
  files <+: h.openFiles ∨
    ∃ path tag, h.effect? = some (.pasted path tag) ∧ files = h.openFiles ++ [path]

/-- A turn leads to a line of the file that it pastes in, or back to a file that is open. -/
theorem Turn.follows (turn : Turn load opts s line (.ok s'))
    (hnested : Nested texts root s.stream.queue.pending) {q : Pending} {rest : List Pending}
    (hq : s'.stream.queue.pending = q :: rest) : Follows ⟨load, s, line, s'⟩ q.openFiles := by
  obtain ⟨p, behind, hpending, rfl, hadvances⟩ := turn.advances
  have hopen : (Handled.mk load s p.line s').openFiles = p.openFiles := by
    rw [Handled.openFiles, hadvances.includers]
    rfl
  have hbelow : ∀ q ∈ behind, q.openFiles <+: p.openFiles := by
    rw [hpending] at hnested
    exact (List.pairwise_cons.mp hnested.nested).1
  rw [Follows, hopen]
  rcases hadvances.exists_pending with ⟨hsame, -⟩ | ⟨path, text, heffect, hincludes, -, -, hmore⟩
  · exact .inl (hbelow q (by rw [← hsame, hq]; exact List.mem_cons_self))
  · cases hbody : (Inclusion.ofText path text).body with
    | nil =>
      -- a file without lines is left as soon as it is entered
      rw [hbody, List.map_nil, List.nil_append, hq] at hmore
      exact .inl (hbelow q (by rw [← hmore]; exact List.mem_cons_self))
    | cons first others =>
      rw [hbody, List.map_cons, List.cons_append, hq] at hmore
      obtain ⟨rfl, -⟩ := List.cons.inj hmore
      have hfile : first.loc.file = path.text :=
        file_of_mem_sourceLines (Inclusion.mem_sourceLines_of_mem_body (hbody ▸ List.mem_cons_self))
      have hnamed : Path.ofText path.text = path := hincludes.named
      exact .inr ⟨path, _, heffect, by rw [Pending.openFiles, hfile, hnamed]⟩

/-- The open files follow each other along a history. -/
theorem History.isChain_follows
    (history : History opts (ofLines (sourceLines root.text source)) hs s) :
    hs.IsChain fun h next => Follows h next.openFiles := by
  induction history with
  | nil => exact .nil
  | @snoc hs s s' load line rest turn ih =>
    refine List.isChain_append.mpr ⟨ih, .singleton _, ?_⟩
    intro last hlast next hnext
    obtain rfl : ⟨load, s, line, s'⟩ = next := by simpa using hnext
    obtain ⟨before, rfl⟩ := List.getLast?_eq_some_iff.mp hlast
    obtain ⟨hbefore, turn'⟩ := rest.split
    obtain ⟨behind, hpending⟩ := turn.pending_eq
    rw [← rest.after_eq] at hpending
    exact turn'.follows hbefore.nested hpending

/-- **The open files are a chain of includes.** At any time of a scan, the files that are open at
a line to come are at most `maxIncludeDepth`, are no two the same, start with the path for which the
outermost file passes, and each has an include directive that means the next. So are the files that
the queue reports, with that of the line read last: what it reports is what was stored with that
line, from when the line is read until the next one is. From one line to the next the open files
grow by the file that is pasted in, or stay, or shrink back to those that were open before. The
chain starts with the path of the outermost file itself just if that is a text. -/
theorem History.openFiles_chain (opts : Options) (root : Path) (source : String)
    (hs : List Handled) (s : Scanner)
    (history : History opts (ofLines (sourceLines root.text source)) hs s) :
    (∀ p ∈ s.stream.queue.pending,
      IncludeChain (TextRead root source hs) root.named p.openFiles) ∧
    (∀ line stream, s.stream.next? = some (line, stream) →
      ∃ rest, s.stream.queue.pending = ⟨line, stream.queue.includers⟩ :: rest) ∧
    (∀ last ∈ hs.getLast?,
      (∃ rest, last.before.stream.queue.pending =
        ⟨last.line, s.stream.queue.includers⟩ :: rest) ∧
      IncludeChain (TextRead root source hs) root.named
        (s.stream.queue.includers ++ [.ofText last.line.loc.file])) ∧
    (hs.IsChain fun h next => Follows h next.openFiles) ∧
    (root.named = root ↔ root.IsText) := by
  refine ⟨history.nested.chained, ?_, ?_, history.isChain_follows, Path.named_eq_iff⟩
  · intro line stream hnext
    obtain ⟨p, rest, hpending, rfl, rfl⟩ := Stream.next?_eq_some hnext
    exact ⟨rest, hpending⟩
  · intro last hlast
    obtain ⟨before, rfl⟩ := List.getLast?_eq_some_iff.mp hlast
    obtain ⟨hbefore, turn⟩ := history.split
    obtain ⟨rest, hpending⟩ := turn.pending_eq
    rw [history.after_eq] at hpending
    refine ⟨⟨rest, hpending⟩, ?_⟩
    have hchain := hbefore.nested.chained ⟨last.line, s.stream.queue.includers⟩ (by simp [hpending])
    exact hchain.mono (TextRead.mono (List.subset_append_left before _))

/-- A source that includes a file, which includes another, and then an empty one. -/
def nestedSource : String := "#include d/x\nnop\n#include d/e\nhlt"

/-- The files that it includes. -/
def nestedFiles : Store :=
  ((({} : Store).insert "d/x" "#include z\nnop").insert "d/z" "nop").insert "d/e" ""

/-- The turns of the first pass over them, up to the include of the empty file. -/
def nestedTurns : List Handled :=
  turns nestedFiles.load {} 6 (ofLines (sourceLines (Path.text "m") nestedSource))

theorem nestedTurns_openFiles_chain :
    nestedTurns.map Handled.openFiles = ([["m"], ["m", "d/x"], ["m", "d/x", "d/z"], ["m", "d/x"],
      ["m"], ["m"]] : List (List Path)) ∧
    ∃ s, History {} (ofLines (sourceLines (Path.text "m") nestedSource)) nestedTurns s ∧
      (∀ p ∈ s.stream.queue.pending,
        IncludeChain (TextRead "m" nestedSource nestedTurns) (Path.named "m") p.openFiles) ∧
      (∀ last ∈ nestedTurns.getLast?,
        IncludeChain (TextRead "m" nestedSource nestedTurns) (Path.named "m")
          (s.stream.queue.includers ++ [.ofText last.line.loc.file])) ∧
      (nestedTurns.IsChain fun h next => Follows h next.openFiles) ∧ Path.named "m" = "m" := by
  obtain ⟨s, history⟩ := exists_history_turns nestedFiles.load {} 6
    (ofLines (sourceLines (Path.text "m") nestedSource))
  obtain ⟨hpending, -, hlast, hfollows, hnamed⟩ := History.openFiles_chain {} "m" _ _ s history
  exact ⟨by decide +kernel, s, history, hpending, fun last h => (hlast last h).2, hfollows,
    hnamed.mpr (Path.isText_ofText "m")⟩

/-- A path that no text spells. It passes for another, which a replacement character spells. -/
def unspelled : Path := ⟨[0xFF]⟩

/-- An outermost file at such a path. There is no file at the path for which it passes. -/
def unspelledFiles : Store :=
  (({} : Store).insert unspelled "#include x\nhlt").insert "x" "nop"

/-- The turns of the first pass over it, up to the line of the file that it includes. -/
def unspelledTurns : List Handled :=
  turns unspelledFiles.load {} 2 (ofLines (sourceLines unspelled.text "#include x\nhlt"))

theorem unspelledTurns_openFiles :
    unspelledFiles.load unspelled = .ok "#include x\nhlt" ∧
    (∃ s, History {} (ofLines (sourceLines unspelled.text "#include x\nhlt")) unspelledTurns s) ∧
    unspelledTurns.map Handled.openFiles = ([["\uFFFD"], ["\uFFFD", "x"]] : List (List Path)) ∧
    (∀ h ∈ unspelledTurns, ∀ texts, ¬ IncludeChain texts unspelled h.openFiles) ∧
    unspelledFiles.load "\uFFFD" = .error .absent := by
  have hstart : ∀ h ∈ unspelledTurns, h.openFiles.head? ≠ some unspelled := by decide +kernel
  refine ⟨by cbv, exists_history_turns _ {} 2 _, by decide +kernel, ?_, by cbv⟩
  intro h hh texts hchain
  exact hstart h hh hchain.starts

end Scanner

end StackAsm
