import StackAsm.Proofs.Agreement
import StackAsm.Proofs.Extension
import StackAsm.Proofs.LineForms
import StackAsm.Proofs.Resolving

/-!
# StackAsm.Proofs.Spacing

How a source is laid out does not matter.

`essentialLines` is what is left of lines without the blanks around them, blank lines and comments.
All that is ever asked of a line is asked of its text without outer blanks
(`Scanner.step_eq_of_trim`), and a blank line or a comment does nothing but leave the queue. So two
sources with the same essential lines are assembled to the same result
(`assembleLines_eq_of_essentialLines`).

## Proof shape

The two runs do not go in step, for the one may read lines that the other does not have. Their
streams are `Stream.Alike`: the same guards, and the same essential lines to come. A line that
counts takes alike streams to alike streams (`Scanner.Alike.step`), and the lines in front of it
that do not count are skipped (`Scanner.Runs.skip`).

An included file is laid out by the loader. There the first line counts as such, since it may be a
guard line, and so two loaders are alike if the lines that they serve differ in outer blanks only.
Line ends are the case in point (`Text.sameLines_withCarriageReturns`).
-/

namespace StackAsm

/-! ### Texts up to blanks -/

namespace Text

/-- A text without the blanks at its ends. -/
def trim (text : String) : String := String.ofList (trimChars text.toList)

theorem trim_eq_iff {a b : String} : trim a = trim b ↔ trimChars a.toList = trimChars b.toList :=
  String.ofList_inj

/-- A blank at the end is dropped. -/
theorem trimChars_append_blank (cs : List Char) {c : Char} (hc : isBlank c = true) :
    trimChars (cs ++ [c]) = trimChars cs := by
  unfold trimChars trimStart
  rw [List.dropWhile_append]
  split
  · rename_i hblank
    rw [List.isEmpty_iff.mp hblank, List.dropWhile_cons_of_pos hc]
    rfl
  · rw [trimEnd_eq_rdropWhile, trimEnd_eq_rdropWhile, List.rdropWhile_concat_pos _ _ _ hc]

theorem trimChars_dropCarriageReturn (cs : List Char) :
    trimChars (dropCarriageReturn cs) = trimChars cs := by
  unfold dropCarriageReturn
  split
  · rename_i hlast
    obtain ⟨front, rfl⟩ := List.getLast?_eq_some_iff.mp hlast
    rw [List.dropLast_concat, trimChars_append_blank front rfl]
  · rfl

/-- Two texts have the same lines, up to the blanks around them. -/
def SameLines (a b : String) : Prop := (lines b).map trim = (lines a).map trim

theorem sameLines_iff {a b : String} :
    SameLines a b ↔ (lineChars b.toList).map trimChars = (lineChars a.toList).map trimChars := by
  have htrim : trim ∘ String.ofList = String.ofList ∘ trimChars := by
    funext cs
    simp [trim]
  unfold SameLines lines
  rw [List.map_map, List.map_map, htrim, ← List.map_map, ← List.map_map]
  exact List.map_inj_right fun _ _ => String.ofList_inj.mp

/-! ### Line ends -/

/-- The characters with every line feed replaced by a carriage return and a line feed. -/
def crlf (cs : List Char) : List Char := cs.flatMap fun c => if c = '\n' then ['\r', '\n'] else [c]

/-- A text with every line feed replaced by a carriage return and a line feed. -/
def withCarriageReturns (text : String) : String := String.ofList (crlf text.toList)

theorem crlf_eq_self {cs : List Char} (h : '\n' ∉ cs) : crlf cs = cs := by
  have hsame : ∀ c ∈ cs, (if c = '\n' then ['\r', '\n'] else [c]) = [c] := by
    intro c hc
    refine if_neg ?_
    rintro rfl
    exact h hc
  unfold crlf
  rw [List.flatMap_congr hsame, List.flatMap_singleton']

theorem crlf_append_feed {line : List Char} (h : '\n' ∉ line) (rest : List Char) :
    crlf (line ++ '\n' :: rest) = (line ++ ['\r']) ++ '\n' :: crlf rest := by
  have hline : crlf (line ++ '\n' :: rest) = crlf line ++ ['\r', '\n'] ++ crlf rest := by
    simp [crlf]
  rw [hline, crlf_eq_self h]
  simp

/-- The lines stay the same up to blanks. The induction is on the text behind the first line feed.
-/
theorem map_trimChars_lineChars_crlf (cs : List Char) :
    (lineChars (crlf cs)).map trimChars = (lineChars cs).map trimChars := by
  induction hn : cs.length using Nat.strongRecOn generalizing cs with
  | ind n ih =>
    by_cases hfeed : '\n' ∈ cs
    · obtain ⟨line, rest, rfl, hline⟩ := List.eq_append_cons_of_mem hfeed
      have hlong : '\n' ∉ line ++ ['\r'] := by simp [hline]
      have hrest : rest.length < n := by simp at hn; omega
      rw [crlf_append_feed hline, lineChars_cons_feed hlong, lineChars_cons_feed hline,
        List.map_cons, List.map_cons, ih _ hrest rest rfl, trimChars_dropCarriageReturn,
        trimChars_dropCarriageReturn, trimChars_append_blank line rfl]
    · rw [crlf_eq_self hfeed]

theorem sameLines_withCarriageReturns (text : String) :
    SameLines text (withCarriageReturns text) := by
  rw [sameLines_iff, withCarriageReturns, String.toList_ofList]
  exact map_trimChars_lineChars_crlf text.toList

end Text

/-! ### Essential lines -/

/-- Whether a text without outer blanks says nothing. -/
def isTrivia (text : String) : Bool := text = "" || ['/', '/'].isPrefixOf text.toList

/-- A line without the blanks around its text. -/
def Located.trim (line : Located String) : Located String := ⟨line.loc, Text.trim line.val⟩

/-- The lines without the blanks around them, and without blank lines and comments. -/
def essentialLines (lines : List (Located String)) : List (Located String) :=
  (lines.map Located.trim).filter fun line => !isTrivia line.val

/-- Blank lines and comments are what says nothing. -/
theorem isTrivia_trim_iff {text : String} :
    isTrivia (Text.trim text) = true ↔
      Line.classify text = .blank ∨ Line.classify text = .comment := by
  unfold isTrivia Text.trim Line.classify Line.ofTrimmed
  generalize Text.trimChars text.toList = cs
  by_cases hnil : cs = []
  · simp [hnil]
  · by_cases hslashes : ['/', '/'].isPrefixOf cs = true
    · simp [hnil, hslashes]
    · -- none of the other rules gives a blank line or a comment
      have hne : String.ofList cs ≠ "" := by simpa using hnil
      simp only [hnil, hslashes, hne, if_false, String.toList_ofList, decide_false, Bool.false_or,
        Bool.false_eq_true, false_iff, not_or]
      split
      · simp
      · split <;> simp

theorem Located.trim_eq_iff {a b : Located String} :
    a.trim = b.trim ↔
      a.loc = b.loc ∧ Text.trimChars a.val.toList = Text.trimChars b.val.toList := by
  simp [Located.trim, Text.trim_eq_iff]

theorem guardTag?_eq_of_trim {a b : String} (h : Text.trim a = Text.trim b) :
    Directive.guardTag? a = Directive.guardTag? b := by
  unfold Directive.guardTag?
  rw [Text.trim_eq_iff.mp h]

/-- The lines of texts that are the same up to blanks. -/
theorem map_trim_sourceLines {a b : String} (h : Text.SameLines a b) (file : String) :
    (sourceLines file b).map Located.trim = (sourceLines file a).map Located.trim := by
  have hmap : ∀ text, (sourceLines file text).map Located.trim =
      ((Text.lines text).map Text.trim).mapIdx fun i line => ⟨⟨file, i + 1⟩, line⟩ := by
    intro text
    apply List.ext_getElem?
    intro i
    simp [sourceLines, Located.trim, Function.comp_def]
  rw [hmap, hmap, h]

theorem essentialLines_sourceLines {a b : String} (h : Text.SameLines a b) (file : String) :
    essentialLines (sourceLines file b) = essentialLines (sourceLines file a) := by
  unfold essentialLines
  rw [map_trim_sourceLines h]

/-- A pending line without the blanks around its text. -/
def Pending.trim (p : Pending) : Pending := ⟨p.line.trim, p.includers⟩

/-- The pending lines without the blanks around them, and without blank lines and comments. -/
def essentials (pending : List Pending) : List Pending :=
  (pending.map Pending.trim).filter fun p => !isTrivia p.line.val

theorem essentials_append (ps qs : List Pending) :
    essentials (ps ++ qs) = essentials ps ++ essentials qs := by
  simp [essentials]

theorem essentials_map (lines : List (Located String)) (chain : List Path) :
    essentials (lines.map fun line => ⟨line, chain⟩) =
      (essentialLines lines).map fun line => ⟨line, chain⟩ := by
  unfold essentials essentialLines
  rw [List.filter_map, List.filter_map, List.filter_map, List.map_map, List.map_map]
  rfl

theorem essentials_cons_of_trivia {p : Pending} (h : isTrivia (Text.trim p.line.val) = true)
    (rest : List Pending) : essentials (p :: rest) = essentials rest := by
  simp [essentials, Pending.trim, Located.trim, h]

theorem essentials_cons {p : Pending} (h : isTrivia (Text.trim p.line.val) = false)
    (rest : List Pending) : essentials (p :: rest) = p.trim :: essentials rest := by
  simp [essentials, Pending.trim, Located.trim, h]

theorem isTrivia_of_essentials_eq_nil {pending : List Pending} (h : essentials pending = []) :
    ∀ p ∈ pending, isTrivia (Text.trim p.line.val) = true := by
  intro p hp
  have hp' := List.filter_eq_nil_iff.mp h p.trim (List.mem_map_of_mem hp)
  simpa [Pending.trim, Located.trim] using hp'

/-- The first essential line stands behind lines that say nothing. -/
theorem exists_of_essentials_eq_cons {pending : List Pending} {p : Pending} {ps : List Pending}
    (h : essentials pending = p :: ps) :
    ∃ idle q rest, pending = idle ++ q :: rest ∧
      (∀ x ∈ idle, isTrivia (Text.trim x.line.val) = true) ∧ q.trim = p ∧ essentials rest = ps := by
  obtain ⟨front, behind, hmap, hfront, -, hbehind⟩ := List.filter_eq_cons_iff.mp h
  obtain ⟨idle, others, rfl, rfl, hothers⟩ := List.map_eq_append_iff.mp hmap
  obtain ⟨q, rest, rfl, hq, rfl⟩ := List.map_eq_cons_iff.mp hothers
  refine ⟨idle, q, rest, rfl, ?_, hq, hbehind⟩
  intro x hx
  have hx' := hfront x.trim (List.mem_map_of_mem hx)
  simpa [Pending.trim, Located.trim] using hx'

/-! ### Files up to blanks -/

/-- Two loaders serve the same lines, up to the blanks around them. -/
def Loader.Alike (load load' : Loader) : Prop :=
  ∀ path, Agree Eq Text.SameLines (load path) (load' path)

theorem Loader.Alike.refl (load : Loader) : Loader.Alike load load := by
  intro path
  cases load path with
  | error e => exact .error rfl
  | ok text => exact .ok rfl

theorem Loader.alike_withCarriageReturns (load : Loader) :
    Loader.Alike load fun path => (load path).map Text.withCarriageReturns := by
  intro path
  cases h : load path with
  | error e =>
    simp only [h]
    exact .error rfl
  | ok text =>
    simp only [h]
    exact .ok (Text.sameLines_withCarriageReturns text)

/-- Files to be pasted that say the same. -/
structure Inclusion.Alike (inc inc' : Inclusion) : Prop where
  path : inc'.path = inc.path
  tag : inc'.tag = inc.tag
  body : essentialLines inc'.body = essentialLines inc.body

namespace Inclusion

/-- The guard line is told from the other lines in the same way. -/
theorem alike_ofLines {path : Path} {lines lines' : List (Located String)}
    (h : lines'.map Located.trim = lines.map Located.trim) :
    (ofLines path lines).Alike (ofLines path lines') := by
  cases lines with
  | nil =>
    obtain rfl : lines' = [] := by simpa using h
    exact ⟨rfl, rfl, rfl⟩
  | cons first rest =>
    obtain ⟨first', rest', rfl, hfirst, hrest⟩ := List.map_eq_cons_iff.mp h
    have hbody : essentialLines rest' = essentialLines rest := by
      unfold essentialLines
      rw [hrest]
    have hwhole : essentialLines (first' :: rest') = essentialLines (first :: rest) := by
      unfold essentialLines
      rw [h]
    have htag : Directive.guardTag? first'.val = Directive.guardTag? first.val :=
      guardTag?_eq_of_trim (congrArg Located.val hfirst)
    simp only [ofLines, htag]
    cases Directive.guardTag? first.val with
    | none => exact ⟨rfl, rfl, hwhole⟩
    | some tag => exact ⟨rfl, rfl, hbody⟩

theorem read_alike {load load' : Loader} (hload : load.Alike load') (file argument : String) :
    Agree Eq Alike (read load file argument) (read load' file argument) := by
  unfold read
  simp only
  split
  · exact .error rfl
  · have hserved := hload (Directive.targetPath file (Directive.unquote argument))
    generalize load (Directive.targetPath file (Directive.unquote argument)) = x at hserved ⊢
    generalize load' (Directive.targetPath file (Directive.unquote argument)) = y at hserved ⊢
    cases hserved with
    | error he =>
      rw [he]
      exact .error rfl
    | ok hlines => exact .ok (alike_ofLines (map_trim_sourceLines hlines _))

end Inclusion

/-! ### One line on alike streams -/

namespace Stream

/-- Streams with the same guards and the same essential lines to come. -/
structure Alike (a b : Stream) : Prop where
  guards : b.guards = a.guards
  pending : essentials b.queue.pending = essentials a.queue.pending

variable {a b : Stream} {load load' : Loader}

theorem Alike.paste (h : a.Alike b) (hchain : b.queue.includers = a.queue.includers) (file : String)
    {inc inc' : Inclusion} (hinc : inc.Alike inc') :
    (b.paste file inc').2 = (a.paste file inc).2 ∧
      (a.paste file inc).1.Alike (b.paste file inc').1 := by
  have hfiles : b.chain file = a.chain file := by
    unfold chain
    rw [hchain]
  unfold Stream.paste
  rw [hfiles, hinc.path, hinc.tag]
  split
  · exact ⟨rfl, h⟩
  · split
    · exact ⟨rfl, h⟩
    · refine ⟨rfl, h.guards, ?_⟩
      simp only [LineQueue.splice, essentials_append, essentials_map, hinc.body, h.pending]

theorem Alike.accept (h : a.Alike b) (hchain : b.queue.includers = a.queue.includers)
    (file : String) {inc inc' : Inclusion} (hinc : inc.Alike inc') :
    (b.accept file inc').2 = (a.accept file inc).2 ∧
      (a.accept file inc).1.Alike (b.accept file inc').1 := by
  have hknown : inc'.isKnown b.guards = inc.isKnown a.guards := by
    unfold Inclusion.isKnown
    rw [hinc.tag, h.guards]
  have hregister : inc'.register b.guards = inc.register a.guards := by
    unfold Inclusion.register
    rw [hinc.tag, h.guards]
  rw [accept_eq, accept_eq, hknown, hregister]
  split
  · rw [hinc.path]
    exact ⟨rfl, h⟩
  · have hregistered : Alike { a with guards := inc.register a.guards }
        { b with guards := inc.register a.guards } := ⟨rfl, h.pending⟩
    exact hregistered.paste hchain file hinc

/-- A directive does the same on alike streams, with files that say the same. -/
theorem Alike.directive (h : a.Alike b) (hchain : b.queue.includers = a.queue.includers)
    (hload : load.Alike load') (line : Located String) :
    (b.directive load' line).2 = (a.directive load line).2 ∧
      (a.directive load line).1.Alike (b.directive load' line).1 := by
  unfold Stream.directive
  simp only
  split
  · have hread := Inclusion.read_alike hload line.loc.file (Directive.split line.val).2
    generalize Inclusion.read load line.loc.file (Directive.split line.val).2 = x at hread ⊢
    generalize Inclusion.read load' line.loc.file (Directive.split line.val).2 = y at hread ⊢
    cases hread with
    | error he =>
      rw [he]
      exact ⟨rfl, h⟩
    | ok hinc => exact h.accept hchain line.loc.file hinc
  · split
    · refine ⟨rfl, ?_, h.pending⟩
      simp only [register, h.guards]
    · exact ⟨rfl, h⟩

end Stream

namespace Scanner

variable {load load' : Loader} {opts : Options} {s s' : Scanner}

/-- The blanks around a line do not matter. -/
theorem step_eq_of_trim {line line' : Located String} (h : line'.trim = line.trim) (s : Scanner) :
    s.step load opts line' = s.step load opts line := by
  obtain ⟨hloc, hchars⟩ := Located.trim_eq_iff.mp h
  have hform : Line.classify line'.val = Line.classify line.val := by
    unfold Line.classify
    rw [hchars]
  have hsplit : Directive.split line'.val = Directive.split line.val := by
    unfold Directive.split
    rw [hchars]
  unfold step directive Stream.directive
  rw [hform, hsplit, hloc]

/-- Scanners that differ in nothing but streams that are alike. -/
structure Alike (s s' : Scanner) : Prop where
  stream : s.stream.Alike s'.stream
  rest : s' = { s with stream := s'.stream }

/-- A line takes alike scanners to alike scanners, or is refused by both. -/
theorem Alike.step (h : s.Alike s') (hload : load.Alike load')
    (hchain : s'.stream.queue.includers = s.stream.queue.includers) (line : Located String) :
    Agree Eq Alike (s.step load opts line).result (s'.step load' opts line).result := by
  obtain ⟨hstream, hrest⟩ := h
  generalize s'.stream = stream at hstream hrest hchain
  subst hrest
  by_cases hline : Line.classify line.val = .directive
  · rw [result_step_directive hline, result_step_directive hline]
    obtain ⟨hresult, halike⟩ := hstream.directive hchain hload line
    unfold directive
    simp only
    generalize s.stream.directive load line = x at hresult halike ⊢
    generalize stream.directive load' line = y at hresult halike ⊢
    obtain ⟨stream₁, result₁⟩ := x
    obtain ⟨stream₂, result₂⟩ := y
    obtain rfl : result₂ = result₁ := hresult
    cases result₂ with
    | error e => exact .error rfl
    | ok effect => exact .ok ⟨halike, rfl⟩
  · have hsame := (Unnoticed.mapStream fun _ => stream).result_step hline load load' opts s
    rw [hsame]
    cases hstep : (s.step load opts line).result with
    | error e => exact .error rfl
    | ok t =>
      rw [← stream_of_step_plain hline hstep] at hstream
      exact .ok ⟨hstream, rfl⟩

/-! ### Runs over alike streams -/

/-- A line that says nothing leaves the scanner as it is. -/
theorem result_step_of_trivia {line : Located String} (h : isTrivia (Text.trim line.val) = true)
    (s : Scanner) : (s.step load opts line).result = .ok s := by
  unfold step
  rcases isTrivia_trim_iff.mp h with hblank | hcomment
  · rw [hblank]
    rfl
  · rw [hcomment]
    rfl

/-- A run may begin with lines that say nothing. -/
theorem Runs.skip {idle rest : List Pending}
    (hidle : ∀ p ∈ idle, isTrivia (Text.trim p.line.val) = true) {chain : List Path}
    {guards : Std.TreeSet String} {read : List (Located String)} {r : Except AssemblyError Scan}
    (h : Runs load opts { s with stream := ⟨⟨rest, chain⟩, guards⟩ } read r) :
    Runs load opts { s with stream := ⟨⟨idle ++ rest, chain⟩, guards⟩ }
      (idle.map Pending.line ++ read) r := by
  induction idle generalizing chain with
  | nil => exact h
  | cons p idle ih =>
    have hstep : (({ s with stream := ⟨⟨idle ++ rest, p.includers⟩, guards⟩ } : Scanner).step load
        opts p.line).result = .ok { s with stream := ⟨⟨idle ++ rest, p.includers⟩, guards⟩ } :=
      result_step_of_trivia (hidle p (by simp)) _
    have turn : Turn load opts { s with stream := ⟨⟨p :: (idle ++ rest), chain⟩, guards⟩ } p.line
        (.ok { s with stream := ⟨⟨idle ++ rest, p.includers⟩, guards⟩ }) :=
      hstep ▸ turn_of_pending rfl
    exact .next turn (ih (fun q hq => hidle q (by simp [hq])) h.of_includers)

/-- A turn on a line that counts goes with a turn of any alike scanner, once that has skipped the
lines in front which say nothing. -/
theorem Alike.turn (h : s.Alike s') (hload : load.Alike load') {line : Located String}
    {r : Except AssemblyError Scanner} (turn : Turn load opts s line r)
    (hline : isTrivia (Text.trim line.val) = false) :
    ∃ idle rest line' r', s'.stream.queue.pending = idle ++ rest ∧
      (∀ p ∈ idle, isTrivia (Text.trim p.line.val) = true) ∧
      Turn load' opts
        { s' with stream := ⟨⟨rest, s'.stream.queue.includers⟩, s'.stream.guards⟩ } line' r' ∧
      Agree Eq Alike r r' := by
  obtain ⟨p, rest, hpending, rfl, hstep⟩ := turn.exists_pending
  have hessential := h.stream.pending
  rw [hpending, essentials_cons hline] at hessential
  obtain ⟨idle, q, rest', hpending', hidle, hq, hrest⟩ := exists_of_essentials_eq_cons hessential
  obtain ⟨hqline, hqchain⟩ := Pending.mk.inj hq
  refine ⟨idle, q :: rest', q.line, _, hpending', hidle, turn_of_pending rfl, ?_⟩
  rw [step_eq_of_trim hqline, ← hstep]
  have hafter : Alike { s with stream := ⟨⟨rest, p.includers⟩, s.stream.guards⟩ }
      { s' with stream := ⟨⟨rest', q.includers⟩, s'.stream.guards⟩ } := by
    refine ⟨⟨h.stream.guards, hrest⟩, ?_⟩
    rw [h.rest]
  exact hafter.step hload hqchain p.line

/-- Runs of alike scanners end in the same result. The induction is on the first run. -/
theorem Runs.of_alike (hload : load.Alike load') {read : List (Located String)}
    {r : Except AssemblyError Scan} (h : Runs load opts s read r) (hs : s.Alike s') :
    ∃ read', Runs load' opts s' read' r := by
  induction h generalizing s' with
  | @done s hnext =>
    have hidle := hs.stream.pending
    rw [next?_eq_none_iff.mp hnext] at hidle
    have hend : Runs load' opts
        { s' with stream := ⟨⟨[], s'.stream.queue.includers⟩, s'.stream.guards⟩ } []
        (.ok s'.scan) := .done (next?_eq_none_iff.mpr rfl)
    have hskip := hend.skip (isTrivia_of_essentials_eq_nil hidle)
    rw [List.append_nil] at hskip
    have hscan : s.scan = s'.scan := by rw [hs.rest]
    rw [hscan]
    exact ⟨_, hskip⟩
  | @refused s line e turn =>
    have hline : isTrivia (Text.trim line.val) = false := by
      by_contra htrivia
      obtain ⟨p, rest, -, rfl, hstep⟩ := turn.exists_pending
      cases hstep.symm.trans (result_step_of_trivia (by simpa using htrivia) _)
    obtain ⟨idle, rest, line', r', hpending, hidle, turn', hagree⟩ := hs.turn hload turn hline
    cases hagree with
    | error he =>
      have hskip := (Runs.refused (he ▸ turn')).skip hidle
      rw [← hpending] at hskip
      exact ⟨_, hskip⟩
  | @next s t line read r turn _ ih =>
    by_cases htrivia : isTrivia (Text.trim line.val) = true
    · -- the other scanner waits
      obtain ⟨p, rest, hpending, rfl, hstep⟩ := turn.exists_pending
      obtain rfl := Except.ok.inj (hstep.symm.trans (result_step_of_trivia htrivia _))
      refine ih ⟨⟨hs.stream.guards, ?_⟩, ?_⟩
      · rw [hs.stream.pending, hpending, essentials_cons_of_trivia htrivia]
      · rw [hs.rest]
    · obtain ⟨idle, rest, line', r', hpending, hidle, turn', hagree⟩ :=
        hs.turn hload turn (Bool.eq_false_iff.mpr htrivia)
      cases hagree with
      | ok ht =>
        obtain ⟨read', hrest⟩ := ih ht
        have hskip := (Runs.next turn' hrest).skip hidle
        rw [← hpending] at hskip
        exact ⟨_, hskip⟩

theorem alike_ofLines {lines lines' : List (Located String)}
    (h : essentialLines lines' = essentialLines lines) :
    (ofLines lines).Alike (ofLines lines') := by
  refine ⟨⟨rfl, ?_⟩, rfl⟩
  show essentials (LineQueue.ofLines lines').pending = essentials (LineQueue.ofLines lines).pending
  rw [LineQueue.pending_ofLines, LineQueue.pending_ofLines, essentials_map, essentials_map, h]

end Scanner

/-! ### Assembling -/

/-- Lines are assembled to what their essential lines are assembled to. -/
theorem assembleLines_eq_of_essentialLines {load load' : Loader} (hload : load.Alike load')
    (opts : Options) {lines lines' : List (Located String)}
    (h : essentialLines lines' = essentialLines lines) :
    (assembleLines load' opts lines').result = (assembleLines load opts lines).result := by
  obtain ⟨read, hruns⟩ := Scanner.exists_runs_scanLines load opts lines
  obtain ⟨read', hruns'⟩ := hruns.of_alike hload (Scanner.alike_ofLines h)
  rw [result_assembleLines, result_assembleLines, hruns'.result_scanLines]

/-- Carriage returns at line ends change nothing, in the outermost file and in those it includes. -/
theorem assembleFile_withCarriageReturns (load : Loader) (opts : Options) (root : Path) :
    (assembleFile (fun path => (load path).map Text.withCarriageReturns) opts root).result =
      (assembleFile load opts root).result := by
  unfold assembleFile
  cases hroot : load root with
  | error reason => simp only [hroot, Except.map]
  | ok source =>
    simp only [hroot, Except.map]
    exact assembleLines_eq_of_essentialLines load.alike_withCarriageReturns opts
      (essentialLines_sourceLines (Text.sameLines_withCarriageReturns source) root.text)

/-- **How a source is laid out does not matter.** Lines that are the same, texts and locations, once
the blanks around them, blank lines and comments are taken away are assembled to the same image with
the same warnings, or are refused with the same error. In particular it does not matter whether
lines end in a line feed or in a carriage return and a line feed, be it in a text or in all files.
-/
theorem assembleLines_spacing (load : Loader) (opts : Options) :
    (∀ lines lines' : List (Located String), essentialLines lines = essentialLines lines' →
      (assembleLines load opts lines).result = (assembleLines load opts lines').result) ∧
    (∀ source : String, (assembleText load opts (Text.withCarriageReturns source)).result =
      (assembleText load opts source).result) ∧
    ∀ root : Path,
      (assembleFile (fun path => (load path).map Text.withCarriageReturns) opts root).result =
        (assembleFile load opts root).result := by
  refine ⟨?_, ?_, assembleFile_withCarriageReturns load opts⟩
  · intro lines lines' h
    exact assembleLines_eq_of_essentialLines (.refl load) opts h
  · intro source
    exact assembleLines_eq_of_essentialLines (.refl load) opts
      (essentialLines_sourceLines (Text.sameLines_withCarriageReturns source) inlineSource)

/-- A source with an include and without anything that could be left out. -/
def tightSource : List (Located String) :=
  [⟨⟨"m", 1⟩, "main:"⟩, ⟨⟨"m", 3⟩, "#include l"⟩, ⟨⟨"m", 6⟩, "jmpl f"⟩]

/-- The same source with room in it. -/
def looseSource : List (Located String) :=
  [⟨⟨"m", 1⟩, "  main: "⟩, ⟨⟨"m", 2⟩, "\t// first of all"⟩, ⟨⟨"m", 3⟩, "\t#include l\r"⟩,
    ⟨⟨"m", 4⟩, ""⟩, ⟨⟨"m", 5⟩, "   "⟩, ⟨⟨"m", 6⟩, " jmpl f\t"⟩, ⟨⟨"m", 7⟩, "//"⟩]

/-- The file that it includes. -/
def spacedFiles : Store := ({} : Store).insert "l" "f:\n\nhlt\n"

theorem looseSource_spacing :
    essentialLines looseSource = essentialLines tightSource ∧
    ((assembleLines spacedFiles.load {} tightSource).result.map fun a =>
      (a.image.code, a.warnings)).toOption =
        some ([0, 1, 0, 0, 0, 4, 0, 1, 0, 35, 0, 0],
          [⟨⟨"m", 3⟩, .missingIncludeGuard "l"⟩]) ∧
    (assembleLines spacedFiles.load {} looseSource).result =
      (assembleLines spacedFiles.load {} tightSource).result ∧
    Text.withCarriageReturns "main:\n\n//\nhlt" = "main:\r\n\r\n//\r\nhlt" ∧
    (assembleText spacedFiles.load {} (Text.withCarriageReturns "main:\n\n//\nhlt")).result =
      (assembleText spacedFiles.load {} "main:\n\n//\nhlt").result := by
  obtain ⟨hlines, htext, -⟩ := assembleLines_spacing spacedFiles.load {}
  have hessential : essentialLines looseSource = essentialLines tightSource := by decide +kernel
  exact ⟨hessential, by cbv, hlines _ _ hessential, by decide +kernel, htext _⟩

end StackAsm
