import StackAsm.Proofs.Extension

/-!
# StackAsm.Proofs.Guards

A guarded file enters the stream at most once.

At any time the registered tags are those of the guard lines that were read and those of the
guarded files that were pasted in (`Scanner.History.mem_guards_iff`). So an include of a guarded
file pastes it in if its tag turns up for the first time, and never after that
(`Scanner.History.pasted_once`). An include that is left out leaves no trace: a source in which a
guarded file is included again can do without the second include (`scanLines_reinclude`).
-/

namespace StackAsm

namespace Scanner

/-! ### The registered tags -/

variable {load : Loader} {opts : Options} {start s s' : Scanner} {hs : List Handled}
  {line : Located String} {tag : String}

/-- A handled line pastes in a file that starts with a guard line for `tag`. -/
def Handled.Pastes (h : Handled) (tag : String) : Prop :=
  ∃ path tag' text, h.effect? = some (.pasted path tag') ∧ h.load path = .ok text ∧
    Directive.fileTag? text = some tag

/-- A turn that pastes a file in is on a line that includes the file. -/
theorem Turn.includes_of_pasted {path : Path} {tag? : Option String}
    (turn : Turn load opts s line (.ok s'))
    (heffect : s.stream.nextEffect? load = some (.pasted path tag?)) :
    ∃ text, Includes load line path text ∧ Directive.fileTag? text = tag? := by
  obtain ⟨p, rest, -, rfl, hadvances⟩ := turn.advances
  rcases hadvances.exists_pending with ⟨-, hnot⟩ | ⟨path', text, heffect', hincludes, -⟩
  · exact absurd heffect (hnot path tag?)
  · obtain ⟨rfl, htag⟩ : path' = path ∧ Directive.fileTag? text = tag? := by
      simpa using heffect'.symm.trans heffect
    exact ⟨text, hincludes, htag⟩

/-- The tag of the file that is pasted in is the one that the effect tells of. -/
theorem Turn.pastes_iff (turn : Turn load opts s line (.ok s')) :
    (Handled.mk load s line s').Pastes tag ↔
      ∃ path, s.stream.nextEffect? load = some (.pasted path (some tag)) := by
  constructor
  · intro ⟨path, tag', text, heffect, hserved, htag⟩
    obtain ⟨text', hincludes, rfl⟩ := turn.includes_of_pasted heffect
    obtain rfl : text' = text := Except.ok.inj (hincludes.served.symm.trans hserved)
    exact ⟨path, htag ▸ heffect⟩
  · intro ⟨path, heffect⟩
    obtain ⟨text, hincludes, htag⟩ := turn.includes_of_pasted heffect
    exact ⟨path, some tag, text, heffect, hincludes.served, htag⟩

/-- The tags that a turn registers. -/
theorem Turn.mem_guards_iff (turn : Turn load opts s line (.ok s')) :
    tag ∈ s'.stream.guards ↔ tag ∈ s.stream.guards ∨ IsGuardLine line tag ∨
      (Handled.mk load s line s').Pastes tag := by
  obtain ⟨p, rest, -, rfl, hadvances⟩ := turn.advances
  rw [hadvances.mem_guards_iff, turn.pastes_iff]

/-- The registered tags are those of the guard lines read so far, and of the files pasted in. -/
theorem History.mem_guards_iff {lines : List (Located String)}
    (history : History opts (ofLines lines) hs s) :
    tag ∈ s.stream.guards ↔ ∃ h ∈ hs, IsGuardLine h.line tag ∨ h.Pastes tag := by
  induction history with
  | nil => simp [ofLines]
  | @snoc hs s s' load line _ turn ih =>
    rw [turn.mem_guards_iff, ih]
    simp only [List.mem_append, List.mem_singleton, or_and_right, exists_or, exists_eq_left]

/-- What an include of a guarded file does is decided by the tags that are registered. -/
theorem Turn.pastes_iff_not_mem {path : Path} {text : String}
    (turn : Turn load opts s line (.ok s')) (hincludes : Includes load line path text)
    (htag : Directive.fileTag? text = some tag) :
    (Handled.mk load s line s').Pastes tag ↔ tag ∉ s.stream.guards := by
  rw [turn.pastes_iff]
  obtain ⟨p, rest, -, rfl, hadvances⟩ := turn.advances
  generalize s.stream.nextEffect? load = effect at hadvances
  generalize s'.stream = stream at hadvances
  cases hadvances with
  | plain hline => exact absurd hincludes.directive hline
  | @registered tag' hguard => exact absurd hguard (hincludes.not_isGuardLine tag')
  | skipped hincludes' htag' hmem =>
    obtain ⟨rfl, rfl⟩ := hincludes.unique hincludes'
    obtain rfl := Option.some.inj (htag.symm.trans htag')
    simp [hmem]
  | pasted hincludes' hnew _ _ =>
    obtain ⟨rfl, rfl⟩ := hincludes.unique hincludes'
    simp [htag, hnew tag htag]

/-- A file is pasted in only if its tag is not registered. -/
theorem Turn.not_mem_of_pastes (turn : Turn load opts s line (.ok s'))
    (hpastes : (Handled.mk load s line s').Pastes tag) : tag ∉ s.stream.guards := by
  obtain ⟨path, heffect⟩ := turn.pastes_iff.mp hpastes
  obtain ⟨text, hincludes, htag⟩ := turn.includes_of_pasted heffect
  exact (turn.pastes_iff_not_mem hincludes htag).mp hpastes

/-- The lines to come after a turn are those that were behind, and in front of them the lines of a
file if one is pasted in. -/
theorem Turn.pending_after (turn : Turn load opts s line (.ok s')) :
    s'.stream.queue.pending = s.stream.queue.pending.tail ∨
      ∃ path text, s.stream.nextEffect? load = some (.pasted path (Directive.fileTag? text)) ∧
        Includes load line path text ∧ s'.stream.queue.pending.map Pending.line =
          (Inclusion.ofText path text).body ++ s.stream.queue.pending.tail.map Pending.line := by
  obtain ⟨p, rest, hpending, rfl, hadvances⟩ := turn.advances
  rw [hpending, List.tail_cons]
  rcases hadvances.exists_pending with
    ⟨hsame, -⟩ | ⟨path, text, heffect, hincludes, -, -, hmore⟩
  · exact .inl hsame
  · refine .inr ⟨path, text, heffect, hincludes, ?_⟩
    rw [hmore, List.map_append, List.map_map]
    exact congrArg (· ++ _) (List.map_id _)

/-- **A guarded file is pasted in at most once.** Lines get in front of those to come only where
an include pastes in the lines of its file. Once a file with some tag was pasted in, or a guard
line with that tag was read, wherever it stands, no file with the tag is pasted in any more,
however the includes are nested and whatever the loader serves from turn to turn. Until then the
first include of such a file does paste it in. -/
theorem History.pasted_once (opts : Options) (lines : List (Located String)) (hs : List Handled)
    (s : Scanner) (history : History opts (ofLines lines) hs s) (tag : String) :
    (∀ h ∈ hs, h.after.stream.queue.pending = h.before.stream.queue.pending.tail ∨
      ∃ path text, h.effect? = some (.pasted path (Directive.fileTag? text)) ∧
        Includes h.load h.line path text ∧ h.after.stream.queue.pending.map Pending.line =
          (Inclusion.ofText path text).body ++
            h.before.stream.queue.pending.tail.map Pending.line) ∧
    (hs.Pairwise fun earlier later =>
      earlier.Pastes tag ∨ IsGuardLine earlier.line tag → ¬ later.Pastes tag) ∧
    ∀ before h after path text, hs = before ++ h :: after → Includes h.load h.line path text →
      Directive.fileTag? text = some tag →
      (∀ x ∈ before, ¬ x.Pastes tag ∧ ¬ IsGuardLine x.line tag) → h.Pastes tag := by
  refine ⟨?_, ?_, ?_⟩
  · intro h hh
    obtain ⟨before, after, rfl⟩ := List.append_of_mem hh
    exact history.split.2.pending_after
  · induction history with
    | nil => exact .nil
    | @snoc hs s s' load line rest turn ih =>
      refine List.pairwise_append.mpr ⟨ih, List.pairwise_singleton _ _, ?_⟩
      intro earlier hearlier later hlater hseen hpastes
      obtain rfl := List.mem_singleton.mp hlater
      -- what the earlier turn registered is still there
      exact turn.not_mem_of_pastes hpastes
        (rest.mem_guards_iff.mpr ⟨earlier, hearlier, hseen.symm⟩)
  · intro before h after path text hsplit hincludes htag hnew
    subst hsplit
    obtain ⟨hbefore, turn⟩ := history.split
    refine (turn.pastes_iff_not_mem hincludes htag).mpr ?_
    intro hmem
    obtain ⟨x, hx, hguard | hpastes⟩ := hbefore.mem_guards_iff.mp hmem
    · exact (hnew x hx).2 hguard
    · exact (hnew x hx).1 hpastes

/-- A guarded file that includes another one twice. -/
def mutualSource : String := "#ID a\nmain:\n#include b\n#include \"b\"\nhlt"

/-- The file, and the other one, which is guarded and includes the first. -/
def mutualFiles : Store :=
  (({} : Store).insert "b" "#ID b\nnop\n#include a").insert "a" mutualSource

/-- All turns of the first pass over them. -/
def mutualTurns : List Handled :=
  turns mutualFiles.load {} 8 (ofLines (sourceLines "a" mutualSource))

theorem mutualTurns_pasted_once :
    (∃ s, History {} (ofLines (sourceLines "a" mutualSource)) mutualTurns s) ∧
    mutualTurns.map Handled.effect? = [some (.registered "a"), none,
      some (.pasted "b" (some "b")), none, some (.skipped "a"), some (.skipped "b"), none] ∧
    mutualTurns.Pairwise fun earlier later =>
      earlier.Pastes "b" ∨ IsGuardLine earlier.line "b" → ¬ later.Pastes "b" := by
  obtain ⟨s, history⟩ := exists_history_turns mutualFiles.load {} 8
    (ofLines (sourceLines "a" mutualSource))
  exact ⟨⟨s, history⟩, by decide +kernel, (History.pasted_once {} _ mutualTurns s history "b").2.1⟩

end Scanner

/-! ### Including a guarded file again -/

/-- What an include reads. -/
theorem Includes.read_eq {load : Loader} {line : Located String} {path : Path} {text : String}
    (h : Includes load line path text) :
    Inclusion.read load line.loc.file (Directive.split line.val).2 = .ok (.ofText path text) := by
  have hwanted := h.wanted
  unfold Directive.wanted? at hwanted
  simp only at hwanted
  split at hwanted
  · rename_i hname
    obtain rfl := Option.some.inj hwanted
    simp [Inclusion.read, hname.2, h.served, Inclusion.ofText]
  · cases hwanted

/-- An include of a file whose tag is registered leaves the stream as it is. -/
theorem Stream.directive_of_known {load : Loader} {line : Located String} {path : Path}
    {text tag : String} {s : Stream} (h : Includes load line path text)
    (htag : Directive.fileTag? text = some tag) (hmem : tag ∈ s.guards) :
    s.directive load line = (s, .ok (.skipped path)) := by
  have hknown : (Inclusion.ofText path text).isKnown s.guards = true :=
    Inclusion.isKnown_ofText_iff.mpr ⟨tag, htag, hmem⟩
  unfold directive
  simp only
  rw [if_pos h.name, h.read_eq]
  simp only
  rw [accept_eq, if_pos hknown, Inclusion.path_ofText]

namespace Scanner

variable {load : Loader} {opts : Options} {start s : Scanner} {hs : List Handled} {p : Pending}
  {path : Path} {text tag : String}

/-- It leaves the rest of the scanner as it is, too. -/
theorem result_directive_of_known {line : Located String} (h : Includes load line path text)
    (htag : Directive.fileTag? text = some tag) (hmem : tag ∈ s.stream.guards) :
    (s.directive load line).result = .ok s := by
  unfold directive
  rw [Stream.directive_of_known h htag hmem]
  simp [warn, Effect.warning?, Except.bind]

/-- So a run may begin with it. -/
theorem Runs.cons_known {rest : List Pending} {read : List (Located String)}
    {r : Except AssemblyError Scan} (hempty : s.stream.queue.pending = [])
    (h : Includes load p.line path text) (htag : Directive.fileTag? text = some tag)
    (hmem : tag ∈ s.stream.guards) (hrest : Runs load opts (s.extend rest) read r) :
    Runs load opts (s.extend (p :: rest)) (p.line :: read) r := by
  have hpending : (s.extend (p :: rest)).stream.queue.pending = p :: rest := by
    show s.stream.queue.pending ++ p :: rest = _
    rw [hempty, List.nil_append]
  have hstep : (({ s with stream := ⟨⟨rest, p.includers⟩, s.stream.guards⟩ } : Scanner).step
      load opts p.line).result =
        .ok { s with stream := ⟨⟨rest, p.includers⟩, s.stream.guards⟩ } := by
    rw [result_step_directive h.directive]
    exact result_directive_of_known h htag hmem
  refine .next (hstep ▸ turn_of_pending hpending) ?_
  rw [extend, Stream.extend, hempty] at hrest
  exact hrest.of_includers

/-- By the time an include of a guarded file has left the queue, its tag is registered. -/
theorem History.mem_guards_of_includes (history : History opts start hs s)
    (hload : ∀ x ∈ hs, x.load = load) (hp : p ∈ start.stream.queue.pending)
    (h : Includes load p.line path text) (htag : Directive.fileTag? text = some tag) :
    tag ∈ s.stream.guards ∨ p ∈ s.stream.queue.pending := by
  induction history with
  | nil => exact .inr hp
  | @snoc hs s s' load' line _ turn ih =>
    obtain rfl : load' = load := hload ⟨load', s, line, s'⟩ (by simp)
    obtain ⟨q, rest, hpending, rfl, hadvances⟩ := turn.advances
    rcases ih fun x hx => hload x (by simp [hx]) with hmem | hlater
    · exact .inl (hadvances.mem_guards_iff.mpr (.inl hmem))
    · rw [hpending] at hlater
      rcases List.mem_cons.mp hlater with rfl | hrest
      · exact .inl (hadvances.mem_guards_of_includes h htag)
      · right
        rcases hadvances.exists_pending with ⟨hsame, -⟩ | ⟨_, _, -, -, -, -, hmore⟩
        · exact hsame ▸ hrest
        · exact hmore ▸ List.mem_append_right _ hrest

end Scanner

/-- **Including a guarded file again changes nothing.** If two include directives name files that
can be read and start with guard lines for the same tag, then a source with both of them, and any
lines before, between and behind them, is scanned with the same result as the source without the
second. -/
theorem scanLines_reinclude (load : Loader) (opts : Options)
    (before between after : List (Located String)) (first second : Located String)
    (path₁ path₂ : Path) (text₁ text₂ tag : String)
    (h₁ : Includes load first path₁ text₁) (h₂ : Includes load second path₂ text₂)
    (htag₁ : Directive.fileTag? text₁ = some tag) (htag₂ : Directive.fileTag? text₂ = some tag) :
    (scanLines load opts (before ++ [first] ++ between ++ [second] ++ after)).result =
      (scanLines load opts (before ++ [first] ++ between ++ after)).result := by
  let front := before ++ [first] ++ between
  let behind : List Pending := after.map fun line => ⟨line, []⟩
  have hlong : Scanner.ofLines (front ++ [second] ++ after) =
      (Scanner.ofLines front).extend (⟨second, []⟩ :: behind) := by
    rw [List.append_assoc, Scanner.ofLines_append]
    rfl
  have hshort : Scanner.ofLines (front ++ after) = (Scanner.ofLines front).extend behind :=
    Scanner.ofLines_append front after
  suffices ∃ read₁ read₂ r,
      Scanner.Runs load opts (Scanner.ofLines (front ++ [second] ++ after)) read₁ r ∧
        Scanner.Runs load opts (Scanner.ofLines (front ++ after)) read₂ r by
    obtain ⟨read₁, read₂, r, hruns₁, hruns₂⟩ := this
    exact hruns₁.result_scanLines.trans hruns₂.result_scanLines.symm
  rw [hlong, hshort]
  obtain ⟨read, hfront⟩ := Scanner.exists_runs_scanLines load opts front
  obtain ⟨hs, s, history, hload, ⟨hend, -⟩ | ⟨line, e, refused, -⟩⟩ := hfront.exists_history
  · have hempty : s.stream.queue.pending = [] := Scanner.next?_eq_none_iff.mp hend
    have hfirst : (⟨first, []⟩ : Pending) ∈ (Scanner.ofLines front).stream.queue.pending := by
      show _ ∈ (LineQueue.ofLines front).pending
      simp [LineQueue.pending_ofLines, front]
    have hmem : tag ∈ s.stream.guards := by
      rcases history.mem_guards_of_includes hload hfirst h₁ htag₁ with hmem | hlater
      · exact hmem
      · simp [hempty] at hlater
    obtain ⟨read', r, hrest⟩ := Scanner.exists_runs load opts (s.extend behind)
    have hskip : Scanner.Runs load opts (s.extend (⟨second, []⟩ :: behind)) (second :: read') r :=
      hrest.cons_known hempty h₂ htag₂ hmem
    exact ⟨_, _, r, history.runs_extend hload _ hskip, history.runs_extend hload _ hrest⟩
  · -- a line in front is refused, so that the others are never read
    exact ⟨_, _, .error e, history.runs_extend hload _ (.refused (refused.extend _)),
      history.runs_extend hload _ (.refused (refused.extend _))⟩

/-- Two files that share a tag, the first of which includes a third one. -/
def sharedTag : Store :=
  ((({} : Store).insert "b" "#ID t\nnop\n#include d/e").insert "d/e" "hlt").insert "c"
    "  #ID\tt \nbogus"

/-- A source that includes both. -/
def sharedTagSource : List (Located String) :=
  sourceLines "a" "main:\n#include b\nsl 1\n#include \"c\"\nhlt"

/-- The same without the second include; the lines stand where they stood. -/
def sharedTagOnce : List (Located String) := sharedTagSource.eraseIdx 3

theorem sharedTag_reinclude :
    ((scanLines sharedTag.load {} sharedTagOnce).result.map fun scan =>
      scan.segments.size).toOption = some 4 ∧
    (scanLines sharedTag.load {} sharedTagSource).result =
      (scanLines sharedTag.load {} sharedTagOnce).result := by
  have hb : Includes sharedTag.load ⟨⟨"a", 2⟩, "#include b"⟩ "b"
      "#ID t\nnop\n#include d/e" := ⟨by decide +kernel, by decide +kernel, by cbv⟩
  have hc : Includes sharedTag.load ⟨⟨"a", 4⟩, "#include \"c\""⟩ "c"
      "  #ID\tt \nbogus" := ⟨by decide +kernel, by decide +kernel, by cbv⟩
  have hsource : sharedTagSource = [⟨⟨"a", 1⟩, "main:"⟩] ++ [⟨⟨"a", 2⟩, "#include b"⟩] ++
      [⟨⟨"a", 3⟩, "sl 1"⟩] ++ [⟨⟨"a", 4⟩, "#include \"c\""⟩] ++ [⟨⟨"a", 5⟩, "hlt"⟩] := by
    decide +kernel
  refine ⟨by cbv, ?_⟩
  rw [sharedTagOnce, hsource]
  exact scanLines_reinclude sharedTag.load {} _ _ _ _ _ _ _ _ _ "t" hb hc (by decide +kernel)
    (by decide +kernel)

end StackAsm
