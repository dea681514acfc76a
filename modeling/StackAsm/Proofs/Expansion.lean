import StackAsm.Proofs.Run
import StackAsm.Proofs.Step

/-!
# StackAsm.Proofs.Expansion

Including a file means pasting it in.

The scanner reads one flat queue, puts the lines of an included file at its front, and lets every
line carry the files whose includes led to it. `expand` says what this is to mean: a recursion over
nested files that takes lines from left to right, hands the set of guards from each line to the
next, and gives the list of lines that is left when all directives are carried out.

`expandQueue` is the expansion of a queue in the middle of a run. A directive changes the queue and
the guards but not their expansion (`expandQueue_directive`), and any other line is the first line
of it (`expandQueue_plain`). So the run goes through the lines of the expansion, and
`scanLines_eq_scanLines_expand` compares it with the run over these lines alone.
-/

namespace StackAsm

/-! ### Expansion -/

/-- What lines become when the files they include are pasted in. -/
structure Expansion where
  /-- The lines that are left, up to the directive that is refused, if one is. -/
  lines : List (Located String)
  /-- The guards in the end, or why a directive is refused. -/
  outcome : Except (Located DirectiveError) (Std.TreeSet String)

namespace Expansion

/-- An expansion that ends at once, because a directive is refused. -/
def refused (loc : Location) (e : DirectiveError) : Expansion := ⟨[], .error ⟨loc, e⟩⟩

/-- An expansion and then, with the guards it leaves, another. -/
def andThen (x : Expansion) (next : Std.TreeSet String → Expansion) : Expansion :=
  match x.outcome with
  | .error e => ⟨x.lines, .error e⟩
  | .ok guards => ⟨x.lines ++ (next guards).lines, (next guards).outcome⟩

theorem refused_andThen (loc : Location) (e : DirectiveError)
    (next : Std.TreeSet String → Expansion) : (refused loc e).andThen next = refused loc e := rfl

theorem nil_andThen (guards : Std.TreeSet String) (next : Std.TreeSet String → Expansion) :
    (⟨[], .ok guards⟩ : Expansion).andThen next = next guards := rfl

theorem andThen_nil (x : Expansion) : x.andThen (fun guards => ⟨[], .ok guards⟩) = x := by
  obtain ⟨lines, outcome⟩ := x
  cases outcome <;> simp [andThen]

theorem andThen_assoc (x : Expansion) (f g : Std.TreeSet String → Expansion) :
    (x.andThen f).andThen g = x.andThen fun guards => (f guards).andThen g := by
  obtain ⟨lines, outcome⟩ := x
  cases outcome with
  | error e => rfl
  | ok guards =>
    simp only [andThen]
    cases (f guards).outcome <;> simp

end Expansion

namespace Inclusion

/-- Whether the guards say that a file was pasted in before. -/
def isKnown (inc : Inclusion) (guards : Std.TreeSet String) : Bool :=
  inc.tag.any guards.contains

/-- The guards with the tag of a file. -/
def register (inc : Inclusion) (guards : Std.TreeSet String) : Std.TreeSet String :=
  match inc.tag with
  | none => guards
  | some tag => guards.insert tag

end Inclusion

/-- Whether a line is left in an expansion. -/
def isPlain (line : Located String) : Bool := Line.classify line.val ≠ .directive

/-- What a directive asks for. -/
inductive Demand where
  /-- To go on with the next line. -/
  | proceed (guards : Std.TreeSet String)
  /-- To go on with the lines of a file. -/
  | paste (guards : Std.TreeSet String) (body : List (Located String))

-- Irreducible, so that a match on a demand never starts to evaluate the text of the line.
/-- What the directive on a line below the files of `chain` asks for. -/
@[irreducible] def demand (load : Loader) (chain : List Path) (guards : Std.TreeSet String)
    (line : Located String) : Except DirectiveError Demand :=
  let (name, argument) := Directive.split line.val
  if name = "include" then
    match Inclusion.read load line.loc.file argument with
    | .error e => .error e
    | .ok inc =>
      if inc.isKnown guards then .ok (.proceed guards)
      else if (chain ++ [Path.ofText line.loc.file]).any (·.same inc.path) then
        .error (.includeCycle inc.path)
      else if maxIncludeDepth ≤ chain.length + 1 then .error (.includeTooDeep inc.path)
      else .ok (.paste (inc.register guards) inc.body)
  else if name = "ID" then .ok (.proceed (guards.insert argument))
  else .error (.unknownDirective name)

/-- Files are pasted in only where one more may be open. -/
theorem length_lt_of_demand_paste {load : Loader} {chain : List Path}
    {guards guards' : Std.TreeSet String} {line : Located String} {body : List (Located String)}
    (h : demand load chain guards line = .ok (.paste guards' body)) :
    chain.length + 1 < maxIncludeDepth := by
  unfold demand at h
  simp only at h
  split at h
  · split at h
    · cases h
    · split at h
      · cases h
      · split at h
        · cases h
        · split at h
          · cases h
          · omega
  · split at h <;> cases h

/-- The expansion of lines that stand below the files of `chain`, the outermost first. -/
def expand (load : Loader) (chain : List Path) (guards : Std.TreeSet String) :
    List (Located String) → Expansion
  | [] => ⟨[], .ok guards⟩
  | line :: rest =>
    if Line.classify line.val = .directive then
      match _hdemand : demand load chain guards line with
      | .error e => .refused line.loc e
      | .ok (.proceed guards) => expand load chain guards rest
      | .ok (.paste guards body) =>
        (expand load (chain ++ [.ofText line.loc.file]) guards body).andThen fun guards =>
          expand load chain guards rest
    else (⟨[line], .ok guards⟩ : Expansion).andThen fun guards => expand load chain guards rest
termination_by lines => (maxIncludeDepth - chain.length, lines.length)
decreasing_by
  · exact .right _ (by simp)
  · have := length_lt_of_demand_paste _hdemand
    simp only [List.length_append, List.length_singleton]
    exact .left _ _ (by omega)
  · exact .right _ (by simp)
  · exact .right _ (by simp)

section

variable {load : Loader} {chain : List Path} {guards : Std.TreeSet String} {line : Located String}

theorem expand_plain (hline : Line.classify line.val ≠ .directive) (rest : List (Located String)) :
    expand load chain guards (line :: rest) =
      (⟨[line], .ok guards⟩ : Expansion).andThen fun guards => expand load chain guards rest := by
  rw [expand, if_neg hline]

theorem expand_refused (hline : Line.classify line.val = .directive) {e : DirectiveError}
    (hdemand : demand load chain guards line = .error e) (rest : List (Located String)) :
    expand load chain guards (line :: rest) = .refused line.loc e := by
  rw [expand, if_pos hline]
  split <;> simp_all

theorem expand_proceed (hline : Line.classify line.val = .directive)
    {guards' : Std.TreeSet String}
    (hdemand : demand load chain guards line = .ok (.proceed guards'))
    (rest : List (Located String)) :
    expand load chain guards (line :: rest) = expand load chain guards' rest := by
  rw [expand, if_pos hline]
  split <;> simp_all

theorem expand_paste (hline : Line.classify line.val = .directive)
    {guards' : Std.TreeSet String} {body : List (Located String)}
    (hdemand : demand load chain guards line = .ok (.paste guards' body))
    (rest : List (Located String)) :
    expand load chain guards (line :: rest) =
      (expand load (chain ++ [.ofText line.loc.file]) guards' body).andThen fun guards =>
        expand load chain guards rest := by
  rw [expand, if_pos hline]
  split <;> simp_all

@[simp] theorem expand_nil : expand load chain guards [] = ⟨[], .ok guards⟩ := by
  rw [expand]

/-- The lines of an expansion come one after another. -/
theorem expand_cons (rest : List (Located String)) :
    expand load chain guards (line :: rest) =
      (expand load chain guards [line]).andThen fun guards => expand load chain guards rest := by
  by_cases hline : Line.classify line.val = .directive
  · cases hdemand : demand load chain guards line with
    | error e =>
      rw [expand_refused hline hdemand, expand_refused hline hdemand, Expansion.refused_andThen]
    | ok asked =>
      cases asked with
      | proceed guards' =>
        rw [expand_proceed hline hdemand, expand_proceed hline hdemand, expand_nil]
        rfl
      | paste guards' body =>
        rw [expand_paste hline hdemand, expand_paste hline hdemand, Expansion.andThen_assoc]
        simp only [expand_nil, Expansion.nil_andThen]
  · rw [expand_plain hline, expand_plain hline, Expansion.andThen_assoc]
    simp only [expand_nil, Expansion.nil_andThen]

end

theorem Expansion.mem_lines_andThen {x : Expansion} {next : Std.TreeSet String → Expansion}
    {line : Located String} (h : line ∈ (x.andThen next).lines) :
    line ∈ x.lines ∨ ∃ guards, line ∈ (next guards).lines := by
  obtain ⟨lines, outcome⟩ := x
  cases outcome with
  | error e => exact .inl h
  | ok guards =>
    rcases List.mem_append.mp h with hx | hnext
    · exact .inl hx
    · exact .inr ⟨guards, hnext⟩

/-- No directive is left in an expansion. -/
theorem classify_of_mem_expand (load : Loader) (chain : List Path) (guards : Std.TreeSet String)
    (lines : List (Located String)) :
    ∀ line ∈ (expand load chain guards lines).lines, Line.classify line.val ≠ .directive := by
  induction chain, guards, lines using expand.induct load with
  | case1 chain guards => simp
  | case2 chain guards line rest hline e hdemand =>
    rw [expand_refused hline hdemand]
    simp [Expansion.refused]
  | case3 chain guards line rest hline guards' hdemand ih =>
    rw [expand_proceed hline hdemand]
    exact ih
  | case4 chain guards line rest hline guards' body hdemand ihBody ihRest =>
    rw [expand_paste hline hdemand]
    intro l hl
    rcases Expansion.mem_lines_andThen hl with hbody | ⟨guards'', hrest⟩
    · exact ihBody l hbody
    · exact ihRest guards'' l hrest
  | case5 chain guards line rest hline ih =>
    rw [expand_plain hline]
    intro l hl
    rcases Expansion.mem_lines_andThen hl with hfirst | ⟨guards', hrest⟩
    · obtain rfl : l = line := by simpa using hfirst
      exact hline
    · exact ih guards' l hrest

/-! ### The expansion of a queue -/

/-- The expansion of the lines in a queue, each below its own include chain. -/
def expandQueue (load : Loader) (guards : Std.TreeSet String) : List Pending → Expansion
  | [] => ⟨[], .ok guards⟩
  | p :: rest =>
    (expand load p.includers guards [p.line]).andThen fun guards => expandQueue load guards rest

/-- Lines at the front of a queue are expanded before the others. -/
theorem expandQueue_splice (load : Loader) (chain : List Path) (lines : List (Located String))
    (rest : List Pending) (guards : Std.TreeSet String) :
    expandQueue load guards (lines.map (fun line => ⟨line, chain⟩) ++ rest) =
      (expand load chain guards lines).andThen fun guards => expandQueue load guards rest := by
  induction lines generalizing guards with
  | nil => rw [expand_nil]; rfl
  | cons line lines ih =>
    rw [expand_cons, Expansion.andThen_assoc]
    simp only [List.map_cons, List.cons_append, expandQueue, ih]

/-- The lines of an outermost file in the queue are expanded as they stand. -/
theorem expandQueue_ofLines (load : Loader) (lines : List (Located String)) :
    expandQueue load ∅ (LineQueue.ofLines lines).pending = expand load [] ∅ lines := by
  rw [LineQueue.pending_ofLines]
  simpa [expandQueue, Expansion.andThen_nil] using expandQueue_splice load [] lines [] ∅

/-- A line that is no directive is the first line of the expansion of its queue. -/
theorem expandQueue_plain {load : Loader} {guards : Std.TreeSet String} {p : Pending}
    (hline : Line.classify p.line.val ≠ .directive) (rest : List Pending) :
    expandQueue load guards (p :: rest) =
      ⟨p.line :: (expandQueue load guards rest).lines, (expandQueue load guards rest).outcome⟩ := by
  simp only [expandQueue, expand_plain hline, expand_nil, Expansion.andThen, List.append_nil,
    List.singleton_append]

namespace Stream

/-- A file whose tag is known is left out; the tag of any other is registered first. -/
theorem accept_eq (s : Stream) (file : String) (inc : Inclusion) :
    s.accept file inc =
      if inc.isKnown s.guards then (s, .ok (.skipped inc.path))
      else ({ s with guards := inc.register s.guards } : Stream).paste file inc := by
  rw [accept_eq_match, Inclusion.isKnown, Inclusion.register]
  cases inc.tag with
  | none => rfl
  | some tag => rfl

/-- What a directive does is what it asks for. -/
theorem directive_eq (load : Loader) (line : Located String) (s : Stream) :
    match demand load s.queue.includers s.guards line with
    | .error e => (s.directive load line).2 = .error e
    | .ok (.proceed guards) => ∃ effect, s.directive load line = ({ s with guards }, .ok effect)
    | .ok (.paste guards body) =>
      ∃ effect, s.directive load line =
        (⟨s.queue.splice body (s.queue.includers ++ [.ofText line.loc.file]), guards⟩,
          .ok effect) := by
  unfold demand directive
  obtain ⟨name, argument⟩ := Directive.split line.val
  simp only
  by_cases hinclude : name = "include"
  · rw [if_pos hinclude, if_pos hinclude]
    cases hread : Inclusion.read load line.loc.file argument with
    | error e => rfl
    | ok inc =>
      simp only
      rw [accept_eq]
      by_cases hknown : inc.isKnown s.guards = true
      · rw [if_pos hknown, if_pos hknown]
        exact ⟨_, rfl⟩
      · rw [if_neg hknown, if_neg hknown]
        unfold paste chain
        by_cases hcycle :
            (s.queue.includers ++ [Path.ofText line.loc.file]).any (·.same inc.path) = true
        · rw [if_pos hcycle, if_pos hcycle]
        · rw [if_neg hcycle, if_neg hcycle, List.length_append, List.length_singleton]
          by_cases hdepth : maxIncludeDepth ≤ s.queue.includers.length + 1
          · rw [if_pos hdepth, if_pos hdepth]
          · rw [if_neg hdepth, if_neg hdepth]
            exact ⟨_, rfl⟩
  · rw [if_neg hinclude, if_neg hinclude]
    by_cases hguard : name = "ID"
    · rw [if_pos hguard, if_pos hguard]
      exact ⟨_, rfl⟩
    · rw [if_neg hguard, if_neg hguard]

end Stream

/-- A directive that is refused ends the expansion of its queue. -/
theorem expandQueue_refused {load : Loader} {p : Pending} {rest : List Pending}
    {guards : Std.TreeSet String} {e : DirectiveError}
    (hline : Line.classify p.line.val = .directive)
    (h : ((⟨⟨rest, p.includers⟩, guards⟩ : Stream).directive load p.line).2 = .error e) :
    expandQueue load guards (p :: rest) = .refused p.line.loc e := by
  have hasked := Stream.directive_eq load p.line ⟨⟨rest, p.includers⟩, guards⟩
  cases hdemand : demand load p.includers guards p.line with
  | error e' =>
    simp only [hdemand] at hasked
    obtain rfl : e' = e := Except.error.inj (hasked.symm.trans h)
    rw [expandQueue, expand_refused hline hdemand, Expansion.refused_andThen]
  | ok asked =>
    cases asked with
    | proceed guards' =>
      simp only [hdemand] at hasked
      obtain ⟨effect, heffect⟩ := hasked
      rw [heffect] at h
      cases h
    | paste guards' body =>
      simp only [hdemand] at hasked
      obtain ⟨effect, heffect⟩ := hasked
      rw [heffect] at h
      cases h

/-- A directive that is carried out leaves the expansion of its queue as it was. -/
theorem expandQueue_directive {load : Loader} {p : Pending} {rest : List Pending}
    {guards : Std.TreeSet String} {s' : Stream} {effect : Effect}
    (hline : Line.classify p.line.val = .directive)
    (h : (⟨⟨rest, p.includers⟩, guards⟩ : Stream).directive load p.line = (s', .ok effect)) :
    expandQueue load guards (p :: rest) = expandQueue load s'.guards s'.queue.pending := by
  have hasked := Stream.directive_eq load p.line ⟨⟨rest, p.includers⟩, guards⟩
  cases hdemand : demand load p.includers guards p.line with
  | error e =>
    simp only [hdemand] at hasked
    rw [h] at hasked
    cases hasked
  | ok asked =>
    cases asked with
    | proceed guards' =>
      simp only [hdemand] at hasked
      obtain ⟨effect', heffect⟩ := hasked
      cases h.symm.trans heffect
      rw [expandQueue, expand_proceed hline hdemand, expand_nil]
      rfl
    | paste guards' body =>
      simp only [hdemand] at hasked
      obtain ⟨effect', heffect⟩ := hasked
      cases h.symm.trans heffect
      rw [expandQueue, expand_paste hline hdemand, Expansion.andThen_assoc]
      simp only [expand_nil, Expansion.nil_andThen]
      exact (expandQueue_splice load _ body rest guards').symm

/-! ### Runs over a queue and over its expansion -/

namespace Scanner

variable {load : Loader} {opts : Options}

/-- All that a directive adds to the scan is a remark on a file without a guard line. -/
theorem onto_of_directive {s s' : Scanner} {line : Located String}
    (h : (s.directive load line).result = .ok s') (stream : Stream) :
    s'.onto stream = s.onto stream := by
  unfold directive at h
  split at h
  · cases h
  · rename_i stream' effect _
    simp only [Traced.result_bind, Traced.result_report, Traced.result_pure, Except.bind,
      Except.ok.injEq] at h
    rw [← h, onto_warn_guardRemarks]
    · rfl
    · intro w hw
      cases effect with
      | registered tag => cases hw
      | skipped path => cases hw
      | pasted path tag =>
        cases tag with
        | none =>
          obtain rfl : w = .missingIncludeGuard path := by simpa [Effect.warning?] using hw
          rfl
        | some tag => cases hw

/-- Handling a directive comes down to carrying it out on the stream. -/
theorem result_step_directive {line : Located String}
    (hline : Line.classify line.val = .directive) (s : Scanner) :
    s.step load opts line = s.directive load line := by
  unfold step
  rw [hline]

theorem result_directive_eq_error {s : Scanner} {line : Located String} {e : AssemblyError}
    (h : (s.directive load line).result = .error e) :
    ∃ cause, e = .directive ⟨line.loc, cause⟩ ∧
      (s.stream.directive load line).2 = .error cause := by
  unfold directive at h
  split at h
  · rename_i stream' cause hdirective
    cases h
    exact ⟨cause, rfl, by rw [hdirective]⟩
  · cases h

theorem result_directive_eq_ok {s s' : Scanner} {line : Located String}
    (h : (s.directive load line).result = .ok s') :
    ∃ effect, s.stream.directive load line = (s'.stream, .ok effect) := by
  unfold directive at h
  split at h
  · cases h
  · rename_i stream' effect hdirective
    cases h
    exact ⟨effect, hdirective⟩

/-- A line that is no directive makes the same turn on any stream that it is the first line of. -/
theorem turn_onto {other : Loader} {s : Scanner} {p : Pending} {rest : List Pending}
    {r : Except AssemblyError Scanner} (hline : Line.classify p.line.val ≠ .directive)
    (hstep : (({ s with stream := ⟨⟨rest, p.includers⟩, s.stream.guards⟩ } : Scanner).step
      load opts p.line).result = r) {flat : Stream} {q : Pending} {flatRest : List Pending}
    (hflat : flat.queue.pending = q :: flatRest) (hq : q.line = p.line) :
    Turn other opts (s.onto flat) p.line
      (r.map (onto ⟨⟨flatRest, q.includers⟩, flat.guards⟩)) := by
  have turn : Turn other opts (s.onto flat) q.line _ :=
    turn_of_pending (show (s.onto flat).stream.queue.pending = q :: flatRest from hflat)
  rw [hq] at turn
  rw [← hstep, ← result_step_onto hline load other]
  exact turn

/-- A run over a queue goes with a run over the lines of its expansion: that one reads the lines
that are no directives, and ends in the same error, or in the same scan unless the expansion is
refused. -/
theorem Runs.exists_flat {other : Loader} {s : Scanner} {read : List (Located String)}
    {r : Except AssemblyError Scan} (h : Runs load opts s read r) {flat : Stream}
    (hflat : flat.queue.pending.map Pending.line =
      (expandQueue load s.stream.guards s.stream.queue.pending).lines) :
    ∃ r', Runs other opts (s.onto flat) (read.filter isPlain) r' ∧
      r.map Scan.withoutGuardRemarks = r'.bind fun scan =>
        ((expandQueue load s.stream.guards s.stream.queue.pending).outcome.mapError
          AssemblyError.directive).map fun _ => scan := by
  induction h generalizing flat with
  | @done s hnext =>
    rw [next?_eq_none_iff.mp hnext] at hflat ⊢
    have hempty : flat.queue.pending = [] := by simpa [expandQueue] using hflat
    exact ⟨_, .done (next?_eq_none_iff.mpr hempty), rfl⟩
  | @refused s line e turn =>
    obtain ⟨p, rest, hpending, rfl, hstep⟩ := turn.exists_pending
    rw [hpending] at hflat ⊢
    by_cases hline : Line.classify p.line.val = .directive
    · -- The expansion ends here as well, so that the other run has read all of it.
      rw [result_step_directive hline] at hstep
      obtain ⟨cause, rfl, hcause⟩ := result_directive_eq_error hstep
      rw [expandQueue_refused hline hcause] at hflat ⊢
      have hempty : flat.queue.pending = [] := by simpa [Expansion.refused] using hflat
      rw [List.filter_cons_of_neg (by simp [isPlain, hline])]
      exact ⟨_, .done (next?_eq_none_iff.mpr hempty), rfl⟩
    · rw [expandQueue_plain hline] at hflat
      obtain ⟨q, flatRest, hcons, hq, -⟩ := List.map_eq_cons_iff.mp hflat
      rw [List.filter_cons_of_pos (by simp [isPlain, hline])]
      exact ⟨_, .refused (turn_onto hline hstep hcons hq), rfl⟩
  | @next s s' line read r turn hrest ih =>
    obtain ⟨p, rest, hpending, rfl, hstep⟩ := turn.exists_pending
    rw [hpending] at hflat ⊢
    by_cases hline : Line.classify p.line.val = .directive
    · -- The queue changes, but its expansion does not, so the other run stays where it is.
      rw [result_step_directive hline] at hstep
      obtain ⟨effect, heffect⟩ := result_directive_eq_ok hstep
      rw [expandQueue_directive hline heffect] at hflat ⊢
      rw [List.filter_cons_of_neg (by simp [isPlain, hline])]
      obtain ⟨r', hruns, hr⟩ := ih hflat
      exact ⟨r', onto_of_directive hstep flat ▸ hruns, hr⟩
    · -- Both runs make the same turn, and the expansion loses its first line.
      have hstream : s'.stream = ⟨⟨rest, p.includers⟩, s.stream.guards⟩ :=
        stream_of_step_plain hline hstep
      rw [expandQueue_plain hline] at hflat ⊢
      obtain ⟨q, flatRest, hcons, hq, hflatRest⟩ := List.map_eq_cons_iff.mp hflat
      rw [List.filter_cons_of_pos (by simp [isPlain, hline])]
      obtain ⟨r', hruns, hr⟩ := @ih ⟨⟨flatRest, q.includers⟩, flat.guards⟩
        (by rw [hstream]; exact hflatRest)
      rw [hstream] at hr
      exact ⟨r', .next (turn_onto hline hstep hcons hq) hruns, hr⟩

/-- A run over lines without directives reads them from the first on, and all of them unless one is
refused. -/
theorem Runs.of_plain {s : Scanner} {read : List (Located String)}
    {r : Except AssemblyError Scan} (h : Runs load opts s read r)
    (hplain : ∀ p ∈ s.stream.queue.pending, Line.classify p.line.val ≠ .directive) :
    read <+: s.stream.queue.pending.map Pending.line ∧
      ((∀ cause, r ≠ .error (.scan cause)) → read = s.stream.queue.pending.map Pending.line) := by
  induction h with
  | done hnext => simp [next?_eq_none_iff.mp hnext]
  | refused turn =>
    obtain ⟨p, rest, hpending, rfl, hstep⟩ := turn.exists_pending
    rw [hpending] at hplain ⊢
    obtain ⟨cause, rfl⟩ := error_of_step_plain (hplain p (by simp)) hstep
    exact ⟨by simp, fun hr => absurd rfl (hr _)⟩
  | next turn _ ih =>
    obtain ⟨p, rest, hpending, rfl, hstep⟩ := turn.exists_pending
    rw [hpending] at hplain ⊢
    have hstream := stream_of_step_plain (hplain p (by simp)) hstep
    rw [hstream] at ih
    obtain ⟨hread, hall⟩ := ih fun q hq => hplain q (by simp [hq])
    exact ⟨by simpa using hread, fun hr => by simpa using hall hr⟩

/-- **Including a file means pasting it in.** The lines that the first pass handles, directives
apart, are those of the expansion, in order and with their locations, up to the line that is refused
if one is. The pass ends as a pass over the expanded lines does, remarks on files without a guard
line apart; but if the expansion is refused and that other pass is not, it ends in the error of the
directive. -/
theorem scanLines_eq_scanLines_expand (load other : Loader) (opts : Options)
    (lines : List (Located String)) :
    ∃ read, Runs load opts (ofLines lines) read (scanLines load opts lines).result ∧
      read.filter isPlain <+: (expand load [] ∅ lines).lines ∧
      ((∀ cause, (scanLines load opts lines).result ≠ .error (.scan cause)) →
        read.filter isPlain = (expand load [] ∅ lines).lines) ∧
      (scanLines load opts lines).result.map Scan.withoutGuardRemarks =
        match (scanLines other opts (expand load [] ∅ lines).lines).result,
          (expand load [] ∅ lines).outcome with
        | .error e, _ => .error e
        | .ok scan, .ok _ => .ok scan
        | .ok _, .error e => .error (.directive e) := by
  let flat : Stream := { queue := .ofLines (expand load [] ∅ lines).lines }
  have hlines : flat.queue.pending.map Pending.line = (expand load [] ∅ lines).lines := by
    simp [flat, LineQueue.pending_ofLines, Function.comp_def]
  have hplain : ∀ p ∈ flat.queue.pending, Line.classify p.line.val ≠ .directive := by
    intro p hp
    exact classify_of_mem_expand load [] ∅ lines p.line (hlines ▸ List.mem_map_of_mem hp)
  obtain ⟨read, hruns⟩ := exists_runs_scanLines load opts lines
  obtain ⟨r', hflat, hr⟩ := hruns.exists_flat
    (hlines.trans (congrArg Expansion.lines (expandQueue_ofLines load lines).symm))
  obtain ⟨hread, hall⟩ := hflat.of_plain hplain
  have hr' : (scanLines other opts (expand load [] ∅ lines).lines).result = r' :=
    hflat.result_scanLines
  rw [show (ofLines lines).stream.guards = ∅ from rfl,
    show (ofLines lines).stream.queue = LineQueue.ofLines lines from rfl,
    expandQueue_ofLines] at hr
  refine ⟨read, hruns, hlines ▸ hread, ?_, ?_⟩
  · intro hnot
    refine (hall ?_).trans hlines
    rintro cause rfl
    cases hresult : (scanLines load opts lines).result with
    | ok scan => rw [hresult] at hr; cases hr
    | error e =>
      rw [hresult] at hr
      cases hr
      exact hnot cause hresult
  · rw [hr, hr']
    cases r' with
    | error e => rfl
    | ok scan => cases (expand load [] ∅ lines).outcome <;> rfl

end Scanner

end StackAsm
