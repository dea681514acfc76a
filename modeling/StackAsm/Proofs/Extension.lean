import StackAsm.Proofs.History

/-!
# StackAsm.Proofs.Extension

Lines are handled without a look at the lines behind them.

`Stream.extend` puts more lines behind those to come. A turn on the lines in front is the same with
and without them (`Scanner.Turn.extend`): directives work at the front of the queue, and all other
lines do not work on the queue at all. So a run over a source goes through its first part as if that
were all (`Scanner.History.runs_extend`).
-/

namespace StackAsm

namespace Stream

/-- Puts lines behind those to come. -/
def extend (rest : List Pending) (s : Stream) : Stream :=
  { s with queue.pending := s.queue.pending ++ rest }

variable (rest : List Pending) (s : Stream)

theorem paste_extend (file : String) (inc : Inclusion) :
    (s.extend rest).paste file inc =
      ((s.paste file inc).1.extend rest, (s.paste file inc).2) := by
  unfold paste
  change (if (s.chain file).any _ = true then _
    else if maxIncludeDepth ≤ (s.chain file).length then _ else _) = _
  split
  · rfl
  · split
    · rfl
    · -- the file goes in front of all, so that it does not matter when the lines behind are added
      simp [extend, LineQueue.splice, chain]

theorem accept_extend (file : String) (inc : Inclusion) :
    (s.extend rest).accept file inc =
      ((s.accept file inc).1.extend rest, (s.accept file inc).2) := by
  rw [accept_eq, accept_eq]
  change (if inc.isKnown s.guards = true then _ else _) = _
  split
  · rfl
  · exact paste_extend rest { s with guards := inc.register s.guards } file inc

/-- A directive does the same with more lines behind it. -/
theorem directive_extend (load : Loader) (line : Located String) :
    (s.extend rest).directive load line =
      ((s.directive load line).1.extend rest, (s.directive load line).2) := by
  unfold directive
  simp only
  split
  · split
    · rfl
    · exact accept_extend rest s _ _
  · split <;> rfl

end Stream

namespace Scanner

/-- Puts lines behind those to come. -/
def extend (rest : List Pending) (s : Scanner) : Scanner :=
  { s with stream := s.stream.extend rest }

variable {load : Loader} {opts : Options} {s : Scanner} {line : Located String}

/-- A line is handled in the same way with more lines behind it. -/
theorem result_step_extend (rest : List Pending) (s : Scanner) (line : Located String) :
    ((s.extend rest).step load opts line).result =
      (s.step load opts line).result.map (extend rest) := by
  by_cases hline : Line.classify line.val = .directive
  · rw [result_step_directive hline, result_step_directive hline]
    unfold directive
    rw [show (s.extend rest).stream = s.stream.extend rest from rfl, Stream.directive_extend]
    obtain ⟨stream, result⟩ := s.stream.directive load line
    cases result <;> rfl
  · exact (Unnoticed.mapStream (Stream.extend rest)).result_step hline load load opts s

/-- A turn is the same with more lines behind. -/
theorem Turn.extend {r : Except AssemblyError Scanner} (h : Turn load opts s line r)
    (rest : List Pending) :
    Turn load opts (s.extend rest) line (r.map (Scanner.extend rest)) := by
  obtain ⟨p, pending, hpending, rfl, hstep⟩ := h.exists_pending
  have hextended : (s.extend rest).stream.queue.pending = p :: (pending ++ rest) := by
    show s.stream.queue.pending ++ rest = _
    rw [hpending, List.cons_append]
  rw [← hstep, ← result_step_extend]
  exact turn_of_pending hextended

theorem ofLines_append (xs ys : List (Located String)) :
    ofLines (xs ++ ys) = (ofLines xs).extend (ys.map fun line => ⟨line, []⟩) := by
  simp [ofLines, extend, Stream.extend, LineQueue.ofLines, LineQueue.splice]

/-- The include chain of the line read last is not looked at again. -/
theorem Runs.of_includers {read : List (Located String)} {r : Except AssemblyError Scan}
    {pending : List Pending} {chain chain' : List Path} {guards : Std.TreeSet String}
    (h : Runs load opts { s with stream := ⟨⟨pending, chain⟩, guards⟩ } read r) :
    Runs load opts { s with stream := ⟨⟨pending, chain'⟩, guards⟩ } read r := by
  cases h with
  | done hnext => exact .done (next?_eq_none_iff.mpr (next?_eq_none_iff.mp hnext))
  | refused turn =>
    obtain ⟨p, rest, hpending, rfl, hstep⟩ := turn.exists_pending
    exact .refused (hstep ▸ turn_of_pending hpending)
  | next turn hrest =>
    obtain ⟨p, rest, hpending, rfl, hstep⟩ := turn.exists_pending
    exact .next (hstep ▸ turn_of_pending hpending) hrest

/-- A run with more lines behind goes through the turns that are made without them, and then on. -/
theorem History.runs_extend {hs : List Handled} {s' : Scanner} (h : History opts s hs s')
    (hload : ∀ x ∈ hs, x.load = load) (rest : List Pending) {read : List (Located String)}
    {r : Except AssemblyError Scan} (hruns : Runs load opts (s'.extend rest) read r) :
    Runs load opts (s.extend rest) (hs.map Handled.line ++ read) r := by
  induction h generalizing read with
  | nil => exact hruns
  | @snoc hs s₁ s₂ load' line _ turn ih =>
    obtain rfl : load' = load := hload ⟨load', s₁, line, s₂⟩ (by simp)
    rw [List.map_append, List.append_assoc]
    exact ih (fun x hx => hload x (by simp [hx])) (.next (turn.extend rest) hruns)

end Scanner

end StackAsm
