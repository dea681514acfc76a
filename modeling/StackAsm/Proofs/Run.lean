import Mathlib
import StackAsm.Scan

/-!
# StackAsm.Proofs.Run

The loop of the first pass as a relation between states.

`Scanner.Turn` is one turn of the loop: a line is read, and handled or refused. `Scanner.Runs` is a
whole run: the lines that are read, in order, and what the loop ends in. A loop that goes on forever
has no run in this sense, so that there is one is a statement about the loop and not about the way
in which `Scanner.run` happens to be written.

* `Scanner.exists_runs`: every scanner has a run, whatever the loader serves.
* `Scanner.Runs.unique`: it has only one.
* `Scanner.Runs.result_run`: `Scanner.run` computes what it ends in.
-/

namespace StackAsm

theorem LineQueue.pending_ofLines (lines : List (Located String)) :
    (ofLines lines).pending = lines.map fun line => ⟨line, []⟩ := by
  simp [ofLines, splice]

namespace Scanner

variable {load : Loader} {opts : Options}

/-- One turn of the loop: `line` is read from `s`, and handling it gives `r`. -/
def Turn (load : Loader) (opts : Options) (s : Scanner) (line : Located String)
    (r : Except AssemblyError Scanner) : Prop :=
  ∃ stream, s.stream.next? = some (line, stream) ∧
    (({ s with stream } : Scanner).step load opts line).result = r

/-- A run of the loop: the lines it reads, and the scan or the error it ends in. -/
inductive Runs (load : Loader) (opts : Options) :
    Scanner → List (Located String) → Except AssemblyError Scan → Prop
  /-- There is no line left. -/
  | done {s : Scanner} : s.stream.next? = none → Runs load opts s [] (.ok s.scan)
  /-- The next line is refused. -/
  | refused {s : Scanner} {line : Located String} {e : AssemblyError} :
      Turn load opts s line (.error e) → Runs load opts s [line] (.error e)
  /-- The next line is handled, and the loop goes on. -/
  | next {s s' : Scanner} {line : Located String} {read : List (Located String)}
      {r : Except AssemblyError Scan} :
      Turn load opts s line (.ok s') → Runs load opts s' read r → Runs load opts s (line :: read) r

/-! ### Turns and pending lines -/

/-- A turn reads the first pending line, and handles it on what is left. -/
theorem Turn.exists_pending {s : Scanner} {line : Located String}
    {r : Except AssemblyError Scanner} (h : Turn load opts s line r) :
    ∃ p rest, s.stream.queue.pending = p :: rest ∧ line = p.line ∧
      (({ s with stream := ⟨⟨rest, p.includers⟩, s.stream.guards⟩ } : Scanner).step
        load opts p.line).result = r := by
  obtain ⟨stream, hnext, hstep⟩ := h
  obtain ⟨p, rest, hpending, rfl, rfl⟩ := Stream.next?_eq_some hnext
  exact ⟨p, rest, hpending, rfl, hstep⟩

/-- A pending line makes a turn. -/
theorem turn_of_pending {s : Scanner} {p : Pending} {rest : List Pending}
    (h : s.stream.queue.pending = p :: rest) :
    Turn load opts s p.line
      (({ s with stream := ⟨⟨rest, p.includers⟩, s.stream.guards⟩ } : Scanner).step
        load opts p.line).result := by
  refine ⟨_, ?_, rfl⟩
  simp [Stream.next?, LineQueue.next?, h]

theorem next?_eq_none_iff {s : Scanner} :
    s.stream.next? = none ↔ s.stream.queue.pending = [] := by
  unfold Stream.next? LineQueue.next?
  cases s.stream.queue.pending <;> simp

/-! ### The loop ends -/

/-- A turn after which the loop goes on shrinks the backlog. -/
theorem Turn.shrinks {s s' : Scanner} {line : Located String}
    (h : Turn load opts s line (.ok s')) :
    s'.stream.queue.backlog.Shrinks s.stream.queue.backlog := by
  obtain ⟨stream, hnext, hstep⟩ := h
  exact step_shrinks hnext hstep

/-- Every scanner has a run. The induction is on the backlog, which may get longer in a turn but
never does so forever. -/
theorem exists_runs (load : Loader) (opts : Options) (s : Scanner) :
    ∃ read r, Runs load opts s read r := by
  induction hb : s.stream.queue.backlog using Backlog.shrinks_wf.induction generalizing s with
  | _ b ih =>
    subst hb
    cases hnext : s.stream.next? with
    | none => exact ⟨[], _, .done hnext⟩
    | some next =>
      obtain ⟨line, stream⟩ := next
      cases hstep : (({ s with stream } : Scanner).step load opts line).result with
      | error e => exact ⟨[line], _, .refused ⟨stream, hnext, hstep⟩⟩
      | ok s' =>
        have turn : Turn load opts s line (.ok s') := ⟨stream, hnext, hstep⟩
        obtain ⟨read, r, hrest⟩ := ih _ turn.shrinks s' rfl
        exact ⟨line :: read, r, .next turn hrest⟩

/-- The turns of the loop do not go on forever. -/
theorem not_turns_forever {states : Nat → Scanner} {read : Nat → Located String} :
    ¬ ∀ n, Turn load opts (states n) (read n) (.ok (states (n + 1))) := by
  intro turns
  suffices ∀ (b : Backlog) (n : Nat), (states n).stream.queue.backlog = b → False from
    this _ 0 rfl
  intro b
  induction b using Backlog.shrinks_wf.induction with
  | _ b ih =>
    intro n hb
    exact ih _ (hb ▸ (turns n).shrinks) (n + 1) rfl

/-! ### There is one run -/

theorem Turn.not_done {s : Scanner} {line : Located String} {r : Except AssemblyError Scanner}
    (h : Turn load opts s line r) : s.stream.next? ≠ none := by
  obtain ⟨stream, hnext, -⟩ := h
  simp [hnext]

/-- What a turn reads and gives is determined by where it starts. -/
theorem Turn.unique {s : Scanner} {line₁ line₂ : Located String}
    {r₁ r₂ : Except AssemblyError Scanner} (h₁ : Turn load opts s line₁ r₁)
    (h₂ : Turn load opts s line₂ r₂) : line₁ = line₂ ∧ r₁ = r₂ := by
  obtain ⟨stream₁, hnext₁, hstep₁⟩ := h₁
  obtain ⟨stream₂, hnext₂, hstep₂⟩ := h₂
  obtain ⟨rfl, rfl⟩ : line₁ = line₂ ∧ stream₁ = stream₂ := by simpa [hnext₁] using hnext₂
  exact ⟨rfl, hstep₁.symm.trans hstep₂⟩

/-- A scanner has only one run. -/
theorem Runs.unique {s : Scanner} {read₁ read₂ : List (Located String)}
    {r₁ r₂ : Except AssemblyError Scan} (h₁ : Runs load opts s read₁ r₁)
    (h₂ : Runs load opts s read₂ r₂) : read₁ = read₂ ∧ r₁ = r₂ := by
  induction h₁ generalizing read₂ r₂ with
  | done hnext =>
    cases h₂ with
    | done _ => exact ⟨rfl, rfl⟩
    | refused turn => exact absurd hnext turn.not_done
    | next turn _ => exact absurd hnext turn.not_done
  | refused turn =>
    cases h₂ with
    | done hnext => exact absurd hnext turn.not_done
    | refused turn' =>
      obtain ⟨rfl, he⟩ := turn.unique turn'
      cases he
      exact ⟨rfl, rfl⟩
    | next turn' _ => cases (turn.unique turn').2
  | next turn _ ih =>
    cases h₂ with
    | done hnext => exact absurd hnext turn.not_done
    | refused turn' => cases (turn.unique turn').2
    | next turn' hrest =>
      obtain ⟨rfl, hs⟩ := turn.unique turn'
      cases hs
      obtain ⟨rfl, rfl⟩ := ih hrest
      exact ⟨rfl, rfl⟩

/-! ### The run is computed -/

theorem run_of_next?_eq_none {s : Scanner} (h : s.stream.next? = none) (log : Array Event) :
    (s.run load opts log).result = .ok s.scan := by
  rw [run]
  split
  · rfl
  · rename_i hnext
    cases h.symm.trans hnext

/-- A loop that makes a turn ends where the rest of it does, or in the error of the turn. -/
theorem Turn.result_run {s : Scanner} {line : Located String} {r : Except AssemblyError Scanner}
    (h : Turn load opts s line r) (log : Array Event) :
    ∃ log', (s.run load opts log).result = r.bind fun s' => (s'.run load opts log').result := by
  obtain ⟨stream, hnext, hstep⟩ := h
  rw [run]
  split
  · rename_i hnone
    cases hnone.symm.trans hnext
  · rename_i line' stream' hnext'
    obtain ⟨rfl, rfl⟩ : line' = line ∧ stream' = stream := by simpa [hnext] using hnext'.symm
    simp only
    split
    · rename_i e hstep'
      obtain rfl : r = .error e := hstep.symm.trans hstep'
      exact ⟨log, rfl⟩
    · rename_i s' hstep'
      obtain rfl : r = .ok s' := hstep.symm.trans hstep'
      exact ⟨_, rfl⟩

/-- `Scanner.run` ends in what the run ends in. -/
theorem Runs.result_run {s : Scanner} {read : List (Located String)}
    {r : Except AssemblyError Scan} (h : Runs load opts s read r) (log : Array Event) :
    (s.run load opts log).result = r := by
  induction h generalizing log with
  | done hnext => exact run_of_next?_eq_none hnext log
  | refused turn =>
    obtain ⟨log', hlog⟩ := turn.result_run log
    exact hlog
  | next turn _ ih =>
    obtain ⟨log', hlog⟩ := turn.result_run log
    exact hlog.trans (ih log')

/-- The result of the first pass is the one its run ends in. -/
theorem Runs.result_scanLines {lines read : List (Located String)}
    {r : Except AssemblyError Scan} (h : Runs load opts (ofLines lines) read r) :
    (scanLines load opts lines).result = r :=
  h.result_run #[]

/-- The first pass has a run, and it ends in the result. -/
theorem exists_runs_scanLines (load : Loader) (opts : Options) (lines : List (Located String)) :
    ∃ read, Runs load opts (ofLines lines) read (scanLines load opts lines).result := by
  obtain ⟨read, r, h⟩ := exists_runs load opts (ofLines lines)
  exact ⟨read, h.result_scanLines ▸ h⟩

/-- **The first pass always ends.** Whatever files the loader serves, and however they include each
other, it reads a finite list of lines and ends in a scan or an error. It has no other run, and no
endless sequence of turns. -/
theorem scanLines_terminates (load : Loader) (opts : Options) (lines : List (Located String)) :
    (∃ read, Runs load opts (ofLines lines) read (scanLines load opts lines).result ∧
      ∀ read' r, Runs load opts (ofLines lines) read' r →
        read' = read ∧ r = (scanLines load opts lines).result) ∧
    ¬ ∃ (states : Nat → Scanner) (read : Nat → Located String), states 0 = ofLines lines ∧
      ∀ n, Turn load opts (states n) (read n) (.ok (states (n + 1))) := by
  constructor
  · obtain ⟨read, h⟩ := exists_runs_scanLines load opts lines
    exact ⟨read, h, fun read' r h' => h'.unique h⟩
  · rintro ⟨states, read, -, turns⟩
    exact not_turns_forever turns

end Scanner

end StackAsm
