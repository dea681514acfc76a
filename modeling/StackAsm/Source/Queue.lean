import StackAsm.Source.Location

/-!
# StackAsm.Source.Queue

The lines still to be read, and why reading them comes to an end.

A file that is included is spliced in at the front of the queue, so its lines are read next, as if
they stood in place of the directive. Every pending line knows its *include chain*: the files whose
includes led to it, outermost first.

Includes may not nest deeper than `maxIncludeDepth` files. That bound alone makes every run finite:
taking a line off the queue can put any number of lines in its place, but only lines of a longer
chain. `Backlog.Shrinks` is this relation on the lines' remaining depths, and it is well-founded.
-/

namespace StackAsm

/-- How many files may be open at once, the outermost one included. -/
def maxIncludeDepth : Nat := 64

/-- A line to be read, and the files whose includes led to it. -/
structure Pending where
  line : Located String
  includers : List Path
deriving DecidableEq, Repr

/-- The lines to be read, and the include chain of the line read last. -/
structure LineQueue where
  pending : List Pending := []
  includers : List Path := []
deriving DecidableEq, Repr

namespace LineQueue

/-- Puts lines with a common include chain at the front. -/
def splice (q : LineQueue) (lines : List (Located String)) (includers : List Path) : LineQueue :=
  { q with pending := lines.map (fun line => ⟨line, includers⟩) ++ q.pending }

/-- The queue of the lines of an outermost file. -/
def ofLines (lines : List (Located String)) : LineQueue := ({} : LineQueue).splice lines []

/-- Reads the next line; its include chain becomes that of the queue. -/
def next? (q : LineQueue) : Option (Located String × LineQueue) :=
  match q.pending with
  | [] => none
  | p :: rest => some (p.line, ⟨rest, p.includers⟩)

/-- All lines to be read, with their include chains, and the queue once they are read. -/
def drain (q : LineQueue) : List Pending × LineQueue :=
  (q.pending, ⟨[], (q.pending.getLast?.map Pending.includers).getD q.includers⟩)

end LineQueue

/-! ### Why reading ends -/

/-- How much deeper the includes below a line may nest. -/
def Pending.rank (p : Pending) : Nat := maxIncludeDepth - p.includers.length

/-- The remaining depths of the lines to be read, in order. -/
structure Backlog where
  ranks : List Nat

namespace Backlog

/-- One backlog comes from another by replacing the first line by any number of lines that have less
depth left. -/
def Shrinks (after before : Backlog) : Prop :=
  ∃ r added rest, before.ranks = r :: rest ∧ after.ranks = added ++ rest ∧ ∀ n ∈ added, n < r

theorem acc_nil : Acc Shrinks ⟨[]⟩ :=
  .intro _ fun _ ⟨_, _, _, h, _⟩ => nomatch h

/-- A line in front of a finite backlog leaves it finite: what can take its place has less depth
left, so this is by induction on the depth. -/
theorem acc_cons (r : Nat) : ∀ rest, Acc Shrinks ⟨rest⟩ → Acc Shrinks ⟨r :: rest⟩ := by
  induction r using Nat.strongRecOn with
  | ind r ih =>
    intro rest hrest
    refine .intro _ fun ⟨ranks⟩ h => ?_
    obtain ⟨r', added, rest', hbefore, hafter, hless⟩ := h
    obtain ⟨rfl, rfl⟩ : r = r' ∧ rest = rest' := by simpa using hbefore
    obtain rfl : ranks = added ++ rest := hafter
    clear hbefore
    induction added with
    | nil => exact hrest
    | cons n added ihAdded =>
      exact ih n (hless n (by simp)) _ (ihAdded fun m hm => hless m (by simp [hm]))

/-- No backlog shrinks forever. -/
theorem shrinks_wf : WellFounded Shrinks := by
  refine ⟨fun ⟨ranks⟩ => ?_⟩
  induction ranks with
  | nil => exact acc_nil
  | cons r rest ih => exact acc_cons r rest ih

instance : WellFoundedRelation Backlog := ⟨Shrinks, shrinks_wf⟩

end Backlog

/-- The remaining depths of the lines in a queue. -/
def LineQueue.backlog (q : LineQueue) : Backlog := ⟨q.pending.map Pending.rank⟩

end StackAsm
