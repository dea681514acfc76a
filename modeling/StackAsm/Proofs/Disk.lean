import StackAsm.Disk
import StackAsm.Proofs.Format

/-!
# StackAsm.Proofs.Disk

What writing changes on a disk.

`Disk.Replaces` says that one place gets a file with new bytes and all other places keep what they
have. Paths are followed through directories only, and a place that gets a file was no directory
before. So every path that led somewhere leads there still, and the only new paths lead to the file
itself (`Replaces.walk_iff`). Reading other files is unchanged therefore, whatever `.`, `..` and
empty segments their paths go through. A write that succeeds is such a change, at the place where
the path written to leads (`Disk.write_eq_ok`).
-/

namespace StackAsm.Disk

/-- The place to which a path leads. -/
def locate (disk : Disk) (path : Path) : Except FileError (List FileName) := do
  checkPath path
  disk.walk (disk.start path) (segments path)

/-- How a segment leads from one place to another. -/
inductive Enters (disk : Disk) (place : List FileName) (segment : FileName) : List FileName → Prop
  | stay : disk.lookup? place = some .directory → segment = [] ∨ segment = [Path.dot] →
      Enters disk place segment place
  | up : disk.lookup? place = some .directory → segment = [Path.dot, Path.dot] →
      Enters disk place segment place.dropLast
  | down : disk.lookup? place = some .directory → ¬ (segment = [] ∨ segment = [Path.dot]) →
      segment ≠ [Path.dot, Path.dot] → segment.length ≤ maxName →
      (disk.lookup? (place ++ [segment])).isSome → Enters disk place segment (place ++ [segment])

/-- One place gets a file, and nothing else changes. -/
structure Replaces (before after : Disk) (place : List FileName) (bytes : List UInt8) : Prop where
  here : after.here = before.here
  sealed : after.sealed = before.sealed
  /-- A directory is not replaced. -/
  replaced : before.lookup? place ≠ some .directory
  file : after.lookup? place = some (.file bytes)
  others : ∀ other, other ≠ place → after.lookup? other = before.lookup? other

variable {disk before after : Disk} {path : Path} {place p q : List FileName} {segment : FileName}
  {bytes : List UInt8}

/-! ### Following a path -/

theorem enter_eq_ok : disk.enter p segment = .ok q ↔ disk.Enters p segment q := by
  rw [enter]
  constructor
  · intro h
    split at h
    · cases h
    · cases h
    · rename_i hdirectory
      split at h
      · rename_i hstay
        cases h
        exact .stay hdirectory hstay
      · rename_i hstay
        split at h
        · rename_i hup
          cases h
          exact .up hdirectory hup
        · rename_i hup
          split at h
          · cases h
          · rename_i hname
            split at h
            · rename_i hentry
              cases h
              exact .down hdirectory hstay hup (by omega) hentry
            · cases h
  · intro h
    cases h with
    | stay hdirectory hstay => simp only [hdirectory, if_pos hstay]
    | up hdirectory hup =>
      subst hup
      simp only [hdirectory]
      rfl
    | down hdirectory hstay hup hname hentry =>
      simp only [hdirectory, if_neg hstay, if_neg hup, if_neg (Nat.not_lt.mpr hname), if_pos hentry]

/-- Segments are followed from directories only. -/
theorem Enters.directory (h : disk.Enters p segment q) : disk.lookup? p = some .directory := by
  cases h <;> assumption

theorem walk_cons_eq_ok {rest : List FileName} :
    disk.walk p (segment :: rest) = .ok q ↔
      ∃ r, disk.Enters p segment r ∧ disk.walk r rest = .ok q := by
  rw [walk, bind_eq_ok]
  simp only [enter_eq_ok]

theorem walk_append_eq_ok {xs ys : List FileName} :
    disk.walk p (xs ++ ys) = .ok q ↔ ∃ r, disk.walk p xs = .ok r ∧ disk.walk r ys = .ok q := by
  induction xs generalizing p with
  | nil => simp [walk]
  | cons x xs ih =>
    simp only [List.cons_append, walk_cons_eq_ok, ih]
    constructor
    · intro h
      obtain ⟨r, hx, s, hxs, hys⟩ := h
      exact ⟨s, ⟨r, hx, hxs⟩, hys⟩
    · intro h
      obtain ⟨s, ⟨r, hx, hxs⟩, hys⟩ := h
      exact ⟨r, hx, s, hxs, hys⟩

theorem walk_singleton_eq_ok : disk.walk p [segment] = .ok q ↔ disk.Enters p segment q := by
  rw [walk_cons_eq_ok]
  simp [walk]

/-- An empty segment stays where it is, and what follows it needs a directory as well. -/
theorem walk_empty_cons {rest : List FileName} :
    disk.walk p ([] :: segment :: rest) = .ok q ↔ disk.walk p (segment :: rest) = .ok q := by
  simp only [walk_cons_eq_ok]
  constructor
  · intro h
    obtain ⟨r, hstay, hrest⟩ := h
    cases hstay with
    | stay => exact hrest
    | up _ hup => exact absurd hup (by decide)
    | down _ hnot => exact absurd (.inl rfl) hnot
  · intro h
    obtain ⟨r, hsegment, hrest⟩ := h
    exact ⟨p, .stay hsegment.directory (.inl rfl), r, hsegment, hrest⟩

/-- Empty segments do not count, except at the end. -/
theorem walk_filter {segments : List FileName} (hlast : segments.getLast? ≠ some []) :
    disk.walk p (segments.filter (· ≠ [])) = .ok q ↔ disk.walk p segments = .ok q := by
  induction segments generalizing p with
  | nil => rfl
  | cons first rest ih =>
    cases rest with
    | nil =>
      have hfirst : first ≠ [] := by simpa using hlast
      simp [hfirst]
    | cons second rest =>
      have hrest : ∀ r, disk.walk r ((second :: rest).filter (· ≠ [])) = .ok q ↔
          disk.walk r (second :: rest) = .ok q := fun r => ih (by simpa using hlast)
      by_cases hfirst : first = []
      · subst hfirst
        rw [walk_empty_cons, List.filter_cons_of_neg (by simp), hrest]
      · rw [List.filter_cons_of_pos (by simp [hfirst]), walk_cons_eq_ok, walk_cons_eq_ok]
        simp only [hrest]

theorem read_eq_ok :
    disk.read path = .ok bytes ↔
      ∃ place, disk.locate path = .ok place ∧ disk.lookup? place = some (.file bytes) := by
  simp only [read, locate, bind_eq_ok]
  constructor
  · intro hread
    obtain ⟨_, hcheck, place, hwalk, h⟩ := hread
    refine ⟨place, ⟨_, hcheck, hwalk⟩, ?_⟩
    split at h
    · rename_i hentry
      cases h
      exact hentry
    · cases h
    · cases h
  · intro h
    obtain ⟨place, ⟨_, hcheck, hwalk⟩, hentry⟩ := h
    exact ⟨_, hcheck, place, hwalk, by rw [hentry]; rfl⟩

/-! ### After one file has changed -/

namespace Replaces

variable (h : before.Replaces after place bytes)
include h

theorem directory_iff : after.lookup? p = some .directory ↔ before.lookup? p = some .directory := by
  by_cases hp : p = place
  · subst hp
    simp [h.file, h.replaced]
  · rw [h.others p hp]

theorem enters_of_before (henter : before.Enters p segment q) : after.Enters p segment q := by
  cases henter with
  | stay hdirectory hstay => exact .stay (h.directory_iff.mpr hdirectory) hstay
  | up hdirectory hup => exact .up (h.directory_iff.mpr hdirectory) hup
  | down hdirectory hstay hup hname hentry =>
    refine .down (h.directory_iff.mpr hdirectory) hstay hup hname ?_
    by_cases hplace : p ++ [segment] = place
    · rw [hplace, h.file]
      rfl
    · rw [h.others _ hplace]
      exact hentry

theorem enters_of_after (henter : after.Enters p segment q) (hq : q ≠ place) :
    before.Enters p segment q := by
  cases henter with
  | stay hdirectory hstay => exact .stay (h.directory_iff.mp hdirectory) hstay
  | up hdirectory hup => exact .up (h.directory_iff.mp hdirectory) hup
  | down hdirectory hstay hup hname hentry =>
    rw [h.others _ hq] at hentry
    exact .down (h.directory_iff.mp hdirectory) hstay hup hname hentry

/-- Nothing is followed from the file. -/
theorem not_enters : ¬ after.Enters place segment q := by
  intro henter
  have hdirectory := henter.directory
  rw [h.file] at hdirectory
  cases hdirectory

theorem walk_of_before {segments : List FileName} (hwalk : before.walk p segments = .ok q) :
    after.walk p segments = .ok q := by
  induction segments generalizing p with
  | nil => exact hwalk
  | cons segment rest ih =>
    obtain ⟨r, henter, hrest⟩ := walk_cons_eq_ok.mp hwalk
    exact walk_cons_eq_ok.mpr ⟨r, h.enters_of_before henter, ih hrest⟩

/-- Segments that lead elsewhere do not come through the file. -/
theorem walk_iff {segments : List FileName} (hq : q ≠ place) :
    after.walk p segments = .ok q ↔ before.walk p segments = .ok q := by
  refine ⟨?_, h.walk_of_before⟩
  intro hwalk
  induction segments generalizing p with
  | nil => exact hwalk
  | cons segment rest ih =>
    obtain ⟨r, henter, hrest⟩ := walk_cons_eq_ok.mp hwalk
    have hr : r ≠ place := by
      rintro rfl
      cases rest with
      | nil => exact hq (Except.ok.inj hrest).symm
      | cons next rest =>
        obtain ⟨_, henter', -⟩ := walk_cons_eq_ok.mp hrest
        exact h.not_enters henter'
    exact walk_cons_eq_ok.mpr ⟨r, h.enters_of_after henter hr, ih hrest⟩

theorem locate_of_before (hlocate : before.locate path = .ok q) : after.locate path = .ok q := by
  obtain ⟨_, hcheck, hwalk⟩ := bind_eq_ok.mp hlocate
  refine bind_eq_ok.mpr ⟨_, hcheck, ?_⟩
  rw [start, h.here]
  exact h.walk_of_before hwalk

theorem locate_iff (hq : q ≠ place) : after.locate path = .ok q ↔ before.locate path = .ok q := by
  rw [locate, locate, bind_eq_ok, bind_eq_ok, start, h.here]
  simp only [h.walk_iff hq]
  rfl

/-- A path to the file reads its bytes. -/
theorem read_of_locate (hlocate : after.locate path = .ok place) : after.read path = .ok bytes :=
  read_eq_ok.mpr ⟨place, hlocate, h.file⟩

/-- Any other path reads what it read before. -/
theorem read_of_locate_ne (hlocate : after.locate path ≠ .ok place) (raw : List UInt8) :
    after.read path = .ok raw ↔ before.read path = .ok raw := by
  rw [read_eq_ok, read_eq_ok]
  constructor
  · intro hread
    obtain ⟨q, hq, hentry⟩ := hread
    have hne : q ≠ place := by
      rintro rfl
      exact hlocate hq
    rw [h.others q hne] at hentry
    exact ⟨q, (h.locate_iff hne).mp hq, hentry⟩
  · intro hread
    obtain ⟨q, hq, hentry⟩ := hread
    have hq' := h.locate_of_before hq
    have hne : q ≠ place := by
      rintro rfl
      exact hlocate hq'
    rw [← h.others q hne] at hentry
    exact ⟨q, hq', hentry⟩

end Replaces

/-! ### Writing -/

theorem lookup?_put_of_ne {entry : DiskEntry} (hq : q ≠ place) :
    lookup? (disk.put place entry) q = disk.lookup? q := by
  have hfind : ∀ entries : List (List FileName × DiskEntry),
      (entries.filter fun e => e.1 ≠ place).find? (fun e => e.1 = q) =
        entries.find? fun e => e.1 = q := by
    intro entries
    rw [List.find?_filter]
    congr 1
    funext e
    by_cases he : e.1 = q
    · simp [he, hq]
    · simp [he]
  rw [lookup?, lookup?, put]
  simp only [List.find?_cons, decide_eq_false hq.symm, hfind]

theorem lookup?_put_self {entry : DiskEntry} (hplace : place ≠ []) :
    lookup? (disk.put place entry) place = some entry := by
  simp [lookup?, put, hplace]

/-- A place for a file is a name in a directory, and is no directory itself. -/
theorem target_eq_ok (h : disk.target path = .ok place) :
    ∃ parent last, place = parent ++ [last] ∧ checkPath path = .ok () ∧
      (segments path).getLast? ≠ some [] ∧
      ((segments path).filter (· ≠ [])).getLast? = some last ∧
      disk.walk (disk.start path) ((segments path).filter (· ≠ [])).dropLast = .ok parent ∧
      disk.lookup? parent = some .directory ∧ ¬ (last = [Path.dot] ∨ last = [Path.dot, Path.dot]) ∧
      last.length ≤ maxName ∧ disk.lookup? place ≠ some .directory := by
  obtain ⟨_, hcheck, h⟩ := bind_eq_ok.mp h
  simp only at h
  split at h
  · cases h
  · rename_i last hlast
    split at h
    · obtain ⟨_, -, h⟩ := bind_eq_ok.mp h
      cases h
    · rename_i hdots
      obtain ⟨parent, hparent, h⟩ := bind_eq_ok.mp h
      split at h
      · rename_i hdirectory
        split at h
        · cases h
        · rename_i hslash
          split at h
          · cases h
          · rename_i hname
            split at h
            · cases h
            · rename_i hplace
              split at h
              · cases h
              · cases h
                exact ⟨parent, last, rfl, hcheck, hslash, hlast, hparent, hdirectory, hdots,
                  Nat.not_lt.mp hname, hplace⟩
      · cases h
      · cases h

/-- **A write that succeeds replaces the file to which the path leads**, and nothing else. -/
theorem write_eq_ok (h : disk.write path bytes = .ok after) :
    ∃ place, disk.Replaces after place bytes ∧ after.locate path = .ok place := by
  obtain ⟨place, htarget, h⟩ := bind_eq_ok.mp h
  obtain rfl : disk.put place (.file bytes) = after := Except.ok.inj h
  obtain ⟨parent, last, rfl, hcheck, hslash, hlast, hparent, hdirectory, hdots, hname, hplace⟩ :=
    target_eq_ok htarget
  have hfile : lookup? (disk.put (parent ++ [last]) (.file bytes)) (parent ++ [last]) =
      some (.file bytes) := lookup?_put_self (List.concat_ne_nil last parent)
  have hreplaces : disk.Replaces (disk.put (parent ++ [last]) (.file bytes)) (parent ++ [last])
      bytes := ⟨rfl, rfl, hplace, hfile, fun _ => lookup?_put_of_ne⟩
  refine ⟨_, hreplaces, bind_eq_ok.mpr ⟨(), hcheck, ?_⟩⟩
  -- the last name is entered from its directory, and now there is something to enter
  have hnonempty : last ≠ [] := by
    have hmem := List.mem_of_getLast? hlast
    simpa using (List.mem_filter.mp hmem).2
  obtain ⟨front, hfront⟩ := List.getLast?_eq_some_iff.mp hlast
  rw [hfront, List.dropLast_concat] at hparent
  rw [← walk_filter hslash, hfront, walk_append_eq_ok]
  refine ⟨parent, hreplaces.walk_of_before hparent, walk_singleton_eq_ok.mpr ?_⟩
  refine .down (hreplaces.directory_iff.mpr hdirectory) ?_ (fun h => hdots (.inr h)) hname ?_
  · rintro (h | h)
    · exact hnonempty h
    · exact hdots (.inl h)
  · rw [hfile]
    rfl

end StackAsm.Disk
