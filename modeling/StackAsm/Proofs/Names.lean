import StackAsm.Proofs.Utf8
import StackAsm.Source.Directive

/-!
# StackAsm.Proofs.Names

What files are called.

A line says in which file it stands by the text of the path, and an include on it is seen from the
path that this text spells (`Path.named`). If the path is a text, that is the path itself
(`Path.named_eq_iff`). Includes lead to no other paths: what stands behind `#include` is a text, and
so is the directory of a file whose path is one (`Directive.isText_of_wanted?`). So the outermost
file is the only one that can pass for a file that it is not.
-/

namespace StackAsm

namespace Text

/-- The bytes of a text. -/
def IsText (bytes : List UInt8) : Prop := ∃ text, encode text = bytes

instance (bytes : List UInt8) : Decidable (IsText bytes) :=
  decidable_of_iff (encode (decode bytes) = bytes) encode_decode_iff

namespace IsText

theorem nil : IsText [] := ⟨"", rfl⟩

theorem slash : IsText [Path.slash] := ⟨"/", by decide⟩

theorem dot : IsText [Path.dot] := ⟨".", by decide⟩

theorem append {a b : List UInt8} (ha : IsText a) (hb : IsText b) : IsText (a ++ b) := by
  obtain ⟨text, rfl⟩ := ha
  obtain ⟨text', rfl⟩ := hb
  exact ⟨text ++ text', encode_append text text'⟩

/-- The segments of a text are texts. -/
theorem of_mem_splitOn {bytes segment : List UInt8} (h : IsText bytes)
    (hsegment : segment ∈ bytes.splitOn Path.slash) : IsText segment := by
  obtain ⟨text, rfl⟩ := h
  rw [encode, show Path.slash = UInt8.ofNat '/'.toNat from rfl,
    splitOn_encodeChars (by decide)] at hsegment
  obtain ⟨cs, -, rfl⟩ := List.mem_map.mp hsegment
  exact ⟨String.ofList cs, by simp [encode]⟩

theorem intercalate {segments : List (List UInt8)} (h : ∀ segment ∈ segments, IsText segment) :
    IsText ([Path.slash].intercalate segments) := by
  induction segments with
  | nil => exact nil
  | cons first rest ih =>
    have hfirst := h first List.mem_cons_self
    cases rest with
    | nil => simpa using hfirst
    | cons second rest =>
      rw [List.intercalate_cons_cons]
      exact (hfirst.append slash).append (ih fun s hs => h s (List.mem_cons_of_mem first hs))

end IsText

end Text

namespace Path

/-- A path that some text spells. -/
def IsText (p : Path) : Prop := Text.IsText p.bytes

instance (p : Path) : Decidable p.IsText := inferInstanceAs (Decidable (Text.IsText _))

/-- The path for which a path passes: the one that its text spells. -/
def named (p : Path) : Path := ofText p.text

variable {p dir target : Path}

@[simp] theorem text_ofText (text : String) : (ofText text).text = text :=
  Text.decode_encode text

theorem isText_ofText (text : String) : (ofText text).IsText := ⟨text, rfl⟩

@[simp] theorem text_named (p : Path) : p.named.text = p.text := text_ofText p.text

/-- A path passes for itself if it is a text, and only then. -/
theorem named_eq_iff : p.named = p ↔ p.IsText := by
  rw [IsText, Text.IsText, ← Text.encode_decode_iff]
  exact Path.mk.injEq _ _ ▸ Iff.rfl

/-! ### Directories and targets -/

theorem isText_start (p : Path) : Text.IsText p.layout.start := by
  unfold layout
  split
  · exact .slash
  · exact .dot
  · exact .dot
  · exact .nil

theorem IsText.of_mem_segments (h : p.IsText) {segment : FileName}
    (hsegment : segment ∈ p.layout.segments) : Text.IsText segment := by
  -- a start without slashes, and the slash behind it, take nothing from the other segments
  have behind : ∀ start rest : List UInt8, slash ∉ start → p.bytes = start ++ slash :: rest →
      segment ∈ rest.splitOn slash → Text.IsText segment := by
    intro start rest hstart hbytes hmem
    refine Text.IsText.of_mem_splitOn h ?_
    rw [hbytes, List.splitOn_append_cons_self_of_not_mem hstart]
    exact List.mem_cons_of_mem start hmem
  unfold layout at hsegment
  split at hsegment
  · rename_i rest hbytes
    exact behind [] rest (by decide) hbytes hsegment
  · cases hsegment
  · rename_i rest hbytes
    rw [show slash :: rest = [] ++ slash :: rest from rfl,
      List.splitOn_append_cons_self_of_not_mem (by decide)] at hsegment
    rcases List.mem_cons.mp hsegment with rfl | hrest
    · exact .nil
    · exact behind [dot] rest (by decide) hbytes hrest
  · exact Text.IsText.of_mem_splitOn h hsegment

theorem mem_of_mem_dropIdle {segments : List FileName} {segment : FileName}
    (h : segment ∈ dropIdle segments) : segment ∈ segments := by
  have hmem := (List.dropWhile_sublist _).mem (List.mem_reverse.mp h)
  exact List.mem_reverse.mp hmem

/-- The directory of a file is a text if its path is. -/
theorem IsText.parent (h : p.IsText) (hdir : p.parent? = some dir) : dir.IsText := by
  unfold parent? at hdir
  simp only at hdir
  split at hdir
  · split at hdir
    · cases hdir
      exact .nil
    · cases hdir
  · cases hdir
    refine p.isText_start.append (.intercalate ?_)
    intro segment hsegment
    exact h.of_mem_segments
      (mem_of_mem_dropIdle (List.dropLast_subset _ (mem_of_mem_dropIdle hsegment)))

theorem IsText.join (hdir : dir.IsText) (htarget : target.IsText) : (dir.join target).IsText := by
  unfold Path.join
  split
  · exact htarget
  · split
    · exact htarget
    · exact Text.IsText.append hdir htarget
    · exact Text.IsText.append hdir (Text.IsText.slash.append htarget)

end Path

/-- All that a line can ask for are files whose paths are texts. -/
theorem Directive.isText_of_wanted? {line : Located String} {path : Path}
    (h : wanted? line = some path) : path.IsText := by
  unfold wanted? at h
  simp only [Option.ite_none_right_eq_some, Option.some.injEq] at h
  obtain ⟨-, rfl⟩ := h
  unfold targetPath
  split
  · rename_i dir hdir
    exact ((Path.isText_ofText _).parent hdir).join (Path.isText_ofText _)
  · exact Path.isText_ofText _

end StackAsm
