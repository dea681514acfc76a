import StackAsm.Cli.Command
import StackAsm.Proofs.PrintedText

/-!
# StackAsm.Proofs.DefaultOutput

Where the image of a source goes by default.

It is said to go to the stem of the source with the extension `klb`. This is so if the stem is a
name without an extension (`Path.IsBare`). But a stem is a name with *one* extension less, and an
extension that is left in it gives way to `klb`: `a.b.klt` and `a.c.klt` both go to `a.klb`. For a
stem that is a dot, with or without an extension, what comes out is the name of a directory.
-/

namespace StackAsm

namespace Path

/-! ### Extensions -/

/-- A name is a stem and an extension with a dot between them. The stem is not empty, and there is
no dot in the extension. -/
structure HasExtension (name stem extension : FileName) : Prop where
  parts : name = stem ++ dot :: extension
  stem_ne : stem ≠ []
  extension_dot : dot ∉ extension

/-- A name without an extension. -/
def IsBare (name : FileName) : Prop := name ≠ [dot] ∧ dot ∉ name.tail

instance (name : FileName) : Decidable (IsBare name) := inferInstanceAs (Decidable (_ ∧ _))

variable {name stem extension : FileName}

/-- A dot behind the first byte divides a name. -/
theorem exists_hasExtension (h : dot ∈ name.tail) :
    ∃ stem extension, HasExtension name stem extension := by
  -- the dot that divides it is the last one
  obtain ⟨back, front, hparts, hback⟩ := List.eq_append_cons_of_mem (List.mem_reverse.mpr h)
  have htail : name.tail = front.reverse ++ dot :: back.reverse := by
    rw [← List.reverse_reverse name.tail, hparts]
    simp
  cases name with
  | nil => cases h
  | cons b bs =>
    rw [List.tail_cons] at htail
    exact ⟨b :: front.reverse, back.reverse, by rw [htail, List.cons_append], by simp,
      by simpa using hback⟩

/-- Without its extension, a name is its stem. -/
theorem HasExtension.stemOf_eq (h : HasExtension name stem extension) : stemOf name = stem := by
  have hreverse : name.reverse = extension.reverse ++ dot :: stem.reverse := by
    simp [h.parts]
  have hdot : dot ∉ extension.reverse := by simpa using h.extension_dot
  rw [stemOf]
  simp only [hreverse, Text.dropWhile_ne_append hdot]
  rw [List.dropWhile_cons_of_neg (by simp)]
  simp [h.stem_ne]

theorem stemOf_of_not_mem (h : dot ∉ name.tail) : stemOf name = name := by
  cases name with
  | nil => rfl
  | cons b bs =>
    rw [List.tail_cons] at h
    have hback : dot ∉ bs.reverse := by simpa using h
    rw [stemOf]
    simp only [List.reverse_cons, Text.dropWhile_ne_append hback]
    -- a dot at the front is the name of nothing
    by_cases hdot : b = dot
    · rw [List.dropWhile_cons_of_neg (by simp [hdot])]
      rfl
    · rw [List.dropWhile_cons_of_pos (by simpa using hdot)]
      rfl

/-- A name is bare, or it is a dot, or it has an extension. -/
theorem isBare_or_hasExtension (name : FileName) :
    IsBare name ∨ name = [dot] ∨ ∃ stem extension, HasExtension name stem extension := by
  by_cases hdot : dot ∈ name.tail
  · exact .inr (.inr (exists_hasExtension hdot))
  · by_cases hname : name = [dot]
    · exact .inr (.inl hname)
    · exact .inl ⟨hname, hdot⟩

/-! ### Names with another extension -/

theorem IsBare.withExtension_eq (h : IsBare name) (new : FileName) :
    withExtension name new = name ++ dot :: new := by
  have hstem : stemOf name = name := stemOf_of_not_mem h.2
  have hparent : name ≠ [dot, dot] := by
    rintro rfl
    exact h.2 (by decide)
  rw [withExtension, cutExtension, if_pos hstem]
  simp only [h.1, hparent, or_self, if_false, hstem]

theorem HasExtension.cutExtension_eq (h : HasExtension name stem extension) :
    cutExtension name = stem ++ [dot] := by
  have hne : stemOf name ≠ name := by
    rw [h.stemOf_eq]
    intro heq
    have hlength := congrArg List.length (heq.trans h.parts)
    rw [List.length_append, List.length_cons] at hlength
    omega
  rw [cutExtension, if_neg hne, h.stemOf_eq]

theorem HasExtension.withExtension_eq (h : HasExtension name stem extension) (new : FileName) :
    withExtension name new = if stem = [dot] then [dot, dot] else stem ++ dot :: new := by
  have hrest : HasExtension (stem ++ [dot]) stem [] := ⟨rfl, h.stem_ne, by simp⟩
  have hcurrent : stem ++ [dot] ≠ [dot] := by
    intro heq
    exact h.stem_ne (List.append_left_eq_self.mp heq)
  have hparent : stem ++ [dot] = [dot, dot] ↔ stem = [dot] := by
    rw [show [dot, dot] = [dot] ++ [dot] from rfl, List.append_left_inj]
  rw [withExtension, h.cutExtension_eq]
  simp only [hcurrent, hparent, false_or, hrest.stemOf_eq]
  split
  · rename_i hdot
    rw [hdot]
    rfl
  · rfl

/-! ### The parts of a path -/

theorem not_mem_of_mem_splitOn {sep : UInt8} {bytes part : List UInt8}
    (h : part ∈ bytes.splitOn sep) : sep ∉ part := by
  induction hn : bytes.length using Nat.strongRecOn generalizing bytes with
  | _ n ih =>
    by_cases hsep : sep ∈ bytes
    · obtain ⟨front, back, rfl, hfront⟩ := List.eq_append_cons_of_mem hsep
      rw [List.splitOn_append_cons_self_of_not_mem hfront, List.mem_cons] at h
      rcases h with rfl | hback
      · exact hfront
      · refine ih _ ?_ hback rfl
        rw [← hn, List.length_append, List.length_cons]
        omega
    · rw [List.splitOn_eq_singleton hsep, List.mem_singleton] at h
      rwa [h]

theorem not_mem_of_mem_segments {p : Path} {segment : FileName}
    (h : segment ∈ p.layout.segments) : slash ∉ segment := by
  unfold layout at h
  split at h
  · exact not_mem_of_mem_splitOn h
  · cases h
  · exact not_mem_of_mem_splitOn h
  · exact not_mem_of_mem_splitOn h

/-- There is no slash in a file name. -/
theorem not_mem_of_fileName? {p : Path} (h : p.fileName? = some name) : slash ∉ name := by
  unfold fileName? at h
  split at h
  · rename_i text hlast
    cases h
    rcases List.mem_append.mp (List.mem_of_getLast? hlast) with hstart | hsegment
    · unfold Component.ofStart at hstart
      split at hstart <;> simp at hstart
    · obtain ⟨segment, hmem, hname⟩ := List.mem_map.mp hsegment
      unfold Component.ofSegment at hname
      split at hname
      · cases hname
      · cases hname
        exact not_mem_of_mem_segments (List.mem_filter.mp hmem).1
  · cases h

theorem not_mem_of_stem? {p : Path} (h : p.stem? = some stem) : slash ∉ stem := by
  obtain ⟨name, hname, rfl⟩ := Option.map_eq_some_iff.mp h
  have hslash := not_mem_of_fileName? hname
  by_cases hdot : dot ∈ name.tail
  · obtain ⟨stem, extension, hparts⟩ := exists_hasExtension hdot
    rw [hparts.stemOf_eq]
    intro hmem
    exact hslash (by simp [hparts.parts, hmem])
  · rwa [stemOf_of_not_mem hdot]

/-- A name is a path with one component. -/
theorem components_of_name (hslash : slash ∉ name) (hempty : name ≠ []) (hcurrent : name ≠ [dot])
    (hparent : name ≠ [dot, dot]) : (⟨name⟩ : Path).components = [.name name] := by
  have hlayout : (⟨name⟩ : Path).layout = ⟨[], [name]⟩ := by
    unfold layout
    split
    · rename_i hname
      subst hname
      exact absurd List.mem_cons_self hslash
    · contradiction
    · rename_i hname
      subst hname
      exact absurd (List.mem_cons_of_mem dot List.mem_cons_self) hslash
    · rw [List.splitOn_eq_singleton hslash]
  have hcounts : counts name = true := by simp [counts, hempty, hcurrent]
  simp [components, hlayout, Component.ofStart, Component.ofSegment, hcounts, hparent]

theorem components_klb (hslash : slash ∉ name) :
    (⟨name ++ Text.encode ".klb"⟩ : Path).components = [.name (name ++ Text.encode ".klb")] := by
  have hlong : ∀ short : FileName, short.length < 4 → name ++ Text.encode ".klb" ≠ short := by
    rintro _ hshort rfl
    rw [List.length_append, show (Text.encode ".klb").length = 4 by decide] at hshort
    omega
  have hslash' : slash ∉ name ++ Text.encode ".klb" := by
    rw [List.mem_append, not_or]
    exact ⟨hslash, by decide⟩
  exact components_of_name hslash' (hlong _ (by decide)) (hlong _ (by decide))
    (hlong _ (by decide))

end Path

/-! ### The default output -/

namespace Cli

open StackAsm.Path

variable {source : Path} {s : FileName}

theorem defaultOutput_eq (h : source.stem? = some s) :
    defaultOutput source = ⟨withExtension s (Text.encode "klb")⟩ := by
  rw [defaultOutput, h]
  rfl

theorem defaultOutput_of_isBare (h : source.stem? = some s) (hbare : IsBare s) :
    defaultOutput source = ⟨s ++ Text.encode ".klb"⟩ := by
  rw [defaultOutput_eq h, hbare.withExtension_eq]
  rfl

theorem defaultOutput_of_hasExtension {stem extension : FileName} (h : source.stem? = some s)
    (hs : HasExtension s stem extension) :
    defaultOutput source = ⟨if stem = [dot] then [dot, dot] else stem ++ Text.encode ".klb"⟩ := by
  rw [defaultOutput_eq h, hs.withExtension_eq]
  rfl

theorem components_defaultOutput (h : source.stem? = some s) (hbare : IsBare s) :
    (defaultOutput source).components = [.name (s ++ Text.encode ".klb")] := by
  rw [defaultOutput_of_isBare h hbare, components_klb (not_mem_of_stem? h)]

/-- Only a stem without an extension keeps its name. -/
theorem isBare_of_defaultOutput (h : source.stem? = some s)
    (hout : defaultOutput source = ⟨s ++ Text.encode ".klb"⟩) : IsBare s := by
  rcases isBare_or_hasExtension s with hbare | rfl | ⟨stem, extension, hs⟩
  · exact hbare
  · rw [defaultOutput_eq h] at hout
    exact absurd hout (by decide)
  · -- without its extension, or in place of it, there is less of the stem
    rw [defaultOutput_of_hasExtension h hs, Path.mk.injEq, hs.parts] at hout
    have hlength := congrArg List.length hout
    have hklb : (Text.encode ".klb").length = 4 := by decide
    split at hlength
    · simp only [List.length_append, List.length_cons, List.length_nil, hklb] at hlength
      omega
    · simp only [List.length_append, List.length_cons] at hlength
      omega

/-- **By default, an image goes to the stem of its source with the extension `klb`, if the stem has
no extension of its own.** In that case, and in no other, the default output of a source with stem
`s` is `s.klb`, one component in the working directory; and another stem of this kind has another
default output. If the stem has an extension, then `klb` takes its place. A stem that is a dot, with
or without an extension, does not even make the name of a file. -/
theorem defaultOutput_stem (source : Path) (s : FileName) (h : source.stem? = some s) :
    (defaultOutput source = ⟨s ++ Text.encode ".klb"⟩ ↔ IsBare s) ∧
      (IsBare s → (defaultOutput source).components = [.name (s ++ Text.encode ".klb")]) ∧
      (∀ source' s', source'.stem? = some s' → IsBare s → IsBare s' →
        (defaultOutput source).same (defaultOutput source') = true → s = s') ∧
      (∀ stem extension, HasExtension s stem extension → stem ≠ [dot] →
        (defaultOutput source).components = [.name (stem ++ Text.encode ".klb")]) ∧
      ((s = [dot] ∨ ∃ extension, HasExtension s [dot] extension) →
        (defaultOutput source).fileName? = none) := by
  refine ⟨⟨isBare_of_defaultOutput h, defaultOutput_of_isBare h⟩, components_defaultOutput h,
    ?_, ?_, ?_⟩
  · intro source' s' h' hbare hbare' hsame
    have hcomponents := of_decide_eq_true hsame
    rw [components_defaultOutput h hbare, components_defaultOutput h' hbare'] at hcomponents
    simpa using hcomponents
  · intro stem extension hs hstem
    have hslash : slash ∉ stem := by
      intro hmem
      exact not_mem_of_stem? h (by simp [hs.parts, hmem])
    rw [defaultOutput_of_hasExtension h hs, if_neg hstem, components_klb hslash]
  · intro hdot
    rcases hdot with rfl | ⟨extension, hs⟩
    · rw [defaultOutput_eq h]
      decide +kernel
    · rw [defaultOutput_of_hasExtension h hs, if_pos rfl]
      decide +kernel

/-- A dot in front starts no extension. -/
theorem defaultOutput_hidden :
    defaultOutput "dir/.prog.klt" = ".prog.klb" ∧
      (defaultOutput "dir/.prog.klt").components = [.name (Text.encode ".prog.klb")] := by
  have h := defaultOutput_stem "dir/.prog.klt" (Text.encode ".prog") (by decide +kernel)
  exact ⟨h.1.mpr (by decide), h.2.1 (by decide)⟩

/-- Sources with different stems can go to one file, and its name is the stem of neither. -/
theorem defaultOutput_clash :
    Path.stem? "a.b.klt" = some (Text.encode "a.b") ∧
      Path.stem? "a.c.klt" = some (Text.encode "a.c") ∧
      defaultOutput "a.b.klt" = "a.klb" ∧ defaultOutput "a.c.klt" = "a.klb" := by
  decide +kernel

end Cli

end StackAsm
