import StackAsm.Proofs.Assembled
import StackAsm.Proofs.Listing
import StackAsm.Proofs.Units

/-!
# StackAsm.Proofs.WellFormed

What the loader of an image can rely on.

`Image.WellFormed` is a condition on an image alone, and can be checked: its code is made of whole
units whose operands mean something, and its label table points into the code. Every image that is
assembled meets it (`Program.IsImage.wellFormed`): code is a run of source units, so that all
addresses are multiples of the width of a unit; and ids are indices of last declarations, so that
two labels never share one.
-/

namespace StackAsm

namespace Register

theorem index_lt (r : Register) : r.index.toNat < 11 := by
  cases r <;> decide

theorem ofIndex?_isSome {w : UInt16} (h : w.toNat < 11) : (ofIndex? w).isSome := by
  have hall : ∀ n < 11, (ofIndex? (UInt16.ofNat n)).isSome := by decide
  simpa using hall w.toNat h

end Register

namespace Image

/-- Whether a loader can make sense of a unit. There are eleven registers. -/
def Admits (image : Image) : Instruction → Prop
  | .known .rgw w | .known .rgr w => w.toNat < 11
  | .known .nop w | .known .hlt w | .known .jmpa w => w = 0
  | .known .llbl w => ∃ r ∈ image.labels, r.id = w
  | .known .sl _ | .known .spop _ | .known .add _ => True
  | .unknown .. | .trailing .. => False

instance (image : Image) : DecidablePred image.Admits
  | .known .rgw w | .known .rgr w => inferInstanceAs (Decidable (w.toNat < 11))
  | .known .nop w | .known .hlt w | .known .jmpa w => inferInstanceAs (Decidable (w = 0))
  | .known .llbl w => inferInstanceAs (Decidable (∃ r ∈ image.labels, r.id = w))
  | .known .sl _ | .known .spop _ | .known .add _ => inferInstanceAs (Decidable True)
  | .unknown .. | .trailing .. => inferInstanceAs (Decidable False)

/-- What a loader expects of an image. -/
@[mk_iff] structure WellFormed (image : Image) : Prop where
  /-- The code is made of whole units. -/
  aligned : 4 ∣ image.code.length
  /-- Every unit is an operation with an operand that it can take. -/
  units : ∀ unit ∈ disassemble image.code, image.Admits unit.instruction
  /-- No two labels share an id. -/
  distinct : (image.labels.map LabelRecord.id).Nodup
  /-- Labels point at units, or just past the code. -/
  addresses : ∀ r ∈ image.labels, 4 ∣ r.address.toNat ∧ r.address.toNat ≤ image.code.length
  /-- Execution starts at a label. -/
  entry : ∃ r ∈ image.labels, r.address = image.header.entry

instance : DecidablePred WellFormed := fun image => decidable_of_iff' _ image.wellFormed_iff

theorem admits_sourceUnit {image : Image} {id : String → LabelId} {u : SourceUnit}
    (h : ∀ label, u.label? = some label → ∃ r ∈ image.labels, r.id = id label) :
    image.Admits (.known u.op (u.operand id)) := by
  cases u with
  | nop | hlt | jmpa => exact rfl
  | sl | spop | add => trivial
  | rgw r | rgr r => exact r.index_lt
  | llbl label => exact h label rfl

end Image

/-! ### Tables -/

theorem exists_right_of_forall₂ {α β : Type} {R : α → β → Prop} {xs : List α} {ys : List β}
    (h : List.Forall₂ R xs ys) {x : α} (hx : x ∈ xs) : ∃ y ∈ ys, R x y := by
  induction h with
  | nil => cases hx
  | @cons x' y xs ys hR _ ih =>
    rcases List.mem_cons.mp hx with rfl | hx
    · exact ⟨y, by simp, hR⟩
    · obtain ⟨y', hy', hR'⟩ := ih hx
      exact ⟨y', by simp [hy'], hR'⟩

theorem exists_left_of_forall₂ {α β : Type} {R : α → β → Prop} {xs : List α} {ys : List β}
    (h : List.Forall₂ R xs ys) {y : β} (hy : y ∈ ys) : ∃ x ∈ xs, R x y :=
  exists_right_of_forall₂ h.flip hy

/-- If what is read off the right elements tells the left ones apart, it differs where they do. -/
theorem nodup_map_of_forall₂ {α β γ : Type} {R : α → β → Prop} {f : β → γ} {xs : List α}
    {ys : List β} (h : List.Forall₂ R xs ys) (hxs : xs.Nodup)
    (hinj : ∀ x y x' y', R x y → R x' y' → f y = f y' → x = x') : (ys.map f).Nodup := by
  induction h with
  | nil => simp
  | @cons x y xs ys hR hrest ih =>
    obtain ⟨hnot, hnodup⟩ := List.nodup_cons.mp hxs
    rw [List.map_cons, List.nodup_cons]
    refine ⟨?_, ih hnodup⟩
    intro hmem
    obtain ⟨y', hy', hf⟩ := List.mem_map.mp hmem
    obtain ⟨x', hx', hR'⟩ := exists_left_of_forall₂ hrest hy'
    rw [hinj x y x' y' hR hR' hf.symm] at hnot
    exact hnot hx'

/-! ### Units of a program -/

theorem Line.exists_units {line : Line} (h : line.isInstruction = true → line.code?.isSome) :
    ∃ us : List SourceUnit, line.segments = us.flatMap SourceUnit.segments := by
  cases line with
  | instruction mnemonic operand =>
    obtain ⟨code, hcode⟩ := Option.isSome_iff_exists.mp (h rfl)
    obtain ⟨m, -, hencode⟩ := code?_instruction.mp hcode
    rw [segments_of_code? hcode]
    exact Mnemonic.exists_units hencode
  | _ => exact ⟨[], rfl⟩

namespace Program

variable {p : Program}

/-- The code of a program is a run of units. -/
theorem exists_units (h : ∀ line ∈ p, line.val.isInstruction = true → line.val.code?.isSome) :
    ∃ us : List SourceUnit,
      (p.flatMap fun line => line.val.segments) = us.flatMap SourceUnit.segments := by
  induction p with
  | nil => exact ⟨[], rfl⟩
  | cons line p ih =>
    obtain ⟨us, hus⟩ := Line.exists_units (h line (by simp))
    obtain ⟨vs, hvs⟩ := ih fun other hother => h other (by simp [hother])
    exact ⟨us ++ vs, by rw [List.flatMap_cons, hus, hvs, List.flatMap_append]⟩

/-- So it is made of whole ones. -/
theorem width_dvd (h : ∀ line ∈ p, line.val.isInstruction = true → line.val.code?.isSome) :
    CodeUnit.width ∣ p.width := by
  obtain ⟨us, hus⟩ := exists_units h
  rw [width_eq_totalWidth, hus, SourceUnit.totalWidth_flatMap_segments]
  exact Nat.dvd_mul_right ..

/-- A unit that loads a label comes from a line that refers to it. -/
theorem exists_reference {us : List SourceUnit}
    (h : ∀ line ∈ p, line.val.isInstruction = true → line.val.code?.isSome)
    (hus : (p.flatMap fun line => line.val.segments) = us.flatMap SourceUnit.segments)
    {u : SourceUnit} (hu : u ∈ us) {label : String} (hlabel : u.label? = some label) :
    ∃ line ∈ p, line.val.reference? = some label := by
  have hmem : label ∈ us.filterMap SourceUnit.label? := List.mem_filterMap.mpr ⟨u, hu, hlabel⟩
  rw [← SourceUnit.references_flatMap_segments, ← hus, Segment.references, List.filterMap_flatMap]
    at hmem
  obtain ⟨line, hline, hsegments⟩ := List.mem_flatMap.mp hmem
  change label ∈ Segment.references line.val.segments at hsegments
  rw [Line.references_segments (h line hline), Option.mem_toList] at hsegments
  exact ⟨line, hline, hsegments⟩

/-- What references to a label are filled with. -/
def labelId (p : Program) (label : String) : LabelId :=
  ((Declaration.last? p.declarations label).map fun d => UInt16.ofNat d.2).getD 0

end Program

/-! ### The image of a program -/

namespace Program.IsImage

variable {opts : Options} {p : Program} {image : Image}

/-- A declared label has a record, and references to it are filled with the id in that record. -/
theorem exists_record (h : p.IsImage opts image) {label : String} (hlabel : p.Declares label) :
    p.fill (.label label) = BigEndian.bytes16 (p.labelId label) ∧
      ∃ r ∈ image.labels, r.id = p.labelId label := by
  obtain ⟨r, hr, d, hlast, -⟩ :=
    exists_right_of_forall₂ h.labels (Declaration.mem_names.mpr hlabel)
  have hid : r.id = p.labelId label := by simp [labelId, hlast]
  refine ⟨?_, r, hr, hid⟩
  rw [← hid, BigEndian.bytes16_eq, fill, hlast]

/-- Units that refer to declared labels, with the ids filled in. -/
theorem fill_units (h : p.IsImage opts image) {us : List SourceUnit}
    (hus : ∀ u ∈ us, ∀ label, u.label? = some label → p.Declares label) :
    (us.flatMap SourceUnit.segments).flatMap p.fill =
      CodeUnit.encodeAll (us.map fun u => (u.op, u.operand p.labelId)) := by
  rw [List.flatMap_assoc, CodeUnit.encodeAll, List.flatMap_map]
  refine List.flatMap_congr fun u hu => ?_
  refine SourceUnit.flatMap_segments (fun _ => rfl) fun label hlabel => ?_
  exact (h.exists_record (hus u hu label hlabel)).1

/-- The code of any lines of the program, with the ids filled in, is made of units. -/
theorem exists_units_of_subset (h : p.IsImage opts image) {q : Program} (hq : q ⊆ p) :
    ∃ us : List SourceUnit,
      (q.flatMap fun line => line.val.segments.flatMap p.fill) =
        CodeUnit.encodeAll (us.map fun u => (u.op, u.operand p.labelId)) ∧
      CodeUnit.width * us.length = q.width ∧
      ∀ u ∈ us, ∀ label, u.label? = some label → p.Declares label := by
  have hencodable : ∀ line ∈ q, line.val.isInstruction = true → line.val.code?.isSome :=
    fun line hline => h.encodable line (hq hline)
  obtain ⟨us, hus⟩ := Program.exists_units hencodable
  have hdeclared : ∀ u ∈ us, ∀ label, u.label? = some label → p.Declares label := by
    intro u hu label hlabel
    obtain ⟨line, hline, href⟩ := exists_reference hencodable hus hu hlabel
    exact h.resolved line (hq hline) label href
  refine ⟨us, ?_, ?_, hdeclared⟩
  · -- the code line by line is the code unit by unit
    rw [← List.flatMap_assoc, hus, h.fill_units hdeclared]
  · rw [width_eq_totalWidth, hus, SourceUnit.totalWidth_flatMap_segments]

/-- The code of an image is made of the units of the program. -/
theorem exists_units (h : p.IsImage opts image) :
    ∃ us : List SourceUnit,
      image.code = CodeUnit.encodeAll (us.map fun u => (u.op, u.operand p.labelId)) ∧
        CodeUnit.width * us.length = p.width ∧
        ∀ u ∈ us, ∀ label, u.label? = some label → p.Declares label := by
  rw [h.code]
  exact h.exists_units_of_subset (List.Subset.refl p)

/-- The code of any lines of the program takes the width of these lines. -/
theorem length_fill (h : p.IsImage opts image) {q : Program} (hq : q ⊆ p) :
    (q.flatMap fun line => line.val.segments.flatMap p.fill).length = q.width := by
  obtain ⟨us, hcode, hwidth, -⟩ := h.exists_units_of_subset hq
  rw [hcode, CodeUnit.length_encodeAll, List.length_map, hwidth]

theorem length_code (h : p.IsImage opts image) : image.code.length = p.width := by
  rw [h.code]
  exact h.length_fill (List.Subset.refl p)

/-- An id stands for one declaration, so that it belongs to one label. -/
theorem nodup_ids (h : p.IsImage opts image) : (image.labels.map LabelRecord.id).Nodup := by
  refine nodup_map_of_forall₂ h.labels (Declaration.nodup_names p.declarations) ?_
  intro label₁ r₁ label₂ r₂ h₁ h₂ hid
  obtain ⟨d₁, hlast₁, -⟩ := h₁
  obtain ⟨d₂, hlast₂, -⟩ := h₂
  obtain ⟨hget₁, hname₁, -⟩ := Declaration.last?_eq_some hlast₁
  obtain ⟨hget₂, hname₂, -⟩ := Declaration.last?_eq_some hlast₂
  -- both labels were last declared by the declaration with this index
  rw [hid, hget₂] at hget₁
  obtain rfl : d₂ = d₁ := Option.some.inj hget₁
  exact hname₁.symm.trans hname₂

theorem admits_units (h : p.IsImage opts image) :
    ∀ unit ∈ disassemble image.code, image.Admits unit.instruction := by
  intro unit hunit
  obtain ⟨us, hcode, -, hdeclared⟩ := h.exists_units
  rw [hcode, disassemble_encodeAll] at hunit
  obtain ⟨i, hi, rfl⟩ := List.mem_mapIdx.mp hunit
  rw [List.getElem_map]
  refine Image.admits_sourceUnit fun label hlabel => ?_
  exact (h.exists_record (hdeclared _ (List.getElem_mem _) label hlabel)).2

theorem address_of_record (h : p.IsImage opts image) {r : LabelRecord} (hr : r ∈ image.labels) :
    4 ∣ r.address.toNat ∧ r.address.toNat ≤ image.code.length := by
  obtain ⟨label, -, d, hlast, haddress⟩ := exists_left_of_forall₂ h.labels hr
  obtain ⟨hget, -, -⟩ := Declaration.last?_eq_some hlast
  have hd : d ∈ p.declarations := List.mem_of_getElem? hget
  obtain ⟨i, hi⟩ := exists_take_of_mem_declarations hd
  rw [haddress, h.length_code]
  refine ⟨?_, address_le_width hd⟩
  rw [hi]
  -- the lines before a declaration make a program too
  exact width_dvd fun line hline => h.encodable line (List.mem_of_mem_take hline)

theorem exists_entry (h : p.IsImage opts image) :
    ∃ r ∈ image.labels, r.address = image.header.entry := by
  obtain ⟨d, i, hlast, hentry⟩ := h.entry
  have hname : opts.entryPoint ∈ Declaration.names p.declarations :=
    Declaration.last?_isSome_iff.mp (by rw [hlast]; rfl)
  obtain ⟨r, hr, d', hlast', haddress⟩ := exists_right_of_forall₂ h.labels hname
  -- the record of the entry point tells of the declaration that the header tells of
  rw [hlast] at hlast'
  cases hlast'
  exact ⟨r, hr, UInt32.toNat.inj (haddress.trans hentry.symm)⟩

/-- The image of a program is well formed. -/
theorem wellFormed (h : p.IsImage opts image) : image.WellFormed where
  aligned := by
    rw [h.length_code]
    exact width_dvd h.encodable
  units := h.admits_units
  distinct := h.nodup_ids
  addresses := fun _ => h.address_of_record
  entry := h.exists_entry

end Program.IsImage

/-! ### Nothing is left open -/

namespace Image

/-- A unit that can be loaded refers to something. -/
theorem Admits.not_dangling {image : Image} {i : Instruction} (h : image.Admits i) :
    ¬ image.Dangling i := by
  cases i with
  | unknown | trailing => exact h.elim
  | known op w =>
    cases op with
    | rgw | rgr =>
      intro hnone
      have hsome := Register.ofIndex?_isSome h
      rw [hnone] at hsome
      cases hsome
    | llbl =>
      intro hnone
      obtain ⟨r, hr, hid⟩ := h
      have hfind : image.labels.find? (fun r => r.id = w) = none := Option.map_eq_none_iff.mp hnone
      simpa [hid] using List.find?_eq_none.mp hfind r hr
    | _ => exact id

theorem WellFormed.question_not_mem_listing {image : Image} (h : image.WellFormed) :
    '?' ∉ image.listing.toList := by
  intro hmem
  obtain ⟨unit, hunit, hdangling⟩ := (question_mem_listing image).mp hmem
  exact (h.units unit hunit).not_dangling hdangling

end Image

/-- **Every assembled image is well formed for the loader.** Its code is made of whole units that
are known and have operands in range, its labels have ids of their own and point at units or just
past the code, execution starts at one of them, and its listing leaves nothing open. -/
theorem assembled_wellFormed (load : Loader) (opts : Options) (assembly : Assembly)
    (h : Assembles load opts assembly) :
    assembly.image.WellFormed ∧ '?' ∉ assembly.image.listing.toList := by
  obtain ⟨p, -, himage⟩ := h.exists_program
  exact ⟨himage.wellFormed, himage.wellFormed.question_not_mem_listing⟩

/-- Two files. The second one declares a label of the first one again. -/
def twoFiles : Store :=
  (({} : Store).insert "g" "g:\nrgr pc\nret\nmain:").insert "f" "main:\njmpr g\n#include g\nhlt"

theorem twoFiles_wellFormed :
    ∃ assembly, (assembleFile twoFiles.load {} "f").result = .ok assembly ∧
      assembly.image.labels = [⟨2, 32⟩, ⟨1, 20⟩] ∧ assembly.image.code.length = 36 ∧
      assembly.image.WellFormed ∧ '?' ∉ assembly.image.listing.toList := by
  have himage : ((assembleFile twoFiles.load {} "f").result.map fun assembly =>
      (assembly.image.labels, assembly.image.code.length)).toOption =
        some ([⟨2, 32⟩, ⟨1, 20⟩], 36) := by cbv
  obtain ⟨assembly, hok, hvalues⟩ := exists_ok_of_map himage
  obtain ⟨hlabels, hlength⟩ := Prod.mk.inj hvalues
  exact ⟨assembly, hok, hlabels, hlength, assembled_wellFormed _ _ assembly (.file hok)⟩

/-- An image that loads a label without a record is not well formed. -/
example : ¬ Image.WellFormed ⟨{ entry := 0, stackSize := 4 }, [⟨0, 0⟩], [0, 4, 0, 1]⟩ := by decide

end StackAsm
