import StackAsm.Proofs.Disassembly
import StackAsm.Proofs.Listing
import StackAsm.Proofs.Numerals

/-!
# StackAsm.Proofs.Legibility

What can be read off a listing.

No line of a listing has a line end in it, so the lines are found again (`Image.lines_listing`). The
header and the records of the labels are lines of a fixed number of words, each a number or a fixed
text (`Image.words_headerLine`, `Image.words_recordLine`). How many records there are stands above
them. Of the lines of the code, those that show a unit start with a blank, and those that mark a
label do not; and in a unit's line the bytes stand in columns of their own (`Image.shownBytes`), so
that what is said about them behind does not matter.

So a listing tells all about its image, up to how it is compressed: only whether it is.
-/

namespace StackAsm.Image

open Text

/-! ### The header -/

/-- The words in the line of a header. -/
def headerWords (h : Header) : List String :=
  ["version", decimal h.version.toNat ++ ",",
    if h.compression = 0 then "uncompressed," else "compressed,",
    "entry", hexWord h.entry.toNat ++ ",", "stack", "size", decimal h.stackSize.toNat ++ ",",
    "checksum", hexLong h.checksum.toNat]

theorem headerLine_eq_intercalate (h : Header) :
    headerLine h = " ".intercalate (headerWords h) := by
  rw [← String.toList_inj, String.toList_intercalate]
  unfold headerLine headerWords
  split <;> simp [List.intercalate]

theorem words_headerLine (h : Header) :
    words (headerLine h).toList = (headerWords h).map String.toList := by
  have hplain : ∀ word ∈ headerWords h, word ≠ "" ∧ ' ' ∉ word.toList := by
    unfold headerWords
    split <;> simp
  rw [headerLine_eq_intercalate, String.toList_intercalate]
  refine words_intercalate fun part hpart => ?_
  obtain ⟨word, hword, rfl⟩ := List.mem_map.mp hpart
  simpa using hplain word hword

theorem headerLine_eq_iff {g h : Header} :
    headerLine g = headerLine h ↔ g.version = h.version ∧ g.entry = h.entry ∧
      g.stackSize = h.stackSize ∧ g.checksum = h.checksum ∧
      (g.compression = 0 ↔ h.compression = 0) := by
  constructor
  · intro heq
    have hwords : headerWords g = headerWords h := by
      refine List.map_injective_iff.mpr (fun _ _ => String.toList_inj.mp) ?_
      rw [← words_headerLine, heq, words_headerLine]
    simp only [headerWords, List.cons.injEq, String.append_left_inj, true_and, and_true] at hwords
    obtain ⟨hversion, hflag, hentry, hsize, hsum⟩ := hwords
    refine ⟨UInt8.toNat.inj (decimal_injective hversion),
      UInt32.toNat.inj (hexWord_injective hentry), UInt16.toNat.inj (decimal_injective hsize),
      UInt32.toNat.inj (hexLong_injective hsum), ?_⟩
    by_cases hg : g.compression = 0 <;> by_cases hh : h.compression = 0 <;> simp_all
  · rintro ⟨hversion, hentry, hsize, hsum, hflag⟩
    rw [headerLine_eq_intercalate, headerLine_eq_intercalate]
    simp only [headerWords, hversion, hentry, hsize, hsum, hflag]

/-! ### Labels -/

theorem words_recordLine (r : LabelRecord) :
    words (recordLine r).toList =
      ['#' :: (decimal r.id.toNat).toList, (hexWord r.address.toNat).toList] := by
  obtain ⟨k, hpad⟩ := toList_padRight 5 (decimal r.id.toNat)
  have hline : (recordLine r).toList =
      ' ' :: ' ' :: ((('#' :: (decimal r.id.toNat).toList) ++ List.replicate k ' ') ++
        ' ' :: (hexWord r.address.toNat).toList) := by
    simp [recordLine, hpad]
  rw [hline, words_cons_blank, words_cons_blank, words_append_blank, words_append_replicate,
    words_eq_singleton (by simp) (by simp), words_eq_singleton (by simp) (by simp)]
  rfl

theorem recordLine_injective : Function.Injective recordLine := by
  intro r r' h
  have hwords := words_recordLine r
  rw [h, words_recordLine] at hwords
  simp only [List.cons.injEq, String.toList_inj, true_and, and_true] at hwords
  obtain ⟨hid, haddress⟩ := hwords
  obtain ⟨id, address⟩ := r
  obtain ⟨id', address'⟩ := r'
  rw [LabelRecord.mk.injEq]
  exact ⟨UInt16.toNat.inj (decimal_injective hid.symm),
    UInt32.toNat.inj (hexWord_injective haddress.symm)⟩

/-! ### Code -/

/-- Whether a line below the labels shows a unit. -/
def showsUnit (line : String) : Bool := line.toList.head? = some ' '

/-- The bytes in the line of a unit: they are in the eleven columns behind the address. -/
def shownBytes (line : String) : List (List Char) :=
  words ((((line.toList.drop 2).dropWhile (· ≠ ' ')).drop 2).take 11)

theorem filter_unitLines (image : Image) (unit : DisassembledUnit) :
    (image.unitLines unit).filter showsUnit = [image.unitLine unit] := by
  have hmarks : ∀ line ∈ (image.labels.filter fun r => r.address = unit.address).map
      (fun r => "#" ++ decimal r.id.toNat ++ ":"), ¬ showsUnit line := by
    intro line hline
    obtain ⟨r, -, rfl⟩ := List.mem_map.mp hline
    simp [showsUnit]
  have hunit : showsUnit (image.unitLine unit) = true := by simp [showsUnit, unitLine]
  rw [unitLines, List.filter_append, List.filter_eq_nil_iff.mpr hmarks, List.nil_append,
    List.filter_cons_of_pos hunit, List.filter_nil]

theorem shownBytes_unitLine (image : Image) {unit : DisassembledUnit} (h : unit.raw.length ≤ 4) :
    shownBytes (image.unitLine unit) = unit.raw.map byteDigits := by
  have hline : (image.unitLine unit).toList =
      ' ' :: ' ' :: ((hexWord unit.address.toNat).toList ++
        ' ' :: ' ' :: ((padRight 11 (hexBytes unit.raw)).toList ++
          ("  " ++ unit.instruction.render ++ image.targetText unit.instruction).toList)) := by
    simp [unitLine]
  have hcolumns : (padRight 11 (hexBytes unit.raw)).toList.length = 11 := by
    rw [String.length_toList, length_padRight, length_hexBytes]
    omega
  obtain ⟨k, hpad⟩ := toList_padRight 11 (hexBytes unit.raw)
  rw [shownBytes, hline, List.drop_succ_cons, List.drop_succ_cons, List.drop_zero,
    dropWhile_ne_append (by simp), List.dropWhile_cons_of_neg (by simp),
    List.drop_succ_cons, List.drop_succ_cons, List.drop_zero, List.take_left' hcolumns, hpad,
    words_append_replicate, words_hexBytes]

/-- The bytes shown by the units are those of the code. -/
theorem flatMap_shownBytes (image : Image) :
    (((disassemble image.code).flatMap image.unitLines).filter showsUnit).flatMap shownBytes =
      image.code.map byteDigits := by
  have hlines : ((disassemble image.code).flatMap image.unitLines).filter showsUnit =
      (disassemble image.code).map image.unitLine := by
    rw [List.filter_flatMap, List.map_eq_flatMap]
    exact List.flatMap_congr fun unit _ => image.filter_unitLines unit
  have hbytes : (disassemble image.code).flatMap (fun unit => shownBytes (image.unitLine unit)) =
      (disassemble image.code).flatMap fun unit => unit.raw.map byteDigits :=
    List.flatMap_congr fun unit hunit => image.shownBytes_unitLine (length_raw_le hunit)
  rw [hlines, List.flatMap_map, hbytes, ← List.map_flatMap, flatMap_raw_disassemble]

/-! ### The whole text -/

theorem isLine_headerLine (h : Header) : IsLine (headerLine h) := by
  unfold headerLine
  split <;> exact ⟨by simp, by simp, by simp⟩

theorem isLine_recordLine (r : LabelRecord) : IsLine (recordLine r) :=
  ⟨by simp [recordLine], by simp [recordLine], by simp [recordLine]⟩

theorem isLine_unitLine (image : Image) (unit : DisassembledUnit) :
    IsLine (image.unitLine unit) where
  nonempty := by simp [unitLine]
  feed := by
    have hfeed : IsForeign '\n' := by decide
    have hinstruction := hfeed.not_mem_instruction (by decide) image unit.instruction
    simp [unitLine, hinstruction]
  carriageReturn := by
    have hreturn : IsForeign '\r' := by decide
    have hinstruction := hreturn.not_mem_instruction (by decide) image unit.instruction
    simp [unitLine, hinstruction]

theorem isLine_of_mem_unitLines {image : Image} {unit : DisassembledUnit} {line : String}
    (h : line ∈ image.unitLines unit) : IsLine line := by
  rcases List.mem_append.mp h with hmark | hunit
  · obtain ⟨r, -, rfl⟩ := List.mem_map.mp hmark
    exact ⟨by simp, by simp, by simp⟩
  · rw [List.mem_singleton.mp hunit]
    exact image.isLine_unitLine unit

/-- The lines of a listing are found again. -/
theorem lines_listing (image : Image) : lines image.listing = image.listingLines := by
  refine lines_join fun line hline => ?_
  simp only [listingLines, List.cons_append, List.mem_cons, List.mem_append, List.mem_map,
    List.mem_flatMap] at hline
  rcases hline with rfl | rfl | ⟨r, -, rfl⟩ | rfl | ⟨unit, -, hunit⟩
  · exact isLine_headerLine image.header
  · exact ⟨by simp, by simp, by simp⟩
  · exact isLine_recordLine r
  · exact ⟨by simp, by simp, by simp⟩
  · exact isLine_of_mem_unitLines hunit

/-- The parts of an image can be read off its listing. -/
theorem parts_eq_of_listing_eq {a b : Image} (h : a.listing = b.listing) :
    headerLine a.header = headerLine b.header ∧ a.labels = b.labels ∧ a.code = b.code := by
  have hlines : a.listingLines = b.listingLines := by
    rw [← lines_listing a, h, lines_listing b]
  simp only [listingLines, List.cons_append, List.cons.injEq] at hlines
  obtain ⟨hheader, hcount, hrest⟩ := hlines
  have hcount : a.labels.length = b.labels.length :=
    decimal_injective ((String.append_right_inj _).mp ((String.append_left_inj _).mp hcount))
  obtain ⟨hrecords, hcode⟩ := List.append_inj hrest (by simpa using hcount)
  obtain ⟨-, hunits⟩ := List.cons.inj hcode
  refine ⟨hheader, List.map_injective_iff.mpr recordLine_injective hrecords,
    List.map_injective_iff.mpr byteDigits_injective ?_⟩
  rw [← flatMap_shownBytes a, hunits, flatMap_shownBytes b]

/-- **A listing tells all about its image but the kind of compression.** The listings of two images,
whatever labels and code they have, are the same text if and only if the images have the same
version, entry point, stack size, checksum, labels and code, and both are compressed or neither
is. -/
theorem listing_eq_listing_iff (a b : Image) :
    a.listing = b.listing ↔
      a.header.version = b.header.version ∧ a.header.entry = b.header.entry ∧
        a.header.stackSize = b.header.stackSize ∧ a.header.checksum = b.header.checksum ∧
        a.labels = b.labels ∧ a.code = b.code ∧
        (a.header.compression = 0 ↔ b.header.compression = 0) := by
  constructor
  · intro h
    obtain ⟨hheader, hlabels, hcode⟩ := parts_eq_of_listing_eq h
    obtain ⟨hversion, hentry, hsize, hsum, hflag⟩ := headerLine_eq_iff.mp hheader
    exact ⟨hversion, hentry, hsize, hsum, hlabels, hcode, hflag⟩
  · rintro ⟨hversion, hentry, hsize, hsum, hlabels, hcode, hflag⟩
    obtain ⟨g, labels, code⟩ := a
    obtain ⟨g', labels', code'⟩ := b
    obtain rfl : labels = labels' := hlabels
    obtain rfl : code = code' := hcode
    -- the header is in no line but its own
    have hunits : unitLines ⟨g, labels, code⟩ = unitLines ⟨g', labels, code⟩ := rfl
    have hheader : headerLine g = headerLine g' :=
      headerLine_eq_iff.mpr ⟨hversion, hentry, hsize, hsum, hflag⟩
    simp only [listing, listingLines, hunits, hheader]

end StackAsm.Image
