import StackAsm.Proofs.Resolving

/-!
# StackAsm.Proofs.Layout

The image of a program without directives, read off its lines.

`Program.IsImage` defines the image without passes, tables or placeholders: the id of a label is the
index of its last declaration among all declarations, its address is the width of the code before
that declaration, and the code is that of the instructions in order with these ids in it. It does
not matter whether a declaration comes before or after a reference, nor how often a label is
declared: a reference under the first declaration of a label gets the id of the last one too.

`assembleLines_isImage` says that this is what the two passes produce. Ids and addresses are numbers
here and words there; that none of them is cut off is what the conditions on scannable programs are
for (`Program.Scannable.symbol_toNat`).
-/

namespace StackAsm

theorem forall₂_filterMap {α β : Type} {R : α → β → Prop} {f : α → Option β} {l : List α}
    (h : ∀ a ∈ l, ∃ b, f a = some b ∧ R a b) : List.Forall₂ R l (l.filterMap f) := by
  induction l with
  | nil => exact .nil
  | cons a l ih =>
    obtain ⟨b, hb, hR⟩ := h a (by simp)
    rw [List.filterMap_cons_some hb]
    exact .cons hR (ih fun a' ha' => h a' (by simp [ha']))

theorem BigEndian.bytes16_eq (w : UInt16) :
    bytes16 w = [UInt8.ofNat (w.toNat / 256), UInt8.ofNat (w.toNat % 256)] := by
  have hlow : UInt8.ofNat w.toNat = UInt8.ofNat (w.toNat % 256) := by
    apply UInt8.toNat.inj
    simp
  rw [bytes16, hlow]

namespace Program

/-- The bytes of a segment; a reference is the index of the last declaration, high byte first. -/
def fill (p : Program) : Segment → List UInt8
  | .bytes raw => raw
  | .label name =>
    match Declaration.last? p.declarations name with
    | some (_, i) => [UInt8.ofNat (i / 256), UInt8.ofNat (i % 256)]
    | none => []

/-- What the image of a program is. -/
structure IsImage (opts : Options) (p : Program) (image : Image) : Prop where
  /-- Every instruction has code. -/
  encodable : ∀ line ∈ p, line.val.isInstruction = true → line.val.code?.isSome
  /-- Every reference has a declaration. -/
  resolved : ∀ line ∈ p, ∀ label, line.val.reference? = some label → p.Declares label
  /-- The code is that of all instructions, in order. -/
  code : image.code = p.flatMap fun line => line.val.segments.flatMap p.fill
  /-- There is a record for each label by first declaration, and it tells of the last one. -/
  labels : List.Forall₂ (fun label record => ∃ d,
      Declaration.last? p.declarations label = some (d, record.id.toNat) ∧
        record.address.toNat = d.address)
    (Declaration.names p.declarations) image.labels
  /-- Execution starts at the last declaration of the entry point. -/
  entry : ∃ d i, Declaration.last? p.declarations opts.entryPoint = some (d, i) ∧
    image.header.entry.toNat = d.address
  /-- The label table gives addresses for the ids of last declarations, and for no others. -/
  lookup : ∀ id address, image.addressOf? id = some address ↔
    ∃ label d, Declaration.last? p.declarations label = some (d, id.toNat) ∧
      address.toNat = d.address

/-! ### Numbers and words -/

theorem address_of_declaration? {before : Program} {line : Located Line} {d : Declaration}
    (h : declaration? before line = some d) : d.address = before.width := by
  unfold declaration? at h
  split at h
  · cases h
    rfl
  · cases h

/-- A declaration stands between two lines, at the width of the code before it. -/
theorem exists_take_of_mem_declarations {p : Program} {d : Declaration} (h : d ∈ p.declarations) :
    ∃ i, d.address = width (p.take i) := by
  rcases List.mem_append.mp h with hauto | hlabel
  · obtain ⟨line, -, rfl⟩ : ∃ line, bareStart? p = some line ∧
        ⟨Scanner.automaticMain, line.loc, 0⟩ = d := by simpa using hauto
    exact ⟨0, rfl⟩
  · obtain ⟨⟨line, i⟩, -, hd⟩ := List.mem_filterMap.mp hlabel
    exact ⟨i, address_of_declaration? hd⟩

theorem address_le_width {p : Program} {d : Declaration} (h : d ∈ p.declarations) :
    d.address ≤ p.width := by
  obtain ⟨i, hi⟩ := exists_take_of_mem_declarations h
  have hsplit : p.width = width (p.take i) + width (p.drop i) := by
    rw [← width_append, List.take_append_drop]
  omega

variable {opts : Options} {p : Program}

/-- The word of an id is the index, and the word of an address is the address. -/
theorem Scannable.symbol_toNat (h : Scannable opts p) {label : String} {d : Declaration} {i : Nat}
    (hlast : Declaration.last? p.declarations label = some (d, i)) :
    (d.symbol i).id.toNat = i ∧ (d.symbol i).address.toNat = d.address := by
  obtain ⟨hget, -, -⟩ := Declaration.last?_eq_some hlast
  have hindex : i < SymbolTable.capacity :=
    Nat.lt_of_lt_of_le (List.getElem?_eq_some_iff.mp hget).1 h.counted
  have haddress : d.address < UInt32.size :=
    Nat.lt_of_le_of_lt (address_le_width (List.mem_of_getElem? hget)) h.fits
  exact ⟨Nat.mod_eq_of_lt hindex, Nat.mod_eq_of_lt haddress⟩

end Program

namespace Scan.Of

variable {scan : Scan} {p : Program} {opts : Options}

/-- What the table says of a declared label, in numbers. -/
theorem get?_eq_some (h : scan.Of p) (hp : p.Scannable opts) {label : String} {symbol : Symbol}
    (hget : scan.symbols.get? label = some symbol) :
    ∃ d, Declaration.last? p.declarations label = some (d, symbol.id.toNat) ∧
      symbol.address.toNat = d.address := by
  rw [h.symbols.get?] at hget
  obtain ⟨⟨d, i⟩, hlast, rfl⟩ := Option.map_eq_some_iff.mp hget
  obtain ⟨hid, haddress⟩ := hp.symbol_toNat hlast
  exact ⟨d, by rw [hid, hlast], haddress⟩

/-! ### Code -/

theorem resolve?_eq (h : scan.Of p) (hp : p.Scannable opts) (segment : Segment) :
    (segment.resolve? scan.symbols).getD [] = p.fill segment := by
  cases segment with
  | bytes raw => rfl
  | label name =>
    rw [Segment.resolve?, Program.fill, h.symbols.get?]
    cases hlast : Declaration.last? p.declarations name with
    | none => rfl
    | some found =>
      obtain ⟨d, i⟩ := found
      simp only [Option.map_some, Option.getD_some, BigEndian.bytes16_eq, (hp.symbol_toNat hlast).1]

theorem filled_eq (h : scan.Of p) (hp : p.Scannable opts) :
    scan.filled = p.flatMap fun line => line.val.segments.flatMap p.fill := by
  unfold filled
  rw [h.segments, Program.segments, List.flatMap_assoc]
  congr 1
  funext line
  rw [List.flatMap_map]
  congr 1
  funext segment
  exact h.resolve?_eq hp segment

/-! ### The label table -/

theorem records_eq (h : scan.Of p) :
    scan.symbols.records = (Declaration.names p.declarations).filterMap fun label =>
      (Declaration.last? p.declarations label).map fun d =>
        ⟨(d.1.symbol d.2).id, (d.1.symbol d.2).address⟩ := by
  rw [SymbolTable.records, h.symbols.toList, List.map_filterMap]
  congr 1
  funext label
  rw [Option.map_map]
  rfl

theorem forall₂_records (h : scan.Of p) (hp : p.Scannable opts) :
    List.Forall₂ (fun label record => ∃ d,
        Declaration.last? p.declarations label = some (d, record.id.toNat) ∧
          record.address.toNat = d.address)
      (Declaration.names p.declarations) scan.symbols.records := by
  rw [h.records_eq]
  refine forall₂_filterMap fun label hlabel => ?_
  obtain ⟨⟨d, i⟩, hlast⟩ := Option.isSome_iff_exists.mp (Declaration.last?_isSome_iff.mpr hlabel)
  obtain ⟨hid, haddress⟩ := hp.symbol_toNat hlast
  exact ⟨_, by rw [hlast]; rfl, d, by rw [hid, hlast], haddress⟩

theorem mem_records (h : scan.Of p) (hp : p.Scannable opts) {record : LabelRecord} :
    record ∈ scan.symbols.records ↔
      ∃ label d, Declaration.last? p.declarations label = some (d, record.id.toNat) ∧
        record.address.toNat = d.address := by
  rw [h.records_eq, List.mem_filterMap]
  constructor
  · rintro ⟨label, -, hrecord⟩
    obtain ⟨⟨d, i⟩, hlast, rfl⟩ := Option.map_eq_some_iff.mp hrecord
    obtain ⟨hid, haddress⟩ := hp.symbol_toNat hlast
    exact ⟨label, d, by rw [hid, hlast], haddress⟩
  · rintro ⟨label, d, hlast, haddress⟩
    obtain ⟨hid, haddress'⟩ := hp.symbol_toNat hlast
    refine ⟨label, Declaration.last?_isSome_iff.mp (by rw [hlast]; rfl), ?_⟩
    rw [hlast, Option.map_some]
    congr 1
    -- words are equal when they stand for the same number
    obtain ⟨id, address⟩ := record
    rw [LabelRecord.mk.injEq]
    exact ⟨UInt16.toNat.inj hid, UInt32.toNat.inj (haddress'.trans haddress.symm)⟩

/-- An id stands for one declaration, so that it has one address. -/
theorem address_of_id (h : scan.Of p) (hp : p.Scannable opts) {r₁ r₂ : LabelRecord}
    (h₁ : r₁ ∈ scan.symbols.records) (h₂ : r₂ ∈ scan.symbols.records) (hid : r₁.id = r₂.id) :
    r₁.address = r₂.address := by
  obtain ⟨label₁, d₁, hlast₁, haddress₁⟩ := (h.mem_records hp).mp h₁
  obtain ⟨label₂, d₂, hlast₂, haddress₂⟩ := (h.mem_records hp).mp h₂
  obtain ⟨hget₁, -, -⟩ := Declaration.last?_eq_some hlast₁
  obtain ⟨hget₂, -, -⟩ := Declaration.last?_eq_some hlast₂
  -- both records tell of the declaration with this index
  rw [hid, hget₂] at hget₁
  obtain rfl : d₂ = d₁ := Option.some.inj hget₁
  exact UInt32.toNat.inj (haddress₁.trans haddress₂.symm)

end Scan.Of

/-- If an id has one address, every record with it tells that address. -/
theorem Image.addressOf?_eq_some {image : Image} {id : LabelId} {address : Address}
    (hone : ∀ r₁ ∈ image.labels, ∀ r₂ ∈ image.labels, r₁.id = r₂.id → r₁.address = r₂.address) :
    image.addressOf? id = some address ↔ ⟨id, address⟩ ∈ image.labels := by
  unfold addressOf?
  constructor
  · intro hfound
    obtain ⟨record, hfind, rfl⟩ := Option.map_eq_some_iff.mp hfound
    obtain rfl : record.id = id := by simpa using List.find?_some hfind
    exact List.mem_of_find?_eq_some hfind
  · intro hmem
    cases hfind : image.labels.find? fun r => r.id = id with
    | none =>
      have := List.find?_eq_none.mp hfind _ hmem
      simp at this
    | some record =>
      have hid : record.id = id := by simpa using List.find?_some hfind
      rw [Option.map_some, hone record (List.mem_of_find?_eq_some hfind) _ hmem hid]

/-! ### Both passes -/

theorem Scan.Of.isImage {scan : Scan} {p : Program} {opts : Options} {assembly : Assembly}
    (h : scan.Of p) (hp : p.Scannable opts) (hok : (scan.assemble opts).result = .ok assembly) :
    p.IsImage opts assembly.image := by
  obtain ⟨start, hentry, hunknown, himage⟩ := Scan.assemble_eq_ok hok
  obtain ⟨d, hlast, haddress⟩ := h.get?_eq_some hp hentry
  rw [himage]
  exact {
    encodable := hp.encodable
    resolved := by
      intro line hline
      rw [h.firstUnknown?_eq hp.encodable, List.findSome?_eq_none_iff] at hunknown
      exact Program.undeclared?_eq_none.mp (hunknown line hline)
    code := h.filled_eq hp
    labels := h.forall₂_records hp
    entry := ⟨d, _, hlast, haddress⟩
    lookup := by
      intro id address
      rw [Image.addressOf?_eq_some fun r₁ h₁ r₂ h₂ => h.address_of_id hp h₁ h₂]
      exact h.mem_records hp }

/-- **The two passes produce the image of the program.** Whenever lines without directives are
assembled, code, label table, entry point and look-ups are those that are read off the lines. -/
theorem assembleLines_isImage (load : Loader) (opts : Options) (lines : List (Located String))
    (hplain : ∀ line ∈ lines, Line.classify line.val ≠ .directive) (assembly : Assembly)
    (hok : (assembleLines load opts lines).result = .ok assembly) :
    (Program.ofLines lines).IsImage opts assembly.image := by
  rcases assembleLines_of_plain load hplain with
    ⟨scan, hp, hscan, hresult⟩ | ⟨line, e, -, hresult⟩
  · rw [hresult] at hok
    exact hscan.isImage hp hok
  · cases hresult.symm.trans hok

/-- A program with an automatic label, a reference to a later declaration and one to an earlier
declaration that does not count any more. -/
def twiceDeclared : List (Located String) :=
  [⟨⟨"a", 1⟩, "jmpl end"⟩, ⟨⟨"a", 2⟩, "loop:"⟩, ⟨⟨"a", 3⟩, "llbl loop"⟩,
    ⟨⟨"a", 4⟩, "end:"⟩, ⟨⟨"a", 5⟩, "loop:"⟩, ⟨⟨"a", 6⟩, "hlt"⟩]

theorem twiceDeclared_isImage :
    (∀ line ∈ twiceDeclared, Line.classify line.val ≠ .directive) ∧
    ∃ assembly, (assembleLines (fun _ => .error .notFound) {} twiceDeclared).result = .ok assembly ∧
      assembly.image = ⟨{ entry := 0, stackSize := 4 }, [⟨0, 0⟩, ⟨3, 12⟩, ⟨2, 12⟩],
        [0, 4, 0, 2, 0, 35, 0, 0, 0, 4, 0, 3, 0, 1, 0, 0]⟩ ∧
      (Program.ofLines twiceDeclared).IsImage {} assembly.image := by
  have hplain : ∀ line ∈ twiceDeclared, Line.classify line.val ≠ .directive := by decide
  have himage : ((assembleLines (fun _ => .error .notFound) {} twiceDeclared).result.map
      Assembly.image).toOption = some ⟨{ entry := 0, stackSize := 4 }, [⟨0, 0⟩, ⟨3, 12⟩, ⟨2, 12⟩],
        [0, 4, 0, 2, 0, 35, 0, 0, 0, 4, 0, 3, 0, 1, 0, 0]⟩ := by cbv
  refine ⟨hplain, ?_⟩
  cases hok : (assembleLines (fun _ => .error .notFound) {} twiceDeclared).result with
  | error e =>
    rw [hok] at himage
    cases himage
  | ok assembly =>
    rw [hok] at himage
    exact ⟨assembly, rfl, Option.some.inj himage,
      assembleLines_isImage _ _ _ hplain assembly hok⟩

end StackAsm
