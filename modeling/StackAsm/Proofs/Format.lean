import StackAsm.Image
import StackAsm.Proofs.Encoding

/-!
# StackAsm.Proofs.Format

Which bytes are an image, and what is wrong with those that are not.

Every reader is described twice. What it reads are the bytes that the writer of the same thing
produces, and then the rest (`read32_eq_ok`, `readHeader_eq_ok`, `readRecords_eq_ok`). What it
refuses is read off the layout alone: `Field.fault?` says of a field whether the bytes end inside it
or hold what they must not, and a reader `Checks` a run of fields if it stops at the first of them
that has a fault. For the whole image the two are `ofBytes_eq_ok` and `checks_ofBytes`.
-/

namespace StackAsm

theorem bind_eq_ok {ε α β : Type} {x : Except ε α} {f : α → Except ε β} {b : β} :
    x >>= f = .ok b ↔ ∃ a, x = .ok a ∧ f a = .ok b := by
  constructor
  · exact exists_ok_of_bind
  · rintro ⟨a, rfl, hb⟩
    exact hb

/-- The number that bytes stand for, the first of them the most significant. -/
def BigEndian.number (raw : List UInt8) : Nat := raw.foldl (fun n b => n * 256 + b.toNat) 0

theorem BigEndian.number_bytes32 (w : UInt32) : number (bytes32 w) = w.toNat := by
  have h := w.toNat_lt
  simp only [number, bytes32, List.foldl_cons, List.foldl_nil, UInt8.toNat_ofNat']
  omega

namespace Image

/-! ### The format -/

/-- How many label records the bytes announce. -/
def announced (raw : List UInt8) : Nat := BigEndian.number ((raw.drop 16).take 4)

/-- The bytes that are an image. -/
structure IsFormat (raw : List UInt8) : Prop where
  whole : 20 ≤ raw.length
  magic : raw.take 4 = Image.magic
  version : raw[4]? = some 1
  table : 20 + 6 * announced raw ≤ raw.length

namespace Field

/-- The fields in the order of the layout. -/
def all : List Field :=
  [magic, version, compression, entry, stackSize, checksum, labelCount, labelTable]

/-- How many bytes there are up to the end of a field. -/
def stop (raw : List UInt8) : Field → Nat
  | magic => 4
  | version => 5
  | compression => 6
  | entry => 10
  | stackSize => 12
  | checksum => 16
  | labelCount => 20
  | labelTable => 20 + 6 * announced raw

/-- Why the content of a field is refused. -/
def refusal? (raw : List UInt8) : Field → Option ReadError
  | magic => if raw.take 4 = Image.magic then none else some (.badMagic (raw.take 4))
  | version => (raw[4]?.filter (· ≠ 1)).map .unsupportedVersion
  | _ => none

/-- What is wrong with a field: the bytes end inside it, or its content is refused. -/
def fault? (raw : List UInt8) (field : Field) : Option ReadError :=
  if raw.length < field.stop raw then some (.truncated field) else field.refusal? raw

theorem fault?_eq_none {raw : List UInt8} {field : Field} :
    field.fault? raw = none ↔ field.stop raw ≤ raw.length ∧ field.refusal? raw = none := by
  unfold fault?
  split
  · simp only [reduceCtorEq, false_iff]
    omega
  · rename_i hstop
    simp [Nat.le_of_not_lt hstop]

theorem refusal?_magic_eq_none {raw : List UInt8} :
    magic.refusal? raw = none ↔ raw.take 4 = Image.magic := by
  simp [refusal?]

theorem refusal?_version_eq_none {raw : List UInt8} (h : 5 ≤ raw.length) :
    version.refusal? raw = none ↔ raw[4]? = some 1 := by
  rw [refusal?, List.getElem?_eq_getElem (by omega)]
  simp [Option.filter_eq_none_iff]

end Field

/-- The bytes without a fault are the images. -/
theorem isFormat_iff {raw : List UInt8} :
    IsFormat raw ↔ Field.all.findSome? (Field.fault? raw) = none := by
  rw [List.findSome?_eq_none_iff]
  constructor
  · rintro ⟨hwhole, hmagic, hversion, htable⟩ field -
    refine Field.fault?_eq_none.mpr ⟨?_, ?_⟩
    · cases field <;> simp only [Field.stop] <;> omega
    · cases field with
      | magic => exact Field.refusal?_magic_eq_none.mpr hmagic
      | version => exact (Field.refusal?_version_eq_none (by omega)).mpr hversion
      | _ => rfl
  · intro h
    obtain ⟨-, hmagic⟩ := Field.fault?_eq_none.mp (h .magic (by decide))
    obtain ⟨hfive, hversion⟩ := Field.fault?_eq_none.mp (h .version (by decide))
    obtain ⟨hwhole, -⟩ := Field.fault?_eq_none.mp (h .labelCount (by decide))
    obtain ⟨htable, -⟩ := Field.fault?_eq_none.mp (h .labelTable (by decide))
    exact ⟨hwhole, Field.refusal?_magic_eq_none.mp hmagic,
      (Field.refusal?_version_eq_none hfive).mp hversion, htable⟩

/-! ### What is read -/

section

variable {field : Field} {raw rest : List UInt8}

theorem read8_eq_ok {b : UInt8} : read8 field raw = .ok (b, rest) ↔ raw = b :: rest := by
  cases raw <;> simp [read8]

theorem read16_eq_ok {w : UInt16} :
    read16 field raw = .ok (w, rest) ↔ raw = BigEndian.bytes16 w ++ rest := by
  constructor
  · intro h
    unfold read16 at h
    split at h
    · cases h
      rw [BigEndian.bytes16_word16]
      rfl
    · cases h
  · rintro rfl
    show Except.ok (_, rest) = _
    rw [BigEndian.word16_bytes16]

theorem read32_eq_ok {w : UInt32} :
    read32 field raw = .ok (w, rest) ↔ raw = BigEndian.bytes32 w ++ rest := by
  constructor
  · intro h
    unfold read32 at h
    split at h
    · cases h
      rw [BigEndian.bytes32_word32]
      rfl
    · cases h
  · rintro rfl
    show Except.ok (_, rest) = _
    rw [BigEndian.word32_bytes32]

theorem readMagic_eq_ok : readMagic raw = .ok rest ↔ raw = magic ++ rest := by
  constructor
  · intro h
    unfold readMagic at h
    split at h
    · split at h
      · rename_i hmagic
        cases h
        rw [← hmagic]
        rfl
      · cases h
    · cases h
  · rintro rfl
    rfl

theorem readVersion_eq_ok {v : UInt8} :
    readVersion raw = .ok (v, rest) ↔ v = version ∧ raw = v :: rest := by
  simp only [readVersion, bind_eq_ok, Prod.exists, read8_eq_ok]
  constructor
  · rintro ⟨found, left, rfl, h⟩
    split at h
    · rename_i hversion
      cases h
      exact ⟨hversion, rfl⟩
    · cases h
  · rintro ⟨rfl, rfl⟩
    exact ⟨_, _, rfl, rfl⟩

theorem headerBytes_append (h : Header) :
    headerBytes h ++ rest = magic ++ h.version :: h.compression ::
      (BigEndian.bytes32 h.entry ++ (BigEndian.bytes16 h.stackSize ++
        (BigEndian.bytes32 h.checksum ++ rest))) := by
  simp [headerBytes]

theorem readHeader_eq_ok {h : Header} :
    readHeader raw = .ok (h, rest) ↔ h.version = version ∧ raw = headerBytes h ++ rest := by
  simp only [readHeader, bind_eq_ok, Prod.exists, readMagic_eq_ok, readVersion_eq_ok, read8_eq_ok,
    read16_eq_ok, read32_eq_ok, headerBytes_append]
  constructor
  · rintro ⟨_, rfl, v, _, ⟨hversion, rfl⟩, c, _, rfl, entry, _, rfl, stackSize, _, rfl, checksum, _,
      rfl, hdone⟩
    cases hdone
    exact ⟨hversion, rfl⟩
  · rintro ⟨hversion, rfl⟩
    exact ⟨_, rfl, h.version, _, ⟨hversion, rfl⟩, h.compression, _, rfl, h.entry, _, rfl,
      h.stackSize, _, rfl, h.checksum, _, rfl, rfl⟩

theorem readRecord_eq_ok {r : LabelRecord} :
    readRecord raw = .ok (r, rest) ↔ raw = recordBytes r ++ rest := by
  simp only [readRecord, bind_eq_ok, Prod.exists, read16_eq_ok, read32_eq_ok, recordBytes,
    List.append_assoc]
  constructor
  · rintro ⟨id, _, rfl, address, _, rfl, hdone⟩
    cases hdone
    rfl
  · rintro rfl
    exact ⟨r.id, _, rfl, r.address, _, rfl, rfl⟩

/-- As many records are read as are asked for, and they come after those read before. -/
theorem readRecords_eq_ok {n : Nat} {before after : Array LabelRecord} :
    readRecords n before raw = .ok (after, rest) ↔
      ∃ rs : List LabelRecord, rs.length = n ∧ after.toList = before.toList ++ rs ∧
        raw = rs.flatMap recordBytes ++ rest := by
  induction n generalizing before raw with
  | zero =>
    constructor
    · intro h
      cases h
      exact ⟨[], rfl, by simp, rfl⟩
    · rintro ⟨rs, hlength, hafter, rfl⟩
      obtain rfl : rs = [] := List.length_eq_zero_iff.mp hlength
      obtain rfl : after = before := Array.toList_inj.mp (by simpa using hafter)
      rfl
  | succ n ih =>
    rw [readRecords]
    constructor
    · intro h
      split at h
      · cases h
      · rename_i r left hrecord
        obtain ⟨rs, hlength, hafter, rfl⟩ := ih.mp h
        rw [readRecord_eq_ok.mp hrecord]
        exact ⟨r :: rs, by simp [hlength], by simp [hafter], by simp⟩
    · rintro ⟨rs, hlength, hafter, rfl⟩
      obtain ⟨r, rs, rfl⟩ := List.exists_cons_of_length_eq_add_one hlength
      have hrecord : readRecord ((r :: rs).flatMap recordBytes ++ rest) =
          .ok (r, rs.flatMap recordBytes ++ rest) := by
        rw [readRecord_eq_ok, List.flatMap_cons, List.append_assoc]
      rw [hrecord]
      exact ih.mpr ⟨rs, by simpa using hlength, by simp [hafter], rfl⟩

/-- What is read as an image are the bytes of that image. The number of records is written as a
32-bit word, so that an image with more of them is not read back. -/
theorem ofBytes_eq_ok {image : Image} :
    ofBytes raw = .ok image ↔
      image.header.version = version ∧ image.labels.length < UInt32.size ∧ raw = image.toBytes := by
  simp only [ofBytes, bind_eq_ok, Prod.exists, readHeader_eq_ok, read32_eq_ok, readRecords_eq_ok,
    toBytes, List.append_assoc]
  constructor
  · rintro ⟨h, _, ⟨hversion, rfl⟩, count, _, rfl, labels, code, ⟨rs, hlength, hlabels, rfl⟩, hdone⟩
    cases hdone
    obtain rfl : rs = labels.toList := by simpa using hlabels.symm
    refine ⟨hversion, hlength ▸ count.toNat_lt, ?_⟩
    rw [hlength, UInt32.ofNat_toNat]
  · rintro ⟨hversion, hcount, rfl⟩
    have hlength : (UInt32.ofNat image.labels.length).toNat = image.labels.length :=
      Nat.mod_eq_of_lt hcount
    exact ⟨image.header, _, ⟨hversion, rfl⟩, _, _, rfl, image.labels.toArray, image.code,
      ⟨image.labels, hlength.symm, by simp, rfl⟩, rfl⟩

end

/-! ### Written and read back -/

theorem length_recordBytes (r : LabelRecord) : (recordBytes r).length = 6 := rfl

theorem length_flatMap_recordBytes (rs : List LabelRecord) :
    (rs.flatMap recordBytes).length = 6 * rs.length := by
  induction rs with
  | nil => rfl
  | cons r rs ih =>
    rw [List.flatMap_cons, List.length_append, ih, length_recordBytes, List.length_cons]
    omega

theorem length_headerBytes (h : Header) : (headerBytes h).length = 16 := rfl

theorem length_toBytes (image : Image) : image.toBytes.length = image.size := by
  simp only [toBytes, size, List.length_append, length_headerBytes, BigEndian.length_bytes32,
    length_flatMap_recordBytes]

/-- A header of another version is refused, whatever follows it. -/
theorem readHeader_of_version_ne {h : Header} (hversion : h.version ≠ version)
    (rest : List UInt8) :
    readHeader (headerBytes h ++ rest) = .error (.unsupportedVersion h.version) := by
  rw [headerBytes_append, readHeader, readMagic_eq_ok.mpr rfl]
  show (if h.version = version then _ else _ : Except ReadError _) >>= _ = _
  rw [if_neg hversion]
  rfl

theorem ofBytes_toBytes {image : Image} (hcount : image.labels.length < UInt32.size) :
    ofBytes image.toBytes =
      if image.header.version = version then .ok image
      else .error (.unsupportedVersion image.header.version) := by
  split
  · rename_i hversion
    exact ofBytes_eq_ok.mpr ⟨hversion, hcount, rfl⟩
  · rename_i hversion
    rw [ofBytes, toBytes, List.append_assoc, List.append_assoc, readHeader_of_version_ne hversion]
    rfl

/-! ### What is refused -/

/-- A reader takes `n` bytes of a field, whatever they are. -/
def Takes {α : Type} (n : Nat) (field : Field)
    (read : List UInt8 → Except ReadError (α × List UInt8)) : Prop :=
  ∀ raw, (read raw).map Prod.snd =
    if raw.length < n then .error (.truncated field) else .ok (raw.drop n)

theorem takes_read8 (field : Field) : Takes 1 field (read8 field) := by
  intro raw
  cases raw <;> rfl

theorem takes_read16 (field : Field) : Takes 2 field (read16 field) := by
  intro raw
  rcases raw with _ | ⟨a, _ | ⟨b, rest⟩⟩ <;> rfl

theorem takes_read32 (field : Field) : Takes 4 field (read32 field) := by
  intro raw
  rcases raw with _ | ⟨a, _ | ⟨b, _ | ⟨c, _ | ⟨d, rest⟩⟩⟩⟩ <;> rfl

theorem takes_pure {α : Type} (field : Field) (a : α) : Takes 0 field fun raw => .ok (a, raw) := by
  intro raw
  rfl

section

variable {α β : Type} {raw : List UInt8} {field : Field}

/-- What is known of a reader that takes `n` bytes. -/
theorem Takes.cases {n : Nat} {read : List UInt8 → Except ReadError (α × List UInt8)}
    (h : Takes n field read) (raw : List UInt8) :
    (raw.length < n ∧ read raw = .error (.truncated field)) ∨
      (n ≤ raw.length ∧ ∃ a, read raw = .ok (a, raw.drop n)) := by
  have hread := h raw
  split at hread
  · rename_i hcut
    cases hresult : read raw with
    | error e =>
      rw [hresult] at hread
      cases hread
      exact .inl ⟨hcut, rfl⟩
    | ok found =>
      rw [hresult] at hread
      cases hread
  · rename_i hwhole
    cases hresult : read raw with
    | error e =>
      rw [hresult] at hread
      cases hread
    | ok found =>
      rw [hresult] at hread
      obtain ⟨a, left⟩ := found
      cases hread
      exact .inr ⟨Nat.le_of_not_lt hwhole, a, rfl⟩

theorem Takes.bind {n m : Nat} {read : List UInt8 → Except ReadError (α × List UInt8)}
    {next : α → List UInt8 → Except ReadError (β × List UInt8)} (h : Takes n field read)
    (hnext : ∀ a, Takes m field (next a)) :
    Takes (n + m) field fun raw => read raw >>= fun found => next found.1 found.2 := by
  intro raw
  rcases h.cases raw with ⟨hcut, hread⟩ | ⟨hwhole, a, hread⟩
  · simp only [hread]
    rw [if_pos (by omega)]
    rfl
  · simp only [hread]
    show (next a (raw.drop n)).map Prod.snd = _
    rw [hnext a, List.length_drop, List.drop_drop]
    by_cases hcut : raw.length - n < m
    · rw [if_pos hcut, if_pos (by omega)]
    · rw [if_neg hcut, if_neg (by omega)]

end

theorem takes_readRecord : Takes 6 .labelTable readRecord :=
  (takes_read16 .labelTable).bind fun id =>
    (takes_read32 .labelTable).bind fun address =>
      takes_pure .labelTable (⟨id, address⟩ : LabelRecord)

theorem takes_readRecords (n : Nat) (before : Array LabelRecord) :
    Takes (6 * n) .labelTable (readRecords n before) := by
  induction n generalizing before with
  | zero => exact takes_pure .labelTable before
  | succ n ih =>
    have hsucc : readRecords (n + 1) before = fun raw =>
        readRecord raw >>= fun found => readRecords n (before.push found.1) found.2 := by
      funext raw
      rw [readRecords]
      cases readRecord raw <;> rfl
    rw [hsucc, show 6 * (n + 1) = 6 + 6 * n by omega]
    exact takes_readRecord.bind fun r => ih (before.push r)

/-- A reader goes through a run of fields: it stops at the first that has a fault, and leaves what
follows the last of them. -/
def Checks {α : Type} (raw : List UInt8) (fields : List Field) (stop : Nat)
    (rest : α → List UInt8) : Except ReadError α → Prop
  | .error e => fields.findSome? (Field.fault? raw) = some e
  | .ok a => fields.findSome? (Field.fault? raw) = none ∧ rest a = raw.drop stop

section

variable {α β : Type} {raw : List UInt8} {field : Field}

theorem Checks.bind {fields more : List Field} {i j : Nat} {rest : α → List UInt8}
    {rest' : β → List UInt8} {r : Except ReadError α} {f : α → Except ReadError β}
    (h : Checks raw fields i rest r)
    (hnext : ∀ a, r = .ok a → rest a = raw.drop i → Checks raw more j rest' (f a)) :
    Checks raw (fields ++ more) j rest' (r >>= f) := by
  cases r with
  | error e =>
    show (fields ++ more).findSome? _ = some e
    rw [List.findSome?_append, show fields.findSome? _ = some e from h, Option.some_or]
  | ok a =>
    obtain ⟨hnone, hrest⟩ := h
    show Checks raw (fields ++ more) j rest' (f a)
    have hmore := hnext a rfl hrest
    unfold Checks at hmore ⊢
    rwa [List.findSome?_append, hnone, Option.none_or]

/-- A reader that takes the bytes of a field checks the field, if any content will do. -/
theorem Takes.checks {n : Nat} {read : List UInt8 → Except ReadError (α × List UInt8)}
    (h : Takes n field read) (i : Nat) (hstart : 0 < n ∨ i ≤ raw.length)
    (hstop : field.stop raw = i + n) (hany : field.refusal? raw = none) :
    Checks raw [field] (i + n) Prod.snd (read (raw.drop i)) := by
  have hlength : (raw.drop i).length = raw.length - i := List.length_drop
  rcases h.cases (raw.drop i) with ⟨hcut, hread⟩ | ⟨hwhole, a, hread⟩
  · rw [hread]
    show [field].findSome? _ = _
    rw [List.findSome?_singleton, Field.fault?, if_pos (by omega)]
  · rw [hread]
    refine ⟨?_, by simp⟩
    rw [List.findSome?_singleton, Field.fault?_eq_none]
    exact ⟨by omega, hany⟩

/-- A reader that goes on under the condition under which a field has no fault checks the field. -/
theorem checks_ite {accepted : Prop} [Decidable accepted] {stop : Nat} {rest : α → List UInt8}
    {a : α} {e : ReadError} (hfault : field.fault? raw = if accepted then none else some e)
    (hrest : rest a = raw.drop stop) :
    Checks raw [field] stop rest (if accepted then .ok a else .error e) := by
  split
  · rename_i haccepted
    rw [if_pos haccepted] at hfault
    exact ⟨by rw [List.findSome?_singleton, hfault], hrest⟩
  · rename_i hrefused
    rw [if_neg hrefused] at hfault
    show [field].findSome? _ = _
    rw [List.findSome?_singleton, hfault]

end

theorem checks_readMagic (raw : List UInt8) : Checks raw [.magic] 4 id (readMagic raw) := by
  rcases raw with _ | ⟨a, _ | ⟨b, _ | ⟨c, _ | ⟨d, rest⟩⟩⟩⟩
  case cons.cons.cons.cons =>
    refine checks_ite ?_ rfl
    rw [Field.fault?, if_neg (by simp [Field.stop])]
    rfl
  all_goals rfl

theorem checks_readVersion (raw : List UInt8) :
    Checks raw [.version] 5 Prod.snd (readVersion (raw.drop 4)) := by
  cases hleft : raw.drop 4 with
  | nil =>
    have hcut : raw.length ≤ 4 := List.drop_eq_nil_iff.mp hleft
    show [Field.version].findSome? _ = _
    rw [List.findSome?_singleton, Field.fault?, if_pos (by simp only [Field.stop]; omega)]
  | cons found left =>
    have hget : raw[4]? = some found := by
      rw [← Nat.add_zero 4, ← List.getElem?_drop, hleft]
      rfl
    have hlength : 4 < raw.length := (List.getElem?_eq_some_iff.mp hget).1
    refine checks_ite ?_ ?_
    · rw [Field.fault?, if_neg (by simp only [Field.stop]; omega), Field.refusal?, hget]
      by_cases hversion : found = 1
      · simp [hversion, version]
      · simp [hversion, version, Option.filter_some]
    · show left = raw.drop (4 + 1)
      rw [← List.drop_drop, hleft]
      rfl

theorem checks_readHeader (raw : List UInt8) :
    Checks raw [.magic, .version, .compression, .entry, .stackSize, .checksum] 16 Prod.snd
      (readHeader raw) := by
  refine (checks_readMagic raw).bind fun left _ hleft => ?_
  obtain rfl : left = raw.drop 4 := hleft
  refine (checks_readVersion raw).bind fun ⟨version, left⟩ _ hleft => ?_
  obtain rfl : left = raw.drop 5 := hleft
  refine ((takes_read8 .compression).checks 5 (by simp) rfl rfl).bind
    fun ⟨compression, left⟩ _ hleft => ?_
  obtain rfl : left = raw.drop 6 := hleft
  refine ((takes_read32 .entry).checks 6 (by simp) rfl rfl).bind fun ⟨entry, left⟩ _ hleft => ?_
  obtain rfl : left = raw.drop 10 := hleft
  refine ((takes_read16 .stackSize).checks 10 (by simp) rfl rfl).bind
    fun ⟨stackSize, left⟩ _ hleft => ?_
  obtain rfl : left = raw.drop 12 := hleft
  refine ((takes_read32 .checksum).checks 12 (by simp) rfl rfl).bind
    fun ⟨checksum, left⟩ _ hleft => ?_
  exact ⟨rfl, hleft⟩

/-- Reading an image stops at the first field that has a fault, in the order of the layout. -/
theorem checks_ofBytes (raw : List UInt8) :
    Checks raw Field.all (20 + 6 * announced raw) Image.code (ofBytes raw) := by
  refine (checks_readHeader raw).bind fun ⟨header, left⟩ _ hleft => ?_
  obtain rfl : left = raw.drop 16 := hleft
  refine ((takes_read32 .labelCount).checks 16 (by simp) rfl rfl).bind
    fun ⟨count, left⟩ hcount hleft => ?_
  -- the table is as long as the number just read says
  have hbytes : raw.drop 16 = BigEndian.bytes32 count ++ left := read32_eq_ok.mp hcount
  have hannounced : announced raw = count.toNat := by
    rw [announced, hbytes, List.take_left' (BigEndian.length_bytes32 count),
      BigEndian.number_bytes32]
  have hlength : 20 ≤ raw.length := by
    have := congrArg List.length hbytes
    rw [List.length_drop, List.length_append, BigEndian.length_bytes32] at this
    omega
  obtain rfl : left = raw.drop 20 := hleft
  rw [hannounced]
  refine ((takes_readRecords count.toNat #[]).checks 20 (.inr hlength) ?_ rfl).bind
    fun ⟨labels, code⟩ _ hcode => ?_
  · rw [Field.stop, hannounced]
  · exact ⟨rfl, hcode⟩

/-! ### Accepted and refused -/

theorem ofBytes_eq_error {raw : List UInt8} {e : ReadError} :
    ofBytes raw = .error e ↔ Field.all.findSome? (Field.fault? raw) = some e := by
  have hchecks := checks_ofBytes raw
  cases hread : ofBytes raw with
  | error found =>
    rw [hread] at hchecks
    rw [show Field.all.findSome? _ = some found from hchecks]
    simp
  | ok image =>
    rw [hread] at hchecks
    rw [hchecks.1]
    simp

theorem exists_ofBytes_iff {raw : List UInt8} :
    (∃ image, ofBytes raw = .ok image) ↔ IsFormat raw := by
  rw [isFormat_iff, Option.eq_none_iff_forall_ne_some]
  simp only [ne_eq, ← ofBytes_eq_error]
  cases ofBytes raw <;> simp

/-- **Reading accepts exactly the format, and loses nothing.** Bytes are read as an image if and
only if they have the format, and then the image is written as these bytes again, so that no other
bytes are read as it. All others are refused with the fault of the first field that has one. -/
theorem ofBytes_accepts_format (raw : List UInt8) :
    ((∃ image, ofBytes raw = .ok image) ↔ IsFormat raw) ∧
    (∀ image, ofBytes raw = .ok image →
      image.toBytes = raw ∧ ∀ other, ofBytes other = .ok image → other = raw) ∧
    ∀ e, ofBytes raw = .error e ↔ Field.all.findSome? (Field.fault? raw) = some e := by
  refine ⟨exists_ofBytes_iff, ?_, fun e => ofBytes_eq_error⟩
  intro image hread
  obtain ⟨-, -, hraw⟩ := ofBytes_eq_ok.mp hread
  refine ⟨hraw.symm, ?_⟩
  intro other hother
  obtain ⟨-, -, hbytes⟩ := ofBytes_eq_ok.mp hother
  rw [hraw, hbytes]

/-- An image with one label record, cut off inside it. -/
def cutRecord : List UInt8 :=
  [0x4B, 0x4C, 0x32, 0x37, 1, 0, 0, 0, 0, 8, 0, 4, 0, 0, 0, 0, 0, 0, 0, 1, 0, 7, 0]

theorem cutRecord_refused :
    ofBytes cutRecord = .error (.truncated .labelTable) ∧
    ∃ image, ofBytes (cutRecord ++ [0, 0, 8, 1]) = .ok image ∧
      image.toBytes = cutRecord ++ [0, 0, 8, 1] := by
  refine ⟨((ofBytes_accepts_format cutRecord).2.2 _).mpr (by decide), ?_⟩
  obtain ⟨haccepted, hkept, -⟩ := ofBytes_accepts_format (cutRecord ++ [0, 0, 8, 1])
  have hformat : IsFormat (cutRecord ++ [0, 0, 8, 1]) :=
    ⟨by decide, by decide, by decide, by decide⟩
  obtain ⟨image, hread⟩ := haccepted.mpr hformat
  exact ⟨image, hread, (hkept image hread).1⟩

end Image

end StackAsm
