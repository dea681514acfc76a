import StackAsm.Machine.CodeUnit
import StackAsm.Text.Number

/-!
# StackAsm.Image

The binary image of a program: a header, a table of label addresses, and the code.

All numbers are big-endian, and the fields follow each other without gaps:

| bytes | field |
|---|---|
| 4 | magic |
| 1 | format version |
| 1 | compression flag |
| 4 | entry point, an address in the code |
| 2 | stack size hint |
| 4 | checksum |
| 4 | number of label records |
| 6 each | label records: id (2), address (4) |
| rest | code |
-/

namespace StackAsm

/-- What precedes the label table. -/
structure Header where
  version : UInt8 := 1
  compression : UInt8 := 0
  entry : Address
  stackSize : UInt16
  checksum : UInt32 := 0
deriving DecidableEq, Repr

/-- An entry of the label table. -/
structure LabelRecord where
  id : LabelId
  address : Address
deriving DecidableEq, Repr

/-- The binary image of a program. -/
structure Image where
  header : Header
  labels : List LabelRecord
  code : List UInt8
deriving DecidableEq, Repr

namespace Image

/-- The bytes that every image starts with. -/
def magic : List UInt8 := [0x4B, 0x4C, 0x32, 0x37]

/-- The only format version that can be read. -/
def version : UInt8 := 1

/-- How many bytes an image takes. -/
def size (image : Image) : Nat := 20 + 6 * image.labels.length + image.code.length

/-- The address that the label table gives for an id; the first record counts. -/
def addressOf? (image : Image) (id : LabelId) : Option Address :=
  (image.labels.find? fun r => r.id = id).map LabelRecord.address

/-! ### Writing -/

/-- The bytes of a header. -/
def headerBytes (h : Header) : List UInt8 :=
  magic ++ [h.version, h.compression] ++ BigEndian.bytes32 h.entry ++
    BigEndian.bytes16 h.stackSize ++ BigEndian.bytes32 h.checksum

/-- The bytes of a label record. -/
def recordBytes (r : LabelRecord) : List UInt8 :=
  BigEndian.bytes16 r.id ++ BigEndian.bytes32 r.address

/-- The bytes of an image. -/
def toBytes (image : Image) : List UInt8 :=
  headerBytes image.header ++ BigEndian.bytes32 (UInt32.ofNat image.labels.length) ++
    image.labels.flatMap recordBytes ++ image.code

/-! ### Reading -/

/-- The fields of an image, as far as they can be cut short. -/
inductive Field where
  | magic | version | compression | entry | stackSize | checksum | labelCount | labelTable
deriving DecidableEq, Repr

/-- The name of a field. -/
def Field.name : Field → String
  | magic => "magic"
  | version => "version"
  | compression => "compression flag"
  | entry => "entry point"
  | stackSize => "stack size"
  | checksum => "checksum"
  | labelCount => "label count"
  | labelTable => "label table"

/-- Why bytes are no image. -/
inductive ReadError where
  /-- The bytes end before the end of a field. -/
  | truncated (field : Field)
  | badMagic (found : List UInt8)
  | unsupportedVersion (found : UInt8)
deriving DecidableEq, Repr

/-- The reason in words. -/
def ReadError.message : ReadError → String
  | truncated field => s!"Module truncated while reading the {field.name}"
  | badMagic found =>
    let digits := ", ".intercalate (found.map fun b => Text.hexDigits 2 b.toNat)
    s!"Bad magic bytes: [{digits}]"
  | unsupportedVersion found => s!"Unsupported module version: {Text.decimal found.toNat}"

/-- Reads one byte of a field. -/
def read8 (field : Field) : List UInt8 → Except ReadError (UInt8 × List UInt8)
  | a :: rest => .ok (a, rest)
  | _ => .error (.truncated field)

/-- Reads two bytes of a field. -/
def read16 (field : Field) : List UInt8 → Except ReadError (UInt16 × List UInt8)
  | a :: b :: rest => .ok (BigEndian.word16 a b, rest)
  | _ => .error (.truncated field)

/-- Reads four bytes of a field. -/
def read32 (field : Field) : List UInt8 → Except ReadError (UInt32 × List UInt8)
  | a :: b :: c :: d :: rest => .ok (BigEndian.word32 a b c d, rest)
  | _ => .error (.truncated field)

/-- Reads the magic bytes. -/
def readMagic : List UInt8 → Except ReadError (List UInt8)
  | a :: b :: c :: d :: rest =>
    if [a, b, c, d] = magic then .ok rest else .error (.badMagic [a, b, c, d])
  | _ => .error (.truncated .magic)

/-- Reads the format version. -/
def readVersion (raw : List UInt8) : Except ReadError (UInt8 × List UInt8) := do
  let (found, raw) ← read8 .version raw
  if found = version then return (found, raw) else throw (.unsupportedVersion found)

/-- Reads a header. -/
def readHeader (raw : List UInt8) : Except ReadError (Header × List UInt8) := do
  let raw ← readMagic raw
  let (version, raw) ← readVersion raw
  let (compression, raw) ← read8 .compression raw
  let (entry, raw) ← read32 .entry raw
  let (stackSize, raw) ← read16 .stackSize raw
  let (checksum, raw) ← read32 .checksum raw
  return (⟨version, compression, entry, stackSize, checksum⟩, raw)

/-- Reads a label record. -/
def readRecord (raw : List UInt8) : Except ReadError (LabelRecord × List UInt8) := do
  let (id, raw) ← read16 .labelTable raw
  let (address, raw) ← read32 .labelTable raw
  return (⟨id, address⟩, raw)

/-- Reads label records, after those already read. -/
def readRecords : Nat → Array LabelRecord → List UInt8 →
    Except ReadError (Array LabelRecord × List UInt8)
  | 0, records, raw => .ok (records, raw)
  | n + 1, records, raw =>
    match readRecord raw with
    | .error e => .error e
    | .ok (r, raw) => readRecords n (records.push r) raw

/-- Reads an image; what follows the label table is code. -/
def ofBytes (raw : List UInt8) : Except ReadError Image := do
  let (header, raw) ← readHeader raw
  let (count, raw) ← read32 .labelCount raw
  let (labels, code) ← readRecords count.toNat #[] raw
  return ⟨header, labels.toList, code⟩

end Image

end StackAsm
