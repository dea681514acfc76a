import StackAsm.Disassembly
import StackAsm.Image

/-!
# StackAsm.Listing

The text that shows an image: its header, its labels, and its code unit by unit.
-/

namespace StackAsm

namespace Image

/-- The line of a header. -/
def headerLine (h : Header) : String :=
  "version " ++ Text.decimal h.version.toNat ++
    (if h.compression = 0 then ", uncompressed" else ", compressed") ++
    ", entry " ++ Text.hexWord h.entry.toNat ++
    ", stack size " ++ Text.decimal h.stackSize.toNat ++
    ", checksum " ++ Text.hexLong h.checksum.toNat

/-- The line of a label record. -/
def recordLine (r : LabelRecord) : String :=
  "  #" ++ Text.padRight 5 (Text.decimal r.id.toNat) ++ " " ++ Text.hexWord r.address.toNat

/-- Where a unit that loads a label points to. -/
def targetText (image : Image) : Instruction → String
  | .known .llbl id =>
    match image.addressOf? id with
    | some address => "  -> " ++ Text.hexWord address.toNat
    | none => "  -> ?"
  | _ => ""

/-- The line of a unit. -/
def unitLine (image : Image) (unit : DisassembledUnit) : String :=
  "  " ++ Text.hexWord unit.address.toNat ++ "  " ++
    Text.padRight 11 (Text.hexBytes unit.raw) ++ "  " ++ unit.instruction.render ++
    image.targetText unit.instruction

/-- The lines of a unit: one for each label at its address, then its own. -/
def unitLines (image : Image) (unit : DisassembledUnit) : List String :=
  (image.labels.filter fun r => r.address = unit.address).map
      (fun r => "#" ++ Text.decimal r.id.toNat ++ ":") ++
    [image.unitLine unit]

/-- The lines of the listing. -/
def listingLines (image : Image) : List String :=
  headerLine image.header ::
    ("labels (" ++ Text.decimal image.labels.length ++ "):") ::
    image.labels.map recordLine ++
    ("code (" ++ Text.decimal image.code.length ++ " bytes):") ::
    (disassemble image.code).flatMap image.unitLines

/-- The listing of an image; every line ends in a line feed. -/
def listing (image : Image) : String := String.join (image.listingLines.map (· ++ "\n"))

end Image

end StackAsm
