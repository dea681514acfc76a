import Std.Data.TreeSet
import StackAsm.Image
import StackAsm.Scan

/-!
# StackAsm.Resolution

The second pass: label references become ids, and the image is laid out.

All labels are known by now, so a reference may stand before or after the declaration it means. The
entry point is looked up first; then the first reference to an unknown label, in code order, is the
error.
-/

namespace StackAsm

/-- The bytes of a segment once its label is known. -/
def Segment.resolve? (table : SymbolTable) : Segment → Option (List UInt8)
  | bytes raw => some raw
  | label name => (table.get? name).map fun symbol => BigEndian.bytes16 symbol.id

/-- The label that a segment refers to without its being declared. -/
def Segment.unknownLabel? (table : SymbolTable) : Segment → Option String
  | bytes _ => none
  | label name => if (table.get? name).isSome then none else some name

/-- A code section without open references. -/
structure Resolved where
  /-- The address at which execution starts. -/
  entry : Address
  code : List UInt8
  /-- The warnings on labels that are never referred to. -/
  unused : List (Located Warning)
deriving DecidableEq, Repr

namespace Scan

/-- The event of filling in a reference. -/
def referenceEvent? (table : SymbolTable) (segment : Segment) : Option Event :=
  segment.reference?.bind fun name => (table.get? name).map fun symbol => .reference name symbol.id

/-- The labels that are referred to. -/
def references (scan : Scan) : Std.TreeSet String :=
  Std.TreeSet.ofList (scan.segments.toList.filterMap fun segment => segment.val.reference?)

/-- A warning for each label that is not the entry point and is never referred to, in the order of
the table and at the place of its last declaration. -/
def unusedLabels (scan : Scan) (entryPoint : String) : List (Located Warning) :=
  let references := scan.references
  scan.symbols.toList.filterMap fun (name, symbol) =>
    if name = entryPoint ∨ references.contains name then none
    else some ⟨symbol.loc, .unusedLabel name⟩

/-- Fills in all label references. -/
def resolve (scan : Scan) (opts : Options) : Traced Resolved :=
  match scan.symbols.get? opts.entryPoint with
  | none => .fail (.missingEntryPoint opts.entryPoint)
  | some start => do
    let segments := scan.segments.toList
    let unknown := fun segment : Located Segment =>
      (segment.val.unknownLabel? scan.symbols).map (Located.mk segment.loc)
    .report [.entryPoint opts.entryPoint start.address]
    .report ((segments.takeWhile fun segment => (unknown segment).isNone).filterMap
      fun segment => referenceEvent? scan.symbols segment.val)
    match segments.findSome? unknown with
    | some name => .fail (.unknownLabel name)
    | none =>
      return {
        entry := start.address
        code := segments.flatMap fun segment => (segment.val.resolve? scan.symbols).getD []
        unused := scan.unusedLabels opts.entryPoint }

/-- The second pass over a scan. The warnings on unused labels join those of the first pass; a pass
that fails leaves the scan as it is. -/
def settle (scan : Scan) (opts : Options) : Scan × Traced Resolved :=
  let resolved := scan.resolve opts
  match resolved.result with
  | .error _ => (scan, resolved)
  | .ok found => ({ scan with warnings := scan.warnings ++ found.unused }, resolved)

end Scan

/-- The label table of an image. -/
def SymbolTable.records (table : SymbolTable) : List LabelRecord :=
  table.toList.map fun (_, symbol) => ⟨symbol.id, symbol.address⟩

/-- Lays out the image of a resolved program. -/
def Resolved.image (resolved : Resolved) (table : SymbolTable) (opts : Options) : Traced Image := do
  let labels := table.records
  .report [.labelTable labels.length, .code (resolved.code.length / CodeUnit.width)]
  return ⟨{ entry := resolved.entry, stackSize := opts.stackSize }, labels, resolved.code⟩

end StackAsm
