/-!
# StackAsm.Options

The choices a caller has when assembling.
-/

namespace StackAsm

/-- The choices a caller has when assembling. -/
structure Options where
  /-- The label at which execution starts. -/
  entryPoint : String := "main"
  /-- Whether instructions before any label go under a label `main`, declared for them. -/
  automaticMain : Bool := true
  /-- The stack size hint in the header of the image. -/
  stackSize : UInt16 := 4
deriving DecidableEq, Repr

end StackAsm
