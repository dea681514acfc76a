/-!
# StackAsm.Machine.Register

The registers of the machine, their indices, and their names in source text.
-/

namespace StackAsm

/-- The registers: eight general ones, the two of memory access, and the program counter. -/
inductive Register where
  | r0 | r1 | r2 | r3 | r4 | r5 | r6 | r7
  | mar | mvr
  | pc
deriving DecidableEq, Repr

namespace Register

/-- All registers, by increasing index. -/
def all : List Register := [r0, r1, r2, r3, r4, r5, r6, r7, mar, mvr, pc]

/-- The number that stands for a register in the code. -/
def index : Register → UInt16
  | r0 => 0
  | r1 => 1
  | r2 => 2
  | r3 => 3
  | r4 => 4
  | r5 => 5
  | r6 => 6
  | r7 => 7
  | mar => 8
  | mvr => 9
  | pc => 10

/-- The name of a register, in upper case. -/
def name : Register → String
  | r0 => "R0"
  | r1 => "R1"
  | r2 => "R2"
  | r3 => "R3"
  | r4 => "R4"
  | r5 => "R5"
  | r6 => "R6"
  | r7 => "R7"
  | mar => "MAR"
  | mvr => "MVR"
  | pc => "PC"

/-- The register with a given index, if there is one. -/
def ofIndex? (w : UInt16) : Option Register := all.find? fun r => r.index = w

/-- The register with a given name. Case does not matter, and mapping only the letters `a` to `z` to
upper case is enough: no other character has an upper case form made of the letters in these names.
-/
def ofName? (text : String) : Option Register :=
  let upper := text.toList.map Char.toUpper
  all.find? fun r => r.name.toList = upper

theorem ofIndex?_index (r : Register) : ofIndex? r.index = some r := by
  cases r <;> rfl

theorem index_of_ofIndex? {w : UInt16} {r : Register} (h : ofIndex? w = some r) :
    r.index = w := by
  simpa using List.find?_some h

end Register

end StackAsm
