import Std.Data.TreeMap
import StackAsm.Machine.CodeUnit
import StackAsm.Source.Location

/-!
# StackAsm.SymbolTable

The labels of a program, in the order in which they are first declared.

Every declaration takes the next free id, a repeated one too: a label that is declared again keeps
its place in the order and gets the newer id, address and location. There are as many ids as words,
and once they are used up no declaration succeeds any more.
-/

namespace StackAsm

/-- Why a declaration is refused. -/
inductive DeclareError where
  /-- There is no id left. -/
  | idsExhausted
deriving DecidableEq, Repr

/-- What is known of a label. -/
structure Symbol where
  id : LabelId
  address : Address
  loc : Location
deriving DecidableEq, Repr

/-- The labels declared so far. -/
structure SymbolTable where
  /-- The names, by first declaration. -/
  names : Array String := #[]
  /-- What each name was last declared as. -/
  bindings : Std.TreeMap String Symbol := ∅
  /-- How many declarations there were, repeated ones included. -/
  declared : Nat := 0

namespace SymbolTable

/-- How many declarations a table can take. -/
def capacity : Nat := 0x10000

/-- What a name was last declared as. -/
def get? (t : SymbolTable) (name : String) : Option Symbol := t.bindings[name]?

/-- Whether there is no id left. -/
def isFull (t : SymbolTable) : Bool := capacity ≤ t.declared

/-- Gives a name the next id. -/
def insert (t : SymbolTable) (name : String) (address : Address) (loc : Location) : SymbolTable :=
  { names := if t.bindings.contains name then t.names else t.names.push name
    bindings := t.bindings.insert name ⟨UInt16.ofNat t.declared, address, loc⟩
    declared := t.declared + 1 }

/-- The table after a declaration; `none` if there is no id left. -/
@[inline] def declare? (t : SymbolTable) (name : String) (address : Address) (loc : Location) :
    Option SymbolTable :=
  if t.isFull then none else some (t.insert name address loc)

/-- Declares a name, and tells what it was declared as before. A refused declaration leaves the
table as it is. -/
def declare (t : SymbolTable) (name : String) (address : Address) (loc : Location) :
    SymbolTable × Except DeclareError (Option Symbol) :=
  let previous := t.get? name
  match t.declare? name address loc with
  | none => (t, .error .idsExhausted)
  | some t' => (t', .ok previous)

/-- The labels with their symbols, by first declaration. -/
def toList (t : SymbolTable) : List (String × Symbol) :=
  t.names.toList.filterMap fun name => (t.get? name).map fun symbol => (name, symbol)

/-- How many labels there are. -/
def size (t : SymbolTable) : Nat := t.names.size

@[simp] theorem get?_empty (name : String) : ({} : SymbolTable).get? name = none := by
  simp [get?]

/-- A declaration is refused when the table is full, and for no other reason. -/
theorem declare_eq (t : SymbolTable) (name : String) (address : Address) (loc : Location) :
    t.declare name address loc =
      if t.isFull then (t, .error .idsExhausted)
      else (t.insert name address loc, .ok (t.get? name)) := by
  unfold declare declare?
  by_cases hfull : t.isFull = true
  · simp [hfull]
  · simp [hfull]

end SymbolTable

end StackAsm
