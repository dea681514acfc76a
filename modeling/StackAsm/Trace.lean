import StackAsm.Error
import StackAsm.Machine.CodeUnit

/-!
# StackAsm.Trace

What the assembler reports on its way, and computations that report.

A traced computation ends in a value or an error, and in both cases says what happened until then.
The reports never influence the result: `Traced.result` is what is left when they are ignored, and
it turns sequencing of traced computations into sequencing of their results.
-/

namespace StackAsm

/-- Something the assembler did. -/
inductive Event where
  /-- A label was declared. -/
  | label (name : String) (address : Address)
  /-- An instruction was encoded, under a label. -/
  | instruction (mnemonic : String) (address : Address) (label : String)
  /-- A file was pasted in. -/
  | included (path : Path)
  /-- A file was not pasted in again. -/
  | skipped (path : Path)
  /-- The entry point was found. -/
  | entryPoint (name : String) (address : Address)
  /-- A reference to a label was filled in. -/
  | reference (name : String) (id : LabelId)
  /-- The label table was made. -/
  | labelTable (entries : Nat)
  /-- The code section was made. -/
  | code (units : Nat)
deriving DecidableEq, Repr

namespace Event

/-- Whether an event is of interest only when looking closely. -/
def isDetail : Event → Bool
  | instruction .. => true
  | _ => false

/-- The event in words. -/
def message : Event → String
  | label name address =>
    s!"compiling label {name} at address {Text.hexWord address.toNat}"
  | instruction mnemonic address under =>
    s!"compiling instruction {mnemonic} at address {Text.hexWord address.toNat} inside {under}"
  | included path => s!"including file '{path.text}'"
  | skipped path => s!"not re-including file '{path.text}'"
  | entryPoint name address =>
    s!"`{name}` entry point address: {Text.hexWord address.toNat}"
  | reference name id =>
    s!"resolving jump for `{name}` to label id {Text.decimal id.toNat}"
  | labelTable entries => s!"generated {Text.decimal entries} label table entries"
  | code units => s!"instructions emitted (est.): {Text.decimal units}"

/-- What a directive did, as an event. -/
def ofEffect? : Effect → Option Event
  | .registered _ => none
  | .skipped path => some (skipped path)
  | .pasted path _ => some (included path)

end Event

/-- A result and the events on the way to it. -/
structure Traced (α : Type) where
  events : List Event
  result : Except AssemblyError α

namespace Traced

/-- Reports events. -/
def report (events : List Event) : Traced Unit := ⟨events, .ok ()⟩

/-- Ends in an error. -/
def fail {α : Type} (e : AssemblyError) : Traced α := ⟨[], .error e⟩

/-- Goes on after a value, and stops at an error. -/
def andThen {α β : Type} (x : Traced α) (f : α → Traced β) : Traced β :=
  match x.result with
  | .error e => ⟨x.events, .error e⟩
  | .ok a => ⟨x.events ++ (f a).events, (f a).result⟩

instance : Monad Traced where
  pure a := ⟨[], .ok a⟩
  bind := andThen

@[simp] theorem result_pure {α : Type} (a : α) : (pure a : Traced α).result = .ok a := rfl

@[simp] theorem result_report (events : List Event) : (report events).result = .ok () := rfl

@[simp] theorem result_fail {α : Type} (e : AssemblyError) :
    (fail e : Traced α).result = .error e := rfl

@[simp] theorem result_bind {α β : Type} (x : Traced α) (f : α → Traced β) :
    (x >>= f).result = x.result.bind fun a => (f a).result := by
  show (andThen x f).result = _
  unfold andThen
  cases x.result <;> rfl

end Traced

end StackAsm
