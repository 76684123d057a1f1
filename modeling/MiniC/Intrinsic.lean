import MiniC.Ty

/-!
# Built-in functions

Four functions that a program may call without defining them: `GET` reads an integer, `PRINT`
writes one, `MALLOC` allocates a block and `FREE` releases it.

Main definitions:

* `MiniC.Intrinsic`, `MiniC.Intrinsic.name`, `MiniC.Intrinsic.ofName?`: the built-ins by name;
* `MiniC.Intrinsic.arity`, `MiniC.Intrinsic.returnType`: how they are called.

Main results:

* `MiniC.Intrinsic.ofName?_eq_some_iff`: a name stands for the built-in that bears it.
-/

set_option autoImplicit false

namespace MiniC

/-- A built-in function. -/
inductive Intrinsic where
  | get
  | print
  | malloc
  | free
deriving DecidableEq, Repr, Inhabited

namespace Intrinsic

/-- All built-ins. -/
def all : List Intrinsic := [get, print, malloc, free]

/-- The name under which a built-in is called. -/
def name : Intrinsic → String
  | get => "GET"
  | print => "PRINT"
  | malloc => "MALLOC"
  | free => "FREE"

/-- The built-in of a given name. -/
def ofName? (name : String) : Option Intrinsic := all.find? fun i => i.name == name

/-- A name stands for the built-in that bears it, and for no other. -/
theorem ofName?_eq_some_iff (s : String) (i : Intrinsic) : ofName? s = some i ↔ i.name = s := by
  constructor
  · intro h
    simpa using List.find?_some h
  · rintro rfl
    cases i <;> rfl

/-- The number of arguments that a built-in takes. -/
def arity : Intrinsic → Nat
  | get => 0
  | print | malloc | free => 1

/-- The type of a call of a built-in. -/
def returnType : Intrinsic → Ty
  | get => .int
  | malloc => Ty.void.addPointer
  | print | free => .void

end Intrinsic

end MiniC
