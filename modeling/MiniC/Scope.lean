import MiniC.Program

/-!
# Scopes

A function has one flat scope: a name refers to the last parameter or variable of that name that
is declared before it, whatever block that stands in, and else to the last global of that name.

Main definitions:

* `MiniC.Scope`, `MiniC.Scope.lookup?`: what is declared at some place;
* `MiniC.Scope.linkType`, `MiniC.Scope.callType`: the types of names and of calls there.

Main results:

* `MiniC.Scope.lookup?_bind`: the last declaration of a name is the one it refers to;
* `MiniC.Scope.lookup?_bindGlobal`: a global does not hide a local of its name.
-/

set_option autoImplicit false

namespace MiniC

/-- What is declared at some place of a program: the table of all declarations, the functions, and
the globals and locals that are visible, last one first. -/
structure Scope where
  declarations : Array Declaration
  functions : List Function
  globals : List (String × Nat)
  locals : List (String × Nat)
deriving Repr, Inhabited

namespace Scope

/-- The declaration that a name refers to: a local one, else a global one. -/
def lookup? (s : Scope) (name : String) : Option Nat :=
  match s.locals.lookup name with
  | some id => some id
  | none => s.globals.lookup name

/-- The scope behind a local declaration. -/
def bind (s : Scope) (name : String) (id : Nat) : Scope :=
  { s with locals := (name, id) :: s.locals }

/-- The scope behind a global declaration. -/
def bindGlobal (s : Scope) (name : String) (id : Nat) : Scope :=
  { s with globals := (name, id) :: s.globals }

/-- The scope at the start of a function: its named parameters, the last of a name winning. -/
def enter (s : Scope) (params : List Parameter) : Scope :=
  params.foldl (fun s p => if p.name.isEmpty then s else s.bind p.name p.id) { s with locals := [] }

/-- The type of a name that refers to `link`: that of its declaration, an array standing for a
pointer to its first element; `int` if it refers to nothing. -/
def linkType (s : Scope) (link : Option Nat) : Ty :=
  match link.bind fun id => s.declarations[id]? with
  | some d => d.type.decayed
  | none => .int

/-- The type of a call: what the first function of that name returns, else what the built-in of
that name does, else `int`. -/
def callType (s : Scope) (callee : String) : Ty :=
  match s.functions.find? fun f => f.name == callee with
  | some f => f.returnType
  | none =>
    match Intrinsic.ofName? callee with
    | some i => i.returnType
    | none => .int

@[simp] theorem lookup?_bind_self (s : Scope) (name : String) (id : Nat) :
    (s.bind name id).lookup? name = some id := by
  simp [lookup?, bind]

theorem lookup?_bind_of_ne (s : Scope) {name other : String} (id : Nat) (h : other ≠ name) :
    (s.bind name id).lookup? other = s.lookup? other := by
  have : (other == name) = false := by simpa using h
  simp [lookup?, bind, List.lookup_cons, this]

/-- The last declaration of a name is the one it refers to. -/
theorem lookup?_bind (s : Scope) (name other : String) (id : Nat) :
    (s.bind name id).lookup? other = if other = name then some id else s.lookup? other := by
  by_cases h : other = name
  · subst h; simp
  · simp [h, lookup?_bind_of_ne]

/-- The last global of a name is the one it refers to, unless there is a local one. -/
theorem lookup?_bindGlobal (s : Scope) (name other : String) (id : Nat) :
    (s.bindGlobal name id).lookup? other =
      if (s.locals.lookup other).isSome ∨ other ≠ name then s.lookup? other else some id := by
  by_cases h : other = name
  · subst h
    cases hl : s.locals.lookup other <;> simp [lookup?, bindGlobal, hl]
  · have : (other == name) = false := by simpa using h
    simp [lookup?, bindGlobal, List.lookup_cons, this, h]

end Scope

end MiniC
