import MiniC.Stmt

/-!
# Programs

A program: its global variables in source order, its functions, and the table of all variables
and parameters that it declares.

Main definitions:

* `MiniC.Declaration`, `MiniC.Parameter`, `MiniC.Function`, `MiniC.Program`;
* `MiniC.Program.function?`, `MiniC.Program.functionIndex?`: the function that a name calls;
* `MiniC.Program.exprs`: all expressions of a program;
* `MiniC.Program.withoutDeclarations`: a program that has lost its table and its static types.

Main results:

* `MiniC.Program.name_of_function?`: the function that a name calls bears that name;
* `MiniC.Program.getElem?_of_called?`: it stands at its place in the list of functions;
* `MiniC.Program.function?_eq_none_iff`: a name calls nothing exactly if no function bears it.
-/

set_option autoImplicit false

namespace MiniC

/-- What the declaration table holds of a variable or parameter. -/
structure Declaration where
  name : String
  type : Ty
  isGlobal : Bool
deriving DecidableEq, Repr, Inhabited

/-- A parameter of a function; an unnamed one has the empty name. -/
structure Parameter where
  id : Nat
  name : String
  type : Ty
deriving DecidableEq, Repr, Inhabited

/-- A function: a definition if it has a body, else a prototype. -/
structure Function where
  name : String
  params : List Parameter
  returnType : Ty
  body : Option Stmt
  /-- The built-in that a prototype stands for. -/
  intrinsic : Option Intrinsic
  location : Location
deriving Repr, Inhabited

/-- A program.  The entry of `declarations` at `id` describes the variable or parameter `id`. -/
structure Program where
  globals : List Variable
  functions : List Function
  declarations : Array Declaration
deriving Repr, Inhabited

namespace Function

/-- The function has a body. -/
def isDefinition (f : Function) : Bool := f.body.isSome

/-- All expressions of a function. -/
def exprs (f : Function) : List Expr :=
  match f.body with
  | some s => s.exprs
  | none => []

/-- All variables that the body of a function declares. -/
def vars (f : Function) : List Variable :=
  match f.body with
  | some s => s.vars
  | none => []

/-- All statements of a function. -/
def stmts (f : Function) : List Stmt := Stmt.allOfOption f.body

end Function

namespace Program

/-- The function that a call of `name` reaches, with its place.  `index` is the place of the head
of the list, and `found` the last prototype before it. -/
def calledFrom (name : String) (index : Nat) (found : Option (Nat × Function)) :
    List Function → Option (Nat × Function)
  | [] => found
  | f :: fs =>
    if f.name = name then
      if f.isDefinition then some (index, f) else calledFrom name (index + 1) (some (index, f)) fs
    else calledFrom name (index + 1) found fs

/-- The function that a call of `name` reaches, with its place: the first definition of that name,
else its last prototype. -/
def called? (p : Program) (name : String) : Option (Nat × Function) :=
  calledFrom name 0 none p.functions

/-- The place of the function that a call of `name` reaches. -/
def functionIndex? (p : Program) (name : String) : Option Nat := (p.called? name).map (·.1)

/-- The function that a call of `name` reaches. -/
def function? (p : Program) (name : String) : Option Function := (p.called? name).map (·.2)

/-- The table entry of a declaration. -/
def declaration? (p : Program) (id : Nat) : Option Declaration := p.declarations[id]?

/-- Whether a declaration is a global one, as far as the table tells. -/
def isGlobal? (p : Program) (id : Nat) : Option Bool :=
  (p.declarations[id]?).map Declaration.isGlobal

/-- All expressions of a program, those of the globals first. -/
def exprs (p : Program) : List Expr :=
  p.globals.flatMap Variable.exprs ++ p.functions.flatMap Function.exprs

/-- All statements of a program. -/
def stmts (p : Program) : List Stmt := p.functions.flatMap Function.stmts

/-- The program without its declaration table and without static types; links stay. -/
def withoutDeclarations (p : Program) : Program where
  globals := p.globals.map Variable.eraseTypes
  functions := p.functions.map fun f => { f with body := f.body.map Stmt.eraseTypes }
  declarations := #[]

/-- The program with the built-in of its function `index` replaced. -/
def setIntrinsic (p : Program) (index : Nat) (i : Option Intrinsic) : Program :=
  { p with functions := p.functions.modify index fun f => { f with intrinsic := i } }

/-! ### Calls by name -/

/-- What a name reaches bears that name. -/
theorem name_of_calledFrom {name : String} {fs : List Function} {index : Nat}
    {found : Option (Nat × Function)} (hf : ∀ p ∈ found, p.2.name = name) {p : Nat × Function}
    (h : calledFrom name index found fs = some p) : p.2.name = name := by
  induction fs generalizing index found with
  | nil => exact hf p h
  | cons f fs ih =>
    simp only [calledFrom] at h
    split at h
    · next hn =>
      split at h
      · simp only [Option.some.injEq] at h
        subst h
        exact hn
      · exact ih (by simpa using hn) h
    · exact ih hf h

/-- What a name reaches is a function of the list, unless it is the one that was found before. -/
theorem getElem?_of_calledFrom {name : String} {fs : List Function} {index : Nat}
    {found : Option (Nat × Function)} {i : Nat} {f : Function}
    (h : calledFrom name index found fs = some (i, f)) :
    found = some (i, f) ∨ ∃ k, i = index + k ∧ fs[k]? = some f := by
  induction fs generalizing index found with
  | nil => exact .inl h
  | cons g gs ih =>
    have shift : (∃ k, i = index + 1 + k ∧ gs[k]? = some f) →
        ∃ k, i = index + k ∧ (g :: gs)[k]? = some f := by
      rintro ⟨k, hi, hk⟩
      exact ⟨k + 1, by omega, by simpa using hk⟩
    simp only [calledFrom] at h
    split at h
    · split at h
      · cases h
        exact .inr ⟨0, rfl, rfl⟩
      · rcases ih h with hg | hk
        · cases hg
          exact .inr ⟨0, rfl, rfl⟩
        · exact .inr (shift hk)
    · exact (ih h).imp_right shift

/-- A name reaches the function at the place that is found for it. -/
theorem getElem?_of_called? {p : Program} {name : String} {i : Nat} {f : Function}
    (h : p.called? name = some (i, f)) : p.functions[i]? = some f := by
  rcases getElem?_of_calledFrom h with h | ⟨k, rfl, hk⟩
  · cases h
  · simpa using hk

/-- The function that a name reaches is one of the program. -/
theorem mem_of_function? {p : Program} {name : String} {f : Function}
    (h : p.function? name = some f) : f ∈ p.functions := by
  obtain ⟨⟨i, g⟩, hcalled, rfl⟩ := Option.map_eq_some_iff.1 h
  exact List.mem_of_getElem? (getElem?_of_called? hcalled)

/-- A name reaches nothing exactly if no function bears it. -/
theorem calledFrom_eq_none_iff {name : String} {fs : List Function} {index : Nat}
    {found : Option (Nat × Function)} :
    calledFrom name index found fs = none ↔ found = none ∧ ∀ f ∈ fs, f.name ≠ name := by
  induction fs generalizing index found with
  | nil => simp [calledFrom]
  | cons f fs ih =>
    by_cases hn : f.name = name
    · by_cases hd : f.isDefinition = true <;> simp [calledFrom, hn, hd, ih]
    · simp [calledFrom, hn, ih]

/-- A name reaches nothing exactly if no function of the program bears it. -/
theorem function?_eq_none_iff (p : Program) (name : String) :
    p.function? name = none ↔ ∀ f ∈ p.functions, f.name ≠ name := by
  simp [function?, called?, calledFrom_eq_none_iff]

/-- The function that a name reaches bears that name. -/
theorem name_of_function? {p : Program} {name : String} {f : Function}
    (h : p.function? name = some f) : f.name = name := by
  simp only [function?, Option.map_eq_some_iff] at h
  obtain ⟨q, hq, rfl⟩ := h
  exact name_of_calledFrom (by simp) hq

end Program

end MiniC
