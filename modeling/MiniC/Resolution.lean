import MiniC.Scope

/-!
# Names and static types

Every name refers to a declaration, and every expression has a static type, which decides by how
much pointer arithmetic moves and which stores keep a byte only.

The initial value of a global sees the globals before it only, and a function sees them all.  A
name that refers to nothing stays without a link; using it is an error of the run.

Main definitions:

* `MiniC.BinaryOp.resultType`, `MiniC.UnaryOp.resultType`: the types that operators yield;
* `MiniC.Expr.resolve`, `MiniC.Stmt.resolve`, `MiniC.Program.resolve`: links and types.

Main results:

* `MiniC.Expr.type_resolve`: every resolved expression has a type.
-/

set_option autoImplicit false

namespace MiniC

/-- The type of a binary expression.  A sum has the type of its pointer operand, a difference that
of its left operand if only that is a pointer, an assignment that of its target. -/
def BinaryOp.resultType (op : BinaryOp) (left right : Ty) : Ty :=
  match op with
  | .add => if left.isPointer then left else if right.isPointer then right else .int
  | .sub => if left.isPointer && !right.isPointer then left else .int
  | .assign | .addAssign | .subAssign | .mulAssign | .divAssign | .modAssign => left
  | _ => .int

/-- The type of a unary expression. -/
def UnaryOp.resultType (op : UnaryOp) (operand : Ty) : Ty :=
  match op with
  | .deref => operand.pointee?.getD .int
  | .addrOf => operand.addPointer
  | .preInc | .preDec | .postInc | .postDec => operand
  | .neg | .not | .bitNot => .int

namespace Expr

/-- The static type of an expression, `int` where none has been determined. -/
def typeOrInt (e : Expr) : Ty := e.type.getD .int

mutual

/-- Links the names in an expression and determines the type of every expression in it. -/
def resolve (s : Scope) : Expr → Expr
  | int n v => int { n with type := some .int } v
  | char n v => char { n with type := some .char } v
  | string n v => string { n with type := some Ty.char.addPointer } v
  | name n x _ =>
    let link := s.lookup? x
    name { n with type := some (s.linkType link) } x link
  | binary n op l r =>
    let l := l.resolve s
    let r := r.resolve s
    binary { n with type := some (op.resultType l.typeOrInt r.typeOrInt) } op l r
  | unary n op x =>
    let x := x.resolve s
    unary { n with type := some (op.resultType x.typeOrInt) } op x
  | call n f args => call { n with type := some (s.callType f) } f (resolveAll s args)
  | subscript n b i =>
    let b := b.resolve s
    subscript { n with type := some (b.typeOrInt.pointee?.getD .int) } b (i.resolve s)
  | cast n t x => cast { n with type := some t } t (x.resolve s)
  | sizeof n t => sizeof { n with type := some .int } t

/-- Resolves the expressions of a list. -/
def resolveAll (s : Scope) : List Expr → List Expr
  | [] => []
  | e :: es => e.resolve s :: resolveAll s es

end

/-- Resolving keeps the number of a node. -/
@[simp] theorem id_resolve (s : Scope) (e : Expr) : (e.resolve s).id = e.id := by
  cases e <;> rfl

/-- Resolving keeps the location of a node. -/
@[simp] theorem location_resolve (s : Scope) (e : Expr) :
    (e.resolve s).location = e.location := by
  cases e <;> rfl

/-- Every resolved expression has a type. -/
theorem type_resolve (s : Scope) (e : Expr) : ((e.resolve s).type).isSome = true := by
  cases e <;> rfl

/-- The expression is a name that refers to nothing. -/
def isUnlinked : Expr → Bool
  | name _ _ none => true
  | _ => false

end Expr

namespace Variable

/-- Resolves the initial value of a variable. -/
def resolve (s : Scope) (v : Variable) : Variable := { v with init := v.init.map (Expr.resolve s) }

/-- Resolves declared variables from left to right; each is visible behind its own initial value. -/
def resolveAll (s : Scope) : List Variable → List Variable × Scope
  | [] => ([], s)
  | v :: vs =>
    let (vs', s') := resolveAll (s.bind v.name v.id) vs
    (v.resolve s :: vs', s')

end Variable

namespace Stmt

mutual

/-- Resolves a statement, and yields the scope behind it. -/
def resolve (s : Scope) : Stmt → Stmt × Scope
  | declare l vs =>
    let (vs, s) := Variable.resolveAll s vs
    (declare l vs, s)
  | eval l e => (eval l (e.resolve s), s)
  | branch l c t e =>
    let c := c.resolve s
    let (t, s) := t.resolve s
    let (e, s) := resolveOption s e
    (branch l c t e, s)
  | whileLoop l c b =>
    let c := c.resolve s
    let (b, s) := b.resolve s
    (whileLoop l c b, s)
  | doLoop l b c =>
    let c := c.resolve s
    let (b, s) := b.resolve s
    (doLoop l b c, s)
  | forLoop l i c e b =>
    let (i, s) := resolveOption s i
    let c := c.map (Expr.resolve s)
    let e := e.map (Expr.resolve s)
    let (b, s) := b.resolve s
    (forLoop l i c e b, s)
  | ret l e => (ret l (e.map (Expr.resolve s)), s)
  | block l body =>
    let (body, s) := resolveAll s body
    (block l body, s)
  | leave l => (leave l, s)
  | next l => (next l, s)
  | empty l => (empty l, s)

/-- Resolves the statements of a list from first to last. -/
def resolveAll (s : Scope) : List Stmt → List Stmt × Scope
  | [] => ([], s)
  | st :: sts =>
    let (st, s) := st.resolve s
    let (sts, s) := resolveAll s sts
    (st :: sts, s)

/-- Resolves an optional statement. -/
def resolveOption (s : Scope) : Option Stmt → Option Stmt × Scope
  | none => (none, s)
  | some st =>
    let (st, s) := st.resolve s
    (some st, s)

end

end Stmt

namespace Function

/-- A prototype of a built-in stands for it; a definition never does. -/
def tag (f : Function) : Function :=
  if f.isDefinition then f else { f with intrinsic := Intrinsic.ofName? f.name }

/-- Resolves the body of a function in the scope of its parameters. -/
def resolve (s : Scope) (f : Function) : Function :=
  { f with body := f.body.map fun b => (b.resolve (s.enter f.params)).1 }

end Function

namespace Program

/-- Resolves globals from first to last; each sees those before it. -/
def resolveGlobals (s : Scope) : List Variable → List Variable × Scope
  | [] => ([], s)
  | v :: vs =>
    let (vs', s') := resolveGlobals (s.bindGlobal v.name v.id) vs
    (v.resolve s :: vs', s')

/-- Links all names of a program, determines the types of all its expressions, and lets prototypes
of built-ins stand for them. -/
def resolve (p : Program) : Program :=
  let functions := p.functions.map Function.tag
  let (globals, s) := resolveGlobals ⟨p.declarations, functions, [], []⟩ p.globals
  { p with globals := globals, functions := functions.map (Function.resolve s) }

/-- The number of names of a program that refer to nothing. -/
def unlinkedCount (p : Program) : Nat := p.exprs.countP Expr.isUnlinked

end Program

end MiniC
