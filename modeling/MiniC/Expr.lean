import MiniC.Intrinsic
import MiniC.Location
import MiniC.Operator

/-!
# Expressions

The tree of an expression.  Every node bears a number that no other node of its program bears, its
location, and, once names are resolved, its static type.

Main definitions:

* `MiniC.Node`: what every node of an expression bears;
* `MiniC.Expr`: expressions;
* `MiniC.Expr.all`: an expression and all expressions in it;
* `MiniC.Expr.stride`: the bytes by which pointer arithmetic on an expression's value moves.

Main results:

* `MiniC.Expr.mem_all_self`: an expression is among its own sub-expressions.
-/

set_option autoImplicit false

namespace MiniC

/-- What every node of an expression bears: its number, its location, and its static type if that
has been determined. -/
structure Node where
  id : Nat
  location : Location
  type : Option Ty
deriving DecidableEq, Repr, Inhabited

/-- An expression. -/
inductive Expr where
  | int (node : Node) (value : Int64)
  | char (node : Node) (value : Int8)
  | string (node : Node) (text : String)
  /-- A variable; `link` is the declaration that it refers to, if there is one. -/
  | name (node : Node) (name : String) (link : Option Nat)
  | binary (node : Node) (op : BinaryOp) (left right : Expr)
  | unary (node : Node) (op : UnaryOp) (operand : Expr)
  | call (node : Node) (callee : String) (args : List Expr)
  | subscript (node : Node) (base index : Expr)
  | cast (node : Node) (target : Ty) (operand : Expr)
  | sizeof (node : Node) (operand : Ty)
deriving Repr, Inhabited

namespace Expr

/-- The node data of an expression. -/
def node : Expr → Node
  | int n _ | char n _ | string n _ | name n _ _ | binary n _ _ _ | unary n _ _ | call n _ _
  | subscript n _ _ | cast n _ _ | sizeof n _ => n

/-- The number of an expression's node. -/
def id (e : Expr) : Nat := e.node.id

/-- Where an expression is reported to be. -/
def location (e : Expr) : Location := e.node.location

/-- The static type of an expression, if that has been determined. -/
def type (e : Expr) : Option Ty := e.node.type

/-- The bytes by which pointer arithmetic on the value of an expression moves per element. -/
def stride (e : Expr) : Int64 :=
  match e.type with
  | some t => t.stride
  | none => 1

mutual

/-- An expression and all expressions in it, each before those inside it. -/
def all : Expr → List Expr
  | e@(int _ _) | e@(char _ _) | e@(string _ _) | e@(name _ _ _) | e@(sizeof _ _) => [e]
  | e@(binary _ _ l r) => e :: (l.all ++ r.all)
  | e@(unary _ _ x) => e :: x.all
  | e@(call _ _ args) => e :: allOf args
  | e@(subscript _ b i) => e :: (b.all ++ i.all)
  | e@(cast _ _ x) => e :: x.all

/-- The expressions of a list and all expressions in them. -/
def allOf : List Expr → List Expr
  | [] => []
  | e :: es => e.all ++ allOf es

end

theorem mem_all_self (e : Expr) : e ∈ e.all := by
  cases e <;> simp [all]

mutual

/-- The expression without static types; its links stay. -/
def eraseTypes : Expr → Expr
  | int n v => int { n with type := none } v
  | char n v => char { n with type := none } v
  | string n v => string { n with type := none } v
  | name n s link => name { n with type := none } s link
  | binary n op l r => binary { n with type := none } op l.eraseTypes r.eraseTypes
  | unary n op x => unary { n with type := none } op x.eraseTypes
  | call n f args => call { n with type := none } f (eraseTypesOf args)
  | subscript n b i => subscript { n with type := none } b.eraseTypes i.eraseTypes
  | cast n t x => cast { n with type := none } t x.eraseTypes
  | sizeof n t => sizeof { n with type := none } t

/-- The expressions of a list without static types. -/
def eraseTypesOf : List Expr → List Expr
  | [] => []
  | e :: es => e.eraseTypes :: eraseTypesOf es

end

end Expr

end MiniC
