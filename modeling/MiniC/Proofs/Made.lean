import MiniC.Grammar.Program
import Mathlib.Algebra.Group.Nat.Defs

/-!
# Trees that parsers make

A parser gives out two things while it reads: numbers for the nodes of expressions, from a counter,
and places in the declaration table, which grows at its end.  A tree is made from one supply to
another one if a parser that begins with the first supply may make this tree and leave the second
one.  The relations say in which order the parts of a tree are made, where each node gets its
number and each variable its place, and what the grammar guarantees besides: the declarators of a
declaration share a base type, an `else` belongs to the nearest `if`, and a parameter list is not a
single `void`.

Main definitions:

* `MiniC.Supply`: the number of the next node, and the table so far;
* `MiniC.Threaded`, `MiniC.Possibly`: things made one after the other, and a thing that may be
  missing;
* `MiniC.Expr.Made`, `MiniC.Stmt.Made`, `MiniC.Function.Made`, `MiniC.Program.Made`: the trees that
  are made;
* `MiniC.Stmt.isOpen`: a statement that an `else` behind it would join.

Main results:

* `MiniC.Threaded.append`: lists that are made one after the other are one list that is made.
-/

set_option autoImplicit false

namespace MiniC

/-- What parsers give out: the number of the next node, and the declaration table so far. -/
structure Supply where
  nextNode : Nat
  declarations : Array Declaration

namespace Supply

/-- The supply before anything has been made. -/
def start : Supply := ⟨0, #[]⟩

/-- The supply behind a node. -/
def afterNode (c : Supply) : Supply := { c with nextNode := c.nextNode + 1 }

/-- The supply behind an entry of the table. -/
def afterEntry (c : Supply) (d : Declaration) : Supply :=
  { c with declarations := c.declarations.push d }

end Supply

/-! ### Lists and options -/

/-- Things that are made one after the other. -/
inductive Threaded {σ α : Type} (R : σ → σ → α → Prop) : σ → σ → List α → Prop
  | nil (c : σ) : Threaded R c c []
  | cons {c c₁ c' : σ} {x : α} {xs : List α} :
      R c c₁ x → Threaded R c₁ c' xs → Threaded R c c' (x :: xs)

/-- Something that is made, or is missing. -/
inductive Possibly {σ α : Type} (R : σ → σ → α → Prop) : σ → σ → Option α → Prop
  | none (c : σ) : Possibly R c c none
  | some {x : α} {c c' : σ} : R c c' x → Possibly R c c' (some x)

namespace Threaded

variable {σ α : Type} {R : σ → σ → α → Prop} {c c₁ c' : σ} {xs ys : List α}

theorem append (hx : Threaded R c c₁ xs) (hy : Threaded R c₁ c' ys) :
    Threaded R c c' (xs ++ ys) := by
  induction hx with
  | nil c => exact hy
  | cons h _ ih => exact .cons h (ih hy)

/-- What holds of a thing whenever it is made holds of all things in a list that is made. -/
theorem forall_mem {P : α → Prop} (h : Threaded R c c' xs) (hR : ∀ c c' x, R c c' x → P x) :
    ∀ x ∈ xs, P x := by
  induction h with
  | nil c => exact fun x hx => absurd hx List.not_mem_nil
  | cons h _ ih => exact List.forall_mem_cons.2 ⟨hR _ _ _ h, ih⟩

end Threaded

/-! ### Expressions -/

/-- An expression that is made between two supplies.  The parts of a node are made before the node
itself; the name of a called function gets a number that is not used. -/
inductive Expr.Made : Supply → Supply → Expr → Prop
  | int (c : Supply) (loc : Location) (v : Int64) :
      Made c c.afterNode (.int ⟨c.nextNode, loc, none⟩ v)
  | char (c : Supply) (loc : Location) (v : Int8) :
      Made c c.afterNode (.char ⟨c.nextNode, loc, none⟩ v)
  | string (c : Supply) (loc : Location) (v : String) :
      Made c c.afterNode (.string ⟨c.nextNode, loc, none⟩ v)
  | name (c : Supply) (loc : Location) (x : String) :
      Made c c.afterNode (.name ⟨c.nextNode, loc, none⟩ x none)
  | binary {c c₁ c' : Supply} (loc : Location) (op : BinaryOp) {l r : Expr} :
      Made c c₁ l → Made c₁ c' r →
        Made c c'.afterNode (.binary ⟨c'.nextNode, loc, none⟩ op l r)
  | unary {c c' : Supply} (loc : Location) (op : UnaryOp) {x : Expr} :
      Made c c' x → Made c c'.afterNode (.unary ⟨c'.nextNode, loc, none⟩ op x)
  | call {c c' : Supply} (loc : Location) (f : String) {args : List Expr} :
      Threaded Made c.afterNode c' args →
        Made c c'.afterNode (.call ⟨c'.nextNode, loc, none⟩ f args)
  | subscript {c c₁ c' : Supply} (loc : Location) {b i : Expr} :
      Made c c₁ b → Made c₁ c' i →
        Made c c'.afterNode (.subscript ⟨c'.nextNode, loc, none⟩ b i)
  | cast {c c' : Supply} (loc : Location) {t : Ty} {x : Expr} :
      t.length = none → Made c c' x → Made c c'.afterNode (.cast ⟨c'.nextNode, loc, none⟩ t x)
  | sizeof (c : Supply) (loc : Location) {t : Ty} :
      t.length = none → Made c c.afterNode (.sizeof ⟨c.nextNode, loc, none⟩ t)

/-! ### Declarations and statements -/

/-- A variable that is made between two supplies, with a base type and as a global or a local one.
It is entered into the table behind its initial value. -/
inductive Variable.Made (isGlobal : Bool) (base : BaseType) : Supply → Supply → Variable → Prop
  | mk {c c' : Supply} (pointers : Nat) {length : Option Nat} (name : String) (loc : Location)
      {init : Option Expr} :
      (∀ n ∈ length, n < 2 ^ 63) → (⟨base, pointers, length⟩ : Ty).isVoid = false →
      Possibly Expr.Made c c' init →
      Made isGlobal base c (c'.afterEntry ⟨name, ⟨base, pointers, length⟩, isGlobal⟩)
        ⟨c'.declarations.size, name, ⟨base, pointers, length⟩, init, loc⟩

/-- A statement that an `else` behind it would join: it ends with an `if` without one. -/
def Stmt.isOpen : Stmt → Bool
  | branch _ _ _ none => true
  | branch _ _ _ (some e) => e.isOpen
  | whileLoop _ _ b | forLoop _ _ _ _ b => b.isOpen
  | declare _ _ | eval _ _ | doLoop _ _ _ | ret _ _ | block _ _ | leave _ | next _ | empty _ =>
    false

/-- A statement that is made between two supplies. -/
inductive Stmt.Made : Supply → Supply → Stmt → Prop
  | declare {c c' : Supply} (loc : Location) {base : BaseType} {v : Variable}
      {vs : List Variable} :
      Threaded (Variable.Made false base) c c' (v :: vs) → Made c c' (.declare loc (v :: vs))
  | eval {c c' : Supply} (loc : Location) {e : Expr} : e.Made c c' → Made c c' (.eval loc e)
  | branch {c c₁ c₂ c' : Supply} (loc : Location) {e : Expr} {t : Stmt} {f : Option Stmt} :
      e.Made c c₁ → Made c₁ c₂ t → Possibly Made c₂ c' f → (t.isOpen = true → f = none) →
        Made c c' (.branch loc e t f)
  | whileLoop {c c₁ c' : Supply} (loc : Location) {e : Expr} {b : Stmt} :
      e.Made c c₁ → Made c₁ c' b → Made c c' (.whileLoop loc e b)
  | doLoop {c c₁ c' : Supply} (loc : Location) {b : Stmt} {e : Expr} :
      Made c c₁ b → e.Made c₁ c' → Made c c' (.doLoop loc b e)
  | forLoop {c c₁ c₂ c₃ c' : Supply} (loc : Location) {i : Option Stmt} {e s : Option Expr}
      {b : Stmt} :
      Possibly Made c c₁ i → (∀ s ∈ i, s.isClause = true) → Possibly Expr.Made c₁ c₂ e →
      Possibly Expr.Made c₂ c₃ s → Made c₃ c' b → Made c c' (.forLoop loc i e s b)
  | ret {c c' : Supply} (loc : Location) {e : Option Expr} :
      Possibly Expr.Made c c' e → Made c c' (.ret loc e)
  | block {c c' : Supply} (loc : Location) {ss : List Stmt} :
      Threaded Made c c' ss → Made c c' (.block loc ss)
  | leave (c : Supply) (loc : Location) : Made c c (.leave loc)
  | next (c : Supply) (loc : Location) : Made c c (.next loc)
  | empty (c : Supply) (loc : Location) : Made c c (.empty loc)

/-! ### Programs -/

/-- A parameter that is made between two supplies. -/
inductive Parameter.Made : Supply → Supply → Parameter → Prop
  | mk (c : Supply) (base : BaseType) (pointers : Nat) (name : String) :
      Made c (c.afterEntry ⟨name, ⟨base, pointers, none⟩, false⟩)
        ⟨c.declarations.size, name, ⟨base, pointers, none⟩⟩

/-- A parameter that is written as `void` alone. -/
def Parameter.isBareVoid (q : Parameter) : Bool := q.type == .void && q.name == ""

/-- Parameters that are not written as `void` alone, which stands for none. -/
def Parameter.notBareVoid (qs : List Parameter) : Prop := ∀ q, qs = [q] → q.isBareVoid = false

/-- A function that is made between two supplies.  Its body is a block.  If identifiers are known to
have names, its parameters are not written as a single `void`. -/
inductive Function.Made (named : Prop) : Supply → Supply → Function → Prop
  | prototype {c c' : Supply} (name : String) (base : BaseType) (pointers : Nat) (loc : Location)
      {params : List Parameter} :
      Threaded Parameter.Made c c' params → (named → Parameter.notBareVoid params) →
      Made named c c' ⟨name, params, ⟨base, pointers, none⟩, none, none, loc⟩
  | definition {c c₁ c' : Supply} (name : String) (base : BaseType) (pointers : Nat)
      (loc bodyLoc : Location) {params : List Parameter} {body : List Stmt} :
      Threaded Parameter.Made c c₁ params → (named → Parameter.notBareVoid params) →
      Threaded Stmt.Made c₁ c' body →
      Made named c c' ⟨name, params, ⟨base, pointers, none⟩, some (.block bodyLoc body), none, loc⟩

namespace Grammar.TopLevel

/-- The global variables of a declaration outside of functions. -/
def vars : TopLevel → List Variable
  | globals vs => vs
  | function _ => []

/-- The function of a declaration outside of functions, if it is one. -/
def functions : TopLevel → List Function
  | globals _ => []
  | function f => [f]

/-- A declaration outside of functions that is made between two supplies. -/
inductive Made (named : Prop) : Supply → Supply → TopLevel → Prop
  | globals {c c' : Supply} {base : BaseType} {vs : List Variable} :
      Threaded (Variable.Made true base) c c' vs → Made named c c' (.globals vs)
  | function {c c' : Supply} {f : Function} : f.Made named c c' → Made named c c' (.function f)

end Grammar.TopLevel

/-- A program that is made: its declarations are made one after the other, and leave its table. -/
def Program.Made (named : Prop) (p : Program) : Prop :=
  ∃ items nextNode,
    Threaded (Grammar.TopLevel.Made named) .start ⟨nextNode, p.declarations⟩ items ∧
    p.globals = items.flatMap Grammar.TopLevel.vars ∧
    p.functions = items.flatMap Grammar.TopLevel.functions

end MiniC
