import MiniC.Arithmetic
import MiniC.Builtin
import MiniC.Context

/-!
# Expressions at work

Expressions are evaluated from left to right, and every value is remembered in the current frame
until the next statement begins.  Evaluation follows the tree of the expression; the calls in it
are the business of the surroundings.

Main definitions:

* `MiniC.Env`: what the meaning of an expression depends on;
* `MiniC.evalExpr`, `MiniC.evalAddress`: the value of an expression, and the place in memory that
  it names;
* `MiniC.evalPlace`: what an assignment to an expression stores to;
* `MiniC.evalCondition`: the truth of a condition.

Main results:

* `MiniC.evalExpr_subscript`, `MiniC.evalExpr_deref`: the value of what names a place in memory is
  what stands there.
-/

set_option autoImplicit false

namespace MiniC

/-- What the meaning of an expression depends on: the declarations of its program, and what calls
by name do with evaluated arguments. -/
structure Env where
  declarations : Array Declaration
  call : String → List Value → Location → Eval Value

namespace Env

/-- The declaration `id` is known to be one of an array. -/
def isArray (env : Env) (id : Nat) : Bool :=
  match env.declarations[id]? with
  | some d => d.type.isArray
  | none => false

/-- The declaration `id` is known to be a global or a local one. -/
def isGlobal? (env : Env) (id : Nat) : Option Bool :=
  (env.declarations[id]?).map Declaration.isGlobal

end Env

namespace Eval

/-! ### Steps of evaluation -/

/-- The value of a node, remembered under its number. -/
@[inline] def remembered (n : Node) (x : Eval Value) : Eval Value := do
  let v ← x
  remember n.id v
  return v

/-- The number of bytes that `sizeof` yields for a type. -/
def sizeof (t : Ty) (loc : Location) : Eval Value :=
  match t.size? with
  | some n =>
    if Decimal.InRange n then pure (.integer (Int64.ofNat n))
    else fault loc (.invalidAllocation .sizeofTooLarge)
  | none => fault loc (.invalidAllocation .sizeofTooLarge)

/-- A binary operation on the values of `l` and `r`, whose types give the sizes of elements. -/
@[inline] def operate (op : BinaryOp) (l r : Expr) (loc : Location) (x y : Eval Value) :
    Eval Value := do
  let a ← x
  let b ← y
  ofExcept loc (op.apply a b l.stride r.stride)

/-- The place that a pointer refers to. -/
@[inline] def follow (loc : Location) (x : Eval Value) : Eval Pointer := do
  let v ← x
  expectPointer v loc

/-- The value at the place that a pointer refers to. -/
@[inline] def load (loc : Location) (x : Eval Pointer) : Eval Value := do
  let p ← x
  readPlace (.memory p) loc

/-- What an assignment to `target` stores to.  `address` is the place in memory that `target` names,
if it names one. -/
@[inline] def placeOf (isArray : Nat → Bool) (target : Expr) (address : Eval Pointer) :
    Eval Place :=
  match target with
  | .name n x link => placeOfName x link isArray n.location
  | .unary _ .deref _ | .subscript _ _ _ => do
    let p ← address
    return .memory p
  | e => fault e.location (.unsupported .assignmentTarget)

/-- The value that an assignment to `l` stores.  A compound assignment reads the target before the
right operand is evaluated. -/
@[inline] def assigned (op : BinaryOp) (l r : Expr) (loc : Location) (place : Place)
    (right : Eval Value) : Eval Value :=
  match op.compoundBase? with
  | none => right
  | some base => do
    let current ← readPlace place loc
    remember l.id current
    let b ← right
    ofExcept loc (base.apply current b l.stride r.stride)

/-- An assignment to `l`.  The target is determined before the right operand is evaluated. -/
def assign (op : BinaryOp) (l r : Expr) (loc : Location) (target : Eval Place)
    (right : Eval Value) : Eval Value := do
  let place ← target
  let v ← assigned op l r loc place right
  let stored := v.coerceTo l.type
  writePlace place stored loc
  return stored

/-- `++` and `--`, which move a pointer by one element.  In front of the operand they yield its new
value, behind it its old one. -/
def increment (x : Expr) (delta : Int64) (isPost : Bool) (loc : Location) (target : Eval Place) :
    Eval Value := do
  let place ← target
  let current ← readPlace place loc
  let v ← ofExcept loc (BinaryOp.add.apply current (.integer delta) x.stride 1)
  let stored := v.coerceTo x.type
  writePlace place stored loc
  return if isPost then current else stored

end Eval

open Eval

mutual

/-- The value of an expression. -/
def evalExpr (env : Env) : Expr → Eval Value
  | .int n v => remembered n (pure (.integer v))
  | .char n c => remembered n (pure (.integer c.toInt64))
  | .string n _ => remembered n (fault n.location (.unsupported .stringLiteral))
  | .name n x link => remembered n (readName x link n.location)
  | .binary n op l r =>
    remembered n <|
      if op.isAssignment then
        assign op l r n.location (placeOf env.isArray l (evalAddress env l)) (evalExpr env r)
      else operate op l r n.location (evalExpr env l) (evalExpr env r)
  | .unary n op x =>
    remembered n <|
      match op with
      | .preInc => increment x 1 false n.location (placeOf env.isArray x (evalAddress env x))
      | .preDec => increment x (-1) false n.location (placeOf env.isArray x (evalAddress env x))
      | .postInc => increment x 1 true n.location (placeOf env.isArray x (evalAddress env x))
      | .postDec => increment x (-1) true n.location (placeOf env.isArray x (evalAddress env x))
      | .addrOf => fault n.location (.unsupported .addressOf)
      | .deref => load n.location (follow n.location (evalExpr env x))
      | .neg | .not | .bitNot => do
        let a ← evalExpr env x
        ofExcept n.location (op.apply a)
  | .call n f args => remembered n do
    let vs ← evalArgs env args
    env.call f vs n.location
  | .subscript n b i =>
    remembered n <|
      load n.location <|
        follow n.location (operate .add b i n.location (evalExpr env b) (evalExpr env i))
  | .cast n t x => remembered n do
    let a ← evalExpr env x
    return a.coerce t
  | .sizeof n t => remembered n (Eval.sizeof t n.location)

/-- The values of arguments, from left to right. -/
def evalArgs (env : Env) : List Expr → Eval (List Value)
  | [] => return []
  | e :: es => do
    let v ← evalExpr env e
    let vs ← evalArgs env es
    return v :: vs

/-- The place in memory that `*p` or `a[i]` names; `a[i]` is `*(a + i)`. -/
def evalAddress (env : Env) : Expr → Eval Pointer
  | .unary n .deref x => follow n.location (evalExpr env x)
  | .subscript n b i =>
    follow n.location (operate .add b i n.location (evalExpr env b) (evalExpr env i))
  | e => fault e.location (.unsupported .addressOfNonMemory)

end

/-- The location that an assignment to an expression stores to. -/
def evalPlace (env : Env) (e : Expr) : Eval Place := placeOf env.isArray e (evalAddress env e)

/-- The truth of a condition. -/
def evalCondition (env : Env) (e : Expr) (loc : Location) : Eval Bool := do
  let v ← evalExpr env e
  match v.truthy? with
  | some b => return b
  | none => fault loc (.uninitializedRead .condition)

/-- The value of `a[i]` is what stands at the place that it names. -/
theorem evalExpr_subscript (env : Env) (n : Node) (b i : Expr) :
    evalExpr env (.subscript n b i) =
      remembered n (load n.location (evalAddress env (.subscript n b i))) := rfl

/-- The value of `*p` is what stands at the place that it names. -/
theorem evalExpr_deref (env : Env) (n : Node) (x : Expr) :
    evalExpr env (.unary n .deref x) =
      remembered n (load n.location (evalAddress env (.unary n .deref x))) := rfl

end MiniC
