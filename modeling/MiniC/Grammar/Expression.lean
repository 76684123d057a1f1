import MiniC.Grammar.Basic

/-!
# The grammar of expressions

From the loosest to the tightest: assignment, which groups to the right; ten levels of binary
operators, which group to the left; casts and operators before an operand; calls, subscripts and
operators behind an operand; literals, names and parentheses.

Each layer is a function of the parsers below it, and the knot is tied at the end, with a bound on
the depth of the recursion.  Each two levels of recursion take a token, so twice the number of
tokens is a bound that is never reached.

Main definitions:

* `MiniC.Grammar.binaryLevels`, `MiniC.Grammar.assignments`, `MiniC.Grammar.prefixOps`: the
  operators of each layer;
* `MiniC.Grammar.typeName`, `MiniC.Grammar.baseType`: types as they are written in expressions;
* `MiniC.Grammar.expressionWithin`, `MiniC.Grammar.expression`: expressions.
-/

set_option autoImplicit false

namespace MiniC.Grammar

open MiniC.Parser

/-! ### Operators -/

/-- The binary operators that group to the left, level by level, the loosest level first. -/
def binaryLevels : List (List (Fixed × BinaryOp)) :=
  [[(.orOr, .or)],
    [(.andAnd, .and)],
    [(.pipe, .bitOr)],
    [(.caret, .bitXor)],
    [(.amp, .bitAnd)],
    [(.eqEq, .eq), (.notEq, .ne)],
    [(.lt, .lt), (.le, .le), (.gt, .gt), (.ge, .ge)],
    [(.ltLt, .shl), (.gtGt, .shr)],
    [(.plus, .add), (.minus, .sub)],
    [(.star, .mul), (.slash, .div), (.percent, .mod)]]

/-- The assignments. -/
def assignments : List (Fixed × BinaryOp) :=
  [(.eq, .assign), (.plusEq, .addAssign), (.minusEq, .subAssign), (.starEq, .mulAssign),
    (.slashEq, .divAssign), (.percentEq, .modAssign)]

/-- The operators before an operand. -/
def prefixOps : List (Fixed × UnaryOp) :=
  [(.bang, .not), (.tilde, .bitNot), (.minus, .neg), (.amp, .addrOf), (.star, .deref),
    (.plusPlus, .preInc), (.minusMinus, .preDec)]

/-- The operator that the next token is, if it is one of `ops`. -/
def operator? {α : Type} (ops : List (Fixed × α)) : Parser (Option α) := do
  let next ← peekFixed
  return next.bind fun f => List.lookup f ops

/-! ### Types -/

/-- The base type that a keyword names. -/
def baseType? : Option Fixed → Option BaseType
  | some .kwInt => some .int
  | some .kwChar => some .char
  | some .kwVoid => some .void
  | _ => none

/-- A base type. -/
def baseType : Parser BaseType := do
  match baseType? (← peekFixed) with
  | some base =>
    advance
    return base
  | none => fail .missingType

/-- A base type and the stars behind it. -/
def typeName : Parser Ty := do
  let base ← baseType
  let pointers ← stars
  return ⟨base, pointers, none⟩

/-- The next token is a keyword that a declaration begins with. -/
def startsDeclaration : Parser Bool := do
  let next ← peekFixed
  return (baseType? next).isSome || next == some .kwExtern

/-- The next tokens are a parenthesis and a base type, which makes a cast. -/
def startsCast : Parser Bool :=
  fun s => .ok (s.startsWith .lparen && (baseType? s.advance.peekFixed).isSome, s)

/-! ### Layers -/

/-- Operands behind `left`, joined to the left by the operators of one level. -/
def chainFrom (operand : Parser Expr) (ops : List (Fixed × BinaryOp)) : Nat → Expr → Parser Expr
  | 0, left => return left
  | fuel + 1, left => do
    let loc ← location
    match ← operator? ops with
    | none => return left
    | some op =>
      advance
      let right ← operand
      let joined ← make loc fun node => .binary node op left right
      chainFrom operand ops fuel joined

/-- Binary operators of some levels over operands. -/
def chains (fuel : Nat) (operand : Parser Expr) : List (List (Fixed × BinaryOp)) → Parser Expr
  | [] => operand
  | ops :: tighter => do
    let left ← chains fuel operand tighter
    chainFrom (chains fuel operand tighter) ops fuel left

/-- An assignment to `target`, or `target` alone; assignments group to the right. -/
def assignment (target value : Parser Expr) : Parser Expr := do
  let left ← target
  let loc ← location
  match ← operator? assignments with
  | none => return left
  | some op =>
    advance
    let right ← value
    make loc fun node => .binary node op left right

/-- Expressions behind the first one of a list, each after a comma. -/
def argumentsFrom (expr : Parser Expr) : Nat → List Expr → Parser (List Expr) :=
  separatedFrom expr

/-- The arguments of a call, up to the closing parenthesis. -/
def arguments (expr : Parser Expr) (fuel : Nat) : Parser (List Expr) := do
  if ← check .rparen then return []
  let e ← expr
  argumentsFrom expr fuel [e]

/-- A literal, a name, or an expression in parentheses. -/
def primary (expr : Parser Expr) : Parser Expr := do
  let loc ← location
  match ← peek with
  | some (.int n) => do
    advance
    make loc fun node => .int node n
  | some (.char c) => do
    advance
    make loc fun node => .char node c
  | some (.string s) => do
    advance
    make loc fun node => .string node s
  | some (.ident name) => do
    advance
    make loc fun node => .name node name none
  | some (.fixed .lparen) => do
    advance
    let e ← expr
    expect .rparen "after expression"
    return e
  | _ => fail .unexpected

/-- Subscripts, calls, `++` and `--` behind an operand.  Only a name can be called; the node of
the name is given up, and its number with it. -/
def postfixFrom (expr : Parser Expr) : Nat → Expr → Parser Expr
  | 0, e => return e
  | fuel + 1, e => do
    let loc ← location
    match ← peekFixed with
    | some .plusPlus =>
      advance
      let e ← make loc fun node => .unary node .postInc e
      postfixFrom expr fuel e
    | some .minusMinus =>
      advance
      let e ← make loc fun node => .unary node .postDec e
      postfixFrom expr fuel e
    | some .lbracket =>
      advance
      let index ← expr
      expect .rbracket "after array index"
      let e ← make loc fun node => .subscript node e index
      postfixFrom expr fuel e
    | some .lparen =>
      advance
      let args ← arguments expr fuel
      expect .rparen "after function arguments"
      match e with
      | .name _ callee _ =>
        let e ← make e.location fun node => .call node callee args
        postfixFrom expr fuel e
      | _ => failAt loc .callee
    | _ => return e

/-- The operand of `sizeof`: a type in parentheses. -/
def sizeofOperand : Parser Ty := do
  expect .lparen "after 'sizeof'"
  if ← startsDeclaration then
    let t ← typeName
    expect .rparen "after sizeof type"
    return t
  else fail fun _ => .sizeofOperand

/-- An operator before an operand, `sizeof`, or an operand with what stands behind it.  A plus
sign before an operand makes no node. -/
def unary (expr cast : Parser Expr) (fuel : Nat) : Parser Expr := do
  let loc ← location
  match ← operator? prefixOps with
  | some op =>
    advance
    let operand ← cast
    make loc fun node => .unary node op operand
  | none =>
    if ← accept .plus then cast
    else if ← accept .kwSizeof then
      let t ← sizeofOperand
      make loc fun node => .sizeof node t
    else
      let e ← primary expr
      postfixFrom expr fuel e

/-- A cast, or an operand. -/
def cast (expr operand : Parser Expr) (fuel : Nat) : Parser Expr := do
  if ← startsCast then
    let loc ← location
    advance
    let target ← typeName
    expect .rparen "after cast type"
    let e ← operand
    make loc fun node => .cast node target e
  else unary expr operand fuel

/-! ### The knot -/

mutual

/-- An expression, with a bound on the depth of the recursion. -/
def expressionWithin : Nat → Parser Expr
  | 0 => fail fun _ => .exhausted
  | fuel + 1 =>
    assignment (chains fuel (castWithin fuel) binaryLevels) (expressionWithin fuel)

/-- An operand of a binary operator, with a bound on the depth of the recursion. -/
def castWithin : Nat → Parser Expr
  | 0 => fail fun _ => .exhausted
  | fuel + 1 => cast (expressionWithin fuel) (castWithin fuel) fuel

end

/-- A bound on the depth of the recursion that `n` tokens cannot reach. -/
def depthBound (n : Nat) : Nat := 2 * n + 2

/-- An expression. -/
def expression : Parser Expr := fun s => expressionWithin (depthBound s.rest.length) s

end MiniC.Grammar
