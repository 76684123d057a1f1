import MiniC.Grammar.Expression

/-!
# The grammar of declarations and statements

A declaration gives one base type to several declarators, each with stars of its own, perhaps a
length and perhaps an initial value.  A variable is entered into the declaration table after its
initial value has been read.

Main definitions:

* `MiniC.Grammar.declarator`, `MiniC.Grammar.declarators`: the declarators of a declaration;
* `MiniC.Grammar.statementWithin`: statements, given the parser of expressions;
* `MiniC.Grammar.statement`: statements.
-/

set_option autoImplicit false

namespace MiniC.Grammar

open MiniC.Parser

/-! ### Declarators -/

/-- The length of an array in brackets, if a bracket follows. -/
def arrayLength : Parser (Option Nat) := do
  if ← accept .lbracket then
    match ← peek with
    | some (.int n) =>
      if n < 0 then fail fun _ => .arrayLength
      else
        advance
        expect .rbracket "after array size"
        if ← check .lbracket then fail fun _ => .secondDimension
        else return some n.toInt.toNat
    | _ => fail fun _ => .arrayLength
  else return none

/-- An initial value, if an equals sign follows. -/
def initializer (expr : Parser Expr) : Parser (Option Expr) := do
  if ← accept .eq then
    let e ← expr
    return some e
  else return none

/-- What follows the name of a declared variable: a length, an initial value. -/
def declaratorRest (expr : Parser Expr) (isGlobal : Bool) (type : Ty) (name : String)
    (loc : Location) : Parser Variable := do
  let length ← arrayLength
  let type := { type with length := length }
  if type.isVoid then failAt loc (.voidVariable name)
  else
    let init ← initializer expr
    let id ← declare ⟨name, type, isGlobal⟩
    return ⟨id, name, type, init, loc⟩

/-- A declared variable: stars, its name, and what follows the name. -/
def declarator (expr : Parser Expr) (isGlobal : Bool) (base : BaseType) : Parser Variable := do
  let pointers ← stars
  let (name, loc) ← identifier
  declaratorRest expr isGlobal ⟨base, pointers, none⟩ name loc

/-- Declarators behind the first ones of a declaration, each after a comma. -/
def declaratorsFrom (expr : Parser Expr) (isGlobal : Bool) (base : BaseType) :
    Nat → List Variable → Parser (List Variable) :=
  separatedFrom (declarator expr isGlobal base)

/-- The declaration of local variables, `extern` allowed. -/
def localDeclaration (expr : Parser Expr) (fuel : Nat) : Parser Stmt := do
  let loc ← location
  let _ ← accept .kwExtern
  let base ← baseType
  let first ← declarator expr false base
  let vars ← declaratorsFrom expr false base fuel [first]
  expect .semicolon "after variable declaration"
  return .declare loc vars

/-! ### Statements -/

/-- Statements up to a closing brace or the end of the text. -/
def statementsFrom (stmt : Parser Stmt) : Nat → List Stmt → Parser (List Stmt)
  | 0, seen => return seen.reverse
  | fuel + 1, seen => do
    match ← peek with
    | none | some (.fixed .rbrace) => return seen.reverse
    | _ =>
      let s ← stmt
      statementsFrom stmt fuel (s :: seen)

/-- An expression, unless the token `f` is next. -/
def expressionUnless (expr : Parser Expr) (f : Fixed) : Parser (Option Expr) := do
  if ← check f then return none
  let e ← expr
  return some e

/-- What follows `if`. -/
def branchRest (expr : Parser Expr) (stmt : Parser Stmt) (loc : Location) : Parser Stmt := do
  expect .lparen "after 'if'"
  let condition ← expr
  expect .rparen "after if condition"
  let onTrue ← stmt
  if ← accept .kwElse then
    let onFalse ← stmt
    return .branch loc condition onTrue (some onFalse)
  else return .branch loc condition onTrue none

/-- What follows `while`. -/
def whileRest (expr : Parser Expr) (stmt : Parser Stmt) (loc : Location) : Parser Stmt := do
  expect .lparen "after 'while'"
  let condition ← expr
  expect .rparen "after while condition"
  let body ← stmt
  return .whileLoop loc condition body

/-- What follows `do`. -/
def doRest (expr : Parser Expr) (stmt : Parser Stmt) (loc : Location) : Parser Stmt := do
  let body ← stmt
  expect .kwWhile "after do body"
  expect .lparen "after 'while'"
  let condition ← expr
  expect .rparen "after do-while condition"
  expect .semicolon "after do-while"
  return .doLoop loc body condition

/-- The first clause of a `for`, with its semicolon: nothing, a declaration, or an expression. -/
def forInit (expr : Parser Expr) (fuel : Nat) : Parser (Option Stmt) := do
  if ← accept .semicolon then return none
  else if ← startsDeclaration then
    let s ← localDeclaration expr fuel
    return some s
  else
    let loc ← location
    let e ← expr
    expect .semicolon "after for init"
    return some (.eval loc e)

/-- What follows `for`. -/
def forRest (expr : Parser Expr) (stmt : Parser Stmt) (fuel : Nat) (loc : Location) :
    Parser Stmt := do
  expect .lparen "after 'for'"
  let init ← forInit expr fuel
  let condition ← expressionUnless expr .semicolon
  expect .semicolon "after for condition"
  let increment ← expressionUnless expr .rparen
  expect .rparen "after for clauses"
  let body ← stmt
  return .forLoop loc init condition increment body

/-- A statement, given the parsers of the expressions and statements in it. -/
def statementOf (expr : Parser Expr) (stmt : Parser Stmt) (fuel : Nat) : Parser Stmt := do
  let loc ← location
  match ← peekFixed with
  | some .kwReturn =>
    advance
    let value ← expressionUnless expr .semicolon
    expect .semicolon "after return"
    return .ret loc value
  | some .kwIf =>
    advance
    branchRest expr stmt loc
  | some .kwWhile =>
    advance
    whileRest expr stmt loc
  | some .kwDo =>
    advance
    doRest expr stmt loc
  | some .kwFor =>
    advance
    forRest expr stmt fuel loc
  | some .kwBreak =>
    advance
    expect .semicolon "after 'break'"
    return .leave loc
  | some .kwContinue =>
    advance
    expect .semicolon "after 'continue'"
    return .next loc
  | some .lbrace =>
    advance
    let body ← statementsFrom stmt fuel []
    expect .rbrace "after block"
    return .block loc body
  | some .semicolon =>
    advance
    return .empty loc
  | _ =>
    if ← startsDeclaration then localDeclaration expr fuel
    else
      let e ← expr
      expect .semicolon "after expression"
      return .eval loc e

/-- A statement, given the parser of expressions and a bound on the depth of the recursion. -/
def statementWithin (expr : Parser Expr) : Nat → Parser Stmt
  | 0 => fail fun _ => .exhausted
  | fuel + 1 => statementOf expr (statementWithin expr fuel) fuel

/-- A statement. -/
def statement : Parser Stmt :=
  fun s =>
    let fuel := depthBound s.rest.length
    statementWithin (expressionWithin fuel) fuel s

end MiniC.Grammar
