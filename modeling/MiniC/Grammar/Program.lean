import MiniC.Grammar.Statement

/-!
# The grammar of programs

A program is a list of declarations: of global variables, several in one perhaps, and of functions
with or without a body.

Main definitions:

* `MiniC.Grammar.parameters`: the parameters of a function;
* `MiniC.Grammar.topLevel`: a declaration of global variables or of a function;
* `MiniC.Program.ofTokens`: the program that tokens form.
-/

set_option autoImplicit false

namespace MiniC.Grammar

open MiniC.Parser

/-! ### Parameters -/

/-- The next token is an identifier: takes it and yields its name, else yields the empty name. -/
def optionalName : Parser String := do
  match ← peek with
  | some (.ident name) =>
    advance
    return name
  | _ => return ""

/-- Brackets behind a parameter, which make it a pointer; a length in them is passed over. -/
def parameterBrackets : Parser Bool := do
  if ← accept .lbracket then
    match ← peek with
    | some (.int _) => advance
    | _ => pure ()
    expect .rbracket "in array parameter"
    return true
  else return false

/-- One parameter: its type and perhaps its name. -/
def parameter : Parser Parameter := do
  let type ← typeName
  let name ← optionalName
  let isArray ← parameterBrackets
  let type := if isArray then type.addPointer else type
  let id ← declare ⟨name, type, false⟩
  return ⟨id, name, type⟩

/-- Parameters behind the first one, each after a comma. -/
def parametersFrom : Nat → List Parameter → Parser (List Parameter) := separatedFrom parameter

/-- The next tokens are `void` and a closing parenthesis, which stand for no parameters. -/
def startsVoidList : Parser Bool :=
  fun s => .ok (s.startsWith .kwVoid && s.advance.startsWith .rparen, s)

/-- The parameters of a function, up to the closing parenthesis. -/
def parameters (fuel : Nat) : Parser (List Parameter) := do
  if ← check .rparen then return []
  else if ← startsVoidList then
    advance
    return []
  else
    let p ← parameter
    parametersFrom fuel [p]

/-! ### Functions and globals -/

/-- The body of a function in braces, or the semicolon of a prototype. -/
def functionBody (stmt : Parser Stmt) (fuel : Nat) : Parser (Option Stmt) := do
  if ← accept .semicolon then return none
  else
    let loc ← location
    if ← accept .lbrace then
      let body ← statementsFrom stmt fuel []
      expect .rbrace "after function body"
      return some (.block loc body)
    else fail .missingBody

/-- What follows the name of a function: its parameters, and its body or a semicolon. -/
def functionRest (stmt : Parser Stmt) (fuel : Nat) (returnType : Ty) (name : String)
    (loc : Location) : Parser Function := do
  expect .lparen "after function name"
  let params ← parameters fuel
  expect .rparen "after parameters"
  let body ← functionBody stmt fuel
  return ⟨name, params, returnType, body, none, loc⟩

/-- A declaration outside of functions. -/
inductive TopLevel where
  | globals (vars : List Variable)
  | function (f : Function)
deriving Repr, Inhabited

/-- A declaration of a function or of global variables: a parenthesis behind the first name tells
which. -/
def topLevel (expr : Parser Expr) (stmt : Parser Stmt) (fuel : Nat) : Parser TopLevel := do
  let _ ← accept .kwExtern
  let base ← baseType
  let pointers ← stars
  let (name, loc) ← identifier
  if ← check .lparen then
    let f ← functionRest stmt fuel ⟨base, pointers, none⟩ name loc
    return .function f
  else
    let first ← declaratorRest expr true ⟨base, pointers, none⟩ name loc
    let vars ← declaratorsFrom expr true base fuel [first]
    expect .semicolon "after global declaration"
    return .globals vars

/-- Declarations up to the end of the text.  The globals and the functions read so far come last
one first. -/
def topLevelsFrom (one : Parser TopLevel) :
    Nat → List Variable → List Function → Parser (List Variable × List Function)
  | 0, globals, functions => return (globals.reverse, functions.reverse)
  | fuel + 1, globals, functions => do
    match ← peek with
    | none => return (globals.reverse, functions.reverse)
    | some _ =>
      match ← one with
      | .globals vars => topLevelsFrom one fuel (vars.reverse ++ globals) functions
      | .function f => topLevelsFrom one fuel globals (f :: functions)

/-- All declarations of a program. -/
def program : Parser (List Variable × List Function) :=
  fun s =>
    let fuel := depthBound s.rest.length
    let expr := expressionWithin fuel
    topLevelsFrom (topLevel expr (statementWithin expr fuel) fuel) fuel [] [] s

end MiniC.Grammar

namespace MiniC.Program

/-- The program that tokens form. -/
def ofTokens (ts : Tokens) : Except SyntaxError Program :=
  match Grammar.program (Parser.State.ofTokens ts) with
  | .ok ((globals, functions), s) => .ok ⟨globals, functions, s.declarations⟩
  | .error e => .error e

end MiniC.Program
