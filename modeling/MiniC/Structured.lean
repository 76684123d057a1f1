import MiniC.Execution

/-!
# Structured returns

A second semantics of statements, without a flag in the frame: a statement ends normally, or it
returns a value.  A `return` leaves blocks, branches and `while` at once.  It leaves a `for` after
the step, which is taken once more, and without a further look at the condition.

Expressions mean what they do elsewhere, except that the calls in them are structured, too.

Main definitions:

* `MiniC.Completion`: how a statement ends;
* `MiniC.Structured.execStmt`: the meaning of a statement;
* `MiniC.Context.structuredCall`, `MiniC.Context.structuredEnv`: calls by name within a bound.
-/

set_option autoImplicit false

namespace MiniC

/-- How a statement ends. -/
inductive Completion where
  | normal
  | returned (v : Value)
deriving DecidableEq, Repr, Inhabited

/-- The value that is returned, if there is one. -/
def Completion.value? : Completion → Option Value
  | normal => none
  | returned v => some v

namespace Structured

open Eval

/-- A statement that begins at `loc`. -/
def statement (loc : Location) (x : Eval Completion) : Eval Completion := do
  recordStatement loc.line
  x

/-- A statement that does not return. -/
def falling (x : Eval Unit) : Eval Completion := do
  x
  return .normal

/-- One statement and then another, unless the first one returns. -/
def andThen (x y : Eval Completion) : Eval Completion := do
  match ← x with
  | .normal => y
  | .returned v => return .returned v

/-- `while`, which a `return` leaves at once. -/
def whileLoop (condition : Eval Bool) (body : Eval Completion) : Nat → Eval Completion
  | 0 => outOfFuel
  | bound + 1 => do
    clearCache
    if ← condition then andThen body (whileLoop condition body bound)
    else return .normal

/-- `for` behind its first clause.  A `return` leaves it after one more step. -/
def forLoop (condition : Eval Bool) (step : Eval Unit) (body : Eval Completion) :
    Nat → Eval Completion
  | 0 => outOfFuel
  | bound + 1 => do
    if ← condition then
      let exit ← body
      -- Even behind a `return`, the step is taken once more.
      step
      match exit with
      | .normal => forLoop condition step body bound
      | .returned v => return .returned v
    else return .normal

mutual

/-- The execution of a statement; `bound` bounds the iterations of its loops. -/
def execStmt (env : Env) (bound : Nat) : Stmt → Eval Completion
  | .block loc body => statement loc (execAll env bound body)
  | .declare loc vars => statement loc <| falling do
    clearCache
    declareAll env vars
  | .eval loc e => statement loc (falling (evalStep env e))
  | .branch loc c onTrue onFalse => statement loc do
    clearCache
    if ← evalCondition env c loc then execStmt env bound onTrue
    else execOption env bound onFalse
  | .whileLoop loc c body =>
    statement loc (whileLoop (evalCondition env c loc) (execStmt env bound body) bound)
  | .forLoop loc init c step body => statement loc <|
    andThen (execOption env bound init) <|
      forLoop (forCondition env loc c) (forStep env step) (execStmt env bound body) bound
  | .ret loc value => statement loc do
    clearCache
    let v ← returnValue env value
    return .returned v
  | .empty loc => statement loc (return .normal)
  | .doLoop loc _ _ => statement loc (fault loc (.unsupported .doLoop))
  | .leave loc => statement loc (fault loc (.unsupported .breakStatement))
  | .next loc => statement loc (fault loc (.unsupported .continueStatement))

/-- The execution of statements one after the other, as far as none returns. -/
def execAll (env : Env) (bound : Nat) : List Stmt → Eval Completion
  | [] => return .normal
  | s :: ss => andThen (execStmt env bound s) (execAll env bound ss)

/-- The execution of a statement that may be missing. -/
def execOption (env : Env) (bound : Nat) : Option Stmt → Eval Completion
  | none => return .normal
  | some s => execStmt env bound s

end

/-- A call of a function with evaluated arguments, whose value is what its body returns. -/
def callWithin (limit : Nat) (exec : Stmt → Eval Completion) (f : Function) (args : List Value)
    (loc : Location) : Eval Value :=
  match f.body with
  | none => fault loc (.unboundName f.name)
  | some body =>
    enter limit f args loc (exec body) fun exit _ => exit.value?.getD .uninitialized

end Structured

namespace Context

/-- Calls by name, with a bound on their depth and on the iterations of the loops in them. -/
def structuredCall (ctx : Context) : Nat → String → List Value → Location → Eval Value
  | 0 => fun _ _ _ => Eval.outOfFuel
  | fuel + 1 =>
    ctx.program.callNamed <| Structured.callWithin ctx.config.maxCallDepth <|
      Structured.execStmt ⟨ctx.program.declarations, ctx.structuredCall fuel⟩ fuel

/-- What the expressions of a program depend on; calls are structured and bounded. -/
def structuredEnv (ctx : Context) (fuel : Nat) : Env :=
  ⟨ctx.program.declarations, ctx.structuredCall fuel⟩

theorem declarations_structuredEnv (ctx : Context) (fuel : Nat) :
    (ctx.env fuel).declarations = (ctx.structuredEnv fuel).declarations := rfl

end Context

end MiniC
