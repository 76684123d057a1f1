import MiniC.Expr

/-!
# Statements

The tree of a statement, with the variables that it declares.

Main definitions:

* `MiniC.Variable`: a declared variable with its initializer;
* `MiniC.Stmt`, `MiniC.Stmt.location`: statements and where they are;
* `MiniC.Stmt.exprs`, `MiniC.Stmt.vars`: all expressions and all variables of a statement;
* `MiniC.Stmt.all`: a statement and all statements in it;
* `MiniC.Stmt.hasPlainLoops`: the shape of the loops that are read from texts.
-/

set_option autoImplicit false

namespace MiniC

/-- A declared variable.  `id` is its place in the declaration table of its program. -/
structure Variable where
  id : Nat
  name : String
  type : Ty
  init : Option Expr
  location : Location
deriving Repr, Inhabited

/-- A statement. -/
inductive Stmt where
  /-- Declared variables that share a base type. -/
  | declare (loc : Location) (vars : List Variable)
  /-- An expression whose value is dropped. -/
  | eval (loc : Location) (expr : Expr)
  /-- `if`, with `else` perhaps. -/
  | branch (loc : Location) (condition : Expr) (onTrue : Stmt) (onFalse : Option Stmt)
  | whileLoop (loc : Location) (condition : Expr) (body : Stmt)
  /-- `do … while`, which cannot be run. -/
  | doLoop (loc : Location) (body : Stmt) (condition : Expr)
  | forLoop (loc : Location) (init : Option Stmt) (condition increment : Option Expr) (body : Stmt)
  /-- `return`. -/
  | ret (loc : Location) (value : Option Expr)
  | block (loc : Location) (body : List Stmt)
  /-- `break`, which cannot be run. -/
  | leave (loc : Location)
  /-- `continue`, which cannot be run. -/
  | next (loc : Location)
  /-- A semicolon alone. -/
  | empty (loc : Location)
deriving Repr, Inhabited

/-- All expressions of a variable's initializer. -/
def Variable.exprs (v : Variable) : List Expr :=
  match v.init with
  | some e => e.all
  | none => []

/-- The variable without static types in its initializer. -/
def Variable.eraseTypes (v : Variable) : Variable := { v with init := v.init.map Expr.eraseTypes }

namespace Stmt

/-- The location of a statement, that of its first token. -/
def location : Stmt → Location
  | declare l _ | eval l _ | branch l _ _ _ | whileLoop l _ _ | doLoop l _ _ | forLoop l _ _ _ _
  | ret l _ | block l _ | leave l | next l | empty l => l

/-- All expressions of an optional expression. -/
def optionExprs : Option Expr → List Expr
  | some e => e.all
  | none => []

mutual

/-- All expressions of a statement, each before those inside it. -/
def exprs : Stmt → List Expr
  | declare _ vars => vars.flatMap Variable.exprs
  | eval _ e => e.all
  | branch _ c t e => c.all ++ (t.exprs ++ exprsOfOption e)
  | whileLoop _ c b => c.all ++ b.exprs
  | doLoop _ b c => c.all ++ b.exprs
  | forLoop _ i c s b => exprsOfOption i ++ (optionExprs c ++ (optionExprs s ++ b.exprs))
  | ret _ e => optionExprs e
  | block _ body => exprsOf body
  | leave _ | next _ | empty _ => []

/-- All expressions of the statements of a list. -/
def exprsOf : List Stmt → List Expr
  | [] => []
  | s :: ss => s.exprs ++ exprsOf ss

/-- All expressions of an optional statement. -/
def exprsOfOption : Option Stmt → List Expr
  | none => []
  | some s => s.exprs

end

mutual

/-- All variables that a statement declares, in source order. -/
def vars : Stmt → List Variable
  | declare _ vs => vs
  | branch _ _ t e => t.vars ++ varsOfOption e
  | whileLoop _ _ b => b.vars
  | doLoop _ b _ => b.vars
  | forLoop _ i _ _ b => varsOfOption i ++ b.vars
  | block _ body => varsOf body
  | eval _ _ | ret _ _ | leave _ | next _ | empty _ => []

/-- All variables that the statements of a list declare. -/
def varsOf : List Stmt → List Variable
  | [] => []
  | s :: ss => s.vars ++ varsOf ss

/-- All variables that an optional statement declares. -/
def varsOfOption : Option Stmt → List Variable
  | none => []
  | some s => s.vars

end

mutual

/-- A statement and all statements in it, each before those inside it. -/
def all : Stmt → List Stmt
  | s@(branch _ _ t e) => s :: (t.all ++ allOfOption e)
  | s@(whileLoop _ _ b) | s@(doLoop _ b _) => s :: b.all
  | s@(forLoop _ i _ _ b) => s :: (allOfOption i ++ b.all)
  | s@(block _ body) => s :: allOf body
  | s@(declare _ _) | s@(eval _ _) | s@(ret _ _) | s@(leave _) | s@(next _) | s@(empty _) => [s]

/-- The statements of a list and all statements in them. -/
def allOf : List Stmt → List Stmt
  | [] => []
  | s :: ss => s.all ++ allOf ss

/-- An optional statement and all statements in it. -/
def allOfOption : Option Stmt → List Stmt
  | none => []
  | some s => s.all

end

mutual

/-- The statement without static types. -/
def eraseTypes : Stmt → Stmt
  | declare l vs => declare l (vs.map Variable.eraseTypes)
  | eval l e => eval l e.eraseTypes
  | branch l c t e => branch l c.eraseTypes t.eraseTypes (eraseTypesOfOption e)
  | whileLoop l c b => whileLoop l c.eraseTypes b.eraseTypes
  | doLoop l b c => doLoop l b.eraseTypes c.eraseTypes
  | forLoop l i c s b =>
    forLoop l (eraseTypesOfOption i) (c.map Expr.eraseTypes) (s.map Expr.eraseTypes) b.eraseTypes
  | ret l e => ret l (e.map Expr.eraseTypes)
  | block l body => block l (eraseTypesOf body)
  | leave l => leave l
  | next l => next l
  | empty l => empty l

/-- The statements of a list without static types. -/
def eraseTypesOf : List Stmt → List Stmt
  | [] => []
  | s :: ss => s.eraseTypes :: eraseTypesOf ss

/-- The optional statement without static types. -/
def eraseTypesOfOption : Option Stmt → Option Stmt
  | none => none
  | some s => some s.eraseTypes

end

/-- A statement that may stand as the first clause of a `for`: a declaration or an expression. -/
def isClause : Stmt → Bool
  | declare _ _ | eval _ _ => true
  | _ => false

mutual

/-- Every `for` in the statement begins with a declaration, with an expression or with nothing. -/
def hasPlainLoops : Stmt → Bool
  | branch _ _ t e => t.hasPlainLoops && optionHasPlainLoops e
  | whileLoop _ _ b => b.hasPlainLoops
  | doLoop _ b _ => b.hasPlainLoops
  | forLoop _ i _ _ b => i.all isClause && b.hasPlainLoops
  | block _ body => allHavePlainLoops body
  | declare _ _ | eval _ _ | ret _ _ | leave _ | next _ | empty _ => true

/-- Every `for` in the statements of a list begins with a plain clause. -/
def allHavePlainLoops : List Stmt → Bool
  | [] => true
  | s :: ss => s.hasPlainLoops && allHavePlainLoops ss

/-- Every `for` in an optional statement begins with a plain clause. -/
def optionHasPlainLoops : Option Stmt → Bool
  | none => true
  | some s => s.hasPlainLoops

end

/-- A clause has no loops in it. -/
theorem hasPlainLoops_of_isClause {s : Stmt} (h : s.isClause = true) : s.hasPlainLoops = true := by
  cases s with
  | declare loc vs => rfl
  | eval loc e => rfl
  | _ => cases h

theorem optionHasPlainLoops_of_isClause {o : Option Stmt} (h : o.all isClause = true) :
    optionHasPlainLoops o = true := by
  cases o with
  | none => rfl
  | some s => exact hasPlainLoops_of_isClause h

mutual

/-- Statements in a statement with plain loops have plain loops. -/
theorem hasPlainLoops_of_mem_all {t : Stmt} : (s : Stmt) → s.hasPlainLoops = true → t ∈ s.all →
    t.hasPlainLoops = true
  | branch _ _ s e, h, ht => by
    obtain ⟨hs, he⟩ := Bool.and_eq_true_iff.1 h
    rcases List.mem_cons.1 ht with rfl | ht
    · exact h
    · rcases List.mem_append.1 ht with ht | ht
      · exact hasPlainLoops_of_mem_all s hs ht
      · exact hasPlainLoops_of_mem_allOfOption e he ht
  | whileLoop _ _ b, h, ht => by
    rcases List.mem_cons.1 ht with rfl | ht
    · exact h
    · exact hasPlainLoops_of_mem_all b h ht
  | doLoop _ b _, h, ht => by
    rcases List.mem_cons.1 ht with rfl | ht
    · exact h
    · exact hasPlainLoops_of_mem_all b h ht
  | forLoop _ i _ _ b, h, ht => by
    obtain ⟨hi, hb⟩ := Bool.and_eq_true_iff.1 h
    rcases List.mem_cons.1 ht with rfl | ht
    · exact h
    · rcases List.mem_append.1 ht with ht | ht
      · exact hasPlainLoops_of_mem_allOfOption i (optionHasPlainLoops_of_isClause hi) ht
      · exact hasPlainLoops_of_mem_all b hb ht
  | block _ body, h, ht => by
    rcases List.mem_cons.1 ht with rfl | ht
    · exact h
    · exact hasPlainLoops_of_mem_allOf body h ht
  | declare _ _, h, ht | eval _ _, h, ht | ret _ _, h, ht | leave _, h, ht | next _, h, ht
  | empty _, h, ht => by
    obtain rfl := List.mem_singleton.1 ht
    exact h

/-- Statements in a list of statements with plain loops have plain loops. -/
theorem hasPlainLoops_of_mem_allOf {t : Stmt} : (ss : List Stmt) → allHavePlainLoops ss = true →
    t ∈ allOf ss → t.hasPlainLoops = true
  | s :: ss, h, ht => by
    obtain ⟨hs, hss⟩ := Bool.and_eq_true_iff.1 h
    rcases List.mem_append.1 ht with ht | ht
    · exact hasPlainLoops_of_mem_all s hs ht
    · exact hasPlainLoops_of_mem_allOf ss hss ht

/-- Statements in an optional statement with plain loops have plain loops. -/
theorem hasPlainLoops_of_mem_allOfOption {t : Stmt} : (o : Option Stmt) →
    optionHasPlainLoops o = true → t ∈ allOfOption o → t.hasPlainLoops = true
  | some s, h, ht => hasPlainLoops_of_mem_all s h ht

end

end Stmt

end MiniC
