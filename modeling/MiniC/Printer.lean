import MiniC.Program
import MiniC.Token

/-!
# Writing programs as tokens

The tokens that a tree is written as.  An expression is written with parentheses where its place
needs them: where it binds less tightly than the operator around it asks for.  More parentheses are
allowed everywhere; a policy tells which expressions get some that they do not need.  Statements are
written without braces of their own, a global variable makes a declaration of its own, and the local
variables of one declaration share their base type.

The levels, from the loosest to the tightest: assignments (0), which group to the right; the binary
operators (1 to 10), which group to the left; operators before an operand, casts and `sizeof` (11);
operators behind an operand, subscripts and calls (12); literals, names and parentheses (13).

Main definitions:

* `MiniC.BinaryOp.level`, `MiniC.Expr.level`: how tightly operators and expressions bind;
* `MiniC.Expr.tokens`, `MiniC.Expr.tokensAt`: the tokens of an expression, alone and at a place that
  asks for a level;
* `MiniC.Stmt.tokens`, `MiniC.Function.tokens`, `MiniC.Program.tokens`: those of statements,
  functions and programs;
* `MiniC.Expr.unplaced`, `MiniC.Stmt.unplaced`, `MiniC.Function.unplaced`: trees without their
  numbers and locations.
-/

set_option autoImplicit false

namespace MiniC

/-! ### Operators -/

namespace BinaryOp

/-- The token of a binary operator. -/
def token : BinaryOp → Fixed
  | add => .plus
  | sub => .minus
  | mul => .star
  | div => .slash
  | mod => .percent
  | eq => .eqEq
  | ne => .notEq
  | lt => .lt
  | le => .le
  | gt => .gt
  | ge => .ge
  | and => .andAnd
  | or => .orOr
  | bitAnd => .amp
  | bitOr => .pipe
  | bitXor => .caret
  | shl => .ltLt
  | shr => .gtGt
  | assign => .eq
  | addAssign => .plusEq
  | subAssign => .minusEq
  | mulAssign => .starEq
  | divAssign => .slashEq
  | modAssign => .percentEq

/-- How tightly a binary operator binds. -/
def level : BinaryOp → Nat
  | assign | addAssign | subAssign | mulAssign | divAssign | modAssign => 0
  | or => 1
  | and => 2
  | bitOr => 3
  | bitXor => 4
  | bitAnd => 5
  | eq | ne => 6
  | lt | le | gt | ge => 7
  | shl | shr => 8
  | add | sub => 9
  | mul | div | mod => 10

/-- The level that the left operand needs: an assignment does not stand there unless it is in
parentheses, and any other operator may be followed by one like it. -/
def leftLevel (op : BinaryOp) : Nat := if op.isAssignment then 1 else op.level

/-- The level that the right operand needs. -/
def rightLevel (op : BinaryOp) : Nat := if op.isAssignment then 0 else op.level + 1

end BinaryOp

namespace UnaryOp

/-- The token of a unary operator. -/
def token : UnaryOp → Fixed
  | neg => .minus
  | not => .bang
  | bitNot => .tilde
  | preInc | postInc => .plusPlus
  | preDec | postDec => .minusMinus
  | deref => .star
  | addrOf => .amp

/-- The operator stands behind its operand. -/
def isPostfix : UnaryOp → Bool
  | postInc | postDec => true
  | neg | not | bitNot | preInc | preDec | deref | addrOf => false

end UnaryOp

/-! ### Types and lists -/

/-- The keyword of a base type. -/
def BaseType.keyword : BaseType → Fixed
  | int => .kwInt
  | char => .kwChar
  | void => .kwVoid

/-- Some stars. -/
def starTokens (n : Nat) : List Token.Kind := List.replicate n (.fixed .star)

/-- The tokens of a type that is no array. -/
def Ty.tokens (t : Ty) : List Token.Kind := .fixed t.base.keyword :: starTokens t.pointers

/-- Some tokens, in parentheses if need be. -/
def enclosed (inParentheses : Bool) (ks : List Token.Kind) : List Token.Kind :=
  if inParentheses then .fixed .lparen :: (ks ++ [.fixed .rparen]) else ks

/-- The tokens of the things of a list, with commas between them. -/
def separated : List (List Token.Kind) → List Token.Kind
  | [] => []
  | ks :: more => ks ++ more.flatMap fun ks => .fixed .comma :: ks

/-! ### Expressions -/

namespace Expr

/-- How tightly an expression binds. -/
def level : Expr → Nat
  | binary _ op _ _ => op.level
  | unary _ op _ => if op.isPostfix then 12 else 11
  | cast _ _ _ | sizeof _ _ => 11
  | call _ _ _ | subscript _ _ _ => 12
  | int _ _ | char _ _ | string _ _ | name _ _ _ => 13

/-- The expression gets parentheses at a place that asks for the level `k`, because it needs them
or because `extra` gives them to it. -/
def isEnclosed (extra : Expr → Bool) (k : Nat) (e : Expr) : Bool := extra e || decide (e.level < k)

mutual

/-- The tokens of an expression, without parentheses around it. -/
def tokens (extra : Expr → Bool) : Expr → List Token.Kind
  | int _ v => [.int v]
  | char _ v => [.char v]
  | string _ v => [.string v]
  | name _ x _ => [.ident x]
  | binary _ op l r =>
    enclosed (l.isEnclosed extra op.leftLevel) (l.tokens extra) ++
      .fixed op.token :: enclosed (r.isEnclosed extra op.rightLevel) (r.tokens extra)
  | unary _ op x =>
    if op.isPostfix then enclosed (x.isEnclosed extra 12) (x.tokens extra) ++ [.fixed op.token]
    else .fixed op.token :: enclosed (x.isEnclosed extra 11) (x.tokens extra)
  | call _ f args =>
    .ident f :: .fixed .lparen :: (separated (tokensOf extra args) ++ [.fixed .rparen])
  | subscript _ b i =>
    enclosed (b.isEnclosed extra 12) (b.tokens extra) ++
      .fixed .lbracket :: (enclosed (i.isEnclosed extra 0) (i.tokens extra) ++ [.fixed .rbracket])
  | cast _ t x =>
    .fixed .lparen :: (t.tokens ++
      .fixed .rparen :: enclosed (x.isEnclosed extra 11) (x.tokens extra))
  | sizeof _ t => .fixed .kwSizeof :: .fixed .lparen :: (t.tokens ++ [.fixed .rparen])

/-- The tokens of each expression of a list. -/
def tokensOf (extra : Expr → Bool) : List Expr → List (List Token.Kind)
  | [] => []
  | e :: es => enclosed (e.isEnclosed extra 0) (e.tokens extra) :: tokensOf extra es

end

/-- The tokens of an expression at a place that asks for the level `k`. -/
def tokensAt (extra : Expr → Bool) (k : Nat) (e : Expr) : List Token.Kind :=
  enclosed (e.isEnclosed extra k) (e.tokens extra)

mutual

/-- The expression is as it is read: its names refer to nothing yet, it has no static types, and the
types that are written in it are no arrays. -/
def isPlain : Expr → Bool
  | int n _ | char n _ | string n _ => n.type.isNone
  | name n _ link => n.type.isNone && link.isNone
  | binary n _ l r => n.type.isNone && l.isPlain && r.isPlain
  | unary n _ x => n.type.isNone && x.isPlain
  | call n _ args => n.type.isNone && allPlain args
  | subscript n b i => n.type.isNone && b.isPlain && i.isPlain
  | cast n t x => n.type.isNone && t.length.isNone && x.isPlain
  | sizeof n t => n.type.isNone && t.length.isNone

/-- All expressions of a list are as they are read. -/
def allPlain : List Expr → Bool
  | [] => true
  | e :: es => e.isPlain && allPlain es

end

end Expr

/-! ### Declarations and statements -/

/-- The tokens of an array's length, if there is one. -/
def lengthTokens : Option Nat → List Token.Kind
  | none => []
  | some n => [.fixed .lbracket, .int (Int64.ofNat n), .fixed .rbracket]

/-- The tokens of an initial value, if there is one. -/
def initTokens (extra : Expr → Bool) : Option Expr → List Token.Kind
  | none => []
  | some e => .fixed .eq :: e.tokensAt extra 0

/-- The tokens of an expression that may be missing. -/
def optionTokens (extra : Expr → Bool) : Option Expr → List Token.Kind
  | none => []
  | some e => e.tokensAt extra 0

namespace Variable

/-- The tokens of a variable behind its name. -/
def restTokens (extra : Expr → Bool) (v : Variable) : List Token.Kind :=
  lengthTokens v.type.length ++ initTokens extra v.init

/-- The tokens of a variable behind its base type. -/
def tokens (extra : Expr → Bool) (v : Variable) : List Token.Kind :=
  starTokens v.type.pointers ++ .ident v.name :: v.restTokens extra

/-- The tokens of a declaration of some variables, whose base type is that of the first one. -/
def declarationTokens (extra : Expr → Bool) : List Variable → List Token.Kind
  | [] => []
  | v :: vs =>
    .fixed v.type.base.keyword ::
      (separated ((v :: vs).map (tokens extra)) ++ [.fixed .semicolon])

end Variable

namespace Stmt

mutual

/-- The tokens of a statement. -/
def tokens (extra : Expr → Bool) : Stmt → List Token.Kind
  | declare _ vs => Variable.declarationTokens extra vs
  | eval _ e => e.tokensAt extra 0 ++ [.fixed .semicolon]
  | branch _ c t f =>
    .fixed .kwIf :: .fixed .lparen :: (c.tokensAt extra 0 ++
      .fixed .rparen :: (t.tokens extra ++ elseTokens extra f))
  | whileLoop _ c b =>
    .fixed .kwWhile :: .fixed .lparen :: (c.tokensAt extra 0 ++ .fixed .rparen :: b.tokens extra)
  | doLoop _ b c =>
    .fixed .kwDo :: (b.tokens extra ++ .fixed .kwWhile :: .fixed .lparen :: (c.tokensAt extra 0 ++
      [.fixed .rparen, .fixed .semicolon]))
  | forLoop _ i c s b =>
    .fixed .kwFor :: .fixed .lparen :: (clauseTokens extra i ++ (optionTokens extra c ++
      .fixed .semicolon :: (optionTokens extra s ++ .fixed .rparen :: b.tokens extra)))
  | ret _ e => .fixed .kwReturn :: (optionTokens extra e ++ [.fixed .semicolon])
  | block _ ss => .fixed .lbrace :: (tokensOf extra ss ++ [.fixed .rbrace])
  | leave _ => [.fixed .kwBreak, .fixed .semicolon]
  | next _ => [.fixed .kwContinue, .fixed .semicolon]
  | empty _ => [.fixed .semicolon]

/-- The tokens of the statements of a list. -/
def tokensOf (extra : Expr → Bool) : List Stmt → List Token.Kind
  | [] => []
  | s :: ss => s.tokens extra ++ tokensOf extra ss

/-- The tokens of an `else`, if there is one. -/
def elseTokens (extra : Expr → Bool) : Option Stmt → List Token.Kind
  | none => []
  | some s => .fixed .kwElse :: s.tokens extra

/-- The tokens of the first clause of a `for`, with its semicolon. -/
def clauseTokens (extra : Expr → Bool) : Option Stmt → List Token.Kind
  | none => [.fixed .semicolon]
  | some s => s.tokens extra

end

end Stmt

/-! ### Programs -/

/-- The tokens of a parameter, with its name if it has one. -/
def Parameter.tokens (q : Parameter) : List Token.Kind :=
  q.type.tokens ++ if q.name = "" then [] else [.ident q.name]

/-- The tokens of a function's body in braces, or the semicolon of a prototype. -/
def Function.bodyTokens (extra : Expr → Bool) (f : Function) : List Token.Kind :=
  match f.body with
  | none => [.fixed .semicolon]
  | some s => s.tokens extra

/-- The tokens of a function. -/
def Function.tokens (extra : Expr → Bool) (f : Function) : List Token.Kind :=
  f.returnType.tokens ++ .ident f.name :: .fixed .lparen ::
    (separated (f.params.map Parameter.tokens) ++ .fixed .rparen :: f.bodyTokens extra)

/-- The tokens of a program: a declaration for each global variable, and then the functions. -/
def Program.tokens (extra : Expr → Bool) (p : Program) : List Token.Kind :=
  (p.globals.flatMap fun v => Variable.declarationTokens extra [v]) ++
    p.functions.flatMap (Function.tokens extra)

/-- Tokens that are written, without places of their own. -/
def Tokens.ofKinds (ks : List Token.Kind) : Tokens := ⟨ks.map (Token.mk · .start), .start⟩

theorem Tokens.map_kind_ofKinds (ks : List Token.Kind) :
    (ofKinds ks).list.map Token.kind = ks := by
  rw [ofKinds, List.map_map]
  exact List.map_id ks

/-! ### Trees without places -/

/-- A node without its number and its location. -/
def Node.unplaced (n : Node) : Node := ⟨0, .start, n.type⟩

namespace Expr

mutual

/-- An expression without the numbers and locations of its nodes. -/
def unplaced : Expr → Expr
  | int n v => int n.unplaced v
  | char n v => char n.unplaced v
  | string n v => string n.unplaced v
  | name n x link => name n.unplaced x link
  | binary n op l r => binary n.unplaced op l.unplaced r.unplaced
  | unary n op x => unary n.unplaced op x.unplaced
  | call n f args => call n.unplaced f (unplacedAll args)
  | subscript n b i => subscript n.unplaced b.unplaced i.unplaced
  | cast n t x => cast n.unplaced t x.unplaced
  | sizeof n t => sizeof n.unplaced t

/-- The expressions of a list without numbers and locations. -/
def unplacedAll : List Expr → List Expr
  | [] => []
  | e :: es => e.unplaced :: unplacedAll es

end

end Expr

/-- A variable without its numbers and its location. -/
def Variable.unplaced (v : Variable) : Variable :=
  ⟨0, v.name, v.type, v.init.map Expr.unplaced, .start⟩

namespace Stmt

mutual

/-- A statement without numbers and locations. -/
def unplaced : Stmt → Stmt
  | declare _ vs => declare .start (vs.map Variable.unplaced)
  | eval _ e => eval .start e.unplaced
  | branch _ c t f => branch .start c.unplaced t.unplaced (unplacedOption f)
  | whileLoop _ c b => whileLoop .start c.unplaced b.unplaced
  | doLoop _ b c => doLoop .start b.unplaced c.unplaced
  | forLoop _ i c s b =>
    forLoop .start (unplacedOption i) (c.map Expr.unplaced) (s.map Expr.unplaced) b.unplaced
  | ret _ e => ret .start (e.map Expr.unplaced)
  | block _ ss => block .start (unplacedAll ss)
  | leave _ => leave .start
  | next _ => next .start
  | empty _ => empty .start

/-- The statements of a list without numbers and locations. -/
def unplacedAll : List Stmt → List Stmt
  | [] => []
  | s :: ss => s.unplaced :: unplacedAll ss

/-- An optional statement without numbers and locations. -/
def unplacedOption : Option Stmt → Option Stmt
  | none => none
  | some s => some s.unplaced

end

end Stmt

/-- A parameter without its number. -/
def Parameter.unplaced (q : Parameter) : Parameter := ⟨0, q.name, q.type⟩

/-- A function without numbers and locations. -/
def Function.unplaced (f : Function) : Function :=
  ⟨f.name, f.params.map Parameter.unplaced, f.returnType, f.body.map Stmt.unplaced, f.intrinsic,
    .start⟩

end MiniC
