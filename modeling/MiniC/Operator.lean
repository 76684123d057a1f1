/-!
# Operators

The binary operators, assignments included, and the unary ones.

Main definitions:

* `MiniC.BinaryOp`, `MiniC.BinaryOp.symbol`, `MiniC.BinaryOp.compoundBase?`: the binary operators,
  their spelling, and the operation that a compound assignment abbreviates;
* `MiniC.UnaryOp`: the unary operators, before or after their operand.

Main results:

* `MiniC.BinaryOp.mem_all`: the list of binary operators is complete;
* `MiniC.BinaryOp.symbol_injective`: no two binary operators are spelled alike;
* `MiniC.BinaryOp.isAssignment_iff`: the assignments are `=` and the compound ones.
-/

set_option autoImplicit false

namespace MiniC

/-- A binary operator. -/
inductive BinaryOp where
  | add | sub | mul | div | mod
  | eq | ne | lt | le | gt | ge
  | and | or
  | bitAnd | bitOr | bitXor | shl | shr
  | assign | addAssign | subAssign | mulAssign | divAssign | modAssign
deriving DecidableEq, Repr, Inhabited

namespace BinaryOp

/-- All binary operators, in the order in which they are declared. -/
def all : List BinaryOp :=
  [add, sub, mul, div, mod, eq, ne, lt, le, gt, ge, and, or, bitAnd, bitOr, bitXor, shl, shr,
    assign, addAssign, subAssign, mulAssign, divAssign, modAssign]

theorem mem_all (op : BinaryOp) : op ∈ all := by cases op <;> decide

/-- The spelling of a binary operator. -/
def symbol : BinaryOp → String
  | add => "+"
  | sub => "-"
  | mul => "*"
  | div => "/"
  | mod => "%"
  | eq => "=="
  | ne => "!="
  | lt => "<"
  | le => "<="
  | gt => ">"
  | ge => ">="
  | and => "&&"
  | or => "||"
  | bitAnd => "&"
  | bitOr => "|"
  | bitXor => "^"
  | shl => "<<"
  | shr => ">>"
  | assign => "="
  | addAssign => "+="
  | subAssign => "-="
  | mulAssign => "*="
  | divAssign => "/="
  | modAssign => "%="

theorem symbol_injective {a b : BinaryOp} (h : a.symbol = b.symbol) : a = b := by
  revert h; cases a <;> cases b <;> decide

/-- The operation that a compound assignment applies before it stores. -/
def compoundBase? : BinaryOp → Option BinaryOp
  | addAssign => some add
  | subAssign => some sub
  | mulAssign => some mul
  | divAssign => some div
  | modAssign => some mod
  | _ => none

/-- The operator stores into its left operand. -/
def isAssignment : BinaryOp → Bool
  | assign | addAssign | subAssign | mulAssign | divAssign | modAssign => true
  | _ => false

/-- The assignments are the plain one and the compound ones. -/
theorem isAssignment_iff (op : BinaryOp) :
    op.isAssignment = true ↔ op = assign ∨ ∃ base, op.compoundBase? = some base := by
  cases op <;> simp [isAssignment, compoundBase?]

/-- What a compound assignment applies is no assignment. -/
theorem isAssignment_of_compoundBase? {op base : BinaryOp} (h : op.compoundBase? = some base) :
    base.isAssignment = false := by
  cases op <;> simp [compoundBase?] at h <;> subst h <;> rfl

end BinaryOp

/-- A unary operator. -/
inductive UnaryOp where
  /-- Negation `-x`. -/
  | neg
  /-- Logical complement `!x`. -/
  | not
  /-- Bitwise complement `~x`. -/
  | bitNot
  /-- `++x`. -/
  | preInc
  /-- `--x`. -/
  | preDec
  /-- `x++`. -/
  | postInc
  /-- `x--`. -/
  | postDec
  /-- Dereference `*x`. -/
  | deref
  /-- Address-of `&x`. -/
  | addrOf
deriving DecidableEq, Repr, Inhabited

end MiniC
