import MiniC.RuntimeError

/-!
# What operators compute

Integers have 64 bits and wrap around; division rounds toward zero; a shift counts the low six
bits of its right operand.  `&&` and `||` combine two values that have both been computed.

A pointer moves by whole elements, whose size the static type of the operand gives.  Pointers into
one region have a distance and an order; no pointer equals an integer.  A value that was never
written goes into no operation.

Main definitions:

* `MiniC.BinaryOp.onIntegers`, `MiniC.BinaryOp.onPointers`: operations on values of one kind;
* `MiniC.BinaryOp.apply`: a binary operation on any two values;
* `MiniC.UnaryOp.apply`: negation and the complements.

Main results:

* `MiniC.BinaryOp.apply_uninitialized_left`, `MiniC.BinaryOp.apply_uninitialized_right`: a value
  that was never written goes into no binary operation;
* `MiniC.BinaryOp.apply_add_comm`: the pointer of a sum may stand on either side.
-/

set_option autoImplicit false

namespace MiniC

namespace BinaryOp

/-- A binary operation on two integers. -/
def onIntegers (op : BinaryOp) (a b : Int64) : Except Fault Value :=
  match op with
  | add => .ok (.integer (a + b))
  | sub => .ok (.integer (a - b))
  | mul => .ok (.integer (a * b))
  | div => if b = 0 then .error .divisionByZero else .ok (.integer (a / b))
  | mod => if b = 0 then .error .moduloByZero else .ok (.integer (a % b))
  | eq => .ok (.ofBool (a == b))
  | ne => .ok (.ofBool (a != b))
  | lt => .ok (.ofBool (a < b))
  | le => .ok (.ofBool (a ≤ b))
  | gt => .ok (.ofBool (b < a))
  | ge => .ok (.ofBool (b ≤ a))
  | and => .ok (.ofBool (a != 0 && b != 0))
  | or => .ok (.ofBool (a != 0 || b != 0))
  | bitAnd => .ok (.integer (a &&& b))
  | bitOr => .ok (.integer (a ||| b))
  | bitXor => .ok (.integer (a ^^^ b))
  | shl => .ok (.integer (a <<< (b &&& 63)))
  | shr => .ok (.integer (a >>> (b &&& 63)))
  | assign | addAssign | subAssign | mulAssign | divAssign | modAssign =>
    .error (.unsupported (.pureAssignment op))

/-- Two values that a binary operation cannot combine. -/
def mismatch (op : BinaryOp) (left right : Value) : Except Fault Value :=
  .error (.typeMismatch (.binaryOperands op left.kind right.kind))

/-- An order of two pointers, which they have if they point into one region. -/
def order (p q : Pointer) (holds : Bool) : Except Fault Value :=
  if p.region = q.region then .ok (.ofBool holds) else .error (.typeMismatch .comparison)

/-- A binary operation on two pointers to elements of `size` bytes. -/
def onPointers (op : BinaryOp) (p q : Pointer) (size : Int64) : Except Fault Value :=
  match op with
  | sub =>
    match p.diff? q size with
    | some n => .ok (.integer n)
    | none => .error (.typeMismatch .difference)
  | eq => .ok (.ofBool (decide (p = q)))
  | ne => .ok (.ofBool (decide (p ≠ q)))
  | lt => order p q (p.offset < q.offset)
  | le => order p q (p.offset ≤ q.offset)
  | gt => order p q (q.offset < p.offset)
  | ge => order p q (q.offset ≤ p.offset)
  | and | or => .ok (.ofBool true)
  | _ => mismatch op (.pointer p) (.pointer q)

/-- A binary operation on a pointer to elements of `size` bytes and an integer. -/
def onPointerInteger (op : BinaryOp) (p : Pointer) (n size : Int64) : Except Fault Value :=
  match op with
  | add => .ok (.pointer (p.add n size))
  | sub => .ok (.pointer (p.add (-n) size))
  | eq => .ok (.ofBool false)
  | ne => .ok (.ofBool true)
  | and => .ok (.ofBool (n != 0))
  | or => .ok (.ofBool true)
  | _ => mismatch op (.pointer p) (.integer n)

/-- A binary operation on an integer and a pointer to elements of `size` bytes. -/
def onIntegerPointer (op : BinaryOp) (n : Int64) (p : Pointer) (size : Int64) :
    Except Fault Value :=
  match op with
  | add => .ok (.pointer (p.add n size))
  | eq => .ok (.ofBool false)
  | ne => .ok (.ofBool true)
  | and => .ok (.ofBool (n != 0))
  | or => .ok (.ofBool true)
  | _ => mismatch op (.integer n) (.pointer p)

/-- A binary operation on two values.  `leftSize` and `rightSize` are the sizes of the elements
that they point to, if they are pointers. -/
def apply (op : BinaryOp) (left right : Value) (leftSize rightSize : Int64) : Except Fault Value :=
  match left, right with
  | .integer a, .integer b => op.onIntegers a b
  | .pointer p, .integer n => op.onPointerInteger p n leftSize
  | .integer n, .pointer p => op.onIntegerPointer n p rightSize
  | .pointer p, .pointer q => op.onPointers p q leftSize
  | _, _ => .error (.uninitializedRead (.binaryOperand op))

/-- A value that was never written is no left operand. -/
@[simp] theorem apply_uninitialized_left (op : BinaryOp) (v : Value) (s t : Int64) :
    op.apply .uninitialized v s t = .error (.uninitializedRead (.binaryOperand op)) := by
  cases v <;> rfl

/-- A value that was never written is no right operand. -/
@[simp] theorem apply_uninitialized_right (op : BinaryOp) (v : Value) (s t : Int64) :
    op.apply v .uninitialized s t = .error (.uninitializedRead (.binaryOperand op)) := by
  cases v <;> rfl

/-- The pointer of a sum may stand on either side. -/
theorem apply_add_comm (p : Pointer) (n s t : Int64) :
    add.apply (.integer n) (.pointer p) t s = add.apply (.pointer p) (.integer n) s t := rfl

end BinaryOp

namespace UnaryOp

/-- Negation or a complement of a value.  A pointer is true, so its logical complement is 0. -/
def apply (op : UnaryOp) (v : Value) : Except Fault Value :=
  match op, v with
  | _, .uninitialized => .error (.uninitializedRead .unaryOperand)
  | neg, .integer n => .ok (.integer (-n))
  | bitNot, .integer n => .ok (.integer (~~~n))
  | not, .integer n => .ok (.ofBool (n == 0))
  | not, .pointer _ => .ok (.ofBool false)
  | _, v => .error (.typeMismatch (.unaryOperand v.kind))

@[simp] theorem apply_uninitialized (op : UnaryOp) :
    op.apply .uninitialized = .error (.uninitializedRead .unaryOperand) := by
  cases op <;> rfl

end UnaryOp

end MiniC
