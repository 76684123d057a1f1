import MiniC.Heap
import MiniC.Input
import MiniC.Intrinsic
import MiniC.Location
import MiniC.Operator
import MiniC.Output

/-!
# Errors of a run

A run ends with the first error.  A fault says what went wrong; the error adds where.

Main definitions:

* `MiniC.Fault`, `MiniC.Fault.kind`, `MiniC.Fault.message`: what went wrong, in which class, and
  the text of it;
* `MiniC.Fault.ofHeapError`: the fault that a refusal of the heap is;
* `MiniC.RuntimeError`: a fault at a location, or a program without the function to start in.
-/

set_option autoImplicit false

namespace MiniC

/-- A construct that has a syntax and no meaning. -/
inductive Construct where
  | stringLiteral
  | addressOf
  | doLoop
  | breakStatement
  | continueStatement
  | arrayInitializer
  /-- An assignment to what names no location. -/
  | assignmentTarget
  /-- An assignment operator used to combine two values. -/
  | pureAssignment (op : BinaryOp)
  /-- The address of what names no location in memory. -/
  | addressOfNonMemory
deriving DecidableEq, Repr, Inhabited

/-- How a message names a construct. -/
def Construct.name : Construct → String
  | stringLiteral => "string literal"
  | addressOf => "address-of operator"
  | doLoop => "do-while loop"
  | breakStatement => "break statement"
  | continueStatement => "continue statement"
  | arrayInitializer => "array initializer"
  | assignmentTarget =>
    "assignment to an expression that is not a variable, dereference or subscript"
  | pureAssignment op => "'" ++ op.symbol ++ "' as a pure operator"
  | addressOfNonMemory => "address of a non-memory expression"

/-- What a value that was never written was needed for. -/
inductive Use where
  | binaryOperand (op : BinaryOp)
  | unaryOperand
  | condition
  | pointer
  | argument (function : Intrinsic)
deriving DecidableEq, Repr, Inhabited

/-- How a message names a use. -/
def Use.name : Use → String
  | binaryOperand op => "operand of '" ++ op.symbol ++ "'"
  | unaryOperand => "operand of unary operator"
  | condition => "value in condition"
  | pointer => "pointer"
  | argument function => "argument to " ++ function.name

/-- Which values do not go together. -/
inductive Mismatch where
  | binaryOperands (op : BinaryOp) (left right : Value.Kind)
  | unaryOperand (operand : Value.Kind)
  /-- Pointers into different regions are subtracted. -/
  | difference
  /-- Pointers into different regions are compared. -/
  | comparison
  /-- An array is assigned to. -/
  | arrayTarget (name : String)
  | printArgument (argument : Value.Kind)
  | mallocArgument
deriving DecidableEq, Repr, Inhabited

/-- The text of a mismatch. -/
def Mismatch.message : Mismatch → String
  | binaryOperands op left right =>
    "operator '" ++ op.symbol ++ "' cannot combine " ++ left.name ++ " and " ++ right.name
  | unaryOperand operand => "unary operator cannot be applied to " ++ operand.name
  | difference => "subtraction of pointers into different regions"
  | comparison => "comparison of pointers into different regions"
  | arrayTarget name => "array '" ++ name ++ "' is not assignable"
  | printArgument argument => "PRINT expects an integer, got " ++ argument.name
  | mallocArgument => "MALLOC expects an integer size, got pointer"

/-- Why no memory can be had. -/
inductive AllocationFault where
  /-- The size of a type exceeds the range of integers. -/
  | sizeofTooLarge
  /-- The size of an array exceeds the range of sizes. -/
  | arrayTooLarge (length : Nat)
  | negativeSize (size : Int64)
  | outOfMemory (requested allocated limit : Nat)
deriving DecidableEq, Repr, Inhabited

/-- The text of the reason. -/
def AllocationFault.message : AllocationFault → String
  | sizeofTooLarge => "sizeof operand is too large"
  | arrayTooLarge length => s!"array of {length} elements is too large"
  | negativeSize size => "size " ++ Decimal.text size.toInt ++ " is negative"
  | outOfMemory requested allocated limit =>
    (HeapError.outOfMemory requested allocated limit).message

/-- What went wrong. -/
inductive Fault where
  | unboundName (name : String)
  | arityMismatch (function : String) (expected got : Nat)
  | divisionByZero
  | moduloByZero
  | invalidFree (v : Value)
  | unsupported (construct : Construct)
  | uninitializedRead (use : Use)
  | invalidDereference (v : Value)
  | typeMismatch (mismatch : Mismatch)
  | invalidAllocation (reason : AllocationFault)
  | stackOverflow (limit : Nat)
  | input (e : InputError)
  | output (e : OutputError)
deriving DecidableEq, Repr, Inhabited

namespace Fault

/-- The class of a fault. -/
inductive Kind where
  | unboundName
  | arityMismatch
  | divisionByZero
  | invalidFree
  | unsupportedConstruct
  | noEntryFunction
  | uninitializedRead
  | invalidDereference
  | typeMismatch
  | invalidAllocation
  | stackOverflow
  | input
  | output
deriving DecidableEq, Repr, Inhabited

/-- The name of a class. -/
def Kind.name : Kind → String
  | unboundName => "UnboundName"
  | arityMismatch => "ArityMismatch"
  | divisionByZero => "DivisionByZero"
  | invalidFree => "InvalidFree"
  | unsupportedConstruct => "UnsupportedConstruct"
  | noEntryFunction => "NoEntryFunction"
  | uninitializedRead => "UninitializedRead"
  | invalidDereference => "InvalidDereference"
  | typeMismatch => "TypeMismatch"
  | invalidAllocation => "InvalidAllocation"
  | stackOverflow => "StackOverflow"
  | input => "Input"
  | output => "Output"

/-- The class of a fault; both divisions by zero are in one. -/
def kind : Fault → Kind
  | unboundName _ => .unboundName
  | arityMismatch _ _ _ => .arityMismatch
  | divisionByZero | moduloByZero => .divisionByZero
  | invalidFree _ => .invalidFree
  | unsupported _ => .unsupportedConstruct
  | uninitializedRead _ => .uninitializedRead
  | invalidDereference _ => .invalidDereference
  | typeMismatch _ => .typeMismatch
  | invalidAllocation _ => .invalidAllocation
  | stackOverflow _ => .stackOverflow
  | input _ => .input
  | output _ => .output

/-- The text of a fault at line `line`. -/
def message (line : Nat) : Fault → String
  | unboundName name => s!"Unbound name '{name}' at line {line}"
  | arityMismatch function expected got =>
    let arguments := if expected = 1 then "argument" else "arguments"
    s!"Function '{function}' expects {expected} {arguments}, got {got} at line {line}"
  | divisionByZero => s!"Division by zero at line {line}"
  | moduloByZero => s!"Modulo by zero at line {line}"
  | invalidFree v => "Invalid free of " ++ v.text ++ s!" at line {line}"
  | unsupported construct => "Unsupported construct: " ++ construct.name ++ s!" at line {line}"
  | uninitializedRead use => "Read of uninitialized " ++ use.name ++ s!" at line {line}"
  | invalidDereference v => "Invalid dereference of " ++ v.text ++ s!" at line {line}"
  | typeMismatch mismatch => s!"Type error at line {line}: " ++ mismatch.message
  | invalidAllocation reason => s!"Invalid allocation at line {line}: " ++ reason.message
  | stackOverflow limit => s!"Stack overflow: call depth exceeded {limit} at line {line}"
  | input e => s!"Input error at line {line}: " ++ e.message
  | output e => s!"Output error at line {line}: " ++ e.message

/-- The fault that a refusal of the heap is. -/
def ofHeapError : HeapError → Fault
  | .outOfMemory requested allocated limit =>
    invalidAllocation (.outOfMemory requested allocated limit)
  | .notABlock p => invalidFree (.pointer p)
  | .dangling p => invalidDereference (.pointer p)

end Fault

/-- How a run fails: by a fault somewhere, or because the function to start in is missing. -/
inductive RuntimeError where
  | fault (loc : Location) (fault : Fault)
  | noEntry (name : String)
deriving DecidableEq, Repr, Inhabited

namespace RuntimeError

/-- The class of an error. -/
def kind : RuntimeError → Fault.Kind
  | fault _ f => f.kind
  | noEntry _ => .noEntryFunction

/-- Where an error arose. -/
def location? : RuntimeError → Option Location
  | fault loc _ => some loc
  | noEntry _ => none

/-- The text of an error. -/
def message : RuntimeError → String
  | fault loc f => f.message loc.line
  | noEntry name => s!"No {name}() function found"

end RuntimeError

end MiniC
