import MiniC.Text.Decimal
import MiniC.Ty

/-!
# Values

A value is a 64-bit integer, a pointer, or the mark of a location that was never written.  A
pointer names a region of memory and a byte offset into it, which may be negative or past the end;
no pointer is null.

Main definitions:

* `MiniC.Pointer`, `MiniC.Pointer.add`, `MiniC.Pointer.diff?`: pointers and their arithmetic in
  elements of a given size;
* `MiniC.Value`, `MiniC.Value.truthy?`: values, and which count as true;
* `MiniC.Value.coerce`: what a location of some type keeps of a value;
* `MiniC.Value.text`, `MiniC.Value.ofText?`: the text of a value, and its reading.

Main results:

* `MiniC.Pointer.add_add`: moving twice is moving once by the sum;
* `MiniC.Value.coerce_coerce`: what a location keeps it keeps again.
-/

set_option autoImplicit false

namespace MiniC

/-- The number of a region of memory. -/
abbrev RegionId := UInt32

/-- A pointer: a region and a byte offset into it. -/
structure Pointer where
  region : RegionId
  offset : Int64
deriving DecidableEq, Repr, Inhabited

namespace Pointer

/-- The pointer to the start of a region. -/
def base (region : RegionId) : Pointer := ⟨region, 0⟩

/-- The pointer moved by some bytes, modulo 2^64. -/
def offsetBy (p : Pointer) (bytes : Int64) : Pointer := { p with offset := p.offset + bytes }

/-- The pointer moved by `n` elements of `size` bytes. -/
def add (p : Pointer) (n size : Int64) : Pointer := p.offsetBy (n * size)

/-- The distance from `q` to `p` in elements of `size` bytes, rounded toward zero; pointers into
different regions have none. -/
def diff? (p q : Pointer) (size : Int64) : Option Int64 :=
  if p.region = q.region then some ((p.offset - q.offset) / (if size < 1 then 1 else size))
  else none

/-- The text of a pointer. -/
def text (p : Pointer) : String :=
  "<region " ++ Decimal.text p.region.toNat ++ "+" ++ Decimal.text p.offset.toInt ++ ">"

@[simp] theorem region_offsetBy (p : Pointer) (n : Int64) : (p.offsetBy n).region = p.region := rfl

@[simp] theorem region_add (p : Pointer) (n s : Int64) : (p.add n s).region = p.region := rfl

/-- Moving twice is moving once by the sum, whatever wraps on the way. -/
theorem add_add (p : Pointer) (n m s : Int64) : (p.add n s).add m s = p.add (n + m) s := by
  simp only [add, offsetBy, Pointer.mk.injEq, true_and]
  grind

end Pointer

/-- A value of a running program. -/
inductive Value where
  | integer (n : Int64)
  | pointer (p : Pointer)
  | uninitialized
deriving DecidableEq, Repr, Inhabited

namespace Value

/-- The value of a comparison: 1 if it holds, else 0. -/
def ofBool (b : Bool) : Value := integer (if b then 1 else 0)

/-- The value has been written. -/
def isInitialized : Value → Bool
  | uninitialized => false
  | _ => true

/-- The value is a pointer. -/
def isPointer : Value → Bool
  | pointer _ => true
  | _ => false

/-- The integer that a value is, if it is one. -/
def integer? : Value → Option Int64
  | integer n => some n
  | _ => none

/-- The pointer that a value is, if it is one. -/
def pointer? : Value → Option Pointer
  | pointer p => some p
  | _ => none

/-- Whether a value counts as true: integers other than 0 and all pointers do.  A value that was
never written counts as neither. -/
def truthy? : Value → Option Bool
  | integer n => some (n != 0)
  | pointer _ => some true
  | uninitialized => none

/-- What a value is, without which one. -/
inductive Kind where
  | integer
  | pointer
  | uninitialized
deriving DecidableEq, Repr, Inhabited

/-- How a message names a kind of value. -/
def Kind.name : Kind → String
  | integer => "integer"
  | pointer => "pointer"
  | uninitialized => "uninitialized value"

/-- The kind of a value. -/
def kind : Value → Kind
  | integer _ => .integer
  | pointer _ => .pointer
  | uninitialized => .uninitialized

/-- What a location of type `t` keeps of a value: a `char` keeps the low byte of an integer, as a
number from -128 to 127. -/
def coerce (t : Ty) : Value → Value
  | integer n => if t.isChar then integer n.toInt8.toInt64 else integer n
  | v => v

/-- What a location keeps of a value if its type is known; else the value itself. -/
def coerceTo (t : Option Ty) (v : Value) : Value :=
  match t with
  | some t => v.coerce t
  | none => v

/-- The text of a value. -/
def text : Value → String
  | integer n => Decimal.text n.toInt
  | pointer p => p.text
  | uninitialized => "<uninitialized>"

/-- Reads the rest of a pointer's text, from the number of its region on. -/
def pointerOfChars? (cs : List Char) : Option Pointer :=
  let digits := cs.takeWhile (· ≠ '+')
  match cs.dropWhile (· ≠ '+') with
  | '+' :: rest =>
    match Decimal.nat? digits, rest.reverse with
    | some region, '>' :: offset =>
      if region < UInt32.size then
        (Decimal.int64? offset.reverse).map fun n => ⟨UInt32.ofNat region, n⟩
      else none
    | _, _ => none
  | _ => none

/-- Reads the text of a value. -/
def ofText? (s : String) : Option Value :=
  if s = "<uninitialized>" then some uninitialized
  else if "<region ".toList.isPrefixOf s.toList then
    (pointerOfChars? (s.toList.drop 8)).map pointer
  else (Decimal.int64? s.toList).map integer

/-- What a location keeps of a value it keeps again. -/
@[simp] theorem coerce_coerce (t : Ty) (v : Value) : (v.coerce t).coerce t = v.coerce t := by
  cases v with
  | integer n =>
    by_cases h : t.isChar = true
    · simp [coerce, h]
    · simp [coerce, h]
  | pointer p => rfl
  | uninitialized => rfl

@[simp] theorem coerce_pointer (t : Ty) (p : Pointer) : (pointer p).coerce t = pointer p := rfl

@[simp] theorem coerce_uninitialized (t : Ty) : uninitialized.coerce t = uninitialized := rfl

end Value

end MiniC
