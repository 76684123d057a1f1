import MiniC.Text.Decimal

/-!
# Types

A type is a base type, a number of pointer levels and, for a declared array, a length.  Sizes are
fixed: an `int` takes four bytes, a `char` one, a pointer eight, and `void` counts as one byte so
that arithmetic on `void *` is arithmetic on bytes.

Main definitions:

* `MiniC.Ty`, `MiniC.Ty.decayed`, `MiniC.Ty.pointee?`: types, the type of an expression that names
  a location, and what a pointer or an array refers to;
* `MiniC.Ty.size?`: the size in bytes, where it fits the 64 bits of an address;
* `MiniC.Ty.stride`: the bytes by which a pointer of this type moves per element.

Main results:

* `MiniC.Ty.isArray_decayed`: a decayed type is never an array;
* `MiniC.Ty.pointee?_addPointer`: a pointer refers to what it was formed from;
* `MiniC.Ty.stride_pos`: every stride is positive.
-/

set_option autoImplicit false

namespace MiniC

/-- The base of a type. -/
inductive BaseType where
  | int
  | char
  | void
deriving DecidableEq, Repr, Inhabited

namespace BaseType

/-- The keyword of a base type. -/
def name : BaseType → String
  | int => "int"
  | char => "char"
  | void => "void"

/-- The bytes that one value of a base type takes. -/
def size : BaseType → Nat
  | int => 4
  | char => 1
  | void => 1

end BaseType

/-- A type: `base`, then `pointers` stars, then `[n]` if `length` is `some n`. -/
structure Ty where
  base : BaseType
  pointers : Nat
  length : Option Nat
deriving DecidableEq, Repr, Inhabited

namespace Ty

/-- A base type on its own. -/
def ofBase (base : BaseType) : Ty := ⟨base, 0, none⟩

/-- The type `int`. -/
def int : Ty := ofBase .int

/-- The type `char`. -/
def char : Ty := ofBase .char

/-- The type `void`. -/
def void : Ty := ofBase .void

/-- The type with one more pointer level. -/
def addPointer (t : Ty) : Ty := { t with pointers := t.pointers + 1 }

/-- The array of `n` elements of this type. -/
def array (t : Ty) (n : Nat) : Ty := { t with length := some n }

/-- The type is a declared array. -/
def isArray (t : Ty) : Bool := t.length.isSome

/-- The type is a pointer, and not an array of pointers. -/
def isPointer (t : Ty) : Bool := decide (0 < t.pointers) && !t.isArray

/-- The type is `char` itself. -/
def isChar (t : Ty) : Bool := decide (t = char)

/-- The type is `void` itself or an array of it, neither of which a variable can have. -/
def isVoid (t : Ty) : Bool := decide (t.base = .void ∧ t.pointers = 0)

/-- The type of an expression that names a location of type `t`: an array stands for the pointer
to its first element. -/
def decayed (t : Ty) : Ty :=
  if t.isArray then ⟨t.base, t.pointers + 1, none⟩ else t

/-- What a pointer or an array refers to. -/
def pointee? (t : Ty) : Option Ty :=
  if t.isArray then some ⟨t.base, t.pointers, none⟩
  else if t.pointers = 0 then none
  else some ⟨t.base, t.pointers - 1, none⟩

/-- The bytes that one element takes: a pointer takes eight, whatever it refers to. -/
def elementSize (t : Ty) : Nat := if 0 < t.pointers then 8 else t.base.size

/-- The size in bytes, unless it is too large for 64 bits. -/
def size? (t : Ty) : Option Nat :=
  let bytes := t.elementSize * t.length.getD 1
  if bytes < UInt64.size then some bytes else none

/-- The bytes by which a pointer of this type moves per element; 1 for what is no pointer. -/
def stride (t : Ty) : Int64 :=
  match t.pointee? with
  | some u => Int64.ofNat u.elementSize
  | none => 1

/-- The text of a type: its keyword, its stars and its length in brackets. -/
def text (t : Ty) : String :=
  t.base.name ++ String.ofList (List.replicate t.pointers '*') ++
    match t.length with
    | some n => "[" ++ Decimal.text n ++ "]"
    | none => ""

/-! ### Arrays and pointers -/

@[simp] theorem isArray_decayed (t : Ty) : t.decayed.isArray = false := by
  by_cases h : t.isArray = true
  · rw [decayed, if_pos h]; rfl
  · rw [decayed, if_neg h]; simpa using h

@[simp] theorem decayed_decayed (t : Ty) : t.decayed.decayed = t.decayed := by
  rw [decayed, isArray_decayed, if_neg (by decide)]

/-- An array stands for a pointer. -/
theorem isPointer_decayed_array (t : Ty) (n : Nat) : (t.array n).decayed.isPointer = true := by
  simp [array, decayed, isPointer, isArray]

/-- A pointer refers to what it was formed from. -/
theorem pointee?_addPointer {t : Ty} (h : t.isArray = false) : t.addPointer.pointee? = some t := by
  obtain ⟨b, p, l⟩ := t
  cases l with
  | none => rfl
  | some n => simp [isArray] at h

/-- What a pointer or an array refers to is no array: there is one dimension only. -/
theorem isArray_of_pointee? {t u : Ty} (h : t.pointee? = some u) : u.isArray = false := by
  unfold pointee? at h
  split at h
  · cases h; rfl
  · split at h
    · cases h
    · cases h; rfl

/-! ### Sizes -/

theorem elementSize_pos (t : Ty) : 0 < t.elementSize := by
  obtain ⟨b, p, l⟩ := t
  cases b <;> simp only [elementSize, BaseType.size] <;> split <;> decide

theorem elementSize_le (t : Ty) : t.elementSize ≤ 8 := by
  obtain ⟨b, p, l⟩ := t
  cases b <;> simp only [elementSize, BaseType.size] <;> split <;> decide

/-- Every stride is positive. -/
theorem stride_pos (t : Ty) : 0 < t.stride := by
  unfold stride
  split
  · next u _ =>
    have h₁ := elementSize_pos u
    have h₂ := elementSize_le u
    generalize u.elementSize = n at h₁ h₂
    have : n = 1 ∨ n = 2 ∨ n = 3 ∨ n = 4 ∨ n = 5 ∨ n = 6 ∨ n = 7 ∨ n = 8 := by omega
    rcases this with h | h | h | h | h | h | h | h <;> subst h <;> decide
  · decide

end Ty

end MiniC
