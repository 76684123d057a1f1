import MiniC.Arithmetic
import MiniC.Machine

/-!
# Renamed regions

Regions are known by their numbers.  When these are renamed, so are the pointers among values, the
places in memory, and the pointers that errors show; nothing else has to do with regions.

Operators do not tell renamed values from the ones before, as long as different regions keep
different numbers: what they compute is renamed, too, and so are their faults.

Main definitions:

* `MiniC.Renames`: what bears numbers of regions, and `MiniC.rename`, which replaces them.

Main results:

* `MiniC.Value.coerce_rename`, `MiniC.Value.truthy?_rename`: what locations keep, and what is true;
* `MiniC.BinaryOp.apply_rename`, `MiniC.UnaryOp.apply_rename`: operators on renamed values.
-/

set_option autoImplicit false

namespace MiniC

/-- What bears numbers of regions that can be replaced. -/
class Renames (α : Type) where
  rename : (RegionId → RegionId) → α → α
  rename_id (a : α) : rename id a = a

export Renames (rename rename_id)

/-! ### What is renamed -/

instance : Renames Pointer where
  rename ρ p := { p with region := ρ p.region }
  rename_id _ := rfl

/-- A value with its region renamed, if it is a pointer. -/
protected def Value.rename (ρ : RegionId → RegionId) : Value → Value
  | pointer p => pointer (MiniC.rename ρ p)
  | v => v

instance : Renames Value where
  rename := Value.rename
  rename_id v := by cases v <;> rfl

/-- A place with its region renamed, if it is in memory. -/
protected def Place.rename (ρ : RegionId → RegionId) : Place → Place
  | memory p => memory (MiniC.rename ρ p)
  | place => place

instance : Renames Place where
  rename := Place.rename
  rename_id place := by cases place <;> rfl

/-- A refusal of the heap with the region renamed that it shows. -/
protected def HeapError.rename (ρ : RegionId → RegionId) : HeapError → HeapError
  | notABlock p => notABlock (MiniC.rename ρ p)
  | dangling p => dangling (MiniC.rename ρ p)
  | e => e

instance : Renames HeapError where
  rename := HeapError.rename
  rename_id e := by cases e <;> rfl

/-- A fault with the regions renamed that it shows. -/
protected def Fault.rename (ρ : RegionId → RegionId) : Fault → Fault
  | invalidFree v => invalidFree (v.rename ρ)
  | invalidDereference v => invalidDereference (v.rename ρ)
  | f => f

instance : Renames Fault where
  rename := Fault.rename
  rename_id f := by
    cases f with
    | invalidFree v => exact congrArg Fault.invalidFree (rename_id v)
    | invalidDereference v => exact congrArg Fault.invalidDereference (rename_id v)
    | _ => rfl

/-- An error with the regions renamed that it shows. -/
protected def RuntimeError.rename (ρ : RegionId → RegionId) : RuntimeError → RuntimeError
  | fault loc f => fault loc (f.rename ρ)
  | noEntry name => noEntry name

instance : Renames RuntimeError where
  rename := RuntimeError.rename
  rename_id e := by
    cases e with
    | fault loc f => exact congrArg (RuntimeError.fault loc) (rename_id f)
    | noEntry name => rfl

/-! ### What bears no regions -/

instance : Renames Unit := ⟨fun _ a => a, fun _ => rfl⟩
instance : Renames Bool := ⟨fun _ a => a, fun _ => rfl⟩
instance : Renames Nat := ⟨fun _ a => a, fun _ => rfl⟩
instance : Renames Int64 := ⟨fun _ a => a, fun _ => rfl⟩

/-! ### Parts -/

section

variable {α : Type} [Renames α]

instance : Renames (List α) where
  rename ρ := List.map (rename ρ)
  rename_id as := by
    rw [show (rename id : α → α) = id from funext rename_id, List.map_id]

instance : Renames (Option α) where
  rename ρ := Option.map (rename ρ)
  rename_id a := by
    rw [show (rename id : α → α) = id from funext rename_id, Option.map_id_fun, id]

instance {ε : Type} [Renames ε] : Renames (Except ε α) where
  rename ρ
    | .ok a => .ok (rename ρ a)
    | .error e => .error (rename ρ e)
  rename_id
    | .ok a => congrArg Except.ok (rename_id a)
    | .error e => congrArg Except.error (rename_id e)

end

variable {ρ : RegionId → RegionId}

/-- Renaming changes neither the class of an error nor where it arose. -/
theorem RuntimeError.kind_rename (e : RuntimeError) : (rename ρ e).kind = e.kind := by
  cases e with
  | fault loc f => cases f <;> rfl
  | noEntry name => rfl

theorem RuntimeError.location?_rename (e : RuntimeError) :
    (rename ρ e).location? = e.location? := by
  cases e <;> rfl

theorem Fault.ofHeapError_rename (e : HeapError) :
    Fault.ofHeapError (rename ρ e) = rename ρ (Fault.ofHeapError e) := by
  cases e <;> rfl

/-! ### Values -/

namespace Value

/-- What a location keeps of a value, it keeps renamed. -/
theorem coerce_rename (t : Ty) (v : Value) : (rename ρ v).coerce t = rename ρ (v.coerce t) := by
  cases v with
  | integer n =>
    -- Both what is kept of an integer and the integer itself are integers.
    by_cases ht : t.isChar = true
    · simp only [rename, Value.rename, coerce, ht, if_true]
    · simp only [rename, Value.rename, coerce, ht]
      rfl
  | pointer p => rfl
  | uninitialized => rfl

theorem coerceTo_rename (t : Option Ty) (v : Value) :
    (rename ρ v).coerceTo t = rename ρ (v.coerceTo t) := by
  cases t with
  | none => rfl
  | some t => exact coerce_rename t v

/-- What counts as true does so under other numbers. -/
theorem truthy?_rename (v : Value) : (rename ρ v).truthy? = v.truthy? := by
  cases v <;> rfl

/-- A missing value counts as never written under all numbers. -/
theorem getD_rename (o : Option Value) :
    (rename ρ o).getD .uninitialized = rename ρ (o.getD .uninitialized) := by
  cases o <;> rfl

theorem pointer?_rename (v : Value) : (rename ρ v).pointer? = rename ρ v.pointer? := by
  cases v <;> rfl

end Value

/-! ### Operators -/

section

variable (hρ : Function.Injective ρ)

include hρ

/-- Pointers have the distance that they have under other numbers. -/
theorem Pointer.diff?_rename (p q : Pointer) (size : Int64) :
    (rename ρ p).diff? (rename ρ q) size = p.diff? q size := by
  have hregion : (rename ρ p).region = (rename ρ q).region ↔ p.region = q.region := hρ.eq_iff
  simp only [diff?, hregion]
  rfl

theorem Pointer.rename_eq_iff (p q : Pointer) : rename ρ p = rename ρ q ↔ p = q := by
  obtain ⟨r, i⟩ := p
  obtain ⟨s, j⟩ := q
  show Pointer.mk (ρ r) i = Pointer.mk (ρ s) j ↔ _
  rw [Pointer.mk.injEq, Pointer.mk.injEq, hρ.eq_iff]

namespace BinaryOp

omit hρ in
theorem onIntegers_rename (op : BinaryOp) (a b : Int64) :
    rename ρ (op.onIntegers a b) = op.onIntegers a b := by
  cases op with
  | div | mod =>
    by_cases hb : b = 0
    · simp only [onIntegers, hb, if_true]
      rfl
    · simp only [onIntegers, hb, if_false]
      rfl
  | _ => rfl

omit hρ in
theorem onPointerInteger_rename (op : BinaryOp) (p : Pointer) (n size : Int64) :
    op.onPointerInteger (rename ρ p) n size = rename ρ (op.onPointerInteger p n size) := by
  cases op <;> rfl

omit hρ in
theorem onIntegerPointer_rename (op : BinaryOp) (n : Int64) (p : Pointer) (size : Int64) :
    op.onIntegerPointer n (rename ρ p) size = rename ρ (op.onIntegerPointer n p size) := by
  cases op <;> rfl

theorem order_rename (p q : Pointer) (holds : Bool) :
    order (rename ρ p) (rename ρ q) holds = rename ρ (order p q holds) := by
  have hregion : (rename ρ p).region = (rename ρ q).region ↔ p.region = q.region := hρ.eq_iff
  by_cases h : p.region = q.region
  · rw [order, order, if_pos h, if_pos (hregion.2 h)]
    rfl
  · rw [order, order, if_neg h, if_neg (fun hr => h (hregion.1 hr))]
    rfl

theorem onPointers_rename (op : BinaryOp) (p q : Pointer) (size : Int64) :
    op.onPointers (rename ρ p) (rename ρ q) size = rename ρ (op.onPointers p q size) := by
  cases op with
  | sub =>
    unfold onPointers
    rw [Pointer.diff?_rename hρ]
    cases p.diff? q size <;> rfl
  | eq =>
    have h := Pointer.rename_eq_iff hρ p q
    simp only [onPointers, h]
    rfl
  | ne =>
    have h := Pointer.rename_eq_iff hρ p q
    simp only [onPointers, ne_eq, h]
    rfl
  | lt | le | gt | ge => exact order_rename hρ p q _
  | _ => rfl

/-- Binary operators compute renamed values from renamed values. -/
theorem apply_rename (op : BinaryOp) (a b : Value) (s t : Int64) :
    op.apply (rename ρ a) (rename ρ b) s t = rename ρ (op.apply a b s t) := by
  cases a with
  | integer m =>
    cases b with
    | integer n => exact (onIntegers_rename op m n).symm
    | pointer q => exact onIntegerPointer_rename op m q t
    | uninitialized => rfl
  | pointer p =>
    cases b with
    | integer n => exact onPointerInteger_rename op p n s
    | pointer q => exact onPointers_rename hρ op p q s
    | uninitialized => rfl
  | uninitialized => cases b <;> rfl

end BinaryOp

end

/-- Unary operators compute renamed values from renamed values. -/
theorem UnaryOp.apply_rename (op : UnaryOp) (v : Value) :
    op.apply (rename ρ v) = rename ρ (op.apply v) := by
  cases v <;> cases op <;> rfl

end MiniC
