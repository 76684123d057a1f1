import MiniC.Heap

/-!
# Histories of a heap

A history is a list of operations on a heap, performed one after the other.  An operation that
fails leaves the heap as it was.

Main definitions:

* `MiniC.Heap.Op`, `MiniC.Heap.Answer`: the operations, and what they yield;
* `MiniC.Heap.perform`: one operation;
* `MiniC.Heap.after`: the heap after a history;
* `MiniC.Heap.answers`: what the operations of a history yield.

Main results:

* `MiniC.Heap.perform_of_error`: an operation that fails leaves the heap as it was;
* `MiniC.Heap.limit_after`: no history changes the limit.
-/

set_option autoImplicit false

namespace MiniC.Heap

/-- An operation on a heap. -/
inductive Op where
  | malloc (size : Nat)
  | array (size : Nat)
  | free (p : Pointer)
  | drop (id : RegionId)
  | read (p : Pointer)
  | write (p : Pointer) (v : Value)
deriving DecidableEq, Repr, Inhabited

/-- What an operation yields. -/
inductive Answer where
  /-- The start of a new region. -/
  | address (p : Pointer)
  | contents (v : Value)
  /-- The size of a block that was given back. -/
  | released (size : Nat)
  | done
deriving DecidableEq, Repr, Inhabited

/-- Performs one operation; if it fails the heap stays as it was. -/
def perform (h : Heap) : Op → Except HeapError Answer × Heap
  | .malloc size =>
    match h.allocate .block size with
    | .ok (p, h) => (.ok (.address p), h)
    | .error e => (.error e, h)
  | .array size =>
    match h.allocate .array size with
    | .ok (p, h) => (.ok (.address p), h)
    | .error e => (.error e, h)
  | .free p =>
    match h.release p with
    | .ok (size, h) => (.ok (.released size), h)
    | .error e => (.error e, h)
  | .drop id => (.ok .done, h.drop id)
  | .read p =>
    match h.read p with
    | .ok v => (.ok (.contents v), h)
    | .error e => (.error e, h)
  | .write p v =>
    match h.write p v with
    | .ok h => (.ok .done, h)
    | .error e => (.error e, h)

/-- The heap after a history. -/
def after (h : Heap) (ops : List Op) : Heap := ops.foldl (fun h op => (h.perform op).2) h

/-- What the operations of a history yield, one by one. -/
def answers (h : Heap) : List Op → List (Except HeapError Answer)
  | [] => []
  | op :: ops => (h.perform op).1 :: answers (h.perform op).2 ops

@[simp] theorem after_nil (h : Heap) : h.after [] = h := rfl

@[simp] theorem after_cons (h : Heap) (op : Op) (ops : List Op) :
    h.after (op :: ops) = (h.perform op).2.after ops := rfl

@[simp] theorem length_answers (h : Heap) (ops : List Op) :
    (h.answers ops).length = ops.length := by
  induction ops generalizing h with
  | nil => rfl
  | cons op ops ih => simp [answers, ih]

/-- An operation that fails leaves the heap as it was. -/
theorem perform_of_error {h : Heap} {op : Op} {e : HeapError} (he : (h.perform op).1 = .error e) :
    (h.perform op).2 = h := by
  cases op with
  | malloc size => cases h₁ : h.allocate .block size <;> simp_all [perform]
  | array size => cases h₁ : h.allocate .array size <;> simp_all [perform]
  | free p => cases h₁ : h.release p <;> simp_all [perform]
  | drop id => simp [perform] at he
  | read p => cases h₁ : h.read p <;> simp_all [perform]
  | write p v => cases h₁ : h.write p v <;> simp_all [perform]

/-- No operation changes the limit. -/
theorem limit_perform (h : Heap) (op : Op) : (h.perform op).2.limit = h.limit := by
  cases op with
  | malloc size | array size =>
    simp only [perform]
    split
    · next ha => exact (eq_of_allocate ha).2.2.2.2
    · rfl
  | free p =>
    simp only [perform]
    split
    · next hr =>
      obtain ⟨-, -, -, -, -, rfl⟩ := release_eq_ok_iff.1 hr
      exact limit_drop h p.region
    · rfl
  | drop id => exact limit_drop h id
  | read p =>
    simp only [perform]
    split <;> rfl
  | write p v =>
    simp only [perform]
    split
    · next hw => exact (eq_of_write hw).2.2
    · rfl

/-- No history changes the limit. -/
theorem limit_after (h : Heap) (ops : List Op) : (h.after ops).limit = h.limit := by
  induction ops generalizing h with
  | nil => rfl
  | cons op ops ih => rw [after_cons, ih, limit_perform]

end MiniC.Heap
