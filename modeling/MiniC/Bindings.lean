import MiniC.Value

/-!
# Bindings

The values of variables, by the number of their declaration.

Main definitions:

* `MiniC.Bindings`, `MiniC.Bindings.lookup?`: bindings, and the value of a variable;
* `MiniC.Bindings.bind`: gives a variable a value, whether it had one or not;
* `MiniC.Bindings.assign?`: replaces the value of a variable that has one.

Main results:

* `MiniC.Bindings.lookup?_bind`: a binding changes the value of its own variable only;
* `MiniC.Bindings.assign?_eq`: an assignment binds, where there is something to replace;
* `MiniC.Bindings.ids_assign?`, `MiniC.Bindings.isSome_lookup?_getD_assign?`: it changes nothing
  else about what is bound.
-/

set_option autoImplicit false

namespace MiniC

/-- The values of variables, each variable at most once. -/
structure Bindings where
  entries : List (Nat × Value)
deriving DecidableEq, Repr, Inhabited

namespace Bindings

/-- No bindings. -/
def empty : Bindings := ⟨[]⟩

/-- The value of a variable. -/
def lookup? (b : Bindings) (id : Nat) : Option Value := b.entries.lookup id

/-- Replaces the value of a variable where it stands; `none` if it has none. -/
def replace? (id : Nat) (v : Value) : List (Nat × Value) → Option (List (Nat × Value))
  | [] => none
  | e :: es =>
    if e.1 = id then some ((id, v) :: es) else
      match replace? id v es with
      | some es => some (e :: es)
      | none => none

/-- Gives a variable a value, whether it had one or not. -/
def bind (b : Bindings) (id : Nat) (v : Value) : Bindings :=
  match replace? id v b.entries with
  | some es => ⟨es⟩
  | none => ⟨(id, v) :: b.entries⟩

/-- Replaces the value of a variable that has one. -/
def assign? (b : Bindings) (id : Nat) (v : Value) : Option Bindings :=
  match replace? id v b.entries with
  | some es => some ⟨es⟩
  | none => none

/-- The number of variables that have a value. -/
def size (b : Bindings) : Nat := b.entries.length

/-- The variables that have a value. -/
def ids (b : Bindings) : List Nat := b.entries.map (·.1)

theorem replace?_eq_none_iff (id : Nat) (v : Value) (es : List (Nat × Value)) :
    replace? id v es = none ↔ es.lookup id = none := by
  induction es with
  | nil => simp [replace?]
  | cons e es ih =>
    by_cases h : e.1 = id
    · have : (id == e.1) = true := by simp [h]
      simp [replace?, h]
    · have : (id == e.1) = false := by simpa using Ne.symm h
      rw [replace?, if_neg h, List.lookup_cons, this]
      cases hr : replace? id v es with
      | none => simp [ih.1 hr]
      | some es => simpa [hr] using ih

theorem lookup_replace? {id : Nat} {v : Value} {es es' : List (Nat × Value)}
    (h : replace? id v es = some es') (other : Nat) :
    es'.lookup other = if other = id then some v else es.lookup other := by
  induction es generalizing es' with
  | nil => simp [replace?] at h
  | cons e es ih =>
    obtain ⟨k, w⟩ := e
    by_cases hk : k = id
    · subst hk
      simp only [replace?, if_true, Option.some.injEq] at h
      subst h
      by_cases ho : other = k
      · simp [ho]
      · have : (other == k) = false := by simpa using ho
        simp [List.lookup_cons, this, ho]
    · rw [replace?, if_neg hk] at h
      split at h
      · next es₂ h₂ =>
        simp only [Option.some.injEq] at h
        subst h
        rw [List.lookup_cons, List.lookup_cons, ih h₂]
        by_cases ho : other = k
        · subst ho; simp [hk]
        · have : (other == k) = false := by simpa using ho
          simp [this]
      · simp at h

/-- A binding changes the value of its own variable only. -/
theorem lookup?_bind (b : Bindings) (id other : Nat) (v : Value) :
    (b.bind id v).lookup? other = if other = id then some v else b.lookup? other := by
  unfold bind
  split
  · next es h => exact lookup_replace? h other
  · by_cases ho : other = id
    · simp [lookup?, ho]
    · have : (other == id) = false := by simpa using ho
      simp [lookup?, List.lookup_cons, this, ho]

@[simp] theorem lookup?_bind_self (b : Bindings) (id : Nat) (v : Value) :
    (b.bind id v).lookup? id = some v := by
  simp [lookup?_bind]

/-- An assignment binds where there is a value to replace, and fails elsewhere. -/
theorem assign?_eq (b : Bindings) (id : Nat) (v : Value) :
    b.assign? id v = if (b.lookup? id).isSome then some (b.bind id v) else none := by
  unfold assign? bind lookup?
  cases h : replace? id v b.entries with
  | none =>
    rw [(replace?_eq_none_iff id v b.entries).1 h]
    rfl
  | some es =>
    have : b.entries.lookup id ≠ none := fun hn =>
      by simp [(replace?_eq_none_iff id v b.entries).2 hn] at h
    cases hl : b.entries.lookup id with
    | none => exact absurd hl this
    | some w => rfl

theorem map_fst_replace? {id : Nat} {v : Value} {es es' : List (Nat × Value)}
    (h : replace? id v es = some es') : es'.map (·.1) = es.map (·.1) := by
  induction es generalizing es' with
  | nil => simp [replace?] at h
  | cons e es ih =>
    rw [replace?] at h
    split at h
    · next he =>
      cases h
      simp [he]
    · split at h
      · next es₂ h₂ =>
        cases h
        simp [ih h₂]
      · cases h

/-- An assignment gives a value to no other variables than had one. -/
theorem ids_assign? {b b' : Bindings} {id : Nat} {v : Value} (h : b.assign? id v = some b') :
    b'.ids = b.ids := by
  unfold assign? at h
  split at h
  · next es he =>
    cases h
    exact map_fst_replace? he
  · cases h

theorem ids_getD_assign? (b : Bindings) (id : Nat) (v : Value) :
    ((b.assign? id v).getD b).ids = b.ids := by
  cases h : b.assign? id v with
  | none => rfl
  | some b' => exact ids_assign? h

@[simp] theorem lookup?_empty (id : Nat) : empty.lookup? id = none := rfl

/-- Just the variables that have a value can be looked up. -/
theorem isSome_lookup?_iff (b : Bindings) (id : Nat) : (b.lookup? id).isSome ↔ id ∈ b.ids := by
  simp [lookup?, ids, List.lookup_isSome_iff]

/-- An assignment replaces a value where there is one. -/
theorem isSome_lookup?_getD_assign? (b : Bindings) (id other : Nat) (v : Value) :
    (((b.assign? id v).getD b).lookup? other).isSome = (b.lookup? other).isSome := by
  rw [Bool.eq_iff_iff, isSome_lookup?_iff, isSome_lookup?_iff, ids_getD_assign?]

end Bindings

end MiniC
