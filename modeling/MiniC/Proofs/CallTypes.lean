import MiniC.Execution
import MiniC.Proofs.Numbering
import MiniC.Proofs.Typing

/-!
# Types of calls

A name can be declared as a function more than once, with a body or without.  The type of a call is
what the first declaration of that name returns; what is called is the definition of that name, or
the last prototype if there is none.  So if these return different types, a call has a type that is
not the one of what it yields, and sums with its value move by the wrong number of bytes.

Main results:

* `MiniC.Program.isDefinition_or_of_function?`: a name that is defined calls a definition;
* `MiniC.Program.Made.intrinsic_resolve_eq_none`: no function stands for a built-in of another name;
* `MiniC.Program.call_type_eq_iff`: the types of calls, and what they call.
-/

set_option autoImplicit false

namespace MiniC

namespace Program

/-- A list of functions in which a name is defined yields a definition. -/
theorem isDefinition_or_of_calledFrom {name : String} {fs : List Function} {index : Nat}
    {found : Option (Nat × Function)} {i : Nat} {f : Function}
    (h : calledFrom name index found fs = some (i, f)) :
    f.isDefinition = true ∨ ∀ g ∈ fs, g.name = name → g.isDefinition = false := by
  induction fs generalizing index found with
  | nil => exact .inr fun g hg => absurd hg List.not_mem_nil
  | cons g gs ih =>
    simp only [calledFrom] at h
    split at h
    · split at h
      · next hdef =>
        cases h
        exact .inl hdef
      · next hdef =>
        refine (ih h).imp_right fun hgs => List.forall_mem_cons.2 ⟨?_, hgs⟩
        intro _
        exact Bool.eq_false_iff.2 hdef
    · next hname =>
      refine (ih h).imp_right fun hgs => List.forall_mem_cons.2 ⟨?_, hgs⟩
      intro hg
      exact absurd hg hname

/-- A name that is defined calls a definition. -/
theorem isDefinition_or_of_function? {p : Program} {name : String} {f : Function}
    (h : p.function? name = some f) :
    f.isDefinition = true ∨ ∀ g ∈ p.functions, g.name = name → g.isDefinition = false := by
  obtain ⟨⟨i, g⟩, hcalled, rfl⟩ := Option.map_eq_some_iff.1 h
  exact isDefinition_or_of_calledFrom hcalled

/-- What is called is among the functions of its name, so there is a first one. -/
theorem exists_find?_of_function? {p : Program} {name : String} {f : Function}
    (h : p.function? name = some f) :
    ∃ first, p.functions.find? (fun g => g.name == name) = some first := by
  rw [← Option.isSome_iff_exists, List.find?_isSome]
  exact ⟨f, mem_of_function? h, beq_iff_eq.2 (name_of_function? h)⟩

/-- No function that is read stands for a built-in. -/
theorem Made.intrinsic_eq_none {named : Prop} {p : Program} (h : p.Made named) :
    ∀ f ∈ p.functions, f.intrinsic = none := by
  obtain ⟨items, nextNode, hitems, -, hfs⟩ := h
  intro f hf
  rw [hfs] at hf
  obtain ⟨r, hr, hfr⟩ := List.mem_flatMap.1 hf
  refine hitems.forall_mem (P := fun r => ∀ f ∈ r.functions, f.intrinsic = none) ?_ r hr f hfr
  intro c c' r hr f hf
  cases hr with
  | globals => cases hf
  | function hmade =>
    obtain rfl := List.mem_singleton.1 hf
    cases hmade with
    | prototype => rfl
    | definition => rfl

/-- In a resolved program no function stands for a built-in but a prototype that bears its name. -/
theorem Made.intrinsic_resolve_eq_none {named : Prop} {p : Program} (h : p.Made named)
    {f : Function} (hf : f ∈ p.resolve.functions) (hname : Intrinsic.ofName? f.name = none) :
    f.intrinsic = none := by
  obtain ⟨g', hg', rfl⟩ := List.mem_map.1 hf
  obtain ⟨g, hg, rfl⟩ := List.mem_map.1 hg'
  have hread := h.intrinsic_eq_none g hg
  cases hdef : g.isDefinition with
  | true => simpa [Function.resolve, Function.tag, hdef] using hread
  | false => simpa [Function.resolve, Function.tag, hdef] using hname

/-- The type of a call is what the first function of its name returns. -/
theorem type_of_call {p : Program} {n : Node} {callee : String} {args : List Expr}
    {first : Function} (hcall : Expr.call n callee args ∈ p.resolve.exprs)
    (hfirst : p.resolve.functions.find? (fun g => g.name == callee) = some first) :
    n.type = some first.returnType := by
  have htype : n.type = some (p.resolve.scope.callType callee) := p.typed_resolve _ hcall
  rw [htype, Scope.callType, scope, hfirst]

/-- A name that no built-in bears calls the function of that name. -/
theorem callNamed_of_function? {p : Program} {name : String} {f : Function}
    (hf : p.function? name = some f) (hintrinsic : f.intrinsic = none)
    (hname : Intrinsic.ofName? name = none)
    (call : Function → List Value → Location → Eval Value) (args : List Value) (loc : Location) :
    p.callNamed call name args loc = call f args loc := by
  simp [callNamed, hf, hintrinsic, hname]

/-- A call in a program that is read and resolved, of a function that bears the name of no built-in:
what is called is a definition, if there is one, but the type of the call is what the first function
of its name returns.  So it is the type of what is called exactly if these two return the same. -/
theorem call_type_eq_iff {source : String} {p : Program} (hp : (load source).result = .ok p)
    {n : Node} {callee : String} {args : List Expr} (hcall : Expr.call n callee args ∈ p.exprs)
    (hname : Intrinsic.ofName? callee = none) {f : Function} (hf : p.function? callee = some f) :
    (∀ call values loc, p.callNamed call callee values loc = call f values loc) ∧
      (f.isDefinition = true ∨ ∀ g ∈ p.functions, g.name = callee → g.isDefinition = false) ∧
      ∃ first, p.functions.find? (fun g => g.name == callee) = some first ∧
        n.type = some first.returnType ∧
        (n.type = some f.returnType ↔ first.returnType = f.returnType) := by
  obtain ⟨q, hq, rfl⟩ := exists_read_of_load hp
  obtain ⟨first, hfirst⟩ := exists_find?_of_function? hf
  have htype := type_of_call hcall hfirst
  have hintrinsic : f.intrinsic = none := by
    apply (made_of_read hq).intrinsic_resolve_eq_none (mem_of_function? hf)
    rw [name_of_function? hf]
    exact hname
  refine ⟨?_, isDefinition_or_of_function? hf, first, hfirst, htype, ?_⟩
  · intro call values loc
    exact callNamed_of_function? hf hintrinsic hname call values loc
  · rw [htype, Option.some_inj]

/-- The types of all calls of a name. -/
def callTypes (p : Program) (callee : String) : List (Option Ty) :=
  p.exprs.filterMap fun e =>
    match e with
    | .call n f _ => if f = callee then some n.type else none
    | _ => none

theorem exists_call_of_mem_callTypes {p : Program} {callee : String} {t : Option Ty}
    (h : t ∈ p.callTypes callee) :
    ∃ n args, Expr.call n callee args ∈ p.exprs ∧ n.type = t := by
  obtain ⟨e, he, ht⟩ := List.mem_filterMap.1 h
  cases e with
  | call n f args =>
    dsimp only at ht
    split at ht
    · next hf =>
      subst hf
      exact ⟨n, args, he, Option.some.inj ht⟩
    · cases ht
  | _ => cases ht

/-- A function that is declared before its definition, and with the same type. -/
def announced : String :=
  "int g[2]; int *f(); int *f() { return g; } int main() { g[1] = 7; return *(f() + 1); }"

/-- Its call has the type of what is called. -/
theorem call_type_eq_iff_announced :
    ∃ p n args f, (load announced).result = .ok p ∧ Expr.call n "f" args ∈ p.exprs ∧
      Intrinsic.ofName? "f" = none ∧ p.function? "f" = some f ∧ n.type = some f.returnType := by
  have hshown : ((load announced).result.toOption.map fun p =>
      (p.callTypes "f", (p.function? "f").map Function.returnType,
        (p.functions.find? fun g => g.name == "f").map Function.returnType)) =
      some ([some Ty.int.addPointer], some Ty.int.addPointer, some Ty.int.addPointer) := by
    decide +kernel
  obtain ⟨p, hp, hall⟩ := Option.map_eq_some_iff.1 hshown
  have hload := eq_ok_of_toOption hp
  obtain ⟨htypes, hrest⟩ := Prod.mk.inj hall
  obtain ⟨hcalled, hfirst⟩ := Prod.mk.inj hrest
  obtain ⟨n, args, hcall, -⟩ := exists_call_of_mem_callTypes (htypes ▸ List.mem_singleton_self _)
  obtain ⟨f, hf, hreturn⟩ := Option.map_eq_some_iff.1 hcalled
  have hname : Intrinsic.ofName? "f" = none := by decide
  obtain ⟨-, -, first, hfind, -, hiff⟩ := call_type_eq_iff hload hcall hname hf
  rw [hfind] at hfirst
  exact ⟨p, n, args, f, hload, hcall, hname, hf,
    hiff.2 ((Option.some.inj hfirst).trans hreturn.symm)⟩

/-- A function that is declared with another type than it is defined with. -/
def misannounced : String :=
  "int g[2]; char *f(); int *f() { return g; } int main() { g[1] = 7; return *(f() + 1); }"

/-- Its call has the type of the prototype, though the definition is called. -/
theorem misannounced_differs :
    ∃ p n args f, (load misannounced).result = .ok p ∧ Expr.call n "f" args ∈ p.exprs ∧
      Intrinsic.ofName? "f" = none ∧ p.function? "f" = some f ∧ f.isDefinition = true ∧
      n.type = some Ty.char.addPointer ∧ f.returnType = Ty.int.addPointer := by
  have hshown : ((load misannounced).result.toOption.map fun p =>
      (p.callTypes "f", (p.function? "f").map fun f => (f.isDefinition, f.returnType))) =
      some ([some Ty.char.addPointer], some (true, Ty.int.addPointer)) := by
    decide +kernel
  obtain ⟨p, hp, hall⟩ := Option.map_eq_some_iff.1 hshown
  obtain ⟨htypes, hcalled⟩ := Prod.mk.inj hall
  obtain ⟨n, args, hcall, htype⟩ :=
    exists_call_of_mem_callTypes (htypes ▸ List.mem_singleton_self _)
  obtain ⟨f, hf, hshape⟩ := Option.map_eq_some_iff.1 hcalled
  obtain ⟨hdef, hreturn⟩ := Prod.mk.inj hshape
  exact ⟨p, n, args, f, eq_ok_of_toOption hp, hcall, by decide, hf, hdef, htype, hreturn⟩

end Program

end MiniC
