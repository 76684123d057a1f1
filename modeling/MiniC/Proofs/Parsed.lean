import MiniC.Proofs.Numbering

/-!
# Parsed programs

What holds of every program that a text says, whether its names are resolved or not: its table
describes its variables, the globals as global ones and those in functions as local ones, and the
first clause of a `for` is a declaration or an expression, if there is one.

Main definitions:

* `MiniC.Program.WellFormed`: a table that describes its program, and plain loops;
* `MiniC.Program.ofText`: the program that a text is.

Main results:

* `MiniC.Program.WellFormed.resolve`: resolving keeps programs well-formed;
* `MiniC.Program.Parsed.wellFormed`: parsed programs are well-formed.
-/

set_option autoImplicit false

namespace MiniC

/-! ### Well-formed programs -/

/-- The table of a program describes its variables, and every `for` begins as a parser reads it. -/
structure Program.WellFormed (p : Program) : Prop where
  globals : ∀ v ∈ p.globals, p.isGlobal? v.id = some true
  locals : ∀ f ∈ p.functions, ∀ v ∈ f.vars, p.isGlobal? v.id = some false
  loops : ∀ f ∈ p.functions, ∀ s ∈ f.body, s.hasPlainLoops = true

namespace Stmt

mutual

/-- The loops of a statement that is made are plain. -/
theorem Made.hasPlainLoops : (st : Stmt) → {c c' : Supply} → st.Made c c' →
    st.hasPlainLoops = true
  | .declare _ _, _, _, _ | .eval _ _, _, _, _ | .ret _ _, _, _, _ | .leave _, _, _, _
  | .next _, _, _, _ | .empty _, _, _, _ => rfl
  | .branch _ _ t f, _, _, .branch _ _ ht hf _ =>
    Bool.and_eq_true_iff.2 ⟨hasPlainLoops t ht, hasPlainLoopsOption f hf⟩
  | .whileLoop _ _ b, _, _, .whileLoop _ _ hb => hasPlainLoops b hb
  | .doLoop _ b _, _, _, .doLoop _ hb _ => hasPlainLoops b hb
  | .forLoop _ _ _ _ b, _, _, .forLoop _ _ hi _ _ hb =>
    Bool.and_eq_true_iff.2 ⟨(Option.all_eq_true _ _).2 hi, hasPlainLoops b hb⟩
  | .block _ ss, _, _, .block _ hss => hasPlainLoopsAll ss hss

theorem Made.hasPlainLoopsAll : (ss : List Stmt) → {c c' : Supply} → Threaded Made c c' ss →
    allHavePlainLoops ss = true
  | [], _, _, _ => rfl
  | st :: ss, _, _, .cons hst hss =>
    Bool.and_eq_true_iff.2 ⟨hasPlainLoops st hst, hasPlainLoopsAll ss hss⟩

theorem Made.hasPlainLoopsOption : (o : Option Stmt) → {c c' : Supply} → Possibly Made c c' o →
    optionHasPlainLoops o = true
  | none, _, _, _ => rfl
  | some st, _, _, .some hst => hasPlainLoops st hst

end

end Stmt

/-- The loops in the body of a function that is made are plain. -/
theorem Function.Made.hasPlainLoops {named : Prop} {f : Function} {c c' : Supply}
    (h : f.Made named c c') :
    ∀ s ∈ f.body, s.hasPlainLoops = true := by
  intro s hs
  cases h with
  | prototype => cases hs
  | definition name base pointers loc bodyLoc _ _ hbody =>
    cases hs
    exact Stmt.Made.hasPlainLoopsAll _ hbody

namespace Program

/-- A program that is made is well-formed. -/
theorem Made.wellFormed {named : Prop} {p : Program} (h : p.Made named) : p.WellFormed := by
  have hids := h.identified
  obtain ⟨items, nextNode, hitems, -, hf⟩ := h
  refine ⟨fun v hv => ?_, fun f hfs v hv => ?_, fun f hfs => ?_⟩
  · exact congrArg (Option.map Declaration.isGlobal) (hids.globals v hv)
  · exact congrArg (Option.map Declaration.isGlobal) (hids.locals f hfs v hv)
  · rw [hf] at hfs
    obtain ⟨r, hr, hfr⟩ := List.mem_flatMap.1 hfs
    refine hitems.forall_mem (P := fun r => ∀ f ∈ r.functions, ∀ s ∈ f.body, s.hasPlainLoops = true)
      (fun c c' r hr f hf => ?_) r hr f hfr
    cases hr with
    | globals => cases hf
    | function hmade =>
      obtain rfl := List.mem_singleton.1 hf
      exact hmade.hasPlainLoops

end Program

/-! ### Resolving keeps variables and loops -/

section

variable {β : Type} {g : Variable → β} (hg : ∀ s v, g (Variable.resolve s v) = g v)

include hg in
theorem Variable.map_resolveAll (s : Scope) (vs : List Variable) :
    (resolveAll s vs).1.map g = vs.map g := by
  induction vs generalizing s with
  | nil => rfl
  | cons v vs ih =>
    rw [resolveAll, List.map_cons, List.map_cons, ih]
    exact congrArg (· :: vs.map g) (hg s v)

mutual

/-- Resolving a statement keeps its variables, as far as their initial values are not looked at. -/
theorem Stmt.map_vars_resolve (hg : ∀ s v, g (Variable.resolve s v) = g v) (s : Scope) :
    (st : Stmt) → (st.resolve s).1.vars.map g = st.vars.map g
  | .declare _ vs => Variable.map_resolveAll hg s vs
  | .eval _ _ | .ret _ _ | .leave _ | .next _ | .empty _ => rfl
  | .branch _ _ t e => by
    simp only [Stmt.resolve, Stmt.vars, List.map_append, Stmt.map_vars_resolve hg _ t,
      Stmt.map_vars_resolveOption hg _ e]
  | .whileLoop _ _ b => Stmt.map_vars_resolve hg s b
  | .doLoop _ b _ => Stmt.map_vars_resolve hg s b
  | .forLoop _ i _ _ b => by
    simp only [Stmt.resolve, Stmt.vars, List.map_append, Stmt.map_vars_resolve hg _ b,
      Stmt.map_vars_resolveOption hg _ i]
  | .block _ ss => Stmt.map_vars_resolveAll hg s ss

theorem Stmt.map_vars_resolveAll (hg : ∀ s v, g (Variable.resolve s v) = g v) (s : Scope) :
    (ss : List Stmt) → (Stmt.varsOf (Stmt.resolveAll s ss).1).map g = (Stmt.varsOf ss).map g
  | [] => rfl
  | st :: ss => by
    simp only [Stmt.resolveAll, Stmt.varsOf, List.map_append, Stmt.map_vars_resolve hg _ st,
      Stmt.map_vars_resolveAll hg _ ss]

theorem Stmt.map_vars_resolveOption (hg : ∀ s v, g (Variable.resolve s v) = g v) (s : Scope) :
    (o : Option Stmt) →
    (Stmt.varsOfOption (Stmt.resolveOption s o).1).map g = (Stmt.varsOfOption o).map g
  | none => rfl
  | some st => Stmt.map_vars_resolve hg s st

end

include hg in
theorem Program.map_resolveGlobals (s : Scope) (vs : List Variable) :
    (resolveGlobals s vs).1.map g = vs.map g := by
  induction vs generalizing s with
  | nil => rfl
  | cons v vs ih =>
    rw [resolveGlobals, List.map_cons, List.map_cons, ih]
    exact congrArg (· :: vs.map g) (hg s v)

end

namespace Stmt

theorem isClause_resolve (s : Scope) (st : Stmt) : (st.resolve s).1.isClause = st.isClause := by
  cases st <;> rfl

mutual

/-- Resolving a statement keeps its loops plain, or not. -/
theorem hasPlainLoops_resolve (s : Scope) : (st : Stmt) →
    (st.resolve s).1.hasPlainLoops = st.hasPlainLoops
  | declare _ _ | eval _ _ | ret _ _ | leave _ | next _ | empty _ => rfl
  | branch _ _ t e => by
    simp only [resolve, hasPlainLoops, hasPlainLoops_resolve _ t, hasPlainLoops_option _ e]
  | whileLoop _ _ b => hasPlainLoops_resolve s b
  | doLoop _ b _ => hasPlainLoops_resolve s b
  | forLoop _ none _ _ b => hasPlainLoops_resolve s b
  | forLoop _ (some i) _ _ b => by
    simp only [resolve, resolveOption, hasPlainLoops, hasPlainLoops_resolve _ b, Option.all_some,
      isClause_resolve]
  | block _ ss => hasPlainLoops_resolveAll s ss

theorem hasPlainLoops_resolveAll (s : Scope) : (ss : List Stmt) →
    allHavePlainLoops (resolveAll s ss).1 = allHavePlainLoops ss
  | [] => rfl
  | st :: ss => by
    simp only [resolveAll, allHavePlainLoops, hasPlainLoops_resolve _ st,
      hasPlainLoops_resolveAll _ ss]

theorem hasPlainLoops_option (s : Scope) : (o : Option Stmt) →
    optionHasPlainLoops (resolveOption s o).1 = optionHasPlainLoops o
  | none => rfl
  | some st => hasPlainLoops_resolve s st

end

end Stmt

theorem Function.body_resolve_tag (s : Scope) (f : Function) :
    (f.tag.resolve s).body = f.body.map fun b => (b.resolve (s.enter f.tag.params)).1 := by
  have hb : f.tag.body = f.body := by
    unfold tag
    split <;> rfl
  rw [← hb]
  rfl

namespace Program

/-- What holds of some variables holds of others that are the same as far as `g` looks at them. -/
theorem forall_of_map_eq {β : Type} {g : Variable → β} {vs ws : List Variable} {P : β → Prop}
    (h : ws.map g = vs.map g) (hv : ∀ v ∈ vs, P (g v)) : ∀ w ∈ ws, P (g w) := by
  intro w hw
  have hmem := List.mem_map_of_mem (f := g) hw
  rw [h] at hmem
  obtain ⟨v, hvs, heq⟩ := List.mem_map.1 hmem
  exact heq ▸ hv v hvs

/-- Names are resolved in bodies, and functions are tagged; neither touches declarations. -/
theorem WellFormed.resolve {p : Program} (h : p.WellFormed) : p.resolve.WellFormed := by
  have body : ∀ f ∈ p.resolve.functions, ∃ g ∈ p.functions, ∃ s,
      f.body = g.body.map fun b => (Stmt.resolve s b).1 := by
    intro f hf
    obtain ⟨g', hg', rfl⟩ := List.mem_map.1 hf
    obtain ⟨g, hg, rfl⟩ := List.mem_map.1 hg'
    exact ⟨g, hg, _, Function.body_resolve_tag _ g⟩
  refine ⟨forall_of_map_eq (P := fun id => p.isGlobal? id = some true)
    (map_resolveGlobals (fun _ _ => rfl) _ p.globals) h.globals, ?_, ?_⟩
  · intro f hf
    obtain ⟨g, hg, s, hb⟩ := body f hf
    refine forall_of_map_eq (P := fun id => p.isGlobal? id = some false) ?_ (h.locals g hg)
    unfold Function.vars
    rw [hb]
    cases g.body with
    | none => rfl
    | some b => exact Stmt.map_vars_resolve (fun _ _ => rfl) s b
  · intro f hf st hst
    obtain ⟨g, hg, s, hb⟩ := body f hf
    rw [hb] at hst
    obtain ⟨b, hgb, rfl⟩ := Option.map_eq_some_iff.1 hst
    rw [Stmt.hasPlainLoops_resolve]
    exact h.loops g hg b hgb

/-- The table of a parsed program describes its variables, and its loops are plain. -/
theorem Parsed.wellFormed {p : Program} (h : p.Parsed) : p.WellFormed := by
  obtain ⟨source, q, hq, hp⟩ := h
  have hwf := (made_of_read hq).wellFormed
  rcases hp with rfl | rfl
  · exact hwf
  · exact hwf.resolve

/-- The program that a text says; the empty one if it says none. -/
def readOrEmpty (source : String) : Program :=
  match (read source).result with
  | .ok p => p
  | .error _ => ⟨[], [], #[]⟩

/-- The program that a text is, with its names resolved; the empty one if it is none. -/
def ofText (source : String) : Program := (readOrEmpty source).resolve

/-- Whatever text is read, it gives a parsed program: the empty one is the program of a text,
too. -/
theorem parsed_ofText (source : String) : (ofText source).Parsed := by
  unfold ofText readOrEmpty
  split
  · next p hp => exact ⟨source, p, hp, .inr rfl⟩
  · exact ⟨"", ⟨[], [], #[]⟩, rfl, .inl rfl⟩

end Program

end MiniC
