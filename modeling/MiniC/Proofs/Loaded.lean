import MiniC.Proofs.Confinement
import MiniC.Proofs.Typing

/-!
# Loaded programs

What a parser guarantees of a program still holds when its names are resolved: the numbers of nodes
and declarations are identities, and the table tells the types that variables and parameters are
declared with.

Main definitions:

* `MiniC.Program.DeclaresAs`: the variables and parameters of a program, with their types.

Main results:

* `MiniC.Program.Made.forall_exprs`: what holds of every expression that is made holds of those of a
  program that is made;
* `MiniC.Program.Identified.resolve`: resolving keeps numbers identities;
* `MiniC.Program.Identified.declaresAs_iff`: the table tells the types of declarations.
-/

set_option autoImplicit false

namespace MiniC

/-! ### Expressions that are made -/

section

variable {P : Expr → Prop}

mutual

/-- The expressions in an expression that is made are made, too. -/
theorem Expr.Made.forall_all (hP : ∀ e c c', Expr.Made c c' e → P e) : (e : Expr) →
    {c c' : Supply} → e.Made c c' → ∀ x ∈ e.all, P x
  | .int _ _, c, c', h | .char _ _, c, c', h | .string _ _, c, c', h | .name _ _ _, c, c', h
  | .sizeof _ _, c, c', h => List.forall_mem_singleton.2 (hP _ c c' h)
  | .binary _ _ l r, _, _, .binary loc op hl hr =>
    List.forall_mem_cons.2 ⟨hP _ _ _ (.binary loc op hl hr),
      List.forall_mem_append.2 ⟨forall_all hP l hl, forall_all hP r hr⟩⟩
  | .unary _ _ x, _, _, .unary loc op hx =>
    List.forall_mem_cons.2 ⟨hP _ _ _ (.unary loc op hx), forall_all hP x hx⟩
  | .call _ _ args, _, _, .call loc f hargs =>
    List.forall_mem_cons.2 ⟨hP _ _ _ (.call loc f hargs), forall_allOf hP args hargs⟩
  | .subscript _ b i, _, _, .subscript loc hb hi =>
    List.forall_mem_cons.2 ⟨hP _ _ _ (.subscript loc hb hi),
      List.forall_mem_append.2 ⟨forall_all hP b hb, forall_all hP i hi⟩⟩
  | .cast _ _ x, _, _, .cast loc ht hx =>
    List.forall_mem_cons.2 ⟨hP _ _ _ (.cast loc ht hx), forall_all hP x hx⟩

theorem Expr.Made.forall_allOf (hP : ∀ e c c', Expr.Made c c' e → P e) : (es : List Expr) →
    {c c' : Supply} → Threaded Expr.Made c c' es → ∀ x ∈ Expr.allOf es, P x
  | [], _, _, _ => fun _ hx => absurd hx List.not_mem_nil
  | e :: es, _, _, .cons he hes =>
    List.forall_mem_append.2 ⟨forall_all hP e he, forall_allOf hP es hes⟩

end

variable (hP : ∀ e c c', Expr.Made c c' e → P e)

include hP in
theorem Expr.Made.forall_option {o : Option Expr} {c c' : Supply} (h : Possibly Expr.Made c c' o) :
    ∀ x ∈ Stmt.optionExprs o, P x := by
  cases h with
  | none => exact fun _ hx => absurd hx List.not_mem_nil
  | some h => exact Expr.Made.forall_all hP _ h

include hP in
theorem Variable.Made.forall_exprs {isGlobal : Bool} {base : BaseType} {c c' : Supply}
    {vs : List Variable} (h : Threaded (Variable.Made isGlobal base) c c' vs) :
    ∀ x ∈ vs.flatMap Variable.exprs, P x := by
  have hv : ∀ v ∈ vs, ∀ x ∈ v.exprs, P x :=
    h.forall_mem fun c c' v hv => by
      cases hv with
      | mk pointers name loc hlength hvoid hinit =>
        cases hinit with
        | none => exact fun _ hx => absurd hx List.not_mem_nil
        | some hinit => exact Expr.Made.forall_all hP _ hinit
  intro x hx
  obtain ⟨v, hmem, hxv⟩ := List.mem_flatMap.1 hx
  exact hv v hmem x hxv

mutual

/-- The expressions in a statement that is made are made. -/
theorem Stmt.Made.forall_exprs (hP : ∀ e c c', Expr.Made c c' e → P e) : (st : Stmt) →
    {c c' : Supply} → st.Made c c' → ∀ x ∈ st.exprs, P x
  | .declare _ _, _, _, .declare _ hvs => Variable.Made.forall_exprs hP hvs
  | .eval _ e, _, _, .eval _ he => Expr.Made.forall_all hP e he
  | .branch _ e t f, _, _, .branch _ he ht hf _ =>
    List.forall_mem_append.2 ⟨Expr.Made.forall_all hP e he,
      List.forall_mem_append.2 ⟨forall_exprs hP t ht, forall_exprsOfOption hP f hf⟩⟩
  | .whileLoop _ e b, _, _, .whileLoop _ he hb =>
    List.forall_mem_append.2 ⟨Expr.Made.forall_all hP e he, forall_exprs hP b hb⟩
  | .doLoop _ b e, _, _, .doLoop _ hb he =>
    List.forall_mem_append.2 ⟨Expr.Made.forall_all hP e he, forall_exprs hP b hb⟩
  | .forLoop _ i _ _ b, _, _, .forLoop _ hi _ he hs hb =>
    List.forall_mem_append.2 ⟨forall_exprsOfOption hP i hi,
      List.forall_mem_append.2 ⟨Expr.Made.forall_option hP he,
        List.forall_mem_append.2 ⟨Expr.Made.forall_option hP hs, forall_exprs hP b hb⟩⟩⟩
  | .ret _ _, _, _, .ret _ he => Expr.Made.forall_option hP he
  | .block _ ss, _, _, .block _ hss => forall_exprsOf hP ss hss
  | .leave _, _, _, _ | .next _, _, _, _ | .empty _, _, _, _ =>
    fun _ hx => absurd hx List.not_mem_nil

theorem Stmt.Made.forall_exprsOf (hP : ∀ e c c', Expr.Made c c' e → P e) : (ss : List Stmt) →
    {c c' : Supply} → Threaded Stmt.Made c c' ss → ∀ x ∈ Stmt.exprsOf ss, P x
  | [], _, _, _ => fun _ hx => absurd hx List.not_mem_nil
  | st :: ss, _, _, .cons hst hss =>
    List.forall_mem_append.2 ⟨forall_exprs hP st hst, forall_exprsOf hP ss hss⟩

theorem Stmt.Made.forall_exprsOfOption (hP : ∀ e c c', Expr.Made c c' e → P e) :
    (o : Option Stmt) → {c c' : Supply} → Possibly Stmt.Made c c' o →
    ∀ x ∈ Stmt.exprsOfOption o, P x
  | none, _, _, _ => fun _ hx => absurd hx List.not_mem_nil
  | some st, _, _, .some hst => forall_exprs hP st hst

end

include hP in
/-- What holds of every expression that is made holds of those of a program that is made. -/
theorem Program.Made.forall_exprs {named : Prop} {p : Program} (h : p.Made named) :
    ∀ e ∈ p.exprs, P e := by
  obtain ⟨items, nextNode, hitems, hg, hf⟩ := h
  have hitem : ∀ r ∈ items, (∀ x ∈ r.vars.flatMap Variable.exprs, P x) ∧
      ∀ f ∈ r.functions, ∀ x ∈ f.exprs, P x :=
    hitems.forall_mem fun c c' r hr => by
      cases hr with
      | globals hvs =>
        exact ⟨Variable.Made.forall_exprs hP hvs, by simp [Grammar.TopLevel.functions]⟩
      | function hfun =>
        refine ⟨by simp [Grammar.TopLevel.vars], List.forall_mem_singleton.2 ?_⟩
        cases hfun with
        | prototype => exact fun _ hx => absurd hx List.not_mem_nil
        | definition _ _ _ _ _ _ _ hbody => exact Stmt.Made.forall_exprsOf hP _ hbody
  rw [Program.exprs, hg, hf]
  refine List.forall_mem_append.2 ⟨fun x hx => ?_, fun x hx => ?_⟩
  · obtain ⟨v, hv, hx⟩ := List.mem_flatMap.1 hx
    obtain ⟨r, hr, hv⟩ := List.mem_flatMap.1 hv
    exact (hitem r hr).1 x (List.mem_flatMap.2 ⟨v, hv, hx⟩)
  · obtain ⟨f, hf, hx⟩ := List.mem_flatMap.1 hx
    obtain ⟨r, hr, hf⟩ := List.mem_flatMap.1 hf
    exact (hitem r hr).2 f hf x hx

end

namespace Program

/-! ### Identities -/

/-- The expressions of a resolved program are those of the program, whatever their scopes are. -/
theorem resolved_exprs (p : Program) : Resolved (fun _ => True) p.exprs p.resolve.exprs :=
  have hstable : Scope.Stable (fun _ => True) fun _ => True :=
    ⟨fun _ _ _ _ => trivial, fun _ _ _ _ => trivial, fun _ => trivial⟩
  exprs_resolve hstable trivial (fun _ _ => trivial) (fun _ _ _ _ => trivial)
    fun _ _ _ _ => trivial

/-- Resolving keeps numbers identities. -/
theorem Identified.resolve {p : Program} (h : p.Identified) : p.resolve.Identified where
  nodes_nodup := by
    rw [p.resolved_exprs.map_id_eq]
    exact h.nodes_nodup
  nodes_above := by
    refine p.resolved_exprs.forall_mem fun e he s _ x hx => ?_
    rw [Expr.inside, Expr.all_resolve, ← List.map_tail] at hx
    obtain ⟨y, hy, rfl⟩ := List.mem_map.1 hx
    rw [Expr.id_resolve, Expr.id_resolve]
    exact h.nodes_above e he y hy
  ids_nodup := by
    rw [declarationIds_resolve]
    exact h.ids_nodup
  mem_ids_iff id := by
    rw [declarationIds_resolve]
    exact h.mem_ids_iff id
  globals :=
    forall_of_map_eq (g := fun v => (v.id, v.name, v.type))
      (P := fun w => p.declaration? w.1 = some ⟨w.2.1, w.2.2, true⟩)
      (map_resolveGlobals (fun _ _ => rfl) _ p.globals) h.globals
  params f hf := by
    obtain ⟨g', hg', rfl⟩ := List.mem_map.1 hf
    obtain ⟨g, hg, rfl⟩ := List.mem_map.1 hg'
    rw [Function.params_resolve_tag]
    exact h.params g hg
  locals f hf := by
    obtain ⟨g', hg', rfl⟩ := List.mem_map.1 hf
    obtain ⟨g, hg, rfl⟩ := List.mem_map.1 hg'
    refine forall_of_map_eq (g := fun v => (v.id, v.name, v.type))
      (P := fun w => p.declaration? w.1 = some ⟨w.2.1, w.2.2, false⟩) ?_ (h.locals g hg)
    unfold Function.vars
    rw [Function.body_resolve_tag]
    cases g.body with
    | none => rfl
    | some b => exact Stmt.map_vars_resolve (fun _ _ => rfl) _ b

/-- The numbers of a loaded program are identities. -/
theorem identified_of_load {source : String} {p : Program} (h : (load source).result = .ok p) :
    p.Identified := by
  obtain ⟨q, hq, rfl⟩ := exists_read_of_load h
  exact (identified_of_read hq).resolve

/-! ### Declarations -/

/-- A variable or parameter of the program is declared with the number `id` and the type `t`. -/
def DeclaresAs (p : Program) (id : Nat) (t : Ty) : Prop :=
  (∃ v ∈ p.globals, v.id = id ∧ v.type = t) ∨
    ∃ f ∈ p.functions,
      (∃ q ∈ f.params, q.id = id ∧ q.type = t) ∨ ∃ v ∈ f.vars, v.id = id ∧ v.type = t

/-- What has a number is declared. -/
theorem exists_declaresAs_of_mem {p : Program} {id : Nat} (h : id ∈ p.declarationIds) :
    ∃ t, p.DeclaresAs id t := by
  rcases List.mem_append.1 h with h | h
  · obtain ⟨v, hv, rfl⟩ := List.mem_map.1 h
    exact ⟨v.type, .inl ⟨v, hv, rfl, rfl⟩⟩
  · obtain ⟨f, hf, h⟩ := List.mem_flatMap.1 h
    rcases List.mem_append.1 h with h | h
    · obtain ⟨q, hq, rfl⟩ := List.mem_map.1 h
      exact ⟨q.type, .inr ⟨f, hf, .inl ⟨q, hq, rfl, rfl⟩⟩⟩
    · obtain ⟨v, hv, rfl⟩ := List.mem_map.1 h
      exact ⟨v.type, .inr ⟨f, hf, .inr ⟨v, hv, rfl, rfl⟩⟩⟩

/-- What is declared has a number. -/
theorem DeclaresAs.mem {p : Program} {id : Nat} {t : Ty} (h : p.DeclaresAs id t) :
    id ∈ p.declarationIds := by
  rcases h with ⟨v, hv, rfl, -⟩ | ⟨f, hf, ⟨q, hq, rfl, -⟩ | ⟨v, hv, rfl, -⟩⟩
  · exact List.mem_append_left _ (List.mem_map_of_mem hv)
  · exact List.mem_append_right _ (List.mem_flatMap.2
      ⟨f, hf, List.mem_append_left _ (List.mem_map_of_mem hq)⟩)
  · exact List.mem_append_right _ (List.mem_flatMap.2
      ⟨f, hf, List.mem_append_right _ (List.mem_map_of_mem hv)⟩)

/-- The table tells the types that variables and parameters are declared with, and no others. -/
theorem Identified.declaresAs_iff {p : Program} (h : p.Identified) (id : Nat) (t : Ty) :
    p.DeclaresAs id t ↔ (p.declaration? id).map Declaration.type = some t := by
  have htold : ∀ u, p.DeclaresAs id u → (p.declaration? id).map Declaration.type = some u := by
    rintro u (⟨v, hv, rfl, rfl⟩ | ⟨f, hf, ⟨q, hq, rfl, rfl⟩ | ⟨v, hv, rfl, rfl⟩⟩)
    · rw [h.globals v hv]
      rfl
    · rw [h.params f hf q hq]
      rfl
    · rw [h.locals f hf v hv]
      rfl
  refine ⟨htold t, fun ht => ?_⟩
  obtain ⟨d, hd, -⟩ := Option.map_eq_some_iff.1 ht
  have hid : id ∈ p.declarationIds := (h.mem_ids_iff id).2 (Array.getElem?_eq_some_iff.1 hd).1
  obtain ⟨u, hu⟩ := exists_declaresAs_of_mem hid
  obtain rfl : u = t := Option.some.inj ((htold u hu).symm.trans ht)
  exact hu

end Program

end MiniC
