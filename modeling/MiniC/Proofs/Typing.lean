import Mathlib.Data.List.Forall2
import MiniC.Resolution

/-!
# Static types of resolved programs

Resolving links names and determines types in one walk, under scopes that change from declaration to
declaration.  The expressions of a resolved program are those of the program, one by one, each
resolved in one of these scopes; so what declarations leave true of scopes tells something of every
expression.

What types depend on does not change on that walk: the table of all declarations and the functions.
So one assignment of types to links and to callees tells the type of every expression of a resolved
program from the types of its parts.

Main definitions:

* `MiniC.Resolved`: expressions, each resolved in some scope;
* `MiniC.Scope.Stable`: what declarations leave true of scopes;
* `MiniC.Expr.ruleType`: the type of an expression by the rule for its kind;
* `MiniC.Scope.Gives`: the types that a scope gives to links and to callees.

Main results:

* `MiniC.Program.exprs_resolve`: the expressions of a resolved program are those of the program;
* `MiniC.Program.typed_resolve`: the types of all expressions of a resolved program follow the
  rules.
-/

set_option autoImplicit false

namespace MiniC

/-! ### Resolved expressions -/

/-- The expressions `es'` are the expressions `es`, each resolved in a scope with the property
`Q`. -/
def Resolved (Q : Scope → Prop) (es es' : List Expr) : Prop :=
  List.Forall₂ (fun e e' => ∃ s, Q s ∧ e' = e.resolve s) es es'

/-- A property of scopes that declarations of certain numbers leave true, those of globals and those
in functions. -/
structure Scope.Stable (declared : Nat → Prop) (Q : Scope → Prop) : Prop where
  bind {s : Scope} (x : String) {id : Nat} : declared id → Q s → Q (s.bind x id)
  bindGlobal {s : Scope} (x : String) {id : Nat} : declared id → Q s → Q (s.bindGlobal x id)
  leave {s : Scope} : Q s → Q { s with locals := [] }

/-- The parameters of a function are declarations. -/
theorem Scope.Stable.enter {declared : Nat → Prop} {Q : Scope → Prop}
    (hQ : Scope.Stable declared Q) {s : Scope} (hs : Q s) {params : List Parameter}
    (hparams : ∀ q ∈ params, declared q.id) : Q (s.enter params) := by
  have hleft := hQ.leave hs
  unfold Scope.enter
  generalize ({ s with locals := [] } : Scope) = t at hleft
  induction params generalizing t with
  | nil => exact hleft
  | cons q params ih =>
    obtain ⟨hq, hrest⟩ := List.forall_mem_cons.1 hparams
    rw [List.foldl_cons]
    apply ih hrest
    split
    · exact hleft
    · exact hQ.bind q.name hq hleft

namespace Resolved

variable {Q : Scope → Prop} {es es' fs fs' : List Expr}

theorem nil : Resolved Q [] [] := List.Forall₂.nil

theorem append (h : Resolved Q es es') (h' : Resolved Q fs fs') :
    Resolved Q (es ++ fs) (es' ++ fs') :=
  List.rel_append h h'

/-- What holds of resolved expressions holds of all of them. -/
theorem forall_mem (h : Resolved Q es es') {P : Expr → Prop}
    (hP : ∀ e ∈ es, ∀ s, Q s → P (e.resolve s)) : ∀ e' ∈ es', P e' := by
  induction h with
  | nil => exact fun _ he => absurd he List.not_mem_nil
  | cons hr _ ih =>
    obtain ⟨s, hs, rfl⟩ := hr
    obtain ⟨he, hes⟩ := List.forall_mem_cons.1 hP
    exact List.forall_mem_cons.2 ⟨he s hs, ih hes⟩

/-- Resolving keeps the numbers of nodes. -/
theorem map_id_eq (h : Resolved Q es es') : es'.map Expr.id = es.map Expr.id := by
  induction h with
  | nil => rfl
  | cons hr _ ih =>
    obtain ⟨s, -, rfl⟩ := hr
    rw [List.map_cons, List.map_cons, ih, Expr.id_resolve]

end Resolved

namespace Expr

mutual

/-- The expressions in a resolved expression are those in the expression, each resolved. -/
theorem all_resolve (s : Scope) : (e : Expr) → (e.resolve s).all = e.all.map (resolve s)
  | int _ _ | char _ _ | string _ _ | name _ _ _ | sizeof _ _ => rfl
  | binary _ _ l r => by
    rw [all, List.map_cons, List.map_append, ← all_resolve s l, ← all_resolve s r]
    rfl
  | unary _ _ x | cast _ _ x => by
    rw [all, List.map_cons, ← all_resolve s x]
    rfl
  | call _ _ args => by
    rw [all, List.map_cons, ← allOf_resolveAll s args]
    rfl
  | subscript _ b i => by
    rw [all, List.map_cons, List.map_append, ← all_resolve s b, ← all_resolve s i]
    rfl

theorem allOf_resolveAll (s : Scope) : (es : List Expr) →
    allOf (resolveAll s es) = (allOf es).map (resolve s)
  | [] => rfl
  | e :: es => by
    rw [allOf, List.map_append, ← all_resolve s e, ← allOf_resolveAll s es]
    rfl

end

variable {Q : Scope → Prop} {s : Scope}

theorem resolved_all (hs : Q s) (e : Expr) : Resolved Q e.all (e.resolve s).all := by
  rw [all_resolve]
  exact List.forall₂_map_right_iff.2 (List.forall₂_same.2 fun _ _ => ⟨s, hs, rfl⟩)

theorem resolved_optionExprs (hs : Q s) (o : Option Expr) :
    Resolved Q (Stmt.optionExprs o) (Stmt.optionExprs (o.map (resolve s))) := by
  cases o with
  | none => exact .nil
  | some e => exact resolved_all hs e

end Expr

section

variable {declared : Nat → Prop} {Q : Scope → Prop} (hQ : Scope.Stable declared Q)

theorem Variable.resolved_exprs {s : Scope} (hs : Q s) (v : Variable) :
    Resolved Q v.exprs (v.resolve s).exprs := by
  unfold Variable.exprs Variable.resolve
  cases v.init with
  | none => exact .nil
  | some e => exact Expr.resolved_all hs e

include hQ in
/-- Declared variables are resolved one after the other, each behind the declaration of the one
before it. -/
theorem Variable.resolved_resolveAll {s : Scope} (hs : Q s) {vs : List Variable}
    (hv : ∀ v ∈ vs, declared v.id) :
    Resolved Q (vs.flatMap Variable.exprs) ((resolveAll s vs).1.flatMap Variable.exprs) ∧
      Q (resolveAll s vs).2 := by
  induction vs generalizing s with
  | nil => exact ⟨.nil, hs⟩
  | cons v vs ih =>
    obtain ⟨hfirst, hrest⟩ := List.forall_mem_cons.1 hv
    obtain ⟨hvs, hbehind⟩ := ih (hQ.bind v.name hfirst hs) hrest
    exact ⟨(v.resolved_exprs hs).append hvs, hbehind⟩

namespace Stmt

mutual

/-- The expressions in a resolved statement are those in the statement, each resolved, and the scope
behind the statement is as good as the one before it. -/
theorem resolved_resolve (hQ : Scope.Stable declared Q) {s : Scope} (hs : Q s) :
    (st : Stmt) → (∀ v ∈ st.vars, declared v.id) →
    Resolved Q st.exprs (st.resolve s).1.exprs ∧ Q (st.resolve s).2
  | declare _ _, hv => Variable.resolved_resolveAll hQ hs hv
  | eval _ e, _ => ⟨e.resolved_all hs, hs⟩
  | branch _ c t e, hv => by
    obtain ⟨ht, hs₁⟩ := resolved_resolve hQ hs t fun v h => hv v (List.mem_append_left _ h)
    obtain ⟨he, hs₂⟩ := resolved_resolveOption hQ hs₁ e fun v h => hv v (List.mem_append_right _ h)
    exact ⟨(c.resolved_all hs).append (ht.append he), hs₂⟩
  | whileLoop _ c b, hv => by
    obtain ⟨hb, hs₁⟩ := resolved_resolve hQ hs b hv
    exact ⟨(c.resolved_all hs).append hb, hs₁⟩
  | doLoop _ b c, hv => by
    obtain ⟨hb, hs₁⟩ := resolved_resolve hQ hs b hv
    exact ⟨(c.resolved_all hs).append hb, hs₁⟩
  | forLoop _ i c e b, hv => by
    obtain ⟨hi, hs₁⟩ := resolved_resolveOption hQ hs i fun v h => hv v (List.mem_append_left _ h)
    obtain ⟨hb, hs₂⟩ := resolved_resolve hQ hs₁ b fun v h => hv v (List.mem_append_right _ h)
    exact ⟨hi.append ((Expr.resolved_optionExprs hs₁ c).append
      ((Expr.resolved_optionExprs hs₁ e).append hb)), hs₂⟩
  | ret _ e, _ => ⟨Expr.resolved_optionExprs hs e, hs⟩
  | block _ body, hv => resolved_resolveAll hQ hs body hv
  | leave _, _ | next _, _ | empty _, _ => ⟨.nil, hs⟩

theorem resolved_resolveAll (hQ : Scope.Stable declared Q) {s : Scope} (hs : Q s) :
    (sts : List Stmt) → (∀ v ∈ varsOf sts, declared v.id) →
    Resolved Q (exprsOf sts) (exprsOf (resolveAll s sts).1) ∧ Q (resolveAll s sts).2
  | [], _ => ⟨.nil, hs⟩
  | st :: sts, hv => by
    obtain ⟨hst, hs₁⟩ := resolved_resolve hQ hs st fun v h => hv v (List.mem_append_left _ h)
    obtain ⟨hsts, hs₂⟩ := resolved_resolveAll hQ hs₁ sts fun v h => hv v (List.mem_append_right _ h)
    exact ⟨hst.append hsts, hs₂⟩

theorem resolved_resolveOption (hQ : Scope.Stable declared Q) {s : Scope} (hs : Q s) :
    (o : Option Stmt) → (∀ v ∈ varsOfOption o, declared v.id) →
    Resolved Q (exprsOfOption o) (exprsOfOption (resolveOption s o).1) ∧ Q (resolveOption s o).2
  | none, _ => ⟨.nil, hs⟩
  | some st, hv => resolved_resolve hQ hs st hv

end

end Stmt

include hQ

theorem Function.resolved_exprs {s : Scope} (hs : Q s) {f : Function}
    (hparams : ∀ q ∈ f.params, declared q.id) (hvars : ∀ v ∈ f.vars, declared v.id) :
    Resolved Q f.exprs (f.resolve s).exprs := by
  unfold Function.exprs Function.resolve
  unfold Function.vars at hvars
  cases hb : f.body with
  | none => exact .nil
  | some b =>
    rw [hb] at hvars
    exact (Stmt.resolved_resolve hQ (hQ.enter hs hparams) b hvars).1

/-- Globals are resolved one after the other. -/
theorem Program.resolved_resolveGlobals {s : Scope} (hs : Q s) {vs : List Variable}
    (hv : ∀ v ∈ vs, declared v.id) :
    Resolved Q (vs.flatMap Variable.exprs) ((resolveGlobals s vs).1.flatMap Variable.exprs) ∧
      Q (resolveGlobals s vs).2 := by
  induction vs generalizing s with
  | nil => exact ⟨.nil, hs⟩
  | cons v vs ih =>
    obtain ⟨hfirst, hrest⟩ := List.forall_mem_cons.1 hv
    obtain ⟨hvs, hbehind⟩ := ih (hQ.bindGlobal v.name hfirst hs) hrest
    exact ⟨(v.resolved_exprs hs).append hvs, hbehind⟩

/-- The expressions of a resolved program are those of the program, one by one, each resolved in a
scope on the way. -/
theorem Program.exprs_resolve {p : Program}
    (hs : Q ⟨p.declarations, p.functions.map Function.tag, [], []⟩)
    (hglobals : ∀ v ∈ p.globals, declared v.id)
    (hparams : ∀ f ∈ p.functions, ∀ q ∈ f.params, declared q.id)
    (hvars : ∀ f ∈ p.functions, ∀ v ∈ f.vars, declared v.id) :
    Resolved Q p.exprs p.resolve.exprs := by
  obtain ⟨hfirst, hbehind⟩ := Program.resolved_resolveGlobals hQ hs hglobals
  refine hfirst.append ?_
  have hfunctions : ∀ fs : List Function, (∀ f ∈ fs, ∀ q ∈ f.params, declared q.id) →
      (∀ f ∈ fs, ∀ v ∈ f.vars, declared v.id) → ∀ s, Q s → Resolved Q (fs.flatMap Function.exprs)
        (((fs.map Function.tag).map (Function.resolve s)).flatMap Function.exprs) := by
    intro fs hps hvs s hs
    induction fs with
    | nil => exact .nil
    | cons f fs ih =>
      obtain ⟨hp, hps⟩ := List.forall_mem_cons.1 hps
      obtain ⟨hv, hvs⟩ := List.forall_mem_cons.1 hvs
      -- Tagging a function touches neither its parameters nor its body.
      have htag : f.tag.exprs = f.exprs ∧ f.tag.params = f.params ∧ f.tag.vars = f.vars := by
        unfold Function.tag
        split <;> exact ⟨rfl, rfl, rfl⟩
      have hf := Function.resolved_exprs hQ hs (f := f.tag) (htag.2.1 ▸ hp) (htag.2.2 ▸ hv)
      rw [htag.1] at hf
      exact hf.append (ih hps hvs)
  exact hfunctions p.functions hparams hvars _ hbehind

end

/-! ### Rules for types -/

/-- The type of an expression by the rule for its kind, from the types that are recorded of its
parts; `link` tells the types of names and `call` those of calls. -/
def Expr.ruleType (link : Option Nat → Ty) (call : String → Ty) : Expr → Ty
  | int _ _ | sizeof _ _ => .int
  | char _ _ => .char
  | string _ _ => Ty.char.addPointer
  | name _ _ d => link d
  | binary _ op l r => op.resultType l.typeOrInt r.typeOrInt
  | unary _ op x => op.resultType x.typeOrInt
  | Expr.call _ f _ => call f
  | subscript _ b _ => b.typeOrInt.pointee?.getD .int
  | cast _ t _ => t

/-- The types of some expressions follow the rules. -/
def Typed (link : Option Nat → Ty) (call : String → Ty) (es : List Expr) : Prop :=
  ∀ e ∈ es, e.type = some (e.ruleType link call)

/-- The types that a scope gives to links and to callees. -/
structure Scope.Gives (link : Option Nat → Ty) (call : String → Ty) (s : Scope) : Prop where
  link_eq : ∀ d, s.linkType d = link d
  call_eq : ∀ f, s.callType f = call f

variable {link : Option Nat → Ty} {call : String → Ty}

/-- Declarations change no types. -/
theorem Scope.stable_gives : Scope.Stable (fun _ => True) (Scope.Gives link call) where
  bind _ _ _ hs := ⟨hs.link_eq, hs.call_eq⟩
  bindGlobal _ _ _ hs := ⟨hs.link_eq, hs.call_eq⟩
  leave hs := ⟨hs.link_eq, hs.call_eq⟩

/-- The type of a resolved expression follows the rule for its kind. -/
theorem Expr.type_resolve_eq {s : Scope} (hs : s.Gives link call) (e : Expr) :
    (e.resolve s).type = some ((e.resolve s).ruleType link call) := by
  cases e with
  | name n x d => exact congrArg some (hs.link_eq (s.lookup? x))
  | call n f args => exact congrArg some (hs.call_eq f)
  | _ => rfl

/-- The scope that a program has outside of its functions, before any of its globals. -/
def Program.scope (p : Program) : Scope := ⟨p.declarations, p.functions, [], []⟩

/-- Calls have the same types when bodies are resolved. -/
theorem Scope.callType_map_resolve (s t : Scope) (callee : String) :
    Scope.callType { s with functions := s.functions.map (Function.resolve t) } callee =
      s.callType callee := by
  have hname : ((fun f : Function => f.name == callee) ∘ Function.resolve t) =
      fun f => f.name == callee := rfl
  unfold Scope.callType
  dsimp only
  rw [List.find?_map, hname]
  cases s.functions.find? fun f => f.name == callee with
  | none => rfl
  | some f => rfl

/-- The scopes of a program give the types that its table and its functions tell. -/
theorem Program.gives_start (p : Program) :
    Scope.Gives p.resolve.scope.linkType p.resolve.scope.callType
      ⟨p.declarations, p.functions.map Function.tag, [], []⟩ :=
  ⟨fun _ => rfl, fun f => (Scope.callType_map_resolve _ _ f).symm⟩

/-- The types of all expressions of a resolved program follow the rules: names have those that the
table tells, and calls those that the functions tell. -/
theorem Program.typed_resolve (p : Program) :
    Typed p.resolve.scope.linkType p.resolve.scope.callType p.resolve.exprs := by
  have hexprs := Program.exprs_resolve Scope.stable_gives p.gives_start (fun _ _ => trivial)
    (fun _ _ _ _ => trivial) fun _ _ _ _ => trivial
  exact hexprs.forall_mem fun e _ s hs => e.type_resolve_eq hs

end MiniC
