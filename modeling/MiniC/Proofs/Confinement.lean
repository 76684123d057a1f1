import Mathlib.Data.List.Nodup
import Mathlib.Data.List.Pairwise
import MiniC.Proofs.Likeness
import MiniC.Proofs.Parsed

/-!
# What names may refer to

A function declares its own variables, and the names in it refer to these, to its parameters or to
globals.  The initial values of globals refer to globals.  So there are as many roles as there are
functions and one more, and each has its own declarations; no two roles share one.

Main definitions:

* `MiniC.Likeness.within`: trees that declare and refer to certain variables only;
* `MiniC.Role`: the initial values of globals, and functions, with what they declare;
* `MiniC.Program.Confined`: a program in which every role keeps to itself and to the globals.

Main results:

* `MiniC.Stmt.within_resolve`: what is resolved in a scope refers to what the scope holds, and to
  what it declares itself;
* `MiniC.Program.confined_of_load`: loaded programs are confined;
* `MiniC.Program.Confined.eq_of_own`: a declaration belongs to one function.
-/

set_option autoImplicit false

namespace MiniC

/-! ### Resolved trees -/

/-- Trees that are equal, declare certain variables only, and refer to certain declarations only. -/
def Likeness.within (declared linked : Nat → Prop) : Likeness :=
  { Likeness.equal with
    declares := fun v => declared v.id
    links := fun link => ∀ id ∈ link, linked id }

/-- The scope holds certain declarations only. -/
structure Scope.Sees (linked : Nat → Prop) (s : Scope) : Prop where
  locals : ∀ e ∈ s.locals, linked e.2
  globals : ∀ e ∈ s.globals, linked e.2

variable {declared linked : Nat → Prop}

theorem mem_of_lookup {x : String} {id : Nat} {entries : List (String × Nat)}
    (h : entries.lookup x = some id) : (x, id) ∈ entries := by
  obtain ⟨before, behind, rfl, -⟩ := List.lookup_eq_some_iff.1 h
  exact List.mem_append_right _ (List.mem_cons_self ..)

namespace Scope.Sees

variable {s : Scope} (h : s.Sees linked)

include h

theorem links (x : String) : (Likeness.within declared linked).links (s.lookup? x) := by
  intro id hid
  unfold Scope.lookup? at hid
  split at hid
  · next hx =>
    cases hid
    exact h.locals _ (mem_of_lookup hx)
  · exact h.globals _ (mem_of_lookup hid)

theorem bind {id : Nat} (x : String) (hid : linked id) : (s.bind x id).Sees linked where
  locals := List.forall_mem_cons.2 ⟨hid, h.locals⟩
  globals := h.globals

theorem bindGlobal {id : Nat} (x : String) (hid : linked id) : (s.bindGlobal x id).Sees linked where
  locals := h.locals
  globals := List.forall_mem_cons.2 ⟨hid, h.globals⟩

/-- A function sees its parameters and what was global before. -/
theorem enter {params : List Parameter} (hp : ∀ q ∈ params, linked q.id) :
    (s.enter params).Sees linked := by
  have hstart : Sees linked { s with locals := [] } := ⟨by simp, h.globals⟩
  unfold Scope.enter
  generalize ({ s with locals := [] } : Scope) = t at hstart
  induction params generalizing t with
  | nil => exact hstart
  | cons q params ih =>
    obtain ⟨hq, hparams⟩ := List.forall_mem_cons.1 hp
    refine ih hparams _ ?_
    dsimp only
    split
    · exact hstart
    · exact hstart.bind q.name hq

end Scope.Sees

namespace Expr

mutual

/-- The names in a resolved expression refer to what the scope holds. -/
theorem within_resolve {s : Scope} (hs : s.Sees linked) : (e : Expr) →
    (e.resolve s).Alike (.within declared linked) (e.resolve s)
  | int _ v => .int v rfl
  | char _ v => .char v rfl
  | string _ v => .string v rfl
  | name _ x _ => .name x _ rfl (hs.links x)
  | binary _ op l r => .binary op rfl (within_resolve hs l) (within_resolve hs r)
  | unary _ op x => .unary op rfl (within_resolve hs x)
  | call _ f args => .call f rfl (within_resolveAll hs args)
  | subscript _ b i => .subscript rfl (within_resolve hs b) (within_resolve hs i)
  | cast _ t x => .cast t rfl (within_resolve hs x)
  | sizeof _ t => .sizeof t rfl

theorem within_resolveAll {s : Scope} (hs : s.Sees linked) : (es : List Expr) →
    List.Forall₂ (Alike (.within declared linked)) (resolveAll s es) (resolveAll s es)
  | [] => .nil
  | e :: es => .cons (within_resolve hs e) (within_resolveAll hs es)

end

theorem within_resolveOption {s : Scope} (hs : s.Sees linked) (o : Option Expr) :
    Option.Rel (Alike (.within declared linked)) (o.map (resolve s)) (o.map (resolve s)) := by
  cases o with
  | none => exact .none
  | some e => exact .some (within_resolve hs e)

end Expr

/-- The names in the initial value of a resolved variable refer to what the scope holds. -/
theorem Variable.within_resolve {s : Scope} (hs : s.Sees linked) {v : Variable}
    (hv : declared v.id) : (v.resolve s).Alike (.within declared linked) (v.resolve s) where
  declares := hv
  id_eq := rfl
  name_eq := rfl
  type_eq := rfl
  location_eq := rfl
  init := Expr.within_resolveOption hs v.init

section

variable (hsub : ∀ id, declared id → linked id)

include hsub

/-- Declared variables refer to what the scope holds and to each other, and the scope behind them
holds them, too. -/
theorem Variable.within_resolveAll {s : Scope} (hs : s.Sees linked) {vs : List Variable}
    (hv : ∀ v ∈ vs, declared v.id) :
    List.Forall₂ (Variable.Alike (.within declared linked)) (resolveAll s vs).1
      (resolveAll s vs).1 ∧ (resolveAll s vs).2.Sees linked := by
  induction vs generalizing s with
  | nil => exact ⟨.nil, hs⟩
  | cons v vs ih =>
    obtain ⟨hfirst, hrest⟩ := List.forall_mem_cons.1 hv
    obtain ⟨halike, hsees⟩ := ih (hs.bind v.name (hsub _ hfirst)) hrest
    exact ⟨.cons (v.within_resolve hs hfirst) halike, hsees⟩

/-- Globals refer to globals, and the scope behind them holds globals. -/
theorem Program.within_resolveGlobals {s : Scope} (hs : s.Sees linked) {vs : List Variable}
    (hv : ∀ v ∈ vs, declared v.id) :
    (∀ v ∈ (resolveGlobals s vs).1, v.Alike (.within declared linked) v) ∧
      (resolveGlobals s vs).2.Sees linked := by
  induction vs generalizing s with
  | nil => exact ⟨by simp [resolveGlobals], hs⟩
  | cons v vs ih =>
    obtain ⟨hfirst, hrest⟩ := List.forall_mem_cons.1 hv
    obtain ⟨halike, hsees⟩ := ih (hs.bindGlobal v.name (hsub _ hfirst)) hrest
    exact ⟨List.forall_mem_cons.2 ⟨v.within_resolve hs hfirst, halike⟩, hsees⟩

end

namespace Stmt

mutual

/-- The names in a resolved statement refer to what the scope holds and to what the statement
declares, and the scope behind it holds that, too. -/
theorem within_resolve (hsub : ∀ id, declared id → linked id) {s : Scope} (hs : s.Sees linked) :
    (st : Stmt) → (∀ v ∈ st.vars, declared v.id) →
    (st.resolve s).1.Alike (.within declared linked) (st.resolve s).1 ∧
      (st.resolve s).2.Sees linked
  | declare loc _, hv =>
    have h := Variable.within_resolveAll hsub hs hv
    ⟨.declare loc h.1, h.2⟩
  | eval loc e, _ => ⟨.eval loc (e.within_resolve hs), hs⟩
  | branch loc c t e, hv =>
    have ht := within_resolve hsub hs t fun v h => hv v (List.mem_append_left _ h)
    have he := within_resolveOption hsub ht.2 e fun v h => hv v (List.mem_append_right _ h)
    ⟨.branch loc (c.within_resolve hs) ht.1 he.1, he.2⟩
  | whileLoop loc c b, hv =>
    have hb := within_resolve hsub hs b hv
    ⟨.whileLoop loc (c.within_resolve hs) hb.1, hb.2⟩
  | doLoop loc b c, hv =>
    have hb := within_resolve hsub hs b hv
    ⟨.doLoop loc (c.within_resolve hs) hb.1, hb.2⟩
  | forLoop loc i c e b, hv =>
    have hi := within_resolveOption hsub hs i fun v h => hv v (List.mem_append_left _ h)
    have hb := within_resolve hsub hi.2 b fun v h => hv v (List.mem_append_right _ h)
    ⟨.forLoop loc hi.1 (Expr.within_resolveOption hi.2 c) (Expr.within_resolveOption hi.2 e) hb.1,
      hb.2⟩
  | ret loc e, _ => ⟨.ret loc (Expr.within_resolveOption hs e), hs⟩
  | block loc ss, hv =>
    have hss := within_resolveAll hsub hs ss hv
    ⟨.block loc hss.1, hss.2⟩
  | leave loc, _ => ⟨.leave loc, hs⟩
  | next loc, _ => ⟨.next loc, hs⟩
  | empty loc, _ => ⟨.empty loc, hs⟩

theorem within_resolveAll (hsub : ∀ id, declared id → linked id) {s : Scope} (hs : s.Sees linked) :
    (ss : List Stmt) → (∀ v ∈ varsOf ss, declared v.id) →
    List.Forall₂ (Stmt.Alike (.within declared linked)) (resolveAll s ss).1 (resolveAll s ss).1 ∧
      (resolveAll s ss).2.Sees linked
  | [], _ => ⟨.nil, hs⟩
  | st :: ss, hv =>
    have hst := within_resolve hsub hs st fun v h => hv v (List.mem_append_left _ h)
    have hss := within_resolveAll hsub hst.2 ss fun v h => hv v (List.mem_append_right _ h)
    ⟨.cons hst.1 hss.1, hss.2⟩

theorem within_resolveOption (hsub : ∀ id, declared id → linked id) {s : Scope}
    (hs : s.Sees linked) : (o : Option Stmt) → (∀ v ∈ varsOfOption o, declared v.id) →
    Option.Rel (Stmt.Alike (.within declared linked)) (resolveOption s o).1 (resolveOption s o).1 ∧
      (resolveOption s o).2.Sees linked
  | none, _ => ⟨.none, hs⟩
  | some st, hv =>
    have hst := within_resolve hsub hs st hv
    ⟨.some hst.1, hst.2⟩

end

end Stmt

/-! ### Roles -/

/-- What a frame is for: the initial values of globals, or an activation of a function. -/
inductive Role where
  | root
  | function (f : Function)

namespace Program

/-- The declarations of globals. -/
def globalIds (p : Program) : List Nat := p.globals.map Variable.id

end Program

namespace Function

/-- The declarations of parameters. -/
def paramIds (f : Function) : List Nat := f.params.map Parameter.id

/-- The declarations in the body of a function. -/
def varIds (f : Function) : List Nat := f.vars.map Variable.id

/-- All declarations of a function. -/
def ownIds (f : Function) : List Nat := f.paramIds ++ f.varIds

end Function

namespace Role

/-- What the frames of a role are called. -/
def name : Role → String
  | root => "<global>"
  | function f => f.name

/-- The declarations whose values stand in the frame from its start. -/
def paramIds : Role → List Nat
  | root => []
  | function f => f.paramIds

/-- The declarations whose values come to stand in the frame when they are reached. -/
def varIds : Role → List Nat
  | root => []
  | function f => f.varIds

/-- The declarations that are reached in the frame. -/
def declaredIds (p : Program) : Role → List Nat
  | root => p.globalIds
  | function f => f.varIds

/-- The role is played: its function is what its name calls. -/
def Played (p : Program) : Role → Prop
  | root => True
  | function f => p.function? f.name = some f

/-- A tree declares what the role does, and refers to what it may. -/
def likeness (p : Program) (r : Role) : Likeness :=
  .within (· ∈ r.declaredIds p) (· ∈ r.paramIds ++ r.varIds ++ p.globalIds)

end Role

namespace Program

/-- Every declaration is one of a global or of one function; functions refer to their own
declarations and to globals, and the initial values of globals refer to globals. -/
structure Confined (p : Program) : Prop where
  wellFormed : p.WellFormed
  ids_nodup : p.declarationIds.Nodup
  globals : ∀ v ∈ p.globals, v.Alike (Role.root.likeness p) v
  bodies : ∀ f ∈ p.functions, ∀ b ∈ f.body, b.Alike ((Role.function f).likeness p) b

theorem globalIds_resolve (p : Program) : p.resolve.globalIds = p.globalIds :=
  map_resolveGlobals (fun _ _ => rfl) _ p.globals

end Program

namespace Function

theorem params_resolve_tag (s : Scope) (f : Function) : (f.tag.resolve s).params = f.params := by
  unfold resolve tag
  split <;> rfl

theorem varIds_resolve_tag (s : Scope) (f : Function) : (f.tag.resolve s).varIds = f.varIds := by
  unfold varIds vars
  rw [body_resolve_tag]
  cases f.body with
  | none => rfl
  | some b => exact Stmt.map_vars_resolve (fun _ _ => rfl) _ b

/-- Resolving a function keeps what it declares. -/
theorem ownIds_resolve_tag (s : Scope) (f : Function) : (f.tag.resolve s).ownIds = f.ownIds := by
  unfold ownIds paramIds
  rw [params_resolve_tag, varIds_resolve_tag]

/-- In a scope of globals, a function is resolved to one that keeps to itself and to them. -/
theorem within_resolve_tag {p : Program} {s : Scope} (hs : s.Sees (· ∈ p.globalIds))
    (f : Function) : ∀ b ∈ (f.tag.resolve s).body,
      b.Alike ((Role.function (f.tag.resolve s)).likeness p) b := by
  intro b hb
  rw [body_resolve_tag] at hb
  obtain ⟨b, hbody, rfl⟩ := Option.map_eq_some_iff.1 hb
  unfold Role.likeness Role.declaredIds Role.paramIds Role.varIds
  dsimp only
  rw [varIds_resolve_tag, show (f.tag.resolve s).paramIds = f.paramIds from
    congrArg (List.map Parameter.id) (f.params_resolve_tag s)]
  have hparams : f.tag.params = f.params := by
    unfold tag
    split <;> rfl
  have hvars : f.vars = b.vars := by rw [vars, hbody]
  -- The body begins in the scope of the globals and the parameters.
  have hstart : (s.enter f.tag.params).Sees (· ∈ f.paramIds ++ f.varIds ++ p.globalIds) := by
    rw [hparams]
    have hall : s.Sees (· ∈ f.paramIds ++ f.varIds ++ p.globalIds) :=
      ⟨fun e he => List.mem_append_right _ (hs.locals e he),
        fun e he => List.mem_append_right _ (hs.globals e he)⟩
    exact hall.enter fun q hq =>
      List.mem_append_left _ (List.mem_append_left _ (List.mem_map_of_mem hq))
  refine (Stmt.within_resolve (fun id hid => ?_) hstart b fun v hv => ?_).1
  · exact List.mem_append_left _ (List.mem_append_right _ hid)
  · exact List.mem_map_of_mem (hvars ▸ hv)

end Function

namespace Program

/-- Resolving a program keeps what it declares. -/
theorem declarationIds_resolve (p : Program) : p.resolve.declarationIds = p.declarationIds := by
  have hfunctions : ∀ s, ((p.functions.map Function.tag).map (Function.resolve s)).flatMap
      Function.ownIds = p.functions.flatMap Function.ownIds := fun s => by
    rw [List.map_map, List.flatMap_map]
    exact List.flatMap_congr fun f _ => f.ownIds_resolve_tag s
  show p.resolve.globalIds ++ _ = p.globalIds ++ p.functions.flatMap Function.ownIds
  exact congrArg₂ List.append p.globalIds_resolve (hfunctions _)

/-- The declarations of loaded programs have roles of their own. -/
theorem confined_of_load {source : String} {p : Program} (h : (load source).result = .ok p) :
    p.Confined := by
  obtain ⟨q, hq, rfl⟩ := exists_read_of_load h
  have hmade := made_of_read hq
  have hstart : Scope.Sees (· ∈ q.globalIds)
      ⟨q.declarations, q.functions.map Function.tag, [], []⟩ := ⟨by simp, by simp⟩
  have hids : ∀ v ∈ q.globals, v.id ∈ q.globalIds := fun v hv => List.mem_map_of_mem hv
  obtain ⟨hglobals, hscope⟩ := within_resolveGlobals (fun _ h => h) hstart hids
  refine ⟨hmade.wellFormed.resolve, ?_, ?_, ?_⟩
  · rw [declarationIds_resolve]
    exact hmade.identified.ids_nodup
  · intro v hv
    have halike := hglobals v hv
    unfold Role.likeness Role.declaredIds Role.paramIds Role.varIds
    rw [globalIds_resolve]
    exact halike
  · intro f hf
    obtain ⟨g', hg', rfl⟩ := List.mem_map.1 hf
    obtain ⟨g, hg, rfl⟩ := List.mem_map.1 hg'
    refine Function.within_resolve_tag ?_ g
    rw [globalIds_resolve]
    exact hscope

namespace Confined

variable {p : Program} (h : p.Confined) {f g : Function} {id : Nat}

include h

/-- No function declares what a global is. -/
theorem not_mem_globalIds (hf : f ∈ p.functions) (hid : id ∈ f.ownIds) : id ∉ p.globalIds :=
  fun hglobal => List.disjoint_of_nodup_append h.ids_nodup hglobal
    (List.mem_flatMap.2 ⟨f, hf, hid⟩)

/-- A declaration belongs to one function. -/
theorem eq_of_own (hf : f ∈ p.functions) (hg : g ∈ p.functions) (hid : id ∈ f.ownIds)
    (hid' : id ∈ g.ownIds) : f = g := by
  have hnodup : (p.functions.flatMap Function.ownIds).Nodup := h.ids_nodup.of_append_right
  have hdisjoint := (List.nodup_flatMap.1 hnodup).2
  have : Std.Symm (Function.onFun List.Disjoint Function.ownIds) :=
    ⟨fun _ _ h _ ha hb => h hb ha⟩
  by_contra hne
  exact hdisjoint.forall hf hg hne hid hid'

/-- No function declares a variable that is one of its parameters. -/
theorem not_mem_varIds (hf : f ∈ p.functions) (hid : id ∈ f.paramIds) : id ∉ f.varIds := by
  have hnodup : (p.functions.flatMap Function.ownIds).Nodup := h.ids_nodup.of_append_right
  exact fun hvar => List.disjoint_of_nodup_append ((List.nodup_flatMap.1 hnodup).1 f hf) hid hvar

end Confined

end Program

end MiniC
