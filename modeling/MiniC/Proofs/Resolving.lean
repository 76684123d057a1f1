import MiniC.Proofs.Likeness
import MiniC.Resolution

/-!
# Resolving trees that are alike

What the names of a tree are linked to, and what types its expressions are given, depends on little
of the scope in which the tree is resolved: on the names that are visible there, and on the types
that names and calls have.  In scopes that agree on these, trees that are alike are resolved alike,
if subscripts that are written out have the types of their sums; and one tree is resolved in the
same way.

Main definitions:

* `MiniC.Scope.Agrees`: scopes in which names and calls mean the same;
* `MiniC.Expr.KeepsType`: a subscript that has the type of its sum;
* `MiniC.Likeness.Resolves`: a likeness that resolving keeps.

Main results:

* `MiniC.Expr.Alike.resolve`, `MiniC.Stmt.Alike.resolve`, `MiniC.Program.Alike.resolve`: resolving
  keeps trees alike;
* `MiniC.Function.resolve_of_agrees`, `MiniC.Program.resolveGlobals_of_agrees`: functions and
  globals are resolved in the same way in scopes that agree.
-/

set_option autoImplicit false

namespace MiniC

/-! ### Scopes that agree -/

/-- Two scopes in which names refer to the same, and in which names and calls have the same
types. -/
structure Scope.Agrees (s s' : Scope) : Prop where
  linkType_eq : ∀ link, s.linkType link = s'.linkType link
  callType_eq : ∀ callee, s.callType callee = s'.callType callee
  globals_eq : s.globals = s'.globals
  locals_eq : s.locals = s'.locals

namespace Scope.Agrees

variable {s s' : Scope} (h : s.Agrees s')

include h

theorem lookup?_eq (x : String) : s.lookup? x = s'.lookup? x := by
  rw [lookup?, lookup?, h.locals_eq, h.globals_eq]

theorem bind (x : String) (id : Nat) : (s.bind x id).Agrees (s'.bind x id) :=
  ⟨h.linkType_eq, h.callType_eq, h.globals_eq, congrArg (List.cons (x, id)) h.locals_eq⟩

theorem bindGlobal (x : String) (id : Nat) : (s.bindGlobal x id).Agrees (s'.bindGlobal x id) :=
  ⟨h.linkType_eq, h.callType_eq, congrArg (List.cons (x, id)) h.globals_eq, h.locals_eq⟩

theorem enter (params : List Parameter) : (s.enter params).Agrees (s'.enter params) := by
  have hfold : ∀ {t t' : Scope}, t.Agrees t' →
      (params.foldl (fun s p => if p.name.isEmpty then s else s.bind p.name p.id) t).Agrees
        (params.foldl (fun s p => if p.name.isEmpty then s else s.bind p.name p.id) t') := by
    induction params with
    | nil => exact fun ht => ht
    | cons p ps ih =>
      intro t t' ht
      refine ih ?_
      dsimp only
      split
      · exact ht
      · exact ht.bind p.name p.id
  exact hfold ⟨h.linkType_eq, h.callType_eq, h.globals_eq, rfl⟩

end Scope.Agrees

/-- The type of a call depends on what functions say about themselves, and not on their bodies. -/
theorem Scope.callType_eq_of_alike {L : Likeness} {s s' : Scope}
    (hfunctions : List.Forall₂ (Function.Alike L) s.functions s'.functions) (callee : String) :
    s.callType callee = s'.callType callee := by
  have hfind : ∀ {fs fs' : List Function}, List.Forall₂ (Function.Alike L) fs fs' →
      (fs.find? fun f => f.name == callee).map Function.returnType =
        (fs'.find? fun f => f.name == callee).map Function.returnType := by
    intro fs fs' hfs
    induction hfs with
    | nil => rfl
    | cons hf _ ih =>
      rw [List.find?_cons, List.find?_cons, ← hf.name_eq]
      split
      · exact congrArg some hf.returnType_eq
      · exact ih
  have hfound := hfind hfunctions
  unfold callType
  generalize s.functions.find? _ = o, s'.functions.find? _ = o' at hfound
  -- If no function bears the name, both fall back on the built-in of that name.
  match o, o', hfound with
  | none, none, _ => rfl
  | some f, some f', hfound => exact Option.some.inj hfound

/-! ### Types that are kept -/

/-- A subscript has the type that it has when it is written out. -/
def Expr.KeepsType : Expr → Prop
  | .subscript _ b i => b.typeOrInt.pointee?.getD .int =
      UnaryOp.deref.resultType (BinaryOp.add.resultType b.typeOrInt i.typeOrInt)
  | _ => True

instance : DecidablePred Expr.KeepsType
  | .subscript _ _ _ => inferInstanceAs (Decidable (_ = _))
  | .int _ _ | .char _ _ | .string _ _ | .name _ _ _ | .binary _ _ _ _ | .unary _ _ _ | .call _ _ _
  | .cast _ _ _ | .sizeof _ _ => .isTrue trivial

/-- All subscripts with numbers in `w` keep their types. -/
def KeepTypes (w : Nat → Prop) (es : List Expr) : Prop := ∀ e ∈ es, w e.id → e.KeepsType

instance {w : Nat → Prop} [DecidablePred w] (es : List Expr) : Decidable (KeepTypes w es) :=
  inferInstanceAs (Decidable (∀ e ∈ es, w e.id → e.KeepsType))

theorem keepTypes_append {w : Nat → Prop} {es fs : List Expr} :
    KeepTypes w (es ++ fs) ↔ KeepTypes w es ∧ KeepTypes w fs := List.forall_mem_append

theorem keepTypes_cons {w : Nat → Prop} {e : Expr} {es : List Expr} :
    KeepTypes w (e :: es) ↔ (w e.id → e.KeepsType) ∧ KeepTypes w es := List.forall_mem_cons

/-! ### Resolving keeps trees alike -/

/-- A likeness that resolving keeps: nodes may be given one type, names may be linked to anything,
and a variable may be declared with its initial value resolved. -/
structure Likeness.Resolves (L : Likeness) : Prop where
  node : ∀ {n n' : Node}, L.node n n' → ∀ t : Ty,
    L.node { n with type := some t } { n' with type := some t }
  links : ∀ link, L.links link
  declares : ∀ {v : Variable}, L.declares v → ∀ s : Scope, L.declares (v.resolve s)

theorem Expr.Alike.typeOrInt_eq {L : Likeness} {e e' : Expr} (h : e.Alike L e') :
    e.typeOrInt = e'.typeOrInt := by
  rw [typeOrInt, typeOrInt, h.type_eq]

mutual

/-- Expressions that are alike are resolved alike, if what is written out keeps its type. -/
theorem Expr.Alike.resolve {L : Likeness} (hL : L.Resolves) {s s' : Scope} (hs : s.Agrees s') :
    (e : Expr) → {e' : Expr} → e.Alike L e' → KeepTypes L.writtenOut (e.resolve s).all →
    (e.resolve s).Alike L (e'.resolve s')
  | .int _ v, _, .int _ hn, _ => .int v (hL.node hn _)
  | .char _ v, _, .char _ hn, _ => .char v (hL.node hn _)
  | .string _ v, _, .string _ hn, _ => .string v (hL.node hn _)
  | .name _ x _, _, .name _ _ hn _, _ => by
    unfold Expr.resolve
    dsimp only
    rw [← hs.lookup?_eq, ← hs.linkType_eq]
    exact .name x _ (hL.node hn _) (hL.links _)
  | .binary _ op l r, _, .binary _ hn hl hr, hk => by
    obtain ⟨hkl, hkr⟩ := keepTypes_append.1 (keepTypes_cons.1 hk).2
    have hl' := resolve hL hs l hl hkl
    have hr' := resolve hL hs r hr hkr
    refine .binary op ?_ hl' hr'
    rw [hl'.typeOrInt_eq, hr'.typeOrInt_eq]
    exact hL.node hn _
  | .unary _ op x, _, .unary _ hn hx, hk => by
    have hx' := resolve hL hs x hx (keepTypes_cons.1 hk).2
    refine .unary op ?_ hx'
    rw [hx'.typeOrInt_eq]
    exact hL.node hn _
  | .call _ f args, _, .call _ hn hargs, hk => by
    refine .call f ?_ (resolveAll hL hs args hargs (keepTypes_cons.1 hk).2)
    rw [hs.callType_eq]
    exact hL.node hn _
  | .subscript _ b i, _, .subscript hn hb hi, hk => by
    obtain ⟨hkb, hki⟩ := keepTypes_append.1 (keepTypes_cons.1 hk).2
    have hb' := resolve hL hs b hb hkb
    refine .subscript ?_ hb' (resolve hL hs i hi hki)
    rw [hb'.typeOrInt_eq]
    exact hL.node hn _
  | .subscript _ b i, _, @Expr.Alike.written _ _ _ _ _ b' _ i' hw hn hloc hb hi, hk => by
    obtain ⟨hkeeps, hkbi⟩ := keepTypes_cons.1 hk
    obtain ⟨hkb, hki⟩ := keepTypes_append.1 hkbi
    have hb' := resolve hL hs b hb hkb
    have hi' := resolve hL hs i hi hki
    -- The type of the sum comes from the resolved operands, which have kept theirs.
    have htype : (b.resolve s).typeOrInt.pointee?.getD .int = UnaryOp.deref.resultType
        (BinaryOp.add.resultType (b'.resolve s').typeOrInt (i'.resolve s').typeOrInt) := by
      rw [← hb'.typeOrInt_eq, ← hi'.typeOrInt_eq]
      exact hkeeps hw
    refine .written hw ?_ hloc hb' hi'
    rw [htype]
    exact hL.node hn _
  | .cast _ t x, _, .cast _ hn hx, hk =>
    .cast t (hL.node hn _) (resolve hL hs x hx (keepTypes_cons.1 hk).2)
  | .sizeof _ t, _, .sizeof _ hn, _ => .sizeof t (hL.node hn _)

/-- Lists of expressions that are alike are resolved alike. -/
theorem Expr.Alike.resolveAll {L : Likeness} (hL : L.Resolves) {s s' : Scope} (hs : s.Agrees s') :
    (es : List Expr) → {es' : List Expr} → List.Forall₂ (Expr.Alike L) es es' →
    KeepTypes L.writtenOut (allOf (Expr.resolveAll s es)) →
    List.Forall₂ (Expr.Alike L) (Expr.resolveAll s es) (Expr.resolveAll s' es')
  | [], _, .nil, _ => .nil
  | e :: es, _, .cons he hes, hk =>
    have ⟨hke, hkes⟩ := keepTypes_append.1 hk
    .cons (resolve hL hs e he hke) (resolveAll hL hs es hes hkes)

end

section

variable {L : Likeness} (hL : L.Resolves) {s s' : Scope} (hs : s.Agrees s')

include hL hs

theorem Expr.Alike.resolveOption {o o' : Option Expr} (ho : Option.Rel (Expr.Alike L) o o')
    (hk : KeepTypes L.writtenOut (Stmt.optionExprs (o.map (Expr.resolve s)))) :
    Option.Rel (Expr.Alike L) (o.map (Expr.resolve s)) (o'.map (Expr.resolve s')) := by
  cases ho with
  | none => exact .none
  | some he => exact .some (Expr.Alike.resolve hL hs _ he hk)

theorem Variable.Alike.resolve {v v' : Variable} (hv : v.Alike L v')
    (hk : KeepTypes L.writtenOut (v.resolve s).exprs) :
    (v.resolve s).Alike L (v'.resolve s') where
  declares := hL.declares hv.declares s
  id_eq := hv.id_eq
  name_eq := hv.name_eq
  type_eq := hv.type_eq
  location_eq := hv.location_eq
  init := Expr.Alike.resolveOption hL hs hv.init hk

/-- Declarations that are alike are resolved alike, and leave scopes that agree. -/
theorem Variable.Alike.resolveAll {vs vs' : List Variable}
    (hvs : List.Forall₂ (Variable.Alike L) vs vs')
    (hk : KeepTypes L.writtenOut ((Variable.resolveAll s vs).1.flatMap Variable.exprs)) :
    List.Forall₂ (Variable.Alike L) (Variable.resolveAll s vs).1 (Variable.resolveAll s' vs').1 ∧
      (Variable.resolveAll s vs).2.Agrees (Variable.resolveAll s' vs').2 := by
  induction hvs generalizing s s' with
  | nil => exact ⟨.nil, hs⟩
  | @cons v v' vs vs' hv _ ih =>
    obtain ⟨hkv, hkvs⟩ := keepTypes_append.1 hk
    have hbind := hs.bind v.name v.id
    rw [Variable.resolveAll, Variable.resolveAll, ← hv.name_eq, ← hv.id_eq]
    obtain ⟨hrest, hscope⟩ := ih hbind hkvs
    exact ⟨.cons (hv.resolve hL hs hkv) hrest, hscope⟩

end

mutual

/-- Statements that are alike are resolved alike, and leave scopes that agree. -/
theorem Stmt.Alike.resolve {L : Likeness} (hL : L.Resolves) : (st : Stmt) → {st' : Stmt} →
    st.Alike L st' → {s s' : Scope} → s.Agrees s' →
    KeepTypes L.writtenOut (st.resolve s).1.exprs →
    (st.resolve s).1.Alike L (st'.resolve s').1 ∧ (st.resolve s).2.Agrees (st'.resolve s').2
  | .declare loc _, _, .declare _ hvs, _, _, hs, hk =>
    have ⟨hvs', hs'⟩ := Variable.Alike.resolveAll hL hs hvs hk
    ⟨.declare loc hvs', hs'⟩
  | .eval loc _, _, .eval _ he, _, _, hs, hk => ⟨.eval loc (Expr.Alike.resolve hL hs _ he hk), hs⟩
  | .branch loc _ t f, _, .branch _ hc ht hf, _, _, hs, hk => by
    obtain ⟨hkc, hktf⟩ := keepTypes_append.1 hk
    obtain ⟨hkt, hkf⟩ := keepTypes_append.1 hktf
    obtain ⟨ht', hs₁⟩ := resolve hL t ht hs hkt
    obtain ⟨hf', hs₂⟩ := resolveOption hL f hf hs₁ hkf
    exact ⟨.branch loc (Expr.Alike.resolve hL hs _ hc hkc) ht' hf', hs₂⟩
  | .whileLoop loc _ b, _, .whileLoop _ hc hb, _, _, hs, hk => by
    obtain ⟨hkc, hkb⟩ := keepTypes_append.1 hk
    obtain ⟨hb', hs₁⟩ := resolve hL b hb hs hkb
    exact ⟨.whileLoop loc (Expr.Alike.resolve hL hs _ hc hkc) hb', hs₁⟩
  | .doLoop loc b _, _, .doLoop _ hc hb, _, _, hs, hk => by
    obtain ⟨hkc, hkb⟩ := keepTypes_append.1 hk
    obtain ⟨hb', hs₁⟩ := resolve hL b hb hs hkb
    exact ⟨.doLoop loc (Expr.Alike.resolve hL hs _ hc hkc) hb', hs₁⟩
  | .forLoop loc i _ _ b, _, .forLoop _ hi hc he hb, _, _, hs, hk => by
    obtain ⟨hki, hkceb⟩ := keepTypes_append.1 hk
    obtain ⟨hkc, hkeb⟩ := keepTypes_append.1 hkceb
    obtain ⟨hke, hkb⟩ := keepTypes_append.1 hkeb
    obtain ⟨hi', hs₁⟩ := resolveOption hL i hi hs hki
    obtain ⟨hb', hs₂⟩ := resolve hL b hb hs₁ hkb
    exact ⟨.forLoop loc hi' (Expr.Alike.resolveOption hL hs₁ hc hkc)
      (Expr.Alike.resolveOption hL hs₁ he hke) hb', hs₂⟩
  | .ret loc _, _, .ret _ he, _, _, hs, hk => ⟨.ret loc (Expr.Alike.resolveOption hL hs he hk), hs⟩
  | .block loc ss, _, .block _ hss, _, _, hs, hk =>
    have ⟨hss', hs'⟩ := resolveAll hL ss hss hs hk
    ⟨.block loc hss', hs'⟩
  | .leave loc, _, .leave _, _, _, hs, _ => ⟨.leave loc, hs⟩
  | .next loc, _, .next _, _, _, hs, _ => ⟨.next loc, hs⟩
  | .empty loc, _, .empty _, _, _, hs, _ => ⟨.empty loc, hs⟩

/-- Lists of statements that are alike are resolved alike. -/
theorem Stmt.Alike.resolveAll {L : Likeness} (hL : L.Resolves) : (ss : List Stmt) →
    {ss' : List Stmt} → List.Forall₂ (Stmt.Alike L) ss ss' → {s s' : Scope} → s.Agrees s' →
    KeepTypes L.writtenOut (Stmt.exprsOf (Stmt.resolveAll s ss).1) →
    List.Forall₂ (Stmt.Alike L) (Stmt.resolveAll s ss).1 (Stmt.resolveAll s' ss').1 ∧
      (Stmt.resolveAll s ss).2.Agrees (Stmt.resolveAll s' ss').2
  | [], _, .nil, _, _, hs, _ => ⟨.nil, hs⟩
  | st :: sts, _, .cons hst hsts, _, _, hs, hk => by
    obtain ⟨hkst, hksts⟩ := keepTypes_append.1 hk
    obtain ⟨hst', hs₁⟩ := resolve hL st hst hs hkst
    obtain ⟨hsts', hs₂⟩ := resolveAll hL sts hsts hs₁ hksts
    exact ⟨.cons hst' hsts', hs₂⟩

/-- Optional statements that are alike are resolved alike. -/
theorem Stmt.Alike.resolveOption {L : Likeness} (hL : L.Resolves) : (o : Option Stmt) →
    {o' : Option Stmt} → Option.Rel (Stmt.Alike L) o o' → {s s' : Scope} → s.Agrees s' →
    KeepTypes L.writtenOut (Stmt.exprsOfOption (Stmt.resolveOption s o).1) →
    Option.Rel (Stmt.Alike L) (Stmt.resolveOption s o).1 (Stmt.resolveOption s' o').1 ∧
      (Stmt.resolveOption s o).2.Agrees (Stmt.resolveOption s' o').2
  | none, _, .none, _, _, hs, _ => ⟨.none, hs⟩
  | some st, _, .some hst, _, _, hs, hk =>
    have ⟨hst', hs'⟩ := resolve hL st hst hs hk
    ⟨.some hst', hs'⟩

end

/-! ### Programs -/

theorem Function.Alike.tag {L : Likeness} {f f' : Function} (h : f.Alike L f') :
    f.tag.Alike L f'.tag := by
  unfold Function.tag
  rw [← h.isDefinition_eq, ← h.name_eq]
  split
  · exact h
  · exact ⟨rfl, h.params_eq, h.returnType_eq, rfl, h.location_eq, h.body⟩

section

variable {L : Likeness} (hL : L.Resolves) {s s' : Scope} (hs : s.Agrees s')

include hL hs

theorem Function.Alike.resolve {f f' : Function} (h : f.Alike L f')
    (hk : KeepTypes L.writtenOut (f.resolve s).exprs) :
    (f.resolve s).Alike L (f'.resolve s') where
  name_eq := h.name_eq
  params_eq := h.params_eq
  returnType_eq := h.returnType_eq
  intrinsic_eq := h.intrinsic_eq
  location_eq := h.location_eq
  body := by
    have hb := h.body
    unfold Function.exprs at hk
    unfold Function.resolve at hk ⊢
    rw [← h.params_eq]
    generalize f.body = b, f'.body = b' at hb hk
    cases hb with
    | none => exact .none
    | some hst => exact .some (Stmt.Alike.resolve hL _ hst (hs.enter f.params) hk).1

theorem Function.Alike.map_resolve {fs fs' : List Function}
    (hfs : List.Forall₂ (Function.Alike L) fs fs')
    (hk : KeepTypes L.writtenOut ((fs.map (Function.resolve s)).flatMap Function.exprs)) :
    List.Forall₂ (Function.Alike L) (fs.map (Function.resolve s))
      (fs'.map (Function.resolve s')) := by
  induction hfs with
  | nil => exact .nil
  | cons hf _ ih =>
    obtain ⟨hkf, hkfs⟩ := keepTypes_append.1 hk
    exact .cons (hf.resolve hL hs hkf) (ih hkfs)

/-- Globals that are alike are resolved alike, and leave scopes that agree. -/
theorem Program.resolveGlobals_alike {vs vs' : List Variable}
    (hvs : List.Forall₂ (Variable.Alike L) vs vs')
    (hk : KeepTypes L.writtenOut ((resolveGlobals s vs).1.flatMap Variable.exprs)) :
    List.Forall₂ (Variable.Alike L) (resolveGlobals s vs).1 (resolveGlobals s' vs').1 ∧
      (resolveGlobals s vs).2.Agrees (resolveGlobals s' vs').2 := by
  induction hvs generalizing s s' with
  | nil => exact ⟨.nil, hs⟩
  | @cons v v' vs vs' hv _ ih =>
    obtain ⟨hkv, hkvs⟩ := keepTypes_append.1 hk
    have hbind := hs.bindGlobal v.name v.id
    rw [resolveGlobals, resolveGlobals, ← hv.name_eq, ← hv.id_eq]
    obtain ⟨hrest, hscope⟩ := ih hbind hkvs
    exact ⟨.cons (hv.resolve hL hs hkv) hrest, hscope⟩

end

/-- Programs that are alike are resolved alike, if what is written out keeps its type. -/
theorem Program.Alike.resolve {L : Likeness} (hL : L.Resolves) {p p' : Program} (h : p.Alike L p')
    (hk : KeepTypes L.writtenOut p.resolve.exprs) : p.resolve.Alike L p'.resolve := by
  obtain ⟨hkg, hkf⟩ := keepTypes_append.1 hk
  have htag : List.Forall₂ (Function.Alike L) (p.functions.map Function.tag)
      (p'.functions.map Function.tag) :=
    List.forall₂_map_left_iff.2 (List.forall₂_map_right_iff.2 (h.functions.imp fun _ _ => .tag))
  have hscope : Scope.Agrees ⟨p.declarations, p.functions.map Function.tag, [], []⟩
      ⟨p'.declarations, p'.functions.map Function.tag, [], []⟩ :=
    ⟨fun _ => by rw [Scope.linkType, Scope.linkType, h.declarations_eq],
      Scope.callType_eq_of_alike htag, rfl, rfl⟩
  obtain ⟨hglobals, hs⟩ := resolveGlobals_alike hL hscope h.globals hkg
  exact ⟨hglobals, Function.Alike.map_resolve hL hs htag hkf, h.declarations_eq⟩

/-! ### One tree in two scopes -/

/-- Resolving keeps equal trees equal. -/
theorem Likeness.resolves_equal : Likeness.equal.Resolves where
  node {n n'} hn t := by
    obtain rfl : n = n' := hn
    exact rfl
  links _ := trivial
  declares _ _ := trivial

/-- Nothing is written out in equal trees. -/
theorem keepTypes_equal (es : List Expr) : KeepTypes Likeness.equal.writtenOut es :=
  fun _ _ hw => hw.elim

section

variable {s s' : Scope} (hs : s.Agrees s')

include hs

/-- A function is resolved in the same way in scopes that agree. -/
theorem Function.resolve_of_agrees (f : Function) : f.resolve s = f.resolve s' :=
  (f.alike_self.resolve Likeness.resolves_equal hs (keepTypes_equal _)).eq

/-- Globals are resolved in the same way in scopes that agree, and leave scopes that agree. -/
theorem Program.resolveGlobals_of_agrees (vs : List Variable) :
    (resolveGlobals s vs).1 = (resolveGlobals s' vs).1 ∧
      (resolveGlobals s vs).2.Agrees (resolveGlobals s' vs).2 := by
  have halike : List.Forall₂ (Variable.Alike .equal) vs vs :=
    List.forall₂_same.2 fun v _ => v.alike_self
  obtain ⟨hglobals, hscope⟩ :=
    resolveGlobals_alike Likeness.resolves_equal hs halike (keepTypes_equal _)
  exact ⟨Variable.Alike.eqAll hglobals, hscope⟩

end

end MiniC
