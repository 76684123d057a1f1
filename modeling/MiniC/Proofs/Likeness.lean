import Mathlib.Data.List.Forall2
import Mathlib.Data.Option.Basic
import MiniC.Execution

/-!
# Trees that are alike

Two trees are alike if they differ in the data of their nodes only, as far as a given relation
allows, and if some subscripts `a[i]` of the first are written out as `*(a + i)` in the second.

A tree is like itself.  That is less idle than it sounds: the relation also says which variables a
tree may declare, and what the names in it may be linked to.

Main definitions:

* `MiniC.Likeness`: what two trees that are alike may differ in;
* `MiniC.Expr.Alike`, `MiniC.Stmt.Alike`, `MiniC.Function.Alike`, `MiniC.Program.Alike`.

Main results:

* `MiniC.Expr.Alike.refl`, `MiniC.Stmt.Alike.refl`: every tree is like itself;
* `MiniC.Expr.Alike.eq`, `MiniC.Stmt.Alike.eq`: trees that may differ in nothing are equal;
* `MiniC.Program.Alike.function?`: calls by name reach functions that are alike.
-/

set_option autoImplicit false

namespace MiniC

/-- What two trees that are alike may differ in. -/
structure Likeness where
  /-- The data that two nodes at one place may bear. -/
  node : Node → Node → Prop
  /-- The subscripts that may be written out, by the numbers of their nodes. -/
  writtenOut : Nat → Prop
  /-- The variables that may be declared. -/
  declares : Variable → Prop
  /-- What names may be linked to. -/
  links : Option Nat → Prop
  location_eq {n n' : Node} : node n n' → n.location = n'.location
  type_eq {n n' : Node} : node n n' → n.type = n'.type

/-- Trees that are equal; all variables may be declared and linked to. -/
def Likeness.equal : Likeness where
  node := Eq
  writtenOut _ := False
  declares _ := True
  links _ := True
  location_eq h := congrArg Node.location h
  type_eq h := congrArg Node.type h

/-- Trees that are equal and declare certain variables only. -/
def Likeness.equalDeclaring (declares : Variable → Prop) : Likeness :=
  { Likeness.equal with declares := declares }

/-- Two expressions that are alike. -/
inductive Expr.Alike (L : Likeness) : Expr → Expr → Prop
  | int {n n' : Node} (v : Int64) : L.node n n' → Alike L (.int n v) (.int n' v)
  | char {n n' : Node} (v : Int8) : L.node n n' → Alike L (.char n v) (.char n' v)
  | string {n n' : Node} (v : String) : L.node n n' → Alike L (.string n v) (.string n' v)
  | name {n n' : Node} (x : String) (link : Option Nat) :
      L.node n n' → L.links link → Alike L (.name n x link) (.name n' x link)
  | binary {n n' : Node} (op : BinaryOp) {l l' r r' : Expr} :
      L.node n n' → Alike L l l' → Alike L r r' → Alike L (.binary n op l r) (.binary n' op l' r')
  | unary {n n' : Node} (op : UnaryOp) {x x' : Expr} :
      L.node n n' → Alike L x x' → Alike L (.unary n op x) (.unary n' op x')
  | call {n n' : Node} (f : String) {args args' : List Expr} :
      L.node n n' → List.Forall₂ (Alike L) args args' →
        Alike L (.call n f args) (.call n' f args')
  | subscript {n n' : Node} {b b' i i' : Expr} :
      L.node n n' → Alike L b b' → Alike L i i' → Alike L (.subscript n b i) (.subscript n' b' i')
  | cast {n n' : Node} (t : Ty) {x x' : Expr} :
      L.node n n' → Alike L x x' → Alike L (.cast n t x) (.cast n' t x')
  | sizeof {n n' : Node} (t : Ty) : L.node n n' → Alike L (.sizeof n t) (.sizeof n' t)
  /-- A subscript that is written out: both new nodes stand where the subscript did. -/
  | written {n n' sum : Node} {b b' i i' : Expr} :
      L.writtenOut n.id → L.node n n' → n.location = sum.location → Alike L b b' → Alike L i i' →
        Alike L (.subscript n b i) (.unary n' .deref (.binary sum .add b' i'))

/-- Two declared variables that are alike. -/
structure Variable.Alike (L : Likeness) (v v' : Variable) : Prop where
  declares : L.declares v
  id_eq : v.id = v'.id
  name_eq : v.name = v'.name
  type_eq : v.type = v'.type
  location_eq : v.location = v'.location
  init : Option.Rel (Expr.Alike L) v.init v'.init

/-- Two statements that are alike. -/
inductive Stmt.Alike (L : Likeness) : Stmt → Stmt → Prop
  | declare (loc : Location) {vs vs' : List Variable} :
      List.Forall₂ (Variable.Alike L) vs vs' → Alike L (.declare loc vs) (.declare loc vs')
  | eval (loc : Location) {e e' : Expr} : e.Alike L e' → Alike L (.eval loc e) (.eval loc e')
  | branch (loc : Location) {c c' : Expr} {t t' : Stmt} {f f' : Option Stmt} :
      c.Alike L c' → Alike L t t' → Option.Rel (Alike L) f f' →
        Alike L (.branch loc c t f) (.branch loc c' t' f')
  | whileLoop (loc : Location) {c c' : Expr} {b b' : Stmt} :
      c.Alike L c' → Alike L b b' → Alike L (.whileLoop loc c b) (.whileLoop loc c' b')
  | doLoop (loc : Location) {c c' : Expr} {b b' : Stmt} :
      c.Alike L c' → Alike L b b' → Alike L (.doLoop loc b c) (.doLoop loc b' c')
  | forLoop (loc : Location) {i i' : Option Stmt} {c c' s s' : Option Expr} {b b' : Stmt} :
      Option.Rel (Alike L) i i' → Option.Rel (Expr.Alike L) c c' → Option.Rel (Expr.Alike L) s s' →
        Alike L b b' → Alike L (.forLoop loc i c s b) (.forLoop loc i' c' s' b')
  | ret (loc : Location) {e e' : Option Expr} :
      Option.Rel (Expr.Alike L) e e' → Alike L (.ret loc e) (.ret loc e')
  | block (loc : Location) {ss ss' : List Stmt} :
      List.Forall₂ (Alike L) ss ss' → Alike L (.block loc ss) (.block loc ss')
  | leave (loc : Location) : Alike L (.leave loc) (.leave loc)
  | next (loc : Location) : Alike L (.next loc) (.next loc)
  | empty (loc : Location) : Alike L (.empty loc) (.empty loc)

/-- Two functions that are alike: they differ in their bodies only. -/
structure Function.Alike (L : Likeness) (f f' : Function) : Prop where
  name_eq : f.name = f'.name
  params_eq : f.params = f'.params
  returnType_eq : f.returnType = f'.returnType
  intrinsic_eq : f.intrinsic = f'.intrinsic
  location_eq : f.location = f'.location
  body : Option.Rel (Stmt.Alike L) f.body f'.body

/-- Two programs that are alike. -/
structure Program.Alike (L : Likeness) (p p' : Program) : Prop where
  globals : List.Forall₂ (Variable.Alike L) p.globals p'.globals
  functions : List.Forall₂ (Function.Alike L) p.functions p'.functions
  declarations_eq : p.declarations = p'.declarations

/-! ### Data of alike trees -/

namespace Expr.Alike

variable {L : Likeness} {e e' : Expr}

theorem node (h : e.Alike L e') : L.node e.node e'.node := by
  cases h <;> assumption

theorem location_eq (h : e.Alike L e') : e.location = e'.location := L.location_eq h.node

theorem type_eq (h : e.Alike L e') : e.type = e'.type := L.type_eq h.node

theorem stride_eq (h : e.Alike L e') : e.stride = e'.stride := by
  rw [stride, stride, h.type_eq]

end Expr.Alike

theorem Function.Alike.isDefinition_eq {L : Likeness} {f f' : Function} (h : f.Alike L f') :
    f.isDefinition = f'.isDefinition := by
  unfold isDefinition
  have hb := h.body
  generalize f.body = b, f'.body = b' at hb
  cases hb <;> rfl

/-- Calls of functions that are alike differ in what their bodies do only. -/
theorem Function.Alike.enter_eq {L : Likeness} {f f' : Function} (h : f.Alike L f') {α : Type}
    (limit : Nat) (args : List Value) (loc : Location) (body : Eval α) (value : α → Frame → Value) :
    Eval.enter limit f args loc body value = Eval.enter limit f' args loc body value := by
  unfold Eval.enter Function.frame
  rw [h.name_eq, h.params_eq, h.returnType_eq]

/-! ### Trees are like themselves -/

theorem optionRel_refl {α : Type} {r : α → α → Prop} {o : Option α} (h : ∀ x ∈ o, r x x) :
    Option.Rel r o o := by
  cases o with
  | none => exact .none
  | some x => exact .some (h x rfl)

mutual

/-- Every expression is like itself. -/
theorem Expr.Alike.refl {L : Likeness} (hn : ∀ n, L.node n n)
    (hl : ∀ link, L.links link) : (e : Expr) → e.Alike L e
  | .int n v => .int v (hn n)
  | .char n v => .char v (hn n)
  | .string n v => .string v (hn n)
  | .name n x link => .name x link (hn n) (hl link)
  | .binary n op l r => .binary op (hn n) (refl hn hl l) (refl hn hl r)
  | .unary n op x => .unary op (hn n) (refl hn hl x)
  | .call n f args => .call f (hn n) (reflAll hn hl args)
  | .subscript n b i => .subscript (hn n) (refl hn hl b) (refl hn hl i)
  | .cast n t x => .cast t (hn n) (refl hn hl x)
  | .sizeof n t => .sizeof t (hn n)

/-- The expressions of a list are like themselves. -/
theorem Expr.Alike.reflAll {L : Likeness} (hn : ∀ n, L.node n n)
    (hl : ∀ link, L.links link) :
    (es : List Expr) → List.Forall₂ (Expr.Alike L) es es
  | [] => .nil
  | e :: es => .cons (refl hn hl e) (reflAll hn hl es)

end

/-- A variable that may be declared is like itself. -/
theorem Variable.Alike.refl {L : Likeness} (hn : ∀ n, L.node n n)
    (hl : ∀ link, L.links link) {v : Variable}
    (hv : L.declares v) : v.Alike L v where
  declares := hv
  id_eq := rfl
  name_eq := rfl
  type_eq := rfl
  location_eq := rfl
  init := optionRel_refl fun e _ => .refl hn hl e

mutual

/-- A statement is like itself, if all its variables may be declared. -/
theorem Stmt.Alike.refl {L : Likeness} (hn : ∀ n, L.node n n)
    (hl : ∀ link, L.links link) :
    (s : Stmt) → (∀ v ∈ s.vars, L.declares v) → s.Alike L s
  | .declare loc _, hv => .declare loc <| List.forall₂_same.2 fun v h => .refl hn hl (hv v h)
  | .eval loc e, _ => .eval loc (.refl hn hl e)
  | .branch loc c t f, hv =>
    .branch loc (.refl hn hl c) (refl hn hl t fun v h => hv v (List.mem_append_left _ h))
      (reflOption hn hl f fun v h => hv v (List.mem_append_right _ h))
  | .whileLoop loc c b, hv => .whileLoop loc (.refl hn hl c) (refl hn hl b hv)
  | .doLoop loc b c, hv => .doLoop loc (.refl hn hl c) (refl hn hl b hv)
  | .forLoop loc i _ _ b, hv =>
    .forLoop loc (reflOption hn hl i fun v h => hv v (List.mem_append_left _ h))
      (optionRel_refl fun e _ => .refl hn hl e) (optionRel_refl fun e _ => .refl hn hl e)
      (refl hn hl b fun v h => hv v (List.mem_append_right _ h))
  | .ret loc _, _ => .ret loc (optionRel_refl fun e _ => .refl hn hl e)
  | .block loc ss, hv => .block loc (reflAll hn hl ss hv)
  | .leave loc, _ => .leave loc
  | .next loc, _ => .next loc
  | .empty loc, _ => .empty loc

/-- The statements of a list are like themselves. -/
theorem Stmt.Alike.reflAll {L : Likeness} (hn : ∀ n, L.node n n)
    (hl : ∀ link, L.links link) :
    (ss : List Stmt) → (∀ v ∈ varsOf ss, L.declares v) → List.Forall₂ (Stmt.Alike L) ss ss
  | [], _ => .nil
  | s :: ss, hv =>
    .cons (refl hn hl s fun v h => hv v (List.mem_append_left _ h))
      (reflAll hn hl ss fun v h => hv v (List.mem_append_right _ h))

/-- An optional statement is like itself. -/
theorem Stmt.Alike.reflOption {L : Likeness} (hn : ∀ n, L.node n n)
    (hl : ∀ link, L.links link) :
    (o : Option Stmt) → (∀ v ∈ varsOfOption o, L.declares v) → Option.Rel (Stmt.Alike L) o o
  | none, _ => .none
  | some s, hv => .some (refl hn hl s hv)

end

/-- A function is like itself, if all its variables may be declared. -/
theorem Function.Alike.refl {L : Likeness} (hn : ∀ n, L.node n n)
    (hl : ∀ link, L.links link) {f : Function}
    (hv : ∀ v ∈ f.vars, L.declares v) : f.Alike L f where
  name_eq := rfl
  params_eq := rfl
  returnType_eq := rfl
  intrinsic_eq := rfl
  location_eq := rfl
  body := optionRel_refl fun s hs => .refl hn hl s fun v h => hv v (by
    rw [Option.mem_def] at hs
    simpa [Function.vars, hs] using h)

/-- A program is like itself, if all its variables may be declared. -/
theorem Program.Alike.refl {L : Likeness} (hn : ∀ n, L.node n n)
    (hl : ∀ link, L.links link) {p : Program}
    (hg : ∀ v ∈ p.globals, L.declares v) (hf : ∀ f ∈ p.functions, ∀ v ∈ f.vars, L.declares v) :
    p.Alike L p where
  globals := List.forall₂_same.2 fun v h => .refl hn hl (hg v h)
  functions := List.forall₂_same.2 fun f h => .refl hn hl (hf f h)
  declarations_eq := rfl

theorem Variable.alike_self (v : Variable) : v.Alike .equal v :=
  .refl (fun _ => rfl) (fun _ => trivial) trivial

theorem Function.alike_self (f : Function) : f.Alike .equal f :=
  .refl (fun _ => rfl) (fun _ => trivial) fun _ _ => trivial

theorem Program.alike_self (p : Program) : p.Alike .equal p :=
  .refl (fun _ => rfl) (fun _ => trivial) (fun _ _ => trivial) fun _ _ _ _ => trivial

/-! ### Trees that may differ in nothing -/

mutual

/-- Expressions that may differ in nothing are equal. -/
theorem Expr.Alike.eq : (e : Expr) → {e' : Expr} → e.Alike .equal e' → e = e'
  | .int _ v, _, .int _ hn => congrArg (Expr.int · v) hn
  | .char _ v, _, .char _ hn => congrArg (Expr.char · v) hn
  | .string _ v, _, .string _ hn => congrArg (Expr.string · v) hn
  | .name _ x link, _, .name _ _ hn _ => congrArg (Expr.name · x link) hn
  | .binary n op l r, _, @Expr.Alike.binary _ _ n' _ _ _ _ _ hn hl hr => by
    obtain rfl : n = n' := hn
    rw [Expr.Alike.eq l hl, Expr.Alike.eq r hr]
  | .unary n op x, _, @Expr.Alike.unary _ _ n' _ _ _ hn hx => by
    obtain rfl : n = n' := hn
    rw [Expr.Alike.eq x hx]
  | .call n f args, _, @Expr.Alike.call _ _ n' _ _ _ hn hargs => by
    obtain rfl : n = n' := hn
    rw [Expr.Alike.eqAll args hargs]
  | .subscript n b i, _, @Expr.Alike.subscript _ _ n' _ _ _ _ hn hb hi => by
    obtain rfl : n = n' := hn
    rw [Expr.Alike.eq b hb, Expr.Alike.eq i hi]
  | .subscript _ _ _, _, .written hw _ _ _ _ => hw.elim
  | .cast n t x, _, @Expr.Alike.cast _ _ n' _ _ _ hn hx => by
    obtain rfl : n = n' := hn
    rw [Expr.Alike.eq x hx]
  | .sizeof _ t, _, .sizeof _ hn => congrArg (Expr.sizeof · t) hn

theorem Expr.Alike.eqAll : (es : List Expr) → {es' : List Expr} →
    List.Forall₂ (Expr.Alike .equal) es es' → es = es'
  | [], _, .nil => rfl
  | e :: es, _, .cons he hes => congrArg₂ List.cons (Expr.Alike.eq e he) (Expr.Alike.eqAll es hes)

end

/-- Optional things that are equal if they are alike. -/
theorem eq_of_optionRel {α : Type} {r : α → α → Prop} (heq : ∀ x y, r x y → x = y)
    {o o' : Option α} (h : Option.Rel r o o') : o = o' := by
  cases h with
  | none => rfl
  | some hxy => exact congrArg some (heq _ _ hxy)

theorem Expr.Alike.eqOption {o o' : Option Expr} (h : Option.Rel (Expr.Alike .equal) o o') :
    o = o' :=
  eq_of_optionRel (fun e _ => Expr.Alike.eq e) h

theorem Variable.Alike.eq {v v' : Variable} (h : v.Alike .equal v') : v = v' := by
  cases v
  cases v'
  simp only [Variable.mk.injEq]
  exact ⟨h.id_eq, h.name_eq, h.type_eq, Expr.Alike.eqOption h.init, h.location_eq⟩

theorem Variable.Alike.eqAll {vs vs' : List Variable}
    (h : List.Forall₂ (Variable.Alike .equal) vs vs') : vs = vs' :=
  List.forall₂_eq_eq_eq ▸ h.imp fun _ _ => Variable.Alike.eq

mutual

/-- Statements that may differ in nothing are equal. -/
theorem Stmt.Alike.eq : (s : Stmt) → {s' : Stmt} → s.Alike .equal s' → s = s'
  | .declare loc _, _, .declare _ hvs => congrArg (Stmt.declare loc) (Variable.Alike.eqAll hvs)
  | .eval loc e, _, .eval _ he => congrArg (Stmt.eval loc) (Expr.Alike.eq e he)
  | .branch _ c t f, _, .branch _ hc ht hf => by
    rw [Expr.Alike.eq c hc, Stmt.Alike.eq t ht, Stmt.Alike.eqOption f hf]
  | .whileLoop _ c b, _, .whileLoop _ hc hb => by rw [Expr.Alike.eq c hc, Stmt.Alike.eq b hb]
  | .doLoop _ b c, _, .doLoop _ hc hb => by rw [Expr.Alike.eq c hc, Stmt.Alike.eq b hb]
  | .forLoop _ i _ _ b, _, .forLoop _ hi hc he hb => by
    rw [Stmt.Alike.eqOption i hi, Expr.Alike.eqOption hc, Expr.Alike.eqOption he,
      Stmt.Alike.eq b hb]
  | .ret loc _, _, .ret _ he => congrArg (Stmt.ret loc) (Expr.Alike.eqOption he)
  | .block loc ss, _, .block _ hss => congrArg (Stmt.block loc) (Stmt.Alike.eqAll ss hss)
  | .leave _, _, .leave _ => rfl
  | .next _, _, .next _ => rfl
  | .empty _, _, .empty _ => rfl

theorem Stmt.Alike.eqAll : (ss : List Stmt) → {ss' : List Stmt} →
    List.Forall₂ (Stmt.Alike .equal) ss ss' → ss = ss'
  | [], _, .nil => rfl
  | s :: ss, _, .cons hs hss => congrArg₂ List.cons (Stmt.Alike.eq s hs) (Stmt.Alike.eqAll ss hss)

theorem Stmt.Alike.eqOption : (o : Option Stmt) → {o' : Option Stmt} →
    Option.Rel (Stmt.Alike .equal) o o' → o = o'
  | none, _, .none => rfl
  | some s, _, .some hs => congrArg some (Stmt.Alike.eq s hs)

end

/-- Functions that may differ in nothing are equal. -/
theorem Function.Alike.eq {f f' : Function} (h : f.Alike .equal f') : f = f' := by
  cases f
  cases f'
  simp only [Function.mk.injEq]
  exact ⟨h.name_eq, h.params_eq, h.returnType_eq, Stmt.Alike.eqOption _ h.body, h.intrinsic_eq,
    h.location_eq⟩


/-! ### Calls by name -/

/-- In lists of functions that are alike, calls by name reach functions that are alike. -/
theorem calledFrom_alike {L : Likeness} (name : String) {fs fs' : List Function}
    (h : List.Forall₂ (Function.Alike L) fs fs') (index : Nat)
    {found found' : Option (Nat × Function)}
    (hfound : Option.Rel (fun q q' => q.2.Alike L q'.2) found found') :
    Option.Rel (fun q q' => q.2.Alike L q'.2) (Program.calledFrom name index found fs)
      (Program.calledFrom name index found' fs') := by
  induction h generalizing index found found' with
  | nil => exact hfound
  | cons hf _ ih =>
    rw [Program.calledFrom, Program.calledFrom, hf.name_eq, hf.isDefinition_eq]
    split
    · split
      · exact .some hf
      · exact ih (index + 1) (.some hf)
    · exact ih (index + 1) hfound

/-- In programs that are alike, calls by name reach functions that are alike. -/
theorem Program.Alike.function? {L : Likeness} {p p' : Program} (h : p.Alike L p')
    (name : String) : Option.Rel (Function.Alike L) (p.function? name) (p'.function? name) := by
  have hc := calledFrom_alike name h.functions 0 .none
  unfold Program.function? Program.called?
  generalize Program.calledFrom name 0 none p.functions = c,
    Program.calledFrom name 0 none p'.functions = c' at hc
  cases hc with
  | none => exact .none
  | some hf => exact .some hf

end MiniC
