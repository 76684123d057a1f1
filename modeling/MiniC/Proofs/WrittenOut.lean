import MiniC.Proofs.Resolving

/-!
# Writing subscripts out

We write some subscripts `a[i]` of a program out as `*(a + i)`, before its names are resolved.  Then
names refer to the same declarations as before, and all expressions have the types that they had,
if the subscripts that are written out keep theirs.

Main definitions:

* `MiniC.Likeness.writing`: trees in which subscripts are written out;
* `MiniC.Program.writeOut`: a program with subscripts written out.

Main results:

* `MiniC.Likeness.resolves_writing`: resolving keeps trees alike in which subscripts are written
  out;
* `MiniC.Program.alike_writeOut`: written out, a program is like itself.
-/

set_option autoImplicit false

namespace MiniC

/-- Trees that differ in the numbers of their nodes, and in subscripts that are written out; these
have numbers in `w`. -/
def Likeness.writing (w : Nat → Prop) : Likeness where
  node n n' := n.location = n'.location ∧ n.type = n'.type
  writtenOut := w
  declares _ := True
  links _ := True
  location_eq h := h.1
  type_eq h := h.2

/-- Resolving keeps trees alike in which subscripts are written out. -/
theorem Likeness.resolves_writing (w : Nat → Prop) : (Likeness.writing w).Resolves where
  node h _ := ⟨h.1, rfl⟩
  links _ := trivial
  declares _ _ := trivial

/-! ### Writing subscripts out -/

mutual

/-- The expression in which the subscripts with numbers in `w` are written out.  Both new nodes
stand where the subscript did, and bear its number. -/
def Expr.writeOut (w : Nat → Bool) : Expr → Expr
  | .int n v => .int n v
  | .char n v => .char n v
  | .string n v => .string n v
  | .name n x link => .name n x link
  | .binary n op l r => .binary n op (l.writeOut w) (r.writeOut w)
  | .unary n op x => .unary n op (x.writeOut w)
  | .call n f args => .call n f (writeOutAll w args)
  | .subscript n b i =>
    if w n.id then .unary n .deref (.binary n .add (b.writeOut w) (i.writeOut w))
    else .subscript n (b.writeOut w) (i.writeOut w)
  | .cast n t x => .cast n t (x.writeOut w)
  | .sizeof n t => .sizeof n t

/-- The expressions of a list with subscripts written out. -/
def Expr.writeOutAll (w : Nat → Bool) : List Expr → List Expr
  | [] => []
  | e :: es => e.writeOut w :: writeOutAll w es

end

/-- The variable with subscripts written out in its initial value. -/
def Variable.writeOut (w : Nat → Bool) (v : Variable) : Variable :=
  { v with init := v.init.map (Expr.writeOut w) }

mutual

/-- The statement with subscripts written out. -/
def Stmt.writeOut (w : Nat → Bool) : Stmt → Stmt
  | .declare loc vs => .declare loc (vs.map (Variable.writeOut w))
  | .eval loc e => .eval loc (e.writeOut w)
  | .branch loc c t f => .branch loc (c.writeOut w) (t.writeOut w) (writeOutOption w f)
  | .whileLoop loc c b => .whileLoop loc (c.writeOut w) (b.writeOut w)
  | .doLoop loc b c => .doLoop loc (b.writeOut w) (c.writeOut w)
  | .forLoop loc i c s b =>
    .forLoop loc (writeOutOption w i) (c.map (Expr.writeOut w)) (s.map (Expr.writeOut w))
      (b.writeOut w)
  | .ret loc e => .ret loc (e.map (Expr.writeOut w))
  | .block loc ss => .block loc (writeOutAll w ss)
  | .leave loc => .leave loc
  | .next loc => .next loc
  | .empty loc => .empty loc

/-- The statements of a list with subscripts written out. -/
def Stmt.writeOutAll (w : Nat → Bool) : List Stmt → List Stmt
  | [] => []
  | s :: ss => s.writeOut w :: writeOutAll w ss

/-- The optional statement with subscripts written out. -/
def Stmt.writeOutOption (w : Nat → Bool) : Option Stmt → Option Stmt
  | none => none
  | some s => some (s.writeOut w)

end

/-- The program with subscripts written out, those with numbers in `w`. -/
def Program.writeOut (w : Nat → Bool) (p : Program) : Program where
  globals := p.globals.map (Variable.writeOut w)
  functions := p.functions.map fun f => { f with body := f.body.map (Stmt.writeOut w) }
  declarations := p.declarations

section WriteOut

variable (w : Nat → Bool)

mutual

/-- Written out, an expression is like itself. -/
theorem Expr.alike_writeOut : (e : Expr) → e.Alike (.writing fun id => w id = true) (e.writeOut w)
  | .int _ v => .int v ⟨rfl, rfl⟩
  | .char _ v => .char v ⟨rfl, rfl⟩
  | .string _ v => .string v ⟨rfl, rfl⟩
  | .name _ x link => .name x link ⟨rfl, rfl⟩ trivial
  | .binary _ op l r => .binary op ⟨rfl, rfl⟩ (alike_writeOut l) (alike_writeOut r)
  | .unary _ op x => .unary op ⟨rfl, rfl⟩ (alike_writeOut x)
  | .call _ f args => .call f ⟨rfl, rfl⟩ (alike_writeOutAll args)
  | .subscript n b i => by
    have hb := alike_writeOut b
    have hi := alike_writeOut i
    unfold writeOut
    split
    next hw => exact .written hw ⟨rfl, rfl⟩ rfl hb hi
    next => exact .subscript ⟨rfl, rfl⟩ hb hi
  | .cast _ t x => .cast t ⟨rfl, rfl⟩ (alike_writeOut x)
  | .sizeof _ t => .sizeof t ⟨rfl, rfl⟩

/-- Written out, the expressions of a list are like themselves. -/
theorem Expr.alike_writeOutAll : (es : List Expr) →
    List.Forall₂ (Expr.Alike (.writing fun id => w id = true)) es (Expr.writeOutAll w es)
  | [] => .nil
  | e :: es => .cons (alike_writeOut e) (alike_writeOutAll es)

end

theorem Expr.alike_writeOutOption (o : Option Expr) :
    Option.Rel (Expr.Alike (.writing fun id => w id = true)) o (o.map (Expr.writeOut w)) := by
  cases o with
  | none => exact .none
  | some e => exact .some (e.alike_writeOut w)

theorem Variable.alike_writeOut (v : Variable) :
    v.Alike (.writing fun id => w id = true) (v.writeOut w) where
  declares := trivial
  id_eq := rfl
  name_eq := rfl
  type_eq := rfl
  location_eq := rfl
  init := Expr.alike_writeOutOption w v.init

theorem Variable.alike_map_writeOut (vs : List Variable) :
    List.Forall₂ (Variable.Alike (.writing fun id => w id = true)) vs
      (vs.map (Variable.writeOut w)) :=
  List.forall₂_map_right_iff.2 (List.forall₂_same.2 fun v _ => v.alike_writeOut w)

mutual

/-- Written out, a statement is like itself. -/
theorem Stmt.alike_writeOut : (s : Stmt) → s.Alike (.writing fun id => w id = true) (s.writeOut w)
  | .declare loc vs => .declare loc (Variable.alike_map_writeOut w vs)
  | .eval loc e => .eval loc (e.alike_writeOut w)
  | .branch loc c t f =>
    .branch loc (c.alike_writeOut w) (alike_writeOut t) (alike_writeOutOption f)
  | .whileLoop loc c b => .whileLoop loc (c.alike_writeOut w) (alike_writeOut b)
  | .doLoop loc b c => .doLoop loc (c.alike_writeOut w) (alike_writeOut b)
  | .forLoop loc i c s b =>
    .forLoop loc (alike_writeOutOption i) (Expr.alike_writeOutOption w c)
      (Expr.alike_writeOutOption w s) (alike_writeOut b)
  | .ret loc e => .ret loc (Expr.alike_writeOutOption w e)
  | .block loc ss => .block loc (alike_writeOutAll ss)
  | .leave loc => .leave loc
  | .next loc => .next loc
  | .empty loc => .empty loc

/-- Written out, the statements of a list are like themselves. -/
theorem Stmt.alike_writeOutAll : (ss : List Stmt) →
    List.Forall₂ (Stmt.Alike (.writing fun id => w id = true)) ss (Stmt.writeOutAll w ss)
  | [] => .nil
  | s :: ss => .cons (alike_writeOut s) (alike_writeOutAll ss)

/-- Written out, an optional statement is like itself. -/
theorem Stmt.alike_writeOutOption : (o : Option Stmt) →
    Option.Rel (Stmt.Alike (.writing fun id => w id = true)) o (Stmt.writeOutOption w o)
  | none => .none
  | some s => .some (alike_writeOut s)

end

/-- Written out, a program is like itself. -/
theorem Program.alike_writeOut (p : Program) :
    p.Alike (.writing fun id => w id = true) (p.writeOut w) where
  globals := Variable.alike_map_writeOut w p.globals
  functions := List.forall₂_map_right_iff.2 <| List.forall₂_same.2 fun f _ =>
    { name_eq := rfl
      params_eq := rfl
      returnType_eq := rfl
      intrinsic_eq := rfl
      location_eq := rfl
      body := by
        cases f.body with
        | none => exact .none
        | some s => exact .some (s.alike_writeOut w) }
  declarations_eq := rfl

end WriteOut

end MiniC
