import MiniC.Proofs.Unplaced

/-!
# What compound assignments abbreviate

A compound assignment `x += e` determines its target once, reads it there, and evaluates `e` then;
`x = x + e` determines the target, evaluates `x` like any other operand, and then `e`.  As long as
`x` calls nothing and stores nothing, the two do the same, whatever `e` does to the variables and
the memory meanwhile: the value of `x` is the one read at the place that it names, and evaluating it
a second time changes nothing.  `++x` and `--x` are `x += 1` and `x -= 1`, and so are `x++` and
`x--` but for the value that they yield.

Main definitions:

* `MiniC.Expr.isSteady`: an expression that calls nothing and stores nothing;
* `MiniC.Expr.Copies`: two expressions are copies of one text;
* `MiniC.Eval.Steady`: a computation changes nothing but remembered values.

Main results:

* `MiniC.seen_evalExpr_of_evalPlace`: the value of an expression is the one at the place that it
  names;
* `MiniC.resembles_compound`, `MiniC.resembles_increment_assign`: the abbreviations one by one;
* `MiniC.assignments_abbreviate`: all of them, for resolved expressions.
-/

set_option autoImplicit false

namespace MiniC

open Eval

/-! ### Steady expressions -/

/-- The operator stores to its operand. -/
def UnaryOp.isIncrement : UnaryOp → Bool
  | preInc | preDec | postInc | postDec => true
  | neg | not | bitNot | deref | addrOf => false

namespace Expr

/-- The expression calls nothing and stores nothing. -/
def isSteady : Expr → Bool
  | int _ _ | char _ _ | string _ _ | name _ _ _ | sizeof _ _ => true
  | binary _ op l r => !op.isAssignment && l.isSteady && r.isSteady
  | unary _ op x => !op.isIncrement && x.isSteady
  | call _ _ _ => false
  | subscript _ b i => b.isSteady && i.isSteady
  | cast _ _ x => x.isSteady

/-- Resolving does not make an expression call or store anything. -/
theorem isSteady_resolve (s : Scope) : (e : Expr) → (e.resolve s).isSteady = e.isSteady
  | int _ _ | char _ _ | string _ _ | name _ _ _ | sizeof _ _ | call _ _ _ => rfl
  | binary _ op l r => by
    simp only [resolve, isSteady, isSteady_resolve s l, isSteady_resolve s r]
  | unary _ op x => by simp only [resolve, isSteady, isSteady_resolve s x]
  | subscript _ b i => by
    simp only [resolve, isSteady, isSteady_resolve s b, isSteady_resolve s i]
  | cast _ _ x => by simp only [resolve, isSteady, isSteady_resolve s x]

/-- The expressions are copies of one text: they differ in numbers and locations at most. -/
def Copies (e e' : Expr) : Prop := e'.unplaced = e.unplaced

/-- Copies are resolved to copies. -/
theorem Copies.resolve {e e' : Expr} (h : e.Copies e') (s : Scope) :
    (e.resolve s).Copies (e'.resolve s) :=
  unplaced_resolve_congr h s

theorem Copies.stride_eq {e e' : Expr} (h : e.Copies e') : e'.stride = e.stride := by
  rw [stride, stride, type_eq_of_unplaced h]

end Expr

namespace Eval

variable {α β : Type}

/-- The computation leaves the machine as it is, but for remembered values. -/
def Steady (x : Eval α) : Prop :=
  ∀ m m', (x.run m).machine? = some m' → Blur.remembered.Same m m'

theorem Steady.bind {x : Eval α} {f : α → Eval β} (hx : Steady x) (hf : ∀ a, Steady (f a)) :
    Steady (x >>= f) := by
  intro m m' h
  obtain hm' | ⟨a, m₁, hx₁, hm'⟩ := machine?_bind h
  · exact hx m m' hm'
  · exact (hx m m₁ (congrArg Outcome.machine? hx₁)).trans (hf a m₁ m' hm')

theorem steady_pure (a : α) : Steady (pure a) := fun m m' h => by cases h; rfl

theorem steady_fault (loc : Location) (f : Fault) : Steady (fault loc f : Eval α) :=
  fun m m' h => by cases h; rfl

theorem steady_ofExcept (loc : Location) (x : Except Fault α) : Steady (ofExcept loc x) := by
  cases x with
  | ok a => exact steady_pure a
  | error f => exact steady_fault loc f

theorem steady_query (loc : Location) (f : Machine → Except Fault α) : Steady (query loc f) :=
  fun m m' h => by rw [eq_of_query h]; rfl

theorem Steady.remembered {x : Eval Value} (hx : Steady x) (n : Node) :
    Steady (remembered n x) :=
  hx.bind fun v => Steady.bind
    (fun m m' h => by cases h; exact (same_remember rfl m n.id v).symm) fun _ => steady_pure v

theorem Steady.operate {op : BinaryOp} {l r : Expr} {loc : Location} {x y : Eval Value}
    (hx : Steady x) (hy : Steady y) : Steady (operate op l r loc x y) :=
  hx.bind fun _ => hy.bind fun _ => steady_ofExcept loc _

theorem Steady.follow {loc : Location} {x : Eval Value} (hx : Steady x) :
    Steady (follow loc x) :=
  hx.bind fun v => by
    cases v with
    | integer n => exact steady_fault loc _
    | pointer p => exact steady_pure p
    | uninitialized => exact steady_fault loc _

theorem Steady.load {loc : Location} {x : Eval Pointer} (hx : Steady x) : Steady (load loc x) :=
  hx.bind fun _ => steady_query loc _

end Eval

/-- To evaluate an expression that calls nothing and stores nothing leaves the machine as it is. -/
theorem steady_evalExpr (env : Env) : (e : Expr) → e.isSteady = true → Steady (evalExpr env e)
  | .int n v, _ => (steady_pure _).remembered n
  | .char n c, _ => (steady_pure _).remembered n
  | .string n _, _ => (steady_fault _ _).remembered n
  | .name n x link, _ => Steady.remembered (steady_query _ _) n
  | .binary n op l r, h => by
    simp only [Expr.isSteady, Bool.and_eq_true, Bool.not_eq_true'] at h
    rw [evalExpr, h.1.1, if_neg Bool.false_ne_true]
    exact ((steady_evalExpr env l h.1.2).operate (steady_evalExpr env r h.2)).remembered n
  | .unary n op x, h => by
    simp only [Expr.isSteady, Bool.and_eq_true, Bool.not_eq_true'] at h
    have hx := steady_evalExpr env x h.2
    refine Steady.remembered ?_ n
    cases op with
    | preInc | preDec | postInc | postDec => cases h.1
    | addrOf => exact steady_fault _ _
    | deref => exact hx.follow.load
    | neg | not | bitNot => exact hx.bind fun _ => steady_ofExcept _ _
  | .subscript n b i, h => by
    simp only [Expr.isSteady, Bool.and_eq_true] at h
    exact ((steady_evalExpr env b h.1).operate (steady_evalExpr env i h.2)).follow.load.remembered n
  | .cast n t x, h => ((steady_evalExpr env x h).bind fun _ => steady_pure _).remembered n
  | .sizeof n t, _ => by
    refine Steady.remembered ?_ n
    unfold Eval.sizeof
    split
    · split
      · exact steady_pure _
      · exact steady_fault _ _
    · exact steady_fault _ _

/-- So does it to determine the place that it names. -/
theorem steady_evalPlace (env : Env) (e : Expr) (h : e.isSteady = true) :
    Steady (evalPlace env e) := by
  cases e with
  | name n x link => exact steady_query _ _
  | subscript n b i =>
    simp only [Expr.isSteady, Bool.and_eq_true] at h
    have haddress : Steady (evalAddress env (.subscript n b i)) :=
      ((steady_evalExpr env b h.1).operate (steady_evalExpr env i h.2)).follow
    exact haddress.bind fun _ => steady_pure _
  | unary n op x =>
    simp only [Expr.isSteady, Bool.and_eq_true] at h
    cases op with
    | deref =>
      have haddress : Steady (evalAddress env (.unary n .deref x)) :=
        (steady_evalExpr env x h.2).follow
      exact haddress.bind fun _ => steady_pure _
    | _ => exact steady_fault _ _
  | _ => exact steady_fault _ _

/-! ### The value at a place -/

/-- A question that is answered has its answer, and leaves the machine. -/
theorem Eval.ok_of_query {α : Type} {loc : Location} {f : Machine → Except Fault α} {m m' : Machine}
    {a : α} (h : (query loc f).run m = .done a m') : f m = .ok a ∧ m' = m := by
  dsimp only [query, op] at h
  split at h
  · next hok =>
    cases h
    exact ⟨hok, rfl⟩
  · cases h

/-- Where a variable is stored, its value stands. -/
theorem Machine.readPlace_of_placeOfName {m : Machine} {x : String} {link : Option Nat}
    {isArray : Nat → Bool} {place : Place} (h : m.placeOfName x link isArray = .ok place) :
    m.readPlace place = m.readName x link := by
  cases link with
  | none => cases h
  | some id =>
    simp only [placeOfName] at h
    split at h
    · cases h
    · split at h
      · next hlocal =>
        cases h
        obtain ⟨v, hv⟩ := Option.isSome_iff_exists.1 hlocal
        simp only [readPlace, readName, hv, Option.getD_some]
      · split at h
        · next hlocal hglobal =>
          cases h
          obtain ⟨v, hv⟩ := Option.isSome_iff_exists.1 hglobal
          rw [Option.not_isSome_iff_eq_none] at hlocal
          simp only [readPlace, readName, hlocal, hv, Option.getD_some]
        · cases h

/-- The value of an expression that names a place is the one that stands there. -/
theorem seen_evalExpr_of_evalPlace {env : Env} {e : Expr} {m m₁ : Machine} {place : Place}
    (h : (evalPlace env e).run m = .done place m₁) (loc : Location) :
    ((evalExpr env e).run m).seen = ((readPlace place loc).run m₁).seen := by
  have hmemory : ∀ n, evalExpr env e = remembered n (load n.location (evalAddress env e)) →
      evalPlace env e = (evalAddress env e >>= fun p => pure (.memory p)) →
      ((evalExpr env e).run m).seen = ((readPlace place loc).run m₁).seen := by
    intro n hexpr hplace
    rw [hplace] at h
    obtain ⟨p, m₂, haddress, hp⟩ := run_bind_eq_done h
    cases hp
    rw [hexpr, seen_remembered, load, run_bind_done haddress]
    exact resembles_readPlace _ _ loc m₁ m₁ rfl
  cases e with
  | name n x link =>
    have hquery : (query n.location fun m => m.placeOfName x link env.isArray).run m =
        .done place m₁ := h
    obtain ⟨hok, rfl⟩ := ok_of_query hquery
    rw [evalExpr, seen_remembered]
    have hread := Machine.readPlace_of_placeOfName hok
    show ((query n.location fun m => m.readName x link).run m₁).seen = _
    dsimp only [query, op, readPlace]
    rw [hread]
    cases m₁.readName x link <;> rfl
  | subscript n b i => exact hmemory n (evalExpr_subscript env n b i) rfl
  | unary n op x =>
    cases op with
    | deref => exact hmemory n (evalExpr_deref env n x) rfl
    | _ => cases h
  | _ => cases h

/-! ### Compound assignments -/

/-- The value of an assignment. -/
theorem evalExpr_of_isAssignment (env : Env) (n : Node) {op : BinaryOp} (l r : Expr)
    (h : op.isAssignment = true) : evalExpr env (.binary n op l r) =
      remembered n (assign op l r n.location (evalPlace env l) (evalExpr env r)) := by
  rw [evalExpr, if_pos h]
  rfl

/-- The value of another binary expression. -/
theorem evalExpr_of_not_isAssignment (env : Env) (n : Node) {op : BinaryOp} (l r : Expr)
    (h : op.isAssignment = false) : evalExpr env (.binary n op l r) =
      remembered n (operate op l r n.location (evalExpr env l) (evalExpr env r)) := by
  rw [evalExpr, h, if_neg Bool.false_ne_true]

theorem isAssignment_of_compoundBase?_eq_some {op base : BinaryOp}
    (h : op.compoundBase? = some base) : op.isAssignment = true :=
  op.isAssignment_iff.2 (.inr ⟨base, h⟩)

theorem assigned_assign (l r : Expr) (loc : Location) (place : Place) (right : Eval Value) :
    assigned .assign l r loc place right = right := rfl

/-- What a compound assignment stores. -/
theorem assigned_of_compoundBase? {op base : BinaryOp} (h : op.compoundBase? = some base)
    (l r : Expr) (loc : Location) (place : Place) (right : Eval Value) :
    assigned op l r loc place right = (do
      let current ← readPlace place loc
      remember l.id current
      let b ← right
      ofExcept loc (base.apply current b l.stride r.stride)) := by
  rw [assigned, h]

/-- A compound assignment to a steady target abbreviates an assignment. -/
theorem resembles_compound {env : Env} (hc : env.CallsAnywhere) {op base : BinaryOp}
    (hop : op.compoundBase? = some base) {l l₁ l₂ r r₁ : Expr} (hl : l.isSteady = true)
    (h₁ : l.Copies l₁) (h₂ : l.Copies l₂) (hr : r.Copies r₁) (n n' n'' : Node) :
    Resembles (evalExpr env (.binary n op l r))
      (evalExpr env (.binary n' .assign l₁ (.binary n'' base l₂ r₁))) := by
  rw [evalExpr_of_isAssignment env n l r (isAssignment_of_compoundBase?_eq_some hop),
    evalExpr_of_isAssignment env n' l₁ _ rfl]
  refine Resembles.remembered (fun m m' hm => ?_) n n'
  refine seen_bind (resembles_evalPlace hc h₁ m m' hm) fun place m₁ m₁' hplace _ hm₁ => ?_
  have hsame : Blur.remembered.Same m m₁ :=
    steady_evalPlace env l hl m m₁ (congrArg Outcome.machine? hplace)
  refine seen_bind ?_ fun v m₂ m₂' _ _ hm₂ => ?_
  · -- Reading the place once more yields the value of the copy, evaluated once more.
    have hread : ((readPlace place n.location).run m₁).seen = ((evalExpr env l₂).run m₁').seen :=
      (seen_evalExpr_of_evalPlace hplace n.location).symm.trans
        (resembles_evalExpr hc h₂ m m₁' (hsame.trans hm₁))
    rw [evalExpr_of_not_isAssignment env n'' l₂ r₁ (BinaryOp.isAssignment_of_compoundBase? hop),
      assigned_assign, seen_remembered, assigned_of_compoundBase? hop]
    refine seen_bind hread fun current m₃ m₃' _ _ hm₃ => ?_
    have hright : Resembles
        (evalExpr env r >>= fun b => ofExcept n.location (base.apply current b l.stride r.stride))
        (evalExpr env r₁ >>= fun b =>
          ofExcept n''.location (base.apply current b l₂.stride r₁.stride)) :=
      (resembles_evalExpr hc hr).bind fun b => by
        rw [h₂.stride_eq, hr.stride_eq]
        exact resembles_ofExcept _ _ _
    exact hright _ m₃' ((same_remember rfl m₃ l.id current).trans hm₃)
  · rw [Expr.type_eq_of_unplaced h₁]
    exact resembles_store place _ _ _ _ m₂ m₂' hm₂

/-! ### Increments -/

/-- To add a number, and to apply a compound operation to 1, is the same but for where errors are
reported. -/
def BinaryOp.Moves (base : BinaryOp) (delta : Int64) : Prop :=
  ∀ (v : Value) (size size' : Int64) (loc loc' : Location),
    Resembles (ofExcept loc (add.apply v (.integer delta) size 1))
      (ofExcept loc' (base.apply v (.integer 1) size size'))

theorem BinaryOp.moves_add : add.Moves 1 := fun v _ _ loc loc' => by
  cases v with
  | integer n => exact resembles_ofExcept loc loc' _
  | pointer p => exact resembles_ofExcept loc loc' _
  | uninitialized => exact resembles_fault loc loc' rfl

/-- To add -1 is to subtract 1. -/
theorem BinaryOp.moves_sub : sub.Moves (-1) := fun v _ _ loc loc' => by
  cases v with
  | integer n =>
    have hsub : n + -1 = n - 1 := (Int64.sub_eq_add_neg n 1).symm
    show Resembles (pure (Value.integer (n + -1))) (pure (Value.integer (n - 1)))
    rw [hsub]
    exact resembles_pure _
  | pointer p => exact resembles_ofExcept loc loc' _
  | uninitialized => exact resembles_fault loc loc' rfl

/-- To remember a value first does not show. -/
theorem Eval.Resembles.remember_left {α : Type} {x y : Eval α} (h : Resembles x y) (n : Nat)
    (v : Value) : Resembles x (remember n v >>= fun _ => y) := by
  intro m m' hm
  exact h m _ (hm.trans (same_remember rfl m' n v).symm)

/-- An increment stores what the compound assignment with 1 stores. -/
theorem resembles_increment_assign {env : Env} (hc : env.CallsAnywhere) {op base : BinaryOp}
    {delta : Int64} (hop : op.compoundBase? = some base) (hmoves : base.Moves delta)
    {l l₁ : Expr} (h₁ : l.Copies l₁) (loc loc' : Location) (k : Node) :
    Resembles (increment l delta false loc (evalPlace env l))
      (assign op l₁ (.int k 1) loc' (evalPlace env l₁) (evalExpr env (.int k 1))) := by
  refine (resembles_evalPlace hc h₁).bind fun place => ?_
  rw [assigned_of_compoundBase? hop, bind_assoc]
  refine (resembles_readPlace place loc loc').bind fun current => ?_
  rw [bind_assoc, bind_assoc]
  refine Resembles.remember_left ?_ l₁.id current
  have hone : evalExpr env (.int k 1) = remember k.id (.integer 1) >>= fun _ =>
      pure (.integer 1) := by
    rw [evalExpr, remembered, pure_bind]
  rw [hone, bind_assoc]
  refine Resembles.remember_left ?_ k.id (.integer 1)
  rw [pure_bind, h₁.stride_eq, Expr.type_eq_of_unplaced h₁]
  exact (hmoves current _ _ loc loc').bind fun v => resembles_store place _ _ loc loc'

/-- What is left of a computation whose value is dropped. -/
def Eval.effect {α : Type} (x : Eval α) : Eval Unit := do
  let _ ← x
  return ()

/-- An increment behind its operand has the same effect as one in front of it. -/
theorem effect_increment (x : Expr) (delta : Int64) (loc : Location) (target : Eval Place) :
    effect (increment x delta true loc target) = effect (increment x delta false loc target) := by
  simp only [effect, increment, bind_assoc, pure_bind]

/-- To remember the value of what is dropped does not show. -/
theorem resembles_effect {x y : Eval Value} (h : Resembles (effect x) (effect y)) (n n' : Node) :
    Resembles (effect (remembered n x)) (effect (remembered n' y)) := by
  have hseen : ∀ (n : Node) (x : Eval Value) (m : Machine),
      ((effect (remembered n x)).run m).seen = ((effect x).run m).seen := by
    intro n x m
    rw [effect, remembered, bind_assoc]
    refine seen_bind rfl fun v m₁ m₁' _ _ hm₁ => ?_
    exact (Resembles.remember_left (resembles_pure ()) n.id v m₁' m₁ hm₁.symm).symm
  intro m m' hm
  rw [hseen, hseen]
  exact h m m' hm

/-- An increment behind its operand yields the value that the operand had. -/
theorem exists_done_of_increment {env : Env} {n : Node} {l : Expr} (hl : l.isSteady = true)
    {delta : Int64} {loc : Location} {m m' : Machine} {v : Value}
    (h : (remembered n (increment l delta true loc (evalPlace env l))).run m = .done v m') :
    ∃ m₁, (evalExpr env l).run m = .done v m₁ ∧ Blur.remembered.Same m m₁ := by
  obtain ⟨w, m₁, hincrement, h⟩ := run_bind_eq_done h
  cases h
  obtain ⟨place, m₂, hplace, h⟩ := run_bind_eq_done hincrement
  obtain ⟨current, m₃, hread, h⟩ := run_bind_eq_done h
  obtain ⟨moved, m₄, -, h⟩ := run_bind_eq_done h
  obtain ⟨_, m₅, -, h⟩ := run_bind_eq_done h
  cases h
  have hseen := seen_evalExpr_of_evalPlace hplace loc
  rw [hread] at hseen
  obtain ⟨m₆, hdone, -⟩ := Outcome.exists_done_of_seen_eq hseen.symm
  exact ⟨m₆, hdone, steady_evalExpr env l hl m m₆ (congrArg Outcome.machine? hdone)⟩

/-! ### Resolved expressions -/

/-- Whatever the program and the machine are: if `l` calls nothing and stores nothing, then a
compound assignment to `l` shows what the assignment shows that it abbreviates; `++l` and `--l` show
what `l += 1` and `l -= 1` show; and `l++` and `l--` have the effect of these, and yield the value
that `l` has. -/
theorem assignments_abbreviate (ctx : Context) (fuel : Nat) (s : Scope) {l : Expr}
    (hl : l.isSteady = true) :
    let eval := fun e : Expr => evalExpr (ctx.env fuel) (e.resolve s)
    (∀ {op base : BinaryOp} {l₁ l₂ r r₁ : Expr} (n n' n'' : Node), op.compoundBase? = some base →
      l.Copies l₁ → l.Copies l₂ → r.Copies r₁ →
        Resembles (eval (.binary n op l r))
          (eval (.binary n' .assign l₁ (.binary n'' base l₂ r₁)))) ∧
    ∀ {l₁ : Expr} (n n' k : Node), l.Copies l₁ →
      Resembles (eval (.unary n .preInc l)) (eval (.binary n' .addAssign l₁ (.int k 1))) ∧
      Resembles (eval (.unary n .preDec l)) (eval (.binary n' .subAssign l₁ (.int k 1))) ∧
      Resembles (effect (eval (.unary n .postInc l)))
        (effect (eval (.binary n' .addAssign l₁ (.int k 1)))) ∧
      Resembles (effect (eval (.unary n .postDec l)))
        (effect (eval (.binary n' .subAssign l₁ (.int k 1)))) ∧
      ∀ {op : UnaryOp} {m m' : Machine} {v : Value}, op = .postInc ∨ op = .postDec →
        (eval (.unary n op l)).run m = .done v m' →
          ∃ m₁, (eval l₁).run m = .done v m₁ ∧ Blur.remembered.Same m m₁ := by
  intro eval
  have hc := ctx.callsAnywhere fuel
  have hsteady : (l.resolve s).isSteady = true := by rw [Expr.isSteady_resolve, hl]
  refine ⟨fun n n' n'' hop h₁ h₂ hr => ?_, fun n n' k h₁ => ?_⟩
  · exact resembles_compound hc hop hsteady (h₁.resolve s) (h₂.resolve s) (hr.resolve s) _ _ _
  · have hplus : BinaryOp.addAssign.compoundBase? = some .add := rfl
    have hminus : BinaryOp.subAssign.compoundBase? = some .sub := rfl
    have hadd := fun loc loc' => resembles_increment_assign hc hplus BinaryOp.moves_add
      (h₁.resolve s) loc loc' { k with type := some .int }
    have hsub := fun loc loc' => resembles_increment_assign hc hminus BinaryOp.moves_sub
      (h₁.resolve s) loc loc' { k with type := some .int }
    refine ⟨(hadd _ _).remembered _ _, (hsub _ _).remembered _ _, ?_, ?_, ?_⟩
    · refine resembles_effect ?_ _ _
      rw [effect_increment]
      exact (hadd _ _).bind fun _ => resembles_pure ()
    · refine resembles_effect ?_ _ _
      rw [effect_increment]
      exact (hsub _ _).bind fun _ => resembles_pure ()
    · intro op m m' v hop h
      have hvalue : ∃ m₁, (eval l).run m = .done v m₁ ∧ Blur.remembered.Same m m₁ := by
        rcases hop with rfl | rfl <;> exact exists_done_of_increment hsteady h
      obtain ⟨m₁, hdone, hm₁⟩ := hvalue
      have hseen := resembles_evalExpr hc (h₁.resolve s) m m rfl
      rw [hdone] at hseen
      obtain ⟨m₂, hdone₂, hm₂⟩ := Outcome.exists_done_of_seen_eq hseen
      exact ⟨m₂, hdone₂, hm₁.trans hm₂⟩

/-- A program with a function that stores to a global, and yields 1. -/
def meddling : Program := .ofText "int g; int f() { g = 100; return 1; }"

/-- What an expression about that program does. -/
def meddlingEval (e : Expr) : Eval Value :=
  evalExpr (Context.env ⟨meddling, {}⟩ 9)
    (e.resolve ⟨meddling.declarations, meddling.functions, [("g", 0)], []⟩)

/-- A machine on which the global is 5. -/
def meddlingMachine : Machine :=
  { (Session.start meddling {} (.ofBytes []) .unlimited none).machine with
    globals := ⟨[(0, .integer 5)]⟩ }

/-- The value that an expression about that program shows on that machine. -/
def meddlingValue (e : Expr) : Option (Except Fault.Kind Value) :=
  ((meddlingEval e).run meddlingMachine).seen.map Prod.fst

/-- The global, written at some column. -/
def meddlingTarget (column : Nat) : Expr := .name ⟨column, ⟨1, column⟩, none⟩ "g" none

/-- A call of the function, written at some column. -/
def meddlingCall (column : Nat) : Expr := .call ⟨column, ⟨1, column⟩, none⟩ "f" []

/-- `g += f()` is `g = g + f()`: both read the global before the function stores to it. -/
theorem assignments_abbreviate_meddling :
    (meddlingTarget 1).isSteady = true ∧
    meddlingValue (.binary ⟨3, ⟨1, 3⟩, none⟩ .addAssign (meddlingTarget 1) (meddlingCall 6)) =
      some (.ok (.integer 6)) ∧
    meddlingValue (.binary ⟨3, ⟨1, 3⟩, none⟩ .assign (meddlingTarget 1)
      (.binary ⟨7, ⟨1, 7⟩, none⟩ .add (meddlingTarget 5) (meddlingCall 9))) =
        some (.ok (.integer 6)) ∧
    meddlingValue (.unary ⟨2, ⟨1, 2⟩, none⟩ .postInc (meddlingTarget 1)) =
      some (.ok (.integer 5)) := by
  have hsteady : (meddlingTarget 1).isSteady = true := by decide
  have habbreviate := assignments_abbreviate ⟨meddling, {}⟩ 9
    ⟨meddling.declarations, meddling.functions, [("g", 0)], []⟩ hsteady
  have hcompound : meddlingValue
      (.binary ⟨3, ⟨1, 3⟩, none⟩ .addAssign (meddlingTarget 1) (meddlingCall 6)) =
        some (.ok (.integer 6)) := by decide +kernel
  refine ⟨hsteady, hcompound, ?_, by decide +kernel⟩
  have hplain : Resembles
      (meddlingEval (.binary ⟨3, ⟨1, 3⟩, none⟩ .addAssign (meddlingTarget 1) (meddlingCall 6)))
      (meddlingEval (.binary ⟨3, ⟨1, 3⟩, none⟩ .assign (meddlingTarget 1)
        (.binary ⟨7, ⟨1, 7⟩, none⟩ .add (meddlingTarget 5) (meddlingCall 9)))) :=
    habbreviate.1 _ _ _ rfl rfl rfl rfl
  rw [meddlingValue, ← hplain meddlingMachine meddlingMachine rfl]
  exact hcompound

end MiniC
