import MiniC.Proofs.Updates

/-!
# Values that were never written

A location that was never written may be read, and what is read may be handed on: it is the value of
a name, of what a pointer refers to, of a call, and of a plain assignment; a cast of such an
expression has it, too.  Nothing is computed from it.  Whatever else may be wrong, an operation, a
condition or a built-in function that is given such a value fails for that reason.

Main definitions:

* `MiniC.Expr.uncast`, `MiniC.Expr.handsOn`: the expressions that may have a value that was never
  written;
* `MiniC.Operands`: the values that an expression computes with;
* `MiniC.Eval.whileRound`, `MiniC.Eval.forRound`, `MiniC.Eval.Rounds`: rounds of loops;
* `MiniC.Decides`: the conditions that the execution of a statement comes to.

Main results:

* `MiniC.handsOn_of_uninitialized`: what yields a value that was never written hands it on;
* `MiniC.Operands.failed`: nothing is computed from such a value;
* `MiniC.Decides.failed`: nothing is decided by it;
* `MiniC.uninitialized_stays_out`: all of that.
-/

set_option autoImplicit false

namespace MiniC

open Eval

/-! ### What operations yield -/

/-- A binary operation never yields a value that was never written. -/
theorem BinaryOp.ne_uninitialized_of_apply {op : BinaryOp} {a b v : Value} {s t : Int64}
    (h : op.apply a b s t = .ok v) : v ≠ .uninitialized := by
  rintro rfl
  cases a with
  | uninitialized => simp at h
  | integer n =>
    cases b with
    | uninitialized => simp at h
    | integer k =>
      cases op <;> simp only [apply, onIntegers, Value.ofBool] at h <;>
        first | cases h | (split at h <;> cases h)
    | pointer q => cases op <;> cases h
  | pointer p =>
    cases b with
    | uninitialized => simp at h
    | integer k => cases op <;> cases h
    | pointer q =>
      cases op <;> simp only [apply, onPointers, order, mismatch, Value.ofBool] at h <;>
        first | cases h | (split at h <;> cases h)

/-- Neither does a unary one. -/
theorem UnaryOp.ne_uninitialized_of_apply {op : UnaryOp} {a v : Value}
    (h : op.apply a = .ok v) : v ≠ .uninitialized := by
  rintro rfl
  cases a <;> cases op <;> cases h

/-- A conversion neither writes a value nor loses one. -/
@[simp] theorem Value.coerce_eq_uninitialized (t : Ty) (v : Value) :
    v.coerce t = .uninitialized ↔ v = .uninitialized := by
  cases v with
  | integer n =>
    rw [coerce]
    split <;> simp
  | pointer p => simp
  | uninitialized => simp

@[simp] theorem Value.coerceTo_eq_uninitialized (t : Option Ty) (v : Value) :
    v.coerceTo t = .uninitialized ↔ v = .uninitialized := by
  cases t with
  | none => rfl
  | some t => exact v.coerce_eq_uninitialized t

/-! ### What expressions yield -/

/-- An expression without the casts around it. -/
def Expr.uncast : Expr → Expr
  | cast _ _ x => x.uncast
  | e => e

/-- The expression may have a value that was never written: it is a name, a dereference, a
subscript, a plain assignment or a call. -/
def Expr.handsOn : Expr → Bool
  | name _ _ _ | unary _ .deref _ | subscript _ _ _ | binary _ .assign _ _ | call _ _ _ => true
  | _ => false

/-- What a compound assignment or an increment stores and yields has been written. -/
theorem Update.ne_uninitialized {env : Env} {place : Place} {e target : Expr} {u : Update}
    {t : Option Ty} {w : Value} {m m' : Machine} (htarget : e.target? = some target)
    (he : e.handsOn = false) (hupdate : (evalUpdate env place e).run m = .done u m')
    (hvalue : u.value = .ok w) : u.yields.getD (w.coerceTo t) ≠ .uninitialized := by
  cases e with
  | binary n op l r =>
    rw [yields_of_not_isPostfix rfl hupdate, Option.getD_none, Ne, Value.coerceTo_eq_uninitialized]
    simp only [evalUpdate] at hupdate
    split at hupdate
    · -- An assignment that has no operation to apply is a plain one.
      next hbase =>
        cases op with
        | assign => cases he
        | addAssign | subAssign | mulAssign | divAssign | modAssign => cases hbase
        | _ => cases htarget
    · obtain ⟨current, _, -, h⟩ := run_bind_eq_done hupdate
      obtain ⟨_, _, -, h⟩ := run_bind_eq_done h
      obtain ⟨b, _, -, h⟩ := run_bind_eq_done h
      cases h
      exact BinaryOp.ne_uninitialized_of_apply hvalue
  | unary n op x =>
    obtain ⟨current, -, hadded, hyields⟩ := eq_of_evalUpdate_unary hupdate
    rw [hadded] at hvalue
    rw [hyields]
    split
    · rintro hcurrent
      obtain rfl : current = .uninitialized := hcurrent
      rw [BinaryOp.apply_uninitialized_left] at hvalue
      cases hvalue
    · rw [Option.getD_none, Ne, Value.coerceTo_eq_uninitialized]
      exact BinaryOp.ne_uninitialized_of_apply hvalue
  | _ => cases hupdate

/-- Of the expressions that store, plain assignments only hand on values that were never written. -/
theorem handsOn_of_target? {env : Env} {e target : Expr} (htarget : e.target? = some target)
    {m m' : Machine} (h : (evalExpr env e).run m = .done .uninitialized m') : e.handsOn = true := by
  obtain ⟨_, _, u, _, w, _, -, hupdate, hvalue, -, hyield, -⟩ := exists_done_of_target? htarget h
  by_contra he
  exact Update.ne_uninitialized htarget (eq_false_of_ne_true he) hupdate hvalue hyield.symm

/-- What yields a value that was never written hands it on. -/
theorem handsOn_of_uninitialized {env : Env} : (e : Expr) → {m m' : Machine} →
    (evalExpr env e).run m = .done .uninitialized m' → e.uncast.handsOn = true
  | .name _ _ _, _, _, _ | .call _ _ _, _, _, _ | .subscript _ _ _, _, _, _ => rfl
  | .int _ _, _, _, h | .char _ _, _, _, h | .string _ _, _, _, h => by
    obtain ⟨_, hx, -⟩ := exists_done_of_remembered h
    cases hx
  | .cast _ t x, _, _, h => by
    obtain ⟨_, hcast, -⟩ := exists_done_of_remembered h
    obtain ⟨a, _, hx, hyield⟩ := run_bind_eq_done hcast
    obtain ⟨ha, -⟩ := Outcome.done.inj hyield
    rw [Value.coerce_eq_uninitialized] at ha
    subst ha
    exact handsOn_of_uninitialized x hx
  | .sizeof n t, _, _, h => by
    obtain ⟨_, hsize, -⟩ := exists_done_of_remembered h
    unfold Eval.sizeof at hsize
    split at hsize
    · split at hsize <;> cases hsize
    · cases hsize
  | .binary n op l r, _, _, h => by
    cases hop : op.isAssignment with
    | true =>
      exact handsOn_of_target? (Expr.target?_binary hop n l r) h
    | false =>
      rw [evalExpr_of_not_isAssignment env n l r hop] at h
      obtain ⟨_, hoperate, -⟩ := exists_done_of_remembered h
      obtain ⟨a, _, -, hrest⟩ := run_bind_eq_done hoperate
      obtain ⟨b, _, -, happly⟩ := run_bind_eq_done hrest
      exact absurd rfl (BinaryOp.ne_uninitialized_of_apply (ok_of_ofExcept happly).1)
  | .unary n op x, _, _, h => by
    cases op with
    | preInc | preDec | postInc | postDec => exact handsOn_of_target? (show _ = some x from rfl) h
    | deref => rfl
    | addrOf =>
      obtain ⟨_, hfault, -⟩ := exists_done_of_remembered h
      cases hfault
    | neg | not | bitNot =>
      obtain ⟨_, hcompute, -⟩ := exists_done_of_remembered h
      obtain ⟨a, _, -, happly⟩ := run_bind_eq_done hcompute
      exact absurd rfl (UnaryOp.ne_uninitialized_of_apply (ok_of_ofExcept happly).1)

/-! ### Nothing is computed from them -/

/-- The values that an expression computes with: `Operands ctx fuel e m vs m'` says that the
evaluation of `e` on the machine `m` determines the values `vs` of what it computes with, which
leaves the machine `m'`.  What a compound assignment and an increment compute with is the value of a
location. -/
inductive Operands (ctx : Context) (fuel : Nat) : Expr → Machine → List Value → Machine → Prop
  | unary (n : Node) {op : UnaryOp} {x : Expr} {m m' : Machine} {v : Value} :
      op ∈ [.neg, .not, .bitNot, .deref] → (evalExpr (ctx.env fuel) x).run m = .done v m' →
        Operands ctx fuel (.unary n op x) m [v] m'
  | binary (n : Node) {op : BinaryOp} {l r : Expr} {m m₁ m' : Machine} {a b : Value} :
      op.isAssignment = false → (evalExpr (ctx.env fuel) l).run m = .done a m₁ →
        (evalExpr (ctx.env fuel) r).run m₁ = .done b m' →
          Operands ctx fuel (.binary n op l r) m [a, b] m'
  | subscript (n : Node) {b i : Expr} {m m₁ m' : Machine} {v w : Value} :
      (evalExpr (ctx.env fuel) b).run m = .done v m₁ →
        (evalExpr (ctx.env fuel) i).run m₁ = .done w m' →
          Operands ctx fuel (.subscript n b i) m [v, w] m'
  | compound (n : Node) {op base : BinaryOp} {l r : Expr} {m m₁ m' : Machine} {place : Place}
      {a b : Value} :
      op.compoundBase? = some base → (evalPlace (ctx.env fuel) l).run m = .done place m₁ →
        m₁.readPlace place = .ok a →
          (evalExpr (ctx.env fuel) r).run (m₁.modifyFrame fun f => f.remember l.id a) =
              .done b m' →
            Operands ctx fuel (.binary n op l r) m [a, b] m'
  | increment (n : Node) {op : UnaryOp} {x : Expr} {m m' : Machine} {place : Place} {a : Value} :
      op.isIncrement = true → (evalPlace (ctx.env fuel) x).run m = .done place m' →
        m'.readPlace place = .ok a → Operands ctx fuel (.unary n op x) m [a] m'
  /-- The name is that of a built-in function, which is given as many arguments as it takes. -/
  | builtin (n : Node) {f : String} {i : Intrinsic} {args : List Expr} {m m' : Machine}
      {vs : List Value} :
      0 < fuel →
      ((ctx.program.function? f).bind Function.intrinsic).or (Intrinsic.ofName? f) = some i →
        vs.length = i.arity → (evalArgs (ctx.env fuel) args).run m = .done vs m' →
          Operands ctx fuel (.call n f args) m vs m'

namespace Eval

variable {α β : Type}

/-- A sequence fails where its first part does. -/
theorem run_bind_failed {x : Eval α} {m m' : Machine} {err : RuntimeError}
    (h : x.run m = .failed err m') (f : α → Eval β) : (x >>= f).run m = .failed err m' := by
  rw [run_bind, h]

theorem run_readPlace {m : Machine} {place : Place} {v : Value} (h : m.readPlace place = .ok v)
    (loc : Location) : (readPlace place loc).run m = .done v m := by
  simp only [readPlace, query, op, h]

/-- A binary operation fails if one of its operands was never written. -/
theorem failed_of_apply (op : BinaryOp) {a b : Value} (h : .uninitialized ∈ [a, b])
    (s t : Int64) (loc : Location) (m : Machine) :
    (ofExcept loc (op.apply a b s t)).run m =
      .failed (.fault loc (.uninitializedRead (.binaryOperand op))) m := by
  rcases List.mem_pair.1 h with rfl | rfl
  · rw [BinaryOp.apply_uninitialized_left]
    rfl
  · rw [BinaryOp.apply_uninitialized_right]
    rfl

/-- So does the computation of its operands and of its value. -/
theorem failed_of_operate (op : BinaryOp) {l r : Expr} {x y : Eval Value} {a b : Value}
    {m m₁ m' : Machine} (h : .uninitialized ∈ [a, b]) (hx : x.run m = .done a m₁)
    (hy : y.run m₁ = .done b m') (loc : Location) :
    (operate op l r loc x y).run m =
      .failed (.fault loc (.uninitializedRead (.binaryOperand op))) m' := by
  unfold operate
  rw [run_bind_done hx, run_bind_done hy]
  exact failed_of_apply op h _ _ loc m'

/-- A built-in function fails if it is given a value that was never written. -/
theorem exists_callIntrinsic_eq {i : Intrinsic} {vs : List Value} (hlength : vs.length = i.arity)
    (h : .uninitialized ∈ vs) (loc : Location) :
    ∃ use, callIntrinsic i vs loc = fault loc (.uninitializedRead use) := by
  cases i with
  | get =>
    obtain rfl := List.length_eq_zero_iff.1 hlength
    cases h
  | print | malloc | free =>
    obtain ⟨v, rfl⟩ := List.length_eq_one_iff.1 hlength
    obtain rfl := List.mem_singleton.1 h
    exact ⟨_, rfl⟩

section Updates

variable {env : Env} {place : Place} {a b : Value} {m m₁ m' : Machine}

/-- A compound assignment fails if its target or its right operand was never written. -/
theorem failed_of_compound (n : Node) {op base : BinaryOp} {l r : Expr}
    (h : .uninitialized ∈ [a, b]) (hbase : op.compoundBase? = some base)
    (hplace : (evalPlace env l).run m = .done place m₁) (hread : m₁.readPlace place = .ok a)
    (hr : (evalExpr env r).run (m₁.modifyFrame fun f => f.remember l.id a) = .done b m') :
    (evalExpr env (.binary n op l r)).run m =
      .failed (.fault n.location (.uninitializedRead (.binaryOperand base))) m' := by
  rw [evalExpr_of_isAssignment _ n l r (isAssignment_of_compoundBase?_eq_some hbase)]
  refine run_bind_failed ?_ _
  unfold assign
  rw [run_bind_done hplace, assigned_of_compoundBase? hbase]
  refine run_bind_failed ?_ _
  rw [run_bind_done (run_readPlace hread n.location)]
  rw [run_bind_done (show (remember l.id a).run m₁ =
    .done () (m₁.modifyFrame fun f => f.remember l.id a) from rfl)]
  rw [run_bind_done hr]
  exact failed_of_apply base h _ _ n.location m'

/-- An increment fails if its target was never written. -/
theorem failed_of_increment (n : Node) {op : UnaryOp} {x : Expr} (hop : op.isIncrement = true)
    (hplace : (evalPlace env x).run m = .done place m')
    (hread : m'.readPlace place = .ok .uninitialized) :
    (evalExpr env (.unary n op x)).run m =
      .failed (.fault n.location (.uninitializedRead (.binaryOperand .add))) m' := by
  rw [evalExpr_of_target? _ (Expr.target?_unary hop n x)]
  refine run_bind_failed ?_ _
  unfold evalOperands
  rw [Eval.bind_assoc, run_bind_done hplace, Eval.bind_assoc]
  unfold evalUpdate
  rw [Eval.bind_assoc, run_bind_done (run_readPlace hread n.location), Eval.pure_bind,
    Eval.pure_bind]
  have hmem : Value.uninitialized ∈ [.uninitialized, .integer op.delta] := List.mem_cons_self ..
  exact run_bind_failed (failed_of_apply .add hmem x.stride 1 n.location m') _

end Updates

end Eval

namespace Operands

variable {ctx : Context} {fuel : Nat} {e : Expr} {m m' : Machine} {vs : List Value}

/-- No place in memory is determined from a value that was never written. -/
theorem address_failed (h : Operands ctx fuel e m vs m') (he : e.namesMemory = true)
    (hvs : .uninitialized ∈ vs) :
    ∃ use, (evalAddress (ctx.env fuel) e).run m =
      .failed (.fault e.location (.uninitializedRead use)) m' := by
  cases h with
  | @unary n op x _ _ _ hop hx =>
    cases op with
    | deref =>
      obtain rfl := List.mem_singleton.1 hvs
      refine ⟨.pointer, ?_⟩
      show (follow n.location (evalExpr (ctx.env fuel) x)).run m = _
      unfold follow
      rw [run_bind_done hx]
      rfl
    | _ => cases he
  | subscript n hb hi =>
    refine ⟨.binaryOperand .add, run_bind_failed ?_ _⟩
    exact failed_of_operate .add hvs hb hi n.location
  | @increment n op _ _ _ _ _ hop hplace hread =>
    cases op with
    | deref => cases hop
    | _ => cases he
  | binary | compound | builtin => cases he

/-- Nothing is computed from a value that was never written: if what an expression computes with
has been determined, and one of the values was never written, then the expression fails for that
reason. -/
theorem failed (h : Operands ctx fuel e m vs m') (hvs : .uninitialized ∈ vs) :
    ∃ use, (evalExpr (ctx.env fuel) e).run m =
      .failed (.fault e.location (.uninitializedRead use)) m' := by
  have hload : e.namesMemory = true →
      evalExpr (ctx.env fuel) e =
        remembered e.node (load e.location (evalAddress (ctx.env fuel) e)) →
      ∃ use, (evalExpr (ctx.env fuel) e).run m =
        .failed (.fault e.location (.uninitializedRead use)) m' := by
    intro he heval
    obtain ⟨use, hfailed⟩ := h.address_failed he hvs
    rw [heval]
    exact ⟨use, run_bind_failed (run_bind_failed hfailed _) _⟩
  cases h with
  | @unary n op x _ _ _ hop hx =>
    cases op with
    | deref => exact hload rfl (evalExpr_deref _ n x)
    | neg | not | bitNot =>
      obtain rfl := List.mem_singleton.1 hvs
      refine ⟨.unaryOperand, run_bind_failed ?_ _⟩
      rw [run_bind_done hx]
      rfl
    | _ => simp at hop
  | @binary n op l r _ _ _ _ _ hop hl hr =>
    rw [evalExpr_of_not_isAssignment _ n l r hop]
    exact ⟨_, run_bind_failed (failed_of_operate op hvs hl hr n.location) _⟩
  | subscript n hb hi => exact hload rfl (evalExpr_subscript _ n _ _)
  | compound n hbase hplace hread hr =>
    exact ⟨_, failed_of_compound n hvs hbase hplace hread hr⟩
  | increment n hop hplace hread =>
    obtain rfl := List.mem_singleton.1 hvs
    exact ⟨_, failed_of_increment n hop hplace hread⟩
  | @builtin n f _ _ _ _ _ hfuel hf hlength hargs =>
    obtain ⟨k, rfl⟩ := Nat.exists_eq_add_one.2 hfuel
    obtain ⟨use, hcall⟩ := exists_callIntrinsic_eq hlength hvs n.location
    refine ⟨use, run_bind_failed ?_ _⟩
    rw [run_bind_done hargs]
    show ((ctx.call (k + 1)) f vs n.location).run m' = _
    rw [Context.call_succ, Program.callNamed, hf]
    dsimp only
    rw [hcall]
    rfl

end Operands

/-! ### Nothing is decided by them -/

namespace Eval

/-- A round of a `while` that goes on: its condition holds, and its body does not return. -/
def whileRound (condition : Eval Bool) (body : Eval Unit) (m m' : Machine) : Prop :=
  ∃ m₁, condition.run (m.modifyFrame Frame.clearCache) = .done true m₁ ∧
    body.run m₁ = .done () m' ∧ m'.stack.current.hasReturned = false

/-- A round of a `for` that goes on. -/
def forRound (condition : Eval Bool) (step body : Eval Unit) (m m' : Machine) : Prop :=
  ∃ m₁ m₂, condition.run m = .done true m₁ ∧ body.run m₁ = .done () m₂ ∧
    step.run m₂ = .done () m' ∧ m'.stack.current.hasReturned = false

/-- A number of rounds one after the other. -/
inductive Rounds (round : Machine → Machine → Prop) : Nat → Machine → Machine → Prop
  | none (m : Machine) : Rounds round 0 m m
  | more {k : Nat} {m m₁ m' : Machine} :
      round m m₁ → Rounds round k m₁ m' → Rounds round (k + 1) m m'

theorem run_hasReturned (m : Machine) :
    hasReturned.run m = .done m.stack.current.hasReturned m := rfl

section

variable {condition : Eval Bool} {step body : Eval Unit}

/-- After a round, a `while` begins anew. -/
theorem run_whileLoop_of_round {m m₁ : Machine} (h : whileRound condition body m m₁)
    (bound : Nat) :
    (whileLoop condition body (bound + 1)).run m = (whileLoop condition body bound).run m₁ := by
  obtain ⟨m₂, hcondition, hbody, hreturned⟩ := h
  rw [whileLoop, run_bind_done (show clearCache.run m = .done () _ from rfl),
    run_bind_done hcondition, if_pos rfl, run_bind_done hbody,
    run_bind_done (run_hasReturned m₁), hreturned, if_neg Bool.false_ne_true]

theorem run_forLoop_of_round {m m₁ : Machine} (h : forRound condition step body m m₁)
    (bound : Nat) :
    (forLoop condition step body (bound + 1)).run m =
      (forLoop condition step body bound).run m₁ := by
  obtain ⟨m₂, m₃, hcondition, hbody, hstep, hreturned⟩ := h
  rw [forLoop, run_bind_done hcondition, if_pos rfl, run_bind_done hbody, run_bind_done hstep,
    run_bind_done (run_hasReturned m₁), hreturned, if_neg Bool.false_ne_true]

/-- A `while` fails with its condition, in whatever round that is. -/
theorem whileLoop_failed {k : Nat} {m m₁ m' : Machine} {err : RuntimeError}
    (h : Rounds (whileRound condition body) k m m₁)
    (hfailed : condition.run (m₁.modifyFrame Frame.clearCache) = .failed err m') {bound : Nat}
    (hbound : k < bound) : (whileLoop condition body bound).run m = .failed err m' := by
  obtain ⟨bound, rfl⟩ := Nat.exists_eq_add_one.2 (Nat.zero_lt_of_lt hbound)
  induction h generalizing bound with
  | none m =>
    rw [whileLoop, run_bind_done (show clearCache.run m = .done () _ from rfl)]
    exact run_bind_failed hfailed _
  | more hround _ ih =>
    have hrest := Nat.lt_of_succ_lt_succ hbound
    obtain ⟨bound, rfl⟩ := Nat.exists_eq_add_one.2 (Nat.zero_lt_of_lt hrest)
    rw [run_whileLoop_of_round hround]
    exact ih hfailed bound hrest

theorem forLoop_failed {k : Nat} {m m₁ m' : Machine} {err : RuntimeError}
    (h : Rounds (forRound condition step body) k m m₁) (hfailed : condition.run m₁ = .failed err m')
    {bound : Nat} (hbound : k < bound) :
    (forLoop condition step body bound).run m = .failed err m' := by
  obtain ⟨bound, rfl⟩ := Nat.exists_eq_add_one.2 (Nat.zero_lt_of_lt hbound)
  induction h generalizing bound with
  | none m =>
    rw [forLoop]
    exact run_bind_failed hfailed _
  | more hround _ ih =>
    have hrest := Nat.lt_of_succ_lt_succ hbound
    obtain ⟨bound, rfl⟩ := Nat.exists_eq_add_one.2 (Nat.zero_lt_of_lt hrest)
    rw [run_forLoop_of_round hround]
    exact ih hfailed bound hrest

end

end Eval

/-- The conditions that a statement comes to: `Decides env bound s m c m₁` says that the execution
of `s`, begun on the machine `m`, evaluates the condition `c` on the machine `m₁`, in the first or
in a later round if it is a loop. -/
inductive Decides (env : Env) (bound : Nat) : Stmt → Machine → Expr → Machine → Prop
  | branch (loc : Location) (c : Expr) (onTrue : Stmt) (onFalse : Option Stmt) (m : Machine) :
      Decides env bound (.branch loc c onTrue onFalse) m c (m.modifyFrame Frame.clearCache)
  | whileLoop (loc : Location) {c : Expr} {body : Stmt} {k : Nat} {m m₁ : Machine} :
      k < bound →
        Rounds (whileRound (evalCondition env c loc) (execStmt env bound body)) k m m₁ →
          Decides env bound (.whileLoop loc c body) m c (m₁.modifyFrame Frame.clearCache)
  | forLoop (loc : Location) {init : Option Stmt} {c : Expr} {step : Option Expr} {body : Stmt}
      {k : Nat} {m m₁ m₂ : Machine} :
      k < bound → (execOption env bound init).run m = .done () m₁ →
        Rounds (forRound (forCondition env loc (some c)) (forStep env step)
            (execStmt env bound body)) k m₁ m₂ →
          Decides env bound (.forLoop loc init (some c) step body) m c
            (m₂.modifyFrame Frame.clearCache)

/-- A condition fails if it was never written. -/
theorem evalCondition_failed {env : Env} {c : Expr} {m m' : Machine}
    (h : (evalExpr env c).run m = .done .uninitialized m') (loc : Location) :
    (evalCondition env c loc).run m = .failed (.fault loc (.uninitializedRead .condition)) m' := by
  unfold evalCondition
  rw [run_bind_done h]
  rfl

/-- Nothing is decided by a value that was never written: a statement that comes to a condition with
such a value fails for that reason. -/
theorem Decides.failed {env : Env} {bound : Nat} {s : Stmt} {m m₁ m' : Machine} {c : Expr}
    (hrunning : m.stack.current.hasReturned = false)
    (h : Decides env bound s (m.note (.statement s.location.line m.stack.current.function)) c m₁)
    (hc : (evalExpr env c).run m₁ = .done .uninitialized m') :
    (execStmt env bound s).run m =
      .failed (.fault s.location (.uninitializedRead .condition)) m' := by
  have hbegin : ∀ (loc : Location) (x : Eval Unit), (statement loc x).run m =
      x.run (m.note (.statement loc.line m.stack.current.function)) := by
    intro loc x
    unfold statement
    rw [run_bind_done (run_hasReturned m), hrunning, if_neg Bool.false_ne_true]
    rfl
  have hfailed := evalCondition_failed hc
  cases h with
  | branch loc c onTrue onFalse =>
    rw [execStmt, hbegin]
    exact run_bind_failed (hfailed loc) _
  | whileLoop loc hbound hrounds =>
    rw [execStmt, hbegin]
    exact whileLoop_failed hrounds (hfailed loc) hbound
  | forLoop loc hbound hinit hrounds =>
    rw [execStmt, hbegin]
    exact (run_bind_done hinit _).trans (forLoop_failed hrounds (hfailed loc) hbound)

/-- Values that were never written stay out of all computations.  An expression that yields one is,
but for casts, a name, a dereference, a subscript, a plain assignment or a call.  If the values are
determined that an expression computes with, and one of them was never written, the expression fails
for that reason, whether it is evaluated for its value or for the place that it names.  So does a
statement that comes to a condition with such a value. -/
theorem uninitialized_stays_out (ctx : Context) (fuel : Nat) :
    (∀ e m m', (evalExpr (ctx.env fuel) e).run m = .done .uninitialized m' →
      e.uncast.handsOn = true) ∧
    (∀ e m vs m', Operands ctx fuel e m vs m' → .uninitialized ∈ vs →
      (∃ use, (evalExpr (ctx.env fuel) e).run m =
        .failed (.fault e.location (.uninitializedRead use)) m') ∧
      (e.namesMemory = true → ∃ use, (evalAddress (ctx.env fuel) e).run m =
        .failed (.fault e.location (.uninitializedRead use)) m')) ∧
    ∀ bound s m c m₁ m', m.stack.current.hasReturned = false →
      Decides (ctx.env fuel) bound s
          (m.note (.statement s.location.line m.stack.current.function)) c m₁ →
        (evalExpr (ctx.env fuel) c).run m₁ = .done .uninitialized m' →
          (execStmt (ctx.env fuel) bound s).run m =
            .failed (.fault s.location (.uninitializedRead .condition)) m' :=
  ⟨fun e _ _ h => handsOn_of_uninitialized e h,
    fun _ _ _ _ h hvs => ⟨h.failed hvs, fun he => h.address_failed he hvs⟩,
    fun _ _ _ _ _ _ hrunning h hc => h.failed hrunning hc⟩

/-- A program with a global that is not written at first. -/
def unwritten : Context := ⟨.ofText "int x; int main() { while (x); return x / 0; }", {}⟩

/-- A machine on which that global has been declared. -/
def unwrittenMachine : Machine :=
  { (Session.start unwritten.program {} (.ofBytes []) .unlimited none).machine with
    globals := ⟨[(0, .uninitialized)]⟩ }

/-- The global, written at some column. -/
def unwrittenName (column : Nat) : Expr := .name ⟨column, ⟨1, column⟩, some .int⟩ "x" (some 0)

/-- The global may be read, but there is neither a quotient of it, not even by 0, nor a loop that it
governs. -/
theorem uninitialized_stays_out_unwritten :
    (unwrittenName 27).uncast.handsOn = true ∧
    (∃ use m', (evalExpr (unwritten.env 9) (.binary ⟨3, ⟨1, 40⟩, some .int⟩ .div
        (unwrittenName 38) (.int ⟨2, ⟨1, 42⟩, some .int⟩ 0))).run unwrittenMachine =
          .failed (.fault ⟨1, 40⟩ (.uninitializedRead use)) m') ∧
    ∃ m', (execStmt (unwritten.env 9) 9 (.whileLoop ⟨1, 20⟩ (unwrittenName 27)
        (.empty ⟨1, 29⟩))).run unwrittenMachine =
          .failed (.fault ⟨1, 20⟩ (.uninitializedRead .condition)) m' := by
  obtain ⟨hyields, hcomputes, hdecides⟩ := uninitialized_stays_out unwritten 9
  refine ⟨hyields (unwrittenName 27) unwrittenMachine _ rfl, ?_, ?_⟩
  · have hoperands : Operands unwritten 9 (.binary ⟨3, ⟨1, 40⟩, some .int⟩ .div (unwrittenName 38)
        (.int ⟨2, ⟨1, 42⟩, some .int⟩ 0)) unwrittenMachine [.uninitialized, .integer 0] _ :=
      .binary _ rfl rfl rfl
    obtain ⟨⟨use, hfailed⟩, -⟩ := hcomputes _ _ _ _ hoperands (List.mem_cons_self ..)
    exact ⟨use, _, hfailed⟩
  · exact ⟨_, hdecides 9 _ unwrittenMachine _ _ _ rfl
      (.whileLoop ⟨1, 20⟩ (by decide) (.none _)) rfl⟩

end MiniC
