import MiniC.Proofs.Abbreviations
import MiniC.Proofs.Retention

/-!
# Nothing that is stored is lost

An assignment determines the place that it stores to before its right operand is evaluated, and the
right operand may do anything: call the same function once more, give memory back, declare
variables.  The store itself does not look whether a variable is still there.  It is, since
expressions retain the variables that there are.

So an assignment is the evaluation of its operands, and one store behind it: the place holds what
was stored, and everything else is as the operands left it.  If the operation or the store fails,
everything is.

Main definitions:

* `MiniC.Update`, `MiniC.evalOperands`: the operands of an assignment, and what they determine;
* `MiniC.Update.store`: the store behind them;
* `MiniC.Course`, `MiniC.Course.Leads`: how an assignment that is done has gone.

Main results:

* `MiniC.evalExpr_of_target?`: an assignment is its operands and a store;
* `MiniC.updates_arrive`: no update is lost.
-/

set_option autoImplicit false

namespace MiniC

open Eval

/-! ### Operands and stores -/

/-- What an assignment stores to. -/
def Expr.target? : Expr → Option Expr
  | binary _ op l _ => if op.isAssignment then some l else none
  | unary _ op x => if op.isIncrement then some x else none
  | _ => none

theorem Expr.target?_binary {op : BinaryOp} (h : op.isAssignment = true) (n : Node) (l r : Expr) :
    (binary n op l r).target? = some l := if_pos h

theorem Expr.target?_unary {op : UnaryOp} (h : op.isIncrement = true) (n : Node) (x : Expr) :
    (unary n op x).target? = some x := if_pos h

/-- Only assignments and increments store to anything. -/
theorem Expr.exists_eq_of_target? {e target : Expr} (h : e.target? = some target) :
    (∃ n op r, e = binary n op target r ∧ op.isAssignment = true) ∨
      ∃ n op, e = unary n op target ∧ op.isIncrement = true := by
  cases e with
  | binary n op l r =>
    rw [target?] at h
    split at h
    · next hop =>
      cases h
      exact .inl ⟨n, op, r, rfl, hop⟩
    · cases h
  | unary n op x =>
    rw [target?] at h
    split at h
    · next hop =>
      cases h
      exact .inr ⟨n, op, rfl, hop⟩
    · cases h
  | _ => cases h

/-- The expression names a place in memory. -/
def Expr.namesMemory : Expr → Bool
  | unary _ .deref _ | subscript _ _ _ => true
  | _ => false

/-- The number that an increment adds. -/
def UnaryOp.delta : UnaryOp → Int64
  | preDec | postDec => -1
  | _ => 1

/-- What the operands of an assignment determine: the new value, or why there is none; and the value
that the assignment yields, if that is not what it stores. -/
structure Update where
  value : Except Fault Value
  yields : Option Value

/-- What an assignment evaluates behind its target. -/
def evalUpdate (env : Env) (place : Place) : Expr → Eval Update
  | .binary n op l r =>
    match op.compoundBase? with
    | none => do
      let v ← evalExpr env r
      return ⟨.ok v, none⟩
    | some base => do
      let current ← readPlace place n.location
      remember l.id current
      let v ← evalExpr env r
      return ⟨base.apply current v l.stride r.stride, none⟩
  | .unary n op x => do
    let current ← readPlace place n.location
    return ⟨BinaryOp.add.apply current (.integer op.delta) x.stride 1,
      if op.isPostfix then some current else none⟩
  | e => fault e.location (.unsupported .assignmentTarget)

/-- The operands of an assignment to `target`. -/
def evalOperands (env : Env) (target e : Expr) : Eval (Place × Update) := do
  let place ← evalPlace env target
  let u ← evalUpdate env place e
  return (place, u)

/-- Stores what the operands of an assignment determine at a place, as a value of the type `t`. -/
def Update.store (u : Update) (place : Place) (t : Option Ty) (loc : Location) : Eval Value := do
  let v ← ofExcept loc u.value
  let stored := v.coerceTo t
  writePlace place stored loc
  return u.yields.getD stored

/-- An assignment evaluates its operands, and stores what they determine. -/
theorem evalExpr_of_target? (env : Env) {target e : Expr} (h : e.target? = some target) :
    evalExpr env e = remembered e.node
      (evalOperands env target e >>= fun o => o.2.store o.1 target.type e.location) := by
  obtain ⟨n, op, r, rfl, hop⟩ | ⟨n, op, rfl, hop⟩ := Expr.exists_eq_of_target? h
  · rw [evalExpr_of_isAssignment env n target r hop]
    simp only [assign, assigned, evalOperands, evalUpdate, Update.store, Eval.bind_assoc]
    cases op.compoundBase? with
    | none => simp only [Eval.bind_assoc, Eval.pure_bind, Eval.ofExcept]; rfl
    | some base => simp only [Eval.bind_assoc, Eval.pure_bind]; rfl
  · simp only [evalOperands, evalUpdate, Update.store, Eval.bind_assoc, Eval.pure_bind]
    cases op with
    | preInc | preDec | postInc | postDec => rfl
    | neg | not | bitNot | deref | addrOf => cases hop

/-! ### The course of an assignment -/

/-- The expression yields the value that its operand had. -/
def Expr.isPostfix : Expr → Bool
  | unary _ op _ => op.isPostfix
  | _ => false

/-- The place of a name is looked up; other places are places in memory. -/
theorem done_of_evalPlace {env : Env} {e : Expr} {place : Place} {m m' : Machine}
    (h : (evalPlace env e).run m = .done place m') :
    (∃ n x link, e = .name n x link ∧ m.placeOfName x link env.isArray = .ok place) ∧ m' = m ∨
      e.namesMemory = true ∧ ∃ p, (evalAddress env e).run m = .done p m' ∧ place = .memory p := by
  cases e with
  | name n x link =>
    have hquery : (query n.location fun m => m.placeOfName x link env.isArray).run m =
        .done place m' := h
    obtain ⟨hok, hm⟩ := ok_of_query hquery
    exact .inl ⟨⟨n, x, link, rfl, hok⟩, hm⟩
  | subscript n b i =>
    obtain ⟨p, m₁, haddress, hp⟩ := run_bind_eq_done h
    cases hp
    exact .inr ⟨rfl, p, haddress, rfl⟩
  | unary n op x =>
    cases op with
    | deref =>
      obtain ⟨p, m₁, haddress, hp⟩ := run_bind_eq_done h
      cases hp
      exact .inr ⟨rfl, p, haddress, rfl⟩
    | _ => cases h
  | _ => cases h

/-- What is stored to names a variable that has a value, or a place in memory. -/
theorem isSome_value?_of_evalPlace {env : Env} {target : Expr} {place : Place} {m m₁ : Machine}
    (h : (evalPlace env target).run m = .done place m₁) (hplace : place.isVariable = true) :
    (m₁.value? place).isSome = true := by
  obtain ⟨⟨n, x, link, -, hok⟩, rfl⟩ | ⟨-, p, -, rfl⟩ := done_of_evalPlace h
  · exact Machine.isSome_value?_of_placeOfName hok
  · cases hplace

/-- What is evaluated behind a target retains the variables that there are. -/
theorem retaining_evalUpdate (ctx : Context) (fuel : Nat) (place : Place) (e : Expr) :
    (evalUpdate (ctx.env fuel) place e).Retaining := by
  cases e with
  | binary n op l r =>
    have hr := retaining_evalExpr ctx fuel r
    simp only [evalUpdate]
    split
    · exact hr.bind fun _ => retaining_pure _
    · exact (retaining_readPlace place _).bind fun current =>
        (retaining_remember l.id current).bind fun _ => hr.bind fun _ => retaining_pure _
  | unary n op x => exact (retaining_readPlace place _).bind fun _ => retaining_pure _
  | _ => exact retaining_fault _ _

/-- An assignment that is no postfix increment yields what it stores. -/
theorem yields_of_not_isPostfix {env : Env} {place : Place} {e : Expr} {u : Update}
    {m m' : Machine} (he : e.isPostfix = false)
    (h : (evalUpdate env place e).run m = .done u m') : u.yields = none := by
  cases e with
  | binary n op l r =>
    simp only [evalUpdate] at h
    split at h
    · obtain ⟨v, m₁, -, h⟩ := run_bind_eq_done h
      cases h
      rfl
    · obtain ⟨current, m₁, -, h⟩ := run_bind_eq_done h
      obtain ⟨_, m₂, -, h⟩ := run_bind_eq_done h
      obtain ⟨v, m₃, -, h⟩ := run_bind_eq_done h
      cases h
      rfl
  | unary n op x =>
    obtain ⟨current, m₁, -, h⟩ := run_bind_eq_done h
    cases h
    have hop : op.isPostfix = false := he
    rw [hop, if_neg Bool.false_ne_true]
  | _ => cases h

/-- An increment adds to what stands at its place. -/
theorem eq_of_evalUpdate_unary {env : Env} {place : Place} {n : Node} {op : UnaryOp} {x : Expr}
    {u : Update} {m m' : Machine} (h : (evalUpdate env place (.unary n op x)).run m = .done u m') :
    ∃ current, m'.readPlace place = .ok current ∧
      u.value = BinaryOp.add.apply current (.integer op.delta) x.stride 1 ∧
      u.yields = if op.isPostfix then some current else none := by
  obtain ⟨current, m₁, hread, h⟩ := run_bind_eq_done h
  cases h
  obtain ⟨hok, rfl⟩ := ok_of_query hread
  exact ⟨current, hok, rfl, rfl⟩

/-- What happens in the course of an assignment: the place that is determined, and the machine then;
what the operands determine, and the machine then; and what is stored. -/
structure Course where
  place : Place
  targeted : Machine
  update : Update
  evaluated : Machine
  stored : Value

/-- On the machine `m`, the assignment `e` to `target` takes this course, and ends on `m'` with the
value `v`. -/
structure Course.Leads (c : Course) (env : Env) (target e : Expr) (m : Machine) (v : Value)
    (m' : Machine) : Prop where
  target_done : (evalPlace env target).run m = .done c.place c.targeted
  operands_done : (evalUpdate env c.place e).run c.targeted = .done c.update c.evaluated
  value_eq : ∃ w, c.update.value = .ok w ∧ c.stored = w.coerceTo target.type
  /-- The operands are evaluated in the same frame, and leave its variables and the globals. -/
  retains : c.targeted.Retains c.evaluated
  /-- A variable is there when it is determined. -/
  stood : c.place.isVariable = true → (c.targeted.value? c.place).isSome = true
  /-- So is a place in memory, unless its region has been made since. -/
  stood_memory (p : Pointer) (es : List Event) : c.place = .memory p →
    c.targeted.journal = some es → ∃ new, c.evaluated.journal = some (new ++ es) ∧
      ((c.targeted.value? c.place).isSome = true ∨ p.region ∈ made new)
  /-- The place is there when it is stored to. -/
  stands : (c.evaluated.value? c.place).isSome = true
  local_assigned (id : Nat) : c.place = .local id →
    (c.evaluated.stack.current.assign? id c.stored).isSome = true
  global_assigned (id : Nat) : c.place = .global id →
    (c.evaluated.globals.assign? id c.stored).isSome = true
  read_eq : m'.readPlace c.place = .ok c.stored
  differs : c.evaluated.DiffersAt c.place m'
  yields_new : e.isPostfix = false → v = c.stored
  yields_old : e.isPostfix = true → c.evaluated.value? c.place = some v
  increments (n : Node) (op : UnaryOp) (x : Expr) : e = .unary n op x →
    ∃ current, c.evaluated.value? c.place = some current ∧
      c.update.value = BinaryOp.add.apply current (.integer op.delta) x.stride 1

namespace Eval

variable {α β : Type}

/-- A sequence that fails does so in its first part, or behind it. -/
theorem run_bind_eq_failed {x : Eval α} {f : α → Eval β} {m m' : Machine} {err : RuntimeError}
    (h : (x >>= f).run m = .failed err m') :
    x.run m = .failed err m' ∨ ∃ a m₁, x.run m = .done a m₁ ∧ (f a).run m₁ = .failed err m' := by
  rw [run_bind] at h
  cases hx : x.run m with
  | done a m₁ =>
    rw [hx] at h
    exact .inr ⟨a, m₁, rfl, h⟩
  | failed e m₁ =>
    rw [hx] at h
    cases h
    exact .inl rfl
  | outOfFuel =>
    rw [hx] at h
    cases h

theorem ok_of_ofExcept {loc : Location} {x : Except Fault α} {a : α} {m m' : Machine}
    (h : (ofExcept loc x).run m = .done a m') : x = .ok a ∧ m' = m := by
  cases x with
  | ok b => cases h; exact ⟨rfl, rfl⟩
  | error f => cases h

theorem ok_of_attempt {loc : Location} {f : Machine → Except Fault Machine} {a : Unit}
    {m m' : Machine} (h : (attempt loc f).run m = .done a m') : f m = .ok m' := by
  dsimp only [attempt, op] at h
  split at h
  · next hok =>
    cases h
    exact hok
  · cases h

/-- What is remembered has been yielded. -/
theorem exists_done_of_remembered {n : Node} {x : Eval Value} {v : Value} {m m' : Machine}
    (h : (remembered n x).run m = .done v m') :
    ∃ m₁, x.run m = .done v m₁ ∧ m' = m₁.modifyFrame fun f => f.remember n.id v := by
  obtain ⟨w, m₁, hx, hrest⟩ := run_bind_eq_done h
  obtain ⟨rfl, rfl⟩ := Outcome.done.inj hrest
  exact ⟨m₁, hx, rfl⟩

end Eval

/-- A store that is done has a value to store, and stores it. -/
theorem Update.ok_of_store {u : Update} {place : Place} {t : Option Ty} {loc : Location}
    {m m' : Machine} {v : Value} (h : (u.store place t loc).run m = .done v m') :
    ∃ w, u.value = .ok w ∧ m.writePlace place (w.coerceTo t) = .ok m' ∧
      v = u.yields.getD (w.coerceTo t) := by
  obtain ⟨w, m₁, hvalue, hstore⟩ := run_bind_eq_done h
  obtain ⟨hok, rfl⟩ := ok_of_ofExcept hvalue
  obtain ⟨_, m₂, hwrite, hyield⟩ := run_bind_eq_done hstore
  obtain ⟨rfl, rfl⟩ := Outcome.done.inj hyield
  exact ⟨w, hok, ok_of_attempt hwrite, rfl⟩

/-- A store that fails leaves everything as it is. -/
theorem Update.eq_of_store_failed {u : Update} {place : Place} {t : Option Ty} {loc : Location}
    {m m' : Machine} {err : RuntimeError} (h : (u.store place t loc).run m = .failed err m') :
    m' = m := by
  obtain hvalue | ⟨w, m₁, hvalue, hstore⟩ := run_bind_eq_failed h
  · cases hu : u.value with
    | ok w => rw [hu] at hvalue; cases hvalue
    | error f => rw [hu] at hvalue; cases hvalue; rfl
  · obtain ⟨-, rfl⟩ := ok_of_ofExcept hvalue
    obtain hwrite | ⟨_, m₂, -, hyield⟩ := run_bind_eq_failed hstore
    · dsimp only [writePlace, attempt, op] at hwrite
      split at hwrite
      · cases hwrite
      · cases hwrite
        rfl
    · cases hyield

/-- An assignment that is done has determined the place of its target, has evaluated what stands
behind it, and has stored a value. -/
theorem exists_done_of_target? {env : Env} {target e : Expr} (he : e.target? = some target)
    {m m' : Machine} {v : Value} (h : (evalExpr env e).run m = .done v m') :
    ∃ place m₁ u m₂ w m₃, (evalPlace env target).run m = .done place m₁ ∧
      (evalUpdate env place e).run m₁ = .done u m₂ ∧ u.value = .ok w ∧
      m₂.writePlace place (w.coerceTo target.type) = .ok m₃ ∧
      v = u.yields.getD (w.coerceTo target.type) ∧
      m' = m₃.modifyFrame fun f => f.remember e.id v := by
  rw [evalExpr_of_target? env he] at h
  obtain ⟨m₃, hassign, rfl⟩ := exists_done_of_remembered h
  obtain ⟨⟨place, u⟩, m₂, hoperands, hstore⟩ := run_bind_eq_done hassign
  obtain ⟨_, m₁, hplace, hrest⟩ := run_bind_eq_done hoperands
  obtain ⟨_, _, hupdate, hpure⟩ := run_bind_eq_done hrest
  cases hpure
  obtain ⟨w, hvalue, hwrite, hyield⟩ := Update.ok_of_store hstore
  exact ⟨place, m₁, u, m₂, w, m₃, hplace, hupdate, hvalue, hwrite, hyield, rfl⟩

/-- The operands of an assignment that is done have determined what is stored, and it has been. -/
theorem exists_leads_of_done (ctx : Context) (fuel : Nat) {target e : Expr}
    (he : e.target? = some target) {m m' : Machine} {v : Value}
    (h : (evalExpr (ctx.env fuel) e).run m = .done v m') :
    ∃ c : Course, c.Leads (ctx.env fuel) target e m v m' := by
  obtain ⟨place, m₁, u, m₂, w, m₃, htarget, hupdate, hvalue, hwrite, hyield, rfl⟩ :=
    exists_done_of_target? he h
  -- Nothing that the operands do makes a variable go, so there is something to replace.
  have hretains := retaining_evalUpdate ctx fuel place e m₁ m₂ (congrArg Outcome.machine? hupdate)
  have hstood := isSome_value?_of_evalPlace htarget
  obtain ⟨hstands, hstored, hdiffers⟩ := Machine.stored_of_writePlace hwrite
    fun hplace => hretains.isSome_value? hplace (hstood hplace)
  have hincrements : ∀ n op x, e = .unary n op x → ∃ current, m₂.value? place = some current ∧
      u.value = BinaryOp.add.apply current (.integer op.delta) x.stride 1 ∧
      u.yields = if op.isPostfix then some current else none := by
    rintro n op x rfl
    obtain ⟨current, hread, hadded, hyields⟩ := eq_of_evalUpdate_unary hupdate
    exact ⟨current, Machine.value?_of_readPlace hread hstands, hadded, hyields⟩
  refine ⟨⟨place, m₁, u, m₂, w.coerceTo target.type⟩, {
    target_done := htarget
    operands_done := hupdate
    value_eq := ⟨w, hvalue, rfl⟩
    retains := hretains
    stood := hstood
    stood_memory := ?_
    stands := hstands
    local_assigned := ?_
    global_assigned := ?_
    read_eq := Machine.readPlace_of_value? (by rw [Machine.value?_remember, hstored])
    differs := ?_
    yields_new := ?_
    yields_old := ?_
    increments := ?_ }⟩
  · rintro p es rfl hes
    obtain ⟨new, hnew, hregions⟩ := hretains.regions es hes
    rw [Machine.isSome_value?_memory] at hstands ⊢
    exact ⟨new, hnew, hregions p.region hstands⟩
  · rintro id rfl
    rw [Frame.isSome_assign?]
    exact hstands
  · rintro id rfl
    rw [Bindings.isSome_assign?]
    exact hstands
  · exact ⟨hdiffers.callers_eq, fun other hother => by
      rw [Machine.value?_remember, hdiffers.value_eq other hother]⟩
  · intro hpost
    rw [hyield, yields_of_not_isPostfix hpost hupdate, Option.getD_none]
  · intro hpost
    cases e with
    | unary n op x =>
      obtain ⟨current, hcurrent, -, hyields⟩ := hincrements n op x rfl
      have hop : op.isPostfix = true := hpost
      rw [hyield, hyields, if_pos hop, Option.getD_some, hcurrent]
    | _ => cases hpost
  · intro n op x hunary
    obtain ⟨current, hcurrent, hadded, -⟩ := hincrements n op x hunary
    exact ⟨current, hcurrent, hadded⟩

/-- An assignment that fails leaves what its operands have left. -/
theorem machine?_evalOperands_of_failed (env : Env) {target e : Expr}
    (he : e.target? = some target) {m m' : Machine} {err : RuntimeError}
    (h : (evalExpr env e).run m = .failed err m') :
    ((evalOperands env target e).run m).machine? = some m' := by
  rw [evalExpr_of_target? _ he] at h
  obtain hassign | ⟨_, m₁, -, hremember⟩ := run_bind_eq_failed h
  · obtain hoperands | ⟨o, m₁, hoperands, hstore⟩ := run_bind_eq_failed hassign
    · rw [hoperands]
      rfl
    · rw [hoperands, Update.eq_of_store_failed hstore]
      rfl
  · cases hremember

/-- No update is lost.  An assignment, a compound assignment or an increment that is done has
determined its place and evaluated its operands in the same frame; the variable that it stores to
is still there, and so is a place in memory; what it stores is read there, and is what it yields,
unless it yields what stood there before; and no other variable, global or place in memory has
changed since the operands were evaluated.  One that fails leaves what its operands have left. -/
theorem updates_arrive (ctx : Context) (fuel : Nat) {target e : Expr}
    (he : e.target? = some target) (m m' : Machine) :
    (∀ v, (evalExpr (ctx.env fuel) e).run m = .done v m' →
      ∃ c : Course, c.Leads (ctx.env fuel) target e m v m') ∧
    ∀ err, (evalExpr (ctx.env fuel) e).run m = .failed err m' →
      ((evalOperands (ctx.env fuel) target e).run m).machine? = some m' :=
  ⟨fun _ => exists_leads_of_done ctx fuel he, fun _ => machine?_evalOperands_of_failed _ he⟩

/-- A program whose function adds to a variable of its own what the next call of it yields. -/
def tallying : Context :=
  ⟨.ofText "int f(int n) { int x; x = n; if (n) x += f(n - 1); return x; }", {}⟩

/-- A machine in a call of that function, with 3 for both variables. -/
def tallyingMachine : Machine :=
  (Session.start tallying.program {} (.ofBytes []) .unlimited none).machine.enterFrame
    ⟨"f", ⟨[(0, .integer 3), (1, .integer 3)]⟩, [], none, []⟩

/-- The variable that is added to. -/
def tallyingTarget : Expr := .name ⟨1, ⟨1, 1⟩, some .int⟩ "x" (some 1)

/-- The assignment in the function. -/
def tallyingUpdate : Expr :=
  .binary ⟨3, ⟨1, 3⟩, some .int⟩ .addAssign tallyingTarget <|
    .call ⟨6, ⟨1, 6⟩, some .int⟩ "f"
      [.binary ⟨10, ⟨1, 10⟩, some .int⟩ .sub (.name ⟨8, ⟨1, 8⟩, some .int⟩ "n" (some 0))
        (.int ⟨12, ⟨1, 12⟩, some .int⟩ 1)]

/-- The calls have variables of their own, and what they yield arrives in that of the caller. -/
theorem updates_arrive_tallying :
    tallyingUpdate.target? = some tallyingTarget ∧ ∃ (c : Course) (m' : Machine),
      (evalExpr (tallying.env 9) tallyingUpdate).run tallyingMachine = .done (.integer 6) m' ∧
      c.Leads (tallying.env 9) tallyingTarget tallyingUpdate tallyingMachine (.integer 6) m' ∧
      m'.readPlace c.place = .ok (.integer 6) := by
  have htarget : tallyingUpdate.target? = some tallyingTarget := rfl
  have hvalue : ((evalExpr (tallying.env 9) tallyingUpdate).run tallyingMachine).seen.map Prod.fst =
      some (.ok (.integer 6)) := by decide +kernel
  cases hrun : (evalExpr (tallying.env 9) tallyingUpdate).run tallyingMachine with
  | done v m' =>
    rw [hrun] at hvalue
    obtain rfl : v = .integer 6 := Except.ok.inj (Option.some.inj hvalue)
    obtain ⟨c, hc⟩ := (updates_arrive tallying 9 htarget tallyingMachine m').1 _ hrun
    have hstored : c.stored = .integer 6 := (hc.yields_new rfl).symm
    exact ⟨htarget, c, m', rfl, hc, hstored ▸ hc.read_eq⟩
  | failed err m' => rw [hrun] at hvalue; cases hvalue
  | outOfFuel => rw [hrun] at hvalue; cases hvalue

end MiniC
