import MiniC.Proofs.StructuredReturn

/-!
# A `for` without a return is a `while`

A `for` stands for the block of its first clause and a `while`, whose body is that of the `for` and
its step.  The two loops are not the same: a `for` takes its step even behind an iteration that has
returned, it looks at the note of the return in another place, and it does not evaluate a condition
that is missing.  We show that they do the same as long as nothing in the body returns: both end
alike, or both do not end, and what they leave is the same but for the remembered values and the
journal.

The induction is on the bound of the iterations, which the two loops use up together.  It needs that
the frame has not returned at the end of an iteration, so the relation between the two computations
carries that along.

Main definitions:

* `MiniC.Stmt.whileForm`: the block that a `for` stands for;
* `MiniC.Blur.traces`: forgetting the remembered values and the journal;
* `MiniC.Eval.AgreeRunning`: two computations agree in frames that have not returned.

Main results:

* `MiniC.isolated_of_neverReturns`: a statement in which nothing returns does not return;
* `MiniC.Eval.AgreeRunning.forLoop_whileLoop`: a `for` agrees with a `while` that takes its step;
* `MiniC.for_agrees_with_while`: so a `for` of a parsed program agrees with its block.
-/

set_option autoImplicit false

namespace MiniC

/-- The block that a `for` stands for.  Its parts are those of the `for`, and the `while` stands
where the `for` stands; the other locations, and the node of the literal for a missing condition,
are arbitrary. -/
def Stmt.whileForm (outer inner stepLoc : Location) (one : Node) (loc : Location)
    (init : Option Stmt) (condition step : Option Expr) (body : Stmt) : Stmt :=
  .block outer (init.toList ++
    [.whileLoop loc (condition.getD (.int one 1))
      (.block inner (body :: (step.map (Stmt.eval stepLoc)).toList))])

/-- The statement is a `return`. -/
def Stmt.isReturn : Stmt → Bool
  | ret _ _ => true
  | _ => false

/-- Forgetting the remembered values and the journal. -/
def Blur.traces : Blur := ⟨true, false, true⟩

namespace Eval

variable {α β : Type}

/-! ### Agreement before the return -/

/-- From frames that have not returned, both computations end alike: with the same value or error,
and with machines that are the same but for the remembered values and the journal.  If they yield a
value, then the frames have still not returned. -/
def AgreeRunning (x y : Eval α) : Prop :=
  ∀ m m', Blur.traces.Same m m' → m.stack.current.returned = none →
    Outcome.Alike
      (fun a m₁ a' m₁' => a = a' ∧ Blur.traces.Same m₁ m₁' ∧ m₁.stack.current.returned = none)
      Blur.traces.Same (x.run m) (y.run m')

/-- The computation does nothing but to remember values and to log events. -/
def Silent (x : Eval Unit) : Prop := ∀ m, ∃ m', x.run m = .done () m' ∧ Blur.traces.Same m' m

/-- Machines that are the same have returned the same. -/
theorem returned_eq_of_same {m m' : Machine} (h : Blur.traces.Same m m') :
    m.stack.current.returned = m'.stack.current.returned :=
  Blur.returned_eq rfl h.current_eq

theorem silent_clearCache : Silent clearCache := fun _ => ⟨_, rfl, rfl⟩

theorem silent_recordStatement (line : Nat) : Silent (recordStatement line) := fun m =>
  ⟨_, rfl, by rw [Blur.Same, ← Blur.note]; rfl⟩

theorem agreeRunning_pure (a : α) : AgreeRunning (pure a) (pure a) := fun _ _ hm hnone =>
  .done ⟨rfl, hm, hnone⟩

theorem agreeRunning_outOfFuel : AgreeRunning (outOfFuel : Eval α) outOfFuel := fun _ _ _ _ =>
  .outOfFuel

theorem agreeRunning_hasReturned : AgreeRunning hasReturned hasReturned := fun _ _ hm hnone =>
  .done ⟨congrArg Option.isSome (returned_eq_of_same hm), hm, hnone⟩

namespace AgreeRunning

/-- Computations that agree do so before the return, if one of them does not return. -/
theorem of_agree {limit : Nat} {x y : Eval α} (hxy : Agree Blur.traces x y)
    (hx : x.Isolated limit Frame.KeepsReturned) : AgreeRunning x y := by
  intro m m' hm hnone
  refine (hxy m m' hm).mono (fun a m₁ _ _ hrun h => ⟨h.1, h.2, ?_⟩) fun _ _ h => h
  have hkept : m₁.stack.current.returned = m.stack.current.returned :=
    (hx m).current (congrArg Outcome.machine? hrun)
  exact hkept.trans hnone

theorem bind {x y : Eval α} {f g : α → Eval β} (hxy : AgreeRunning x y)
    (hfg : ∀ a, AgreeRunning (f a) (g a)) : AgreeRunning (x >>= f) (y >>= g) := by
  intro m m' hm hnone
  have hrun := hxy m m' hm hnone
  rw [run_bind, run_bind]
  generalize x.run m = o, y.run m' = o' at hrun
  cases hrun with
  | done h =>
    obtain ⟨rfl, hm₁, hnone₁⟩ := h
    exact hfg _ _ _ hm₁ hnone₁
  | failed e hm₁ => exact .failed e hm₁
  | outOfFuel => exact .outOfFuel

theorem symm {x y : Eval α} (hxy : AgreeRunning x y) : AgreeRunning y x := by
  intro m m' hm hnone
  have hrun := hxy m' m hm.symm ((returned_eq_of_same hm).symm.trans hnone)
  generalize x.run m' = o, y.run m = o' at hrun
  cases hrun with
  | done h =>
    obtain ⟨rfl, hm₁, hnone₁⟩ := h
    exact .done ⟨rfl, hm₁.symm, (returned_eq_of_same hm₁).symm.trans hnone₁⟩
  | failed e hm₁ => exact .failed e hm₁.symm
  | outOfFuel => exact .outOfFuel

/-- What is silent may stand in front of one of the computations. -/
theorem silent {x y : Eval α} {z : Eval Unit} (hz : Silent z) (hxy : AgreeRunning x y) :
    AgreeRunning x (z >>= fun _ => y) := by
  intro m m' hm hnone
  obtain ⟨m₁, hrun, hsame⟩ := hz m'
  rw [run_bind_done hrun]
  exact hxy m m₁ (hm.trans hsame.symm) hnone

/-- Before the return, a statement does what is in it. -/
theorem statement_right {x y : Eval Unit} (loc : Location) (hxy : AgreeRunning x y) :
    AgreeRunning x (statement loc y) := by
  intro m m' hm hnone
  have hrun : (statement loc y).run m' = (recordStatement loc.line >>= fun _ => y).run m' := by
    show ((if m'.stack.current.hasReturned then pure () else _ : Eval Unit).run m') = _
    rw [Frame.hasReturned, ← returned_eq_of_same hm, hnone]
    rfl
  rw [hrun]
  exact hxy.silent (silent_recordStatement _) m m' hm hnone

theorem statement_left {x y : Eval Unit} (loc : Location) (hxy : AgreeRunning x y) :
    AgreeRunning (statement loc x) y := (hxy.symm.statement_right loc).symm

/-- A `for` agrees with a `while` whose body takes the step, too. -/
theorem forLoop_whileLoop {c c' : Eval Bool} {s x y : Eval Unit}
    (hc : AgreeRunning c (clearCache >>= fun _ => c'))
    (hxy : AgreeRunning (x >>= fun _ => s) y) (bound : Nat) :
    AgreeRunning (forLoop c s x bound) (whileLoop c' y bound) := by
  induction bound with
  | zero => exact agreeRunning_outOfFuel
  | succ bound ih =>
    unfold forLoop whileLoop
    rw [← bind_assoc x, ← bind_assoc clearCache]
    refine hc.bind fun b => ?_
    cases b with
    | false => exact agreeRunning_pure ()
    | true =>
      -- Neither has returned, so both look at the same note although the `for` does it later.
      refine hxy.bind fun _ => agreeRunning_hasReturned.bind fun r => ?_
      cases r with
      | true => exact agreeRunning_pure ()
      | false => exact ih

end AgreeRunning

/-! ### Statements in which nothing returns -/

section Loops

variable {limit : Nat} {c : Eval Bool} {x : Eval Unit}

theorem keepsReturned_statement (loc : Location) (hx : x.Isolated limit Frame.KeepsReturned) :
    (statement loc x).Isolated limit Frame.KeepsReturned := by
  refine isolated_hasReturned.bind fun b => ?_
  cases b with
  | true => exact isolated_pure ()
  | false => exact (quiet_recordStatement limit loc.line).keeps.bind fun _ => hx

theorem keepsReturned_whileLoop (hc : c.Isolated limit Frame.KeepsReturned)
    (hx : x.Isolated limit Frame.KeepsReturned) (bound : Nat) :
    (whileLoop c x bound).Isolated limit Frame.KeepsReturned := by
  induction bound with
  | zero => exact isolated_outOfFuel
  | succ bound ih =>
    refine (quiet_clearCache limit).keeps.bind fun _ => hc.bind fun b => ?_
    cases b with
    | false => exact isolated_pure ()
    | true =>
      refine hx.bind fun _ => isolated_hasReturned.bind fun r => ?_
      cases r with
      | true => exact isolated_pure ()
      | false => exact ih

theorem keepsReturned_forLoop {s : Eval Unit} (hc : c.Isolated limit Frame.KeepsReturned)
    (hs : s.Isolated limit Frame.KeepsReturned) (hx : x.Isolated limit Frame.KeepsReturned)
    (bound : Nat) : (forLoop c s x bound).Isolated limit Frame.KeepsReturned := by
  induction bound with
  | zero => exact isolated_outOfFuel
  | succ bound ih =>
    refine hc.bind fun b => ?_
    cases b with
    | false => exact isolated_pure ()
    | true =>
      refine hx.bind fun _ => hs.bind fun _ => isolated_hasReturned.bind fun r => ?_
      cases r with
      | true => exact isolated_pure ()
      | false => exact ih

end Loops

end Eval

open Eval

mutual

/-- A statement in which nothing returns leaves what its frame has returned. -/
theorem isolated_of_neverReturns {ctx : Context} {fuel : Nat}
    (hcall : ∀ f vs loc,
      Agree Blur.notes (ctx.call fuel f vs loc) (ctx.structuredCall fuel f vs loc))
    (bound : Nat) : (s : Stmt) → (∀ t ∈ s.all, t.isReturn = false) →
    (execStmt (ctx.env fuel) bound s).Isolated ctx.config.maxCallDepth Frame.KeepsReturned
  | .block loc ss, h =>
    keepsReturned_statement loc <|
      isolatedAll_of_neverReturns hcall bound ss (List.forall_mem_cons.1 h).2
  | .declare loc vs, _ =>
    keepsReturned_statement loc <|
      (quiet_clearCache _).keeps.bind fun _ => (quiet_declareAll hcall vs).keeps
  | .eval loc e, _ => keepsReturned_statement loc (quiet_evalStep hcall e).keeps
  | .branch loc c t f, h => by
    obtain ⟨ht, hf⟩ := List.forall_mem_append.1 (List.forall_mem_cons.1 h).2
    have onTrue := isolated_of_neverReturns hcall bound t ht
    have onFalse := isolatedOption_of_neverReturns hcall bound f hf
    refine keepsReturned_statement loc <| (quiet_clearCache _).keeps.bind fun _ =>
      (quiet_evalCondition hcall c loc).keeps.bind fun b => ?_
    cases b with
    | true => exact onTrue
    | false => exact onFalse
  | .whileLoop loc c b, h =>
    keepsReturned_statement loc <| keepsReturned_whileLoop (quiet_evalCondition hcall c loc).keeps
      (isolated_of_neverReturns hcall bound b (List.forall_mem_cons.1 h).2) bound
  | .forLoop loc i c s b, h => by
    obtain ⟨hi, hb⟩ := List.forall_mem_append.1 (List.forall_mem_cons.1 h).2
    have first := isolatedOption_of_neverReturns hcall bound i hi
    have body := isolated_of_neverReturns hcall bound b hb
    exact keepsReturned_statement loc <| first.bind fun _ =>
      keepsReturned_forLoop (quiet_forCondition hcall loc c).keeps (quiet_forStep hcall s).keeps
        body bound
  | .ret loc e, h => absurd (h _ List.mem_cons_self) (by rintro ⟨⟩)
  | .empty loc, _ => keepsReturned_statement loc (isolated_pure ())
  | .doLoop loc _ _, _ => keepsReturned_statement loc (isolated_fail _)
  | .leave loc, _ => keepsReturned_statement loc (isolated_fail _)
  | .next loc, _ => keepsReturned_statement loc (isolated_fail _)

theorem isolatedAll_of_neverReturns {ctx : Context} {fuel : Nat}
    (hcall : ∀ f vs loc,
      Agree Blur.notes (ctx.call fuel f vs loc) (ctx.structuredCall fuel f vs loc))
    (bound : Nat) : (ss : List Stmt) →
    (∀ t ∈ Stmt.allOf ss, t.isReturn = false) →
    (execAll (ctx.env fuel) bound ss).Isolated ctx.config.maxCallDepth Frame.KeepsReturned
  | [], _ => isolated_pure ()
  | s :: ss, h => by
    obtain ⟨hs, hss⟩ := List.forall_mem_append.1 h
    exact (isolated_of_neverReturns hcall bound s hs).bind fun _ =>
      isolatedAll_of_neverReturns hcall bound ss hss

theorem isolatedOption_of_neverReturns {ctx : Context} {fuel : Nat}
    (hcall : ∀ f vs loc,
      Agree Blur.notes (ctx.call fuel f vs loc) (ctx.structuredCall fuel f vs loc))
    (bound : Nat) : (o : Option Stmt) →
    (∀ t ∈ Stmt.allOfOption o, t.isReturn = false) →
    (execOption (ctx.env fuel) bound o).Isolated ctx.config.maxCallDepth Frame.KeepsReturned
  | none, _ => isolated_pure ()
  | some s, h => isolated_of_neverReturns hcall bound s h

end

/-- The first clause of a `for` does not return. -/
theorem Stmt.neverReturns_of_isClause {s : Stmt} (h : s.isClause = true) :
    ∀ t ∈ s.all, t.isReturn = false := by
  intro t ht
  cases s with
  | declare loc vs => rw [List.mem_singleton.1 ht]; rfl
  | eval loc e => rw [List.mem_singleton.1 ht]; rfl
  | _ => cases h

/-! ### Loops of parsed programs -/

section Traces

variable (ctx : Context) (fuel : Nat)

/-- No run reads what is remembered or logged. -/
theorem runSimulation_traces : RunSimulation .equal (ctx.env fuel).isGlobal?
    ctx.config.maxCallDepth ctx.config.maxCallDepth (Agree Blur.traces) (Agree Blur.traces) :=
  runSimulation_agree rfl (fun _ _ _ => .inl rfl) (fun _ _ => rfl) _ _

theorem agree_call_traces (f : String) (vs : List Value) (loc : Location) :
    Agree Blur.traces (ctx.call fuel f vs loc) (ctx.call fuel f vs loc) :=
  (runSimulation_traces ctx fuel).call ctx.program.alike_self fuel f vs loc

theorem agree_evalExpr_traces (e : Expr) :
    Agree Blur.traces (evalExpr (ctx.env fuel) e) (evalExpr (ctx.env fuel) e) :=
  (runSimulation_traces ctx fuel).evalExpr rfl (agree_call_traces ctx fuel) e
    (.refl (fun _ => rfl) (fun _ => trivial) e)

theorem agree_execStmt_traces (bound : Nat) (s : Stmt) :
    Agree Blur.traces (execStmt (ctx.env fuel) bound s) (execStmt (ctx.env fuel) bound s) :=
  (runSimulation_traces ctx fuel).execStmt rfl (agree_call_traces ctx fuel) bound s
    (.refl (fun _ => rfl) (fun _ => trivial) s fun _ _ => trivial)

/-- Conditions agree if the values do that decide them. -/
theorem agree_condition {e e' : Expr}
    (h : Agree Blur.traces (evalExpr (ctx.env fuel) e) (evalExpr (ctx.env fuel) e'))
    (loc : Location) :
    Agree Blur.traces (evalCondition (ctx.env fuel) e loc)
      (evalCondition (ctx.env fuel) e' loc) := by
  refine h.bind fun v => ?_
  cases v.truthy? with
  | some b => exact agree_pure b
  | none => exact agree_fail _

end Traces

@[simp] theorem execAll_singleton (env : Env) (bound : Nat) (s : Stmt) :
    execAll env bound [s] = execStmt env bound s := Eval.bind_pure _

/-- The literal that stands for a missing condition holds. -/
theorem agree_evalCondition_one (env : Env) (one : Node) (loc : Location) :
    Agree Blur.traces (pure true) (evalCondition env (.int one 1) loc) := by
  intro m m' hm
  exact .done ⟨rfl, hm.trans (same_remember rfl m' one.id _).symm⟩

section Statements

variable {ctx : Context} {fuel : Nat}
  (hcall : ∀ f vs loc, Agree Blur.notes (ctx.call fuel f vs loc) (ctx.structuredCall fuel f vs loc))

include hcall

/-- A statement in which nothing returns agrees with itself. -/
theorem agreeRunning_execStmt (bound : Nat) {s : Stmt} (hs : ∀ t ∈ s.all, t.isReturn = false) :
    AgreeRunning (execStmt (ctx.env fuel) bound s) (execStmt (ctx.env fuel) bound s) :=
  .of_agree (agree_execStmt_traces ctx fuel bound s) (isolated_of_neverReturns hcall bound s hs)

/-- The condition of a `for`, a literal if it is missing, is that of the `while`. -/
theorem agreeRunning_forCondition (one : Node) (loc : Location) (c : Option Expr) :
    AgreeRunning (forCondition (ctx.env fuel) loc c)
      (clearCache >>= fun _ => evalCondition (ctx.env fuel) (c.getD (.int one 1)) loc) := by
  cases c with
  | none =>
    have htrue : (pure true : Eval Bool).Isolated 0 Frame.KeepsReturned := isolated_pure true
    exact .silent silent_clearCache (.of_agree (agree_evalCondition_one _ one loc) htrue)
  | some e =>
    have hcondition : Agree Blur.traces (forCondition (ctx.env fuel) loc (some e))
        (clearCache >>= fun _ => evalCondition (ctx.env fuel) e loc) :=
      (agree_modifyFrame fun _ => rfl).bind fun _ =>
        agree_condition ctx fuel (agree_evalExpr_traces ctx fuel e) loc
    exact .of_agree hcondition (quiet_forCondition hcall loc (some e)).keeps

/-- The step of a `for` is the statement behind the body of the `while`. -/
theorem agreeRunning_forStep (bound : Nat) (stepLoc : Location) (step : Option Expr) :
    AgreeRunning (forStep (ctx.env fuel) step)
      (execAll (ctx.env fuel) bound (step.map (Stmt.eval stepLoc)).toList) := by
  cases step with
  | none => exact agreeRunning_pure ()
  | some e =>
    have hstep : Agree Blur.traces (evalStep (ctx.env fuel) e) (evalStep (ctx.env fuel) e) :=
      (agree_modifyFrame fun _ => rfl).bind fun _ =>
        (agree_evalExpr_traces ctx fuel e).bind fun _ => agree_pure ()
    have hstmt :=
      (AgreeRunning.of_agree hstep (quiet_evalStep hcall e).keeps).statement_right stepLoc
    show AgreeRunning _ (execAll _ _ [.eval stepLoc e])
    rwa [execAll_singleton]

end Statements

/-- A `for` agrees with the block that it stands for, as long as nothing in its body returns.  Let a
`for` of a parsed program, and its block, be executed from a frame that has not returned.  Within
the same bounds, both end or neither does.  If they end, then they do so with the same error or with
none, and bindings, globals, memory, input, output and what the frames have returned are the same.
Only the remembered values and the journal may differ. -/
theorem for_agrees_with_while {p : Program} (hp : p.Parsed) (config : Config)
    {loc : Location} {init : Option Stmt} {condition step : Option Expr} {body : Stmt}
    (hs : .forLoop loc init condition step body ∈ p.stmts)
    (hbody : ∀ t ∈ body.all, t.isReturn = false) (outer inner stepLoc : Location) (one : Node)
    (fuel bound : Nat) (m : Machine) (hm : m.stack.current.returned = none) :
    let env := Context.env ⟨p, config⟩ fuel
    Outcome.Alike (fun _ m₁ _ m₁' => Blur.traces.Same m₁ m₁' ∧ m₁.stack.current.returned = none)
      Blur.traces.Same
      ((execStmt env bound (.forLoop loc init condition step body)).run m)
      ((execStmt env bound
        (.whileForm outer inner stepLoc one loc init condition step body)).run m) := by
  intro env
  let ctx : Context := ⟨p, config⟩
  have hcall : ∀ f vs loc,
      Agree Blur.notes (ctx.call fuel f vs loc) (ctx.structuredCall fuel f vs loc) :=
    agree_structuredCall hp.wellFormed fuel
  have hclauses : init.all Stmt.isClause = true :=
    (Bool.and_eq_true_iff.1 (hp.wellFormed.hasPlainLoops hs)).1
  have hiteration : AgreeRunning (execStmt env bound body >>= fun _ => forStep env step)
      (execStmt env bound (.block inner (body :: (step.map (Stmt.eval stepLoc)).toList))) :=
    ((agreeRunning_execStmt hcall bound hbody).bind fun _ =>
      agreeRunning_forStep hcall bound stepLoc step).statement_right inner
  have hloop := (AgreeRunning.forLoop_whileLoop (agreeRunning_forCondition hcall one loc condition)
    hiteration bound).statement_right loc
  have hwhole : AgreeRunning (execStmt env bound (.forLoop loc init condition step body))
      (execStmt env bound (.whileForm outer inner stepLoc one loc init condition step body)) := by
    refine (AgreeRunning.statement_left loc ?_).statement_right outer
    cases init with
    | none =>
      show AgreeRunning (pure () >>= fun _ => _) (execAll env bound [_])
      rw [Eval.pure_bind, execAll_singleton]
      exact hloop
    | some i =>
      have hinit := Stmt.neverReturns_of_isClause hclauses
      refine (agreeRunning_execStmt hcall bound hinit).bind fun _ => ?_
      show AgreeRunning _ (execAll env bound [_])
      rw [execAll_singleton]
      exact hloop
  exact (hwhole m m rfl hm).mono (fun _ _ _ _ _ h => h.2) fun _ _ h => h

/-- A program with a loop that has no condition, declares an array in every iteration, and fails in
the third one. -/
def dwindling : Program :=
  .ofText "int main() { for (int i = 0; ; ++i) { int a[2]; a[1] = 6 / (2 - i); PRINT(a[1]); } }"

/-- The machine that its loop begins on. -/
def dwindlingStart : Machine := (Session.start dwindling {} (.ofBytes []) .unlimited none).machine

/-- The loop. -/
def dwindlingLoop : Stmt := dwindling.stmts.get ⟨1, by decide +kernel⟩

/-- The loop divides by zero after two iterations, and so does the block that it stands for. -/
theorem for_agrees_with_while_dwindling :
    ∃ loc init condition step body, dwindlingLoop = .forLoop loc init condition step body ∧
      (∀ t ∈ body.all, t.isReturn = false) ∧
      let env := Context.env ⟨dwindling, {}⟩ 9
      let loop := (execStmt env 9 dwindlingLoop).run dwindlingStart
      loop.error? = some (.fault ⟨1, 58⟩ .divisionByZero) ∧
      loop.machine?.map (fun m => m.output.text) = some "3\n6\n" ∧
      Outcome.Alike (fun _ m₁ _ m₁' => Blur.traces.Same m₁ m₁' ∧ m₁.stack.current.returned = none)
        Blur.traces.Same loop
        ((execStmt env 9 (.whileForm .start .start .start default loc init condition step body)).run
          dwindlingStart) := by
  have hp : dwindling.Parsed := Program.parsed_ofText _
  have hs : dwindlingLoop ∈ dwindling.stmts := List.get_mem _ _
  have herror : ((execStmt (Context.env ⟨dwindling, {}⟩ 9) 9 dwindlingLoop).run
      dwindlingStart).error? = some (.fault ⟨1, 58⟩ .divisionByZero) := by decide +kernel
  have houtput : ((execStmt (Context.env ⟨dwindling, {}⟩ 9) 9 dwindlingLoop).run
      dwindlingStart).machine?.map (fun m => m.output.text) = some "3\n6\n" := by decide +kernel
  have hshape : (match dwindlingLoop with
      | .forLoop _ _ _ _ body => body.all.all fun t => !t.isReturn
      | _ => false) = true := by decide +kernel
  generalize dwindlingLoop = s at *
  cases s with
  | forLoop loc init condition step body =>
    have hbody : ∀ t ∈ body.all, t.isReturn = false := fun t ht => by
      simpa using List.all_eq_true.1 hshape t ht
    exact ⟨loc, init, condition, step, body, rfl, hbody, herror, houtput,
      for_agrees_with_while hp {} hs hbody .start .start .start default 9 9 dwindlingStart rfl⟩
  | _ => cases hshape

end MiniC
