import Mathlib.Order.Defs.Unbundled
import MiniC.Proofs.Parsed
import MiniC.Proofs.Simulation
import MiniC.Session

/-!
# Frames are isolated

A computation touches the frame that it begins in and the frames of the calls that it makes, which
are gone at its end.  The frames below stay as they are, not only at the end but in every machine
on the way, and the stack does not outgrow the limit on the depth of calls.

What happens to the frame that a computation begins in depends on what is computed.  An expression
changes values in it and no more; a statement also declares variables and returns; a call leaves it
as it is.

Main definitions:

* `MiniC.Eval.IsolatedAt`, `MiniC.Eval.Isolated`: what a computation does to the frames;
* `MiniC.Frame.KeepsActivation`: what an expression does to its own frame.

Main results:

* `MiniC.Eval.IsolatedAt.bind`: what one computation after another does to the frames;
* `MiniC.isolated_enter`: a call leaves all frames as they were, if its body does not touch those
  below its own;
* `MiniC.frames_isolated`: expressions, statements and calls are isolated, and runs leave nothing
  in the root frame.
-/

set_option autoImplicit false

namespace MiniC

/-! ### Isolation -/

namespace Eval

/-- `m'` is a machine on the way from `m`: the frames below the current one of `m` are still there
as they were, on top of them the current one, changed as `keeps` allows, and the depth is within
the limit or has not grown. -/
structure Above (limit : Nat) (keeps : Frame → Frame → Prop) (m m' : Machine) : Prop where
  frames : ∃ above f, m'.stack.current :: m'.stack.callers = above ++ f :: m.stack.callers ∧
    keeps m.stack.current f
  depth_le : m'.stack.depth ≤ max limit m.stack.depth

/-- From `m`, a computation leaves the frames below the current one as they are, and the current one
changed as `keeps` allows.  On its way it does not touch them either. -/
structure IsolatedAt {α : Type} (limit : Nat) (keeps : Frame → Frame → Prop) (x : Eval α)
    (m : Machine) : Prop where
  callers_eq {m' : Machine} : (x.run m).machine? = some m' → m'.stack.callers = m.stack.callers
  current {m' : Machine} : (x.run m).machine? = some m' → keeps m.stack.current m'.stack.current
  above {m' : Machine} : x.visits m m' → Above limit keeps m m'

/-- From every machine, a computation leaves the frames below the current one as they are. -/
def Isolated {α : Type} (limit : Nat) (keeps : Frame → Frame → Prop) (x : Eval α) : Prop :=
  ∀ m, x.IsolatedAt limit keeps m

end Eval

namespace Eval

variable {α β : Type} {limit : Nat} {keeps : Frame → Frame → Prop}

theorem depth_eq_of_callers_eq {s s' : CallStack} (h : s'.callers = s.callers) :
    s'.depth = s.depth := by
  rw [s.depth_eq, s'.depth_eq, h]

/-- A machine whose frames below the current one are those of `m` is on the way from `m`. -/
theorem Above.of_callers_eq {m m' : Machine} (h : m'.stack.callers = m.stack.callers)
    (hk : keeps m.stack.current m'.stack.current) : Above limit keeps m m' where
  frames := ⟨[], m'.stack.current, by rw [h, List.nil_append], hk⟩
  depth_le := by
    rw [depth_eq_of_callers_eq h]
    exact Nat.le_max_right _ _

/-- What keeps more of the current frame keeps less of it. -/
theorem IsolatedAt.mono {keeps' : Frame → Frame → Prop} (h : ∀ f g, keeps f g → keeps' f g)
    {x : Eval α} {m : Machine} (hx : x.IsolatedAt limit keeps m) : x.IsolatedAt limit keeps' m where
  callers_eq := hx.callers_eq
  current hm := h _ _ (hx.current hm)
  above hm :=
    have ⟨above, f, hf, hk⟩ := (hx.above hm).frames
    ⟨⟨above, f, hf, h _ _ hk⟩, (hx.above hm).depth_le⟩

variable [IsPreorder Frame keeps]

/-- What is on the way from a later machine is on the way from an earlier one. -/
theorem Above.trans_callers {m m₁ m' : Machine} (hc : m₁.stack.callers = m.stack.callers)
    (hk : keeps m.stack.current m₁.stack.current) (h : Above limit keeps m₁ m') :
    Above limit keeps m m' where
  frames := by
    obtain ⟨above, f, hf, hkf⟩ := h.frames
    exact ⟨above, f, by rw [hf, hc], trans_of keeps hk hkf⟩
  depth_le := by
    rw [← depth_eq_of_callers_eq hc]
    exact h.depth_le

/-- One operation is isolated if what it leaves is. -/
theorem isolated_op {f : Machine → Outcome α}
    (hf : ∀ m m', (f m).machine? = some m' → m'.stack.callers = m.stack.callers ∧
      keeps m.stack.current m'.stack.current) :
    (op f).Isolated limit keeps := fun m =>
  { callers_eq := fun h => (hf m _ h).1
    current := fun h => (hf m _ h).2
    above := by
      rintro m' (rfl | h)
      · exact .of_callers_eq rfl (refl_of keeps _)
      · exact .of_callers_eq (hf m m' h).1 (hf m m' h).2 }

/-- One operation that does not touch the stack is isolated. -/
theorem isolated_op_of_stack_eq {f : Machine → Outcome α}
    (hf : ∀ m m', (f m).machine? = some m' → m'.stack = m.stack) :
    (op f).Isolated limit keeps :=
  isolated_op fun m m' h => by
    rw [hf m m' h]
    exact ⟨rfl, refl_of keeps _⟩

/-- A computation after another one is isolated, if both are. -/
theorem IsolatedAt.bind {x : Eval α} {f : α → Eval β} {m : Machine}
    (hx : x.IsolatedAt limit keeps m)
    (hf : ∀ a m₁, x.run m = .done a m₁ → (f a).IsolatedAt limit keeps m₁) :
    (x >>= f).IsolatedAt limit keeps m := by
  have ends : ∀ m', ((x >>= f).run m).machine? = some m' →
      m'.stack.callers = m.stack.callers ∧ keeps m.stack.current m'.stack.current := by
    intro m' h
    obtain hm' | ⟨a, m₁, hr, h⟩ := machine?_bind h
    · exact ⟨hx.callers_eq hm', hx.current hm'⟩
    · have hm₁ : (x.run m).machine? = some m₁ := congrArg Outcome.machine? hr
      have h₁ := hf a m₁ hr
      exact ⟨(h₁.callers_eq h).trans (hx.callers_eq hm₁),
        trans_of keeps (hx.current hm₁) (h₁.current h)⟩
  refine ⟨fun h => (ends _ h).1, fun h => (ends _ h).2, ?_⟩
  -- The second part begins on top of the same frames as the first one.
  rintro m' (h | ⟨a, m₁, hr, h⟩)
  · exact hx.above h
  · have hm₁ : (x.run m).machine? = some m₁ := by rw [hr]; rfl
    exact ((hf a m₁ hr).above h).trans_callers (hx.callers_eq hm₁) (hx.current hm₁)

theorem Isolated.bind {x : Eval α} {f : α → Eval β} (hx : x.Isolated limit keeps)
    (hf : ∀ a, (f a).Isolated limit keeps) : (x >>= f).Isolated limit keeps := fun m =>
  (hx m).bind fun a m₁ _ => hf a m₁

/-! ### Operations that do not touch the stack -/

theorem isolated_pure (a : α) : (pure a : Eval α).Isolated limit keeps :=
  isolated_op_of_stack_eq fun m m' h => by cases h; rfl

theorem isolated_fail (e : RuntimeError) : (fail e : Eval α).Isolated limit keeps :=
  isolated_op_of_stack_eq fun m m' h => by cases h; rfl

theorem isolated_outOfFuel : (outOfFuel : Eval α).Isolated limit keeps :=
  isolated_op_of_stack_eq fun m m' h => by cases h

theorem isolated_query (loc : Location) (f : Machine → Except Fault α) :
    (query loc f).Isolated limit keeps :=
  isolated_op_of_stack_eq fun _ _ h => by rw [eq_of_query h]

theorem isolated_lookUp (k : Lookup) (loc : Location) (f : Machine → Except Fault α) :
    (lookUp k loc f).Isolated limit keeps := fun m =>
  have h : (query loc f).IsolatedAt limit keeps m := isolated_query loc f m
  ⟨h.callers_eq, h.current, h.above⟩

theorem isolated_attempt (loc : Location) {f : Machine → Except Fault Machine}
    (hf : ∀ m m', f m = .ok m' → m'.stack.callers = m.stack.callers ∧
      keeps m.stack.current m'.stack.current) :
    (attempt loc f).Isolated limit keeps :=
  isolated_op fun m m' h => by
    obtain hr | rfl := ok_or_eq_of_attempt h
    · exact hf m m' hr
    · exact ⟨rfl, refl_of keeps _⟩

theorem isolated_create (loc : Location) {f : Machine → Except Fault (α × Machine)}
    (hf : ∀ m a m', f m = .ok (a, m') → m'.stack.callers = m.stack.callers ∧
      keeps m.stack.current m'.stack.current) :
    (create loc f).Isolated limit keeps :=
  isolated_op fun m m' h => by
    obtain ⟨a, hr⟩ | rfl := ok_or_eq_of_create h
    · exact hf m a m' hr
    · exact ⟨rfl, refl_of keeps _⟩

theorem isolated_update {f : Machine → Machine}
    (hf : ∀ m, (f m).stack.callers = m.stack.callers ∧ keeps m.stack.current (f m).stack.current) :
    (update f).Isolated limit keeps :=
  isolated_op fun m m' h => by
    cases h
    exact hf m

theorem isolated_record (e : Event) : (record e).Isolated limit keeps :=
  isolated_update fun m => by
    rw [Machine.stack_note]
    exact ⟨rfl, refl_of keeps _⟩

theorem isolated_depth : depth.Isolated limit keeps :=
  isolated_op_of_stack_eq fun m m' h => by cases h; rfl

theorem isolated_hasReturned : hasReturned.Isolated limit keeps :=
  isolated_op_of_stack_eq fun m m' h => by cases h; rfl

theorem isolated_liveBlocks : Context.liveBlocks.Isolated limit keeps :=
  isolated_op_of_stack_eq fun m m' h => by cases h; rfl

theorem isolated_flush (loc : Location) : (Context.flush loc).Isolated limit keeps :=
  isolated_op_of_stack_eq fun _ _ h => by rw [Context.eq_of_flush h]

theorem isolated_readInteger (loc : Location) : (readInteger loc).Isolated limit keeps :=
  isolated_op_of_stack_eq fun m m' h => by
    obtain ⟨input, ⟨n, -, rfl⟩ | ⟨e, -, rfl⟩⟩ := next_of_readInteger h <;>
      rw [Machine.stack_note]

theorem isolated_writeLine (n : Int64) (loc : Location) : (writeLine n loc).Isolated limit keeps :=
  isolated_op_of_stack_eq fun m m' h => by
    obtain ⟨output, ⟨-, rfl⟩ | ⟨-, rfl⟩⟩ := write_of_writeLine h
    · rw [Machine.stack_note]
    · rfl

/-- A built-in function does not touch the stack. -/
theorem isolated_callIntrinsic (i : Intrinsic) (args : List Value) (loc : Location) :
    (callIntrinsic i args loc).Isolated limit keeps := by
  unfold callIntrinsic
  split
  · exact (isolated_readInteger loc).bind fun _ => isolated_pure _
  · next v =>
    cases v with
    | integer n => exact (isolated_writeLine n loc).bind fun _ => isolated_pure _
    | pointer p => exact isolated_fail _
    | uninitialized => exact isolated_fail _
  · next v =>
    cases v with
    | integer n =>
      unfold callMalloc
      dsimp only
      split
      · exact isolated_fail _
      · refine (isolated_create loc fun m p m' h => ?_).bind fun _ => isolated_pure _
        rw [Machine.stack_of_allocate h]
        exact ⟨rfl, refl_of keeps _⟩
    | pointer p => exact isolated_fail _
    | uninitialized => exact isolated_fail _
  · next v =>
    cases v with
    | pointer p =>
      refine (isolated_attempt loc fun m m' h => ?_).bind fun _ => isolated_pure _
      rw [Machine.stack_of_release h]
      exact ⟨rfl, refl_of keeps _⟩
    | integer n => exact isolated_fail _
    | uninitialized => exact isolated_fail _
  · exact isolated_fail _

end Eval

/-! ### What is kept of a frame -/

/-- What an expression leaves of the frame that it is evaluated in: the values of variables may have
changed, but no variable has come or gone. -/
structure Frame.KeepsActivation (f f' : Frame) : Prop where
  function_eq : f'.function = f.function
  returned_eq : f'.returned = f.returned
  owned_eq : f'.owned = f.owned
  ids_eq : f'.bindings.ids = f.bindings.ids

/-- What a statement leaves of the frame that it is executed in: it belongs to the same call. -/
def Frame.KeepsFunction (f f' : Frame) : Prop := f'.function = f.function

/-- The function has returned the same value as before, or still not. -/
def Frame.KeepsReturned (f f' : Frame) : Prop := f'.returned = f.returned

namespace Frame

instance : IsPreorder Frame KeepsActivation where
  refl _ := ⟨rfl, rfl, rfl, rfl⟩
  trans _ _ _ h h' := ⟨h'.function_eq.trans h.function_eq, h'.returned_eq.trans h.returned_eq,
    h'.owned_eq.trans h.owned_eq, h'.ids_eq.trans h.ids_eq⟩

instance : IsPreorder Frame KeepsFunction where
  refl _ := rfl
  trans _ _ _ h h' := h'.trans h

instance : IsPreorder Frame KeepsReturned where
  refl _ := rfl
  trans _ _ _ h h' := h'.trans h

/-- Dropping old storage changes nothing about the call that a frame belongs to. -/
theorem call_dropOldArray (m : Machine) (id : Nat) :
    (m.dropOldArray id).stack.current.function = m.stack.current.function ∧
      (m.dropOldArray id).stack.current.returned = m.stack.current.returned := by
  obtain h | ⟨p, ids, -, -, h⟩ := m.dropOldArray_eq id
  · rw [h]
    exact ⟨rfl, rfl⟩
  · rw [h]
    exact ⟨rfl, rfl⟩

/-- Nor does new storage. -/
theorem call_storeArray {m m' : Machine} {isGlobal : Bool} {id size : Nat} {p : Pointer}
    (h : m.storeArray isGlobal id size = .ok (p, m')) :
    m'.stack.current.function = m.stack.current.function ∧
      m'.stack.current.returned = m.stack.current.returned := by
  obtain ⟨heap, -, rfl⟩ := Machine.eq_of_storeArray h
  cases isGlobal <;> simp [Machine.modifyFrame, own]

end Frame

/-! ### The semantics is isolated -/

namespace Eval

theorem isolated_writePlace (limit : Nat) (place : Place) (v : Value) (loc : Location) :
    (writePlace place v loc).Isolated limit Frame.KeepsActivation :=
  isolated_attempt loc fun m m' h => by
    refine ⟨Machine.callers_of_writePlace h, ?_⟩
    obtain ⟨id, -, rfl⟩ | ⟨id, -, rfl⟩ | ⟨p, heap, -, -, rfl⟩ := Machine.eq_of_writePlace h
    · exact ⟨rfl, rfl, rfl, Bindings.ids_getD_assign? _ id v⟩
    · exact refl_of Frame.KeepsActivation _
    · exact refl_of Frame.KeepsActivation _

/-- What expressions do is isolated. -/
theorem exprSimulation_isolated (limit : Nat) (declares : Variable → Prop) :
    ExprSimulation (.equalDeclaring declares) (alone (Isolated limit Frame.KeepsActivation)) where
  yield := isolated_pure
  seq hx hf := hx.bind hf
  fail := isolated_fail
  readName _ _ loc _ := isolated_lookUp _ loc _
  placeOfName _ _ _ loc _ := isolated_lookUp _ loc _
  readPlace _ loc := isolated_query loc _
  writePlace := isolated_writePlace limit
  remember _ _ := isolated_update fun _ => ⟨rfl, rfl, rfl, rfl, rfl⟩
  readInteger := isolated_readInteger
  writeLine := isolated_writeLine
  allocate _ loc := isolated_create loc fun _ _ _ h => by
    rw [Machine.stack_of_allocate h]
    exact ⟨rfl, refl_of _ _⟩
  release _ loc := isolated_attempt loc fun _ _ h => by
    rw [Machine.stack_of_release h]
    exact ⟨rfl, refl_of _ _⟩
  written := False.elim

/-- What declarations do is isolated.  The frame stays that of the same call, and the function has
not returned if it had not. -/
theorem declSimulation_isolated (limit : Nat) (scope : Nat → Option Bool)
    {keeps : Frame → Frame → Prop} [IsPreorder Frame keeps]
    (hkeeps : ∀ f g : Frame, g.function = f.function → g.returned = f.returned → keeps f g) :
    DeclSimulation .equal scope (alone (Isolated limit Frame.KeepsActivation))
      (alone (Isolated limit keeps)) where
  toExprSimulation := exprSimulation_isolated limit fun _ => True
  ofExpr hx m := (hx m).mono fun _ _ h => hkeeps _ _ h.function_eq h.returned_eq
  sequence hx hf := hx.bind hf
  clearCache := isolated_update fun _ => ⟨rfl, hkeeps _ _ rfl rfl⟩
  depth := isolated_depth
  dropOldArray _ _ := by
    unfold dropOldArray
    split
    · exact isolated_pure ()
    · refine isolated_update fun m => ⟨Machine.callers_dropOldArray m _, ?_⟩
      exact hkeeps _ _ (Frame.call_dropOldArray m _).1 (Frame.call_dropOldArray m _).2
  storeArray _ _ loc _ _ := isolated_create loc fun _ _ _ h =>
    ⟨Machine.callers_of_storeArray h,
      hkeeps _ _ (Frame.call_storeArray h).1 (Frame.call_storeArray h).2⟩
  bindVariable _ _ _ := isolated_update fun m => by
    unfold Machine.bindVariable
    rw [Machine.stack_note]
    split
    · exact ⟨rfl, refl_of keeps _⟩
    · exact ⟨rfl, hkeeps _ _ rfl rfl⟩

/-- The body of a call begins in a frame of its own, which is gone when it ends. -/
theorem IsolatedAt.inFrame {α : Type} {limit : Nat} {keeps : Frame → Frame → Prop} {x : Eval α}
    {m : Machine} {f : Frame} (hx : x.IsolatedAt limit keeps (m.enterFrame f))
    (hm : m.stack.depth < limit) : (Eval.inFrame f x).IsolatedAt limit Eq m := by
  have stack_eq : ∀ m₁, (x.run (m.enterFrame f)).machine? = some m₁ →
      m₁.leaveFrame.2.stack = m.stack := fun m₁ h =>
    Machine.stack_leaveFrame (hx.callers_eq h)
  -- The frame is removed whether the body yields a value or fails.
  have ends : ∀ m', ((Eval.inFrame f x).run m).machine? = some m' → m'.stack = m.stack := by
    intro m' h
    obtain ⟨m₁, hbody, rfl⟩ := machine?_inFrame h
    exact stack_eq m₁ hbody
  refine ⟨fun h => by rw [ends _ h], fun h => by rw [ends _ h], ?_⟩
  rintro m' (rfl | h | ⟨m₁, h, rfl⟩)
  · exact .of_callers_eq rfl rfl
  · -- In the body, the frame of the call is one more above that of the caller.
    obtain ⟨⟨above, g, hg, -⟩, hd⟩ := hx.above h
    refine ⟨⟨above ++ [g], m.stack.current, ?_, rfl⟩, ?_⟩
    · rw [hg, List.append_assoc]
      rfl
    · have hle : m'.stack.depth ≤ max limit (m.stack.depth + 1) := hd
      omega
  · exact .of_callers_eq (by rw [stack_eq m₁ h]) (by rw [stack_eq m₁ h])

/-- A call leaves all frames as they were, if its body leaves those below its own. -/
theorem isolated_enter {α : Type} {limit : Nat} {keeps : Frame → Frame → Prop}
    [IsPreorder Frame keeps] (f : Function) (args : List Value) (loc : Location) {body : Eval α}
    (hbody : body.Isolated limit keeps) (value : α → Frame → Value) :
    (Eval.enter limit f args loc body value).Isolated limit Eq := by
  intro m
  refine (isolated_depth m).bind fun depth m₁ hm₁ => ?_
  cases hm₁
  split
  · exact isolated_fail _ m
  · split
    next => exact isolated_fail _ m
    next hlimit =>
      -- Behind the check the depth is below the limit, so the new frame is within it.
      have hframe := ((isolated_record (.call f.name (m.stack.depth + 1))).bind fun _ => hbody)
        (m.enterFrame (f.frame args))
      exact (hframe.inFrame (by omega)).bind fun _ m₁ _ =>
        ((isolated_record _).bind fun _ => isolated_pure _) m₁

/-- What statements do is isolated. -/
theorem callSimulation_isolated (limit : Nat) (scope : Nat → Option Bool) :
    CallSimulation .equal scope limit limit (alone (Isolated limit Frame.KeepsActivation))
      (alone (Isolated limit Frame.KeepsFunction)) where
  toDeclSimulation := declSimulation_isolated limit scope fun _ _ h _ => h
  outOfFuel := isolated_outOfFuel
  hasReturned := isolated_hasReturned
  setReturned _ := isolated_update fun _ => ⟨rfl, rfl⟩
  recordStatement _ := isolated_update fun m => by
    rw [Machine.stack_note]
    exact ⟨rfl, rfl⟩
  enter f args loc _ _ hx m := (isolated_enter f args loc hx _ m).mono fun f _ h => by
    subst h
    exact refl_of Frame.KeepsActivation f

/-- What runs do is isolated. -/
theorem runSimulation_isolated (limit : Nat) (scope : Nat → Option Bool) :
    RunSimulation .equal scope limit limit (alone (Isolated limit Frame.KeepsActivation))
      (alone (Isolated limit Frame.KeepsFunction)) where
  toCallSimulation := callSimulation_isolated limit scope
  started _ := isolated_record _
  flush := isolated_flush
  finished _ := isolated_liveBlocks.bind fun _ => isolated_record _

/-- The declarations of globals leave as much of the root frame as expressions do. -/
theorem globalSimulation_isolated (limit : Nat) (scope : Nat → Option Bool) :
    DeclSimulation (.equalDeclaring fun v => scope v.id = some true) scope
      (alone (Isolated limit Frame.KeepsActivation))
      (alone (Isolated limit Frame.KeepsActivation)) where
  toExprSimulation := exprSimulation_isolated limit _
  ofExpr hx := hx
  sequence hx hf := hx.bind hf
  clearCache := isolated_update fun _ => ⟨rfl, rfl, rfl, rfl, rfl⟩
  depth := isolated_depth
  -- The frame owns no storage of a global, so there is none to give back.
  dropOldArray {v} _ hv := by
    have hscope : scope v.id = some true := hv
    rw [hscope]
    exact isolated_pure ()
  storeArray {v} _ _ loc hv _ := by
    have hscope : scope v.id = some true := hv
    rw [hscope]
    refine isolated_create loc fun m p m' h => ?_
    rw [Machine.stack_of_storeArray h]
    exact ⟨rfl, refl_of _ _⟩
  bindVariable {v} _ _ hv := by
    have hscope : scope v.id = some true := hv
    rw [hscope]
    refine isolated_update fun m => ?_
    unfold Machine.bindVariable
    rw [Machine.stack_note]
    exact ⟨rfl, refl_of _ _⟩

end Eval

section Semantics

variable (ctx : Context) (fuel : Nat)

theorem isolated_call (name : String) (args : List Value) (loc : Location) :
    (ctx.call fuel name args loc).Isolated ctx.config.maxCallDepth Frame.KeepsActivation :=
  (Eval.callSimulation_isolated _ _).call ctx.program.alike_self fuel name args loc

/-- The evaluation of an expression is isolated. -/
theorem isolated_evalExpr (e : Expr) :
    (evalExpr (ctx.env fuel) e).Isolated ctx.config.maxCallDepth Frame.KeepsActivation :=
  (Eval.exprSimulation_isolated _ fun _ => True).evalExpr rfl (isolated_call ctx fuel) e
    (.refl (fun _ => rfl) (fun _ => trivial) e)

/-- The execution of a statement is isolated. -/
theorem isolated_execStmt (bound : Nat) (s : Stmt) :
    (execStmt (ctx.env fuel) bound s).Isolated ctx.config.maxCallDepth Frame.KeepsFunction :=
  (Eval.callSimulation_isolated ctx.config.maxCallDepth _).execStmt rfl (isolated_call ctx fuel)
    bound s (.refl (fun _ => rfl) (fun _ => trivial) s fun _ _ => trivial)

/-- A call of a function is isolated, and leaves the frame of its caller as it was, too. -/
theorem isolated_callFunction (f : Function) (args : List Value) (loc : Location) :
    (callFunction ctx fuel f args loc).Isolated ctx.config.maxCallDepth Eq := by
  unfold callFunction callWithin
  split
  · exact Eval.isolated_fail _
  · exact Eval.isolated_enter f args loc (isolated_execStmt ctx fuel fuel _) _

/-- So is a call by name. -/
theorem isolated_call_eq (name : String) (args : List Value) (loc : Location) :
    (ctx.call fuel name args loc).Isolated ctx.config.maxCallDepth Eq := by
  cases fuel with
  | zero => exact Eval.isolated_outOfFuel
  | succ fuel =>
    rw [Context.call_succ]
    unfold Program.callNamed
    dsimp only
    split
    · exact Eval.isolated_callIntrinsic _ args loc
    · split
      · exact isolated_callFunction ctx fuel _ args loc
      · exact Eval.isolated_fail _

/-- A run leaves no variables and no arrays in the frame that it begins in, if the table describes
the globals. -/
theorem isolated_run (hg : ∀ v ∈ ctx.program.globals, ctx.program.isGlobal? v.id = some true) :
    (ctx.run fuel).Isolated ctx.config.maxCallDepth Frame.KeepsActivation := by
  refine (Eval.runSimulation_isolated _ _).run rfl ctx.program.alike_self fuel ?_
  refine (Eval.globalSimulation_isolated _ _).declareGlobals rfl (isolated_call ctx fuel) ?_
  exact List.forall₂_same.2 fun v hv => .refl (fun _ => rfl) (fun _ => trivial) (hg v hv)

end Semantics

/-! ### Sessions -/

namespace Session

variable {p : Program} {config : Config} {input : Input} {output : Output}
  {journal : Option (List Event)} {s : Session}

/-- Between runs, there is the root frame alone, and in it nothing but remembered values. -/
theorem After.root (hp : p.WellFormed)
    (h : (Session.start p config input output journal).After s) :
    s.machine.stack.callers = [] ∧
      (Frame.ofName "<global>").KeepsActivation s.machine.stack.current := by
  induction h with
  | start => exact ⟨rfl, refl_of _ _⟩
  | @run s' fuel m h hm ih =>
    obtain ⟨hcallers, hkeeps⟩ := ih
    have hiso := isolated_run s'.context fuel
      (by rw [h.context_eq]; exact hp.globals) s'.machine
    exact ⟨(hiso.callers_eq hm).trans hcallers, trans_of _ hkeeps (hiso.current hm)⟩

end Session

/-- Frames are isolated.  Whatever program is run, an expression, a statement and a call of a
function leave the frames below the current one as they were, whether they end with a value or with
an error; on their way these frames are untouched, too, and the depth is within the limit or has not
grown.  An expression keeps in the current frame its function, whether it has returned, its arrays
and which variables have values; a call of a function leaves it as it was.  Hence after any number
of runs of a parsed program, successful or not, the root frame is the only one, and holds no
variables, owns no arrays and has not returned. -/
theorem frames_isolated :
    (∀ (ctx : Context) (fuel : Nat) (e : Expr),
      (evalExpr (ctx.env fuel) e).Isolated ctx.config.maxCallDepth Frame.KeepsActivation) ∧
    (∀ (ctx : Context) (fuel bound : Nat) (s : Stmt),
      (execStmt (ctx.env fuel) bound s).Isolated ctx.config.maxCallDepth Frame.KeepsFunction) ∧
    (∀ (ctx : Context) (fuel : Nat) (f : Function) (args : List Value) (loc : Location),
      (callFunction ctx fuel f args loc).Isolated ctx.config.maxCallDepth Eq) ∧
    ∀ (p : Program) (config : Config) (input : Input) (output : Output)
      (journal : Option (List Event)) (s : Session), p.Parsed →
      (Session.start p config input output journal).After s →
      s.machine.stack.depth = 0 ∧ s.machine.stack.root.bindings = .empty ∧
        s.machine.stack.root.owned = [] ∧ s.machine.stack.root.returned = none := by
  refine ⟨isolated_evalExpr, isolated_execStmt, isolated_callFunction, ?_⟩
  intro p config input output journal s hp hs
  obtain ⟨hcallers, hkeeps⟩ := hs.root hp.wellFormed
  have hroot : s.machine.stack.root = s.machine.stack.current := by
    rw [CallStack.root, hcallers]
    rfl
  have hempty : s.machine.stack.current.bindings = .empty := by
    have hids : s.machine.stack.current.bindings.ids = [] := hkeeps.ids_eq
    exact congrArg Bindings.mk (List.map_eq_nil_iff.1 hids)
  rw [CallStack.depth_eq, hcallers, hroot]
  exact ⟨rfl, hempty, hkeeps.owned_eq, hkeeps.returned_eq⟩

/-- A session whose runs fail deep in a recursion. -/
def overflowing : Session :=
  .start (.ofText "int f() { int a[2]; int n; return f(); } int main() { return f(); }")
    { maxCallDepth := 3 } (.ofBytes []) .unlimited none

/-- A run that fails deep in a recursion leaves the root frame alone, and nothing in it. -/
theorem frames_isolated_overflowing :
    (overflowing.run 9).machine?.isSome = true ∧ (overflowing.next 9).machine.stack.depth = 0 ∧
      (overflowing.next 9).machine.stack.root.bindings = .empty ∧
      (overflowing.next 9).machine.stack.root.owned = [] ∧
      (overflowing.next 9).machine.stack.root.returned = none :=
  ⟨by decide +kernel,
    frames_isolated.2.2.2 _ _ _ _ _ _ (Program.parsed_ofText _) (Session.After.start.next 9)⟩

end MiniC
