import MiniC.Evaluation

/-!
# Statements, calls and runs

A `return` only notes its value in the frame; from then on the statements of that function do
nothing, except that every `for` around the `return` still takes its step once on the way out.

Statements are executed along their tree.  Loops and calls are bounded: the bound of a call is one
more than that of the calls in it, and also bounds the iterations of every loop in it.

Main definitions:

* `MiniC.execStmt`: the meaning of a statement;
* `MiniC.Context.call`, `MiniC.Context.env`: calls by name within a bound;
* `MiniC.callFunction`: the meaning of a call;
* `MiniC.Context.run`: the meaning of a program.
-/

set_option autoImplicit false

namespace MiniC

namespace Eval

/-! ### Declarations -/

/-- Drops the storage that an earlier execution of a declaration has left, unless the array is
global. -/
@[inline] def dropOldArray (isGlobal : Bool) (id : Nat) : Eval Unit :=
  if isGlobal then return ()
  else update fun m => m.dropOldArray id

/-- The storage of a declared array: a new region, which goes with the current call unless the
array is global. -/
def newArray (isGlobal : Bool) (v : Variable) : Eval Value :=
  if v.init.isSome then fault v.location (.unsupported .arrayInitializer)
  else do
    dropOldArray isGlobal v.id
    match v.type.size? with
    | none => fault v.location (.invalidAllocation (.arrayTooLarge (v.type.length.getD 0)))
    | some size =>
      let p ← create v.location fun m => m.storeArray isGlobal v.id size
      return .pointer p

/-! ### Statements -/

/-- A statement that begins at `loc`: nothing, if the function has returned. -/
@[inline] def statement (loc : Location) (x : Eval Unit) : Eval Unit := do
  if ← hasReturned then return ()
  else
    recordStatement loc.line
    x

/-- `while`: the condition is evaluated before each iteration. -/
def whileLoop (condition : Eval Bool) (body : Eval Unit) : Nat → Eval Unit
  | 0 => outOfFuel
  | bound + 1 => do
    clearCache
    if ← condition then
      body
      if ← hasReturned then return ()
      else whileLoop condition body bound
    else return ()

/-- `for` behind its first clause.  The step is taken after every iteration, the one that returned
included. -/
def forLoop (condition : Eval Bool) (step body : Eval Unit) : Nat → Eval Unit
  | 0 => outOfFuel
  | bound + 1 => do
    if ← condition then
      body
      step
      if ← hasReturned then return ()
      else forLoop condition step body bound
    else return ()

end Eval

open Eval

/-- The value that a declared variable begins with. -/
def initialValue (env : Env) (isGlobal : Bool) (v : Variable) : Eval Value :=
  if v.type.isArray then newArray isGlobal v
  else
    match v.init with
    | some e => do
      let a ← evalExpr env e
      return a.coerce v.type
    | none => return .uninitialized

/-- The declaration of a variable: globally if the table says so, or outside of any call if the
table does not know it. -/
def declareVariable (env : Env) (v : Variable) : Eval Unit := do
  let depth ← depth
  let isGlobal := (env.isGlobal? v.id).getD (depth == 0)
  let value ← initialValue env isGlobal v
  bindVariable isGlobal v.id value

/-- Declarations of variables one after the other. -/
def declareAll (env : Env) : List Variable → Eval Unit
  | [] => return ()
  | v :: vs => do
    declareVariable env v
    declareAll env vs

/-- An expression as a statement of its own: its value is dropped. -/
def evalStep (env : Env) (e : Expr) : Eval Unit := do
  clearCache
  let _ ← evalExpr env e
  return ()

/-- The condition of a `for`, which holds if it is missing. -/
def forCondition (env : Env) (loc : Location) : Option Expr → Eval Bool
  | none => return true
  | some c => do
    clearCache
    evalCondition env c loc

/-- The step of a `for`, if there is one. -/
def forStep (env : Env) : Option Expr → Eval Unit
  | none => return ()
  | some e => evalStep env e

/-- The value that a `return` yields. -/
def returnValue (env : Env) : Option Expr → Eval Value
  | none => return .uninitialized
  | some e => evalExpr env e

mutual

/-- The execution of a statement; `bound` bounds the iterations of its loops. -/
def execStmt (env : Env) (bound : Nat) : Stmt → Eval Unit
  | .block loc body => statement loc (execAll env bound body)
  | .declare loc vars => statement loc do
    clearCache
    declareAll env vars
  | .eval loc e => statement loc (evalStep env e)
  | .branch loc c onTrue onFalse => statement loc do
    clearCache
    if ← evalCondition env c loc then execStmt env bound onTrue
    else execOption env bound onFalse
  | .whileLoop loc c body =>
    statement loc (whileLoop (evalCondition env c loc) (execStmt env bound body) bound)
  | .forLoop loc init c step body => statement loc do
    execOption env bound init
    forLoop (forCondition env loc c) (forStep env step) (execStmt env bound body) bound
  | .ret loc value => statement loc do
    clearCache
    let v ← returnValue env value
    setReturned v
  | .empty loc => statement loc (return ())
  | .doLoop loc _ _ => statement loc (fault loc (.unsupported .doLoop))
  | .leave loc => statement loc (fault loc (.unsupported .breakStatement))
  | .next loc => statement loc (fault loc (.unsupported .continueStatement))

/-- The execution of statements one after the other. -/
def execAll (env : Env) (bound : Nat) : List Stmt → Eval Unit
  | [] => return ()
  | s :: ss => do
    execStmt env bound s
    execAll env bound ss

/-- The execution of a statement that may be missing. -/
def execOption (env : Env) (bound : Nat) : Option Stmt → Eval Unit
  | none => return ()
  | some s => execStmt env bound s

end

/-! ### Calls -/

/-- The frame of a call: every parameter bound to its argument. -/
def Function.frame (f : Function) (args : List Value) : Frame :=
  (f.params.zip args).foldl (fun frame p => frame.bind p.1.id (p.2.coerce p.1.type))
    (.ofName f.name)

/-- The frame of a call is blank but for its parameters. -/
theorem Function.exists_frame_eq (f : Function) (args : List Value) :
    ∃ b, f.frame args = { Frame.ofName f.name with bindings := b } := by
  have keeps : ∀ (ps : List (Parameter × Value)) (frame : Frame),
      ∃ b, ps.foldl (fun frame p => frame.bind p.1.id (p.2.coerce p.1.type)) frame =
        { frame with bindings := b } := by
    intro ps
    induction ps with
    | nil => exact fun frame => ⟨frame.bindings, rfl⟩
    | cons p ps ih =>
      intro frame
      obtain ⟨b, hb⟩ := ih (frame.bind p.1.id (p.2.coerce p.1.type))
      exact ⟨b, hb⟩
  exact keeps (f.params.zip args) (.ofName f.name)

namespace Eval

/-- A call of a function with evaluated arguments: `body` runs in a frame of its own, and `value`
tells from what it leaves what it returned. -/
def enter {α : Type} (limit : Nat) (f : Function) (args : List Value) (loc : Location)
    (body : Eval α) (value : α → Frame → Value) : Eval Value := do
  let depth ← depth
  if args.length ≠ f.params.length then
    fault loc (.arityMismatch f.name f.params.length args.length)
  else if limit ≤ depth then fault loc (.stackOverflow limit)
  else
    let (a, frame) ← inFrame (f.frame args) do
      record (.call f.name (depth + 1))
      body
    let v := (value a frame).coerce f.returnType
    record (.returned f.name depth v)
    return v

end Eval

/-- A call of a function with evaluated arguments.  Its value is what the body returned, converted
to the type of the function. -/
def callWithin (limit : Nat) (exec : Stmt → Eval Unit) (f : Function) (args : List Value)
    (loc : Location) : Eval Value :=
  match f.body with
  | none => fault loc (.unboundName f.name)
  | some body => enter limit f args loc (exec body) fun _ frame => frame.returnValue

/-- A call by name with evaluated arguments.  A prototype that stands for a built-in function calls
that; so does the name of a built-in that is not declared otherwise. -/
def Program.callNamed (p : Program) (call : Function → List Value → Location → Eval Value)
    (name : String) (args : List Value) (loc : Location) : Eval Value :=
  let declared := p.function? name
  match (declared.bind Function.intrinsic).or (Intrinsic.ofName? name) with
  | some i => callIntrinsic i args loc
  | none =>
    match declared with
    | some f => call f args loc
    | none => fault loc (.unboundName name)

namespace Context

/-- Calls by name, with a bound on their depth and on the iterations of the loops in them. -/
def call (ctx : Context) : Nat → String → List Value → Location → Eval Value
  | 0 => fun _ _ _ => outOfFuel
  | fuel + 1 =>
    ctx.program.callNamed <| callWithin ctx.config.maxCallDepth <|
      execStmt ⟨ctx.program.declarations, ctx.call fuel⟩ fuel

/-- What the expressions of a program depend on; calls are bounded. -/
def env (ctx : Context) (fuel : Nat) : Env := ⟨ctx.program.declarations, ctx.call fuel⟩

end Context

/-- A call of a function with evaluated arguments, with a bound on its length. -/
def callFunction (ctx : Context) (fuel : Nat) : Function → List Value → Location → Eval Value :=
  callWithin ctx.config.maxCallDepth (execStmt (ctx.env fuel) fuel)

/-- A call by name calls the function of that name, with one less for its bound. -/
theorem Context.call_succ (ctx : Context) (fuel : Nat) :
    ctx.call (fuel + 1) = ctx.program.callNamed (callFunction ctx fuel) := rfl

/-! ### Runs -/

namespace Context

/-- The declarations of global variables, each a statement of its own. -/
def declareGlobals (env : Env) : List Variable → Eval Unit
  | [] => return ()
  | v :: vs => do
    clearCache
    declareVariable env v
    declareGlobals env vs

/-- Hands the output on at the end of a run. -/
def flush (loc : Location) : Eval Unit :=
  op fun m =>
    match m.output.flush with
    | .ok _ => .done () m
    | .error e => .failed (.fault loc (.output e)) m

/-- Whether the output takes it or not, the machine stays as it is. -/
theorem eq_of_flush {loc : Location} {m m' : Machine}
    (h : ((flush loc).run m).machine? = some m') : m' = m := by
  unfold flush op at h
  cases hflush : m.output.flush <;>
  · simp only [hflush] at h
    cases h
    rfl

/-- The number of live blocks. -/
def liveBlocks : Eval Nat := op fun m => .done m.heap.blockCount m

/-- The meaning of a program: its globals are declared in source order, then the function to start
in is called without arguments. -/
def run (ctx : Context) (fuel : Nat) : Eval Value := do
  record (.runStarted ctx.config.entry)
  declareGlobals (ctx.env fuel) ctx.program.globals
  match ctx.program.function? ctx.config.entry with
  | none => fail (.noEntry ctx.config.entry)
  | some f =>
    if f.isDefinition then
      let v ← callFunction ctx fuel f [] f.location
      flush f.location
      let blocks ← liveBlocks
      record (.runFinished v blocks)
      return v
    else fail (.noEntry ctx.config.entry)

end Context

end MiniC
