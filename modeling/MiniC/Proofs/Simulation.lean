import MiniC.Proofs.SimulationUpTo

/-!
# Simulations

Simulations between computations that number regions in the same way: where the first one yields a
value, the second one yields the same value.  They are simulations up to the renaming that changes
nothing.

A property of computations is the special case in which a computation is related to itself.

Main definitions:

* `MiniC.ExprSimulation`: a relation that expressions respect;
* `MiniC.DeclSimulation`, `MiniC.StmtSimulation`: one that declarations and statements respect;
* `MiniC.CallSimulation`, `MiniC.RunSimulation`: one that calls and runs respect.

Main results:

* `MiniC.ExprSimulation.evalExpr`: the values of expressions that are alike are related;
* `MiniC.StmtSimulation.execStmt`: so is the execution of statements that are alike;
* `MiniC.CallSimulation.call`: so are calls by name in programs that are alike;
* `MiniC.RunSimulation.run`: so are runs of programs that are alike.
-/

set_option autoImplicit false

namespace MiniC

/-- A property of computations as a relation between them. -/
abbrev Eval.alone (P : ∀ {α : Type}, Eval α → Prop) {α : Type} (x _ : Eval α) : Prop := P x

/-- A relation between computations that the steps of expressions respect.  A written out subscript
remembers one value more, which must not matter. -/
structure ExprSimulation (L : Likeness) (E : ∀ {α : Type}, Eval α → Eval α → Prop) : Prop where
  yield {α : Type} (a : α) : E (pure a) (pure a)
  seq {α β : Type} {x x' : Eval α} {f f' : α → Eval β} :
    E x x' → (∀ a, E (f a) (f' a)) → E (x >>= f) (x' >>= f')
  fail {α : Type} (e : RuntimeError) : E (Eval.fail e : Eval α) (Eval.fail e)
  readName (x : String) {link : Option Nat} (loc : Location) : L.links link →
    E (Eval.readName x link loc) (Eval.readName x link loc)
  placeOfName (x : String) {link : Option Nat} (isArray : Nat → Bool) (loc : Location) :
    L.links link → E (Eval.placeOfName x link isArray loc) (Eval.placeOfName x link isArray loc)
  readPlace (place : Place) (loc : Location) :
    E (Eval.readPlace place loc) (Eval.readPlace place loc)
  writePlace (place : Place) (v : Value) (loc : Location) :
    E (Eval.writePlace place v loc) (Eval.writePlace place v loc)
  remember {n n' : Node} (v : Value) :
    L.node n n' → E (Eval.remember n.id v) (Eval.remember n'.id v)
  readInteger (loc : Location) : E (Eval.readInteger loc) (Eval.readInteger loc)
  writeLine (n : Int64) (loc : Location) : E (Eval.writeLine n loc) (Eval.writeLine n loc)
  allocate (size : Nat) (loc : Location) :
    E (Eval.create loc fun m => m.allocate size) (Eval.create loc fun m => m.allocate size)
  release (p : Pointer) (loc : Location) :
    E (Eval.attempt loc fun m => m.release p) (Eval.attempt loc fun m => m.release p)
  written {n sum : Node} {x x' : Eval Value} :
    L.writtenOut n.id → E x x' → E x (Eval.remembered sum x')

/-- A simulation is one up to the renaming that changes nothing. -/
theorem ExprSimulation.upTo {L : Likeness} {E : ∀ {α : Type}, Eval α → Eval α → Prop}
    (h : ExprSimulation L E) : ExprSimulationUpTo L id (fun x y => E x y) where
  injective _ _ hr := hr
  yield a := by
    rw [rename_id]
    exact h.yield a
  seq hx hf := h.seq hx fun a => by
    have hfa := hf a
    rwa [rename_id] at hfa
  fail e := by
    rw [rename_id]
    exact h.fail e
  readName := h.readName
  atName x _ isArray loc _ _ _ _ hl hf :=
    h.seq (h.placeOfName x isArray loc hl) fun place => by
      have hplace := hf place
      rw [rename_id] at hplace
      refine hplace.related (fun hy hg => h.seq hy fun a => ?_) (fun loc => ?_) fun v loc => ?_
      · have hga := hg a
        rwa [rename_id] at hga
      · rw [rename_id]
        exact h.readPlace place loc
      · rw [rename_id, rename_id]
        exact h.writePlace place v loc
  readMemory p loc := by
    rw [rename_id]
    exact h.readPlace (.memory p) loc
  writeMemory p v loc := by
    rw [rename_id, rename_id]
    exact h.writePlace (.memory p) v loc
  remember v hn := by
    rw [rename_id]
    exact h.remember v hn
  readInteger := h.readInteger
  writeLine := h.writeLine
  allocate := h.allocate
  release p loc := by
    rw [rename_id]
    exact h.release p loc
  written := h.written

/-- A relation `S` between computations that declarations respect.  It is allowed more than `E`,
the relation between expressions.  `scope` tells which variables are global. -/
structure DeclSimulation (L : Likeness) (scope : Nat → Option Bool)
    (E S : ∀ {α : Type}, Eval α → Eval α → Prop) : Prop extends ExprSimulation L E where
  ofExpr {α : Type} {x x' : Eval α} : E x x' → S x x'
  sequence {α β : Type} {x x' : Eval α} {f f' : α → Eval β} :
    S x x' → (∀ a, S (f a) (f' a)) → S (x >>= f) (x' >>= f')
  clearCache : S Eval.clearCache Eval.clearCache
  depth : S Eval.depth Eval.depth
  dropOldArray {v : Variable} (depth : Nat) : L.declares v →
    S (Eval.dropOldArray ((scope v.id).getD (depth == 0)) v.id)
      (Eval.dropOldArray ((scope v.id).getD (depth == 0)) v.id)
  storeArray {v : Variable} (depth size : Nat) (loc : Location) : L.declares v → v.type.isArray →
    S (Eval.create loc fun m => m.storeArray ((scope v.id).getD (depth == 0)) v.id size)
      (Eval.create loc fun m => m.storeArray ((scope v.id).getD (depth == 0)) v.id size)
  bindVariable {v : Variable} (depth : Nat) (w : Value) : L.declares v →
    S (Eval.bindVariable ((scope v.id).getD (depth == 0)) v.id w)
      (Eval.bindVariable ((scope v.id).getD (depth == 0)) v.id w)

theorem DeclSimulation.upTo {L : Likeness} {scope : Nat → Option Bool}
    {E S : ∀ {α : Type}, Eval α → Eval α → Prop} (h : DeclSimulation L scope E S) :
    DeclSimulationUpTo L id scope (fun x y => E x y) (fun x y => S x y) where
  toExprSimulationUpTo := h.toExprSimulation.upTo
  ofExpr := h.ofExpr
  sequence hx hf := h.sequence hx fun a => by
    have hfa := hf a
    rwa [rename_id] at hfa
  clearCache := h.clearCache
  depth := h.depth
  dropOldArray := h.dropOldArray
  storeArray := h.storeArray
  bindVariable depth w hv := by
    rw [rename_id]
    exact h.bindVariable depth w hv

/-- A relation `S` between computations that statements respect. -/
structure StmtSimulation (L : Likeness) (scope : Nat → Option Bool)
    (E S : ∀ {α : Type}, Eval α → Eval α → Prop) : Prop extends DeclSimulation L scope E S where
  outOfFuel {α : Type} : E (Eval.outOfFuel : Eval α) Eval.outOfFuel
  hasReturned : S Eval.hasReturned Eval.hasReturned
  setReturned (v : Value) : S (Eval.setReturned v) (Eval.setReturned v)
  recordStatement (line : Nat) : S (Eval.recordStatement line) (Eval.recordStatement line)

theorem StmtSimulation.upTo {L : Likeness} {scope : Nat → Option Bool}
    {E S : ∀ {α : Type}, Eval α → Eval α → Prop} (h : StmtSimulation L scope E S) :
    StmtSimulationUpTo L id scope (fun x y => E x y) (fun x y => S x y) where
  toDeclSimulationUpTo := h.toDeclSimulation.upTo
  outOfFuel := h.outOfFuel
  hasReturned := h.hasReturned
  setReturned v := by
    rw [rename_id]
    exact h.setReturned v
  recordStatement := h.recordStatement

/-- A relation `S` between computations that statements respect, and calls turn into `E`.  The calls
on each side have a limit on their depth. -/
structure CallSimulation (L : Likeness) (scope : Nat → Option Bool) (limit limit' : Nat)
    (E S : ∀ {α : Type}, Eval α → Eval α → Prop) : Prop extends StmtSimulation L scope E S where
  enter (f : Function) (args : List Value) (loc : Location) {x x' : Eval Unit} : S x x' →
    E (Eval.enter limit f args loc x fun _ frame => frame.returnValue)
      (Eval.enter limit' f args loc x' fun _ frame => frame.returnValue)

theorem CallSimulation.upTo {L : Likeness} {scope : Nat → Option Bool} {limit limit' : Nat}
    {E S : ∀ {α : Type}, Eval α → Eval α → Prop} (h : CallSimulation L scope limit limit' E S) :
    CallSimulationUpTo L id scope limit limit' (fun x y => E x y) (fun x y => S x y) where
  toStmtSimulationUpTo := h.toStmtSimulation.upTo
  enter f args loc _ _ hx := by
    rw [rename_id]
    exact h.enter f args loc hx

/-- A relation that runs respect, too. -/
structure RunSimulation (L : Likeness) (scope : Nat → Option Bool) (limit limit' : Nat)
    (E S : ∀ {α : Type}, Eval α → Eval α → Prop) : Prop
    extends CallSimulation L scope limit limit' E S where
  started (entry : String) : E (Eval.record (.runStarted entry)) (Eval.record (.runStarted entry))
  flush (loc : Location) : E (Context.flush loc) (Context.flush loc)
  finished (v : Value) :
    E (Context.liveBlocks >>= fun n => Eval.record (.runFinished v n))
      (Context.liveBlocks >>= fun n => Eval.record (.runFinished v n))

theorem RunSimulation.upTo {L : Likeness} {scope : Nat → Option Bool} {limit limit' : Nat}
    {E S : ∀ {α : Type}, Eval α → Eval α → Prop} (h : RunSimulation L scope limit limit' E S) :
    RunSimulationUpTo L id scope limit limit' (fun x y => E x y) (fun x y => S x y) where
  toCallSimulationUpTo := h.toCallSimulation.upTo
  started := h.started
  flush := h.flush
  finished v := by
    rw [rename_id]
    exact h.finished v

/-! ### What is respected -/

/-- Calls of built-in functions are related to themselves. -/
theorem ExprSimulation.callIntrinsic {L : Likeness} {E : ∀ {α : Type}, Eval α → Eval α → Prop}
    (h : ExprSimulation L E) (i : Intrinsic) (args : List Value) (loc : Location) :
    E (Eval.callIntrinsic i args loc) (Eval.callIntrinsic i args loc) := by
  have hcall := h.upTo.callIntrinsic i args loc
  rwa [rename_id] at hcall

section

variable {L : Likeness} {env env' : Env} {E S : ∀ {α : Type}, Eval α → Eval α → Prop}
  (hd : env.declarations = env'.declarations)
  (hc : ∀ f vs loc, E (env.call f vs loc) (env'.call f vs loc))

include hc in
theorem calls_upTo (f : String) (vs : List Value) (loc : Location) :
    E (env.call f vs loc) (env'.call f (rename id vs) loc) := by
  rw [rename_id]
  exact hc f vs loc

include hd hc

/-- The values of expressions that are alike are related, if calls are. -/
theorem ExprSimulation.evalExpr (h : ExprSimulation L E) (e : Expr) {e' : Expr}
    (he : e.Alike L e') : E (MiniC.evalExpr env e) (MiniC.evalExpr env' e') :=
  h.upTo.evalExpr hd (calls_upTo hc) e he

namespace DeclSimulation

variable (h : DeclSimulation L env.isGlobal? E S)

include h

/-- Declarations of variables that are alike are related. -/
theorem declareAll {vs vs' : List Variable} (hvs : List.Forall₂ (Variable.Alike L) vs vs') :
    S (MiniC.declareAll env vs) (MiniC.declareAll env' vs') :=
  h.upTo.declareAll hd (calls_upTo hc) hvs

/-- The declarations of globals that are alike are related. -/
theorem declareGlobals {vs vs' : List Variable} (hvs : List.Forall₂ (Variable.Alike L) vs vs') :
    S (Context.declareGlobals env vs) (Context.declareGlobals env' vs') :=
  h.upTo.declareGlobals hd (calls_upTo hc) hvs

end DeclSimulation

/-- Statements that are alike are executed alike, if calls are. -/
theorem StmtSimulation.execStmt (h : StmtSimulation L env.isGlobal? E S) (bound : Nat) (s : Stmt)
    {s' : Stmt} (hs : s.Alike L s') :
    S (MiniC.execStmt env bound s) (MiniC.execStmt env' bound s') :=
  h.upTo.execStmt hd (calls_upTo hc) bound s hs

end

section

variable {L : Likeness} {E S : ∀ {α : Type}, Eval α → Eval α → Prop} {p p' : Program}
  {config config' : Config}

/-- Calls by name are related. -/
theorem CallSimulation.call
    (h : CallSimulation L (fun id => (p.declarations[id]?).map Declaration.isGlobal)
      config.maxCallDepth config'.maxCallDepth E S) (hp : p.Alike L p') (fuel : Nat) (name : String)
    (args : List Value) (loc : Location) :
    E (Context.call ⟨p, config⟩ fuel name args loc)
      (Context.call ⟨p', config'⟩ fuel name args loc) := by
  have hcall := h.upTo.call hp fuel name args loc
  rwa [rename_id] at hcall

/-- Runs of programs that are alike, from functions of one name, are related if the declarations of
their globals are. -/
theorem RunSimulation.run
    (h : RunSimulation L (fun id => (p.declarations[id]?).map Declaration.isGlobal)
      config.maxCallDepth config'.maxCallDepth E S)
    (hentry : config'.entry = config.entry) (hp : p.Alike L p') (fuel : Nat)
    (hg : E (Context.declareGlobals (Context.env ⟨p, config⟩ fuel) p.globals)
      (Context.declareGlobals (Context.env ⟨p', config'⟩ fuel) p'.globals)) :
    E (Context.run ⟨p, config⟩ fuel) (Context.run ⟨p', config'⟩ fuel) :=
  h.upTo.run hentry hp fuel hg

end

end MiniC
