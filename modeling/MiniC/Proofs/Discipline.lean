import MiniC.Proofs.Updates

/-!
# What every operation obeys

A property of computations holds of a whole run if it goes along with sequencing and holds of every
operation that the run comes to.  Which operations these are depends on the program: an assignment
stores to certain targets, and converts what it stores to their types; a declaration gives a value
of its type to certain variables; and what cannot be run is refused.  A discipline is a property of
computations that holds of all operations of programs with certain parts.

Main definitions:

* `MiniC.Parts`: what a program may consist of;
* `MiniC.Expr.Names`: the places that a target names;
* `MiniC.ExprDiscipline`, `MiniC.Discipline`: properties that expressions and runs have.

Main results:

* `MiniC.ExprDiscipline.evalExpr`: expressions with the right parts have the property;
* `MiniC.Discipline.execStmt`, `MiniC.Discipline.call`: so do statements and calls;
* `MiniC.Discipline.run`: so do runs.
-/

set_option autoImplicit false

namespace MiniC

open Eval

/-! ### Parts of programs -/

/-- The expression names a location, so that it can be assigned to. -/
def Expr.namesLocation : Expr → Bool
  | name _ _ _ => true
  | e => e.namesMemory

/-- The construct that cannot be run, if the expression is one: a string literal, an address, or an
assignment to what names no location. -/
def Expr.unsupported? : Expr → Option Construct
  | string _ _ => some .stringLiteral
  | unary _ .addrOf _ => some .addressOf
  | binary _ op l _ => if op.isAssignment && !l.namesLocation then some .assignmentTarget else none
  | unary _ op x => if op.isIncrement && !x.namesLocation then some .assignmentTarget else none
  | _ => none

theorem Expr.unsupported?_of_target? {e target : Expr} (h : e.target? = some target)
    (ht : target.namesLocation = false) : e.unsupported? = some .assignmentTarget := by
  obtain ⟨n, op, r, rfl, hop⟩ | ⟨n, op, rfl, hop⟩ := Expr.exists_eq_of_target? h
  · rw [Expr.unsupported?, hop, ht]
    rfl
  · cases op with
    | preInc | preDec | postInc | postDec =>
      simp only [Expr.unsupported?, UnaryOp.isIncrement, ht]
      rfl
    | _ => cases hop

/-- The construct that a statement is, if it cannot be run. -/
def Stmt.unsupported? : Stmt → Option Construct
  | doLoop _ _ _ => some .doLoop
  | leave _ => some .breakStatement
  | next _ => some .continueStatement
  | _ => none

/-- What a program may consist of: the constructs in it that cannot be run, what it assigns to, the
variables that it declares, and the functions that it calls. -/
structure Parts where
  construct : Construct → Prop
  target : Expr → Prop
  declared : Variable → Prop
  called : Function → Prop

namespace Parts

/-- One expression, apart from those in it, is such a part. -/
structure Node (P : Parts) (e : Expr) : Prop where
  supported : ∀ c ∈ e.unsupported?, P.construct c
  target : ∀ t ∈ e.target?, P.target t

/-- These expressions, variables and statements are such parts. -/
structure Hold (P : Parts) (es : List Expr) (vs : List Variable) (ss : List Stmt) : Prop where
  exprs : ∀ e ∈ es, P.Node e
  vars : ∀ v ∈ vs, P.declared v
  stmts : ∀ s ∈ ss, ∀ c ∈ s.unsupported?, P.construct c

theorem Hold.split {P : Parts} {es es' : List Expr} {vs vs' : List Variable} {ss ss' : List Stmt}
    (h : P.Hold (es ++ es') (vs ++ vs') (ss ++ ss')) : P.Hold es vs ss ∧ P.Hold es' vs' ss' :=
  have hexprs := List.forall_mem_append.1 h.exprs
  have hvars := List.forall_mem_append.1 h.vars
  have hstmts := List.forall_mem_append.1 h.stmts
  ⟨⟨hexprs.1, hvars.1, hstmts.1⟩, ⟨hexprs.2, hvars.2, hstmts.2⟩⟩

/-- The program consists of such parts. -/
structure HoldProgram (P : Parts) (p : Program) : Prop where
  globals : ∀ v ∈ p.globals, P.declared v
  exprs : ∀ e ∈ p.globals.flatMap Variable.exprs, P.Node e
  called : ∀ f ∈ p.functions, P.called f
  functions : ∀ f ∈ p.functions, P.Hold f.exprs f.vars f.stmts

end Parts

/-- The places that a target names: a name refers to a variable, and other targets to places in
memory. -/
def Expr.Names : Expr → Place → Prop
  | name _ _ link, place => ∃ id, link = some id ∧ (place = .local id ∨ place = .global id)
  | _, place => ∃ p, place = .memory p

/-- An assignment stores to a place that its target names. -/
theorem Expr.names_of_evalPlace {env : Env} {target : Expr} {place : Place} {m m' : Machine}
    (h : (evalPlace env target).run m = .done place m') : target.Names place := by
  obtain ⟨⟨n, x, link, rfl, hok⟩, -⟩ | ⟨hmemory, p, -, rfl⟩ := done_of_evalPlace h
  · unfold Machine.placeOfName at hok
    split at hok
    · cases hok
    · next id =>
      split at hok
      · cases hok
      · split at hok
        · exact ⟨id, rfl, .inl (Except.ok.inj hok).symm⟩
        · split at hok
          · exact ⟨id, rfl, .inr (Except.ok.inj hok).symm⟩
          · cases hok
  · cases target with
    | name => cases hmemory
    | _ => exact ⟨p, rfl⟩

/-! ### What operations refuse -/

/-- An operation that combines two values refuses none for being an assignment. -/
theorem BinaryOp.kind_ne_of_apply {op : BinaryOp} (hop : op.isAssignment = false) {a b : Value}
    {s t : Int64} {f : Fault} (h : op.apply a b s t = .error f) :
    f.kind ≠ .unsupportedConstruct := by
  cases a with
  | uninitialized =>
    rw [apply_uninitialized_left] at h
    cases h
    rintro ⟨⟩
  | integer n =>
    cases b with
    | uninitialized => cases h; rintro ⟨⟩
    | integer k =>
      cases op with
      | assign | addAssign | subAssign | mulAssign | divAssign | modAssign => cases hop
      | div | mod =>
        simp only [apply, onIntegers] at h
        split at h <;> cases h
        rintro ⟨⟩
      | _ => cases h
    | pointer q => cases op <;> cases h <;> rintro ⟨⟩
  | pointer p =>
    cases b with
    | uninitialized => cases h; rintro ⟨⟩
    | integer k => cases op <;> cases h <;> rintro ⟨⟩
    | pointer q =>
      cases op with
      | sub | lt | le | gt | ge =>
        simp only [apply, onPointers, order] at h
        split at h <;> cases h
        rintro ⟨⟩
      | _ => cases h <;> rintro ⟨⟩

theorem UnaryOp.kind_ne_of_apply {op : UnaryOp} {a : Value} {f : Fault}
    (h : op.apply a = .error f) : f.kind ≠ .unsupportedConstruct := by
  cases a <;> cases op <;> cases h <;> rintro ⟨⟩

/-- What cannot be computed of the operands of an assignment is not refused, either. -/
theorem Update.kind_ne {env : Env} {place : Place} {e : Expr} {u : Update} {m m' : Machine}
    (h : (evalUpdate env place e).run m = .done u m') {f : Fault} (hf : u.value = .error f) :
    f.kind ≠ .unsupportedConstruct := by
  cases e with
  | binary n op l r =>
    simp only [evalUpdate] at h
    split at h
    · obtain ⟨v, _, -, hv⟩ := run_bind_eq_done h
      cases hv
      cases hf
    · next base hbase =>
      obtain ⟨current, _, -, h⟩ := run_bind_eq_done h
      obtain ⟨_, _, -, h⟩ := run_bind_eq_done h
      obtain ⟨v, _, -, h⟩ := run_bind_eq_done h
      cases h
      exact BinaryOp.kind_ne_of_apply (BinaryOp.isAssignment_of_compoundBase? hbase) hf
  | unary n op x =>
    obtain ⟨current, -, hadded, -⟩ := eq_of_evalUpdate_unary h
    exact BinaryOp.kind_ne_of_apply rfl (hadded.symm.trans hf)
  | _ => cases h

/-! ### Expressions -/

/-- A property of computations that all operations have that expressions with certain parts come
to.  A sequence has it if what follows its first part has it, for the values that this yields. -/
structure ExprDiscipline (P : Parts) (E : ∀ {α : Type}, Eval α → Prop) : Prop where
  yield {α : Type} (a : α) : E (pure a)
  seq {α β : Type} {x : Eval α} {f : α → Eval β} :
    E x → (∀ a m m', x.run m = .done a m' → E (f a)) → E (x >>= f)
  fail {α : Type} {e : RuntimeError} : e.kind ≠ .unsupportedConstruct → E (Eval.fail e : Eval α)
  refuse {α : Type} {c : Construct} (loc : Location) :
    P.construct c → E (Eval.fault loc (.unsupported c) : Eval α)
  readName (x : String) (link : Option Nat) (loc : Location) : E (Eval.readName x link loc)
  placeOfName (x : String) (link : Option Nat) (isArray : Nat → Bool) (loc : Location) :
    E (Eval.placeOfName x link isArray loc)
  readPlace (place : Place) (loc : Location) : E (Eval.readPlace place loc)
  /-- What is stored to a target is converted to its type. -/
  writePlace {target : Expr} {place : Place} (v : Value) (loc : Location) : P.target target →
    target.Names place → E (Eval.writePlace place (v.coerceTo target.type) loc)
  remember (node : Nat) (v : Value) : E (Eval.remember node v)
  readInteger (loc : Location) : E (Eval.readInteger loc)
  writeLine (n : Int64) (loc : Location) : E (Eval.writeLine n loc)
  allocate (size : Nat) (loc : Location) : E (Eval.create loc fun m => m.allocate size)
  release (p : Pointer) (loc : Location) : E (Eval.attempt loc fun m => m.release p)

namespace ExprDiscipline

variable {P : Parts} {E : ∀ {α : Type}, Eval α → Prop} (h : ExprDiscipline P E)

include h

/-- A sequence has the property if both parts have it, whatever the first one yields. -/
theorem andThen {α β : Type} {x : Eval α} {f : α → Eval β} (hx : E x) (hf : ∀ a, E (f a)) :
    E (x >>= f) := h.seq hx fun a _ _ _ => hf a

theorem fault {α : Type} (loc : Location) {f : Fault} (hf : f.kind ≠ .unsupportedConstruct) :
    E (Eval.fault loc f : Eval α) := h.fail hf

theorem ofExcept {α : Type} (loc : Location) {x : Except Fault α}
    (hx : ∀ f, x = .error f → f.kind ≠ .unsupportedConstruct) : E (Eval.ofExcept loc x) := by
  cases x with
  | ok a => exact h.yield a
  | error f => exact h.fault loc (hx f rfl)

/-! #### Built-in functions -/

theorem callIntrinsic (i : Intrinsic) (args : List Value) (loc : Location) :
    E (Eval.callIntrinsic i args loc) := by
  unfold Eval.callIntrinsic
  split
  · exact h.andThen (h.readInteger loc) fun _ => h.yield _
  · next v =>
    cases v with
    | integer n => exact h.andThen (h.writeLine n loc) fun _ => h.yield _
    | uninitialized | pointer p => exact h.fault loc (by rintro ⟨⟩)
  · next v =>
    cases v with
    | integer n =>
      rw [Eval.callMalloc]
      split
      · exact h.fault loc (by rintro ⟨⟩)
      · exact h.andThen (h.allocate _ loc) fun _ => h.yield _
    | uninitialized | pointer p => exact h.fault loc (by rintro ⟨⟩)
  · next v =>
    cases v with
    | pointer p => exact h.andThen (h.release p loc) fun _ => h.yield _
    | uninitialized | integer n => exact h.fault loc (by rintro ⟨⟩)
  · exact h.fault loc (by rintro ⟨⟩)

/-! #### Steps of expressions -/

theorem remembered (n : Node) {x : Eval Value} (hx : E x) : E (Eval.remembered n x) :=
  h.andThen hx fun v => h.andThen (h.remember n.id v) fun _ => h.yield v

theorem sizeof (t : Ty) (loc : Location) : E (Eval.sizeof t loc) := by
  unfold Eval.sizeof
  split
  · split
    · exact h.yield _
    · exact h.fault loc (by rintro ⟨⟩)
  · exact h.fault loc (by rintro ⟨⟩)

theorem expectPointer (v : Value) (loc : Location) : E (Eval.expectPointer v loc) := by
  cases v with
  | pointer p => exact h.yield p
  | uninitialized | integer n => exact h.fault loc (by rintro ⟨⟩)

theorem operate (op : BinaryOp) (hop : op.isAssignment = false) (l r : Expr) (loc : Location)
    {x y : Eval Value} (hx : E x) (hy : E y) : E (Eval.operate op l r loc x y) :=
  h.andThen hx fun _ => h.andThen hy fun _ =>
    h.ofExcept loc fun _ hf => BinaryOp.kind_ne_of_apply hop hf

theorem follow (loc : Location) {x : Eval Value} (hx : E x) : E (Eval.follow loc x) :=
  h.andThen hx fun v => h.expectPointer v loc

theorem load (loc : Location) {x : Eval Pointer} (hx : E x) : E (Eval.load loc x) :=
  h.andThen hx fun p => h.readPlace (.memory p) loc

/-! #### Trees of expressions -/

variable {env : Env} (hc : ∀ f vs loc, E (env.call f vs loc))

/-- The place that a target names is determined, or it is refused for naming none. -/
theorem evalPlace {e target : Expr} (htarget : e.target? = some target) (he : P.Node e)
    (haddress : target.namesMemory = true → E (MiniC.evalAddress env target)) :
    E (MiniC.evalPlace env target) := by
  have hnowhere : target.namesLocation = false →
      E (Eval.fault target.location (.unsupported .assignmentTarget) : Eval Place) :=
    fun hnames => h.refuse _ (he.supported _ (Expr.unsupported?_of_target? htarget hnames))
  cases target with
  | name n x link => exact h.placeOfName x link env.isArray n.location
  | subscript n b i => exact h.andThen (haddress rfl) fun _ => h.yield _
  | unary n op x =>
    cases op with
    | deref => exact h.andThen (haddress rfl) fun _ => h.yield _
    | _ => exact hnowhere rfl
  | _ => exact hnowhere rfl

/-- What is evaluated behind a target has the property, if the right operand has it. -/
theorem evalUpdate (place : Place) {e : Expr} {target : Expr} (htarget : e.target? = some target)
    (hright : ∀ n op l r, e = .binary n op l r → E (MiniC.evalExpr env r)) :
    E (MiniC.evalUpdate env place e) := by
  cases e with
  | binary n op l r =>
    have hr := hright n op l r rfl
    simp only [MiniC.evalUpdate]
    split
    · exact h.andThen hr fun _ => h.yield _
    · exact h.andThen (h.readPlace place _) fun _ => h.andThen (h.remember l.id _) fun _ =>
        h.andThen hr fun _ => h.yield _
  | unary n op x => exact h.andThen (h.readPlace place _) fun _ => h.yield _
  | _ => cases htarget

/-- An assignment has the property, if its operands have it. -/
theorem assignment {e : Expr} (target : Expr) (htarget : e.target? = some target) (he : P.Node e)
    (haddress : target.namesMemory = true → E (MiniC.evalAddress env target))
    (hright : ∀ n op l r, e = .binary n op l r → E (MiniC.evalExpr env r)) :
    E (MiniC.evalExpr env e) := by
  have hplace := h.evalPlace htarget he haddress
  have hoperands : E (evalOperands env target e) := h.andThen hplace fun place =>
    h.andThen (h.evalUpdate place htarget hright) fun _ => h.yield _
  rw [evalExpr_of_target? env htarget]
  refine h.remembered _ (h.seq hoperands fun o m m' hdone => ?_)
  -- The place is one that the target names, and the value is converted to the target's type.
  obtain ⟨place, m₁, hevalPlace, hrest⟩ := run_bind_eq_done hdone
  obtain ⟨u, m₂, hupdate, hyield⟩ := run_bind_eq_done hrest
  obtain rfl : (place, u) = o := (Outcome.done.inj hyield).1
  refine h.andThen (h.ofExcept _ fun _ hf => Update.kind_ne hupdate hf) fun v => ?_
  exact h.andThen (h.writePlace v _ (he.target target htarget)
    (Expr.names_of_evalPlace hevalPlace)) fun _ => h.yield _

mutual

/-- Expressions with the right parts have the property, if calls have it. -/
theorem evalExpr (hc : ∀ f vs loc, E (env.call f vs loc)) : (e : Expr) →
    (∀ x ∈ e.all, P.Node x) → E (MiniC.evalExpr env e)
  | .int n v, _ => h.remembered n (h.yield _)
  | .char n c, _ => h.remembered n (h.yield _)
  | .string n s, he =>
    h.remembered n (h.refuse n.location ((he _ (Expr.mem_all_self _)).supported _ rfl))
  | .name n x link, _ => h.remembered n (h.readName x link n.location)
  | .binary n op l r, he => by
    obtain ⟨hnode, hparts⟩ := List.forall_mem_cons.1 he
    obtain ⟨hl, hr⟩ := List.forall_mem_append.1 hparts
    have haddress := evalAddress hc l hl
    have hleft := evalExpr hc l hl
    have hright := evalExpr hc r hr
    cases hop : op.isAssignment with
    | true =>
      exact h.assignment l (Expr.target?_binary hop n l r) hnode haddress fun _ _ _ _ heq => by
        cases heq
        exact hright
    | false =>
      rw [evalExpr_of_not_isAssignment env n l r hop]
      exact h.remembered n (h.operate op hop l r n.location hleft hright)
  | .unary n op x, he => by
    obtain ⟨hnode, hx⟩ := List.forall_mem_cons.1 he
    have haddress := evalAddress hc x hx
    have hvalue := evalExpr hc x hx
    cases op with
    | preInc | preDec | postInc | postDec =>
      exact h.assignment x rfl hnode haddress (by rintro _ _ _ _ ⟨⟩)
    | addrOf => exact h.remembered n (h.refuse n.location (hnode.supported _ rfl))
    | deref => exact h.remembered n (h.load n.location (h.follow n.location hvalue))
    | neg | not | bitNot =>
      exact h.remembered n <| h.andThen hvalue fun _ =>
        h.ofExcept n.location fun _ hf => UnaryOp.kind_ne_of_apply hf
  | .call n f args, he =>
    h.remembered n <| h.andThen (evalArgs hc args (List.forall_mem_cons.1 he).2) fun vs =>
      hc f vs n.location
  | .subscript n b i, he => by
    obtain ⟨hb, hi⟩ := List.forall_mem_append.1 (List.forall_mem_cons.1 he).2
    have hsum := h.operate .add rfl b i n.location (evalExpr hc b hb) (evalExpr hc i hi)
    exact h.remembered n (h.load n.location (h.follow n.location hsum))
  | .cast n t x, he =>
    h.remembered n <| h.andThen (evalExpr hc x (List.forall_mem_cons.1 he).2) fun _ => h.yield _
  | .sizeof n t, _ => h.remembered n (h.sizeof t n.location)

theorem evalArgs (hc : ∀ f vs loc, E (env.call f vs loc)) : (es : List Expr) →
    (∀ x ∈ Expr.allOf es, P.Node x) → E (MiniC.evalArgs env es)
  | [], _ => h.yield []
  | e :: es, hes => by
    obtain ⟨he, hes⟩ := List.forall_mem_append.1 hes
    exact h.andThen (evalExpr hc e he) fun v =>
      h.andThen (evalArgs hc es hes) fun vs => h.yield (v :: vs)

theorem evalAddress (hc : ∀ f vs loc, E (env.call f vs loc)) : (e : Expr) →
    (∀ x ∈ e.all, P.Node x) → e.namesMemory = true → E (MiniC.evalAddress env e)
  | .unary n .deref x, he, _ =>
    h.follow n.location (evalExpr hc x (List.forall_mem_cons.1 he).2)
  | .subscript n b i, he, _ => by
    obtain ⟨hb, hi⟩ := List.forall_mem_append.1 (List.forall_mem_cons.1 he).2
    have hsum := h.operate .add rfl b i n.location (evalExpr hc b hb) (evalExpr hc i hi)
    exact h.follow n.location hsum

end

include hc in
theorem evalCondition (e : Expr) (he : ∀ x ∈ e.all, P.Node x) (loc : Location) :
    E (MiniC.evalCondition env e loc) := by
  refine h.andThen (h.evalExpr hc e he) fun v => ?_
  cases v.truthy? with
  | some b => exact h.yield b
  | none => exact h.fault loc (by rintro ⟨⟩)

end ExprDiscipline

/-! ### Declarations, statements and calls -/

/-- A property of computations that all operations have that programs with certain parts come to. -/
structure Discipline (P : Parts) (E : ∀ {α : Type}, Eval α → Prop) : Prop
    extends ExprDiscipline P E where
  outOfFuel {α : Type} : E (Eval.outOfFuel : Eval α)
  clearCache : E Eval.clearCache
  depth : E Eval.depth
  hasReturned : E Eval.hasReturned
  setReturned (v : Value) : E (Eval.setReturned v)
  record (e : Event) : E (Eval.record e)
  recordStatement (line : Nat) : E (Eval.recordStatement line)
  dropOldArray (isGlobal : Bool) (id : Nat) : E (Eval.dropOldArray isGlobal id)
  storeArray (isGlobal : Bool) (id size : Nat) (loc : Location) :
    E (Eval.create loc fun m => m.storeArray isGlobal id size)
  arrayInitializer {v : Variable} : P.declared v → v.type.isArray = true → v.init.isSome = true →
    E (Eval.fault v.location (.unsupported .arrayInitializer) : Eval Value)
  /-- What a variable begins with is a value of its type. -/
  bindVariable {v : Variable} (isGlobal : Bool) {w : Value} : P.declared v → w.coerce v.type = w →
    E (Eval.bindVariable isGlobal v.id w)
  inFrame {f : Function} (args : List Value) {x : Eval Unit} : P.called f → E x →
    E (Eval.inFrame (f.frame args) x)
  flush (loc : Location) : E (Context.flush loc)
  liveBlocks : E Context.liveBlocks

/-- A variable begins with a value of its type. -/
theorem coerce_of_initialValue {env : Env} {isGlobal : Bool} {v : Variable} {w : Value}
    {m m' : Machine} (h : (initialValue env isGlobal v).run m = .done w m') :
    w.coerce v.type = w := by
  unfold initialValue at h
  split at h
  · unfold newArray at h
    split at h
    · cases h
    · obtain ⟨_, _, -, h⟩ := run_bind_eq_done h
      split at h
      · cases h
      · obtain ⟨p, _, -, h⟩ := run_bind_eq_done h
        obtain ⟨rfl, -⟩ := Outcome.done.inj h
        rfl
  · split at h
    · obtain ⟨a, _, -, h⟩ := run_bind_eq_done h
      obtain ⟨rfl, -⟩ := Outcome.done.inj h
      exact Value.coerce_coerce _ a
    · obtain ⟨rfl, -⟩ := Outcome.done.inj h
      rfl

namespace Discipline

variable {P : Parts} {E : ∀ {α : Type}, Eval α → Prop} (h : Discipline P E)

include h

theorem nothing : E (pure () : Eval Unit) := h.yield ()

theorem newArray (isGlobal : Bool) {v : Variable} (hv : P.declared v) (ha : v.type.isArray = true) :
    E (Eval.newArray isGlobal v) := by
  unfold Eval.newArray
  split
  · next hinit => exact h.arrayInitializer hv ha hinit
  · refine h.andThen (h.dropOldArray isGlobal v.id) fun _ => ?_
    split
    · exact h.fault _ (by rintro ⟨⟩)
    · exact h.andThen (h.storeArray isGlobal v.id _ _) fun _ => h.yield _

/-! #### Loops -/

theorem statement (loc : Location) {x : Eval Unit} (hx : E x) : E (Eval.statement loc x) := by
  refine h.andThen h.hasReturned fun b => ?_
  cases b with
  | true => exact h.nothing
  | false => exact h.andThen (h.recordStatement loc.line) fun _ => hx

theorem whileLoop {c : Eval Bool} {x : Eval Unit} (hc : E c) (hx : E x) (bound : Nat) :
    E (Eval.whileLoop c x bound) := by
  -- Each iteration is one less on the bound.
  induction bound with
  | zero => exact h.outOfFuel
  | succ bound ih =>
    refine h.andThen h.clearCache fun _ => h.andThen hc fun b => ?_
    cases b with
    | false => exact h.nothing
    | true =>
      refine h.andThen hx fun _ => h.andThen h.hasReturned fun r => ?_
      cases r with
      | true => exact h.nothing
      | false => exact ih

theorem forLoop {c : Eval Bool} {y x : Eval Unit} (hc : E c) (hy : E y) (hx : E x) (bound : Nat) :
    E (Eval.forLoop c y x bound) := by
  induction bound with
  | zero => exact h.outOfFuel
  | succ bound ih =>
    refine h.andThen hc fun b => ?_
    cases b with
    | false => exact h.nothing
    | true =>
      refine h.andThen hx fun _ => h.andThen hy fun _ => h.andThen h.hasReturned fun r => ?_
      cases r with
      | true => exact h.nothing
      | false => exact ih

section

variable {env : Env} (hc : ∀ f vs loc, E (env.call f vs loc))

include hc

/-! #### Declarations -/

theorem initialValue (isGlobal : Bool) {v : Variable} (hv : P.declared v)
    (hexprs : ∀ x ∈ v.exprs, P.Node x) : E (MiniC.initialValue env isGlobal v) := by
  unfold MiniC.initialValue
  split
  · next ha => exact h.newArray isGlobal hv ha
  · unfold Variable.exprs at hexprs
    cases hinit : v.init with
    | none => exact h.yield _
    | some e =>
      rw [hinit] at hexprs
      exact h.andThen (h.evalExpr hc e hexprs) fun _ => h.yield _

theorem declareVariable {v : Variable} (hv : P.declared v) (hexprs : ∀ x ∈ v.exprs, P.Node x) :
    E (MiniC.declareVariable env v) :=
  h.andThen h.depth fun _ => h.seq (h.initialValue hc _ hv hexprs) fun _ _ _ hdone =>
    h.bindVariable _ hv (coerce_of_initialValue hdone)

theorem declareAll (vs : List Variable) (hvs : ∀ v ∈ vs, P.declared v)
    (hexprs : ∀ x ∈ vs.flatMap Variable.exprs, P.Node x) : E (MiniC.declareAll env vs) := by
  induction vs with
  | nil => exact h.nothing
  | cons v vs ih =>
    obtain ⟨hv, hvs⟩ := List.forall_mem_cons.1 hvs
    obtain ⟨hfirst, hrest⟩ := List.forall_mem_append.1 hexprs
    exact h.andThen (h.declareVariable hc hv hfirst) fun _ => ih hvs hrest

theorem declareGlobals (vs : List Variable) (hvs : ∀ v ∈ vs, P.declared v)
    (hexprs : ∀ x ∈ vs.flatMap Variable.exprs, P.Node x) :
    E (Context.declareGlobals env vs) := by
  induction vs with
  | nil => exact h.nothing
  | cons v vs ih =>
    obtain ⟨hv, hvs⟩ := List.forall_mem_cons.1 hvs
    obtain ⟨hfirst, hrest⟩ := List.forall_mem_append.1 hexprs
    exact h.andThen h.clearCache fun _ =>
      h.andThen (h.declareVariable hc hv hfirst) fun _ => ih hvs hrest

/-! #### Statements -/

theorem evalStep (e : Expr) (he : ∀ x ∈ e.all, P.Node x) : E (MiniC.evalStep env e) :=
  h.andThen h.clearCache fun _ => h.andThen (h.evalExpr hc e he) fun _ => h.nothing

theorem forCondition (loc : Location) (c : Option Expr)
    (he : ∀ x ∈ Stmt.optionExprs c, P.Node x) : E (MiniC.forCondition env loc c) := by
  cases c with
  | none => exact h.yield true
  | some e => exact h.andThen h.clearCache fun _ => h.evalCondition hc e he loc

theorem forStep (c : Option Expr) (he : ∀ x ∈ Stmt.optionExprs c, P.Node x) :
    E (MiniC.forStep env c) := by
  cases c with
  | none => exact h.nothing
  | some e => exact h.evalStep hc e he

theorem returnValue (c : Option Expr) (he : ∀ x ∈ Stmt.optionExprs c, P.Node x) :
    E (MiniC.returnValue env c) := by
  cases c with
  | none => exact h.yield _
  | some e => exact h.evalExpr hc e he

end

mutual

/-- Statements with the right parts have the property, if calls have it. -/
theorem execStmt {env : Env} (hc : ∀ f vs loc, E (env.call f vs loc)) (bound : Nat) :
    (s : Stmt) → P.Hold s.exprs s.vars s.all → E (MiniC.execStmt env bound s)
  | .block loc ss, hs =>
    h.statement loc (execAll hc bound ss ⟨hs.exprs, hs.vars, (List.forall_mem_cons.1 hs.stmts).2⟩)
  | .declare loc vs, hs =>
    h.statement loc <| h.andThen h.clearCache fun _ => h.declareAll hc vs hs.vars hs.exprs
  | .eval loc e, hs => h.statement loc (h.evalStep hc e hs.exprs)
  | .branch loc c t f, hs => by
    obtain ⟨hcondition, hexprs⟩ := List.forall_mem_append.1 hs.exprs
    obtain ⟨ht, hf⟩ :=
      Parts.Hold.split ⟨hexprs, hs.vars, (List.forall_mem_cons.1 hs.stmts).2⟩
    have onTrue := execStmt hc bound t ht
    have onFalse := execOption hc bound f hf
    refine h.statement loc <| h.andThen h.clearCache fun _ =>
      h.andThen (h.evalCondition hc c hcondition loc) fun b => ?_
    cases b with
    | true => exact onTrue
    | false => exact onFalse
  | .whileLoop loc c b, hs => by
    obtain ⟨hcondition, hexprs⟩ := List.forall_mem_append.1 hs.exprs
    exact h.statement loc <| h.whileLoop (h.evalCondition hc c hcondition loc)
      (execStmt hc bound b ⟨hexprs, hs.vars, (List.forall_mem_cons.1 hs.stmts).2⟩) bound
  | .forLoop loc i c step b, hs => by
    obtain ⟨hinit, hexprs⟩ := List.forall_mem_append.1 hs.exprs
    obtain ⟨hcondition, hexprs⟩ := List.forall_mem_append.1 hexprs
    obtain ⟨hstep, hbody⟩ := List.forall_mem_append.1 hexprs
    obtain ⟨hi, hb⟩ := Parts.Hold.split
      ⟨List.forall_mem_append.2 ⟨hinit, hbody⟩, hs.vars, (List.forall_mem_cons.1 hs.stmts).2⟩
    exact h.statement loc <| h.andThen (execOption hc bound i hi) fun _ =>
      h.forLoop (h.forCondition hc loc c hcondition) (h.forStep hc step hstep)
        (execStmt hc bound b hb) bound
  | .ret loc value, hs =>
    h.statement loc <| h.andThen h.clearCache fun _ =>
      h.andThen (h.returnValue hc value hs.exprs) fun v => h.setReturned v
  | .empty loc, _ => h.statement loc h.nothing
  | .doLoop loc b c, hs =>
    h.statement loc (h.refuse loc (hs.stmts _ (List.mem_cons_self ..) _ rfl))
  | .leave loc, hs => h.statement loc (h.refuse loc (hs.stmts _ (List.mem_cons_self ..) _ rfl))
  | .next loc, hs => h.statement loc (h.refuse loc (hs.stmts _ (List.mem_cons_self ..) _ rfl))

theorem execAll {env : Env} (hc : ∀ f vs loc, E (env.call f vs loc)) (bound : Nat) :
    (ss : List Stmt) → P.Hold (Stmt.exprsOf ss) (Stmt.varsOf ss) (Stmt.allOf ss) →
    E (MiniC.execAll env bound ss)
  | [], _ => h.nothing
  | s :: ss, hs =>
    h.andThen (execStmt hc bound s hs.split.1) fun _ => execAll hc bound ss hs.split.2

theorem execOption {env : Env} (hc : ∀ f vs loc, E (env.call f vs loc)) (bound : Nat) :
    (o : Option Stmt) →
    P.Hold (Stmt.exprsOfOption o) (Stmt.varsOfOption o) (Stmt.allOfOption o) →
    E (MiniC.execOption env bound o)
  | none, _ => h.nothing
  | some s, hs => execStmt hc bound s hs

end

/-! #### Calls and runs -/

/-- A call has the property, if its body has it. -/
theorem enter (limit : Nat) {f : Function} (hf : P.called f) (args : List Value) (loc : Location)
    {x : Eval Unit} (hx : E x) :
    E (Eval.enter limit f args loc x fun _ frame => frame.returnValue) := by
  refine h.andThen h.depth fun depth => ?_
  split
  · exact h.fault loc (by rintro ⟨⟩)
  · split
    · exact h.fault loc (by rintro ⟨⟩)
    · have hbody := h.andThen (h.record (.call f.name (depth + 1))) fun _ => hx
      exact h.andThen (h.inFrame args hf hbody) fun _ =>
        h.andThen (h.record _) fun _ => h.yield _

variable {ctx : Context} (hp : P.HoldProgram ctx.program)

include hp

theorem callFunction (fuel : Nat) (hc : ∀ f vs loc, E (ctx.call fuel f vs loc)) {f : Function}
    (hf : f ∈ ctx.program.functions) (args : List Value) (loc : Location) :
    E (MiniC.callFunction ctx fuel f args loc) := by
  have hbody := hp.functions f hf
  unfold MiniC.callFunction callWithin
  unfold Function.exprs Function.vars Function.stmts at hbody
  cases hb : f.body with
  | none => exact h.fault loc (by rintro ⟨⟩)
  | some body =>
    rw [hb] at hbody
    exact h.enter _ (hp.called f hf) args loc (h.execStmt hc fuel body hbody)

/-- Calls by name have the property. -/
theorem call (fuel : Nat) (name : String) (args : List Value) (loc : Location) :
    E (ctx.call fuel name args loc) := by
  -- The calls in a body have one less on their bound than the call of that body.
  induction fuel generalizing name args loc with
  | zero => exact h.outOfFuel
  | succ fuel ih =>
    rw [Context.call_succ, Program.callNamed]
    split
    · exact h.callIntrinsic _ args loc
    · cases hf : ctx.program.function? name with
      | none => exact h.fault loc (by rintro ⟨⟩)
      | some f => exact h.callFunction hp fuel ih (Program.mem_of_function? hf) args loc

/-- Runs of programs with the right parts have the property. -/
theorem run (fuel : Nat) : E (ctx.run fuel) := by
  have hc := h.call hp fuel
  unfold Context.run
  refine h.andThen (h.record _) fun _ =>
    h.andThen (h.declareGlobals hc _ hp.globals hp.exprs) fun _ => ?_
  cases hf : ctx.program.function? ctx.config.entry with
  | none => exact h.fail (by rintro ⟨⟩)
  | some f =>
    dsimp only
    split
    · exact h.andThen (h.callFunction hp fuel hc (Program.mem_of_function? hf) [] _) fun v =>
        h.andThen (h.flush _) fun _ => h.andThen h.liveBlocks fun _ =>
          h.andThen (h.record _) fun _ => h.yield v
    · exact h.fail (by rintro ⟨⟩)

end Discipline

end MiniC
