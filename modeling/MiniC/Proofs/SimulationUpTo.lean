import MiniC.Proofs.Likeness
import MiniC.Proofs.Renaming

/-!
# Simulations up to the numbers of regions

Programs that are alike are executed alike.  What "alike" means for computations is left open: it
is a relation between them that the operations of the machine respect, and that goes along with
sequencing and with calls.  Once that is known, the whole semantics respects it: expressions and
statements by induction on their trees, loops on the bound of their iterations, calls on the bound
of their depth.

The second computation may number regions in another way: `ρ` renames those of the first one, and
where that one yields a value, the second one yields the renamed value.

Main definitions:

* `MiniC.AtPlace`: what is done with the place that an assignment stores to;
* `MiniC.ExprSimulationUpTo`: a relation that expressions respect;
* `MiniC.DeclSimulationUpTo`, `MiniC.StmtSimulationUpTo`: one that declarations and statements
  respect;
* `MiniC.CallSimulationUpTo`, `MiniC.RunSimulationUpTo`: one that calls and runs respect.

Main results:

* `MiniC.ExprSimulationUpTo.evalExpr`: the values of expressions that are alike are related;
* `MiniC.StmtSimulationUpTo.execStmt`: so is the execution of statements that are alike;
* `MiniC.CallSimulationUpTo.callFunction`: so are calls of functions that are alike;
* `MiniC.RunSimulationUpTo.run`: so are runs of programs that are alike.
-/

set_option autoImplicit false

namespace MiniC

/-- What two computations do with a place that was determined before them: they read it and write to
it, and apart from that do what is related. -/
inductive AtPlace (ρ : RegionId → RegionId)
    (E : ∀ {α : Type} [Renames α], Eval α → Eval α → Prop) (place : Place) :
    ∀ {α : Type} [Renames α], Eval α → Eval α → Prop
  | other {α : Type} [Renames α] {x x' : Eval α} : E x x' → AtPlace ρ E place x x'
  | read (loc : Location) :
      AtPlace ρ E place (Eval.readPlace place loc) (Eval.readPlace (rename ρ place) loc)
  | write (v : Value) (loc : Location) :
      AtPlace ρ E place (Eval.writePlace place v loc)
        (Eval.writePlace (rename ρ place) (rename ρ v) loc)
  | seq {α β : Type} [Renames α] [Renames β] {x x' : Eval α} {f f' : α → Eval β} :
      AtPlace ρ E place x x' → (∀ a, AtPlace ρ E place (f a) (f' (rename ρ a))) →
      AtPlace ρ E place (x >>= f) (x' >>= f')

/-- What is done with a place is related, if reading it and writing to it are. -/
theorem AtPlace.related {ρ : RegionId → RegionId}
    {E : ∀ {α : Type} [Renames α], Eval α → Eval α → Prop} {place : Place}
    (hseq : ∀ {α β : Type} [Renames α] [Renames β] {x x' : Eval α} {f f' : α → Eval β},
      E x x' → (∀ a, E (f a) (f' (rename ρ a))) → E (x >>= f) (x' >>= f'))
    (hread : ∀ loc, E (Eval.readPlace place loc) (Eval.readPlace (rename ρ place) loc))
    (hwrite : ∀ v loc, E (Eval.writePlace place v loc)
      (Eval.writePlace (rename ρ place) (rename ρ v) loc))
    {α : Type} [Renames α] {x x' : Eval α} (h : AtPlace ρ E place x x') : E x x' := by
  induction h with
  | other hx => exact hx
  | read loc => exact hread loc
  | write v loc => exact hwrite v loc
  | seq _ _ ihx ihf => exact hseq ihx ihf

/-- An error ends a sequence. -/
theorem Eval.fail_bind {α β : Type} (e : RuntimeError) (f : α → Eval β) :
    (Eval.fail e : Eval α) >>= f = Eval.fail e := by
  -- Nothing is done, so what follows does nothing.
  have behind : ∀ (m : Machine) (Q : α → Machine → Prop),
      ¬∃ a m₁, (Eval.fail e : Eval α).run m = .done a m₁ ∧ Q a m₁ := by
    rintro m Q ⟨a, m₁, hrun, -⟩
    cases hrun
  refine Eval.ext_of_iff (fun _ => rfl) (fun m m' => ?_) (fun m k m' => ?_) fun m e' m' => ?_
  · rw [visits_bind]
    exact or_iff_left (behind m _)
  · rw [looks_bind]
    exact or_iff_left (behind m _)
  · rw [raises_bind, Eval.raises_fail, Eval.raises_fail]
    exact or_iff_left (behind m _)

/-- A relation between computations that the steps of expressions respect.  The variable that an
assignment stores to is looked up before it is read and written, and not again; so what is done with
it is looked at together with that (`atName`).  A written out subscript remembers one value more,
which must not matter. -/
structure ExprSimulationUpTo (L : Likeness) (ρ : RegionId → RegionId)
    (E : ∀ {α : Type} [Renames α], Eval α → Eval α → Prop) : Prop where
  injective : Function.Injective ρ
  yield {α : Type} [Renames α] (a : α) : E (pure a) (pure (rename ρ a))
  seq {α β : Type} [Renames α] [Renames β] {x x' : Eval α} {f f' : α → Eval β} :
    E x x' → (∀ a, E (f a) (f' (rename ρ a))) → E (x >>= f) (x' >>= f')
  fail {α : Type} [Renames α] (e : RuntimeError) :
    E (Eval.fail e : Eval α) (Eval.fail (rename ρ e))
  readName (x : String) {link : Option Nat} (loc : Location) : L.links link →
    E (Eval.readName x link loc) (Eval.readName x link loc)
  atName (x : String) {link : Option Nat} (isArray : Nat → Bool) (loc : Location) {β : Type}
    [Renames β] {f f' : Place → Eval β} : L.links link →
    (∀ place, AtPlace ρ E place (f place) (f' (rename ρ place))) →
    E (Eval.placeOfName x link isArray loc >>= f) (Eval.placeOfName x link isArray loc >>= f')
  readMemory (p : Pointer) (loc : Location) :
    E (Eval.readPlace (.memory p) loc) (Eval.readPlace (.memory (rename ρ p)) loc)
  writeMemory (p : Pointer) (v : Value) (loc : Location) :
    E (Eval.writePlace (.memory p) v loc)
      (Eval.writePlace (.memory (rename ρ p)) (rename ρ v) loc)
  remember {n n' : Node} (v : Value) :
    L.node n n' → E (Eval.remember n.id v) (Eval.remember n'.id (rename ρ v))
  readInteger (loc : Location) : E (Eval.readInteger loc) (Eval.readInteger loc)
  writeLine (n : Int64) (loc : Location) : E (Eval.writeLine n loc) (Eval.writeLine n loc)
  allocate (size : Nat) (loc : Location) :
    E (Eval.create loc fun m => m.allocate size) (Eval.create loc fun m => m.allocate size)
  release (p : Pointer) (loc : Location) :
    E (Eval.attempt loc fun m => m.release p) (Eval.attempt loc fun m => m.release (rename ρ p))
  written {n sum : Node} {x x' : Eval Value} :
    L.writtenOut n.id → E x x' → E x (Eval.remembered sum x')

namespace ExprSimulationUpTo

variable {L : Likeness} {ρ : RegionId → RegionId}
  {E : ∀ {α : Type} [Renames α], Eval α → Eval α → Prop} (h : ExprSimulationUpTo L ρ E)

include h

/-! ### Built-in functions -/

theorem fault {α : Type} [Renames α] (loc : Location) (f : Fault) :
    E (Eval.fault loc f : Eval α) (Eval.fault loc (rename ρ f)) := h.fail _

theorem callGet (loc : Location) : E (Eval.callGet loc) (Eval.callGet loc) :=
  h.seq (h.readInteger loc) fun n => h.yield (Value.integer n)

theorem callPrint (v : Value) (loc : Location) :
    E (Eval.callPrint v loc) (Eval.callPrint (rename ρ v) loc) := by
  cases v with
  | integer n => exact h.seq (h.writeLine n loc) fun _ => h.yield Value.uninitialized
  | uninitialized => exact h.fault loc _
  | pointer p => exact h.fault loc _

theorem callMalloc (v : Value) (loc : Location) :
    E (Eval.callMalloc v loc) (Eval.callMalloc (rename ρ v) loc) := by
  cases v with
  | integer n =>
    show E (Eval.callMalloc (.integer n) loc) (Eval.callMalloc (.integer n) loc)
    by_cases hn : n < 0
    · rw [Eval.callMalloc, if_pos hn]
      exact h.fault loc _
    · rw [Eval.callMalloc, if_neg hn]
      exact h.seq (h.allocate _ loc) fun p => h.yield (Value.pointer p)
  | uninitialized => exact h.fault loc _
  | pointer p => exact h.fault loc _

theorem callFree (v : Value) (loc : Location) :
    E (Eval.callFree v loc) (Eval.callFree (rename ρ v) loc) := by
  cases v with
  | pointer p => exact h.seq (h.release p loc) fun _ => h.yield Value.uninitialized
  | integer n => exact h.fault loc _
  | uninitialized => exact h.fault loc _

/-- Calls of built-in functions are related. -/
theorem callIntrinsic (i : Intrinsic) (args : List Value) (loc : Location) :
    E (Eval.callIntrinsic i args loc) (Eval.callIntrinsic i (rename ρ args) loc) := by
  have hlength : (rename ρ args).length = args.length := List.length_map _
  by_cases harity : args.length = i.arity
  · cases i with
    | get =>
      obtain rfl := List.length_eq_zero_iff.1 harity
      exact h.callGet loc
    | print =>
      obtain ⟨v, rfl⟩ := List.length_eq_one_iff.1 harity
      exact h.callPrint v loc
    | malloc =>
      obtain ⟨v, rfl⟩ := List.length_eq_one_iff.1 harity
      exact h.callMalloc v loc
    | free =>
      obtain ⟨v, rfl⟩ := List.length_eq_one_iff.1 harity
      exact h.callFree v loc
  · rw [Eval.callIntrinsic_of_length_ne loc harity,
      Eval.callIntrinsic_of_length_ne loc (hlength ▸ harity), hlength]
    exact h.fault loc (.arityMismatch i.name i.arity args.length)

/-! ### Steps of expressions -/

theorem ofExcept {α : Type} [Renames α] (loc : Location) (r : Except Fault α) :
    E (Eval.ofExcept loc r) (Eval.ofExcept loc (rename ρ r)) := by
  cases r with
  | ok a => exact h.yield a
  | error f => exact h.fault loc f

theorem remembered {n n' : Node} (hn : L.node n n') {x x' : Eval Value} (hx : E x x') :
    E (Eval.remembered n x) (Eval.remembered n' x') :=
  h.seq hx fun v => h.seq (h.remember v hn) fun _ => h.yield v

theorem sizeof (t : Ty) (loc : Location) : E (Eval.sizeof t loc) (Eval.sizeof t loc) := by
  unfold Eval.sizeof
  split
  · next n _ =>
    split
    · exact h.yield (Value.integer (Int64.ofNat n))
    · exact h.fault loc (.invalidAllocation .sizeofTooLarge)
  · exact h.fault loc (.invalidAllocation .sizeofTooLarge)

theorem expectPointer (v : Value) (loc : Location) :
    E (Eval.expectPointer v loc) (Eval.expectPointer (rename ρ v) loc) := by
  cases v with
  | pointer p => exact h.yield p
  | uninitialized => exact h.fault loc _
  | integer n => exact h.fault loc _

theorem operate (op : BinaryOp) {l l' r r' : Expr} (hl : l.Alike L l') (hr : r.Alike L r')
    (loc : Location) {x x' y y' : Eval Value} (hx : E x x') (hy : E y y') :
    E (Eval.operate op l r loc x y) (Eval.operate op l' r' loc x' y') := by
  unfold Eval.operate
  rw [hl.stride_eq, hr.stride_eq]
  refine h.seq hx fun a => h.seq hy fun b => ?_
  rw [BinaryOp.apply_rename h.injective]
  exact h.ofExcept loc _

theorem complement (op : UnaryOp) (v : Value) (loc : Location) :
    E (Eval.ofExcept loc (op.apply v)) (Eval.ofExcept loc (op.apply (rename ρ v))) := by
  rw [UnaryOp.apply_rename]
  exact h.ofExcept loc _

theorem converted (t : Ty) (v : Value) : E (pure (v.coerce t)) (pure ((rename ρ v).coerce t)) := by
  rw [Value.coerce_rename]
  exact h.yield _

theorem follow (loc : Location) {x x' : Eval Value} (hx : E x x') :
    E (Eval.follow loc x) (Eval.follow loc x') :=
  h.seq hx fun v => h.expectPointer v loc

theorem load (loc : Location) {x x' : Eval Pointer} (hx : E x x') :
    E (Eval.load loc x) (Eval.load loc x') :=
  h.seq hx fun p => h.readMemory p loc

theorem unsupportedAt {α : Type} [Renames α] {e e' : Expr} (he : e.Alike L e') (c : Construct) :
    E (Eval.fault e.location (.unsupported c) : Eval α)
      (Eval.fault e'.location (.unsupported c)) := by
  rw [he.location_eq]
  exact h.fault e'.location (.unsupported c)

/-- What is done with the place that an expression names is related, wherever that is. -/
theorem atTarget (isArray : Nat → Bool) {e e' : Expr} (he : e.Alike L e') {x x' : Eval Pointer}
    (hx : E x x') {β : Type} [Renames β] {f f' : Place → Eval β}
    (hf : ∀ place, AtPlace ρ E place (f place) (f' (rename ρ place))) :
    E (Eval.placeOf isArray e x >>= f) (Eval.placeOf isArray e' x' >>= f') := by
  have inMemory : E ((x >>= fun p => pure (Place.memory p)) >>= f)
      ((x' >>= fun p => pure (Place.memory p)) >>= f') := by
    rw [Eval.bind_assoc, Eval.bind_assoc]
    refine h.seq hx fun p => ?_
    rw [Eval.pure_bind, Eval.pure_bind]
    exact (hf (.memory p)).related h.seq (h.readMemory p) (h.writeMemory p)
  have nowhere : E (Eval.fault e.location (.unsupported .assignmentTarget) >>= f)
      (Eval.fault e'.location (.unsupported .assignmentTarget) >>= f') := by
    unfold Eval.fault
    rw [Eval.fail_bind, Eval.fail_bind]
    exact h.unsupportedAt he .assignmentTarget
  cases he with
  | name x link hn hl =>
    rw [Eval.placeOf, Eval.placeOf, L.location_eq hn]
    exact h.atName x isArray _ hl hf
  | unary op hn hx =>
    cases op
    case deref => exact inMemory
    all_goals exact nowhere
  | subscript | written => exact inMemory
  | int | char | string | binary | call | cast | sizeof => exact nowhere

theorem assigned (op : BinaryOp) {l l' r r' : Expr} (hl : l.Alike L l') (hr : r.Alike L r')
    (loc : Location) (place : Place) {y y' : Eval Value} (hy : E y y') :
    AtPlace ρ E place (Eval.assigned op l r loc place y)
      (Eval.assigned op l' r' loc (rename ρ place) y') := by
  unfold Eval.assigned
  split
  · exact .other hy
  · rw [hl.stride_eq, hr.stride_eq]
    refine .seq (.read loc) fun current =>
      .other (h.seq (h.remember current hl.node) fun _ => h.seq hy fun b => ?_)
    rw [BinaryOp.apply_rename h.injective]
    exact h.ofExcept loc _

theorem assign (op : BinaryOp) (isArray : Nat → Bool) {l l' r r' : Expr} (hl : l.Alike L l')
    (hr : r.Alike L r') (loc : Location) {x x' : Eval Pointer} (hx : E x x') {y y' : Eval Value}
    (hy : E y y') :
    E (Eval.assign op l r loc (Eval.placeOf isArray l x) y)
      (Eval.assign op l' r' loc (Eval.placeOf isArray l' x') y') := by
  unfold Eval.assign
  rw [hl.type_eq]
  refine h.atTarget isArray hl hx fun place => .seq (h.assigned op hl hr loc place hy) fun v => ?_
  rw [Value.coerceTo_rename]
  exact .seq (.write _ loc) fun _ => .other (h.yield _)

theorem increment (isArray : Nat → Bool) {e e' : Expr} (he : e.Alike L e') (delta : Int64)
    (isPost : Bool) (loc : Location) {x x' : Eval Pointer} (hx : E x x') :
    E (Eval.increment e delta isPost loc (Eval.placeOf isArray e x))
      (Eval.increment e' delta isPost loc (Eval.placeOf isArray e' x')) := by
  unfold Eval.increment
  rw [he.stride_eq, he.type_eq]
  refine h.atTarget isArray he hx fun place => .seq (.read loc) fun current => ?_
  have hmoved := BinaryOp.apply_rename h.injective .add current (.integer delta) e'.stride 1
  have hsum := h.ofExcept loc (BinaryOp.add.apply current (.integer delta) e'.stride 1)
  rw [← hmoved] at hsum
  refine .seq (.other hsum) fun v => ?_
  rw [Value.coerceTo_rename]
  refine .seq (.write _ loc) fun _ => .other ?_
  cases isPost with
  | true => exact h.yield current
  | false => exact h.yield (v.coerceTo e'.type)

/-! ### Calls in frames of their own -/

/-- A call in a frame of its own is related if what stands in such frames is, and what depends on
the value that it returns. -/
theorem enter (hdepth : E Eval.depth Eval.depth)
    (hrecord : ∀ e e', E (Eval.record e) (Eval.record e')) (limit : Nat) (f : Function)
    (args : List Value) (loc : Location) {x x' : Eval Unit} (hx : E x x')
    (hin : ∀ {y y' : Eval Unit} (k k' : Value → Eval Value), E y y' →
      (∀ v, E (k v) (k' (rename ρ v))) →
      E (Eval.inFrame (f.frame args) y >>= fun r => k r.2.returnValue)
        (Eval.inFrame (f.frame (rename ρ args)) y' >>= fun r => k' r.2.returnValue)) :
    E (Eval.enter limit f args loc x fun _ frame => frame.returnValue)
      (Eval.enter limit f (rename ρ args) loc x' fun _ frame => frame.returnValue) := by
  have hlength : (rename ρ args).length = args.length := List.length_map _
  refine h.seq hdepth fun depth => ?_
  show E _ (if (rename ρ args).length ≠ f.params.length then _ else if limit ≤ depth then _ else _)
  rw [hlength]
  split
  · exact h.fault loc (.arityMismatch f.name f.params.length args.length)
  · split
    · exact h.fault loc (.stackOverflow limit)
    · have hbody : E (Eval.record (.call f.name (depth + 1)) >>= fun _ => x)
          (Eval.record (.call f.name (depth + 1)) >>= fun _ => x') :=
        h.seq (hrecord _ _) fun _ => hx
      -- Behind the frame, only the returned value is looked at.
      let finish (v : Value) : Eval Value :=
        Eval.record (.returned f.name depth (v.coerce f.returnType)) >>= fun _ =>
          pure (v.coerce f.returnType)
      refine hin finish finish hbody fun v => ?_
      dsimp only [finish]
      rw [Value.coerce_rename]
      exact h.seq (hrecord _ _) fun _ => h.yield _

/-! ### Expressions -/

variable {env env' : Env}

omit h in
theorem isArray_eq (hd : env.declarations = env'.declarations) : env.isArray = env'.isArray := by
  funext id
  rw [Env.isArray, Env.isArray, hd]

variable (hd : env.declarations = env'.declarations)
  (hc : ∀ f vs loc, E (env.call f vs loc) (env'.call f (rename ρ vs) loc))

mutual

/-- The values of expressions that are alike are related, if calls are. -/
theorem evalExpr (hd : env.declarations = env'.declarations)
    (hc : ∀ f vs loc, E (env.call f vs loc) (env'.call f (rename ρ vs) loc)) :
    (e : Expr) → {e' : Expr} → e.Alike L e' →
    E (MiniC.evalExpr env e) (MiniC.evalExpr env' e')
  | .int _ v, _, .int _ hn => h.remembered hn (h.yield (Value.integer v))
  | .char _ c, _, .char _ hn => h.remembered hn (h.yield (Value.integer c.toInt64))
  | .string _ _, _, .string _ hn => h.remembered hn <| by
    rw [L.location_eq hn]
    exact h.fault _ _
  | .name _ x _, _, .name _ _ hn hl => h.remembered hn <| by
    rw [L.location_eq hn]
    exact h.readName x _ hl
  | .binary n op l r, _, .binary _ hn hl hr => h.remembered hn <| by
    have haddress := evalAddress hd hc l hl
    have hleft := evalExpr hd hc l hl
    have hright := evalExpr hd hc r hr
    rw [L.location_eq hn, ← isArray_eq hd]
    split
    · exact h.assign op env.isArray hl hr _ haddress hright
    · exact h.operate op hl hr _ hleft hright
  | .unary n op x, _, .unary _ hn hx => h.remembered hn <| by
    have haddress := evalAddress hd hc x hx
    have hvalue := evalExpr hd hc x hx
    rw [L.location_eq hn, ← isArray_eq hd]
    cases op with
    | preInc | preDec | postInc | postDec => exact h.increment env.isArray hx _ _ _ haddress
    | addrOf => exact h.fault _ _
    | deref => exact h.load _ (h.follow _ hvalue)
    | neg | not | bitNot => exact h.seq hvalue fun a => h.complement _ a _
  | .call n f args, _, .call _ hn hargs => h.remembered hn <| by
    rw [L.location_eq hn]
    exact h.seq (evalArgs hd hc args hargs) fun vs => hc f vs _
  | .subscript n b i, _, .subscript hn hb hi => h.remembered hn <| by
    have hsum := h.operate .add hb hi n.location (evalExpr hd hc b hb) (evalExpr hd hc i hi)
    rw [← L.location_eq hn]
    exact h.load _ (h.follow _ hsum)
  | .subscript n b i, _, .written hw hn hs hb hi => h.remembered hn <| by
    have hsum := h.operate .add hb hi n.location (evalExpr hd hc b hb) (evalExpr hd hc i hi)
    rw [← L.location_eq hn]
    -- Written out, the sum is an expression of its own, and its value is remembered.
    refine h.load _ (h.follow _ ?_)
    rw [MiniC.evalExpr, ← hs]
    exact h.written hw hsum
  | .cast n t x, _, .cast _ hn hx =>
    h.remembered hn <| h.seq (evalExpr hd hc x hx) fun a => h.converted t a
  | .sizeof n t, _, .sizeof _ hn => h.remembered hn <| by
    rw [L.location_eq hn]
    exact h.sizeof t _

/-- The values of arguments that are alike are related. -/
theorem evalArgs (hd : env.declarations = env'.declarations)
    (hc : ∀ f vs loc, E (env.call f vs loc) (env'.call f (rename ρ vs) loc)) :
    (es : List Expr) → {es' : List Expr} → List.Forall₂ (Expr.Alike L) es es' →
    E (MiniC.evalArgs env es) (MiniC.evalArgs env' es')
  | [], _, .nil => h.yield []
  | e :: es, _, .cons he hes =>
    h.seq (evalExpr hd hc e he) fun v => h.seq (evalArgs hd hc es hes) fun vs => h.yield (v :: vs)

/-- The places in memory that expressions that are alike name are related. -/
theorem evalAddress (hd : env.declarations = env'.declarations)
    (hc : ∀ f vs loc, E (env.call f vs loc) (env'.call f (rename ρ vs) loc)) :
    (e : Expr) → {e' : Expr} → e.Alike L e' →
    E (MiniC.evalAddress env e) (MiniC.evalAddress env' e')
  | .unary n op x, _, .unary _ hn hx => by
    have hvalue := evalExpr hd hc x hx
    have nowhere := h.unsupportedAt (α := Pointer) (.unary op hn hx) .addressOfNonMemory
    cases op
    case deref =>
      rw [MiniC.evalAddress, MiniC.evalAddress, L.location_eq hn]
      exact h.follow _ hvalue
    all_goals exact nowhere
  | .subscript n b i, _, .subscript hn hb hi => by
    have hsum := h.operate .add hb hi n.location (evalExpr hd hc b hb) (evalExpr hd hc i hi)
    rw [MiniC.evalAddress, MiniC.evalAddress, ← L.location_eq hn]
    exact h.follow _ hsum
  | .subscript n b i, _, .written hw hn hs hb hi => by
    have hsum := h.operate .add hb hi n.location (evalExpr hd hc b hb) (evalExpr hd hc i hi)
    rw [MiniC.evalAddress, MiniC.evalAddress, ← L.location_eq hn]
    refine h.follow _ ?_
    rw [MiniC.evalExpr, ← hs]
    exact h.written hw hsum
  | .int _ _, _, .int v hn => h.unsupportedAt (.int v hn) _
  | .char _ _, _, .char v hn => h.unsupportedAt (.char v hn) _
  | .string _ _, _, .string v hn => h.unsupportedAt (.string v hn) _
  | .name _ _ _, _, .name x link hn hl => h.unsupportedAt (.name x link hn hl) _
  | .binary _ _ _ _, _, .binary op hn hl hr => h.unsupportedAt (.binary op hn hl hr) _
  | .call _ _ _, _, .call f hn hargs => h.unsupportedAt (.call f hn hargs) _
  | .cast _ _ _, _, .cast t hn hx => h.unsupportedAt (.cast t hn hx) _
  | .sizeof _ _, _, .sizeof t hn => h.unsupportedAt (.sizeof t hn) _

end

include hd hc in
/-- Conditions that are alike are related. -/
theorem evalCondition {e e' : Expr} (he : e.Alike L e') (loc : Location) :
    E (MiniC.evalCondition env e loc) (MiniC.evalCondition env' e' loc) := by
  refine h.seq (h.evalExpr hd hc e he) fun v => ?_
  rw [Value.truthy?_rename]
  cases v.truthy? with
  | some b => exact h.yield b
  | none => exact h.fault loc (.uninitializedRead .condition)

end ExprSimulationUpTo

/-! ### Declarations -/

/-- A relation `S` between computations that declarations respect.  It is allowed more than `E`,
the relation between expressions.  `scope` tells which variables are global. -/
structure DeclSimulationUpTo (L : Likeness) (ρ : RegionId → RegionId) (scope : Nat → Option Bool)
    (E S : ∀ {α : Type} [Renames α], Eval α → Eval α → Prop) : Prop
    extends ExprSimulationUpTo L ρ E where
  ofExpr {α : Type} [Renames α] {x x' : Eval α} : E x x' → S x x'
  sequence {α β : Type} [Renames α] [Renames β] {x x' : Eval α} {f f' : α → Eval β} :
    S x x' → (∀ a, S (f a) (f' (rename ρ a))) → S (x >>= f) (x' >>= f')
  clearCache : S Eval.clearCache Eval.clearCache
  depth : S Eval.depth Eval.depth
  dropOldArray {v : Variable} (depth : Nat) : L.declares v →
    S (Eval.dropOldArray ((scope v.id).getD (depth == 0)) v.id)
      (Eval.dropOldArray ((scope v.id).getD (depth == 0)) v.id)
  storeArray {v : Variable} (depth size : Nat) (loc : Location) : L.declares v → v.type.isArray →
    S (Eval.create loc fun m => m.storeArray ((scope v.id).getD (depth == 0)) v.id size)
      (Eval.create loc fun m => m.storeArray ((scope v.id).getD (depth == 0)) v.id size)
  bindVariable {v : Variable} (depth : Nat) (w : Value) : L.declares v →
    S (Eval.bindVariable ((scope v.id).getD (depth == 0)) v.id w)
      (Eval.bindVariable ((scope v.id).getD (depth == 0)) v.id (rename ρ w))

namespace DeclSimulationUpTo

variable {L : Likeness} {ρ : RegionId → RegionId} {env env' : Env}
  {E S : ∀ {α : Type} [Renames α], Eval α → Eval α → Prop}
  (h : DeclSimulationUpTo L ρ env.isGlobal? E S)

include h

theorem newArray (depth : Nat) {v v' : Variable} (hv : v.Alike L v') (ha : v.type.isArray) :
    S (Eval.newArray ((env.isGlobal? v.id).getD (depth == 0)) v)
      (Eval.newArray ((env.isGlobal? v.id).getD (depth == 0)) v') := by
  have hi : v.init.isSome = v'.init.isSome := by
    have hr := hv.init
    generalize v.init = o, v'.init = o' at hr
    cases hr <;> rfl
  unfold Eval.newArray
  rw [← hi, ← hv.location_eq, ← hv.id_eq, ← hv.type_eq]
  split
  · exact h.ofExpr (h.fault _ _)
  · refine h.sequence (h.dropOldArray depth hv.declares) fun _ => ?_
    split
    · exact h.ofExpr (h.fault _ _)
    · exact h.sequence (h.storeArray depth _ _ hv.declares ha) fun p => h.ofExpr (h.yield _)

variable (hd : env.declarations = env'.declarations)
  (hc : ∀ f vs loc, E (env.call f vs loc) (env'.call f (rename ρ vs) loc))

include hd hc

theorem initialValue (depth : Nat) {v v' : Variable} (hv : v.Alike L v') :
    S (MiniC.initialValue env ((env.isGlobal? v.id).getD (depth == 0)) v)
      (MiniC.initialValue env' ((env.isGlobal? v.id).getD (depth == 0)) v') := by
  have hi := hv.init
  unfold MiniC.initialValue
  rw [← hv.type_eq]
  split
  next ha => exact h.newArray depth hv ha
  next =>
    generalize v.init = o, v'.init = o' at hi
    cases hi with
    | none => exact h.ofExpr (h.yield _)
    | some he => exact h.ofExpr (h.seq (h.evalExpr hd hc _ he) fun a => h.converted _ a)

/-- The declarations of variables that are alike are related. -/
theorem declareVariable {v v' : Variable} (hv : v.Alike L v') :
    S (MiniC.declareVariable env v) (MiniC.declareVariable env' v') := by
  have hg : env'.isGlobal? v'.id = env.isGlobal? v.id := by
    rw [Env.isGlobal?, Env.isGlobal?, hd, hv.id_eq]
  unfold MiniC.declareVariable
  rw [hg, ← hv.id_eq]
  exact h.sequence h.depth fun d => h.sequence (h.initialValue hd hc d hv) fun w =>
    h.bindVariable d w hv.declares

theorem declareAll {vs vs' : List Variable} (hvs : List.Forall₂ (Variable.Alike L) vs vs') :
    S (MiniC.declareAll env vs) (MiniC.declareAll env' vs') := by
  induction hvs with
  | nil => exact h.ofExpr (h.yield ())
  | cons hv _ ih => exact h.sequence (h.declareVariable hd hc hv) fun _ => ih

/-- The declarations of globals that are alike are related. -/
theorem declareGlobals {vs vs' : List Variable} (hvs : List.Forall₂ (Variable.Alike L) vs vs') :
    S (Context.declareGlobals env vs) (Context.declareGlobals env' vs') := by
  induction hvs with
  | nil => exact h.ofExpr (h.yield ())
  | cons hv _ ih =>
    exact h.sequence h.clearCache fun _ => h.sequence (h.declareVariable hd hc hv) fun _ => ih

end DeclSimulationUpTo

/-! ### Statements -/

/-- A relation `S` between computations that statements respect. -/
structure StmtSimulationUpTo (L : Likeness) (ρ : RegionId → RegionId) (scope : Nat → Option Bool)
    (E S : ∀ {α : Type} [Renames α], Eval α → Eval α → Prop) : Prop
    extends DeclSimulationUpTo L ρ scope E S where
  outOfFuel {α : Type} [Renames α] : E (Eval.outOfFuel : Eval α) Eval.outOfFuel
  hasReturned : S Eval.hasReturned Eval.hasReturned
  setReturned (v : Value) : S (Eval.setReturned v) (Eval.setReturned (rename ρ v))
  recordStatement (line : Nat) : S (Eval.recordStatement line) (Eval.recordStatement line)

namespace StmtSimulationUpTo

variable {L : Likeness} {ρ : RegionId → RegionId} {scope : Nat → Option Bool}
  {E S : ∀ {α : Type} [Renames α], Eval α → Eval α → Prop}

section Loops

variable (h : StmtSimulationUpTo L ρ scope E S)

include h

theorem nothing : S (pure () : Eval Unit) (pure ()) := h.ofExpr (h.yield ())

/-- A statement does nothing on both sides, or something that is related. -/
theorem statement (loc : Location) {x x' : Eval Unit} (hx : S x x') :
    S (Eval.statement loc x) (Eval.statement loc x') := by
  refine h.sequence h.hasReturned fun b => ?_
  cases b with
  | true => exact h.nothing
  | false => exact h.sequence (h.recordStatement loc.line) fun _ => hx

theorem whileLoop {c c' : Eval Bool} {x x' : Eval Unit} (hc : S c c') (hx : S x x') (bound : Nat) :
    S (Eval.whileLoop c x bound) (Eval.whileLoop c' x' bound) := by
  -- Each iteration is one less on the bound.
  induction bound with
  | zero => exact h.ofExpr h.outOfFuel
  | succ bound ih =>
    refine h.sequence h.clearCache fun _ => h.sequence hc fun b => ?_
    cases b with
    | false => exact h.nothing
    | true =>
      refine h.sequence hx fun _ => h.sequence h.hasReturned fun r => ?_
      cases r with
      | true => exact h.nothing
      | false => exact ih

theorem forLoop {c c' : Eval Bool} {y y' x x' : Eval Unit} (hc : S c c') (hy : S y y')
    (hx : S x x') (bound : Nat) : S (Eval.forLoop c y x bound) (Eval.forLoop c' y' x' bound) := by
  induction bound with
  | zero => exact h.ofExpr h.outOfFuel
  | succ bound ih =>
    refine h.sequence hc fun b => ?_
    cases b with
    | false => exact h.nothing
    | true =>
      refine h.sequence hx fun _ => h.sequence hy fun _ => h.sequence h.hasReturned fun r => ?_
      cases r with
      | true => exact h.nothing
      | false => exact ih

end Loops

section Statements

variable {env env' : Env} (h : StmtSimulationUpTo L ρ env.isGlobal? E S)

include h

section Parts

variable (hd : env.declarations = env'.declarations)
  (hc : ∀ f vs loc, E (env.call f vs loc) (env'.call f (rename ρ vs) loc))

include hd hc

theorem evalStep {e e' : Expr} (he : e.Alike L e') :
    S (MiniC.evalStep env e) (MiniC.evalStep env' e') :=
  h.sequence h.clearCache fun _ => h.sequence (h.ofExpr (h.evalExpr hd hc e he)) fun _ => h.nothing

theorem forCondition (loc : Location) {c c' : Option Expr}
    (hcond : Option.Rel (Expr.Alike L) c c') :
    S (MiniC.forCondition env loc c) (MiniC.forCondition env' loc c') := by
  cases hcond with
  | none => exact h.ofExpr (h.yield true)
  | some he =>
    exact h.sequence h.clearCache fun _ => h.ofExpr (h.evalCondition hd hc he loc)

theorem forStep {e e' : Option Expr} (he : Option.Rel (Expr.Alike L) e e') :
    S (MiniC.forStep env e) (MiniC.forStep env' e') := by
  cases he with
  | none => exact h.nothing
  | some he => exact h.evalStep hd hc he

theorem returnValue {e e' : Option Expr} (he : Option.Rel (Expr.Alike L) e e') :
    E (MiniC.returnValue env e) (MiniC.returnValue env' e') := by
  cases he with
  | none => exact h.yield _
  | some he => exact h.evalExpr hd hc _ he

end Parts

mutual

/-- Statements that are alike are executed alike, if calls are. -/
theorem execStmt (hd : env.declarations = env'.declarations)
    (hc : ∀ f vs loc, E (env.call f vs loc) (env'.call f (rename ρ vs) loc))
    (bound : Nat) : (s : Stmt) → {s' : Stmt} → s.Alike L s' →
    S (MiniC.execStmt env bound s) (MiniC.execStmt env' bound s')
  | .block loc ss, _, .block _ hss => h.statement loc (execAll hd hc bound ss hss)
  | .declare loc _, _, .declare _ hvs =>
    h.statement loc <| h.sequence h.clearCache fun _ => h.declareAll hd hc hvs
  | .eval loc _, _, .eval _ he => h.statement loc (h.evalStep hd hc he)
  | .branch loc _ t f, _, .branch _ hcond ht hf => by
    have onTrue := execStmt hd hc bound t ht
    have onFalse := execOption hd hc bound f hf
    refine h.statement loc <| h.sequence h.clearCache fun _ =>
      h.sequence (h.ofExpr (h.evalCondition hd hc hcond loc)) fun b => ?_
    cases b with
    | true => exact onTrue
    | false => exact onFalse
  | .whileLoop loc _ b, _, .whileLoop _ hcond hb =>
    h.statement loc <| h.whileLoop (h.ofExpr (h.evalCondition hd hc hcond loc))
      (execStmt hd hc bound b hb) bound
  | .forLoop loc i _ _ b, _, .forLoop _ hi hcond hs hb =>
    h.statement loc <| h.sequence (execOption hd hc bound i hi) fun _ =>
      h.forLoop (h.forCondition hd hc loc hcond) (h.forStep hd hc hs)
        (execStmt hd hc bound b hb) bound
  | .ret loc _, _, .ret _ he =>
    h.statement loc <| h.sequence h.clearCache fun _ =>
      h.sequence (h.ofExpr (h.returnValue hd hc he)) fun v => h.setReturned v
  | .empty loc, _, .empty _ => h.statement loc h.nothing
  | .doLoop loc _ _, _, .doLoop _ _ _ => h.statement loc (h.ofExpr (h.fault loc _))
  | .leave loc, _, .leave _ => h.statement loc (h.ofExpr (h.fault loc _))
  | .next loc, _, .next _ => h.statement loc (h.ofExpr (h.fault loc _))

/-- Lists of statements that are alike are executed alike. -/
theorem execAll (hd : env.declarations = env'.declarations)
    (hc : ∀ f vs loc, E (env.call f vs loc) (env'.call f (rename ρ vs) loc))
    (bound : Nat) : (ss : List Stmt) → {ss' : List Stmt} →
    List.Forall₂ (Stmt.Alike L) ss ss' →
    S (MiniC.execAll env bound ss) (MiniC.execAll env' bound ss')
  | [], _, .nil => h.nothing
  | s :: ss, _, .cons hs hss =>
    h.sequence (execStmt hd hc bound s hs) fun _ => execAll hd hc bound ss hss

/-- Optional statements that are alike are executed alike. -/
theorem execOption (hd : env.declarations = env'.declarations)
    (hc : ∀ f vs loc, E (env.call f vs loc) (env'.call f (rename ρ vs) loc))
    (bound : Nat) : (o : Option Stmt) → {o' : Option Stmt} →
    Option.Rel (Stmt.Alike L) o o' →
    S (MiniC.execOption env bound o) (MiniC.execOption env' bound o')
  | none, _, .none => h.nothing
  | some s, _, .some hs => execStmt hd hc bound s hs

end

end Statements

end StmtSimulationUpTo

/-! ### Calls -/

/-- A relation `S` between computations that statements respect, and calls turn into `E`.  The calls
on each side have a limit on their depth. -/
structure CallSimulationUpTo (L : Likeness) (ρ : RegionId → RegionId) (scope : Nat → Option Bool)
    (limit limit' : Nat) (E S : ∀ {α : Type} [Renames α], Eval α → Eval α → Prop) : Prop
    extends StmtSimulationUpTo L ρ scope E S where
  enter (f : Function) (args : List Value) (loc : Location) {x x' : Eval Unit} : S x x' →
    E (Eval.enter limit f args loc x fun _ frame => frame.returnValue)
      (Eval.enter limit' f (rename ρ args) loc x' fun _ frame => frame.returnValue)

namespace CallSimulationUpTo

variable {L : Likeness} {ρ : RegionId → RegionId} {p p' : Program} {config config' : Config}
  {E S : ∀ {α : Type} [Renames α], Eval α → Eval α → Prop}
  (h : CallSimulationUpTo L ρ (fun id => (p.declarations[id]?).map Declaration.isGlobal)
    config.maxCallDepth config'.maxCallDepth E S)
  (hp : p.Alike L p')

include h hp

/-- Calls of functions that are alike are related, if calls by name are. -/
theorem callFunction (fuel : Nat)
    (hc : ∀ name args loc, E (Context.call ⟨p, config⟩ fuel name args loc)
      (Context.call ⟨p', config'⟩ fuel name (rename ρ args) loc))
    {f f' : Function} (hf : f.Alike L f') (args : List Value) (loc : Location) :
    E (MiniC.callFunction ⟨p, config⟩ fuel f args loc)
      (MiniC.callFunction ⟨p', config'⟩ fuel f' (rename ρ args) loc) := by
  have hb := hf.body
  unfold MiniC.callFunction callWithin
  generalize f.body = b, f'.body = b' at hb
  cases hb with
  | none =>
    rw [hf.name_eq]
    exact h.fault loc _
  | @some s s' hs =>
    have hexec : S (MiniC.execStmt (Context.env ⟨p, config⟩ fuel) fuel s)
        (MiniC.execStmt (Context.env ⟨p', config'⟩ fuel) fuel s') :=
      h.execStmt hp.declarations_eq hc fuel s hs
    have henter := h.enter f args loc hexec
    rw [hf.enter_eq _ _ _ (MiniC.execStmt (Context.env ⟨p', config'⟩ fuel) fuel _)] at henter
    exact henter

/-- Calls by name are related. -/
theorem call (fuel : Nat) (name : String) (args : List Value) (loc : Location) :
    E (Context.call ⟨p, config⟩ fuel name args loc)
      (Context.call ⟨p', config'⟩ fuel name (rename ρ args) loc) := by
  -- The calls in a body have one less on their bound than the call of that body.
  induction fuel generalizing name args loc with
  | zero => exact h.outOfFuel
  | succ fuel ih =>
    rw [Context.call_succ, Context.call_succ]
    have hf := hp.function? name
    unfold Program.callNamed
    generalize p.function? name = o, p'.function? name = o' at hf
    cases hf with
    | none =>
      cases Intrinsic.ofName? name with
      | none => exact h.fault loc _
      | some i => exact h.callIntrinsic i args loc
    | @some f f' hf =>
      dsimp only [Option.bind_some]
      rw [← hf.intrinsic_eq]
      cases f.intrinsic.or (Intrinsic.ofName? name) with
      | none => exact h.callFunction hp fuel ih hf args loc
      | some i => exact h.callIntrinsic i args loc

end CallSimulationUpTo

/-! ### Runs -/

/-- A relation that runs respect, too. -/
structure RunSimulationUpTo (L : Likeness) (ρ : RegionId → RegionId) (scope : Nat → Option Bool)
    (limit limit' : Nat) (E S : ∀ {α : Type} [Renames α], Eval α → Eval α → Prop) : Prop
    extends CallSimulationUpTo L ρ scope limit limit' E S where
  started (entry : String) : E (Eval.record (.runStarted entry)) (Eval.record (.runStarted entry))
  flush (loc : Location) : E (Context.flush loc) (Context.flush loc)
  finished (v : Value) :
    E (Context.liveBlocks >>= fun n => Eval.record (.runFinished v n))
      (Context.liveBlocks >>= fun n => Eval.record (.runFinished (rename ρ v) n))

namespace RunSimulationUpTo

variable {L : Likeness} {ρ : RegionId → RegionId} {p p' : Program} {config config' : Config}
  {E S : ∀ {α : Type} [Renames α], Eval α → Eval α → Prop}

/-- Runs of programs that are alike, from functions of one name, are related if the declarations of
their globals are. -/
theorem run (h : RunSimulationUpTo L ρ (fun id => (p.declarations[id]?).map Declaration.isGlobal)
      config.maxCallDepth config'.maxCallDepth E S)
    (hentry : config'.entry = config.entry) (hp : p.Alike L p') (fuel : Nat)
    (hg : E (Context.declareGlobals (Context.env ⟨p, config⟩ fuel) p.globals)
      (Context.declareGlobals (Context.env ⟨p', config'⟩ fuel) p'.globals)) :
    E (Context.run ⟨p, config⟩ fuel) (Context.run ⟨p', config'⟩ fuel) := by
  have hf := hp.function? config.entry
  unfold Context.run
  dsimp only
  rw [hentry]
  refine h.seq (h.started _) fun _ => h.seq hg fun _ => ?_
  -- Both programs have a function to start in, or neither has.
  generalize p.function? config.entry = o, p'.function? config.entry = o' at hf
  cases hf with
  | none => exact h.fail (.noEntry config.entry)
  | some hf =>
    dsimp only
    rw [← hf.isDefinition_eq, ← hf.location_eq]
    split
    · refine h.seq (h.callFunction hp fuel (h.call hp fuel) hf [] _) fun v =>
        h.seq (h.flush _) fun _ => ?_
      rw [← Eval.bind_assoc, ← Eval.bind_assoc]
      exact h.seq (h.finished v) fun _ => h.yield v
    · exact h.fail (.noEntry config.entry)

end RunSimulationUpTo

end MiniC
