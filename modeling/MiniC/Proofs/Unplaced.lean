import MiniC.Printer
import MiniC.Proofs.Subscript

/-!
# Numbers and locations do not matter

Two expressions may be the same but for the numbers and the locations of their nodes: two copies of
one text are.  The numbers tell where values are remembered, which no program reads, and the
locations where errors are reported.  So from the same machine two copies yield the same value, or
errors of the same class, and leave the same machine but for what is remembered.

Main definitions:

* `MiniC.Outcome.seen`: what is seen of an outcome;
* `MiniC.Eval.Resembles`: two computations show the same;
* `MiniC.Env.CallsAnywhere`: calls by name show the same wherever they stand.

Main results:

* `MiniC.Expr.unplaced_resolve`: copies of a text are resolved to copies;
* `MiniC.Context.callsAnywhere`: where a call stands does not matter;
* `MiniC.resembles_evalExpr`, `MiniC.resembles_evalPlace`: copies of an expression show the same.
-/

set_option autoImplicit false

namespace MiniC

/-! ### What is seen -/

/-- What is seen of an outcome: its value, or the class of its error, and the machine that it leaves
without the remembered values; and nothing if it is cut off. -/
def Outcome.seen {α : Type} : Outcome α → Option (Except Fault.Kind α × Machine)
  | done a m => some (.ok a, Blur.remembered.machine m)
  | failed e m => some (.error e.kind, Blur.remembered.machine m)
  | outOfFuel => none

/-- What ends alike shows the same. -/
theorem Outcome.Alike.seen_eq {α : Type} {o o' : Outcome α}
    (h : Alike (fun a m a' m' => a = a' ∧ Blur.remembered.Same m m') Blur.remembered.Same o o') :
    o.seen = o'.seen := by
  cases h with
  | done h =>
    obtain ⟨rfl, hm⟩ := h
    rw [seen, seen, show Blur.remembered.machine _ = _ from hm]
  | failed e hm => rw [seen, seen, show Blur.remembered.machine _ = _ from hm]
  | outOfFuel => rfl

/-- What shows the same as a computation that is done is done, too. -/
theorem Outcome.exists_done_of_seen_eq {α : Type} {a : α} {m : Machine} {o : Outcome α}
    (h : (done a m).seen = o.seen) : ∃ m', o = done a m' ∧ Blur.remembered.Same m m' := by
  cases o with
  | done a' m' =>
    simp only [seen, Option.some.injEq, Prod.mk.injEq, Except.ok.injEq] at h
    exact ⟨m', by rw [h.1], h.2⟩
  | failed e m' => simp [seen] at h
  | outOfFuel => cases h

namespace Eval

variable {α β : Type}

/-- Sequences show the same if their first parts do, and their second parts behind them. -/
theorem seen_bind {x y : Eval α} {f g : α → Eval β} {m m' : Machine}
    (hxy : (x.run m).seen = (y.run m').seen)
    (hfg : ∀ a m₁ m₁', x.run m = .done a m₁ → y.run m' = .done a m₁' →
      Blur.remembered.Same m₁ m₁' → ((f a).run m₁).seen = ((g a).run m₁').seen) :
    ((x >>= f).run m).seen = ((y >>= g).run m').seen := by
  rw [run_bind, run_bind]
  cases hx : x.run m with
  | done a m₁ =>
    rw [hx] at hxy
    obtain ⟨m₁', hy, hm₁⟩ := Outcome.exists_done_of_seen_eq hxy
    rw [hy]
    exact hfg a m₁ m₁' hx hy hm₁
  | failed e m₁ =>
    rw [hx] at hxy
    cases hy : y.run m' with
    | done a' m₁' =>
      rw [hy] at hxy
      simp [Outcome.seen] at hxy
    | failed e' m₁' =>
      rw [hy] at hxy
      simpa [Outcome.seen] using hxy
    | outOfFuel =>
      rw [hy] at hxy
      cases hxy
  | outOfFuel =>
    rw [hx] at hxy
    cases hy : y.run m' with
    | done a' m₁' => rw [hy] at hxy; cases hxy
    | failed e' m₁' => rw [hy] at hxy; cases hxy
    | outOfFuel => rfl

/-- From machines that are the same but for remembered values, both computations show the same. -/
def Resembles (x y : Eval α) : Prop :=
  ∀ m m', Blur.remembered.Same m m' → (x.run m).seen = (y.run m').seen

theorem Resembles.symm {x y : Eval α} (h : Resembles x y) : Resembles y x :=
  fun m m' hm => (h m' m hm.symm).symm

theorem Resembles.trans {x y z : Eval α} (h : Resembles x y) (h' : Resembles y z) :
    Resembles x z :=
  fun m m' hm => (h m m' hm).trans (h' m' m' rfl)

theorem Resembles.bind {x y : Eval α} {f g : α → Eval β} (hxy : Resembles x y)
    (hfg : ∀ a, Resembles (f a) (g a)) : Resembles (x >>= f) (y >>= g) :=
  fun m m' hm => seen_bind (hxy m m' hm) fun a m₁ m₁' _ _ hm₁ => hfg a m₁ m₁' hm₁

/-- What agrees shows the same. -/
theorem Agree.resembles {x y : Eval α} (h : Agree Blur.remembered x y) : Resembles x y :=
  fun m m' hm => (h m m' hm).seen_eq

/-- A computation that agrees with itself resembles one that shows the same from every machine. -/
theorem Agree.resembles_of_seen {x y : Eval α} (h : Agree Blur.remembered x x)
    (hxy : ∀ m, (x.run m).seen = (y.run m).seen) : Resembles x y :=
  fun m m' hm => (h.resembles m m' hm).trans (hxy m')

/-! ### Operations at other locations -/

theorem resembles_pure (a : α) : Resembles (pure a) (pure a) := (agree_pure a).resembles

theorem resembles_fault (loc loc' : Location) {f f' : Fault} (h : f.kind = f'.kind) :
    Resembles (fault loc f : Eval α) (fault loc' f') :=
  (agree_fail _).resembles_of_seen fun m => by
    show some (Except.error f.kind, _) = some (Except.error f'.kind, _)
    rw [h]

theorem resembles_ofExcept (loc loc' : Location) (x : Except Fault α) :
    Resembles (ofExcept loc x) (ofExcept loc' x) := by
  cases x with
  | ok a => exact resembles_pure a
  | error f => exact resembles_fault loc loc' rfl

/-- Where a machine is asked something does not matter. -/
theorem seen_query (loc loc' : Location) (f : Machine → Except Fault α) (m : Machine) :
    ((query loc f).run m).seen = ((query loc' f).run m).seen := by
  dsimp only [query, op]
  cases f m <;> rfl

theorem resembles_readName (x : String) (link : Option Nat) (loc loc' : Location) :
    Resembles (readName x link loc) (readName x link loc') :=
  (agree_lookUp _ loc fun m => Blur.remembered.readName m x link).resembles_of_seen
    (seen_query loc loc' _)

theorem resembles_placeOfName (x : String) (link : Option Nat) (isArray : Nat → Bool)
    (loc loc' : Location) :
    Resembles (placeOfName x link isArray loc) (placeOfName x link isArray loc') :=
  (agree_lookUp _ loc fun m =>
    Blur.remembered.placeOfName m x link isArray).resembles_of_seen (seen_query loc loc' _)

theorem resembles_readPlace (place : Place) (loc loc' : Location) :
    Resembles (readPlace place loc) (readPlace place loc') :=
  (agree_query loc fun m => Blur.remembered.readPlace m place).resembles_of_seen
    (seen_query loc loc' _)

/-- Where a machine is changed does not matter. -/
theorem seen_attempt (loc loc' : Location) (f : Machine → Except Fault Machine) (m : Machine) :
    ((attempt loc f).run m).seen = ((attempt loc' f).run m).seen := by
  dsimp only [attempt, op]
  cases f m <;> rfl

theorem resembles_writePlace (place : Place) (v : Value) (loc loc' : Location) :
    Resembles (writePlace place v loc) (writePlace place v loc') :=
  (agree_attempt loc fun m => Blur.remembered.writePlace m place v).resembles_of_seen
    (seen_attempt loc loc' _)

theorem resembles_expectPointer (v : Value) (loc loc' : Location) :
    Resembles (expectPointer v loc) (expectPointer v loc') := by
  cases v with
  | integer n => exact resembles_fault loc loc' rfl
  | pointer p => exact resembles_pure p
  | uninitialized => exact resembles_fault loc loc' rfl

/-- A remembered value is not seen. -/
theorem seen_remembered (n : Node) (x : Eval Value) (m : Machine) :
    ((remembered n x).run m).seen = (x.run m).seen := by
  rw [remembered, run_bind]
  cases x.run m with
  | done v m₁ =>
    show some (Except.ok v, _) = some (Except.ok v, _)
    rw [show Blur.remembered.machine (m₁.modifyFrame fun f => f.remember n.id v) = _ from
      same_remember rfl m₁ n.id v]
  | failed e m₁ => rfl
  | outOfFuel => rfl

theorem Resembles.remembered {x y : Eval Value} (h : Resembles x y) (n n' : Node) :
    Resembles (remembered n x) (remembered n' y) := by
  intro m m' hm
  rw [seen_remembered, seen_remembered]
  exact h m m' hm

/-! ### Calls at other locations -/

/-- Sequences of which only the first part stands elsewhere show the same. -/
theorem seen_bind_left {x y : Eval α} {f : α → Eval β} {m : Machine}
    (hxy : (x.run m).seen = (y.run m).seen) (hf : ∀ a, Resembles (f a) (f a)) :
    ((x >>= f).run m).seen = ((y >>= f).run m).seen :=
  seen_bind hxy fun a m₁ m₁' _ _ hm₁ => hf a m₁ m₁' hm₁

/-- Where a built-in function is called does not matter. -/
theorem seen_callIntrinsic (i : Intrinsic) (args : List Value) (loc loc' : Location)
    (m : Machine) :
    ((callIntrinsic i args loc).run m).seen = ((callIntrinsic i args loc').run m).seen := by
  unfold callIntrinsic
  split
  · refine seen_bind_left ?_ fun n => resembles_pure _
    dsimp only [readInteger, op]
    rcases m.input.next with ⟨e | n, input⟩ <;> rfl
  · next v =>
    cases v with
    | integer n =>
      refine seen_bind_left ?_ fun _ => resembles_pure _
      rw [run_writeLine, run_writeLine]
      rcases m.output.write (line n) with ⟨_ | _, output⟩ <;> rfl
    | pointer p => exact resembles_fault loc loc' rfl m m rfl
    | uninitialized => exact resembles_fault loc loc' rfl m m rfl
  · next v =>
    cases v with
    | integer n =>
      dsimp only [callMalloc]
      split
      · exact resembles_fault loc loc' rfl m m rfl
      · refine seen_bind_left ?_ fun p => resembles_pure _
        dsimp only [create, op]
        cases m.allocate n.toInt.toNat <;> rfl
    | pointer p => exact resembles_fault loc loc' rfl m m rfl
    | uninitialized => exact resembles_fault loc loc' rfl m m rfl
  · next v =>
    cases v with
    | integer n => exact resembles_fault loc loc' rfl m m rfl
    | pointer p => exact seen_bind_left (seen_attempt loc loc' _ m) fun _ => resembles_pure _
    | uninitialized => exact resembles_fault loc loc' rfl m m rfl
  · exact resembles_fault loc loc' rfl m m rfl

/-- Where a function is called does not matter. -/
theorem seen_enter {limit : Nat} (f : Function) (args : List Value) (loc loc' : Location)
    (body : Eval α) (value : α → Frame → Value) (m : Machine) :
    ((enter limit f args loc body value).run m).seen =
      ((enter limit f args loc' body value).run m).seen := by
  have hdepth : depth.run m = .done m.stack.depth m := rfl
  rw [enter, enter, run_bind_done hdepth, run_bind_done hdepth]
  split
  · exact resembles_fault loc loc' rfl m m rfl
  · split
    · exact resembles_fault loc loc' rfl m m rfl
    · rfl

end Eval

open Eval

/-- Calls by name do not tell where they stand. -/
def Env.CallsAnywhere (env : Env) : Prop :=
  ∀ f vs loc loc', Resembles (env.call f vs loc) (env.call f vs loc')

namespace Context

/-- Where a call by name stands does not matter. -/
theorem seen_call (ctx : Context) (fuel : Nat) (name : String) (args : List Value)
    (loc loc' : Location) (m : Machine) :
    ((ctx.call fuel name args loc).run m).seen = ((ctx.call fuel name args loc').run m).seen := by
  cases fuel with
  | zero => rfl
  | succ fuel =>
    rw [call_succ]
    dsimp only [Program.callNamed]
    split
    · exact seen_callIntrinsic _ args loc loc' m
    · split
      · next f _ =>
        unfold callFunction callWithin
        split
        · exact resembles_fault loc loc' rfl m m rfl
        · exact seen_enter f args loc loc' _ _ m
      · exact resembles_fault loc loc' rfl m m rfl

/-- The calls of a program do not tell where they stand. -/
theorem callsAnywhere (ctx : Context) (fuel : Nat) : (ctx.env fuel).CallsAnywhere := by
  intro name args loc loc'
  have hrun : RunSimulation .equal
      (fun id => (ctx.program.declarations[id]?).map Declaration.isGlobal)
      ctx.config.maxCallDepth ctx.config.maxCallDepth (Agree Blur.remembered)
      (Agree Blur.remembered) :=
    runSimulation_agree rfl (fun _ _ _ => .inl rfl) (fun _ _ => rfl) _ _
  have hcall : Agree Blur.remembered (ctx.call fuel name args loc) (ctx.call fuel name args loc) :=
    hrun.call ctx.program.alike_self fuel name args loc
  exact hcall.resembles_of_seen (seen_call ctx fuel name args loc loc')

end Context

/-! ### Copies of an expression -/

namespace Expr

@[simp] theorem type_unplaced (e : Expr) : e.unplaced.type = e.type := by
  cases e <;> rfl

@[simp] theorem stride_unplaced (e : Expr) : e.unplaced.stride = e.stride := by
  rw [stride, stride, type_unplaced]

/-- Copies have the same type. -/
theorem type_eq_of_unplaced {e e' : Expr} (h : e'.unplaced = e.unplaced) : e'.type = e.type := by
  rw [← type_unplaced, h, type_unplaced]

theorem typeOrInt_eq_of_unplaced {e e' : Expr} (h : e'.unplaced = e.unplaced) :
    e'.typeOrInt = e.typeOrInt := by
  rw [typeOrInt, typeOrInt, type_eq_of_unplaced h]

mutual

/-- Resolving does not look at numbers and locations. -/
theorem unplaced_resolve (s : Scope) : (e : Expr) →
    (e.resolve s).unplaced = (e.unplaced.resolve s).unplaced
  | .int n v | .char n v | .string n v | .name n x _ | .sizeof n t => rfl
  | .binary n op l r => by
    have hl := unplaced_resolve s l
    have hr := unplaced_resolve s r
    simp only [resolve, unplaced, Node.unplaced, hl, hr, typeOrInt_eq_of_unplaced hl,
      typeOrInt_eq_of_unplaced hr]
  | .unary n op x => by
    have hx := unplaced_resolve s x
    simp only [resolve, unplaced, Node.unplaced, hx, typeOrInt_eq_of_unplaced hx]
  | .call n f args => by
    simp only [resolve, unplaced, Node.unplaced, unplacedAll_resolveAll s args]
  | .subscript n b i => by
    have hb := unplaced_resolve s b
    simp only [resolve, unplaced, Node.unplaced, hb, typeOrInt_eq_of_unplaced hb,
      unplaced_resolve s i]
  | .cast n t x => by
    simp only [resolve, unplaced, Node.unplaced, unplaced_resolve s x]

theorem unplacedAll_resolveAll (s : Scope) : (es : List Expr) →
    unplacedAll (resolveAll s es) = unplacedAll (resolveAll s (unplacedAll es))
  | [] => rfl
  | e :: es => by
    simp only [resolveAll, unplacedAll, unplaced_resolve s e, unplacedAll_resolveAll s es]

end

/-- Copies are resolved to copies. -/
theorem unplaced_resolve_congr {e e' : Expr} (h : e'.unplaced = e.unplaced) (s : Scope) :
    (e'.resolve s).unplaced = (e.resolve s).unplaced := by
  rw [unplaced_resolve, h, ← unplaced_resolve]

end Expr

/-! ### Copies show the same -/

namespace Eval

theorem resembles_operate (op : BinaryOp) {l l' r r' : Expr} (hl : l'.stride = l.stride)
    (hr : r'.stride = r.stride) (loc loc' : Location) {x x' y y' : Eval Value}
    (hx : Resembles x x') (hy : Resembles y y') :
    Resembles (operate op l r loc x y) (operate op l' r' loc' x' y') :=
  hx.bind fun a => hy.bind fun b => by
    rw [hl, hr]
    exact resembles_ofExcept loc loc' _

theorem resembles_follow (loc loc' : Location) {x x' : Eval Value} (hx : Resembles x x') :
    Resembles (follow loc x) (follow loc' x') :=
  hx.bind fun v => resembles_expectPointer v loc loc'

theorem resembles_load (loc loc' : Location) {x x' : Eval Pointer} (hx : Resembles x x') :
    Resembles (load loc x) (load loc' x') :=
  hx.bind fun p => resembles_readPlace (.memory p) loc loc'

/-- What a place is given is what an assignment yields, wherever it stands. -/
theorem resembles_store (place : Place) (v w : Value) (loc loc' : Location) :
    Resembles (writePlace place v loc >>= fun _ => pure w)
      (writePlace place v loc' >>= fun _ => pure w) :=
  (resembles_writePlace place v loc loc').bind fun _ => resembles_pure w

theorem resembles_assigned (op : BinaryOp) {l l' r r' : Expr} (hl : l'.stride = l.stride)
    (hr : r'.stride = r.stride) (loc loc' : Location) (place : Place) {x x' : Eval Value}
    (hx : Resembles x x') :
    Resembles (assigned op l r loc place x) (assigned op l' r' loc' place x') := by
  unfold assigned
  cases op.compoundBase? with
  | none => exact hx
  | some base =>
    refine (resembles_readPlace place loc loc').bind fun current =>
      (agree_remember (.inl rfl) current).resembles.bind fun _ => hx.bind fun b => ?_
    rw [hl, hr]
    exact resembles_ofExcept loc loc' _

theorem resembles_assign (op : BinaryOp) {l l' r r' : Expr} (hl : l'.type = l.type)
    (hr : r'.stride = r.stride) (loc loc' : Location) {target target' : Eval Place}
    {x x' : Eval Value} (htarget : Resembles target target') (hx : Resembles x x') :
    Resembles (assign op l r loc target x) (assign op l' r' loc' target' x') := by
  have hstride : l'.stride = l.stride := by rw [Expr.stride, Expr.stride, hl]
  refine htarget.bind fun place =>
    (resembles_assigned op hstride hr loc loc' place hx).bind fun v => ?_
  rw [hl]
  exact resembles_store place _ _ loc loc'

theorem resembles_increment {x x' : Expr} (hx : x'.type = x.type) (delta : Int64) (isPost : Bool)
    (loc loc' : Location) {target target' : Eval Place} (htarget : Resembles target target') :
    Resembles (increment x delta isPost loc target) (increment x' delta isPost loc' target') := by
  have hstride : x'.stride = x.stride := by rw [Expr.stride, Expr.stride, hx]
  refine htarget.bind fun place => (resembles_readPlace place loc loc').bind fun current => ?_
  rw [hstride, hx]
  exact (resembles_ofExcept loc loc' _).bind fun v => resembles_store place _ _ loc loc'

end Eval

/-- An expression without its places names the place that it names. -/
theorem resembles_placeOf (isArray : Nat → Bool) (e : Expr) {address address' : Eval Pointer}
    (h : Resembles address address') :
    Resembles (placeOf isArray e address) (placeOf isArray e.unplaced address') := by
  cases e with
  | name n x link => exact resembles_placeOfName x link _ _ _
  | subscript n b i => exact h.bind fun p => resembles_pure _
  | unary n op x =>
    cases op with
    | deref => exact h.bind fun p => resembles_pure _
    | _ => exact resembles_fault _ _ rfl
  | _ => exact resembles_fault _ _ rfl

mutual

/-- An expression without its places has the value that it has. -/
theorem resembles_unplaced {env : Env} (hc : env.CallsAnywhere) :
    (e : Expr) → Resembles (evalExpr env e) (evalExpr env e.unplaced)
  | .int n v => (resembles_pure _).remembered n _
  | .char n c => (resembles_pure _).remembered n _
  | .string n _ => (resembles_fault _ _ rfl).remembered n _
  | .name n x link => (resembles_readName x link _ _).remembered n _
  | .binary n op l r => by
    have hr := resembles_unplaced hc r
    refine Resembles.remembered ?_ n _
    split
    · exact resembles_assign op l.type_unplaced r.stride_unplaced _ _
        (resembles_placeOf env.isArray l (resembles_address hc l)) hr
    · exact resembles_operate op l.stride_unplaced r.stride_unplaced _ _
        (resembles_unplaced hc l) hr
  | .unary n op x => by
    have htarget := resembles_placeOf env.isArray x (resembles_address hc x)
    have hx := resembles_unplaced hc x
    have hincrement := fun delta isPost =>
      resembles_increment x.type_unplaced delta isPost n.location n.unplaced.location htarget
    refine Resembles.remembered ?_ n _
    cases op with
    | preInc | preDec | postInc | postDec => exact hincrement _ _
    | addrOf => exact resembles_fault _ _ rfl
    | deref => exact resembles_load _ _ (resembles_follow _ _ hx)
    | neg | not | bitNot => exact hx.bind fun a => resembles_ofExcept _ _ _
  | .call n f args =>
    ((resembles_args hc args).bind fun vs => hc f vs _ _).remembered n _
  | .subscript n b i =>
    (resembles_load _ _ (resembles_follow _ _ (resembles_operate .add b.stride_unplaced
      i.stride_unplaced _ _ (resembles_unplaced hc b) (resembles_unplaced hc i)))).remembered n _
  | .cast n t x => ((resembles_unplaced hc x).bind fun a => resembles_pure _).remembered n _
  | .sizeof n t => by
    refine Resembles.remembered ?_ n _
    unfold Eval.sizeof
    cases t.size? with
    | none => exact resembles_fault _ _ rfl
    | some k =>
      dsimp only
      split
      · exact resembles_pure _
      · exact resembles_fault _ _ rfl

/-- Arguments without their places have the values that they have. -/
theorem resembles_args {env : Env} (hc : env.CallsAnywhere) : (es : List Expr) →
    Resembles (evalArgs env es) (evalArgs env (Expr.unplacedAll es))
  | [] => resembles_pure []
  | e :: es => (resembles_unplaced hc e).bind fun _ =>
    (resembles_args hc es).bind fun _ => resembles_pure _

/-- An expression without its places names the place in memory that it names. -/
theorem resembles_address {env : Env} (hc : env.CallsAnywhere) : (e : Expr) →
    Resembles (evalAddress env e) (evalAddress env e.unplaced)
  | .unary n op x => by
    have hx := resembles_unplaced hc x
    cases op with
    | deref => exact resembles_follow _ _ hx
    | _ => exact resembles_fault _ _ rfl
  | .subscript n b i =>
    resembles_follow _ _ (resembles_operate .add b.stride_unplaced i.stride_unplaced _ _
      (resembles_unplaced hc b) (resembles_unplaced hc i))
  | .int _ _ | .char _ _ | .string _ _ | .name _ _ _ | .binary _ _ _ _ | .call _ _ _
  | .cast _ _ _ | .sizeof _ _ => resembles_fault _ _ rfl

end

/-- Copies of an expression show the same. -/
theorem resembles_evalExpr {env : Env} (hc : env.CallsAnywhere) {e e' : Expr}
    (h : e'.unplaced = e.unplaced) : Resembles (evalExpr env e) (evalExpr env e') :=
  (resembles_unplaced hc e).trans (h ▸ (resembles_unplaced hc e').symm)

/-- Copies of an expression name the same place. -/
theorem resembles_evalPlace {env : Env} (hc : env.CallsAnywhere) {e e' : Expr}
    (h : e'.unplaced = e.unplaced) : Resembles (evalPlace env e) (evalPlace env e') :=
  (resembles_placeOf env.isArray e (resembles_address hc e)).trans
    (h ▸ (resembles_placeOf env.isArray e' (resembles_address hc e')).symm)

end MiniC
