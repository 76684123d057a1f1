import MiniC.Machine

/-!
# Computations

A computation runs on a machine.  It ends with a value or with an error, and leaves a machine
either way; or it is cut off, because the bound on its length was too small.  On its way it passes
through machines: the one that it begins on, those between two of its operations, and the one that
it leaves.  On some of them it looks names up, to read a variable or to store to it.  An error is
raised on one of them, before the frames of the calls in which that happens are removed.

Main definitions:

* `MiniC.Outcome`, `MiniC.Eval`: how a computation ends, and computations;
* `MiniC.Outcome.shown`, `MiniC.Outcome.error?`: what is seen of how it ends;
* `MiniC.Eval.op`, `MiniC.Eval.bind`: one operation, and one computation after another;
* `MiniC.Eval.inFrame`: a computation in a frame of its own;
* `MiniC.Eval.lookUp`: the operations that look names up.

Main results:

* the laws of sequencing (`LawfulMonad Eval`);
* `MiniC.Eval.visits_bind`, `MiniC.Eval.looks_bind`, `MiniC.Eval.raises_bind`: what a sequence
  passes through, what it looks up, and what errors it raises;
* `MiniC.Eval.raises_iff_of_failed`: a computation that fails has raised its error, and nothing
  happens behind that.
* `MiniC.Eval.eq_of_query`, `MiniC.Eval.ok_or_eq_of_attempt`, `MiniC.Eval.ok_or_eq_of_create`: the
  machine that each kind of operation leaves.
-/

set_option autoImplicit false

namespace MiniC

/-- How a computation ends. -/
inductive Outcome (α : Type) where
  | done (value : α) (machine : Machine)
  | failed (error : RuntimeError) (machine : Machine)
  /-- The bound on the length of the computation was too small. -/
  | outOfFuel

/-- The machine that a computation leaves, if it ends. -/
def Outcome.machine? {α : Type} : Outcome α → Option Machine
  | done _ m | failed _ m => some m
  | outOfFuel => none

/-- What a computation that ends with a value shows: the value, and what was printed. -/
def Outcome.shown {α : Type} : Outcome α → Option (α × String)
  | .done v m => some (v, m.output.text)
  | _ => none

theorem Outcome.exists_of_shown {α : Type} {o : Outcome α} {r : α × String}
    (h : o.shown = some r) : ∃ m, o = .done r.1 m ∧ m.output.text = r.2 := by
  cases o with
  | done v m =>
    cases h
    exact ⟨m, rfl, rfl⟩
  | failed e m => cases h
  | outOfFuel => cases h

/-- The error of a computation that fails. -/
def Outcome.error? {α : Type} : Outcome α → Option RuntimeError
  | .failed e _ => some e
  | _ => none

theorem Outcome.exists_of_error? {α : Type} {o : Outcome α} {e : RuntimeError}
    (h : o.error? = some e) : ∃ m, o = .failed e m := by
  cases o with
  | done v m => cases h
  | failed e m =>
    cases h
    exact ⟨m, rfl⟩
  | outOfFuel => cases h

/-- A name that is looked up, with the declaration that it is linked to. -/
structure Lookup where
  name : String
  link : Option Nat
deriving DecidableEq, Repr

/-- A computation: how it ends; the machines that it passes through, the first and the last one
included; the names that it looks up, each with the machine on which it does; and the error that it
raises, with the machine on which it does.  Behind an error, frames are removed, and that is no
event. -/
@[ext] structure Eval (α : Type) where
  run : Machine → Outcome α
  visits : Machine → Machine → Prop
  looks : Machine → Lookup → Machine → Prop
  raises : Machine → RuntimeError → Machine → Prop
  visits_start (m : Machine) : visits m m
  visits_end (m m' : Machine) : (run m).machine? = some m' → visits m m'
  raises_of_failed (m : Machine) (e : RuntimeError) (m' : Machine) :
    run m = .failed e m' → ∃ m₁, raises m e m₁
  failed_of_raises (m : Machine) (e : RuntimeError) (m₁ : Machine) :
    raises m e m₁ → ∃ m', run m = .failed e m' ∧ m'.journal = m₁.journal
  visits_of_raises (m : Machine) (e : RuntimeError) (m₁ : Machine) : raises m e m₁ → visits m m₁

namespace Eval

variable {α β γ : Type}

/-! ### Operations and sequencing -/

/-- A computation that is one operation: it passes through nothing between its start and its end,
and looks nothing up. -/
@[always_inline, inline] def op (f : Machine → Outcome α) : Eval α where
  run := f
  visits m m' := m' = m ∨ (f m).machine? = some m'
  looks _ _ _ := False
  raises m e m' := f m = .failed e m'
  visits_start _ := .inl rfl
  visits_end _ _ h := .inr h
  raises_of_failed _ _ m' h := ⟨m', h⟩
  failed_of_raises _ _ m₁ h := ⟨m₁, h, rfl⟩
  visits_of_raises _ _ _ h := .inr (congrArg Outcome.machine? h)

/-- The computation that yields a value and changes nothing. -/
@[always_inline, inline] protected def pure (a : α) : Eval α := op fun m => .done a m

/-- One computation, and then another with its value; an error ends both. -/
@[always_inline, inline] protected def bind (x : Eval α) (f : α → Eval β) : Eval β where
  run m :=
    match x.run m with
    | .done a m => (f a).run m
    | .failed e m => .failed e m
    | .outOfFuel => .outOfFuel
  visits m m' := x.visits m m' ∨ ∃ a m₁, x.run m = .done a m₁ ∧ (f a).visits m₁ m'
  looks m k m' := x.looks m k m' ∨ ∃ a m₁, x.run m = .done a m₁ ∧ (f a).looks m₁ k m'
  raises m e m' := x.raises m e m' ∨ ∃ a m₁, x.run m = .done a m₁ ∧ (f a).raises m₁ e m'
  visits_start m := .inl (x.visits_start m)
  visits_end m m' h := by
    cases hx : x.run m with
    | done a m₁ =>
      rw [hx] at h
      exact .inr ⟨a, m₁, rfl, (f a).visits_end m₁ m' h⟩
    | failed e m₁ =>
      rw [hx] at h
      exact .inl (x.visits_end m m' (by rw [hx]; exact h))
    | outOfFuel =>
      rw [hx] at h
      cases h
  raises_of_failed m e m' h := by
    cases hx : x.run m with
    | done a m₁ =>
      rw [hx] at h
      obtain ⟨m₂, hraises⟩ := (f a).raises_of_failed m₁ e m' h
      exact ⟨m₂, .inr ⟨a, m₁, rfl, hraises⟩⟩
    | failed e' m₁ =>
      rw [hx] at h
      obtain ⟨rfl, rfl⟩ := Outcome.failed.inj h
      obtain ⟨m₂, hraises⟩ := x.raises_of_failed m e' m₁ hx
      exact ⟨m₂, .inl hraises⟩
    | outOfFuel =>
      rw [hx] at h
      cases h
  failed_of_raises m e m₁ h := by
    rcases h with h | ⟨a, m₂, hx, h⟩
    · obtain ⟨m', hx, hjournal⟩ := x.failed_of_raises m e m₁ h
      exact ⟨m', by rw [hx], hjournal⟩
    · obtain ⟨m', hf, hjournal⟩ := (f a).failed_of_raises m₂ e m₁ h
      exact ⟨m', by rw [hx]; exact hf, hjournal⟩
  visits_of_raises m e m₁ h := by
    rcases h with h | ⟨a, m₂, hx, h⟩
    · exact .inl (x.visits_of_raises m e m₁ h)
    · exact .inr ⟨a, m₂, hx, (f a).visits_of_raises m₂ e m₁ h⟩

@[always_inline] instance : Monad Eval where
  pure := Eval.pure
  bind := Eval.bind

@[simp] theorem run_pure (a : α) (m : Machine) : (pure a : Eval α).run m = .done a m := rfl

theorem run_bind (x : Eval α) (f : α → Eval β) (m : Machine) :
    (x >>= f).run m = match x.run m with
      | .done a m => (f a).run m
      | .failed e m => .failed e m
      | .outOfFuel => .outOfFuel := rfl

theorem run_bind_done {x : Eval α} {m m₁ : Machine} {a : α} (h : x.run m = .done a m₁)
    (f : α → Eval β) : (x >>= f).run m = (f a).run m₁ := by
  rw [run_bind, h]

/-- A sequence that is done has done its first part, and then its second one. -/
theorem run_bind_eq_done {x : Eval α} {f : α → Eval β} {m m' : Machine} {b : β}
    (h : (x >>= f).run m = .done b m') :
    ∃ a m₁, x.run m = .done a m₁ ∧ (f a).run m₁ = .done b m' := by
  rw [run_bind] at h
  cases hx : x.run m with
  | done a m₁ =>
    rw [hx] at h
    exact ⟨a, m₁, rfl, h⟩
  | failed e m₁ =>
    rw [hx] at h
    cases h
  | outOfFuel =>
    rw [hx] at h
    cases h

/-- A sequence ends where its first part does, or where its second one does behind it. -/
theorem machine?_bind {x : Eval α} {f : α → Eval β} {m m' : Machine}
    (h : ((x >>= f).run m).machine? = some m') :
    (x.run m).machine? = some m' ∨
      ∃ a m₁, x.run m = .done a m₁ ∧ ((f a).run m₁).machine? = some m' := by
  rw [run_bind] at h
  cases hx : x.run m with
  | done a m₁ =>
    rw [hx] at h
    exact .inr ⟨a, m₁, rfl, h⟩
  | failed e m₁ =>
    rw [hx] at h
    exact .inl h
  | outOfFuel =>
    rw [hx] at h
    cases h

/-- What a sequence passes through: what its first part does, and if that is done what its second
part does. -/
theorem visits_bind (x : Eval α) (f : α → Eval β) (m m' : Machine) :
    (x >>= f).visits m m' ↔
      x.visits m m' ∨ ∃ a m₁, x.run m = .done a m₁ ∧ (f a).visits m₁ m' := Iff.rfl

/-- What a sequence looks up: what its first part does, and if that is done what its second part
does. -/
theorem looks_bind (x : Eval α) (f : α → Eval β) (m : Machine) (k : Lookup) (m' : Machine) :
    (x >>= f).looks m k m' ↔
      x.looks m k m' ∨ ∃ a m₁, x.run m = .done a m₁ ∧ (f a).looks m₁ k m' := Iff.rfl

/-- The errors of a sequence are those of its first part, and if that is done those of its second
part. -/
theorem raises_bind (x : Eval α) (f : α → Eval β) (m : Machine) (e : RuntimeError) (m' : Machine) :
    (x >>= f).raises m e m' ↔
      x.raises m e m' ∨ ∃ a m₁, x.run m = .done a m₁ ∧ (f a).raises m₁ e m' := Iff.rfl

/-- A computation that fails has raised its error on some machine, and no other one; and behind the
last event on that machine there is no other one. -/
theorem raises_iff_of_failed {x : Eval α} {m m' : Machine} {e : RuntimeError}
    (h : x.run m = .failed e m') :
    (∃ m₁, x.raises m e m₁) ∧
      ∀ e' m₁, x.raises m e' m₁ → e' = e ∧ m₁.journal = m'.journal := by
  refine ⟨x.raises_of_failed m e m' h, fun e' m₁ hraises => ?_⟩
  obtain ⟨m₂, hfailed, hjournal⟩ := x.failed_of_raises m e' m₁ hraises
  obtain ⟨rfl, rfl⟩ := Outcome.failed.inj (hfailed.symm.trans h)
  exact ⟨rfl, hjournal.symm⟩

/-- A computation that is done has raised nothing. -/
theorem not_raises_of_done {x : Eval α} {m m' : Machine} {a : α} (h : x.run m = .done a m')
    (e : RuntimeError) (m₁ : Machine) : ¬x.raises m e m₁ := by
  intro hraises
  obtain ⟨m₂, hfailed, -⟩ := x.failed_of_raises m e m₁ hraises
  cases h.symm.trans hfailed

/-- One operation looks nothing up. -/
@[simp] theorem looks_op (f : Machine → Outcome α) (m : Machine) (k : Lookup) (m' : Machine) :
    (op f).looks m k m' ↔ False := Iff.rfl

/-- Doing nothing looks nothing up. -/
@[simp] theorem looks_pure (a : α) (m : Machine) (k : Lookup) (m' : Machine) :
    (pure a : Eval α).looks m k m' ↔ False := Iff.rfl

/-- Doing nothing raises nothing. -/
@[simp] theorem raises_pure (a : α) (m : Machine) (e : RuntimeError) (m' : Machine) :
    (pure a : Eval α).raises m e m' ↔ False :=
  iff_of_false (not_raises_of_done (run_pure a m) e m') id

/-- Doing nothing passes through nothing else. -/
@[simp] theorem visits_pure (a : α) (m m' : Machine) :
    (pure a : Eval α).visits m m' ↔ m' = m := by
  show m' = m ∨ some m = some m' ↔ m' = m
  rw [Option.some.injEq, eq_comm (a := m), or_self]

/-- Two computations are the same if they end in the same way, pass through the same machines, and
look up the same names and raise the same errors on the same machines. -/
theorem ext_of_iff {x y : Eval α} (hrun : ∀ m, x.run m = y.run m)
    (hvisits : ∀ m m', x.visits m m' ↔ y.visits m m')
    (hlooks : ∀ m k m', x.looks m k m' ↔ y.looks m k m')
    (hraises : ∀ m e m', x.raises m e m' ↔ y.raises m e m') : x = y :=
  Eval.ext (funext hrun) (funext fun m => funext fun m' => propext (hvisits m m'))
    (funext fun m => funext fun k => funext fun m' => propext (hlooks m k m'))
    (funext fun m => funext fun e => funext fun m' => propext (hraises m e m'))

theorem pure_bind (a : α) (f : α → Eval β) : (pure a : Eval α) >>= f = f a := by
  -- Behind the value, only what follows does anything.
  have behind : ∀ (m : Machine) (Q : α → Machine → Prop),
      (∃ b m₁, (pure a : Eval α).run m = .done b m₁ ∧ Q b m₁) ↔ Q a m := by
    intro m Q
    constructor
    · rintro ⟨b, m₁, hb, h⟩
      cases hb
      exact h
    · exact fun h => ⟨a, m, rfl, h⟩
  refine ext_of_iff (fun m => rfl) (fun m m' => ?_) (fun m k m' => ?_) fun m e m' => ?_
  · rw [visits_bind, visits_pure, behind m fun b m₁ => (f b).visits m₁ m']
    refine or_iff_right_of_imp fun h => ?_
    rw [h]
    exact (f a).visits_start m
  · rw [looks_bind, looks_pure, false_or, behind m fun b m₁ => (f b).looks m₁ k m']
  · rw [raises_bind, raises_pure, false_or, behind m fun b m₁ => (f b).raises m₁ e m']

theorem bind_pure (x : Eval α) : x >>= pure = x := by
  refine ext_of_iff (fun m => ?_) (fun m m' => ?_) (fun m k m' => ?_) fun m e m' => ?_
  · rw [run_bind]
    cases x.run m <;> rfl
  · rw [visits_bind]
    refine or_iff_left_of_imp ?_
    rintro ⟨a, m₁, ha, h⟩
    obtain rfl := (visits_pure a m₁ m').1 h
    exact x.visits_end m m' (by rw [ha]; rfl)
  · rw [looks_bind]
    exact or_iff_left_of_imp fun ⟨a, m₁, _, h⟩ => (looks_pure a m₁ k m').1 h |>.elim
  · rw [raises_bind]
    exact or_iff_left_of_imp fun ⟨a, m₁, _, h⟩ => (raises_pure a m₁ e m').1 h |>.elim

/-- What a first, a second and a third part do, however they are put together.  `P`, `Q` and `R`
tell what each of them does on a machine. -/
theorem assoc_iff (x : Eval α) (f : α → Eval β) {P : Machine → Prop} {Q : α → Machine → Prop}
    {R : β → Machine → Prop} (m : Machine) :
    ((P m ∨ ∃ a m₁, x.run m = .done a m₁ ∧ Q a m₁) ∨
        ∃ b m₂, (x >>= f).run m = .done b m₂ ∧ R b m₂) ↔
      P m ∨ ∃ a m₁, x.run m = .done a m₁ ∧
        (Q a m₁ ∨ ∃ b m₂, (f a).run m₁ = .done b m₂ ∧ R b m₂) := by
  constructor
  · rintro ((h | ⟨a, m₁, ha, h⟩) | ⟨b, m₂, hb, h⟩)
    · exact .inl h
    · exact .inr ⟨a, m₁, ha, .inl h⟩
    · -- The third part is reached behind the second one, so the first one has yielded.
      obtain ⟨a, m₁, ha, hb⟩ := run_bind_eq_done hb
      exact .inr ⟨a, m₁, ha, .inr ⟨b, m₂, hb, h⟩⟩
  · rintro (h | ⟨a, m₁, ha, h | ⟨b, m₂, hb, h⟩⟩)
    · exact .inl (.inl h)
    · exact .inl (.inr ⟨a, m₁, ha, h⟩)
    · exact .inr ⟨b, m₂, (run_bind_done ha f).trans hb, h⟩

theorem bind_assoc (x : Eval α) (f : α → Eval β) (g : β → Eval γ) :
    x >>= f >>= g = x >>= fun a => f a >>= g := by
  refine ext_of_iff (fun m => ?_) (fun m m' => ?_) (fun m k m' => ?_) fun m e m' => ?_
  · simp only [run_bind]
    cases x.run m <;> rfl
  · exact assoc_iff x f (P := fun m => x.visits m m') (Q := fun a m => (f a).visits m m')
      (R := fun b m => (g b).visits m m') m
  · exact assoc_iff x f (P := fun m => x.looks m k m') (Q := fun a m => (f a).looks m k m')
      (R := fun b m => (g b).looks m k m') m
  · exact assoc_iff x f (P := fun m => x.raises m e m') (Q := fun a m => (f a).raises m e m')
      (R := fun b m => (g b).raises m e m') m

instance : LawfulMonad Eval :=
  LawfulMonad.mk' Eval (fun x => bind_pure x) (fun a f => pure_bind a f)
    (fun x f g => bind_assoc x f g)

/-! ### Errors -/

/-- The computation that is cut off. -/
def outOfFuel : Eval α := op fun _ => .outOfFuel

/-- Fails with an error. -/
@[inline] def fail (e : RuntimeError) : Eval α := op fun m => .failed e m

/-- Failing raises the error at once. -/
theorem raises_fail (e : RuntimeError) (m : Machine) (e' : RuntimeError) (m' : Machine) :
    (fail e : Eval α).raises m e' m' ↔ e' = e ∧ m' = m := by
  show (.failed e m : Outcome α) = .failed e' m' ↔ e' = e ∧ m' = m
  rw [Outcome.failed.injEq, eq_comm, eq_comm (a := m)]

/-- Fails with a fault at a location. -/
@[inline] def fault (loc : Location) (f : Fault) : Eval α := fail (.fault loc f)

/-- A result that may be a fault at a location. -/
@[inline] def ofExcept (loc : Location) : Except Fault α → Eval α
  | .ok a => pure a
  | .error f => fault loc f

/-! ### Kinds of operations -/

/-- Asks the machine something, which may be a fault at a location. -/
@[inline] def query (loc : Location) (f : Machine → Except Fault α) : Eval α :=
  op fun m =>
    match f m with
    | .ok a => .done a m
    | .error e => .failed (.fault loc e) m

/-- Looks a name up: asks the machine something about it, which may be a fault at a location. -/
@[inline] def lookUp (k : Lookup) (loc : Location) (f : Machine → Except Fault α) : Eval α :=
  { query loc f with looks := fun m k' m' => k' = k ∧ m' = m }

/-- Changes the machine. -/
@[inline] def update (f : Machine → Machine) : Eval Unit := op fun m => .done () (f m)

/-- Changes the machine, unless that is a fault at a location. -/
@[inline] def attempt (loc : Location) (f : Machine → Except Fault Machine) : Eval Unit :=
  op fun m =>
    match f m with
    | .ok m => .done () m
    | .error e => .failed (.fault loc e) m

/-- Makes something in the machine, unless that is a fault at a location. -/
@[inline] def create (loc : Location) (f : Machine → Except Fault (α × Machine)) : Eval α :=
  op fun m =>
    match f m with
    | .ok (a, m) => .done a m
    | .error e => .failed (.fault loc e) m

/-- Asking leaves the machine as it is. -/
theorem eq_of_query {loc : Location} {f : Machine → Except Fault α} {m m' : Machine}
    (h : ((query loc f).run m).machine? = some m') : m' = m := by
  unfold query op at h
  cases hf : f m <;>
  · simp only [hf] at h
    cases h
    rfl

/-- A change is made, or the machine is left as it is. -/
theorem ok_or_eq_of_attempt {loc : Location} {f : Machine → Except Fault Machine} {m m' : Machine}
    (h : ((attempt loc f).run m).machine? = some m') : f m = .ok m' ∨ m' = m := by
  unfold attempt op at h
  cases hf : f m <;>
  · simp only [hf] at h
    cases h
    simp

/-- Something is made, or the machine is left as it is. -/
theorem ok_or_eq_of_create {loc : Location} {f : Machine → Except Fault (α × Machine)}
    {m m' : Machine} (h : ((create loc f).run m).machine? = some m') :
    (∃ a, f m = .ok (a, m')) ∨ m' = m := by
  unfold create op at h
  cases hf : f m with
  | ok r =>
    simp only [hf] at h
    cases h
    exact .inl ⟨r.1, rfl⟩
  | error e =>
    simp only [hf] at h
    cases h
    exact .inr rfl

/-! ### Parts of the machine -/

/-- Notes an event, if anybody follows them. -/
@[inline] def record (e : Event) : Eval Unit := update fun m => m.note e

/-- The number of calls. -/
@[inline] def depth : Eval Nat := op fun m => .done m.stack.depth m

/-- The current function has returned. -/
@[inline] def hasReturned : Eval Bool := op fun m => .done m.stack.current.hasReturned m

/-- Lets the current function return a value. -/
@[inline] def setReturned (v : Value) : Eval Unit :=
  update fun m => m.modifyFrame fun f => f.setReturned v

/-- Begins a statement: no expression has been evaluated in it. -/
@[inline] def clearCache : Eval Unit := update fun m => m.modifyFrame Frame.clearCache

/-- Remembers the value of an expression. -/
@[inline] def remember (node : Nat) (v : Value) : Eval Unit :=
  update fun m => m.modifyFrame fun f => f.remember node v

/-- Notes the start of a statement at `line`. -/
@[inline] def recordStatement (line : Nat) : Eval Unit :=
  update fun m => m.note (.statement line m.stack.current.function)

/-- A computation in a new frame, which is removed at the end whatever the outcome, and the arrays
that it owns with it.  Yields the removed frame. -/
def inFrame (f : Frame) (body : Eval α) : Eval (α × Frame) where
  run m :=
    match body.run (m.enterFrame f) with
    | .done a m => .done (a, m.leaveFrame.1) m.leaveFrame.2
    | .failed e m => .failed e m.leaveFrame.2
    | .outOfFuel => .outOfFuel
  visits m m' :=
    m' = m ∨ body.visits (m.enterFrame f) m' ∨
      ∃ m₁, (body.run (m.enterFrame f)).machine? = some m₁ ∧ m' = m₁.leaveFrame.2
  looks m k m' := body.looks (m.enterFrame f) k m'
  raises m e m' := body.raises (m.enterFrame f) e m'
  visits_start _ := .inl rfl
  visits_end m m' h := by
    refine .inr (.inr ?_)
    cases hb : body.run (m.enterFrame f) with
    | done a m₁ =>
      rw [hb] at h
      exact ⟨m₁, rfl, (Option.some.inj h).symm⟩
    | failed e m₁ =>
      rw [hb] at h
      exact ⟨m₁, rfl, (Option.some.inj h).symm⟩
    | outOfFuel =>
      rw [hb] at h
      cases h
  raises_of_failed m e m' h := by
    cases hb : body.run (m.enterFrame f) with
    | done a m₁ =>
      rw [hb] at h
      cases h
    | failed e' m₁ =>
      rw [hb] at h
      obtain ⟨rfl, -⟩ := Outcome.failed.inj h
      exact body.raises_of_failed _ e' m₁ hb
    | outOfFuel =>
      rw [hb] at h
      cases h
  failed_of_raises m e m₁ h := by
    obtain ⟨m₂, hb, hjournal⟩ := body.failed_of_raises _ e m₁ h
    exact ⟨m₂.leaveFrame.2, by rw [hb], m₂.journal_leaveFrame.trans hjournal⟩
  visits_of_raises m e m₁ h := .inr (.inl (body.visits_of_raises _ e m₁ h))

theorem run_inFrame (f : Frame) (x : Eval α) (m : Machine) :
    (inFrame f x).run m = match x.run (m.enterFrame f) with
      | .done a m => .done (a, m.leaveFrame.1) m.leaveFrame.2
      | .failed e m => .failed e m.leaveFrame.2
      | .outOfFuel => .outOfFuel := rfl

/-- If a frame yields something, the body has been done in it. -/
theorem run_inFrame_eq_done {f : Frame} {x : Eval α} {m m' : Machine} {r : α × Frame}
    (h : (inFrame f x).run m = .done r m') :
    ∃ a m₁, x.run (m.enterFrame f) = .done a m₁ ∧ r = (a, m₁.leaveFrame.1) ∧
      m' = m₁.leaveFrame.2 := by
  rw [run_inFrame] at h
  split at h
  · next a m₁ hx =>
    obtain ⟨rfl, rfl⟩ := Outcome.done.inj h
    exact ⟨a, m₁, hx, rfl, rfl⟩
  · cases h
  · cases h

/-- However the body ends, its frame has been left. -/
theorem machine?_inFrame {f : Frame} {x : Eval α} {m m' : Machine}
    (h : ((inFrame f x).run m).machine? = some m') :
    ∃ m₁, (x.run (m.enterFrame f)).machine? = some m₁ ∧ m' = m₁.leaveFrame.2 := by
  rw [run_inFrame] at h
  cases hx : x.run (m.enterFrame f) with
  | done a m₁ =>
    rw [hx] at h
    exact ⟨m₁, rfl, (Option.some.inj h).symm⟩
  | failed e m₁ =>
    rw [hx] at h
    exact ⟨m₁, rfl, (Option.some.inj h).symm⟩
  | outOfFuel =>
    rw [hx] at h
    cases h

/-! ### Variables and places -/

/-- The value of the variable `link`: that of the current call, else the global one. -/
@[inline] def readName (name : String) (link : Option Nat) (loc : Location) : Eval Value :=
  lookUp ⟨name, link⟩ loc fun m => m.readName name link

/-- Where the variable `link` is stored: in the frame of the current call, else globally. -/
@[inline] def placeOfName (name : String) (link : Option Nat) (isArray : Nat → Bool)
    (loc : Location) : Eval Place :=
  lookUp ⟨name, link⟩ loc fun m => m.placeOfName name link isArray

/-- The value at a place; a variable without one counts as never written. -/
@[inline] def readPlace (place : Place) (loc : Location) : Eval Value :=
  query loc fun m => m.readPlace place

/-- Replaces the value at a place; a variable without one stays so. -/
@[inline] def writePlace (place : Place) (v : Value) (loc : Location) : Eval Unit :=
  attempt loc fun m => m.writePlace place v

/-- A pointer to follow. -/
def expectPointer (v : Value) (loc : Location) : Eval Pointer :=
  match v with
  | .pointer p => pure p
  | .uninitialized => fault loc (.uninitializedRead .pointer)
  | .integer n => fault loc (.invalidDereference (.integer n))

/-- Gives a declared variable a value, globally or in the current call. -/
@[inline] def bindVariable (isGlobal : Bool) (id : Nat) (v : Value) : Eval Unit :=
  update fun m => m.bindVariable isGlobal id v

end Eval

end MiniC
