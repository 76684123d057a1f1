import MiniC.Proofs.Agreement
import MiniC.Proofs.Isolation
import MiniC.Structured

/-!
# A noted return is a structured one

The interpreter notes a `return` in the frame and looks at the note in several places; the
structured semantics hands the returned value on.  We show that a statement does the same in both,
if every `for` in it begins as a parser reads it and the function has not returned yet: both end
alike, with machines that are the same but for the notes, and the note tells what the structured
statement returned.

The induction is on statements, and for loops on the bound of their iterations.  It carries a second
fact about the noted semantics: there is one value that the frame can be seen to have returned, from
the start of the statement to its end.

Main definitions:

* `MiniC.Blur.notes`: forgetting the notes;
* `MiniC.Eval.MirrorsAt`, `MiniC.Eval.Mirrors`: a noted computation does what a structured one does;
* `MiniC.Eval.Skips`: a computation does nothing once the function has returned.

Main results:

* `MiniC.skips_execStmt`: no statement does anything after the return;
* `MiniC.mirrors_execStmt`: statements mirror structured ones, if calls agree;
* `MiniC.agree_structuredCall`: calls agree;
* `MiniC.return_is_structured`: so statements of parsed programs mirror structured ones.
-/

set_option autoImplicit false

namespace MiniC

/-- Forgetting the notes on what functions have returned. -/
def Blur.notes : Blur := ⟨false, true, false⟩

namespace Eval

variable {α β : Type}

/-! ### What a frame has returned -/

/-- From `m`, the computation `x` lets the current frame return `r` at the end, and nothing else on
the way; what the frame has returned before stays. -/
structure Settles (x : Eval α) (m : Machine) (r : Option Value) : Prop where
  stays : m.stack.current.returned ≠ none → r = m.stack.current.returned
  visited {m₁ : Machine} : x.visits m m₁ → ∃ above f,
    m₁.stack.current :: m₁.stack.callers = above ++ f :: m.stack.callers ∧
      (f.returned = m.stack.current.returned ∨ f.returned = r)
  done {a : α} {m₁ : Machine} : x.run m = .done a m₁ →
    m₁.stack.callers = m.stack.callers ∧ m₁.stack.current.returned = r

/-- What keeps the note in a frame settles on that. -/
theorem IsolatedAt.settles {limit : Nat} {x : Eval α} {m : Machine}
    (hx : x.IsolatedAt limit Frame.KeepsReturned m) : x.Settles m m.stack.current.returned where
  stays _ := rfl
  visited h := by
    obtain ⟨above, f, hf, hreturned⟩ := (hx.above h).frames
    exact ⟨above, f, hf, .inl hreturned⟩
  done h := by
    have hend : (x.run m).machine? = _ := congrArg Outcome.machine? h
    exact ⟨hx.callers_eq hend, hx.current hend⟩

/-- A sequence settles on what its second part settles on, if that is reached. -/
theorem Settles.bind {x : Eval α} {f : α → Eval β} {m : Machine} {r : Option Value}
    (hx : x.Settles m r) (hf : ∀ a m₁, x.run m = .done a m₁ → ∃ r', (f a).Settles m₁ r') :
    ∃ r', (x >>= f).Settles m r' := by
  by_cases hdone : ∃ a m₁, x.run m = .done a m₁
  · obtain ⟨a, m₁, hrun⟩ := hdone
    obtain ⟨r', hr'⟩ := hf a m₁ hrun
    obtain ⟨hcallers, hreturned⟩ := hx.done hrun
    -- Once there is a note, both parts settle on it.
    have hkeeps : r ≠ none → r' = r := fun hr => by
      rw [hr'.stays (by rwa [hreturned]), hreturned]
    -- So what the frame is seen to have returned in the first part is old, or what it ends with.
    have hnote : ∀ g : Frame, g.returned = r → g.returned = m.stack.current.returned ∨
        g.returned = r' := by
      intro g hg
      by_cases hr : r = none
      · by_cases hm : m.stack.current.returned = none
        · exact .inl (by rw [hg, hr, hm])
        · exact absurd (hx.stays hm ▸ hr) hm
      · exact .inr (by rw [hg, hkeeps hr])
    refine ⟨r', ⟨fun hm => ?_, fun {m₂} h => ?_, fun {b m₂} h => ?_⟩⟩
    · have hr := hx.stays hm
      rw [hkeeps (by rwa [hr]), hr]
    · rcases h with h | ⟨a', m₁', ha', h⟩
      · obtain ⟨above, g, hg, hold | hnew⟩ := hx.visited h
        · exact ⟨above, g, hg, .inl hold⟩
        · exact ⟨above, g, hg, hnote g hnew⟩
      · rw [hrun] at ha'
        cases ha'
        obtain ⟨above, g, hg, hold | hnew⟩ := hr'.visited h
        · exact ⟨above, g, by rw [hg, hcallers], hnote g (hold.trans hreturned)⟩
        · exact ⟨above, g, by rw [hg, hcallers], .inr hnew⟩
    · rw [run_bind_done hrun] at h
      obtain ⟨hcallers', hreturned'⟩ := hr'.done h
      exact ⟨hcallers'.trans hcallers, hreturned'⟩
  · -- The second part is not reached.
    refine ⟨r, ⟨hx.stays, fun h => ?_, fun h => ?_⟩⟩
    · rcases h with h | ⟨a, m₁, hrun, -⟩
      · exact hx.visited h
      · exact absurd ⟨a, m₁, hrun⟩ hdone
    · obtain ⟨a, m₁, hrun, -⟩ := run_bind_eq_done h
      exact absurd ⟨a, m₁, hrun⟩ hdone

/-- Two computations agree but for the notes, and the first one notes nothing in its own frame. -/
structure Quiet (limit : Nat) (x y : Eval α) : Prop where
  agree : Agree Blur.notes x y
  keeps : x.Isolated limit Frame.KeepsReturned

theorem Quiet.bind {limit : Nat} {x y : Eval α} {f g : α → Eval β} (hxy : Quiet limit x y)
    (hfg : ∀ a, Quiet limit (f a) (g a)) : Quiet limit (x >>= f) (y >>= g) :=
  ⟨hxy.agree.bind fun a => (hfg a).agree, hxy.keeps.bind fun a => (hfg a).keeps⟩

theorem quiet_pure {limit : Nat} (a : α) : Quiet limit (pure a) (pure a) :=
  ⟨agree_pure a, isolated_pure a⟩

theorem quiet_clearCache (limit : Nat) : Quiet limit clearCache clearCache :=
  ⟨agree_modifyFrame fun _ => rfl, isolated_update fun _ => ⟨rfl, rfl⟩⟩

theorem quiet_recordStatement (limit line : Nat) :
    Quiet limit (recordStatement line) (recordStatement line) where
  agree := agree_update fun m => by
    rw [← Blur.note, ← Blur.note, Blur.machine_machine]
    rfl
  keeps := isolated_update fun m => by
    rw [Machine.stack_note]
    exact ⟨rfl, rfl⟩

/-! ### Mirrors -/

/-- From `m` the computation `x` does what the structured `y` does from `m'`, and what `y` returns
is noted in the frame at the end of `x`. -/
structure MirrorsAt (x : Eval Unit) (y : Eval Completion) (m m' : Machine) : Prop where
  ends : Outcome.Alike
    (fun _ m₁ exit m₁' => m₁.stack.current.returned = exit.value? ∧ Blur.notes.Same m₁ m₁')
    Blur.notes.Same (x.run m) (y.run m')
  settles : ∃ r, x.Settles m r

/-- From a frame that has not returned, `x` does what the structured `y` does. -/
def Mirrors (x : Eval Unit) (y : Eval Completion) : Prop :=
  ∀ m m', Blur.notes.Same m m' → m.stack.current.returned = none → MirrorsAt x y m m'

/-- Once the function has returned, the computation does nothing. -/
def Skips (x : Eval Unit) : Prop :=
  ∀ m, m.stack.current.hasReturned = true →
    x.run m = .done () m ∧ ∀ m', x.visits m m' → m' = m

/-- Doing nothing mirrors the exit that the frame has noted. -/
theorem mirrorsAt_of_nothing {x : Eval Unit} {exit : Completion} {m m' : Machine}
    (hrun : x.run m = .done () m) (hvisits : ∀ m₁, x.visits m m₁ → m₁ = m)
    (hm : Blur.notes.Same m m') (hexit : m.stack.current.returned = exit.value?) :
    MirrorsAt x (pure exit) m m' where
  ends := by
    rw [hrun]
    exact .done ⟨hexit, hm⟩
  settles := by
    refine ⟨m.stack.current.returned, ⟨fun _ => rfl, fun {m₁} h => ?_, fun {_ m₁} h => ?_⟩⟩
    · rw [hvisits m₁ h]
      exact ⟨[], _, rfl, .inl rfl⟩
    · rw [hrun] at h
      cases h
      exact ⟨rfl, rfl⟩

theorem mirrorsAt_pure {exit : Completion} {m m' : Machine} (hm : Blur.notes.Same m m')
    (hexit : m.stack.current.returned = exit.value?) : MirrorsAt (pure ()) (pure exit) m m' :=
  mirrorsAt_of_nothing rfl (fun m₁ h => (visits_pure () m m₁).1 h) hm hexit

/-- To do nothing is right once the value has been returned. -/
theorem Skips.mirrorsAt {x : Eval Unit} (hx : Skips x) {v : Value} {m m' : Machine}
    (hm : Blur.notes.Same m m') (hv : m.stack.current.returned = some v) :
    MirrorsAt x (pure (.returned v)) m m' := by
  have hreturned : m.stack.current.hasReturned = true := by
    rw [Frame.hasReturned, hv]
    rfl
  exact mirrorsAt_of_nothing (hx m hreturned).1 (hx m hreturned).2 hm hv

/-- A sequence mirrors a structured one, if the first parts end alike and the second parts mirror
each other from there. -/
theorem MirrorsAt.of_bind {x : Eval α} {y : Eval β} {f : α → Eval Unit} {g : β → Eval Completion}
    {Q : α → Machine → β → Machine → Prop} {m m' : Machine}
    (hends : Outcome.Alike Q Blur.notes.Same (x.run m) (y.run m'))
    (hsettles : ∃ r, x.Settles m r)
    (hfg : ∀ a b m₁ m₁', x.run m = .done a m₁ → y.run m' = .done b m₁' → Q a m₁ b m₁' →
      MirrorsAt (f a) (g b) m₁ m₁') :
    MirrorsAt (x >>= f) (y >>= g) m m' where
  ends := by
    rw [run_bind, run_bind]
    generalize hx : x.run m = o, hy : y.run m' = o' at hends
    cases hends with
    | done hQ => exact (hfg _ _ _ _ hx hy hQ).ends
    | failed e hm => exact .failed e hm
    | outOfFuel => exact .outOfFuel
  settles := by
    obtain ⟨r, hr⟩ := hsettles
    refine hr.bind fun a m₁ hx => ?_
    rw [hx] at hends
    generalize hy : y.run m' = o' at hends
    cases hends with
    | done hQ => exact (hfg _ _ _ _ hx hy hQ).settles

/-- A statement after another one, whichever exit that took. -/
theorem MirrorsAt.bind {x : Eval Unit} {y : Eval Completion} {f : Unit → Eval Unit}
    {g : Completion → Eval Completion} {m m' : Machine} (hxy : MirrorsAt x y m m')
    (hfg : ∀ exit m₁ m₁', y.run m' = .done exit m₁' → Blur.notes.Same m₁ m₁' →
      m₁.stack.current.returned = exit.value? → MirrorsAt (f ()) (g exit) m₁ m₁') :
    MirrorsAt (x >>= f) (y >>= g) m m' :=
  .of_bind hxy.ends hxy.settles fun _ exit m₁ m₁' _ hy hQ => hfg exit m₁ m₁' hy hQ.2 hQ.1

/-- A statement after an expression, which leaves what the frame has returned. -/
theorem MirrorsAt.after {x y : Eval α} {f : α → Eval Unit} {g : α → Eval Completion} {limit : Nat}
    {m m' : Machine} (hxy : Quiet limit x y) (hm : Blur.notes.Same m m')
    (hfg : ∀ a m₁ m₁', Blur.notes.Same m₁ m₁' →
      m₁.stack.current.returned = m.stack.current.returned → MirrorsAt (f a) (g a) m₁ m₁') :
    MirrorsAt (x >>= f) (y >>= g) m m' := by
  refine .of_bind (hxy.agree m m' hm) ⟨_, (hxy.keeps m).settles⟩ fun a b m₁ m₁' hrun _ hQ => ?_
  obtain ⟨rfl, hm₁⟩ := hQ
  have hend : (x.run m).machine? = some m₁ := by
    rw [hrun]
    rfl
  exact hfg a m₁ m₁' hm₁ ((hxy.keeps m).current hend)

/-- The same from a frame that has not returned. -/
theorem Mirrors.after {x y : Eval α} {f : α → Eval Unit} {g : α → Eval Completion} {limit : Nat}
    (hxy : Quiet limit x y) (hfg : ∀ a, Mirrors (f a) (g a)) : Mirrors (x >>= f) (y >>= g) :=
  fun _ _ hm hnone =>
    .after hxy hm fun a m₁ m₁' hm₁ hreturned => hfg a m₁ m₁' hm₁ (hreturned.trans hnone)

/-- Looking at the note settles which of two computations follows. -/
theorem MirrorsAt.hasReturned {k : Bool → Eval Unit} {y : Eval Completion} {m m' : Machine}
    (b : Bool) (hb : m.stack.current.hasReturned = b) (h : MirrorsAt (k b) y m m') :
    MirrorsAt (hasReturned >>= k) y m m' where
  ends := by
    have hrun : (Eval.hasReturned >>= k).run m = (k m.stack.current.hasReturned).run m := rfl
    rw [hrun, hb]
    exact h.ends
  settles := by
    obtain ⟨r, hr⟩ := h.settles
    have hx : Eval.hasReturned.Isolated 0 Frame.KeepsReturned := isolated_hasReturned
    refine (hx m).settles.bind fun a m₁ hrun => ?_
    cases hrun
    rw [hb]
    exact ⟨r, hr⟩

/-- What the note says about the exit. -/
theorem hasReturned_eq {f : Frame} {exit : Completion} (h : f.returned = exit.value?) :
    f.hasReturned = exit.value?.isSome := by
  rw [Frame.hasReturned, h]

theorem mirrors_nothing : Mirrors (pure ()) (pure .normal) := fun _ _ hm hnone =>
  mirrorsAt_pure hm hnone

/-- A computation that notes nothing mirrors the structured statement that falls through. -/
theorem Quiet.mirrors {limit : Nat} {x y : Eval Unit} (hxy : Quiet limit x y) :
    Mirrors x (Structured.falling y) := by
  rw [← bind_pure x]
  exact .after hxy fun _ => mirrors_nothing

theorem mirrors_fail (e : RuntimeError) : Mirrors (fail e) (fail e) := fun m _ hm _ =>
  have hkeeps : (fail e : Eval Unit).Isolated 0 Frame.KeepsReturned := isolated_fail e
  ⟨.failed e hm, _, (hkeeps m).settles⟩

theorem mirrors_outOfFuel : Mirrors outOfFuel outOfFuel := fun m _ _ _ =>
  have hkeeps : (outOfFuel : Eval Unit).Isolated 0 Frame.KeepsReturned := isolated_outOfFuel
  ⟨.outOfFuel, _, (hkeeps m).settles⟩

/-- The note of a returned value is its return. -/
theorem mirrors_setReturned (v : Value) : Mirrors (setReturned v) (pure (.returned v)) :=
  fun m m' hm hnone =>
    { ends := by
        refine .done ⟨rfl, ?_⟩
        show Blur.notes.machine (m.modifyFrame _) = Blur.notes.machine m'
        rw [← hm]
        rfl
      settles := by
        refine ⟨some v, ⟨fun h => absurd hnone h, fun {m₁} h => ?_, fun {_ m₁} h => ?_⟩⟩
        · rcases h with rfl | h
          · exact ⟨[], _, rfl, .inl rfl⟩
          · cases h
            exact ⟨[], _, rfl, .inr rfl⟩
        · cases h
          exact ⟨rfl, rfl⟩ }

/-! ### Guards and loops -/

/-- A statement does nothing once the function has returned. -/
theorem skips_statement (loc : Location) (x : Eval Unit) : Skips (statement loc x) := by
  intro m hm
  have hguard : ∀ b m₁, hasReturned.run m = .done b m₁ → b = true ∧ m₁ = m := by
    intro b m₁ h
    cases h
    exact ⟨hm, rfl⟩
  refine ⟨?_, fun m' h => ?_⟩
  · show ((if m.stack.current.hasReturned then pure () else _ : Eval Unit).run m) = _
    rw [hm]
    rfl
  · rcases h with (rfl | h) | ⟨b, m₁, hb, h⟩
    · rfl
    · cases h
      rfl
    · obtain ⟨rfl, rfl⟩ := hguard b m₁ hb
      exact (visits_pure () m₁ m').1 h

theorem mirrors_statement (loc : Location) {x : Eval Unit} {y : Eval Completion}
    (hxy : Mirrors x y) : Mirrors (statement loc x) (Structured.statement loc y) := by
  intro m m' hm hnone
  have hfalse : m.stack.current.hasReturned = Completion.normal.value?.isSome :=
    hasReturned_eq hnone
  have hnext := Mirrors.after (quiet_recordStatement 0 loc.line) fun _ => hxy
  exact .hasReturned false hfalse (hnext m m' hm hnone)

/-- One statement after another, which does nothing if the first one has returned. -/
theorem Mirrors.andThen {x z : Eval Unit} {y w : Eval Completion} (hxy : Mirrors x y)
    (hzw : Mirrors z w) (hz : Skips z) : Mirrors (x >>= fun _ => z) (Structured.andThen y w) := by
  intro m m' hm hnone
  refine (hxy m m' hm hnone).bind fun exit m₁ m₁' _ hm₁ hexit => ?_
  cases exit with
  | normal => exact hzw m₁ m₁' hm₁ hexit
  | returned v => exact hz.mirrorsAt hm₁ hexit

section Loops

variable {limit : Nat} {c c' : Eval Bool} {x : Eval Unit} {y : Eval Completion}
  (hc : Quiet limit c c') (hxy : Mirrors x y)

include hc hxy

/-- A `while` looks at the note behind its body; that is where the structured one is left. -/
theorem mirrors_whileLoop (bound : Nat) :
    Mirrors (whileLoop c x bound) (Structured.whileLoop c' y bound) := by
  induction bound with
  | zero => exact mirrors_outOfFuel
  | succ bound ih =>
    refine .after (quiet_clearCache 0) fun _ => .after hc fun b => ?_
    cases b with
    | false => exact mirrors_nothing
    | true =>
      intro m m' hm hnone
      refine (hxy m m' hm hnone).bind fun exit m₁ m₁' _ hm₁ hexit => ?_
      refine .hasReturned _ (hasReturned_eq hexit) ?_
      cases exit with
      | normal => exact ih m₁ m₁' hm₁ hexit
      | returned v => exact mirrorsAt_pure hm₁ hexit

/-- A `for` looks at the note behind its step, which leaves the note as it is. -/
theorem mirrors_forLoop {s s' : Eval Unit} (hs : Quiet limit s s') (bound : Nat) :
    Mirrors (forLoop c s x bound) (Structured.forLoop c' s' y bound) := by
  induction bound with
  | zero => exact mirrors_outOfFuel
  | succ bound ih =>
    refine .after hc fun b => ?_
    cases b with
    | false => exact mirrors_nothing
    | true =>
      intro m m' hm hnone
      refine (hxy m m' hm hnone).bind fun exit m₁ m₁' _ hm₁ hexit => ?_
      -- The step keeps the note of the body, so the check behind it tells what that returned.
      refine .after hs hm₁ fun _ m₂ m₂' hm₂ hstep => ?_
      have hexit₂ := hstep.trans hexit
      refine .hasReturned _ (hasReturned_eq hexit₂) ?_
      cases exit with
      | normal => exact ih m₂ m₂' hm₂ hexit₂
      | returned v => exact mirrorsAt_pure hm₂ hexit₂

end Loops

end Eval

open Eval

/-! ### Statements -/

/-- Once the function has returned, a statement does nothing. -/
theorem skips_execStmt (env : Env) (bound : Nat) (s : Stmt) : Skips (execStmt env bound s) := by
  cases s <;> exact skips_statement _ _

theorem skips_execAll (env : Env) (bound : Nat) (ss : List Stmt) :
    Skips (execAll env bound ss) := by
  induction ss with
  | nil => exact fun m _ => ⟨rfl, fun m' h => (visits_pure () m m').1 h⟩
  | cons s ss ih =>
    intro m hm
    obtain ⟨hrun, hvisits⟩ := skips_execStmt env bound s m hm
    obtain ⟨hrun', hvisits'⟩ := ih m hm
    refine ⟨(run_bind_done hrun _).trans hrun', ?_⟩
    rintro m' (h | ⟨_, m₁, hm₁, h⟩)
    · exact hvisits m' h
    · rw [hrun] at hm₁
      cases hm₁
      exact hvisits' m' h

/-- A clause of a `for` does not return. -/
theorem exit_of_isClause {env : Env} {bound : Nat} {s : Stmt} (hs : s.isClause = true)
    {m m' : Machine} {exit : Completion}
    (h : (Structured.execStmt env bound s).run m = .done exit m') : exit = .normal := by
  have hfalling : ∀ (loc : Location) (x : Eval Unit),
      (Structured.statement loc (Structured.falling x)).run m = .done exit m' → exit = .normal := by
    intro loc x h
    obtain ⟨_, m₁, -, h⟩ := run_bind_eq_done h
    obtain ⟨_, m₂, -, h⟩ := run_bind_eq_done h
    cases h
    rfl
  cases s with
  | declare loc vs => exact hfalling _ _ h
  | eval loc e => exact hfalling _ _ h
  | _ => cases hs

section Statements

variable {ctx : Context} {fuel : Nat}
  (hcall : ∀ f vs loc, Agree Blur.notes (ctx.call fuel f vs loc) (ctx.structuredCall fuel f vs loc))

/-- Expressions and declarations do not read the notes. -/
theorem declSimulation_notes (scope : Nat → Option Bool) :
    DeclSimulation .equal scope (Agree Blur.notes) (Agree Blur.notes) :=
  declSimulation_agree (fun _ _ h => .inr (congrArg Node.id h)) (fun _ h => False.elim h) scope

include hcall

theorem quiet_evalExpr (e : Expr) : Quiet ctx.config.maxCallDepth (evalExpr (ctx.env fuel) e)
    (evalExpr (ctx.structuredEnv fuel) e) where
  agree := (declSimulation_notes fun _ => none).evalExpr (ctx.declarations_structuredEnv fuel)
    hcall e (.refl (fun _ => rfl) (fun _ => trivial) e)
  keeps m := (isolated_evalExpr ctx fuel e m).mono fun _ _ h => h.returned_eq

theorem quiet_evalCondition (e : Expr) (loc : Location) : Quiet ctx.config.maxCallDepth
    (evalCondition (ctx.env fuel) e loc) (evalCondition (ctx.structuredEnv fuel) e loc) := by
  refine (quiet_evalExpr hcall e).bind fun v => ?_
  cases v.truthy? with
  | some b => exact quiet_pure b
  | none => exact ⟨agree_fail _, isolated_fail _⟩

theorem quiet_evalStep (e : Expr) : Quiet ctx.config.maxCallDepth (evalStep (ctx.env fuel) e)
    (evalStep (ctx.structuredEnv fuel) e) :=
  (quiet_clearCache _).bind fun _ => (quiet_evalExpr hcall e).bind fun _ => quiet_pure ()

theorem quiet_forCondition (loc : Location) (c : Option Expr) : Quiet ctx.config.maxCallDepth
    (forCondition (ctx.env fuel) loc c) (forCondition (ctx.structuredEnv fuel) loc c) := by
  cases c with
  | none => exact quiet_pure true
  | some e => exact (quiet_clearCache _).bind fun _ => quiet_evalCondition hcall e loc

theorem quiet_forStep (e : Option Expr) : Quiet ctx.config.maxCallDepth
    (forStep (ctx.env fuel) e) (forStep (ctx.structuredEnv fuel) e) := by
  cases e with
  | none => exact quiet_pure ()
  | some e => exact quiet_evalStep hcall e

theorem quiet_returnValue (e : Option Expr) : Quiet ctx.config.maxCallDepth
    (returnValue (ctx.env fuel) e) (returnValue (ctx.structuredEnv fuel) e) := by
  cases e with
  | none => exact quiet_pure _
  | some e => exact quiet_evalExpr hcall e

theorem quiet_declareAll (vs : List Variable) : Quiet ctx.config.maxCallDepth
    (declareAll (ctx.env fuel) vs) (declareAll (ctx.structuredEnv fuel) vs) where
  agree := (declSimulation_notes _).declareAll (ctx.declarations_structuredEnv fuel) hcall
    (List.forall₂_same.2 fun _ _ => .refl (fun _ => rfl) (fun _ => trivial) trivial)
  keeps :=
    have hkeeps : ∀ f g : Frame, g.function = f.function → g.returned = f.returned →
        f.KeepsReturned g := fun _ _ _ h => h
    (declSimulation_isolated _ _ hkeeps).declareAll rfl (isolated_call ctx fuel)
      (List.forall₂_same.2 fun _ _ => .refl (fun _ => rfl) (fun _ => trivial) trivial)

end Statements

mutual

/-- A statement with plain loops mirrors the structured one. -/
theorem mirrors_execStmt {ctx : Context} {fuel : Nat}
    (hcall : ∀ f vs loc,
      Agree Blur.notes (ctx.call fuel f vs loc) (ctx.structuredCall fuel f vs loc))
    (bound : Nat) : (s : Stmt) → s.hasPlainLoops = true →
    Mirrors (execStmt (ctx.env fuel) bound s)
      (Structured.execStmt (ctx.structuredEnv fuel) bound s)
  | .block loc ss, h => mirrors_statement loc (mirrors_execAll hcall bound ss h)
  | .declare loc vs, _ =>
    mirrors_statement loc ((quiet_clearCache _).bind fun _ => quiet_declareAll hcall vs).mirrors
  | .eval loc e, _ => mirrors_statement loc (quiet_evalStep hcall e).mirrors
  | .branch loc c t f, h => by
    obtain ⟨ht, hf⟩ := Bool.and_eq_true_iff.1 h
    have onTrue := mirrors_execStmt hcall bound t ht
    have onFalse := mirrors_execOption hcall bound f hf
    refine mirrors_statement loc <| .after (quiet_clearCache 0) fun _ =>
      .after (quiet_evalCondition hcall c loc) fun b => ?_
    cases b with
    | true => exact onTrue
    | false => exact onFalse
  | .whileLoop loc c b, h =>
    mirrors_statement loc <|
      mirrors_whileLoop (quiet_evalCondition hcall c loc) (mirrors_execStmt hcall bound b h) bound
  | .forLoop loc i c s b, h => by
    obtain ⟨hi, hb⟩ := Bool.and_eq_true_iff.1 h
    have first := mirrors_execOption hcall bound i (Stmt.optionHasPlainLoops_of_isClause hi)
    have loop := mirrors_forLoop (quiet_forCondition hcall loc c)
      (mirrors_execStmt hcall bound b hb) (quiet_forStep hcall s) bound
    refine mirrors_statement loc fun m m' hm hnone => ?_
    refine (first m m' hm hnone).bind fun exit m₁ m₁' hrun hm₁ hexit => ?_
    -- The loop does not look at the note before it starts, but its first clause leaves none.
    obtain rfl : exit = .normal := by
      cases i with
      | none => cases hrun; rfl
      | some i => exact exit_of_isClause hi hrun
    exact loop m₁ m₁' hm₁ hexit
  | .ret loc e, _ =>
    mirrors_statement loc <| .after (quiet_clearCache 0) fun _ =>
      .after (quiet_returnValue hcall e) mirrors_setReturned
  | .empty loc, _ => mirrors_statement loc mirrors_nothing
  | .doLoop loc _ _, _ => mirrors_statement loc (mirrors_fail _)
  | .leave loc, _ => mirrors_statement loc (mirrors_fail _)
  | .next loc, _ => mirrors_statement loc (mirrors_fail _)

/-- Lists of statements mirror structured ones. -/
theorem mirrors_execAll {ctx : Context} {fuel : Nat}
    (hcall : ∀ f vs loc,
      Agree Blur.notes (ctx.call fuel f vs loc) (ctx.structuredCall fuel f vs loc))
    (bound : Nat) : (ss : List Stmt) → Stmt.allHavePlainLoops ss = true →
    Mirrors (execAll (ctx.env fuel) bound ss)
      (Structured.execAll (ctx.structuredEnv fuel) bound ss)
  | [], _ => mirrors_nothing
  | s :: ss, h => by
    obtain ⟨hs, hss⟩ := Bool.and_eq_true_iff.1 h
    exact (mirrors_execStmt hcall bound s hs).andThen (mirrors_execAll hcall bound ss hss)
      (skips_execAll (ctx.env fuel) bound ss)

/-- Optional statements mirror structured ones. -/
theorem mirrors_execOption {ctx : Context} {fuel : Nat}
    (hcall : ∀ f vs loc,
      Agree Blur.notes (ctx.call fuel f vs loc) (ctx.structuredCall fuel f vs loc))
    (bound : Nat) : (o : Option Stmt) →
    Stmt.optionHasPlainLoops o = true →
    Mirrors (execOption (ctx.env fuel) bound o)
      (Structured.execOption (ctx.structuredEnv fuel) bound o)
  | none, _ => mirrors_nothing
  | some s, h => mirrors_execStmt hcall bound s h

end

/-! ### Calls -/

theorem agree_callNamed (p : Program)
    {call call' : Function → List Value → Location → Eval Value}
    (hcall : ∀ f ∈ p.functions, ∀ args loc,
      Agree Blur.notes (call f args loc) (call' f args loc))
    (name : String) (args : List Value) (loc : Location) :
    Agree Blur.notes (p.callNamed call name args loc) (p.callNamed call' name args loc) := by
  unfold Program.callNamed
  dsimp only
  cases ((p.function? name).bind Function.intrinsic).or (Intrinsic.ofName? name) with
  | some i => exact (declSimulation_notes fun _ => none).callIntrinsic i args loc
  | none =>
    cases hf : p.function? name with
    | some f => exact hcall f (Program.mem_of_function? hf) args loc
    | none => exact agree_fail _

/-- Calls of functions with plain loops agree with structured calls: the note of a body that has
ended is its exit. -/
theorem agree_callWithin {ctx : Context} {fuel : Nat}
    (hcall : ∀ f vs loc,
      Agree Blur.notes (ctx.call fuel f vs loc) (ctx.structuredCall fuel f vs loc))
    {f : Function} (hf : ∀ s ∈ f.body, s.hasPlainLoops = true) (args : List Value)
    (loc : Location) :
    Agree Blur.notes (callFunction ctx fuel f args loc)
      (Structured.callWithin ctx.config.maxCallDepth
        (Structured.execStmt (ctx.structuredEnv fuel) fuel) f args loc) := by
  unfold callFunction callWithin Structured.callWithin
  cases hb : f.body with
  | none => exact agree_fail _
  | some s =>
    refine agree_enter f args loc fun m m' hm hnone => ?_
    have hbody := mirrors_execStmt hcall fuel s (hf s hb) m m' hm hnone
    refine hbody.ends.mono (fun _ m₁ exit m₁' _ h => ?_) fun _ _ h => h
    obtain ⟨hexit, hm₁⟩ := h
    exact ⟨congrArg (·.getD .uninitialized) hexit, hm₁⟩

/-- Calls by name agree with structured calls. -/
theorem agree_structuredCall {ctx : Context} (hp : ctx.program.WellFormed) (fuel : Nat)
    (name : String) (args : List Value) (loc : Location) :
    Agree Blur.notes (ctx.call fuel name args loc) (ctx.structuredCall fuel name args loc) := by
  induction fuel generalizing name args loc with
  | zero => exact agree_outOfFuel
  | succ fuel ih =>
    exact agree_callNamed ctx.program (fun f hf => agree_callWithin ih (hp.loops f hf)) name args
      loc

/-! ### Parsed programs -/

/-- The statements of a well-formed program have plain loops. -/
theorem Program.WellFormed.hasPlainLoops {p : Program} (hp : p.WellFormed) {s : Stmt}
    (hs : s ∈ p.stmts) : s.hasPlainLoops = true := by
  obtain ⟨f, hf, hs⟩ := List.mem_flatMap.1 hs
  refine Stmt.hasPlainLoops_of_mem_allOfOption f.body ?_ hs
  have hloops := hp.loops f hf
  cases hb : f.body with
  | none => rfl
  | some body => exact hloops body hb

/-- A noted return is a structured one.  Let a statement of a parsed program be executed from a
frame that has not returned.  Then it ends as its structured meaning does: it fails with the same
error, or it leaves noted in the frame what that has returned; bindings, globals, memory, input and
output are the same.  From a frame that has returned it does nothing.  In any case the frame is seen
to have returned one value at most on the way, and no expression changes what it has returned. -/
theorem return_is_structured {p : Program} (hp : p.Parsed) (config : Config) (fuel bound : Nat)
    {s : Stmt} (hs : s ∈ p.stmts) :
    let ctx : Context := ⟨p, config⟩
    let noted := execStmt (ctx.env fuel) bound s
    let structured := Structured.execStmt (ctx.structuredEnv fuel) bound s
    (∀ m, m.stack.current.returned = none →
      Outcome.Alike
        (fun _ m₁ exit m₁' => m₁.stack.current.returned = exit.value? ∧
          m₁.stack.callers = m.stack.callers ∧ Blur.notes.Same m₁ m₁')
        Blur.notes.Same (noted.run m) (structured.run m)) ∧
    (∀ m, m.stack.current.hasReturned = true →
      noted.run m = .done () m ∧ ∀ m', noted.visits m m' → m' = m) ∧
    (∀ m, ∃ r, noted.Settles m r) ∧
    ∀ e, (evalExpr (ctx.env fuel) e).Isolated config.maxCallDepth Frame.KeepsReturned := by
  intro ctx noted structured
  have hcall : ∀ name args loc,
      Agree Blur.notes (ctx.call fuel name args loc) (ctx.structuredCall fuel name args loc) :=
    agree_structuredCall hp.wellFormed fuel
  have hmirrors := mirrors_execStmt hcall bound s (hp.wellFormed.hasPlainLoops hs)
  have hskips : Skips noted := skips_execStmt (ctx.env fuel) bound s
  refine ⟨fun m hm => ?_, hskips, fun m => ?_, fun e => (quiet_evalExpr hcall e).keeps⟩
  · refine (hmirrors m m rfl hm).ends.mono (fun _ m₁ exit m₁' hrun h => ?_) fun _ _ h => h
    have hend : (noted.run m).machine? = some m₁ := congrArg Outcome.machine? hrun
    exact ⟨h.1, (isolated_execStmt ctx fuel bound s m).callers_eq hend, h.2⟩
  · cases hm : m.stack.current.returned with
    | none => exact (hmirrors m m rfl hm).settles
    | some v => exact (hskips.mirrorsAt rfl hm).settles

/-- A program that returns inside of a loop whose step is a call. -/
def stepping : Program :=
  .ofText "int f(int n) { return n + 1; }
    int main() { int i; for (i = 0; i < 9; i = f(i)) while (i == 1) return i; }"

/-- The body of its `main`. -/
def steppingBody : Stmt := stepping.stmts.get ⟨2, by decide +kernel⟩

/-- What the body leaves. -/
def steppingNoted : Outcome Unit :=
  (execStmt (Context.env ⟨stepping, {}⟩ 9) 9 steppingBody).run
    (Session.start stepping {} (.ofBytes []) .unlimited none).machine

/-- What its structured meaning leaves. -/
def steppingStructured : Outcome Completion :=
  (Structured.execStmt (Context.structuredEnv ⟨stepping, {}⟩ 9) 9 steppingBody).run
    (Session.start stepping {} (.ofBytes []) .unlimited none).machine

/-- A `return` inside of two loops: its value stays noted while the step is taken once more. -/
theorem return_is_structured_stepping :
    steppingNoted.machine?.map (fun m => (m.stack.current.returned, m.stack.current.lookup? 1)) =
        some (some (.integer 1), some (.integer 2)) ∧
      Outcome.Alike (fun _ m exit m' => m.stack.current.returned = exit.value? ∧
        m.stack.callers = [] ∧ Blur.notes.Same m m') Blur.notes.Same
        steppingNoted steppingStructured := by
  have hp : stepping.Parsed := Program.parsed_ofText _
  have hs : steppingBody ∈ stepping.stmts := List.get_mem _ _
  have halike := (return_is_structured hp {} 9 9 hs).1
    (Session.start stepping {} (.ofBytes []) .unlimited none).machine rfl
  exact ⟨by decide +kernel, halike⟩

end MiniC
