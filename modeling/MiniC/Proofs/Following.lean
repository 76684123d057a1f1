import MiniC.Proofs.Agreement
import MiniC.Session

/-!
# Followed sessions

A session goes on in the same way whether anybody follows its events or not: it passes through the
same machines, up to the journals, and looks up the same names on them.  So what a journal tells
about the machines of a session holds of those of a session that nobody follows, too.

Main definitions:

* `MiniC.Eval.AgreeAlong`: two computations agree, pass through machines that are the same, and look
  up the same names on them;
* `MiniC.Machine.telling`, `MiniC.Session.followed`: a machine with another journal, and a session
  that is followed from now on.

Main results:

* `MiniC.Eval.runSimulation_agreeAlong`: agreement all along is a simulation;
* `MiniC.Session.Passes.followed`, `MiniC.Session.Looks.followed`: what a session passes through and
  what it looks up, it does if followed.
-/

set_option autoImplicit false

namespace MiniC

/-- Forgetting the journal. -/
def Blur.events : Blur := ⟨false, false, true⟩

@[simp] theorem Blur.frame_events (f : Frame) : Blur.events.frame f = f := rfl

/-- The machine with a journal that tells of certain events. -/
def Machine.telling (m : Machine) (es : List Event) : Machine := { m with journal := some es }

/-- Machines that are the same up to their journals differ in these only. -/
theorem Blur.Same.eq_telling {m m' : Machine} (h : Blur.events.Same m m') {es : List Event}
    (hes : m'.journal = some es) : m' = m.telling es := by
  have hstack : m.stack = m'.stack := by
    refine CallStack.ext_frames h.current_eq ?_
    have hcallers :
        m.stack.callers.map Blur.events.frame = m'.stack.callers.map Blur.events.frame :=
      congrArg (fun m => m.stack.callers) h
    rwa [funext frame_events, List.map_id', List.map_id'] at hcallers
  obtain ⟨heap, stack, globals, input, output, journal⟩ := m'
  rw [Machine.telling, Machine.mk.injEq]
  exact ⟨h.heap_eq.symm, hstack.symm, h.globals_eq.symm, h.input_eq.symm, h.output_eq.symm, hes⟩

/-- If one of two outcomes that are alike leaves a machine, then the other one leaves one, too. -/
theorem Outcome.Alike.exists_machine? {α β : Type} {Q : α → Machine → β → Machine → Prop}
    {R : Machine → Machine → Prop} {o : Outcome α} {o' : Outcome β} (h : Alike Q R o o')
    (hQ : ∀ a m b m', Q a m b m' → R m m') {m : Machine} (hm : o.machine? = some m) :
    ∃ m', o'.machine? = some m' ∧ R m m' := by
  cases h with
  | done h =>
    cases hm
    exact ⟨_, rfl, hQ _ _ _ _ h⟩
  | failed e h =>
    cases hm
    exact ⟨_, rfl, h⟩
  | outOfFuel => cases hm

/-- The outcome with another journal. -/
def Outcome.telling {α : Type} (o : Outcome α) (es : List Event) : Outcome α :=
  match o with
  | .done a m => .done a (m.telling es)
  | .failed e m => .failed e (m.telling es)
  | .outOfFuel => .outOfFuel

theorem Outcome.machine?_telling {α : Type} (o : Outcome α) (es : List Event) :
    (o.telling es).machine? = o.machine?.map fun m => m.telling es := by
  cases o <;> rfl

/-- Outcomes that are the same up to the journals differ in these only. -/
theorem Outcome.Alike.exists_eq_telling {α : Type} {o o' : Outcome α}
    (h : Alike (fun a m a' m' => a = a' ∧ Blur.events.Same m m') Blur.events.Same o o')
    (hjournal : ∀ m', o'.machine? = some m' → ∃ es, m'.journal = some es) :
    ∃ es, o' = o.telling es := by
  cases h with
  | done h =>
    obtain ⟨rfl, hm⟩ := h
    obtain ⟨es, hes⟩ := hjournal _ rfl
    exact ⟨es, congrArg _ (hm.eq_telling hes)⟩
  | failed e hm =>
    obtain ⟨es, hes⟩ := hjournal _ rfl
    exact ⟨es, congrArg _ (hm.eq_telling hes)⟩
  | outOfFuel => exact ⟨[], rfl⟩

namespace Eval

variable {α β : Type} {b : Blur}

/-! ### Agreement all along -/

/-- The computations agree, and what the first one passes through and looks up, the second one does,
up to what is forgotten. -/
structure AgreeAlong (b : Blur) (x y : Eval α) : Prop where
  agree : Agree b x y
  visits {m m' m₁ : Machine} : b.Same m m' → x.visits m m₁ → ∃ m₁', y.visits m' m₁' ∧ b.Same m₁ m₁'
  looks {m m' m₁ : Machine} {k : Lookup} : b.Same m m' → x.looks m k m₁ →
    ∃ m₁', y.looks m' k m₁' ∧ b.Same m₁ m₁'

/-- Computations that agree leave machines that are the same. -/
theorem Agree.exists_machine? {x y : Eval α} (h : Agree b x y) {m m' m₁ : Machine}
    (hm : b.Same m m') (hm₁ : (x.run m).machine? = some m₁) :
    ∃ m₁', (y.run m').machine? = some m₁' ∧ b.Same m₁ m₁' :=
  (h m m' hm).exists_machine? (fun _ _ _ _ h => h.2) hm₁

/-- An operation passes through nothing on its way and looks nothing up, so it agrees all along if
it agrees. -/
theorem Agree.op_along {f g : Machine → Outcome α} (h : Agree b (op f) (op g)) :
    AgreeAlong b (op f) (op g) where
  agree := h
  visits {m m' m₁} hm hvisits := by
    rcases hvisits with rfl | hend
    · exact ⟨m', .inl rfl, hm⟩
    · obtain ⟨m₁', hend', hm₁⟩ := h.exists_machine? hm hend
      exact ⟨m₁', .inr hend', hm₁⟩
  looks _ hlooks := hlooks.elim

/-- An operation that looks a name up does so at its start. -/
theorem Agree.lookUp_along {k : Lookup} {loc : Location} {f g : Machine → Except Fault α}
    (h : Agree b (lookUp k loc f) (lookUp k loc g)) :
    AgreeAlong b (lookUp k loc f) (lookUp k loc g) where
  agree := h
  visits := (show Agree b (query loc f) (query loc g) from h).op_along.visits
  looks {m m' m₁ k'} hm hlooks := by
    obtain ⟨rfl, rfl⟩ := hlooks
    exact ⟨m', ⟨rfl, rfl⟩, hm⟩

/-- What the parts of a sequence do on one side, they do on the other.  `P` and `Q` tell it on one
side, `R` and `S` on the other. -/
theorem Agree.parts {x y : Eval α} (hxy : Agree b x y) {P R : Machine → Machine → Prop}
    {Q S : α → Machine → Machine → Prop}
    (hP : ∀ {m m' m₁}, b.Same m m' → P m m₁ → ∃ m₁', R m' m₁' ∧ b.Same m₁ m₁')
    (hQ : ∀ {a m m' m₁}, b.Same m m' → Q a m m₁ → ∃ m₁', S a m' m₁' ∧ b.Same m₁ m₁')
    {m m' m₁ : Machine} (hm : b.Same m m')
    (h : P m m₁ ∨ ∃ a m₂, x.run m = .done a m₂ ∧ Q a m₂ m₁) :
    ∃ m₁', (R m' m₁' ∨ ∃ a m₂, y.run m' = .done a m₂ ∧ S a m₂ m₁') ∧ b.Same m₁ m₁' := by
  rcases h with h | ⟨a, m₂, hrun, h⟩
  · obtain ⟨m₁', h', hm₁⟩ := hP hm h
    exact ⟨m₁', .inl h', hm₁⟩
  · -- The first part is done on both sides, with the same value.
    have hends := hxy m m' hm
    rw [hrun] at hends
    generalize y.run m' = o at hends ⊢
    cases hends with
    | @done _ _ _ m₂' hdone =>
      obtain ⟨rfl, hm₂⟩ := hdone
      obtain ⟨m₁', h', hm₁⟩ := hQ hm₂ h
      exact ⟨m₁', .inr ⟨a, m₂', rfl, h'⟩, hm₁⟩

theorem AgreeAlong.bind {x y : Eval α} {f g : α → Eval β} (hxy : AgreeAlong b x y)
    (hfg : ∀ a, AgreeAlong b (f a) (g a)) : AgreeAlong b (x >>= f) (y >>= g) where
  agree := hxy.agree.bind fun a => (hfg a).agree
  visits := hxy.agree.parts hxy.visits fun {a _ _ _} => (hfg a).visits
  looks {_ _ _ k} := hxy.agree.parts (P := fun m => x.looks m k) (R := fun m => y.looks m k)
    (Q := fun a m => (f a).looks m k) (S := fun a m => (g a).looks m k) hxy.looks
    fun {a _ _ _} => (hfg a).looks

/-- A frame of its own, in which nothing is forgotten. -/
theorem AgreeAlong.inFrame {x y : Eval α} (hxy : AgreeAlong Blur.events x y) (f : Frame) :
    AgreeAlong Blur.events (Eval.inFrame f x) (Eval.inFrame f y) where
  agree m m' hm := by
    have hends := hxy.agree _ _ (hm.enterFrame (Blur.frame_events f))
    rw [run_inFrame, run_inFrame]
    generalize x.run _ = o, y.run _ = o' at hends
    cases hends with
    | done h =>
      obtain ⟨rfl, hm₁⟩ := h
      refine .done ⟨Prod.ext rfl ?_, hm₁.leaveFrame⟩
      dsimp only
      rw [leaveFrame_eq_current, leaveFrame_eq_current]
      exact hm₁.current_eq
    | failed e hm₁ => exact .failed e hm₁.leaveFrame
    | outOfFuel => exact .outOfFuel
  visits {m m' m₁} hm hvisits := by
    have henter := hm.enterFrame (Blur.frame_events f)
    rcases hvisits with rfl | hvisits | ⟨m₂, hend, rfl⟩
    · exact ⟨m', .inl rfl, hm⟩
    · obtain ⟨m₁', hvisits', hm₁⟩ := hxy.visits henter hvisits
      exact ⟨m₁', .inr (.inl hvisits'), hm₁⟩
    · obtain ⟨m₂', hend', hm₂⟩ := hxy.agree.exists_machine? henter hend
      exact ⟨_, .inr (.inr ⟨m₂', hend', rfl⟩), hm₂.leaveFrame⟩
  looks hm hlooks := hxy.looks (hm.enterFrame (Blur.frame_events f)) hlooks

/-- Programs do the same up to the journal. -/
theorem runSimulation_agreeAlong (scope : Nat → Option Bool) (limit : Nat) :
    RunSimulation .equal scope limit limit (AgreeAlong Blur.events) (AgreeAlong Blur.events) := by
  have h : RunSimulation .equal scope limit limit (Agree Blur.events) (Agree Blur.events) :=
    runSimulation_agree rfl (fun _ _ hn => .inr (congrArg Node.id hn)) (fun _ => False.elim) scope
      limit
  exact {
    yield := fun a => (h.yield a).op_along
    seq := AgreeAlong.bind
    fail := fun e => (h.fail e).op_along
    readName := fun x _ loc hl => (h.readName x loc hl).lookUp_along
    placeOfName := fun x _ isArray loc hl => (h.placeOfName x isArray loc hl).lookUp_along
    readPlace := fun place loc => (h.readPlace place loc).op_along
    writePlace := fun place v loc => (h.writePlace place v loc).op_along
    remember := fun v hn => (h.remember v hn).op_along
    readInteger := fun loc => (h.readInteger loc).op_along
    writeLine := fun n loc => (h.writeLine n loc).op_along
    allocate := fun size loc => (h.allocate size loc).op_along
    release := fun p loc => (h.release p loc).op_along
    written := False.elim
    ofExpr := fun hx => hx
    sequence := AgreeAlong.bind
    clearCache := h.clearCache.op_along
    depth := h.depth.op_along
    dropOldArray := fun depth hv => by
      have hdrop := h.dropOldArray depth hv
      unfold Eval.dropOldArray at hdrop ⊢
      generalize (scope _).getD _ = isGlobal at hdrop ⊢
      cases isGlobal <;> exact hdrop.op_along
    storeArray := fun depth size loc hv ha =>
      (h.storeArray depth size loc hv ha).op_along
    bindVariable := fun depth v hv => (h.bindVariable depth v hv).op_along
    outOfFuel := h.outOfFuel.op_along
    hasReturned := h.hasReturned.op_along
    setReturned := fun v => (h.setReturned v).op_along
    recordStatement := fun line => (h.recordStatement line).op_along
    enter := fun f args loc x x' hx => by
      have hrecord : ∀ e, AgreeAlong Blur.events (Eval.record e) (Eval.record e) :=
        fun e => (agree_record e).op_along
      have hfail : ∀ e, AgreeAlong Blur.events (Eval.fail e : Eval Value) (Eval.fail e) :=
        fun e => (h.fail e).op_along
      refine (h.depth.op_along).bind fun depth => ?_
      split
      · exact hfail _
      · split
        · exact hfail _
        · exact (((hrecord _).bind fun _ => hx).inFrame _).bind fun _ =>
            (hrecord _).bind fun _ => (h.yield _).op_along
    started := fun entry => (h.started entry).op_along
    flush := fun loc => (h.flush loc).op_along
    finished := fun v => (agree_liveBlocks.op_along).bind fun n =>
      (agree_record _).op_along }

/-- Runs do the same up to the journal. -/
theorem agreeAlong_run (ctx : Context) (fuel : Nat) :
    AgreeAlong Blur.events (ctx.run fuel) (ctx.run fuel) := by
  have hp := ctx.program.alike_self
  have hsim : RunSimulation .equal (ctx.env fuel).isGlobal? ctx.config.maxCallDepth
      ctx.config.maxCallDepth (AgreeAlong Blur.events) (AgreeAlong Blur.events) :=
    runSimulation_agreeAlong _ _
  exact hsim.run rfl hp fuel (hsim.declareGlobals rfl (hsim.call hp fuel) hp.globals)

end Eval

/-! ### Sessions -/

namespace Session

/-- The session with a journal that tells of certain events. -/
def telling (s : Session) (es : List Event) : Session := s.withMachine (s.machine.telling es)

/-- The session with a new journal. -/
def followed (s : Session) : Session := s.telling []

variable {s t : Session} {m : Machine}

theorem telling_eq_self {es : List Event} (h : s.machine.journal = some es) : s.telling es = s := by
  obtain ⟨context, heap, stack, globals, input, output, journal⟩ := s
  cases h
  rfl

/-- What a session becomes, it becomes if it is followed. -/
theorem After.followed (h : s.After t) :
    ∃ m, s.followed.After (t.withMachine m) ∧ Blur.events.Same t.machine m := by
  induction h with
  | start => exact ⟨_, .start, rfl⟩
  | @run t fuel _ _ hend ih =>
    obtain ⟨m, hafter, hm⟩ := ih
    obtain ⟨m', hend', hm'⟩ := (Eval.agreeAlong_run t.context fuel).agree.exists_machine? hm hend
    exact ⟨m', hafter.run hend', hm'⟩

/-- What a session passes through, it passes through if it is followed. -/
theorem Passes.followed (h : s.Passes m) :
    ∃ m', s.followed.Passes m' ∧ Blur.events.Same m m' := by
  obtain ⟨t, fuel, hafter, hvisits⟩ := h
  obtain ⟨m₁, hafter', hm₁⟩ := hafter.followed
  obtain ⟨m', hvisits', hm'⟩ := (Eval.agreeAlong_run t.context fuel).visits hm₁ hvisits
  exact ⟨m', ⟨t.withMachine m₁, fuel, hafter', hvisits'⟩, hm'⟩

/-- What a session looks up, it looks up if it is followed. -/
theorem Looks.followed {k : Lookup} (h : s.Looks k m) :
    ∃ m', s.followed.Looks k m' ∧ Blur.events.Same m m' := by
  obtain ⟨t, fuel, hafter, hlooks⟩ := h
  obtain ⟨m₁, hafter', hm₁⟩ := hafter.followed
  obtain ⟨m', hlooks', hm'⟩ := (Eval.agreeAlong_run t.context fuel).looks hm₁ hlooks
  exact ⟨m', ⟨t.withMachine m₁, fuel, hafter', hlooks'⟩, hm'⟩

end Session

end MiniC
