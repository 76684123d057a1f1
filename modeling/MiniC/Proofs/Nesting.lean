import MiniC.Proofs.Internal
import MiniC.Proofs.Parsed

/-!
# Calls and returns in a log

In the log of a run, calls and returns are nested as the calls of the run are.  Every call that is
logged is open until its return is; an error leaves calls open, just those that were going on when
it was raised.

Main definitions:

* `MiniC.Event.nextOpen?`, `MiniC.openCalls?`: the calls that are open behind a log, if it is
  nested;
* `MiniC.Machine.Nested`: the open calls are those on the stack;
* `MiniC.Eval.Nests`: computations that keep it so, until they raise an error.

Main results:

* `MiniC.exists_openCalls?_of_prefix`: what comes first in a nested log is nested;
* `MiniC.Eval.nests_enter`: a call is logged around what it does;
* `MiniC.Session.calls_nested`: the logs of runs are nested.
-/

set_option autoImplicit false

namespace MiniC

/-! ### Nested logs -/

/-- The calls that are open behind an event, the outermost first, if it may come where `calls` are
open.  A call has the number of open calls, itself included, for its depth, and a return that of
those that are left; a return belongs to the innermost open call, and so does a statement. -/
def Event.nextOpen? (calls : List String) : Event → Option (List String)
  | call f depth => if depth = calls.length + 1 then some (calls ++ [f]) else none
  | returned f depth _ =>
    if calls.getLast? = some f ∧ depth + 1 = calls.length then some calls.dropLast else none
  | statement _ f => if calls.getLast? = some f then some calls else none
  | _ => some calls

/-- The calls that are open behind a log, the outermost first, if it is nested. -/
def openCalls? (log : List Event) : Option (List String) := log.foldlM Event.nextOpen? []

theorem openCalls?_append (log log' : List Event) :
    openCalls? (log ++ log') =
      (openCalls? log).bind fun calls => log'.foldlM Event.nextOpen? calls :=
  List.foldlM_append

/-- What comes first in a nested log is nested. -/
theorem exists_openCalls?_of_prefix {log log' : List Event} {calls : List String}
    (h : openCalls? log = some calls) (hfirst : log' <+: log) :
    ∃ calls', openCalls? log' = some calls' := by
  obtain ⟨rest, rfl⟩ := hfirst
  rw [openCalls?_append] at h
  obtain ⟨calls', hcalls, -⟩ := Option.bind_eq_some_iff.1 h
  exact ⟨calls', hcalls⟩

/-- The event has to do with calls: it begins or ends one, or a statement in it. -/
def Event.concernsCalls : Event → Bool
  | call _ _ | returned _ _ _ | statement _ _ => true
  | _ => false

/-- Other events leave the open calls. -/
theorem openCalls?_append_of_forall {log log' : List Event}
    (h : ∀ e ∈ log', e.concernsCalls = false) : openCalls? (log ++ log') = openCalls? log := by
  have hfold : ∀ calls : List String, log'.foldlM Event.nextOpen? calls = some calls := by
    intro calls
    induction log' with
    | nil => rfl
    | cons e es ih =>
      have he : e.nextOpen? calls = some calls := by
        have hfirst := h e List.mem_cons_self
        cases e <;> first | rfl | cases hfirst
      rw [List.foldlM_cons, he]
      exact ih fun e' he' => h e' (List.mem_cons_of_mem e he')
  rw [openCalls?_append]
  cases openCalls? log with
  | none => rfl
  | some calls => exact hfold calls

/-- What a log shows of the events of a journal, the first one first. -/
def logOf (es : List Event) : List Event := (es.filter Event.isLogged).reverse

theorem logOf_append (es es' : List Event) : logOf (es ++ es') = logOf es' ++ logOf es := by
  rw [logOf, List.filter_append, List.reverse_append, logOf, logOf]

theorem forall_mem_logOf {P : Event → Prop} {es : List Event} (h : ∀ e ∈ es, P e) :
    ∀ e ∈ logOf es, P e := fun e he =>
  h e (List.mem_of_mem_filter (List.mem_reverse.1 he))

/-! ### Machines -/

namespace Machine

variable {js : List Event} {m m' : Machine}

/-- Behind the events `js`, the log is nested, and its open calls are those on the stack. -/
def Nested (js : List Event) (m : Machine) : Prop :=
  ∃ es, m.journal = some (es ++ js) ∧ openCalls? (logOf es) = some m.stack.active

/-- No call begins or ends between two machines, and no statement begins. -/
structure SameCalls (m m' : Machine) : Prop where
  active_eq : m'.stack.active = m.stack.active
  notes : m.Notes (fun e => e.concernsCalls = false) m'

theorem Nested.sameCalls (h : m.Nested js) (hm : m.SameCalls m') : m'.Nested js := by
  obtain ⟨es, hes, hopen⟩ := h
  obtain ⟨es', hnone, hjournal⟩ := hm.notes
  refine ⟨es' ++ es, by rw [hjournal, hes, Option.map_some, List.append_assoc], ?_⟩
  rw [logOf_append, openCalls?_append_of_forall (forall_mem_logOf hnone), hopen, hm.active_eq]

/-- An event that may come next, where the stack is what it leaves. -/
theorem Nested.note {s : CallStack} (h : ∃ es, m.journal = some (es ++ js) ∧
    openCalls? (logOf es) = some s.active) {e : Event} (he : e.isLogged = true)
    (hnext : e.nextOpen? s.active = some m.stack.active) : (m.note e).Nested js := by
  obtain ⟨es, hes, hopen⟩ := h
  refine ⟨e :: es, journal_note hes e, ?_⟩
  have hlog : logOf (e :: es) = logOf es ++ [e] := by
    rw [logOf, List.filter_cons_of_pos he, List.reverse_cons, logOf]
  rw [stack_note, hlog, openCalls?_append, hopen]
  simp [hnext]

theorem SameCalls.refl (m : Machine) : m.SameCalls m := ⟨rfl, .of_eq rfl⟩

theorem SameCalls.of_eq (hs : m'.stack = m.stack) (hj : m'.journal = m.journal) : m.SameCalls m' :=
  ⟨by rw [hs], .of_eq hj⟩

theorem sameCalls_note (m : Machine) {e : Event} (he : e.concernsCalls = false) :
    m.SameCalls (m.note e) :=
  ⟨by rw [stack_note], m.notes_note he⟩

theorem SameCalls.trans {m'' : Machine} (h : m.SameCalls m') (h' : m'.SameCalls m'') :
    m.SameCalls m'' :=
  ⟨h'.active_eq.trans h.active_eq, h.notes.trans h'.notes⟩

theorem Internal.sameCalls (h : m.Internal m') : m.SameCalls m' :=
  ⟨h.active_eq, h.notes.mono fun e he => by cases e <;> first | rfl | cases he⟩

/-- A frame that is left takes its call from the stack. -/
theorem active_leaveFrame {calls : List String} {f : String}
    (h : m.stack.active = calls ++ [f]) : m.leaveFrame.2.stack.active = calls := by
  obtain ⟨t, hpop, hactive⟩ := CallStack.exists_active_eq (s := m.stack) (by simp [h])
  rw [leaveFrame, hpop]
  exact (List.append_inj' (hactive.symm.trans h) rfl).1

end Machine

/-! ### Computations -/

namespace Eval

variable {α β : Type} {js : List Event} {inCall : Prop}

/-- From the machine on, the log stays nested and its open calls are those on the stack, up to where
the computation is done or raises an error; at the end the same calls are on the stack as before. -/
structure NestsAt (js : List Event) (x : Eval α) (m : Machine) : Prop where
  active_eq {m' : Machine} : (x.run m).machine? = some m' → m'.stack.active = m.stack.active
  done {a : α} {m' : Machine} : x.run m = .done a m' → m'.Nested js
  raises {e : RuntimeError} {m' : Machine} : x.raises m e m' → m'.Nested js

/-- This is so wherever the log is nested; if `inCall`, then in calls only. -/
def Nests (js : List Event) (inCall : Prop) (x : Eval α) : Prop :=
  ∀ m : Machine, m.Nested js → (inCall → m.stack.active ≠ []) → x.NestsAt js m

theorem NestsAt.bind {x : Eval α} {f : α → Eval β} {m : Machine} (hx : x.NestsAt js m)
    (hf : ∀ a m₁, x.run m = .done a m₁ → (f a).NestsAt js m₁) : (x >>= f).NestsAt js m where
  active_eq hend := by
    obtain hend | ⟨a, m₁, hrun, hend⟩ := machine?_bind hend
    · exact hx.active_eq hend
    · exact ((hf a m₁ hrun).active_eq hend).trans (hx.active_eq (congrArg Outcome.machine? hrun))
  done hrun := by
    obtain ⟨a, m₁, hfirst, hrest⟩ := run_bind_eq_done hrun
    exact (hf a m₁ hfirst).done hrest
  raises hraises := by
    rcases hraises with hraises | ⟨a, m₁, hfirst, hrest⟩
    · exact hx.raises hraises
    · exact (hf a m₁ hfirst).raises hrest

theorem Nests.bind {x : Eval α} {f : α → Eval β} (hx : x.Nests js inCall)
    (hf : ∀ a, (f a).Nests js inCall) : (x >>= f).Nests js inCall := by
  intro m hm hcall
  have hfirst := hx m hm hcall
  refine hfirst.bind fun a m₁ hrun => hf a m₁ (hfirst.done hrun) fun h => ?_
  rw [hfirst.active_eq (by rw [hrun]; rfl)]
  exact hcall h

/-- What is so everywhere is so in calls. -/
theorem Nests.weaken {x : Eval α} (hx : x.Nests js False) : x.Nests js inCall :=
  fun m hm _ => hx m hm False.elim

/-! ### Kinds of operations -/

/-- One operation, in which no call begins or ends. -/
theorem nests_op {f : Machine → Outcome α}
    (hf : ∀ {m m' : Machine}, (f m).machine? = some m' → m.SameCalls m') :
    (op f).Nests js inCall := fun m hm _ => {
  active_eq := fun hend => (hf hend).active_eq
  done := fun {a m'} hrun => hm.sameCalls (hf (by rw [show f m = .done a m' from hrun]; rfl))
  raises := fun {e m'} hrun =>
    hm.sameCalls (hf (by rw [show f m = .failed e m' from hrun]; rfl)) }

theorem nests_pure (a : α) : (pure a : Eval α).Nests js inCall :=
  nests_op fun h => by cases h; exact .refl _

theorem nests_fail (e : RuntimeError) : (fail e : Eval α).Nests js inCall :=
  nests_op fun h => by cases h; exact .refl _

theorem nests_outOfFuel : (outOfFuel : Eval α).Nests js inCall := nests_op fun h => by cases h

theorem nests_query (loc : Location) (f : Machine → Except Fault α) :
    (query loc f).Nests js inCall :=
  nests_op fun h => by
    rw [eq_of_query h]
    exact .refl _

theorem nests_lookUp (k : Lookup) (loc : Location) (f : Machine → Except Fault α) :
    (lookUp k loc f).Nests js inCall :=
  fun m hm hcall => ⟨(nests_query loc f m hm hcall).active_eq, (nests_query loc f m hm hcall).done,
    (nests_query loc f m hm hcall).raises⟩

theorem nests_update {f : Machine → Machine} (hf : ∀ m : Machine, m.SameCalls (f m)) :
    (update f).Nests js inCall :=
  nests_op fun {m m'} h => by cases h; exact hf m

theorem nests_attempt (loc : Location) {f : Machine → Except Fault Machine}
    (hf : ∀ {m m' : Machine}, f m = .ok m' → m.Internal m') : (attempt loc f).Nests js inCall :=
  nests_op fun h => by
    obtain hr | rfl := ok_or_eq_of_attempt h
    · exact (hf hr).sameCalls
    · exact .refl _

theorem nests_create (loc : Location) {f : Machine → Except Fault (α × Machine)}
    (hf : ∀ {m m' : Machine} {a : α}, f m = .ok (a, m') → m.Internal m') :
    (create loc f).Nests js inCall :=
  nests_op fun h => by
    obtain ⟨a, hr⟩ | rfl := ok_or_eq_of_create h
    · exact (hf hr).sameCalls
    · exact .refl _

theorem nests_readInteger (loc : Location) : (readInteger loc).Nests js inCall :=
  nests_op fun {m m'} h => by
    have hinput : ∀ input, m.SameCalls { m with input := input } := fun _ => .of_eq rfl rfl
    obtain ⟨input, ⟨n, -, rfl⟩ | ⟨e, -, rfl⟩⟩ := next_of_readInteger h <;>
      exact (hinput input).trans (Machine.sameCalls_note _ rfl)

theorem nests_writeLine (n : Int64) (loc : Location) : (writeLine n loc).Nests js inCall :=
  nests_op fun {m m'} h => by
    have houtput : ∀ output, m.SameCalls { m with output := output } := fun _ => .of_eq rfl rfl
    obtain ⟨output, ⟨-, rfl⟩ | ⟨-, rfl⟩⟩ := write_of_writeLine h
    · exact (houtput output).trans (Machine.sameCalls_note _ rfl)
    · exact houtput output

theorem nests_flush (loc : Location) : (Context.flush loc).Nests js inCall :=
  nests_op fun h => by
    rw [Context.eq_of_flush h]
    exact .refl _

/-- A statement is one of the innermost call. -/
theorem nests_recordStatement (line : Nat) : (recordStatement line).Nests js True := by
  intro m hm hcall
  obtain ⟨t, -, hactive⟩ := CallStack.exists_active_eq (hcall trivial)
  have hnested : (m.note (.statement line m.stack.current.function)).Nested js := by
    refine Machine.Nested.note hm rfl ?_
    rw [Event.nextOpen?, hactive, List.getLast?_concat, if_pos rfl]
  refine ⟨fun hend => ?_, fun hrun => ?_, fun hraises => ?_⟩
  · cases hend
    rw [Machine.stack_note]
  · cases hrun
    exact hnested
  · cases hraises

/-! ### Calls -/

theorem active_enterFrame (m : Machine) (f : Function) (args : List Value) :
    (m.enterFrame (f.frame args)).stack.active = m.stack.active ++ [f.name] := by
  obtain ⟨b, hframe⟩ := f.exists_frame_eq args
  rw [hframe]
  exact CallStack.active_push _ _

/-- A call that begins is open behind its event, and its frame is on the stack. -/
theorem nested_call {m : Machine} (hm : m.Nested js) (f : Function) (args : List Value) :
    ((m.enterFrame (f.frame args)).note (.call f.name (m.stack.depth + 1))).Nested js := by
  refine Machine.Nested.note (m := m.enterFrame (f.frame args)) (s := m.stack) hm rfl ?_
  rw [active_enterFrame, Event.nextOpen?, CallStack.length_active, if_pos rfl]

/-- A call that ends is open up to its event, and its frame is on the stack no more. -/
theorem nested_returned {m : Machine} (hm : m.Nested js) {calls : List String} {f : String}
    (hactive : m.stack.active = calls ++ [f]) (v : Value) :
    (m.leaveFrame.2.note (.returned f calls.length v)).Nested js := by
  obtain ⟨es, hes, hopen⟩ := hm
  refine Machine.Nested.note (s := m.stack) ⟨es, (m.journal_leaveFrame).trans hes, hopen⟩ rfl ?_
  rw [Machine.active_leaveFrame hactive, Event.nextOpen?, hactive, List.getLast?_concat,
    List.dropLast_concat, List.length_append]
  simp

/-- A body in a frame of its own, whatever it does to the log, and what follows. -/
theorem NestsAt.inFrame_bind {f : Frame} {x : Eval α} {k : α × Frame → Eval β} {m : Machine}
    (hx : x.NestsAt js (m.enterFrame f))
    (hk : ∀ a m₁, x.run (m.enterFrame f) = .done a m₁ →
      (k (a, m₁.leaveFrame.1)).NestsAt js m₁.leaveFrame.2) :
    (Eval.inFrame f x >>= k).NestsAt js m := by
  have hleave : ∀ {m₁}, (x.run (m.enterFrame f)).machine? = some m₁ →
      m₁.leaveFrame.2.stack.active = m.stack.active := fun hend =>
    Machine.active_leaveFrame ((hx.active_eq hend).trans (CallStack.active_push _ _))
  -- If the frame yields something, the body has been done in it.
  have body : ∀ {q m₂}, (Eval.inFrame f x).run m = .done q m₂ →
      (k q).NestsAt js m₂ ∧ m₂.stack.active = m.stack.active := by
    intro q m₂ hrun
    obtain ⟨a, m₁, hbody, rfl, rfl⟩ := run_inFrame_eq_done hrun
    exact ⟨hk a m₁ hbody, hleave (congrArg Outcome.machine? hbody)⟩
  refine ⟨fun hend => ?_, fun hrun => ?_, ?_⟩
  · obtain hend | ⟨q, m₂, hrun, hend⟩ := machine?_bind hend
    · obtain ⟨m₁, hbody, rfl⟩ := machine?_inFrame hend
      exact hleave hbody
    · obtain ⟨hrest, hactive⟩ := body hrun
      exact (hrest.active_eq hend).trans hactive
  · obtain ⟨q, m₂, hfirst, hrest⟩ := run_bind_eq_done hrun
    exact (body hfirst).1.done hrest
  · rintro e m' (hraises | ⟨q, m₂, hfirst, hrest⟩)
    · exact hx.raises hraises
    · exact (body hfirst).1.raises hrest

/-- An event after which the log is nested is noted. -/
theorem nestsAt_record {e : Event} {m : Machine} (h : (m.note e).Nested js) :
    (record e).NestsAt js m := by
  refine ⟨fun hend => ?_, fun hrun => ?_, fun hraises => ?_⟩
  · cases hend
    rw [Machine.stack_note]
  · cases hrun
    exact h
  · cases hraises

theorem nestsAt_pure (a : α) {m : Machine} (hm : m.Nested js) : (pure a : Eval α).NestsAt js m :=
  have h : (pure a : Eval α).Nests js False := nests_pure a
  h m hm False.elim

/-- A call is logged around what its body does, in whatever frame it is made. -/
theorem nests_enter (limit : Nat) (f : Function) (args : List Value) (loc : Location) {x : Eval α}
    (hx : x.Nests js True) (value : α → Frame → Value) :
    (enter limit f args loc x value).Nests js inCall := by
  intro m hm hcall
  refine NestsAt.bind (nests_op (fun h => by cases h; exact .refl _) m hm hcall)
    fun depth m₁ hdepth => ?_
  obtain ⟨rfl, rfl⟩ : m.stack.depth = depth ∧ m = m₁ := by
    cases hdepth
    exact ⟨rfl, rfl⟩
  split
  · exact nests_fail _ m hm hcall
  · split
    · exact nests_fail _ m hm hcall
    · have hbegun := nested_call hm f args
      have hbody := (nestsAt_record hbegun).bind (f := fun _ => x) fun _ m₁ hrun => by
        cases hrun
        refine hx _ hbegun fun _ => ?_
        rw [Machine.stack_note, active_enterFrame]
        exact List.append_ne_nil_of_right_ne_nil _ (List.cons_ne_nil _ _)
      refine hbody.inFrame_bind fun a m₁ hend => ?_
      have hinner : m₁.stack.active = m.stack.active ++ [f.name] := by
        rw [hbody.active_eq (by rw [hend]; rfl), active_enterFrame]
      have hreturned := nested_returned (hbody.done hend) hinner
        ((value a m₁.leaveFrame.1).coerce f.returnType)
      rw [CallStack.length_active] at hreturned
      exact (nestsAt_record hreturned).bind fun _ m₂ hrun =>
        nestsAt_pure _ ((nestsAt_record hreturned).done hrun)

/-! ### Runs -/

/-- Declarations nest, in calls and outside of them. -/
theorem declSimulation_nests (js : List Event) (inCall : Prop) (scope : Nat → Option Bool) :
    DeclSimulation .equal scope (alone (Nests js False)) (alone (Nests js inCall)) where
  yield := nests_pure
  seq := Nests.bind
  fail := nests_fail
  readName _ _ loc _ := nests_lookUp _ loc _
  placeOfName _ _ _ loc _ := nests_lookUp _ loc _
  readPlace _ loc := nests_query loc _
  writePlace _ _ loc := nests_attempt loc Machine.internal_writePlace
  remember _ _ := nests_update fun m => (m.internal_modifyFrame rfl).sameCalls
  readInteger := nests_readInteger
  writeLine := nests_writeLine
  allocate _ loc := nests_create loc Machine.internal_allocate
  release _ loc := nests_attempt loc Machine.internal_release
  written := False.elim
  ofExpr := Nests.weaken
  sequence := Nests.bind
  clearCache := nests_update fun m => (m.internal_modifyFrame rfl).sameCalls
  depth := nests_op fun h => by cases h; exact .refl _
  dropOldArray _ _ := by
    unfold Eval.dropOldArray
    split
    · exact nests_pure ()
    · exact nests_update fun m => (m.internal_dropOldArray _).sameCalls
  storeArray _ _ loc _ _ := nests_create loc Machine.internal_storeArray
  bindVariable _ _ _ := nests_update fun m => (m.internal_bindVariable _ _ _).sameCalls

/-- Statements nest in calls, and runs nest. -/
theorem runSimulation_nests (js : List Event) (scope : Nat → Option Bool) (limit : Nat) :
    RunSimulation .equal scope limit limit (alone (Nests js False)) (alone (Nests js True)) where
  toDeclSimulation := declSimulation_nests js True scope
  outOfFuel := nests_outOfFuel
  hasReturned := nests_op fun h => by cases h; exact .refl _
  setReturned _ := nests_update fun m => (m.internal_modifyFrame rfl).sameCalls
  recordStatement := nests_recordStatement
  enter f args loc _ _ hx := nests_enter limit f args loc hx _
  started _ := nests_update fun m => m.sameCalls_note rfl
  flush := nests_flush
  finished _ := Nests.bind (nests_op fun h => by cases h; exact .refl _) fun _ =>
    nests_update fun m => m.sameCalls_note rfl

theorem nests_run (ctx : Context) (js : List Event) (fuel : Nat) :
    (ctx.run fuel).Nests js False := by
  have hp := ctx.program.alike_self
  have hsim : RunSimulation .equal (ctx.env fuel).isGlobal? ctx.config.maxCallDepth
      ctx.config.maxCallDepth (alone (Nests js False)) (alone (Nests js True)) :=
    runSimulation_nests js _ _
  have hdecl : DeclSimulation .equal (ctx.env fuel).isGlobal? (alone (Nests js False))
      (alone (Nests js False)) := declSimulation_nests js False _
  exact hsim.run rfl hp fuel (hdecl.declareGlobals rfl (hsim.call hp fuel) hp.globals)

end Eval

/-! ### Sessions -/

namespace Session

variable {p : Program} {config : Config} {input : Input} {output : Output} {journal : List Event}
  {s : Session}

/-- A run begins with nothing logged and no calls. -/
theorem nestsAt_run {js : List Event} (hjournal : s.machine.journal = some js)
    (hactive : s.machine.stack.active = []) (fuel : Nat) :
    (s.context.run fuel).NestsAt js s.machine :=
  Eval.nests_run s.context js fuel s.machine ⟨[], hjournal, hactive ▸ rfl⟩ False.elim

/-- A followed session stays so, and between its runs no call is going on. -/
theorem After.active_eq (h : (Session.start p config input output (some journal)).After s) :
    (∃ js, s.machine.journal = some js) ∧ s.machine.stack.active = [] := by
  induction h with
  | start => exact ⟨⟨journal, rfl⟩, rfl⟩
  | @run s fuel m _ hend ih =>
    obtain ⟨⟨js, hjs⟩, hactive⟩ := ih
    have hnests := nestsAt_run hjs hactive fuel
    refine ⟨?_, (hnests.active_eq hend).trans hactive⟩
    cases hrun : s.run fuel with
    | done v m₁ =>
      rw [hrun] at hend
      cases hend
      obtain ⟨es, hes, -⟩ := hnests.done hrun
      exact ⟨_, hes⟩
    | failed e m₁ =>
      rw [hrun] at hend
      cases hend
      obtain ⟨⟨m₂, hraises⟩, hsame⟩ := Eval.raises_iff_of_failed hrun
      obtain ⟨es, hes, -⟩ := hnests.raises hraises
      exact ⟨_, (hsame e m₂ hraises).2.symm.trans hes⟩
    | outOfFuel =>
      rw [hrun] at hend
      cases hend

theorem events_eq_append {m m' : Machine} {es js : List Event} (hjs : m.journal = some js)
    (hes : m'.journal = some (es ++ js)) : m'.events = m.events ++ logOf es := by
  show logOf (m'.journal.getD []) = logOf (m.journal.getD []) ++ logOf es
  rw [hjs, hes]
  exact logOf_append es js

/-- Calls and returns are nested in the log of every run of a followed session.

If a run ends well, its log is nested, and no call is left open.  If it fails, its log and all that
comes first in it are nested, and the calls that are left open are those that were going on when the
error was raised. -/
theorem calls_nested (hs : (Session.start p config input output (some journal)).After s)
    (fuel : Nat) :
    (∀ v m, s.run fuel = .done v m →
      ∃ log, m.events = s.machine.events ++ log ∧ openCalls? log = some []) ∧
      ∀ e m, s.run fuel = .failed e m →
        ∃ log calls, m.events = s.machine.events ++ log ∧ openCalls? log = some calls ∧
          (∀ log', log' <+: log → ∃ calls', openCalls? log' = some calls') ∧
          (∃ m₁, (s.context.run fuel).raises s.machine e m₁) ∧
          ∀ e' m₁, (s.context.run fuel).raises s.machine e' m₁ →
            e' = e ∧ (s.context.run fuel).visits s.machine m₁ ∧ m₁.stack.active = calls := by
  obtain ⟨⟨js, hjs⟩, hactive⟩ := hs.active_eq
  have hnests := nestsAt_run hjs hactive fuel
  refine ⟨fun v m hrun => ?_, fun e m hrun => ?_⟩
  · obtain ⟨es, hes, hopen⟩ := hnests.done hrun
    rw [hnests.active_eq (congrArg Outcome.machine? hrun), hactive] at hopen
    exact ⟨logOf es, events_eq_append hjs hes, hopen⟩
  · obtain ⟨⟨m₁, hraises⟩, hsame⟩ := Eval.raises_iff_of_failed hrun
    obtain ⟨es, hes, hopen⟩ := hnests.raises hraises
    have hend : m.journal = some (es ++ js) := (hsame e m₁ hraises).2.symm.trans hes
    refine ⟨logOf es, m₁.stack.active, events_eq_append hjs hend, hopen,
      fun log' => exists_openCalls?_of_prefix hopen, ⟨m₁, hraises⟩, fun e' m₂ hraises' => ?_⟩
    obtain ⟨rfl, hjournal⟩ := hsame e' m₂ hraises'
    obtain ⟨es', hes', hopen'⟩ := hnests.raises hraises'
    -- There is one journal at the end, so the same calls are open wherever the error was raised.
    obtain rfl : es' = es := List.append_cancel_right
      (Option.some.inj (hes'.symm.trans (hjournal.trans hend)))
    exact ⟨rfl, Eval.visits_of_raises _ _ _ _ hraises', Option.some.inj (hopen'.symm.trans hopen)⟩

/-- A program that fails in the innermost of four calls, and does not fail in its second run. -/
def interrupted : Session :=
  .start (.ofText "int f(int n) { if (n) return f(n - 1); return GET(); }
    int main() { return f(2); }") {} (.ofBytes "x 7".toUTF8.toList) .unlimited (some [])

/-- The first run leaves four calls open, and the second one none. -/
theorem calls_nested_interrupted :
    ∃ e m₁ log₁ v m₂ log₂, interrupted.run 9 = .failed e m₁ ∧ m₁.events = log₁ ∧
      openCalls? log₁ = some ["main", "f", "f", "f"] ∧
      (∃ m, (interrupted.context.run 9).raises interrupted.machine e m ∧
        m.stack.active = ["main", "f", "f", "f"]) ∧
      (interrupted.withMachine m₁).run 9 = .done v m₂ ∧ m₂.events = log₁ ++ log₂ ∧
      openCalls? log₂ = some [] := by
  have hopen : (interrupted.run 9).machine?.map (fun m => openCalls? m.events) =
      some (some ["main", "f", "f", "f"]) := by decide +kernel
  have hfails : (interrupted.run 9).error?.isSome = true := by decide +kernel
  have hends : ((interrupted.next 9).run 9).shown.isSome = true := by decide +kernel
  obtain ⟨e, he⟩ := Option.isSome_iff_exists.1 hfails
  obtain ⟨m₁, hfirst⟩ := Outcome.exists_of_error? he
  have hnext : interrupted.next 9 = interrupted.withMachine m₁ := by
    rw [Session.next, hfirst]
    rfl
  obtain ⟨r, hr⟩ := Option.isSome_iff_exists.1 hends
  rw [hnext] at hr
  obtain ⟨m₂, hsecond, -⟩ := Outcome.exists_of_shown hr
  -- The first run begins with nothing logged.
  obtain ⟨-, hfailed⟩ := calls_nested (s := interrupted) .start 9
  obtain ⟨log₁, calls, hlog₁, hcalls, -, ⟨m, hraises⟩, hactive⟩ := hfailed e m₁ hfirst
  have hlog₁ : m₁.events = log₁ := hlog₁.trans (List.nil_append log₁)
  rw [hfirst] at hopen
  have hcalls₁ : openCalls? log₁ = some ["main", "f", "f", "f"] := by
    rw [← hlog₁]
    exact Option.some.inj hopen
  have hsame := Option.some.inj (hcalls.symm.trans hcalls₁)
  obtain ⟨hdone, -⟩ := calls_nested (s := interrupted.withMachine m₁)
    (.run .start (by rw [hfirst]; rfl)) 9
  obtain ⟨log₂, hlog₂, hcalls₂⟩ := hdone r.1 m₂ hsecond
  exact ⟨e, m₁, log₁, r.1, m₂, log₂, hfirst, hlog₁, hcalls₁,
    ⟨m, hraises, (hactive e m hraises).2.2.trans hsame⟩, hsecond, hlog₁ ▸ hlog₂, hcalls₂⟩

end Session

end MiniC
