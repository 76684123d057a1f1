import MiniC.Proofs.Activations
import MiniC.Proofs.Following
import MiniC.Proofs.Isolation

/-!
# Where names are looked up

Whatever is executed in a frame looks names up in frames whose functions declare them, or where
they are global; and it goes on in its own frame.  So it is with expressions and statements, by
simulation, with calls by induction on the bound of their depth, and with runs.

Main definitions:

* `MiniC.Eval.Orderly`: a computation of a role keeps the variables where they belong.

Main results:

* `MiniC.Eval.orderly_enter`: calls are orderly if their bodies are;
* `MiniC.Eval.orderly_call`: calls in confined programs are orderly;
* `MiniC.Session.Passes.tidy`, `MiniC.Session.Looks.runs`: so are whole sessions.
-/

set_option autoImplicit false

namespace MiniC

namespace Eval

variable {α β : Type} {p : Program} {r : Role} {outer : List Frame} {rest : List Activation}

/-- From the machine `m` on all machines are tidy, names are looked up on machines that run where
they may be referred to, and in the end the computation runs in the frame that it began in. -/
structure OrderlyAt (p : Program) (r : Role) (outer : List Frame) (rest : List Activation)
    (x : Eval α) (m : Machine) : Prop where
  tidy {m' : Machine} : x.visits m m' → m'.Tidy p
  looks {k : Lookup} {m' : Machine} : x.looks m k m' →
    ∃ r' outer' rest', m'.Runs p r' outer' rest' ∧ (r'.likeness p).links k.link
  done {a : α} {m' : Machine} : x.run m = .done a m' → m'.Runs p r outer rest

/-- In frames of the role `r`, the computation keeps the variables where they belong. -/
def Orderly (p : Program) (r : Role) (x : Eval α) : Prop :=
  ∀ outer rest m, m.Runs p r outer rest → x.OrderlyAt p r outer rest m

/-! ### Operations -/

theorem OrderlyAt.bind {x : Eval α} {f : α → Eval β} {m : Machine}
    (hx : x.OrderlyAt p r outer rest m) (hf : ∀ a, (f a).Orderly p r) :
    (x >>= f).OrderlyAt p r outer rest m where
  tidy hvisits := by
    rcases hvisits with hvisits | ⟨a, m₁, hrun, hvisits⟩
    · exact hx.tidy hvisits
    · exact (hf a _ _ _ (hx.done hrun)).tidy hvisits
  looks hlooks := by
    rcases hlooks with hlooks | ⟨a, m₁, hrun, hlooks⟩
    · exact hx.looks hlooks
    · exact (hf a _ _ _ (hx.done hrun)).looks hlooks
  done hrun := by
    obtain ⟨a, m₁, hfirst, hrun⟩ := run_bind_eq_done hrun
    exact (hf a _ _ _ (hx.done hfirst)).done hrun

theorem Orderly.bind {x : Eval α} {f : α → Eval β} (hx : x.Orderly p r)
    (hf : ∀ a, (f a).Orderly p r) : (x >>= f).Orderly p r :=
  fun outer rest m hm => (hx outer rest m hm).bind hf

/-- An operation is orderly if the machine that it leaves runs in the same frame. -/
theorem orderly_op {f : Machine → Outcome α}
    (hf : ∀ {outer rest m m'}, m.Runs p r outer rest → (f m).machine? = some m' →
      m'.Runs p r outer rest) : (op f).Orderly p r := fun _ _ _ hm =>
  { tidy := by
      rintro m' (rfl | hend)
      · exact hm.tidy
      · exact (hf hm hend).tidy
    looks := False.elim
    done := fun hrun => hf hm (congrArg Outcome.machine? hrun) }

/-- An operation that leaves the variables alone is orderly. -/
theorem orderly_quiet {f : Machine → Outcome α}
    (hf : ∀ {m m'}, (f m).machine? = some m' → m.Quiet m') : (op f).Orderly p r :=
  orderly_op fun hm hend => hm.quiet (hf hend)

theorem orderly_pure (a : α) : (pure a : Eval α).Orderly p r :=
  orderly_quiet fun h => by
    cases h
    exact .refl _

theorem orderly_fail (e : RuntimeError) : (fail e : Eval α).Orderly p r :=
  orderly_quiet fun h => by
    cases h
    exact .refl _

theorem orderly_outOfFuel : (outOfFuel : Eval α).Orderly p r := orderly_quiet fun h => by cases h

theorem orderly_depth : depth.Orderly p r :=
  orderly_quiet fun h => by
    cases h
    exact .refl _

theorem orderly_hasReturned : hasReturned.Orderly p r :=
  orderly_quiet fun h => by
    cases h
    exact .refl _

theorem orderly_query (loc : Location) (f : Machine → Except Fault α) :
    (query loc f).Orderly p r :=
  orderly_quiet fun h => by
    rw [eq_of_query h]
    exact .refl _

/-- A name is looked up where it may be referred to. -/
theorem orderly_lookUp {k : Lookup} (hk : (r.likeness p).links k.link) (loc : Location)
    (f : Machine → Except Fault α) : (lookUp k loc f).Orderly p r := fun outer rest m hm =>
  have hquery : (query loc f).OrderlyAt p r outer rest m := orderly_query loc f outer rest m hm
  { tidy := hquery.tidy
    looks := by
      rintro _ _ ⟨rfl, rfl⟩
      exact ⟨r, outer, rest, hm, hk⟩
    done := hquery.done }

theorem orderly_update {f : Machine → Machine} (hf : ∀ m : Machine, m.Quiet (f m)) :
    (update f).Orderly p r :=
  orderly_quiet fun h => by
    cases h
    exact hf _

theorem orderly_attempt (loc : Location) {f : Machine → Except Fault Machine}
    (hf : ∀ {m m'}, f m = .ok m' → m.Quiet m') : (attempt loc f).Orderly p r :=
  orderly_quiet fun h => by
    obtain hr | rfl := ok_or_eq_of_attempt h
    · exact hf hr
    · exact .refl _

theorem orderly_create (loc : Location) {f : Machine → Except Fault (α × Machine)}
    (hf : ∀ {m a m'}, f m = .ok (a, m') → m.Quiet m') : (create loc f).Orderly p r :=
  orderly_quiet fun h => by
    obtain ⟨a, hr⟩ | rfl := ok_or_eq_of_create h
    · exact hf hr
    · exact .refl _

theorem orderly_record {e : Event} (he : e.isQuiet = true) : (record e).Orderly p r :=
  orderly_update fun m => m.quiet_note he

theorem orderly_readInteger (loc : Location) : (readInteger loc).Orderly p r := by
  refine orderly_quiet fun {m m'} h => ?_
  have hinput : ∀ input, m.Quiet { m with input := input } := fun _ => .of_eq rfl rfl rfl
  obtain ⟨input, ⟨n, -, rfl⟩ | ⟨e, -, rfl⟩⟩ := next_of_readInteger h <;>
    exact (hinput input).trans (Machine.quiet_note _ rfl)

theorem orderly_writeLine (n : Int64) (loc : Location) : (writeLine n loc).Orderly p r := by
  refine orderly_quiet fun {m m'} h => ?_
  have houtput : ∀ output, m.Quiet { m with output := output } := fun _ => .of_eq rfl rfl rfl
  obtain ⟨output, ⟨-, rfl⟩ | ⟨-, rfl⟩⟩ := write_of_writeLine h
  · exact (houtput output).trans (Machine.quiet_note _ rfl)
  · exact houtput output

theorem orderly_flush (loc : Location) : (Context.flush loc).Orderly p r :=
  orderly_quiet fun h => by
    rw [Context.eq_of_flush h]
    exact .refl _

theorem orderly_liveBlocks : Context.liveBlocks.Orderly p r :=
  orderly_quiet fun h => by
    cases h
    exact .refl _

/-! ### Expressions and statements -/

/-- What a role may declare and refer to is orderly. -/
theorem stmtSimulation_orderly (hp : p.Confined) (r : Role) :
    StmtSimulation (r.likeness p) p.isGlobal? (alone (Orderly p r)) (alone (Orderly p r)) where
  yield := orderly_pure
  seq := Orderly.bind
  fail := orderly_fail
  readName _ _ loc hl := orderly_lookUp hl loc _
  placeOfName _ _ _ loc hl := orderly_lookUp hl loc _
  readPlace _ loc := orderly_query loc _
  writePlace _ _ loc := orderly_attempt loc Machine.quiet_writePlace
  remember _ _ := orderly_update fun m => m.quiet_modifyFrame rfl rfl
  readInteger := orderly_readInteger
  writeLine := orderly_writeLine
  allocate _ loc := orderly_create loc Machine.quiet_allocate
  release _ loc := orderly_attempt loc Machine.quiet_release
  written := False.elim
  ofExpr hx := hx
  sequence := Orderly.bind
  clearCache := orderly_update fun m => m.quiet_modifyFrame rfl rfl
  depth := orderly_depth
  dropOldArray _ _ := by
    unfold Eval.dropOldArray
    split
    · exact orderly_pure ()
    · exact orderly_update fun m => m.quiet_dropOldArray _
  storeArray _ _ loc _ _ := orderly_create loc Machine.quiet_storeArray
  bindVariable depth w hv := orderly_op fun hm hend => by
    cases hend
    exact hm.bindVariable hp hv depth w
  outOfFuel := orderly_outOfFuel
  hasReturned := orderly_hasReturned
  setReturned _ := orderly_update fun m => m.quiet_modifyFrame rfl rfl
  recordStatement _ := orderly_update fun m => m.quiet_note rfl

/-! ### Calls -/

/-- An event is noted before what is orderly behind it. -/
theorem OrderlyAt.record_bind {e : Event} {x : Eval α} {m : Machine} (hm : m.Tidy p)
    (hx : x.OrderlyAt p r outer rest (m.note e)) :
    (record e >>= fun _ => x).OrderlyAt p r outer rest m where
  tidy hvisits := by
    rcases hvisits with (rfl | hend) | ⟨_, m₁, hrun, hvisits⟩
    · exact hm
    · cases hend
      exact hx.tidy (x.visits_start _)
    · cases hrun
      exact hx.tidy hvisits
  looks hlooks := by
    rcases hlooks with hlooks | ⟨_, m₁, hrun, hlooks⟩
    · exact hlooks.elim
    · cases hrun
      exact hx.looks hlooks
  done hrun := hx.done hrun

/-- A body in a frame of its own is orderly if it is so in that frame, and what follows is orderly
behind it. -/
theorem OrderlyAt.inFrame_bind {f : Frame} {x : Eval α} {k : α × Frame → Eval β} {r' : Role}
    {outer' : List Frame} {rest' : List Activation} {m : Machine} (hm : m.Tidy p)
    (hx : x.OrderlyAt p r' outer' rest' (m.enterFrame f))
    (hk : ∀ (a : α) (m₁ : Machine), m₁.Runs p r' outer' rest' →
      (k (a, m₁.leaveFrame.1)).OrderlyAt p r outer rest m₁.leaveFrame.2) :
    (Eval.inFrame f x >>= k).OrderlyAt p r outer rest m := by
  -- If the frame yields something, the body has been done in it.
  have body : ∀ {q m₂}, (Eval.inFrame f x).run m = .done q m₂ →
      (k q).OrderlyAt p r outer rest m₂ := by
    intro q m₂ hrun
    obtain ⟨a, m₁, hbody, rfl, rfl⟩ := run_inFrame_eq_done hrun
    exact hk a m₁ (hx.done hbody)
  refine ⟨?_, ?_, ?_⟩
  · -- Before the frame is entered, in it, when it has been left, and in what follows.
    rintro m' ((rfl | hvisits | ⟨m₁, hend, rfl⟩) | ⟨q, m₂, hrun, hvisits⟩)
    · exact hm
    · exact hx.tidy hvisits
    · exact (hx.tidy (x.visits_end _ _ hend)).leaveFrame
    · exact (body hrun).tidy hvisits
  · rintro k' m' (hlooks | ⟨q, m₂, hrun, hlooks⟩)
    · exact hx.looks hlooks
    · exact (body hrun).looks hlooks
  · intro b m' hrun
    obtain ⟨q, m₂, hfirst, hrun⟩ := run_bind_eq_done hrun
    exact (body hfirst).done hrun

/-- A call is orderly, whatever frame it is made in, if its body is orderly in frames of the
function. -/
theorem orderly_enter {g : Function} (hg : p.function? g.name = some g) (limit : Nat)
    (args : List Value) (loc : Location) {x : Eval α} (hx : x.Orderly p (.function g))
    (value : α → Frame → Value) : (enter limit g args loc x value).Orderly p r := by
  refine orderly_depth.bind fun depth => ?_
  split
  · exact orderly_fail _
  · next hargs =>
    rw [not_not] at hargs
    split
    · exact orderly_fail _
    · intro outer rest m hm
      obtain ⟨ds, hholds, hbegin⟩ := hm.enterFrame hg hargs (depth + 1)
      have hbody := (hx _ _ _ hbegin).record_bind (hm.tidy.enterFrame hg hargs)
      refine hbody.inFrame_bind hm.tidy fun a m₁ hend => ?_
      have hreturned := hend.leaveFrame hm.below hholds depth ((value a m₁.leaveFrame.1).coerce
        g.returnType)
      exact (orderly_pure _ _ _ _ hreturned).record_bind hend.tidy.leaveFrame

variable {config : Config}

/-- A call of a function with a body is orderly if calls by name are. -/
theorem orderly_callFunction (hp : p.Confined) (fuel : Nat)
    (hcall : ∀ (r : Role) (name : String) (args : List Value) (loc : Location),
      (Context.call ⟨p, config⟩ fuel name args loc).Orderly p r)
    {g : Function} {name : String} (hg : p.function? name = some g) (args : List Value)
    (loc : Location) : (callFunction ⟨p, config⟩ fuel g args loc).Orderly p r := by
  obtain rfl := Program.name_of_function? hg
  unfold callFunction callWithin
  split
  · exact orderly_fail _
  · next body hbody =>
    have hsim : StmtSimulation ((Role.function g).likeness p)
        (Context.env ⟨p, config⟩ fuel).isGlobal? (alone (Orderly p (.function g)))
        (alone (Orderly p (.function g))) := stmtSimulation_orderly hp _
    have halike := hp.bodies g (Program.mem_of_function? hg) body hbody
    exact orderly_enter hg _ args loc (hsim.execStmt rfl (hcall _) fuel body halike) _

/-- Calls by name are orderly, whatever frame they are made in. -/
theorem orderly_call (hp : p.Confined) (fuel : Nat) (r : Role) (name : String) (args : List Value)
    (loc : Location) : (Context.call ⟨p, config⟩ fuel name args loc).Orderly p r := by
  -- The calls in the body of a call have one less for their bound.
  induction fuel generalizing r name args loc with
  | zero => exact orderly_outOfFuel
  | succ fuel ih =>
    rw [Context.call_succ]
    unfold Program.callNamed
    dsimp only
    split
    · exact (stmtSimulation_orderly hp r).callIntrinsic _ args loc
    · split
      · next g hg => exact orderly_callFunction hp fuel ih hg args loc
      · exact orderly_fail _

end Eval

/-! ### Runs -/

section

variable {p : Program} {config : Config} {m : Machine}

/-- Behind the note of its start, a run goes on in the root frame. -/
theorem Machine.Tidy.started (h : m.Tidy p) (hroot : m.stack.callers = []) (entry : String) :
    (m.note (.runStarted entry)).Runs p .root [] [] := by
  obtain ⟨r, ds, as, hholds, hbelow⟩ := h.frames
  obtain ⟨es, hes, -⟩ := h.globals
  rw [hroot] at hbelow
  cases hbelow
  refine ⟨.root, ?_, ⟨_, [], journal_note hes _, rfl, ?_⟩,
    h.globals.note fun _ _ => Event.noConfusion⟩
  · rw [stack_note]
    exact hroot
  · rw [stack_note]
    exact ⟨hholds.function_eq, fun id => (hholds.bound id).trans (by simp [Role.varIds])⟩

/-- A run is orderly. -/
theorem Eval.orderlyAt_run (hp : p.Confined) (hm : m.Tidy p) (hroot : m.stack.callers = [])
    (fuel : Nat) : (Context.run ⟨p, config⟩ fuel).OrderlyAt p .root [] [] m := by
  have hsim : StmtSimulation (Role.root.likeness p) (Context.env ⟨p, config⟩ fuel).isGlobal?
      (alone (Orderly p .root)) (alone (Orderly p .root)) := stmtSimulation_orderly hp _
  have hglobals : (Context.declareGlobals (Context.env ⟨p, config⟩ fuel) p.globals).Orderly p
      .root := hsim.declareGlobals rfl (orderly_call hp fuel _) (List.forall₂_same.2 hp.globals)
  unfold Context.run
  refine .record_bind hm (hglobals.bind (fun _ => ?_) _ _ _ (hm.started hroot _))
  dsimp only
  split
  · exact orderly_fail _
  · next f hf =>
    split
    · refine (orderly_callFunction hp fuel (orderly_call hp fuel) hf [] _).bind fun v => ?_
      refine (orderly_flush _).bind fun _ => orderly_liveBlocks.bind fun n => ?_
      exact (orderly_record rfl).bind fun _ => orderly_pure v
    · exact orderly_fail _

end

/-! ### Sessions -/

namespace Session

variable {p : Program} {config : Config} {input : Input} {output : Output} {s : Session}
  {m : Machine}

/-- Between the runs of a session that is followed from its start, its machine is tidy. -/
theorem After.tidy (hp : p.Confined)
    (h : (Session.start p config input output (some [])).After s) : s.machine.Tidy p := by
  induction h with
  | start =>
    refine ⟨⟨.root, [], [], ⟨rfl, fun id => ?_⟩, .root⟩, [], rfl, fun id => ?_⟩
    · simp [Session.start, CallStack.initial, Frame.ofName, Frame.lookup?, Role.paramIds,
        Role.varIds]
    · simp [Session.start]
  | @run s' fuel m h hend ih =>
    have hvisits := Eval.visits_end _ _ _ hend
    rw [h.context_eq] at hvisits
    exact (Eval.orderlyAt_run hp ih (h.root hp.wellFormed).1 fuel).tidy hvisits

/-- A session that is followed from its start passes through tidy machines. -/
theorem Passes.tidy (hp : p.Confined)
    (h : (Session.start p config input output (some [])).Passes m) : m.Tidy p := by
  obtain ⟨s, fuel, hs, hvisits⟩ := h
  rw [hs.context_eq] at hvisits
  exact (Eval.orderlyAt_run hp (hs.tidy hp) (hs.root hp.wellFormed).1 fuel).tidy hvisits

/-- It looks names up where they may be referred to. -/
theorem Looks.runs (hp : p.Confined) {k : Lookup}
    (h : (Session.start p config input output (some [])).Looks k m) :
    ∃ r outer rest, m.Runs p r outer rest ∧ (r.likeness p).links k.link := by
  obtain ⟨s, fuel, hs, hlooks⟩ := h
  rw [hs.context_eq] at hlooks
  exact (Eval.orderlyAt_run hp (hs.tidy hp) (hs.root hp.wellFormed).1 fuel).looks hlooks

end Session

end MiniC
