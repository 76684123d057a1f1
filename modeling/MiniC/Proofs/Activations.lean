import MiniC.Proofs.Confinement
import MiniC.Session

/-!
# Activations

A journal tells which calls are going on, and which variables have been declared in each of them.
In a frame of a call stand the values of the parameters, and those of the variables that have been
declared in it; globally stand the values of the globals that have been declared so far.

Main definitions:

* `MiniC.Activation`, `MiniC.activations`: the calls that are going on behind a journal;
* `MiniC.Frame.Holds`, `MiniC.Program.Below`: frames with the values that belong there;
* `MiniC.Machine.Tidy`: a machine with such frames and globals;
* `MiniC.Machine.Runs`: one whose frames are those that its journal tells of.

Main results:

* `MiniC.Machine.Runs.quiet`: what leaves the variables alone leaves such a machine;
* `MiniC.Machine.Runs.bindVariable`: so does a declaration;
* `MiniC.Machine.Runs.enterFrame`, `MiniC.Machine.Runs.leaveFrame`: the start and the end of a call.
-/

set_option autoImplicit false

namespace MiniC

/-! ### What a journal tells -/

/-- A call that is going on, and the variables that have been declared in it, the last one first. -/
structure Activation where
  function : String
  declared : List Nat
deriving DecidableEq, Repr

/-- The activation behind one more declaration. -/
def Activation.declare (id : Nat) (a : Activation) : Activation :=
  { a with declared := id :: a.declared }

/-- The activations that are going on behind the events of a journal, the innermost one first, and
the initial values of globals last.  A run begins anew, whatever an error has cut off before it. -/
def activations : List Event → List Activation
  | [] => []
  | .runStarted _ :: _ => [⟨Role.root.name, []⟩]
  | .call f _ :: es => ⟨f, []⟩ :: activations es
  | .returned _ _ _ :: es => (activations es).tail
  | .declared id :: es => (activations es).modifyHead (Activation.declare id)
  | _ :: es => activations es

/-- The event neither begins nor ends an activation, and declares no variable. -/
def Event.isQuiet : Event → Bool
  | runStarted _ | call _ _ | returned _ _ _ | declared _ => false
  | _ => true

theorem activations_of_isQuiet {e : Event} (he : e.isQuiet = true) (es : List Event) :
    activations (e :: es) = activations es := by
  cases e <;> first | rfl | cases he

theorem mem_declared_of_isQuiet {e : Event} (he : e.isQuiet = true) (id : Nat) (es : List Event) :
    .declared id ∈ e :: es ↔ .declared id ∈ es := by
  rw [List.mem_cons, or_iff_right]
  rintro rfl
  cases he

/-! ### Frames -/

/-- The frame of a role, in which the variables `ds` have been declared: it holds values of the
parameters and of these variables. -/
structure Frame.Holds (r : Role) (ds : List Nat) (f : Frame) : Prop where
  function_eq : f.function = r.name
  bound : ∀ id, (f.lookup? id).isSome ↔ id ∈ r.paramIds ∨ id ∈ r.varIds ∧ id ∈ ds

/-- Below the frame of a role stand frames of callers, as certain activations tell. -/
inductive Program.Below (p : Program) : Role → List Frame → List Activation → Prop
  | root : Below p .root [] []
  | call {f : Frame} {fs : List Frame} {g : Function} {r : Role} {ds : List Nat}
      {as : List Activation} :
      p.function? g.name = some g → f.Holds r ds → Below p r fs as →
        Below p (.function g) (f :: fs) (⟨r.name, ds⟩ :: as)

theorem Program.Below.played {p : Program} {r : Role} {fs : List Frame} {as : List Activation}
    (h : p.Below r fs as) : r.Played p := by
  cases h with
  | root => trivial
  | call hg _ _ => exact hg

/-- The frame of a call holds values of all parameters. -/
theorem Function.holds_frame (f : Function) {args : List Value}
    (h : args.length = f.params.length) : (f.frame args).Holds (.function f) [] where
  function_eq := by
    obtain ⟨b, hb⟩ := f.exists_frame_eq args
    rw [hb]
    rfl
  bound id := by
    -- The parameters get their values one after the other, beside what the frame holds already.
    have hbound : ∀ (ps : List (Parameter × Value)) (frame : Frame),
        ((ps.foldl (fun frame q => frame.bind q.1.id (q.2.coerce q.1.type)) frame).lookup?
          id).isSome ↔ id ∈ ps.map (fun q => q.1.id) ∨ (frame.lookup? id).isSome := by
      intro ps
      induction ps with
      | nil => simp
      | cons q ps ih =>
        intro frame
        have hbind : (frame.bind q.1.id (q.2.coerce q.1.type)).lookup? id =
            if id = q.1.id then some (q.2.coerce q.1.type) else frame.lookup? id :=
          Bindings.lookup?_bind _ _ _ _
        rw [List.foldl_cons, ih, List.map_cons, List.mem_cons, hbind]
        by_cases hid : id = q.1.id <;> simp [hid]
    have hparams : (f.params.zip args).map (fun q => q.1.id) = f.paramIds := by
      rw [show (fun q : Parameter × Value => q.1.id) = Parameter.id ∘ Prod.fst from rfl,
        ← List.map_map, List.map_fst_zip (Nat.le_of_eq h.symm)]
      rfl
    rw [Function.frame, hbound, hparams]
    simp [Frame.ofName, Frame.lookup?, Role.paramIds]

/-! ### Machines -/

namespace Machine

variable {p : Program} {r : Role} {outer : List Frame} {rest : List Activation} {m m' : Machine}

/-- Just the globals that have been declared have values. -/
def HoldsGlobals (p : Program) (m : Machine) : Prop :=
  ∃ es, m.journal = some es ∧
    ∀ id, (m.globals.lookup? id).isSome ↔ id ∈ p.globalIds ∧ .declared id ∈ es

/-- All frames hold what belongs there, and so do the globals. -/
structure Tidy (p : Program) (m : Machine) : Prop where
  frames : ∃ r ds as, m.stack.current.Holds r ds ∧ p.Below r m.stack.callers as
  globals : m.HoldsGlobals p

/-- The machine runs in a frame of the role `r`, above the frames `outer`; its journal tells so, and
of the activations `rest` below. -/
structure Runs (p : Program) (r : Role) (outer : List Frame) (rest : List Activation)
    (m : Machine) : Prop where
  below : p.Below r outer rest
  callers_eq : m.stack.callers = outer
  current : ∃ es ds, m.journal = some es ∧ activations es = ⟨r.name, ds⟩ :: rest ∧
    m.stack.current.Holds r ds
  globals : m.HoldsGlobals p

theorem Runs.tidy (h : m.Runs p r outer rest) : m.Tidy p where
  frames :=
    have ⟨_, ds, _, _, hholds⟩ := h.current
    ⟨r, ds, rest, hholds, h.callers_eq ▸ h.below⟩
  globals := h.globals

/-! ### What leaves the variables alone -/

/-- No variable gets its first value, and no call begins or ends. -/
structure Quiet (m m' : Machine) : Prop where
  callers_eq : m'.stack.callers = m.stack.callers
  function_eq : m'.stack.current.function = m.stack.current.function
  locals : ∀ id, (m'.stack.current.lookup? id).isSome = (m.stack.current.lookup? id).isSome
  globals : ∀ id, (m'.globals.lookup? id).isSome = (m.globals.lookup? id).isSome
  journal : ∀ es, m.journal = some es → ∃ es', m'.journal = some es' ∧
    activations es' = activations es ∧ ∀ id, .declared id ∈ es' ↔ .declared id ∈ es

theorem HoldsGlobals.quiet (h : m.HoldsGlobals p) (hq : m.Quiet m') : m'.HoldsGlobals p := by
  obtain ⟨es, hes, hbound⟩ := h
  obtain ⟨es', hes', -, hdeclared⟩ := hq.journal es hes
  exact ⟨es', hes', fun id => by rw [hq.globals, hbound, hdeclared]⟩

theorem Quiet.holds {ds : List Nat} (hq : m.Quiet m') (h : m.stack.current.Holds r ds) :
    m'.stack.current.Holds r ds where
  function_eq := hq.function_eq.trans h.function_eq
  bound id := by rw [hq.locals, h.bound]

/-- What leaves the variables alone goes on in the same frame. -/
theorem Runs.quiet (h : m.Runs p r outer rest) (hq : m.Quiet m') : m'.Runs p r outer rest where
  below := h.below
  callers_eq := hq.callers_eq.trans h.callers_eq
  current := by
    obtain ⟨es, ds, hes, hactive, hholds⟩ := h.current
    obtain ⟨es', hes', hsame, -⟩ := hq.journal es hes
    exact ⟨es', ds, hes', hsame.trans hactive, hq.holds hholds⟩
  globals := h.globals.quiet hq

theorem Quiet.refl (m : Machine) : m.Quiet m :=
  ⟨rfl, rfl, fun _ => rfl, fun _ => rfl, fun es hes => ⟨es, hes, rfl, fun _ => Iff.rfl⟩⟩

theorem Quiet.trans {m'' : Machine} (h : m.Quiet m') (h' : m'.Quiet m'') : m.Quiet m'' where
  callers_eq := h'.callers_eq.trans h.callers_eq
  function_eq := h'.function_eq.trans h.function_eq
  locals id := (h'.locals id).trans (h.locals id)
  globals id := (h'.globals id).trans (h.globals id)
  journal es hes := by
    obtain ⟨es', hes', hactive, hdeclared⟩ := h.journal es hes
    obtain ⟨es'', hes'', hactive', hdeclared'⟩ := h'.journal es' hes'
    exact ⟨es'', hes'', hactive'.trans hactive, fun id => (hdeclared' id).trans (hdeclared id)⟩

/-- Heap, input and output are not looked at. -/
theorem Quiet.of_eq (hs : m'.stack = m.stack) (hg : m'.globals = m.globals)
    (hj : m'.journal = m.journal) : m.Quiet m' where
  callers_eq := by rw [hs]
  function_eq := by rw [hs]
  locals _ := by rw [hs]
  globals _ := by rw [hg]
  journal es hes := ⟨es, hj.trans hes, rfl, fun _ => Iff.rfl⟩

theorem quiet_note (m : Machine) {e : Event} (he : e.isQuiet = true) : m.Quiet (m.note e) where
  callers_eq := by rw [stack_note]
  function_eq := by rw [stack_note]
  locals _ := by rw [stack_note]
  globals _ := by rw [globals_note]
  journal es hes :=
    ⟨e :: es, journal_note hes e, activations_of_isQuiet he es, fun id =>
      mem_declared_of_isQuiet he id es⟩

/-- The frame may change, but not its variables. -/
theorem quiet_modifyFrame (m : Machine) {f : Frame → Frame}
    (hf : (f m.stack.current).function = m.stack.current.function)
    (hb : (f m.stack.current).bindings = m.stack.current.bindings) : m.Quiet (m.modifyFrame f) where
  callers_eq := rfl
  function_eq := hf
  locals id := by
    show ((f m.stack.current).bindings.lookup? id).isSome = _
    rw [hb]
    rfl
  globals _ := rfl
  journal es hes := ⟨es, hes, rfl, fun _ => Iff.rfl⟩

/-- An assignment replaces a value where there is one. -/
theorem quiet_writePlace {place : Place} {v : Value} (h : m.writePlace place v = .ok m') :
    m.Quiet m' := by
  obtain ⟨id, -, rfl⟩ | ⟨id, -, rfl⟩ | ⟨q, heap, -, -, rfl⟩ := eq_of_writePlace h
  · exact ⟨rfl, rfl, fun other => Bindings.isSome_lookup?_getD_assign? _ id other v,
      fun _ => rfl, fun es hes => ⟨es, hes, rfl, fun _ => Iff.rfl⟩⟩
  · exact ⟨rfl, rfl, fun _ => rfl,
      fun other => Bindings.isSome_lookup?_getD_assign? _ id other v,
      fun es hes => ⟨es, hes, rfl, fun _ => Iff.rfl⟩⟩
  · exact .of_eq rfl rfl rfl

/-- What changes the heap and is noted. -/
theorem quiet_heap (m : Machine) (heap : Heap) {e : Event} (he : e.isQuiet = true) :
    m.Quiet ({ m with heap := heap }.note e) := by
  have hheap : m.Quiet { m with heap := heap } := .of_eq rfl rfl rfl
  exact hheap.trans (quiet_note _ he)

theorem quiet_allocate {size : Nat} {q : Pointer} (h : m.allocate size = .ok (q, m')) :
    m.Quiet m' := by
  obtain ⟨heap, -, rfl⟩ := eq_of_allocate h
  exact m.quiet_heap heap rfl

theorem quiet_release {q : Pointer} (h : m.release q = .ok m') : m.Quiet m' := by
  obtain ⟨size, heap, -, rfl⟩ := eq_of_release h
  exact m.quiet_heap heap rfl

theorem quiet_storeArray {isGlobal : Bool} {id size : Nat} {q : Pointer}
    (h : m.storeArray isGlobal id size = .ok (q, m')) : m.Quiet m' := by
  obtain ⟨heap, -, rfl⟩ := eq_of_storeArray h
  have hstored := m.quiet_heap heap (e := .stored id q.region) rfl
  cases isGlobal with
  | true => exact hstored
  | false => exact hstored.trans (quiet_modifyFrame _ (f := fun f => f.own q.region) rfl rfl)

theorem quiet_dropOldArray (m : Machine) (id : Nat) : m.Quiet (m.dropOldArray id) := by
  obtain h | ⟨q, ids, -, -, h⟩ := m.dropOldArray_eq id
  · rw [h]
    exact .refl m
  · have hframe : m.Quiet (m.modifyFrame fun f => { f with owned := ids }) :=
      m.quiet_modifyFrame rfl rfl
    rw [h]
    exact hframe.trans (.of_eq rfl rfl rfl)

/-! ### Declarations -/

/-- What is noted, other than the declaration of a global, leaves the globals. -/
theorem HoldsGlobals.note (h : m.HoldsGlobals p) {e : Event}
    (he : ∀ id ∈ p.globalIds, e ≠ .declared id) : (m.note e).HoldsGlobals p := by
  obtain ⟨es, hes, hbound⟩ := h
  refine ⟨e :: es, journal_note hes e, fun id => ?_⟩
  rw [globals_note, hbound, List.mem_cons]
  refine and_congr_right fun hid => ?_
  rw [or_iff_right (he id hid).symm]

/-- A global that is declared has a value from then on. -/
theorem Runs.bindGlobal (h : m.Runs p .root outer rest) {id : Nat} (hid : id ∈ p.globalIds)
    (w : Value) :
    ({ m with globals := m.globals.bind id w }.note (.declared id)).Runs p .root outer rest := by
  obtain ⟨es, ds, hes, hactive, hholds⟩ := h.current
  obtain ⟨es', hes', hbound⟩ := h.globals
  obtain rfl : es = es' := Option.some.inj (hes.symm.trans hes')
  have hjournal : ({ m with globals := m.globals.bind id w } : Machine).journal = some es := hes
  refine ⟨h.below, ?_, ⟨_, id :: ds, journal_note hjournal _, ?_, ?_⟩,
    ⟨_, journal_note hjournal _, fun other => ?_⟩⟩
  · rw [stack_note]
    exact h.callers_eq
  · rw [activations, hactive]
    rfl
  · -- The frame holds nothing, whatever is declared in it.
    rw [stack_note]
    exact ⟨hholds.function_eq, fun other => (hholds.bound other).trans (by simp [Role.varIds])⟩
  · rw [globals_note]
    show ((m.globals.bind id w).lookup? other).isSome ↔ _
    rw [Bindings.lookup?_bind, List.mem_cons, Event.declared.injEq]
    by_cases ho : other = id
    · rw [if_pos ho]
      exact iff_of_true rfl ⟨ho ▸ hid, .inl ho⟩
    · rw [if_neg ho, or_iff_right ho]
      exact hbound other

/-- A variable of a function that is declared has a value in the frame from then on. -/
theorem Runs.bindLocal (hp : p.Confined) {f : Function} (h : m.Runs p (.function f) outer rest)
    {id : Nat} (hid : id ∈ f.varIds) (w : Value) :
    ((m.modifyFrame fun g => g.bind id w).note (.declared id)).Runs p (.function f) outer rest := by
  obtain ⟨es, ds, hes, hactive, hholds⟩ := h.current
  have hjournal : (m.modifyFrame fun g => g.bind id w).journal = some es := hes
  have hglobals : (m.modifyFrame fun g => g.bind id w).HoldsGlobals p := h.globals
  refine ⟨h.below, ?_, ⟨_, id :: ds, journal_note hjournal _, ?_, ?_⟩, hglobals.note ?_⟩
  · rw [stack_note]
    exact h.callers_eq
  · rw [activations, hactive]
    rfl
  · rw [stack_note]
    refine ⟨hholds.function_eq, fun other => ?_⟩
    show ((m.stack.current.bindings.bind id w).lookup? other).isSome ↔ _
    rw [Bindings.lookup?_bind, List.mem_cons]
    by_cases ho : other = id
    · rw [if_pos ho]
      exact iff_of_true rfl (.inr ⟨ho ▸ hid, .inl ho⟩)
    · rw [if_neg ho, or_iff_right ho]
      exact hholds.bound other
  · rintro other ho ⟨⟩
    have hf : f ∈ p.functions := Program.mem_of_function? h.below.played
    exact hp.not_mem_globalIds hf (List.mem_append_right _ hid) ho

/-- In the frame of a role, what the role declares gets its value where it belongs. -/
theorem Runs.bindVariable (hp : p.Confined) (h : m.Runs p r outer rest) {id : Nat}
    (hid : id ∈ r.declaredIds p) (depth : Nat) (w : Value) :
    (m.bindVariable ((p.isGlobal? id).getD (depth == 0)) id w).Runs p r outer rest := by
  cases r with
  | root =>
    obtain ⟨v, hv, rfl⟩ := List.mem_map.1 hid
    rw [hp.wellFormed.globals v hv]
    exact h.bindGlobal hid w
  | function f =>
    have hf : f ∈ p.functions := Program.mem_of_function? h.below.played
    obtain ⟨v, hv, rfl⟩ := List.mem_map.1 hid
    rw [hp.wellFormed.locals f hf v hv]
    exact h.bindLocal hp hid w

/-! ### Calls -/

/-- A frame that is entered holds values of the parameters. -/
theorem Tidy.enterFrame (h : m.Tidy p) {g : Function} (hg : p.function? g.name = some g)
    {args : List Value} (hargs : args.length = g.params.length) :
    (m.enterFrame (g.frame args)).Tidy p where
  frames :=
    have ⟨_, _, _, hholds, hbelow⟩ := h.frames
    ⟨_, _, _, g.holds_frame hargs, .call hg hholds hbelow⟩
  globals := h.globals

theorem HoldsGlobals.leaveFrame (h : m.HoldsGlobals p) : m.leaveFrame.2.HoldsGlobals p := by
  unfold Machine.leaveFrame
  split <;> exact h

/-- The frame below one that is left is as it was. -/
theorem Tidy.leaveFrame (h : m.Tidy p) : m.leaveFrame.2.Tidy p where
  frames := by
    obtain ⟨r, ds, as, hholds, hbelow⟩ := h.frames
    obtain ⟨heap, ⟨current, callers, depth, hdepth⟩, globals, input, output, journal⟩ := m
    cases hbelow with
    | root => exact ⟨_, _, _, hholds, .root⟩
    | call _ hcaller hbelow => exact ⟨_, _, _, hcaller, hbelow⟩
  globals := h.globals.leaveFrame

/-- A call that begins runs above the frame that it is made in. -/
theorem Runs.enterFrame (h : m.Runs p r outer rest) {g : Function}
    (hg : p.function? g.name = some g) {args : List Value} (hargs : args.length = g.params.length)
    (depth : Nat) : ∃ ds, m.stack.current.Holds r ds ∧
      ((m.enterFrame (g.frame args)).note (.call g.name depth)).Runs p (.function g)
        (m.stack.current :: outer) (⟨r.name, ds⟩ :: rest) := by
  obtain ⟨es, ds, hes, hactive, hholds⟩ := h.current
  have hjournal : (m.enterFrame (g.frame args)).journal = some es := hes
  refine ⟨ds, hholds, .call hg hholds h.below, ?_, ⟨_, [], journal_note hjournal _, ?_, ?_⟩, ?_⟩
  · rw [stack_note]
    show m.stack.current :: m.stack.callers = m.stack.current :: outer
    rw [h.callers_eq]
  · rw [activations, hactive]
    rfl
  · rw [stack_note]
    exact g.holds_frame hargs
  · have hglobals : (m.enterFrame (g.frame args)).HoldsGlobals p := h.globals
    exact hglobals.note fun _ _ => Event.noConfusion

/-- A call that ends leaves the frame that it was made in. -/
theorem Runs.leaveFrame {f : Frame} {ds : List Nat} {g : Function} (hbelow : p.Below r outer rest)
    (hholds : f.Holds r ds) (h : m.Runs p (.function g) (f :: outer) (⟨r.name, ds⟩ :: rest))
    (depth : Nat) (v : Value) :
    (m.leaveFrame.2.note (.returned g.name depth v)).Runs p r outer rest := by
  obtain ⟨es, ds', hes, hactive, -⟩ := h.current
  have hstack : m.leaveFrame.2.stack = ⟨f, outer, outer.length, rfl⟩ :=
    stack_leaveFrame (s := ⟨f, outer, outer.length, rfl⟩) h.callers_eq
  have hjournal : m.leaveFrame.2.journal = some es := (journal_leaveFrame m).trans hes
  refine ⟨hbelow, ?_, ⟨_, ds, journal_note hjournal _, ?_, ?_⟩, ?_⟩
  · rw [stack_note, hstack]
  · rw [activations, hactive]
    rfl
  · rw [stack_note, hstack]
    exact hholds
  · exact h.globals.leaveFrame.note fun _ _ => Event.noConfusion

end Machine

end MiniC
