import MiniC.Proofs.Simulation

/-!
# Computations that agree

The remembered values of expressions are never read by a program, nor is the journal, and whether a
function has returned is not read by its expressions.  So we forget some of them, and say that two
computations agree if from machines that are then the same they yield the same, and leave machines
that are then the same.  Forgetting goes along with every operation that does not read
what is forgotten; hence agreement is a simulation.

Main definitions:

* `MiniC.Blur`, `MiniC.Blur.machine`: what is forgotten, and a machine without it;
* `MiniC.Eval.Agree`: two computations agree.

Main results:

* `MiniC.Blur.machine_machine`: what is forgotten stays so;
* `MiniC.Eval.Agree.bind`, `MiniC.Eval.Agree.inFrame`: sequences and calls of what agrees agree;
* `MiniC.Eval.declSimulation_agree`, `MiniC.Eval.runSimulation_agree`: agreement is a simulation.
-/

set_option autoImplicit false

namespace MiniC

/-- What is forgotten: the remembered values in all frames, whether a function has returned, and the
journal. -/
structure Blur where
  caches : Bool
  returns : Bool
  journals : Bool
deriving DecidableEq, Repr, Inhabited

namespace Blur

variable (b : Blur)

/-- The frame without what is forgotten. -/
def frame (f : Frame) : Frame :=
  { f with
    cache := bif b.caches then [] else f.cache
    returned := bif b.returns then none else f.returned }

/-- The stack without what is forgotten. -/
def stack (s : CallStack) : CallStack where
  current := b.frame s.current
  callers := s.callers.map b.frame
  depth := s.depth
  depth_eq := by rw [List.length_map, s.depth_eq]

/-- The machine without what is forgotten. -/
def machine (m : Machine) : Machine :=
  { m with
    stack := b.stack m.stack
    journal := bif b.journals then none else m.journal }

@[simp] theorem frame_frame (f : Frame) : b.frame (b.frame f) = b.frame f := by
  obtain ⟨c, r, j⟩ := b
  cases c <;> cases r <;> rfl

@[simp] theorem stack_stack (s : CallStack) : b.stack (b.stack s) = b.stack s := by
  refine CallStack.ext_frames (b.frame_frame _) ?_
  show (s.callers.map b.frame).map b.frame = s.callers.map b.frame
  rw [List.map_map]
  exact List.map_congr_left fun f _ => b.frame_frame f

/-- What is forgotten stays so. -/
@[simp] theorem machine_machine (m : Machine) : b.machine (b.machine m) = b.machine m := by
  rw [machine, machine, stack_stack]
  cases b.journals <;> rfl

/-- Whether a function has returned is not forgotten with something else. -/
theorem returned_eq {b : Blur} (hb : b.returns = false) {f g : Frame} (h : b.frame f = b.frame g) :
    f.returned = g.returned := by
  have hreturned : (b.frame f).returned = (b.frame g).returned := by rw [h]
  unfold frame at hreturned
  rwa [hb] at hreturned

/-! ### Operations -/

theorem note (m : Machine) (e : Event) : (b.machine m).note e = b.machine (m.note e) := by
  obtain ⟨c, r, j⟩ := b
  obtain ⟨heap, stack, globals, input, output, journal⟩ := m
  cases j <;> cases journal <;> rfl

theorem readName (m : Machine) (x : String) (link : Option Nat) :
    (b.machine m).readName x link = m.readName x link := rfl

theorem placeOfName (m : Machine) (x : String) (link : Option Nat) (isArray : Nat → Bool) :
    (b.machine m).placeOfName x link isArray = m.placeOfName x link isArray := rfl

theorem readPlace (m : Machine) (place : Place) :
    (b.machine m).readPlace place = m.readPlace place := by
  cases place <;> rfl

theorem writePlace (m : Machine) (place : Place) (v : Value) :
    (b.machine m).writePlace place v = (m.writePlace place v).map b.machine := by
  cases place with
  | «local» id =>
    have hassign : ((b.frame m.stack.current).assign? id v).getD (b.frame m.stack.current) =
        b.frame ((m.stack.current.assign? id v).getD m.stack.current) := by
      unfold Frame.assign?
      rw [show (b.frame m.stack.current).bindings = m.stack.current.bindings from rfl]
      cases m.stack.current.bindings.assign? id v <;> rfl
    show Except.ok ((b.machine m).modifyFrame _) = Except.ok (b.machine (m.modifyFrame _))
    congr 1
    unfold machine Machine.modifyFrame
    congr 1
    exact CallStack.ext_frames hassign rfl
  | global id => rfl
  | memory p =>
    simp only [Machine.writePlace]
    rw [show (b.machine m).heap = m.heap from rfl]
    cases m.heap.write p v <;> rfl

theorem bindVariable (m : Machine) (isGlobal : Bool) (id : Nat) (v : Value) :
    (b.machine m).bindVariable isGlobal id v = b.machine (m.bindVariable isGlobal id v) := by
  unfold Machine.bindVariable
  dsimp only
  rw [← b.note]
  cases isGlobal <;> rfl

theorem modifyFrame (m : Machine) {f : Frame → Frame} (hf : ∀ g, f (b.frame g) = b.frame (f g)) :
    (b.machine m).modifyFrame f = b.machine (m.modifyFrame f) := by
  unfold machine Machine.modifyFrame
  congr 1
  exact CallStack.ext_frames (hf _) rfl

theorem allocate (m : Machine) (size : Nat) :
    (b.machine m).allocate size = (m.allocate size).map fun r => (r.1, b.machine r.2) := by
  unfold Machine.allocate
  rw [show (b.machine m).heap = m.heap from rfl]
  cases m.heap.allocate .block size with
  | error e => rfl
  | ok r => exact congrArg (fun m' => Except.ok (r.1, m')) (b.note { m with heap := r.2 } _)

theorem release (m : Machine) (p : Pointer) :
    (b.machine m).release p = (m.release p).map b.machine := by
  unfold Machine.release
  rw [show (b.machine m).heap = m.heap from rfl]
  cases m.heap.release p with
  | error e => rfl
  | ok r => exact congrArg Except.ok (b.note { m with heap := r.2 } _)

theorem storeArray (m : Machine) (isGlobal : Bool) (d size : Nat) :
    (b.machine m).storeArray isGlobal d size =
      (m.storeArray isGlobal d size).map fun r => (r.1, b.machine r.2) := by
  unfold Machine.storeArray
  rw [show (b.machine m).heap = m.heap from rfl]
  cases m.heap.allocate .array size with
  | error e => rfl
  | ok r =>
    have hnote := b.note { m with heap := r.2 } (.stored d r.1.region)
    cases isGlobal with
    | true => exact congrArg (fun m' => Except.ok (r.1, m')) hnote
    | false =>
      have hown := b.modifyFrame
        (({ m with heap := r.2 } : Machine).note (.stored d r.1.region))
        (f := fun f => f.own r.1.region) fun _ => rfl
      rw [← hnote] at hown
      exact congrArg (fun m' => Except.ok (r.1, m')) hown

theorem dropOldArray (m : Machine) (d : Nat) :
    (b.machine m).dropOldArray d = b.machine (m.dropOldArray d) := by
  unfold Machine.dropOldArray
  rw [show (b.machine m).stack.current.lookup? d = m.stack.current.lookup? d from rfl]
  cases (m.stack.current.lookup? d).bind Value.pointer? with
  | none => rfl
  | some p =>
    dsimp only [Frame.disown?]
    rw [show (b.machine m).stack.current.owned = m.stack.current.owned from rfl]
    cases Frame.swapRemove? p.region m.stack.current.owned with
    | none => rfl
    | some ids => rfl

theorem enterFrame (m : Machine) {f : Frame} (hf : b.frame f = f) :
    (b.machine m).enterFrame f = b.machine (m.enterFrame f) := by
  unfold machine Machine.enterFrame
  congr 1
  exact CallStack.ext_frames hf.symm rfl

/-- What is left of the machine when a frame is left. -/
theorem leaveFrame (m : Machine) : (b.machine m).leaveFrame.2 = b.machine m.leaveFrame.2 := by
  obtain ⟨heap, ⟨f, callers, depth, hdepth⟩, globals, input, output, journal⟩ := m
  cases callers <;> rfl

end Blur

/-- The machines are the same up to what is forgotten. -/
def Blur.Same (b : Blur) (m m' : Machine) : Prop := b.machine m = b.machine m'

namespace Blur.Same

variable {b : Blur} {m m' : Machine} (h : b.Same m m')

include h

theorem heap_eq : m.heap = m'.heap :=
  show (b.machine m).heap = (b.machine m').heap by rw [h]

theorem globals_eq : m.globals = m'.globals :=
  show (b.machine m).globals = (b.machine m').globals by rw [h]

theorem input_eq : m.input = m'.input :=
  show (b.machine m).input = (b.machine m').input by rw [h]

theorem output_eq : m.output = m'.output :=
  show (b.machine m).output = (b.machine m').output by rw [h]

theorem depth_eq : m.stack.depth = m'.stack.depth :=
  show (b.machine m).stack.depth = (b.machine m').stack.depth by rw [h]

theorem current_eq : b.frame m.stack.current = b.frame m'.stack.current :=
  show (b.machine m).stack.current = (b.machine m').stack.current by rw [h]

theorem with_input (input : Input) :
    b.Same { m with input := input } { m' with input := input } := by
  show ({ b.machine m with input := input } : Machine) = { b.machine m' with input := input }
  rw [show b.machine m = b.machine m' from h]

theorem with_output (output : Output) :
    b.Same { m with output := output } { m' with output := output } := by
  show ({ b.machine m with output := output } : Machine) = { b.machine m' with output := output }
  rw [show b.machine m = b.machine m' from h]

theorem note (e : Event) : b.Same (m.note e) (m'.note e) := by
  rw [Same, ← b.note, ← b.note, h]

theorem enterFrame {f : Frame} (hf : b.frame f = f) :
    b.Same (m.enterFrame f) (m'.enterFrame f) := by
  rw [Same, ← b.enterFrame _ hf, ← b.enterFrame _ hf, h]

theorem leaveFrame : b.Same m.leaveFrame.2 m'.leaveFrame.2 := by
  rw [Same, ← b.leaveFrame, ← b.leaveFrame, h]

end Blur.Same

/-- Two computations end alike: with values and machines that `Q` relates, or with the same error
and machines that `R` relates; or both are cut off. -/
inductive Outcome.Alike {α β : Type} (Q : α → Machine → β → Machine → Prop)
    (R : Machine → Machine → Prop) : Outcome α → Outcome β → Prop
  | done {a : α} {b : β} {m m' : Machine} : Q a m b m' → Alike Q R (.done a m) (.done b m')
  | failed (e : RuntimeError) {m m' : Machine} : R m m' → Alike Q R (.failed e m) (.failed e m')
  | outOfFuel : Alike Q R .outOfFuel .outOfFuel

/-- What is related more closely is related. -/
theorem Outcome.Alike.mono {α β : Type} {Q Q' : α → Machine → β → Machine → Prop}
    {R R' : Machine → Machine → Prop} {o : Outcome α} {o' : Outcome β} (h : Alike Q R o o')
    (hQ : ∀ a m b m', o = .done a m → Q a m b m' → Q' a m b m')
    (hR : ∀ m m', R m m' → R' m m') : Alike Q' R' o o' := by
  cases h with
  | done h => exact .done (hQ _ _ _ _ rfl h)
  | failed e h => exact .failed e (hR _ _ h)
  | outOfFuel => exact .outOfFuel

namespace Eval

variable {α β : Type} {b : Blur}

/-! ### Agreement -/

/-- From machines that are the same up to what is forgotten, both computations end alike: with the
same value or error, and with machines that are the same up to what is forgotten. -/
def Agree (b : Blur) (x y : Eval α) : Prop :=
  ∀ m m', b.Same m m' →
    Outcome.Alike (fun a m a' m' => a = a' ∧ b.Same m m') b.Same (x.run m) (y.run m')

theorem Agree.bind {x y : Eval α} {f g : α → Eval β} (hxy : Agree b x y)
    (hfg : ∀ a, Agree b (f a) (g a)) : Agree b (x >>= f) (y >>= g) := by
  intro m m' hm
  have hrun := hxy m m' hm
  rw [run_bind, run_bind]
  generalize x.run m = r, y.run m' = r' at hrun
  cases hrun with
  | done hm₁ =>
    obtain ⟨rfl, hm₁⟩ := hm₁
    exact hfg _ _ _ hm₁
  | failed e hm₁ => exact .failed e hm₁
  | outOfFuel => exact .outOfFuel

/-! ### Operations -/

theorem agree_pure (a : α) : Agree b (pure a) (pure a) := fun _ _ hm => .done ⟨rfl, hm⟩

theorem agree_fail (e : RuntimeError) : Agree b (fail e : Eval α) (fail e) :=
  fun _ _ hm => .failed e hm

theorem agree_outOfFuel : Agree b (outOfFuel : Eval α) outOfFuel := fun _ _ _ => .outOfFuel

theorem agree_query (loc : Location) {f : Machine → Except Fault α}
    (hf : ∀ m, f (b.machine m) = f m) : Agree b (query loc f) (query loc f) := by
  intro m m' hm
  have heq : f m = f m' := by rw [← hf m, hm, hf m']
  dsimp only [query, op]
  rw [← heq]
  cases f m with
  | ok a => exact .done ⟨rfl, hm⟩
  | error e => exact .failed _ hm

theorem agree_lookUp (k : Lookup) (loc : Location) {f : Machine → Except Fault α}
    (hf : ∀ m, f (b.machine m) = f m) : Agree b (lookUp k loc f) (lookUp k loc f) :=
  agree_query loc hf

theorem agree_update {f : Machine → Machine}
    (hf : ∀ m, b.machine (f (b.machine m)) = b.machine (f m)) :
    Agree b (update f) (update f) := by
  intro m m' hm
  refine .done ⟨rfl, ?_⟩
  rw [Blur.Same, ← hf m, hm, hf m']

theorem agree_attempt (loc : Location) {f : Machine → Except Fault Machine}
    (hf : ∀ m, f (b.machine m) = (f m).map b.machine) :
    Agree b (attempt loc f) (attempt loc f) := by
  intro m m' hm
  have heq : (f m).map b.machine = (f m').map b.machine := by rw [← hf m, hm, hf m']
  dsimp only [attempt, op]
  generalize f m = r, f m' = r' at heq
  -- Forgetting does not turn an error into a machine, so both are errors or neither is.
  match r, r', heq with
  | .error e, .error _, rfl => exact .failed _ hm
  | .ok _, .ok _, heq => exact .done ⟨rfl, Except.ok.inj heq⟩

theorem agree_create (loc : Location) {f : Machine → Except Fault (α × Machine)}
    (hf : ∀ m, f (b.machine m) = (f m).map fun r => (r.1, b.machine r.2)) :
    Agree b (create loc f) (create loc f) := by
  intro m m' hm
  have heq : ((f m).map fun r => (r.1, b.machine r.2)) =
      (f m').map fun r => (r.1, b.machine r.2) := by rw [← hf m, hm, hf m']
  dsimp only [create, op]
  generalize f m = r, f m' = r' at heq
  match r, r', heq with
  | .error e, .error _, rfl => exact .failed _ hm
  | .ok _, .ok _, heq =>
    obtain ⟨hvalue, hmachine⟩ := Prod.mk.inj (Except.ok.inj heq)
    exact .done ⟨hvalue, hmachine⟩

theorem agree_depth : Agree b depth depth := fun _ _ hm =>
  .done ⟨hm.depth_eq, hm⟩

theorem agree_record (e : Event) : Agree b (record e) (record e) :=
  agree_update fun m => by rw [b.note, b.machine_machine]

theorem agree_modifyFrame {f : Frame → Frame} (hf : ∀ g, b.frame (f (b.frame g)) = b.frame (f g)) :
    Agree b (update fun m => m.modifyFrame f) (update fun m => m.modifyFrame f) :=
  agree_update fun m => by
    unfold Blur.machine Machine.modifyFrame
    congr 1
    · refine CallStack.ext_frames (hf _) ?_
      show (m.stack.callers.map b.frame).map b.frame = m.stack.callers.map b.frame
      rw [List.map_map]
      exact List.map_congr_left fun f _ => b.frame_frame f
    · cases b.journals <;> rfl

theorem agree_readInteger (loc : Location) : Agree b (readInteger loc) (readInteger loc) := by
  intro m m' hm
  dsimp only [readInteger, op]
  rw [← hm.input_eq]
  rcases m.input.next with ⟨e | n, input⟩
  · exact .failed _ ((hm.with_input input).note _)
  · exact .done ⟨rfl, (hm.with_input input).note _⟩

theorem agree_writeLine (n : Int64) (loc : Location) :
    Agree b (writeLine n loc) (writeLine n loc) := by
  intro m m' hm
  rw [run_writeLine, run_writeLine, ← hm.output_eq]
  rcases m.output.write (line n) with ⟨_ | _, output⟩
  · exact .failed _ (hm.with_output output)
  · exact .done ⟨rfl, (hm.with_output output).note _⟩

theorem agree_flush (loc : Location) : Agree b (Context.flush loc) (Context.flush loc) := by
  intro m m' hm
  dsimp only [Context.flush, op]
  rw [← hm.output_eq]
  cases m.output.flush with
  | ok _ => exact .done ⟨rfl, hm⟩
  | error e => exact .failed _ hm

theorem agree_liveBlocks : Agree b Context.liveBlocks Context.liveBlocks := fun _ _ hm =>
  .done ⟨congrArg Heap.blockCount hm.heap_eq, hm⟩

/-! ### Calls -/

/-- In the frame of a call there is nothing to forget: the function has not returned, and nothing is
remembered. -/
theorem blank_frame (f : Function) (args : List Value) :
    (f.frame args).cache = [] ∧ (f.frame args).returned = none := by
  obtain ⟨b, hb⟩ := f.exists_frame_eq args
  rw [hb]
  exact ⟨rfl, rfl⟩

theorem frame_eq_of_blank (b : Blur) {f : Frame} (h : f.cache = [] ∧ f.returned = none) :
    b.frame f = f := by
  obtain ⟨function, bindings, cache, returned, owned⟩ := f
  obtain ⟨rfl, rfl⟩ := h
  obtain ⟨c, r, j⟩ := b
  cases c <;> cases r <;> rfl

theorem leaveFrame_eq_current (m : Machine) : m.leaveFrame.1 = m.stack.current := by
  obtain ⟨heap, ⟨f, callers, depth, hdepth⟩, globals, input, output, journal⟩ := m
  cases callers <;> rfl

/-- Calls agree if their bodies do: from frames in which the function has not returned, they have to
end alike, with the same returned values. -/
theorem agree_enter {limit : Nat} (f : Function) (args : List Value) (loc : Location)
    {x : Eval α} {y : Eval β} {v : α → Frame → Value} {w : β → Frame → Value}
    (hxy : ∀ m m', b.Same m m' → m.stack.current.returned = none →
      Outcome.Alike
        (fun a m a' m' => v a m.stack.current = w a' m'.stack.current ∧ b.Same m m') b.Same
        (x.run m) (y.run m')) :
    Agree b (enter limit f args loc x v) (enter limit f args loc y w) := by
  refine agree_depth.bind fun depth => ?_
  split
  · exact agree_fail _
  · split
    · exact agree_fail _
    · intro m m' hm
      have hblank := blank_frame f args
      have hm₁ : b.Same ((m.enterFrame (f.frame args)).note (.call f.name (depth + 1)))
          ((m'.enterFrame (f.frame args)).note (.call f.name (depth + 1))) :=
        (hm.enterFrame (frame_eq_of_blank b hblank)).note _
      -- Both bodies begin on the machines behind the note of the call.
      have hbody := hxy _ _ hm₁ (by rw [Machine.stack_note]; exact hblank.2)
      have hrun : ∀ {γ : Type} (z : Eval γ) (m : Machine),
          (record (.call f.name (depth + 1)) >>= fun _ => z).run m =
            z.run (m.note (.call f.name (depth + 1))) := fun _ _ => rfl
      rw [run_bind, run_bind, run_inFrame, run_inFrame, hrun, hrun]
      generalize x.run _ = r, y.run _ = r' at hbody
      cases hbody with
      | done h₁ =>
        obtain ⟨hvalue, hm₁⟩ := h₁
        dsimp only
        rw [leaveFrame_eq_current, leaveFrame_eq_current, hvalue]
        exact ((agree_record _).bind fun _ => agree_pure _) _ _ hm₁.leaveFrame
      | failed e hm₁ => exact .failed e hm₁.leaveFrame
      | outOfFuel => exact .outOfFuel

/-! ### Agreement is a simulation -/

/-- What is remembered does not matter once it is forgotten. -/
theorem same_remember (hb : b.caches = true) (m : Machine) (node : Nat) (v : Value) :
    b.Same (m.modifyFrame fun f => f.remember node v) m := by
  obtain ⟨c, r, j⟩ := b
  cases hb
  rfl

theorem agree_remember {n n' : Nat} (h : b.caches = true ∨ n = n') (v : Value) :
    Agree b (remember n v) (remember n' v) := by
  rcases h with hb | rfl
  · intro m m' hm
    refine .done ⟨rfl, ?_⟩
    exact (same_remember hb m n v).trans (hm.trans (same_remember hb m' n' v).symm)
  · refine agree_modifyFrame fun g => ?_
    obtain ⟨c, r, j⟩ := b
    cases c <;> cases r <;> rfl

/-- One remembered value more does not matter once it is forgotten. -/
theorem agree_remembered (hb : b.caches = true) {x y : Eval Value} (hxy : Agree b x y) (n : Node) :
    Agree b x (remembered n y) := by
  intro m m' hm
  have hrun := hxy m m' hm
  rw [remembered, run_bind]
  generalize x.run m = r, y.run m' = r' at hrun
  cases hrun with
  | done h =>
    obtain ⟨rfl, hm₁⟩ := h
    exact .done ⟨rfl, hm₁.trans (same_remember hb _ n.id _).symm⟩
  | failed e hm₁ => exact .failed e hm₁
  | outOfFuel => exact .outOfFuel

variable {L : Likeness}

/-- Expressions and declarations do not read what is forgotten. -/
theorem declSimulation_agree (hn : ∀ n n', L.node n n' → b.caches = true ∨ n.id = n'.id)
    (hw : ∀ i, L.writtenOut i → b.caches = true) (scope : Nat → Option Bool) :
    DeclSimulation L scope (Agree b) (Agree b) where
  yield := agree_pure
  seq := Agree.bind
  fail := agree_fail
  readName x link loc _ := agree_lookUp _ loc fun m => b.readName m x link
  placeOfName x link isArray loc _ := agree_lookUp _ loc fun m => b.placeOfName m x link isArray
  readPlace place loc := agree_query loc fun m => b.readPlace m place
  writePlace place v loc := agree_attempt loc fun m => b.writePlace m place v
  remember v h := agree_remember (hn _ _ h) v
  readInteger := agree_readInteger
  writeLine := agree_writeLine
  allocate size loc := agree_create loc fun m => b.allocate m size
  release p loc := agree_attempt loc fun m => b.release m p
  written h hxy := agree_remembered (hw _ h) hxy _
  ofExpr h := h
  sequence := Agree.bind
  clearCache := agree_modifyFrame fun g => by
    obtain ⟨c, r, j⟩ := b
    cases c <;> cases r <;> rfl
  depth := agree_depth
  dropOldArray d _ := by
    unfold Eval.dropOldArray
    split
    · exact agree_pure ()
    · exact agree_update fun m => by rw [b.dropOldArray, b.machine_machine]
  storeArray _ size loc _ _ := agree_create loc fun m => b.storeArray m _ _ size
  bindVariable _ w _ := agree_update fun m => by rw [b.bindVariable, b.machine_machine]

/-- Runs do not read what is forgotten, unless that is whether functions have returned. -/
theorem runSimulation_agree (hb : b.returns = false)
    (hn : ∀ n n', L.node n n' → b.caches = true ∨ n.id = n'.id)
    (hw : ∀ i, L.writtenOut i → b.caches = true) (scope : Nat → Option Bool) (limit : Nat) :
    RunSimulation L scope limit limit (Agree b) (Agree b) where
  toDeclSimulation := declSimulation_agree hn hw scope
  outOfFuel := agree_outOfFuel
  hasReturned m m' hm :=
    .done ⟨congrArg Option.isSome (Blur.returned_eq hb hm.current_eq), hm⟩
  setReturned v := agree_modifyFrame fun g => by
    obtain ⟨c, r, j⟩ := b
    cases c <;> cases r <;> rfl
  recordStatement line := agree_update fun m => by
    rw [← b.note, ← b.note, b.machine_machine]
    rfl
  enter f args loc x y hxy := agree_enter f args loc fun m m' hm _ =>
    (hxy m m' hm).mono (fun _ m₁ _ m₁' _ h => by
      have hreturned := Blur.returned_eq hb h.2.current_eq
      exact ⟨congrArg (·.getD .uninitialized) hreturned, h.2⟩) fun _ _ h => h
  started _ := agree_record _
  flush := agree_flush
  finished _ := agree_liveBlocks.bind fun _ => agree_record _

end Eval

end MiniC
