import MiniC.Proofs.Invariant

/-!
# Internal steps

Most operations neither read nor print, and no call begins or ends in them: they change variables
and storage, and the journal tells of nothing else.  So an invariant that is not about variables and
storage has to be looked at only where something is read or printed, and where calls begin or end.

Main definitions:

* `MiniC.noted`: what certain events of a journal tell;
* `MiniC.Machine.Notes`: certain events are noted between two machines;
* `MiniC.Machine.Internal`: nothing but variables and storage changes between them.

Main results:

* `MiniC.Machine.internal_writePlace`, `MiniC.Machine.internal_allocate` and others: such
  operations;
* `MiniC.Machine.Invariant.of_internal`: what is left to look at.
-/

set_option autoImplicit false

namespace MiniC

/-! ### Events that are noted -/

section

variable {α : Type} {f : Event → Option α}

/-- What certain events of a journal tell, the first one first. -/
def noted (f : Event → Option α) (es : List Event) : List α := (es.filterMap f).reverse

theorem noted_cons_of_some {e : Event} {a : α} (h : f e = some a) (es : List Event) :
    noted f (e :: es) = noted f es ++ [a] := by
  rw [noted, List.filterMap_cons_some h, List.reverse_cons, noted]

theorem noted_append_of_forall {es : List Event} (h : ∀ e ∈ es, f e = none) (es' : List Event) :
    noted f (es ++ es') = noted f es' := by
  rw [noted, List.filterMap_append, List.filterMap_eq_nil_iff.2 h, List.nil_append, noted]

end

namespace Machine

variable {m m' m'' : Machine}

/-- The journal of the second machine tells of certain events more. -/
def Notes (P : Event → Prop) (m m' : Machine) : Prop :=
  ∃ es : List Event, (∀ e ∈ es, P e) ∧ m'.journal = m.journal.map (es ++ ·)

variable {P Q : Event → Prop}

theorem Notes.of_eq (h : m'.journal = m.journal) : m.Notes P m' := ⟨[], by simp, by simp [h]⟩

theorem Notes.trans (h : m.Notes P m') (h' : m'.Notes P m'') : m.Notes P m'' := by
  obtain ⟨es, hes, hj⟩ := h
  obtain ⟨es', hes', hj'⟩ := h'
  refine ⟨es' ++ es, List.forall_mem_append.2 ⟨hes', hes⟩, ?_⟩
  simp [hj', hj, Function.comp_def]

theorem Notes.mono (h : m.Notes P m') (hPQ : ∀ e, P e → Q e) : m.Notes Q m' := by
  obtain ⟨es, hes, hj⟩ := h
  exact ⟨es, fun e he => hPQ e (hes e he), hj⟩

theorem notes_note (m : Machine) {e : Event} (he : P e) : m.Notes P (m.note e) := by
  refine ⟨[e], by simpa using he, ?_⟩
  unfold note
  cases h : m.journal <;> simp [h]

theorem input_note (m : Machine) (e : Event) : (m.note e).input = m.input := by
  unfold note
  split <;> rfl

theorem output_note (m : Machine) (e : Event) : (m.note e).output = m.output := by
  unfold note
  split <;> rfl

/-! ### Internal steps -/

/-- Between two machines variables and storage change, and the journal tells of that only. -/
structure Internal (m m' : Machine) : Prop where
  input_eq : m'.input = m.input
  output_eq : m'.output = m.output
  active_eq : m'.stack.active = m.stack.active
  notes : m.Notes (fun e => e.isInternal = true) m'

theorem Internal.trans (h : m.Internal m') (h' : m'.Internal m'') : m.Internal m'' where
  input_eq := h'.input_eq.trans h.input_eq
  output_eq := h'.output_eq.trans h.output_eq
  active_eq := h'.active_eq.trans h.active_eq
  notes := h.notes.trans h'.notes

/-- Heap and globals are not looked at, and of frames only their functions. -/
theorem Internal.of_eq (hi : m'.input = m.input) (ho : m'.output = m.output)
    (hj : m'.journal = m.journal) (hcallers : m'.stack.callers = m.stack.callers)
    (hfunction : m'.stack.current.function = m.stack.current.function) : m.Internal m' where
  input_eq := hi
  output_eq := ho
  active_eq := by
    simp [CallStack.active, CallStack.frames, hcallers, hfunction, List.map_tail]
  notes := .of_eq hj

theorem Internal.refl (m : Machine) : m.Internal m := .of_eq rfl rfl rfl rfl rfl

theorem internal_modifyFrame (m : Machine) {f : Frame → Frame}
    (hf : (f m.stack.current).function = m.stack.current.function) : m.Internal (m.modifyFrame f) :=
  .of_eq rfl rfl rfl rfl hf

theorem internal_note (m : Machine) {e : Event} (he : e.isInternal = true) :
    m.Internal (m.note e) where
  input_eq := m.input_note e
  output_eq := m.output_note e
  active_eq := by rw [stack_note]
  notes := m.notes_note he

theorem internal_writePlace {place : Place} {v : Value} (h : m.writePlace place v = .ok m') :
    m.Internal m' := by
  obtain ⟨id, -, rfl⟩ | ⟨id, -, rfl⟩ | ⟨p, heap, -, -, rfl⟩ := eq_of_writePlace h
  · exact m.internal_modifyFrame rfl
  · exact .of_eq rfl rfl rfl rfl rfl
  · exact .of_eq rfl rfl rfl rfl rfl

theorem internal_bindVariable (m : Machine) (isGlobal : Bool) (id : Nat) (v : Value) :
    m.Internal (m.bindVariable isGlobal id v) := by
  unfold bindVariable
  refine Internal.trans ?_ (internal_note _ rfl)
  split
  · exact .of_eq rfl rfl rfl rfl rfl
  · exact m.internal_modifyFrame rfl

/-- What changes the heap and is noted. -/
theorem internal_heap (m : Machine) (heap : Heap) {e : Event} (he : e.isInternal = true) :
    m.Internal ({ m with heap := heap }.note e) := by
  have hheap : m.Internal { m with heap := heap } := .of_eq rfl rfl rfl rfl rfl
  exact hheap.trans (internal_note _ he)

theorem internal_allocate {size : Nat} {p : Pointer} (h : m.allocate size = .ok (p, m')) :
    m.Internal m' := by
  obtain ⟨heap, -, rfl⟩ := eq_of_allocate h
  exact m.internal_heap heap rfl

theorem internal_release {p : Pointer} (h : m.release p = .ok m') : m.Internal m' := by
  obtain ⟨size, heap, -, rfl⟩ := eq_of_release h
  exact m.internal_heap heap rfl

theorem internal_storeArray {isGlobal : Bool} {id size : Nat} {p : Pointer}
    (h : m.storeArray isGlobal id size = .ok (p, m')) : m.Internal m' := by
  obtain ⟨heap, -, rfl⟩ := eq_of_storeArray h
  have hstored := m.internal_heap heap (e := .stored id p.region) rfl
  cases isGlobal with
  | true => exact hstored
  | false => exact hstored.trans (internal_modifyFrame _ (f := fun f => f.own p.region) rfl)

theorem internal_dropOldArray (m : Machine) (id : Nat) : m.Internal (m.dropOldArray id) := by
  obtain h | ⟨p, ids, -, -, h⟩ := m.dropOldArray_eq id
  · rw [h]
    exact .refl m
  · rw [h]
    exact .of_eq rfl rfl rfl rfl rfl

/-! ### Invariants -/

/-- An invariant, by what is not internal: notes, reading and printing, and calls. -/
theorem Invariant.of_internal {declares : Variable → Prop} {scope : Nat → Option Bool}
    {I : Machine → Prop} (internal : ∀ {m m' : Machine}, m.Internal m' → I m → I m')
    (note : ∀ {m : Machine} {e : Event}, e.isProgress = true → I m → I (m.note e))
    (got : ∀ {m : Machine} {n : Int64} {input : Input},
      m.input.next = (.ok n, input) → I m → I ({ m with input := input }.note (.got n)))
    (missed : ∀ {m : Machine} {e : InputError} {input : Input},
      m.input.next = (.error e, input) → I m → I ({ m with input := input }.note (.missed e)))
    (printed : ∀ {m : Machine} {n : Int64} {output : Output},
      m.output.write (Eval.line n) = (true, output) → I m →
        I ({ m with output := output }.note (.printed n)))
    (unprinted : ∀ {m : Machine} {n : Int64} {output : Output},
      m.output.write (Eval.line n) = (false, output) → I m → I { m with output := output })
    (enterFrame : ∀ {m : Machine} (f : Function) (args : List Value),
      I m → I (m.enterFrame (f.frame args)))
    (leaveFrame : ∀ {m : Machine}, I m → I m.leaveFrame.2) :
    Machine.Invariant declares scope I where
  note := note
  got := got
  missed := missed
  printed := printed
  unprinted := unprinted
  writePlace h hw := internal (internal_writePlace hw) h
  remember _ _ := internal (internal_modifyFrame _ rfl)
  clearCache := internal (internal_modifyFrame _ rfl)
  setReturned _ := internal (internal_modifyFrame _ rfl)
  bindVariable _ _ _ := internal (internal_bindVariable _ _ _ _)
  allocate h ha := internal (internal_allocate ha) h
  release h hr := internal (internal_release hr) h
  storeArray _ _ h hs := internal (internal_storeArray hs) h
  dropOldArray _ := internal (internal_dropOldArray _ _)
  enterFrame := enterFrame
  leaveFrame := leaveFrame

end Machine

end MiniC
