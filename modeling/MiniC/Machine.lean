import MiniC.CallStack
import MiniC.Event
import MiniC.Heap
import MiniC.RuntimeError

/-!
# The machine

Everything that a running program changes, and how it is read and changed in one step.

Main definitions:

* `MiniC.Machine`: the heap, the call stack, the globals, input and output, and the events so far;
* `MiniC.Machine.enterFrame`, `MiniC.Machine.leaveFrame`: the start and the end of a call;
* `MiniC.Place`: locations that can be assigned;
* `MiniC.Machine.storeArray`, `MiniC.Machine.dropOldArray`: the storage of declared arrays.

Main results:

* `MiniC.Machine.eq_of_writePlace`, `MiniC.Machine.eq_of_storeArray` and others: all that an
  operation does, from which it is told elsewhere what it leaves alone;
* `MiniC.Machine.stack_leaveFrame`: leaving a frame leaves those below it;
* `MiniC.Machine.callers_of_writePlace` and others: what happens at other places leaves them, too.
-/

set_option autoImplicit false

namespace MiniC

/-- What a running program changes.  `journal` holds the events so far, last one first, if anybody
follows them. -/
structure Machine where
  heap : Heap
  stack : CallStack
  globals : Bindings
  input : Input
  output : Output
  journal : Option (List Event)

/-- A location that can be assigned: a variable of the current call, a global variable, or a place
in memory. -/
inductive Place where
  | local (id : Nat)
  | global (id : Nat)
  | memory (p : Pointer)
deriving DecidableEq, Repr, Inhabited

namespace Machine

/-! ### Events -/

/-- The events so far that a log shows, first one first. -/
def events (m : Machine) : List Event := ((m.journal.getD []).filter Event.isLogged).reverse

/-- Notes an event, if anybody follows them. -/
@[inline] def note (m : Machine) (e : Event) : Machine :=
  match m.journal with
  | some es => { m with journal := some (e :: es) }
  | none => m

/-! ### Frames -/

/-- The machine with the frame of the current call replaced. -/
@[inline] def setFrame (m : Machine) (f : Frame) : Machine :=
  { m with stack := { m.stack with current := f } }

/-- The machine with the frame of the current call changed. -/
@[inline] def modifyFrame (m : Machine) (f : Frame → Frame) : Machine :=
  { m with stack := { m.stack with current := f m.stack.current } }

/-- The machine with one more frame. -/
@[inline] def enterFrame (m : Machine) (f : Frame) : Machine := { m with stack := m.stack.push f }

/-- Removes the frame of the current call and drops the arrays that it owns.  The root frame
stays. -/
def leaveFrame (m : Machine) : Frame × Machine :=
  match m.stack.pop? with
  | some (f, stack) => (f, { m with stack := stack, heap := f.owned.foldl Heap.drop m.heap })
  | none => (m.stack.current, m)

/-! ### Variables and places -/

/-- The value of the variable `link`: that of the current call, else the global one. -/
def readName (m : Machine) (name : String) (link : Option Nat) : Except Fault Value :=
  match link with
  | none => .error (.unboundName name)
  | some id =>
    match m.stack.current.lookup? id with
    | some v => .ok v
    | none =>
      match m.globals.lookup? id with
      | some v => .ok v
      | none => .error (.unboundName name)

/-- Where the variable `link` is stored: in the frame of the current call, else globally. -/
def placeOfName (m : Machine) (name : String) (link : Option Nat) (isArray : Nat → Bool) :
    Except Fault Place :=
  match link with
  | none => .error (.unboundName name)
  | some id =>
    if isArray id then .error (.typeMismatch (.arrayTarget name))
    else if (m.stack.current.lookup? id).isSome then .ok (.local id)
    else if (m.globals.lookup? id).isSome then .ok (.global id)
    else .error (.unboundName name)

/-- The value at a place; a variable without one counts as never written. -/
def readPlace (m : Machine) : Place → Except Fault Value
  | .local id => .ok ((m.stack.current.lookup? id).getD .uninitialized)
  | .global id => .ok ((m.globals.lookup? id).getD .uninitialized)
  | .memory p => (m.heap.read p).mapError .ofHeapError

/-- Replaces the value at a place; a variable without one stays so. -/
def writePlace (m : Machine) (place : Place) (v : Value) : Except Fault Machine :=
  match place with
  | .local id => .ok (m.modifyFrame fun f => (f.assign? id v).getD f)
  | .global id => .ok { m with globals := (m.globals.assign? id v).getD m.globals }
  | .memory p =>
    match m.heap.write p v with
    | .ok heap => .ok { m with heap := heap }
    | .error e => .error (.ofHeapError e)

/-- Gives a declared variable a value, globally or in the current call. -/
def bindVariable (m : Machine) (isGlobal : Bool) (id : Nat) (v : Value) : Machine :=
  let m := if isGlobal then { m with globals := m.globals.bind id v }
    else m.modifyFrame fun f => f.bind id v
  m.note (.declared id)

/-! ### Blocks and arrays -/

/-- Makes a block and yields a pointer to its start. -/
def allocate (m : Machine) (size : Nat) : Except Fault (Pointer × Machine) :=
  match m.heap.allocate .block size with
  | .ok (p, heap) => .ok (p, { m with heap := heap }.note (.allocated p.region size))
  | .error e => .error (.ofHeapError e)

/-- Gives a block back. -/
def release (m : Machine) (p : Pointer) : Except Fault Machine :=
  match m.heap.release p with
  | .ok (size, heap) => .ok ({ m with heap := heap }.note (.released p.region size))
  | .error e => .error (.ofHeapError e)

/-- Makes the storage of the array `id` and yields a pointer to its start.  The storage goes with
the current call, unless the array is global. -/
def storeArray (m : Machine) (isGlobal : Bool) (id size : Nat) :
    Except Fault (Pointer × Machine) :=
  match m.heap.allocate .array size with
  | .ok (p, heap) =>
    let m := { m with heap := heap }.note (.stored id p.region)
    .ok (p, if isGlobal then m else m.modifyFrame fun f => f.own p.region)
  | .error e => .error (.ofHeapError e)

/-- Drops the storage that an earlier execution of the declaration of an array has left in the
current call. -/
def dropOldArray (m : Machine) (id : Nat) : Machine :=
  match (m.stack.current.lookup? id).bind Value.pointer? with
  | none => m
  | some p =>
    match m.stack.current.disown? p.region with
    | none => m
    | some f => { m.setFrame f with heap := m.heap.drop p.region }

/-! ### What stays -/

@[simp] theorem heap_note (m : Machine) (e : Event) : (m.note e).heap = m.heap := by
  unfold note
  split <;> rfl

@[simp] theorem stack_note (m : Machine) (e : Event) : (m.note e).stack = m.stack := by
  unfold note
  split <;> rfl

@[simp] theorem globals_note (m : Machine) (e : Event) : (m.note e).globals = m.globals := by
  unfold note
  split <;> rfl

theorem journal_note {m : Machine} {es : List Event} (hj : m.journal = some es) (e : Event) :
    (m.note e).journal = some (e :: es) := by
  rw [note, hj]

/-- Leaving a frame is no event. -/
theorem journal_leaveFrame (m : Machine) : m.leaveFrame.2.journal = m.journal := by
  unfold leaveFrame
  split <;> rfl

end Machine

/-! ### What each operation does -/

namespace Machine

variable {m m' : Machine}

/-- A store changes the value of a variable that has one, or the heap. -/
theorem eq_of_writePlace {place : Place} {v : Value} (h : m.writePlace place v = .ok m') :
    (∃ id, place = .local id ∧ m' = m.modifyFrame fun f =>
        { f with bindings := (f.bindings.assign? id v).getD f.bindings }) ∨
      (∃ id, place = .global id ∧
        m' = { m with globals := (m.globals.assign? id v).getD m.globals }) ∨
      ∃ p heap, place = .memory p ∧ m.heap.write p v = .ok heap ∧ m' = { m with heap := heap } := by
  cases place with
  | «local» id =>
    cases h
    have hassign := m.stack.current.getD_assign? id v
    exact .inl ⟨id, rfl, congrArg (fun f => m.modifyFrame fun _ => f) hassign⟩
  | global id =>
    cases h
    exact .inr (.inl ⟨id, rfl, rfl⟩)
  | memory p =>
    simp only [writePlace] at h
    split at h
    · next heap hheap =>
      cases h
      exact .inr (.inr ⟨p, heap, rfl, hheap, rfl⟩)
    · cases h

/-- A new block changes the heap, and is noted. -/
theorem eq_of_allocate {size : Nat} {p : Pointer} (h : m.allocate size = .ok (p, m')) :
    ∃ heap, m.heap.allocate .block size = .ok (p, heap) ∧
      m' = { m with heap := heap }.note (.allocated p.region size) := by
  unfold allocate at h
  split at h
  · next heap hheap =>
    cases h
    exact ⟨heap, hheap, rfl⟩
  · cases h

/-- So does a block that is given back. -/
theorem eq_of_release {p : Pointer} (h : m.release p = .ok m') :
    ∃ size heap, m.heap.release p = .ok (size, heap) ∧
      m' = { m with heap := heap }.note (.released p.region size) := by
  unfold release at h
  split at h
  · next size heap hheap =>
    cases h
    exact ⟨size, heap, hheap, rfl⟩
  · cases h

/-- New storage changes the heap and is noted.  The current frame owns that of a local array. -/
theorem eq_of_storeArray {isGlobal : Bool} {id size : Nat} {p : Pointer}
    (h : m.storeArray isGlobal id size = .ok (p, m')) :
    ∃ heap, m.heap.allocate .array size = .ok (p, heap) ∧
      m' = if isGlobal then { m with heap := heap }.note (.stored id p.region)
        else ({ m with heap := heap }.note (.stored id p.region)).modifyFrame
          fun f => f.own p.region := by
  unfold storeArray at h
  split at h
  · next heap hheap =>
    cases h
    exact ⟨heap, hheap, rfl⟩
  · cases h

/-- Old storage goes, if the current frame owns it; else nothing changes. -/
theorem dropOldArray_eq (m : Machine) (id : Nat) :
    m.dropOldArray id = m ∨ ∃ p ids,
      (m.stack.current.lookup? id).bind Value.pointer? = some p ∧
      Frame.swapRemove? p.region m.stack.current.owned = some ids ∧
      m.dropOldArray id =
        { m.modifyFrame fun f => { f with owned := ids } with heap := m.heap.drop p.region } := by
  unfold dropOldArray
  split
  · exact .inl rfl
  · next p hp =>
    split
    · exact .inl rfl
    · next f hf =>
      obtain ⟨ids, hids, rfl⟩ := Frame.eq_of_disown? hf
      exact .inr ⟨p, ids, hp, hids, rfl⟩

/-! ### What stays on the stack -/

/-- A new block is not noticed on the stack. -/
theorem stack_of_allocate {size : Nat} {p : Pointer} (h : m.allocate size = .ok (p, m')) :
    m'.stack = m.stack := by
  obtain ⟨heap, -, rfl⟩ := eq_of_allocate h
  exact stack_note _ _

/-- Nor is a block that is given back. -/
theorem stack_of_release {p : Pointer} (h : m.release p = .ok m') : m'.stack = m.stack := by
  obtain ⟨size, heap, -, rfl⟩ := eq_of_release h
  exact stack_note _ _

/-- Assigning to a place changes the current frame at most. -/
theorem callers_of_writePlace {place : Place} {v : Value} (h : m.writePlace place v = .ok m') :
    m'.stack.callers = m.stack.callers := by
  obtain ⟨id, -, rfl⟩ | ⟨id, -, rfl⟩ | ⟨p, heap, -, -, rfl⟩ := eq_of_writePlace h <;> rfl

/-- The storage of an array goes to the current frame at most. -/
theorem callers_of_storeArray {isGlobal : Bool} {id size : Nat} {p : Pointer}
    (h : m.storeArray isGlobal id size = .ok (p, m')) : m'.stack.callers = m.stack.callers := by
  obtain ⟨heap, -, rfl⟩ := eq_of_storeArray h
  cases isGlobal <;> simp [modifyFrame]

/-- The storage of a global array is not noticed on the stack. -/
theorem stack_of_storeArray {id size : Nat} {p : Pointer}
    (h : m.storeArray true id size = .ok (p, m')) : m'.stack = m.stack := by
  obtain ⟨heap, -, rfl⟩ := eq_of_storeArray h
  exact stack_note _ _

/-- Old storage is taken from the current frame. -/
theorem callers_dropOldArray (m : Machine) (id : Nat) :
    (m.dropOldArray id).stack.callers = m.stack.callers := by
  obtain h | ⟨p, ids, -, -, h⟩ := m.dropOldArray_eq id <;> rw [h]
  rfl

/-- Leaving a frame leaves those below it. -/
theorem stack_leaveFrame {m : Machine} {s : CallStack}
    (h : m.stack.callers = s.current :: s.callers) : m.leaveFrame.2.stack = s := by
  obtain ⟨heap, ⟨f, gs, d, hd⟩, globals, input, output, journal⟩ := m
  subst h
  exact CallStack.ext_frames rfl rfl

end Machine

end MiniC
