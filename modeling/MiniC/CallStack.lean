import MiniC.Bindings

/-!
# The call stack

Every call has a frame: the values of its variables, the values of the expressions evaluated in
the current statement, the value that it returned, if it has, and the array storage that goes with
it.  Below the frames of calls lies the root frame, in which globals get their initial values; it
is never removed.

Main definitions:

* `MiniC.Frame`, `MiniC.Frame.own`, `MiniC.Frame.disown?`: frames and the storage they own;
* `MiniC.CallStack`, `MiniC.CallStack.push`, `MiniC.CallStack.pop?`: the stack of frames;
* `MiniC.CallStack.depth`, `MiniC.CallStack.active`: the number of calls, and their functions.

Main results:

* `MiniC.CallStack.pop?_push`: removing a frame undoes adding it;
* `MiniC.CallStack.length_frames`: there is one frame more than there are calls.
-/

set_option autoImplicit false

namespace MiniC

/-- The activation of a function. -/
structure Frame where
  function : String
  bindings : Bindings
  /-- The values of expressions by the number of their node, the last one first. -/
  cache : List (Nat × Value)
  /-- The value that the function returned, if it has returned. -/
  returned : Option Value
  /-- The regions that hold the arrays of this activation. -/
  owned : List RegionId
deriving DecidableEq, Repr, Inhabited

namespace Frame

/-- A frame at the start of a call. -/
def ofName (function : String) : Frame := ⟨function, .empty, [], none, []⟩

/-- The frame with a variable bound. -/
def bind (f : Frame) (id : Nat) (v : Value) : Frame := { f with bindings := f.bindings.bind id v }

/-- The value of a variable in the frame. -/
def lookup? (f : Frame) (id : Nat) : Option Value := f.bindings.lookup? id

/-- Replaces the value of a variable that has one in the frame. -/
def assign? (f : Frame) (id : Nat) (v : Value) : Option Frame :=
  match f.bindings.assign? id v with
  | some b => some { f with bindings := b }
  | none => none

/-- The frame with the value of an expression remembered. -/
def remember (f : Frame) (node : Nat) (v : Value) : Frame :=
  { f with cache := (node, v) :: f.cache }

/-- The value of an expression evaluated in the current statement. -/
def cached? (f : Frame) (node : Nat) : Option Value := f.cache.lookup node

/-- The frame at the start of a statement: no expression has been evaluated. -/
def clearCache (f : Frame) : Frame := { f with cache := [] }

/-- The function has returned. -/
def hasReturned (f : Frame) : Bool := f.returned.isSome

/-- The frame of a function that returns `v`. -/
def setReturned (f : Frame) (v : Value) : Frame := { f with returned := some v }

/-- What a call yields: the returned value, or none if the function did not return. -/
def returnValue (f : Frame) : Value := f.returned.getD .uninitialized

/-- The frame with one more region to its arrays. -/
def own (f : Frame) (id : RegionId) : Frame := { f with owned := f.owned ++ [id] }

/-- Removes the first occurrence of `x`; the last element takes its place. -/
def swapRemove? {α : Type} [DecidableEq α] (x : α) : List α → Option (List α)
  | [] => none
  | y :: ys =>
    if y = x then
      some (match ys.getLast? with
        | some z => z :: ys.dropLast
        | none => [])
    else (swapRemove? x ys).map (y :: ·)

/-- The frame without one of its regions; `none` if it is not among them. -/
def disown? (f : Frame) (id : RegionId) : Option Frame :=
  match swapRemove? id f.owned with
  | some ids => some { f with owned := ids }
  | none => none

/-- An assignment in a frame is one to its variables. -/
theorem getD_assign? (f : Frame) (id : Nat) (v : Value) :
    (f.assign? id v).getD f = { f with bindings := (f.bindings.assign? id v).getD f.bindings } := by
  unfold assign?
  cases f.bindings.assign? id v <;> rfl

/-- A frame without one of its regions is otherwise the same. -/
theorem eq_of_disown? {f g : Frame} {id : RegionId} (h : f.disown? id = some g) :
    ∃ ids, swapRemove? id f.owned = some ids ∧ g = { f with owned := ids } := by
  unfold disown? at h
  split at h
  · next ids hids =>
    cases h
    exact ⟨ids, hids, rfl⟩
  · cases h

@[simp] theorem cached?_remember_self (f : Frame) (node : Nat) (v : Value) :
    (f.remember node v).cached? node = some v := by
  simp [cached?, remember]

@[simp] theorem hasReturned_setReturned (f : Frame) (v : Value) :
    (f.setReturned v).hasReturned = true := rfl

/-- What is removed was there, and the rest stays up to its order. -/
theorem swapRemove?_perm {α : Type} [DecidableEq α] {x : α} {xs ys : List α}
    (h : swapRemove? x xs = some ys) : xs.Perm (x :: ys) := by
  induction xs generalizing ys with
  | nil => simp [swapRemove?] at h
  | cons y xs ih =>
    rw [swapRemove?] at h
    split at h
    · next hy =>
      subst hy
      simp only [Option.some.injEq] at h
      subst h
      refine List.Perm.cons y ?_
      -- The last one, if there is one, has moved to the front of the others.
      cases hl : xs.getLast? with
      | none => simp [List.getLast?_eq_none_iff.1 hl]
      | some z =>
        obtain ⟨zs, rfl⟩ := List.getLast?_eq_some_iff.1 hl
        simp
    · simp only [Option.map_eq_some_iff] at h
      obtain ⟨zs, hz, rfl⟩ := h
      exact ((ih hz).cons y).trans (List.Perm.swap x y zs)

end Frame

/-- The frames of all calls: that of the current one, and those of its callers from the innermost
to the root frame. -/
structure CallStack where
  current : Frame
  callers : List Frame
  /-- The number of calls. -/
  depth : Nat
  depth_eq : depth = callers.length
deriving Repr

namespace CallStack

/-- The stack before any call: the root frame alone. -/
def initial : CallStack := ⟨.ofName "<global>", [], 0, rfl⟩

instance : Inhabited CallStack := ⟨initial⟩

/-- The stack with one more frame. -/
def push (s : CallStack) (f : Frame) : CallStack :=
  ⟨f, s.current :: s.callers, s.depth + 1, by simp [s.depth_eq]⟩

/-- Removes the frame of the current call; the root frame stays. -/
def pop? (s : CallStack) : Option (Frame × CallStack) :=
  match s with
  | ⟨_, [], _, _⟩ => none
  | ⟨f, g :: gs, depth, h⟩ => some (f, ⟨g, gs, depth - 1, by simp [h]⟩)

/-- All frames, the root frame first. -/
def frames (s : CallStack) : List Frame := (s.current :: s.callers).reverse

/-- The functions of the calls, the outermost first. -/
def active (s : CallStack) : List String := s.frames.tail.map Frame.function

/-- The root frame. -/
def root (s : CallStack) : Frame := s.callers.getLastD s.current

/-- A stack is its frames. -/
theorem ext_frames {s s' : CallStack} (h : s.current = s'.current) (hc : s.callers = s'.callers) :
    s = s' := by
  obtain ⟨f, gs, d, hd⟩ := s
  obtain ⟨f', gs', d', hd'⟩ := s'
  subst h hc
  cases hd.trans hd'.symm
  rfl

/-- Removing a frame undoes adding it. -/
@[simp] theorem pop?_push (s : CallStack) (f : Frame) : (s.push f).pop? = some (f, s) := by
  simp [pop?, push]

@[simp] theorem depth_push (s : CallStack) (f : Frame) : (s.push f).depth = s.depth + 1 := rfl

@[simp] theorem depth_initial : initial.depth = 0 := rfl

/-- There is one frame more than there are calls. -/
theorem length_frames (s : CallStack) : s.frames.length = s.depth + 1 := by
  simp [frames, s.depth_eq]

@[simp] theorem active_initial : initial.active = [] := rfl

/-- A call is the innermost one while its frame is there. -/
@[simp] theorem active_push (s : CallStack) (f : Frame) :
    (s.push f).active = s.active ++ [f.function] := by
  have hne : (s.current :: s.callers).reverse ≠ [] := by simp
  rw [active, frames, push, List.reverse_cons, List.tail_append_of_ne_nil hne, List.map_append]
  rfl

@[simp] theorem length_active (s : CallStack) : s.active.length = s.depth := by
  rw [active, List.length_map, List.length_tail, length_frames, Nat.add_sub_cancel]

/-- If there is a call, the frame of the current one lies above those of the others. -/
theorem exists_active_eq {s : CallStack} (h : s.active ≠ []) :
    ∃ t, s.pop? = some (s.current, t) ∧ s.active = t.active ++ [s.current.function] := by
  obtain ⟨f, fs, d, hd⟩ := s
  cases fs with
  | nil => exact absurd rfl h
  | cons g gs =>
    refine ⟨⟨g, gs, d - 1, by simp [hd]⟩, rfl, ?_⟩
    subst hd
    exact active_push ⟨g, gs, gs.length, rfl⟩ f

end CallStack

end MiniC
