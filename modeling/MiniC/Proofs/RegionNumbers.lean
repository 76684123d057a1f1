import MiniC.Proofs.Parsed
import MiniC.Proofs.Renumbering
import MiniC.Proofs.SimulationUpTo
import MiniC.Session

/-!
# The numbers of regions cannot be observed

**Where a run makes region `r`, the run from a counter that is ahead by `d` makes region `r + d`.**
Operators compare regions with each other only, never with a number, and so does the heap.  Hence
the two runs go the same way: they read and print the same, and end alike.

Main definitions:

* `MiniC.Eval.Renamed`: computations that take machines that correspond to outcomes that correspond;
* `MiniC.Machine.RegionFree`, `MiniC.Machine.numberedFrom`: nothing refers to a region, and the
  number of the next one.

Main results:

* `MiniC.Eval.runSimulationUpTo_renamed`, `MiniC.Eval.renamed_run`: what runs do from machines that
  correspond;
* `MiniC.region_numbers_unobservable`: runs from different counters end alike;
* `MiniC.left_pointer_unshifted`: what an earlier run has left has the same number in both.
-/

set_option autoImplicit false

namespace MiniC

variable {ρ : RegionId → RegionId}

/-! ### Computations -/

/-- Outcomes that correspond. -/
inductive Outcome.Renamed {α : Type} [Renames α] (ρ : RegionId → RegionId) :
    Outcome α → Outcome α → Prop
  | done (a : α) {m m' : Machine} : m.Renamed ρ m' → Renamed ρ (.done a m) (.done (rename ρ a) m')
  | failed (e : RuntimeError) {m m' : Machine} :
      m.Renamed ρ m' → Renamed ρ (.failed e m) (.failed (rename ρ e) m')
  | outOfFuel : Renamed ρ .outOfFuel .outOfFuel

namespace Eval

/-- Computations that correspond: from machines that correspond, they come to outcomes that
correspond. -/
def Renamed (ρ : RegionId → RegionId) {α : Type} [Renames α] (x x' : Eval α) : Prop :=
  ∀ m m' : Machine, m.Renamed ρ m' → (x.run m).Renamed ρ (x'.run m')

variable {α β : Type} [Renames α] [Renames β]

theorem Renamed.bind {x x' : Eval α} {f f' : α → Eval β} (hx : Renamed ρ x x')
    (hf : ∀ a, Renamed ρ (f a) (f' (rename ρ a))) : Renamed ρ (x >>= f) (x' >>= f') := by
  intro m m' h
  have hrun := hx m m' h
  rw [run_bind, run_bind]
  generalize x.run m = o, x'.run m' = o' at hrun
  cases hrun with
  | done a h₁ => exact hf a _ _ h₁
  | failed e h₁ => exact .failed e h₁
  | outOfFuel => exact .outOfFuel

theorem renamed_pure (a : α) : Renamed ρ (pure a) (pure (rename ρ a)) := fun _ _ h => .done a h

theorem renamed_fail (e : RuntimeError) :
    Renamed ρ (fail e : Eval α) (fail (rename ρ e)) := fun _ _ h => .failed e h

theorem renamed_outOfFuel : Renamed ρ (outOfFuel : Eval α) outOfFuel := fun _ _ _ => .outOfFuel

/-! ### Operations -/

theorem renamed_query (loc : Location) {f f' : Machine → Except Fault α}
    (hf : ∀ m m' : Machine, m.Renamed ρ m' → f' m' = rename ρ (f m)) :
    Renamed ρ (query loc f) (query loc f') := by
  intro m m' h
  dsimp only [query, op]
  rw [hf m m' h]
  cases f m with
  | ok a => exact .done a h
  | error e => exact .failed (.fault loc e) h

theorem renamed_lookUp (k : Lookup) (loc : Location) {f f' : Machine → Except Fault α}
    (hf : ∀ m m' : Machine, m.Renamed ρ m' → f' m' = rename ρ (f m)) :
    Renamed ρ (lookUp k loc f) (lookUp k loc f') :=
  renamed_query loc hf

theorem renamed_update {f f' : Machine → Machine}
    (hf : ∀ m m' : Machine, m.Renamed ρ m' → (f m).Renamed ρ (f' m')) :
    Renamed ρ (update f) (update f') := fun m m' h => .done () (hf m m' h)

theorem renamed_attempt (loc : Location) {f f' : Machine → Except Fault Machine}
    (hf : ∀ m m' : Machine, m.Renamed ρ m' → RenamedResult ρ (Machine.Renamed ρ) (f m) (f' m')) :
    Renamed ρ (attempt loc f) (attempt loc f') := by
  intro m m' h
  have hr := hf m m' h
  dsimp only [attempt, op]
  generalize f m = r, f' m' = r' at hr
  cases hr with
  | ok h₁ => exact .done () h₁
  | error e => exact .failed (.fault loc e) h

theorem renamed_create (loc : Location) {f f' : Machine → Except Fault (α × Machine)}
    (hf : ∀ m m' : Machine, m.Renamed ρ m' →
      RenamedResult ρ (fun x y => y.1 = rename ρ x.1 ∧ x.2.Renamed ρ y.2) (f m) (f' m')) :
    Renamed ρ (create loc f) (create loc f') := by
  intro m m' h
  have hr := hf m m' h
  dsimp only [create, op]
  generalize f m = r, f' m' = r' at hr
  cases hr with
  | @ok x y hxy =>
    obtain ⟨a, m₁⟩ := x
    obtain ⟨b, m₂⟩ := y
    obtain ⟨rfl, h₁⟩ := hxy
    exact .done a h₁
  | error e => exact .failed (.fault loc e) h

theorem renamed_record (e e' : Event) : Renamed ρ (record e) (record e') :=
  renamed_update fun _ _ h => h.note e e'

theorem renamed_depth : Renamed ρ depth depth := by
  intro m m' h
  show Outcome.Renamed ρ (.done m.stack.depth m) (.done m'.stack.depth m')
  rw [h.depth_eq]
  exact .done m.stack.depth h

theorem renamed_hasReturned : Renamed ρ hasReturned hasReturned := by
  intro m m' h
  have hreturned : m'.stack.current.hasReturned = m.stack.current.hasReturned := by
    unfold Frame.hasReturned
    rw [h.current.returned_eq]
    exact Option.isSome_map
  show Outcome.Renamed ρ (.done m.stack.current.hasReturned m)
    (.done m'.stack.current.hasReturned m')
  rw [hreturned]
  exact .done m.stack.current.hasReturned h

theorem renamed_readInteger (loc : Location) :
    Renamed ρ (readInteger loc) (readInteger loc) := by
  intro m m' h
  dsimp only [readInteger, op]
  rw [h.input_eq]
  rcases m.input.next with ⟨r, input⟩
  have hinput : Machine.Renamed ρ { m with input := input } { m' with input := input } :=
    { h with input_eq := rfl }
  cases r with
  | error e => exact .failed (.fault loc (.input e)) (hinput.note _ _)
  | ok n => exact .done n (hinput.note _ _)

theorem renamed_writeLine (n : Int64) (loc : Location) :
    Renamed ρ (writeLine n loc) (writeLine n loc) := by
  intro m m' h
  rw [run_writeLine, run_writeLine, h.output_eq]
  rcases m.output.write (line n) with ⟨written, output⟩
  have houtput : Machine.Renamed ρ { m with output := output } { m' with output := output } :=
    { h with output_eq := rfl }
  cases written with
  | false => exact .failed (.fault loc (.output .full)) houtput
  | true => exact .done () (houtput.note _ _)

theorem renamed_flush (loc : Location) :
    Renamed ρ (Context.flush loc) (Context.flush loc) := by
  intro m m' h
  dsimp only [Context.flush, op]
  rw [h.output_eq]
  cases m.output.flush with
  | ok _ => exact .done () h
  | error e => exact .failed (.fault loc (.output e)) h

theorem renamed_readPlace (place : Place) (loc : Location) :
    Renamed ρ (readPlace place loc) (readPlace (rename ρ place) loc) :=
  renamed_query loc fun _ _ h => h.readPlace place

theorem renamed_writePlace {d : RegionId} (place : Place) (v : Value) (loc : Location) :
    Renamed (shift d) (writePlace place v loc)
      (writePlace (rename (shift d) place) (rename (shift d) v) loc) :=
  renamed_attempt loc fun _ _ h => h.writePlace (shift_injective d) place v

/-! ### Calls -/

/-- Computations in frames that correspond, followed by what depends on the value that is
returned. -/
theorem Renamed.inFrame_bind (hρ : Function.Injective ρ) {x x' : Eval α} (hx : Renamed ρ x x')
    {f f' : Frame} (hf : f.Renamed ρ f') {k k' : Value → Eval β}
    (hk : ∀ v, Renamed ρ (k v) (k' (rename ρ v))) :
    Renamed ρ (inFrame f x >>= fun r => k r.2.returnValue)
      (inFrame f' x' >>= fun r => k' r.2.returnValue) := by
  intro m m' h
  have hrun := hx _ _ (h.enterFrame hf)
  rw [run_bind, run_bind, run_inFrame, run_inFrame]
  generalize x.run (m.enterFrame f) = o, x'.run (m'.enterFrame f') = o' at hrun
  cases hrun with
  | done a h₁ =>
    obtain ⟨hframe, hrest⟩ := h₁.leaveFrame hρ
    dsimp only
    rw [hframe.returnValue]
    exact hk _ _ _ hrest
  | failed e h₁ => exact .failed e (h₁.leaveFrame hρ).2
  | outOfFuel => exact .outOfFuel

/-! ### Runs -/

/-- Expressions do not look at the numbers of regions. -/
theorem exprSimulationUpTo_renamed (d : RegionId) :
    ExprSimulationUpTo .equal (shift d) (Renamed (shift d)) where
  injective := shift_injective d
  yield := renamed_pure
  seq := Renamed.bind
  fail := renamed_fail
  readName x link loc _ := renamed_lookUp _ loc fun _ _ h => h.readName x link
  atName x link isArray loc _ _ _ _ _ hf :=
    (renamed_lookUp _ loc fun _ _ h => h.placeOfName x link isArray).bind fun place =>
      (hf place).related Renamed.bind (renamed_readPlace place) (renamed_writePlace place)
  readMemory p := renamed_readPlace (.memory p)
  writeMemory p := renamed_writePlace (.memory p)
  remember _ _ := renamed_update fun _ _ h => h.modifyFrame { h.current with }
  readInteger := renamed_readInteger
  writeLine := renamed_writeLine
  allocate size loc := renamed_create loc fun _ _ h => h.allocate size
  release p loc := renamed_attempt loc fun _ _ h => h.release (shift_injective d) p
  written := False.elim

/-- Nor do runs. -/
theorem runSimulationUpTo_renamed (d : RegionId) (scope : Nat → Option Bool) (limit : Nat) :
    RunSimulationUpTo .equal (shift d) scope limit limit (Renamed (shift d))
      (Renamed (shift d)) where
  toExprSimulationUpTo := exprSimulationUpTo_renamed d
  ofExpr h := h
  sequence := Renamed.bind
  clearCache := renamed_update fun _ _ h => h.modifyFrame { h.current with }
  depth := renamed_depth
  dropOldArray depth _ := by
    unfold Eval.dropOldArray
    split
    · exact renamed_pure ()
    · exact renamed_update fun _ _ h => h.dropOldArray (shift_injective d) _
  storeArray _ size loc _ _ := renamed_create loc fun _ _ h => h.storeArray _ _ size
  bindVariable _ w _ := renamed_update fun _ _ h => h.bindVariable _ _ w
  outOfFuel := renamed_outOfFuel
  hasReturned := renamed_hasReturned
  setReturned v := renamed_update fun _ _ h => h.modifyFrame { h.current with returned_eq := rfl }
  recordStatement _ := renamed_update fun _ _ h => h.note _ _
  enter f args loc _ _ hx := (exprSimulationUpTo_renamed d).enter renamed_depth renamed_record limit
    f args loc hx fun _ _ hy hk => hy.inFrame_bind (shift_injective d) (f.renamed_frame args) hk
  started _ := renamed_record _ _
  flush := renamed_flush
  finished _ m m' h := .done () (h.note _ _)

/-- A run takes machines that correspond to outcomes that correspond. -/
theorem renamed_run (ctx : Context) (d : RegionId) (fuel : Nat) :
    Renamed (shift d) (ctx.run fuel) (ctx.run fuel) := by
  have hp := ctx.program.alike_self
  have hsim : RunSimulationUpTo .equal (shift d) (ctx.env fuel).isGlobal? ctx.config.maxCallDepth
      ctx.config.maxCallDepth (Renamed (shift d)) (Renamed (shift d)) :=
    runSimulationUpTo_renamed d _ _
  exact hsim.run rfl hp fuel (hsim.declareGlobals rfl (hsim.call hp fuel) hp.globals)

end Eval

/-! ### Runs from different counters -/

/-- The value is no pointer, so there is nothing to rename in it. -/
theorem Value.rename_eq_self {v : Value} (h : v.isPointer = false) : rename ρ v = v := by
  cases v with
  | pointer p => cases h
  | integer n => rfl
  | uninitialized => rfl

/-- No variable holds a pointer. -/
def Bindings.RegionFree (b : Bindings) : Prop :=
  ∀ id v, b.lookup? id = some v → v.isPointer = false

/-- Nothing in the frame refers to a region. -/
structure Frame.RegionFree (f : Frame) : Prop where
  bindings : f.bindings.RegionFree
  returned : ∀ v, f.returned = some v → v.isPointer = false
  owned : f.owned = []

/-- There are no regions, and nothing in the machine refers to one. -/
structure Machine.RegionFree (m : Machine) : Prop where
  regions : ∀ id : RegionId, m.heap.regions[id]? = none
  frames : ∀ f ∈ m.stack.current :: m.stack.callers, f.RegionFree
  globals : m.globals.RegionFree

theorem Bindings.RegionFree.renamed {b : Bindings} (h : b.RegionFree) : b.Renamed ρ b := by
  intro id
  cases hv : b.lookup? id with
  | none => rfl
  | some v => exact congrArg some (Value.rename_eq_self (h id v hv)).symm

theorem Frame.RegionFree.renamed {f : Frame} (h : f.RegionFree) : f.Renamed ρ f where
  function_eq := rfl
  bindings := h.bindings.renamed
  returned_eq := by
    cases hv : f.returned with
    | none => rfl
    | some v => exact congrArg some (Value.rename_eq_self (h.returned v hv)).symm
  owned_eq := by
    rw [h.owned]
    rfl

/-- Before its first run, nothing in the machine of a session refers to a region. -/
theorem Session.regionFree_start (p : Program) (config : Config) (input : Input) (output : Output)
    (journal : Option (List Event)) : (start p config input output journal).machine.RegionFree where
  regions id := by simp [start, Heap.empty]
  frames f hf := by
    obtain rfl : f = .ofName "<global>" := List.mem_singleton.1 hf
    exact ⟨fun _ _ h => (by cases h), fun _ h => (by cases h), rfl⟩
  globals _ _ h := by cases h

/-- The machine with the number of the next region replaced. -/
def Machine.numberedFrom (m : Machine) (n : RegionId) : Machine :=
  { m with heap := { m.heap with next := n } }

/-- The session with the number of the next region replaced. -/
def Session.numberedFrom (s : Session) (n : RegionId) : Session :=
  s.withMachine (s.machine.numberedFrom n)

/-- If nothing refers to a region, machines that differ in the next number correspond. -/
theorem Machine.RegionFree.renamed {m : Machine} (h : m.RegionFree) (n₁ n₂ : RegionId) :
    (m.numberedFrom n₁).Renamed (shift (n₂ - n₁)) (m.numberedFrom n₂) where
  heap := {
    regions := fun id => by
      show Option.Rel _ m.heap.regions[id]? m.heap.regions[shift (n₂ - n₁) id]?
      rw [h.regions, h.regions]
      exact .none
    next_eq := by
      show n₂ = n₁ + (n₂ - n₁)
      rw [UInt32.add_comm, UInt32.sub_add_cancel]
    held_eq := rfl
    limit_eq := rfl }
  current := (h.frames _ List.mem_cons_self).renamed
  callers := List.forall₂_same.2 fun f hf => (h.frames f (List.mem_cons_of_mem _ hf)).renamed
  globals := h.globals.renamed
  input_eq := rfl
  output_eq := rfl

/-- Outcomes that correspond are of one kind. -/
theorem Outcome.Renamed.alike {α : Type} [Renames α] {o o' : Outcome α} (h : o.Renamed ρ o') :
    (o = .outOfFuel ↔ o' = .outOfFuel) ∧
    (∀ a m, o = .done a m → ∃ m', o' = .done (rename ρ a) m' ∧ m.Renamed ρ m') ∧
    ∀ e m, o = .failed e m →
      ∃ e' m', o' = .failed e' m' ∧ e'.kind = e.kind ∧ e'.location? = e.location? ∧
        m.Renamed ρ m' := by
  cases h with
  | done a h =>
    refine ⟨⟨nofun, nofun⟩, fun b m ho => ?_, fun e m ho => ?_⟩
    · cases ho
      exact ⟨_, rfl, h⟩
    · cases ho
  | failed e h =>
    refine ⟨⟨nofun, nofun⟩, fun b m ho => ?_, fun f m ho => ?_⟩
    · cases ho
    · cases ho
      exact ⟨_, _, rfl, e.kind_rename, e.location?_rename, h⟩
  | outOfFuel =>
    refine ⟨⟨fun _ => rfl, fun _ => rfl⟩, fun b m ho => ?_, fun e m ho => ?_⟩
    · cases ho
    · cases ho

/-- Runs from counters that differ by `n₂ - n₁` end alike, if nothing refers to a region before
them, as in a session that has not run yet: both are cut off, or both yield values that are shifted
by that, or both fail with an error of one kind in one place.  What they leave corresponds: the
input that is left and the text that was printed are the same, and globals, regions, their sizes and
contents are the same but for the shift.  The counters may wrap, as the shift does. -/
theorem region_numbers_unobservable (s : Session) (hs : s.machine.RegionFree) (n₁ n₂ : RegionId)
    (fuel : Nat) :
    let ρ := shift (n₂ - n₁)
    let run := fun n => (s.numberedFrom n).run fuel
    (run n₁ = .outOfFuel ↔ run n₂ = .outOfFuel) ∧
    (∀ v m₁, run n₁ = .done v m₁ →
      ∃ m₂, run n₂ = .done (rename ρ v) m₂ ∧ m₁.Renamed ρ m₂) ∧
    ∀ e m₁, run n₁ = .failed e m₁ →
      ∃ e' m₂, run n₂ = .failed e' m₂ ∧ e'.kind = e.kind ∧ e'.location? = e.location? ∧
        m₁.Renamed ρ m₂ := by
  intro ρ run
  exact (Eval.renamed_run s.context (n₂ - n₁) fuel _ _ (hs.renamed n₁ n₂)).alike

/-- A program that stores a pointer in memory, compares it with another one, and returns it. -/
def entangled : Session :=
  .start (.ofText "char *g; char *main() { char a[2]; char **p = MALLOC(3); *p = a;
    g = a + 1; PRINT(*p == a); return p + 1; }") {} (.ofBytes []) .unlimited none

/-- Its block is region 1 or region 8. -/
theorem region_numbers_unobservable_entangled :
    ∃ m₁ m₂, (entangled.numberedFrom 0).run 9 = .done (.pointer ⟨1, 8⟩) m₁ ∧
      (entangled.numberedFrom 7).run 9 = .done (.pointer ⟨8, 8⟩) m₂ ∧
      m₁.Renamed (shift 7) m₂ ∧ m₁.output.text = "1\n" := by
  have hshown : ((entangled.numberedFrom 0).run 9).shown = some (.pointer ⟨1, 8⟩, "1\n") := by
    decide +kernel
  obtain ⟨m₁, hrun, htext⟩ := Outcome.exists_of_shown hshown
  obtain ⟨-, hdone, -⟩ := region_numbers_unobservable entangled (Session.regionFree_start ..) 0 7 9
  obtain ⟨m₂, hrun', hm⟩ := hdone _ m₁ hrun
  exact ⟨m₁, m₂, hrun, hrun', hm, htext⟩

/-- A session of a program whose variable `p` keeps a pointer to a block that was given back. -/
def leftover : Session :=
  .start (.ofText "int a = GET(); int *p; int main() { int n = GET(); FREE(p = MALLOC(4));
    while (n) { FREE(MALLOC(4)); n = n - 1; } return 0; }") {} (.ofBytes "7 0".toUTF8.toList)
    .unlimited none

/-- A pointer that an earlier run has left is not shifted.  Behind the first run of the session no
region is live, and one has been made.  The second run fails before it declares `p` again: with the
counter at 1 and with the counter at 5, which is where the input `7 4` would have left it, it leaves
the same old pointer. -/
theorem left_pointer_unshifted :
    ∃ s, leftover.After s ∧ (∀ id : RegionId, s.machine.heap.regions[id]? = none) ∧
      ∃ e₁ m₁ e₂ m₂, (s.numberedFrom 1).run 9 = .failed e₁ m₁ ∧
        (s.numberedFrom 5).run 9 = .failed e₂ m₂ ∧
        m₁.heap.next = 1 ∧ m₁.globals.lookup? 1 = some (.pointer ⟨0, 0⟩) ∧
        m₂.heap.next = 5 ∧ m₂.globals.lookup? 1 = some (.pointer ⟨0, 0⟩) ∧
        ¬m₁.globals.Renamed (shift (5 - 1)) m₂.globals := by
  let s := leftover.next 9
  let run (n : RegionId) := (s.numberedFrom n).run 9
  let left (n : RegionId) := (run n).error?.bind fun _ => (run n).machine?.map fun m =>
    (m.heap.next, m.globals.lookup? 1)
  have hleft : s.machine.heap.regions.isEmpty = true ∧
      left 1 = some (1, some (.pointer ⟨0, 0⟩)) ∧ left 5 = some (5, some (.pointer ⟨0, 0⟩)) := by
    decide +kernel
  obtain ⟨hempty, hleft₁, hleft₂⟩ := hleft
  have hnone (id : RegionId) : s.machine.heap.regions[id]? = none :=
    Std.TreeMap.getElem?_of_isEmpty hempty
  have ends (n : RegionId) (h : left n = some (n, some (.pointer ⟨0, 0⟩))) :
      ∃ e m, run n = .failed e m ∧ m.heap.next = n ∧
        m.globals.lookup? 1 = some (.pointer ⟨0, 0⟩) := by
    obtain ⟨e, he, h⟩ := Option.bind_eq_some_iff.1 h
    obtain ⟨m, hrun⟩ := Outcome.exists_of_error? he
    rw [hrun] at h
    obtain ⟨hnext, hglobal⟩ := Prod.mk.inj (Option.some.inj h)
    exact ⟨e, m, hrun, hnext, hglobal⟩
  obtain ⟨e₁, m₁, hrun₁, hnext₁, hglobal₁⟩ := ends 1 hleft₁
  obtain ⟨e₂, m₂, hrun₂, hnext₂, hglobal₂⟩ := ends 5 hleft₂
  refine ⟨s, .next .start 9, hnone, e₁, m₁, e₂, m₂, hrun₁, hrun₂, hnext₁, hglobal₁, hnext₂,
    hglobal₂, fun hrenamed => ?_⟩
  have hshifted := hrenamed 1
  rw [hglobal₁, hglobal₂] at hshifted
  revert hshifted
  decide

end MiniC
