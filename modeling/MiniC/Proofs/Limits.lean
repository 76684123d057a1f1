import MiniC.Proofs.Parsed
import MiniC.Proofs.Simulation
import MiniC.Session

/-!
# Limits

A run has a limit on the depth of its calls and one on the bytes of its memory.  Both are looked at
in one place each, where they may turn a call or an allocation down.  So a run that is turned down
nowhere goes on in the same way if the limits are raised.

For the proof, two machines run side by side that are the same but for the limit of their heaps.  We
write both of them as one machine with its limit replaced: then it is enough that operations do not
look at the limit, which means that they go along with replacing it.

Main definitions:

* `MiniC.RuntimeError.OfLimit`: the errors by which a limit may turn something down;
* `MiniC.Machine.withHeapLimit`: a machine with another limit;
* `MiniC.Eval.Follows`: one computation does what another one does, unless that is turned down.

Main results:

* `MiniC.Eval.Follows.bind`, `MiniC.Eval.follows_enter`: sequences and calls;
* `MiniC.Eval.runSimulation_follows`: following is a simulation;
* `MiniC.limits_unobservable`: a run that is not turned down does the same under higher limits.
-/

set_option autoImplicit false

namespace MiniC

/-- An error of a class in which a limit is reported. -/
def RuntimeError.OfLimit (e : RuntimeError) : Prop :=
  e.kind = .stackOverflow ∨ e.kind = .invalidAllocation

instance (e : RuntimeError) : Decidable e.OfLimit :=
  inferInstanceAs (Decidable (_ ∨ _))

/-! ### Heaps with another limit -/

namespace Heap

/-- The heap with another limit. -/
def withLimit (h : Heap) (limit : Nat) : Heap := { h with limit := limit }

/-- What a limit allows, a higher one allows, too. -/
theorem allocate_withLimit {low high : Nat} (hle : low ≤ high) (h : Heap) (kind : RegionKind)
    (size : Nat) :
    (∃ (p : Pointer) (h' : Heap), (h.withLimit low).allocate kind size = .ok (p, h'.withLimit low) ∧
      (h.withLimit high).allocate kind size = .ok (p, h'.withLimit high)) ∨
    (h.withLimit low).allocate kind size = .error (.outOfMemory size h.allocated low) := by
  unfold allocate
  by_cases hlow : (sum? h.held size).any fun total => total ≤ low
  · left
    have hhigh : (sum? h.held size).any fun total => total ≤ high := by
      rw [any_sum?_iff] at hlow ⊢
      exact ⟨hlow.1, Nat.le_trans hlow.2 hle⟩
    refine ⟨.base h.next, { h with
      regions := h.regions.insert h.next ⟨kind, .ofNat size, ∅⟩
      next := h.next + 1
      held := h.held + .ofNat size }, ?_, ?_⟩
    · exact if_pos hlow
    · exact if_pos hhigh
  · right
    exact if_neg hlow

theorem drop_withLimit (h : Heap) (limit : Nat) (id : RegionId) :
    (h.withLimit limit).drop id = (h.drop id).withLimit limit := by
  unfold drop
  rw [show (h.withLimit limit).regions = h.regions from rfl]
  cases h.regions[id]? <;> rfl

theorem foldl_drop_withLimit (h : Heap) (limit : Nat) (ids : List RegionId) :
    ids.foldl drop (h.withLimit limit) = (ids.foldl drop h).withLimit limit := by
  induction ids generalizing h with
  | nil => rfl
  | cons id ids ih => rw [List.foldl_cons, List.foldl_cons, drop_withLimit, ih]

theorem release_withLimit (h : Heap) (limit : Nat) (p : Pointer) :
    (h.withLimit limit).release p =
      (h.release p).map fun r => (r.1, r.2.withLimit limit) := by
  unfold release
  rw [show (h.withLimit limit).regions = h.regions from rfl, drop_withLimit]
  cases h.regions[p.region]? with
  | none => rfl
  | some r => dsimp only; split <;> rfl

theorem write_withLimit (h : Heap) (limit : Nat) (p : Pointer) (v : Value) :
    (h.withLimit limit).write p v = (h.write p v).map (·.withLimit limit) := by
  unfold write
  rw [show (h.withLimit limit).regions = h.regions from rfl]
  split <;> rfl

end Heap

/-! ### Machines with another limit -/

namespace Machine

/-- The machine with another limit on its heap. -/
def withHeapLimit (m : Machine) (limit : Nat) : Machine :=
  { m with heap := m.heap.withLimit limit }

variable (m : Machine) (limit : Nat)

theorem note_withHeapLimit (e : Event) :
    (m.withHeapLimit limit).note e = (m.note e).withHeapLimit limit := by
  obtain ⟨heap, stack, globals, input, output, journal⟩ := m
  cases journal <;> rfl

theorem readPlace_withHeapLimit (place : Place) :
    (m.withHeapLimit limit).readPlace place = m.readPlace place := by
  cases place <;> rfl

theorem writePlace_withHeapLimit (place : Place) (v : Value) :
    (m.withHeapLimit limit).writePlace place v =
      (m.writePlace place v).map (·.withHeapLimit limit) := by
  cases place with
  | «local» id => rfl
  | global id => rfl
  | memory p =>
    simp only [writePlace]
    rw [show (m.withHeapLimit limit).heap = m.heap.withLimit limit from rfl,
      Heap.write_withLimit]
    cases m.heap.write p v <;> rfl

theorem bindVariable_withHeapLimit (isGlobal : Bool) (id : Nat) (v : Value) :
    (m.withHeapLimit limit).bindVariable isGlobal id v =
      (m.bindVariable isGlobal id v).withHeapLimit limit := by
  unfold bindVariable
  dsimp only
  rw [← note_withHeapLimit]
  cases isGlobal <;> rfl

theorem release_withHeapLimit (p : Pointer) :
    (m.withHeapLimit limit).release p = (m.release p).map (·.withHeapLimit limit) := by
  unfold release
  rw [show (m.withHeapLimit limit).heap = m.heap.withLimit limit from rfl,
    Heap.release_withLimit]
  cases m.heap.release p with
  | error e => rfl
  | ok r => exact congrArg Except.ok (note_withHeapLimit { m with heap := r.2 } limit _)

theorem dropOldArray_withHeapLimit (id : Nat) :
    (m.withHeapLimit limit).dropOldArray id = (m.dropOldArray id).withHeapLimit limit := by
  unfold dropOldArray
  rw [show (m.withHeapLimit limit).stack = m.stack from rfl]
  cases (m.stack.current.lookup? id).bind Value.pointer? with
  | none => rfl
  | some p =>
    dsimp only
    cases m.stack.current.disown? p.region with
    | none => rfl
    | some f =>
      dsimp only
      rw [show (m.withHeapLimit limit).heap = m.heap.withLimit limit from rfl,
        Heap.drop_withLimit]
      rfl

theorem leaveFrame_withHeapLimit :
    (m.withHeapLimit limit).leaveFrame =
      (m.leaveFrame.1, m.leaveFrame.2.withHeapLimit limit) := by
  unfold leaveFrame
  rw [show (m.withHeapLimit limit).stack = m.stack from rfl]
  cases m.stack.pop? with
  | none => rfl
  | some r =>
    dsimp only
    rw [show (m.withHeapLimit limit).heap = m.heap.withLimit limit from rfl,
      Heap.foldl_drop_withLimit]
    rfl

end Machine

/-! ### Following -/

/-- The second outcome is the first one under a higher limit: the same value or error, and the same
machine but for the limit.  If the first one is an error by which a limit may turn something down,
then the second one may be any. -/
inductive Outcome.Follows {α : Type} (low high : Nat) : Outcome α → Outcome α → Prop
  | done (a : α) (m : Machine) :
      Follows low high (.done a (m.withHeapLimit low)) (.done a (m.withHeapLimit high))
  | failed (e : RuntimeError) (m : Machine) :
      Follows low high (.failed e (m.withHeapLimit low)) (.failed e (m.withHeapLimit high))
  | refused {e : RuntimeError} (m : Machine) (o : Outcome α) :
      e.OfLimit → Follows low high (.failed e m) o
  | outOfFuel : Follows low high .outOfFuel .outOfFuel

namespace Eval

variable {α β : Type} {low high : Nat}

/-- Under the higher limit, the second computation does what the first one does under the lower
one. -/
def Follows (low high : Nat) (x y : Eval α) : Prop :=
  ∀ m : Machine, (x.run (m.withHeapLimit low)).Follows low high (y.run (m.withHeapLimit high))

theorem Follows.bind {x y : Eval α} {f g : α → Eval β} (hxy : Follows low high x y)
    (hfg : ∀ a, Follows low high (f a) (g a)) : Follows low high (x >>= f) (y >>= g) := by
  intro m
  have hrun := hxy m
  rw [run_bind, run_bind]
  generalize x.run (m.withHeapLimit low) = o, y.run (m.withHeapLimit high) = o' at hrun
  cases hrun with
  | done a m₁ => exact hfg a m₁
  | failed e m₁ => exact .failed e m₁
  | refused m₁ _ he => exact .refused m₁ _ he
  | outOfFuel => exact .outOfFuel

theorem follows_pure (a : α) : Follows low high (pure a) (pure a) := fun m => .done a m

theorem follows_fail (e : RuntimeError) : Follows low high (fail e : Eval α) (fail e) :=
  fun m => .failed e m

/-- Where a limit turns something down, nothing is said about the other side. -/
theorem follows_of_ofLimit {e : RuntimeError} (he : e.OfLimit) (y : Eval α) :
    Follows low high (fail e) y :=
  fun _ => .refused _ _ he

theorem follows_outOfFuel : Follows low high (outOfFuel : Eval α) outOfFuel :=
  fun _ => .outOfFuel

/-! ### Operations -/

theorem follows_query (loc : Location) {f : Machine → Except Fault α}
    (hf : ∀ m limit, f (m.withHeapLimit limit) = f m) :
    Follows low high (query loc f) (query loc f) := by
  intro m
  dsimp only [query, op]
  rw [hf, hf]
  cases f m with
  | ok a => exact .done a m
  | error e => exact .failed _ m

theorem follows_lookUp (k : Lookup) (loc : Location) {f : Machine → Except Fault α}
    (hf : ∀ m limit, f (m.withHeapLimit limit) = f m) :
    Follows low high (lookUp k loc f) (lookUp k loc f) :=
  follows_query loc hf

theorem follows_update {f : Machine → Machine}
    (hf : ∀ m limit, f (m.withHeapLimit limit) = (f m).withHeapLimit limit) :
    Follows low high (update f) (update f) := by
  intro m
  dsimp only [update, op]
  rw [hf, hf]
  exact .done () (f m)

theorem follows_attempt (loc : Location) {f : Machine → Except Fault Machine}
    (hf : ∀ m limit, f (m.withHeapLimit limit) = (f m).map (·.withHeapLimit limit)) :
    Follows low high (attempt loc f) (attempt loc f) := by
  intro m
  dsimp only [attempt, op]
  rw [hf, hf]
  cases f m with
  | ok m₁ => exact .done () m₁
  | error e => exact .failed _ m

/-- What is made under the lower limit is made under the higher one; what the lower limit turns down
is an allocation. -/
theorem follows_create (loc : Location) {f : Machine → Except Fault (α × Machine)}
    (hf : ∀ m : Machine,
      (∃ (a : α) (m' : Machine), f (m.withHeapLimit low) = .ok (a, m'.withHeapLimit low) ∧
        f (m.withHeapLimit high) = .ok (a, m'.withHeapLimit high)) ∨
      ∃ e, f (m.withHeapLimit low) = .error e ∧ e.kind = .invalidAllocation) :
    Follows low high (create loc f) (create loc f) := by
  intro m
  dsimp only [create, op]
  rcases hf m with ⟨a, m', hlow, hhigh⟩ | ⟨e, hlow, he⟩
  · rw [hlow, hhigh]
    exact .done a m'
  · rw [hlow]
    exact .refused _ _ (.inr he)

theorem follows_allocate (hle : low ≤ high) (size : Nat) (loc : Location) :
    Follows low high (create loc fun m => m.allocate size)
      (create loc fun m => m.allocate size) := by
  refine follows_create loc fun m => ?_
  unfold Machine.allocate
  rcases m.heap.allocate_withLimit hle .block size with ⟨p, heap, hlow, hhigh⟩ | hlow
  · left
    refine ⟨p, { m with heap := heap }.note (.allocated p.region size), ?_, ?_⟩
    · rw [show (m.withHeapLimit low).heap = m.heap.withLimit low from rfl, hlow,
        ← Machine.note_withHeapLimit]
      rfl
    · rw [show (m.withHeapLimit high).heap = m.heap.withLimit high from rfl, hhigh,
        ← Machine.note_withHeapLimit]
      rfl
  · right
    rw [show (m.withHeapLimit low).heap = m.heap.withLimit low from rfl, hlow]
    exact ⟨_, rfl, rfl⟩

theorem follows_storeArray (hle : low ≤ high) (isGlobal : Bool) (id size : Nat) (loc : Location) :
    Follows low high (create loc fun m => m.storeArray isGlobal id size)
      (create loc fun m => m.storeArray isGlobal id size) := by
  refine follows_create loc fun m => ?_
  unfold Machine.storeArray
  rcases m.heap.allocate_withLimit hle .array size with ⟨p, heap, hlow, hhigh⟩ | hlow
  · left
    have hnote : ∀ limit,
        ({ m.withHeapLimit limit with heap := heap.withLimit limit } : Machine).note
          (.stored id p.region) =
        (({ m with heap := heap } : Machine).note (.stored id p.region)).withHeapLimit limit :=
      fun limit => Machine.note_withHeapLimit { m with heap := heap } limit _
    let stored := ({ m with heap := heap } : Machine).note (.stored id p.region)
    refine ⟨p, if isGlobal then stored else stored.modifyFrame fun f => f.own p.region, ?_, ?_⟩
    · rw [show (m.withHeapLimit low).heap = m.heap.withLimit low from rfl, hlow]
      dsimp only
      rw [hnote]
      cases isGlobal <;> rfl
    · rw [show (m.withHeapLimit high).heap = m.heap.withLimit high from rfl, hhigh]
      dsimp only
      rw [hnote]
      cases isGlobal <;> rfl
  · right
    rw [show (m.withHeapLimit low).heap = m.heap.withLimit low from rfl, hlow]
    exact ⟨_, rfl, rfl⟩

theorem follows_record (e : Event) : Follows low high (record e) (record e) :=
  follows_update fun m limit => m.note_withHeapLimit limit e

theorem follows_depth : Follows low high depth depth := fun m => .done m.stack.depth m

theorem follows_readInteger (loc : Location) :
    Follows low high (readInteger loc) (readInteger loc) := by
  intro m
  dsimp only [readInteger, op]
  rw [show (m.withHeapLimit low).input = m.input from rfl,
    show (m.withHeapLimit high).input = m.input from rfl]
  have hnote : ∀ input e limit,
      ({ m.withHeapLimit limit with input := input } : Machine).note e =
        (({ m with input := input } : Machine).note e).withHeapLimit limit :=
    fun input e limit => Machine.note_withHeapLimit { m with input := input } limit e
  rcases m.input.next with ⟨e | n, input⟩
  · dsimp only
    rw [hnote, hnote]
    exact .failed _ _
  · dsimp only
    rw [hnote, hnote]
    exact .done _ _

theorem follows_writeLine (n : Int64) (loc : Location) :
    Follows low high (writeLine n loc) (writeLine n loc) := by
  intro m
  rw [run_writeLine, run_writeLine, show (m.withHeapLimit low).output = m.output from rfl,
    show (m.withHeapLimit high).output = m.output from rfl]
  have hnote : ∀ output limit,
      ({ m.withHeapLimit limit with output := output } : Machine).note (.printed n) =
        (({ m with output := output } : Machine).note (.printed n)).withHeapLimit limit :=
    fun output limit => Machine.note_withHeapLimit { m with output := output } limit _
  rcases m.output.write (line n) with ⟨_ | _, output⟩
  · exact .failed _ { m with output := output }
  · dsimp only
    rw [hnote, hnote]
    exact .done _ _

theorem follows_flush (loc : Location) :
    Follows low high (Context.flush loc) (Context.flush loc) := by
  intro m
  dsimp only [Context.flush, op]
  rw [show (m.withHeapLimit low).output = m.output from rfl,
    show (m.withHeapLimit high).output = m.output from rfl]
  cases m.output.flush with
  | ok _ => exact .done () m
  | error e => exact .failed _ m

/-! ### Calls -/

/-- A computation in a frame of its own follows another one. -/
theorem Follows.inFrame {x y : Eval α} (hxy : Follows low high x y) (f : Frame) :
    Follows low high (Eval.inFrame f x) (Eval.inFrame f y) := by
  intro m
  have hrun := hxy (m.enterFrame f)
  have henter : ∀ limit, (m.withHeapLimit limit).enterFrame f =
      (m.enterFrame f).withHeapLimit limit := fun _ => rfl
  rw [Eval.run_inFrame, Eval.run_inFrame, henter, henter]
  generalize x.run _ = o, y.run _ = o' at hrun
  cases hrun with
  | done a m₁ =>
    dsimp only
    rw [Machine.leaveFrame_withHeapLimit, Machine.leaveFrame_withHeapLimit]
    exact .done (a, m₁.leaveFrame.1) m₁.leaveFrame.2
  | failed e m₁ =>
    dsimp only
    rw [Machine.leaveFrame_withHeapLimit, Machine.leaveFrame_withHeapLimit]
    exact .failed e m₁.leaveFrame.2
  | refused m₁ o he => exact .refused _ _ he
  | outOfFuel => exact .outOfFuel

/-- A call that the lower limit on the depth lets pass, the higher one lets pass, too. -/
theorem follows_enter {limit limit' : Nat} (hlimit : limit ≤ limit') (f : Function)
    (args : List Value) (loc : Location) {x y : Eval α} (value : α → Frame → Value)
    (hxy : Follows low high x y) :
    Follows low high (enter limit f args loc x value) (enter limit' f args loc y value) := by
  refine follows_depth.bind fun depth => ?_
  by_cases harity : args.length ≠ f.params.length
  · rw [if_pos harity, if_pos harity]
    exact follows_fail _
  · rw [if_neg harity, if_neg harity]
    by_cases hdepth : limit ≤ depth
    · rw [if_pos hdepth]
      exact follows_of_ofLimit (.inl rfl) _
    · rw [if_neg hdepth, if_neg (by omega)]
      have hbody := ((follows_record (.call f.name (depth + 1))).bind fun _ => hxy).inFrame
        (f.frame args)
      exact hbody.bind fun _ => (follows_record _).bind fun _ => follows_pure _

/-! ### Following is a simulation -/

/-- Runs do not look at their limits but to turn something down. -/
theorem runSimulation_follows (hle : low ≤ high) {limit limit' : Nat} (hlimit : limit ≤ limit')
    (scope : Nat → Option Bool) :
    RunSimulation .equal scope limit limit' (Follows low high) (Follows low high) where
  yield := follows_pure
  seq := Follows.bind
  fail := follows_fail
  readName _ _ loc _ := follows_lookUp _ loc fun _ _ => rfl
  placeOfName _ _ _ loc _ := follows_lookUp _ loc fun _ _ => rfl
  readPlace place loc := follows_query loc fun m limit => m.readPlace_withHeapLimit limit place
  writePlace place v loc :=
    follows_attempt loc fun m limit => m.writePlace_withHeapLimit limit place v
  remember v h := by
    cases h
    exact follows_update fun _ _ => rfl
  readInteger := follows_readInteger
  writeLine := follows_writeLine
  allocate := follows_allocate hle
  release p loc := follows_attempt loc fun m limit => m.release_withHeapLimit limit p
  written := False.elim
  ofExpr h := h
  sequence := Follows.bind
  clearCache := follows_update fun _ _ => rfl
  depth := follows_depth
  dropOldArray depth _ := by
    unfold Eval.dropOldArray
    split
    · exact follows_pure ()
    · exact follows_update fun m limit => m.dropOldArray_withHeapLimit limit _
  storeArray _ size loc _ _ := follows_storeArray hle _ _ size loc
  bindVariable _ w _ := follows_update fun m limit => m.bindVariable_withHeapLimit limit _ _ w
  outOfFuel := follows_outOfFuel
  hasReturned m := .done m.stack.current.hasReturned m
  setReturned v := follows_update fun _ _ => rfl
  recordStatement line := follows_update fun m limit => m.note_withHeapLimit limit _
  enter f args loc _ _ hxy := follows_enter hlimit f args loc _ hxy
  started _ := follows_record _
  flush := follows_flush
  finished _ :=
    Follows.bind (fun m => .done m.heap.blockCount m) fun _ => follows_record _

/-- Under higher limits, a run does what it does under lower ones. -/
theorem follows_run {config config' : Config} (p : Program) (hentry : config'.entry = config.entry)
    (hdepth : config.maxCallDepth ≤ config'.maxCallDepth)
    (hheap : config.heapLimit ≤ config'.heapLimit) (fuel : Nat) :
    Follows config.heapLimit config'.heapLimit (Context.run ⟨p, config⟩ fuel)
      (Context.run ⟨p, config'⟩ fuel) := by
  have hp := p.alike_self
  have hd : (Context.env ⟨p, config⟩ fuel).declarations =
      (Context.env ⟨p, config'⟩ fuel).declarations := rfl
  have hsim : RunSimulation .equal (fun id => (p.declarations[id]?).map Declaration.isGlobal)
      config.maxCallDepth config'.maxCallDepth (Follows config.heapLimit config'.heapLimit)
      (Follows config.heapLimit config'.heapLimit) := runSimulation_follows hheap hdepth _
  exact hsim.run hentry hp fuel (hsim.declareGlobals hd (hsim.call hp fuel) hp.globals)

end Eval

/-! ### Runs under higher limits -/

/-- A run that ends with a value, or with an error other than those by which a limit may turn
something down, ends in the same way if the limits are raised: with the same value or error, and on
the same machine but for the limit of its heap.  So what it has printed and what is left of its
input, its memory and its globals are the same, too. -/
theorem limits_unobservable (p : Program) {config config' : Config}
    (hentry : config'.entry = config.entry) (hdepth : config.maxCallDepth ≤ config'.maxCallDepth)
    (hheap : config.heapLimit ≤ config'.heapLimit) (input : Input) (output : Output)
    (journal : Option (List Event)) (fuel : Nat) :
    let s := Session.start p config input output journal
    let s' := Session.start p config' input output journal
    (∀ v m, s.run fuel = .done v m →
      s'.run fuel = .done v (m.withHeapLimit config'.heapLimit)) ∧
    ∀ e m, s.run fuel = .failed e m → ¬e.OfLimit →
      s'.run fuel = .failed e (m.withHeapLimit config'.heapLimit) := by
  intro s s'
  have hrun : (s.run fuel).Follows config.heapLimit config'.heapLimit (s'.run fuel) :=
    Eval.follows_run p hentry hdepth hheap fuel s.machine
  generalize s.run fuel = o, s'.run fuel = o' at hrun
  constructor
  · intro v m h
    subst h
    cases hrun
    rfl
  · intro e m h he
    subst h
    cases hrun with
    | failed => rfl
    | refused _ _ hlimit => exact absurd hlimit he

/-- A program that calls itself, with an array in every call, and gives back the block that it makes
there. -/
def descent : Program :=
  .ofText <|
    "int f(int n) { char a[4]; FREE(MALLOC(4)); PRINT(n); if (n) f(n - 1); return n; } " ++
    "int main() { return f(1); }"

/-- A run of it under certain limits. -/
def descending (maxCallDepth heapLimit : Nat) : Outcome Value :=
  (Session.start descent { maxCallDepth, heapLimit } (.ofBytes []) .unlimited none).run 9

/-- Three calls and 12 bytes are just enough to descend from one; more changes nothing. -/
theorem limits_unobservable_descending :
    (descending 3 12).shown = some (.integer 1, "1\n0\n") ∧ (descending 3 11).shown = none ∧
      (descending 1000 16000).shown = some (.integer 1, "1\n0\n") := by
  have htight : (descending 3 12).shown = some (.integer 1, "1\n0\n") := by decide +kernel
  refine ⟨htight, by decide +kernel, ?_⟩
  obtain ⟨m, hrun, htext⟩ := Outcome.exists_of_shown htight
  have hroomy := (@limits_unobservable descent ⟨"main", 3, 12⟩ ⟨"main", 1000, 16000⟩ rfl (by decide)
    (by decide) _ _ _ 9).1 _ m hrun
  have hshown := congrArg Outcome.shown hroomy
  exact hshown.trans (congrArg (fun t => some (Value.integer 1, t)) htext)

end MiniC
