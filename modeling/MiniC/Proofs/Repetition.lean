import MiniC.Proofs.Replay

/-!
# Runs are repeatable

A session keeps what its runs have made: the storage of their global arrays, the blocks that were
not given back, the values of their globals, the number of the next region.  **None of this gets in
the way of a run that does not need it**: what a fresh session does, any session of the program
does, too, as often as the same input is supplied, and what is left over from one run to the next
fits into memory beside the run.

Two things are left over that a run may come across.  Global arrays stay in memory beyond the run
that has declared them, and the next one declares them once more, so they have to fit beside each
other.  And a global that is read in front of its declaration has the value that the run before has
left in it, where a fresh session fails.

Main definitions:

* `MiniC.Session.Repeats`: runs of a session that do the same.

Main results:

* `MiniC.Session.embeds_start`: a fresh session embeds in every one that runs have left;
* `MiniC.runs_repeatable`: what a fresh session does, runs do again;
* `MiniC.second_run_starved`: the storage of a global array stays, and leaves no room for the next.
-/

set_option autoImplicit false

namespace MiniC

/-! ### The limit of a heap stays -/

theorem Heap.limit_foldl_drop (h : Heap) (ids : List RegionId) :
    (ids.foldl drop h).limit = h.limit := by
  induction ids generalizing h with
  | nil => rfl
  | cons i ids ih => rw [List.foldl_cons, ih, limit_drop]

/-- No operation changes the limit of the heap. -/
theorem Machine.invariant_heapLimit (declares : Variable → Prop) (scope : Nat → Option Bool)
    (limit : Nat) : Machine.Invariant declares scope fun m => m.heap.limit = limit where
  note _ h := by rwa [heap_note]
  got _ h := by rwa [heap_note]
  missed _ h := by rwa [heap_note]
  printed _ h := by rwa [heap_note]
  unprinted _ h := h
  writePlace h hw := by
    obtain ⟨id, -, rfl⟩ | ⟨id, -, rfl⟩ | ⟨p, heap, -, hheap, rfl⟩ := eq_of_writePlace hw
    · exact h
    · exact h
    · exact (Heap.eq_of_write hheap).2.2.trans h
  remember _ _ h := h
  clearCache h := h
  setReturned _ h := h
  bindVariable _ _ _ h := by
    unfold bindVariable
    rw [heap_note]
    split <;> exact h
  allocate h ha := by
    obtain ⟨heap, hheap, rfl⟩ := eq_of_allocate ha
    rw [heap_note]
    exact (Heap.eq_of_allocate hheap).2.2.2.2.trans h
  release h hr := by
    obtain ⟨size, heap, hheap, rfl⟩ := eq_of_release hr
    obtain ⟨-, rfl⟩ := Heap.kind?_of_release hheap
    rw [heap_note]
    exact (Heap.limit_drop _ _).trans h
  storeArray _ _ h hs := by
    obtain ⟨heap, hheap, rfl⟩ := eq_of_storeArray hs
    have hheld : heap.limit = limit := (Heap.eq_of_allocate hheap).2.2.2.2.trans h
    split
    · rw [heap_note]
      exact hheld
    · exact (congrArg Heap.limit (heap_note _ _)).trans hheld
  dropOldArray {m} id h := by
    obtain hsame | ⟨p, ids, -, -, hdropped⟩ := m.dropOldArray_eq id
    · rwa [hsame]
    · rw [hdropped]
      exact (Heap.limit_drop _ _).trans h
  enterFrame _ _ h := h
  leaveFrame {m} h := by
    obtain ⟨heap, ⟨f, gs, depth, hdepth⟩, globals, input, output, journal⟩ := m
    cases gs with
    | nil => exact h
    | cons g gs => exact (Heap.limit_foldl_drop _ _).trans h

namespace Session

variable {p : Program} {config : Config} {input : Input} {output : Output}
  {journal : Option (List Event)} {s : Session}

theorem After.heapLimit_eq (hs : (Session.start p config input output journal).After s) :
    s.machine.heap.limit = config.heapLimit :=
  hs.invariant (Machine.invariant_heapLimit (fun _ => True) p.isGlobal? config.heapLimit)
    (fun _ _ => trivial) (fun _ _ _ _ => trivial) rfl

/-- A fresh session embeds in every session that runs have left, if its limit is lower by the bytes
that these runs still hold. -/
theorem embeds_start (hp : p.WellFormed) (hs : (start p config input output journal).After s)
    (hword : config.heapLimit < UInt64.size) {limit : Nat}
    (hlimit : limit + s.machine.heap.allocated ≤ config.heapLimit) (input₀ : Input)
    (output₀ : Output) (journal₀ : Option (List Event)) :
    (start p { config with heapLimit := limit } input₀ output₀ journal₀).machine.Embeds
      s.machine.heap.next s.machine.heap.held s.machine := by
  obtain ⟨hcallers, hkeeps⟩ := hs.root hp
  refine ⟨⟨fun {id r} hid => ?_, fun {id} hid => ?_, ?_, ?_, ?_, ?_⟩,
    ⟨?_, fun id => ?_, ?_, ?_⟩, ?_, fun id v hv => ?_⟩
  · simp [start, Heap.empty] at hid
  · cases hid
  · show s.machine.heap.next = 0 + s.machine.heap.next
    rw [UInt32.zero_add]
  · show s.machine.heap.held = 0 + s.machine.heap.held
    rw [UInt64.zero_add]
  · rw [hs.heapLimit_eq]
    exact hlimit
  · rw [hs.heapLimit_eq]
    exact hword
  · exact hkeeps.function_eq
  · have hnone : s.machine.stack.current.bindings.entries = [] :=
      List.map_eq_nil_iff.1 hkeeps.ids_eq
    show s.machine.stack.current.bindings.lookup? id = none
    rw [Bindings.lookup?, hnone]
    rfl
  · exact hkeeps.returned_eq
  · exact hkeeps.owned_eq
  · rw [hcallers]
    exact .nil
  · cases hv

theorem next_of_done {fuel : Nat} {v : Value} {m : Machine} (h : s.run fuel = .done v m) :
    s.next fuel = s.withMachine m := by
  unfold Session.next
  rw [h]
  rfl

/-! ### Runs that do the same -/

/-- `k` runs one after the other, within the same bound.  Each of them reads the integers `ns`,
prints the text `t` and yields the value `v` with its region counted from the one that the run makes
first. -/
inductive Repeats (fuel : Nat) (v : Value) (ns : List Int64) (t : String) :
    Nat → Session → Session → Prop
  | none (s : Session) : Repeats fuel v ns t 0 s s
  | next {k : Nat} {s s' : Session} {m : Machine} :
      s.run fuel = .done (rename (shift s.machine.heap.next) v) m →
      s.machine.Proceeds ns t m → Repeats fuel v ns t k (s.withMachine m) s' →
      Repeats fuel v ns t (k + 1) s s'

/-- A session that offers what a fresh one has read and printed, and has room beside what it holds,
does what the fresh one has done; what it holds then grows by no more than the fresh one holds. -/
theorem run_again (hp : p.WellFormed) (hs : (start p config input output journal).After s)
    (hword : config.heapLimit < UInt64.size) {limit : Nat}
    (hlimit : limit + s.machine.heap.allocated ≤ config.heapLimit) {input₀ : Input}
    {output₀ : Output} {journal₀ : Option (List Event)} {fuel : Nat} {v : Value} {m : Machine}
    (hrun : (start p { config with heapLimit := limit } input₀ output₀ journal₀).run fuel =
      .done v m) :
    ∃ ns t,
      (start p { config with heapLimit := limit } input₀ output₀ journal₀).machine.Proceeds ns t m ∧
      (s.machine.Offers ns t → ∃ m',
        s.run fuel = .done (rename (shift s.machine.heap.next) v) m' ∧
        s.machine.Proceeds ns t m' ∧
        m'.heap.allocated ≤ m.heap.allocated + s.machine.heap.allocated) := by
  have hembeds := embeds_start hp hs hword hlimit input₀ output₀ journal₀
  have hreplays : Eval.Replays s.machine.heap.next s.machine.heap.held
      (Context.run ⟨p, { config with heapLimit := limit }⟩ fuel)
      (Context.run ⟨p, config⟩ fuel) := Eval.replays_run _ config _ _ fuel rfl rfl
  obtain ⟨ns, t, hproceeds, hreplay⟩ := hreplays _ v m trivial hrun
  refine ⟨ns, t, hproceeds, fun hoffers => ?_⟩
  obtain ⟨m', hrun', hproceeds', hleft⟩ := hreplay _ hembeds hoffers
  refine ⟨m', ?_, hproceeds', ?_⟩
  · unfold run
    rw [hs.context_eq]
    exact hrun'
  · unfold Heap.allocated
    rw [hleft.heap.held_eq, UInt64.toNat_add]
    exact Nat.mod_le _ _

end Session

/-- Runs are repeatable.  A fresh session of a parsed program yields the value `v`, within some
limit on its memory.  Then it has read some integers `ns` and printed some text `t`; and every
session that any runs of the program have left, successful or not, does the same any number of times
in a row.  Each run yields `v` up to the number of its region, and prints `t`, as long as `ns` is
supplied for it, there is room for `t` in the output, and there is memory: the fresh session's
limit, the bytes that the runs before have left, and those that each of the new runs leaves to the
next one fit within the limit together.  What a run leaves are blocks that it has not given back and
the storage of its global arrays. -/
theorem runs_repeatable {p : Program} (hp : p.Parsed) (config : Config)
    (hword : config.heapLimit < UInt64.size) {limit : Nat} {input₀ : Input} {output₀ : Output}
    {journal₀ : Option (List Event)} {fuel : Nat} {v : Value} {m : Machine}
    (hrun : (Session.start p { config with heapLimit := limit } input₀ output₀ journal₀).run fuel =
      .done v m) :
    ∃ ns t,
      input₀.Reads ns m.input ∧ m.output = output₀.add t ∧
      ∀ input output journal s, (Session.start p config input output journal).After s →
        ∀ k, limit + s.machine.heap.allocated + k * m.heap.allocated ≤ config.heapLimit →
          s.machine.Offers (List.replicate (k + 1) ns).flatten
            (String.join (List.replicate (k + 1) t)) →
          ∃ s', s.Repeats fuel v ns t (k + 1) s' := by
  let fresh := Session.start p { config with heapLimit := limit } input₀ output₀ journal₀
  obtain ⟨ns, t, hproceeds, -⟩ :=
    Eval.replays_run fresh.context fresh.context.config 0 0 fuel rfl rfl fresh.machine v m trivial
      hrun
  refine ⟨ns, t, hproceeds.reads, hproceeds.output_eq, fun input output journal s hs k => ?_⟩
  induction k generalizing s with
  | zero =>
    intro hlimit hoffers
    rw [Nat.zero_mul, Nat.add_zero] at hlimit
    obtain ⟨ns', t', hproceeds', hagain⟩ := s.run_again hp.wellFormed hs hword hlimit hrun
    obtain ⟨rfl, rfl⟩ := hproceeds.unique hproceeds'
    have honce : s.machine.Offers ns t := by simpa using hoffers
    obtain ⟨m', hrun', hsame, -⟩ := hagain honce
    exact ⟨_, .next hrun' hsame (.none _)⟩
  | succ k ih =>
    intro hlimit hoffers
    rw [Nat.succ_mul] at hlimit
    obtain ⟨ns', t', hproceeds', hagain⟩ :=
      s.run_again hp.wellFormed hs hword (by omega) hrun
    obtain ⟨rfl, rfl⟩ := hproceeds.unique hproceeds'
    rw [List.replicate_succ (a := ns), List.flatten_cons, List.replicate_succ (a := t),
      String.join_cons] at hoffers
    obtain ⟨m', hrun', hsame, hheld⟩ := hagain hoffers.front
    -- The next run begins on what this one has left, with that much less room.
    have hafter : (Session.start p config input output journal).After (s.withMachine m') :=
      hs.run (by rw [hrun']; rfl)
    have hnext : limit + m'.heap.allocated + k * m.heap.allocated ≤ config.heapLimit := by omega
    obtain ⟨s', hs'⟩ := ih (s.withMachine m') hafter hnext (hoffers.behind hsame)
    exact ⟨s', .next hrun' hsame hs'⟩

/-- A program with a global array of 8 bytes, which makes a block of 2 bytes and gives it back,
prints the sum of two integers, and returns a pointer to the second element of its array. -/
def summing : Program :=
  .ofText "int g[2]; int *main() { FREE(MALLOC(2)); PRINT(GET() + GET()); return g + 1; }"

/-- A session of it with a limit on its memory and some input. -/
def summingSession (heapLimit : Nat) (input : String) : Session :=
  .start summing { heapLimit } (.ofBytes input.toUTF8.toList) .unlimited none

/-- The program needs 10 bytes and leaves 8, so 18 bytes are just enough for two runs. -/
theorem runs_repeatable_summing :
    (∃ s', (summingSession 18 "3 4 3 4").Repeats 9 (.pointer ⟨0, 4⟩) [3, 4] "7\n" 2 s') ∧
      ((summingSession 9 "3 4").run 9).shown = none := by
  refine ⟨?_, by decide +kernel⟩
  let fresh := summingSession 10 "3 4"
  have hshown : (fresh.run 9).shown = some (.pointer ⟨0, 4⟩, "7\n") := by decide +kernel
  obtain ⟨m, hrun, htext⟩ := Outcome.exists_of_shown hshown
  have hm : (fresh.next 9).machine = m := by
    rw [Session.next_of_done hrun]
    rfl
  have hinput : (fresh.next 9).machine.input = ⟨[], [], .exhausted⟩ := by decide +kernel
  have hheld : (fresh.next 9).machine.heap.allocated = 8 := by decide +kernel
  rw [hm] at hinput hheld
  obtain ⟨ns, t, hreads, houtput, hrepeat⟩ := runs_repeatable (Program.parsed_ofText _)
    { heapLimit := 18 } (by decide) hrun
  -- The run has read both integers and printed their sum.
  have hfirst : (Input.ofBytes "3 4".toUTF8.toList).next = (.ok 3, ⟨[['4']], [], .exhausted⟩) := by
    decide +kernel
  have hboth : (Input.ofBytes "3 4".toUTF8.toList).Reads [3, 4] m.input := by
    rw [hinput]
    exact .cons hfirst (.cons rfl (.nil _))
  obtain rfl := hreads.unique hboth
  have hprinted : m.output.text = t := by
    rw [houtput]
    exact String.empty_append
  obtain rfl : t = "7\n" := hprinted.symm.trans htext
  have hstart : (Input.ofBytes "3 4 3 4".toUTF8.toList).next =
      (.ok 3, ⟨[['4'], ['3'], ['4']], [], .exhausted⟩) := by decide +kernel
  refine hrepeat _ _ _ (summingSession 18 "3 4 3 4") .start 1 ?_ ⟨?_, fun _ h => ?_, rfl⟩
  · rw [hheld]
    decide
  · exact ⟨_, .cons hstart (.cons rfl (.cons rfl (.cons rfl (.nil _))))⟩
  · cases h

/-- A session with memory for one array, which its program declares as a global. -/
def crowded : Session :=
  .start (.ofText "int a[1]; int main() { return 0; }") { heapLimit := 4 } (.ofBytes []) .unlimited
    none

/-- Its first run yields a value and leaves no block; the second one finds no memory for the array,
as the storage of the first one's array is still there. -/
theorem second_run_starved :
    ∃ m, crowded.run 9 = .done (.integer 0) m ∧ m.heap.blocks = [] ∧
      ∃ e m', (crowded.withMachine m).run 9 = .failed e m' ∧ e.kind = .invalidAllocation := by
  have hshown : (crowded.run 9).shown = some (.integer 0, "") := by decide +kernel
  obtain ⟨m, hrun, -⟩ := Outcome.exists_of_shown hshown
  have hnext : crowded.next 9 = crowded.withMachine m := Session.next_of_done hrun
  have hblocks : (crowded.next 9).machine.heap.blocks = [] := by decide +kernel
  have hkind : ((crowded.next 9).run 9).error?.map RuntimeError.kind =
      some Fault.Kind.invalidAllocation := by decide +kernel
  rw [hnext] at hblocks hkind
  obtain ⟨e, he, hkind⟩ := Option.map_eq_some_iff.1 hkind
  obtain ⟨m', hfailed⟩ := Outcome.exists_of_error? he
  exact ⟨m, hrun, hblocks, e, m', hfailed, hkind⟩

/-- A session of a program that reads the global `x` in front of its declaration, if it is told to
by its input. -/
def premature : Session :=
  .start (.ofText "int f() { if (GET()) return x; return 0; } int y = f(); int x = GET();
    int main() { return y; }") {} (.ofBytes "0 5 1 6 1 6".toUTF8.toList) .unlimited none

/-- A fresh session fails there.  Behind another run it finds what that has left: the second and the
third run read the same and yield different values. -/
example : ((premature.run 9).shown, ((premature.next 9).run 9).shown,
    (((premature.next 9).next 9).run 9).shown) =
      (some (.integer 0, ""), some (.integer 5, ""), some (.integer 6, "")) := by decide +kernel

end MiniC
