import MiniC.Proofs.Agreement
import MiniC.Proofs.Parsed
import MiniC.Proofs.WrittenOut
import MiniC.Session

/-!
# Subscripts and sums

A subscript `a[i]` names the place that `*(a + i)` names, but it is typed by a rule of its own,
which looks at `a` only.  So `i[a]`, with the pointer in the brackets, has the type `int` whatever
`a` points to, where `*(i + a)` has the type of what `a` points to; and the type decides what an
assignment stores, and by how much sums with the value move.

These are the only subscripts that differ from their sums: a program runs as it does with other
subscripts written out.

Main definitions:

* `MiniC.Blur.remembered`: forgetting the remembered values;
* `MiniC.Session.ShowsLike`: two sessions show the same.

Main results:

* `MiniC.Ty.pointee?_getD_eq_iff`: when the types of a subscript and its sum are the same;
* `MiniC.subscript_agrees`: then the runs show the same.
-/

set_option autoImplicit false

namespace MiniC

/-! ### Runs -/

/-- Forgetting the remembered values. -/
def Blur.remembered : Blur := ⟨true, false, false⟩

/-- Two sessions show the same: what was printed, the memory, and the values of the globals. -/
structure Session.ShowsLike (s s' : Session) : Prop where
  output_eq : s.machine.output = s'.machine.output
  heap_eq : s.machine.heap = s'.machine.heap
  globals_eq : s.globals = s'.globals

/-- Machines that are the same but for remembered values show the same, if the globals are alike. -/
theorem Program.Alike.showsLike {L : Likeness} {p p' : Program} (h : p.Alike L p') {b : Blur}
    {m m' : Machine} (hm : b.Same m m') (config : Config) :
    Session.ShowsLike ⟨⟨p, config⟩, m⟩ ⟨⟨p', config⟩, m'⟩ where
  output_eq := hm.output_eq
  heap_eq := hm.heap_eq
  globals_eq := by
    have hmap : ∀ {vs vs' : List Variable}, List.Forall₂ (Variable.Alike L) vs vs' →
        (vs.map fun v => (v.name, m.globals.lookup? v.id)) =
          vs'.map fun v => (v.name, m'.globals.lookup? v.id) := by
      intro vs vs' hvs
      induction hvs with
      | nil => rfl
      | cons hv _ ih => rw [List.map_cons, List.map_cons, ih, hv.name_eq, hv.id_eq, hm.globals_eq]
    exact hmap h.globals

/-- Runs of resolved programs that are alike agree. -/
theorem Program.Alike.agree_run {w : Nat → Prop} {p p' : Program}
    (h : p.Alike (.writing w) p') (config : Config) (fuel : Nat) :
    Eval.Agree Blur.remembered (Context.run ⟨p, config⟩ fuel) (Context.run ⟨p', config⟩ fuel) := by
  have hrun : RunSimulation (.writing w) (fun id => (p.declarations[id]?).map Declaration.isGlobal)
      config.maxCallDepth config.maxCallDepth (Eval.Agree Blur.remembered)
      (Eval.Agree Blur.remembered) :=
    Eval.runSimulation_agree rfl (fun _ _ _ => .inl rfl) (fun _ _ => rfl) _ _
  have hd : (Context.env ⟨p, config⟩ fuel).declarations =
      (Context.env ⟨p', config⟩ fuel).declarations := h.declarations_eq
  exact hrun.run rfl h fuel (hrun.declareGlobals hd (hrun.call h fuel) h.globals)

/-! ### Types of subscripts -/

/-- What a subscript and its sum refer to is the same if the pointer stands in front of the
brackets.  If it does not, then what the first operand refers to, `int` if that is nothing, has to
be what the second one refers to, if that is a pointer, and else `int`. -/
theorem Ty.pointee?_getD_eq_iff (t u : Ty) :
    t.pointee?.getD .int = UnaryOp.deref.resultType (BinaryOp.add.resultType t u) ↔
      t.isPointer = true ∨
        t.pointee?.getD .int = if u.isPointer then u.pointee?.getD .int else .int := by
  unfold UnaryOp.resultType BinaryOp.resultType
  dsimp only
  -- The sum is typed by its first operand if that is a pointer, else by its second one.
  cases ht : t.isPointer with
  | true => simp
  | false =>
    have hint : Ty.int.pointee?.getD .int = .int := rfl
    cases u.isPointer with
    | true => simp
    | false => simp [hint]

/-! ### Runs of written programs -/

/-- A subscript is its sum where it has the type of that.  It has that type exactly if the pointer
stands in front of the brackets, or if what the base refers to, `int` if that is nothing, is what
the index refers to, if that is a pointer, and else `int`: so `i[a]` has it if `a` points to `int`,
and no other pointer may stand in the brackets.  If all subscripts of a program that are written out
have the types of their sums, then the resolved programs yield the same or fail with the same error,
whatever the limits and the input are, and show the same. -/
theorem subscript_agrees {p p' : Program} {w : Nat → Prop} (hp : p.Alike (.writing w) p') :
    (∀ (n : Node) (b i : Expr), (Expr.subscript n b i).KeepsType ↔
      b.typeOrInt.isPointer = true ∨ b.typeOrInt.pointee?.getD .int =
        if i.typeOrInt.isPointer then i.typeOrInt.pointee?.getD .int else .int) ∧
    (KeepTypes w p.resolve.exprs →
      ∀ (config : Config) (input : Input) (output : Output) (journal : Option (List Event))
        (fuel : Nat),
      let s := Session.start p.resolve config input output journal
      let s' := Session.start p'.resolve config input output journal
      Outcome.Alike
        (fun v m v' m' => v = v' ∧ (s.withMachine m).ShowsLike (s'.withMachine m'))
        (fun m m' => (s.withMachine m).ShowsLike (s'.withMachine m'))
        (s.run fuel) (s'.run fuel)) := by
  refine ⟨fun n b i => Ty.pointee?_getD_eq_iff b.typeOrInt i.typeOrInt, ?_⟩
  intro hk config input output journal fuel s s'
  have hresolved := hp.resolve (Likeness.resolves_writing w) hk
  have hrun := hresolved.agree_run config fuel s.machine s'.machine rfl
  refine hrun.mono (fun v m v' m' _ h => ?_) fun m m' h => hresolved.showsLike h config
  exact ⟨h.1, hresolved.showsLike h.2 config⟩

/-- A program that stores to a `char` through a subscript with the pointer in the brackets, and
reads it through one with the pointer in front. -/
def reversedSubscript : Program :=
  .readOrEmpty "int main() { char c[1]; 0[c] = 300; PRINT(c[0]); return 0; }"

/-- A session of a program whose names are resolved first, without input and without limits of its
own. -/
def Program.resolvedSession (p : Program) : Session :=
  .start p.resolve {} (.ofBytes []) .unlimited none

/-- What the first run of that session prints. -/
def Program.resolvedOutput (p : Program) : Option String :=
  (p.resolvedSession.run 9).machine?.map (·.output.text)

/-- To write out the subscript with the pointer in front changes nothing. -/
theorem subscript_agrees_reversed :
    KeepTypes (fun id => (id == 8) = true) reversedSubscript.resolve.exprs ∧
      reversedSubscript.resolvedOutput = some "300\n" ∧
      (reversedSubscript.writeOut (· == 8)).resolvedOutput = some "300\n" := by
  let s := reversedSubscript.resolvedSession
  let s' := (reversedSubscript.writeOut (· == 8)).resolvedSession
  have hkeeps : KeepTypes (fun id => (id == 8) = true) reversedSubscript.resolve.exprs := by
    decide +kernel
  have hprinted : reversedSubscript.resolvedOutput = some "300\n" := by decide +kernel
  have halike : Outcome.Alike
      (fun v m v' m' => v = v' ∧ (s.withMachine m).ShowsLike (s'.withMachine m'))
      (fun m m' => (s.withMachine m).ShowsLike (s'.withMachine m')) (s.run 9) (s'.run 9) :=
    (subscript_agrees (reversedSubscript.alike_writeOut (· == 8))).2 hkeeps {} (.ofBytes [])
      .unlimited none 9
  refine ⟨hkeeps, hprinted, ?_⟩
  change (s.run 9).machine?.map (·.output.text) = _ at hprinted
  change (s'.run 9).machine?.map (·.output.text) = _
  generalize s.run 9 = o, s'.run 9 = o' at halike hprinted ⊢
  cases halike with
  | done h => exact (congrArg (some ∘ Output.text) h.2.output_eq).symm.trans hprinted
  | failed e h => exact (congrArg (some ∘ Output.text) h.output_eq).symm.trans hprinted
  | outOfFuel => exact hprinted

/-- To write out the one with the pointer in the brackets makes the store keep a byte only. -/
theorem reversed_differs :
    reversedSubscript.resolvedOutput = some "300\n" ∧
      (reversedSubscript.writeOut (· == 2)).resolvedOutput = some "44\n" := by
  decide +kernel

end MiniC
