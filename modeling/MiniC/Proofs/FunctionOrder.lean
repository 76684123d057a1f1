import MiniC.Proofs.CallTypes
import MiniC.Proofs.Resolving
import MiniC.Session
import Mathlib.Data.List.Nodup
import Mathlib.Data.List.Perm.Basic

/-!
# The order of functions

A program may say its functions in any order, as far as no name is defined twice and no two
declarations of a name return different types.  The first of several declarations decides what type
a call has, and the last of several prototypes is what a name without definition calls; but then
the first returns what all of them do, and all prototypes of a name fail in the same way or stand
for the same built-in.

Main definitions:

* `MiniC.Program.withFunctions`: a program with other functions;
* `MiniC.Program.CallsAlike`: programs that differ in the prototypes that names call.

Main results:

* `MiniC.Scope.callType_eq_of_perm`: calls have the same types in another order of the functions;
* `MiniC.Program.rel_function?_of_perm`: what a name calls in another order of the functions;
* `MiniC.Session.run_withFunctions_of_perm`: programs in another order of their functions run in the
  same way.
-/

set_option autoImplicit false

namespace MiniC

/-! ### Consistent declarations -/

namespace Function

/-- No name is defined twice, and all declarations of a name return the same type. -/
structure Consistent (fs : List Function) : Prop where
  nodup : ((fs.filter isDefinition).map name).Nodup
  returnType_eq : ∀ f ∈ fs, ∀ g ∈ fs, f.name = g.name → f.returnType = g.returnType

instance (fs : List Function) : Decidable (Consistent fs) :=
  decidable_of_iff (((fs.filter isDefinition).map name).Nodup ∧
    ∀ f ∈ fs, ∀ g ∈ fs, f.name = g.name → f.returnType = g.returnType)
    ⟨fun h => ⟨h.1, h.2⟩, fun h => ⟨h.nodup, h.returnType_eq⟩⟩

theorem name_tag (f : Function) : f.tag.name = f.name := by
  unfold tag
  split <;> rfl

theorem returnType_tag (f : Function) : f.tag.returnType = f.returnType := by
  unfold tag
  split <;> rfl

/-- Tagging and resolving leave the name of a function. -/
theorem name_resolve_tag (s : Scope) (f : Function) : (f.tag.resolve s).name = f.name := f.name_tag

theorem isDefinition_resolve_tag (s : Scope) (f : Function) :
    (f.tag.resolve s).isDefinition = f.isDefinition := by
  show (f.tag.body.map _).isSome = f.body.isSome
  rw [Option.isSome_map]
  unfold tag
  split <;> rfl

/-- A resolved prototype stands for the built-in of its name, if there is one. -/
theorem intrinsic_resolve_tag (s : Scope) {f : Function} (h : f.isDefinition = false) :
    (f.tag.resolve s).intrinsic = Intrinsic.ofName? f.name := by
  show f.tag.intrinsic = _
  rw [tag, h]
  rfl

end Function

/-- A call has the same type whatever the order of the functions, if all declarations of a name
return the same. -/
theorem Scope.callType_eq_of_perm {s s' : Scope} (hperm : s.functions.Perm s'.functions)
    (htypes : ∀ f ∈ s.functions, ∀ g ∈ s.functions, f.name = g.name → f.returnType = g.returnType)
    (callee : String) : s.callType callee = s'.callType callee := by
  unfold callType
  cases hf : s.functions.find? fun f => f.name == callee with
  | none =>
    have hnone : s'.functions.find? (fun f => f.name == callee) = none :=
      List.find?_eq_none.2 fun g hg => List.find?_eq_none.1 hf g (hperm.mem_iff.2 hg)
    rw [hnone]
  | some f =>
    have hmem := List.mem_of_find?_eq_some hf
    have hname := List.find?_some hf
    cases hg : s'.functions.find? fun f => f.name == callee with
    | none => exact absurd hname (List.find?_eq_none.1 hg f (hperm.mem_iff.1 hmem))
    | some g =>
      have hname' := List.find?_some hg
      exact htypes f hmem g (hperm.mem_iff.2 (List.mem_of_find?_eq_some hg))
        ((beq_iff_eq.1 hname).trans (beq_iff_eq.1 hname').symm)

/-! ### Calls -/

/-- Two functions of which calls do the same: one function, or prototypes of one name that stand for
the same. -/
def Function.CalledAlike (f g : Function) : Prop :=
  f = g ∨ f.body = none ∧ g.body = none ∧ f.name = g.name ∧ f.intrinsic = g.intrinsic

namespace Function.CalledAlike

variable {f g : Function} (h : f.CalledAlike g)

include h

theorem intrinsic_eq : f.intrinsic = g.intrinsic := by
  obtain rfl | ⟨-, -, -, hintrinsic⟩ := h
  · rfl
  · exact hintrinsic

theorem callWithin_eq (limit : Nat) (exec : Stmt → Eval Unit) :
    callWithin limit exec f = callWithin limit exec g := by
  obtain rfl | ⟨hf, hg, hname, -⟩ := h
  · rfl
  · funext args loc
    rw [callWithin, callWithin, hf, hg, hname]

end Function.CalledAlike

/-- Two programs with the same declarations and globals, in which calls of a name do the same. -/
structure Program.CallsAlike (p p' : Program) : Prop where
  declarations_eq : p.declarations = p'.declarations
  globals_eq : p.globals = p'.globals
  function? : ∀ name, Option.Rel Function.CalledAlike (p.function? name) (p'.function? name)

namespace Program.CallsAlike

variable {p p' : Program} (h : p.CallsAlike p')

include h

/-- A call by name does the same in both programs. -/
theorem callNamed_eq (limit : Nat) (exec : Stmt → Eval Unit) :
    p.callNamed (callWithin limit exec) = p'.callNamed (callWithin limit exec) := by
  funext name args loc
  unfold callNamed
  generalize hf : p.function? name = o, hg : p'.function? name = o'
  have hrel : Option.Rel Function.CalledAlike o o' := hf ▸ hg ▸ h.function? name
  cases hrel with
  | none => rfl
  | some hfg =>
    dsimp only [Option.bind]
    rw [hfg.intrinsic_eq, hfg.callWithin_eq]

/-- So calls within a bound do the same, by induction on the bound. -/
theorem call_eq (config : Config) (fuel : Nat) :
    Context.call ⟨p, config⟩ fuel = Context.call ⟨p', config⟩ fuel := by
  induction fuel with
  | zero => rfl
  | succ fuel ih =>
    rw [Context.call_succ, Context.call_succ, callFunction, callFunction, Context.env, Context.env,
      ih, h.declarations_eq]
    exact h.callNamed_eq _ _

/-- So the programs run in the same way. -/
theorem run_eq (config : Config) (fuel : Nat) :
    Context.run ⟨p, config⟩ fuel = Context.run ⟨p', config⟩ fuel := by
  have henv : Context.env ⟨p, config⟩ fuel = Context.env ⟨p', config⟩ fuel := by
    rw [Context.env, Context.env, h.call_eq, h.declarations_eq]
  have hcall : callFunction ⟨p, config⟩ fuel = callFunction ⟨p', config⟩ fuel := by
    rw [callFunction, callFunction, henv]
  unfold Context.run
  rw [henv, hcall, h.globals_eq]
  generalize hf : p.function? config.entry = o, hg : p'.function? config.entry = o'
  have hrel : Option.Rel Function.CalledAlike o o' := hf ▸ hg ▸ h.function? config.entry
  cases hrel with
  | none => rfl
  | some hfg =>
    obtain rfl | ⟨hbody, hbody', -, -⟩ := hfg
    · rfl
    · -- A prototype is no function to start in.
      simp only [Function.isDefinition, hbody, hbody', Option.isSome_none, Bool.false_eq_true,
        if_false]

end Program.CallsAlike

/-! ### Functions in another order -/

namespace Program

/-- The program with other functions. -/
def withFunctions (p : Program) (fs : List Function) : Program := { p with functions := fs }

/-- What a name calls does the same in another order of the functions, if no name is defined twice
and prototypes stand for the built-in of their name. -/
theorem rel_function?_of_perm {p p' : Program} (hperm : p.functions.Perm p'.functions)
    (hnodup : ((p.functions.filter Function.isDefinition).map Function.name).Nodup)
    (hintrinsic : ∀ f ∈ p.functions, f.isDefinition = false →
      f.intrinsic = Intrinsic.ofName? f.name) (name : String) :
    Option.Rel Function.CalledAlike (p.function? name) (p'.function? name) := by
  cases hf : p.function? name with
  | none =>
    have hnone : p'.function? name = none :=
      (p'.function?_eq_none_iff name).2 fun g hg =>
        (p.function?_eq_none_iff name).1 hf g (hperm.mem_iff.2 hg)
    rw [hnone]
    exact .none
  | some f =>
    have hmem := mem_of_function? hf
    have hname := name_of_function? hf
    cases hg : p'.function? name with
    | none =>
      exact absurd hname ((p'.function?_eq_none_iff name).1 hg f (hperm.mem_iff.1 hmem))
    | some g =>
      have hmem' := hperm.mem_iff.2 (mem_of_function? hg)
      have hsame : f.name = g.name := hname.trans (name_of_function? hg).symm
      refine .some ?_
      cases hdef : f.isDefinition with
      | true =>
        -- The definition of the name is found in both orders.
        have hdef' : g.isDefinition = true := by
          rcases isDefinition_or_of_function? hg with hdef' | hnone
          · exact hdef'
          · rw [hnone f (hperm.mem_iff.1 hmem) hname] at hdef
            cases hdef
        exact .inl (List.inj_on_of_nodup_map hnodup (List.mem_filter.2 ⟨hmem, hdef⟩)
          (List.mem_filter.2 ⟨hmem', hdef'⟩) hsame)
      | false =>
        have hdef' : g.isDefinition = false := by
          rcases isDefinition_or_of_function? hf with htrue | hnone
          · rw [hdef] at htrue
            cases htrue
          · exact hnone g hmem' (hsame.symm.trans hname)
        refine .inr ⟨Option.not_isSome_iff_eq_none.1 (Bool.eq_false_iff.1 hdef),
          Option.not_isSome_iff_eq_none.1 (Bool.eq_false_iff.1 hdef'), hsame, ?_⟩
        rw [hintrinsic f hmem hdef, hintrinsic g hmem' hdef', hsame]

/-- The scope in which the functions of a program are resolved. -/
def functionScope (p : Program) : Scope :=
  (resolveGlobals ⟨p.declarations, p.functions.map Function.tag, [], []⟩ p.globals).2

theorem functions_resolve (p : Program) :
    p.resolve.functions = p.functions.map fun f => f.tag.resolve p.functionScope := by
  show (p.functions.map Function.tag).map (Function.resolve p.functionScope) = _
  rw [List.map_map]
  rfl

/-- A program whose functions are put in another order before its names are resolved calls alike. -/
theorem callsAlike_of_perm {p : Program} {fs : List Function} (hperm : p.functions.Perm fs)
    (hp : Function.Consistent p.functions) :
    p.resolve.CallsAlike (p.withFunctions fs).resolve := by
  have hscopes : Scope.Agrees ⟨p.declarations, p.functions.map Function.tag, [], []⟩
      ⟨p.declarations, fs.map Function.tag, [], []⟩ := by
    refine ⟨fun _ => rfl, Scope.callType_eq_of_perm (hperm.map Function.tag) ?_, rfl, rfl⟩
    intro f' hf' g' hg' hname
    obtain ⟨f, hf, rfl⟩ := List.mem_map.1 hf'
    obtain ⟨g, hg, rfl⟩ := List.mem_map.1 hg'
    rw [f.name_tag, g.name_tag] at hname
    rw [f.returnType_tag, g.returnType_tag]
    exact hp.returnType_eq f hf g hg hname
  obtain ⟨hglobals, hscope⟩ := resolveGlobals_of_agrees hscopes p.globals
  refine ⟨rfl, hglobals, rel_function?_of_perm ?_ ?_ ?_⟩
  · rw [functions_resolve, functions_resolve]
    have hsame : (fun f : Function => f.tag.resolve (p.withFunctions fs).functionScope) =
        fun f => f.tag.resolve p.functionScope :=
      funext fun f => (f.tag.resolve_of_agrees hscope).symm
    rw [hsame]
    exact hperm.map _
  · have hdefinitions : Function.isDefinition ∘ (fun f => f.tag.resolve p.functionScope) =
        Function.isDefinition := funext (Function.isDefinition_resolve_tag _)
    have hnames : Function.name ∘ (fun f => f.tag.resolve p.functionScope) = Function.name :=
      funext (Function.name_resolve_tag _)
    rw [functions_resolve, List.filter_map, List.map_map, hdefinitions, hnames]
    exact hp.nodup
  · rw [functions_resolve]
    intro f' hf' hdef
    obtain ⟨f, -, rfl⟩ := List.mem_map.1 hf'
    rw [f.isDefinition_resolve_tag] at hdef
    rw [Function.intrinsic_resolve_tag _ hdef, f.name_resolve_tag]

end Program

/-! ### Sessions -/

namespace Session

/-- Where two programs run in the same way, they do so any number of times. -/
theorem After.of_run_eq {s s' t : Session} (h : s.After t) (hmachine : s'.machine = s.machine)
    (hrun : ∀ fuel, s'.context.run fuel = s.context.run fuel) :
    s'.After (s'.withMachine t.machine) := by
  induction h with
  | start =>
    rw [← hmachine]
    exact .start
  | @run t fuel m ht hm ih =>
    have hm' : ((s'.withMachine t.machine).run fuel).machine? = some m := by
      show ((s'.context.run fuel).run t.machine).machine? = some m
      rw [hrun, ← ht.context_eq]
      exact hm
    exact ih.run hm'

/-- A program in which no name is defined twice, and all declarations of a name return the same
type, runs in the same way if its functions are put in another order before its names are
resolved.  This holds for the first run and for those behind it: they leave the same machines, the
same globals, and the next run ends in the same way, with the same machine. -/
theorem run_withFunctions_of_perm {p : Program} {fs : List Function} (hperm : p.functions.Perm fs)
    (hp : Function.Consistent p.functions) (config : Config) (input : Input) (output : Output)
    (journal : Option (List Event)) {t : Session}
    (ht : (start p.resolve config input output journal).After t) :
    let s' := start (p.withFunctions fs).resolve config input output journal
    let t' := s'.withMachine t.machine
    s'.After t' ∧ t'.globals = t.globals ∧ ∀ fuel, t'.run fuel = t.run fuel := by
  have hsame := Program.callsAlike_of_perm hperm hp
  intro s' t'
  have hrun : ∀ fuel, s'.context.run fuel = Context.run ⟨p.resolve, config⟩ fuel :=
    fun fuel => (hsame.run_eq config fuel).symm
  refine ⟨ht.of_run_eq rfl hrun, ?_, fun fuel => ?_⟩
  · rw [globals, globals, ht.context_eq]
    show (p.withFunctions fs).resolve.globals.map _ = p.resolve.globals.map _
    rw [← hsame.globals_eq]
    rfl
  · rw [run, run, ht.context_eq]
    exact congrArg (fun x : Eval Value => x.run t.machine) (hrun fuel)

/-- A program whose functions call each other. -/
def evenOdd : String :=
  "int odd(int n); int even(int n) { if (n == 0) return 1; return odd(n - 1); }
   int odd(int n) { if (n == 0) return 0; return even(n - 1); }
   int main() { PRINT(even(5)); return odd(5); }"

/-- It runs in the same way from its last function to its first. -/
theorem run_withFunctions_of_perm_evenOdd :
    ∃ p, (Program.read evenOdd).result = .ok p ∧ Function.Consistent p.functions ∧
      p.functions.Perm p.functions.reverse ∧
      ((start (p.withFunctions p.functions.reverse).resolve {} (.ofBytes []) .unlimited none).run
        20).shown = some (.integer 1, "0\n") := by
  have hshown : ((Program.read evenOdd).result.toOption.map fun p =>
      (decide (Function.Consistent p.functions),
        ((start p.resolve {} (.ofBytes []) .unlimited none).run 20).shown)) =
      some (true, some (.integer 1, "0\n")) := by
    decide +kernel
  obtain ⟨p, hp, hall⟩ := Option.map_eq_some_iff.1 hshown
  obtain ⟨hconsistent, hrun⟩ := Prod.mk.inj hall
  have hperm := (List.reverse_perm p.functions).symm
  obtain ⟨-, -, hsame⟩ := run_withFunctions_of_perm hperm (of_decide_eq_true hconsistent) {}
    (.ofBytes []) .unlimited none .start
  exact ⟨p, Program.eq_ok_of_toOption hp, of_decide_eq_true hconsistent, hperm,
    (congrArg Outcome.shown (hsame 20)).trans hrun⟩

end Session

end MiniC
