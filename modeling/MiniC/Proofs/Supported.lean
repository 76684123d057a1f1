import MiniC.Proofs.Discipline

/-!
# What a run refuses

Some constructs have a syntax and no meaning.  A run that comes to one of them fails with an error
of a class of its own.  It does so only for what the program contains: nothing in a program without
these constructs is refused.  Two reasons that evaluation has to refuse something are about the
evaluator only: that it combines two values with an operator of assignment, and that it looks for
the address of an expression that names no place in memory.  No construct of a program leads there.

Main definitions:

* `MiniC.Program.unsupported`: the constructs of a program that cannot be run;
* `MiniC.Program.IsSupported`: a program without them;
* `MiniC.Eval.RefusesOnly`: a computation refuses certain constructs at most.

Main results:

* `MiniC.Program.isSupported_iff`: a program without them, construct by construct;
* `MiniC.discipline_refusesOnly`: runs refuse what their program contains at most;
* `MiniC.refused_is_contained`: so runs of other programs are not refused.
-/

set_option autoImplicit false

namespace MiniC

open Eval

/-! ### Constructs that cannot be run -/

/-- The declaration of an array with an initial value cannot be run. -/
def Variable.unsupported? (v : Variable) : Option Construct :=
  if v.type.isArray && v.init.isSome then some .arrayInitializer else none

namespace Program

/-- All variables that a program declares, those of the globals first. -/
def allVars (p : Program) : List Variable := p.globals ++ p.functions.flatMap Function.vars

/-- The constructs of a program that cannot be run: those among its expressions, its statements and
its declarations. -/
def unsupported (p : Program) : List Construct :=
  p.exprs.filterMap Expr.unsupported? ++
    (p.stmts.filterMap Stmt.unsupported? ++ p.allVars.filterMap Variable.unsupported?)

/-- A program in which everything can be run: there are no string literals and no addresses; what is
assigned to, incremented or decremented is a name, a dereference or a subscript; there is no
`do … while`, no `break` and no `continue`; and no array has an initial value. -/
structure IsSupported (p : Program) : Prop where
  strings (n : Node) (s : String) : .string n s ∉ p.exprs
  addresses (n : Node) (x : Expr) : .unary n .addrOf x ∉ p.exprs
  targets : ∀ e ∈ p.exprs, ∀ t ∈ e.target?, t.namesLocation = true
  loops (loc : Location) (b : Stmt) (c : Expr) : .doLoop loc b c ∉ p.stmts
  breaks (loc : Location) : .leave loc ∉ p.stmts
  continues (loc : Location) : .next loc ∉ p.stmts
  arrays : ∀ v ∈ p.allVars, v.type.isArray = true → v.init = none

end Program

/-- An expression can be run if it is no string literal, no address, and assigns to locations
only. -/
theorem Expr.unsupported?_eq_none {e : Expr} (hstring : ∀ n s, e ≠ .string n s)
    (haddress : ∀ n x, e ≠ .unary n .addrOf x) (htarget : ∀ t ∈ e.target?, t.namesLocation = true) :
    e.unsupported? = none := by
  cases e with
  | string n s => exact absurd rfl (hstring n s)
  | binary n op l r =>
    cases hop : op.isAssignment with
    | false => simp [unsupported?, hop]
    | true => simp [unsupported?, htarget l (Expr.target?_binary hop n l r)]
  | unary n op x =>
    cases op with
    | addrOf => exact absurd rfl (haddress n x)
    | preInc | preDec | postInc | postDec =>
      simp [unsupported?, htarget x (Expr.target?_unary rfl n x)]
    | neg | not | bitNot | deref => rfl
  | _ => rfl

/-- What an assignment stores to names a location, unless the assignment cannot be run. -/
theorem Expr.namesLocation_of_unsupported? {e t : Expr} (he : e.unsupported? = none)
    (ht : e.target? = some t) : t.namesLocation = true := by
  cases hnames : t.namesLocation with
  | true => rfl
  | false =>
    rw [Expr.unsupported?_of_target? ht hnames] at he
    cases he

/-- No expression is an operator of assignment between two values, or an address of what names no
place: these are no constructs of a text. -/
theorem Expr.mem_of_unsupported? {e : Expr} {c : Construct} (h : e.unsupported? = some c) :
    c = .stringLiteral ∨ c = .addressOf ∨ c = .assignmentTarget := by
  unfold unsupported? at h
  split at h
  · cases h
    simp
  · cases h
    simp
  · split at h <;> cases h
    simp
  · split at h <;> cases h
    simp
  · cases h

namespace Program

/-- A program can be run if none of its parts cannot. -/
theorem isSupported_iff {p : Program} : p.IsSupported ↔ p.unsupported = [] := by
  rw [unsupported, List.append_eq_nil_iff, List.append_eq_nil_iff, List.filterMap_eq_nil_iff,
    List.filterMap_eq_nil_iff, List.filterMap_eq_nil_iff]
  constructor
  · intro h
    refine ⟨fun e he => Expr.unsupported?_eq_none ?_ ?_ (h.targets e he), fun s hs => ?_,
      fun v hv => if_neg ?_⟩
    · rintro n s rfl
      exact h.strings n s he
    · rintro n x rfl
      exact h.addresses n x he
    · cases s with
      | doLoop loc b c => exact absurd hs (h.loops loc b c)
      | leave loc => exact absurd hs (h.breaks loc)
      | next loc => exact absurd hs (h.continues loc)
      | _ => rfl
    · intro hinit
      obtain ⟨harray, hsome⟩ := Bool.and_eq_true_iff.1 hinit
      rw [h.arrays v hv harray] at hsome
      cases hsome
  · rintro ⟨hexprs, hstmts, hvars⟩
    refine ⟨fun n s he => ?_, fun n x he => ?_, fun e he t ht => ?_, fun loc b c hs => ?_,
      fun loc hs => ?_, fun loc hs => ?_, fun v hv harray => ?_⟩
    · cases hexprs _ he
    · cases hexprs _ he
    · exact Expr.namesLocation_of_unsupported? (hexprs e he) ht
    · cases hstmts _ hs
    · cases hstmts _ hs
    · cases hstmts _ hs
    · cases hinit : v.init with
      | none => rfl
      | some e =>
        have hv := hvars v hv
        rw [Variable.unsupported?, harray, hinit] at hv
        cases hv

instance (p : Program) : Decidable p.IsSupported := decidable_of_iff _ isSupported_iff.symm

end Program

/-! ### Errors of machines -/

/-- What the heap refuses is no construct. -/
theorem Fault.kind_ofHeapError_ne (e : HeapError) :
    (ofHeapError e).kind ≠ .unsupportedConstruct := by
  cases e <;> rintro ⟨⟩

namespace Machine

variable {m : Machine} {f : Fault}

theorem kind_ne_of_readName {x : String} {link : Option Nat} (h : m.readName x link = .error f) :
    f.kind ≠ .unsupportedConstruct := by
  unfold readName at h
  split at h
  · cases h
    rintro ⟨⟩
  · split at h
    · cases h
    · split at h <;> cases h
      rintro ⟨⟩

theorem kind_ne_of_placeOfName {x : String} {link : Option Nat} {isArray : Nat → Bool}
    (h : m.placeOfName x link isArray = .error f) : f.kind ≠ .unsupportedConstruct := by
  unfold placeOfName at h
  split at h
  · cases h
    rintro ⟨⟩
  · split at h
    · cases h
      rintro ⟨⟩
    · split at h
      · cases h
      · split at h <;> cases h
        rintro ⟨⟩

theorem kind_ne_of_readPlace {place : Place} (h : m.readPlace place = .error f) :
    f.kind ≠ .unsupportedConstruct := by
  cases place with
  | «local» id => cases h
  | global id => cases h
  | memory p =>
    simp only [readPlace] at h
    cases hread : m.heap.read p with
    | ok v =>
      rw [hread] at h
      cases h
    | error e =>
      rw [hread] at h
      cases h
      exact Fault.kind_ofHeapError_ne e

theorem kind_ne_of_writePlace {place : Place} {v : Value} (h : m.writePlace place v = .error f) :
    f.kind ≠ .unsupportedConstruct := by
  cases place with
  | «local» id => cases h
  | global id => cases h
  | memory p =>
    simp only [writePlace] at h
    split at h <;> cases h
    exact Fault.kind_ofHeapError_ne _

theorem kind_ne_of_allocate {size : Nat} (h : m.allocate size = .error f) :
    f.kind ≠ .unsupportedConstruct := by
  unfold allocate at h
  split at h <;> cases h
  exact Fault.kind_ofHeapError_ne _

theorem kind_ne_of_release {p : Pointer} (h : m.release p = .error f) :
    f.kind ≠ .unsupportedConstruct := by
  unfold release at h
  split at h <;> cases h
  exact Fault.kind_ofHeapError_ne _

theorem kind_ne_of_storeArray {isGlobal : Bool} {id size : Nat}
    (h : m.storeArray isGlobal id size = .error f) : f.kind ≠ .unsupportedConstruct := by
  unfold storeArray at h
  split at h <;> cases h
  exact Fault.kind_ofHeapError_ne _

end Machine

/-! ### Computations that refuse certain constructs at most -/

namespace Eval

variable {α β : Type} {P : Construct → Prop}

/-- Whatever construct the computation refuses, wherever it does, is one of certain constructs. -/
def RefusesOnly (P : Construct → Prop) (x : Eval α) : Prop :=
  ∀ m loc c m', x.raises m (.fault loc (.unsupported c)) m' → P c

theorem RefusesOnly.bind {x : Eval α} {f : α → Eval β} (hx : x.RefusesOnly P)
    (hf : ∀ a m m', x.run m = .done a m' → (f a).RefusesOnly P) : (x >>= f).RefusesOnly P := by
  rintro m loc c m' (h | ⟨a, m₁, ha, h⟩)
  · exact hx m loc c m' h
  · exact hf a m m₁ ha m₁ loc c m' h

/-- An operation that fails with errors of other classes refuses nothing. -/
theorem refusesOnly_op {f : Machine → Outcome α}
    (hf : ∀ m e m', f m = .failed e m' → e.kind ≠ .unsupportedConstruct) :
    (op f).RefusesOnly P := fun m _ _ m' h => absurd rfl (hf m _ m' h)

theorem refusesOnly_query (loc : Location) {f : Machine → Except Fault α}
    (hf : ∀ m e, f m = .error e → e.kind ≠ .unsupportedConstruct) :
    (query loc f).RefusesOnly P :=
  refusesOnly_op fun m e m' h => by
    split at h <;> cases h
    next he => exact hf m _ he

theorem refusesOnly_lookUp (k : Lookup) (loc : Location) {f : Machine → Except Fault α}
    (hf : ∀ m e, f m = .error e → e.kind ≠ .unsupportedConstruct) :
    (lookUp k loc f).RefusesOnly P := refusesOnly_query loc hf

theorem refusesOnly_update (f : Machine → Machine) : (update f).RefusesOnly P :=
  refusesOnly_op fun _ _ _ h => by cases h

theorem refusesOnly_attempt (loc : Location) {f : Machine → Except Fault Machine}
    (hf : ∀ m e, f m = .error e → e.kind ≠ .unsupportedConstruct) :
    (attempt loc f).RefusesOnly P :=
  refusesOnly_op fun m e m' h => by
    split at h <;> cases h
    next he => exact hf m _ he

theorem refusesOnly_create (loc : Location) {f : Machine → Except Fault (α × Machine)}
    (hf : ∀ m e, f m = .error e → e.kind ≠ .unsupportedConstruct) :
    (create loc f).RefusesOnly P :=
  refusesOnly_op fun m e m' h => by
    split at h <;> cases h
    next he => exact hf m _ he

end Eval

/-! ### Programs -/

namespace Program

/-- The parts of a program: it may contain what it contains. -/
def ownParts (p : Program) : Parts where
  construct c := c ∈ p.unsupported
  target _ := True
  declared v := v ∈ p.allVars
  called _ := True

/-- A program consists of its own parts. -/
theorem holdProgram_ownParts (p : Program) : p.ownParts.HoldProgram p := by
  have hnode : ∀ e ∈ p.exprs, p.ownParts.Node e := fun e he =>
    ⟨fun c hc => List.mem_append_left _ (List.mem_filterMap.2 ⟨e, he, hc⟩), fun _ _ => trivial⟩
  have hstmt : ∀ s ∈ p.stmts, ∀ c ∈ s.unsupported?, c ∈ p.unsupported := fun s hs c hc =>
    List.mem_append_right _ (List.mem_append_left _ (List.mem_filterMap.2 ⟨s, hs, hc⟩))
  have hinside : ∀ {α : Type} (parts : Function → List α) {f : Function}, f ∈ p.functions →
      ∀ x ∈ parts f, x ∈ p.functions.flatMap parts :=
    fun parts _ hf _ hx => List.mem_flatMap.2 ⟨_, hf, hx⟩
  exact {
    globals := fun _ hv => List.mem_append_left _ hv
    exprs := fun e he => hnode e (List.mem_append_left _ he)
    called := fun _ _ => trivial
    functions := fun f hf => {
      exprs := fun e he => hnode e (List.mem_append_right _ (hinside Function.exprs hf e he))
      vars := fun v hv => List.mem_append_right _ (hinside Function.vars hf v hv)
      stmts := fun s hs => hstmt s (hinside Function.stmts hf s hs) } }

end Program

/-- What runs of a program come to refuses at most what the program contains. -/
theorem discipline_refusesOnly (p : Program) :
    Discipline p.ownParts (RefusesOnly (· ∈ p.unsupported)) where
  yield _ := refusesOnly_op fun _ _ _ h => by cases h
  seq := RefusesOnly.bind
  fail hkind := refusesOnly_op fun _ _ _ h => by cases h; exact hkind
  refuse _ hc := fun _ _ _ _ h => by cases h; exact hc
  readName _ _ loc := refusesOnly_lookUp _ loc fun _ _ => Machine.kind_ne_of_readName
  placeOfName _ _ _ loc := refusesOnly_lookUp _ loc fun _ _ => Machine.kind_ne_of_placeOfName
  readPlace _ loc := refusesOnly_query loc fun _ _ => Machine.kind_ne_of_readPlace
  writePlace _ loc _ _ := refusesOnly_attempt loc fun _ _ => Machine.kind_ne_of_writePlace
  remember _ _ := refusesOnly_update _
  readInteger _ := refusesOnly_op fun _ _ _ h => by
    split at h <;> cases h
    rintro ⟨⟩
  writeLine n loc := fun m _ _ m' h => by
    have hfailed : (writeLine n loc).run m = _ := h
    rw [run_writeLine] at hfailed
    split at hfailed <;> cases hfailed
  allocate _ loc := refusesOnly_create loc fun _ _ => Machine.kind_ne_of_allocate
  release _ loc := refusesOnly_attempt loc fun _ _ => Machine.kind_ne_of_release
  outOfFuel := refusesOnly_op fun _ _ _ h => by cases h
  clearCache := refusesOnly_update _
  depth := refusesOnly_op fun _ _ _ h => by cases h
  hasReturned := refusesOnly_op fun _ _ _ h => by cases h
  setReturned _ := refusesOnly_update _
  record _ := refusesOnly_update _
  recordStatement _ := refusesOnly_update _
  dropOldArray isGlobal _ := by
    unfold Eval.dropOldArray
    split
    · exact refusesOnly_op fun _ _ _ h => by cases h
    · exact refusesOnly_update _
  storeArray _ _ _ loc := refusesOnly_create loc fun _ _ => Machine.kind_ne_of_storeArray
  arrayInitializer {v} hv harray hinit := fun _ _ _ _ h => by
    cases h
    refine List.mem_append_right _ (List.mem_append_right _ (List.mem_filterMap.2 ⟨v, hv, ?_⟩))
    rw [Variable.unsupported?, harray, hinit]
    rfl
  bindVariable _ _ _ _ := refusesOnly_update _
  inFrame args _ _ hx := fun m => hx _
  flush loc := refusesOnly_op fun _ _ _ h => by
    split at h <;> cases h
    rintro ⟨⟩
  liveBlocks := refusesOnly_op fun _ _ _ h => by cases h

/-- No text contains an operator of assignment between two values, or the address of what names no
place. -/
theorem Program.mem_unsupported {p : Program} {c : Construct} (h : c ∈ p.unsupported) :
    (∀ op, c ≠ .pureAssignment op) ∧ c ≠ .addressOfNonMemory := by
  rcases List.mem_append.1 h with h | h
  · obtain ⟨e, -, he⟩ := List.mem_filterMap.1 h
    rcases Expr.mem_of_unsupported? he with rfl | rfl | rfl <;> simp
  · rcases List.mem_append.1 h with h | h
    · obtain ⟨s, -, hs⟩ := List.mem_filterMap.1 h
      cases s <;> cases hs <;> simp
    · obtain ⟨v, -, hv⟩ := List.mem_filterMap.1 h
      unfold Variable.unsupported? at hv
      split at hv <;> cases hv
      simp

/-- A run refuses what its program contains at most, whatever the input, the limits and the machine
are.  So if everything in the program can be run, then the run does not fail with an unsupported
construct.  In no program at all does a run combine two values with an operator of assignment, or
look for the address of what names no place in memory. -/
theorem refused_is_contained (p : Program) (config : Config) (fuel : Nat) (m : Machine) :
    (p.IsSupported → ∀ e m', (Context.run ⟨p, config⟩ fuel).run m = .failed e m' →
      e.kind ≠ .unsupportedConstruct) ∧
    (∀ loc c m', (Context.run ⟨p, config⟩ fuel).raises m (.fault loc (.unsupported c)) m' →
      c ∈ p.unsupported) ∧
    ∀ loc m',
      (∀ op, ¬(Context.run ⟨p, config⟩ fuel).raises m
        (.fault loc (.unsupported (.pureAssignment op))) m') ∧
      ¬(Context.run ⟨p, config⟩ fuel).raises m
        (.fault loc (.unsupported .addressOfNonMemory)) m' := by
  have hrun : (Context.run ⟨p, config⟩ fuel).RefusesOnly (· ∈ p.unsupported) :=
    (discipline_refusesOnly p).run p.holdProgram_ownParts fuel
  refine ⟨fun hp e m' hfailed hkind => ?_, hrun m, fun loc m' => ⟨fun op h => ?_, fun h => ?_⟩⟩
  · obtain ⟨m₁, hraises⟩ := Eval.raises_of_failed _ m e m' hfailed
    -- Only the refusal of a construct is an error of this class.
    cases e with
    | noEntry name => cases hkind
    | fault loc f =>
      cases f with
      | unsupported c =>
        have hc := hrun m loc c m₁ hraises
        rw [Program.isSupported_iff.1 hp] at hc
        cases hc
      | _ => cases hkind
  · exact (Program.mem_unsupported (hrun m loc _ m' h)).1 op rfl
  · exact (Program.mem_unsupported (hrun m loc _ m' h)).2 rfl

/-- A program that assigns to names, dereferences and subscripts, and divides by zero at the end. -/
def dividing : Session :=
  .start (.ofText "int g[3]; int *p = g; int main() { int i; *p = 5;
    for (i = 1; i < 3; ++i) p[i] = *(p + i - 1) * 2;
    ++*p; g[1] %= 4; return g[2] / (g[0] - g[1] - 4); }") {} (.ofBytes []) .unlimited none

/-- It can be run; so the error that it ends with is another one. -/
theorem refused_is_contained_dividing :
    dividing.context.program.IsSupported ∧ ∃ m,
      dividing.run 9 = .failed (.fault ⟨3, 34⟩ .divisionByZero) m ∧
      (RuntimeError.fault ⟨3, 34⟩ .divisionByZero).kind ≠ .unsupportedConstruct := by
  have hsupported : dividing.context.program.IsSupported := by decide +kernel
  have hfails : (dividing.run 9).error? = some (.fault ⟨3, 34⟩ .divisionByZero) := by
    decide +kernel
  obtain ⟨m, hrun⟩ := Outcome.exists_of_error? hfails
  have hrefused (s : Session) (hs : s.context.program.IsSupported) (e : RuntimeError) (m : Machine)
      (h : s.run 9 = .failed e m) : e.kind ≠ .unsupportedConstruct :=
    (refused_is_contained s.context.program s.context.config 9 s.machine).1 hs e m h
  exact ⟨hsupported, m, hrun, hrefused dividing hsupported _ m hrun⟩

end MiniC
