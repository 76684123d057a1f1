import MiniC.Proofs.Discipline
import MiniC.Proofs.Invariant
import MiniC.Proofs.Loaded

/-!
# Characters stay in range

A variable of the type `char` never holds an integer outside of -128 to 127, although values have 64
bits.  Whatever gives it a value cuts that down: its declaration, a call for a parameter, and every
kind of assignment.  Declarations and calls know the type of the variable.  An assignment knows the
static type of its target only; that this is the declared type of the variable which the target
refers to, and that no other variable has its number, is what resolving guarantees.

Main definitions:

* `MiniC.Value.FitsChar`: values that a `char` can hold;
* `MiniC.Machine.InRange`: machines on which certain variables hold such values;
* `MiniC.Program.charParts`: programs whose assignments know which variables these are.

Main results:

* `MiniC.discipline_inRange`: such programs keep these variables in range;
* `MiniC.Program.holdProgram_of_load`: a loaded program is one of them;
* `MiniC.chars_in_range`: its variables and functions of the type `char` stay in range.
-/

set_option autoImplicit false

namespace MiniC

open Eval

/-! ### Values -/

/-- A `char` can hold the value: if it is an integer, it is one from -128 to 127. -/
def Value.FitsChar : Value → Prop
  | integer n => -128 ≤ n.toInt ∧ n.toInt ≤ 127
  | _ => True

theorem Value.fitsChar_coerce (v : Value) : (v.coerce .char).FitsChar := by
  cases v with
  | integer n =>
    show -128 ≤ n.toInt8.toInt64.toInt ∧ n.toInt8.toInt64.toInt ≤ 127
    rw [Int8.toInt_toInt64]
    have hlow := n.toInt8.le_toInt
    have hhigh := n.toInt8.toInt_lt
    omega
  | pointer p => trivial
  | uninitialized => trivial

/-- What is of the type `char` already fits it. -/
theorem Value.fitsChar_of_coerce_eq {v : Value} (h : v.coerce .char = v) : v.FitsChar :=
  h ▸ v.fitsChar_coerce

/-! ### Variables -/

/-- The bindings in which the variables `chars` have values that fit a `char`. -/
def Bindings.InRange (chars : Nat → Prop) (b : Bindings) : Prop :=
  ∀ id v, chars id → b.lookup? id = some v → v.FitsChar

namespace Bindings.InRange

variable {chars : Nat → Prop} {b b' : Bindings} {id : Nat} {v : Value}

theorem empty : Bindings.empty.InRange chars := fun _ _ _ h => by cases h

theorem bind (h : b.InRange chars) (hv : chars id → v.FitsChar) : (b.bind id v).InRange chars := by
  intro other w hother hw
  rw [lookup?_bind] at hw
  split at hw
  · next heq =>
    subst heq
    obtain rfl := Option.some.inj hw
    exact hv hother
  · exact h other w hother hw

theorem assign? (h : b.InRange chars) (hv : chars id → v.FitsChar) :
    ((b.assign? id v).getD b).InRange chars := by
  rw [assign?_eq]
  split
  · exact h.bind hv
  · exact h

end Bindings.InRange

/-- A frame of a call is in range, if the parameters are known for what they are. -/
theorem Function.inRange_frame {chars : Nat → Prop} {f : Function}
    (hparams : ∀ q ∈ f.params, chars q.id → q.type = .char) (args : List Value) :
    (f.frame args).bindings.InRange chars := by
  have hfold : ∀ (ps : List (Parameter × Value)) (frame : Frame),
      (∀ q ∈ ps, chars q.1.id → q.1.type = .char) → frame.bindings.InRange chars →
      (ps.foldl (fun frame q => frame.bind q.1.id (q.2.coerce q.1.type)) frame).bindings.InRange
        chars := by
    intro ps
    induction ps with
    | nil => exact fun _ _ hframe => hframe
    | cons q ps ih =>
      intro frame hps hframe
      obtain ⟨hq, hps⟩ := List.forall_mem_cons.1 hps
      refine ih _ hps (hframe.bind fun hchar => ?_)
      rw [hq hchar]
      exact q.2.fitsChar_coerce
  exact hfold _ _ (fun q hq => hparams q.1 (List.of_mem_zip hq).1) .empty

namespace Machine

/-- All bindings of a machine: those of the globals, and those of the frames, the innermost one
first. -/
def bindings (m : Machine) : List Bindings :=
  m.globals :: (m.stack.current :: m.stack.callers).map Frame.bindings

/-- The machine holds values in the variables `chars` that fit a `char`. -/
def InRange (chars : Nat → Prop) (m : Machine) : Prop := ∀ b ∈ m.bindings, b.InRange chars

theorem inRange_iff {chars : Nat → Prop} {m : Machine} :
    m.InRange chars ↔ m.globals.InRange chars ∧ m.stack.current.bindings.InRange chars ∧
      ∀ f ∈ m.stack.callers, f.bindings.InRange chars := by
  rw [InRange, bindings, List.forall_mem_cons, List.map_cons, List.forall_mem_cons,
    List.forall_mem_map]

@[simp] theorem bindings_note (m : Machine) (e : Event) : (m.note e).bindings = m.bindings := by
  rw [bindings, globals_note, stack_note]
  rfl

section

variable {chars : Nat → Prop} {m m' : Machine}

/-- What leaves the variables alone leaves them in range. -/
theorem InRange.congr (h : m.InRange chars) (heq : m'.bindings = m.bindings) :
    m'.InRange chars := by
  rw [InRange, heq]
  exact h

theorem InRange.note (h : m.InRange chars) (e : Event) : (m.note e).InRange chars :=
  h.congr (m.bindings_note e)

theorem InRange.modifyFrame (h : m.InRange chars) {f : Frame → Frame}
    (hf : (f m.stack.current).bindings.InRange chars) : (m.modifyFrame f).InRange chars := by
  obtain ⟨hglobals, -, hcallers⟩ := inRange_iff.1 h
  exact inRange_iff.2 ⟨hglobals, hf, hcallers⟩

theorem bindings_of_allocate {size : Nat} {p : Pointer} (h : m.allocate size = .ok (p, m')) :
    m'.bindings = m.bindings := by
  obtain ⟨heap, -, rfl⟩ := eq_of_allocate h
  exact bindings_note _ _

theorem bindings_of_release {p : Pointer} (h : m.release p = .ok m') :
    m'.bindings = m.bindings := by
  obtain ⟨size, heap, -, rfl⟩ := eq_of_release h
  exact bindings_note _ _

theorem bindings_of_storeArray {isGlobal : Bool} {id size : Nat} {p : Pointer}
    (h : m.storeArray isGlobal id size = .ok (p, m')) : m'.bindings = m.bindings := by
  obtain ⟨heap, -, rfl⟩ := eq_of_storeArray h
  cases isGlobal with
  | true => exact bindings_note _ _
  | false => exact bindings_note _ _

theorem bindings_dropOldArray (m : Machine) (id : Nat) :
    (m.dropOldArray id).bindings = m.bindings := by
  obtain h | ⟨p, ids, -, -, h⟩ := m.dropOldArray_eq id
  · rw [h]
  · rw [h]
    rfl

/-- A value that is stored to a place fits a `char`, if the place is such a variable. -/
theorem InRange.writePlace {place : Place} {v : Value} (h : m.InRange chars)
    (hv : ∀ id, place = .local id ∨ place = .global id → chars id → v.FitsChar)
    (hw : m.writePlace place v = .ok m') : m'.InRange chars := by
  obtain ⟨hglobals, hcurrent, hcallers⟩ := inRange_iff.1 h
  obtain ⟨id, rfl, rfl⟩ | ⟨id, rfl, rfl⟩ | ⟨p, heap, -, -, rfl⟩ := eq_of_writePlace hw
  · exact h.modifyFrame (hcurrent.assign? (hv id (.inl rfl)))
  · exact inRange_iff.2 ⟨hglobals.assign? (hv id (.inr rfl)), hcurrent, hcallers⟩
  · exact h.congr rfl

theorem InRange.bindVariable (h : m.InRange chars) (isGlobal : Bool) {id : Nat} {v : Value}
    (hv : chars id → v.FitsChar) : (m.bindVariable isGlobal id v).InRange chars := by
  obtain ⟨hglobals, hcurrent, hcallers⟩ := inRange_iff.1 h
  unfold Machine.bindVariable
  refine InRange.note ?_ _
  split
  · exact inRange_iff.2 ⟨hglobals.bind hv, hcurrent, hcallers⟩
  · exact h.modifyFrame (hcurrent.bind hv)

theorem InRange.enterFrame (h : m.InRange chars) {f : Frame} (hf : f.bindings.InRange chars) :
    (m.enterFrame f).InRange chars := by
  obtain ⟨hglobals, hcurrent, hcallers⟩ := inRange_iff.1 h
  exact inRange_iff.2 ⟨hglobals, hf, List.forall_mem_cons.2 ⟨hcurrent, hcallers⟩⟩

theorem InRange.leaveFrame (h : m.InRange chars) : m.leaveFrame.2.InRange chars := by
  obtain ⟨hglobals, hcurrent, hcallers⟩ := inRange_iff.1 h
  obtain ⟨heap, ⟨f, callers, depth, hdepth⟩, globals, input, output, journal⟩ := m
  cases callers with
  | nil => exact h
  | cons g callers =>
    obtain ⟨hg, hcallers⟩ := List.forall_mem_cons.1 hcallers
    exact inRange_iff.2 ⟨hglobals, hg, hcallers⟩

end

end Machine

/-! ### Programs -/

namespace Program

/-- Programs that know of every assignment, declaration and parameter whether it is about a variable
of the type `char`, of those that `p` declares. -/
def charParts (p : Program) : Parts where
  construct _ := True
  target e := ∀ n x id, e = .name n x (some id) → p.DeclaresAs id .char → e.type = some .char
  declared v := p.DeclaresAs v.id .char → v.type = .char
  called f := ∀ q ∈ f.params, p.DeclaresAs q.id .char → q.type = .char

end Program

/-- What is stored to a variable of the type `char` fits it. -/
theorem Expr.fitsChar_of_names {p : Program} {target : Expr} {place : Place}
    (htarget : p.charParts.target target) (hnames : target.Names place) (v : Value) (id : Nat)
    (hplace : place = .local id ∨ place = .global id) (hchar : p.DeclaresAs id .char) :
    (v.coerceTo target.type).FitsChar := by
  have hmemory : (∃ q, place = .memory q) → (v.coerceTo target.type).FitsChar := by
    rintro ⟨q, rfl⟩
    rcases hplace with h | h <;> cases h
  cases target with
  | name n x link =>
    obtain ⟨other, rfl, hother⟩ := hnames
    obtain rfl : other = id := by
      rcases hother with rfl | rfl <;> rcases hplace with h | h <;> cases h <;> rfl
    rw [htarget n x other rfl hchar]
    exact v.fitsChar_coerce
  | _ => exact hmemory hnames

/-- Programs that know which variables are of the type `char` keep them in range. -/
theorem discipline_inRange (p : Program) :
    Discipline p.charParts (Keeps (Machine.InRange fun id => p.DeclaresAs id .char)) where
  yield := keeps_pure
  seq := fun {_ _ x f} hx hf m m' hm hvisits => by
    rcases hvisits with h | ⟨a, m₁, ha, h⟩
    · exact hx m m' hm h
    · exact hf a m m₁ ha m₁ m' (hx m m₁ hm (x.visits_end m m₁ (by rw [ha]; rfl))) h
  fail _ := keeps_fail _
  refuse _ _ := keeps_fail _
  readName _ _ loc := keeps_lookUp _ loc _
  placeOfName _ _ _ loc := keeps_lookUp _ loc _
  readPlace _ loc := keeps_query loc _
  writePlace v loc htarget hnames := keeps_attempt loc fun _ _ hm hw =>
    hm.writePlace (Expr.fitsChar_of_names htarget hnames v) hw
  remember _ _ := keeps_update fun _ hm => hm.modifyFrame (Machine.inRange_iff.1 hm).2.1
  readInteger loc := keeps_op fun m m' hm hr => by
    have hinput : ∀ input, Machine.InRange _ { m with input := input } := fun _ => hm.congr rfl
    obtain ⟨input, ⟨n, -, rfl⟩ | ⟨e, -, rfl⟩⟩ := next_of_readInteger hr <;>
      exact (hinput input).note _
  writeLine n loc := keeps_op fun m m' hm hr => by
    have houtput : ∀ output, Machine.InRange _ { m with output := output } := fun _ => hm.congr rfl
    obtain ⟨output, ⟨-, rfl⟩ | ⟨-, rfl⟩⟩ := write_of_writeLine hr
    · exact (houtput output).note _
    · exact houtput output
  allocate _ loc := keeps_create loc fun _ _ _ hm ha => hm.congr (Machine.bindings_of_allocate ha)
  release _ loc := keeps_attempt loc fun _ _ hm hr => hm.congr (Machine.bindings_of_release hr)
  outOfFuel := keeps_outOfFuel
  clearCache := keeps_update fun _ hm => hm.modifyFrame (Machine.inRange_iff.1 hm).2.1
  depth := keeps_depth
  hasReturned := keeps_hasReturned
  setReturned _ := keeps_update fun _ hm => hm.modifyFrame (Machine.inRange_iff.1 hm).2.1
  record e := keeps_update fun _ hm => hm.note e
  recordStatement _ := keeps_update fun _ hm => hm.note _
  dropOldArray _ id := by
    unfold Eval.dropOldArray
    split
    · exact keeps_pure ()
    · exact keeps_update fun m hm => hm.congr (m.bindings_dropOldArray id)
  storeArray _ _ _ loc := keeps_create loc fun _ _ _ hm hs =>
    hm.congr (Machine.bindings_of_storeArray hs)
  arrayInitializer _ _ _ := keeps_fail _
  bindVariable isGlobal _ hv hw := keeps_update fun _ hm => hm.bindVariable isGlobal fun hchar =>
    Value.fitsChar_of_coerce_eq (hv hchar ▸ hw)
  inFrame := @fun f args x hf hx => by
    have hframe : (f.frame args).bindings.InRange fun id => p.DeclaresAs id .char := by
      refine Function.inRange_frame ?_ args
      exact hf
    exact hx.inFrame (fun _ hm => hm.enterFrame hframe) fun _ hm => hm.leaveFrame
  flush := keeps_flush
  liveBlocks := keeps_liveBlocks

/-- Resolving an expression resolves what it assigns to. -/
theorem Expr.target?_resolve (s : Scope) (e : Expr) :
    (e.resolve s).target? = e.target?.map (Expr.resolve s) := by
  cases e with
  | binary n op l r =>
    simp only [resolve, target?]
    split <;> rfl
  | unary n op x =>
    simp only [resolve, target?]
    split <;> rfl
  | _ => rfl

namespace Program

/-- A variable is declared once, with one type. -/
theorem Identified.eq_of_declaresAs {p : Program} (h : p.Identified) {id : Nat} {t u : Ty}
    (ht : p.DeclaresAs id t) (hu : p.DeclaresAs id u) : t = u :=
  Option.some.inj (((h.declaresAs_iff id t).1 ht).symm.trans ((h.declaresAs_iff id u).1 hu))

/-- A resolved name has the type that its variable is declared with, if that is `char`. -/
theorem Identified.linkType_eq_char {p : Program} (h : p.Identified) {id : Nat}
    (hchar : p.DeclaresAs id .char) : p.scope.linkType (some id) = .char := by
  obtain ⟨d, hd, htype⟩ := Option.map_eq_some_iff.1 ((h.declaresAs_iff id .char).1 hchar)
  unfold Scope.linkType
  rw [show (some id).bind (fun id => p.scope.declarations[id]?) = some d from hd]
  show d.type.decayed = .char
  rw [htype]
  rfl

/-- A loaded program knows which variables are of the type `char`. -/
theorem holdProgram_of_load {source : String} {p : Program} (h : (load source).result = .ok p) :
    p.charParts.HoldProgram p := by
  have hidentified := identified_of_load h
  have hvar : ∀ {v : Variable}, p.DeclaresAs v.id v.type → p.charParts.declared v :=
    fun hv hchar => hidentified.eq_of_declaresAs hv hchar
  -- What is assigned to has been resolved, too, and so has its type by the rule for its kind.
  have hnode : ∀ e ∈ p.exprs, p.charParts.Node e := by
    obtain ⟨q, -, rfl⟩ := exists_read_of_load h
    have hexprs := exprs_resolve Scope.stable_gives q.gives_start (fun _ _ => trivial)
      (fun _ _ _ _ => trivial) fun _ _ _ _ => trivial
    refine hexprs.forall_mem fun e _ s hs => ⟨fun _ _ => trivial, fun t ht n x id hname hchar => ?_⟩
    rw [Expr.target?_resolve] at ht
    obtain ⟨target, -, rfl⟩ := Option.map_eq_some_iff.1 ht
    rw [target.type_resolve_eq hs, hname]
    exact congrArg some (hidentified.linkType_eq_char hchar)
  have hglobal : ∀ e ∈ p.globals.flatMap Variable.exprs, p.charParts.Node e :=
    fun e he => hnode e (List.mem_append_left _ he)
  have hbody : ∀ f ∈ p.functions, ∀ e ∈ f.exprs, p.charParts.Node e :=
    fun f hf e he => hnode e (List.mem_append_right _ (List.mem_flatMap.2 ⟨f, hf, he⟩))
  exact {
    globals := fun v hv => hvar (.inl ⟨v, hv, rfl, rfl⟩)
    exprs := hglobal
    called := fun f hf q hq hchar =>
      hidentified.eq_of_declaresAs (.inr ⟨f, hf, .inl ⟨q, hq, rfl, rfl⟩⟩) hchar
    functions := fun f hf => ⟨hbody f hf, fun v hv => hvar (.inr ⟨f, hf, .inr ⟨v, hv, rfl, rfl⟩⟩),
      fun _ _ _ _ => trivial⟩ }

end Program

/-! ### Runs -/

/-- A call of a function of the type `char` yields a value that fits it. -/
theorem fitsChar_of_callFunction {ctx : Context} {fuel : Nat} {f : Function} {args : List Value}
    {loc : Location} {v : Value} {m m' : Machine} (htype : f.returnType = .char)
    (h : (callFunction ctx fuel f args loc).run m = .done v m') : v.FitsChar := by
  unfold callFunction callWithin at h
  split at h
  · cases h
  · obtain ⟨depth, _, -, h⟩ := run_bind_eq_done h
    split at h
    · cases h
    · split at h
      · cases h
      · obtain ⟨⟨_, frame⟩, _, -, h⟩ := run_bind_eq_done h
        obtain ⟨_, _, -, h⟩ := run_bind_eq_done h
        obtain ⟨rfl, -⟩ := Outcome.done.inj h
        rw [htype]
        exact frame.returnValue.fitsChar_coerce

/-- Characters stay in range.  A loaded program is run any number of times, on any input and within
any limits.  On every machine between two operations, all variables and parameters of the type
`char` hold values that fit it, globally and in the frames of all calls; and so does what a function
of that type returns, from whatever machine it is called. -/
theorem chars_in_range {source : String} {p : Program} (h : (Program.load source).result = .ok p)
    (config : Config) (input : Input) (output : Output) (journal : Option (List Event)) :
    (∀ m, (Session.start p config input output journal).Passes m →
      ∀ id, p.DeclaresAs id .char → ∀ v,
        (m.globals.lookup? id = some v ∨ ∃ f ∈ m.stack.frames, f.lookup? id = some v) →
          v.FitsChar) ∧
    ∀ fuel, ∀ f ∈ p.functions, f.returnType = .char → ∀ args loc m v m',
      (callFunction ⟨p, config⟩ fuel f args loc).run m = .done v m' → v.FitsChar := by
  refine ⟨fun m hm => ?_, fun fuel f _ htype args loc m v m' => fitsChar_of_callFunction htype⟩
  have hruns : ∀ fuel, (Context.run ⟨p, config⟩ fuel).Keeps
      (Machine.InRange fun id => p.DeclaresAs id .char) :=
    (discipline_inRange p).run (Program.holdProgram_of_load h)
  have hstart : (Session.start p config input output journal).machine.InRange
      fun id => p.DeclaresAs id .char :=
    Machine.inRange_iff.2 ⟨.empty, .empty, fun _ hf => absurd hf List.not_mem_nil⟩
  obtain ⟨hglobals, hcurrent, hcallers⟩ := Machine.inRange_iff.1 (hm.keeps hruns hstart)
  rintro id hchar v (hv | ⟨f, hf, hv⟩)
  · exact hglobals id v hchar hv
  · rcases List.mem_cons.1 (List.mem_reverse.1 hf) with rfl | hf
    · exact hcurrent id v hchar hv
    · exact hcallers f hf id v hchar hv

/-- A program in which a global, a parameter, a local variable and a call are all of the type
`char`, and none of the numbers written for them fits it. -/
def truncating : String :=
  "char g = 200; char f(char c) { char d = c; d += 100; d++; return d; } " ++
  "int main() { g = g + 1; return f(300); }"

/-- What a run of a program from its start yields, and what it leaves in the variable 0. -/
def endOfRun (p : Program) : Option (Value × Option Value) :=
  match (Session.start p {} (.ofBytes []) .unlimited none).run 9 with
  | .done v m => some (v, m.globals.lookup? 0)
  | _ => none

/-- The numbers wrap around whenever they are given to a variable. -/
theorem chars_in_range_truncating :
    ∃ p, (Program.load truncating).result = .ok p ∧ p.DeclaresAs 0 .char ∧
      ∃ m, (Session.start p {} (.ofBytes []) .unlimited none).Passes m ∧
        m.globals.lookup? 0 = some (.integer (-55)) ∧ (Value.integer (-55)).FitsChar := by
  have hend : ((Program.load truncating).result.toOption.map fun p =>
      (endOfRun p, (p.declaration? 0).map Declaration.type)) =
        some (some (.integer (-111), some (.integer (-55))), some .char) := by decide +kernel
  obtain ⟨p, hp, hresult⟩ := Option.map_eq_some_iff.1 hend
  obtain ⟨hrun, htype⟩ := Prod.mk.inj hresult
  have hload := Program.eq_ok_of_toOption hp
  have hchar : p.DeclaresAs 0 .char :=
    ((Program.identified_of_load hload).declaresAs_iff 0 .char).2 htype
  unfold endOfRun at hrun
  split at hrun
  · next v m hdone =>
    obtain ⟨-, hglobal⟩ := Prod.mk.inj (Option.some.inj hrun)
    have hpasses : (Session.start p {} (.ofBytes []) .unlimited none).Passes m :=
      ⟨_, 9, .start, Eval.visits_end _ _ _ (congrArg Outcome.machine? hdone)⟩
    exact ⟨p, hload, hchar, m, hpasses, hglobal,
      (chars_in_range hload {} (.ofBytes []) .unlimited none).1 m hpasses 0 hchar _ (.inl hglobal)⟩
  · cases hrun

end MiniC
