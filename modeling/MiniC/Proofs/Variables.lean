import MiniC.Proofs.Lookups

/-!
# Variables at run time

A name that is linked to a parameter or a variable of a function is looked up in frames of that
function only.  It stands for the value of the activation that looks it up, and not for one of
another activation of the same function; and it has one, unless it is a variable whose declaration
has not been completed in this activation.  A name that is linked to a global stands for the one
value that all runs of a session share, which is there as soon as the declaration has been completed
in one of them.

Main definitions:

* `MiniC.Machine.LooksUpOwn`, `MiniC.Machine.LooksUpGlobal`: what the look-up of a name finds.

Main results:

* `MiniC.Session.variables_in_place`: names find their own variables, throughout all runs of a
  program that a text says.
-/

set_option autoImplicit false

namespace MiniC

/-! ### Frames -/

section

variable {p : Program} {r : Role}

/-- What a frame holds belongs to the function that it is a frame of. -/
theorem Frame.Holds.own {ds : List Nat} {g : Frame} (h : g.Holds r ds) (hr : r.Played p) :
    ∀ id ∈ g.bindings.ids, ∃ f, p.function? g.function = some f ∧ id ∈ f.ownIds := by
  intro id hid
  have hbound := (h.bound id).1 ((Bindings.isSome_lookup?_iff _ _).2 hid)
  cases r with
  | root => simp [Role.paramIds, Role.varIds] at hbound
  | function f =>
    refine ⟨f, ?_, List.mem_append.2 (hbound.imp_right And.left)⟩
    rw [h.function_eq]
    exact hr

theorem Program.Below.own {fs : List Frame} {as : List Activation} (h : p.Below r fs as) :
    ∀ g ∈ fs, ∀ id ∈ g.bindings.ids, ∃ f, p.function? g.function = some f ∧ id ∈ f.ownIds := by
  induction h with
  | root => simp
  | call _ hholds hbelow ih => exact List.forall_mem_cons.2 ⟨hholds.own hbelow.played, ih⟩

/-- The frames are those of the activations. -/
theorem Program.Below.map_function {fs : List Frame} {as : List Activation} (h : p.Below r fs as) :
    as.map Activation.function = fs.map Frame.function := by
  induction h with
  | root => rfl
  | call _ hholds _ ih => rw [List.map_cons, List.map_cons, ih, hholds.function_eq]

end

/-! ### What a look-up finds -/

namespace Machine

/-- On a machine, behind the events `es`, a name that is linked to the declaration `id` of `f` finds
the variable of an activation of `f`: its value, and as a target its place.  Only a variable may
have none, as long as it has not been declared in this activation. -/
structure LooksUpOwn (p : Program) (f : Function) (id : Nat) (name : String) (es : List Event)
    (m : Machine) : Prop where
  function? : p.function? m.stack.current.function = some f
  unbound_iff : ∃ ds as, activations es = ⟨f.name, ds⟩ :: as ∧
    (m.stack.current.lookup? id = none ↔ id ∈ f.varIds ∧ id ∉ ds)
  readName : m.readName name (some id) =
    (m.stack.current.lookup? id).elim (.error (.unboundName name)) .ok
  placeOfName : ∀ isArray : Nat → Bool, isArray id = false →
    m.placeOfName name (some id) isArray =
      (m.stack.current.lookup? id).elim (.error (.unboundName name)) fun _ => .ok (.local id)

/-- On a machine, behind the events `es`, a name that is linked to the global `id` finds the one
variable of all calls and runs: its value, and as a target its place.  It has none as long as it has
not been declared. -/
structure LooksUpGlobal (id : Nat) (name : String) (es : List Event) (m : Machine) : Prop where
  unbound_iff : m.globals.lookup? id = none ↔ .declared id ∉ es
  readName : m.readName name (some id) =
    (m.globals.lookup? id).elim (.error (.unboundName name)) .ok
  placeOfName : ∀ isArray : Nat → Bool, isArray id = false →
    m.placeOfName name (some id) isArray =
      (m.globals.lookup? id).elim (.error (.unboundName name)) fun _ => .ok (.global id)

variable {p : Program} {r : Role} {outer : List Frame} {rest : List Activation} {m : Machine}
  {es : List Event} {f : Function} {id : Nat}

theorem HoldsGlobals.lookup?_eq_none_iff (h : m.HoldsGlobals p) (hes : m.journal = some es) :
    m.globals.lookup? id = none ↔ (id ∈ p.globalIds → .declared id ∉ es) := by
  obtain ⟨es', hes', hbound⟩ := h
  obtain rfl : es = es' := Option.some.inj (hes.symm.trans hes')
  rw [← Option.not_isSome_iff_eq_none, hbound, not_and]

/-- What is linked to a declaration of a function is looked up in a frame of that function. -/
theorem Runs.role_eq (hp : p.Confined) (h : m.Runs p r outer rest) {k : Lookup}
    (hk : (r.likeness p).links k.link) (hf : f ∈ p.functions) (hid : id ∈ f.ownIds)
    (hlink : k.link = some id) : r = .function f := by
  have hmem : id ∈ r.paramIds ++ r.varIds := (List.mem_append.1 (hk id hlink)).resolve_right
    (hp.not_mem_globalIds hf hid)
  cases r with
  | root => cases hmem
  | function g =>
    have hg : g ∈ p.functions := Program.mem_of_function? h.below.played
    rw [hp.eq_of_own hg hf hmem hid]

/-- In a frame of a function, a declaration of that function is looked up there. -/
theorem Runs.looksUpOwn (hp : p.Confined) (h : m.Runs p (.function f) outer rest)
    (hes : m.journal = some es) (hf : f ∈ p.functions) (hid : id ∈ f.ownIds) (name : String) :
    m.LooksUpOwn p f id name es := by
  obtain ⟨es', ds, hes', hactive, hholds⟩ := h.current
  obtain rfl : es = es' := Option.some.inj (hes.symm.trans hes')
  have hglobal : m.globals.lookup? id = none := (h.globals.lookup?_eq_none_iff hes).2 fun hg =>
    absurd hg (hp.not_mem_globalIds hf hid)
  refine ⟨?_, ⟨ds, rest, hactive, ?_⟩, ?_, fun isArray ha => ?_⟩
  · rw [hholds.function_eq]
    exact h.below.played
  · -- A parameter has a value from the start, and is no variable.
    rw [← Option.not_isSome_iff_eq_none, hholds.bound]
    rcases List.mem_append.1 hid with hparam | hvar
    · exact iff_of_false (fun hnone => hnone (.inl hparam)) fun hvar =>
        hp.not_mem_varIds hf hparam hvar.1
    · have hparam : id ∉ f.paramIds := fun hparam => hp.not_mem_varIds hf hparam hvar
      show ¬(id ∈ f.paramIds ∨ id ∈ f.varIds ∧ id ∈ ds) ↔ _
      rw [or_iff_right hparam, not_and, and_iff_right hvar, imp_iff_right hvar]
  · unfold Machine.readName
    dsimp only
    cases m.stack.current.lookup? id with
    | none => rw [hglobal]; rfl
    | some v => rfl
  · unfold Machine.placeOfName
    dsimp only
    rw [ha, hglobal]
    cases m.stack.current.lookup? id <;> rfl

/-- Wherever a global is looked up, the frame has no variable of its own for it. -/
theorem Runs.looksUpGlobal (hp : p.Confined) (h : m.Runs p r outer rest)
    (hes : m.journal = some es) (hid : id ∈ p.globalIds) (name : String) :
    m.LooksUpGlobal id name es := by
  obtain ⟨-, ds, -, -, hholds⟩ := h.current
  have hlocal : m.stack.current.lookup? id = none := by
    rw [← Option.not_isSome_iff_eq_none, Frame.lookup?, Bindings.isSome_lookup?_iff]
    intro hmem
    obtain ⟨f, hf, hown⟩ := hholds.own h.below.played id hmem
    exact hp.not_mem_globalIds (Program.mem_of_function? hf) hown hid
  refine ⟨?_, ?_, fun isArray ha => ?_⟩
  · rw [h.globals.lookup?_eq_none_iff hes, imp_iff_right hid]
  · unfold Machine.readName
    dsimp only
    rw [hlocal]
    cases m.globals.lookup? id <;> rfl
  · unfold Machine.placeOfName
    dsimp only
    rw [ha, hlocal]
    cases m.globals.lookup? id <;> rfl

end Machine

/-! ### Names in initial values -/

/-- The look-up that the initial value of a variable is, if it is a name. -/
def Variable.initLookup? (v : Variable) : Option Lookup :=
  match v.type.isArray, v.init with
  | false, some (.name _ x link) => some ⟨x, link⟩
  | _, _ => none

namespace Eval

/-- The value of a name is looked up. -/
theorem looks_name (env : Env) (n : Node) (x : String) (link : Option Nat) (m : Machine) :
    (evalExpr env (.name n x link)).looks m ⟨x, link⟩ m :=
  .inl ⟨rfl, rfl⟩

variable {env : Env} {v : Variable} {k : Lookup}

theorem looks_declareVariable (hv : v.initLookup? = some k) (m : Machine) :
    (declareVariable env v).looks m k m := by
  unfold Variable.initLookup? at hv
  split at hv
  · next n x link ha hi =>
    cases hv
    refine .inr ⟨m.stack.depth, m, rfl, .inl ?_⟩
    unfold initialValue
    rw [ha, hi]
    exact .inl (looks_name env n x link m)
  · cases hv

/-- Behind globals that can be declared, a global that starts from a name looks that name up. -/
theorem looks_declareGlobals (hv : v.initLookup? = some k) {vs : List Variable}
    (us : List Variable) {m m₁ : Machine}
    (hdone : (Context.declareGlobals env vs).run m = .done () m₁) :
    ∃ m', (Context.declareGlobals env (vs ++ v :: us)).looks m k m' := by
  induction vs generalizing m with
  | nil => exact ⟨_, .inr ⟨(), _, rfl, .inl (looks_declareVariable hv _)⟩⟩
  | cons u vs ih =>
    obtain ⟨⟨⟩, m₂, hclear, hrest⟩ := run_bind_eq_done hdone
    obtain ⟨⟨⟩, m₃, hdeclare, hrest⟩ := run_bind_eq_done hrest
    obtain ⟨m', hlooks⟩ := ih hrest
    exact ⟨m', .inr ⟨(), m₂, hclear, .inr ⟨(), m₃, hdeclare, hlooks⟩⟩⟩

end Eval

/-! ### Sessions -/

namespace Session

/-- Variables stand where they belong, throughout all runs of a program that a text says.  What a
frame holds are values of parameters and variables of the function that it is a frame of, and what
stands globally are values of globals.

A session looks up the same names if it is followed; and then the journal tells of the frames.  A
name that is linked to a parameter or a variable of a function finds the own variable of the
activation that looks it up, and fails if this is a variable that has not been declared in that
activation.  A name that is linked to a global finds the one global variable, and fails if this has
not been declared in the session. -/
theorem variables_in_place {source : String} {p : Program}
    (h : (Program.load source).result = .ok p) (config : Config) (input : Input) (output : Output)
    (journal : Option (List Event)) :
    let s := Session.start p config input output journal
    (∀ m, s.Passes m →
      (∀ g ∈ m.stack.frames, ∀ id ∈ g.bindings.ids,
        ∃ f, p.function? g.function = some f ∧ id ∈ f.ownIds) ∧
      ∀ id ∈ m.globals.ids, id ∈ p.globalIds) ∧
    ∀ k m, s.Looks k m →
      (∃ es, s.followed.Looks k (m.telling es)) ∧
      ∀ es, s.followed.Looks k (m.telling es) →
        (activations es).map Activation.function =
          (m.stack.current :: m.stack.callers).map Frame.function ∧
        (∀ f ∈ p.functions, ∀ id ∈ f.ownIds, k.link = some id →
          m.LooksUpOwn p f id k.name es) ∧
        ∀ id ∈ p.globalIds, k.link = some id → m.LooksUpGlobal id k.name es := by
  intro s
  have hp := Program.confined_of_load h
  refine ⟨fun m hm => ?_, fun k m hlooks => ⟨?_, fun es hes => ?_⟩⟩
  · -- A session that is followed passes through the same frames and globals.
    obtain ⟨m', hm', hsame⟩ := hm.followed
    obtain ⟨⟨r, ds, as, hholds, hbelow⟩, hglobals⟩ := Passes.tidy hp hm'
    obtain ⟨es, hes, hbound⟩ := hglobals
    have hframes : m'.stack = m.stack := by rw [hsame.eq_telling hes]; rfl
    have hvalues : m'.globals = m.globals := by rw [hsame.eq_telling hes]; rfl
    rw [hframes] at hholds hbelow
    rw [hvalues] at hbound
    refine ⟨fun g hg => ?_, fun id hid => ?_⟩
    · rcases List.mem_cons.1 (List.mem_reverse.1 hg) with rfl | hg
      · exact hholds.own hbelow.played
      · exact hbelow.own g hg
    · exact ((hbound id).1 ((Bindings.isSome_lookup?_iff _ _).2 hid)).1
  · obtain ⟨m', hm', hsame⟩ := hlooks.followed
    obtain ⟨r, outer, rest, hruns, -⟩ := Looks.runs hp hm'
    obtain ⟨es, hes, -⟩ := hruns.globals
    exact ⟨es, hsame.eq_telling hes ▸ hm'⟩
  · obtain ⟨r, outer, rest, hruns, hk⟩ := Looks.runs hp hes
    refine ⟨?_, fun f hf id hid hlink => ?_, fun id hid _ => ?_⟩
    · obtain ⟨es', ds, hes', hactive, hholds⟩ := hruns.current
      obtain rfl : es = es' := Option.some.inj hes'
      have hcallers : m.stack.callers = outer := hruns.callers_eq
      have hname : m.stack.current.function = r.name := hholds.function_eq
      rw [hactive, List.map_cons, List.map_cons, hcallers, hname, hruns.below.map_function]
    · obtain rfl := hruns.role_eq hp hk hf hid hlink
      have hown := hruns.looksUpOwn hp rfl hf hid k.name
      exact ⟨hown.function?, hown.unbound_iff, hown.readName, hown.placeOfName⟩
    · have hglobal := hruns.looksUpGlobal hp rfl hid k.name
      exact ⟨hglobal.unbound_iff, hglobal.readName, hglobal.placeOfName⟩

/-- Behind globals that can be declared, a global that starts from a name looks that name up in the
first run. -/
theorem looks_of_initLookup? {s : Session} {vs us : List Variable} {v : Variable} {k : Lookup}
    (hglobals : s.context.program.globals = vs ++ v :: us) (hv : v.initLookup? = some k)
    {fuel : Nat} {m₁ : Machine}
    (hdone : (Context.declareGlobals (s.context.env fuel) vs).run
      (s.machine.note (.runStarted s.context.config.entry)) = .done () m₁) :
    ∃ m, s.Looks k m := by
  obtain ⟨m, hlooks⟩ := Eval.looks_declareGlobals hv us hdone
  rw [← hglobals] at hlooks
  exact ⟨m, s, fuel, .start, .inr ⟨(), _, rfl, .inl hlooks⟩⟩

/-- A global that starts from another one, and a function whose activations declare a variable each,
but for the innermost one. -/
def chained : String :=
  "int a = 3; int b = a; int f(int n) { if (n) { int x = n; f(n - 1); } return x; }
   int main() { return f(b); }"

/-- The initial value of `b` looks `a` up, and finds it. -/
theorem variables_in_place_chained :
    ∃ p, (Program.load chained).result = .ok p ∧ 0 ∈ p.globalIds ∧
      ∃ (m : Machine) (es : List Event),
        (Session.start p {} (.ofBytes []) .unlimited none).followed.Looks ⟨"a", some 0⟩
          (m.telling es) ∧ m.LooksUpGlobal 0 "a" es := by
  let s (p : Program) : Session := .start p {} (.ofBytes []) .unlimited none
  have hshown : ((Program.load chained).result.toOption.map fun p =>
      p.globals.map fun v => (v.id, v.initLookup?)) =
      some [(0, none), (1, some ⟨"a", some 0⟩)] := by decide +kernel
  have hfirst : ((Program.load chained).result.toOption.map fun p =>
      ((Context.declareGlobals ((s p).context.env 9) (p.globals.take 1)).run
        ((s p).machine.note (.runStarted "main"))).shown) = some (some ((), "")) := by
    decide +kernel
  obtain ⟨p, hp, hglobals⟩ := Option.map_eq_some_iff.1 hshown
  rw [hp, Option.map_some, Option.some.injEq] at hfirst
  obtain ⟨u, _, hcons, hu, htail⟩ := List.map_eq_cons_iff.1 hglobals
  obtain ⟨v, vs, rfl, hv, -⟩ := List.map_eq_cons_iff.1 htail
  obtain ⟨hid, -⟩ := Prod.mk.inj hu
  obtain ⟨-, hv⟩ := Prod.mk.inj hv
  obtain ⟨m₁, hdone, -⟩ := Outcome.exists_of_shown hfirst
  rw [hcons] at hdone
  have hload := Program.eq_ok_of_toOption hp
  have hmem : 0 ∈ p.globalIds := by
    rw [Program.globalIds, hcons, List.map_cons, hid]
    exact List.mem_cons_self ..
  have hsplit : (s p).context.program.globals = [u] ++ v :: vs := hcons
  obtain ⟨m, hlooks⟩ := looks_of_initLookup? hsplit hv hdone
  obtain ⟨⟨es, hes⟩, hfound⟩ :=
    (variables_in_place hload {} (.ofBytes []) .unlimited none).2 _ m hlooks
  exact ⟨p, hload, hmem, m, es, hes, (hfound es hes).2.2 0 hmem rfl⟩

/-- The innermost activation of `f` has no `x`, although the three others have one. -/
example : ((Session.start (.ofText chained) {} (.ofBytes []) .unlimited none).run 20).error?.map
    RuntimeError.kind = some .unboundName := by decide +kernel

end Session

end MiniC
