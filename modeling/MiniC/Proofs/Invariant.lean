import MiniC.Proofs.Simulation
import MiniC.Session

/-!
# Invariants of machines

A property of machines that every operation keeps is kept by whole programs: it holds in every
machine that a run passes through, and so from one run to the next.

Main definitions:

* `MiniC.Eval.Keeps`: a computation keeps a property of machines all the way;
* `MiniC.Machine.Invariant`: the operations that have to be looked at.

Main results:

* `MiniC.Eval.Keeps.bind`, `MiniC.Eval.Keeps.inFrame`: what sequences and calls keep;
* `MiniC.Session.Passes.invariant`: an invariant holds throughout the runs of a session.
-/

set_option autoImplicit false

namespace MiniC

namespace Eval

variable {α β : Type} {I : Machine → Prop}

/-- If the machine that a computation begins on has the property `I`, then all that it passes
through have it. -/
def Keeps (I : Machine → Prop) (x : Eval α) : Prop := ∀ m m', I m → x.visits m m' → I m'

theorem keeps_op {f : Machine → Outcome α}
    (hf : ∀ m m', I m → (f m).machine? = some m' → I m') : (op f).Keeps I := by
  rintro m m' hm (rfl | h)
  · exact hm
  · exact hf m m' hm h

theorem Keeps.bind {x : Eval α} {f : α → Eval β} (hx : x.Keeps I) (hf : ∀ a, (f a).Keeps I) :
    (x >>= f).Keeps I := by
  rintro m m' hm (h | ⟨a, m₁, ha, h⟩)
  · exact hx m m' hm h
  · have hm₁ : I m₁ := hx m m₁ hm (x.visits_end m m₁ (by rw [ha]; rfl))
    exact hf a m₁ m' hm₁ h

/-- A body in a frame of its own keeps what entering and leaving the frame keep. -/
theorem Keeps.inFrame {x : Eval α} (hx : x.Keeps I) {f : Frame}
    (henter : ∀ m, I m → I (m.enterFrame f)) (hleave : ∀ m, I m → I m.leaveFrame.2) :
    (Eval.inFrame f x).Keeps I := by
  rintro m m' hm (rfl | h | ⟨m₁, h, rfl⟩)
  · exact hm
  · exact hx _ m' (henter m hm) h
  · exact hleave m₁ (hx _ m₁ (henter m hm) (x.visits_end _ m₁ h))

/-! ### Kinds of operations -/

theorem keeps_pure (a : α) : (pure a : Eval α).Keeps I :=
  keeps_op fun m m' hm h => by cases h; exact hm

theorem keeps_fail (e : RuntimeError) : (fail e : Eval α).Keeps I :=
  keeps_op fun m m' hm h => by cases h; exact hm

theorem keeps_outOfFuel : (outOfFuel : Eval α).Keeps I :=
  keeps_op fun m m' _ h => by cases h

theorem keeps_query (loc : Location) (f : Machine → Except Fault α) : (query loc f).Keeps I :=
  keeps_op fun _ _ hm h => by rwa [eq_of_query h]

theorem keeps_lookUp (k : Lookup) (loc : Location) (f : Machine → Except Fault α) :
    (lookUp k loc f).Keeps I :=
  keeps_query loc f

theorem keeps_update {f : Machine → Machine} (hf : ∀ m, I m → I (f m)) : (update f).Keeps I :=
  keeps_op fun m m' hm h => by cases h; exact hf m hm

theorem keeps_attempt (loc : Location) {f : Machine → Except Fault Machine}
    (hf : ∀ m m', I m → f m = .ok m' → I m') : (attempt loc f).Keeps I :=
  keeps_op fun m m' hm h => by
    obtain hr | rfl := ok_or_eq_of_attempt h
    · exact hf m m' hm hr
    · exact hm

theorem keeps_create (loc : Location) {f : Machine → Except Fault (α × Machine)}
    (hf : ∀ m a m', I m → f m = .ok (a, m') → I m') : (create loc f).Keeps I :=
  keeps_op fun m m' hm h => by
    obtain ⟨a, hr⟩ | rfl := ok_or_eq_of_create h
    · exact hf m a m' hm hr
    · exact hm

theorem keeps_depth : depth.Keeps I := keeps_op fun m m' hm h => by cases h; exact hm

theorem keeps_hasReturned : hasReturned.Keeps I := keeps_op fun m m' hm h => by cases h; exact hm

theorem keeps_liveBlocks : Context.liveBlocks.Keeps I :=
  keeps_op fun m m' hm h => by cases h; exact hm

theorem keeps_flush (loc : Location) : (Context.flush loc).Keeps I :=
  keeps_op fun _ _ hm h => by rwa [Context.eq_of_flush h]

end Eval

/-! ### Invariants -/

/-- A property of machines that the operations keep.  `declares` and `scope` tell which variables
are declared, and which of them are global. -/
structure Machine.Invariant (declares : Variable → Prop) (scope : Nat → Option Bool)
    (I : Machine → Prop) : Prop where
  note {m : Machine} {e : Event} : e.isProgress = true → I m → I (m.note e)
  got {m : Machine} {n : Int64} {input : Input} :
    m.input.next = (.ok n, input) → I m → I ({ m with input := input }.note (.got n))
  missed {m : Machine} {e : InputError} {input : Input} :
    m.input.next = (.error e, input) → I m → I ({ m with input := input }.note (.missed e))
  printed {m : Machine} {n : Int64} {output : Output} :
    m.output.write (Eval.line n) = (true, output) → I m →
      I ({ m with output := output }.note (.printed n))
  unprinted {m : Machine} {n : Int64} {output : Output} :
    m.output.write (Eval.line n) = (false, output) → I m → I { m with output := output }
  writePlace {m m' : Machine} {place : Place} {v : Value} :
    I m → m.writePlace place v = .ok m' → I m'
  remember {m : Machine} (node : Nat) (v : Value) :
    I m → I (m.modifyFrame fun f => f.remember node v)
  clearCache {m : Machine} : I m → I (m.modifyFrame Frame.clearCache)
  setReturned {m : Machine} (v : Value) : I m → I (m.modifyFrame fun f => f.setReturned v)
  bindVariable {m : Machine} {v : Variable} (depth : Nat) (w : Value) :
    declares v → I m → I (m.bindVariable ((scope v.id).getD (depth == 0)) v.id w)
  allocate {m m' : Machine} {size : Nat} {p : Pointer} :
    I m → m.allocate size = .ok (p, m') → I m'
  release {m m' : Machine} {p : Pointer} : I m → m.release p = .ok m' → I m'
  storeArray {m m' : Machine} {v : Variable} {depth size : Nat} {p : Pointer} :
    declares v → v.type.isArray → I m →
    m.storeArray ((scope v.id).getD (depth == 0)) v.id size = .ok (p, m') → I m'
  dropOldArray {m : Machine} (id : Nat) : I m → I (m.dropOldArray id)
  enterFrame {m : Machine} (f : Function) (args : List Value) :
    I m → I (m.enterFrame (f.frame args))
  leaveFrame {m : Machine} : I m → I m.leaveFrame.2

namespace Machine.Invariant

open Eval

variable {declares : Variable → Prop} {scope : Nat → Option Bool} {I : Machine → Prop}
  (h : Machine.Invariant declares scope I)

include h

theorem keeps_record {e : Event} (he : e.isProgress = true) : (record e).Keeps I :=
  keeps_update fun _ => h.note he

/-- Programs keep an invariant. -/
theorem runSimulation (limit : Nat) :
    RunSimulation (.equalDeclaring declares) scope limit limit (alone (Keeps I))
      (alone (Keeps I)) where
  yield := keeps_pure
  seq := Keeps.bind
  fail := keeps_fail
  readName _ _ loc _ := keeps_lookUp _ loc _
  placeOfName _ _ _ loc _ := keeps_lookUp _ loc _
  readPlace _ loc := keeps_query loc _
  writePlace _ _ loc := keeps_attempt loc fun _ _ => h.writePlace
  remember _ _ := keeps_update fun _ => h.remember _ _
  readInteger loc := keeps_op fun m m' hm hr => by
    obtain ⟨input, ⟨n, hi, rfl⟩ | ⟨e, hi, rfl⟩⟩ := next_of_readInteger hr
    · exact h.got hi hm
    · exact h.missed hi hm
  writeLine n loc := keeps_op fun m m' hm hr => by
    obtain ⟨output, ⟨ho, rfl⟩ | ⟨ho, rfl⟩⟩ := write_of_writeLine hr
    · exact h.printed ho hm
    · exact h.unprinted ho hm
  allocate _ loc := keeps_create loc fun _ _ _ => h.allocate
  release _ loc := keeps_attempt loc fun _ _ => h.release
  written := False.elim
  ofExpr hx := hx
  sequence := Keeps.bind
  clearCache := keeps_update fun _ => h.clearCache
  depth := keeps_depth
  dropOldArray _ _ := by
    unfold Eval.dropOldArray
    split
    · exact keeps_pure ()
    · exact keeps_update fun _ => h.dropOldArray _
  storeArray _ _ loc hv ha := keeps_create loc fun _ _ _ => h.storeArray hv ha
  bindVariable depth w hv := keeps_update fun _ => h.bindVariable depth w hv
  outOfFuel := keeps_outOfFuel
  hasReturned := keeps_hasReturned
  setReturned v := keeps_update fun _ => h.setReturned v
  recordStatement _ := keeps_update fun _ => h.note rfl
  enter f args loc x _ hx := by
    refine keeps_depth.bind fun depth => ?_
    split
    · exact keeps_fail _
    · split
      · exact keeps_fail _
      · have hbody := (h.keeps_record (e := .call f.name (depth + 1)) rfl).bind fun _ => hx
        exact (hbody.inFrame (fun _ => h.enterFrame f args) fun _ => h.leaveFrame).bind fun _ =>
          (h.keeps_record rfl).bind fun _ => keeps_pure _
  started _ := h.keeps_record rfl
  flush := keeps_flush
  finished _ := keeps_liveBlocks.bind fun _ => h.keeps_record rfl

end Machine.Invariant

/-! ### Sessions -/

variable {p : Program} {config : Config} {declares : Variable → Prop} {I : Machine → Prop}

/-- Runs of a program that declares what it may keep an invariant. -/
theorem Machine.Invariant.keeps_run (h : Machine.Invariant declares p.isGlobal? I)
    (hg : ∀ v ∈ p.globals, declares v) (hf : ∀ f ∈ p.functions, ∀ v ∈ f.vars, declares v)
    (fuel : Nat) : (Context.run ⟨p, config⟩ fuel).Keeps I := by
  have hp : p.Alike (.equalDeclaring declares) p := .refl (fun _ => rfl) (fun _ => trivial) hg hf
  have hsim := h.runSimulation config.maxCallDepth
  exact hsim.run rfl hp fuel (hsim.declareGlobals rfl (hsim.call hp fuel) hp.globals)

namespace Session

variable {input : Input} {output : Output} {journal : Option (List Event)} {s : Session}
  {m : Machine}

/-- What every run keeps holds before every run, if it holds before the first one. -/
theorem After.keeps (hruns : ∀ fuel, (Context.run ⟨p, config⟩ fuel).Keeps I)
    (h₀ : I (Session.start p config input output journal).machine)
    (hs : (Session.start p config input output journal).After s) : I s.machine := by
  induction hs with
  | start => exact h₀
  | @run s' fuel m hs hm ih =>
    have hvisits := Eval.visits_end _ _ _ hm
    rw [hs.context_eq] at hvisits
    exact hruns fuel _ _ ih hvisits

/-- What every run keeps holds throughout all runs, if it holds before the first one. -/
theorem Passes.keeps (hruns : ∀ fuel, (Context.run ⟨p, config⟩ fuel).Keeps I)
    (h₀ : I (Session.start p config input output journal).machine)
    (hm : (Session.start p config input output journal).Passes m) : I m := by
  obtain ⟨s, fuel, hs, hvisits⟩ := hm
  rw [hs.context_eq] at hvisits
  exact hruns fuel _ _ (hs.keeps hruns h₀) hvisits

/-- An invariant that holds before the first run holds before every run. -/
theorem After.invariant (h : Machine.Invariant declares p.isGlobal? I)
    (hg : ∀ v ∈ p.globals, declares v) (hf : ∀ f ∈ p.functions, ∀ v ∈ f.vars, declares v)
    (h₀ : I (Session.start p config input output journal).machine)
    (hs : (Session.start p config input output journal).After s) : I s.machine :=
  hs.keeps (h.keeps_run hg hf) h₀

/-- An invariant that holds before the first run holds throughout all runs. -/
theorem Passes.invariant (h : Machine.Invariant declares p.isGlobal? I)
    (hg : ∀ v ∈ p.globals, declares v) (hf : ∀ f ∈ p.functions, ∀ v ∈ f.vars, declares v)
    (h₀ : I (Session.start p config input output journal).machine)
    (hm : (Session.start p config input output journal).Passes m) : I m :=
  hm.keeps (h.keeps_run hg hf) h₀

end Session

end MiniC
