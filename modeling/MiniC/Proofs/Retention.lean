import MiniC.Proofs.Activations
import MiniC.Proofs.Regions

/-!
# What expressions retain

An expression may call functions, which declare variables, make regions and give them back.  It
retains the place of every variable that there is when it begins: its frame is the same afterwards,
with the same variables in it, and no global ever goes.  Regions of memory may go; but one that was
not there comes only by being made.

Main definitions:

* `MiniC.Machine.value?`: the value at a place, if there is such a place;
* `MiniC.Machine.DiffersAt`: nothing but one place differs;
* `MiniC.Machine.Retains`: the frames are the same, and there are the variables that there were;
* `MiniC.Eval.Retaining`: however a computation ends, it retains what there was.

Main results:

* `MiniC.Machine.stored_of_writePlace`: a store changes its own place;
* `MiniC.Machine.invariant_regionsSince`: no operation brings a region back that has gone;
* `MiniC.Machine.Retains.isSome_value?`: what is retained includes the place of every variable;
* `MiniC.retaining_evalExpr`: an expression retains what there was.
-/

set_option autoImplicit false

namespace MiniC

open Eval

/-! ### What stands at a place -/

/-- The place is a variable. -/
def Place.isVariable : Place → Bool
  | «local» _ | global _ => true
  | memory _ => false

/-- An assignment to a variable that has a value replaces that value only. -/
theorem Bindings.lookup?_getD_assign? {b : Bindings} {id : Nat} (v : Value)
    (h : (b.lookup? id).isSome = true) (other : Nat) :
    ((b.assign? id v).getD b).lookup? other = if other = id then some v else b.lookup? other := by
  rw [assign?_eq, if_pos h, Option.getD_some, lookup?_bind]

/-- An assignment is made just where there is a value to replace. -/
theorem Bindings.isSome_assign? (b : Bindings) (id : Nat) (v : Value) :
    (b.assign? id v).isSome = (b.lookup? id).isSome := by
  rw [assign?_eq]
  cases hsome : (b.lookup? id).isSome <;> rfl

theorem Frame.isSome_assign? (f : Frame) (id : Nat) (v : Value) :
    (f.assign? id v).isSome = (f.lookup? id).isSome := by
  rw [lookup?, ← Bindings.isSome_assign? _ id v, assign?]
  cases f.bindings.assign? id v <;> rfl

namespace Machine

variable {m m' m'' : Machine} {place : Place} {v : Value}

/-- The value at a place, if there is such a place. -/
def value? (m : Machine) : Place → Option Value
  | .local id => m.stack.current.lookup? id
  | .global id => m.globals.lookup? id
  | .memory p => (m.heap.read p).toOption

/-- In memory, there is a place wherever a region is live. -/
theorem isSome_value?_memory (m : Machine) (p : Pointer) :
    (m.value? (.memory p)).isSome = m.heap.isLive p.region := by
  rw [Heap.isLive_eq, value?, Heap.read]
  cases m.heap.regions[p.region]? <;> rfl

/-- What stands at a place is read there. -/
theorem readPlace_of_value? (h : m.value? place = some v) : m.readPlace place = .ok v := by
  cases place with
  | «local» id =>
    have hlookup : m.stack.current.lookup? id = some v := h
    rw [readPlace, hlookup, Option.getD_some]
  | global id =>
    have hlookup : m.globals.lookup? id = some v := h
    rw [readPlace, hlookup, Option.getD_some]
  | memory p =>
    have hread : (m.heap.read p).toOption = some v := h
    rw [readPlace]
    cases hp : m.heap.read p with
    | error e => rw [hp] at hread; cases hread
    | ok w => rw [hp] at hread; cases hread; rfl

/-- What is read at a place that is there stands there. -/
theorem value?_of_readPlace (h : m.readPlace place = .ok v)
    (hsome : (m.value? place).isSome = true) : m.value? place = some v := by
  obtain ⟨w, hw⟩ := Option.isSome_iff_exists.1 hsome
  rw [readPlace_of_value? hw] at h
  cases h
  exact hw

/-- To remember a value leaves what stands at places. -/
theorem value?_remember (m : Machine) (n : Nat) (v : Value) (place : Place) :
    (m.modifyFrame fun f => f.remember n v).value? place = m.value? place := by
  cases place <;> rfl

/-- Two machines differ at a place at most: no other variable of the current frame, no frame below
it, no other global and nothing else in memory differs. -/
structure DiffersAt (place : Place) (m m' : Machine) : Prop where
  callers_eq : m'.stack.callers = m.stack.callers
  value_eq : ∀ other, other ≠ place → m'.value? other = m.value? other

/-- A store changes its own place, if there is one, and nothing else.  In memory it makes sure that
there is. -/
theorem stored_of_writePlace (h : m.writePlace place v = .ok m')
    (hvariable : place.isVariable = true → (m.value? place).isSome = true) :
    (m.value? place).isSome = true ∧ m'.value? place = some v ∧ m.DiffersAt place m' := by
  have hcallers := callers_of_writePlace h
  obtain ⟨id, rfl, rfl⟩ | ⟨id, rfl, rfl⟩ | ⟨p, heap, rfl, hwrite, rfl⟩ := eq_of_writePlace h
  · have hsome : (m.stack.current.bindings.lookup? id).isSome = true := hvariable rfl
    have hlookup := Bindings.lookup?_getD_assign? v hsome
    refine ⟨hsome, (hlookup id).trans (if_pos rfl), hcallers, fun other hother => ?_⟩
    cases other with
    | «local» k => exact (hlookup k).trans (if_neg fun hk => hother (congrArg _ hk))
    | global k => rfl
    | memory q => rfl
  · have hsome : (m.globals.lookup? id).isSome = true := hvariable rfl
    have hlookup := Bindings.lookup?_getD_assign? v hsome
    refine ⟨hsome, (hlookup id).trans (if_pos rfl), hcallers, fun other hother => ?_⟩
    cases other with
    | «local» k => rfl
    | global k => exact (hlookup k).trans (if_neg fun hk => hother (congrArg _ hk))
    | memory q => rfl
  · refine ⟨?_, ?_, hcallers, fun other hother => ?_⟩
    · rw [isSome_value?_memory]
      exact (m.heap.write_isOk_iff p v).1 ⟨heap, hwrite⟩
    · show (heap.read p).toOption = some v
      rw [Heap.read_write_self hwrite]
      rfl
    · cases other with
      | «local» k => rfl
      | global k => rfl
      | memory q =>
        show (heap.read q).toOption = (m.heap.read q).toOption
        rw [Heap.read_write_of_ne hwrite fun hq => hother (congrArg _ hq)]

/-- What names a variable names one that has a value. -/
theorem isSome_value?_of_placeOfName {x : String} {link : Option Nat} {isArray : Nat → Bool}
    (h : m.placeOfName x link isArray = .ok place) : (m.value? place).isSome = true := by
  cases link with
  | none => cases h
  | some id =>
    simp only [placeOfName] at h
    split at h
    · cases h
    · split at h
      · next hlocal =>
        cases h
        exact hlocal
      · split at h
        · next hglobal =>
          cases h
          exact hglobal
        · cases h

/-! ### What is retained -/

/-- The events `es` were behind `m`, and behind `m'` there are more.  The regions on `m'` were there
on `m`, or have been made in between. -/
def RegionsSince (m : Machine) (es : List Event) (m' : Machine) : Prop :=
  ∃ new, m'.journal = some (new ++ es) ∧
    ∀ r, m'.heap.isLive r = true → m.heap.isLive r = true ∨ r ∈ made new

/-- What an expression leaves: the frames are the same, the current one with the same variables; all
globals that have values still have; and there are no other regions than those that there were and
those that have been made. -/
structure Retains (m m' : Machine) : Prop where
  callers_eq : m'.stack.callers = m.stack.callers
  current : m.stack.current.KeepsActivation m'.stack.current
  globals : ∀ id, (m.globals.lookup? id).isSome = true → (m'.globals.lookup? id).isSome = true
  regions : ∀ es, m.journal = some es → m.RegionsSince es m'

/-- What makes no region and notes nothing retains the regions that there are. -/
theorem regionsSince_of_journal_eq {es : List Event} (hes : m.journal = some es)
    (hj : m'.journal = m.journal) (hlive : ∀ r, m'.heap.isLive r = true → m.heap.isLive r = true) :
    m.RegionsSince es m' :=
  ⟨[], hj.trans hes, fun r hr => .inl (hlive r hr)⟩

theorem Retains.refl (m : Machine) : m.Retains m where
  callers_eq := rfl
  current := refl_of Frame.KeepsActivation _
  globals _ h := h
  regions _ hes := regionsSince_of_journal_eq hes rfl fun _ h => h

theorem RegionsSince.trans {es : List Event} (h : m.RegionsSince es m')
    (h' : ∀ es', m'.journal = some es' → m'.RegionsSince es' m'') : m.RegionsSince es m'' := by
  obtain ⟨new, hj, hregions⟩ := h
  obtain ⟨newer, hj', hregions'⟩ := h' _ hj
  refine ⟨newer ++ new, by rw [hj', List.append_assoc], fun r hr => ?_⟩
  rw [made, List.filterMap_append, List.mem_append]
  rcases hregions' r hr with hm' | hmade
  · exact (hregions r hm').imp_right .inr
  · exact .inr (.inl hmade)

theorem Retains.trans (h : m.Retains m') (h' : m'.Retains m'') : m.Retains m'' where
  callers_eq := h'.callers_eq.trans h.callers_eq
  current := trans_of Frame.KeepsActivation h.current h'.current
  globals id hid := h'.globals id (h.globals id hid)
  regions es hes := (h.regions es hes).trans h'.regions

/-- A variable that has a value still has one. -/
theorem Retains.isSome_value? (h : m.Retains m') (hplace : place.isVariable = true)
    (hsome : (m.value? place).isSome = true) : (m'.value? place).isSome = true := by
  cases place with
  | «local» id =>
    have hid : id ∈ m.stack.current.bindings.ids := (Bindings.isSome_lookup?_iff _ id).1 hsome
    rw [← h.current.ids_eq] at hid
    exact (Bindings.isSome_lookup?_iff _ id).2 hid
  | global id => exact h.globals id hsome
  | memory p => cases hplace

/-- No global ever goes. -/
theorem invariant_isSome_global (scope : Nat → Option Bool) (id : Nat) :
    Machine.Invariant (fun _ => True) scope fun m => (m.globals.lookup? id).isSome = true where
  note _ h := by rwa [globals_note]
  got _ h := by rwa [globals_note]
  missed _ h := by rwa [globals_note]
  printed _ h := by rwa [globals_note]
  unprinted _ h := h
  writePlace h hw := by rwa [(quiet_writePlace hw).globals]
  remember _ _ h := h
  clearCache h := h
  setReturned _ h := h
  bindVariable {m v} depth w _ h := by
    unfold Machine.bindVariable
    rw [globals_note]
    split
    · rw [Bindings.lookup?_bind]
      split
      · rfl
      · exact h
    · exact h
  allocate h ha := by rwa [(quiet_allocate ha).globals]
  release h hr := by rwa [(quiet_release hr).globals]
  storeArray _ _ h hs := by rwa [(quiet_storeArray hs).globals]
  dropOldArray id h := by rwa [(quiet_dropOldArray _ id).globals]
  enterFrame _ _ h := h
  leaveFrame h := by
    unfold Machine.leaveFrame
    split <;> exact h

/-! ### What operations do to regions -/

section RegionsSince

variable {es : List Event}

theorem RegionsSince.congr (h : m.RegionsSince es m') (hj : m''.journal = m'.journal)
    (hlive : ∀ r, m''.heap.isLive r = true → m'.heap.isLive r = true) :
    m.RegionsSince es m'' :=
  h.trans fun _ hes => regionsSince_of_journal_eq hes hj hlive

theorem RegionsSince.note (h : m.RegionsSince es m') (e : Event) :
    m.RegionsSince es (m'.note e) := by
  refine h.trans fun es' hes' => ⟨[e], journal_note hes' e, fun r hr => .inl ?_⟩
  rwa [heap_note] at hr

/-- A region that is noted may be new. -/
theorem RegionsSince.make (h : m.RegionsSince es m') {kind : RegionKind} {size : Nat} {p : Pointer}
    {heap : Heap} (ha : m'.heap.allocate kind size = .ok (p, heap)) {e : Event}
    (he : e.made? = some p.region) : m.RegionsSince es ({ m' with heap := heap }.note e) := by
  refine h.trans fun es' hes' => ?_
  have hj : ({ m' with heap := heap } : Machine).journal = some es' := hes'
  refine ⟨[e], journal_note hj e, fun r hr => ?_⟩
  rw [heap_note, Heap.isLive_eq, Heap.getElem?_allocate ha] at hr
  split at hr
  · next hr' =>
    rw [hr', ← (Heap.next_allocate ha).1]
    exact .inr (mem_made.2 ⟨e, List.mem_singleton_self e, he⟩)
  · rw [← Heap.isLive_eq] at hr
    exact .inl hr

/-- No operation brings a region back that has not been made. -/
theorem invariant_regionsSince (scope : Nat → Option Bool) (m : Machine) (es : List Event) :
    Machine.Invariant (fun _ => True) scope (m.RegionsSince es) where
  note _ h := h.note _
  got _ h := RegionsSince.note (by exact h.congr rfl fun _ hr => hr) _
  missed _ h := RegionsSince.note (by exact h.congr rfl fun _ hr => hr) _
  printed _ h := RegionsSince.note (by exact h.congr rfl fun _ hr => hr) _
  unprinted _ h := h.congr rfl fun _ hr => hr
  writePlace h hw := by
    obtain ⟨id, -, rfl⟩ | ⟨id, -, rfl⟩ | ⟨p, heap, -, hheap, rfl⟩ := eq_of_writePlace hw
    · exact h.congr rfl fun _ hr => hr
    · exact h.congr rfl fun _ hr => hr
    · exact h.congr rfl fun r hr => (Heap.isLive_write hheap r).symm.trans hr
  remember _ _ h := h.congr rfl fun _ hr => hr
  clearCache h := h.congr rfl fun _ hr => hr
  setReturned _ h := h.congr rfl fun _ hr => hr
  bindVariable _ _ _ h := by
    refine RegionsSince.note ?_ _
    split <;> exact h.congr rfl fun _ hr => hr
  allocate h ha := by
    obtain ⟨heap, hheap, rfl⟩ := eq_of_allocate ha
    exact h.make hheap rfl
  release h hr := by
    obtain ⟨size, heap, hheap, rfl⟩ := eq_of_release hr
    obtain ⟨-, rfl⟩ := Heap.kind?_of_release hheap
    refine RegionsSince.note ?_ _
    exact h.congr rfl fun _ hlive => Heap.isLive_of_drop hlive
  storeArray {_ _ v _ _ q} _ _ h hs := by
    obtain ⟨heap, hheap, rfl⟩ := eq_of_storeArray hs
    have hmade := h.make hheap (e := .stored v.id q.region) rfl
    split
    · exact hmade
    · exact hmade.congr rfl fun _ hr => hr
  dropOldArray {m} id h := by
    obtain hsame | ⟨p, ids, -, -, hdropped⟩ := m.dropOldArray_eq id
    · rwa [hsame]
    · rw [hdropped]
      exact h.congr rfl fun _ hr => Heap.isLive_of_drop hr
  enterFrame _ _ h := h.congr rfl fun _ hr => hr
  leaveFrame h := by
    unfold Machine.leaveFrame
    split
    · exact h.congr rfl fun _ hr => Heap.isLive_of_foldl_drop hr
    · exact h

end RegionsSince

end Machine

namespace Eval

variable {α β : Type}

/-- However the computation ends, the variables that there were are still there. -/
def Retaining (x : Eval α) : Prop := ∀ m m', (x.run m).machine? = some m' → m.Retains m'

theorem Retaining.bind {x : Eval α} {f : α → Eval β} (hx : x.Retaining)
    (hf : ∀ a, (f a).Retaining) : (x >>= f).Retaining := by
  intro m m' h
  obtain hm' | ⟨a, m₁, hx₁, hm'⟩ := machine?_bind h
  · exact hx m m' hm'
  · exact (hx m m₁ (congrArg Outcome.machine? hx₁)).trans (hf a m₁ m' hm')

theorem retaining_pure (a : α) : (pure a : Eval α).Retaining :=
  fun m m' h => by cases h; exact .refl m

theorem retaining_fault (loc : Location) (f : Fault) : (fault loc f : Eval α).Retaining :=
  fun m m' h => by cases h; exact .refl m

theorem retaining_readPlace (place : Place) (loc : Location) :
    (readPlace place loc).Retaining := fun m m' h => by
  rw [eq_of_query h]
  exact .refl m

theorem retaining_remember (n : Nat) (v : Value) : (remember n v).Retaining :=
  fun m m' h => by
    cases h
    exact ⟨rfl, ⟨rfl, rfl, rfl, rfl⟩, fun _ h => h, fun _ hes =>
      Machine.regionsSince_of_journal_eq hes rfl fun _ hr => hr⟩

end Eval

/-- The evaluation of an expression keeps what every operation keeps. -/
theorem Machine.Invariant.keeps_evalExpr {I : Machine → Prop} (ctx : Context) (fuel : Nat)
    (h : Machine.Invariant (fun _ => True) (ctx.env fuel).isGlobal? I) (e : Expr) :
    (evalExpr (ctx.env fuel) e).Keeps I := by
  have hsim := h.runSimulation ctx.config.maxCallDepth
  have hprogram : ctx.program.Alike (.equalDeclaring fun _ => True) ctx.program :=
    .refl (fun _ => rfl) (fun _ => trivial) (fun _ _ => trivial) fun _ _ _ _ => trivial
  exact hsim.evalExpr rfl (hsim.call hprogram fuel) e (.refl (fun _ => rfl) (fun _ => trivial) e)

/-- The evaluation of an expression retains what there is. -/
theorem retaining_evalExpr (ctx : Context) (fuel : Nat) (e : Expr) :
    (evalExpr (ctx.env fuel) e).Retaining := by
  intro m m' h
  have hisolated := isolated_evalExpr ctx fuel e m
  have hvisits := visits_end _ m m' h
  refine ⟨hisolated.callers_eq h, hisolated.current h, fun id hid => ?_, fun es hes => ?_⟩
  · have hkeeps := (Machine.invariant_isSome_global _ id).keeps_evalExpr ctx fuel e
    exact hkeeps m m' hid hvisits
  · have hkeeps := (Machine.invariant_regionsSince _ m es).keeps_evalExpr ctx fuel e
    exact hkeeps m m' (Machine.regionsSince_of_journal_eq hes rfl fun _ hr => hr) hvisits

end MiniC
