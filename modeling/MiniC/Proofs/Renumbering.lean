import Mathlib.Data.List.Forall2
import MiniC.Execution
import MiniC.Proofs.Renaming

/-!
# Machines with other region numbers

The counter of regions may start anywhere.  Machines correspond if all their regions and all
pointers to them are renamed alike, and nothing else differs but what is not looked at: remembered
values and events.  Every operation takes machines that correspond to machines that correspond.
For new regions that needs a renaming that goes along with the counter: a shift.

Main definitions:

* `MiniC.shift`: the renaming that moves all numbers by the same;
* `MiniC.Region.Renamed`, `MiniC.Heap.Renamed`, `MiniC.Frame.Renamed`, `MiniC.Machine.Renamed`: what
  corresponds under a renaming.

Main results:

* `MiniC.Machine.Renamed.allocate`, `MiniC.Machine.Renamed.release`,
  `MiniC.Machine.Renamed.writePlace` and others: what operations make of machines that correspond;
* `MiniC.Machine.Renamed.leaveFrame`: so do what a call leaves and what remains.
-/

set_option autoImplicit false

namespace MiniC

/-- The numbers of regions moved by `d`, modulo 2^32 as the counter counts. -/
def shift (d : RegionId) (id : RegionId) : RegionId := id + d

theorem shift_injective (d : RegionId) : Function.Injective (shift d) :=
  fun _ _ h => (UInt32.add_left_inj d).1 h

theorem shift_succ (d id : RegionId) : shift d (id + 1) = shift d id + 1 := by
  unfold shift
  rw [UInt32.add_assoc, UInt32.add_comm 1, ← UInt32.add_assoc]

/-! ### What corresponds -/

/-- A region with renamed contents. -/
structure Region.Renamed (ρ : RegionId → RegionId) (r r' : Region) : Prop where
  kind_eq : r'.kind = r.kind
  size_eq : r'.size = r.size
  cells : ∀ offset : Int64, r'.cells[offset]? = rename ρ r.cells[offset]?

/-- A heap with renamed regions and renamed contents. -/
structure Heap.Renamed (ρ : RegionId → RegionId) (h h' : Heap) : Prop where
  regions : ∀ id, Option.Rel (Region.Renamed ρ) h.regions[id]? h'.regions[ρ id]?
  next_eq : h'.next = ρ h.next
  held_eq : h'.held = h.held
  limit_eq : h'.limit = h.limit

/-- The same variables with renamed values. -/
def Bindings.Renamed (ρ : RegionId → RegionId) (b b' : Bindings) : Prop :=
  ∀ id, b'.lookup? id = rename ρ (b.lookup? id)

/-- A frame with renamed values and renamed regions; what it remembers is left open. -/
structure Frame.Renamed (ρ : RegionId → RegionId) (f f' : Frame) : Prop where
  function_eq : f'.function = f.function
  bindings : f.bindings.Renamed ρ f'.bindings
  returned_eq : f'.returned = rename ρ f.returned
  owned_eq : f'.owned = f.owned.map ρ

/-- Machines that correspond: the second one has its regions and all pointers renamed.  Events are
left open. -/
structure Machine.Renamed (ρ : RegionId → RegionId) (m m' : Machine) : Prop where
  heap : m.heap.Renamed ρ m'.heap
  current : m.stack.current.Renamed ρ m'.stack.current
  callers : List.Forall₂ (Frame.Renamed ρ) m.stack.callers m'.stack.callers
  globals : m.globals.Renamed ρ m'.globals
  input_eq : m'.input = m.input
  output_eq : m'.output = m.output

/-- Results that correspond: both are something, or both are errors. -/
inductive RenamedResult {ε β : Type} [Renames ε] (ρ : RegionId → RegionId) (R : β → β → Prop) :
    Except ε β → Except ε β → Prop
  | ok {a b : β} : R a b → RenamedResult ρ R (.ok a) (.ok b)
  | error (e : ε) : RenamedResult ρ R (.error e) (.error (rename ρ e))

variable {ρ : RegionId → RegionId}

/-! ### Regions and the heap -/

namespace Region

theorem Renamed.get {r r' : Region} (h : r.Renamed ρ r') (offset : Int64) :
    r'.get offset = rename ρ (r.get offset) := by
  unfold Region.get
  rw [h.cells]
  cases r.cells[offset]? <;> rfl

theorem Renamed.set {r r' : Region} (h : r.Renamed ρ r') (offset : Int64) (v : Value) :
    (r.set offset v).Renamed ρ (r'.set offset (rename ρ v)) where
  kind_eq := h.kind_eq
  size_eq := h.size_eq
  cells other := by
    simp only [Region.set, Std.TreeMap.getElem?_insert]
    split
    · rfl
    · exact h.cells other

/-- A region without contents corresponds to itself. -/
theorem renamed_empty (kind : RegionKind) (size : UInt64) :
    Region.Renamed ρ ⟨kind, size, ∅⟩ ⟨kind, size, ∅⟩ where
  kind_eq := rfl
  size_eq := rfl
  cells _ := by simp [rename]

end Region

namespace Heap.Renamed

variable {a b : Heap}

/-- Allocations correspond: both find room, or none does. -/
theorem allocate {d : RegionId} (h : a.Renamed (shift d) b) (kind : RegionKind) (size : Nat) :
    RenamedResult (shift d) (fun x y => y.1 = rename (shift d) x.1 ∧ x.2.Renamed (shift d) y.2)
      (a.allocate kind size) (b.allocate kind size) := by
  unfold Heap.allocate
  rw [allocated, allocated, h.held_eq, h.limit_eq, h.next_eq]
  split
  · refine .ok ⟨rfl, fun id => ?_, ?_, rfl, rfl⟩
    · simp only [Std.TreeMap.getElem?_insert, Std.LawfulEqCmp.compare_eq_iff_eq,
        (shift_injective d).eq_iff]
      split
      · exact .some (Region.renamed_empty kind (.ofNat size))
      · exact h.regions id
    · exact (shift_succ d a.next).symm
  · exact .error (HeapError.outOfMemory size a.held.toNat a.limit)

variable (hρ : Function.Injective ρ) (h : a.Renamed ρ b)

include hρ h

/-- Dropped regions correspond. -/
theorem drop (id : RegionId) : (a.drop id).Renamed ρ (b.drop (ρ id)) where
  regions other := by
    rw [getElem?_drop, getElem?_drop]
    by_cases ho : other = id
    · rw [if_pos ho, if_pos (congrArg ρ ho)]
      exact .none
    · rw [if_neg ho, if_neg (hρ.ne ho)]
      exact h.regions other
  next_eq := by rw [next_drop, next_drop, h.next_eq]
  held_eq := by
    have hid := h.regions id
    unfold Heap.drop
    generalize a.regions[id]? = o, b.regions[ρ id]? = o' at hid
    cases hid with
    | none => exact h.held_eq
    | some hr =>
      show b.held - _ = a.held - _
      rw [h.held_eq, hr.size_eq]
  limit_eq := by rw [limit_drop, limit_drop, h.limit_eq]

theorem foldl_drop (ids : List RegionId) :
    (ids.foldl Heap.drop a).Renamed ρ ((ids.map ρ).foldl Heap.drop b) := by
  induction ids generalizing a b with
  | nil => exact h
  | cons id ids ih => exact ih (h.drop hρ id)

/-- Blocks that are given back correspond. -/
theorem release (p : Pointer) :
    RenamedResult ρ (fun x y => y.1 = x.1 ∧ x.2.Renamed ρ y.2) (a.release p)
      (b.release (rename ρ p)) := by
  have hdrop := h.drop hρ p.region
  have hp := h.regions p.region
  show RenamedResult ρ _ _ (b.release ⟨ρ p.region, p.offset⟩)
  unfold Heap.release
  dsimp only
  generalize a.regions[p.region]? = o, b.regions[ρ p.region]? = o' at hp
  cases hp with
  | none => exact .error (HeapError.notABlock p)
  | some hr =>
    dsimp only
    rw [hr.kind_eq, hr.size_eq]
    split
    · exact .ok ⟨rfl, hdrop⟩
    · exact .error (HeapError.notABlock p)

omit hρ in
/-- What is read corresponds. -/
theorem read (p : Pointer) : b.read (rename ρ p) = rename ρ (a.read p) := by
  have hp := h.regions p.region
  show b.read ⟨ρ p.region, p.offset⟩ = _
  unfold Heap.read
  dsimp only
  generalize a.regions[p.region]? = o, b.regions[ρ p.region]? = o' at hp
  cases hp with
  | none => rfl
  | some hr => exact congrArg Except.ok (hr.get p.offset)

/-- What is written corresponds. -/
theorem write (p : Pointer) (v : Value) :
    RenamedResult ρ (Heap.Renamed ρ) (a.write p v) (b.write (rename ρ p) (rename ρ v)) := by
  have hlive : b.regions.contains (ρ p.region) = a.regions.contains p.region := by
    have hp := h.regions p.region
    rw [Std.TreeMap.contains_eq_isSome_getElem?, Std.TreeMap.contains_eq_isSome_getElem?]
    generalize a.regions[p.region]? = o, b.regions[ρ p.region]? = o' at hp
    cases hp <;> rfl
  show RenamedResult ρ _ _ (b.write ⟨ρ p.region, p.offset⟩ _)
  unfold Heap.write
  dsimp only
  rw [hlive]
  split
  · refine .ok ⟨fun id => ?_, h.next_eq, h.held_eq, h.limit_eq⟩
    simp only [Std.TreeMap.getElem?_modify, Std.LawfulEqCmp.compare_eq_iff_eq, hρ.eq_iff]
    split
    · next hid =>
      subst hid
      have hp := h.regions p.region
      generalize a.regions[p.region]? = o, b.regions[ρ p.region]? = o' at hp
      cases hp with
      | none => exact .none
      | some hr => exact .some (hr.set p.offset v)
    · exact h.regions id
  · exact .error (HeapError.dangling p)

end Heap.Renamed

/-! ### Variables and frames -/

/-- Variables correspond when one of them gets a value. -/
theorem Bindings.Renamed.bind {b b' : Bindings} (h : b.Renamed ρ b') (id : Nat) (v : Value) :
    (b.bind id v).Renamed ρ (b'.bind id (rename ρ v)) := by
  intro other
  rw [lookup?_bind, lookup?_bind, h other]
  split <;> rfl

/-- Variables correspond when one of them is replaced. -/
theorem Bindings.Renamed.assign {b b' : Bindings} (h : b.Renamed ρ b') (id : Nat) (v : Value) :
    Option.Rel (Bindings.Renamed ρ) (b.assign? id v) (b'.assign? id (rename ρ v)) := by
  rw [assign?_eq, assign?_eq, h id]
  cases b.lookup? id with
  | none => exact .none
  | some w => exact .some (h.bind id v)

theorem Frame.swapRemove?_map (hρ : Function.Injective ρ) (id : RegionId) (ids : List RegionId) :
    swapRemove? (ρ id) (ids.map ρ) = (swapRemove? id ids).map (List.map ρ) := by
  induction ids with
  | nil => rfl
  | cons i ids ih =>
    rw [List.map_cons, swapRemove?, swapRemove?]
    by_cases hi : i = id
    · rw [if_pos hi, if_pos (congrArg ρ hi), List.getLast?_map]
      cases ids.getLast? with
      | none => rfl
      | some j => rw [Option.map_some, Option.map_some, List.map_cons, List.map_dropLast]
    · rw [if_neg hi, if_neg (hρ.ne hi), ih, Option.map_map, Option.map_map]
      rfl

namespace Frame.Renamed

variable {f f' : Frame} (h : f.Renamed ρ f')

include h

theorem bind (id : Nat) (v : Value) : (f.bind id v).Renamed ρ (f'.bind id (rename ρ v)) :=
  { h with bindings := h.bindings.bind id v }

theorem assign (id : Nat) (v : Value) :
    ((f.assign? id v).getD f).Renamed ρ ((f'.assign? id (rename ρ v)).getD f') := by
  have hb := h.bindings.assign id v
  unfold Frame.assign?
  generalize f.bindings.assign? id v = o, f'.bindings.assign? id (rename ρ v) = o' at hb
  cases hb with
  | none => exact h
  | some hb => exact { h with bindings := hb }

theorem own (id : RegionId) : (f.own id).Renamed ρ (f'.own (ρ id)) := by
  have howned : f'.owned ++ [ρ id] = (f.owned ++ [id]).map ρ := by
    rw [h.owned_eq, List.map_append, List.map_singleton]
  exact { h with owned_eq := howned }

theorem disown (hρ : Function.Injective ρ) (id : RegionId) :
    Option.Rel (Frame.Renamed ρ) (f.disown? id) (f'.disown? (ρ id)) := by
  unfold Frame.disown?
  rw [h.owned_eq, swapRemove?_map hρ]
  cases swapRemove? id f.owned with
  | none => exact .none
  | some ids => exact .some { h with owned_eq := rfl }

/-- A variable that holds a pointer holds one that corresponds. -/
theorem pointer? (id : Nat) : (f'.lookup? id).bind Value.pointer? =
    rename ρ ((f.lookup? id).bind Value.pointer?) := by
  have hlookup : f'.lookup? id = rename ρ (f.lookup? id) := h.bindings id
  rw [hlookup]
  cases f.lookup? id with
  | none => rfl
  | some v => exact Value.pointer?_rename v

theorem returnValue : f'.returnValue = rename ρ f.returnValue := by
  unfold Frame.returnValue
  rw [h.returned_eq]
  exact Value.getD_rename f.returned

end Frame.Renamed

/-- The frames of calls with renamed arguments correspond. -/
theorem Function.renamed_frame (f : Function) (args : List Value) :
    (f.frame args).Renamed ρ (f.frame (rename ρ args)) := by
  have hfold : ∀ (ps : List (Parameter × Value)) {g g' : Frame}, g.Renamed ρ g' →
      (ps.foldl (fun g p => g.bind p.1.id (p.2.coerce p.1.type)) g).Renamed ρ
        ((ps.map (Prod.map id (rename ρ))).foldl
          (fun g p => g.bind p.1.id (p.2.coerce p.1.type)) g') := by
    intro ps
    induction ps with
    | nil => exact fun hg => hg
    | cons p ps ih =>
      intro g g' hg
      refine ih ?_
      have hbound := hg.bind p.1.id (p.2.coerce p.1.type)
      rwa [← Value.coerce_rename] at hbound
  have hzip : f.params.zip (rename ρ args) =
      (f.params.zip args).map (Prod.map id (rename ρ)) := List.zip_map_right
  unfold Function.frame
  rw [hzip]
  exact hfold _ ⟨rfl, fun _ => rfl, rfl, rfl⟩

/-! ### Machines -/

namespace Machine.Renamed

variable {m m' : Machine} (h : m.Renamed ρ m')

include h

theorem depth_eq : m'.stack.depth = m.stack.depth := by
  rw [m.stack.depth_eq, m'.stack.depth_eq, h.callers.length_eq]

theorem lookup? (id : Nat) :
    m'.stack.current.lookup? id = rename ρ (m.stack.current.lookup? id) :=
  h.current.bindings id

theorem withHeap {a b : Heap} (hab : a.Renamed ρ b) :
    Machine.Renamed ρ { m with heap := a } { m' with heap := b } :=
  { h with heap := hab }

/-- Events are left open. -/
theorem note (e e' : Event) : (m.note e).Renamed ρ (m'.note e') := by
  obtain ⟨heap, stack, globals, input, output, journal⟩ := m
  obtain ⟨heap', stack', globals', input', output', journal'⟩ := m'
  obtain ⟨hheap, hcurrent, hcallers, hglobals, hinput, houtput⟩ := h
  cases journal <;> cases journal' <;>
    exact ⟨hheap, hcurrent, hcallers, hglobals, hinput, houtput⟩

theorem modifyFrame {f f' : Frame → Frame}
    (hf : (f m.stack.current).Renamed ρ (f' m'.stack.current)) :
    (m.modifyFrame f).Renamed ρ (m'.modifyFrame f') :=
  { h with current := hf }

theorem readName (name : String) (link : Option Nat) :
    m'.readName name link = rename ρ (m.readName name link) := by
  cases link with
  | none => rfl
  | some id =>
    unfold Machine.readName
    dsimp only
    rw [h.lookup? id]
    cases m.stack.current.lookup? id with
    | some v => rfl
    | none =>
      dsimp only [rename, Option.map_none]
      rw [h.globals id]
      cases m.globals.lookup? id <;> rfl

/-- Variables are in corresponding places, which are the same. -/
theorem placeOfName (name : String) (link : Option Nat) (isArray : Nat → Bool) :
    m'.placeOfName name link isArray = rename ρ (m.placeOfName name link isArray) := by
  cases link with
  | none => rfl
  | some id =>
    have hlocal : (m'.stack.current.lookup? id).isSome = (m.stack.current.lookup? id).isSome := by
      rw [h.lookup? id]
      exact Option.isSome_map
    have hglobal : (m'.globals.lookup? id).isSome = (m.globals.lookup? id).isSome := by
      rw [h.globals id]
      exact Option.isSome_map
    unfold Machine.placeOfName
    dsimp only
    rw [hlocal, hglobal]
    split
    · rfl
    · split
      · rfl
      · split <;> rfl

theorem readPlace (place : Place) :
    m'.readPlace (rename ρ place) = rename ρ (m.readPlace place) := by
  cases place with
  | «local» id =>
    show Except.ok ((m'.stack.current.lookup? id).getD .uninitialized) = _
    rw [h.lookup? id, Value.getD_rename]
    rfl
  | global id =>
    show Except.ok ((m'.globals.lookup? id).getD .uninitialized) = _
    rw [h.globals id, Value.getD_rename]
    rfl
  | memory p =>
    show (m'.heap.read (rename ρ p)).mapError Fault.ofHeapError =
      rename ρ ((m.heap.read p).mapError Fault.ofHeapError)
    rw [h.heap.read p]
    cases m.heap.read p with
    | ok v => rfl
    | error e => exact congrArg Except.error (Fault.ofHeapError_rename e)

theorem writePlace (hρ : Function.Injective ρ) (place : Place) (v : Value) :
    RenamedResult ρ (Machine.Renamed ρ) (m.writePlace place v)
      (m'.writePlace (rename ρ place) (rename ρ v)) := by
  cases place with
  | «local» id => exact .ok (h.modifyFrame (h.current.assign id v))
  | global id =>
    have hb := h.globals.assign id v
    refine .ok { h with globals := ?_ }
    generalize m.globals.assign? id v = o, m'.globals.assign? id (rename ρ v) = o' at hb
    cases hb with
    | none => exact h.globals
    | some hb => exact hb
  | memory p =>
    have hw := h.heap.write hρ p v
    show RenamedResult ρ _ _ (m'.writePlace (.memory (rename ρ p)) _)
    unfold Machine.writePlace
    dsimp only
    generalize m.heap.write p v = r, m'.heap.write (rename ρ p) (rename ρ v) = r' at hw
    cases hw with
    | ok hheap => exact .ok { h with heap := hheap }
    | error e =>
      dsimp only
      rw [Fault.ofHeapError_rename]
      exact .error (Fault.ofHeapError e)

theorem bindVariable (isGlobal : Bool) (id : Nat) (v : Value) :
    (m.bindVariable isGlobal id v).Renamed ρ (m'.bindVariable isGlobal id (rename ρ v)) := by
  unfold Machine.bindVariable
  refine note ?_ _ _
  cases isGlobal with
  | true => exact { h with globals := h.globals.bind id v }
  | false => exact { h with current := h.current.bind id v }

theorem release (hρ : Function.Injective ρ) (p : Pointer) :
    RenamedResult ρ (Machine.Renamed ρ) (m.release p) (m'.release (rename ρ p)) := by
  have hr := h.heap.release hρ p
  unfold Machine.release
  generalize m.heap.release p = r, m'.heap.release (rename ρ p) = r' at hr
  cases hr with
  | ok hheap => exact .ok ((h.withHeap hheap.2).note _ _)
  | error e =>
    dsimp only
    rw [Fault.ofHeapError_rename]
    exact .error (Fault.ofHeapError e)

/-- Old storage that is dropped corresponds: it is found through pointers that correspond. -/
theorem dropOldArray (hρ : Function.Injective ρ) (id : Nat) :
    (m.dropOldArray id).Renamed ρ (m'.dropOldArray id) := by
  unfold Machine.dropOldArray
  rw [h.current.pointer? id]
  cases (m.stack.current.lookup? id).bind Value.pointer? with
  | none => exact h
  | some p =>
    have hdisown : Option.Rel (Frame.Renamed ρ) (m.stack.current.disown? p.region)
        (m'.stack.current.disown? (rename ρ p).region) := h.current.disown hρ p.region
    rw [show rename ρ (some p) = some (rename ρ p) from rfl]
    dsimp only
    generalize m.stack.current.disown? p.region = o,
      m'.stack.current.disown? (rename ρ p).region = o' at hdisown
    cases hdisown with
    | none => exact h
    | some hf => exact { h with heap := h.heap.drop hρ p.region, current := hf }

theorem enterFrame {f f' : Frame} (hf : f.Renamed ρ f') :
    (m.enterFrame f).Renamed ρ (m'.enterFrame f') :=
  { h with current := hf, callers := .cons h.current h.callers }

/-- The frame that is left corresponds, and so does what remains. -/
theorem leaveFrame (hρ : Function.Injective ρ) :
    m.leaveFrame.1.Renamed ρ m'.leaveFrame.1 ∧ m.leaveFrame.2.Renamed ρ m'.leaveFrame.2 := by
  obtain ⟨heap, ⟨f, gs, depth, hdepth⟩, globals, input, output, journal⟩ := m
  obtain ⟨heap', ⟨f', gs', depth', hdepth'⟩, globals', input', output', journal'⟩ := m'
  obtain ⟨hheap, hcurrent, hcallers, hglobals, hinput, houtput⟩ := h
  cases hcallers with
  | nil => exact ⟨hcurrent, hheap, hcurrent, .nil, hglobals, hinput, houtput⟩
  | cons hg hgs =>
    refine ⟨hcurrent, ?_, hg, hgs, hglobals, hinput, houtput⟩
    have howned : f'.owned = f.owned.map ρ := hcurrent.owned_eq
    show Heap.Renamed ρ (f.owned.foldl Heap.drop heap) (f'.owned.foldl Heap.drop heap')
    rw [howned]
    exact Heap.Renamed.foldl_drop hρ hheap f.owned

variable {d : RegionId}

omit h in
theorem allocate (h : m.Renamed (shift d) m') (size : Nat) :
    RenamedResult (shift d) (fun x y => y.1 = rename (shift d) x.1 ∧ x.2.Renamed (shift d) y.2)
      (m.allocate size) (m'.allocate size) := by
  have hr := h.heap.allocate .block size
  unfold Machine.allocate
  generalize m.heap.allocate .block size = r, m'.heap.allocate .block size = r' at hr
  cases hr with
  | ok hheap => exact .ok ⟨hheap.1, (h.withHeap hheap.2).note _ _⟩
  | error e =>
    dsimp only
    rw [Fault.ofHeapError_rename]
    exact .error (Fault.ofHeapError e)

omit h in
theorem storeArray (h : m.Renamed (shift d) m') (isGlobal : Bool) (id size : Nat) :
    RenamedResult (shift d) (fun x y => y.1 = rename (shift d) x.1 ∧ x.2.Renamed (shift d) y.2)
      (m.storeArray isGlobal id size) (m'.storeArray isGlobal id size) := by
  have hr := h.heap.allocate .array size
  unfold Machine.storeArray
  generalize m.heap.allocate .array size = r, m'.heap.allocate .array size = r' at hr
  cases hr with
  | @ok x y hheap =>
    obtain ⟨p, heap⟩ := x
    obtain ⟨p', heap'⟩ := y
    obtain ⟨rfl, hheap⟩ := hheap
    have hstored := (h.withHeap hheap).note (.stored id p.region)
      (.stored id (shift d p.region))
    refine .ok ⟨rfl, ?_⟩
    cases isGlobal with
    | true => exact hstored
    | false => exact { hstored with current := hstored.current.own p.region }
  | error e =>
    dsimp only
    rw [Fault.ofHeapError_rename]
    exact .error (Fault.ofHeapError e)

end Machine.Renamed

end MiniC
