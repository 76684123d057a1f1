import MiniC.Proofs.Exchange
import MiniC.Proofs.Regions
import MiniC.Proofs.Renumbering

/-!
# Machines within others

A session leaves things behind: the storage of global arrays, blocks that were not given back, and
the values of global variables.  A machine that has such things is compared with one that does not.
The smaller machine embeds in the larger one if all that it has is there, too, with its regions
renamed; the larger one may hold more, and has room for it.

An operation that succeeds on the smaller machine succeeds on the larger one with the same result,
and afterwards the one embeds in the other again.

Main definitions:

* `MiniC.Bindings.Embeds`, `MiniC.Heap.Embeds`, `MiniC.Machine.Embeds`: one thing within another;
* `MiniC.Machine.Holds`: a place is that of a variable that has a value.

Main results:

* `MiniC.Heap.Embeds.allocate`, `MiniC.Heap.Embeds.drop`, `MiniC.Heap.Embeds.release` and others:
  what operations on the smaller heap do on the larger one;
* `MiniC.Machine.Embeds.writePlace`, `MiniC.Machine.Embeds.storeArray`,
  `MiniC.Machine.Embeds.leaveFrame` and others: the same for machines.
-/

set_option autoImplicit false

namespace MiniC

/-! ### Variables -/

/-- All variables of the first bindings are among the second ones, with renamed values. -/
def Bindings.Embeds (ρ : RegionId → RegionId) (b b' : Bindings) : Prop :=
  ∀ id v, b.lookup? id = some v → b'.lookup? id = some (rename ρ v)

namespace Bindings.Embeds

variable {ρ : RegionId → RegionId} {b b' : Bindings}

theorem bind (h : b.Embeds ρ b') (id : Nat) (v : Value) :
    (b.bind id v).Embeds ρ (b'.bind id (rename ρ v)) := by
  intro other w hw
  rw [lookup?_bind] at hw ⊢
  split at hw
  · next ho =>
    cases hw
    rw [if_pos ho]
  · next ho =>
    rw [if_neg ho]
    exact h other w hw

/-- A variable that the first bindings do not have stays where it is. -/
theorem assign (h : b.Embeds ρ b') (id : Nat) (v : Value) :
    ((b.assign? id v).getD b).Embeds ρ ((b'.assign? id (rename ρ v)).getD b') := by
  rw [assign?_eq, assign?_eq]
  cases hv : b.lookup? id with
  | some w =>
    rw [h id w hv]
    exact h.bind id v
  | none =>
    -- The second bindings may have it: then it is none of those that are compared.
    intro other w hw
    have hother : b.lookup? other = some w := hw
    split
    · have hne : other ≠ id := by
        rintro rfl
        cases hv.symm.trans hother
      rw [Option.getD_some, lookup?_bind, if_neg hne]
      exact h other w hother
    · exact h other w hother

end Bindings.Embeds

/-! ### Regions -/

/-- The regions of the heap `a` are among those of `b` under their new names.  `b` holds `extra`
bytes more, and its limit leaves room for them.  What is `owned` and not live in `a` is not live in
`b` either, so that it can be dropped in both. -/
structure Heap.Embeds (ρ : RegionId → RegionId) (extra : UInt64) (owned : List RegionId)
    (a b : Heap) : Prop where
  live {id : RegionId} {r : Region} :
    a.regions[id]? = some r → ∃ r', b.regions[ρ id]? = some r' ∧ r.Renamed ρ r'
  gone {id : RegionId} : id ∈ owned → a.regions[id]? = none → b.regions[ρ id]? = none
  next_eq : b.next = ρ a.next
  held_eq : b.held = a.held + extra
  limit_le : a.limit + extra.toNat ≤ b.limit
  word : b.limit < UInt64.size

namespace Heap.Embeds

variable {ρ : RegionId → RegionId} {extra : UInt64} {owned owned' : List RegionId} {a b a' : Heap}

/-- The same heaps with other owners of what is live. -/
theorem of_owned (h : a.Embeds ρ extra owned b)
    (ho : ∀ id ∈ owned', id ∈ owned ∨ a.regions[id]? ≠ none) : a.Embeds ρ extra owned' b :=
  { h with
    gone := fun hid hnone => by
      rcases ho _ hid with hid | hlive
      · exact h.gone hid hnone
      · exact absurd hnone hlive }

/-- As long as the smaller heap is within its limit, the bytes of the larger one are the sum. -/
theorem allocated_eq (h : a.Embeds ρ extra owned b) (ha : a.allocated ≤ a.limit) :
    b.allocated = a.allocated + extra.toNat := by
  have hlimit := h.limit_le
  have hword : b.limit < 2 ^ 64 := h.word
  unfold allocated at ha ⊢
  rw [h.held_eq, UInt64.toNat_add]
  exact Nat.mod_eq_of_lt (by omega)

theorem allocate {d : RegionId} (h : a.Embeds (shift d) extra owned b) {kind : RegionKind}
    {size : Nat} {p : Pointer} (ha : a.allocate kind size = .ok (p, a')) :
    ∃ b', b.allocate kind size = .ok (rename (shift d) p, b') ∧
      a'.Embeds (shift d) extra owned b' := by
  obtain ⟨hfits, hle⟩ := (a.allocate_isOk_iff kind size).1 ⟨_, ha⟩
  -- The larger heap holds `extra` bytes more, and its limit is higher by as much.
  have hsum := h.allocated_eq (Nat.le_trans (Nat.le_add_right _ size) hle)
  have hlimit := h.limit_le
  have hword := h.word
  obtain ⟨⟨q, b'⟩, hb⟩ := (b.allocate_isOk_iff kind size).2 (by omega)
  have haid := getElem?_allocate ha
  have hbid := getElem?_allocate hb
  obtain ⟨rfl, -, hanext, haheld, halimit⟩ := eq_of_allocate ha
  obtain ⟨rfl, -, hbnext, hbheld, hblimit⟩ := eq_of_allocate hb
  refine ⟨b', ?_, ?_⟩
  · rw [hb, h.next_eq]
    rfl
  · rw [h.next_eq] at hbid
    refine ⟨fun {id r} hid => ?_, fun {id} hid hnone => ?_, ?_, ?_, ?_, ?_⟩
    · rw [haid] at hid
      split at hid
      · next hnew =>
        cases hid
        rw [hbid, if_pos (congrArg (shift d) hnew)]
        exact ⟨_, rfl, Region.renamed_empty kind (.ofNat size)⟩
      · next hold =>
        rw [hbid, if_neg ((shift_injective d).ne hold)]
        exact h.live hid
    · rw [haid] at hnone
      split at hnone
      · cases hnone
      · next hold =>
        rw [hbid, if_neg ((shift_injective d).ne hold)]
        exact h.gone hid hnone
    · rw [hanext, hbnext, h.next_eq, shift_succ]
    · rw [haheld, hbheld, h.held_eq]
      ac_rfl
    · rw [halimit, hblimit]
      exact hlimit
    · rw [hblimit]
      exact hword

variable (hρ : Function.Injective ρ) (h : a.Embeds ρ extra owned b)

include hρ h

/-- What is not live in either heap or in both is dropped in both. -/
theorem drop {id : RegionId} (hid : a.regions[id]? = none → b.regions[ρ id]? = none) :
    (a.drop id).Embeds ρ extra owned (b.drop (ρ id)) where
  live {other r} hother := by
    rw [getElem?_drop] at hother
    split at hother
    · cases hother
    · next ho =>
      rw [getElem?_drop, if_neg (hρ.ne ho)]
      exact h.live hother
  gone {other} hmem hother := by
    rw [getElem?_drop] at hother ⊢
    split at hother
    · next ho => rw [if_pos (congrArg ρ ho)]
    · next ho =>
      rw [if_neg (hρ.ne ho)]
      exact h.gone hmem hother
  next_eq := by rw [next_drop, next_drop, h.next_eq]
  held_eq := by
    unfold Heap.drop
    cases hr : a.regions[id]? with
    | none =>
      rw [hid hr]
      exact h.held_eq
    | some r =>
      obtain ⟨r', hr', hrenamed⟩ := h.live hr
      rw [hr']
      dsimp only
      rw [h.held_eq, hrenamed.size_eq, UInt64.sub_eq_add_neg, UInt64.sub_eq_add_neg]
      ac_rfl
  limit_le := by
    rw [limit_drop, limit_drop]
    exact h.limit_le
  word := by
    rw [limit_drop]
    exact h.word

theorem foldl_drop (ids : List RegionId) (hids : ∀ id ∈ ids, id ∈ owned) :
    (ids.foldl Heap.drop a).Embeds ρ extra owned ((ids.map ρ).foldl Heap.drop b) := by
  induction ids generalizing a b with
  | nil => exact h
  | cons id ids ih =>
    have hid := h.gone (hids id List.mem_cons_self)
    exact ih (h.drop hρ hid) fun other ho => hids other (List.mem_cons_of_mem _ ho)

theorem release {p : Pointer} {size : Nat} (hr : a.release p = .ok (size, a')) :
    ∃ b', b.release (rename ρ p) = .ok (size, b') ∧ a'.Embeds ρ extra owned b' := by
  obtain ⟨r, hreg, hkind, hoffset, rfl, rfl⟩ := release_eq_ok_iff.1 hr
  obtain ⟨r', hreg', hrenamed⟩ := h.live hreg
  refine ⟨b.drop (ρ p.region), release_eq_ok_iff.2 ⟨r', hreg', ?_, hoffset, ?_, rfl⟩,
    h.drop hρ fun hnone => ?_⟩
  · rw [hrenamed.kind_eq, hkind]
  · rw [hrenamed.size_eq]
  · cases hreg.symm.trans hnone

omit hρ in
theorem read {p : Pointer} {v : Value} (hr : a.read p = .ok v) :
    b.read (rename ρ p) = .ok (rename ρ v) := by
  unfold Heap.read at hr
  split at hr
  · next r hreg =>
    cases hr
    obtain ⟨r', hreg', hrenamed⟩ := h.live hreg
    show b.read ⟨ρ p.region, p.offset⟩ = _
    unfold Heap.read
    dsimp only
    rw [hreg']
    exact congrArg Except.ok (hrenamed.get p.offset)
  · cases hr

theorem write {p : Pointer} {v : Value} (hw : a.write p v = .ok a') :
    ∃ b', b.write (rename ρ p) (rename ρ v) = .ok b' ∧ a'.Embeds ρ extra owned b' := by
  obtain ⟨r, hr⟩ := (isLive_iff a p.region).1 ((write_isOk_iff a p v).1 ⟨a', hw⟩)
  obtain ⟨r', hr', -⟩ := h.live hr
  obtain ⟨b', hb⟩ := (write_isOk_iff b (rename ρ p) (rename ρ v)).2
    ((isLive_iff b (ρ p.region)).2 ⟨r', hr'⟩)
  have haid := getElem?_write hw
  have hbid := getElem?_write hb
  rw [show (rename ρ p).region = ρ p.region from rfl] at hbid
  obtain ⟨hanext, haheld, halimit⟩ := eq_of_write hw
  obtain ⟨hbnext, hbheld, hblimit⟩ := eq_of_write hb
  refine ⟨b', hb, fun {id s} hid => ?_, fun {id} hmem hnone => ?_, ?_, ?_, ?_, ?_⟩
  · rw [haid] at hid
    split at hid
    · next hp =>
      obtain ⟨s₀, hs₀, rfl⟩ := Option.map_eq_some_iff.1 hid
      obtain ⟨s', hs', hrenamed⟩ := h.live hs₀
      rw [hbid, if_pos (congrArg ρ hp), hs']
      exact ⟨_, rfl, hrenamed.set p.offset v⟩
    · next hp =>
      rw [hbid, if_neg (hρ.ne hp)]
      exact h.live hid
  · rw [haid] at hnone
    split at hnone
    · next hp =>
      rw [hbid, if_pos (congrArg ρ hp), h.gone hmem (Option.map_eq_none_iff.1 hnone)]
      rfl
    · next hp =>
      rw [hbid, if_neg (hρ.ne hp)]
      exact h.gone hmem hnone
  · rw [hanext, hbnext, h.next_eq]
  · rw [haheld, hbheld, h.held_eq]
  · rw [halimit, hblimit]
    exact h.limit_le
  · rw [hblimit]
    exact h.word

end Heap.Embeds

/-! ### Machines -/

namespace Machine

/-- The place is no global variable without a value. -/
def Holds (m : Machine) (place : Place) : Prop :=
  ∀ id, place = .global id → (m.globals.lookup? id).isSome

/-- The first machine, with its regions moved by `d`, is a part of the second one, whose heap holds
`extra` bytes more.  The calls of both are the same but for what is remembered; input, output and
events are left open. -/
structure Embeds (d : RegionId) (extra : UInt64) (m m' : Machine) : Prop where
  heap : m.heap.Embeds (shift d) extra m.owned m'.heap
  current : m.stack.current.Renamed (shift d) m'.stack.current
  callers : List.Forall₂ (Frame.Renamed (shift d)) m.stack.callers m'.stack.callers
  globals : m.globals.Embeds (shift d) m'.globals

variable {d : RegionId} {extra : UInt64} {m m' m₁ : Machine}

/-- What is looked up as a place to assign to has a value. -/
theorem holds_of_placeOfName {name : String} {link : Option Nat} {isArray : Nat → Bool}
    {place : Place} (h : m.placeOfName name link isArray = .ok place) : m.Holds place := by
  rintro id rfl
  unfold placeOfName at h
  split at h
  · cases h
  · next id' =>
    split at h
    · cases h
    · split at h
      · cases h
      · split at h
        · next hg =>
          cases h
          exact hg
        · cases h

namespace Embeds

variable (h : m.Embeds d extra m')

include h

theorem depth_eq : m'.stack.depth = m.stack.depth := by
  rw [m.stack.depth_eq, m'.stack.depth_eq, h.callers.length_eq]

theorem lookup? (id : Nat) :
    m'.stack.current.lookup? id = rename (shift d) (m.stack.current.lookup? id) :=
  h.current.bindings id

/-- Events are left open. -/
theorem note (e e' : Event) : (m.note e).Embeds d extra (m'.note e') := by
  obtain ⟨heap, stack, globals, input, output, journal⟩ := m
  obtain ⟨heap', stack', globals', input', output', journal'⟩ := m'
  obtain ⟨hheap, hcurrent, hcallers, hglobals⟩ := h
  cases journal <;> cases journal' <;> exact ⟨hheap, hcurrent, hcallers, hglobals⟩

theorem modifyFrame {f f' : Frame → Frame}
    (hf : (f m.stack.current).Renamed (shift d) (f' m'.stack.current))
    (howned : (f m.stack.current).owned = m.stack.current.owned) :
    (m.modifyFrame f).Embeds d extra (m'.modifyFrame f') where
  heap := by
    have hmem : (m.modifyFrame f).owned = m.owned :=
      congrArg (· ++ m.stack.callers.flatMap Frame.owned) howned
    rw [hmem]
    exact h.heap
  current := hf
  callers := h.callers
  globals := h.globals

theorem readName {name : String} {link : Option Nat} {v : Value}
    (hv : m.readName name link = .ok v) : m'.readName name link = .ok (rename (shift d) v) := by
  unfold Machine.readName at hv ⊢
  split at hv
  · cases hv
  · next id =>
    rw [h.lookup? id]
    split at hv
    · next w hw =>
      cases hv
      rw [hw]
      rfl
    · next hnone =>
      rw [hnone]
      dsimp only [rename, Option.map_none]
      split at hv
      · next w hw =>
        cases hv
        rw [h.globals id v hw]
        rfl
      · cases hv

/-- A variable is in the same place. -/
theorem placeOfName {name : String} {link : Option Nat} {isArray : Nat → Bool} {place : Place}
    (hp : m.placeOfName name link isArray = .ok place) :
    m'.placeOfName name link isArray = .ok (rename (shift d) place) := by
  unfold Machine.placeOfName at hp ⊢
  split at hp
  · cases hp
  · next id =>
    have hlocal : (m'.stack.current.lookup? id).isSome = (m.stack.current.lookup? id).isSome := by
      rw [h.lookup? id]
      exact Option.isSome_map
    split at hp
    · cases hp
    · next harray =>
      rw [if_neg harray, hlocal]
      split at hp
      · next hsome =>
        cases hp
        rw [if_pos hsome]
        rfl
      · next hnone =>
        rw [if_neg hnone]
        split at hp
        · next hglobal =>
          cases hp
          obtain ⟨v, hv⟩ := Option.isSome_iff_exists.1 hglobal
          rw [h.globals id v hv]
          rfl
        · cases hp

theorem readPlace {place : Place} (hplace : m.Holds place) {v : Value}
    (hv : m.readPlace place = .ok v) :
    m'.readPlace (rename (shift d) place) = .ok (rename (shift d) v) := by
  cases place with
  | «local» id =>
    cases hv
    show Except.ok ((m'.stack.current.lookup? id).getD .uninitialized) = _
    rw [h.lookup? id, Value.getD_rename]
  | global id =>
    cases hv
    obtain ⟨w, hw⟩ := Option.isSome_iff_exists.1 (hplace id rfl)
    show Except.ok ((m'.globals.lookup? id).getD .uninitialized) = _
    rw [h.globals id w hw, hw]
    rfl
  | memory p =>
    have hread : (m.heap.read p).mapError Fault.ofHeapError = .ok v := hv
    show (m'.heap.read (rename (shift d) p)).mapError Fault.ofHeapError = _
    cases hr : m.heap.read p with
    | ok w =>
      rw [hr] at hread
      cases hread
      rw [h.heap.read hr]
      rfl
    | error e =>
      rw [hr] at hread
      cases hread

theorem writePlace {place : Place} {v : Value} (hw : m.writePlace place v = .ok m₁) :
    ∃ m₁', m'.writePlace (rename (shift d) place) (rename (shift d) v) = .ok m₁' ∧
      m₁.Embeds d extra m₁' := by
  cases place with
  | «local» id =>
    cases hw
    refine ⟨_, rfl, h.modifyFrame (h.current.assign id v) ?_⟩
    rw [Frame.getD_assign?]
  | global id =>
    cases hw
    exact ⟨_, rfl, { h with globals := h.globals.assign id v }⟩
  | memory p =>
    obtain ⟨_, hplace, -⟩ | ⟨_, hplace, -⟩ | ⟨_, heap, hplace, hheap, rfl⟩ :=
      eq_of_writePlace hw <;> cases hplace
    obtain ⟨heap', hheap', hembeds⟩ := h.heap.write (shift_injective d) hheap
    refine ⟨{ m' with heap := heap' }, ?_, { h with heap := hembeds }⟩
    show Machine.writePlace m' (.memory (rename (shift d) p)) _ = _
    unfold Machine.writePlace
    dsimp only
    rw [hheap']

theorem bindVariable (isGlobal : Bool) (id : Nat) (v : Value) :
    (m.bindVariable isGlobal id v).Embeds d extra
      (m'.bindVariable isGlobal id (rename (shift d) v)) := by
  cases isGlobal with
  | true =>
    have hbound : Machine.Embeds d extra { m with globals := m.globals.bind id v }
        { m' with globals := m'.globals.bind id (rename (shift d) v) } :=
      { h with globals := h.globals.bind id v }
    exact hbound.note _ _
  | false =>
    have hbound : Machine.Embeds d extra (m.modifyFrame fun f => f.bind id v)
        (m'.modifyFrame fun f => f.bind id (rename (shift d) v)) :=
      h.modifyFrame (h.current.bind id v) rfl
    exact hbound.note _ _

theorem allocate {size : Nat} {p : Pointer} (ha : m.allocate size = .ok (p, m₁)) :
    ∃ m₁', m'.allocate size = .ok (rename (shift d) p, m₁') ∧ m₁.Embeds d extra m₁' := by
  obtain ⟨heap, hheap, rfl⟩ := eq_of_allocate ha
  obtain ⟨heap', hheap', hembeds⟩ := h.heap.allocate hheap
  have hmade : Machine.Embeds d extra { m with heap := heap } { m' with heap := heap' } :=
    { h with heap := hembeds }
  unfold Machine.allocate
  rw [hheap']
  exact ⟨_, rfl, hmade.note _ _⟩

theorem release {p : Pointer} (hr : m.release p = .ok m₁) :
    ∃ m₁', m'.release (rename (shift d) p) = .ok m₁' ∧ m₁.Embeds d extra m₁' := by
  obtain ⟨size, heap, hheap, rfl⟩ := eq_of_release hr
  obtain ⟨heap', hheap', hembeds⟩ := h.heap.release (shift_injective d) hheap
  have hgone : Machine.Embeds d extra { m with heap := heap } { m' with heap := heap' } :=
    { h with heap := hembeds }
  unfold Machine.release
  rw [hheap']
  exact ⟨_, rfl, hgone.note _ _⟩

/-- A live region can be owned. -/
theorem own {r : RegionId} (hr : m.heap.regions[r]? ≠ none) :
    (m.modifyFrame fun f => f.own r).Embeds d extra
      (m'.modifyFrame fun f => f.own (shift d r)) where
  heap := h.heap.of_owned fun id hid => by
    have hmem : id ∈ (m.stack.current.owned ++ [r]) ++ m.stack.callers.flatMap Frame.owned := hid
    rw [List.append_assoc, List.mem_append, List.mem_append, List.mem_singleton] at hmem
    rcases hmem with hmem | rfl | hmem
    · exact .inl (List.mem_append_left _ hmem)
    · exact .inr hr
    · exact .inl (List.mem_append_right _ hmem)
  current := h.current.own r
  callers := h.callers
  globals := h.globals

theorem storeArray {isGlobal : Bool} {id size : Nat} {p : Pointer}
    (hs : m.storeArray isGlobal id size = .ok (p, m₁)) :
    ∃ m₁', m'.storeArray isGlobal id size = .ok (rename (shift d) p, m₁') ∧
      m₁.Embeds d extra m₁' := by
  obtain ⟨heap, hheap, rfl⟩ := eq_of_storeArray hs
  obtain ⟨heap', hheap', hembeds⟩ := h.heap.allocate hheap
  have hmade : Machine.Embeds d extra { m with heap := heap } { m' with heap := heap' } :=
    { h with heap := hembeds }
  have hnoted := hmade.note (.stored id p.region) (.stored id (rename (shift d) p).region)
  unfold Machine.storeArray
  rw [hheap']
  refine ⟨_, rfl, ?_⟩
  cases isGlobal with
  | true => exact hnoted
  | false =>
    obtain ⟨rfl, -⟩ := Heap.eq_of_allocate hheap
    refine hnoted.own ?_
    rw [heap_note, show (Pointer.base m.heap.next).region = m.heap.next from rfl,
      Heap.getElem?_allocate hheap, if_pos rfl]
    exact Option.some_ne_none _

/-- Old storage is owned, so it is live in both machines or in neither. -/
theorem dropOldArray (id : Nat) : (m.dropOldArray id).Embeds d extra (m'.dropOldArray id) := by
  unfold Machine.dropOldArray
  rw [h.current.pointer? id]
  cases (m.stack.current.lookup? id).bind Value.pointer? with
  | none => exact h
  | some p =>
    have hdisown : Option.Rel (Frame.Renamed (shift d)) (m.stack.current.disown? p.region)
        (m'.stack.current.disown? (rename (shift d) p).region) :=
      h.current.disown (shift_injective d) p.region
    rw [show rename (shift d) (some p) = some (rename (shift d) p) from rfl]
    dsimp only
    cases ho : m.stack.current.disown? p.region with
    | none =>
      rw [ho] at hdisown
      generalize m'.stack.current.disown? (rename (shift d) p).region = o' at hdisown
      cases hdisown
      exact h
    | some f =>
      rw [ho] at hdisown
      generalize m'.stack.current.disown? (rename (shift d) p).region = o' at hdisown
      cases hdisown with
      | some hf =>
        have hperm := Frame.perm_of_disown? ho
        have hmem : p.region ∈ m.owned := by
          rw [owned, List.mem_append, hperm.mem_iff]
          exact .inl List.mem_cons_self
        refine ⟨(h.heap.drop (shift_injective d) (h.heap.gone hmem)).of_owned fun r hr => .inl ?_,
          hf, h.callers, h.globals⟩
        have hr' : r ∈ f.owned ++ m.stack.callers.flatMap Frame.owned := hr
        rw [owned, List.mem_append, hperm.mem_iff]
        rw [List.mem_append] at hr'
        exact hr'.imp_left (List.mem_cons_of_mem _)

theorem enterFrame {f f' : Frame} (hf : f.Renamed (shift d) f') (howned : f.owned = []) :
    (m.enterFrame f).Embeds d extra (m'.enterFrame f') where
  heap := by
    have hmem : (m.enterFrame f).owned = m.owned := by
      show f.owned ++ m.owned = m.owned
      rw [howned, List.nil_append]
    rw [hmem]
    exact h.heap
  current := hf
  callers := .cons h.current h.callers
  globals := h.globals

/-- The frame that is left is the same, and what remains embeds. -/
theorem leaveFrame : m.leaveFrame.1.Renamed (shift d) m'.leaveFrame.1 ∧
    m.leaveFrame.2.Embeds d extra m'.leaveFrame.2 := by
  obtain ⟨heap, ⟨f, gs, depth, hdepth⟩, globals, input, output, journal⟩ := m
  obtain ⟨heap', ⟨f', gs', depth', hdepth'⟩, globals', input', output', journal'⟩ := m'
  obtain ⟨hheap, hcurrent, hcallers, hglobals⟩ := h
  cases hcallers with
  | nil => exact ⟨hcurrent, hheap, hcurrent, .nil, hglobals⟩
  | @cons g g' gs gs' hg hgs =>
    have howned : f'.owned = f.owned.map (shift d) := hcurrent.owned_eq
    have hdropped := hheap.foldl_drop (shift_injective d) f.owned fun id hid =>
      List.mem_append_left _ hid
    rw [← howned] at hdropped
    refine ⟨hcurrent, ?_, hg, hgs, hglobals⟩
    exact hdropped.of_owned fun id hid => .inl (List.mem_append_right _ hid)

end Embeds

end Machine

end MiniC
