import Mathlib.Data.List.Nodup
import MiniC.Proofs.Following
import MiniC.Proofs.Invariant
import MiniC.Proofs.Isolation

/-!
# The lifetimes of regions

A region comes into being when a block is allocated or an array is declared.  A block lives until
the program gives it back.  The storage of a local array is owned by the frame of the call that
declared it, and lives until that call ends or executes the declaration again; the storage of a
global array lives on.

What has happened to regions is read off the journal of a session that is followed from its start,
and compared with the heap and the frames.  A session that nobody follows goes through the same
machines.

Main definitions:

* `MiniC.made`, `MiniC.Outstanding`: the regions made in a journal, and the blocks that were not
  given back;
* `MiniC.Tracked`: the journal, the heap and the owned regions tell the same story;
* `MiniC.Machine.Tracks`, `MiniC.Machine.AccountsFor`: what that means for a machine.

Main results:

* `MiniC.Tracked.allocate`, `MiniC.Tracked.store`, `MiniC.Tracked.release`, `MiniC.Tracked.drop`:
  operations keep it so;
* `MiniC.regions_tracked`: it is so throughout all runs of a parsed program.
-/

set_option autoImplicit false

namespace MiniC

/-! ### Journals -/

/-- The regions made in a journal, last one first. -/
def made (es : List Event) : List RegionId := es.filterMap Event.made?

/-- The block `r` was allocated, and not given back since. -/
def Outstanding (es : List Event) (r : RegionId) : Prop :=
  ∃ later size earlier, es = later ++ .allocated r size :: earlier ∧ ∀ n, .released r n ∉ later

theorem mem_made {es : List Event} {r : RegionId} :
    r ∈ made es ↔ ∃ e ∈ es, e.made? = some r := List.mem_filterMap

theorem mem_made_of_stored {es : List Event} {d : Nat} {r : RegionId} (h : .stored d r ∈ es) :
    r ∈ made es := mem_made.2 ⟨_, h, rfl⟩

theorem mem_made_of_outstanding {es : List Event} {r : RegionId} (h : Outstanding es r) :
    r ∈ made es := by
  obtain ⟨later, size, earlier, rfl, -⟩ := h
  exact mem_made.2 ⟨.allocated r size, List.mem_append_right _ List.mem_cons_self, rfl⟩

/-- One more event makes a block outstanding, or leaves it so unless it gives it back. -/
theorem outstanding_cons {e : Event} {es : List Event} {r : RegionId} :
    Outstanding (e :: es) r ↔
      (∃ size, e = .allocated r size) ∨ (∀ n, e ≠ .released r n) ∧ Outstanding es r := by
  constructor
  · rintro ⟨later, size, earlier, h, hlater⟩
    cases later with
    | nil =>
      obtain ⟨rfl, -⟩ := List.cons.inj h
      exact .inl ⟨size, rfl⟩
    | cons e' later =>
      obtain ⟨rfl, rfl⟩ := List.cons.inj h
      refine .inr ⟨fun n hn => hlater n (hn ▸ List.mem_cons_self), later, size, earlier, rfl, ?_⟩
      exact fun n hn => hlater n (List.mem_cons_of_mem _ hn)
  · rintro (⟨size, rfl⟩ | ⟨he, later, size, earlier, rfl, hlater⟩)
    · exact ⟨[], size, es, rfl, fun _ => List.not_mem_nil⟩
    · refine ⟨e :: later, size, earlier, rfl, fun n hn => ?_⟩
      rcases List.mem_cons.1 hn with hn | hn
      · exact he n hn.symm
      · exact hlater n hn

/-- Events that neither allocate a block nor give it back leave it outstanding or not. -/
theorem outstanding_cons_of_ne {e : Event} {es : List Event} {r : RegionId}
    (hnew : ∀ size, e ≠ .allocated r size) (hold : ∀ n, e ≠ .released r n) :
    Outstanding (e :: es) r ↔ Outstanding es r := by
  rw [outstanding_cons]
  constructor
  · rintro (⟨size, he⟩ | ⟨-, h⟩)
    · exact absurd he (hnew size)
    · exact h
  · exact fun h => .inr ⟨hold, h⟩

theorem stored_mem_cons_of_ne {e : Event} {es : List Event} {d : Nat} {r : RegionId}
    (he : e ≠ .stored d r) : .stored d r ∈ e :: es ↔ .stored d r ∈ es := by
  rw [List.mem_cons, or_iff_right he.symm]

/-- A region that is made once is made by one event. -/
theorem eq_of_made? {es : List Event} (hes : (made es).Nodup) {e e' : Event} {r : RegionId}
    (he : e ∈ es) (he' : e' ∈ es) (hr : e.made? = some r) (hr' : e'.made? = some r) : e = e' := by
  induction es with
  | nil => cases he
  | cons e₀ es ih =>
    have fresh : e₀.made? = some r → ∀ e ∈ es, e.made? ≠ some r := by
      intro h₀ e he hr
      rw [made, List.filterMap_cons_some h₀] at hes
      exact (List.nodup_cons.1 hes).1 (mem_made.2 ⟨e, he, hr⟩)
    have hrest : (made es).Nodup := by
      rw [made, List.filterMap_cons] at hes
      split at hes
      · exact hes
      · exact (List.nodup_cons.1 hes).2
    -- Both events are the first one, or one is and makes `r` twice, or neither is.
    rcases List.mem_cons.1 he with rfl | hes' <;> rcases List.mem_cons.1 he' with rfl | hes''
    · rfl
    · exact absurd hr' (fresh hr e' hes'')
    · exact absurd hr (fresh hr' e hes')
    · exact ih hrest hes' hes''

/-- A region that is made once is stored by one declaration. -/
theorem stored_unique {es : List Event} (hes : (made es).Nodup) {d d' : Nat} {r : RegionId}
    (h : .stored d r ∈ es) (h' : .stored d' r ∈ es) : d = d' := by
  cases eq_of_made? hes h h' rfl rfl
  rfl

/-- A region that is made once is not both an array and a block. -/
theorem not_outstanding_of_stored {es : List Event} (hes : (made es).Nodup) {d : Nat}
    {r : RegionId} (h : .stored d r ∈ es) : ¬Outstanding es r := by
  rintro ⟨later, size, earlier, rfl, -⟩
  have hmem : Event.allocated r size ∈ later ++ .allocated r size :: earlier :=
    List.mem_append_right _ List.mem_cons_self
  cases eq_of_made? hes h hmem rfl rfl

/-! ### One story -/

/-- The journal `es`, the heap `h` and the owned regions tell the same story.  `isGlobal` are the
declarations of global arrays. -/
structure Tracked (isGlobal : Nat → Prop) (es : List Event) (h : Heap) (owned : List RegionId) :
    Prop where
  /-- Regions are numbered as they are made. -/
  numbered : (made es).map UInt32.toNat = (List.range h.next.toNat).reverse
  owned_nodup : owned.Nodup
  /-- What is owned was stored by the declaration of a local array. -/
  owned_local : ∀ r ∈ owned, ∃ d, .stored d r ∈ es ∧ ¬isGlobal d
  array_iff (r : RegionId) :
    h.kind? r = some .array ↔ ∃ d, .stored d r ∈ es ∧ (isGlobal d ∨ r ∈ owned)
  block_iff (r : RegionId) : h.kind? r = some .block ↔ Outstanding es r

namespace Tracked

variable {isGlobal : Nat → Prop} {es : List Event} {h h' : Heap} {owned owned' : List RegionId}

theorem made_nodup (ht : Tracked isGlobal es h owned) : (made es).Nodup := by
  refine List.Nodup.of_map UInt32.toNat ?_
  rw [ht.numbered]
  exact List.nodup_reverse.2 List.nodup_range

/-- The next region has not been made yet. -/
theorem next_not_mem (ht : Tracked isGlobal es h owned) : h.next ∉ made es := by
  intro hmem
  have hn := List.mem_map_of_mem (f := UInt32.toNat) hmem
  rw [ht.numbered, List.mem_reverse, List.mem_range] at hn
  exact Nat.lt_irrefl _ hn

theorem length_made (ht : Tracked isGlobal es h owned) : (made es).length = h.next.toNat := by
  have hl := congrArg List.length ht.numbered
  rwa [List.length_map, List.length_reverse, List.length_range] at hl

/-- One region more is numbered as it is made, as long as the counter does not overflow. -/
theorem numbered_succ (ht : Tracked isGlobal es h owned) (hnext : h'.next = h.next + 1)
    (hfew : (made es).length + 1 < UInt32.size) :
    (h.next :: made es).map UInt32.toNat = (List.range h'.next.toNat).reverse := by
  rw [ht.length_made] at hfew
  have hsucc : h'.next.toNat = h.next.toNat + 1 := by
    rw [hnext, UInt32.toNat_add, UInt32.toNat_one, Nat.mod_eq_of_lt hfew]
  rw [hsucc, List.range_succ, List.reverse_append, List.map_cons, ht.numbered]
  rfl

/-- The same story, with the owned regions in another order. -/
theorem perm (ht : Tracked isGlobal es h owned) (hp : owned.Perm owned') :
    Tracked isGlobal es h owned' where
  numbered := ht.numbered
  owned_nodup := hp.nodup_iff.1 ht.owned_nodup
  owned_local r hr := ht.owned_local r (hp.mem_iff.2 hr)
  array_iff r := by
    rw [ht.array_iff]
    simp only [hp.mem_iff]
  block_iff := ht.block_iff

/-- The same story, with heaps that hold regions of the same kinds. -/
theorem congr_heap (ht : Tracked isGlobal es h owned) (hnext : h'.next = h.next)
    (hkind : ∀ r, h'.kind? r = h.kind? r) : Tracked isGlobal es h' owned where
  numbered := by rw [hnext]; exact ht.numbered
  owned_nodup := ht.owned_nodup
  owned_local := ht.owned_local
  array_iff r := by rw [hkind]; exact ht.array_iff r
  block_iff r := by rw [hkind]; exact ht.block_iff r

/-! ### Operations -/

/-- Other events change nothing. -/
theorem note (ht : Tracked isGlobal es h owned) {e : Event} (he : e.concernsRegion = false) :
    Tracked isGlobal (e :: es) h owned where
  numbered := by
    have hmade : e.made? = none := by
      cases e <;> first | rfl | cases he
    rw [made, List.filterMap_cons_none hmade]
    exact ht.numbered
  owned_nodup := ht.owned_nodup
  owned_local r hr :=
    have ⟨d, hd, hl⟩ := ht.owned_local r hr
    ⟨d, List.mem_cons_of_mem _ hd, hl⟩
  array_iff r := by
    have hstored : ∀ d, .stored d r ∈ e :: es ↔ .stored d r ∈ es := fun d =>
      stored_mem_cons_of_ne (by rintro rfl; cases he)
    simp only [ht.array_iff, hstored]
  block_iff r := by
    rw [ht.block_iff, outstanding_cons_of_ne]
    · rintro n rfl
      cases he
    · rintro n rfl
      cases he

/-- A new block. -/
theorem allocate (ht : Tracked isGlobal es h owned) {size : Nat} {p : Pointer}
    (ha : h.allocate .block size = .ok (p, h')) (hfew : (made es).length + 1 < UInt32.size) :
    Tracked isGlobal (.allocated p.region size :: es) h' owned := by
  obtain ⟨hp, hnext⟩ := Heap.next_allocate ha
  have hkind := Heap.kind?_allocate ha
  rw [hp]
  have hstored : ∀ d r, .stored d r ∈ Event.allocated h.next size :: es ↔ .stored d r ∈ es :=
    fun d r => stored_mem_cons_of_ne nofun
  refine ⟨ht.numbered_succ hnext hfew, ht.owned_nodup, fun r hr => ?_, fun r => ?_, fun r => ?_⟩
  · obtain ⟨d, hd, hl⟩ := ht.owned_local r hr
    exact ⟨d, List.mem_cons_of_mem _ hd, hl⟩
  · simp only [hkind, hstored]
    by_cases hr : r = h.next
    · subst hr
      rw [if_pos rfl]
      refine iff_of_false (by decide) ?_
      rintro ⟨d, hd, -⟩
      exact ht.next_not_mem (mem_made_of_stored hd)
    · rw [if_neg hr]
      exact ht.array_iff r
  · rw [hkind]
    by_cases hr : r = h.next
    · subst hr
      rw [if_pos rfl, outstanding_cons]
      exact iff_of_true rfl (.inl ⟨size, rfl⟩)
    · have hsame : Outstanding (.allocated h.next size :: es) r ↔ Outstanding es r := by
        refine outstanding_cons_of_ne (fun n hn => ?_) fun _ => nofun
        cases hn
        exact hr rfl
      rw [if_neg hr, ht.block_iff, hsame]

/-- The storage of a newly declared array, which is owned unless the array is global. -/
theorem store (ht : Tracked isGlobal es h owned) {d size : Nat} {p : Pointer}
    (ha : h.allocate .array size = .ok (p, h')) (hfew : (made es).length + 1 < UInt32.size)
    (hd : isGlobal d ∧ owned' = owned ∨ ¬isGlobal d ∧ owned' = p.region :: owned) :
    Tracked isGlobal (.stored d p.region :: es) h' owned' := by
  obtain ⟨hp, hnext⟩ := Heap.next_allocate ha
  have hkind := Heap.kind?_allocate ha
  rw [hp] at hd ⊢
  have fresh : h.next ∉ owned := fun hmem =>
    have ⟨d, hd, _⟩ := ht.owned_local _ hmem
    ht.next_not_mem (mem_made_of_stored hd)
  have hmem : ∀ r, r ≠ h.next → (r ∈ owned' ↔ r ∈ owned) := by
    intro r hr
    rcases hd with ⟨-, rfl⟩ | ⟨-, rfl⟩
    · exact Iff.rfl
    · rw [List.mem_cons, or_iff_right hr]
  -- At the new region, the two kinds of declarations differ; elsewhere nothing has changed.
  refine ⟨ht.numbered_succ hnext hfew, ?_, fun r hr => ?_, fun r => ?_, fun r => ?_⟩
  · rcases hd with ⟨-, rfl⟩ | ⟨-, rfl⟩
    · exact ht.owned_nodup
    · exact List.nodup_cons.2 ⟨fresh, ht.owned_nodup⟩
  · by_cases hn : r = h.next
    · subst hn
      rcases hd with ⟨-, rfl⟩ | ⟨hl, -⟩
      · exact absurd hr fresh
      · exact ⟨d, List.mem_cons_self, hl⟩
    · obtain ⟨d', hd', hl⟩ := ht.owned_local r ((hmem r hn).1 hr)
      exact ⟨d', List.mem_cons_of_mem _ hd', hl⟩
  · rw [hkind]
    by_cases hn : r = h.next
    · subst hn
      rw [if_pos rfl]
      refine iff_of_true rfl ⟨d, List.mem_cons_self, ?_⟩
      rcases hd with ⟨hg, -⟩ | ⟨-, rfl⟩
      · exact .inl hg
      · exact .inr List.mem_cons_self
    · have hstored : ∀ d', .stored d' r ∈ Event.stored d h.next :: es ↔ .stored d' r ∈ es := by
        refine fun d' => stored_mem_cons_of_ne fun he => ?_
        cases he
        exact hn rfl
      rw [if_neg hn, ht.array_iff]
      simp only [hstored, hmem r hn]
  · have hsame : Outstanding (.stored d h.next :: es) r ↔ Outstanding es r :=
      outstanding_cons_of_ne (fun _ => nofun) fun _ => nofun
    rw [hkind, hsame]
    by_cases hn : r = h.next
    · subst hn
      rw [if_pos rfl]
      refine iff_of_false (by decide) fun hout => ?_
      exact ht.next_not_mem (mem_made_of_outstanding hout)
    · rw [if_neg hn]
      exact ht.block_iff r

/-- A block that is given back. -/
theorem release (ht : Tracked isGlobal es h owned) {size : Nat} {p : Pointer}
    (hr : h.release p = .ok (size, h')) :
    Tracked isGlobal (.released p.region size :: es) h' owned := by
  obtain ⟨hblock, rfl⟩ := Heap.kind?_of_release hr
  have hstored : ∀ d r, .stored d r ∈ Event.released p.region size :: es ↔ .stored d r ∈ es :=
    fun d r => stored_mem_cons_of_ne nofun
  refine ⟨?_, ht.owned_nodup, fun r hr => ?_, fun r => ?_, fun r => ?_⟩
  · rw [Heap.next_drop]
    exact ht.numbered
  · obtain ⟨d, hd, hl⟩ := ht.owned_local r hr
    exact ⟨d, List.mem_cons_of_mem _ hd, hl⟩
  · -- The region held a block, so dropping it loses no array.
    simp only [Heap.kind?_drop, hstored]
    split
    next hp =>
      subst hp
      rw [← ht.array_iff, hblock]
      exact iff_of_false (by decide) (by decide)
    next => exact ht.array_iff r
  · rw [Heap.kind?_drop]
    split
    next hp =>
      subst hp
      rw [outstanding_cons]
      refine iff_of_false (by decide) ?_
      rintro (⟨n, hn⟩ | ⟨hne, -⟩)
      · cases hn
      · exact hne size rfl
    next hp =>
      have hsame : Outstanding (.released p.region size :: es) r ↔ Outstanding es r := by
        refine outstanding_cons_of_ne (fun _ => nofun) fun n hn => ?_
        cases hn
        exact hp rfl
      rw [ht.block_iff, hsame]

/-- Owned regions that are dropped. -/
theorem drop (ids : List RegionId) (ht : Tracked isGlobal es h (ids ++ owned)) :
    Tracked isGlobal es (ids.foldl Heap.drop h) owned := by
  obtain ⟨-, hnodup, hdisjoint⟩ := List.nodup_append.1 ht.owned_nodup
  refine ⟨?_, hnodup, fun r hr => ht.owned_local r (List.mem_append_right _ hr), fun r => ?_,
    fun r => ?_⟩
  · rw [Heap.next_foldl_drop]
    exact ht.numbered
  · rw [Heap.kind?_foldl_drop]
    by_cases hr : r ∈ ids
    · rw [if_pos hr]
      refine iff_of_false (by decide) ?_
      rintro ⟨d, hd, hg | ho⟩
      · -- Each region is stored by one declaration, and this one is local.
        obtain ⟨d', hd', hl⟩ := ht.owned_local r (List.mem_append_left _ hr)
        exact hl (stored_unique ht.made_nodup hd hd' ▸ hg)
      · exact hdisjoint r hr r ho rfl
    · rw [if_neg hr, ht.array_iff]
      simp only [List.mem_append, or_iff_right hr]
  · rw [Heap.kind?_foldl_drop]
    split
    next hr =>
      -- What is owned holds an array, so no block is lost.
      refine iff_of_false (by decide) fun hout => ?_
      obtain ⟨d, hd, -⟩ := ht.owned_local r (List.mem_append_left _ hr)
      have harray := (ht.array_iff r).2 ⟨d, hd, .inr (List.mem_append_left _ hr)⟩
      have hblock := (ht.block_iff r).2 hout
      rw [harray] at hblock
      cases hblock
    next => exact ht.block_iff r

/-- If nothing is owned, then the storage of all local arrays is gone. -/
theorem isGlobal_of_live (ht : Tracked isGlobal es h []) {d : Nat} {r : RegionId}
    (hd : .stored d r ∈ es) (hlive : h.kind? r ≠ none) : isGlobal d := by
  cases hkind : h.kind? r with
  | none => exact absurd hkind hlive
  | some kind =>
    cases kind with
    | array =>
      obtain ⟨d', hd', hglobal | ho⟩ := (ht.array_iff r).1 hkind
      · exact stored_unique ht.made_nodup hd' hd ▸ hglobal
      · cases ho
    | block =>
      exact absurd ((ht.block_iff r).1 hkind) (not_outstanding_of_stored ht.made_nodup hd)

end Tracked

/-! ### Machines -/

/-- A region that a frame gives up was among its regions, and the others stay. -/
theorem Frame.perm_of_disown? {f g : Frame} {id : RegionId} (h : f.disown? id = some g) :
    f.owned.Perm (id :: g.owned) := by
  obtain ⟨ids, hids, rfl⟩ := eq_of_disown? h
  exact swapRemove?_perm hids

namespace Machine

/-- The regions that frames own, those of the current one first. -/
def owned (m : Machine) : List RegionId :=
  m.stack.current.owned ++ m.stack.callers.flatMap Frame.owned

/-- The journal of the machine, its heap and its frames tell the same story, as long as fewer than
`2 ^ 32` regions have been made. -/
def Tracks (isGlobal : Nat → Prop) (m : Machine) : Prop :=
  ∃ es, m.journal = some es ∧
    ((made es).length < UInt32.size → Tracked isGlobal es m.heap m.owned)

variable {isGlobal : Nat → Prop} {m m' : Machine}

/-- What a followed machine tells of, as long as there are few regions. -/
theorem Tracks.tracked {es : List Event} (h : (m.telling es).Tracks isGlobal)
    (hfew : (made es).length < UInt32.size) : Tracked isGlobal es m.heap m.owned := by
  obtain ⟨es', hes, ht⟩ := h
  obtain rfl : es = es' := Option.some.inj hes
  exact ht hfew

/-- What leaves the journal and the kinds and owners of regions leaves the story. -/
theorem Tracks.congr (h : m.Tracks isGlobal) (hj : m'.journal = m.journal)
    (hnext : m'.heap.next = m.heap.next) (hkind : ∀ r, m'.heap.kind? r = m.heap.kind? r)
    (howned : m'.owned = m.owned) : m'.Tracks isGlobal := by
  obtain ⟨es, hes, ht⟩ := h
  exact ⟨es, hj.trans hes, fun hfew => howned ▸ (ht hfew).congr_heap hnext hkind⟩

/-- What leaves the journal and the heap and the arrays of the current frame leaves the story. -/
theorem Tracks.modifyFrame (h : m.Tracks isGlobal) {f : Frame → Frame}
    (hf : (f m.stack.current).owned = m.stack.current.owned) :
    (m.modifyFrame f).Tracks isGlobal :=
  h.congr rfl rfl (fun _ => rfl) (congrArg (· ++ m.stack.callers.flatMap Frame.owned) hf)

theorem Tracks.withInput (h : m.Tracks isGlobal) (input : Input) :
    Machine.Tracks isGlobal { m with input := input } := h.congr rfl rfl (fun _ => rfl) rfl

theorem Tracks.withOutput (h : m.Tracks isGlobal) (output : Output) :
    Machine.Tracks isGlobal { m with output := output } := h.congr rfl rfl (fun _ => rfl) rfl

theorem Tracks.note (h : m.Tracks isGlobal) {e : Event} (he : e.concernsRegion = false) :
    (m.note e).Tracks isGlobal := by
  obtain ⟨es, hes, ht⟩ := h
  refine ⟨e :: es, journal_note hes e, fun hfew => ?_⟩
  have hmade : e.made? = none := by
    cases e <;> first | rfl | cases he
  rw [made, List.filterMap_cons_none hmade] at hfew
  rw [owned, heap_note, stack_note]
  exact (ht hfew).note he

theorem Tracks.writePlace (h : m.Tracks isGlobal) {place : Place} {v : Value}
    (hw : m.writePlace place v = .ok m') : m'.Tracks isGlobal := by
  obtain ⟨id, -, rfl⟩ | ⟨id, -, rfl⟩ | ⟨p, heap, -, hheap, rfl⟩ := eq_of_writePlace hw
  · exact h.modifyFrame rfl
  · exact h.congr rfl rfl (fun _ => rfl) rfl
  · exact h.congr rfl (Heap.next_write hheap) (Heap.kind?_write hheap) rfl

theorem Tracks.allocate (h : m.Tracks isGlobal) {size : Nat} {p : Pointer}
    (ha : m.allocate size = .ok (p, m')) : m'.Tracks isGlobal := by
  obtain ⟨es, hes, ht⟩ := h
  obtain ⟨heap, hheap, rfl⟩ := eq_of_allocate ha
  have hj := journal_note (m := { m with heap := heap }) hes (.allocated p.region size)
  refine ⟨_, hj, fun hfew => ?_⟩
  have hlt : (made es).length + 1 < UInt32.size := hfew
  rw [owned, heap_note, stack_note]
  exact (ht (by omega)).allocate hheap hlt

theorem Tracks.release (h : m.Tracks isGlobal) {p : Pointer} (hr : m.release p = .ok m') :
    m'.Tracks isGlobal := by
  obtain ⟨es, hes, ht⟩ := h
  obtain ⟨size, heap, hheap, rfl⟩ := eq_of_release hr
  have hj := journal_note (m := { m with heap := heap }) hes (.released p.region size)
  refine ⟨_, hj, fun hfew => ?_⟩
  rw [owned, heap_note, stack_note]
  exact (ht hfew).release hheap

theorem Tracks.storeArray (h : m.Tracks isGlobal) {global : Bool} {d size : Nat} {p : Pointer}
    (hd : if global then isGlobal d else ¬isGlobal d)
    (hs : m.storeArray global d size = .ok (p, m')) : m'.Tracks isGlobal := by
  obtain ⟨es, hes, ht⟩ := h
  obtain ⟨heap, hheap, rfl⟩ := eq_of_storeArray hs
  have hj := journal_note (m := { m with heap := heap }) hes (.stored d p.region)
  cases global with
  | true =>
    refine ⟨_, hj, fun hfew => ?_⟩
    have hlt : (made es).length + 1 < UInt32.size := hfew
    rw [if_pos rfl, owned, heap_note, stack_note]
    exact (ht (by omega)).store hheap hlt (.inl ⟨hd, rfl⟩)
  | false =>
    refine ⟨_, hj, fun hfew => ?_⟩
    have hlt : (made es).length + 1 < UInt32.size := hfew
    have htracked := (ht (by omega)).store hheap hlt (.inr ⟨hd, rfl⟩)
    rw [if_neg Bool.false_ne_true]
    simp only [owned, Machine.modifyFrame, heap_note, stack_note, Frame.own]
    -- The frame appends the region to its own, the story puts it first.
    refine htracked.perm ?_
    rw [List.append_assoc]
    exact List.perm_middle.symm

theorem Tracks.dropOldArray (h : m.Tracks isGlobal) (id : Nat) :
    (m.dropOldArray id).Tracks isGlobal := by
  obtain hsame | ⟨p, ids, -, hids, hdropped⟩ := m.dropOldArray_eq id
  · rwa [hsame]
  · obtain ⟨es, hes, ht⟩ := h
    rw [hdropped]
    refine ⟨es, hes, fun hfew => ?_⟩
    -- The frame gives the region up in a swap, so its regions change their order.
    have hperm := (Frame.swapRemove?_perm hids).append_right (m.stack.callers.flatMap Frame.owned)
    exact ((ht hfew).perm hperm).drop [p.region]

theorem Tracks.enterFrame (h : m.Tracks isGlobal) (f : Function) (args : List Value) :
    (m.enterFrame (f.frame args)).Tracks isGlobal := by
  refine h.congr rfl rfl (fun _ => rfl) ?_
  show (f.frame args).owned ++ (m.stack.current.owned ++ m.stack.callers.flatMap Frame.owned) = _
  obtain ⟨b, hb⟩ := f.exists_frame_eq args
  rw [hb]
  rfl

theorem Tracks.leaveFrame (h : m.Tracks isGlobal) : m.leaveFrame.2.Tracks isGlobal := by
  obtain ⟨es, hes, ht⟩ := h
  obtain ⟨heap, ⟨f, callers, depth, hdepth⟩, globals, input, output, journal⟩ := m
  cases callers with
  | nil => exact ⟨es, hes, ht⟩
  | cons g callers => exact ⟨es, hes, fun hfew => (ht hfew).drop f.owned⟩

end Machine

/-! ### Programs -/

namespace Program

variable {p : Program}

/-- The declarations of global arrays. -/
def IsGlobalArray (p : Program) (d : Nat) : Prop := ∃ v ∈ p.globals, v.id = d ∧ v.type.isArray

/-- The variables that the runs of a program declare: its globals, and local ones. -/
def Declares (p : Program) (v : Variable) : Prop :=
  v ∈ p.globals ∧ p.isGlobal? v.id = some true ∨ p.isGlobal? v.id = some false

theorem not_isGlobalArray (hp : p.WellFormed) {d : Nat} (hd : p.isGlobal? d = some false) :
    ¬p.IsGlobalArray d := by
  rintro ⟨v, hv, rfl, -⟩
  rw [hp.globals v hv] at hd
  cases hd

/-- The operations of a program keep the story of its regions. -/
theorem invariant_tracks (hp : p.WellFormed) :
    Machine.Invariant p.Declares p.isGlobal? (Machine.Tracks p.IsGlobalArray) where
  note he h := h.note (Event.concernsRegion_of_isProgress he)
  got _ h := (h.withInput _).note rfl
  missed _ h := (h.withInput _).note rfl
  printed _ h := (h.withOutput _).note rfl
  unprinted _ h := h.withOutput _
  writePlace h hw := h.writePlace hw
  remember _ _ h := h.modifyFrame rfl
  clearCache h := h.modifyFrame rfl
  setReturned _ h := h.modifyFrame rfl
  bindVariable _ _ _ h := by
    unfold Machine.bindVariable
    refine Machine.Tracks.note ?_ rfl
    split
    · exact h.congr rfl rfl (fun _ => rfl) rfl
    · exact h.modifyFrame rfl
  allocate h ha := h.allocate ha
  release h hr := h.release hr
  storeArray {m m' v depth size q} hv ha h hs := by
    refine h.storeArray ?_ hs
    rcases hv with ⟨hmem, hg⟩ | hl
    · rw [hg]
      exact ⟨v, hmem, rfl, ha⟩
    · rw [hl]
      exact not_isGlobalArray hp hl
  dropOldArray id h := h.dropOldArray id
  enterFrame f args h := h.enterFrame f args
  leaveFrame h := h.leaveFrame

end Program

/-! ### Sessions -/

/-- The regions of a machine, as its journal `es` tells of them. -/
structure Machine.AccountsFor (p : Program) (es : List Event) (m : Machine) : Prop where
  /-- What frames own is live and holds an array. -/
  owned_live (r : RegionId) : r ∈ m.owned → m.heap.kind? r = some .array
  /-- No region is owned twice. -/
  owned_nodup : m.owned.Nodup
  /-- A live array is owned, unless it was stored by the declaration of a global one. -/
  array_owned (r : RegionId) : m.heap.kind? r = some .array →
    (r ∈ m.owned ↔ ¬∃ v ∈ p.globals, v.type.isArray ∧ .stored v.id r ∈ es)
  /-- The live blocks are those that were allocated and not given back since. -/
  block_iff (r : RegionId) : m.heap.kind? r = some .block ↔ Outstanding es r

theorem Tracked.accountsFor {p : Program} {es : List Event} {m : Machine}
    (ht : Tracked p.IsGlobalArray es m.heap m.owned) : m.AccountsFor p es where
  owned_live r hr := by
    obtain ⟨d, hd, -⟩ := ht.owned_local r hr
    exact (ht.array_iff r).2 ⟨d, hd, .inr hr⟩
  owned_nodup := ht.owned_nodup
  array_owned r hr := by
    constructor
    · rintro ho ⟨v, hv, ha, hs⟩
      obtain ⟨d, hd, hl⟩ := ht.owned_local r ho
      exact hl (stored_unique ht.made_nodup hd hs ▸ ⟨v, hv, rfl, ha⟩)
    · intro hnone
      obtain ⟨d, hd, ⟨v, hv, rfl, ha⟩ | ho⟩ := (ht.array_iff r).1 hr
      · exact absurd ⟨v, hv, ha, hd⟩ hnone
      · exact ho
  block_iff := ht.block_iff

/-- Before anything has happened, there is nothing to tell. -/
theorem Session.tracks_start (p : Program) (config : Config) (input : Input) (output : Output)
    (isGlobal : Nat → Prop) :
    (Session.start p config input output (some [])).machine.Tracks isGlobal := by
  refine ⟨[], rfl, fun _ => ⟨rfl, List.nodup_nil, fun r hr => absurd hr List.not_mem_nil, ?_, ?_⟩⟩
  · intro r
    rw [show (Session.start p config input output (some [])).machine.heap.kind? r = none from
      Heap.kind?_empty _ r]
    exact iff_of_false (by decide) fun ⟨_, hd, _⟩ => List.not_mem_nil hd
  · intro r
    rw [show (Session.start p config input output (some [])).machine.heap.kind? r = none from
      Heap.kind?_empty _ r]
    exact iff_of_false (by decide) fun hout => List.not_mem_nil (mem_made_of_outstanding hout)

/-- The lifetimes of regions.  A parsed program is run any number of times, on any input and within
any limits.  Every machine between two operations has events behind it, those that the session tells
of if it is followed from its start.  As long as fewer than `2 ^ 32` regions have been made in them,
the machine accounts for its regions: what frames own are live arrays, none of them owned twice; the
other live arrays were stored by declarations of globals; and the live blocks are those that were
allocated and not given back.  Hence after a run, whether it was successful or not, nothing is
owned, no storage of a local array is live, and every block that was not given back still is. -/
theorem regions_tracked {p : Program} (hp : p.Parsed) (config : Config) (input : Input)
    (output : Output) (journal : Option (List Event)) :
    let s := Session.start p config input output journal
    (∀ m, s.Passes m → (∃ es, s.followed.Passes (m.telling es)) ∧
      ∀ es, s.followed.Passes (m.telling es) → (made es).length < UInt32.size →
        m.AccountsFor p es) ∧
    (∀ t, s.After t → (∃ es, s.followed.After (t.telling es)) ∧
      ∀ es, s.followed.After (t.telling es) → (made es).length < UInt32.size →
        t.machine.owned = [] ∧
        (∀ d r, .stored d r ∈ es → t.machine.heap.kind? r ≠ none → p.IsGlobalArray d) ∧
        ∀ r, Outstanding es r → t.machine.heap.kind? r = some .block) := by
  intro s
  have hwf := hp.wellFormed
  have hg : ∀ v ∈ p.globals, p.Declares v := fun v hv => .inl ⟨hv, hwf.globals v hv⟩
  have hf : ∀ f ∈ p.functions, ∀ v ∈ f.vars, p.Declares v :=
    fun f hf v hv => .inr (hwf.locals f hf v hv)
  have hinv := Program.invariant_tracks hwf
  have h₀ := Session.tracks_start p config input output p.IsGlobalArray
  have passes : ∀ m, s.followed.Passes m → m.Tracks p.IsGlobalArray :=
    fun m hm => hm.invariant hinv hg hf h₀
  have after : ∀ t, s.followed.After t → t.machine.Tracks p.IsGlobalArray :=
    fun t ht => ht.invariant hinv hg hf h₀
  refine ⟨fun m hm => ⟨?_, fun es hes hfew => ?_⟩, fun t ht => ⟨?_, fun es hes hfew => ?_⟩⟩
  · obtain ⟨m', hm', hsame⟩ := hm.followed
    obtain ⟨es, hes, -⟩ := passes m' hm'
    exact ⟨es, hsame.eq_telling hes ▸ hm'⟩
  · exact ((passes _ hes).tracked hfew).accountsFor
  · obtain ⟨m', hm', hsame⟩ := ht.followed
    obtain ⟨es, hes, -⟩ := after _ hm'
    refine ⟨es, ?_⟩
    rw [Session.telling, ← hsame.eq_telling hes]
    exact hm'
  · obtain ⟨hcallers, hkeeps⟩ := hes.root hwf
    have howned : t.machine.owned = [] := by
      rw [Machine.owned, show t.machine.stack.callers = [] from hcallers,
        show t.machine.stack.current.owned = [] from hkeeps.owned_eq]
      rfl
    have hkept : Tracked p.IsGlobalArray es t.machine.heap [] := by
      rw [← howned]
      exact (after _ hes).tracked hfew
    exact ⟨howned, fun d r => hkept.isGlobal_of_live, fun r => (hkept.block_iff r).2⟩

/-- A program that stores a global array and, twice in one call, a local one, gives back one of two
blocks, and fails in a call. -/
def leaving : Program :=
  .ofText "int g[3]; int f() { int i; for (i = 0; i < 2; i++) { char a[4]; } return 1 / 0; }
    int main() { FREE(MALLOC(5)); MALLOC(7); return f(); }"

/-- The session after a run of the program. -/
def leavingSession : Session := (Session.start leaving {} (.ofBytes []) .unlimited (some [])).next 9

/-- The run leaves the global array and the other block, and nothing else. -/
theorem regions_tracked_left :
    (∃ es, leavingSession.machine.journal = some es ∧ (made es).length = 5 ∧
      leavingSession.machine.owned = [] ∧
      (∀ d r, .stored d r ∈ es → leavingSession.machine.heap.kind? r ≠ none →
        leaving.IsGlobalArray d) ∧
      ∀ r, Outstanding es r → leavingSession.machine.heap.kind? r = some .block) ∧
    (List.range 5).map (fun r => leavingSession.machine.heap.kind? (.ofNat r)) =
      [some .array, none, some .block, none, none] := by
  have hparsed : leaving.Parsed := Program.parsed_ofText _
  have hafter :
      (Session.start leaving {} (.ofBytes []) .unlimited (some [])).After leavingSession :=
    Session.After.start.next 9
  have hlen : leavingSession.machine.journal.map (fun es => (made es).length) = some 5 := by
    decide +kernel
  obtain ⟨es, hes, hfive⟩ := Option.map_eq_some_iff.1 hlen
  have hfew : (made es).length < UInt32.size := by
    rw [hfive]
    decide
  have htracked := (regions_tracked hparsed {} (.ofBytes []) .unlimited (some [])).2 leavingSession
    hafter
  have htelling : leavingSession.telling es = leavingSession := Session.telling_eq_self hes
  exact ⟨⟨es, hes, hfive, htracked.2 es (htelling.symm ▸ hafter) hfew⟩, by decide +kernel⟩

end MiniC
