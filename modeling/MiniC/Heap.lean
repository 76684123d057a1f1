import MiniC.Value
import Std.Data.TreeMap

/-!
# The heap

Memory is a set of regions.  A region holds a value at every byte offset, negative ones and those
past its size included; what was never written is uninitialized.  A region is a block, which a
program allocates and releases, or the storage of an array, which goes with its owner.  The bytes
of all live regions together stay within a limit.

Regions are numbered in the order in which they are made, by a counter of 32 bits, and their bytes
are counted in 64 bits.  Both counters wrap; only the sum that is compared with the limit is checked
to fit.

Main definitions:

* `MiniC.Heap`, `MiniC.Heap.empty`: regions, and a heap without any;
* `MiniC.Heap.allocate`: a new region, if the limit allows it;
* `MiniC.Heap.release`, `MiniC.Heap.drop`: blocks given back, and regions dropped;
* `MiniC.Heap.read`, `MiniC.Heap.write`: what a pointer refers to;
* `MiniC.Heap.blocks`, `MiniC.Heap.kind?`: the live blocks, and what regions are for.

Main results:

* `MiniC.Heap.getElem?_allocate`, `MiniC.Heap.getElem?_drop`, `MiniC.Heap.getElem?_write`: what
  operations do to each region;
* `MiniC.Heap.read_write_self`, `MiniC.Heap.read_write_of_ne`: writing changes what is written to,
  and nothing else;
* `MiniC.Heap.isLive_write`: writing creates and destroys no region;
* `MiniC.Heap.not_isLive_drop`: a dropped region is not live;
* `MiniC.Heap.kind?_allocate`, `MiniC.Heap.kind?_drop`, `MiniC.Heap.kind?_write`: what operations do
  to the regions of each kind.
-/

set_option autoImplicit false

namespace MiniC

/-- What a region is for. -/
inductive RegionKind where
  | block
  | array
deriving DecidableEq, Repr, Inhabited

/-- A live region: what it is for, its size in bytes, and the values written to it so far. -/
structure Region where
  kind : RegionKind
  size : UInt64
  cells : Std.TreeMap Int64 Value

/-- The value at an offset of a region. -/
def Region.get (r : Region) (offset : Int64) : Value := r.cells[offset]?.getD .uninitialized

/-- The region with the value at an offset replaced. -/
def Region.set (r : Region) (offset : Int64) (v : Value) : Region :=
  { r with cells := r.cells.insert offset v }

@[simp] theorem Region.get_set_self (r : Region) (offset : Int64) (v : Value) :
    (r.set offset v).get offset = v := by
  simp [Region.get, Region.set]

theorem Region.get_set_of_ne (r : Region) {offset other : Int64} (v : Value)
    (h : other ≠ offset) : (r.set offset v).get other = r.get other := by
  simp [Region.get, Region.set, Std.TreeMap.getElem?_insert, Ne.symm h]

/-- Why the heap refuses an operation. -/
inductive HeapError where
  | outOfMemory (requested allocated limit : Nat)
  /-- The pointer is not the start of a live block. -/
  | notABlock (p : Pointer)
  /-- The pointer refers to no live region. -/
  | dangling (p : Pointer)
deriving DecidableEq, Repr, Inhabited

/-- The text of an error. -/
def HeapError.message : HeapError → String
  | outOfMemory requested allocated limit =>
    s!"out of memory: requested {requested} bytes, {allocated} already allocated, " ++
      s!"limit is {limit}"
  | notABlock p => p.text ++ " is not the base of a live heap block"
  | dangling p => p.text ++ " points into released or unknown storage"

/-- A heap: its live regions, the number of the next one, the bytes that all live regions hold
together, and the most that these may be. -/
structure Heap where
  regions : Std.TreeMap RegionId Region
  next : RegionId
  held : UInt64
  limit : Nat

namespace Heap

/-- The limit in bytes where none is given. -/
def defaultLimit : Nat := 16 * 1024 * 1024

/-- The heap without regions. -/
def empty (limit : Nat) : Heap := ⟨∅, 0, 0, limit⟩

/-- The bytes of all live regions together. -/
def allocated (h : Heap) : Nat := h.held.toNat

/-- The sum of two numbers of bytes, unless it is too large for 64 bits. -/
def sum? (held : UInt64) (size : Nat) : Option Nat :=
  let total := held.toNat + size
  if total < UInt64.size then some total else none

/-- Makes a region of `size` bytes and yields a pointer to its start. -/
def allocate (h : Heap) (kind : RegionKind) (size : Nat) : Except HeapError (Pointer × Heap) :=
  if (sum? h.held size).any fun total => total ≤ h.limit then
    .ok (.base h.next,
      { h with
        regions := h.regions.insert h.next ⟨kind, .ofNat size, ∅⟩
        next := h.next + 1
        held := h.held + .ofNat size })
  else .error (.outOfMemory size h.allocated h.limit)

/-- The heap without a region, if that is live. -/
def drop (h : Heap) (id : RegionId) : Heap :=
  match h.regions[id]? with
  | some r => { h with regions := h.regions.erase id, held := h.held - r.size }
  | none => h

/-- Gives back the block that `p` is the start of, and yields its size. -/
def release (h : Heap) (p : Pointer) : Except HeapError (Nat × Heap) :=
  match h.regions[p.region]? with
  | some r =>
    if r.kind = .block ∧ p.offset = 0 then .ok (r.size.toNat, h.drop p.region)
    else .error (.notABlock p)
  | none => .error (.notABlock p)

/-- The value that `p` refers to. -/
def read (h : Heap) (p : Pointer) : Except HeapError Value :=
  match h.regions[p.region]? with
  | some r => .ok (r.get p.offset)
  | none => .error (.dangling p)

/-- Replaces the value that `p` refers to. -/
def write (h : Heap) (p : Pointer) (v : Value) : Except HeapError Heap :=
  if h.regions.contains p.region then
    .ok { h with regions := h.regions.modify p.region fun r => r.set p.offset v }
  else .error (.dangling p)

/-- The region is live. -/
def isLive (h : Heap) (id : RegionId) : Bool := h.regions.contains id

/-- The live blocks and their sizes, in the order of their numbers. -/
def blocks (h : Heap) : List (Pointer × Nat) :=
  h.regions.toList.filterMap fun (id, r) =>
    match r.kind with
    | .block => some (.base id, r.size.toNat)
    | .array => none

/-- The number of live blocks. -/
def blockCount (h : Heap) : Nat := h.blocks.length

/-! ### Sums within a limit -/

/-- A sum is allowed if it fits 64 bits and is within the limit. -/
theorem any_sum?_iff (held : UInt64) (size limit : Nat) :
    ((sum? held size).any fun total => total ≤ limit) = true ↔
      held.toNat + size < UInt64.size ∧ held.toNat + size ≤ limit := by
  unfold sum?
  by_cases hfits : held.toNat + size < UInt64.size
  · simp [hfits]
  · simp [hfits]

/-- An allocation succeeds exactly if the sum is allowed. -/
theorem allocate_isOk_iff (h : Heap) (kind : RegionKind) (size : Nat) :
    (∃ r, h.allocate kind size = .ok r) ↔
      h.allocated + size < UInt64.size ∧ h.allocated + size ≤ h.limit := by
  rw [allocated, ← any_sum?_iff]
  unfold allocate
  split <;> simp [*]

/-- The size of what is allocated fits 64 bits. -/
theorem toNat_size_of_allocate {h h' : Heap} {kind : RegionKind} {size : Nat} {p : Pointer}
    (ha : h.allocate kind size = .ok (p, h')) : (UInt64.ofNat size).toNat = size := by
  obtain ⟨hword, -⟩ := (h.allocate_isOk_iff kind size).1 ⟨_, ha⟩
  exact UInt64.toNat_ofNat_of_lt' (Nat.lt_of_le_of_lt (Nat.le_add_left size h.allocated) hword)

/-! ### Regions by number -/

/-- An allocation makes the region whose number is next, at the end of the others. -/
theorem eq_of_allocate {h h' : Heap} {kind : RegionKind} {size : Nat} {p : Pointer}
    (ha : h.allocate kind size = .ok (p, h')) :
    p = .base h.next ∧ h'.regions = h.regions.insert h.next ⟨kind, .ofNat size, ∅⟩ ∧
      h'.next = h.next + 1 ∧ h'.held = h.held + .ofNat size ∧ h'.limit = h.limit := by
  unfold allocate at ha
  split at ha
  · cases ha
    exact ⟨rfl, rfl, rfl, rfl, rfl⟩
  · cases ha

/-- An allocation changes no region but the one whose number is next. -/
theorem getElem?_allocate {h h' : Heap} {kind : RegionKind} {size : Nat} {p : Pointer}
    (ha : h.allocate kind size = .ok (p, h')) (id : RegionId) :
    h'.regions[id]? = if id = h.next then some ⟨kind, .ofNat size, ∅⟩ else h.regions[id]? := by
  rw [(eq_of_allocate ha).2.1]
  by_cases hid : id = h.next
  · simp [hid]
  · simp [Std.TreeMap.getElem?_insert, hid, Ne.symm hid]

/-- Dropping a region leaves the others. -/
theorem getElem?_drop (h : Heap) (id other : RegionId) :
    (h.drop id).regions[other]? = if other = id then none else h.regions[other]? := by
  unfold drop
  by_cases ho : other = id
  · subst ho
    rw [if_pos rfl]
    split
    · simp
    · next hn => exact hn
  · rw [if_neg ho]
    split
    · simp [Std.TreeMap.getElem?_erase, Ne.symm ho]
    · rfl

/-- Writing sets one value of one region. -/
theorem getElem?_write {h h' : Heap} {p : Pointer} {v : Value} (hw : h.write p v = .ok h')
    (id : RegionId) : h'.regions[id]? =
      if id = p.region then (h.regions[id]?).map fun r => r.set p.offset v
      else h.regions[id]? := by
  unfold write at hw
  split at hw
  · cases hw
    simp only [Std.TreeMap.getElem?_modify, Std.LawfulEqCmp.compare_eq_iff_eq]
    by_cases hid : id = p.region
    · rw [if_pos hid.symm, if_pos hid, hid]
    · rw [if_neg (Ne.symm hid), if_neg hid]
  · cases hw

/-- Only blocks are given back, by their start, and giving one back drops it. -/
theorem release_eq_ok_iff {h h' : Heap} {p : Pointer} {size : Nat} :
    h.release p = .ok (size, h') ↔ ∃ r, h.regions[p.region]? = some r ∧ r.kind = .block ∧
      p.offset = 0 ∧ size = r.size.toNat ∧ h' = h.drop p.region := by
  unfold release
  constructor
  · intro hr
    split at hr
    · next r hreg =>
      split at hr
      · next hk =>
        cases hr
        exact ⟨r, hreg, hk.1, hk.2, rfl, rfl⟩
      · cases hr
    · cases hr
  · rintro ⟨r, hreg, hk, ho, rfl, rfl⟩
    rw [hreg]
    exact if_pos ⟨hk, ho⟩

/-! ### Reading and writing -/

theorem isLive_eq (h : Heap) (id : RegionId) : h.isLive id = (h.regions[id]?).isSome :=
  Std.TreeMap.contains_eq_isSome_getElem?

theorem isLive_iff (h : Heap) (id : RegionId) :
    h.isLive id = true ↔ ∃ r, h.regions[id]? = some r := by
  rw [isLive_eq, Option.isSome_iff_exists]

/-- Reading succeeds exactly in live regions. -/
theorem read_isOk_iff (h : Heap) (p : Pointer) :
    (∃ v, h.read p = .ok v) ↔ h.isLive p.region = true := by
  rw [isLive_iff, read]
  cases h.regions[p.region]? <;> simp

/-- Writing succeeds exactly in live regions. -/
theorem write_isOk_iff (h : Heap) (p : Pointer) (v : Value) :
    (∃ h', h.write p v = .ok h') ↔ h.isLive p.region = true := by
  unfold write isLive
  split <;> simp [*]

/-- Writing creates and destroys no region. -/
theorem isLive_write {h h' : Heap} {p : Pointer} {v : Value} (hw : h.write p v = .ok h')
    (id : RegionId) : h'.isLive id = h.isLive id := by
  rw [isLive_eq, isLive_eq, getElem?_write hw]
  split
  · exact Option.isSome_map
  · rfl

/-- What was written is read. -/
theorem read_write_self {h h' : Heap} {p : Pointer} {v : Value} (hw : h.write p v = .ok h') :
    h'.read p = .ok v := by
  obtain ⟨r, hr⟩ := (isLive_iff h p.region).1 ((write_isOk_iff h p v).1 ⟨h', hw⟩)
  rw [read, getElem?_write hw, if_pos rfl, hr]
  exact congrArg Except.ok (Region.get_set_self r p.offset v)

/-- What is elsewhere is read as before. -/
theorem read_write_of_ne {h h' : Heap} {p q : Pointer} {v : Value} (hw : h.write p v = .ok h')
    (hq : q ≠ p) : h'.read q = h.read q := by
  rw [read, read, getElem?_write hw]
  by_cases hr : q.region = p.region
  · have ho : q.offset ≠ p.offset := by
      intro ho
      apply hq
      cases p; cases q
      simp_all
    rw [if_pos hr]
    cases h.regions[q.region]? with
    | none => rfl
    | some r => exact congrArg Except.ok (Region.get_set_of_ne r v ho)
  · rw [if_neg hr]

/-! ### Regions that come and go -/

/-- A dropped region is not live. -/
@[simp] theorem not_isLive_drop (h : Heap) (id : RegionId) : (h.drop id).isLive id = false := by
  rw [isLive_eq, getElem?_drop, if_pos rfl, Option.isSome_none]

/-- Other regions stay. -/
theorem isLive_drop_of_ne (h : Heap) {id other : RegionId} (hne : other ≠ id) :
    (h.drop id).isLive other = h.isLive other := by
  rw [isLive_eq, isLive_eq, getElem?_drop, if_neg hne]

/-- Dropping a region makes none live. -/
theorem isLive_of_drop {h : Heap} {id other : RegionId} (hlive : (h.drop id).isLive other = true) :
    h.isLive other = true := by
  by_cases ho : other = id
  · rw [ho, not_isLive_drop] at hlive
    cases hlive
  · rwa [isLive_drop_of_ne h ho] at hlive

/-- Nor does dropping several. -/
theorem isLive_of_foldl_drop {ids : List RegionId} {h : Heap} {id : RegionId}
    (hlive : (ids.foldl drop h).isLive id = true) : h.isLive id = true := by
  induction ids generalizing h with
  | nil => exact hlive
  | cons i ids ih => exact isLive_of_drop (ih hlive)

/-! ### Kinds -/

/-- What a region is for, if it is live. -/
def kind? (h : Heap) (id : RegionId) : Option RegionKind := (h.regions[id]?).map Region.kind

@[simp] theorem kind?_empty (limit : Nat) (id : RegionId) : (empty limit).kind? id = none := by
  simp [kind?, empty]

/-- A new region is of its kind, and bears the number that was next. -/
theorem kind?_allocate {h h' : Heap} {kind : RegionKind} {size : Nat} {p : Pointer}
    (ha : h.allocate kind size = .ok (p, h')) (id : RegionId) :
    h'.kind? id = if id = h.next then some kind else h.kind? id := by
  rw [kind?, kind?, getElem?_allocate ha]
  split <;> rfl

theorem next_allocate {h h' : Heap} {kind : RegionKind} {size : Nat} {p : Pointer}
    (ha : h.allocate kind size = .ok (p, h')) : p.region = h.next ∧ h'.next = h.next + 1 := by
  obtain ⟨rfl, -, hnext, -, -⟩ := eq_of_allocate ha
  exact ⟨rfl, hnext⟩

/-- A dropped region is of no kind. -/
theorem kind?_drop (h : Heap) (id other : RegionId) :
    (h.drop id).kind? other = if other = id then none else h.kind? other := by
  rw [kind?, kind?, getElem?_drop]
  split <;> rfl

@[simp] theorem next_drop (h : Heap) (id : RegionId) : (h.drop id).next = h.next := by
  unfold drop
  split <;> rfl

@[simp] theorem limit_drop (h : Heap) (id : RegionId) : (h.drop id).limit = h.limit := by
  unfold drop
  split <;> rfl

theorem kind?_foldl_drop (h : Heap) (ids : List RegionId) (id : RegionId) :
    (ids.foldl drop h).kind? id = if id ∈ ids then none else h.kind? id := by
  induction ids generalizing h with
  | nil => simp
  | cons i ids ih =>
    rw [List.foldl_cons, ih, kind?_drop]
    by_cases hi : id = i <;> by_cases hids : id ∈ ids <;> simp [hi, hids]

@[simp] theorem next_foldl_drop (h : Heap) (ids : List RegionId) :
    (ids.foldl drop h).next = h.next := by
  induction ids generalizing h with
  | nil => rfl
  | cons i ids ih => rw [List.foldl_cons, ih, next_drop]

/-- Only blocks are given back, and giving one back drops it. -/
theorem kind?_of_release {h h' : Heap} {p : Pointer} {size : Nat}
    (hr : h.release p = .ok (size, h')) :
    h.kind? p.region = some .block ∧ h' = h.drop p.region := by
  obtain ⟨r, hreg, hk, -, -, rfl⟩ := release_eq_ok_iff.1 hr
  rw [kind?, hreg, Option.map_some, hk]
  exact ⟨rfl, rfl⟩

/-- Writing does not change what regions are for. -/
theorem kind?_write {h h' : Heap} {p : Pointer} {v : Value} (hw : h.write p v = .ok h')
    (id : RegionId) : h'.kind? id = h.kind? id := by
  rw [kind?, kind?, getElem?_write hw]
  split
  · rw [Option.map_map]
    rfl
  · rfl

theorem eq_of_write {h h' : Heap} {p : Pointer} {v : Value} (hw : h.write p v = .ok h') :
    h'.next = h.next ∧ h'.held = h.held ∧ h'.limit = h.limit := by
  unfold write at hw
  split at hw
  · cases hw
    exact ⟨rfl, rfl, rfl⟩
  · cases hw

theorem next_write {h h' : Heap} {p : Pointer} {v : Value} (hw : h.write p v = .ok h') :
    h'.next = h.next := (eq_of_write hw).1

end Heap

end MiniC
