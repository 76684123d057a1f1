import MiniC.Proofs.Memory

/-!
# The accounts of a heap

A heap does not add up the sizes of its regions when it is asked for memory: it keeps a running
number of bytes in 64 bits, to which allocations add and from which regions that end are taken off.
This number is the sum of the sizes after every history that makes fewer than `2 ^ 32` regions, so
the limit means what it says, no addition wraps, and no more is taken off than was added.

Main definitions:

* `MiniC.Heap.listing`: the live regions of a heap, in the order of their numbers;
* `MiniC.Heap.Balanced`: the bytes held are those of the regions that stand;
* `MiniC.Heap.Accounts`: what a heap says about its regions, told by the past.

Main results:

* `MiniC.Heap.Described.listing_eq`: the live regions are those that stand, in the order in which
  they were made;
* `MiniC.Heap.Balanced.step`: every step keeps a heap balanced;
* `MiniC.Heap.accounts_steps`: what a heap says about its regions after every history.
-/

set_option autoImplicit false

namespace MiniC.Heap

/-! ### Sizes that are added up -/

/-- The bytes of some regions together. -/
def bytes : List Allotment → Nat
  | [] => 0
  | a :: as => a.size + bytes as

@[simp] theorem bytes_nil : bytes [] = 0 := rfl

@[simp] theorem bytes_cons (a : Allotment) (as : List Allotment) :
    bytes (a :: as) = a.size + bytes as := rfl

@[simp] theorem bytes_append (as bs : List Allotment) : bytes (as ++ bs) = bytes as + bytes bs := by
  induction as with
  | nil => simp
  | cons a as ih => rw [List.cons_append, bytes_cons, bytes_cons, ih, Nat.add_assoc]

theorem size_le_bytes {as : List Allotment} {a : Allotment} (ha : a ∈ as) : a.size ≤ bytes as := by
  induction as with
  | nil => exact absurd ha List.not_mem_nil
  | cons b as ih =>
    rw [bytes_cons]
    rcases List.mem_cons.1 ha with rfl | ha
    · omega
    · have hrest := ih ha
      omega

/-- Leaving out one region leaves the bytes of the others. -/
theorem bytes_filter_ne {as : List Allotment} {a : Allotment} (ha : a ∈ as)
    (hids : as.Pairwise fun a b => a.id ≠ b.id) :
    bytes (as.filter fun b => b.id ≠ a.id) + a.size = bytes as := by
  induction as with
  | nil => exact absurd ha List.not_mem_nil
  | cons b as ih =>
    obtain ⟨hfirst, hrest⟩ := List.pairwise_cons.1 hids
    rcases List.mem_cons.1 ha with rfl | ha
    · have hothers : as.filter (fun b => b.id ≠ a.id) = as := by
        rw [List.filter_eq_self]
        intro b hb
        exact decide_eq_true (hfirst b hb).symm
      rw [List.filter_cons_of_neg (by simp), hothers, bytes_cons]
      omega
    · rw [List.filter_cons_of_pos (by simpa using hfirst a ha), bytes_cons, bytes_cons]
      have hothers := ih ha hrest
      omega

/-! ### The live regions -/

/-- The live regions, each as it was made, in the order of their numbers. -/
def listing (h : Heap) : List Allotment :=
  h.regions.toList.map fun x => ⟨x.1, x.2.kind, x.2.size.toNat⟩

theorem mem_listing {h : Heap} {a : Allotment} : a ∈ h.listing ↔
    ∃ r, h.regions[a.id]? = some r ∧ r.kind = a.kind ∧ r.size.toNat = a.size := by
  rw [listing, List.mem_map]
  constructor
  · rintro ⟨⟨id, r⟩, hr, rfl⟩
    exact ⟨r, Std.TreeMap.mem_toList_iff_getElem?_eq_some.1 hr, rfl, rfl⟩
  · rintro ⟨r, hr, hkind, hsize⟩
    refine ⟨(a.id, r), Std.TreeMap.mem_toList_iff_getElem?_eq_some.2 hr, ?_⟩
    show Allotment.mk a.id r.kind r.size.toNat = a
    rw [hkind, hsize]

theorem listing_increasing (h : Heap) : h.listing.Pairwise fun a b => a.id < b.id := by
  rw [listing, List.pairwise_map]
  refine Std.TreeMap.ordered_keys_toList.imp ?_
  intro x y hxy
  exact Std.compare_eq_lt.1 hxy

/-- The blocks among the live regions. -/
theorem blocks_eq (h : Heap) : h.blocks =
    (h.listing.filter fun a => a.kind = .block).map fun a => (.base a.id, a.size) := by
  rw [blocks, listing]
  induction h.regions.toList with
  | nil => rfl
  | cons x xs ih =>
    obtain ⟨id, kind, size, cells⟩ := x
    cases kind with
    | block => simpa using ih
    | array => simpa using ih

/-- The live regions are those that stand, in the order in which they were made. -/
theorem Described.listing_eq {past : List Step} {h : Heap} (hd : Described past h)
    (hids : (made past).Pairwise fun a b => a.id < b.id) : h.listing = standing past := by
  have hstanding : (standing past).Pairwise fun a b => a.id < b.id :=
    hids.sublist (standing_sublist_made past)
  have hmem : ∀ a, a ∈ h.listing ↔ a ∈ standing past := by
    intro a
    rw [mem_listing, mem_standing]
    constructor
    · rintro ⟨r, hr, hkind, hsize⟩
      obtain ⟨b, since, hid, hs, hholds⟩ := hd.stands a.id r hr
      have hab : b = a := by
        obtain ⟨id, kind, size⟩ := a
        obtain ⟨id', kind', size'⟩ := b
        have hkinds := hholds.kind_eq.symm.trans hkind
        have hsizes := hholds.size_eq.symm.trans hsize
        simp_all
      exact ⟨since, hab ▸ hs⟩
    · rintro ⟨since, hs⟩
      obtain ⟨r, hr, hholds⟩ := hd.live a since hs
      exact ⟨r, hr, hholds.kind_eq, hholds.size_eq⟩
  have hne : ∀ {a b : Allotment}, a.id < b.id → a ≠ b := by
    rintro a _ hlt rfl
    exact absurd hlt (UInt32.lt_irrefl a.id)
  -- Both lists increase, so having the same members makes them the same.
  refine List.Perm.eq_of_pairwise ?_ h.listing_increasing hstanding
    ((List.perm_ext_iff_of_nodup (h.listing_increasing.imp hne) (hstanding.imp hne)).2 hmem)
  intro a b _ _ hab hba
  exact absurd hba (UInt32.not_lt.2 (UInt32.le_of_lt hab))

/-! ### The running number -/

/-- An allocation adds its size to the bytes held, and nothing wraps. -/
theorem allocated_allocate {h h' : Heap} {kind : RegionKind} {size : Nat} {p : Pointer}
    (ha : h.allocate kind size = .ok (p, h')) :
    h.allocated + size < UInt64.size ∧ h'.allocated = h.allocated + size ∧
      h'.allocated ≤ h'.limit := by
  obtain ⟨hword, hfits⟩ := (h.allocate_isOk_iff kind size).1 ⟨_, ha⟩
  obtain ⟨-, -, -, hheld, hlimit⟩ := eq_of_allocate ha
  have hsum : h'.allocated = h.allocated + size := by
    rw [allocated, hheld, UInt64.toNat_add, toNat_size_of_allocate ha]
    exact Nat.mod_eq_of_lt hword
  refine ⟨hword, hsum, ?_⟩
  rw [hsum, hlimit]
  exact hfits

/-- Ending a region takes its size off the bytes held, if these are as many. -/
theorem allocated_drop {h : Heap} {id : RegionId} {r : Region} (hr : h.regions[id]? = some r)
    (hle : r.size.toNat ≤ h.allocated) :
    (h.drop id).allocated = h.allocated - r.size.toNat := by
  have hheld : (h.drop id).held = h.held - r.size := by rw [drop, hr]
  rw [allocated, hheld]
  exact UInt64.toNat_sub_of_le h.held r.size (UInt64.le_iff_toNat_le.2 hle)

/-- Ending a region that is not live does nothing. -/
theorem drop_of_none {h : Heap} {id : RegionId} (hr : h.regions[id]? = none) : h.drop id = h := by
  rw [drop, hr]

/-- The bytes held are those of the regions that stand, and within the limit. -/
structure Balanced (past : List Step) (h : Heap) : Prop where
  allocated_eq : h.allocated = bytes (standing past)
  allocated_le : h.allocated ≤ h.limit

theorem balanced_empty (limit : Nat) : Balanced [] (empty limit) where
  allocated_eq := rfl
  allocated_le := Nat.zero_le limit

/-- The bytes held are no fewer than those of any live region. -/
theorem Balanced.size_le {past : List Step} {h : Heap} (hb : Balanced past h)
    (hd : Described past h) {id : RegionId} {r : Region} (hr : h.regions[id]? = some r) :
    r.size.toNat ≤ h.allocated := by
  obtain ⟨a, since, -, hs, hholds⟩ := hd.stands id r hr
  rw [hb.allocated_eq, hholds.size_eq]
  exact size_le_bytes (mem_standing.2 ⟨since, hs⟩)

/-- A step that makes and ends nothing lets the same regions stand. -/
theorem standing_concat_of_none {past : List Step} {s : Step} (hmade : s.made? = none)
    (hended : s.ended? = none) : standing (past ++ [s]) = standing past := by
  rw [standing_concat, hmade, hended]
  simp

/-- A region that a step makes stands behind the others. -/
theorem standing_concat_of_made {past : List Step} {s : Step} {a : Allotment}
    (hmade : s.made? = some a) (hended : s.ended? = none) :
    standing (past ++ [s]) = standing past ++ [a] := by
  rw [standing_concat, hmade, hended]
  simp

/-- A region that a step ends stands no longer. -/
theorem standing_concat_of_ended {past : List Step} {s : Step} {id : RegionId}
    (hmade : s.made? = none) (hended : s.ended? = some id) :
    standing (past ++ [s]) = (standing past).filter fun a => a.id ≠ id := by
  rw [standing_concat, hmade, hended]
  simp [eq_comm]

/-- A region that is not live does not stand. -/
theorem Described.filter_standing_of_none {past : List Step} {h : Heap} (hd : Described past h)
    {id : RegionId} (hr : h.regions[id]? = none) :
    (standing past).filter (fun a => a.id ≠ id) = standing past := by
  rw [List.filter_eq_self]
  intro a ha
  rw [decide_eq_true_iff]
  rintro rfl
  obtain ⟨since, hstands⟩ := mem_standing.1 ha
  obtain ⟨r, hsome, -⟩ := hd.live a since hstands
  rw [hr] at hsome
  cases hsome

/-- Every step keeps a heap balanced. -/
theorem Balanced.step {past : List Step} {h h' : Heap} {s : Step} (hs : Effect h s h')
    (hb : Balanced past h) (hd : Described past h)
    (hids : (made past).Pairwise fun a b => a.id < b.id) : Balanced (past ++ [s]) h' := by
  cases hs with
  | @made kind size p h' ha hmade hended _ =>
    obtain ⟨-, hsum, hle⟩ := allocated_allocate ha
    refine ⟨?_, hle⟩
    rw [standing_concat_of_made hmade hended, hsum, hb.allocated_eq]
    simp
  | @ended id hmade hended _ =>
    have hstanding : standing (past ++ [s]) = _ := standing_concat_of_ended hmade hended
    cases hr : h.regions[id]? with
    | some r =>
      obtain ⟨a, since, rfl, hstands, hholds⟩ := hd.stands id r hr
      have hle := hb.size_le hd hr
      have hless := allocated_drop hr hle
      have hothers : bytes ((standing past).filter fun b => b.id ≠ a.id) + a.size =
          bytes (standing past) :=
        bytes_filter_ne (mem_standing.2 ⟨since, hstands⟩)
          ((hids.sublist (standing_sublist_made past)).imp UInt32.ne_of_lt)
      have hsize := hholds.size_eq
      have htotal := hb.allocated_eq
      have hlimit := hb.allocated_le
      refine ⟨?_, ?_⟩
      · rw [hstanding]
        omega
      · rw [limit_drop]
        omega
    | none =>
      rw [drop_of_none hr]
      refine ⟨?_, hb.allocated_le⟩
      rw [hstanding, hd.filter_standing_of_none hr]
      exact hb.allocated_eq
  | wrote hw hmade hended _ =>
    obtain ⟨-, hheld, hlimit⟩ := eq_of_write hw
    refine ⟨?_, ?_⟩
    · rw [standing_concat_of_none hmade hended, allocated, hheld]
      exact hb.allocated_eq
    · rw [allocated, hheld, hlimit]
      exact hb.allocated_le
  | nothing hmade hended _ =>
    refine ⟨?_, hb.allocated_le⟩
    rw [standing_concat_of_none hmade hended]
    exact hb.allocated_eq

/-- A heap is described and balanced after every history that makes fewer than `2 ^ 32` regions. -/
theorem balanced_steps (limit : Nat) (ops : List Op)
    (hfew : (made ((empty limit).steps ops)).length < UInt32.size) :
    Described ((empty limit).steps ops) ((empty limit).after ops) ∧
      Balanced ((empty limit).steps ops) ((empty limit).after ops) :=
  along_few_steps (P := fun past h => Described past h ∧ Balanced past h)
    ⟨described_empty limit, balanced_empty limit⟩
    (fun hs hids hfresh hp => ⟨hp.1.step hs hfresh, hp.2.step hs hp.1 hids⟩) ops hfew

/-! ### What a heap says about its regions -/

/-- What a heap says about its regions, and what operations add and take off. -/
structure Accounts (past : List Step) (limit : Nat) (h : Heap) : Prop where
  /-- The live regions are those that stand, of the kinds and sizes that they were made with. -/
  listing_eq : h.listing = standing past
  /-- The bytes held are those of all live regions. -/
  allocated_eq : h.allocated = bytes h.listing
  /-- The bytes held are within the limit. -/
  allocated_le : h.allocated ≤ limit
  /-- An allocation succeeds if the sum is within the limit. -/
  allocate_iff : ∀ kind size, (∃ r, h.allocate kind size = .ok r) ↔ h.allocated + size ≤ limit
  /-- What an allocation adds fits. -/
  allocate_exact : ∀ kind size p h', h.allocate kind size = .ok (p, h') →
    h.allocated + size < UInt64.size ∧ h'.allocated = h.allocated + size
  /-- What a block that is given back takes off is there, and is what it was made with. -/
  release_exact : ∀ p size h', h.release p = .ok (size, h') →
    ⟨p.region, .block, size⟩ ∈ standing past ∧ size ≤ h.allocated ∧
      h'.allocated = h.allocated - size
  /-- What a region that is dropped takes off is there. -/
  drop_exact : ∀ a ∈ standing past, a.size ≤ h.allocated ∧
    (h.drop a.id).allocated = h.allocated - a.size
  /-- Dropping what is not live does nothing. -/
  drop_unknown : ∀ id, h.isLive id = false → h.drop id = h
  /-- The live blocks are those that stand, in the order in which they were made. -/
  blocks_eq : h.blocks =
    ((standing past).filter fun a => a.kind = .block).map fun a => (.base a.id, a.size)

/-- Whatever the limit is and whatever has been done to a heap before, as long as fewer than
`2 ^ 32` regions were made: the bytes held are those of the live regions, and these are what
stands. -/
theorem accounts_steps (limit : UInt64) (ops : List Op)
    (hfew : (made ((empty limit.toNat).steps ops)).length < UInt32.size) :
    Accounts ((empty limit.toNat).steps ops) limit.toNat ((empty limit.toNat).after ops) := by
  obtain ⟨hd, hb⟩ := balanced_steps limit.toNat ops hfew
  have hids := (numbered_steps limit.toNat ops).increasing hfew
  have hlisting := hd.listing_eq hids
  have hlimit : ((empty limit.toNat).after ops).limit = limit.toNat := limit_after _ ops
  refine ⟨hlisting, ?_, ?_, ?_, ?_, ?_, ?_, ?_, ?_⟩
  · rw [hlisting]
    exact hb.allocated_eq
  · exact Nat.le_trans hb.allocated_le (Nat.le_of_eq hlimit)
  · intro kind size
    rw [allocate_isOk_iff, hlimit]
    constructor
    · exact And.right
    · intro hfits
      exact ⟨Nat.lt_of_le_of_lt hfits limit.toNat_lt, hfits⟩
  · intro kind size p h' ha
    obtain ⟨hword, hsum, -⟩ := allocated_allocate ha
    exact ⟨hword, hsum⟩
  · intro p size h' hr
    obtain ⟨r, hreg, hkind, -, rfl, rfl⟩ := release_eq_ok_iff.1 hr
    have hle := hb.size_le hd hreg
    refine ⟨?_, hle, allocated_drop hreg hle⟩
    rw [← hlisting, mem_listing]
    exact ⟨r, hreg, hkind, rfl⟩
  · intro a ha
    rw [← hlisting, mem_listing] at ha
    obtain ⟨r, hreg, -, hsize⟩ := ha
    have hle := hb.size_le hd hreg
    rw [← hsize]
    exact ⟨hle, allocated_drop hreg hle⟩
  · intro id hlive
    apply drop_of_none
    rw [isLive_eq, Option.isSome_eq_false_iff, Option.isNone_iff_eq_none] at hlive
    exact hlive
  · rw [Heap.blocks_eq, hlisting]

/-- A limit that is reached, and sizes that are refused at it: the sum with the largest one would
not fit 64 bits. -/
theorem accounts_steps_full :
    let ops := [Op.malloc 6, .array 2, .malloc 0, .drop 9, .free (.base 1), .free (.base 0),
      .malloc 18446744073709551615, .malloc 8]
    let past := (empty 10).steps ops
    let h := (empty 10).after ops
    (made past).length < UInt32.size ∧ h.allocated = 10 ∧ h.blocks = [(.base 2, 0), (.base 3, 8)] ∧
      (∃ r, h.allocate .array 0 = .ok r) ∧
      ¬ ∃ r, h.allocate .block 18446744073709551610 = .ok r := by
  intro ops past h
  have hfew : (made past).length < UInt32.size := by decide
  have hr : Accounts past 10 h := accounts_steps 10 ops hfew
  have hall : h.allocated = 10 := by decide
  refine ⟨hfew, hall, ?_, ?_, ?_⟩
  · rw [hr.blocks_eq]
    decide
  · exact (hr.allocate_iff .array 0).2 (by omega)
  · rw [hr.allocate_iff]
    omega

end MiniC.Heap
