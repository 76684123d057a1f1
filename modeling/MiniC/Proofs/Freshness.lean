import MiniC.Heap.Record

/-!
# Numbers of regions

The numbers of regions come from a counter of 32 bits: the region that is made after `n` others
bears the number `n` modulo `2 ^ 32`, whatever has been given back or dropped before.  So numbers
are not used again as long as fewer than `2 ^ 32` regions have been made.  The next one bears the
number of the first one again, and whoever still holds a pointer into that one now holds one into
the new one.

Main definitions:

* `MiniC.Heap.Numbered`: the numbers of all regions that were made.

Main results:

* `MiniC.Heap.numbered_steps`: regions are numbered after every history;
* `MiniC.Heap.Numbered.fresh_iff`: when the next number has not been borne before;
* `MiniC.Heap.along_few_steps`: what steps with new numbers preserve holds as long as they are new;
* `MiniC.Heap.allocation_fresh_iff`: allocations succeed, and when they yield regions with numbers
  of their own.
-/

set_option autoImplicit false

namespace MiniC.Heap

/-- The regions that were made bear the numbers from zero on, modulo `2 ^ 32`; the next one is the
one behind them, and nothing else is live. -/
structure Numbered (past : List Step) (h : Heap) : Prop where
  ids : (made past).map Allotment.id = (List.range (made past).length).map UInt32.ofNat
  next_eq : h.next = UInt32.ofNat (made past).length
  live : ∀ id, h.isLive id = true → ∃ a ∈ made past, a.id = id

theorem numbered_empty (limit : Nat) : Numbered [] (empty limit) where
  ids := rfl
  next_eq := rfl
  live := by simp [isLive, empty]

/-- The number of a region that was made is the place at which it was. -/
theorem Numbered.exists_mem_iff {past : List Step} {h : Heap} (hn : Numbered past h)
    {id : RegionId} :
    (∃ a ∈ made past, a.id = id) ↔ ∃ k < (made past).length, UInt32.ofNat k = id := by
  have hmem : id ∈ (made past).map Allotment.id ↔
      id ∈ (List.range (made past).length).map UInt32.ofNat := by
    rw [hn.ids]
  simpa only [List.mem_map, List.mem_range] using hmem

theorem ofNat_eq_ofNat_iff {k n : Nat} :
    UInt32.ofNat k = UInt32.ofNat n ↔ k % UInt32.size = n % UInt32.size := by
  rw [← UInt32.toNat_inj, UInt32.toNat_ofNat', UInt32.toNat_ofNat']

/-- No region has borne the next number before exactly if fewer than `2 ^ 32` have been made. -/
theorem Numbered.fresh_iff {past : List Step} {h : Heap} (hn : Numbered past h) :
    (∀ a ∈ made past, a.id ≠ h.next) ↔ (made past).length < UInt32.size := by
  constructor
  · intro hfresh
    rcases Nat.lt_or_ge (made past).length UInt32.size with hfew | hmany
    · exact hfew
    · -- The region that was made `2 ^ 32` places before bears the next number.
      have hsize : 0 < UInt32.size := by decide
      obtain ⟨a, ha, hid⟩ := hn.exists_mem_iff.2
        ⟨(made past).length - UInt32.size, by omega, rfl⟩
      refine absurd ?_ (hfresh a ha)
      rw [hid, hn.next_eq, ofNat_eq_ofNat_iff]
      exact (Nat.mod_eq_sub_mod hmany).symm
  · intro hfew a ha hid
    obtain ⟨k, hk, hkid⟩ := hn.exists_mem_iff.1 ⟨a, ha, rfl⟩
    rw [hid, hn.next_eq, ofNat_eq_ofNat_iff, Nat.mod_eq_of_lt (by omega),
      Nat.mod_eq_of_lt hfew] at hkid
    omega

/-- Numbers increase as long as fewer than `2 ^ 32` regions have been made. -/
theorem Numbered.increasing {past : List Step} {h : Heap} (hn : Numbered past h)
    (hfew : (made past).length < UInt32.size) : (made past).Pairwise fun a b => a.id < b.id := by
  have hids : ((made past).map Allotment.id).Pairwise (· < ·) := by
    rw [hn.ids, List.pairwise_map]
    refine List.pairwise_lt_range.imp_of_mem ?_
    intro i j hi hj hij
    rw [List.mem_range] at hi hj
    rw [UInt32.lt_iff_toNat_lt, UInt32.toNat_ofNat', UInt32.toNat_ofNat',
      Nat.mod_eq_of_lt (Nat.lt_trans hi hfew), Nat.mod_eq_of_lt (Nat.lt_trans hj hfew)]
    exact hij
  exact List.pairwise_map.1 hids

/-- Making nothing keeps regions numbered, if nothing else becomes live. -/
theorem Numbered.unchanged {past : List Step} {h h' : Heap} {s : Step} (hn : Numbered past h)
    (hmade : s.made? = none) (hnext : h'.next = h.next)
    (hlive : ∀ id, h'.isLive id = true → h.isLive id = true) : Numbered (past ++ [s]) h' := by
  have hsame : made (past ++ [s]) = made past := by simp [hmade]
  refine ⟨?_, ?_, ?_⟩
  · rw [hsame]
    exact hn.ids
  · rw [hsame, hnext]
    exact hn.next_eq
  · intro id hid
    rw [hsame]
    exact hn.live id (hlive id hid)

/-- Every step keeps regions numbered. -/
theorem Numbered.step {past : List Step} {h h' : Heap} {s : Step} (hs : Effect h s h')
    (hn : Numbered past h) : Numbered (past ++ [s]) h' := by
  cases hs with
  | @made kind size p h' ha hmade _ _ =>
    have hnew : made (past ++ [s]) = made past ++ [⟨h.next, kind, size⟩] := by simp [hmade]
    have hlength : (made (past ++ [s])).length = (made past).length + 1 := by simp [hnew]
    refine ⟨?_, ?_, ?_⟩
    · rw [hlength, List.range_succ, List.map_append, ← hn.ids, hnew, List.map_append]
      simp [hn.next_eq]
    · rw [(next_allocate ha).2, hlength, hn.next_eq]
      exact (UInt32.ofNat_add (made past).length 1).symm
    · intro id hlive
      rw [hnew]
      by_cases hid : id = h.next
      · exact ⟨⟨h.next, kind, size⟩, by simp, hid.symm⟩
      · rw [isLive_eq, getElem?_allocate ha, if_neg hid, ← isLive_eq] at hlive
        obtain ⟨a, hmem, heq⟩ := hn.live id hlive
        exact ⟨a, List.mem_append_left _ hmem, heq⟩
  | @ended dropped hmade _ _ =>
    refine hn.unchanged hmade (next_drop h dropped) ?_
    intro id hlive
    by_cases hid : id = dropped
    · rw [hid, not_isLive_drop] at hlive
      exact absurd hlive (by decide)
    · rwa [isLive_drop_of_ne h hid] at hlive
  | wrote hw hmade _ _ =>
    refine hn.unchanged hmade (next_write hw) ?_
    intro id hlive
    rwa [isLive_write hw] at hlive
  | nothing hmade _ _ => exact hn.unchanged hmade rfl fun _ hlive => hlive

/-- After every history regions are numbered. -/
theorem numbered_steps (limit : Nat) (ops : List Op) :
    Numbered ((empty limit).steps ops) ((empty limit).after ops) :=
  along_steps (numbered_empty limit) Numbered.step ops

/-- What holds at first and is preserved by every step before which numbers increase and the next
one is new holds after every history that makes fewer than `2 ^ 32` regions. -/
theorem along_few_steps {P : List Step → Heap → Prop} {limit : Nat} (hstart : P [] (empty limit))
    (hstep : ∀ {past : List Step} {h : Heap} {s : Step} {h' : Heap}, Effect h s h' →
      ((made past).Pairwise fun a b => a.id < b.id) → (∀ a ∈ made past, a.id ≠ h.next) →
      P past h → P (past ++ [s]) h')
    (ops : List Op) (hfew : (made ((empty limit).steps ops)).length < UInt32.size) :
    P ((empty limit).steps ops) ((empty limit).after ops) := by
  -- Numbers are carried along, for those of a longer history tell nothing of a shorter one's.
  refine (along_steps (P := fun past h =>
    Numbered past h ∧ ((made past).length < UInt32.size → P past h))
    ⟨numbered_empty limit, fun _ => hstart⟩ ?_ ops).2 hfew
  intro past h s h' hs hp
  refine ⟨hp.1.step hs, ?_⟩
  intro hmore
  have hless : (made past).length < UInt32.size := by
    rw [made_concat, List.length_append] at hmore
    omega
  exact hstep hs (hp.1.increasing hless) (hp.1.fresh_iff.2 hless) (hp.2 hless)

/-! ### Allocations -/

/-- Whatever the limit is and whatever has been done to a heap before, an allocation that fits under
the limit succeeds.  The number of the new region is one that no region has borne before exactly if
fewer than `2 ^ 32` have been made; then the new region takes the place of no live one. -/
theorem allocation_fresh_iff (limit : UInt64) (ops : List Op) (kind : RegionKind) (size : Nat) :
    let past := made ((empty limit.toNat).steps ops)
    let h := (empty limit.toNat).after ops
    h.allocated + size ≤ limit.toNat →
    ∃ p h', h.allocate kind size = .ok (p, h') ∧
      ((∀ a ∈ past, a.id ≠ p.region) ↔ past.length < UInt32.size) ∧
      (past.length < UInt32.size → h.isLive p.region = false) := by
  intro past h hfits
  have hn : Numbered ((empty limit.toNat).steps ops) h := numbered_steps limit.toNat ops
  have hlimit : h.limit = limit.toNat := limit_after (empty limit.toNat) ops
  have hword : h.allocated + size < UInt64.size := Nat.lt_of_le_of_lt hfits limit.toNat_lt
  obtain ⟨⟨p, h'⟩, ha⟩ := (h.allocate_isOk_iff kind size).2 ⟨hword, hlimit ▸ hfits⟩
  have hp : p.region = h.next := (next_allocate ha).1
  refine ⟨p, h', ha, ?_, ?_⟩
  · rw [hp]
    exact hn.fresh_iff
  · intro hfew
    rw [hp]
    cases hlive : h.isLive h.next with
    | false => rfl
    | true =>
      obtain ⟨a, hmem, hid⟩ := hn.live h.next hlive
      exact absurd hid (hn.fresh_iff.2 hfew a hmem)

/-- A history with a region that was given back: its number is not used for the next one. -/
theorem allocation_fresh_iff_released :
    let ops := [Op.malloc 4, .free (.base 0), .read (.base 0)]
    let past := made ((empty 8).steps ops)
    let h := (empty 8).after ops
    h.allocated + 8 ≤ 8 ∧ past.map Allotment.id = [0] ∧
      ∃ p h', h.allocate .array 8 = .ok (p, h') ∧ ∀ a ∈ past, a.id ≠ p.region := by
  intro ops past h
  have hfits : h.allocated + 8 ≤ 8 := by decide
  have hids : past.map Allotment.id = [0] := by decide
  obtain ⟨p, h', ha, hfresh, -⟩ := allocation_fresh_iff 8 ops .array 8 hfits
  have hfew : past.length < UInt32.size := by decide
  exact ⟨hfits, hids, p, h', ha, hfresh.2 hfew⟩

/-! ### The counter comes round -/

/-- Blocks without bytes, made one after the other. -/
def emptyBlocks (n : Nat) : List Op := List.replicate n (.malloc 0)

/-- There is always room for a block without bytes. -/
theorem exists_allocate_zero {h : Heap} (hle : h.allocated ≤ h.limit) :
    ∃ h', h.allocate .block 0 = .ok (.base h.next, h') ∧ h'.allocated = h.allocated ∧
      h'.limit = h.limit := by
  obtain ⟨⟨p, h'⟩, ha⟩ := (h.allocate_isOk_iff .block 0).2 ⟨h.held.toNat_lt, hle⟩
  obtain ⟨rfl, -, -, hheld, hlimit⟩ := eq_of_allocate ha
  refine ⟨h', ha, ?_, hlimit⟩
  rw [allocated, hheld, allocated]
  exact congrArg UInt64.toNat (UInt64.add_zero h.held)

/-- All of them are made, what is live stays so, and no byte is held for them. -/
theorem emptyBlocks_made (n : Nat) {h : Heap} (hle : h.allocated ≤ h.limit) :
    (made (h.steps (emptyBlocks n))).length = n ∧
      (∀ id, h.isLive id = true → (h.after (emptyBlocks n)).isLive id = true) ∧
      (h.after (emptyBlocks n)).allocated = h.allocated := by
  induction n generalizing h with
  | zero => exact ⟨rfl, fun _ hlive => hlive, rfl⟩
  | succ n ih =>
    obtain ⟨h', ha, hallocated, hlimit⟩ := exists_allocate_zero hle
    have hperform : h.perform (.malloc 0) = (.ok (.address (.base h.next)), h') := by
      simp only [perform, ha]
    obtain ⟨hlength, hlive, hheld⟩ := @ih h' (by omega)
    have hops : emptyBlocks (n + 1) = .malloc 0 :: emptyBlocks n := List.replicate_succ
    refine ⟨?_, ?_, ?_⟩
    · rw [hops, steps, hperform, made_cons, List.length_append, hlength]
      exact Nat.add_comm 1 n
    · intro id hid
      rw [hops, after_cons, hperform]
      apply hlive
      rw [isLive_eq, getElem?_allocate ha]
      by_cases hnext : id = h.next
      · rw [if_pos hnext]
        rfl
      · rw [if_neg hnext, ← isLive_eq]
        exact hid
    · rw [hops, after_cons, hperform, ← hallocated]
      exact hheld

/-- The block that is made behind `2 ^ 32` others fits under the limit, and bears the number that
the first one was given.  That one is live still, and the new one takes its place. -/
theorem number_borne_again :
    let past := made ((empty 0).steps (emptyBlocks UInt32.size))
    let h := (empty 0).after (emptyBlocks UInt32.size)
    h.allocated + 0 ≤ 0 ∧ (∃ a ∈ past, a.id = 0) ∧ h.isLive 0 = true ∧
      ∃ h', h.allocate .block 0 = .ok (.base 0, h') := by
  intro past h
  have hn : Numbered ((empty 0).steps (emptyBlocks UInt32.size)) h := numbered_steps 0 _
  obtain ⟨hlength, -, hheld⟩ := emptyBlocks_made UInt32.size (h := empty 0) (Nat.le_refl 0)
  have hnext : h.next = 0 := by
    rw [hn.next_eq, hlength]
    rfl
  have hlive : h.isLive 0 = true := by
    -- Region 0 is live behind the first block, and nothing is given back after that.
    obtain ⟨n, hsize⟩ : ∃ n, UInt32.size = n + 1 := ⟨UInt32.size - 1, rfl⟩
    have hops : emptyBlocks UInt32.size = .malloc 0 :: emptyBlocks n := by
      rw [hsize]
      exact List.replicate_succ
    have hfirst : (((empty 0).perform (.malloc 0)).2).isLive 0 = true := by decide
    have hle : ((empty 0).perform (.malloc 0)).2.allocated ≤
        ((empty 0).perform (.malloc 0)).2.limit := by decide
    show ((empty 0).after (emptyBlocks UInt32.size)).isLive 0 = true
    rw [hops, after_cons]
    exact (emptyBlocks_made n hle).2.1 0 hfirst
  have hnone : h.allocated = 0 := hheld
  have hlimit : h.limit = 0 := limit_after (empty 0) _
  obtain ⟨h', ha, -, -⟩ := exists_allocate_zero (h := h) (by omega)
  rw [hnext] at ha
  exact ⟨by omega, hn.live 0 hlive, hlive, h', ha⟩

end MiniC.Heap
