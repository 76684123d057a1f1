import MiniC.Proofs.Freshness

/-!
# What a heap remembers

The past of a heap tells what its operations yield.  As long as a region stands, what any pointer
into it refers to is what was written last there, or nothing if no value was; once it has been given
back or dropped, all pointers into it are refused for good.  Only standing blocks can be given back,
and only by their start.

All of this rests on regions having numbers of their own, and is said of histories that make fewer
than `2 ^ 32` of them.

Main definitions:

* `MiniC.Heap.Holds`: a region holds what was written to it since it was made;
* `MiniC.Heap.Described`: the live regions are those that stand, and hold what was written to them;
* `MiniC.Heap.Gone`: a region has been ended since it was made;
* `MiniC.Heap.Remembers`: what operations yield, told by the past.

Main results:

* `MiniC.Heap.Described.step`: every step keeps a heap described, if the next number is new;
* `MiniC.Heap.remembers_steps`: what operations yield after every history.
-/

set_option autoImplicit false

namespace MiniC.Heap

/-! ### What regions hold -/

/-- The region `r` is of the kind and the size that `a` was made with, and holds the values that
were written to it since. -/
structure Holds (r : Region) (a : Allotment) (since : List Step) : Prop where
  kind_eq : r.kind = a.kind
  size_eq : r.size.toNat = a.size
  get_eq : ∀ offset, r.get offset = lastWritten ⟨a.id, offset⟩ since

/-- The live regions are those that stand, each with what was written to it. -/
structure Described (past : List Step) (h : Heap) : Prop where
  stands : ∀ id r, h.regions[id]? = some r → ∃ a since, a.id = id ∧ Stands past a since ∧
    Holds r a since
  live : ∀ a since, Stands past a since → ∃ r, h.regions[a.id]? = some r ∧ Holds r a since

theorem not_stands_nil (a : Allotment) (since : List Step) : ¬ Stands [] a since := by
  rintro ⟨earlier, s, hpast, -, -⟩
  exact absurd hpast (by simp)

theorem described_empty (limit : Nat) : Described [] (empty limit) where
  stands := by simp [empty]
  live a since hs := absurd hs (not_stands_nil a since)

/-- What stands was made. -/
theorem Stands.mem_made {past since : List Step} {a : Allotment} (hs : Stands past a since) :
    a ∈ made past := (standing_sublist_made past).mem (mem_standing.2 ⟨since, hs⟩)

/-- A region that a step does not end stands behind it, too. -/
theorem Stands.concat {past since : List Step} {a : Allotment} {s : Step}
    (hs : Stands past a since) (hended : s.ended? ≠ some a.id) :
    Stands (past ++ [s]) a (since ++ [s]) :=
  stands_concat.2 (.inr ⟨hended, since, rfl, hs⟩)

/-- A step that writes nothing into a region leaves what it holds. -/
theorem Holds.concat {r : Region} {a : Allotment} {since : List Step} {s : Step}
    (hr : Holds r a since) (hwritten : ∀ offset, s.written? ⟨a.id, offset⟩ = none) :
    Holds r a (since ++ [s]) where
  kind_eq := hr.kind_eq
  size_eq := hr.size_eq
  get_eq offset := by
    rw [lastWritten_concat, hwritten, Option.getD_none]
    exact hr.get_eq offset

/-- A new region holds nothing. -/
theorem holds_new {h h' : Heap} {kind : RegionKind} {size : Nat} {p : Pointer}
    (ha : h.allocate kind size = .ok (p, h')) :
    Holds ⟨kind, .ofNat size, ∅⟩ ⟨h.next, kind, size⟩ [] where
  kind_eq := rfl
  size_eq := toNat_size_of_allocate ha
  get_eq offset := by simp [Region.get]

/-- A region that is written to holds what is written. -/
theorem Holds.set {r : Region} {a : Allotment} {since : List Step} {s : Step} {p : Pointer}
    {v : Value} (hr : Holds r a since) (hp : a.id = p.region)
    (hwritten : ∀ q, s.written? q = if p = q then some v else none) :
    Holds (r.set p.offset v) a (since ++ [s]) where
  kind_eq := hr.kind_eq
  size_eq := hr.size_eq
  get_eq offset := by
    rw [lastWritten_concat, hwritten]
    by_cases ho : offset = p.offset
    · have hself : p = ⟨a.id, offset⟩ := by rw [hp, ho]
      rw [if_pos hself, ho, Region.get_set_self, Option.getD_some]
    · have hother : p ≠ ⟨a.id, offset⟩ := fun heq => ho (congrArg Pointer.offset heq).symm
      rw [if_neg hother, Region.get_set_of_ne r v ho, Option.getD_none]
      exact hr.get_eq offset

/-! ### What steps leave -/

/-- A region whose number is new stands beside the others. -/
theorem Described.after_made {past : List Step} {h h' : Heap} {s : Step} {kind : RegionKind}
    {size : Nat} {p : Pointer} (hd : Described past h) (ha : h.allocate kind size = .ok (p, h'))
    (hmade : s.made? = some ⟨h.next, kind, size⟩) (hended : s.ended? = none)
    (hwritten : ∀ q, s.written? q = none) (hfresh : ∀ a ∈ made past, a.id ≠ h.next) :
    Described (past ++ [s]) h' where
  stands id r hr := by
    rw [getElem?_allocate ha] at hr
    by_cases hid : id = h.next
    · rw [if_pos hid] at hr
      cases hr
      exact ⟨_, [], hid.symm, stands_concat.2 (.inl ⟨hmade, rfl⟩), holds_new ha⟩
    · rw [if_neg hid] at hr
      obtain ⟨a, since, haid, hs, hholds⟩ := hd.stands id r hr
      exact ⟨a, since ++ [s], haid, hs.concat (by simp [hended]), hholds.concat fun _ => hwritten _⟩
  live a since hs := by
    rw [getElem?_allocate ha]
    rcases stands_concat.1 hs with ⟨hnew, rfl⟩ | ⟨-, before, rfl, hbefore⟩
    · rw [hmade] at hnew
      cases hnew
      exact ⟨_, if_pos rfl, holds_new ha⟩
    · obtain ⟨r, hr, hholds⟩ := hd.live a before hbefore
      rw [if_neg (hfresh a hbefore.mem_made)]
      exact ⟨r, hr, hholds.concat fun _ => hwritten _⟩

/-- A step that makes nothing keeps a heap described, if it leaves no other regions than before, all
but the one that it ends, and these hold what they held and what it writes. -/
theorem Described.of_made?_eq_none {past : List Step} {h h' : Heap} {s : Step}
    (hd : Described past h) (hmade : s.made? = none)
    (hback : ∀ id r', h'.regions[id]? = some r' →
      s.ended? ≠ some id ∧ ∃ r, h.regions[id]? = some r)
    (hstay : ∀ {a : Allotment} {since : List Step} {r : Region}, s.ended? ≠ some a.id →
      h.regions[a.id]? = some r → Holds r a since →
      ∃ r', h'.regions[a.id]? = some r' ∧ Holds r' a (since ++ [s])) :
    Described (past ++ [s]) h' where
  stands id r' hr' := by
    obtain ⟨hended, r, hr⟩ := hback id r' hr'
    obtain ⟨a, since, rfl, hs, hholds⟩ := hd.stands id r hr
    obtain ⟨r'', hr'', hholds'⟩ := hstay hended hr hholds
    rw [hr'] at hr''
    cases hr''
    exact ⟨a, since ++ [s], rfl, hs.concat hended, hholds'⟩
  live a since hs := by
    rcases stands_concat.1 hs with ⟨hnew, -⟩ | ⟨hended, before, rfl, hbefore⟩
    · rw [hmade] at hnew
      cases hnew
    · obtain ⟨r, hr, hholds⟩ := hd.live a before hbefore
      exact hstay hended hr hholds

/-- A region that is ended does not stand, and the others do. -/
theorem Described.after_ended {past : List Step} {h : Heap} {s : Step} {id : RegionId}
    (hd : Described past h) (hmade : s.made? = none) (hended : s.ended? = some id)
    (hwritten : ∀ q, s.written? q = none) : Described (past ++ [s]) (h.drop id) := by
  refine hd.of_made?_eq_none hmade ?_ ?_
  · intro other r' hr'
    rw [getElem?_drop] at hr'
    by_cases hid : other = id
    · rw [if_pos hid] at hr'
      cases hr'
    · rw [if_neg hid] at hr'
      rw [hended, ne_eq, Option.some_inj]
      exact ⟨Ne.symm hid, r', hr'⟩
  · intro a since r hstays hr hholds
    have hid : a.id ≠ id := by
      rintro rfl
      exact hstays hended
    rw [getElem?_drop, if_neg hid]
    exact ⟨r, hr, hholds.concat fun _ => hwritten _⟩

/-- A region that is written to holds what is written, and the others hold what they held. -/
theorem Described.after_wrote {past : List Step} {h h' : Heap} {s : Step} {p : Pointer} {v : Value}
    (hd : Described past h) (hw : h.write p v = .ok h') (hmade : s.made? = none)
    (hended : s.ended? = none) (hwritten : ∀ q, s.written? q = if p = q then some v else none) :
    Described (past ++ [s]) h' := by
  refine hd.of_made?_eq_none hmade ?_ ?_
  · intro id r' hr'
    have hlive : h.isLive id = true := by
      rw [← isLive_write hw, Heap.isLive_iff]
      exact ⟨r', hr'⟩
    exact ⟨by simp [hended], (Heap.isLive_iff h id).1 hlive⟩
  · intro a since r _ hr hholds
    rw [getElem?_write hw, hr]
    by_cases hid : a.id = p.region
    · rw [if_pos hid]
      exact ⟨r.set p.offset v, rfl, hholds.set hid hwritten⟩
    · have hother : ∀ offset, p ≠ ⟨a.id, offset⟩ := fun offset heq =>
        hid (congrArg Pointer.region heq).symm
      rw [if_neg hid]
      exact ⟨r, rfl, hholds.concat fun offset => by rw [hwritten, if_neg (hother offset)]⟩

/-- A step without effect leaves everything. -/
theorem Described.after_nothing {past : List Step} {h : Heap} {s : Step} (hd : Described past h)
    (hmade : s.made? = none) (hended : s.ended? = none) (hwritten : ∀ q, s.written? q = none) :
    Described (past ++ [s]) h := by
  refine hd.of_made?_eq_none hmade ?_ ?_
  · intro id r hr
    exact ⟨by simp [hended], r, hr⟩
  · intro a since r _ hr hholds
    exact ⟨r, hr, hholds.concat fun _ => hwritten _⟩

/-- Every step keeps a heap described, if the next number is new. -/
theorem Described.step {past : List Step} {h h' : Heap} {s : Step} (hs : Effect h s h')
    (hd : Described past h) (hfresh : ∀ a ∈ made past, a.id ≠ h.next) :
    Described (past ++ [s]) h' := by
  cases hs with
  | made ha hmade hended hwritten => exact hd.after_made ha hmade hended hwritten hfresh
  | ended hmade hended hwritten => exact hd.after_ended hmade hended hwritten
  | wrote hw hmade hended hwritten => exact hd.after_wrote hw hmade hended hwritten
  | nothing hmade hended hwritten => exact hd.after_nothing hmade hended hwritten

/-- A heap is described by every history that makes fewer than `2 ^ 32` regions. -/
theorem described_steps (limit : Nat) (ops : List Op)
    (hfew : (made ((empty limit).steps ops)).length < UInt32.size) :
    Described ((empty limit).steps ops) ((empty limit).after ops) :=
  along_few_steps (described_empty limit) (fun hs _ hfresh hd => hd.step hs hfresh) ops hfew

/-! ### Regions that are gone -/

/-- The region `a` was made, and has been ended since. -/
def Gone (past : List Step) (a : Allotment) : Prop :=
  ∃ earlier s since, past = earlier ++ s :: since ∧ s.made? = some a ∧
    ∃ t ∈ since, t.ended? = some a.id

theorem gone_cons {past : List Step} {s : Step} {a : Allotment} :
    Gone (s :: past) a ↔
      (s.made? = some a ∧ ∃ t ∈ past, t.ended? = some a.id) ∨ Gone past a := by
  constructor
  · rintro ⟨earlier, t, since, hpast, hmade, hended⟩
    cases earlier with
    | nil =>
      cases hpast
      exact .inl ⟨hmade, hended⟩
    | cons x earlier =>
      cases hpast
      exact .inr ⟨earlier, t, since, rfl, hmade, hended⟩
  · rintro (⟨hmade, hended⟩ | ⟨earlier, t, since, rfl, hmade, hended⟩)
    · exact ⟨[], s, past, rfl, hmade, hended⟩
    · exact ⟨s :: earlier, t, since, rfl, hmade, hended⟩

/-- What is gone was made. -/
theorem Gone.mem_made {past : List Step} {a : Allotment} (hg : Gone past a) : a ∈ made past := by
  obtain ⟨earlier, s, since, rfl, hmade, -⟩ := hg
  exact List.mem_filterMap.2 ⟨s, by simp, hmade⟩

/-- No region that stands bears the number of one that is gone, if numbers are not used twice. -/
theorem Gone.ne_of_stands {past since : List Step} {a b : Allotment}
    (hids : (made past).Pairwise fun a b => a.id ≠ b.id) (hg : Gone past a)
    (hs : Stands past b since) : a.id ≠ b.id := by
  induction past with
  | nil => exact absurd hs (not_stands_nil b since)
  | cons s past ih =>
    rw [made_cons, List.pairwise_append] at hids
    obtain ⟨-, hpast, hfirst⟩ := hids
    rcases gone_cons.1 hg with ⟨hmade, t, ht, hended⟩ | hg
    · rcases stands_cons.1 hs with ⟨-, -, hstays⟩ | hs
      · intro hid
        exact hstays t ht (hid ▸ hended)
      · exact hfirst a (Option.mem_toList.2 hmade) b hs.mem_made
    · rcases stands_cons.1 hs with ⟨hmade', -, -⟩ | hs
      · exact (hfirst b (Option.mem_toList.2 hmade') a hg.mem_made).symm
      · exact ih hpast hg hs

/-! ### What operations yield -/

/-- What operations on a heap yield is told by its past. -/
structure Remembers (past : List Step) (h : Heap) : Prop where
  /-- A region is live if it stands. -/
  isLive_iff : ∀ id, h.isLive id = true ↔ ∃ a since, Stands past a since ∧ a.id = id
  /-- Reading yields the value that was written last, where a region stands, and fails elsewhere. -/
  read_iff : ∀ p v, h.read p = .ok v ↔
    ∃ a since, Stands past a since ∧ a.id = p.region ∧ v = lastWritten p since
  /-- Writing succeeds where a region stands. -/
  write_iff : ∀ p v, (∃ h', h.write p v = .ok h') ↔ ∃ a since, Stands past a since ∧ a.id = p.region
  /-- Writing changes what is written to, and nothing else. -/
  read_write : ∀ p v h', h.write p v = .ok h' →
    ∀ q, h'.read q = if q = p then .ok v else h.read q
  /-- What is given back is a block that stands, by its start. -/
  release_iff : ∀ p, (∃ r, h.release p = .ok r) ↔
    p.offset = 0 ∧ ∃ a since, Stands past a since ∧ a.id = p.region ∧ a.kind = .block
  /-- All pointers into a region that is gone are refused. -/
  gone : ∀ a, Gone past a → ∀ p, p.region = a.id →
    h.read p = .error (.dangling p) ∧ (∀ v, h.write p v = .error (.dangling p)) ∧
      h.release p = .error (.notABlock p)
  /-- What fails leaves the heap as it was. -/
  failed : ∀ op e, (h.perform op).1 = .error e → (h.perform op).2 = h

/-- Operations where no region is live are refused. -/
theorem refused_of_not_isLive {h : Heap} {p : Pointer} (hlive : h.isLive p.region = false) :
    h.read p = .error (.dangling p) ∧ (∀ v, h.write p v = .error (.dangling p)) ∧
      h.release p = .error (.notABlock p) := by
  have hnone : h.regions[p.region]? = none := by
    rw [isLive_eq] at hlive
    exact Option.isNone_iff_eq_none.1 (by simp [← Option.not_isSome, hlive])
  refine ⟨?_, ?_, ?_⟩
  · rw [read, hnone]
  · intro v
    exact if_neg (by rw [← isLive, hlive]; decide)
  · rw [release, hnone]

theorem Described.isLive_iff {past : List Step} {h : Heap} (hd : Described past h)
    {id : RegionId} : h.isLive id = true ↔ ∃ a since, Stands past a since ∧ a.id = id := by
  rw [Heap.isLive_iff]
  constructor
  · rintro ⟨r, hr⟩
    obtain ⟨a, since, hid, hs, -⟩ := hd.stands id r hr
    exact ⟨a, since, hs, hid⟩
  · rintro ⟨a, since, hs, rfl⟩
    obtain ⟨r, hr, -⟩ := hd.live a since hs
    exact ⟨r, hr⟩

theorem Described.read_iff {past : List Step} {h : Heap} (hd : Described past h) {p : Pointer}
    {v : Value} : h.read p = .ok v ↔
      ∃ a since, Stands past a since ∧ a.id = p.region ∧ v = lastWritten p since := by
  constructor
  · intro hv
    obtain ⟨r, hr⟩ := (Heap.isLive_iff h p.region).1 ((read_isOk_iff h p).1 ⟨v, hv⟩)
    obtain ⟨a, since, hid, hs, hholds⟩ := hd.stands p.region r hr
    refine ⟨a, since, hs, hid, ?_⟩
    rw [read, hr] at hv
    rw [← Except.ok.inj hv, hholds.get_eq, hid]
  · rintro ⟨a, since, hs, hid, rfl⟩
    obtain ⟨r, hr, hholds⟩ := hd.live a since hs
    rw [read, ← hid, hr]
    show Except.ok (r.get p.offset) = _
    rw [hholds.get_eq, hid]

theorem Described.release_iff {past : List Step} {h : Heap} (hd : Described past h) {p : Pointer} :
    (∃ r, h.release p = .ok r) ↔
      p.offset = 0 ∧ ∃ a since, Stands past a since ∧ a.id = p.region ∧ a.kind = .block := by
  constructor
  · rintro ⟨⟨size, h'⟩, hr⟩
    obtain ⟨r, hreg, hkind, hstart, -, -⟩ := release_eq_ok_iff.1 hr
    obtain ⟨a, since, hid, hs, hholds⟩ := hd.stands p.region r hreg
    exact ⟨hstart, a, since, hs, hid, hholds.kind_eq ▸ hkind⟩
  · rintro ⟨hstart, a, since, hs, hid, hkind⟩
    obtain ⟨r, hreg, hholds⟩ := hd.live a since hs
    rw [hid] at hreg
    exact ⟨_, release_eq_ok_iff.2 ⟨r, hreg, hholds.kind_eq.trans hkind, hstart, rfl, rfl⟩⟩

/-- Whatever has been done to a heap before, as long as fewer than `2 ^ 32` regions were made: what
operations yield is told by its past. -/
theorem remembers_steps (limit : Nat) (ops : List Op)
    (hfew : (made ((empty limit).steps ops)).length < UInt32.size) :
    Remembers ((empty limit).steps ops) ((empty limit).after ops) := by
  have hd := described_steps limit ops hfew
  have hids := (numbered_steps limit ops).increasing hfew
  refine ⟨?_, ?_, ?_, ?_, ?_, ?_, ?_⟩
  · intro id
    exact hd.isLive_iff
  · intro p v
    exact hd.read_iff
  · intro p v
    rw [write_isOk_iff]
    exact hd.isLive_iff
  · intro p v h' hw q
    by_cases hq : q = p
    · rw [if_pos hq, hq, read_write_self hw]
    · rw [if_neg hq, read_write_of_ne hw hq]
  · intro p
    exact hd.release_iff
  · intro a hg p hp
    apply refused_of_not_isLive
    rw [Bool.eq_false_iff]
    intro hlive
    obtain ⟨b, since, hs, hid⟩ := hd.isLive_iff.1 hlive
    exact hg.ne_of_stands (hids.imp UInt32.ne_of_lt) hs (hp.symm.trans hid.symm)
  · intro op e
    exact perform_of_error

/-- A block that is given back, beside an array that is written to in front of its start and a block
that stands. -/
theorem remembers_steps_beside :
    let ops := [Op.malloc 8, .array 4, .malloc 0, .write ⟨1, -4⟩ (.integer 7),
      .write ⟨0, 0⟩ (.integer 5), .free (.base 0), .free (.base 1)]
    let past := (empty 64).steps ops
    let h := (empty 64).after ops
    (made past).length < UInt32.size ∧ h.read ⟨1, -4⟩ = .ok (.integer 7) ∧
      (∀ v, h.write ⟨0, 4⟩ v = .error (.dangling ⟨0, 4⟩)) ∧ ∃ r, h.release (.base 2) = .ok r := by
  intro ops past h
  have hfew : (made past).length < UInt32.size := by decide
  have hr : Remembers past h := remembers_steps 64 ops hfew
  have harray : Stands past ⟨1, .array, 4⟩ (past.drop 2) :=
    ⟨past.take 1, ⟨.array 4, .ok (.address (.base 1))⟩, rfl, rfl, by decide⟩
  have hblock : Stands past ⟨2, .block, 0⟩ (past.drop 3) :=
    ⟨past.take 2, ⟨.malloc 0, .ok (.address (.base 2))⟩, rfl, rfl, by decide⟩
  have hgone : Gone past ⟨0, .block, 8⟩ :=
    ⟨[], ⟨.malloc 8, .ok (.address (.base 0))⟩, past.drop 1, rfl, rfl, by decide⟩
  refine ⟨hfew, ?_, ?_, ?_⟩
  · exact (hr.read_iff ⟨1, -4⟩ (.integer 7)).2 ⟨_, _, harray, rfl, by decide⟩
  · exact (hr.gone _ hgone ⟨0, 4⟩ rfl).2.1
  · exact (hr.release_iff (.base 2)).2 ⟨rfl, _, _, hblock, rfl, rfl⟩

end MiniC.Heap
