import MiniC.Heap.History

/-!
# What the past of a heap tells

The past of a heap is the list of the operations that were performed on it, each with what it
yielded, first one first.  It tells which regions were made, which of them were given back or
dropped since, and what was written where; the heap itself is not looked at for that.

Main definitions:

* `MiniC.Heap.Step`, `MiniC.Heap.steps`: an operation with what it yielded, and those of a history;
* `MiniC.Heap.Allotment`, `MiniC.Heap.made`: a region as it was made, and all that were;
* `MiniC.Heap.Stands`, `MiniC.Heap.standing`: the regions that were made and not ended since;
* `MiniC.Heap.lastWritten`: the value that was written last at a place;
* `MiniC.Heap.Effect`: what a step does to a heap.

Main results:

* `MiniC.Heap.stands_concat`, `MiniC.Heap.standing_concat`: what one more step changes;
* `MiniC.Heap.effect_perform`: an operation makes a region, ends one, writes a value or does
  nothing;
* `MiniC.Heap.along_steps`: what every step preserves holds after every history.
-/

set_option autoImplicit false

namespace MiniC.Heap

/-! ### Steps -/

/-- An operation with what it yielded. -/
structure Step where
  op : Op
  answer : Except HeapError Answer

/-- The operations of a history with what they yield, first one first. -/
def steps (h : Heap) : List Op → List Step
  | [] => []
  | op :: ops => ⟨op, (h.perform op).1⟩ :: steps (h.perform op).2 ops

/-- A region as it was made: its number, what it is for, and its size in bytes. -/
structure Allotment where
  id : RegionId
  kind : RegionKind
  size : Nat
deriving DecidableEq, Repr, Inhabited

namespace Step

/-- The region that a step made, if it made one. -/
def made? (s : Step) : Option Allotment :=
  match s.op, s.answer with
  | .malloc size, .ok (.address p) => some ⟨p.region, .block, size⟩
  | .array size, .ok (.address p) => some ⟨p.region, .array, size⟩
  | _, _ => none

/-- The region that a step gave back or dropped, if it did so. -/
def ended? (s : Step) : Option RegionId :=
  match s.op, s.answer with
  | .free p, .ok _ => some p.region
  | .drop id, .ok _ => some id
  | _, _ => none

/-- The value that a step wrote at `p`, if it wrote one there. -/
def written? (p : Pointer) (s : Step) : Option Value :=
  match s.op, s.answer with
  | .write q v, .ok _ => if q = p then some v else none
  | _, _ => none

end Step

/-! ### Regions that stand -/

/-- All regions that were made, in the order in which they were. -/
def made (past : List Step) : List Allotment := past.filterMap Step.made?

/-- The region `a` was made, and was not ended since; `since` are the steps behind the one that made
it. -/
def Stands (past : List Step) (a : Allotment) (since : List Step) : Prop :=
  ∃ earlier s, past = earlier ++ s :: since ∧ s.made? = some a ∧ ∀ t ∈ since, t.ended? ≠ some a.id

/-- The regions that were made and not ended since, in the order in which they were made. -/
def standing : List Step → List Allotment
  | [] => []
  | s :: since =>
    (s.made?.filter fun a => ∀ t ∈ since, t.ended? ≠ some a.id).toList ++ standing since

/-- The value that was written last at `p`; if none was, the mark of what was never written. -/
def lastWritten (p : Pointer) (since : List Step) : Value :=
  (since.filterMap (Step.written? p)).getLast?.getD .uninitialized

theorem made_cons (s : Step) (past : List Step) :
    made (s :: past) = s.made?.toList ++ made past := by
  cases hs : s.made? <;> simp [made, hs]

@[simp] theorem made_concat (past : List Step) (s : Step) :
    made (past ++ [s]) = made past ++ s.made?.toList := by
  cases hs : s.made? <;> simp [made, hs]

@[simp] theorem lastWritten_nil (p : Pointer) : lastWritten p [] = .uninitialized := rfl

theorem lastWritten_concat (p : Pointer) (since : List Step) (s : Step) :
    lastWritten p (since ++ [s]) = (s.written? p).getD (lastWritten p since) := by
  cases hs : s.written? p <;> simp [lastWritten, hs]

/-- What stands at the end of a past is what its last step made, or stood before and was not ended
by that step. -/
theorem stands_concat {past since : List Step} {s : Step} {a : Allotment} :
    Stands (past ++ [s]) a since ↔
      (s.made? = some a ∧ since = []) ∨
        s.ended? ≠ some a.id ∧ ∃ before, since = before ++ [s] ∧ Stands past a before := by
  constructor
  · rintro ⟨earlier, t, hpast, hmade, hsince⟩
    rcases List.eq_nil_or_concat since with rfl | ⟨before, x, hx⟩
    · obtain ⟨-, hst⟩ := List.append_inj' hpast rfl
      obtain rfl := List.singleton_inj.1 hst
      exact .inl ⟨hmade, rfl⟩
    · rw [List.concat_eq_append] at hx
      subst hx
      have hsplit : past ++ [s] = (earlier ++ t :: before) ++ [x] := by
        rw [hpast, List.append_assoc, List.cons_append]
      obtain ⟨hbefore, hsx⟩ := List.append_inj' hsplit rfl
      obtain rfl := List.singleton_inj.1 hsx
      refine .inr ⟨hsince s (by simp), before, rfl, earlier, t, hbefore, hmade, ?_⟩
      intro u hu
      exact hsince u (List.mem_append_left [s] hu)
  · rintro (⟨hmade, rfl⟩ | ⟨hs, before, rfl, earlier, t, rfl, hmade, hbefore⟩)
    · exact ⟨past, s, rfl, hmade, by simp⟩
    · refine ⟨earlier, t, by simp, hmade, ?_⟩
      intro u hu
      rcases List.mem_append.1 hu with hu | hu
      · exact hbefore u hu
      · obtain rfl := List.mem_singleton.1 hu
        exact hs

theorem stands_cons {past since : List Step} {s : Step} {a : Allotment} :
    Stands (s :: past) a since ↔
      (s.made? = some a ∧ since = past ∧ ∀ t ∈ past, t.ended? ≠ some a.id) ∨
        Stands past a since := by
  constructor
  · rintro ⟨earlier, t, hpast, hmade, hsince⟩
    cases earlier with
    | nil =>
      cases hpast
      exact .inl ⟨hmade, rfl, hsince⟩
    | cons x earlier =>
      cases hpast
      exact .inr ⟨earlier, t, rfl, hmade, hsince⟩
  · rintro (⟨hmade, rfl, hsince⟩ | ⟨earlier, t, rfl, hmade, hsince⟩)
    · exact ⟨[], s, rfl, hmade, hsince⟩
    · exact ⟨s :: earlier, t, rfl, hmade, hsince⟩

theorem mem_standing {past : List Step} {a : Allotment} :
    a ∈ standing past ↔ ∃ since, Stands past a since := by
  induction past with
  | nil => simp [standing, Stands]
  | cons s past ih =>
    have hfirst : a ∈ (s.made?.filter fun a => ∀ t ∈ past, t.ended? ≠ some a.id).toList ↔
        s.made? = some a ∧ ∀ t ∈ past, t.ended? ≠ some a.id := by
      rw [Option.mem_toList, Option.filter_eq_some_iff, decide_eq_true_iff]
    rw [standing, List.mem_append, hfirst, ih]
    constructor
    · rintro (⟨hs, hpast⟩ | ⟨since, hsince⟩)
      · exact ⟨past, stands_cons.2 (.inl ⟨hs, rfl, hpast⟩)⟩
      · exact ⟨since, stands_cons.2 (.inr hsince)⟩
    · rintro ⟨since, hsince⟩
      rcases stands_cons.1 hsince with ⟨hs, rfl, hpast⟩ | hsince
      · exact .inl ⟨hs, hpast⟩
      · exact .inr ⟨since, hsince⟩

/-- One more step takes away what it ends, and adds what it makes. -/
theorem standing_concat (past : List Step) (s : Step) :
    standing (past ++ [s]) =
      ((standing past).filter fun a => s.ended? ≠ some a.id) ++ s.made?.toList := by
  induction past with
  | nil => cases hs : s.made? <;> simp [standing, hs]
  | cons t past ih =>
    rw [List.cons_append, standing, standing, ih, List.filter_append, List.append_assoc]
    congr 1
    cases t.made? with
    | none => rfl
    | some a =>
      have hlonger : (∀ u ∈ past ++ [s], u.ended? ≠ some a.id) ↔
          (∀ u ∈ past, u.ended? ≠ some a.id) ∧ s.ended? ≠ some a.id := by
        rw [List.forall_mem_append, List.forall_mem_singleton]
      simp only [Option.filter_some, decide_eq_true_iff, hlonger]
      by_cases hp : ∀ u ∈ past, u.ended? ≠ some a.id
      · by_cases hs : s.ended? = some a.id
        · rw [if_neg (fun h => h.2 hs), if_pos hp]
          simp [hs]
        · rw [if_pos ⟨hp, hs⟩, if_pos hp]
          simp [hs]
      · rw [if_neg (fun h => hp h.1), if_neg hp]
        rfl

/-- What stands was made, and in this order. -/
theorem standing_sublist_made (past : List Step) : (standing past).Sublist (made past) := by
  induction past with
  | nil => exact .slnil
  | cons s past ih =>
    rw [standing]
    cases hs : s.made? with
    | none =>
      rw [made, List.filterMap_cons_none hs]
      exact ih
    | some a =>
      rw [made, List.filterMap_cons_some hs]
      by_cases hp : ∀ t ∈ past, t.ended? ≠ some a.id
      · rw [Option.filter_some_pos (by simpa using hp)]
        exact ih.cons_cons a
      · rw [Option.filter_some_neg (by simpa using hp)]
        exact ih.cons a

/-! ### What steps do -/

/-- What a step does to a heap: it makes a region, ends one, writes a value, or does nothing. -/
inductive Effect (h : Heap) (s : Step) : Heap → Prop
  | made {kind : RegionKind} {size : Nat} {p : Pointer} {h' : Heap} :
      h.allocate kind size = .ok (p, h') → s.made? = some ⟨h.next, kind, size⟩ → s.ended? = none →
      (∀ q, s.written? q = none) → Effect h s h'
  | ended {id : RegionId} :
      s.made? = none → s.ended? = some id → (∀ q, s.written? q = none) → Effect h s (h.drop id)
  | wrote {p : Pointer} {v : Value} {h' : Heap} :
      h.write p v = .ok h' → s.made? = none → s.ended? = none →
      (∀ q, s.written? q = if p = q then some v else none) → Effect h s h'
  | nothing :
      s.made? = none → s.ended? = none → (∀ q, s.written? q = none) → Effect h s h

/-- Every operation does one of these. -/
theorem effect_perform (h : Heap) (op : Op) :
    Effect h ⟨op, (h.perform op).1⟩ (h.perform op).2 := by
  cases op with
  | malloc size =>
    simp only [perform]
    cases ha : h.allocate .block size with
    | ok r =>
      obtain ⟨p, h'⟩ := r
      obtain ⟨rfl, -⟩ := eq_of_allocate ha
      exact .made ha rfl rfl fun _ => rfl
    | error e => exact .nothing rfl rfl fun _ => rfl
  | array size =>
    simp only [perform]
    cases ha : h.allocate .array size with
    | ok r =>
      obtain ⟨p, h'⟩ := r
      obtain ⟨rfl, -⟩ := eq_of_allocate ha
      exact .made ha rfl rfl fun _ => rfl
    | error e => exact .nothing rfl rfl fun _ => rfl
  | free p =>
    simp only [perform]
    cases hr : h.release p with
    | ok r =>
      obtain ⟨size, h'⟩ := r
      obtain ⟨-, -, -, -, -, rfl⟩ := release_eq_ok_iff.1 hr
      exact .ended rfl rfl fun _ => rfl
    | error e => exact .nothing rfl rfl fun _ => rfl
  | drop id => exact .ended rfl rfl fun _ => rfl
  | read p =>
    simp only [perform]
    cases h.read p with
    | ok v => exact .nothing rfl rfl fun _ => rfl
    | error e => exact .nothing rfl rfl fun _ => rfl
  | write p v =>
    simp only [perform]
    cases hw : h.write p v with
    | ok h' => exact .wrote hw rfl rfl fun _ => rfl
    | error e => exact .nothing rfl rfl fun _ => rfl

/-- What holds at first and is preserved by every step holds after every history. -/
theorem along_steps {P : List Step → Heap → Prop} {h : Heap} (hstart : P [] h)
    (hstep : ∀ {past : List Step} {h : Heap} {s : Step} {h' : Heap},
      Effect h s h' → P past h → P (past ++ [s]) h')
    (ops : List Op) : P (h.steps ops) (h.after ops) := by
  suffices hfrom : ∀ past h, P past h → P (past ++ h.steps ops) (h.after ops) from hfrom [] h hstart
  induction ops with
  | nil =>
    intro past h hp
    simpa [steps] using hp
  | cons op ops ih =>
    intro past h hp
    have hnext := ih (past ++ [⟨op, (h.perform op).1⟩]) _ (hstep (h.effect_perform op) hp)
    rw [List.append_assoc] at hnext
    exact hnext

end MiniC.Heap
