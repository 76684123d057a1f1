import MiniC.Proofs.Following
import MiniC.Proofs.Internal
import MiniC.Proofs.Items
import MiniC.Proofs.Parsed

/-!
# What is read in the course of runs

All the runs of a session read one stream: the number of integers that were asked for so far tells
what comes next.  Asking takes an item of the input whatever it is; so the answers so far are those
of the first items, and the others are left.

Main definitions:

* `MiniC.answers`: what came of the readings that a journal tells of;
* `MiniC.Machine.HasRead`: a machine that has read the first items of an input.

Main results:

* `MiniC.Machine.invariant_hasRead`: programs read item by item;
* `MiniC.Session.gets_items_in_order`: each `GET` of a session takes the next item of its input.
-/

set_option autoImplicit false

namespace MiniC

/-! ### Answers -/

/-- What came of a reading. -/
def Event.answer? : Event → Option (Except InputError Int64)
  | got n => some (.ok n)
  | missed e => some (.error e)
  | _ => none

/-- What came of the readings that a journal tells of, the first one first. -/
def answers (es : List Event) : List (Except InputError Int64) := noted Event.answer? es

theorem Event.answer?_of_isInternal {e : Event} (h : e.isInternal = true) : e.answer? = none := by
  cases e <;> first | rfl | cases h

theorem Event.answer?_of_isProgress {e : Event} (h : e.isProgress = true) : e.answer? = none := by
  cases e <;> first | rfl | cases h

/-! ### Machines -/

namespace Machine

variable {i : Input} {m m' : Machine}

/-- The machine has read the first items of `i`, as its journal tells, and has the others left. -/
def HasRead (i : Input) (m : Machine) : Prop :=
  ∃ es, m.journal = some es ∧ (∀ k r, (answers es)[k]? = some r → r = i.answer k) ∧
    m.input.items = i.items.drop (answers es).length ∧ m.input.ending = i.ending

/-- What reads nothing leaves what has been read. -/
theorem HasRead.aside (h : m.HasRead i) (hinput : m'.input = m.input)
    (hnotes : m.Notes (fun e => e.answer? = none) m') : m'.HasRead i := by
  obtain ⟨es, hes, hanswers, hitems, hending⟩ := h
  obtain ⟨es', hnone, hjournal⟩ := hnotes
  refine ⟨es' ++ es, by rw [hjournal, hes, Option.map_some], ?_⟩
  rw [answers, noted_append_of_forall hnone, hinput]
  exact ⟨hanswers, hitems, hending⟩

/-- Reading takes the next item. -/
theorem HasRead.next (h : m.HasRead i) {r : Except InputError Int64} {input : Input}
    (hnext : m.input.next = (r, input)) {e : Event} (he : e.answer? = some r) :
    HasRead i ({ m with input := input }.note e) := by
  obtain ⟨es, hes, hanswers, hitems, hending⟩ := h
  have hr : r = i.answer (answers es).length := by
    have hfirst : r = m.input.answer 0 := (congrArg Prod.fst hnext).symm.trans m.input.fst_next
    rw [hfirst, Input.answer, Input.answer, hitems, hending, List.getElem?_drop, Nat.add_zero]
  have hjournal : ({ m with input := input } : Machine).journal = some es := hes
  have hmore : answers (e :: es) = answers es ++ [r] := noted_cons_of_some he es
  refine ⟨e :: es, journal_note hjournal e, ?_⟩
  rw [hmore, input_note]
  refine ⟨fun k r' hk => ?_, ?_, ?_⟩
  · rw [List.getElem?_append, List.getElem?_singleton] at hk
    split at hk
    · exact hanswers k r' hk
    · obtain ⟨hlast, hsome⟩ := Option.ite_none_right_eq_some.1 hk
      rw [← Option.some.inj hsome, hr, show k = (answers es).length by omega]
  · have hrest := m.input.items_next
    rw [hnext, hitems, List.tail_drop] at hrest
    rw [List.length_append, List.length_singleton]
    exact hrest
  · have hlast := m.input.ending_next
    rw [hnext, hending] at hlast
    exact hlast

/-- Programs read item by item. -/
theorem invariant_hasRead (i : Input) (declares : Variable → Prop) (scope : Nat → Option Bool) :
    Machine.Invariant declares scope (HasRead i) := by
  refine .of_internal (fun hm h => ?_) (fun he h => ?_) (fun hnext h => ?_) (fun hnext h => ?_)
    (fun _ h => ?_) (fun _ h => ?_) (fun _ _ h => ?_) fun h => ?_
  · exact h.aside hm.input_eq (hm.notes.mono fun _ => Event.answer?_of_isInternal)
  · exact h.aside (input_note _ _) (notes_note _ (Event.answer?_of_isProgress he))
  · exact h.next hnext rfl
  · exact h.next hnext rfl
  · exact h.aside (input_note _ _) (notes_note _ rfl)
  · exact h
  · exact h
  · exact h.aside (by unfold leaveFrame; split <;> rfl) (.of_eq (journal_leaveFrame _))

end Machine

/-! ### Sessions -/

/-- What a `GET` leaves that got a certain answer. -/
def Eval.gotten (loc : Location) (m : Machine) : Except InputError Int64 → Outcome Value
  | .ok n => .done (.integer n) (m.note (.got n))
  | .error e => .failed (.fault loc (.input e)) (m.note (.missed e))

theorem Eval.run_callGet (loc : Location) (m : Machine) :
    (callGet loc).run m = gotten loc { m with input := m.input.next.2 } m.input.next.1 := by
  rw [callGet, run_bind, readInteger]
  rcases h : m.input.next with ⟨e | n, input⟩ <;> simp [op, h, gotten]

/-- The readings that a journal tells of have taken the first of certain items, one each, and the
next `GET` takes the one behind them. -/
structure Machine.TakesInOrder (items : List Input.Item) (es : List Event) (m : Machine) :
    Prop where
  answered : ∀ (k : Nat) r, (answers es)[k]? = some r → Input.Item.Answered items[k]? r
  items_eq : m.input.items = items.drop (answers es).length
  run_callGet : ∀ loc, ∃ r input, Input.Item.Answered items[(answers es).length]? r ∧
    Input.items input = items.drop ((answers es).length + 1) ∧
    (Eval.callGet loc).run m = Eval.gotten loc { m with input := input } r

theorem Machine.HasRead.takesInOrder {bytes : List UInt8} {m : Machine} {es : List Event}
    (h : (m.telling es).HasRead (.ofBytes bytes)) : m.TakesInOrder (Input.itemsOf bytes) es := by
  obtain ⟨es', hes, hanswers, hitems, hending⟩ := h
  obtain rfl := Option.some.inj hes
  have hitems : m.input.items = (Input.itemsOf bytes).drop (answers es).length := hitems
  have hanswered := m.input.answered_answer hending 0
  rw [hitems, List.getElem?_drop, Nat.add_zero] at hanswered
  refine ⟨fun k r hk => ?_, hitems, fun loc => ⟨_, m.input.next.2, hanswered, ?_, ?_⟩⟩
  · rw [hanswers k r hk]
    exact Input.answered_answer (i := .ofBytes bytes) rfl k
  · rw [Input.items_next, hitems, List.tail_drop]
  · rw [Eval.run_callGet, Input.fst_next]

namespace Session

/-- Each `GET` takes the next item of the input, throughout all runs of a session.

A session asks for the same integers if it is followed; and then the journal tells what came of the
readings so far.  They are answered by the first items of the input, one each, whatever these are:
a word that is a numeral of a 64-bit integer yields that integer, and any other word and a line that
is not UTF-8 are input errors.  The items behind these are left, and the next `GET` takes the first
of them; if there is none, it fails.  The items of a text are its words, wherever its lines end. -/
theorem gets_items_in_order (p : Program) (config : Config) (bytes : List UInt8) (output : Output)
    (journal : Option (List Event)) {m : Machine}
    (hm : (start p config (.ofBytes bytes) output journal).Passes m) :
    let s := start p config (.ofBytes bytes) output journal
    (∃ es, s.followed.Passes (m.telling es)) ∧
      (∀ es, s.followed.Passes (m.telling es) → m.TakesInOrder (Input.itemsOf bytes) es) ∧
      (∀ cs, Input.decode? bytes = some cs →
        Input.itemsOf bytes = (Blank.words cs).map .word) ∧
      InputError.exhausted.message = "no integer left in input" := by
  have hreads : ∀ {m'}, (start p config (.ofBytes bytes) output (some [])).Passes m' →
      m'.HasRead (.ofBytes bytes) := fun hm' =>
    hm'.invariant (Machine.invariant_hasRead _ (fun _ => True) _) (fun _ _ => trivial)
      (fun _ _ _ _ => trivial) ⟨[], rfl, by simp [answers, noted], rfl, rfl⟩
  refine ⟨?_, fun es hes => (hreads hes).takesInOrder, fun cs => Input.itemsOf_eq_words, rfl⟩
  obtain ⟨m', hm', hsame⟩ := hm.followed
  obtain ⟨es, hes, -⟩ := hreads hm'
  exact ⟨es, hsame.eq_telling hes ▸ hm'⟩

/-- A program that reads three integers, on a text of which the second line is not UTF-8. -/
def mixed : Session :=
  .start (.ofText "int main() { return GET() + GET() + GET(); }") {}
    (.ofBytes (" +5\n".toUTF8.toList ++ [255, 10] ++ "-7 x".toUTF8.toList)) .unlimited (some [])

/-- The first two items are taken, the last two are left, whatever is on the line. -/
theorem gets_items_in_order_mixed :
    ∃ m es, mixed.Passes m ∧ m.journal = some es ∧
      answers es = [.ok 5, .error .notText] ∧
      m.TakesInOrder [.word ['+', '5'], .undecodable, .word ['-', '7'], .word ['x']] es := by
  have hshown : (mixed.run 9).machine?.map (fun m => m.journal.map answers) =
      some (some [.ok 5, .error .notText]) := by
    decide +kernel
  obtain ⟨m, hend, hall⟩ := Option.map_eq_some_iff.1 hshown
  obtain ⟨es, hes, hanswers⟩ := Option.map_eq_some_iff.1 hall
  have hm : mixed.Passes m := ⟨mixed, 9, .start, Eval.visits_end _ _ _ hend⟩
  have hitems : Input.itemsOf (" +5\n".toUTF8.toList ++ [255, 10] ++ "-7 x".toUTF8.toList) =
      [.word ['+', '5'], .undecodable, .word ['-', '7'], .word ['x']] := by decide +kernel
  obtain ⟨-, htakes, -⟩ := gets_items_in_order _ {} _ .unlimited (some []) hm
  have htelling : m.telling es = m := by rw [Machine.telling, ← hes]
  exact ⟨m, es, hm, hes, hanswers, hitems ▸ htakes es (htelling.symm ▸ hm)⟩

end Session

end MiniC
