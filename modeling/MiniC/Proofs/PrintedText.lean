import MiniC.Proofs.InputStream

/-!
# What a run prints, and reading it back

If the output has room for everything, a run prints the integers that `PRINT` is called with, in
that order and a line each, and nothing else.  Such a text is input for as many `GET`s, which yield
the same integers.

Main definitions:

* `MiniC.printedIntegers`: the integers that a journal tells were printed;
* `MiniC.printedText`: the text that printing some integers gives;
* `MiniC.Machine.HasPrinted`: a machine that has printed what its journal tells.

Main results:

* `MiniC.Machine.invariant_hasPrinted`: programs print nothing but such lines;
* `MiniC.Input.itemsOf_printedText`: the items of a printed text are its integers;
* `MiniC.get_undoes_print`: what a run prints, and what is read from such a text.
-/

set_option autoImplicit false

namespace MiniC

open Eval

/-! ### Lines -/

/-- An integer that is printed. -/
def Event.printed? : Event → Option Int64
  | printed n => some n
  | _ => none

/-- The integers that a journal tells were printed, the first one first. -/
def printedIntegers (es : List Event) : List Int64 := noted Event.printed? es

/-- The text that printing some integers gives: their decimal texts, a line each. -/
def printedText : List Int64 → String
  | [] => ""
  | n :: ns => Decimal.text n.toInt ++ "\n" ++ printedText ns

theorem printedText_concat (ns : List Int64) (n : Int64) :
    printedText (ns ++ [n]) = printedText ns ++ line n := by
  induction ns with
  | nil => simp [printedText, line]
  | cons k ns ih => simp [printedText, ih, String.append_assoc]

theorem Event.printed?_of_isInternal {e : Event} (h : e.isInternal = true) : e.printed? = none := by
  cases e <;> first | rfl | cases h

theorem Event.printed?_of_isProgress {e : Event} (h : e.isProgress = true) : e.printed? = none := by
  cases e <;> first | rfl | cases h

/-! ### Machines -/

namespace Machine

variable {o : Output} {m m' : Machine}

/-- The machine has printed what its journal tells, behind what was in the sink `o`. -/
def HasPrinted (o : Output) (m : Machine) : Prop :=
  ∃ es, m.journal = some es ∧
    m.output = { o with text := o.text ++ printedText (printedIntegers es) }

theorem hasPrinted_telling_nil (m : Machine) : (m.telling []).HasPrinted m.output :=
  ⟨[], rfl, by simp [telling, printedIntegers, noted, printedText]⟩

/-- What prints nothing leaves what has been printed. -/
theorem HasPrinted.aside (h : m.HasPrinted o) (houtput : m'.output = m.output)
    (hnotes : m.Notes (fun e => e.printed? = none) m') : m'.HasPrinted o := by
  obtain ⟨es, hes, htext⟩ := h
  obtain ⟨es', hnone, hjournal⟩ := hnotes
  refine ⟨es' ++ es, by rw [hjournal, hes, Option.map_some], ?_⟩
  rw [printedIntegers, noted_append_of_forall hnone, houtput]
  exact htext

/-- Programs print nothing but lines, if there is room for them. -/
theorem invariant_hasPrinted (ho : o.room = none) (declares : Variable → Prop)
    (scope : Nat → Option Bool) : Machine.Invariant declares scope (HasPrinted o) := by
  -- A sink without a limit takes every line.
  have hwrite : ∀ {m : Machine} {n : Int64}, m.HasPrinted o →
      m.output.write (line n) = (true, { m.output with text := m.output.text ++ line n }) := by
    rintro m n ⟨es, -, htext⟩
    exact Output.write_unlimited _ (by rw [htext]; exact ho)
  refine .of_internal (fun hm h => ?_) (fun he h => ?_) (fun _ h => ?_) (fun _ h => ?_)
    (@fun m n _ hn h => ?_) (fun hn h => ?_) (fun _ _ h => ?_) fun h => ?_
  · exact h.aside hm.output_eq (hm.notes.mono fun _ => Event.printed?_of_isInternal)
  · exact h.aside (output_note _ _) (notes_note _ (Event.printed?_of_isProgress he))
  · exact h.aside (output_note _ _) (notes_note _ rfl)
  · exact h.aside (output_note _ _) (notes_note _ rfl)
  · rw [hwrite h] at hn
    obtain ⟨-, rfl⟩ := Prod.mk.inj hn
    obtain ⟨es, hes, htext⟩ := h
    have hmore : printedIntegers (.printed n :: es) = printedIntegers es ++ [n] :=
      noted_cons_of_some (f := Event.printed?) rfl es
    have hjournal : ({ m with output := { m.output with text := m.output.text ++ line n } } :
        Machine).journal = some es := hes
    refine ⟨.printed n :: es, journal_note hjournal _, ?_⟩
    rw [output_note, hmore, printedText_concat, htext, String.append_assoc]
  · rw [hwrite h] at hn
    cases hn
  · exact h
  · exact h.aside (by unfold leaveFrame; split <;> rfl) (.of_eq (journal_leaveFrame _))

end Machine

/-! ### Printing -/

/-- `PRINT` of an integer prints its line, if there is room for it. -/
theorem Eval.run_callPrint_integer {m : Machine} (hroom : m.output.room = none) (n : Int64)
    (loc : Location) : (callPrint (.integer n) loc).run m = .done .uninitialized
      ({ m with output := { m.output with text := m.output.text ++ line n } }.note
        (.printed n)) := by
  rw [callPrint, run_bind, run_writeLine, Output.write_unlimited _ hroom]
  rfl

/-- `PRINT` of anything else fails. -/
theorem Eval.run_callPrint {m : Machine} (hroom : m.output.room = none) (v : Value)
    (loc : Location) :
    (∃ n, v = .integer n ∧ (callPrint v loc).run m = .done .uninitialized
      ({ m with output := { m.output with text := m.output.text ++ line n } }.note (.printed n))) ∨
      (∀ n, v ≠ .integer n) ∧ ∃ e, (callPrint v loc).run m = .failed e m := by
  cases v with
  | integer n => exact .inl ⟨n, rfl, run_callPrint_integer hroom n loc⟩
  | uninitialized => exact .inr ⟨fun _ => Value.noConfusion, _, rfl⟩
  | pointer p => exact .inr ⟨fun _ => Value.noConfusion, _, rfl⟩

/-- `PRINT`s of integers one after the other. -/
def Eval.prints (loc : Location) : List Int64 → Eval Unit
  | [] => return ()
  | n :: ns => do
    let _ ← callPrint (.integer n) loc
    prints loc ns

theorem Eval.run_prints (loc : Location) (ns : List Int64) {m : Machine}
    (hroom : m.output.room = none) : ∃ m', (prints loc ns).run m = .done () m' ∧
      m'.output.text = m.output.text ++ printedText ns := by
  induction ns generalizing m with
  | nil => exact ⟨m, rfl, String.append_empty.symm⟩
  | cons n ns ih =>
    have hroom' : (({ m with output := { m.output with text := m.output.text ++ line n } } :
        Machine).note (.printed n)).output.room = none := by
      rw [Machine.output_note]
      exact hroom
    obtain ⟨m', hrest, htext⟩ := ih hroom'
    refine ⟨m', by rw [prints, run_bind_done (run_callPrint_integer hroom n loc), hrest], ?_⟩
    rw [htext, Machine.output_note, printedText, String.append_assoc]
    rfl

/-- What a run prints, as its journal tells if it is followed. -/
theorem Session.exists_printed (s : Session) (fuel : Nat) (hroom : s.machine.output.room = none) :
    ∃ es, s.followed.run fuel = (s.run fuel).telling es ∧
      ∀ m, (s.run fuel).machine? = some m → m.output =
        { s.machine.output with
          text := s.machine.output.text ++ printedText (printedIntegers es) } := by
  have hinvariant := Machine.invariant_hasPrinted hroom (fun _ => True) s.context.program.isGlobal?
  have hkeeps : (s.context.run fuel).Keeps (Machine.HasPrinted s.machine.output) :=
    hinvariant.keeps_run (fun _ _ => trivial) (fun _ _ _ _ => trivial) fuel
  have hends : ∀ m, (s.followed.run fuel).machine? = some m → m.HasPrinted s.machine.output :=
    fun m hend => hkeeps _ m s.machine.hasPrinted_telling_nil (Eval.visits_end _ _ _ hend)
  have hagree := (Eval.agreeAlong_run s.context fuel).agree s.machine s.followed.machine rfl
  obtain ⟨es, hes⟩ := hagree.exists_eq_telling fun m hend =>
    have ⟨es, hes, _⟩ := hends m hend
    ⟨es, hes⟩
  refine ⟨es, hes, fun m hend => ?_⟩
  have hend' : (s.followed.run fuel).machine? = some (m.telling es) := by
    rw [show s.followed.run fuel = (s.run fuel).telling es from hes, Outcome.machine?_telling,
      hend]
    rfl
  obtain ⟨es', hes', htext⟩ := hends _ hend'
  obtain rfl := Option.some.inj hes'
  exact htext

/-! ### Reading back -/

/-- A digit is no white space, and neither is a sign. -/
theorem isSpace_eq_false_of_mem_render {n : Int} {c : Char} (h : c ∈ Decimal.render n) :
    Blank.isSpace c = false := by
  have hdigit : ∀ {k : Nat}, c ∈ Decimal.natText k → Blank.isSpace c = false := by
    intro k hk
    have hc := Decimal.isDigit_of_mem_natText hk
    have hrange : 48 ≤ c.toNat ∧ c.toNat ≤ 57 := by
      simpa [Char.isDigit, UInt32.le_iff_toNat_le] using hc
    simp [Blank.isSpace]
    omega
  cases n with
  | ofNat k => exact hdigit h
  | negSucc k =>
    rcases List.mem_cons.1 h with rfl | h
    · decide
    · exact hdigit h

theorem render_ne_nil (n : Int) : Decimal.render n ≠ [] := by
  cases n with
  | ofNat k => exact Decimal.natText_ne_nil k
  | negSucc k => exact List.cons_ne_nil _ _

/-- The item that the line of an integer is. -/
def Input.Item.ofInteger (n : Int64) : Input.Item := .word (Decimal.render n.toInt)

theorem Input.Item.read_ofInteger (n : Int64) : (ofInteger n).read = .ok n := by
  rw [ofInteger, read, readWord, Decimal.int64?_render]

/-- The items of a printed text are its integers. -/
theorem Input.itemsOf_printedText (ns : List Int64) :
    itemsOf (printedText ns).toUTF8.toList = ns.map .ofInteger := by
  rw [itemsOf_eq_words (decode?_toUTF8 _)]
  induction ns with
  | nil => rfl
  | cons n ns ih =>
    have htext : (printedText (n :: ns)).toList =
        Decimal.render n.toInt ++ '\n' :: (printedText ns).toList := by
      simp [printedText, Decimal.text]
    rw [htext, Blank.words_append_space _ _ (by decide),
      Blank.words_of_not_isSpace (render_ne_nil _) fun c => isSpace_eq_false_of_mem_render,
      List.map_append, ih]
    rfl

namespace Eval

/-- Any number of `GET`s one after the other. -/
def gets (loc : Location) : Nat → Eval (List Value)
  | 0 => return []
  | k + 1 => do
    let v ← callGet loc
    let vs ← gets loc k
    return v :: vs

/-- `GET`s yield the integers that stand in front, and leave the items behind them. -/
theorem run_gets (loc : Location) {ns : List Int64} {rest : List Input.Item} {m : Machine}
    (h : m.input.items = ns.map .ofInteger ++ rest) :
    ∃ m', (gets loc ns.length).run m = .done (ns.map .integer) m' ∧ m'.input.items = rest ∧
      m'.input.ending = m.input.ending := by
  induction ns generalizing m with
  | nil => exact ⟨m, rfl, h, rfl⟩
  | cons n ns ih =>
    have hfirst : m.input.next.1 = .ok n := by
      rw [Input.fst_next, Input.answer, h]
      exact Input.Item.read_ofInteger n
    have hget : (callGet loc).run m =
        .done (.integer n) ({ m with input := m.input.next.2 }.note (.got n)) := by
      rw [run_callGet, hfirst]
      rfl
    have hleft : (({ m with input := m.input.next.2 } : Machine).note (.got n)).input.items =
        ns.map .ofInteger ++ rest := by
      rw [Machine.input_note]
      show m.input.next.2.items = _
      rw [Input.items_next, h]
      rfl
    obtain ⟨m', hgets, hitems, hending⟩ := ih hleft
    refine ⟨m', ?_, hitems, ?_⟩
    · rw [List.length_cons, gets, run_bind_done hget, run_bind_done hgets]
      rfl
    · rw [hending, Machine.input_note]
      exact m.input.ending_next

end Eval

/-- `GET` undoes `PRINT`.

If the output has room for everything, what a run prints, whether it ends well or with an error, is
a line for each integer that it printed, in that order, and nothing else; its journal tells of these
if it is followed.  `PRINT` of an integer adds its line and says so in the journal, and `PRINT` of
anything else fails.

And on the text that `PRINT`s of some integers give, as many `GET`s yield these integers; the next
one fails, for there is no integer left. -/
theorem get_undoes_print :
    (∀ (s : Session) (fuel : Nat), s.machine.output.room = none →
      ∃ es, s.followed.run fuel = (s.run fuel).telling es ∧
        ∀ m, (s.run fuel).machine? = some m →
          m.output.text = s.machine.output.text ++ printedText (printedIntegers es)) ∧
      (∀ (m : Machine) (v : Value) (loc : Location), m.output.room = none →
        (∃ n, v = .integer n ∧ (callPrint v loc).run m = .done .uninitialized
          ({ m with output := { m.output with
            text := m.output.text ++ printedText [n] } }.note (.printed n))) ∨
          (∀ n, v ≠ .integer n) ∧ ∃ e, (callPrint v loc).run m = .failed e m) ∧
      ∀ (ns : List Int64) (loc : Location) (m : Machine), m.output = .unlimited →
        ∃ m₁, (prints loc ns).run m = .done () m₁ ∧ m₁.output.text = printedText ns ∧
          ∀ m₂ : Machine, m₂.input = .ofBytes m₁.output.text.toUTF8.toList →
            ∃ m₃ m₄, (gets loc ns.length).run m₂ = .done (ns.map .integer) m₃ ∧
              (callGet loc).run m₃ = .failed (.fault loc (.input .exhausted)) m₄ ∧
              InputError.exhausted.message = "no integer left in input" := by
  refine ⟨fun s fuel hroom => ?_, fun m v loc hroom => ?_, fun ns loc m hempty => ?_⟩
  · obtain ⟨es, hes, houtput⟩ := s.exists_printed fuel hroom
    exact ⟨es, hes, fun m hend => congrArg Output.text (houtput m hend)⟩
  · have hline : ∀ n, printedText [n] = line n := fun n => String.append_empty
    simp only [hline]
    exact run_callPrint hroom v loc
  · obtain ⟨m₁, hprints, htext⟩ := run_prints loc ns (congrArg Output.room hempty)
    rw [hempty, show Output.unlimited.text = "" from rfl, String.empty_append] at htext
    refine ⟨m₁, hprints, htext, fun m₂ hinput => ?_⟩
    have hitems : m₂.input.items = ns.map .ofInteger ++ [] := by
      rw [hinput, htext, Input.items_ofBytes, Input.itemsOf_printedText, List.append_nil]
    obtain ⟨m₃, hgets, hleft, hending⟩ := run_gets loc hitems
    have hlast : m₃.input.next.1 = .error .exhausted := by
      rw [Input.fst_next, Input.answer, hleft, hending, hinput]
      rfl
    have hfails : (callGet loc).run m₃ = .failed (.fault loc (.input .exhausted))
        ({ m₃ with input := m₃.input.next.2 }.note (.missed .exhausted)) := by
      rw [run_callGet, hlast]
      rfl
    exact ⟨m₃, _, hgets, hfails, rfl⟩

/-- A program that prints both extremes and fails behind them. -/
def extremes : Session :=
  .start (.ofText "int main() { PRINT(-9223372036854775807 - 1); PRINT(9223372036854775807);
    return 1 / 0; }") {} (.ofBytes []) .unlimited none

/-- What it prints is read back. -/
theorem get_undoes_print_extremes :
    ∃ e m es, extremes.run 9 = .failed e m ∧
      printedIntegers es = [Int64.minValue, Int64.maxValue] ∧
      m.output.text = printedText (printedIntegers es) ∧
      ∃ m₁ m₂, (gets .start 2).run { m with input := .ofBytes m.output.text.toUTF8.toList } =
          .done [.integer Int64.minValue, .integer Int64.maxValue] m₁ ∧
        (callGet .start).run m₁ = .failed (.fault .start (.input .exhausted)) m₂ := by
  have hfails : (extremes.run 9).error?.isSome = true := by decide +kernel
  have hprinted : (extremes.followed.run 9).machine?.map
      (fun m => m.journal.map printedIntegers) =
        some (some [Int64.minValue, Int64.maxValue]) := by decide +kernel
  obtain ⟨e, he⟩ := Option.isSome_iff_exists.1 hfails
  obtain ⟨m, hrun⟩ := Outcome.exists_of_error? he
  obtain ⟨hruns, -, hback⟩ := get_undoes_print
  obtain ⟨es, hes, hends⟩ := hruns extremes 9 rfl
  have htext : m.output.text = printedText (printedIntegers es) := by
    rw [hends m (by rw [hrun]; rfl)]
    exact String.empty_append
  have hints : printedIntegers es = [Int64.minValue, Int64.maxValue] := by
    rw [hes, hrun] at hprinted
    exact Option.some.inj (Option.some.inj hprinted)
  obtain ⟨m₁, -, htext₁, hread⟩ := hback (printedIntegers es) .start extremes.machine rfl
  obtain ⟨m₃, m₄, hgets, hlast, -⟩ := hread
    { m with input := .ofBytes m.output.text.toUTF8.toList } (by rw [htext, htext₁])
  rw [hints] at hgets
  exact ⟨e, m, es, hrun, hints, htext, m₃, m₄, hgets, hlast⟩

end MiniC
