import MiniC.Builtin

/-!
# What is read and printed

A computation that goes well reads some integers, prints some text, and forgets no global variable.
What it reads stands at the front of the input, and what it prints fits into the output; wherever
the same integers stand in front, and there is room for the same text, the same can be read and
printed again.

Main definitions:

* `MiniC.Input.Reads`: integers that are read one after the other;
* `MiniC.Output.Takes`, `MiniC.Output.add`: the text fits, and the sink with it added;
* `MiniC.Machine.Proceeds`, `MiniC.Machine.Offers`: what is read and printed between two machines,
  and that there is enough to read, and room to print.

Main results:

* `MiniC.Input.reads_append_iff`, `MiniC.Output.takes_append_iff`: one part after the other;
* `MiniC.Input.Reads.unique`: what was read is known by what is left;
* `MiniC.Machine.Proceeds.trans`, `MiniC.Machine.Offers.behind`: what that means for machines;
* `MiniC.Machine.proceeds_writePlace`, `MiniC.Machine.proceeds_allocate` and others: operations that
  read and print nothing.
-/

set_option autoImplicit false

namespace MiniC

/-! ### Input -/

namespace Input

/-- From `i` the integers `ns` are read one after the other, which leaves `j`. -/
inductive Reads : Input → List Int64 → Input → Prop
  | nil (i : Input) : Reads i [] i
  | cons {i i' j : Input} {n : Int64} {ns : List Int64} :
      i.next = (.ok n, i') → Reads i' ns j → Reads i (n :: ns) j

variable {i j k : Input} {ns ns' : List Int64}

theorem reads_append_iff :
    i.Reads (ns ++ ns') k ↔ ∃ j, i.Reads ns j ∧ j.Reads ns' k := by
  induction ns generalizing i with
  | nil =>
    constructor
    · exact fun h => ⟨i, .nil i, h⟩
    · rintro ⟨j, hj, h⟩
      cases hj
      exact h
  | cons n ns ih =>
    constructor
    · intro h
      cases h with
      | cons hn h =>
        obtain ⟨j, hj, h⟩ := ih.1 h
        exact ⟨j, .cons hn hj, h⟩
    · rintro ⟨j, hj, h⟩
      cases hj with
      | cons hn hj => exact .cons hn (ih.2 ⟨j, hj, h⟩)

/-- Reading the same integers leaves the same. -/
theorem Reads.eq (h : i.Reads ns j) (h' : i.Reads ns k) : j = k := by
  induction h with
  | nil i =>
    cases h'
    rfl
  | cons hn _ ih =>
    cases h' with
    | cons hn' h' =>
      cases hn.symm.trans hn'
      exact ih h'

/-- Less is left to read: there are fewer lines, or as many and fewer words of the one begun. -/
def IsBehind (j i : Input) : Prop :=
  j.lines.length < i.lines.length ∨
    j.lines.length = i.lines.length ∧ j.pending.length < i.pending.length

theorem isBehind_nextFrom (ending : InputError) (pending : List (List Char))
    (lines : List (List UInt8)) {n : Int64} {j : Input}
    (h : nextFrom ending pending lines = (.ok n, j)) : j.IsBehind ⟨pending, lines, ending⟩ := by
  induction lines generalizing pending with
  | nil =>
    cases pending with
    | nil => cases h
    | cons word words =>
      obtain ⟨-, rfl⟩ := Prod.mk.inj h
      exact .inr ⟨rfl, Nat.lt_succ_self _⟩
  | cons line lines ih =>
    cases pending with
    | cons word words =>
      obtain ⟨-, rfl⟩ := Prod.mk.inj h
      exact .inr ⟨rfl, Nat.lt_succ_self _⟩
    | nil =>
      rw [nextFrom] at h
      split at h
      · next cs _ =>
        have hlines : j.lines.length ≤ lines.length :=
          (ih _ h).elim Nat.le_of_lt fun h => Nat.le_of_eq h.1
        exact .inl (Nat.lt_succ_of_le hlines)
      · cases h

/-- Reading anything leaves less. -/
theorem Reads.eq_or_isBehind (h : i.Reads ns j) : ns = [] ∧ j = i ∨ j.IsBehind i := by
  induction h with
  | nil i => exact .inl ⟨rfl, rfl⟩
  | @cons i i' j n ns hn _ ih =>
    have hfirst : i'.IsBehind i := isBehind_nextFrom i.ending i.pending i.lines hn
    right
    rcases ih with ⟨-, rfl⟩ | hrest
    · exact hfirst
    · unfold IsBehind at hfirst hrest ⊢
      omega

/-- What was read is known by what is left. -/
theorem Reads.unique (h : i.Reads ns j) (h' : i.Reads ns' j) : ns = ns' := by
  have irrefl : ¬j.IsBehind j := by
    unfold IsBehind
    omega
  induction h generalizing ns' with
  | nil i => exact (h'.eq_or_isBehind.resolve_right irrefl).1.symm
  | @cons i i' j n ns hn hrest ih =>
    cases h' with
    | nil =>
      have hback := (Reads.cons hn hrest).eq_or_isBehind.resolve_right irrefl
      cases hback.1
    | cons hn' h' =>
      cases hn.symm.trans hn'
      rw [ih h' irrefl]

theorem reads_singleton {n : Int64} (h : i.next = (.ok n, j)) : i.Reads [n] j :=
  .cons h (.nil j)

end Input

/-! ### Output -/

namespace Output

/-- There is room for the text. -/
def Takes (o : Output) (t : String) : Prop := ∀ room, o.room = some room → t.utf8ByteSize ≤ room

/-- The sink with a text added for which there is room. -/
def add (o : Output) (t : String) : Output :=
  { o with text := o.text ++ t, room := o.room.map (· - t.utf8ByteSize) }

variable {o o' : Output} {s t : String}

/-- A text is written if there is room for it, and then it is added. -/
theorem write_eq_true_iff : o.write s = (true, o') ↔ o.Takes s ∧ o' = o.add s := by
  obtain ⟨text, _ | room, fault⟩ := o
  · have htakes : Takes ⟨text, none, fault⟩ s := fun _ h => by cases h
    constructor
    · intro h
      cases h
      exact ⟨htakes, rfl⟩
    · rintro ⟨-, rfl⟩
      rfl
  · have htakes : Takes ⟨text, some room, fault⟩ s ↔ s.utf8ByteSize ≤ room := by
      constructor
      · exact fun h => h room rfl
      · rintro h _ ⟨⟩
        exact h
    rw [htakes, write]
    split
    · next hroom =>
      constructor
      · intro h
        cases h
        exact ⟨hroom, rfl⟩
      · rintro ⟨-, rfl⟩
        rfl
    · next hroom =>
      refine iff_of_false (fun h => ?_) fun h => hroom h.1
      cases h

theorem takes_empty : o.Takes "" := fun _ _ => Nat.zero_le _

@[simp] theorem add_empty : o.add "" = o := by
  obtain ⟨text, _ | room, fault⟩ := o <;> simp [add]

theorem takes_append_iff : o.Takes (s ++ t) ↔ o.Takes s ∧ (o.add s).Takes t := by
  obtain ⟨text, _ | room, fault⟩ := o
  · simp [Takes, add]
  · simp only [Takes, add, String.utf8ByteSize_append, Option.map_some, Option.some.injEq,
      forall_eq']
    omega

theorem add_append : o.add (s ++ t) = (o.add s).add t := by
  obtain ⟨text, _ | room, fault⟩ := o
  · simp [add, String.append_assoc]
  · simp [add, String.append_assoc, Nat.sub_sub]

end Output

/-! ### Machines -/

namespace Machine

/-- From `m` to `m₁`, the integers `ns` are read and the text `t` is printed, and no global variable
loses its value. -/
structure Proceeds (ns : List Int64) (t : String) (m m₁ : Machine) : Prop where
  reads : m.input.Reads ns m₁.input
  takes : m.output.Takes t
  output_eq : m₁.output = m.output.add t
  globals : ∀ id, (m.globals.lookup? id).isSome → (m₁.globals.lookup? id).isSome

/-- The integers `ns` can be read, there is room for the text `t`, and text can be handed on. -/
structure Offers (ns : List Int64) (t : String) (m : Machine) : Prop where
  reads : ∃ i, m.input.Reads ns i
  takes : m.output.Takes t
  flushes : m.output.flushFault = none

variable {ns ns' : List Int64} {t t' : String} {m m₁ m₂ : Machine}

/-- Where nothing is read or printed and no global variable changes. -/
theorem Proceeds.of_eq (hi : m₁.input = m.input) (ho : m₁.output = m.output)
    (hg : m₁.globals = m.globals) : Proceeds [] "" m m₁ where
  reads := by
    rw [hi]
    exact .nil _
  takes := Output.takes_empty
  output_eq := by rw [ho, Output.add_empty]
  globals id h := by
    rw [hg]
    exact h

theorem Proceeds.trans (h : Proceeds ns t m m₁) (h' : Proceeds ns' t' m₁ m₂) :
    Proceeds (ns ++ ns') (t ++ t') m m₂ where
  reads := Input.reads_append_iff.2 ⟨_, h.reads, h'.reads⟩
  takes := Output.takes_append_iff.2 ⟨h.takes, h.output_eq ▸ h'.takes⟩
  output_eq := by rw [h'.output_eq, h.output_eq, Output.add_append]
  globals id hid := h'.globals id (h.globals id hid)

/-- One integer is read. -/
theorem Proceeds.of_next {n : Int64} {input : Input} (h : m.input.next = (.ok n, input)) :
    Proceeds [n] "" m { m with input := input } where
  reads := Input.reads_singleton h
  takes := Output.takes_empty
  output_eq := Output.add_empty.symm
  globals _ hid := hid

/-- One text is printed. -/
theorem Proceeds.of_takes (h : m.output.Takes t) :
    Proceeds [] t m { m with output := m.output.add t } where
  reads := .nil _
  takes := h
  output_eq := rfl
  globals _ hid := hid

/-- Entering a frame and leaving it reads and prints nothing. -/
theorem Proceeds.inFrame {f : Frame} (h : (m.enterFrame f).Proceeds ns t m₁) :
    m.Proceeds ns t m₁.leaveFrame.2 := by
  obtain ⟨heap, ⟨g, gs, depth, hdepth⟩, globals, input, output, journal⟩ := m₁
  cases gs <;> exact ⟨h.reads, h.takes, h.output_eq, h.globals⟩

/-! ### Operations that read and print nothing -/

/-- What changes the heap and is noted. -/
theorem proceeds_heap (m : Machine) (heap : Heap) (e : Event) :
    m.Proceeds [] "" ({ m with heap := heap }.note e) := by
  obtain ⟨heap, stack, globals, input, output, journal⟩ := m
  cases journal <;> exact .of_eq rfl rfl rfl

theorem proceeds_note (m : Machine) (e : Event) : m.Proceeds [] "" (m.note e) :=
  m.proceeds_heap m.heap e

theorem proceeds_writePlace {place : Place} {v : Value} (h : m.writePlace place v = .ok m₁) :
    m.Proceeds [] "" m₁ := by
  obtain ⟨id, -, rfl⟩ | ⟨id, -, rfl⟩ | ⟨p, heap, -, -, rfl⟩ := eq_of_writePlace h
  · exact .of_eq rfl rfl rfl
  · exact ⟨.nil _, Output.takes_empty, Output.add_empty.symm, fun other ho =>
      (Bindings.isSome_lookup?_getD_assign? _ id other v).trans ho⟩
  · exact .of_eq rfl rfl rfl

/-- A note changes nothing about it. -/
theorem Proceeds.noted (h : Proceeds ns t m m₁) (e : Event) : Proceeds ns t m (m₁.note e) := by
  have hnoted := h.trans (m₁.proceeds_note e)
  rwa [List.append_nil, String.append_empty] at hnoted

theorem proceeds_bindVariable (m : Machine) (isGlobal : Bool) (id : Nat) (v : Value) :
    m.Proceeds [] "" (m.bindVariable isGlobal id v) := by
  unfold bindVariable
  refine Proceeds.noted ?_ _
  cases isGlobal with
  | false => exact .of_eq rfl rfl rfl
  | true =>
    refine ⟨.nil _, Output.takes_empty, Output.add_empty.symm, fun other ho => ?_⟩
    show ((m.globals.bind id v).lookup? other).isSome
    rw [Bindings.lookup?_bind]
    split
    · rfl
    · exact ho

theorem proceeds_allocate {size : Nat} {p : Pointer} (h : m.allocate size = .ok (p, m₁)) :
    m.Proceeds [] "" m₁ := by
  obtain ⟨heap, -, rfl⟩ := eq_of_allocate h
  exact m.proceeds_heap heap _

theorem proceeds_release {p : Pointer} (h : m.release p = .ok m₁) : m.Proceeds [] "" m₁ := by
  obtain ⟨size, heap, -, rfl⟩ := eq_of_release h
  exact m.proceeds_heap heap _

theorem proceeds_storeArray {isGlobal : Bool} {id size : Nat} {p : Pointer}
    (h : m.storeArray isGlobal id size = .ok (p, m₁)) : m.Proceeds [] "" m₁ := by
  obtain ⟨heap, -, rfl⟩ := eq_of_storeArray h
  have hnoted := m.proceeds_heap heap (.stored id p.region)
  cases isGlobal with
  | true => exact hnoted
  | false => exact ⟨hnoted.reads, hnoted.takes, hnoted.output_eq, hnoted.globals⟩

theorem proceeds_dropOldArray (m : Machine) (id : Nat) :
    m.Proceeds [] "" (m.dropOldArray id) := by
  obtain h | ⟨p, ids, -, -, h⟩ := m.dropOldArray_eq id
  · rw [h]
    exact .of_eq rfl rfl rfl
  · rw [h]
    exact .of_eq rfl rfl rfl

/-! ### What is offered -/

/-- What was read and printed is known by what is left. -/
theorem Proceeds.unique (h : Proceeds ns t m m₁) (h' : Proceeds ns' t' m m₁) :
    ns = ns' ∧ t = t' := by
  refine ⟨h.reads.unique h'.reads, ?_⟩
  have htext : m.output.text ++ t = m.output.text ++ t' :=
    congrArg Output.text (h.output_eq.symm.trans h'.output_eq)
  exact String.append_right_inj _ |>.1 htext

/-- What is offered for two parts is offered for the first one. -/
theorem Offers.front (h : Offers (ns ++ ns') (t ++ t') m) : Offers ns t m where
  reads := by
    obtain ⟨i, hi⟩ := h.reads
    obtain ⟨j, hj, -⟩ := Input.reads_append_iff.1 hi
    exact ⟨j, hj⟩
  takes := (Output.takes_append_iff.1 h.takes).1
  flushes := h.flushes

/-- Behind the first one it is offered for the second one. -/
theorem Offers.behind (h : Offers (ns ++ ns') (t ++ t') m) (hm : Proceeds ns t m m₁) :
    Offers ns' t' m₁ where
  reads := by
    obtain ⟨i, hi⟩ := h.reads
    obtain ⟨j, hj, hi⟩ := Input.reads_append_iff.1 hi
    rw [← hm.reads.eq hj] at hi
    exact ⟨i, hi⟩
  takes := by
    rw [hm.output_eq]
    exact (Output.takes_append_iff.1 h.takes).2
  flushes := by
    rw [hm.output_eq]
    exact h.flushes

end Machine

end MiniC
