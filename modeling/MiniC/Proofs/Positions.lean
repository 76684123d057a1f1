import MiniC.Grammar.Program

/-!
# Positions

Tokens stand at positions, one behind the other, and the mark of the end stands behind the last one.
A parser is at one of these positions at every time.  What it does is a course of steps: it looks at
what stands at its position, or at the position behind it, and goes on by a position or stays.

At the mark of the end a step stays where it is.  This is all that keeps a parser from leaving the
tokens, and so **no course leaves them**, whether the parser succeeds at its end or fails.

Main definitions:

* `MiniC.Tokens.entries`: what stands at the positions of some tokens;
* `MiniC.Parser.State.At`: a parser is at some position;
* `MiniC.Parser.Basic`, `MiniC.Parser.Course`: single steps, and what parsers made of them do.

Main results:

* `MiniC.Tokens.exists_entries_eq_iff`: which lists are the entries of tokens;
* `MiniC.Parser.State.At.getElem?_entries`: what a parser sees is what stands at its position;
* `MiniC.Parser.Course.eq`: a course ends with what the parser yields;
* `MiniC.Parser.Course.exists_at`: a course stays within the tokens.
-/

set_option autoImplicit false

namespace MiniC

namespace Tokens

/-- What stands at the positions of some tokens: the tokens, and behind them the mark of the end. -/
def entries (ts : Tokens) : List (Option Token.Kind × Location) :=
  ts.list.map (fun t => (some t.kind, t.location)) ++ [(none, ts.finish)]

/-- The lists whose last entry is their only mark of an end are the entries of tokens. -/
theorem exists_entries_eq_iff {es : List (Option Token.Kind × Location)} :
    (∃ ts : Tokens, ts.entries = es) ↔
      ∃ before loc, es = before ++ [(none, loc)] ∧ ∀ e ∈ before, e.1 ≠ none := by
  constructor
  · rintro ⟨ts, rfl⟩
    refine ⟨_, ts.finish, rfl, fun e he => ?_⟩
    obtain ⟨t, -, rfl⟩ := List.mem_map.1 he
    exact Option.some_ne_none _
  · rintro ⟨before, loc, rfl, hbefore⟩
    induction before with
    | nil => exact ⟨⟨[], loc⟩, rfl⟩
    | cons e before ih =>
      obtain ⟨he, hbefore⟩ := List.forall_mem_cons.1 hbefore
      obtain ⟨⟨list, finish⟩, hts⟩ := ih hbefore
      obtain ⟨_ | kind, place⟩ := e
      · exact absurd rfl he
      · refine ⟨⟨⟨kind, place⟩ :: list, finish⟩, ?_⟩
        rw [List.cons_append, ← hts]
        rfl

end Tokens

namespace Parser

variable {α β : Type} {ts : Tokens} {i : Nat} {s t u : State}

/-! ### States and their positions -/

/-- The parser is at the position `i` of the tokens `ts`; the last position is that of the mark of
the end. -/
structure State.At (ts : Tokens) (i : Nat) (s : State) : Prop where
  le : i ≤ ts.list.length
  rest : s.rest = ts.list.drop i
  finish : s.finish = ts.finish

theorem State.at_ofTokens (ts : Tokens) : (State.ofTokens ts).At ts 0 := ⟨Nat.zero_le _, rfl, rfl⟩

namespace State.At

theorem length_rest (h : s.At ts i) : s.rest.length + i = ts.list.length := by
  have hle := h.le
  rw [h.rest, List.length_drop]
  omega

/-- What a parser sees next is what stands at its position. -/
theorem getElem?_entries (h : s.At ts i) : ts.entries[i]? = some (s.peek, s.location) := by
  obtain ⟨hle, hrest, hfinish⟩ := h
  rw [Tokens.entries]
  rcases Nat.lt_or_eq_of_le hle with hlt | rfl
  · rw [List.getElem?_append_left (by simpa using hlt), List.getElem?_map,
      List.getElem?_eq_getElem hlt, Option.map_some, State.peek, State.location, hrest,
      List.drop_eq_getElem_cons hlt]
  · rw [List.getElem?_append_right (by simp), List.length_map, Nat.sub_self, State.peek,
      State.location, hrest, List.drop_length, hfinish]
    rfl

end State.At

/-- The state `t` comes behind the state `s`, or is as far: some tokens have been taken. -/
structure State.LeadsTo (s t : State) : Prop where
  suffix : t.rest <:+ s.rest
  finish : t.finish = s.finish

namespace State.LeadsTo

theorem refl (s : State) : s.LeadsTo s := ⟨List.suffix_refl _, rfl⟩

theorem trans (h : s.LeadsTo t) (h' : t.LeadsTo u) : s.LeadsTo u :=
  ⟨h'.suffix.trans h.suffix, h'.finish.trans h.finish⟩

theorem advance (s : State) : s.LeadsTo s.advance := ⟨List.tail_suffix _, rfl⟩

theorem exists_at (h : s.LeadsTo t) (hs : s.At ts i) : ∃ j, i ≤ j ∧ t.At ts j := by
  have hsuffix : t.rest <:+ ts.list := h.suffix.trans (hs.rest ▸ List.drop_suffix _ _)
  have hlength := hs.length_rest
  have hle := h.suffix.length_le
  exact ⟨ts.list.length - t.rest.length, by omega, Nat.sub_le _ _,
    List.suffix_iff_eq_drop.1 hsuffix, h.finish.trans hs.finish⟩

end State.LeadsTo

/-! ### Courses -/

/-- The parsers that look at what stands at their position at most, and take it at most. -/
inductive Basic : {α : Type} → Parser α → Prop
  | pure {α : Type} (a : α) : Basic (pure a : Parser α)
  | location : Basic location
  | peek : Basic peek
  | peekFixed : Basic peekFixed
  | check (f : Fixed) : Basic (check f)
  | advance : Basic advance
  | fail {α : Type} (cause : Option Token.Kind → SyntaxError.Cause) : Basic (fail cause : Parser α)
  | failAt {α : Type} (loc : Location) (cause : SyntaxError.Cause) :
      Basic (failAt loc cause : Parser α)
  | accept (f : Fixed) : Basic (accept f)
  | expect (f : Fixed) (context : String) : Basic (expect f context)
  | identifier : Basic identifier
  | make (loc : Location) (expr : Node → Expr) : Basic (make loc expr)
  | declare (d : Declaration) : Basic (declare d)

/-- The states in which a parser looks for one more star. -/
def State.starred (s : State) : List State :=
  (List.range ((s.rest.takeWhile fun t => t.kind == .fixed .star).length + 1)).map fun i =>
    { s with rest := s.rest.drop i }

/-- Begun in the state `s`, a parser looks at what stands next in the states of the list, one after
the other, and ends with the result `r`.  Nothing begins behind a parser that fails. -/
inductive Course :
    {α : Type} → Parser α → State → List State → Except SyntaxError (α × State) → Prop
  | basic {α : Type} {x : Parser α} (hx : Basic x) (s : State) : Course x s [s] (x s)
  | stars (s : State) : Course stars s s.starred (stars s)
  /-- Behind a parenthesis, the next entry is looked at. -/
  | startsCast (s : State) : Course Grammar.startsCast s
      (s :: if s.startsWith .lparen then [s.advance] else []) (Grammar.startsCast s)
  /-- Behind `void`, the next entry is looked at. -/
  | startsVoidList (s : State) : Course Grammar.startsVoidList s
      (s :: if s.startsWith .kwVoid then [s.advance] else []) (Grammar.startsVoidList s)
  | bind {α β : Type} {x : Parser α} {f : α → Parser β} {s s₁ : State} {a : α} {ss ss' : List State}
      {r : Except SyntaxError (β × State)} (first : Course x s ss (.ok (a, s₁)))
      (second : Course (f a) s₁ ss' r) : Course (x >>= f) s (ss ++ ss') r
  | bind_error {α β : Type} {x : Parser α} {f : α → Parser β} {s : State} {ss : List State}
      {e : SyntaxError} (first : Course x s ss (.error e)) : Course (x >>= f) s ss (.error e)

/-- A single step goes on by one position at most. -/
theorem Basic.leadsTo {x : Parser α} (hx : Basic x) {a : α} (h : x s = .ok (a, t)) :
    s.LeadsTo t := by
  cases hx with
  | pure | location | peek | peekFixed | check =>
    cases h
    exact .refl s
  | make | declare =>
    cases h
    exact ⟨List.suffix_refl _, rfl⟩
  | advance =>
    cases h
    exact .advance s
  | fail | failAt => cases h
  | accept f =>
    unfold Parser.accept at h
    split at h <;> cases h
    · exact .advance s
    · exact .refl s
  | expect f context =>
    unfold Parser.expect at h
    split at h <;> cases h
    exact .advance s
  | identifier =>
    unfold Parser.identifier at h
    split at h
    · next name loc rest hrest =>
      cases h
      exact ⟨hrest ▸ List.suffix_cons _ _, rfl⟩
    · cases h

namespace Course

variable {x : Parser α} {ss : List State} {r : Except SyntaxError (α × State)}

/-- A course ends with what the parser yields. -/
theorem eq (h : Course x s ss r) : x s = r := by
  induction h with
  | basic | stars | startsCast | startsVoidList => rfl
  | bind _ _ ih₁ ih₂ => exact (bind_of_ok ih₁ _).trans ih₂
  | bind_error _ ih => exact bind_of_error ih _

/-- On its course a parser only goes on, and so it does to its end. -/
theorem leadsTo (h : Course x s ss r) :
    (∀ t ∈ ss, s.LeadsTo t) ∧ ∀ a t, r = .ok (a, t) → s.LeadsTo t := by
  have ahead : ∀ (s : State) (b : Bool),
      ∀ t ∈ s :: (if b then [s.advance] else []), s.LeadsTo t := by
    intro s b t ht
    rcases List.mem_cons.1 ht with rfl | ht
    · exact .refl t
    · cases b with
      | false => cases ht
      | true =>
        obtain rfl := List.mem_singleton.1 ht
        exact .advance s
  induction h with
  | basic hx s =>
    refine ⟨fun t ht => ?_, fun a t h => hx.leadsTo h⟩
    obtain rfl := List.mem_singleton.1 ht
    exact .refl t
  | stars s =>
    refine ⟨fun t ht => ?_, fun a t h => ?_⟩
    · obtain ⟨i, -, rfl⟩ := List.mem_map.1 ht
      exact ⟨List.drop_suffix _ _, rfl⟩
    · cases h
      exact ⟨List.dropWhile_suffix _, rfl⟩
  | startsCast s | startsVoidList s =>
    refine ⟨ahead s _, fun a t h => ?_⟩
    cases h
    exact .refl s
  | bind _ _ ih₁ ih₂ =>
    have hfirst := ih₁.2 _ _ rfl
    refine ⟨fun t ht => ?_, fun b t h => hfirst.trans (ih₂.2 b t h)⟩
    rcases List.mem_append.1 ht with ht | ht
    · exact ih₁.1 t ht
    · exact hfirst.trans (ih₂.1 t ht)
  | bind_error _ ih => exact ⟨ih.1, fun a t h => nomatch h⟩

/-- On its course a parser is at positions of the tokens, and never before the one that it began
at. -/
theorem exists_at (h : Course x s ss r) (hs : s.At ts i) (ht : t ∈ ss) : ∃ j, i ≤ j ∧ t.At ts j :=
  (h.leadsTo.1 t ht).exists_at hs

end Course

end Parser

end MiniC
