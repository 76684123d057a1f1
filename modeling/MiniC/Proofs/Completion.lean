import MiniC.Proofs.Progress

/-!
# Parsing comes to an end

**Whatever the tokens are, parsing comes to an end**, with a program or with a syntax error, and it
never leaves the tokens.  Each turn of a loop takes a token, and so does the way from a statement to
one in it; so the number of tokens bounds the turns and the depth of the recursion, and the bounds
that the grammar is written with are never reached.

Main definitions:

* `MiniC.Grammar.programWithin`: programs, with a bound on the depth of the recursion;
* `MiniC.Parser.Advances`: a parser that succeeds has come to a later position;
* `MiniC.Grammar.Completes`: what holds of parsing some tokens.

Main results:

* `MiniC.Grammar.progresses_statementWithin`: statements;
* `MiniC.Grammar.rest_of_topLevelsFrom`: behind the declarations of a program no token is left;
* `MiniC.Grammar.parsing_completes`: parsing ends, within the tokens.
-/

set_option autoImplicit false

namespace MiniC

namespace Grammar

open MiniC.Parser

variable {m n k : Nat} {expr expr' : Parser Expr} {fuel fuel' : Nat}

/-! ### Declarators -/

theorem progresses_arrayLength : Progresses m n 0 arrayLength arrayLength := by
  refine .accept_ite (.peek_bind fun next => ?_) (progresses_pure _)
  split
  · split
    · exact progresses_fail fun _ => nofun
    · exact progresses_advance.bind fun _ => (progresses_expect _ _).bind fun _ =>
        .check_ite (progresses_fail fun _ => nofun) (progresses_pure _)
  · exact progresses_fail fun _ => nofun

section

variable (he : Progresses 0 n 1 expr expr')

include he

theorem progresses_initializer : Progresses 0 n 0 (initializer expr) (initializer expr') :=
  .accept_ite ((he.of_le (Nat.sub_le n 1)).bind fun _ => progresses_pure _)
    (progresses_pure _)

theorem progresses_declaratorRest (isGlobal : Bool) (type : Ty) (name : String) (loc : Location) :
    Progresses 0 n 0 (declaratorRest expr isGlobal type name loc)
      (declaratorRest expr' isGlobal type name loc) := by
  refine progresses_arrayLength.bind fun length => ?_
  dsimp only
  split
  · exact progresses_failAt loc nofun
  · exact (progresses_initializer he).bind fun init => (progresses_declare _).bind fun id =>
      progresses_pure _

theorem progresses_declarator (isGlobal : Bool) (base : BaseType) :
    Progresses 0 n 1 (declarator expr isGlobal base) (declarator expr' isGlobal base) :=
  progresses_stars.bind fun _ => progresses_identifier.bind fun _ =>
    progresses_declaratorRest he isGlobal _ _ _

variable (hfuel : n ≤ fuel) (hfuel' : n ≤ fuel')

include hfuel hfuel'

theorem progresses_declaratorsFrom (isGlobal : Bool) (base : BaseType) (seen : List Variable) :
    Progresses 0 n 0 (declaratorsFrom expr isGlobal base fuel seen)
      (declaratorsFrom expr' isGlobal base fuel' seen) :=
  progresses_separatedFrom (progresses_declarator he isGlobal base) hfuel hfuel' seen

theorem progresses_localDeclaration :
    Progresses 0 n 1 (localDeclaration expr fuel) (localDeclaration expr' fuel') :=
  .location_bind fun _ => (progresses_accept _).bind fun _ => progresses_baseType.bind fun base =>
    (progresses_declarator he false base).bind fun first =>
      (progresses_declaratorsFrom he hfuel hfuel' false base [first]).bind fun _ =>
        (progresses_expect _ _).bind fun _ => progresses_pure _

end

/-! ### Statements -/

section

variable {stmt stmt' : Parser Stmt}

/-- A block takes a token for each statement. -/
theorem progresses_statementsFrom (hstmt : Progresses 0 n 1 stmt stmt') (hfuel : n ≤ fuel)
    (hfuel' : n ≤ fuel') (seen : List Stmt) :
    Progresses 0 n 0 (statementsFrom stmt fuel seen) (statementsFrom stmt' fuel' seen) := by
  refine progresses_loop (fun j hj fuel fuel' _ _ ih seen => ?_) hfuel hfuel' seen
  refine .peek_bind fun next => ?_
  split
  · exact progresses_pure _
  · exact progresses_pure _
  · exact (hstmt.of_le hj).bind_lt fun st => ih (st :: seen)

variable (he : Progresses 0 n 1 expr expr') (hstmt : Progresses 0 n 1 stmt stmt')

include he

theorem progresses_expressionUnless (f : Fixed) :
    Progresses 0 n 0 (expressionUnless expr f) (expressionUnless expr' f) :=
  .check_ite (progresses_pure _) (he.bind fun _ => progresses_pure _)

theorem progresses_forInit (hfuel : n ≤ fuel) (hfuel' : n ≤ fuel') :
    Progresses 0 n 0 (forInit expr fuel) (forInit expr' fuel') := by
  refine .accept_ite (progresses_pure _) (looks_startsDeclaration.ite (fun _ hs _ => hs) ?_ ?_)
  · exact (progresses_localDeclaration he hfuel hfuel').bind fun _ => progresses_pure _
  · exact .location_bind fun _ => he.bind fun _ => (progresses_expect _ _).bind fun _ =>
      progresses_pure _

include hstmt

theorem progresses_branchRest (loc : Location) :
    Progresses 0 n 0 (branchRest expr stmt loc) (branchRest expr' stmt' loc) :=
  (progresses_expect _ _).bind fun _ => he.bind fun _ => (progresses_expect _ _).bind fun _ =>
    hstmt.bind fun _ => .accept_ite
      ((hstmt.of_le (Nat.sub_le n 1)).bind fun _ => progresses_pure _)
      (progresses_pure _)

theorem progresses_whileRest (loc : Location) :
    Progresses 0 n 0 (whileRest expr stmt loc) (whileRest expr' stmt' loc) :=
  (progresses_expect _ _).bind fun _ => he.bind fun _ => (progresses_expect _ _).bind fun _ =>
    hstmt.bind fun _ => progresses_pure _

theorem progresses_doRest (loc : Location) :
    Progresses 0 n 0 (doRest expr stmt loc) (doRest expr' stmt' loc) :=
  hstmt.bind fun _ => (progresses_expect _ _).bind fun _ => (progresses_expect _ _).bind fun _ =>
    he.bind fun _ => (progresses_expect _ _).bind fun _ => (progresses_expect _ _).bind fun _ =>
      progresses_pure _

theorem progresses_forRest (hfuel : n ≤ fuel) (hfuel' : n ≤ fuel') (loc : Location) :
    Progresses 0 n 0 (forRest expr stmt fuel loc) (forRest expr' stmt' fuel' loc) :=
  (progresses_expect _ _).bind fun _ => (progresses_forInit he hfuel hfuel').bind fun _ =>
    (progresses_expressionUnless he _).bind fun _ => (progresses_expect _ _).bind fun _ =>
      (progresses_expressionUnless he _).bind fun _ => (progresses_expect _ _).bind fun _ =>
        hstmt.bind fun _ => progresses_pure _

end

/-- A statement takes a token before the statements in it; an expression may be all of it. -/
theorem progresses_statementOf {stmt stmt' : Parser Stmt} (he : Progresses 0 (n + 1) 1 expr expr')
    (hstmt : Progresses 0 n 1 stmt stmt') (hfuel : n < fuel) (hfuel' : n < fuel') :
    Progresses 0 (n + 1) 1 (statementOf expr stmt fuel) (statementOf expr' stmt' fuel') := by
  have he' : Progresses 0 n 1 expr expr' := he.of_le (Nat.le_succ n)
  have hle : n ≤ fuel := Nat.le_of_lt hfuel
  have hle' : n ≤ fuel' := Nat.le_of_lt hfuel'
  refine .location_bind fun loc => .peekFixed_bind fun next => ?_
  split
  · exact progresses_advance.bind_lt fun _ => (progresses_expressionUnless he' _).bind fun _ =>
      (progresses_expect _ _).bind fun _ => progresses_pure _
  · exact progresses_advance.bind_lt fun _ => progresses_branchRest he' hstmt loc
  · exact progresses_advance.bind_lt fun _ => progresses_whileRest he' hstmt loc
  · exact progresses_advance.bind_lt fun _ => progresses_doRest he' hstmt loc
  · exact progresses_advance.bind_lt fun _ => progresses_forRest he' hstmt hle hle' loc
  · exact progresses_advance.bind_lt fun _ => (progresses_expect _ _).bind fun _ =>
      progresses_pure _
  · exact progresses_advance.bind_lt fun _ => (progresses_expect _ _).bind fun _ =>
      progresses_pure _
  · exact progresses_advance.bind_lt fun _ => (progresses_statementsFrom hstmt hle hle' []).bind
      fun _ => (progresses_expect _ _).bind fun _ => progresses_pure _
  · exact progresses_advance.bind_lt fun _ => progresses_pure _
  · refine looks_startsDeclaration.ite (fun _ hs _ => hs) ?_ ?_
    · exact (progresses_localDeclaration he hfuel hfuel').of_le (Nat.le_refl _)
    · exact (he.of_le (Nat.le_refl _)).bind fun _ =>
        (progresses_expect _ _).bind fun _ => progresses_pure _

/-- Statements, by induction on the tokens that are left. -/
theorem progresses_statementWithin (he : Progresses 0 n 1 expr expr') (hfuel : n < fuel)
    (hfuel' : n < fuel') :
    Progresses 0 n 1 (statementWithin expr fuel) (statementWithin expr' fuel') := by
  induction n generalizing fuel fuel' with
  | zero => exact fun s _ hs => absurd hs (Nat.not_lt_zero _)
  | succ n ih =>
    obtain ⟨fuel, rfl⟩ := Nat.exists_eq_add_one.2 (Nat.lt_of_le_of_lt (Nat.zero_le _) hfuel)
    obtain ⟨fuel', rfl⟩ := Nat.exists_eq_add_one.2 (Nat.lt_of_le_of_lt (Nat.zero_le _) hfuel')
    have hlt : n < fuel := Nat.lt_of_succ_lt_succ hfuel
    have hlt' : n < fuel' := Nat.lt_of_succ_lt_succ hfuel'
    exact progresses_statementOf he
      (ih (he.of_le (Nat.le_succ n)) hlt hlt') hlt hlt'

/-! ### Parameters -/

theorem looks_startsVoidList : Looks startsVoidList fun s =>
    s.startsWith .kwVoid && s.advance.startsWith .rparen :=
  ⟨fun _ => rfl, fun s => ⟨_, .startsVoidList s⟩⟩

theorem progresses_optionalName : Progresses m n 0 optionalName optionalName := by
  refine .peek_bind fun next => ?_
  split
  · exact progresses_advance.bind fun _ => progresses_pure _
  · exact progresses_pure _

theorem progresses_parameterBrackets :
    Progresses m n 0 parameterBrackets parameterBrackets := by
  refine .accept_ite (.peek_bind fun next => ?_) (progresses_pure _)
  split
  · exact progresses_advance.bind fun _ => (progresses_expect _ _).bind fun _ => progresses_pure _
  · exact (progresses_expect _ _).bind fun _ => progresses_pure _

theorem progresses_parameter : Progresses m n 1 parameter parameter :=
  progresses_typeName.bind fun _ => progresses_optionalName.bind fun _ =>
    progresses_parameterBrackets.bind fun _ => (progresses_declare _).bind fun _ =>
      progresses_pure _

theorem progresses_parameters (hfuel : n ≤ fuel) (hfuel' : n ≤ fuel') :
    Progresses 0 n 0 (parameters fuel) (parameters fuel') := by
  refine .check_ite (progresses_pure _) ?_
  refine looks_startsVoidList.ite (l := 1) (fun s _ hs => ?_) ?_ ?_
  · have hlength := State.length_rest_advance (Bool.and_eq_true_iff.1 hs).1
    omega
  · exact progresses_advance.bind fun _ => progresses_pure _
  · exact progresses_parameter.bind fun p =>
      progresses_separatedFrom progresses_parameter hfuel hfuel' [p]

/-! ### Programs -/

section

variable {stmt stmt' : Parser Stmt} (hstmt : Progresses 0 n 1 stmt stmt') (hfuel : n ≤ fuel)
  (hfuel' : n ≤ fuel')

include hstmt hfuel hfuel'

theorem progresses_functionBody :
    Progresses 0 n 0 (functionBody stmt fuel) (functionBody stmt' fuel') := by
  refine .accept_ite (progresses_pure _) (.location_bind fun loc => .accept_ite ?_ ?_)
  · exact ((progresses_statementsFrom hstmt hfuel hfuel' []).of_le (Nat.sub_le n 1)).bind fun _ =>
      (progresses_expect _ _).bind fun _ => progresses_pure _
  · exact progresses_fail fun _ => nofun

theorem progresses_functionRest (type : Ty) (name : String) (loc : Location) :
    Progresses 0 n 0 (functionRest stmt fuel type name loc)
      (functionRest stmt' fuel' type name loc) :=
  (progresses_expect _ _).bind fun _ => (progresses_parameters hfuel hfuel').bind fun _ =>
    (progresses_expect _ _).bind fun _ => (progresses_functionBody hstmt hfuel hfuel').bind fun _ =>
      progresses_pure _

theorem progresses_topLevel (he : Progresses 0 n 1 expr expr') :
    Progresses 0 n 1 (topLevel expr stmt fuel) (topLevel expr' stmt' fuel') := by
  refine (progresses_accept _).bind fun _ => progresses_baseType.bind fun base =>
    progresses_stars.bind fun pointers => progresses_identifier.bind fun r => .check_ite ?_ ?_
  · exact (progresses_functionRest hstmt hfuel hfuel' _ _ _).bind fun _ => progresses_pure _
  · exact (progresses_declaratorRest he true _ _ _).bind fun first =>
      (progresses_declaratorsFrom he hfuel hfuel' true base [first]).bind fun _ =>
        (progresses_expect _ _).bind fun _ => progresses_pure _

end

/-- A program takes a token for each declaration. -/
theorem progresses_topLevelsFrom {one one' : Parser TopLevel} (hone : Progresses 0 n 1 one one')
    (hfuel : n ≤ fuel) (hfuel' : n ≤ fuel') (globals : List Variable) (functions : List Function) :
    Progresses 0 n 0 (topLevelsFrom one fuel globals functions)
      (topLevelsFrom one' fuel' globals functions) := by
  refine progresses_loop (x := fun fuel read => topLevelsFrom one fuel read.1 read.2)
    (y := fun fuel read => topLevelsFrom one' fuel read.1 read.2)
    (fun j hj fuel fuel' _ _ ih read => ?_) hfuel hfuel' (globals, functions)
  refine .peek_bind fun next => ?_
  split
  · exact progresses_pure _
  · refine (hone.of_le hj).bind_lt fun r => ?_
    cases r with
    | globals vars => exact ih (vars.reverse ++ read.1, read.2)
    | function f => exact ih (read.1, f :: read.2)

/-- Where the declarations of a program end, no token is left. -/
theorem rest_of_topLevelsFrom {one : Parser TopLevel} (hone : Progresses 0 n 1 one one)
    (hfuel : n ≤ fuel) {globals : List Variable} {functions : List Function} {s t : State}
    (hs : s.rest.length < n) {r : List Variable × List Function}
    (h : topLevelsFrom one fuel globals functions s = .ok (r, t)) : t.rest = [] := by
  induction n generalizing fuel globals functions s with
  | zero => cases hs
  | succ n ih =>
    obtain ⟨fuel, rfl⟩ := Nat.exists_eq_add_one.2 (Nat.lt_of_lt_of_le n.succ_pos hfuel)
    obtain ⟨next, s₁, hnext, h⟩ := bind_eq_ok h
    cases hnext
    cases hpeek : s.peek with
    | none =>
      rw [hpeek] at h
      cases h
      exact State.rest_eq_nil_of_peek hpeek
    | some kind =>
      rw [hpeek] at h
      obtain ⟨item, s₂, hitem, h⟩ := bind_eq_ok h
      have htakes := (hone s (Nat.zero_le _) hs).takes item s₂ hitem
      have hone' : Progresses 0 n 1 one one := hone.of_le (Nat.le_succ n)
      have hlt : s₂.rest.length < n := by omega
      cases item with
      | globals vars => exact ih hone' (Nat.le_of_succ_le_succ hfuel) hlt h
      | function f => exact ih hone' (Nat.le_of_succ_le_succ hfuel) hlt h

/-! ### The end of the text -/

/-- All declarations of a program, with a bound on the depth of the recursion. -/
def programWithin (fuel : Nat) : Parser (List Variable × List Function) :=
  let expr := expressionWithin fuel
  topLevelsFrom (topLevel expr (statementWithin expr fuel) fuel) fuel [] []

theorem program_ofTokens (ts : Tokens) :
    program (.ofTokens ts) = programWithin (depthBound ts.list.length) (.ofTokens ts) := rfl

theorem progresses_topLevelWithin (hfuel : 2 * (n + 1) ≤ fuel) (hfuel' : 2 * (n + 1) ≤ fuel') :
    Progresses 0 (n + 1) 1
      (topLevel (expressionWithin fuel) (statementWithin (expressionWithin fuel) fuel) fuel)
      (topLevel (expressionWithin fuel') (statementWithin (expressionWithin fuel') fuel') fuel') :=
  have hexpr := progresses_expressionWithin hfuel hfuel'
  progresses_topLevel (progresses_statementWithin hexpr (by omega) (by omega)) (by omega) (by omega)
    hexpr

theorem progresses_programWithin (hfuel : 2 * (n + 1) ≤ fuel) (hfuel' : 2 * (n + 1) ≤ fuel') :
    Progresses 0 (n + 1) 0 (programWithin fuel) (programWithin fuel') :=
  progresses_topLevelsFrom (progresses_topLevelWithin hfuel hfuel') (by omega) (by omega) [] []

theorem rest_of_programWithin (hfuel : 2 * (n + 1) ≤ fuel) {s t : State}
    (hs : s.rest.length < n + 1) {r : List Variable × List Function}
    (h : programWithin fuel s = .ok (r, t)) : t.rest = [] :=
  rest_of_topLevelsFrom (progresses_topLevelWithin hfuel hfuel) (by omega) hs h

end Grammar

namespace Parser

variable {α : Type} {ts : Tokens}

/-- If the parser succeeds in the state `s`, then it has come to a later position. -/
def Advances (ts : Tokens) (x : Parser α) (s : State) : Prop :=
  ∀ i, s.At ts i → ∀ a t, x s = .ok (a, t) → ∃ j, i < j ∧ t.At ts j

theorem Agrees.advances {x y : Parser α} {s : State} (h : Agrees 1 x y s) : Advances ts x s := by
  intro i hs a t ha
  obtain ⟨ss, hss⟩ := h.course
  obtain ⟨j, hle, ht⟩ := (hss.leadsTo.2 a t ha).exists_at hs
  have htakes := h.takes a t ha
  have hbefore := hs.length_rest
  have hbehind := ht.length_rest
  exact ⟨j, by omega, ht⟩

theorem Progresses.advances {x y : Parser α} {s : State}
    (h : Progresses 0 (s.rest.length + 1) 1 x y) : Advances ts x s :=
  (h s (Nat.zero_le _) (Nat.lt_succ_self _)).advances

end Parser

namespace Grammar

open MiniC.Parser

/-- What holds of parsing the tokens `ts`.  Wherever a bound on the recursion stands, it is any one
that is large enough for the tokens that are left. -/
structure Completes (ts : Tokens) : Prop where
  /-- Parsing ends: no larger bound makes a difference. -/
  ends : ∀ fuel, depthBound ts.list.length ≤ fuel →
    programWithin fuel (.ofTokens ts) = program (.ofTokens ts)
  /-- It ends with a program or with an error, and not because of a bound. -/
  decides : (∃ p, Program.ofTokens ts = .ok p) ∨
    ∃ e, Program.ofTokens ts = .error e ∧ e.cause ≠ .exhausted
  /-- On its course the parser is at positions of the tokens, and what it looks at stands there;
  so it is if parsing fails. -/
  courses : ∀ fuel, depthBound ts.list.length ≤ fuel →
    (∃ ss, Course (programWithin fuel) (.ofTokens ts) ss (program (.ofTokens ts))) ∧
    ∀ ss r, Course (programWithin fuel) (.ofTokens ts) ss r → r = program (.ofTokens ts) ∧
      ∀ s ∈ ss, ∃ i, s.At ts i ∧ ts.entries[i]? = some (s.peek, s.location)
  /-- Whoever reads a type, an expression, a declarator, a statement or a declaration has come to a
  later position. -/
  typeName : ∀ s, Advances ts typeName s
  expression : ∀ s fuel, depthBound s.rest.length ≤ fuel → Advances ts (expressionWithin fuel) s
  declarator : ∀ s fuel, depthBound s.rest.length ≤ fuel → ∀ isGlobal base,
    Advances ts (declarator (expressionWithin fuel) isGlobal base) s
  statement : ∀ s fuel depth, depthBound s.rest.length ≤ fuel → s.rest.length + 1 < depth →
    Advances ts (statementWithin (expressionWithin fuel) depth) s
  topLevel : ∀ s fuel, depthBound s.rest.length ≤ fuel → Advances ts
    (topLevel (expressionWithin fuel) (statementWithin (expressionWithin fuel) fuel) fuel) s
  /-- A program is read up to the mark of the end. -/
  finished : ∀ r t, program (.ofTokens ts) = .ok (r, t) → t.At ts ts.list.length

/-- Tokens form a program unless parsing them ends with an error. -/
theorem ofTokens_eq_ok_or_error (ts : Tokens) :
    (∃ p, Program.ofTokens ts = .ok p) ∨
      ∃ e, Program.ofTokens ts = .error e ∧ program (.ofTokens ts) = .error e := by
  unfold Program.ofTokens
  cases program (.ofTokens ts) with
  | ok r => exact .inl ⟨_, rfl⟩
  | error e => exact .inr ⟨e, rfl, rfl⟩

/-- **Parsing comes to an end, within the tokens.**  The tokens are any: by
`Tokens.exists_entries_eq_iff`, every list whose last entry is its only mark of the end. -/
theorem parsing_completes (ts : Tokens) : Completes ts := by
  have hagrees : ∀ fuel, depthBound ts.list.length ≤ fuel →
      Agrees 0 (programWithin fuel) (programWithin (depthBound ts.list.length)) (.ofTokens ts) :=
    fun fuel hfuel => progresses_programWithin hfuel (Nat.le_refl _) (.ofTokens ts) (Nat.zero_le _)
      (Nat.lt_succ_self _)
  have hends : ∀ fuel, depthBound ts.list.length ≤ fuel →
      programWithin fuel (.ofTokens ts) = program (.ofTokens ts) := by
    intro fuel hfuel
    rw [program_ofTokens]
    exact (hagrees fuel hfuel).eq
  have hexpression : ∀ (s : State) fuel, depthBound s.rest.length ≤ fuel →
      Progresses 0 (s.rest.length + 1) 1 (expressionWithin fuel) (expressionWithin fuel) :=
    fun s fuel hfuel => progresses_expressionWithin hfuel hfuel
  constructor
  case ends => exact hends
  case decides =>
    refine (ofTokens_eq_ok_or_error ts).imp_right ?_
    rintro ⟨e, he, hprogram⟩
    exact ⟨e, he, (hagrees _ (Nat.le_refl _)).unbounded e hprogram⟩
  case courses =>
    intro fuel hfuel
    rw [← hends fuel hfuel]
    refine ⟨(hagrees fuel hfuel).course, fun ss r hss => ⟨hss.eq.symm, fun s hs => ?_⟩⟩
    obtain ⟨i, -, hi⟩ := hss.exists_at (State.at_ofTokens ts) hs
    exact ⟨i, hi, hi.getElem?_entries⟩
  case typeName => exact fun s => Progresses.advances (y := typeName) progresses_typeName
  case expression => exact fun s fuel hfuel => (hexpression s fuel hfuel).advances
  case declarator =>
    exact fun s fuel hfuel isGlobal base =>
      (progresses_declarator (hexpression s fuel hfuel) isGlobal base).advances
  case statement =>
    exact fun s fuel depth hfuel hdepth =>
      (progresses_statementWithin (hexpression s fuel hfuel) hdepth hdepth).advances
  case topLevel => exact fun s fuel hfuel => (progresses_topLevelWithin hfuel hfuel).advances
  case finished =>
    intro r t h
    rw [program_ofTokens] at h
    have hbound : 2 * (ts.list.length + 1) ≤ depthBound ts.list.length := Nat.le_refl _
    have hrest : t.rest = [] := rest_of_programWithin hbound (Nat.lt_succ_self _) h
    obtain ⟨ss, hss⟩ := (hagrees _ (Nat.le_refl _)).course
    exact ⟨Nat.le_refl _, by rw [hrest, List.drop_length], (hss.leadsTo.2 r t h).finish⟩

/-- The tokens of `int x = (1`, which are no program. -/
def unclosedTokens : Tokens where
  list := [⟨.fixed .kwInt, ⟨1, 1⟩⟩, ⟨.ident "x", ⟨1, 5⟩⟩, ⟨.fixed .eq, ⟨1, 7⟩⟩,
    ⟨.fixed .lparen, ⟨1, 9⟩⟩, ⟨.int 1, ⟨1, 10⟩⟩]
  finish := ⟨1, 11⟩

theorem parsing_completes_unclosed :
    program (.ofTokens unclosedTokens) =
      .error ⟨.missing .rparen "after expression" none, ⟨1, 11⟩⟩ ∧
    ∃ t, typeName (.ofTokens unclosedTokens) = .ok (.int, t) ∧ ∃ j, 0 < j ∧ t.At unclosedTokens j :=
  ⟨rfl, _, rfl, (parsing_completes unclosedTokens).typeName _ 0 (State.at_ofTokens _) _ _ rfl⟩

end Grammar

end MiniC
