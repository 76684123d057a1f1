import MiniC.Proofs.Attachment
import MiniC.Proofs.Numbering

/-!
# Programs are read back as they are written

**A program that a text says is read back from its tokens.**  Written with a declaration for each
global variable, without braces of its own, and with any parentheses that are not needed, it is read
as the same program but for numbers and locations.  So every `else` belongs to the `if` that it
belonged to, and nothing is lost, doubled or moved.

Only programs that are made are read back.  A parameter list that is a single `void` would be read
as no parameters; but identifiers of a text have names, and so a parser never makes such a list.

Main results:

* `MiniC.reads_parameters`: parameter lists are read back;
* `MiniC.reads_function`, `MiniC.reads_global`: so are declarations outside of functions;
* `MiniC.Program.Made.perm_declarations`: the table of a program says what its declarations say;
* `MiniC.Program.reads_back_of_read`: programs that texts say are read back.
-/

set_option autoImplicit false

namespace MiniC

open MiniC.Grammar MiniC.Parser

variable {extra : Expr → Bool} {rest : List Token.Kind} {fuel : Nat}

/-! ### Parameters -/

/-- A name that may be missing is read back. -/
theorem reads_optionalName (name : String) (hrest : EndsItem .rparen rest) :
    Reads optionalName (if name = "" then [] else [.ident name]) rest (· = name) := by
  split
  · next hname =>
    refine reads_peek.bind_nil fun next hnext => ?_
    rw [hnext, List.nil_append]
    obtain ⟨f, ks, rfl⟩ : ∃ f ks, rest = .fixed f :: ks := by
      rcases hrest with h | h
      · exact ⟨_, exists_eq_of_headFixed h⟩
      · exact ⟨_, exists_eq_of_headFixed h⟩
    exact reads_pure hname.symm
  · refine reads_peek.bind_nil fun next hnext => ?_
    rw [hnext]
    exact (reads_advance _).bind_end fun _ _ => reads_pure rfl

/-- Where no bracket follows, no token is taken. -/
theorem reads_parameterBrackets (hrest : headFixed rest ≠ some .lbracket) :
    Reads parameterBrackets [] rest (· = false) := by
  refine (reads_accept_of_ne hrest).bind_nil fun b hb => ?_
  rw [hb]
  exact reads_pure rfl

/-- A parameter is read back: its type has no length, because brackets have made it a pointer. -/
theorem reads_parameter {q : Parameter} {c c' : Supply} (hq : q.Made c c')
    (hrest : EndsItem .rparen rest) :
    Reads parameter q.tokens rest fun q' => q'.unplaced = q.unplaced := by
  cases hq with
  | mk base pointers name =>
    have hbracket : headFixed rest ≠ some .lbracket := hrest.headFixed_ne (by decide) (by decide)
    refine Reads.bind (reads_typeName rfl ?_) fun type htype =>
      (reads_optionalName name hrest).bind_end fun name' hname =>
        (reads_parameterBrackets hbracket).bind_nil fun b hb => ?_
    · dsimp only
      split
      · exact hrest.headFixed_ne (by decide) (by decide)
      · exact fun h => by cases h
    · rw [hb, htype, hname]
      exact (reads_declare _).bind_nil fun id _ => reads_pure rfl

/-- The next tokens are `void` and a closing parenthesis. -/
theorem reads_startsVoidList : Reads startsVoidList [] rest
    (· = (headFixed rest == some .kwVoid && headFixed rest.tail == some .rparen)) :=
  reads_of_looks (fun ks => headFixed ks == some .kwVoid && headFixed ks.tail == some .rparen)
    fun s => by
      rw [← s.kinds_advance, ← s.peekFixed_eq, ← s.advance.peekFixed_eq]
      rfl

/-- Parameters that are not written as a single `void` do not begin like one. -/
theorem startsVoidList_parameters_eq_false {q : Parameter} {qs : List Parameter} {c c' : Supply}
    (hq : q.Made c c') (hbare : Parameter.notBareVoid (q :: qs)) {ks : List Token.Kind}
    (hks : ks = q.tokens ++ ((qs.flatMap fun q => .fixed .comma :: q.tokens) ++
      .fixed .rparen :: rest)) :
    (headFixed ks == some .kwVoid && headFixed ks.tail == some .rparen) = false := by
  subst hks
  refine Bool.and_eq_false_imp.2 fun hvoid => beq_false_of_ne ?_
  cases hq with
  | mk base pointers name =>
    obtain rfl : base = .void := by
      have hkeyword : base.keyword = .kwVoid := Option.some.inj (eq_of_beq hvoid)
      cases base <;> first | rfl | cases hkeyword
    cases pointers with
    | succ n => exact fun h => by cases h
    | zero =>
      by_cases hname : name = ""
      · subst hname
        cases qs with
        | nil => cases hbare _ rfl
        | cons => exact fun h => by cases h
      · simp only [Parameter.tokens, Ty.tokens, starTokens, if_neg hname]
        exact fun h => by cases h

/-- A parameter list is read back, up to the closing parenthesis. -/
theorem reads_parameters {qs : List Parameter} {c c' : Supply}
    (hqs : Threaded Parameter.Made c c' qs) (hbare : Parameter.notBareVoid qs) {n : Nat}
    (hn : qs.length ≤ n) :
    Reads (parameters n) (separated (qs.map Parameter.tokens)) (.fixed .rparen :: rest)
      fun qs' => qs'.map Parameter.unplaced = qs.map Parameter.unplaced := by
  cases hqs with
  | nil =>
    refine (reads_check_head .rparen).bind_nil fun b hb => ?_
    rw [hb]
    exact reads_pure rfl
  | @cons _ _ _ q qs hq hqs =>
    have hone : ∀ q' ∈ q :: qs, ∀ more, EndsItem .rparen more →
        Reads parameter q'.tokens more fun q'' => q''.unplaced = q'.unplaced :=
      (Threaded.cons hq hqs).forall_mem fun _ _ _ hq _ hmore => reads_parameter hq hmore
    have hhead : ∀ ks ks', headFixed (q.tokens ++ ks ++ ks') ≠ some .rparen := by
      intro ks ks' h
      cases hq with
      | mk base pointers name => cases base <;> cases h
    refine (reads_check_of_ne ?_).bind_nil fun b hb => ?_
    · rw [separated_map_cons]
      exact hhead _ _
    rw [hb]
    refine reads_startsVoidList.bind_nil fun b hb => ?_
    rw [separated_map_cons,
      startsVoidList_parameters_eq_false hq hbare (List.append_assoc ..)] at hb
    rw [hb]
    exact reads_separated (EndsItem.comma _) (.head _ _) (by simp) hone (Nat.le_of_succ_le hn)

/-! ### Functions -/

theorem reads_functionBody {f : Function} {c c' : Supply} {named : Prop} (hf : f.Made named c c')
    {n : Nat} (hfuel : 2 * (f.bodyTokens extra).length ≤ fuel)
    (hn : (f.bodyTokens extra).length ≤ n) :
    Reads (functionBody (statementWithin (expressionWithin fuel) n) n) (f.bodyTokens extra) rest
      fun o => o.map Stmt.unplaced = f.body.map Stmt.unplaced := by
  cases hf with
  | prototype name base pointers loc _ _ =>
    refine (reads_accept .semicolon).bind_end fun b hb => ?_
    rw [hb]
    exact reads_pure rfl
  | @definition _ _ name base pointers loc bodyLoc params body hparams hbare hbody =>
    simp only [Function.bodyTokens, Stmt.tokens, List.length_cons, List.length_append] at hfuel hn
    refine (reads_accept_of_ne ?_).bind_nil fun b hb => ?_
    · simp [Function.bodyTokens, Stmt.tokens]
    rw [hb]
    refine reads_location.bind_nil fun loc _ => (reads_accept .lbrace).bind_cons fun b hb => ?_
    rw [hb]
    have hcount : body.length ≤ (Stmt.tokensOf extra body).length :=
      Stmt.Made.length_le_tokensOf extra hbody
    refine Reads.bind (reads_statementsFrom
      (Stmt.Made.readsAll body hbody (by omega) n (by omega)) (by omega) []) fun ss' hss' =>
      (reads_expect .rbrace _).bind_end fun _ _ => reads_pure ?_
    rw [Option.map_some, Option.map_some, Stmt.unplaced, Stmt.unplaced, Stmt.unplacedAll_eq_map,
      Stmt.unplacedAll_eq_map, hss']
    rfl

/-- What stands before the body of a function that is made. -/
theorem Function.Made.signature {f : Function} {c c' : Supply} (hf : f.Made True c c') :
    (∃ c₁, Threaded Parameter.Made c c₁ f.params) ∧ Parameter.notBareVoid f.params ∧
      f.returnType.length = none ∧ f.intrinsic = none := by
  cases hf with
  | prototype name base pointers loc hparams hbare =>
    exact ⟨⟨_, hparams⟩, hbare trivial, rfl, rfl⟩
  | definition name base pointers loc bodyLoc hparams hbare hbody =>
    exact ⟨⟨_, hparams⟩, hbare trivial, rfl, rfl⟩

/-- What stands behind the name of a function is read back. -/
theorem reads_functionRest {f : Function} {c c' : Supply} (hf : f.Made True c c') {n : Nat}
    (hfuel : 2 * (f.tokens extra).length ≤ fuel) (hn : (f.tokens extra).length ≤ n)
    (loc : Location) :
    Reads (functionRest (statementWithin (expressionWithin fuel) n) n f.returnType f.name loc)
      (.fixed .lparen ::
        (separated (f.params.map Parameter.tokens) ++ .fixed .rparen :: f.bodyTokens extra))
      rest fun f' => f'.unplaced = f.unplaced := by
  obtain ⟨⟨c₁, hparams⟩, hbare, -, hintrinsic⟩ := hf.signature
  simp only [Function.tokens, List.length_append, List.length_cons] at hfuel hn
  have hcount : f.params.length ≤ (separated (f.params.map Parameter.tokens)).length :=
    length_le_length_separated fun q _ => by
      rw [Parameter.tokens, Ty.tokens, List.length_append, List.length_cons]
      omega
  refine (reads_expect .lparen _).bind_cons fun _ _ =>
    Reads.bind (reads_parameters hparams hbare (by omega)) fun params' hparams' =>
      (reads_expect .rparen _).bind_cons fun _ _ =>
        (reads_functionBody hf (by omega) (by omega)).bind_end fun body' hbody' => reads_pure ?_
  rw [Function.unplaced, Function.unplaced, hparams', hbody', hintrinsic]

/-! ### Declarations outside of functions -/

namespace Grammar.TopLevel

/-- The tokens of a declaration outside of functions. -/
def tokens (extra : Expr → Bool) : TopLevel → List Token.Kind
  | globals vs => Variable.declarationTokens extra vs
  | function f => f.tokens extra

/-- A declaration outside of functions, without numbers and locations. -/
def unplaced : TopLevel → TopLevel
  | globals vs => globals (vs.map Variable.unplaced)
  | function f => function f.unplaced

theorem vars_unplaced (r : TopLevel) : r.unplaced.vars = r.vars.map Variable.unplaced := by
  cases r <;> rfl

theorem functions_unplaced (r : TopLevel) :
    r.unplaced.functions = r.functions.map Function.unplaced := by
  cases r <;> rfl

theorem flatMap_vars_unplaced (items : List TopLevel) :
    (items.map unplaced).flatMap vars = (items.flatMap vars).map Variable.unplaced := by
  rw [List.map_flatMap, List.flatMap_map]
  exact congrArg (items.flatMap ·) (funext vars_unplaced)

theorem flatMap_functions_unplaced (items : List TopLevel) :
    (items.map unplaced).flatMap functions = (items.flatMap functions).map Function.unplaced := by
  rw [List.map_flatMap, List.flatMap_map]
  exact congrArg (items.flatMap ·) (funext functions_unplaced)

end Grammar.TopLevel

section

variable {n : Nat} {c c' : Supply}

/-- What a declaration outside of functions begins with is read back: a type and a name. -/
theorem reads_topLevel {expr : Parser Expr} {stmt : Parser Stmt} {base : BaseType} {pointers : Nat}
    {name : String} {ks : List Token.Kind} {P : TopLevel → Prop}
    (h : ∀ loc, Reads (do
      if ← check .lparen then
        let f ← functionRest stmt n ⟨base, pointers, none⟩ name loc
        return .function f
      else
        let first ← declaratorRest expr true ⟨base, pointers, none⟩ name loc
        let vars ← declaratorsFrom expr true base n [first]
        expect .semicolon "after global declaration"
        return .globals vars) ks rest P) :
    Reads (topLevel expr stmt n)
      (.fixed base.keyword :: (starTokens pointers ++ .ident name :: ks)) rest P := by
  refine (reads_accept_of_ne ?_).bind_nil fun _ _ => (reads_baseType base).bind_cons
    fun base' hbase => Reads.bind (reads_stars pointers (by simp))
      fun pointers' hpointers => (reads_identifier name).bind_cons fun r hr => ?_
  · exact fun h => base.keyword_ne_extern (Option.some.inj h)
  obtain ⟨name', loc⟩ := r
  obtain rfl : name' = name := hr
  rw [hbase, hpointers]
  exact h loc

/-- A global variable is read back: what follows its name is no parenthesis. -/
theorem reads_global {base : BaseType} {v : Variable} (hv : v.Made true base c c')
    (hfuel : 2 * (Variable.declarationTokens extra [v]).length ≤ fuel) :
    Reads (topLevel (expressionWithin fuel) (statementWithin (expressionWithin fuel) n) n)
      (TopLevel.tokens extra (.globals [v])) rest
      fun r => r.unplaced = (TopLevel.globals [v]).unplaced := by
  have htokens : TopLevel.tokens extra (.globals [v]) = .fixed base.keyword ::
      (starTokens v.type.pointers ++ .ident v.name :: (v.restTokens extra ++
        [.fixed .semicolon])) := by
    obtain rfl : v.type.base = base := by
      cases hv
      rfl
    simp [TopLevel.tokens, Variable.declarationTokens, separated, Variable.tokens]
  have hrestTokens : 2 * (v.restTokens extra).length ≤ fuel := by
    rw [TopLevel.tokens] at htokens
    simp only [htokens, List.length_cons, List.length_append] at hfuel
    omega
  have hparen : headFixed (v.restTokens extra ++ [.fixed .semicolon] ++ rest) ≠ some .lparen := by
    rw [Variable.restTokens]
    cases v.type.length with
    | some n => exact fun h => by cases h
    | none => cases v.init <;> exact fun h => by cases h
  rw [htokens]
  refine reads_topLevel fun loc => (reads_check_of_ne hparen).bind_nil fun b hb => ?_
  rw [hb]
  refine Reads.bind (reads_declaratorRest hv hrestTokens (.head _ _) loc) fun v' hv' => ?_
  refine (reads_separatedFrom_nil (by simp) n [v']).bind_nil fun vs hvs =>
    (reads_expect .semicolon _).bind_end fun _ _ => reads_pure ?_
  rw [hvs]
  exact congrArg (fun v => TopLevel.globals [v]) hv'

/-- A function is read back. -/
theorem reads_function {f : Function} (hf : f.Made True c c')
    (hfuel : 2 * (f.tokens extra).length ≤ fuel) (hn : (f.tokens extra).length ≤ n) :
    Reads (topLevel (expressionWithin fuel) (statementWithin (expressionWithin fuel) n) n)
      (TopLevel.tokens extra (.function f)) rest
      fun r => r.unplaced = (TopLevel.function f).unplaced := by
  obtain ⟨-, -, hlength, -⟩ := hf.signature
  have htype : (⟨f.returnType.base, f.returnType.pointers, none⟩ : Ty) = f.returnType := by
    rw [← hlength]
  rw [TopLevel.tokens, Function.tokens, Ty.tokens, List.cons_append]
  refine reads_topLevel fun loc => (reads_check_head .lparen).bind_nil fun b hb => ?_
  rw [hb, htype]
  refine (reads_functionRest hf hfuel hn loc).bind_end fun f' hf' => reads_pure ?_
  exact congrArg TopLevel.function hf'

end

/-- Declarations are read back one after the other, up to the end of the text. -/
theorem reads_topLevelsFrom {one : Parser TopLevel} {items : List TopLevel}
    (hone : ∀ r ∈ items, ∀ rest, Reads one (r.tokens extra) rest fun r' => r'.unplaced = r.unplaced)
    (hpos : ∀ r ∈ items, 0 < (r.tokens extra).length) {n : Nat} (hn : items.length ≤ n)
    (globals : List Variable) (functions : List Function) :
    Reads (topLevelsFrom one n globals functions) (items.flatMap (TopLevel.tokens extra)) []
      fun r => ∃ items' : List TopLevel,
        items'.map TopLevel.unplaced = items.map TopLevel.unplaced ∧
        r = (globals.reverse ++ items'.flatMap TopLevel.vars,
          functions.reverse ++ items'.flatMap TopLevel.functions) := by
  induction items generalizing n globals functions with
  | nil =>
    have hdone : (globals.reverse, functions.reverse) =
        (globals.reverse ++ [].flatMap TopLevel.vars,
          functions.reverse ++ [].flatMap TopLevel.functions) := by
      simp
    cases n with
    | zero => exact reads_pure ⟨[], rfl, hdone⟩
    | succ n =>
      refine reads_peek.bind_nil fun next hnext => ?_
      rw [hnext]
      exact reads_pure ⟨[], rfl, hdone⟩
  | cons r items ih =>
    cases n with
    | zero => cases hn
    | succ n =>
      obtain ⟨hr, hitems⟩ := List.forall_mem_cons.1 hone
      obtain ⟨hposr, hposs⟩ := List.forall_mem_cons.1 hpos
      have hn' : items.length ≤ n := Nat.le_of_succ_le_succ hn
      obtain ⟨k, ks, hks⟩ := List.exists_cons_of_length_pos hposr
      refine reads_peek.bind_nil fun next hnext => ?_
      rw [hnext, List.flatMap_cons, hks]
      refine Reads.bind (hks ▸ hr _) fun r' hr' => ?_
      cases r' with
      | globals vs =>
        refine (ih hitems hposs hn' (vs.reverse ++ globals) functions).mono ?_
        rintro _ ⟨items', hsame, rfl⟩
        refine ⟨.globals vs :: items', congrArg₂ List.cons hr' hsame, ?_⟩
        simp [TopLevel.vars, TopLevel.functions]
      | function f =>
        refine (ih hitems hposs hn' globals (f :: functions)).mono ?_
        rintro _ ⟨items', hsame, rfl⟩
        refine ⟨.function f :: items', congrArg₂ List.cons hr' hsame, ?_⟩
        simp [TopLevel.vars, TopLevel.functions]

namespace Program

/-- The declarations of a program, as they are written: one for each global variable, and then the
functions. -/
def items (p : Program) : List TopLevel :=
  p.globals.map (fun v => .globals [v]) ++ p.functions.map .function

theorem tokens_eq_flatMap (p : Program) :
    p.tokens extra = p.items.flatMap (TopLevel.tokens extra) := by
  rw [tokens, items, List.flatMap_append, List.flatMap_map, List.flatMap_map]
  rfl

theorem flatMap_vars_items (p : Program) : p.items.flatMap TopLevel.vars = p.globals := by
  simp [items, TopLevel.vars, List.flatMap_map]

theorem flatMap_functions_items (p : Program) :
    p.items.flatMap TopLevel.functions = p.functions := by
  simp [items, TopLevel.functions, List.flatMap_map]

/-- The global variables and the functions of a program that is made are made. -/
theorem Made.members {named : Prop} {p : Program} (hp : p.Made named) :
    (∀ v ∈ p.globals, ∃ base c c', v.Made true base c c') ∧
      ∀ f ∈ p.functions, ∃ c c', f.Made named c c' := by
  obtain ⟨items, nextNode, hitems, hglobals, hfunctions⟩ := hp
  have hmembers : ∀ r ∈ items, (∀ v ∈ r.vars, ∃ base c c', v.Made true base c c') ∧
      ∀ f ∈ r.functions, ∃ c c', f.Made named c c' := by
    refine hitems.forall_mem fun c c' r hr => ?_
    cases hr with
    | globals hvs => exact ⟨hvs.forall_mem fun c c' v hv => ⟨_, c, c', hv⟩, fun _ h => nomatch h⟩
    | function hf => exact ⟨(fun _ h => nomatch h), List.forall_mem_singleton.2 ⟨_, _, hf⟩⟩
  rw [hglobals, hfunctions]
  constructor
  · intro v hv
    obtain ⟨r, hr, hv⟩ := List.mem_flatMap.1 hv
    exact (hmembers r hr).1 v hv
  · intro f hf
    obtain ⟨r, hr, hf⟩ := List.mem_flatMap.1 hf
    exact (hmembers r hr).2 f hf

theorem length_pos_of_mem_items {p : Program} :
    ∀ r ∈ p.items, 0 < (r.tokens extra).length := by
  refine List.forall_mem_append.2 ⟨List.forall_mem_map.2 fun v _ => ?_,
    List.forall_mem_map.2 fun f _ => ?_⟩
  · exact Nat.succ_pos _
  · rw [TopLevel.tokens, Function.tokens, Ty.tokens, List.length_append]
    exact Nat.lt_add_right _ (Nat.succ_pos _)

/-- The declarations of a program that is made are read back. -/
theorem Made.reads_items {p : Program} (hp : p.Made True) {n : Nat}
    (hfuel : 2 * (p.tokens extra).length ≤ fuel) (hn : (p.tokens extra).length ≤ n) :
    ∀ r ∈ p.items, ∀ rest,
      Reads (topLevel (expressionWithin fuel) (statementWithin (expressionWithin fuel) n) n)
        (r.tokens extra) rest fun r' => r'.unplaced = r.unplaced := by
  have hlength : ∀ r ∈ p.items, (r.tokens extra).length ≤ (p.tokens extra).length := by
    intro r hr
    rw [tokens_eq_flatMap]
    exact length_le_flatMap_of_mem (TopLevel.tokens extra) hr
  intro r hr rest
  have hle := hlength r hr
  rcases List.mem_append.1 hr with hv | hf
  · obtain ⟨v, hmem, rfl⟩ := List.mem_map.1 hv
    obtain ⟨base, c, c', hmade⟩ := hp.members.1 v hmem
    exact reads_global hmade (Nat.le_trans (Nat.mul_le_mul_left 2 hle) hfuel)
  · obtain ⟨f, hmem, rfl⟩ := List.mem_map.1 hf
    obtain ⟨c, c', hmade⟩ := hp.members.2 f hmem
    exact reads_function hmade (Nat.le_trans (Nat.mul_le_mul_left 2 hle) hfuel)
      (Nat.le_trans hle hn)

/-- The declarations of a program that is made are read back one after the other. -/
theorem Made.reads {p : Program} (hp : p.Made True) :
    Reads Grammar.program (p.tokens extra) [] fun r =>
      r.1.map Variable.unplaced = p.globals.map Variable.unplaced ∧
        r.2.map Function.unplaced = p.functions.map Function.unplaced := by
  intro s hs
  have hlength : s.rest.length = (p.tokens extra).length := by
    rw [← List.append_nil (p.tokens extra), ← hs, State.kinds, List.length_map]
  obtain ⟨fuel, hfuel⟩ : ∃ fuel, fuel = depthBound s.rest.length := ⟨_, rfl⟩
  have hbound : 2 * (p.tokens extra).length ≤ fuel := by
    rw [hfuel, hlength, depthBound]
    omega
  have hcount : p.items.length ≤ (p.tokens extra).length := by
    rw [tokens_eq_flatMap]
    exact length_le_length_flatMap length_pos_of_mem_items
  have hitems := reads_topLevelsFrom (n := fuel) (hp.reads_items (n := fuel) hbound (by omega))
    length_pos_of_mem_items (by omega) [] []
  rw [← tokens_eq_flatMap] at hitems
  obtain ⟨r, s', hr, hs', items', hsame, rfl⟩ := hitems s hs
  have hvars := congrArg (List.flatMap TopLevel.vars) hsame
  have hfunctions := congrArg (List.flatMap TopLevel.functions) hsame
  rw [TopLevel.flatMap_vars_unplaced, TopLevel.flatMap_vars_unplaced, flatMap_vars_items] at hvars
  rw [TopLevel.flatMap_functions_unplaced, TopLevel.flatMap_functions_unplaced,
    flatMap_functions_items] at hfunctions
  refine ⟨(items'.flatMap TopLevel.vars, items'.flatMap TopLevel.functions), s', ?_, hs', hvars,
    hfunctions⟩
  rw [hfuel] at hr
  exact hr

end Program

/-! ### The table -/

namespace Stmt

mutual

/-- Forgetting numbers and locations keeps what a statement declares. -/
theorem vars_unplaced : (st : Stmt) → st.unplaced.vars = st.vars.map Variable.unplaced
  | .declare .. => rfl
  | .eval .. => rfl
  | .branch _ _ t f => by
    rw [unplaced, vars, vars, vars_unplaced t, vars_unplacedOption f, List.map_append]
  | .whileLoop _ _ b => vars_unplaced b
  | .doLoop _ b _ => vars_unplaced b
  | .forLoop _ i _ _ b => by
    rw [unplaced, vars, vars, vars_unplacedOption i, vars_unplaced b, List.map_append]
  | .ret .. => rfl
  | .block _ ss => vars_unplacedAll ss
  | .leave _ => rfl
  | .next _ => rfl
  | .empty _ => rfl

theorem vars_unplacedAll : (ss : List Stmt) →
    varsOf (unplacedAll ss) = (varsOf ss).map Variable.unplaced
  | [] => rfl
  | st :: ss => by
    rw [unplacedAll, varsOf, varsOf, vars_unplaced st, vars_unplacedAll ss, List.map_append]

theorem vars_unplacedOption : (o : Option Stmt) →
    varsOfOption (unplacedOption o) = (varsOfOption o).map Variable.unplaced
  | none => rfl
  | some st => vars_unplaced st

end

end Stmt

theorem Function.vars_unplaced (f : Function) : f.unplaced.vars = f.vars.map Variable.unplaced := by
  obtain ⟨name, params, returnType, body, intrinsic, loc⟩ := f
  cases body with
  | none => rfl
  | some st => exact st.vars_unplaced

/-- What a function enters into the table does not depend on numbers and locations. -/
theorem Function.map_fst_entries_unplaced (f : Function) :
    f.unplaced.entries.map Prod.fst = f.entries.map Prod.fst := by
  rw [entries, entries, Function.vars_unplaced]
  simp [unplaced, Parameter.entry, Parameter.unplaced, Variable.entry, Variable.unplaced,
    Function.comp_def]

namespace Program

/-- Programs that are the same but for numbers and locations declare the same. -/
theorem map_fst_entries_congr {p p' : Program}
    (hglobals : p'.globals.map Variable.unplaced = p.globals.map Variable.unplaced)
    (hfunctions : p'.functions.map Function.unplaced = p.functions.map Function.unplaced) :
    p'.entries.map Prod.fst = p.entries.map Prod.fst := by
  have hentries : ∀ p : Program, p.entries.map Prod.fst =
      (p.globals.map Variable.unplaced).map (fun v => (v.entry true).1) ++
        (p.functions.map Function.unplaced).flatMap fun f => f.entries.map Prod.fst := by
    intro p
    rw [entries, List.map_append, List.map_map, List.map_map, List.map_flatMap, List.flatMap_map]
    simp only [Function.map_fst_entries_unplaced]
    rfl
  rw [hentries, hentries, hglobals, hfunctions]

/-- The table of a program that is made says what its declarations say. -/
theorem Made.perm_declarations {named : Prop} {p : Program} (hp : p.Made named) :
    p.declarations.toList.Perm (p.entries.map Prod.fst) := by
  have hperm := hp.perm_entries.map Prod.fst
  rwa [List.zipIdx_map_fst] at hperm

/-- A program that a text says is read back from its tokens, but for numbers and locations; `extra`
says which expressions are in parentheses that they do not need.  The tables of the two programs
hold the same entries, which may be numbered in another order. -/
theorem reads_back_of_read {source : String} {p : Program} (h : (read source).result = .ok p)
    (extra : Expr → Bool) {ts : Tokens} (hts : ts.list.map Token.kind = p.tokens extra) :
    ∃ p', ofTokens ts = .ok p' ∧
      p'.globals.map Variable.unplaced = p.globals.map Variable.unplaced ∧
      p'.functions.map Function.unplaced = p.functions.map Function.unplaced ∧
      p'.declarations.toList.Perm p.declarations.toList := by
  have hmade : p.Made True := made_of_read h
  have hkinds : (State.ofTokens ts).kinds = p.tokens extra ++ [] := by
    rw [List.append_nil]
    exact hts
  obtain ⟨⟨globals, functions⟩, s', hprogram, -, hglobals, hfunctions⟩ := hmade.reads _ hkinds
  have hok : ofTokens ts = .ok ⟨globals, functions, s'.declarations⟩ := by
    unfold ofTokens
    rw [hprogram]
  refine ⟨_, hok, hglobals, hfunctions, ?_⟩
  have hmade' : Made False _ := made_ofTokens False.elim hok
  refine hmade'.perm_declarations.trans ?_
  rw [map_fst_entries_congr hglobals hfunctions]
  exact hmade.perm_declarations.symm

/-- A program with a prototype, an `else` behind two `if`s, and loops without blocks. -/
def unbraced : String :=
  "int f(int, char *s); int g = 1 + 2, *h[3]; void k(int n, void) " ++
  "{ if (n) if (g) n = 1; else n = 2; for (int i = 0, *p; ; i++) do ; while (g++); }"

/-- With all parentheses it is written as 105 tokens, from which it is read back. -/
theorem reads_back_of_read_unbraced :
    ∃ p p', (read unbraced).result = .ok p ∧ (p.tokens fun _ => true).length = 105 ∧
      ofTokens (.ofKinds (p.tokens fun _ => true)) = .ok p' ∧
      p'.globals.map Variable.unplaced = p.globals.map Variable.unplaced ∧
      p'.functions.map Function.unplaced = p.functions.map Function.unplaced ∧
      p'.declarations.toList.Perm p.declarations.toList := by
  have hcount : ((read unbraced).result.toOption.map fun p =>
      (p.tokens fun _ => true).length) = some 105 := by decide +kernel
  obtain ⟨p, hp, hlength⟩ := Option.map_eq_some_iff.1 hcount
  have hread := eq_ok_of_toOption hp
  obtain ⟨p', hback⟩ := reads_back_of_read hread (fun _ => true) (Tokens.map_kind_ofKinds _)
  exact ⟨p, p', hread, hlength, hback⟩

end Program

end MiniC
