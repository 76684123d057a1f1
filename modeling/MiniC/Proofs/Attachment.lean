import MiniC.Proofs.Made
import MiniC.Proofs.Precedence

/-!
# Statements are read back as they are written

**A statement that a parser makes is read back from its tokens.**  It is written without braces of
its own, and nothing but the order of its tokens says which `if` an `else` belongs to.  So what may
stand behind a statement matters: one that an `else` would join must not be followed by one, and
such a statement does not stand before the `else` of an outer `if`, because the parser that made the
outer one would have given this `else` away.

Main definitions:

* `MiniC.ReadsStmt`: a parser reads a statement back, wherever it may stand.

Main results:

* `MiniC.reads_expr`, `MiniC.reads_declarator`: expressions and declarators that are made are read
  back;
* `MiniC.readsStmt_branch`: an `else` is given back to the `if` that it belonged to;
* `MiniC.Stmt.Made.reads`: statements that are made are read back.
-/

set_option autoImplicit false

namespace MiniC

open MiniC.Grammar MiniC.Parser

/-! ### Trees that are made are plain -/

namespace Expr

mutual

/-- An expression that is made is as expressions are read. -/
theorem Made.isPlain : (e : Expr) → {c c' : Supply} → e.Made c c' → e.isPlain = true
  | .int _ _, _, _, .int .. => rfl
  | .char _ _, _, _, .char .. => rfl
  | .string _ _, _, _, .string .. => rfl
  | .name _ _ _, _, _, .name .. => rfl
  | .sizeof _ _, _, _, .sizeof _ _ ht => Option.isNone_iff_eq_none.2 ht
  | .binary _ _ l r, _, _, .binary _ _ hl hr =>
    Bool.and_eq_true_iff.2 ⟨isPlain l hl, isPlain r hr⟩
  | .unary _ _ x, _, _, .unary _ _ hx => isPlain x hx
  | .call _ _ args, _, _, .call _ _ hargs => allPlain args hargs
  | .subscript _ b i, _, _, .subscript _ hb hi =>
    Bool.and_eq_true_iff.2 ⟨isPlain b hb, isPlain i hi⟩
  | .cast _ _ x, _, _, .cast _ ht hx =>
    Bool.and_eq_true_iff.2 ⟨Option.isNone_iff_eq_none.2 ht, isPlain x hx⟩

theorem Made.allPlain : (es : List Expr) → {c c' : Supply} → Threaded Made c c' es →
    Expr.allPlain es = true
  | [], _, _, _ => rfl
  | e :: es, _, _, .cons he hes => Bool.and_eq_true_iff.2 ⟨isPlain e he, allPlain es hes⟩

end

end Expr

variable {extra : Expr → Bool} {rest : List Token.Kind} {fuel : Nat}

/-- Whole expressions are read back before a token that ends all operands. -/
theorem reads_expr {e : Expr} {c c' : Supply} (he : e.Made c c')
    (hfuel : 2 * (e.tokensAt extra 0).length ≤ fuel) (hrest : Stops 0 rest) :
    ReadsExpr (expressionWithin fuel) (e.tokensAt extra 0) rest e :=
  (Expr.readsAs_tokensAt (Expr.readsAs_tokens e (Expr.Made.isPlain e he)) 0).expression fuel rest
    hfuel hrest

theorem startsExpression_of_made {e : Expr} {c c' : Supply} (he : e.Made c c') :
    StartsExpression (e.tokensAt extra 0) :=
  (Expr.readsAs_tokensAt (Expr.readsAs_tokens e (Expr.Made.isPlain e he)) 0).starts

/-- An expression that may be missing is read back before the token that tells that it is. -/
theorem reads_expressionUnless {o : Option Expr} {c c' : Supply} {f : Fixed}
    (ho : Possibly Expr.Made c c' o) (hfuel : 2 * (optionTokens extra o).length ≤ fuel)
    (hf : f ≠ .lparen ∧ f ≠ .kwSizeof ∧ List.lookup f prefixOps = none)
    (hstops : f.infixLevel? = none) :
    Reads (expressionUnless (expressionWithin fuel) f) (optionTokens extra o) (.fixed f :: rest)
      fun o' => o'.map Expr.unplaced = o.map Expr.unplaced := by
  cases ho with
  | none =>
    refine (reads_check_head f).bind_nil fun b hb => ?_
    rw [hb]
    exact reads_pure rfl
  | some he =>
    refine (reads_check_of_ne ?_).bind_nil fun b hb => ?_
    · exact (startsExpression_of_made he).append.headFixed_ne hf
    rw [hb]
    refine (reads_expr he hfuel (stops_of_infixLevel_eq_none hstops 0)).bind_end fun e' he' => ?_
    exact reads_pure (congrArg some he')

/-! ### Declarators -/

/-- What may follow a thing in a list with commas before the token `f`: a comma or `f`. -/
def EndsItem (f : Fixed) (rest : List Token.Kind) : Prop :=
  headFixed rest = some .comma ∨ headFixed rest = some f

theorem EndsItem.comma (f : Fixed) (ks : List Token.Kind) : EndsItem f (.fixed .comma :: ks) :=
  .inl rfl

theorem EndsItem.head (f : Fixed) (ks : List Token.Kind) : EndsItem f (.fixed f :: ks) := .inr rfl

theorem EndsItem.headFixed_ne {f g : Fixed} (h : EndsItem f rest) (hcomma : g ≠ .comma)
    (hf : g ≠ f) : headFixed rest ≠ some g := by
  rcases h with h | h <;> rw [h] <;> intro heq <;> cases heq
  · exact hcomma rfl
  · exact hf rfl

theorem EndsItem.stops (h : EndsItem .semicolon rest) : Stops 0 rest := by
  intro f hf j hj
  rcases h with h | h <;> rw [h] at hf <;> cases hf <;> cases hj

/-- The length of an array is read back, since it fits in the literal. -/
theorem reads_arrayLength {length : Option Nat} (hlength : ∀ n ∈ length, n < 2 ^ 63)
    (hrest : headFixed rest ≠ some .lbracket) :
    Reads arrayLength (lengthTokens length) rest (· = length) := by
  cases length with
  | none =>
    refine (reads_accept_of_ne hrest).bind_nil fun b hb => ?_
    rw [hb]
    exact reads_pure rfl
  | some n =>
    refine (reads_accept .lbracket).bind_cons fun b hb => ?_
    rw [hb]
    refine reads_peek.bind_nil fun next hnext => ?_
    rw [hnext]
    have hvalue : (Int64.ofNat n).toInt = n := Int64.toInt_ofNat_of_lt (hlength n rfl)
    have hnonneg : ¬Int64.ofNat n < 0 := by
      rw [Int64.lt_iff_toInt_lt, hvalue, Int64.toInt_zero]
      omega
    dsimp only [List.cons_append, List.head?_cons]
    rw [if_neg hnonneg]
    refine (reads_advance _).bind_cons fun _ _ => (reads_expect .rbracket _).bind_end
      fun _ _ => (reads_check_of_ne hrest).bind_nil fun b hb => ?_
    rw [hb]
    refine reads_pure (congrArg some ?_)
    rw [hvalue]
    rfl

/-- An initial value is read back. -/
theorem reads_initializer {init : Option Expr} {c c' : Supply}
    (hinit : Possibly Expr.Made c c' init)
    (hfuel : 2 * (initTokens extra init).length ≤ fuel) (hrest : EndsItem .semicolon rest) :
    Reads (initializer (expressionWithin fuel)) (initTokens extra init) rest
      fun o => o.map Expr.unplaced = init.map Expr.unplaced := by
  cases hinit with
  | none =>
    have heq : headFixed rest ≠ some .eq := hrest.headFixed_ne (by decide) (by decide)
    refine (reads_accept_of_ne heq).bind_nil fun b hb => ?_
    rw [hb]
    exact reads_pure rfl
  | some he =>
    rw [initTokens, List.length_cons] at hfuel
    refine (reads_accept .eq).bind_cons fun b hb => ?_
    rw [hb]
    refine (reads_expr he (by omega) hrest.stops).bind_end fun e' he' => ?_
    exact reads_pure (congrArg some he')

section

variable {isGlobal : Bool} {base : BaseType} {v : Variable} {c c' : Supply}

/-- What stands behind the name of a variable is read back. -/
theorem reads_declaratorRest (hv : v.Made isGlobal base c c')
    (hfuel : 2 * (v.restTokens extra).length ≤ fuel) (hrest : EndsItem .semicolon rest)
    (loc : Location) :
    Reads (declaratorRest (expressionWithin fuel) isGlobal ⟨base, v.type.pointers, none⟩ v.name loc)
      (v.restTokens extra) rest fun v' => v'.unplaced = v.unplaced := by
  cases hv with
  | @mk _ pointers length name _ init hlength hvoid hinit =>
    rw [Variable.restTokens, List.length_append] at hfuel
    dsimp only at hfuel
    have hinitial : headFixed (initTokens extra init ++ rest) ≠ some .lbracket := by
      cases init with
      | none => exact hrest.headFixed_ne (by decide) (by decide)
      | some e => exact fun h => by cases h
    refine Reads.bind (reads_arrayLength hlength hinitial) fun length' hlength' => ?_
    rw [hlength']
    dsimp only
    rw [if_neg (by rw [hvoid]; decide)]
    refine (reads_initializer hinit (by omega) hrest).bind_end fun init' hinit' =>
      (reads_declare _).bind_nil fun id _ => reads_pure ?_
    rw [Variable.unplaced, hinit']
    rfl

/-- A declarator is read back behind its base type. -/
theorem reads_declarator (hv : v.Made isGlobal base c c')
    (hfuel : 2 * (v.tokens extra).length ≤ fuel) (hrest : EndsItem .semicolon rest) :
    Reads (declarator (expressionWithin fuel) isGlobal base) (v.tokens extra) rest
      fun v' => v'.unplaced = v.unplaced := by
  rw [Variable.tokens, List.length_append, List.length_cons] at hfuel
  refine Reads.bind (reads_stars _ (by simp)) fun pointers hpointers =>
    (reads_identifier v.name).bind_cons fun r hr => ?_
  obtain ⟨name, loc⟩ := r
  obtain rfl : name = v.name := hr
  rw [hpointers]
  exact reads_declaratorRest hv (by omega) hrest loc

end

/-- A list of variables that is made has made members. -/
theorem exists_made_of_mem {isGlobal : Bool} {base : BaseType} {vs : List Variable} {c c' : Supply}
    (h : Threaded (Variable.Made isGlobal base) c c' vs) :
    ∀ v ∈ vs, v.type.base = base ∧ ∃ c c', v.Made isGlobal base c c' :=
  h.forall_mem fun c c' v hv => ⟨by cases hv; rfl, c, c', hv⟩

/-! ### Statements -/

/-- The parser reads the statement back, wherever it may stand: one that an `else` would join does
not stand before an `else`. -/
def ReadsStmt (extra : Expr → Bool) (p : Parser Stmt) (st : Stmt) : Prop :=
  ∀ rest, (st.isOpen = true → headFixed rest ≠ some .kwElse) →
    Reads p (st.tokens extra) rest fun st' => st'.unplaced = st.unplaced

theorem BaseType.keyword_ne_extern (base : BaseType) : base.keyword ≠ .kwExtern := by
  cases base <;> decide

/-- The declaration of local variables is read back. -/
theorem reads_localDeclaration {base : BaseType} {v : Variable} {vs : List Variable}
    {c c' : Supply} (hvs : Threaded (Variable.Made false base) c c' (v :: vs)) {n : Nat}
    (hfuel : 2 * (Variable.declarationTokens extra (v :: vs)).length ≤ fuel)
    (hn : (Variable.declarationTokens extra (v :: vs)).length ≤ n) :
    Reads (localDeclaration (expressionWithin fuel) n) (Variable.declarationTokens extra (v :: vs))
      rest fun st => st.unplaced = (Stmt.declare .start (v :: vs)).unplaced := by
  have hmade := exists_made_of_mem hvs
  obtain rfl : v.type.base = base := (hmade v List.mem_cons_self).1
  rw [Variable.declarationTokens, List.length_cons, List.length_append] at hfuel hn
  have hcount : (v :: vs).length ≤ (separated ((v :: vs).map (Variable.tokens extra))).length :=
    length_le_length_separated fun w _ => by
      rw [Variable.tokens, List.length_append, List.length_cons]
      omega
  rw [List.length_cons] at hcount
  have hone : ∀ w ∈ v :: vs, ∀ more, EndsItem .semicolon more →
      Reads (declarator (expressionWithin fuel) false v.type.base) (w.tokens extra) more
        fun w' => w'.unplaced = w.unplaced := by
    intro w hw more hmore
    obtain ⟨-, c, c', hw'⟩ := hmade w hw
    have hle : (w.tokens extra).length ≤
        (separated ((v :: vs).map (Variable.tokens extra))).length := length_le_separated_of_mem hw
    exact reads_declarator hw' (by omega) hmore
  refine reads_location.bind_nil fun loc _ => (reads_accept_of_ne ?_).bind_nil fun _ _ =>
    (reads_baseType _).bind_cons fun base hbase => ?_
  · exact fun h => BaseType.keyword_ne_extern _ (Option.some.inj h)
  rw [hbase, declaratorsFrom]
  rw [← bind_assoc]
  refine Reads.bind (reads_separated (EndsItem.comma _) (.head _ _) (by simp) hone (by omega))
    fun vs' hvs' => (reads_expect .semicolon _).bind_end fun _ _ => reads_pure ?_
  rw [Stmt.unplaced, Stmt.unplaced, hvs']

/-- A statement begins with a token that neither goes on with an `if` nor closes a block. -/
theorem Stmt.Made.starts (extra : Expr → Bool) {st : Stmt} {c c' : Supply} (h : st.Made c c') :
    ∃ k ks, st.tokens extra = k :: ks ∧ k ≠ .fixed .kwElse ∧ k ≠ .fixed .rbrace := by
  have hexpr : ∀ {e : Expr} {c c' : Supply} (ks : List Token.Kind), e.Made c c' →
      ∃ k ks', e.tokensAt extra 0 ++ ks = k :: ks' ∧ k ≠ .fixed .kwElse ∧ k ≠ .fixed .rbrace := by
    intro e c c' ks he
    have hstart : StartsExpression (e.tokensAt extra 0) := startsExpression_of_made he
    cases hks : e.tokensAt extra 0 with
    | nil => exact absurd hstart.length_pos (by rw [hks]; exact Nat.lt_irrefl 0)
    | cons k more =>
      refine ⟨k, more ++ ks, rfl, ?_, ?_⟩ <;> rintro rfl
      · exact hstart.headFixed_ne (f := .kwElse) (by decide) (by rw [hks]; rfl)
      · exact hstart.headFixed_ne (f := .rbrace) (by decide) (by rw [hks]; rfl)
  cases h with
  | declare loc hvs =>
    refine ⟨_, _, rfl, ?_, ?_⟩ <;>
      exact fun h => by cases hb : (Variable.type _).base <;> rw [hb] at h <;> cases h
  | eval loc he => exact hexpr _ he
  | _ => exact ⟨_, _, rfl, by decide, by decide⟩

theorem Stmt.unplacedAll_eq_map (ss : List Stmt) : unplacedAll ss = ss.map unplaced := by
  induction ss with
  | nil => rfl
  | cons st ss ih => rw [unplacedAll, ih, List.map_cons]

section

variable {p : Parser Stmt} {n : Nat}

/-- What follows a statement in a block is no `else`. -/
theorem headFixed_tokensOf_ne_else {ss : List Stmt} (h : ∀ st ∈ ss, ∃ c c', st.Made c c') :
    headFixed (Stmt.tokensOf extra ss ++ .fixed .rbrace :: rest) ≠ some .kwElse := by
  cases ss with
  | nil => exact fun h => by cases h
  | cons st ss =>
    obtain ⟨c, c', hmade⟩ := h st List.mem_cons_self
    obtain ⟨k, ks, hks, helse, -⟩ := hmade.starts extra
    rw [Stmt.tokensOf, hks]
    intro hhead
    obtain ⟨more, hmore⟩ := exists_eq_of_headFixed hhead
    exact helse (List.cons.inj hmore).1

/-- The statements of a block are read back, up to the closing brace. -/
theorem reads_statementsFrom {ss : List Stmt}
    (h : ∀ st ∈ ss, ReadsStmt extra p st ∧ ∃ c c', st.Made c c') (hn : ss.length ≤ n)
    (seen : List Stmt) :
    Reads (statementsFrom p n seen) (Stmt.tokensOf extra ss) (.fixed .rbrace :: rest)
      fun r => r.map Stmt.unplaced = seen.reverse.map Stmt.unplaced ++ ss.map Stmt.unplaced := by
  have hdone : seen.reverse.map Stmt.unplaced = seen.reverse.map Stmt.unplaced ++ [] :=
    (List.append_nil _).symm
  induction ss generalizing n seen with
  | nil =>
    cases n with
    | zero => exact reads_pure hdone
    | succ n =>
      refine reads_peek.bind_nil fun next hnext => ?_
      rw [hnext]
      exact reads_pure hdone
  | cons st ss ih =>
    cases n with
    | zero => cases hn
    | succ n =>
      obtain ⟨⟨hst, c, c', hmade⟩, hss⟩ := List.forall_mem_cons.1 h
      obtain ⟨k, ks, hks, -, hbrace⟩ := hmade.starts extra
      refine reads_peek.bind_nil fun next hnext => ?_
      rw [hnext, Stmt.tokensOf, hks]
      split
      · next heq => cases heq
      · next heq => exact absurd (Option.some.inj heq) hbrace
      · rw [← hks]
        refine Reads.bind (hst _ fun _ => headFixed_tokensOf_ne_else fun st hmem =>
          (hss st hmem).2) fun st' hst' => ?_
        refine (ih hss (Nat.le_of_succ_le_succ hn) (st' :: seen) ?_).mono fun r hr => ?_
        · exact (List.append_nil _).symm
        · rw [hr, List.reverse_cons, List.map_append, List.append_assoc, List.map_cons,
            List.map_cons, hst']
          rfl

theorem readsStmt_block {ss : List Stmt} (loc : Location)
    (h : ∀ st ∈ ss, ReadsStmt extra p st ∧ ∃ c c', st.Made c c') (hn : ss.length ≤ n) :
    ReadsStmt extra (statementOf (expressionWithin fuel) p n) (.block loc ss) := by
  intro rest _
  refine reads_location.bind_nil fun loc _ => reads_peekFixed.bind_nil fun next hnext => ?_
  rw [hnext]
  refine (reads_advance _).bind_cons fun _ _ => Reads.bind (reads_statementsFrom h hn [])
    fun ss' hss' => (reads_expect .rbrace _).bind_end fun _ _ => reads_pure ?_
  rw [Stmt.unplaced, Stmt.unplaced, Stmt.unplacedAll_eq_map, Stmt.unplacedAll_eq_map, hss']
  rfl

theorem readsStmt_return {e : Option Expr} {c c' : Supply} (loc : Location)
    (he : Possibly Expr.Made c c' e)
    (hfuel : 2 * (Stmt.tokens extra (.ret loc e)).length ≤ fuel) :
    ReadsStmt extra (statementOf (expressionWithin fuel) p n) (.ret loc e) := by
  intro rest _
  rw [Stmt.tokens, List.length_cons, List.length_append] at hfuel
  refine reads_location.bind_nil fun loc _ => reads_peekFixed.bind_nil fun next hnext => ?_
  rw [hnext]
  refine (reads_advance _).bind_cons fun _ _ => Reads.bind
    (reads_expressionUnless he (by omega) (by decide) rfl) fun e' he' =>
      (reads_expect .semicolon _).bind_end fun _ _ => reads_pure ?_
  rw [Stmt.unplaced, Stmt.unplaced, he']

theorem readsStmt_leave (loc : Location) :
    ReadsStmt extra (statementOf (expressionWithin fuel) p n) (.leave loc) := by
  intro rest _
  refine reads_location.bind_nil fun loc _ => reads_peekFixed.bind_nil fun next hnext => ?_
  rw [hnext]
  exact (reads_advance _).bind_cons fun _ _ => (reads_expect .semicolon _).bind_end
    fun _ _ => reads_pure rfl

theorem readsStmt_next (loc : Location) :
    ReadsStmt extra (statementOf (expressionWithin fuel) p n) (.next loc) := by
  intro rest _
  refine reads_location.bind_nil fun loc _ => reads_peekFixed.bind_nil fun next hnext => ?_
  rw [hnext]
  exact (reads_advance _).bind_cons fun _ _ => (reads_expect .semicolon _).bind_end
    fun _ _ => reads_pure rfl

theorem readsStmt_empty (loc : Location) :
    ReadsStmt extra (statementOf (expressionWithin fuel) p n) (.empty loc) := by
  intro rest _
  refine reads_location.bind_nil fun loc _ => reads_peekFixed.bind_nil fun next hnext => ?_
  rw [hnext]
  exact (reads_advance _).bind_end fun _ _ => reads_pure rfl

/-- An `else` is given back to the statement that it belonged to: the first branch takes none that
follows it, because it is not one that an `else` would join. -/
theorem readsStmt_branch {e : Expr} {t : Stmt} {f : Option Stmt} {c c' : Supply} (loc : Location)
    (he : e.Made c c') (hopen : t.isOpen = true → f = none) (ht : ReadsStmt extra p t)
    (hf : ∀ st ∈ f, ReadsStmt extra p st)
    (hfuel : 2 * (Stmt.tokens extra (.branch loc e t f)).length ≤ fuel) :
    ReadsStmt extra (statementOf (expressionWithin fuel) p n) (.branch loc e t f) := by
  intro rest hrest
  rw [Stmt.tokens, List.length_cons, List.length_cons, List.length_append] at hfuel
  refine reads_location.bind_nil fun loc _ => reads_peekFixed.bind_nil fun next hnext => ?_
  rw [hnext]
  refine (reads_advance _).bind_cons fun _ _ => (reads_expect .lparen _).bind_cons fun _ _ =>
    Reads.bind (reads_expr he (by omega) (stops_of_infixLevel_eq_none rfl 0)) fun e' he' =>
      (reads_expect .rparen _).bind_cons fun _ _ => ?_
  cases f with
  | none =>
    have helse : headFixed rest ≠ some .kwElse := hrest rfl
    refine Reads.bind (ht _ fun _ => helse) fun t' ht' =>
      (reads_accept_of_ne helse).bind_nil fun b hb => ?_
    rw [hb]
    refine reads_pure ?_
    rw [Stmt.unplaced, Stmt.unplaced, he', ht']
  | some st =>
    refine Reads.bind (ht _ fun ho => nomatch hopen ho) fun t' ht' =>
      (reads_accept .kwElse).bind_cons fun b hb => ?_
    rw [hb]
    refine (hf st rfl rest hrest).bind_end fun st' hst' => reads_pure ?_
    rw [Stmt.unplaced, Stmt.unplaced, he', ht', Stmt.unplacedOption, Stmt.unplacedOption, hst']

theorem readsStmt_while {e : Expr} {b : Stmt} {c c' : Supply} (loc : Location) (he : e.Made c c')
    (hb : ReadsStmt extra p b)
    (hfuel : 2 * (Stmt.tokens extra (.whileLoop loc e b)).length ≤ fuel) :
    ReadsStmt extra (statementOf (expressionWithin fuel) p n) (.whileLoop loc e b) := by
  intro rest hrest
  rw [Stmt.tokens, List.length_cons, List.length_cons, List.length_append] at hfuel
  refine reads_location.bind_nil fun loc _ => reads_peekFixed.bind_nil fun next hnext => ?_
  rw [hnext]
  refine (reads_advance _).bind_cons fun _ _ => (reads_expect .lparen _).bind_cons fun _ _ =>
    Reads.bind (reads_expr he (by omega) (stops_of_infixLevel_eq_none rfl 0)) fun e' he' =>
      (reads_expect .rparen _).bind_cons fun _ _ => (hb rest hrest).bind_end
        fun b' hb' => reads_pure ?_
  rw [Stmt.unplaced, Stmt.unplaced, he', hb']

theorem readsStmt_do {e : Expr} {b : Stmt} {c c' : Supply} (loc : Location) (he : e.Made c c')
    (hb : ReadsStmt extra p b)
    (hfuel : 2 * (Stmt.tokens extra (.doLoop loc b e)).length ≤ fuel) :
    ReadsStmt extra (statementOf (expressionWithin fuel) p n) (.doLoop loc b e) := by
  intro rest _
  rw [Stmt.tokens, List.length_cons, List.length_append, List.length_cons, List.length_cons,
    List.length_append] at hfuel
  refine reads_location.bind_nil fun loc _ => reads_peekFixed.bind_nil fun next hnext => ?_
  rw [hnext]
  refine (reads_advance _).bind_cons fun _ _ => Reads.bind (hb _ fun _ h => nomatch h)
    fun b' hb' => (reads_expect .kwWhile _).bind_cons fun _ _ =>
      (reads_expect .lparen _).bind_cons fun _ _ =>
        Reads.bind (reads_expr he (by omega) (stops_of_infixLevel_eq_none rfl 0)) fun e' he' =>
          (reads_expect .rparen _).bind_cons fun _ _ => (reads_expect .semicolon _).bind_end
            fun _ _ => reads_pure ?_
  rw [Stmt.unplaced, Stmt.unplaced, he', hb']

/-- Where no keyword of a statement, no brace and no semicolon begins, there is a declaration or an
expression. -/
theorem reads_statementOf_default {ks : List Token.Kind} {P : Stmt → Prop}
    (hhead : ∀ f ∈ [Fixed.kwReturn, .kwIf, .kwWhile, .kwDo, .kwFor, .kwBreak, .kwContinue, .lbrace,
      .semicolon], headFixed (ks ++ rest) ≠ some f)
    (h : ∀ loc, Reads (do
      if ← startsDeclaration then localDeclaration (expressionWithin fuel) n
      else
        let e ← expressionWithin fuel
        expect .semicolon "after expression"
        return .eval loc e) ks rest P) :
    Reads (statementOf (expressionWithin fuel) p n) ks rest P := by
  refine reads_location.bind_nil fun loc _ => reads_peekFixed.bind_nil fun next hnext => ?_
  rw [hnext]
  cases hks : headFixed (ks ++ rest) with
  | none => exact h loc
  | some f => cases f <;> first | exact h loc | exact absurd hks (hhead _ (by decide))

/-- A declaration is seen to be one. -/
theorem reads_startsDeclaration_declare (loc : Location) (v : Variable) (vs : List Variable) :
    Reads startsDeclaration [] (Stmt.tokens extra (.declare loc (v :: vs)) ++ rest) (· = true) := by
  refine reads_startsDeclaration.mono fun b hb => ?_
  rw [hb, Stmt.tokens, Variable.declarationTokens, List.cons_append, headFixed_cons,
    baseType?_keyword]
  rfl

/-- An expression is seen to be no declaration. -/
theorem StartsExpression.reads_startsDeclaration {ks : List Token.Kind} (h : StartsExpression ks) :
    Reads startsDeclaration [] ks (· = false) := by
  refine MiniC.reads_startsDeclaration.mono fun b hb => ?_
  rw [hb, h.baseType?_eq_none]
  exact beq_false_of_ne (h.headFixed_ne (by decide))

theorem readsStmt_declare {base : BaseType} {v : Variable} {vs : List Variable} {c c' : Supply}
    (loc : Location) (hvs : Threaded (Variable.Made false base) c c' (v :: vs))
    (hfuel : 2 * (Stmt.tokens extra (.declare loc (v :: vs))).length ≤ fuel)
    (hn : (Stmt.tokens extra (.declare loc (v :: vs))).length ≤ n) :
    ReadsStmt extra (statementOf (expressionWithin fuel) p n) (.declare loc (v :: vs)) := by
  intro rest _
  refine reads_statementOf_default ?_ fun loc =>
    (reads_startsDeclaration_declare loc v vs).bind_nil fun b hb => ?_
  · intro f hf h
    have hkeyword : v.type.base.keyword = f := Option.some.inj h
    subst hkeyword
    cases hbase : v.type.base <;> rw [hbase] at hf <;> revert hf <;> decide
  · rw [hb]
    exact reads_localDeclaration hvs hfuel hn

theorem readsStmt_eval {e : Expr} {c c' : Supply} (loc : Location) (he : e.Made c c')
    (hfuel : 2 * (Stmt.tokens extra (.eval loc e)).length ≤ fuel) :
    ReadsStmt extra (statementOf (expressionWithin fuel) p n) (.eval loc e) := by
  intro rest _
  have hstart : StartsExpression (Stmt.tokens extra (.eval loc e) ++ rest) :=
    (startsExpression_of_made he).append.append
  rw [Stmt.tokens, List.length_append] at hfuel
  refine reads_statementOf_default ?_ fun loc =>
    hstart.reads_startsDeclaration.bind_nil fun b hb => ?_
  · intro f hf
    refine hstart.headFixed_ne ?_
    revert f
    decide
  · rw [hb]
    refine Reads.bind (reads_expr he (by omega) (stops_of_infixLevel_eq_none rfl 0)) fun e' he' =>
      (reads_expect .semicolon _).bind_end fun _ _ => reads_pure ?_
    rw [Stmt.unplaced, Stmt.unplaced, he']

/-- The first clause of a `for` is read back. -/
theorem reads_forInit {i : Option Stmt} {c c' : Supply} (hi : Possibly Stmt.Made c c' i)
    (hclause : ∀ st ∈ i, st.isClause = true)
    (hfuel : 2 * (Stmt.clauseTokens extra i).length ≤ fuel)
    (hn : (Stmt.clauseTokens extra i).length ≤ n) :
    Reads (forInit (expressionWithin fuel) n) (Stmt.clauseTokens extra i) rest
      fun i' => Stmt.unplacedOption i' = Stmt.unplacedOption i := by
  cases hi with
  | none =>
    refine (reads_accept .semicolon).bind_end fun b hb => ?_
    rw [hb]
    exact reads_pure rfl
  | some hst =>
    cases hst with
    | @declare _ _ loc _ v vs hvs =>
      refine (reads_accept_of_ne ?_).bind_nil fun b hb => ?_
      · intro h
        have hkeyword : v.type.base.keyword = .semicolon := Option.some.inj h
        cases hbase : v.type.base <;> rw [hbase] at hkeyword <;> cases hkeyword
      · rw [hb]
        refine (reads_startsDeclaration_declare loc v vs).bind_nil fun b hb => ?_
        rw [hb]
        refine (reads_localDeclaration hvs hfuel hn).bind_end fun st' hst' => reads_pure ?_
        exact congrArg some hst'
    | @eval _ _ loc e he =>
      have hstart : StartsExpression (Stmt.tokens extra (.eval loc e) ++ rest) :=
        (startsExpression_of_made he).append.append
      rw [Stmt.clauseTokens, Stmt.tokens, List.length_append] at hfuel
      refine (reads_accept_of_ne (hstart.headFixed_ne (by decide))).bind_nil fun b hb => ?_
      rw [hb]
      refine hstart.reads_startsDeclaration.bind_nil fun b hb => ?_
      rw [hb]
      refine reads_location.bind_nil fun loc _ => Reads.bind
        (reads_expr he (by omega) (stops_of_infixLevel_eq_none rfl 0)) fun e' he' =>
          (reads_expect .semicolon _).bind_end fun _ _ => reads_pure ?_
      rw [Stmt.unplacedOption, Stmt.unplacedOption, Stmt.unplaced, Stmt.unplaced, he']
    | _ => cases hclause _ rfl

/-- A `for` is read back. -/
theorem readsStmt_for {i : Option Stmt} {e s : Option Expr} {b : Stmt} {c c₁ c₂ c' : Supply}
    (loc : Location) (hi : Possibly Stmt.Made c c₁ i) (hclause : ∀ st ∈ i, st.isClause = true)
    (he : Possibly Expr.Made c₁ c₂ e) (hs : Possibly Expr.Made c₂ c' s) (hb : ReadsStmt extra p b)
    (hfuel : 2 * (Stmt.tokens extra (.forLoop loc i e s b)).length ≤ fuel)
    (hn : (Stmt.tokens extra (.forLoop loc i e s b)).length ≤ n) :
    ReadsStmt extra (statementOf (expressionWithin fuel) p n) (.forLoop loc i e s b) := by
  intro rest hrest
  simp only [Stmt.tokens, List.length_cons, List.length_append] at hfuel hn
  refine reads_location.bind_nil fun loc _ => reads_peekFixed.bind_nil fun next hnext => ?_
  rw [hnext]
  refine (reads_advance _).bind_cons fun _ _ => (reads_expect .lparen _).bind_cons fun _ _ =>
    Reads.bind (reads_forInit hi hclause (by omega) (by omega)) fun i' hi' =>
      Reads.bind (reads_expressionUnless he (by omega) (by decide) rfl) fun e' he' =>
        (reads_expect .semicolon _).bind_cons fun _ _ =>
          Reads.bind (reads_expressionUnless hs (by omega) (by decide) rfl) fun s' hs' =>
            (reads_expect .rparen _).bind_cons fun _ _ => (hb rest hrest).bind_end
              fun b' hb' => reads_pure ?_
  rw [Stmt.unplaced, Stmt.unplaced, hi', he', hs', hb']

end

/-- A statement is read back within a bound if what is read within smaller ones is. -/
theorem readsStmt_within {expr : Parser Expr} {st : Stmt} {n : Nat}
    (h : ∀ m, (st.tokens extra).length ≤ m →
      ReadsStmt extra (statementOf expr (statementWithin expr m) m) st)
    (hn : (st.tokens extra).length < n) : ReadsStmt extra (statementWithin expr n) st := by
  cases n with
  | zero => cases hn
  | succ n => exact h n (Nat.le_of_lt_succ hn)

namespace Stmt

theorem tokensOf_eq_flatMap (ss : List Stmt) : tokensOf extra ss = ss.flatMap (tokens extra) := by
  induction ss with
  | nil => rfl
  | cons st ss ih => rw [tokensOf, ih, List.flatMap_cons]

/-- Each statement of a list has a token. -/
theorem Made.length_le_tokensOf (extra : Expr → Bool) {ss : List Stmt} {c c' : Supply}
    (h : Threaded Made c c' ss) : ss.length ≤ (tokensOf extra ss).length := by
  rw [tokensOf_eq_flatMap]
  refine length_le_length_flatMap (h.forall_mem fun c c' st hst => ?_)
  obtain ⟨k, ks, hks, -⟩ := Made.starts extra hst
  rw [hks]
  exact Nat.succ_pos _

mutual

/-- A statement that is made is read back. -/
theorem Made.reads : (st : Stmt) → {c c' : Supply} → st.Made c c' →
    2 * (st.tokens extra).length ≤ fuel → ∀ n, (st.tokens extra).length ≤ n →
      ReadsStmt extra (statementOf (expressionWithin fuel)
        (statementWithin (expressionWithin fuel) n) n) st
  | .declare loc _, _, _, .declare _ hvs, hfuel, _, hn => readsStmt_declare loc hvs hfuel hn
  | .eval loc _, _, _, .eval _ he, hfuel, _, _ => readsStmt_eval loc he hfuel
  | .branch loc e t f, _, _, .branch _ he ht hf hopen, hfuel, n, hn => by
    have hlength : (t.tokens extra).length + (elseTokens extra f).length <
        (tokens extra (.branch loc e t f)).length := by
      simp only [tokens, List.length_cons, List.length_append]
      omega
    exact readsStmt_branch loc he hopen
      (readsStmt_within (reads t ht (by omega)) (by omega))
      (fun st hst => readsOption f hf st hst (by omega) n (by omega)) hfuel
  | .whileLoop loc e b, _, _, .whileLoop _ he hb, hfuel, n, hn => by
    have hlength : (b.tokens extra).length < (tokens extra (.whileLoop loc e b)).length := by
      simp only [tokens, List.length_cons, List.length_append]
      omega
    exact readsStmt_while loc he (readsStmt_within (reads b hb (by omega)) (by omega)) hfuel
  | .doLoop loc b e, _, _, .doLoop _ hb he, hfuel, n, hn => by
    have hlength : (b.tokens extra).length < (tokens extra (.doLoop loc b e)).length := by
      simp only [tokens, List.length_cons, List.length_append]
      omega
    exact readsStmt_do loc he (readsStmt_within (reads b hb (by omega)) (by omega)) hfuel
  | .forLoop loc i e s b, _, _, .forLoop _ hi hclause he hs hb, hfuel, n, hn => by
    have hlength : (b.tokens extra).length < (tokens extra (.forLoop loc i e s b)).length := by
      simp only [tokens, List.length_cons, List.length_append]
      omega
    exact readsStmt_for loc hi hclause he hs
      (readsStmt_within (reads b hb (by omega)) (by omega)) hfuel hn
  | .ret loc _, _, _, .ret _ he, hfuel, _, _ => readsStmt_return loc he hfuel
  | .block loc ss, _, _, .block _ hss, hfuel, n, hn => by
    have hlength : (tokensOf extra ss).length < (tokens extra (.block loc ss)).length := by
      simp only [tokens, List.length_cons, List.length_append]
      omega
    exact readsStmt_block loc (readsAll ss hss (by omega) n (by omega))
      (Nat.le_trans (Made.length_le_tokensOf extra hss) (by omega))
  | .leave loc, _, _, .leave .., _, _, _ => readsStmt_leave loc
  | .next loc, _, _, .next .., _, _, _ => readsStmt_next loc
  | .empty loc, _, _, .empty .., _, _, _ => readsStmt_empty loc

theorem Made.readsAll : (ss : List Stmt) → {c c' : Supply} → Threaded Made c c' ss →
    2 * (tokensOf extra ss).length ≤ fuel → ∀ n, (tokensOf extra ss).length < n →
      ∀ st ∈ ss, ReadsStmt extra (statementWithin (expressionWithin fuel) n) st ∧
        ∃ c c', st.Made c c'
  | [], _, _, _, _, _, _ => fun _ h => nomatch h
  | st :: ss, _, _, .cons hst hss, hfuel, n, hn => by
    rw [tokensOf, List.length_append] at hfuel hn
    exact List.forall_mem_cons.2
      ⟨⟨readsStmt_within (reads st hst (by omega)) (by omega), _, _, hst⟩,
        readsAll ss hss (by omega) n (by omega)⟩

theorem Made.readsOption : (o : Option Stmt) → {c c' : Supply} → Possibly Made c c' o →
    ∀ st ∈ o, 2 * (elseTokens extra o).length ≤ fuel → ∀ n, (elseTokens extra o).length ≤ n →
      ReadsStmt extra (statementWithin (expressionWithin fuel) n) st
  | .none, _, _, _ => fun _ h => nomatch h
  | .some st, _, _, .some hst => by
    intro st' hmem hfuel n hn
    obtain rfl := Option.mem_some_iff.1 hmem
    rw [elseTokens, List.length_cons] at hfuel hn
    exact readsStmt_within (reads st hst (by omega)) (by omega)

end

end Stmt

end MiniC
