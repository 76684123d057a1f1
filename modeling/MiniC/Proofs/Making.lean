import MiniC.Proofs.Made
import MiniC.Source

/-!
# What parsers make

The trees that the grammar reads are made: every parser takes the supply from one state to another
one and yields a tree that is made between the two.  The lemmas go through the grammar from the
tokens up, one for every parser.

Two things that a tree is promised to be depend on the token that follows it.  A statement that an
`else` would join is not followed by one, so the grammar never gives an `else` to an outer `if`; and
a parameter list that is a single `void` is not followed by its closing parenthesis, because with
the parenthesis it would have been taken for the empty list.  The second one needs that every
identifier has a name, which holds of the tokens of a text.

Main definitions:

* `MiniC.Parser.Makes`: what a parser leaves when it begins with a given supply;
* `MiniC.Parser.Keeps`: a parser that gives out nothing.

Main results:

* `MiniC.Parser.Makes.bind`: what one parser after another leaves;
* `MiniC.Grammar.makesExpr_within`, `MiniC.Grammar.makesStmt_within`: expressions and statements
  that are read are made;
* `MiniC.Program.made_of_read`: so are the programs that texts say.
-/

set_option autoImplicit false

namespace MiniC

namespace Parser

/-- What a state has given out so far. -/
def State.supply (s : State) : Supply := ⟨s.nextNode, s.declarations⟩

/-- No identifier that is left has the empty name. -/
def State.HasNames (s : State) : Prop := ∀ t ∈ s.rest, t.kind ≠ .ident ""

theorem State.HasNames.of_subset {s s' : State} (h : s.HasNames) (hs : s'.rest ⊆ s.rest) :
    s'.HasNames := fun t ht => h t (hs ht)

theorem State.HasNames.advance {s : State} (h : s.HasNames) : s.advance.HasNames :=
  h.of_subset (List.tail_suffix _).subset

section

variable {α β : Type}

/-- Begun with the supply `c`, the parser leaves a state and a result with the property `P`.  If
`named` holds, the identifiers that are left have names, before and after. -/
def Makes (named : Prop) (c : Supply) (x : Parser α) (P : State → α → Prop) : Prop :=
  ∀ s, s.supply = c → (named → s.HasNames) → ∀ a s', x s = .ok (a, s') →
    (named → s'.HasNames) ∧ P s' a

/-- The parser gives out nothing. -/
def Keeps (named : Prop) (x : Parser α) : Prop := ∀ c, Makes named c x fun s _ => s.supply = c

variable {named : Prop} {c : Supply} {x : Parser α} {f : α → Parser β} {P : State → α → Prop}
  {Q : State → β → Prop}

/-- A parser after another one begins with the supply that the first one leaves. -/
theorem Makes.bind (hx : Makes named c x P) (hf : ∀ a s₁, P s₁ a → Makes named s₁.supply (f a) Q) :
    Makes named c (x >>= f) Q := by
  intro s hs hn b s' h
  obtain ⟨a, s₁, ha, hb⟩ := bind_eq_ok h
  obtain ⟨hn₁, hP⟩ := hx s hs hn a s₁ ha
  exact hf a s₁ hP s₁ rfl hn₁ b s' hb

/-- Behind a parser that gives out nothing, the supply is the same. -/
theorem Keeps.bind (hx : Keeps named x) (hf : ∀ a, Makes named c (f a) Q) :
    Makes named c (x >>= f) Q := by
  refine (hx c).bind fun a s₁ hs₁ => ?_
  rw [hs₁]
  exact hf a

theorem Keeps.keeps_bind (hx : Keeps named x) (hf : ∀ a, Keeps named (f a)) :
    Keeps named (x >>= f) :=
  fun c => hx.bind fun a => hf a c

theorem makes_pure {a : α} (h : ∀ s, s.supply = c → P s a) :
    Makes named c (pure a : Parser α) P := by
  intro s hs hn b s' hb
  cases hb
  exact ⟨hn, h s hs⟩

theorem keeps_pure (a : α) : Keeps named (pure a : Parser α) := fun _ => makes_pure fun _ hs => hs

theorem makes_fail (cause : Option Token.Kind → SyntaxError.Cause) :
    Makes named c (fail cause : Parser α) P := by
  intro s _ _ a s' h
  cases h

theorem makes_failAt (loc : Location) (cause : SyntaxError.Cause) :
    Makes named c (failAt loc cause : Parser α) P := by
  intro s _ _ a s' h
  cases h

/-- A parser that only looks at the state gives out nothing. -/
theorem keeps_of_looks (look : State → α) : Keeps named fun s => .ok (look s, s) := by
  intro c s hs hn a s' h
  cases h
  exact ⟨hn, hs⟩

theorem keeps_location : Keeps named location := keeps_of_looks _

theorem keeps_peek : Keeps named peek := keeps_of_looks _

theorem keeps_peekFixed : Keeps named peekFixed := keeps_of_looks _

theorem keeps_check (f : Fixed) : Keeps named (check f) := keeps_of_looks _

theorem keeps_advance : Keeps named advance := by
  intro c s hs hn a s' h
  cases h
  exact ⟨fun h => (hn h).advance, hs⟩

theorem keeps_accept (f : Fixed) : Keeps named (accept f) := by
  intro c s hs hn a s' h
  unfold accept at h
  split at h
  · cases h
    exact ⟨fun h => (hn h).advance, hs⟩
  · cases h
    exact ⟨hn, hs⟩

theorem keeps_expect (f : Fixed) (context : String) : Keeps named (expect f context) := by
  intro c s hs hn a s' h
  unfold expect at h
  split at h
  · cases h
    exact ⟨fun h => (hn h).advance, hs⟩
  · cases h

theorem keeps_stars : Keeps named stars := by
  intro c s hs hn a s' h
  cases h
  exact ⟨fun h => (hn h).of_subset (List.dropWhile_suffix _).subset, hs⟩

theorem keeps_identifier : Keeps named identifier := by
  intro c s hs hn a s' h
  unfold identifier at h
  split at h
  · next name loc rest heq =>
    cases h
    refine ⟨fun h => (hn h).of_subset ?_, hs⟩
    rw [heq]
    exact List.subset_cons_self _ _
  · cases h

/-- A fresh node takes a number. -/
theorem makes_make {c₀ : Supply} {loc : Location} {e : Node → Expr}
    (h : (e ⟨c.nextNode, loc, none⟩).Made c₀ c.afterNode) :
    Makes named c (make loc e) fun s e => e.Made c₀ s.supply := by
  intro s hs hn a s' ha
  cases ha
  subst hs
  exact ⟨hn, h⟩

/-- Behind a fresh node, a number is taken. -/
theorem makes_make_bind {loc : Location} {e : Node → Expr} {f : Expr → Parser β}
    (h : Makes named c.afterNode (f (e ⟨c.nextNode, loc, none⟩)) Q) :
    Makes named c (make loc e >>= f) Q := by
  intro s hs hn b s' hb
  subst hs
  exact h { s with nextNode := s.nextNode + 1 } rfl hn b s' hb

/-- Behind an entry into the table, the table has it at its end. -/
theorem makes_declare_bind {d : Declaration} {f : Nat → Parser β}
    (h : Makes named (c.afterEntry d) (f c.declarations.size) Q) :
    Makes named c (declare d >>= f) Q := by
  intro s hs hn b s' hb
  subst hs
  exact h { s with declarations := s.declarations.push d } rfl hn b s' hb

end

end Parser

namespace Grammar

open MiniC.Parser

variable {named : Prop}

/-! ### Lists behind commas -/

section

variable {α : Type}

variable {R : Supply → Supply → α → Prop} {one : Parser α}

/-- The things that come behind the first ones are made one after the other. -/
theorem makes_separatedFrom (h : ∀ c, Makes named c one fun s x => R c s.supply x) (fuel : Nat)
    (seen : List α) (c : Supply) :
    Makes named c (separatedFrom one fuel seen) fun s xs =>
      ∃ more, xs = seen.reverse ++ more ∧ Threaded R c s.supply more := by
  have done : ∀ (c : Supply) (seen : List α),
      Makes named c (pure seen.reverse : Parser (List α)) fun s xs =>
      ∃ more, xs = seen.reverse ++ more ∧ Threaded R c s.supply more :=
    fun c seen => makes_pure fun s hs => ⟨[], (List.append_nil _).symm, hs ▸ .nil _⟩
  induction fuel generalizing seen c with
  | zero => exact done c seen
  | succ fuel ih =>
    refine (keeps_accept .comma).bind fun b => ?_
    split
    · refine (h c).bind fun x s₁ hx s hs hn xs s' hxs => ?_
      obtain ⟨hn', more, rfl, hmore⟩ := ih (x :: seen) s₁.supply s hs hn xs s' hxs
      exact ⟨hn', x :: more, by simp, .cons hx hmore⟩
    · exact done c seen

/-- A list with its first thing is made as a whole. -/
theorem makes_separatedFrom_first (h : ∀ c, Makes named c one fun s x => R c s.supply x)
    (fuel : Nat) {x : α} {c c₁ : Supply} (hx : R c c₁ x) :
    Makes named c₁ (separatedFrom one fuel [x]) fun s xs =>
      ∃ more, xs = x :: more ∧ Threaded R c s.supply (x :: more) := by
  intro s hs hn xs s' hxs
  obtain ⟨hn', more, rfl, hmore⟩ := makes_separatedFrom h fuel [x] c₁ s hs hn xs s' hxs
  exact ⟨hn', more, rfl, .cons hx hmore⟩

/-- If nothing comes behind the first things of a list, then no token is taken. -/
theorem exists_of_separatedFrom {fuel : Nat} {seen xs : List α} {s s' : State}
    (h : separatedFrom one fuel seen s = .ok (xs, s')) :
    ∃ more, xs = seen.reverse ++ more ∧ (more = [] → s' = s) := by
  induction fuel generalizing seen s with
  | zero =>
    cases h
    exact ⟨[], (List.append_nil _).symm, fun _ => rfl⟩
  | succ fuel ih =>
    obtain ⟨b, s₁, hb, h⟩ := bind_eq_ok h
    by_cases hcomma : s.peekFixed = some .comma
    · rw [accept_of_eq hcomma] at hb
      cases hb
      obtain ⟨x, s₂, -, h⟩ := bind_eq_ok h
      obtain ⟨more, rfl, -⟩ := ih h
      exact ⟨x :: more, by simp, fun hmore => absurd hmore (List.cons_ne_nil _ _)⟩
    · rw [accept_of_ne hcomma] at hb
      cases hb
      cases h
      exact ⟨[], (List.append_nil _).symm, fun _ => rfl⟩

end

/-! ### Expressions -/

/-- The expressions that a parser reads are made. -/
def MakesExpr (named : Prop) (x : Parser Expr) : Prop :=
  ∀ c, Makes named c x fun s e => e.Made c s.supply

theorem keeps_operator? {α : Type} (ops : List (Fixed × α)) : Keeps named (operator? ops) :=
  keeps_peekFixed.keeps_bind fun _ => keeps_pure _

theorem keeps_baseType : Keeps named baseType := by
  refine keeps_peekFixed.keeps_bind fun next => ?_
  split
  · exact keeps_advance.keeps_bind fun _ => keeps_pure _
  · exact fun c => makes_fail _

theorem keeps_startsDeclaration : Keeps named startsDeclaration :=
  keeps_peekFixed.keeps_bind fun _ => keeps_pure _

theorem keeps_startsCast : Keeps named startsCast := keeps_of_looks _

/-- A type that is read is no array. -/
theorem makes_typeName (c : Supply) :
    Makes named c typeName fun s t => s.supply = c ∧ t.length = none :=
  keeps_baseType.bind fun _ => keeps_stars.bind fun _ => makes_pure fun _ hs => ⟨hs, rfl⟩

/-- A type behind which the supply is the same. -/
theorem makes_typeName_bind {β : Type} {c : Supply} {f : Ty → Parser β} {Q : State → β → Prop}
    (h : ∀ t, t.length = none → Makes named c (f t) Q) : Makes named c (typeName >>= f) Q := by
  refine (makes_typeName c).bind ?_
  rintro t s₁ ⟨hs₁, ht⟩
  rw [hs₁]
  exact h t ht

theorem makes_chainFrom {operand : Parser Expr} (h : MakesExpr named operand)
    (ops : List (Fixed × BinaryOp)) (fuel : Nat) {left : Expr} {c₀ c : Supply}
    (hl : left.Made c₀ c) :
    Makes named c (chainFrom operand ops fuel left) fun s e => e.Made c₀ s.supply := by
  induction fuel generalizing left c with
  | zero => exact makes_pure fun s hs => hs ▸ hl
  | succ fuel ih =>
    refine keeps_location.bind fun loc => (keeps_operator? ops).bind fun next => ?_
    split
    · exact makes_pure fun s hs => hs ▸ hl
    · exact keeps_advance.bind fun _ => (h c).bind fun right s₁ hr =>
        makes_make_bind (ih (.binary loc _ hl hr))

theorem makesExpr_chains {operand : Parser Expr} (h : MakesExpr named operand) (fuel : Nat)
    (levels : List (List (Fixed × BinaryOp))) : MakesExpr named (chains fuel operand levels) := by
  induction levels with
  | nil => exact h
  | cons ops tighter ih =>
    exact fun c => (ih c).bind fun left s₁ hl => makes_chainFrom ih ops fuel hl

theorem makesExpr_assignment {target value : Parser Expr} (ht : MakesExpr named target)
    (hv : MakesExpr named value) : MakesExpr named (assignment target value) := by
  intro c
  refine (ht c).bind fun left s₁ hl => keeps_location.bind fun loc =>
    (keeps_operator? assignments).bind fun next => ?_
  split
  · exact makes_pure fun s hs => hs ▸ hl
  · exact keeps_advance.bind fun _ => (hv _).bind fun right s₂ hr =>
      makes_make (.binary loc _ hl hr)

theorem makes_arguments {expr : Parser Expr} (h : MakesExpr named expr) (fuel : Nat) (c : Supply) :
    Makes named c (arguments expr fuel) fun s es => Threaded Expr.Made c s.supply es := by
  refine (keeps_check .rparen).bind fun b => ?_
  split
  · exact makes_pure fun s hs => hs ▸ .nil _
  · refine (h c).bind fun e s₁ he => ?_
    intro s hs hn es s' hes
    obtain ⟨hn', more, rfl, hmore⟩ := makes_separatedFrom_first h fuel he s hs hn es s' hes
    exact ⟨hn', hmore⟩

theorem makesExpr_primary {expr : Parser Expr} (h : MakesExpr named expr) :
    MakesExpr named (primary expr) := by
  intro c
  refine keeps_location.bind fun loc => keeps_peek.bind fun next => ?_
  rcases next with _ | v | v | v | name | symbol
  · exact makes_fail _
  · exact keeps_advance.bind fun _ => makes_make (.int c loc v)
  · exact keeps_advance.bind fun _ => makes_make (.char c loc v)
  · exact keeps_advance.bind fun _ => makes_make (.string c loc v)
  · exact keeps_advance.bind fun _ => makes_make (.name c loc name)
  · -- Of all symbols, only a parenthesis begins an operand.
    cases symbol with
    | lparen =>
      exact keeps_advance.bind fun _ => (h c).bind fun e s₁ he => (keeps_expect _ _).bind
        fun _ => makes_pure fun s hs => hs ▸ he
    | _ => exact makes_fail _

theorem makes_postfixFrom {expr : Parser Expr} (h : MakesExpr named expr) (fuel : Nat) {e : Expr}
    {c₀ c : Supply} (he : e.Made c₀ c) :
    Makes named c (postfixFrom expr fuel e) fun s e => e.Made c₀ s.supply := by
  induction fuel generalizing e c with
  | zero => exact makes_pure fun s hs => hs ▸ he
  | succ fuel ih =>
    refine keeps_location.bind fun loc => keeps_peekFixed.bind fun next => ?_
    split
    · exact keeps_advance.bind fun _ => makes_make_bind (ih (.unary loc .postInc he))
    · exact keeps_advance.bind fun _ => makes_make_bind (ih (.unary loc .postDec he))
    · exact keeps_advance.bind fun _ => (h c).bind fun index s₁ hi => (keeps_expect _ _).bind
        fun _ => makes_make_bind (ih (.subscript loc he hi))
    · refine keeps_advance.bind fun _ => (makes_arguments h fuel c).bind fun args s₁ hargs =>
        (keeps_expect _ _).bind fun _ => ?_
      split
      · -- The name of the function has been made, and its node is given up.
        cases he with
        | name => exact makes_make_bind (ih (.call _ _ hargs))
      · exact makes_failAt loc _
    · exact makes_pure fun s hs => hs ▸ he

theorem makes_sizeofOperand (c : Supply) :
    Makes named c sizeofOperand fun s t => s.supply = c ∧ t.length = none := by
  refine (keeps_expect _ _).bind fun _ => keeps_startsDeclaration.bind fun b => ?_
  split
  · exact makes_typeName_bind fun t ht => (keeps_expect _ _).bind fun _ =>
      makes_pure fun s hs => ⟨hs, ht⟩
  · exact makes_fail _

theorem makesExpr_unary {expr cast : Parser Expr} (he : MakesExpr named expr)
    (hc : MakesExpr named cast) (fuel : Nat) : MakesExpr named (unary expr cast fuel) := by
  intro c
  refine keeps_location.bind fun loc => (keeps_operator? prefixOps).bind fun next => ?_
  split
  · exact keeps_advance.bind fun _ => (hc c).bind fun operand s₁ ho =>
      makes_make (.unary loc _ ho)
  · refine (keeps_accept .plus).bind fun b => ?_
    split
    · exact hc c
    · refine (keeps_accept .kwSizeof).bind fun b => ?_
      split
      · refine (makes_sizeofOperand c).bind ?_
        rintro t s₁ ⟨rfl, ht⟩
        exact makes_make (.sizeof _ loc ht)
      · exact (makesExpr_primary he c).bind fun e s₁ hm => makes_postfixFrom he fuel hm

theorem makesExpr_cast {expr operand : Parser Expr} (he : MakesExpr named expr)
    (ho : MakesExpr named operand) (fuel : Nat) : MakesExpr named (cast expr operand fuel) := by
  intro c
  refine keeps_startsCast.bind fun b => ?_
  split
  · exact keeps_location.bind fun loc => keeps_advance.bind fun _ =>
      makes_typeName_bind fun t ht => (keeps_expect _ _).bind fun _ => (ho c).bind fun e s₁ hm =>
        makes_make (.cast loc ht hm)
  · exact makesExpr_unary he ho fuel c

/-- Expressions and their operands are made, by induction on the bound of the recursion. -/
theorem makesExpr_within (fuel : Nat) :
    MakesExpr named (expressionWithin fuel) ∧ MakesExpr named (castWithin fuel) := by
  induction fuel with
  | zero => exact ⟨fun _ => makes_fail _, fun _ => makes_fail _⟩
  | succ fuel ih =>
    exact ⟨makesExpr_assignment (makesExpr_chains ih.2 fuel binaryLevels) ih.1,
      makesExpr_cast ih.1 ih.2 fuel⟩

/-! ### Declarators -/

/-- The length of an array is a literal, so it fits in 63 bits. -/
theorem makes_arrayLength (c : Supply) :
    Makes named c arrayLength fun s length => s.supply = c ∧ ∀ n ∈ length, n < 2 ^ 63 := by
  refine (keeps_accept .lbracket).bind fun b => ?_
  split
  · refine keeps_peek.bind fun next => ?_
    split
    · next v =>
      split
      · exact makes_fail _
      · refine keeps_advance.bind fun _ => (keeps_expect _ _).bind fun _ =>
          (keeps_check .lbracket).bind fun b => ?_
        split
        · exact makes_fail _
        · refine makes_pure fun s hs => ⟨hs, fun n hn => ?_⟩
          cases hn
          have hv := Int64.toInt_lt v
          omega
    · exact makes_fail _
  · exact makes_pure fun s hs => ⟨hs, fun n hn => nomatch hn⟩

section

variable {expr : Parser Expr} (he : MakesExpr named expr)

include he

theorem makes_initializer (c : Supply) :
    Makes named c (initializer expr) fun s init => Possibly Expr.Made c s.supply init := by
  refine (keeps_accept .eq).bind fun b => ?_
  split
  · exact (he c).bind fun e s₁ hm => makes_pure fun s hs => hs ▸ .some hm
  · exact makes_pure fun s hs => hs ▸ .none _

theorem makes_declaratorRest (isGlobal : Bool) (base : BaseType) (pointers : Nat) (name : String)
    (loc : Location) (c : Supply) :
    Makes named c (declaratorRest expr isGlobal ⟨base, pointers, none⟩ name loc) fun s v =>
      v.Made isGlobal base c s.supply := by
  refine (makes_arrayLength c).bind ?_
  rintro length s₁ ⟨rfl, hlength⟩
  dsimp only
  split
  · exact makes_failAt loc _
  · next hvoid =>
    refine (makes_initializer he _).bind fun init s₂ hinit => makes_declare_bind ?_
    exact makes_pure fun s hs => hs ▸ .mk pointers name loc hlength (by simpa using hvoid) hinit

theorem makes_declarator (isGlobal : Bool) (base : BaseType) (c : Supply) :
    Makes named c (declarator expr isGlobal base) fun s v => v.Made isGlobal base c s.supply :=
  keeps_stars.bind fun pointers => keeps_identifier.bind fun r =>
    makes_declaratorRest he isGlobal base pointers r.1 r.2 c

/-- The declarators of a declaration are made one after the other. -/
theorem makes_declaratorsFrom {isGlobal : Bool} {base : BaseType} (fuel : Nat) {v : Variable}
    {c c₁ : Supply} (hv : v.Made isGlobal base c c₁) :
    Makes named c₁ (declaratorsFrom expr isGlobal base fuel [v]) fun s vs =>
      ∃ more, vs = v :: more ∧ Threaded (Variable.Made isGlobal base) c s.supply (v :: more) :=
  makes_separatedFrom_first (makes_declarator he isGlobal base) fuel hv

/-! ### Statements -/

theorem makes_localDeclaration (fuel : Nat) (c : Supply) :
    Makes named c (localDeclaration expr fuel) fun s st => st.Made c s.supply ∧
      st.isClause = true ∧ st.isOpen = false := by
  refine keeps_location.bind fun loc => (keeps_accept _).bind fun _ =>
    keeps_baseType.bind fun base => (makes_declarator he false base c).bind fun v s₁ hv =>
      (makes_declaratorsFrom he fuel hv).bind ?_
  rintro vs s₂ ⟨more, rfl, hvs⟩
  exact (keeps_expect _ _).bind fun _ => makes_pure fun s hs => hs ▸ ⟨.declare loc hvs, rfl, rfl⟩

theorem makes_expressionUnless (f : Fixed) (c : Supply) :
    Makes named c (expressionUnless expr f) fun s e => Possibly Expr.Made c s.supply e := by
  refine (keeps_check f).bind fun b => ?_
  split
  · exact makes_pure fun s hs => hs ▸ .none _
  · exact (he c).bind fun e s₁ hm => makes_pure fun s hs => hs ▸ .some hm

theorem makes_forInit (fuel : Nat) (c : Supply) :
    Makes named c (forInit expr fuel) fun s i => Possibly Stmt.Made c s.supply i ∧
      ∀ st ∈ i, st.isClause = true := by
  refine (keeps_accept _).bind fun b => ?_
  split
  · exact makes_pure fun s hs => hs ▸ ⟨.none _, fun st hst => absurd hst (by simp)⟩
  · refine keeps_startsDeclaration.bind fun b => ?_
    split
    · refine (makes_localDeclaration he fuel c).bind ?_
      rintro st s₁ ⟨hst, hclause, -⟩
      exact makes_pure fun s hs => hs ▸ ⟨.some hst, fun st' h => Option.some.inj h ▸ hclause⟩
    · exact keeps_location.bind fun loc => (he c).bind fun e s₁ hm => (keeps_expect _ _).bind
        fun _ => makes_pure fun s hs =>
          hs ▸ ⟨.some (.eval loc hm), fun st' h => Option.some.inj h ▸ rfl⟩

omit he in
/-- The statements that a parser reads are made, and one that an `else` would join is not followed
by an `else`. -/
def MakesStmt (named : Prop) (x : Parser Stmt) : Prop :=
  ∀ c, Makes named c x fun s st => st.Made c s.supply ∧
    (st.isOpen = true → s.peekFixed ≠ some .kwElse)

omit he in
/-- A statement that no `else` would join may be followed by anything. -/
theorem makes_pure_stmt {c₀ c : Supply} {st : Stmt} (h : st.Made c₀ c) (ho : st.isOpen = false) :
    Makes named c (pure st : Parser Stmt) fun s st =>
      st.Made c₀ s.supply ∧ (st.isOpen = true → s.peekFixed ≠ some .kwElse) :=
  makes_pure fun _ hs => hs ▸ ⟨h, fun h => absurd (ho.symm.trans h) Bool.false_ne_true⟩

variable {stmt : Parser Stmt} (hstmt : MakesStmt named stmt)

omit he in
include hstmt in
theorem makes_statementsFrom (fuel : Nat) {seen : List Stmt} {c₀ c : Supply}
    (hseen : Threaded Stmt.Made c₀ c seen.reverse) :
    Makes named c (statementsFrom stmt fuel seen) fun s ss =>
      Threaded Stmt.Made c₀ s.supply ss := by
  induction fuel generalizing seen c with
  | zero => exact makes_pure fun s hs => hs ▸ hseen
  | succ fuel ih =>
    refine keeps_peek.bind fun next => ?_
    split
    · exact makes_pure fun s hs => hs ▸ hseen
    · exact makes_pure fun s hs => hs ▸ hseen
    · refine (hstmt c).bind fun st s₁ hst => ih ?_
      rw [List.reverse_cons]
      exact hseen.append (.cons hst.1 (.nil _))

include hstmt

theorem makes_branchRest (loc : Location) (c : Supply) :
    Makes named c (branchRest expr stmt loc) fun s st => st.Made c s.supply ∧
      (st.isOpen = true → s.peekFixed ≠ some .kwElse) := by
  refine (keeps_expect _ _).bind fun _ => (he c).bind fun e s₁ hm => (keeps_expect _ _).bind
    fun _ => ?_
  intro s hs hn st s' h
  obtain ⟨t, s₂, ht, h⟩ := bind_eq_ok h
  obtain ⟨hn₂, htm, hopen⟩ := hstmt _ s hs hn t s₂ ht
  obtain ⟨b, s₃, hb, h⟩ := bind_eq_ok h
  by_cases helse : s₂.peekFixed = some .kwElse
  · -- The `else` that follows is taken, so the first branch was not open.
    rw [accept_of_eq helse] at hb
    cases hb
    obtain ⟨f, s₄, hf, h⟩ := bind_eq_ok h
    obtain ⟨hn₄, hfm, hfopen⟩ := hstmt _ _ rfl (fun h => (hn₂ h).advance) f s₄ hf
    cases h
    exact ⟨hn₄, .branch loc hm htm (.some hfm) fun ho => absurd helse (hopen ho), hfopen⟩
  · rw [accept_of_ne helse] at hb
    cases hb
    cases h
    exact ⟨hn₂, .branch loc hm htm (.none _) fun _ => rfl, fun _ => helse⟩

theorem makes_whileRest (loc : Location) (c : Supply) :
    Makes named c (whileRest expr stmt loc) fun s st => st.Made c s.supply ∧
      (st.isOpen = true → s.peekFixed ≠ some .kwElse) := by
  refine (keeps_expect _ _).bind fun _ => (he c).bind fun e s₁ hm => (keeps_expect _ _).bind
    fun _ s hs hn st s' h => ?_
  obtain ⟨b, s₂, hb, h⟩ := bind_eq_ok h
  obtain ⟨hn₂, hbm, hopen⟩ := hstmt _ s hs hn b s₂ hb
  cases h
  exact ⟨hn₂, .whileLoop loc hm hbm, hopen⟩

theorem makes_doRest (loc : Location) (c : Supply) :
    Makes named c (doRest expr stmt loc) fun s st => st.Made c s.supply ∧
      (st.isOpen = true → s.peekFixed ≠ some .kwElse) :=
  (hstmt c).bind fun _ _ hb => (keeps_expect _ _).bind fun _ => (keeps_expect _ _).bind fun _ =>
    (he _).bind fun _ _ hm => (keeps_expect _ _).bind fun _ => (keeps_expect _ _).bind fun _ =>
      makes_pure_stmt (.doLoop loc hb.1 hm) rfl

theorem makes_forRest (fuel : Nat) (loc : Location) (c : Supply) :
    Makes named c (forRest expr stmt fuel loc) fun s st => st.Made c s.supply ∧
      (st.isOpen = true → s.peekFixed ≠ some .kwElse) := by
  refine (keeps_expect _ _).bind fun _ => (makes_forInit he fuel c).bind fun i s₁ hi =>
    (makes_expressionUnless he _ _).bind fun e s₂ hm => (keeps_expect _ _).bind fun _ =>
      (makes_expressionUnless he _ _).bind fun e' s₃ hm' => (keeps_expect _ _).bind
        fun _ s hs hn st s' h => ?_
  obtain ⟨b, s₄, hb, h⟩ := bind_eq_ok h
  obtain ⟨hn₄, hbm, hopen⟩ := hstmt _ s hs hn b s₄ hb
  cases h
  exact ⟨hn₄, .forLoop loc hi.1 hi.2 hm hm' hbm, hopen⟩

theorem makesStmt_statementOf (fuel : Nat) : MakesStmt named (statementOf expr stmt fuel) := by
  intro c
  refine keeps_location.bind fun loc => keeps_peekFixed.bind fun next => ?_
  split
  · exact keeps_advance.bind fun _ => (makes_expressionUnless he _ c).bind fun e s₁ hm =>
      (keeps_expect _ _).bind fun _ => makes_pure_stmt (.ret loc hm) rfl
  · exact keeps_advance.bind fun _ => makes_branchRest he hstmt loc c
  · exact keeps_advance.bind fun _ => makes_whileRest he hstmt loc c
  · exact keeps_advance.bind fun _ => makes_doRest he hstmt loc c
  · exact keeps_advance.bind fun _ => makes_forRest he hstmt fuel loc c
  · exact keeps_advance.bind fun _ => (keeps_expect _ _).bind fun _ =>
      makes_pure_stmt (.leave c loc) rfl
  · exact keeps_advance.bind fun _ => (keeps_expect _ _).bind fun _ =>
      makes_pure_stmt (.next c loc) rfl
  · exact keeps_advance.bind fun _ => (makes_statementsFrom hstmt fuel (.nil c)).bind
      fun ss s₁ hss => (keeps_expect _ _).bind fun _ => makes_pure_stmt (.block loc hss) rfl
  · exact keeps_advance.bind fun _ => makes_pure_stmt (.empty c loc) rfl
  · refine keeps_startsDeclaration.bind fun b => ?_
    split
    · intro s hs hn st s' h
      obtain ⟨hn', hst, -, ho⟩ := makes_localDeclaration he fuel c s hs hn st s' h
      exact ⟨hn', hst, fun h => absurd (ho.symm.trans h) Bool.false_ne_true⟩
    · exact (he c).bind fun e s₁ hm => (keeps_expect _ _).bind fun _ =>
        makes_pure_stmt (.eval loc hm) rfl

omit hstmt in
/-- Statements are made, by induction on the bound of the recursion. -/
theorem makesStmt_within (fuel : Nat) : MakesStmt named (statementWithin expr fuel) := by
  induction fuel with
  | zero => exact fun _ => makes_fail _
  | succ fuel ih => exact makesStmt_statementOf he ih fuel

end

/-! ### Parameters -/

theorem keeps_optionalName : Keeps named optionalName := by
  refine keeps_peek.keeps_bind fun next => ?_
  split
  · exact keeps_advance.keeps_bind fun _ => keeps_pure _
  · exact keeps_pure _

theorem keeps_parameterBrackets : Keeps named parameterBrackets := by
  refine (keeps_accept _).keeps_bind fun b => ?_
  split
  · refine keeps_peek.keeps_bind fun next => ?_
    split
    · exact keeps_advance.keeps_bind fun _ => (keeps_expect _ _).keeps_bind fun _ => keeps_pure _
    · exact (keeps_pure ()).keeps_bind fun _ => (keeps_expect _ _).keeps_bind fun _ =>
        keeps_pure _
  · exact keeps_pure _

theorem makes_parameter (c : Supply) :
    Makes named c parameter fun s q => q.Made c s.supply := by
  refine makes_typeName_bind fun t ht => keeps_optionalName.bind fun name =>
    keeps_parameterBrackets.bind fun isArray => makes_declare_bind ?_
  obtain ⟨base, pointers, length⟩ := t
  cases ht
  cases isArray with
  | true => exact makes_pure fun s hs => hs ▸ .mk c base (pointers + 1) name
  | false => exact makes_pure fun s hs => hs ▸ .mk c base pointers name

/-- A parameter without a name has no identifier behind its type. -/
theorem eq_of_optionalName {s s' : State} (hn : s.HasNames)
    (h : optionalName s = .ok ("", s')) : s' = s := by
  obtain ⟨rest, finish, next, ds⟩ := s
  rcases rest with _ | ⟨⟨kind, loc⟩, rest⟩
  · cases h
    rfl
  · cases kind with
    | ident name =>
      -- The identifier would have given its name, which is not empty.
      cases h
      exact absurd rfl (hn ⟨.ident "", loc⟩ List.mem_cons_self)
    | _ =>
      cases h
      rfl

/-- Where brackets do not follow, no token is taken. -/
theorem eq_of_parameterBrackets {s s' : State} (h : parameterBrackets s = .ok (false, s')) :
    s' = s := by
  obtain ⟨b, s₁, hb, h⟩ := bind_eq_ok h
  by_cases hbracket : s.peekFixed = some .lbracket
  · rw [accept_of_eq hbracket] at hb
    cases hb
    obtain ⟨next, s₂, -, h⟩ := bind_eq_ok h
    -- The brackets that follow are taken, and the answer is another one.
    split at h
    · obtain ⟨u, s₃, -, h⟩ := bind_eq_ok h
      obtain ⟨u, s₄, -, h⟩ := bind_eq_ok h
      cases h
    · obtain ⟨u, s₃, -, h⟩ := bind_eq_ok h
      cases h
  · rw [accept_of_ne hbracket] at hb
    cases hb
    cases h
    rfl

theorem baseType?_eq_void {next : Option Fixed} (h : baseType? next = some .void) :
    next = some .kwVoid := by
  unfold baseType? at h
  split at h <;> first | rfl | cases h

/-- The type `void` takes one token: no star follows. -/
theorem rest_of_typeName_void {s s' : State} (h : typeName s = .ok (.void, s')) :
    s.peekFixed = some .kwVoid ∧ s'.rest = s.advance.rest := by
  obtain ⟨base, s₁, hbase, h⟩ := bind_eq_ok h
  obtain ⟨next, s₂, hnext, hbase⟩ := bind_eq_ok hbase
  cases hnext
  have hvoid : (⟨base, (s₁.rest.takeWhile fun t => t.kind == .fixed .star).length, none⟩ : Ty) =
      .void := congrArg Prod.fst (Except.ok.inj h)
  have hrest : (s₁.rest.dropWhile fun t => t.kind == .fixed .star) = s'.rest :=
    congrArg (fun r : Ty × State => r.2.rest) (Except.ok.inj h)
  obtain ⟨rfl, hstars⟩ : base = .void ∧
      (s₁.rest.takeWhile fun t => t.kind == .fixed .star).length = 0 := by
    simpa [Ty.void, Ty.ofBase] using hvoid
  have hsplit := List.takeWhile_append_dropWhile (p := fun t => t.kind == .fixed .star)
    (l := s₁.rest)
  rw [List.length_eq_zero_iff.1 hstars, List.nil_append, hrest] at hsplit
  cases hpeek : baseType? s.peekFixed with
  | none =>
    rw [hpeek] at hbase
    cases hbase
  | some b =>
    rw [hpeek] at hbase
    cases hbase
    exact ⟨baseType?_eq_void hpeek, hsplit⟩

/-- A parameter that is `void` alone takes this one token. -/
theorem rest_of_isBareVoid {s s' : State} {q : Parameter} (hn : s.HasNames)
    (h : parameter s = .ok (q, s')) (hq : q.isBareVoid = true) :
    s.peekFixed = some .kwVoid ∧ s'.rest = s.advance.rest := by
  obtain ⟨t, s₁, ht, h⟩ := bind_eq_ok h
  obtain ⟨name, s₂, hname, h⟩ := bind_eq_ok h
  obtain ⟨isArray, s₃, harray, h⟩ := bind_eq_ok h
  obtain ⟨id, s₄, hid, h⟩ := bind_eq_ok h
  cases hid
  cases h
  obtain ⟨htype, hempty⟩ := Bool.and_eq_true_iff.1 hq
  obtain rfl : name = "" := eq_of_beq hempty
  have hmakes : Makes True s.supply typeName _ := makes_typeName s.supply
  have hn₁ : s₁.HasNames := (hmakes s rfl (fun _ => hn) t s₁ ht).1 trivial
  cases isArray with
  | true => cases congrArg Ty.pointers (eq_of_beq htype)
  | false =>
    obtain rfl : t = .void := eq_of_beq htype
    obtain ⟨hkeyword, hrest⟩ := rest_of_typeName_void ht
    rw [eq_of_parameterBrackets harray, eq_of_optionalName hn₁ hname]
    exact ⟨hkeyword, hrest⟩

/-- The parameters that are read are made, and a closing parenthesis does not follow on a single
`void`. -/
theorem makes_parameters (fuel : Nat) (c : Supply) :
    Makes named c (parameters fuel) fun s qs => Threaded Parameter.Made c s.supply qs ∧
      (s.peekFixed = some .rparen → named → Parameter.notBareVoid qs) := by
  have hnone : Parameter.notBareVoid [] := fun q h => nomatch h
  refine (keeps_check _).bind fun b => ?_
  split
  · exact makes_pure fun s hs => hs ▸ ⟨.nil _, fun _ _ => hnone⟩
  · intro s hs hn qs s' h
    obtain ⟨b, s₁, hb, h⟩ := bind_eq_ok h
    cases hb
    split at h
    · cases h
      exact ⟨fun h => (hn h).advance, hs ▸ .nil _, fun _ _ => hnone⟩
    · next hvoid =>
      obtain ⟨q, s₂, hq, h⟩ := bind_eq_ok h
      obtain ⟨hn₂, hmade⟩ := makes_parameter c s hs hn q s₂ hq
      obtain ⟨hn', more, rfl, hmore⟩ := makes_separatedFrom_first makes_parameter fuel hmade
        s₂ rfl hn₂ qs s' h
      refine ⟨hn', hmore, fun hparen hnamed q' hq' => Bool.eq_false_iff.2 fun hbare => ?_⟩
      cases hq'
      -- The list has one parameter, so the state behind it is the state behind the list.
      obtain ⟨more, hlist, hstate⟩ := exists_of_separatedFrom h
      obtain rfl := hstate (List.cons.inj hlist).2.symm
      obtain ⟨hkw, hrest⟩ := rest_of_isBareVoid (hn hnamed) hq hbare
      have hnext : s.advance.peekFixed = some .rparen := by
        rw [← hparen]
        unfold State.peekFixed
        rw [hrest]
      exact hvoid (by simp [State.startsWith, hkw, hnext])

/-! ### Programs -/

section

variable {expr : Parser Expr} (he : MakesExpr named expr) {stmt : Parser Stmt}
  (hstmt : MakesStmt named stmt)

include hstmt

/-- What stands behind the parameters of a function is the block of a definition, or nothing. -/
theorem makes_functionBody (fuel : Nat) (c : Supply) :
    Makes named c (functionBody stmt fuel) fun s body => (body = none ∧ s.supply = c) ∨
      ∃ loc ss, body = some (.block loc ss) ∧ Threaded Stmt.Made c s.supply ss := by
  refine (keeps_accept _).bind fun b => ?_
  split
  · exact makes_pure fun s hs => .inl ⟨rfl, hs⟩
  · refine keeps_location.bind fun loc => (keeps_accept _).bind fun b => ?_
    split
    · exact (makes_statementsFrom hstmt fuel (.nil c)).bind fun ss s₁ hss =>
        (keeps_expect _ _).bind fun _ => makes_pure fun s hs => .inr ⟨loc, ss, rfl, hs ▸ hss⟩
    · exact makes_fail _

theorem makes_functionRest (fuel : Nat) (base : BaseType) (pointers : Nat) (name : String)
    (loc : Location) (c : Supply) :
    Makes named c (functionRest stmt fuel ⟨base, pointers, none⟩ name loc) fun s f =>
      f.Made named c s.supply := by
  refine (keeps_expect _ _).bind fun _ s hs hn f s' h => ?_
  obtain ⟨qs, s₁, hqs, h⟩ := bind_eq_ok h
  obtain ⟨hn₁, hmade, hbare⟩ := makes_parameters fuel c s hs hn qs s₁ hqs
  obtain ⟨u, s₂, hparen, h⟩ := bind_eq_ok h
  by_cases hnext : s₁.peekFixed = some .rparen
  · rw [expect_of_eq _ hnext] at hparen
    cases hparen
    obtain ⟨body, s₃, hbody, h⟩ := bind_eq_ok h
    cases h
    obtain ⟨hn', ⟨rfl, hs'⟩ | ⟨bodyLoc, ss, rfl, hss⟩⟩ :=
      makes_functionBody hstmt fuel _ s₁.advance rfl (fun h => (hn₁ h).advance) body _ hbody
    · rw [hs']
      exact ⟨hn', .prototype name base pointers loc hmade (hbare hnext)⟩
    · exact ⟨hn', .definition name base pointers loc bodyLoc hmade (hbare hnext) hss⟩
  · simp [expect, State.startsWith, hnext] at hparen

include he

theorem makes_topLevel (fuel : Nat) (c : Supply) :
    Makes named c (topLevel expr stmt fuel) fun s r => r.Made named c s.supply := by
  refine (keeps_accept _).bind fun _ => keeps_baseType.bind fun base =>
    keeps_stars.bind fun pointers => keeps_identifier.bind fun r => (keeps_check _).bind fun b => ?_
  split
  · exact (makes_functionRest hstmt fuel base pointers r.1 r.2 c).bind fun f s₁ hf =>
      makes_pure fun s hs => hs ▸ .function hf
  · refine (makes_declaratorRest he true base pointers r.1 r.2 c).bind fun v s₁ hv =>
      (makes_declaratorsFrom he fuel hv).bind ?_
    rintro vs s₂ ⟨more, rfl, hvs⟩
    exact (keeps_expect _ _).bind fun _ => makes_pure fun s hs => hs ▸ .globals hvs

end

/-- The declarations of a program are made one after the other; their variables and their functions
come behind those that have been read before. -/
theorem makes_topLevelsFrom {one : Parser TopLevel}
    (hone : ∀ c, Makes named c one fun s r => r.Made named c s.supply) (fuel : Nat)
    (globals : List Variable) (functions : List Function) (c : Supply) :
    Makes named c (topLevelsFrom one fuel globals functions) fun s r =>
      ∃ items, Threaded (TopLevel.Made named) c s.supply items ∧
        r.1 = globals.reverse ++ items.flatMap TopLevel.vars ∧
        r.2 = functions.reverse ++ items.flatMap TopLevel.functions := by
  induction fuel generalizing globals functions c with
  | zero => exact makes_pure fun s hs => ⟨[], hs ▸ .nil _, by simp, by simp⟩
  | succ fuel ih =>
    refine keeps_peek.bind fun next => ?_
    split
    · exact makes_pure fun s hs => ⟨[], hs ▸ .nil _, by simp, by simp⟩
    · refine (hone c).bind fun r s₁ hr => ?_
      split
      · next vs =>
        intro s hs hn r' s' h
        obtain ⟨hn', items, hitems, hg, hf⟩ := ih _ _ _ s hs hn r' s' h
        exact ⟨hn', .globals vs :: items, .cons hr hitems, by simp [hg, TopLevel.vars],
          by simp [hf, TopLevel.functions]⟩
      · next f =>
        intro s hs hn r' s' h
        obtain ⟨hn', items, hitems, hg, hf⟩ := ih _ _ _ s hs hn r' s' h
        exact ⟨hn', .function f :: items, .cons hr hitems, by simp [hg, TopLevel.vars],
          by simp [hf, TopLevel.functions]⟩

end Grammar

namespace Program

/-- A program that tokens form is made. -/
theorem made_ofTokens {named : Prop} {ts : Tokens}
    (hn : named → ∀ t ∈ ts.list, t.kind ≠ .ident "") {p : Program} (h : ofTokens ts = .ok p) :
    p.Made named := by
  unfold ofTokens at h
  split at h
  · next globals functions s hs =>
    cases h
    obtain ⟨he, -⟩ := Grammar.makesExpr_within (Grammar.depthBound ts.list.length)
    have hone := Grammar.makes_topLevel he
      (Grammar.makesStmt_within he (Grammar.depthBound ts.list.length))
      (Grammar.depthBound ts.list.length)
    obtain ⟨-, items, hitems, hg, hf⟩ :=
      Grammar.makes_topLevelsFrom hone _ [] [] .start (.ofTokens ts) rfl hn _ _ hs
    exact ⟨items, s.nextNode, hitems, hg, hf⟩
  · cases h

/-- A program that a text says is made, and its identifiers have names. -/
theorem made_of_read {source : String} {p : Program} (h : (read source).result = .ok p) :
    p.Made True := by
  unfold read at h
  split at h
  · cases h
  · next ts hts =>
    have hn := Tokens.forall_kind_ne_of_ofText hts
    split at h
    · cases h
    · next hp =>
      cases h
      exact made_ofTokens (fun _ => hn) hp

end Program

end MiniC
