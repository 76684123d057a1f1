import MiniC.Proofs.Reading

/-!
# Levels of operators

What a parser of some level does depends on the token behind its tokens: it goes on as long as it
finds an operator of its own level or of a tighter one.  So the tokens of an operand are read in two
ways.  Before an operator of the same level the parser is still in its loop, with the operand as
what it has read so far; before anything that binds less tightly it is done.  The first way is what
an induction needs for operators that group to the left and for those behind an operand, and the
second way follows from it.

Main definitions:

* `MiniC.Fixed.infixLevel?`, `MiniC.Stops`: the level at which a token goes on with an operand, and
  the tokens that end one;
* `MiniC.Grammar.levelWithin`: the parser of one level of binary operators;
* `MiniC.ReadsLevel`, `MiniC.ReadsChain`: the two ways in which an operand is read;
* `MiniC.ReadsAs`: the parsers of all levels up to a given one read some tokens as an expression.

Main results:

* `MiniC.ReadsLevel.of_le`: what is read at some level is read at all looser ones;
* `MiniC.ReadsAs.of_chain`, `MiniC.ReadsAs.of_operand`, `MiniC.ReadsAs.of_postfixed`: what an
  expression is read as, by the tightest level at which it is.
-/

set_option autoImplicit false

namespace MiniC

open MiniC.Grammar MiniC.Parser

/-! ### Tokens behind an operand -/

/-- The level at which a token behind an operand goes on with it. -/
def Fixed.infixLevel? : Fixed → Option Nat
  | .eq | .plusEq | .minusEq | .starEq | .slashEq | .percentEq => some 0
  | .orOr => some 1
  | .andAnd => some 2
  | .pipe => some 3
  | .caret => some 4
  | .amp => some 5
  | .eqEq | .notEq => some 6
  | .lt | .le | .gt | .ge => some 7
  | .ltLt | .gtGt => some 8
  | .plus | .minus => some 9
  | .star | .slash | .percent => some 10
  | .plusPlus | .minusMinus | .lbracket | .lparen => some 12
  | _ => none

/-- The tokens do not go on with an operand of the level `k` or a tighter one. -/
def Stops (k : Nat) (rest : List Token.Kind) : Prop :=
  ∀ f, headFixed rest = some f → ∀ j, f.infixLevel? = some j → j < k

variable {ks ks' rest : List Token.Kind} {e l r x : Expr}

theorem Stops.mono {j k : Nat} (h : Stops j rest) (hjk : j ≤ k) : Stops k rest :=
  fun f hf i hi => Nat.lt_of_lt_of_le (h f hf i hi) hjk

/-- A token that never goes on with an operand ends all operands. -/
theorem stops_of_infixLevel_eq_none {f : Fixed} (h : f.infixLevel? = none) (k : Nat) :
    Stops k (.fixed f :: rest) := by
  intro g hg j hj
  cases hg
  rw [h] at hj
  cases hj

/-- An operator ends the operands of tighter levels. -/
theorem stops_of_infixLevel {f : Fixed} {j k : Nat} (h : f.infixLevel? = some j) (hjk : j < k) :
    Stops k (.fixed f :: rest) := by
  intro g hg i hi
  cases hg
  cases h.symm.trans hi
  exact hjk

theorem infixLevel?_token (op : BinaryOp) : op.token.infixLevel? = some op.level := by
  cases op <;> rfl

/-! ### The tables of the grammar -/

/-- The operators of one level; the loosest level is 0 here, since assignments are not counted. -/
def Grammar.levelOps (i : Nat) : List (Fixed × BinaryOp) := binaryLevels.getD i []

theorem infixLevel?_levelOps : ∀ i < 10, ∀ p ∈ levelOps i, p.1.infixLevel? = some (i + 1) := by
  decide

theorem infixLevel?_assignments : ∀ p ∈ assignments, p.1.infixLevel? = some 0 := by decide

theorem drop_binaryLevels :
    ∀ i < 10, binaryLevels.drop i = levelOps i :: binaryLevels.drop (i + 1) := by
  decide

/-- An operator stands in the table of its level. -/
theorem lookup_levelOps {op : BinaryOp} {i : Nat} (h : op.level = i + 1) :
    List.lookup op.token (levelOps i) = some op := by
  cases op <;> cases h <;> rfl

theorem lookup_assignments {op : BinaryOp} (h : op.isAssignment = true) :
    List.lookup op.token assignments = some op := by
  cases op <;> first | rfl | cases h

theorem lookup_prefixOps {op : UnaryOp} (h : op.isPostfix = false) :
    List.lookup op.token prefixOps = some op := by
  cases op <;> first | rfl | cases h

/-- Where an operand of some level ends, there is no operator of that level or a tighter one. -/
theorem Stops.lookup_eq_none {j k : Nat} {ops : List (Fixed × BinaryOp)} (hs : Stops k rest)
    (hops : ∀ p ∈ ops, p.1.infixLevel? = some j) (hjk : k ≤ j) :
    ((headFixed rest).bind fun f => List.lookup f ops) = none := by
  cases hhead : headFixed rest with
  | none => rfl
  | some f =>
    refine List.lookup_eq_none_iff.2 fun p hp => bne_iff_ne.2 fun heq => ?_
    have hlt := hs f hhead j (heq ▸ hops p hp)
    omega

theorem reads_operator? {α : Type} (ops : List (Fixed × α)) :
    Reads (operator? ops) [] rest (· = (headFixed rest).bind fun f => List.lookup f ops) :=
  (reads_peekFixed.bind_nil fun next hnext => reads_pure (by rw [hnext]; rfl))

/-! ### Types -/

theorem reads_startsCast : Reads startsCast [] rest
    (· = (headFixed rest == some .lparen && (baseType? (headFixed rest.tail)).isSome)) :=
  reads_of_looks
    (fun ks => headFixed ks == some .lparen && (baseType? (headFixed ks.tail)).isSome)
    fun s => by
      rw [← s.kinds_advance, ← s.peekFixed_eq, ← s.advance.peekFixed_eq]
      rfl

theorem reads_startsDeclaration : Reads startsDeclaration [] rest
    (· = ((baseType? (headFixed rest)).isSome || headFixed rest == some .kwExtern)) :=
  reads_peekFixed.bind_nil fun next hnext => reads_pure (by rw [hnext]; rfl)

theorem baseType?_keyword (base : BaseType) : baseType? (some base.keyword) = some base := by
  cases base <;> rfl

theorem reads_baseType (base : BaseType) :
    Reads baseType [.fixed base.keyword] rest (· = base) := by
  refine reads_peekFixed.bind_nil fun next hnext => ?_
  rw [hnext, List.singleton_append, headFixed_cons, baseType?_keyword]
  exact (reads_advance _).bind_end fun _ _ => reads_pure rfl

/-- A type is read with all its stars. -/
theorem reads_typeName {t : Ty} (ht : t.length = none) (h : headFixed rest ≠ some .star) :
    Reads typeName t.tokens rest (· = t) := by
  refine (reads_baseType t.base).bind_cons fun base hbase =>
    (reads_stars t.pointers h).bind_end fun pointers hpointers => reads_pure ?_
  rw [hbase, hpointers, ← ht]

/-! ### Levels -/

/-- The parser of one level of binary operators and of all tighter ones. -/
def Grammar.levelWithin (fuel i : Nat) : Parser Expr :=
  chains fuel (castWithin fuel) (binaryLevels.drop i)

theorem levelWithin_of_lt (fuel : Nat) {i : Nat} (hi : i < 10) :
    levelWithin fuel i = (do
      let left ← levelWithin fuel (i + 1)
      chainFrom (levelWithin fuel (i + 1)) (levelOps i) fuel left) := by
  rw [levelWithin, drop_binaryLevels i hi]
  rfl

theorem chainFrom_of_lookup {operand : Parser Expr} {ops : List (Fixed × BinaryOp)} (fuel : Nat)
    {s : State} (h : ((headFixed s.kinds).bind fun f => List.lookup f ops) = none) (e : Expr) :
    chainFrom operand ops fuel e s = .ok (e, s) := by
  cases fuel with
  | zero => rfl
  | succ fuel =>
    have hop : operator? ops s = .ok (none, s) := by
      rw [← h, ← s.peekFixed_eq]
      rfl
    rw [chainFrom, bind_of_ok (a := s.location) rfl, bind_of_ok hop]
    rfl

/-! ### What is read as an expression -/

/-- The tokens begin as an expression does. -/
def StartsExpression : List Token.Kind → Prop
  | [] => False
  | .fixed f :: _ => f = .lparen ∨ f = .kwSizeof ∨ (List.lookup f prefixOps).isSome = true
  | _ :: _ => True

theorem StartsExpression.append (h : StartsExpression ks) : StartsExpression (ks ++ ks') := by
  cases ks with
  | nil => exact h.elim
  | cons k more => cases k <;> exact h

theorem StartsExpression.length_pos (h : StartsExpression ks) : 0 < ks.length := by
  cases ks with
  | nil => exact h.elim
  | cons k more => exact Nat.succ_pos _

/-- Keywords and punctuation marks do not begin an expression. -/
theorem StartsExpression.headFixed_ne {f : Fixed} (h : StartsExpression ks)
    (hf : f ≠ .lparen ∧ f ≠ .kwSizeof ∧ List.lookup f prefixOps = none) :
    headFixed ks ≠ some f := by
  intro hhead
  obtain ⟨more, rfl⟩ := exists_eq_of_headFixed hhead
  rcases h with h | h | h
  · exact hf.1 h
  · exact hf.2.1 h
  · rw [hf.2.2] at h
    cases h

/-- Nor do the keywords of types. -/
theorem StartsExpression.baseType?_eq_none (h : StartsExpression ks) :
    baseType? (headFixed ks) = none := by
  cases hhead : headFixed ks with
  | none => rfl
  | some f =>
    obtain ⟨more, rfl⟩ := exists_eq_of_headFixed hhead
    rcases h with rfl | rfl | h
    · rfl
    · rfl
    · cases f <;> first | rfl | cases h

/-- The parser reads the tokens as the expression, up to numbers and locations. -/
def ReadsExpr (p : Parser Expr) (ks rest : List Token.Kind) (e : Expr) : Prop :=
  Reads p ks rest fun e' => e'.unplaced = e.unplaced

/-- Behind the tokens, the parser is in its loop, with the expression as what it has read so far.
The loop may be taken at least `fuel` times, less the number of the tokens. -/
def Leads (p : Parser Expr) (loop : Nat → Expr → Parser Expr) (fuel : Nat)
    (ks rest : List Token.Kind) (e : Expr) : Prop :=
  ∀ s, s.kinds = ks ++ rest → ∃ e' s' n, p s = loop n e' s' ∧
    s'.rest = s.rest.drop ks.length ∧ e'.unplaced = e.unplaced ∧ fuel ≤ n + ks.length

/-- The tokens are read as a whole expression. -/
def ReadsExpression (ks : List Token.Kind) (e : Expr) : Prop :=
  ∀ fuel rest, 2 * ks.length ≤ fuel → Stops 0 rest → ReadsExpr (expressionWithin fuel) ks rest e

/-- The tokens are read as an operand of a looser operator. -/
def ReadsLevel (i : Nat) (ks : List Token.Kind) (e : Expr) : Prop :=
  ∀ fuel rest, 2 * ks.length ≤ fuel + 1 → Stops (i + 1) rest →
    ReadsExpr (levelWithin fuel i) ks rest e

/-- The tokens are read as what stands to the left of an operator of this level. -/
def ReadsChain (i : Nat) (ks : List Token.Kind) (e : Expr) : Prop :=
  ∀ fuel rest, 2 * ks.length ≤ fuel + 1 → Stops (i + 2) rest →
    Leads (levelWithin fuel i) (chainFrom (levelWithin fuel (i + 1)) (levelOps i)) fuel ks rest e

/-- The tokens are read as what stands before an operator behind its operand. -/
def ReadsPostfix (ks : List Token.Kind) (e : Expr) : Prop :=
  ∀ fuel rest, 2 * ks.length ≤ fuel + 2 →
    Leads (castWithin (fuel + 1)) (postfixFrom (expressionWithin fuel)) fuel ks rest e

/-- The tokens are read as the expression at every level up to `k`.  The parser of binary operators
of the level `i + 1` is that of the index `i`. -/
structure ReadsAs (k : Nat) (ks : List Token.Kind) (e : Expr) : Prop where
  starts : StartsExpression ks
  expression : ReadsExpression ks e
  level : ∀ i ≤ 10, i < k → ReadsLevel i ks e
  chain : ∀ i < 10, i < k → ReadsChain i ks e
  behind : 12 ≤ k → ReadsPostfix ks e

/-! ### From tighter levels to looser ones -/

/-- In a loop that ends here, what has been read so far is the result. -/
theorem ReadsChain.level {i : Nat} (hi : i < 10) (h : ReadsChain i ks e) : ReadsLevel i ks e := by
  intro fuel rest hfuel hstops s hs
  obtain ⟨e', s', n, hp, hs', he', -⟩ := h fuel rest hfuel (hstops.mono (Nat.le_succ _)) s hs
  have hlookup := hstops.lookup_eq_none (infixLevel?_levelOps i hi) (Nat.le_refl _)
  rw [← kinds_of_drop hs hs'] at hlookup
  exact ⟨e', s', hp.trans (chainFrom_of_lookup n hlookup e'), hs', he'⟩

/-- What is read at a tighter level is what a loop begins with. -/
theorem ReadsLevel.chain {i : Nat} (hi : i < 10) (h : ReadsLevel (i + 1) ks e) :
    ReadsChain i ks e := by
  intro fuel rest hfuel hstops s hs
  obtain ⟨e', s', hp, hs', he'⟩ := h fuel rest hfuel hstops s hs
  refine ⟨e', s', fuel, ?_, hs', he', Nat.le_add_right _ _⟩
  rw [levelWithin_of_lt fuel hi, bind_of_ok hp]

/-- What is read at some level is read at all looser ones. -/
theorem ReadsLevel.of_le {i j : Nat} (hi : i ≤ 10) (hji : j ≤ i) (h : ReadsLevel i ks e) :
    ReadsLevel j ks e := by
  obtain ⟨d, rfl⟩ := Nat.exists_eq_add_of_le hji
  clear hji
  induction d with
  | zero => exact h
  | succ d ih =>
    have hlt : j + d < 10 := by omega
    exact ih (by omega) ((h.chain hlt).level hlt)

/-- Where no assignment follows, an operand is an expression. -/
theorem ReadsLevel.expression (hks : 0 < ks.length) (h : ReadsLevel 0 ks e) :
    ReadsExpression ks e := by
  intro fuel rest hfuel hstops
  obtain ⟨fuel, rfl⟩ := Nat.exists_eq_add_one_of_ne_zero (show fuel ≠ 0 by omega)
  refine (h fuel rest (by omega) (hstops.mono (Nat.zero_le _))).bind_end fun e' he' => ?_
  refine reads_location.bind_nil fun loc _ => (reads_operator? assignments).bind_nil
    fun op hop => ?_
  rw [hop, List.nil_append, hstops.lookup_eq_none infixLevel?_assignments (Nat.le_refl _)]
  exact reads_pure he'

/-- Where nothing goes on with an operand, the loop behind it ends. -/
theorem postfixFrom_of_stops {expr : Parser Expr} (fuel : Nat) {s : State} (h : Stops 11 s.kinds)
    (e : Expr) : postfixFrom expr fuel e s = .ok (e, s) := by
  cases fuel with
  | zero => rfl
  | succ fuel =>
    rw [postfixFrom, bind_of_ok (a := s.location) rfl, bind_of_ok (a := s.peekFixed) rfl]
    have hne : ∀ f, f.infixLevel? = some 12 → s.peekFixed ≠ some f := by
      intro f hf hpeek
      have hlt := h f (s.peekFixed_eq.symm.trans hpeek) 12 hf
      omega
    cases hpeek : s.peekFixed with
    | none => rfl
    | some f => cases f <;> first | rfl | exact absurd hpeek (hne _ rfl)

/-- What operators may follow is an operand. -/
theorem ReadsPostfix.level (hks : 0 < ks.length) (h : ReadsPostfix ks e) : ReadsLevel 10 ks e := by
  intro fuel rest hfuel hstops s hs
  obtain ⟨fuel, rfl⟩ := Nat.exists_eq_add_one_of_ne_zero (show fuel ≠ 0 by omega)
  obtain ⟨e', s', n, hp, hs', he', -⟩ := h fuel rest hfuel s hs
  rw [← kinds_of_drop hs hs'] at hstops
  exact ⟨e', s', hp.trans (postfixFrom_of_stops n hstops e'), hs', he'⟩

namespace ReadsAs

variable {k : Nat}

/-- What is read as an expression is read at the loosest level. -/
theorem of_expression (hks : StartsExpression ks) (h : ReadsExpression ks e) : ReadsAs 0 ks e where
  starts := hks
  expression := h
  level _ _ hi := absurd hi (Nat.not_lt_zero _)
  chain _ _ hi := absurd hi (Nat.not_lt_zero _)
  behind hk := absurd hk (by decide)

/-- What stands to the left of operators of some level is read at this level and at looser ones. -/
theorem of_chain {i : Nat} (hi : i < 10) (hks : StartsExpression ks) (h : ReadsChain i ks e)
    (hk : k ≤ i + 1) : ReadsAs k ks e := by
  have hlevel : ∀ j ≤ i, ReadsLevel j ks e := fun j hj => (h.level hi).of_le (by omega) hj
  refine ⟨hks, (hlevel 0 (Nat.zero_le _)).expression hks.length_pos, ?_, ?_, ?_⟩
  · exact fun j _ hjk => hlevel j (by omega)
  · intro j hj hjk
    rcases Nat.lt_or_ge j i with hlt | hge
    · exact (hlevel (j + 1) hlt).chain hj
    · obtain rfl : j = i := by omega
      exact h
  · exact fun hk' => absurd hk' (by omega)

/-- An operand is read at all levels of binary operators. -/
theorem of_operand (hks : StartsExpression ks) (h : ReadsLevel 10 ks e) (hk : k ≤ 11) :
    ReadsAs k ks e := by
  have hlevel : ∀ j ≤ 10, ReadsLevel j ks e := fun j hj => h.of_le (Nat.le_refl _) hj
  refine ⟨hks, (hlevel 0 (Nat.zero_le _)).expression hks.length_pos, ?_, ?_, ?_⟩
  · exact fun j hj _ => hlevel j hj
  · exact fun j hj _ => (hlevel (j + 1) hj).chain hj
  · exact fun hk' => absurd hk' (by omega)

/-- What operators behind it may follow is read at all levels. -/
theorem of_postfixed (hks : StartsExpression ks) (h : ReadsPostfix ks e) (k : Nat) :
    ReadsAs k ks e := by
  have hoperand := of_operand (k := 11) hks (h.level hks.length_pos) (Nat.le_refl _)
  exact ⟨hks, hoperand.expression, fun i hi _ => hoperand.level i hi (by omega),
    fun i hi _ => hoperand.chain i hi (by omega), fun _ => h⟩

theorem mono {j : Nat} (h : ReadsAs k ks e) (hjk : j ≤ k) : ReadsAs j ks e :=
  ⟨h.starts, h.expression, fun i hi hij => h.level i hi (by omega),
    fun i hi hij => h.chain i hi (by omega), fun hj => h.behind (by omega)⟩

end ReadsAs

end MiniC
