import MiniC.Proofs.Levels

/-!
# Expressions are read back as they are written

**The grammar agrees with the table of levels.**  An expression that is written with parentheses
where its place needs them, and perhaps with some more, is read back as it is, but for the numbers
and locations of its nodes, and nothing behind it is taken.

Each kind of node is one lemma, which says as what it is read if its parts are read at the levels
that their places ask for.  Parentheses read an expression at every level, so that the induction
over the trees has nothing else to do.

Main results:

* `MiniC.ReadsAs.enclosed`: in parentheses, an expression is read at every level;
* `MiniC.readsAs_binary`: a binary operator is read at its own level;
* `MiniC.Expr.readsAs_tokens`: an expression is read at its own level;
* `MiniC.expression_reads_back`: an expression is read back as it is written.
-/

set_option autoImplicit false

namespace MiniC

open MiniC.Grammar MiniC.Parser

variable {ks rest : List Token.Kind} {e l r x : Expr}

/-! ### Operands -/

/-- Where neither an operator nor a cast begins, an operand is a primary expression with operators
behind it. -/
theorem castWithin_of_primary (fuel : Nat) {s : State}
    (h : ∀ f, s.peekFixed = some f → f = .lparen ∧ baseType? s.advance.peekFixed = none) :
    castWithin (fuel + 1) s =
      (primary (expressionWithin fuel) >>= postfixFrom (expressionWithin fuel) fuel) s := by
  have hcast : startsCast s = .ok (false, s) := by
    cases hpeek : s.peekFixed with
    | none => simp [startsCast, State.startsWith, hpeek]
    | some f => simp [startsCast, (h f hpeek).2]
  have hop : operator? prefixOps s = .ok (none, s) := by
    have hlookup : (s.peekFixed.bind fun f => List.lookup f prefixOps) = none := by
      cases hpeek : s.peekFixed with
      | none => rfl
      | some f =>
        rw [(h f hpeek).1]
        rfl
    rw [← hlookup]
    rfl
  have hne : ∀ f, f ≠ .lparen → s.peekFixed ≠ some f := fun f hf hpeek => hf (h f hpeek).1
  rw [castWithin, Grammar.cast, bind_of_ok hcast]
  change unary _ _ _ s = _
  rw [unary, bind_of_ok (a := s.location) rfl, bind_of_ok hop]
  dsimp only
  rw [bind_of_ok (accept_of_ne (hne .plus (by decide)))]
  change (accept .kwSizeof >>= _) s = _
  rw [bind_of_ok (accept_of_ne (hne .kwSizeof (by decide)))]
  rfl

/-- What is read as a primary expression may be followed by operators. -/
theorem readsPostfix_of_primary
    (hstart : ∀ f more, ks = .fixed f :: more →
      f = .lparen ∧ ∀ rest, baseType? (headFixed (more ++ rest)) = none)
    (hks : 0 < ks.length)
    (h : ∀ fuel rest, 2 * ks.length ≤ fuel + 2 →
      ReadsExpr (primary (expressionWithin fuel)) ks rest e) : ReadsPostfix ks e := by
  intro fuel rest hfuel s hs
  have hcast := castWithin_of_primary fuel (s := s) fun f hf => by
    rw [s.peekFixed_eq, hs] at hf
    cases ks with
    | nil => cases hks
    | cons k more =>
      obtain ⟨more', hmore⟩ := exists_eq_of_headFixed hf
      obtain ⟨rfl, -⟩ := List.cons.inj hmore
      rw [State.peekFixed_eq, State.kinds_advance, hs]
      exact (hstart f more rfl).imp_right fun hbase => hbase rest
  obtain ⟨e', s', hp, hs', he'⟩ := h fuel rest hfuel s hs
  exact ⟨e', s', fuel, hcast.trans (bind_of_ok hp _), hs', he', Nat.le_add_right _ _⟩

/-- The expression that a literal or a name is. -/
def Token.Kind.toExpr? (node : Node) : Token.Kind → Option Expr
  | .int v => some (.int node v)
  | .char v => some (.char node v)
  | .string v => some (.string node v)
  | .ident x => some (.name node x none)
  | .fixed _ => none

theorem Node.unplaced_eq {node : Node} (h : node.type.isNone = true) :
    node.unplaced = ⟨0, .start, none⟩ := by
  rw [Node.unplaced, Option.isNone_iff_eq_none.1 h]

/-- Literals and names are read at every level. -/
theorem readsAs_literal {k : Token.Kind} {node : Node} (hnode : node.type.isNone = true)
    (hk : k.toExpr? node = some e) (j : Nat) : ReadsAs j [k] e := by
  have hstart : StartsExpression [k] := by cases k <;> trivial
  have hfixed : ∀ f more, [k] = .fixed f :: more →
      f = .lparen ∧ ∀ rest, baseType? (headFixed (more ++ rest)) = none := by
    intro f more heq
    cases heq
    cases hk
  refine .of_postfixed hstart (readsPostfix_of_primary hfixed Nat.one_pos fun fuel rest _ => ?_) j
  refine reads_location.bind_nil fun loc _ => reads_peek.bind_nil fun next hnext => ?_
  rw [hnext]
  cases k with
  | fixed f => cases hk
  | _ =>
    cases hk
    refine (reads_advance _).bind_end fun _ _ => reads_make fun id => ?_
    rw [Expr.unplaced, Expr.unplaced, Node.unplaced_eq hnode]
    rfl

theorem reads_primary_parenthesis {expr : Parser Expr}
    (h : ReadsExpr expr ks (.fixed .rparen :: rest) e) :
    ReadsExpr (primary expr) (.fixed .lparen :: (ks ++ [.fixed .rparen])) rest e := by
  refine reads_location.bind_nil fun loc _ => reads_peek.bind_nil fun next hnext => ?_
  rw [hnext]
  refine (reads_advance _).bind_cons fun _ _ => Reads.bind h fun e' he' => ?_
  exact (reads_expect .rparen _).bind_end fun _ _ => reads_pure he'

/-- In parentheses, an expression is read at every level. -/
theorem ReadsAs.enclosed (h : ReadsAs 0 ks e) (k : Nat) :
    ReadsAs k (.fixed .lparen :: (ks ++ [.fixed .rparen])) e := by
  have hstart : StartsExpression (.fixed .lparen :: (ks ++ [.fixed .rparen])) := .inl rfl
  refine .of_postfixed hstart (readsPostfix_of_primary ?_ (Nat.succ_pos _) ?_) k
  · rintro f more heq
    cases heq
    refine ⟨rfl, fun rest => ?_⟩
    rw [List.append_assoc]
    exact h.starts.append.baseType?_eq_none
  · intro fuel rest hfuel
    rw [List.length_cons, List.length_append, List.length_singleton] at hfuel
    exact reads_primary_parenthesis
      (h.expression fuel _ (by omega) (stops_of_infixLevel_eq_none rfl 0))

/-! ### Operators -/

section

variable {kl kr kx : List Token.Kind} {node : Node}

/-- An assignment is read as such: what stands to its left is an operand. -/
theorem readsExpression_assign {op : BinaryOp} (hop : op.isAssignment = true)
    (hnode : node.type.isNone = true) (hl : ReadsAs 1 kl l) (hr : ReadsAs 0 kr r) :
    ReadsExpression (kl ++ .fixed op.token :: kr) (.binary node op l r) := by
  intro fuel rest hfuel hstops
  rw [List.length_append, List.length_cons] at hfuel
  obtain ⟨fuel, rfl⟩ := Nat.exists_eq_add_one_of_ne_zero (show fuel ≠ 0 by omega)
  have hlevel : op.token.infixLevel? = some 0 := by
    rw [infixLevel?_token]
    cases op <;> first | rfl | cases hop
  refine Reads.bind (hl.level 0 (Nat.zero_le _) Nat.one_pos fuel _ (by omega)
    (stops_of_infixLevel hlevel Nat.one_pos)) fun l' hl' => ?_
  refine reads_location.bind_nil fun loc _ => (reads_operator? assignments).bind_nil
    fun found hfound => ?_
  rw [hfound, List.cons_append, headFixed_cons, Option.bind_some, lookup_assignments hop]
  refine (reads_advance _).bind_cons fun _ _ =>
    (hr.expression fuel rest (by omega) hstops).bind_end fun r' hr' => reads_make fun id => ?_
  rw [Expr.unplaced, Expr.unplaced, hl', hr', Node.unplaced_eq hnode]
  rfl

/-- An operator that groups to the left goes on with the loop of its level. -/
theorem readsChain_binary {op : BinaryOp} {i : Nat} (hi : i < 10) (hop : op.level = i + 1)
    (hnode : node.type.isNone = true) (hl : ReadsAs (i + 1) kl l) (hr : ReadsAs (i + 2) kr r) :
    ReadsChain i (kl ++ .fixed op.token :: kr) (.binary node op l r) := by
  intro fuel rest hfuel hstops s hs
  rw [List.length_append, List.length_cons] at hfuel
  rw [List.append_assoc] at hs
  have hlevel := infixLevel?_token op
  rw [hop] at hlevel
  obtain ⟨l', s₁, n, hp, hs₁, hl', hn⟩ := hl.chain i hi (Nat.lt_succ_self i) fuel _ (by omega)
    (stops_of_infixLevel hlevel (Nat.lt_succ_self _)) s hs
  obtain ⟨n, rfl⟩ := Nat.exists_eq_add_one_of_ne_zero (show n ≠ 0 by omega)
  have hkinds : s₁.kinds = .fixed op.token :: (kr ++ rest) := kinds_of_drop hs hs₁
  have hfound : operator? (levelOps i) s₁ = .ok (some op, s₁) := by
    rw [← lookup_levelOps hop]
    change Except.ok (s₁.peekFixed.bind _, s₁) = _
    rw [s₁.peekFixed_eq, hkinds]
    rfl
  have hadvance : s₁.advance.kinds = kr ++ rest := by rw [State.kinds_advance, hkinds]; rfl
  obtain ⟨r', s₂, hq, hs₂, hr'⟩ := hr.level (i + 1) hi (Nat.lt_succ_self _) fuel rest (by omega)
    hstops s₁.advance hadvance
  refine ⟨.binary ⟨s₂.nextNode, s₁.location, none⟩ op l' r',
    { s₂ with nextNode := s₂.nextNode + 1 }, n, ?_, ?_, ?_, ?_⟩
  · rw [hp, chainFrom, bind_of_ok (a := s₁.location) rfl, bind_of_ok hfound]
    dsimp only
    rw [bind_of_ok (a := ()) rfl, bind_of_ok hq]
    rfl
  · change s₂.rest = _
    rw [hs₂, State.advance, hs₁, List.tail_drop, List.drop_drop, List.length_append,
      List.length_cons]
    congr 1
    omega
  · rw [Expr.unplaced, Expr.unplaced, hl', hr', Node.unplaced_eq hnode]
    rfl
  · rw [List.length_append, List.length_cons]
    omega

theorem BinaryOp.level_of_isAssignment {op : BinaryOp} (h : op.isAssignment = true) :
    op.level = 0 := by
  cases op <;> first | rfl | cases h

theorem BinaryOp.exists_level_eq {op : BinaryOp} (h : op.isAssignment = false) :
    ∃ i < 10, op.level = i + 1 := by
  cases op <;> first | exact ⟨_, by decide, rfl⟩ | cases h

/-- A binary operator is read at its own level. -/
theorem readsAs_binary {op : BinaryOp} (hnode : node.type.isNone = true)
    (hl : ReadsAs op.leftLevel kl l) (hr : ReadsAs op.rightLevel kr r) :
    ReadsAs op.level (kl ++ .fixed op.token :: kr) (.binary node op l r) := by
  cases hop : op.isAssignment with
  | true =>
    rw [BinaryOp.leftLevel, if_pos hop] at hl
    rw [BinaryOp.rightLevel, if_pos hop] at hr
    rw [BinaryOp.level_of_isAssignment hop]
    exact .of_expression hl.starts.append (readsExpression_assign hop hnode hl hr)
  | false =>
    obtain ⟨i, hi, hlevel⟩ := BinaryOp.exists_level_eq hop
    have hne : ¬op.isAssignment = true := by rw [hop]; decide
    rw [BinaryOp.leftLevel, if_neg hne, hlevel] at hl
    rw [BinaryOp.rightLevel, if_neg hne, hlevel] at hr
    exact .of_chain hi hl.starts.append (readsChain_binary hi hlevel hnode hl hr)
      (Nat.le_of_eq hlevel)

/-- An operator before an operand makes an operand. -/
theorem readsLevel_prefixed {op : UnaryOp} (hop : op.isPostfix = false)
    (hnode : node.type.isNone = true) (hx : ReadsAs 11 kx x) :
    ReadsLevel 10 (.fixed op.token :: kx) (.unary node op x) := by
  intro fuel rest hfuel hstops
  rw [List.length_cons] at hfuel
  obtain ⟨fuel, rfl⟩ := Nat.exists_eq_add_one_of_ne_zero (show fuel ≠ 0 by omega)
  have hparen : (headFixed (.fixed op.token :: (kx ++ rest)) == some .lparen) = false := by
    cases op <;> rfl
  refine reads_startsCast.bind_nil fun b hb => ?_
  rw [hb, List.cons_append, hparen]
  refine reads_location.bind_nil fun loc _ => (reads_operator? prefixOps).bind_nil
    fun found hfound => ?_
  rw [hfound, List.cons_append, headFixed_cons, Option.bind_some, lookup_prefixOps hop]
  refine (reads_advance _).bind_cons fun _ _ =>
    (hx.level 10 (Nat.le_refl _) (by decide) fuel rest (by omega) hstops).bind_end
      fun x' hx' => reads_make fun id => ?_
  rw [Expr.unplaced, Expr.unplaced, hx', Node.unplaced_eq hnode]
  rfl

/-- A cast before an operand makes an operand. -/
theorem readsLevel_cast {t : Ty} (ht : t.length = none) (hnode : node.type.isNone = true)
    (hx : ReadsAs 11 kx x) :
    ReadsLevel 10 (.fixed .lparen :: (t.tokens ++ .fixed .rparen :: kx)) (.cast node t x) := by
  intro fuel rest hfuel hstops
  rw [List.length_cons, List.length_append, List.length_cons] at hfuel
  obtain ⟨fuel, rfl⟩ := Nat.exists_eq_add_one_of_ne_zero (show fuel ≠ 0 by omega)
  refine reads_startsCast.bind_nil fun b hb => ?_
  have hcast : b = true := by
    rw [hb]
    obtain ⟨base, pointers, length⟩ := t
    cases base <;> rfl
  rw [hcast]
  refine reads_location.bind_nil fun loc _ => (reads_advance _).bind_cons fun _ _ =>
    (reads_typeName ht (by simp)).bind fun t' ht' => (reads_expect .rparen _).bind_cons fun _ _ =>
      (hx.level 10 (Nat.le_refl _) (by decide) fuel rest (by omega) hstops).bind_end
        fun x' hx' => reads_make fun id => ?_
  rw [Expr.unplaced, Expr.unplaced, hx', Node.unplaced_eq hnode, ht']
  rfl

/-- `sizeof` makes an operand, whatever follows. -/
theorem readsLevel_sizeof {t : Ty} (ht : t.length = none) (hnode : node.type.isNone = true) :
    ReadsLevel 10 (.fixed .kwSizeof :: .fixed .lparen :: (t.tokens ++ [.fixed .rparen]))
      (.sizeof node t) := by
  intro fuel rest hfuel _
  rw [List.length_cons] at hfuel
  obtain ⟨fuel, rfl⟩ := Nat.exists_eq_add_one_of_ne_zero (show fuel ≠ 0 by omega)
  refine reads_startsCast.bind_nil fun b hb => ?_
  rw [hb]
  refine reads_location.bind_nil fun loc _ => (reads_operator? prefixOps).bind_nil
    fun found hfound => ?_
  rw [hfound]
  refine (reads_accept_of_ne (by simp)).bind_nil fun b hb => ?_
  rw [hb]
  refine (reads_accept .kwSizeof).bind_cons fun b hb => ?_
  rw [hb]
  refine Reads.bind_end ?_ fun t' (ht' : t' = t) => reads_make fun id => ?_
  · refine (reads_expect .lparen _).bind_cons fun _ _ => reads_startsDeclaration.bind_nil
      fun b hb => ?_
    have htype : b = true := by
      rw [hb]
      obtain ⟨base, pointers, length⟩ := t
      cases base <;> rfl
    rw [htype]
    exact (reads_typeName ht (by simp)).bind fun t' ht' => (reads_expect .rparen _).bind_end
      fun _ _ => reads_pure ht'
  · rw [Expr.unplaced, Expr.unplaced, Node.unplaced_eq hnode, ht']
    rfl

/-- What the loop reads behind an operand in one of its rounds makes an operand for the next one. -/
theorem ReadsAs.extend (hx : ReadsAs 12 kx x) (hks : 0 < ks.length)
    (hround : ∀ fuel n rest x', 2 * ks.length ≤ fuel → ks.length ≤ n + 1 →
      x'.unplaced = x.unplaced → ∃ round : Parser Expr, ReadsExpr round ks rest e ∧
        ∀ s, s.kinds = ks ++ rest → postfixFrom (expressionWithin fuel) (n + 1) x' s =
          (round >>= postfixFrom (expressionWithin fuel) n) s) : ReadsPostfix (kx ++ ks) e := by
  intro fuel rest hfuel s hs
  have hpos := hx.starts.length_pos
  rw [List.length_append] at hfuel
  rw [List.append_assoc] at hs
  obtain ⟨x', s₁, n, hp, hs₁, hx', hn⟩ := hx.behind (Nat.le_refl _) fuel _ (by omega) s hs
  obtain ⟨n, rfl⟩ := Nat.exists_eq_add_one_of_ne_zero (show n ≠ 0 by omega)
  obtain ⟨round, hreads, hloop⟩ := hround fuel n rest x' (by omega) (by omega) hx'
  have hkinds := kinds_of_drop hs hs₁
  obtain ⟨e', s₂, hq, hs₂, he'⟩ := hreads s₁ hkinds
  refine ⟨e', s₂, n, ?_, ?_, he', ?_⟩
  · rw [hp, hloop s₁ hkinds, bind_of_ok hq]
  · rw [hs₂, hs₁, List.drop_drop, List.length_append]
  · rw [List.length_append]
    omega

theorem peekFixed_of_kinds {f : Fixed} {s : State} (h : s.kinds = .fixed f :: ks) :
    s.peekFixed = some f := by
  rw [s.peekFixed_eq, h]
  rfl

/-- An operator behind an operand takes a round. -/
theorem readsPostfix_unary {op : UnaryOp} (hop : op.isPostfix = true)
    (hnode : node.type.isNone = true) (hx : ReadsAs 12 kx x) :
    ReadsPostfix (kx ++ [.fixed op.token]) (.unary node op x) := by
  refine hx.extend Nat.one_pos fun fuel n rest x' _ _ hx' => ?_
  refine ⟨do
    let loc ← location
    advance
    make loc fun node => .unary node op x', ?_, fun s hs => ?_⟩
  · refine reads_location.bind_nil fun loc _ => (reads_advance _).bind_end fun _ _ =>
      reads_make fun id => ?_
    rw [Expr.unplaced, Expr.unplaced, hx', Node.unplaced_eq hnode]
    rfl
  · have hpeek := peekFixed_of_kinds hs
    rw [postfixFrom, bind_of_ok (a := s.location) rfl, bind_of_ok (a := s.peekFixed) rfl, hpeek]
    cases op <;> first | rfl | cases hop

/-- So does a subscript. -/
theorem readsPostfix_subscript {kb ki : List Token.Kind} {b i : Expr}
    (hnode : node.type.isNone = true) (hb : ReadsAs 12 kb b) (hi : ReadsAs 0 ki i) :
    ReadsPostfix (kb ++ .fixed .lbracket :: (ki ++ [.fixed .rbracket])) (.subscript node b i) := by
  refine hb.extend (Nat.succ_pos _) fun fuel n rest b' hfuel _ hb' => ?_
  rw [List.length_cons, List.length_append] at hfuel
  refine ⟨do
    let loc ← location
    advance
    let index ← expressionWithin fuel
    expect .rbracket "after array index"
    make loc fun node => .subscript node b' index, ?_, fun s hs => ?_⟩
  · refine reads_location.bind_nil fun loc _ => (reads_advance _).bind_cons fun _ _ =>
      Reads.bind (hi.expression fuel _ (by omega) (stops_of_infixLevel_eq_none rfl 0))
        fun i' hi' => (reads_expect .rbracket _).bind_end fun _ _ => reads_make fun id => ?_
    rw [Expr.unplaced, Expr.unplaced, hb', hi', Node.unplaced_eq hnode]
    rfl
  · have hpeek := peekFixed_of_kinds hs
    rw [postfixFrom, bind_of_ok (a := s.location) rfl, bind_of_ok (a := s.peekFixed) rfl, hpeek]
    simp only [bind_assoc]
    rw [bind_of_ok (a := s.location) rfl]

end

/-! ### Arguments -/

/-- The arguments of a call are read, each before a comma or before what closes the list. -/
theorem reads_arguments {expr : Parser Expr} {print : Expr → List Token.Kind} {es : List Expr}
    (hexpr : ∀ e ∈ es, ∀ more, Stops 0 more → ReadsExpr expr (print e) more e)
    (hstarts : ∀ e ∈ es, StartsExpression (print e)) {fuel : Nat} (hfuel : es.length ≤ fuel + 1) :
    Reads (arguments expr fuel) (separated (es.map print)) (.fixed .rparen :: rest) fun es' =>
      es'.map Expr.unplaced = es.map Expr.unplaced := by
  cases es with
  | nil =>
    refine (reads_check_head .rparen).bind_nil fun b hb => ?_
    rw [hb]
    exact reads_pure rfl
  | cons e es =>
    have hstart : StartsExpression (print e) := hstarts e List.mem_cons_self
    have hhead : ∀ ks ks', headFixed (print e ++ ks ++ ks') ≠ some .rparen :=
      fun ks ks' => hstart.append.append.headFixed_ne (by decide)
    refine (reads_check_of_ne ?_).bind_nil fun b hb => ?_
    · rw [separated_map_cons]
      exact hhead _ _
    rw [hb]
    exact reads_separated (fun _ => stops_of_infixLevel_eq_none rfl 0)
      (stops_of_infixLevel_eq_none rfl 0) (by simp) hexpr (Nat.le_of_succ_le_succ hfuel)

theorem Expr.unplacedAll_eq_map (es : List Expr) : unplacedAll es = es.map unplaced := by
  induction es with
  | nil => rfl
  | cons e es ih => rw [unplacedAll, ih, List.map_cons]

theorem Expr.exists_eq_name {e : Expr} {node : Node} {f : String} {link : Option Nat}
    (h : e.unplaced = (Expr.name node f link).unplaced) : ∃ node', e = .name node' f link := by
  cases e with
  | name node' g link' =>
    obtain ⟨-, rfl, rfl⟩ := Expr.name.inj h
    exact ⟨node', rfl⟩
  | _ => cases h

/-- A call takes a round of the loop behind the name of the function. -/
theorem readsPostfix_call {node : Node} (hnode : node.type.isNone = true) (f : String)
    {print : Expr → List Token.Kind} {args : List Expr}
    (hargs : ∀ e ∈ args, ReadsAs 0 (print e) e) :
    ReadsPostfix (.ident f :: .fixed .lparen :: (separated (args.map print) ++ [.fixed .rparen]))
      (.call node f args) := by
  have hname : ReadsAs 12 [.ident f] (.name ⟨0, .start, none⟩ f none) := readsAs_literal rfl rfl 12
  refine hname.extend (Nat.succ_pos _) fun fuel n rest x' hfuel hn hx' => ?_
  rw [List.length_cons, List.length_append] at hfuel hn
  have hcount := length_le_length_separated fun e he => (hargs e he).starts.length_pos
  have hexpr : ∀ e ∈ args, ∀ more, Stops 0 more →
      ReadsExpr (expressionWithin fuel) (print e) more e := by
    intro e he more hmore
    have hlength : (print e).length ≤ (separated (args.map print)).length :=
      length_le_separated_of_mem he
    exact (hargs e he).expression fuel more (by omega) hmore
  -- What has been read so far is the name.
  obtain ⟨nameNode, rfl⟩ := Expr.exists_eq_name hx'
  refine ⟨do
    advance
    let es ← arguments (expressionWithin fuel) n
    expect .rparen "after function arguments"
    make nameNode.location fun node => .call node f es, ?_, fun s hs => ?_⟩
  · refine (reads_advance _).bind_cons fun _ _ => Reads.bind
      (reads_arguments hexpr (fun e he => (hargs e he).starts) (by omega)) fun es hes =>
      (reads_expect .rparen _).bind_end fun _ _ => reads_make fun id => ?_
    rw [Expr.unplaced, Expr.unplaced, Expr.unplacedAll_eq_map, Expr.unplacedAll_eq_map, hes,
      Node.unplaced_eq hnode]
    rfl
  · have hpeek := peekFixed_of_kinds hs
    rw [postfixFrom, bind_of_ok (a := s.location) rfl, bind_of_ok (a := s.peekFixed) rfl, hpeek]
    simp only [bind_assoc]
    rfl

/-! ### All expressions -/

namespace Expr

variable {extra : Expr → Bool}

/-- An expression that is read at its own level is read at the level of its place, once it has the
parentheses that the place asks for. -/
theorem readsAs_tokensAt {e : Expr} (h : ReadsAs e.level (e.tokens extra) e) (k : Nat) :
    ReadsAs k (e.tokensAt extra k) e := by
  unfold tokensAt enclosed
  split
  · exact (h.mono (Nat.zero_le _)).enclosed k
  · next hneeded =>
    have hlevel : ¬e.level < k := fun hlt => hneeded (by simp [isEnclosed, hlt])
    exact h.mono (Nat.le_of_not_lt hlevel)

theorem tokensOf_eq_map (es : List Expr) :
    tokensOf extra es = es.map (tokensAt extra 0) := by
  induction es with
  | nil => rfl
  | cons e es ih => rw [tokensOf, ih, List.map_cons, tokensAt]

mutual

/-- An expression is read at its own level. -/
theorem readsAs_tokens : (e : Expr) → e.isPlain = true → ReadsAs e.level (e.tokens extra) e
  | .int _ _, h | .char _ _, h | .string _ _, h => readsAs_literal h rfl 13
  | .name _ _ link, h => by
    obtain ⟨hnode, hlink⟩ := Bool.and_eq_true_iff.1 h
    obtain rfl := Option.isNone_iff_eq_none.1 hlink
    exact readsAs_literal hnode rfl 13
  | .binary _ op l r, h => by
    obtain ⟨hnl, hr⟩ := Bool.and_eq_true_iff.1 h
    obtain ⟨hnode, hl⟩ := Bool.and_eq_true_iff.1 hnl
    exact readsAs_binary hnode (readsAs_tokensAt (readsAs_tokens l hl) _)
      (readsAs_tokensAt (readsAs_tokens r hr) _)
  | .unary node op x, h => by
    obtain ⟨hnode, hx⟩ := Bool.and_eq_true_iff.1 h
    have hplace := readsAs_tokensAt (readsAs_tokens x hx)
    cases hop : op.isPostfix with
    | true =>
      rw [tokens, if_pos hop]
      exact .of_postfixed (hplace 12).starts.append (readsPostfix_unary hop hnode (hplace 12)) _
    | false =>
      have hne : ¬op.isPostfix = true := by rw [hop]; decide
      have hstart : StartsExpression (.fixed op.token :: x.tokensAt extra 11) :=
        .inr (.inr (by rw [lookup_prefixOps hop]; rfl))
      rw [tokens, level, if_neg hne, if_neg hne]
      exact .of_operand hstart (readsLevel_prefixed hop hnode (hplace 11)) (Nat.le_refl _)
  | .call node f args, h => by
    obtain ⟨hnode, hargs⟩ := Bool.and_eq_true_iff.1 h
    have hstart : StartsExpression (tokens extra (.call node f args)) := trivial
    have hcall := readsPostfix_call hnode f (readsAs_tokensOf args hargs)
    rw [← tokensOf_eq_map] at hcall
    exact .of_postfixed hstart hcall 12
  | .subscript _ b i, h => by
    obtain ⟨hnb, hi⟩ := Bool.and_eq_true_iff.1 h
    obtain ⟨hnode, hb⟩ := Bool.and_eq_true_iff.1 hnb
    have hbase := readsAs_tokensAt (readsAs_tokens b hb) 12
    exact .of_postfixed hbase.starts.append
      (readsPostfix_subscript hnode hbase (readsAs_tokensAt (readsAs_tokens i hi) 0)) 12
  | .cast _ t x, h => by
    obtain ⟨hnt, hx⟩ := Bool.and_eq_true_iff.1 h
    obtain ⟨hnode, ht⟩ := Bool.and_eq_true_iff.1 hnt
    have hoperand := readsAs_tokensAt (readsAs_tokens x hx) 11
    exact .of_operand (.inl rfl)
      (readsLevel_cast (Option.isNone_iff_eq_none.1 ht) hnode hoperand) (Nat.le_refl _)
  | .sizeof _ t, h => by
    obtain ⟨hnode, ht⟩ := Bool.and_eq_true_iff.1 h
    exact .of_operand (.inr (.inl rfl))
      (readsLevel_sizeof (Option.isNone_iff_eq_none.1 ht) hnode) (Nat.le_refl _)

theorem readsAs_tokensOf : (es : List Expr) → allPlain es = true →
    ∀ e ∈ es, ReadsAs 0 (e.tokensAt extra 0) e
  | [], _ => fun _ h => nomatch h
  | e :: es, h => by
    obtain ⟨he, hes⟩ := Bool.and_eq_true_iff.1 h
    exact List.forall_mem_cons.2 ⟨readsAs_tokensAt (readsAs_tokens e he) 0,
      readsAs_tokensOf es hes⟩

end

end Expr

/-- An expression is read back as it is written, up to the numbers and locations of its nodes,
before a semicolon, a comma, a closing parenthesis or bracket, and at the end of the text.  It has
parentheses where its place needs them, and where `extra` puts some more; none if that is false
everywhere. -/
theorem expression_reads_back (extra : Expr → Bool) {e : Expr} (hplain : e.isPlain = true)
    {s : State} {rest : List Token.Kind} (hs : s.kinds = e.tokensAt extra 0 ++ rest)
    (hrest : ∀ k ∈ rest.head?, ∃ f ∈ [Fixed.semicolon, .rparen, .rbracket, .comma],
      k = .fixed f) :
    ∃ e' s', expression s = .ok (e', s') ∧
      s'.rest = s.rest.drop (e.tokensAt extra 0).length ∧ e'.unplaced = e.unplaced := by
  have hreads : ReadsExpression (e.tokensAt extra 0) e :=
    (Expr.readsAs_tokensAt (Expr.readsAs_tokens e hplain) 0).expression
  have hlength : s.rest.length = (e.tokensAt extra 0).length + rest.length := by
    rw [← List.length_append, ← hs, State.kinds, List.length_map]
  have hstops : Stops 0 rest := by
    intro f hf j hj
    obtain ⟨more, rfl⟩ := exists_eq_of_headFixed hf
    obtain ⟨g, hg, hfg⟩ := hrest _ rfl
    have hnone : ∀ g ∈ [Fixed.semicolon, .rparen, .rbracket, .comma], g.infixLevel? = none := by
      decide
    rw [Token.Kind.fixed.inj hfg, hnone g hg] at hj
    cases hj
  exact hreads (depthBound s.rest.length) rest (by rw [depthBound]; omega) hstops s hs

/-- The assignment of a difference, whose second operand is a difference, too. -/
def sample : Expr :=
  let node : Node := ⟨0, .start, none⟩
  let x (name : String) : Expr := .name node name none
  .binary node .assign (.unary node .deref (.unary node .postInc (x "p")))
    (.binary node .sub (.cast node .char (x "a"))
      (.binary node .sub (x "b") (.call node "f" [.subscript node (x "c") (.int node 1)])))

/-- The tokens `*p++ = (char) a - (b - f(c[1]))`. -/
def sampleTokens : List Token.Kind :=
  [.fixed .star, .ident "p", .fixed .plusPlus, .fixed .eq,
    .fixed .lparen, .fixed .kwChar, .fixed .rparen, .ident "a", .fixed .minus,
    .fixed .lparen, .ident "b", .fixed .minus, .ident "f", .fixed .lparen, .ident "c",
    .fixed .lbracket, .int 1, .fixed .rbracket, .fixed .rparen, .fixed .rparen]

/-- A state in which these tokens are left, and a semicolon. -/
def sampleState : State := .ofTokens (.ofKinds (sampleTokens ++ [.fixed .semicolon]))

/-- Only the second operand of the difference needs parentheses, and it is read back. -/
theorem expression_reads_back_sample :
    sample.tokensAt (fun _ => false) 0 = sampleTokens ∧
    ∃ e' s', expression sampleState = .ok (e', s') ∧
      s'.rest = [⟨.fixed .semicolon, .start⟩] ∧ e'.unplaced = sample.unplaced := by
  have htokens : sample.tokensAt (fun _ => false) 0 = sampleTokens := by decide
  have hplain : sample.isPlain = true := by decide
  have hkinds : sampleState.kinds =
      sample.tokensAt (fun _ => false) 0 ++ [.fixed .semicolon] := by decide
  obtain ⟨e', s', he', hs', hsame⟩ :=
    expression_reads_back (fun _ => false) hplain hkinds fun k hk =>
      ⟨.semicolon, by decide, (Option.some.inj hk).symm⟩
  rw [htokens] at hs'
  exact ⟨htokens, e', s', he', hs', hsame⟩

end MiniC
