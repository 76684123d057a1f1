import MiniC.Proofs.Positions

/-!
# Progress of the parsers of expressions

The recursion of the grammar has a bound on its depth, and its loops have one on their turns.  Where
the bounds are large enough for the tokens that are left, they do not matter: **parsers that differ
in their bounds alone do the same**.  No parser comes back to itself without having taken a token,
so the induction is on the number of tokens; it needs to know which parsers take one, and that a
token is there where one is taken after a look.

Main definitions:

* `MiniC.Parser.Agrees`: two parsers do the same in a state, take some tokens and hit no bound;
* `MiniC.Parser.Progresses`: they do so in all states with so many tokens;
* `MiniC.Parser.Looks`: a parser that takes nothing and does not fail.

Main results:

* `MiniC.Parser.Progresses.bind`, `MiniC.Parser.Progresses.bind_lt`: one parser after another;
* `MiniC.Parser.progresses_loop`: a loop each turn of which takes a token;
* `MiniC.Grammar.progresses_expressionWithin`: expressions.
-/

set_option autoImplicit false

namespace MiniC

namespace Parser

section

variable {α β : Type} {m n j k : Nat}

/-- Begun in the state `s`, two parsers do the same, step by step.  If they succeed, they take at
least `k` tokens; if they fail, then not because of a bound. -/
structure Agrees (k : Nat) (x y : Parser α) (s : State) : Prop where
  eq : x s = y s
  course : ∃ ss, Course x s ss (x s)
  takes : ∀ a t, x s = .ok (a, t) → t.rest.length + k ≤ s.rest.length
  unbounded : ∀ e, x s = .error e → e.cause ≠ .exhausted

/-- Begun with at least `m` tokens and fewer than `n`, two parsers do the same, take at least `k` of
the tokens if they succeed, and hit no bound.  Behind a look at a token there is one to take, so `m`
is 1 there and 0 elsewhere. -/
def Progresses (m n k : Nat) (x y : Parser α) : Prop :=
  ∀ s, m ≤ s.rest.length → s.rest.length < n → Agrees k x y s

variable {x x' : Parser α} {f f' : α → Parser β}

/-! ### One parser after another -/

/-- A parser after another one. -/
theorem Agrees.bind {s : State} (hx : Agrees j x x' s)
    (hf : ∀ a t, x s = .ok (a, t) → Agrees (k - j) (f a) (f' a) t) :
    Agrees k (x >>= f) (x' >>= f') s := by
  obtain ⟨heq, ⟨ss, hss⟩, htakes, hunbounded⟩ := hx
  cases h : x s with
  | error e =>
    rw [h] at hss
    have hbind := bind_of_error h f
    refine ⟨hbind.trans (bind_of_error (heq ▸ h) f').symm, ⟨ss, hbind ▸ .bind_error hss⟩, ?_, ?_⟩
    · intro b t hb
      cases hbind.symm.trans hb
    · intro e' he'
      cases hbind.symm.trans he'
      exact hunbounded e h
  | ok r =>
    obtain ⟨a, s₁⟩ := r
    rw [h] at hss
    obtain ⟨heq', ⟨ss', hss'⟩, htakes', hunbounded'⟩ := hf a s₁ h
    have hbind := bind_of_ok h f
    refine ⟨hbind.trans (heq'.trans (bind_of_ok (heq ▸ h) f').symm),
      ⟨ss ++ ss', .bind hss (hbind ▸ hss')⟩, fun b t hb => ?_,
      fun e he => hunbounded' e (hbind.symm.trans he)⟩
    have hfirst := htakes a s₁ h
    have hsecond := htakes' b t (hbind.symm.trans hb)
    omega

theorem Progresses.mono {m' n' k' : Nat} (h : Progresses m n k x x') (hm : m ≤ m') (hn : n' ≤ n)
    (hk : k' ≤ k) : Progresses m' n' k' x x' := by
  intro s hs hs'
  obtain ⟨heq, hcourse, htakes, hunbounded⟩ := h s (Nat.le_trans hm hs) (Nat.lt_of_lt_of_le hs' hn)
  exact ⟨heq, hcourse, fun a t ha => Nat.le_trans (Nat.add_le_add_left hk _) (htakes a t ha),
    hunbounded⟩

theorem Progresses.of_le {n' : Nat} (h : Progresses 0 n k x x') (hn : n' ≤ n) :
    Progresses m n' k x x' :=
  h.mono (Nat.zero_le m) hn (Nat.le_refl k)

theorem Progresses.forget (h : Progresses m n k x x') : Progresses m n 0 x x' :=
  h.mono (Nat.le_refl m) (Nat.le_refl n) (Nat.zero_le k)

/-- A parser after another one begins with no more tokens. -/
theorem Progresses.bind (hx : Progresses m n j x x')
    (hf : ∀ a, Progresses 0 n (k - j) (f a) (f' a)) : Progresses m n k (x >>= f) (x' >>= f') := by
  intro s hm hn
  refine (hx s hm hn).bind fun a t ha => hf a t (Nat.zero_le _) ?_
  have htakes := (hx s hm hn).takes a t ha
  omega

/-- A parser after one that takes a token begins with fewer tokens. -/
theorem Progresses.bind_lt (hx : Progresses m (n + 1) 1 x x')
    (hf : ∀ a, Progresses 0 n (k - 1) (f a) (f' a)) :
    Progresses m (n + 1) k (x >>= f) (x' >>= f') := by
  intro s hm hn
  refine (hx s hm hn).bind fun a t ha => hf a t (Nat.zero_le _) ?_
  have htakes := (hx s hm hn).takes a t ha
  omega

/-! ### Single steps -/

theorem progresses_of_basic (hx : Basic x)
    (htakes : ∀ s a t, m ≤ s.rest.length → x s = .ok (a, t) → t.rest.length + k ≤ s.rest.length)
    (hunbounded : ∀ s e, x s = .error e → e.cause ≠ .exhausted) : Progresses m n k x x :=
  fun s hm _ => ⟨rfl, ⟨[s], .basic hx s⟩, fun a t => htakes s a t hm, hunbounded s⟩

/-- A step that takes nothing and does not fail. -/
theorem progresses_of_stays (hx : Basic x) {after : State → α × State}
    (heq : ∀ s, x s = .ok (after s)) (hrest : ∀ s, (after s).2.rest = s.rest) :
    Progresses m n 0 x x := by
  refine progresses_of_basic hx (fun s a t _ h => ?_) (fun s e h => ?_)
  · obtain rfl : t = (after s).2 := congrArg Prod.snd (Except.ok.inj (h.symm.trans (heq s)))
    rw [hrest]
    exact Nat.le_refl _
  · cases (heq s).symm.trans h

theorem progresses_pure (a : α) : Progresses m n 0 (pure a : Parser α) (pure a) :=
  progresses_of_stays (.pure a) (fun _ => rfl) (fun _ => rfl)

theorem progresses_make (loc : Location) (e : Node → Expr) :
    Progresses m n 0 (make loc e) (make loc e) :=
  progresses_of_stays (.make loc e) (fun _ => rfl) (fun _ => rfl)

theorem progresses_declare (d : Declaration) : Progresses m n 0 (declare d) (declare d) :=
  progresses_of_stays (.declare d) (fun _ => rfl) (fun _ => rfl)

theorem progresses_fail {cause : Option Token.Kind → SyntaxError.Cause}
    (h : ∀ next, cause next ≠ .exhausted) :
    Progresses m n k (fail cause : Parser α) (fail cause) := by
  refine progresses_of_basic (.fail cause) (fun s a t _ ht => nomatch ht) (fun s e he => ?_)
  cases he
  exact h _

theorem progresses_failAt (loc : Location) {cause : SyntaxError.Cause} (h : cause ≠ .exhausted) :
    Progresses m n k (failAt loc cause : Parser α) (failAt loc cause) := by
  refine progresses_of_basic (.failAt loc cause) (fun s a t _ ht => nomatch ht) (fun s e he => ?_)
  cases he
  exact h

/-- A token that is there is taken. -/
theorem progresses_advance : Progresses 1 n 1 advance advance := by
  refine progresses_of_basic .advance (fun s a t hs h => ?_) (fun s e h => nomatch h)
  cases h
  rw [State.advance, List.length_tail]
  omega

theorem State.length_rest_advance {s : State} {f : Fixed} (h : s.startsWith f = true) :
    s.advance.rest.length + 1 = s.rest.length := by
  obtain ⟨rest, finish, next, ds⟩ := s
  cases rest with
  | nil => cases h
  | cons t rest => rfl

theorem progresses_expect (f : Fixed) (context : String) :
    Progresses m n 1 (expect f context) (expect f context) := by
  refine progresses_of_basic (.expect f context) (fun s a t _ h => ?_) (fun s e h => ?_)
  · unfold expect at h
    split at h <;> cases h
    next hstarts => exact Nat.le_of_eq (State.length_rest_advance hstarts)
  · unfold expect at h
    split at h <;> cases h
    exact fun hcause => nomatch hcause

theorem progresses_identifier : Progresses m n 1 identifier identifier := by
  refine progresses_of_basic .identifier (fun s a t _ h => ?_) (fun s e h => ?_)
  · unfold identifier at h
    split at h
    · next hrest =>
      cases h
      rw [hrest]
      exact Nat.le_refl _
    · cases h
  · unfold identifier at h
    split at h <;> cases h
    exact fun hcause => nomatch hcause

theorem progresses_stars : Progresses m n 0 stars stars := by
  refine fun s _ _ => ⟨rfl, ⟨_, .stars s⟩, fun a t h => ?_, fun e h => nomatch h⟩
  cases h
  exact (List.dropWhile_suffix _).length_le

/-- A token that may be there is taken if it is. -/
theorem progresses_accept (f : Fixed) : Progresses m n 0 (accept f) (accept f) := by
  refine progresses_of_basic (.accept f) (fun s a t _ h => ?_) (fun s e h => ?_)
  · unfold accept at h
    split at h <;> cases h
    · next hstarts => exact Nat.le_of_lt (Nat.le_of_eq (State.length_rest_advance hstarts))
    · exact Nat.le_refl _
  · unfold accept at h
    split at h <;> cases h

/-- What follows a token that may be there begins with fewer tokens if it is. -/
theorem Progresses.accept_ite {f : Fixed} {a a' b b' : Parser α}
    (ha : Progresses 0 (n - 1) (k - 1) a a') (hb : Progresses m n k b b') :
    Progresses m n k (accept f >>= fun c => if c = true then a else b)
      (accept f >>= fun c => if c = true then a' else b') := by
  intro s hm hn
  cases hstarts : s.startsWith f with
  | true =>
    have haccept : accept f s = .ok (true, s.advance) := by simp [accept, hstarts]
    have hlength := State.length_rest_advance hstarts
    have hfirst : Agrees 1 (accept f) (accept f) s := by
      refine ⟨rfl, ⟨[s], .basic (.accept f) s⟩, fun c t h => ?_, fun e h => ?_⟩
      · cases haccept.symm.trans h
        exact Nat.le_of_eq hlength
      · cases haccept.symm.trans h
    refine hfirst.bind fun c t h => ?_
    cases haccept.symm.trans h
    exact ha _ (Nat.zero_le _) (by omega)
  | false =>
    have haccept : accept f s = .ok (false, s) := by simp [accept, hstarts]
    refine (progresses_accept f s hm hn).bind fun c t h => ?_
    cases haccept.symm.trans h
    exact hb s hm hn

/-! ### Looking at tokens -/

/-- The parser looks at the tokens, takes none of them and does not fail. -/
structure Looks (x : Parser α) (look : State → α) : Prop where
  eq : ∀ s, x s = .ok (look s, s)
  course : ∀ s, ∃ ss, Course x s ss (x s)

variable {look : State → α}

/-- What follows on a look may need as many tokens as the look has seen. -/
theorem Looks.bind (hx : Looks x look) (need : α → Nat)
    (hneed : ∀ s, m ≤ s.rest.length → need (look s) ≤ s.rest.length)
    (hf : ∀ a, Progresses (need a) n k (f a) (f' a)) : Progresses m n k (x >>= f) (x >>= f') := by
  intro s hm hn
  have hfirst : Agrees 0 x x s := by
    refine ⟨rfl, hx.course s, fun a t h => ?_, fun e h => ?_⟩
    · cases (hx.eq s).symm.trans h
      exact Nat.le_refl _
    · cases (hx.eq s).symm.trans h
  refine hfirst.bind fun a t h => ?_
  cases (hx.eq s).symm.trans h
  exact hf _ s (hneed s hm) hn

theorem Looks.ite {x : Parser Bool} {look : State → Bool} (hx : Looks x look) {l : Nat}
    (hneed : ∀ s, m ≤ s.rest.length → look s = true → l ≤ s.rest.length) {a a' b b' : Parser α}
    (ha : Progresses l n k a a') (hb : Progresses m n k b b') :
    Progresses m n k (x >>= fun c => if c = true then a else b)
      (x >>= fun c => if c = true then a' else b') := by
  refine hx.bind (fun c => if c = true then l else m) (fun s hm => ?_) (fun c => ?_)
  · split
    · next h => exact hneed s hm h
    · exact hm
  · cases c with
    | true => exact ha
    | false => exact hb

theorem looks_location : Looks location State.location :=
  ⟨fun _ => rfl, fun s => ⟨_, .basic .location s⟩⟩

theorem looks_peek : Looks peek State.peek := ⟨fun _ => rfl, fun s => ⟨_, .basic .peek s⟩⟩

theorem looks_peekFixed : Looks peekFixed State.peekFixed :=
  ⟨fun _ => rfl, fun s => ⟨_, .basic .peekFixed s⟩⟩

theorem looks_check (f : Fixed) : Looks (check f) (State.startsWith · f) :=
  ⟨fun _ => rfl, fun s => ⟨_, .basic (.check f) s⟩⟩

theorem State.rest_eq_nil_of_peek {s : State} (h : s.peek = none) : s.rest = [] := by
  obtain ⟨rest, finish, next, ds⟩ := s
  cases rest with
  | nil => rfl
  | cons t rest => cases h

theorem State.peek_isSome_le (s : State) : s.peek.isSome.toNat ≤ s.rest.length := by
  obtain ⟨rest, finish, next, ds⟩ := s
  cases rest with
  | nil => exact Nat.le_refl _
  | cons t rest => exact Nat.succ_le_succ (Nat.zero_le _)

theorem State.peekFixed_isSome_le (s : State) : s.peekFixed.isSome.toNat ≤ s.rest.length := by
  obtain ⟨rest, finish, next, ds⟩ := s
  rcases rest with _ | ⟨⟨kind, loc⟩, rest⟩
  · exact Nat.le_refl _
  · exact Nat.le_trans (Bool.toNat_le _) (Nat.succ_le_succ (Nat.zero_le _))

theorem Progresses.location_bind {f f' : Location → Parser β}
    (hf : ∀ loc, Progresses m n k (f loc) (f' loc)) :
    Progresses m n k (location >>= f) (location >>= f') :=
  looks_location.bind (fun _ => m) (fun _ hm => hm) hf

/-- What is seen is there to be taken. -/
theorem Progresses.peek_bind {f f' : Option Token.Kind → Parser β}
    (hf : ∀ next, Progresses next.isSome.toNat n k (f next) (f' next)) :
    Progresses m n k (peek >>= f) (peek >>= f') :=
  looks_peek.bind (fun next => next.isSome.toNat) (fun s _ => s.peek_isSome_le) hf

theorem Progresses.peekFixed_bind {f f' : Option Fixed → Parser β}
    (hf : ∀ next, Progresses next.isSome.toNat n k (f next) (f' next)) :
    Progresses m n k (peekFixed >>= f) (peekFixed >>= f') :=
  looks_peekFixed.bind (fun next => next.isSome.toNat) (fun s _ => s.peekFixed_isSome_le) hf

theorem Progresses.check_ite {f : Fixed} {a a' b b' : Parser α} (ha : Progresses m n k a a')
    (hb : Progresses m n k b b') :
    Progresses m n k (check f >>= fun c => if c = true then a else b)
      (check f >>= fun c => if c = true then a' else b') :=
  (looks_check f).ite (fun _ hm _ => hm) ha hb

/-! ### Loops -/

/-- A loop with `fuel` turns at most, run with what it has read so far.  If each turn takes a token,
then the tokens that are left bound the turns that are to come. -/
theorem progresses_loop {γ : Type} {x y : Nat → γ → Parser α}
    (turn : ∀ j < n, ∀ fuel fuel', j ≤ fuel → j ≤ fuel' →
      (∀ c, Progresses 0 j k (x fuel c) (y fuel' c)) →
      ∀ c, Progresses 0 (j + 1) k (x (fuel + 1) c) (y (fuel' + 1) c))
    {fuel fuel' : Nat} (hfuel : n ≤ fuel) (hfuel' : n ≤ fuel') (c : γ) :
    Progresses 0 n k (x fuel c) (y fuel' c) := by
  induction n generalizing fuel fuel' c with
  | zero => exact fun s _ hs => absurd hs (Nat.not_lt_zero _)
  | succ n ih =>
    obtain ⟨fuel, rfl⟩ := Nat.exists_eq_add_one.2 (Nat.lt_of_lt_of_le n.succ_pos hfuel)
    obtain ⟨fuel', rfl⟩ := Nat.exists_eq_add_one.2 (Nat.lt_of_lt_of_le n.succ_pos hfuel')
    have hle : n ≤ fuel := Nat.le_of_succ_le_succ hfuel
    have hle' : n ≤ fuel' := Nat.le_of_succ_le_succ hfuel'
    refine turn n (Nat.lt_succ_self n) fuel fuel' hle hle' (fun c => ?_) c
    exact ih (fun j hj => turn j (Nat.lt_succ_of_lt hj)) hle hle' c

/-- A list takes a comma for each further thing. -/
theorem progresses_separatedFrom {one one' : Parser α} (h : Progresses 0 n 1 one one')
    {fuel fuel' : Nat} (hfuel : n ≤ fuel) (hfuel' : n ≤ fuel') (seen : List α) :
    Progresses 0 n 0 (separatedFrom one fuel seen) (separatedFrom one' fuel' seen) := by
  refine progresses_loop (fun j hj fuel fuel' _ _ ih seen => ?_) hfuel hfuel' seen
  exact .accept_ite ((h.of_le (Nat.le_of_lt hj)).bind fun x => ih (x :: seen)) (progresses_pure _)

end

end Parser

namespace Grammar

open MiniC.Parser

variable {m n k : Nat} {expr expr' : Parser Expr} {fuel fuel' : Nat}

/-! ### Operators and types -/

theorem looks_operator? {α : Type} (ops : List (Fixed × α)) :
    Looks (operator? ops) fun s => s.peekFixed.bind fun f => List.lookup f ops :=
  ⟨fun _ => rfl, fun s => ⟨_, .bind (.basic .peekFixed s) (.basic (.pure _) s)⟩⟩

/-- An operator that is seen is there to be taken. -/
theorem progresses_operator?_bind {α β : Type} {ops : List (Fixed × α)}
    {f f' : Option α → Parser β}
    (hf : ∀ next, Progresses next.isSome.toNat n k (f next) (f' next)) :
    Progresses m n k (operator? ops >>= f) (operator? ops >>= f') := by
  refine (looks_operator? ops).bind (fun next => next.isSome.toNat)
    (fun s _ => Nat.le_trans ?_ s.peekFixed_isSome_le) hf
  cases s.peekFixed with
  | none => exact Nat.le_refl _
  | some f => exact Bool.toNat_le _

theorem looks_startsDeclaration : Looks startsDeclaration fun s =>
    (baseType? s.peekFixed).isSome || s.peekFixed == some .kwExtern :=
  ⟨fun _ => rfl, fun s => ⟨_, .bind (.basic .peekFixed s) (.basic (.pure _) s)⟩⟩

theorem looks_startsCast : Looks startsCast fun s =>
    s.startsWith .lparen && (baseType? s.advance.peekFixed).isSome :=
  ⟨fun _ => rfl, fun s => ⟨_, .startsCast s⟩⟩

theorem progresses_baseType : Progresses m n 1 baseType baseType := by
  refine .peekFixed_bind fun next => ?_
  cases hbase : baseType? next with
  | none => exact progresses_fail fun _ => nofun
  | some base =>
    -- No base type is seen at the mark of the end.
    cases next with
    | none => cases hbase
    | some f => exact progresses_advance.bind fun _ => progresses_pure _

theorem progresses_typeName : Progresses m n 1 typeName typeName :=
  progresses_baseType.bind fun _ => progresses_stars.bind fun _ => progresses_pure _

/-! ### Binary operators -/

/-- A chain takes an operator for each further operand. -/
theorem progresses_chainFrom {operand operand' : Parser Expr}
    (h : Progresses 0 n 1 operand operand') (ops : List (Fixed × BinaryOp)) (hfuel : n ≤ fuel)
    (hfuel' : n ≤ fuel') (left : Expr) :
    Progresses 0 n 0 (chainFrom operand ops fuel left) (chainFrom operand' ops fuel' left) := by
  refine progresses_loop (fun j hj fuel fuel' _ _ ih left => ?_) hfuel hfuel' left
  refine .location_bind fun loc => progresses_operator?_bind fun next => ?_
  cases next with
  | none => exact progresses_pure _
  | some op =>
    exact progresses_advance.bind_lt fun _ => (h.of_le (Nat.le_of_lt hj)).bind fun right =>
      (progresses_make loc _).bind fun joined => ih joined

theorem progresses_chains {operand operand' : Parser Expr} (h : Progresses 0 n 1 operand operand')
    (hfuel : n ≤ fuel) (hfuel' : n ≤ fuel') (levels : List (List (Fixed × BinaryOp))) :
    Progresses 0 n 1 (chains fuel operand levels) (chains fuel' operand' levels) := by
  induction levels with
  | nil => exact h
  | cons ops tighter ih =>
    exact ih.bind fun left => progresses_chainFrom ih ops hfuel hfuel' left

theorem progresses_assignment {target target' value value' : Parser Expr}
    (ht : Progresses 0 (n + 1) 1 target target') (hv : Progresses 0 n 1 value value') :
    Progresses 0 (n + 1) 1 (assignment target value) (assignment target' value') := by
  refine ht.bind_lt fun left => .location_bind fun loc => progresses_operator?_bind fun next => ?_
  cases next with
  | none => exact progresses_pure _
  | some op =>
    exact progresses_advance.bind fun _ => hv.bind fun right => progresses_make loc _

/-! ### Operands -/

theorem progresses_arguments (h : Progresses 0 n 1 expr expr') (hfuel : n ≤ fuel)
    (hfuel' : n ≤ fuel') : Progresses 0 n 0 (arguments expr fuel) (arguments expr' fuel') :=
  .check_ite (progresses_pure _) (h.bind fun e => progresses_separatedFrom h hfuel hfuel' [e])

theorem progresses_primary (h : Progresses 0 n 1 expr expr') :
    Progresses 0 (n + 1) 1 (primary expr) (primary expr') := by
  refine .location_bind fun loc => .peek_bind fun next => ?_
  rcases next with _ | v | v | v | name | symbol
  · exact progresses_fail fun _ => nofun
  · exact progresses_advance.bind_lt fun _ => progresses_make loc _
  · exact progresses_advance.bind_lt fun _ => progresses_make loc _
  · exact progresses_advance.bind_lt fun _ => progresses_make loc _
  · exact progresses_advance.bind_lt fun _ => progresses_make loc _
  · -- Of all symbols, only a parenthesis begins an operand.
    cases symbol with
    | lparen =>
      exact progresses_advance.bind_lt fun _ => h.bind fun e =>
        (progresses_expect _ _).bind fun _ => progresses_pure e
    | _ => exact progresses_fail fun _ => nofun

/-- Behind an operand, each operator takes a token. -/
theorem progresses_postfixFrom (h : Progresses 0 n 1 expr expr') (hfuel : n ≤ fuel)
    (hfuel' : n ≤ fuel') (e : Expr) :
    Progresses 0 n 0 (postfixFrom expr fuel e) (postfixFrom expr' fuel' e) := by
  refine progresses_loop (fun j hj fuel fuel' hle hle' ih e => ?_) hfuel hfuel' e
  have h' : Progresses 0 j 1 expr expr' := h.of_le (Nat.le_of_lt hj)
  refine .location_bind fun loc => .peekFixed_bind fun next => ?_
  split
  · exact progresses_advance.bind_lt fun _ => (progresses_make loc _).bind ih
  · exact progresses_advance.bind_lt fun _ => (progresses_make loc _).bind ih
  · exact progresses_advance.bind_lt fun _ => h'.bind fun index => (progresses_expect _ _).bind
      fun _ => (progresses_make loc _).bind ih
  · refine progresses_advance.bind_lt fun _ => (progresses_arguments h' hle hle').bind fun args =>
      (progresses_expect _ _).bind fun _ => ?_
    -- Both parsers see the same operand, and only a name is called.
    split
    · exact (progresses_make _ _).bind ih
    · exact progresses_failAt loc nofun
  · exact progresses_pure _

theorem progresses_sizeofOperand : Progresses m n 1 sizeofOperand sizeofOperand :=
  (progresses_expect _ _).bind fun _ => looks_startsDeclaration.ite (fun _ hs _ => hs)
    (progresses_typeName.bind fun t => (progresses_expect _ _).bind fun _ => progresses_pure t)
    (progresses_fail fun _ => nofun)

section

variable {operand operand' : Parser Expr} (he : Progresses 0 n 1 expr expr')
  (ho : Progresses 0 n 1 operand operand') (hfuel : n ≤ fuel) (hfuel' : n ≤ fuel')

include he ho hfuel hfuel'

theorem progresses_unary :
    Progresses 0 (n + 1) 1 (unary expr operand fuel) (unary expr' operand' fuel') := by
  refine .location_bind fun loc => progresses_operator?_bind fun next => ?_
  cases next with
  | some op =>
    exact progresses_advance.bind_lt fun _ => ho.bind fun e => progresses_make loc _
  | none =>
    refine .accept_ite ho.forget ?_
    refine .accept_ite (progresses_sizeofOperand.bind fun t => progresses_make loc _) ?_
    exact (progresses_primary he).bind_lt fun e => progresses_postfixFrom he hfuel hfuel' e

theorem progresses_cast :
    Progresses 0 (n + 1) 1 (cast expr operand fuel) (cast expr' operand' fuel') := by
  refine looks_startsCast.ite (l := 1) (fun s _ hs => ?_) ?_
    (progresses_unary he ho hfuel hfuel')
  · have hlength := State.length_rest_advance (Bool.and_eq_true_iff.1 hs).1
    omega
  · exact .location_bind fun loc => progresses_advance.bind_lt fun _ =>
      progresses_typeName.bind fun t => (progresses_expect _ _).bind fun _ => ho.bind fun e =>
        progresses_make loc _

end

/-! ### The knot -/

/-- Expressions and their operands.  From an expression to one in it the recursion goes down by two,
through an operand, and a token is taken on the way. -/
theorem progresses_within (n : Nat) : ∀ fuel fuel',
    (2 * n ≤ fuel → 2 * n ≤ fuel' →
      Progresses 0 n 1 (expressionWithin fuel) (expressionWithin fuel')) ∧
    (2 * n ≤ fuel + 1 → 2 * n ≤ fuel' + 1 →
      Progresses 0 n 1 (castWithin fuel) (castWithin fuel')) := by
  induction n with
  | zero =>
    exact fun _ _ => ⟨fun _ _ s _ hs => absurd hs (Nat.not_lt_zero _),
      fun _ _ s _ hs => absurd hs (Nat.not_lt_zero _)⟩
  | succ n ih =>
    have hcast : ∀ fuel fuel', 2 * (n + 1) ≤ fuel + 1 → 2 * (n + 1) ≤ fuel' + 1 →
        Progresses 0 (n + 1) 1 (castWithin fuel) (castWithin fuel') := by
      intro fuel fuel' hfuel hfuel'
      obtain ⟨fuel, rfl⟩ : ∃ f, fuel = f + 1 := ⟨fuel - 1, by omega⟩
      obtain ⟨fuel', rfl⟩ : ∃ f, fuel' = f + 1 := ⟨fuel' - 1, by omega⟩
      exact progresses_cast ((ih fuel fuel').1 (by omega) (by omega))
        ((ih fuel fuel').2 (by omega) (by omega)) (by omega) (by omega)
    refine fun fuel fuel' => ⟨fun hfuel hfuel' => ?_, hcast fuel fuel'⟩
    obtain ⟨fuel, rfl⟩ : ∃ f, fuel = f + 1 := ⟨fuel - 1, by omega⟩
    obtain ⟨fuel', rfl⟩ : ∃ f, fuel' = f + 1 := ⟨fuel' - 1, by omega⟩
    exact progresses_assignment
      (progresses_chains (hcast fuel fuel' (by omega) (by omega)) (by omega) (by omega) _)
      ((ih fuel fuel').1 (by omega) (by omega))

theorem progresses_expressionWithin (hfuel : 2 * n ≤ fuel) (hfuel' : 2 * n ≤ fuel') :
    Progresses 0 n 1 (expressionWithin fuel) (expressionWithin fuel') :=
  (progresses_within n fuel fuel').1 hfuel hfuel'

end Grammar

end MiniC
