import MiniC.Grammar.Expression
import MiniC.Printer

/-!
# Reading given tokens

What parsers do on tokens that are known: a parser reads some tokens, before certain others, if it
succeeds wherever these tokens are left, takes just the first ones of them, and yields a result with
a given property.  What stands behind matters, because parsers look at it to see where to stop.

Main definitions:

* `MiniC.Parser.State.kinds`, `MiniC.headFixed`: the tokens that are left, and the first of them;
* `MiniC.Parser.Reads`: a parser reads some tokens before others.

Main results:

* `MiniC.Parser.Reads.bind`: a parser after another one reads what follows;
* `MiniC.Parser.reads_separated`: a list with commas is read if its things are.
-/

set_option autoImplicit false

namespace MiniC

/-- The first token, if it has a fixed spelling. -/
def headFixed : List Token.Kind → Option Fixed
  | .fixed f :: _ => some f
  | _ => none

@[simp] theorem headFixed_cons (f : Fixed) (ks : List Token.Kind) :
    headFixed (.fixed f :: ks) = some f := rfl

@[simp] theorem headFixed_ident (name : String) (ks : List Token.Kind) :
    headFixed (.ident name :: ks) = none := rfl

theorem exists_eq_of_headFixed {ks : List Token.Kind} {f : Fixed} (h : headFixed ks = some f) :
    ∃ more, ks = .fixed f :: more := by
  unfold headFixed at h
  split at h
  · next g more =>
    cases h
    exact ⟨more, rfl⟩
  · cases h

namespace Parser

/-- The tokens that are left, without their locations. -/
def State.kinds (s : State) : List Token.Kind := s.rest.map Token.kind

theorem State.peekFixed_eq (s : State) : s.peekFixed = headFixed s.kinds := by
  obtain ⟨rest, finish, next, ds⟩ := s
  rcases rest with _ | ⟨⟨kind, loc⟩, rest⟩
  · rfl
  · cases kind <;> rfl

theorem State.peek_eq (s : State) : s.peek = s.kinds.head? := by
  obtain ⟨rest, finish, next, ds⟩ := s
  cases rest <;> rfl

theorem State.kinds_advance (s : State) : s.advance.kinds = s.kinds.tail := List.map_tail

variable {α β : Type} {ks ks' rest : List Token.Kind}

/-- The parser reads the tokens `ks` before the tokens `rest`, with a result that has the property
`P`. -/
def Reads (x : Parser α) (ks rest : List Token.Kind) (P : α → Prop) : Prop :=
  ∀ s, s.kinds = ks ++ rest → ∃ a s', x s = .ok (a, s') ∧ s'.rest = s.rest.drop ks.length ∧ P a

/-- Behind the tokens that are taken, the others are left. -/
theorem kinds_of_drop {s s' : State} (hs : s.kinds = ks ++ rest)
    (hs' : s'.rest = s.rest.drop ks.length) : s'.kinds = rest := by
  have hmap := congrArg (List.drop ks.length) hs
  rw [List.drop_left] at hmap
  rw [State.kinds, hs', List.map_drop]
  exact hmap

namespace Reads

variable {x : Parser α} {f : α → Parser β} {P P' : α → Prop} {Q : β → Prop}

/-- A parser after another one reads what follows. -/
theorem bind (hx : Reads x ks (ks' ++ rest) P) (hf : ∀ a, P a → Reads (f a) ks' rest Q) :
    Reads (x >>= f) (ks ++ ks') rest Q := by
  intro s hs
  rw [List.append_assoc] at hs
  obtain ⟨a, s₁, ha, hs₁, hP⟩ := hx s hs
  obtain ⟨b, s', hb, hs', hQ⟩ := hf a hP s₁ (kinds_of_drop hs hs₁)
  refine ⟨b, s', (bind_of_ok ha f).trans hb, ?_, hQ⟩
  rw [hs', hs₁, List.drop_drop, List.length_append]

/-- A parser that takes one token. -/
theorem bind_cons {k : Token.Kind} (hx : Reads x [k] (ks ++ rest) P)
    (hf : ∀ a, P a → Reads (f a) ks rest Q) : Reads (x >>= f) (k :: ks) rest Q := by
  rw [← List.singleton_append]
  exact bind hx hf

/-- A parser that takes no token. -/
theorem bind_nil (hx : Reads x [] (ks ++ rest) P) (hf : ∀ a, P a → Reads (f a) ks rest Q) :
    Reads (x >>= f) ks rest Q := by
  rw [← List.nil_append ks]
  exact bind hx hf

/-- A parser behind which no further token is taken. -/
theorem bind_end (hx : Reads x ks rest P) (hf : ∀ a, P a → Reads (f a) [] rest Q) :
    Reads (x >>= f) ks rest Q := by
  rw [← List.append_nil ks]
  exact bind hx hf

theorem mono (hx : Reads x ks rest P) (h : ∀ a, P a → P' a) : Reads x ks rest P' := by
  intro s hs
  obtain ⟨a, s', ha, hs', hP⟩ := hx s hs
  exact ⟨a, s', ha, hs', h a hP⟩

end Reads

/-! ### Tokens -/

theorem reads_pure {a : α} {P : α → Prop} (h : P a) : Reads (pure a : Parser α) [] rest P :=
  fun s _ => ⟨a, s, rfl, rfl, h⟩

/-- A parser that only looks at the tokens takes none. -/
theorem reads_of_looks {x : Parser α} (look : List Token.Kind → α)
    (hx : ∀ s, x s = .ok (look s.kinds, s)) : Reads x [] rest (· = look rest) :=
  fun s hs => ⟨_, s, hx s, rfl, congrArg look hs⟩

theorem reads_location : Reads location [] rest fun _ => True :=
  fun s _ => ⟨_, s, rfl, rfl, trivial⟩

theorem reads_peek : Reads peek [] rest (· = rest.head?) :=
  reads_of_looks List.head? fun s => by rw [← s.peek_eq]; rfl

theorem reads_peekFixed : Reads peekFixed [] rest (· = headFixed rest) :=
  reads_of_looks headFixed fun s => by rw [← s.peekFixed_eq]; rfl

theorem reads_check (f : Fixed) : Reads (check f) [] rest (· = (headFixed rest == some f)) :=
  reads_of_looks (headFixed · == some f) fun s => by rw [← s.peekFixed_eq]; rfl

theorem reads_check_head (f : Fixed) : Reads (check f) [] (.fixed f :: rest) (· = true) :=
  (reads_check f).mono fun _ hb => hb.trans (beq_self_eq_true _)

theorem reads_check_of_ne {f : Fixed} (h : headFixed rest ≠ some f) :
    Reads (check f) [] rest (· = false) :=
  (reads_check f).mono fun _ hb => hb.trans (beq_false_of_ne h)

theorem reads_advance (k : Token.Kind) : Reads advance [k] rest fun _ => True :=
  fun s _ => ⟨(), s.advance, rfl, List.drop_one.symm, trivial⟩

theorem reads_accept (f : Fixed) : Reads (accept f) [.fixed f] rest (· = true) := by
  intro s hs
  have hpeek : s.peekFixed = some f := by rw [s.peekFixed_eq, hs]; rfl
  exact ⟨true, s.advance, accept_of_eq hpeek, List.drop_one.symm, rfl⟩

theorem reads_accept_of_ne {f : Fixed} (h : headFixed rest ≠ some f) :
    Reads (accept f) [] rest (· = false) := by
  intro s hs
  have hpeek : s.peekFixed ≠ some f := by rwa [s.peekFixed_eq, hs]
  exact ⟨false, s, accept_of_ne hpeek, rfl, rfl⟩

theorem reads_expect (f : Fixed) (context : String) :
    Reads (expect f context) [.fixed f] rest fun _ => True := by
  intro s hs
  have hpeek : s.peekFixed = some f := by rw [s.peekFixed_eq, hs]; rfl
  exact ⟨(), s.advance, expect_of_eq context hpeek, List.drop_one.symm, trivial⟩

theorem reads_identifier (name : String) :
    Reads identifier [.ident name] rest fun r => r.1 = name := by
  intro s hs
  obtain ⟨us, finish, next, ds⟩ := s
  obtain ⟨⟨kind, loc⟩, more, rfl, rfl, -⟩ := List.map_eq_cons_iff.1 hs
  exact ⟨(name, loc), _, rfl, rfl, rfl⟩

/-- Stars are taken as far as they go. -/
theorem reads_stars (n : Nat) (h : headFixed rest ≠ some .star) :
    Reads stars (starTokens n) rest (· = n) := by
  intro s hs
  obtain ⟨us, us', hrest, hus, hus'⟩ := List.map_eq_append_iff.1 hs
  have hstar : ∀ t ∈ us, (t.kind == .fixed .star) = true := by
    intro t ht
    have hmem := List.mem_map_of_mem (f := Token.kind) ht
    rw [hus] at hmem
    exact beq_iff_eq.2 (List.eq_of_mem_replicate hmem)
  have hlength : us.length = n := by
    rw [← List.length_map (f := Token.kind), hus, starTokens, List.length_replicate]
  have hstop : us'.takeWhile (fun t => t.kind == .fixed .star) = [] := by
    cases us' with
    | nil => rfl
    | cons t more =>
      refine List.takeWhile_cons_of_neg fun ht => h ?_
      rw [← hus', List.map_cons, beq_iff_eq.1 ht]
      rfl
  have htake : (s.rest.takeWhile fun t => t.kind == .fixed .star) = us := by
    rw [hrest, List.takeWhile_append_of_pos hstar, hstop, List.append_nil]
  refine ⟨_, _, rfl, ?_, ?_⟩
  · have hsplit := List.takeWhile_append_dropWhile (p := fun t : Token => t.kind == .fixed .star)
      (l := s.rest)
    rw [htake] at hsplit
    rw [starTokens, List.length_replicate, ← hlength]
    conv => rhs; rw [← hsplit, List.drop_left]
  · exact (congrArg List.length htake).trans hlength

theorem reads_make {loc : Location} {e : Node → Expr} {P : Expr → Prop}
    (h : ∀ id, P (e ⟨id, loc, none⟩)) : Reads (make loc e) [] rest P :=
  fun s _ => ⟨_, _, rfl, rfl, h s.nextNode⟩

theorem reads_declare (d : Declaration) : Reads (declare d) [] rest fun _ => True :=
  fun _ _ => ⟨_, _, rfl, rfl, trivial⟩

/-! ### The tokens of lists -/

section

variable {print : α → List Token.Kind} {x : α} {xs : List α}

/-- The tokens of a list are at least as many as its things, if each of them has one. -/
theorem length_le_length_flatMap (h : ∀ x ∈ xs, 0 < (print x).length) :
    xs.length ≤ (xs.flatMap print).length := by
  induction xs with
  | nil => exact Nat.zero_le _
  | cons x xs ih =>
    obtain ⟨hx, hxs⟩ := List.forall_mem_cons.1 h
    have hle := ih hxs
    rw [List.flatMap_cons, List.length_append, List.length_cons]
    omega

/-- Each thing of a list has at most as many tokens as the list. -/
theorem length_le_flatMap_of_mem (print : α → List Token.Kind) (h : x ∈ xs) :
    (print x).length ≤ (xs.flatMap print).length := by
  obtain ⟨before, behind, rfl⟩ := List.append_of_mem h
  rw [List.flatMap_append, List.length_append, List.flatMap_cons, List.length_append]
  omega

theorem separated_map_cons (print : α → List Token.Kind) (x : α) (xs : List α) :
    separated ((x :: xs).map print) = print x ++ xs.flatMap fun y => .fixed .comma :: print y := by
  rw [List.map_cons, separated, List.flatMap_map]

theorem length_le_length_separated (h : ∀ x ∈ xs, 0 < (print x).length) :
    xs.length ≤ (separated (xs.map print)).length := by
  cases xs with
  | nil => exact Nat.zero_le _
  | cons x xs =>
    obtain ⟨hx, -⟩ := List.forall_mem_cons.1 h
    have hxs : xs.length ≤ (xs.flatMap fun y => .fixed .comma :: print y).length :=
      length_le_length_flatMap fun y _ => Nat.succ_pos _
    rw [separated_map_cons, List.length_append, List.length_cons]
    omega

theorem length_le_separated_of_mem (h : x ∈ xs) :
    (print x).length ≤ (separated (xs.map print)).length := by
  cases xs with
  | nil => cases h
  | cons y ys =>
    rw [separated_map_cons, List.length_append]
    rcases List.mem_cons.1 h with rfl | h
    · exact Nat.le_add_right _ _
    · have hle := length_le_flatMap_of_mem (fun y => .fixed .comma :: print y) h
      rw [List.length_cons] at hle
      omega

end

/-! ### Lists behind commas -/

/-- Where no comma follows, a list is at its end. -/
theorem reads_separatedFrom_nil {one : Parser α} (hend : headFixed rest ≠ some .comma) (fuel : Nat)
    (seen : List α) : Reads (separatedFrom one fuel seen) [] rest (· = seen.reverse) := by
  cases fuel with
  | zero => exact reads_pure rfl
  | succ fuel =>
    refine (reads_accept_of_ne hend).bind_nil fun b hb => ?_
    rw [hb]
    exact reads_pure rfl

/-- What the list parsers read behind the first thing of a list: commas, each with a thing behind
it.  `erase` forgets what reading does not bring back, and `Good` says what a thing may stand
before. -/
theorem reads_separatedFrom {γ : Type} {one : Parser α} {print : α → List Token.Kind}
    {erase : α → γ} {Good : List Token.Kind → Prop} (hcomma : ∀ more, Good (.fixed .comma :: more))
    (hrest : Good rest) (hend : headFixed rest ≠ some .comma) {xs : List α}
    (hone : ∀ x ∈ xs, ∀ more, Good more → Reads one (print x) more fun y => erase y = erase x)
    {fuel : Nat} (hfuel : xs.length ≤ fuel) (seen : List α) :
    Reads (separatedFrom one fuel seen) (xs.flatMap fun x => .fixed .comma :: print x) rest
      fun r => r.map erase = seen.reverse.map erase ++ xs.map erase := by
  induction xs generalizing fuel seen with
  | nil =>
    refine (reads_separatedFrom_nil hend fuel seen).mono fun r hr => ?_
    rw [hr, List.map_nil, List.append_nil]
  | cons x xs ih =>
    cases fuel with
    | zero => cases hfuel
    | succ fuel =>
      refine (reads_accept .comma).bind_cons fun b hb => ?_
      rw [hb]
      obtain ⟨hx, hxs⟩ := List.forall_mem_cons.1 hone
      have hmore : Good ((xs.flatMap fun x => .fixed .comma :: print x) ++ rest) := by
        cases xs with
        | nil => exact hrest
        | cons y ys => exact hcomma _
      refine (hx _ hmore).bind fun y hy => ?_
      refine (ih hxs (Nat.le_of_succ_le_succ hfuel) (y :: seen)).mono fun r hr => ?_
      rw [hr, List.reverse_cons, List.map_append, List.append_assoc, List.map_cons,
        List.map_cons, hy]
      rfl

/-- What the list parsers read as a whole: a first thing, and those behind commas. -/
theorem reads_separated {γ : Type} {one : Parser α} {print : α → List Token.Kind}
    {erase : α → γ} {Good : List Token.Kind → Prop} (hcomma : ∀ more, Good (.fixed .comma :: more))
    (hrest : Good rest) (hend : headFixed rest ≠ some .comma) {x : α} {xs : List α}
    (hone : ∀ y ∈ x :: xs, ∀ more, Good more → Reads one (print y) more fun z => erase z = erase y)
    {fuel : Nat} (hfuel : xs.length ≤ fuel) :
    Reads (do
      let first ← one
      separatedFrom one fuel [first]) (separated ((x :: xs).map print)) rest
      fun r => r.map erase = (x :: xs).map erase := by
  obtain ⟨hx, hxs⟩ := List.forall_mem_cons.1 hone
  have hmore : Good ((xs.flatMap fun x => .fixed .comma :: print x) ++ rest) := by
    cases xs with
    | nil => exact hrest
    | cons => exact hcomma _
  rw [separated_map_cons]
  refine Reads.bind (hx _ hmore) fun first hfirst =>
    (reads_separatedFrom hcomma hrest hend hxs hfuel [first]).mono fun r hr => ?_
  rw [hr, List.map_cons, ← hfirst]
  rfl

end Parser

end MiniC
