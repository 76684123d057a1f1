import Mathlib.Data.List.TakeWhile
import MiniC.Token.Lexer

/-!
# What stands between tokens

A gap is a row of blanks, comments and directives.  Where each of them ends is said here without
the lexer: a comment of one line and a directive end in front of the next newline, or with the text;
a block comment ends with the first `*/` behind its opening.

Main definitions:

* `MiniC.Gap.Piece`, `MiniC.Gap.Spans`: pieces of gaps, and gaps, in front of what follows them;
* `MiniC.Gap.Begins`: a text begins like a gap.

Main results:

* `MiniC.Gap.first_eq_piece_iff`: the lexer takes just the pieces of gaps;
* `MiniC.Gap.first_eq_none_iff`: it takes nothing where no gap begins;
* `MiniC.Tokens.scan_gap`: the lexer passes a gap.
-/

set_option autoImplicit false

namespace MiniC

namespace Gap

/-! ### Pieces -/

/-- What follows is a newline, or nothing at all. -/
def AtLineEnd (rest : List Char) : Prop := ∀ c ∈ rest.head?, c = '\n'

/-- The text is a blank, a comment or a directive, if `rest` follows it. -/
inductive Piece : List Char → List Char → Prop
  | blank {c : Char} {rest : List Char} : Blank.isAscii c = true → Piece [c] rest
  | directive {text rest : List Char} : '\n' ∉ text → AtLineEnd rest → Piece ('#' :: text) rest
  | comment {text rest : List Char} :
      '\n' ∉ text → AtLineEnd rest → Piece ('/' :: '/' :: text) rest
  /-- Nothing in front of the last two characters closes the comment. -/
  | block {inner rest : List Char} :
      ¬['*', '/'] <:+: inner → Piece ('/' :: '*' :: (inner ++ ['*', '/'])) rest

/-- A text begins with a blank, or like a comment or a directive. -/
inductive Begins : List Char → Prop
  | blank {c : Char} {cs : List Char} : Blank.isAscii c = true → Begins (c :: cs)
  | directive {cs : List Char} : Begins ('#' :: cs)
  | comment {cs : List Char} : Begins ('/' :: '/' :: cs)
  | block {cs : List Char} : Begins ('/' :: '*' :: cs)

/-! ### Lines and block comments -/

/-- The longest run of certain elements that a list begins with: all of them are such elements, and
none follows. -/
theorem takeWhile_dropWhile_eq_iff {α : Type} {p : α → Bool} {xs run rest : List α} :
    xs.takeWhile p = run ∧ xs.dropWhile p = rest ↔
      run ++ rest = xs ∧ (∀ x ∈ run, p x = true) ∧ ∀ x ∈ rest.head?, p x = false := by
  constructor
  · rintro ⟨rfl, rfl⟩
    refine ⟨List.takeWhile_append_dropWhile, fun x => List.mem_takeWhile_imp, fun x hx => ?_⟩
    have hhead := List.head?_dropWhile_not p xs
    rw [Option.mem_def.1 hx] at hhead
    exact hhead
  · rintro ⟨rfl, hrun, hrest⟩
    have hstop : rest.takeWhile p = [] ∧ rest.dropWhile p = rest := by
      cases rest with
      | nil => exact ⟨rfl, rfl⟩
      | cons x rest => simp [hrest x rfl]
    rw [List.takeWhile_append_of_pos hrun, List.dropWhile_append_of_pos hrun, hstop.1, hstop.2,
      List.append_nil]
    exact ⟨rfl, rfl⟩

/-- A line goes on until a newline, or to the end of the text. -/
theorem line_eq_piece_iff {cs text rest : List Char} :
    line cs = piece text rest ↔ text ++ rest = cs ∧ '\n' ∉ text ∧ AtLineEnd rest := by
  rw [line, Gap.piece.injEq, takeWhile_dropWhile_eq_iff]
  have hmem : (∀ c ∈ text, decide (c ≠ '\n') = true) ↔ '\n' ∉ text := by
    simp only [decide_eq_true_eq]
    exact ⟨fun h hc => h _ hc rfl, fun h c hc hn => h (hn ▸ hc)⟩
  rw [hmem]
  simp [AtLineEnd]

/-- A line that is passed to its end goes on behind any first part of it. -/
theorem exists_eq_append_of_atLineEnd {p cs text rest : List Char} (h : text ++ rest = p ++ cs)
    (hp : '\n' ∉ p) (hr : AtLineEnd rest) : ∃ more, text = p ++ more := by
  rcases List.append_eq_append_iff.1 h with ⟨more, rfl, rfl⟩ | ⟨more, rfl, -⟩
  · cases more with
    | nil => exact ⟨[], by simp⟩
    | cons c more =>
      have hc : c = '\n' := hr c rfl
      exact absurd (by simp [hc]) hp
  · exact ⟨more, rfl⟩

/-- A block comment is closed by the first `*/`. -/
theorem splitClose?_eq_some_iff {cs closed rest : List Char} :
    splitClose? cs = some (closed, rest) ↔
      closed ++ rest = cs ∧ ∃ inner, closed = inner ++ ['*', '/'] ∧ ¬['*', '/'] <:+: inner := by
  constructor
  · intro h
    refine ⟨append_of_splitClose? h, ?_⟩
    fun_induction splitClose? cs generalizing closed rest with
    | case1 cs =>
      cases h
      exact ⟨[], rfl, by simp⟩
    | case2 c cs hne ih =>
      obtain ⟨⟨closed', rest'⟩, hclosed, hpair⟩ := Option.map_eq_some_iff.1 h
      obtain ⟨rfl, rfl⟩ := Prod.mk.inj hpair
      obtain ⟨inner, rfl, hinner⟩ := ih hclosed
      refine ⟨c :: inner, rfl, fun hinfix => ?_⟩
      rcases List.infix_cons_iff.1 hinfix with hprefix | hinfix
      · -- Then the text would have been closed at once.
        obtain ⟨tail, htail⟩ := hprefix
        have hcs := append_of_splitClose? hclosed
        injection htail with hstar hslash
        rw [← hslash] at hcs
        exact hne _ hstar.symm hcs.symm
      · exact hinner hinfix
    | case3 => cases h
  · rintro ⟨rfl, inner, rfl, hinner⟩
    induction inner with
    | nil => rfl
    | cons c inner ih =>
      have hinner' : ¬['*', '/'] <:+: inner := fun h => hinner (List.infix_cons h)
      have hne : ∀ cs, c = '*' → inner ++ ['*', '/'] ++ rest = '/' :: cs → False := by
        rintro cs rfl hcs
        cases inner with
        | nil => simp at hcs
        | cons d inner =>
          have hd : d = '/' := (List.cons.inj hcs).1
          exact hinner ⟨[], inner, by simp [hd]⟩
      rw [List.cons_append, List.cons_append, splitClose?, ih hinner']
      · rfl
      · exact hne

/-! ### What the lexer takes -/

/-- The lexer takes just the pieces of gaps. -/
theorem first_eq_piece_iff {cs text rest : List Char} :
    first cs = piece text rest ↔ text ++ rest = cs ∧ Piece text rest := by
  constructor
  · intro h
    refine ⟨(first_piece h).1, ?_⟩
    unfold first at h
    split at h
    · obtain ⟨hcs, ht, hr⟩ := line_eq_piece_iff.1 h
      obtain ⟨more, rfl⟩ := exists_eq_append_of_atLineEnd (p := ['#']) hcs (by decide) hr
      exact .directive (by simpa using ht) hr
    · obtain ⟨hcs, ht, hr⟩ := line_eq_piece_iff.1 h
      obtain ⟨more, rfl⟩ := exists_eq_append_of_atLineEnd (p := ['/', '/']) hcs (by decide) hr
      exact .comment (by simpa using ht) hr
    · split at h
      · next hc =>
        obtain ⟨rfl, rfl⟩ := Gap.piece.inj h
        obtain ⟨-, inner, rfl, hinner⟩ := splitClose?_eq_some_iff.1 hc
        exact .block hinner
      · cases h
    · split at h
      · next hc =>
        obtain ⟨rfl, rfl⟩ := Gap.piece.inj h
        exact .blank hc
      · cases h
    · cases h
  · rintro ⟨rfl, h⟩
    cases h with
    | @blank c rest hc =>
      -- A blank is neither of the characters that comments and directives begin with.
      have hsharp : c = '#' → False := by rintro rfl; cases hc
      have hslash : c = '/' → False := by rintro rfl; cases hc
      rw [List.singleton_append, first, if_pos hc]
      · exact hsharp
      · exact fun _ h _ => hslash h
      · exact fun _ h _ => hslash h
    | @directive text rest ht hr =>
      exact line_eq_piece_iff.2 ⟨rfl, by simpa using ht, hr⟩
    | @comment text rest ht hr =>
      exact line_eq_piece_iff.2 ⟨rfl, by simpa using ht, hr⟩
    | @block inner rest hinner =>
      have hclose : splitClose? (inner ++ ['*', '/'] ++ rest) = some (inner ++ ['*', '/'], rest) :=
        splitClose?_eq_some_iff.2 ⟨rfl, inner, rfl, hinner⟩
      rw [List.cons_append, List.cons_append, first, hclose]

/-- The lexer takes nothing where no gap begins. -/
theorem first_eq_none_iff {cs : List Char} : first cs = none ↔ ¬Begins cs := by
  constructor
  · intro h hbegins
    cases hbegins with
    | @blank c cs hc =>
      have hpiece : first (c :: cs) = piece [c] cs := first_eq_piece_iff.2 ⟨rfl, .blank hc⟩
      rw [hpiece] at h
      cases h
    | directive => cases h
    | comment => cases h
    | block =>
      rw [first] at h
      split at h <;> cases h
  · intro h
    unfold first
    split
    · exact absurd .directive h
    · exact absurd .comment h
    · exact absurd .block h
    · next c cs _ _ _ =>
      have hc : ¬Blank.isAscii c = true := fun hc => h (.blank hc)
      rw [if_neg hc]
    · rfl

/-! ### Gaps -/

/-- The text is a row of pieces, if `rest` follows it. -/
inductive Spans : List Char → List Char → Prop
  | nil (rest : List Char) : Spans [] rest
  | cons {text more rest : List Char} :
      Piece text (more ++ rest) → Spans more rest → Spans (text ++ more) rest

/-- One gap behind another is a gap. -/
theorem Spans.append {gap more rest : List Char} (h : Spans gap (more ++ rest))
    (hmore : Spans more rest) : Spans (gap ++ more) rest := by
  generalize htail : more ++ rest = tail at h
  induction h with
  | nil _ => exact hmore
  | cons hpiece _ ih =>
    subst htail
    rw [List.append_assoc]
    exact .cons (by rwa [List.append_assoc]) (ih rfl)

end Gap

namespace Tokens

/-- The lexer passes a piece of a gap in one step. -/
theorem scan_piece {cs text rest : List Char} (h : Gap.first cs = .piece text rest) (fuel : Nat)
    (loc : Location) (seen : List Token) :
    scan (fuel + 1) loc seen cs = scan fuel (loc.after text) seen rest := by
  cases cs with
  | nil => cases h
  | cons c cs =>
    rw [scan, h]
    exact List.cons_ne_nil c cs

/-- The lexer passes a gap, and has enough fuel left for what follows. -/
theorem scan_gap {gap rest : List Char} (h : Gap.Spans gap rest) {fuel : Nat}
    (hfuel : (gap ++ rest).length ≤ fuel) (loc : Location) (seen : List Token) :
    ∃ fuel', rest.length ≤ fuel' ∧
      scan fuel loc seen (gap ++ rest) = scan fuel' (loc.after gap) seen rest := by
  induction h generalizing fuel loc with
  | nil rest => exact ⟨fuel, hfuel, rfl⟩
  | @cons text more rest hpiece _ ih =>
    have hfirst : Gap.first (text ++ (more ++ rest)) = .piece text (more ++ rest) :=
      Gap.first_eq_piece_iff.2 ⟨rfl, hpiece⟩
    have hpos : 0 < text.length := List.length_pos_iff.2 (Gap.first_piece hfirst).2
    obtain ⟨fuel, rfl⟩ : ∃ n, fuel = n + 1 := ⟨fuel - 1, by simp at hfuel; omega⟩
    have hle : (more ++ rest).length ≤ fuel := by
      simp only [List.length_append] at hfuel ⊢
      omega
    obtain ⟨fuel', hle', hscan⟩ := ih hle (loc.after text)
    refine ⟨fuel', hle', ?_⟩
    rw [List.append_assoc, scan_piece hfirst, hscan, Location.after_append]

end Tokens

end MiniC
