import Mathlib.Data.List.Induction
import MiniC.Proofs.Lexemes

/-!
# How the tokens of a text cover it

The lexer cuts a text into gaps and lexemes, one lexeme for every token, with nothing left over and
nothing taken twice.  Where a token is can be counted in the text in front of it: its newlines are
the lines, and the characters behind the last of them the columns.  The cut is said here without the
lexer, and the lexer finds just the texts that can be cut, with the tokens of the cut.

Main definitions:

* `MiniC.Location.behind`: the location behind a text, counted in it;
* `MiniC.Lexeme.Stands`: a lexeme stands in front of what follows it;
* `MiniC.Tokens.Covers`: a text is cut into gaps and the lexemes of tokens.

Main results:

* `MiniC.Tokens.scan_of_covers`, `MiniC.Tokens.covers_of_scan`: the lexer goes along the cut of a
  text, and along nothing else;
* `MiniC.Tokens.ofText_eq_ok_iff`: a text has tokens just if they cover it.
-/

set_option autoImplicit false

namespace MiniC

/-! ### Locations, counted -/

/-- The location behind a text: a line for every newline of it, and a column for every character
behind the last one. -/
def Location.behind (front : List Char) : Location :=
  ⟨1 + front.count '\n', 1 + (front.reverse.takeWhile (· ≠ '\n')).length⟩

/-- The location that is kept while passing a text is the one counted in it. -/
theorem Location.start_after (front : List Char) : Location.start.after front = behind front := by
  induction front using List.reverseRecOn with
  | nil => rfl
  | append_singleton front c ih =>
    rw [after_append, ih, after_cons, after_nil]
    by_cases hc : c = '\n'
    · subst hc
      simp [behind, Nat.add_assoc]
    · simp [behind, step_of_ne _ hc, hc, Nat.add_comm]

/-- Passing on from a counted location. -/
theorem Location.behind_append (front cs : List Char) :
    behind (front ++ cs) = (behind front).after cs := by
  rw [← start_after, ← start_after, after_append]

/-! ### Lexemes are no gaps -/

/-- A gap begins with a blank, a `#` or a slash. -/
theorem Gap.Begins.head {c : Char} {cs : List Char} (h : Gap.Begins (c :: cs)) :
    Blank.isAscii c = true ∨ c = '#' ∨ c = '/' := by
  cases h with
  | blank hc => exact .inl hc
  | directive => exact .inr (.inl rfl)
  | comment => exact .inr (.inr rfl)
  | block => exact .inr (.inr rfl)

/-- A character that a word or a number may hold begins no gap. -/
theorem Lexeme.not_begins_of_isWordPart {c : Char} (hc : isWordPart c = true) (cs : List Char) :
    ¬Gap.Begins (c :: cs) := by
  intro h
  rcases h.head with hb | rfl | rfl
  · simp only [Blank.isAscii, Bool.or_eq_true, beq_iff_eq] at hb
    rcases hb with (((rfl | rfl) | rfl) | rfl) | rfl <;> cases hc
  · cases hc
  · cases hc

theorem Lexeme.isWordPart_of_isDigit {c : Char} (hc : c.isDigit = true) : isWordPart c = true := by
  simp [isWordPart, Char.isAlphanum, hc]

/-- A lexeme does not begin like a gap. -/
theorem Lexeme.Denotes.not_begins {kind : Token.Kind} {text : List Char}
    (h : Denotes kind text) : ¬Gap.Begins text := by
  cases h with
  | int hne hdigits _ =>
    cases text with
    | nil => exact absurd rfl hne
    | cons c cs =>
      exact not_begins_of_isWordPart (isWordPart_of_isDigit (hdigits c List.mem_cons_self)) cs
  | ident hword _ =>
    cases text with
    | nil => exact hword.elim
    | cons c cs => exact not_begins_of_isWordPart (isWordPart_of_isWordStart hword.1) cs
  | fixed f =>
    have key : ∀ f ∈ Fixed.keywords ++ Fixed.operators, Gap.first f.spelling.toList = .none := by
      decide
    exact Gap.first_eq_none_iff.1 (key f (List.mem_append.2 f.mem_keywords_or_mem_operators))
  | char _ _ => exact fun h => absurd h.head (by decide)
  | string _ => exact fun h => absurd h.head (by decide)

theorem Lexeme.Denotes.text_ne_nil {kind : Token.Kind} {text : List Char}
    (h : Denotes kind text) : text ≠ [] := by
  cases h with
  | int hne _ _ => exact hne
  | ident hword _ => rintro rfl; exact hword
  | fixed f => exact spelling_ne_nil f
  | char _ _ => exact List.cons_ne_nil _ _
  | string _ => exact List.cons_ne_nil _ _

namespace Tokens

/-! ### One lexeme -/

/-- The lexer passes a lexeme in one step. -/
theorem scan_lexeme {kind : Token.Kind} {text rest : List Char} (h : Lexeme.Denotes kind text)
    (hmax : kind.IsMaximal rest) (hgap : ¬Gap.Begins (text ++ rest)) (fuel : Nat) (loc : Location)
    (seen : List Token) :
    scan (fuel + 1) loc seen (text ++ rest) =
      scan fuel (loc.after text) (⟨kind, loc⟩ :: seen) rest := by
  have hne : text ++ rest ≠ [] := List.append_ne_nil_of_left_ne_nil h.text_ne_nil rest
  rw [scan, Gap.first_eq_none_iff.2 hgap, Lexeme.first_of_denotes loc h hmax]
  exact hne

/-- A lexeme alone is the text of its token. -/
theorem ofChars_of_denotes {kind : Token.Kind} {text : List Char} (h : Lexeme.Denotes kind text) :
    ofChars text = .ok ⟨[⟨kind, .start⟩], .behind text⟩ := by
  obtain ⟨fuel, hfuel⟩ : ∃ n, text.length = n + 1 :=
    Nat.exists_eq_succ_of_ne_zero (List.length_pos_iff.2 h.text_ne_nil).ne'
  have hstep := scan_lexeme h kind.isMaximal_nil (by rw [List.append_nil]; exact h.not_begins)
    fuel .start []
  rw [List.append_nil] at hstep
  rw [ofChars, hfuel, hstep, ← Location.start_after]
  cases fuel <;> rfl

end Tokens

/-! ### The cut of a text -/

/-- The lexeme of a token of the given kind stands in front of `behind`. -/
structure Lexeme.Stands (kind : Token.Kind) (lexeme behind : List Char) : Prop where
  nonempty : lexeme ≠ []
  denotes : Lexeme.Denotes kind lexeme
  /-- As a text of its own, the lexeme has this one token. -/
  alone : ∃ one, Tokens.ofChars lexeme = .ok one ∧ one.list.map Token.kind = [kind]
  /-- The lexeme does not go on. -/
  maximal : kind.IsMaximal behind
  /-- It is not, together with what follows, the beginning of a comment. -/
  apart : ¬Gap.Begins (lexeme ++ behind)

/-- A lexeme that ends, and begins no comment, stands where it is. -/
theorem Lexeme.Denotes.stands {kind : Token.Kind} {lexeme behind : List Char}
    (h : Denotes kind lexeme) (hmax : kind.IsMaximal behind)
    (hgap : ¬Gap.Begins (lexeme ++ behind)) : Stands kind lexeme behind :=
  ⟨h.text_ne_nil, h, ⟨_, Tokens.ofChars_of_denotes h, rfl⟩, hmax, hgap⟩

namespace Tokens

/-- A text that stands behind `front` is cut into gaps and the lexemes of the given tokens, one in
front of the other; the locations of the tokens and of the end are those counted in the text. -/
inductive Covers : List Char → List Char → Tokens → Prop
  | finish {front last : List Char} : Gap.Spans last [] →
      Covers front last ⟨[], .behind (front ++ last)⟩
  | token {front gap lexeme behind : List Char} {kind : Token.Kind} {ts : Tokens} :
      Gap.Spans gap (lexeme ++ behind) → Lexeme.Stands kind lexeme behind →
      Covers (front ++ (gap ++ lexeme)) behind ts →
      Covers front (gap ++ (lexeme ++ behind))
        ⟨⟨kind, .behind (front ++ gap)⟩ :: ts.list, ts.finish⟩

/-- A gap may be longer by a piece in front. -/
theorem Covers.piece {front text cs : List Char} {ts : Tokens} (hpiece : Gap.Piece text cs)
    (h : Covers (front ++ text) cs ts) : Covers front (text ++ cs) ts := by
  cases h with
  | finish hlast =>
    rw [List.append_assoc]
    exact .finish (.cons (by rwa [List.append_nil]) hlast)
  | @token _ gap lexeme behind kind ts hgap hstands hrest =>
    rw [List.append_assoc, ← List.append_assoc text]
    refine .token (.cons hpiece hgap) hstands ?_
    rwa [List.append_assoc, ← List.append_assoc text] at hrest

/-- Behind a first part that is not empty there is less text. -/
theorem length_le_of_append {text rest : List Char} {c : Char} {cs : List Char} {n : Nat}
    (hcs : text ++ rest = c :: cs) (hne : text ≠ []) (hle : (c :: cs).length ≤ n + 1) :
    rest.length ≤ n := by
  have hpos := List.length_pos_iff.2 hne
  rw [← hcs, List.length_append] at hle
  omega

/-- The lexer goes along the cut of a text. -/
theorem scan_of_covers {front cs : List Char} {ts : Tokens} (h : Covers front cs ts) {fuel : Nat}
    (hfuel : cs.length ≤ fuel) (seen : List Token) :
    scan fuel (.behind front) seen cs = .ok ⟨seen.reverse ++ ts.list, ts.finish⟩ := by
  induction h generalizing fuel seen with
  | @finish front last hlast =>
    have hfuel' : (last ++ []).length ≤ fuel := by rwa [List.append_nil]
    obtain ⟨fuel', -, hscan⟩ := scan_gap hlast hfuel' (.behind front) seen
    rw [List.append_nil] at hscan
    rw [hscan, Location.behind_append, List.append_nil]
    cases fuel' <;> rfl
  | @token front gap lexeme behind kind ts hgap hstands _ ih =>
    obtain ⟨fuel', hle, hscan⟩ := scan_gap hgap hfuel (.behind front) seen
    have hpos := List.length_pos_iff.2 hstands.nonempty
    obtain ⟨fuel', rfl⟩ : ∃ n, fuel' = n + 1 := ⟨fuel' - 1, by simp at hle; omega⟩
    rw [hscan, scan_lexeme hstands.denotes hstands.maximal hstands.apart, ← Location.behind_append,
      ← Location.behind_append, List.append_assoc, ih (by simp at hle; omega)]
    simp

/-- Whatever the lexer accepts has been cut by it. -/
theorem covers_of_scan {fuel : Nat} {front cs : List Char} {seen : List Token} {ts : Tokens}
    (hfuel : cs.length ≤ fuel) (h : scan fuel (.behind front) seen cs = .ok ts) :
    ∃ more, Covers front cs more ∧ ts = ⟨seen.reverse ++ more.list, more.finish⟩ := by
  induction fuel generalizing front cs seen with
  | zero =>
    obtain rfl := List.eq_nil_of_length_eq_zero (Nat.le_zero.1 hfuel)
    cases h
    exact ⟨_, .finish (.nil []), by simp⟩
  | succ fuel ih =>
    cases cs with
    | nil =>
      cases h
      exact ⟨_, .finish (.nil []), by simp⟩
    | cons c cs =>
      rw [scan] at h
      · split at h
        · cases h
        · next text rest hfirst =>
          obtain ⟨hcs, hpiece⟩ := Gap.first_eq_piece_iff.1 hfirst
          have hle : rest.length ≤ fuel :=
            length_le_of_append hcs (Gap.first_piece hfirst).2 hfuel
          rw [← Location.behind_append] at h
          obtain ⟨more, hcovers, rfl⟩ := ih hle h
          exact ⟨more, hcs ▸ hcovers.piece hpiece, rfl⟩
        · next hfirst =>
          split at h
          · cases h
          · next x hx =>
            obtain ⟨hcs, hdenotes, hmax⟩ := Lexeme.first_eq_ok_iff.1 hx
            have hgap : ¬Gap.Begins (x.text ++ x.rest) := hcs ▸ Gap.first_eq_none_iff.1 hfirst
            have hle : x.rest.length ≤ fuel :=
              length_le_of_append hcs hdenotes.text_ne_nil hfuel
            rw [← Location.behind_append] at h
            obtain ⟨more, hcovers, rfl⟩ := ih hle h
            have hcut : Covers front ([] ++ (x.text ++ x.rest))
                ⟨⟨x.kind, .behind (front ++ [])⟩ :: more.list, more.finish⟩ :=
              .token (.nil _) (hdenotes.stands hmax hgap) hcovers
            rw [List.nil_append, hcs] at hcut
            exact ⟨_, hcut, by simp⟩
      · exact List.cons_ne_nil c cs

/-- A text has tokens just if they cover it. -/
theorem ofText_eq_ok_iff {source : String} {ts : Tokens} :
    ofText source = .ok ts ↔ Covers [] source.toList ts := by
  constructor
  · intro h
    have hscan : scan source.toList.length (.behind []) [] source.toList = .ok ts := h
    obtain ⟨more, hcovers, rfl⟩ := covers_of_scan (Nat.le_refl _) hscan
    exact hcovers
  · intro h
    exact scan_of_covers h (Nat.le_refl _) []

end Tokens

end MiniC
