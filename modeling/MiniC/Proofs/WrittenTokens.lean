import MiniC.Proofs.Coverage

/-!
# Writing tokens, and reading them back

Every token that a text can hold at all has a plain spelling: fixed tokens and identifiers stand for
themselves, numbers are written in decimal, characters by the hexadecimal code of their byte, and
strings as they are, but for a backslash in front of quotes and backslashes.  Between tokens may
stand anything that begins with a blank and goes on with blanks, comments and directives.  A text
that is written so reads back as the tokens it was written for.

Main definitions:

* `MiniC.Token.Kind.Writes`: the plain spellings of a token;
* `MiniC.Token.Kind.IsWritable`: the tokens that have one;
* `MiniC.Separator`: what may stand between tokens;
* `MiniC.WrittenToken`: a token, its spelling and the separator behind it.

Main results:

* `MiniC.Token.Kind.exists_writes_iff`: just the writable tokens have a spelling;
* `MiniC.Token.Kind.Writes.denotes`: a spelling is a lexeme of its token;
* `MiniC.Tokens.kinds_of_written`: written tokens read back.
-/

set_option autoImplicit false

namespace MiniC

/-! ### Spellings -/

/-- A character in a string literal, with a backslash where it needs one. -/
def escaped (c : Char) : List Char := if c = '"' ∨ c = '\\' then ['\\', c] else [c]

namespace Token.Kind

/-- The text is a plain spelling of the token. -/
inductive Writes : Token.Kind → List Char → Prop
  | fixed (f : Fixed) : Writes (.fixed f) f.spelling.toList
  | int {value : Int64} : 0 ≤ value.toInt → Writes (.int value) (Decimal.render value.toInt)
  | char {value : Int8} {high low : Char} : Hexadecimal.isDigit high = true →
      Hexadecimal.isDigit low = true → Hexadecimal.value [high, low] = value.toUInt8.toNat →
      Writes (.char value) ['\'', '\\', 'x', high, low, '\'']
  | string (text : String) : Writes (.string text) ('"' :: (text.toList.flatMap escaped ++ ['"']))
  | ident {name : String} : Lexeme.IsWord name.toList → Fixed.keyword? name = none →
      Writes (.ident name) name.toList

/-- The token has a spelling: a number is not negative, and an identifier is a word but no
keyword. -/
def IsWritable : Token.Kind → Prop
  | .int value => 0 ≤ value.toInt
  | .ident name => Lexeme.IsWord name.toList ∧ Fixed.keyword? name = none
  | .char _ => True
  | .string _ => True
  | .fixed _ => True

end Token.Kind

/-- The digit for a number below sixteen stands for that number. -/
theorem Hexadecimal.digit_digitChar {n : Nat} (h : n < 16) :
    isDigit n.digitChar = true ∧ digit n.digitChar = n := by
  have key : ∀ n < 16, isDigit n.digitChar = true ∧ digit n.digitChar = n := by decide
  exact key n h

/-- Every byte has a code of two digits. -/
theorem Hexadecimal.exists_pair {n : Nat} (h : n < 256) : ∃ high low,
    isDigit high = true ∧ isDigit low = true ∧ value [high, low] = n := by
  obtain ⟨hhigh, hhigh'⟩ := digit_digitChar (show n / 16 < 16 by omega)
  obtain ⟨hlow, hlow'⟩ := digit_digitChar (show n % 16 < 16 by omega)
  refine ⟨_, _, hhigh, hlow, ?_⟩
  simp only [value, List.foldl_cons, List.foldl_nil, hhigh', hlow']
  omega

/-- The character of a byte has that byte as its code. -/
theorem toNat_charOfNat {n : Nat} (h : n < 256) : (Char.ofNat n).toNat = n := by
  have hvalid : n.isValidChar := .inl (by omega)
  rw [Char.ofNat, dif_pos hvalid]
  rfl

namespace Token.Kind

/-- Just the writable tokens have a spelling. -/
theorem exists_writes_iff {kind : Token.Kind} : (∃ text, Writes kind text) ↔ kind.IsWritable := by
  constructor
  · rintro ⟨text, h⟩
    cases h with
    | fixed f => exact trivial
    | int hvalue => exact hvalue
    | char _ _ _ => exact trivial
    | string text => exact trivial
    | ident hword hname => exact ⟨hword, hname⟩
  · intro h
    cases kind with
    | int value => exact ⟨_, .int h⟩
    | char value =>
      obtain ⟨high, low, hhigh, hlow, hvalue⟩ :=
        Hexadecimal.exists_pair (UInt8.toNat_lt value.toUInt8)
      exact ⟨_, .char hhigh hlow hvalue⟩
    | string text => exact ⟨_, .string text⟩
    | ident name => exact ⟨_, .ident h.1 h.2⟩
    | fixed f => exact ⟨_, .fixed f⟩

/-- Escaped characters are read back as themselves. -/
theorem quotes_escaped (c : Char) (rest : List Char) :
    Quotes c (escaped c) rest ∧ escaped c ≠ ['"'] := by
  unfold escaped
  split
  · next h =>
    refine ⟨.escape ?_, by simp⟩
    rcases h with rfl | rfl <;> rfl
  · next h =>
    rw [not_or] at h
    exact ⟨.plain h.2, by simp [h.1]⟩

theorem body_flatMap_escaped (cs : List Char) :
    Lexeme.Body cs (cs.flatMap escaped ++ ['"']) := by
  induction cs with
  | nil => exact .nil
  | cons c cs ih =>
    rw [List.flatMap_cons, List.append_assoc]
    exact .cons (quotes_escaped c _).1 (quotes_escaped c []).2 ih

/-- A spelling is a lexeme of its token. -/
theorem Writes.denotes {kind : Token.Kind} {text : List Char} (h : Writes kind text) :
    Lexeme.Denotes kind text := by
  cases h with
  | fixed f => exact .fixed f
  | @int value hvalue =>
    obtain ⟨n, hn⟩ := Int.eq_ofNat_of_zero_le hvalue
    have hdenotes : Lexeme.Denotes (.int (Int64.ofNat (Decimal.value (Decimal.natText n))))
        (Decimal.natText n) := by
      refine .int (Decimal.natText_ne_nil n) (fun c => Decimal.isDigit_of_mem_natText) ?_
      rw [Decimal.value_natText, ← hn]
      exact Decimal.inRange_toInt value
    have hof : Int64.ofNat n = value := by
      rw [← Int64.ofInt_eq_ofNat, ← hn, Int64.ofInt_toInt]
    rw [Decimal.value_natText, hof] at hdenotes
    rw [hn]
    exact hdenotes
  | @char value high low hhigh hlow hvalue =>
    have hlt : Hexadecimal.value [high, low] < 256 := hvalue ▸ UInt8.toNat_lt value.toUInt8
    have hdigits : ∀ d ∈ [high, low], Hexadecimal.isDigit d = true := by
      simp [hhigh, hlow]
    have hquotes : Quotes (Char.ofNat (Hexadecimal.value [high, low]))
        ['\\', 'x', high, low] ['\''] :=
      .code (List.cons_ne_nil _ _) hdigits hlt fun d hd => by cases hd; rfl
    have hnat : (Char.ofNat (Hexadecimal.value [high, low])).toNat = value.toUInt8.toNat := by
      rw [toNat_charOfNat hlt, hvalue]
    have hdenotes := Lexeme.Denotes.char hquotes (hnat ▸ UInt8.toNat_lt value.toUInt8)
    rwa [hnat, UInt8.ofNat_toNat, Int8.toInt8_toUInt8] at hdenotes
  | string text =>
    have hdenotes := Lexeme.Denotes.string (body_flatMap_escaped text.toList)
    rwa [String.ofList_toList] at hdenotes
  | @ident name hword hname =>
    have hdenotes := Lexeme.Denotes.ident hword (by rwa [String.ofList_toList])
    rwa [String.ofList_toList] at hdenotes

end Token.Kind

/-! ### Separators -/

/-- A piece of a separator: a blank, a comment or directive with the newline behind it, or a closed
block comment. -/
inductive Separator.Piece where
  | blank (c : Char) (h : Blank.isAscii c = true)
  | comment (text : List Char) (h : '\n' ∉ text)
  | directive (text : List Char) (h : '\n' ∉ text)
  | block (inner : List Char) (h : ¬['*', '/'] <:+: inner)

/-- The text of a piece. -/
def Separator.Piece.text : Separator.Piece → List Char
  | blank c _ => [c]
  | comment text _ => '/' :: '/' :: text ++ ['\n']
  | directive text _ => '#' :: text ++ ['\n']
  | block inner _ => '/' :: '*' :: (inner ++ ['*', '/'])

/-- What stands between tokens: a blank, and then any pieces. -/
structure Separator where
  first : Char
  isBlank : Blank.isAscii first = true
  more : List Separator.Piece

namespace Separator

/-- The text of a separator. -/
def text (s : Separator) : List Char := s.first :: s.more.flatMap Piece.text

/-- A piece is part of a gap, whatever follows it. -/
theorem Piece.spans (p : Piece) (rest : List Char) : Gap.Spans p.text rest := by
  have hnewline : Gap.Spans ['\n'] rest := .cons (.blank rfl) (.nil rest)
  have hend : Gap.AtLineEnd (['\n'] ++ rest) := fun c hc => (Option.some.inj hc).symm
  cases p with
  | blank c h => exact .cons (.blank h) (.nil rest)
  | comment text h => exact .cons (.comment h hend) hnewline
  | directive text h => exact .cons (.directive h hend) hnewline
  | block inner h =>
    have hspans := Gap.Spans.cons (.block h) (.nil rest)
    rwa [List.append_nil] at hspans

/-- A separator is a gap, whatever follows it. -/
theorem spans (s : Separator) (rest : List Char) : Gap.Spans s.text rest := by
  have hmore : ∀ ps : List Piece, Gap.Spans (ps.flatMap Piece.text) rest := by
    intro ps
    induction ps with
    | nil => exact .nil rest
    | cons p ps ih => exact (p.spans _).append ih
  exact .cons (.blank s.isBlank) (hmore s.more)

end Separator

/-! ### Lexemes in front of blanks -/

/-- In front of a blank every lexeme ends. -/
theorem Token.Kind.isMaximal_of_isAscii (kind : Token.Kind) {c : Char} (cs : List Char)
    (hc : Blank.isAscii c = true) : kind.IsMaximal (c :: cs) := by
  have hword : Lexeme.isWordPart c = false := by
    simp only [Blank.isAscii, Bool.or_eq_true, beq_iff_eq] at hc
    rcases hc with (((rfl | rfl) | rfl) | rfl) | rfl <;> decide
  have hdigit : c.isDigit = false := by
    by_contra h
    rw [Lexeme.isWordPart_of_isDigit (Bool.not_eq_false _ ▸ h)] at hword
    cases hword
  cases kind with
  | int value => rintro _ ⟨⟩; exact hdigit
  | ident name => rintro _ ⟨⟩; exact hword
  | fixed f =>
    rw [Token.Kind.IsMaximal]
    split
    · rintro _ ⟨⟩
      exact hword
    · intro g hg hprefix
      -- A longer operator would have a blank in it.
      have key : ∀ g ∈ Fixed.operators, g.spelling.toList.any Blank.isAscii = false := by decide
      by_contra hlt
      have hblank : f.spelling.toList ++ [c] <+: g.spelling.toList :=
        List.prefix_of_prefix_length_le ⟨cs, by simp⟩ hprefix
          (by rw [List.length_append, List.length_singleton]; omega)
      have hmem : c ∈ g.spelling.toList := hblank.subset (by simp)
      exact List.any_eq_false.1 (key g hg) c hmem hc
  | char value => exact trivial
  | string text => exact trivial

/-- In front of a blank no lexeme becomes the beginning of a comment. -/
theorem Lexeme.Denotes.not_begins_append {kind : Token.Kind} {text : List Char}
    (h : Denotes kind text) {c : Char} (cs : List Char) (hc : Blank.isAscii c = true) :
    ¬Gap.Begins (text ++ c :: cs) := by
  intro hbegins
  match text, h with
  | [], h => exact h.text_ne_nil rfl
  | [d], h =>
    cases hbegins with
    | blank hd => exact h.not_begins (.blank hd)
    | directive => exact h.not_begins .directive
    | comment => cases hc
    | block => cases hc
  | d :: e :: ds, h =>
    cases hbegins with
    | blank hd => exact h.not_begins (.blank hd)
    | directive => exact h.not_begins .directive
    | comment => exact h.not_begins .comment
    | block => exact h.not_begins .block

/-! ### Written tokens -/

/-- A token, a spelling of it, and the separator behind it. -/
structure WrittenToken where
  kind : Token.Kind
  spelling : List Char
  writes : kind.Writes spelling
  behind : Separator

namespace WrittenToken

/-- The text of a written token, with the separator behind it. -/
def text (w : WrittenToken) : List Char := w.spelling ++ w.behind.text

/-- The spelling of a written token is a lexeme in front of the separator behind it. -/
theorem stands (w : WrittenToken) (rest : List Char) :
    Lexeme.Stands w.kind w.spelling (w.behind.text ++ rest) :=
  w.writes.denotes.stands (w.kind.isMaximal_of_isAscii _ w.behind.isBlank)
    (w.writes.denotes.not_begins_append _ w.behind.isBlank)

end WrittenToken

namespace Tokens

/-- Written tokens cover their text behind any gap. -/
theorem exists_covers_of_written (ws : List WrittenToken) (front : List Char) {gap : List Char}
    (hgap : ∀ rest, Gap.Spans gap rest) :
    ∃ ts, Covers front (gap ++ ws.flatMap WrittenToken.text) ts ∧
      ts.list.map Token.kind = ws.map WrittenToken.kind := by
  induction ws generalizing front gap with
  | nil =>
    rw [List.flatMap_nil, List.append_nil]
    exact ⟨_, .finish (hgap []), rfl⟩
  | cons w ws ih =>
    obtain ⟨ts, hcovers, hkinds⟩ := ih (front ++ (gap ++ w.spelling)) w.behind.spans
    rw [List.flatMap_cons, WrittenToken.text, List.append_assoc w.spelling]
    refine ⟨_, .token (hgap _) (w.stands _) hcovers, ?_⟩
    rw [List.map_cons, List.map_cons, hkinds]

/-- Written tokens read back: the tokens that can be written are the fixed ones, the numbers that
are not negative, the identifiers, and all characters and strings; and a separator, followed by
written tokens with a separator behind each of them, is a text of just these tokens. -/
theorem kinds_of_written :
    (∀ kind : Token.Kind, (∃ spelling, kind.Writes spelling) ↔ kind.IsWritable) ∧
      ∀ (front : Separator) (ws : List WrittenToken), ∃ ts,
        ofText (String.ofList (front.text ++ ws.flatMap WrittenToken.text)) = .ok ts ∧
          ts.list.map Token.kind = ws.map WrittenToken.kind := by
  refine ⟨fun _ => Token.Kind.exists_writes_iff, fun front ws => ?_⟩
  obtain ⟨ts, hcovers, hkinds⟩ := exists_covers_of_written ws [] front.spans
  refine ⟨ts, ?_, hkinds⟩
  have hscan := scan_of_covers hcovers (Nat.le_refl _) []
  rw [ofText, String.toList_ofList]
  exact hscan

end Tokens

end MiniC
