import MiniC.Token
import MiniC.Text.Blank

/-!
# From text to tokens

A text is a sequence of lexemes with gaps between them.  A gap is made of blanks, comments and
directives; a directive is a `#` with the rest of its line, and so is dropped wherever a token
might begin.  A lexeme is as long as it can be: a number takes all its digits, a word all its
letters, an operator its longest spelling.

Main definitions:

* `MiniC.LexError`: why a text has no tokens, and where;
* `MiniC.Gap.first`: the piece of a gap that a text begins with;
* `MiniC.Lexeme.first`: the lexeme that a text begins with;
* `MiniC.Tokens.ofText`: the tokens of a text.

Main results:

* `MiniC.Gap.first_piece`: a piece of a gap and what follows it make up the text;
* `MiniC.quotedChar_text`: so do a character of a literal and what follows it;
* `MiniC.Lexeme.covers_first`: so do a lexeme and what follows it;
* `MiniC.Tokens.forall_kind_ne_of_ofText`: the identifiers of a text have names.
-/

set_option autoImplicit false

namespace MiniC

/-- The two kinds of literal that stand in quotes. -/
inductive Quotation where
  | character
  | string
deriving DecidableEq, Repr, Inhabited

/-- How a message names a quoted literal. -/
def Quotation.describe : Quotation → String
  | character => "character literal"
  | string => "string literal"

/-- Why a text has no tokens. -/
inductive LexError.Cause where
  /-- A block comment is not closed. -/
  | openComment
  /-- A number does not fit 64 bits. -/
  | largeInteger (digits : String)
  /-- No token begins with this character. -/
  | strayCharacter (c : Char)
  /-- The text ends inside a quoted literal. -/
  | endInside (literal : Quotation)
  /-- `\x` is followed by no digit, or by a number over 255. -/
  | hexEscape (digits : String)
  /-- A backslash is followed by a character that is no escape. -/
  | unknownEscape (c : Char)
  /-- A character literal holds more than one character. -/
  | openCharacter
  /-- The character of a character literal does not fit a byte. -/
  | wideCharacter (c : Char)
  /-- A string literal is not closed. -/
  | openString
deriving DecidableEq, Repr, Inhabited

/-- The text of a cause. -/
def LexError.Cause.message : LexError.Cause → String
  | openComment => "Unterminated block comment"
  | largeInteger digits => "Invalid integer literal: " ++ digits
  | strayCharacter c => "Unexpected character: '" ++ c.toString ++ "'"
  | endInside literal => "Unexpected end of file in " ++ literal.describe
  | hexEscape digits => "Invalid hex escape: \\x" ++ digits
  | unknownEscape c => "Unknown escape sequence: \\" ++ c.toString
  | openCharacter => "Expected closing quote in character literal"
  | wideCharacter c => "Character literal '" ++ c.toString ++ "' is not a single byte"
  | openString => "Unterminated string literal"

/-- Why a text has no tokens, and where. -/
structure LexError where
  cause : LexError.Cause
  location : Location
deriving DecidableEq, Repr, Inhabited

/-- The text of an error: its location and its cause. -/
def LexError.message (e : LexError) : String :=
  s!"Lexer error at line {e.location.line}, column {e.location.column}: " ++ e.cause.message

/-! ### Gaps -/

/-- What a text begins with, as far as gaps are concerned. -/
inductive Gap where
  /-- A token, or nothing at all. -/
  | none
  /-- A blank, a comment or a directive `text`, and then `rest`. -/
  | piece (text rest : List Char)
  /-- A block comment that is not closed. -/
  | unclosed
deriving DecidableEq, Repr, Inhabited

namespace Gap

/-- Splits a text behind its first `*/`. -/
def splitClose? : List Char → Option (List Char × List Char)
  | '*' :: '/' :: cs => some (['*', '/'], cs)
  | c :: cs => (splitClose? cs).map fun p => (c :: p.1, p.2)
  | [] => Option.none

/-- A text up to its first newline, and the rest. -/
def line (cs : List Char) : Gap := piece (cs.takeWhile (· ≠ '\n')) (cs.dropWhile (· ≠ '\n'))

/-- The piece of a gap that a text begins with. -/
def first : List Char → Gap
  | '#' :: cs => line ('#' :: cs)
  | '/' :: '/' :: cs => line ('/' :: '/' :: cs)
  | '/' :: '*' :: cs =>
    match splitClose? cs with
    | some (inner, rest) => piece ('/' :: '*' :: inner) rest
    | Option.none => unclosed
  | c :: cs => if Blank.isAscii c then piece [c] cs else none
  | [] => none

theorem append_of_splitClose? {cs inner rest : List Char}
    (h : splitClose? cs = some (inner, rest)) : inner ++ rest = cs := by
  fun_induction splitClose? cs generalizing inner rest with
  | case1 cs => simp at h; obtain ⟨rfl, rfl⟩ := h; rfl
  | case2 c cs _ ih =>
    simp only [Option.map_eq_some_iff, Prod.mk.injEq] at h
    obtain ⟨p, hp, rfl, rfl⟩ := h
    simp [ih hp]
  | case3 => simp at h

/-- A piece of a gap is not empty, and makes up the text together with what follows. -/
theorem first_piece {cs text rest : List Char} (h : first cs = piece text rest) :
    text ++ rest = cs ∧ text ≠ [] := by
  unfold first at h
  split at h
  · simp only [line, piece.injEq] at h
    obtain ⟨rfl, rfl⟩ := h
    exact ⟨List.takeWhile_append_dropWhile, by simp⟩
  · simp only [line, piece.injEq] at h
    obtain ⟨rfl, rfl⟩ := h
    exact ⟨List.takeWhile_append_dropWhile, by simp⟩
  · split at h
    · next hc =>
      simp only [piece.injEq] at h
      obtain ⟨rfl, rfl⟩ := h
      exact ⟨by simp [append_of_splitClose? hc], by simp⟩
    · simp at h
  · split at h
    · simp only [piece.injEq] at h
      obtain ⟨rfl, rfl⟩ := h
      exact ⟨rfl, by simp⟩
    · simp at h
  · simp at h

end Gap

/-! ### Characters of quoted literals -/

/-- One character of a quoted literal: what it stands for, how it is written, and what follows. -/
structure QuotedChar where
  value : Char
  text : List Char
  rest : List Char
deriving DecidableEq, Repr, Inhabited

/-- What a letter stands for after a backslash. -/
def escape? : Char → Option Char
  | 'n' => some '\n'
  | 't' => some '\t'
  | 'r' => some '\r'
  | '0' => some '\x00'
  | '\\' => some '\\'
  | '\'' => some '\''
  | '"' => some '"'
  | _ => none

/-- Reads one character of a quoted literal.  `\x` takes every hexadecimal digit that follows. -/
def quotedChar (literal : Quotation) : List Char → Except LexError.Cause QuotedChar
  | [] => .error (.endInside literal)
  | ['\\'] => .error (.endInside literal)
  | '\\' :: 'x' :: cs =>
    let digits := cs.takeWhile Hexadecimal.isDigit
    if digits ≠ [] ∧ Hexadecimal.value digits < 256 then
      .ok ⟨Char.ofNat (Hexadecimal.value digits), '\\' :: 'x' :: digits,
        cs.dropWhile Hexadecimal.isDigit⟩
    else .error (.hexEscape (String.ofList digits))
  | '\\' :: c :: cs =>
    match escape? c with
    | some value => .ok ⟨value, ['\\', c], cs⟩
    | none => .error (.unknownEscape c)
  | c :: cs => .ok ⟨c, [c], cs⟩

/-- A character of a literal is written by at least one character, and makes up the text together
with what follows. -/
theorem quotedChar_text {literal : Quotation} {cs : List Char} {q : QuotedChar}
    (h : quotedChar literal cs = .ok q) : q.text ++ q.rest = cs ∧ q.text ≠ [] := by
  unfold quotedChar at h
  split at h
  · simp at h
  · simp at h
  · simp only at h
    split at h
    · cases h
      exact ⟨by simp [List.takeWhile_append_dropWhile], by simp⟩
    · simp at h
  · split at h
    · cases h
      exact ⟨rfl, by simp⟩
    · simp at h
  · cases h
    exact ⟨rfl, by simp⟩

/-! ### Lexemes -/

/-- A lexeme: the token it stands for, how it is written, and what follows. -/
structure Lexeme where
  kind : Token.Kind
  text : List Char
  rest : List Char
deriving DecidableEq, Repr, Inhabited

namespace Lexeme

/-- A letter or underscore, which a word begins with. -/
def isWordStart (c : Char) : Bool := c.isAlpha || c == '_'

/-- A letter, digit or underscore, which a word goes on with. -/
def isWordPart (c : Char) : Bool := c.isAlphanum || c == '_'

/-- The number at the start of a text. -/
def number (loc : Location) (cs : List Char) : Except LexError Lexeme :=
  let digits := cs.takeWhile Char.isDigit
  if Decimal.InRange (Decimal.value digits) then
    .ok ⟨.int (Int64.ofNat (Decimal.value digits)), digits, cs.dropWhile Char.isDigit⟩
  else .error ⟨.largeInteger (String.ofList digits), loc⟩

/-- The keyword or identifier at the start of a text. -/
def word (cs : List Char) : Lexeme :=
  let text := cs.takeWhile isWordPart
  let name := String.ofList text
  ⟨match Fixed.keyword? name with
    | some keyword => .fixed keyword
    | none => .ident name, text, cs.dropWhile isWordPart⟩

/-- The operator at the start of a text.  The longer spellings come first in the table, so the
longest one is found. -/
def operator (loc : Location) (cs : List Char) : Except LexError Lexeme :=
  match Fixed.operators.find? fun f => f.spelling.toList.isPrefixOf cs with
  | some f => .ok ⟨.fixed f, f.spelling.toList, cs.drop f.spelling.toList.length⟩
  | none => .error ⟨.strayCharacter (cs.headD '\x00'), loc⟩

/-- The character literal whose opening quote stands before `cs`. -/
def character (loc : Location) (cs : List Char) : Except LexError Lexeme :=
  match quotedChar .character cs with
  | .error cause => .error ⟨cause, loc.step '\''⟩
  | .ok q =>
    match q.rest with
    | '\'' :: rest =>
      if q.value.toNat < 256 then
        .ok ⟨.char (UInt8.ofNat q.value.toNat).toInt8, '\'' :: q.text ++ ['\''], rest⟩
      else .error ⟨.wideCharacter q.value, loc⟩
    | _ => .error ⟨.openCharacter, loc⟩

/-- The rest of a string literal, from a place inside it: its characters, how they and the closing
quote are written, and what follows.  `opening` is where the literal begins; `fuel` bounds the
number of characters. -/
def stringBody (opening : Location) :
    Nat → Location → List Char → Except LexError (List Char × List Char × List Char)
  | _, _, [] => .error ⟨.openString, opening⟩
  | _, _, '"' :: cs => .ok ([], ['"'], cs)
  | 0, _, _ => .error ⟨.openString, opening⟩
  | fuel + 1, loc, cs =>
    match quotedChar .string cs with
    | .error cause => .error ⟨cause, loc⟩
    | .ok q =>
      match stringBody opening fuel (loc.after q.text) q.rest with
      | .error e => .error e
      | .ok (value, text, rest) => .ok (q.value :: value, q.text ++ text, rest)

/-- The string literal whose opening quote stands before `cs`. -/
def string (loc : Location) (cs : List Char) : Except LexError Lexeme :=
  match stringBody loc cs.length (loc.step '"') cs with
  | .error e => .error e
  | .ok (value, text, rest) => .ok ⟨.string (String.ofList value), '"' :: text, rest⟩

/-- The lexeme that a text begins with, where no gap is left.  `loc` is where it begins. -/
def first (loc : Location) : List Char → Except LexError Lexeme
  | [] => operator loc []
  | c :: cs =>
    if c = '\'' then character loc cs
    else if c = '"' then string loc cs
    else if c.isDigit then number loc (c :: cs)
    else if isWordStart c then .ok (word (c :: cs))
    else operator loc (c :: cs)

/-! ### Nothing is lost -/

/-- The lexeme `x` stands at the start of the text `cs` and takes something of it. -/
def Covers (x : Lexeme) (cs : List Char) : Prop := x.text ++ x.rest = cs ∧ x.text ≠ []

theorem isWordPart_of_isWordStart {c : Char} (h : isWordStart c = true) : isWordPart c = true := by
  simp only [isWordStart, isWordPart, Char.isAlphanum, Bool.or_eq_true] at h ⊢
  exact h.imp_left Or.inl

theorem takeWhile_ne_nil {p : Char → Bool} {c : Char} (cs : List Char) (h : p c = true) :
    (c :: cs).takeWhile p ≠ [] := by
  simp [h]

theorem covers_number {loc : Location} {c : Char} {cs : List Char} {x : Lexeme}
    (hc : c.isDigit = true) (h : number loc (c :: cs) = .ok x) : x.Covers (c :: cs) := by
  unfold number at h
  simp only at h
  split at h
  · cases h
    exact ⟨List.takeWhile_append_dropWhile, takeWhile_ne_nil cs hc⟩
  · cases h

theorem covers_word {c : Char} {cs : List Char} (hc : isWordStart c = true) :
    (word (c :: cs)).Covers (c :: cs) :=
  ⟨List.takeWhile_append_dropWhile, takeWhile_ne_nil cs (isWordPart_of_isWordStart hc)⟩

theorem spelling_ne_nil (f : Fixed) : f.spelling.toList ≠ [] := by
  cases f <;> decide

theorem covers_operator {loc : Location} {cs : List Char} {x : Lexeme}
    (h : operator loc cs = .ok x) : x.Covers cs := by
  unfold operator at h
  split at h
  · next f hf =>
    cases h
    have hp : f.spelling.toList.isPrefixOf cs = true := by
      simpa using List.find?_some hf
    obtain ⟨rest, rfl⟩ := List.isPrefixOf_iff_prefix.1 hp
    exact ⟨by simp, spelling_ne_nil f⟩
  · cases h

theorem covers_character {loc : Location} {cs : List Char} {x : Lexeme}
    (h : character loc cs = .ok x) : x.Covers ('\'' :: cs) := by
  unfold character at h
  split at h
  · cases h
  · next q hq =>
    split at h
    · next rest hr =>
      split at h
      · cases h
        have := (quotedChar_text hq).1
        rw [hr] at this
        exact ⟨by simp [← this], by simp⟩
      · cases h
    · cases h

theorem append_of_stringBody {opening : Location} {fuel : Nat} {loc : Location}
    {cs value text rest : List Char}
    (h : stringBody opening fuel loc cs = .ok (value, text, rest)) : text ++ rest = cs := by
  fun_induction stringBody opening fuel loc cs generalizing value text rest with
  | case1 => cases h
  | case2 => cases h; rfl
  | case3 => cases h
  | case4 => cases h
  | case5 fuel loc cs _ _ q hq e he ih => simp_all
  | case6 fuel loc cs _ _ q hq v t r hb ih =>
    cases h
    simp [ih hb, (quotedChar_text hq).1]

theorem covers_string {loc : Location} {cs : List Char} {x : Lexeme}
    (h : string loc cs = .ok x) : x.Covers ('"' :: cs) := by
  unfold string at h
  split at h
  · cases h
  · next hb =>
    cases h
    exact ⟨by simp [append_of_stringBody hb], by simp⟩

/-- The first lexeme of a text takes at least one character, and makes up the text together with
what follows. -/
theorem covers_first {loc : Location} {c : Char} {cs : List Char} {x : Lexeme}
    (h : first loc (c :: cs) = .ok x) : x.Covers (c :: cs) := by
  rw [first] at h
  split at h
  · next hc => exact hc ▸ covers_character h
  · split at h
    · next hs => exact hs ▸ covers_string h
    · split at h
      · next hd => exact covers_number hd h
      · split at h
        · next hw =>
          cases h
          exact covers_word hw
        · exact covers_operator h

/-! ### Names of identifiers -/

/-- A word has at least one character. -/
theorem kind_ne_of_first {loc : Location} {cs : List Char} {x : Lexeme}
    (h : first loc cs = .ok x) : x.kind ≠ .ident "" := by
  have hoperator : ∀ {cs}, operator loc cs = .ok x → x.kind ≠ .ident "" := by
    intro cs h
    unfold operator at h
    split at h
    · cases h
      exact Token.Kind.noConfusion
    · cases h
  cases cs with
  | nil =>
    rw [first] at h
    exact hoperator h
  | cons c cs =>
    rw [first] at h
    split at h
    · unfold character at h
      split at h
      · cases h
      · split at h
        · split at h <;> cases h
          exact Token.Kind.noConfusion
        · cases h
    · split at h
      · unfold string at h
        split at h <;> cases h
        exact Token.Kind.noConfusion
      · split at h
        · unfold number at h
          dsimp only at h
          split at h <;> cases h
          exact Token.Kind.noConfusion
        · split at h
          · next hc =>
            -- A word begins with the character that makes it one.
            cases h
            have hne := takeWhile_ne_nil (p := isWordPart) cs
              (isWordPart_of_isWordStart hc)
            unfold word
            dsimp only
            split
            · exact Token.Kind.noConfusion
            · intro hname
              exact hne (String.ofList_inj.1 (Token.Kind.ident.inj hname))
          · exact hoperator h

end Lexeme

/-! ### The tokens of a text -/

namespace Tokens

/-- Reads gaps and lexemes from `loc` on.  `seen` holds the tokens read so far, last one first;
each step takes at least one character, so a `fuel` of the length of the text is enough. -/
def scan : Nat → Location → List Token → List Char → Except LexError Tokens
  | _, loc, seen, [] => .ok ⟨seen.reverse, loc⟩
  | 0, loc, seen, _ => .ok ⟨seen.reverse, loc⟩
  | fuel + 1, loc, seen, cs =>
    match Gap.first cs with
    | .unclosed => .error ⟨.openComment, loc⟩
    | .piece text rest => scan fuel (loc.after text) seen rest
    | .none =>
      match Lexeme.first loc cs with
      | .error e => .error e
      | .ok lexeme => scan fuel (loc.after lexeme.text) (⟨lexeme.kind, loc⟩ :: seen) lexeme.rest

/-- The tokens of a list of characters. -/
def ofChars (cs : List Char) : Except LexError Tokens := scan cs.length .start [] cs

/-- The tokens of a text. -/
def ofText (source : String) : Except LexError Tokens := ofChars source.toList

theorem forall_kind_ne_of_scan (fuel : Nat) {loc : Location} {seen : List Token} {cs : List Char}
    {ts : Tokens} (hseen : ∀ t ∈ seen, t.kind ≠ .ident "")
    (h : scan fuel loc seen cs = .ok ts) : ∀ t ∈ ts.list, t.kind ≠ .ident "" := by
  have done : ∀ t ∈ seen.reverse, t.kind ≠ .ident "" := fun t ht => hseen t (List.mem_reverse.1 ht)
  induction fuel generalizing loc seen cs with
  | zero => cases cs <;> · cases h; exact done
  | succ fuel ih =>
    cases cs with
    | nil =>
      cases h
      exact done
    | cons c cs =>
      rw [scan] at h
      split at h
      · cases h
      · exact ih hseen h done
      · split at h
        · cases h
        · next x hx =>
          have hseen' : ∀ t ∈ (⟨x.kind, loc⟩ :: seen : List Token), t.kind ≠ .ident "" :=
            List.forall_mem_cons.2 ⟨Lexeme.kind_ne_of_first hx, hseen⟩
          exact ih hseen' h fun t ht => hseen' t (List.mem_reverse.1 ht)
      · exact List.cons_ne_nil c cs

/-- The identifiers of a text have names. -/
theorem forall_kind_ne_of_ofText {source : String} {ts : Tokens} (h : ofText source = .ok ts) :
    ∀ t ∈ ts.list, t.kind ≠ .ident "" :=
  forall_kind_ne_of_scan _ (fun _ ht => absurd ht List.not_mem_nil) h

end Tokens

end MiniC
