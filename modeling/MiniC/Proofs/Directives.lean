import MiniC.Proofs.Coverage

/-!
# What becomes of a `#`

A directive is meant to be a line of its own that begins with a `#`.  The lexer does not look at
what stands in front of the `#`: wherever a token might begin, a `#` takes the rest of its line with
it.  We say what the parts of a text are, the lexemes of its tokens and the pieces of the gaps
between them, and find the part that holds a given `#`.  If that is no comment and no literal, then
it is a directive that begins with this `#`; without the directive, the text has the same tokens in
the same places.  So a `#` opens its line, but for blanks and comments, just if no lexeme reaches
into the line in front of it, and no error is ever about a `#`.

Main definitions:

* `MiniC.Part`, `MiniC.Part.IsCut`: parts of texts, and the parts that make up a text;
* `MiniC.Part.Loose`: a `#` stands in no comment, in no literal and not behind another one;
* `MiniC.Part.OnLastLine`: a part reaches into the line that some parts end on.

Main results:

* `MiniC.Part.stands_iff`: the lexer finds the part that stands at the front of a text;
* `MiniC.Part.eq_of_isCut`: there is one way to cut a text into parts;
* `MiniC.Part.isCut_erase`: what is left without a directive is cut into the other parts;
* `MiniC.Tokens.hash_drops_rest_of_line`: what becomes of a `#`.
-/

set_option autoImplicit false

namespace MiniC

/-! ### Texts without the rest of a line -/

/-- Without a newline, a text goes on on its line. -/
theorem Location.line_after {cs : List Char} (h : '\n' ∉ cs) (loc : Location) :
    (loc.after cs).line = loc.line := by
  induction cs generalizing loc with
  | nil => rfl
  | cons c cs ih =>
    obtain ⟨hc, hcs⟩ := not_or.1 (mt List.mem_cons.2 h)
    rw [after_cons, ih hcs, step_of_ne _ (Ne.symm hc)]

section Lines

variable {cs back rest : List Char} (hrest : Gap.AtLineEnd rest)

include hrest

/-- What a text begins with that has no newline, it begins with before the end of the line. -/
theorem Gap.AtLineEnd.prefix_of_append {start : List Char} (h : start <+: cs ++ rest)
    (hstart : '\n' ∉ start) : start <+: cs := by
  obtain ⟨more, hmore⟩ := h
  rcases List.append_eq_append_iff.1 hmore with ⟨between, rfl, -⟩ | ⟨between, rfl, hbetween⟩
  · exact List.prefix_append _ _
  · cases between with
    | nil => simp
    | cons c between =>
      have hc : c = '\n' := hrest c (hbetween ▸ rfl)
      exact absurd (by simp [hc]) hstart

/-- Without a directive, the first character is the same, or it is a newline. -/
theorem Gap.AtLineEnd.head?_erase {P : Char → Prop} (h : ∀ c ∈ (cs ++ '#' :: back).head?, P c)
    (hnewline : P '\n') : ∀ c ∈ (cs ++ rest).head?, P c := by
  cases cs with
  | nil =>
    intro c hc
    rw [hrest c hc]
    exact hnewline
  | cons d cs => exact h

/-- Without a directive, lexemes end where they ended. -/
theorem Token.Kind.isMaximal_erase {kind : Token.Kind} (h : kind.IsMaximal (cs ++ '#' :: back)) :
    kind.IsMaximal (cs ++ rest) := by
  cases kind with
  | int value => exact hrest.head?_erase h rfl
  | ident name => exact hrest.head?_erase h rfl
  | fixed f =>
    rw [Token.Kind.IsMaximal] at h ⊢
    split at h
    · next hf =>
      rw [if_pos hf]
      exact hrest.head?_erase h rfl
    · next hf =>
      rw [if_neg hf]
      intro g hg hprefix
      have key : ∀ g ∈ Fixed.operators, '\n' ∉ g.spelling.toList := by decide
      rw [← List.append_assoc] at hprefix
      have hshort := hrest.prefix_of_append hprefix (key g hg)
      refine h g hg (hshort.trans ?_)
      rw [← List.append_assoc]
      exact List.prefix_append _ _
  | char value => exact trivial
  | string text => exact trivial

/-- A text that begins like a gap without a directive does so with the directive. -/
theorem Gap.begins_of_begins_erase (h : Begins (cs ++ rest)) (hne : cs ≠ []) :
    Begins (cs ++ '#' :: back) := by
  have hlong : ∀ start, '\n' ∉ start → start <+: cs ++ rest → start <+: cs ++ '#' :: back :=
    fun _ hstart hprefix => (hrest.prefix_of_append hprefix hstart).trans (List.prefix_append _ _)
  generalize hall : cs ++ rest = all at h hlong
  cases h with
  | @blank c more hc =>
    cases cs with
    | nil => exact absurd rfl hne
    | cons d cs => exact .blank ((List.cons.inj hall).1 ▸ hc)
  | directive =>
    obtain ⟨more, hmore⟩ := hlong ['#'] (by decide) (List.prefix_append _ _)
    rw [← hmore]
    exact .directive
  | comment =>
    obtain ⟨more, hmore⟩ := hlong ['/', '/'] (by decide) (List.prefix_append _ _)
    rw [← hmore]
    exact .comment
  | block =>
    obtain ⟨more, hmore⟩ := hlong ['/', '*'] (by decide) (List.prefix_append _ _)
    rw [← hmore]
    exact .block

end Lines

/-! ### Parts of texts -/

/-- A part of a text: the lexeme of a token, or a piece of a gap. -/
structure Part where
  token : Option Token.Kind
  text : List Char
deriving DecidableEq, Repr, Inhabited

namespace Part

/-- The part stands in front of `behind`. -/
def Stands (p : Part) (behind : List Char) : Prop :=
  match p.token with
  | none => Gap.Piece p.text behind
  | some kind => Lexeme.Stands kind p.text behind

/-- The part that the lexer finds at the front of a text. -/
def first? (cs : List Char) : Option Part :=
  match Gap.first cs with
  | .piece text _ => some ⟨none, text⟩
  | .unclosed => none
  | .none =>
    match Lexeme.first .start cs with
    | .ok x => some ⟨some x.kind, x.text⟩
    | .error _ => none

/-- The lexer finds the part that stands at the front of a text. -/
theorem stands_iff {p : Part} {behind : List Char} :
    p.Stands behind ↔ first? (p.text ++ behind) = some p := by
  obtain ⟨token, text⟩ := p
  unfold Stands first?
  constructor
  · intro h
    cases token with
    | none => simp only [Gap.first_eq_piece_iff.2 ⟨rfl, h⟩]
    | some kind =>
      simp only [Gap.first_eq_none_iff.2 h.apart,
        Lexeme.first_of_denotes .start h.denotes h.maximal]
  · intro h
    cases hgap : Gap.first (text ++ behind) with
    | piece text' rest =>
      simp only [hgap, Option.some.injEq, mk.injEq] at h
      obtain ⟨rfl, rfl⟩ := h
      obtain ⟨hcs, hpiece⟩ := Gap.first_eq_piece_iff.1 hgap
      rwa [List.append_cancel_left hcs] at hpiece
    | unclosed =>
      simp only [hgap] at h
      cases h
    | none =>
      simp only [hgap] at h
      cases hlexeme : Lexeme.first .start (text ++ behind) with
      | error e =>
        simp only [hlexeme] at h
        cases h
      | ok x =>
        simp only [hlexeme, Option.some.injEq, mk.injEq] at h
        obtain ⟨rfl, rfl⟩ := h
        obtain ⟨hcs, hdenotes, hmax⟩ := Lexeme.first_eq_ok_iff.1 hlexeme
        rw [List.append_cancel_left hcs] at hmax
        exact hdenotes.stands hmax (Gap.first_eq_none_iff.1 hgap)

instance (p : Part) (behind : List Char) : Decidable (p.Stands behind) :=
  decidable_of_iff _ stands_iff.symm

theorem Stands.text_ne_nil {p : Part} {behind : List Char} (h : p.Stands behind) : p.text ≠ [] := by
  obtain ⟨token, text⟩ := p
  cases token with
  | none => cases h <;> exact List.cons_ne_nil _ _
  | some kind => exact h.nonempty

/-- The text that parts make up. -/
def textOf (ps : List Part) : List Char := ps.flatMap text

@[simp] theorem textOf_cons (p : Part) (ps : List Part) : textOf (p :: ps) = p.text ++ textOf ps :=
  rfl

@[simp] theorem textOf_append (ps qs : List Part) : textOf (ps ++ qs) = textOf ps ++ textOf qs :=
  List.flatMap_append

/-- Each part stands in front of those behind it. -/
def IsCut : List Part → Prop
  | [] => True
  | p :: ps => p.Stands (textOf ps) ∧ IsCut ps

instance decidableIsCut : (ps : List Part) → Decidable (IsCut ps)
  | [] => isTrue trivial
  | p :: ps =>
    have := decidableIsCut ps
    inferInstanceAs (Decidable (p.Stands (textOf ps) ∧ IsCut ps))

/-- The tokens whose lexemes are among the parts of a text that begins at `loc`. -/
def tokens (loc : Location) : List Part → Tokens
  | [] => ⟨[], loc⟩
  | p :: ps =>
    let more := tokens (loc.after p.text) ps
    match p.token with
    | none => more
    | some kind => ⟨⟨kind, loc⟩ :: more.list, more.finish⟩

/-- What stands behind some parts of a cut is cut, too. -/
theorem IsCut.of_append {ps qs : List Part} (h : IsCut (ps ++ qs)) : IsCut qs := by
  induction ps with
  | nil => exact h
  | cons p ps ih => exact ih h.2

/-- There is one way to cut a text into parts. -/
theorem eq_of_isCut {ps qs : List Part} (hp : IsCut ps) (hq : IsCut qs)
    (htext : textOf ps = textOf qs) : ps = qs := by
  induction ps generalizing qs with
  | nil =>
    cases qs with
    | nil => rfl
    | cons q qs => exact absurd htext.symm (List.append_ne_nil_of_left_ne_nil hq.1.text_ne_nil _)
  | cons p ps ih =>
    cases qs with
    | nil => exact absurd htext (List.append_ne_nil_of_left_ne_nil hp.1.text_ne_nil _)
    | cons q qs =>
      have hfirst := stands_iff.1 hp.1
      rw [← textOf_cons, htext, textOf_cons, stands_iff.1 hq.1] at hfirst
      obtain rfl := Option.some.inj hfirst
      rw [ih hp.2 hq.2 (List.append_cancel_left htext)]

/-! ### Parts and tokens -/

/-- A gap is cut into its pieces, and they have no tokens. -/
theorem exists_isCut_of_spans {gap : List Char} (qs : List Part) (h : Gap.Spans gap (textOf qs))
    (hq : IsCut qs) : ∃ ps, IsCut ps ∧ textOf ps = gap ++ textOf qs ∧
      ∀ loc : Location, tokens loc ps = tokens (loc.after gap) qs := by
  generalize hrest : textOf qs = rest at h
  induction h with
  | nil _ => exact ⟨qs, hq, hrest, fun _ => rfl⟩
  | @cons text more rest hpiece _ ih =>
    obtain ⟨ps, hcut, htext, htokens⟩ := ih hrest
    refine ⟨⟨none, text⟩ :: ps, ⟨?_, hcut⟩, ?_, fun loc => ?_⟩
    · rw [htext]
      exact hpiece
    · rw [textOf_cons, htext, List.append_assoc]
    · rw [Location.after_append, ← htokens]
      rfl

/-- A text that its tokens cover is cut into parts with these tokens. -/
theorem exists_isCut_of_covers {front cs : List Char} {ts : Tokens}
    (h : Tokens.Covers front cs ts) :
    ∃ ps, IsCut ps ∧ textOf ps = cs ∧ tokens (.behind front) ps = ts := by
  induction h with
  | @finish front last hlast =>
    obtain ⟨ps, hcut, htext, htokens⟩ := exists_isCut_of_spans [] hlast trivial
    refine ⟨ps, hcut, htext.trans (List.append_nil _), ?_⟩
    rw [htokens, Location.behind_append]
    rfl
  | @token front gap lexeme behind kind ts hgap hstands _ ih =>
    obtain ⟨qs, hcut, rfl, htokens⟩ := ih
    obtain ⟨ps, hcut', htext', htokens'⟩ :=
      exists_isCut_of_spans (⟨some kind, lexeme⟩ :: qs) hgap ⟨hstands, hcut⟩
    refine ⟨ps, hcut', htext', ?_⟩
    rw [htokens', ← htokens]
    simp only [Location.behind_append, Location.after_append]
    rfl

/-- The tokens of the parts cover the text that the parts make up. -/
theorem IsCut.covers {ps : List Part} (h : IsCut ps) (front : List Char) :
    Tokens.Covers front (textOf ps) (tokens (.behind front) ps) := by
  induction ps generalizing front with
  | nil =>
    have hfinish : Tokens.Covers front [] ⟨[], .behind (front ++ [])⟩ := .finish (.nil [])
    rwa [List.append_nil] at hfinish
  | cons p ps ih =>
    obtain ⟨token, text⟩ := p
    have hrest := ih h.2 (front ++ text)
    rw [Location.behind_append] at hrest
    cases token with
    | none => exact hrest.piece h.1
    | some kind =>
      have htoken : Tokens.Covers front ([] ++ (text ++ textOf ps))
          ⟨⟨kind, .behind (front ++ [])⟩ :: _, _⟩ := .token (.nil _) h.1 hrest
      rwa [List.append_nil] at htoken

/-- A text has tokens just if it is cut into parts with these tokens. -/
theorem ofText_eq_ok_iff_exists_isCut {source : String} {ts : Tokens} :
    Tokens.ofText source = .ok ts ↔
      ∃ ps, IsCut ps ∧ textOf ps = source.toList ∧ tokens .start ps = ts := by
  constructor
  · intro h
    have hscan : Tokens.scan source.toList.length (.behind []) [] source.toList = .ok ts := h
    obtain ⟨more, hcovers, rfl⟩ := Tokens.covers_of_scan (Nat.le_refl _) hscan
    exact exists_isCut_of_covers hcovers
  · rintro ⟨ps, hcut, htext, rfl⟩
    have hcovers := hcut.covers []
    rw [htext] at hcovers
    exact Tokens.scan_of_covers hcovers (Nat.le_refl _) []

/-! ### A `#` that is loose -/

/-- The part is a blank. -/
def IsBlank (p : Part) : Prop := p.token = none ∧ ∀ c ∈ p.text, Blank.isAscii c = true

/-- The part is a comment, of one line or in a block. -/
def IsComment (p : Part) : Prop := p.token = none ∧ p.text.head? = some '/'

/-- The part is a directive. -/
def IsDirective (p : Part) : Prop := p.token = none ∧ p.text.head? = some '#'

/-- The part is a character literal or a string literal. -/
def IsLiteral (p : Part) : Prop :=
  match p.token with
  | some (.char _) | some (.string _) => True
  | _ => False

/-- In the part, a `#` stands behind `front`.  The part is no comment and no literal, and it is not
the text of a directive that the `#` stands in. -/
structure Loose (p : Part) (front back : List Char) : Prop where
  text_eq : p.text = front ++ '#' :: back
  not_isComment : ¬p.IsComment
  not_isLiteral : ¬p.IsLiteral
  not_inside : p.IsDirective → front = []

/-- Outside of literals, no lexeme holds a `#`. -/
theorem hash_not_mem_of_denotes {kind : Token.Kind} {text : List Char}
    (h : Lexeme.Denotes kind text) (hliteral : ¬(⟨some kind, text⟩ : Part).IsLiteral) :
    '#' ∉ text := by
  cases h with
  | int _ hdigits _ => exact fun hmem => absurd (hdigits _ hmem) (by decide)
  | ident hword _ => exact fun hmem => absurd (hword.forall_isWordPart _ hmem) (by decide)
  | fixed f =>
    have key : ∀ f ∈ Fixed.keywords ++ Fixed.operators, '#' ∉ f.spelling.toList := by decide
    exact key f (List.mem_append.2 f.mem_keywords_or_mem_operators)
  | char _ _ => exact absurd trivial hliteral
  | string _ => exact absurd trivial hliteral

/-- A loose `#` begins a directive, which takes the rest of its line. -/
theorem Loose.directive {p : Part} {front back behind : List Char} (h : p.Loose front back)
    (hp : p.Stands behind) :
    p = ⟨none, '#' :: back⟩ ∧ front = [] ∧ '\n' ∉ back ∧ Gap.AtLineEnd behind := by
  obtain ⟨token, text⟩ := p
  obtain ⟨rfl, hcomment, hliteral, hinside⟩ := h
  cases token with
  | some kind =>
    exact absurd (by simp) (hash_not_mem_of_denotes hp.denotes hliteral)
  | none =>
    generalize htext : front ++ '#' :: back = text at hp hcomment hinside
    change Gap.Piece text behind at hp
    cases hp with
    | @blank c _ hc =>
      have hmem : '#' ∈ [c] := htext ▸ List.mem_append_right _ List.mem_cons_self
      rw [← List.mem_singleton.1 hmem] at hc
      cases hc
    | directive hline hend =>
      obtain rfl := hinside ⟨rfl, rfl⟩
      obtain rfl := (List.cons.inj htext).2
      exact ⟨rfl, rfl, hline, hend⟩
    | comment _ _ => exact absurd ⟨rfl, rfl⟩ hcomment
    | block _ => exact absurd ⟨rfl, rfl⟩ hcomment

/-! ### The line in front of a `#` -/

/-- The part reaches into the line that the parts end on: no newline stands behind it, nor is it the
last of what is in the part. -/
def OnLastLine (ps : List Part) (q : Part) : Prop :=
  ∃ before after, ps = before ++ q :: after ∧ '\n' ∉ textOf after ∧ q.text.getLast? ≠ some '\n'

/-- In front of a `#`, the line is blank but for comments just if no lexeme reaches into it. -/
theorem blank_or_comment_iff {ps : List Part} {p : Part} {qs : List Part} {back : List Char}
    (hcut : IsCut (ps ++ p :: qs)) (hp : p.text = '#' :: back) :
    (∀ q, OnLastLine ps q → q.IsBlank ∨ q.IsComment) ↔ ∀ q, OnLastLine ps q → q.token = none := by
  refine ⟨fun h q hq => (h q hq).elim And.left And.left, fun h q hq => ?_⟩
  have htoken := h q hq
  obtain ⟨before, after, rfl, hnewline, -⟩ := hq
  rw [List.append_assoc] at hcut
  have hstands : q.Stands (textOf (after ++ p :: qs)) := hcut.of_append.1
  obtain ⟨token, text⟩ := q
  obtain rfl : token = none := htoken
  change Gap.Piece text _ at hstands
  cases hstands with
  | blank hc =>
    refine .inl ⟨rfl, fun c hmem => ?_⟩
    rwa [List.mem_singleton.1 hmem]
  | directive _ hend =>
    -- Behind a directive there would be a newline.
    rw [textOf_append, textOf_cons, hp] at hend
    cases htext : textOf after with
    | nil =>
      rw [htext] at hend
      exact absurd (hend '#' rfl) (by decide)
    | cons c cs =>
      rw [htext] at hend hnewline
      exact absurd (hend c rfl ▸ List.mem_cons_self) hnewline
  | comment _ _ => exact .inr ⟨rfl, rfl⟩
  | block _ => exact .inr ⟨rfl, rfl⟩

/-! ### Parts without a directive -/

/-- No lexeme begins with a newline. -/
theorem Stands.token_of_newline {p : Part} {behind : List Char} (h : p.Stands behind)
    (hnewline : p.text.head? = some '\n') : p.token = none := by
  obtain ⟨token, text⟩ := p
  cases token with
  | none => rfl
  | some kind =>
    cases text with
    | nil => cases hnewline
    | cons c cs =>
      obtain rfl := Option.some.inj hnewline
      exact absurd (.blank rfl) h.apart

/-- A part stands where it stood when a directive was still there. -/
theorem Stands.erase {p : Part} {cs back rest : List Char} (h : p.Stands (cs ++ '#' :: back))
    (hrest : Gap.AtLineEnd rest) : p.Stands (cs ++ rest) := by
  obtain ⟨token, text⟩ := p
  cases token with
  | none =>
    change Gap.Piece text (cs ++ rest)
    change Gap.Piece text (cs ++ '#' :: back) at h
    cases h with
    | blank hc => exact .blank hc
    | directive hline hend => exact .directive hline (hrest.head?_erase hend rfl)
    | comment hline hend => exact .comment hline (hrest.head?_erase hend rfl)
    | block hinner => exact .block hinner
  | some kind =>
    refine h.denotes.stands (Token.Kind.isMaximal_erase hrest h.maximal) fun hbegins => h.apart ?_
    rw [← List.append_assoc] at hbegins ⊢
    have hne : text ++ cs ≠ [] := List.append_ne_nil_of_left_ne_nil h.nonempty _
    exact Gap.begins_of_begins_erase hrest hbegins hne

/-- At the end of a line, the column does not matter for the tokens that follow. -/
theorem tokens_eq_of_line {ps : List Part} (hcut : IsCut ps) (hend : Gap.AtLineEnd (textOf ps))
    {loc loc' : Location} (hline : loc.line = loc'.line) :
    (tokens loc ps).list = (tokens loc' ps).list := by
  cases ps with
  | nil => rfl
  | cons p ps =>
    obtain ⟨token, text⟩ := p
    cases text with
    | nil => exact absurd rfl hcut.1.text_ne_nil
    | cons c cs =>
      obtain rfl : c = '\n' := hend c rfl
      obtain rfl : token = none := hcut.1.token_of_newline rfl
      have hafter : loc.after ('\n' :: cs) = loc'.after ('\n' :: cs) := by
        rw [Location.after_cons, Location.step_newline, hline]
        rfl
      show (tokens (loc.after ('\n' :: cs)) ps).list = (tokens (loc'.after ('\n' :: cs)) ps).list
      rw [hafter]

section Erase

variable {ps qs : List Part} {d : Part} {back : List Char} (hd : d.text = '#' :: back)
  (hcut : IsCut (ps ++ d :: qs)) (hend : Gap.AtLineEnd (textOf qs))

include hd hcut hend

/-- What is left without a directive is cut into the other parts. -/
theorem isCut_erase : IsCut (ps ++ qs) := by
  induction ps with
  | nil => exact hcut.2
  | cons p ps ih =>
    refine ⟨?_, ih hcut.2⟩
    have hstands : p.Stands (textOf (ps ++ d :: qs)) := hcut.1
    rw [textOf_append, textOf_cons, hd, List.cons_append] at hstands
    have herased := hstands.erase hend
    rwa [← textOf_append] at herased

/-- Its tokens are the same, in the same places. -/
theorem tokens_erase (hdirective : d.token = none) (hback : '\n' ∉ back) (loc : Location) :
    (tokens loc (ps ++ qs)).list = (tokens loc (ps ++ d :: qs)).list := by
  induction ps generalizing loc with
  | nil =>
    obtain ⟨_, text⟩ := d
    obtain rfl : _ = none := hdirective
    obtain rfl : text = '#' :: back := hd
    have hline : (loc.after ('#' :: back)).line = loc.line :=
      Location.line_after (List.not_mem_cons_of_ne_of_not_mem (by decide) hback) loc
    exact tokens_eq_of_line hcut.2 hend hline.symm
  | cons p ps ih =>
    have hmore := ih hcut.2 (loc.after p.text)
    obtain ⟨token, text⟩ := p
    cases token with
    | none => exact hmore
    | some kind => exact congrArg (⟨kind, loc⟩ :: ·) hmore

end Erase

end Part

/-! ### Errors -/

namespace Lexeme

theorem cause_ne_of_quotedChar {literal : Quotation} {cs : List Char} {cause : LexError.Cause}
    (h : quotedChar literal cs = .error cause) (c : Char) : cause ≠ .strayCharacter c := by
  unfold quotedChar at h
  split at h
  · cases h; rintro ⟨⟩
  · cases h; rintro ⟨⟩
  · dsimp only at h
    split at h <;> cases h
    rintro ⟨⟩
  · split at h <;> cases h
    rintro ⟨⟩
  · cases h

theorem cause_ne_of_character {loc : Location} {cs : List Char} {e : LexError}
    (h : character loc cs = .error e) (c : Char) : e.cause ≠ .strayCharacter c := by
  unfold character at h
  split at h
  · next hq =>
    cases h
    exact cause_ne_of_quotedChar hq c
  · split at h
    · split at h <;> cases h
      rintro ⟨⟩
    · cases h
      rintro ⟨⟩

theorem cause_ne_of_stringBody {opening : Location} {fuel : Nat} {loc : Location} {cs : List Char}
    {e : LexError} (h : stringBody opening fuel loc cs = .error e) (c : Char) :
    e.cause ≠ .strayCharacter c := by
  fun_induction stringBody opening fuel loc cs with
  | case1 => cases h; rintro ⟨⟩
  | case2 => cases h
  | case3 => cases h; rintro ⟨⟩
  | case4 _ _ _ _ _ _ hq => cases h; exact cause_ne_of_quotedChar hq c
  | case5 _ _ _ _ _ _ _ _ hb ih => cases h; exact ih hb
  | case6 => cases h

/-- A stray character is the first one of what is left of the text. -/
theorem head_of_strayCharacter {loc : Location} {cs : List Char} {e : LexError} {c : Char}
    (h : first loc cs = .error e) (hstray : e.cause = .strayCharacter c) : c = cs.headD '\x00' := by
  have hoperator : ∀ {cs}, operator loc cs = .error e → c = cs.headD '\x00' := by
    intro cs h
    unfold operator at h
    split at h <;> cases h
    exact (LexError.Cause.strayCharacter.inj hstray).symm
  cases cs with
  | nil => exact hoperator h
  | cons d cs =>
    rw [first] at h
    split at h
    · exact absurd hstray (cause_ne_of_character h c)
    · split at h
      · unfold string at h
        split at h
        · next hb =>
          cases h
          exact absurd hstray (cause_ne_of_stringBody hb c)
        · cases h
      · split at h
        · unfold number at h
          dsimp only at h
          split at h <;> cases h
          cases hstray
        · split at h
          · cases h
          · exact hoperator h

end Lexeme

namespace Tokens

/-- No error is about a `#`. -/
theorem cause_ne_hash_of_scan {fuel : Nat} {loc : Location} {seen : List Token} {cs : List Char}
    {e : LexError} (h : scan fuel loc seen cs = .error e) : e.cause ≠ .strayCharacter '#' := by
  induction fuel generalizing loc seen cs with
  | zero => cases cs <;> cases h
  | succ fuel ih =>
    cases cs with
    | nil => cases h
    | cons c cs =>
      rw [scan] at h
      · split at h
        · cases h
          rintro ⟨⟩
        · exact ih h
        · next hgap =>
          split at h
          · next hfirst =>
            cases h
            intro hstray
            obtain rfl : '#' = c := Lexeme.head_of_strayCharacter hfirst hstray
            exact Gap.first_eq_none_iff.1 hgap .directive
          · exact ih h
      · exact List.cons_ne_nil c cs

/-- What becomes of a `#`.  No error is ever about one.  If a text has tokens, then it is cut into
parts in one way.  A `#` that is in no comment, in no literal and not in the text of a directive
begins a directive, which goes on to the end of the line, whatever stands in front of it.  Without
the directive the text has the same tokens in the same places.  The `#` has only blanks and comments
in front of it on its line just if no lexeme reaches into the line there. -/
theorem hash_drops_rest_of_line (source : String) :
    (∀ e, ofText source = .error e → e.cause ≠ .strayCharacter '#') ∧
    ∀ ts, ofText source = .ok ts →
      ∃ ps, Part.IsCut ps ∧ Part.textOf ps = source.toList ∧ Part.tokens .start ps = ts ∧
        (∀ qs, Part.IsCut qs → Part.textOf qs = source.toList → qs = ps) ∧
        ∀ before p after front back, ps = before ++ p :: after → p.Loose front back →
          (p = ⟨none, '#' :: back⟩ ∧ front = [] ∧ '\n' ∉ back ∧
            Gap.AtLineEnd (Part.textOf after)) ∧
          (∃ more, ofText (String.ofList (Part.textOf before ++ Part.textOf after)) = .ok more ∧
            more.list = ts.list) ∧
          ((∀ q, Part.OnLastLine before q → q.IsBlank ∨ q.IsComment) ↔
            ∀ q, Part.OnLastLine before q → q.token = none) := by
  refine ⟨fun e h => cause_ne_hash_of_scan h, fun ts h => ?_⟩
  obtain ⟨ps, hcut, htext, htokens⟩ := Part.ofText_eq_ok_iff_exists_isCut.1 h
  refine ⟨ps, hcut, htext, htokens,
    fun qs hqs hsame => Part.eq_of_isCut hqs hcut (hsame.trans htext.symm), ?_⟩
  rintro before p after front back rfl hloose
  obtain ⟨rfl, rfl, hback, hend⟩ := hloose.directive hcut.of_append.1
  refine ⟨⟨rfl, rfl, hback, hend⟩, ?_, Part.blank_or_comment_iff hcut rfl⟩
  have herased : ofText (String.ofList (Part.textOf before ++ Part.textOf after)) =
      .ok (Part.tokens .start (before ++ after)) :=
    Part.ofText_eq_ok_iff_exists_isCut.2
      ⟨before ++ after, Part.isCut_erase rfl hcut hend, by simp, rfl⟩
  exact ⟨_, herased, (Part.tokens_erase rfl hcut hend rfl hback .start).trans (htokens ▸ rfl)⟩

/-- The parts of a declaration. -/
def declaring : List Part :=
  [⟨some (.fixed .kwInt), "int".toList⟩, ⟨none, [' ']⟩, ⟨some (.ident "x"), ['x']⟩,
    ⟨some (.fixed .semicolon), [';']⟩, ⟨none, [' ']⟩]

/-- The parts of a line that goes on with a `#` behind the declaration. -/
def remarking : List Part := declaring ++ ⟨none, "# y".toList⟩ :: [⟨none, ['\n']⟩]

theorem loose_remarking : (⟨none, "# y".toList⟩ : Part).Loose [] " y".toList where
  text_eq := rfl
  not_isComment h := by cases h.2
  not_isLiteral := id
  not_inside _ := rfl

/-- The line has the tokens of the declaration, and no others. -/
theorem hash_drops_rest_of_line_remarking :
    ∃ ts more, ofText "int x; # y\n" = .ok ts ∧ ofText "int x; \n" = .ok more ∧
      more.list = ts.list ∧
      ts.list.map Token.kind = [.fixed .kwInt, .ident "x", .fixed .semicolon] := by
  have hcut : Part.IsCut remarking := by decide +kernel
  have htext : Part.textOf remarking = "int x; # y\n".toList := by decide
  have hts : ofText "int x; # y\n" = .ok (Part.tokens .start remarking) :=
    Part.ofText_eq_ok_iff_exists_isCut.2 ⟨remarking, hcut, htext, rfl⟩
  obtain ⟨-, hdrops⟩ := hash_drops_rest_of_line "int x; # y\n"
  obtain ⟨ps, -, -, -, hunique, hloose⟩ := hdrops _ hts
  obtain rfl := hunique remarking hcut htext
  obtain ⟨-, ⟨more, hmore, hsame⟩, -⟩ := hloose _ _ _ _ _ rfl loose_remarking
  exact ⟨_, more, hts, hmore, hsame, by decide +kernel⟩

/-- The `#` is not the first on its line: a semicolon stands in front of it. -/
theorem hash_behind_token :
    ofText "int x; # y\n" = .ok (Part.tokens .start remarking) ∧ Part.IsCut remarking ∧
      Part.textOf remarking = "int x; # y\n".toList ∧
      ∃ before p after front back, remarking = before ++ p :: after ∧ p.Loose front back ∧
        ¬∀ q, Part.OnLastLine before q → q.IsBlank ∨ q.IsComment := by
  have hcut : Part.IsCut remarking := by decide +kernel
  have htext : Part.textOf remarking = "int x; # y\n".toList := by decide
  refine ⟨Part.ofText_eq_ok_iff_exists_isCut.2 ⟨remarking, hcut, htext, rfl⟩, hcut, htext,
    declaring, _, _, _, _, rfl, loose_remarking, fun h => ?_⟩
  have hsemicolon : Part.OnLastLine declaring ⟨some (.fixed .semicolon), [';']⟩ :=
    ⟨declaring.take 3, [⟨none, [' ']⟩], rfl, by decide, by decide⟩
  rcases h _ hsemicolon with ⟨htoken, -⟩ | ⟨htoken, -⟩ <;> cases htoken

end Tokens

end MiniC
