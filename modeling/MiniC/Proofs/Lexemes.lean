import Mathlib.Data.List.Basic
import MiniC.Proofs.Gaps

/-!
# What a lexeme is

Which texts stand for which tokens is said here without the lexer: digits for a number, a letter and
letters or digits for a word, a spelling for an operator, a character or a row of characters between
quotes.  A text says so on its own.  What follows it decides only whether the lexeme ends there: a
number is followed by no digit, a word by no letter or digit, and an operator by nothing that would
make it a longer one.

Main definitions:

* `MiniC.Quotes`, `MiniC.Lexeme.Body`: the characters of quoted literals, as they are written;
* `MiniC.Lexeme.Denotes`: the text of a lexeme, and the token it stands for;
* `MiniC.Token.Kind.IsMaximal`: the lexeme of such a token ends in front of the text.

Main results:

* `MiniC.quotedChar_eq_ok_iff`: the lexer reads just the written characters of literals;
* `MiniC.Lexeme.first_eq_ok_iff`: it reads just the maximal lexemes.
-/

set_option autoImplicit false

namespace MiniC

/-! ### Characters of quoted literals -/

/-- The text stands for the character in a quoted literal, if `rest` follows it. -/
inductive Quotes : Char → List Char → List Char → Prop
  | plain {c : Char} {rest : List Char} : c ≠ '\\' → Quotes c [c] rest
  | escape {letter value : Char} {rest : List Char} :
      escape? letter = some value → Quotes value ['\\', letter] rest
  /-- The code is as long as it can be. -/
  | code {digits rest : List Char} : digits ≠ [] →
      (∀ d ∈ digits, Hexadecimal.isDigit d = true) → Hexadecimal.value digits < 256 →
      (∀ c ∈ rest.head?, Hexadecimal.isDigit c = false) →
      Quotes (Char.ofNat (Hexadecimal.value digits)) ('\\' :: 'x' :: digits) rest

/-- Only the first character of what follows matters. -/
theorem Quotes.of_head? {value : Char} {text rest rest' : List Char} (h : Quotes value text rest)
    (hhead : rest'.head? = rest.head?) : Quotes value text rest' := by
  cases h with
  | plain hc => exact .plain hc
  | escape he => exact .escape he
  | code hne hdigits hvalue hrest => exact .code hne hdigits hvalue (hhead ▸ hrest)

/-- A written character is not empty. -/
theorem Quotes.text_ne_nil {value : Char} {text rest : List Char} (h : Quotes value text rest) :
    text ≠ [] := by
  cases h <;> exact List.cons_ne_nil _ _

/-- The lexer reads just the written characters of literals. -/
theorem quotedChar_eq_ok_iff {literal : Quotation} {cs : List Char} {q : QuotedChar} :
    quotedChar literal cs = .ok q ↔ q.text ++ q.rest = cs ∧ Quotes q.value q.text q.rest := by
  constructor
  · intro h
    refine ⟨(quotedChar_text h).1, ?_⟩
    unfold quotedChar at h
    split at h
    · cases h
    · cases h
    · next cs =>
      obtain ⟨-, hdigits, hrest⟩ := Gap.takeWhile_dropWhile_eq_iff.1
        (⟨rfl, rfl⟩ : cs.takeWhile Hexadecimal.isDigit = _ ∧ cs.dropWhile Hexadecimal.isDigit = _)
      dsimp only at h
      split at h
      · next hvalue =>
        cases h
        exact .code hvalue.1 hdigits hvalue.2 hrest
      · cases h
    · split at h
      · next he =>
        cases h
        exact .escape he
      · cases h
    · next c cs hback hcode hescape =>
      cases h
      refine .plain fun hc => ?_
      cases cs with
      | nil => exact hback hc rfl
      | cons d cs => exact hescape d cs hc rfl
  · rintro ⟨rfl, h⟩
    obtain ⟨value, text, rest⟩ := q
    dsimp only at h ⊢
    cases h with
    | plain hc =>
      show quotedChar literal (value :: rest) = _
      rw [quotedChar]
      · exact fun h => absurd h hc
      · exact fun _ h => absurd h hc
      · exact fun _ _ h => absurd h hc
    | @escape letter _ _ he =>
      have hx : letter = 'x' → False := by rintro rfl; cases he
      show quotedChar literal ('\\' :: letter :: rest) = _
      rw [quotedChar, he]
      exact hx
    | @code digits _ hne hdigits hvalue hrest =>
      obtain ⟨htake, hdrop⟩ := Gap.takeWhile_dropWhile_eq_iff.2 ⟨rfl, hdigits, hrest⟩
      show quotedChar literal ('\\' :: 'x' :: (digits ++ rest)) = _
      rw [quotedChar, htake, hdrop, if_pos ⟨hne, hvalue⟩]

namespace Lexeme

/-! ### String literals -/

/-- The text stands for the characters of a string literal; the closing quote is its end. -/
inductive Body : List Char → List Char → Prop
  | nil : Body [] ['"']
  | cons {value : Char} {text : List Char} {values more : List Char} :
      Quotes value text more → text ≠ ['"'] → Body values more →
        Body (value :: values) (text ++ more)

theorem Body.text_ne_nil {values text : List Char} (h : Body values text) : text ≠ [] := by
  cases h with
  | nil => exact List.cons_ne_nil _ _
  | cons hq _ _ => exact List.append_ne_nil_of_left_ne_nil hq.text_ne_nil _

/-- Every character of a string literal takes at least one character to write. -/
theorem Body.length_le {values text : List Char} (h : Body values text) :
    values.length ≤ text.length := by
  induction h with
  | nil => exact Nat.zero_le _
  | cons hq _ _ ih =>
    have hpos := List.length_pos_iff.2 hq.text_ne_nil
    simp only [List.length_cons, List.length_append]
    omega

/-- What the lexer reads as the rest of a string literal is written so. -/
theorem body_of_stringBody {opening : Location} {fuel : Nat} {loc : Location}
    {cs values text rest : List Char}
    (h : stringBody opening fuel loc cs = .ok (values, text, rest)) : Body values text := by
  fun_induction stringBody opening fuel loc cs generalizing values text rest with
  | case1 => cases h
  | case2 => cases h; exact .nil
  | case3 => cases h
  | case4 => cases h
  | case5 => cases h
  | case6 fuel loc cs _ hquote q hq v t r hb ih =>
    cases h
    have hbody := ih hb
    obtain ⟨hcs, hwritten⟩ := quotedChar_eq_ok_iff.1 hq
    refine .cons (hwritten.of_head? ?_) ?_ hbody
    · -- What follows the character begins with what is left of the literal.
      rw [← append_of_stringBody hb, List.head?_append_of_ne_nil _ hbody.text_ne_nil]
    · intro htext
      rw [htext] at hcs
      exact hquote _ hcs.symm

/-- The lexer reads the written characters of a string literal, whatever follows its closing
quote. -/
theorem stringBody_of_body (opening : Location) {values text : List Char} (h : Body values text)
    {fuel : Nat} (hfuel : values.length ≤ fuel) (loc : Location) (rest : List Char) :
    stringBody opening fuel loc (text ++ rest) = .ok (values, text, rest) := by
  induction h generalizing fuel loc with
  | nil =>
    show stringBody opening fuel loc ('"' :: rest) = _
    cases fuel <;> rw [stringBody]
  | @cons value text values more hq hquote hbody ih =>
    obtain ⟨fuel, rfl⟩ : ∃ n, fuel = n + 1 := ⟨fuel - 1, by simp at hfuel; omega⟩
    have hread : quotedChar .string (text ++ (more ++ rest)) = .ok ⟨value, text, more ++ rest⟩ :=
      quotedChar_eq_ok_iff.2
        ⟨rfl, hq.of_head? (List.head?_append_of_ne_nil _ hbody.text_ne_nil)⟩
    have hnil : text ++ (more ++ rest) ≠ [] := List.append_ne_nil_of_left_ne_nil hq.text_ne_nil _
    have hnot : ∀ cs, text ++ (more ++ rest) = '"' :: cs → False := by
      intro cs hcs
      cases hq with
      | plain hc => exact hquote (by rw [(List.cons.inj hcs).1])
      | escape he => cases (List.cons.inj hcs).1
      | code => cases (List.cons.inj hcs).1
    rw [List.append_assoc, stringBody, hread]
    · simp only
      rw [ih (by simp at hfuel; omega)]
    · exact hnil
    · exact hnot

/-! ### The text of a lexeme -/

/-- The text is a word: a letter or underscore, and then letters, digits and underscores. -/
def IsWord : List Char → Prop
  | [] => False
  | c :: cs => isWordStart c = true ∧ ∀ d ∈ cs, isWordPart d = true

instance : DecidablePred IsWord
  | [] => isFalse id
  | c :: cs =>
    decidable_of_iff (isWordStart c = true ∧ cs.all isWordPart = true) <|
      and_congr_right fun _ => List.all_eq_true

/-- The text is a lexeme that stands for a token of this kind. -/
inductive Denotes : Token.Kind → List Char → Prop
  | int {digits : List Char} : digits ≠ [] → (∀ d ∈ digits, d.isDigit = true) →
      Decimal.InRange (Decimal.value digits) →
      Denotes (.int (Int64.ofNat (Decimal.value digits))) digits
  | ident {name : List Char} : IsWord name → Fixed.keyword? (String.ofList name) = none →
      Denotes (.ident (String.ofList name)) name
  | fixed (f : Fixed) : Denotes (.fixed f) f.spelling.toList
  | char {value : Char} {text : List Char} : Quotes value text ['\''] → value.toNat < 256 →
      Denotes (.char (UInt8.ofNat value.toNat).toInt8) ('\'' :: text ++ ['\''])
  | string {values text : List Char} : Body values text →
      Denotes (.string (String.ofList values)) ('"' :: text)

end Lexeme

/-- The lexeme of such a token ends where `behind` begins: the two together are no longer lexeme. -/
def Token.Kind.IsMaximal : Token.Kind → List Char → Prop
  | .int _, behind => ∀ c ∈ behind.head?, c.isDigit = false
  | .ident _, behind => ∀ c ∈ behind.head?, Lexeme.isWordPart c = false
  | .fixed f, behind =>
    if f ∈ Fixed.keywords then ∀ c ∈ behind.head?, Lexeme.isWordPart c = false
    else ∀ g ∈ Fixed.operators, g.spelling.toList <+: f.spelling.toList ++ behind →
      g.spelling.toList.length ≤ f.spelling.toList.length
  | .char _, _ => True
  | .string _, _ => True

/-- At the end of the text every lexeme ends. -/
theorem Token.Kind.isMaximal_nil (kind : Token.Kind) : kind.IsMaximal [] := by
  cases kind with
  | int value => exact fun c hc => absurd hc (by simp)
  | ident name => exact fun c hc => absurd hc (by simp)
  | fixed f =>
    rw [Token.Kind.IsMaximal]
    split
    · exact fun c hc => absurd hc (by simp)
    · intro g _ hg
      rw [List.append_nil] at hg
      exact hg.length_le
  | char value => exact trivial
  | string text => exact trivial

namespace Lexeme

/-! ### Words -/

/-- All digits come before all letters and the underscore. -/
theorem not_isDigit_of_isWordStart {c : Char} (h : isWordStart c = true) : c.isDigit = false := by
  rw [Bool.eq_false_iff]
  intro hdigit
  have hle : c.val ≤ '9'.val := of_decide_eq_true (Bool.and_eq_true_iff.1 hdigit).2
  rcases Bool.or_eq_true_iff.1 h with halpha | hunderscore
  · rcases Bool.or_eq_true_iff.1 halpha with hupper | hlower
    · exact absurd (UInt32.le_trans (of_decide_eq_true hupper).1 hle) (by decide)
    · have hge : 'a'.val ≤ c.val := of_decide_eq_true (Bool.and_eq_true_iff.1 hlower).1
      exact absurd (UInt32.le_trans hge hle) (by decide)
  · rw [beq_iff_eq.1 hunderscore] at hle
    exact absurd hle (by decide)

/-- Every character of a word may stand in a word. -/
theorem IsWord.forall_isWordPart {text : List Char} (h : IsWord text) :
    ∀ c ∈ text, isWordPart c = true := by
  cases text with
  | nil => exact h.elim
  | cons c cs => exact List.forall_mem_cons.2 ⟨isWordPart_of_isWordStart h.1, h.2⟩

theorem keyword?_eq_some_iff {word : String} {f : Fixed} :
    Fixed.keyword? word = some f ↔ f ∈ Fixed.keywords ∧ f.spelling = word := by
  constructor
  · intro h
    exact ⟨List.mem_of_find?_eq_some h, by simpa using List.find?_some h⟩
  · rintro ⟨hf, rfl⟩
    have key : ∀ f ∈ Fixed.keywords, Fixed.keyword? f.spelling = some f := by decide
    exact key f hf

/-- The keywords are words. -/
theorem isWord_spelling {f : Fixed} (hf : f ∈ Fixed.keywords) : IsWord f.spelling.toList := by
  have key : ∀ f ∈ Fixed.keywords, IsWord f.spelling.toList := by decide
  exact key f hf

/-- A word is what it is split into. -/
theorem word_eq {cs text rest : List Char} (htake : cs.takeWhile isWordPart = text)
    (hdrop : cs.dropWhile isWordPart = rest) :
    word cs = ⟨match Fixed.keyword? (String.ofList text) with
      | some keyword => .fixed keyword
      | none => .ident (String.ofList text), text, rest⟩ := by
  subst htake hdrop
  rfl

/-- The lexer reads a word up to where no letter or digit follows. -/
theorem first_of_isWord (loc : Location) {text rest : List Char} (ht : IsWord text)
    (hr : ∀ c ∈ rest.head?, isWordPart c = false) :
    first loc (text ++ rest) = .ok ⟨match Fixed.keyword? (String.ofList text) with
      | some keyword => .fixed keyword
      | none => .ident (String.ofList text), text, rest⟩ := by
  obtain ⟨htake, hdrop⟩ := Gap.takeWhile_dropWhile_eq_iff.2 ⟨rfl, ht.forall_isWordPart, hr⟩
  cases text with
  | nil => exact ht.elim
  | cons c cs =>
    have hc : c ≠ '\'' := by rintro rfl; cases ht.1
    have hs : c ≠ '"' := by rintro rfl; cases ht.1
    have hd : ¬c.isDigit = true := by simp [not_isDigit_of_isWordStart ht.1]
    rw [List.cons_append] at htake hdrop ⊢
    rw [first, if_neg hc, if_neg hs, if_neg hd, if_pos ht.1]
    exact congrArg Except.ok (word_eq htake hdrop)

/-- What the lexer reads as a word is one, and ends where no letter or digit follows. -/
theorem denotes_word {c : Char} {cs : List Char} (hc : isWordStart c = true) :
    Denotes (word (c :: cs)).kind (word (c :: cs)).text ∧
      (word (c :: cs)).kind.IsMaximal (word (c :: cs)).rest := by
  obtain ⟨-, hpart, hrest⟩ := Gap.takeWhile_dropWhile_eq_iff.1
    (⟨rfl, rfl⟩ : (c :: cs).takeWhile isWordPart = _ ∧ (c :: cs).dropWhile isWordPart = _)
  have htake : (c :: cs).takeWhile isWordPart = c :: cs.takeWhile isWordPart :=
    List.takeWhile_cons_of_pos (isWordPart_of_isWordStart hc)
  have hword : IsWord ((c :: cs).takeWhile isWordPart) := by
    rw [htake] at hpart ⊢
    exact ⟨hc, (List.forall_mem_cons.1 hpart).2⟩
  unfold word
  dsimp only
  split
  · next f hf =>
    obtain ⟨hmem, hname⟩ := keyword?_eq_some_iff.1 hf
    refine ⟨?_, ?_⟩
    · have hdenotes := Denotes.fixed f
      rwa [hname, String.toList_ofList] at hdenotes
    · rw [Token.Kind.IsMaximal, if_pos hmem]
      exact hrest
  · next hf => exact ⟨.ident hword hf, hrest⟩

/-! ### Operators -/

/-- The table of operators is sorted by length. -/
theorem pairwise_operators : Fixed.operators.Pairwise fun f g =>
    g.spelling.toList.length ≤ f.spelling.toList.length := by
  decide

/-- No operator begins like a token of another kind. -/
theorem operator_begin {f : Fixed} (hf : f ∈ Fixed.operators) :
    ∀ c ∈ f.spelling.toList.head?,
      c ≠ '\'' ∧ c ≠ '"' ∧ c.isDigit = false ∧ isWordStart c = false := by
  have key : ∀ f ∈ Fixed.operators, f.spelling.toList.head?.all (fun c =>
      c != '\'' && c != '"' && !c.isDigit && !isWordStart c) = true := by decide
  intro c hc
  have hbegin := key f hf
  rw [Option.mem_def.1 hc] at hbegin
  simpa [and_assoc] using hbegin

theorem not_mem_keywords {f : Fixed} (hf : f ∈ Fixed.operators) : f ∉ Fixed.keywords := by
  have key : ∀ f ∈ Fixed.operators, f ∉ Fixed.keywords := by decide
  exact key f hf

/-- What the lexer reads as an operator is the longest one that the text begins with. -/
theorem exists_of_operator {loc : Location} {cs : List Char} {x : Lexeme}
    (h : operator loc cs = .ok x) : ∃ f ∈ Fixed.operators,
      x.kind = .fixed f ∧ x.text = f.spelling.toList ∧ f.spelling.toList ++ x.rest = cs ∧
        ∀ g ∈ Fixed.operators, g.spelling.toList <+: cs →
          g.spelling.toList.length ≤ f.spelling.toList.length := by
  have hcovers := covers_operator h
  unfold operator at h
  split at h
  · next f hf =>
    cases h
    obtain ⟨-, before, after, htable, hbefore⟩ := List.find?_eq_some_iff_append.1 hf
    refine ⟨f, List.mem_of_find?_eq_some hf, rfl, rfl, hcovers.1, fun g hg hprefix => ?_⟩
    -- An operator of the table stands before the one found, is it, or stands behind it.
    rw [htable] at hg
    rcases List.mem_append.1 hg with hg | hg
    · have hno := hbefore g hg
      rw [List.isPrefixOf_iff_prefix.2 hprefix] at hno
      cases hno
    · rcases List.mem_cons.1 hg with rfl | hg
      · exact Nat.le_refl _
      · have hsorted := pairwise_operators
        rw [htable] at hsorted
        exact (List.pairwise_cons.1 (List.pairwise_append.1 hsorted).2.1).1 g hg
  · cases h

/-- The lexer reads an operator where no longer one begins. -/
theorem first_of_operator (loc : Location) {f : Fixed} (hf : f ∈ Fixed.operators)
    {rest : List Char} (hmax : ∀ g ∈ Fixed.operators,
      g.spelling.toList <+: f.spelling.toList ++ rest →
        g.spelling.toList.length ≤ f.spelling.toList.length) :
    first loc (f.spelling.toList ++ rest) = .ok ⟨.fixed f, f.spelling.toList, rest⟩ := by
  have hoperator : operator loc (f.spelling.toList ++ rest) =
      .ok ⟨.fixed f, f.spelling.toList, rest⟩ := by
    cases h : operator loc (f.spelling.toList ++ rest) with
    | error e =>
      -- The table has an operator to be found.
      unfold operator at h
      split at h
      · cases h
      · next hnone =>
        exact absurd (List.isPrefixOf_iff_prefix.2 (List.prefix_append _ _))
          (List.find?_eq_none.1 hnone f hf)
    | ok x =>
      obtain ⟨g, hg, hkind, htext, hcover, hlongest⟩ := exists_of_operator h
      have hlength : g.spelling.toList.length = f.spelling.toList.length :=
        Nat.le_antisymm (hmax g hg ⟨_, hcover⟩) (hlongest f hf (List.prefix_append _ _))
      obtain ⟨hspelling, hrest⟩ := List.append_inj hcover hlength
      obtain rfl := Fixed.spelling_injective (String.toList_inj.1 hspelling)
      obtain ⟨kind, text, rest'⟩ := x
      dsimp only at hkind htext hrest
      rw [hkind, htext, hrest]
  rw [← hoperator]
  have hbegin := operator_begin hf
  cases hspelling : f.spelling.toList with
  | nil => exact absurd hspelling (spelling_ne_nil f)
  | cons c cs =>
    rw [hspelling] at hbegin
    obtain ⟨hc, hs, hd, hw⟩ := hbegin c rfl
    rw [List.cons_append, first, if_neg hc, if_neg hs, if_neg (by simp [hd]), if_neg (by simp [hw])]

/-! ### The lexer reads just the lexemes -/

/-- What the lexer reads as an operator is one, and ends where no longer one begins. -/
theorem denotes_operator {loc : Location} {cs : List Char} {x : Lexeme}
    (h : operator loc cs = .ok x) : Denotes x.kind x.text ∧ x.kind.IsMaximal x.rest := by
  obtain ⟨f, hf, hkind, htext, hcover, hmax⟩ := exists_of_operator h
  rw [hkind, htext, Token.Kind.IsMaximal, if_neg (not_mem_keywords hf), hcover]
  exact ⟨.fixed f, hmax⟩

/-- What the lexer reads as a number is one, and ends where no digit follows. -/
theorem denotes_number {loc : Location} {c : Char} {cs : List Char} {x : Lexeme}
    (hc : c.isDigit = true) (h : number loc (c :: cs) = .ok x) :
    Denotes x.kind x.text ∧ x.kind.IsMaximal x.rest := by
  obtain ⟨-, hdigits, hrest⟩ := Gap.takeWhile_dropWhile_eq_iff.1
    (⟨rfl, rfl⟩ : (c :: cs).takeWhile Char.isDigit = _ ∧ (c :: cs).dropWhile Char.isDigit = _)
  unfold number at h
  dsimp only at h
  split at h
  · next hrange =>
    cases h
    exact ⟨.int (takeWhile_ne_nil cs hc) hdigits hrange, hrest⟩
  · cases h

theorem denotes_character {loc : Location} {cs : List Char} {x : Lexeme}
    (h : character loc cs = .ok x) : Denotes x.kind x.text ∧ x.kind.IsMaximal x.rest := by
  unfold character at h
  split at h
  · cases h
  · next q hq =>
    split at h
    · next rest hrest =>
      split at h
      · next hbyte =>
        cases h
        obtain ⟨-, hwritten⟩ := quotedChar_eq_ok_iff.1 hq
        exact ⟨.char (hwritten.of_head? (by rw [hrest]; rfl)) hbyte, trivial⟩
      · cases h
    · cases h

theorem denotes_string {loc : Location} {cs : List Char} {x : Lexeme}
    (h : string loc cs = .ok x) : Denotes x.kind x.text ∧ x.kind.IsMaximal x.rest := by
  unfold string at h
  split at h
  · cases h
  · next hbody =>
    cases h
    exact ⟨.string (body_of_stringBody hbody), trivial⟩

/-- What the lexer reads is a lexeme, and it goes on as long as it can. -/
theorem denotes_of_first {loc : Location} {cs : List Char} {x : Lexeme}
    (h : first loc cs = .ok x) : Denotes x.kind x.text ∧ x.kind.IsMaximal x.rest := by
  cases cs with
  | nil =>
    rw [first] at h
    exact denotes_operator h
  | cons c cs =>
    rw [first] at h
    split at h
    · exact denotes_character h
    · split at h
      · exact denotes_string h
      · split at h
        · next hd => exact denotes_number hd h
        · split at h
          · next hw =>
            cases h
            exact denotes_word hw
          · exact denotes_operator h

/-- The lexer reads a lexeme where it ends. -/
theorem first_of_denotes (loc : Location) {kind : Token.Kind} {text rest : List Char}
    (h : Denotes kind text) (hmax : kind.IsMaximal rest) :
    first loc (text ++ rest) = .ok ⟨kind, text, rest⟩ := by
  cases h with
  | int hne hdigits hrange =>
    obtain ⟨htake, hdrop⟩ := Gap.takeWhile_dropWhile_eq_iff.2 ⟨rfl, hdigits, hmax⟩
    cases text with
    | nil => exact absurd rfl hne
    | cons c cs =>
      have hdigit : c.isDigit = true := hdigits c List.mem_cons_self
      have hc : c ≠ '\'' := by rintro rfl; cases hdigit
      have hs : c ≠ '"' := by rintro rfl; cases hdigit
      rw [List.cons_append] at htake hdrop ⊢
      rw [first, if_neg hc, if_neg hs, if_pos hdigit, number, htake, hdrop, if_pos hrange]
  | ident hword hname => rw [first_of_isWord loc hword hmax, hname]
  | fixed f =>
    rw [Token.Kind.IsMaximal] at hmax
    split at hmax
    · next hf =>
      rw [first_of_isWord loc (isWord_spelling hf) hmax, String.ofList_toList,
        keyword?_eq_some_iff.2 ⟨hf, rfl⟩]
    · next hf =>
      exact first_of_operator loc (f.mem_keywords_or_mem_operators.resolve_left hf) hmax
  | @char value text hwritten hbyte =>
    have hread : quotedChar .character (text ++ '\'' :: rest) = .ok ⟨value, text, '\'' :: rest⟩ :=
      quotedChar_eq_ok_iff.2 ⟨rfl, hwritten.of_head? rfl⟩
    have htext : '\'' :: text ++ ['\''] ++ rest = '\'' :: (text ++ '\'' :: rest) := by simp
    rw [htext, first, if_pos rfl, character, hread]
    simp only
    rw [if_pos hbyte]
  | @string values text hbody =>
    have hfuel : values.length ≤ (text ++ rest).length := by
      have hle := hbody.length_le
      rw [List.length_append]
      omega
    rw [List.cons_append, first, if_neg (by decide), if_pos rfl, string,
      stringBody_of_body loc hbody hfuel]

/-- The lexer reads just the maximal lexemes. -/
theorem first_eq_ok_iff {loc : Location} {cs : List Char} {x : Lexeme} :
    first loc cs = .ok x ↔
      x.text ++ x.rest = cs ∧ Denotes x.kind x.text ∧ x.kind.IsMaximal x.rest := by
  constructor
  · intro h
    refine ⟨?_, denotes_of_first h⟩
    cases cs with
    | nil =>
      rw [first] at h
      exact (covers_operator h).1
    | cons c cs => exact (covers_first h).1
  · rintro ⟨rfl, hdenotes, hmax⟩
    exact first_of_denotes loc hdenotes hmax

end Lexeme

end MiniC
