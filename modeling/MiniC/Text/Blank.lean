/-!
# Blank characters and words

Two notions of blank: the five ASCII blanks that may stand between tokens, and the white space of
Unicode, which separates the words of a line of input.

Main definitions:

* `MiniC.Blank.isAscii`: space, tab, newline, form feed, carriage return;
* `MiniC.Blank.isSpace`: the characters with the Unicode property White_Space;
* `MiniC.Blank.words`: the non-empty runs of other characters.

Main results:

* `MiniC.Blank.isSpace_of_isAscii`: every ASCII blank is white space;
* `MiniC.Blank.words_append_space`: a text followed by white space has the words of both sides;
* `MiniC.Blank.words_of_not_isSpace`: a text without white space is a word.
-/

set_option autoImplicit false

namespace MiniC.Blank

/-- The ASCII blanks: space, tab, newline, form feed and carriage return. -/
def isAscii (c : Char) : Bool :=
  c == ' ' || c == '\t' || c == '\n' || c == '\x0c' || c == '\r'

/-- The Unicode property White_Space, a property of 25 characters. -/
def isSpace (c : Char) : Bool :=
  let n := c.toNat
  (0x09 ≤ n && n ≤ 0x0d) || n == 0x20 || n == 0x85 || n == 0xa0 || n == 0x1680 ||
    (0x2000 ≤ n && n ≤ 0x200a) || n == 0x2028 || n == 0x2029 || n == 0x202f || n == 0x205f ||
    n == 0x3000

theorem isSpace_of_isAscii {c : Char} (h : isAscii c = true) : isSpace c = true := by
  simp only [isAscii, Bool.or_eq_true, beq_iff_eq] at h
  rcases h with (((h | h) | h) | h) | h <;> subst h <;> decide

/-- Collects words: `word` holds the characters of the word being read, last one first. -/
def wordsFrom (word : List Char) : List Char → List (List Char)
  | [] => if word.isEmpty then [] else [word.reverse]
  | c :: cs =>
    if isSpace c then
      if word.isEmpty then wordsFrom [] cs else word.reverse :: wordsFrom [] cs
    else wordsFrom (c :: word) cs

/-- The words of a text: its maximal runs of characters that are not white space. -/
def words (cs : List Char) : List (List Char) := wordsFrom [] cs

@[simp] theorem words_nil : words [] = [] := rfl

theorem wordsFrom_append_space (word cs ds : List Char) {c : Char} (h : isSpace c = true) :
    wordsFrom word (cs ++ c :: ds) = wordsFrom word cs ++ words ds := by
  induction cs generalizing word with
  | nil =>
    by_cases hw : word.isEmpty <;> simp [wordsFrom, words, h, hw]
  | cons d cs ih =>
    by_cases hd : isSpace d
    · by_cases hw : word.isEmpty <;> simp [wordsFrom, hd, hw, ih]
    · simp [wordsFrom, hd, ih]

/-- White space after a text separates its words from those that follow. -/
theorem words_append_space (cs ds : List Char) {c : Char} (h : isSpace c = true) :
    words (cs ++ c :: ds) = words cs ++ words ds :=
  wordsFrom_append_space [] cs ds h

/-- Characters none of which is white space go on a word. -/
theorem wordsFrom_of_not_isSpace (word : List Char) {cs : List Char}
    (h : ∀ c ∈ cs, isSpace c = false) (hne : cs ≠ [] ∨ word ≠ []) :
    wordsFrom word cs = [word.reverse ++ cs] := by
  induction cs generalizing word with
  | nil =>
    have hword : word.isEmpty = false := by simpa using hne
    rw [wordsFrom, hword, List.append_nil]
    rfl
  | cons c cs ih =>
    have hcs := ih (c :: word) (fun d hd => h d (List.mem_cons_of_mem c hd))
      (.inr (List.cons_ne_nil c word))
    simpa [wordsFrom, h c List.mem_cons_self] using hcs

/-- A text without white space is a word. -/
theorem words_of_not_isSpace {cs : List Char} (hne : cs ≠ []) (h : ∀ c ∈ cs, isSpace c = false) :
    words cs = [cs] :=
  wordsFrom_of_not_isSpace [] h (.inl hne)

end MiniC.Blank
