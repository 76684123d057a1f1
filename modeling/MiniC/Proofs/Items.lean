import MiniC.Input

/-!
# Input as one stream

Input is read line by line, and lines word by word, but that is not noticed from outside: what is
left to read is one stream of items, and each reading takes the first of them.  An item is a word,
or a line that is not UTF-8.  The items of a text that is UTF-8 are its words, wherever its lines
end.

Main definitions:

* `MiniC.Input.Item`, `MiniC.Input.itemsOf`, `MiniC.Input.items`: the items of some bytes, and of
  what is left to read;
* `MiniC.Input.Item.Answered`: what reading an item yields, or reading behind the last one;
* `MiniC.Input.answer`: what a later reading yields.

Main results:

* `MiniC.Input.fst_next`, `MiniC.Input.items_next`: reading takes the first item;
* `MiniC.Input.itemsOf_eq_words`: the items of a text are its words.
-/

set_option autoImplicit false

namespace MiniC.Input

/-! ### Items -/

/-- What is read at once: a word, or a line that is not UTF-8. -/
inductive Item where
  | word (cs : List Char)
  | undecodable
deriving DecidableEq, Repr, Inhabited

namespace Item

/-- What reading an item yields. -/
def read : Item → Except InputError Int64
  | word cs => readWord cs
  | undecodable => .error .notText

/-- What reading yields if a certain item comes next, or none: the number that a numeral of 64 bits
denotes, or an error. -/
inductive Answered : Option Item → Except InputError Int64 → Prop
  | number {cs : List Char} {n : Int64} :
      Decimal.Denotes cs n.toInt → Answered (some (word cs)) (.ok n)
  | notInteger {cs : List Char} : (∀ n : Int64, ¬Decimal.Denotes cs n.toInt) →
      Answered (some (word cs)) (.error (.notInteger (String.ofList cs)))
  | undecodable : Answered (some undecodable) (.error .notText)
  | exhausted : Answered none (.error .exhausted)

theorem answered_read (item : Item) : Answered (some item) item.read := by
  cases item with
  | undecodable => exact .undecodable
  | word cs =>
    rw [read, readWord]
    cases hcs : Decimal.int64? cs with
    | some n => exact .number (Decimal.int64?_eq_some_iff.1 hcs)
    | none =>
      refine .notInteger fun n hn => ?_
      rw [Decimal.int64?_eq_some_iff.2 hn] at hcs
      cases hcs

end Item

/-- The items of a line. -/
def lineItems (line : List UInt8) : List Item :=
  match decode? line with
  | some cs => (Blank.words cs).map .word
  | none => [.undecodable]

/-- The items of some bytes, line by line. -/
def itemsOf (bytes : List UInt8) : List Item := (linesOf bytes).flatMap lineItems

/-- The items that are left to read. -/
def items (i : Input) : List Item := i.pending.map .word ++ i.lines.flatMap lineItems

theorem items_ofBytes (bytes : List UInt8) : (ofBytes bytes).items = itemsOf bytes := rfl

/-! ### Reading -/

/-- What reading yields once `k` items have been read. -/
def answer (i : Input) (k : Nat) : Except InputError Int64 :=
  match i.items[k]? with
  | some item => item.read
  | none => .error i.ending

/-- Where the end of the input is no failure of its own, items are answered. -/
theorem answered_answer {i : Input} (h : i.ending = .exhausted) (k : Nat) :
    Item.Answered i.items[k]? (i.answer k) := by
  unfold answer
  cases i.items[k]? with
  | some item => exact item.answered_read
  | none =>
    rw [h]
    exact .exhausted

/-- Lines without words are passed over; then the first item is taken, by induction on the lines. -/
theorem nextFrom_eq (ending : InputError) (pending : List (List Char))
    (lines : List (List UInt8)) :
    (nextFrom ending pending lines).1 = answer ⟨pending, lines, ending⟩ 0 ∧
      (nextFrom ending pending lines).2.items = (items ⟨pending, lines, ending⟩).tail := by
  induction lines generalizing pending with
  | nil => cases pending <;> exact ⟨rfl, rfl⟩
  | cons line lines ih =>
    cases pending with
    | cons word words => exact ⟨rfl, rfl⟩
    | nil =>
      have hitems : items ⟨[], line :: lines, ending⟩ = lineItems line ++ lines.flatMap lineItems :=
        List.flatMap_cons
      rw [answer, hitems, nextFrom, lineItems]
      cases decode? line with
      | none => exact ⟨rfl, rfl⟩
      | some cs => exact ih (Blank.words cs)

/-- Reading yields what the first item says. -/
theorem fst_next (i : Input) : i.next.1 = i.answer 0 := (nextFrom_eq _ _ _).1

/-- Reading takes the first item. -/
theorem items_next (i : Input) : i.next.2.items = i.items.tail := (nextFrom_eq _ _ _).2

/-! ### Lines and UTF-8 -/

/-- Bytes are UTF-8 if they are the encodings of some characters. -/
theorem decode?_eq_some_iff {bytes : List UInt8} {cs : List Char} :
    decode? bytes = some cs ↔ cs.flatMap String.utf8EncodeChar = bytes := by
  unfold decode? String.fromUTF8?
  constructor
  · intro h
    split at h
    · next hvalid =>
      have hbytes := String.utf8Encode_toList (b := String.fromUTF8 bytes.toByteArray hvalid)
      rw [show (String.fromUTF8 bytes.toByteArray hvalid).toList = cs from Option.some.inj h]
        at hbytes
      have hlist := congrArg (fun b => b.data.toList) hbytes
      simpa [List.utf8Encode, String.fromUTF8] using hlist
    · cases h
  · rintro rfl
    have hvalid : (cs.flatMap String.utf8EncodeChar).toByteArray.IsValidUTF8 := ⟨cs, rfl⟩
    rw [dif_pos hvalid]
    exact congrArg some String.toList_ofList

/-- The bytes of an array, one after the other. -/
theorem toList_byteArray (bytes : ByteArray) : bytes.toList = bytes.data.toList := by
  have hloop : ∀ (i : Nat) (acc : List UInt8),
      ByteArray.toList.loop bytes i acc = acc.reverse ++ bytes.data.toList.drop i := by
    intro i acc
    fun_induction ByteArray.toList.loop bytes i acc with
    | case1 i acc hi ih =>
      have hdrop := List.drop_eq_getElem_cons (l := bytes.data.toList) (i := i) (by simpa using hi)
      rw [ih, hdrop]
      simp [ByteArray.get!, hi]
    | case2 i acc hi =>
      have hend : bytes.data.toList.length ≤ i := by simpa using Nat.le_of_not_lt hi
      rw [List.drop_eq_nil_of_le hend, List.append_nil]
  rw [ByteArray.toList, hloop]
  rfl

/-- The bytes of a text are those of its characters. -/
theorem decode?_toUTF8 (s : String) : decode? s.toUTF8.toList = some s.toList := by
  have hbytes := congrArg (fun b => b.data.toList) (String.utf8Encode_toList (b := s))
  rw [decode?_eq_some_iff, toList_byteArray, String.toUTF8_eq_toByteArray]
  simpa [List.utf8Encode] using hbytes

/-- The byte that ends a line occurs in the encoding of one character only. -/
theorem eq_newline_of_mem_utf8EncodeChar {c : Char} (h : newline ∈ String.utf8EncodeChar c) :
    c = '\n' := by
  -- All bytes of a longer encoding are above 127.
  have high : ∀ k : Nat, 128 ≤ k → k < 256 → newline ≠ UInt8.ofNat k := by
    intro k hk hk' h
    have htoNat := congrArg UInt8.toNat h
    rw [UInt8.toNat_ofNat_of_lt' hk'] at htoNat
    change 10 = k at htoNat
    omega
  simp only [String.utf8EncodeChar] at h
  split at h
  · next hv =>
    have htoNat := congrArg UInt8.toNat (List.mem_singleton.1 h)
    rw [UInt8.toNat_ofNat_of_lt' (by show c.val.toNat < 256; omega)] at htoNat
    exact Char.ext (UInt32.toNat_inj.1 htoNat.symm)
  · exfalso
    split at h
    · simp only [List.mem_cons, List.not_mem_nil, or_false] at h
      rcases h with h | h <;> exact high _ (by omega) (by omega) h
    · split at h <;> simp only [List.mem_cons, List.not_mem_nil, or_false] at h
      · rcases h with h | h | h <;> exact high _ (by omega) (by omega) h
      · rcases h with h | h | h | h <;> exact high _ (by omega) (by omega) h

/-- Bytes without the one that ends a line go on the line. -/
theorem linesFrom_append {xs : List UInt8} (h : newline ∉ xs) (line ys : List UInt8) :
    linesFrom line (xs ++ ys) = linesFrom (xs.reverse ++ line) ys := by
  induction xs generalizing line with
  | nil => rfl
  | cons x xs ih =>
    rw [List.mem_cons, not_or] at h
    rw [List.cons_append, linesFrom, if_neg (Ne.symm h.1), ih h.2, List.reverse_cons,
      List.append_assoc]
    rfl

theorem lineItems_of_decode? {bytes : List UInt8} {cs : List Char} (h : decode? bytes = some cs) :
    lineItems bytes = (Blank.words cs).map .word := by
  rw [lineItems, h]

/-- The words of a text of which `ds` has been read on the same line, by induction on the rest. -/
theorem flatMap_lineItems_linesFrom (cs ds : List Char) :
    (linesFrom (ds.flatMap String.utf8EncodeChar).reverse
      (cs.flatMap String.utf8EncodeChar)).flatMap lineItems =
      (Blank.words (ds ++ cs)).map .word := by
  induction cs generalizing ds with
  | nil =>
    rw [List.append_nil, ← lineItems_of_decode? (decode?_eq_some_iff.2 rfl), List.flatMap_nil,
      linesFrom, List.reverse_reverse]
    cases hds : ds.flatMap String.utf8EncodeChar with
    | nil => rfl
    | cons b bs => simp
  | cons c cs ih =>
    by_cases hc : c = '\n'
    · -- The line ends here, and its words are those before the newline.
      subst hc
      have hnewline : String.utf8EncodeChar '\n' = [newline] := rfl
      have hline : decode? (newline :: (ds.flatMap String.utf8EncodeChar).reverse).reverse =
          some (ds ++ ['\n']) := by
        rw [decode?_eq_some_iff, List.flatMap_append]
        simp [hnewline]
      have hrest := ih []
      rw [List.flatMap_cons, hnewline, List.singleton_append, linesFrom, if_pos rfl,
        List.flatMap_cons, lineItems_of_decode? hline,
        Blank.words_append_space ds [] (by decide), Blank.words_append_space ds cs (by decide),
        Blank.words_nil, List.append_nil, List.map_append]
      exact congrArg _ hrest
    · have hplain : newline ∉ String.utf8EncodeChar c :=
        fun h => hc (eq_newline_of_mem_utf8EncodeChar h)
      have hrest := ih (ds ++ [c])
      rw [List.flatMap_append, List.flatMap_singleton, List.reverse_append, List.append_assoc,
        List.singleton_append] at hrest
      rw [List.flatMap_cons, linesFrom_append hplain, hrest]

/-- The items of a text are its words, wherever its lines end. -/
theorem itemsOf_eq_words {bytes : List UInt8} {cs : List Char} (h : decode? bytes = some cs) :
    itemsOf bytes = (Blank.words cs).map .word := by
  obtain rfl := decode?_eq_some_iff.1 h
  exact flatMap_lineItems_linesFrom cs []

end MiniC.Input
