/-!
# Numbers as text

Decimal and hexadecimal numerals as lists of characters, and the signed decimal text of an
integer.  Only ASCII digits are digits here.

Main definitions:

* `MiniC.Decimal.render`: the canonical decimal text of an integer;
* `MiniC.Decimal.parse?`: reads an optional sign and at least one digit;
* `MiniC.Decimal.int64?`: the same, refused outside the 64-bit range;
* `MiniC.Decimal.Denotes`: the integer that a numeral denotes;
* `MiniC.Hexadecimal.value`, `MiniC.Hexadecimal.render`: numerals in base sixteen.

Main results:

* `MiniC.Decimal.parse?_render`: the canonical text of an integer reads back as that integer;
* `MiniC.Decimal.int64?_render`: so does the text of every 64-bit integer, both extremes included;
* `MiniC.Decimal.int64?_eq_some_iff`: just the numerals of 64-bit integers are read as such.
-/

set_option autoImplicit false

namespace MiniC

namespace Decimal

/-- The number that a run of decimal digits denotes, most significant digit first. -/
def value (cs : List Char) : Nat := Nat.ofDigitChars 10 cs 0

/-- The decimal text of a natural number, without leading zeros. -/
def natText (n : Nat) : List Char := Nat.toDigits 10 n

@[simp] theorem value_natText (n : Nat) : value (natText n) = n :=
  Nat.ofDigitChars_ten_toDigits

theorem natText_ne_nil (n : Nat) : natText n ≠ [] := Nat.toDigits_ne_nil

theorem isDigit_of_mem_natText {n : Nat} {c : Char} (h : c ∈ natText n) : c.isDigit = true :=
  Nat.isDigit_of_mem_toDigits (by decide) (by decide) h

/-- The decimal text of an integer: a minus sign if it is negative, then its digits. -/
def render : Int → List Char
  | .ofNat n => natText n
  | .negSucc n => '-' :: natText (n + 1)

/-- Reads digits alone: at least one, and nothing else. -/
def nat? (cs : List Char) : Option Nat :=
  if cs ≠ [] ∧ cs.all Char.isDigit = true then some (value cs) else none

@[simp] theorem nat?_natText (n : Nat) : nat? (natText n) = some n := by
  have h : (natText n).all Char.isDigit = true :=
    List.all_eq_true.2 fun _ hc => isDigit_of_mem_natText hc
  simp [nat?, h, natText_ne_nil]

/-- Reads an optional `+` or `-` and then at least one digit, and nothing else. -/
def parse? : List Char → Option Int
  | '-' :: cs => (nat? cs).map fun n : Nat => -(n : Int)
  | '+' :: cs => (nat? cs).map fun n : Nat => (n : Int)
  | cs => (nat? cs).map fun n : Nat => (n : Int)

theorem parse?_natText (n : Nat) : parse? (natText n) = some (n : Int) := by
  have hd : ∀ c ∈ natText n, c.isDigit = true := fun _ hc => isDigit_of_mem_natText hc
  unfold parse?
  split
  · next h => exact absurd (hd '-' (by simp [h])) (by decide)
  · next h => exact absurd (hd '+' (by simp [h])) (by decide)
  · simp

/-- The canonical text of an integer reads back as that integer. -/
theorem parse?_render (n : Int) : parse? (render n) = some n := by
  cases n with
  | ofNat n => exact parse?_natText n
  | negSucc n => simp [render, parse?, Int.negSucc_eq]

/-- The integer is in the range of 64-bit integers. -/
def InRange (n : Int) : Prop := Int64.minValue.toInt ≤ n ∧ n ≤ Int64.maxValue.toInt

instance (n : Int) : Decidable (InRange n) := inferInstanceAs (Decidable (_ ∧ _))

theorem inRange_toInt (n : Int64) : InRange n.toInt :=
  ⟨Int64.minValue_le_toInt n, Int64.toInt_le n⟩

/-- Reads a signed decimal number that fits 64 bits. -/
def int64? (cs : List Char) : Option Int64 :=
  match parse? cs with
  | some n => if InRange n then some (Int64.ofInt n) else none
  | none => none

/-- The text of a 64-bit integer reads back as that integer, both extremes included. -/
theorem int64?_render (n : Int64) : int64? (render n.toInt) = some n := by
  simp [int64?, parse?_render, inRange_toInt]

/-! ### What is read as a number -/

/-- The text is a numeral of the integer: at least one digit, behind a sign or none. -/
inductive Denotes : List Char → Int → Prop
  | plain {ds : List Char} : ds ≠ [] → (∀ d ∈ ds, d.isDigit = true) → Denotes ds (value ds)
  | plus {ds : List Char} : ds ≠ [] → (∀ d ∈ ds, d.isDigit = true) → Denotes ('+' :: ds) (value ds)
  | minus {ds : List Char} : ds ≠ [] → (∀ d ∈ ds, d.isDigit = true) →
      Denotes ('-' :: ds) (-(value ds : Int))

theorem nat?_eq_some_iff {cs : List Char} {n : Nat} :
    nat? cs = some n ↔ (cs ≠ [] ∧ ∀ c ∈ cs, c.isDigit = true) ∧ value cs = n := by
  simp only [nat?, List.all_eq_true, Option.ite_none_right_eq_some, Option.some.injEq]

/-- Just the numerals are read, each as the integer that it denotes. -/
theorem parse?_eq_some_iff {cs : List Char} {n : Int} : parse? cs = some n ↔ Denotes cs n := by
  constructor
  · intro h
    unfold parse? at h
    split at h <;> obtain ⟨k, hk, rfl⟩ := Option.map_eq_some_iff.1 h <;>
      obtain ⟨⟨hne, hdigits⟩, rfl⟩ := nat?_eq_some_iff.1 hk
    · exact .minus hne hdigits
    · exact .plus hne hdigits
    · exact .plain hne hdigits
  · intro h
    cases h with
    | plain hne hdigits =>
      have hnat := nat?_eq_some_iff.2 ⟨⟨hne, hdigits⟩, rfl⟩
      unfold parse?
      -- A sign is no digit.
      split
      · exact absurd (hdigits '-' List.mem_cons_self) (by decide)
      · exact absurd (hdigits '+' List.mem_cons_self) (by decide)
      · rw [hnat, Option.map_some]
    | plus hne hdigits =>
      rw [parse?, nat?_eq_some_iff.2 ⟨⟨hne, hdigits⟩, rfl⟩, Option.map_some]
    | minus hne hdigits =>
      rw [parse?, nat?_eq_some_iff.2 ⟨⟨hne, hdigits⟩, rfl⟩, Option.map_some]

/-- Just the numerals of 64-bit integers are read as such. -/
theorem int64?_eq_some_iff {cs : List Char} {n : Int64} :
    int64? cs = some n ↔ Denotes cs n.toInt := by
  unfold int64?
  constructor
  · intro h
    split at h
    · next k hk =>
      obtain ⟨⟨hmin, hmax⟩, hn⟩ := Option.ite_none_right_eq_some.1 h
      have hexact : (Int64.ofInt k).toInt = k :=
        Int64.toInt_ofInt_of_le hmin (Int.lt_of_le_of_lt hmax (by decide))
      rw [← Option.some.inj hn, hexact]
      exact parse?_eq_some_iff.1 hk
    · cases h
  · intro h
    rw [parse?_eq_some_iff.2 h]
    simp [inRange_toInt]

/-- The decimal text of an integer, as a string. -/
def text (n : Int) : String := String.ofList (render n)

end Decimal

namespace Hexadecimal

/-- An ASCII hexadecimal digit, in either case. -/
def isDigit (c : Char) : Bool :=
  c.isDigit || ('a' ≤ c && c ≤ 'f') || ('A' ≤ c && c ≤ 'F')

/-- What a hexadecimal digit stands for. -/
def digit (c : Char) : Nat :=
  if c.isDigit then c.toNat - '0'.toNat
  else if 'a' ≤ c then c.toNat - 'a'.toNat + 10
  else c.toNat - 'A'.toNat + 10

/-- The number that a run of hexadecimal digits denotes, most significant digit first. -/
def value (cs : List Char) : Nat := cs.foldl (fun n c => 16 * n + digit c) 0

@[simp] theorem value_nil : value [] = 0 := rfl

/-- The hexadecimal text of a number, in lower case and without leading zeros. -/
def render (n : Nat) : List Char := Nat.toDigits 16 n

end Hexadecimal

end MiniC
