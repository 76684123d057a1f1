import MiniC.Text.Blank
import MiniC.Text.Decimal

/-!
# Integers from a stream of bytes

Input is read line by line, and a line word by word.  A line that is not UTF-8 and a word that is
no 64-bit integer are errors; both are passed over by being read.  Input that cannot be read fails
in the same way each time.

Main definitions:

* `MiniC.Input`, `MiniC.Input.ofBytes`, `MiniC.Input.unreadable`: what is left to read;
* `MiniC.Input.next`: the next integer.

Main results:

* `MiniC.Input.flatten_linesOf`: the lines of some bytes are those bytes;
* `MiniC.Input.ending_next`: how reading ends is never changed by reading.
-/

set_option autoImplicit false

namespace MiniC

/-- Why no integer is read. -/
inductive InputError where
  /-- A word is no 64-bit integer. -/
  | notInteger (word : String)
  /-- A line is not UTF-8. -/
  | notText
  /-- Nothing is left. -/
  | exhausted
  /-- The bytes cannot be read. -/
  | unreadable (reason : String)
deriving DecidableEq, Repr, Inhabited

/-- The text of an error. -/
def InputError.message : InputError → String
  | notInteger word => "expected an integer, found '" ++ word ++ "'"
  | notText => "stream did not contain valid UTF-8"
  | exhausted => "no integer left in input"
  | unreadable reason => reason

/-- What is left to read: the words of a line that was begun, the lines behind it, and the error
that reading past the last line is. -/
structure Input where
  pending : List (List Char)
  lines : List (List UInt8)
  ending : InputError
deriving DecidableEq, Repr, Inhabited

namespace Input

/-- The byte that ends a line. -/
def newline : UInt8 := 10

/-- Splits bytes behind every newline.  `line` holds the bytes of the line being read, last one
first. -/
def linesFrom (line : List UInt8) : List UInt8 → List (List UInt8)
  | [] => if line.isEmpty then [] else [line.reverse]
  | b :: bs =>
    if b = newline then (b :: line).reverse :: linesFrom [] bs else linesFrom (b :: line) bs

/-- The lines of some bytes, each with the newline that ends it. -/
def linesOf (bytes : List UInt8) : List (List UInt8) := linesFrom [] bytes

/-- The input that some bytes are. -/
def ofBytes (bytes : List UInt8) : Input := ⟨[], linesOf bytes, .exhausted⟩

/-- The input that cannot be read. -/
def unreadable (reason : String) : Input := ⟨[], [], .unreadable reason⟩

/-- The characters of some bytes, if they are UTF-8. -/
def decode? (bytes : List UInt8) : Option (List Char) :=
  (String.fromUTF8? bytes.toByteArray).map String.toList

/-- Reads a word as an integer. -/
def readWord (word : List Char) : Except InputError Int64 :=
  match Decimal.int64? word with
  | some n => .ok n
  | none => .error (.notInteger (String.ofList word))

/-- The next integer of some words and the lines behind them, and what is left. -/
def nextFrom (ending : InputError) (pending : List (List Char)) (lines : List (List UInt8)) :
    Except InputError Int64 × Input :=
  match pending, lines with
  | word :: words, lines => (readWord word, ⟨words, lines, ending⟩)
  | [], [] => (.error ending, ⟨[], [], ending⟩)
  | [], line :: lines =>
    match decode? line with
    | some cs => nextFrom ending (Blank.words cs) lines
    | none => (.error .notText, ⟨[], lines, ending⟩)
termination_by structural lines

/-- The next integer, and what is left. -/
def next (input : Input) : Except InputError Int64 × Input :=
  nextFrom input.ending input.pending input.lines

theorem flatten_linesFrom (line bytes : List UInt8) :
    (linesFrom line bytes).flatten = line.reverse ++ bytes := by
  induction bytes generalizing line with
  | nil =>
    by_cases h : line.isEmpty
    · simp [linesFrom, List.isEmpty_iff.1 h]
    · simp [linesFrom, h]
  | cons b bs ih =>
    by_cases h : b = newline <;> simp [linesFrom, h, ih]

theorem ending_nextFrom (ending : InputError) (pending : List (List Char))
    (lines : List (List UInt8)) : (nextFrom ending pending lines).2.ending = ending := by
  induction lines generalizing pending with
  | nil => cases pending <;> rfl
  | cons line lines ih =>
    cases pending with
    | cons word words => rfl
    | nil =>
      simp only [nextFrom]
      cases decode? line with
      | none => rfl
      | some cs => exact ih (Blank.words cs)

/-- Reading never changes how reading ends. -/
@[simp] theorem ending_next (input : Input) : input.next.2.ending = input.ending :=
  ending_nextFrom input.ending input.pending input.lines

/-- The lines of some bytes are those bytes. -/
theorem flatten_linesOf (bytes : List UInt8) : (linesOf bytes).flatten = bytes := by
  simp [linesOf, flatten_linesFrom]

end Input

end MiniC
