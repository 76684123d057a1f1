/-!
# Locations in a text

A location is a line and a column, both counted from 1.  Columns count characters, so a tab is
one column and a character outside ASCII is one column as well.

Main definitions:

* `MiniC.Location`: a line and a column;
* `MiniC.Location.step`: the location after one character;
* `MiniC.Location.after`: the location after a piece of text.

Main results:

* `MiniC.Location.after_append`: passing two pieces of text is passing the one after the other.
-/

set_option autoImplicit false

namespace MiniC

/-- A place in a text: its line and its column, counted from 1. -/
structure Location where
  line : Nat
  column : Nat
deriving DecidableEq, Repr, Inhabited

namespace Location

/-- The location of the first character of a text. -/
def start : Location := ⟨1, 1⟩

/-- The location of the character that follows `c`: a newline opens the next line. -/
def step (loc : Location) (c : Char) : Location :=
  if c = '\n' then ⟨loc.line + 1, 1⟩ else ⟨loc.line, loc.column + 1⟩

/-- The location of what follows the text `cs`. -/
def after (loc : Location) (cs : List Char) : Location := cs.foldl step loc

@[simp] theorem step_newline (loc : Location) : loc.step '\n' = ⟨loc.line + 1, 1⟩ := rfl

theorem step_of_ne {c : Char} (loc : Location) (h : c ≠ '\n') :
    loc.step c = ⟨loc.line, loc.column + 1⟩ := by simp [step, h]

@[simp] theorem after_nil (loc : Location) : loc.after [] = loc := rfl

@[simp] theorem after_cons (loc : Location) (c : Char) (cs : List Char) :
    loc.after (c :: cs) = (loc.step c).after cs := rfl

@[simp] theorem after_append (loc : Location) (cs ds : List Char) :
    loc.after (cs ++ ds) = (loc.after cs).after ds := by
  simp [after]

end Location

end MiniC
