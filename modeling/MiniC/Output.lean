/-!
# The text that a program prints

A sink collects text.  It may have room for a number of bytes only; what does not fit is lost, and
writing it is an error.

Main definitions:

* `MiniC.Output`, `MiniC.Output.unlimited`, `MiniC.Output.limited`: sinks;
* `MiniC.Output.write`: adds a text as far as it fits;
* `MiniC.Output.flush`: hands the text on.

Main results:

* `MiniC.Output.write_unlimited`: a sink without a limit takes every text.
-/

set_option autoImplicit false

namespace MiniC

/-- Why a sink fails. -/
inductive OutputError where
  /-- A text did not fit. -/
  | full
  /-- The text could not be handed on. -/
  | flush (reason : String)
deriving DecidableEq, Repr, Inhabited

/-- The text of an error. -/
def OutputError.message : OutputError → String
  | full => "failed to write whole buffer"
  | flush reason => reason

/-- A sink: the text in it, the bytes that still fit if they are limited, and why it cannot be
flushed if it cannot. -/
structure Output where
  text : String
  room : Option Nat
  flushFault : Option String
deriving DecidableEq, Repr, Inhabited

namespace Output

/-- An empty sink that takes every text. -/
def unlimited : Output := ⟨"", none, none⟩

/-- An empty sink that takes `n` bytes. -/
def limited (n : Nat) : Output := ⟨"", some n, none⟩

/-- Adds a text of ASCII characters as far as it fits, and says whether all of it did. -/
def write (o : Output) (s : String) : Bool × Output :=
  match o with
  | ⟨text, none, fault⟩ => (true, ⟨text ++ s, none, fault⟩)
  | ⟨text, some room, fault⟩ =>
    if s.utf8ByteSize ≤ room then (true, ⟨text ++ s, some (room - s.utf8ByteSize), fault⟩)
    else (false, ⟨text ++ String.ofList (s.toList.take room), some 0, fault⟩)

/-- Hands the text on. -/
def flush (o : Output) : Except OutputError Unit :=
  match o.flushFault with
  | some reason => .error (.flush reason)
  | none => .ok ()

/-- The sink with its text taken out. -/
def clear (o : Output) : Output := { o with text := "" }

/-- A sink without a limit takes every text. -/
theorem write_unlimited {o : Output} (s : String) (h : o.room = none) :
    o.write s = (true, { o with text := o.text ++ s }) := by
  obtain ⟨text, room, fault⟩ := o
  simp only at h
  subst h
  rfl

end Output

end MiniC
