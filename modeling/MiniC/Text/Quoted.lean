import MiniC.Text.Decimal
import MiniC.Text.Printable

/-!
# Quoted text

A text between double quotes in which every character can be read: the quote and the backslash
are escaped by a backslash, four controls have letters, and every other character that would not
show is written by its code point.

Main definitions:

* `MiniC.Quoted.encodeChar`: the written form of one character;
* `MiniC.Quoted.encode`: the written form of a text, without the quotes around it;
* `MiniC.Quoted.quote`: the same with the quotes.
-/

set_option autoImplicit false

namespace MiniC.Quoted

/-- The letter that stands for a character after a backslash, where there is one. -/
def letter? (c : Char) : Option Char :=
  if c = '\x00' then some '0'
  else if c = '\t' then some 't'
  else if c = '\r' then some 'r'
  else if c = '\n' then some 'n'
  else if c = '\\' ∨ c = '"' then some c
  else none

/-- The written form of one character. -/
def encodeChar (c : Char) : List Char :=
  match letter? c with
  | some l => ['\\', l]
  | none =>
    if Printable.isShown c then [c]
    else ['\\', 'u', '\x7b'] ++ Hexadecimal.render c.toNat ++ ['\x7d']

/-- The written form of a text, without the quotes around it. -/
def encode (cs : List Char) : List Char := cs.flatMap encodeChar

@[simp] theorem encode_nil : encode [] = [] := rfl

@[simp] theorem encode_append (cs ds : List Char) : encode (cs ++ ds) = encode cs ++ encode ds := by
  simp [encode]

/-- A text between double quotes, with escapes where needed. -/
def quote (s : String) : String := "\"" ++ String.ofList (encode s.toList) ++ "\""

end MiniC.Quoted
