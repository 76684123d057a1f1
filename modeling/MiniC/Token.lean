import MiniC.Location
import MiniC.Text.Decimal
import MiniC.Text.Quoted

/-!
# Tokens

The words of a program: literals, identifiers, and the keywords, operators and punctuation that
have one fixed spelling each.  The end of the text is no token; a list of tokens comes with the
location where the text ends.

Main definitions:

* `MiniC.Fixed`, `MiniC.Fixed.spelling`: the tokens with a fixed spelling;
* `MiniC.Token.Kind`, `MiniC.Token`: what a token is, and where it is;
* `MiniC.Token.Kind.describe`: how a message names a token;
* `MiniC.Tokens`: the tokens of a text and the location of its end.

Main results:

* `MiniC.Fixed.mem_keywords_or_mem_operators`: the two tables of fixed tokens are complete;
* `MiniC.Fixed.spelling_injective`: no two fixed tokens are spelled alike.
-/

set_option autoImplicit false

namespace MiniC

/-- A token with a fixed spelling. -/
inductive Fixed where
  | kwInt | kwChar | kwVoid | kwExtern | kwIf | kwElse | kwWhile | kwDo | kwFor
  | kwBreak | kwContinue | kwReturn | kwSizeof
  | plusPlus | minusMinus | plusEq | minusEq | starEq | slashEq | percentEq
  | eqEq | notEq | le | ge | ltLt | gtGt | andAnd | orOr
  | plus | minus | star | slash | percent | eq | bang | lt | gt | amp | pipe | caret | tilde
  | lparen | rparen | lbrace | rbrace | lbracket | rbracket | semicolon | comma
deriving DecidableEq, Repr, Inhabited

namespace Fixed

/-- The keywords. -/
def keywords : List Fixed :=
  [kwInt, kwChar, kwVoid, kwExtern, kwIf, kwElse, kwWhile, kwDo, kwFor, kwBreak, kwContinue,
    kwReturn, kwSizeof]

/-- The operators and punctuation marks, those of two characters before those of one. -/
def operators : List Fixed :=
  [plusPlus, minusMinus, plusEq, minusEq, starEq, slashEq, percentEq, eqEq, notEq, le, ge, ltLt,
    gtGt, andAnd, orOr, plus, minus, star, slash, percent, eq, bang, lt, gt, amp, pipe, caret,
    tilde, lparen, rparen, lbrace, rbrace, lbracket, rbracket, semicolon, comma]

theorem mem_keywords_or_mem_operators (f : Fixed) : f ∈ keywords ∨ f ∈ operators := by
  cases f <;> decide

/-- The spelling of a fixed token. -/
def spelling : Fixed → String
  | kwInt => "int"
  | kwChar => "char"
  | kwVoid => "void"
  | kwExtern => "extern"
  | kwIf => "if"
  | kwElse => "else"
  | kwWhile => "while"
  | kwDo => "do"
  | kwFor => "for"
  | kwBreak => "break"
  | kwContinue => "continue"
  | kwReturn => "return"
  | kwSizeof => "sizeof"
  | plusPlus => "++"
  | minusMinus => "--"
  | plusEq => "+="
  | minusEq => "-="
  | starEq => "*="
  | slashEq => "/="
  | percentEq => "%="
  | eqEq => "=="
  | notEq => "!="
  | le => "<="
  | ge => ">="
  | ltLt => "<<"
  | gtGt => ">>"
  | andAnd => "&&"
  | orOr => "||"
  | plus => "+"
  | minus => "-"
  | star => "*"
  | slash => "/"
  | percent => "%"
  | eq => "="
  | bang => "!"
  | lt => "<"
  | gt => ">"
  | amp => "&"
  | pipe => "|"
  | caret => "^"
  | tilde => "~"
  | lparen => "("
  | rparen => ")"
  | lbrace => "\x7b"
  | rbrace => "\x7d"
  | lbracket => "["
  | rbracket => "]"
  | semicolon => ";"
  | comma => ","

/-- The fixed tokens can be told apart by their spelling. -/
theorem spelling_injective {f g : Fixed} (h : f.spelling = g.spelling) : f = g := by
  have key : ∀ f ∈ keywords ++ operators, ∀ g ∈ keywords ++ operators,
      f.spelling = g.spelling → f = g := by decide +kernel
  have mem : ∀ f : Fixed, f ∈ keywords ++ operators := fun f =>
    List.mem_append.2 (mem_keywords_or_mem_operators f)
  exact key f (mem f) g (mem g) h

/-- The keyword spelled `word`. -/
def keyword? (word : String) : Option Fixed := keywords.find? fun f => f.spelling == word

end Fixed

/-- What a token is. -/
inductive Token.Kind where
  | int (value : Int64)
  | char (value : Int8)
  | string (text : String)
  | ident (name : String)
  | fixed (symbol : Fixed)
deriving DecidableEq, Repr, Inhabited

/-- A token and the location of its first character. -/
structure Token where
  kind : Token.Kind
  location : Location
deriving DecidableEq, Repr, Inhabited

/-- How a message names a token. -/
def Token.Kind.describe : Token.Kind → String
  | int n => "int literal " ++ Decimal.text n.toInt
  | char c => "char literal " ++ Decimal.text c.toInt
  | string s => "string literal " ++ Quoted.quote s
  | ident name => "identifier '" ++ name ++ "'"
  | fixed f => "'" ++ f.spelling ++ "'"

/-- How a message names what stands next: a token, or the end of the text. -/
def Token.Kind.describeNext : Option Token.Kind → String
  | some kind => kind.describe
  | none => "end of file"

/-- The tokens of a text, and the location of its end. -/
structure Tokens where
  list : List Token
  finish : Location
deriving DecidableEq, Repr, Inhabited

end MiniC
