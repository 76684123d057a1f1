import MiniC.Program
import MiniC.Token.Lexer

/-!
# Reading tokens

A parser takes tokens from the front of a list.  On its way it numbers the nodes of expressions in
the order in which they are made, and enters variables and parameters into the declaration table.

Main definitions:

* `MiniC.SyntaxError`: why tokens form no program, and where;
* `MiniC.Parser`, `MiniC.Parser.State`: parsers and what they thread;
* `MiniC.Parser.accept`, `MiniC.Parser.expect`: a token that may follow, and one that must;
* `MiniC.Parser.make`, `MiniC.Parser.declare`: a fresh node, and a fresh table entry;
* `MiniC.Parser.separatedFrom`: what lists of arguments, declarators and parameters share.

Main results:

* `MiniC.Parser.bind_of_ok`, `MiniC.Parser.bind_of_error`, `MiniC.Parser.bind_eq_ok`: one parser
  after another;
* `MiniC.Parser.accept_of_ne`: a token that does not follow is not taken;
* `MiniC.Parser.expect_of_eq`: an expected token that follows is taken.
-/

set_option autoImplicit false

namespace MiniC

/-- Why tokens form no program. -/
inductive SyntaxError.Cause where
  /-- The text has no tokens. -/
  | lexical (cause : LexError.Cause)
  /-- A token is missing at a place that `context` names. -/
  | missing (symbol : Fixed) (context : String) (found : Option Token.Kind)
  /-- The signature of a function is followed by no body and no semicolon. -/
  | missingBody (found : Option Token.Kind)
  | missingName (found : Option Token.Kind)
  | missingType (found : Option Token.Kind)
  /-- No expression begins here. -/
  | unexpected (found : Option Token.Kind)
  /-- The length of an array is no number. -/
  | arrayLength
  /-- An array has a second dimension. -/
  | secondDimension
  /-- A variable is declared to hold nothing. -/
  | voidVariable (name : String)
  /-- The operand of `sizeof` is no type. -/
  | sizeofOperand
  /-- Something other than a name is called. -/
  | callee
  /-- The bound on the depth of the recursion was too small. -/
  | exhausted
deriving DecidableEq, Repr, Inhabited

/-- The text of a cause. -/
def SyntaxError.Cause.message : SyntaxError.Cause → String
  | lexical cause => cause.message
  | missing symbol context found =>
    "Expected '" ++ symbol.spelling ++ "' " ++ context ++ ", found " ++
      Token.Kind.describeNext found
  | missingBody found =>
    "Expected '\x7b' or ';' after function signature, found " ++ Token.Kind.describeNext found
  | missingName found => "Expected identifier, found " ++ Token.Kind.describeNext found
  | missingType found => "Expected type, found " ++ Token.Kind.describeNext found
  | unexpected found => "Unexpected token: " ++ Token.Kind.describeNext found
  | arrayLength => "Array size must be a constant integer"
  | secondDimension => "Multi-dimensional arrays are not supported"
  | voidVariable name => "Variable '" ++ name ++ "' declared void"
  | sizeofOperand => "sizeof only supports type operands"
  | callee => "Function call must be on identifier"
  | exhausted => "Nesting too deep"

/-- Why tokens form no program, and where. -/
structure SyntaxError where
  cause : SyntaxError.Cause
  location : Location
deriving DecidableEq, Repr, Inhabited

/-- The text of an error: its location and its cause. -/
def SyntaxError.message (e : SyntaxError) : String :=
  s!"Parse error at line {e.location.line}, column {e.location.column}: " ++ e.cause.message

/-- The error that a text without tokens is reported by. -/
def SyntaxError.ofLexError (e : LexError) : SyntaxError := ⟨.lexical e.cause, e.location⟩

/-- What a parser threads: the tokens that are left, the location of the end of the text, the
number of the next node, and the declaration table so far. -/
structure Parser.State where
  rest : List Token
  finish : Location
  nextNode : Nat
  declarations : Array Declaration
deriving Repr, Inhabited

/-- A parser: it takes tokens and yields a result, or finds an error. -/
abbrev Parser (α : Type) := StateT Parser.State (Except SyntaxError) α

namespace Parser

/-- The state before the first of some tokens. -/
def State.ofTokens (ts : Tokens) : State := ⟨ts.list, ts.finish, 0, #[]⟩

/-- The location of the next token, or of the end of the text. -/
def State.location (s : State) : Location :=
  match s.rest with
  | t :: _ => t.location
  | [] => s.finish

/-- What the next token is; `none` at the end of the text. -/
def State.peek (s : State) : Option Token.Kind :=
  match s.rest with
  | t :: _ => some t.kind
  | [] => none

/-- What the next token is, if it has a fixed spelling. -/
def State.peekFixed (s : State) : Option Fixed :=
  match s.rest with
  | ⟨.fixed f, _⟩ :: _ => some f
  | _ => none

/-- The next token is `f`. -/
def State.startsWith (s : State) (f : Fixed) : Bool := s.peekFixed == some f

/-- The state behind the next token; at the end of the text nothing is taken. -/
def State.advance (s : State) : State := { s with rest := s.rest.tail }

/-- The location of the next token, or of the end of the text. -/
def location : Parser Location := fun s => .ok (s.location, s)

/-- What the next token is; `none` at the end of the text. -/
def peek : Parser (Option Token.Kind) := fun s => .ok (s.peek, s)

/-- What the next token is, if it has a fixed spelling. -/
def peekFixed : Parser (Option Fixed) := fun s => .ok (s.peekFixed, s)

/-- The next token is `f`; nothing is taken. -/
def check (f : Fixed) : Parser Bool := fun s => .ok (s.startsWith f, s)

/-- Takes the next token. -/
def advance : Parser Unit := fun s => .ok ((), s.advance)

/-- Fails at a given location. -/
def failAt {α : Type} (loc : Location) (cause : SyntaxError.Cause) : Parser α :=
  fun _ => .error ⟨cause, loc⟩

/-- Fails at the next token; the cause may name it. -/
def fail {α : Type} (cause : Option Token.Kind → SyntaxError.Cause) : Parser α :=
  fun s => .error ⟨cause s.peek, s.location⟩

/-- Takes the next token if it is `f`, and says whether it was. -/
def accept (f : Fixed) : Parser Bool :=
  fun s => if s.startsWith f then .ok (true, s.advance) else .ok (false, s)

/-- Takes the token `f`, which must be next; `context` says in a message where it is missing. -/
def expect (f : Fixed) (context : String) : Parser Unit :=
  fun s =>
    if s.startsWith f then .ok ((), s.advance)
    else .error ⟨.missing f context s.peek, s.location⟩

/-- Takes an identifier, which must be next: its name and its location. -/
def identifier : Parser (String × Location) :=
  fun s =>
    match s.rest with
    | ⟨.ident name, loc⟩ :: rest => .ok ((name, loc), { s with rest := rest })
    | _ => .error ⟨.missingName s.peek, s.location⟩

/-- Takes all stars that are next, and counts them. -/
def stars : Parser Nat :=
  fun s =>
    let isStar := fun t : Token => t.kind == .fixed .star
    .ok ((s.rest.takeWhile isStar).length, { s with rest := s.rest.dropWhile isStar })

/-- Makes an expression with the next node number. -/
def make (loc : Location) (expr : Node → Expr) : Parser Expr :=
  fun s => .ok (expr ⟨s.nextNode, loc, none⟩, { s with nextNode := s.nextNode + 1 })

/-- Enters a variable or parameter into the declaration table, and yields its place there. -/
def declare (d : Declaration) : Parser Nat :=
  fun s => .ok (s.declarations.size, { s with declarations := s.declarations.push d })

/-- Things behind the first ones of a list, each after a comma. -/
def separatedFrom {α : Type} (one : Parser α) : Nat → List α → Parser (List α)
  | 0, seen => return seen.reverse
  | fuel + 1, seen => do
    if ← accept .comma then
      let x ← one
      separatedFrom one fuel (x :: seen)
    else return seen.reverse

/-! ### Two parsers -/

section

variable {α β : Type} {x : Parser α} {f : α → Parser β} {s s' : State}

/-- A parser behind one that succeeds begins where the first one has stopped. -/
theorem bind_of_ok {a : α} (h : x s = .ok (a, s')) (f : α → Parser β) :
    (x >>= f) s = f a s' := by
  change (x s >>= fun r => f r.1 r.2) = _
  rw [h]
  rfl

/-- Behind a parser that fails, no other one begins. -/
theorem bind_of_error {e : SyntaxError} (h : x s = .error e) (f : α → Parser β) :
    (x >>= f) s = .error e := by
  change (x s >>= fun r => f r.1 r.2) = _
  rw [h]
  rfl

/-- Two parsers succeed one after the other only if both do. -/
theorem bind_eq_ok {b : β} (h : (x >>= f) s = .ok (b, s')) :
    ∃ a s₁, x s = .ok (a, s₁) ∧ f a s₁ = .ok (b, s') := by
  cases hx : x s with
  | error e => cases (bind_of_error hx f).symm.trans h
  | ok r => exact ⟨r.1, r.2, rfl, (bind_of_ok hx f).symm.trans h⟩

end

/-! ### One token -/

@[simp] theorem State.startsWith_cons (f g : Fixed) (loc : Location) (rest : List Token)
    (finish : Location) (next : Nat) (ds : Array Declaration) :
    State.startsWith ⟨⟨.fixed g, loc⟩ :: rest, finish, next, ds⟩ f = decide (g = f) := by
  by_cases h : g = f <;> simp [startsWith, peekFixed, h]

/-- A token that does not follow is not taken. -/
theorem accept_of_ne {f : Fixed} {s : State} (h : s.peekFixed ≠ some f) :
    accept f s = .ok (false, s) := by
  simp [accept, State.startsWith, h]

/-- A token that follows is taken. -/
theorem accept_of_eq {f : Fixed} {s : State} (h : s.peekFixed = some f) :
    accept f s = .ok (true, s.advance) := by
  simp [accept, State.startsWith, h]

/-- An expected token that follows is taken. -/
theorem expect_of_eq {f : Fixed} {s : State} (context : String) (h : s.peekFixed = some f) :
    expect f context s = .ok ((), s.advance) := by
  simp [expect, State.startsWith, h]

end Parser

end MiniC
