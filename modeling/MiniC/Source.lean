import MiniC.Event
import MiniC.Grammar.Program
import MiniC.Resolution

/-!
# From text to program

Reading a text yields a program or a syntax error, and the events on the way.

Main definitions:

* `MiniC.Reading`: a result with the events that led to it;
* `MiniC.Program.read`: the program that a text is, before its names are resolved;
* `MiniC.Program.link`: the program with its names resolved;
* `MiniC.Program.load`: both together;
* `MiniC.Program.Parsed`: the programs that texts say.
-/

set_option autoImplicit false

namespace MiniC

/-- A result with the events that led to it, first one first. -/
structure Reading (α : Type) where
  result : α
  events : List Event

namespace Program

/-- The program that a text is; its names refer to nothing yet. -/
def read (source : String) : Reading (Except SyntaxError Program) :=
  match Tokens.ofText source with
  | .error e => ⟨.error (.ofLexError e), []⟩
  | .ok ts =>
    let tokenized := Event.tokenized (ts.list.length + 1)
    match ofTokens ts with
    | .error e => ⟨.error e, [tokenized]⟩
    | .ok p => ⟨.ok p, [tokenized, .parsed p.functions.length p.globals.length]⟩

/-- The program with its names resolved. -/
def link (p : Program) : Reading Program :=
  let p := p.resolve
  ⟨p, if p.unlinkedCount = 0 then [] else [.unlinked p.unlinkedCount]⟩

/-- The program that a text is, with its names resolved. -/
def load (source : String) : Reading (Except SyntaxError Program) :=
  match read source with
  | ⟨.error e, events⟩ => ⟨.error e, events⟩
  | ⟨.ok p, events⟩ => ⟨.ok p.link.result, events ++ p.link.events⟩

/-- What is loaded is what is read, with its names resolved. -/
theorem exists_read_of_load {source : String} {p : Program} (h : (load source).result = .ok p) :
    ∃ q, (read source).result = .ok q ∧ p = q.resolve := by
  unfold load at h
  split at h
  · cases h
  · next q events hq =>
    cases h
    exact ⟨q, by rw [hq], rfl⟩

/-- The program is what some text says, before its names are resolved or after. -/
def Parsed (p : Program) : Prop :=
  ∃ source q, (read source).result = .ok q ∧ (p = q ∨ p = q.resolve)

end Program

end MiniC
