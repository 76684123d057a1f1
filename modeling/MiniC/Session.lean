import MiniC.Execution
import MiniC.Source

/-!
# Sessions

A session is a program with a machine on which it can be run, once or several times: memory,
globals and input go on from one run to the next.

Main definitions:

* `MiniC.Session`, `MiniC.Session.start`: a program before its first run;
* `MiniC.Session.run`, `MiniC.Session.After`: one run, and any number of runs;
* `MiniC.Session.Passes`, `MiniC.Session.Looks`: the machines that runs pass through, and the names
  that they look up;
* `MiniC.Program.runSource`: reading a text and running it once.
-/

set_option autoImplicit false

namespace MiniC

/-- A program, and the machine that its runs share. -/
structure Session where
  context : Context
  machine : Machine

namespace Session

/-- A program before its first run.  Events are noted behind `journal`, if there is one. -/
def start (p : Program) (config : Config) (input : Input) (output : Output)
    (journal : Option (List Event)) : Session where
  context := ⟨p, config⟩
  machine := ⟨.empty config.heapLimit, .initial, .empty, input, output, journal⟩

/-- One run, with a bound on its length. -/
def run (s : Session) (fuel : Nat) : Outcome Value := (s.context.run fuel).run s.machine

/-- The session after a run that left a machine behind. -/
def withMachine (s : Session) (m : Machine) : Session := { s with machine := m }

/-- The sessions that `s` becomes in any number of runs, each to its end or to an error. -/
inductive After (s : Session) : Session → Prop
  | start : After s s
  | run {s' : Session} {fuel : Nat} {m : Machine} :
      After s s' → (s'.run fuel).machine? = some m → After s (s'.withMachine m)

/-- Runs do not change what is run. -/
theorem After.context_eq {s₀ s : Session} (h : s₀.After s) : s.context = s₀.context := by
  induction h with
  | start => rfl
  | run _ _ ih => exact ih

/-- The machine stands between two operations of some run, after any number of runs before it. -/
def Passes (s : Session) (m : Machine) : Prop :=
  ∃ s' fuel, s.After s' ∧ (s'.context.run fuel).visits s'.machine m

/-- A name is looked up on the machine in some run, after any number of runs before it. -/
def Looks (s : Session) (k : Lookup) (m : Machine) : Prop :=
  ∃ s' fuel, s.After s' ∧ (s'.context.run fuel).looks s'.machine k m

/-- The session after one more run; the session itself, if the bound of the run is too small. -/
def next (s : Session) (fuel : Nat) : Session :=
  match (s.run fuel).machine? with
  | some m => s.withMachine m
  | none => s

theorem After.next {s₀ s : Session} (h : s₀.After s) (fuel : Nat) : s₀.After (s.next fuel) := by
  unfold Session.next
  split
  · next m hm => exact h.run hm
  · exact h

/-- The values of the global variables in source order; `none` for one that has none yet. -/
def globals (s : Session) : List (String × Option Value) :=
  s.context.program.globals.map fun v => (v.name, s.machine.globals.lookup? v.id)

/-- The remembered values of all expressions of the program in the root frame. -/
def rootCache (s : Session) : List (Nat × Value) :=
  s.context.program.exprs.filterMap fun e =>
    match s.machine.stack.root.cached? e.id with
    | some v => some (e.id, v)
    | none => none

end Session

/-- Why a text does not run to its end. -/
inductive Failure where
  | syntaxError (e : SyntaxError)
  | runtimeError (e : RuntimeError)
  /-- The source or the input cannot be read. -/
  | io (reason : String)
deriving DecidableEq, Repr, Inhabited

namespace Failure

/-- The name of the class of a failure. -/
def kind : Failure → String
  | syntaxError _ => "Parse"
  | runtimeError e => e.kind.name
  | io _ => "Io"

/-- The text of a failure. -/
def message : Failure → String
  | syntaxError e => e.message
  | runtimeError e => e.message
  | io reason => "I/O error: " ++ reason

/-- Where a failure arose. -/
def location? : Failure → Option Location
  | syntaxError e => some e.location
  | runtimeError e => e.location?
  | io _ => none

end Failure

/-- What a text that was read and run once leaves: its value or why it failed, the text that it
printed, and the events.  A run that is cut off has no result. -/
structure Report where
  result : Option (Except Failure Value)
  output : String
  events : List Event

/-- Reads a text and runs it once.  The events of the run are noted if `follow` says so. -/
def Program.runSource (source : String) (config : Config) (input : Input) (output : Output)
    (follow : Bool) (fuel : Nat) : Report :=
  match load source with
  | ⟨.error e, events⟩ => ⟨some (.error (.syntaxError e)), output.text, events⟩
  | ⟨.ok p, events⟩ =>
    let journal := if follow then some events.reverse else none
    match (Session.start p config input output journal).run fuel with
    | .done v m => ⟨some (.ok v), m.output.text, m.events⟩
    | .failed e m => ⟨some (.error (.runtimeError e)), m.output.text, m.events⟩
    | .outOfFuel => ⟨none, output.text, events⟩

end MiniC
