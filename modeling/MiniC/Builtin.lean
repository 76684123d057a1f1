import MiniC.Eval

/-!
# Built-in functions at work

What the four built-in functions do to the machine.  They run in the frame of their caller.

Main definitions:

* `MiniC.Eval.callGet`, `MiniC.Eval.callPrint`: the next integer of the input, and a line of the
  output;
* `MiniC.Eval.callMalloc`, `MiniC.Eval.callFree`: a new block, and a block given back;
* `MiniC.Eval.callIntrinsic`: a call of any of them.

Main results:

* `MiniC.Eval.callIntrinsic_of_length_ne`: a wrong number of arguments is an error.
-/

set_option autoImplicit false

namespace MiniC.Eval

/-- Takes the next integer of the input, and notes what came of it. -/
def readInteger (loc : Location) : Eval Int64 :=
  op fun m =>
    match m.input.next with
    | (.ok n, input) => .done n ({ m with input := input }.note (.got n))
    | (.error e, input) =>
      .failed (.fault loc (.input e)) ({ m with input := input }.note (.missed e))

/-- What has been read is taken from the input, and what came of it is noted. -/
theorem next_of_readInteger {loc : Location} {m m' : Machine}
    (h : ((readInteger loc).run m).machine? = some m') :
    ∃ input, (∃ n, m.input.next = (.ok n, input) ∧ m' = { m with input := input }.note (.got n)) ∨
      ∃ e, m.input.next = (.error e, input) ∧
        m' = { m with input := input }.note (.missed e) := by
  unfold readInteger op at h
  rcases hnext : m.input.next with ⟨e | n, input⟩ <;>
  · simp only [hnext] at h
    cases h
    exact ⟨input, by simp⟩

/-- `GET()`: the next integer of the input. -/
def callGet (loc : Location) : Eval Value := do
  let n ← readInteger loc
  return .integer n

/-- The line that `PRINT` writes for an integer. -/
def line (n : Int64) : String := Decimal.text n.toInt ++ "\n"

/-- Adds a line with an integer to the output, and notes it if there was room. -/
def writeLine (n : Int64) (loc : Location) : Eval Unit :=
  op fun m =>
    match m with
    | ⟨heap, stack, globals, input, output, journal⟩ =>
      match output.write (line n) with
      | (true, output) =>
        .done () (Machine.note ⟨heap, stack, globals, input, output, journal⟩ (.printed n))
      | (false, output) =>
        .failed (.fault loc (.output .full)) ⟨heap, stack, globals, input, output, journal⟩

theorem run_writeLine (n : Int64) (loc : Location) (m : Machine) :
    (writeLine n loc).run m = match m.output.write (line n) with
      | (true, output) => .done () ({ m with output := output }.note (.printed n))
      | (false, output) => .failed (.fault loc (.output .full)) { m with output := output } := rfl

/-- A line is written and noted, or it is not written. -/
theorem write_of_writeLine {n : Int64} {loc : Location} {m m' : Machine}
    (h : ((writeLine n loc).run m).machine? = some m') :
    ∃ output, m.output.write (line n) = (true, output) ∧
          m' = { m with output := output }.note (.printed n) ∨
        m.output.write (line n) = (false, output) ∧ m' = { m with output := output } := by
  rw [run_writeLine] at h
  rcases hwrite : m.output.write (line n) with ⟨_ | _, output⟩ <;>
  · simp only [hwrite] at h
    cases h
    exact ⟨output, by simp⟩

/-- `PRINT(n)`: adds a line with an integer to the output. -/
def callPrint (v : Value) (loc : Location) : Eval Value :=
  match v with
  | .integer n => do
    writeLine n loc
    return .uninitialized
  | .uninitialized => fault loc (.uninitializedRead (.argument .print))
  | .pointer _ => fault loc (.typeMismatch (.printArgument .pointer))

/-- `MALLOC(size)`: a new block. -/
def callMalloc (v : Value) (loc : Location) : Eval Value :=
  match v with
  | .integer n =>
    if n < 0 then fault loc (.invalidAllocation (.negativeSize n))
    else do
      let p ← create loc fun m => m.allocate n.toInt.toNat
      return .pointer p
  | .uninitialized => fault loc (.uninitializedRead (.argument .malloc))
  | .pointer _ => fault loc (.typeMismatch .mallocArgument)

/-- `FREE(p)`: gives a block back. -/
def callFree (v : Value) (loc : Location) : Eval Value :=
  match v with
  | .pointer p => do
    attempt loc fun m => m.release p
    return .uninitialized
  | .integer n => fault loc (.invalidFree (.integer n))
  | .uninitialized => fault loc (.uninitializedRead (.argument .free))

/-- A call of a built-in function with evaluated arguments. -/
def callIntrinsic (i : Intrinsic) (args : List Value) (loc : Location) : Eval Value :=
  match i, args with
  | .get, [] => callGet loc
  | .print, [v] => callPrint v loc
  | .malloc, [v] => callMalloc v loc
  | .free, [v] => callFree v loc
  | i, args => fault loc (.arityMismatch i.name i.arity args.length)

/-- A wrong number of arguments is an error, whatever the arguments are. -/
theorem callIntrinsic_of_length_ne {i : Intrinsic} {args : List Value} (loc : Location)
    (h : args.length ≠ i.arity) :
    callIntrinsic i args loc = fault loc (.arityMismatch i.name i.arity args.length) := by
  cases i <;> match args with
    | [] => first | rfl | exact absurd rfl h
    | [_] => first | rfl | exact absurd rfl h
    | _ :: _ :: _ => rfl

end MiniC.Eval
