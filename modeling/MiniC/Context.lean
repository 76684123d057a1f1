import MiniC.Program
import MiniC.Heap

/-!
# What a run does not change

Main definitions:

* `MiniC.Config`: the function to start in, and the limits of a run;
* `MiniC.Context`: the program with these.
-/

set_option autoImplicit false

namespace MiniC

/-- The function to start in, and the limits of a run. -/
structure Config where
  entry : String := "main"
  maxCallDepth : Nat := 10000
  heapLimit : Nat := Heap.defaultLimit
deriving DecidableEq, Repr, Inhabited

/-- What a run does not change: the program and the limits. -/
structure Context where
  program : Program
  config : Config
deriving Repr, Inhabited

end MiniC
