import MiniC.Input
import MiniC.Value

/-!
# Events

What happens while a program is read and run, for whoever wants to follow it.  That a variable has
been declared, that an array gets its storage, that an integer is printed and that none could be
read are events, too, but no log shows them.

Main definitions:

* `MiniC.Event`: what can happen;
* `MiniC.Event.isLogged`: whether a log shows an event;
* `MiniC.Event.isProgress`, `MiniC.Event.isInternal`: whether an event only tells where a run has
  got to, and whether it only tells of variables and storage;
* `MiniC.Event.concernsRegion`, `MiniC.Event.made?`: what an event does to the regions of memory;
* `MiniC.Event.text`: an event as a line of a log: its level, what happened, and the details.
-/

set_option autoImplicit false

namespace MiniC

/-- Something that happens while a program is read or run. -/
inductive Event where
  /-- A text was split into tokens, the end of the text counted as one. -/
  | tokenized (tokens : Nat)
  | parsed (functions globals : Nat)
  /-- Some names of a program refer to nothing. -/
  | unlinked (count : Nat)
  | runStarted (entry : String)
  | statement (line : Nat) (function : String)
  /-- A call begins; `depth` counts it. -/
  | call (callee : String) (depth : Nat)
  /-- A call ends with a value; `depth` no longer counts it. -/
  | returned (callee : String) (depth : Nat) (value : Value)
  /-- An integer was read. -/
  | got (value : Int64)
  /-- No integer was read where one was asked for. -/
  | missed (why : InputError)
  /-- A line with an integer was written. -/
  | printed (value : Int64)
  | allocated (region : RegionId) (size : Nat)
  | released (region : RegionId) (size : Nat)
  /-- A declaration of an array has got its storage. -/
  | stored (declaration : Nat) (region : RegionId)
  /-- A variable has been declared: from now on it has a value. -/
  | declared (declaration : Nat)
  | runFinished (result : Value) (liveBlocks : Nat)
deriving DecidableEq, Repr, Inhabited

namespace Event

/-- A log shows the event. -/
def isLogged : Event → Bool
  | stored _ _ | declared _ | missed _ | printed _ => false
  | _ => true

/-- The event only tells where a run has got to: nothing but the stack of calls goes with it. -/
def isProgress : Event → Bool
  | runStarted _ | statement _ _ | call _ _ | returned _ _ _ | runFinished _ _ => true
  | _ => false

/-- The event only tells of variables and storage. -/
def isInternal : Event → Bool
  | allocated _ _ | released _ _ | stored _ _ | declared _ => true
  | _ => false

/-- The event makes a region or gives one back. -/
def concernsRegion : Event → Bool
  | allocated _ _ | released _ _ | stored _ _ => true
  | _ => false

theorem concernsRegion_of_isProgress {e : Event} (h : e.isProgress = true) :
    e.concernsRegion = false := by
  cases e <;> first | rfl | cases h

/-- The region that an event makes. -/
def made? : Event → Option RegionId
  | allocated r _ | stored _ r => some r
  | _ => none

/-- An event as a line of a log. -/
def text : Event → String
  | tokenized tokens => s!"DEBUG tokenized source tokens={tokens}"
  | parsed functions globals => s!"DEBUG parsed program functions={functions} globals={globals}"
  | unlinked count => s!"DEBUG names left unresolved count={count}"
  | runStarted entry => "INFO run started entry=" ++ entry
  | statement line function => s!"TRACE statement line={line} function=" ++ function
  | call callee depth => "DEBUG call callee=" ++ callee ++ s!" depth={depth}"
  | returned callee depth value =>
    "DEBUG return callee=" ++ callee ++ s!" depth={depth} value=" ++ value.text
  | got value => "DEBUG GET value=" ++ Decimal.text value.toInt
  | missed why => "TRACE GET failed reason=" ++ why.message
  | printed value => "TRACE PRINT value=" ++ Decimal.text value.toInt
  | allocated region size => s!"DEBUG heap block allocated region={region.toNat} size={size}"
  | released region size => s!"DEBUG heap block released region={region.toNat} size={size}"
  | stored declaration region =>
    s!"TRACE array stored declaration={declaration} region={region.toNat}"
  | declared declaration => s!"TRACE variable declared declaration={declaration}"
  | runFinished result liveBlocks =>
    "INFO run finished result=" ++ result.text ++ s!" live_blocks={liveBlocks}"

end Event

end MiniC
