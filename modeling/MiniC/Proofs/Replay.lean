import MiniC.Proofs.Embedding
import MiniC.Proofs.SimulationUpTo

/-!
# Computations that can be replayed

**What a computation does on a machine, it does on every larger one, too**, as long as the same
integers can be read there and there is room for the same text.  Nothing that it has not made itself
gets in its way: it refers to no region that it has not made, and to no global variable that has not
been declared.

Variables are read behind the lookup of their places.  A global variable that the smaller machine
does not have may have a value in the larger one, so a place is read only where it is known to hold
a value: on machines of a certain kind, which computations stay in.

Main definitions:

* `MiniC.Eval.ReplaysOn`, `MiniC.Eval.Replays`: what a computation does is done again on a larger
  machine.

Main results:

* `MiniC.Eval.ReplaysOn.bind`, `MiniC.Eval.Replays.inFrame_bind`: sequences and calls;
* `MiniC.Eval.runSimulationUpTo_replays`: operations can be replayed;
* `MiniC.Eval.replays_run`: whole runs can be replayed.
-/

set_option autoImplicit false

namespace MiniC

namespace Eval

/-- Where the first computation yields a value, on a machine of the kind `P`, it has read some
integers and printed some text.  On every larger machine that offers these, the second computation
yields the same value with its region moved by `d`, reads the same integers and prints the same
text; and what the first one leaves embeds in what the second one leaves. -/
def ReplaysOn (P : Machine → Prop) (d : RegionId) (extra : UInt64) {α : Type} [Renames α]
    (x x' : Eval α) : Prop :=
  ∀ m a m₁, P m → x.run m = .done a m₁ → ∃ ns t, m.Proceeds ns t m₁ ∧
    ∀ m' : Machine, m.Embeds d extra m' → m'.Offers ns t →
      ∃ m₁', x'.run m' = .done (rename (shift d) a) m₁' ∧ m'.Proceeds ns t m₁' ∧
        m₁.Embeds d extra m₁'

/-- The same on all machines. -/
def Replays (d : RegionId) (extra : UInt64) {α : Type} [Renames α] (x x' : Eval α) : Prop :=
  ReplaysOn (fun _ => True) d extra x x'

variable {P : Machine → Prop} {d : RegionId} {extra : UInt64} {α β : Type} [Renames α] [Renames β]

theorem Replays.on {x x' : Eval α} (h : Replays d extra x x') : ReplaysOn P d extra x x' :=
  fun m a m₁ _ => h m a m₁ trivial

/-- One part after the other, if computations stay on machines of the kind. -/
theorem ReplaysOn.bind {x x' : Eval α} {f f' : α → Eval β}
    (hP : ∀ {m m₁ : Machine} {ns : List Int64} {t : String}, P m → m.Proceeds ns t m₁ → P m₁)
    (hx : ReplaysOn P d extra x x')
    (hf : ∀ a, ReplaysOn P d extra (f a) (f' (rename (shift d) a))) :
    ReplaysOn P d extra (x >>= f) (x' >>= f') := by
  intro m b m₂ hm hrun
  obtain ⟨a, m₁, hxrun, hfrun⟩ := run_bind_eq_done hrun
  obtain ⟨ns, t, hproceeds, hreplay⟩ := hx m a m₁ hm hxrun
  obtain ⟨ns', t', hproceeds', hreplay'⟩ := hf a m₁ b m₂ (hP hm hproceeds) hfrun
  refine ⟨ns ++ ns', t ++ t', hproceeds.trans hproceeds', fun m' hembeds hoffers => ?_⟩
  obtain ⟨m₁', hrun₁, hsame₁, hembeds₁⟩ := hreplay m' hembeds hoffers.front
  obtain ⟨m₂', hrun₂, hsame₂, hembeds₂⟩ := hreplay' m₁' hembeds₁ (hoffers.behind hsame₁)
  exact ⟨m₂', (run_bind_done hrun₁ f').trans hrun₂, hsame₁.trans hsame₂, hembeds₂⟩

theorem Replays.bind {x x' : Eval α} {f f' : α → Eval β} (hx : Replays d extra x x')
    (hf : ∀ a, Replays d extra (f a) (f' (rename (shift d) a))) :
    Replays d extra (x >>= f) (x' >>= f') :=
  ReplaysOn.bind (fun _ _ => trivial) hx hf

/-! ### Kinds of operations -/

/-- What reads and prints nothing is replayed if it does the same on larger machines. -/
theorem replaysOn_quiet {x x' : Eval α}
    (h : ∀ m a m₁, P m → x.run m = .done a m₁ → m.Proceeds [] "" m₁ ∧
      ∀ m' : Machine, m.Embeds d extra m' →
        ∃ m₁', x'.run m' = .done (rename (shift d) a) m₁' ∧ m'.Proceeds [] "" m₁' ∧
          m₁.Embeds d extra m₁') : ReplaysOn P d extra x x' := by
  intro m a m₁ hm hrun
  obtain ⟨hproceeds, hreplay⟩ := h m a m₁ hm hrun
  exact ⟨[], "", hproceeds, fun m' hembeds _ => hreplay m' hembeds⟩

theorem replays_pure (a : α) : Replays d extra (pure a) (pure (rename (shift d) a)) :=
  replaysOn_quiet fun m b m₁ _ hrun => by
    cases hrun
    exact ⟨.of_eq rfl rfl rfl, fun m' hembeds => ⟨m', rfl, .of_eq rfl rfl rfl, hembeds⟩⟩

theorem replays_fail (e : RuntimeError) :
    Replays d extra (fail e : Eval α) (fail (rename (shift d) e)) := by
  intro m a m₁ _ hrun
  cases hrun

theorem replays_outOfFuel : Replays d extra (outOfFuel : Eval α) outOfFuel := by
  intro m a m₁ _ hrun
  cases hrun

theorem replaysOn_query (loc : Location) {f f' : Machine → Except Fault α}
    (hf : ∀ {m m' : Machine} {a : α}, P m → m.Embeds d extra m' → f m = .ok a →
      f' m' = .ok (rename (shift d) a)) :
    ReplaysOn P d extra (query loc f) (query loc f') :=
  replaysOn_quiet fun m a m₁ hm hrun => by
    dsimp only [query, op] at hrun ⊢
    split at hrun
    · next b hb =>
      cases hrun
      refine ⟨.of_eq rfl rfl rfl, fun m' hembeds => ⟨m', ?_, .of_eq rfl rfl rfl, hembeds⟩⟩
      rw [hf hm hembeds hb]
    · cases hrun

theorem replays_lookUp (k : Lookup) (loc : Location) {f f' : Machine → Except Fault α}
    (hf : ∀ {m m' : Machine} {a : α}, m.Embeds d extra m' → f m = .ok a →
      f' m' = .ok (rename (shift d) a)) :
    Replays d extra (lookUp k loc f) (lookUp k loc f') :=
  replaysOn_query loc fun _ => hf

theorem replays_update {f f' : Machine → Machine}
    (hquiet : ∀ m : Machine, m.Proceeds [] "" (f m))
    (hquiet' : ∀ m : Machine, m.Proceeds [] "" (f' m))
    (hf : ∀ {m m' : Machine}, m.Embeds d extra m' → (f m).Embeds d extra (f' m')) :
    Replays d extra (update f) (update f') :=
  replaysOn_quiet fun m a m₁ _ hrun => by
    cases hrun
    exact ⟨hquiet m, fun m' hembeds => ⟨f' m', rfl, hquiet' m', hf hembeds⟩⟩

/-- What changes the current frame, but not which regions it owns. -/
theorem replays_modifyFrame {f f' : Frame → Frame}
    (hf : ∀ {g g' : Frame}, g.Renamed (shift d) g' → (f g).Renamed (shift d) (f' g'))
    (howned : ∀ g, (f g).owned = g.owned) :
    Replays d extra (update fun m => m.modifyFrame f) (update fun m => m.modifyFrame f') :=
  replays_update (fun _ => .of_eq rfl rfl rfl) (fun _ => .of_eq rfl rfl rfl) fun h =>
    h.modifyFrame (hf h.current) (howned _)

theorem replaysOn_attempt (loc : Location) {f f' : Machine → Except Fault Machine}
    (hquiet : ∀ {m m₁ : Machine}, f m = .ok m₁ → m.Proceeds [] "" m₁)
    (hquiet' : ∀ {m m₁ : Machine}, f' m = .ok m₁ → m.Proceeds [] "" m₁)
    (hf : ∀ {m m' m₁ : Machine}, m.Embeds d extra m' → f m = .ok m₁ →
      ∃ m₁', f' m' = .ok m₁' ∧ m₁.Embeds d extra m₁') :
    ReplaysOn P d extra (attempt loc f) (attempt loc f') :=
  replaysOn_quiet fun m a m₁ _ hrun => by
    dsimp only [attempt, op] at hrun ⊢
    split at hrun
    · next m₂ hm₂ =>
      cases hrun
      refine ⟨hquiet hm₂, fun m' hembeds => ?_⟩
      obtain ⟨m₁', hm₁', hembeds₁⟩ := hf hembeds hm₂
      refine ⟨m₁', ?_, hquiet' hm₁', hembeds₁⟩
      rw [hm₁']
    · cases hrun

theorem replays_create (loc : Location) {f f' : Machine → Except Fault (α × Machine)}
    (hquiet : ∀ {m m₁ : Machine} {a : α}, f m = .ok (a, m₁) → m.Proceeds [] "" m₁)
    (hquiet' : ∀ {m m₁ : Machine} {a : α}, f' m = .ok (a, m₁) → m.Proceeds [] "" m₁)
    (hf : ∀ {m m' m₁ : Machine} {a : α}, m.Embeds d extra m' → f m = .ok (a, m₁) →
      ∃ m₁', f' m' = .ok (rename (shift d) a, m₁') ∧ m₁.Embeds d extra m₁') :
    Replays d extra (create loc f) (create loc f') :=
  replaysOn_quiet fun m a m₁ _ hrun => by
    dsimp only [create, op] at hrun ⊢
    split at hrun
    · next b m₂ hm₂ =>
      cases hrun
      refine ⟨hquiet hm₂, fun m' hembeds => ?_⟩
      obtain ⟨m₁', hm₁', hembeds₁⟩ := hf hembeds hm₂
      refine ⟨m₁', ?_, hquiet' hm₁', hembeds₁⟩
      rw [hm₁']
    · cases hrun

/-! ### Operations -/

theorem replays_record (e e' : Event) : Replays d extra (record e) (record e') :=
  replays_update (fun m => m.proceeds_note e) (fun m => m.proceeds_note e') fun h => h.note e e'

theorem replays_depth : Replays d extra depth depth :=
  replaysOn_quiet fun m a m₁ _ hrun => by
    cases hrun
    refine ⟨.of_eq rfl rfl rfl, fun m' hembeds => ⟨m', ?_, .of_eq rfl rfl rfl, hembeds⟩⟩
    exact congrArg (fun n => Outcome.done n m') hembeds.depth_eq

theorem replays_hasReturned : Replays d extra hasReturned hasReturned :=
  replaysOn_quiet fun m a m₁ _ hrun => by
    cases hrun
    refine ⟨.of_eq rfl rfl rfl, fun m' hembeds => ⟨m', ?_, .of_eq rfl rfl rfl, hembeds⟩⟩
    have hreturned : m'.stack.current.hasReturned = m.stack.current.hasReturned := by
      unfold Frame.hasReturned
      rw [hembeds.current.returned_eq]
      exact Option.isSome_map
    exact congrArg (fun b => Outcome.done b m') hreturned

/-- An integer that is read has to be offered. -/
theorem replays_readInteger (loc : Location) :
    Replays d extra (readInteger loc) (readInteger loc) := by
  intro m n m₁ _ hrun
  dsimp only [readInteger, op] at hrun
  split at hrun
  · next n' input hnext =>
    cases hrun
    refine ⟨[n], "", (Machine.Proceeds.of_next hnext).noted _, fun m' hembeds hoffers => ?_⟩
    obtain ⟨j, hj⟩ := hoffers.reads
    cases hj with
    | @cons _ input' _ _ _ hnext' hj =>
      have hinput : Machine.Embeds d extra { m with input := input }
          { m' with input := input' } := { hembeds with }
      refine ⟨({ m' with input := input' } : Machine).note (.got n), ?_,
        (Machine.Proceeds.of_next hnext').noted _, hinput.note _ _⟩
      dsimp only [readInteger, op]
      rw [hnext']
      rfl
  · cases hrun

/-- There has to be room for a text that is printed. -/
theorem replays_writeLine (n : Int64) (loc : Location) :
    Replays d extra (writeLine n loc) (writeLine n loc) := by
  intro m a m₁ _ hrun
  rw [run_writeLine] at hrun
  split at hrun
  · next output hwrite =>
    cases hrun
    obtain ⟨htakes, rfl⟩ := Output.write_eq_true_iff.1 hwrite
    refine ⟨[], line n, (Machine.Proceeds.of_takes htakes).noted _, fun m' hembeds hoffers => ?_⟩
    have houtput : Machine.Embeds d extra { m with output := m.output.add (line n) }
        { m' with output := m'.output.add (line n) } := { hembeds with }
    refine ⟨({ m' with output := m'.output.add (line n) } : Machine).note (.printed n), ?_,
      (Machine.Proceeds.of_takes hoffers.takes).noted _, houtput.note _ _⟩
    rw [run_writeLine, Output.write_eq_true_iff.2 ⟨hoffers.takes, rfl⟩]
  · cases hrun

theorem replays_flush (loc : Location) :
    Replays d extra (Context.flush loc) (Context.flush loc) := by
  intro m a m₁ _ hrun
  dsimp only [Context.flush, op] at hrun
  split at hrun
  · cases hrun
    refine ⟨[], "", .of_eq rfl rfl rfl, fun m' hembeds hoffers => ?_⟩
    refine ⟨m', ?_, .of_eq rfl rfl rfl, hembeds⟩
    dsimp only [Context.flush, op]
    unfold Output.flush
    rw [hoffers.flushes]
  · cases hrun

theorem replaysOn_readPlace (place : Place) (loc : Location) :
    ReplaysOn (fun m => m.Holds place) d extra (readPlace place loc)
      (readPlace (rename (shift d) place) loc) :=
  replaysOn_query loc fun hplace h hv => h.readPlace hplace hv

theorem replaysOn_writePlace (place : Place) (v : Value) (loc : Location) :
    ReplaysOn P d extra (writePlace place v loc)
      (writePlace (rename (shift d) place) (rename (shift d) v) loc) :=
  replaysOn_attempt loc Machine.proceeds_writePlace Machine.proceeds_writePlace fun h hw =>
    h.writePlace hw

/-- What is done with a place is replayed on machines where it holds a value. -/
theorem replaysOn_atPlace {place : Place} {x x' : Eval α}
    (h : AtPlace (shift d) (Replays d extra) place x x') :
    ReplaysOn (fun m => m.Holds place) d extra x x' := by
  induction h with
  | other hx => exact hx.on
  | read loc => exact replaysOn_readPlace place loc
  | write v loc => exact replaysOn_writePlace place v loc
  | seq _ _ ihx ihf =>
    exact ReplaysOn.bind (fun hplace hproceeds id hid => hproceeds.globals id (hplace id hid))
      ihx ihf

/-- The place of a variable holds a value, so what is done with it is replayed. -/
theorem replays_atName (name : String) (link : Option Nat) (isArray : Nat → Bool) (loc : Location)
    {f f' : Place → Eval β}
    (hf : ∀ place, AtPlace (shift d) (Replays d extra) place (f place)
      (f' (rename (shift d) place))) :
    Replays d extra (placeOfName name link isArray loc >>= f)
      (placeOfName name link isArray loc >>= f') := by
  intro m b m₁ _ hrun
  obtain ⟨place, m₂, hplace, hrun⟩ := run_bind_eq_done hrun
  dsimp only [placeOfName, lookUp, query, op] at hplace
  split at hplace
  · next place' hok =>
    cases hplace
    obtain ⟨ns, t, hproceeds, hreplay⟩ := replaysOn_atPlace (hf place) m b m₁
      (Machine.holds_of_placeOfName hok) hrun
    refine ⟨ns, t, hproceeds, fun m' hembeds hoffers => ?_⟩
    obtain ⟨m₁', hrun', hproceeds', hembeds'⟩ := hreplay m' hembeds hoffers
    refine ⟨m₁', ?_, hproceeds', hembeds'⟩
    have hplace' : (placeOfName name link isArray loc).run m' =
        .done (rename (shift d) place) m' := by
      dsimp only [placeOfName, lookUp, query, op]
      rw [hembeds.placeOfName hok]
    rw [run_bind_done hplace']
    exact hrun'
  · cases hplace

/-! ### Calls -/

/-- Computations in new frames, followed by what depends on the value that is returned. -/
theorem Replays.inFrame_bind {x x' : Eval α} (hx : Replays d extra x x') {f f' : Frame}
    (hf : f.Renamed (shift d) f') (howned : f.owned = []) {k k' : Value → Eval β}
    (hk : ∀ v, Replays d extra (k v) (k' (rename (shift d) v))) :
    Replays d extra (inFrame f x >>= fun r => k r.2.returnValue)
      (inFrame f' x' >>= fun r => k' r.2.returnValue) := by
  have leaves : ∀ {g : Frame} {y : Eval α} {m m₁ : Machine} {a : α} (k : Value → Eval β),
      y.run (m.enterFrame g) = .done a m₁ →
        (inFrame g y >>= fun r => k r.2.returnValue).run m =
          (k m₁.leaveFrame.1.returnValue).run m₁.leaveFrame.2 := by
    intro g y m m₁ a k hrun
    rw [run_bind, run_inFrame, hrun]
  intro m b m₂ _ hrun
  obtain ⟨⟨a, g⟩, m₁, hin, -⟩ := run_bind_eq_done hrun
  obtain ⟨a', m₀, hxrun, -, -⟩ := run_inFrame_eq_done hin
  rw [leaves k hxrun] at hrun
  obtain ⟨ns, t, hproceeds, hreplay⟩ := hx _ a' m₀ trivial hxrun
  obtain ⟨ns', t', hproceeds', hreplay'⟩ := hk _ _ b m₂ trivial hrun
  refine ⟨ns ++ ns', t ++ t', hproceeds.inFrame.trans hproceeds', fun m' hembeds hoffers => ?_⟩
  obtain ⟨m₀', hxrun', hsame, hembeds₀⟩ := hreplay (m'.enterFrame f')
    (hembeds.enterFrame hf howned) ⟨hoffers.front.reads, hoffers.front.takes, hoffers.flushes⟩
  obtain ⟨hframe, hrest⟩ := hembeds₀.leaveFrame
  obtain ⟨m₂', hkrun', hsame', hembeds₂⟩ := hreplay' _ hrest (hoffers.behind hsame.inFrame)
  have hvalue : m₀'.leaveFrame.1.returnValue =
      rename (shift d) m₀.leaveFrame.1.returnValue := hframe.returnValue
  refine ⟨m₂', ?_, hsame.inFrame.trans hsame', hembeds₂⟩
  rw [leaves k' hxrun', hvalue]
  exact hkrun'

/-! ### Runs -/

/-- Expressions look at nothing but what has been made. -/
theorem exprSimulationUpTo_replays (d : RegionId) (extra : UInt64) :
    ExprSimulationUpTo .equal (shift d) (Replays d extra) where
  injective := shift_injective d
  yield := replays_pure
  seq := Replays.bind
  fail := replays_fail
  readName x link loc _ := replays_lookUp _ loc fun h hv => h.readName hv
  atName x link isArray loc _ _ _ _ _ hf := replays_atName x link isArray loc hf
  readMemory p loc := replaysOn_query loc fun _ h hv => h.readPlace (fun _ hid => by cases hid) hv
  writeMemory p v loc := replaysOn_writePlace (.memory p) v loc
  remember _ _ := replays_modifyFrame (fun h => { h with }) fun _ => rfl
  readInteger := replays_readInteger
  writeLine := replays_writeLine
  allocate _ loc := replays_create loc Machine.proceeds_allocate Machine.proceeds_allocate
    fun h ha => h.allocate ha
  release _ loc := replaysOn_attempt loc Machine.proceeds_release Machine.proceeds_release
    fun h hr => h.release hr
  written := False.elim

/-- A frame of a call owns nothing at first. -/
theorem owned_frame (f : Function) (args : List Value) : (f.frame args).owned = [] := by
  obtain ⟨b, hb⟩ := f.exists_frame_eq args
  rw [hb]
  rfl

/-- Runs look at nothing but what they have made. -/
theorem runSimulationUpTo_replays (d : RegionId) (extra : UInt64) (scope : Nat → Option Bool)
    (limit : Nat) :
    RunSimulationUpTo .equal (shift d) scope limit limit (Replays d extra) (Replays d extra) where
  toExprSimulationUpTo := exprSimulationUpTo_replays d extra
  ofExpr h := h
  sequence := Replays.bind
  clearCache := replays_modifyFrame (fun h => { h with }) fun _ => rfl
  depth := replays_depth
  dropOldArray depth _ := by
    unfold Eval.dropOldArray
    split
    · exact replays_pure ()
    · exact replays_update (fun m => m.proceeds_dropOldArray _) (fun m => m.proceeds_dropOldArray _)
        fun h => h.dropOldArray _
  storeArray _ _ loc _ _ := replays_create loc Machine.proceeds_storeArray
    Machine.proceeds_storeArray fun h hs => h.storeArray hs
  bindVariable _ w _ := replays_update (fun m => m.proceeds_bindVariable _ _ _)
    (fun m => m.proceeds_bindVariable _ _ _) fun h => h.bindVariable _ _ w
  outOfFuel := replays_outOfFuel
  hasReturned := replays_hasReturned
  setReturned _ := replays_modifyFrame (fun h => { h with returned_eq := rfl }) fun _ => rfl
  recordStatement _ := replays_update (fun m => m.proceeds_note _) (fun m => m.proceeds_note _)
    fun h => h.note _ _
  enter f args loc _ _ hx := (exprSimulationUpTo_replays d extra).enter replays_depth
    replays_record limit f args loc hx fun _ _ hy hk =>
      hy.inFrame_bind (f.renamed_frame args) (owned_frame f args) hk
  started _ := replays_record _ _
  flush := replays_flush
  finished _ := replaysOn_quiet fun m a m₁ _ hrun => by
    cases hrun
    exact ⟨m.proceeds_note _, fun m' hembeds =>
      ⟨_, rfl, m'.proceeds_note _, hembeds.note _ _⟩⟩

/-- A run is replayed on larger machines. -/
theorem replays_run (ctx : Context) (config : Config) (d : RegionId) (extra : UInt64) (fuel : Nat)
    (hentry : config.entry = ctx.config.entry)
    (hdepth : config.maxCallDepth = ctx.config.maxCallDepth) :
    Replays d extra (ctx.run fuel) (Context.run ⟨ctx.program, config⟩ fuel) := by
  have hp := ctx.program.alike_self
  have hsim : RunSimulationUpTo .equal (shift d)
      (fun id => (ctx.program.declarations[id]?).map Declaration.isGlobal) ctx.config.maxCallDepth
      config.maxCallDepth (Replays d extra) (Replays d extra) := by
    rw [hdepth]
    exact runSimulationUpTo_replays d extra _ _
  have hd : (ctx.env fuel).declarations = (Context.env ⟨ctx.program, config⟩ fuel).declarations :=
    rfl
  exact hsim.run hentry hp fuel (hsim.declareGlobals hd (hsim.call hp fuel) hp.globals)

end Eval

end MiniC
