import MiniC.Proofs.Numbering

/-!
# What names are linked to

Read from left to right, a function is a list of mentions: it declares names, and it uses them.  A
use refers to the last declaration of its name that stands before it, whatever block that is in,
and else to a global.  A variable is declared behind its own initial value; a parameter without a
name declares nothing.

A `do … while` is the one statement whose parts are not resolved in the order they stand in: its
condition is resolved before its body, so it does not see what the body declares.

Main definitions:

* `MiniC.Mention`, `MiniC.Expr.mentions`, `MiniC.Stmt.mentions`, `MiniC.Function.mentions`: where
  names are declared and used, in source order;
* `MiniC.Linked`: all uses refer to the last declaration before them;
* `MiniC.Program.bare`: a program without what resolving adds.

Main results:

* `MiniC.Program.names_linked`: what resolving links, and that it changes nothing else.
-/

set_option autoImplicit false

namespace MiniC

/-! ### Mentions -/

/-- A place of a text where a name is declared, or where it is used. -/
inductive Mention where
  | declared (name : String) (id : Nat)
  /-- A use of a name, with the declaration that it is linked to. -/
  | used (name : String) (link : Option Nat)
deriving DecidableEq, Repr

/-- The declaration that a mention makes of a name. -/
def Mention.declares? (x : String) : Mention → Option Nat
  | .declared y id => if y = x then some id else none
  | .used _ _ => none

/-- The last declaration of a name among mentions. -/
def lastDeclared (x : String) (ms : List Mention) : Option Nat :=
  (ms.filterMap (Mention.declares? x)).getLast?

namespace Expr

mutual

/-- The names in an expression. -/
def mentions : Expr → List Mention
  | int _ _ | char _ _ | string _ _ | sizeof _ _ => []
  | name _ x link => [.used x link]
  | binary _ _ l r => l.mentions ++ r.mentions
  | unary _ _ x => x.mentions
  | call _ _ args => mentionsOf args
  | subscript _ b i => b.mentions ++ i.mentions
  | cast _ _ x => x.mentions

/-- The names in the expressions of a list. -/
def mentionsOf : List Expr → List Mention
  | [] => []
  | e :: es => e.mentions ++ mentionsOf es

end

/-- The names in an optional expression. -/
def mentionsOfOption : Option Expr → List Mention
  | none => []
  | some e => e.mentions

end Expr

/-- The names in a variable's initial value, and then the variable. -/
def Variable.mentions (v : Variable) : List Mention :=
  Expr.mentionsOfOption v.init ++ [.declared v.name v.id]

namespace Stmt

mutual

/-- The names that a statement declares and uses, in source order. -/
def mentions : Stmt → List Mention
  | declare _ vs => vs.flatMap Variable.mentions
  | eval _ e => e.mentions
  | branch _ c t e => c.mentions ++ (t.mentions ++ mentionsOfOption e)
  | whileLoop _ c b => c.mentions ++ b.mentions
  | doLoop _ b c => b.mentions ++ c.mentions
  | forLoop _ i c s b =>
    mentionsOfOption i ++ (Expr.mentionsOfOption c ++ (Expr.mentionsOfOption s ++ b.mentions))
  | ret _ e => Expr.mentionsOfOption e
  | block _ body => mentionsOf body
  | leave _ | next _ | empty _ => []

/-- The names that the statements of a list declare and use. -/
def mentionsOf : List Stmt → List Mention
  | [] => []
  | s :: ss => s.mentions ++ mentionsOf ss

/-- The names that an optional statement declares and uses. -/
def mentionsOfOption : Option Stmt → List Mention
  | none => []
  | some s => s.mentions

end

/-- A `do … while`. -/
def isDoLoop : Stmt → Bool
  | doLoop _ _ _ => true
  | _ => false

end Stmt

/-- A parameter declares its name, if it has one. -/
def Parameter.mentions (q : Parameter) : List Mention :=
  if q.name.isEmpty then [] else [.declared q.name q.id]

/-- The names that a function declares and uses: its parameters, and then those of its body. -/
def Function.mentions (f : Function) : List Mention :=
  f.params.flatMap Parameter.mentions ++ Stmt.mentionsOfOption f.body

/-- The names that the globals of a program declare and use. -/
def Program.globalMentions (p : Program) : List Mention := p.globals.flatMap Variable.mentions

/-! ### Links -/

/-- Each use among mentions is linked to the last declaration of its name before it, and if there
is none, to what the name refers to outside.  `before` stands before all of them. -/
def Linked (outer : String → Option Nat) (before ms : List Mention) : Prop :=
  ∀ earlier x link later, ms = earlier ++ .used x link :: later →
    link = (lastDeclared x (before ++ earlier)).or (outer x)

/-- A scope tells of all names what the mentions so far say. -/
def Scope.Tells (outer : String → Option Nat) (before : List Mention) (s : Scope) : Prop :=
  ∀ x, s.lookup? x = (lastDeclared x before).or (outer x)

/-- Mentions are linked, and behind them the scope tells what they say. -/
structure Links (outer : String → Option Nat) (before ms : List Mention) (s : Scope) : Prop where
  linked : Linked outer before ms
  tells : s.Tells outer (before ++ ms)

section

variable {outer : String → Option Nat} {before ms ms' : List Mention} {s t : Scope}

theorem lastDeclared_append (x : String) (ms ms' : List Mention) :
    lastDeclared x (ms ++ ms') = (lastDeclared x ms').or (lastDeclared x ms) := by
  simp only [lastDeclared, List.filterMap_append, List.getLast?_append]

theorem lastDeclared_append_declared (x y : String) (id : Nat) (ms : List Mention) :
    lastDeclared x (ms ++ [.declared y id]) = if y = x then some id else lastDeclared x ms := by
  rw [lastDeclared_append]
  by_cases h : y = x <;> simp [lastDeclared, Mention.declares?, h]

theorem lastDeclared_append_used (x y : String) (link : Option Nat) (ms : List Mention) :
    lastDeclared x (ms ++ [.used y link]) = lastDeclared x ms := by
  rw [lastDeclared_append]
  rfl

theorem Linked.singleton {m : Mention}
    (h : ∀ x link, m = .used x link → link = (lastDeclared x before).or (outer x)) :
    Linked outer before [m] := by
  intro earlier x link later hsplit
  cases earlier with
  | nil =>
    obtain ⟨rfl, -⟩ := List.cons.inj hsplit
    rw [List.append_nil]
    exact h x link rfl
  | cons m' earlier =>
    obtain ⟨-, htail⟩ := List.cons.inj hsplit
    exact absurd htail (by simp)

theorem Linked.append (h : Linked outer before ms) (h' : Linked outer (before ++ ms) ms') :
    Linked outer before (ms ++ ms') := by
  intro earlier x link later hsplit
  rcases List.append_eq_append_iff.1 hsplit with ⟨rest, rfl, hms'⟩ | ⟨rest, hms, hrest⟩
  · rw [← List.append_assoc]
    exact h' rest x link later hms'
  · cases rest with
    | nil =>
      rw [List.append_nil] at hms
      have hhead := h' [] x link later hrest.symm
      rwa [List.append_nil, hms] at hhead
    | cons m rest =>
      obtain ⟨rfl, -⟩ := List.cons.inj hrest
      exact h earlier x link rest hms

namespace Links

theorem nil (hs : s.Tells outer before) : Links outer before [] s where
  linked := fun earlier x link later h => by simp at h
  tells := by rwa [List.append_nil]

/-- What is read second is resolved in the scope behind what is read first. -/
theorem append (h : Links outer before ms s)
    (h' : s.Tells outer (before ++ ms) → Links outer (before ++ ms) ms' t) :
    Links outer before (ms ++ ms') t where
  linked := h.linked.append (h' h.tells).linked
  tells := by
    rw [← List.append_assoc]
    exact (h' h.tells).tells

/-- A use is linked to what the scope tells. -/
theorem used (hs : s.Tells outer before) (x : String) :
    Links outer before [.used x (s.lookup? x)] s where
  linked := .singleton fun y link h => by
    obtain ⟨rfl, rfl⟩ := Mention.used.inj h
    exact hs x
  tells := fun y => by rw [lastDeclared_append_used, hs y]

/-- Behind a local declaration of a name, the name refers to it. -/
theorem declared (hs : s.Tells outer before) (x : String) (id : Nat) :
    Links outer before [.declared x id] (s.bind x id) where
  linked := .singleton fun y link h => by cases h
  tells := fun y => by
    rw [Scope.lookup?_bind, lastDeclared_append_declared]
    by_cases h : x = y
    · simp [h]
    · simp [h, Ne.symm h, hs y]

/-- Behind a global declaration of a name, the name refers to it, as there are no locals. -/
theorem declaredGlobal (hs : s.Tells outer before) (hlocals : s.locals = []) (x : String)
    (id : Nat) : Links outer before [.declared x id] (s.bindGlobal x id) where
  linked := .singleton fun y link h => by cases h
  tells := fun y => by
    rw [Scope.lookup?_bindGlobal, lastDeclared_append_declared]
    by_cases h : x = y
    · simp [h, hlocals]
    · simp [h, Ne.symm h, hs y]

end Links

end

variable {outer : String → Option Nat} {before : List Mention}

namespace Expr

mutual

/-- The names in a resolved expression are linked. -/
theorem links_resolve {before : List Mention} {s : Scope} (hs : s.Tells outer before) :
    (e : Expr) →
    Links outer before (e.resolve s).mentions s
  | int _ _ | char _ _ | string _ _ | sizeof _ _ => .nil hs
  | name _ x _ => .used hs x
  | binary _ _ l r => (links_resolve hs l).append fun hs => links_resolve hs r
  | unary _ _ x => links_resolve hs x
  | call _ _ args => links_resolveAll hs args
  | subscript _ b i => (links_resolve hs b).append fun hs => links_resolve hs i
  | cast _ _ x => links_resolve hs x

theorem links_resolveAll {before : List Mention} {s : Scope} (hs : s.Tells outer before) :
    (es : List Expr) →
    Links outer before (mentionsOf (resolveAll s es)) s
  | [] => .nil hs
  | e :: es => (links_resolve hs e).append fun hs => links_resolveAll hs es

end

theorem links_resolveOption {s : Scope} (hs : s.Tells outer before) (o : Option Expr) :
    Links outer before (mentionsOfOption (o.map (resolve s))) s := by
  cases o with
  | none => exact .nil hs
  | some e => exact e.links_resolve hs

end Expr

/-- Declared variables are visible from their own declaration on. -/
theorem Variable.links_resolveAll {s : Scope} (hs : s.Tells outer before) (vs : List Variable) :
    Links outer before ((resolveAll s vs).1.flatMap Variable.mentions) (resolveAll s vs).2 := by
  induction vs generalizing s before with
  | nil => exact .nil hs
  | cons v vs ih =>
    have hinit : Links outer before (v.resolve s).mentions (s.bind v.name v.id) :=
      (Expr.links_resolveOption hs v.init).append fun hs => .declared hs v.name v.id
    exact hinit.append fun hs => ih hs

namespace Stmt

mutual

/-- The names in a resolved statement are linked, unless it has a `do … while`. -/
theorem links_resolve {before : List Mention} {s : Scope} (hs : s.Tells outer before) :
    (st : Stmt) → (∀ t ∈ (st.resolve s).1.all, t.isDoLoop = false) →
    Links outer before (st.resolve s).1.mentions (st.resolve s).2
  | declare _ vs, _ => Variable.links_resolveAll hs vs
  | eval _ e, _ => e.links_resolve hs
  | branch _ c t e, h => by
    obtain ⟨-, hparts⟩ := List.forall_mem_cons.1 h
    obtain ⟨ht, he⟩ := List.forall_mem_append.1 hparts
    exact (c.links_resolve hs).append fun hs =>
      (links_resolve hs t ht).append fun hs => links_resolveOption hs e he
  | whileLoop _ c b, h =>
    (c.links_resolve hs).append fun hs => links_resolve hs b (List.forall_mem_cons.1 h).2
  | doLoop _ _ _, h => nomatch (List.forall_mem_cons.1 h).1
  | forLoop _ i c e b, h => by
    obtain ⟨-, hparts⟩ := List.forall_mem_cons.1 h
    obtain ⟨hi, hb⟩ := List.forall_mem_append.1 hparts
    exact (links_resolveOption hs i hi).append fun hs =>
      (Expr.links_resolveOption hs c).append fun hs =>
        (Expr.links_resolveOption hs e).append fun hs => links_resolve hs b hb
  | ret _ e, _ => Expr.links_resolveOption hs e
  | block _ body, h => links_resolveAll hs body (List.forall_mem_cons.1 h).2
  | leave _, _ | next _, _ | empty _, _ => .nil hs

theorem links_resolveAll {before : List Mention} {s : Scope} (hs : s.Tells outer before) :
    (sts : List Stmt) → (∀ t ∈ allOf (resolveAll s sts).1, t.isDoLoop = false) →
    Links outer before (mentionsOf (resolveAll s sts).1) (resolveAll s sts).2
  | [], _ => .nil hs
  | st :: sts, h => by
    obtain ⟨hst, hsts⟩ := List.forall_mem_append.1 h
    exact (links_resolve hs st hst).append fun hs => links_resolveAll hs sts hsts

theorem links_resolveOption {before : List Mention} {s : Scope} (hs : s.Tells outer before) :
    (o : Option Stmt) → (∀ t ∈ allOfOption (resolveOption s o).1, t.isDoLoop = false) →
    Links outer before (mentionsOfOption (resolveOption s o).1) (resolveOption s o).2
  | none, _ => .nil hs
  | some st, h => links_resolve hs st h

end

end Stmt

/-- In a function, the named parameters are declared first, and the globals are outside. -/
theorem Links.parameters {s : Scope} (hs : s.Tells outer before) (params : List Parameter) :
    Links outer before (params.flatMap Parameter.mentions)
      (params.foldl (fun s p => if p.name.isEmpty then s else s.bind p.name p.id) s) := by
  induction params generalizing s before with
  | nil => exact .nil hs
  | cons q params ih =>
    have hfirst : Links outer before q.mentions
        (if q.name.isEmpty then s else s.bind q.name q.id) := by
      unfold Parameter.mentions
      split
      · exact .nil hs
      · exact .declared hs q.name q.id
    exact hfirst.append fun hs => ih hs

/-- Globals see those before them; behind all of them there still are no locals. -/
theorem Program.links_resolveGlobals {s : Scope} (hs : s.Tells outer before)
    (hlocals : s.locals = []) (vs : List Variable) :
    Links outer before ((resolveGlobals s vs).1.flatMap Variable.mentions) (resolveGlobals s vs).2 ∧
      (resolveGlobals s vs).2.locals = [] := by
  induction vs generalizing s before with
  | nil => exact ⟨.nil hs, hlocals⟩
  | cons v vs ih =>
    have hinit : Links outer before (v.resolve s).mentions (s.bindGlobal v.name v.id) :=
      (Expr.links_resolveOption hs v.init).append fun hs => .declaredGlobal hs hlocals v.name v.id
    exact ⟨hinit.append fun hs => (ih hs hlocals).1, (ih hinit.tells hlocals).2⟩

/-- The names in a resolved function are linked, unless it has a `do … while`. -/
theorem Function.linked_resolve {s : Scope} {globals : List Mention}
    (hs : s.Tells (fun _ => none) globals) (hlocals : s.locals = []) (f : Function)
    (h : ∀ t ∈ (f.resolve s).stmts, t.isDoLoop = false) :
    Linked (fun x => lastDeclared x globals) [] (f.resolve s).mentions := by
  -- To the function the globals are outside, and nothing stands before its parameters.
  have houter : s.Tells (fun x => lastDeclared x globals) [] := fun x => by
    rw [hs x]
    simp [lastDeclared]
  have hstart : ({ s with locals := [] } : Scope) = s := by rw [← hlocals]
  have hparams : Links (fun x => lastDeclared x globals) [] (f.params.flatMap Parameter.mentions)
      (s.enter f.params) := by
    unfold Scope.enter
    rw [hstart]
    exact .parameters houter f.params
  have hbody : (f.resolve s).body = (Stmt.resolveOption (s.enter f.params) f.body).1 := by
    cases hb : f.body <;> simp [Function.resolve, Stmt.resolveOption, hb]
  unfold Function.stmts at h
  unfold Function.mentions
  rw [hbody] at h ⊢
  exact (hparams.append fun hs => Stmt.links_resolveOption hs f.body h).linked

/-! ### What resolving leaves alone -/

/-- A node without its static type. -/
def Node.bare (n : Node) : Node := { n with type := none }

namespace Expr

mutual

/-- An expression without links and static types. -/
def bare : Expr → Expr
  | int n v => int n.bare v
  | char n v => char n.bare v
  | string n v => string n.bare v
  | name n x _ => name n.bare x none
  | binary n op l r => binary n.bare op l.bare r.bare
  | unary n op x => unary n.bare op x.bare
  | call n f args => call n.bare f (bareAll args)
  | subscript n b i => subscript n.bare b.bare i.bare
  | cast n t x => cast n.bare t x.bare
  | sizeof n t => sizeof n.bare t

/-- The expressions of a list without links and static types. -/
def bareAll : List Expr → List Expr
  | [] => []
  | e :: es => e.bare :: bareAll es

end

end Expr

/-- A variable without links and static types in its initial value. -/
def Variable.bare (v : Variable) : Variable := { v with init := v.init.map Expr.bare }

namespace Stmt

mutual

/-- A statement without links and static types. -/
def bare : Stmt → Stmt
  | declare l vs => declare l (vs.map Variable.bare)
  | eval l e => eval l e.bare
  | branch l c t e => branch l c.bare t.bare (bareOption e)
  | whileLoop l c b => whileLoop l c.bare b.bare
  | doLoop l b c => doLoop l b.bare c.bare
  | forLoop l i c s b =>
    forLoop l (bareOption i) (c.map Expr.bare) (s.map Expr.bare) b.bare
  | ret l e => ret l (e.map Expr.bare)
  | block l body => block l (bareAll body)
  | leave l => leave l
  | next l => next l
  | empty l => empty l

/-- The statements of a list without links and static types. -/
def bareAll : List Stmt → List Stmt
  | [] => []
  | s :: ss => s.bare :: bareAll ss

/-- An optional statement without links and static types. -/
def bareOption : Option Stmt → Option Stmt
  | none => none
  | some s => some s.bare

end

end Stmt

/-- A function without links and static types; a prototype stands for no built-in. -/
def Function.bare (f : Function) : Function :=
  { f with
    body := f.body.map Stmt.bare
    intrinsic := if f.isDefinition then f.intrinsic else none }

/-- A program without what resolving adds: links, static types, and the built-ins that its
prototypes stand for. -/
def Program.bare (p : Program) : Program where
  globals := p.globals.map Variable.bare
  functions := p.functions.map Function.bare
  declarations := p.declarations

namespace Expr

mutual

/-- Resolving an expression adds links and types only. -/
theorem bare_resolve (s : Scope) : (e : Expr) → (e.resolve s).bare = e.bare
  | int _ _ | char _ _ | string _ _ | name _ _ _ | sizeof _ _ => rfl
  | binary n op l r => by
    have hl := bare_resolve s l
    have hr := bare_resolve s r
    simp only [resolve, bare, Node.bare, hl, hr]
  | unary n op x => by
    have hx := bare_resolve s x
    simp only [resolve, bare, Node.bare, hx]
  | call n f args => by
    have hargs := bareAll_resolveAll s args
    simp only [resolve, bare, Node.bare, hargs]
  | subscript n b i => by
    have hb := bare_resolve s b
    have hi := bare_resolve s i
    simp only [resolve, bare, Node.bare, hb, hi]
  | cast n t x => by
    have hx := bare_resolve s x
    simp only [resolve, bare, Node.bare, hx]

theorem bareAll_resolveAll (s : Scope) : (es : List Expr) →
    bareAll (resolveAll s es) = bareAll es
  | [] => rfl
  | e :: es => by rw [resolveAll, bareAll, bareAll, bare_resolve s e, bareAll_resolveAll s es]

end

theorem map_bare_resolve (s : Scope) (o : Option Expr) :
    (o.map (resolve s)).map bare = o.map bare := by
  cases o with
  | none => rfl
  | some e => exact congrArg some (bare_resolve s e)

end Expr

/-- Resolving a variable adds links and types only. -/
theorem Variable.bare_resolve (s : Scope) (v : Variable) : (v.resolve s).bare = v.bare := by
  simp only [Variable.resolve, Variable.bare, Expr.map_bare_resolve]

theorem Variable.map_bare_resolveAll (s : Scope) (vs : List Variable) :
    (resolveAll s vs).1.map Variable.bare = vs.map Variable.bare := by
  induction vs generalizing s with
  | nil => rfl
  | cons v vs ih => simp only [resolveAll, List.map_cons, bare_resolve, ih]

namespace Stmt

mutual

/-- Resolving a statement adds links and types only. -/
theorem bare_resolve (s : Scope) : (st : Stmt) → (st.resolve s).1.bare = st.bare
  | declare l vs => congrArg (declare l) (Variable.map_bare_resolveAll s vs)
  | eval l e => congrArg (eval l) (e.bare_resolve s)
  | branch l c t e => by
    have ht := bare_resolve s t
    have he := bareOption_resolveOption (t.resolve s).2 e
    simp only [resolve, bare, Expr.bare_resolve, ht, he]
  | whileLoop l c b => by
    have hb := bare_resolve s b
    simp only [resolve, bare, Expr.bare_resolve, hb]
  | doLoop l b c => by
    have hb := bare_resolve s b
    simp only [resolve, bare, Expr.bare_resolve, hb]
  | forLoop l i c e b => by
    have hi := bareOption_resolveOption s i
    have hb := bare_resolve (resolveOption s i).2 b
    simp only [resolve, bare, Expr.map_bare_resolve, hi, hb]
  | ret l e => congrArg (ret l) (Expr.map_bare_resolve s e)
  | block l body => congrArg (block l) (bareAll_resolveAll s body)
  | leave _ | next _ | empty _ => rfl

theorem bareAll_resolveAll (s : Scope) : (sts : List Stmt) →
    bareAll (resolveAll s sts).1 = bareAll sts
  | [] => rfl
  | st :: sts => by
    have hst := bare_resolve s st
    have hsts := bareAll_resolveAll (st.resolve s).2 sts
    simp only [resolveAll, bareAll, hst, hsts]

theorem bareOption_resolveOption (s : Scope) : (o : Option Stmt) →
    bareOption (resolveOption s o).1 = bareOption o
  | none => rfl
  | some st => congrArg some (bare_resolve s st)

end

end Stmt

/-- Resolving a function adds links, types and the built-in that it stands for only. -/
theorem Function.bare_resolve_tag (s : Scope) (f : Function) :
    (f.tag.resolve s).bare = f.bare := by
  cases hb : f.body with
  | none => simp [Function.bare, Function.resolve, Function.tag, Function.isDefinition, hb]
  | some b =>
    simp [Function.bare, Function.resolve, Function.tag, Function.isDefinition, hb,
      Stmt.bare_resolve]

theorem Program.map_bare_resolveGlobals (s : Scope) (vs : List Variable) :
    (resolveGlobals s vs).1.map Variable.bare = vs.map Variable.bare := by
  induction vs generalizing s with
  | nil => rfl
  | cons v vs ih => simp only [resolveGlobals, List.map_cons, Variable.bare_resolve, ih]

/-- Resolving a program adds links, types and the built-ins of prototypes only. -/
theorem Program.bare_resolve (p : Program) : p.resolve.bare = p.bare := by
  have hfunctions : ∀ s, ((p.functions.map Function.tag).map (Function.resolve s)).map
      Function.bare = p.functions.map Function.bare := by
    intro s
    simp only [List.map_map]
    exact List.map_congr_left fun f _ => f.bare_resolve_tag s
  simp only [Program.resolve, Program.bare, Program.map_bare_resolveGlobals, hfunctions]

/-! ### Programs -/

namespace Program

/-- What resolving does to a program.  A name in the initial value of a global refers to the last
global of that name before it.  A name in a function without `do … while` refers to the last
parameter or variable of that name before it, else to the last global of that name, wherever that
stands.  All other names refer to nothing.  Prototypes stand for the built-ins they name; nothing
else changes but the static types. -/
theorem names_linked (p : Program) :
    Linked (fun _ => none) [] p.resolve.globalMentions ∧
    (∀ f ∈ p.resolve.functions, (∀ t ∈ f.stmts, t.isDoLoop = false) →
      Linked (fun x => lastDeclared x p.resolve.globalMentions) [] f.mentions) ∧
    (∀ f ∈ p.resolve.functions, f.isDefinition = false →
      f.intrinsic = Intrinsic.ofName? f.name) ∧
    p.resolve.bare = p.bare := by
  have hstart : Scope.Tells (fun _ => none) []
      ⟨p.declarations, p.functions.map Function.tag, [], []⟩ := fun _ => rfl
  obtain ⟨hglobals, hlocals⟩ := links_resolveGlobals hstart rfl p.globals
  refine ⟨hglobals.linked, ?_, ?_, p.bare_resolve⟩
  · intro f hf hloops
    obtain ⟨g, -, rfl⟩ := List.mem_map.1 hf
    exact g.linked_resolve hglobals.tells hlocals hloops
  · intro f hf hdef
    obtain ⟨g, hg, rfl⟩ := List.mem_map.1 hf
    obtain ⟨f, -, rfl⟩ := List.mem_map.1 hg
    cases hb : f.body with
    | none => simp [Function.resolve, Function.tag, Function.isDefinition, hb]
    | some b => simp [Function.resolve, Function.tag, Function.isDefinition, hb] at hdef

/-- Names declared twice, a global behind its use, variables in their own initial values, and a
name that nothing declares. -/
def shadowing : String :=
  "int x = y; int GET(); int f(int, int x) { int z = z; { int x = x; }
   for (int i = x; i < y; i++) { int z = i; } return z + w; } int y = x;"

/-- In `f` the block declares another `x`, which the loop refers to, and the loop another `z`, which
the `return` refers to. -/
theorem names_linked_shadowing :
    ∃ p f, (read shadowing).result = .ok p ∧ f ∈ p.resolve.functions ∧
      f.mentions = [.declared "x" 2, .used "z" none, .declared "z" 3, .used "x" (some 2),
        .declared "x" 4, .used "x" (some 4), .declared "i" 5, .used "i" (some 5),
        .used "y" (some 7), .used "i" (some 5), .used "i" (some 5), .declared "z" 6,
        .used "z" (some 6), .used "w" none] ∧
      Linked (fun x => lastDeclared x p.resolve.globalMentions) [] f.mentions := by
  have hshown : ((read shadowing).result.toOption.bind fun p =>
      p.resolve.functions[1]?.map fun f => (f.mentions, f.stmts.all fun t => !t.isDoLoop)) =
      some ([.declared "x" 2, .used "z" none, .declared "z" 3, .used "x" (some 2),
        .declared "x" 4, .used "x" (some 4), .declared "i" 5, .used "i" (some 5),
        .used "y" (some 7), .used "i" (some 5), .used "i" (some 5), .declared "z" 6,
        .used "z" (some 6), .used "w" none], true) := by
    decide +kernel
  obtain ⟨p, hp, hf⟩ := Option.bind_eq_some_iff.1 hshown
  obtain ⟨f, hf, hshape⟩ := Option.map_eq_some_iff.1 hf
  obtain ⟨hmentions, hloops⟩ := Prod.mk.inj hshape
  have hmem := List.mem_of_getElem? hf
  refine ⟨p, f, eq_ok_of_toOption hp, hmem, hmentions, p.names_linked.2.1 f hmem ?_⟩
  intro t ht
  simpa using List.all_eq_true.1 hloops t ht

end Program

end MiniC
