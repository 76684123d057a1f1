import Mathlib.Data.List.Perm.Basic
import MiniC.Proofs.Making

/-!
# Numbers of nodes and declarations

**The numbers in a parsed program are identities.**  No two expressions of a program that a text
says bear the same number, and an expression bears a greater one than the expressions inside it.
The variables and parameters are numbered by their places in the declaration table, without gaps,
and the table says of each what its declaration says.

A tree takes a stretch of the supply: the numbers of its nodes lie between the supply before it and
the supply behind it, and its entries are those by which the table has grown.  Stretches that follow
on each other are apart, which is what the induction over the trees needs.

Main definitions:

* `MiniC.Expr.inside`: the expressions inside an expression, without itself;
* `MiniC.Issues`: the numbers and the entries between two supplies;
* `MiniC.Program.Identified`: the numbers of a program are identities.

Main results:

* `MiniC.Issues.append`: what is issued one after the other;
* `MiniC.Stmt.Made.issues`: the numbers and entries of a statement that is made;
* `MiniC.Program.identified_of_read`: the numbers in a program that a text says are identities.
-/

set_option autoImplicit false

namespace MiniC

/-- The expressions inside an expression, without itself. -/
def Expr.inside (e : Expr) : List Expr := e.all.tail

/-- What a variable enters into the table, and where. -/
def Variable.entry (isGlobal : Bool) (v : Variable) : Declaration × Nat :=
  (⟨v.name, v.type, isGlobal⟩, v.id)

/-- What a parameter enters into the table, and where. -/
def Parameter.entry (q : Parameter) : Declaration × Nat := (⟨q.name, q.type, false⟩, q.id)

/-- What a function enters into the table: its parameters and the variables of its body. -/
def Function.entries (f : Function) : List (Declaration × Nat) :=
  f.params.map Parameter.entry ++ f.vars.map (Variable.entry false)

/-! ### What is issued between two supplies -/

/-- Between two supplies, the nodes `es` and the entries `ds` are issued: the nodes bear different
numbers between those of the supplies, greater ones than the nodes inside them, and the table grows
by the entries. -/
structure Issues (c c' : Supply) (es : List Expr) (ds : List (Declaration × Nat)) : Prop where
  le : c.nextNode ≤ c'.nextNode
  between : ∀ e ∈ es, c.nextNode ≤ e.id ∧ e.id < c'.nextNode
  nodup : (es.map Expr.id).Nodup
  above : ∀ e ∈ es, ∀ x ∈ e.inside, x.id < e.id
  entries : c'.declarations.toList.zipIdx = c.declarations.toList.zipIdx ++ ds

namespace Issues

variable {c c₁ c' : Supply} {es es' : List Expr} {ds ds' : List (Declaration × Nat)}

theorem nil (c : Supply) : Issues c c [] [] where
  le := Nat.le_refl _
  between _ h := absurd h List.not_mem_nil
  nodup := List.nodup_nil
  above _ h := absurd h List.not_mem_nil
  entries := (List.append_nil _).symm

/-- What is issued one after the other is issued as a whole. -/
theorem append (h : Issues c c₁ es ds) (h' : Issues c₁ c' es' ds') :
    Issues c c' (es ++ es') (ds ++ ds') where
  le := Nat.le_trans h.le h'.le
  between := by
    intro e he
    rcases List.mem_append.1 he with he | he
    · exact ⟨(h.between e he).1, Nat.lt_of_lt_of_le (h.between e he).2 h'.le⟩
    · exact ⟨Nat.le_trans h.le (h'.between e he).1, (h'.between e he).2⟩
  nodup := by
    rw [List.map_append]
    refine List.nodup_append.2 ⟨h.nodup, h'.nodup, fun id hid id' hid' heq => ?_⟩
    obtain ⟨e, he, rfl⟩ := List.mem_map.1 hid
    obtain ⟨e', he', rfl⟩ := List.mem_map.1 hid'
    have hlt := (h.between e he).2
    have hle := (h'.between e' he').1
    omega
  above := List.forall_mem_append.2 ⟨h.above, h'.above⟩
  entries := by rw [h'.entries, h.entries, List.append_assoc]

/-- The order in which nodes are listed does not matter. -/
theorem of_perm (h : Issues c c' es ds) (hp : es.Perm es') : Issues c c' es' ds where
  le := h.le
  between e he := h.between e (hp.mem_iff.2 he)
  nodup := (hp.map Expr.id).nodup_iff.1 h.nodup
  above e he := h.above e (hp.mem_iff.2 he)
  entries := h.entries

/-- A node is issued after the nodes inside it. -/
theorem node (h : Issues c c' es ds) {e : Expr} (hid : e.id = c'.nextNode)
    (hall : e.all = e :: es) : Issues c c'.afterNode e.all ds where
  le := Nat.le_succ_of_le h.le
  between := by
    have hle := h.le
    rw [hall, List.forall_mem_cons, hid]
    refine ⟨⟨hle, Nat.lt_succ_self _⟩, fun x hx => ?_⟩
    exact ⟨(h.between x hx).1, Nat.lt_succ_of_lt (h.between x hx).2⟩
  nodup := by
    rw [hall, List.map_cons, List.nodup_cons, hid]
    refine ⟨fun hmem => ?_, h.nodup⟩
    obtain ⟨x, hx, heq⟩ := List.mem_map.1 hmem
    exact absurd heq (Nat.ne_of_lt (h.between x hx).2)
  above := by
    rw [hall, List.forall_mem_cons]
    refine ⟨fun x hx => ?_, h.above⟩
    rw [Expr.inside, hall] at hx
    rw [hid]
    exact (h.between x hx).2
  entries := h.entries

/-- A node without nodes inside it. -/
theorem leaf {e : Expr} (hid : e.id = c.nextNode) (hall : e.all = [e]) :
    Issues c c.afterNode e.all [] := (nil c).node hid hall

/-- An entry is issued behind what the table grows by before it. -/
theorem entry (h : Issues c c' es ds) (d : Declaration) :
    Issues c (c'.afterEntry d) es (ds ++ [(d, c'.declarations.size)]) where
  le := h.le
  between := h.between
  nodup := h.nodup
  above := h.above
  entries := by
    rw [Supply.afterEntry, Array.toList_push, List.zipIdx_append, h.entries, List.append_assoc]
    simp

/-- The number of a called name is issued and given up. -/
theorem skip (h : Issues c.afterNode c' es ds) : Issues c c' es ds where
  le := Nat.le_of_succ_le h.le
  between e he := ⟨Nat.le_of_succ_le (h.between e he).1, (h.between e he).2⟩
  nodup := h.nodup
  above := h.above
  entries := h.entries

/-- What is issued for the things of a list that are made one after the other. -/
theorem flatMap {α : Type} {R : Supply → Supply → α → Prop} {f : α → List Expr}
    {g : α → List (Declaration × Nat)} (hR : ∀ c c' x, R c c' x → Issues c c' (f x) (g x))
    {xs : List α} (h : Threaded R c c' xs) : Issues c c' (xs.flatMap f) (xs.flatMap g) := by
  induction h with
  | nil c => exact nil c
  | cons h _ ih => exact (hR _ _ _ h).append ih

end Issues

/-! ### Expressions -/

namespace Expr

mutual

/-- An expression that is made issues the numbers of its nodes, and enters nothing. -/
theorem Made.issues : (e : Expr) → {c c' : Supply} → e.Made c c' → Issues c c' e.all []
  | .int _ _, _, _, .int .. => .leaf rfl rfl
  | .char _ _, _, _, .char .. => .leaf rfl rfl
  | .string _ _, _, _, .string .. => .leaf rfl rfl
  | .name _ _ _, _, _, .name .. => .leaf rfl rfl
  | .sizeof _ _, _, _, .sizeof .. => .leaf rfl rfl
  | .binary _ _ l r, _, _, .binary _ _ hl hr => ((issues l hl).append (issues r hr)).node rfl rfl
  | .unary _ _ x, _, _, .unary _ _ hx => (issues x hx).node rfl rfl
  | .call _ _ args, _, _, .call _ _ hargs => (issuesAll args hargs).skip.node rfl rfl
  | .subscript _ b i, _, _, .subscript _ hb hi => ((issues b hb).append (issues i hi)).node rfl rfl
  | .cast _ _ x, _, _, .cast _ _ hx => (issues x hx).node rfl rfl

theorem Made.issuesAll : (es : List Expr) → {c c' : Supply} → Threaded Made c c' es →
    Issues c c' (allOf es) []
  | [], _, _, .nil _ => .nil _
  | e :: es, _, _, .cons he hes => (issues e he).append (issuesAll es hes)

end

end Expr

/-- An optional expression issues the numbers of its nodes. -/
theorem issues_option {c c' : Supply} {o : Option Expr} (h : Possibly Expr.Made c c' o) :
    Issues c c' (Stmt.optionExprs o) [] := by
  cases h with
  | none => exact .nil _
  | some h => exact Expr.Made.issues _ h

/-! ### Declarations and statements -/

/-- A variable issues the numbers of its initial value, and behind it its own entry. -/
theorem Variable.Made.issues {isGlobal : Bool} {base : BaseType} {v : Variable} {c c' : Supply}
    (h : v.Made isGlobal base c c') : Issues c c' v.exprs [v.entry isGlobal] := by
  cases h with
  | mk pointers name loc hlength hvoid hinit =>
    have hexprs := (issues_option hinit).entry
    cases hinit with
    | none => exact hexprs _
    | some => exact hexprs _

theorem Variable.Made.issuesAll {isGlobal : Bool} {base : BaseType} {vs : List Variable}
    {c c' : Supply} (h : Threaded (Variable.Made isGlobal base) c c' vs) :
    Issues c c' (vs.flatMap Variable.exprs) (vs.map (Variable.entry isGlobal)) := by
  have hvs := Issues.flatMap (f := Variable.exprs) (g := fun v => [v.entry isGlobal])
    (fun _ _ _ hv => hv.issues) h
  rwa [← List.map_eq_flatMap] at hvs

namespace Stmt

mutual

/-- A statement that is made issues the numbers of its nodes and the entries of its variables. -/
theorem Made.issues : (st : Stmt) → {c c' : Supply} → st.Made c c' →
    Issues c c' st.exprs (st.vars.map (Variable.entry false))
  | .declare _ _, _, _, .declare _ hvs => Variable.Made.issuesAll hvs
  | .eval _ _, _, _, .eval _ he => Expr.Made.issues _ he
  | .branch _ e t f, _, _, .branch _ he ht hf _ => by
    have h := (Expr.Made.issues e he).append ((issues t ht).append (issuesOption f hf))
    rwa [List.nil_append, ← List.map_append] at h
  | .whileLoop _ e b, _, _, .whileLoop _ he hb => (Expr.Made.issues e he).append (issues b hb)
  | .doLoop _ b e, _, _, .doLoop _ hb he => by
    -- The condition is listed first, and made last.
    have h := (issues b hb).append (Expr.Made.issues e he)
    rw [List.append_nil] at h
    exact h.of_perm List.perm_append_comm
  | .forLoop _ i e s b, _, _, .forLoop _ hi _ he hs hb => by
    have h := (issuesOption i hi).append ((issues_option he).append
      ((issues_option hs).append (issues b hb)))
    rwa [List.nil_append, List.nil_append, ← List.map_append] at h
  | .ret _ _, _, _, .ret _ he => issues_option he
  | .block _ ss, _, _, .block _ hss => issuesAll ss hss
  | .leave _, _, _, .leave .. => .nil _
  | .next _, _, _, .next .. => .nil _
  | .empty _, _, _, .empty .. => .nil _

theorem Made.issuesAll : (ss : List Stmt) → {c c' : Supply} → Threaded Made c c' ss →
    Issues c c' (exprsOf ss) ((varsOf ss).map (Variable.entry false))
  | [], _, _, .nil _ => .nil _
  | st :: ss, _, _, .cons hst hss => by
    rw [varsOf, List.map_append]
    exact (issues st hst).append (issuesAll ss hss)

theorem Made.issuesOption : (o : Option Stmt) → {c c' : Supply} → Possibly Made c c' o →
    Issues c c' (exprsOfOption o) ((varsOfOption o).map (Variable.entry false))
  | .none, _, _, .none _ => .nil _
  | .some st, _, _, .some hst => issues st hst

end

end Stmt

/-! ### Programs -/

theorem Parameter.Made.issuesAll {qs : List Parameter} {c c' : Supply}
    (h : Threaded Parameter.Made c c' qs) : Issues c c' [] (qs.map Parameter.entry) := by
  induction h with
  | nil c => exact .nil c
  | cons h _ ih =>
    cases h
    exact ((Issues.nil _).entry _).append ih

/-- A function issues the numbers of its body, and enters its parameters and then its variables. -/
theorem Function.Made.issues {named : Prop} {f : Function} {c c' : Supply} (h : f.Made named c c') :
    Issues c c' f.exprs f.entries := by
  cases h with
  | prototype name base pointers loc hparams =>
    have h := Parameter.Made.issuesAll hparams
    rwa [← List.append_nil (List.map _ _)] at h
  | definition name base pointers loc bodyLoc hparams _ hbody =>
    exact (Parameter.Made.issuesAll hparams).append (Stmt.Made.issuesAll _ hbody)

theorem Grammar.TopLevel.Made.issues {named : Prop} {r : Grammar.TopLevel} {c c' : Supply}
    (h : r.Made named c c') :
    Issues c c' (r.vars.flatMap Variable.exprs ++ r.functions.flatMap Function.exprs)
      (r.vars.map (Variable.entry true) ++ r.functions.flatMap Function.entries) := by
  cases h with
  | globals hvs =>
    have h := (Variable.Made.issuesAll hvs).append (.nil _)
    exact h
  | function hf =>
    have h := hf.issues
    rwa [← List.append_nil (Function.exprs _), ← List.append_nil (Function.entries _)] at h

namespace Program

/-- All entries that the declarations of a program make, those of the globals first. -/
def entries (p : Program) : List (Declaration × Nat) :=
  p.globals.map (Variable.entry true) ++ p.functions.flatMap Function.entries

/-- The numbers of all variables and parameters of a program. -/
def declarationIds (p : Program) : List Nat :=
  p.globals.map Variable.id ++
    p.functions.flatMap fun f => f.params.map Parameter.id ++ f.vars.map Variable.id

theorem map_snd_entries (p : Program) : p.entries.map Prod.snd = p.declarationIds := by
  simp [entries, declarationIds, Function.entries, List.map_flatMap, Function.comp_def,
    Variable.entry, Parameter.entry]

/-- The numbers of a program are identities: those of its nodes, which grow outwards, and those of
its declarations, which are the places where the table describes them. -/
structure Identified (p : Program) : Prop where
  nodes_nodup : (p.exprs.map Expr.id).Nodup
  nodes_above : ∀ e ∈ p.exprs, ∀ x ∈ e.inside, x.id < e.id
  ids_nodup : p.declarationIds.Nodup
  mem_ids_iff : ∀ id, id ∈ p.declarationIds ↔ id < p.declarations.size
  globals : ∀ v ∈ p.globals, p.declaration? v.id = some ⟨v.name, v.type, true⟩
  params : ∀ f ∈ p.functions, ∀ q ∈ f.params,
    p.declaration? q.id = some ⟨q.name, q.type, false⟩
  locals : ∀ f ∈ p.functions, ∀ v ∈ f.vars,
    p.declaration? v.id = some ⟨v.name, v.type, false⟩

/-- A program that is made issues all numbers and entries that there are. -/
theorem Made.issues {named : Prop} {p : Program} (h : p.Made named) : ∃ nextNode ds,
    Issues .start ⟨nextNode, p.declarations⟩ p.exprs ds ∧ ds.Perm p.entries := by
  obtain ⟨items, nextNode, hitems, hg, hf⟩ := h
  have h := Issues.flatMap (fun _ _ _ h => Grammar.TopLevel.Made.issues h) hitems
  refine ⟨nextNode, _, h.of_perm ?_, ?_⟩
  · rw [exprs, hg, hf, List.flatMap_assoc, List.flatMap_assoc]
    exact (List.flatMap_append_perm ..).symm
  · rw [entries, hg, hf, List.map_flatMap, List.flatMap_assoc]
    exact (List.flatMap_append_perm ..).symm

/-- The table of a program that is made holds just the entries that there are. -/
theorem Made.perm_entries {named : Prop} {p : Program} (h : p.Made named) :
    p.declarations.toList.zipIdx.Perm p.entries := by
  obtain ⟨nextNode, ds, h, hperm⟩ := h.issues
  have hentries := h.entries
  rw [Supply.start, List.zipIdx_nil, List.nil_append] at hentries
  rwa [hentries]

/-- The numbers of a program that is made are identities. -/
theorem Made.identified {named : Prop} {p : Program} (h : p.Made named) : p.Identified := by
  have hds := h.perm_entries
  obtain ⟨nextNode, ds, h, -⟩ := h.issues
  have hids : (List.range p.declarations.size).Perm p.declarationIds := by
    have hmap := hds.map Prod.snd
    rwa [map_snd_entries, List.zipIdx_map_snd, ← List.range_eq_range', Array.length_toList] at hmap
  have hentry : ∀ d id, (d, id) ∈ p.entries → p.declaration? id = some d := by
    intro d id hmem
    have hzip := List.mem_zipIdx_iff_getElem?.1 (hds.mem_iff.2 hmem)
    rwa [Array.getElem?_toList] at hzip
  have hfunction : ∀ f ∈ p.functions, ∀ d id, (d, id) ∈ f.entries → p.declaration? id = some d :=
    fun f hf d id hmem =>
      hentry d id (List.mem_append_right _ (List.mem_flatMap.2 ⟨f, hf, hmem⟩))
  exact {
    nodes_nodup := h.nodup
    nodes_above := h.above
    ids_nodup := hids.nodup_iff.1 List.nodup_range
    mem_ids_iff := fun id => by rw [← hids.mem_iff, List.mem_range]
    globals := fun v hv => hentry _ _ (List.mem_append_left _ (List.mem_map_of_mem hv))
    params := fun f hf q hq =>
      hfunction f hf _ _ (List.mem_append_left _ (List.mem_map_of_mem hq))
    locals := fun f hf v hv =>
      hfunction f hf _ _ (List.mem_append_right _ (List.mem_map_of_mem hv)) }

/-- The numbers of a program that a text says are identities. -/
theorem identified_of_read {source : String} {p : Program} (h : (read source).result = .ok p) :
    p.Identified :=
  (made_of_read h).identified

/-- A result that is there when errors are forgotten is there. -/
theorem eq_ok_of_toOption {ε α : Type} {r : Except ε α} {a : α} (h : r.toOption = some a) :
    r = .ok a := by
  cases r with
  | error e => cases h
  | ok b =>
    cases h
    rfl

/-- A program with a prototype and a definition, whose variables stand in a block and in the clause
of a loop. -/
def nested : String :=
  "int f(int, char *s); int g = 1 + 2, h[3]; " ++
  "int f(int n, char *s) { int a = n; for (int i = 0; i < n; i++) { char c; g = f(i, s); } }"

/-- It declares nine variables and parameters, and has fifteen nodes. -/
theorem identified_of_read_nested :
    ∃ p, (read nested).result = .ok p ∧ p.declarations.size = 9 ∧ p.exprs.length = 15 ∧
      p.Identified := by
  have hcount : ((read nested).result.toOption.map fun p =>
      (p.declarations.size, p.exprs.length)) = some (9, 15) := by decide +kernel
  obtain ⟨p, hp, hcounts⟩ := Option.map_eq_some_iff.1 hcount
  have hread := eq_ok_of_toOption hp
  have hsizes := Prod.mk.inj hcounts
  exact ⟨p, hread, hsizes.1, hsizes.2, identified_of_read hread⟩

end Program

end MiniC
