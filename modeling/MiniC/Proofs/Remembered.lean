import MiniC.Proofs.Isolation
import MiniC.Proofs.Noting

/-!
# What is remembered of an expression

Everything that the evaluation of an expression meets is evaluated once, in the frame of the
expression, and its value is still remembered at the end.  Nothing else is: calls leave no values in
the frame of their caller.

Main definitions:

* `MiniC.DoneBy`: what has been evaluated and is still remembered;
* `MiniC.Remembers`: what is remembered after an evaluation.

Main results:

* `MiniC.Meets.doneBy`: what an evaluation meets is evaluated and remembered;
* `MiniC.remembers_exactly`: what is remembered of the expressions of a program.
-/

set_option autoImplicit false

namespace MiniC

open Eval

/-! ### What an evaluation meets -/

section Semantics

variable {env : Env} (hcalls : env.CallsAside)

include hcalls

theorem suffix_of_evalExpr {e : Expr} {m m' : Machine} {v : Value}
    (h : (evalExpr env e).run m = .done v m') : m.cache <:+ m'.cache :=
  (accounts hcalls e m m' v h).suffix

theorem suffix_of_evalUpdate {place : Place} {e : Expr} {u : Update} {m m' : Machine}
    (h : (evalUpdate env place e).run m = .done u m') : m.cache <:+ m'.cache := by
  cases e with
  | binary n op l r =>
    cases hbase : op.compoundBase? with
    | none =>
      simp only [evalUpdate, hbase] at h
      obtain ⟨b, _, hright, hyield⟩ := run_bind_eq_done h
      cases hyield
      exact suffix_of_evalExpr hcalls hright
    | some base =>
      obtain ⟨a, b, -, hright, -⟩ := exists_done_of_evalUpdate hbase h
      exact (List.suffix_cons _ _).trans (suffix_of_evalExpr hcalls hright)
  | unary n op x =>
    obtain ⟨_, _, hread, hyield⟩ := run_bind_eq_done h
    obtain ⟨-, rfl⟩ := ok_of_query hread
    cases hyield
    exact List.suffix_rfl
  | _ => cases h

end Semantics

/-- The evaluation of `x` on the machine `m₁` is done, and everything that is remembered then still
is on the machine `m'`. -/
def DoneBy (env : Env) (x : Expr) (m₁ m' : Machine) : Prop :=
  ∃ w m₂, (evalExpr env x).run m₁ = .done w m₂ ∧ m₂.cache <:+ m'.cache

section Meeting

variable {env : Env} {e t x : Expr} {m m₁ m₂ m' : Machine}

theorem DoneBy.trans (h : DoneBy env x m₁ m₂) (hm : m₂.cache <:+ m'.cache) : DoneBy env x m₁ m' :=
  have ⟨w, m₃, hx, hsuffix⟩ := h
  ⟨w, m₃, hx, hsuffix.trans hm⟩

/-- The value of an expression is remembered last. -/
theorem cache_of_evalExpr {v : Value} (h : (evalExpr env e).run m = .done v m') :
    ∃ rest, m'.cache = (e.id, v) :: rest := by
  obtain ⟨x, hx⟩ : ∃ x, evalExpr env e = remembered e.node x := by
    cases e <;> exact ⟨_, rfl⟩
  rw [hx] at h
  obtain ⟨m₁, -, rfl⟩ := exists_done_of_remembered h
  exact ⟨m₁.cache, rfl⟩

theorem Locates.namesMemory (h : Locates env e m x m₁) : e.namesMemory = true := by
  cases h <;> rfl

/-- The operands of an expression are among the expressions in it. -/
theorem Locates.all_subset (h : Locates env e m x m₁) : x.all ⊆ e.inside := by
  cases h with
  | pointer => exact List.Subset.refl _
  | base => exact List.subset_append_left _ _
  | index => exact List.subset_append_right _ _

theorem Supplies.all_subset {args : List Expr} (h : Supplies env args m x m₁) :
    x.all ⊆ Expr.allOf args := by
  induction h with
  | head => exact List.subset_append_left _ _
  | tail _ _ ih => exact List.subset_append_of_subset_right _ ih

theorem Expr.all_subset_of_target? (h : e.target? = some t) : t.all ⊆ e.inside := by
  obtain ⟨n, op, r, rfl, -⟩ | ⟨n, op, rfl, -⟩ := Expr.exists_eq_of_target? h
  · exact List.subset_append_left _ _
  · exact List.Subset.refl _

theorem Expr.inside_subset (e : Expr) : e.inside ⊆ e.all := (List.tail_sublist _).subset

theorem Evaluates.all_subset (h : Evaluates env e m x m₁) : x.all ⊆ e.inside := by
  cases h with
  | located h => exact h.all_subset
  | target htarget h =>
    exact List.Subset.trans h.all_subset
      (List.Subset.trans (Expr.inside_subset _) (Expr.all_subset_of_target? htarget))
  | assigned | combined | right => exact List.subset_append_right _ _
  | left => exact List.subset_append_left _ _
  | operand | converted => exact List.Subset.refl _
  | argument n f h => exact h.all_subset

/-- What an evaluation meets is in the expression. -/
theorem Meets.mem_all (h : Meets env e m x m₁) : x ∈ e.all := by
  induction h with
  | here e m => exact e.mem_all_self
  | there hy _ ih => exact Expr.inside_subset _ (hy.all_subset ih)

section

variable (hcalls : env.CallsAside)

include hcalls

/-- If a place is determined, the operands are evaluated. -/
theorem Locates.doneBy (hx : Locates env e m x m₁) {p : Pointer}
    (h : (evalAddress env e).run m = .done p m') : DoneBy env x m₁ m' := by
  cases hx with
  | pointer n => exact ⟨_, m', done_of_follow h, List.suffix_rfl⟩
  | base n b i =>
    obtain ⟨v, m₂, w, hbase, hindex⟩ := exists_done_of_operate (done_of_follow h)
    exact ⟨v, m₂, hbase, suffix_of_evalExpr hcalls hindex⟩
  | index n i hb =>
    obtain ⟨v, m₂, w, hbase, hindex⟩ := exists_done_of_operate (done_of_follow h)
    obtain ⟨-, rfl⟩ := Outcome.done.inj (hb.symm.trans hbase)
    exact ⟨w, m', hindex, List.suffix_rfl⟩

theorem suffix_of_evalArgs {args : List Expr} {vs : List Value}
    (h : (evalArgs env args).run m = .done vs m') : m.cache <:+ m'.cache :=
  (accountsOf hcalls args h).suffix

theorem Supplies.doneBy {args : List Expr} (hx : Supplies env args m x m₁) {vs : List Value}
    (h : (evalArgs env args).run m = .done vs m') : DoneBy env x m₁ m' := by
  induction hx generalizing vs with
  | head e es m =>
    obtain ⟨v, m₂, he, h⟩ := run_bind_eq_done h
    obtain ⟨ws, m₃, hes, h⟩ := run_bind_eq_done h
    cases h
    exact ⟨v, m₂, he, suffix_of_evalArgs hcalls hes⟩
  | tail he _ ih =>
    obtain ⟨v, m₂, he', h⟩ := run_bind_eq_done h
    obtain ⟨-, rfl⟩ := Outcome.done.inj (he.symm.trans he')
    obtain ⟨ws, m₃, hes, h⟩ := run_bind_eq_done h
    cases h
    exact ih hes

/-- If an expression is done, its operands are evaluated. -/
theorem Evaluates.doneBy (hx : Evaluates env e m x m₁) {v : Value}
    (h : (evalExpr env e).run m = .done v m') : DoneBy env x m₁ m' := by
  -- Whatever is remembered when an operation begins still is when its value is remembered.
  have hlast : ∀ (m₂ : Machine) (n : Node),
      m₂.cache <:+ (m₂.modifyFrame fun f => f.remember n.id v).cache :=
    fun _ _ => List.suffix_cons _ _
  cases hx with
  | located hloc =>
    rw [evalExpr_of_namesMemory env hloc.namesMemory] at h
    obtain ⟨m₂, hload, rfl⟩ := exists_done_of_remembered h
    obtain ⟨p, haddress⟩ := exists_done_of_load hload
    exact (hloc.doneBy hcalls haddress).trans (hlast _ _)
  | target htarget hloc =>
    obtain ⟨place, m₂, u, m₃, w, m₄, hplace, hupdate, -, hwrite, -, rfl⟩ :=
      exists_done_of_target? htarget h
    obtain ⟨⟨n, y, link, rfl, -⟩, -⟩ | ⟨-, p, haddress, -⟩ := done_of_evalPlace hplace
    · cases hloc
    · refine ((hloc.doneBy hcalls haddress).trans (suffix_of_evalUpdate hcalls hupdate)).trans ?_
      rw [← Machine.cache_of_writePlace hwrite]
      exact hlast m₄ _
  | assigned n _ hplace =>
    obtain ⟨place, m₂, u, m₃, w, m₄, hplace', hupdate, -, hwrite, -, rfl⟩ :=
      exists_done_of_target? (e := .binary n .assign _ _) rfl h
    obtain ⟨rfl, rfl⟩ := Outcome.done.inj (hplace.symm.trans hplace')
    obtain ⟨b, _, hright, hyield⟩ := run_bind_eq_done hupdate
    cases hyield
    exact ⟨b, m₃, hright, Machine.cache_of_writePlace hwrite ▸ hlast m₄ n⟩
  | combined n _ hbase hplace hread =>
    obtain ⟨place, m₂, a, b, m₃, w, hplace', hread', hright, -, hsuffix⟩ :=
      exists_done_of_compound hbase h
    obtain ⟨rfl, rfl⟩ := Outcome.done.inj (hplace.symm.trans hplace')
    obtain rfl := Except.ok.inj (hread.symm.trans hread')
    exact ⟨b, m₃, hright, hsuffix⟩
  | left n _ _ _ hop =>
    rw [evalExpr_of_not_isAssignment env n _ _ hop] at h
    obtain ⟨m₂, hoperate, rfl⟩ := exists_done_of_remembered h
    obtain ⟨a, m₃, b, hleft, hright⟩ := exists_done_of_operate hoperate
    exact ⟨a, m₃, hleft, (suffix_of_evalExpr hcalls hright).trans (hlast _ _)⟩
  | right n _ hop hl =>
    rw [evalExpr_of_not_isAssignment env n _ _ hop] at h
    obtain ⟨m₂, hoperate, rfl⟩ := exists_done_of_remembered h
    obtain ⟨a, m₃, b, hleft, hright⟩ := exists_done_of_operate hoperate
    obtain ⟨-, rfl⟩ := Outcome.done.inj (hl.symm.trans hleft)
    exact ⟨b, m₂, hright, hlast _ _⟩
  | @operand n op _ _ hop =>
    obtain ⟨m₂, hcompute, rfl⟩ := exists_done_of_remembered h
    cases op with
    | neg | not | bitNot =>
      obtain ⟨a, _, hx, happly⟩ := run_bind_eq_done hcompute
      obtain ⟨-, rfl⟩ := ok_of_ofExcept happly
      exact ⟨a, m₂, hx, hlast _ _⟩
    | _ => simp at hop
  | argument n f hargs =>
    obtain ⟨m₂, hcall, rfl⟩ := exists_done_of_remembered h
    obtain ⟨vs, m₃, hvalues, hcalled⟩ := run_bind_eq_done hcall
    refine (hargs.doneBy hcalls hvalues).trans ?_
    rw [← hcalls _ _ _ _ _ _ hcalled]
    exact hlast _ _
  | converted n t _ _ =>
    obtain ⟨m₂, hcast, rfl⟩ := exists_done_of_remembered h
    obtain ⟨a, _, hx, hyield⟩ := run_bind_eq_done hcast
    cases hyield
    exact ⟨a, m₂, hx, hlast _ _⟩

/-- If an expression is done, everything that it meets is evaluated. -/
theorem Meets.doneBy (hx : Meets env e m x m₁) {v : Value}
    (h : (evalExpr env e).run m = .done v m') : DoneBy env x m₁ m' := by
  induction hx generalizing v m' with
  | here e m => exact ⟨v, m', h, List.suffix_rfl⟩
  | there hy _ ih =>
    obtain ⟨w, m₃, hdone, hsuffix⟩ := hy.doneBy hcalls h
    exact (ih hdone).trans hsuffix

/-- If nothing was remembered before, there are entries for what is noted, the last one first. -/
theorem keys_of_evalExpr {v : Value} (hempty : m.stack.current.cache = [])
    (h : (evalExpr env e).run m = .done v m') :
    m'.stack.current.cache.map Prod.fst = (e.noted.map Expr.id).reverse := by
  obtain ⟨new, hnew, hkeys⟩ := (accounts hcalls e m m' v h).entries
  have hcache : m'.stack.current.cache = new := by
    rw [← Machine.cache, hnew, Machine.cache, hempty, List.append_nil]
  rw [hcache, hkeys]

/-- Everything in an expression is met, but for the targets of what is. -/
theorem exists_meets_or {v : Value} (h : (evalExpr env e).run m = .done v m') (hx : x ∈ e.all) :
    (∃ m₁, Meets env e m x m₁) ∨ ∃ b m₁, Meets env e m b m₁ ∧ b.target? = some x :=
  (accounts hcalls e m m' v h).covers x hx

/-- Every assignment is met: what is assigned to is no assignment. -/
theorem exists_meets_of_target? {v : Value} (h : (evalExpr env e).run m = .done v m')
    (hx : x ∈ e.all) (ht : x.target? = some t) : ∃ m₁, Meets env e m x m₁ := by
  refine (exists_meets_or hcalls h hx).resolve_right ?_
  rintro ⟨b, m₁, hb, htarget⟩
  obtain ⟨w, m₂, hdone, -⟩ := hb.doneBy hcalls h
  obtain ⟨place, m₃, -, -, -, -, hplace, -⟩ := exists_done_of_target? htarget hdone
  rw [target?_eq_none_of_evalPlace hplace] at ht
  cases ht

end

end Meeting

/-! ### What is remembered -/

/-- What is remembered when `e` has been evaluated on the machine `m`, which has led to the value
`v` and the machine `m'`, if nothing was remembered before. -/
structure Remembers (env : Env) (e : Expr) (m : Machine) (v : Value) (m' : Machine) : Prop where
  /-- The current frame is still that of the same call. -/
  frame : m'.stack.callers = m.stack.callers ∧ m.stack.current.KeepsActivation m'.stack.current
  /-- There are entries for all nodes but the targets of plain assignments, of `++` and of `--`. -/
  keys_iff (id : Nat) : (m'.stack.current.cached? id).isSome = true ↔
    ∃ x ∈ e.all, x.id = id ∧ ∀ y ∈ e.all, y.passedOver? ≠ some x
  /-- No entry has been made twice. -/
  once : (m'.stack.current.cache.map Prod.fst).Nodup
  value_eq : m'.stack.current.cached? e.id = some v
  /-- All nodes but targets are evaluated. -/
  met {x : Expr} : x ∈ e.all → (∀ y ∈ e.all, y.target? ≠ some x) → ∃ m₁, Meets env e m x m₁
  /-- What is evaluated is in the expression, and its entry is its value. -/
  entry {x : Expr} {m₁ : Machine} : Meets env e m x m₁ → x ∈ e.all ∧ ∃ w m₂,
    (evalExpr env x).run m₁ = .done w m₂ ∧ m'.stack.current.cached? x.id = some w
  /-- The entry of the target of a compound assignment is the value that its place holds before the
  right operand is evaluated, to which the operation is applied. -/
  old {n : Node} {op base : BinaryOp} {l r : Expr} : .binary n op l r ∈ e.all →
    op.compoundBase? = some base → ∃ m₁ place m₂ a b m₃ w, Meets env e m (.binary n op l r) m₁ ∧
      (evalPlace env l).run m₁ = .done place m₂ ∧ m₂.readPlace place = .ok a ∧
      (evalExpr env r).run (m₂.modifyFrame fun f => f.remember l.id a) = .done b m₃ ∧
      base.apply a b l.stride r.stride = .ok w ∧ m'.stack.current.cached? l.id = some a
  /-- Calls leave all frames below their own as they were, and so no entries in them. -/
  calls {f : String} {vs : List Value} {loc : Location} {m₁ m₂ : Machine} :
    ((env.call f vs loc).run m₁).machine? = some m₂ → m₂.stack = m₁.stack

theorem Frame.isSome_cached?_iff (f : Frame) (node : Nat) :
    (f.cached? node).isSome = true ↔ node ∈ f.cache.map Prod.fst := by
  simp [cached?, List.lookup_isSome_iff]

/-- A value that has been remembered is found, if no number has two entries. -/
theorem Frame.cached?_of_suffix {f : Frame} {node : Nat} {v : Value} {rest : List (Nat × Value)}
    (h : (node, v) :: rest <:+ f.cache) (hnodup : (f.cache.map Prod.fst).Nodup) :
    f.cached? node = some v := by
  obtain ⟨new, hnew⟩ := h
  refine List.lookup_eq_some_iff.2 ⟨new, rest, hnew.symm, fun q hq => ?_⟩
  rw [← hnew, List.map_append] at hnodup
  have hne := (List.nodup_append.1 hnodup).2.2 q.1 (List.mem_map_of_mem hq) node
    (List.mem_cons_self ..)
  simpa using hne.symm

/-- Calls by name leave the stack as it was. -/
theorem stack_of_call {ctx : Context} {fuel : Nat} {f : String} {vs : List Value} {loc : Location}
    {m m' : Machine} (h : ((ctx.call fuel f vs loc).run m).machine? = some m') :
    m'.stack = m.stack := by
  have hcall := isolated_call_eq ctx fuel f vs loc m
  exact CallStack.ext_frames (hcall.current h).symm (hcall.callers_eq h)

theorem Context.callsAside (ctx : Context) (fuel : Nat) : (ctx.env fuel).CallsAside := by
  intro f vs loc m v m' h
  rw [Machine.cache, stack_of_call (congrArg Outcome.machine? h)]
  rfl

/-- Remembered values are exact.  An expression of a loaded program is evaluated, with its value,
from a state in which nothing is remembered in the current frame.  Then there are entries in that
frame for all its nodes but the targets of plain assignments and increments, and no others; each is
the value of its node, or the value that the target of a compound assignment had before; and calls
have made no entries. -/
theorem remembers_exactly {source : String} {p : Program}
    (hp : (Program.load source).result = .ok p) (config : Config) (fuel : Nat) {e : Expr}
    (he : e ∈ p.exprs) {m m' : Machine} {v : Value} (hempty : m.stack.current.cache = [])
    (h : (evalExpr (Context.env ⟨p, config⟩ fuel) e).run m = .done v m') :
    Remembers (Context.env ⟨p, config⟩ fuel) e m v m' := by
  have hcalls := Context.callsAside ⟨p, config⟩ fuel
  have hids := Program.nodup_all_of_load hp e he
  have hkeys := keys_of_evalExpr hcalls hempty h
  have hnodup : (m'.stack.current.cache.map Prod.fst).Nodup := by
    rw [hkeys]
    exact List.nodup_reverse.2 (Expr.nodup_noted hids)
  have hentry : ∀ {x m₁ w m₂}, (evalExpr (Context.env ⟨p, config⟩ fuel) x).run m₁ = .done w m₂ →
      m₂.cache <:+ m'.cache → m'.stack.current.cached? x.id = some w := by
    intro x m₁ w m₂ hdone hsuffix
    obtain ⟨rest, hrest⟩ := cache_of_evalExpr hdone
    exact Frame.cached?_of_suffix (hrest ▸ hsuffix) hnodup
  have hisolated := isolated_evalExpr ⟨p, config⟩ fuel e m
  have hend := congrArg Outcome.machine? h
  refine {
    frame := ⟨hisolated.callers_eq hend, hisolated.current hend⟩
    keys_iff := fun id => ?_
    once := hnodup
    value_eq := hentry h List.suffix_rfl
    met := fun hx hnot => ?_
    entry := fun hx => ?_
    old := fun {n op base l r} hx hbase => ?_
    calls := stack_of_call }
  · rw [Frame.isSome_cached?_iff, hkeys, List.mem_reverse, List.mem_map]
    constructor
    · rintro ⟨x, hx, rfl⟩
      obtain ⟨hall, hnot⟩ := (Expr.mem_noted_iff hids x).1 hx
      exact ⟨x, hall, rfl, hnot⟩
    · rintro ⟨x, hx, rfl, hnot⟩
      exact ⟨x, (Expr.mem_noted_iff hids x).2 ⟨hx, hnot⟩, rfl⟩
  · refine (exists_meets_or hcalls h hx).resolve_right ?_
    rintro ⟨b, m₁, hb, htarget⟩
    exact hnot b hb.mem_all htarget
  · obtain ⟨w, m₂, hdone, hsuffix⟩ := hx.doneBy hcalls h
    exact ⟨hx.mem_all, w, m₂, hdone, hentry hdone hsuffix⟩
  · have hop := isAssignment_of_compoundBase?_eq_some hbase
    obtain ⟨m₁, hmeets⟩ := exists_meets_of_target? hcalls h hx (Expr.target?_binary hop n l r)
    obtain ⟨_, m₂, hdone, hsuffix⟩ := hmeets.doneBy hcalls h
    obtain ⟨place, m₃, a, b, m₄, w, hplace, hread, hright, happly, hlast⟩ :=
      exists_done_of_compound hbase hdone
    have hold : (l.id, a) :: m₃.cache <:+ m'.cache :=
      (suffix_of_evalExpr hcalls hright).trans (hlast.trans hsuffix)
    exact ⟨m₁, place, m₃, a, b, m₄, w, hmeets, hplace, hread, hright, happly,
      Frame.cached?_of_suffix hold hnodup⟩

/-- A program that adds to a variable what a recursive call and the variable itself yield. -/
def accumulating : String :=
  "int x; int f(int n) { if (n) return n + f(n - 1); return 0; } " ++
  "int main() { return x += f(2) + x++; }"

/-- The machine of a program at its start, with 5 in the variable 0. -/
def accumulatingMachine (p : Program) : Machine :=
  { (Session.start p {} (.ofBytes []) .unlimited none).machine with
    globals := ⟨[(0, .integer 5)]⟩ }

/-- What the first assignment of a program yields there, and the entries that it makes. -/
def accumulated (p : Program) : Option (Value × List (Nat × Value)) :=
  match p.exprs.find? fun e => e.target?.isSome with
  | some e =>
    match (evalExpr (Context.env ⟨p, {}⟩ 9) e).run (accumulatingMachine p) with
    | .done v m => some (v, m.stack.current.cache)
    | _ => none
  | none => none

/-- The variable that is added to has an entry with its old value; where it is incremented, it has
none; and the calls of the function have left none but that of the call. -/
theorem remembers_exactly_accumulating :
    ∃ p e m', (Program.load accumulating).result = .ok p ∧ e ∈ p.exprs ∧
      m'.stack.current.cache = [(16, .integer 13), (15, .integer 8), (14, .integer 5),
        (12, .integer 3), (11, .integer 2), (9, .integer 5)] ∧
      Remembers (Context.env ⟨p, {}⟩ 9) e (accumulatingMachine p) (.integer 13) m' := by
  have hend : (Program.load accumulating).result.toOption.bind accumulated =
      some (.integer 13, [(16, .integer 13), (15, .integer 8), (14, .integer 5),
        (12, .integer 3), (11, .integer 2), (9, .integer 5)]) := by decide +kernel
  obtain ⟨p, hp, hresult⟩ := Option.bind_eq_some_iff.1 hend
  have hload := Program.eq_ok_of_toOption hp
  unfold accumulated at hresult
  split at hresult
  · next e he =>
    split at hresult
    · next v m' hdone =>
      obtain ⟨rfl, hcache⟩ := Prod.mk.inj (Option.some.inj hresult)
      have hmem := List.mem_of_find?_eq_some he
      exact ⟨p, e, m', hload, hmem, hcache, remembers_exactly hload {} 9 hmem rfl hdone⟩
    · cases hresult
  · cases hresult

end MiniC
