import MiniC.Proofs.Loaded
import MiniC.Proofs.Updates

/-!
# Noting values

While an expression is evaluated, the values of the expressions in it are remembered in the current
frame, each under the number of its node.  The target of an assignment is not evaluated: its place
is determined.  For the target of a compound assignment, the value is remembered that stands at the
place then; for other targets, nothing is.  Calls have frames of their own.

So what is remembered can be told from the expression, and so can the order.

Main definitions:

* `MiniC.Expr.passedOver?`: the targets for which nothing is remembered;
* `MiniC.Expr.noted`: the expressions for which something is, in the order of time;
* `MiniC.Evaluates`, `MiniC.Meets`: on which machines the expressions in an expression are
  evaluated;
* `MiniC.Notes`: what is remembered between two machines, and what is met.

Main results:

* `MiniC.Expr.perm_noted`: every node is either noted or passed over;
* `MiniC.accounts`: an evaluation remembers what is noted, and meets everything but targets.
-/

set_option autoImplicit false

namespace MiniC

open Eval

/-! ### Noted nodes -/

namespace Expr

/-- The target for which an expression remembers nothing: that of a plain assignment, of `++` and of
`--`. -/
def passedOver? : Expr → Option Expr
  | binary _ .assign l _ => some l
  | unary _ op x => if op.isIncrement then some x else none
  | _ => none

mutual

/-- The expressions in an expression for which something is remembered, without itself, in the order
of time. -/
def inner : Expr → List Expr
  | int _ _ | char _ _ | string _ _ | name _ _ _ | sizeof _ _ => []
  | binary _ op l r => (if op = .assign then l.inner else l.inner ++ [l]) ++ (r.inner ++ [r])
  | unary _ op x => if op.isIncrement then x.inner else x.inner ++ [x]
  | call _ _ args => innerOf args
  | subscript _ b i => b.inner ++ [b] ++ (i.inner ++ [i])
  | cast _ _ x => x.inner ++ [x]

/-- The expressions of a list and in them for which something is remembered. -/
def innerOf : List Expr → List Expr
  | [] => []
  | e :: es => e.inner ++ [e] ++ innerOf es

end

/-- The expressions for which something is remembered when an expression is evaluated, in the order
of time: the expression itself is the last one. -/
def noted (e : Expr) : List Expr := e.inner ++ [e]

theorem all_eq_cons (e : Expr) : e.all = e :: e.inside := by
  cases e <;> rfl

theorem passedOver?_of_ne {op : BinaryOp} (h : op ≠ .assign) (n : Node) (l r : Expr) :
    (binary n op l r).passedOver? = none := by
  cases op <;> first | rfl | exact absurd rfl h

/-- An expression that is remembered after what is remembered of those inside it. -/
theorem perm_of_perm_inner {e : Expr} {zs : List Expr} (h : (e.inner ++ zs).Perm e.inside) :
    (e.inner ++ [e] ++ zs).Perm e.all := by
  rw [all_eq_cons, List.append_assoc]
  exact List.perm_middle.trans (h.cons e)

/-- An expression that is passed over after what is remembered of those inside it. -/
theorem perm_cons_of_perm_inner {e : Expr} {zs : List Expr} (h : (e.inner ++ zs).Perm e.inside) :
    (e.inner ++ e :: zs).Perm e.all := by
  rw [all_eq_cons]
  exact List.perm_middle.trans (h.cons e)

theorem append_perm_append {xs ys us vs zs ws : List Expr} (h : (xs ++ us).Perm zs)
    (h' : (ys ++ vs).Perm ws) : (xs ++ ys ++ (us ++ vs)).Perm (zs ++ ws) := by
  have hswap : (xs ++ ys ++ (us ++ vs)).Perm (xs ++ us ++ (ys ++ vs)) := by
    rw [List.append_assoc, List.append_assoc xs us]
    exact (List.perm_append_comm_assoc ys us vs).append_left xs
  exact hswap.trans (h.append h')

mutual

/-- Every node inside an expression is either noted or passed over. -/
theorem perm_inner : (e : Expr) → (e.inner ++ e.all.filterMap passedOver?).Perm e.inside
  | int _ _ | char _ _ | string _ _ | name _ _ _ | sizeof _ _ => .nil
  | binary n op l r => by
    have hr := perm_of_perm_inner (perm_inner r)
    rw [inner, all, List.filterMap_cons, List.filterMap_append]
    by_cases hop : op = .assign
    · rw [if_pos hop]
      subst hop
      exact append_perm_append (perm_cons_of_perm_inner (perm_inner l)) hr
    · rw [if_neg hop, passedOver?_of_ne hop]
      exact append_perm_append (perm_of_perm_inner (perm_inner l)) hr
  | unary n op x => by
    rw [inner, all, List.filterMap_cons, passedOver?]
    split
    · exact perm_cons_of_perm_inner (perm_inner x)
    · exact perm_of_perm_inner (perm_inner x)
  | call _ _ args => perm_innerOf args
  | subscript _ b i => by
    rw [inner, all, List.filterMap_cons, List.filterMap_append]
    exact append_perm_append (perm_of_perm_inner (perm_inner b))
      (perm_of_perm_inner (perm_inner i))
  | cast _ _ x => perm_of_perm_inner (perm_inner x)

theorem perm_innerOf : (es : List Expr) →
    (innerOf es ++ (allOf es).filterMap passedOver?).Perm (allOf es)
  | [] => .nil
  | e :: es => by
    rw [innerOf, allOf, List.filterMap_append]
    exact append_perm_append (perm_of_perm_inner (perm_inner e)) (perm_innerOf es)

end

/-- Every node of an expression is either noted or passed over. -/
theorem perm_noted (e : Expr) : (e.noted ++ e.all.filterMap passedOver?).Perm e.all :=
  perm_of_perm_inner e.perm_inner

/-- If no two nodes bear the same number, the noted ones are those that are not passed over. -/
theorem mem_noted_iff {e : Expr} (h : (e.all.map id).Nodup) (x : Expr) :
    x ∈ e.noted ↔ x ∈ e.all ∧ ∀ y ∈ e.all, y.passedOver? ≠ some x := by
  have hnodup := e.perm_noted.nodup_iff.2 h.of_map
  have hmem : x ∈ e.all ↔ x ∈ e.noted ∨ x ∈ e.all.filterMap passedOver? := by
    rw [← e.perm_noted.mem_iff, List.mem_append]
  have hpassed : x ∈ e.all.filterMap passedOver? ↔ ∃ y ∈ e.all, y.passedOver? = some x :=
    List.mem_filterMap
  constructor
  · intro hx
    refine ⟨hmem.2 (.inl hx), fun y hy hyx => ?_⟩
    exact (List.nodup_append.1 hnodup).2.2 x hx x (hpassed.2 ⟨y, hy, hyx⟩) rfl
  · rintro ⟨hx, hnot⟩
    refine (hmem.1 hx).resolve_right fun hp => ?_
    obtain ⟨y, hy, hyx⟩ := hpassed.1 hp
    exact hnot y hy hyx

/-- Noted nodes do not share numbers, either. -/
theorem nodup_noted {e : Expr} (h : (e.all.map id).Nodup) : (e.noted.map id).Nodup := by
  have hnodup := (e.perm_noted.map id).nodup_iff.2 h
  rw [List.map_append] at hnodup
  exact (List.nodup_append.1 hnodup).1

end Expr

/-- No two nodes of an expression of a loaded program bear the same number. -/
theorem Program.nodup_all_of_load {source : String} {p : Program}
    (h : (load source).result = .ok p) : ∀ e ∈ p.exprs, (e.all.map Expr.id).Nodup := by
  obtain ⟨q, hq, rfl⟩ := exists_read_of_load h
  refine q.resolved_exprs.forall_mem fun e he s _ => ?_
  have hmade := (made_of_read hq).forall_exprs (P := fun e => (e.all.map Expr.id).Nodup)
    (fun e _ _ h => (Expr.Made.issues e h).nodup) e he
  rwa [(Expr.resolved_all (Q := fun _ => True) (s := s) trivial e).map_id_eq]

/-! ### Inversions -/

namespace Eval

variable {m m' : Machine}

theorem exists_done_of_operate {op : BinaryOp} {l r : Expr} {loc : Location} {x y : Eval Value}
    {v : Value} (h : (operate op l r loc x y).run m = .done v m') :
    ∃ a m₁ b, x.run m = .done a m₁ ∧ y.run m₁ = .done b m' := by
  obtain ⟨a, m₁, hx, h⟩ := run_bind_eq_done h
  obtain ⟨b, m₂, hy, h⟩ := run_bind_eq_done h
  obtain ⟨-, rfl⟩ := ok_of_ofExcept h
  exact ⟨a, m₁, b, hx, hy⟩

theorem done_of_follow {loc : Location} {x : Eval Value} {p : Pointer}
    (h : (follow loc x).run m = .done p m') : x.run m = .done (.pointer p) m' := by
  obtain ⟨v, m₁, hx, h⟩ := run_bind_eq_done h
  cases v with
  | pointer q => cases h; exact hx
  | integer n => cases h
  | uninitialized => cases h

theorem exists_done_of_load {loc : Location} {x : Eval Pointer} {v : Value}
    (h : (load loc x).run m = .done v m') : ∃ p, x.run m = .done p m' := by
  obtain ⟨p, m₁, hx, h⟩ := run_bind_eq_done h
  obtain ⟨-, rfl⟩ := ok_of_query h
  exact ⟨p, hx⟩

end Eval

section Inversions

variable {env : Env} {m m' : Machine} {v : Value}

/-- The value of what names a place in memory stands at that place. -/
theorem evalExpr_of_namesMemory (env : Env) {e : Expr} (h : e.namesMemory = true) :
    evalExpr env e = remembered e.node (load e.location (evalAddress env e)) := by
  cases e with
  | subscript n b i => exact evalExpr_subscript env n b i
  | unary n op x =>
    cases op with
    | deref => exact evalExpr_deref env n x
    | _ => cases h
  | _ => cases h

/-- What determines a place assigns to nothing. -/
theorem target?_eq_none_of_evalPlace {e : Expr} {place : Place}
    (h : (evalPlace env e).run m = .done place m') : e.target? = none := by
  obtain ⟨⟨n, x, link, rfl, -⟩, -⟩ | ⟨he, -⟩ := done_of_evalPlace h
  · rfl
  · cases e with
    | subscript n b i => rfl
    | unary n op x => cases op <;> first | rfl | cases he
    | _ => cases he

end Inversions

/-! ### The course of an evaluation -/

/-- The operands of a place in memory: `Locates env e m x m₁` says that `x` is evaluated on the
machine `m₁` when the place that `e` names is determined on the machine `m`. -/
inductive Locates (env : Env) : Expr → Machine → Expr → Machine → Prop
  | pointer (n : Node) (x : Expr) (m : Machine) : Locates env (.unary n .deref x) m x m
  | base (n : Node) (b i : Expr) (m : Machine) : Locates env (.subscript n b i) m b m
  | index (n : Node) {b : Expr} (i : Expr) {m m₁ : Machine} {v : Value} :
      (evalExpr env b).run m = .done v m₁ → Locates env (.subscript n b i) m i m₁

/-- The arguments of a call: `Supplies env args m x m₁` says that `x` is evaluated on the machine
`m₁` when `args` are on the machine `m`. -/
inductive Supplies (env : Env) : List Expr → Machine → Expr → Machine → Prop
  | head (e : Expr) (es : List Expr) (m : Machine) : Supplies env (e :: es) m e m
  | tail {e x : Expr} {es : List Expr} {m m₁ m₂ : Machine} {v : Value} :
      (evalExpr env e).run m = .done v m₁ → Supplies env es m₁ x m₂ →
        Supplies env (e :: es) m x m₂

/-- The operands of an expression: `Evaluates env e m x m₁` says that `x` is evaluated on the
machine `m₁` when `e` is on the machine `m`. -/
inductive Evaluates (env : Env) : Expr → Machine → Expr → Machine → Prop
  | located {e x : Expr} {m m₁ : Machine} : Locates env e m x m₁ → Evaluates env e m x m₁
  | target {e t x : Expr} {m m₁ : Machine} :
      e.target? = some t → Locates env t m x m₁ → Evaluates env e m x m₁
  | assigned (n : Node) {l : Expr} (r : Expr) {m m₁ : Machine} {place : Place} :
      (evalPlace env l).run m = .done place m₁ → Evaluates env (.binary n .assign l r) m r m₁
  | combined (n : Node) {op base : BinaryOp} {l : Expr} (r : Expr) {m m₁ : Machine} {place : Place}
      {a : Value} :
      op.compoundBase? = some base → (evalPlace env l).run m = .done place m₁ →
        m₁.readPlace place = .ok a →
          Evaluates env (.binary n op l r) m r (m₁.modifyFrame fun f => f.remember l.id a)
  | left (n : Node) {op : BinaryOp} (l r : Expr) (m : Machine) :
      op.isAssignment = false → Evaluates env (.binary n op l r) m l m
  | right (n : Node) {op : BinaryOp} {l : Expr} (r : Expr) {m m₁ : Machine} {a : Value} :
      op.isAssignment = false → (evalExpr env l).run m = .done a m₁ →
        Evaluates env (.binary n op l r) m r m₁
  | operand (n : Node) {op : UnaryOp} (x : Expr) (m : Machine) :
      op ∈ [.neg, .not, .bitNot] → Evaluates env (.unary n op x) m x m
  | argument (n : Node) (f : String) {args : List Expr} {x : Expr} {m m₁ : Machine} :
      Supplies env args m x m₁ → Evaluates env (.call n f args) m x m₁
  | converted (n : Node) (t : Ty) (x : Expr) (m : Machine) :
      Evaluates env (.cast n t x) m x m

/-- What the evaluation of an expression meets: the expression itself, its operands, their operands,
and so on. -/
inductive Meets (env : Env) : Expr → Machine → Expr → Machine → Prop
  | here (e : Expr) (m : Machine) : Meets env e m e m
  | there {e y x : Expr} {m m₁ m₂ : Machine} :
      Evaluates env e m y m₁ → Meets env y m₁ x m₂ → Meets env e m x m₂

/-- The remembered values of the current frame, the last one first. -/
def Machine.cache (m : Machine) : List (Nat × Value) := m.stack.current.cache

/-- From `m` to `m'`, values have been remembered for the expressions `xs`, in this order.  The
expressions `ys` have been met, unless they are targets of what has. -/
structure Notes (met : Expr → Machine → Prop) (xs ys : List Expr) (m m' : Machine) : Prop where
  entries : ∃ new, m'.cache = new ++ m.cache ∧ new.map Prod.fst = (xs.map Expr.id).reverse
  covers : ∀ y ∈ ys, (∃ m₁, met y m₁) ∨ ∃ b m₁, met b m₁ ∧ b.target? = some y

namespace Notes

variable {met met' : Expr → Machine → Prop} {xs xs' ys ys' : List Expr} {m m₁ m' : Machine}

theorem quiet (h : m'.cache = m.cache) : Notes met [] [] m m' where
  entries := ⟨[], h, rfl⟩
  covers _ hy := absurd hy List.not_mem_nil

theorem trans (h : Notes met xs ys m m₁) (h' : Notes met xs' ys' m₁ m') :
    Notes met (xs ++ xs') (ys ++ ys') m m' where
  entries := by
    obtain ⟨new, hnew, hkeys⟩ := h.entries
    obtain ⟨new', hnew', hkeys'⟩ := h'.entries
    refine ⟨new' ++ new, by rw [hnew', hnew, List.append_assoc], ?_⟩
    rw [List.map_append, hkeys, hkeys', List.map_append, List.reverse_append]
  covers := List.forall_mem_append.2 ⟨h.covers, h'.covers⟩

theorem of_cache_eq (h : Notes met xs ys m m₁) (hm : m'.cache = m₁.cache) :
    Notes met xs ys m m' where
  entries := by rw [hm]; exact h.entries
  covers := h.covers

theorem mono (h : Notes met xs ys m m') (hmet : ∀ x m₁, met x m₁ → met' x m₁) :
    Notes met' xs ys m m' where
  entries := h.entries
  covers y hy := (h.covers y hy).imp (fun ⟨m₁, hy⟩ => ⟨m₁, hmet y m₁ hy⟩)
    fun ⟨b, m₁, hb, htarget⟩ => ⟨b, m₁, hmet b m₁ hb, htarget⟩

/-- One more value is remembered. -/
theorem remember (h : Notes met xs ys m m') (x : Expr) (v : Value) :
    Notes met (xs ++ [x]) ys m (m'.modifyFrame fun f => f.remember x.id v) where
  entries := by
    obtain ⟨new, hnew, hkeys⟩ := h.entries
    refine ⟨(x.id, v) :: new, congrArg _ hnew, ?_⟩
    rw [List.map_cons, hkeys, List.map_append, List.reverse_append]
    rfl
  covers := h.covers

/-- One more expression has been met. -/
theorem cover (h : Notes met xs ys m m') {y : Expr}
    (hy : (∃ m₁, met y m₁) ∨ ∃ b m₁, met b m₁ ∧ b.target? = some y) :
    Notes met xs (y :: ys) m m' where
  entries := h.entries
  covers := List.forall_mem_cons.2 ⟨hy, h.covers⟩

theorem suffix (h : Notes met xs ys m m') : m.cache <:+ m'.cache := by
  obtain ⟨new, hnew, -⟩ := h.entries
  exact ⟨new, hnew.symm⟩

end Notes

/-- Calls leave no remembered values in the frame of their caller. -/
def Env.CallsAside (env : Env) : Prop :=
  ∀ f vs loc m v m', (env.call f vs loc).run m = .done v m' → m'.cache = m.cache

section Course

variable {env : Env} {e t x y : Expr} {m m₁ m₂ m' : Machine}

/-- What is met from an operand on. -/
def Onward (env : Env) (operand : Expr → Machine → Prop) (x : Expr) (m₂ : Machine) : Prop :=
  ∃ y m₁, operand y m₁ ∧ Meets env y m₁ x m₂

theorem Onward.mono {operand operand' : Expr → Machine → Prop}
    (hsub : ∀ y m₁, operand y m₁ → operand' y m₁) (x : Expr) (m₂ : Machine)
    (h : Onward env operand x m₂) : Onward env operand' x m₂ :=
  have ⟨y, m₁, hy, hx⟩ := h
  ⟨y, m₁, hsub y m₁ hy, hx⟩

/-- What an evaluation notes on every machine on which it is done. -/
def Accounts (env : Env) (e : Expr) : Prop :=
  ∀ m m' v, (evalExpr env e).run m = .done v m' → Notes (Meets env e m) e.noted e.all m m'

/-- The evaluation of an operand is part of the whole. -/
theorem Accounts.onward {operand : Expr → Machine → Prop} (h : Accounts env y)
    (hy : operand y m₁) {v : Value} (hdone : (evalExpr env y).run m₁ = .done v m') :
    Notes (Onward env operand) y.noted y.all m₁ m' :=
  (h m₁ m' v hdone).mono fun _ _ hx => ⟨y, m₁, hy, hx⟩

theorem Accounts.meets (h : Accounts env y) (hy : Evaluates env e m y m₁) {v : Value}
    (hdone : (evalExpr env y).run m₁ = .done v m') : Notes (Meets env e m) y.noted y.all m₁ m' :=
  (h m₁ m' v hdone).mono fun _ _ hx => .there hy hx

/-- The evaluation of an expression is that of its operands, and its value is remembered. -/
theorem Notes.whole (h : Notes (Meets env e m) e.inner e.inside m m₁) (v : Value) :
    Notes (Meets env e m) e.noted e.all m (m₁.modifyFrame fun f => f.remember e.id v) := by
  rw [Expr.all_eq_cons]
  exact (h.remember e v).cover (.inl ⟨m, .here e m⟩)

theorem Notes.whole_of_onward (h : Notes (Onward env (Evaluates env e m)) e.inner e.inside m m₁)
    (v : Value) :
    Notes (Meets env e m) e.noted e.all m (m₁.modifyFrame fun f => f.remember e.id v) :=
  (h.mono fun _ _ ⟨_, _, hy, hx⟩ => .there hy hx).whole v

theorem notes_pointer (hx : Accounts env x) (n : Node) {loc : Location} {p : Pointer}
    (h : (follow loc (evalExpr env x)).run m = .done p m') :
    Notes (Onward env (Locates env (.unary n .deref x) m)) x.noted x.all m m' :=
  hx.onward (.pointer n x m) (done_of_follow h)

theorem notes_element {b i : Expr} (hb : Accounts env b) (hi : Accounts env i) (n : Node)
    {loc loc' : Location} {p : Pointer}
    (h : (follow loc (operate .add b i loc' (evalExpr env b) (evalExpr env i))).run m =
      .done p m') :
    Notes (Onward env (Locates env (.subscript n b i) m)) (b.noted ++ i.noted) (b.all ++ i.all)
      m m' := by
  obtain ⟨v, m₁, w, hbase, hindex⟩ := exists_done_of_operate (done_of_follow h)
  exact (hb.onward (.base n b i m) hbase).trans (hi.onward (.index n i hbase) hindex)

/-- What computing the address of a target notes, on every machine on which it is done. -/
def AccountsBelow (env : Env) (t : Expr) : Prop :=
  ∀ m m' p, (evalAddress env t).run m = .done p m' →
    Notes (Onward env (Locates env t m)) t.inner t.inside m m'

/-- Determining a place notes what its operands do. -/
theorem notes_evalPlace (haddress : AccountsBelow env t) {place : Place}
    (h : (evalPlace env t).run m = .done place m') :
    Notes (Onward env (Locates env t m)) t.inner t.inside m m' := by
  obtain ⟨⟨n, x, link, rfl, -⟩, rfl⟩ | ⟨-, p, hp, -⟩ := done_of_evalPlace h
  · exact .quiet rfl
  · exact haddress m m' p hp

/-- Storing a value is not remembered. -/
theorem Machine.cache_of_writePlace {place : Place} {v : Value}
    (h : m.writePlace place v = .ok m') : m'.cache = m.cache := by
  obtain ⟨id, -, rfl⟩ | ⟨id, -, rfl⟩ | ⟨p, heap, -, -, rfl⟩ := eq_of_writePlace h <;> rfl

/-- Behind the target of a compound assignment, its value is remembered. -/
theorem exists_done_of_evalUpdate {n : Node} {op base : BinaryOp} {l r : Expr} {place : Place}
    {u : Update} (hbase : op.compoundBase? = some base)
    (h : (evalUpdate env place (.binary n op l r)).run m = .done u m') :
    ∃ a b, m.readPlace place = .ok a ∧
      (evalExpr env r).run (m.modifyFrame fun f => f.remember l.id a) = .done b m' ∧
      u.value = base.apply a b l.stride r.stride := by
  simp only [evalUpdate, hbase] at h
  obtain ⟨a, _, hread, hrest⟩ := run_bind_eq_done h
  obtain ⟨hok, rfl⟩ := ok_of_query hread
  obtain ⟨_, _, hremember, hright⟩ := run_bind_eq_done hrest
  cases hremember
  obtain ⟨b, _, hdone, hyield⟩ := run_bind_eq_done hright
  cases hyield
  exact ⟨a, b, hok, hdone, rfl⟩

/-- A compound assignment applies its operation to the value that its target had before the right
operand was evaluated. -/
theorem exists_done_of_compound {n : Node} {op base : BinaryOp} {l r : Expr}
    (hbase : op.compoundBase? = some base) {v : Value}
    (h : (evalExpr env (.binary n op l r)).run m = .done v m') :
    ∃ place m₁ a b, ∃ m₂ : Machine, ∃ w, (evalPlace env l).run m = .done place m₁ ∧
      m₁.readPlace place = .ok a ∧
      (evalExpr env r).run (m₁.modifyFrame fun f => f.remember l.id a) = .done b m₂ ∧
      base.apply a b l.stride r.stride = .ok w ∧ m₂.cache <:+ m'.cache := by
  have hop := isAssignment_of_compoundBase?_eq_some hbase
  obtain ⟨place, m₁, u, m₂, w, m₃, hplace, hupdate, hvalue, hwrite, -, rfl⟩ :=
    exists_done_of_target? (Expr.target?_binary hop n l r) h
  obtain ⟨a, b, hread, hright, happly⟩ := exists_done_of_evalUpdate hbase hupdate
  refine ⟨place, m₁, a, b, m₂, w, hplace, hread, hright, happly.symm.trans hvalue, ?_⟩
  rw [← Machine.cache_of_writePlace hwrite]
  exact List.suffix_cons _ _

/-- The target of an assignment is covered by the assignment. -/
theorem notes_target (htarget : e.target? = some t)
    (h : Notes (Onward env (Locates env t m)) t.inner t.inside m m') :
    Notes (Meets env e m) t.inner t.all m m' := by
  rw [t.all_eq_cons]
  exact (h.mono fun _ _ ⟨_, _, hy, hx⟩ => .there (.target htarget hy) hx).cover
    (.inr ⟨e, m, .here e m, htarget⟩)

/-- An increment notes what its target does, and itself. -/
theorem accounts_increment (n : Node) {op : UnaryOp} (hop : op.isIncrement = true)
    (hx : AccountsBelow env x) : Accounts env (.unary n op x) := by
  intro m m' v h
  have htarget := Expr.target?_unary hop n x
  obtain ⟨place, m₁, u, m₂, w, m₃, hplace, hupdate, -, hwrite, -, rfl⟩ :=
    exists_done_of_target? htarget h
  obtain ⟨_, _, hread, hyield⟩ := run_bind_eq_done hupdate
  obtain ⟨-, rfl⟩ := ok_of_query hread
  cases hyield
  have hnotes := notes_target htarget (notes_evalPlace hx hplace)
  refine Notes.whole ?_ v
  rw [Expr.inner, if_pos hop]
  exact hnotes.of_cache_eq (Machine.cache_of_writePlace hwrite)

/-- Any other operator with one operand notes what its operand does, and itself. -/
theorem accounts_unary (n : Node) {op : UnaryOp} (hop : ¬op.isIncrement = true)
    (hx : Accounts env x) : Accounts env (.unary n op x) := by
  intro m m' v h
  obtain ⟨m₁, hdone, rfl⟩ := exists_done_of_remembered h
  refine Notes.whole_of_onward ?_ v
  rw [Expr.inner, if_neg hop]
  cases op with
  | deref =>
    obtain ⟨p, haddress⟩ := exists_done_of_load hdone
    exact (notes_pointer hx n haddress).mono (Onward.mono fun _ _ => .located)
  | neg | not | bitNot =>
    obtain ⟨a, _, hoperand, hcompute⟩ := run_bind_eq_done hdone
    obtain ⟨-, rfl⟩ := ok_of_ofExcept hcompute
    exact hx.onward (.operand n x m (by decide)) hoperand
  | addrOf => cases hdone
  | preInc | preDec | postInc | postDec => exact absurd rfl hop

/-- An assignment notes what its target does, a compound one also the value that its target had,
then what the right operand does, and itself. -/
theorem accounts_assignment {l r : Expr} (n : Node) {op : BinaryOp} (hop : op.isAssignment = true)
    (hl : AccountsBelow env l) (hr : Accounts env r) : Accounts env (.binary n op l r) := by
  intro m m' v h
  have htarget := Expr.target?_binary hop n l r
  obtain ⟨place, m₁, u, m₂, w, m₃, hplace, hupdate, -, hwrite, -, rfl⟩ :=
    exists_done_of_target? htarget h
  have hnotes := notes_target htarget (notes_evalPlace hl hplace)
  refine Notes.whole (Notes.of_cache_eq ?_ (Machine.cache_of_writePlace hwrite)) v
  rw [Expr.inner]
  obtain rfl | ⟨base, hbase⟩ := op.isAssignment_iff.1 hop
  · obtain ⟨b, _, hright, hyield⟩ := run_bind_eq_done hupdate
    cases hyield
    exact hnotes.trans (hr.meets (.assigned n r hplace) hright)
  · obtain ⟨a, b, hread, hright, -⟩ := exists_done_of_evalUpdate hbase hupdate
    rw [if_neg (by rintro rfl; cases hbase)]
    exact (hnotes.remember l a).trans (hr.meets (.combined n r hbase hplace hread) hright)

/-- Any other operator with two operands notes what they do, and itself. -/
theorem accounts_binary {l r : Expr} (n : Node) {op : BinaryOp} (hop : op.isAssignment = false)
    (hl : Accounts env l) (hr : Accounts env r) : Accounts env (.binary n op l r) := by
  intro m m' v h
  rw [evalExpr_of_not_isAssignment env n l r hop] at h
  obtain ⟨m₁, hoperate, rfl⟩ := exists_done_of_remembered h
  obtain ⟨a, m₂, b, hleft, hright⟩ := exists_done_of_operate hoperate
  refine Notes.whole_of_onward ?_ v
  rw [Expr.inner, if_neg (by rintro rfl; cases hop)]
  exact (hl.onward (.left n l r m hop) hleft).trans (hr.onward (.right n r hop hleft) hright)

end Course

/-! ### What an evaluation notes -/

mutual

/-- What an evaluation that is done remembers, and what it meets. -/
theorem accounts {env : Env} (hcalls : env.CallsAside) : (e : Expr) → Accounts env e
  | .int n v => fun m m' v h => by
    obtain ⟨m₁, hx, rfl⟩ := exists_done_of_remembered h
    cases hx
    exact Notes.whole (.quiet rfl) _
  | .char n c => fun m m' v h => by
    obtain ⟨m₁, hx, rfl⟩ := exists_done_of_remembered h
    cases hx
    exact Notes.whole (.quiet rfl) _
  | .string n _ => fun m m' v h => by
    obtain ⟨m₁, hx, rfl⟩ := exists_done_of_remembered h
    cases hx
  | .name n x link => fun m m' v h => by
    obtain ⟨m₁, hx, rfl⟩ := exists_done_of_remembered h
    have hquery : (query n.location fun m => m.readName x link).run m = .done v m₁ := hx
    obtain ⟨-, rfl⟩ := ok_of_query hquery
    exact Notes.whole (.quiet rfl) _
  | .sizeof n t => fun m m' v h => by
    obtain ⟨m₁, hx, rfl⟩ := exists_done_of_remembered h
    unfold Eval.sizeof at hx
    split at hx
    · split at hx
      · cases hx
        exact Notes.whole (.quiet rfl) _
      · cases hx
    · cases hx
  | .cast n t x => fun m m' v h => by
    obtain ⟨m₁, hcast, rfl⟩ := exists_done_of_remembered h
    obtain ⟨a, _, hx, hyield⟩ := run_bind_eq_done hcast
    cases hyield
    exact Notes.whole_of_onward ((accounts hcalls x).onward (.converted n t x m) hx) _
  | .subscript n b i => fun m m' v h => by
    obtain ⟨m₁, hload, rfl⟩ := exists_done_of_remembered h
    obtain ⟨p, haddress⟩ := exists_done_of_load hload
    have hnotes := notes_element (accounts hcalls b) (accounts hcalls i) n haddress
    exact Notes.whole_of_onward (hnotes.mono (Onward.mono fun _ _ => .located)) _
  | .call n f args => fun m m' v h => by
    obtain ⟨m₁, hcall, rfl⟩ := exists_done_of_remembered h
    obtain ⟨vs, m₂, hargs, hcalled⟩ := run_bind_eq_done hcall
    have hnotes := (accountsOf hcalls args hargs).of_cache_eq (hcalls f vs _ _ _ _ hcalled)
    exact Notes.whole_of_onward (hnotes.mono (Onward.mono fun _ _ => .argument n f)) _
  | .unary n op x =>
    if hop : op.isIncrement = true then accounts_increment n hop (accountsOfPlace hcalls x)
    else accounts_unary n hop (accounts hcalls x)
  | .binary n op l r =>
    match hop : op.isAssignment with
    | true => accounts_assignment n hop (accountsOfPlace hcalls l) (accounts hcalls r)
    | false => accounts_binary n hop (accounts hcalls l) (accounts hcalls r)

theorem accountsOf {env : Env} (hcalls : env.CallsAside) : (es : List Expr) →
    {m m' : Machine} → {vs : List Value} → (evalArgs env es).run m = .done vs m' →
      Notes (Onward env (Supplies env es m)) (Expr.innerOf es) (Expr.allOf es) m m'
  | [], _, _, _, h => by
    cases h
    exact .quiet rfl
  | e :: es, m, _, _, h => by
    obtain ⟨v, m₁, he, h⟩ := run_bind_eq_done h
    obtain ⟨vs, m₂, hes, h⟩ := run_bind_eq_done h
    cases h
    exact ((accounts hcalls e).onward (.head e es m) he).trans
      ((accountsOf hcalls es hes).mono (Onward.mono fun _ _ => .tail he))

theorem accountsOfPlace {env : Env} (hcalls : env.CallsAside) : (e : Expr) → AccountsBelow env e
  | .unary n op x => fun _ _ _ h => by
    cases op with
    | deref => exact notes_pointer (accounts hcalls x) n h
    | _ => cases h
  | .subscript n b i => fun _ _ _ h => notes_element (accounts hcalls b) (accounts hcalls i) n h
  | .int _ _ | .char _ _ | .string _ _ | .name _ _ _ | .binary _ _ _ _ | .call _ _ _
  | .cast _ _ _ | .sizeof _ _ => fun _ _ _ h => by cases h

end

end MiniC
