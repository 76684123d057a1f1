import MiniC.Proofs.Loaded

/-!
# Static types are complete

Every expression of a program has a static type once its names are resolved, wherever it stands: in
the initial values of globals and in all kinds of statements, those that cannot be run included.
None of these types is an array type.  They follow one rule for each kind of expression, from the
types that are recorded of its parts; the rules are told here without the functions that compute
them.  Calls have no rule here, since their types come from the functions.

Main definitions:

* `MiniC.Program.Ruled`: the rules for static types.

Main results:

* `MiniC.Expr.isArray_typeOrInt_resolve`: no type is an array type;
* `MiniC.Expr.ruled_resolve`: the type of a resolved expression follows the rule for its kind;
* `MiniC.Program.types_complete`: every expression has a type, by the rules.
-/

set_option autoImplicit false

namespace MiniC

/-- The rules for static types: `p.Ruled e t` says that the expression `e` has the type `t` by the
rule for its kind, given the types that are recorded of its parts. -/
inductive Program.Ruled (p : Program) : Expr → Ty → Prop
  | int (n : Node) (v : Int64) : Ruled p (.int n v) .int
  | char (n : Node) (c : Int8) : Ruled p (.char n c) .char
  | string (n : Node) (s : String) : Ruled p (.string n s) ⟨.char, 1, none⟩
  /-- An array stands for the pointer to its first element. -/
  | linked (n : Node) (x : String) {id : Nat} {t : Ty} :
      p.DeclaresAs id t → Ruled p (.name n x (some id)) t.decayed
  | unlinked (n : Node) (x : String) : Ruled p (.name n x none) .int
  | sumOfLeft (n : Node) {l r : Expr} {t : Ty} :
      l.type = some t → t.isPointer = true → Ruled p (.binary n .add l r) t
  | sumOfRight (n : Node) {l r : Expr} {t u : Ty} :
      l.type = some t → r.type = some u → t.isPointer = false → u.isPointer = true →
        Ruled p (.binary n .add l r) u
  | sum (n : Node) {l r : Expr} {t u : Ty} :
      l.type = some t → r.type = some u → t.isPointer = false → u.isPointer = false →
        Ruled p (.binary n .add l r) .int
  | differenceOfLeft (n : Node) {l r : Expr} {t u : Ty} :
      l.type = some t → r.type = some u → t.isPointer = true → u.isPointer = false →
        Ruled p (.binary n .sub l r) t
  | difference (n : Node) {l r : Expr} {t u : Ty} :
      l.type = some t → r.type = some u → ¬(t.isPointer = true ∧ u.isPointer = false) →
        Ruled p (.binary n .sub l r) .int
  | assignment (n : Node) {op : BinaryOp} {l r : Expr} {t : Ty} :
      op.isAssignment = true → l.type = some t → Ruled p (.binary n op l r) t
  | operation (n : Node) {op : BinaryOp} (l r : Expr) :
      op.isAssignment = false → op ≠ .add → op ≠ .sub → Ruled p (.binary n op l r) .int
  | increment (n : Node) {op : UnaryOp} {x : Expr} {t : Ty} :
      op ∈ [.preInc, .preDec, .postInc, .postDec] → x.type = some t → Ruled p (.unary n op x) t
  | complement (n : Node) {op : UnaryOp} (x : Expr) :
      op ∈ [.neg, .not, .bitNot] → Ruled p (.unary n op x) .int
  | address (n : Node) {x : Expr} {t : Ty} :
      x.type = some t → Ruled p (.unary n .addrOf x) { t with pointers := t.pointers + 1 }
  | deref (n : Node) {x : Expr} {base : BaseType} {k : Nat} :
      x.type = some ⟨base, k + 1, none⟩ → Ruled p (.unary n .deref x) ⟨base, k, none⟩
  | derefOther (n : Node) {x : Expr} {base : BaseType} :
      x.type = some ⟨base, 0, none⟩ → Ruled p (.unary n .deref x) .int
  | subscript (n : Node) {b : Expr} (i : Expr) {base : BaseType} {k : Nat} :
      b.type = some ⟨base, k + 1, none⟩ → Ruled p (.subscript n b i) ⟨base, k, none⟩
  | subscriptOther (n : Node) {b : Expr} (i : Expr) {base : BaseType} :
      b.type = some ⟨base, 0, none⟩ → Ruled p (.subscript n b i) .int
  | cast (n : Node) (t : Ty) (x : Expr) : Ruled p (.cast n t x) t
  | sizeof (n : Node) (t : Ty) : Ruled p (.sizeof n t) .int

/-! ### Operators -/

section

variable {p : Program} {l r x : Expr} {t u : Ty}

/-- The type that is determined for a binary expression follows the rules. -/
theorem BinaryOp.ruled (op : BinaryOp) (n : Node) (hl : l.type = some t) (hr : r.type = some u) :
    p.Ruled (.binary n op l r) (op.resultType t u) := by
  cases op with
  | add =>
    rw [resultType]
    cases ht : t.isPointer with
    | true => exact .sumOfLeft n hl ht
    | false =>
      cases hu : u.isPointer with
      | true => exact .sumOfRight n hl hr ht hu
      | false => exact .sum n hl hr ht hu
  | sub =>
    rw [resultType]
    cases ht : t.isPointer with
    | true =>
      cases hu : u.isPointer with
      | true => exact .difference n hl hr (by simp [hu])
      | false => exact .differenceOfLeft n hl hr ht hu
    | false => exact .difference n hl hr (by simp [ht])
  | assign | addAssign | subAssign | mulAssign | divAssign | modAssign =>
    exact .assignment n rfl hl
  | _ => exact .operation n l r rfl (by decide) (by decide)

/-- A pointer refers to something with one star less. -/
theorem Ty.pointee?_cases (ht : t.isArray = false) :
    (∃ k, t = ⟨t.base, k + 1, none⟩ ∧ t.pointee? = some ⟨t.base, k, none⟩) ∨
      t = ⟨t.base, 0, none⟩ ∧ t.pointee? = none := by
  obtain ⟨base, pointers, length⟩ := t
  cases length with
  | some n => cases ht
  | none =>
    cases pointers with
    | zero => exact .inr ⟨rfl, rfl⟩
    | succ k => exact .inl ⟨k, rfl, rfl⟩

/-- The type that is determined for a unary expression follows the rules. -/
theorem UnaryOp.ruled (op : UnaryOp) (n : Node) (hx : x.type = some t) (ht : t.isArray = false) :
    p.Ruled (.unary n op x) (op.resultType t) := by
  cases op with
  | deref =>
    rw [resultType]
    obtain ⟨k, heq, hpointee⟩ | ⟨heq, hpointee⟩ := Ty.pointee?_cases ht
    · rw [hpointee]
      exact .deref n (heq ▸ hx)
    · rw [hpointee]
      exact .derefOther n (heq ▸ hx)
  | addrOf => exact .address n hx
  | preInc | preDec | postInc | postDec => exact .increment n (by decide) hx
  | neg | not | bitNot => exact .complement n x (by decide)

/-- The type that is determined for a subscript follows the rules. -/
theorem Expr.ruled_subscript (n : Node) (i : Expr) (hx : x.type = some t) (ht : t.isArray = false) :
    p.Ruled (.subscript n x i) (t.pointee?.getD .int) := by
  obtain ⟨k, heq, hpointee⟩ | ⟨heq, hpointee⟩ := Ty.pointee?_cases ht
  · rw [hpointee]
    exact .subscript n i (heq ▸ hx)
  · rw [hpointee]
    exact .subscriptOther n i (heq ▸ hx)

end

/-! ### No type is an array type -/

theorem Ty.isArray_pointee?_getD (t : Ty) : (t.pointee?.getD .int).isArray = false := by
  cases h : t.pointee? with
  | none => rfl
  | some u => exact isArray_of_pointee? h

theorem BinaryOp.isArray_resultType (op : BinaryOp) {t u : Ty} (ht : t.isArray = false)
    (hu : u.isArray = false) : (op.resultType t u).isArray = false := by
  cases op with
  | add =>
    rw [resultType]
    split
    · exact ht
    · split
      · exact hu
      · rfl
  | sub =>
    rw [resultType]
    split
    · exact ht
    · rfl
  | assign | addAssign | subAssign | mulAssign | divAssign | modAssign => exact ht
  | _ => rfl

theorem UnaryOp.isArray_resultType (op : UnaryOp) {t : Ty} (ht : t.isArray = false) :
    (op.resultType t).isArray = false := by
  cases op with
  | deref => exact t.isArray_pointee?_getD
  | addrOf | preInc | preDec | postInc | postDec => exact ht
  | neg | not | bitNot => rfl

theorem Scope.isArray_linkType (s : Scope) (link : Option Nat) :
    (s.linkType link).isArray = false := by
  unfold linkType
  split
  · exact Ty.isArray_decayed _
  · rfl

/-- If no call has an array type, then no expression has, since casts are written without
brackets. -/
theorem Expr.isArray_typeOrInt_resolve {s : Scope} (hcall : ∀ f, (s.callType f).isArray = false) :
    (e : Expr) → {c c' : Supply} → e.Made c c' → (e.resolve s).typeOrInt.isArray = false
  | .int _ _, _, _, _ | .char _ _, _, _, _ | .string _ _, _, _, _ | .sizeof _ _, _, _, _ => rfl
  | .name _ x _, _, _, _ => s.isArray_linkType (s.lookup? x)
  | .binary _ op l r, _, _, .binary _ _ hl hr =>
    op.isArray_resultType (isArray_typeOrInt_resolve hcall l hl)
      (isArray_typeOrInt_resolve hcall r hr)
  | .unary _ op x, _, _, .unary _ _ hx =>
    op.isArray_resultType (isArray_typeOrInt_resolve hcall x hx)
  | .call _ f _, _, _, _ => hcall f
  | .subscript _ b _, _, _, _ => (b.resolve s).typeOrInt.isArray_pointee?_getD
  | .cast _ t _, _, _, .cast _ ht _ => by
    show t.length.isSome = false
    rw [ht]
    rfl

/-- A function is not made to return an array. -/
theorem Function.Made.isArray_returnType {named : Prop} {f : Function} {c c' : Supply}
    (h : f.Made named c c') : f.returnType.isArray = false := by
  cases h <;> rfl

/-- No call in a program that is made has an array type. -/
theorem Program.Made.isArray_callType {named : Prop} {p : Program} (h : p.Made named)
    (callee : String) : (p.resolve.scope.callType callee).isArray = false := by
  have hreturn : ∀ f ∈ p.functions, f.returnType.isArray = false := by
    obtain ⟨items, nextNode, hitems, -, hf⟩ := h
    intro f hmem
    rw [hf] at hmem
    obtain ⟨r, hr, hfr⟩ := List.mem_flatMap.1 hmem
    refine hitems.forall_mem (P := fun r => ∀ f ∈ r.functions, f.returnType.isArray = false)
      (fun c c' r hr => ?_) r hr f hfr
    cases hr with
    | globals => exact fun _ hf => absurd hf List.not_mem_nil
    | function hfun => exact List.forall_mem_singleton.2 hfun.isArray_returnType
  unfold Scope.callType
  split
  · next f hfind =>
    obtain ⟨g', hg', rfl⟩ := List.mem_map.1 (List.mem_of_find?_eq_some hfind)
    obtain ⟨g, hg, rfl⟩ := List.mem_map.1 hg'
    have htag : g.tag.returnType = g.returnType := by
      unfold Function.tag
      split <;> rfl
    show g.tag.returnType.isArray = false
    rw [htag]
    exact hreturn g hg
  · split
    · next i _ => cases i <;> rfl
    · rfl

/-! ### Resolved expressions -/

/-- A scope on the way through a program: it gives the types that the program tells, and links names
to its declarations. -/
structure Scope.Within (p : Program) (s : Scope) : Prop where
  gives : s.Gives p.scope.linkType p.scope.callType
  sees : s.Sees (· ∈ p.declarationIds)

theorem Scope.stable_within (p : Program) :
    Scope.Stable (· ∈ p.declarationIds) (Scope.Within p) where
  bind x _ hid hs := ⟨Scope.stable_gives.bind x trivial hs.gives, hs.sees.bind x hid⟩
  bindGlobal x _ hid hs :=
    ⟨Scope.stable_gives.bindGlobal x trivial hs.gives, hs.sees.bindGlobal x hid⟩
  leave hs := ⟨Scope.stable_gives.leave hs.gives, ⟨by simp, hs.sees.globals⟩⟩

/-- A name has the type of what it refers to. -/
theorem Scope.Within.ruled_name {p : Program} {s : Scope} (hs : s.Within p) (hp : p.Identified)
    (n : Node) (x : String) :
    p.Ruled (.name n x (s.lookup? x)) (s.linkType (s.lookup? x)) := by
  rw [hs.gives.link_eq]
  cases hx : s.lookup? x with
  | none => exact .unlinked n x
  | some id =>
    obtain ⟨t, ht⟩ := Program.exists_declaresAs_of_mem
      (@Scope.Sees.links (fun _ => True) _ _ hs.sees x id hx)
    obtain ⟨d, hd, rfl⟩ := Option.map_eq_some_iff.1 ((hp.declaresAs_iff id t).1 ht)
    have htype : p.scope.linkType (some id) = d.type.decayed := by
      unfold Scope.linkType
      rw [show (some id).bind (fun id => p.scope.declarations[id]?) = some d from hd]
    rw [htype]
    exact .linked n x ht

/-- The type of a resolved expression follows the rule for its kind, unless it is a call. -/
theorem Expr.ruled_resolve {p : Program} (hp : p.Identified) {s : Scope} (hs : s.Within p)
    (hcall : ∀ f, (s.callType f).isArray = false) {e : Expr} {c c' : Supply} (he : e.Made c c')
    (hnot : ∀ n f args, e ≠ .call n f args) :
    ∃ t, (e.resolve s).type = some t ∧ p.Ruled (e.resolve s) t := by
  have hpart : ∀ {x : Expr} {c c' : Supply}, x.Made c c' →
      (x.resolve s).type = some (x.resolve s).typeOrInt ∧
        (x.resolve s).typeOrInt.isArray = false := by
    intro x c c' hx
    refine ⟨?_, x.isArray_typeOrInt_resolve hcall hx⟩
    obtain ⟨t, ht⟩ := Option.isSome_iff_exists.1 (x.type_resolve s)
    rw [Expr.typeOrInt, ht]
    rfl
  cases he with
  | int _ _ v => exact ⟨_, rfl, .int _ v⟩
  | char _ _ v => exact ⟨_, rfl, .char _ v⟩
  | string _ _ v => exact ⟨_, rfl, .string _ v⟩
  | name _ _ x => exact ⟨_, rfl, hs.ruled_name hp _ x⟩
  | binary _ op hl hr => exact ⟨_, rfl, op.ruled _ (hpart hl).1 (hpart hr).1⟩
  | unary _ op hx => exact ⟨_, rfl, op.ruled _ (hpart hx).1 (hpart hx).2⟩
  | call _ f _ => exact absurd rfl (hnot _ f _)
  | subscript _ hb _ => exact ⟨_, rfl, Expr.ruled_subscript _ _ (hpart hb).1 (hpart hb).2⟩
  | cast _ _ _ => exact ⟨_, rfl, .cast _ _ _⟩
  | sizeof _ _ _ => exact ⟨_, rfl, .sizeof _ _⟩

/-! ### Resolved programs -/

namespace Program

/-- When the names of a program are resolved, every expression in it has a type, told by the number
of its node alone.  No type is an array type, and every type but that of a call follows the rule for
its kind from the types of the parts. -/
theorem types_complete {source : String} {q : Program} (h : (read source).result = .ok q) :
    q.resolve.exprs.map Expr.id = q.exprs.map Expr.id ∧
      (q.resolve.exprs.map Expr.id).Nodup ∧
      ∀ e ∈ q.resolve.exprs, ∃ t, e.type = some t ∧ t.isArray = false ∧
        ((∀ n f args, e ≠ .call n f args) → q.resolve.Ruled e t) := by
  have hmade := made_of_read h
  have hidentified := (identified_of_read h).resolve
  have hwithin : Scope.Within q.resolve ⟨q.declarations, q.functions.map Function.tag, [], []⟩ :=
    ⟨q.gives_start, by simp, by simp⟩
  have hdeclared : ∀ {id t}, q.DeclaresAs id t → id ∈ q.resolve.declarationIds := by
    intro id t hid
    rw [declarationIds_resolve]
    exact hid.mem
  have hexprs := exprs_resolve (Scope.stable_within q.resolve) hwithin
    (fun v hv => hdeclared (.inl ⟨v, hv, rfl, rfl⟩))
    (fun f hf r hr => hdeclared (.inr ⟨f, hf, .inl ⟨r, hr, rfl, rfl⟩⟩))
    fun f hf v hv => hdeclared (.inr ⟨f, hf, .inr ⟨v, hv, rfl, rfl⟩⟩)
  refine ⟨hexprs.map_id_eq, hidentified.nodes_nodup, hexprs.forall_mem fun e he s hs => ?_⟩
  obtain ⟨c, c', hc⟩ := hmade.forall_exprs (P := fun e => ∃ c c', e.Made c c')
    (fun e c c' he => ⟨c, c', he⟩) e he
  have hcall : ∀ f, (s.callType f).isArray = false := fun f => by
    rw [hs.gives.call_eq]
    exact hmade.isArray_callType f
  obtain ⟨t, ht⟩ := Option.isSome_iff_exists.1 (e.type_resolve s)
  refine ⟨t, ht, ?_, fun hnot => ?_⟩
  · have := e.isArray_typeOrInt_resolve hcall hc
    rwa [Expr.typeOrInt, ht] at this
  · obtain ⟨u, hu, hruled⟩ := e.ruled_resolve hidentified hs hcall hc (by
      rintro n f args rfl
      exact hnot _ f _ rfl)
    obtain rfl : u = t := Option.some.inj (hu.symm.trans ht)
    exact hruled

/-- A program with statements and expressions that cannot be run, and a name that refers to
nothing. -/
def assorted : String :=
  "char *s = 0; int a[3]; " ++
  "int f(int n) { do { a[0] = *(1 + s) - (s - s); s += n; } while (&n - 1); } " ++
  "int g() { break; return (char) -h++; }"

/-- It has 24 expressions, nine of them with pointers for values. -/
theorem types_complete_assorted :
    ∃ q, (read assorted).result = .ok q ∧ q.resolve.exprs.length = 24 ∧
      q.resolve.exprs.countP (fun e => e.typeOrInt.isPointer) = 9 ∧
      ∀ e ∈ q.resolve.exprs, ∃ t, e.type = some t ∧ t.isArray = false ∧
        ((∀ n f args, e ≠ .call n f args) → q.resolve.Ruled e t) := by
  have hcount : ((read assorted).result.toOption.map fun q =>
      (q.resolve.exprs.length, q.resolve.exprs.countP fun e => e.typeOrInt.isPointer)) =
        some (24, 9) := by decide +kernel
  obtain ⟨q, hq, hcounts⟩ := Option.map_eq_some_iff.1 hcount
  have hread := eq_ok_of_toOption hq
  have hsizes := Prod.mk.inj hcounts
  exact ⟨q, hread, hsizes.1, hsizes.2, (types_complete hread).2.2⟩

end Program

end MiniC
