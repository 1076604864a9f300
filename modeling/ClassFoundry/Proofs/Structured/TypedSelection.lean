import ClassFoundry.Proofs.CallTable
import ClassFoundry.Proofs.Scoping
import ClassFoundry.Proofs.Structured.Statements
import ClassFoundry.Proofs.Structured.Typing

/-!
# Types of the selected code

The code that is selected for a tree that passes the checks respects every typing that admits its
expressions. The variables with values are those that the tree knows.

## Main definitions

* `Names.env`: the variables with values
* `Expr.Admitted`: what is asked of an expression beyond the checks

## Main results

* `select_typed`: the code of an expression leaves one value of its kind
* `selectStmt_typed`, `selectBlock_typed`: the code of statements
* `selectBody_typed`: the code of a function body
-/

namespace ClassFoundry

/-! ## Expressions -/

/-- The variables with values where some names are known; a method that is not static also has its
receiver. -/
def Names.env (σ : Names) (known : String → Prop) : Env := fun slot kind =>
  (∃ name s, known name ∧ σ.look name = some s ∧ s.slot = slot ∧ s.ty.kind? = some kind) ∨
    (σ.scope.function.isStatic = false ∧ slot = 0 ∧ kind = .reference)

/-- **What is asked of an expression beyond the checks**: conditions are annotated as such, a unary
operation applies to what its operand leaves, and the methods that are called are admitted. -/
def Expr.Admitted (T : Typing) (σ : Names) : Expr → Prop
  | .compare _ _ _ ty | .logic _ _ _ ty | .not _ ty => ty = .bool
  | .unary _ operand ty =>
    operand.ty.kind? = some .reference → T.fits .reference ty.numberKind
  | .call (some object) name args ty => ∀ slot cls, σ.look object = some slot →
      slot.ty.className? = some cls → (∀ a ∈ args, a.ty.kind?.isSome) →
      T.calls .virtual ⟨cls, name, Descriptor.ofMethod (args.map Expr.ty) ty⟩
        (args.filterMap (·.ty.kind?)) ty.kind?
  | .call none name args _ => ∀ callee, σ.callee? name (args.map Expr.ty) = some callee →
      callee.Admitted T
  | _ => True

/-- Whether all of some expressions are admitted and use known variables. -/
structure Names.Admits (σ : Names) (T : Typing) (known : String → Prop) (nodes : List Expr) :
    Prop where
  admitted : ∀ e ∈ nodes, e.Admitted T σ
  uses : Expr.Scoped known nodes

namespace Names.Admits

variable {σ : Names} {T : Typing} {known : String → Prop} {l l' : List Expr} {e : Expr}

theorem mono (h : σ.Admits T known l') (hl : ∀ e ∈ l, e ∈ l') : σ.Admits T known l :=
  ⟨fun e he => h.admitted e (hl e he), fun e he => h.uses e (hl e he)⟩

theorem tail (h : σ.Admits T known (e :: l)) : σ.Admits T known l :=
  h.mono fun _ => List.mem_cons_of_mem e

theorem left (h : σ.Admits T known (l ++ l')) : σ.Admits T known l :=
  h.mono fun _ => List.mem_append_left l'

theorem right (h : σ.Admits T known (l ++ l')) : σ.Admits T known l' :=
  h.mono fun _ => List.mem_append_right l

end Names.Admits

section Expressions

variable {T : Typing} {σ : Names} {known : String → Prop}

theorem load_typed {name : String} {slot : Slot} {kind : Kind} (hlook : σ.look name = some slot)
    (hkind : slot.ty.kind? = some kind) (hknown : known name) (s : List Kind) :
    (σ.load name).Typed T (σ.env known) s (kind :: s) := by
  simp only [Names.load, hlook, hkind]
  exact push_typed rfl (.inl ⟨name, slot, hknown, hlook, rfl, hkind⟩)

theorem literal_typed {value : Int64} {ty : DataType} {Γ : Env} (s : List Kind) :
    (literal value ty).Typed T Γ s (ty.numberKind :: s) := by
  unfold literal DataType.numberKind
  split <;> exact push_typed rfl trivial

theorem comparison_typed (op : Comparison) {lhs rhs : DataType} {left right : Fragment} {Γ : Env}
    {k k' : Kind} (hk : lhs.kind? = some k) (hk' : rhs.kind? = some k')
    (h : (lhs.kind? = some .reference ∧ rhs.kind? = some .reference) ∨
      (lhs.IsNumber ∧ rhs.IsNumber))
    (hleft : ∀ s, left.Typed T Γ s (k :: s)) (hright : ∀ s, right.Typed T Γ s (k' :: s))
    (s : List Kind) : (comparison op lhs rhs left right).Typed T Γ s := by
  unfold comparison
  rcases h with ⟨hl, hr⟩ | ⟨hl, hr⟩
  · rw [hl] at hk
    rw [hr] at hk'
    cases hk
    cases hk'
    rw [if_pos ⟨hl, hr⟩]
    exact ⟨[.reference, .reference], (hleft s).seq (hright _), T.fits_all _⟩
  · rw [hl.kind?] at hk
    rw [hr.kind?] at hk'
    cases hk
    cases hk'
    rw [if_neg (by rw [hl.kind?]; simp [DataType.numberKind_ne])]
    exact compareCondition_typed op _ hl hr hleft hright s

/-- The code of an expression leaves a value of its kind. -/
def Expr.Leaves (T : Typing) (σ : Names) (known : String → Prop) (e : Expr) : Prop :=
  ∃ k, e.ty.kind? = some k ∧
    ∀ s, (select σ e).value.Typed T (σ.env known) s (k :: s)

/-- An expression that is a value can be branched on if it is a number. -/
theorem Expr.Leaves.cond {e : Expr} (h : e.Leaves T σ known) (hn : e.ty.IsNumber)
    (hcond : (select σ e).cond = nonzero e.ty (select σ e).value) (s : List Kind) :
    (select σ e).cond.Typed T (σ.env known) s := by
  obtain ⟨k, hk, hv⟩ := h
  rw [hn.kind?] at hk
  cases hk
  rw [hcond]
  exact nonzero_typed (hv s)

/-- What is no condition in itself is tested by its value. -/
theorem Expr.Leaves.typed {e : Expr} (h : e.Leaves T σ known) (hplain : e.isCondition = false)
    (hcond : (select σ e).cond = nonzero e.ty (select σ e).value) :
    e.Leaves T σ known ∧ (e.Testable → ∀ s, (select σ e).cond.Typed T (σ.env known) s) :=
  ⟨h, fun ht => h.cond (ht.resolve_left (by simp [hplain])) hcond⟩

/-- A call by name or of a method of an object leaves what it returns. -/
theorem call_typed {object : Option String} {name : String} {args : List Expr} {ty : DataType}
    (hcalls : σ.Calls object name args)
    (hadm : (Expr.call object name args ty).Admitted T σ)
    (hknown : ∀ x ∈ object, known x)
    (hargs : ∀ a ∈ selectArgs σ args, ∃ k, a.expr.ty.kind? = some k ∧
      ∀ s, a.code.Typed T (σ.env known) s (k :: s)) (s : List Kind) :
    (σ.call object name (selectArgs σ args) ty).Typed T (σ.env known) s
      ((σ.returned object name (args.map Expr.ty) ty).kind?.toList ++ s) := by
  cases object with
  | some object =>
    obtain ⟨⟨slot, cls, hlook, hcls⟩, hkinds⟩ := hcalls
    have hcall := hadm slot cls hlook hcls hkinds
    have href : slot.ty.kind? = some .reference := by
      cases hty : slot.ty <;> simp_all [DataType.className?, DataType.kind?]
    have htypes : (selectArgs σ args).filterMap (·.expr.ty.kind?) =
        args.filterMap (·.ty.kind?) := by
      have h := congrArg (List.filterMap DataType.kind?) (map_ty_selectArgs σ args)
      rwa [List.filterMap_map, List.filterMap_map] at h
    simp only [Names.call, hlook, hcls, Names.returned, objectFragment]
    refine .seq (t := .reference :: s) (push_typed rfl
      (.inl ⟨object, slot, hknown object rfl, hlook, rfl, href⟩)) ?_
    refine .seq (plainArguments_typed hargs _) ?_
    rw [htypes, map_ty_selectArgs]
    have hop := Operation.typed_exact (T := T) (Γ := σ.env known) (.invoke .virtual
      ⟨cls, name, Descriptor.ofMethod (args.map Expr.ty) ty⟩
      (args.filterMap fun e : Expr => e.ty.kind?) ty.kind?) hcall s
    rw [Operation.takes, List.append_assoc] at hop
    · exact hop
    · simp
  | none =>
    obtain ⟨callee, hc⟩ := hcalls
    simp only [Names.call, Names.returned, map_ty_selectArgs, hc.callee?]
    refine callFragment_typed (hadm callee hc.callee?) ?_ ?_ ?_ hc.first_selectArgs s
    · -- each argument can stand for the parameter that it is passed for
      rintro ⟨a, pty⟩ hp
      obtain ⟨k, hk, ha⟩ := hargs a (List.of_mem_zip hp).1
      refine ⟨?_, fun k' hk' => ?_⟩
      · refine hc.passes (a.expr, pty) ?_
        rw [← map_expr_selectArgs σ args, List.zip_map_left]
        exact List.mem_map.2 ⟨(a, pty), hp, rfl⟩
      · rw [hk] at hk'
        cases hk'
        exact ha
    · rw [← List.unzip_snd, List.unzip_zip_right (by simp [hc.length_params])]
    · exact fun hr => .inr ⟨hc.this hr, rfl, rfl⟩

mutual

/-- **The code of an expression** leaves one value of the kind of the expression, and branches on it
without a trace on the stack. -/
theorem select_typed (e : Expr) (hc : e.Checked σ) (ha : σ.Admits T known e.nodes) :
    e.Leaves T σ known ∧
      (e.Testable → ∀ s, (select σ e).cond.Typed T (σ.env known) s) := by
  have hself := ha.admitted e e.mem_nodes_self
  cases e with
  | ident name ty =>
    obtain ⟨slot, kind, hlook, hkind, hty⟩ := hc
    have hknown := ha.uses _ (Expr.mem_nodes_self _) name rfl
    have hv : (Expr.ident name ty).Leaves T σ known :=
      ⟨kind, hty, load_typed hlook hkind hknown⟩
    exact hv.typed rfl rfl
  | int value ty =>
    have hv : (Expr.int value ty).Leaves T σ known :=
      ⟨_, DataType.IsNumber.kind? hc, literal_typed⟩
    exact hv.typed rfl rfl
  | char c =>
    have hv : (Expr.char c).Leaves T σ known := ⟨.int, rfl, fun s => push_typed rfl trivial⟩
    exact hv.typed rfl rfl
  | str text =>
    have hv : (Expr.str text).Leaves T σ known :=
      ⟨.reference, rfl, Operation.typed_exact (.text text) trivial⟩
    exact hv.typed rfl rfl
  | arith op lhs rhs ty =>
    obtain ⟨hty, hl, hr, hcl, hcr⟩ := hc
    obtain ⟨⟨k, hk, hleft⟩, -⟩ := select_typed lhs hcl ha.tail.left
    obtain ⟨⟨k', hk', hright⟩, -⟩ := select_typed rhs hcr ha.tail.right
    rw [hl.kind?] at hk
    rw [hr.kind?] at hk'
    cases hk
    cases hk'
    have hdistance : (if op.isShift then .int else ty.numberKind) ≠ Kind.reference := by
      split
      · simp
      · exact ty.numberKind_ne
    have hv : (Expr.arith op lhs rhs ty).Leaves T σ known := by
      refine ⟨_, hty.kind?, fun s => ?_⟩
      obtain ⟨h₁, h₂⟩ := operands_typed hl hr ty.numberKind_ne hdistance hleft hright s
      exact h₁.seq (h₂.seq ((op.fragment_typed s).seq (narrowing_typed hty.kind? s)))
    exact hv.typed rfl rfl
  | compare op lhs rhs ty =>
    obtain ⟨hkinds, hcl, hcr⟩ := hc
    obtain ⟨⟨k, hk, hleft⟩, -⟩ := select_typed lhs hcl ha.tail.left
    obtain ⟨⟨k', hk', hright⟩, -⟩ := select_typed rhs hcr ha.tail.right
    have hcond := comparison_typed op hk hk' (hkinds.imp (fun h => ⟨h.1, h.2.1⟩) id) hleft hright
    cases hself
    exact ⟨⟨.int, rfl, fun s => ⟨hcond s, rfl⟩⟩, fun _ => hcond⟩
  | logic op lhs rhs ty =>
    obtain ⟨hl, hr, hcl, hcr⟩ := hc
    have hleft := (select_typed lhs hcl ha.tail.left).2 hl
    have hright := (select_typed rhs hcr ha.tail.right).2 hr
    cases hself
    exact ⟨⟨.int, rfl, fun s => ⟨⟨hleft s, hright s⟩, rfl⟩⟩, fun _ s => ⟨hleft s, hright s⟩⟩
  | unary op operand ty =>
    obtain ⟨hty, -, hco⟩ := hc
    obtain ⟨⟨k, hk, hoperand⟩, -⟩ := select_typed operand hco ha.tail
    have hv : (Expr.unary op operand ty).Leaves T σ known := by
      refine ⟨_, hty.kind?, fun s => ?_⟩
      have hrest := fun k (h : T.fits k ty.numberKind) =>
        (op.fragment_typed (Γ := σ.env known) h s).seq (narrowing_typed hty.kind? s)
      by_cases hr : k = .reference
      · -- a reference is left as it is
        subst hr
        refine .seq (t := .reference :: s) (.seq (hoperand s) ?_) (hrest _ (hself hk))
        simp only [widening, hk]
        rfl
      · exact .seq (.seq (hoperand s) (widening_typed hk hr ty.numberKind_ne s))
          (hrest _ (T.fits_refl _))
    exact hv.typed rfl rfl
  | not operand ty =>
    obtain ⟨ht, hco⟩ := hc
    have hcond := (select_typed operand hco ha.tail).2 ht
    cases hself
    exact ⟨⟨.int, rfl, fun s => ⟨hcond s, rfl⟩⟩, fun _ => hcond⟩
  | call object name args ty =>
    obtain ⟨hcalls, hcargs, kind, hkind, hty⟩ := hc
    have hknown := ha.uses _ (Expr.mem_nodes_self _)
    have hv : (Expr.call object name args ty).Leaves T σ known := by
      refine ⟨kind, hty, fun s => ?_⟩
      have h := call_typed hcalls hself hknown (selectArgs_typed args hcargs ha.tail) s
      rwa [hkind] at h
    exact hv.typed rfl rfl

/-- The code of each argument leaves one value. -/
theorem selectArgs_typed (args : List Expr) (hc : Expr.AllChecked σ args)
    (ha : σ.Admits T known (Expr.nodesOf args)) :
    ∀ a ∈ selectArgs σ args, ∃ k, a.expr.ty.kind? = some k ∧
      ∀ s, a.code.Typed T (σ.env known) s (k :: s) := by
  cases args with
  | nil => simp [selectArgs]
  | cons e rest =>
    exact List.forall_mem_cons.2
      ⟨(select_typed e hc.1 ha.left).1, selectArgs_typed rest hc.2 ha.right⟩

end

/-- An expression as a value of a type for which it can stand. -/
theorem selectAs_typed {e : Expr} {ty : DataType} {k : Kind} (hk : ty.kind? = some k)
    (hc : e.Checked σ) (hp : e.ty.Passes ty) (ha : σ.Admits T known e.nodes) (s : List Kind) :
    (selectAs σ e ty).Typed T (σ.env known) s (k :: s) := by
  obtain ⟨k₁, k₂, hk₁, hk₂, hiff⟩ := hp
  obtain ⟨k₃, hk₃, he⟩ := (select_typed e hc ha).1
  rw [hk₁] at hk₃
  rw [hk] at hk₂
  cases hk₂
  cases hk₃
  exact (he s).seq (conversion_typed hk₁ hk hiff s)

end Expressions

/-! ## Statements -/

section Statements

variable {T : Typing} {σ : Names} {known : String → Prop}

/-- Values are stored only in slots of variables. -/
def Names.Stores (σ : Names) (T : Typing) : Prop :=
  ∀ name s k, σ.look name = some s → s.ty.kind? = some k → T.slots s.slot k

theorem Names.env_mono {known' : String → Prop} (h : ∀ name, known name → known' name)
    (s : Nat) (k : Kind) (hs : σ.env known s k) : σ.env known' s k :=
  hs.imp (fun ⟨name, slot, hn, hrest⟩ => ⟨name, slot, h name hn, hrest⟩) id

/-- After its declaration a variable is the only new one. -/
theorem Names.env_knownAfter {s : Stmt} {slot : Slot} {kind : Kind}
    (hlook : ∀ name ∈ s.declared?, σ.look name = some slot) (hkind : slot.ty.kind? = some kind)
    (n : Nat) (k : Kind) (h : σ.env (s.knownAfter known) n k) :
    σ.env known n k ∨ (n = slot.slot ∧ k = kind) := by
  rcases h with ⟨name, slot', hknown | hname, hlook', hslot, hkind'⟩ | h
  · exact .inl (.inl ⟨name, slot', hknown, hlook', hslot, hkind'⟩)
  · rw [hlook name hname] at hlook'
    cases hlook'
    rw [hkind] at hkind'
    cases hkind'
    exact .inr ⟨hslot.symm, rfl⟩
  · exact .inl (.inr h)

/-- A statement that declares nothing leaves the variables as they were. -/
theorem Names.env_of_knownAfter {s : Stmt} (hs : s.declared? = none) (n : Nat) (k : Kind)
    (h : σ.env (s.knownAfter known) n k) : σ.env known n k :=
  Names.env_mono (fun name hn => hn.resolve_right (by simp [hs])) n k h

theorem initialValue_gives {name : String} {ty : DataType} {init : Option Expr} {kind : Kind}
    (hkind : ty.kind? = some kind) (hc : (Stmt.declare name ty init).Checked σ)
    (ha : σ.Admits T known (Expr.nodesOf? init)) :
    (initialValue σ ty init).Gives T (σ.env known) (some kind) := by
  refine ⟨[kind], ?_, T.fits_all _⟩
  cases init with
  | none => exact defaultValue_typed hkind []
  | some e =>
    obtain ⟨he, hp⟩ := hc.2 e rfl
    exact selectAs_typed hkind he hp ha []

mutual

/-- **The code of a statement** works on an empty stack, and knows the variables that the statement
knows. -/
theorem selectStmt_typed {known : String → Prop} (hstores : σ.Stores T) (s : Stmt) (hc : s.Checked σ)
    (ha : ∀ e ∈ s.nodes, e.Admitted T σ) (hs : s.Scoped known) :
    (selectStmt σ s).Typed T σ.scope.function.returnType.kind? (σ.env known)
      (σ.env (s.knownAfter known)) := by
  cases s with
  | declare name ty init =>
    obtain ⟨⟨slot, kind, hlook, rfl, hkind⟩, -⟩ := id hc
    simp only [selectStmt, hlook, hkind]
    refine ⟨initialValue_gives hkind hc ⟨ha, hs⟩, hstores name slot kind hlook hkind, ?_⟩
    refine Names.env_knownAfter (fun name' hn => ?_) hkind
    cases hn
    exact hlook
  | assign name value =>
    obtain ⟨slot, hlook, hv, hp⟩ := hc
    obtain ⟨-, kind, -, hkind, -⟩ := id hp
    simp only [selectStmt, hlook, hkind]
    refine ⟨⟨[kind], selectAs_typed hkind hv hp ⟨ha, hs.2⟩ [], T.fits_all _⟩,
      hstores name slot kind hlook hkind, fun n k h => .inl (Names.env_of_knownAfter rfl n k h)⟩
  | ret value =>
    cases value with
    | none =>
      have hnone : σ.scope.function.returnType.kind? = none := hc
      rw [hnone]
      exact ⟨rfl, ⟨[], rfl, .nil⟩, Names.env_of_knownAfter rfl⟩
    | some e =>
      obtain ⟨he, hp⟩ := hc
      obtain ⟨-, kind, -, hkind, -⟩ := id hp
      refine ⟨rfl, ⟨[kind], selectAs_typed hkind he hp ⟨ha, hs⟩ [], ?_⟩,
        Names.env_of_knownAfter rfl⟩
      rw [hkind]
      exact T.fits_all _
  | ifThen cond body =>
    obtain ⟨hcond, htest, hbody⟩ := hc
    have hbranch := (select_typed cond hcond
      ⟨fun e he => ha e (List.mem_append_left _ he), hs.1⟩).2 htest
    obtain ⟨Δ, hblock⟩ := selectBlock_typed hstores body hbody
      (fun e he => ha e (List.mem_append_right _ he)) hs.2
    exact ⟨hbranch [], ⟨Δ, hblock⟩, Names.env_of_knownAfter rfl⟩
  | ifElse cond body orElse =>
    obtain ⟨hcond, htest, hbody, helse⟩ := hc
    have hbranch := (select_typed cond hcond
      ⟨fun e he => ha e (List.mem_append_left _ he), hs.1⟩).2 htest
    have hbodies : ∀ e ∈ Stmt.nodesOf body ++ Stmt.nodesOf orElse, e.Admitted T σ :=
      fun e he => ha e (List.mem_append_right _ he)
    exact ⟨hbranch [],
      selectBlock_typed hstores body hbody
        (fun e he => hbodies e (List.mem_append_left _ he)) hs.2.1,
      selectBlock_typed hstores orElse helse
        (fun e he => hbodies e (List.mem_append_right _ he)) hs.2.2,
      Names.env_of_knownAfter rfl⟩
  | loop cond body =>
    obtain ⟨hcond, htest, hbody⟩ := hc
    have hbranch := (select_typed cond hcond
      ⟨fun e he => ha e (List.mem_append_left _ he), hs.1⟩).2 htest
    obtain ⟨Δ, hblock⟩ := selectBlock_typed hstores body hbody
      (fun e he => ha e (List.mem_append_right _ he)) hs.2
    exact ⟨hbranch [], ⟨Δ, hblock⟩, Names.env_of_knownAfter rfl⟩
  | «break» => exact Names.env_of_knownAfter rfl
  | «continue» => exact Names.env_of_knownAfter rfl
  | call object name args ty =>
    obtain ⟨hcalls, hcargs⟩ := hc
    have hadm : σ.Admits T known (Expr.call object name args ty).nodes := ⟨ha, hs⟩
    have hcall := call_typed hcalls (ha _ (Expr.mem_nodes_self _))
      (hs _ (Expr.mem_nodes_self _)) (selectArgs_typed args hcargs hadm.tail) []
    refine ⟨.seq hcall ?_, Names.env_of_knownAfter rfl⟩
    -- what the call leaves is dropped
    cases (σ.returned object name (args.map Expr.ty) ty).kind? with
    | none => rfl
    | some kind => exact Operation.typed_exact (.drop kind) trivial []

/-- The code of a block, up to the first statement that control cannot leave. -/
theorem selectBlock_typed {known : String → Prop} (hstores : σ.Stores T) (block : List Stmt)
    (hc : Stmt.AllChecked σ block) (ha : ∀ e ∈ Stmt.nodesOf block, e.Admitted T σ)
    (hs : Stmt.AllScoped known block) :
    ∃ Δ, (selectBlock σ block).Typed T σ.scope.function.returnType.kind? (σ.env known) Δ := by
  cases block with
  | nil => exact ⟨σ.env known, fun _ _ h => h⟩
  | cons s rest =>
    have hfirst := selectStmt_typed hstores s hc.1
      (fun e he => ha e (List.mem_append_left _ he)) hs.1
    unfold selectBlock
    cases ht : s.terminates with
    | true => exact ⟨_, by simpa using hfirst⟩
    | false =>
      obtain ⟨Δ, hrest⟩ := selectBlock_typed hstores rest (hc.2 ht)
        (fun e he => ha e (List.mem_append_right _ he)) hs.2
      exact ⟨Δ, (ends_selectStmt σ s).trans ht, _, hfirst, hrest⟩

end

/-- **The code of a function body**, started with values for the parameters. -/
theorem selectBody_typed (hstores : σ.Stores T) (hc : σ.BodyChecked)
    (ha : ∀ e ∈ Stmt.nodesOf σ.scope.function.body, e.Admitted T σ)
    (hs : Stmt.AllScoped known σ.scope.function.body) :
    ∃ Δ, (selectBody σ).Typed T σ.scope.function.returnType.kind? (σ.env known) Δ := by
  obtain ⟨Δ, hblock⟩ := selectBlock_typed hstores σ.scope.function.body hc.1 ha hs
  unfold selectBody
  split <;> rename_i ht
  · exact ⟨Δ, hblock⟩
  · -- a function without result may end without a return
    have ht : blockTerminates σ.scope.function.body = false := by simpa using ht
    refine ⟨Δ, (ends_selectBlock σ _).trans ht, Δ, hblock, ?_⟩
    rw [hc.2 ht]
    exact ⟨rfl, ⟨[], rfl, .nil⟩, fun _ _ h => h⟩

end Statements

end ClassFoundry
