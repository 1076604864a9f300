import ClassFoundry.Proofs.Structured.Statements

/-!
# The variables of a function

Which variables a function has and where they lie depends on its declarations alone: on those that are
lowered, in their order. Nothing is said of declarations behind a statement that control cannot leave.

## Main definitions

* `Locals.afterStmt`, `Locals.afterBlock`: the variables behind a statement and behind a block
* `FunDef.locals?`: the variables of a function

## Main results

* `lowerBody_locals`: a lowered function has these variables
-/

namespace ClassFoundry

mutual

/-- **The variables behind a statement**. -/
def Locals.afterStmt (l : Locals) : Stmt → Except CompileError Locals
  | .declare name ty _ => do
    let (_, l) ← l.declare name ty
    return l
  | .ifThen _ body => l.afterBlock body
  | .ifElse _ body orElse => do
    let l ← l.afterBlock body
    l.afterBlock orElse
  | .loop _ body => l.afterBlock body
  | _ => .ok l

/-- The variables behind a block, up to the first statement that control cannot leave. -/
def Locals.afterBlock (l : Locals) : List Stmt → Except CompileError Locals
  | [] => .ok l
  | s :: rest => do
    let l ← l.afterStmt s
    if s.terminates then return l else l.afterBlock rest

end

/-- **The variables of a function**: its parameters, and those that its body declares. -/
def FunDef.locals? (f : FunDef) : Except CompileError Locals := do
  let l ← Locals.ofFunction f f.reservedSlots
  l.afterBlock f.body

/-! ## Lowering -/

section Lowering

variable {scope : Scope} {s s' : LowerState}

theorem branch_locals {e : Expr} {jumpIf : Bool} {target : Label} (hp : Prepared scope s)
    (h : (lower scope e).branch jumpIf target s = .ok () s') : s'.locals = s.locals :=
  ((lower_lowers ⟨scope, s.locals.find?⟩ e).branch hp h).1.locals

theorem valueAs_locals {e : Expr} {ty : DataType} (hp : Prepared scope s)
    (h : valueAs e (lower scope e).value ty s = .ok () s') : s'.locals = s.locals :=
  (valueAs_lowers (lower_lowers ⟨scope, s.locals.find?⟩ e).value hp h).1.locals

theorem lowerDeclare_locals {name : String} {ty : DataType} {init : Option Expr}
    (hp : Prepared scope s) (h : lowerDeclare scope name ty init s = .ok () s') :
    s.locals.afterStmt (.declare name ty init) = .ok s'.locals := by
  unfold lowerDeclare at h
  -- the first value changes no variables
  have hvalue : ∃ s₁, s₁.locals = s.locals ∧
      (do
        let slot ← Lower.declare name ty
        storeLocal ty slot : Lower Unit) s₁ = .ok () s' := by
    cases init with
    | some e =>
      obtain ⟨_, s₁, h₁, h⟩ := bind_ok.1 h
      exact ⟨s₁, valueAs_locals hp h₁, h⟩
    | none =>
      obtain ⟨_, s₁, h₁, h⟩ := bind_ok.1 h
      exact ⟨s₁, (pushDefault_builds hp.sound h₁).1.locals, h⟩
  obtain ⟨s₁, hlocals, h⟩ := hvalue
  obtain ⟨slot, s₂, h₂, h⟩ := bind_ok.1 h
  obtain ⟨l, hl, rfl⟩ := Lower.declare_ok.1 h₂
  obtain ⟨-, -, -, hs', -⟩ := storeLocal_ok h
  rw [hlocals] at hl
  rw [Locals.afterStmt, hl, hs']
  rfl

theorem lowerAssign_locals {name : String} {value : Expr} (hp : Prepared scope s)
    (h : lowerAssign scope name value s = .ok () s') : s'.locals = s.locals := by
  unfold lowerAssign at h
  obtain ⟨slot, s₁, h₁, h⟩ := bind_ok.1 h
  obtain ⟨-, rfl⟩ := Lower.resolve_ok.1 h₁
  obtain ⟨_, s₂, h₂, h⟩ := bind_ok.1 h
  obtain ⟨-, -, -, hs', -⟩ := storeLocal_ok h
  have hvalue := valueAs_locals hp h₂
  rw [hs', hvalue]

theorem lowerReturn_locals {value : Option Expr} (hp : Prepared scope s)
    (h : lowerReturn scope value s = .ok () s') : s'.locals = s.locals := by
  unfold lowerReturn at h
  cases value with
  | some e =>
    cases hk : scope.function.returnType.kind? with
    | some kind =>
      rw [hk] at h
      obtain ⟨_, s₁, h₁, h₂⟩ := bind_ok.1 h
      have hvalue := valueAs_locals hp h₁
      rw [(ret_ok h₂).1, hvalue]
    | none =>
      rw [hk] at h
      exact absurd h Lower.refuse_ok.1
  | none =>
    cases hk : scope.function.returnType.kind? with
    | some kind =>
      rw [hk] at h
      exact absurd h Lower.refuse_ok.1
    | none =>
      rw [hk] at h
      rw [(ret_ok h).1]

theorem lowerCall_locals {object : Option String} {name : String} {args : List Expr}
    {ty : DataType} (hp : Prepared scope s)
    (h : lowerCall scope object name args ty s = .ok () s') : s'.locals = s.locals := by
  unfold lowerCall at h
  obtain ⟨returned, s₁, h₁, h⟩ := bind_ok.1 h
  obtain ⟨hb, -⟩ := callAny_lowers (lowerArgs_lowers ⟨scope, s.locals.find?⟩ args) hp h₁
  rw [← hb.locals]
  cases hk : returned.kind? with
  | some kind =>
    rw [hk] at h
    exact (drop_builds hb.pool.sound h).locals
  | none =>
    rw [hk] at h
    obtain ⟨-, rfl⟩ := pure_ok.1 h
    rfl

theorem lowerJump_locals {inner : Option LoopLabels} {keyword : String}
    {target : LoopLabels → Label} (h : lowerJump inner keyword target s = .ok () s') :
    s'.locals = s.locals := by
  unfold lowerJump at h
  cases inner with
  | some labels => rw [(branch_ok rfl h).2]
  | none => exact absurd h Lower.refuse_ok.1

end Lowering

mutual

theorem lowerStmt_locals (scope : Scope) (stmt : Stmt) {inner : Option LoopLabels}
    {s s' : LowerState} (hp : Prepared scope s) (h : lowerStmt scope inner stmt s = .ok () s') :
    s.locals.afterStmt stmt = .ok s'.locals := by
  cases stmt with
  | declare name ty init => exact lowerDeclare_locals hp h
  | assign name value => exact congrArg Except.ok (lowerAssign_locals hp h).symm
  | ret value => exact congrArg Except.ok (lowerReturn_locals hp h).symm
  | ifThen cond body =>
    simp only [lowerStmt, bind_ok] at h
    obtain ⟨l, s₁, h₁, _, s₂, h₂, _, s₃, h₃, h₄⟩ := h
    obtain ⟨rfl, rfl⟩ := newLabel_ok h₁
    have hc := branch_produces (hp.code _) h₂
    have hcond := branch_locals (hp.code _) h₂
    have hbody := lowerBlock_locals scope body (hp.grow hc.pool) h₃
    rw [hcond] at hbody
    rw [Locals.afterStmt, hbody, (place_ok h₄).2]
  | ifElse cond body orElse =>
    simp only [lowerStmt, bind_ok] at h
    obtain ⟨l, s₁, h₁, _, s₂, h₂, _, s₃, h₃, l', s₄, h₄, _, s₅, h₅, _, s₆, h₆, _, s₇, h₇, _, s₈,
      h₈, h₉⟩ := h
    obtain ⟨rfl, rfl⟩ := newLabel_ok h₁
    obtain ⟨rfl, rfl⟩ := newLabel_ok h₄
    have hc := branch_produces (hp.code _) h₂
    have hcond := branch_locals (hp.code _) h₂
    have hbody := lowerBlock_locals scope body (hp.grow hc.pool) h₃
    rw [hcond] at hbody
    have hb := lowerBlock_produces scope body (hp.grow hc.pool) h₃
    have hs₆ : s₆.pool = s₃.pool ∧ s₆.locals = s₃.locals := by
      rw [(place_ok h₆).2, (jumpUnless_ok h₅).1]
      exact ⟨rfl, rfl⟩
    have helse := lowerBlock_locals scope orElse
      (hp.grow (hs₆.1.symm ▸ hc.pool.trans hb.pool)) h₇
    have hs' : s'.locals = s₇.locals := by rw [(place_ok h₉).2, (jumpUnless_ok h₈).1]
    rw [Locals.afterStmt, hbody, hs', ← helse, hs₆.2]
    rfl
  | loop cond body =>
    simp only [lowerStmt, bind_ok] at h
    obtain ⟨l₁, s₁, h₁, l₂, s₂, h₂, l₃, s₃, h₃, _, s₄, h₄, _, s₅, h₅, _, s₆, h₆, _, s₇, h₇, _, s₈,
      h₈, h₉⟩ := h
    obtain ⟨rfl, rfl⟩ := newLabel_ok h₁
    obtain ⟨rfl, rfl⟩ := newLabel_ok h₂
    obtain ⟨rfl, rfl⟩ := newLabel_ok h₃
    have hs₅ : s₅.pool = s.pool ∧ s₅.locals = s.locals := by
      rw [(place_ok h₅).2, (branch_ok rfl h₄).2]
      exact ⟨rfl, rfl⟩
    have hp₅ : Prepared scope s₅ := hp.grow (hs₅.1.symm ▸ .refl hp.sound)
    have hbody := lowerBlock_locals scope body hp₅ h₆
    have hs₇ : s₇.pool = s₆.pool ∧ s₇.locals = s₆.locals := by
      rw [(place_ok h₇).2]
      exact ⟨rfl, rfl⟩
    have hb := lowerBlock_produces scope body hp₅ h₆
    have hcond : s₈.locals = s₇.locals :=
      branch_locals (hp₅.grow (hs₇.1.symm ▸ hb.pool)) h₈
    rw [Locals.afterStmt, ← hs₅.2, hbody, (place_ok h₉).2, hcond, hs₇.2]
  | «break» => exact congrArg Except.ok (lowerJump_locals h).symm
  | «continue» => exact congrArg Except.ok (lowerJump_locals h).symm
  | call object name args ty => exact congrArg Except.ok (lowerCall_locals hp h).symm

theorem lowerBlock_locals (scope : Scope) (block : List Stmt) {inner : Option LoopLabels}
    {s s' : LowerState} (hp : Prepared scope s) (h : lowerBlock scope inner block s = .ok () s') :
    s.locals.afterBlock block = .ok s'.locals := by
  cases block with
  | nil =>
    obtain ⟨-, rfl⟩ := pure_ok.1 h
    rfl
  | cons stmt rest =>
    simp only [lowerBlock, bind_ok] at h
    obtain ⟨_, s₁, h₁, h⟩ := h
    have hstmt := lowerStmt_locals scope stmt hp h₁
    rw [Locals.afterBlock, hstmt]
    rcases ite_ok.1 h with ⟨ht, h⟩ | ⟨ht, h⟩
    · obtain ⟨-, rfl⟩ := pure_ok.1 h
      simp only [ht, if_true]
      rfl
    · have hp₁ := hp.grow (lowerStmt_produces scope stmt hp h₁).pool
      rw [← lowerBlock_locals scope rest hp₁ h]
      simp only [ht]
      rfl

end

/-- **A lowered function has the variables of its declarations**. -/
theorem lowerBody_locals {scope : Scope} {s s' : LowerState} (hp : Prepared scope s)
    (h : lowerBody scope s = .ok () s') :
    s.locals.afterBlock scope.function.body = .ok s'.locals := by
  unfold lowerBody at h
  obtain ⟨_, s₁, h₁, h⟩ := bind_ok.1 h
  rw [lowerBlock_locals scope scope.function.body hp h₁]
  rcases ite_ok.1 h with ⟨-, h⟩ | ⟨-, h⟩
  · rcases ite_ok.1 h with ⟨-, h⟩ | ⟨-, h⟩
    · rw [(ret_ok h).1]
    · exact absurd h throw_ok.1
  · obtain ⟨-, rfl⟩ := pure_ok.1 h
    rfl

end ClassFoundry
