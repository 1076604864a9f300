import ClassFoundry.Proofs.CallTable
import ClassFoundry.Proofs.Structured.Operations
import Mathlib.Data.List.Forall2

/-!
# The layout of expressions

Whatever the lowering of an expression emits is its structured code, laid out, and the expression
passes all checks.

## Main definitions

* `Ready`: the states in which a function body is lowered
* `Lowers`, `LowersCondition`: what is proved of the lowering of a value and of a condition

## Main results

* `lower_lowers`: the lowering of an expression
-/

namespace ClassFoundry

open Fragment (ofOp)

/-- **The states in which a function body is lowered**: the pool is sound and holds the methods of
the call table, and names refer to what was declared for them. -/
structure Ready (σ : Names) (s : LowerState) : Prop where
  sound : s.pool.Sound
  refs : ∀ c ∈ σ.scope.table.entries, ∀ i, c.methodRef = some i →
    s.pool.pool.member? i = some c.member ∧
      ∃ cls sig, s.pool.pool.get? i = some (.methodRef cls sig)
  names : ∀ name slot, s.locals.find? name = some slot → σ.look name = some slot

theorem Ready.grow {σ : Names} {s s' : LowerState} (h : Ready σ s) (hp : s.pool.Grows s'.pool)
    (hl : s'.locals = s.locals) : Ready σ s' where
  sound := hp.sound
  refs := by
    intro c hc i hi
    obtain ⟨hm, cls, sig, hg⟩ := h.refs c hc i hi
    exact ⟨ConstantPool.member?_mono hp.le hm, cls, sig, ConstantPool.get?_mono hp.le hg⟩
  names := by
    rw [hl]
    exact h.names

theorem Ready.code {σ : Names} {s : LowerState} (h : Ready σ s) (a : Assembler) :
    Ready σ { s with asm := a } :=
  ⟨h.sound, h.refs, h.names⟩

theorem Builds.ready {σ : Names} {s s' : LowerState} {c : Fragment} (h : Builds s c s')
    (hr : Ready σ s) : Ready σ s' :=
  hr.grow h.pool h.locals

/-- A lowering that lays out a condition. -/
structure BuildsCondition (s : LowerState) (cond : Condition) (jumpIf : Bool) (target : Label)
    (s' : LowerState) : Prop where
  pool : s.pool.Grows s'.pool
  locals : s'.locals = s.locals
  laid : cond.Laid s'.pool.pool jumpIf target s.asm s'.asm

theorem BuildsCondition.ready {σ : Names} {s s' : LowerState} {c : Condition} {jumpIf : Bool}
    {target : Label} (h : BuildsCondition s c jumpIf target s') (hr : Ready σ s) : Ready σ s' :=
  hr.grow h.pool h.locals

/-- Every successful run of a lowering lays out a fragment and passes some checks. -/
def Lowers (σ : Names) (x : Lower Unit) (code : Fragment) (checks : Prop) : Prop :=
  ∀ {s s' : LowerState}, Ready σ s → x s = .ok () s' → Builds s code s' ∧ checks

/-- Every successful run of a branching lowering lays out a condition and passes some checks. -/
def LowersCondition (σ : Names) (x : Bool → Label → Lower Unit) (cond : Condition)
    (checks : Prop) : Prop :=
  ∀ {jumpIf : Bool} {target : Label} {s s' : LowerState}, Ready σ s →
    x jumpIf target s = .ok () s' → BuildsCondition s cond jumpIf target s' ∧ checks

section Labels

variable {s s' : LowerState} {u : Unit} {l : Label}

theorem branch_ok {op : Opcode} (hop : op.isBranch = true)
    (h : Lower.code (Asm.branch op l) s = .ok u s') :
    (Event.branch op l).Happens s.asm s'.asm ∧ s' = { s with asm := s'.asm } := by
  obtain ⟨b, hb, rfl⟩ := Lower.code_ok.1 h
  exact ⟨.branch hop (Asm.branch_branches hb), rfl⟩

theorem place_ok (h : Lower.code (Asm.place l) s = .ok u s') :
    (Event.place l).Happens s.asm s'.asm ∧ s' = { s with asm := s'.asm } := by
  obtain ⟨b, hb, rfl⟩ := Lower.code_ok.1 h
  exact ⟨.place (Asm.place_places hb), rfl⟩

theorem newLabel_ok (h : Lower.code Asm.newLabel s = .ok l s') :
    l = s.asm.nextLabel ∧ s' = { s with asm := s.asm.withLabel } := by
  obtain ⟨b, hb, rfl⟩ := Lower.code_ok.1 h
  obtain ⟨rfl, rfl⟩ := Asm.newLabel_ok hb
  exact ⟨rfl, rfl⟩

theorem Test.isBranch_opcode (t : Test) (jumpIf : Bool) : (t.opcode jumpIf).isBranch = true := by
  cases t with
  | zero test => cases test <;> cases jumpIf <;> rfl
  | ints test => cases test <;> cases jumpIf <;> rfl
  | refs same => cases same <;> cases jumpIf <;> rfl

/-- A test after its operands. -/
theorem Builds.test {operands : Fragment} {t : Test} {jumpIf : Bool} {s₁ : LowerState}
    (hb : Builds s operands s₁) (h : Lower.code (Asm.branch (t.opcode jumpIf) l) s₁ = .ok u s') :
    BuildsCondition s (.test operands t) jumpIf l s' := by
  obtain ⟨hbranch, hs'⟩ := branch_ok (t.isBranch_opcode jumpIf) h
  rw [hs']
  exact ⟨hb.pool, hb.locals, s₁.asm, hb.laid, hbranch⟩

end Labels

section Expressions

variable {σ : Names} {x y : Lower Unit} {c d : Fragment} {P Q : Prop}

/-- The code of a truth value: the condition with a jump past the value one, that value, a jump past
the value zero, and that value. -/
theorem truthValue_ok {b : Bool → Label → Lower Unit} {cond : Condition} {s s' : LowerState}
    (hb : LowersCondition σ b cond P) (hr : Ready σ s) (h : Lowering.truthValue b s = .ok () s') :
    ∃ s₁ s₂ s₃ s₄ s₅ : LowerState,
      b false s.asm.nextLabel { s with asm := s.asm.withLabel.withLabel } = .ok () s₁ ∧
      Builds s₁ (ofOp (.pushInt 1)) s₂ ∧
      (Event.branch .goto s.asm.withLabel.nextLabel).Happens s₂.asm s₃.asm ∧
      (Event.place s.asm.nextLabel).Happens s₃.asm s₄.asm ∧
      Builds s₄ (ofOp (.pushInt 0)) s₅ ∧
      (Event.place s.asm.withLabel.nextLabel).Happens s₅.asm s'.asm ∧
      s₂.pool.Grows s'.pool ∧ s₅.pool = s'.pool ∧ s'.locals = s₂.locals := by
  simp only [Lowering.truthValue, bind_ok] at h
  obtain ⟨l₁, s₁, h₁, l₂, s₂, h₂, _, s₃, h₃, _, s₄, h₄, _, s₅, h₅, _, s₆, h₆, _, s₇, h₇, h₈⟩ := h
  obtain ⟨rfl, rfl⟩ := newLabel_ok h₁
  obtain ⟨rfl, rfl⟩ := newLabel_ok h₂
  obtain ⟨hc, -⟩ := hb (hr.code _) h₃
  have ho := plain_builds .iconst_1 rfl rfl hc.pool.sound h₄
  obtain ⟨he₅, hs₅⟩ := branch_ok rfl h₅
  obtain ⟨he₆, hs₆⟩ := place_ok h₆
  have hp₆ : s₆.pool = s₄.pool := by rw [hs₆, hs₅]
  have hl₆ : s₆.locals = s₄.locals := by rw [hs₆, hs₅]
  have hz := plain_builds .iconst_0 rfl rfl (by rw [hp₆]; exact ho.pool.sound) h₇
  obtain ⟨he₈, hs₈⟩ := place_ok h₈
  have hz₆ : s₄.pool.Grows s₇.pool := hp₆ ▸ hz.pool
  refine ⟨s₃, s₄, s₅, s₆, s₇, h₃, ho, he₅, he₆, hz, he₈, ?_, ?_, ?_⟩
  · rw [hs₈]
    exact hz₆
  · rw [hs₈]
  · rw [hs₈]
    exact hz.locals.trans hl₆

theorem truthValue_lowers {b : Bool → Label → Lower Unit} {cond : Condition}
    (hb : LowersCondition σ b cond P) : Lowers σ (Lowering.truthValue b) (.truth cond) P := by
  intro s s' hr h
  obtain ⟨s₁, s₂, s₃, s₄, s₅, h₁, hone, hjump, hplace, hzero, hend, hpool, hlast, hlocals⟩ :=
    truthValue_ok hb hr h
  obtain ⟨hc, hP⟩ := hb (hr.code _) h₁
  have hle := ConstantPool.le_trans hone.pool.le hpool.le
  refine ⟨⟨hc.pool.trans (hone.pool.trans hpool), ?_, s₁.asm, s₂.asm, s₃.asm, s₄.asm, s₅.asm,
    Condition.Laid.mono hle cond hc.laid, Operation.Laid.mono hpool.le hone.laid, hjump, hplace, ?_,
    hend⟩, hP⟩
  · rw [hlocals, hone.locals, hc.locals]
  · rw [← hlast]
    exact hzero.laid

theorem testValue_lowers {e : Expr} (hx : Lowers σ x c P) :
    LowersCondition σ (Lowering.testValue e x) (nonzero e.ty c) (P ∧ e.ty.IsNumber) := by
  intro jumpIf target s s' hr h
  simp only [Lowering.testValue, bind_ok] at h
  obtain ⟨kind, s₁, h₁, h⟩ := h
  obtain ⟨hkind, rfl⟩ := Lower.valueKind_ok.1 h₁
  have hop : (if jumpIf then Opcode.ifne else .ifeq) = (Test.zero .ne).opcode jumpIf := by
    cases jumpIf <;> rfl
  rw [hop] at h
  unfold nonzero DataType.isLong
  rw [hkind]
  cases kind with
  | int =>
    simp only [bind_ok] at h
    obtain ⟨_, s₂, h₂, h₃⟩ := h
    obtain ⟨hb, hP⟩ := hx hr h₂
    exact ⟨hb.test h₃, hP, .inl hkind⟩
  | long =>
    simp only [bind_ok] at h
    obtain ⟨_, s₂, h₂, _, s₃, h₃, _, s₄, h₄, h₅⟩ := h
    obtain ⟨hb, hP⟩ := hx hr h₂
    have hb₃ := plain_builds .lconst_0 rfl rfl hb.pool.sound h₃
    have hb₄ := plain_builds .lcmp rfl rfl hb₃.pool.sound h₄
    exact ⟨(hb.seq (hb₃.seq hb₄)).test h₅, hP, .inr hkind⟩
  | reference =>
    obtain ⟨_, _, h₂, -⟩ := bind_ok.1 h
    exact absurd h₂ Lower.refuse_ok.1

theorem valueAs_lowers {e : Expr} {ty : DataType} (hx : Lowers σ x c P) :
    Lowers σ (valueAs e x ty) (.seq c (conversion e.ty ty)) (P ∧ e.ty.Passes ty) := by
  intro s s' hr h
  simp only [valueAs, bind_ok, ite_ok, Lower.refuse_ok, false_and, exists_false, and_false,
    false_or] at h
  obtain ⟨k', s₁, h₁, k, s₂, h₂, hsame, _, s₃, h₃, h₄⟩ := h
  obtain ⟨hk', rfl⟩ := Lower.valueKind_ok.1 h₁
  obtain ⟨hk, rfl⟩ := Lower.valueKind_ok.1 h₂
  obtain ⟨hb, hP⟩ := hx hr h₃
  refine ⟨hb.seq (convert_builds hb.pool.sound h₄), hP, k, k', hk, hk', ?_⟩
  cases k <;> cases k' <;> simp_all

theorem numberAs_lowers {e : Expr} {kind : Kind} (hx : Lowers σ x c P) :
    Lowers σ (numberAs e x kind) (.seq c (widening e.ty kind)) (P ∧ e.ty.kind?.isSome) := by
  intro s s' hr h
  simp only [numberAs, bind_ok] at h
  obtain ⟨_, s₁, h₁, h₂⟩ := h
  obtain ⟨hb, hP⟩ := hx hr h₁
  refine ⟨hb.seq (widen_builds hb.pool.sound h₂), hP, ?_⟩
  simp only [widen, bind_ok] at h₂
  obtain ⟨k, _, hk, -⟩ := h₂
  simp [(Lower.valueKind_ok.1 hk).1]

theorem compareNumbers_lowers {op : Comparison} {lhs rhs : Expr} {long : Bool}
    (hx : Lowers σ x c P) (hy : Lowers σ y d Q) :
    LowersCondition σ (compareNumbers op lhs rhs x y long)
      (compareCondition op lhs.ty rhs.ty c d long) (P ∧ Q) := by
  intro jumpIf target s s' hr h
  unfold compareNumbers at h
  obtain ⟨_, s₁, h₁, h⟩ := bind_ok.1 h
  obtain ⟨_, s₂, h₂, h⟩ := bind_ok.1 h
  obtain ⟨hb₁, hP, -⟩ := numberAs_lowers hx hr h₁
  obtain ⟨hb₂, hQ, -⟩ := numberAs_lowers hy (hb₁.ready hr) h₂
  have hb := hb₁.seq hb₂
  refine ⟨?_, hP, hQ⟩
  unfold compareCondition
  cases long <;>
    cases hu : (lhs.ty.needsUnsignedOps || rhs.ty.needsUnsignedOps) && op.isOrdered <;>
    rw [hu] at h <;> dsimp only at h ⊢
  · exact hb.test (t := .ints op) h
  · obtain ⟨_, s₃, h₃, h₄⟩ := bind_ok.1 h
    have hb₃ := invokeStatic_builds [.int, .int] (some .int) hb.pool.sound
      rfl rfl h₃
    exact (hb.seq hb₃).test (t := .zero op) h₄
  · obtain ⟨_, s₃, h₃, h₄⟩ := bind_ok.1 h
    have hb₃ := plain_builds .lcmp rfl rfl hb.pool.sound h₃
    exact (hb.seq hb₃).test (t := .zero op) h₄
  · obtain ⟨_, s₃, h₃, h₄⟩ := bind_ok.1 h
    have hb₃ := invokeStatic_builds [.long, .long] (some .int) hb.pool.sound
      rfl rfl h₃
    exact (hb.seq hb₃).test (t := .zero op) h₄

theorem compareBranch_lowers {op : Comparison} {whole lhs rhs : Expr} (hx : Lowers σ x c P)
    (hy : Lowers σ y d Q) :
    LowersCondition σ (compareBranch op whole lhs rhs x y) (comparison op lhs.ty rhs.ty c d)
      (((lhs.ty.kind? = some .reference ∧ rhs.ty.kind? = some .reference ∧ op.isOrdered = false) ∨
        (lhs.ty.IsNumber ∧ rhs.ty.IsNumber)) ∧ P ∧ Q) := by
  intro jumpIf target s s' hr h
  simp only [compareBranch, bind_ok] at h
  obtain ⟨k, s₁, h₁, k', s₂, h₂, h⟩ := h
  obtain ⟨hk, rfl⟩ := Lower.valueKind_ok.1 h₁
  obtain ⟨hk', rfl⟩ := Lower.valueKind_ok.1 h₂
  -- all pairs of numbers go the same way
  have hnumbers (hne : k ≠ .reference) (hne' : k' ≠ .reference)
      (h : compareNumbers op lhs rhs x y (k == .long || k' == .long) jumpIf target s =
        .ok () s') :
      BuildsCondition s (comparison op lhs.ty rhs.ty c d) jumpIf target s' ∧
        ((lhs.ty.kind? = some .reference ∧ rhs.ty.kind? = some .reference ∧
          op.isOrdered = false) ∨ (lhs.ty.IsNumber ∧ rhs.ty.IsNumber)) ∧ P ∧ Q := by
    have hlong : (lhs.ty.isLong || rhs.ty.isLong) = (k == .long || k' == .long) := by
      unfold DataType.isLong
      rw [hk, hk']
      rfl
    rw [comparison, if_neg (by simp [hk, hne]), hlong]
    obtain ⟨hb, hP, hQ⟩ := compareNumbers_lowers hx hy hr h
    refine ⟨hb, .inr ⟨?_, ?_⟩, hP, hQ⟩
    · unfold DataType.IsNumber
      cases k <;> simp_all
    · unfold DataType.IsNumber
      cases k' <;> simp_all
  cases k with
  | reference =>
    cases k' with
    | reference =>
      simp only [bind_ok, ite_ok, Lower.refuse_ok, false_and, exists_false, and_false,
        false_or] at h
      obtain ⟨hordered, _, s₁, h₁, _, s₃, h₃, h₄⟩ := h
      obtain ⟨hb₁, hP⟩ := hx hr h₁
      obtain ⟨hb₃, hQ⟩ := hy (hb₁.ready hr) h₃
      rw [comparison, if_pos ⟨hk, hk'⟩]
      exact ⟨(hb₁.seq hb₃).test (t := .refs (op == .eq)) h₄,
        .inl ⟨hk, hk', by simpa using hordered⟩, hP, hQ⟩
    | int => exact absurd h Lower.refuse_ok.1
    | long => exact absurd h Lower.refuse_ok.1
  | int =>
    cases k' with
    | reference => exact absurd h Lower.refuse_ok.1
    | int => exact hnumbers nofun nofun h
    | long => exact hnumbers nofun nofun h
  | long =>
    cases k' with
    | reference => exact absurd h Lower.refuse_ok.1
    | int => exact hnumbers nofun nofun h
    | long => exact hnumbers nofun nofun h

theorem logicBranch_lowers {op : Connective} {b b' : Bool → Label → Lower Unit}
    {t t' : Condition} (hb : LowersCondition σ b t P) (hb' : LowersCondition σ b' t' Q) :
    LowersCondition σ (logicBranch op b b') (.logic op t t') (P ∧ Q) := by
  intro jumpIf target s s' hr h
  simp only [logicBranch, ite_ok, bind_ok, beq_iff_eq] at h
  rcases h with ⟨hd, _, s₁, h₁, h₂⟩ | ⟨hd, l, s₁, h₁, _, s₂, h₂, _, s₃, h₃, h₄⟩
  · obtain ⟨hc₁, hP⟩ := hb hr h₁
    obtain ⟨hc₂, hQ⟩ := hb' (hc₁.ready hr) h₂
    refine ⟨⟨hc₁.pool.trans hc₂.pool, hc₂.locals.trans hc₁.locals, ?_⟩, hP, hQ⟩
    rw [Condition.Laid, if_pos hd]
    exact ⟨s₁.asm, Condition.Laid.mono hc₂.pool.le t hc₁.laid, hc₂.laid⟩
  · obtain ⟨rfl, rfl⟩ := newLabel_ok h₁
    obtain ⟨hc₁, hP⟩ := hb (hr.code _) h₂
    obtain ⟨hc₂, hQ⟩ := hb' (hc₁.ready (hr.code _)) h₃
    obtain ⟨he, hs'⟩ := place_ok h₄
    rw [hs']
    refine ⟨⟨hc₁.pool.trans hc₂.pool, hc₂.locals.trans hc₁.locals, ?_⟩, hP, hQ⟩
    rw [Condition.Laid, if_neg hd]
    exact ⟨s₂.asm, s₃.asm, Condition.Laid.mono hc₂.pool.le t hc₁.laid, hc₂.laid, he⟩

theorem numberKind_ok {s s' : LowerState} {ty : DataType} {whole : Expr} {kind : Kind}
    (h : numberKind ty whole s = .ok kind s') :
    s = s' ∧ ty.IsNumber ∧ kind = ty.numberKind ∧ (kind == .long) = ty.isLong := by
  simp only [numberKind, bind_ok] at h
  obtain ⟨k, s₁, h₁, h⟩ := h
  obtain ⟨hk, rfl⟩ := Lower.valueKind_ok.1 h₁
  unfold DataType.IsNumber DataType.numberKind DataType.isLong
  cases k with
  | reference => exact absurd h Lower.refuse_ok.1
  | int =>
    obtain ⟨rfl, rfl⟩ := pure_ok.1 h
    simp [hk]
  | long =>
    obtain ⟨rfl, rfl⟩ := pure_ok.1 h
    simp [hk]

theorem Arith.plainOp?_opcode (op : Arith) (long unsigned : Bool) :
    ∃ fop, (op.opcode long unsigned).plainOp? = some fop ∧ fop.kinds?.isSome := by
  cases op <;> cases long <;> cases unsigned <;> exact ⟨_, rfl, rfl⟩

theorem plainFragment_builds {s s' : LowerState} {op : Opcode}
    (hop : ∃ fop, op.plainOp? = some fop ∧ fop.kinds?.isSome) (hs : s.pool.Sound)
    (h : Lower.plain op s = .ok () s') : Builds s (.plain op) s' := by
  obtain ⟨fop, hfop, hk⟩ := hop
  rw [Fragment.plain, hfop]
  exact plain_builds _ hfop hk hs h

theorem applyArith_builds {s s' : LowerState} {op : Arith} {ty : DataType} (hs : s.pool.Sound)
    (h : applyArith op ty ty.isLong s = .ok () s') : Builds s (op.fragment ty) s' := by
  have hplain : Lower.plain (op.opcode ty.isLong ty.isUnsigned) s = .ok () s' →
      Builds s (.plain (op.opcode ty.isLong ty.isUnsigned)) s' :=
    plainFragment_builds (op.plainOp?_opcode _ _) hs
  unfold applyArith at h
  unfold Arith.fragment
  cases hm : op.unsignedMethod? with
  | none =>
    rw [hm] at h
    exact hplain h
  | some name =>
    rw [hm] at h
    dsimp only at h ⊢
    split at h <;> rename_i hu
    · rw [if_pos hu]
      split at h <;> rename_i hl
      · rw [if_pos hl]
        exact invokeStatic_builds _ _ hs rfl rfl h
      · rw [if_neg hl]
        exact invokeStatic_builds _ _ hs rfl rfl h
    · rw [if_neg hu]
      exact hplain h

theorem arithValue_lowers {op : Arith} {whole lhs rhs : Expr} {ty : DataType}
    (hx : Lowers σ x c P) (hy : Lowers σ y d Q) :
    Lowers σ (arithValue op whole lhs rhs ty x y) (arithmetic op lhs.ty rhs.ty ty c d)
      (ty.IsNumber ∧ lhs.ty.IsNumber ∧ rhs.ty.IsNumber ∧ P ∧ Q) := by
  intro s s' hr h
  simp only [arithValue, bind_ok] at h
  obtain ⟨k, s₁, h₁, _, s₂, h₂, _, s₃, h₃, _, s₄, h₄, _, s₅, h₅, _, s₆, h₆, h₇⟩ := h
  obtain ⟨rfl, hty, rfl, hlong⟩ := numberKind_ok h₁
  obtain ⟨rfl, hlhs, -, -⟩ := numberKind_ok h₂
  obtain ⟨rfl, hrhs, -, -⟩ := numberKind_ok h₃
  rw [hlong] at h₆
  obtain ⟨hb₄, hP, -⟩ := numberAs_lowers hx hr h₄
  obtain ⟨hb₅, hQ, -⟩ := numberAs_lowers hy (hb₄.ready hr) h₅
  have hb₆ := applyArith_builds hb₅.pool.sound h₆
  have hb₇ := narrow_builds hb₆.pool.sound h₇
  exact ⟨hb₄.seq (hb₅.seq (hb₆.seq hb₇)), hty, hlhs, hrhs, hP, hQ⟩

theorem unaryValue_lowers {op : UnaryArith} {whole operand : Expr} {ty : DataType}
    (hx : Lowers σ x c P) :
    Lowers σ (unaryValue op whole operand ty x) (unary op operand.ty ty c)
      (ty.IsNumber ∧ operand.ty.kind?.isSome ∧ P) := by
  intro s s' hr h
  simp only [unaryValue, bind_ok] at h
  obtain ⟨k, s₁, h₁, _, s₂, h₂, h⟩ := h
  obtain ⟨rfl, hty, hk, hlong⟩ := numberKind_ok h₁
  rw [hk] at h₂
  obtain ⟨hb, hP, hsome⟩ := numberAs_lowers hx hr h₂
  have hop : ∃ s₃, Builds s₂ (op.fragment ty) s₃ ∧ narrow ty s₃ = .ok () s' := by
    unfold UnaryArith.fragment
    rw [← hlong]
    have hs₂ := hb.pool.sound
    split at h
    · simp only [bind_ok] at h
      obtain ⟨_, s₃, h₃, h₄⟩ := h
      exact ⟨s₃, plain_builds .lneg rfl rfl hs₂ h₃, h₄⟩
    · rename_i hne
      simp only [bind_ok] at h
      obtain ⟨_, s₃, h₃, h₄⟩ := h
      have hfalse : (k == Kind.long) = false := by simpa using hne
      simp only [hfalse, Bool.false_eq_true, if_false]
      exact ⟨s₃, plain_builds .ineg rfl rfl hs₂ h₃, h₄⟩
    · simp only [bind_ok] at h
      obtain ⟨_, s₃, h₃, _, s₄, h₄, h₅⟩ := h
      have hb₃ := pushLong_builds hs₂ h₃
      exact ⟨s₄, hb₃.seq (plain_builds .lxor rfl rfl hb₃.pool.sound h₄), h₅⟩
    · rename_i hne
      simp only [bind_ok] at h
      obtain ⟨_, s₃, h₃, _, s₄, h₄, h₅⟩ := h
      have hfalse : (k == Kind.long) = false := by simpa using hne
      simp only [hfalse, Bool.false_eq_true, if_false]
      have hb₃ := plain_builds .iconst_m1 rfl rfl hs₂ h₃
      exact ⟨s₄, hb₃.seq (plain_builds .ixor rfl rfl hb₃.pool.sound h₄), h₅⟩
  obtain ⟨s₃, hb₃, h₃⟩ := hop
  exact ⟨hb.seq (hb₃.seq (narrow_builds hb₃.pool.sound h₃)), hty, hsome, hP⟩

theorem identValue_lowers {name : String} {ty : DataType} :
    Lowers σ (identValue name ty) (σ.load name)
      (∃ slot kind, σ.look name = some slot ∧ slot.ty.kind? = some kind ∧
        ty.kind? = some kind) := by
  intro s s' hr h
  simp only [identValue, bind_ok, ite_ok, Lower.refuse_ok, false_and, exists_false, and_false,
    false_or] at h
  obtain ⟨slot, s₁, h₁, kind, s₂, h₂, hty, h₃⟩ := h
  obtain ⟨hslot, rfl⟩ := Lower.resolve_ok.1 h₁
  obtain ⟨hkind, rfl⟩ := Lower.valueKind_ok.1 h₂
  have hlook := hr.names name slot hslot
  have hb := load_builds hr.sound h₃
  refine ⟨?_, slot, kind, hlook, hkind, Classical.not_not.1 hty⟩
  simpa [Names.load, hlook, hkind] using hb

theorem literalValue_lowers {value : Int64} {ty : DataType} :
    Lowers σ (literalValue value ty) (literal value ty) ty.IsNumber := by
  intro s s' hr h
  unfold literalValue at h
  obtain ⟨kind, s₁, h₁, h⟩ := bind_ok.1 h
  obtain ⟨hkind, rfl⟩ := Lower.valueKind_ok.1 h₁
  unfold literal DataType.isLong DataType.IsNumber
  rw [hkind]
  cases kind with
  | int =>
    rcases ite_ok.1 h with ⟨-, h⟩ | ⟨-, h⟩
    · exact ⟨pushInt_builds hr.sound h, .inl rfl⟩
    · exact absurd h Lower.refuse_ok.1
  | long => exact ⟨pushLong_builds hr.sound h, .inr rfl⟩
  | reference => exact absurd h Lower.refuse_ok.1

theorem charValue_lowers {c : Char} :
    Lowers σ (charValue c) (ofOp (.pushInt (Int32.ofNat c.toNat))) (c.toNat ≤ 0xffff) := by
  intro s s' hr h
  rcases ite_ok.1 h with ⟨hc, h⟩ | ⟨-, h⟩
  · exact ⟨pushInt_builds hr.sound h, hc⟩
  · exact absurd h Lower.refuse_ok.1

theorem stringValue_lowers {text : String} : Lowers σ (stringValue text) (.op (.text text)) True := by
  intro s s' hr h
  refine ⟨interned_builds (PoolBuilder.internString_sound hr.sound) ?_ h, trivial⟩
  rintro i s₁ hs₁ ⟨n, hi, hn⟩ h₁
  exact constant_builds hs₁ hi (.inr rfl) (fun _ ha => ⟨i, n, ha, hi, hn⟩) rfl rfl h₁

/-! ### Calls -/

theorem DataType.width_eq (ty : DataType) : ty.width = Kind.wordsOf ty.kind?.toList := by
  unfold width
  cases ty.kind? <;> simp [Kind.wordsOf]

theorem foldl_width_eq (tys : List DataType) (n : Nat) :
    tys.foldl (fun n ty => n + ty.width) n =
      n + Kind.wordsOf (tys.filterMap DataType.kind?) := by
  induction tys generalizing n with
  | nil => simp [Kind.wordsOf]
  | cons ty tys ih =>
    rw [List.foldl_cons, ih, DataType.width_eq]
    cases hk : ty.kind? <;> simp [hk, Kind.wordsOf, Nat.add_assoc]

theorem Callable.argWords_eq (c : Callable) : c.argWords = Kind.wordsOf c.argKinds := by
  have hentry : Kind.wordsOf (if c.entryPoint then [.reference] else []) =
      if c.entryPoint then 1 else 0 := by
    split <;> rfl
  rw [argWords, foldl_width_eq, argKinds, Kind.wordsOf_append, hentry, passed, Nat.zero_add, Nat.add_comm]

/-- An argument of a lowering and its structured code. -/
def ArgumentLowers (σ : Names) (a : Argument) (p : Passed) : Prop :=
  a.expr = p.expr ∧ Lowers σ a.value p.code (p.expr.Checked σ)

theorem pushArguments_lowers {as : List (Argument × DataType)} {ps : List (Passed × DataType)}
    (h : List.Forall₂ (fun a p => ArgumentLowers σ a.1 p.1 ∧ a.2 = p.2) as ps) :
    Lowers σ (pushArguments as) (passArguments ps)
      (∀ p ∈ ps, p.1.expr.Checked σ ∧ p.1.expr.ty.Passes p.2) := by
  induction h with
  | nil =>
    intro s s' hr h
    obtain ⟨-, rfl⟩ := pure_ok.1 h
    exact ⟨.nil hr.sound, by simp⟩
  | @cons a p as ps hap _ ih =>
    intro s s' hr h
    obtain ⟨⟨hexpr, hlower⟩, hty⟩ := hap
    obtain ⟨a, ty⟩ := a
    obtain ⟨p, ty'⟩ := p
    dsimp only at hexpr hlower hty
    subst hty
    simp only [pushArguments, bind_ok] at h
    obtain ⟨_, s₁, h₁, h₂⟩ := h
    rw [hexpr] at h₁
    obtain ⟨hb₁, hc, hpass⟩ := valueAs_lowers hlower hr h₁
    obtain ⟨hb₂, hrest⟩ := ih (hb₁.ready hr) h₂
    refine ⟨hb₁.seq hb₂, fun q hq => ?_⟩
    rcases List.mem_cons.1 hq with rfl | hq
    · exact ⟨hc, hpass⟩
    · exact hrest q hq

/-- The rest of a call after its receiver. -/
theorem finishCall_lowers {callee : Callable} {as : List (Argument × DataType)}
    {ps : List (Passed × DataType)} {s s' : LowerState} {ty : DataType} (hr : Ready σ s)
    (hmem : callee ∈ σ.scope.table.entries)
    (hargs : List.Forall₂ (fun a p => ArgumentLowers σ a.1 p.1 ∧ a.2 = p.2) as ps)
    (h : (do
      if callee.entryPoint then Lower.plain .aconst_null
      pushArguments as
      let index ← match callee.methodRef with
        | some index => pure index
        | none => Lower.pool (PoolBuilder.internMethod callee.member)
      Lower.code (Asm.invoke callee.mode.opcode index callee.argWords callee.returnWords)
      return callee.returnType : Lower DataType) s = .ok ty s') :
    Builds s (finishCall callee ps) s' ∧ ty = callee.returnType ∧
      ∀ p ∈ ps, p.1.expr.Checked σ ∧ p.1.expr.ty.Passes p.2 := by
  have hhidden : ∃ s₁, Builds s callee.hidden s₁ ∧ (do
      pushArguments as
      let index ← match callee.methodRef with
        | some index => pure index
        | none => Lower.pool (PoolBuilder.internMethod callee.member)
      Lower.code (Asm.invoke callee.mode.opcode index callee.argWords callee.returnWords)
      return callee.returnType : Lower DataType) s₁ = .ok ty s' := by
    unfold Callable.hidden
    rcases ite_ok.1 h with ⟨hentry, h⟩ | ⟨hentry, h⟩
    · obtain ⟨_, s₁, h₁, h₂⟩ := bind_ok.1 h
      rw [if_pos hentry]
      exact ⟨s₁, plain_builds _ rfl rfl hr.sound h₁, h₂⟩
    · rw [if_neg hentry]
      exact ⟨s, .nil hr.sound, h⟩
  obtain ⟨s₁, hb₁, h⟩ := hhidden
  have hr₁ := hb₁.ready hr
  obtain ⟨_, s₂, h₂, h⟩ := bind_ok.1 h
  obtain ⟨hb₂, hchecks⟩ := pushArguments_lowers hargs hr₁ h₂
  have hr₂ := hb₂.ready hr₁
  have hindex : ∃ index p, s₂.pool.Grows p ∧ p.pool.member? index = some callee.member ∧
      (∃ cls sig, p.pool.get? index = some (.methodRef cls sig)) ∧ (do
        Lower.code (Asm.invoke callee.mode.opcode index callee.argWords callee.returnWords)
        return callee.returnType : Lower DataType) { s₂ with pool := p } = .ok ty s' := by
    cases hm : callee.methodRef with
    | some i =>
      rw [hm] at h
      obtain ⟨hmember, href⟩ := hr₂.refs callee hmem i hm
      exact ⟨i, s₂.pool, .refl hr₂.sound, hmember, href, h⟩
    | none =>
      rw [hm] at h
      obtain ⟨i, s₃, h₃, h⟩ := bind_ok.1 h
      obtain ⟨p, hp, rfl⟩ := Lower.pool_ok.1 h₃
      obtain ⟨hg, hmember, href⟩ := PoolBuilder.internMethod_sound hr₂.sound hp
      exact ⟨i, p, hg, hmember, href, h⟩
  obtain ⟨index, p, hgrows, hm, hr₃, h⟩ := hindex
  obtain ⟨_, s₄, h₄, h₅⟩ := bind_ok.1 h
  obtain ⟨rfl, rfl⟩ := pure_ok.1 h₅
  have hb₄ := invoke_builds _ callee.argKinds callee.returnType.kind?
    hgrows.sound hm hr₃ callee.argWords_eq (DataType.width_eq _) h₄
  exact ⟨hb₁.seq (hb₂.seq (.of_pool hgrows hb₄)), rfl, hchecks⟩

section Calls

variable {as : List Argument} {ps : List Passed} {s s' : LowerState}

theorem map_ty_eq (h : List.Forall₂ (ArgumentLowers σ) as ps) :
    as.map (·.expr.ty) = ps.map (·.expr.ty) := by
  induction h with
  | nil => rfl
  | cons hap _ ih => simp [hap.1, ih]

theorem zip_params (h : List.Forall₂ (ArgumentLowers σ) as ps) (tys : List DataType) :
    List.Forall₂ (fun a p => ArgumentLowers σ a.1 p.1 ∧ a.2 = p.2) (as.zip tys) (ps.zip tys) := by
  induction h generalizing tys with
  | nil => simp
  | cons hap _ ih =>
    cases tys with
    | nil => simp
    | cons ty tys => exact .cons ⟨hap, rfl⟩ (ih tys)

theorem allChecked_iff (es : List Expr) : Expr.AllChecked σ es ↔ ∀ e ∈ es, e.Checked σ := by
  induction es with
  | nil => simp [Expr.AllChecked]
  | cons e es ih => simp [Expr.AllChecked, ih]

/-- What pushing the receiver of a call does. The arguments `rest` remain to be passed, and their
code completes the code of the call. -/
structure PushesReceiver (σ : Names) (callee : Callable) (ps rest : List (Passed × DataType))
    (s s₁ : LowerState) : Prop where
  ready : Ready σ s₁
  builds : ∀ {s'}, Builds s₁ (finishCall callee rest) s' → Builds s (callFragment callee ps) s'
  checked : ∀ p ∈ ps, p ∈ rest ∨ (p.1.expr.Checked σ ∧ p.1.expr.ty.Passes p.2)
  this : callee.receiver = .this → σ.scope.function.isStatic = false
  first : callee.receiver = .firstArg → ps ≠ []

/-- Only a call on its first argument takes an argument away. -/
theorem pushReceiver_lowers {callee : Callable} {as rest : List (Argument × DataType)}
    {ps : List (Passed × DataType)} {op : Opcode} {s s₁ : LowerState} (hr : Ready σ s)
    (hargs : List.Forall₂ (fun a p => ArgumentLowers σ a.1 p.1 ∧ a.2 = p.2) as ps)
    (h : pushReceiver σ.scope callee as s = .ok (op, rest) s₁) :
    op = callee.mode.opcode ∧ ∃ qs,
      List.Forall₂ (fun a p => ArgumentLowers σ a.1 p.1 ∧ a.2 = p.2) rest qs ∧
        PushesReceiver σ callee ps qs s s₁ := by
  unfold pushReceiver at h
  cases hrec : callee.receiver with
  | none =>
    rw [hrec] at h
    obtain ⟨heq, rfl⟩ := pure_ok.1 h
    obtain ⟨rfl, rfl⟩ := Prod.mk.inj heq
    refine ⟨by simp [Callable.mode, hrec, CallMode.opcode], ps, hargs, hr, fun hb => ?_,
      fun p hp => .inl hp, by simp [hrec], by simp [hrec]⟩
    simpa only [callFragment, hrec] using hb
  | this =>
    rw [hrec] at h
    simp only [bind_ok, ite_ok, Lower.refuse_ok, false_and, exists_false, and_false,
      false_or] at h
    obtain ⟨hstatic, _, s₂, hload, hret⟩ := h
    obtain ⟨heq, rfl⟩ := pure_ok.1 hret
    obtain ⟨rfl, rfl⟩ := Prod.mk.inj heq
    have hb₁ := load_builds hr.sound hload
    refine ⟨?_, ps, hargs, hb₁.ready hr, fun hb => ?_, fun p hp => .inl hp,
      fun _ => by simpa using hstatic, by simp [hrec]⟩
    · simp only [Callable.mode, hrec]
      split <;> rfl
    · simpa only [callFragment, hrec] using hb₁.seq hb
  | firstArg =>
    rw [hrec] at h
    cases hargs with
    | nil => exact absurd h Lower.refuse_ok.1
    | @cons a p as ps hap hargs =>
      obtain ⟨a, ty⟩ := a
      obtain ⟨p, ty'⟩ := p
      obtain ⟨⟨hexpr, hlower⟩, hty⟩ := hap
      dsimp only at hexpr hlower hty
      subst hty
      obtain ⟨_, s₂, hvalue, hret⟩ := bind_ok.1 h
      obtain ⟨heq, rfl⟩ := pure_ok.1 hret
      obtain ⟨rfl, rfl⟩ := Prod.mk.inj heq
      rw [hexpr] at hvalue
      obtain ⟨hb₁, hchecked, hpasses⟩ := valueAs_lowers hlower hr hvalue
      refine ⟨by simp [Callable.mode, hrec, CallMode.opcode], ps, hargs, hb₁.ready hr,
        fun hb => ?_, fun q hq => ?_, by simp [hrec], by simp⟩
      · simpa only [callFragment, hrec] using hb₁.seq hb
      · rcases List.mem_cons.1 hq with rfl | hq
        · exact .inr ⟨hchecked, hpasses⟩
        · exact .inl hq
  | staticField field =>
    rw [hrec] at h
    simp only [bind_ok] at h
    obtain ⟨index, s₂, hpool, _, s₃, hget, hret⟩ := h
    obtain ⟨heq, rfl⟩ := pure_ok.1 hret
    obtain ⟨rfl, rfl⟩ := Prod.mk.inj heq
    have hb₁ : Builds s (.op (.field field)) s₃ :=
      field_builds (u := ()) hr.sound (bind_ok.2 ⟨index, s₂, hpool, hget⟩)
    refine ⟨by simp [Callable.mode, hrec, CallMode.opcode], ps, hargs, hb₁.ready hr,
      fun hb => ?_, fun p hp => .inl hp, by simp [hrec], by simp [hrec]⟩
    simpa only [callFragment, hrec] using hb₁.seq hb

theorem callFunction_lowers {name : String} {ty : DataType}
    (hargs : List.Forall₂ (ArgumentLowers σ) as ps) (hr : Ready σ s)
    (h : callFunction σ.scope name as s = .ok ty s') :
    Builds s (σ.call none name ps ty) s' ∧
      ty = σ.returned none name (ps.map (·.expr.ty)) ty ∧
      (∃ callee, σ.CallsFunction name (ps.map (·.expr)) callee) ∧
      Expr.AllChecked σ (ps.map (·.expr)) := by
  unfold callFunction at h
  obtain ⟨⟨i, callee⟩, s₁, h₁, h⟩ := bind_ok.1 h
  obtain ⟨hresolve, rfl⟩ := Lower.check_ok.1 h₁
  dsimp only at h
  rw [map_ty_eq hargs] at hresolve
  have hcallee : σ.callee? name (ps.map (·.expr.ty)) = some callee := by
    rw [Names.callee?, hresolve]
  obtain ⟨⟨op, rest⟩, s₁, h₁, h⟩ := bind_ok.1 h
  obtain ⟨rfl, qs, hqs, hpush⟩ := pushReceiver_lowers hr (zip_params hargs callee.params) h₁
  obtain ⟨hb, hty, hpassed⟩ :=
    finishCall_lowers hpush.ready (CallTable.mem_of_resolve hresolve) hqs h
  have hchecks : ∀ p ∈ ps.zip callee.params, p.1.expr.Checked σ ∧ p.1.expr.ty.Passes p.2 :=
    fun p hp => (hpush.checked p hp).elim (hpassed p) id
  refine ⟨?_, ?_, ⟨callee, ⟨i, by rw [List.map_map]; exact hresolve⟩, ?_, hpush.this, ?_⟩, ?_⟩
  · simpa only [Names.call, hcallee] using hpush.builds hb
  · simpa only [Names.returned, hcallee] using hty
  · intro q hq
    rw [List.zip_map_left] at hq
    obtain ⟨p, hp, rfl⟩ := List.mem_map.1 hq
    exact (hchecks p hp).2
  · intro hrec hnil
    rw [List.zip_map_left, List.map_eq_nil_iff] at hnil
    exact hpush.first hrec hnil
  · -- a resolved callee has a parameter for each argument, so that the zip drops none
    rw [allChecked_iff]
    intro e he
    obtain ⟨p, hp, rfl⟩ := List.mem_map.1 he
    have hfst : (ps.zip callee.params).map Prod.fst = ps :=
      List.map_fst_zip (by rw [CallTable.length_params_of_resolve hresolve]; simp)
    rw [← hfst] at hp
    obtain ⟨q, hq, rfl⟩ := List.mem_map.1 hp
    exact (hchecks q hq).1

theorem pushPlainArguments_lowers (hargs : List.Forall₂ (ArgumentLowers σ) as ps) {n m : Nat}
    (hr : Ready σ s) (h : pushPlainArguments as n s = .ok m s') :
    Builds s (plainArguments ps) s' ∧ m = n + Kind.wordsOf (ps.filterMap (·.expr.ty.kind?)) ∧
      (∀ e ∈ ps.map (·.expr), e.ty.kind?.isSome) ∧ Expr.AllChecked σ (ps.map (·.expr)) := by
  induction hargs generalizing n s with
  | nil =>
    obtain ⟨rfl, rfl⟩ := pure_ok.1 h
    exact ⟨.nil hr.sound, rfl, by simp, trivial⟩
  | @cons a p as ps hap _ ih =>
    obtain ⟨hexpr, hlower⟩ := hap
    simp only [pushPlainArguments, bind_ok] at h
    obtain ⟨kind, s₁, h₁, _, s₂, h₂, h₃⟩ := h
    obtain ⟨hkind, rfl⟩ := Lower.valueKind_ok.1 h₁
    rw [hexpr] at hkind h₃
    obtain ⟨hb₂, hc⟩ := hlower hr h₂
    obtain ⟨hb₃, hm, hkinds, hcs⟩ := ih (hb₂.ready hr) h₃
    refine ⟨hb₂.seq hb₃, ?_, by simpa [hkind] using hkinds, hc, hcs⟩
    rw [hm, DataType.width_eq]
    simp [hkind, Kind.wordsOf, Nat.add_assoc]

theorem callObject_lowers {object name : String} {ty ty' : DataType}
    (hargs : List.Forall₂ (ArgumentLowers σ) as ps) (hr : Ready σ s)
    (h : callObject object name as ty s = .ok ty' s') :
    Builds s (σ.call (some object) name ps ty) s' ∧ ty' = ty ∧
      σ.CallsObject object (ps.map (·.expr)) ∧ Expr.AllChecked σ (ps.map (·.expr)) := by
  unfold callObject at h
  obtain ⟨slot, s₁, h₁, h⟩ := bind_ok.1 h
  obtain ⟨hslot, rfl⟩ := Lower.resolve_ok.1 h₁
  have hlook := hr.names object slot hslot
  cases hcls : slot.ty.className? with
  | none =>
    rw [hcls] at h
    exact absurd h Lower.refuse_ok.1
  | some cls =>
    rw [hcls] at h
    obtain ⟨_, s₁, h₁, h⟩ := bind_ok.1 h
    have hb₁ := load_builds hr.sound h₁
    obtain ⟨words, s₂, h₂, h⟩ := bind_ok.1 h
    obtain ⟨hb₂, hwords, hkinds, hcs⟩ := pushPlainArguments_lowers hargs (hb₁.ready hr) h₂
    obtain ⟨index, s₃, h₃, h⟩ := bind_ok.1 h
    obtain ⟨p, hp, rfl⟩ := Lower.pool_ok.1 h₃
    obtain ⟨hgrows, hm, href⟩ := PoolBuilder.internMethod_sound hb₂.pool.sound hp
    obtain ⟨_, s₄, h₄, h₅⟩ := bind_ok.1 h
    obtain ⟨rfl, rfl⟩ := pure_ok.1 h₅
    rw [map_ty_eq hargs] at hm
    have hb₄ := invoke_builds .virtual _ _ hgrows.sound hm href
      (hwords.trans (Nat.zero_add _)) (DataType.width_eq ty) h₄
    refine ⟨?_, rfl, ⟨⟨slot, cls, hlook, hcls⟩, hkinds⟩, hcs⟩
    simpa only [Names.call, hlook, hcls, objectFragment] using
      hb₁.seq (hb₂.seq (.of_pool hgrows hb₄))

theorem callAny_lowers {object : Option String} {name : String} {ty ty' : DataType}
    (hargs : List.Forall₂ (ArgumentLowers σ) as ps) (hr : Ready σ s)
    (h : callAny σ.scope object name as ty s = .ok ty' s') :
    Builds s (σ.call object name ps ty) s' ∧
      ty' = σ.returned object name (ps.map (·.expr.ty)) ty ∧
      σ.Calls object name (ps.map (·.expr)) ∧ Expr.AllChecked σ (ps.map (·.expr)) := by
  cases object with
  | some object => exact callObject_lowers hargs hr h
  | none => exact callFunction_lowers hargs hr h

theorem callValue_lowers {whole : Expr} {object : Option String} {name : String} {ty : DataType}
    (hargs : List.Forall₂ (ArgumentLowers σ) as ps) :
    Lowers σ (callValue σ.scope whole object name as ty) (σ.call object name ps ty)
      (σ.Calls object name (ps.map (·.expr)) ∧ Expr.AllChecked σ (ps.map (·.expr)) ∧
        ∃ kind, (σ.returned object name (ps.map (·.expr.ty)) ty).kind? = some kind ∧
          ty.kind? = some kind) := by
  intro s s' hr h
  unfold callValue at h
  obtain ⟨returned, s₁, h₁, h⟩ := bind_ok.1 h
  obtain ⟨hb, rfl, hcalls, hcs⟩ := callAny_lowers hargs hr h₁
  cases hk : (σ.returned object name (ps.map (·.expr.ty)) ty).kind? with
  | none =>
    rw [hk] at h
    exact absurd h Lower.refuse_ok.1
  | some kind =>
    rw [hk] at h
    rcases ite_ok.1 h with ⟨-, h⟩ | ⟨hty, h⟩
    · exact absurd h Lower.refuse_ok.1
    · obtain ⟨-, rfl⟩ := pure_ok.1 h
      exact ⟨hb, hcalls, hcs, kind, rfl, Classical.not_not.1 hty⟩

end Calls

/-- A lowering of an expression that lays out its structured code, both ways to use it. -/
structure LowersBoth (σ : Names) (e : Expr) (x : Lowering) : Prop where
  value : Lowers σ x.value (select σ e).value (e.Checked σ)
  branch : LowersCondition σ x.branch (select σ e).cond (e.Checked σ ∧ e.Testable)

theorem LowersBoth.ofValue {e : Expr} {ty : DataType} (hsel : select σ e = .ofValue ty c)
    (hty : e.ty = ty) (hx : Lowers σ x c (e.Checked σ)) : LowersBoth σ e (.ofValue e x) where
  value := by
    rw [hsel]
    exact hx
  branch := by
    rw [hsel]
    subst hty
    intro jumpIf target s s' hr h
    obtain ⟨hb, hc, hn⟩ := testValue_lowers hx hr h
    exact ⟨hb, hc, .inr hn⟩

theorem LowersBoth.ofBranch {e : Expr} {b : Bool → Label → Lower Unit} {cond : Condition}
    (hsel : select σ e = .ofCondition cond) (hcond : e.isCondition = true)
    (hb : LowersCondition σ b cond (e.Checked σ)) : LowersBoth σ e (.ofBranch b) where
  value := by
    rw [hsel]
    exact truthValue_lowers hb
  branch := by
    rw [hsel]
    intro jumpIf target s s' hr h
    obtain ⟨hc, hchecked⟩ := hb hr h
    exact ⟨hc, hchecked, .inl hcond⟩

mutual

/-- **The lowering of an expression lays out its structured code**. -/
theorem lower_lowers (σ : Names) (e : Expr) : LowersBoth σ e (lower σ.scope e) := by
  cases e with
  | ident name ty => exact .ofValue rfl rfl identValue_lowers
  | int value ty => exact .ofValue rfl rfl literalValue_lowers
  | char c => exact .ofValue rfl rfl charValue_lowers
  | str text => exact .ofValue rfl rfl stringValue_lowers
  | arith op lhs rhs ty =>
    exact .ofValue rfl rfl (arithValue_lowers (lower_lowers σ lhs).value (lower_lowers σ rhs).value)
  | compare op lhs rhs ty =>
    exact .ofBranch rfl rfl
      (compareBranch_lowers (lower_lowers σ lhs).value (lower_lowers σ rhs).value)
  | logic op lhs rhs ty =>
    refine .ofBranch rfl rfl fun hr h => ?_
    obtain ⟨hb, ⟨hl, htl⟩, hrhs, htr⟩ :=
      logicBranch_lowers (lower_lowers σ lhs).branch (lower_lowers σ rhs).branch hr h
    exact ⟨hb, htl, htr, hl, hrhs⟩
  | unary op operand ty =>
    exact .ofValue rfl rfl (unaryValue_lowers (lower_lowers σ operand).value)
  | not operand ty =>
    refine .ofBranch rfl rfl fun hr h => ?_
    obtain ⟨hb, hc, ht⟩ := (lower_lowers σ operand).branch hr h
    exact ⟨⟨hb.pool, hb.locals, hb.laid⟩, ht, hc⟩
  | call object name args ty =>
    refine .ofValue rfl rfl fun hr h => ?_
    obtain ⟨hb, hchecks⟩ := callValue_lowers (lowerArgs_lowers σ args) hr h
    exact ⟨hb, by simpa [Expr.Checked] using hchecks⟩

/-- The lowerings of arguments lay out their structured code. -/
theorem lowerArgs_lowers (σ : Names) (args : List Expr) :
    List.Forall₂ (ArgumentLowers σ) (lowerArgs σ.scope args) (selectArgs σ args) := by
  cases args with
  | nil => exact .nil
  | cons e rest => exact .cons ⟨rfl, (lower_lowers σ e).value⟩ (lowerArgs_lowers σ rest)

end

end Expressions

end ClassFoundry
