import ClassFoundry.Proofs.Locals
import ClassFoundry.Proofs.Structured.Expressions

/-!
# The layout of statements

Whatever the lowering of a function body emits is its structured code, laid out. Statements declare
variables as they go, so names are those that are declared in the end.

## Main definitions

* `Prepared`: the states in which a statement is lowered
* `Produces`: what is proved of the lowering of a statement

## Main results

* `lowerStmt_produces`, `lowerBlock_produces`: the lowering of a statement and of a block
* `lowerBody_produces`: the lowering of a function body
-/

namespace ClassFoundry

mutual

theorem ends_selectStmt (σ : Names) (s : Stmt) : (selectStmt σ s).ends = s.terminates := by
  cases s with
  | declare name ty init =>
    unfold selectStmt
    split <;> rfl
  | assign name value =>
    unfold selectStmt
    split
    · split <;> rfl
    · rfl
  | ret value => cases value <;> rfl
  | ifElse cond body orElse =>
    rw [selectStmt, Flow.ends, ends_selectBlock, ends_selectBlock, Stmt.terminates]
  | ifThen cond body => rfl
  | loop cond body => rfl
  | «break» => rfl
  | «continue» => rfl
  | call object name args ty => rfl

theorem ends_selectBlock (σ : Names) (block : List Stmt) :
    (selectBlock σ block).ends = blockTerminates block := by
  cases block with
  | nil => rfl
  | cons s rest =>
    unfold selectBlock blockTerminates
    split
    · rename_i hs
      rw [ends_selectStmt, hs, Bool.true_or]
    · rename_i hs
      rw [Flow.ends, ends_selectBlock, eq_false_of_ne_true hs, Bool.false_or]

end

theorem ends_selectBody (σ : Names) : (selectBody σ).ends = true := by
  unfold selectBody
  split
  · rename_i h
    rw [ends_selectBlock, h]
  · rfl

/-- Names refer to everything that is declared. -/
def Sees (look : String → Option Slot) (l : Locals) : Prop :=
  ∀ name slot, l.find? name = some slot → look name = some slot

/-- The states in which a statement is lowered: names refer to what is declared at the time. -/
def Prepared (scope : Scope) (s : LowerState) : Prop := Ready ⟨scope, s.locals.find?⟩ s

section Prepared

variable {scope : Scope} {s s' : LowerState} {look : String → Option Slot}

theorem Prepared.sees (h : Prepared scope s) (hl : Sees look s.locals) : Ready ⟨scope, look⟩ s :=
  ⟨h.sound, h.refs, hl⟩

theorem Prepared.grow (h : Prepared scope s) (hp : s.pool.Grows s'.pool) : Prepared scope s' :=
  have hg : Ready ⟨scope, s.locals.find?⟩ { s with pool := s'.pool } := Ready.grow h hp rfl
  ⟨hg.sound, hg.refs, fun _ _ h => h⟩

theorem Prepared.code (h : Prepared scope s) (a : Assembler) :
    Prepared scope { s with asm := a } :=
  Ready.code h a

end Prepared

/-- **What the lowering of a statement does**: whichever names see the variables declared in the
end, the code in between is as it should be. -/
structure Produces (scope : Scope) (decls : List (String × DataType))
    (P : Names → ConstantPool → Assembler → Assembler → Prop) (s s' : LowerState) : Prop where
  pool : s.pool.Grows s'.pool
  locals : s.locals.Grows decls s'.locals
  holds : ∀ look, Sees look s'.locals → P ⟨scope, look⟩ s'.pool.pool s.asm s'.asm

namespace Produces

variable {scope : Scope} {decls : List (String × DataType)} {P : Names → ConstantPool → Assembler → Assembler → Prop}
  {s s' : LowerState}

/-- Names that see the variables of a later state see those of an earlier one. -/
theorem sees (h : Produces scope decls P s s') {look : String → Option Slot}
    (hl : Sees look s'.locals) : Sees look s.locals :=
  fun name slot hf => hl name slot (h.locals.find name slot hf)

/-- A lowering that declares nothing. -/
theorem of_builds (code : Names → Fragment) (checks : Names → Prop)
    (hp : Prepared scope s)
    (h : ∀ look, Ready ⟨scope, look⟩ s → Builds s (code ⟨scope, look⟩) s' ∧ checks ⟨scope, look⟩) :
    Produces scope [] (fun σ pool a a' => (code σ).Laid pool a a' ∧ checks σ) s s' := by
  obtain ⟨hb, -⟩ := h _ hp
  refine ⟨hb.pool, hb.locals ▸ .refl _, fun look hl => ?_⟩
  obtain ⟨hb, hc⟩ := h look (hp.sees (hb.locals ▸ hl))
  exact ⟨hb.laid, hc⟩

end Produces

section Uses

variable {scope : Scope} {s s' : LowerState}

theorem branch_produces {e : Expr} {jumpIf : Bool} {target : Label} (hp : Prepared scope s)
    (h : (lower scope e).branch jumpIf target s = .ok () s') :
    Produces scope [] (fun σ pool a a' => (select σ e).cond.Laid pool jumpIf target a a' ∧
      e.Checked σ ∧ e.Testable) s s' := by
  have hlower (look : String → Option Slot) (hr : Ready ⟨scope, look⟩ s) :=
    (lower_lowers ⟨scope, look⟩ e).branch hr h
  obtain ⟨hb, -⟩ := hlower _ hp
  refine ⟨hb.pool, hb.locals ▸ .refl _, fun look hl => ?_⟩
  obtain ⟨hb, hc⟩ := hlower look (hp.sees (hb.locals ▸ hl))
  exact ⟨hb.laid, hc⟩

theorem valueAs_produces {e : Expr} {ty : DataType} (hp : Prepared scope s)
    (h : valueAs e (lower scope e).value ty s = .ok () s') :
    Produces scope [] (fun σ pool a a' => (selectAs σ e ty).Laid pool a a' ∧
      e.Checked σ ∧ e.ty.Passes ty) s s' :=
  .of_builds (selectAs · e ty) (fun σ => e.Checked σ ∧ e.ty.Passes ty) hp
    fun look hr => valueAs_lowers (lower_lowers ⟨scope, look⟩ e).value hr h

/-- The code of a statement and the checks on it. -/
def StmtLaid (stmt : Stmt) (inner : Option LoopLabels) (σ : Names) (pool : ConstantPool)
    (a a' : Assembler) : Prop :=
  (selectStmt σ stmt).Laid pool inner a a' ∧ stmt.Checked σ

/-- The code of a block and the checks on it. -/
def BlockLaid (block : List Stmt) (inner : Option LoopLabels) (σ : Names) (pool : ConstantPool)
    (a a' : Assembler) : Prop :=
  (selectBlock σ block).Laid pool inner a a' ∧ Stmt.AllChecked σ block

/-- The store of the value on the stack. -/
theorem storeLocal_ok {ty : DataType} {slot : Nat} (h : storeLocal ty slot s = .ok () s') :
    ∃ kind i, ty.kind? = some kind ∧ s' = { s with asm := s'.asm } ∧
      Asm.Means i (.frame (.store kind slot)) ∧
      (∀ pool, verifyOperand pool i = .ok ()) ∧ (Event.emit i kind.words 0).Happens s.asm s'.asm := by
  unfold storeLocal at h
  obtain ⟨kind, s₁, h₁, h⟩ := bind_ok.1 h
  obtain ⟨hkind, rfl⟩ := Lower.valueKind_ok.1 h₁
  obtain ⟨b, hb, rfl⟩ := Lower.code_ok.1 h
  obtain ⟨hslot, hemits⟩ := Asm.store_emits hb
  have hmeans := Asm.storeInstruction_means kind slot
    (by unfold maxFrameWords at hslot; omega)
  refine ⟨kind, _, hkind, rfl, hmeans, fun pool => ?_,
    .emit hmeans.encodable hmeans.branchless hemits⟩
  unfold Asm.localInstruction
  split
  · rfl
  · split <;> cases kind <;> rfl

theorem lowerDeclare_produces {name : String} {ty : DataType} {init : Option Expr}
    {inner : Option LoopLabels} (hp : Prepared scope s)
    (h : lowerDeclare scope name ty init s = .ok () s') :
    Produces scope [(name, ty)] (StmtLaid (.declare name ty init) inner) s s' := by
  unfold lowerDeclare at h
  -- the value, with or without an initial expression
  have hvalue : ∃ s₁, (Produces scope [] (fun σ pool a a' =>
        (initialValue σ ty init).Laid pool a a' ∧
        ∀ e ∈ init, e.Checked σ ∧ e.ty.Passes ty) s s₁) ∧
      (do
        let slot ← Lower.declare name ty
        storeLocal ty slot : Lower Unit) s₁ = .ok () s' := by
    cases init with
    | some e =>
      obtain ⟨_, s₁, h₁, h⟩ := bind_ok.1 h
      have hv := valueAs_produces hp h₁
      exact ⟨s₁, ⟨hv.pool, hv.locals, fun look hl => by
        simpa [initialValue] using hv.holds look hl⟩, h⟩
    | none =>
      obtain ⟨_, s₁, h₁, h⟩ := bind_ok.1 h
      obtain ⟨hb, -⟩ := pushDefault_builds hp.sound h₁
      exact ⟨s₁, ⟨hb.pool, hb.locals ▸ .refl _, fun look hl => ⟨hb.laid, by simp⟩⟩, h⟩
  obtain ⟨s₁, hv, h⟩ := hvalue
  obtain ⟨slot, s₂, h₂, h⟩ := bind_ok.1 h
  obtain ⟨l, hl, rfl⟩ := Lower.declare_ok.1 h₂
  obtain ⟨kind, i, hkind, hs', hmeans, hverify, hstore⟩ := storeLocal_ok h
  obtain ⟨⟨storage, hfind⟩, -⟩ := Locals.declare_find? hl
  have hgrows := Locals.declare_grows hl
  rw [hs']
  refine ⟨hv.pool, hv.locals.trans hgrows, fun look hlook => ?_⟩
  obtain ⟨hlaid, hchecks⟩ := hv.holds look fun n s hs => hlook n s (hgrows.find n s hs)
  have hname := hlook _ _ hfind
  refine ⟨?_, ⟨_, kind, hname, rfl, hkind⟩, hchecks⟩
  simp only [selectStmt, hname, hkind]
  exact ⟨s₁.asm, i, hlaid, hmeans, hverify _, hstore⟩

theorem lowerAssign_produces {name : String} {value : Expr} {inner : Option LoopLabels}
    (hp : Prepared scope s) (h : lowerAssign scope name value s = .ok () s') :
    Produces scope [] (StmtLaid (.assign name value) inner) s s' := by
  unfold lowerAssign at h
  obtain ⟨slot, s₁, h₁, h⟩ := bind_ok.1 h
  obtain ⟨hslot, rfl⟩ := Lower.resolve_ok.1 h₁
  obtain ⟨_, s₂, h₂, h⟩ := bind_ok.1 h
  have hv := valueAs_produces hp h₂
  obtain ⟨kind, i, hkind, hs', hmeans, hverify, hstore⟩ := storeLocal_ok h
  rw [hs']
  refine ⟨hv.pool, hv.locals, fun look hlook => ?_⟩
  obtain ⟨hlaid, hchecked, hpass⟩ := hv.holds look hlook
  have hname := hv.sees hlook _ _ hslot
  refine ⟨?_, slot, hname, hchecked, hpass⟩
  simp only [selectStmt, hname, hkind]
  exact ⟨s₂.asm, i, hlaid, hmeans, hverify _, hstore⟩

theorem ret_ok {kind : Option Kind} (h : Lower.code (Asm.ret kind) s = .ok () s') :
    s' = { s with asm := s'.asm } ∧
      (Event.emit (.plain (returnOpcode kind)) (returnWords kind) 0).Happens s.asm s'.asm := by
  obtain ⟨b, hb, rfl⟩ := Lower.code_ok.1 h
  obtain ⟨pops, pushes, heffect, hemits⟩ := Asm.plain_emits hb
  have hwords : (pops, pushes) = (returnWords kind, 0) := by
    cases kind with
    | none => exact (Option.some.inj heffect).symm
    | some k => cases k <;> exact (Option.some.inj heffect).symm
  cases hwords
  have hcode : Instruction.encodable (.plain (returnOpcode kind)) = true ∧
      (returnOpcode kind).isBranch = false := by
    cases kind with
    | none => exact ⟨rfl, rfl⟩
    | some k => cases k <;> exact ⟨rfl, rfl⟩
  exact ⟨rfl, .emit hcode.1 hcode.2 hemits⟩

theorem lowerReturn_produces {value : Option Expr} {inner : Option LoopLabels}
    (hp : Prepared scope s) (h : lowerReturn scope value s = .ok () s') :
    Produces scope [] (StmtLaid (.ret value) inner) s s' := by
  unfold lowerReturn at h
  cases value with
  | some e =>
    cases hk : scope.function.returnType.kind? with
    | some kind =>
      rw [hk] at h
      obtain ⟨_, s₁, h₁, h₂⟩ := bind_ok.1 h
      have hv := valueAs_produces hp h₁
      obtain ⟨hs', hret⟩ := ret_ok h₂
      rw [hs']
      refine ⟨hv.pool, hv.locals, fun look hlook => ?_⟩
      obtain ⟨hlaid, hchecks⟩ := hv.holds look hlook
      refine ⟨⟨s₁.asm, hlaid, ?_⟩, hchecks⟩
      rw [hk]
      exact hret
    | none =>
      rw [hk] at h
      exact absurd h Lower.refuse_ok.1
  | none =>
    cases hk : scope.function.returnType.kind? with
    | some kind =>
      rw [hk] at h
      exact absurd h Lower.refuse_ok.1
    | none =>
      rw [hk] at h
      obtain ⟨hs', hret⟩ := ret_ok h
      rw [hs']
      exact ⟨.refl hp.sound, .refl _, fun look hlook => ⟨⟨s.asm, rfl, hret⟩, hk⟩⟩

theorem lowerCall_produces {object : Option String} {name : String} {args : List Expr}
    {ty : DataType} {inner : Option LoopLabels} (hp : Prepared scope s)
    (h : lowerCall scope object name args ty s = .ok () s') :
    Produces scope [] (StmtLaid (.call object name args ty) inner) s s' := by
  unfold lowerCall at h
  obtain ⟨returned, s₁, h₁, h⟩ := bind_ok.1 h
  have hcode (look : String → Option Slot) (hr : Ready ⟨scope, look⟩ s) :
      Builds s (.seq (Names.call ⟨scope, look⟩ object name (selectArgs ⟨scope, look⟩ args) ty)
        (discard (Names.returned ⟨scope, look⟩ object name (args.map Expr.ty) ty).kind?)) s' ∧
        Stmt.Checked ⟨scope, look⟩ (.call object name args ty) := by
    obtain ⟨hb, hreturned, hcalls, hchecked⟩ :=
      callAny_lowers (lowerArgs_lowers ⟨scope, look⟩ args) hr h₁
    rw [map_ty_selectArgs] at hreturned
    rw [map_expr_selectArgs] at hcalls hchecked
    refine ⟨hb.seq ?_, hcalls, hchecked⟩
    rw [← hreturned]
    cases hk : returned.kind? with
    | some kind =>
      rw [hk] at h
      exact drop_builds hb.pool.sound h
    | none =>
      rw [hk] at h
      obtain ⟨-, rfl⟩ := pure_ok.1 h
      exact .nil hb.pool.sound
  exact .of_builds _ _ hp hcode

theorem lowerJump_produces {inner : Option LoopLabels} {keyword : String}
    {target : LoopLabels → Label} {P : Names → ConstantPool → Assembler → Assembler → Prop}
    (hp : Prepared scope s) (h : lowerJump inner keyword target s = .ok () s')
    (hP : ∀ σ pool labels a a', inner = some labels →
      (Event.branch .goto (target labels)).Happens a a' → P σ pool a a') :
    Produces scope [] P s s' := by
  unfold lowerJump at h
  cases inner with
  | some labels =>
    obtain ⟨he, hs'⟩ := branch_ok rfl h
    rw [hs']
    exact ⟨.refl hp.sound, .refl _, fun look _ => hP _ _ labels _ _ rfl he⟩
  | none => exact absurd h Lower.refuse_ok.1

theorem jumpUnless_ok {unreachable : Bool} {target : Label}
    (h : jumpUnless unreachable target s = .ok () s') :
    s' = { s with asm := s'.asm } ∧ JumpsUnless unreachable target s.asm s'.asm := by
  unfold jumpUnless at h
  unfold JumpsUnless
  rcases ite_ok.1 h with ⟨hu, h⟩ | ⟨hu, h⟩
  · obtain ⟨-, rfl⟩ := pure_ok.1 h
    rw [if_pos hu]
    exact ⟨rfl, rfl⟩
  · rw [if_neg hu]
    obtain ⟨he, hs'⟩ := branch_ok rfl h
    exact ⟨hs', he⟩

end Uses

mutual

/-- **The lowering of a statement lays out its structured code**. -/
theorem lowerStmt_produces (scope : Scope) (stmt : Stmt) {inner : Option LoopLabels}
    {s s' : LowerState} (hp : Prepared scope s)
    (h : lowerStmt scope inner stmt s = .ok () s') :
    Produces scope stmt.declarations (StmtLaid stmt inner) s s' := by
  cases stmt with
  | declare name ty init => exact lowerDeclare_produces hp h
  | assign name value => exact lowerAssign_produces hp h
  | ret value => exact lowerReturn_produces hp h
  | ifThen cond body =>
    simp only [lowerStmt, bind_ok] at h
    obtain ⟨l, s₁, h₁, _, s₂, h₂, _, s₃, h₃, h₄⟩ := h
    obtain ⟨rfl, rfl⟩ := newLabel_ok h₁
    have hc := branch_produces (hp.code _) h₂
    have hb := lowerBlock_produces scope body (hp.grow hc.pool) h₃
    obtain ⟨he, hs'⟩ := place_ok h₄
    rw [hs']
    refine ⟨hc.pool.trans hb.pool, hc.locals.trans hb.locals, fun look hlook => ?_⟩
    obtain ⟨hcl, hcc, hct⟩ := hc.holds look (hb.sees hlook)
    obtain ⟨hbl, hbc⟩ := hb.holds look hlook
    exact ⟨⟨s₂.asm, s₃.asm, Condition.Laid.mono hb.pool.le _ hcl, hbl, he⟩, hcc, hct, hbc⟩
  | ifElse cond body orElse =>
    simp only [lowerStmt, bind_ok] at h
    obtain ⟨l, s₁, h₁, _, s₂, h₂, _, s₃, h₃, l', s₄, h₄, _, s₅, h₅, _, s₆, h₆, _, s₇, h₇, _, s₈,
      h₈, h₉⟩ := h
    obtain ⟨rfl, rfl⟩ := newLabel_ok h₁
    have hc := branch_produces (hp.code _) h₂
    have hb := lowerBlock_produces scope body (hp.grow hc.pool) h₃
    obtain ⟨rfl, rfl⟩ := newLabel_ok h₄
    obtain ⟨hs₅, hj₅⟩ := jumpUnless_ok h₅
    obtain ⟨he₆, hs₆⟩ := place_ok h₆
    have hp₆ : s₆.pool = s₃.pool := by rw [hs₆, hs₅]
    have hl₆ : s₆.locals = s₃.locals := by rw [hs₆, hs₅]
    have hcb := hc.pool.trans hb.pool
    have hb' := lowerBlock_produces scope orElse (hp.grow (hp₆.symm ▸ hcb)) h₇
    obtain ⟨hs₈, hj₈⟩ := jumpUnless_ok h₈
    obtain ⟨he₉, hs'⟩ := place_ok h₉
    have hpool : s₃.pool.Grows s₇.pool := hp₆ ▸ hb'.pool
    have hlocals : s₃.locals.Grows (Stmt.declarationsOf orElse) s₇.locals := hl₆ ▸ hb'.locals
    have hp' : s'.pool = s₇.pool := by rw [hs', hs₈]
    have hl' : s'.locals = s₇.locals := by rw [hs', hs₈]
    refine ⟨hp' ▸ hcb.trans hpool, hl' ▸ (hc.locals.trans hb.locals).trans hlocals,
      fun look hlook => ?_⟩
    rw [hl'] at hlook
    have hlook₃ : Sees look s₃.locals := hl₆ ▸ hb'.sees hlook
    obtain ⟨hcl, hcc, hct⟩ := hc.holds look (hb.sees hlook₃)
    obtain ⟨hbl, hbc⟩ := hb.holds look hlook₃
    obtain ⟨hel, hec⟩ := hb'.holds look hlook
    rw [hp']
    refine ⟨⟨s₂.asm, s₃.asm, s₅.asm, s₆.asm, s₇.asm, s₈.asm,
      Condition.Laid.mono (ConstantPool.le_trans hb.pool.le hpool.le) _ hcl,
      Flow.Laid.mono hpool.le _ hbl, ?_, he₆, hel, ?_, he₉⟩, hcc, hct, hbc, hec⟩
    · rw [ends_selectBlock]
      exact hj₅
    · rw [ends_selectBlock]
      exact hj₈
  | loop cond body =>
    simp only [lowerStmt, bind_ok] at h
    obtain ⟨l₁, s₁, h₁, l₂, s₂, h₂, l₃, s₃, h₃, _, s₄, h₄, _, s₅, h₅, _, s₆, h₆, _, s₇, h₇, _, s₈,
      h₈, h₉⟩ := h
    obtain ⟨rfl, rfl⟩ := newLabel_ok h₁
    obtain ⟨rfl, rfl⟩ := newLabel_ok h₂
    obtain ⟨rfl, rfl⟩ := newLabel_ok h₃
    obtain ⟨he₄, hs₄⟩ := branch_ok rfl h₄
    obtain ⟨he₅, hs₅⟩ := place_ok h₅
    have hp₅ : s₅.pool = s.pool := by rw [hs₅, hs₄]
    have hl₅ : s₅.locals = s.locals := by rw [hs₅, hs₄]
    have hb := lowerBlock_produces scope body (hp.grow (hp₅.symm ▸ .refl hp.sound)) h₆
    obtain ⟨he₇, hs₇⟩ := place_ok h₇
    have hp₇ : s₇.pool = s₆.pool := by rw [hs₇]
    have hl₇ : s₇.locals = s₆.locals := by rw [hs₇]
    have hbpool : s.pool.Grows s₆.pool := hp₅ ▸ hb.pool
    have hblocals : s.locals.Grows (Stmt.declarationsOf body) s₆.locals := hl₅ ▸ hb.locals
    have hc := branch_produces (hp.grow (hp₇.symm ▸ hbpool)) h₈
    obtain ⟨he₉, hs'⟩ := place_ok h₉
    have hcpool : s₆.pool.Grows s₈.pool := hp₇ ▸ hc.pool
    have hclocals : s₆.locals.Grows [] s₈.locals := hl₇ ▸ hc.locals
    rw [hs']
    refine ⟨hbpool.trans hcpool, (hblocals.trans hclocals).mono (by simp [Stmt.declarations]),
      fun look hlook => ?_⟩
    obtain ⟨hcl, hcc, hct⟩ := hc.holds look hlook
    obtain ⟨hbl, hbc⟩ := hb.holds look (hl₇ ▸ hc.sees hlook)
    exact ⟨⟨s₄.asm, s₅.asm, s₆.asm, s₇.asm, s₈.asm, he₄, he₅, Flow.Laid.mono hcpool.le _ hbl, he₇,
      hcl, he₉⟩, hcc, hct, hbc⟩
  | «break» =>
    exact lowerJump_produces hp h fun σ pool labels a a' hi he => ⟨⟨labels, hi, he⟩, trivial⟩
  | «continue» =>
    exact lowerJump_produces hp h fun σ pool labels a a' hi he => ⟨⟨labels, hi, he⟩, trivial⟩
  | call object name args ty => exact lowerCall_produces hp h

/-- **The lowering of a block lays out its structured code**. -/
theorem lowerBlock_produces (scope : Scope) (block : List Stmt) {inner : Option LoopLabels}
    {s s' : LowerState} (hp : Prepared scope s)
    (h : lowerBlock scope inner block s = .ok () s') :
    Produces scope (Stmt.declarationsOf block) (BlockLaid block inner) s s' := by
  cases block with
  | nil =>
    obtain ⟨-, rfl⟩ := pure_ok.1 h
    exact ⟨.refl hp.sound, .refl _, fun look _ => ⟨rfl, trivial⟩⟩
  | cons stmt rest =>
    simp only [lowerBlock, bind_ok] at h
    obtain ⟨_, s₁, h₁, h⟩ := h
    have hs := lowerStmt_produces scope stmt hp h₁
    rcases ite_ok.1 h with ⟨ht, h⟩ | ⟨ht, h⟩
    · obtain ⟨-, rfl⟩ := pure_ok.1 h
      -- what follows a statement that ends the block is never lowered
      refine ⟨hs.pool, hs.locals.mono (List.sublist_append_left _ _), fun look hlook => ?_⟩
      obtain ⟨hsl, hsc⟩ := hs.holds look hlook
      refine ⟨?_, hsc, by simp [ht]⟩
      rw [selectBlock, if_pos ht]
      exact hsl
    · have hr := lowerBlock_produces scope rest (hp.grow hs.pool) h
      refine ⟨hs.pool.trans hr.pool, hs.locals.trans hr.locals, fun look hlook => ?_⟩
      obtain ⟨hsl, hsc⟩ := hs.holds look (hr.sees hlook)
      obtain ⟨hrl, hrc⟩ := hr.holds look hlook
      refine ⟨?_, hsc, fun _ => hrc⟩
      rw [selectBlock, if_neg ht]
      exact ⟨s₁.asm, Flow.Laid.mono hr.pool.le _ hsl, hrl⟩

end

/-- The checks on a function body: those on its statements, and that control cannot reach the end
of a function with a result. -/
def Names.BodyChecked (σ : Names) : Prop :=
  Stmt.AllChecked σ σ.scope.function.body ∧
    (blockTerminates σ.scope.function.body = false → σ.scope.function.returnType = .void)

/-- **The lowering of a function body lays out its structured code**. -/
theorem lowerBody_produces {scope : Scope} {s s' : LowerState} (hp : Prepared scope s)
    (h : lowerBody scope s = .ok () s') :
    Produces scope (Stmt.declarationsOf scope.function.body)
      (fun σ pool a a' => (selectBody σ).Laid pool none a a' ∧ σ.BodyChecked) s s' := by
  unfold lowerBody at h
  obtain ⟨_, s₁, h₁, h⟩ := bind_ok.1 h
  have hb := lowerBlock_produces scope scope.function.body hp h₁
  rcases ite_ok.1 h with ⟨ht, h⟩ | ⟨ht, h⟩
  · rcases ite_ok.1 h with ⟨hvoid, h⟩ | ⟨-, h⟩
    · obtain ⟨hs', hret⟩ := ret_ok h
      rw [hs']
      refine ⟨hb.pool, hb.locals, fun look hlook => ?_⟩
      obtain ⟨hbl, hbc⟩ := hb.holds look hlook
      refine ⟨?_, hbc, fun _ => hvoid⟩
      rw [selectBody, if_neg (by simpa using ht)]
      exact ⟨s₁.asm, hbl, s₁.asm, rfl, hret⟩
    · exact absurd h throw_ok.1
  · obtain ⟨-, rfl⟩ := pure_ok.1 h
    have ht : blockTerminates scope.function.body = true := by simpa using ht
    refine ⟨hb.pool, hb.locals, fun look hlook => ?_⟩
    obtain ⟨hbl, hbc⟩ := hb.holds look hlook
    refine ⟨?_, hbc, by simp [ht]⟩
    rw [selectBody, if_pos ht]
    exact hbl

end ClassFoundry
