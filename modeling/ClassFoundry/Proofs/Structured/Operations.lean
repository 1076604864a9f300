import ClassFoundry.Proofs.Structured.Selection
import ClassFoundry.Proofs.Success

/-!
# The layout of single operations

The steps that all lowerings share: constants, conversions, variables and calls. Each of them lays
out a fragment, and may add constants to the pool.

## Main definitions

* `Builds`: a lowering that lays out a fragment

## Main results

* `pushInt_builds`, `pushLong_builds`: numbers
* `widen_builds`, `narrow_builds`, `convert_builds`: from one type to another
* `load_builds`, `invoke_builds`, `pushDefault_builds`: variables, calls and first values
-/

namespace ClassFoundry

open Fragment (ofOp)

/-- A lowering that lays out a fragment. -/
structure Builds (s : LowerState) (code : Fragment) (s' : LowerState) : Prop where
  pool : s.pool.Grows s'.pool
  locals : s'.locals = s.locals
  laid : code.Laid s'.pool.pool s.asm s'.asm

namespace Builds

variable {s s₁ s' : LowerState} {c d : Fragment}

theorem nil (h : s.pool.Sound) : Builds s .nil s := ⟨.refl h, rfl, rfl⟩

theorem seq (h : Builds s c s₁) (h' : Builds s₁ d s') : Builds s (c.seq d) s' :=
  ⟨h.pool.trans h'.pool, h'.locals.trans h.locals,
    s₁.asm, Fragment.Laid.mono h'.pool.le c h.laid, h'.laid⟩

end Builds

section Leaves

variable {s s' : LowerState} {u : Unit}

theorem Opcode.plainAction?_of_plainOp? {op : Opcode} {fop : FrameOp}
    (h : op.plainOp? = some fop) : op.plainAction? = some (.frame fop) := by
  unfold plainAction?
  split
  · cases h
  · cases h
  · cases h
  · cases h
  · simp [h]

theorem Asm.means_plain {op : Opcode} {fop : FrameOp} (h : op.plainOp? = some fop) :
    Asm.Means (.plain op) (.frame fop) := by
  have hfin : ∀ n : Fin 256, (Opcode.plainOp? (UInt8.ofNat n)).isSome →
      Opcode.format? (UInt8.ofNat n) = some .plain ∧ Opcode.isTerminal (UInt8.ofNat n) = false ∧
        Opcode.isBranch (UInt8.ofNat n) = false := by decide +kernel
  have hop := hfin ⟨op.toNat, op.toNat_lt⟩
  simp only [UInt8.ofNat_toNat, h] at hop
  obtain ⟨hformat, hterminal, hbranch⟩ := hop rfl
  exact ⟨by simp [Instruction.encodable, hformat], Opcode.plainAction?_of_plainOp? h, hterminal,
    hbranch⟩

/-- An int is small exactly if there is an instruction for it, and that instruction pushes it. -/
theorem Asm.smallInt_ok {value : Int32} {small : Bool} {a a' : Assembler}
    (h : Asm.smallInt value a = .ok small a') :
    if -0x8000 ≤ value.toInt ∧ value.toInt ≤ 0x7fff then
      small = true ∧ ∃ i, Asm.Means i (.frame (.pushInt value)) ∧
        (∀ pool, verifyOperand pool i = .ok ()) ∧ Emits a i 0 1 a'
    else small = false ∧ a' = a := by
  unfold Asm.smallInt at h
  split at h
  · -- the opcodes from minus one to five lie in a row
    rename_i hrange
    simp only [bind_ok, pure_ok] at h
    obtain ⟨_, _, hplain, rfl, rfl⟩ := h
    rw [if_pos (by omega)]
    have hfin : ∀ n : Fin 7, Opcode.plainOp? (UInt8.ofNat (n.val + 2)) =
        some (.pushInt (Int32.ofInt ((n.val : Int) - 1))) := by decide
    have hop := hfin ⟨(value.toInt + 1).toNat, by omega⟩
    have hnat : (value.toInt + 1).toNat + 2 = (value.toInt + 3).toNat := by omega
    have hint : ((value.toInt + 1).toNat : Int) - 1 = value.toInt := by omega
    simp only [hnat, hint, Int32.ofInt_toInt] at hop
    obtain ⟨pops, pushes, heffect, hemits⟩ := Asm.plain_emits hplain
    rw [Opcode.effect?, Opcode.plainAction?_of_plainOp? hop] at heffect
    cases heffect
    exact ⟨rfl, _, Asm.means_plain hop, fun _ => rfl, hemits⟩
  · split at h
    · rename_i hrange
      simp only [bind_ok, pure_ok] at h
      obtain ⟨_, _, hinstr, rfl, rfl⟩ := h
      rw [if_pos (by omega)]
      have hvalue : value.toInt8.toInt32 = value := by
        rw [← Int32.toInt_inj]
        simp only [Int8.toInt_toInt32, Int32.toInt_toInt8]
        exact Int.bmod_eq_of_le (by omega) (by omega)
      refine ⟨rfl, .byte .bipush value.toInt8.toUInt8, ?_, fun _ => rfl,
        Asm.instruction_emits rfl hinstr⟩
      exact ⟨rfl, congrArg (some <| Action.frame <| .pushInt ·) hvalue, rfl, rfl⟩
    · split at h
      · rename_i hrange
        simp only [bind_ok, pure_ok] at h
        obtain ⟨_, _, hinstr, rfl, rfl⟩ := h
        rw [if_pos (by omega)]
        have hvalue : value.toInt16.toInt32 = value := by
          rw [← Int32.toInt_inj]
          simp only [Int16.toInt_toInt32, Int32.toInt_toInt16]
          exact Int.bmod_eq_of_le (by omega) (by omega)
        refine ⟨rfl, .short .sipush value.toInt16.toUInt16, ?_, fun _ => rfl,
          Asm.instruction_emits rfl hinstr⟩
        exact ⟨rfl, congrArg (some <| Action.frame <| .pushInt ·) hvalue, rfl, rfl⟩
      · rename_i hrange
        obtain ⟨rfl, rfl⟩ := pure_ok.1 h
        rw [if_neg (by omega)]
        exact ⟨rfl, rfl⟩

/-- A constant of one word is pushed, and the verifier looks at it as an int or a string. -/
theorem Asm.constant_ok {index : UInt16} {a a' : Assembler} {u : Unit}
    (h : Asm.constant index a = .ok u a') :
    ∃ i, Asm.Means i (.frame (.pushConstant index)) ∧
      (∀ pool, verifyOperand pool i = pool.expectAny index "Integer" ["String"]) ∧
      Emits a i 0 1 a' := by
  unfold Asm.constant at h
  split at h
  · rename_i hsmall
    have hindex : index.toUInt8.toUInt16 = index := by
      rw [← UInt16.toNat_inj]
      simp
      omega
    refine ⟨.byte .ldc index.toUInt8, ?_, fun pool => ?_, Asm.instruction_emits rfl h⟩
    · exact ⟨rfl, congrArg (some <| Action.frame <| .pushConstant ·) hindex, rfl, rfl⟩
    · exact congrArg (pool.expectAny · "Integer" ["String"]) hindex
  · exact ⟨.short .ldc_w index, ⟨rfl, rfl, rfl, rfl⟩, fun _ => rfl, Asm.instruction_emits rfl h⟩

theorem FrameOp.effect?_of_kinds? {op : FrameOp} {takes gives : List Kind}
    (hk : op.kinds? = some (takes, gives)) {pops pushes : Nat}
    (he : op.effect? = some (pops, pushes)) :
    pops = Kind.wordsOf takes ∧ pushes = Kind.wordsOf gives := by
  cases op <;> cases hk <;> cases he <;> exact ⟨rfl, rfl⟩

/-- An operation is laid out by an instruction of its meaning and its effect. -/
theorem Operation.laid_of_emits {pool : ConstantPool} {o : Operation} {i : Instruction}
    {action : Action} {a a' : Assembler} (hi : Asm.Means i action) (ho : o.Means pool i)
    (hv : verifyOperand pool i = .ok ())
    (he : Emits a i (Kind.wordsOf o.takes) (Kind.wordsOf o.gives) a') : o.Laid pool a a' :=
  ⟨i, ho, hv, hi.straight, .emit hi.encodable hi.branchless he⟩

theorem plain_builds (op : Opcode) {fop : FrameOp} (hop : op.plainOp? = some fop)
    (hk : fop.kinds?.isSome) (hs : s.pool.Sound) (h : Lower.plain op s = .ok u s') :
    Builds s (ofOp fop) s' := by
  obtain ⟨b, hb, rfl⟩ := Lower.plain_ok.1 h
  obtain ⟨pops, pushes, heffect, hemits⟩ := Asm.plain_emits hb
  obtain ⟨⟨takes, gives⟩, hkinds⟩ := Option.isSome_iff_exists.1 hk
  have hmeans := Asm.means_plain hop
  rw [Opcode.effect?, Opcode.plainAction?_of_plainOp? hop] at heffect
  obtain ⟨rfl, rfl⟩ := FrameOp.effect?_of_kinds? hkinds heffect
  refine ⟨.refl hs, rfl, Operation.laid_of_emits hmeans ⟨hk, .inl hmeans.action⟩ rfl ?_⟩
  simpa [Operation.takes, Operation.gives, hkinds] using hemits

theorem drop_builds {kind : Kind} (hs : s.pool.Sound) (h : Lower.plain kind.popOp s = .ok u s') :
    Builds s (.op (.drop kind)) s' := by
  obtain ⟨b, hb, rfl⟩ := Lower.plain_ok.1 h
  obtain ⟨pops, pushes, heffect, hemits⟩ := Asm.plain_emits hb
  have hmeans : Asm.Means (.plain kind.popOp) (.frame (if kind = .long then .pop2 else .pop)) := by
    cases kind <;> exact ⟨rfl, rfl, rfl, rfl⟩
  have hwords : (pops, pushes) = (kind.words, 0) := by
    cases kind <;> exact (Option.some.inj heffect).symm
  cases hwords
  refine ⟨.refl hs, rfl, Operation.laid_of_emits hmeans rfl rfl ?_⟩
  simpa [Operation.takes, Operation.gives, Kind.wordsOf] using hemits

/-- An instruction with an operand. -/
theorem instruction_builds {o : Operation} (i : Instruction) (action : Action) {pops pushes : Nat}
    (hs : s.pool.Sound) (hi : Asm.Means i action) (ho : o.Means s.pool.pool i)
    (hv : verifyOperand s.pool.pool i = .ok ()) (hpops : pops = Kind.wordsOf o.takes)
    (hpushes : pushes = Kind.wordsOf o.gives)
    (h : Lower.code (Asm.instruction i pops pushes) s = .ok u s') : Builds s (.op o) s' := by
  obtain ⟨b, hb, rfl⟩ := Lower.code_ok.1 h
  have hemits := Asm.instruction_emits hi.straight hb
  subst hpops hpushes
  exact ⟨.refl hs, rfl, Operation.laid_of_emits hi ho hv hemits⟩

/-- What is left of a lowering that begins with a new constant. -/
theorem Builds.of_pool {p : PoolBuilder} {code : Fragment} (hp : s.pool.Grows p)
    (h : Builds { s with pool := p } code s') : Builds s code s' :=
  ⟨hp.trans h.pool, h.locals, h.laid⟩

theorem ConstantPool.expectAny_of_get? {pool : ConstantPool} {index : UInt16} {c : Constant}
    (expected : String) (others : List String) (hc : pool.get? index = some c)
    (ht : c.tagName = expected ∨ c.tagName ∈ others) :
    pool.expectAny index expected others = .ok () := by
  simp [expectAny, hc, ht]

theorem constant_builds {o : Operation} {index : UInt16} {c : Constant} (hs : s.pool.Sound)
    (hc : s.pool.pool.get? index = some c) (ht : c.tagName = "Integer" ∨ c.tagName = "String")
    (ho : ∀ i : Instruction, i.action? = some (.frame (.pushConstant index)) →
      o.Means s.pool.pool i)
    (htakes : o.takes = []) (hgives : Kind.wordsOf o.gives = 1)
    (h : Lower.code (Asm.constant index) s = .ok u s') : Builds s (.op o) s' := by
  have hv := ConstantPool.expectAny_of_get? "Integer" ["String"] hc
    (by simpa using ht)
  obtain ⟨b, hb, rfl⟩ := Lower.code_ok.1 h
  obtain ⟨i, hi, hverify, hemits⟩ := Asm.constant_ok hb
  refine ⟨.refl hs, rfl, Operation.laid_of_emits hi (ho i hi.action) ((hverify _).trans hv) ?_⟩
  rwa [htakes, hgives]

theorem longConstant_builds {v : Int64} {index : UInt16} (hs : s.pool.Sound)
    (hc : s.pool.pool.get? index = some (.long v))
    (h : Lower.code (Asm.longConstant index) s = .ok u s') : Builds s (ofOp (.pushLong v)) s' :=
  instruction_builds (.short .ldc2_w index) (.frame (.pushConstant index)) hs
    ⟨rfl, rfl, rfl, rfl⟩ ⟨rfl, .inr ⟨index, rfl, .inr ⟨v, rfl, hc⟩⟩⟩
    (ConstantPool.expectAny_of_get? "Long" [] hc (.inl rfl)) rfl rfl h

/-- A constant after it has been given an index. -/
theorem interned_builds {x : PoolM UInt16} {code : Fragment} {k : UInt16 → Lower Unit}
    {P : PoolBuilder → UInt16 → Prop}
    (hx : ∀ {i p}, x s.pool = .ok i p → s.pool.Grows p ∧ P p i)
    (hk : ∀ {i s₁}, s₁.pool.Sound → P s₁.pool i → k i s₁ = .ok u s' → Builds s₁ code s')
    (h : (Lower.pool x >>= k) s = .ok u s') : Builds s code s' := by
  obtain ⟨i, s₁, h₁, h₂⟩ := bind_ok.1 h
  obtain ⟨p, hp, rfl⟩ := Lower.pool_ok.1 h₁
  obtain ⟨hgrows, hi⟩ := hx hp
  exact .of_pool hgrows (hk hgrows.sound hi h₂)

theorem pushInt_builds {v : Int32} (hs : s.pool.Sound) (h : pushInt v s = .ok u s') :
    Builds s (ofOp (.pushInt v)) s' := by
  unfold pushInt at h
  simp only [bind_ok, Lower.code_ok] at h
  obtain ⟨small, s₁, ⟨b, hb, rfl⟩, h⟩ := h
  have hok := Asm.smallInt_ok hb
  split at hok
  · obtain ⟨rfl, i, hi, hverify, hemits⟩ := hok
    obtain ⟨-, rfl⟩ := pure_ok.1 h
    exact ⟨.refl hs, rfl, Operation.laid_of_emits hi ⟨rfl, .inl hi.action⟩ (hverify _) hemits⟩
  · obtain ⟨rfl, rfl⟩ := hok
    refine interned_builds (PoolBuilder.internInteger_sound hs) ?_ h
    intro i s₁ hs₁ hi h₁
    exact constant_builds hs₁ hi (.inl rfl)
      (fun _ ha => ⟨rfl, .inr ⟨i, ha, .inl ⟨v, rfl, hi⟩⟩⟩) rfl rfl h₁

theorem pushLong_builds {v : Int64} (hs : s.pool.Sound) (h : pushLong v s = .ok u s') :
    Builds s (ofOp (.pushLong v)) s' := by
  unfold pushLong at h
  split at h
  · rename_i hv
    subst hv
    exact plain_builds _ rfl rfl hs h
  · split at h
    · rename_i hv
      subst hv
      exact plain_builds _ rfl rfl hs h
    · exact interned_builds (PoolBuilder.internLong_sound hs)
        (fun hs₁ hi h₁ => longConstant_builds hs₁ hi h₁) h

theorem widen_builds {source : DataType} {target : Kind} (hs : s.pool.Sound)
    (h : widen source target s = .ok u s') : Builds s (widening source target) s' := by
  unfold widen at h
  obtain ⟨kind, s₁, h₁, h⟩ := bind_ok.1 h
  obtain ⟨hkind, rfl⟩ := Lower.valueKind_ok.1 h₁
  unfold widening
  rw [hkind]
  split at h
  · obtain ⟨_, s₁, h₁, h⟩ := bind_ok.1 h
    have hb₁ := plain_builds .i2l rfl rfl hs h₁
    split at h
    · rename_i hunsigned
      rw [if_pos hunsigned]
      refine hb₁.seq (interned_builds (PoolBuilder.internLong_sound hb₁.pool.sound) ?_ h)
      intro i s₂ hs₂ hi h₂
      obtain ⟨_, s₃, h₃, h₄⟩ := bind_ok.1 h₂
      have hb₃ := longConstant_builds hs₂ hi h₃
      exact hb₃.seq (plain_builds _ rfl rfl hb₃.pool.sound h₄)
    · rename_i hunsigned
      rw [if_neg hunsigned]
      obtain ⟨-, rfl⟩ := pure_ok.1 h
      exact hb₁
  · exact plain_builds _ rfl rfl hs h
  · obtain ⟨-, rfl⟩ := pure_ok.1 h
    split
    · simp_all
    · simp_all
    · exact .nil hs

theorem narrow_builds {ty : DataType} (hs : s.pool.Sound) (h : narrow ty s = .ok u s') :
    Builds s (narrowing ty) s' := by
  unfold narrow at h
  unfold narrowing
  cases hn : ty.narrowing? with
  | none =>
    rw [hn] at h
    obtain ⟨-, rfl⟩ := pure_ok.1 h
    exact .nil hs
  | some n =>
    rw [hn] at h
    cases n with
    | convert op =>
      have hop : op = .i2b ∨ op = .i2s ∨ op = .i2c := by
        unfold DataType.narrowing? at hn
        split at hn <;> cases hn <;> simp
      rcases hop with rfl | rfl | rfl <;> exact plain_builds _ rfl rfl hs h
    | mask bits =>
      obtain ⟨_, s₁, h₁, h₂⟩ := bind_ok.1 h
      have hb₁ := pushInt_builds hs h₁
      exact hb₁.seq (plain_builds _ rfl rfl hb₁.pool.sound h₂)

theorem convert_builds {source target : DataType} (hs : s.pool.Sound)
    (h : convert source target s = .ok u s') : Builds s (conversion source target) s' := by
  unfold convert at h
  unfold conversion
  split at h
  · rename_i heq
    obtain ⟨-, rfl⟩ := pure_ok.1 h
    rw [if_pos heq]
    exact .nil hs
  · rename_i heq
    rw [if_neg heq]
    obtain ⟨kind, s₁, h₁, h⟩ := bind_ok.1 h
    obtain ⟨hkind, rfl⟩ := Lower.valueKind_ok.1 h₁
    rw [hkind]
    split at h
    · rename_i href
      subst href
      obtain ⟨-, rfl⟩ := pure_ok.1 h
      exact .nil hs
    · rename_i href
      obtain ⟨_, s₁, h₁, h₂⟩ := bind_ok.1 h
      have hb₁ := widen_builds hs h₁
      have hb := hb₁.seq (narrow_builds hb₁.pool.sound h₂)
      cases kind with
      | int => exact hb
      | long => exact hb
      | reference => exact absurd rfl href

theorem load_builds {kind : Kind} {slot : Nat} (hs : s.pool.Sound)
    (h : Lower.code (Asm.load kind slot) s = .ok u s') : Builds s (ofOp (.load kind slot)) s' := by
  obtain ⟨b, hb, rfl⟩ := Lower.code_ok.1 h
  obtain ⟨hslot, hemits⟩ := Asm.load_emits hb
  have hmeans := Asm.loadInstruction_means kind slot
    (by unfold maxFrameWords at hslot; omega)
  have hv : verifyOperand s.pool.pool (Asm.localInstruction kind.loadOp kind.loadShort slot) =
      .ok () := by
    unfold Asm.localInstruction
    split
    · rfl
    · split <;> cases kind <;> rfl
  have hgives : Kind.wordsOf (Operation.frame (.load kind slot)).gives = kind.words :=
    Nat.add_zero kind.words
  refine ⟨.refl hs, rfl, Operation.laid_of_emits hmeans ⟨rfl, .inl hmeans.action⟩ hv ?_⟩
  rw [hgives]
  exact hemits

theorem field_builds {field : Member} (hs : s.pool.Sound)
    (h : (do
      let index ← Lower.pool (PoolBuilder.internField field)
      Lower.code (Asm.getStatic index 1) : Lower Unit) s = .ok u s') :
    Builds s (.op (.field field)) s' := by
  refine interned_builds (PoolBuilder.internField_sound hs) ?_ h
  rintro i s₁ hs₁ ⟨hm, cls, sig, hg⟩ h₁
  exact instruction_builds (.short .getstatic i) (.frame (.getStatic i)) hs₁
    ⟨rfl, rfl, rfl, rfl⟩ ⟨i, rfl, hm⟩
    (ConstantPool.expectAny_of_get? "Fieldref" [] hg (.inl rfl)) rfl rfl h₁

/-- The instruction that calls in a way. -/
def CallMode.opcode : CallMode → Opcode
  | .virtual => .invokevirtual
  | .special => .invokespecial
  | .static => .invokestatic

theorem CallMode.means (mode : CallMode) (index : UInt16) :
    Asm.Means (.short mode.opcode index) (.invoke mode index) := by
  cases mode <;> exact ⟨rfl, rfl, rfl, rfl⟩

theorem Kind.wordsOf_append (ks ks' : List Kind) :
    Kind.wordsOf (ks ++ ks') = Kind.wordsOf ks + Kind.wordsOf ks' := by
  induction ks with
  | nil => simp [wordsOf]
  | cons k ks ih => simp [wordsOf, ih, Nat.add_assoc]

theorem Kind.wordsOf_reverse (ks : List Kind) : Kind.wordsOf ks.reverse = Kind.wordsOf ks := by
  induction ks with
  | nil => rfl
  | cons k ks ih => simp [wordsOf_append, wordsOf, ih, Nat.add_comm]

theorem invoke_builds (mode : CallMode) (args : List Kind) (result : Option Kind) {index : UInt16}
    {callee : Member} {argWords resultWords : Nat} (hs : s.pool.Sound)
    (hm : s.pool.pool.member? index = some callee)
    (hr : ∃ cls sig, s.pool.pool.get? index = some (.methodRef cls sig))
    (hargs : argWords = Kind.wordsOf args) (hresult : resultWords = Kind.wordsOf result.toList)
    (h : Lower.code (Asm.invoke mode.opcode index argWords resultWords) s = .ok u s') :
    Builds s (.op (.invoke mode callee args result)) s' := by
  obtain ⟨cls, sig, hg⟩ := hr
  have hv := ConstantPool.expectAny_of_get? "Methodref" [] hg (.inl rfl)
  refine instruction_builds _ _ hs (mode.means index) ⟨index, (mode.means index).action, hm⟩ ?_ ?_
    hresult h
  · cases mode <;> exact hv
  · subst hargs
    cases mode
    · exact ((Kind.wordsOf_append _ _).trans (by rw [Kind.wordsOf_reverse]; rfl)).symm
    · exact ((Kind.wordsOf_append _ _).trans (by rw [Kind.wordsOf_reverse]; rfl)).symm
    · exact (Kind.wordsOf_reverse args).symm

theorem invokeStatic_builds {m : Member} (args : List Kind) (result : Option Kind)
    {argWords resultWords : Nat} (hs : s.pool.Sound) (hargs : argWords = Kind.wordsOf args)
    (hresult : resultWords = Kind.wordsOf result.toList)
    (h : Lower.invokeStatic m argWords resultWords s = .ok u s') :
    Builds s (.op (.invoke .static m args result)) s' := by
  refine interned_builds (PoolBuilder.internMethod_sound hs) ?_ h
  rintro i s₁ hs₁ ⟨hm, hr⟩ h₁
  exact invoke_builds .static _ _ hs₁ hm hr hargs hresult h₁

theorem pushDefault_builds {ty : DataType} (hs : s.pool.Sound)
    (h : pushDefault ty s = .ok u s') :
    Builds s (defaultValue ty) s' ∧ ty.kind?.isSome := by
  unfold pushDefault at h
  obtain ⟨kind, s₁, h₁, h⟩ := bind_ok.1 h
  obtain ⟨hkind, rfl⟩ := Lower.valueKind_ok.1 h₁
  refine ⟨?_, by simp [hkind]⟩
  unfold defaultValue
  rw [hkind]
  cases kind with
  | int => exact plain_builds _ rfl rfl hs h
  | long => exact plain_builds _ rfl rfl hs h
  | reference =>
    dsimp only at h ⊢
    cases hc : ty.className? with
    | none =>
      rw [hc] at h
      exact plain_builds _ rfl rfl hs h
    | some name =>
      rw [hc] at h
      -- a new object of the class, on which its constructor is called
      refine interned_builds (PoolBuilder.internClass_sound hs) ?_ h
      intro cls s₁ hs₁ hcls h₁
      refine interned_builds (P := fun p i => p.pool.className? cls = some name ∧
        p.pool.member? i = some ⟨name, "<init>", "()V"⟩ ∧
          ∃ cls sig, p.pool.get? i = some (.methodRef cls sig)) ?_ ?_ h₁
      · intro i p hp
        obtain ⟨hg, hm⟩ := PoolBuilder.internMethod_sound hs₁ hp
        exact ⟨hg, ConstantPool.className?_mono hg.le hcls, hm⟩
      · rintro i s₂ hs₂ ⟨hcls₂, hm, hr⟩ h₂
        obtain ⟨_, s₃, h₃, h₂⟩ := bind_ok.1 h₂
        obtain ⟨_, s₄, h₄, h₅⟩ := bind_ok.1 h₂
        obtain ⟨n, hn, -⟩ := ConstantPool.className?_eq_some_iff.1 hcls₂
        have hb₃ : Builds s₂ (.op (.create name)) s₃ :=
          instruction_builds (.short .new cls) (.new cls) hs₂
            ⟨rfl, rfl, rfl, rfl⟩ ⟨cls, rfl, hcls₂⟩
            (ConstantPool.expectAny_of_get? "Class" [] hn (.inl rfl))
            rfl rfl h₃
        have hb₄ := plain_builds .dup rfl rfl hb₃.pool.sound h₄
        have hle := ConstantPool.le_trans hb₃.pool.le hb₄.pool.le
        obtain ⟨c, sig, hg⟩ := hr
        exact hb₃.seq (hb₄.seq (invoke_builds .special _ _ hb₄.pool.sound
          (ConstantPool.member?_mono hle hm) ⟨c, sig, ConstantPool.get?_mono hle hg⟩ rfl rfl h₅))

end Leaves

end ClassFoundry
