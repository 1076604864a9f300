import ClassFoundry.Proofs.Assembler.Resolution
import ClassFoundry.Proofs.Progress
import ClassFoundry.Proofs.Structured.Typing

/-!
# Code without branches can be lowered

Lowering to code without branches fails only for want of room: in the constant pool, in the code, or on
the stack. What each piece of code takes is known in advance, so that the pieces of a function add up to
what the whole function takes.

## Main definitions

* `Assembler.Straight`, `LowerState.Ready`: room for more code without branches
* `Advances`: lowering that succeeds if there is room

## Main results

* `instruction_straight`: one instruction takes its bytes
* `pushInt_advances`, `pushLong_advances`: numbers take at most three bytes
* `convert_advances`: conversions of numbers take at most nine bytes
* `FunDef.lowers_of_advances`, `FunDef.lowers_return`: functions with such a body, and functions that
  return the value of such code, can be lowered
-/

namespace ClassFoundry

/-- **A body that goes on without branches** from `base`: the words on the stack, and room for more
bytes of code. -/
structure Assembler.Straight (a base : Assembler) (depth bytes : Nat) : Prop where
  depth : a.depth = depth
  size : a.code.size + bytes ≤ maxCodeLength
  labels : a.labels = base.labels
  branches : a.branches = base.branches

/-- **A function body in the making**, with room for more constants and more bytes of code. -/
structure LowerState.Ready (s : LowerState) (base : Assembler) (l : Locals)
    (slots bytes depth : Nat) : Prop where
  locals : s.locals = l
  pool : s.pool.HasRoom slots
  asm : s.asm.Straight base depth bytes

/-- **Lowering that succeeds** if there is room, takes no more than it says, and changes the depth of
the stack in a known way. -/
def Advances (l : Locals) (slots bytes depth depth' : Nat) (x : Lower Unit) : Prop :=
  ∀ ⦃base⦄ m n s, s.Ready base l (slots + m) (bytes + n) depth →
    ∃ s', x s = .ok () s' ∧ s'.Ready base l m n depth'

/-- Work of the assembler that succeeds if there is room. -/
def AsmAdvances (bytes depth depth' : Nat) (x : Asm Unit) : Prop :=
  ∀ ⦃base⦄ n a, a.Straight base depth (bytes + n) →
    ∃ a', x a = .ok () a' ∧ a'.Straight base depth' n

/-! ## Instructions -/

section Instructions

variable {depth : Nat}

theorem size_foldl_push (bytes : Bytes) (code : CodeArray) :
    (bytes.foldl Array.push code).size = code.size + bytes.length := by
  rw [← Array.length_toList, Asm.toList_foldl_push, List.length_append, Array.length_toList]

/-- **One instruction** takes its bytes and has its effect on the stack. -/
theorem instruction_straight (i : Instruction) {pops pushes : Nat}
    (hdepth : depth + pushes ≤ maxFrameWords) :
    AsmAdvances i.length (depth + pops) (depth + pushes) (Asm.instruction i pops pushes) := by
  intro base n a ha
  have hpops : pops ≤ a.depth := by
    rw [ha.depth]
    exact Nat.le_add_left ..
  have hleft : a.depth - pops = depth := by rw [ha.depth, Nat.add_sub_cancel]
  refine ⟨_, bind_ok.2 ⟨(), _, Asm.record_ok.2 rfl, bind_ok.2 ⟨_, _, Asm.pc_ok.2 ⟨rfl, rfl⟩,
    bind_ok.2 ⟨(), _, Asm.emit_ok.2 rfl, bind_ok.2 ⟨(), _, Asm.popWords_ok.2 ⟨hpops, rfl⟩,
      Asm.pushWords_ok.2 ⟨?_, rfl⟩⟩⟩⟩⟩, ?_⟩
  · show a.depth - pops + pushes ≤ maxFrameWords
    rwa [hleft]
  · refine ⟨?_, ?_, ha.labels, ha.branches⟩
    · show a.depth - pops + pushes = depth + pushes
      rw [hleft]
    · show (i.encode.foldl Array.push a.code).size + n ≤ maxCodeLength
      rw [size_foldl_push, i.length_encode, Nat.add_assoc]
      exact ha.size

theorem plain_straight {op : Opcode} {pops pushes : Nat} (heffect : op.effect? = some (pops, pushes))
    (hdepth : depth + pushes ≤ maxFrameWords) :
    AsmAdvances 1 (depth + pops) (depth + pushes) (Asm.plain op) := by
  intro base n a ha
  obtain ⟨b, hb, hstraight⟩ := instruction_straight (.plain op) hdepth n a ha
  refine ⟨{ b with alive := b.alive && !op.isTerminal }, ?_, ?_⟩
  · unfold Asm.plain
    rw [heffect]
    exact bind_ok.2 ⟨(), b, hb, modify_ok.2 rfl⟩
  · exact ⟨hstraight.depth, hstraight.size, hstraight.labels, hstraight.branches⟩

/-- The load of a local takes at most the four bytes of the wide form. -/
theorem load_straight (kind : Kind) {slot : Nat} (hslot : slot + kind.words ≤ maxFrameWords)
    (hdepth : depth + kind.words ≤ maxFrameWords) :
    AsmAdvances 4 depth (depth + kind.words) (Asm.load kind slot) := by
  intro base n a ha
  have haccess : ∃ b, Asm.localAccess kind.loadOp kind.loadShort slot a = .ok () b := by
    unfold Asm.localAccess
    split
    · exact ⟨_, bind_ok.2 ⟨(), _, Asm.record_ok.2 rfl, Asm.emit_ok.2 rfl⟩⟩
    · split <;> exact ⟨_, bind_ok.2 ⟨(), _, Asm.record_ok.2 rfl, Asm.emit_ok.2 rfl⟩⟩
  obtain ⟨b, hb⟩ := haccess
  obtain ⟨shown, rfl⟩ := Asm.localAccess_ok hb
  have hlength : (Asm.localInstruction kind.loadOp kind.loadShort slot).length ≤ 4 := by
    unfold Asm.localInstruction
    split
    · exact (by decide : 1 ≤ 4)
    · split
      · exact (by decide : 2 ≤ 4)
      · exact Nat.le_refl 4
  refine ⟨_, bind_ok.2 ⟨(), _, hb, bind_ok.2 ⟨(), _, Asm.touchLocal_ok.2 ⟨hslot, rfl⟩,
    Asm.pushWords_ok.2 ⟨by rwa [ha.depth], rfl⟩⟩⟩, ?_⟩
  refine ⟨?_, ?_, ha.labels, ha.branches⟩
  · show a.depth + kind.words = depth + kind.words
    rw [ha.depth]
  · show ((Asm.localInstruction kind.loadOp kind.loadShort slot).encode.foldl Array.push
      a.code).size + n ≤ maxCodeLength
    rw [size_foldl_push, Instruction.length_encode]
    have := ha.size
    omega

end Instructions

/-! ## Lowering -/

section Lowering

variable {l : Locals} {i j i' j' d d₁ d₂ : Nat} {x y : Lower Unit}

/-- More room does not harm. -/
theorem Advances.mono (h : Advances l i j d d₁ x) (hi : i ≤ i') (hj : j ≤ j') :
    Advances l i' j' d d₁ x := by
  intro base m n s hs
  refine h m n s ⟨hs.locals, ?_, hs.asm.depth, ?_, hs.asm.labels, hs.asm.branches⟩
  · have := hs.pool
    unfold PoolBuilder.HasRoom at this ⊢
    omega
  · have := hs.asm.size
    omega

/-- **What one piece of code leaves is there for the next**. -/
theorem Advances.seq (hx : Advances l i j d d₁ x) (hy : Advances l i' j' d₁ d₂ y) :
    Advances l (i + i') (j + j') d d₂ (do x; y) := by
  intro base m n s hs
  rw [Nat.add_assoc, Nat.add_assoc] at hs
  obtain ⟨s₁, h₁, hs₁⟩ := hx (i' + m) (j' + n) s hs
  obtain ⟨s₂, h₂, hs₂⟩ := hy m n s₁ hs₁
  exact ⟨s₂, bind_ok.2 ⟨(), s₁, h₁, h₂⟩, hs₂⟩

/-- Nothing to do takes no room. -/
theorem pure_advances : Advances l 0 0 d d (pure ()) := by
  intro base m n s hs
  rw [Nat.zero_add, Nat.zero_add] at hs
  exact ⟨s, rfl, hs⟩

theorem AsmAdvances.code {x : Asm Unit} (h : AsmAdvances j d d₁ x) :
    Advances l 0 j d d₁ (Lower.code x) := by
  intro base m n s hs
  obtain ⟨b, hb, hstraight⟩ := h n s.asm hs.asm
  have hpool := hs.pool
  rw [Nat.zero_add] at hpool
  exact ⟨_, Lower.code_ok.2 ⟨b, hb, rfl⟩, hs.locals, hpool, hstraight⟩

/-- A constant is made before the code that uses it. -/
theorem Takes.advances {k : UInt16 → Asm Unit} {z : PoolM UInt16} (hz : Takes i z)
    (hk : ∀ index, AsmAdvances j d d₁ (k index)) :
    Advances l i j d d₁ (do let index ← Lower.pool z; Lower.code (k index)) := by
  intro base m n s hs
  obtain ⟨index, q, hq, hroom⟩ := hz m s.pool hs.pool
  obtain ⟨b, hb, hstraight⟩ := hk index n s.asm hs.asm
  exact ⟨_, bind_ok.2 ⟨index, _, Lower.pool_ok.2 ⟨q, hq, rfl⟩, Lower.code_ok.2 ⟨b, hb, rfl⟩⟩,
    hs.locals, hroom, hstraight⟩

theorem plain_advances {op : Opcode} {pops pushes : Nat} (heffect : op.effect? = some (pops, pushes))
    (hdepth : d + pushes ≤ maxFrameWords) :
    Advances l 0 1 (d + pops) (d + pushes) (Lower.plain op) :=
  (plain_straight heffect hdepth).code

/-- A variable takes the load of its slot. -/
theorem identValue_advances {name : String} {ty : DataType} {slot : Slot} {kind : Kind}
    (hfind : l.find? name = some slot) (hslot : slot.ty.kind? = some kind)
    (hty : ty.kind? = some kind) (hfits : slot.slot + kind.words ≤ maxFrameWords)
    (hdepth : d + kind.words ≤ maxFrameWords) :
    Advances l 0 4 d (d + kind.words) (identValue name ty) := by
  intro base m n s hs
  obtain ⟨s', h', hs'⟩ := (load_straight kind hfits hdepth).code m n s hs
  refine ⟨s', ?_, hs'⟩
  refine bind_ok.2 ⟨slot, s, Lower.resolve_ok.2 ⟨hs.locals ▸ hfind, rfl⟩, ?_⟩
  refine bind_ok.2 ⟨kind, s, Lower.valueKind_ok.2 ⟨hslot, rfl⟩, ?_⟩
  rw [if_neg (not_not.2 hty)]
  exact h'

/-! ### Numbers -/

/-- Small ints have instructions of their own; of the others nothing is said. -/
theorem smallInt_straight (v : Int32) (hdepth : d + 1 ≤ maxFrameWords) {n : Nat}
    {a base : Assembler} (ha : a.Straight base d (3 + n)) :
    ∃ small a', Asm.smallInt v a = .ok small a' ∧
      if small then a'.Straight base (d + 1) n else a' = a := by
  -- one of three instructions, none of more than three bytes
  have hemitted {x : Asm Unit} {k : Nat} (hk : k ≤ 3) (hx : AsmAdvances k (d + 0) (d + 1) x) :
      ∃ small a', (do x; return true : Asm Bool) a = .ok small a' ∧
        if small then a'.Straight base (d + 1) n else a' = a := by
    have hless : a.Straight base d (k + n) := by
      refine ⟨ha.depth, ?_, ha.labels, ha.branches⟩
      have := ha.size
      omega
    obtain ⟨a', ha', hstraight⟩ := hx n a hless
    exact ⟨true, a', bind_ok.2 ⟨(), a', ha', rfl⟩, hstraight⟩
  unfold Asm.smallInt
  split <;> rename_i hv
  · have heffect : ∀ k : Fin 7, Opcode.effect? (UInt8.ofNat (k + 2)) = some (0, 1) := by decide
    have hopcode := heffect ⟨(v.toInt + 1).toNat, by omega⟩
    have hsame : (v.toInt + 1).toNat + 2 = (v.toInt + 3).toNat := by omega
    rw [hsame] at hopcode
    exact hemitted (k := 1) (by decide) (plain_straight hopcode hdepth)
  · split
    · exact hemitted (k := 2) (by decide) (instruction_straight (.byte ..) hdepth)
    · split
      · exact hemitted (k := 3) (by decide) (instruction_straight (.short ..) hdepth)
      · exact ⟨false, a, rfl, rfl⟩

theorem constant_straight (index : UInt16) (hdepth : d + 1 ≤ maxFrameWords) :
    AsmAdvances 3 d (d + 1) (Asm.constant index) := by
  intro base n a ha
  unfold Asm.constant
  split
  · have hless : a.Straight base d ((Instruction.byte .ldc index.toUInt8).length + n) := by
      refine ⟨ha.depth, ?_, ha.labels, ha.branches⟩
      have := ha.size
      show a.code.size + (2 + n) ≤ maxCodeLength
      omega
    exact instruction_straight _ hdepth n a hless
  · exact instruction_straight (.short .ldc_w index) hdepth n a ha

theorem longConstant_straight (index : UInt16) (hdepth : d + 2 ≤ maxFrameWords) :
    AsmAdvances 3 (d + 0) (d + 2) (Asm.longConstant index) :=
  instruction_straight (.short .ldc2_w index) hdepth

/-- **An int** takes at most one constant and three bytes. -/
theorem pushInt_advances (v : Int32) (hdepth : d + 1 ≤ maxFrameWords) :
    Advances l 1 3 d (d + 1) (pushInt v) := by
  intro base m n s hs
  obtain ⟨small, a, ha, hsmall⟩ := smallInt_straight v hdepth hs.asm
  have hcode : Lower.code (Asm.smallInt v) s = .ok small { s with asm := a } :=
    Lower.code_ok.2 ⟨a, ha, rfl⟩
  cases small with
  | true =>
    refine ⟨{ s with asm := a }, bind_ok.2 ⟨true, _, hcode, rfl⟩, hs.locals, ?_, hsmall⟩
    have := hs.pool
    unfold PoolBuilder.HasRoom at this ⊢
    dsimp only
    omega
  | false =>
    obtain rfl : a = s.asm := hsmall
    obtain ⟨s', h', hs'⟩ := Takes.advances (PoolBuilder.intern_takes (.integer v))
      (fun index => constant_straight index hdepth) m n s hs
    exact ⟨s', bind_ok.2 ⟨false, _, hcode, h'⟩, hs'⟩

/-- **A long** takes at most two slots and three bytes. -/
theorem pushLong_advances (v : Int64) (hdepth : d + 2 ≤ maxFrameWords) :
    Advances l 2 3 d (d + 2) (pushLong v) := by
  have hplain {op : Opcode} (heffect : op.effect? = some (0, 2)) :
      Advances l 2 3 d (d + 2) (Lower.plain op) :=
    (plain_advances heffect hdepth).mono (Nat.zero_le _) (by decide)
  unfold pushLong
  split
  · exact hplain rfl
  · split
    · exact hplain rfl
    · exact Takes.advances (PoolBuilder.intern_takes (.long v)) fun index =>
        longConstant_straight index hdepth

/-- A call of a static method takes what its name takes. -/
theorem invokeStatic_advances (callee : Member) (ho : ShortText callee.owner)
    (hn : ShortText callee.name) (hd : ShortText callee.descriptor) {args result : Nat}
    (hdepth : d + result ≤ maxFrameWords) :
    Advances l 6 3 (d + args) (d + result) (Lower.invokeStatic callee args result) :=
  Takes.advances (PoolBuilder.internMethod_takes ho hn hd) fun index =>
    instruction_straight (.short .invokestatic index) hdepth

/-! ### Literals -/

/-- **The literals that a type has**: those of one word have to fit a word, with a sign or, if the type
has none, without. -/
def DataType.HasLiteral (ty : DataType) (v : Int64) : Prop :=
  ty.isLong = true ∨ (-2147483648 ≤ v.toInt ∧ v.toInt ≤ 2147483647) ∨
    (ty.isUnsigned = true ∧ 0 ≤ v.toInt ∧ v.toInt ≤ 4294967295)

instance (ty : DataType) (v : Int64) : Decidable (ty.HasLiteral v) := by
  unfold DataType.HasLiteral
  infer_instance

section Numbers

variable {ty : DataType} (hty : ty.IsNumber)

include hty

theorem literalValue_advances {v : Int64} (hv : ty.HasLiteral v) (hdepth : d + 2 ≤ maxFrameWords) :
    Advances l 2 3 d (d + ty.numberKind.words) (literalValue v ty) := by
  intro base m n s hs
  have hkind : Lower.valueKind ty s = .ok ty.numberKind s := Lower.valueKind_ok.2 ⟨hty.kind?, rfl⟩
  unfold literalValue
  rw [bind_of_ok hkind]
  unfold DataType.numberKind
  cases hlong : ty.isLong with
  | true => exact pushLong_advances v hdepth m n s hs
  | false =>
    have hfits := hv.resolve_left (by simp [hlong])
    dsimp only
    rw [if_neg (by simp), if_pos hfits]
    exact (pushInt_advances v.toInt32 (by omega)).mono (by decide) (Nat.le_refl _) m n s hs

/-- A literal that the type does not have is refused. -/
theorem literalValue_refuses {v : Int64} (hv : ¬ ty.HasLiteral v) (s : LowerState) :
    literalValue v ty s = .error (.violation (.literalTooLarge v ty)) s := by
  have hkind : Lower.valueKind ty s = .ok ty.numberKind s := Lower.valueKind_ok.2 ⟨hty.kind?, rfl⟩
  obtain ⟨hlong, hfits⟩ := not_or.1 hv
  unfold literalValue
  rw [bind_of_ok hkind]
  unfold DataType.numberKind
  dsimp only
  rw [if_neg hlong, if_neg hfits]
  rfl

/-! ### Arithmetic -/

/-- A number of the kind that is asked for stays as it is. -/
theorem widen_same (s : LowerState) : widen ty ty.numberKind s = .ok () s := by
  refine (bind_of_ok (Lower.valueKind_ok.2 ⟨hty.kind?, rfl⟩)).trans ?_
  unfold DataType.numberKind
  cases ty.isLong <;> rfl

/-- A number stays as it is, or loses its upper half. -/
theorem widen_advances {target : Kind} (htarget : target = ty.numberKind ∨ target = .int)
    (hdepth : d + 1 ≤ maxFrameWords) :
    Advances l 0 1 (d + ty.numberKind.words) (d + target.words) (widen ty target) := by
  by_cases hsame : target = ty.numberKind
  · subst hsame
    intro base m n s hs
    refine ⟨s, widen_same hty s, hs.locals, Nat.zero_add m ▸ hs.pool, hs.asm.depth, ?_,
      hs.asm.labels, hs.asm.branches⟩
    have := hs.asm.size
    omega
  · obtain rfl := htarget.resolve_left hsame
    -- only a long is no int
    have hlong : ty.numberKind = .long := by
      unfold DataType.numberKind at hsame ⊢
      cases hlong : ty.isLong with
      | true => rfl
      | false => simp [hlong] at hsame
    have hwiden : widen ty .int = Lower.plain .l2i := by
      funext s
      refine (bind_of_ok (Lower.valueKind_ok.2 ⟨hty.kind?, rfl⟩)).trans ?_
      rw [hlong]
    rw [hwiden, hlong]
    exact plain_advances rfl hdepth

/-- A number becomes a long by its sign, or by zeros that take a mask. -/
theorem widen_long_advances (hdepth : d + 4 ≤ maxFrameWords) :
    Advances l 2 5 (d + ty.numberKind.words) (d + 2) (widen ty .long) := by
  cases hkind : ty.numberKind with
  | reference => exact absurd hkind ty.numberKind_ne
  | long =>
    have hsame := widen_advances (l := l) (d := d) hty (.inl hkind.symm) (by omega)
    rw [hkind] at hsame
    exact hsame.mono (Nat.zero_le _) (by decide)
  | int =>
    have hextend : Advances l 0 1 (d + 1) (d + 2) (Lower.plain .i2l) :=
      plain_advances rfl (by omega)
    have hmask : Advances l 2 3 (d + 2) (d + 4) (do
        let mask ← Lower.pool (PoolBuilder.internLong 0xffffffff)
        Lower.code (Asm.longConstant mask)) :=
      Takes.advances (PoolBuilder.intern_takes (.long 0xffffffff)) fun index =>
        longConstant_straight index hdepth
    have hand : Advances l 0 1 (d + 4) (d + 2) (Lower.plain .land) := plain_advances rfl (by omega)
    have hwiden : widen ty .long = (do
        Lower.plain .i2l
        if ty.needsUnsignedOps then
          let mask ← Lower.pool (PoolBuilder.internLong 0xffffffff)
          Lower.code (Asm.longConstant mask)
          Lower.plain .land) := by
      funext s
      refine (bind_of_ok (Lower.valueKind_ok.2 ⟨hty.kind?, rfl⟩)).trans ?_
      rw [hkind]
    rw [hwiden]
    show Advances l 2 5 (d + 1) (d + 2) _
    by_cases hneeds : ty.needsUnsignedOps = true
    · rw [if_pos hneeds]
      have hall := hextend.seq (hmask.seq hand)
      rwa [bind_assoc] at hall
    · rw [if_neg hneeds]
      simpa using hextend.mono (Nat.zero_le 2) (by decide : 1 ≤ 5)

theorem numberKind_succeeds (whole : Expr) (s : LowerState) :
    numberKind ty whole s = .ok ty.numberKind s := by
  refine (bind_of_ok (Lower.valueKind_ok.2 ⟨hty.kind?, rfl⟩)).trans ?_
  unfold DataType.numberKind
  cases ty.isLong <;> rfl

omit hty in
/-- The types that are cut are those of ints. -/
theorem numberKind_of_narrowing? (h : ty.narrowing? ≠ none) : ty.numberKind = .int := by
  cases ty with
  | int width unsigned =>
    cases width with
    | w8 | w16 => rfl
    | w32 | w64 => exact absurd rfl h
  | char => rfl
  | _ => exact absurd rfl h

omit hty in
/-- Cutting to a narrower type takes a conversion, or a mask. -/
theorem narrow_advances (ty : DataType) (hdepth : d + 2 ≤ maxFrameWords) :
    Advances l 1 4 (d + ty.numberKind.words) (d + ty.numberKind.words) (narrow ty) := by
  unfold narrow
  split <;> rename_i hnarrowing
  · rename_i op
    rw [numberKind_of_narrowing? (by simp [hnarrowing])]
    have heffect : op.effect? = some (1, 1) := by
      unfold DataType.narrowing? at hnarrowing
      split at hnarrowing <;> cases hnarrowing <;> rfl
    exact (plain_advances heffect (by omega)).mono (by decide) (by decide)
  · rw [numberKind_of_narrowing? (by simp [hnarrowing])]
    have hand : Advances l 0 1 (d + 2) (d + 1) (Lower.plain .iand) := plain_advances rfl (by omega)
    exact (pushInt_advances _ hdepth).seq hand
  · exact pure_advances.mono (Nat.zero_le _) (Nat.zero_le _)

/-- **A number becomes one of another type** in at most three slots and nine bytes. -/
theorem convert_advances {target : DataType} (htarget : target.IsNumber)
    (hdepth : d + 4 ≤ maxFrameWords) :
    Advances l 3 9 (d + ty.numberKind.words) (d + target.numberKind.words) (convert ty target) := by
  by_cases hsame : ty = target
  · subst hsame
    unfold convert
    rw [if_pos rfl]
    exact pure_advances.mono (Nat.zero_le _) (Nat.zero_le _)
  · have hwiden : Advances l 2 5 (d + ty.numberKind.words) (d + target.numberKind.words)
        (widen ty target.numberKind) := by
      cases hkind : target.numberKind with
      | reference => exact absurd hkind target.numberKind_ne
      | long => exact widen_long_advances hty hdepth
      | int => exact (widen_advances hty (.inr rfl) (by omega)).mono (Nat.zero_le _) (by decide)
    have hall := hwiden.seq (narrow_advances target (by omega))
    intro base m n s hs
    obtain ⟨s', h', hs'⟩ := hall m n s hs
    refine ⟨s', ?_, hs'⟩
    unfold convert
    rw [if_neg hsame, bind_of_ok (Lower.valueKind_ok.2 ⟨htarget.kind?, rfl⟩),
      if_neg target.numberKind_ne]
    exact h'

omit hty in
/-- A number as one of another type takes what it takes itself, and its conversion. -/
theorem valueAs_advances {e : Expr} {target : DataType} (he : e.ty.IsNumber)
    (htarget : target.IsNumber) (hdepth : d + 4 ≤ maxFrameWords)
    (hx : Advances l i j d (d + e.ty.numberKind.words) x) :
    Advances l (i + 3) (j + 9) d (d + target.numberKind.words) (valueAs e x target) := by
  intro base m n s hs
  obtain ⟨s', h', hs'⟩ := (hx.seq (convert_advances he htarget hdepth)) m n s hs
  refine ⟨s', ?_, hs'⟩
  have hnumber (ty : DataType) : (ty.numberKind == .reference) = false :=
    beq_false_of_ne ty.numberKind_ne
  unfold valueAs
  rw [bind_of_ok (Lower.valueKind_ok.2 ⟨htarget.kind?, rfl⟩),
    bind_of_ok (Lower.valueKind_ok.2 ⟨he.kind?, rfl⟩), hnumber, hnumber, if_neg (by decide)]
  exact h'

omit hty in
theorem shortText_helpers : ShortText "java/lang/Long" ∧ ShortText "(JJ)J" ∧
    ShortText "java/lang/Integer" ∧ ShortText "(II)I" := by
  unfold ShortText
  decide

omit hty in
theorem shortText_unsignedMethod {op : Arith} {name : String}
    (hname : op.unsignedMethod? = some name) : ShortText name := by
  have hnames : ShortText "divideUnsigned" ∧ ShortText "remainderUnsigned" := by
    unfold ShortText
    decide
  cases op with
  | div => cases hname; exact hnames.1
  | mod => cases hname; exact hnames.2
  | _ => cases hname

omit hty in
/-- An operation takes one instruction, or the call of a method of the library. -/
theorem applyArith_advances (op : Arith) (ty : DataType) (hdepth : d + 2 ≤ maxFrameWords) :
    Advances l 6 3 (d + ty.numberKind.words + (if op.isShift then 1 else ty.numberKind.words))
      (d + ty.numberKind.words) (applyArith op ty (ty.numberKind == .long)) := by
  have hplain : Advances l 6 3
      (d + ty.numberKind.words + (if op.isShift then 1 else ty.numberKind.words))
      (d + ty.numberKind.words) (Lower.plain (op.opcode (ty.numberKind == .long) ty.isUnsigned)) := by
    have heffect : (op.opcode (ty.numberKind == .long) ty.isUnsigned).effect? = some
        (ty.numberKind.words + (if op.isShift then 1 else ty.numberKind.words),
          ty.numberKind.words) := by
      unfold DataType.numberKind
      cases op <;> cases ty.isLong <;> cases ty.isUnsigned <;> rfl
    have hwords : d + ty.numberKind.words ≤ maxFrameWords := by
      have : ty.numberKind.words ≤ 2 := by cases ty.numberKind <;> decide
      omega
    have hadvances := (plain_advances (l := l) heffect hwords).mono (by decide : 0 ≤ 6)
      (by decide : 1 ≤ 3)
    rwa [← Nat.add_assoc] at hadvances
  unfold applyArith
  cases hname : op.unsignedMethod? with
  | none => exact hplain
  | some name =>
    dsimp only
    by_cases hneeds : ty.needsUnsignedOps = true
    · have hshift : op.isShift = false := by
        cases op with
        | shl | shr => cases hname
        | _ => rfl
      have htext := shortText_unsignedMethod hname
      rw [if_pos hneeds, hshift]
      cases hkind : ty.numberKind with
      | reference => exact absurd hkind ty.numberKind_ne
      | long =>
        show Advances l 6 3 (d + 4) (d + 2) (Lower.invokeStatic (unsignedLong name "(JJ)J") 4 2)
        exact invokeStatic_advances (unsignedLong name "(JJ)J") shortText_helpers.1 htext
          shortText_helpers.2.1 hdepth
      | int =>
        show Advances l 6 3 (d + 2) (d + 1) (Lower.invokeStatic (unsignedInt name "(II)I") 2 1)
        exact invokeStatic_advances (unsignedInt name "(II)I") shortText_helpers.2.2.1 htext
          shortText_helpers.2.2.2 (by omega)
    · rw [if_neg hneeds]
      exact hplain

section Operands

variable {lhs rhs whole : Expr} {op : Arith}

theorem numberAs_advances {target : Kind} (hlhs : lhs.ty = ty)
    (htarget : target = ty.numberKind ∨ target = .int) (hdepth : d + 1 ≤ maxFrameWords)
    (hx : Advances l i j d₁ (d + ty.numberKind.words) x) :
    Advances l i (j + 1) d₁ (d + target.words) (numberAs lhs x target) := by
  subst hlhs
  exact hx.seq (widen_advances hty htarget hdepth)

/-- **A binary operation** takes what its sides take, and at most seven slots and nine bytes more. -/
theorem arithValue_advances (hlhs : lhs.ty = ty) (hrhs : rhs.ty = ty)
    (hdepth : d + 3 ≤ maxFrameWords) (hx : Advances l i j d (d + ty.numberKind.words) x)
    (hy : Advances l i' j' (d + ty.numberKind.words)
      (d + ty.numberKind.words + ty.numberKind.words) y) :
    Advances l (i + i' + 7) (j + j' + 9) d (d + ty.numberKind.words)
      (arithValue op whole lhs rhs ty x y) := by
  have hwords : ty.numberKind.words ≤ 2 := by cases ty.numberKind <;> decide
  let target : Kind := if op.isShift then .int else ty.numberKind
  have htarget : target = ty.numberKind ∨ target = .int := by
    show (if op.isShift then Kind.int else _) = _ ∨ (if op.isShift then Kind.int else _) = _
    cases op.isShift with
    | true => exact .inr rfl
    | false => exact .inl rfl
  have happly := applyArith_advances (l := l) (d := d) op ty (by omega)
  have hdistance : (if op.isShift then 1 else ty.numberKind.words) = target.words := by
    show _ = Kind.words (if op.isShift then .int else _)
    cases op.isShift <;> rfl
  rw [hdistance] at happly
  have hleft := numberAs_advances hty hlhs (.inl rfl) (by omega) hx
  have hright := numberAs_advances hty hrhs htarget (by omega) hy
  have hall := hleft.seq (hright.seq (happly.seq
    (narrow_advances ty (by omega))))
  intro base m n s hs
  have hmore : Advances l (i + i' + 7) (j + j' + 9) d (d + ty.numberKind.words) _ :=
    hall.mono (by omega) (by omega)
  obtain ⟨s', h', hs'⟩ := hmore m n s hs
  refine ⟨s', ?_, hs'⟩
  unfold arithValue
  rw [bind_of_ok (numberKind_succeeds hty whole s), hlhs, hrhs,
    bind_of_ok (numberKind_succeeds hty whole s), bind_of_ok (numberKind_succeeds hty whole s)]
  exact h'

/-- **A unary operation** takes at most three slots and nine bytes more than what it is applied to. -/
theorem unaryValue_advances {op : UnaryArith} (hlhs : lhs.ty = ty) (hdepth : d + 4 ≤ maxFrameWords)
    (hx : Advances l i j d (d + ty.numberKind.words) x) :
    Advances l (i + 3) (j + 9) d (d + ty.numberKind.words) (unaryValue op whole lhs ty x) := by
  have hleft := numberAs_advances hty hlhs (.inl rfl) (by omega) hx
  have hnarrow := narrow_advances (l := l) (d := d) ty (by omega)
  have hplain {op : Opcode} {pops pushes : Nat} (heffect : op.effect? = some (pops, pushes))
      (hpushes : pushes ≤ 4) : Advances l 0 1 (d + pops) (d + pushes) (Lower.plain op) :=
    plain_advances heffect (by omega)
  intro base m n s hs
  unfold unaryValue
  rw [bind_of_ok (numberKind_succeeds hty whole s)]
  cases hkind : ty.numberKind with
  | reference => exact absurd hkind ty.numberKind_ne
  | int =>
    rw [hkind] at hleft hnarrow
    cases op with
    | neg =>
      have hneg : Advances l 0 1 (d + 1) (d + 1) (Lower.plain .ineg) := hplain rfl (by decide)
      exact (hleft.seq (hneg.seq hnarrow)).mono (by omega) (by omega) m n s hs
    | complement =>
      have hones : Advances l 0 1 (d + 1 + 0) (d + 1 + 1) (Lower.plain .iconst_m1) :=
        plain_advances rfl (by omega)
      have hxor : Advances l 0 1 (d + 2) (d + 1) (Lower.plain .ixor) := hplain rfl (by decide)
      exact (hleft.seq (hones.seq (hxor.seq hnarrow))).mono (by omega) (by omega) m n s hs
  | long =>
    rw [hkind] at hleft hnarrow
    cases op with
    | neg =>
      have hneg : Advances l 0 1 (d + 2) (d + 2) (Lower.plain .lneg) := hplain rfl (by decide)
      exact (hleft.seq (hneg.seq hnarrow)).mono (by omega) (by omega) m n s hs
    | complement =>
      have hones := pushLong_advances (l := l) (d := d + 2) (-1) (by omega)
      have hxor : Advances l 0 1 (d + 4) (d + 2) (Lower.plain .lxor) := hplain rfl (by decide)
      exact (hleft.seq (hones.seq (hxor.seq hnarrow))).mono (by omega) (by omega) m n s hs

end Operands

end Numbers

end Lowering

/-! ## Functions -/

section Functions

variable {p : Program} {f : FunDef} {e : Expr} {l : Locals} {slots bytes : Nat} {kind : Kind}

/-- A body that is short enough is finished once no branch waits for a label. -/
theorem finishBody_succeeds {s : LowerState} {base : Assembler} {m n d : Nat}
    (hs : s.Ready base l m n d) (hpending : base.labels.pending = #[])
    (hplaced : ∀ b ∈ base.branches, ∃ t, base.labels.offset? b.2 = some t) :
    ∃ body, finishBody s = .ok body s := by
  have htargets : ∀ b ∈ base.branches.toList, ∃ t, base.labels.offset? b.2 = some t := by
    simpa using hplaced
  obtain ⟨resolved, hresolved, -⟩ := resolveBranches_ok htargets
  have hnone : base.labels.firstUnresolved? = none :=
    LabelTable.firstUnresolved?_eq_none_iff.2 hpending
  have hsize : ¬ s.asm.code.size > maxCodeLength := by
    have := hs.asm.size
    omega
  obtain ⟨body, hbody⟩ : ∃ body, s.asm.finish = .ok body := by
    unfold Assembler.finish
    rw [hs.asm.labels, hs.asm.branches, hnone]
    dsimp only
    rw [if_neg hsize, hresolved]
    exact ⟨_, rfl⟩
  refine ⟨_, bind_ok.2 ⟨s, s, get_ok.2 ⟨rfl, rfl⟩,
    bind_ok.2 ⟨body, s, Lower.check_ok.2 ⟨?_, rfl⟩, rfl⟩⟩⟩
  rw [hbody]
  rfl

/-- A value of the type that is asked for stays as it is. -/
theorem valueAs_eq {x : Lower Unit} {ty : DataType} (hty : e.ty = ty) (hkind : ty.kind? = some kind)
    (s : LowerState) : valueAs e x ty s = (do x; pure () : Lower Unit) s := by
  have hvalue : Lower.valueKind ty s = .ok kind s := Lower.valueKind_ok.2 ⟨hkind, rfl⟩
  subst hty
  refine (bind_of_ok hvalue).trans ((bind_of_ok hvalue).trans ?_)
  cases kind <;> simp [convert]

/-- **A function whose body takes no more than there is** can be lowered. -/
theorem FunDef.lowers_of_advances (hl : Locals.ofFunction f f.reservedSlots = .ok l)
    (hbytes : bytes ≤ maxCodeLength)
    (h : ∀ table, table.Of p → Advances l slots bytes 0 0 (lowerBody ⟨table, f⟩)) :
    f.Lowers p slots := by
  refine ⟨l, hl, fun table n pool htable hpool => ?_⟩
  have hstart : LowerState.Ready ⟨pool, l, .start l.maxLocals⟩ (.start l.maxLocals) l
      (slots + n) (bytes + 0) 0 :=
    ⟨rfl, hpool, rfl, by simpa [Assembler.start] using hbytes, rfl, rfl⟩
  obtain ⟨s, hs, hready⟩ := h table htable n 0 _ hstart
  obtain ⟨body, hfinish⟩ := finishBody_succeeds hready rfl (by simp [Assembler.start])
  exact ⟨body, s, bind_ok.2 ⟨(), s, hs, hfinish⟩, hready.pool⟩

/-- The body of a function that returns an expression. -/
theorem lowerBody_eq {table : CallTable} (hbody : f.body = [.ret (some e)])
    (hty : e.ty = f.returnType) (hkind : f.returnType.kind? = some kind) :
    lowerBody ⟨table, f⟩ = (do
      (lower ⟨table, f⟩ e).value
      Lower.code (Asm.ret (some kind)) : Lower Unit) := by
  have hreturn : lowerReturn ⟨table, f⟩ (some e) = (do
      (lower ⟨table, f⟩ e).value
      Lower.code (Asm.ret (some kind)) : Lower Unit) := by
    unfold lowerReturn
    dsimp only
    rw [hkind]
    refine funext fun s => ?_
    show (do valueAs e (lower ⟨table, f⟩ e).value f.returnType; Lower.code (Asm.ret (some kind)) :
      Lower Unit) s = _
    have hvalue := valueAs_eq (x := (lower ⟨table, f⟩ e).value) hty hkind s
    cases hx : (lower ⟨table, f⟩ e).value s with
    | ok u t =>
      rw [bind_of_ok hx] at hvalue
      rw [bind_of_ok hvalue, bind_of_ok hx]
    | error err t =>
      rw [bind_of_error hx] at hvalue
      rw [bind_of_error hvalue, bind_of_error hx]
  simp [lowerBody, hbody, blockTerminates, Stmt.terminates, lowerBlock, lowerStmt, hreturn]

theorem lowerFunction_eq {table : CallTable} {s : LowerState} (hbody : f.body = [.ret (some e)])
    (hty : e.ty = f.returnType) (hkind : f.returnType.kind? = some kind) :
    lowerFunction ⟨table, f⟩ s = (do
      (lower ⟨table, f⟩ e).value
      Lower.code (Asm.ret (some kind))
      finishBody : Lower Finished) s := by
  rw [lowerFunction, lowerBody_eq hbody hty hkind, bind_assoc]

/-- **A function that returns code without branches** can be lowered. -/
theorem FunDef.lowers_return (hl : Locals.ofFunction f f.reservedSlots = .ok l)
    (hbody : f.body = [.ret (some e)]) (hty : e.ty = f.returnType)
    (hkind : f.returnType.kind? = some kind) (hbytes : bytes + 1 ≤ maxCodeLength)
    (h : ∀ table, Advances l slots bytes 0 kind.words (lower ⟨table, f⟩ e).value) :
    f.Lowers p slots := by
  refine FunDef.lowers_of_advances hl hbytes fun table _ => ?_
  have hret : Advances l 0 1 kind.words 0 (Lower.code (Asm.ret (some kind))) := by
    have heffect : kind.returnOp.effect? = some (kind.words, 0) := by cases kind <;> rfl
    have hplain := plain_advances (l := l) (d := 0) heffect (Nat.zero_le _)
    rwa [Nat.zero_add] at hplain
  rw [lowerBody_eq hbody hty hkind]
  exact (h table).seq hret

/-- **A function that returns what is refused** is refused. -/
theorem FunDef.refused_return {err : CompileError} (hl : Locals.ofFunction f f.reservedSlots = .ok l)
    (hbody : f.body = [.ret (some e)]) (hty : e.ty = f.returnType)
    (hkind : f.returnType.kind? = some kind)
    (h : ∀ table s, (lower ⟨table, f⟩ e).value s = .error err s) : f.Refused p err := by
  refine ⟨l, hl, fun table pool _ => ⟨⟨pool, l, .start l.maxLocals⟩, ?_⟩⟩
  rw [lowerFunction_eq hbody hty hkind]
  exact bind_of_error (h table _)

end Functions

end ClassFoundry
