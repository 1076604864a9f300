import ClassFoundry.Proofs.Execution
import ClassFoundry.Proofs.Verification

/-!
# What verification is good for

The verifier walks the code of a method once, from one instruction to the next. That is enough for
every run: whatever branches are taken and whatever methods are called, each frame is always at an
instruction that the walk has seen or just behind the last one, and the constants that instructions
refer to are there.

## Main definitions

* `Fault.isStructural`: faults that are due to the class rather than to the values
* `Decodes`: what it takes to read an instruction
* `Walk`: the instructions of a code array from an offset to the end
* `Frame.OnBoundary`, `Frame.Explains`: where frames are, and how they can fail

## Main results

* `Walk.of_sweep`: the linear sweep walks to the end
* `Instruction.backed`: instructions find the constants that they refer to
* `onBoundary_of_verify`: **all frames of all runs** of a class that passes the verifier
-/

namespace ClassFoundry

/-! ## Faults -/

/-- **Faults that are due to the class**, not to the values that it works on. -/
def Fault.isStructural : Fault → Bool
  | .fellOffCode _ _ | .unsupportedOpcode _ _ _ | .badConstant _ => true
  | _ => false

namespace Frame
variable {f g : Frame} {pool : ConstantPool} {e : Fault}

theorem pop_error (h : f.pop = .error e) : e.isStructural = false := by
  unfold pop at h
  split at h <;> cases h
  rfl

theorem popInt_error (h : f.popInt = .error e) : e.isStructural = false := by
  unfold popInt at h
  split at h <;> cases h <;> rfl

theorem popLong_error (h : f.popLong = .error e) : e.isStructural = false := by
  unfold popLong at h
  split at h <;> cases h <;> rfl

theorem popKind_error {kind : Kind} (h : f.popKind kind = .error e) :
    e.isStructural = false := by
  unfold popKind at h
  split at h
  · split at h <;> cases h
    rfl
  · cases h
    rfl

theorem load_error {kind : Kind} {slot : Nat} (h : f.load kind slot = .error e) :
    e.isStructural = false := by
  unfold load at h
  split at h
  · split at h <;> cases h
    rfl
  · cases h
    rfl

theorem store_error {kind : Kind} {slot : Nat} (h : f.store kind slot = .error e) :
    e.isStructural = false := by
  rcases Except.bind_eq_error.1 h with h | ⟨⟨v, f'⟩, -, h⟩
  · exact popKind_error h
  · dsimp only at h
    split at h <;> cases h
    rfl

theorem jump_error {offset : UInt16} {f' : Frame} (hk : Kept f f')
    (h : f'.jump offset = .error e) :
    branchTarget f.pc offset < 0 ∧ e = .fellOffCode f.method f.pc := by
  unfold jump at h
  dsimp only at h
  split at h <;> cases h
  rw [← hk.pc, ← hk.sameCode.1]
  exact ⟨Int.not_le.1 ‹_›, rfl⟩

theorem jumpIf_error {cond : Bool} {offset : UInt16} {next : Nat} {f' : Frame} (hk : Kept f f')
    (h : f'.jumpIf cond offset next = .error e) :
    branchTarget f.pc offset < 0 ∧ e = .fellOffCode f.method f.pc := by
  unfold jumpIf at h
  split at h
  · exact jump_error hk h
  · cases h

/-- A computation whose first part does not end with a fault fails later. -/
theorem bind_passes {α β : Type} {x : Except Fault α} {k : α → Except Fault β} (hx : x ≠ .error e)
    (h : (x >>= k) = .error e) : ∃ a, x = .ok a ∧ k a = .error e :=
  (Except.bind_eq_error.1 h).resolve_left hx

/-- An operation fails for the sake of the class only if its constant is missing or it branches to a
negative offset. -/
theorem apply_error {next : Nat} {op : FrameOp} (h : f.apply pool next op = .error e)
    (he : e.isStructural = true) :
    (∃ index, op = .pushConstant index ∧ constantValue pool index = .error e) ∨
      (∃ index, op = .getStatic index ∧ pool.member? index = none ∧ e = .badConstant index) ∨
      ∃ offset, op.offset? = some offset ∧ branchTarget f.pc offset < 0 ∧
        e = .fellOffCode f.method f.pc := by
  -- faults of the stack are not structural, so every pop goes through
  have hpop (f : Frame) : f.pop ≠ .error e := fun h => by simp [pop_error h] at he
  have hpopInt (f : Frame) : f.popInt ≠ .error e := fun h => by simp [popInt_error h] at he
  have hpopLong (f : Frame) : f.popLong ≠ .error e := fun h => by simp [popLong_error h] at he
  have hpopKind (f : Frame) (k : Kind) : f.popKind k ≠ .error e :=
    fun h => by simp [popKind_error h] at he
  cases op with
  | nop | pushNull | pushInt _ | pushLong _ => cases h
  | pushConstant index =>
    rcases Except.bind_eq_error.1 h with h | ⟨v, -, h⟩
    · exact .inl ⟨index, rfl, h⟩
    · cases h
  | load kind slot =>
    obtain ⟨f', -, h⟩ := bind_passes (fun h => by simp [load_error h] at he) h
    cases h
  | store kind slot =>
    obtain ⟨f', -, h⟩ := bind_passes (fun h => by simp [store_error h] at he) h
    cases h
  | pop =>
    obtain ⟨x, -, h⟩ := bind_passes (hpop f) h
    cases h
  | pop2 =>
    obtain ⟨⟨v, f'⟩, -, h⟩ := bind_passes (hpop f) h
    dsimp only at h
    split at h
    · cases h
    · obtain ⟨x, -, h⟩ := bind_passes (hpop f') h
      cases h
  | dup =>
    simp only [apply] at h
    split at h <;> cases h
    simp [underflow, Fault.isStructural] at he
  | intOp op =>
    obtain ⟨⟨b, f₁⟩, -, h⟩ := bind_passes (hpopInt f) h
    obtain ⟨⟨a, f₂⟩, -, h⟩ := bind_passes (hpopInt f₁) h
    dsimp only at h
    split at h <;> cases h
    simp [Fault.isStructural] at he
  | longOp op =>
    obtain ⟨⟨b, f₁⟩, -, h⟩ := bind_passes (hpopLong f) h
    obtain ⟨⟨a, f₂⟩, -, h⟩ := bind_passes (hpopLong f₁) h
    dsimp only at h
    split at h <;> cases h
    simp [Fault.isStructural] at he
  | intShift op =>
    obtain ⟨⟨b, f₁⟩, -, h⟩ := bind_passes (hpopInt f) h
    obtain ⟨x, -, h⟩ := bind_passes (hpopInt f₁) h
    cases h
  | longShift op =>
    obtain ⟨⟨b, f₁⟩, -, h⟩ := bind_passes (hpopInt f) h
    obtain ⟨x, -, h⟩ := bind_passes (hpopLong f₁) h
    cases h
  | longCompare =>
    obtain ⟨⟨b, f₁⟩, -, h⟩ := bind_passes (hpopLong f) h
    obtain ⟨x, -, h⟩ := bind_passes (hpopLong f₁) h
    cases h
  | intNeg | intToLong | intCast _ =>
    obtain ⟨x, -, h⟩ := bind_passes (hpopInt f) h
    cases h
  | longNeg | longToInt =>
    obtain ⟨x, -, h⟩ := bind_passes (hpopLong f) h
    cases h
  | branchZero test offset =>
    obtain ⟨⟨v, f'⟩, hv, h⟩ := bind_passes (hpopInt f) h
    exact .inr (.inr ⟨offset, rfl, jumpIf_error (popInt_kept hv) h⟩)
  | branchInts test offset =>
    obtain ⟨⟨b, f₁⟩, h₁, h⟩ := bind_passes (hpopInt f) h
    obtain ⟨⟨a, f₂⟩, h₂, h⟩ := bind_passes (hpopInt f₁) h
    exact .inr (.inr ⟨offset, rfl, jumpIf_error ((popInt_kept h₁).trans (popInt_kept h₂)) h⟩)
  | branchRefs same offset =>
    obtain ⟨⟨b, f₁⟩, h₁, h⟩ := bind_passes (hpopKind f _) h
    obtain ⟨⟨a, f₂⟩, h₂, h⟩ := bind_passes (hpopKind f₁ _) h
    exact .inr (.inr ⟨offset, rfl, jumpIf_error ((popKind_kept h₁).trans (popKind_kept h₂)) h⟩)
  | jump offset => exact .inr (.inr ⟨offset, rfl, jump_error (.refl f) h⟩)
  | getStatic index =>
    simp only [apply] at h
    split at h
    · cases h
      exact .inr (.inl ⟨index, rfl, ‹_›, rfl⟩)
    · split at h <;> cases h
      simp [Fault.isStructural] at he

theorem popArgs_error {n : Nat} {acc : List Value} (h : f.popArgs n acc = .error e) :
    e.isStructural = false := by
  induction n generalizing f acc with
  | zero => cases h
  | succ n ih =>
    rcases Except.bind_eq_error.1 h with h | ⟨⟨v, f'⟩, -, h⟩
    · exact pop_error h
    · exact ih h

/-- The operands of a call are refused for the sake of the class only if the method or its
descriptor cannot be read. -/
theorem callOperands_error {mode : CallMode} {index : UInt16}
    (h : f.callOperands pool mode index = .error e) (he : e.isStructural = true) :
    e = .badConstant index ∧ ∀ callee, pool.member? index = some callee →
      Descriptor.parameters? callee.descriptor = none := by
  unfold callOperands at h
  split at h
  · cases h
    exact ⟨rfl, by simp [*]⟩
  · split at h
    · cases h
      exact ⟨rfl, by simp [*]⟩
    · obtain ⟨⟨args, f'⟩, -, h⟩ := bind_passes (fun h => by simp [popArgs_error h] at he) h
      cases mode with
      | static => cases h
      | virtual | special =>
        obtain ⟨⟨v, f''⟩, -, h⟩ := bind_passes (fun h => by simp [popKind_error h] at he) h
        dsimp only at h
        split at h <;> cases h
        simp [Fault.isStructural] at he

end Frame

/-! ## Constants -/

section Pool

variable {pool : ConstantPool}

theorem Except.forM_ok {ε α : Type} {f : α → Except ε PUnit} {l : List α} (h : l.forM f = .ok ()) :
    ∀ x ∈ l, f x = .ok () := by
  induction l with
  | nil => nofun
  | cons x l ih =>
    obtain ⟨u, hx, hl⟩ := Except.bind_eq_ok.1 h
    intro y hy
    rcases List.mem_cons.1 hy with rfl | hy
    · exact hx
    · exact ih hl y hy

/-- A constant is an entry of its pool. -/
theorem ConstantPool.mem_entries {i : UInt16} {k : Constant} (h : pool.get? i = some k) :
    (i, k) ∈ pool.entries := by
  obtain ⟨hi, hk, hget⟩ := ConstantPool.get?_eq_some_iff.1 h
  have hpos : 0 < i.toNat := Nat.pos_of_ne_zero fun h => hi (UInt16.toNat_inj.1 h)
  refine List.mem_filterMap.2 ⟨(k, i.toNat - 1), ?_, ?_⟩
  · rw [List.mem_zipIdx_iff_getElem?]
    simpa using hget
  · have hsucc : i.toNat - 1 + 1 = i.toNat := by omega
    simp [hk, hsucc]

/-- Every constant of a pool that passes was checked. -/
theorem verifyConstant_of_get? (h : verifyPool pool = .ok ()) {i : UInt16} {k : Constant}
    (hk : pool.get? i = some k) : verifyConstant pool i k = .ok () :=
  Except.forM_ok h _ (ConstantPool.mem_entries hk)

theorem ConstantPool.get?_of_expectAny {i : UInt16} {expected : String} {others : List String}
    (h : pool.expectAny i expected others = .ok ()) :
    ∃ k, pool.get? i = some k ∧ k.tagName ∈ expected :: others := by
  unfold expectAny at h
  split at h
  · cases h
  · rename_i k hk
    split at h
    · exact ⟨k, hk, List.mem_cons.2 ‹_›⟩
    · cases h

theorem ConstantPool.text?_of_expect {i : UInt16} (h : pool.expect i "Utf8" = .ok ()) :
    ∃ text, pool.text? i = some text := by
  obtain ⟨k, hk, htag⟩ := ConstantPool.get?_of_expectAny h
  cases k <;> simp [Constant.tagName] at htag
  exact ⟨_, ConstantPool.text?_eq_some_iff.2 hk⟩

theorem className?_of_class (h : verifyPool pool = .ok ()) {i n : UInt16}
    (hk : pool.get? i = some (.class n)) : ∃ name, pool.className? i = some name := by
  obtain ⟨text, htext⟩ := ConstantPool.text?_of_expect (verifyConstant_of_get? h hk)
  exact ⟨text, by simp [ConstantPool.className?, hk, htext]⟩

/-- What a reference to a member refers to. -/
theorem memberOf?_of_signature (h : verifyPool pool = .ok ()) {cls sig : UInt16}
    (hcls : pool.expect cls "Class" = .ok ()) (hsig : pool.expect sig "NameAndType" = .ok ()) :
    ∃ member, pool.memberOf? cls sig = some member := by
  obtain ⟨k, hk, htag⟩ := ConstantPool.get?_of_expectAny hcls
  cases k <;> simp [Constant.tagName] at htag
  obtain ⟨owner, howner⟩ := className?_of_class h hk
  obtain ⟨k, hk, htag⟩ := ConstantPool.get?_of_expectAny hsig
  cases k <;> simp [Constant.tagName] at htag
  obtain ⟨_, hname, hdescriptor⟩ := Except.bind_eq_ok.1 (verifyConstant_of_get? h hk)
  obtain ⟨name, hname⟩ := ConstantPool.text?_of_expect hname
  obtain ⟨descriptor, hdescriptor⟩ := ConstantPool.text?_of_expect hdescriptor
  exact ⟨⟨owner, name, descriptor⟩, by
    simp [ConstantPool.memberOf?, hk, howner, hname, hdescriptor]⟩

theorem member?_of_fieldRef (h : verifyPool pool = .ok ()) {i cls sig : UInt16}
    (hk : pool.get? i = some (.fieldRef cls sig)) : ∃ member, pool.member? i = some member := by
  obtain ⟨_, hcls, hsig⟩ := Except.bind_eq_ok.1 (verifyConstant_of_get? h hk)
  obtain ⟨member, hm⟩ := memberOf?_of_signature h hcls hsig
  exact ⟨member, ConstantPool.member?_of_fieldRef hk hm⟩

theorem member?_of_methodRef (h : verifyPool pool = .ok ()) {i cls sig : UInt16}
    (hk : pool.get? i = some (.methodRef cls sig)) : ∃ member, pool.member? i = some member := by
  obtain ⟨_, hcls, hsig⟩ := Except.bind_eq_ok.1 (verifyConstant_of_get? h hk)
  obtain ⟨member, hm⟩ := memberOf?_of_signature h hcls hsig
  exact ⟨member, ConstantPool.member?_of_methodRef hk hm⟩

theorem constantValue_of_get? (h : verifyPool pool = .ok ()) {i : UInt16} {k : Constant}
    (hk : pool.get? i = some k) (htag : k.tagName ∈ ["Integer", "String", "Long"]) :
    ∃ v, constantValue pool i = .ok v := by
  cases k <;> simp [Constant.tagName] at htag
  case integer v => exact ⟨.int v, by simp [constantValue, hk]⟩
  case long v => exact ⟨.long v, by simp [constantValue, hk]⟩
  case string n =>
    obtain ⟨text, htext⟩ := ConstantPool.text?_of_expect (verifyConstant_of_get? h hk)
    exact ⟨.str (.literal i) text, by simp [constantValue, hk, htext]⟩

/-- **What an action finds in a pool**. -/
def Action.Backed (pool : ConstantPool) : Action → Prop
  | .frame (.pushConstant index) => ∃ v, constantValue pool index = .ok v
  | .frame (.getStatic index) => ∃ field, pool.member? index = some field
  | .invoke _ index => (∃ cls sig, pool.get? index = some (.methodRef cls sig)) ∧
      ∃ callee, pool.member? index = some callee
  | .new index => ∃ name, pool.className? index = some name
  | _ => True

/-- Whether an action refers to a constant. -/
def Action.refers : Action → Bool
  | .frame (.pushConstant _) | .frame (.getStatic _) | .invoke _ _ | .new _ => true
  | _ => false

theorem Action.backed_of_refers {a : Action} (h : a.refers = false) : a.Backed pool := by
  unfold Backed
  split <;> simp_all [refers]

/-- An instruction without operands refers to nothing and does not branch. -/
theorem Opcode.plainAction?_bare {op : Opcode} {a : Action} (h : op.plainAction? = some a) :
    a.refers = false ∧ ∀ o, a = .frame o → o.offset? = none := by
  have hfin : ∀ n : Fin 256, (Opcode.plainAction? (UInt8.ofNat n)).all fun a =>
      !a.refers && match a with
        | .frame o => o.offset?.isNone
        | _ => true := by
    decide +kernel
  have hop := hfin ⟨op.toNat, op.toNat_lt⟩
  simp only [UInt8.ofNat_toNat, h, Option.all_some, Bool.and_eq_true, Bool.not_eq_true'] at hop
  refine ⟨hop.1, ?_⟩
  rintro o rfl
  simpa using hop.2

theorem Opcode.refers_localOp? {op : Opcode} {slot : Nat} {o : FrameOp}
    (h : op.localOp? slot = some o) : (Action.frame o).refers = false := by
  unfold localOp? at h
  split at h <;> cases h <;> rfl

/-- **Instructions find the constants** that they refer to. -/
theorem Instruction.backed (h : verifyPool pool = .ok ()) {i : Instruction} {a : Action}
    (ha : i.action? = some a) (hv : verifyOperand pool i = .ok ()) : a.Backed pool := by
  have hmethod {index : UInt16} (mode : CallMode) (hv : pool.expect index "Methodref" = .ok ()) :
      (Action.invoke mode index).Backed pool := by
    obtain ⟨k, hk, htag⟩ := ConstantPool.get?_of_expectAny hv
    cases k <;> simp [Constant.tagName] at htag
    exact ⟨⟨_, _, hk⟩, member?_of_methodRef h hk⟩
  cases i with
  | plain op => exact Action.backed_of_refers (Opcode.plainAction?_bare ha).1
  | wide op slot =>
    obtain ⟨o, ho, rfl⟩ := Option.map_eq_some_iff.1 ha
    exact Action.backed_of_refers (Opcode.refers_localOp? ho)
  | byte op operand =>
    obtain ⟨o, ho, rfl⟩ := Option.map_eq_some_iff.1 ha
    unfold Opcode.byteOp? at ho
    split at ho
    · cases ho
      trivial
    · cases ho
      obtain ⟨k, hk, htag⟩ := ConstantPool.get?_of_expectAny hv
      exact constantValue_of_get? h hk (by simp at htag ⊢; tauto)
    · exact Action.backed_of_refers (Opcode.refers_localOp? ho)
  | short op operand =>
    replace ha : op.shortAction? operand = some a := ha
    unfold Opcode.shortAction? at ha
    split at ha
    · cases ha
      exact hmethod .virtual hv
    · cases ha
      exact hmethod .special hv
    · cases ha
      exact hmethod .static hv
    · cases ha
      obtain ⟨k, hk, htag⟩ := ConstantPool.get?_of_expectAny hv
      cases k <;> simp [Constant.tagName] at htag
      exact className?_of_class h hk
    · obtain ⟨o, ho, rfl⟩ := Option.map_eq_some_iff.1 ha
      unfold Opcode.shortOp? at ho
      split at ho <;> cases ho <;> try trivial
      · obtain ⟨k, hk, htag⟩ := ConstantPool.get?_of_expectAny hv
        exact constantValue_of_get? h hk (by simp at htag ⊢; tauto)
      · obtain ⟨k, hk, htag⟩ := ConstantPool.get?_of_expectAny hv
        exact constantValue_of_get? h hk (by simp at htag ⊢; tauto)
      · obtain ⟨k, hk, htag⟩ := ConstantPool.get?_of_expectAny hv
        cases k <;> simp [Constant.tagName] at htag
        exact member?_of_fieldRef h hk

end Pool

/-! ## Walking along the code -/

section Walk

variable {code : CodeArray}

theorem Opcode.format?_ne_wide (op : Opcode) : op.format? ≠ some .wide := by
  unfold format?
  split
  · simp
  · split
    · simp
    · split <;> simp

theorem formatAt?_eq_wide {pc : Nat} (h : formatAt? code pc = some .wide) :
    code[pc]? = some Opcode.wide ∧
      ∃ op : Opcode, code[pc + 1]? = some op ∧ op.isIndexedLocal = true := by
  unfold formatAt? at h
  split at h
  · cases h
  · rename_i op hop
    split at h
    · rename_i hwide
      split at h
      · rename_i inner hinner
        split at h
        · exact ⟨by rw [hop, hwide], inner, hinner, ‹_›⟩
        · cases h
      · cases h
    · exact absurd h (Opcode.format?_ne_wide op)

/-- **What it takes to read an instruction**, by its format. -/
inductive Decodes (code : CodeArray) (pc : Nat) : Instruction → Prop where
  | plain {op : Opcode} (opcode : code[pc]? = some op) (format : formatAt? code pc = some .plain) :
      Decodes code pc (.plain op)
  | byte {op : Opcode} {x : UInt8} (opcode : code[pc]? = some op)
      (format : formatAt? code pc = some .byte) (operand : code[pc + 1]? = some x) :
      Decodes code pc (.byte op x)
  | short {op : Opcode} {w : UInt16} (opcode : code[pc]? = some op)
      (format : formatAt? code pc = some .short) (operand : wordAt? code (pc + 1) = some w) :
      Decodes code pc (.short op w)
  | wide {op : Opcode} {w : UInt16} (wide : code[pc]? = some Opcode.wide)
      (format : formatAt? code pc = some .wide) (opcode : code[pc + 1]? = some op)
      (isLocal : op.isIndexedLocal = true) (operand : wordAt? code (pc + 2) = some w) :
      Decodes code pc (.wide op w)

theorem decodes_of_decodeAt {pc : Nat} {i : Instruction} (h : decodeAt code pc = .ok i) :
    Decodes code pc i := by
  unfold decodeAt at h
  split at h
  · cases h
  rename_i op hop
  split at h
  · cases h
  · rename_i hformat
    cases h
    exact .plain hop hformat
  · rename_i hformat
    split at h <;> cases h
    exact .byte hop hformat ‹_›
  · rename_i hformat
    split at h <;> cases h
    exact .short hop hformat ‹_›
  · rename_i hformat
    split at h <;> cases h
    rename_i inner slot hinner hslot
    obtain ⟨hwide, op', hop', hlocal⟩ := formatAt?_eq_wide hformat
    cases hop'.symm.trans hinner
    exact .wide hwide hformat hinner hlocal hslot

/-- The length of an instruction that was read is known, and the instruction lies inside the
code. -/
theorem decodeAt_length {pc : Nat} {i : Instruction} (h : decodeAt code pc = .ok i) :
    lengthAt? code pc = some i.length ∧ pc + i.length ≤ code.size := by
  have hword {n : Nat} {w : UInt16} (h : wordAt? code n = some w) : n + 1 < code.size := by
    unfold wordAt? at h
    split at h
    · exact (Array.getElem?_eq_some_iff.1 ‹code[n + 1]? = some _›).1
    · cases h
  unfold lengthAt?
  cases decodes_of_decodeAt h with
  | plain opcode format => exact ⟨by rw [format]; rfl, (Array.getElem?_eq_some_iff.1 opcode).1⟩
  | byte _ format operand => exact ⟨by rw [format]; rfl, (Array.getElem?_eq_some_iff.1 operand).1⟩
  | short _ format operand => exact ⟨by rw [format]; rfl, hword operand⟩
  | wide _ format _ _ operand => exact ⟨by rw [format]; rfl, hword operand⟩

theorem Instruction.length_pos (i : Instruction) : 0 < i.length := by
  cases i <;> exact Nat.succ_pos _

/-- **A walk along the code**: each instruction starts where the one before it ends, and the last one
ends with the code. -/
inductive Walk (code : CodeArray) : Nat → List (Nat × Instruction) → Prop where
  | done : Walk code code.size []
  | next {pc : Nat} {i : Instruction} {rest : List (Nat × Instruction)}
      (decoded : decodeAt code pc = .ok i) (tail : Walk code (pc + i.length) rest) :
      Walk code pc ((pc, i) :: rest)

theorem Walk.of_sweepFrom {fuel pc : Nat} {acc : Array (Nat × Instruction)}
    (h : (sweepFrom code fuel pc acc).fault = none) (hpc : pc ≤ code.size)
    (hfuel : code.size ≤ pc + fuel) : ∃ rest,
      (sweepFrom code fuel pc acc).instructions.toList = acc.toList ++ rest ∧ Walk code pc rest := by
  induction fuel generalizing pc acc with
  | zero =>
    obtain rfl : pc = code.size := by omega
    exact ⟨[], by simp [sweepFrom], .done⟩
  | succ fuel ih =>
    rw [sweepFrom] at h ⊢
    split at h
    · rename_i hlt
      rw [if_pos hlt]
      split at h
      · rename_i i hi
        have hlen := i.length_pos
        obtain ⟨rest, hrest, hwalk⟩ := ih h (decodeAt_length hi).2 (by omega)
        exact ⟨(pc, i) :: rest, by simp [hrest], .next hi hwalk⟩
      · cases h
    · rename_i hge
      rw [if_neg hge]
      obtain rfl : pc = code.size := by omega
      exact ⟨[], by simp, .done⟩

/-- **The linear sweep walks to the end** unless it stops at a fault. -/
theorem Walk.of_sweep (h : (sweep code).fault = none) :
    Walk code 0 (sweep code).instructions.toList := by
  obtain ⟨rest, hrest, hwalk⟩ := @Walk.of_sweepFrom code code.size 0 #[] h (Nat.zero_le _) (by simp)
  have heq : (sweep code).instructions.toList = rest := by simpa [sweep] using hrest
  rwa [heq]

variable {start : Nat} {l : List (Nat × Instruction)}

theorem Walk.head (h : Walk code start l) : start ∈ l.map Prod.fst ∨ start = code.size := by
  cases h with
  | done => exact .inr rfl
  | next _ _ => exact .inl (by simp)

/-- An instruction of a walk stands where the walk says, and the next one follows it. -/
theorem Walk.mem (h : Walk code start l) {pc : Nat} {i : Instruction} (hmem : (pc, i) ∈ l) :
    decodeAt code pc = .ok i ∧
      (pc + i.length ∈ l.map Prod.fst ∨ pc + i.length = code.size) := by
  induction h with
  | done => cases hmem
  | next decoded tail ih =>
    rcases List.mem_cons.1 hmem with heq | hmem
    · cases heq
      exact ⟨decoded, tail.head.imp_left (List.mem_cons_of_mem _)⟩
    · obtain ⟨hdecode, hnext⟩ := ih hmem
      exact ⟨hdecode, hnext.imp_left (List.mem_cons_of_mem _)⟩

end Walk

/-! ## Verified code -/

/-- **Code that passes the verifier**. -/
structure CodeChecked (pool : ConstantPool) (code : CodeArray) : Prop where
  walk : Walk code 0 (sweep code).instructions.toList
  operands : ∀ x ∈ (sweep code).instructions.toList, verifyOperand pool x.2 = .ok ()
  branches : ∀ x ∈ (sweep code).instructions.toList, ∀ target, x.2.target? x.1 = some target →
    0 ≤ target ∧ target.toNat ∈ (sweep code).boundaries

section Verified

variable {pool : ConstantPool} {code : CodeArray}

theorem verifyCode_ok {name : String} (h : verifyCode pool name code = .ok ()) :
    CodeChecked pool code := by
  unfold verifyCode at h
  dsimp only at h
  split at h
  · cases h
  obtain ⟨_, hoperands, h⟩ := Except.bind_eq_ok.1 h
  split at h
  · cases h
  rename_i hnone
  have hbranches := h
  refine ⟨.of_sweep hnone, fun x hx => Except.mapError_eq_ok.1 (Except.forM_ok hoperands x hx),
    fun x hx target htarget => ?_⟩
  have hbranch := Except.forM_ok hbranches x hx
  simp only [verifyBranch, htarget] at hbranch
  split at hbranch
  · assumption
  · cases hbranch

/-- What a method passes that the verifier accepts. -/
theorem passes_of_verifyMethod {seen seen' : List (String × String)} {m : Method}
    (h : verifyMethod pool seen m = .ok seen') : ∃ key, m.Passes pool key := by
  unfold verifyMethod at h
  obtain ⟨_, hname, h⟩ := Except.bind_eq_ok.1 h
  obtain ⟨_, hdescriptor, h⟩ := Except.bind_eq_ok.1 h
  obtain ⟨_, hattrName, h⟩ := Except.bind_eq_ok.1 h
  obtain ⟨name, hname⟩ := ConstantPool.text?_of_expect (Except.mapError_eq_ok.1 hname)
  obtain ⟨descriptor, hdescriptor⟩ :=
    ConstantPool.text?_of_expect (Except.mapError_eq_ok.1 hdescriptor)
  have hattrName := ConstantPool.text?_of_expect (Except.mapError_eq_ok.1 hattrName)
  simp only [hname, hdescriptor, Option.getD_some] at h
  split at h
  · cases h
  obtain ⟨_, hflags, h⟩ := Except.bind_eq_ok.1 h
  split at h
  · rename_i args result hargs hresult
    rcases ite_eq_iff.1 h with ⟨-, h⟩ | ⟨hroom, h⟩
    · cases h
    · obtain ⟨_, hcode, -⟩ := Except.bind_eq_ok.1 h
      exact ⟨(name, descriptor), hname, hdescriptor, hattrName, hflags,
        ⟨args, hargs, Nat.not_lt.1 hroom⟩, Option.isSome_of_eq_some hresult, hcode⟩
  · cases h

theorem passes_of_verifyMethods {seen : List (String × String)} {methods : List Method}
    (h : verifyMethods pool seen methods = .ok ()) :
    ∀ m ∈ methods, ∃ key, m.Passes pool key := by
  induction methods generalizing seen with
  | nil => nofun
  | cons m rest ih =>
    obtain ⟨seen', hm, hrest⟩ := Except.bind_eq_ok.1 h
    intro m' hm'
    rcases List.mem_cons.1 hm' with rfl | hm'
    · exact passes_of_verifyMethod hm
    · exact ih hrest m' hm'

/-- The parts of a class that passes the verifier. -/
theorem passes_of_verify {c : ClassFile} (h : c.verify = .ok ()) :
    verifyPool c.pool = .ok () ∧ ∀ m ∈ c.methods, ∃ key, m.Passes c.pool key := by
  unfold ClassFile.verify at h
  dsimp only at h
  split at h
  · cases h
  split at h
  · cases h
  obtain ⟨_, hpool, h⟩ := Except.bind_eq_ok.1 h
  obtain ⟨_, -, h⟩ := Except.bind_eq_ok.1 h
  obtain ⟨_, -, h⟩ := Except.bind_eq_ok.1 h
  exact ⟨Except.mapError_eq_ok.1 hpool, passes_of_verifyMethods (Except.mapError_eq_ok.1 h)⟩

/-- The code of a class that passes the verifier. -/
theorem verify_ok {c : ClassFile} (h : c.verify = .ok ()) :
    verifyPool c.pool = .ok () ∧ ∀ m ∈ c.methods, CodeChecked c.pool m.code := by
  obtain ⟨hpool, hmethods⟩ := passes_of_verify h
  refine ⟨hpool, fun m hm => ?_⟩
  obtain ⟨key, hpasses⟩ := hmethods m hm
  exact verifyCode_ok hpasses.code

end Verified

/-! ## Frames -/

/-- **Where a frame is**: in the code of a method of the class, at an instruction of the linear sweep
or just behind the last one. -/
def Frame.OnBoundary (c : ClassFile) (f : Frame) : Prop :=
  ∃ method ∈ c.methods, f.method = (c.pool.text? method.name).getD "" ∧ f.code = method.code ∧
    (f.pc ∈ (sweep f.code).boundaries ∨ f.pc = f.code.size)

/-- **How a frame can fail** for the sake of the class: behind the last instruction, at an
instruction whose length is known but not its meaning, or at a call of a method whose descriptor
cannot be read. -/
def Frame.Explains (c : ClassFile) (f : Frame) : Fault → Prop
  | .fellOffCode name pc => name = f.method ∧ pc = f.pc ∧ pc = f.code.size
  | .unsupportedOpcode name pc op => name = f.method ∧ pc = f.pc ∧
      pc ∈ (sweep f.code).boundaries ∧ f.code[pc]? = some op ∧
      ∃ i, decodeAt f.code pc = .ok i ∧ lengthAt? f.code pc = some i.length ∧ i.action? = none
  | .badConstant index => f.pc ∈ (sweep f.code).boundaries ∧
      ∃ op ∈ [Opcode.invokevirtual, .invokespecial, .invokestatic],
        decodeAt f.code f.pc = .ok (.short op index) ∧
        (∃ cls sig, c.pool.get? index = some (.methodRef cls sig)) ∧
        ∃ callee, c.pool.member? index = some callee ∧
          Descriptor.parameters? callee.descriptor = none
  | _ => True

section Frames

variable {c : ClassFile} {f : Frame} {pool : ConstantPool} {code : CodeArray}

theorem fetch_ok {i : Instruction} {a : Action} (h : f.fetch = .ok (i, a)) :
    decodeAt f.code f.pc = .ok i ∧ i.action? = some a := by
  unfold Frame.fetch at h
  split at h
  · cases h
  · cases h
  · cases h
  · split at h <;> cases h
    exact ⟨‹_›, ‹_›⟩

/-- The instruction at a boundary is the one that the sweep has seen there. -/
theorem CodeChecked.mem (hc : CodeChecked pool code) {pc : Nat} {i : Instruction}
    (hpc : pc ∈ (sweep code).boundaries ∨ pc = code.size) (h : decodeAt code pc = .ok i) :
    (pc, i) ∈ (sweep code).instructions.toList := by
  rcases hpc with hpc | rfl
  · obtain ⟨⟨pc', j⟩, hmem, rfl⟩ := List.mem_map.1 (Sweep.mem_boundaries.1 hpc)
    have hj := (hc.walk.mem hmem).1
    rw [h] at hj
    cases hj
    exact hmem
  · have hlen := i.length_pos
    have hend := (decodeAt_length h).2
    omega

/-- After an instruction at a boundary comes a boundary. -/
theorem CodeChecked.next (hc : CodeChecked pool code) {pc : Nat} {i : Instruction}
    (hmem : (pc, i) ∈ (sweep code).instructions.toList) :
    pc + i.length ∈ (sweep code).boundaries ∨ pc + i.length = code.size :=
  (hc.walk.mem hmem).2.imp_left Sweep.mem_boundaries.2

/-- The branches of the machine are those that the verifier looks at. -/
theorem Instruction.target?_of_offset? {i : Instruction} {op : FrameOp} {offset : UInt16}
    (h : i.action? = some (.frame op)) (ho : op.offset? = some offset) (pc : Nat) :
    i.target? pc = some (branchTarget pc offset) := by
  have hlocal {op' : Opcode} {slot : Nat} (h : op'.localOp? slot = some op) : False := by
    unfold Opcode.localOp? at h
    split at h <;> cases h <;> cases ho
  cases i with
  | plain op' =>
    have hbare := (Opcode.plainAction?_bare h).2 op rfl
    simp [hbare] at ho
  | wide op' slot =>
    obtain ⟨o, ho', heq⟩ := Option.map_eq_some_iff.1 h
    cases heq
    exact (hlocal ho').elim
  | byte op' x =>
    obtain ⟨o, ho', heq⟩ := Option.map_eq_some_iff.1 h
    cases heq
    unfold Opcode.byteOp? at ho'
    split at ho'
    · cases ho'
      cases ho
    · cases ho'
      cases ho
    · exact (hlocal ho').elim
  | short op' w =>
    replace h : op'.shortAction? w = some (.frame op) := h
    unfold Opcode.shortAction? at h
    split at h
    · cases h
    · cases h
    · cases h
    · cases h
    · obtain ⟨o, ho', heq⟩ := Option.map_eq_some_iff.1 h
      cases heq
      unfold Opcode.shortOp? at ho'
      split at ho' <;> cases ho' <;> cases ho <;> rfl

theorem Opcode.localOp?_of_isIndexedLocal {op : Opcode} (h : op.isIndexedLocal = true)
    (slot : Nat) : ∃ o, op.localOp? slot = some o := by
  unfold isIndexedLocal at h
  split at h
  case h_7 => cases h
  all_goals exact ⟨_, rfl⟩

/-- The opcode of an instruction without a meaning is the byte that it starts with. -/
theorem getElem?_of_decodeAt {pc : Nat} {i : Instruction} (h : decodeAt code pc = .ok i)
    (ha : i.action? = none) : code[pc]? = some i.opcode := by
  cases decodes_of_decodeAt h with
  | plain opcode => exact opcode
  | byte opcode => exact opcode
  | short opcode => exact opcode
  | @wide _ w _ _ _ isLocal =>
    -- loads and stores have a meaning in their wide form too
    obtain ⟨o, ho⟩ := Opcode.localOp?_of_isIndexedLocal isLocal w.toNat
    simp [Instruction.action?, ho] at ha

theorem Instruction.eq_invoke {i : Instruction} {mode : CallMode} {index : UInt16}
    (h : i.action? = some (.invoke mode index)) :
    ∃ op ∈ [Opcode.invokevirtual, .invokespecial, .invokestatic], i = .short op index := by
  cases i with
  | plain op => exact absurd (Opcode.plainAction?_bare h).1 (by simp [Action.refers])
  | byte op x =>
    obtain ⟨o, -, heq⟩ := Option.map_eq_some_iff.1 h
    cases heq
  | wide op x =>
    obtain ⟨o, -, heq⟩ := Option.map_eq_some_iff.1 h
    cases heq
  | short op w =>
    replace h : op.shortAction? w = some (.invoke mode index) := h
    unfold Opcode.shortAction? at h
    split at h
    · cases h
      exact ⟨_, by simp, rfl⟩
    · cases h
      exact ⟨_, by simp, rfl⟩
    · cases h
      exact ⟨_, by simp, rfl⟩
    · cases h
    · obtain ⟨o, -, heq⟩ := Option.map_eq_some_iff.1 h
      cases heq

/-- A frame that goes on in the code of another. -/
theorem Frame.OnBoundary.continue {g : Frame} (hf : f.OnBoundary c) (hsame : SameCode f g)
    (hpc : g.pc ∈ (sweep f.code).boundaries ∨ g.pc = f.code.size) : g.OnBoundary c := by
  obtain ⟨method, hmem, hname, hcode, -⟩ := hf
  obtain ⟨hmethod, hcode'⟩ := hsame
  exact ⟨method, hmem, hmethod.trans hname, hcode'.trans hcode, by rwa [hcode']⟩

theorem Frame.OnBoundary.resume (h : f.OnBoundary c) (r : Option Value) :
    (f.resume r).OnBoundary c := by
  cases r <;> exact h

variable (hmethods : ∀ m ∈ c.methods, CodeChecked c.pool m.code)

include hmethods

/-- The code of a frame was checked. -/
theorem Frame.OnBoundary.checked (h : f.OnBoundary c) :
    CodeChecked c.pool f.code ∧ (f.pc ∈ (sweep f.code).boundaries ∨ f.pc = f.code.size) := by
  obtain ⟨method, hmem, -, hcode, hpc⟩ := h
  exact ⟨hcode ▸ hmethods method hmem, hpc⟩

/-- A call starts at the first instruction. -/
theorem Frame.onBoundary_enter {method : Method} (hmem : method ∈ c.methods) {name : String}
    (hname : name = (c.pool.text? method.name).getD "") (this : Option Value) (args : List Value) :
    (Frame.enter name method this args).OnBoundary c :=
  ⟨method, hmem, hname, rfl, (hmethods method hmem).walk.head.imp_left Sweep.mem_boundaries.2⟩

/-- **A step keeps all frames on boundaries**. -/
theorem Steps.onBoundary {s t : State} (hs : ∀ f ∈ s.frames, f.OnBoundary c) (h : Steps c s t) :
    ∀ f ∈ t.frames, f.OnBoundary c := by
  obtain ⟨i, a, hfetch, hmoves⟩ := h.moves
  obtain ⟨hdecode, haction⟩ := fetch_ok hfetch
  obtain ⟨m', f', callers'⟩ := t
  have hframe : s.frame.OnBoundary c := hs _ List.mem_cons_self
  have hcallers : ∀ f ∈ s.callers, f.OnBoundary c := fun f hf => hs f (List.mem_cons_of_mem _ hf)
  obtain ⟨hchecked, hpc⟩ := hframe.checked hmethods
  -- the walk over the code has this instruction, so what follows it is a boundary or the end
  have hmem := hchecked.mem hpc hdecode
  have hnext := hchecked.next hmem
  unfold State.frames
  cases hmoves with
  | frame applied =>
    obtain ⟨hsame, htarget⟩ := Frame.apply_ok applied
    refine List.forall_mem_cons.2 ⟨hframe.continue hsame ?_, hcallers⟩
    rcases htarget with heq | ⟨offset, hoffset, htarget⟩
    · rwa [heq]
    · have := hchecked.branches _ hmem _ (Instruction.target?_of_offset? haction hoffset _)
      rw [htarget] at this
      exact .inl (by simpa using this.2)
  | new found ref => exact List.forall_mem_cons.2 ⟨hframe.continue ⟨rfl, rfl⟩ hnext, hcallers⟩
  | ret waiting =>
    rw [waiting] at hcallers
    obtain ⟨hcaller, hrest⟩ := List.forall_mem_cons.1 hcallers
    exact List.forall_mem_cons.2 ⟨hcaller.resume _, hrest⟩
  | @library mode index callee receiver args g effect r operands known =>
    have hsame := (Frame.callOperands_kept operands).sameCode
    have hgoes : Frame.OnBoundary c { g with pc := s.frame.pc + i.length } :=
      hframe.continue ⟨hsame.1, hsame.2⟩ hnext
    exact List.forall_mem_cons.2 ⟨hgoes.resume r, hcallers⟩
  | @enter mode index callee receiver args g method operands found =>
    have hsame := (Frame.callOperands_kept operands).sameCode
    have hmethod := List.mem_of_find?_eq_some found
    have hname := List.find?_some found
    simp only [Bool.and_eq_true, beq_iff_eq] at hname
    refine List.forall_mem_cons.2 ⟨Frame.onBoundary_enter hmethods hmethod ?_ _ _,
      List.forall_mem_cons.2 ⟨hframe.continue hsame hnext, hcallers⟩⟩
    rw [hname.1, Option.getD_some]

/-- **A failure for the sake of the class** is explained by the current frame. -/
theorem explains_of_fault (hpool : verifyPool c.pool = .ok ()) {s : State} {m : Machine} {e : Fault}
    (hs : s.frame.OnBoundary c) (h : s.outcome c = .fault m e) : s.frame.Explains c e := by
  obtain ⟨hchecked, hpc⟩ := hs.checked hmethods
  rcases fails_of_fault h with hfetch | ⟨i, a, hfetch, hfails⟩
  · unfold Frame.fetch at hfetch
    -- every boundary decodes, so where nothing decodes the code is at its end
    have hbound {e' : Malformed} (h : decodeAt s.frame.code s.frame.pc = .error e') :
        s.frame.pc = s.frame.code.size := by
      refine hpc.resolve_left fun hb => ?_
      obtain ⟨⟨pc, j⟩, hmem, hpc⟩ := List.mem_map.1 (Sweep.mem_boundaries.1 hb)
      have hj := (hchecked.walk.mem hmem).1
      dsimp only at hpc
      rw [hpc, h] at hj
      cases hj
    split at hfetch
    · cases hfetch
      exact ⟨rfl, rfl, hbound ‹_›⟩
    · cases hfetch
      exact ⟨rfl, rfl, hbound ‹_›⟩
    · -- behind the last instruction there is no opcode
      rename_i op hunknown
      have hend := hbound hunknown
      simp [decodeAt, hend] at hunknown
    · rename_i i hdecode
      split at hfetch <;> cases hfetch
      have hmem := hchecked.mem hpc hdecode
      exact ⟨rfl, rfl, Sweep.mem_boundaries.2 (List.mem_map_of_mem hmem),
        getElem?_of_decodeAt hdecode ‹_›, i, hdecode, (decodeAt_length hdecode).1, ‹_›⟩
  · obtain ⟨hdecode, haction⟩ := fetch_ok hfetch
    have hmem := hchecked.mem hpc hdecode
    -- the operand was verified: among the structural faults only a bad descriptor remains
    have hbacked := Instruction.backed hpool haction (hchecked.operands _ hmem)
    cases hstruct : e.isStructural with
    | false => cases e <;> simp [Fault.isStructural] at hstruct <;> trivial
    | true =>
      cases hfails with
      | frame refused =>
        rcases Frame.apply_error refused hstruct with ⟨index, rfl, hnone⟩ |
          ⟨index, rfl, hnone, -⟩ | ⟨offset, hoffset, hneg, -⟩
        · obtain ⟨v, hv⟩ := hbacked
          simp [hv] at hnone
        · obtain ⟨field, hfield⟩ := hbacked
          simp [hfield] at hnone
        · have hbranch := hchecked.branches _ hmem _
            (Instruction.target?_of_offset? haction hoffset _)
          exact absurd hbranch.1 (Int.not_le.2 hneg)
      | new missing =>
        obtain ⟨name, hname⟩ := hbacked
        simp [hname] at missing
      | ret refused => simp [Frame.popKind_error refused] at hstruct
      | @operands mode index e refused =>
        obtain ⟨rfl, hnone⟩ := Frame.callOperands_error refused hstruct
        obtain ⟨href, callee, hcallee⟩ := hbacked
        obtain ⟨op, hop, rfl⟩ := Instruction.eq_invoke haction
        exact ⟨Sweep.mem_boundaries.2 (List.mem_map_of_mem hmem), op, hop, hdecode, href, callee,
          hcallee, hnone callee hcallee⟩
      | missing callee => simp [Fault.isStructural] at hstruct
      | depth => simp [Fault.isStructural] at hstruct
      | library refused =>
        rcases libraryCall_error refused with rfl | rfl | rfl <;>
          simp [Fault.isStructural] at hstruct

end Frames

/-- **What verification is good for**. In every run of a class that passes the verifier, from any
method with any receiver and arguments, all frames are at instructions of the linear sweep or just
behind the last one. Falling off the code, an unknown opcode or a bad constant are reported only in
the cases that the verifier lets pass, and every fault of a call but the one of too many steps is
one that a state of the run reports. -/
theorem onBoundary_of_verify {c : ClassFile} (h : c.verify = .ok ()) (m : Machine) {method : Method}
    (hmethod : method ∈ c.methods) (this : Option Value) (args : List Value) :
    (∀ s, Reaches c (.entry c m method this args) s →
      (∀ f ∈ s.frames, f.OnBoundary c) ∧
        ∀ m' e, s.outcome c = .fault m' e → s.frame.Explains c e) ∧
      ∀ m' e, m.callMethod c method this args = (.error e, m') →
        ∃ s, Reaches c (.entry c m method this args) s ∧
          (s.outcome c = .fault m' e ∨ e = .stepLimit s.machine.limit) := by
  obtain ⟨hpool, hmethods⟩ := verify_ok h
  refine ⟨fun s hs => ?_, fun m' e hrun => run_error hrun⟩
  have hentry : ∀ f ∈ (State.entry c m method this args).frames, f.OnBoundary c :=
    List.forall_mem_singleton.2 (Frame.onBoundary_enter hmethods hmethod rfl this args)
  have hframes := hs.keeps (fun s t hs ht => ht.onBoundary hmethods hs) hentry
  exact ⟨hframes, fun m' e hfault =>
    explains_of_fault hmethods hpool (hframes _ List.mem_cons_self) hfault⟩

/-- The frames of a run of `latch` that goes through its loop once. -/
theorem onBoundary_of_verify_latch :
    ∃ c, (compileProgram {} [] latch).result = .ok c ∧ c.verify = .ok () ∧
      ∃ method ∈ c.methods, c.pool.text? method.name = some "latch" ∧
        ∀ s, Reaches c (.entry c {} method none [.int 1, .int 0]) s →
          ∀ f ∈ s.frames, f.OnBoundary c := by
  obtain ⟨c, hc⟩ := compileProgram_latch
  obtain ⟨table, hcompiled⟩ := compiled_of_ok (by simp) hc
  have hverify := hcompiled.verify (by decide) (by simp [latch, latchFunction, DataType.Clean])
  obtain ⟨constructors, functions, hmethods, -, hfunctions⟩ := hcompiled.methods
  obtain ⟨method, hmem, hmethod⟩ := forall₂_left hfunctions (List.mem_singleton.2 rfl)
  have hmem : method ∈ c.methods := hmethods ▸ List.mem_append_right _ hmem
  exact ⟨c, hc, hverify, method, hmem, hmethod.name, fun s hs =>
    ((onBoundary_of_verify hverify {} hmem none [.int 1, .int 0]).1 s hs).1⟩

end ClassFoundry
