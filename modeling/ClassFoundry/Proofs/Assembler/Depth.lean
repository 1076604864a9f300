import ClassFoundry.Descriptor
import ClassFoundry.ConstantPool.Basic
import ClassFoundry.ClassFile.Verification
import ClassFoundry.Proofs.Assembler.Decoding

/-!
# The depth of the stack along the code

The assembler counts the words on the stack as if control passed from each instruction to the next.
The count is right at every instruction of the finished code, and along every branch, if code is
only appended where control gets to and if all who meet at a label agree on the depth.

## Main definitions

* `Instruction.words?`: the words that an instruction takes off the stack and puts on it
* `Event.Steady`, `SteadyRuns`: runs of the assembler in which all depths agree
* `DepthAt`: the depth at an offset
* `Tracked`: the invariant of the depths

## Main results

* `SteadyRuns.tracked`: the depths of a steady run agree along every transfer of control
-/

namespace ClassFoundry

/-! ## Effects -/

/-- The words that an operation takes off the stack and puts on it. -/
def FrameOp.words? (pool : ConstantPool) : FrameOp → Option (Nat × Nat)
  | .load kind _ => some (0, kind.words)
  | .store kind _ => some (kind.words, 0)
  | .pushConstant index =>
    match pool.get? index with
    | some (.long _) => some (0, 2)
    | some (.integer _) | some (.string _) => some (0, 1)
    | _ => none
  | .getStatic index =>
    (pool.member? index).map fun field => (0, Descriptor.parameterWords field.descriptor)
  | .branchZero _ _ => some (1, 0)
  | .branchInts _ _ | .branchRefs _ _ => some (2, 0)
  | .jump _ => some (0, 0)
  | op => op.effect?

/-- The words that an action takes and gives. Those of a call are read off the descriptor of the
method. -/
def Action.words? (pool : ConstantPool) : Action → Option (Nat × Nat)
  | .frame op => op.words? pool
  | .ret kind => (Action.ret kind).effect?
  | .new _ => some (0, 1)
  | .invoke mode index => do
    let callee ← pool.member? index
    let args ← Descriptor.argumentWords? callee.descriptor
    let result ← Descriptor.returnWords? callee.descriptor
    return (args + if mode = .static then 0 else 1, result)

/-- **The words that an instruction takes off the stack and puts on it**. -/
def Instruction.words? (pool : ConstantPool) (i : Instruction) : Option (Nat × Nat) :=
  i.action?.bind fun a => a.words? pool

/-- The branches, one by one. -/
theorem Opcode.isBranch_cases {op : Opcode} (h : op.isBranch = true) :
    op ∈ [ifeq, ifne, iflt, ifge, ifgt, ifle, if_icmpeq, if_icmpne, if_icmplt, if_icmpge,
      if_icmpgt, if_icmple, if_acmpeq, if_acmpne, goto] := by
  have hfin : ∀ n : Fin 256, Opcode.isBranch (UInt8.ofNat n) = true →
      UInt8.ofNat n ∈ [ifeq, ifne, iflt, ifge, ifgt, ifle, if_icmpeq, if_icmpne, if_icmplt,
        if_icmpge, if_icmpgt, if_icmple, if_acmpeq, if_acmpne, goto] := by decide +kernel
  have := hfin ⟨op.toNat, op.toNat_lt⟩
  simp only [UInt8.ofNat_toNat] at this
  exact this h

/-- A branch takes what it tests. -/
theorem words?_branch {pool : ConstantPool} {op : Opcode} (h : op.isBranch = true) (w : UInt16) :
    (Instruction.short op w).words? pool = some (op.branchPops, 0) := by
  have hcases := Opcode.isBranch_cases h
  simp only [List.mem_cons, List.not_mem_nil, or_false] at hcases
  rcases hcases with rfl | rfl | rfl | rfl | rfl | rfl | rfl | rfl | rfl | rfl | rfl | rfl | rfl |
    rfl | rfl <;> rfl

/-! ## Steady runs -/

/-- Whether an event keeps the account of the depth right: code is appended where control gets to,
with the effect that it has, a return leaves nothing behind, and the depth at a label is the same
for all who get to it. -/
def Event.Steady (pool : ConstantPool) (a : Assembler) : Event → Prop
  | .emit i pops pushes => a.alive = true ∧ i.words? pool = some (pops, pushes) ∧
      (i.opcode.isTerminal = true → a.depth = pops ∧ pushes = 0)
  | .branch op l => a.alive = true ∧
      ∀ n, a.labels.depthAt? l = some n → n = a.depth - op.branchPops
  | .place l => a.alive = true → ∀ n, a.labels.depthAt? l = some n → n = a.depth
  | .fresh => True

/-- Runs of steady events. -/
inductive SteadyRuns (pool : ConstantPool) : List Event → Assembler → Assembler → Prop where
  | nil (a : Assembler) : SteadyRuns pool [] a a
  | cons {a b c : Assembler} {e : Event} {es : List Event} (head : e.Happens a b)
      (steady : e.Steady pool a) (tail : SteadyRuns pool es b c) : SteadyRuns pool (e :: es) a c

namespace SteadyRuns

variable {pool : ConstantPool} {es fs : List Event} {a b c : Assembler}

theorem runs (h : SteadyRuns pool es a b) : Runs es a b := by
  induction h with
  | nil a => exact .nil a
  | cons head _ _ ih => exact .cons head ih

theorem append (h : SteadyRuns pool es a b) (h' : SteadyRuns pool fs b c) :
    SteadyRuns pool (es ++ fs) a c := by
  induction h with
  | nil a => exact h'
  | cons head steady _ ih => exact .cons head steady (ih h')

theorem single {e : Event} (h : e.Happens a b) (hs : e.Steady pool a) : SteadyRuns pool [e] a b :=
  .cons h hs (.nil b)

end SteadyRuns

/-! ## The invariant -/

/-- **The depth at an offset**: that of the instruction there or, if control gets to the end of the
code, that of the next one. -/
def DepthAt (a : Assembler) (offset depth : Nat) : Prop :=
  (∃ e ∈ a.trace.toList, e.offset = offset ∧ e.depth = depth) ∨
    (offset = a.code.size ∧ a.alive = true ∧ a.depth = depth)

/-- What is known of an appended instruction at an offset: it finds what it takes, and the depth
after it is right. -/
structure TrackedEmit (pool : ConstantPool) (a : Assembler) (offset : Nat) (i : Instruction)
    (pops pushes : Nat) : Prop where
  words : i.words? pool = some (pops, pushes)
  depth : ∃ n, DepthAt a offset n ∧ pops ≤ n ∧ (i.opcode.isTerminal = true → n = pops) ∧
    (i.opcode.isTerminal = false → DepthAt a (offset + i.length) (n - pops + pushes))

/-- What is known of a branch at an offset. -/
def TrackedBranch (a : Assembler) (offset : Nat) (op : Opcode) (l : Label) : Prop :=
  ∃ n, DepthAt a offset n ∧ op.branchPops ≤ n ∧
    a.labels.depthAt? l = some (n - op.branchPops) ∧
    (op.isTerminal = false → DepthAt a (offset + 3) (n - op.branchPops))

/-- **The invariant of the depths**. -/
structure Tracked (pool : ConstantPool) (es : List Event) (a : Assembler) : Prop where
  labels : ∀ l t, a.labels.offset? l = some t →
    ∃ n, a.labels.depthAt? l = some n ∧ DepthAt a t n
  emits : ∀ o i pops pushes, (o, Event.emit i pops pushes) ∈ located 0 es →
    TrackedEmit pool a o i pops pushes
  branches : ∀ o op l, (o, Event.branch op l) ∈ located 0 es → TrackedBranch a o op l
  entry : DepthAt a 0 0
  depth_le : a.depth ≤ a.maxDepth
  bounded : ∀ e ∈ a.trace.toList, e.depth ≤ a.maxDepth
  known : ∀ l n, a.labels.depthAt? l = some n → n ≤ a.maxDepth
  attained : ∃ o, DepthAt a o a.maxDepth

theorem tracked_start (pool : ConstantPool) (n : Nat) : Tracked pool [] (.start n) where
  labels := by simp [Assembler.start, LabelTable.offset?]
  emits := nofun
  branches := nofun
  entry := .inr ⟨rfl, rfl, rfl⟩
  depth_le := Nat.le_refl _
  bounded := by simp [Assembler.start]
  known := by simp [Assembler.start, LabelTable.depthAt?]
  attained := ⟨0, .inr ⟨rfl, rfl, rfl⟩⟩

section Step

variable {pool : ConstantPool} {es : List Event} {e : Event} {a b : Assembler} {o n : Nat}

theorem size_of_happens (hr : Rendered es a) (he : e.Happens a b) :
    b.code.size = a.code.size + e.length := by
  rw [(hr.happens he).size, hr.size, bytesOf_append]
  rfl

/-- A depth that is known stays what it is. -/
theorem DepthAt.mono (hr : Rendered es a) (he : e.Happens a b) (h : DepthAt a o n) :
    DepthAt b o n := by
  have hsize := size_of_happens hr he
  rcases h with ⟨x, hx, ho, hn⟩ | ⟨rfl, halive, hn⟩
  · -- the record only grows
    left
    cases he with
    | emit _ _ emits =>
      obtain ⟨op, htrace⟩ := emits.trace
      exact ⟨x, by simp [htrace, hx], ho, hn⟩
    | branch _ branches => exact ⟨x, by simp [branches.trace, hx], ho, hn⟩
    | fresh => exact ⟨x, hx, ho, hn⟩
    | place places => exact ⟨x, by rwa [places.trace], ho, hn⟩
  · -- the next instruction is recorded with the current depth
    cases he with
    | emit _ _ emits =>
      obtain ⟨op, htrace⟩ := emits.trace
      exact .inl ⟨⟨a.code.size, a.depth, op⟩, by simp [htrace], rfl, hn⟩
    | @branch _ _ op _ _ branches =>
      exact .inl ⟨⟨a.code.size, a.depth, op⟩, by simp [branches.trace], rfl, hn⟩
    | fresh => exact .inr ⟨rfl, halive, hn⟩
    | place places =>
      refine .inr ⟨hsize.symm, places.alive, ?_⟩
      rw [places.depth, if_pos halive, hn]

theorem depthAt?_of_happens {l : Label} (he : e.Happens a b)
    (h : a.labels.depthAt? l = some n) : b.labels.depthAt? l = some n := by
  cases he with
  | emit _ _ emits => rwa [emits.labels]
  | branch _ branches =>
    rw [branches.entry]
    split
    · rename_i heq
      simp [← heq, h]
    · exact h
  | fresh => exact (LabelTable.fresh_depthAt? _ l).trans h
  | place places =>
    rw [places.entry]
    split
    · rename_i heq
      simp [← heq, h]
    · exact h

theorem TrackedEmit.mono {i : Instruction} {pops pushes : Nat} (hr : Rendered es a)
    (he : e.Happens a b) (h : TrackedEmit pool a o i pops pushes) :
    TrackedEmit pool b o i pops pushes := by
  obtain ⟨hwords, n, hd, hle, hret, hnext⟩ := h
  exact ⟨hwords, n, hd.mono hr he, hle, hret, fun ht => (hnext ht).mono hr he⟩

theorem TrackedBranch.mono {op : Opcode} {l : Label} (hr : Rendered es a) (he : e.Happens a b)
    (h : TrackedBranch a o op l) : TrackedBranch b o op l := by
  obtain ⟨n, hd, hle, hl, hnext⟩ := h
  exact ⟨n, hd.mono hr he, hle, depthAt?_of_happens he hl, fun ht => (hnext ht).mono hr he⟩

/-- The instruction that was appended last. -/
theorem trackedEmit_last {i : Instruction} {pops pushes : Nat} (hr : Rendered es a)
    (he : (Event.emit i pops pushes).Happens a b)
    (hs : (Event.emit i pops pushes).Steady pool a) :
    TrackedEmit pool b a.code.size i pops pushes := by
  have hsize := size_of_happens hr he
  obtain ⟨halive, hwords, hret⟩ := hs
  cases he with
  | emit _ _ emits =>
    obtain ⟨op, htrace⟩ := emits.trace
    refine ⟨hwords, a.depth, .inl ⟨⟨a.code.size, a.depth, op⟩, by simp [htrace], rfl, rfl⟩,
      emits.pops_le, fun ht => (hret ht).1, fun ht => .inr ⟨hsize.symm, ?_, emits.depth⟩⟩
    rw [emits.alive, halive, ht]
    rfl

/-- The branch that was appended last. -/
theorem trackedBranch_last {op : Opcode} {l : Label} (hr : Rendered es a)
    (he : (Event.branch op l).Happens a b) (hs : (Event.branch op l).Steady pool a) :
    TrackedBranch b a.code.size op l := by
  have hsize := size_of_happens hr he
  obtain ⟨halive, hagree⟩ := hs
  cases he with
  | branch _ branches =>
    refine ⟨a.depth, .inl ⟨⟨a.code.size, a.depth, op⟩, by simp [branches.trace], rfl, rfl⟩,
      branches.pops_le, ?_, fun ht => .inr ⟨hsize.symm, ?_, branches.depth⟩⟩
    · rw [branches.entry, if_pos rfl, branches.depth]
      cases hl : a.labels.depthAt? l with
      | none => rfl
      | some n => simp [hagree n hl]
    · rw [branches.alive, halive, ht]
      rfl

/-- The depth at a label that is placed is the current one afterwards. -/
theorem depth_place {l : Label} (he : (Event.place l).Happens a b)
    (hs : (Event.place l).Steady pool a) : b.labels.depthAt? l = some b.depth := by
  cases he with
  | place places =>
    rw [places.entry, if_pos rfl, places.depth]
    cases hl : a.labels.depthAt? l with
    | none => cases a.alive <;> rfl
    | some n =>
      cases halive : a.alive with
      | false => rfl
      | true => simp [hs halive n hl]

/-- The largest depth after an event. -/
theorem Tracked.largest (h : Tracked pool es a) (hr : Rendered es a) (he : e.Happens a b)
    (hs : e.Steady pool a) : b.depth ≤ b.maxDepth ∧ a.maxDepth ≤ b.maxDepth ∧
      ∃ o, DepthAt b o b.maxDepth := by
  have hsize := size_of_happens hr he
  obtain ⟨o, ho⟩ := h.attained
  have hle := h.depth_le
  -- the largest depth was reached at some offset, and what is known of an offset stays known
  have hkept (heq : b.maxDepth = a.maxDepth) : ∃ o, DepthAt b o b.maxDepth :=
    ⟨o, heq ▸ ho.mono hr he⟩
  cases he with
  | @emit _ _ i pops pushes _ _ emits =>
    have hmax := emits.maxDepth hle
    refine ⟨by omega, by omega, ?_⟩
    by_cases hbig : b.depth ≤ a.maxDepth
    · exact hkept (by omega)
    · -- a new maximum: the instruction is no return, so the next one is reached with it
      refine ⟨b.code.size, .inr ⟨rfl, ?_, by omega⟩⟩
      obtain ⟨halive, -, hret⟩ := hs
      rw [emits.alive, halive]
      cases ht : i.opcode.isTerminal with
      | false => rfl
      | true =>
        obtain ⟨hpops, rfl⟩ := hret ht
        have := emits.depth
        omega
  | branch _ branches =>
    have hdepth := branches.depth
    have hmax := branches.maxDepth
    exact ⟨by omega, by omega, hkept hmax⟩
  | fresh => exact ⟨hle, Nat.le_refl _, hkept rfl⟩
  | @place _ _ l places =>
    have hmax := places.maxDepth
    refine ⟨?_, by omega, hkept hmax⟩
    rw [hmax, places.depth]
    cases hl : a.labels.depthAt? l with
    | none => simpa using hle
    | some n =>
      have := h.known l n hl
      split
      · exact hle
      · exact this

/-- The labels that have a place after an event. -/
theorem Tracked.labels_of_happens (h : Tracked pool es a) (hr : Rendered es a)
    (he : e.Happens a b) (hs : e.Steady pool a) {l : Label} {t : Nat}
    (hl : b.labels.offset? l = some t) : ∃ n, b.labels.depthAt? l = some n ∧ DepthAt b t n := by
  have hsize := size_of_happens hr he
  have hkept (hl : a.labels.offset? l = some t) :
      ∃ n, b.labels.depthAt? l = some n ∧ DepthAt b t n := by
    obtain ⟨n, hn, hd⟩ := h.labels l t hl
    exact ⟨n, depthAt?_of_happens he hn, hd.mono hr he⟩
  cases he with
  | emit _ _ emits => exact hkept (by rwa [emits.labels] at hl)
  | branch _ branches => exact hkept (by rwa [branches.offset] at hl)
  | fresh => exact hkept ((LabelTable.fresh_offset? _ l).symm.trans hl)
  | @place _ _ l' places =>
    rw [places.offset] at hl
    split at hl
    · rename_i heq
      subst heq
      cases hl
      exact ⟨b.depth, depth_place (.place places) hs, .inr ⟨hsize.symm, places.alive, rfl⟩⟩
    · exact hkept hl

/-- The depths that are recorded with labels. -/
theorem Tracked.known_of_happens (h : Tracked pool es a) (he : e.Happens a b)
    (hb : b.depth ≤ b.maxDepth) (hmax : a.maxDepth ≤ b.maxDepth) {l : Label}
    (hl : b.labels.depthAt? l = some n) : n ≤ b.maxDepth := by
  have hkept (hl : a.labels.depthAt? l = some n) : n ≤ b.maxDepth :=
    Nat.le_trans (h.known l n hl) hmax
  have hle := Nat.le_trans h.depth_le hmax
  cases he with
  | emit _ _ emits => exact hkept (by rwa [emits.labels] at hl)
  | @branch _ _ _ l' _ branches =>
    rw [branches.entry] at hl
    split at hl
    · rename_i heq
      subst heq
      rcases Option.or_eq_some_iff.1 hl with hl | ⟨-, hl⟩
      · exact hkept hl
      · cases hl
        exact hb
    · exact hkept hl
  | fresh => exact hkept ((LabelTable.fresh_depthAt? _ l).symm.trans hl)
  | @place _ _ l' places =>
    rw [places.entry] at hl
    split at hl
    · rename_i heq
      subst heq
      rcases Option.or_eq_some_iff.1 hl with hl | ⟨-, hl⟩
      · exact hkept hl
      · cases hl
        exact hle
    · exact hkept hl

theorem Tracked.bounded_of_happens (h : Tracked pool es a) (he : e.Happens a b)
    (hmax : a.maxDepth ≤ b.maxDepth) {x : TraceEntry} (hx : x ∈ b.trace.toList) :
    x.depth ≤ b.maxDepth := by
  have hold (hx : x ∈ a.trace.toList) : x.depth ≤ b.maxDepth :=
    Nat.le_trans (h.bounded x hx) hmax
  have hnew (op : Opcode) (hx : x ∈ (a.trace.push ⟨a.code.size, a.depth, op⟩).toList) :
      x.depth ≤ b.maxDepth := by
    rw [Array.toList_push] at hx
    rcases List.mem_append.1 hx with hx | hx
    · exact hold hx
    · rw [List.mem_singleton.1 hx]
      exact Nat.le_trans h.depth_le hmax
  cases he with
  | emit _ _ emits =>
    obtain ⟨op, htrace⟩ := emits.trace
    exact hnew op (htrace ▸ hx)
  | branch _ branches => exact hnew _ (branches.trace ▸ hx)
  | fresh => exact hold hx
  | place places => exact hold (places.trace ▸ hx)

/-- **One steady event** keeps the invariant. -/
theorem Tracked.happens (h : Tracked pool es a) (hr : Rendered es a) (he : e.Happens a b)
    (hs : e.Steady pool a) : Tracked pool (es ++ [e]) b := by
  obtain ⟨hdepth, hmax, hattained⟩ := h.largest hr he hs
  have hlocated : located 0 (es ++ [e]) = located 0 es ++ [(a.code.size, e)] := by
    rw [located_append, hr.size, Nat.zero_add]
    rfl
  exact
    { labels := fun l t hl => h.labels_of_happens hr he hs hl
      emits := by
        intro o i pops pushes hmem
        rw [hlocated] at hmem
        rcases List.mem_append.1 hmem with hmem | hmem
        · exact (h.emits o i pops pushes hmem).mono hr he
        · cases List.mem_singleton.1 hmem
          exact trackedEmit_last hr he hs
      branches := by
        intro o op l hmem
        rw [hlocated] at hmem
        rcases List.mem_append.1 hmem with hmem | hmem
        · exact (h.branches o op l hmem).mono hr he
        · cases List.mem_singleton.1 hmem
          exact trackedBranch_last hr he hs
      entry := h.entry.mono hr he
      depth_le := hdepth
      bounded := fun x hx => h.bounded_of_happens he hmax hx
      known := fun l n hl => h.known_of_happens he hdepth hmax hl
      attained := hattained }

end Step

/-- **The depths of a steady run** agree along every transfer of control. -/
theorem SteadyRuns.tracked {pool : ConstantPool} {es : List Event} {n : Nat} {a : Assembler}
    (h : SteadyRuns pool es (.start n) a) : Tracked pool es a := by
  -- the induction is on the run, from any state that keeps the invariant
  have hrun : ∀ {fs : List Event} {a b : Assembler}, SteadyRuns pool fs a b →
      ∀ {es : List Event}, Rendered es a → Tracked pool es a → Tracked pool (es ++ fs) b := by
    intro fs a b h
    induction h with
    | nil a =>
      intro es _ ht
      simpa using ht
    | cons head steady _ ih =>
      intro es hr ht
      rw [← List.singleton_append, ← List.append_assoc]
      exact ih (hr.happens head) (ht.happens hr head steady)
  exact hrun h (Rendered.start n) (tracked_start pool n)

end ClassFoundry
