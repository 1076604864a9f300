import ClassFoundry.Proofs.Assembler.Decoding
import ClassFoundry.Proofs.ConstantPool

/-!
# Structured code

The code of a function body before labels: fragments leave values on the stack, conditions branch,
and flows are what statements become. Structured code is laid out between two states of the
assembler when the operations in between are those that its shape asks for.

## Main definitions

* `Operation`: an instruction that control passes through, with its operands resolved
* `Fragment`, `Condition`, `Flow`: structured code
* `Fragment.Laid`, `Condition.Laid`, `Flow.Laid`: how structured code is laid out
* `Stretch`: what can be said of every piece of code

## Main results

* `Fragment.Laid.stretch`, `Condition.Laid.stretch`, `Flow.Laid.stretch`: code that is laid out
  consists of sound instructions and branches only to its own labels and to the given targets
-/

namespace ClassFoundry

/-- The words of values. -/
def Kind.wordsOf : List Kind → Nat
  | [] => 0
  | k :: ks => k.words + wordsOf ks

/-- The kinds that an operation takes off the stack and puts on it, topmost first, where they are
always the same. -/
def FrameOp.kinds? : FrameOp → Option (List Kind × List Kind)
  | .pushNull => some ([], [.reference])
  | .pushInt _ => some ([], [.int])
  | .pushLong _ => some ([], [.long])
  | .load kind _ => some ([], [kind])
  | .dup => some ([.reference], [.reference, .reference])
  | .intOp _ | .intShift _ => some ([.int, .int], [.int])
  | .longOp _ => some ([.long, .long], [.long])
  | .longShift _ => some ([.int, .long], [.long])
  | .intNeg | .intCast _ => some ([.int], [.int])
  | .longNeg => some ([.long], [.long])
  | .intToLong => some ([.int], [.long])
  | .longToInt => some ([.long], [.int])
  | .longCompare => some ([.long, .long], [.int])
  | _ => none

/-- **An instruction that control passes through**, with constants, fields, methods and classes
given by what they are. -/
inductive Operation where
  | frame (op : FrameOp)
  | drop (kind : Kind)
  | text (value : String)
  | field (member : Member)
  | invoke (mode : CallMode) (callee : Member) (args : List Kind) (result : Option Kind)
  | create (className : String)

namespace Operation

/-- The kinds taken off the stack, topmost first. -/
def takes : Operation → List Kind
  | .frame op => (op.kinds?.getD ([], [])).1
  | .drop kind => [kind]
  | .text _ | .field _ | .create _ => []
  | .invoke .static _ args _ => args.reverse
  | .invoke _ _ args _ => args.reverse ++ [.reference]

/-- The kinds put on the stack, topmost first. -/
def gives : Operation → List Kind
  | .frame op => (op.kinds?.getD ([], [])).2
  | .drop _ => []
  | .text _ | .field _ | .create _ => [.reference]
  | .invoke _ _ _ result => result.toList

/-- Whether an instruction stands for an operation under a pool. -/
def Means (pool : ConstantPool) (i : Instruction) : Operation → Prop
  | .frame op => op.kinds?.isSome ∧
      (i.action? = some (.frame op) ∨
        ∃ index, i.action? = some (.frame (.pushConstant index)) ∧
          ((∃ v, op = .pushInt v ∧ pool.get? index = some (.integer v)) ∨
            ∃ v, op = .pushLong v ∧ pool.get? index = some (.long v)))
  | .drop kind => i = .plain kind.popOp
  | .text value => ∃ index n, i.action? = some (.frame (.pushConstant index)) ∧
      pool.get? index = some (.string n) ∧ pool.text? n = some value
  | .field member => ∃ index, i.action? = some (.frame (.getStatic index)) ∧
      pool.member? index = some member
  | .invoke mode callee _ _ => ∃ index, i.action? = some (.invoke mode index) ∧
      pool.member? index = some callee
  | .create className => ∃ index, i.action? = some (.new index) ∧
      pool.className? index = some className

/-- An operation is laid out by one instruction that stands for it. -/
def Laid (pool : ConstantPool) (o : Operation) (a a' : Assembler) : Prop :=
  ∃ i, o.Means pool i ∧ verifyOperand pool i = .ok () ∧ i.opcode.isTerminal = false ∧
    (Event.emit i (Kind.wordsOf o.takes) (Kind.wordsOf o.gives)).Happens a a'

end Operation

/-- How a branch tests the values on the stack. -/
inductive Test where
  | zero (test : Comparison)
  | ints (test : Comparison)
  | refs (same : Bool)

/-- The kinds that a test takes off the stack. -/
def Test.takes : Test → List Kind
  | .zero _ => [.int]
  | .ints _ => [.int, .int]
  | .refs _ => [.reference, .reference]

/-- The branch that is taken when the test comes out as wanted. -/
def Test.opcode (jumpIf : Bool) : Test → Opcode
  | .zero test => (if jumpIf then test else test.negate).zeroBranch
  | .ints test => (if jumpIf then test else test.negate).intBranch
  | .refs same => referenceBranch (same == jumpIf)

mutual

/-- **Code that works on the stack**. -/
inductive Fragment where
  | nil
  | op (o : Operation)
  | seq (first second : Fragment)
  /-- Pushes 1 or 0 for the truth of a condition. -/
  | truth (cond : Condition)

/-- **Code that branches** when it is as wanted. -/
inductive Condition where
  | test (operands : Fragment) (t : Test)
  | logic (op : Connective) (left right : Condition)
  | not (cond : Condition)

end

/-- **The code of statements**. -/
inductive Flow where
  | nil
  | seq (first second : Flow)
  | run (code : Fragment)
  | store (value : Fragment) (kind : Kind) (slot : Nat)
  | ret (value : Fragment) (kind : Option Kind)
  | ifThen (cond : Condition) (body : Flow)
  | ifElse (cond : Condition) (body orElse : Flow)
  | loop (cond : Condition) (body : Flow)
  | break
  | continue

/-- Whether control cannot reach the end of a flow. -/
def Flow.ends : Flow → Bool
  | .seq _ second => second.ends
  | .ret _ _ | .break | .continue => true
  | .ifElse _ body orElse => body.ends && orElse.ends
  | _ => false

/-- The label that is made next. -/
def Assembler.nextLabel (a : Assembler) : Label := ⟨a.labels.states.size⟩

/-- The state after a label is made. -/
def Assembler.withLabel (a : Assembler) : Assembler := { a with labels := a.labels.fresh.2 }

/-- The instruction of a return. -/
def returnOpcode (kind : Option Kind) : Opcode :=
  match kind with
  | some k => k.returnOp
  | none => .vreturn

/-- The words of what is returned. -/
def returnWords (kind : Option Kind) : Nat := Kind.wordsOf kind.toList

mutual

/-- How a fragment is laid out. -/
def Fragment.Laid (pool : ConstantPool) : Fragment → Assembler → Assembler → Prop
  | .nil, a, a' => a' = a
  | .op o, a, a' => o.Laid pool a a'
  | .seq first second, a, a' => ∃ b, first.Laid pool a b ∧ second.Laid pool b a'
  | .truth cond, a, a' => ∃ b₁ b₂ b₃ b₄ b₅,
      cond.Laid pool false a.nextLabel a.withLabel.withLabel b₁ ∧
      (Operation.frame (.pushInt 1)).Laid pool b₁ b₂ ∧
      (Event.branch .goto a.withLabel.nextLabel).Happens b₂ b₃ ∧
      (Event.place a.nextLabel).Happens b₃ b₄ ∧
      (Operation.frame (.pushInt 0)).Laid pool b₄ b₅ ∧
      (Event.place a.withLabel.nextLabel).Happens b₅ a'

/-- How a condition is laid out that branches to `target` when it comes out as `jumpIf`. -/
def Condition.Laid (pool : ConstantPool) :
    Condition → (jumpIf : Bool) → (target : Label) → Assembler → Assembler → Prop
  | .test operands t, jumpIf, target, a, a' =>
    ∃ b, operands.Laid pool a b ∧ (Event.branch (t.opcode jumpIf) target).Happens b a'
  | .logic op left right, jumpIf, target, a, a' =>
    if jumpIf = (op == .or) then
      ∃ b, left.Laid pool jumpIf target a b ∧ right.Laid pool jumpIf target b a'
    else
      ∃ b c, left.Laid pool (op == .or) a.nextLabel a.withLabel b ∧
        right.Laid pool jumpIf target b c ∧ (Event.place a.nextLabel).Happens c a'
  | .not cond, jumpIf, target, a, a' => cond.Laid pool (!jumpIf) target a a'

end

/-- A jump that is left out where control cannot get to it. -/
def JumpsUnless (unreachable : Bool) (target : Label) (a a' : Assembler) : Prop :=
  if unreachable then a' = a else (Event.branch .goto target).Happens a a'

/-- How a flow is laid out inside the given innermost loop. -/
def Flow.Laid (pool : ConstantPool) : Flow → Option LoopLabels → Assembler → Assembler → Prop
  | .nil, _, a, a' => a' = a
  | .seq first second, inner, a, a' => ∃ b, first.Laid pool inner a b ∧ second.Laid pool inner b a'
  | .run code, _, a, a' => code.Laid pool a a'
  | .store value kind slot, _, a, a' => ∃ b i, value.Laid pool a b ∧
      Asm.Means i (.frame (.store kind slot)) ∧ verifyOperand pool i = .ok () ∧
      (Event.emit i kind.words 0).Happens b a'
  | .ret value kind, _, a, a' => ∃ b, value.Laid pool a b ∧
      (Event.emit (.plain (returnOpcode kind)) (returnWords kind) 0).Happens b a'
  | .ifThen cond body, inner, a, a' => ∃ b c,
      cond.Laid pool false a.nextLabel a.withLabel b ∧ body.Laid pool inner b c ∧
      (Event.place a.nextLabel).Happens c a'
  | .ifElse cond body orElse, inner, a, a' => ∃ b c d e f g,
      cond.Laid pool false a.nextLabel a.withLabel b ∧ body.Laid pool inner b c ∧
      JumpsUnless body.ends c.nextLabel c.withLabel d ∧
      (Event.place a.nextLabel).Happens d e ∧ orElse.Laid pool inner e f ∧
      JumpsUnless orElse.ends c.nextLabel f g ∧ (Event.place c.nextLabel).Happens g a'
  | .loop cond body, _, a, a' => ∃ b c d e f,
      (Event.branch .goto a.nextLabel).Happens a.withLabel.withLabel.withLabel b ∧
      (Event.place a.withLabel.nextLabel).Happens b c ∧
      body.Laid pool (some ⟨a.withLabel.withLabel.nextLabel, a.nextLabel⟩) c d ∧
      (Event.place a.nextLabel).Happens d e ∧
      cond.Laid pool true a.withLabel.nextLabel e f ∧
      (Event.place a.withLabel.withLabel.nextLabel).Happens f a'
  | .break, inner, a, a' => ∃ labels, inner = some labels ∧
      (Event.branch .goto labels.exit).Happens a a'
  | .continue, inner, a, a' => ∃ labels, inner = some labels ∧
      (Event.branch .goto labels.test).Happens a a'

/-! ## A larger pool -/

section Mono

variable {p q : ConstantPool}

theorem ConstantPool.expectAny_mono (h : p ≤ q) {i : UInt16} {expected : String}
    {others : List String} (hp : p.expectAny i expected others = .ok ()) :
    q.expectAny i expected others = .ok () := by
  unfold expectAny at hp ⊢
  cases hg : p.get? i with
  | none => simp [hg] at hp
  | some c => simpa [hg, ConstantPool.get?_mono h hg] using hp

theorem verifyOperand_mono (h : p ≤ q) {i : Instruction} (hp : verifyOperand p i = .ok ()) :
    verifyOperand q i = .ok () := by
  unfold verifyOperand at hp ⊢
  unfold ConstantPool.expect at hp ⊢
  split at hp <;> first | exact ConstantPool.expectAny_mono h hp | rfl

theorem Operation.Means.mono (h : p ≤ q) {i : Instruction} {o : Operation} (hp : o.Means p i) :
    o.Means q i := by
  cases o with
  | frame op =>
    obtain ⟨hk, hi | ⟨index, hi, ⟨v, hv, hg⟩ | ⟨v, hv, hg⟩⟩⟩ := hp
    · exact ⟨hk, .inl hi⟩
    · exact ⟨hk, .inr ⟨index, hi, .inl ⟨v, hv, ConstantPool.get?_mono h hg⟩⟩⟩
    · exact ⟨hk, .inr ⟨index, hi, .inr ⟨v, hv, ConstantPool.get?_mono h hg⟩⟩⟩
  | drop kind => exact hp
  | text value =>
    obtain ⟨index, n, hi, hg, ht⟩ := hp
    exact ⟨index, n, hi, ConstantPool.get?_mono h hg, ConstantPool.text?_mono h ht⟩
  | field member =>
    obtain ⟨index, hi, hm⟩ := hp
    exact ⟨index, hi, ConstantPool.member?_mono h hm⟩
  | invoke mode callee args result =>
    obtain ⟨index, hi, hm⟩ := hp
    exact ⟨index, hi, ConstantPool.member?_mono h hm⟩
  | create className =>
    obtain ⟨index, hi, hc⟩ := hp
    exact ⟨index, hi, ConstantPool.className?_mono h hc⟩

theorem Operation.Laid.mono (h : p ≤ q) {o : Operation} {a a' : Assembler}
    (hp : o.Laid p a a') : o.Laid q a a' := by
  obtain ⟨i, hm, hv, ht, he⟩ := hp
  exact ⟨i, hm.mono h, verifyOperand_mono h hv, ht, he⟩

mutual

theorem Fragment.Laid.mono (h : p ≤ q) (c : Fragment) {a a' : Assembler} (hp : c.Laid p a a') :
    c.Laid q a a' := by
  cases c with
  | nil => exact hp
  | op o => exact Operation.Laid.mono h hp
  | seq first second =>
    obtain ⟨b, h₁, h₂⟩ := hp
    exact ⟨b, Fragment.Laid.mono h first h₁, Fragment.Laid.mono h second h₂⟩
  | truth cond =>
    obtain ⟨b₁, b₂, b₃, b₄, b₅, h₁, h₂, h₃, h₄, h₅, h₆⟩ := hp
    exact ⟨b₁, b₂, b₃, b₄, b₅, Condition.Laid.mono h cond h₁, h₂.mono h, h₃, h₄, h₅.mono h, h₆⟩

theorem Condition.Laid.mono (h : p ≤ q) (c : Condition) {jumpIf : Bool} {target : Label}
    {a a' : Assembler} (hp : c.Laid p jumpIf target a a') : c.Laid q jumpIf target a a' := by
  cases c with
  | test operands t =>
    obtain ⟨b, h₁, h₂⟩ := hp
    exact ⟨b, Fragment.Laid.mono h operands h₁, h₂⟩
  | logic op left right =>
    unfold Condition.Laid at hp ⊢
    split at hp <;> rename_i hd
    · obtain ⟨b, h₁, h₂⟩ := hp
      rw [if_pos hd]
      exact ⟨b, Condition.Laid.mono h left h₁, Condition.Laid.mono h right h₂⟩
    · obtain ⟨b, c, h₁, h₂, h₃⟩ := hp
      rw [if_neg hd]
      exact ⟨b, c, Condition.Laid.mono h left h₁, Condition.Laid.mono h right h₂, h₃⟩
  | not cond => exact Condition.Laid.mono h cond hp

end

theorem Flow.Laid.mono (h : p ≤ q) (c : Flow) {inner : Option LoopLabels} {a a' : Assembler}
    (hp : c.Laid p inner a a') : c.Laid q inner a a' := by
  induction c generalizing inner a a' with
  | nil => exact hp
  | seq first second ih₁ ih₂ =>
    obtain ⟨b, h₁, h₂⟩ := hp
    exact ⟨b, ih₁ h₁, ih₂ h₂⟩
  | run code => exact Fragment.Laid.mono h code hp
  | store value kind slot =>
    obtain ⟨b, i, h₁, hm, hv, h₂⟩ := hp
    exact ⟨b, i, Fragment.Laid.mono h value h₁, hm, verifyOperand_mono h hv, h₂⟩
  | ret value kind =>
    obtain ⟨b, h₁, h₂⟩ := hp
    exact ⟨b, Fragment.Laid.mono h value h₁, h₂⟩
  | ifThen cond body ih =>
    obtain ⟨b, c, h₁, h₂, h₃⟩ := hp
    exact ⟨b, c, Condition.Laid.mono h cond h₁, ih h₂, h₃⟩
  | ifElse cond body orElse ih₁ ih₂ =>
    obtain ⟨b, c, d, e, f, g, h₁, h₂, h₃, h₄, h₅, h₆, h₇⟩ := hp
    exact ⟨b, c, d, e, f, g, Condition.Laid.mono h cond h₁, ih₁ h₂, h₃, h₄, ih₂ h₅, h₆, h₇⟩
  | loop cond body ih =>
    obtain ⟨b, c, d, e, f, h₁, h₂, h₃, h₄, h₅, h₆⟩ := hp
    exact ⟨b, c, d, e, f, h₁, h₂, ih h₃, h₄, Condition.Laid.mono h cond h₅, h₆⟩
  | «break» => exact hp
  | «continue» => exact hp

end Mono

/-! ## Stretches of code -/

/-- Whether the constant that an event refers to is of the right sort. -/
def Event.Verified (pool : ConstantPool) : Event → Prop
  | .emit i _ _ => verifyOperand pool i = .ok ()
  | _ => True

/-- **A stretch of code**: sound instructions, with branches only to labels that are made in the
stretch and to the given targets. What is known of the other labels stays as it is. -/
structure Stretch (pool : ConstantPool) (targets : List Label) (a a' : Assembler) : Prop where
  runs : ∃ es, Runs es a a' ∧ ∀ e ∈ es, e.Verified pool
  size : a.labels.states.size ≤ a'.labels.states.size
  offset : ∀ l, l.id < a.labels.states.size → a'.labels.offset? l = a.labels.offset? l
  entry : ∀ l, l.id < a.labels.states.size → l ∉ targets →
    a'.labels.depthAt? l = a.labels.depthAt? l
  branches : ∃ new, a'.branches.toList = a.branches.toList ++ new ∧
    ∀ b ∈ new, b.2 ∈ targets ∨ a.labels.states.size ≤ b.2.id

namespace Stretch

variable {pool : ConstantPool} {targets inner : List Label} {a b c : Assembler} {l : Label}

theorem refl (pool : ConstantPool) (targets : List Label) (a : Assembler) :
    Stretch pool targets a a :=
  ⟨⟨[], .nil a, by simp⟩, Nat.le_refl _, fun _ _ => rfl, fun _ _ _ => rfl, [], by simp⟩

/-- Stretches are put together if what the second one branches to is a target of the whole or was
made in the first one. -/
theorem trans (h : Stretch pool targets a b) (h' : Stretch pool inner b c)
    (htargets : ∀ l ∈ inner, l ∈ targets ∨ a.labels.states.size ≤ l.id) :
    Stretch pool targets a c := by
  obtain ⟨es, hes, hv⟩ := h.runs
  obtain ⟨fs, hfs, hw⟩ := h'.runs
  obtain ⟨new, hnew, hb⟩ := h.branches
  obtain ⟨new', hnew', hb'⟩ := h'.branches
  refine ⟨⟨es ++ fs, hes.append hfs, ?_⟩, Nat.le_trans h.size h'.size, ?_, ?_, new ++ new', ?_, ?_⟩
  · intro e he
    rcases List.mem_append.1 he with he | he
    · exact hv e he
    · exact hw e he
  · intro l hl
    rw [h'.offset l (Nat.lt_of_lt_of_le hl h.size), h.offset l hl]
  · intro l hl ht
    have hi : l ∉ inner := fun hi => (htargets l hi).elim ht (Nat.not_le_of_lt hl)
    rw [h'.entry l (Nat.lt_of_lt_of_le hl h.size) hi, h.entry l hl ht]
  · rw [hnew', hnew, List.append_assoc]
  · intro br hbr
    rcases List.mem_append.1 hbr with hbr | hbr
    · exact hb br hbr
    · rcases hb' br hbr with hi | hi
      · exact htargets br.2 hi
      · exact .inr (Nat.le_trans h.size hi)

/-- A stretch goes on with one that has the same targets. -/
theorem append (h : Stretch pool targets a b) (h' : Stretch pool targets b c) :
    Stretch pool targets a c :=
  h.trans h' fun _ hl => .inl hl

theorem emit {i : Instruction} {pops pushes : Nat} (h : Stretch pool targets a b)
    (hv : verifyOperand pool i = .ok ()) (he : (Event.emit i pops pushes).Happens b c) :
    Stretch pool targets a c := by
  have hruns := Runs.single he
  cases he with
  | emit encodable branchless emits =>
    refine h.append
      { runs := ⟨_, hruns, by simpa [Event.Verified] using hv⟩
        size := Nat.le_of_eq (by rw [emits.labels])
        offset := fun l _ => by rw [emits.labels]
        entry := fun l _ _ => by rw [emits.labels]
        branches := ⟨[], by simp [emits.branches], by simp⟩ }

theorem op {o : Operation} (h : Stretch pool targets a b) (ho : o.Laid pool b c) :
    Stretch pool targets a c := by
  obtain ⟨i, -, hv, -, he⟩ := ho
  exact h.emit hv he

theorem fresh (h : Stretch pool targets a b) : Stretch pool targets a b.withLabel := by
  refine h.append ⟨⟨[.fresh], .single (.fresh b), by simp [Event.Verified]⟩, ?_, ?_, ?_, [], ?_⟩
  · simp [Assembler.withLabel, LabelTable.fresh]
  · intro l _
    exact LabelTable.fresh_offset? _ l
  · intro l _ _
    exact LabelTable.fresh_depthAt? _ l
  · simp [Assembler.withLabel]

theorem branch {op : Opcode} (h : Stretch pool targets a b) (he : (Event.branch op l).Happens b c)
    (hl : l ∈ targets ∨ a.labels.states.size ≤ l.id) : Stretch pool targets a c := by
  have hruns := Runs.single he
  cases he with
  | branch isBranch branches =>
    have hstep : Stretch pool [l] b c :=
      { runs := ⟨_, hruns, by simp [Event.Verified]⟩
        size := Nat.le_of_eq branches.size.symm
        offset := fun l' _ => branches.offset l'
        entry := fun l' _ hl' => by rw [branches.entry, if_neg (by simpa using hl')]
        branches := ⟨[(b.code.size, l)], by rw [branches.branches, Array.toList_push], by simp⟩ }
    exact h.trans hstep (by simpa using hl)

/-- A label is placed by the stretch in which it was made. -/
theorem place (h : Stretch pool targets a b) (he : (Event.place l).Happens b c)
    (hl : a.labels.states.size ≤ l.id) : Stretch pool targets a c := by
  obtain ⟨es, hes, hv⟩ := h.runs
  obtain ⟨new, hnew, hb⟩ := h.branches
  have hruns := hes.append (.single he)
  cases he with
  | place places =>
    have hne : ∀ l', l'.id < a.labels.states.size → l' ≠ l := by
      rintro l' hl' rfl
      exact Nat.not_le_of_lt hl' hl
    refine ⟨⟨_, hruns, ?_⟩, ?_, ?_, ?_, new, ?_, hb⟩
    · simpa [or_imp, forall_and, Event.Verified] using hv
    · rw [places.size]
      exact h.size
    · intro l' hl'
      rw [places.offset, if_neg (hne l' hl'), h.offset l' hl']
    · intro l' hl' ht
      rw [places.entry, if_neg (hne l' hl'), h.entry l' hl' ht]
    · rw [places.branches, hnew]

end Stretch

section Laid

variable {pool : ConstantPool}

@[simp] theorem Assembler.size_withLabel (a : Assembler) :
    a.withLabel.labels.states.size = a.labels.states.size + 1 := by
  simp [withLabel, LabelTable.fresh]

@[simp] theorem Assembler.id_nextLabel (a : Assembler) : a.nextLabel.id = a.labels.states.size :=
  rfl

mutual

theorem Fragment.Laid.stretch (c : Fragment) {a a' : Assembler} (h : c.Laid pool a a') :
    Stretch pool [] a a' := by
  cases c with
  | nil =>
    cases h
    exact .refl _ _ _
  | op o => exact (Stretch.refl _ _ _).op h
  | seq first second =>
    obtain ⟨b, h₁, h₂⟩ := h
    exact (Fragment.Laid.stretch first h₁).append (Fragment.Laid.stretch second h₂)
  | truth cond =>
    obtain ⟨b₁, b₂, b₃, b₄, b₅, h₁, h₂, h₃, h₄, h₅, h₆⟩ := h
    have hcond := (Stretch.refl pool [] a).fresh.fresh.trans (Condition.Laid.stretch cond h₁)
      (by simp)
    exact ((((hcond.op h₂).branch h₃ (by simp)).place h₄ (by simp)).op h₅).place h₆ (by simp)

theorem Condition.Laid.stretch (c : Condition) {jumpIf : Bool} {target : Label}
    {a a' : Assembler} (h : c.Laid pool jumpIf target a a') : Stretch pool [target] a a' := by
  cases c with
  | test operands t =>
    obtain ⟨b, h₁, h₂⟩ := h
    exact (((Stretch.refl _ _ _).trans (Fragment.Laid.stretch operands h₁) (by simp)).branch h₂
      (by simp))
  | logic op left right =>
    unfold Condition.Laid at h
    split at h
    · obtain ⟨b, h₁, h₂⟩ := h
      exact (Condition.Laid.stretch left h₁).append (Condition.Laid.stretch right h₂)
    · obtain ⟨b, c, h₁, h₂, h₃⟩ := h
      have hleft := (Stretch.refl pool [target] a).fresh.trans (Condition.Laid.stretch left h₁)
        (by simp)
      exact (hleft.append (Condition.Laid.stretch right h₂)).place h₃ (by simp)
  | not cond => exact Condition.Laid.stretch cond h

end

/-- The labels of a loop. -/
def LoopLabels.list (inner : Option LoopLabels) : List Label :=
  match inner with
  | some labels => [labels.exit, labels.test]
  | none => []

theorem JumpsUnless.stretch {unreachable : Bool} {target : Label} {targets : List Label}
    {a b c : Assembler} (h : Stretch pool targets a b) (hj : JumpsUnless unreachable target b c)
    (ht : a.labels.states.size ≤ target.id) : Stretch pool targets a c := by
  unfold JumpsUnless at hj
  split at hj
  · cases hj
    exact h
  · exact h.branch hj (.inr ht)

theorem Flow.Laid.stretch (c : Flow) {inner : Option LoopLabels} {a a' : Assembler}
    (h : c.Laid pool inner a a') : Stretch pool (LoopLabels.list inner) a a' := by
  induction c generalizing inner a a' with
  | nil =>
    cases h
    exact .refl _ _ _
  | seq first second ih₁ ih₂ =>
    obtain ⟨b, h₁, h₂⟩ := h
    exact (ih₁ h₁).append (ih₂ h₂)
  | run code => exact (Stretch.refl _ _ _).trans (Fragment.Laid.stretch code h) (by simp)
  | store value kind slot =>
    obtain ⟨b, i, h₁, -, hv, h₂⟩ := h
    exact ((Stretch.refl _ _ _).trans (Fragment.Laid.stretch value h₁) (by simp)).emit hv h₂
  | ret value kind =>
    obtain ⟨b, h₁, h₂⟩ := h
    exact ((Stretch.refl _ _ _).trans (Fragment.Laid.stretch value h₁) (by simp)).emit rfl h₂
  | ifThen cond body ih =>
    obtain ⟨b, c, h₁, h₂, h₃⟩ := h
    have hcond := (Stretch.refl pool (LoopLabels.list inner) a).fresh.trans
      (Condition.Laid.stretch cond h₁) (by simp)
    exact (hcond.append (ih h₂)).place h₃ (by simp)
  | ifElse cond body orElse ih₁ ih₂ =>
    obtain ⟨b, c, d, e, f, g, h₁, h₂, h₃, h₄, h₅, h₆, h₇⟩ := h
    have hbody := ((Stretch.refl pool (LoopLabels.list inner) a).fresh.trans
      (Condition.Laid.stretch cond h₁) (by simp)).append (ih₁ h₂)
    have hjump := JumpsUnless.stretch hbody.fresh h₃ hbody.size
    have helse := (hjump.place h₄ (by simp)).append (ih₂ h₅)
    exact (JumpsUnless.stretch helse h₆ hbody.size).place h₇ hbody.size
  | loop cond body ih =>
    obtain ⟨b, c, d, e, f, h₁, h₂, h₃, h₄, h₅, h₆⟩ := h
    have hstart := ((Stretch.refl pool (LoopLabels.list inner) a).fresh.fresh.fresh.branch h₁
      (by simp)).place h₂ (by simp)
    have hbody := (hstart.trans (ih h₃) (by simp [LoopLabels.list]; omega)).place h₄ (by simp)
    exact (hbody.trans (Condition.Laid.stretch cond h₅) (by simp)).place h₆ (by simp; omega)
  | «break» =>
    obtain ⟨labels, rfl, h⟩ := h
    exact (Stretch.refl _ _ _).branch h (by simp [LoopLabels.list])
  | «continue» =>
    obtain ⟨labels, rfl, h⟩ := h
    exact (Stretch.refl _ _ _).branch h (by simp [LoopLabels.list])

end Laid

end ClassFoundry
