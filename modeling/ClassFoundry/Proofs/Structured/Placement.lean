import ClassFoundry.Proofs.Structured.Ends

/-!
# Where structured code stands

In the finished code of a method, labels have become offsets and branches are complete. A piece of
structured code then stands between two offsets of the code array, and what the machine does there
can be told from its shape, without the assembler.

## Main definitions

* `Fragment.At`, `Condition.At`, `Flow.At`: structured code between two offsets
* `Becomes`: a state of the assembler that the finished one comes from

## Main results

* `Fragment.Laid.at`, `Condition.Laid.at`, `Flow.Laid.at`: code that was laid out stands where the
  assembler was
-/

namespace ClassFoundry

/-! ## Standing code -/

/-- An instruction that stands for an operation. -/
def Operation.At (pool : ConstantPool) (code : CodeArray) (o : Operation) (pc pc' : Nat) : Prop :=
  ∃ i, decodeAt code pc = .ok i ∧ o.Means pool i ∧ pc' = pc + i.length

/-- A branch to an offset, and the offset behind it. -/
def BranchAt (code : CodeArray) (op : Opcode) (target pc pc' : Nat) : Prop :=
  (∃ w, decodeAt code pc = .ok (.short op w) ∧ branchTarget pc w = target) ∧ pc' = pc + 3

/-- A jump that is left out where control cannot get to it. -/
def JumpAt (code : CodeArray) (unreachable : Bool) (target pc pc' : Nat) : Prop :=
  if unreachable then pc' = pc else BranchAt code .goto target pc pc'

mutual

/-- **Where a fragment stands**. -/
def Fragment.At (pool : ConstantPool) (code : CodeArray) : Fragment → Nat → Nat → Prop
  | .nil, pc, pc' => pc' = pc
  | .op o, pc, pc' => o.At pool code pc pc'
  | .seq first second, pc, pc' =>
    ∃ mid, first.At pool code pc mid ∧ second.At pool code mid pc'
  | .truth cond, pc, pc' => ∃ start jump start', cond.At pool code false start' pc start ∧
      (Operation.frame (.pushInt 1)).At pool code start jump ∧
      BranchAt code .goto pc' jump start' ∧
      (Operation.frame (.pushInt 0)).At pool code start' pc'

/-- **Where a condition stands** that branches to `target` when it comes out as `jumpIf`. -/
def Condition.At (pool : ConstantPool) (code : CodeArray) :
    Condition → (jumpIf : Bool) → (target : Nat) → Nat → Nat → Prop
  | .test operands t, jumpIf, target, pc, pc' =>
    ∃ mid, operands.At pool code pc mid ∧ BranchAt code (t.opcode jumpIf) target mid pc'
  | .logic op left right, jumpIf, target, pc, pc' =>
    if jumpIf = (op == .or) then
      ∃ mid, left.At pool code jumpIf target pc mid ∧ right.At pool code jumpIf target mid pc'
    else
      ∃ mid, left.At pool code (op == .or) pc' pc mid ∧ right.At pool code jumpIf target mid pc'
  | .not cond, jumpIf, target, pc, pc' => cond.At pool code (!jumpIf) target pc pc'

end

/-- The offsets that the jumps of a loop lead to. -/
structure LoopOffsets where
  exit : Nat
  test : Nat

/-- **Where a flow stands** inside the given innermost loop. -/
def Flow.At (pool : ConstantPool) (code : CodeArray) :
    Flow → Option LoopOffsets → Nat → Nat → Prop
  | .nil, _, pc, pc' => pc' = pc
  | .seq first second, inner, pc, pc' =>
    ∃ mid, first.At pool code inner pc mid ∧ second.At pool code inner mid pc'
  | .run fragment, _, pc, pc' => fragment.At pool code pc pc'
  | .store value kind slot, _, pc, pc' => ∃ mid i, value.At pool code pc mid ∧
      decodeAt code mid = .ok i ∧ i.action? = some (.frame (.store kind slot)) ∧
      pc' = mid + i.length
  | .ret value kind, _, pc, pc' => ∃ mid, value.At pool code pc mid ∧
      decodeAt code mid = .ok (.plain (returnOpcode kind)) ∧ pc' = mid + 1
  | .ifThen cond body, inner, pc, pc' =>
    ∃ start, cond.At pool code false pc' pc start ∧ body.At pool code inner start pc'
  | .ifElse cond body orElse, inner, pc, pc' => ∃ start jump start' jump',
      cond.At pool code false start' pc start ∧ body.At pool code inner start jump ∧
      JumpAt code body.ends pc' jump start' ∧ orElse.At pool code inner start' jump' ∧
      JumpAt code orElse.ends pc' jump' pc'
  | .loop cond body, _, pc, pc' => ∃ start test, BranchAt code .goto test pc start ∧
      body.At pool code (some ⟨pc', test⟩) start test ∧ cond.At pool code true start test pc'
  | .break, inner, pc, pc' =>
    ∃ offsets, inner = some offsets ∧ BranchAt code .goto offsets.exit pc pc'
  | .continue, inner, pc, pc' =>
    ∃ offsets, inner = some offsets ∧ BranchAt code .goto offsets.test pc pc'

/-! ## From the assembler to the code -/

/-- A state of the assembler that another one comes from. -/
def Becomes (a z : Assembler) : Prop := ∃ es, Runs es a z

section Becomes

variable {a b z : Assembler} {pool : ConstantPool}

theorem Becomes.trans (h : Becomes a b) (h' : Becomes b z) : Becomes a z := by
  obtain ⟨es, hes⟩ := h
  obtain ⟨fs, hfs⟩ := h'
  exact ⟨es ++ fs, hes.append hfs⟩

theorem Becomes.single {e : Event} (h : e.Happens a b) : Becomes a b := ⟨[e], .single h⟩

theorem Stretch.becomes {targets : List Label} (h : Stretch pool targets a b) : Becomes a b := by
  obtain ⟨es, hes, -⟩ := h.runs
  exact ⟨es, hes⟩

theorem Reached.becomes (h : Reached a) (h' : Becomes a b) : Reached b := by
  obtain ⟨es, hes⟩ := h'
  exact h.runs hes

/-- A label that has a place keeps it. -/
theorem Event.Happens.offset? {e : Event} {l : Label} {t : Nat} (h : e.Happens a b)
    (ht : a.labels.offset? l = some t) : b.labels.offset? l = some t := by
  cases h with
  | emit _ _ emits => rwa [emits.labels]
  | branch _ branches => rwa [branches.offset]
  | fresh => exact (LabelTable.fresh_offset? _ l).trans ht
  | place places =>
    -- a label is placed only once, so it is another one
    rw [places.offset, if_neg ?_]
    · exact ht
    · rintro rfl
      rw [places.unplaced] at ht
      cases ht

theorem Becomes.offset? {l : Label} {t : Nat} (h : Becomes a z)
    (ht : a.labels.offset? l = some t) : z.labels.offset? l = some t := by
  obtain ⟨es, hes⟩ := h
  induction hes with
  | nil a => exact ht
  | cons head tail ih => exact ih (head.offset? ht)

theorem emit_at {i : Instruction} {pops pushes : Nat} (hr : Reached a)
    (he : (Event.emit i pops pushes).Happens a b) (hz : Becomes b z) :
    decodeAt z.code a.pc = .ok i ∧ b.pc = a.pc + i.length := by
  obtain ⟨es, n, hes⟩ := hr
  obtain ⟨fs, hfs⟩ := hz
  refine ⟨decode_emitted hes he hfs, ?_⟩
  cases he with
  | emit _ _ emits =>
    unfold Assembler.pc
    rw [← Array.length_toList, emits.code, List.length_append, i.length_encode,
      Array.length_toList]

theorem branch_at {op : Opcode} {l : Label} {t : Nat} (hr : Reached a)
    (he : (Event.branch op l).Happens a b) (hz : Becomes b z) (hclosed : z.Closed)
    (ht : z.labels.offset? l = some t) : BranchAt z.code op t a.pc b.pc := by
  have hsize := hr.size (.single he)
  obtain ⟨es, n, hes⟩ := hr
  obtain ⟨fs, hfs⟩ := hz
  obtain ⟨t', w, ht', hdecode, htarget⟩ := decode_branch hes he hfs hclosed
  rw [ht] at ht'
  cases ht'
  exact ⟨⟨w, hdecode, htarget⟩, hsize⟩

/-- The place of a label is where the assembler was. -/
theorem place_at {l : Label} (hr : Reached a) (he : (Event.place l).Happens a b)
    (hz : Becomes b z) : z.labels.offset? l = some a.pc ∧ b.pc = a.pc := by
  refine ⟨hz.offset? ?_, hr.size (.single he)⟩
  cases he with
  | place places =>
    rw [places.offset, if_pos rfl]
    rfl

theorem Operation.Laid.at {o : Operation} (h : o.Laid pool a b) (hr : Reached a)
    (hz : Becomes b z) : o.At pool z.code a.pc b.pc := by
  obtain ⟨i, hmeans, -, -, he⟩ := h
  obtain ⟨hdecode, hpc⟩ := emit_at hr he hz
  exact ⟨i, hdecode, hmeans, hpc⟩

theorem Operation.Laid.becomes {o : Operation} (h : o.Laid pool a b) : Becomes a b :=
  ((Stretch.refl pool [] a).op h).becomes

theorem becomes_withLabel (a : Assembler) : Becomes a a.withLabel := .single (.fresh a)

end Becomes

section Laid

variable {pool : ConstantPool} {z : Assembler} (hclosed : z.Closed)

include hclosed

mutual

/-- **A fragment that was laid out** stands where the assembler was. -/
theorem Fragment.Laid.at (c : Fragment) {a b : Assembler} (h : c.Laid pool a b) (hr : Reached a)
    (hz : Becomes b z) : c.At pool z.code a.pc b.pc := by
  cases c with
  | nil =>
    obtain rfl : b = a := h
    rfl
  | op o => exact Operation.Laid.at h hr hz
  | seq first second =>
    obtain ⟨m, h₁, h₂⟩ := h
    have hfirst := (Fragment.Laid.stretch first h₁).becomes
    have hsecond := (Fragment.Laid.stretch second h₂).becomes
    exact ⟨m.pc, Fragment.Laid.at first h₁ hr (hsecond.trans hz),
      Fragment.Laid.at second h₂ (hr.becomes hfirst) hz⟩
  | truth cond =>
    obtain ⟨b₁, b₂, b₃, b₄, b₅, h₁, h₂, h₃, h₄, h₅, h₆⟩ := h
    -- what every state on the way becomes, from the last one back
    have hz₅ := (Becomes.single h₆).trans hz
    have hz₄ := (Operation.Laid.becomes h₅).trans hz₅
    have hz₃ := (Becomes.single h₄).trans hz₄
    have hz₂ := (Becomes.single h₃).trans hz₃
    have hz₁ := (Operation.Laid.becomes h₂).trans hz₂
    have hr₀ := (hr.becomes (becomes_withLabel a)).becomes (becomes_withLabel a.withLabel)
    have hr₁ := hr₀.becomes (Condition.Laid.stretch cond h₁).becomes
    have hr₂ := hr₁.becomes (Operation.Laid.becomes h₂)
    have hr₃ := hr₂.becomes (.single h₃)
    have hr₅ := (hr₃.becomes (.single h₄)).becomes (Operation.Laid.becomes h₅)
    obtain ⟨hotherwise, hpc₄⟩ := place_at hr₃ h₄ hz₄
    obtain ⟨hdone, hpc⟩ := place_at hr₅ h₆ hz
    have hcond := Condition.Laid.at cond h₁ hr₀ hz₁ hotherwise
    refine ⟨b₁.pc, b₂.pc, b₃.pc, hcond, Operation.Laid.at h₂ hr₁ hz₂, ?_, ?_⟩
    · exact branch_at hr₂ h₃ hz₃ hclosed (hpc ▸ hdone)
    · have hzero := Operation.Laid.at h₅ (hr₃.becomes (.single h₄)) hz₅
      rwa [hpc₄, ← hpc] at hzero

/-- **A condition that was laid out** stands where the assembler was, with the place of its label as
the target. -/
theorem Condition.Laid.at (c : Condition) {jumpIf : Bool} {target : Label} {t : Nat}
    {a b : Assembler} (h : c.Laid pool jumpIf target a b) (hr : Reached a) (hz : Becomes b z)
    (ht : z.labels.offset? target = some t) : c.At pool z.code jumpIf t a.pc b.pc := by
  cases c with
  | test operands test =>
    obtain ⟨m, h₁, h₂⟩ := h
    have hrm := hr.becomes (Fragment.Laid.stretch operands h₁).becomes
    exact ⟨m.pc, Fragment.Laid.at operands h₁ hr ((Becomes.single h₂).trans hz),
      branch_at hrm h₂ hz hclosed ht⟩
  | logic op left right =>
    unfold Condition.Laid at h
    unfold Condition.At
    split at h <;> rename_i hd
    · obtain ⟨m, h₁, h₂⟩ := h
      rw [if_pos hd]
      have hleft := (Condition.Laid.stretch left h₁).becomes
      have hright := (Condition.Laid.stretch right h₂).becomes
      exact ⟨m.pc, Condition.Laid.at left h₁ hr (hright.trans hz) ht,
        Condition.Laid.at right h₂ (hr.becomes hleft) hz ht⟩
    · -- the left side may skip the right one
      obtain ⟨m, m', h₁, h₂, h₃⟩ := h
      rw [if_neg hd]
      have hr₀ := hr.becomes (becomes_withLabel a)
      have hrm := hr₀.becomes (Condition.Laid.stretch left h₁).becomes
      have hright := (Condition.Laid.stretch right h₂).becomes
      have hz' := (Becomes.single h₃).trans hz
      obtain ⟨hskip, hpc⟩ := place_at (hrm.becomes hright) h₃ hz
      have hleft := Condition.Laid.at left h₁ hr₀ (hright.trans hz') hskip
      rw [hpc]
      exact ⟨m.pc, hleft, Condition.Laid.at right h₂ hrm hz' ht⟩
  | not cond => exact Condition.Laid.at cond h hr hz ht

end

theorem JumpsUnless.at {unreachable : Bool} {l : Label} {t : Nat} {a b : Assembler}
    (h : JumpsUnless unreachable l a b) (hr : Reached a) (hz : Becomes b z)
    (ht : z.labels.offset? l = some t) : JumpAt z.code unreachable t a.pc b.pc := by
  unfold JumpsUnless at h
  unfold JumpAt
  cases unreachable with
  | true =>
    obtain rfl : b = a := h
    rfl
  | false => exact branch_at hr h hz hclosed ht

omit hclosed in
theorem JumpsUnless.becomes {unreachable : Bool} {l : Label} {a b : Assembler}
    (h : JumpsUnless unreachable l a b) : Becomes a b := by
  unfold JumpsUnless at h
  split at h
  · obtain rfl : b = a := h
    exact ⟨[], .nil b⟩
  · exact .single h

/-- The places that the labels of the loop around have in the end. -/
def LoopLabels.Placed (z : Assembler) (inner : Option LoopLabels) (offsets : Option LoopOffsets) :
    Prop :=
  match inner, offsets with
  | some labels, some offsets => z.labels.offset? labels.exit = some offsets.exit ∧
      z.labels.offset? labels.test = some offsets.test
  | none, none => True
  | _, _ => False

/-- **A flow that was laid out** stands where the assembler was. -/
theorem Flow.Laid.at (c : Flow) {inner : Option LoopLabels} {offsets : Option LoopOffsets}
    {a b : Assembler} (h : c.Laid pool inner a b) (hr : Reached a) (hz : Becomes b z)
    (hi : LoopLabels.Placed z inner offsets) : c.At pool z.code offsets a.pc b.pc := by
  induction c generalizing inner offsets a b with
  | nil =>
    obtain rfl : b = a := h
    rfl
  | seq first second ih₁ ih₂ =>
    obtain ⟨m, h₁, h₂⟩ := h
    have hfirst := (Flow.Laid.stretch first h₁).becomes
    have hsecond := (Flow.Laid.stretch second h₂).becomes
    exact ⟨m.pc, ih₁ h₁ hr (hsecond.trans hz) hi, ih₂ h₂ (hr.becomes hfirst) hz hi⟩
  | run code => exact Fragment.Laid.at hclosed code h hr hz
  | store value kind slot =>
    obtain ⟨m, i, h₁, hmeans, -, h₂⟩ := h
    have hrm := hr.becomes (Fragment.Laid.stretch value h₁).becomes
    obtain ⟨hdecode, hpc⟩ := emit_at hrm h₂ hz
    exact ⟨m.pc, i, Fragment.Laid.at hclosed value h₁ hr ((Becomes.single h₂).trans hz), hdecode,
      hmeans.action, hpc⟩
  | ret value kind =>
    obtain ⟨m, h₁, h₂⟩ := h
    have hrm := hr.becomes (Fragment.Laid.stretch value h₁).becomes
    obtain ⟨hdecode, hpc⟩ := emit_at hrm h₂ hz
    exact ⟨m.pc, Fragment.Laid.at hclosed value h₁ hr ((Becomes.single h₂).trans hz), hdecode, hpc⟩
  | ifThen cond body ih =>
    obtain ⟨m, m', h₁, h₂, h₃⟩ := h
    have hr₀ := hr.becomes (becomes_withLabel a)
    have hrm := hr₀.becomes (Condition.Laid.stretch cond h₁).becomes
    have hbody := (Flow.Laid.stretch body h₂).becomes
    have hz' := (Becomes.single h₃).trans hz
    obtain ⟨hend, hpc⟩ := place_at (hrm.becomes hbody) h₃ hz
    have hcond := Condition.Laid.at hclosed cond h₁ hr₀ (hbody.trans hz') hend
    rw [hpc]
    exact ⟨m.pc, hcond, ih h₂ hrm hz' hi⟩
  | ifElse cond body orElse ih₁ ih₂ =>
    obtain ⟨b₁, b₂, b₃, b₄, b₅, b₆, h₁, h₂, h₃, h₄, h₅, h₆, h₇⟩ := h
    have hbody := (Flow.Laid.stretch body h₂).becomes
    have helse := (Flow.Laid.stretch orElse h₅).becomes
    -- what is laid later is laid on top: each part is still there at the end
    have hz₆ := (Becomes.single h₇).trans hz
    have hz₅ := (JumpsUnless.becomes h₆).trans hz₆
    have hz₄ := helse.trans hz₅
    have hz₃ := (Becomes.single h₄).trans hz₄
    have hz₂' := (JumpsUnless.becomes h₃).trans hz₃
    have hz₂ := (becomes_withLabel b₂).trans hz₂'
    have hr₀ := hr.becomes (becomes_withLabel a)
    have hr₁ := hr₀.becomes (Condition.Laid.stretch cond h₁).becomes
    have hr₂ := (hr₁.becomes hbody).becomes (becomes_withLabel b₂)
    have hr₃ := hr₂.becomes (JumpsUnless.becomes h₃)
    have hr₄ := hr₃.becomes (.single h₄)
    have hr₅ := hr₄.becomes helse
    obtain ⟨hotherwise, hpc₄⟩ := place_at hr₃ h₄ hz₄
    obtain ⟨hend, hpc⟩ := place_at (hr₅.becomes (JumpsUnless.becomes h₆)) h₇ hz
    have hcond := Condition.Laid.at hclosed cond h₁ hr₀ (hbody.trans hz₂) hotherwise
    have hjump := JumpsUnless.at hclosed h₃ hr₂ hz₃ hend
    have hsecond := ih₂ h₅ hr₄ hz₅ hi
    rw [hpc₄] at hsecond
    rw [hpc]
    exact ⟨b₁.pc, b₂.pc, b₃.pc, b₅.pc, hcond, ih₁ h₂ hr₁ hz₂ hi, hjump, hsecond,
      JumpsUnless.at hclosed h₆ hr₅ hz₆ hend⟩
  | loop cond body ih =>
    obtain ⟨b₁, b₂, b₃, b₄, b₅, h₁, h₂, h₃, h₄, h₅, h₆⟩ := h
    have hbody := (Flow.Laid.stretch body h₃).becomes
    have hcond := (Condition.Laid.stretch cond h₅).becomes
    have hz₅ := (Becomes.single h₆).trans hz
    have hz₄ := hcond.trans hz₅
    have hz₃ := (Becomes.single h₄).trans hz₄
    have hz₂ := hbody.trans hz₃
    have hz₁ := (Becomes.single h₂).trans hz₂
    have hr₀ := ((hr.becomes (becomes_withLabel a)).becomes (becomes_withLabel _)).becomes
      (becomes_withLabel _)
    have hr₁ := hr₀.becomes (.single h₁)
    have hr₂ := hr₁.becomes (.single h₂)
    have hr₃ := hr₂.becomes hbody
    have hr₄ := hr₃.becomes (.single h₄)
    -- the three labels: where the body starts, where the test is, and the end
    obtain ⟨hstart, hpc₂⟩ := place_at hr₁ h₂ hz₂
    obtain ⟨htest, hpc₄⟩ := place_at hr₃ h₄ hz₄
    obtain ⟨hexit, hpc⟩ := place_at (hr₄.becomes hcond) h₆ hz
    have hloop : body.At pool z.code (some ⟨b₅.pc, b₃.pc⟩) b₂.pc b₃.pc :=
      ih h₃ hr₂ hz₃ ⟨hexit, htest⟩
    have htested := Condition.Laid.at hclosed cond h₅ hr₄ hz₅ hstart
    rw [hpc₂] at hloop
    rw [hpc₄] at htested
    have hjump := branch_at hr₀ h₁ hz₁ hclosed htest
    rw [hpc]
    exact ⟨b₁.pc, b₃.pc, hjump, hloop, htested⟩
  | «break» =>
    obtain ⟨labels, rfl, h⟩ := h
    cases offsets with
    | none => exact hi.elim
    | some offsets => exact ⟨offsets, rfl, branch_at hr h hz hclosed hi.1⟩
  | «continue» =>
    obtain ⟨labels, rfl, h⟩ := h
    cases offsets with
    | none => exact hi.elim
    | some offsets => exact ⟨offsets, rfl, branch_at hr h hz hclosed hi.2⟩

end Laid

end ClassFoundry
