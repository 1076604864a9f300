import ClassFoundry.Proofs.Structured.Steady
import ClassFoundry.Proofs.Structured.TypedSelection
import ClassFoundry.Proofs.Verification

/-!
# Stack discipline

Every instruction of a compiled method has one depth of the stack at which it is reached, on whatever
way. It finds the words that it takes, a return finds the returned value and nothing else, and the
method declares exactly the room that it needs.

A unary operation on numbers does not look at the type of its operand. Where a reference, of one
word, is negated as a long, of two, the ways to a label can have different depths, so this is
excluded.

## Main definitions

* `Instruction.successors`: where control can go from an instruction
* `Method.Disciplined`: an assignment of depths to the instructions of a method

## Main results

* `SteadyRuns.disciplined`: the code of a steady run is disciplined by the recorded depths
* `disciplined_of_compile`: every compiled method is disciplined, if nothing but numbers is negated as
  a long
-/

namespace ClassFoundry

/-- Where control can go from an instruction at an offset: to the next one unless it is a jump or a
return, and to the target of a branch. -/
def Instruction.successors (pc : Nat) (i : Instruction) : List Int :=
  (if i.opcode.isTerminal then [] else [((pc + i.length : Nat) : Int)]) ++ (i.target? pc).toList

/-- The offsets at which the instructions of a method start. -/
def Method.offsets (m : Method) : List Nat := (sweep m.code).instructions.toList.map Prod.fst

/-- **A discipline of the stack**: `d` gives the depth at which each instruction of a method is
reached. -/
structure Method.Disciplined (pool : ConstantPool) (m : Method) (d : Nat → Nat) : Prop where
  swept : (sweep m.code).fault = none
  entry : 0 ∈ m.offsets ∧ d 0 = 0
  step : ∀ pc i, (pc, i) ∈ (sweep m.code).instructions.toList → ∃ pops pushes,
    i.words? pool = some (pops, pushes) ∧ pops ≤ d pc ∧
      ∀ t ∈ i.successors pc, ∃ next ∈ m.offsets, t = next ∧ d next = d pc - pops + pushes
  returns : ∀ pc i kind, (pc, i) ∈ (sweep m.code).instructions.toList →
    i.action? = some (.ret kind) → d pc = returnWords kind
  bounded : ∀ pc ∈ m.offsets, d pc ≤ m.maxStack.toNat
  attained : ∃ pc ∈ m.offsets, d pc = m.maxStack.toNat

/-! ## From steady runs to disciplines -/

theorem Event.length_pos_of_isTerminal {e : Event} (h : e.isTerminal = true) : 0 < e.length := by
  cases e with
  | emit i pops pushes => cases i <;> exact Nat.succ_pos _
  | branch op l => exact Nat.succ_pos _
  | fresh => cases h
  | place l => cases h

/-- Instructions start one after the other. -/
theorem starts_sorted (offset : Nat) (es : List Event) :
    (starts offset es).Pairwise (· < ·) ∧ ∀ t ∈ starts offset es, offset ≤ t := by
  induction es generalizing offset with
  | nil => exact ⟨.nil, nofun⟩
  | cons e es ih =>
    have hcons (hpos : 0 < e.length) :
        (offset :: starts (offset + e.length) es).Pairwise (· < ·) ∧
          ∀ t ∈ offset :: starts (offset + e.length) es, offset ≤ t := by
      obtain ⟨hsorted, hle⟩ := ih (offset + e.length)
      refine ⟨List.pairwise_cons.2 ⟨fun t ht => ?_, hsorted⟩,
        List.forall_mem_cons.2 ⟨Nat.le_refl _, fun t ht => ?_⟩⟩ <;>
        have := hle t ht <;> omega
    cases e with
    | emit i pops pushes => exact hcons (by cases i <;> exact Nat.succ_pos _)
    | branch op l => exact hcons (Nat.succ_pos _)
    | fresh => exact ih offset
    | place l => exact ih offset

/-- The depth that was recorded for an offset. -/
def Assembler.recordedDepth (a : Assembler) (offset : Nat) : Nat :=
  ((a.trace.toList.find? (·.offset = offset)).map TraceEntry.depth).getD 0

/-- There is one record for each offset. -/
theorem Assembler.recordedDepth_eq {es : List Event} {a : Assembler} (hr : Rendered es a)
    {x : TraceEntry} (hx : x ∈ a.trace.toList) : a.recordedDepth x.offset = x.depth := by
  have hsorted : (a.trace.toList.map (·.offset)).Pairwise (· < ·) := by
    rw [hr.starts]
    exact (starts_sorted 0 es).1
  rw [List.pairwise_map] at hsorted
  -- of two records with one offset neither comes before the other
  have hunique : ∀ y ∈ a.trace.toList, y.offset = x.offset → y = x := by
    intro y hy heq
    by_contra hne
    rcases List.pairwise_iff_getElem.1 hsorted with hsorted
    obtain ⟨i, hi, rfl⟩ := List.getElem_of_mem hx
    obtain ⟨j, hj, rfl⟩ := List.getElem_of_mem hy
    rcases Nat.lt_trichotomy i j with hij | rfl | hij
    · exact absurd (hsorted i j hi hj hij) (by omega)
    · exact hne rfl
    · exact absurd (hsorted j i hj hi hij) (by omega)
  obtain ⟨y, hy⟩ : ∃ y, a.trace.toList.find? (·.offset = x.offset) = some y := by
    rw [← Option.isSome_iff_exists, List.find?_isSome]
    exact ⟨x, hx, by simp⟩
  rw [recordedDepth, hy, hunique y (List.mem_of_find?_eq_some hy) (by simpa using List.find?_some hy)]
  rfl

/-- What control passes is not the last of closed events. -/
theorem Closes.lt_size {es : List Event} (h : Closes es) {o : Nat} {e : Event}
    (he : (o, e) ∈ located 0 es) (ht : e.isTerminal = false) (hpos : 0 < e.length) :
    o + e.length < bytesOf es := by
  obtain ⟨front, last, rest, rfl, hlast, hrest⟩ := h
  have hlast' := Event.length_pos_of_isTerminal hlast
  rw [located_append] at he
  rw [bytesOf_append, bytesOf, hrest]
  rcases List.mem_append.1 he with he | he
  · have := (mem_of_mem_located he).2
    omega
  · rcases List.mem_cons.1 he with heq | he
    · cases heq
      rw [hlast] at ht
      cases ht
    · have := (mem_of_mem_located he).2
      omega

theorem Closes.bytesOf_pos {es : List Event} (h : Closes es) : 0 < bytesOf es := by
  obtain ⟨front, last, rest, rfl, hlast, -⟩ := h
  have := Event.length_pos_of_isTerminal hlast
  rw [bytesOf_append, bytesOf]
  omega

theorem Instruction.eq_of_action?_ret {i : Instruction} {kind : Option Kind}
    (h : i.action? = some (.ret kind)) : i = .plain (returnOpcode kind) := by
  cases i with
  | plain op =>
    simp only [Instruction.action?, Opcode.plainAction?] at h
    split at h
    · cases h
      rfl
    · cases h
      rfl
    · cases h
      rfl
    · cases h
      rfl
    · simp at h
  | byte op operand => simp [Instruction.action?] at h
  | short op operand =>
    simp only [Instruction.action?, Opcode.shortAction?] at h
    split at h <;> simp at h
  | wide op slot => simp [Instruction.action?] at h

section Recorded

variable {pool : ConstantPool} {es : List Event} {a : Assembler}

/-- Inside the code, the depth at an offset is the one that was recorded. -/
theorem DepthAt.recorded (hr : Rendered es a) {o n : Nat} (h : DepthAt a o n)
    (ho : o < bytesOf es) : o ∈ starts 0 es ∧ a.recordedDepth o = n := by
  rcases h with ⟨x, hx, rfl, rfl⟩ | ⟨rfl, -⟩
  · refine ⟨?_, Assembler.recordedDepth_eq hr hx⟩
    rw [← hr.starts]
    exact List.mem_map_of_mem hx
  · rw [hr.size] at ho
    exact absurd ho (Nat.lt_irrefl _)

/-- What an appended instruction finds, and what the next one does. -/
theorem Tracked.after_emit (h : Tracked pool es a) (hr : Rendered es a) (hcloses : Closes es)
    {pc pops pushes : Nat} {i : Instruction}
    (hi : (pc, Event.emit i pops pushes) ∈ located 0 es) :
    pops ≤ a.recordedDepth pc ∧ (i.opcode.isTerminal = true → a.recordedDepth pc = pops) ∧
      (i.opcode.isTerminal = false → pc + i.length ∈ starts 0 es ∧
        a.recordedDepth (pc + i.length) = a.recordedDepth pc - pops + pushes) := by
  have hlength : 0 < i.length := by cases i <;> exact Nat.succ_pos _
  have hinside : pc + i.length ≤ 0 + bytesOf es := (mem_of_mem_located hi).2.2
  obtain ⟨-, n, hd, hle, hret, hnext⟩ := h.emits pc i pops pushes hi
  obtain ⟨-, rfl⟩ := hd.recorded hr (by omega)
  -- the last instruction is a return or a jump, so one that control passes is not the last
  exact ⟨hle, hret, fun ht => (hnext ht).recorded hr (hcloses.lt_size hi ht hlength)⟩

/-- What a branch finds, and what is found after it and at its target. -/
theorem Tracked.after_branch (h : Tracked pool es a) (hr : Rendered es a) (hcloses : Closes es)
    (hsealed : a.Sealed) {pc : Nat} {op : Opcode} {l : Label}
    (hi : (pc, Event.branch op l) ∈ located 0 es) :
    op.branchPops ≤ a.recordedDepth pc ∧
      (op.isTerminal = false → pc + 3 ∈ starts 0 es ∧
        a.recordedDepth (pc + 3) = a.recordedDepth pc - op.branchPops) ∧
      ∀ t, a.labels.offset? l = some t → t ∈ starts 0 es ∧
        a.recordedDepth t = a.recordedDepth pc - op.branchPops := by
  have hinside : pc + 3 ≤ 0 + bytesOf es := (mem_of_mem_located hi).2.2
  obtain ⟨n, hd, hle, hl, hnext⟩ := h.branches pc op l hi
  obtain ⟨-, rfl⟩ := hd.recorded hr (by omega)
  refine ⟨hle, fun ht => (hnext ht).recorded hr (hcloses.lt_size hi ht (Nat.succ_pos _)),
    fun t ht => ?_⟩
  obtain ⟨n', hl', hd'⟩ := h.labels l t ht
  rw [hl] at hl'
  cases hl'
  have hlt := hsealed _ (hr.branches ▸ mem_branchesFrom_of_located hi) _ ht
  exact hd'.recorded hr (hr.size ▸ hlt)

end Recorded

/-- **The code of a steady run that is closed** is disciplined by the recorded depths. -/
theorem SteadyRuns.disciplined {pool : ConstantPool} {es : List Event} {n : Nat} {a : Assembler}
    (h : SteadyRuns pool es (.start n) a) (hcloses : Closes es) (hclosed : a.Closed)
    (hsealed : a.Sealed) (hdepth : a.depth = 0) {m : Method} (hcode : m.code = a.code)
    (hmax : m.maxStack.toNat = a.maxDepth) : m.Disciplined pool a.recordedDepth := by
  have hr := h.runs.rendered
  have ht := h.tracked
  have hsweep := sweep_eq h.runs
  have hoffsets : m.offsets = starts 0 es := by
    rw [Method.offsets, hcode, hsweep]
    exact map_fst_instructionsFrom _ _ _
  have hevents {pc : Nat} {i : Instruction} (hi : (pc, i) ∈ (sweep m.code).instructions.toList) :
      (∃ pops pushes, (pc, Event.emit i pops pushes) ∈ located 0 es) ∨
        ∃ op l, (pc, Event.branch op l) ∈ located 0 es ∧
          i = .short op (operandOf a.labels.offset? pc l) := by
    rw [hcode, hsweep] at hi
    exact mem_instructionsFrom (by simpa using hi)
  obtain ⟨hfirst, hzero⟩ := ht.entry.recorded hr hcloses.bytesOf_pos
  rw [← hoffsets] at hfirst
  refine
    { swept := by rw [hcode, hsweep]
      entry := ⟨hfirst, hzero⟩
      step := ?_
      returns := ?_
      bounded := ?_
      attained := ?_ }
  · intro pc i hi
    rcases hevents hi with ⟨pops, pushes, hmem⟩ | ⟨op, l, hmem, rfl⟩
    · obtain ⟨hle, -, hnext⟩ := ht.after_emit hr hcloses hmem
      refine ⟨pops, pushes, (ht.emits pc i pops pushes hmem).words, hle, fun t hmem' => ?_⟩
      -- an instruction that was appended is no branch
      have hbranchless := (h.runs.valid _ (mem_of_mem_located hmem).1).2
      have htarget : i.target? pc = none := by
        cases i <;> simp_all [Instruction.target?, Instruction.opcode]
      rw [Instruction.successors, htarget] at hmem'
      cases hterm : i.opcode.isTerminal with
      | true => simp [hterm] at hmem'
      | false =>
        obtain ⟨hin, hd⟩ := hnext hterm
        exact ⟨pc + i.length, hoffsets ▸ hin, by simpa [hterm] using hmem', hd⟩
    · obtain ⟨hle, hnext, htarget⟩ := ht.after_branch hr hcloses hsealed hmem
      have hop : op.isBranch = true := h.runs.valid _ (mem_of_mem_located hmem).1
      refine ⟨op.branchPops, 0, words?_branch hop _, hle, fun t hmem' => ?_⟩
      have hbranch := mem_branchesFrom_of_located hmem
      obtain ⟨target, hl⟩ := hr.placed hclosed hbranch
      obtain ⟨w, hw⟩ := hr.fits _ hbranch target hl
      have hoperand : operandOf a.labels.offset? pc l = w := by simp [operandOf, hl, hw]
      rw [Instruction.successors, hoperand] at hmem'
      rcases List.mem_append.1 hmem' with hmem' | hmem'
      · cases hterm : op.isTerminal with
        | true => simp [Instruction.opcode, hterm] at hmem'
        | false =>
          obtain ⟨hin, hd⟩ := hnext hterm
          have heq : t = ((pc + (Instruction.short op w).length : Nat) : Int) := by
            simpa only [Instruction.opcode, hterm, Bool.false_eq_true, if_false,
              List.mem_singleton] using hmem'
          exact ⟨pc + 3, hoffsets ▸ hin, heq, hd⟩
      · obtain ⟨hin, hd⟩ := htarget target hl
        refine ⟨target, hoffsets ▸ hin, ?_, hd⟩
        simpa [Instruction.target?, hop, branchTarget_relative hw, eq_comm] using hmem'
  · intro pc i kind hi haction
    obtain rfl := Instruction.eq_of_action?_ret haction
    rcases hevents hi with ⟨pops, pushes, hmem⟩ | ⟨op, l, -, heq⟩
    · obtain ⟨hwords, hterm⟩ := words?_return pool kind
      rw [(ht.emits pc _ pops pushes hmem).words] at hwords
      cases hwords
      exact (ht.after_emit hr hcloses hmem).2.1 hterm
    · cases heq
  · intro pc hpc
    rw [hoffsets, ← hr.starts] at hpc
    obtain ⟨x, hx, rfl⟩ := List.mem_map.1 hpc
    rw [Assembler.recordedDepth_eq hr hx, hmax]
    exact ht.bounded x hx
  · obtain ⟨o, ⟨x, hx, rfl, hd⟩ | ⟨-, -, hd⟩⟩ := ht.attained
    · refine ⟨x.offset, ?_, by rw [Assembler.recordedDepth_eq hr hx, hd, hmax]⟩
      rw [hoffsets, ← hr.starts]
      exact List.mem_map_of_mem hx
    · -- at the end the stack is empty, so it was never anything else
      exact ⟨0, hfirst, by rw [hzero, hmax, ← hd, hdepth]⟩

/-! ## Compiled methods -/

/-- The constructor calls the one of the superclass on the receiver. -/
theorem constructorFlow_typed {T : Typing} {Γ : Env} (superClass : String) (h : Γ 0 .reference) :
    (constructorFlow superClass).Typed T none Γ Γ := by
  have hrun : (Fragment.seq (.ofOp (.load .reference 0)) (.op (.invoke .special
      ⟨superClass, constructorName, constructorDescriptor⟩ [] none))).Typed T Γ [] [] :=
    .seq (push_typed rfl h) (Operation.typed_exact (.invoke .special
      ⟨superClass, constructorName, constructorDescriptor⟩ [] none) (T.constructs superClass) [])
  exact ⟨rfl, Γ, ⟨hrun, fun _ _ h => h⟩, rfl, ⟨[], rfl, .nil⟩, fun _ _ h => h⟩

/-- **The code of a typed flow** that control cannot leave is disciplined. -/
theorem MethodBody.disciplined {T : Typing} (hT : T.Counts) {pool : ConstantPool} {flow : Flow}
    {initial locals : Nat} {m : Method} {a : Assembler} {result : Option Kind} {Γ Γ' : Env}
    (h : MethodBody pool flow initial locals m a) (hends : flow.ends = true)
    (hflow : flow.Typed T result Γ Γ') : ∃ d, m.Disciplined pool d := by
  have hstart : Between none (.start initial) := ⟨rfl, by simp [LoopLabels.list],
    by simp [LoopLabels.list]⟩
  obtain ⟨es, hes, hb, -, hcloses⟩ := Flow.Laid.steady hT flow hflow h.laid rfl hstart
  obtain ⟨hsealed, -⟩ := Flow.Laid.sealed flow hends ⟨[], initial, .nil _⟩
    (by simp [LoopLabels.list]) h.laid
  exact ⟨_, hes.disciplined (hcloses hends) h.closed hsealed hb.depth h.code h.maxStack⟩

/-- The typing that asks for nothing but the numbers of words. -/
def wordTyping : Typing where
  fits k k' := k.words = k'.words
  calls _ callee args result :=
    Descriptor.argumentWords? callee.descriptor = some (Kind.wordsOf args) ∧
      Descriptor.returnWords? callee.descriptor = some (returnWords result)
  fields member := Descriptor.parameterWords member.descriptor = 1
  slots _ _ := True
  fits_refl _ := rfl
  unsignedInts name := by
    simp only [unsignedInt]
    decide
  compareLongs := by
    simp only [unsignedLong]
    decide
  unsignedLongs op name _ := by
    simp only [unsignedLong]
    decide
  constructs cls := by
    dsimp only
    decide

theorem wordTyping_counts : wordTyping.Counts :=
  ⟨fun _ _ h => h, fun _ _ _ _ h => h, fun _ h => h⟩

/-- The words in the descriptor of a method are those of its parameters and of its result. -/
theorem wordTyping_calls_ofMethod (mode : CallMode) (owner name : String) {tys : List DataType}
    {result : DataType} (htys : ∀ ty ∈ tys, ty.Clean ∧ ty.kind?.isSome) (hresult : result.Clean) :
    wordTyping.calls mode ⟨owner, name, Descriptor.ofMethod tys result⟩
      (tys.filterMap DataType.kind?) result.kind? := by
  refine ⟨?_, ?_⟩
  · rw [Descriptor.argumentWords?_ofMethod result htys, foldl_width_eq, Nat.zero_add]
  · rw [Descriptor.returnWords?_ofMethod hresult, DataType.width_eq]
    rfl

theorem builtins_admitted : ∀ callee ∈ builtins, callee.Admitted wordTyping := by
  have hwords : ∀ callee ∈ builtins,
      Descriptor.argumentWords? callee.descriptor = some (Kind.wordsOf callee.argKinds) ∧
        Descriptor.returnWords? callee.descriptor = some (returnWords callee.returnType.kind?) := by
    decide
  have hfield : Descriptor.parameterWords standardOutput.descriptor = 1 := by decide
  intro callee hc
  refine ⟨hwords callee hc, fun member hm => ?_, first_builtins callee hc⟩
  rcases receiver_builtins callee hc with hr | hr
  · rw [hr] at hm
    cases hm
  · rw [hr] at hm
    cases hm
    exact hfield

/-- The method of a function can be called. -/
theorem Callable.Registers.admitted {owner : String} {f : FunDef} {callee : Callable}
    (h : Registers owner f callee) (hkinds : ∀ q ∈ f.params, q.ty.kind?.isSome)
    (hparams : ∀ q ∈ f.params, q.ty.Clean) (hresult : f.returnType.Clean) :
    callee.Admitted wordTyping := by
  obtain ⟨i, rfl⟩ := h
  refine ⟨?_, fun member hm => ?_, fun hr => ?_⟩
  · unfold Callable.mode Callable.argKinds Callable.passed Callable.member Callable.ofFunction
    cases hentry : f.isEntryPoint with
    | true =>
      simp only [FunDef.isEntryPoint, Bool.and_eq_true, List.isEmpty_iff, beq_iff_eq] at hentry
      have hwords : Descriptor.argumentWords? Descriptor.entryPoint = some 1 ∧
          Descriptor.returnWords? Descriptor.entryPoint = some 0 := by decide
      obtain ⟨⟨⟨-, hstatic⟩, hnone⟩, hvoid⟩ := hentry
      simp only [hstatic, hnone, hvoid]
      exact hwords
    | false =>
      have htys : ∀ ty ∈ f.params.map (·.ty), ty.Clean ∧ ty.kind?.isSome := by
        simpa using fun q hq => ⟨hparams q hq, hkinds q hq⟩
      have hcall (mode : CallMode) := wordTyping_calls_ofMethod mode owner f.name htys hresult
      cases f.isStatic <;> simpa using hcall _
  · have hm : (if f.isStatic then Receiver.none else .this) = .staticField member := hm
    split at hm <;> cases hm
  · have hr : (if f.isStatic then Receiver.none else .this) = .firstArg := hr
    split at hr <;> cases hr

/-- Whether a unary operation on longs applies to a number. -/
def Expr.LongOfNumber : Expr → Prop
  | .unary _ operand ty => ty.isLong = true → operand.ty.kind? ≠ some .reference
  | _ => True

section Compiled

variable {options : Options} {p : Program} {c : ClassFile} {table : CallTable}

theorem Compiled.callee_admitted (h : Compiled options [] p c table) (hclean : p.Clean)
    {callee : Callable} (hc : callee ∈ table.entries) : callee.Admitted wordTyping := by
  rcases h.callee_cases hc with hc | ⟨f, hf, hc⟩
  · exact builtins_admitted callee hc
  · exact hc.admitted (h.kind?_of_mem_params hf) (hclean.params f hf) (hclean.results f hf)

/-- The expressions of a function are admitted. -/
theorem Compiled.expr_admitted (h : Compiled options [] p c table)
    (hbool : ∀ e ∈ p.nodes, e.BoolCondition) (hclean : p.Clean)
    (hlong : ∀ e ∈ p.nodes, e.LongOfNumber) {f : FunDef} (hf : f ∈ p.functions)
    (final : Locals) : ∀ e ∈ Stmt.nodesOf f.body, e.Admitted wordTyping (final.names table f) := by
  intro e he
  have hmem := Program.mem_nodes hf he
  cases e with
  | compare op lhs rhs ty => exact hbool _ hmem
  | logic op lhs rhs ty => exact hbool _ hmem
  | not operand ty => exact hbool _ hmem
  | unary op operand ty =>
    intro hr
    show Kind.reference.words = ty.numberKind.words
    rw [DataType.numberKind, if_neg fun hl => hlong _ hmem hl hr]
    rfl
  | call object name args ty =>
    cases object with
    | none =>
      intro callee hcallee
      obtain ⟨i, hresolve⟩ := Names.resolve_of_callee? _ hcallee
      exact h.callee_admitted hclean (CallTable.mem_of_resolve hresolve)
    | some object =>
      intro slot cls _ _ hkinds
      have htypes : args.filterMap (·.ty.kind?) = (args.map Expr.ty).filterMap DataType.kind? := by
        rw [List.filterMap_map]
        rfl
      rw [htypes]
      refine wordTyping_calls_ofMethod .virtual cls name (fun ty hty => ?_) (hclean.nodes _ hmem)
      obtain ⟨a, ha, rfl⟩ := List.mem_map.1 hty
      exact ⟨hclean.nodes a (Program.mem_nodes_of_call hmem ha), hkinds a ha⟩
  | ident name ty => trivial
  | int value ty => trivial
  | char value => trivial
  | str value => trivial
  | arith op lhs rhs ty => trivial

theorem CompiledFunction.disciplined {f : FunDef} {m : Method}
    (hm : CompiledFunction c.pool table f m)
    (hadmitted : ∀ final : Locals, ∀ e ∈ Stmt.nodesOf f.body,
      e.Admitted wordTyping (final.names table f)) : ∃ d, m.Disciplined c.pool d := by
  obtain ⟨start, final, a, -, -, -, hchecked, hbody⟩ := hm.body
  -- every name counts as known: for the depths it does not matter whether variables have values
  have hscoped : Stmt.AllScoped (fun _ => True) f.body :=
    Stmt.allScoped_of_forall (fun _ => trivial) f.body
  obtain ⟨Γ, hflow⟩ := selectBody_typed (fun _ _ _ _ _ => trivial) hchecked (hadmitted final) hscoped
  exact hbody.disciplined wordTyping_counts (ends_selectBody _) hflow

theorem CompiledConstructor.disciplined {superClass : String} {m : Method}
    (hm : CompiledConstructor c.pool superClass m) : ∃ d, m.Disciplined c.pool d := by
  obtain ⟨a, hbody⟩ := hm.body
  have hflow := constructorFlow_typed (T := wordTyping) (Γ := fun _ _ => True) superClass trivial
  exact hbody.disciplined wordTyping_counts rfl hflow

end Compiled

/-- **Every method of a class that the compiler gives is disciplined**, if conditions are annotated
as such, class names have no delimiters in them, and a unary operation on longs applies to a
number. -/
theorem disciplined_of_compile {options : Options} {p : Program} {c : ClassFile}
    (hbool : ∀ e ∈ p.nodes, e.BoolCondition) (hclean : p.Clean)
    (hlong : ∀ e ∈ p.nodes, e.LongOfNumber)
    (h : (compileProgram options [] p).result = .ok c) :
    ∀ m ∈ c.methods, ∃ d, m.Disciplined c.pool d := by
  intro m hm
  obtain ⟨table, hcompiled⟩ := compiled_of_ok (by simp) h
  rcases hcompiled.method_cases hm with hm | ⟨f, hf, hm⟩
  · exact hm.disciplined
  · exact hm.disciplined (hcompiled.expr_admitted hbool hclean hlong hf)

theorem nodes_latch :
    latch.nodes = [.ident "a" .bool, .ident "b" .bool, .ident "a" .bool] := rfl

theorem clean_latch : latch.Clean where
  params := by simp [latch, latchFunction, DataType.Clean]
  results := by simp [latch, latchFunction, DataType.Clean]
  nodes := by simp [nodes_latch, Expr.ty, DataType.Clean]

/-- The methods of a program with a loop are disciplined. -/
theorem disciplined_of_compile_latch :
    ∃ c, (compileProgram {} [] latch).result = .ok c ∧
      ∀ m ∈ c.methods, ∃ d, m.Disciplined c.pool d := by
  obtain ⟨c, hc⟩ := compileProgram_latch
  exact ⟨c, hc, disciplined_of_compile (by simp [nodes_latch, Expr.BoolCondition]) clean_latch
    (by simp [nodes_latch, Expr.LongOfNumber]) hc⟩

end ClassFoundry
