import ClassFoundry.Proofs.Boundaries
import ClassFoundry.Proofs.Discipline

/-!
# Control never falls off a method

Whether control can reach the end of a body is decided on its statements, while the code that comes
of them has skipped what is dead and has labels behind its last instruction. The two agree: the code
of every method ends with a return, so wherever control goes on to the next instruction there is one.
And a method returns in one way only, that of its return type.

## Main definitions

* `Flow.Returns`: structured code all of whose returns are of one kind
* `Event.ReturnsOnly`, `RunsOf`: the same of what the assembler is told
* `ClosesBy`: events that end with an event, but for labels
* `Method.Returns`: **code that control never falls off**

## Main results

* `selectBody_returns`: the structured code of a function returns as its type says
* `Flow.Laid.runsOf`, `Flow.Laid.closesBy`: what a flow is laid out as
* `MethodBody.returns`: methods whose code is such a flow
* `returns_of_compile`: **all methods of all classes** that come out of the compiler
-/

namespace ClassFoundry

/-! ## Structured code -/

/-- All returns of a flow are of a kind. -/
def Flow.Returns (kind : Option Kind) : Flow → Prop
  | .seq first second => first.Returns kind ∧ second.Returns kind
  | .ret _ kind' => kind' = kind
  | .ifThen _ body => body.Returns kind
  | .ifElse _ body orElse => body.Returns kind ∧ orElse.Returns kind
  | .loop _ body => body.Returns kind
  | .nil | .run _ | .store _ _ _ | .break | .continue => True

section Selection

variable {σ : Names}

mutual

theorem selectStmt_returns (s : Stmt) (h : s.Checked σ) :
    (selectStmt σ s).Returns σ.scope.function.returnType.kind? := by
  cases s with
  | declare name ty init =>
    unfold selectStmt
    split <;> trivial
  | assign name value =>
    unfold selectStmt
    split
    · split <;> trivial
    · trivial
  | ret value =>
    cases value with
    | some e => rfl
    | none => exact h.symm
  | ifThen cond body => exact selectBlock_returns body h.2.2
  | ifElse cond body orElse =>
    exact ⟨selectBlock_returns body h.2.2.1, selectBlock_returns orElse h.2.2.2⟩
  | loop cond body => exact selectBlock_returns body h.2.2
  | «break» => trivial
  | «continue» => trivial
  | call object name args ty => trivial

theorem selectBlock_returns (block : List Stmt) (h : Stmt.AllChecked σ block) :
    (selectBlock σ block).Returns σ.scope.function.returnType.kind? := by
  cases block with
  | nil => trivial
  | cons s rest =>
    obtain ⟨hs, hrest⟩ := h
    unfold selectBlock
    split
    · exact selectStmt_returns s hs
    · rename_i hpasses
      exact ⟨selectStmt_returns s hs, selectBlock_returns rest (hrest (eq_false_of_ne_true hpasses))⟩

end

/-- **The structured code of a function** returns as its type says. -/
theorem selectBody_returns (h : σ.BodyChecked) :
    (selectBody σ).Returns σ.scope.function.returnType.kind? := by
  obtain ⟨hblock, hvoid⟩ := h
  unfold selectBody
  split
  · exact selectBlock_returns _ hblock
  · rename_i hpasses
    refine ⟨selectBlock_returns _ hblock, ?_⟩
    rw [hvoid (eq_false_of_ne_true hpasses)]
    rfl

end Selection

/-! ## Events -/

/-- An event does not end the method in another way. -/
def Event.ReturnsOnly (kind : Option Kind) : Event → Prop
  | .emit i _ _ => i.opcode.isTerminal = true → i = .plain (returnOpcode kind)
  | .branch _ _ | .fresh | .place _ => True

/-- A run that ends the method in one way only. -/
def RunsOf (kind : Option Kind) (a b : Assembler) : Prop :=
  ∃ es, Runs es a b ∧ ∀ e ∈ es, e.ReturnsOnly kind

namespace RunsOf

variable {kind : Option Kind} {pool : ConstantPool} {a b c : Assembler}

theorem refl (kind : Option Kind) (a : Assembler) : RunsOf kind a a := ⟨[], .nil a, nofun⟩

theorem trans (h : RunsOf kind a b) (h' : RunsOf kind b c) : RunsOf kind a c := by
  obtain ⟨es, hes, hall⟩ := h
  obtain ⟨fs, hfs, hall'⟩ := h'
  refine ⟨es ++ fs, hes.append hfs, ?_⟩
  intro e he
  rcases List.mem_append.1 he with he | he
  · exact hall e he
  · exact hall' e he

theorem event {e : Event} (h : RunsOf kind a b) (he : e.Happens b c) (hreturns : e.ReturnsOnly kind) :
    RunsOf kind a c :=
  h.trans ⟨[e], .single he, by simpa using hreturns⟩

theorem branch {op : Opcode} {l : Label} (h : RunsOf kind a b)
    (he : (Event.branch op l).Happens b c) : RunsOf kind a c :=
  h.event he trivial

theorem place {l : Label} (h : RunsOf kind a b) (he : (Event.place l).Happens b c) :
    RunsOf kind a c :=
  h.event he trivial

theorem fresh (h : RunsOf kind a b) : RunsOf kind a b.withLabel := h.event (.fresh b) trivial

theorem op {o : Operation} (h : RunsOf kind a b) (ho : o.Laid pool b c) : RunsOf kind a c := by
  obtain ⟨i, -, -, hpasses, he⟩ := ho
  exact h.event he fun hends => absurd hends (by simp [hpasses])

theorem jumpUnless {unreachable : Bool} {l : Label} (h : RunsOf kind a b)
    (hj : JumpsUnless unreachable l b c) : RunsOf kind a c := by
  unfold JumpsUnless at hj
  split at hj
  · exact hj ▸ h
  · exact h.branch hj

end RunsOf

section Laid

variable {pool : ConstantPool} (kind : Option Kind)

mutual

theorem Fragment.Laid.runsOf (code : Fragment) {a a' : Assembler} (h : code.Laid pool a a') :
    RunsOf kind a a' := by
  cases code with
  | nil =>
    cases h
    exact .refl kind _
  | op o => exact (RunsOf.refl kind a).op h
  | seq first second =>
    obtain ⟨b, h₁, h₂⟩ := h
    exact (Fragment.Laid.runsOf first h₁).trans (Fragment.Laid.runsOf second h₂)
  | truth cond =>
    obtain ⟨b₁, b₂, b₃, b₄, b₅, h₁, h₂, h₃, h₄, h₅, h₆⟩ := h
    have hcond := (RunsOf.refl kind a).fresh.fresh.trans (Condition.Laid.runsOf cond h₁)
    exact ((((hcond.op h₂).branch h₃).place h₄).op h₅).place h₆

theorem Condition.Laid.runsOf (cond : Condition) {jumpIf : Bool} {target : Label}
    {a a' : Assembler} (h : cond.Laid pool jumpIf target a a') : RunsOf kind a a' := by
  cases cond with
  | test operands t =>
    obtain ⟨b, h₁, h₂⟩ := h
    exact (Fragment.Laid.runsOf operands h₁).branch h₂
  | logic op left right =>
    unfold Condition.Laid at h
    split at h
    · obtain ⟨b, h₁, h₂⟩ := h
      exact (Condition.Laid.runsOf left h₁).trans (Condition.Laid.runsOf right h₂)
    · obtain ⟨b, c, h₁, h₂, h₃⟩ := h
      have hleft := (RunsOf.refl kind a).fresh.trans (Condition.Laid.runsOf left h₁)
      exact (hleft.trans (Condition.Laid.runsOf right h₂)).place h₃
  | not cond => exact Condition.Laid.runsOf cond h

end

variable {kind}

/-- **A flow is laid out without other returns** than its own. -/
theorem Flow.Laid.runsOf (flow : Flow) (hreturns : flow.Returns kind) {inner : Option LoopLabels}
    {a a' : Assembler} (h : flow.Laid pool inner a a') : RunsOf kind a a' := by
  induction flow generalizing inner a a' with
  | nil =>
    cases h
    exact .refl kind _
  | seq first second ih₁ ih₂ =>
    obtain ⟨b, h₁, h₂⟩ := h
    exact (ih₁ hreturns.1 h₁).trans (ih₂ hreturns.2 h₂)
  | run code => exact Fragment.Laid.runsOf kind code h
  | store value valueKind slot =>
    obtain ⟨b, i, h₁, hmeans, -, h₂⟩ := h
    exact (Fragment.Laid.runsOf kind value h₁).event h₂ fun hends =>
      absurd hends (by simp [hmeans.straight])
  | ret value kind' =>
    obtain rfl : kind' = kind := hreturns
    obtain ⟨b, h₁, h₂⟩ := h
    exact (Fragment.Laid.runsOf kind' value h₁).event h₂ fun _ => rfl
  | ifThen cond body ih =>
    obtain ⟨b, c, h₁, h₂, h₃⟩ := h
    have hcond := (RunsOf.refl kind a).fresh.trans (Condition.Laid.runsOf kind cond h₁)
    exact (hcond.trans (ih hreturns h₂)).place h₃
  | ifElse cond body orElse ih₁ ih₂ =>
    obtain ⟨b, c, d, e, f, g, h₁, h₂, h₃, h₄, h₅, h₆, h₇⟩ := h
    have hcond := (RunsOf.refl kind a).fresh.trans (Condition.Laid.runsOf kind cond h₁)
    have hbody := ((hcond.trans (ih₁ hreturns.1 h₂)).fresh.jumpUnless h₃).place h₄
    exact ((hbody.trans (ih₂ hreturns.2 h₅)).jumpUnless h₆).place h₇
  | loop cond body ih =>
    obtain ⟨b, c, d, e, f, h₁, h₂, h₃, h₄, h₅, h₆⟩ := h
    have hstart := ((RunsOf.refl kind a).fresh.fresh.fresh.branch h₁).place h₂
    have hbody := (hstart.trans (ih hreturns h₃)).place h₄
    exact (hbody.trans (Condition.Laid.runsOf kind cond h₅)).place h₆
  | «break» =>
    obtain ⟨labels, -, h⟩ := h
    exact (RunsOf.refl kind a).branch h
  | «continue» =>
    obtain ⟨labels, -, h⟩ := h
    exact (RunsOf.refl kind a).branch h

/-- The return of a kind is the last of the events with bytes. -/
def ClosesBy (kind : Option Kind) (es : List Event) : Prop :=
  ∃ front words rest, es = front ++ .emit (.plain (returnOpcode kind)) words 0 :: rest ∧
    bytesOf rest = 0

theorem ClosesBy.closes {es : List Event} (h : ClosesBy kind es) : Closes es := by
  obtain ⟨front, words, rest, rfl, hrest⟩ := h
  exact ⟨front, _, rest, rfl, (words?_return {} kind).2, hrest⟩

/-- **A flow that control cannot leave ends with a return**, unless it is inside of a loop, where it
may end with a jump to a label of the loop. -/
theorem Flow.Laid.closesBy (flow : Flow) (hreturns : flow.Returns kind) (hends : flow.ends = true)
    {a a' : Assembler} (h : flow.Laid pool none a a') : ∃ es, Runs es a a' ∧ ClosesBy kind es := by
  induction flow generalizing a a' with
  | seq first second _ ih =>
    obtain ⟨b, h₁, h₂⟩ := h
    obtain ⟨es, hes, -⟩ := (Flow.Laid.stretch first h₁).runs
    obtain ⟨fs, hfs, front, words, rest, rfl, hrest⟩ := ih hreturns.2 hends h₂
    exact ⟨_, hes.append hfs, es ++ front, words, rest, by simp, hrest⟩
  | ret value kind' =>
    obtain rfl : kind' = kind := hreturns
    obtain ⟨b, h₁, h₂⟩ := h
    obtain ⟨es, hes, -⟩ := (Fragment.Laid.stretch value h₁).runs
    exact ⟨_, hes.append (.single h₂), es, _, [], rfl, rfl⟩
  | ifElse cond body orElse _ ih =>
    obtain ⟨b, c, d, e, f, g, h₁, h₂, h₃, h₄, h₅, h₆, h₇⟩ := h
    simp only [Flow.ends, Bool.and_eq_true] at hends
    -- no arm jumps over the other, so nothing but the label comes after the second one
    unfold JumpsUnless at h₃ h₆
    rw [if_pos hends.1] at h₃
    rw [if_pos hends.2] at h₆
    subst h₃ h₆
    obtain ⟨es, hes, -⟩ := (((Stretch.refl pool [] a).fresh.trans (Condition.Laid.stretch cond h₁)
      (by simp)).append (Flow.Laid.stretch body h₂)).fresh.runs
    obtain ⟨fs, hfs, front, words, rest, rfl, hrest⟩ := ih hreturns.2 hends.2 h₅
    refine ⟨_, ((hes.append (.single h₄)).append hfs).append (.single h₇),
      es ++ [.place a.nextLabel] ++ front, words, rest ++ [.place c.nextLabel], by simp, ?_⟩
    rw [bytesOf_append, hrest]
    rfl
  | «break» =>
    obtain ⟨labels, hinner, -⟩ := h
    cases hinner
  | «continue» =>
    obtain ⟨labels, hinner, -⟩ := h
    cases hinner
  | nil => cases hends
  | run code => cases hends
  | store value valueKind slot => cases hends
  | ifThen cond body => cases hends
  | loop cond body => cases hends

end Laid

/-! ## Methods -/

/-- Whether an instruction ends the method. -/
def Opcode.isReturn : Opcode → Bool
  | ireturn | lreturn | areturn | vreturn => true
  | _ => false

theorem Opcode.isBranch_of_isReturn {op : Opcode} (h : op.isReturn = true) :
    op.isBranch = false := by
  unfold isReturn at h
  split at h
  · rfl
  · rfl
  · rfl
  · rfl
  · cases h

/-- Only jumps and returns keep control from the next instruction. -/
theorem Opcode.isTerminal_eq (op : Opcode) : op.isTerminal = (op.isReturn || op == .goto) := by
  unfold isTerminal isReturn
  split
  · rfl
  · rfl
  · rfl
  · rfl
  · rfl
  · simp_all

/-- **Code that control never falls off**, and that returns only values of a kind, or none. -/
structure Method.Returns (kind : Option Kind) (m : Method) : Prop where
  /-- The code can be read to its end. -/
  swept : (sweep m.code).fault = none
  /-- Behind every instruction but jumps and returns there is another one. -/
  followed : ∀ pc i, (pc, i) ∈ (sweep m.code).instructions.toList → i.opcode.isReturn = false →
    i.opcode ≠ .goto → ∃ next, (pc + i.length, next) ∈ (sweep m.code).instructions.toList
  /-- The last instruction is a return. -/
  last : ∃ pc, (sweep m.code).instructions.toList.getLast? =
    some (pc, .plain (returnOpcode kind)) ∧ pc + 1 = m.code.size
  /-- There is no other way to return. -/
  only : ∀ pc i, (pc, i) ∈ (sweep m.code).instructions.toList → i.opcode.isReturn = true →
    i = .plain (returnOpcode kind)

theorem instructionsFrom_eq_nil {place : Label → Option Nat} {es : List Event} (h : bytesOf es = 0)
    (offset : Nat) : instructionsFrom place offset es = [] := by
  induction es generalizing offset with
  | nil => rfl
  | cons e es ih =>
    rw [bytesOf] at h
    cases e with
    | emit i pops pushes =>
      have hpos := i.length_pos
      simp only [Event.length] at h
      omega
    | branch op l => simp [Event.length] at h
    | fresh => exact ih (by omega) offset
    | place l => exact ih (by omega) offset

/-- **The method of a flow that control cannot leave**. -/
theorem MethodBody.returns {pool : ConstantPool} {flow : Flow} {initial locals : Nat} {m : Method}
    {a : Assembler} {kind : Option Kind} (hb : MethodBody pool flow initial locals m a)
    (hends : flow.ends = true) (hreturns : flow.Returns kind) : m.Returns kind := by
  obtain ⟨es, hruns, hcloses⟩ := Flow.Laid.closesBy flow hreturns hends hb.laid
  obtain ⟨fs, hruns', honly⟩ := Flow.Laid.runsOf flow hreturns hb.laid
  have hsize := hruns.rendered.size
  have hsweep := sweep_eq hruns
  have hsweep' := sweep_eq hruns'
  rw [← hb.code] at hsize hsweep hsweep'
  have hswept : (sweep m.code).fault = none := by rw [hsweep]
  have hwalk := Walk.of_sweep hswept
  refine
    { swept := hswept
      followed := ?_
      last := ?_
      only := ?_ }
  · intro pc i hi hreturn hgoto
    have hterminal : i.opcode.isTerminal = false := by
      rw [Opcode.isTerminal_eq, hreturn]
      simpa using hgoto
    -- what control passes does not end with the code, because a return does
    have hlt : pc + i.length < m.code.size := by
      rw [hsize]
      have hmem := hi
      rw [hsweep] at hmem
      rcases mem_instructionsFrom hmem with ⟨pops, pushes, hloc⟩ | ⟨op, l, hloc, rfl⟩
      · exact hcloses.closes.lt_size hloc hterminal i.length_pos
      · exact hcloses.closes.lt_size hloc hterminal (Nat.succ_pos _)
    rcases (hwalk.mem hi).2 with hnext | hend
    · obtain ⟨⟨_, next⟩, hnext, rfl⟩ := List.mem_map.1 hnext
      exact ⟨next, hnext⟩
    · omega
  · obtain ⟨front, words, rest, rfl, hrest⟩ := hcloses
    refine ⟨bytesOf front, ?_, ?_⟩
    · rw [hsweep, instructionsFrom_append, instructionsFrom, instructionsFrom_eq_nil hrest]
      simp
    · rw [hsize, bytesOf_append, bytesOf, hrest]
      rfl
  · intro pc i hi hreturn
    rw [hsweep'] at hi
    rcases mem_instructionsFrom hi with ⟨pops, pushes, hloc⟩ | ⟨op, l, hloc, rfl⟩
    · refine honly _ (mem_of_mem_located hloc).1 ?_
      rw [Opcode.isTerminal_eq, hreturn, Bool.true_or]
    · have hvalid : op.isBranch = true := hruns'.valid _ (mem_of_mem_located hloc).1
      have hbranchless : op.isBranch = false := Opcode.isBranch_of_isReturn hreturn
      rw [hvalid] at hbranchless
      cases hbranchless

/-- **Control never falls off a method** of a class that comes out of the compiler. Functions return
as their types say, and the constructor that is added returns nothing. -/
theorem returns_of_compile {options : Options} {imports : List Callable} {p : Program}
    {c : ClassFile} (himports : ∀ i ∈ imports, i.methodRef = none)
    (h : (compileProgram options imports p).result = .ok c) :
    ∃ constructors functions, c.methods = constructors ++ functions ∧
      (∀ m ∈ constructors, c.pool.text? m.name = some constructorName ∧ m.Returns none) ∧
      List.Forall₂ (fun (f : FunDef) m => c.pool.text? m.name = some f.name ∧
        m.Returns f.returnType.kind?) p.functions functions := by
  obtain ⟨table, hcompiled⟩ := compiled_of_ok himports h
  obtain ⟨constructors, functions, hmethods, hconstructors, hfunctions⟩ := hcompiled.methods
  refine ⟨constructors, functions, hmethods, ?_, ?_⟩
  · intro m hm
    rcases hconstructors with rfl | ⟨m', rfl, hconstructor, -⟩
    · cases hm
    · obtain rfl := List.mem_singleton.1 hm
      obtain ⟨a, hbody⟩ := hconstructor.body
      exact ⟨hconstructor.name, hbody.returns rfl ⟨trivial, rfl⟩⟩
  · refine hfunctions.imp fun f m hm => ⟨hm.name, ?_⟩
    obtain ⟨start, final, a, -, -, -, hchecked, hbody⟩ := hm.body
    exact hbody.returns (ends_selectBody _) (selectBody_returns hchecked)

/-- `choose(a, b)` returns from both arms of a conditional, and the rest of it is dead. -/
def chooseFunction : FunDef where
  name := "choose"
  params := [⟨"a", .bool⟩, ⟨"b", .bool⟩]
  returnType := .bool
  body := [
    .ifElse (.ident "a" .bool)
      [.loop (.ident "b" .bool) [.break], .ret (some (.ident "b" .bool))]
      [.ret (some (.ident "a" .bool))],
    .assign "a" (.ident "b" .bool)]

/-- A program whose conditional is followed by a label only. -/
def choose : Program := ⟨"Choose", [chooseFunction]⟩

/-- The parameters of `choose`. -/
def chooseLocals : Locals :=
  ⟨"choose", [⟨"b", .bool, .integer, 1, 1⟩, ⟨"a", .bool, .integer, 0, 1⟩], 2, 2, 2, 2⟩

theorem chooseFunction_lowers : chooseFunction.Lowers choose 0 := by
  refine ⟨chooseLocals, rfl, fun table n pool _ hpool => ?_⟩
  have hafter : poolAfter? (lowerFunction ⟨table, chooseFunction⟩
      ⟨pool, chooseLocals, .start chooseLocals.maxLocals⟩) = some pool := by cbv
  obtain ⟨body, s, hs, rfl⟩ := exists_ok_of_poolAfter? hafter
  exact ⟨body, s, hs, by rwa [Nat.zero_add] at hpool⟩

theorem returns_of_compile_choose : ∃ c, (compileProgram {} [] choose).result = .ok c ∧
    ∃ m ∈ c.methods, c.pool.text? m.name = some "choose" ∧ m.Returns (some .int) := by
  have htexts : ShortText "Choose" ∧ ShortText Descriptor.objectClass ∧
      chooseFunction.ShortTexts := by
    unfold FunDef.ShortTexts ShortText
    decide
  have hsingle : choose.Single {} chooseFunction 0 :=
    ⟨rfl, htexts.1, htexts.2.1, htexts.2.2, by decide⟩
  obtain ⟨c, hc⟩ := hsingle.compiles chooseFunction_lowers
  obtain ⟨constructors, functions, hmethods, -, hfunctions⟩ := returns_of_compile (by simp) hc
  obtain ⟨m, hm, hname, hreturns⟩ := forall₂_left hfunctions (a := chooseFunction) (by simp [choose])
  refine ⟨c, hc, m, ?_, hname, hreturns⟩
  rw [hmethods]
  exact List.mem_append_right _ hm

end ClassFoundry
