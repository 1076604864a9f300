import ClassFoundry.Proofs.Assembler.Depth
import ClassFoundry.Proofs.Imports
import ClassFoundry.Proofs.StraightLine

/-!
# The classes that code names

A variable of an object or structure type brings its class into a method in two ways: an object is
made for a declaration without a first value, and methods are called on the variable. Descriptors
name the class too. The instructions have the name as it is written, while in a descriptor dots are
slashes, so the two agree for the variables whose class is written without dots.

What code names is read off its instructions, what a function asks for is read off its body, and
both come in the same order.

## Main definitions

* `Mention`, `Method.mentions`: the objects that code makes and the calls that it makes on objects
* `Origin`, `Program.origins`: the places of a function body that such instructions come from
* `DataType.describedClass?`: the class between `L` and `;` in the descriptor of a type

## Main results

* `Flow.Laid.runsNaming`, `MethodBody.mentions_eq`: code names what its flow names
* `mentions_selectBody`: the flow of a function names what its origins name
* `Compiled.referents_eq`: which names these are depends on the source alone
* `mentions_of_compile`: **what the methods of a class name**, and where it is not what the
  descriptors of the variables say
-/

namespace ClassFoundry

/-- **An instruction that works with a class**: it makes an object, or calls a method on one. -/
inductive Mention where
  | creates (className : String)
  | calls (mode : CallMode) (callee : Member)
deriving DecidableEq

/-- A call, unless it is a static one, which has no object. -/
def CallMode.mention? (mode : CallMode) (callee : Member) : Option Mention :=
  if mode = .static then none else some (.calls mode callee)

/-- What an instruction names under a pool. -/
def Instruction.mention? (pool : ConstantPool) (i : Instruction) : Option Mention :=
  match i.action? with
  | some (.new index) => (pool.className? index).map .creates
  | some (.invoke mode index) => (pool.member? index).bind mode.mention?
  | _ => none

/-- **What the code of a method names**, in the order of the instructions. -/
def Method.mentions (pool : ConstantPool) (m : Method) : List Mention :=
  (sweep m.code).instructions.toList.filterMap fun placed => placed.2.mention? pool

/-! ## Structured code -/

/-- What an operation names. -/
def Operation.mention? : Operation → Option Mention
  | .create className => some (.creates className)
  | .invoke mode callee _ _ => mode.mention? callee
  | .frame _ | .drop _ | .text _ | .field _ => none

mutual

/-- What a fragment names. -/
def Fragment.mentions : Fragment → List Mention
  | .nil => []
  | .op o => o.mention?.toList
  | .seq first second => first.mentions ++ second.mentions
  | .truth cond => cond.mentions

/-- What a condition names. -/
def Condition.mentions : Condition → List Mention
  | .test operands _ => operands.mentions
  | .logic _ left right => left.mentions ++ right.mentions
  | .not cond => cond.mentions

end

/-- What a flow names; the test of a loop stands behind its body. -/
def Flow.mentions : Flow → List Mention
  | .nil | .break | .continue => []
  | .seq first second => first.mentions ++ second.mentions
  | .run value | .store value _ _ | .ret value _ => value.mentions
  | .ifThen cond body => cond.mentions ++ body.mentions
  | .ifElse cond body orElse => cond.mentions ++ body.mentions ++ orElse.mentions
  | .loop cond body => body.mentions ++ cond.mentions

theorem Instruction.mention?_of_frame {pool : ConstantPool} {i : Instruction} {op : FrameOp}
    (h : i.action? = some (.frame op)) : i.mention? pool = none := by
  simp [mention?, h]

/-- An instruction names what the operation names that it stands for. -/
theorem Operation.Means.mention?_eq {pool : ConstantPool} {i : Instruction} {o : Operation}
    (h : o.Means pool i) : i.mention? pool = o.mention? := by
  cases o with
  | frame op =>
    obtain ⟨-, haction | ⟨index, haction, -⟩⟩ := h
    · exact Instruction.mention?_of_frame haction
    · exact Instruction.mention?_of_frame haction
  | drop kind =>
    obtain rfl : i = .plain kind.popOp := h
    cases kind <;> rfl
  | text value =>
    obtain ⟨index, n, haction, -⟩ := h
    exact Instruction.mention?_of_frame haction
  | field member =>
    obtain ⟨index, haction, -⟩ := h
    exact Instruction.mention?_of_frame haction
  | invoke mode callee args result =>
    obtain ⟨index, haction, hmember⟩ := h
    simp [Instruction.mention?, Operation.mention?, haction, hmember]
  | create className =>
    obtain ⟨index, haction, hname⟩ := h
    simp [Instruction.mention?, Operation.mention?, haction, hname]

/-- What an event names. -/
def Event.mention? (pool : ConstantPool) : Event → Option Mention
  | .emit i _ _ => i.mention? pool
  | .branch _ _ | .fresh | .place _ => none

/-- A run that names the given things in their order. -/
def RunsNaming (pool : ConstantPool) (ms : List Mention) (a b : Assembler) : Prop :=
  ∃ es, Runs es a b ∧ es.filterMap (Event.mention? pool) = ms

namespace RunsNaming

variable {pool : ConstantPool} {ms ns : List Mention} {a b c : Assembler}

theorem refl (pool : ConstantPool) (a : Assembler) : RunsNaming pool [] a a := ⟨[], .nil a, rfl⟩

theorem trans (h : RunsNaming pool ms a b) (h' : RunsNaming pool ns b c) :
    RunsNaming pool (ms ++ ns) a c := by
  obtain ⟨es, hes, rfl⟩ := h
  obtain ⟨fs, hfs, rfl⟩ := h'
  exact ⟨es ++ fs, hes.append hfs, List.filterMap_append⟩

theorem event {e : Event} (h : RunsNaming pool ms a b) (he : e.Happens b c) :
    RunsNaming pool (ms ++ (e.mention? pool).toList) a c := by
  refine h.trans ⟨[e], .single he, ?_⟩
  cases hm : e.mention? pool <;> simp [hm]

/-- Most events name nothing. -/
theorem silent {e : Event} (h : RunsNaming pool ms a b) (he : e.Happens b c)
    (hsilent : e.mention? pool = none) : RunsNaming pool ms a c := by
  simpa [hsilent] using h.event he

theorem branch {op : Opcode} {l : Label} (h : RunsNaming pool ms a b)
    (he : (Event.branch op l).Happens b c) : RunsNaming pool ms a c :=
  h.silent he rfl

theorem place {l : Label} (h : RunsNaming pool ms a b) (he : (Event.place l).Happens b c) :
    RunsNaming pool ms a c :=
  h.silent he rfl

theorem fresh (h : RunsNaming pool ms a b) : RunsNaming pool ms a b.withLabel :=
  h.silent (.fresh b) rfl

theorem op {o : Operation} (h : RunsNaming pool ms a b) (ho : o.Laid pool b c) :
    RunsNaming pool (ms ++ o.mention?.toList) a c := by
  obtain ⟨i, hmeans, -, -, he⟩ := ho
  rw [← hmeans.mention?_eq]
  exact h.event he

theorem push {op : FrameOp} (h : RunsNaming pool ms a b) (ho : (Operation.frame op).Laid pool b c) :
    RunsNaming pool ms a c := by
  simpa [Operation.mention?] using h.op ho

theorem jumpUnless {unreachable : Bool} {l : Label} (h : RunsNaming pool ms a b)
    (hj : JumpsUnless unreachable l b c) : RunsNaming pool ms a c := by
  unfold JumpsUnless at hj
  split at hj
  · exact hj ▸ h
  · exact h.branch hj

end RunsNaming

section Laid

variable {pool : ConstantPool}

mutual

theorem Fragment.Laid.runsNaming (code : Fragment) {a a' : Assembler} (h : code.Laid pool a a') :
    RunsNaming pool code.mentions a a' := by
  cases code with
  | nil =>
    cases h
    exact .refl pool _
  | op o => exact (RunsNaming.refl pool a).op h
  | seq first second =>
    obtain ⟨b, h₁, h₂⟩ := h
    exact (Fragment.Laid.runsNaming first h₁).trans (Fragment.Laid.runsNaming second h₂)
  | truth cond =>
    obtain ⟨b₁, b₂, b₃, b₄, b₅, h₁, h₂, h₃, h₄, h₅, h₆⟩ := h
    have hcond := (RunsNaming.refl pool a).fresh.fresh.trans (Condition.Laid.runsNaming cond h₁)
    exact ((((hcond.push h₂).branch h₃).place h₄).push h₅).place h₆

theorem Condition.Laid.runsNaming (cond : Condition) {jumpIf : Bool} {target : Label}
    {a a' : Assembler} (h : cond.Laid pool jumpIf target a a') :
    RunsNaming pool cond.mentions a a' := by
  cases cond with
  | test operands t =>
    obtain ⟨b, h₁, h₂⟩ := h
    exact (Fragment.Laid.runsNaming operands h₁).branch h₂
  | logic op left right =>
    unfold Condition.Laid at h
    split at h
    · obtain ⟨b, h₁, h₂⟩ := h
      exact (Condition.Laid.runsNaming left h₁).trans (Condition.Laid.runsNaming right h₂)
    · obtain ⟨b, c, h₁, h₂, h₃⟩ := h
      have hleft := (RunsNaming.refl pool a).fresh.trans (Condition.Laid.runsNaming left h₁)
      exact (hleft.trans (Condition.Laid.runsNaming right h₂)).place h₃
  | not cond => exact Condition.Laid.runsNaming cond h

end

/-- **A flow is laid out as code that names what it names**. -/
theorem Flow.Laid.runsNaming (flow : Flow) {inner : Option LoopLabels} {a a' : Assembler}
    (h : flow.Laid pool inner a a') : RunsNaming pool flow.mentions a a' := by
  induction flow generalizing inner a a' with
  | nil =>
    cases h
    exact .refl pool _
  | seq first second ih₁ ih₂ =>
    obtain ⟨b, h₁, h₂⟩ := h
    exact (ih₁ h₁).trans (ih₂ h₂)
  | run code => exact Fragment.Laid.runsNaming code h
  | store value kind slot =>
    obtain ⟨b, i, h₁, hmeans, -, h₂⟩ := h
    have hsilent : i.mention? pool = none := Instruction.mention?_of_frame hmeans.action
    exact (Fragment.Laid.runsNaming value h₁).silent h₂ hsilent
  | ret value kind =>
    obtain ⟨b, h₁, h₂⟩ := h
    have hsilent : (Instruction.plain (returnOpcode kind)).mention? pool = none := by
      rcases kind with _ | kind
      · rfl
      · cases kind <;> rfl
    exact (Fragment.Laid.runsNaming value h₁).silent h₂ hsilent
  | ifThen cond body ih =>
    obtain ⟨b, c, h₁, h₂, h₃⟩ := h
    have hcond := (RunsNaming.refl pool a).fresh.trans (Condition.Laid.runsNaming cond h₁)
    exact (hcond.trans (ih h₂)).place h₃
  | ifElse cond body orElse ih₁ ih₂ =>
    obtain ⟨b, c, d, e, f, g, h₁, h₂, h₃, h₄, h₅, h₆, h₇⟩ := h
    have hcond := (RunsNaming.refl pool a).fresh.trans (Condition.Laid.runsNaming cond h₁)
    have hbody := ((hcond.trans (ih₁ h₂)).fresh.jumpUnless h₃).place h₄
    exact ((hbody.trans (ih₂ h₅)).jumpUnless h₆).place h₇
  | loop cond body ih =>
    obtain ⟨b, c, d, e, f, h₁, h₂, h₃, h₄, h₅, h₆⟩ := h
    -- control enters at the test, which stands behind the body
    have hstart := ((RunsNaming.refl pool a).fresh.fresh.fresh.branch h₁).place h₂
    have hbody := (hstart.trans (ih h₃)).place h₄
    exact (hbody.trans (Condition.Laid.runsNaming cond h₅)).place h₆
  | «break» =>
    obtain ⟨labels, -, h⟩ := h
    exact (RunsNaming.refl pool a).branch h
  | «continue» =>
    obtain ⟨labels, -, h⟩ := h
    exact (RunsNaming.refl pool a).branch h

/-- The instructions of events name what the events name: a branch has no index. -/
theorem filterMap_instructionsFrom (place : Label → Option Nat) (offset : Nat) {es : List Event}
    (hvalid : ∀ e ∈ es, e.Valid) :
    (instructionsFrom place offset es).filterMap (fun placed => placed.2.mention? pool) =
      es.filterMap (Event.mention? pool) := by
  induction es generalizing offset with
  | nil => rfl
  | cons e es ih =>
    obtain ⟨he, hes⟩ := List.forall_mem_cons.1 hvalid
    cases e with
    | emit i pops pushes => simp [instructionsFrom, List.filterMap_cons, Event.mention?, ih _ hes]
    | branch op l =>
      have hsilent (w : UInt16) : (Instruction.short op w).mention? pool = none := by
        have hcases := Opcode.isBranch_cases he
        simp only [List.mem_cons, List.not_mem_nil, or_false] at hcases
        rcases hcases with rfl | rfl | rfl | rfl | rfl | rfl | rfl | rfl | rfl | rfl | rfl | rfl |
          rfl | rfl | rfl <;> rfl
      simp [instructionsFrom, List.filterMap_cons, Event.mention?, hsilent, ih _ hes]
    | fresh => simpa [instructionsFrom, List.filterMap_cons, Event.mention?] using ih offset hes
    | place l => simpa [instructionsFrom, List.filterMap_cons, Event.mention?] using ih offset hes

/-- **The code of a method names what its flow names**. -/
theorem MethodBody.mentions_eq {flow : Flow} {initial locals : Nat} {m : Method} {a : Assembler}
    (h : MethodBody pool flow initial locals m a) : m.mentions pool = flow.mentions := by
  obtain ⟨es, hes, hnames⟩ := Flow.Laid.runsNaming flow h.laid
  rw [Method.mentions, h.code, sweep_eq hes, ← hnames]
  exact filterMap_instructionsFrom a.labels.offset? 0 hes.valid

end Laid

/-! ## Origins -/

/-- **What the names in a function body stand for**: the types of variables, and for calls by name
the way of calling and the callee. -/
structure Referents where
  type? : String → Option DataType
  callee? : String → List DataType → Option (CallMode × Member)

/-- **A place of a body whose code names a class**: a variable is declared without a first value, a
method is called on a variable, or a method is called by name. -/
inductive Origin where
  | created (name : String) (ty : DataType)
  | received (name : String) (ty : DataType) (method descriptor : String)
  | called (mode : CallMode) (callee : Member)
deriving DecidableEq

/-- What the code of an origin names if `naming` gives the classes of types. -/
def Origin.mentions (naming : DataType → Option String) : Origin → List Mention
  | .created _ ty =>
    match naming ty with
    | some cls =>
      [.creates cls, .calls .special ⟨cls, constructorName, constructorDescriptor⟩]
    | none => []
  | .received _ ty method descriptor =>
    match naming ty with
    | some cls => [.calls .virtual ⟨cls, method, descriptor⟩]
    | none => []
  | .called mode callee => (mode.mention? callee).toList

/-- What the code of origins names. -/
def Origin.mentionsOf (naming : DataType → Option String) (origins : List Origin) : List Mention :=
  origins.flatMap (Origin.mentions naming)

@[simp] theorem Origin.mentionsOf_nil (naming : DataType → Option String) :
    Origin.mentionsOf naming [] = [] := rfl

@[simp] theorem Origin.mentionsOf_append (naming : DataType → Option String) (ss ts : List Origin) :
    Origin.mentionsOf naming (ss ++ ts) =
      Origin.mentionsOf naming ss ++ Origin.mentionsOf naming ts :=
  List.flatMap_append

namespace Referents

variable (ρ : Referents)

/-- The origin of a call itself. -/
def call (object : Option String) (name : String) (args : List DataType) (result : DataType) :
    List Origin :=
  match object with
  | some object =>
    match ρ.type? object with
    | some ty => [.received object ty name (Descriptor.ofMethod args result)]
    | none => []
  | none =>
    match ρ.callee? name args with
    | some (mode, callee) => [.called mode callee]
    | none => []

end Referents

mutual

/-- The origins of an expression, in the order of evaluation. -/
def Expr.origins (ρ : Referents) : Expr → List Origin
  | .ident _ _ | .int _ _ | .char _ | .str _ => []
  | .arith _ lhs rhs _ | .compare _ lhs rhs _ | .logic _ lhs rhs _ => lhs.origins ρ ++ rhs.origins ρ
  | .unary _ operand _ | .not operand _ => operand.origins ρ
  | .call object name args ty =>
    Expr.argOrigins ρ args ++ ρ.call object name (args.map Expr.ty) ty

/-- The origins of arguments. -/
def Expr.argOrigins (ρ : Referents) : List Expr → List Origin
  | [] => []
  | e :: rest => e.origins ρ ++ Expr.argOrigins ρ rest

end

mutual

/-- The origins of a statement. -/
def Stmt.origins (ρ : Referents) : Stmt → List Origin
  | .declare _ _ (some e) | .assign _ e | .ret (some e) => e.origins ρ
  | .declare name ty none => if ty.className?.isSome then [.created name ty] else []
  | .ret none | .break | .continue => []
  | .ifThen cond body => cond.origins ρ ++ Stmt.blockOrigins ρ body
  | .ifElse cond body orElse =>
    cond.origins ρ ++ Stmt.blockOrigins ρ body ++ Stmt.blockOrigins ρ orElse
  | .loop cond body => Stmt.blockOrigins ρ body ++ cond.origins ρ
  | .call object name args ty =>
    Expr.argOrigins ρ args ++ ρ.call object name (args.map Expr.ty) ty

/-- The origins of a block, up to the first statement that control cannot leave. -/
def Stmt.blockOrigins (ρ : Referents) : List Stmt → List Origin
  | [] => []
  | s :: rest => if s.terminates then s.origins ρ else s.origins ρ ++ Stmt.blockOrigins ρ rest

end

/-- What the names stand for that code is selected with. -/
def Names.referents (σ : Names) : Referents where
  type? name := (σ.look name).map Slot.ty
  callee? name args := (σ.callee? name args).map fun callee => (callee.mode, callee.member)

/-! ## The code of origins -/

section Selection

open Fragment (ofOp plain)

variable {σ : Names}

@[simp] theorem Fragment.mentions_ofOp (op : FrameOp) : (ofOp op).mentions = [] := rfl

@[simp] theorem Fragment.mentions_plain (op : Opcode) : (plain op).mentions = [] := by
  unfold plain
  split <;> rfl

@[simp] theorem mentions_widening (source : DataType) (target : Kind) :
    (widening source target).mentions = [] := by
  unfold widening
  split
  · split <;> rfl
  · rfl
  · rfl

@[simp] theorem mentions_narrowing (ty : DataType) : (narrowing ty).mentions = [] := by
  unfold narrowing
  split
  · exact Fragment.mentions_plain _
  · rfl
  · rfl

@[simp] theorem mentions_conversion (source target : DataType) :
    (conversion source target).mentions = [] := by
  unfold conversion
  split
  · rfl
  · split
    · rfl
    · rfl
    · simp [Fragment.mentions]

@[simp] theorem mentions_nonzero (ty : DataType) (value : Fragment) :
    (nonzero ty value).mentions = value.mentions := by
  unfold nonzero
  split <;> simp [Condition.mentions, Fragment.mentions]

/-- The methods for unsigned numbers are static, so that only the sides of a comparison count. -/
@[simp] theorem mentions_comparison (op : Comparison) (lhs rhs : DataType) (left right : Fragment) :
    (comparison op lhs rhs left right).mentions = left.mentions ++ right.mentions := by
  unfold comparison
  split
  · rfl
  · unfold compareCondition
    generalize (lhs.isLong || rhs.isLong) = long
    generalize ((lhs.needsUnsignedOps || rhs.needsUnsignedOps) && op.isOrdered) = unsigned
    cases long <;> cases unsigned <;>
      simp [Condition.mentions, Fragment.mentions, Operation.mention?, CallMode.mention?]

@[simp] theorem mentions_arithmetic (op : Arith) (lhs rhs ty : DataType) (left right : Fragment) :
    (arithmetic op lhs rhs ty left right).mentions = left.mentions ++ right.mentions := by
  have hop : (op.fragment ty).mentions = [] := by
    unfold Arith.fragment
    split
    · split
      · split <;> rfl
      · exact Fragment.mentions_plain _
    · exact Fragment.mentions_plain _
  simp [arithmetic, Fragment.mentions, hop]

@[simp] theorem mentions_unary (op : UnaryArith) (operand ty : DataType) (value : Fragment) :
    (unary op operand ty value).mentions = value.mentions := by
  have hop : (op.fragment ty).mentions = [] := by
    unfold UnaryArith.fragment
    split
    · rfl
    · split <;> rfl
  simp [unary, Fragment.mentions, hop]

theorem mentions_passArguments (args : List (Passed × DataType)) :
    (passArguments args).mentions = (plainArguments (args.map Prod.fst)).mentions := by
  induction args with
  | nil => rfl
  | cons passed rest ih => simp [passArguments, plainArguments, Fragment.mentions, ih]

/-- A call by name names what its arguments name and then the callee. -/
theorem mentions_callFragment {callee : Callable} {args : List (Passed × DataType)}
    (hfirst : callee.receiver = .firstArg → args ≠ []) :
    (callFragment callee args).mentions = (plainArguments (args.map Prod.fst)).mentions ++
      (callee.mode.mention? callee.member).toList := by
  have hhidden : callee.hidden.mentions = [] := by
    unfold Callable.hidden
    split <;> rfl
  have hfinish (rest : List (Passed × DataType)) : (finishCall callee rest).mentions =
      (plainArguments (rest.map Prod.fst)).mentions ++
        (callee.mode.mention? callee.member).toList := by
    simp [finishCall, Fragment.mentions, hhidden, mentions_passArguments, Callable.operation,
      Operation.mention?]
  unfold callFragment
  split
  · exact hfinish args
  · simpa [Fragment.mentions] using hfinish args
  · rename_i hreceiver
    -- the first argument is the receiver, so it is evaluated before the others as well
    cases args with
    | nil => exact absurd rfl (hfirst hreceiver)
    | cons passed rest => simp [Fragment.mentions, plainArguments, hfinish]
  · simpa [Fragment.mentions, Operation.mention?] using hfinish args

/-- **A call names what its arguments name and what its own origin names**. -/
theorem Names.mentions_call {object : Option String} {name : String} {args : List Expr}
    (h : σ.Calls object name args) (ty : DataType) :
    (σ.call object name (selectArgs σ args) ty).mentions =
      (plainArguments (selectArgs σ args)).mentions ++
        Origin.mentionsOf DataType.className?
          (σ.referents.call object name (args.map Expr.ty) ty) := by
  cases object with
  | some object =>
    obtain ⟨slot, cls, hslot, hcls⟩ := CallsObject.object h
    simp [call, hslot, hcls, objectFragment, Fragment.mentions, Operation.mention?,
      CallMode.mention?, Referents.call, referents, Origin.mentionsOf, Origin.mentions]
  | none =>
    obtain ⟨callee, hcalls⟩ := h
    have hlength : (selectArgs σ args).length = callee.params.length := by
      rw [length_selectArgs, hcalls.length_params]
    simp [call, hcalls.callee?, mentions_callFragment hcalls.first_selectArgs,
      List.map_fst_zip hlength.le, Referents.call, referents, Origin.mentionsOf, Origin.mentions]

mutual

/-- **The code of an expression names what its origins name**, as a value and as a condition. -/
theorem mentions_select (e : Expr) (h : e.Checked σ) :
    (select σ e).value.mentions = Origin.mentionsOf DataType.className? (e.origins σ.referents) ∧
      (select σ e).cond.mentions = (select σ e).value.mentions := by
  cases e with
  | ident name ty =>
    have hload : (σ.load name).mentions = [] := by
      unfold Names.load
      split
      · split <;> rfl
      · rfl
    simp [select, Selection.ofValue, Expr.origins, hload]
  | int value ty =>
    have hliteral : (literal value ty).mentions = [] := by
      unfold literal
      split <;> rfl
    simp [select, Selection.ofValue, Expr.origins, hliteral]
  | char c => simp [select, Selection.ofValue, Expr.origins]
  | str text =>
    simp [select, Selection.ofValue, Expr.origins, Fragment.mentions, Operation.mention?]
  | arith op lhs rhs ty =>
    obtain ⟨-, -, -, hlhs, hrhs⟩ := h
    simp [select, Selection.ofValue, Expr.origins, (mentions_select lhs hlhs).1,
      (mentions_select rhs hrhs).1]
  | compare op lhs rhs ty =>
    obtain ⟨-, hlhs, hrhs⟩ := h
    simp [select, Selection.ofCondition, Fragment.mentions, Expr.origins,
      (mentions_select lhs hlhs).1, (mentions_select rhs hrhs).1]
  | logic op lhs rhs ty =>
    obtain ⟨-, -, hlhs, hrhs⟩ := h
    obtain ⟨hl, hl'⟩ := mentions_select lhs hlhs
    obtain ⟨hr, hr'⟩ := mentions_select rhs hrhs
    simp [select, Selection.ofCondition, Fragment.mentions, Condition.mentions, Expr.origins, hl',
      hr', hl, hr]
  | unary op operand ty =>
    obtain ⟨-, -, hoperand⟩ := h
    simp [select, Selection.ofValue, Expr.origins, (mentions_select operand hoperand).1]
  | not operand ty =>
    obtain ⟨hvalue, hcond⟩ := mentions_select operand h.2
    simp [select, Selection.ofCondition, Fragment.mentions, Condition.mentions, Expr.origins, hcond,
      hvalue]
  | call object name args ty =>
    obtain ⟨hcalls, hargs, -⟩ := h
    simp [select, Selection.ofValue, Expr.origins, Names.mentions_call hcalls,
      mentions_selectArgs args hargs]

theorem mentions_selectArgs (args : List Expr) (h : Expr.AllChecked σ args) :
    (plainArguments (selectArgs σ args)).mentions =
      Origin.mentionsOf DataType.className? (Expr.argOrigins σ.referents args) := by
  cases args with
  | nil => rfl
  | cons e rest =>
    obtain ⟨he, hrest⟩ := h
    simp [selectArgs, plainArguments, Fragment.mentions, Expr.argOrigins, (mentions_select e he).1,
      mentions_selectArgs rest hrest]

end

theorem mentions_selectAs {e : Expr} (h : e.Checked σ) (ty : DataType) :
    (selectAs σ e ty).mentions = Origin.mentionsOf DataType.className? (e.origins σ.referents) := by
  simp [selectAs, Fragment.mentions, (mentions_select e h).1]

theorem mentions_cond {e : Expr} (h : e.Checked σ) :
    (select σ e).cond.mentions = Origin.mentionsOf DataType.className? (e.origins σ.referents) :=
  (mentions_select e h).2.trans (mentions_select e h).1

/-- An object is made for a variable of an object or structure type, and only for such a one. -/
theorem mentions_defaultValue (name : String) (ty : DataType) :
    (defaultValue ty).mentions = Origin.mentionsOf DataType.className?
      (if ty.className?.isSome then [.created name ty] else []) := by
  cases ty with
  | int width unsigned => cases width <;> rfl
  | _ => rfl

mutual

/-- **The code of a statement names what its origins name**. -/
theorem mentions_selectStmt (s : Stmt) (h : s.Checked σ) :
    (selectStmt σ s).mentions = Origin.mentionsOf DataType.className? (s.origins σ.referents) := by
  cases s with
  | declare name ty init =>
    obtain ⟨⟨slot, kind, hslot, -, hkind⟩, hinit⟩ := h
    cases init with
    | some e =>
      have he := (hinit e rfl).1
      simp [selectStmt, hslot, hkind, Flow.mentions, initialValue, mentions_selectAs he,
        Stmt.origins]
    | none =>
      simp [selectStmt, hslot, hkind, Flow.mentions, initialValue, mentions_defaultValue name,
        Stmt.origins]
  | assign name value =>
    obtain ⟨slot, hslot, hvalue, -, kind, -, hkind, -⟩ := h
    simp [selectStmt, hslot, hkind, Flow.mentions, mentions_selectAs hvalue, Stmt.origins]
  | ret value =>
    cases value with
    | some e => exact mentions_selectAs h.1 _
    | none => rfl
  | ifThen cond body =>
    obtain ⟨hcond, -, hbody⟩ := h
    simp [selectStmt, Flow.mentions, Stmt.origins, mentions_cond hcond,
      mentions_selectBlock body hbody]
  | ifElse cond body orElse =>
    obtain ⟨hcond, -, hbody, horElse⟩ := h
    simp [selectStmt, Flow.mentions, Stmt.origins, mentions_cond hcond,
      mentions_selectBlock body hbody, mentions_selectBlock orElse horElse]
  | loop cond body =>
    obtain ⟨hcond, -, hbody⟩ := h
    simp [selectStmt, Flow.mentions, Stmt.origins, mentions_cond hcond,
      mentions_selectBlock body hbody]
  | «break» => rfl
  | «continue» => rfl
  | call object name args ty =>
    obtain ⟨hcalls, hargs⟩ := h
    have hdiscard (kind : Option Kind) : (discard kind).mentions = [] := by
      cases kind <;> rfl
    simp [selectStmt, Flow.mentions, Fragment.mentions, Stmt.origins, hdiscard,
      Names.mentions_call hcalls, mentions_selectArgs args hargs]

theorem mentions_selectBlock (block : List Stmt) (h : Stmt.AllChecked σ block) :
    (selectBlock σ block).mentions =
      Origin.mentionsOf DataType.className? (Stmt.blockOrigins σ.referents block) := by
  cases block with
  | nil => rfl
  | cons s rest =>
    obtain ⟨hs, hrest⟩ := h
    unfold selectBlock Stmt.blockOrigins
    split
    · exact mentions_selectStmt s hs
    · rename_i hpasses
      simp [Flow.mentions, mentions_selectStmt s hs,
        mentions_selectBlock rest (hrest (eq_false_of_ne_true hpasses))]

end

/-- **The code of a function names what the origins of its body name**. -/
theorem mentions_selectBody (h : σ.BodyChecked) : (selectBody σ).mentions =
    Origin.mentionsOf DataType.className?
      (Stmt.blockOrigins σ.referents σ.scope.function.body) := by
  have hblock := mentions_selectBlock _ h.1
  unfold selectBody
  split
  · exact hblock
  · simpa [Flow.mentions, Fragment.mentions] using hblock

end Selection

/-! ## What names stand for in a program -/

namespace Callable

/-- A callable method without its place in a pool. -/
def bare (c : Callable) : Callable := { c with methodRef := none }

theorem bare_eq_self {c : Callable} (h : c.methodRef = none) : c.bare = c := by
  rw [bare, ← h]

theorem map_bare_of_registers {owner : String} {fs : List FunDef} {own : List Callable}
    (h : List.Forall₂ (Registers owner) fs own) : own.map bare = fs.map (ofFunction owner) := by
  induction h with
  | nil => rfl
  | cons hregisters _ ih =>
    obtain ⟨i, rfl⟩ := hregisters
    rw [List.map_cons, List.map_cons, ih]
    rfl

end Callable

/-- Where the methods of a table are in the pool has no part in the choice among them. -/
theorem CallTable.calleeAmong_map_bare (name : String) (candidates : List Callable)
    (args : List DataType) : calleeAmong name (candidates.map Callable.bare) args =
      (calleeAmong name candidates args).map Callable.bare := by
  have hdefined : (fun c : Callable => c.bare.defined) = (·.defined) := rfl
  have hparams (ps : List DataType) :
      (fun c : Callable => c.bare.params == ps) = (·.params == ps) := rfl
  have haccepts : (fun c : Callable => c.bare.accepts args) = (·.accepts args) := rfl
  unfold calleeAmong
  simp only [List.isEmpty_map, List.find?_map, Function.comp_def, ← Option.map_or, hdefined,
    hparams, haccepts]
  cases candidates.isEmpty with
  | true => rfl
  | false =>
    cases candidates.find? (·.defined) with
    | some c =>
      have hbare : c.bare.accepts args = c.accepts args := rfl
      by_cases h : c.accepts args <;> simp [hbare, h, Except.map]
    | none =>
      -- one of the three searches decides for both
      generalize (candidates.find? (·.params == args)).or _ = found
      cases found <;> rfl

theorem CallTable.callee_of_bare {t t' : CallTable}
    (h : t.entries.toList.map Callable.bare = t'.entries.toList) (name : String)
    (args : List DataType) : t'.callee name args = (t.callee name args).map Callable.bare := by
  have hname : ((·.name == name) ∘ Callable.bare) = fun c => c.name == name := rfl
  unfold callee
  rw [← h, List.filter_map, hname, calleeAmong_map_bare]

theorem Names.callee?_eq (σ : Names) (name : String) (args : List DataType) :
    σ.callee? name args = (σ.scope.table.callee name args).toOption := by
  rw [← CallTable.map_resolve, callee?]
  cases σ.scope.table.resolve name args <;> rfl

/-- The methods that a program can call by name. -/
def Program.callTable (imports : List Callable) (p : Program) : CallTable :=
  ⟨(builtins ++ imports ++ p.functions.map (Callable.ofFunction p.name)).toArray⟩

/-- The type of a variable or parameter. -/
def FunDef.typeOf? (f : FunDef) (name : String) : Option DataType :=
  f.locals?.toOption.bind fun locals => (locals.find? name).map Slot.ty

/-- **What the names in a function of a program stand for**. -/
def Program.referents (imports : List Callable) (p : Program) (f : FunDef) : Referents where
  type? := f.typeOf?
  callee? name args := ((p.callTable imports).callee name args).toOption.map fun callee =>
    (callee.mode, callee.member)

/-- **The origins of a function of a program**. -/
def Program.origins (imports : List Callable) (p : Program) (f : FunDef) : List Origin :=
  Stmt.blockOrigins (p.referents imports f) f.body

section Compiled

variable {options : Options} {imports : List Callable} {p : Program} {c : ClassFile}
  {table : CallTable}

/-- The table that functions are lowered under is that of the program, with places in the pool. -/
theorem Compiled.map_bare_entries (h : Compiled options imports p c table)
    (himports : ∀ i ∈ imports, i.methodRef = none) :
    table.entries.toList.map Callable.bare = (p.callTable imports).entries.toList := by
  obtain ⟨own, hentries, hown⟩ := h.entries
  have hgiven : (builtins ++ imports).map Callable.bare = builtins ++ imports := by
    refine (List.map_congr_left ?_).trans (List.map_id _)
    intro callee hcallee
    rcases List.mem_append.1 hcallee with hmem | hmem
    · exact Callable.bare_eq_self (methodRef_builtins callee hmem)
    · exact Callable.bare_eq_self (himports callee hmem)
  rw [hentries, List.map_append, hgiven, Callable.map_bare_of_registers hown, Program.callTable]

/-- **What names stand for depends on the source alone**. -/
theorem Compiled.referents_eq (h : Compiled options imports p c table)
    (himports : ∀ i ∈ imports, i.methodRef = none) {f : FunDef} {final : Locals}
    (hfinal : f.locals? = .ok final) :
    (final.names table f).referents = p.referents imports f := by
  have htype : f.typeOf? = fun name => (final.find? name).map Slot.ty := by
    funext name
    simp [FunDef.typeOf?, hfinal, Except.toOption]
  have hcallee (name : String) (args : List DataType) :
      ((p.callTable imports).callee name args).toOption =
        ((final.names table f).callee? name args).map Callable.bare := by
    rw [Names.callee?_eq, CallTable.callee_of_bare (h.map_bare_entries himports)]
    show _ = (table.callee name args).toOption.map _
    cases table.callee name args <;> rfl
  -- neither the way of calling nor the member of a callee is read off the pool
  unfold Names.referents Program.referents
  simp only [htype, hcallee, Option.map_map]
  rfl

/-- **The method of a function names what its origins name**. -/
theorem CompiledFunction.mentions_eq {f : FunDef} {m : Method}
    (h : Compiled options imports p c table) (himports : ∀ i ∈ imports, i.methodRef = none)
    (hm : CompiledFunction c.pool table f m) :
    m.mentions c.pool = Origin.mentionsOf DataType.className? (p.origins imports f) := by
  obtain ⟨start, final, a, -, hfinal, -, hchecked, hbody⟩ := hm.body
  rw [hbody.mentions_eq, mentions_selectBody hchecked, h.referents_eq himports hfinal]
  rfl

end Compiled

/-! ## Descriptors -/

/-- The class between the leading `L` and the closing `;`. -/
def Descriptor.className? (d : String) : Option String :=
  match d.toList with
  | 'L' :: rest => if rest.getLast? = some ';' then some (String.ofList rest.dropLast) else none
  | _ => none

theorem Descriptor.className?_ofClass (name : String) : className? (ofClass name) = some name := by
  simp [className?, toList_ofClass]

/-- The class that the descriptor of an object or structure type names. -/
def DataType.describedClass? (ty : DataType) : Option String :=
  ty.className?.bind fun _ => Descriptor.className? (Descriptor.ofType ty)

/-- A class name as it stands in descriptors is another one exactly if it has dots. -/
theorem eq_map_slash_iff (name : String) :
    name = (name.map fun c => if c = '.' then '/' else c) ↔ '.' ∉ name.toList := by
  rw [← String.toList_inj, String.toList_map]
  constructor
  · intro h hdot
    -- if nothing changes, a dot must come from some letter, but none is turned into a dot
    rw [h] at hdot
    obtain ⟨ch, -, hch⟩ := List.mem_map.1 hdot
    split at hch
    · cases hch
    · contradiction
  · intro h
    refine ((List.map_congr_left ?_).trans (List.map_id _)).symm
    intro ch hch
    exact if_neg fun heq : ch = '.' => h (heq ▸ hch)

theorem DataType.describedClass?_eq {ty : DataType} {cls : String} (h : ty.className? = some cls) :
    ty.describedClass? = some (cls.map fun c => if c = '.' then '/' else c) := by
  unfold className? at h
  split at h
  · cases h
    exact Descriptor.className?_ofClass _
  · cases h
    exact Descriptor.className?_ofClass _
  · cases h

namespace Origin

/-- The type of the variable of an origin. -/
def type? : Origin → Option DataType
  | .created _ ty | .received _ ty _ _ => some ty
  | .called _ _ => none

/-- The class of the variable is written with dots. -/
def Dotted (s : Origin) : Prop :=
  ∃ ty cls, s.type? = some ty ∧ ty.className? = some cls ∧ '.' ∈ cls.toList

/-- What the code of an origin names is as long under the one naming as under the other. -/
theorem length_mentions (s : Origin) :
    (s.mentions DataType.describedClass?).length = (s.mentions DataType.className?).length := by
  have hclass (ty : DataType) : (∃ cls cls', ty.className? = some cls ∧
      ty.describedClass? = some cls') ∨ ty.className? = none ∧ ty.describedClass? = none := by
    cases h : ty.className? with
    | some cls => exact .inl ⟨cls, _, rfl, DataType.describedClass?_eq h⟩
    | none => exact .inr ⟨rfl, by simp [DataType.describedClass?, h]⟩
  cases s with
  | created name ty => rcases hclass ty with ⟨cls, cls', h, h'⟩ | ⟨h, h'⟩ <;> simp [mentions, h, h']
  | received name ty method descriptor =>
    rcases hclass ty with ⟨cls, cls', h, h'⟩ | ⟨h, h'⟩ <;> simp [mentions, h, h']
  | called mode callee => rfl

/-- **An origin names the class of the descriptor** exactly if the class is written without dots. -/
theorem mentions_eq_iff (s : Origin) :
    s.mentions DataType.className? = s.mentions DataType.describedClass? ↔ ¬ s.Dotted := by
  cases s with
  | created name ty =>
    cases h : ty.className? with
    | some cls =>
      simp [mentions, h, DataType.describedClass?_eq h, Dotted, type?, eq_map_slash_iff]
    | none => simp [mentions, h, DataType.describedClass?, Dotted, type?]
  | received name ty method descriptor =>
    cases h : ty.className? with
    | some cls =>
      simp [mentions, h, DataType.describedClass?_eq h, Dotted, type?, eq_map_slash_iff]
    | none => simp [mentions, h, DataType.describedClass?, Dotted, type?]
  | called mode callee => simp [mentions, Dotted, type?]

theorem mentionsOf_eq_iff (origins : List Origin) :
    mentionsOf DataType.className? origins = mentionsOf DataType.describedClass? origins ↔
      ∀ s ∈ origins, ¬ s.Dotted := by
  induction origins with
  | nil => simp
  | cons s rest ih =>
    rw [List.forall_mem_cons, ← ih, ← mentions_eq_iff]
    show s.mentions _ ++ mentionsOf _ rest = s.mentions _ ++ mentionsOf _ rest ↔ _
    -- the two lists can be cut at the same place
    exact ⟨fun h => List.append_inj h s.length_mentions.symm, fun ⟨h, h'⟩ => by rw [h, h']⟩

end Origin

/-! ## Classes of programs -/

/-- **What the methods of a class name**. The constructor that is added names that of the
superclass. The method of a function makes the objects and the calls on objects that the origins of
the function ask for, in their order, under the class names of the types as they are written. It
names the classes of the descriptors exactly if no variable at these origins has a class that is
written with dots. -/
theorem mentions_of_compile {options : Options} {imports : List Callable} {p : Program}
    {c : ClassFile} (himports : ∀ i ∈ imports, i.methodRef = none)
    (h : (compileProgram options imports p).result = .ok c) :
    ∃ constructors functions, c.methods = constructors ++ functions ∧
      (∀ m ∈ constructors, m.mentions c.pool =
        [.calls .special ⟨options.superClass, constructorName, constructorDescriptor⟩]) ∧
      List.Forall₂ (fun f m => c.pool.text? m.name = some f.name ∧
        m.mentions c.pool = Origin.mentionsOf DataType.className? (p.origins imports f) ∧
        (m.mentions c.pool = Origin.mentionsOf DataType.describedClass? (p.origins imports f) ↔
          ∀ s ∈ p.origins imports f, ¬ s.Dotted)) p.functions functions := by
  obtain ⟨table, hcompiled⟩ := compiled_of_ok himports h
  obtain ⟨constructors, functions, hmethods, hconstructors, hfunctions⟩ := hcompiled.methods
  refine ⟨constructors, functions, hmethods, ?_, hfunctions.imp fun f m hm => ?_⟩
  · intro m hm
    rcases hconstructors with rfl | ⟨m', rfl, hconstructor, -⟩
    · simp at hm
    · obtain rfl : m = m' := List.mem_singleton.1 hm
      obtain ⟨a, hbody⟩ := hconstructor.body
      exact hbody.mentions_eq
  · have hmentions := hm.mentions_eq hcompiled himports
    exact ⟨hm.name, hmentions, by rw [hmentions, Origin.mentionsOf_eq_iff]⟩

/-- `paint(p)` calls a method of a point. -/
def paintFunction : FunDef where
  name := "paint"
  params := [⟨"p", .object "demo.Point"⟩]
  returnType := .void
  body := [.call (some "p") "draw" [] .void]

/-- A program with a variable whose class is written with a dot. -/
def paint : Program := ⟨"Paint", [paintFunction]⟩

/-- The parameter of `paint`. -/
def paintLocals : Locals :=
  ⟨"paint", [⟨"p", .object "demo.Point", .reference, 0, 1⟩], 1, 1, 1, 1⟩

theorem paintFunction_lowers : paintFunction.Lowers paint 6 := by
  refine FunDef.lowers_of_advances (l := paintLocals) rfl (by decide : 8 ≤ _) fun table _ => ?_
  have hshort : ShortText "demo.Point" ∧ ShortText "draw" ∧ ShortText "()V" := by
    unfold ShortText
    decide
  obtain ⟨howner, hname, hdescriptor⟩ := hshort
  have hload : Advances paintLocals 0 4 0 (0 + 1) (Lower.code (Asm.load .reference 0)) :=
    (load_straight .reference (by decide) (by decide)).code
  have hinvoke : Advances paintLocals 6 3 (0 + 1) (0 + 0) (do
      let index ← Lower.pool (PoolBuilder.internMethod ⟨"demo.Point", "draw", "()V"⟩)
      Lower.code (Asm.invoke .invokevirtual index 0 0)) :=
    Takes.advances (PoolBuilder.internMethod_takes howner hname hdescriptor) fun index =>
      instruction_straight (.short .invokevirtual index) (by decide)
  have hret : Advances paintLocals 0 1 (0 + 0) (0 + 0) (Lower.plain .vreturn) :=
    plain_advances rfl (Nat.zero_le _)
  -- the slot of the parameter is known, so that the body is the three pieces in a row
  intro base m n s hs
  obtain ⟨s', hs', hready⟩ := hload.seq (hinvoke.seq hret) m n s hs
  refine ⟨s', hs' ▸ ?_, hready⟩
  have hresolve : Lower.resolve "p" s = .ok ⟨"p", .object "demo.Point", .reference, 0, 1⟩ s :=
    Lower.resolve_ok.2 ⟨hs.locals ▸ rfl, rfl⟩
  simp only [lowerBody, paintFunction, lowerBlock, lowerStmt, lowerCall, callAny, callObject,
    lowerArgs, bind_assoc]
  refine (bind_of_ok hresolve).trans ?_
  simp only [pushPlainArguments, DataType.className?, bind_assoc, pure_bind]
  rfl

theorem slash_point : ("demo.Point".map fun c => if c = '.' then '/' else c) = "demo/Point" := by
  rw [← String.toList_inj, String.toList_map]
  decide

theorem descriptor_paint : paintFunction.descriptor = "(Ldemo/Point;)V" := by
  have hpoint : Descriptor.ofType (.object "demo.Point") = "Ldemo/Point;" := by
    rw [Descriptor.ofType, slash_point]
    decide
  show Descriptor.ofMethod [.object "demo.Point"] .void = _
  rw [Descriptor.ofMethod, List.map_singleton, hpoint]
  decide

theorem origins_paint :
    paint.origins [] paintFunction = [.received "p" (.object "demo.Point") "draw" "()V"] := by
  have hlocals : paintFunction.locals? = .ok paintLocals := by
    have hstart : Locals.ofFunction paintFunction paintFunction.reservedSlots = .ok paintLocals :=
      rfl
    rw [FunDef.locals?, hstart]
    simp [paintFunction, Locals.afterBlock, Locals.afterStmt, bind, Except.bind, pure, Except.pure]
  have htype : paintFunction.typeOf? "p" = some (.object "demo.Point") := by
    rw [FunDef.typeOf?, hlocals]
    rfl
  have hdescriptor : Descriptor.ofMethod [] .void = "()V" := by decide
  have hcall : (paint.referents [] paintFunction).call (some "p") "draw" [] .void =
      [.received "p" (.object "demo.Point") "draw" "()V"] := by
    simp [Referents.call, Program.referents, htype, hdescriptor]
  have hpasses : Stmt.terminates (.call (some "p") "draw" [] .void) = false := rfl
  show Stmt.blockOrigins _ [.call (some "p") "draw" [] .void] = _
  simp [Stmt.blockOrigins, hpasses, Stmt.origins, Expr.argOrigins, hcall]

/-- The method of `paint` takes a point by the descriptor `Ldemo/Point;` and calls a method of the
class `demo.Point` on it. -/
theorem mentions_of_compile_paint : ∃ c, (compileProgram {} [] paint).result = .ok c ∧
    paintFunction.descriptor = "(Ldemo/Point;)V" ∧
    ∃ m ∈ c.methods, c.pool.text? m.name = some "paint" ∧
      m.mentions c.pool = [.calls .virtual ⟨"demo.Point", "draw", "()V"⟩] ∧
      Origin.mentionsOf DataType.describedClass? (paint.origins [] paintFunction) =
        [.calls .virtual ⟨"demo/Point", "draw", "()V"⟩] := by
  have htexts : ShortText paint.name ∧ ShortText ({} : Options).superClass ∧
      paintFunction.ShortTexts := by
    rw [FunDef.ShortTexts, descriptor_paint]
    unfold ShortText
    decide
  have hsingle : paint.Single {} paintFunction 6 :=
    ⟨rfl, htexts.1, htexts.2.1, htexts.2.2, by decide⟩
  obtain ⟨c, hc⟩ := hsingle.compiles paintFunction_lowers
  obtain ⟨constructors, functions, hmethods, -, hfunctions⟩ := mentions_of_compile (by simp) hc
  obtain ⟨m, hm, hname, hmentions, -⟩ :=
    forall₂_left hfunctions (a := paintFunction) (by simp [paint])
  rw [origins_paint] at hmentions
  refine ⟨c, hc, descriptor_paint, m, ?_, hname, hmentions, ?_⟩
  · rw [hmethods]
    exact List.mem_append_right _ hm
  · have hpoint : (DataType.object "demo.Point").describedClass? = some "demo/Point" :=
      (DataType.describedClass?_eq rfl).trans (congrArg some slash_point)
    simp [origins_paint, Origin.mentionsOf, Origin.mentions, hpoint]

end ClassFoundry
