import ClassFoundry.Proofs.Compilation
import ClassFoundry.Proofs.Scoping

/-!
# Imports that no call goes to

An import takes part in a compilation only through the calls that are resolved to it. If no call of a
program uses its name, or if a function of the program hides it, the program compiles to the same class
or fails with the same error as without it, wherever it stands among the other imports.

The two compilations run on call tables of which one has an entry more, so all positions behind it
differ. What is lowered depends on the callees alone and not on where they stand.

## Main definitions

* `CallTable.callee`: the callee of a call, whatever its position
* `CallTable.WithExtra`: tables of which one has an entry more
* `Blind`: work that cannot tell related tables apart
* `Program.Ignores`: names under which an import is not called

## Main results

* `CallTable.WithExtra.callee_eq`: where an additional import changes no callee
* `lower_congr`, `lowerFunction_congr`: code depends on the callees alone
* `compileProgram_insert`: imports that no call goes to change nothing
-/

namespace ClassFoundry

/-! ## Callees -/

namespace CallTable

/-- The callee among candidates for a call, in the order of the table. -/
def calleeAmong (name : String) (candidates : List Callable) (args : List DataType) :
    Except CompileError Callable :=
  if candidates.isEmpty then .error (.unresolved name)
  else
    match candidates.find? (·.defined) with
    | some c =>
      if c.accepts args then .ok c
      else .error (.violation (.argumentMismatch name args.length))
    | none =>
      match (candidates.find? (·.params == args)).or <|
          (candidates.find? (·.params == args.map DataType.widened)).or
            (candidates.find? (·.accepts args)) with
      | some c => .ok c
      | none => .error (.violation (.noOverload name))

/-- **The callee of a call**, whatever its position in the table. -/
def callee (t : CallTable) (name : String) (args : List DataType) : Except CompileError Callable :=
  calleeAmong name (t.entries.toList.filter (·.name == name)) args

theorem map_filter_zipIdx (l : List Callable) (name : String) :
    (l.zipIdx.filter (·.1.name == name)).map Prod.fst = l.filter (·.name == name) := by
  conv_rhs => rw [← List.zipIdx_map_fst 0 l, List.filter_map]
  rfl

/-- A call is resolved to its callee. -/
theorem map_resolve (t : CallTable) (name : String) (args : List DataType) :
    (t.resolve name args).map Prod.snd = t.callee name args := by
  unfold resolve callee calleeAmong
  rw [← map_filter_zipIdx]
  generalize t.entries.toList.zipIdx.filter (·.1.name == name) = candidates
  simp only [List.isEmpty_map, List.find?_map, Function.comp_def, ← Option.map_or]
  cases candidates.isEmpty with
  | true => rfl
  | false =>
    cases candidates.find? (·.1.defined) with
    | some found => by_cases haccepts : found.1.accepts args <;> simp [haccepts, Except.map]
    | none =>
      -- one of the three searches decides for both
      generalize (candidates.find? (·.1.params == args)).or _ = found
      cases found <;> rfl

/-- **Tables of which one has an entry more**, somewhere among the others. -/
def WithExtra (extra : Callable) (t t' : CallTable) : Prop :=
  ∃ front back, t.entries.toList = front ++ back ∧ t'.entries.toList = front ++ extra :: back

namespace WithExtra

variable {extra : Callable} {t t' : CallTable} (h : WithExtra extra t t')
include h

theorem add (c : Callable) : WithExtra extra (t.add c) (t'.add c) := by
  obtain ⟨front, back, ht, ht'⟩ := h
  exact ⟨front, back ++ [c], by simp [CallTable.add, ht], by simp [CallTable.add, ht']⟩

/-- A search that does not stop at the additional entry. -/
theorem find?_eq {p : Callable → Bool} (hextra : p extra = false) :
    t'.entries.find? p = t.entries.find? p := by
  obtain ⟨front, back, ht, ht'⟩ := h
  rw [← Array.find?_toList, ← Array.find?_toList, ht, ht', List.find?_append, List.find?_append,
    List.find?_cons_of_neg (by simp [hextra])]

/-- Both tables have a function of the class under a name, or neither has one. -/
theorem isSome_defined? (hextra : extra.defined = false) (name : String) :
    (t'.defined? name).isSome = (t.defined? name).isSome := by
  obtain ⟨front, back, ht, ht'⟩ := h
  unfold defined?
  rw [Array.findIdx?_isSome, Array.findIdx?_isSome, ← Array.any_toList, ← Array.any_toList, ht, ht',
    List.any_append, List.any_append, List.any_cons, hextra, Bool.false_and, Bool.false_or]

/-- **An entry of another name** changes no callee. -/
theorem callee_eq_of_ne {name : String} (hne : extra.name ≠ name) (args : List DataType) :
    t'.callee name args = t.callee name args := by
  obtain ⟨front, back, ht, ht'⟩ := h
  have hskipped : (extra :: back).filter (·.name == name) = back.filter (·.name == name) :=
    List.filter_cons_of_neg (by simpa using hne)
  unfold callee
  rw [ht, ht', List.filter_append, List.filter_append, hskipped]

/-- **An entry that a function of the class hides** changes no callee. -/
theorem callee_eq_of_hidden (hextra : extra.defined = false) {name : String} {c : Callable}
    (hc : c ∈ t.entries) (hdefined : c.defined = true) (hname : c.name = name)
    (args : List DataType) : t'.callee name args = t.callee name args := by
  by_cases hne : extra.name = name
  · obtain ⟨front, back, ht, ht'⟩ := h
    have hfound : ∃ c, (t.entries.toList.filter (·.name == name)).find? (·.defined) = some c := by
      rw [← Option.isSome_iff_exists, List.find?_isSome]
      exact ⟨c, List.mem_filter.2 ⟨Array.mem_toList_iff.2 hc, by simpa using hname⟩, hdefined⟩
    obtain ⟨found, hfound⟩ := hfound
    -- the search for a function of the class passes over the entry
    have hfound' : (t'.entries.toList.filter (·.name == name)).find? (·.defined) = some found := by
      rw [← hfound, ht, ht', List.filter_append, List.filter_append,
        List.filter_cons_of_pos (by simpa using hne), List.find?_append, List.find?_append,
        List.find?_cons_of_neg (by simp [hextra])]
    have hcandidates {l : List Callable} (hl : l.find? (·.defined) = some found) :
        l.isEmpty = false := by
      rw [List.isEmpty_eq_false_iff]
      exact List.ne_nil_of_mem (List.mem_of_find?_eq_some hl)
    unfold callee calleeAmong
    rw [hfound, hfound', hcandidates hfound, hcandidates hfound']
  · exact callee_eq_of_ne h hne args

end WithExtra

/-- The function of a name that the class defines. -/
theorem bind_defined? (t : CallTable) (name : String) :
    (t.defined? name).bind (t.entries[·]?) =
      t.entries.find? fun e => e.defined && e.name == name :=
  Array.find?_eq_bind_findIdx?_getElem?.symm

/-- Tables that have the same callees under a name. -/
def SameCallees (t t' : CallTable) (name : String) : Prop :=
  ∀ args, t'.callee name args = t.callee name args

end CallTable

/-! ## Code depends on the callees alone -/

/-- The function name of a call without an object. -/
def Expr.calledName? : Expr → Option String
  | .call none name _ _ => some name
  | _ => none

/-- **Names under which an import is not called**: those that no call without an object uses, and
those that functions of the program have. -/
def Program.Ignores (p : Program) (name : String) : Prop :=
  (∀ e ∈ p.nodes, e.calledName? ≠ some name) ∨ ∃ f ∈ p.functions, f.name = name

/-- Tables that have the same callees for the calls among some expressions. -/
def CallTable.SameCalls (t t' : CallTable) (nodes : List Expr) : Prop :=
  ∀ e ∈ nodes, ∀ name ∈ e.calledName?, t.SameCallees t' name

namespace CallTable.SameCalls

variable {t t' : CallTable} {nodes nodes' : List Expr}

theorem left (h : t.SameCalls t' (nodes ++ nodes')) : t.SameCalls t' nodes :=
  fun e he => h e (List.mem_append_left _ he)

theorem right (h : t.SameCalls t' (nodes ++ nodes')) : t.SameCalls t' nodes' :=
  fun e he => h e (List.mem_append_right _ he)

theorem tail {e : Expr} (h : t.SameCalls t' (e :: nodes)) : t.SameCalls t' nodes :=
  fun e he => h e (List.mem_cons_of_mem _ he)

end CallTable.SameCalls

section Congruence

variable {t t' : CallTable} (f : FunDef)

/-- A call is lowered by its callee, not by the position of the callee. -/
theorem callFunction_congr {name : String} (h : t.SameCallees t' name) (args : List Argument) :
    callFunction ⟨t', f⟩ name args = callFunction ⟨t, f⟩ name args := by
  have hsame := h (args.map (·.expr.ty))
  rw [← CallTable.map_resolve, ← CallTable.map_resolve] at hsame
  unfold callFunction
  dsimp only
  cases hr : t.resolve name (args.map (·.expr.ty)) with
  | error e =>
    cases hr' : t'.resolve name (args.map (·.expr.ty)) with
    | error e' =>
      rw [hr, hr'] at hsame
      cases hsame
      rfl
    | ok found =>
      rw [hr, hr'] at hsame
      cases hsame
  | ok found =>
    obtain ⟨i, callee⟩ := found
    cases hr' : t'.resolve name (args.map (·.expr.ty)) with
    | error e =>
      rw [hr, hr'] at hsame
      cases hsame
    | ok found' =>
      obtain ⟨i', callee'⟩ := found'
      rw [hr, hr'] at hsame
      cases hsame
      rfl

theorem callAny_congr {object : Option String} {name : String} {args : List Expr} {ty : DataType}
    (h : ∀ n ∈ (Expr.call object name args ty).calledName?, t.SameCallees t' n)
    (passed : List Argument) :
    callAny ⟨t', f⟩ object name passed ty = callAny ⟨t, f⟩ object name passed ty := by
  cases object with
  | some object => rfl
  | none => exact callFunction_congr f (h name rfl) passed

mutual

/-- **The code of an expression depends on the callees of its calls**. -/
theorem lower_congr (e : Expr) (h : t.SameCalls t' e.nodes) : lower ⟨t', f⟩ e = lower ⟨t, f⟩ e := by
  cases e with
  | ident name ty => rfl
  | int value ty => rfl
  | char c => rfl
  | str text => rfl
  | arith op lhs rhs ty =>
    simp only [lower, lower_congr lhs h.tail.left, lower_congr rhs h.tail.right]
  | compare op lhs rhs ty =>
    simp only [lower, lower_congr lhs h.tail.left, lower_congr rhs h.tail.right]
  | logic op lhs rhs ty =>
    simp only [lower, lower_congr lhs h.tail.left, lower_congr rhs h.tail.right]
  | unary op operand ty => simp only [lower, lower_congr operand h.tail]
  | not operand ty => simp only [lower, lower_congr operand h.tail]
  | call object name args ty =>
    have hcall := callAny_congr f (h _ List.mem_cons_self) (lowerArgs ⟨t, f⟩ args)
    simp only [lower, callValue, lowerArgs_congr args h.tail, hcall]

theorem lowerArgs_congr (args : List Expr) (h : t.SameCalls t' (Expr.nodesOf args)) :
    lowerArgs ⟨t', f⟩ args = lowerArgs ⟨t, f⟩ args := by
  cases args with
  | nil => rfl
  | cons e rest => simp only [lowerArgs, lower_congr e h.left, lowerArgs_congr rest h.right]

end

mutual

/-- The code of a statement depends on the callees of its calls. -/
theorem lowerStmt_congr (loop : Option LoopLabels) (s : Stmt) (h : t.SameCalls t' s.nodes) :
    lowerStmt ⟨t', f⟩ loop s = lowerStmt ⟨t, f⟩ loop s := by
  cases s with
  | declare name ty init =>
    cases init with
    | none => rfl
    | some e => simp only [lowerStmt, lowerDeclare, lower_congr f e h]
  | assign name value => simp only [lowerStmt, lowerAssign, lower_congr f value h]
  | ret value =>
    simp only [lowerStmt, lowerReturn]
    cases value with
    | none => cases f.returnType.kind? <;> rfl
    | some e =>
      cases f.returnType.kind? with
      | none => rfl
      | some kind => simp only [lower_congr f e h]
  | ifThen cond body =>
    simp only [lowerStmt, lower_congr f cond h.left, lowerBlock_congr loop body h.right]
  | ifElse cond body orElse =>
    simp only [lowerStmt, lower_congr f cond h.left, lowerBlock_congr loop body h.right.left,
      lowerBlock_congr loop orElse h.right.right]
  | loop cond body =>
    have hbody (loop : Option LoopLabels) := lowerBlock_congr loop body h.right
    simp only [lowerStmt, lower_congr f cond h.left, hbody]
  | «break» => rfl
  | «continue» => rfl
  | call object name args ty =>
    have hcall := callAny_congr f (h _ List.mem_cons_self) (lowerArgs ⟨t, f⟩ args)
    simp only [lowerStmt, lowerCall, lowerArgs_congr f args h.tail, hcall]

theorem lowerBlock_congr (loop : Option LoopLabels) (block : List Stmt)
    (h : t.SameCalls t' (Stmt.nodesOf block)) :
    lowerBlock ⟨t', f⟩ loop block = lowerBlock ⟨t, f⟩ loop block := by
  cases block with
  | nil => rfl
  | cons s rest =>
    simp only [lowerBlock, lowerStmt_congr loop s h.left, lowerBlock_congr loop rest h.right]

end

/-- **The code of a function depends on the callees of its calls**. -/
theorem lowerFunction_congr (h : t.SameCalls t' (Stmt.nodesOf f.body)) :
    lowerFunction ⟨t', f⟩ = lowerFunction ⟨t, f⟩ := by
  simp only [lowerFunction, lowerBody, lowerBlock_congr f none f.body h]

end Congruence

/-! ## Two compilations side by side -/

/-- Two runs that give the same and leave states that differ at most in their tables. The tables are
related if the runs succeed. -/
inductive SameRun (R : CallTable → CallTable → Prop) {α : Type} :
    EStateM.Result CompileError ClassState α → EStateM.Result CompileError ClassState α → Prop where
  | ok (a : α) (s : ClassState) (t : CallTable) (h : R s.table t) :
    SameRun R (.ok a s) (.ok a { s with table := t })
  | error (e : CompileError) (s : ClassState) (t : CallTable) :
    SameRun R (.error e s) (.error e { s with table := t })

/-- **Work that cannot tell related tables apart**: from tables related by `R` it leads to tables
related by `S`, and gives the same on both. -/
def Blind (R S : CallTable → CallTable → Prop) {α : Type} (x : ClassM α) : Prop :=
  ∀ s t, R s.table t → SameRun S (x s) (x { s with table := t })

namespace Blind

variable {α β : Type} {R S T : CallTable → CallTable → Prop}

theorem pure (a : α) : Blind R R (Pure.pure a : ClassM α) := fun s t h => .ok a s t h

theorem bind {x : ClassM α} {f : α → ClassM β} (hx : Blind R S x) (hf : ∀ a, Blind S T (f a)) :
    Blind R T (x >>= f) := by
  intro s t h
  have hrun := hx s t h
  show SameRun T (EStateM.bind x f s) (EStateM.bind x f { s with table := t })
  unfold EStateM.bind
  generalize x s = r, x { s with table := t } = r' at hrun
  cases hrun with
  | ok a s t h => exact hf a s t h
  | error e s t => exact .error e s t

/-- Looking at the state, of which the table is a part. -/
theorem get_bind {f : ClassState → ClassM β}
    (hf : ∀ s t, R s.table t → SameRun S (f s s) (f { s with table := t } { s with table := t })) :
    Blind R S (get >>= f) := hf

theorem modify {f : ClassState → ClassState} (htable : ∀ s, (f s).table = s.table)
    (hf : ∀ s t, f { s with table := t } = { f s with table := t }) :
    Blind R R (modify f : ClassM Unit) := by
  intro s t h
  show SameRun R (.ok () (f s)) (.ok () (f { s with table := t }))
  rw [hf s t]
  exact .ok () (f s) t ((htable s).symm ▸ h)

theorem pool (x : PoolM α) : Blind R R (ClassM.pool x) := by
  intro s t h
  unfold ClassM.pool
  dsimp only
  cases x s.pool with
  | ok a p => exact .ok a { s with pool := p } t h
  | error e p => exact .error (.pool e) { s with pool := p } t

theorem function (name : String) (locals : Locals) (x : Lower α) :
    Blind R R (ClassM.function name locals x) := by
  intro s t h
  unfold ClassM.function
  dsimp only
  cases x ⟨s.pool, locals, .start locals.maxLocals⟩ with
  | ok a s' => exact .ok a { s with pool := s'.pool, trace := s.trace ++ s'.asm.trace } t h
  | error e s' =>
    exact .error (e.inFunction name) { s with pool := s'.pool, trace := s.trace ++ s'.asm.trace } t

theorem forM {x : FunDef → ClassM Unit} (fs : List FunDef) (hx : ∀ f ∈ fs, Blind R R (x f)) :
    Blind R R (fs.forM x) := by
  induction fs with
  | nil => exact .pure ()
  | cons f fs ih =>
    obtain ⟨hf, hfs⟩ := List.forall_mem_cons.1 hx
    exact .bind hf fun _ => ih hfs

end Blind

/-- Tables of which one has an entry more and that both have some functions of the class. -/
def CallTable.Beside (extra : Callable) (registered : List FunDef) (t t' : CallTable) : Prop :=
  WithExtra extra t t' ∧
    ∀ f ∈ registered, ∃ c ∈ t.entries, c.defined = true ∧ c.name = f.name

section Passes

variable {extra : Callable}

/-- Both tables take a function, or neither does. -/
theorem registerFunction_blind (hextra : extra.defined = false) (owner : String)
    (registered : List FunDef) (f : FunDef) :
    Blind (CallTable.Beside extra registered) (CallTable.Beside extra (registered ++ [f]))
      (registerFunction owner f) := by
  refine .bind (.pool _) fun i => .get_bind fun s t h => ?_
  obtain ⟨hwith, hregistered⟩ := h
  unfold CallTable.register
  rw [hwith.isSome_defined? hextra]
  split
  · exact .error _ s t
  · refine .ok () { s with table := s.table.add _ } _ ⟨hwith.add _, fun g hg => ?_⟩
    rcases List.mem_append.1 hg with hg | hg
    · obtain ⟨e, he, hrest⟩ := hregistered g hg
      exact ⟨e, Array.mem_push_of_mem _ he, hrest⟩
    · obtain rfl := List.mem_singleton.1 hg
      exact ⟨_, Array.mem_push_self, rfl, rfl⟩

/-- **The first pass** leads to tables that both have the functions of the program. -/
theorem registerFunctions_blind (hextra : extra.defined = false) (owner : String)
    (registered fs : List FunDef) :
    Blind (CallTable.Beside extra registered) (CallTable.Beside extra (registered ++ fs))
      (fs.forM (registerFunction owner)) := by
  induction fs generalizing registered with
  | nil =>
    rw [List.append_nil]
    exact .pure ()
  | cons f fs ih =>
    rw [List.append_cons]
    exact .bind (registerFunction_blind hextra owner registered f) fun _ => ih _

theorem addMethod_blind {R : CallTable → CallTable → Prop} (attrName flags : UInt16)
    (name descriptor : String) (body : Finished) :
    Blind R R (addMethod attrName flags name descriptor body) :=
  .bind (.pool _) fun _ => .bind (.pool _) fun _ => .modify (fun _ => rfl) fun _ _ => rfl

theorem compileConstructor_blind {R : CallTable → CallTable → Prop} (options : Options)
    (attrName : UInt16) (p : Program) : Blind R R (compileConstructor options attrName p) := by
  unfold compileConstructor
  split
  · split
    · exact .modify (fun _ => rfl) fun _ _ => rfl
    · exact .bind (.pool _) fun _ => .bind (.function _ _ _) fun _ => addMethod_blind _ _ _ _ _
  · exact .pure ()

/-- An import that no call goes to changes no callee. -/
theorem CallTable.Beside.sameCalls {p : Program} (hextra : extra.defined = false)
    (hignores : p.Ignores extra.name) {t t' : CallTable}
    (h : CallTable.Beside extra p.functions t t') : t.SameCalls t' p.nodes := by
  intro e he name hname args
  rcases hignores with hunused | ⟨f, hf, hhidden⟩
  · refine h.1.callee_eq_of_ne (fun heq => hunused e he ?_) args
    rw [heq]
    exact hname
  · by_cases heq : extra.name = name
    · obtain ⟨c, hc, hdefined, hcname⟩ := h.2 f hf
      exact h.1.callee_eq_of_hidden hextra hc hdefined (hcname.trans (hhidden.trans heq)) args
    · exact h.1.callee_eq_of_ne heq args

/-- **The second pass** gives functions the same code. -/
theorem compileFunction_blind {p : Program} (hextra : extra.defined = false)
    (hignores : p.Ignores extra.name) (attrName : UInt16) {f : FunDef} (hf : f ∈ p.functions) :
    Blind (CallTable.Beside extra p.functions) (CallTable.Beside extra p.functions)
      (compileFunction attrName f) := by
  refine .get_bind fun s t h => ?_
  have hcode : lowerFunction ⟨t, f⟩ = lowerFunction ⟨s.table, f⟩ :=
    lowerFunction_congr f fun e he => h.sameCalls hextra hignores e (Program.mem_nodes hf he)
  dsimp only
  rw [CallTable.bind_defined?, CallTable.bind_defined?, h.1.find?_eq (by simp [hextra]), hcode]
  cases s.table.entries.find? fun e => e.defined && e.name == f.name with
  | none => exact .error _ s t
  | some callable =>
    cases Locals.ofFunction f f.reservedSlots with
    | error e => exact .error _ s t
    | ok locals =>
      exact Blind.bind (.function _ _ _) (fun _ => addMethod_blind _ _ _ _ _) s t h

/-- **A program is compiled alike** whether or not there is an import that no call goes to. -/
theorem compileClass_blind {p : Program} (hextra : extra.defined = false)
    (hignores : p.Ignores extra.name) (options : Options) :
    Blind (CallTable.WithExtra extra) (CallTable.Beside extra p.functions)
      (compileClass options p) := by
  have hstart : Blind (CallTable.WithExtra extra) (CallTable.Beside extra [])
      (Pure.pure () : ClassM Unit) := fun s t h => .ok () s t ⟨h, fun _ hf => by cases hf⟩
  refine .bind (.pool _) fun _ => .bind (.pool _) fun _ => .bind (.pool _) fun attrName =>
    .bind (.bind hstart fun _ => registerFunctions_blind hextra p.name [] p.functions) fun _ => ?_
  refine .bind (compileConstructor_blind options attrName p) fun _ =>
    .bind (.forM p.functions fun f hf => compileFunction_blind hextra hignores attrName hf) fun _ => ?_
  exact .get_bind fun s t h => .ok _ s t h

end Passes

theorem withExtra_importTable (front back : List Callable) (extra : Callable) :
    CallTable.WithExtra extra (importTable (front ++ back)) (importTable (front ++ extra :: back)) := by
  refine ⟨builtins ++ front, back, ?_, ?_⟩
  · rw [entries_importTable, List.append_assoc]
  · rw [entries_importTable, List.append_assoc]

/-- **Imports that no call goes to change nothing**: neither the class or the error, nor the warnings
and the trace, wherever they stand among the others. -/
theorem compileProgram_insert (options : Options) (front back : List Callable) {p : Program}
    {name : String} (hignores : p.Ignores name) (owner methodName descriptor : String)
    (params : List DataType) (returnType : DataType) (receiver : Receiver) :
    compileProgram options (front ++ .ofImport name owner methodName descriptor params returnType
      receiver :: back) p = compileProgram options (front ++ back) p := by
  let extra : Callable := .ofImport name owner methodName descriptor params returnType receiver
  have hextra : extra.defined = false := rfl
  have hruns := compileClass_blind hextra hignores options
    { pool := .withLimit options.poolLimit, table := importTable (front ++ back) } _
    (withExtra_importTable front back extra)
  unfold compileProgram
  dsimp only at hruns ⊢
  generalize compileClass options p
      { pool := .withLimit options.poolLimit, table := importTable (front ++ back) } = r,
    compileClass options p
      { pool := .withLimit options.poolLimit, table := importTable (front ++ extra :: back) } = r'
    at hruns
  cases hruns with
  | ok c s t h => rfl
  | error e s t => rfl

/-- `echo(x)` calls itself. -/
def echo : Program where
  name := "Echo"
  functions := [{
    name := "echo"
    params := [⟨"x", .i32⟩]
    returnType := .i32
    body := [.ret (some (.call none "echo" [.ident "x" .i32] .i32))] }]

/-- The call in `echo` does not go to an import, even if that takes exactly its argument. -/
theorem compileProgram_insert_echo :
    echo.Ignores "echo" ∧ (∃ e ∈ echo.nodes, e.calledName? = some "echo") ∧
      compileProgram {} [.ofImport "echo" "lib/Echo" "echo" "(I)I" [.i32] .i32 .none] echo =
        compileProgram {} [] echo := by
  have hignores : echo.Ignores "echo" := .inr ⟨_, List.mem_singleton.2 rfl, rfl⟩
  exact ⟨hignores, ⟨_, List.mem_cons_self, rfl⟩,
    compileProgram_insert {} [] [] hignores "lib/Echo" "echo" "(I)I" [.i32] .i32 .none⟩

end ClassFoundry
