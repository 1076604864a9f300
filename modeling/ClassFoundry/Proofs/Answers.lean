import ClassFoundry.Proofs.Preservation

/-!
# Functions with a known answer

A function that calls no other function answers what its code computes from the arguments, whatever
else the program is made of. To know the answer it is enough to know the meaning of the expressions in
the body, in locals that hold the arguments.

## Main definitions

* `Machine.callFunction`: a call of a function from outside
* `ClassFile.Answers`, `ClassFile.Prints`: all calls of a function with some arguments end alike, and
  print nothing or some text
* `Expr.decisions`: function bodies that return whether a condition holds

## Main results

* `Compiled.prints`, `Compiled.answers`: a function prints and answers what the precondition of its
  body says
* `Compiled.answers_return`, `Compiled.answers_decision`: functions that return an expression, and
  functions that return whether a condition holds
-/

namespace ClassFoundry

/-! ## Calls from outside -/

/-- A call of a function from outside: on a receiver, or by name if there is none. -/
def Machine.callFunction (m : Machine) (c : ClassFile) (f : FunDef) (this : Option Value)
    (args : List Value) : Except Fault (Option Value) × Machine :=
  match this with
  | none => m.invokeStatic c f.name args
  | some _ => m.invoke c f.name f.descriptor this args

/-- **A function answers in a way**: whatever the machine has done before, a call that may take enough
steps ends so and prints nothing. -/
def ClassFile.Answers (c : ClassFile) (f : FunDef) (this : Option Value) (args : List Value)
    (answer : Except Fault (Option Value)) : Prop :=
  ∀ m : Machine, ∃ N, ∀ limit, m.steps + N ≤ limit → ∃ m',
    (m.limitTo limit).callFunction c f this args = (answer, m') ∧ m'.output = m.output

/-- **A function prints a text and ends in a way**: whatever the machine has done before, a call that
may take enough steps ends so and adds the text to the output. -/
def ClassFile.Prints (c : ClassFile) (f : FunDef) (this : Option Value) (args : List Value)
    (text : String) (answer : Except Fault (Option Value)) : Prop :=
  ∀ m : Machine, ∃ N, ∀ limit, m.steps + N ≤ limit → ∃ m',
    (m.limitTo limit).callFunction c f this args = (answer, m') ∧ m'.output = m.output ++ text

/-- A function that prints no text answers. -/
theorem ClassFile.Prints.answers {c : ClassFile} {f : FunDef} {this : Option Value}
    {args : List Value} {answer : Except Fault (Option Value)} (h : c.Prints f this args "" answer) :
    c.Answers f this args answer := by
  intro m
  obtain ⟨N, hN⟩ := h m
  refine ⟨N, fun limit hlimit => ?_⟩
  obtain ⟨m', hcall, hout⟩ := hN limit hlimit
  exact ⟨m', hcall, hout.trans String.append_empty⟩

theorem ClassFile.Answers.unique {c : ClassFile} {f : FunDef} {this : Option Value}
    {args : List Value} {answer answer' : Except Fault (Option Value)}
    (h : c.Answers f this args answer) (h' : c.Answers f this args answer') : answer = answer' := by
  obtain ⟨N, hN⟩ := h {}
  obtain ⟨N', hN'⟩ := h' {}
  obtain ⟨m, hm, -⟩ := hN (N + N') (by show 0 + N ≤ N + N'; omega)
  obtain ⟨m', hm', -⟩ := hN' (N + N') (by show 0 + N' ≤ N + N'; omega)
  exact congrArg Prod.fst (hm.symm.trans hm')

/-- **Rules for code that calls no function**: the whole run ends in a way. A call of a method that the
class does not have ends it too. -/
def answerRules (c : ClassFile) (Z : Ending) : Rules where
  fault out e := Z = some (.error e, out)
  own callee _ _ _ out := c.find? callee.name callee.descriptor = none ∧
    Z = some (.error (.noSuchMethod callee.name callee.descriptor), out)
  locals _ := True
  stores _ _ := True
  result out r := Z = some (.ok r, out)
  timeout := Z = none
  stores_refl _ := trivial
  own_mono _ h := h

/-- The call of a method on two numbers that the class itself should have, but does not. -/
theorem libraryValue_missing {c : ClassFile} (callee : Member) (a b : Value)
    (hread : (Descriptor.parameters? callee.descriptor).map List.length = some 2)
    (howner : callee.owner = c.name?.getD "")
    (hmissing : c.find? callee.name callee.descriptor = none) (out : String)
    (Q : String → Value → Prop) :
    (answerRules c (some (.error (.noSuchMethod callee.name callee.descriptor), out))).libraryValue c
      callee a b Q out := by
  obtain ⟨params, hparams, hlength⟩ := Option.map_eq_some_iff.1 hread
  show Rules.reads _ callee [a, b] _ out
  unfold Rules.reads
  rw [hparams]
  refine ⟨hlength, ?_⟩
  show Rules.called c _ callee none [a, b] _ out
  rw [Rules.called, if_pos howner]
  exact ⟨hmissing, rfl⟩

/-- The call of a method of the standard output that the class itself should have, but does not. -/
theorem sends_missing {c : ClassFile} {callee : Member} {args : List Value}
    (hcount : (Descriptor.parameters? callee.descriptor).map List.length = some args.length)
    (howner : callee.owner = c.name?.getD "")
    (hmissing : c.find? callee.name callee.descriptor = none) (out : String)
    (Q : String → Option Value → Prop) :
    (answerRules c (some (.error (.noSuchMethod callee.name callee.descriptor), out))).sends c callee
      (.object .standardOutput printStreamClass) args Q out := by
  rw [Rules.sends_of_count hcount, Rules.received, if_neg (by simp [Value.isReference]),
    if_neg (by simp), Rules.called, if_pos howner]
  exact ⟨hmissing, rfl⟩

/-- A class has no methods but its constructor and the functions of the program. -/
theorem Compiled.find?_eq_none {options : Options} {imports : List Callable} {p : Program}
    {c : ClassFile} {table : CallTable} (h : Compiled options imports p c table)
    {name descriptor : String} (hconstructor : name ≠ "<init>")
    (hfunctions : ∀ g ∈ p.functions, g.name ≠ name) : c.find? name descriptor = none := by
  refine Option.eq_none_iff_forall_ne_some.2 fun m hm => ?_
  rcases h.find?_cases hm with ⟨hname, -⟩ | ⟨g, hg, hname, -⟩
  · exact absurd hname hconstructor
  · exact hfunctions g hg hname

/-- **Function bodies that return whether a condition holds**: the condition as a value, as that of a
conditional with or without an alternative, and as that of a loop. -/
def Expr.decisions (e : Expr) : List (List Stmt) :=
  let yes := Stmt.ret (some (.int 1 .bool))
  let no := Stmt.ret (some (.int 0 .bool))
  [[.ret (some e)], [.ifThen e [yes], no], [.ifElse e [yes] [no]], [.loop e [yes], no]]

section Answers

variable {options : Options} {imports : List Callable} {p : Program} {c : ClassFile} {table : CallTable}
  {f : FunDef} {this : Option Value} {values : List Value} {answer : Except Fault (Option Value)}

/-- **A function prints and answers what the precondition of its body says**. -/
theorem Compiled.prints (h : Compiled options imports p c table) (hf : f ∈ p.functions)
    (hthis : this.isSome = !f.isStatic)
    (hvalues : HaveKinds ((f.params.map (·.ty)).filterMap DataType.kind?) values) {text : String}
    (hbody : ∀ (l : Locals) (L : Array Value) (out : String), (l.names table f).BodyChecked →
      HoldsArguments l L f.params values →
      (selectBody (l.names table f)).wp c (answerRules c (some (answer, out ++ text))) 1 .free out L) :
    c.Prints f this (f.hiddenArgs ++ values) text answer := by
  intro m
  obtain ⟨method, hfind, hm⟩ := h.find?_function hf
  obtain ⟨start, final, a, hstart, -, hgrows, hchecked, hcode⟩ := hm.body
  let args := f.hiddenArgs ++ values
  let Z : Ending := some (answer, m.output ++ text)
  have hholds : HoldsArguments final (Frame.initialLocals method.maxLocals.toNat this args) f.params
      values := by
    have hholds := FunDef.holdsArguments hstart method.maxLocals.toNat hthis
      (FunDef.haveKinds_hiddenArgs hvalues)
    rw [FunDef.drop_hiddenArgs] at hholds
    refine hholds.imp ?_
    rintro q v ⟨s, hs, hrest⟩
    exact ⟨s, hgrows.find _ s hs, hrest⟩
  let site : Site := ⟨f.name, method.code, []⟩
  -- these rules allow no call of a function of the class, so one that is made finds no method
  have hclosed : site.Closed c (answerRules c Z) 1 fun n => Ends c Z (min n 0) := by
    refine closed_ends (fun hZ => absurd hZ (Option.some_ne_none _)) (fun hZ => hZ)
      (fun _ _ he => he) (fun _ _ hr => hr) ?_
    rintro callee receiver args Q m f j howner ⟨hnone, hZ⟩ - -
    rw [call, if_pos howner, hnone]
    exact hZ
  have hends : Ends c Z 0 ⟨m, .enter f.name method this args, []⟩ :=
    Flow.At.sound hclosed (n := 1) _ hcode.at trivial (hbody final _ m.output hchecked hholds)
      (fun hends => by simp [ends_selectBody] at hends) (fun _ h => by cases h)
      (fun _ h => by cases h) m rfl
  have hinvoke (m : Machine) : m.callFunction c f this args =
      run c (m.limit - m.steps) m (.enter f.name method this args) [] := by
    have hcall : m.invoke c f.name f.descriptor this args =
        run c (m.limit - m.steps) m (.enter f.name method this args) [] := by
      rw [Machine.invoke, hfind]
      simp [Machine.callMethod, hm.name]
    cases this with
    | some this => exact hcall
    | none => exact (h.invokeStatic_eq hf (by simpa using hthis) m args).trans hcall
  obtain ⟨N, hN⟩ := hends
  refine ⟨N, fun limit hlimit => ?_⟩
  obtain ⟨m', hrun, hout⟩ := hN (limit - m.steps) limit (by omega)
  exact ⟨m', (hinvoke _).trans hrun, hout⟩

/-- A function that prints nothing answers what the precondition of its body says. -/
theorem Compiled.answers (h : Compiled options imports p c table) (hf : f ∈ p.functions)
    (hthis : this.isSome = !f.isStatic)
    (hvalues : HaveKinds ((f.params.map (·.ty)).filterMap DataType.kind?) values)
    (hbody : ∀ (l : Locals) (L : Array Value) (out : String), (l.names table f).BodyChecked →
      HoldsArguments l L f.params values →
      (selectBody (l.names table f)).wp c (answerRules c (some (answer, out))) 1 .free out L) :
    c.Answers f this (f.hiddenArgs ++ values) answer := by
  refine (h.prints hf hthis hvalues fun l L out hchecked hholds => ?_).answers
  rw [String.append_empty]
  exact hbody l L out hchecked hholds

/-! ## Bodies -/

section Code

variable {W : Rules} {σ : Names} {L : Array Value} {e : Expr} {n : Nat} {E : Exits} {out : String}

/-- What is returned is the value of the expression, as one of the result type. -/
theorem ret_wp {ty : DataType} {kind : Kind} (hkind : ty.kind? = some kind)
    (h : (do
      let v ← (meaning c W L σ e).value
      W.converted e.ty ty v : Spec Value)
        (fun out v => v.hasKind kind = true ∧ W.result out (some v)) out) :
    (Flow.ret (selectAs σ e ty) ty.kind?).wp c W n E out L := by
  rw [hkind]
  refine selectAs_computes e ty _ _ out [] h ?_
  rintro out v ⟨hv, hresult⟩ f hstack
  have hpop : f.popKind kind = .ok (v, { f with stack := [] }) := by
    simp [Frame.popKind, hstack, hv, single]
  rw [hpop]
  exact hresult

/-- **A function that only calls a method without result** returns after the call. -/
theorem selectBody_call_wp {name : String} {args : List Expr} {ty : DataType}
    (hbody : σ.scope.function.body = [.call none name args ty])
    (hreturned : (σ.returned none name (args.map Expr.ty) ty).kind? = none)
    (h : callMeaning c W L σ none name (givens c W L σ args)
      (fun out r => r = none ∧ W.result out none) out) :
    (selectBody σ).wp c W n E out L := by
  simp only [selectBody, hbody, blockTerminates, Stmt.terminates, selectBlock, Bool.or_false,
    Bool.false_eq_true, if_false, selectStmt, hreturned]
  refine call_computes σ (selectArgs_computes σ args) none name ty _ _ out [] h ?_
  rintro out _ ⟨rfl, hresult⟩
  exact ⟨rfl, hresult⟩

/-- A condition that is known decides. -/
theorem cond_wp {b : Bool} (hb : (meaning c W L σ e).test = pure b) {Q : Bool → Post}
    (hQ : Q b out []) : (select σ e).cond.wp c W L Q out [] := by
  refine (select_computes σ e).2 (fun out' b' => out' = out ∧ b' = b) Q out [] ?_ ?_
  · rw [hb]
    exact ⟨rfl, rfl⟩
  · rintro out' b' ⟨rfl, rfl⟩
    exact hQ

section Decisions

variable (hreturn : σ.scope.function.returnType = .bool)

include hreturn

theorem ret_literal_wp {v : Int64} (h : W.result out (some (.int v.toInt32))) :
    (selectStmt σ (.ret (some (.int v .bool)))).wp c W n E out L := by
  show (Flow.ret (selectAs σ _ σ.scope.function.returnType) _).wp c W n E out L
  rw [hreturn]
  exact ret_wp rfl ⟨rfl, h⟩

/-- The body of a function that returns whether a condition holds does so, in whichever way. -/
theorem decision_wp (hbody : σ.scope.function.body ∈ e.decisions) (hty : e.ty = .bool) {b : Bool}
    (hmeaning : meaning c W L σ e = .ofTest (pure b))
    (hresult : W.result out (some (.int (if b then 1 else 0)))) :
    (selectBody σ).wp c W (n + 1) E out L := by
  have htest : (meaning c W L σ e).test = pure b := by rw [hmeaning]; rfl
  have hyes (hb : b = true) {E : Exits} :
      (selectStmt σ (.ret (some (.int 1 .bool)))).wp c W (n + 1) E out L :=
    ret_literal_wp hreturn (by rwa [hb] at hresult)
  have hno (hb : b = false) {E : Exits} :
      (selectStmt σ (.ret (some (.int 0 .bool)))).wp c W (n + 1) E out L :=
    ret_literal_wp hreturn (by rwa [hb] at hresult)
  simp only [Expr.decisions, List.mem_cons, List.not_mem_nil, or_false] at hbody
  -- as a value, in a conditional without and with an alternative, and in a loop
  rcases hbody with hbody | hbody | hbody | hbody
  all_goals
    simp only [selectBody, hbody, blockTerminates, Stmt.terminates, Bool.or_false, Bool.or_true,
      Bool.and_self, if_true, selectBlock, Bool.false_eq_true, if_false]
  · show (Flow.ret (selectAs σ e σ.scope.function.returnType) _).wp c W (n + 1) E out L
    rw [hreturn]
    apply ret_wp rfl
    rw [hmeaning, hty]
    exact ⟨rfl, hresult⟩
  · refine cond_wp htest ⟨rfl, ?_⟩
    cases b with
    | true => exact hyes rfl
    | false => exact hno rfl
  · refine cond_wp htest ⟨rfl, ?_⟩
    cases b with
    | true => exact hyes rfl
    | false => exact hno rfl
  · intro _
    refine cond_wp htest ⟨rfl, ?_⟩
    cases b with
    | true => exact hyes rfl
    | false => exact hno rfl

end Decisions

end Code

/-- The body of a function that returns an expression. -/
theorem selectBody_return {l : Locals} {e : Expr} (hbody : f.body = [.ret (some e)]) :
    selectBody (l.names table f) =
      Flow.ret (selectAs (l.names table f) e f.returnType) f.returnType.kind? := by
  simp [selectBody, Locals.names, hbody, blockTerminates, Stmt.terminates, selectBlock, selectStmt]

/-- A function with a result has no hidden argument. -/
theorem FunDef.hiddenArgs_of_result {kind : Kind} (hkind : f.returnType.kind? = some kind) :
    f.hiddenArgs = [] := by
  refine if_neg fun hentry => ?_
  rw [(FunDef.entryPoint_cases hentry).2.2.2] at hkind
  cases hkind

/-- A function with parameters has no hidden argument. -/
theorem FunDef.hiddenArgs_of_params (hparams : f.params ≠ []) : f.hiddenArgs = [] := by
  refine if_neg fun hentry => ?_
  exact hparams (FunDef.entryPoint_cases hentry).2.2.1

section Bodies

variable (h : Compiled options imports p c table) (hf : f ∈ p.functions)
  (hthis : this.isSome = !f.isStatic)
  (hvalues : HaveKinds ((f.params.map (·.ty)).filterMap DataType.kind?) values) {e : Expr}

include h hf hthis hvalues

/-- **A function that returns an expression** answers the value of the expression, or a division by
zero. -/
theorem Compiled.answers_return (hbody : f.body = [.ret (some e)]) (hty : e.ty = f.returnType)
    {kind : Kind} (hkind : f.returnType.kind? = some kind) {x : Option Value}
    (hx : ∀ v ∈ x, v.hasKind kind = true)
    (hvalue : ∀ (W : Rules) (l : Locals) (L : Array Value), HoldsArguments l L f.params values →
      (meaning c W L (l.names table f) e).value = W.divided x) :
    c.Answers f this values (x.elim (.error .divisionByZero) fun v => .ok (some v)) := by
  have hargs : f.hiddenArgs ++ values = values := by
    rw [FunDef.hiddenArgs_of_result hkind, List.nil_append]
  rw [← hargs]
  refine h.answers hf hthis hvalues fun l L out hchecked hholds => ?_
  rw [selectBody_return hbody]
  apply ret_wp hkind
  rw [hvalue _ l L hholds, hty]
  cases x with
  | none => exact rfl
  | some v =>
    show (Rules.converted _ _ _ _ : Spec Value) _ _
    rw [Rules.converted, if_pos rfl]
    exact ⟨hx v rfl, rfl⟩

/-- **A function that returns whether a condition holds** answers one or zero. -/
theorem Compiled.answers_decision (hbody : f.body ∈ e.decisions) (hty : e.ty = .bool)
    (hreturn : f.returnType = .bool) {b : Bool}
    (hmeaning : ∀ (W : Rules) (l : Locals) (L : Array Value), HoldsArguments l L f.params values →
      meaning c W L (l.names table f) e = .ofTest (pure b)) :
    c.Answers f this values (.ok (some (.int (if b then 1 else 0)))) := by
  have hkind : f.returnType.kind? = some .int := by rw [hreturn]; rfl
  have hargs : f.hiddenArgs ++ values = values := by
    rw [FunDef.hiddenArgs_of_result hkind, List.nil_append]
  rw [← hargs]
  refine h.answers hf hthis hvalues fun l L out _ hholds => ?_
  exact decision_wp hreturn hbody hty (hmeaning _ l L hholds) rfl

end Bodies

end Answers

end ClassFoundry
