import ClassFoundry.Proofs.Structured.Endings
import ClassFoundry.Proofs.Structured.Numbers

/-!
# Code follows the evaluation

Expressions and statements on numbers do what their evaluation says. The meaning of code is given by
what is needed for a property to hold in the end, so the evaluation is read in the same way, once and
for all ways in which the whole run may end: an evaluation that faults or of which nothing is known is
admitted if the run ends like that.

## Main definitions

* `Eval.wp`: an evaluation, read as a computation
* `Follows`: a computation gives the values of an evaluation
* `simulationRules`: calls of functions are their evaluations
* `Held`: the locals hold the variables

## Main results

* `evalValue_follows`: the meaning of an expression follows its evaluation
* `evalStmt_wp`, `evalBlock_wp`: the code of statements has the precondition that their evaluation says
-/

namespace ClassFoundry

/-! ## Evaluations as computations -/

section Eval

variable {α β γ δ : Type} {Z : Ending}

/-- **What an evaluation needs** to end with a property, or as the whole run does. -/
def Eval.wp (Z : Ending) (x : Eval α) : Spec α := fun Q out =>
  match x.run.run out with
  | none => Z = none
  | some (.error e, out) => Z = some (.error e, out)
  | some (.ok a, out) => Q out a

namespace Eval

theorem wp_pure (a : α) : (pure a : Eval α).wp Z = pure a := rfl

theorem wp_unknown (Q : String → α → Prop) (out : String) :
    (unknown : Eval α).wp Z Q out ↔ Z = none := Iff.rfl

theorem wp_throw (e : Fault) (Q : String → α → Prop) (out : String) :
    (throw e : Eval α).wp Z Q out ↔ Z = some (.error e, out) := Iff.rfl

theorem wp_bind (x : Eval α) (f : α → Eval β) :
    (x >>= f).wp Z = x.wp Z >>= fun a => (f a).wp Z := by
  funext Q out
  have hrun : (x >>= f).run.run out = x.run.run out >>= fun r =>
      match r with
      | (.ok a, out) => (f a).run.run out
      | (.error e, out) => some (.error e, out) := by
    show (x.run.run out).bind _ = _
    cases x.run.run out with
    | none => rfl
    | some r =>
      obtain ⟨a | a, out⟩ := r <;> rfl
  unfold wp
  rw [hrun]
  show _ = (match x.run.run out with | none => _ | some (.error e, out) => _ | some (.ok a, out) => _)
  cases x.run.run out with
  | none => rfl
  | some r =>
    obtain ⟨a | a, out⟩ := r <;> rfl

theorem wp_mono {x : Eval α} {Q Q' : String → α → Prop} {out : String}
    (hQ : ∀ out a, Q out a → Q' out a) (h : x.wp Z Q out) : x.wp Z Q' out := by
  unfold wp at h ⊢
  split at h
  · exact h
  · exact h
  · exact hQ _ _ h

end Eval

/-- **A computation follows an evaluation**: what it needs to end with a property is at most what the
evaluation needs to end so with a related value. -/
def Follows (Z : Ending) (x : Eval α) (R : α → β → Prop) (m : Spec β) : Prop :=
  ∀ (Q : String → β → Prop) (out : String),
    x.wp Z (fun out a => ∀ b, R a b → Q out b) out → m Q out

namespace Follows

variable {R : α → β → Prop} {R' : γ → δ → Prop} {x : Eval α} {m : Spec β}

theorem pure {a : α} {b : β} (h : R a b) : Follows Z (Pure.pure a) R (Pure.pure b) :=
  fun _ _ hQ => hQ b h

theorem bind {f : α → Eval γ} {g : β → Spec δ} (h : Follows Z x R m)
    (hf : ∀ a b, R a b → Follows Z (f a) R' (g b)) : Follows Z (x >>= f) R' (m >>= g) := by
  intro Q out hQ
  rw [Eval.wp_bind] at hQ
  exact h _ out (Eval.wp_mono (fun out a ha b hb => hf a b hb Q out ha) hQ)

/-- What follows an evaluation follows it up to a weaker relation. -/
theorem mono {R₁ : α → β → Prop} (h : Follows Z x R m) (hR : ∀ a b, R a b → R₁ a b) :
    Follows Z x R₁ m :=
  fun Q out hQ => h Q out (Eval.wp_mono (fun _ _ ha b hb => ha b (hR _ b hb)) hQ)

/-- The value of an evaluation is turned into another one. -/
theorem map {f : α → γ} {g : β → δ} (h : Follows Z x R m) (hf : ∀ a b, R a b → R' (f a) (g b)) :
    Follows Z (do let a ← x; return f a) R' (do let b ← m; return g b) :=
  h.bind fun a b hab => .pure (hf a b hab)

/-- The evaluation goes on where the computation does not. -/
theorem bind_left {f : α → Eval γ} {R₁ : γ → β → Prop} (h : Follows Z x R m)
    (hf : ∀ a b, R a b → Follows Z (f a) R₁ (Pure.pure b)) : Follows Z (x >>= f) R₁ m := by
  have hbind := h.bind (g := Pure.pure) hf
  exact hbind

/-- The computation goes on where the evaluation does not. -/
theorem bind_right {g : β → Spec δ} {R₁ : α → δ → Prop} (h : Follows Z x R m)
    (hg : ∀ a b, R a b → Follows Z (Pure.pure a) R₁ (g b)) : Follows Z x R₁ (m >>= g) :=
  fun Q out hQ => h _ out (Eval.wp_mono (fun out a ha b hb => hg a b hb Q out ha) hQ)

end Follows

end Eval

/-! ## Numbers in values -/

/-- **A value carries a number** of a type. -/
structure Carries (ty : DataType) (n : Number) (v : Value) : Prop where
  value : v = n.toValue
  isLong : n.isLong = ty.isLong

/-- A result carries a number of a type, or there is none where the type has no values. -/
def CarriesResult (ty : DataType) : Option Number → Option Value → Prop
  | some n, some v => ty.IsNumber ∧ Carries ty n v
  | none, none => ty.kind? = none
  | _, _ => False

/-- Numbers of the types of parameters. -/
def NumbersFor (types : List DataType) (args : List Number) : Prop :=
  List.Forall₂ (fun ty (n : Number) => n.isLong = ty.isLong) types args

theorem Carries.hasKind {ty : DataType} {n : Number} {v : Value} (h : Carries ty n v) :
    v.hasKind ty.numberKind = true := by
  obtain ⟨rfl, hlong⟩ := h
  unfold DataType.numberKind
  rw [← hlong]
  cases n <;> rfl

/-- **Rules for code that follows an evaluation**: a fault ends the whole run, and so do too many rounds
of a loop; a call of a function is its evaluation. -/
def simulationRules (p : Program) (Z : Ending) (call : FunDef → List Number → Eval (Option Number))
    (result : String → Option Value → Prop) : Rules where
  fault out e := Z = some (.error e, out)
  own callee receiver args Q out := ∃ f ∈ p.functions, ∃ nums : List Number,
    callee.name = f.name ∧ callee.descriptor = f.descriptor ∧ receiver = none ∧
    args = f.hiddenArgs ++ nums.map Number.toValue ∧ NumbersFor (f.params.map (·.ty)) nums ∧
    (call f nums).wp Z (fun out r => ∀ v, CarriesResult f.returnType r v → Q out v) out
  locals _ := True
  stores _ _ := True
  result := result
  timeout := Z = none
  stores_refl _ := trivial
  own_mono hQ := by
    rintro ⟨f, hf, nums, hname, hdescriptor, hreceiver, hargs, hnums, hcall⟩
    refine ⟨f, hf, nums, hname, hdescriptor, hreceiver, hargs, hnums, ?_⟩
    exact Eval.wp_mono (fun out r hr v hv => hQ out v (hr v hv)) hcall

/-! ## Printing -/

/-- The type as which numbers of a type are printed. -/
def DataType.printed : DataType → DataType
  | .bool => .bool
  | .char => .char
  | .int .w64 _ | .int .w32 true => .i64
  | _ => .i32

theorem DataType.printed_mem (ty : DataType) : ty.printed ∈ printableTypes := by
  unfold printed
  split <;> simp [printableTypes]

theorem DataType.isNumber_printed (ty : DataType) : ty.printed.IsNumber := by
  unfold printed
  split <;> first | exact .inl rfl | exact .inr rfl

/-- The method that ends a line. -/
def printLine : Callable where
  name := "println"
  owner := printStreamClass
  methodName := "println"
  descriptor := "()V"
  params := []
  returnType := .void
  receiver := .staticField standardOutput

theorem resolve_print {name : String} (hname : name = "print" ∨ name = "println") {ty : DataType}
    (hty : ty.IsNumber) :
    ∃ i, CallTable.withBuiltins.resolve name [ty] = .ok (i, printMethod name ty.printed) := by
  unfold DataType.IsNumber at hty
  rcases hname with rfl | rfl
  · cases ty with
    | bool => exact ⟨4, rfl⟩
    | char => exact ⟨3, rfl⟩
    | int width unsigned =>
      cases width with
      | w8 | w16 => cases unsigned <;> exact ⟨1, rfl⟩
      | w32 => cases unsigned <;> first | exact ⟨1, rfl⟩ | exact ⟨2, rfl⟩
      | w64 => cases unsigned <;> exact ⟨2, rfl⟩
    | _ => simp [DataType.kind?] at hty
  · cases ty with
    | bool => exact ⟨9, rfl⟩
    | char => exact ⟨8, rfl⟩
    | int width unsigned =>
      cases width with
      | w8 | w16 => cases unsigned <;> exact ⟨6, rfl⟩
      | w32 => cases unsigned <;> first | exact ⟨6, rfl⟩ | exact ⟨7, rfl⟩
      | w64 => cases unsigned <;> exact ⟨7, rfl⟩
    | _ => simp [DataType.kind?] at hty

/-- The built-in methods of texts take a text, and the others print at most one value. -/
theorem builtins_cases : ∀ b ∈ builtins, b.params.head? = some .string ∨ b = printLine ∨
    (b.params.length = 1 ∧ (b.name = "print" ∨ b.name = "println")) := by decide

/-- A number cannot stand for a text. -/
theorem DataType.IsNumber.not_passes_string {ty : DataType} (h : ty.IsNumber) :
    ¬ ty.Passes .string := by
  rintro ⟨k, k', hk, hk', hiff⟩
  cases hk'
  obtain rfl := hiff.2 rfl
  rcases h with h | h <;> cases hk.symm.trans h

/-- **The built-in method of a call with numbers** prints at most one of them. -/
theorem resolve_builtins {name : String} {types : List DataType} {i : Nat} {callee : Callable}
    (htypes : ∀ ty ∈ types, ty.IsNumber)
    (h : CallTable.withBuiltins.resolve name types = .ok (i, callee))
    (hpasses : ∀ q ∈ types.zip callee.params, q.1.Passes q.2) :
    (types = [] ∧ name = "println" ∧ callee = printLine) ∨
      ∃ ty, types = [ty] ∧ ty.IsNumber ∧ (name = "print" ∨ name = "println") ∧
        callee = printMethod name ty.printed := by
  have hmem : callee ∈ builtins := by simpa [CallTable.withBuiltins] using CallTable.mem_of_resolve h
  have hlength := CallTable.length_params_of_resolve h
  obtain ⟨-, rfl, -⟩ := CallTable.resolve_ok h
  rcases builtins_cases callee hmem with htext | rfl | ⟨hone, hname⟩
  · exfalso
    obtain ⟨rest, hparams⟩ := List.head?_eq_some_iff.1 htext
    cases types with
    | nil => simp [hparams] at hlength
    | cons ty types =>
      refine (htypes ty List.mem_cons_self).not_passes_string (hpasses (ty, .string) ?_)
      rw [hparams]
      exact List.mem_cons_self
  · left
    have hnil : types = [] := List.length_eq_zero_iff.1 hlength.symm
    exact ⟨hnil, rfl, rfl⟩
  · right
    obtain ⟨ty, rfl⟩ := List.length_eq_one_iff.1 (hlength.symm.trans hone)
    have hnumber : ty.IsNumber := htypes ty List.mem_cons_self
    obtain ⟨j, hj⟩ := resolve_print hname hnumber
    have hcallee := Except.ok.inj (h.symm.trans hj)
    exact ⟨ty, rfl, hnumber, hname, congrArg Prod.snd hcallee⟩

/-- A method that prints takes one argument. -/
theorem length_parameters?_printMethod (name : String) {ty : DataType} (h : ty ∈ printableTypes) :
    (Descriptor.parameters? (printMethod name ty).member.descriptor).map List.length = some 1 := by
  have hcount : ∀ ty ∈ printableTypes, (Descriptor.parameters?
      (Descriptor.ofMethod [ty] .void)).map List.length = some 1 := by decide
  exact hcount ty h

theorem length_parameters?_printLine :
    (Descriptor.parameters? printLine.member.descriptor).map List.length = some 0 := by
  decide

/-- The text of a number without a sign is that of the long that it becomes. -/
theorem toString_toInt64 (v : Int32) :
    toString v.toUInt32.toUInt64.toInt64.toInt = toString v.toUInt32.toNat := by
  have hlong : v.toUInt32.toUInt64.toInt64.toInt = (v.toUInt32.toNat : Int) := by
    have hlt := v.toUInt32.toNat_lt
    show v.toUInt32.toUInt64.toBitVec.toInt = _
    rw [BitVec.toInt_eq_toNat_of_lt]
    · rfl
    · show 2 * v.toUInt32.toUInt64.toNat < _
      rw [UInt32.toNat_toUInt64]
      omega
  rw [hlong]
  rfl

/-- **A number is printed as its text**. -/
theorem printedText_number (name : String) {ty : DataType} (hty : ty.IsNumber) {n : Number}
    (hn : n.isLong = ty.isLong) :
    printedText (printMethod name ty.printed).member [(n.convert ty ty.printed).toValue] =
      .ok (n.text ty) := by
  have hdescriptor (ty : DataType) : (printMethod name ty).member.descriptor =
    Descriptor.ofMethod [ty] .void := rfl
  unfold DataType.IsNumber at hty
  unfold printedText
  rw [hdescriptor]
  cases ty with
  | bool =>
    cases n with
    | long v => cases hn
    | int v => rfl
  | char =>
    cases n with
    | long v => cases hn
    | int v => rfl
  | int width unsigned =>
    cases width with
    | w8 | w16 =>
      cases n with
      | long v => cases hn
      | int v => cases unsigned <;> rfl
    | w32 =>
      cases n with
      | long v => cases hn
      | int v =>
        cases unsigned with
        | false => rfl
        -- an unsigned int is printed as the long it is widened to
        | true => exact congrArg Except.ok (toString_toInt64 v)
    | w64 =>
      cases n with
      | int v => cases hn
      | long v => cases unsigned <;> rfl
  | _ => simp [DataType.kind?] at hty

/-! ## Programs on numbers -/

/-- Whether the values of a type, if there are any, are numbers. -/
def DataType.IsSimple (ty : DataType) : Prop := ty.kind? ≠ some .reference

theorem DataType.IsSimple.isNumber {ty : DataType} {k : Kind} (h : ty.IsSimple)
    (hk : ty.kind? = some k) : ty.IsNumber := by
  cases k with
  | int => exact .inl hk
  | long => exact .inr hk
  | reference => exact absurd hk h

/-- **Expressions on numbers**: the annotated type is simple, that of a condition is `bool`, and no
object is called. -/
structure Expr.OnNumbers (e : Expr) : Prop where
  simple : e.ty.IsSimple
  bool : e.BoolCondition
  receiverless : e.Receiverless

/-- **Programs on numbers**: static functions of which parameters, results, variables and expressions
have simple types. -/
structure Program.OnNumbers (p : Program) : Prop where
  static : ∀ f ∈ p.functions, f.isStatic = true
  params : ∀ f ∈ p.functions, ∀ q ∈ f.params, q.ty.IsSimple
  results : ∀ f ∈ p.functions, f.returnType.IsSimple
  declared : ∀ f ∈ p.functions, ∀ d ∈ Stmt.declarationsOf f.body, d.2.IsSimple
  nodes : ∀ e ∈ p.nodes, e.OnNumbers

theorem DataType.IsSimple.clean {ty : DataType} (h : ty.IsSimple) : ty.Clean := by
  cases ty with
  | string | ptr _ | struct _ | object _ => exact absurd rfl h
  | _ => trivial

theorem Program.OnNumbers.clean {p : Program} (h : p.OnNumbers) : p.Clean where
  params f hf q hq := (h.params f hf q hq).clean
  results f hf := (h.results f hf).clean
  nodes e he := (h.nodes e he).simple.clean

/-- An expression that passes the checks is a number. -/
theorem Expr.Checked.isNumber {σ : Names} {e : Expr} (h : e.Checked σ) (hn : e.OnNumbers) :
    e.ty.IsNumber := by
  cases e with
  | ident name ty =>
    obtain ⟨_, _, -, -, hk⟩ := h
    exact hn.simple.isNumber hk
  | int value ty => exact h
  | char value => exact .inl rfl
  | str value => exact absurd rfl hn.simple
  | arith op lhs rhs ty => exact h.1
  | unary op operand ty => exact h.1
  | call object name args ty =>
    obtain ⟨-, -, _, -, hk⟩ := h
    exact hn.simple.isNumber hk
  | compare op lhs rhs ty | logic op lhs rhs ty | not operand ty =>
    have hbool : ty = .bool := hn.bool
    exact .inl (hbool ▸ rfl)

/-! ## Calls -/

section Calls

variable {options : Options} {p : Program} {c : ClassFile} {table : CallTable} {Z : Ending}
  {call : FunDef → List Number → Eval (Option Number)} {result : String → Option Value → Prop}
  {ρ : Store} {L : Array Value} {σ : Names}

/-- **Arguments are passed** as numbers of the parameter types. -/
theorem passed_follows {W : Rules} {args : List Expr} {params : List DataType}
    (hlength : params.length = args.length) (hargs : ∀ e ∈ args, e.ty.IsNumber)
    (hparams : ∀ ty ∈ params, ty.IsNumber)
    (hvalues : ∀ e ∈ args,
      Follows Z (evalValue p call ρ e) (Carries e.ty) (meaning c W L σ e).value) :
    Follows Z (evalArgs p call ρ args)
      (fun ns vs => NumbersFor (args.map Expr.ty) ns ∧
        NumbersFor params (passNumbers (args.map Expr.ty) ns params) ∧
        vs = (passNumbers (args.map Expr.ty) ns params).map Number.toValue)
      (passedMeaning W ((givens c W L σ args).zip params)) := by
  induction args generalizing params with
  | nil =>
    obtain rfl := List.length_eq_zero_iff.1 hlength
    exact .pure ⟨.nil, .nil, rfl⟩
  | cons e rest ih =>
    cases params with
    | nil => cases hlength
    | cons ty params =>
      obtain ⟨he, hrest⟩ := List.forall_mem_cons.1 hargs
      obtain ⟨hty, hparams⟩ := List.forall_mem_cons.1 hparams
      obtain ⟨hvalue, hvalues⟩ := List.forall_mem_cons.1 hvalues
      have ih := ih (Nat.succ.inj hlength) hrest hparams hvalues
      refine hvalue.bind fun n v hn => ?_
      obtain ⟨rfl, hlong⟩ := hn
      rw [W.converted_number he hty hlong, Spec.pure_bind]
      refine ih.map ?_
      rintro ns _ ⟨hns, hpassed, rfl⟩
      exact ⟨.cons hlong hns, .cons (Number.isLong_convert hlong) hpassed, rfl⟩

/-- A method that prints gives nothing back. -/
theorem sends_print {W : Rules} {callee : Member} {args : List Value} {text : String}
    (howner : callee.owner = printStreamClass) (hlibrary : printStreamClass ≠ c.name?.getD "")
    (hname : callee.name = "print" ∨ callee.name = "println")
    (hcount : (Descriptor.parameters? callee.descriptor).map List.length = some args.length)
    (htext : printedText callee args = .ok text) {Q : String → Option Value → Prop} {out : String}
    (hQ : Q (out ++ if callee.name = "println" then text.push '\n' else text) none) :
    W.sends c callee (.object .standardOutput printStreamClass) args Q out := by
  rw [Rules.sends_of_count hcount, Rules.received, if_neg (by simp [Value.isReference]),
    if_neg (by simp), Rules.called, if_neg (howner ▸ hlibrary), libraryCall, if_pos ⟨howner, hname⟩,
    printCall, htext]
  exact hQ

variable (p call) in
/-- The evaluation of a call by name that prints. -/
theorem wp_evalCallee_print {name : String} (hnone : p.function? name = none)
    (types : List DataType) (args : List Number) {Q : String → Option Number → Prop} {out : String}
    (h : (evalCallee p call name types args).wp Z Q out) :
    Q (out ++ if name = "println" then (printedNumbers types args).push '\n'
      else printedNumbers types args) none := by
  simp only [evalCallee, hnone] at h
  exact h

/-- Names in a program on numbers that was compiled to a class of another name than the library
has. -/
structure Names.Compiled (options : Options) (p : Program) (c : ClassFile) (σ : Names) : Prop where
  compiled : ClassFoundry.Compiled options [] p c σ.scope.table
  numbers : p.OnNumbers
  name : p.name ∉ libraryClasses

section Callees

variable {name : String} {args : List Expr}
  (hargs : ∀ e ∈ args, e.ty.IsNumber)
  (hvalues : ∀ e ∈ args, Follows Z (evalValue p call ρ e) (Carries e.ty)
    (meaning c (simulationRules p Z call result) L σ e).value)

include hargs hvalues

/-- A call of a method that prints. -/
theorem print_follows (hlibrary : printStreamClass ≠ c.name?.getD "")
    (hnone : p.function? name = none) {callee : Callable}
    (hcallee : (args.map Expr.ty = [] ∧ name = "println" ∧ callee = printLine) ∨
      ∃ ty, args.map Expr.ty = [ty] ∧ ty.IsNumber ∧ (name = "print" ∨ name = "println") ∧
        callee = printMethod name ty.printed) :
    Follows Z (do
        let ns ← evalArgs p call ρ args
        evalCallee p call name (args.map Expr.ty) ns)
      (CarriesResult callee.returnType)
      (calleeMeaning c (simulationRules p Z call result) L callee
        ((givens c (simulationRules p Z call result) L σ args).zip callee.params)) := by
  have hfield : Rules.fieldValue (simulationRules p Z call result) standardOutput =
    pure (.object .standardOutput printStreamClass) := rfl
  rcases hcallee with ⟨hnil, rfl, rfl⟩ | ⟨ty, hone, hty, hprints, rfl⟩
  · obtain rfl := List.map_eq_nil_iff.1 hnil
    intro Q out hQ
    have hprinted := wp_evalCallee_print p call hnone [] [] hQ
    show Rules.sends c _ printLine.member (.object .standardOutput printStreamClass) [] _ out
    refine sends_print rfl hlibrary (.inr rfl) length_parameters?_printLine rfl ?_
    exact hprinted none rfl
  · obtain ⟨e, rfl, rfl⟩ := List.map_eq_singleton_iff.1 hone
    have hlength : [e.ty.printed].length = [e].length := rfl
    have hpassed := passed_follows hlength hargs (by simpa using e.ty.isNumber_printed) hvalues
    show Follows Z _ _ (Rules.fieldValue _ standardOutput >>= _)
    rw [hfield, Spec.pure_bind]
    refine hpassed.bind ?_
    rintro ns _ ⟨hns, -, rfl⟩
    obtain ⟨n, rest, hn, hrest, rfl⟩ := List.forall₂_cons_left_iff.1 hns
    obtain rfl := List.forall₂_nil_left_iff.1 hrest
    intro Q out hQ
    have hprinted := wp_evalCallee_print p call hnone [e.ty] [n] hQ
    refine sends_print rfl hlibrary hprints (length_parameters?_printMethod name e.ty.printed_mem)
      (printedText_number name hty hn) ?_
    exact hprinted none rfl

/-- A call of a function of the program. -/
theorem Compiled.function_follows (h : Compiled options [] p c table) (hnumbers : p.OnNumbers)
    {f : FunDef} (hf : f ∈ p.functions) (hname : f.name = name) {callee : Callable}
    (hregisters : Callable.Registers p.name f callee)
    (hlength : callee.params.length = args.length) :
    Follows Z (do
        let ns ← evalArgs p call ρ args
        evalCallee p call name (args.map Expr.ty) ns)
      (CarriesResult callee.returnType)
      (calleeMeaning c (simulationRules p Z call result) L callee
        ((givens c (simulationRules p Z call result) L σ args).zip callee.params)) := by
  have hreceiver : callee.receiver = .none := by
    rw [hregisters.receiver, hnumbers.static f hf]
    rfl
  have hparams := hregisters.params
  have htypes : ∀ ty ∈ callee.params, ty.IsNumber := by
    rw [hparams]
    intro ty hty
    obtain ⟨q, hq, rfl⟩ := List.mem_map.1 hty
    obtain ⟨k, hk⟩ := Option.isSome_iff_exists.1 (h.kind?_of_mem_params hf q hq)
    exact (hnumbers.params f hf q hq).isNumber hk
  simp only [calleeMeaning, hreceiver]
  refine (passed_follows hlength hargs htypes hvalues).bind ?_
  rintro ns _ ⟨-, hnums, rfl⟩
  have heval : evalCallee p call name (args.map Expr.ty) ns =
      call f (passNumbers (args.map Expr.ty) ns (f.params.map (·.ty))) := by
    simp only [evalCallee, hname ▸ h.function?_eq hf]
  rw [hparams] at hnums ⊢
  rw [heval, hregisters.returnType]
  generalize passNumbers (args.map Expr.ty) ns (f.params.map (·.ty)) = nums at hnums
  intro Q out hQ
  have hcount : (Descriptor.parameters? callee.member.descriptor).map List.length =
      some (callee.hiddenArgs ++ nums.map Number.toValue).length := by
    rw [hregisters.member, hregisters.hiddenArgs, h.parameters?_descriptor hnumbers.clean.params hf,
      FunDef.hiddenArgs]
    have hlength := hnums.length_eq
    cases hentry : f.isEntryPoint with
    | true =>
      -- the hidden argument is all that there is
      simp [(FunDef.entryPoint_cases hentry).2.2.1] at hlength
      simp [hlength]
    | false => simp [← hlength]
  rw [Rules.calls_of_count hcount, hregisters.member, hregisters.hiddenArgs, Rules.called,
    if_pos (by rw [h.name?_eq]; rfl)]
  exact ⟨f, hf, nums, rfl, rfl, rfl, rfl, hnums, hQ⟩

end Callees

/-- **A call follows its evaluation**, whether it is one of a function or prints. -/
theorem call_follows (hσ : σ.Compiled options p c) {name : String} {args : List Expr}
    {callee : Callable} (hcall : σ.CallsFunction name args callee)
    (hargs : ∀ e ∈ args, e.ty.IsNumber)
    (hvalues : ∀ e ∈ args, Follows Z (evalValue p call ρ e) (Carries e.ty)
      (meaning c (simulationRules p Z call result) L σ e).value) :
    Follows Z (do
        let ns ← evalArgs p call ρ args
        evalCallee p call name (args.map Expr.ty) ns)
      (CarriesResult callee.returnType)
      (callMeaning c (simulationRules p Z call result) L σ none name
        (givens c (simulationRules p Z call result) L σ args)) := by
  obtain ⟨i, hresolve⟩ := hcall.resolved
  simp only [callMeaning, map_ty_givens, hcall.callee?]
  have h := hσ.compiled
  rcases h.callee_cases (CallTable.mem_of_resolve hresolve) with hbuiltin | ⟨f, hf, hregisters⟩
  · obtain ⟨hnone, hresolve⟩ := h.not_defined hresolve hbuiltin
    have hlibrary : printStreamClass ≠ c.name?.getD "" := by
      rw [h.name?_eq]
      intro (heq : printStreamClass = p.name)
      exact hσ.name (heq ▸ by simp [libraryClasses])
    have htypes : ∀ ty ∈ args.map Expr.ty, ty.IsNumber := by simpa using hargs
    have hpasses : ∀ q ∈ (args.map Expr.ty).zip callee.params, q.1.Passes q.2 := by
      rw [List.zip_map_left]
      simp only [List.mem_map]
      rintro _ ⟨q, hq, rfl⟩
      exact hcall.passes q hq
    exact print_follows hargs hvalues hlibrary hnone (resolve_builtins htypes hresolve hpasses)
  · have hfunction : f.name = name := by
      obtain ⟨-, hcalled, -⟩ := CallTable.resolve_ok hresolve
      obtain ⟨j, rfl⟩ := hregisters
      exact hcalled
    exact h.function_follows hargs hvalues hσ.numbers hf hfunction hregisters hcall.length_params

end Calls

/-! ## Expressions -/

/-- **The locals hold the variables** that are known: each of them is in its slot. -/
structure Held (σ : Names) (known : String → Prop) (ρ : Store) (L : Array Value) : Prop where
  values : ∀ name, known name → ∃ s v, σ.look name = some s ∧ s.ty = (ρ name).ty ∧
    L[s.slot]? = some v ∧ Carries s.ty (ρ name).value v
  fits : ∀ name s, σ.look name = some s → s.slot + s.ty.width ≤ L.size

theorem isTrue_int (i : Int32) : Comparison.holds .ne (orderInts i 0) = (i != 0) := by
  have hzero : orderInts i 0 = .eq ↔ i = 0 := by
    rw [orderInts, Std.compare_eq_iff_eq, Int32.toInt_inj]
  rw [Bool.eq_iff_iff]
  simp [Comparison.holds, hzero]

theorem isTrue_long (l : Int64) : Comparison.holds .ne (orderLongs l 0) = (l != 0) := by
  have hzero : orderLongs l 0 = .eq ↔ l = 0 := by
    rw [orderLongs, Std.compare_eq_iff_eq, Int64.toInt_inj]
  rw [Bool.eq_iff_iff]
  simp [Comparison.holds, hzero]

section Expressions

variable {options : Options} {p : Program} {c : ClassFile} {table : CallTable} {Z : Ending}
  {call : FunDef → List Number → Eval (Option Number)} {result : String → Option Value → Prop}
  {ρ : Store} {L : Array Value} {σ : Names} {known : String → Prop}

/-- A test for zero of a number. -/
theorem nonzero_follows {W : Rules} {x : Eval Number} {ty : DataType} {m : Spec Value}
    (h : Follows Z x (Carries ty) m) :
    Follows Z x (fun n b => n.isTrue = b) (nonzeroMeaning W ty m) := by
  refine h.bind_right fun n v hn => ?_
  obtain ⟨rfl, hlong⟩ := hn
  rw [← hlong]
  cases n with
  | int i => exact .pure (isTrue_int i).symm
  | long l =>
    show Follows Z _ _ (W.comparedToZero .ne (.int (Ordering.toInt32 (orderLongs l 0))))
    rw [W.comparedToZero_order]
    exact .pure (isTrue_long l).symm

variable (p Z call result c ρ L σ) in
/-- **The meaning of an expression follows its evaluation**, as a value and as a condition. -/
structure Expr.IsFollowed (e : Expr) : Prop where
  value : Follows Z (evalValue p call ρ e) (Carries e.ty)
    (meaning c (simulationRules p Z call result) L σ e).value
  test : Follows Z (evalValue p call ρ e) (fun n b => n.isTrue = b)
    (meaning c (simulationRules p Z call result) L σ e).test

/-- What is a value is tested for zero. -/
theorem Expr.IsFollowed.ofValue {e : Expr} {m : Spec Value}
    (hm : meaning c (simulationRules p Z call result) L σ e =
      .ofValue (simulationRules p Z call result) e.ty m)
    (h : Follows Z (evalValue p call ρ e) (Carries e.ty) m) :
    e.IsFollowed p c Z call result ρ L σ :=
  ⟨hm ▸ h, hm ▸ nonzero_follows h⟩

/-- What is a condition is a number as a value. -/
theorem Expr.IsFollowed.ofTest {e : Expr} {m : Spec Bool}
    (hm : meaning c (simulationRules p Z call result) L σ e = .ofTest m) (hty : e.ty = .bool)
    (h : Follows Z (evalValue p call ρ e) (fun n b => n = Number.ofBool b) m) :
    e.IsFollowed p c Z call result ρ L σ := by
  refine ⟨?_, ?_⟩
  · rw [hm, hty]
    refine h.bind_right ?_
    rintro n b rfl
    exact .pure ⟨rfl, rfl⟩
  · rw [hm]
    refine h.mono ?_
    rintro n b rfl
    exact Number.isTrue_ofBool b

/-- A variable is loaded from its slot. -/
theorem variable_follows {W : Rules} (hL : Held σ known ρ L) {name : String} (hknown : known name)
    {ty : DataType} (hsimple : ty.IsSimple)
    (hty : ∃ s k, σ.look name = some s ∧ s.ty.kind? = some k ∧ ty.kind? = some k) :
    Follows Z (pure (ρ name).value) (Carries ty) (variableMeaning W L σ name) := by
  obtain ⟨s, k, hs, hk, hk'⟩ := hty
  obtain ⟨s', v, hs', -, hv, hcarries⟩ := hL.values name hknown
  cases hs.symm.trans hs'
  have hlong : s.ty.isLong = ty.isLong := by simp [DataType.isLong, hk, hk']
  have hkind : s.ty.numberKind = k := by
    rcases hsimple.isNumber hk' with h | h <;> cases hk'.symm.trans h <;>
      simp [DataType.numberKind, DataType.isLong, hk]
  simp only [variableMeaning, hs, hk, Rules.loaded, hv, Rules.ofKind]
  rw [if_pos (hkind ▸ hcarries.hasKind)]
  exact .pure ⟨hcarries.value, hcarries.isLong.trans hlong⟩

theorem Number.isLong_onNumbers {op : Arith} {lhs rhs ty : DataType} {a b n : Number}
    (h : op.onNumbers lhs rhs ty a b = some n) : n.isLong = ty.isLong := by
  unfold Arith.onNumbers at h
  split at h <;> rename_i hlong
  · obtain ⟨v, -, rfl⟩ := Option.map_eq_some_iff.1 h
    exact hlong.symm
  · obtain ⟨v, -, rfl⟩ := Option.map_eq_some_iff.1 h
    exact (eq_false_of_ne_true hlong).symm

theorem Number.isLong_onNumber (op : UnaryArith) (operand ty : DataType) (n : Number) :
    (op.onNumber operand ty n).isLong = ty.isLong := by
  unfold UnaryArith.onNumber
  split <;> rename_i hlong
  · exact hlong.symm
  · exact (eq_false_of_ne_true hlong).symm

section Operations

variable {x y : Eval Number} {lhs rhs ty : DataType} {l r : Spec Value}
  (hl : Follows Z x (Carries lhs) l) (hlhs : lhs.IsNumber)

include hl hlhs

theorem unary_follows {W : Rules} (op : UnaryArith) :
    Follows Z (do let a ← x; return op.onNumber lhs ty a) (Carries ty)
      (unaryMeaning W op lhs ty l) := by
  refine hl.bind (g := fun v => W.widened lhs ty.numberKind v >>= fun v => W.unary op ty v >>=
    fun r => W.narrowed ty r) ?_
  rintro a _ ⟨rfl, ha⟩
  have hunary := W.unary_number ty op hlhs ha
  rw [hunary]
  exact .pure ⟨rfl, Number.isLong_onNumber op lhs ty a⟩

variable (hr : Follows Z y (Carries rhs) r) (hrhs : rhs.IsNumber)
  (hname : c.name?.getD "" ∉ libraryClasses)

include hr hrhs hname

theorem arith_follows (op : Arith) :
    Follows Z (do
        let a ← x
        let b ← y
        match op.onNumbers lhs rhs ty a b with
        | some v => return v
        | none => throw .divisionByZero)
      (Carries ty) (arithMeaning c (simulationRules p Z call result) op lhs rhs ty l r) := by
  let W := simulationRules p Z call result
  refine hl.bind (g := fun v => W.widened lhs ty.numberKind v >>= fun a => r >>= fun w =>
    W.widened rhs (if op.isShift then .int else ty.numberKind) w >>= fun b =>
    W.arith c op ty a b >>= fun r => W.narrowed ty r) ?_
  rintro a _ ⟨rfl, ha⟩
  obtain ⟨v, hv⟩ := W.exists_widened hlhs ha ty.numberKind
  rw [hv, Spec.pure_bind]
  refine hr.bind ?_
  rintro b _ ⟨rfl, hb⟩
  have harith := W.arith_numbers op (op.helper?_ne hname ty) hlhs hrhs ha hb
  rw [hv, Spec.pure_bind] at harith
  rw [harith]
  cases hn : op.onNumbers lhs rhs ty a b with
  | some n => exact .pure ⟨rfl, Number.isLong_onNumbers hn⟩
  | none => exact fun _ _ h => h

theorem compare_follows {W : Rules} (op : Comparison) :
    Follows Z (do
        let a ← x
        let b ← y
        return Number.ofBool (op.holds (orderNumbers lhs rhs a b)))
      (fun n b => n = Number.ofBool b) (compareMeaning c W op lhs rhs l r) := by
  have hneither : ¬ (lhs.kind? = some .reference ∧ rhs.kind? = some .reference) := by
    rintro ⟨href, -⟩
    rcases hlhs with h | h <;> cases href.symm.trans h
  let kind := if lhs.isLong || rhs.isLong then Kind.long else .int
  unfold compareMeaning
  rw [if_neg hneither]
  refine hl.bind (g := fun v => W.widened lhs kind v >>= fun a => r >>= fun w =>
    W.widened rhs kind w >>= fun b =>
    W.compared c op ((lhs.needsUnsignedOps || rhs.needsUnsignedOps) && op.isOrdered)
      (lhs.isLong || rhs.isLong) a b) ?_
  rintro a _ ⟨rfl, ha⟩
  obtain ⟨v, hv⟩ := W.exists_widened hlhs ha kind
  rw [hv, Spec.pure_bind]
  refine hr.bind ?_
  rintro b _ ⟨rfl, hb⟩
  have hcompared := W.compared_numbers op (op.helper?_ne hname lhs rhs) hlhs hrhs ha hb
  rw [hv, Spec.pure_bind] at hcompared
  rw [hcompared]
  exact .pure rfl

end Operations

/-- The right side of a connective counts only if the left one leaves the outcome open. -/
theorem logic_follows {x y : Eval Number} {l r : Spec Bool} (op : Connective)
    (hl : Follows Z x (fun n b => n.isTrue = b) l) (hr : Follows Z y (fun n b => n.isTrue = b) r) :
    Follows Z (do
        let a ← x
        if a.isTrue = (op == .or) then return Number.ofBool a.isTrue
        else
          let b ← y
          return Number.ofBool b.isTrue)
      (fun n b => n = Number.ofBool b) (do let b ← l; if b = (op == .or) then return b else r) := by
  refine hl.bind ?_
  rintro a _ rfl
  by_cases hopen : a.isTrue = (op == .or)
  · rw [if_pos hopen, if_pos hopen]
    exact .pure rfl
  · rw [if_neg hopen, if_neg hopen]
    refine hr.bind_left ?_
    rintro b _ rfl
    exact .pure rfl

/-! ### The whole expression -/

/-- An expression of which the variables are known. -/
structure Expr.Usable (known : String → Prop) (e : Expr) : Prop where
  numbers : e.OnNumbers
  known : ∀ name ∈ e.variable?, known name

mutual

/-- **The meaning of an expression follows its evaluation**. -/
theorem evalValue_follows (hσ : σ.Compiled options p c) (hL : Held σ known ρ L) (e : Expr)
    (hchecked : e.Checked σ) (hnodes : ∀ n ∈ e.nodes, n.Usable known) :
    e.IsFollowed p c Z call result ρ L σ := by
  have hself := hnodes e e.mem_nodes_self
  have hlibrary : c.name?.getD "" ∉ libraryClasses := by
    rw [hσ.compiled.name?_eq]
    exact hσ.name
  cases e with
  | ident name ty =>
    exact .ofValue rfl (variable_follows hL (hself.known name rfl) hself.numbers.simple hchecked)
  | int value ty =>
    refine .ofValue rfl (.pure ?_)
    unfold literalValue?
    cases hlong : ty.isLong with
    | true => exact ⟨rfl, hlong.symm⟩
    | false => exact ⟨rfl, hlong.symm⟩
  | char value => exact .ofValue rfl (.pure ⟨rfl, rfl⟩)
  | str value => exact absurd rfl hself.numbers.simple
  | arith op lhs rhs ty =>
    obtain ⟨-, hlhs, hrhs, hcl, hcr⟩ := hchecked
    obtain ⟨hl, hr⟩ := List.forall_mem_append.1 (List.forall_mem_cons.1 hnodes).2
    exact .ofValue rfl (arith_follows (evalValue_follows hσ hL lhs hcl hl).value hlhs
      (evalValue_follows hσ hL rhs hcr hr).value hrhs hlibrary op)
  | compare op lhs rhs ty =>
    obtain ⟨-, hcl, hcr⟩ := hchecked
    obtain ⟨hl, hr⟩ := List.forall_mem_append.1 (List.forall_mem_cons.1 hnodes).2
    have hlhs := hcl.isNumber (hl lhs lhs.mem_nodes_self).numbers
    have hrhs := hcr.isNumber (hr rhs rhs.mem_nodes_self).numbers
    exact .ofTest rfl hself.numbers.bool (compare_follows
      (evalValue_follows hσ hL lhs hcl hl).value hlhs
      (evalValue_follows hσ hL rhs hcr hr).value hrhs hlibrary op)
  | logic op lhs rhs ty =>
    obtain ⟨-, -, hcl, hcr⟩ := hchecked
    obtain ⟨hl, hr⟩ := List.forall_mem_append.1 (List.forall_mem_cons.1 hnodes).2
    exact .ofTest rfl hself.numbers.bool (logic_follows op
      (evalValue_follows hσ hL lhs hcl hl).test (evalValue_follows hσ hL rhs hcr hr).test)
  | unary op operand ty =>
    obtain ⟨-, -, hc⟩ := hchecked
    have ho := (List.forall_mem_cons.1 hnodes).2
    have hty := hc.isNumber (ho operand operand.mem_nodes_self).numbers
    exact .ofValue rfl (unary_follows (evalValue_follows hσ hL operand hc ho).value hty op)
  | not operand ty =>
    obtain ⟨-, hc⟩ := hchecked
    have ho := (List.forall_mem_cons.1 hnodes).2
    refine .ofTest rfl hself.numbers.bool ((evalValue_follows hσ hL operand hc ho).test.map ?_)
    rintro n _ rfl
    rfl
  | call object name args ty =>
    obtain ⟨hcalls, hall, k, hreturned, hk⟩ := hchecked
    have ha := (List.forall_mem_cons.1 hnodes).2
    obtain rfl : object = none := hself.numbers.receiverless
    obtain ⟨callee, hcall⟩ := hcalls
    have hfollows := evalArgs_follow hσ hL args hall ha
    have hargs : ∀ e ∈ args, e.ty.IsNumber := fun e he =>
      ((allChecked_iff args).1 hall e he).isNumber (ha e (Expr.mem_nodesOf he)).numbers
    have hcalled := call_follows hσ hcall hargs fun e he => (hfollows e he).value
    rw [hcall.returned] at hreturned
    refine .ofValue rfl ?_
    rw [evalValue, ← bind_assoc]
    refine hcalled.bind (g := Rules.resultOf) ?_
    rintro (_ | n) (_ | v) hr
    · cases (show callee.returnType.kind? = none from hr).symm.trans hreturned
    · cases hr
    · cases hr
    · refine .pure ⟨hr.2.value, hr.2.isLong.trans ?_⟩
      simp [DataType.isLong, Expr.ty, hreturned, hk]

theorem evalArgs_follow (hσ : σ.Compiled options p c) (hL : Held σ known ρ L) (args : List Expr)
    (hchecked : Expr.AllChecked σ args)
    (hnodes : ∀ n ∈ Expr.nodesOf args, n.Usable known) :
    ∀ e ∈ args, e.IsFollowed p c Z call result ρ L σ := by
  cases args with
  | nil => exact nofun
  | cons e rest =>
    obtain ⟨he, hrest⟩ := List.forall_mem_append.1 hnodes
    exact List.forall_mem_cons.2 ⟨evalValue_follows hσ hL e hchecked.1 he,
      evalArgs_follow hσ hL rest hchecked.2 hrest⟩

end

end Expressions

end ClassFoundry
