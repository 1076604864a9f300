import ClassFoundry.Proofs.Calling
import ClassFoundry.Proofs.Discipline
import ClassFoundry.Proofs.Progress
import ClassFoundry.Proofs.Structured.Contracts
import ClassFoundry.Proofs.Structured.TypedSelection

/-!
# Type safety

A run of a compiled class never finds a value of another kind than it needs, too few values, a local
or a constant that is not there, an unknown instruction or the end of the code. It may end for other
reasons: a division by zero, a null reference, too many calls or steps, or a method that nobody has.

Unary operations on numbers do not look at the type of their operand, so it is asked that it is a
number. A variable has a value only behind its declaration, and names of classes must not upset the
reading of descriptors.

## Main definitions

* `Fault.isUnsafe`: the faults of code that is not typed
* `Method.Accepts`: arguments of the kinds that a descriptor asks for
* `safeContract`: what is asked of the methods of a typed class

## Main results

* `safe_of_compile`: runs of compiled classes do not end with such faults
-/

namespace ClassFoundry

/-- **The faults of code that is not typed**. -/
def Fault.isUnsafe : Fault → Bool
  | .stackUnderflow _ _ | .typeMismatch _ _ _ | .badLocal _ _ _ | .fellOffCode _ _
  | .unsupportedOpcode _ _ _ | .badConstant _ => true
  | _ => false

/-! ## Functions that are called -/

/-- The parameters of a function have values of their kinds, from a slot on. -/
def KindsAt (L : Array Value) : Nat → List Param → Prop
  | _, [] => True
  | n, q :: rest => (∀ k, q.ty.kind? = some k → ∃ v, L[n]? = some v ∧ v.hasKind k = true) ∧
      KindsAt L (n + q.ty.width) rest

/-- The locals of a function that has just been called: the receiver, if there is one, and the
parameters have values. -/
structure FunDef.Entered (f : FunDef) (L : Array Value) : Prop where
  receiver : f.isStatic = false → ∃ v, L[0]? = some v ∧ v.isReference = true
  params : KindsAt L f.reservedSlots f.params

/-- The kinds that callers of a function pass after the receiver. -/
def FunDef.argKinds (f : FunDef) : List Kind :=
  (if f.isEntryPoint then [.reference] else []) ++ (f.params.map (·.ty)).filterMap DataType.kind?

/-- What callers of a function pass without being told to. -/
def FunDef.hiddenArgs (f : FunDef) : List Value := if f.isEntryPoint then [.null] else []

theorem FunDef.haveKinds_hiddenArgs {f : FunDef} {vs : List Value}
    (h : HaveKinds ((f.params.map (·.ty)).filterMap DataType.kind?) vs) :
    HaveKinds f.argKinds (f.hiddenArgs ++ vs) := by
  unfold argKinds hiddenArgs
  split
  · exact .cons rfl h
  · exact h

theorem kindsAt_of_valuesAt {L : Array Value} {n : Nat} {params : List Param} {args : List Value}
    (h : ValuesAt L n args) (hsome : ∀ q ∈ params, q.ty.kind?.isSome)
    (hkinds : HaveKinds ((params.map (·.ty)).filterMap DataType.kind?) args) :
    KindsAt L n params := by
  induction params generalizing n args with
  | nil => trivial
  | cons q params ih =>
    obtain ⟨k, hk⟩ := Option.isSome_iff_exists.1 (hsome q List.mem_cons_self)
    simp only [List.map_cons, List.filterMap_cons, hk] at hkinds
    obtain ⟨v, rest, hv, hrest, rfl⟩ := List.forall₂_cons_left_iff.1 hkinds
    obtain ⟨hfirst, h⟩ := h
    refine ⟨fun k' hk' => ?_, ih ?_ (fun q hq => hsome q (List.mem_cons_of_mem _ hq)) hrest⟩
    · rw [hk] at hk'
      cases hk'
      exact ⟨v, hfirst, hv⟩
    · rwa [Value.length_slots hv, ← show q.ty.width = k.words by simp [DataType.width, hk]] at h

/-- A function that is called with a receiver exactly if it is not static finds what it needs. -/
theorem FunDef.entered {f : FunDef} {this : Option Value} {args : List Value} (n : Nat)
    (hsome : ∀ q ∈ f.params, q.ty.kind?.isSome)
    (hreceiver : if f.isStatic then this = none else ∃ v, this = some v ∧ v.isReference = true)
    (hargs : HaveKinds f.argKinds args) : f.Entered (Frame.initialLocals n this args) := by
  have hvalues := valuesAt_initialLocals n this args
  cases hstatic : f.isStatic with
  | false =>
    have hentry : f.isEntryPoint = false := by simp [isEntryPoint, hstatic]
    simp only [hstatic, Bool.false_eq_true, if_false] at hreceiver
    obtain ⟨v, rfl, hv⟩ := hreceiver
    refine ⟨fun _ => ⟨v, initialLocals_receiver n v args, hv⟩, ?_⟩
    have hreserved : f.reservedSlots = 1 := by simp [reservedSlots, hstatic]
    rw [hreserved]
    exact kindsAt_of_valuesAt hvalues hsome (by simpa [argKinds, hentry] using hargs)
  | true =>
    simp only [hstatic, if_true] at hreceiver
    subst hreceiver
    refine ⟨by simp [hstatic], ?_⟩
    cases hentry : f.isEntryPoint with
    | true =>
      rw [(FunDef.entryPoint_cases hentry).2.2.1]
      trivial
    | false =>
      have hreserved : f.reservedSlots = 0 := by simp [reservedSlots, hstatic, hentry]
      rw [hreserved]
      exact kindsAt_of_valuesAt hvalues hsome (by simpa [argKinds, hentry] using hargs)

theorem FunDef.length_argKinds (f : FunDef) (hsome : ∀ q ∈ f.params, q.ty.kind?.isSome) :
    (if f.isEntryPoint then ["[Ljava/lang/String;"]
      else (f.params.map (·.ty)).map Descriptor.ofType).length = f.argKinds.length := by
  have hlength : ((f.params.map (·.ty)).filterMap DataType.kind?).length = f.params.length := by
    rw [List.filterMap_length_eq_length.2, List.length_map]
    simpa using hsome
  cases he : f.isEntryPoint with
  | true => simp [argKinds, he, (FunDef.entryPoint_cases he).2.2.1]
  | false =>
    rw [argKinds, he, if_neg (by simp), if_neg (by simp), List.nil_append, hlength, List.length_map,
      List.length_map]

namespace Callable.Registers

variable {owner : String} {f : FunDef} {callee : Callable}

theorem member (h : Registers owner f callee) :
    callee.member = ⟨owner, f.name, f.descriptor⟩ := by
  obtain ⟨i, rfl⟩ := h
  rfl

theorem returnType (h : Registers owner f callee) : callee.returnType = f.returnType := by
  obtain ⟨i, rfl⟩ := h
  rfl

theorem params (h : Registers owner f callee) : callee.params = f.params.map (·.ty) := by
  obtain ⟨i, rfl⟩ := h
  rfl

theorem hiddenArgs (h : Registers owner f callee) : callee.hiddenArgs = f.hiddenArgs := by
  obtain ⟨i, rfl⟩ := h
  rfl

theorem receiver (h : Registers owner f callee) :
    callee.receiver = if f.isStatic then .none else .this := by
  obtain ⟨i, rfl⟩ := h
  rfl

theorem argKinds (h : Registers owner f callee) : callee.argKinds = f.argKinds := by
  have hreceiver : callee.receiver ≠ .firstArg := by
    rw [h.receiver]
    split <;> simp
  rw [Callable.argKinds, Callable.passed, if_neg hreceiver]
  obtain ⟨i, rfl⟩ := h
  rfl

/-- Callers of a function pass a receiver exactly if it is not static. -/
theorem receives (h : Registers owner f callee) {this : Option Value} :
    callee.mode.Receives this ↔
      if f.isStatic then this = none else ∃ v, this = some v ∧ v.isReference = true := by
  have hreceiver := h.receiver
  unfold Callable.mode
  cases hstatic : f.isStatic with
  | true =>
    rw [hstatic, if_pos rfl] at hreceiver
    rw [hreceiver]
    exact Iff.rfl
  | false =>
    rw [hstatic, if_neg (by simp)] at hreceiver
    rw [hreceiver]
    by_cases hprivate : AccessFlags.has callee.flags AccessFlags.priv <;>
      simp [hprivate, CallMode.Receives]

end Callable.Registers

/-- The variable of a parameter has a value. -/
theorem KindsAt.of_mem {L : Array Value} {l : Locals} {n : Nat} {params : List Param}
    (h : KindsAt L n params) (hplaced : l.Placed n params) {q : Param} (hq : q ∈ params)
    {s : Slot} {k : Kind} (hs : l.find? q.name = some s) (hk : s.ty.kind? = some k) :
    ∃ v, L[s.slot]? = some v ∧ v.hasKind k = true := by
  induction params generalizing n with
  | nil => cases hq
  | cons q' params ih =>
    obtain ⟨⟨storage, hfind⟩, -, hrest⟩ := hplaced
    rcases List.mem_cons.1 hq with rfl | hq
    · rw [hfind] at hs
      cases hs
      exact h.1 k hk
    · exact ih h.2 hrest hq

/-! ## The contract -/

/-- **What is asked of the methods of a typed class**: they find the values that they need, and return
values of the kinds that they should. -/
def safeContract (options : Options) (p : Program) (c : ClassFile) (table : CallTable) : Contract where
  entry name method this args :=
    (name = constructorName ∧ CompiledConstructor c.pool options.superClass method ∧
      (∀ f ∈ p.functions, f.name ≠ constructorName) ∧
      ∃ v, this = some v ∧ v.isReference = true) ∨
    ∃ f ∈ p.functions, f.name = name ∧ CompiledFunction c.pool table f method ∧
      f.Entered (Frame.initialLocals method.maxLocals.toNat this args)
  locals _ _ := True
  stores _ _ _ := True
  result name r :=
    (∀ f ∈ p.functions, f.name = name → HaveKinds f.returnType.kind?.toList r.toList) ∧
      ((∀ f ∈ p.functions, f.name ≠ name) → r = none)
  fault e := e.isUnsafe = false
  missing _ _ := rfl
  depth := rfl
  stores_refl _ _ := trivial

/-- The classes of the library that the machine knows. -/
def libraryClasses : List String :=
  [printStreamClass, Descriptor.stringClass, "java/lang/Integer", "java/lang/Long"]

theorem parameters?_constructor : Descriptor.parameters? constructorDescriptor = some [] := by
  decide

theorem returnWords?_constructor : Descriptor.returnWords? constructorDescriptor = some 0 := by
  decide

theorem DataType.kind?_eq_none_of_width {ty : DataType} (h : ty.width = 0) : ty.kind? = none := by
  unfold width at h
  split at h
  · rename_i k _
    cases k <;> cases h
  · assumption

section Contract

variable {options : Options} {p : Program} {c : ClassFile} {table : CallTable} {name : String}

/-- A call of a constructor without parameters, by whatever class. -/
theorem Compiled.safe_constructor (h : Compiled options [] p c table) (hclean : p.Clean)
    (cls : String) :
    KindCall c ((safeContract options p c table).rules c name) .special
      ⟨cls, "<init>", "()V"⟩ [] none := by
  refine kindCall_of_called parameters?_constructor rfl (fun _ => rfl) ?_
  intro receiver values Q out hvalues hreceiver hQ
  obtain rfl := hvalues.none
  by_cases howner : cls = p.name
  · -- the class itself has a constructor, or a function that looks like one
    simp only [Rules.called, h.name?_eq, Option.getD_some]
    rw [if_pos howner]
    intro method hfind
    rcases h.find?_cases hfind with ⟨hname, hm, hnames⟩ | ⟨f, hf, hname, hdescriptor, hm⟩
    · exact ⟨.inl ⟨hname, hm, hnames, hreceiver⟩, fun out r hr => by
        rw [hr.2 hnames]
        exact hQ out none .nil⟩
    · -- a function with this descriptor takes no arguments and gives no result
      have hparams := h.parameters?_descriptor hclean.params hf
      have hwords := Compiled.returnWords?_descriptor hclean hf
      rw [hdescriptor] at hparams hwords
      have hnone : f.returnType.kind? = none :=
        DataType.kind?_eq_none_of_width (Option.some.inj (hwords.symm.trans returnWords?_constructor))
      have hnil : f.isEntryPoint = false ∧ f.params = [] := by
        cases he : f.isEntryPoint with
        | true =>
          rw [he, if_pos rfl] at hparams
          cases hparams.symm.trans parameters?_constructor
        | false =>
          rw [he, if_neg (by simp)] at hparams
          have hnil := hparams.symm.trans parameters?_constructor
          exact ⟨rfl, by simpa using hnil⟩
      obtain ⟨v, rfl, hv⟩ := hreceiver
      have hfirst := initialLocals_receiver method.maxLocals.toNat v []
      refine ⟨.inr ⟨f, hf, hname, hm, fun _ => ⟨v, hfirst, hv⟩, ?_⟩, fun out r hr => ?_⟩
      · rw [hnil.2]
        trivial
      · have := hr.1 f hf hname
        rw [hnone] at this
        exact hQ out r this
  · refine called_library ?_ ?_ ?_ hQ
    · simpa [h.name?_eq] using howner
    · rintro e (rfl | rfl | rfl) <;> rfl
    · exact fun effect => libraryCall_constructor_gives cls

/-- Calls of the library do not get to the class. -/
theorem Compiled.safe_library (h : Compiled options [] p c table) (hname : p.name ∉ libraryClasses)
    {mode : CallMode} {callee : Member} {args : List Kind} {result : Option Kind}
    (howner : callee.owner ∈ libraryClasses)
    (hparams : (Descriptor.parameters? callee.descriptor).map List.length = some args.length)
    (hgives : ∀ receiver values effect, libraryCall callee receiver values = .ok effect →
      effect.Gives result) :
    KindCall c ((safeContract options p c table).rules c name) mode callee args result := by
  obtain ⟨params, hparams, hlength⟩ := Option.map_eq_some_iff.1 hparams
  refine kindCall_of_called hparams hlength (fun _ => rfl) ?_
  intro receiver values Q out _ _ hQ
  refine called_library ?_ ?_ (hgives receiver values) hQ
  · rw [h.name?_eq]
    intro (heq : callee.owner = p.name)
    exact hname (heq ▸ howner)
  · rintro e (rfl | rfl | rfl) <;> rfl

theorem Compiled.lawful (h : Compiled options [] p c table) (hclean : p.Clean)
    (hname : p.name ∉ libraryClasses) (name : String) :
    ((safeContract options p c table).rules c name).Lawful c where
  division _ := rfl
  unsignedInts method := by
    refine h.safe_library hname (by simp [unsignedInt, libraryClasses]) ?_ ?_
    · simp only [unsignedInt]
      decide
    · intro receiver values effect hlibrary
      exact intCall_gives hlibrary
  compareLongs := by
    refine h.safe_library hname (by simp [unsignedLong, libraryClasses]) ?_ ?_
    · simp only [unsignedLong]
      decide
    · intro receiver values effect hlibrary
      exact longCall_gives hlibrary
  unsignedLongs op method hop := by
    refine h.safe_library hname (by simp [unsignedLong, libraryClasses]) ?_ ?_
    · simp only [unsignedLong]
      decide
    · intro receiver values effect hlibrary
      have hgives : effect.Gives (some (if method = "compareUnsigned" then .int else .long)) :=
        longCall_gives hlibrary
      rwa [if_neg] at hgives
      rintro rfl
      cases op <;> simp [Arith.unsignedMethod?] at hop
  constructs cls := h.safe_constructor hclean cls

/-- The functions of a class can be called. -/
theorem Compiled.safe_function (h : Compiled options [] p c table) (hclean : p.Clean) {f : FunDef}
    (hf : f ∈ p.functions) {callee : Callable} (hcallee : Callable.Registers p.name f callee) :
    KindCall c ((safeContract options p c table).rules c name) callee.mode callee.member
      callee.argKinds callee.returnType.kind? := by
  have hsome := h.kind?_of_mem_params hf
  rw [hcallee.member, hcallee.argKinds, hcallee.returnType]
  refine kindCall_of_called (h.parameters?_descriptor hclean.params hf) (f.length_argKinds hsome)
    (fun _ => rfl) ?_
  intro receiver values Q out hvalues hreceiver hQ
  simp only [Rules.called, h.name?_eq, Option.getD_some, if_true]
  intro method hfind
  rcases h.find?_cases hfind with ⟨hname, -, hnames⟩ | ⟨g, hg, hname, -, hm⟩
  · exact absurd hname (hnames f hf)
  · obtain rfl : f = g := h.eq_of_name hf hg hname.symm
    have hentered := f.entered method.maxLocals.toNat hsome (hcallee.receives.1 hreceiver) hvalues
    exact ⟨.inr ⟨f, hf, rfl, hm, hentered⟩, fun out r hr => hQ out r (hr.1 f hf rfl)⟩

/-- **Everything that a call by name can mean** is allowed. -/
theorem Compiled.callee_safe (h : Compiled options [] p c table) (hclean : p.Clean)
    (hname : p.name ∉ libraryClasses) (name : String) (slots : Nat → Kind → Prop) {callee : Callable}
    (hc : callee ∈ table.entries) :
    callee.Admitted (kindTyping (h.lawful hclean hname name) slots) := by
  rcases h.callee_cases hc with hc | ⟨f, hf, hc⟩
  · have hlibrary : ∀ b ∈ builtins, b.owner ∈ libraryClasses ∧
        (Descriptor.parameters? b.descriptor).map List.length = some b.argKinds.length := by
      decide
    refine ⟨?_, fun member hm => ?_, first_builtins callee hc⟩
    · exact h.safe_library hname (hlibrary callee hc).1 (hlibrary callee hc).2
        fun receiver values effect => libraryCall_builtin_gives hc
    · rcases receiver_builtins callee hc with hr | hr
      · cases hr.symm.trans hm
      · cases hr.symm.trans hm
        exact ⟨rfl, rfl⟩
  · refine ⟨h.safe_function hclean hf hc, ?_, ?_⟩ <;> rw [hc.receiver] <;> split <;> simp

/-! ## Bodies -/

/-- Whether a call has no object to call a method of. -/
def Expr.Receiverless : Expr → Prop
  | .call object _ _ _ => object = none
  | _ => True

/-- Whether a unary operation applies to a number. -/
def Expr.UnaryOfNumber : Expr → Prop
  | .unary _ operand _ => operand.ty.kind? ≠ some .reference
  | _ => True

/-- The expressions of a function are admitted. -/
theorem Compiled.expr_safe (h : Compiled options [] p c table) (hclean : p.Clean)
    (hname : p.name ∉ libraryClasses) (hbool : ∀ e ∈ p.nodes, e.BoolCondition)
    (hreceiver : ∀ e ∈ p.nodes, e.Receiverless) (hunary : ∀ e ∈ p.nodes, e.UnaryOfNumber)
    (name : String) (slots : Nat → Kind → Prop) {f : FunDef} (hf : f ∈ p.functions)
    (final : Locals) :
    ∀ e ∈ Stmt.nodesOf f.body,
      e.Admitted (kindTyping (h.lawful hclean hname name) slots)
        (final.names table f) := by
  intro e he
  have hmem := Program.mem_nodes hf he
  cases e with
  | compare op lhs rhs ty => exact hbool _ hmem
  | logic op lhs rhs ty => exact hbool _ hmem
  | not operand ty => exact hbool _ hmem
  | unary op operand ty => exact fun hr => absurd hr (hunary _ hmem)
  | call object callee args ty =>
    obtain rfl : object = none := hreceiver _ hmem
    intro callee hcallee
    obtain ⟨i, hresolve⟩ := Names.resolve_of_callee? _ hcallee
    exact h.callee_safe hclean hname name slots (CallTable.mem_of_resolve hresolve)
  | ident name ty => trivial
  | int value ty => trivial
  | char value => trivial
  | str value => trivial
  | arith op lhs rhs ty => trivial

end Contract

/-- The slots of the variables of a function lie apart, and apart from the receiver. -/
theorem Locals.Sound.slotsApart {l : Locals} {f : FunDef} {paramsEnd firstReference : Nat}
    (h : l.Sound f.reservedSlots paramsEnd firstReference) (table : CallTable) :
    SlotsApart ((l.names table f).env fun _ => True) := by
  -- the receiver is in front of all variables
  have hreceiver {name : String} {s : Slot} (hstatic : f.isStatic = false)
      (hs : l.find? name = some s) : 0 + Kind.reference.words ≤ s.slot := by
    have hreserved : f.reservedSlots = 1 := by simp [FunDef.reservedSlots, hstatic]
    have := h.reserved_le s (mem_of_find? hs).1
    simp only [Kind.words]
    omega
  have hwidth {s : Slot} {k : Kind} (hk : s.ty.kind? = some k) : s.ty.width = k.words := by
    simp [DataType.width, hk]
  rintro n k n' k' (⟨name, s, -, hs, rfl, hk⟩ | ⟨hstatic, rfl, rfl⟩)
    (⟨name', s', -, hs', rfl, hk'⟩ | ⟨hstatic', rfl, rfl⟩)
  · by_cases heq : name = name'
    · subst heq
      cases hs.symm.trans hs'
      exact .inl ⟨rfl, Option.some.inj (hk.symm.trans hk')⟩
    · right
      rw [← hwidth hk, ← hwidth hk']
      exact h.apart_of_find? hs hs' heq
  · exact .inr (.inr (hreceiver hstatic' hs))
  · exact .inr (.inl (hreceiver hstatic hs'))
  · exact .inl ⟨rfl, rfl⟩

/-- The slots of the variables of a function are among its locals. -/
theorem Locals.Sound.fits {l : Locals} {f : FunDef} {paramsEnd firstReference : Nat}
    (h : l.Sound f.reservedSlots paramsEnd firstReference) {table : CallTable} {n : Nat} {k : Kind}
    (hn : (l.names table f).env (fun _ => True) n k) : n + k.words ≤ l.maxLocals := by
  rcases hn with ⟨name, s, -, hs, rfl, hk⟩ | ⟨hstatic, rfl, rfl⟩
  · have hwidth : s.ty.width = k.words := by simp [DataType.width, hk]
    exact hwidth ▸ h.within s (mem_of_find? hs).1
  · have hstatic : f.isStatic = false := hstatic
    have hreserved : f.reservedSlots = 1 := by simp [FunDef.reservedSlots, hstatic]
    have := h.params
    simp only [Kind.words]
    omega

/-- A function that has just been called knows its parameters. -/
theorem FunDef.Entered.holds {f : FunDef} {L : Array Value} {l : Locals} (h : f.Entered L)
    (hplaced : l.Placed f.reservedSlots f.params) (table : CallTable) :
    ((l.names table f).env fun name => ∃ q ∈ f.params, q.name = name).Holds L := by
  rintro n k (⟨name, s, ⟨q, hq, rfl⟩, hs, rfl, hk⟩ | ⟨hstatic, rfl, rfl⟩)
  · exact h.params.of_mem hplaced hq hs hk
  · exact h.receiver hstatic

section Kept

variable {options : Options} {p : Program} {c : ClassFile} {table : CallTable}

/-- Exits that ask for nothing. -/
def Exits.free : Exits := ⟨fun _ _ => True, fun _ _ => True, fun _ _ => True⟩

/-- **The methods of a typed class keep to the contract**. -/
theorem Compiled.safe_kept (h : Compiled options [] p c table) (hclean : p.Clean)
    (hname : p.name ∉ libraryClasses) (hbool : ∀ e ∈ p.nodes, e.BoolCondition)
    (hscoped : ∀ f ∈ p.functions, f.Scoped) (hreceiver : ∀ e ∈ p.nodes, e.Receiverless)
    (hunary : ∀ e ∈ p.nodes, e.UnaryOfNumber) : (safeContract options p c table).Kept c := by
  rintro name method this args (⟨rfl, hm, hnames, v, rfl, hv⟩ | ⟨f, hf, rfl, hm, hentered⟩)
  · obtain ⟨a, hbody⟩ := hm.body
    let receiver : Env := fun slot kind => slot = 0 ∧ kind = .reference
    have hfirst := initialLocals_receiver method.maxLocals.toNat v args
    have hflow := constructorFlow_typed (Γ := receiver)
      (T := kindTyping (h.lawful hclean hname constructorName) receiver) options.superClass ⟨rfl, rfl⟩
    refine ⟨_, _, .free, hbody.at, rfl, trivial, fun n out => hflow.wp ?_ trivial (fun _ => trivial)
      (fun _ _ => trivial) ?_ (fun _ _ h => h) ?_ ?_ (fun _ _ _ _ => trivial) (fun _ _ _ => trivial)
      (fun _ _ _ => trivial)⟩
    · rintro n k n' k' ⟨rfl, rfl⟩ ⟨rfl, rfl⟩
      exact .inl ⟨rfl, rfl⟩
    · intro out r hr
      refine ⟨fun f hf hname => absurd hname (hnames f hf), fun _ => ?_⟩
      simpa using hr.none
    · rintro n k ⟨rfl, rfl⟩
      exact ⟨v, hfirst, hv⟩
    · rintro n k ⟨rfl, rfl⟩
      exact (Array.getElem?_eq_some_iff.1 hfirst).1
  · obtain ⟨start, final, a, hstart, -, hgrows, hchecked, hbody⟩ := hm.body
    obtain ⟨hsound, hplaced, hnext⟩ := Locals.ofFunction_ok hstart
    have hsound := hgrows.sound _ _ _ hsound (Nat.le_of_eq (by rw [hnext]))
    let slots : Env := (final.names table f).env fun _ => True
    have hadmitted := h.expr_safe hclean hname hbool hreceiver hunary f.name slots hf final
    have hstores : (final.names table f).Stores (kindTyping (h.lawful hclean hname f.name) slots) :=
      fun name s k hs hk => Or.inl ⟨name, s, trivial, hs, rfl, hk⟩
    obtain ⟨Δ, hflow⟩ := selectBody_typed hstores hchecked hadmitted (hscoped f hf)
    refine ⟨_, _, .free, hbody.at, ends_selectBody _, trivial, fun n out =>
      hflow.wp (hsound.slotsApart table) trivial (fun _ => trivial) (fun _ _ => trivial) ?_
      (Names.env_mono fun _ _ => trivial) (hentered.holds (hplaced.mono hgrows.find) table) ?_
      (fun _ _ _ _ => trivial) (fun _ _ _ => trivial) (fun _ _ _ => trivial)⟩
    · intro out r hr
      refine ⟨fun g hg hgname => ?_, fun hnone => absurd rfl (hnone f hf)⟩
      obtain rfl := h.eq_of_name hf hg hgname.symm
      exact hr
    · intro n k hn
      -- every slot that is ever declared lies below the locals that the method asks for
      have hmax := hbody.maxLocals
      have hsize := size_initialLocals method.maxLocals.toNat this args
      have := hsound.fits hn
      omega

end Kept

/-! ## Calls from outside -/

/-- The kind of the values that a field descriptor stands for. -/
def Descriptor.kindOf (field : String) : Kind :=
  match field.toList.head? with
  | some 'J' => .long
  | some 'L' | some '[' => .reference
  | _ => .int

theorem Descriptor.kindOf_ofType {ty : DataType} {k : Kind} (h : ty.kind? = some k) :
    kindOf (ofType ty) = k := by
  have hclass (name : String) : kindOf (ofClass name) = .reference := by
    simp [kindOf, toList_ofClass]
  cases ty with
  | void => cases h
  | bool =>
    cases h
    decide
  | char =>
    cases h
    decide
  | int width unsigned => cases width <;> cases unsigned <;> cases h <;> decide
  | string => cases h; exact hclass _
  | ptr name => cases h; exact hclass _
  | struct name => cases h; exact hclass _
  | object name => cases h; exact hclass _

/-- **Arguments of the kinds that a descriptor asks for**, and a receiver exactly for a method that is
not static. -/
structure Method.Accepts (pool : ConstantPool) (m : Method) (this : Option Value)
    (args : List Value) : Prop where
  receiver : if AccessFlags.has m.flags AccessFlags.static then this = none
    else ∃ v, this = some v ∧ v.isReference = true
  kinds : ∃ descriptor params, pool.text? m.descriptor = some descriptor ∧
    Descriptor.parameters? descriptor = some params ∧
    HaveKinds (params.map Descriptor.kindOf) args

section Accepts

variable {options : Options} {p : Program} {c : ClassFile} {table : CallTable}

theorem Compiled.kindOf_descriptor (h : Compiled options [] p c table)
    (hclean : ∀ f ∈ p.functions, ∀ q ∈ f.params, q.ty.Clean) {f : FunDef} (hf : f ∈ p.functions)
    {params : List String}
    (hparams : Descriptor.parameters? f.descriptor = some params) :
    params.map Descriptor.kindOf = f.argKinds := by
  rw [h.parameters?_descriptor hclean hf] at hparams
  cases hparams
  cases he : f.isEntryPoint with
  | true =>
    simp only [if_true, FunDef.argKinds, he, (FunDef.entryPoint_cases he).2.2.1]
    decide
  | false =>
    simp only [Bool.false_eq_true, if_false, FunDef.argKinds, he, List.nil_append]
    have hsome := h.kind?_of_mem_params hf
    generalize f.params = params at hsome
    induction params with
    | nil => rfl
    | cons q params ih =>
      obtain ⟨k, hk⟩ := Option.isSome_iff_exists.1 (hsome q List.mem_cons_self)
      simp only [List.map_cons, List.filterMap_cons, hk, Descriptor.kindOf_ofType hk]
      rw [ih fun q hq => hsome q (List.mem_cons_of_mem _ hq)]

/-- A call from outside starts as the contract asks. -/
theorem Compiled.safe_entry (h : Compiled options [] p c table) (hclean : p.Clean) {m : Method}
    {name descriptor : String} (hm : c.find? name descriptor = some m) {this : Option Value}
    {args : List Value} (haccepts : m.Accepts c.pool this args) :
    (safeContract options p c table).entry name m this args := by
  rcases h.find?_cases hm with ⟨hname, hm, hnames⟩ | ⟨f, hf, hname, -, hm⟩
  · have hreceiver := haccepts.receiver
    rw [hm.flags, if_neg (by decide)] at hreceiver
    exact .inl ⟨hname, hm, hnames, hreceiver⟩
  · obtain ⟨hreceiver, descriptor, params, htext, hparams, hkinds⟩ := haccepts
    cases hm.descriptor.symm.trans htext
    rw [h.kindOf_descriptor hclean.params hf hparams] at hkinds
    rw [hm.flags, f.has_static] at hreceiver
    exact .inr ⟨f, hf, hname, hm, f.entered _ (h.kind?_of_mem_params hf) hreceiver hkinds⟩

end Accepts

/-- **Runs of compiled classes are safe**: a call of a method with arguments as its descriptor asks
never ends with a fault of code that is not typed, if variables are used where they are known,
conditions are annotated as such, calls have no objects, class names have no delimiters in them, the
class is none of the library, and unary operations apply to numbers. -/
theorem safe_of_compile {options : Options} {p : Program} {c : ClassFile}
    (hbool : ∀ e ∈ p.nodes, e.BoolCondition) (hscoped : ∀ f ∈ p.functions, f.Scoped)
    (hreceiver : ∀ e ∈ p.nodes, e.Receiverless) (hclean : p.Clean)
    (hname : p.name ∉ libraryClasses) (hunary : ∀ e ∈ p.nodes, e.UnaryOfNumber)
    (h : (compileProgram options [] p).result = .ok c) (m : Machine) {name descriptor : String}
    {method : Method} (hmethod : c.find? name descriptor = some method) {this : Option Value}
    {args : List Value} (haccepts : method.Accepts c.pool this args) (e : Fault)
    (hbad : e.isUnsafe = true) : (m.invoke c name descriptor this args).1 ≠ .error e := by
  obtain ⟨table, hcompiled⟩ := compiled_of_ok (by simp) h
  have hkept := hcompiled.safe_kept hclean hname hbool hscoped hreceiver hunary
  have hentry := hcompiled.safe_entry hclean hmethod haccepts
  intro herror
  rw [Machine.invoke, hmethod] at herror
  obtain ⟨t, hreach, hfault | rfl⟩ := run_error (Prod.ext herror rfl)
  · have hsafe : e.isUnsafe = false := by
      refine (hkept.good ?_ hreach).fault _ e hfault
      have htexts := List.find?_some hmethod
      simp only [Bool.and_eq_true, beq_iff_eq] at htexts
      rwa [htexts.1]
    rw [hsafe] at hbad
    cases hbad
  · cases hbad

/-- A call of `latch` is safe. -/
theorem safe_of_compile_latch :
    ∃ c, (compileProgram {} [] latch).result = .ok c ∧
      ∃ method, c.find? "latch" "(ZZ)Z" = some method ∧
        method.Accepts c.pool none [.int 1, .int 0] ∧
        ∀ e, e.isUnsafe = true →
          (({} : Machine).invoke c "latch" "(ZZ)Z" none [.int 1, .int 0]).1 ≠ .error e := by
  obtain ⟨c, hc⟩ := compileProgram_latch
  obtain ⟨table, hcompiled⟩ := compiled_of_ok (by simp) hc
  have htexts : latchFunction.name = "latch" ∧ latchFunction.descriptor = "(ZZ)Z" := by
    decide +kernel
  obtain ⟨method, hfind, hm⟩ := hcompiled.find?_function (List.mem_singleton.2 rfl)
  rw [htexts.1, htexts.2] at hfind
  have haccepts : method.Accepts c.pool none [.int 1, .int 0] := by
    refine ⟨?_, "(ZZ)Z", ["Z", "Z"], htexts.2 ▸ hm.descriptor, by decide +kernel, ?_⟩
    · rw [hm.flags, latchFunction.has_static]
      rfl
    · exact .cons rfl (.cons rfl .nil)
  refine ⟨c, hc, method, hfind, haccepts, safe_of_compile ?_ ?_ ?_ clean_latch ?_ ?_ hc {} hfind
    haccepts⟩
  · simp [nodes_latch, Expr.BoolCondition]
  · simp [latch, latchFunction, FunDef.Scoped, Stmt.AllScoped, Stmt.Scoped, Stmt.knownAfter,
      Expr.Scoped, Expr.nodes, Expr.nodesOf?, Expr.variable?]
  · simp [nodes_latch, Expr.Receiverless]
  · simp [latch, libraryClasses, printStreamClass, Descriptor.stringClass]
  · simp [nodes_latch, Expr.UnaryOfNumber]

end ClassFoundry
