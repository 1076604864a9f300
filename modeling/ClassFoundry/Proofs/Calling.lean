import ClassFoundry.Proofs.Compilation
import ClassFoundry.Proofs.Scoping
import ClassFoundry.Proofs.Structured.SafeTyping

/-!
# Calls

How the operands of a call get from the stack of the caller to the locals of the callee, and which
method of a compiled class a call finds.

## Main definitions

* `Value.slots`: a value among the locals
* `ValuesAt`: values that stand among the locals from a slot on

## Main results

* `wp_invokeStatic`, `wp_invokeReceiver`: what has to hold before a call, by the operands on the stack
* `valuesAt_initialLocals`: where a callee finds its arguments
* `Compiled.find?_cases`: the methods that a call finds
-/

namespace ClassFoundry

/-! ## Operands -/

section Operands

variable {c : ClassFile} {W : Rules} {L : Array Value} {Q : Post} {out : String}
  {callee : Member} {args : List Kind} {result : Option Kind} {params : List String}
  {passed rest : List Value}

/-- The topmost values come off in the order in which they were pushed. -/
theorem Frame.popArgs_eq (f : Frame) (acc : List Value) (h : f.stack = passed ++ rest) :
    f.popArgs passed.length acc = .ok (passed.reverse ++ acc, { f with stack := rest }) := by
  induction passed generalizing f acc with
  | nil =>
    obtain rfl : f.stack = rest := h
    rfl
  | cons v passed ih =>
    have hpop : f.pop = .ok (v, { f with stack := passed ++ rest }) := by simp [pop, h]
    rw [List.length_cons, popArgs, hpop]
    show popArgs _ passed.length (v :: acc) = _
    rw [ih _ (v :: acc) rfl]
    simp

/-- A descriptor that cannot be read is a fault. -/
theorem wp_invoke_of_none {mode : CallMode} {st : List Value}
    (hparams : Descriptor.parameters? callee.descriptor = none) (h : ∀ e, W.fault out e) :
    (Operation.invoke mode callee args result).wp c W L Q out st := by
  intro pool index f hmember _
  simp only [Frame.callOperands, hmember, hparams]
  exact h _

/-- Before a call without receiver the arguments are on the stack, the last one on top. -/
theorem wp_invokeStatic (hparams : Descriptor.parameters? callee.descriptor = some params)
    (hlength : passed.length = params.length)
    (h : W.called c callee none passed.reverse (fun out r => Q out (r.toList ++ rest)) out) :
    (Operation.invoke .static callee args result).wp c W L Q out (passed ++ rest) := by
  intro pool index f hmember hstack
  simp only [Frame.callOperands, hmember, hparams, ← hlength, f.popArgs_eq [] hstack,
    List.append_nil]
  exact h

/-- Before a call with a receiver, that one lies below the arguments and has to be a reference to an
object. -/
theorem wp_invokeReceiver {mode : CallMode} (hmode : mode ≠ .static) {receiver : Value}
    (hparams : Descriptor.parameters? callee.descriptor = some params)
    (hlength : passed.length = params.length)
    (hkind : receiver.isReference = false → ∀ e, W.fault out e)
    (hnull : receiver = .null → W.fault out .nullPointer)
    (h : receiver.isReference = true → receiver ≠ .null →
      W.called c callee (some receiver) passed.reverse (fun out r => Q out (r.toList ++ rest)) out) :
    (Operation.invoke mode callee args result).wp c W L Q out (passed ++ receiver :: rest) := by
  intro pool index f hmember hstack
  have hoperands : f.callOperands pool mode index =
      Frame.popKind { f with stack := receiver :: rest } .reference >>= fun popped =>
        if popped.1 = .null then .error .nullPointer
        else .ok (callee, some popped.1, passed.reverse, popped.2) := by
    simp only [Frame.callOperands, hmember, hparams, ← hlength, f.popArgs_eq [] hstack,
      List.append_nil]
    cases mode with
    | static => exact absurd rfl hmode
    | virtual | special => rfl
  rw [hoperands]
  cases hreference : receiver.isReference with
  | false =>
    simp only [Frame.popKind, Value.hasKind, hreference]
    exact hkind hreference _
  | true =>
    simp only [Frame.popKind, Value.hasKind, hreference, if_true]
    by_cases heq : receiver = .null
    · subst heq
      exact hnull rfl
    · simp only [bind, Except.bind, if_neg heq]
      exact h hreference heq

end Operands

/-! ## Kinds of results -/

/-- Whether what a library call does leaves a value of a kind, if any. -/
def Effect.Gives (result : Option Kind) : Effect → Prop
  | .print _ | .nothing => result = none
  | .value v => HaveKinds result.toList [v]
  | .newString _ => result = some .reference

section Library

variable {callee : Member} {receiver : Option Value} {args : List Value} {effect : Effect}

theorem printCall_gives (h : printCall callee args = .ok effect) : effect.Gives none := by
  obtain ⟨text, -, h⟩ := Except.bind_eq_ok.1 h
  cases h
  exact rfl

theorem textCall_gives (h : textCall callee receiver args = .ok effect) :
    (callee.name = "concat" ∧ effect.Gives (some .reference)) ∨
      ((callee.name = "length" ∨ callee.name = "equals") ∧ effect.Gives (some .int)) := by
  unfold textCall at h
  split at h
  · cases h
  · split at h
    · rename_i hname
      split at h <;> cases h
      exact .inl ⟨hname, rfl⟩
    · rename_i hname
      cases h
      exact .inr ⟨.inl hname, .cons rfl .nil⟩
    · rename_i hname
      cases h
      exact .inr ⟨.inr hname, .cons rfl .nil⟩
    · cases h

theorem intCall_gives (h : intCall callee args = .ok effect) : effect.Gives (some .int) := by
  obtain ⟨a, -, h⟩ := Except.bind_eq_ok.1 h
  obtain ⟨b, -, h⟩ := Except.bind_eq_ok.1 h
  dsimp only at h
  split at h
  · cases h
    exact .cons rfl .nil
  · split at h <;> cases h
    exact .cons rfl .nil
  · split at h <;> cases h
    exact .cons rfl .nil
  · cases h

theorem longCall_gives (h : longCall callee args = .ok effect) :
    effect.Gives (some (if callee.name = "compareUnsigned" then .int else .long)) := by
  obtain ⟨a, -, h⟩ := Except.bind_eq_ok.1 h
  obtain ⟨b, -, h⟩ := Except.bind_eq_ok.1 h
  dsimp only at h
  split at h <;> rename_i hname
  · cases h
    rw [if_pos hname]
    exact .cons rfl .nil
  · split at h <;> cases h
    rw [hname, if_neg (by decide)]
    exact .cons rfl .nil
  · split at h <;> cases h
    rw [hname, if_neg (by decide)]
    exact .cons rfl .nil
  · cases h

/-- A constructor that the library knows gives nothing back. -/
theorem libraryCall_constructor_gives (cls : String)
    (h : libraryCall ⟨cls, "<init>", "()V"⟩ receiver [] = .ok effect) : effect.Gives none := by
  unfold libraryCall at h
  split at h
  · rename_i hprint
    simp at hprint
  · split at h
    · rcases textCall_gives h with ⟨hname, -⟩ | ⟨hname | hname, -⟩ <;> simp at hname
    · split at h
      · cases h
      · split at h
        · cases h
        · split at h <;> cases h
          exact rfl

/-- What the built-in methods are to the library. -/
theorem library_builtins : ∀ b ∈ builtins,
    (b.owner = printStreamClass ∧ (b.methodName = "print" ∨ b.methodName = "println") ∧
      b.returnType.kind? = none) ∨
    (b.owner = Descriptor.stringClass ∧
      ((b.methodName = "concat" ∧ b.returnType.kind? = some .reference) ∨
        ((b.methodName = "length" ∨ b.methodName = "equals") ∧
          b.returnType.kind? = some .int))) := by
  decide

/-- A built-in method gives a value of the kind of its type. -/
theorem libraryCall_builtin_gives {b : Callable} (hb : b ∈ builtins)
    (h : libraryCall b.member receiver args = .ok effect) : effect.Gives b.returnType.kind? := by
  unfold libraryCall at h
  rcases library_builtins b hb with ⟨howner, hname, hkind⟩ | ⟨howner, hname⟩
  · rw [if_pos ⟨howner, hname⟩] at h
    exact hkind ▸ printCall_gives h
  · have hmember : b.member.owner = Descriptor.stringClass := howner
    have hprint : ¬ (b.member.owner = printStreamClass ∧
        (b.member.name = "print" ∨ b.member.name = "println")) := by
      rw [hmember]
      exact fun h => absurd h.1 (by decide)
    rw [if_neg hprint, if_pos hmember] at h
    rcases textCall_gives h with ⟨hn, hgives⟩ | ⟨hn, hgives⟩ <;>
      rcases hname with ⟨hm, hkind⟩ | ⟨hm, hkind⟩
    · exact hkind ▸ hgives
    · have hn : b.methodName = "concat" := hn
      rw [hn] at hm
      simp at hm
    · have hn : b.methodName = "length" ∨ b.methodName = "equals" := hn
      rw [hm] at hn
      simp at hn
    · exact hkind ▸ hgives

end Library

/-- The receiver that a call has, by the way in which the method is called. -/
def CallMode.Receives : CallMode → Option Value → Prop
  | .static, receiver => receiver = none
  | _, receiver => ∃ v, receiver = some v ∧ v.isReference = true

section Kinds

variable {c : ClassFile} {W : Rules} {callee : Member} {args : List Kind} {result : Option Kind}
  {params : List String}

/-- A call is known by kinds if it ends as it should for all operands of these kinds. -/
theorem kindCall_of_called {mode : CallMode}
    (hparams : Descriptor.parameters? callee.descriptor = some params)
    (hlength : params.length = args.length) (hnull : ∀ out, W.fault out .nullPointer)
    (h : ∀ receiver values Q out, HaveKinds args values → mode.Receives receiver →
      (∀ out r, HaveKinds result.toList (Option.toList r) → Q out r) →
      W.called c callee receiver values Q out) : KindCall c W mode callee args result := by
  intro L Q out taken rest htaken hQ
  have hvalues {passed : List Value} (hp : HaveKinds args.reverse passed) :
      HaveKinds args passed.reverse ∧ passed.length = params.length := by
    refine ⟨by simpa [HaveKinds] using List.rel_reverse hp, ?_⟩
    rw [hlength, ← args.length_reverse]
    exact hp.length_eq.symm
  cases hmode : mode with
  | static =>
    subst hmode
    obtain ⟨hkinds, hlength⟩ := hvalues htaken
    exact wp_invokeStatic hparams hlength (h none _ _ _ hkinds rfl hQ)
  | virtual | special =>
    -- the receiver lies below the arguments
    rw [hmode] at htaken h
    obtain ⟨passed, last, rfl, hpassed, hlast⟩ := HaveKinds.split htaken
    obtain ⟨receiver, rfl, hreceiver⟩ := hlast.one
    obtain ⟨hkinds, hlength⟩ := hvalues hpassed
    rw [List.append_assoc]
    refine wp_invokeReceiver (by simp) hparams hlength (fun h => ?_) (fun _ => hnull out)
      fun _ _ => h _ _ _ _ hkinds ⟨receiver, rfl, hreceiver⟩ hQ
    cases h.symm.trans hreceiver

/-- A call of a method of the library. -/
theorem called_library {receiver : Option Value} {values : List Value}
    {Q : String → Option Value → Prop} {out : String} (howner : callee.owner ≠ c.name?.getD "")
    (hfault : ∀ e, e = .unsupportedCall callee ∨ e = .divisionByZero ∨ e = .nullPointer →
      W.fault out e)
    (hgives : ∀ effect, libraryCall callee receiver values = .ok effect → effect.Gives result)
    (hQ : ∀ out r, HaveKinds result.toList (Option.toList r) → Q out r) :
    W.called c callee receiver values Q out := by
  unfold Rules.called
  rw [if_neg howner]
  cases hlibrary : libraryCall callee receiver values with
  | error e => exact hfault e (libraryCall_error hlibrary)
  | ok effect =>
    have hresult := hgives effect hlibrary
    cases effect with
    | print text =>
      obtain rfl : result = none := hresult
      exact hQ _ none .nil
    | value v => exact hQ _ (some v) hresult
    | newString text =>
      obtain rfl : result = some .reference := hresult
      exact fun ref => hQ _ (some (.str ref text)) (.cons rfl .nil)
    | nothing =>
      obtain rfl : result = none := hresult
      exact hQ _ none .nil

end Kinds

/-! ## Arguments among the locals -/

/-- The arguments that callers of a method pass without being told to. -/
def Callable.hiddenArgs (callee : Callable) : List Value := if callee.entryPoint then [.null] else []

/-- A value among the locals: the upper half of a long takes a slot of its own. -/
def Value.slots : Value → List Value
  | .long v => [.long v, .top]
  | v => [v]

theorem Value.length_slots {v : Value} {k : Kind} (h : v.hasKind k = true) :
    v.slots.length = k.words := by
  cases v <;> cases k <;> simp_all [hasKind, isReference, slots, Kind.words]

/-- Values stand among the locals from a slot on. -/
def ValuesAt (L : Array Value) : Nat → List Value → Prop
  | _, [] => True
  | n, v :: vs => L[n]? = some v ∧ ValuesAt L (n + v.slots.length) vs

theorem toList_initialLocals (n : Nat) (this : Option Value) (args : List Value) :
    (Frame.initialLocals n this args).toList = this.toList ++ args.flatMap Value.slots ++
      List.replicate (n - (this.toList ++ args.flatMap Value.slots).length) .top := by
  have hfold (l : Array Value) : (args.foldl (fun locals v =>
      match v with
      | .long _ => (locals.push v).push .top
      | _ => locals.push v) l).toList = l.toList ++ args.flatMap Value.slots := by
    induction args generalizing l with
    | nil => simp
    | cons v args ih =>
      rw [List.foldl_cons, ih]
      cases v <;> simp [Value.slots]
  obtain ⟨filled, heq, hlist⟩ : ∃ filled : Array Value,
      Frame.initialLocals n this args = filled ++ Array.replicate (n - filled.size) .top ∧
        filled.toList = this.toList ++ args.flatMap Value.slots :=
    ⟨_, rfl, hfold _⟩
  rw [heq, Array.toList_append, Array.toList_replicate, ← Array.length_toList, hlist]

/-- The receiver is in the first slot. -/
theorem initialLocals_receiver (n : Nat) (v : Value) (args : List Value) :
    (Frame.initialLocals n (some v) args)[0]? = some v := by
  rw [← Array.getElem?_toList, toList_initialLocals]
  rfl

theorem size_initialLocals (n : Nat) (this : Option Value) (args : List Value) :
    n ≤ (Frame.initialLocals n this args).size := by
  rw [← Array.length_toList, toList_initialLocals]
  simp only [List.length_append, List.length_replicate]
  omega

theorem valuesAt_of_toList {L : Array Value} {front vs rest : List Value}
    (h : L.toList = front ++ vs.flatMap Value.slots ++ rest) : ValuesAt L front.length vs := by
  induction vs generalizing front with
  | nil => trivial
  | cons v vs ih =>
    have hhead : v.slots.head? = some v := by cases v <;> rfl
    obtain ⟨tail, htail⟩ : ∃ tail, v.slots = v :: tail := List.head?_eq_some_iff.1 hhead
    refine ⟨?_, ?_⟩
    · rw [← Array.getElem?_toList, h]
      simp [htail]
    · have hnext : ValuesAt L (front ++ v.slots).length vs := ih (by simpa using h)
      rwa [List.length_append] at hnext

/-- **A callee finds its arguments** behind the receiver. -/
theorem valuesAt_initialLocals (n : Nat) (this : Option Value) (args : List Value) :
    ValuesAt (Frame.initialLocals n this args) this.toList.length args :=
  valuesAt_of_toList (toList_initialLocals n this args)

/-! ## The methods of a class -/

theorem FunDef.descriptor_of_entryPoint {f : FunDef} (h : f.isEntryPoint = true) :
    f.descriptor = Descriptor.entryPoint := by
  simp [descriptor, Callable.ofFunction, h]

theorem FunDef.descriptor_eq {f : FunDef} (h : f.isEntryPoint = false) :
    f.descriptor = Descriptor.ofMethod (f.params.map (·.ty)) f.returnType := by
  simp [descriptor, Callable.ofFunction, h]

/-- An entry point has no parameters and no result. -/
theorem FunDef.entryPoint_cases {f : FunDef} (h : f.isEntryPoint = true) :
    f.name = "main" ∧ f.isStatic = true ∧ f.params = [] ∧ f.returnType = .void := by
  simpa [isEntryPoint, and_assoc] using h

/-- The flow of a method stands at the start of its code. -/
theorem MethodBody.at {pool : ConstantPool} {flow : Flow} {initial locals : Nat} {m : Method}
    {a : Assembler} (h : MethodBody pool flow initial locals m a) :
    flow.At pool m.code none 0 a.pc := by
  rw [h.code]
  exact Flow.Laid.at h.closed flow h.laid ⟨[], initial, .nil _⟩ ⟨[], .nil _⟩ trivial

namespace Compiled

variable {options : Options} {imports : List Callable} {p : Program} {c : ClassFile}
  {table : CallTable}

theorem name?_eq (h : Compiled options imports p c table) : c.name? = some p.name := h.thisClass

/-- A function is known by its name. -/
theorem eq_of_name (h : Compiled options imports p c table) {f g : FunDef} (hf : f ∈ p.functions)
    (hg : g ∈ p.functions) (hname : f.name = g.name) : f = g := by
  have : Std.Symm fun f g : FunDef => f.name ≠ g.name := ⟨fun _ _ h => h.symm⟩
  by_contra hne
  exact h.distinct.forall hf hg hne hname

/-- **The methods that a call finds**: the added constructor, or a function with this name and
descriptor. -/
theorem find?_cases (h : Compiled options imports p c table) {name descriptor : String}
    {m : Method} (hm : c.find? name descriptor = some m) :
    (name = constructorName ∧ CompiledConstructor c.pool options.superClass m ∧
        ∀ f ∈ p.functions, f.name ≠ constructorName) ∨
      ∃ f ∈ p.functions, f.name = name ∧ f.descriptor = descriptor ∧
        CompiledFunction c.pool table f m := by
  have htexts := List.find?_some hm
  simp only [Bool.and_eq_true, beq_iff_eq] at htexts
  obtain ⟨constructors, functions, hmethods, hconstructors, hfunctions⟩ := h.methods
  have hmem := List.mem_of_find?_eq_some hm
  rw [hmethods] at hmem
  rcases List.mem_append.1 hmem with hmem | hmem
  · rcases hconstructors with rfl | ⟨m', rfl, hm', hnames⟩
    · cases hmem
    · obtain rfl := List.mem_singleton.1 hmem
      rw [hm'.name] at htexts
      exact .inl ⟨(Option.some.inj htexts.1).symm, hm', hnames⟩
  · obtain ⟨f, hf, hfm⟩ := forall₂_right hfunctions hmem
    rw [hfm.name, hfm.descriptor] at htexts
    exact .inr ⟨f, hf, Option.some.inj htexts.1, Option.some.inj htexts.2, hfm⟩

/-- A function is found under its name and descriptor. -/
theorem find?_function (h : Compiled options imports p c table) {f : FunDef}
    (hf : f ∈ p.functions) :
    ∃ m, c.find? f.name f.descriptor = some m ∧ CompiledFunction c.pool table f m := by
  obtain ⟨_, functions, hmethods, -, hfunctions⟩ := h.methods
  obtain ⟨m, hm, hfm⟩ := forall₂_left hfunctions hf
  obtain ⟨m', hm'⟩ : ∃ m', c.find? f.name f.descriptor = some m' := by
    rw [← Option.isSome_iff_exists, ClassFile.find?, List.find?_isSome]
    exact ⟨m, hmethods ▸ List.mem_append_right _ hm, by simp [hfm.name, hfm.descriptor]⟩
  rcases h.find?_cases hm' with ⟨hname, -, hnames⟩ | ⟨g, hg, hname, -, hgm⟩
  · exact absurd hname (hnames f hf)
  · exact ⟨m', hm', h.eq_of_name hf hg hname.symm ▸ hgm⟩

/-- The parameters in the descriptor of a function. -/
theorem parameters?_descriptor (h : Compiled options imports p c table)
    (hclean : ∀ f ∈ p.functions, ∀ q ∈ f.params, q.ty.Clean) {f : FunDef} (hf : f ∈ p.functions) :
    Descriptor.parameters? f.descriptor = some (if f.isEntryPoint then ["[Ljava/lang/String;"]
      else (f.params.map (·.ty)).map Descriptor.ofType) := by
  cases he : f.isEntryPoint with
  | true => rw [FunDef.descriptor_of_entryPoint he, Descriptor.parameters?_entryPoint, if_pos rfl]
  | false =>
    rw [FunDef.descriptor_eq he, Descriptor.parameters?_ofMethod, if_neg (by simp)]
    intro ty hty
    obtain ⟨q, hq, rfl⟩ := List.mem_map.1 hty
    exact ⟨hclean f hf q hq, h.kind?_of_mem_params hf q hq⟩

/-- The words of the result in the descriptor of a function. -/
theorem returnWords?_descriptor (hclean : p.Clean) {f : FunDef} (hf : f ∈ p.functions) :
    Descriptor.returnWords? f.descriptor = some f.returnType.width := by
  cases he : f.isEntryPoint with
  | true =>
    rw [FunDef.descriptor_of_entryPoint he, (FunDef.entryPoint_cases he).2.2.2]
    decide
  | false =>
    rw [FunDef.descriptor_eq he]
    exact Descriptor.returnWords?_ofMethod (hclean.results f hf)

/-- A function of the program is called by its name. -/
theorem function?_eq (h : Compiled options [] p c table) {f : FunDef}
    (hf : f ∈ p.functions) : p.function? f.name = some f := by
  obtain ⟨g, hg⟩ : ∃ g, p.function? f.name = some g := by
    rw [← Option.isSome_iff_exists, Program.function?, List.find?_isSome]
    exact ⟨f, hf, beq_self_eq_true _⟩
  have hname : g.name = f.name := by simpa using List.find?_some hg
  rw [hg, h.eq_of_name (List.mem_of_find?_eq_some hg) hf hname]

/-- A built-in method is called only if the program has no function of its name. -/
theorem not_defined (h : Compiled options [] p c table) {name : String}
    {args : List DataType} {i : Nat} {callee : Callable}
    (hresolve : table.resolve name args = .ok (i, callee)) (hbuiltin : callee ∈ builtins) :
    p.function? name = none ∧ CallTable.withBuiltins.resolve name args = .ok (i, callee) := by
  have hundefined : ∀ b ∈ builtins, b.defined = false := by decide
  obtain ⟨-, -, ⟨hdefined, -⟩ | ⟨hothers, -⟩⟩ := CallTable.resolve_ok hresolve
  · rw [hundefined callee hbuiltin] at hdefined
    cases hdefined
  obtain ⟨own, hentries, hown⟩ := h.entries
  rw [List.append_nil] at hentries
  have hnames : ∀ e ∈ own, e.name ≠ name := by
    intro e he hname
    obtain ⟨f, -, j, rfl⟩ := forall₂_right hown he
    have hmem : _ ∈ table.entries := Array.mem_toList_iff.1 (hentries ▸ List.mem_append_right _ he)
    cases hothers _ hmem hname
  refine ⟨?_, (CallTable.resolve_append hentries hnames args).symm.trans hresolve⟩
  rw [Program.function?, List.find?_eq_none]
  intro f hf hname
  obtain ⟨e, he, j, rfl⟩ := forall₂_left hown hf
  have hname : f.name = name := by simpa using hname
  exact hnames _ he hname

end Compiled

end ClassFoundry
