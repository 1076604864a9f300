import ClassFoundry.Proofs.TypeSafety

/-!
# The calling convention

Four parts of the library count the words of arguments on their own: the descriptor of a function is
printed from its types, callers read it back to know what to pass, the frame of a call lays out what
was passed, and the locals of the function give every parameter a slot. They agree for every function,
static or not, and for the entry point, whose callers pass an argument that the function does not see.

## Main definitions

* `FunDef.hiddenFields`: what callers pass before the parameters
* `HoldsArguments`: the parameters of a function are where the arguments of a call are

## Main results

* `Locals.exists_ofFunction`: distinct parameters that fit have slots
* `holdsArguments_of_placed`: parameters and arguments that start at one slot stay together
* `convention_of_function`: all parts agree
-/

namespace ClassFoundry

/-- The fields of what callers pass before the parameters: the entry point takes an array of texts. -/
def FunDef.hiddenFields (f : FunDef) : List String :=
  if f.isEntryPoint then ["[Ljava/lang/String;"] else []

theorem FunDef.length_hiddenArgs (f : FunDef) : f.hiddenArgs.length = f.hiddenFields.length := by
  unfold hiddenArgs hiddenFields
  split <;> rfl

theorem FunDef.drop_hiddenArgs (f : FunDef) (vs : List Value) :
    (f.hiddenArgs ++ vs).drop f.hiddenFields.length = vs := by
  rw [← length_hiddenArgs, List.drop_left]

/-! ## Words -/

theorem FunDef.parameters?_ofFunction (owner : String) {f : FunDef}
    (h : ∀ q ∈ f.params, q.ty.Clean ∧ q.ty.kind?.isSome) :
    Descriptor.parameters? (Callable.ofFunction owner f).descriptor =
      some (f.hiddenFields ++ f.params.map fun q => Descriptor.ofType q.ty) := by
  simp only [Callable.ofFunction, hiddenFields]
  cases hentry : f.isEntryPoint with
  | true =>
    -- an entry point has no parameters of its own
    rw [if_pos rfl, if_pos rfl, (entryPoint_cases hentry).2.2.1]
    exact Descriptor.parameters?_entryPoint
  | false =>
    have htypes : ∀ ty ∈ f.params.map (·.ty), ty.Clean ∧ ty.kind?.isSome := by
      intro ty hty
      obtain ⟨q, hq, rfl⟩ := List.mem_map.1 hty
      exact h q hq
    rw [if_neg (by simp), if_neg (by simp), Descriptor.parameters?_ofMethod _ htypes, List.map_map]
    rfl

theorem FunDef.argumentWords?_ofFunction (owner : String) {f : FunDef}
    (h : ∀ q ∈ f.params, q.ty.Clean ∧ q.ty.kind?.isSome) :
    Descriptor.argumentWords? (Callable.ofFunction owner f).descriptor =
      some (Callable.ofFunction owner f).argWords := by
  have hreceiver : (Callable.ofFunction owner f).receiver ≠ .firstArg := by
    simp only [Callable.ofFunction]
    split <;> simp
  have hwords : (Callable.ofFunction owner f).argWords =
      (f.params.map (·.ty)).foldl (fun n ty => n + ty.width) 0 + if f.isEntryPoint then 1 else 0 := by
    unfold Callable.argWords
    rw [if_neg hreceiver]
    rfl
  rw [hwords]
  simp only [Callable.ofFunction]
  cases hentry : f.isEntryPoint with
  | true =>
    rw [if_pos rfl, if_pos rfl, (entryPoint_cases hentry).2.2.1]
    decide
  | false =>
    have htypes : ∀ ty ∈ f.params.map (·.ty), ty.Clean ∧ ty.kind?.isSome := by
      intro ty hty
      obtain ⟨q, hq, rfl⟩ := List.mem_map.1 hty
      exact h q hq
    rw [if_neg (by simp), if_neg (by simp), Descriptor.argumentWords?_ofMethod _ htypes,
      Nat.add_zero]

theorem FunDef.returnWords?_ofFunction (owner : String) {f : FunDef} (h : f.returnType.Clean) :
    Descriptor.returnWords? (Callable.ofFunction owner f).descriptor =
      some (Callable.ofFunction owner f).returnWords := by
  simp only [Callable.returnWords, Callable.ofFunction]
  cases hentry : f.isEntryPoint with
  | true =>
    rw [if_pos rfl, (entryPoint_cases hentry).2.2.2]
    decide
  | false =>
    rw [if_neg (by simp)]
    exact Descriptor.returnWords?_ofMethod h

/-! ## Slots -/

namespace Locals

variable {l : Locals}

theorem exists_checkNew {name : String} {ty : DataType} (hnew : l.find? name = none)
    (hkind : ty.kind?.isSome) : ∃ storage, l.checkNew name ty = .ok storage := by
  obtain ⟨k, hk⟩ := Option.isSome_iff_exists.1 hkind
  exact ⟨k.storage, by simp [checkNew, hnew, DataType.storage?, hk]⟩

theorem exists_declareParams {params : List Param} (hkind : ∀ q ∈ params, q.ty.kind?.isSome)
    (hdistinct : (params.map (·.name)).Nodup) (hnew : ∀ q ∈ params, l.find? q.name = none)
    (hfits : l.nextParam + paramsWidth params ≤ maxFrameWords) :
    ∃ l', declareParams l params = .ok l' := by
  induction params generalizing l with
  | nil => exact ⟨l, rfl⟩
  | cons q params ih =>
    obtain ⟨hq, hrest⟩ := List.forall_mem_cons.1 hkind
    obtain ⟨hnewq, hnewrest⟩ := List.forall_mem_cons.1 hnew
    obtain ⟨hfirst, hdistinct⟩ := List.nodup_cons.1 hdistinct
    obtain ⟨storage, hstorage⟩ := exists_checkNew hnewq hq
    rw [paramsWidth, ← Nat.add_assoc] at hfits
    have hinsert : l.insert q.name q.ty storage l.nextParam = .ok { l with
        slots := ⟨q.name, q.ty, storage, l.nextParam, q.ty.width⟩ :: l.slots
        maxLocals := max l.maxLocals (l.nextParam + q.ty.width) } := if_pos (by omega)
    have hparam : l.declareParam q.name q.ty = .ok (l.nextParam, { l with
        slots := ⟨q.name, q.ty, storage, l.nextParam, q.ty.width⟩ :: l.slots
        maxLocals := max l.maxLocals (l.nextParam + q.ty.width)
        nextParam := l.nextParam + q.ty.width }) := by
      unfold declareParam
      rw [hstorage]
      dsimp only [bind, Except.bind]
      rw [hinsert]
      rfl
    rw [declareParams, hparam]
    refine ih hrest hdistinct (fun q' hq' => ?_) hfits
    -- a later parameter has another name than the one just declared
    refine (find?_cons l _ _).trans ((if_neg ?_).trans (hnewrest q' hq'))
    intro hname
    exact hfirst (List.mem_map.2 ⟨q', hq', hname.symm⟩)

/-- **Distinct parameters have slots**, if they and the numbers of the body fit the frame. -/
theorem exists_ofFunction {f : FunDef} {reserved : Nat} (hkind : ∀ q ∈ f.params, q.ty.kind?.isSome)
    (hdistinct : (f.params.map (·.name)).Nodup)
    (hfits : reserved + paramsWidth f.params + integerWidthOf (Stmt.declarationsOf f.body) ≤
      maxFrameWords) : ∃ l, ofFunction f reserved = .ok l := by
  unfold ofFunction
  simp only [foldl_width, Layout.firstReference_scan, Nat.zero_add]
  rw [if_neg (Nat.not_lt.2 hfits)]
  refine exists_declareParams hkind hdistinct (fun _ _ => rfl) ?_
  simp only [start]
  omega

end Locals

/-- **Every parameter is where its argument is**: the slot that the locals of a function give to the
parameter holds the argument of the same position. -/
def HoldsArguments (l : Locals) (L : Array Value) (params : List Param) (args : List Value) : Prop :=
  List.Forall₂ (fun q v => ∃ s, l.find? q.name = some s ∧ s.ty = q.ty ∧ L[s.slot]? = some v)
    params args

/-- Parameters and arguments that start at one slot stay together, because a value takes as many slots
as its parameter has words. -/
theorem holdsArguments_of_placed {l : Locals} {L : Array Value} {n : Nat} {params : List Param}
    {args : List Value} (hplaced : l.Placed n params) (hvalues : ValuesAt L n args)
    (hkinds : HaveKinds ((params.map (·.ty)).filterMap DataType.kind?) args) :
    HoldsArguments l L params args := by
  induction params generalizing n args with
  | nil =>
    rw [hkinds.none]
    exact .nil
  | cons q params ih =>
    obtain ⟨⟨storage, hfind⟩, hsome, hplaced⟩ := hplaced
    obtain ⟨k, hk⟩ := Option.isSome_iff_exists.1 hsome
    simp only [List.map_cons, List.filterMap_cons, hk] at hkinds
    obtain ⟨v, rest, hv, hrest, rfl⟩ := List.forall₂_cons_left_iff.1 hkinds
    obtain ⟨hfirst, hvalues⟩ := hvalues
    have hwidth : v.slots.length = q.ty.width := by
      rw [Value.length_slots hv, DataType.width, hk]
    rw [hwidth] at hvalues
    exact .cons ⟨_, hfind, rfl, hfirst⟩ (ih hplaced hvalues hrest)

theorem FunDef.length_argKinds_eq {f : FunDef} (h : ∀ q ∈ f.params, q.ty.kind?.isSome) :
    f.argKinds.length = f.hiddenFields.length + f.params.length := by
  rw [← f.length_argKinds h, hiddenFields]
  cases hentry : f.isEntryPoint with
  | true => simp [(entryPoint_cases hentry).2.2.1]
  | false => simp

theorem FunDef.holdsArguments {f : FunDef} {l : Locals}
    (hlocals : Locals.ofFunction f f.reservedSlots = .ok l) (n : Nat) {this : Option Value}
    {args : List Value} (hreceiver : this.isSome = !f.isStatic) (hargs : HaveKinds f.argKinds args) :
    HoldsArguments l (Frame.initialLocals n this args) f.params
      (args.drop f.hiddenFields.length) := by
  obtain ⟨-, hplaced, -⟩ := Locals.ofFunction_ok hlocals
  have hvalues := valuesAt_initialLocals n this args
  cases hentry : f.isEntryPoint with
  | true =>
    -- the hidden argument is all that there is
    have hparams := (entryPoint_cases hentry).2.2.1
    have hlength := hargs.length_eq
    simp only [argKinds, hiddenFields, hentry, hparams, if_true] at hlength ⊢
    have hdrop : args.drop 1 = [] := List.drop_eq_nil_of_le (by simp at hlength; omega)
    rw [List.length_singleton, hdrop]
    exact .nil
  | false =>
    have hreserved : this.toList.length = f.reservedSlots := by
      cases this <;> simp_all [reservedSlots]
    rw [hreserved] at hvalues
    simp only [argKinds, hentry, Bool.false_eq_true, if_false, List.nil_append] at hargs
    simp only [hiddenFields, hentry, Bool.false_eq_true, if_false, List.length_nil, List.drop_zero]
    exact holdsArguments_of_placed hplaced hvalues hargs

/-! ## The convention -/

/-- **Caller, descriptor and callee agree**: the descriptor of a function is read back as what callers
pass, one field for each argument, and tells the words that callers count; and if its parameters have
distinct names and fit the frame, they have slots in which a call finds its arguments. -/
theorem convention_of_function (owner : String) {f : FunDef}
    (hparams : ∀ q ∈ f.params, q.ty ≠ .void ∧ q.ty.Clean) (hresult : f.returnType.Clean) :
    Descriptor.parameters? (Callable.ofFunction owner f).descriptor =
        some (f.hiddenFields ++ f.params.map fun q => Descriptor.ofType q.ty) ∧
      Descriptor.argumentWords? (Callable.ofFunction owner f).descriptor =
        some (Callable.ofFunction owner f).argWords ∧
      Descriptor.returnWords? (Callable.ofFunction owner f).descriptor =
        some (Callable.ofFunction owner f).returnWords ∧
      ((f.params.map (·.name)).Nodup →
        f.reservedSlots + Locals.paramsWidth f.params +
          integerWidthOf (Stmt.declarationsOf f.body) ≤ maxFrameWords →
        ∃ l, Locals.ofFunction f f.reservedSlots = .ok l) ∧
      ∀ l, Locals.ofFunction f f.reservedSlots = .ok l →
        ∀ (name : String) (m : Method) (this : Option Value) (args : List Value),
          this.isSome = !f.isStatic → HaveKinds f.argKinds args →
          args.length = f.hiddenFields.length + f.params.length ∧
          HoldsArguments l (Frame.enter name m this args).locals f.params
            (args.drop f.hiddenFields.length) := by
  have hkinds : ∀ q ∈ f.params, q.ty.kind?.isSome := by
    intro q hq
    have hvoid := (hparams q hq).1
    cases hty : q.ty with
    | void => exact absurd hty hvoid
    | int width unsigned => cases width <;> rfl
    | _ => rfl
  have hclean : ∀ q ∈ f.params, q.ty.Clean ∧ q.ty.kind?.isSome :=
    fun q hq => ⟨(hparams q hq).2, hkinds q hq⟩
  refine ⟨FunDef.parameters?_ofFunction owner hclean, FunDef.argumentWords?_ofFunction owner hclean,
    FunDef.returnWords?_ofFunction owner hresult, Locals.exists_ofFunction hkinds, ?_⟩
  intro l hl name m this args hreceiver hargs
  refine ⟨?_, FunDef.holdsArguments hl _ hreceiver hargs⟩
  rw [← hargs.length_eq]
  exact FunDef.length_argKinds_eq hkinds

/-- An instance method with a long between two narrower parameters. -/
def scaleMethod : FunDef where
  name := "scale"
  params := [⟨"factor", .int .w8 true⟩, ⟨"by", .i64⟩, ⟨"unit", .object "demo.Unit"⟩]
  returnType := .i64
  body := [.ret (some (.ident "by" .i64))]
  isStatic := false

theorem convention_of_function_scaleMethod :
    Descriptor.parameters? (Callable.ofFunction "Demo" scaleMethod).descriptor =
        some ["S", "J", "Ldemo/Unit;"] ∧
      Descriptor.argumentWords? (Callable.ofFunction "Demo" scaleMethod).descriptor = some 4 ∧
      ∃ l, Locals.ofFunction scaleMethod scaleMethod.reservedSlots = .ok l ∧
        HoldsArguments l (Frame.enter "scale" ⟨0, 0, 0, 0, 0, 5, #[]⟩ (some .null)
          [.int 7, .long 5, .null]).locals scaleMethod.params [.int 7, .long 5, .null] := by
  have hclean : ∀ q ∈ scaleMethod.params, q.ty ≠ .void ∧ q.ty.Clean := by
    simp [scaleMethod, DataType.Clean, ← cleanName_iff]
  obtain ⟨hfields, hwords, -, hexists, hlocals⟩ :=
    convention_of_function "Demo" hclean (by trivial)
  obtain ⟨l, hl⟩ := hexists (by decide) (by decide)
  obtain ⟨-, hholds⟩ := hlocals l hl "scale" ⟨0, 0, 0, 0, 0, 5, #[]⟩ (some .null)
    [.int 7, .long 5, .null] rfl (.cons rfl (.cons rfl (.cons rfl .nil)))
  have hmap : scaleMethod.params.map (fun q => Descriptor.ofType q.ty) =
      ["S", "J", "Ldemo/Unit;"] := by decide +kernel
  refine ⟨?_, ?_, l, hl, hholds⟩
  · rw [hfields, hmap]
    rfl
  · rw [hwords]
    decide +kernel

end ClassFoundry
