import ClassFoundry.Proofs.Convention
import ClassFoundry.Proofs.Structured.RangedSelection

/-!
# Calls keep variables in range

Where the variables of a call lie, which of them are in range when it starts, and that every call gives
a value of the type that is declared for it. The last needs care: a class may have a name of the
library, and then a call of a library method gets to a function of the class. The descriptor tells that
such a function has no narrow parameters.

## Main definitions

* `FunDef.Ranged`, `FunDef.Assigns`: variables in range, and assigned in range
* `rangeContract`: what is asked of the methods of a class
* `Wide`: methods without narrow parameters

## Main results

* `Descriptor.ofMethod_inj`: a descriptor tells those of parameters and result
* `CompiledFunction.ranged_initialLocals`: arguments that fit are variables in range
* `Compiled.callee_gives`: whatever a call by name means, it gives a value of the right type
* `Compiled.keep`: the rules of the contract are such that expressions have values of their types
-/

namespace ClassFoundry

/-! ## Descriptors -/

namespace Descriptor

/-- The types that have bounds are those of three letters. -/
theorem bounds?_isSome_iff {ty : DataType} :
    ty.bounds?.isSome = true ↔ ofType ty ∈ ["B", "S", "C"] := by
  have hclass (name : String) : ofClass name ∉ ["B", "S", "C"] := by
    have hhead : (ofClass name).toList.head? = some 'L' := by simp [toList_ofClass]
    intro hmem
    simp only [List.mem_cons, List.not_mem_nil, or_false] at hmem
    rcases hmem with h | h | h <;> simp [h] at hhead
  cases ty with
  | int width unsigned => cases width <;> cases unsigned <;> decide
  | string => exact ⟨nofun, fun h => absurd h (hclass _)⟩
  | ptr _ => exact ⟨nofun, fun h => absurd h (hclass _)⟩
  | struct _ => exact ⟨nofun, fun h => absurd h (hclass _)⟩
  | object _ => exact ⟨nofun, fun h => absurd h (hclass _)⟩
  | _ => decide

/-- Only nothing has the descriptor of nothing. -/
theorem kind?_eq_none_iff {ty : DataType} : ty.kind? = none ↔ ofType ty = "V" := by
  have hclass (name : String) : ofClass name ≠ "V" := by
    have hhead : (ofClass name).toList.head? = some 'L' := by simp [toList_ofClass]
    intro h
    simp [h] at hhead
  cases ty with
  | int width unsigned => cases width <;> cases unsigned <;> decide
  | string => exact ⟨nofun, fun h => absurd h (hclass _)⟩
  | ptr _ => exact ⟨nofun, fun h => absurd h (hclass _)⟩
  | struct _ => exact ⟨nofun, fun h => absurd h (hclass _)⟩
  | object _ => exact ⟨nofun, fun h => absurd h (hclass _)⟩
  | _ => decide

/-- Types with the same descriptor have the same kind, and the same holds of their ranges. -/
theorem kind?_eq_of_ofType {ty ty' : DataType} (h : ofType ty = ofType ty') :
    ty.kind? = ty'.kind? := by
  cases hk : ty.kind? with
  | none => exact (kind?_eq_none_iff.2 (h ▸ kind?_eq_none_iff.1 hk)).symm
  | some k =>
    cases hk' : ty'.kind? with
    | none => cases (kind?_eq_none_iff.2 (h.trans (kind?_eq_none_iff.1 hk'))).symm.trans hk
    | some k' => rw [← kindOf_ofType hk, ← kindOf_ofType hk', h]

theorem bounds?_of_ofType {ty ty' : DataType} (h : ofType ty = ofType ty')
    (hnone : ty'.bounds? = none) : ty.bounds? = none := by
  have hiff : ty.bounds?.isSome = true ↔ ty'.bounds?.isSome = true := by
    rw [bounds?_isSome_iff, bounds?_isSome_iff, h]
  simpa [hnone] using hiff

/-- **A descriptor tells the descriptors of parameters and result**. One that is read back is not that
of other types. -/
theorem ofMethod_inj {types types' : List DataType} {result result' : DataType}
    (htypes : ∀ ty ∈ types, ty.Undivided ∧ ty.kind?.isSome)
    (htypes' : ∀ ty ∈ types', ty.Clean ∧ ty.kind?.isSome)
    (h : ofMethod types result = ofMethod types' result') :
    types.map ofType = types'.map ofType ∧ ofType result = ofType result' := by
  have hparams : types.map ofType = types'.map ofType := by
    have hread := parameters?_ofMethod_cases result htypes
    rw [h, parameters?_ofMethod result' htypes'] at hread
    rcases hread with hread | hread
    · cases hread
    · exact (Option.some.inj hread).symm
  refine ⟨hparams, ?_⟩
  unfold ofMethod at h
  rw [hparams] at h
  apply String.toList_inj.1
  have hlist := congrArg String.toList h
  simpa using hlist

end Descriptor

/-! ## The variables of a call -/

/-- **The variables of a call in range**: a variable of a narrow type holds a number in the range of
the type, or it is no parameter and holds no number, because it has not been assigned. -/
def FunDef.Ranged (f : FunDef) (L : Array Value) : Prop :=
  ∀ l, f.locals? = .ok l → ∀ name s, l.find? name = some s → s.ty.bounds?.isSome = true →
    (∃ n, L[s.slot]? = some (.int n) ∧ s.ty.InRange n.toInt) ∨
      ((∀ q ∈ f.params, q.name ≠ name) ∧ ∀ n, L[s.slot]? ≠ some (.int n))

/-- **Variables of narrow types are assigned in range**: each of them stays as it was, or holds a
number in the range of its type. -/
def FunDef.Assigns (f : FunDef) (L L' : Array Value) : Prop :=
  ∀ l, f.locals? = .ok l → ∀ name s, l.find? name = some s → s.ty.bounds?.isSome = true →
    L'[s.slot]? = L[s.slot]? ∨ ∃ n, L'[s.slot]? = some (.int n) ∧ s.ty.InRange n.toInt

section Initial

variable {n i : Nat} {this : Option Value} {args : List Value} {k : Int32}

/-- Behind the receiver and the arguments there are no numbers. -/
theorem initialLocals_of_le (h : (this.toList ++ args.flatMap Value.slots).length ≤ i) :
    (Frame.initialLocals n this args)[i]? ≠ some (.int k) := by
  intro hk
  rw [← Array.getElem?_toList, toList_initialLocals, List.getElem?_append_right h] at hk
  cases (List.mem_replicate.1 (List.mem_of_getElem? hk)).2

/-- Among references there are no numbers. -/
theorem initialLocals_of_references (hthis : ∀ v ∈ this, v.isReference = true)
    (hargs : ∀ v ∈ args, v.isReference = true) :
    (Frame.initialLocals n this args)[i]? ≠ some (.int k) := by
  intro hk
  have hmem := List.mem_of_getElem? (Array.getElem?_toList.trans hk)
  rw [toList_initialLocals] at hmem
  rcases List.mem_append.1 hmem with hmem | hmem
  · rcases List.mem_append.1 hmem with hmem | hmem
    · cases hthis _ (Option.mem_toList.1 hmem)
    · obtain ⟨v, hv, hslots⟩ := List.mem_flatMap.1 hmem
      have href := hargs v hv
      cases v with
      | int _ | long _ | top => cases href
      | null | str _ _ | object _ _ => cases List.mem_singleton.1 hslots
  · cases (List.mem_replicate.1 hmem).2

theorem HaveKinds.length_slots {ks : List Kind} {vs : List Value} (h : HaveKinds ks vs) :
    (vs.flatMap Value.slots).length = (ks.map Kind.words).sum := by
  induction h with
  | nil => rfl
  | cons hv _ ih => simp [Value.length_slots hv, ih]

theorem Locals.paramsWidth_eq {params : List Param} (h : ∀ q ∈ params, q.ty.kind?.isSome) :
    paramsWidth params = (((params.map (·.ty)).filterMap DataType.kind?).map Kind.words).sum := by
  induction params with
  | nil => rfl
  | cons q params ih =>
    obtain ⟨hq, hrest⟩ := List.forall_mem_cons.1 h
    obtain ⟨k, hk⟩ := Option.isSome_iff_exists.1 hq
    simp [paramsWidth, ih hrest, hk, DataType.width]

theorem Locals.Placed.exists_find? {l : Locals} {m : Nat} {params : List Param}
    (h : l.Placed m params) {q : Param} (hq : q ∈ params) :
    ∃ s, l.find? q.name = some s ∧ s.ty = q.ty := by
  induction params generalizing m with
  | nil => cases hq
  | cons q' params ih =>
    obtain ⟨⟨storage, hfind⟩, -, hrest⟩ := h
    rcases List.mem_cons.1 hq with rfl | hq
    · exact ⟨_, hfind, rfl⟩
    · exact ih hrest hq

end Initial

section Entered

variable {pool : ConstantPool} {table : CallTable} {f : FunDef} {m : Method} {L : Array Value}

/-- **The variables of a function are in range** if its parameters are, and no numbers lie behind
them: the other variables lie there. -/
theorem CompiledFunction.ranged (hm : CompiledFunction pool table f m)
    (hparams : ∀ q ∈ f.params, q.ty.bounds?.isSome = true → ∀ l s, f.locals? = .ok l →
      l.find? q.name = some s → ∃ n, L[s.slot]? = some (.int n) ∧ q.ty.InRange n.toInt)
    (hbehind : ∀ i n, f.reservedSlots + Locals.paramsWidth f.params ≤ i →
      L[i]? ≠ some (.int n)) : f.Ranged L := by
  obtain ⟨start, final, -, hstart, hfinal, hgrows, -, -⟩ := hm.body
  obtain ⟨hsound, hplaced, hnext⟩ := Locals.ofFunction_ok hstart
  intro l hl name s hs hnarrow
  cases hfinal.symm.trans hl
  by_cases hparam : ∃ q ∈ f.params, q.name = name
  · obtain ⟨q, hq, rfl⟩ := hparam
    obtain ⟨s', hs', hty⟩ := (hplaced.mono hgrows.find).exists_find? hq
    cases hs.symm.trans hs'
    rw [hty] at hnarrow ⊢
    exact .inl (hparams q hq hnarrow _ s hl hs)
  · refine .inr ⟨fun q hq hname => hparam ⟨q, hq, hname⟩, fun n => hbehind s.slot n ?_⟩
    obtain ⟨-, -, hfresh⟩ := hgrows.fresh _ hsound.integers.1
      (Nat.le_trans hsound.integers.1 (Nat.le_trans hsound.integers.2 hsound.references))
    rcases hfresh name s hs with hfirst | hle
    · -- all variables that are there before the body are parameters
      obtain ⟨q, hq, heq⟩ := List.mem_map.1 (Locals.ofFunction_declared hstart hfirst)
      exact absurd ⟨q, hq, congrArg Prod.fst heq⟩ hparam
    · exact hle

/-- **A function that has just been called has its variables in range** if its arguments fit. -/
theorem CompiledFunction.ranged_initialLocals (hm : CompiledFunction pool table f m) (n : Nat)
    {this : Option Value} {args : List Value} (hreceiver : this.isSome = !f.isStatic)
    (hkinds : HaveKinds f.argKinds args)
    (hfits : List.Forall₂ (fun q v => Value.Fits q.ty v) f.params
      (args.drop f.hiddenFields.length)) : f.Ranged (Frame.initialLocals n this args) := by
  obtain ⟨start, final, -, hstart, hfinal, hgrows, -, -⟩ := hm.body
  have hplaced := (Locals.ofFunction_ok hstart).2.1
  have hholds := FunDef.holdsArguments hstart n hreceiver hkinds
  refine hm.ranged (fun q hq hnarrow l s hl hs => ?_) fun i k hi => initialLocals_of_le ?_
  · have hboth := List.forall₂_iff_zip.2 ⟨hfits.length_eq, fun {q v} hqv =>
      And.intro ((List.forall₂_iff_zip.1 hholds).2 hqv) ((List.forall₂_iff_zip.1 hfits).2 hqv)⟩
    obtain ⟨v, -, ⟨s', hs', -, hv⟩, hvfits⟩ := forall₂_left hboth hq
    cases hfinal.symm.trans hl
    cases (hgrows.find _ _ hs').symm.trans hs
    obtain ⟨k, rfl⟩ := Value.eq_int_of_hasKind (hvfits.kind .int (q.ty.kind?_of_bounds? hnarrow))
    exact ⟨k, hv, hvfits.range k rfl⟩
  · have hwords := hkinds.length_slots
    have hwidth := Locals.paramsWidth_eq hplaced.kind?
    rw [List.length_append, hwords, FunDef.argKinds, List.map_append, List.sum_append, ← hwidth]
    refine Nat.le_trans ?_ hi
    cases hentry : f.isEntryPoint with
    | true =>
      have hstatic := (FunDef.entryPoint_cases hentry).2.1
      rw [hstatic] at hreceiver
      cases this with
      | none => simp [FunDef.reservedSlots, hentry, Kind.words]
      | some v => cases hreceiver
    | false =>
      have hreserved : this.toList.length = f.reservedSlots := by
        cases this <;> simp_all [FunDef.reservedSlots]
      simp [hreserved]

end Entered

/-! ## Methods -/

/-- **What is asked of the methods of a class** for narrow variables to stay in range: functions are
called with variables in range, assign only such values, and return values of their types. -/
def rangeContract (options : Options) (p : Program) (c : ClassFile) (table : CallTable) :
    Contract where
  entry name method this args :=
    (name = constructorName ∧ CompiledConstructor c.pool options.superClass method ∧
        ∀ f ∈ p.functions, f.name ≠ constructorName) ∨
      ∃ f ∈ p.functions, f.name = name ∧ CompiledFunction c.pool table f method ∧
        f.Ranged (Frame.initialLocals method.maxLocals.toNat this args)
  locals name L := ∀ f ∈ p.functions, f.name = name → f.Ranged L
  stores name L L' := ∀ f ∈ p.functions, f.name = name → f.Assigns L L'
  result name r := (∀ f ∈ p.functions, f.name = name → f.returnType.Returns r) ∧
    ((∀ f ∈ p.functions, f.name ≠ name) → r = none)
  fault _ := True
  missing _ _ := trivial
  depth := trivial
  stores_refl _ _ _ _ _ _ _ _ _ _ _ := .inl rfl

/-- A method returns a value of a type without bounds if its kind is right. -/
theorem DataType.returns_of_haveKinds {ty : DataType} (hbounds : ty.bounds? = none)
    {r : Option Value} (h : HaveKinds ty.kind?.toList r.toList) : ty.Returns r := by
  cases hk : ty.kind? with
  | none =>
    rw [hk] at h
    cases r with
    | none =>
      refine ⟨fun k hk' => ?_, fun _ => rfl⟩
      cases hk.symm.trans hk'
    | some v => cases h
  | some k =>
    rw [hk] at h
    cases r with
    | none => cases h
    | some v =>
      obtain ⟨hv, -⟩ := List.forall₂_cons.1 h
      refine ⟨fun _ _ => ⟨v, rfl, .of_bounds? hbounds fun k' hk' => ?_⟩, fun hnone => ?_⟩
      · cases hk.symm.trans hk'
        exact hv
      · cases hk.symm.trans hnone

/-- Arguments fit the parameters that they are passed for. -/
theorem passedMeaning_gives {W : Rules} (hfault : ∀ out e, W.fault out e)
    (args : List (Given × DataType))
    (hargs : ∀ a ∈ args, a.1.value.Gives (Value.Fits a.1.ty) ∧ a.1.ty.Passes a.2) :
    (passedMeaning W args).Gives fun vs => List.Forall₂ Value.Fits (args.map (·.2)) vs := by
  induction args with
  | nil => exact .pure .nil
  | cons a rest ih =>
    obtain ⟨⟨hvalue, hpasses⟩, hrest⟩ := List.forall_mem_cons.1 hargs
    exact hvalue.bind fun v hv => (Rules.converted_gives hfault hpasses hv).bind fun w hw =>
      (ih hrest).bind fun vs hvs => .pure (.cons hw hvs)

/-- The types of arguments pass for those of parameters. -/
theorem passes_of_types {σ : Names} {name : String} {args : List Expr} {callee : Callable}
    (hcall : σ.CallsFunction name args callee) {gs : List Given}
    (htypes : gs.map (·.ty) = args.map Expr.ty) {a : Given × DataType}
    (ha : a ∈ gs.zip callee.params) : a.1.ty.Passes a.2 := by
  have hmem : (a.1.ty, a.2) ∈ (args.map Expr.ty).zip callee.params := by
    rw [← htypes, List.zip_map_left]
    exact List.mem_map.2 ⟨a, ha, rfl⟩
  rw [List.zip_map_left] at hmem
  obtain ⟨e, he, heq⟩ := List.mem_map.1 hmem
  have hty : e.1.ty = a.1.ty := congrArg Prod.fst heq
  have hparam : e.2 = a.2 := congrArg Prod.snd heq
  rw [← hty, ← hparam]
  exact hcall.passes e he

theorem haveKinds_of_fits {types : List DataType} {vs : List Value}
    (hsome : ∀ ty ∈ types, ty.kind?.isSome) (h : List.Forall₂ Value.Fits types vs) :
    HaveKinds (types.filterMap DataType.kind?) vs := by
  induction h with
  | nil => exact .nil
  | cons hv _ ih =>
    obtain ⟨hfirst, hrest⟩ := List.forall_mem_cons.1 hsome
    obtain ⟨k, hk⟩ := Option.isSome_iff_exists.1 hfirst
    rw [List.filterMap_cons, hk]
    exact .cons (hv.kind k hk) (ih hrest)

section Operands

variable {c : ClassFile} {W : Rules} (hfault : ∀ out e, W.fault out e) {callee : Member}
  {args : List Value} {P : Option Value → Prop}
  (hcount : ∀ params ∈ Descriptor.parameters? callee.descriptor, params.length = args.length)
include hfault hcount

theorem Rules.reads_gives : (W.reads callee args).Gives fun _ => True := by
  intro Q out hQ
  unfold reads
  cases hparams : Descriptor.parameters? callee.descriptor with
  | none => exact hfault out
  | some params => exact ⟨hcount params hparams, hQ out () trivial⟩

/-- A call without receiver goes wrong only where the descriptor cannot be read. -/
theorem Rules.calls_gives (hcalled : Spec.Gives (W.called c callee none args) P) :
    (W.calls c callee args).Gives P :=
  (reads_gives hfault hcount).bind fun _ _ => hcalled

/-- A call of a method of an object goes wrong where the object is missing, too. -/
theorem Rules.sends_gives {receiver : Value} (hcalled : receiver.isReference = true →
      Spec.Gives (W.called c callee (some receiver) args) P) :
    (W.sends c callee receiver args).Gives P := by
  refine (reads_gives hfault hcount).bind fun _ _ Q out hQ => ?_
  unfold received
  by_cases hreference : receiver.isReference = true
  · rw [if_neg (by simp [hreference])]
    split
    · exact hfault out _
    · exact hcalled hreference Q out hQ
  · rw [if_pos (eq_false_of_ne_true hreference)]
    exact hfault out

end Operands

section Calls

variable {options : Options} {p : Program} {c : ClassFile} {table : CallTable}
  (h : Compiled options [] p c table)
  (hundivided : ∀ f ∈ p.functions, ∀ q ∈ f.params, q.ty.Undivided) (caller : String)

theorem filterMap_kind?_eq {types types' : List DataType}
    (h : types.map Descriptor.ofType = types'.map Descriptor.ofType) :
    types.filterMap DataType.kind? = types'.filterMap DataType.kind? := by
  induction types generalizing types' with
  | nil => rw [List.map_eq_nil_iff.1 h.symm]
  | cons ty types ih =>
    obtain ⟨ty', rest, rfl, hty, hrest⟩ := List.map_eq_cons_iff.1 h.symm
    rw [List.filterMap_cons, List.filterMap_cons, Descriptor.kind?_eq_of_ofType hty.symm,
      ih hrest.symm]

/-- **Calls of wide methods**: where a library method is called but the class has a function of that
name and descriptor itself, no parameter is narrow, and the result has the kind that is told. -/
structure Wide (callee : Member) (types : List DataType) (result : DataType) : Prop where
  descriptor : callee.descriptor = Descriptor.ofMethod types result
  types : ∀ ty ∈ types, (ty.Clean ∧ ty.kind?.isSome) ∧ ty.bounds? = none
  result : result.bounds? = none
  entry : callee.descriptor ≠ Descriptor.entryPoint

/-- Methods on two numbers of a type. -/
theorem Wide.pair {callee : Member} {ty result : DataType}
    (hdescriptor : callee.descriptor = Descriptor.ofMethod [ty, ty] result ∧
      callee.descriptor ≠ Descriptor.entryPoint)
    (hty : (ty.Clean ∧ ty.kind?.isSome) ∧ ty.bounds? = none) (hresult : result.bounds? = none) :
    Wide callee [ty, ty] result := by
  refine ⟨hdescriptor.1, fun ty' hmem => ?_, hresult, hdescriptor.2⟩
  obtain rfl : ty' = ty := by simpa using hmem
  exact hty

/-- The descriptor is read as it was written. -/
theorem Wide.length_params {callee : Member} {types : List DataType} {result : DataType}
    (h : Wide callee types result) {params : List String}
    (hparams : params ∈ Descriptor.parameters? callee.descriptor) : params.length = types.length := by
  rw [h.descriptor, Descriptor.parameters?_ofMethod result fun ty hty => (h.types ty hty).1] at hparams
  cases hparams
  exact List.length_map _

/-- **Arguments that are no more than the parameters**: they leave no number among the variables behind
those, whichever function of the same kinds it is. -/
def Program.Confines (p : Program) (types : List DataType) (receiver : Option Value)
    (args : List Value) : Prop :=
  ∀ f ∈ p.functions,
    (f.params.map (·.ty)).filterMap DataType.kind? = types.filterMap DataType.kind? →
    ∀ n i k, f.reservedSlots + Locals.paramsWidth f.params ≤ i →
      (Frame.initialLocals n receiver args)[i]? ≠ some (.int k)

include h hundivided

theorem Compiled.own_gives {callee : Member} {types : List DataType} {result : DataType}
    (hcallee : Wide callee types result) {receiver : Option Value} {args : List Value}
    (hconfined : p.Confines types receiver args) :
    Spec.Gives (((rangeContract options p c table).rules c caller).own callee receiver args)
      result.Returns := by
  intro Q out hQ method hfind
  have hread := hcallee.descriptor
  have htypes : ∀ ty ∈ types, ty.Clean ∧ ty.kind?.isSome := fun ty hty => (hcallee.types ty hty).1
  rcases h.find?_cases hfind with ⟨hname, hm, hnames⟩ | ⟨f, hf, hname, hfd, hm⟩
  · refine ⟨.inl ⟨hname, hm, hnames⟩, fun out r hr => ?_⟩
    -- the added constructor returns nothing, as its descriptor says
    obtain rfl : r = none := hr.2 (hname ▸ hnames)
    have htexts := List.find?_some hfind
    simp only [Bool.and_eq_true, beq_iff_eq, hm.descriptor, Option.some.injEq] at htexts
    have hvoid : Descriptor.ofMethod types result = Descriptor.ofMethod [] .void := by
      rw [← hread, ← htexts.2]
      decide
    have hresult := (Descriptor.ofMethod_inj (by simp) htypes hvoid.symm).2
    have hnone := Descriptor.kind?_eq_none_iff.2 hresult.symm
    refine hQ out none ⟨fun k hk => ?_, fun _ => rfl⟩
    cases hnone.symm.trans hk
  · have hentry : f.isEntryPoint = false := by
      by_contra he
      have he : f.isEntryPoint = true := by simpa using he
      exact hcallee.entry (hfd.symm.trans (FunDef.descriptor_of_entryPoint he))
    have hkinds := h.kind?_of_mem_params hf
    rw [hread, FunDef.descriptor_eq hentry] at hfd
    obtain ⟨hparams, hresult⟩ := Descriptor.ofMethod_inj (by
      intro ty hty
      obtain ⟨q, hq, rfl⟩ := List.mem_map.1 hty
      exact ⟨hundivided f hf q hq, hkinds q hq⟩) htypes hfd
    refine ⟨.inr ⟨f, hf, hname, hm, hm.ranged (fun q hq hnarrow => ?_) ?_⟩, fun out r hr => ?_⟩
    · have hmem : Descriptor.ofType q.ty ∈ types.map Descriptor.ofType := by
        rw [← hparams]
        exact List.mem_map.2 ⟨q.ty, List.mem_map.2 ⟨q, hq, rfl⟩, rfl⟩
      obtain ⟨ty, hty, heq⟩ := List.mem_map.1 hmem
      rw [Descriptor.bounds?_of_ofType heq.symm (hcallee.types ty hty).2] at hnarrow
      cases hnarrow
    · exact hconfined f hf (filterMap_kind?_eq hparams) _
    · have hreturns := hr.1 f hf hname
      have hkind := Descriptor.kind?_eq_of_ofType hresult
      refine hQ out r ⟨fun k hk => ?_, fun hnone => hreturns.none (hkind.trans hnone)⟩
      obtain ⟨v, rfl, hv⟩ := hreturns.value k (hkind.trans hk)
      refine ⟨v, rfl, .of_bounds? hcallee.result fun k' hk' => hv.kind k' (hkind.trans hk')⟩

/-- A call of a library method, or of a function that stands in its place. -/
theorem Compiled.called_gives {callee : Member} {types : List DataType} {result : DataType}
    (hcallee : Wide callee types result) {receiver : Option Value} {args : List Value}
    (hconfined : p.Confines types receiver args)
    (hlibrary : ∀ effect, libraryCall callee receiver args = .ok effect →
      effect.Gives result.kind?) :
    Spec.Gives (((rangeContract options p c table).rules c caller).called c callee receiver args)
      result.Returns := by
  intro Q out hQ
  by_cases howner : callee.owner = c.name?.getD ""
  · rw [Rules.called, if_pos howner]
    exact h.own_gives hundivided caller hcallee hconfined Q out hQ
  · exact called_library howner (fun _ _ => trivial) hlibrary fun out r hr =>
      hQ out r (DataType.returns_of_haveKinds hcallee.result hr)

/-! ### The library -/

/-- **Unsigned arithmetic gives numbers**, also where the class has functions in its place. -/
theorem Compiled.libraryValue_gives {callee : Member} {k : Kind} {result : DataType}
    {kind : Kind} {a b : Value} {ty : DataType} (hcallee : Wide callee [ty, ty] result)
    (hty : ty.kind? = some k) (hkind : result.kind? = some kind)
    (ha : a.hasKind k = true) (hb : b.hasKind k = true)
    (hlibrary : ∀ effect, libraryCall callee none [a, b] = .ok effect →
      effect.Gives result.kind?) :
    (((rangeContract options p c table).rules c caller).libraryValue c callee a b).Gives
      fun v => v.hasKind kind = true := by
  have hvalues : HaveKinds [k, k] [a, b] := .cons ha (.cons hb .nil)
  have hconfined : p.Confines [ty, ty] none [a, b] := by
    intro f hf hsame n i v hi
    -- the arguments have as many words as the parameters of the function
    have hwidth := Locals.paramsWidth_eq (h.kind?_of_mem_params hf)
    have hwords := hvalues.length_slots
    rw [hsame] at hwidth
    simp only [List.filterMap_cons, hty, List.filterMap_nil] at hwidth
    apply initialLocals_of_le
    simp only [Option.toList_none, List.nil_append, hwords]
    omega
  have hcalls : (((rangeContract options p c table).rules c caller).calls c callee [a, b]).Gives
      result.Returns :=
    Rules.calls_gives (fun _ _ => trivial) (fun _ => hcallee.length_params)
      (h.called_gives hundivided caller hcallee hconfined hlibrary)
  refine hcalls.bind fun r hr => ?_
  obtain ⟨v, rfl, hv⟩ := hr.value kind hkind
  exact .pure (hv.kind kind hkind)

/-- **A constructor gives nothing back**, whatever its class. -/
theorem Compiled.constructor_gives (cls : String) (receiver : Value) :
    (((rangeContract options p c table).rules c caller).sends c ⟨cls, "<init>", "()V"⟩ receiver
      []).Gives (· = none) := by
  have hdescriptor : "()V" = Descriptor.ofMethod [] .void ∧ "()V" ≠ Descriptor.entryPoint := by
    decide
  have hcallee : Wide ⟨cls, "<init>", "()V"⟩ [] .void := ⟨hdescriptor.1, nofun, rfl, hdescriptor.2⟩
  refine Rules.sends_gives (fun _ _ => trivial) (fun _ => hcallee.length_params) fun hreference => ?_
  refine (h.called_gives hundivided caller hcallee ?_ ?_).mono fun r hr => hr.none rfl
  · intro f _ _ n i k _
    refine initialLocals_of_references ?_ nofun
    rintro v ⟨⟩
    exact hreference
  · exact fun effect heffect => libraryCall_constructor_gives cls heffect

/-- **The text functions give values of their types**. -/
theorem Compiled.text_gives {b : Callable} (hb : b ∈ builtins) (hfirst : b.receiver = .firstArg)
    (receiver : Value) {vs : List Value} (hvs : List.Forall₂ Value.Fits b.params.tail vs) :
    (((rangeContract options p c table).rules c caller).sends c b.member receiver vs).Gives
      b.returnType.Returns := by
  have htexts : ∀ b ∈ builtins, b.receiver = .firstArg →
      (∀ ty ∈ b.params.tail, ty.kind? = some .reference) ∧ b.returnType.bounds? = none ∧
      b.descriptor ≠ Descriptor.entryPoint ∧
      ∃ types ∈ [[.string], [], [.ptr .void]],
        b.descriptor = Descriptor.ofMethod types b.returnType ∧
        types.length = b.params.tail.length := by
    decide
  obtain ⟨hrefs, hresult, hentry, types, hmem, hdescriptor, hlength⟩ := htexts b hb hfirst
  have hcallee : Wide b.member types b.returnType := by
    refine ⟨hdescriptor, fun ty hty => ?_, hresult, hentry⟩
    have hshape : ty = .string ∨ ty = .ptr .void := by
      simp only [List.mem_cons, List.not_mem_nil, or_false] at hmem
      rcases hmem with rfl | rfl | rfl
      · exact .inl (List.mem_singleton.1 hty)
      · cases hty
      · exact .inr (List.mem_singleton.1 hty)
    rcases hshape with rfl | rfl <;> exact ⟨⟨trivial, rfl⟩, rfl⟩
  refine Rules.sends_gives (fun _ _ => trivial) (fun params hparams => ?_) fun hreference => ?_
  · rw [hcallee.length_params hparams, hlength, hvs.length_eq]
  · refine h.called_gives hundivided caller hcallee ?_ fun effect => libraryCall_builtin_gives hb
    intro f _ _ n i k _
    refine initialLocals_of_references ?_ fun v hv => ?_
    · rintro v ⟨⟩
      exact hreference
    · obtain ⟨ty, hty, hfits⟩ := forall₂_right hvs hv
      exact hfits.kind _ (hrefs ty hty)

omit hundivided in
/-- **Printing gives nothing back**: the class has no function of that name. -/
theorem Compiled.print_gives {b : Callable} (hb : b ∈ builtins) (hfirst : b.receiver ≠ .firstArg)
    (hnone : p.function? b.name = none) (receiver : Value) {vs : List Value}
    (hlength : vs.length = b.params.length) :
    (((rangeContract options p c table).rules c caller).sends c b.member receiver vs).Gives
      b.returnType.Returns := by
  have hprints : ∀ b ∈ builtins, b.receiver ≠ .firstArg →
      b.methodName = b.name ∧ b.name ≠ constructorName ∧ b.returnType.bounds? = none ∧
      ∀ params ∈ Descriptor.parameters? b.descriptor, params.length = b.params.length := by
    decide
  obtain ⟨hname, hconstructor, hresult, hcount⟩ := hprints b hb hfirst
  refine Rules.sends_gives (fun _ _ => trivial) (hlength ▸ hcount) fun _ Q out hQ => ?_
  by_cases howner : b.member.owner = c.name?.getD ""
  · rw [Rules.called, if_pos howner]
    intro method hfind
    rcases h.find?_cases hfind with ⟨hm, -, -⟩ | ⟨f, hf, hm, -, -⟩
    · exact absurd (hname.symm.trans hm) hconstructor
    · have hm : f.name = b.name := hm.trans hname
      rw [← hm, h.function?_eq hf] at hnone
      cases hnone
  · exact called_library howner (fun _ _ => trivial)
      (fun effect => libraryCall_builtin_gives hb) fun out r hr =>
        hQ out r (DataType.returns_of_haveKinds hresult hr)

/-- If the descriptor of a function can be read, it asks for what callers pass. -/
theorem Compiled.length_parameters {f : FunDef} (hf : f ∈ p.functions) {callee : Callable}
    (hregisters : Callable.Registers p.name f callee) {params : List String}
    (hparams : params ∈ Descriptor.parameters? callee.descriptor) :
    params.length = callee.hiddenArgs.length + callee.params.length := by
  rw [hregisters.hiddenArgs, hregisters.params]
  obtain ⟨j, rfl⟩ := hregisters
  simp only [Callable.ofFunction] at hparams
  cases hentry : f.isEntryPoint with
  | true =>
    rw [hentry, if_pos rfl, Descriptor.parameters?_entryPoint] at hparams
    cases hparams
    rw [FunDef.hiddenArgs, if_pos hentry, (FunDef.entryPoint_cases hentry).2.2.1]
    rfl
  | false =>
    rw [hentry, if_neg (by simp)] at hparams
    have htypes : ∀ ty ∈ f.params.map (·.ty), ty.Undivided ∧ ty.kind?.isSome := by
      intro ty hty
      obtain ⟨q, hq, rfl⟩ := List.mem_map.1 hty
      exact ⟨hundivided f hf q hq, h.kind?_of_mem_params hf q hq⟩
    rcases Descriptor.parameters?_ofMethod_cases f.returnType htypes with hread | hread
    · rw [hread] at hparams
      cases hparams
    · rw [hread] at hparams
      cases hparams
      simp [FunDef.hiddenArgs, hentry]

omit hundivided in
/-- **Functions give values of their types** if their arguments fit. -/
theorem Compiled.function_gives {f : FunDef} (hf : f ∈ p.functions) {callee : Callable}
    (hregisters : Callable.Registers p.name f callee) (receiver : Option Value)
    (hreceiver : receiver.isSome = !f.isStatic) {vs : List Value}
    (hvs : List.Forall₂ Value.Fits callee.params vs) :
    Spec.Gives (((rangeContract options p c table).rules c caller).called c callee.member receiver
      (callee.hiddenArgs ++ vs)) callee.returnType.Returns := by
  intro Q out hQ
  have hsome := h.kind?_of_mem_params hf
  rw [hregisters.params] at hvs
  rw [hregisters.hiddenArgs, hregisters.member, Rules.called, if_pos (by rw [h.name?_eq]; rfl)]
  rw [hregisters.returnType] at hQ
  intro method hfind
  rcases h.find?_cases hfind with ⟨hname, -, hnames⟩ | ⟨g, hg, hname, -, hm⟩
  · exact absurd hname (hnames f hf)
  · obtain rfl : f = g := h.eq_of_name hf hg hname.symm
    refine ⟨.inr ⟨f, hf, rfl, hm, hm.ranged_initialLocals _ hreceiver
      (FunDef.haveKinds_hiddenArgs (haveKinds_of_fits ?_ hvs)) ?_⟩, fun out r hr =>
      hQ out r (hr.1 f hf rfl)⟩
    · intro ty hty
      obtain ⟨q, hq, rfl⟩ := List.mem_map.1 hty
      exact hsome q hq
    · rw [FunDef.drop_hiddenArgs]
      exact List.forall₂_map_left_iff.1 hvs

/-- The built-in methods give values of their types. -/
theorem Compiled.builtin_gives {b : Callable} (hb : b ∈ builtins)
    (hnone : p.function? b.name = none) (L : Array Value) {args : List (Given × DataType)}
    (hargs : ∀ a ∈ args, a.1.value.Gives (Value.Fits a.1.ty) ∧ a.1.ty.Passes a.2)
    (hparams : args.map (·.2) = b.params) (hfirst : b.receiver = .firstArg → args ≠ []) :
    (calleeMeaning c ((rangeContract options p c table).rules c caller) L b args).Gives
      b.returnType.Returns := by
  have hfault : ∀ out e, ((rangeContract options p c table).rules c caller).fault out e :=
    fun _ _ => trivial
  have hhidden : b.hiddenArgs = [] := by
    have hentry : ∀ b ∈ builtins, b.entryPoint = false := by decide
    simp [Callable.hiddenArgs, hentry b hb]
  rcases receiver_builtins b hb with hr | hr
  · cases args with
    | nil => exact absurd rfl (hfirst hr)
    | cons a rest =>
      obtain ⟨⟨hvalue, hpasses⟩, hrest⟩ := List.forall_mem_cons.1 hargs
      simp only [calleeMeaning, hr, sendMeaning, hhidden, List.nil_append]
      refine hvalue.bind fun v hv => (Rules.converted_gives hfault hpasses hv).bind fun this _ => ?_
      refine (passedMeaning_gives hfault rest hrest).bind fun vs hvs => ?_
      apply h.text_gives hundivided caller hb hr this
      rwa [← hparams]
  · simp only [calleeMeaning, hr, sendMeaning, hhidden, List.nil_append]
    refine (Rules.fieldValue_gives hfault _).bind fun receiver _ => ?_
    refine (passedMeaning_gives hfault _ hargs).bind fun vs hvs => ?_
    rw [hparams] at hvs
    exact h.print_gives caller hb (by simp [hr]) hnone receiver hvs.length_eq.symm

/-- **Whatever a call by name means**, it gives a value of the type of the callee. -/
theorem Compiled.callee_gives {σ : Names} (hσ : σ.scope.table = table) {name : String}
    {args : List Expr} {callee : Callable} (hcall : σ.CallsFunction name args callee)
    (L : Array Value) (gs : List Given) (htypes : gs.map (·.ty) = args.map Expr.ty)
    (hgs : ∀ g ∈ gs, g.value.Gives (Value.Fits g.ty)) :
    (calleeMeaning c ((rangeContract options p c table).rules c caller) L callee
      (gs.zip callee.params)).Gives callee.returnType.Returns := by
  have hfault : ∀ out e, ((rangeContract options p c table).rules c caller).fault out e :=
    fun _ _ => trivial
  obtain ⟨i, hresolve⟩ := hcall.resolved
  rw [hσ] at hresolve
  have hcount : gs.length = args.length := by simpa using congrArg List.length htypes
  have hlength : callee.params.length = gs.length := by rw [hcount, hcall.length_params]
  have hparams : (gs.zip callee.params).map (·.2) = callee.params :=
    List.map_snd_zip (Nat.le_of_eq hlength)
  have hargs : ∀ a ∈ gs.zip callee.params,
      a.1.value.Gives (Value.Fits a.1.ty) ∧ a.1.ty.Passes a.2 := fun a ha =>
    ⟨hgs _ (List.of_mem_zip ha).1, passes_of_types hcall htypes ha⟩
  -- a method of the runtime or a function of the program, with a receiver or without
  rcases h.callee_cases (CallTable.mem_of_resolve hresolve) with hb | ⟨f, hf, hregisters⟩
  · have hname : callee.name = name := (CallTable.resolve_ok hresolve).2.1
    have hnone : p.function? callee.name = none := hname ▸ (h.not_defined hresolve hb).1
    refine h.builtin_gives hundivided caller hb hnone L hargs hparams fun hr hnil => hcall.first hr ?_
    rw [List.zip_eq_nil_iff] at hnil ⊢
    exact hnil.imp_left fun hgs => List.length_eq_zero_iff.1 (by rw [← hcount, hgs]; rfl)
  · have hpassed := passedMeaning_gives hfault _ hargs
    rw [hparams] at hpassed
    have hcount {vs : List Value} (hvs : List.Forall₂ Value.Fits callee.params vs) :
        ∀ params ∈ Descriptor.parameters? callee.member.descriptor,
          params.length = (callee.hiddenArgs ++ vs).length := by
      intro params hread
      rw [List.length_append, ← hvs.length_eq, h.length_parameters hundivided hf hregisters hread]
    have hreceiver := hregisters.receiver
    cases hstatic : f.isStatic with
    | true =>
      rw [hstatic, if_pos rfl] at hreceiver
      simp only [calleeMeaning, hreceiver]
      refine hpassed.bind fun vs hvs => Rules.calls_gives hfault (hcount hvs) ?_
      exact h.function_gives caller hf hregisters none (by simp [hstatic]) hvs
    | false =>
      rw [hstatic, if_neg (by simp)] at hreceiver
      simp only [calleeMeaning, hreceiver]
      refine (Rules.loaded_gives hfault L .reference 0).bind fun this _ => ?_
      refine hpassed.bind fun vs hvs => Rules.sends_gives hfault (hcount hvs) fun _ => ?_
      exact h.function_gives caller hf hregisters (some this) (by simp [hstatic]) hvs

/-- **Under the contract, calls give values of their types**. -/
theorem Compiled.keep {σ : Names} (hσ : σ.scope.table = table) :
    ((rangeContract options p c table).rules c caller).Keep c σ where
  fault _ _ := trivial
  ints name a b ha hb := by
    have hdescriptor : "(II)I" = Descriptor.ofMethod [.i32, .i32] .i32 ∧
        "(II)I" ≠ Descriptor.entryPoint := by decide
    exact h.libraryValue_gives hundivided caller (.pair hdescriptor ⟨⟨trivial, rfl⟩, rfl⟩ rfl) rfl rfl
      ha hb fun effect heffect => intCall_gives heffect
  longs op name hop a b ha hb := by
    have hdescriptor : "(JJ)J" = Descriptor.ofMethod [.i64, .i64] .i64 ∧
        "(JJ)J" ≠ Descriptor.entryPoint := by decide
    refine h.libraryValue_gives hundivided caller (.pair hdescriptor ⟨⟨trivial, rfl⟩, rfl⟩ rfl) rfl rfl
      ha hb fun effect heffect => ?_
    have hgives : effect.Gives (some (if name = "compareUnsigned" then .int else .long)) :=
      longCall_gives heffect
    rwa [if_neg] at hgives
    rintro rfl
    cases op <;> simp [Arith.unsignedMethod?] at hop
  orders a b ha hb := by
    have hdescriptor : "(JJ)I" = Descriptor.ofMethod [.i64, .i64] .i32 ∧
        "(JJ)I" ≠ Descriptor.entryPoint := by decide
    exact h.libraryValue_gives hundivided caller (.pair hdescriptor ⟨⟨trivial, rfl⟩, rfl⟩ rfl) rfl rfl
      ha hb fun effect heffect => longCall_gives heffect
  calls hcall L gs htypes hgs := h.callee_gives hundivided caller hσ hcall L gs htypes hgs

end Calls

end ClassFoundry
