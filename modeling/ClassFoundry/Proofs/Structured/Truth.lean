import ClassFoundry.Proofs.ExactComparisons

/-!
# The truth of conditions

What expressions come to where every operand of an operation is a number, said of the tree and of the
locals alone. Operands come one after the other, from left to right; comparisons decide on the order of
two numbers, any other number is true unless it is zero, and the right side of a connective counts only
if the left one leaves it open. Calls are whatever the rules make of them, those of methods of objects
among them. The code of an expression comes to just that. The order of numbers that are misordered is
left open.

## Main definitions

* `numberOf`: the number that a computation of a type comes to
* `comparandOf`: the number that a side of a comparison comes to
* `objectMeaning`: a call of a method of an object
* `evaluated`: what an expression comes to, as a value and as a condition

## Main results

* `compareMeaning_numbers`, `arithMeaning_numbers`, `unaryMeaning_number`, `nonzeroMeaning_number`: the
  meaning of operations whose operands are numbers
* `select_evaluated`: the code of an expression comes to what the expression does
-/

namespace ClassFoundry

/-! ## Numbers -/

/-- The number in a value of a type. Nothing is known of values of another kind. -/
def numberIn (ty : DataType) (v : Value) : Spec Number :=
  match ty.kind?, v with
  | some .int, .int i => pure (.int i)
  | some .long, .long l => pure (.long l)
  | _, _ => Spec.never

/-- **The number that a computation comes to**. -/
def numberOf (ty : DataType) (value : Spec Value) : Spec Number := do
  let v ← value
  numberIn ty v

/-- A computation that is known only where it comes to a number. -/
def numbersOnly (ty : DataType) (value : Spec Value) : Spec Value := do
  let n ← numberOf ty value
  return n.toValue

/-- A number as a side of a comparison with numbers of another type. Nothing is known of one that is
misordered among those. -/
def comparand (op : Comparison) (ty other : DataType) (n : Number) : Spec Number :=
  if op.isOrdered = true ∧ ty.Misorders other (n.toLong false).toInt 0 then Spec.never else pure n

/-- **The number that a side of a comparison comes to**. -/
def comparandOf (op : Comparison) (ty other : DataType) (value : Spec Value) : Spec Number := do
  let n ← numberOf ty value
  comparand op ty other n

/-- A computation that is known only where it comes to a number that can be compared. -/
def comparandsOnly (op : Comparison) (ty other : DataType) (value : Spec Value) : Spec Value := do
  let n ← comparandOf op ty other value
  return n.toValue

section Numbers

variable {α : Type} {ty : DataType}

/-- A value is a number of the type, or nothing is known. -/
theorem numberIn_cases (ty : DataType) (v : Value) :
    (∃ n : Number, ty.IsNumber ∧ n.isLong = ty.isLong ∧ v = n.toValue ∧ numberIn ty v = pure n) ∨
      numberIn ty v = Spec.never := by
  unfold numberIn
  split <;> rename_i hkind
  · exact .inl ⟨.int _, .inl hkind, by simp [DataType.isLong, hkind, Number.isLong], rfl, rfl⟩
  · exact .inl ⟨.long _, .inr hkind, by simp [DataType.isLong, hkind, Number.isLong], rfl, rfl⟩
  · exact .inr rfl

/-- What follows depends only on numbers of the type. -/
theorem numberIn_congr (v : Value) {f g : Number → Spec α}
    (h : ty.IsNumber → ∀ n : Number, n.isLong = ty.isLong → f n = g n) :
    numberIn ty v >>= f = numberIn ty v >>= g := by
  obtain ⟨n, hty, hn, -, hv⟩ | hv := numberIn_cases ty v
  · rw [hv, Spec.pure_bind, Spec.pure_bind, h hty n hn]
  · rw [hv]
    rfl

theorem numberOf_congr (value : Spec Value) {f g : Number → Spec α}
    (h : ty.IsNumber → ∀ n : Number, n.isLong = ty.isLong → f n = g n) :
    numberOf ty value >>= f = numberOf ty value >>= g := by
  have hrest : (fun v => numberIn ty v >>= f) = fun v => numberIn ty v >>= g :=
    funext fun v => numberIn_congr v h
  show (value >>= fun v => numberIn ty v >>= f) = value >>= fun v => numberIn ty v >>= g
  rw [hrest]

theorem comparand_cases (op : Comparison) (ty other : DataType) (n : Number) :
    comparand op ty other n = pure n ∨ comparand op ty other n = Spec.never := by
  unfold comparand
  split
  · exact .inr rfl
  · exact .inl rfl

theorem comparandOf_congr (op : Comparison) (other : DataType) (value : Spec Value)
    {f g : Number → Spec α} (h : ty.IsNumber → ∀ n : Number, n.isLong = ty.isLong → f n = g n) :
    comparandOf op ty other value >>= f = comparandOf op ty other value >>= g := by
  refine numberOf_congr value fun hty n hn => ?_
  show (comparand op ty other n >>= f) = comparand op ty other n >>= g
  rcases comparand_cases op ty other n with hknown | hnever
  · rw [hknown, Spec.pure_bind, Spec.pure_bind, h hty n hn]
  · rw [hnever]
    rfl

/-- A type without numbers has none. -/
theorem numberOf_of_not_isNumber (hty : ¬ ty.IsNumber) (value : Spec Value) :
    numberOf ty value = value >>= fun _ => Spec.never := by
  have hnone : numberIn ty = fun _ => Spec.never := by
    funext v
    obtain ⟨_, hnumber, _⟩ | hv := numberIn_cases ty v
    · exact absurd hnumber hty
    · exact hv
  show (value >>= numberIn ty) = _
  rw [hnone]

end Numbers

/-! ## Operations on numbers -/

section Operations

variable {c : ClassFile} {W : Rules} {lhs rhs ty : DataType} (l r : Spec Value)

/-- A number is tested for zero. -/
theorem nonzeroMeaning_number (W : Rules) (ty : DataType) (m : Spec Value) :
    nonzeroMeaning W ty (numbersOnly ty m) = do
      let n ← numberOf ty m
      return n.isTrue := by
  refine numberOf_congr m fun _ n hn => ?_
  -- an int is tested as it is, a long is compared to zero first
  show (if ty.isLong then _ else _ : Spec Bool) = _
  rw [← hn]
  cases n with
  | int i =>
    show (pure (Comparison.holds .ne (orderInts i 0)) : Spec Bool) = _
    rw [isTrue_int]
    rfl
  | long v =>
    show W.comparedToZero .ne (.int (Ordering.toInt32 (orderLongs v 0))) = _
    rw [W.comparedToZero_order, isTrue_long]
    rfl

theorem unaryMeaning_number (op : UnaryArith) :
    unaryMeaning W op lhs ty (numbersOnly lhs l) = do
      let a ← numberOf lhs l
      return (op.onNumber lhs ty a).toValue :=
  numberOf_congr l fun hlhs _ ha => W.unary_number ty op hlhs ha

theorem arithMeaning_numbers {op : Arith} (hhelper : op.helper? ty ≠ some (c.name?.getD "")) :
    arithMeaning c W op lhs rhs ty (numbersOnly lhs l) (numbersOnly rhs r) = do
      let a ← numberOf lhs l
      let b ← numberOf rhs r
      let n ← W.divided (op.onNumbers lhs rhs ty a b)
      return n.toValue := by
  refine numberOf_congr l fun hlhs a ha => ?_
  -- the left operand is widened before the right one is computed
  obtain ⟨x, hx⟩ := W.exists_widened hlhs ha ty.numberKind
  show (W.widened lhs ty.numberKind a.toValue >>= fun x => numberOf rhs r >>= fun b =>
    W.widened rhs (if op.isShift then .int else ty.numberKind) b.toValue >>= fun y =>
    W.arith c op ty x y >>= fun v => W.narrowed ty v) = _
  rw [hx, Spec.pure_bind]
  refine numberOf_congr r fun hrhs b hb => ?_
  have harith := W.arith_numbers op hhelper hlhs hrhs ha hb
  rwa [hx, Spec.pure_bind] at harith

theorem compareMeaning_numbers {op : Comparison}
    (hhelper : op.helper? lhs rhs ≠ some (c.name?.getD ""))
    (hnumbers : ¬ (lhs.kind? = some .reference ∧ rhs.kind? = some .reference)) :
    compareMeaning c W op lhs rhs (comparandsOnly op lhs rhs l) (comparandsOnly op rhs lhs r) = do
      let a ← comparandOf op lhs rhs l
      let b ← comparandOf op rhs lhs r
      return op.holds (orderNumbers lhs rhs a b) := by
  let kind := if lhs.isLong || rhs.isLong then Kind.long else .int
  unfold compareMeaning
  rw [if_neg hnumbers]
  refine comparandOf_congr op rhs l fun hlhs a ha => ?_
  obtain ⟨x, hx⟩ := W.exists_widened hlhs ha kind
  show (W.widened lhs kind a.toValue >>= fun x => comparandOf op rhs lhs r >>= fun b =>
    W.widened rhs kind b.toValue >>= fun y =>
    W.compared c op ((lhs.needsUnsignedOps || rhs.needsUnsignedOps) && op.isOrdered)
      (lhs.isLong || rhs.isLong) x y) = _
  rw [hx, Spec.pure_bind]
  refine comparandOf_congr op lhs r fun hrhs b hb => ?_
  have hcompared := W.compared_numbers op hhelper hlhs hrhs ha hb
  rwa [hx, Spec.pure_bind] at hcompared

end Operations

/-! ## Expressions -/

/-- An expression that is a number: it holds unless it is zero. -/
def Meaning.ofNumber (ty : DataType) (value : Spec Value) : Meaning where
  value
  test := do
    let n ← numberOf ty value
    return n.isTrue

/-- Arguments as they are, from left to right. -/
def plainMeaning : List Given → Spec (List Value)
  | [] => pure []
  | a :: rest => do
    let v ← a.value
    let vs ← plainMeaning rest
    return v :: vs

section Expressions

variable (c : ClassFile) (W : Rules) (L : Array Value) (σ : Names)

/-- **A call of a method of the object in a variable**. -/
def objectMeaning (object name : String) (args : List Given) (ty : DataType) : Spec (Option Value) :=
  match σ.look object with
  | some slot =>
    match slot.ty.className? with
    | some cls => do
      let receiver ← W.loaded L .reference slot.slot
      let vs ← plainMeaning args
      W.sends c ⟨cls, name, Descriptor.ofMethod (args.map (·.ty)) ty⟩ receiver vs
    | none => Spec.never
  | none => Spec.never

/-- A call, on an object or by name. -/
def invocation (object : Option String) (name : String) (args : List Given) (ty : DataType) :
    Spec (Option Value) :=
  match object with
  | some object => objectMeaning c W L σ object name args ty
  | none => callMeaning c W L σ none name args

mutual

/-- **What an expression comes to** under names and locals. -/
def evaluated : Expr → Meaning
  | .ident name ty => .ofNumber ty (variableMeaning W L σ name)
  | .int value ty => .ofNumber ty (pure (literalValue? value ty))
  | .char ch => .ofNumber .char (pure (.int (Int32.ofNat ch.toNat)))
  | .str text => .ofNumber .string fun Q out => ∀ ref, Q out (.str ref text)
  | .arith op lhs rhs ty => .ofNumber ty do
    let a ← numberOf lhs.ty (evaluated lhs).value
    let b ← numberOf rhs.ty (evaluated rhs).value
    let n ← W.divided (op.onNumbers lhs.ty rhs.ty ty a b)
    return n.toValue
  | .compare op lhs rhs _ => .ofTest do
    let a ← comparandOf op lhs.ty rhs.ty (evaluated lhs).value
    let b ← comparandOf op rhs.ty lhs.ty (evaluated rhs).value
    return op.holds (orderNumbers lhs.ty rhs.ty a b)
  | .logic op lhs rhs _ => .ofTest do
    let b ← (evaluated lhs).test
    if b = (op == .or) then return b else (evaluated rhs).test
  | .unary op operand ty => .ofNumber ty do
    let a ← numberOf operand.ty (evaluated operand).value
    return (op.onNumber operand.ty ty a).toValue
  | .not operand _ => .ofTest do
    let b ← (evaluated operand).test
    return !b
  | .call object name args ty => .ofNumber ty do
    let r ← invocation c W L σ object name (evaluatedArgs args) ty
    Rules.resultOf r

/-- What arguments come to. -/
def evaluatedArgs : List Expr → List Given
  | [] => []
  | e :: rest => ⟨e.ty, (evaluated e).value⟩ :: evaluatedArgs rest

end

end Expressions

/-! ## Code -/

section Code

variable {c : ClassFile} {W : Rules} {L : Array Value} {code left right : Fragment}
  {m l r : Spec Value}

/-- Code for a value is also code for a value of which less is known. -/
theorem Fragment.Computes.restrict (h : code.Computes c W L [] m single) {f : Value → Spec Value}
    (hf : ∀ v, f v = pure v ∨ f v = Spec.never) : code.Computes c W L [] (m >>= f) single := by
  intro R Q out st hm hQ
  refine h (fun out v => f v R out) Q out st hm fun out v hv => ?_
  rcases hf v with hknown | hnever
  · rw [hknown] at hv
    exact hQ out v hv
  · rw [hnever] at hv
    exact hv.elim

/-- Code for a value is also code for what it is as a number. -/
theorem Fragment.Computes.numbersOnly (h : code.Computes c W L [] m single) (ty : DataType) :
    code.Computes c W L [] (numbersOnly ty m) single := by
  refine h.restrict (f := fun v => numberIn ty v >>= fun n => pure n.toValue) fun v => ?_
  obtain ⟨n, -, -, rfl, hn⟩ | hn := numberIn_cases ty v
  · rw [hn]
    exact .inl rfl
  · rw [hn]
    exact .inr rfl

theorem Fragment.Computes.comparandsOnly (h : code.Computes c W L [] m single) (op : Comparison)
    (ty other : DataType) : code.Computes c W L [] (comparandsOnly op ty other m) single := by
  refine h.restrict
    (f := fun v => numberIn ty v >>= comparand op ty other >>= fun n => pure n.toValue) fun v => ?_
  obtain ⟨n, -, -, rfl, hn⟩ | hn := numberIn_cases ty v
  · rw [hn, Spec.pure_bind]
    rcases comparand_cases op ty other n with hknown | hnever
    · rw [hknown]
      exact .inl rfl
    · rw [hnever]
      exact .inr rfl
  · rw [hn]
    exact .inr rfl

theorem Selection.Computes.ofNumber (ty : DataType) (h : code.Computes c W L [] m single) :
    (Selection.ofValue ty code).Computes c W L (.ofNumber ty m) := by
  refine ⟨h, ?_⟩
  have hdecides := nonzero_decides ty (h.numbersOnly ty)
  rwa [nonzeroMeaning_number] at hdecides

/-- The code of a comparison decides on the order of two numbers. Of references nothing is said. -/
theorem comparison_decides_numbers {op : Comparison} {lhs rhs : DataType}
    (hhelper : op.helper? lhs rhs ≠ some (c.name?.getD "")) (hl : left.Computes c W L [] l single)
    (hr : right.Computes c W L [] r single) :
    (comparison op lhs rhs left right).Decides c W L (do
      let a ← comparandOf op lhs rhs l
      let b ← comparandOf op rhs lhs r
      return op.holds (orderNumbers lhs rhs a b)) := by
  by_cases hrefs : lhs.kind? = some .reference ∧ rhs.kind? = some .reference
  · have hlhs : ¬ lhs.IsNumber := by
      rintro (h | h) <;> cases hrefs.1.symm.trans h
    -- references are no numbers, so nothing is known behind the left side
    intro R Q out st hm _
    unfold comparandOf at hm
    rw [numberOf_of_not_isNumber hlhs] at hm
    unfold comparison
    rw [if_pos hrefs]
    exact hl (fun _ _ => False) _ out st hm fun _ _ h => h.elim
  · have hdecides := comparison_decides (hl.comparandsOnly op lhs rhs)
      (hr.comparandsOnly op rhs lhs) op lhs rhs
    rwa [compareMeaning_numbers l r hhelper hrefs] at hdecides

theorem plainArguments_computes {args : List Passed} {givens : List Given}
    (h : List.Forall₂ (Passed.Computes c W L) args givens) :
    (plainArguments args).Computes c W L [] (plainMeaning givens) List.reverse := by
  induction h with
  | nil => exact .nil List.reverse []
  | @cons p g args givens hfirst _ ih =>
    intro R Q out st hm hQ
    -- the first argument lies below the others
    refine hfirst.2 _ _ out st hm fun out v hv => ?_
    refine ih.above [v] (fun out vs => R out (v :: vs)) Q out st hv fun out vs hvs => ?_
    have := hQ out (v :: vs) hvs
    rwa [List.reverse_cons] at this

theorem map_ty_of_computes {args : List Passed} {givens : List Given}
    (h : List.Forall₂ (Passed.Computes c W L) args givens) :
    args.map (·.expr.ty) = givens.map (·.ty) := by
  induction h with
  | nil => rfl
  | cons h _ ih => rw [List.map_cons, List.map_cons, h.1, ih]

variable (σ : Names)

/-- The code of a call computes what the call does. -/
theorem invocation_computes {args : List Passed} {givens : List Given}
    (h : List.Forall₂ (Passed.Computes c W L) args givens) (object : Option String) (name : String)
    (ty : DataType) :
    (σ.call object name args ty).Computes c W L [] (invocation c W L σ object name givens ty)
      Option.toList := by
  cases object with
  | none => exact call_computes σ h none name ty
  | some object =>
    unfold Names.call invocation objectMeaning
    dsimp only
    cases σ.look object with
    | none => exact .never _
    | some slot =>
      dsimp only
      cases slot.ty.className? with
      | none => exact .never _
      | some cls =>
        unfold objectFragment
        rw [map_ty_of_computes h]
        exact (load_computes .reference slot.slot).seq fun receiver =>
          ((plainArguments_computes h).above [receiver]).seq fun vs =>
            invokeReceiver_computes (by decide) _ _ _ receiver vs

mutual

/-- **The code of an expression comes to what the expression does**, in a class that does not hide the
methods of the library that the expression needs. -/
theorem select_evaluated (e : Expr) (hhelper : ∀ n ∈ e.nodes, n.helper? ≠ some (c.name?.getD "")) :
    (select σ e).Computes c W L (evaluated c W L σ e) := by
  cases e with
  | ident name ty => exact .ofNumber ty (variable_computes σ name)
  | int value ty => exact .ofNumber ty (literal_computes value ty)
  | char ch => exact .ofNumber .char (pushInt_computes _ [])
  | str text =>
    refine Selection.Computes.ofNumber .string fun R Q out st hm hQ => ?_
    exact fun ref => hQ out _ (hm ref)
  | arith op lhs rhs ty =>
    obtain ⟨hself, hrest⟩ := List.forall_mem_cons.1 hhelper
    obtain ⟨hl, hr⟩ := List.forall_mem_append.1 hrest
    have harith := arithmetic_computes op lhs.ty rhs.ty ty
      ((select_evaluated lhs hl).1.numbersOnly lhs.ty) ((select_evaluated rhs hr).1.numbersOnly rhs.ty)
    rw [arithMeaning_numbers _ _ hself] at harith
    exact .ofNumber ty harith
  | compare op lhs rhs ty =>
    obtain ⟨hself, hrest⟩ := List.forall_mem_cons.1 hhelper
    obtain ⟨hl, hr⟩ := List.forall_mem_append.1 hrest
    exact .ofTest (comparison_decides_numbers hself (select_evaluated lhs hl).1
      (select_evaluated rhs hr).1)
  | logic op lhs rhs ty =>
    obtain ⟨hl, hr⟩ := List.forall_mem_append.1 (List.forall_mem_cons.1 hhelper).2
    exact .ofTest (.logic op (select_evaluated lhs hl).2 (select_evaluated rhs hr).2)
  | unary op operand ty =>
    have ho := (List.forall_mem_cons.1 hhelper).2
    have hunary := unary_computes op operand.ty ty
      ((select_evaluated operand ho).1.numbersOnly operand.ty)
    rw [unaryMeaning_number] at hunary
    exact .ofNumber ty hunary
  | not operand ty => exact .ofTest (select_evaluated operand (List.forall_mem_cons.1 hhelper).2).2.not
  | call object name args ty =>
    refine Selection.Computes.ofNumber ty fun R Q out st hm hQ => ?_
    have hargs := selectArgs_evaluated args (List.forall_mem_cons.1 hhelper).2
    refine invocation_computes σ hargs object name ty _ Q out st hm fun out r hr => ?_
    -- a call without a result is no operand
    cases r with
    | none => exact hr.elim
    | some v => exact hQ out v hr

theorem selectArgs_evaluated (args : List Expr)
    (hhelper : ∀ n ∈ Expr.nodesOf args, n.helper? ≠ some (c.name?.getD "")) :
    List.Forall₂ (Passed.Computes c W L) (selectArgs σ args) (evaluatedArgs c W L σ args) := by
  cases args with
  | nil => exact .nil
  | cons e rest =>
    obtain ⟨he, hrest⟩ := List.forall_mem_append.1 hhelper
    exact .cons ⟨rfl, (select_evaluated e he).1⟩ (selectArgs_evaluated rest hrest)

end

end Code

end ClassFoundry
