import ClassFoundry.Proofs.Structured.Numbers

/-!
# Ranges of values

Types narrower than an int have ranges. The value of an expression lies in the range of its type, if the
variables and literals in it do and the methods that it calls return such values.

## Main definitions

* `DataType.bounds?`, `DataType.InRange`: the range of a type
* `Value.Fits`: values of a type
* `Spec.Gives`: a property of all values of a computation
* `Rules.Keep`: rules under which calls give values of their types

## Main results

* `Narrowing.inRange_apply`: a narrowed number is in range
* `Rules.converted_gives`: a converted value fits its new type
* `meaning_gives`: the value of an expression fits its type
-/

namespace ClassFoundry

/-! ## Ranges -/

/-- The least and the greatest number of a type that is narrower than an int. -/
def DataType.bounds? : DataType → Option (Int × Int)
  | .int .w8 false => some (-128, 127)
  | .int .w8 true => some (0, 255)
  | .int .w16 false => some (-32768, 32767)
  | .int .w16 true | .char => some (0, 65535)
  | _ => none

/-- **A number is in the range of a type**. -/
def DataType.InRange (ty : DataType) (n : Int) : Prop := ∀ b ∈ ty.bounds?, b.1 ≤ n ∧ n ≤ b.2

/-- **A value of a type**: it has the kind of the type, and a number is in its range. -/
structure Value.Fits (ty : DataType) (v : Value) : Prop where
  kind : ∀ k ∈ ty.kind?, v.hasKind k = true
  range : ∀ n, v = .int n → ty.InRange n.toInt

theorem DataType.inRange_of_bounds? {ty : DataType} (h : ty.bounds? = none) (n : Int) :
    ty.InRange n := by
  simp [InRange, h]

theorem toInt_byte (v : Int8) : -128 ≤ v.toInt32.toInt ∧ v.toInt32.toInt ≤ 127 := by
  rw [Int8.toInt_toInt32]
  exact ⟨v.minValue_le_toInt, v.toInt_le⟩

theorem toInt_short (v : Int16) : -32768 ≤ v.toInt32.toInt ∧ v.toInt32.toInt ≤ 32767 := by
  rw [Int16.toInt_toInt32]
  exact ⟨v.minValue_le_toInt, v.toInt_le⟩

/-- A word of few bits is not negative as an int. -/
theorem toInt_toInt32_of_lt {v : UInt32} (h : v.toNat < 2 ^ 31) : v.toInt32.toInt = v.toNat := by
  have hword : v.toInt32.toBitVec.toNat = v.toNat := rfl
  rw [← Int32.toInt_toBitVec, BitVec.toInt_eq_toNat_of_lt (by omega), hword]

theorem toInt_char (v : UInt16) :
    0 ≤ v.toUInt32.toInt32.toInt ∧ v.toUInt32.toInt32.toInt ≤ 65535 := by
  have hlt := v.toNat_lt
  have hword : v.toUInt32.toNat = v.toNat := UInt16.toNat_toUInt32 v
  rw [toInt_toInt32_of_lt (by omega)]
  omega

theorem toInt_unsignedByte (v : UInt8) :
    0 ≤ v.toUInt32.toInt32.toInt ∧ v.toUInt32.toInt32.toInt ≤ 255 := by
  have hlt := v.toNat_lt
  have hword : v.toUInt32.toNat = v.toNat := UInt8.toNat_toUInt32 v
  rw [toInt_toInt32_of_lt (by omega)]
  omega

/-- **A narrowed number is in range**. -/
theorem Narrowing.inRange_apply {ty : DataType} {n : Narrowing} (h : ty.narrowing? = some n)
    (v : Int32) : ty.InRange (n.apply v).toInt := by
  cases ty with
  | char =>
    cases h
    rintro _ ⟨⟩
    exact toInt_char _
  | int width unsigned =>
    cases width with
    | w8 =>
      cases unsigned with
      | false =>
        cases h
        rintro _ ⟨⟩
        exact toInt_byte _
      | true =>
        cases h
        rintro _ ⟨⟩
        show 0 ≤ (v &&& 0xff).toInt ∧ (v &&& 0xff).toInt ≤ 255
        rw [and_byteMask]
        exact toInt_unsignedByte _
    | w16 =>
      cases unsigned with
      | false =>
        cases h
        rintro _ ⟨⟩
        exact toInt_short _
      | true =>
        cases h
        rintro _ ⟨⟩
        exact toInt_char _
    | w32 | w64 => cases h
  | _ => cases h

/-- A type that is not narrowed has no bounds. -/
theorem DataType.bounds?_of_narrowing? {ty : DataType} (h : ty.narrowing? = none) :
    ty.bounds? = none := by
  cases ty with
  | char => cases h
  | int width unsigned => cases width <;> cases unsigned <;> first | rfl | cases h
  | _ => rfl

/-- A type that has bounds is one of ints. -/
theorem DataType.kind?_of_bounds? (ty : DataType) (h : ty.bounds?.isSome = true) :
    ty.kind? = some .int := by
  cases ty with
  | char => rfl
  | int width unsigned => cases width <;> cases unsigned <;> first | rfl | cases h
  | _ => cases h

/-- A type of references has no bounds. -/
theorem DataType.bounds?_of_reference {ty : DataType} (h : ty.kind? = some .reference) :
    ty.bounds? = none := by
  by_contra hsome
  cases h.symm.trans (ty.kind?_of_bounds? (Option.isSome_iff_ne_none.2 hsome))

theorem Value.Fits.of_bounds? {ty : DataType} {v : Value} (h : ty.bounds? = none)
    (hkind : ∀ k ∈ ty.kind?, v.hasKind k = true) : v.Fits ty :=
  ⟨hkind, fun _ _ => DataType.inRange_of_bounds? h _⟩

/-! ## Values of computations -/

section Gives

variable {α β : Type} {P R : α → Prop} {m : Spec α}

/-- **A property of all values of a computation**, which does not go wrong. -/
def Spec.Gives (m : Spec α) (P : α → Prop) : Prop :=
  ∀ (Q : String → α → Prop) (out : String), (∀ out a, P a → Q out a) → m Q out

namespace Spec.Gives

theorem pure {a : α} (h : P a) : (pure a : Spec α).Gives P := fun _ out hQ => hQ out a h

theorem bind {T : β → Prop} {f : α → Spec β} (hm : m.Gives R) (hf : ∀ a, R a → (f a).Gives T) :
    (m >>= f).Gives T :=
  fun Q out hQ => hm _ out fun out a ha => hf a ha Q out hQ

theorem mono (hm : m.Gives R) (h : ∀ a, R a → P a) : m.Gives P :=
  fun Q out hQ => hm Q out fun out a ha => hQ out a (h a ha)

end Spec.Gives

end Gives

namespace Rules

variable {c : ClassFile} {W : Rules} {α : Type}

section Faults

variable (hfault : ∀ out e, W.fault out e)
include hfault

theorem faults_gives (P : α → Prop) : (W.faults : Spec α).Gives P :=
  fun _ out _ e => hfault out e

theorem fails_gives (e : Fault) (P : α → Prop) : (W.fails e : Spec α).Gives P :=
  fun _ out _ => hfault out e

theorem int_gives (v : Value) : (W.int v).Gives fun i => v = .int i := by
  cases v with
  | int i => exact .pure rfl
  | _ => exact faults_gives hfault _

theorem long_gives (v : Value) : (W.long v).Gives fun l => v = .long l := by
  cases v with
  | long l => exact .pure rfl
  | _ => exact faults_gives hfault _

theorem ofKind_gives (kind : Kind) (v : Value) :
    (W.ofKind kind v).Gives fun w => w = v ∧ v.hasKind kind = true := by
  unfold ofKind
  split <;> rename_i hkind
  · exact .pure ⟨rfl, hkind⟩
  · exact faults_gives hfault _

theorem loaded_gives (L : Array Value) (kind : Kind) (slot : Nat) :
    (W.loaded L kind slot).Gives fun v => L[slot]? = some v ∧ v.hasKind kind = true := by
  unfold loaded
  cases hv : L[slot]? with
  | none => exact faults_gives hfault _
  | some v =>
    refine (ofKind_gives hfault kind v).mono ?_
    rintro _ ⟨rfl, hkind⟩
    exact ⟨rfl, hkind⟩

theorem fieldValue_gives (field : Member) :
    (W.fieldValue field).Gives fun v => v.isReference = true := by
  unfold fieldValue
  split
  · exact .pure rfl
  · exact fails_gives hfault _ _

theorem divided_gives (x : Option α) : (W.divided x).Gives fun _ => True := by
  cases x with
  | some a => exact .pure trivial
  | none => exact fails_gives hfault _ _

/-! ### Conversions -/

/-- A number as one of another kind. -/
theorem widened_gives {source : DataType} (hsource : source.IsNumber) {target : Kind}
    (htarget : target ≠ .reference) {v : Value} (hv : ∀ k ∈ source.kind?, v.hasKind k = true) :
    (W.widened source target v).Gives fun v => v.hasKind target = true := by
  unfold widened
  rcases hsource with hk | hk
  · have hv := hv _ hk
    rw [hk]
    cases target with
    | int => exact .pure hv
    | long => exact (int_gives hfault v).bind fun i _ => .pure rfl
    | reference => exact absurd rfl htarget
  · have hv := hv _ hk
    rw [hk]
    cases target with
    | int => exact (long_gives hfault v).bind fun l _ => .pure rfl
    | long => exact .pure hv
    | reference => exact absurd rfl htarget

/-- Whatever is converted, no harm is done. -/
theorem widened_total (source : DataType) (target : Kind) (v : Value) :
    (W.widened source target v).Gives fun _ => True := by
  unfold widened
  split
  · exact (int_gives hfault v).bind fun _ _ => .pure trivial
  · exact (long_gives hfault v).bind fun _ _ => .pure trivial
  · exact .pure trivial

/-- **A narrowed value fits the type**. -/
theorem narrowed_gives {ty : DataType} {v : Value} (hv : ∀ k ∈ ty.kind?, v.hasKind k = true) :
    (W.narrowed ty v).Gives (Value.Fits ty) := by
  unfold narrowed
  cases hn : ty.narrowing? with
  | none => exact .pure (.of_bounds? (DataType.bounds?_of_narrowing? hn) hv)
  | some n =>
    refine (int_gives hfault v).bind ?_
    rintro i rfl
    refine .pure ⟨fun k hk => ?_, ?_⟩
    · have hsame : Value.hasKind k (.int (n.apply i)) = Value.hasKind k (.int i) := by
        cases k <;> rfl
      exact hsame.trans (hv k hk)
    · rintro _ ⟨⟩
      exact Narrowing.inRange_apply hn i

/-- **A converted value fits its new type**. -/
theorem converted_gives {source target : DataType} (hpasses : source.Passes target) {v : Value}
    (hv : v.Fits source) : (W.converted source target v).Gives (Value.Fits target) := by
  unfold converted
  split
  · rename_i heq
    exact .pure (heq ▸ hv)
  · obtain ⟨k, k', hk, hk', href⟩ := hpasses
    rw [hk']
    have hnumber (hne : k' ≠ .reference) : (do
        let w ← W.widened source k' v
        W.narrowed target w).Gives (Value.Fits target) := by
      have hsource : source.IsNumber := by
        cases k with
        | int => exact .inl hk
        | long => exact .inr hk
        | reference => exact absurd (href.1 rfl) hne
      refine (widened_gives hfault hsource hne hv.kind).bind fun w hw => narrowed_gives hfault ?_
      rintro _ h
      cases hk'.symm.trans h
      exact hw
    cases k' with
    | reference =>
      -- references stay as they are
      refine .pure (.of_bounds? (DataType.bounds?_of_reference hk') ?_)
      rintro _ h
      cases hk'.symm.trans h
      exact hv.kind _ (hk.trans (congrArg some (href.2 rfl)))
    | int => exact hnumber nofun
    | long => exact hnumber nofun

end Faults

end Rules

/-- **What a method with a result type returns**. -/
structure DataType.Returns (ty : DataType) (r : Option Value) : Prop where
  value : ∀ k ∈ ty.kind?, ∃ v, r = some v ∧ v.Fits ty
  none : ty.kind? = none → r = none

/-- **Rules under which methods return values of their types**: the run may end with a fault, unsigned
arithmetic gives numbers, and so do calls by name of which the arguments fit. -/
structure Rules.Keep (c : ClassFile) (W : Rules) (σ : Names) : Prop where
  fault : ∀ out e, W.fault out e
  ints : ∀ name a b, a.hasKind .int = true → b.hasKind .int = true →
    (W.libraryValue c (unsignedInt name "(II)I") a b).Gives fun v => v.hasKind .int = true
  longs : ∀ op name, Arith.unsignedMethod? op = some name →
    ∀ a b, a.hasKind .long = true → b.hasKind .long = true →
      (W.libraryValue c (unsignedLong name "(JJ)J") a b).Gives fun v => v.hasKind .long = true
  orders : ∀ a b, a.hasKind .long = true → b.hasKind .long = true →
    (W.libraryValue c (unsignedLong "compareUnsigned" "(JJ)I") a b).Gives
      fun v => v.hasKind .int = true
  calls : ∀ {name args callee}, σ.CallsFunction name args callee → ∀ (L : Array Value) (gs : List Given),
    gs.map (·.ty) = args.map Expr.ty → (∀ g ∈ gs, g.value.Gives (Value.Fits g.ty)) →
    (calleeMeaning c W L callee (gs.zip callee.params)).Gives callee.returnType.Returns

namespace Rules.Keep

variable {c : ClassFile} {W : Rules} {σ : Names} (h : W.Keep c σ)
include h

/-! ### Arithmetic -/

/-- An instruction on two numbers leaves one of the kind of the operation. -/
theorem plain_gives (op : Arith) (long unsigned : Bool) (a b : Value) :
    (match (op.opcode long unsigned).plainOp? with
      | some op => W.combined op a b
      | none => Spec.never).Gives fun v => v.hasKind (if long then .long else .int) = true := by
  cases long with
  | false =>
    have hop (op : BinOp) : (W.combined (.intOp op) a b).Gives fun v => v.hasKind .int = true :=
      (int_gives h.fault b).bind fun y _ => (int_gives h.fault a).bind fun x _ =>
        (divided_gives h.fault (op.onInt x y)).bind fun r _ => .pure rfl
    have hshift (op : ShiftOp) :
        (W.combined (.intShift op) a b).Gives fun v => v.hasKind .int = true :=
      (int_gives h.fault b).bind fun y _ => (int_gives h.fault a).bind fun x _ => .pure rfl
    cases op with
    | shl => exact hshift .left
    | shr => cases unsigned <;> exact hshift _
    | _ => exact hop _
  | true =>
    have hop (op : BinOp) : (W.combined (.longOp op) a b).Gives fun v => v.hasKind .long = true :=
      (long_gives h.fault b).bind fun y _ => (long_gives h.fault a).bind fun x _ =>
        (divided_gives h.fault (op.onLong x y)).bind fun r _ => .pure rfl
    have hshift (op : ShiftOp) :
        (W.combined (.longShift op) a b).Gives fun v => v.hasKind .long = true :=
      (int_gives h.fault b).bind fun y _ => (long_gives h.fault a).bind fun x _ => .pure rfl
    cases op with
    | shl => exact hshift .left
    | shr => cases unsigned <;> exact hshift _
    | _ => exact hop _

/-- An operation on two numbers leaves one of the kind of its type. -/
theorem arith_gives (op : Arith) (ty : DataType) {a b : Value}
    (ha : a.hasKind ty.numberKind = true)
    (hb : b.hasKind (if op.isShift then .int else ty.numberKind) = true) :
    (W.arith c op ty a b).Gives fun v => v.hasKind ty.numberKind = true := by
  have hplain := h.plain_gives op ty.isLong ty.isUnsigned a b
  unfold arith
  cases hname : op.unsignedMethod? with
  | none => exact hplain
  | some name =>
    dsimp only
    split
    · have hshift : op.isShift = false := by cases op <;> first | rfl | cases hname
      rw [hshift] at hb
      unfold DataType.numberKind at ha hb ⊢
      split <;> rename_i hlong
      · rw [if_pos hlong] at ha
        simp only [hlong] at hb
        exact h.longs op name hname a b ha hb
      · rw [if_neg hlong] at ha
        simp only [hlong] at hb
        exact h.ints name a b ha hb
    · exact hplain

theorem unary_gives (op : UnaryArith) (ty : DataType) (v : Value) :
    (W.unary op ty v).Gives fun v => v.hasKind ty.numberKind = true := by
  unfold unary DataType.numberKind
  split
  · exact (long_gives h.fault v).bind fun l _ => .pure rfl
  · exact (int_gives h.fault v).bind fun i _ => .pure rfl

/-! ### Comparisons -/

theorem comparedToZero_gives (op : Comparison) (v : Value) :
    (W.comparedToZero op v).Gives fun _ => True :=
  (int_gives h.fault v).bind fun _ _ => .pure trivial

theorem longOrder_gives (a b : Value) : (W.longOrder a b).Gives fun _ => True :=
  (long_gives h.fault b).bind fun _ _ => (long_gives h.fault a).bind fun _ _ => .pure trivial

theorem compared_gives (op : Comparison) (unsigned long : Bool) {a b : Value}
    (ha : a.hasKind (if long then .long else .int) = true)
    (hb : b.hasKind (if long then .long else .int) = true) :
    (W.compared c op unsigned long a b).Gives fun _ => True := by
  cases long with
  | false =>
    cases unsigned with
    | false =>
      exact (int_gives h.fault b).bind fun y _ => (int_gives h.fault a).bind fun x _ => .pure trivial
    | true => exact (h.ints _ a b ha hb).bind fun r _ => h.comparedToZero_gives op r
  | true =>
    cases unsigned with
    | false => exact (h.longOrder_gives a b).bind fun r _ => h.comparedToZero_gives op r
    | true => exact (h.orders a b ha hb).bind fun r _ => h.comparedToZero_gives op r

theorem comparedRefs_gives (same : Bool) (a b : Value) :
    (W.comparedRefs same a b).Gives fun _ => True :=
  (ofKind_gives h.fault .reference b).bind fun _ _ =>
    (ofKind_gives h.fault .reference a).bind fun _ _ => .pure trivial

end Rules.Keep

/-! ## Expressions -/

/-- **Annotations that are right**: those of variables and calls say what is declared, those of
conditions that they are such, and literals are in the range of their types. -/
def Expr.Annotated (σ : Names) : Expr → Prop
  | .ident name ty => ∀ s, σ.look name = some s → s.ty = ty
  | .int value ty => ty.InRange value.toInt
  | .compare _ _ _ ty | .logic _ _ _ ty | .not _ ty => ty = .bool
  | .call object name args ty => object = none ∧
      ∀ callee, σ.callee? name (args.map Expr.ty) = some callee → callee.returnType = ty
  | _ => True

/-- The numbers in variables are in the ranges of their types. -/
def Names.Ranged (σ : Names) (L : Array Value) : Prop :=
  ∀ name s, σ.look name = some s → ∀ n, L[s.slot]? = some (.int n) → s.ty.InRange n.toInt

/-- A number of a narrow type stays the same as an int. -/
theorem inRange_toInt32 {ty : DataType} {value : Int64} (h : ty.InRange value.toInt) :
    ty.InRange value.toInt32.toInt := by
  intro b hb
  have hwide : -2147483648 ≤ b.1 ∧ b.2 < 2147483648 := by
    cases ty with
    | int width unsigned => cases width <;> cases unsigned <;> cases hb <;> decide
    | char =>
      cases hb
      decide
    | _ => cases hb
  obtain ⟨hlow, hhigh⟩ := h b hb
  rw [Int64.toInt_toInt32, Int.bmod_eq_of_le (by omega) (by omega)]
  exact ⟨hlow, hhigh⟩

theorem literal_fits {value : Int64} {ty : DataType} (hty : ty.IsNumber)
    (h : ty.InRange value.toInt) : (literalValue? value ty).Fits ty := by
  unfold literalValue?
  rcases hty with hk | hk
  · have hlong : ty.isLong = false := by simp [DataType.isLong, hk]
    rw [hlong]
    refine ⟨fun k hk' => ?_, ?_⟩
    · cases hk.symm.trans hk'
      rfl
    · rintro _ ⟨⟩
      exact inRange_toInt32 h
  · have hlong : ty.isLong = true := by simp [DataType.isLong, hk]
    rw [hlong]
    refine ⟨fun k hk' => ?_, nofun⟩
    cases hk.symm.trans hk'
    rfl

theorem char_fits {ch : Char} (h : ch.toNat ≤ 0xffff) :
    (Value.int (Int32.ofNat ch.toNat)).Fits .char := by
  refine ⟨fun k hk => ?_, ?_⟩
  · cases hk
    rfl
  · rintro _ ⟨⟩ _ ⟨⟩
    rw [Int32.toInt_ofNat_of_lt (by omega)]
    omega

theorem truth_fits (b : Bool) : (Value.int (if b then 1 else 0)).Fits .bool := by
  refine .of_bounds? rfl fun k hk => ?_
  cases hk
  rfl

section Expressions

variable {c : ClassFile} {W : Rules} {σ : Names} {L : Array Value}

/-- The value of an expression fits its type, and it can be tested. -/
structure Meaning.Fits (m : Meaning) (ty : DataType) : Prop where
  value : m.value.Gives (Value.Fits ty)
  test : m.test.Gives fun _ => True

theorem Meaning.Fits.ofValue (h : W.Keep c σ) {ty : DataType} {value : Spec Value}
    (hvalue : value.Gives (Value.Fits ty)) : (Meaning.ofValue W ty value).Fits ty := by
  refine ⟨hvalue, hvalue.bind fun v _ => ?_⟩
  split
  · exact (h.longOrder_gives v (.long 0)).bind fun r _ => h.comparedToZero_gives .ne r
  · exact h.comparedToZero_gives .ne v

theorem Meaning.Fits.ofTest {test : Spec Bool} (htest : test.Gives fun _ => True) :
    (Meaning.ofTest test).Fits .bool :=
  ⟨htest.bind fun b _ => .pure (truth_fits b), htest⟩

theorem DataType.IsNumber.numberKind_ne {ty : DataType} : ty.numberKind ≠ .reference := by
  unfold DataType.numberKind
  split <;> exact nofun

section Operands

variable {lhs rhs : DataType} {left right : Spec Value} (h : W.Keep c σ)
  (hl : left.Gives (Value.Fits lhs)) (hr : right.Gives (Value.Fits rhs))
include h hl hr

/-- Two numbers, turned into numbers of other kinds. -/
theorem pair_gives (hlhs : lhs.IsNumber) (hrhs : rhs.IsNumber) {k k' : Kind} (hk : k ≠ .reference)
    (hk' : k' ≠ .reference) :
    (pairMeaning (numberMeaning W lhs k left) (numberMeaning W rhs k' right)).Gives
      fun p => p.1.hasKind k = true ∧ p.2.hasKind k' = true :=
  (hl.bind fun _ hv => Rules.widened_gives h.fault hlhs hk hv.kind).bind fun _ ha =>
    (hr.bind fun _ hv => Rules.widened_gives h.fault hrhs hk' hv.kind).bind fun _ hb =>
      .pure ⟨ha, hb⟩

theorem arithMeaning_gives (op : Arith) {ty : DataType} (hty : ty.IsNumber) (hlhs : lhs.IsNumber)
    (hrhs : rhs.IsNumber) :
    (arithMeaning c W op lhs rhs ty left right).Gives (Value.Fits ty) := by
  have hdistance : (if op.isShift then .int else ty.numberKind) ≠ Kind.reference := by
    split
    · exact nofun
    · exact DataType.IsNumber.numberKind_ne
  refine (pair_gives h hl hr hlhs hrhs DataType.IsNumber.numberKind_ne hdistance).bind ?_
  rintro ⟨a, b⟩ ⟨ha, hb⟩
  refine (h.arith_gives op ty ha hb).bind fun v hv => Rules.narrowed_gives h.fault fun k hk => ?_
  cases hty.kind?.symm.trans hk
  exact hv

theorem compareMeaning_gives (op : Comparison)
    (hkinds : (lhs.kind? = some .reference ∧ rhs.kind? = some .reference) ∨
      (lhs.IsNumber ∧ rhs.IsNumber)) :
    (compareMeaning c W op lhs rhs left right).Gives fun _ => True := by
  unfold compareMeaning
  split <;> rename_i hrefs
  · have hpair : (pairMeaning left right).Gives fun _ => True :=
      hl.bind fun _ _ => hr.bind fun _ _ => .pure trivial
    exact hpair.bind fun p _ => h.comparedRefs_gives (op == .eq) p.1 p.2
  · obtain ⟨hlhs, hrhs⟩ := hkinds.resolve_left hrefs
    have hkind (long : Bool) : (if long then Kind.long else Kind.int) ≠ .reference := by
      cases long <;> exact nofun
    refine (pair_gives h hl hr hlhs hrhs (hkind _) (hkind _)).bind ?_
    rintro ⟨a, b⟩ ⟨ha, hb⟩
    exact h.compared_gives op _ _ ha hb

end Operands

theorem unaryMeaning_gives (h : W.Keep c σ) {operand : DataType} {value : Spec Value}
    (hvalue : value.Gives (Value.Fits operand)) (op : UnaryArith) {ty : DataType}
    (hty : ty.IsNumber) : (unaryMeaning W op operand ty value).Gives (Value.Fits ty) := by
  refine (hvalue.bind fun v _ => Rules.widened_total h.fault operand ty.numberKind v).bind ?_
  intro v _
  refine (h.unary_gives op ty v).bind fun r hr => Rules.narrowed_gives h.fault fun k hk => ?_
  cases hty.kind?.symm.trans hk
  exact hr

theorem variableMeaning_gives (h : W.Keep c σ) (hL : σ.Ranged L) {name : String} {ty : DataType}
    (hchecked : (Expr.ident name ty).Checked σ) (hty : ∀ s, σ.look name = some s → s.ty = ty) :
    (variableMeaning W L σ name).Gives (Value.Fits ty) := by
  obtain ⟨s, kind, hs, hkind, -⟩ := hchecked
  obtain rfl := hty s hs
  simp only [variableMeaning, hs, hkind]
  refine (Rules.loaded_gives h.fault L kind s.slot).mono ?_
  rintro v ⟨hv, hk⟩
  refine ⟨fun k hk' => ?_, ?_⟩
  · cases hkind.symm.trans hk'
    exact hk
  · rintro n rfl
    exact hL name s hs n hv

mutual

/-- **The value of an expression fits its type**. -/
theorem meaning_gives (h : W.Keep c σ) (hL : σ.Ranged L) (e : Expr) (hchecked : e.Checked σ)
    (hnodes : ∀ n ∈ e.nodes, n.Annotated σ) : (meaning c W L σ e).Fits e.ty := by
  have hself := hnodes e e.mem_nodes_self
  cases e with
  | ident name ty => exact .ofValue h (variableMeaning_gives h hL hchecked hself)
  | int value ty => exact .ofValue h (.pure (literal_fits hchecked hself))
  | char ch => exact .ofValue h (.pure (char_fits hchecked))
  | str text =>
    refine .ofValue h fun Q out hQ ref => hQ out _ (.of_bounds? rfl ?_)
    rintro _ ⟨⟩
    rfl
  | arith op lhs rhs ty =>
    obtain ⟨hty, hlhs, hrhs, hcl, hcr⟩ := hchecked
    obtain ⟨hl, hr⟩ := List.forall_mem_append.1 (List.forall_mem_cons.1 hnodes).2
    exact .ofValue h (arithMeaning_gives h (meaning_gives h hL lhs hcl hl).value
      (meaning_gives h hL rhs hcr hr).value op hty hlhs hrhs)
  | compare op lhs rhs ty =>
    obtain ⟨hkinds, hcl, hcr⟩ := hchecked
    obtain ⟨hl, hr⟩ := List.forall_mem_append.1 (List.forall_mem_cons.1 hnodes).2
    obtain rfl : ty = .bool := hself
    exact .ofTest (compareMeaning_gives h (meaning_gives h hL lhs hcl hl).value
      (meaning_gives h hL rhs hcr hr).value op (hkinds.imp_left fun hk => ⟨hk.1, hk.2.1⟩))
  | logic op lhs rhs ty =>
    obtain ⟨-, -, hcl, hcr⟩ := hchecked
    obtain ⟨hl, hr⟩ := List.forall_mem_append.1 (List.forall_mem_cons.1 hnodes).2
    obtain rfl : ty = .bool := hself
    refine .ofTest ((meaning_gives h hL lhs hcl hl).test.bind fun b _ => ?_)
    split
    · exact .pure trivial
    · exact (meaning_gives h hL rhs hcr hr).test
  | unary op operand ty =>
    obtain ⟨hty, -, hc⟩ := hchecked
    have ho := (List.forall_mem_cons.1 hnodes).2
    exact .ofValue h (unaryMeaning_gives h (meaning_gives h hL operand hc ho).value op hty)
  | not operand ty =>
    obtain ⟨-, hc⟩ := hchecked
    have ho := (List.forall_mem_cons.1 hnodes).2
    obtain rfl : ty = .bool := hself
    exact .ofTest ((meaning_gives h hL operand hc ho).test.bind fun b _ => .pure trivial)
  | call object name args ty =>
    obtain ⟨hcalls, hall, k, hreturned, hk⟩ := hchecked
    obtain ⟨rfl, hty⟩ := hself
    obtain ⟨callee, hcall⟩ := hcalls
    have hcallee := hcall.callee?
    obtain rfl := hty callee hcallee
    have hargs := givens_give h hL args hall (List.forall_mem_cons.1 hnodes).2
    refine .ofValue h ?_
    have hcalled := h.calls hcall L (givens c W L σ args) (map_ty_givens ..) hargs
    simp only [callMeaning, map_ty_givens, hcallee]
    refine hcalled.bind fun r hr => ?_
    obtain ⟨v, rfl, hv⟩ := hr.value k hk
    exact .pure hv

/-- The values of arguments fit their types. -/
theorem givens_give (h : W.Keep c σ) (hL : σ.Ranged L) (args : List Expr)
    (hchecked : Expr.AllChecked σ args) (hnodes : ∀ n ∈ Expr.nodesOf args, n.Annotated σ) :
    ∀ g ∈ givens c W L σ args, g.value.Gives (Value.Fits g.ty) := by
  cases args with
  | nil => exact nofun
  | cons e rest =>
    obtain ⟨he, hrest⟩ := List.forall_mem_append.1 hnodes
    exact List.forall_mem_cons.2 ⟨(meaning_gives h hL e hchecked.1 he).value,
      givens_give h hL rest hchecked.2 hrest⟩

end

end Expressions

end ClassFoundry
