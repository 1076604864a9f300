import ClassFoundry.Proofs.Evaluation
import ClassFoundry.Proofs.Structured.Meaning
import ClassFoundry.Proofs.TypeSafety

/-!
# Operations on numbers

The operations that the compiler selects for numbers, conversions with masks and calls of the library
among them, compute what the operations of the evaluation say.

## Main definitions

* `Arith.helper?`, `Comparison.helper?`: the classes of the library that operations call

## Main results

* `Rules.converted_number`: conversions between types
* `Rules.arith_numbers`, `Rules.unary_number`: arithmetic with the conversion of operands and results
* `Rules.compared_numbers`: comparisons
-/

namespace ClassFoundry

/-! ## Words -/

theorem getLsbD_mask (bits width i : Nat) :
    (BitVec.ofNat width (2 ^ bits - 1)).getLsbD i = (decide (i < width) && decide (i < bits)) := by
  rw [BitVec.getLsbD_ofNat, Nat.testBit_two_pow_sub_one]

/-- The low half of an int extended by its sign is the int extended by zeros. -/
theorem toInt64_and_mask (v : Int32) :
    v.toInt64 &&& 0xffffffff = v.toUInt32.toUInt64.toInt64 := by
  have hmask : (0xffffffff : Int64).toBitVec = BitVec.ofNat 64 (2 ^ 32 - 1) := by decide
  have hzeros : v.toUInt32.toUInt64.toInt64.toBitVec = v.toBitVec.setWidth 64 := rfl
  apply Int64.toBitVec_inj.1
  apply BitVec.eq_of_getLsbD_eq
  intro i hi
  rw [Int64.toBitVec_and, hmask, hzeros, BitVec.getLsbD_and, getLsbD_mask, Int32.toBitVec_toInt64,
    BitVec.getLsbD_signExtend, BitVec.getLsbD_setWidth]
  by_cases hlow : i < 32
  · simp [hi, hlow]
  · simp [hlow, BitVec.getLsbD_of_ge v.toBitVec i (Nat.le_of_not_lt hlow)]

/-- The lowest byte of an int, extended by zeros. -/
theorem and_byteMask (v : Int32) : v &&& 0xff = v.toUInt32.toUInt8.toUInt32.toInt32 := by
  have hmask : (0xff : Int32).toBitVec = BitVec.ofNat 32 (2 ^ 8 - 1) := by decide
  have hzeros : v.toUInt32.toUInt8.toUInt32.toInt32.toBitVec =
    (v.toBitVec.setWidth 8).setWidth 32 := rfl
  apply Int32.toBitVec_inj.1
  apply BitVec.eq_of_getLsbD_eq
  intro i hi
  rw [Int32.toBitVec_and, hmask, hzeros, BitVec.getLsbD_and, getLsbD_mask]
  simp [hi, Bool.and_comm]

theorem xor_neg_one_int (v : Int32) : v ^^^ (-1) = ~~~v := by
  apply Int32.toBitVec_inj.1
  ext i hi
  simp

theorem xor_neg_one_long (v : Int64) : v ^^^ (-1) = ~~~v := by
  apply Int64.toBitVec_inj.1
  ext i hi
  simp

theorem toUInt32_eq_zero {v : Int32} : v.toUInt32 = 0 ↔ v = 0 := by
  rw [← UInt32.toBitVec_inj, ← Int32.toBitVec_inj]
  rfl

theorem toUInt64_eq_zero {v : Int64} : v.toUInt64 = 0 ↔ v = 0 := by
  rw [← UInt64.toBitVec_inj, ← Int64.toBitVec_inj]
  rfl

theorem orderInts_toInt32 (o : Ordering) : orderInts (Ordering.toInt32 o) 0 = o := by
  cases o <;> decide

/-- Numbers that are equal without signs are equal. -/
theorem compare_toUInt32_eq {x y : Int32} :
    compare x.toUInt32.toNat y.toUInt32.toNat = .eq ↔ orderInts x y = .eq := by
  rw [Nat.compare_eq_eq, UInt32.toNat_inj, ← UInt32.toBitVec_inj, orderInts,
    Std.compare_eq_iff_eq, Int32.toInt_inj, ← Int32.toBitVec_inj]
  rfl

theorem compare_toUInt64_eq {x y : Int64} :
    compare x.toUInt64.toNat y.toUInt64.toNat = .eq ↔ orderLongs x y = .eq := by
  rw [Nat.compare_eq_eq, UInt64.toNat_inj, ← UInt64.toBitVec_inj, orderLongs,
    Std.compare_eq_iff_eq, Int64.toInt_inj, ← Int64.toBitVec_inj]
  rfl

/-- A test of equality depends only on whether its operands are equal. -/
theorem holds_of_eq_iff {op : Comparison} (hop : op.isOrdered = false) {o o' : Ordering}
    (h : o = .eq ↔ o' = .eq) : op.holds o = op.holds o' := by
  cases op <;> cases hop <;> cases o <;> cases o' <;> first | rfl | simp at h

/-! ## Types of numbers -/

namespace DataType

variable {ty : DataType}

theorem needsUnsignedOps_of_int (h : ty.isLong = false) :
    ty.needsUnsignedOps = ty.isUnsignedInt := by
  cases ty with
  | int width unsigned => cases width <;> cases unsigned <;> first | rfl | cases h
  | _ => rfl

theorem needsUnsignedOps_of_long (h : ty.isLong = true) : ty.needsUnsignedOps = ty.isUnsigned := by
  cases ty with
  | int width unsigned => cases width <;> cases unsigned <;> first | rfl | cases h
  | _ => cases h

theorem narrowing?_of_long (h : ty.isLong = true) : ty.narrowing? = none := by
  cases ty with
  | int width unsigned => cases width <;> cases unsigned <;> first | rfl | cases h
  | _ => cases h

end DataType

@[simp] theorem Number.isTrue_ofBool (b : Bool) : (Number.ofBool b).isTrue = b := by
  cases b <;> rfl

theorem Number.isLong_convert {source target : DataType} {n : Number} (hn : n.isLong = source.isLong) :
    (n.convert source target).isLong = target.isLong := by
  unfold Number.convert
  split
  · rename_i heq
    rw [hn, heq]
  · split <;> rename_i hlong
    · rw [hlong]
      rfl
    · rw [eq_false_of_ne_true hlong]
      rfl

/-! ## Methods of the library -/

/-- The class of the library for numbers without sign. -/
def helperClass (long : Bool) : String := if long then "java/lang/Long" else "java/lang/Integer"

/-- The class of the library whose method an operation of a type calls. -/
def Arith.helper? (op : Arith) (ty : DataType) : Option String :=
  if op.unsignedMethod?.isSome && ty.needsUnsignedOps then some (helperClass ty.isLong) else none

/-- The class of the library whose method a comparison calls. -/
def Comparison.helper? (op : Comparison) (lhs rhs : DataType) : Option String :=
  if (lhs.needsUnsignedOps || rhs.needsUnsignedOps) && op.isOrdered then
    some (helperClass (lhs.isLong || rhs.isLong))
  else none

theorem helperClass_mem (long : Bool) : helperClass long ∈ libraryClasses := by
  cases long <;> simp [helperClass, libraryClasses]

section Helpers

variable {name : String} (hname : name ∉ libraryClasses)

include hname

theorem Arith.helper?_ne (op : Arith) (ty : DataType) : op.helper? ty ≠ some name := by
  unfold helper?
  split
  · intro h
    exact hname (Option.some.inj h ▸ helperClass_mem _)
  · simp

theorem Comparison.helper?_ne (op : Comparison) (lhs rhs : DataType) :
    op.helper? lhs rhs ≠ some name := by
  unfold helper?
  split
  · intro h
    exact hname (Option.some.inj h ▸ helperClass_mem _)
  · simp

end Helpers

/-! ## Conversions -/

theorem Spec.pure_bind {α β : Type} (a : α) (f : α → Spec β) : (pure a >>= f : Spec β) = f a := rfl

theorem Spec.bind_assoc {α β γ : Type} (m : Spec α) (f : α → Spec β) (g : β → Spec γ) :
    m >>= f >>= g = m >>= fun a => f a >>= g := rfl

namespace Rules

variable (W : Rules)

section Conversions

variable {source target : DataType} {n : Number}

theorem widened_long (hsource : source.IsNumber) (hn : n.isLong = source.isLong) :
    W.widened source .long n.toValue = pure (.long (n.toLong source.isUnsignedInt)) := by
  have hkind := hsource.kind?
  cases n with
  | int v =>
    have hint : source.isLong = false := hn.symm
    simp only [DataType.numberKind, hint, Bool.false_eq_true, if_false] at hkind
    simp only [widened, hkind, DataType.needsUnsignedOps_of_int hint, Number.toLong,
      ← toInt64_and_mask]
    rfl
  | long v =>
    simp only [DataType.numberKind, ← hn, Number.isLong, if_true] at hkind
    simp only [widened, hkind]
    rfl

theorem widened_int (hsource : source.IsNumber) (hn : n.isLong = source.isLong) :
    W.widened source .int n.toValue = pure (.int n.toInt) := by
  have hkind := hsource.kind?
  cases n with
  | int v =>
    have hint : source.isLong = false := hn.symm
    simp only [DataType.numberKind, hint, Bool.false_eq_true, if_false] at hkind
    simp only [widened, hkind]
    rfl
  | long v =>
    simp only [DataType.numberKind, ← hn, Number.isLong, if_true] at hkind
    simp only [widened, hkind]
    rfl

/-- A number can always be turned into one of another kind. -/
theorem exists_widened (hsource : source.IsNumber) (hn : n.isLong = source.isLong) (target : Kind) :
    ∃ v, W.widened source target n.toValue = pure v := by
  cases target with
  | int => exact ⟨_, W.widened_int hsource hn⟩
  | long => exact ⟨_, W.widened_long hsource hn⟩
  | reference =>
    refine ⟨n.toValue, ?_⟩
    unfold widened
    rcases hsource with h | h <;> rw [h]

theorem narrowed_int (ty : DataType) (v : Int32) :
    W.narrowed ty (.int v) = pure (.int (ty.cut v)) := by
  cases ty with
  | int width unsigned =>
    cases width with
    | w8 =>
      cases unsigned with
      | false => rfl
      | true =>
        have hcut : DataType.cut (.int .w8 true) v = v &&& 0xff := (and_byteMask v).symm
        rw [hcut]
        rfl
    | w16 => cases unsigned <;> rfl
    | w32 | w64 => rfl
  | _ => rfl

theorem narrowed_long {ty : DataType} (h : ty.isLong = true) (v : Value) :
    W.narrowed ty v = pure v := by
  simp only [narrowed, DataType.narrowing?_of_long h]

/-- **A conversion of a number**. -/
theorem converted_number (hsource : source.IsNumber) (htarget : target.IsNumber)
    (hn : n.isLong = source.isLong) :
    W.converted source target n.toValue = pure (n.convert source target).toValue := by
  unfold converted Number.convert
  by_cases heq : source = target
  · rw [if_pos heq, if_pos heq]
  rw [if_neg heq, if_neg heq, htarget.kind?]
  cases hlong : target.isLong with
  | true =>
    simp only [DataType.numberKind, hlong, if_true, W.widened_long hsource hn, Spec.pure_bind,
      W.narrowed_long hlong]
    rfl
  | false =>
    simp only [DataType.numberKind, hlong, Bool.false_eq_true, if_false, W.widened_int hsource hn,
      Spec.pure_bind, W.narrowed_int]
    rfl

end Conversions

/-! ## Arithmetic -/

variable (c : ClassFile)

section Library

variable {callee : Member} {a b : Value} (howner : callee.owner ≠ c.name?.getD "")
  (hparams : (Descriptor.parameters? callee.descriptor).map List.length = some 2)

include howner hparams

theorem libraryValue_of_ok {v : Value} (h : libraryCall callee none [a, b] = .ok (.value v)) :
    W.libraryValue c callee a b = pure v := by
  rw [libraryValue, calls_of_count hparams]
  funext Q out
  show W.called c callee none [a, b] _ out = _
  rw [called, if_neg howner, h]
  rfl

theorem libraryValue_of_error {e : Fault} (h : libraryCall callee none [a, b] = .error e) :
    W.libraryValue c callee a b = W.fails e := by
  rw [libraryValue, calls_of_count hparams]
  funext Q out
  show W.called c callee none [a, b] _ out = _
  rw [called, if_neg howner, h]
  rfl

end Library

theorem parameters?_unsignedInts :
    (Descriptor.parameters? "(II)I").map List.length = some 2 := by decide

theorem parameters?_unsignedLongs :
    (Descriptor.parameters? "(JJ)J").map List.length = some 2 := by decide

theorem parameters?_compareLongs :
    (Descriptor.parameters? "(JJ)I").map List.length = some 2 := by decide

variable {c}

section Helpers

variable {name : String}

/-- The result of a division of ints by a method of the library. -/
theorem libraryInt (howner : helperClass false ≠ c.name?.getD "") {a b : Int32}
    {f : UInt32 → UInt32 → UInt32}
    (h : libraryCall (unsignedInt name "(II)I") none [.int a, .int b] =
      if b.toUInt32 = 0 then .error .divisionByZero
      else .ok (.value (.int (f a.toUInt32 b.toUInt32).toInt32))) :
    W.libraryValue c (unsignedInt name "(II)I") (.int a) (.int b) = do
      let r ← W.divided (if b = 0 then none else some (f a.toUInt32 b.toUInt32).toInt32)
      return .int r := by
  by_cases hb : b = 0
  · rw [if_pos (toUInt32_eq_zero.2 hb)] at h
    rw [W.libraryValue_of_error c howner parameters?_unsignedInts h, if_pos hb]
    rfl
  · rw [if_neg (fun h => hb (toUInt32_eq_zero.1 h))] at h
    rw [W.libraryValue_of_ok c howner parameters?_unsignedInts h, if_neg hb]
    rfl

/-- The result of a division of longs by a method of the library. -/
theorem libraryLong (howner : helperClass true ≠ c.name?.getD "") {a b : Int64}
    {f : UInt64 → UInt64 → UInt64}
    (h : libraryCall (unsignedLong name "(JJ)J") none [.long a, .long b] =
      if b.toUInt64 = 0 then .error .divisionByZero
      else .ok (.value (.long (f a.toUInt64 b.toUInt64).toInt64))) :
    W.libraryValue c (unsignedLong name "(JJ)J") (.long a) (.long b) = do
      let r ← W.divided (if b = 0 then none else some (f a.toUInt64 b.toUInt64).toInt64)
      return .long r := by
  by_cases hb : b = 0
  · rw [if_pos (toUInt64_eq_zero.2 hb)] at h
    rw [W.libraryValue_of_error c howner parameters?_unsignedLongs h, if_pos hb]
    rfl
  · rw [if_neg (fun h => hb (toUInt64_eq_zero.1 h))] at h
    rw [W.libraryValue_of_ok c howner parameters?_unsignedLongs h, if_neg hb]
    rfl

end Helpers

variable (op : Arith) {ty : DataType} (hhelper : op.helper? ty ≠ some (c.name?.getD ""))

include hhelper

theorem arith_ints (hty : ty.isLong = false) (a b : Int32) :
    W.arith c op ty (.int a) (.int b) = do
      let r ← W.divided (op.onInts ty a b)
      return .int r := by
  have hneeds := DataType.needsUnsignedOps_of_int hty
  simp only [Arith.helper?, hneeds, hty] at hhelper
  -- only division of unsigned numbers goes through a method of the library
  cases op with
  | div =>
    simp only [arith, Arith.unsignedMethod?, Arith.opcode, Arith.onInts, hneeds, hty]
    cases hu : ty.isUnsignedInt with
    | true =>
      rw [hu] at hhelper
      exact W.libraryInt (fun h => hhelper (congrArg some h)) (f := (· / ·)) rfl
    | false => rfl
  | mod =>
    simp only [arith, Arith.unsignedMethod?, Arith.opcode, Arith.onInts, hneeds, hty]
    cases hu : ty.isUnsignedInt with
    | true =>
      rw [hu] at hhelper
      exact W.libraryInt (fun h => hhelper (congrArg some h)) (f := (· % ·)) rfl
    | false => rfl
  | shr =>
    simp only [arith, Arith.unsignedMethod?, Arith.opcode, Arith.onInts, hty]
    cases ty.isUnsigned <;> rfl
  | _ =>
    simp only [arith, Arith.unsignedMethod?, Arith.opcode, Arith.onInts, hty]
    rfl

theorem arith_longs (hty : ty.isLong = true) (a b : Int64) (distance : Int32) :
    W.arith c op ty (.long a) (if op.isShift then .int distance else .long b) = do
      let r ← W.divided (op.onLongs ty a b distance)
      return .long r := by
  have hneeds := DataType.needsUnsignedOps_of_long hty
  simp only [Arith.helper?, hneeds, hty] at hhelper
  cases op with
  | div =>
    simp only [arith, Arith.unsignedMethod?, Arith.opcode, Arith.onLongs, hneeds, hty]
    cases hu : ty.isUnsigned with
    | true =>
      rw [hu] at hhelper
      exact W.libraryLong (fun h => hhelper (congrArg some h)) (f := (· / ·)) rfl
    | false => rfl
  | mod =>
    simp only [arith, Arith.unsignedMethod?, Arith.opcode, Arith.onLongs, hneeds, hty]
    cases hu : ty.isUnsigned with
    | true =>
      rw [hu] at hhelper
      exact W.libraryLong (fun h => hhelper (congrArg some h)) (f := (· % ·)) rfl
    | false => rfl
  | shr =>
    simp only [arith, Arith.unsignedMethod?, Arith.opcode, Arith.onLongs, hty]
    cases ty.isUnsigned <;> rfl
  | _ =>
    simp only [arith, Arith.unsignedMethod?, Arith.opcode, Arith.onLongs, hty]
    rfl

variable {lhs rhs : DataType} {a b : Number}

/-- **A binary operation on numbers**, with the conversions of its operands and of its result. -/
theorem arith_numbers (hlhs : lhs.IsNumber) (hrhs : rhs.IsNumber) (ha : a.isLong = lhs.isLong)
    (hb : b.isLong = rhs.isLong) :
    (do
      let x ← W.widened lhs ty.numberKind a.toValue
      let y ← W.widened rhs (if op.isShift then .int else ty.numberKind) b.toValue
      let r ← W.arith c op ty x y
      W.narrowed ty r) = do
      let r ← W.divided (op.onNumbers lhs rhs ty a b)
      return r.toValue := by
  cases hlong : ty.isLong with
  | true =>
    have hsecond : W.widened rhs (if op.isShift then .int else .long) b.toValue =
        pure (if op.isShift then .int b.toInt else .long (b.toLong rhs.isUnsignedInt)) := by
      cases op.isShift with
      | true => exact W.widened_int hrhs hb
      | false => exact W.widened_long hrhs hb
    simp only [DataType.numberKind, Arith.onNumbers, hlong, if_true, W.widened_long hlhs ha,
      Spec.pure_bind, hsecond, W.arith_longs op hhelper hlong, Spec.bind_assoc, W.narrowed_long hlong]
    cases op.onLongs ty (a.toLong lhs.isUnsignedInt) (b.toLong rhs.isUnsignedInt) b.toInt <;> rfl
  | false =>
    simp only [DataType.numberKind, Arith.onNumbers, hlong, Bool.false_eq_true, if_false, ite_self,
      W.widened_int hlhs ha, W.widened_int hrhs hb, Spec.pure_bind, W.arith_ints op hhelper hlong,
      Spec.bind_assoc, W.narrowed_int]
    cases op.onInts ty a.toInt b.toInt <;> rfl

omit hhelper in
/-- **A unary operation on a number**, with the conversions of its operand and of its result. -/
theorem unary_number (ty : DataType) (op : UnaryArith) (hlhs : lhs.IsNumber) (ha : a.isLong = lhs.isLong) :
    (do
      let x ← W.widened lhs ty.numberKind a.toValue
      let r ← W.unary op ty x
      W.narrowed ty r) = pure (op.onNumber lhs ty a).toValue := by
  cases hlong : ty.isLong with
  | true =>
    simp only [DataType.numberKind, UnaryArith.onNumber, hlong, if_true, W.widened_long hlhs ha,
      Spec.pure_bind, unary, W.narrowed_long hlong]
    cases op with
    | neg => rfl
    | complement =>
      dsimp only
      rw [← xor_neg_one_long]
      rfl
  | false =>
    simp only [DataType.numberKind, UnaryArith.onNumber, hlong, Bool.false_eq_true, if_false,
      W.widened_int hlhs ha, Spec.pure_bind, unary]
    cases op with
    | neg => exact W.narrowed_int ty _
    | complement =>
      dsimp only
      rw [← xor_neg_one_int]
      exact W.narrowed_int ty _

/-! ## Comparisons -/

omit hhelper

/-- A number that stands for an order compares to zero as the order says. -/
theorem comparedToZero_order (op : Comparison) (o : Ordering) :
    W.comparedToZero op (.int (Ordering.toInt32 o)) = pure (op.holds o) := by
  have hzero : W.comparedToZero op (.int (Ordering.toInt32 o)) =
    pure (op.holds (orderInts (Ordering.toInt32 o) 0)) := rfl
  rw [hzero, orderInts_toInt32]

theorem compared_ints (op : Comparison) (unsigned : Bool)
    (howner : (unsigned && op.isOrdered) = true → helperClass false ≠ c.name?.getD "") (x y : Int32) :
    W.compared c op (unsigned && op.isOrdered) false (.int x) (.int y) =
      pure (op.holds (if unsigned then compare x.toUInt32.toNat y.toUInt32.toNat
        else orderInts x y)) := by
  cases unsigned with
  | false => rfl
  | true =>
    cases hop : op.isOrdered with
    | true =>
      have hvalue : W.libraryValue c (unsignedInt "compareUnsigned" "(II)I") (.int x) (.int y) =
          pure (.int (Ordering.toInt32 (compare x.toUInt32.toNat y.toUInt32.toNat))) :=
        W.libraryValue_of_ok c (howner hop) parameters?_unsignedInts rfl
      simp only [Bool.and_self, compared, hvalue, Spec.pure_bind, W.comparedToZero_order, if_true]
    | false =>
      rw [if_pos rfl, holds_of_eq_iff hop compare_toUInt32_eq]
      rfl

theorem compared_longs (op : Comparison) (unsigned : Bool)
    (howner : (unsigned && op.isOrdered) = true → helperClass true ≠ c.name?.getD "") (x y : Int64) :
    W.compared c op (unsigned && op.isOrdered) true (.long x) (.long y) =
      pure (op.holds (if unsigned then compare x.toUInt64.toNat y.toUInt64.toNat
        else orderLongs x y)) := by
  cases unsigned with
  | false => exact W.comparedToZero_order op _
  | true =>
    cases hop : op.isOrdered with
    | true =>
      have hvalue : W.libraryValue c (unsignedLong "compareUnsigned" "(JJ)I") (.long x) (.long y) =
          pure (.int (Ordering.toInt32 (compare x.toUInt64.toNat y.toUInt64.toNat))) :=
        W.libraryValue_of_ok c (howner hop) parameters?_compareLongs rfl
      simp only [Bool.and_self, compared, hvalue, Spec.pure_bind, W.comparedToZero_order, if_true]
    | false =>
      rw [if_pos rfl, holds_of_eq_iff hop compare_toUInt64_eq]
      exact W.comparedToZero_order op _

/-- **A comparison of numbers**, with the conversions of its operands. -/
theorem compared_numbers (op : Comparison) (hhelper : op.helper? lhs rhs ≠ some (c.name?.getD ""))
    (hlhs : lhs.IsNumber) (hrhs : rhs.IsNumber) (ha : a.isLong = lhs.isLong)
    (hb : b.isLong = rhs.isLong) :
    (do
      let x ← W.widened lhs (if lhs.isLong || rhs.isLong then .long else .int) a.toValue
      let y ← W.widened rhs (if lhs.isLong || rhs.isLong then .long else .int) b.toValue
      W.compared c op ((lhs.needsUnsignedOps || rhs.needsUnsignedOps) && op.isOrdered)
        (lhs.isLong || rhs.isLong) x y) = pure (op.holds (orderNumbers lhs rhs a b)) := by
  unfold orderNumbers
  unfold Comparison.helper? at hhelper
  cases hlong : lhs.isLong || rhs.isLong with
  | true =>
    have howner (hcalls : ((lhs.needsUnsignedOps || rhs.needsUnsignedOps) && op.isOrdered) = true) :
        helperClass true ≠ c.name?.getD "" :=
      fun h => hhelper (by rw [if_pos hcalls, hlong, h])
    simp only [if_true, W.widened_long hlhs ha, W.widened_long hrhs hb, Spec.pure_bind,
      W.compared_longs op _ howner]
    rfl
  | false =>
    have howner (hcalls : ((lhs.needsUnsignedOps || rhs.needsUnsignedOps) && op.isOrdered) = true) :
        helperClass false ≠ c.name?.getD "" :=
      fun h => hhelper (by rw [if_pos hcalls, hlong, h])
    simp only [Bool.false_eq_true, if_false, W.widened_int hlhs ha, W.widened_int hrhs hb,
      Spec.pure_bind, W.compared_ints op _ howner]
    rfl

end Rules

end ClassFoundry
