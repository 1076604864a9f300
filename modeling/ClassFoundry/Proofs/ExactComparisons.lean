import ClassFoundry.Proofs.ExactArithmetic
import ClassFoundry.Proofs.TruthValues

/-!
# Comparisons decide the order of the numbers

Two numbers of different integer types are compared as words, with or without signs. Words without signs
are in the order of the numbers if neither number is negative. Words with signs are if both types fit
them. One pair of types is compared without signs although its numbers may be negative: the widest
integers with a sign and the 32-bit ones without. There, a negative number counts as larger than any of
the others.

## Main definitions

* `Comparison.relates`: whether two numbers are in a relation
* `DataType.Comparable`: pairs of types with a common range of words
* `DataType.Misorders`: the numbers that are compared in the wrong order

## Main results

* `orderNumbers_represent`, `orderNumbers_misorders`: the order of words is that of the numbers, or the
  opposite
* `answers_comparison`: functions answer whether their arguments are in a relation
* `compileProgram_comparison`: such functions have classes
-/

namespace ClassFoundry

/-- **Whether two numbers are in the relation** of a comparison. -/
def Comparison.relates (op : Comparison) (a b : Int) : Bool :=
  match op with
  | .eq => a = b
  | .ne => a ≠ b
  | .lt => a < b
  | .le => a ≤ b
  | .gt => b < a
  | .ge => b ≤ a

theorem Comparison.holds_compare (op : Comparison) (a b : Int) :
    op.holds (compare a b) = op.relates a b := by
  rcases lt_trichotomy a b with h | rfl | h
  · rw [compare_lt_iff_lt.2 h]
    cases op <;> simp [holds, relates, h, h.le, h.ne, h.not_gt, h.not_ge]
  · rw [compare_eq_iff_eq.2 rfl]
    cases op <;> simp [holds, relates]
  · rw [compare_gt_iff_gt.2 h]
    cases op <;> simp [holds, relates, h, h.le, h.ne', h.not_gt, h.not_ge]

/-- A test for equality decides alike on an order and the opposite. -/
theorem Comparison.holds_swap_of_not_ordered {op : Comparison} (hop : op.isOrdered = false)
    (o : Ordering) : op.holds o.swap = op.holds o :=
  holds_of_eq_iff hop (by cases o <;> simp)

/-! ## Pairs of types -/

namespace DataType

/-- The type of signed words in which numbers of two types are compared. -/
def common (A B : DataType) : DataType := .int (if A.isLong || B.isLong then .w64 else .w32) false

/-- **Types with a common range of words**: neither has negative numbers, or all numbers of both fit
the signed words. -/
def Comparable (A B : DataType) : Prop :=
  (A.isNatural = true ∧ B.isNatural = true) ∨
    ∀ z, A.Contains z ∨ B.Contains z → (A.common B).Contains z

/-- **The numbers that are compared in the wrong order**: a negative one of 64 bits and one of 32 bits
without sign. -/
def Misorders (A B : DataType) (a b : Int) : Prop :=
  (A = .int .w64 false ∧ B = .int .w32 true ∧ a < 0) ∨
    (A = .int .w32 true ∧ B = .int .w64 false ∧ b < 0)

instance (A B : DataType) (a b : Int) : Decidable (A.Misorders B a b) := by
  unfold Misorders
  infer_instance

variable {A B : DataType} {a b : Int}

theorem common_comm (A B : DataType) : A.common B = B.common A := by
  unfold common
  rw [Bool.or_comm]

theorem Comparable.symm (h : A.Comparable B) : B.Comparable A := by
  rcases h with ⟨hA, hB⟩ | h
  · exact .inl ⟨hB, hA⟩
  · exact .inr fun z hz => common_comm A B ▸ h z hz.symm

/-- A type that is compared without signs has a partner without negative numbers, or is the narrower
one of the pair that is misordered. -/
theorem Comparable.of_needsUnsignedOps (h : A.Comparable B) (hB : B.IsInteger)
    (hneeds : A.needsUnsignedOps = true) :
    B.isNatural = true ∨ (A = .int .w32 true ∧ B = .int .w64 false) := by
  rcases h with ⟨-, hnatural⟩ | hfits
  · exact .inl hnatural
  cases A with
  | int width unsigned =>
    obtain rfl : unsigned = true := isUnsigned_of_needsUnsignedOps hneeds
    cases width with
    | w8 => cases hneeds
    | w16 => cases hneeds
    | w64 =>
      -- the largest number of 64 bits does not fit
      have hmax := hfits (2 ^ 64 - 1) (.inl (by decide))
      unfold common at hmax
      exact absurd hmax (by simp [isLong, kind?]; decide)
    | w32 =>
      cases hlong : B.isLong with
      | false =>
        -- neither does the largest one of 32 bits
        have hmax := hfits (2 ^ 32 - 1) (.inl (by decide))
        unfold common at hmax
        rw [hlong] at hmax
        exact absurd hmax (by decide)
      | true =>
        cases B with
        | int width unsigned =>
          cases width with
          | w64 =>
            cases unsigned with
            | true => exact .inl rfl
            | false => exact .inr ⟨rfl, rfl⟩
          | _ => cases hlong
        | _ => cases hlong
  | _ => cases hneeds

theorem Contains.nonneg (ha : A.Contains a) (hA : A.isNatural = true) : 0 ≤ a := by
  unfold Contains at ha
  rw [if_pos hA] at ha
  exact ha.1

theorem isNatural_of_needsUnsignedOps (h : A.needsUnsignedOps = true) : A.isNatural = true := by
  cases A with
  | int width unsigned => exact isUnsigned_of_needsUnsignedOps h
  | _ => cases h

/-- **Numbers that are compared without signs are not negative**, if they are not misordered. -/
theorem Comparable.nonneg (h : A.Comparable B) (hA : A.IsInteger) (hB : B.IsInteger)
    (hneeds : (A.needsUnsignedOps || B.needsUnsignedOps) = true) (ha : A.Contains a)
    (hb : B.Contains b) (horder : ¬ A.Misorders B a b) : 0 ≤ a ∧ 0 ≤ b := by
  rcases Bool.or_eq_true_iff.1 hneeds with hneeds | hneeds
  · refine ⟨ha.nonneg (isNatural_of_needsUnsignedOps hneeds), ?_⟩
    rcases h.of_needsUnsignedOps hB hneeds with hnatural | ⟨rfl, rfl⟩
    · exact hb.nonneg hnatural
    · by_contra hneg
      exact horder (.inr ⟨rfl, rfl, by omega⟩)
  · refine ⟨?_, hb.nonneg (isNatural_of_needsUnsignedOps hneeds)⟩
    rcases h.symm.of_needsUnsignedOps hA hneeds with hnatural | ⟨rfl, rfl⟩
    · exact ha.nonneg hnatural
    · by_contra hneg
      exact horder (.inl ⟨rfl, rfl, by omega⟩)

end DataType

/-! ## The order of words -/

section Order

variable {A B : DataType} {a b : Int}

/-- The numbers of a type in words of any size. -/
theorem DataType.Contains.range (hA : A.IsInteger) (ha : A.Contains a) :
    -2 ^ (A.wordBits - 1) ≤ a ∧ a < 2 ^ A.wordBits := by
  have hpow : (2 : Int) ^ (A.wordBits - 1) ≤ 2 ^ A.wordBits ∧ 0 ≤ (2 : Int) ^ (A.wordBits - 1) := by
    unfold wordBits
    split <;> decide
  cases hneeds : A.needsUnsignedOps with
  | false =>
    have := ha.signed hA hneeds
    omega
  | true =>
    have := ha.natural (isUnsigned_of_needsUnsignedOps hneeds)
    omega

theorem DataType.Contains.lt_long (hA : A.IsInteger) (ha : A.Contains a) : a < 2 ^ 64 := by
  have hrange := ha.range hA
  unfold wordBits at hrange
  split at hrange <;> omega

theorem DataType.Contains.signed_long (hA : A.IsInteger) (ha : A.Contains a)
    (hneeds : A.needsUnsignedOps = false) : -2 ^ 63 ≤ a ∧ a < 2 ^ 63 := by
  have hsigned := ha.signed hA hneeds
  unfold wordBits at hsigned
  split at hsigned <;> omega

/-- A number as a long. -/
theorem DataType.toLong_represent (hA : A.IsInteger) (ha : A.Contains a) :
    (A.represent a).toLong A.isUnsignedInt = Int64.ofInt a := by
  unfold represent
  cases hlong : A.isLong with
  | true => rfl
  | false =>
    have hbits : A.wordBits = 32 := by simp [wordBits, hlong]
    simp only [Bool.false_eq_true, if_false, Number.toLong]
    cases hunsigned : A.isUnsignedInt with
    | true =>
      obtain rfl : A = .int .w32 true := by simpa [isUnsignedInt] using hunsigned
      obtain ⟨hlow, hhigh⟩ : 0 ≤ a ∧ a < 2 ^ 32 := ha
      -- the upper half is filled with zeros
      apply Int64.toBitVec_inj.1
      apply BitVec.eq_of_toNat_eq
      show ((BitVec.ofInt 32 a).setWidth 64).toNat = (BitVec.ofInt 64 a).toNat
      rw [BitVec.toNat_setWidth, toNat_ofInt_of_range hlow hhigh,
        toNat_ofInt_of_range hlow (by omega), Nat.mod_eq_of_lt (by omega)]
    | false =>
      have hneeds : A.needsUnsignedOps = false := by
        rw [needsUnsignedOps_of_int hlong]
        exact hunsigned
      obtain ⟨hlow, hhigh⟩ := hbits ▸ ha.signed hA hneeds
      exact Int32.toInt64_ofInt hlow (Int.le_of_lt_add_one hhigh)

theorem compare_toNat (ha : 0 ≤ a) (hb : 0 ≤ b) : compare a.toNat b.toNat = compare a b := by
  lift a to Nat using ha
  lift b to Nat using hb
  simp only [Int.toNat_natCast]
  rcases lt_trichotomy a b with h | h | h
  · rw [compare_lt_iff_lt.2 h, compare_lt_iff_lt.2 (Int.ofNat_lt.2 h)]
  · rw [h, compare_eq_iff_eq.2 rfl, compare_eq_iff_eq.2 rfl]
  · rw [compare_gt_iff_gt.2 h, compare_gt_iff_gt.2 (Int.ofNat_lt.2 h)]

/-- **Words are in the order of the numbers** that they carry, if the types have a common range and the
numbers are not misordered. -/
theorem orderNumbers_represent (hA : A.IsInteger) (hB : B.IsInteger) (hAB : A.Comparable B)
    (ha : A.Contains a) (hb : B.Contains b) (horder : ¬ A.Misorders B a b) :
    orderNumbers A B (A.represent a) (B.represent b) = compare a b := by
  have hnonneg := fun hneeds => hAB.nonneg hA hB hneeds ha hb horder
  -- two longs or two ints, compared with or without a sign: without one, both must be natural
  unfold orderNumbers
  cases hlong : A.isLong || B.isLong with
  | true =>
    simp only [if_true, DataType.toLong_represent hA ha, DataType.toLong_represent hB hb]
    cases hneeds : A.needsUnsignedOps || B.needsUnsignedOps with
    | true =>
      obtain ⟨ha₀, hb₀⟩ := hnonneg hneeds
      show compare (BitVec.ofInt 64 a).toNat (BitVec.ofInt 64 b).toNat = compare a b
      rw [toNat_ofInt_of_range ha₀ (ha.lt_long hA), toNat_ofInt_of_range hb₀ (hb.lt_long hB),
        compare_toNat ha₀ hb₀]
    | false =>
      obtain ⟨hneedsA, hneedsB⟩ := Bool.or_eq_false_iff.1 hneeds
      obtain ⟨ha₁, ha₂⟩ := ha.signed_long hA hneedsA
      obtain ⟨hb₁, hb₂⟩ := hb.signed_long hB hneedsB
      show compare (BitVec.ofInt 64 a).toInt (BitVec.ofInt 64 b).toInt = compare a b
      rw [toInt_ofInt_of_range ha₁ ha₂, toInt_ofInt_of_range hb₁ hb₂]
  | false =>
    obtain ⟨hlongA, hlongB⟩ := Bool.or_eq_false_iff.1 hlong
    have hbitsA : A.wordBits = 32 := by simp [DataType.wordBits, hlongA]
    have hbitsB : B.wordBits = 32 := by simp [DataType.wordBits, hlongB]
    simp only [DataType.represent, hlongA, hlongB, Bool.false_eq_true, if_false, Number.toInt]
    cases hneeds : A.needsUnsignedOps || B.needsUnsignedOps with
    | true =>
      obtain ⟨ha₀, hb₀⟩ := hnonneg hneeds
      have haₗ := hbitsA ▸ (ha.range hA).2
      have hbₗ := hbitsB ▸ (hb.range hB).2
      show compare (BitVec.ofInt 32 a).toNat (BitVec.ofInt 32 b).toNat = compare a b
      rw [toNat_ofInt_of_range ha₀ haₗ, toNat_ofInt_of_range hb₀ hbₗ, compare_toNat ha₀ hb₀]
    | false =>
      obtain ⟨hneedsA, hneedsB⟩ := Bool.or_eq_false_iff.1 hneeds
      obtain ⟨ha₁, ha₂⟩ := hbitsA ▸ ha.signed hA hneedsA
      obtain ⟨hb₁, hb₂⟩ := hbitsB ▸ hb.signed hB hneedsB
      show compare (BitVec.ofInt 32 a).toInt (BitVec.ofInt 32 b).toInt = compare a b
      rw [toInt_ofInt_of_range ha₁ ha₂, toInt_ofInt_of_range hb₁ hb₂]

/-- A negative long without its sign is larger than all numbers of 32 bits. -/
theorem toNat_ofInt_of_neg (hneg : a < 0) (hlow : -2 ^ 63 ≤ a) :
    2 ^ 63 ≤ (BitVec.ofInt 64 a).toNat := by
  rw [BitVec.toNat_ofInt]
  omega

/-- **Misordered numbers are compared the wrong way round**. -/
theorem orderNumbers_misorders (ha : A.Contains a) (hb : B.Contains b) (horder : A.Misorders B a b) :
    orderNumbers A B (A.represent a) (B.represent b) = (compare a b).swap := by
  rcases horder with ⟨rfl, rfl, hneg⟩ | ⟨rfl, rfl, hneg⟩
  · have hrange : 0 ≤ b ∧ b < 2 ^ 32 := hb
    have hlarge := toNat_ofInt_of_neg hneg ha.1
    have hlt : compare a b = .lt := compare_lt_iff_lt.2 (by omega)
    rw [hlt]
    unfold orderNumbers
    simp only [DataType.toLong_represent (DataType.isInteger_int _ _) ha,
      DataType.toLong_represent (DataType.isInteger_int _ _) hb]
    show compare (BitVec.ofInt 64 a).toNat (BitVec.ofInt 64 b).toNat = .gt
    rw [toNat_ofInt_of_range hrange.1 (by omega)]
    exact compare_gt_iff_gt.2 (by omega)
  · have hrange : 0 ≤ a ∧ a < 2 ^ 32 := ha
    have hlarge := toNat_ofInt_of_neg hneg hb.1
    have hgt : compare a b = .gt := compare_gt_iff_gt.2 (by omega)
    rw [hgt]
    unfold orderNumbers
    simp only [DataType.toLong_represent (DataType.isInteger_int _ _) ha,
      DataType.toLong_represent (DataType.isInteger_int _ _) hb]
    show compare (BitVec.ofInt 64 a).toNat (BitVec.ofInt 64 b).toNat = .lt
    rw [toNat_ofInt_of_range hrange.1 (by omega)]
    exact compare_lt_iff_lt.2 (by omega)

end Order

/-! ## Functions -/

/-- The meaning of a comparison of two variables. -/
theorem meaning_compare {c : ClassFile} {W : Rules} {L : Array Value} {σ : Names} {A B : DataType}
    {a b : Int} {x y : String} {op : Comparison} (hA : A.IsInteger) (hB : B.IsInteger)
    (hhelper : op.helper? A B ≠ some (c.name?.getD ""))
    (hx : (meaning c W L σ (.ident x A)).value = pure (A.represent a).toValue)
    (hy : (meaning c W L σ (.ident y B)).value = pure (B.represent b).toValue) :
    meaning c W L σ (.compare op (.ident x A) (.ident y B) .bool) =
      .ofTest (pure (op.holds (orderNumbers A B (A.represent a) (B.represent b)))) := by
  have hneither : ¬ (A.kind? = some .reference ∧ B.kind? = some .reference) := by
    rintro ⟨href, -⟩
    rcases hA.isNumber with h | h <;> cases href.symm.trans h
  show Meaning.ofTest (compareMeaning c W op A B _ _) = _
  unfold compareMeaning
  rw [if_neg hneither, hx, hy]
  exact congrArg Meaning.ofTest (W.compared_numbers op hhelper hA.isNumber hB.isNumber
    (A.isLong_represent a) (B.isLong_represent b))

section Functions

variable {options : Options} {imports : List Callable} {p : Program} {c : ClassFile} {f : FunDef}
  {A B : DataType} {op : Comparison} {x y : String} {a b : Int} {this : Option Value}

/-- The kinds of the arguments of a function of two integers. -/
theorem haveKinds_pair (hA : A.IsInteger) (hB : B.IsInteger)
    (hparams : f.params = [⟨x, A⟩, ⟨y, B⟩]) (a b : Int) :
    HaveKinds ((f.params.map (·.ty)).filterMap DataType.kind?)
      [(A.represent a).toValue, (B.represent b).toValue] := by
  have hnumbers : NumbersFor [A, B] [A.represent a, B.represent b] :=
    .cons (A.isLong_represent a) (.cons (B.isLong_represent b) .nil)
  rw [hparams]
  exact haveKinds_numbers (by simp [hA.isNumber, hB.isNumber]) hnumbers

/-- The parameters of a function of two integers are its arguments. -/
theorem HoldsArguments.values_pair {l : Locals} {L : Array Value}
    (h : HoldsArguments l L f.params [(A.represent a).toValue, (B.represent b).toValue])
    (c : ClassFile) (W : Rules) (table : CallTable) (hA : A.IsInteger) (hB : B.IsInteger) (hparams : f.params = [⟨x, A⟩, ⟨y, B⟩]) :
    (meaning c W L (l.names table f) (.ident x A)).value = pure (A.represent a).toValue ∧
      (meaning c W L (l.names table f) (.ident y B)).value = pure (B.represent b).toValue := by
  rw [hparams] at h
  obtain ⟨⟨s, hs, hsty, hv⟩, hrest⟩ := List.forall₂_cons.1 h
  obtain ⟨⟨t, ht, htty, hw⟩, -⟩ := List.forall₂_cons.1 hrest
  exact ⟨value_ident hA hs hsty hv, value_ident hB ht htty hw⟩

/-- **A function that compares two integers** answers what their words decide. -/
theorem Compiled.answers_compare {table : CallTable} (h : Compiled options imports p c table)
    (hf : f ∈ p.functions) (hA : A.IsInteger) (hB : B.IsInteger)
    (hparams : f.params = [⟨x, A⟩, ⟨y, B⟩]) (hreturn : f.returnType = .bool)
    (hbody : f.body ∈ (Expr.compare op (.ident x A) (.ident y B) .bool).decisions)
    (hhelper : op.helper? A B ≠ some p.name) (hthis : this.isSome = !f.isStatic) (a b : Int) :
    c.Answers f this [(A.represent a).toValue, (B.represent b).toValue]
      (.ok (some (.int
        (if op.holds (orderNumbers A B (A.represent a) (B.represent b)) then 1 else 0)))) := by
  have hown : op.helper? A B ≠ some (c.name?.getD "") := by rwa [h.name?_eq, Option.getD_some]
  refine h.answers_decision hf hthis (haveKinds_pair hA hB hparams a b) hbody rfl hreturn
    fun W l L hholds => ?_
  obtain ⟨hx, hy⟩ := hholds.values_pair c W table hA hB hparams
  exact meaning_compare hA hB hown hx hy

/-- **Comparisons decide the order of the numbers**. A function of two integers that returns whether
they are in a relation, as a value or as the condition of a conditional or of a loop, answers one if they
are and zero if not. The class must not be the one of the library that the comparison needs, and only
tests for equality are made of misordered numbers. -/
theorem answers_comparison (himports : ∀ i ∈ imports, i.methodRef = none)
    (hc : (compileProgram options imports p).result = .ok c) (hf : f ∈ p.functions)
    (hA : A.IsInteger) (hB : B.IsInteger) (hAB : A.Comparable B)
    (hparams : f.params = [⟨x, A⟩, ⟨y, B⟩]) (hreturn : f.returnType = .bool)
    (hbody : f.body ∈ (Expr.compare op (.ident x A) (.ident y B) .bool).decisions)
    (hhelper : op.helper? A B ≠ some p.name) (ha : A.Contains a) (hb : B.Contains b)
    (hordered : ¬ (op.isOrdered = true ∧ A.Misorders B a b)) (hthis : this.isSome = !f.isStatic) :
    c.Answers f this [(A.represent a).toValue, (B.represent b).toValue]
      (.ok (some (.int (if op.relates a b then 1 else 0)))) := by
  obtain ⟨table, h⟩ := compiled_of_ok himports hc
  have hanswers := h.answers_compare hf hA hB hparams hreturn hbody hhelper hthis a b
  have hholds : op.holds (orderNumbers A B (A.represent a) (B.represent b)) = op.relates a b := by
    rw [← op.holds_compare]
    by_cases horder : A.Misorders B a b
    · -- an order and its opposite agree on what is equal
      have hop : op.isOrdered = false := eq_false_of_ne_true fun hop => hordered ⟨hop, horder⟩
      rw [orderNumbers_misorders ha hb horder, op.holds_swap_of_not_ordered hop]
    · rw [orderNumbers_represent hA hB hAB ha hb horder]
  rwa [hholds] at hanswers

end Functions

/-! ## Programs -/

/-- The comparison of two parameters is a branch after code of which the size is bounded. -/
theorem comparison_advances {f : FunDef} {l : Locals} {A B : DataType} {x y : String}
    (hl : Locals.ofFunction f f.reservedSlots = .ok l) (hA : A.IsInteger) (hB : B.IsInteger)
    (hparams : f.params = [⟨x, A⟩, ⟨y, B⟩]) (op : Comparison) (whole : Expr) :
    ∃ test z, Advances l 10 21 0 (Opcode.branchPops test) z ∧ ∀ target s,
      compareBranch op whole (.ident x A) (.ident y B) (identValue x A) (identValue y B) false target s =
        (do z; Lower.code (Asm.branch test target) : Lower Unit) s := by
  have hload (q : Param) (hq : q ∈ f.params) (hty : q.ty.IsInteger) (d : Nat) (hd : d ≤ 2) :
      Advances l 0 4 d (d + q.ty.numberKind.words) (identValue q.name q.ty) := by
    obtain ⟨s, hs, hsty, hfits⟩ := Locals.exists_number_slot hl hq hty.isNumber
    have hwords : q.ty.numberKind.words ≤ 2 := by cases q.ty.numberKind <;> decide
    exact identValue_advances hs (by rw [hsty]; exact hty.isNumber.kind?) hty.isNumber.kind? hfits
      (by unfold maxFrameWords; omega)
  have hleft := hload ⟨x, A⟩ (by simp [hparams]) hA 0 (Nat.zero_le 2)
  have hright := hload ⟨y, B⟩ (by simp [hparams]) hB
  have hlhs : (Expr.ident x A).ty.IsNumber := hA.isNumber
  have hrhs : (Expr.ident y B).ty.IsNumber := hB.isNumber
  exact compareBranch_advances op whole hlhs hrhs hleft hright

/-- **A program of one function that compares its parameters has a class** if there is room for it. -/
theorem compileProgram_comparison {options : Options} {p : Program} {f : FunDef} {l : Locals}
    {A B : DataType} {op : Comparison} {x y : String} (hp : p.Single options f 10)
    (hl : Locals.ofFunction f f.reservedSlots = .ok l) (hA : A.IsInteger) (hB : B.IsInteger)
    (hparams : f.params = [⟨x, A⟩, ⟨y, B⟩]) (hreturn : f.returnType = .bool)
    (hbody : f.body = [.ret (some (.compare op (.ident x A) (.ident y B) .bool))]) :
    ∃ c, (compileProgram options [] p).result = .ok c := by
  obtain ⟨test, z, hz, hbranch⟩ := comparison_advances hl hA hB hparams op
    (.compare op (.ident x A) (.ident y B) .bool)
  have hlowers : f.Lowers p 10 :=
    FunDef.lowers_truth hl hbody hreturn.symm hreturn (by decide : 21 + 9 ≤ _)
      (fun table => rfl) fun table _ => ⟨test, z, hz, hbranch ⟨0⟩⟩
  exact hp.compiles hlowers

/-- `less(a, b)` compares numbers of two types. -/
def lessFunction (A B : DataType) : FunDef where
  name := "less"
  params := [⟨"a", A⟩, ⟨"b", B⟩]
  returnType := .bool
  body := [.ret (some (.compare .lt (.ident "a" A) (.ident "b" B) .bool))]

/-- A program of one comparison. -/
def less (A B : DataType) : Program := ⟨"Less", [lessFunction A B]⟩

/-- The widest integers hold the 32-bit ones without sign. -/
theorem comparable_wide : DataType.Comparable (.int .w64 false) (.int .w32 true) := by
  refine .inr fun z hz => ?_
  show -(2 ^ 63) ≤ z ∧ z < 2 ^ 63
  have hranges : (-(2 ^ 63) ≤ z ∧ z < 2 ^ 63) ∨ (0 ≤ z ∧ z < 2 ^ 32) := hz
  omega

theorem compileProgram_less {A B : DataType} {l : Locals} (hA : A.IsInteger) (hB : B.IsInteger)
    (hf : (lessFunction A B).ShortTexts)
    (hl : Locals.ofFunction (lessFunction A B) (lessFunction A B).reservedSlots = .ok l) :
    ∃ c, (compileProgram {} [] (less A B)).result = .ok c := by
  have htexts : ShortText "Less" ∧ ShortText Descriptor.objectClass := by
    unfold ShortText
    decide
  exact compileProgram_comparison ⟨rfl, htexts.1, htexts.2, hf, by decide⟩ hl hA hB rfl rfl rfl

/-- Bytes and 16-bit numbers without sign are compared as ints: minus one is less than the largest. The
widest integers and the 32-bit ones without sign are compared as longs. -/
theorem answers_comparison_less :
    (∃ c, (compileProgram {} [] (less (.int .w8 false) (.int .w16 true))).result = .ok c ∧
      c.Answers (lessFunction (.int .w8 false) (.int .w16 true)) none [.int (-1), .int 65535]
        (.ok (some (.int 1)))) ∧
    ∃ c, (compileProgram {} [] (less (.int .w64 false) (.int .w32 true))).result = .ok c ∧
      c.Answers (lessFunction (.int .w64 false) (.int .w32 true)) none [.long 1, .int (-1)]
        (.ok (some (.int 1))) := by
  have htexts : (lessFunction (.int .w8 false) (.int .w16 true)).ShortTexts ∧
      (lessFunction (.int .w64 false) (.int .w32 true)).ShortTexts := by
    unfold FunDef.ShortTexts ShortText
    decide +kernel
  have hinteger := DataType.isInteger_int
  have hanswers {A B : DataType} {c : ClassFile} (hA : A.IsInteger) (hB : B.IsInteger)
      (hAB : A.Comparable B) (hc : (compileProgram {} [] (less A B)).result = .ok c)
      (hhelper : Comparison.lt.helper? A B ≠ some "Less") {a b : Int} (ha : A.Contains a)
      (hb : B.Contains b) (horder : ¬ (Comparison.lt.isOrdered = true ∧ A.Misorders B a b)) :=
    answers_comparison (fun i hi => by cases hi) hc (List.mem_singleton.2 rfl) hA hB hAB rfl rfl
      List.mem_cons_self hhelper ha hb horder
      (rfl : (none : Option Value).isSome = !(lessFunction A B).isStatic)
  constructor
  · obtain ⟨c, hc⟩ := compileProgram_less (hinteger .w8 false) (hinteger .w16 true) htexts.1 rfl
    have hAB : DataType.Comparable (.int .w8 false) (.int .w16 true) := by
      refine .inr fun z hz => ?_
      show -(2 ^ 31) ≤ z ∧ z < 2 ^ 31
      have hranges : (-(2 ^ 7) ≤ z ∧ z < 2 ^ 7) ∨ (0 ≤ z ∧ z < 2 ^ 16) := hz
      omega
    have hless := hanswers (hinteger _ _) (hinteger _ _) hAB hc (by decide) (a := -1) (b := 65535)
      (by decide) (by decide) (by decide)
    have hvalues : (DataType.represent (.int .w8 false) (-1)).toValue = .int (-1) ∧
        (DataType.represent (.int .w16 true) 65535).toValue = .int 65535 ∧
        Comparison.lt.relates (-1) 65535 = true := by decide
    rw [hvalues.1, hvalues.2.1, hvalues.2.2] at hless
    exact ⟨c, hc, hless⟩
  · obtain ⟨c, hc⟩ := compileProgram_less (hinteger .w64 false) (hinteger .w32 true) htexts.2 rfl
    have hless := hanswers (hinteger _ _) (hinteger _ _) comparable_wide hc (by decide) (a := 1)
      (b := 4294967295) (by decide) (by decide) (by decide)
    have hvalues : (DataType.represent (.int .w64 false) 1).toValue = .long 1 ∧
        (DataType.represent (.int .w32 true) 4294967295).toValue = .int (-1) ∧
        Comparison.lt.relates 1 4294967295 = true := by decide
    rw [hvalues.1, hvalues.2.1, hvalues.2.2] at hless
    exact ⟨c, hc, hless⟩

/-- A comparison in a class with the name of one of the library. -/
def hidingLess : Program := ⟨"java/lang/Integer", [lessFunction (.int .w32 true) (.int .w32 true)]⟩

/-- The class has no method that compares numbers without sign. -/
theorem answers_hidingLess {c : ClassFile} (hc : (compileProgram {} [] hidingLess).result = .ok c) :
    c.Answers (lessFunction (.int .w32 true) (.int .w32 true)) none [.int 3, .int 6]
      (.error (.noSuchMethod "compareUnsigned" "(II)I")) := by
  obtain ⟨table, h⟩ := compiled_of_ok (fun i hi => by cases hi) hc
  have hmissing : c.find? "compareUnsigned" "(II)I" = none :=
    h.find?_eq_none (by decide) (by simp [hidingLess, lessFunction])
  have howner : "java/lang/Integer" = c.name?.getD "" := by
    rw [h.name?_eq]
    rfl
  have hinteger := DataType.isInteger_int .w32 true
  refine h.answers (List.mem_singleton.2 rfl) rfl (haveKinds_pair hinteger hinteger rfl 3 6)
    fun l L out _ hholds => ?_
  rw [selectBody_return rfl]
  apply ret_wp rfl
  let W := answerRules c (some (.error (.noSuchMethod "compareUnsigned" "(II)I"), out))
  have hholds : HoldsArguments l L (lessFunction (.int .w32 true) (.int .w32 true)).params
    [(DataType.represent (.int .w32 true) 3).toValue,
      (DataType.represent (.int .w32 true) 6).toValue] := hholds
  obtain ⟨hx, hy⟩ := hholds.values_pair c W table hinteger hinteger rfl
  show (compareMeaning c W .lt (.int .w32 true) (.int .w32 true)
    (meaning c W L _ (.ident "a" (.int .w32 true))).value
    (meaning c W L _ (.ident "b" (.int .w32 true))).value >>= _) _ _
  rw [hx, hy]
  -- the call is one of the class itself, and ends the run
  exact libraryValue_missing (unsignedInt "compareUnsigned" "(II)I") (.int 3) (.int 6)
    Rules.parameters?_unsignedInts howner hmissing out _

/-- Two comparisons that do not decide the order of the numbers. Minus one is less than five, but not as
a 64-bit number that is compared with a 32-bit one without sign. And a class that hides the library has
no method for the comparison of numbers without sign. -/
theorem not_answers_comparison_less :
    (DataType.Comparable (.int .w64 false) (.int .w32 true) ∧ Comparison.lt.relates (-1) 5 = true ∧
      ∃ c, (compileProgram {} [] (less (.int .w64 false) (.int .w32 true))).result = .ok c ∧
        c.Answers (lessFunction (.int .w64 false) (.int .w32 true)) none [.long (-1), .int 5]
          (.ok (some (.int 0))) ∧
        ¬ c.Answers (lessFunction (.int .w64 false) (.int .w32 true)) none [.long (-1), .int 5]
          (.ok (some (.int 1)))) ∧
    (DataType.Comparable (.int .w32 true) (.int .w32 true) ∧ Comparison.lt.relates 3 6 = true ∧
      ∃ c, (compileProgram {} [] hidingLess).result = .ok c ∧
        c.Answers (lessFunction (.int .w32 true) (.int .w32 true)) none [.int 3, .int 6]
          (.error (.noSuchMethod "compareUnsigned" "(II)I")) ∧
        ¬ c.Answers (lessFunction (.int .w32 true) (.int .w32 true)) none [.int 3, .int 6]
          (.ok (some (.int 1)))) := by
  have htexts : (lessFunction (.int .w64 false) (.int .w32 true)).ShortTexts ∧
      (lessFunction (.int .w32 true) (.int .w32 true)).ShortTexts ∧
      ShortText "java/lang/Integer" ∧ ShortText Descriptor.objectClass := by
    unfold FunDef.ShortTexts ShortText
    decide +kernel
  have hinteger := DataType.isInteger_int
  constructor
  · obtain ⟨c, hc⟩ := compileProgram_less (hinteger .w64 false) (hinteger .w32 true) htexts.1 rfl
    obtain ⟨table, h⟩ := compiled_of_ok (fun i hi => by cases hi) hc
    have hanswers := h.answers_compare (List.mem_singleton.2 rfl) (hinteger .w64 false)
      (hinteger .w32 true) rfl rfl List.mem_cons_self (by decide)
      (rfl : (none : Option Value).isSome = !(lessFunction _ _).isStatic) (-1) 5
    have hvalues : (DataType.represent (.int .w64 false) (-1)).toValue = .long (-1) ∧
        (DataType.represent (.int .w32 true) 5).toValue = .int 5 := by decide
    have horder : Comparison.lt.holds (orderNumbers (.int .w64 false) (.int .w32 true)
        (DataType.represent (.int .w64 false) (-1)) (DataType.represent (.int .w32 true) 5)) =
          false := by
      rw [orderNumbers_misorders (by decide) (by decide) (by decide)]
      decide
    rw [horder, hvalues.1, hvalues.2] at hanswers
    exact ⟨comparable_wide, by decide, c, hc, hanswers, fun hok => by cases hanswers.unique hok⟩
  · obtain ⟨c, hc⟩ : ∃ c, (compileProgram {} [] hidingLess).result = .ok c :=
      compileProgram_comparison ⟨rfl, htexts.2.2.1, htexts.2.2.2, htexts.2.1, by decide⟩
        (rfl : Locals.ofFunction (lessFunction (.int .w32 true) (.int .w32 true)) 0 = .ok _)
        (hinteger .w32 true) (hinteger .w32 true) rfl rfl rfl
    have hanswers := answers_hidingLess hc
    exact ⟨.inl ⟨rfl, rfl⟩, by decide, c, hc, hanswers, fun hok => by cases hanswers.unique hok⟩

end ClassFoundry
