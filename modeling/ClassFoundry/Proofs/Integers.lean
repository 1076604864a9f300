import ClassFoundry.Proofs.Structured.Numbers
import Mathlib.Data.Int.Bitwise

/-!
# Integer types

Integers of any width and characters have a range, and the machine carries each of their numbers in one
word of two's complement. Operations are meant on the numbers: they are done without any bound, and then
the result is reduced to the range. The operations on words do the same, on the words of the numbers.

## Main definitions

* `DataType.Contains`, `DataType.wrap`: the range of an integer type, and the reduction to it
* `DataType.represent`: the word of a number
* `Arith.exact`, `UnaryArith.exact`: operations on the numbers of a type

## Main results

* `Arith.onNumbers_represent`, `UnaryArith.onNumber_represent`: operations on words are those on the
  numbers
-/

namespace ClassFoundry

/-! ## Ranges -/

namespace DataType

/-- The types of integers: those of any width, with or without sign, and characters. -/
def IsInteger : DataType → Prop
  | .int _ _ | .char => True
  | _ => False

/-- The number of bits of an integer type. -/
def bits : DataType → Nat
  | .int width _ => width.bits
  | .char => 16
  | _ => 0

/-- Whether the numbers of a type are never negative. -/
def isNatural : DataType → Bool
  | .int _ unsigned => unsigned
  | .char => true
  | _ => false

/-- **The range of an integer type**. -/
def Contains (ty : DataType) (z : Int) : Prop :=
  if ty.isNatural then 0 ≤ z ∧ z < 2 ^ ty.bits
  else -2 ^ (ty.bits - 1) ≤ z ∧ z < 2 ^ (ty.bits - 1)

/-- **The number of a type that is congruent to a number** modulo the power of two of its bits. -/
def wrap (ty : DataType) (z : Int) : Int :=
  if ty.isNatural then z % 2 ^ ty.bits
  else (z + 2 ^ (ty.bits - 1)) % 2 ^ ty.bits - 2 ^ (ty.bits - 1)

/-- **The word that carries a number**: of 64 bits for the widest types and of 32 for all others. -/
def represent (ty : DataType) (z : Int) : Number :=
  if ty.isLong then .long (Int64.ofInt z) else .int (Int32.ofInt z)

instance (ty : DataType) (z : Int) : Decidable (ty.Contains z) := by
  unfold Contains
  infer_instance

variable {ty : DataType}

theorem contains_wrap (h : ty.IsInteger) (z : Int) : ty.Contains (ty.wrap z) := by
  unfold Contains wrap
  cases ty with
  | char =>
    simp only [isNatural, bits, if_true]
    omega
  | int width unsigned =>
    cases width <;> cases unsigned <;>
      simp only [isNatural, bits, Width.bits, if_true, if_false, Bool.false_eq_true] <;> omega
  | _ => cases h

/-- A number and the one of the type that it is reduced to are congruent. -/
theorem wrap_emod (ty : DataType) (z : Int) : ty.wrap z % 2 ^ ty.bits = z % 2 ^ ty.bits := by
  unfold wrap
  split
  · exact Int.emod_emod_of_dvd z (dvd_refl _)
  · rw [Int.sub_emod, Int.emod_emod_of_dvd _ (dvd_refl _), ← Int.sub_emod, add_sub_cancel_right]

end DataType

/-! ## Words of any width -/

section Words

variable {w : Nat}

theorem getLsbD_ofInt (w : Nat) (z : Int) (i : Nat) :
    (BitVec.ofInt w z).getLsbD i = (decide (i < w) && z.testBit i) := by
  cases z with
  | ofNat n =>
    rw [Int.ofNat_eq_natCast, BitVec.ofInt_natCast, BitVec.getLsbD_ofNat]
    rfl
  | negSucc n =>
    rw [BitVec.ofInt_negSucc_eq_not_ofNat, BitVec.getLsbD_not, BitVec.getLsbD_ofNat]
    by_cases hi : i < w <;> simp [hi, Int.testBit]

theorem ofInt_land (a b : Int) : BitVec.ofInt w (a.land b) = BitVec.ofInt w a &&& BitVec.ofInt w b := by
  apply BitVec.eq_of_getLsbD_eq
  intro i hi
  simp only [BitVec.getLsbD_and, getLsbD_ofInt, Int.testBit_land, hi, decide_true, Bool.true_and]

theorem ofInt_lor (a b : Int) : BitVec.ofInt w (a.lor b) = BitVec.ofInt w a ||| BitVec.ofInt w b := by
  apply BitVec.eq_of_getLsbD_eq
  intro i hi
  simp only [BitVec.getLsbD_or, getLsbD_ofInt, Int.testBit_lor, hi, decide_true, Bool.true_and]

theorem ofInt_xor (a b : Int) : BitVec.ofInt w (a.xor b) = BitVec.ofInt w a ^^^ BitVec.ofInt w b := by
  apply BitVec.eq_of_getLsbD_eq
  intro i hi
  simp only [BitVec.getLsbD_xor, getLsbD_ofInt, Int.testBit_lxor, hi, decide_true, Bool.true_and]

theorem ofInt_sub (a b : Int) : BitVec.ofInt w (a - b) = BitVec.ofInt w a - BitVec.ofInt w b := by
  rw [sub_eq_add_neg, BitVec.ofInt_add, BitVec.ofInt_neg, BitVec.sub_eq_add_neg]

theorem ofInt_mul_two_pow (a : Int) (k : Nat) :
    BitVec.ofInt w (a * 2 ^ k) = BitVec.ofInt w a <<< k := by
  have hpow : BitVec.ofInt w (2 ^ k) = BitVec.twoPow w k := by
    rw [← BitVec.toNat_inj, BitVec.toNat_twoPow]
    norm_cast
  rw [BitVec.ofInt_mul, hpow, BitVec.shiftLeft_eq_mul_twoPow]

/-! The distance of a shift is a word of which only the lowest bits count. -/

section Distances

variable {m : Nat} (hdvd : m ∣ 2 ^ w)

include hdvd

theorem bmod_emod_of_dvd (z : Int) : z.bmod (2 ^ w) % m = z % m := by
  have hdvd : (m : Int) ∣ (2 ^ w : Nat) := by exact_mod_cast hdvd
  rw [← Int.emod_emod_of_dvd _ hdvd, Int.bmod_emod, Int.emod_emod_of_dvd _ hdvd]

theorem toInt_emod_ofInt (z : Int) : (BitVec.ofInt w z).toInt % m = z % m := by
  rw [BitVec.toInt_ofInt, bmod_emod_of_dvd hdvd]

variable (hm : 2 * m < 2 ^ w)

include hm

theorem toNat_smod (d : BitVec w) : (d.smod (BitVec.ofNat w m)).toNat = (d.toInt % m).toNat := by
  have hmod : (BitVec.ofNat w m).toInt = m := by
    have hlt : (BitVec.ofNat w m).toNat = m := by
      rw [BitVec.toNat_ofNat]
      exact Nat.mod_eq_of_lt (by omega)
    rw [BitVec.toInt_eq_toNat_of_lt (by omega), hlt]
  have hrest : (d.smod (BitVec.ofNat w m)).toInt = d.toInt % m := by
    rw [BitVec.toInt_smod, hmod, Int.fmod_eq_emod_of_nonneg _ (Int.natCast_nonneg m)]
  have hnonneg : 0 ≤ d.toInt % m := by
    refine Int.emod_nonneg _ fun hzero => ?_
    obtain rfl : m = 0 := by exact_mod_cast hzero
    exact absurd (Nat.zero_dvd.1 hdvd) (by simp)
  have hlt := (d.smod (BitVec.ofNat w m)).isLt
  rw [BitVec.toInt_eq_toNat_cond] at hrest
  split at hrest <;> omega

theorem toNat_umod (d : BitVec w) : (d % BitVec.ofNat w m).toNat = (d.toInt % m).toNat := by
  rw [BitVec.toNat_umod, BitVec.toNat_ofNat, Nat.mod_eq_of_lt (show m < 2 ^ w by omega),
    BitVec.toInt_eq_toNat_bmod, bmod_emod_of_dvd hdvd]
  norm_cast

end Distances

section Signed

variable {a b : Int} (ha : -2 ^ w ≤ a) (halt : a < 2 ^ w)

include ha halt

/-- A number in the range of signed words is the number of its word. -/
theorem toInt_ofInt_of_range : (BitVec.ofInt (w + 1) a).toInt = a := by
  rw [BitVec.toInt_ofInt]
  apply Int.bmod_eq_of_le <;> rw [Nat.pow_succ] <;> push_cast <;> omega

theorem ofInt_div_two_pow (k : Nat) :
    BitVec.ofInt (w + 1) (a / 2 ^ k) = (BitVec.ofInt (w + 1) a).sshiftRight k := by
  rw [← BitVec.ofInt_toInt (x := (BitVec.ofInt (w + 1) a).sshiftRight k), BitVec.toInt_sshiftRight,
    toInt_ofInt_of_range ha halt, Int.shiftRight_eq_div_pow, Nat.cast_pow, Nat.cast_ofNat]

variable (hb : -2 ^ w ≤ b) (hblt : b < 2 ^ w)

include hb hblt

theorem ofInt_tdiv :
    BitVec.ofInt (w + 1) (a.tdiv b) = (BitVec.ofInt (w + 1) a).sdiv (BitVec.ofInt (w + 1) b) := by
  apply BitVec.eq_of_toInt_eq
  rw [BitVec.toInt_sdiv, toInt_ofInt_of_range ha halt, toInt_ofInt_of_range hb hblt, BitVec.toInt_ofInt]

theorem ofInt_tmod :
    BitVec.ofInt (w + 1) (a.tmod b) = (BitVec.ofInt (w + 1) a).srem (BitVec.ofInt (w + 1) b) := by
  rw [← BitVec.ofInt_toInt (x := (BitVec.ofInt (w + 1) a).srem (BitVec.ofInt (w + 1) b)),
    BitVec.toInt_srem, toInt_ofInt_of_range ha halt, toInt_ofInt_of_range hb hblt]

end Signed

section Natural

variable {a b : Int} (ha : 0 ≤ a) (halt : a < 2 ^ w)

include ha halt

/-- A number that is not negative is the number of its word without sign. -/
theorem toNat_ofInt_of_range : (BitVec.ofInt w a).toNat = a.toNat := by
  rw [BitVec.toNat_ofInt, Int.emod_eq_of_lt ha (by exact_mod_cast halt)]

theorem ofInt_div_two_pow_of_nonneg (k : Nat) :
    BitVec.ofInt w (a / 2 ^ k) = BitVec.ofInt w a >>> k := by
  have hdiv : a / 2 ^ k < 2 ^ w := Int.lt_of_le_of_lt (Int.ediv_le_self _ ha) halt
  rw [← BitVec.toNat_inj, toNat_ofInt_of_range (Int.ediv_nonneg ha (Int.pow_nonneg (by decide))) hdiv,
    BitVec.toNat_ushiftRight, toNat_ofInt_of_range ha halt, Nat.shiftRight_eq_div_pow]
  lift a to Nat using ha
  norm_cast

variable (hb : 0 ≤ b) (hblt : b < 2 ^ w)

include hb hblt

theorem ofInt_tdiv_of_nonneg : BitVec.ofInt w (a.tdiv b) = BitVec.ofInt w a / BitVec.ofInt w b := by
  rw [Int.tdiv_eq_ediv_of_nonneg ha]
  have hdiv : a / b < 2 ^ w := Int.lt_of_le_of_lt (Int.ediv_le_self _ ha) halt
  rw [← BitVec.toNat_inj, toNat_ofInt_of_range (Int.ediv_nonneg ha hb) hdiv, BitVec.toNat_udiv,
    toNat_ofInt_of_range ha halt, toNat_ofInt_of_range hb hblt]
  lift a to Nat using ha
  lift b to Nat using hb
  norm_cast

theorem ofInt_tmod_of_nonneg : BitVec.ofInt w (a.tmod b) = BitVec.ofInt w a % BitVec.ofInt w b := by
  rw [Int.tmod_eq_emod_of_nonneg ha]
  have hmod : 0 ≤ a % b ∧ a % b < 2 ^ w := by
    lift a to Nat using ha
    lift b to Nat using hb
    have := Nat.mod_le a b
    omega
  rw [← BitVec.toNat_inj, toNat_ofInt_of_range hmod.1 hmod.2, BitVec.toNat_umod,
    toNat_ofInt_of_range ha halt, toNat_ofInt_of_range hb hblt]
  lift a to Nat using ha
  lift b to Nat using hb
  norm_cast

end Natural

end Words

/-! ## Operations -/

/-- The number of bits of the words that carry the numbers of a type. -/
def DataType.wordBits (ty : DataType) : Nat := if ty.isLong then 64 else 32

/-- An operation on numbers without any bound; none on division by zero. Division truncates toward
zero, and the distances of shifts are taken modulo the number of bits of a word. -/
def Arith.ideal (op : Arith) (wordBits : Nat) (a b : Int) : Option Int :=
  match op with
  | .add => some (a + b)
  | .sub => some (a - b)
  | .mul => some (a * b)
  | .div => if b = 0 then none else some (a.tdiv b)
  | .mod => if b = 0 then none else some (a.tmod b)
  | .and => some (a.land b)
  | .or => some (a.lor b)
  | .xor => some (a.xor b)
  | .shl => some (a * 2 ^ (b % wordBits).toNat)
  | .shr => some (a / 2 ^ (b % wordBits).toNat)

/-- **A binary operation on the numbers of a type**; none on division by zero. -/
def Arith.exact (op : Arith) (ty : DataType) (a b : Int) : Option Int :=
  (op.ideal ty.wordBits a b).map ty.wrap

/-- **A unary operation on the numbers of a type**. -/
def UnaryArith.exact (op : UnaryArith) (ty : DataType) (a : Int) : Int :=
  ty.wrap (match op with | .neg => -a | .complement => -a - 1)

section Words

variable {ty : DataType} {z : Int}

theorem DataType.isUnsigned_of_needsUnsignedOps (h : ty.needsUnsignedOps = true) :
    ty.isUnsigned = true := by
  cases ty with
  | int width unsigned => cases width <;> cases unsigned <;> first | rfl | cases h
  | _ => cases h

/-- The numbers of a type that has no operations of its own are those of signed words. -/
theorem DataType.Contains.signed (hty : ty.IsInteger) (hz : ty.Contains z)
    (h : ty.needsUnsignedOps = false) :
    -2 ^ (ty.wordBits - 1) ≤ z ∧ z < 2 ^ (ty.wordBits - 1) := by
  cases ty with
  | char =>
    obtain ⟨hlow, hhigh⟩ : 0 ≤ z ∧ z < 2 ^ 16 := hz
    exact ⟨by show -2 ^ 31 ≤ z; omega, by show z < 2 ^ 31; omega⟩
  | int width unsigned =>
    cases width <;> cases unsigned <;> simp [needsUnsignedOps] at h <;>
      simp [Contains, isNatural, bits, Width.bits] at hz <;> simp [wordBits, isLong, kind?] <;> omega
  | _ => cases hty

/-- The numbers of a type without sign are those of words without sign. -/
theorem DataType.Contains.natural (hz : ty.Contains z) (h : ty.isUnsigned = true) :
    0 ≤ z ∧ z < 2 ^ ty.wordBits := by
  cases ty with
  | int width unsigned =>
    obtain rfl : unsigned = true := h
    cases width <;> simp [Contains, isNatural, bits, Width.bits] at hz <;>
      simp [wordBits, isLong, kind?] <;> omega
  | _ => cases h

end Words

/-- An operation on words of any width; none on division by zero. -/
def Arith.onWords {w : Nat} (op : Arith) (ty : DataType) (a b : BitVec w) (distance : Nat) :
    Option (BitVec w) :=
  match op with
  | .add => some (a + b)
  | .sub => some (a - b)
  | .mul => some (a * b)
  | .div => if b = 0 then none else some (if ty.needsUnsignedOps then a / b else a.sdiv b)
  | .mod => if b = 0 then none else some (if ty.needsUnsignedOps then a % b else a.srem b)
  | .and => some (a &&& b)
  | .or => some (a ||| b)
  | .xor => some (a ^^^ b)
  | .shl => some (a <<< distance)
  | .shr => some (if ty.isUnsigned then a >>> distance else a.sshiftRight distance)

theorem Arith.onInts_eq (op : Arith) {ty : DataType} (hlong : ty.isLong = false) (a b : Int32) :
    op.onInts ty a b =
      (op.onWords ty a.toBitVec b.toBitVec (b.toInt % 32).toNat).map Int32.ofBitVec := by
  have hneeds := DataType.needsUnsignedOps_of_int hlong
  have hzero : b = 0 ↔ b.toBitVec = 0 := Int32.toBitVec_inj.symm
  have hsigned := toNat_smod (w := 32) (m := 32) (by decide) (by decide) b.toBitVec
  have hunsigned := toNat_umod (w := 32) (m := 32) (by decide) (by decide) b.toBitVec
  cases op with
  | div | mod =>
    simp only [onInts, onWords, hneeds, hzero]
    split
    · rfl
    · cases ty.isUnsignedInt <;> rfl
  | shl => exact congrArg (fun d => some (Int32.ofBitVec (a.toBitVec <<< d))) hsigned
  | shr =>
    simp only [onInts, onWords]
    cases ty.isUnsigned with
    | true => exact congrArg (fun d => some (Int32.ofBitVec (a.toBitVec >>> d))) hunsigned
    | false => exact congrArg (fun d => some (Int32.ofBitVec (a.toBitVec.sshiftRight d))) hsigned
  | _ => rfl

theorem Arith.onLongs_eq (op : Arith) {ty : DataType} (hlong : ty.isLong = true) (a b : Int64)
    (distance : Int32) :
    op.onLongs ty a b distance =
      (op.onWords ty a.toBitVec b.toBitVec (distance.toInt % 64).toNat).map Int64.ofBitVec := by
  have hneeds := DataType.needsUnsignedOps_of_long hlong
  have hzero : b = 0 ↔ b.toBitVec = 0 := Int64.toBitVec_inj.symm
  have hsigned := toNat_smod (w := 64) (m := 64) (by decide) (by decide) distance.toInt64.toBitVec
  have hunsigned := toNat_umod (w := 64) (m := 64) (by decide) (by decide) distance.toInt64.toBitVec
  rw [Int64.toInt_toBitVec, Int32.toInt_toInt64] at hsigned hunsigned
  cases op with
  | div | mod =>
    simp only [onLongs, onWords, hneeds, hzero]
    split
    · rfl
    · cases ty.isUnsigned <;> rfl
  | shl => exact congrArg (fun d => some (Int64.ofBitVec (a.toBitVec <<< d))) hsigned
  | shr =>
    simp only [onLongs, onWords]
    cases ty.isUnsigned with
    | true => exact congrArg (fun d => some (Int64.ofBitVec (a.toBitVec >>> d))) hunsigned
    | false => exact congrArg (fun d => some (Int64.ofBitVec (a.toBitVec.sshiftRight d))) hsigned
  | _ => rfl

section Operations

variable {ty : DataType} {a b : Int} {w : Nat} (hty : ty.IsInteger) (hw : ty.wordBits = w + 1)
  (ha : ty.Contains a) (hb : ty.Contains b)

include hty hw ha hb

omit ha in
/-- The word of a number is zero only if the number is. -/
theorem DataType.Contains.ofInt_eq_zero : BitVec.ofInt (w + 1) b = 0 ↔ b = 0 := by
  refine ⟨fun h => ?_, fun h => h ▸ rfl⟩
  cases hu : ty.needsUnsignedOps with
  | true =>
    obtain ⟨hb, hblt⟩ := hw ▸ hb.natural (DataType.isUnsigned_of_needsUnsignedOps hu)
    have hnat := toNat_ofInt_of_range hb hblt
    rw [h] at hnat
    have hzero : (0 : BitVec (w + 1)).toNat = 0 := BitVec.toNat_zero
    omega
  | false =>
    obtain ⟨hb, hblt⟩ := hw ▸ hb.signed hty hu
    rw [← toInt_ofInt_of_range hb hblt]
    exact h ▸ BitVec.toInt_zero

/-- **Operations on words** are those on the numbers that they carry. -/
theorem Arith.onWords_ofInt (op : Arith) :
    op.onWords ty (BitVec.ofInt (w + 1) a) (BitVec.ofInt (w + 1) b) (b % (w + 1 : Nat)).toNat =
      (op.ideal (w + 1) a b).map (BitVec.ofInt (w + 1)) := by
  -- only a divisor that is zero has the word zero, for it is in range
  have hzero : BitVec.ofInt (w + 1) b = 0 ↔ b = 0 := hb.ofInt_eq_zero hty hw
  cases op with
  | add => exact congrArg some (BitVec.ofInt_add a b).symm
  | sub => exact congrArg some (ofInt_sub a b).symm
  | mul => exact congrArg some (BitVec.ofInt_mul a b).symm
  | div =>
    simp only [onWords, ideal, hzero]
    split
    · rfl
    refine congrArg some ?_
    cases hu : ty.needsUnsignedOps with
    | true =>
      obtain ⟨ha, halt⟩ := hw ▸ ha.natural (DataType.isUnsigned_of_needsUnsignedOps hu)
      obtain ⟨hb, hblt⟩ := hw ▸ hb.natural (DataType.isUnsigned_of_needsUnsignedOps hu)
      exact (ofInt_tdiv_of_nonneg ha halt hb hblt).symm
    | false =>
      obtain ⟨ha, halt⟩ := hw ▸ ha.signed hty hu
      obtain ⟨hb, hblt⟩ := hw ▸ hb.signed hty hu
      exact (ofInt_tdiv ha halt hb hblt).symm
  | mod =>
    simp only [onWords, ideal, hzero]
    split
    · rfl
    refine congrArg some ?_
    cases hu : ty.needsUnsignedOps with
    | true =>
      obtain ⟨ha, halt⟩ := hw ▸ ha.natural (DataType.isUnsigned_of_needsUnsignedOps hu)
      obtain ⟨hb, hblt⟩ := hw ▸ hb.natural (DataType.isUnsigned_of_needsUnsignedOps hu)
      exact (ofInt_tmod_of_nonneg ha halt hb hblt).symm
    | false =>
      obtain ⟨ha, halt⟩ := hw ▸ ha.signed hty hu
      obtain ⟨hb, hblt⟩ := hw ▸ hb.signed hty hu
      exact (ofInt_tmod ha halt hb hblt).symm
  | and => exact congrArg some (ofInt_land a b).symm
  | or => exact congrArg some (ofInt_lor a b).symm
  | xor => exact congrArg some (ofInt_xor a b).symm
  | shl => exact congrArg some (ofInt_mul_two_pow a _).symm
  | shr =>
    refine congrArg some ?_
    cases hu : ty.isUnsigned with
    | true =>
      obtain ⟨ha, halt⟩ := hw ▸ ha.natural hu
      exact (ofInt_div_two_pow_of_nonneg ha halt _).symm
    | false =>
      have hneeds : ty.needsUnsignedOps = false :=
        eq_false_of_ne_true fun h => absurd (DataType.isUnsigned_of_needsUnsignedOps h) (by simp [hu])
      obtain ⟨ha, halt⟩ := hw ▸ ha.signed hty hneeds
      exact (ofInt_div_two_pow ha halt _).symm

end Operations

section Represented

theorem ofInt_congr {w : Nat} {a b : Int} (h : a % 2 ^ w = b % 2 ^ w) :
    BitVec.ofInt w a = BitVec.ofInt w b := by
  rw [← BitVec.toNat_inj, BitVec.toNat_ofInt, BitVec.toNat_ofInt]
  push_cast
  rw [h]

/-- The lowest bits of an int, extended by zeros. -/
theorem setWidth_ofInt {n : Nat} (hn : n = 8 ∨ n = 16) (z : Int) :
    ((BitVec.ofInt 32 z).setWidth n).setWidth 32 = BitVec.ofInt 32 (z % 2 ^ n) := by
  apply BitVec.toNat_inj.1
  simp only [BitVec.toNat_setWidth, BitVec.toNat_ofInt]
  rcases hn with rfl | rfl <;> omega

variable {ty : DataType} (hty : ty.IsInteger)

include hty

/-- Cutting the word of a number gives the word of the number that it is reduced to. -/
theorem DataType.cut_ofInt (hlong : ty.isLong = false) (z : Int) :
    ty.cut (Int32.ofInt z) = Int32.ofInt (ty.wrap z) := by
  have hwrap := ty.wrap_emod z
  have hrange := contains_wrap hty z
  -- signed types are extended from their width, the others keep the low bits
  cases ty with
  | char => exact Int32.toBitVec_inj.1 (setWidth_ofInt (.inr rfl) z)
  | int width unsigned =>
    cases width with
    | w8 =>
      cases unsigned with
      | false =>
        have hcongr : Int8.ofInt z = Int8.ofInt (wrap (.int .w8 false) z) :=
          Int8.toBitVec_inj.1 (ofInt_congr hwrap.symm)
        show (Int32.ofInt z).toInt8.toInt32 = _
        rw [Int32.toInt8_ofInt, hcongr]
        exact Int8.toInt32_ofInt hrange.1 (Int.le_of_lt_add_one hrange.2)
      | true => exact Int32.toBitVec_inj.1 (setWidth_ofInt (.inl rfl) z)
    | w16 =>
      cases unsigned with
      | false =>
        have hcongr : Int16.ofInt z = Int16.ofInt (wrap (.int .w16 false) z) :=
          Int16.toBitVec_inj.1 (ofInt_congr hwrap.symm)
        show (Int32.ofInt z).toInt16.toInt32 = _
        rw [Int32.toInt16_ofInt, hcongr]
        exact Int16.toInt32_ofInt hrange.1 (Int.le_of_lt_add_one hrange.2)
      | true => exact Int32.toBitVec_inj.1 (setWidth_ofInt (.inr rfl) z)
    | w32 => exact Int32.toBitVec_inj.1 (ofInt_congr hwrap.symm)
    | w64 => cases hlong
  | _ => cases hty

omit hty in
/-- A long has all bits of its type. -/
theorem DataType.ofInt_wrap_long (hlong : ty.isLong = true) (z : Int) :
    Int64.ofInt (ty.wrap z) = Int64.ofInt z := by
  have hwrap := ty.wrap_emod z
  cases ty with
  | int width unsigned =>
    cases width with
    | w64 => exact Int64.toBitVec_inj.1 (ofInt_congr hwrap)
    | _ => cases hlong
  | _ => cases hlong

section Binary

variable {a b : Int} (ha : ty.Contains a) (hb : ty.Contains b) (op : Arith)

include ha hb

theorem Arith.onInts_ofInt (hlong : ty.isLong = false) :
    op.onInts ty (Int32.ofInt a) (Int32.ofInt b) = (op.ideal 32 a b).map Int32.ofInt := by
  have hbits : ty.wordBits = 32 := by simp [DataType.wordBits, hlong]
  have hdistance : (Int32.ofInt b).toInt % 32 = b % 32 :=
    toInt_emod_ofInt (w := 32) (m := 32) (by decide) b
  have hwords := onWords_ofInt hty hbits ha hb op
  rw [onInts_eq op hlong, hdistance, Int32.toBitVec_ofInt, Int32.toBitVec_ofInt]
  exact (congrArg (Option.map Int32.ofBitVec) hwords).trans (Option.map_map ..)

theorem Arith.onLongs_ofInt (hlong : ty.isLong = true) :
    op.onLongs ty (Int64.ofInt a) (Int64.ofInt b) (Int32.ofInt b) =
      (op.ideal 64 a b).map Int64.ofInt := by
  have hbits : ty.wordBits = 64 := by simp [DataType.wordBits, hlong]
  -- the distance loses its upper half, but only its lowest bits count
  have hdistance : (Int32.ofInt b).toInt % 64 = b % 64 :=
    toInt_emod_ofInt (w := 32) (m := 64) (by decide) b
  have hwords := onWords_ofInt hty hbits ha hb op
  rw [onLongs_eq op hlong, hdistance, Int64.toBitVec_ofInt, Int64.toBitVec_ofInt]
  exact (congrArg (Option.map Int64.ofBitVec) hwords).trans (Option.map_map ..)

/-- **A binary operation on words is the one on the numbers** that they carry. -/
theorem Arith.onNumbers_represent :
    op.onNumbers ty ty ty (ty.represent a) (ty.represent b) = (op.exact ty a b).map ty.represent := by
  unfold onNumbers Arith.exact DataType.represent DataType.wordBits
  cases hlong : ty.isLong with
  | true =>
    simp only [if_true, Number.toLong, Number.toInt, Int64.toInt32_ofInt,
      op.onLongs_ofInt hty ha hb hlong, Option.map_map]
    refine congrArg (Option.map · _) (funext fun z => ?_)
    exact congrArg Number.long (DataType.ofInt_wrap_long hlong z).symm
  | false =>
    simp only [Bool.false_eq_true, if_false, Number.toInt, op.onInts_ofInt hty ha hb hlong,
      Option.map_map]
    refine congrArg (Option.map · _) (funext fun z => ?_)
    exact congrArg Number.int (DataType.cut_ofInt hty hlong z)

end Binary

/-- **A unary operation on a word is the one on the number** that it carries. -/
theorem UnaryArith.onNumber_represent (op : UnaryArith) (a : Int) :
    op.onNumber ty ty (ty.represent a) = ty.represent (op.exact ty a) := by
  unfold onNumber UnaryArith.exact DataType.represent
  cases hlong : ty.isLong with
  | true =>
    simp only [if_true, Number.toLong, DataType.ofInt_wrap_long hlong]
    cases op with
    | neg => exact congrArg Number.long (Int64.ofInt_neg a).symm
    | complement =>
      dsimp only
      rw [Int64.not_eq_neg_sub, Int64.ofInt_sub, Int64.ofInt_neg]
      rfl
  | false =>
    simp only [Bool.false_eq_true, if_false, Number.toInt, ← DataType.cut_ofInt hty hlong]
    cases op with
    | neg => rw [Int32.ofInt_neg]
    | complement =>
      dsimp only
      rw [Int32.not_eq_neg_sub, Int32.ofInt_sub, Int32.ofInt_neg]
      rfl

end Represented

end ClassFoundry
