import ClassFoundry.Text.ModifiedUtf8

/-!
# Texts can be read back

The bytes of a text determine it, and there are as many of them as were counted.

## Main results

* `decodeUnits?_encode`: the units of a text are read from its bytes
* `ofUnits?_units`: a text is read from its units
* `decode?_encode`: a text is read from its bytes
* `length_encode`: the number of bytes
-/

namespace ClassFoundry.ModifiedUtf8

/-! ## Units and bytes -/

theorem continuation?_ofNat {n : Nat} (h : n < 0x40) :
    continuation? (UInt8.ofNat (0x80 + n)) = some n := by
  have hnat : (UInt8.ofNat (0x80 + n)).toNat = 0x80 + n := by
    rw [UInt8.toNat_ofNat']
    omega
  unfold continuation?
  rw [hnat, if_pos (by omega), Nat.add_sub_cancel_left]

/-- The bytes of a unit, by its size. -/
theorem encodeUnit_cases (u : UInt16) :
    (0 < u.toNat ∧ u.toNat < 0x80 ∧ unitLength u = 1 ∧ encodeUnit u = [UInt8.ofNat u.toNat]) ∨
      (u.toNat < 0x800 ∧ unitLength u = 2 ∧ encodeUnit u =
        [UInt8.ofNat (0xc0 + u.toNat / 0x40), UInt8.ofNat (0x80 + u.toNat % 0x40)]) ∨
      (0x800 ≤ u.toNat ∧ unitLength u = 3 ∧ encodeUnit u =
        [UInt8.ofNat (0xe0 + u.toNat / 0x1000), UInt8.ofNat (0x80 + u.toNat / 0x40 % 0x40),
          UInt8.ofNat (0x80 + u.toNat % 0x40)]) := by
  have hlength : (0 < u.toNat ∧ u.toNat < 0x80 ∧ unitLength u = 1) ∨
      (u.toNat < 0x800 ∧ unitLength u = 2) ∨ (0x800 ≤ u.toNat ∧ unitLength u = 3) := by
    unfold unitLength
    dsimp only
    split
    · omega
    · split
      · omega
      · split <;> omega
  unfold encodeUnit
  rcases hlength with ⟨hpos, hlt, h⟩ | ⟨hlt, h⟩ | ⟨hge, h⟩ <;> rw [h]
  · exact .inl ⟨hpos, hlt, rfl, rfl⟩
  · exact .inr (.inl ⟨hlt, rfl, rfl⟩)
  · exact .inr (.inr ⟨hge, rfl, rfl⟩)

theorem length_encodeUnit (u : UInt16) : (encodeUnit u).length = unitLength u := by
  rcases encodeUnit_cases u with ⟨-, -, hl, h⟩ | ⟨-, hl, h⟩ | ⟨-, hl, h⟩ <;> rw [hl, h] <;> rfl

/-- A unit is read from its bytes, whatever follows. -/
theorem decodeUnitsFrom_encodeUnit (u : UInt16) (rest : Bytes) (acc : Array UInt16) :
    decodeUnitsFrom (encodeUnit u ++ rest) acc = decodeUnitsFrom rest (acc.push u) := by
  have hu : UInt16.ofNat u.toNat = u := UInt16.ofNat_toNat
  have hlt := u.toNat_lt
  have hsix (n : Nat) : continuation? (UInt8.ofNat (0x80 + n % 0x40)) = some (n % 0x40) :=
    continuation?_ofNat (Nat.mod_lt n (by decide))
  -- one, two or three bytes, which the first of them tells apart
  rcases encodeUnit_cases u with ⟨hpos, hone, -, h⟩ | ⟨htwo, -, h⟩ | ⟨hthree, -, h⟩ <;>
    rw [h, List.cons_append, decodeUnitsFrom.eq_def]
  · have hnat : (UInt8.ofNat u.toNat).toNat = u.toNat := by
      rw [UInt8.toNat_ofNat']
      omega
    dsimp only [List.nil_append]
    rw [hnat, if_pos ⟨hpos, hone⟩, hu]
  · have hnat : (UInt8.ofNat (0xc0 + u.toNat / 0x40)).toNat = 0xc0 + u.toNat / 0x40 := by
      rw [UInt8.toNat_ofNat']
      omega
    dsimp only [List.cons_append, List.nil_append]
    rw [hnat, if_neg (by omega), if_pos (by omega), hsix]
    dsimp only
    rw [Nat.add_sub_cancel_left, Nat.div_add_mod', hu]
  · have hnat : (UInt8.ofNat (0xe0 + u.toNat / 0x1000)).toNat = 0xe0 + u.toNat / 0x1000 := by
      rw [UInt8.toNat_ofNat']
      omega
    have hsum : (0xe0 + u.toNat / 0x1000 - 0xe0) * 0x1000 + u.toNat / 0x40 % 0x40 * 0x40 +
        u.toNat % 0x40 = u.toNat := by omega
    dsimp only [List.cons_append, List.nil_append]
    rw [hnat, if_neg (by omega), if_neg (by omega), if_pos (by omega), hsix, hsix]
    dsimp only
    rw [hsum, hu]

theorem decodeUnitsFrom_flatMap (us : List UInt16) (acc : Array UInt16) :
    decodeUnitsFrom (us.flatMap encodeUnit) acc = some (acc ++ us.toArray) := by
  induction us generalizing acc with
  | nil => simp [decodeUnitsFrom]
  | cons u us ih =>
    rw [List.flatMap_cons, decodeUnitsFrom_encodeUnit, ih]
    simp

/-- **The units of a text** are read from its bytes. -/
theorem decodeUnits?_encode (s : String) : decodeUnits? (encode s) = some (units s) := by
  unfold decodeUnits? encode
  rw [decodeUnitsFrom_flatMap]
  simp

/-! ## Characters and units -/

/-- The code of a character is not one of a surrogate. -/
theorem toNat_cases (c : Char) : c.toNat < 0xd800 ∨ (0xdfff < c.toNat ∧ c.toNat < 0x110000) :=
  c.valid

theorem ofUnitsFrom_basic {u : UInt16} {c : Char} (hu : u.toNat = c.toNat) (rest : List UInt16)
    (acc : String) : ofUnitsFrom (u :: rest) acc = ofUnitsFrom rest (acc.push c) := by
  have hc := toNat_cases c
  have hhigh : isHighSurrogate u = false := by
    simp only [isHighSurrogate, Bool.and_eq_false_iff, decide_eq_false_iff_not]
    omega
  have hlow : isLowSurrogate u = false := by
    simp only [isLowSurrogate, Bool.and_eq_false_iff, decide_eq_false_iff_not]
    omega
  have hchar : Char.ofNat u.toNat = c := by rw [hu, Char.ofNat_toNat]
  cases rest with
  | nil => simp [ofUnitsFrom, hhigh, hlow, hchar]
  | cons v rest => simp [ofUnitsFrom, hhigh, hlow, hchar]

theorem ofUnitsFrom_charUnits (c : Char) (rest : List UInt16) (acc : String) :
    ofUnitsFrom (charUnits c ++ rest) acc = ofUnitsFrom rest (acc.push c) := by
  have hc := toNat_cases c
  unfold charUnits
  dsimp only
  split
  · rename_i hlt
    refine ofUnitsFrom_basic ?_ rest acc
    rw [UInt16.toNat_ofNat']
    omega
  · -- a character outside the basic plane is a pair of surrogates
    rename_i hge
    have hhigh : (UInt16.ofNat (0xd800 + (c.toNat - 0x10000) / 0x400)).toNat =
        0xd800 + (c.toNat - 0x10000) / 0x400 := by
      rw [UInt16.toNat_ofNat']
      omega
    have hlow : (UInt16.ofNat (0xdc00 + c.toNat % 0x400)).toNat = 0xdc00 + c.toNat % 0x400 := by
      rw [UInt16.toNat_ofNat']
      omega
    have hpair : pairChar (UInt16.ofNat (0xd800 + (c.toNat - 0x10000) / 0x400))
        (UInt16.ofNat (0xdc00 + c.toNat % 0x400)) = c := by
      unfold pairChar
      rw [hhigh, hlow]
      have hsum : 0x10000 + (0xd800 + (c.toNat - 0x10000) / 0x400 - 0xd800) * 0x400 +
          (0xdc00 + c.toNat % 0x400 - 0xdc00) = c.toNat := by omega
      rw [hsum, Char.ofNat_toNat]
    have hishigh : isHighSurrogate (UInt16.ofNat (0xd800 + (c.toNat - 0x10000) / 0x400)) = true := by
      simp only [isHighSurrogate, hhigh, Bool.and_eq_true, decide_eq_true_eq]
      omega
    have hislow : isLowSurrogate (UInt16.ofNat (0xdc00 + c.toNat % 0x400)) = true := by
      simp only [isLowSurrogate, hlow, Bool.and_eq_true, decide_eq_true_eq]
      omega
    simp only [List.cons_append, List.nil_append, ofUnitsFrom, hishigh, hislow, if_true, hpair]

theorem ofUnitsFrom_flatMap (cs : List Char) (acc : String) :
    ofUnitsFrom (cs.flatMap charUnits) acc = some (acc ++ String.ofList cs) := by
  induction cs generalizing acc with
  | nil => simp [ofUnitsFrom]
  | cons c cs ih =>
    rw [List.flatMap_cons, ofUnitsFrom_charUnits, ih]
    congr 1
    apply String.toList_injective
    simp

/-- **A text** is read from its units. -/
theorem ofUnits?_units (s : String) : ofUnits? (units s) = some s := by
  unfold ofUnits? units
  rw [ofUnitsFrom_flatMap]
  simp

/-- **A text** is read from its bytes. -/
theorem decode?_encode (s : String) : decode? (encode s) = some s := by
  unfold decode?
  rw [decodeUnits?_encode]
  exact ofUnits?_units s

/-! ## The number of bytes -/

theorem length_flatMap_encodeUnit (us : List UInt16) (n : Nat) :
    us.foldl (fun n u => n + unitLength u) n = n + (us.flatMap encodeUnit).length := by
  induction us generalizing n with
  | nil => simp
  | cons u us ih =>
    rw [List.foldl_cons, ih, List.flatMap_cons, List.length_append, length_encodeUnit, Nat.add_assoc]

/-- **The number of bytes** of a text. -/
theorem length_encode (s : String) : (encode s).length = encodedLength s := by
  have hfold (cs : List Char) (n : Nat) :
      cs.foldl (fun n c => (charUnits c).foldl (fun n u => n + unitLength u) n) n =
        n + ((cs.flatMap charUnits).flatMap encodeUnit).length := by
    induction cs generalizing n with
    | nil => simp
    | cons c cs ih =>
      rw [List.foldl_cons, ih, length_flatMap_encodeUnit, List.flatMap_cons, List.flatMap_append,
        List.length_append, Nat.add_assoc]
  unfold encodedLength encode units
  rw [hfold, Nat.zero_add]

end ClassFoundry.ModifiedUtf8
