import ClassFoundry.Proofs.ModifiedUtf8

/-!
# The canonical bytes of a text

Bytes are read generously: a unit may be written in more bytes than it needs. The bytes that are
written for a text are the canonical ones among all that are read as it: none are fewer, and no others
are as few. They have no zero in them and no byte that starts a form of four bytes.

The two layers are compared apart. Between units and characters nothing is lost at all, since a text
has one sequence of units. Between bytes and units, every unit that is read took at least as many
bytes as writing it takes, and exactly its own bytes if it took no more.

## Main definitions

* `Stands`: bytes that are no fewer than those of a sequence of units, and the same if they are as many

## Main results

* `ofUnits?_eq_some_iff`: a text is read from its own units only
* `stands_of_decodeUnits?`: bytes stand for the units that are read from them
* `encode_canonical`: **the bytes of a text** among those that are read as it
-/

namespace ClassFoundry.ModifiedUtf8

/-! ## Bytes that occur -/

theorem toNat_of_mem_encodeUnit {u : UInt16} {b : UInt8} (h : b ∈ encodeUnit u) :
    0 < b.toNat ∧ b.toNat < 0xf0 := by
  have hu := u.toNat_lt
  -- each byte is a marker with payload bits that leave the marker as it is
  have hbyte {n : Nat} (hpos : 0 < n) (hlt : n < 0xf0) :
      0 < (UInt8.ofNat n).toNat ∧ (UInt8.ofNat n).toNat < 0xf0 := by
    rw [UInt8.toNat_ofNat', Nat.mod_eq_of_lt (by omega)]
    exact ⟨hpos, hlt⟩
  rcases encodeUnit_cases u with ⟨hpos, hone, -, heq⟩ | ⟨htwo, -, heq⟩ | ⟨hthree, -, heq⟩ <;>
    rw [heq] at h <;> simp only [List.mem_cons, List.not_mem_nil, or_false] at h
  · subst h
    exact hbyte hpos (by omega)
  · rcases h with rfl | rfl <;> exact hbyte (by omega) (by omega)
  · rcases h with rfl | rfl | rfl <;> exact hbyte (by omega) (by omega)

theorem toNat_of_mem_encode {s : String} {b : UInt8} (h : b ∈ encode s) :
    0 < b.toNat ∧ b.toNat < 0xf0 := by
  obtain ⟨u, -, hb⟩ := List.mem_flatMap.1 h
  exact toNat_of_mem_encodeUnit hb

/-! ## Units and characters -/

theorem toNat_ofNat_of_isValidChar {n : Nat} (h : n.isValidChar) : (Char.ofNat n).toNat = n := by
  unfold Char.ofNat
  rw [dif_pos h]
  rfl

/-- A unit that is no surrogate is the only one of its character. -/
theorem charUnits_ofNat {u : UInt16} (hhigh : isHighSurrogate u = false)
    (hlow : isLowSurrogate u = false) : charUnits (Char.ofNat u.toNat) = [u] := by
  have hu := u.toNat_lt
  have hvalid : u.toNat.isValidChar := by
    simp only [isHighSurrogate, isLowSurrogate, Bool.and_eq_false_iff, decide_eq_false_iff_not]
      at hhigh hlow
    unfold Nat.isValidChar
    omega
  have hnat : (Char.ofNat u.toNat).toNat = u.toNat := toNat_ofNat_of_isValidChar hvalid
  unfold charUnits
  dsimp only
  rw [hnat, if_pos (by omega), UInt16.ofNat_toNat]

/-- A pair of surrogates is that of its character. -/
theorem charUnits_pairChar {u v : UInt16} (hhigh : isHighSurrogate u = true)
    (hlow : isLowSurrogate v = true) : charUnits (pairChar u v) = [u, v] := by
  simp only [isHighSurrogate, isLowSurrogate, Bool.and_eq_true, decide_eq_true_eq] at hhigh hlow
  have hvalid :
      (0x10000 + (u.toNat - 0xd800) * 0x400 + (v.toNat - 0xdc00)).isValidChar := by
    unfold Nat.isValidChar
    omega
  have hnat : (pairChar u v).toNat =
      0x10000 + (u.toNat - 0xd800) * 0x400 + (v.toNat - 0xdc00) :=
    toNat_ofNat_of_isValidChar hvalid
  have hfirst : 0xd800 + ((pairChar u v).toNat - 0x10000) / 0x400 = u.toNat := by omega
  have hsecond : 0xdc00 + (pairChar u v).toNat % 0x400 = v.toNat := by omega
  unfold charUnits
  dsimp only
  rw [if_neg (by omega), hfirst, hsecond, UInt16.ofNat_toNat, UInt16.ofNat_toNat]

theorem units_push (s : String) (c : Char) : units (s.push c) = units s ++ charUnits c := by
  simp [units]

/-- The units of a text are those that it was read from. -/
theorem units_ofUnitsFrom {us : List UInt16} {acc text : String}
    (h : ofUnitsFrom us acc = some text) : units text = units acc ++ us := by
  fun_induction ofUnitsFrom us acc with
  | case1 acc =>
    cases h
    rw [List.append_nil]
  | case3 u acc hu =>
    cases h
    simp only [Bool.not_eq_true, Bool.or_eq_false_iff] at hu
    rw [units_push, charUnits_ofNat hu.1 hu.2]
  | case4 u v rest acc hu hv ih =>
    rw [ih h, units_push, charUnits_pairChar hu hv, List.append_assoc]
    rfl
  | case7 u v rest acc hu hu' ih =>
    rw [ih h, units_push, charUnits_ofNat (by simpa using hu) (by simpa using hu'),
      List.append_assoc]
    rfl
  | case2 | case5 | case6 => cases h

/-- **A text is read from its own units** and from no others. -/
theorem ofUnits?_eq_some_iff {us : List UInt16} {s : String} :
    ofUnits? us = some s ↔ us = units s := by
  constructor
  · intro h
    have hempty : units "" = [] := rfl
    rw [units_ofUnitsFrom h, hempty, List.nil_append]
  · rintro rfl
    exact ofUnits?_units s

/-! ## Bytes and units -/

/-- **Bytes stand for units** if they are no fewer than the bytes of the units, and the same if they
are as many. -/
def Stands (bytes : Bytes) (us : List UInt16) : Prop :=
  (us.flatMap encodeUnit).length ≤ bytes.length ∧
    ((us.flatMap encodeUnit).length = bytes.length → bytes = us.flatMap encodeUnit)

theorem Stands.nil : Stands [] [] := ⟨Nat.le_refl 0, fun _ => rfl⟩

/-- Bytes that stand for units are put after the form of one more unit. -/
theorem Stands.cons {form bytes : Bytes} {u : UInt16} {us : List UInt16}
    (hlength : unitLength u ≤ form.length)
    (hform : unitLength u = form.length → form = encodeUnit u) (h : Stands bytes us) :
    Stands (form ++ bytes) (u :: us) := by
  obtain ⟨hle, heq⟩ := h
  rw [← length_encodeUnit] at hlength hform
  constructor
  · rw [List.flatMap_cons, List.length_append, List.length_append]
    omega
  · intro hsame
    rw [List.flatMap_cons, List.length_append, List.length_append] at hsame
    rw [List.flatMap_cons, hform (by omega), heq (by omega)]

/-- The six bits of a continuation byte determine it. -/
theorem continuation?_eq_some {b : UInt8} {n : Nat} (h : continuation? b = some n) :
    n < 0x40 ∧ b = UInt8.ofNat (0x80 + n) := by
  unfold continuation? at h
  split at h
  · rename_i hb
    obtain rfl := Option.some.inj h
    have hsum : 0x80 + (b.toNat - 0x80) = b.toNat := Nat.add_sub_cancel' hb.1
    rw [hsum, UInt8.ofNat_toNat]
    exact ⟨by omega, rfl⟩
  · cases h

theorem unitLength_eq_one {u : UInt16} (hpos : 0 < u.toNat) (hlt : u.toNat < 0x80) :
    unitLength u = 1 := by
  unfold unitLength
  dsimp only
  rw [if_neg (by omega), if_pos hlt]

theorem unitLength_le_three (u : UInt16) : unitLength u ≤ 3 := by
  rcases encodeUnit_cases u with ⟨-, -, h, -⟩ | ⟨-, h, -⟩ | ⟨-, h, -⟩ <;> omega

theorem unitLength_le_two {u : UInt16} (hlt : u.toNat < 0x800) : unitLength u ≤ 2 := by
  rcases encodeUnit_cases u with ⟨-, -, h, -⟩ | ⟨-, h, -⟩ | ⟨hge, -, -⟩ <;> omega

/-- The bytes of a unit that takes a given number of them. -/
theorem encodeUnit_of_unitLength {u : UInt16} :
    (unitLength u = 1 → encodeUnit u = [UInt8.ofNat u.toNat]) ∧
      (unitLength u = 2 → encodeUnit u =
        [UInt8.ofNat (0xc0 + u.toNat / 0x40), UInt8.ofNat (0x80 + u.toNat % 0x40)]) ∧
      (unitLength u = 3 → encodeUnit u =
        [UInt8.ofNat (0xe0 + u.toNat / 0x1000), UInt8.ofNat (0x80 + u.toNat / 0x40 % 0x40),
          UInt8.ofNat (0x80 + u.toNat % 0x40)]) := by
  rcases encodeUnit_cases u with ⟨-, -, hl, h⟩ | ⟨-, hl, h⟩ | ⟨-, hl, h⟩ <;>
    refine ⟨fun hl' => ?_, fun hl' => ?_, fun hl' => ?_⟩ <;> first | exact h | omega

section Forms

variable {b mid low : UInt8} {m l : Nat} {bytes : Bytes} {us : List UInt16}

/-- A form of one byte. -/
theorem Stands.one (h : Stands bytes us) (hpos : 0 < b.toNat) (hlt : b.toNat < 0x80) :
    Stands ([b] ++ bytes) (UInt16.ofNat b.toNat :: us) := by
  have hnat : (UInt16.ofNat b.toNat).toNat = b.toNat := by
    rw [UInt16.toNat_ofNat', Nat.mod_eq_of_lt (by omega)]
  have hlength : unitLength (UInt16.ofNat b.toNat) = 1 :=
    unitLength_eq_one (by omega) (by omega)
  refine h.cons (Nat.le_of_eq hlength) fun hsame => ?_
  rw [encodeUnit_of_unitLength.1 hsame, hnat, UInt8.ofNat_toNat]

/-- A form of two bytes. -/
theorem Stands.two (h : Stands bytes us) (hge : 0xc0 ≤ b.toNat) (hlt : b.toNat < 0xe0)
    (hlow : continuation? low = some l) :
    Stands ([b, low] ++ bytes) (UInt16.ofNat ((b.toNat - 0xc0) * 0x40 + l) :: us) := by
  obtain ⟨hl, rfl⟩ := continuation?_eq_some hlow
  have hnat : (UInt16.ofNat ((b.toNat - 0xc0) * 0x40 + l)).toNat = (b.toNat - 0xc0) * 0x40 + l := by
    rw [UInt16.toNat_ofNat', Nat.mod_eq_of_lt (by omega)]
  refine h.cons (unitLength_le_two (by omega)) fun hsame => ?_
  have hhigh : 0xc0 + ((b.toNat - 0xc0) * 0x40 + l) / 0x40 = b.toNat := by omega
  have hrest : ((b.toNat - 0xc0) * 0x40 + l) % 0x40 = l := by omega
  rw [encodeUnit_of_unitLength.2.1 hsame, hnat, hhigh, hrest, UInt8.ofNat_toNat]

/-- A form of three bytes. -/
theorem Stands.three (h : Stands bytes us) (hge : 0xe0 ≤ b.toNat) (hlt : b.toNat < 0xf0)
    (hmid : continuation? mid = some m) (hlow : continuation? low = some l) :
    Stands ([b, mid, low] ++ bytes)
      (UInt16.ofNat ((b.toNat - 0xe0) * 0x1000 + m * 0x40 + l) :: us) := by
  obtain ⟨hm, rfl⟩ := continuation?_eq_some hmid
  obtain ⟨hl, rfl⟩ := continuation?_eq_some hlow
  have hnat : (UInt16.ofNat ((b.toNat - 0xe0) * 0x1000 + m * 0x40 + l)).toNat =
      (b.toNat - 0xe0) * 0x1000 + m * 0x40 + l := by
    rw [UInt16.toNat_ofNat', Nat.mod_eq_of_lt (by omega)]
  refine h.cons (unitLength_le_three _) fun hsame => ?_
  have hhigh : 0xe0 + ((b.toNat - 0xe0) * 0x1000 + m * 0x40 + l) / 0x1000 = b.toNat := by omega
  have hinner : ((b.toNat - 0xe0) * 0x1000 + m * 0x40 + l) / 0x40 % 0x40 = m := by omega
  have hrest : ((b.toNat - 0xe0) * 0x1000 + m * 0x40 + l) % 0x40 = l := by omega
  rw [encodeUnit_of_unitLength.2.2 hsame, hnat, hhigh, hinner, hrest, UInt8.ofNat_toNat]

end Forms

/-- What is read in front of the rest of the bytes is kept. -/
theorem stands_of_decodeUnitsFrom {bytes : Bytes} {acc r : Array UInt16}
    (h : decodeUnitsFrom bytes acc = some r) :
    ∃ us, r = acc ++ us.toArray ∧ Stands bytes us := by
  -- the unit of a form is the first of those that are still to be read
  have hpush {acc : Array UInt16} {u : UInt16} {form rest : Bytes}
      (hrest : ∃ us, r = acc.push u ++ us.toArray ∧ Stands rest us)
      (hform : ∀ us, Stands rest us → Stands (form ++ rest) (u :: us)) :
      ∃ us, r = acc ++ us.toArray ∧ Stands (form ++ rest) us := by
    obtain ⟨us, rfl, hus⟩ := hrest
    exact ⟨u :: us, by simp, hform us hus⟩
  fun_induction decodeUnitsFrom bytes acc with
  | case1 acc =>
    cases h
    exact ⟨[], by simp, .nil⟩
  | case2 b rest acc n hone ih => exact hpush (ih h) fun us hus => hus.one hone.1 hone.2
  | case3 b acc n hone htwo low rest l hl ih =>
    exact hpush (ih h) fun us hus => hus.two htwo.1 htwo.2 hl
  | case6 b acc n hone htwo hthree mid low rest m l hl hm ih =>
    exact hpush (ih h) fun us hus => hus.three hthree.1 hthree.2 hm hl
  | _ => cases h

/-- **Bytes stand for the units** that are read from them. -/
theorem stands_of_decodeUnits? {bytes : Bytes} {us : List UInt16}
    (h : decodeUnits? bytes = some us) : Stands bytes us := by
  obtain ⟨r, hr, rfl⟩ := Option.map_eq_some_iff.1 h
  obtain ⟨us, rfl, hus⟩ := stands_of_decodeUnitsFrom hr
  simpa using hus

/-- Bytes stand for the units of the text that is read from them. -/
theorem stands_of_decode? {bytes : Bytes} {s : String} (h : decode? bytes = some s) :
    Stands bytes (units s) := by
  obtain ⟨us, hus, hs⟩ := Option.bind_eq_some_iff.1 h
  rw [← ofUnits?_eq_some_iff.1 hs]
  exact stands_of_decodeUnits? hus

/-- **The bytes of a text**: there are as many as are counted, none of them is zero or above the
markers of three bytes, and the text is read from them. Of all bytes that are read as the text they are
the fewest, and the only ones that are so few. -/
theorem encode_canonical (s : String) :
    encodedLength s = (encode s).length ∧ (∀ b ∈ encode s, b ≠ 0 ∧ b < 0xf0) ∧
      decode? (encode s) = some s ∧
      ∀ bytes, decode? bytes = some s → (encode s).length ≤ bytes.length ∧
        ((encode s).length = bytes.length → bytes = encode s) := by
  refine ⟨(length_encode s).symm, ?_, decode?_encode s, fun bytes h => stands_of_decode? h⟩
  intro b hb
  obtain ⟨hpos, hlt⟩ := toNat_of_mem_encode hb
  refine ⟨?_, UInt8.lt_iff_toNat_lt.2 hlt⟩
  rintro rfl
  exact Nat.lt_irrefl 0 hpos

/-- NUL in three bytes and a pair of surrogates are read as a text that takes a byte less. -/
theorem encode_canonical_overlong :
    decode? [0xe0, 0x80, 0x80, 0xed, 0xa0, 0xbd, 0xed, 0xb8, 0x80] = some "\x00😀" ∧
      decode? (encode "\x00😀") = some "\x00😀" ∧ (encode "\x00😀").length ≤ 9 ∧
      encode "\x00😀" = [0xc0, 0x80, 0xed, 0xa0, 0xbd, 0xed, 0xb8, 0x80] := by
  have hread :
      decode? [0xe0, 0x80, 0x80, 0xed, 0xa0, 0xbd, 0xed, 0xb8, 0x80] = some "\x00😀" := by decide
  obtain ⟨-, -, hagain, hfewest⟩ := encode_canonical "\x00😀"
  exact ⟨hread, hagain, (hfewest _ hread).1, by decide⟩

end ClassFoundry.ModifiedUtf8
