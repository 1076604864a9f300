/-!
# Bytes

Big-endian words as lists of bytes, and back.

## Main definitions

* `be16`, `be32`, `be64`: the bytes of a word, most significant first
* `ofBe16`, `ofBe32`, `ofBe64`: the word with given bytes

## Main results

* `ofBe16_hi_lo`: a 16-bit word is determined by its two bytes
-/

namespace ClassFoundry

/-- A sequence of bytes. -/
abbrev Bytes := List UInt8

/-- The high byte of a 16-bit word. -/
def hiByte (w : UInt16) : UInt8 := UInt8.ofNat (w.toNat / 256)

/-- The low byte of a 16-bit word. -/
def loByte (w : UInt16) : UInt8 := UInt8.ofNat w.toNat

/-- The bytes of a 16-bit word. -/
def be16 (w : UInt16) : Bytes := [hiByte w, loByte w]

/-- The bytes of a 32-bit word. -/
def be32 (w : UInt32) : Bytes :=
  be16 (UInt16.ofNat (w.toNat / 65536)) ++ be16 (UInt16.ofNat w.toNat)

/-- The bytes of a 64-bit word. -/
def be64 (w : UInt64) : Bytes :=
  be32 (UInt32.ofNat (w.toNat / 4294967296)) ++ be32 (UInt32.ofNat w.toNat)

/-- The 16-bit word with the given bytes. -/
def ofBe16 (hi lo : UInt8) : UInt16 := UInt16.ofNat (hi.toNat * 256 + lo.toNat)

/-- The 32-bit word with the given halves. -/
def ofBe32 (hi lo : UInt16) : UInt32 := UInt32.ofNat (hi.toNat * 65536 + lo.toNat)

/-- The 64-bit word with the given halves. -/
def ofBe64 (hi lo : UInt32) : UInt64 := UInt64.ofNat (hi.toNat * 4294967296 + lo.toNat)

@[simp] theorem length_be16 (w : UInt16) : (be16 w).length = 2 := rfl

@[simp] theorem length_be32 (w : UInt32) : (be32 w).length = 4 := rfl

@[simp] theorem length_be64 (w : UInt64) : (be64 w).length = 8 := rfl

@[simp] theorem ofBe16_hi_lo (w : UInt16) : ofBe16 (hiByte w) (loByte w) = w := by
  have h := w.toNat_lt
  apply UInt16.toNat.inj
  simp only [ofBe16, hiByte, loByte, UInt16.toNat_ofNat', UInt8.toNat_ofNat']
  omega

end ClassFoundry
