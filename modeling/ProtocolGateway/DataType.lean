import Mathlib.Algebra.Ring.Int.Defs
import Mathlib.Order.Basic

/-!
# Register data types

`Data_Type`, the about sixty ways a register-map row can say what its words mean, with the
tables the enumeration carries: the enum value, the bit size and the default value range.

The bit-field members `_1BIT` .. `_16BIT`, `_2SBIT` .. `_16SBIT` and `_2SMBIT` .. `_16SMBIT`
are three families of one shape. A family member carries its width, and the width carries its
bounds, so a width outside the enumeration cannot be written down.
-/

namespace ProtocolGateway

/-- The width of a bit-field type: between `lo` and 16 bits. -/
abbrev BitWidth (lo : Nat) := {n : Nat // lo ≤ n ∧ n ≤ 16}

/-- `Data_Type`. The aliases `BIT8`, `BIT8_FLAGS`, `BIT16_FLAGS` and `BIT32_FLAGS` of the source
are `bit ⟨8, _⟩` and the three flag constructors. -/
inductive DataType
  /-- 8bit byte -/
  | byte
  /-- 16 bit unsigned int -/
  | ushort
  /-- 32 bit unsigned int -/
  | uint
  /-- 16 bit signed int -/
  | short
  /-- 32 bit signed int -/
  | int
  /-- 64 bit unsigned int -/
  | uint64
  | bit16Flags
  | bit8Flags
  | bit32Flags
  /-- 32 bit floating point -/
  | float32
  /-- 64 bit floating point -/
  | float64
  /-- 32 bit unsigned accumulator -/
  | acc32
  /-- 64 bit signed int -/
  | int64
  /-- 2 characters -/
  | ascii
  /-- hexadecimal string -/
  | hex
  /-- 16 byte string -/
  | string16
  /-- 32 byte string -/
  | string32
  /-- variable length string -/
  | string
  /-- `_nBIT` -/
  | bit (n : BitWidth 1)
  /-- `_nSBIT`, signed bits -/
  | sBit (n : BitWidth 2)
  /-- `_nSMBIT`, signed magnitude bits -/
  | smBit (n : BitWidth 2)
  deriving DecidableEq, Repr

namespace DataType

/-- The enum value. -/
def value : DataType → Nat
  | byte => 1
  | ushort => 2
  | uint => 3
  | short => 4
  | int => 5
  | uint64 => 6
  | bit16Flags => 7
  | bit8Flags => 8
  | bit32Flags => 9
  | float32 => 10
  | float64 => 11
  | acc32 => 12
  | int64 => 13
  | ascii => 84
  | hex => 85
  | string16 => 86
  | string32 => 87
  | string => 88
  | bit n => 200 + n.val
  | sBit n => 300 + n.val
  | smBit n => 400 + n.val

/-- The enum value determines the member, as in an `Enum` without further aliases. -/
theorem value_injective : Function.Injective value := by
  intro s t h
  cases s with
  | bit n => cases t <;> simp only [value] at h <;> first | omega | (congr; ext; omega)
  | sBit n => cases t <;> simp only [value] at h <;> first | omega | (congr; ext; omega)
  | smBit n => cases t <;> simp only [value] at h <;> first | omega | (congr; ext; omega)
  | _ => cases t <;> simp only [value] at h <;> first | rfl | omega

/-- `value > 200`: the bit-field families. -/
theorem two_hundred_lt_value {t : DataType} :
    200 < t.value ↔ (∃ n, t = bit n) ∨ (∃ n, t = sBit n) ∨ (∃ n, t = smBit n) := by
  cases t with
  | bit n => have := n.2; simp only [value]; constructor <;> intro _ <;> first | omega | simp
  | sBit n => have := n.2; simp only [value]; constructor <;> intro _ <;> first | omega | simp
  | smBit n => have := n.2; simp only [value]; constructor <;> intro _ <;> first | omega | simp
  | _ => simp [value]

/-! ## Tables -/

/-- The largest finite 32-bit float, as the source's `_FLOAT32_MAX`. -/
def float32Max : Int := 2 ^ 128 - 2 ^ 104

/-- The largest finite 64-bit float, as the source's `_FLOAT64_MAX`. -/
def float64Max : Int := 2 ^ 1024 - 2 ^ 971

/-- `getDefaultRange`: the raw value range of a row without an explicit `values` range. -/
def getDefaultRange : DataType → Int × Int
  | byte => (0, 0xFF)
  | ushort => (0, 0xFFFF)
  | short => (-2 ^ 15, 2 ^ 15 - 1)
  | uint | acc32 => (0, 0xFFFFFFFF)
  | int => (-2 ^ 31, 2 ^ 31 - 1)
  | uint64 => (0, 0xFFFFFFFFFFFFFFFF)
  | int64 => (-2 ^ 63, 2 ^ 63 - 1)
  | float32 => (-float32Max, float32Max)
  | float64 => (-float64Max, float64Max)
  | bit n => (0, 2 ^ n.val - 1)
  | sBit n => (-2 ^ (n.val - 1), 2 ^ (n.val - 1) - 1)
  | smBit n => (-(2 ^ (n.val - 1) - 1), 2 ^ (n.val - 1) - 1)
  | bit16Flags | bit8Flags | bit32Flags | ascii | hex | string16 | string32 | string => (0, 0xFFFF)

/-- `getSize`: the bit width. Types outside the source's table whose value does not exceed 200
(`ASCII`, `HEX`, `STRING`) get `-1`. -/
def getSize : DataType → Int
  | byte | bit8Flags => 8
  | ushort | short | bit16Flags | string16 => 16
  | uint | int | float32 | acc32 | string32 | bit32Flags => 32
  | uint64 | int64 | float64 => 64
  | bit n => n.val
  | sBit n => n.val
  | smBit n => n.val
  | ascii | hex | string => -1

/-- Every default range contains zero, so it is never empty. -/
theorem getDefaultRange_zero_mem (t : DataType) :
    t.getDefaultRange.1 ≤ 0 ∧ 0 ≤ t.getDefaultRange.2 := by
  have pow (k : Nat) : (1 : Int) ≤ 2 ^ k := by
    have : 0 < (2 : Int) ^ k := Int.pow_pos (by decide)
    omega
  cases t with
  | bit n => simpa [getDefaultRange] using pow n.val
  | sBit n => have := pow (n.val - 1); simp only [getDefaultRange]; omega
  | smBit n => have := pow (n.val - 1); simp only [getDefaultRange]; omega
  | float64 =>
    have h : (2 : Int) ^ 971 ≤ 2 ^ 1024 := by decide +kernel
    simp only [getDefaultRange, float64Max]
    omega
  | _ => simp [getDefaultRange, float32Max]

/-- `getSize` returns `-1` only for the types whose size the row itself gives. -/
theorem getSize_pos {t : DataType} (ha : t ≠ ascii) (hx : t ≠ hex) (hs : t ≠ string) :
    0 < t.getSize := by
  cases t with
  | bit n => have := n.2; simp only [getSize]; omega
  | sBit n => have := n.2; simp only [getSize]; omega
  | smBit n => have := n.2; simp only [getSize]; omega
  | ascii => exact absurd rfl ha
  | hex => exact absurd rfl hx
  | string => exact absurd rfl hs
  | _ => simp [getSize]

end DataType

end ProtocolGateway
