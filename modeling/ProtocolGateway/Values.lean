import ProtocolGateway.Entry
import Mathlib.Algebra.Ring.Nat

/-!
# Decoded values

The values a register is decoded to, `int | float | str`, and the conversions between them that
the decode and the write path use. An `int` is unbounded and a `float` is a binary64, so the two
conversions that can lose something are spelled out: `truncate` is `int(f)`, `roundToDouble` is
`int(float(i))`.

`Host` collects what decoding leaves to text conversions, regular expressions and the arithmetic
formulas of the `adjustments` column. Nothing is assumed about it anywhere.
-/

namespace ProtocolGateway

/-- The exceptions decoding and writing can raise. -/
inductive PyError
  | keyError
  | indexError
  | valueError
  | typeError
  | attributeError
  | overflowError
  | zeroDivisionError
  /-- `struct.error` -/
  | structError
  /-- an exception of the Modbus client -/
  | clientError
  /-- not an exception: the call does not return -/
  | diverges
  deriving DecidableEq, Repr

/-- `int | float | str`. -/
inductive PyValue
  | int (i : Int)
  | float (f : Float)
  | str (s : String)
  deriving DecidableEq

/-- Text conversions, regular expressions and formula evaluation. -/
structure Host where
  /-- `float(text)`, `none` for the `ValueError` -/
  floatOfText : String → Option Float
  /-- `str(f)` -/
  floatText : Float → String
  /-- `re.match(pattern, text)` -/
  reMatch : String → String → Bool
  /-- `apply_range_formula(raw_value, str(logic))` -/
  applyRangeFormula : Float → Json → Except PyError Float
  /-- the case selection and formula of a `Context` adjustment, given the decoded siblings -/
  applyContextFormula : List (String × Json) → PyValue → List (String × PyValue) →
    Except PyError PyValue

/-- A host that converts nothing. -/
instance : Inhabited Host where
  default :=
    { floatOfText := fun _ => none
      floatText := fun _ => ""
      reMatch := fun _ _ => false
      applyRangeFormula := fun x _ => .ok x
      applyContextFormula := fun _ value _ => .ok value }

/-! ## Integers and floats -/

/-- Bits 52 to 62 of a binary64. -/
def exponentBits (f : Float) : Nat := f.toBits.toNat / 2 ^ 52 % 2 ^ 11

/-- The significand of a finite binary64, a multiple of `2 ^ -1075` when shifted by its exponent. -/
def significand (f : Float) : Nat :=
  let fraction := f.toBits.toNat % 2 ^ 52
  if exponentBits f = 0 then 2 * fraction else 2 ^ 52 + fraction

/-- `int(f)`: infinities and `nan` raise. -/
def truncate (f : Float) : Except PyError Int :=
  if exponentBits f = 2047 then
    .error (if f.toBits.toNat % 2 ^ 52 = 0 then .overflowError else .valueError)
  else
    let magnitude : Nat := significand f * 2 ^ exponentBits f / 2 ^ 1075
    .ok (if f.toBits.toNat < 2 ^ 63 then magnitude else -magnitude)

/-- `f.is_integer()`. -/
def isInteger (f : Float) : Bool :=
  exponentBits f ≠ 2047 ∧ significand f * 2 ^ exponentBits f % 2 ^ 1075 = 0

/-- `int(round(f))`: to the nearest integer, a tie to the even one. -/
def roundHalfEven (f : Float) : Except PyError Int :=
  (truncate f).map fun i =>
    let rest := significand f * 2 ^ exponentBits f % 2 ^ 1075
    if 2 ^ 1074 < rest ∨ (rest = 2 ^ 1074 ∧ i % 2 ≠ 0) then
      if f.toBits.toNat < 2 ^ 63 then i + 1 else i - 1
    else i

/-- The integer nearest to `n` with at most 53 significant bits, a tie to the even one. -/
def roundMagnitude (n : Nat) : Nat :=
  if n < 2 ^ 53 then n
  else
    let unit := 2 ^ (n.log2 - 52)
    let q := n / unit
    let r := n % unit
    (if unit < 2 * r ∨ (unit = 2 * r ∧ q % 2 = 1) then q + 1 else q) * unit

/-- `int(float(i))`, which raises when `i` is out of the range of a `float`. -/
def roundToDouble (i : Int) : Except PyError Int :=
  let magnitude := roundMagnitude i.natAbs
  if 2 ^ 1024 ≤ magnitude then .error .overflowError
  else .ok (if 0 ≤ i then magnitude else -magnitude)

/-- `float(value)`. -/
def PyValue.toFloat (host : Host) : PyValue → Except PyError Float
  | .int i => (roundToDouble i).map Float.ofInt
  | .float f => .ok f
  | .str s =>
    match host.floatOfText s with
    | some f => .ok f
    | none => .error .valueError

/-- `int(value)`. -/
def PyValue.toInt : PyValue → Except PyError Int
  | .int i => .ok i
  | .float f => truncate f
  | .str s =>
    match Text.pyInt s.toList with
    | some i => .ok i
    | none => .error .valueError

/-- `int(float(value))`. -/
def PyValue.toFloatInt (host : Host) : PyValue → Except PyError Int
  | .int i => roundToDouble i
  | .float f => truncate f
  | .str s =>
    match host.floatOfText s with
    | some f => truncate f
    | none => .error .valueError

/-- `str(value)`. -/
def PyValue.text (host : Host) : PyValue → String
  | .int i => toString i
  | .float f => host.floatText f
  | .str s => s

/-! ## What the conversion through a float keeps -/

theorem roundMagnitude_of_lt {n : Nat} (h : n < 2 ^ 53) : roundMagnitude n = n := by
  rw [roundMagnitude, if_pos h]

/-- Rounding to 53 bits does not bring a number back below `2 ^ 53`. -/
theorem le_roundMagnitude {n : Nat} (h : 2 ^ 53 ≤ n) : 2 ^ 53 ≤ roundMagnitude n := by
  have hn : n ≠ 0 := by omega
  have hlog : 53 ≤ n.log2 := (Nat.le_log2 hn).mpr h
  have hsplit : 2 ^ n.log2 = 2 ^ 52 * 2 ^ (n.log2 - 52) := by
    rw [← Nat.pow_add]
    congr 1
    omega
  have hq : 2 ^ 52 ≤ n / 2 ^ (n.log2 - 52) := by
    rw [Nat.le_div_iff_mul_le (Nat.two_pow_pos _), ← hsplit]
    exact Nat.log2_self_le hn
  have hunit : 2 ^ 1 ≤ 2 ^ (n.log2 - 52) := Nat.pow_le_pow_right (by decide) (by omega)
  rw [roundMagnitude, if_neg (by omega)]
  have hround : 2 ^ 52 ≤ if 2 ^ (n.log2 - 52) < 2 * (n % 2 ^ (n.log2 - 52)) ∨
      2 ^ (n.log2 - 52) = 2 * (n % 2 ^ (n.log2 - 52)) ∧ n / 2 ^ (n.log2 - 52) % 2 = 1
      then n / 2 ^ (n.log2 - 52) + 1 else n / 2 ^ (n.log2 - 52) := by
    split <;> omega
  exact Nat.mul_le_mul hround hunit

/-- An integer that is too large for a double raises. -/
theorem error_of_roundToDouble {i : Int} {err : PyError} (h : roundToDouble i = .error err) :
    err = .overflowError := by
  unfold roundToDouble at h
  dsimp only at h
  split at h
  · injection h with h
    exact h.symm
  · cases h

/-- A number `int(float(i))` sees in a range below `2 ^ 53` is the number itself. -/
theorem eq_of_roundToDouble {i j : Int} (h : roundToDouble i = .ok j) (hj : j.natAbs < 2 ^ 53) :
    i = j := by
  unfold roundToDouble at h
  dsimp only at h
  split at h
  · cases h
  · injection h with h
    have hmag : roundMagnitude i.natAbs = j.natAbs := by
      rw [← h]
      split <;> simp
    have hlt : i.natAbs < 2 ^ 53 := by
      by_contra hge
      have := le_roundMagnitude (Nat.le_of_not_lt hge)
      omega
    rw [roundMagnitude_of_lt hlt] at h
    rw [← h]
    split <;> omega

/-- Small numbers go through a float unchanged. -/
theorem roundToDouble_of_lt {i : Int} (h : i.natAbs < 2 ^ 53) : roundToDouble i = .ok i := by
  have hlimit : 2 ^ 53 ≤ 2 ^ 1024 := by decide +kernel
  have hbig : ¬(2 ^ 1024 ≤ i.natAbs) := Nat.not_le_of_lt (Nat.lt_of_lt_of_le h hlimit)
  rw [roundToDouble, roundMagnitude_of_lt h, if_neg hbig]
  congr 1
  split <;> omega

end ProtocolGateway
