import Mathlib.Algebra.Ring.Int.Defs
import Mathlib.Data.Nat.Bitwise

/-!
# Bit fields

A field of a number: `n` bits from bit `lo` on. `field` reads it, `update` writes it and leaves
the other bits of a `total`-bit word alone. What both do is said once, bit by bit
(`testBit_field`, `testBit_update`), and from it follow the read-back law `field_update` and the
frame law `testBit_update_of_outside`.
-/

namespace BitField

/-- `n` one bits, `(1 << n) - 1`. -/
def ones (n : Nat) : Nat := (1 <<< n) - 1

/-- The bits of a field, `((1 << n) - 1) << lo`. -/
def mask (lo n : Nat) : Nat := ones n <<< lo

/-- The bits of a `total`-bit word outside `m`, `~m & ((1 << total) - 1)`. -/
def complement (total m : Nat) : Nat := ones total ^^^ (m &&& ones total)

/-- Read a field, `(x >> lo) & ((1 << n) - 1)`. -/
def field (lo n x : Nat) : Nat := (x >>> lo) &&& ones n

/-- Write the bits of `encoded` that lie in a field over those of `raw`. -/
def update (total lo n raw encoded : Nat) : Nat :=
  (raw &&& complement total (mask lo n)) ||| (encoded &&& mask lo n)

variable {total lo n i x raw encoded : Nat}

theorem ones_eq (n : Nat) : ones n = 2 ^ n - 1 := by
  rw [ones, Nat.one_shiftLeft]

theorem ones_lt (n : Nat) : ones n < 2 ^ n := by
  have := Nat.two_pow_pos n
  rw [ones_eq]
  omega

@[simp] theorem testBit_ones : (ones n).testBit i = decide (i < n) := by
  rw [ones_eq, Nat.testBit_two_pow_sub_one]

@[simp] theorem testBit_mask :
    (mask lo n).testBit i = (decide (lo ≤ i) && decide (i < lo + n)) := by
  rw [mask, Nat.testBit_shiftLeft, testBit_ones]
  by_cases h : lo ≤ i
  · have : i - lo < n ↔ i < lo + n := by omega
    simp [h, this]
  · simp [h]

@[simp] theorem testBit_complement (m : Nat) :
    (complement total m).testBit i = (decide (i < total) && !m.testBit i) := by
  rw [complement, Nat.testBit_xor, Nat.testBit_and, testBit_ones]
  cases m.testBit i <;> by_cases h : i < total <;> simp [h]

/-! ## Reading -/

theorem field_eq (lo n x : Nat) : field lo n x = x / 2 ^ lo % 2 ^ n := by
  rw [field, ones_eq, Nat.and_two_pow_sub_one_eq_mod, Nat.shiftRight_eq_div_pow]

@[simp] theorem testBit_field :
    (field lo n x).testBit i = (decide (i < n) && x.testBit (lo + i)) := by
  rw [field, Nat.testBit_and, testBit_ones, Nat.testBit_shiftRight, Bool.and_comm]

theorem field_lt (lo n x : Nat) : field lo n x < 2 ^ n := by
  rw [field_eq]
  exact Nat.mod_lt _ (Nat.two_pow_pos n)

/-- A field beyond the number is empty. -/
theorem field_eq_zero (h : x < 2 ^ lo) : field lo n x = 0 := by
  rw [field_eq, Nat.div_eq_of_lt h, Nat.zero_mod]

/-- Two fields are equal when their bits are. -/
theorem field_congr {y : Nat} (h : ∀ i, i < n → x.testBit (lo + i) = y.testBit (lo + i)) :
    field lo n x = field lo n y := by
  apply Nat.eq_of_testBit_eq
  intro i
  rw [testBit_field, testBit_field]
  by_cases hi : i < n
  · rw [h i hi]
  · simp [hi]

/-! ## Writing -/

theorem testBit_update :
    (update total lo n raw encoded).testBit i =
      if lo ≤ i ∧ i < lo + n then encoded.testBit i else decide (i < total) && raw.testBit i := by
  rw [update, Nat.testBit_or, Nat.testBit_and, Nat.testBit_and, testBit_complement, testBit_mask]
  by_cases h1 : lo ≤ i <;> by_cases h2 : i < lo + n <;> simp [h1, h2, Bool.and_comm]

/-- Writing leaves the bits outside the field alone. -/
theorem testBit_update_of_outside (h : ¬(lo ≤ i ∧ i < lo + n)) (hr : raw < 2 ^ total) :
    (update total lo n raw encoded).testBit i = raw.testBit i := by
  rw [testBit_update, if_neg h]
  by_cases hi : i < total
  · simp [hi]
  · rw [Nat.testBit_lt_two_pow (Nat.lt_of_lt_of_le hr
      (Nat.pow_le_pow_right (by decide) (Nat.le_of_not_lt hi)))]
    simp

/-- A field reads back as it was written. -/
theorem field_update (v : Nat) (hv : v < 2 ^ n) :
    field lo n (update total lo n raw (v <<< lo)) = v := by
  apply Nat.eq_of_testBit_eq
  intro i
  rw [testBit_field, testBit_update]
  by_cases hi : i < n
  · rw [if_pos ⟨Nat.le_add_right .., by omega⟩, Nat.testBit_shiftLeft]
    simp [hi]
  · rw [Nat.testBit_lt_two_pow (Nat.lt_of_lt_of_le hv
      (Nat.pow_le_pow_right (by decide) (Nat.le_of_not_lt hi)))]
    simp [hi]

/-- A field written with what it holds changes nothing. -/
theorem update_of_outside_word (hr : raw < 2 ^ total) (h : total ≤ lo)
    (hu : update total lo n raw encoded < 2 ^ total) :
    update total lo n raw encoded = raw := by
  apply Nat.eq_of_testBit_eq
  intro i
  by_cases hi : lo ≤ i ∧ i < lo + n
  · have hle : 2 ^ total ≤ 2 ^ i := Nat.pow_le_pow_right (by decide) (by omega)
    rw [Nat.testBit_lt_two_pow (Nat.lt_of_lt_of_le hu hle),
      Nat.testBit_lt_two_pow (Nat.lt_of_lt_of_le hr hle)]
  · exact testBit_update_of_outside hi hr

/-- A write changes nothing exactly if it writes what the field holds. -/
theorem update_eq_self_iff (hr : raw < 2 ^ total) :
    update total lo n raw encoded = raw ↔ field lo n encoded = field lo n raw := by
  constructor
  · intro h
    refine field_congr fun i hi => ?_
    have hbit : (update total lo n raw encoded).testBit (lo + i) = raw.testBit (lo + i) := by rw [h]
    rwa [testBit_update, if_pos ⟨Nat.le_add_right .., by omega⟩] at hbit
  · intro h
    refine Nat.eq_of_testBit_eq fun i => ?_
    by_cases hi : lo ≤ i ∧ i < lo + n
    · obtain ⟨j, rfl⟩ := Nat.exists_eq_add_of_le hi.1
      have hbit : (field lo n encoded).testBit j = (field lo n raw).testBit j := by rw [h]
      rw [testBit_field, testBit_field, decide_eq_true (by omega : j < n), Bool.true_and,
        Bool.true_and] at hbit
      rwa [testBit_update, if_pos hi]
    · exact testBit_update_of_outside hi hr

end BitField
