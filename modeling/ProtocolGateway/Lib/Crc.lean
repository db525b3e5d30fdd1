import Mathlib.Logic.Function.Basic

/-!
# Cyclic redundancy checks

The reflected form of a CRC: a remainder of `w` bits takes a byte in at its low end and is then
shifted eight times, and every bit that falls out adds the polynomial.

A shift is linear (`shift_xor`), so the eight shifts of a byte are those of the low byte alone,
which a table of 256 remainders holds, and the rest of the remainder moved down (`feed_eq_table`).
A polynomial with its highest bit set makes a shift injective, and then two messages that differ in
one byte have different remainders (`remainder_ne`).
-/

namespace Crc

variable {w : Nat} (poly : BitVec w)

/-! ## Bit by bit -/

/-- One shift: a bit that falls out adds the polynomial. -/
def shift (c : BitVec w) : BitVec w := if c.getLsbD 0 then (c >>> 1) ^^^ poly else c >>> 1

/-- `n` shifts. -/
def shifts : Nat → BitVec w → BitVec w
  | 0, c => c
  | n + 1, c => shift poly (shifts n c)

/-- A byte is added to the low end and shifted through. -/
def feed (c : BitVec w) (b : BitVec 8) : BitVec w := shifts poly 8 (c ^^^ b.setWidth w)

/-- The remainder of a message. -/
def remainder (init : BitVec w) (message : List (BitVec 8)) : BitVec w :=
  message.foldl (feed poly) init

/-! ## Linearity -/

theorem shift_xor (a b : BitVec w) : shift poly (a ^^^ b) = shift poly a ^^^ shift poly b := by
  have hcancel : ∀ x y : BitVec w, x ^^^ poly ^^^ (y ^^^ poly) = x ^^^ y := by
    intro x y
    rw [BitVec.xor_assoc, BitVec.xor_comm y poly, ← BitVec.xor_assoc poly, BitVec.xor_self,
      BitVec.zero_xor]
  unfold shift
  simp only [BitVec.getLsbD_xor, BitVec.ushiftRight_xor_distrib]
  cases a.getLsbD 0 <;> cases b.getLsbD 0
  · simp
  · simp [BitVec.xor_assoc]
  · simp only [Bool.xor_false, if_true, Bool.false_eq_true, if_false]
    rw [BitVec.xor_assoc, BitVec.xor_comm (b >>> 1), ← BitVec.xor_assoc]
  · simp [hcancel]

theorem shifts_xor (n : Nat) (a b : BitVec w) :
    shifts poly n (a ^^^ b) = shifts poly n a ^^^ shifts poly n b := by
  induction n with
  | zero => rfl
  | succ n ih => rw [shifts, ih, shift_xor]; rfl

/-- As long as only zeros fall out, a remainder just moves down. -/
theorem shifts_of_low_clear {c : BitVec w} {n : Nat} (hc : ∀ i < n, c.getLsbD i = false) :
    ∀ k ≤ n, shifts poly k c = c >>> k := by
  intro k
  induction k with
  | zero => intro _; simp [shifts]
  | succ k ih =>
    intro hk
    have hbit : (c >>> k).getLsbD 0 = false := by simpa using hc k (by omega)
    rw [shifts, ih (by omega), shift, if_neg (by rw [hbit]; decide), BitVec.shiftRight_add]

/-- A remainder is its low byte and the rest. -/
theorem split_low (c : BitVec w) :
    c = (c.setWidth 8).setWidth w ^^^ ((c >>> 8) <<< 8) := by
  apply BitVec.eq_of_getLsbD_eq
  intro i hi
  simp only [BitVec.getLsbD_xor, BitVec.getLsbD_setWidth, BitVec.getLsbD_shiftLeft,
    BitVec.getLsbD_ushiftRight]
  by_cases h : i < 8
  · simp [h, hi]
  · rw [show 8 + (i - 8) = i by omega]
    simp [h, hi]

/-- The shifts of a byte are those of the low byte, added to the rest of the remainder moved down
by eight places. -/
theorem shifts_eight (c : BitVec w) :
    shifts poly 8 c = shifts poly 8 ((c.setWidth 8).setWidth w) ^^^ (c >>> 8) := by
  have hclear : ∀ i < 8, ((c >>> 8) <<< 8).getLsbD i = false := by
    intro i hi
    simp [BitVec.getLsbD_shiftLeft, hi]
  have hback : ((c >>> 8) <<< 8) >>> 8 = c >>> 8 := by
    apply BitVec.eq_of_getLsbD_eq
    intro i hi
    simp only [BitVec.getLsbD_ushiftRight, BitVec.getLsbD_shiftLeft, Nat.add_sub_cancel_left]
    by_cases h : 8 + i < w
    · simp [h]
    · simp [BitVec.getLsbD_of_ge c (8 + i) (by omega)]
  conv => lhs; rw [split_low c]
  rw [shifts_xor, shifts_of_low_clear poly hclear 8 (by omega), hback]

/-- **Byte by byte.** A table of the eight shifts of every byte replaces them. -/
theorem feed_eq_table (hw : 8 ≤ w) {table : BitVec 8 → BitVec w}
    (htable : ∀ i, table i = shifts poly 8 (i.setWidth w)) (c : BitVec w) (b : BitVec 8) :
    feed poly c b = table (c.setWidth 8 ^^^ b) ^^^ (c >>> 8) := by
  have hlow : (c ^^^ b.setWidth w).setWidth 8 = c.setWidth 8 ^^^ b := by
    apply BitVec.eq_of_getLsbD_eq
    intro i hi
    have hiw : i < w := by omega
    simp [hi, hiw]
  have hhigh : (c ^^^ b.setWidth w) >>> 8 = c >>> 8 := by
    apply BitVec.eq_of_getLsbD_eq
    intro i _
    simp
  rw [feed, shifts_eight poly, hlow, hhigh, htable]

/-! ## Detection -/

variable {poly}

/-- With its highest bit set, the polynomial tells whether a bit fell out. -/
theorem eq_zero_of_shift (hp : poly.msb = true) {c : BitVec w} (h : shift poly c = 0#w) :
    c = 0#w := by
  have hw : 0 < w := by
    rcases Nat.eq_zero_or_pos w with rfl | hw
    · simp [BitVec.msb, BitVec.getMsbD] at hp
    · exact hw
  have htop : (c >>> 1).getLsbD (w - 1) = false := by
    rw [BitVec.getLsbD_ushiftRight]
    exact BitVec.getLsbD_of_ge c _ (by omega)
  unfold shift at h
  split at h
  · have hbit : (c >>> 1 ^^^ poly).getLsbD (w - 1) = false := by rw [h]; simp
    rw [BitVec.getLsbD_xor, htop, ← BitVec.msb_eq_getLsbD_last, hp] at hbit
    cases hbit
  · next hlow =>
    apply BitVec.eq_of_getLsbD_eq
    intro i hi
    rw [BitVec.getLsbD_zero]
    rcases i with _ | i
    · simpa using hlow
    · have hbit : (c >>> 1).getLsbD i = false := by rw [h]; simp
      rwa [BitVec.getLsbD_ushiftRight, Nat.add_comm] at hbit

theorem shift_injective (hp : poly.msb = true) : Function.Injective (shift poly) := by
  intro a b h
  have hzero : shift poly (a ^^^ b) = 0#w := by rw [shift_xor, h, BitVec.xor_self]
  exact BitVec.xor_eq_zero_iff.mp (eq_zero_of_shift hp hzero)

theorem shifts_injective (hp : poly.msb = true) (n : Nat) :
    Function.Injective (shifts poly n) := by
  induction n with
  | zero => exact fun _ _ h => h
  | succ n ih => exact fun _ _ h => ih (shift_injective hp h)

/-- The remainder before a byte can be told from the one after it. -/
theorem feed_injective (hp : poly.msb = true) (b : BitVec 8) :
    Function.Injective fun c => feed poly c b := by
  intro c c' h
  exact BitVec.xor_left_inj _ |>.mp (shifts_injective hp 8 h)

/-- The byte can be told from the remainders before and after it. -/
theorem feed_right_injective (hp : poly.msb = true) (hw : 8 ≤ w) (c : BitVec w) :
    Function.Injective (feed poly c) := by
  intro b b' h
  have hwide : b.setWidth w = b'.setWidth w :=
    BitVec.xor_right_inj _ |>.mp (shifts_injective hp 8 h)
  apply BitVec.eq_of_getLsbD_eq
  intro i hi
  have hbit := congrArg (fun x : BitVec w => x.getLsbD i) hwide
  have hiw : i < w := by omega
  simpa [hiw] using hbit

theorem remainder_injective (hp : poly.msb = true) (message : List (BitVec 8)) :
    Function.Injective fun init => remainder poly init message := by
  induction message with
  | nil => exact fun _ _ h => h
  | cons b bs ih => exact fun _ _ h => feed_injective hp b (ih h)

theorem remainder_append (init : BitVec w) (as bs : List (BitVec 8)) :
    remainder poly init (as ++ bs) = remainder poly (remainder poly init as) bs :=
  List.foldl_append

/-- **One byte.** Messages that differ in one byte have different remainders. -/
theorem remainder_ne (hp : poly.msb = true) (hw : 8 ≤ w) (init : BitVec w)
    (as bs : List (BitVec 8)) {b b' : BitVec 8} (hb : b ≠ b') :
    remainder poly init (as ++ b :: bs) ≠ remainder poly init (as ++ b' :: bs) := by
  rw [remainder_append, remainder_append]
  intro h
  exact hb (feed_right_injective hp hw _ (remainder_injective hp bs h))

end Crc
