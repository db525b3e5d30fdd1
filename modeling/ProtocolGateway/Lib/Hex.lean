import Mathlib.Data.Nat.Digits.Lemmas

/-!
# Hexadecimal digits as bytes

Texts of ASCII digits, a byte a digit, as protocols put them on the wire: the two digits of a byte
(`hexBytes`, read back by `fromHex`), and a number with a minimal count of digits (`hexPadded`, read
back by `hexNumber`). Upper-case digits are written, and both cases are read.
-/

namespace Hex

/-! ## Digits -/

/-- The upper-case digit of a value below 16. -/
def digit (n : Nat) : BitVec 8 := BitVec.ofNat 8 (if n < 10 then 48 + n else 55 + n)

/-- The value of a digit. -/
def value? (c : BitVec 8) : Option Nat :=
  let n := c.toNat
  if 48 ≤ n ∧ n ≤ 57 then some (n - 48)
  else if 65 ≤ n ∧ n ≤ 70 then some (n - 55)
  else if 97 ≤ n ∧ n ≤ 102 then some (n - 87)
  else none

/-- A blank of ASCII. -/
def isBlank (c : BitVec 8) : Bool := c.toNat = 32 || (9 ≤ c.toNat && c.toNat ≤ 13)

/-- An upper-case letter for a lower-case one. -/
def upper (c : BitVec 8) : BitVec 8 :=
  if 97 ≤ c.toNat ∧ c.toNat ≤ 122 then BitVec.ofNat 8 (c.toNat - 32) else c

/-- A digit has its value, is no blank, and is upper case. -/
theorem digit_spec {n : Nat} (h : n < 16) :
    value? (digit n) = some n ∧ isBlank (digit n) = false ∧ upper (digit n) = digit n := by
  have hall : ∀ k : Fin 16, value? (digit k) = some k.val ∧ isBlank (digit k) = false ∧
      upper (digit k) = digit k := by decide
  exact hall ⟨n, h⟩

/-! ## Bytes -/

/-- The digits of bytes. -/
def hexBytes (bytes : List (BitVec 8)) : List (BitVec 8) :=
  bytes.flatMap fun b => [digit (b.toNat / 16), digit (b.toNat % 16)]

/-- The bytes of digits. Blanks between bytes are skipped. -/
def fromHex : List (BitVec 8) → Option (List (BitVec 8))
  | [] => some []
  | c :: rest =>
    if isBlank c then fromHex rest
    else
      match rest with
      | [] => none
      | d :: rest =>
        (value? c).bind fun hi => (value? d).bind fun lo =>
          (fromHex rest).map (BitVec.ofNat 8 (hi * 16 + lo) :: ·)

@[simp] theorem hexBytes_nil : hexBytes [] = [] := rfl

@[simp] theorem hexBytes_cons (b : BitVec 8) (bytes : List (BitVec 8)) :
    hexBytes (b :: bytes) = digit (b.toNat / 16) :: digit (b.toNat % 16) :: hexBytes bytes := rfl

@[simp] theorem length_hexBytes (bytes : List (BitVec 8)) :
    (hexBytes bytes).length = 2 * bytes.length := by
  induction bytes with
  | nil => rfl
  | cons b bytes ih =>
    rw [hexBytes_cons, List.length_cons, List.length_cons, List.length_cons, ih]
    omega

/-- **Bytes are read back from their digits.** -/
theorem fromHex_hexBytes (bytes : List (BitVec 8)) : fromHex (hexBytes bytes) = some bytes := by
  induction bytes with
  | nil => rfl
  | cons b bytes ih =>
    have hbyte := b.isLt
    obtain ⟨hhi, hblank, -⟩ := digit_spec (show b.toNat / 16 < 16 by omega)
    obtain ⟨hlo, -, -⟩ := digit_spec (show b.toNat % 16 < 16 by omega)
    have hb : BitVec.ofNat 8 (b.toNat / 16 * 16 + b.toNat % 16) = b := by
      rw [Nat.div_add_mod', BitVec.ofNat_toNat, BitVec.setWidth_eq]
    rw [hexBytes_cons, fromHex, hblank, if_neg Bool.false_ne_true, hhi, Option.bind_some, hlo, Option.bind_some, ih, Option.map_some, hb]

/-- Digits that are written are upper case. -/
theorem map_upper_hexBytes (bytes : List (BitVec 8)) :
    (hexBytes bytes).map upper = hexBytes bytes := by
  induction bytes with
  | nil => rfl
  | cons b bytes ih =>
    have hbyte := b.isLt
    obtain ⟨-, -, hhi⟩ := digit_spec (show b.toNat / 16 < 16 by omega)
    obtain ⟨-, -, hlo⟩ := digit_spec (show b.toNat % 16 < 16 by omega)
    rw [hexBytes_cons, List.map_cons, List.map_cons, hhi, hlo, ih]

theorem isBlank_of_mem_hexBytes {bytes : List (BitVec 8)} {c : BitVec 8} (h : c ∈ hexBytes bytes) :
    isBlank c = false := by
  obtain ⟨b, -, hc⟩ := List.mem_flatMap.mp h
  have hbyte := b.isLt
  rcases List.mem_cons.mp hc with rfl | hc
  · exact (digit_spec (by omega)).2.1
  · obtain rfl := List.mem_singleton.mp hc
    exact (digit_spec (by omega)).2.1

/-- Without blanks, two digits are read as a byte. -/
theorem length_of_fromHex {ds bytes : List (BitVec 8)} (hblank : ∀ c ∈ ds, isBlank c = false)
    (h : fromHex ds = some bytes) : ds.length = 2 * bytes.length := by
  induction ds using List.twoStepInduction generalizing bytes with
  | nil =>
    obtain rfl := Option.some.inj h
    rfl
  | singleton c =>
    rw [fromHex, hblank c List.mem_cons_self, if_neg Bool.false_ne_true] at h
    cases h
  | cons_cons c d rest ih _ =>
    rw [fromHex, hblank c List.mem_cons_self, if_neg Bool.false_ne_true] at h
    obtain ⟨hi, -, h⟩ := Option.bind_eq_some_iff.mp h
    obtain ⟨lo, -, h⟩ := Option.bind_eq_some_iff.mp h
    obtain ⟨bytes, hbytes, rfl⟩ := Option.map_eq_some_iff.mp h
    have hlength := ih (fun e he => hblank e (by simp [he])) hbytes
    rw [List.length_cons, List.length_cons, List.length_cons, hlength]
    omega

/-! ## Numbers -/

/-- The digits of a number, `width` at least. -/
def hexPadded : Nat → Nat → List (BitVec 8)
  | 0, n => (Nat.digits 16 n).reverse.map digit
  | width + 1, n => hexPadded width (n / 16) ++ [digit (n % 16)]

/-- The number digits are read as. -/
def hexNumber (ds : List (BitVec 8)) : Option Nat :=
  ds.foldlM (fun n c => (value? c).map (n * 16 + ·)) 0

/-- A number that fits has exactly as many digits. -/
theorem length_hexPadded {width n : Nat} (h : n < 16 ^ width) :
    (hexPadded width n).length = width := by
  induction width generalizing n with
  | zero =>
    obtain rfl : n = 0 := by omega
    rfl
  | succ width ih =>
    rw [hexPadded, List.length_append, List.length_singleton, ih]
    rw [Nat.pow_succ] at h
    omega

/-- There are never fewer. -/
theorem le_length_hexPadded (width n : Nat) : width ≤ (hexPadded width n).length := by
  induction width generalizing n with
  | zero => exact Nat.zero_le _
  | succ width ih =>
    rw [hexPadded, List.length_append, List.length_singleton]
    exact Nat.succ_le_succ (ih _)

/-- A number that does not fit has more. -/
theorem lt_length_hexPadded {width n : Nat} (h : 16 ^ width ≤ n) :
    width < (hexPadded width n).length := by
  induction width generalizing n with
  | zero =>
    rw [hexPadded, List.length_map, List.length_reverse]
    refine List.length_pos_iff.mpr (Nat.digits_ne_nil_iff_ne_zero.mpr ?_)
    rw [Nat.pow_zero] at h
    omega
  | succ width ih =>
    rw [hexPadded, List.length_append, List.length_singleton]
    refine Nat.succ_lt_succ (ih ?_)
    rw [Nat.pow_succ] at h
    omega

theorem isBlank_of_mem_hexPadded {width n : Nat} {c : BitVec 8} (h : c ∈ hexPadded width n) :
    isBlank c = false := by
  induction width generalizing n with
  | zero =>
    obtain ⟨k, hk, rfl⟩ := List.mem_map.mp h
    exact (digit_spec (Nat.digits_lt_base (by decide) (List.mem_reverse.mp hk))).2.1
  | succ width ih =>
    rcases List.mem_append.mp h with h | h
    · exact ih h
    · obtain rfl := List.mem_singleton.mp h
      exact (digit_spec (by omega)).2.1

/-- **A number that fits is read back from its digits.** -/
theorem hexNumber_hexPadded {width n : Nat} (h : n < 16 ^ width) :
    hexNumber (hexPadded width n) = some n := by
  induction width generalizing n with
  | zero =>
    obtain rfl : n = 0 := by omega
    rfl
  | succ width ih =>
    have hfits : n / 16 < 16 ^ width := by
      rw [Nat.pow_succ] at h
      omega
    obtain ⟨hlo, -, -⟩ := digit_spec (show n % 16 < 16 by omega)
    have hcut := ih hfits
    unfold hexNumber at hcut ⊢
    rw [hexPadded, List.foldlM_append, hcut, Option.bind_eq_bind, Option.bind_some,
      List.foldlM_cons, hlo]
    show some (n / 16 * 16 + n % 16) = some n
    rw [Nat.div_add_mod']

end Hex
