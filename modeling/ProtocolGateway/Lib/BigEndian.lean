import Mathlib.Algebra.Ring.Int.Defs
import Mathlib.Data.List.Induction
import Mathlib.Data.Nat.Bitwise
import Mathlib.Order.Monotone.Basic
import Mathlib.Tactic.Ring

/-!
# Big-endian numbers

A list of `w`-bit digits, most significant first, read as a number: `number` and, in two's
complement, `signedNumber`. `digits` writes a number back as digits. The two are inverse to each
other on lists of one length (`number_digits`, `digits_number`), so such a list is determined by
its number (`number_inj`), and a bit of the number is a bit of one of the digits
(`testBit_number`).

The second part is about rearranging digits without looking at them: `swapPairs` exchanges
neighbours and `reversePairs` reverses the order of the pairs. Both commute with `List.map`, so
what they do to digits is what they do to the names of the places the digits come from.
-/

namespace BigEndian

variable {w : Nat}

/-! ## Numbers -/

/-- The number a digit list denotes, most significant digit first. -/
def number (ds : List (BitVec w)) : Nat :=
  ds.foldl (fun n d => n * 2 ^ w + d.toNat) 0

/-- The number a digit list denotes in two's complement. -/
def signedNumber (ds : List (BitVec w)) : Int :=
  Int.bmod (number ds) (2 ^ (w * ds.length))

/-- The `n` low digits of `v`, most significant first. -/
def digits (w : Nat) : Nat → Nat → List (BitVec w)
  | 0, _ => []
  | n + 1, v => digits w n (v / 2 ^ w) ++ [BitVec.ofNat w v]

@[simp] theorem number_nil : number ([] : List (BitVec w)) = 0 := rfl

@[simp] theorem number_concat (ds : List (BitVec w)) (d : BitVec w) :
    number (ds ++ [d]) = number ds * 2 ^ w + d.toNat := by
  simp [number]

@[simp] theorem number_singleton (d : BitVec w) : number [d] = d.toNat := by
  simp [number]

theorem number_append (as bs : List (BitVec w)) :
    number (as ++ bs) = number as * 2 ^ (w * bs.length) + number bs := by
  induction bs using List.reverseRecOn with
  | nil => simp
  | append_singleton bs d ih =>
    rw [← List.append_assoc, number_concat, number_concat, ih, List.length_append,
      List.length_singleton, Nat.mul_succ, Nat.pow_add]
    ring_nf

theorem number_lt (ds : List (BitVec w)) : number ds < 2 ^ (w * ds.length) := by
  induction ds using List.reverseRecOn with
  | nil => simp
  | append_singleton ds d ih =>
    have hd : d.toNat < 2 ^ w := d.isLt
    have hstep : number ds * 2 ^ w + 2 ^ w ≤ 2 ^ (w * ds.length) * 2 ^ w := by
      rw [← Nat.succ_mul]
      exact Nat.mul_le_mul_right _ ih
    rw [number_concat, List.length_append, List.length_singleton, Nat.mul_succ, Nat.pow_add]
    omega

@[simp] theorem length_digits (n v : Nat) : (digits w n v).length = n := by
  induction n generalizing v with
  | zero => rfl
  | succ n ih => simp [digits, ih]

/-- Writing and reading keeps the digits' worth of the number. -/
theorem number_digits (n v : Nat) : number (digits w n v) = v % 2 ^ (w * n) := by
  induction n generalizing v with
  | zero => simp [digits, Nat.mod_one]
  | succ n ih =>
    rw [digits, number_concat, ih, BitVec.toNat_ofNat, Nat.mul_succ, Nat.pow_add,
      Nat.mul_comm (2 ^ (w * n)), Nat.mod_mul]
    ring_nf

/-- Reading and writing gives the digits back. -/
theorem digits_number (ds : List (BitVec w)) : digits w ds.length (number ds) = ds := by
  induction ds using List.reverseRecOn with
  | nil => rfl
  | append_singleton ds d ih =>
    have hd : d.toNat < 2 ^ w := d.isLt
    have hdiv : (number ds * 2 ^ w + d.toNat) / 2 ^ w = number ds := by
      rw [Nat.mul_comm, Nat.mul_add_div (Nat.two_pow_pos w), Nat.div_eq_of_lt hd, Nat.add_zero]
    rw [List.length_append, List.length_singleton, digits, number_concat, hdiv, ih]
    congr 2
    apply BitVec.eq_of_toNat_eq
    rw [BitVec.toNat_ofNat, Nat.mul_comm, Nat.mul_add_mod, Nat.mod_eq_of_lt hd]

/-- A digit list is determined by its length and its number. -/
theorem number_inj {as bs : List (BitVec w)} (hl : as.length = bs.length)
    (hn : number as = number bs) : as = bs := by
  rw [← digits_number as, ← digits_number bs, hl, hn]

/-- A digit list is determined by its length and its number in two's complement. -/
theorem signedNumber_inj {as bs : List (BitVec w)} (hl : as.length = bs.length)
    (hn : signedNumber as = signedNumber bs) : as = bs := by
  apply number_inj hl
  have hmod : ((number as : Int)) % (2 ^ (w * as.length) : Nat)
      = (number bs : Int) % (2 ^ (w * as.length) : Nat) := by
    rw [signedNumber, signedNumber, ← hl] at hn
    rw [← Int.bmod_emod, ← Int.bmod_emod (x := (number bs : Int)), hn]
  have ha := number_lt as
  have hb := number_lt bs
  rw [← hl] at hb
  rw [Int.emod_eq_of_lt (by omega) (by exact_mod_cast ha),
    Int.emod_eq_of_lt (by omega) (by exact_mod_cast hb)] at hmod
  exact_mod_cast hmod

/-- A number of ones grows with its length. -/
theorem number_replicate_one_lt (hw : 0 < w) (n : Nat) :
    number (List.replicate n (1 : BitVec w)) < number (List.replicate (n + 1) (1 : BitVec w)) := by
  have hone : (1 : BitVec w).toNat = 1 := Nat.mod_eq_of_lt (Nat.one_lt_two_pow (by omega))
  rw [List.replicate_succ', number_concat, hone]
  have := Nat.le_mul_of_pos_right (number (List.replicate n (1 : BitVec w))) (Nat.two_pow_pos w)
  omega

theorem number_replicate_one_inj (hw : 0 < w) {m n : Nat}
    (h : number (List.replicate m (1 : BitVec w)) = number (List.replicate n (1 : BitVec w))) :
    m = n :=
  (strictMono_nat_of_lt_succ (number_replicate_one_lt hw)).injective h

/-- A number of ones is at most the largest one of two's complement. -/
theorem signedNumber_replicate_one (hw : 1 < w) (n : Nat) :
    signedNumber (List.replicate n (1 : BitVec w)) = number (List.replicate n (1 : BitVec w)) := by
  have hone : (1 : BitVec w).toNat = 1 := Nat.mod_eq_of_lt (Nat.one_lt_two_pow (by omega))
  have hhalf : 2 * number (List.replicate n (1 : BitVec w)) < 2 ^ (w * n) := by
    induction n with
    | zero => simp
    | succ n ih =>
      have hw2 : 2 ^ 2 ≤ 2 ^ w := Nat.pow_le_pow_right (by decide) hw
      have hstep : (2 * number (List.replicate n (1 : BitVec w)) + 1) * 2 ^ w
          ≤ 2 ^ (w * n) * 2 ^ w := Nat.mul_le_mul_right _ ih
      rw [List.replicate_succ', number_concat, hone, Nat.mul_succ w, Nat.pow_add]
      rw [Nat.add_mul, Nat.mul_assoc] at hstep
      omega
  rw [signedNumber, List.length_replicate]
  apply Int.bmod_eq_of_le_mul_two
  · omega
  · rw [Int.mul_comm]
    exact_mod_cast hhalf

theorem signedNumber_replicate_one_inj (hw : 1 < w) {m n : Nat}
    (h : signedNumber (List.replicate m (1 : BitVec w))
      = signedNumber (List.replicate n (1 : BitVec w))) : m = n := by
  rw [signedNumber_replicate_one hw, signedNumber_replicate_one hw] at h
  exact number_replicate_one_inj (Nat.lt_of_succ_lt hw) (by exact_mod_cast h)

/-- The bits of a number are the bits of its digits, the last digit holding the lowest ones. -/
theorem testBit_number (hw : 0 < w) (ds : List (BitVec w)) (j : Nat) :
    (number ds).testBit j = (ds.reverse[j / w]?).any (·.getLsbD (j % w)) := by
  induction ds using List.reverseRecOn generalizing j with
  | nil => simp
  | append_singleton ds d ih =>
    have hd : d.toNat < 2 ^ w := d.isLt
    rw [number_concat, Nat.mul_comm, Nat.testBit_two_pow_mul_add _ hd, List.reverse_append,
      List.reverse_singleton, List.singleton_append]
    by_cases hj : j < w
    · rw [if_pos hj, Nat.div_eq_of_lt hj, Nat.mod_eq_of_lt hj]
      simp [BitVec.getLsbD]
    · obtain ⟨k, rfl⟩ := Nat.exists_eq_add_of_le (Nat.le_of_not_lt hj)
      rw [if_neg hj, Nat.add_sub_cancel_left, ih, Nat.add_div_left _ hw, Nat.add_mod_left,
        List.getElem?_cons_succ]

/-! ## Rearranging pairs -/

variable {α β : Type}

/-- The two elements of every pair exchanged; an odd last element stays. -/
def swapPairs : List α → List α
  | a :: b :: rest => b :: a :: swapPairs rest
  | rest => rest

/-- The first `n` pairs in reverse order. -/
def reversePairs (n : Nat) (xs : List α) : List α :=
  ((List.range n).map fun i => (xs.drop (2 * i)).take 2).reverse.flatten

theorem map_swapPairs (f : α → β) (xs : List α) :
    (swapPairs xs).map f = swapPairs (xs.map f) := by
  induction xs using swapPairs.induct with
  | case1 a b rest ih => simp [swapPairs, ih]
  | case2 rest h =>
    rcases rest with _ | ⟨a, _ | ⟨b, rest⟩⟩
    · rfl
    · rfl
    · exact absurd rfl (h a b rest)

theorem map_reversePairs (f : α → β) (n : Nat) (xs : List α) :
    (reversePairs n xs).map f = reversePairs n (xs.map f) := by
  simp [reversePairs, List.map_flatten, Function.comp_def]

/-- Swapping the pairs of a list of pairs. -/
theorem swapPairs_flatMap (hi lo : β → α) (xs : List β) :
    swapPairs (xs.flatMap fun x => [hi x, lo x]) = xs.flatMap fun x => [lo x, hi x] := by
  induction xs with
  | nil => rfl
  | cons x xs ih =>
    rw [List.flatMap_cons, List.flatMap_cons, ← ih]
    rfl

/-- Reversing the pairs of a list of pairs. -/
theorem reversePairs_flatMap (hi lo : β → α) (xs : List β) :
    reversePairs xs.length (xs.flatMap fun x => [hi x, lo x])
      = xs.reverse.flatMap fun x => [hi x, lo x] := by
  have hpairs : ((List.range xs.length).map fun i =>
      ((xs.flatMap fun x => [hi x, lo x]).drop (2 * i)).take 2) = xs.map fun x => [hi x, lo x] := by
    induction xs with
    | nil => rfl
    | cons x xs ih =>
      rw [List.length_cons, List.range_succ_eq_map, List.map_cons, List.map_map, List.map_cons,
        ← ih]
      refine congrArg₂ _ rfl (List.map_congr_left ?_)
      intro i _
      rfl
  rw [reversePairs, hpairs, ← List.map_reverse, List.flatMap_def]

end BigEndian
