import ProtocolGateway.Values
import ProtocolGateway.Lib.BigEndian

/-!
# Register words

A Modbus register is a 16-bit word, sent as two bytes, high byte first. Here are the two byte
orders of one word (`Word.toBytes`, `swapBytes16`) and the two conversions of the transport,
`_register_words_to_bytes` and `_bytes_to_register_words`, which lay a list of words out under one
of the four word orders and take it apart again. They are inverse to each other
(`registerWordsToBytes_of_bytesToRegisterWords`, `bytesToRegisterWords_registerWordsToBytes`).
-/

namespace ProtocolGateway

open BigEndian

abbrev Byte := BitVec 8

abbrev Word := BitVec 16

namespace Word

/-- The high byte, sent first. -/
def hi (w : Word) : Byte := w.extractLsb' 8 8

/-- The low byte. -/
def lo (w : Word) : Byte := w.extractLsb' 0 8

/-- The word of a high and a low byte. -/
def ofBytes (hi lo : Byte) : Word := hi ++ lo

theorem getLsbD_ofBytes (a b : Byte) (i : Nat) :
    (ofBytes a b).getLsbD i = if i < 8 then b.getLsbD i else a.getLsbD (i - 8) :=
  BitVec.getLsbD_append

theorem getLsbD_hi (w : Word) (i : Nat) :
    w.hi.getLsbD i = (decide (i < 8) && w.getLsbD (8 + i)) := by
  simp [Word.hi]

theorem getLsbD_lo (w : Word) (i : Nat) :
    w.lo.getLsbD i = (decide (i < 8) && w.getLsbD i) := by
  simp [Word.lo]

@[simp] theorem hi_ofBytes (a b : Byte) : (ofBytes a b).hi = a := by
  apply BitVec.eq_of_getLsbD_eq
  intro i hi
  rw [getLsbD_hi, getLsbD_ofBytes, if_neg (by omega), Nat.add_sub_cancel_left, decide_eq_true hi,
    Bool.true_and]

@[simp] theorem lo_ofBytes (a b : Byte) : (ofBytes a b).lo = b := by
  apply BitVec.eq_of_getLsbD_eq
  intro i hi
  rw [getLsbD_lo, getLsbD_ofBytes, if_pos hi, decide_eq_true hi, Bool.true_and]

@[simp] theorem ofBytes_hi_lo (w : Word) : ofBytes w.hi w.lo = w := by
  apply BitVec.eq_of_getLsbD_eq
  intro i hi
  rw [getLsbD_ofBytes, getLsbD_lo, getLsbD_hi]
  by_cases h : i < 8
  · simp [h]
  · have hlt : i - 8 < 8 := by omega
    rw [if_neg h, show 8 + (i - 8) = i by omega]
    simp [hlt]

theorem toNat_ofBytes (a b : Byte) : (ofBytes a b).toNat = a.toNat * 256 + b.toNat := by
  have happend : (ofBytes a b).toNat = a.toNat <<< 8 ||| b.toNat := BitVec.toNat_append a b
  rw [happend, Nat.shiftLeft_eq, Nat.mul_comm, ← Nat.two_pow_add_eq_or_of_lt b.isLt, Nat.mul_comm]

/-- `word.to_bytes(2, byteorder="little" if bytes_reversed else "big")`. -/
def toBytes (bytesReversed : Bool) (w : Word) : List Byte :=
  if bytesReversed then [w.lo, w.hi] else [w.hi, w.lo]

/-- `_swap_bytes_16`. -/
def swapBytes16 (val : Word) : Word := ((val &&& 0xFF) <<< 8) ||| ((val >>> 8) &&& 0xFF)

theorem swapBytes16_eq (w : Word) : swapBytes16 w = ofBytes w.lo w.hi := by
  have hmask (i : Nat) : (0xFF : Word).getLsbD i = decide (i < 8) :=
    Nat.testBit_two_pow_sub_one 8 i
  apply BitVec.eq_of_getLsbD_eq
  intro i hi
  rw [swapBytes16, BitVec.getLsbD_or, BitVec.getLsbD_shiftLeft, BitVec.getLsbD_and,
    BitVec.getLsbD_and, BitVec.getLsbD_ushiftRight, hmask, hmask, getLsbD_ofBytes, getLsbD_hi,
    getLsbD_lo]
  by_cases h : i < 8
  · simp [h, Bool.and_comm]
  · have hlt : i - 8 < 8 := by omega
    simp [h, hi, hlt]

/-- The word as a decoder of the given byte order reads it. -/
def orient (bytesReversed : Bool) (w : Word) : Word :=
  if bytesReversed then swapBytes16 w else w

/-- Swapping is its own inverse. -/
@[simp] theorem orient_orient (bytesReversed : Bool) (w : Word) :
    orient bytesReversed (orient bytesReversed w) = w := by
  cases bytesReversed
  · rfl
  · simp [orient, swapBytes16_eq]

theorem number_toBytes (bytesReversed : Bool) (w : Word) :
    number (w.toBytes bytesReversed) = (w.orient bytesReversed).toNat := by
  cases bytesReversed
  · show (0 * 2 ^ 8 + w.hi.toNat) * 2 ^ 8 + w.lo.toNat = w.toNat
    rw [← ofBytes_hi_lo w, toNat_ofBytes]
    simp
  · show (0 * 2 ^ 8 + w.lo.toNat) * 2 ^ 8 + w.hi.toNat = (swapBytes16 w).toNat
    rw [swapBytes16_eq, toNat_ofBytes]
    simp

@[simp] theorem length_toBytes (bytesReversed : Bool) (w : Word) :
    (w.toBytes bytesReversed).length = 2 := by
  cases bytesReversed <;> rfl

theorem toBytes_orient (bytesReversed : Bool) (w : Word) :
    (w.orient bytesReversed).toBytes false = w.toBytes bytesReversed := by
  cases bytesReversed
  · rfl
  · simp [orient, toBytes, swapBytes16_eq]

/-- A word in two's complement: bit 15 is worth `-2 ^ 15`. -/
theorem signedNumber_toBytes (bytesReversed : Bool) (w : Word) :
    signedNumber (w.toBytes bytesReversed) =
      (if (w.orient bytesReversed).toNat.testBit 15 then
        ((w.orient bytesReversed).toNat : Int) - 2 ^ 16
      else (w.orient bytesReversed).toNat : Int) := by
  have hlt : (w.orient bytesReversed).toNat < 2 ^ 16 := (w.orient bytesReversed).isLt
  rw [signedNumber, number_toBytes, length_toBytes, Nat.testBit_eq_decide_div_mod_eq, Int.bmod_def]
  simp only [decide_eq_true_eq]
  split <;> split <;> omega

end Word

/-! ## Words and bytes of the transport -/

/-- `_register_words_to_bytes`: the words in significance order, each in its byte order. -/
def registerWordsToBytes (order : WordOrder) (words : List Word) : List Byte :=
  (if order.wordReversed then words.reverse else words).flatMap (Word.toBytes order.bytesReversed)

/-- The words of consecutive byte pairs, `int.from_bytes(data[i:i + 2], byteorder=...)`. -/
def pairWords (bytesReversed : Bool) : List Byte → List Word
  | a :: b :: rest =>
    (if bytesReversed then Word.ofBytes b a else Word.ofBytes a b) :: pairWords bytesReversed rest
  | _ => []

/-- `_bytes_to_register_words`. -/
def bytesToRegisterWords (order : WordOrder) (data : List Byte) : Except PyError (List Word) :=
  if data.length % 2 ≠ 0 then .error .valueError
  else
    let words := pairWords order.bytesReversed data
    .ok (if order.wordReversed then words.reverse else words)

theorem length_flatMap_toBytes (bytesReversed : Bool) (words : List Word) :
    (words.flatMap (Word.toBytes bytesReversed)).length = 2 * words.length := by
  induction words with
  | nil => rfl
  | cons w words ih =>
    rw [List.flatMap_cons, List.length_append, ih, List.length_cons]
    cases bytesReversed <;> simp only [Word.toBytes] <;> simp <;> omega

@[simp] theorem length_registerWordsToBytes (order : WordOrder) (words : List Word) :
    (registerWordsToBytes order words).length = 2 * words.length := by
  rw [registerWordsToBytes, length_flatMap_toBytes]
  split <;> simp

theorem flatMap_pairWords (bytesReversed : Bool) (data : List Byte) (h : data.length % 2 = 0) :
    (pairWords bytesReversed data).flatMap (Word.toBytes bytesReversed) = data := by
  induction data using pairWords.induct with
  | case1 a b rest ih =>
    have hrest : rest.length % 2 = 0 := by
      simp only [List.length_cons] at h
      omega
    rw [pairWords, List.flatMap_cons, ih hrest]
    cases bytesReversed <;> simp [Word.toBytes]
  | case2 data hshort =>
    rcases data with _ | ⟨a, _ | ⟨b, rest⟩⟩
    · rfl
    · simp at h
    · exact absurd rfl (hshort a b rest)

theorem pairWords_flatMap (bytesReversed : Bool) (words : List Word) :
    pairWords bytesReversed (words.flatMap (Word.toBytes bytesReversed)) = words := by
  induction words with
  | nil => rfl
  | cons w words ih =>
    rw [List.flatMap_cons]
    cases bytesReversed
    · show Word.ofBytes w.hi w.lo :: pairWords false (words.flatMap (Word.toBytes false)) = _
      rw [ih, Word.ofBytes_hi_lo]
    · show Word.ofBytes w.hi w.lo :: pairWords true (words.flatMap (Word.toBytes true)) = _
      rw [ih, Word.ofBytes_hi_lo]

/-- Taking bytes apart into words and laying the words out again gives the bytes back. -/
theorem registerWordsToBytes_of_bytesToRegisterWords {order : WordOrder} {data : List Byte}
    {words : List Word} (h : bytesToRegisterWords order data = .ok words) :
    registerWordsToBytes order words = data := by
  unfold bytesToRegisterWords at h
  split at h
  · cases h
  · next heven =>
    injection h with h
    have heven : data.length % 2 = 0 := by omega
    rw [registerWordsToBytes, ← h]
    cases order.wordReversed
    · exact flatMap_pairWords _ data heven
    · simp [flatMap_pairWords _ data heven]

/-- Laying words out and taking the bytes apart gives the words back. -/
theorem bytesToRegisterWords_registerWordsToBytes (order : WordOrder) (words : List Word) :
    bytesToRegisterWords order (registerWordsToBytes order words) = .ok words := by
  rw [bytesToRegisterWords, if_neg (by simp), registerWordsToBytes]
  cases order.wordReversed
  · simp [pairWords_flatMap]
  · simp [pairWords_flatMap]

/-- An even number of bytes makes half as many words. -/
theorem bytesToRegisterWords_digits (order : WordOrder) (n v : Nat) :
    ∃ words, words.length = n ∧ bytesToRegisterWords order (digits 8 (2 * n) v) = .ok words := by
  have heven : (digits 8 (2 * n) v).length % 2 = 0 := by simp
  have hok : bytesToRegisterWords order (digits 8 (2 * n) v)
      = .ok (if order.wordReversed then (pairWords order.bytesReversed (digits 8 (2 * n) v)).reverse
        else pairWords order.bytesReversed (digits 8 (2 * n) v)) := by
    rw [bytesToRegisterWords, if_neg (by omega)]
  refine ⟨_, ?_, hok⟩
  have hbytes := congrArg List.length (registerWordsToBytes_of_bytesToRegisterWords hok)
  rw [length_registerWordsToBytes, length_digits] at hbytes
  omega

end ProtocolGateway
