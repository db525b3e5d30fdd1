import ProtocolGateway.ExactArithmetic
import ProtocolGateway.FlagWrites
import ProtocolGateway.DecodedRange

/-!
# Writing back what was read

A value that is shown for an integer entry and written back should leave the registers as they are.
What is shown went through the unit column, the `Offset` or `High_Low` adjustment and the `Context`
adjustment. The write path undoes the unit column only, so the number it encodes need not be the one
that was decoded. And the words it makes of the right number need not be the words of the device: a
single word is written without the byte order in which it was read, and a signed-magnitude field has
two zeros.

`writeBackKeeps_iff` says when nothing changes.
-/

namespace ProtocolGateway

open BigEndian BitField Outcomes ProtocolSettings

/-! ## Encoding integers -/

/-- The integer that is encoded for a value. -/
def encodedInt {V : Type} (ops : Arithmetic V) (e : RegistryMapEntry) (value : V) :
    Except PyError Int :=
  match e.dataType with
  | .ushort | .byte | .bit _ | .sBit _ | .smBit _ => ops.toInt value
  | .uint64 | .int64 => ops.toExactInt value
  | _ => ops.toFloatInt value

/-- The number in which the bits of an integer are put into a field. -/
def encodedField (e : RegistryMapEntry) (i : Int) : Nat × Nat :=
  match e.dataType with
  | .sBit n => (n.val, (i % 2 ^ n.val).toNat <<< e.startBit)
  | .smBit n =>
    (n.val, i.natAbs <<< (e.startBit + 1) ||| if i < 0 then 1 <<< e.startBit else 0)
  | t => (t.getSize.toNat, i.toNat <<< e.startBit)

/-- The words of an integer. -/
def integerWords (order : WordOrder) (raw : List Word) (e : RegistryMapEntry) (i : Int) :
    Except PyError (List Word) :=
  match e.dataType with
  | .ushort | .short => .ok [BitVec.ofInt 16 i]
  | .uint | .acc32 | .int => bytesToRegisterWords order (intToBytes 4 i)
  | .uint64 | .int64 => bytesToRegisterWords order (intToBytes 8 i)
  | _ => fieldWords order raw e.startBit (encodedField e i).1 (encodedField e i).2

section Encode

variable {V : Type} {ops : Arithmetic V} {order : WordOrder} {raw words : List Word}
  {e : RegistryMapEntry} {value : V}

theorem numberWords_eq_some_iff {size : Nat} {lo hi i : Int} :
    numberWords order size lo hi i = .ok (some words) ↔
      (lo ≤ i ∧ i ≤ hi) ∧ bytesToRegisterWords order (intToBytes size i) = .ok words := by
  unfold numberWords
  by_cases hrange : i < lo ∨ hi < i
  · rw [if_pos hrange]
    exact iff_of_false (fun h => by cases h) fun h => by omega
  · rw [if_neg hrange, map_eq_ok_iff, and_iff_right (by omega)]
    exact ⟨fun ⟨ws, hws, hsome⟩ => Option.some.inj hsome ▸ hws, fun h => ⟨words, h, rfl⟩⟩

/-- **Encoding an integer**: the words of the integer, if it is in the range of the type. -/
theorem registerValues_integer_iff (ht : IntegerValued e.dataType) :
    registerValues ops order raw e value = .ok (some words) ↔
      ∃ i, encodedInt ops e value = .ok i ∧
        (e.dataType.getDefaultRange.1 ≤ i ∧ i ≤ e.dataType.getDefaultRange.2) ∧
        integerWords order raw e i = .ok words := by
  have hcheck {x : Except PyError Int} {f : Int → Except PyError (Option (List Word))}
      {P : Int → Prop} {g : Int → Except PyError (List Word)}
      (h : ∀ i, f i = .ok (some words) ↔ P i ∧ g i = .ok words) :
      x >>= f = .ok (some words) ↔ ∃ i, x = .ok i ∧ P i ∧ g i = .ok words :=
    bind_eq_ok_iff.trans (exists_congr fun i => and_congr_right fun _ => h i)
  -- a number out of the range is refused, or raises
  have hkeep {bad : Prop} [Decidable bad] {x y : Except PyError (Option (List Word))}
      {P : Prop} {z : Except PyError (List Word)} (hbad : bad ↔ ¬P) (hx : x ≠ .ok (some words))
      (hy : y = .ok (some words) ↔ z = .ok words) :
      (if bad then x else y) = .ok (some words) ↔ P ∧ z = .ok words := by
    by_cases h : bad
    · rw [if_pos h]
      exact iff_of_false hx fun hP => hbad.mp h hP.1
    · rw [if_neg h, hy]
      exact (and_iff_right (not_not.mp (mt hbad.mpr h))).symm
  have hsome {z : Except PyError (List Word)} :
      (do return some (← z)) = (.ok (some words) : Except PyError (Option (List Word))) ↔
        z = .ok words := by
    cases z with
    | error err => exact iff_of_false (fun h => by cases h) fun h => by cases h
    | ok ws => exact ⟨fun h => congrArg _ (Option.some.inj (Except.ok.inj h)),
        fun h => congrArg _ (congrArg some (Except.ok.inj h))⟩
  unfold registerValues encodedInt integerWords encodedField
  revert ht
  cases e.dataType with
  | ushort =>
    refine fun _ => hcheck fun i => ?_
    dsimp only [DataType.getDefaultRange]
    exact hkeep (by omega) (fun h => by cases h) (hsome (z := Except.ok [BitVec.ofInt 16 i]))
  | short =>
    refine fun _ => hcheck fun i => ?_
    dsimp only [DataType.getDefaultRange]
    have hpush : (pure (if i < -32768 ∨ 32767 < i then none else some [BitVec.ofInt 16 i]) :
        Except PyError (Option (List Word))) =
          if i < -32768 ∨ 32767 < i then .ok none else .ok (some [BitVec.ofInt 16 i]) := by
      split <;> rfl
    rw [hpush]
    exact hkeep (by omega) (fun h => by cases h) (hsome (z := Except.ok [BitVec.ofInt 16 i]))
  | uint | acc32 | uint64 | int64 | int => exact fun _ => hcheck fun i => numberWords_eq_some_iff
  | byte =>
    refine fun _ => hcheck fun i => ?_
    dsimp only [DataType.getDefaultRange]
    have hones : ((ones DataType.byte.getSize.toNat : Nat) : Int) = 0xFF := rfl
    exact hkeep (by omega) (fun h => by cases h) hsome
  | bit n =>
    refine fun _ => hcheck fun i => ?_
    dsimp only [DataType.getDefaultRange]
    have hones : ((ones n.val : Nat) : Int) = 2 ^ n.val - 1 := by
      have hpos : 1 ≤ 2 ^ n.val := Nat.one_le_two_pow
      rw [ones_eq]
      push_cast [hpos]
      rfl
    have hsize : (DataType.bit n).getSize.toNat = n.val := Int.toNat_natCast _
    rw [hsize]
    exact hkeep (by omega) (fun h => by cases h) hsome
  | sBit n =>
    refine fun _ => hcheck fun i => ?_
    dsimp only [DataType.getDefaultRange]
    exact hkeep (by omega) (fun h => by cases h) hsome
  | smBit n =>
    refine fun _ => hcheck fun i => ?_
    dsimp only [DataType.getDefaultRange]
    have hpow : ((2 ^ (n.val - 1) : Nat) : Int) = 2 ^ (n.val - 1) := by push_cast; rfl
    have hpos : 1 ≤ 2 ^ (n.val - 1) := Nat.one_le_two_pow
    exact hkeep (by omega) (fun h => by cases h) hsome
  | _ => exact fun h => h.elim

end Encode

/-! ## When the words stay the same -/

/-- `n` words of a device. -/
def deviceWords (content : Int → Word) (start : Int) (n : Nat) : List Word :=
  (List.range n).map fun k : Nat => content (start + k)

/-- All registers of a device, as a registry. -/
def wholeRegistry (content : Int → Word) (a : Int) : Option Word := some (content a)

/-- Writing the integer gives the words of the device: it is the number that is decoded from them.
A single word is written without a byte order, and the zero of a signed magnitude without a sign. -/
def ProtocolSettings.Restores (ps : ProtocolSettings) (order : WordOrder) (content : Int → Word)
    (e : RegistryMapEntry) (i : Int) : Prop :=
  match e.dataType with
  | .ushort | .short => BitVec.ofInt 16 i = content e.register
  | .smBit _ => ps.decodeUshort order (wholeRegistry content) e = .ok (some (.int i)) ∧
      (i = 0 → ((content e.register).orient order.bytesReversed).toNat.testBit e.startBit = false)
  | _ => ps.decodeUshort order (wholeRegistry content) e = .ok (some (.int i))

section Same

variable {ps : ProtocolSettings} {order : WordOrder} {words : List Word} {e : RegistryMapEntry}
  {content : Int → Word} {i : Int} {n : Nat}

@[simp] theorem length_deviceWords (content : Int → Word) (start : Int) (n : Nat) :
    (deviceWords content start n).length = n := by
  rw [deviceWords, List.length_map, List.length_range]

theorem map_writtenRegisters (content : Int → Word) (e : RegistryMapEntry) :
    e.writtenRegisters.map content = deviceWords content e.register e.entryWordCount := by
  rw [RegistryMapEntry.writtenRegisters, List.map_map]
  rfl

theorem getD_deviceWords {start : Int} {k : Nat} (hk : k < n) (d : Word) :
    (deviceWords content start n).getD k d = content (start + k) := by
  rw [List.getD_eq_getElem _ _ (by simpa using hk)]
  unfold deviceWords
  rw [List.getElem_map, List.getElem_range]

/-- A request changes nothing exactly if it has the words of the device. -/
theorem apply_eq_self_iff {start : Int} :
    (WriteRequest.registers start words).apply content = content ↔
      words = deviceWords content start words.length := by
  constructor
  · intro h
    refine List.ext_getElem (by simp) fun k hk hk' => ?_
    have hword := congrFun h (start + k)
    change (if start ≤ start + (k : Int) then
      words.getD (start + (k : Int) - start).toNat _ else _) = _ at hword
    rw [if_pos (by omega), show (start + (k : Int) - start).toNat = k by omega,
      List.getD_eq_getElem _ _ hk] at hword
    rw [hword, ← List.getD_eq_getElem _ 0 hk', getD_deviceWords hk]
  · intro h
    funext a
    show (if start ≤ a then words.getD (a - start).toNat (content a) else content a) = content a
    split
    · next hle =>
      by_cases hlt : (a - start).toNat < words.length
      · have hword : words.getD (a - start).toNat (content a) = (deviceWords content start
            words.length).getD (a - start).toNat (content a) :=
          congrArg (fun ws : List Word => ws.getD (a - start).toNat (content a)) h
        rw [hword, getD_deviceWords hlt, show start + ((a - start).toNat : Int) = a by omega]
      · exact List.getD_eq_default _ _ (Nat.le_of_not_lt hlt)
    · rfl

/-- Words of a number are those of the device if the number is theirs. -/
theorem eq_deviceWords_iff {start : Int}
    (h : bytesToRegisterWords order (intToBytes (2 * n) i) = .ok words) :
    words.length = n ∧ (words = deviceWords content start n ↔
      (wordsNumber order (deviceWords content start n) : Int) = i % 2 ^ (16 * n)) := by
  have hbits : 8 * (2 * n) = 16 * n := by omega
  unfold intToBytes at h
  rw [hbits] at h
  obtain ⟨hlength, hnumber⟩ := wordsNumber_of_bytesToRegisterWords h
  have hpos : (0 : Int) < 2 ^ (16 * n) := Int.pow_pos (by decide)
  have hnonneg := Int.emod_nonneg i (Int.ne_of_gt hpos)
  have hlt := Int.emod_lt_of_pos i hpos
  have hcast : ((2 ^ (16 * n) : Nat) : Int) = 2 ^ (16 * n) := by push_cast; rfl
  have hvalue : wordsNumber order words = (i % 2 ^ (16 * n)).toNat := by
    rw [hnumber]
    exact Nat.mod_eq_of_lt (by omega)
  refine ⟨hlength, fun heq => ?_, fun heq => ?_⟩
  · rw [← heq, hvalue]
    omega
  · refine @wordsNumber_inj order _ _ ?_ ?_
    · rw [hlength, length_deviceWords]
    · rw [hvalue]
      omega

/-- The bytes of a plain entry. -/
theorem registerWordsToBytes_wholeRegistry (start : Int) (n : Nat) :
    ProtocolSettings.registerWordsToBytes (wholeRegistry content) start n order [] =
      some (ProtocolGateway.registerWordsToBytes order (deviceWords content start n)) := by
  unfold ProtocolSettings.registerWordsToBytes deviceWords wholeRegistry
  have hread (l : List Nat) : (l.mapM fun k : Nat =>
      some (content (([] : List Int).getD k (start + k)))) =
        some (l.map fun k : Nat => content (start + k)) := by
    induction l with
    | nil => rfl
    | cons k l ih =>
      rw [List.mapM_cons, ih]
      rfl
  rw [hread]
  rfl

/-- A field of a single word is that of the device if it holds the same bits. -/
theorem fieldWords_singleton_iff {w : Word} {width encoded : Nat}
    (h : fieldWords order [w] 0 width encoded = .ok words) :
    words.length = 1 ∧ (words = [w] ↔ field 0 width encoded =
      field 0 width (w.orient order.bytesReversed).toNat) := by
  have hvalue : wordsNumber order [w] = (w.orient order.bytesReversed).toNat := by
    rw [← Word.number_toBytes]
    unfold wordsNumber ProtocolGateway.registerWordsToBytes
    simp
  obtain ⟨hlength, hnumber⟩ := fieldWords_eq_ok_iff.mp h
  refine ⟨hlength, ?_⟩
  rw [← hvalue, ← @update_eq_self_iff (16 * [w].length) 0 width _ _ (wordsNumber_lt order [w]),
    ← hnumber]
  exact ⟨fun heq => by rw [heq], fun heq => wordsNumber_inj hlength heq⟩

theorem bmod_eq_iff {k v : Nat} {i : Int} (hv : v < 2 ^ (k + 1)) (hlo : -2 ^ k ≤ i)
    (hhi : i ≤ 2 ^ k - 1) : (v : Int) = i % 2 ^ (k + 1) ↔ Int.bmod v (2 ^ (k + 1)) = i := by
  have hpow : (2 : Int) ^ (k + 1) = 2 * 2 ^ k := by rw [Int.pow_succ, Int.mul_comm]
  have hcast : ((2 ^ (k + 1) : Nat) : Int) = 2 ^ (k + 1) := by push_cast; rfl
  have hpos : (0 : Int) < 2 ^ k := Int.pow_pos (by decide)
  rw [Int.bmod_eq_iff (Nat.two_pow_pos _), hcast]
  have hv' : (v : Int) = v % 2 ^ (k + 1) :=
    (Int.emod_eq_of_lt (Int.natCast_nonneg v) (by omega)).symm
  constructor
  · intro h
    refine ⟨by omega, by omega, Int.dvd_of_emod_eq_zero ?_⟩
    rw [← Int.emod_eq_emod_iff_emod_sub_eq_zero, ← hv', h]
  · rintro ⟨-, -, h⟩
    rw [hv']
    exact (Int.emod_eq_emod_iff_emod_sub_eq_zero.mpr (Int.emod_eq_zero_of_dvd h)).symm

section Decode

variable (hlist : e.registerList = [])

include hlist

/-- Unsigned numbers of several words. -/
theorem apply_unsigned_iff {m : Nat} (hdecode : ps.decodeUshort order (wholeRegistry content) e =
      .ok ((ProtocolSettings.registerWordsToBytes (wholeRegistry content) e.register m order
        e.registerList).map fun raw => .int (number raw)))
    (hlo : 0 ≤ i) (hhi : i ≤ 2 ^ (16 * m) - 1)
    (h : bytesToRegisterWords order (intToBytes (2 * m) i) = .ok words) :
    (WriteRequest.registers e.register words).apply content = content ↔
      ps.decodeUshort order (wholeRegistry content) e = .ok (some (.int i)) := by
  obtain ⟨hlength, hwords⟩ : words.length = m ∧ (words = deviceWords content e.register m ↔ _) :=
    eq_deviceWords_iff h
  rw [apply_eq_self_iff, hlength, hwords, hdecode, hlist, registerWordsToBytes_wholeRegistry,
    Int.emod_eq_of_lt hlo (by omega)]
  show _ ↔ Except.ok (some (PyValue.int (wordsNumber order _ : Nat))) = _
  simp

/-- Signed numbers of several words. -/
theorem apply_signed_iff {m : Nat} (hm : 0 < m)
    (hdecode : ps.decodeUshort order (wholeRegistry content) e =
      .ok ((ProtocolSettings.registerWordsToBytes (wholeRegistry content) e.register m order
        e.registerList).map fun raw => .int (signedNumber raw)))
    (hlo : -2 ^ (16 * m - 1) ≤ i) (hhi : i ≤ 2 ^ (16 * m - 1) - 1)
    (h : bytesToRegisterWords order (intToBytes (2 * m) i) = .ok words) :
    (WriteRequest.registers e.register words).apply content = content ↔
      ps.decodeUshort order (wholeRegistry content) e = .ok (some (.int i)) := by
  obtain ⟨hlength, hwords⟩ : words.length = m ∧ (words = deviceWords content e.register m ↔ _) :=
    eq_deviceWords_iff h
  obtain ⟨k, hk⟩ : ∃ k, 16 * m = k + 1 := ⟨16 * m - 1, by omega⟩
  have hlt := wordsNumber_lt order (deviceWords content e.register m)
  rw [length_deviceWords, hk] at hlt
  have hbytes : signedNumber (ProtocolGateway.registerWordsToBytes order
      (deviceWords content e.register m)) =
        Int.bmod (wordsNumber order (deviceWords content e.register m)) (2 ^ (k + 1)) := by
    unfold signedNumber
    rw [length_registerWordsToBytes, length_deviceWords, ← Nat.mul_assoc, ← hk]
    rfl
  rw [hk, Nat.add_sub_cancel] at hlo hhi
  rw [apply_eq_self_iff, hlength, hwords, hdecode, hlist, registerWordsToBytes_wholeRegistry, hk,
    bmod_eq_iff hlt hlo hhi]
  show _ ↔ Except.ok (some (PyValue.int (signedNumber _))) = _
  rw [hbytes]
  simp

end Decode

/-- A field of the entry's only word. -/
theorem apply_field_iff {width encoded : Nat}
    (h : fieldWords order [content e.register] 0 width encoded = .ok words) :
    (WriteRequest.registers e.register words).apply content = content ↔
      field 0 width encoded = field 0 width ((content e.register).orient order.bytesReversed).toNat := by
  obtain ⟨hlength, hwords⟩ := fieldWords_singleton_iff h
  have hdevice : deviceWords content e.register 1 = [content e.register] := by
    show [content (e.register + (0 : Nat))] = _
    rw [show e.register + ((0 : Nat) : Int) = e.register by omega]
  rw [apply_eq_self_iff, hlength, hdevice, hwords]

/-- The decoder's word. -/
theorem wordAt_wholeRegistry : (wordAt (wholeRegistry content) e.register).map
    (Word.orient order.bytesReversed) = .ok ((content e.register).orient order.bytesReversed) := rfl

theorem field_of_lt {width x : Nat} (h : x < 2 ^ width) : field 0 width x = x := by
  rw [field_eq, Nat.pow_zero, Nat.div_one, Nat.mod_eq_of_lt h]

theorem toNat_lo (w : Word) : w.lo.toNat = field 0 8 w.toNat := by
  rw [field_eq, Word.lo, BitVec.extractLsb'_toNat, Nat.shiftRight_zero, Nat.pow_zero, Nat.div_one]

/-- An unsigned field holds the number. -/
theorem field_unsigned_iff {width x : Nat} (hlo : 0 ≤ i) (hhi : i ≤ 2 ^ width - 1) :
    field 0 width (i.toNat <<< 0) = field 0 width x ↔ ((field 0 width x : Nat) : Int) = i := by
  have hcast : ((2 ^ width : Nat) : Int) = 2 ^ width := by push_cast; rfl
  rw [Nat.shiftLeft_zero, field_of_lt (by omega)]
  omega

/-- The highest bit of a number. -/
theorem testBit_last {k x : Nat} (hx : x < 2 ^ (k + 1)) : x.testBit k = decide (2 ^ k ≤ x) := by
  by_cases hle : 2 ^ k ≤ x
  · rw [decide_eq_true hle]
    exact Nat.testBit_of_two_pow_le_and_two_pow_add_one_gt hle hx
  · rw [decide_eq_false hle]
    exact Nat.testBit_lt_two_pow (Nat.lt_of_not_le hle)

/-- A field in two's complement holds the number. -/
theorem field_signed_iff {k x : Nat} (hlo : -2 ^ k ≤ i) (hhi : i ≤ 2 ^ k - 1) :
    field 0 (k + 1) ((i % 2 ^ (k + 1)).toNat <<< 0) = field 0 (k + 1) x ↔
      (if (field 0 (k + 1) x).testBit k then ((field 0 (k + 1) x : Nat) : Int) - 2 ^ (k + 1)
        else (field 0 (k + 1) x : Nat)) = i := by
  have hlt := field_lt 0 (k + 1) x
  generalize field 0 (k + 1) x = f at hlt
  have hpow : (2 : Int) ^ (k + 1) = 2 * 2 ^ k := by rw [Int.pow_succ, Int.mul_comm]
  have hcast : ((2 ^ (k + 1) : Nat) : Int) = 2 ^ (k + 1) := by push_cast; rfl
  have hcast' : ((2 ^ k : Nat) : Int) = 2 ^ k := by push_cast; rfl
  have hpos : (0 : Int) < 2 ^ k := Int.pow_pos (by decide)
  have hnonneg := Int.emod_nonneg i (by omega : (2 : Int) ^ (k + 1) ≠ 0)
  have hmod := Int.emod_lt_of_pos i (by omega : (0 : Int) < 2 ^ (k + 1))
  have hsplit := Int.emod_add_mul_ediv i (2 ^ (k + 1))
  have hcases : i % 2 ^ (k + 1) = if 0 ≤ i then i else i + 2 ^ (k + 1) := by
    split
    · exact Int.emod_eq_of_lt (by omega) (by omega)
    · rw [← Int.add_emod_right, Int.emod_eq_of_lt (by omega) (by omega)]
  rw [Nat.shiftLeft_zero, field_of_lt (by omega), testBit_last hlt]
  by_cases hf : 2 ^ k ≤ f
  · rw [if_pos (decide_eq_true hf)]
    split at hcases <;> omega
  · rw [if_neg (by simpa using hf)]
    split at hcases <;> omega

/-- A field with a sign and a magnitude holds the number, and zero without a sign. -/
theorem field_magnitude_iff {k x : Nat} (hlo : -(2 ^ k - 1) ≤ i) (hhi : i ≤ 2 ^ k - 1) :
    field 0 (k + 1) (i.natAbs <<< 1 ||| if i < 0 then 1 <<< 0 else 0) = field 0 (k + 1) x ↔
      (if x.testBit 0 then -((field 1 k x : Nat) : Int) else (field 1 k x : Nat)) = i ∧
        (i = 0 → x.testBit 0 = false) := by
  have hcast : ((2 ^ k : Nat) : Int) = 2 ^ k := by push_cast; rfl
  have hsplit : field 0 (k + 1) x = x % 2 + 2 * field 1 k x := by
    rw [field_eq, field_eq, Nat.pow_zero, Nat.div_one, Nat.pow_one, Nat.pow_succ, Nat.mul_comm,
      Nat.mod_mul]
  have hsign : (if i < 0 then 1 <<< 0 else 0) < 2 ^ 1 := by split <;> decide
  have hencoded : i.natAbs <<< 1 ||| (if i < 0 then 1 <<< 0 else 0) =
      2 * i.natAbs + if i < 0 then 1 else 0 := by
    rw [Nat.shiftLeft_eq, Nat.mul_comm, ← Nat.two_pow_add_eq_or_of_lt hsign]
    rfl
  have hpow : 2 ^ (k + 1) = 2 * 2 ^ k := by rw [Nat.pow_succ, Nat.mul_comm]
  rw [hencoded, hsplit, Nat.testBit_zero]
  clear hencoded hsign hsplit
  generalize field 1 k x = magnitude
  have hlt : 2 * i.natAbs + (if i < 0 then 1 else 0) < 2 ^ (k + 1) := by split <;> omega
  rw [field_of_lt hlt]
  clear hlt
  by_cases hneg : i < 0
  · rw [if_pos hneg]
    by_cases hodd : x % 2 = 1
    · rw [if_pos (decide_eq_true hodd), hodd]
      omega
    · rw [if_neg (by simpa using hodd)]
      omega
  · rw [if_neg hneg]
    by_cases hodd : x % 2 = 1
    · rw [if_pos (decide_eq_true hodd), decide_eq_true hodd]
      simp only [Bool.true_eq_false, imp_false]
      omega
    · rw [if_neg (by simpa using hodd), decide_eq_false hodd]
      simp only [implies_true, and_true]
      omega

/-- **Writing an integer changes nothing** exactly if it restores the words. -/
theorem apply_integerWords_iff (ht : IntegerValued e.dataType) (hlist : e.registerList = [])
    (hbit : e.registerBit < 0)
    (hone : e.dataType = .byte ∨ 200 < e.dataType.value → e.entryWordCount = 1)
    (hlo : e.dataType.getDefaultRange.1 ≤ i) (hhi : i ≤ e.dataType.getDefaultRange.2)
    (h : integerWords order (e.writtenRegisters.map content) e i = .ok words) :
    (WriteRequest.registers e.register words).apply content = content ↔
      ps.Restores order content e i := by
  have hstart : e.startBit = 0 := Int.toNat_of_nonpos (Int.le_of_lt hbit)
  have hraw (h : e.entryWordCount = 1) : e.writtenRegisters.map content = [content e.register] := by
    rw [map_writtenRegisters, h]
    show [content (e.register + (0 : Nat))] = _
    rw [show e.register + ((0 : Nat) : Int) = e.register by omega]
  have hsingle {w : Word} (h : Except.ok [w] = (Except.ok words : Except PyError (List Word))) :
      (WriteRequest.registers e.register words).apply content = content ↔
        w = content e.register := by
    rw [← Except.ok.inj h, apply_eq_self_iff]
    show [w] = [content (e.register + (0 : Nat))] ↔ _
    rw [show e.register + ((0 : Nat) : Int) = e.register by omega]
    simp
  have htype : ∀ t, e.dataType = t → ps.decodeUshort order (wholeRegistry content) e =
      ps.decodeUshort order (wholeRegistry content) { e with dataType := t } := by
    rintro _ rfl
    rfl
  -- the decoder of a field looks at the one word of the entry
  have hword {value : Int} (hvalue : ps.decodeUshort order (wholeRegistry content) e =
      .ok (some (.int value))) {width encoded : Nat} (hcount : e.entryWordCount = 1)
      (h : fieldWords order (e.writtenRegisters.map content) e.startBit width encoded = .ok words)
      (hsame : field 0 width encoded =
        field 0 width ((content e.register).orient order.bytesReversed).toNat ↔ value = i) :
      (WriteRequest.registers e.register words).apply content = content ↔
        ps.decodeUshort order (wholeRegistry content) e = .ok (some (.int i)) := by
    rw [hraw hcount, hstart] at h
    rw [apply_field_iff h, hsame, hvalue]
    simp
  unfold Restores
  unfold integerWords at h
  cases hdata : e.dataType with
  | ushort | short =>
    rw [hdata] at h
    exact hsingle h
  | uint | acc32 =>
    rw [hdata] at h hlo hhi
    refine apply_unsigned_iff (m := 2) hlist ?_ hlo hhi h
    rw [htype _ hdata]
    rfl
  | uint64 =>
    rw [hdata] at h hlo hhi
    refine apply_unsigned_iff (m := 4) hlist ?_ hlo hhi h
    rw [htype _ hdata]
    rfl
  | int =>
    rw [hdata] at h hlo hhi
    refine apply_signed_iff (m := 2) hlist (by decide) ?_ hlo hhi h
    rw [htype _ hdata]
    rfl
  | int64 =>
    rw [hdata] at h hlo hhi
    refine apply_signed_iff (m := 4) hlist (by decide) ?_ hlo hhi h
    rw [htype _ hdata]
    rfl
  | byte =>
    rw [hdata] at h hlo hhi
    unfold encodedField at h
    rw [hdata, hstart] at h
    have hvalue : ps.decodeUshort order (wholeRegistry content) e = .ok (some (.int
        ((content e.register).orient order.bytesReversed).lo.toNat)) := by
      rw [htype _ hdata]
      rfl
    rw [toNat_lo] at hvalue
    exact hword hvalue (hone (.inl hdata)) (hstart ▸ h) (field_unsigned_iff hlo hhi)
  | bit n =>
    have hwide := DataType.two_hundred_lt_value.mpr (.inl ⟨n, hdata⟩)
    rw [hdata] at h hlo hhi
    unfold encodedField at h
    rw [hdata, hstart] at h
    have hvalue : ps.decodeUshort order (wholeRegistry content) e = .ok (some (.int
        (field e.startBit n.val ((content e.register).orient order.bytesReversed).toNat))) := by
      rw [htype _ hdata]
      rfl
    rw [hstart] at hvalue
    exact hword hvalue (hone (.inr hwide)) (hstart ▸ h) (field_unsigned_iff hlo hhi)
  | sBit n =>
    have hwide := DataType.two_hundred_lt_value.mpr (.inr (.inl ⟨n, hdata⟩))
    obtain ⟨k, hk⟩ : ∃ k, n.val = k + 1 := ⟨n.val - 1, by have := n.property; omega⟩
    rw [hdata] at h hlo hhi
    unfold encodedField at h
    rw [hdata, hstart] at h
    have hvalue : ps.decodeUshort order (wholeRegistry content) e = .ok (some (.int
        (if (field e.startBit n.val ((content e.register).orient
            order.bytesReversed).toNat).testBit (n.val - 1) then
          ((field e.startBit n.val ((content e.register).orient order.bytesReversed).toNat : Nat) :
            Int) - 2 ^ n.val
        else (field e.startBit n.val ((content e.register).orient
          order.bytesReversed).toNat : Nat)))) := by
      rw [htype _ hdata]
      rfl
    dsimp only [DataType.getDefaultRange] at hlo hhi
    rw [hk, Nat.add_sub_cancel] at hlo hhi
    rw [hstart, hk, Nat.add_sub_cancel] at hvalue
    dsimp only at h
    rw [hk] at h
    exact hword hvalue (hone (.inr hwide)) (hstart ▸ h) (field_signed_iff hlo hhi)
  | smBit n =>
    have hwide := DataType.two_hundred_lt_value.mpr (.inr (.inr ⟨n, hdata⟩))
    obtain ⟨k, hk⟩ : ∃ k, n.val = k + 1 := ⟨n.val - 1, by have := n.property; omega⟩
    rw [hdata] at h hlo hhi
    unfold encodedField at h
    rw [hdata, hstart] at h
    have hvalue : ps.decodeUshort order (wholeRegistry content) e = .ok (some (.int
        (if ((content e.register).orient order.bytesReversed).toNat.testBit e.startBit then
          -((field (e.startBit + 1) (n.val - 1) ((content e.register).orient
            order.bytesReversed).toNat : Nat) : Int)
        else (field (e.startBit + 1) (n.val - 1) ((content e.register).orient
          order.bytesReversed).toNat : Nat)))) := by
      rw [htype _ hdata]
      rfl
    dsimp only [DataType.getDefaultRange] at hlo hhi
    rw [hk, Nat.add_sub_cancel] at hlo hhi
    rw [hstart, hk, Nat.add_sub_cancel] at hvalue
    dsimp only at h
    rw [hk, hraw (hone (.inr hwide))] at h
    rw [apply_field_iff h, hvalue, hstart]
    refine (field_magnitude_iff hlo hhi).trans (and_congr_left fun _ => ?_)
    simp
  | _ => rw [hdata] at ht; exact ht.elim

end Same

/-! ## What is shown and written back -/

namespace ProtocolSettings

section Shown

variable (ps : ProtocolSettings) (x : ExactHost) (mode : TransportWriteMode)
  (members : Dict Int PyValue) (siblings : List (String × ExactValue)) (content : Int → Word)
  (e : RegistryMapEntry)

/-- The number that is encoded for a value after the code table: the unit column is undone by a
division, with rounding, and a number without one is cut. -/
def writtenNumber (value : ExactValue) : Except PyError (Option Int) := do
  match ← applyUnitMod (ps.exactArithmetic x) e value with
  | none => return none
  | some scaled => return some (← encodedInt (ps.exactArithmetic x) e scaled)

/-- Writing the value that is shown for the entry either does not happen or leaves every register as
it is, whatever part of the registers the read-back collects. -/
def WriteBackKeeps : Prop :=
  ∀ value, ps.showExact x (wholeRegistry content) members siblings e = .ok (some value) →
    ∀ registry : Int → Option Word, (∀ a w, registry a = some w → content a = w) → ∀ request,
      ps.writeVariable (ps.exactArithmetic x) mode .holding registry e value = .ok (some request) →
        request.apply content = content

/-- If the shown value and the one that the entry has without its neighbours pass, then the number
that is encoded restores the registers. -/
def WriteBackRestores : Prop :=
  ∀ value current looked i,
    ps.showExact x (wholeRegistry content) members siblings e = .ok (some value) →
    ps.showExact x (wholeRegistry content) Dict.empty [] e = .ok (some current) →
    ps.lookUpCodes (ps.exactArithmetic x) e (writtenValue (ps.exactArithmetic x) value)
      (x.text current) = .ok looked →
    ps.accepted (ps.exactArithmetic x) mode e looked.1 looked.2 = .ok true →
    ps.writtenNumber x e looked.1 = .ok (some i) →
    e.dataType.getDefaultRange.1 ≤ i → i ≤ e.dataType.getDefaultRange.2 →
      ps.Restores (e.getEntryByteorder ps.defaultWordOrder) content e i

end Shown

variable {ps : ProtocolSettings} {x : ExactHost} {mode : TransportWriteMode}
  {members : Dict Int PyValue} {siblings : List (String × ExactValue)} {content : Int → Word} {e : RegistryMapEntry}
  {order : WordOrder} {registry : Int → Option Word}

/-- What is decoded from a part of the registers is decoded from all of them. -/
theorem decodeUshort_wholeRegistry (ht : IntegerValued e.dataType)
    (hregistry : ∀ a w, registry a = some w → content a = w) {value : PyValue}
    (h : ps.decodeUshort order registry e = .ok (some value)) :
    ps.decodeUshort order (wholeRegistry content) e = .ok (some value) := by
  have hbytes (n : Nat) {f : List Byte → PyValue}
      (h : Except.ok ((registerWordsToBytes registry e.register n order e.registerList).map f) =
        (Except.ok (some value) : Except PyError (Option PyValue))) :
      Except.ok ((registerWordsToBytes (wholeRegistry content) e.register n order
        e.registerList).map f) = (Except.ok (some value) : Except PyError (Option PyValue)) := by
    have hread (registry : Int → Option Word) :
        registerWordsToBytes registry e.register n order e.registerList =
          (((List.range n).map fun k : Nat => e.registerList.getD k (e.register + k)).mapM
            registry).map (ProtocolGateway.registerWordsToBytes order) := by
      rw [List.mapM_map]
      rfl
    rw [hread] at h ⊢
    cases hwords : ((List.range n).map fun k : Nat =>
        e.registerList.getD k (e.register + k)).mapM registry with
    | none =>
      rw [hwords] at h
      cases h
    | some words =>
      obtain ⟨-, rfl⟩ := (mapM_registry_eq_some_iff hregistry _).mp hwords
      have hwhole : ∀ a w, wholeRegistry content a = some w → content a = w :=
        fun _ _ hw => Option.some.inj hw
      rw [hwords] at h
      rw [(mapM_registry_eq_some_iff hwhole _).mpr ⟨fun _ _ => Option.some_ne_none _, rfl⟩]
      exact h
  have hword {f : Word → Option PyValue}
      (h : ((wordAt registry e.register).map (Word.orient order.bytesReversed)).map f =
        .ok (some value)) :
      ((wordAt (wholeRegistry content) e.register).map (Word.orient order.bytesReversed)).map f =
        .ok (some value) := by
    unfold wordAt at h
    cases hread : registry e.register with
    | none =>
      rw [hread] at h
      cases h
    | some w =>
      rw [hread, ← hregistry _ _ hread] at h
      exact h
  unfold decodeUshort at h ⊢
  revert ht h
  cases e.dataType with
  | uint | acc32 | int => exact fun _ => hbytes 2
  | uint64 | int64 => exact fun _ => hbytes 4
  | ushort | short | byte | bit _ | sBit _ | smBit _ => exact fun _ => hword
  | _ => exact fun ht => ht.elim

/-- An integer entry is decoded to an integer. -/
theorem decodeUshort_integer (ht : IntegerValued e.dataType) {value : PyValue}
    (h : ps.decodeUshort order registry e = .ok (some value)) : ∃ i, value = .int i := by
  have hbytes {raw : Option (List Byte)} {f : List Byte → Int}
      (h : Except.ok (raw.map fun raw => PyValue.int (f raw)) =
        (Except.ok (some value) : Except PyError (Option PyValue))) : ∃ i, value = .int i := by
    cases raw with
    | none => cases h
    | some raw => exact ⟨f raw, (Option.some.inj (Except.ok.inj h)).symm⟩
  have hword {w : Except PyError Word} {f : Word → Int}
      (h : w.map (fun w => some (PyValue.int (f w))) = .ok (some value)) : ∃ i, value = .int i := by
    obtain ⟨w, -, h⟩ := map_eq_ok_iff.mp h
    exact ⟨f w, (Option.some.inj h).symm⟩
  unfold decodeUshort at h
  revert ht h
  cases e.dataType with
  | uint | acc32 | int | uint64 | int64 => exact fun _ => hbytes
  | ushort | short | byte | bit _ | sBit _ | smBit _ => exact fun _ => hword
  | _ => exact fun ht => ht.elim

/-- What is shown with a part of the registers is shown with all of them. -/
theorem showExact_wholeRegistry (ht : IntegerValued e.dataType)
    (hregistry : ∀ a w, registry a = some w → content a = w) {value : ExactValue}
    (h : ps.showExact x registry members siblings e = .ok (some value)) :
    ps.showExact x (wholeRegistry content) members siblings e = .ok (some value) := by
  have hdecode {value : ExactValue} (h : ps.decodeExact x registry e = .ok (some value)) :
      ps.decodeExact x (wholeRegistry content) e = .ok (some value) := by
    unfold decodeExact at h ⊢
    rw [if_neg (show wholeRegistry content e.register ≠ none from Option.some_ne_none _)]
    split at h
    · cases h
    · obtain ⟨decoded, hdecoded, h⟩ := bind_eq_ok_iff.mp h
      cases decoded with
      | none => cases h
      | some decoded =>
        exact bind_eq_ok_iff.mpr ⟨_, decodeUshort_wholeRegistry ht hregistry hdecoded, h⟩
  unfold showExact at h ⊢
  split at h
  · cases h
  · next hsource =>
    rw [if_neg hsource]
    obtain ⟨decoded, hdecoded, h⟩ := bind_eq_ok_iff.mp h
    cases decoded with
    | none => cases h
    | some decoded => exact bind_eq_ok_iff.mpr ⟨_, hdecode hdecoded, h⟩

/-- An entry that is shown alone is no range of several registers. -/
theorem entryWordCount_of_showExact (hlist : e.registerList = [])
    (htype : e.dataType = .byte ∨ 200 < e.dataType.value) {value : ExactValue}
    (h : ps.showExact x registry Dict.empty siblings e = .ok (some value)) :
    e.entryWordCount = 1 := by
  have hwords : RegistryMapEntry.wordCounts e.dataType = 1 := by
    rcases htype with h | h
    · rw [h]
      rfl
    · rcases DataType.two_hundred_lt_value.mp h with ⟨n, h⟩ | ⟨n, h⟩ | ⟨n, h⟩ <;> rw [h] <;> rfl
  have hstring : ¬((e.dataType = .string ∨ e.dataType = .ascii) ∧ 0 < e.dataTypeSize) := by
    rintro ⟨h | h, -⟩ <;> rw [h] at htype <;> revert htype <;> decide
  unfold RegistryMapEntry.entryWordCount
  rw [if_neg (not_not.mpr hlist), if_neg hstring]
  split
  swap
  · exact hwords
  · next hrange =>
    unfold showExact at h
    split at h
    · cases h
    · obtain ⟨decoded, -, h⟩ := bind_eq_ok_iff.mp h
      cases decoded with
      | none => cases h
      | some decoded =>
        dsimp only at h
        rw [if_pos hrange.1] at h
        obtain ⟨filed, hfiled, h⟩ := bind_eq_ok_iff.mp h
        obtain ⟨joined, hjoined, -⟩ := Option.map_eq_some_iff.mp (Except.ok.inj h)
        have hle := length_range_of_alone hrange.1 hfiled hjoined
        have hpos := List.length_pos_iff.mpr hrange.2
        omega

theorem writtenNumber_eq_some_iff {value : ExactValue} {i : Int} :
    ps.writtenNumber x e value = .ok (some i) ↔ ∃ scaled,
      applyUnitMod (ps.exactArithmetic x) e value = .ok (some scaled) ∧
        encodedInt (ps.exactArithmetic x) e scaled = .ok i := by
  unfold writtenNumber
  rw [bind_eq_ok_iff]
  constructor
  · rintro ⟨scaled, hscaled, h⟩
    cases scaled with
    | none => cases h
    | some scaled =>
      obtain ⟨j, hj, h⟩ := bind_eq_ok_iff.mp h
      rw [← Option.some.inj (Except.ok.inj h)]
      exact ⟨scaled, hscaled, hj⟩
  · rintro ⟨scaled, hscaled, hi⟩
    exact ⟨some scaled, hscaled, bind_eq_ok_iff.mpr ⟨i, hi, rfl⟩⟩

/-- A number in the range of its type has words. -/
theorem exists_integerWords {raw : List Word} {i : Int} (ht : IntegerValued e.dataType)
    (hbit : e.registerBit < 0) (hone : e.dataType = .byte ∨ 200 < e.dataType.value → raw.length = 1) :
    ∃ words, integerWords order raw e i = .ok words ∧ words ≠ [] := by
  have hbytes (n : Nat) : ∃ words,
      bytesToRegisterWords order (intToBytes (2 * (n + 1)) i) = .ok words ∧ words ≠ [] := by
    obtain ⟨words, hlength, hwords⟩ := bytesToRegisterWords_digits order (n + 1)
      (i % 2 ^ (8 * (2 * (n + 1)))).toNat
    exact ⟨words, hwords, List.ne_nil_of_length_pos (by omega)⟩
  have hfield {width encoded : Nat} (htype : e.dataType = .byte ∨ 200 < e.dataType.value)
      (hwidth : width ≤ 16) : ∃ words,
        fieldWords order raw e.startBit width encoded = .ok words ∧ words ≠ [] := by
    have hstart : e.startBit = 0 := Int.toNat_of_nonpos (Int.le_of_lt hbit)
    have hlength := hone htype
    obtain ⟨words, hwords⟩ : ∃ words, fieldWords order raw e.startBit width encoded = .ok words :=
      fieldWords_of_fits (by omega)
    have hsame := (fieldWords_eq_ok_iff.mp hwords).1
    exact ⟨words, hwords, List.ne_nil_of_length_pos (by omega)⟩
  unfold integerWords encodedField
  cases hdata : e.dataType with
  | ushort | short => exact ⟨_, rfl, List.cons_ne_nil _ _⟩
  | uint | acc32 | int => exact hbytes 1
  | uint64 | int64 => exact hbytes 3
  | byte => exact hfield (.inl hdata) (show 8 ≤ 16 by decide)
  | bit n =>
    exact hfield (.inr (DataType.two_hundred_lt_value.mpr (.inl ⟨n, hdata⟩))) (by
      have := n.property
      simp only [DataType.getSize]
      omega)
  | sBit n =>
    exact hfield (.inr (DataType.two_hundred_lt_value.mpr (.inr (.inl ⟨n, hdata⟩)))) (by
      have := n.property
      dsimp only
      omega)
  | smBit n =>
    exact hfield (.inr (DataType.two_hundred_lt_value.mpr (.inr (.inr ⟨n, hdata⟩)))) (by
      have := n.property
      dsimp only
      omega)
  | _ => rw [hdata] at ht; exact ht.elim

/-- The number that is encoded for a number. -/
def unscaledNumber (x : ExactHost) (e : RegistryMapEntry) (a : Rat) : Int :=
  if x.unitMod e = 1 then truncateRat a else roundRat (a / x.unitMod e)

theorem encodedInt_num (q : Rat) :
    encodedInt (ps.exactArithmetic x) e (.num q) = .ok (truncateRat q) := by
  unfold encodedInt
  split <;> rfl

theorem writtenNumber_num (hunit : x.unitMod e ≠ 0) (a : Rat) :
    ps.writtenNumber x e (.num a) = .ok (some (unscaledNumber x e a)) := by
  refine writtenNumber_eq_some_iff.mpr ?_
  unfold unscaledNumber applyUnitMod
  by_cases hone : x.unitMod e = 1
  · have hscaled : ¬(ps.exactArithmetic x).scaled e = true := by
      simpa [exactArithmetic] using hone
    rw [if_pos hone, if_neg hscaled]
    exact ⟨_, rfl, encodedInt_num a⟩
  · have hscaled : (ps.exactArithmetic x).scaled e = true := by
      simpa [exactArithmetic] using hone
    have hunscale : (ps.exactArithmetic x).unscale e (.num a) =
        .ok (roundRat (a / x.unitMod e)) := if_neg hunit
    rw [if_neg hone, if_pos hscaled, hunscale]
    exact ⟨.num (roundRat (a / x.unitMod e) : Int), rfl,
      (encodedInt_num _).trans (congrArg Except.ok (truncateRat_intCast _))⟩

/-- An entry that is no range shows a number. -/
theorem showExact_eq_some_iff (ht : IntegerValued e.dataType) (hbit : e.registerBit < 0)
    (hsingle : e.concatenate = false) {value : ExactValue} :
    ps.showExact x (wholeRegistry content) members siblings e = .ok (some value) ↔
      e.descriptionSource = "" ∧ ∃ i,
        ps.decodeUshort (e.getEntryByteorder ps.defaultWordOrder) (wholeRegistry content) e =
            .ok (some (.int i)) ∧
          x.applyContext e (.num (x.applyPostDecode e i))
            ((e.variableName, .num (x.applyPostDecode e i)) :: siblings) = .ok value := by
  have hcut : ¬(0 ≤ e.registerBit ∧ ¬decodedValueAlreadyHonorsBitOffset e = true) :=
    fun h => absurd h.1 (by omega)
  unfold showExact decodeExact
  by_cases hsource : e.descriptionSource = ""
  swap
  · rw [if_pos hsource]
    exact iff_of_false (fun h => by cases h) fun h => hsource h.1
  rw [if_neg (not_not.mpr hsource), and_iff_right hsource,
    if_neg (show wholeRegistry content e.register ≠ none from Option.some_ne_none _), hsingle]
  simp only [Bool.false_eq_true, if_false, if_neg hcut]
  generalize horder : e.getEntryByteorder ps.defaultWordOrder = order
  cases hdecode : ps.decodeUshort order (wholeRegistry content) e with
  | error err =>
    refine iff_of_false (fun h => by cases h) ?_
    rintro ⟨i, h, -⟩
    cases h
  | ok decoded =>
    cases decoded with
    | none =>
      refine iff_of_false (fun h => by cases h) ?_
      rintro ⟨i, h, -⟩
      cases h
    | some decoded =>
      obtain ⟨i, rfl⟩ := decodeUshort_integer ht hdecode
      change (x.applyContext e (.num (x.applyPostDecode e i))
        ((e.variableName, .num (x.applyPostDecode e i)) :: siblings) >>=
          fun shown => .ok (some shown)) = .ok (some value) ↔ _
      constructor
      · intro h
        obtain ⟨shown, hshown, h⟩ := bind_eq_ok_iff.mp h
        exact ⟨i, rfl, Option.some.inj (Except.ok.inj h) ▸ hshown⟩
      · rintro ⟨j, hj, hvalue⟩
        obtain rfl := PyValue.int.inj (Option.some.inj (Except.ok.inj hj))
        exact bind_eq_ok_iff.mpr ⟨value, hvalue, rfl⟩

/-- The context stage makes a number of a number. -/
theorem applyContext_num {q : Rat} {info : List (String × ExactValue)} {value : ExactValue}
    (h : x.applyContext e (.num q) info = .ok value) : ∃ a, value = .num a := by
  unfold ExactHost.applyContext at h
  split at h
  · dsimp only at h
    split at h
    · exact ⟨_, (Except.ok.inj h).symm⟩
    · split at h
      · exact ⟨_, (Except.ok.inj h).symm⟩
      · obtain ⟨formula, -, h⟩ := bind_eq_ok_iff.mp h
        exact ⟨_, (Except.ok.inj h).symm⟩
  · exact ⟨_, (Except.ok.inj h).symm⟩

/-- **For an entry that is no range**, the number that is shown decides: divided by the factor and
rounded, or cut if there is none, it has to restore the registers. -/
theorem writeBackRestores_iff_number (ht : IntegerValued e.dataType) (hbit : e.registerBit < 0)
    (hsingle : e.concatenate = false) (hunit : x.unitMod e ≠ 0) :
    ps.WriteBackRestores x mode members siblings content e ↔
      ∀ a current, ps.showExact x (wholeRegistry content) members siblings e =
          .ok (some (.num a)) →
        ps.showExact x (wholeRegistry content) Dict.empty [] e = .ok (some current) →
        ps.accepted (ps.exactArithmetic x) mode e (.num a) (x.text current) = .ok true →
        e.dataType.getDefaultRange.1 ≤ unscaledNumber x e a →
        unscaledNumber x e a ≤ e.dataType.getDefaultRange.2 →
          ps.Restores (e.getEntryByteorder ps.defaultWordOrder) content e
            (unscaledNumber x e a) := by
  constructor
  · intro h a current hvalue hcurrent haccepted hlo hhi
    exact h (.num a) current (.num a, x.text current) _ hvalue hcurrent rfl haccepted
      (writtenNumber_num hunit a) hlo hhi
  · intro h value current looked i hvalue hcurrent hlooked haccepted hwritten hlo hhi
    obtain ⟨-, r, -, hcontext⟩ := (showExact_eq_some_iff ht hbit hsingle).mp hvalue
    obtain ⟨a, rfl⟩ := applyContext_num hcontext
    obtain rfl : (.num a, x.text current) = looked := Except.ok.inj hlooked
    rw [writtenNumber_num hunit] at hwritten
    obtain rfl := Option.some.inj (Except.ok.inj hwritten)
    exact h a current hvalue hcurrent haccepted hlo hhi

/-- An entry without a `Context` adjustment shows the number of the stage before. -/
theorem showExact_of_noContext (ht : IntegerValued e.dataType) (hbit : e.registerBit < 0)
    (hsingle : e.concatenate = false) (hcontext : e.getAdjustment "Context" = none)
    {value : ExactValue}
    (h : ps.showExact x (wholeRegistry content) members siblings e = .ok (some value)) :
    ∃ i, ps.decodeUshort (e.getEntryByteorder ps.defaultWordOrder) (wholeRegistry content) e =
        .ok (some (.int i)) ∧ value = .num (x.applyPostDecode e i) := by
  obtain ⟨-, i, hdecode, hvalue⟩ := (showExact_eq_some_iff ht hbit hsingle).mp h
  unfold ExactHost.applyContext at hvalue
  rw [hcontext] at hvalue
  exact ⟨i, hdecode, (Except.ok.inj hvalue).symm⟩

/-- Without an adjustment the unit column is undone. -/
theorem unscaledNumber_applyPostDecode (hunit : x.unitMod e ≠ 0)
    (hrange : e.adjustment "High_Low" = none) (hoffset : e.adjustment "Offset" = none) (i : Int) :
    unscaledNumber x e (x.applyPostDecode e i) = i := by
  unfold unscaledNumber ExactHost.applyPostDecode
  rw [hrange, hoffset]
  by_cases hone : x.unitMod e = 1
  · simp [hone]
  · simp only [if_neg hone, if_pos hone, Option.bind_none]
    rw [mul_div_assoc, div_self hunit, mul_one, roundRat_intCast]

/-- The number that is decoded restores the registers, but for the byte order of a single word and
the sign of a zero. -/
theorem restores_of_decodeUshort {i : Int}
    (hwords : e.dataType = .ushort ∨ e.dataType = .short → order.bytesReversed = false)
    (hzero : ∀ n, e.dataType = .smBit n → i = 0 →
      ((content e.register).orient order.bytesReversed).toNat.testBit e.startBit = false)
    (h : ps.decodeUshort order (wholeRegistry content) e = .ok (some (.int i))) :
    ps.Restores order content e i := by
  have htype : ∀ t, e.dataType = t → ps.decodeUshort order (wholeRegistry content) e =
      ps.decodeUshort order (wholeRegistry content) { e with dataType := t } := by
    rintro _ rfl
    rfl
  have hplain (hreversed : order.bytesReversed = false) :
      (content e.register).orient order.bytesReversed = content e.register := by
    rw [hreversed]
    rfl
  unfold Restores
  cases hdata : e.dataType with
  | ushort =>
    have hvalue : ps.decodeUshort order (wholeRegistry content) e = .ok (some (.int
        ((content e.register).orient order.bytesReversed).toNat)) := by
      rw [htype _ hdata]
      rfl
    obtain rfl := PyValue.int.inj (Option.some.inj (Except.ok.inj (h.symm.trans hvalue)))
    rw [hplain (hwords (.inl hdata))]
    exact BitVec.ofInt_natCast _ _ ▸ BitVec.ofNat_toNat _ _
  | short =>
    have hvalue : ps.decodeUshort order (wholeRegistry content) e = .ok (some (.int
        (if ((content e.register).orient order.bytesReversed).toNat.testBit 15 then
          (((content e.register).orient order.bytesReversed).toNat : Int) - 2 ^ 16
        else ((content e.register).orient order.bytesReversed).toNat))) := by
      rw [htype _ hdata]
      rfl
    obtain rfl := PyValue.int.inj (Option.some.inj (Except.ok.inj (h.symm.trans hvalue)))
    rw [hplain (hwords (.inr hdata))]
    refine BitVec.eq_of_toNat_eq ?_
    have hlt := (content e.register).isLt
    rw [BitVec.toNat_ofInt]
    split <;> omega
  | smBit n => exact ⟨h, hzero n hdata⟩
  | _ => exact h

/-- **Without adjustments nothing changes**, but for the byte order of a single word and the sign of
a zero. -/
theorem writeBackRestores_of_unadjusted (ht : IntegerValued e.dataType) (hbit : e.registerBit < 0)
    (hsingle : e.concatenate = false) (hunit : x.unitMod e ≠ 0)
    (hrange : e.adjustment "High_Low" = none) (hoffset : e.adjustment "Offset" = none)
    (hcontext : e.getAdjustment "Context" = none)
    (hwords : e.dataType = .ushort ∨ e.dataType = .short →
      (e.getEntryByteorder ps.defaultWordOrder).bytesReversed = false)
    (hzero : ∀ n, e.dataType = .smBit n → ((content e.register).orient
      (e.getEntryByteorder ps.defaultWordOrder).bytesReversed).toNat.testBit e.startBit = false) :
    ps.WriteBackRestores x mode members siblings content e := by
  intro value current looked i hvalue hcurrent hlooked haccepted hwritten hlo hhi
  obtain ⟨r, hdecode, rfl⟩ := showExact_of_noContext ht hbit hsingle hcontext hvalue
  obtain rfl : (.num (x.applyPostDecode e r), x.text current) = looked := Except.ok.inj hlooked
  rw [writtenNumber_num hunit, unscaledNumber_applyPostDecode hunit hrange hoffset] at hwritten
  obtain rfl := Option.some.inj (Except.ok.inj hwritten)
  exact restores_of_decodeUshort hwords (fun n hn _ => hzero n hn) hdecode

/-- A counter of one word. -/
def counter : RegistryMapEntry :=
  ({ cell := "40", variableName := "counter", dataType := .ushort, writeMode := .write } :
    Row).entry .holding { register := 40, registerByte := 0 } 0

/-- A set point that is shown five degrees higher than it is stored. -/
def setPoint : RegistryMapEntry :=
  { counter with variableName := "set_point", adjustments := [("Offset", .int 5)] }

/-- Texts of whole numbers, and the factor one. -/
def wholeHost : ExactHost where
  host := integerHost
  formulas := ⟨fun _ => "", fun _ _ => none⟩
  ratOfText := fun s => (Text.pyInt s.toList).map fun i => i
  ratOfFloat := fun _ => 1
  floatOfRat := fun q => Float.ofInt q.num
  rangeBlocks := fun _ => []
  evaluate := fun _ _ => none
  pack32 := fun _ => .ok []
  pack64 := fun _ => .ok []

end ProtocolSettings

end ProtocolGateway
