import ProtocolGateway.WriteBack

/-!
# Reading back what was written

A write that is handed to the client is followed by reads of the same registers. What they show is
the number that was encoded, for every integer type, word order and former content: a number of
several words is encoded and decoded in the same order, and a field is put where it is looked for.
A single word is the exception. It is sent as it is and read in the byte order of the entry, so it
comes back only if swapping its bytes does not change it.

* `shownAfterWrite_iff` — what is shown after a write.
* `write_frame` — what a write leaves alone, for every type.
-/

namespace ProtocolGateway

open BigEndian BitField Outcomes ProtocolSettings

/-! ## The words after a request -/

section Decode

variable {ps : ProtocolSettings} {order : WordOrder} {raw words : List Word} {e : RegistryMapEntry}
  {content : Int → Word} {i start : Int}

/-- The request puts its words at its start. -/
theorem deviceWords_apply : deviceWords ((WriteRequest.registers start words).apply content) start
    words.length = words := by
  refine List.ext_getElem (by simp) fun k hk hk' => ?_
  rw [← List.getD_eq_getElem _ 0 hk, getD_deviceWords hk']
  show (if start ≤ start + (k : Int) then words.getD (start + (k : Int) - start).toNat _ else _) = _
  rw [if_pos (by omega), show (start + (k : Int) - start).toNat = k by omega,
    List.getD_eq_getElem _ _ hk']

/-- A request that is sent twice changes nothing the second time. -/
theorem apply_apply : (WriteRequest.registers start words).apply
    ((WriteRequest.registers start words).apply content) =
      (WriteRequest.registers start words).apply content :=
  apply_eq_self_iff.mpr deviceWords_apply.symm

theorem apply_singleton {w : Word} :
    (WriteRequest.registers start [w]).apply content start = w := by
  have h : deviceWords ((WriteRequest.registers start [w]).apply content) start 1 = [w] :=
    deviceWords_apply
  have hhead : deviceWords ((WriteRequest.registers start [w]).apply content) start 1 =
      [(WriteRequest.registers start [w]).apply content start] := by
    show [(WriteRequest.registers start [w]).apply content (start + (0 : Nat))] = _
    rw [show start + ((0 : Nat) : Int) = start by omega]
  exact List.head_eq_of_cons_eq (hhead.symm.trans h)

theorem wordsNumber_singleton (order : WordOrder) (w : Word) :
    wordsNumber order [w] = (w.orient order.bytesReversed).toNat := by
  rw [← Word.number_toBytes]
  unfold wordsNumber ProtocolGateway.registerWordsToBytes
  simp

/-! ## Fields -/

/-- The bits of the field that a number is put into. -/
theorem testBit_written {width encoded j : Nat} {w : Word}
    (h : fieldWords order [content e.register] e.startBit width encoded = .ok [w])
    (hj : j < width) :
    (w.orient order.bytesReversed).toNat.testBit (e.startBit + j) =
      encoded.testBit (e.startBit + j) := by
  rw [← wordsNumber_singleton, (fieldWords_eq_ok_iff.mp h).2, testBit_update,
    if_pos ⟨Nat.le_add_right _ _, by omega⟩]

/-- A field that holds the bits of a shifted number reads as the number. -/
theorem field_of_testBit {lo width v x : Nat} (hv : v < 2 ^ width)
    (h : ∀ j, j < width → x.testBit (lo + j) = v.testBit j) : field lo width x = v := by
  refine Nat.eq_of_testBit_eq fun j => ?_
  rw [testBit_field]
  by_cases hj : j < width
  · rw [h j hj, decide_eq_true hj, Bool.true_and]
  · rw [decide_eq_false hj, Bool.false_and, Nat.testBit_lt_two_pow (Nat.lt_of_lt_of_le hv
      (Nat.pow_le_pow_right (by decide) (Nat.le_of_not_lt hj)))]

/-- A number that was put into a field is in it. -/
theorem unsigned_written {width v : Nat} {w : Word} (hv : v < 2 ^ width)
    (h : fieldWords order [content e.register] e.startBit width (v <<< e.startBit) = .ok [w]) :
    field e.startBit width (w.orient order.bytesReversed).toNat = v := by
  refine field_of_testBit hv fun j hj => ?_
  rw [testBit_written h hj, Nat.testBit_shiftLeft, decide_eq_true (Nat.le_add_right _ _),
    Bool.true_and, Nat.add_sub_cancel_left]

/-- So are a magnitude and the sign below it. -/
theorem magnitude_written {width v : Nat} {negative : Prop} [Decidable negative] {w : Word}
    (hpos : 0 < width) (hv : v < 2 ^ (width - 1))
    (h : fieldWords order [content e.register] e.startBit width
      (v <<< (e.startBit + 1) ||| if negative then 1 <<< e.startBit else 0) = .ok [w]) :
    field (e.startBit + 1) (width - 1) (w.orient order.bytesReversed).toNat = v ∧
      (w.orient order.bytesReversed).toNat.testBit e.startBit = decide negative := by
  have hsign : (if negative then 1 <<< e.startBit else 0).testBit e.startBit =
      decide negative := by
    split
    · next hneg => rw [Nat.testBit_shiftLeft, Nat.sub_self, decide_eq_true hneg]; simp
    · next hneg => rw [Nat.zero_testBit, decide_eq_false hneg]
  have habove (j : Nat) : (if negative then 1 <<< e.startBit else 0).testBit
      (e.startBit + 1 + j) = false := by
    split
    · rw [Nat.testBit_shiftLeft, show e.startBit + 1 + j - e.startBit = j + 1 by omega,
        Nat.testBit_succ]
      simp
    · exact Nat.zero_testBit _
  refine ⟨field_of_testBit hv fun j hj => ?_, ?_⟩
  · have hbit := testBit_written h (show 1 + j < width by omega)
    rw [← Nat.add_assoc, Nat.testBit_or, habove, Bool.or_false, Nat.testBit_shiftLeft,
      decide_eq_true (Nat.le_add_right _ _), Bool.true_and, Nat.add_sub_cancel_left] at hbit
    exact hbit
  · have hbit := testBit_written h hpos
    rw [Nat.add_zero, Nat.testBit_or, hsign, Nat.testBit_shiftLeft,
      decide_eq_false (by omega), Bool.false_and, Bool.false_or] at hbit
    exact hbit

theorem toNat_emod_lt (k : Nat) (i : Int) : (i % 2 ^ (k + 1)).toNat < 2 ^ (k + 1) := by
  have hpos : (0 : Int) < 2 ^ (k + 1) := Int.pow_pos (by decide)
  have hcast : ((2 ^ (k + 1) : Nat) : Int) = 2 ^ (k + 1) := by push_cast; rfl
  have hmod := Int.emod_lt_of_pos i hpos
  have hnonneg := Int.emod_nonneg i (Int.ne_of_gt hpos)
  omega

/-- Two's complement undoes the residue. -/
theorem twosComplement_emod {k : Nat} (hlo : -2 ^ k ≤ i) (hhi : i ≤ 2 ^ k - 1) :
    (if (i % 2 ^ (k + 1)).toNat.testBit k then ((i % 2 ^ (k + 1)).toNat : Int) - 2 ^ (k + 1)
      else ((i % 2 ^ (k + 1)).toNat : Int)) = i := by
  have hsigned := (field_signed_iff (x := (i % 2 ^ (k + 1)).toNat) hlo hhi).mp (by
    rw [Nat.shiftLeft_zero])
  rwa [field_of_lt (toNat_emod_lt k i)] at hsigned

/-! ## Decoding after a write -/

/-- A single word is sent as it is. It is read in the byte order of the entry. -/
def RegistryMapEntry.OrderKept (e : RegistryMapEntry) (order : WordOrder) (i : Int) : Prop :=
  e.dataType = .ushort ∨ e.dataType = .short →
    Word.orient order.bytesReversed (BitVec.ofInt 16 i) = BitVec.ofInt 16 i

theorem orderKept_of_ne (h : ¬(e.dataType = .ushort ∨ e.dataType = .short)) :
    e.OrderKept order i := fun hword => absurd hword h

/-- An unsigned word is read as the number exactly if its order is kept. -/
theorem toNat_orient_eq_iff (hlo : 0 ≤ i) (hhi : i ≤ 0xFFFF) (b : Bool) :
    ((Word.orient b (BitVec.ofInt 16 i)).toNat : Int) = i ↔
      Word.orient b (BitVec.ofInt 16 i) = BitVec.ofInt 16 i := by
  have hvalue : ((BitVec.ofInt 16 i).toNat : Int) = i := by
    rw [BitVec.toNat_ofInt]
    omega
  constructor
  · intro h
    refine BitVec.eq_of_toNat_eq ?_
    omega
  · intro h
    rw [h, hvalue]

/-- A signed word is read as the number exactly if its order is kept. -/
theorem signed_orient_eq_iff (hlo : -2 ^ 15 ≤ i) (hhi : i ≤ 2 ^ 15 - 1) (b : Bool) :
    (if (Word.orient b (BitVec.ofInt 16 i)).toNat.testBit 15 then
        ((Word.orient b (BitVec.ofInt 16 i)).toNat : Int) - 2 ^ 16
      else ((Word.orient b (BitVec.ofInt 16 i)).toNat : Int)) = i ↔
      Word.orient b (BitVec.ofInt 16 i) = BitVec.ofInt 16 i := by
  have hsigned (w : Word) : (if w.toNat.testBit 15 then (w.toNat : Int) - 2 ^ 16
      else (w.toNat : Int)) = w.toInt := by
    rw [BitVec.toInt_eq_msb_cond, BitVec.msb_eq_getLsbD_last, ← BitVec.testBit_toNat]
    rfl
  have hvalue : (BitVec.ofInt 16 i).toInt = i := by
    rw [BitVec.toInt_ofInt, Int.bmod_def]
    split <;> omega
  rw [hsigned]
  constructor
  · intro h
    exact BitVec.eq_of_toInt_eq (h.trans hvalue.symm)
  · intro h
    rw [h, hvalue]

/-- **What was encoded is decoded**, but for the byte order of a single word. -/
theorem decodeUshort_apply_iff (ht : IntegerValued e.dataType) (hlist : e.registerList = [])
    (hoffset : e.registerBit < 0 ∨ 200 < e.dataType.value)
    (hone : e.dataType = .byte ∨ 200 < e.dataType.value → e.entryWordCount = 1)
    (hlo : e.dataType.getDefaultRange.1 ≤ i) (hhi : i ≤ e.dataType.getDefaultRange.2)
    (h : integerWords order (e.writtenRegisters.map content) e i = .ok words) :
    ps.decodeUshort order (wholeRegistry ((WriteRequest.registers e.register words).apply content))
      e = .ok (some (.int i)) ↔ e.OrderKept order i := by
  have hint {value : Int} : (Except.ok (some (PyValue.int value)) :
      Except PyError (Option PyValue)) = .ok (some (.int i)) ↔ value = i := by simp
  -- numbers of several words: the second of two equal requests changes nothing
  have hwide (hplain : ¬(e.dataType = .ushort ∨ e.dataType = .short))
      (hsame : (WriteRequest.registers e.register words).apply
        ((WriteRequest.registers e.register words).apply content) =
          (WriteRequest.registers e.register words).apply content ↔
        ps.decodeUshort order (wholeRegistry ((WriteRequest.registers e.register words).apply
          content)) e = .ok (some (.int i))) :
      ps.decodeUshort order (wholeRegistry ((WriteRequest.registers e.register words).apply
        content)) e = .ok (some (.int i)) ↔ e.OrderKept order i :=
    iff_of_true (hsame.mp apply_apply) (orderKept_of_ne hplain)
  have hraw (h : e.entryWordCount = 1) : e.writtenRegisters.map content = [content e.register] := by
    rw [map_writtenRegisters, h]
    show [content (e.register + (0 : Nat))] = _
    rw [show e.register + ((0 : Nat) : Int) = e.register by omega]
  -- a field is written over the one word of the entry
  have hfield {width encoded : Nat} (htype : e.dataType = .byte ∨ 200 < e.dataType.value)
      (h : fieldWords order (e.writtenRegisters.map content) e.startBit width encoded = .ok words) :
      ∃ w, words = [w] ∧ fieldWords order [content e.register] e.startBit width encoded =
        .ok [w] := by
    rw [hraw (hone htype)] at h
    obtain ⟨w, rfl⟩ := List.length_eq_one_iff.mp (fieldWords_eq_ok_iff.mp h).1
    exact ⟨w, rfl, h⟩
  have htype : ∀ t, e.dataType = t → ∀ registry, ps.decodeUshort order registry e =
      ps.decodeUshort order registry { e with dataType := t } := by
    rintro _ rfl _
    rfl
  unfold integerWords at h
  cases hdata : e.dataType with
  | ushort =>
    rw [hdata] at h hlo hhi
    obtain rfl := Except.ok.inj h
    have hvalue (content : Int → Word) : ps.decodeUshort order (wholeRegistry content) e =
        .ok (some (.int (Word.orient order.bytesReversed (content e.register)).toNat)) := by
      rw [htype _ hdata]
      rfl
    rw [hvalue, apply_singleton, hint, toNat_orient_eq_iff hlo hhi]
    exact ⟨fun hkept _ => hkept, fun hkept => hkept (.inl hdata)⟩
  | short =>
    rw [hdata] at h hlo hhi
    obtain rfl := Except.ok.inj h
    have hvalue (content : Int → Word) : ps.decodeUshort order (wholeRegistry content) e =
        .ok (some (.int (if (Word.orient order.bytesReversed (content e.register)).toNat.testBit 15
          then ((Word.orient order.bytesReversed (content e.register)).toNat : Int) - 2 ^ 16
          else ((Word.orient order.bytesReversed (content e.register)).toNat : Int)))) := by
      rw [htype _ hdata]
      rfl
    rw [hvalue, apply_singleton, hint, signed_orient_eq_iff hlo hhi]
    exact ⟨fun hkept _ => hkept, fun hkept => hkept (.inr hdata)⟩
  | uint | acc32 =>
    rw [hdata] at h hlo hhi
    refine hwide (by rw [hdata]; decide) (apply_unsigned_iff (m := 2) hlist ?_ hlo hhi h)
    rw [htype _ hdata]
    rfl
  | uint64 =>
    rw [hdata] at h hlo hhi
    refine hwide (by rw [hdata]; decide) (apply_unsigned_iff (m := 4) hlist ?_ hlo hhi h)
    rw [htype _ hdata]
    rfl
  | int =>
    rw [hdata] at h hlo hhi
    refine hwide (by rw [hdata]; decide)
      (apply_signed_iff (m := 2) hlist (by decide) ?_ hlo hhi h)
    rw [htype _ hdata]
    rfl
  | int64 =>
    rw [hdata] at h hlo hhi
    refine hwide (by rw [hdata]; decide)
      (apply_signed_iff (m := 4) hlist (by decide) ?_ hlo hhi h)
    rw [htype _ hdata]
    rfl
  | byte =>
    rw [hdata] at h hlo hhi
    unfold encodedField at h
    rw [hdata] at h
    obtain ⟨w, rfl, hw⟩ := hfield (.inl hdata) h
    have hstart : e.startBit = 0 := Int.toNat_of_nonpos (Int.le_of_lt (hoffset.resolve_right (by
      rw [hdata]; decide)))
    have hvalue (content : Int → Word) : ps.decodeUshort order (wholeRegistry content) e =
        .ok (some (.int (Word.orient order.bytesReversed (content e.register)).lo.toNat)) := by
      rw [htype _ hdata]
      rfl
    dsimp only [DataType.getDefaultRange] at hlo hhi
    have hread := unsigned_written (show i.toNat < 2 ^ 8 by omega) hw
    rw [hstart] at hread
    rw [hvalue, apply_singleton, hint, toNat_lo, hread]
    exact iff_of_true (Int.toNat_of_nonneg hlo) (orderKept_of_ne (by rw [hdata]; simp))
  | bit n =>
    have hbits := DataType.two_hundred_lt_value.mpr (.inl ⟨n, hdata⟩)
    rw [hdata] at h hlo hhi
    unfold encodedField at h
    rw [hdata] at h
    obtain ⟨w, rfl, hw⟩ := hfield (.inr hbits) h
    have hvalue (content : Int → Word) : ps.decodeUshort order (wholeRegistry content) e =
        .ok (some (.int (field e.startBit n.val
          (Word.orient order.bytesReversed (content e.register)).toNat))) := by
      rw [htype _ hdata]
      rfl
    have hcast : ((2 ^ n.val : Nat) : Int) = 2 ^ n.val := by push_cast; rfl
    dsimp only [DataType.getDefaultRange] at hlo hhi
    have hread := @unsigned_written order e content n.val i.toNat w (by omega) hw
    rw [hvalue, apply_singleton, hint, hread]
    exact iff_of_true (Int.toNat_of_nonneg hlo) (orderKept_of_ne (by rw [hdata]; simp))
  | sBit n =>
    have hbits := DataType.two_hundred_lt_value.mpr (.inr (.inl ⟨n, hdata⟩))
    obtain ⟨k, hk⟩ : ∃ k, n.val = k + 1 := ⟨n.val - 1, by have := n.property; omega⟩
    rw [hdata] at h hlo hhi
    unfold encodedField at h
    rw [hdata] at h
    obtain ⟨w, rfl, hw⟩ := hfield (.inr hbits) h
    have hvalue (content : Int → Word) : ps.decodeUshort order (wholeRegistry content) e =
        .ok (some (.int
          (if (field e.startBit n.val
              (Word.orient order.bytesReversed (content e.register)).toNat).testBit (n.val - 1) then
            ((field e.startBit n.val
              (Word.orient order.bytesReversed (content e.register)).toNat : Nat) : Int) - 2 ^ n.val
          else ((field e.startBit n.val
            (Word.orient order.bytesReversed (content e.register)).toNat : Nat) : Int)))) := by
      rw [htype _ hdata]
      rfl
    dsimp only [DataType.getDefaultRange] at hlo hhi
    dsimp only at hw
    rw [hk, Nat.add_sub_cancel] at hlo hhi
    rw [hk] at hw
    have hread := unsigned_written (toNat_emod_lt k i) hw
    rw [hvalue, apply_singleton, hint, hk, hread, Nat.add_sub_cancel]
    exact iff_of_true (twosComplement_emod hlo hhi) (orderKept_of_ne (by rw [hdata]; simp))
  | smBit n =>
    have hbits := DataType.two_hundred_lt_value.mpr (.inr (.inr ⟨n, hdata⟩))
    have hpos : 0 < n.val := by have := n.property; omega
    rw [hdata] at h hlo hhi
    unfold encodedField at h
    rw [hdata] at h
    obtain ⟨w, rfl, hw⟩ := hfield (.inr hbits) h
    have hvalue (content : Int → Word) : ps.decodeUshort order (wholeRegistry content) e =
        .ok (some (.int
          (if (Word.orient order.bytesReversed (content e.register)).toNat.testBit e.startBit then
            -((field (e.startBit + 1) (n.val - 1)
              (Word.orient order.bytesReversed (content e.register)).toNat : Nat) : Int)
          else ((field (e.startBit + 1) (n.val - 1)
            (Word.orient order.bytesReversed (content e.register)).toNat : Nat) : Int)))) := by
      rw [htype _ hdata]
      rfl
    have hcast : ((2 ^ (n.val - 1) : Nat) : Int) = 2 ^ (n.val - 1) := by push_cast; rfl
    dsimp only [DataType.getDefaultRange] at hlo hhi
    obtain ⟨hmagnitude, hsign⟩ := magnitude_written hpos (by omega) hw
    rw [hvalue, apply_singleton, hint, hmagnitude, hsign]
    refine iff_of_true ?_ (orderKept_of_ne (by rw [hdata]; simp))
    split
    · next h => have := of_decide_eq_true h; omega
    · next h => have := of_decide_eq_false (Bool.eq_false_of_not_eq_true h); omega
  | _ => rw [hdata] at ht; exact ht.elim

end Decode

/-! ## What is shown after a write -/

namespace RegistryMapEntry

variable {e : RegistryMapEntry}

/-- The entry is decoded from its own registers alone, which follow one another. -/
structure Single (e : RegistryMapEntry) : Prop where
  list : e.registerList = []
  alone : e.concatenate = false

/-- Nothing but the unit column is applied to what is decoded. -/
structure Unadjusted (e : RegistryMapEntry) : Prop where
  range : e.adjustment "High_Low" = none
  offset : e.adjustment "Offset" = none
  context : e.getAdjustment "Context" = none

/-- A single entry has the words of its type, unless its text has a size. -/
theorem Single.entryWordCount_eq (h : e.Single) (ht : e.dataType ≠ .string)
    (ht' : e.dataType ≠ .ascii) : e.entryWordCount = wordCounts e.dataType := by
  unfold entryWordCount
  rw [if_neg (not_not.mpr h.list), if_neg (by rw [h.alone]; simp), if_neg (by tauto)]

end RegistryMapEntry

namespace ProtocolSettings

variable {ps : ProtocolSettings} {x : ExactHost} {mode : TransportWriteMode}
  {members : Dict Int PyValue} {siblings : List (String × ExactValue)} {content : Int → Word}
  {e : RegistryMapEntry} {registry : Int → Option Word}

/-- An entry without adjustments shows its number times the factor of the unit column. -/
theorem showExact_unadjusted_iff (ht : IntegerValued e.dataType) (hsingle : e.Single)
    (hplain : e.Unadjusted) (hsource : e.descriptionSource = "")
    (hoffset : e.registerBit < 0 ∨ 200 < e.dataType.value) {q : Rat} :
    ps.showExact x (wholeRegistry content) members siblings e = .ok (some (.num q)) ↔
      ∃ i, ps.decodeUshort (e.getEntryByteorder ps.defaultWordOrder) (wholeRegistry content) e =
        .ok (some (.int i)) ∧ i * x.unitMod e = q := by
  have hcut : ¬(0 ≤ e.registerBit ∧ ¬decodedValueAlreadyHonorsBitOffset e = true) := by
    rintro ⟨hbit, hhonors⟩
    rcases hoffset with h | h
    · omega
    · exact hhonors (honors_of_bits h)
  have hscaled (i : Int) : x.applyPostDecode e i = i * x.unitMod e := by
    unfold ExactHost.applyPostDecode
    rw [hplain.range, hplain.offset]
    by_cases hone : x.unitMod e = 1
    · simp [hone]
    · simp [hone]
  unfold showExact decodeExact
  rw [if_neg (not_not.mpr hsource),
    if_neg (show wholeRegistry content e.register ≠ none from Option.some_ne_none _),
    hsingle.alone]
  simp only [Bool.false_eq_true, if_false, if_neg hcut]
  generalize e.getEntryByteorder ps.defaultWordOrder = order
  cases hdecode : ps.decodeUshort order (wholeRegistry content) e with
  | error err =>
    refine iff_of_false (fun h => by cases h) ?_
    rintro ⟨i, h, -⟩
    cases h
  | ok decoded =>
    cases decoded with
    | none =>
      refine iff_of_false (fun h => by cases h) ?_
      rintro ⟨i, h, -⟩
      cases h
    | some decoded =>
      obtain ⟨i, rfl⟩ := decodeUshort_integer ht hdecode
      have hshow : x.applyContext e (.num (x.applyPostDecode e i))
          ((e.variableName, .num (x.applyPostDecode e i)) :: siblings) =
            .ok (.num (i * x.unitMod e)) := by
        unfold ExactHost.applyContext
        rw [hplain.context, hscaled]
      change (x.applyContext e (.num (x.applyPostDecode e i))
        ((e.variableName, .num (x.applyPostDecode e i)) :: siblings) >>=
          fun shown => .ok (some shown)) = .ok (some (.num q)) ↔ _
      rw [hshow]
      show Except.ok (some (ExactValue.num (i * x.unitMod e))) = Except.ok (some (.num q)) ↔ _
      simp

/-- The number that a write of the value encodes. -/
def Encodes (ps : ProtocolSettings) (x : ExactHost) (registry : Int → Option Word)
    (e : RegistryMapEntry) (value : ExactValue) (i : Int) : Prop :=
  ∃ current looked, ps.showExact x registry Dict.empty [] e = .ok (some current) ∧
    ps.lookUpCodes (ps.exactArithmetic x) e (writtenValue (ps.exactArithmetic x) value)
      (x.text current) = .ok looked ∧
    ps.writtenNumber x e looked.1 = .ok (some i)

/-- A number is divided by the factor and rounded, or cut if there is none. -/
theorem Encodes.unscaled {i : Int} {a : Rat} (h : ps.Encodes x registry e (.num a) i)
    (hunit : x.unitMod e ≠ 0) : i = unscaledNumber x e a := by
  obtain ⟨current, looked, -, hlooked, hwritten⟩ := h
  obtain rfl : (.num a, x.text current) = looked := Except.ok.inj hlooked
  rw [writtenNumber_num hunit] at hwritten
  exact (Option.some.inj (Except.ok.inj hwritten)).symm

/-- **What is written is shown.** After a write that was handed to the client an integer entry shows
the encoded number times the factor of its unit column, whatever the registers held before, exactly
if the byte order of a single word does not matter for the number. -/
theorem shownAfterWrite_iff (ht : IntegerValued e.dataType) (hsingle : e.Single)
    (hplain : e.Unadjusted) (hsource : e.descriptionSource = "")
    (hoffset : e.registerBit < 0 ∨ 200 < e.dataType.value) (hunit : x.unitMod e ≠ 0)
    (hregistry : ∀ a w, registry a = some w → content a = w) {value : ExactValue}
    {request : WriteRequest}
    (hwrite : ps.writeVariable (ps.exactArithmetic x) mode .holding registry e value =
      .ok (some request)) :
    ∃ i, ps.Encodes x registry e value i ∧
      (ps.showExact x (wholeRegistry (request.apply content)) members siblings e =
          .ok (some (.num (i * x.unitMod e))) ↔
        e.OrderKept (e.getEntryByteorder ps.defaultWordOrder) i) := by
  obtain ⟨raw, current, looked, scaled, words, hcurrent, hraw, hlooked, -, hscaled, hencoded, -,
    rfl⟩ := writeVariable_eq_some_iff.mp hwrite
  obtain ⟨-, rfl⟩ := (rawRegisters_eq_some_iff hregistry).mp hraw
  obtain ⟨i, hi, ⟨hlo, hhi⟩, hwords⟩ := (registerValues_integer_iff ht).mp hencoded
  refine ⟨i, ⟨current, looked, hcurrent, hlooked, writtenNumber_eq_some_iff.mpr
    ⟨scaled, hscaled, hi⟩⟩, ?_⟩
  have hone (htype : e.dataType = .byte ∨ 200 < e.dataType.value) : e.entryWordCount = 1 := by
    have hne (t : DataType) (h : t = .string ∨ t = .ascii) : ¬(t = .byte ∨ 200 < t.value) := by
      rcases h with rfl | rfl <;> decide
    rw [hsingle.entryWordCount_eq (fun h => hne _ (.inl h) htype) fun h => hne _ (.inr h) htype]
    rcases htype with h | h
    · rw [h]
      rfl
    · rcases DataType.two_hundred_lt_value.mp h with ⟨n, h⟩ | ⟨n, h⟩ | ⟨n, h⟩ <;> rw [h] <;> rfl
  rw [showExact_unadjusted_iff ht hsingle hplain hsource hoffset,
    ← @decodeUshort_apply_iff ps _ words e content i ht hsingle.list hoffset hone hlo hhi hwords]
  constructor
  · rintro ⟨j, hdecode, hj⟩
    obtain rfl : j = i := by exact_mod_cast mul_right_cancel₀ hunit hj
    exact hdecode
  · intro hdecode
    exact ⟨i, hdecode, rfl⟩

/-! ## What a write leaves alone -/

end ProtocolSettings

/-- The bits of the entry's number that a write replaces: those of the field for a type that is put
into one, all bits for the others. -/
def RegistryMapEntry.Replaced (e : RegistryMapEntry) (j : Nat) : Prop :=
  e.isFlags = true ∨ e.dataType = .byte ∨ 200 < e.dataType.value →
    e.startBit ≤ j ∧ j < e.startBit + e.dataType.getSize.toNat

section Frame

variable {V : Type} {ops : Arithmetic V} {order : WordOrder} {raw words : List Word}
  {e : RegistryMapEntry} {value : V}

/-- A field write keeps the number of words and the bits outside the field. -/
theorem fieldWords_frame {width encoded : Nat}
    (h : fieldWords order raw e.startBit width encoded = .ok words)
    (hwidth : width = e.dataType.getSize.toNat) :
    words.length = raw.length ∧ ∀ j, ¬e.Replaced j →
      (wordsNumber order words).testBit j = (wordsNumber order raw).testBit j := by
  obtain ⟨hlength, hnumber⟩ := fieldWords_eq_ok_iff.mp h
  refine ⟨hlength, fun j hj => ?_⟩
  rw [hnumber]
  refine testBit_update_of_outside (fun hinside => hj fun _ => ?_) (wordsNumber_lt order raw)
  rwa [← hwidth]

/-- Words made of bytes are half as many. -/
theorem length_of_bytesToRegisterWords {data : List Byte}
    (h : bytesToRegisterWords order data = .ok words) : 2 * words.length = data.length := by
  rw [← registerWordsToBytes_of_bytesToRegisterWords h, length_registerWordsToBytes]

/-- **What is encoded** has as many words as the type, and the bits outside the field are those that
were read. The parameters `pack` give four and eight bytes. -/
theorem registerValues_frame (hpack32 : ∀ v data, ops.packFloat32 v = .ok data → data.length = 4)
    (hpack64 : ∀ v data, ops.packFloat64 v = .ok data → data.length = 8)
    (hraw : raw.length = RegistryMapEntry.wordCounts e.dataType)
    (h : registerValues ops order raw e value = .ok (some words)) :
    words.length = raw.length ∧ ∀ j, ¬e.Replaced j →
      (wordsNumber order words).testBit j = (wordsNumber order raw).testBit j := by
  have hwhole (hplain : ¬(e.isFlags = true ∨ e.dataType = .byte ∨ 200 < e.dataType.value))
      (hlength : words.length = RegistryMapEntry.wordCounts e.dataType) :
      words.length = raw.length ∧ ∀ j, ¬e.Replaced j →
        (wordsNumber order words).testBit j = (wordsNumber order raw).testBit j :=
    ⟨hlength.trans hraw.symm, fun j hj => absurd (fun h => absurd h hplain) hj⟩
  have hbytes (n : Nat) {i : Int} (h : bytesToRegisterWords order (intToBytes (2 * n) i) =
      .ok words) : words.length = n := by
    have hlength := length_of_bytesToRegisterWords h
    rw [intToBytes, length_digits] at hlength
    omega
  by_cases hint : IntegerValued e.dataType
  · obtain ⟨i, -, -, hwords⟩ := (registerValues_integer_iff hint).mp h
    unfold integerWords encodedField at hwords
    cases hdata : e.dataType with
    | ushort | short =>
      rw [hdata] at hwords
      refine hwhole (by simp [RegistryMapEntry.isFlags, hdata, DataType.value]) ?_
      rw [← Except.ok.inj hwords, hdata]
      rfl
    | uint | acc32 | int =>
      rw [hdata] at hwords
      refine hwhole (by simp [RegistryMapEntry.isFlags, hdata, DataType.value]) ?_
      rw [hdata]
      exact hbytes 2 hwords
    | uint64 | int64 =>
      rw [hdata] at hwords
      refine hwhole (by simp [RegistryMapEntry.isFlags, hdata, DataType.value]) ?_
      rw [hdata]
      exact hbytes 4 hwords
    | byte =>
      rw [hdata] at hwords
      exact fieldWords_frame hwords (by rw [hdata])
    | bit n =>
      rw [hdata] at hwords
      exact fieldWords_frame hwords (by rw [hdata])
    | sBit n =>
      rw [hdata] at hwords
      exact fieldWords_frame hwords (by rw [hdata]; rfl)
    | smBit n =>
      rw [hdata] at hwords
      exact fieldWords_frame hwords (by rw [hdata]; rfl)
    | _ => rw [hdata] at hint; exact hint.elim
  · unfold registerValues at h
    cases hdata : e.dataType with
    | bit8Flags | bit16Flags | bit32Flags =>
      rw [hdata] at h
      dsimp only at h
      split at h
      · obtain ⟨words', hwords, hsome⟩ := map_eq_ok_iff.mp h
        obtain rfl := Option.some.inj hsome
        exact fieldWords_frame hwords (by rw [hdata])
      · cases h
    | float32 =>
      rw [hdata] at h
      obtain ⟨data, hdata', h⟩ := bind_eq_ok_iff.mp h
      obtain ⟨words', hwords, hsome⟩ := map_eq_ok_iff.mp h
      obtain rfl := Option.some.inj hsome
      refine hwhole (by simp [RegistryMapEntry.isFlags, hdata, DataType.value]) ?_
      have hlength := length_of_bytesToRegisterWords hwords
      have hfour := hpack32 _ _ hdata'
      rw [hdata]
      show _ = 2
      omega
    | float64 =>
      rw [hdata] at h
      obtain ⟨data, hdata', h⟩ := bind_eq_ok_iff.mp h
      obtain ⟨words', hwords, hsome⟩ := map_eq_ok_iff.mp h
      obtain rfl := Option.some.inj hsome
      refine hwhole (by simp [RegistryMapEntry.isFlags, hdata, DataType.value]) ?_
      have hlength := length_of_bytesToRegisterWords hwords
      have height := hpack64 _ _ hdata'
      rw [hdata]
      show _ = 4
      omega
    | ascii | hex | string | string16 | string32 =>
      rw [hdata] at h
      cases h
    | _ => rw [hdata] at hint; exact absurd trivial hint

end Frame

namespace ProtocolSettings

/-- **The frame of a write**: a request for a single entry changes no register but those of the
entry, and no bit of their number but those of the field. -/
theorem write_frame {ps : ProtocolSettings} {V : Type} {ops : Arithmetic V}
    {mode : TransportWriteMode} {content : Int → Word} {e : RegistryMapEntry}
    {registry : Int → Option Word} {value : V} {request : WriteRequest}
    (hpack32 : ∀ v data, ops.packFloat32 v = .ok data → data.length = 4)
    (hpack64 : ∀ v data, ops.packFloat64 v = .ok data → data.length = 8)
    (hsingle : e.Single) (hregistry : ∀ a w, registry a = some w → content a = w)
    (hwrite : ps.writeVariable ops mode .holding registry e value = .ok (some request)) :
    (∀ a, a ∉ e.writtenRegisters → request.apply content a = content a) ∧
      ∀ j, ¬e.Replaced j →
        (wordsNumber (e.getEntryByteorder ps.defaultWordOrder)
          (e.writtenRegisters.map (request.apply content))).testBit j =
        (wordsNumber (e.getEntryByteorder ps.defaultWordOrder)
          (e.writtenRegisters.map content)).testBit j := by
  obtain ⟨raw, current, looked, scaled, words, -, hraw, -, -, -, hencoded, -, rfl⟩ :=
    writeVariable_eq_some_iff.mp hwrite
  obtain ⟨-, rfl⟩ := (rawRegisters_eq_some_iff hregistry).mp hraw
  have htext (t : DataType) (ht : t = .string ∨ t = .ascii) : e.dataType ≠ t := by
    rintro rfl
    unfold registerValues at hencoded
    rcases ht with ht | ht <;> rw [ht] at hencoded <;> cases hencoded
  have hcount := hsingle.entryWordCount_eq (htext _ (.inl rfl)) (htext _ (.inr rfl))
  obtain ⟨hlength, hbits⟩ := registerValues_frame hpack32 hpack64
    (by rw [List.length_map, e.length_writtenRegisters, hcount]) hencoded
  rw [List.length_map, e.length_writtenRegisters] at hlength
  refine ⟨fun a ha => apply_of_not_mem hlength ha, fun j hj => ?_⟩
  rw [map_apply_writtenRegisters hlength]
  exact hbits j hj

/-- Texts of whole numbers, the factor one, and the bytes of the float zero. -/
def wordHost : ExactHost :=
  { wholeHost with
    pack32 := fun q => if q = 0 then .ok (List.replicate 4 0) else .error .overflowError
    pack64 := fun q => if q = 0 then .ok (List.replicate 8 0) else .error .overflowError }

/-- Fifteen is accepted for a counter that holds ten. -/
theorem counter_written : ({} : ProtocolSettings).writeVariable
    (({} : ProtocolSettings).exactArithmetic wordHost) .write .holding (wholeRegistry fun _ => 10)
      counter (.num (15 : Int)) = .ok (some (.registers 40 [15])) := by
  have htype : IntegerValued counter.dataType := trivial
  have hvalue : ({} : ProtocolSettings).showExact wordHost (wholeRegistry fun _ => 10) Dict.empty
      [] counter = .ok (some (.num (10 : Int))) :=
    (showExact_eq_some_iff htype (by decide) rfl).mpr ⟨rfl, 10, rfl, rfl⟩
  have hvalid (value : ExactValue) (i : Int) (hlo : 0 ≤ i) (hhi : i ≤ 65535)
      (h : (({} : ProtocolSettings).exactArithmetic wordHost).toFloatInt value = .ok i) :
      ({} : ProtocolSettings).validateRegistryEntry
        (({} : ProtocolSettings).exactArithmetic wordHost) counter value = .ok 1 := by
    rw [validateRegistryEntry_of_noCodes rfl (by decide), validateNumber, h]
    exact congrArg Except.ok (if_pos ⟨hlo, hhi⟩)
  have htext : wordHost.text (.num (10 : Int)) = "10" := by
    rw [ExactHost.text, ExactHost.toPyValue_intCast]
    rfl
  have hten : (({} : ProtocolSettings).exactArithmetic wordHost).toFloatInt (.str "10") = .ok 10 :=
    congrArg Except.ok (truncateRat_intCast 10)
  have hfifteen : (({} : ProtocolSettings).exactArithmetic wordHost).toFloatInt
      (.num (15 : Int)) = .ok 15 := congrArg Except.ok (truncateRat_intCast 15)
  refine writeVariable_eq_some_iff.mpr ⟨[10], .num (10 : Int), (.num (15 : Int), "10"),
    .num (15 : Int), [15], hvalue, rfl, congrArg (fun text => Except.ok (ExactValue.num (15 : Int),
      text)) htext, ?_, ?_, ?_, by decide, rfl⟩
  · unfold accepted
    rw [if_neg (by decide), show (({} : ProtocolSettings).exactArithmetic wordHost).ofText "10" =
      .str "10" from rfl, hvalid _ 10 (by decide) (by decide) hten,
      hvalid _ 15 (by decide) (by decide) hfifteen]
    rfl
  · have hscaled : ¬(({} : ProtocolSettings).exactArithmetic wordHost).scaled counter = true := by
      simp [exactArithmetic, ExactHost.unitMod, wordHost, wholeHost]
    exact if_neg hscaled
  · exact (registerValues_integer_iff htype).mpr ⟨15, (encodedInt_num _).trans
      (congrArg Except.ok (truncateRat_intCast 15)), by decide, rfl⟩

/-- The counter shows what was written. -/
theorem counter_shownAfterWrite : ∃ i,
    ({} : ProtocolSettings).Encodes wordHost (wholeRegistry fun _ => 10) counter
      (.num (15 : Int)) i ∧
    (({} : ProtocolSettings).showExact wordHost (wholeRegistry
        ((WriteRequest.registers 40 [15]).apply fun _ => 10)) Dict.empty [] counter =
          .ok (some (.num (i * wordHost.unitMod counter))) ↔
      counter.OrderKept (counter.getEntryByteorder ({} : ProtocolSettings).defaultWordOrder)
        i) := by
  have htype : IntegerValued counter.dataType := trivial
  exact shownAfterWrite_iff htype ⟨rfl, rfl⟩ ⟨rfl, rfl, rfl⟩ rfl (.inl (by decide)) one_ne_zero
    (fun _ _ hw => Option.some.inj hw) counter_written

/-- Only register 40 changes. -/
theorem counter_frame :
    (∀ a, a ∉ counter.writtenRegisters →
      (WriteRequest.registers 40 [15]).apply (fun _ => 10) a = 10) ∧
      ∀ j, ¬counter.Replaced j →
        (wordsNumber (counter.getEntryByteorder ({} : ProtocolSettings).defaultWordOrder)
          (counter.writtenRegisters.map
            ((WriteRequest.registers 40 [15]).apply fun _ => 10))).testBit j =
        (wordsNumber (counter.getEntryByteorder ({} : ProtocolSettings).defaultWordOrder)
          (counter.writtenRegisters.map fun _ => 10)).testBit j := by
  have hpacked {q : Rat} {n : Nat} {data : List Byte}
      (h : (if q = 0 then .ok (List.replicate n 0) else .error .overflowError :
        Except PyError (List Byte)) = .ok data) : data.length = n := by
    split at h
    · rw [← Except.ok.inj h, List.length_replicate]
    · cases h
  refine write_frame (fun value data h => ?_) (fun value data h => ?_) ⟨rfl, rfl⟩
    (fun _ _ hw => Option.some.inj hw) counter_written
  · obtain ⟨q, -, h⟩ := bind_eq_ok_iff.mp h
    exact hpacked h
  · obtain ⟨q, -, h⟩ := bind_eq_ok_iff.mp h
    exact hpacked h

end ProtocolSettings

end ProtocolGateway
