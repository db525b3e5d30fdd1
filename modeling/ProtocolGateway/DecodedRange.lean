import ProtocolGateway.DecodeAgreement
import ProtocolGateway.MissingRegisters

/-!
# Ranges of decoded values

`getDefaultRange` says between which bounds the values of a type lie, and the value of an entry that
is not scaled should lie between them. Two stages can take it out of there. The wire decoder extends
the sign of a signed or signed-magnitude bit field with ones from bit 64 on, so what should be
negative is a large positive number. And where a 16-, 32- or 64-bit signed entry has a bit offset,
the bits of a negative number are cut out as a positive one, which is too large if the offset covers
as many bits as the type has.

`decodedInRange_iff` says that these are the only ones.
-/

namespace ProtocolGateway

open Outcomes BigEndian BitField ProtocolSettings GroupRead

/-- The types whose values are integers. -/
def IntegerValued : DataType → Prop
  | .byte | .ushort | .uint | .short | .int | .uint64 | .acc32 | .int64 => True
  | .bit _ | .sBit _ | .smBit _ => True
  | _ => False

/-- The value is an integer in the default range of the type. -/
def InDefaultRange (t : DataType) (value : PyValue) : Prop :=
  ∃ i, value = .int i ∧ t.getDefaultRange.1 ≤ i ∧ i ≤ t.getDefaultRange.2

namespace RegistryMapEntry

variable (e : RegistryMapEntry)

/-- The number of bits the wire decoder sees of a register: an entry of one byte has half of it, and
no swapped byte order. -/
def wireBits (order : WordOrder) : Nat :=
  if e.dataTypeSize = 1 then if order.bytesReversed then 0 else 8 else 16

/-- The number of bits an offset covers. -/
def offsetWidth : Int := e.registerBitEnd - e.registerBit + 1

/-- Where the two stages do no harm. -/
def RangeKept (order : WordOrder) : Prop :=
  match e.dataType with
  | .short => e.registerBit < 0 ∨ e.offsetWidth < 16
  | .int => e.registerBit < 0 ∨ e.offsetWidth < 32
  | .int64 => e.registerBit < 0 ∨ e.offsetWidth < 64
  | .sBit n => e.registerBit < 0 ∨ e.wireBits order < e.registerBit + n.val
  | .smBit _ => e.registerBit < 0 ∨ e.wireBits order ≤ e.registerBit
  | _ => True

end RegistryMapEntry

namespace ProtocolSettings

variable (ps : ProtocolSettings) (host : Host)

/-- The values of an entry lie in the default range of its type. -/
structure DecodedInRange (e : RegistryMapEntry) : Prop where
  /-- what the entry is decoded to, before it is filed -/
  decoded : ∀ snapshot, Complete e snapshot → ∀ value,
    ps.decodeEntry host snapshot e = .ok (some value) → InDefaultRange e.dataType value
  /-- … and what `process_registery` emits for an entry that is not a member of a range -/
  emitted : e.concatenate = false → ∀ snapshot, Complete e snapshot → ∀ before after,
    (∀ e' ∈ before ++ after, e'.variableName ≠ e.variableName) → ∀ info,
    ps.processRegistery host snapshot (before ++ e :: after) = .ok info → ∀ value,
    info.get? e.variableName = some value → InDefaultRange e.dataType value

variable {ps host} {e : RegistryMapEntry} {order : WordOrder}

/-! ## Numbers -/

theorem inDefaultRange_int {t : DataType} {i : Int} :
    InDefaultRange t (.int i) ↔ t.getDefaultRange.1 ≤ i ∧ i ≤ t.getDefaultRange.2 := by
  constructor
  · rintro ⟨j, heq, hrange⟩
    rwa [PyValue.int.inj heq]
  · exact fun hrange => ⟨i, rfl, hrange⟩

/-- A number of `k` bytes. -/
theorem number_le {k : Nat} {raw : List Byte} (h : raw.length ≤ k) :
    (0 : Int) ≤ number raw ∧ (number raw : Int) ≤ 2 ^ (8 * k) - 1 := by
  have hlt := number_lt raw
  have hle : 2 ^ (8 * raw.length) ≤ 2 ^ (8 * k) := Nat.pow_le_pow_right (by decide) (by omega)
  have hcast : ((2 ^ (8 * k) : Nat) : Int) = 2 ^ (8 * k) := by norm_cast
  omega

/-- … and in two's complement. -/
theorem signedNumber_le {k : Nat} {raw : List Byte} (h : raw.length ≤ k) (hk : 0 < k) :
    -2 ^ (8 * k - 1) ≤ signedNumber raw ∧ signedNumber raw ≤ 2 ^ (8 * k - 1) - 1 := by
  have hle : 2 ^ (8 * raw.length) ≤ 2 ^ (8 * k) := Nat.pow_le_pow_right (by decide) (by omega)
  have hpos : 0 < 2 ^ (8 * raw.length) := Nat.two_pow_pos _
  have hlo := Int.le_bmod (x := number raw) hpos
  have hhi := Int.bmod_lt (x := number raw) hpos
  have hhalf : 2 ^ (8 * k) = 2 * 2 ^ (8 * k - 1) := by
    rw [← Nat.pow_succ']
    congr 1
    omega
  have hcast : ((2 ^ (8 * k - 1) : Nat) : Int) = 2 ^ (8 * k - 1) := by norm_cast
  rw [signedNumber]
  omega

/-- A field of `n` bits. -/
theorem field_le_ones (lo n x : Nat) :
    (0 : Int) ≤ field lo n x ∧ (field lo n x : Int) ≤ 2 ^ n - 1 := by
  have hlt := field_lt lo n x
  have hcast : ((2 ^ n : Nat) : Int) = 2 ^ n := by norm_cast
  omega

/-- A number of `n` bits, the highest of which is worth `-2 ^ (n - 1)`. -/
theorem twosComplement_le {n x : Nat} (hn : 0 < n) (hx : x < 2 ^ n) :
    -2 ^ (n - 1) ≤ (if x.testBit (n - 1) then (x : Int) - 2 ^ n else x) ∧
      (if x.testBit (n - 1) then (x : Int) - 2 ^ n else x) ≤ 2 ^ (n - 1) - 1 := by
  have hhalf : 2 ^ n = 2 * 2 ^ (n - 1) := by
    rw [← Nat.pow_succ']
    congr 1
    omega
  have hcast : ((2 ^ (n - 1) : Nat) : Int) = 2 ^ (n - 1) := by norm_cast
  have hcast' : ((2 ^ n : Nat) : Int) = 2 ^ n := by norm_cast
  split
  · next hset =>
    have hhigh := Nat.ge_two_pow_of_testBit hset
    omega
  · next hclear =>
    have hlow : x < 2 ^ (n - 1) := by
      refine Nat.lt_pow_two_of_testBit x fun i hi => ?_
      rcases Nat.eq_or_lt_of_le hi with rfl | hi
      · exact Bool.eq_false_iff.mpr hclear
      · exact Nat.testBit_lt_two_pow (Nat.lt_of_lt_of_le hx
          (Nat.pow_le_pow_right (by decide) (by omega)))
    omega

/-- A sign and `n` bits. -/
theorem signedMagnitude_le {n x : Nat} (sign : Bool) (hx : x < 2 ^ n) :
    -(2 ^ n - 1) ≤ (if sign then -(x : Int) else x) ∧
      (if sign then -(x : Int) else x) ≤ 2 ^ n - 1 := by
  have hcast : ((2 ^ n : Nat) : Int) = 2 ^ n := by norm_cast
  cases sign with
  | true =>
    simp only [if_true]
    omega
  | false =>
    simp only [Bool.false_eq_true, if_false]
    omega

/-! ## The word decoder -/

/-- `process_register_ushort` keeps every value in its range. -/
theorem inDefaultRange_of_decodeUshort {registry : Int → Option Word} {value : PyValue}
    (ht : IntegerValued e.dataType)
    (h : ps.decodeUshort order registry e = .ok (some value)) :
    InDefaultRange e.dataType value := by
  have hbytes {t : DataType} {count : Nat} {f : List Byte → Int}
      (hf : ∀ raw, raw.length = 2 * count → t.getDefaultRange.1 ≤ f raw ∧ f raw ≤ t.getDefaultRange.2)
      (h : (.ok ((registerWordsToBytes registry e.register count order e.registerList).map
        fun raw => .int (f raw)) : Except PyError (Option PyValue)) = .ok (some value)) :
      InDefaultRange t value := by
    obtain ⟨raw, hraw, rfl⟩ := Option.map_eq_some_iff.mp (Except.ok.inj h)
    exact inDefaultRange_int.mpr (hf raw (length_of_registerWordsToBytes hraw))
  have hword {t : DataType} {f : Word → Int}
      (hf : ∀ w : Word, w.toNat < 2 ^ 16 → t.getDefaultRange.1 ≤ f w ∧ f w ≤ t.getDefaultRange.2)
      (h : ((wordAt registry e.register).map (Word.orient order.bytesReversed)).map
        (fun w => some (.int (f w))) = .ok (some value)) : InDefaultRange t value := by
    obtain ⟨w, -, hvalue⟩ := map_eq_ok_iff.mp h
    obtain rfl := Option.some.inj hvalue
    exact inDefaultRange_int.mpr (hf w w.isLt)
  unfold decodeUshort at h
  dsimp only at h
  revert h ht
  cases e.dataType with
  | uint => exact fun _ => hbytes fun raw hlength => number_le (k := 4) (by omega)
  | acc32 => exact fun _ => hbytes fun raw hlength => number_le (k := 4) (by omega)
  | uint64 => exact fun _ => hbytes fun raw hlength => number_le (k := 8) (by omega)
  | int => exact fun _ => hbytes fun raw hlength => signedNumber_le (k := 4) (by omega) (by decide)
  | int64 =>
    exact fun _ => hbytes fun raw hlength => signedNumber_le (k := 8) (by omega) (by decide)
  | ushort => exact fun _ => hword fun w hw => by simp only [DataType.getDefaultRange]; omega
  | short => exact fun _ => hword fun w hw => twosComplement_le (n := 16) (by decide) hw
  | byte =>
    refine fun _ => hword fun w _ => ?_
    have hlt : w.lo.toNat < 2 ^ 8 := w.lo.isLt
    simp only [DataType.getDefaultRange]
    omega
  | bit n => exact fun _ => hword fun w _ => field_le_ones _ _ _
  | sBit n =>
    have hn := n.property.1
    exact fun _ => hword fun w _ => twosComplement_le (by omega) (field_lt _ _ _)
  | smBit n => exact fun _ => hword fun w _ => signedMagnitude_le _ (field_lt _ _ _)
  | _ => exact fun ht => ht.elim

/-! ## The wire decoder -/

/-- An entry of one byte sees one byte. -/
theorem length_registerSlice_le {payload : List Byte} (h : e.dataTypeSize = 1) :
    (registerSlice e payload).length ≤ 1 := by
  unfold registerSlice
  rw [h]
  exact List.length_take_le 1 _

/-- The number the bits of a bit field are taken from. -/
theorem number_lt_of_pairBytes {payload raw : List Byte}
    (h : pairBytes order (registerSlice e payload) = .ok raw) :
    number raw < 2 ^ e.wireBits order := by
  have hlength := length_of_pairBytes h
  refine Nat.lt_of_lt_of_le (number_lt raw) (Nat.pow_le_pow_right (by decide) ?_)
  unfold RegistryMapEntry.wireBits
  by_cases hsize : e.dataTypeSize = 1
  · have hshort : (registerSlice e payload).length ≤ 1 := length_registerSlice_le hsize
    rw [if_pos hsize]
    cases hreversed : order.bytesReversed with
    | false =>
      rw [if_neg Bool.false_ne_true]
      omega
    | true =>
      -- swapping indexes a second byte, which is not there
      have hlong := returns_pairBytes_iff.mp ⟨raw, h⟩ hreversed
      omega
  · rw [if_neg hsize]
    omega

/-- `process_register_bytes` keeps a value in its range, where it does not extend a sign. -/
theorem inDefaultRange_of_decodeBytes {payload : List Byte} {value : PyValue}
    (ht : IntegerValued e.dataType) (hkept : e.RangeKept order)
    (h : ps.decodeBytes order (registerSlice e payload) e = .ok value) :
    InDefaultRange e.dataType value := by
  have hpair {t : DataType} {f : List Byte → Int}
      (hf : ∀ raw, raw.length ≤ 2 → t.getDefaultRange.1 ≤ f raw ∧ f raw ≤ t.getDefaultRange.2)
      (h : (pairBytes order (registerSlice e payload)).map (fun raw => .int (f raw)) = .ok value) :
      InDefaultRange t value := by
    obtain ⟨raw, hraw, rfl⟩ := map_eq_ok_iff.mp h
    exact inDefaultRange_int.mpr (hf raw (by rw [length_of_pairBytes hraw]; omega))
  have hwide (n : Nat) : (wideBytes order n (registerSlice e payload)).length ≤ 2 * n := by
    rw [length_wideBytes]
    omega
  have hseen {raw : List Byte} {bitIndex : Nat}
      (hraw : pairBytes order (registerSlice e payload) = .ok raw)
      (hbit : shiftCount e.registerBit = .ok bitIndex) :
      number raw < 2 ^ e.wireBits order ∧ (bitIndex : Int) = e.registerBit := by
    refine ⟨number_lt_of_pairBytes hraw, ?_⟩
    unfold shiftCount at hbit
    split at hbit
    · cases hbit
    · next hnonneg =>
      obtain rfl := Except.ok.inj hbit
      exact Int.toNat_of_nonneg (not_lt.mp hnonneg)
  unfold RegistryMapEntry.RangeKept at hkept
  unfold decodeBytes at h
  revert h ht hkept
  cases e.dataType with
  | uint =>
    exact fun _ _ h => Except.ok.inj h ▸ inDefaultRange_int.mpr (number_le (k := 4) (hwide 2))
  | acc32 =>
    exact fun _ _ h => Except.ok.inj h ▸ inDefaultRange_int.mpr (number_le (k := 4) (hwide 2))
  | uint64 =>
    exact fun _ _ h => Except.ok.inj h ▸ inDefaultRange_int.mpr (number_le (k := 8) (hwide 4))
  | int =>
    exact fun _ _ h => Except.ok.inj h ▸
      inDefaultRange_int.mpr (signedNumber_le (k := 4) (hwide 2) (by decide))
  | int64 =>
    exact fun _ _ h => Except.ok.inj h ▸
      inDefaultRange_int.mpr (signedNumber_le (k := 8) (hwide 4) (by decide))
  | ushort => exact fun _ _ => hpair fun raw hlength => number_le (k := 2) hlength
  | short =>
    exact fun _ _ => hpair fun raw hlength => signedNumber_le (k := 2) hlength (by decide)
  | byte =>
    dsimp only
    intro _ _ h
    obtain ⟨raw, -, h⟩ := bind_eq_ok_iff.mp h
    cases raw with
    | nil => cases h
    | cons b rest =>
      obtain rfl := Except.ok.inj h
      have hlt : b.toNat < 2 ^ 8 := b.isLt
      refine inDefaultRange_int.mpr ?_
      simp only [DataType.getDefaultRange]
      omega
  | bit n =>
    dsimp only
    intro _ _ h
    obtain ⟨raw, -, h⟩ := bind_eq_ok_iff.mp h
    obtain ⟨bitIndex, -, h⟩ := bind_eq_ok_iff.mp h
    obtain rfl := Except.ok.inj h
    exact inDefaultRange_int.mpr (field_le_ones _ _ _)
  | sBit n =>
    dsimp only
    intro _ hkept h
    obtain ⟨raw, hraw, h⟩ := bind_eq_ok_iff.mp h
    obtain ⟨bitIndex, hbit, h⟩ := bind_eq_ok_iff.mp h
    obtain ⟨hx, hstart⟩ := hseen hraw hbit
    have hn := n.property.1
    -- the sign bit lies beyond the bits that are seen
    have hsmall : number raw < 2 ^ (bitIndex + n.val - 1) :=
      Nat.lt_of_lt_of_le hx (Nat.pow_le_pow_right (by decide) (by omega))
    rw [if_neg (by rw [Nat.testBit_lt_two_pow hsmall]; exact Bool.false_ne_true)] at h
    obtain rfl := Except.ok.inj h
    have hfield : field bitIndex n.val (number raw) < 2 ^ (n.val - 1) := by
      rw [field_eq]
      refine Nat.lt_of_le_of_lt (Nat.mod_le _ _) ?_
      rw [Nat.div_lt_iff_lt_mul (Nat.two_pow_pos _), ← Nat.pow_add]
      rwa [show n.val - 1 + bitIndex = bitIndex + n.val - 1 by omega]
    have hcast : ((2 ^ (n.val - 1) : Nat) : Int) = 2 ^ (n.val - 1) := by norm_cast
    refine inDefaultRange_int.mpr ⟨?_, ?_⟩
    · exact (DataType.getDefaultRange_zero_mem (.sBit n)).1.trans (Int.natCast_nonneg _)
    · simp only [DataType.getDefaultRange]
      omega
  | smBit n =>
    dsimp only
    intro _ hkept h
    obtain ⟨raw, hraw, h⟩ := bind_eq_ok_iff.mp h
    obtain ⟨bitIndex, hbit, h⟩ := bind_eq_ok_iff.mp h
    obtain ⟨hx, hstart⟩ := hseen hraw hbit
    have hsmall : number raw < 2 ^ bitIndex :=
      Nat.lt_of_lt_of_le hx (Nat.pow_le_pow_right (by decide) (by omega))
    rw [if_neg (by rw [Nat.testBit_lt_two_pow hsmall]; exact Bool.false_ne_true),
      field_eq_zero (Nat.lt_of_lt_of_le hsmall (Nat.pow_le_pow_right (by decide) (by omega)))] at h
    obtain rfl := Except.ok.inj h
    exact inDefaultRange_int.mpr (DataType.getDefaultRange_zero_mem _)
  | _ => exact fun ht => ht.elim

/-! ## The bit offset -/

/-- The bits cut out of a number. -/
theorem extractBits_le {i j : Int} (hb : 0 ≤ e.registerBit) (h : extractBits i e = .ok j) :
    0 ≤ j ∧ (0 ≤ i → j ≤ i) ∧ j < 2 ^ e.offsetWidth.toNat := by
  rw [extractBits, if_neg (not_lt.mpr hb)] at h
  obtain ⟨width, hwidth, hj⟩ := bind_eq_ok_iff.mp h
  obtain rfl := Except.ok.inj hj
  have hwidth : width = e.offsetWidth.toNat := by
    unfold shiftCount at hwidth
    split at hwidth
    · cases hwidth
    · exact (Except.ok.inj hwidth).symm
  have hpos : (0 : Int) < 2 ^ width := Int.pow_pos (by decide)
  refine ⟨Int.emod_nonneg _ (by omega), fun hi => ?_, hwidth ▸ Int.emod_lt_of_pos _ hpos⟩
  have hshift : 0 ≤ i >>> e.registerBit.toNat ∧ i >>> e.registerBit.toNat ≤ i := by
    rw [Int.shiftRight_eq_div_pow]
    exact ⟨Int.ediv_nonneg hi (Int.natCast_nonneg _), Int.ediv_le_self _ hi⟩
  have hsplit := Int.emod_add_mul_ediv (i >>> e.registerBit.toNat) (2 ^ width)
  have hrest := Int.mul_nonneg hpos.le (Int.ediv_nonneg hshift.1 hpos.le)
  omega

/-- The offset of a number in its range. -/
theorem inDefaultRange_extractBits {i j : Int} (hb : 0 ≤ e.registerBit)
    (hhonors : ¬decodedValueAlreadyHonorsBitOffset e = true) (ht : IntegerValued e.dataType)
    (hkept : e.RangeKept order) (hrange : InDefaultRange e.dataType (.int i))
    (h : extractBits i e = .ok j) : InDefaultRange e.dataType (.int j) := by
  obtain ⟨hnonneg, hle, hlt⟩ := extractBits_le hb h
  obtain ⟨hlo, hhi⟩ := inDefaultRange_int.mp hrange
  have hsigned (size : Nat) (hwidth : e.registerBit < 0 ∨ e.offsetWidth < size + 1)
      (h : 2 ^ size - 1 ≤ e.dataType.getDefaultRange.2) : j ≤ e.dataType.getDefaultRange.2 := by
    have hpow : 2 ^ e.offsetWidth.toNat ≤ 2 ^ size := Nat.pow_le_pow_right (by decide) (by omega)
    have hcast : (2 : Int) ^ e.offsetWidth.toNat ≤ 2 ^ size := by exact_mod_cast hpow
    omega
  unfold RegistryMapEntry.RangeKept at hkept
  refine inDefaultRange_int.mpr ⟨(DataType.getDefaultRange_zero_mem _).1.trans hnonneg, ?_⟩
  revert hlo hhi hkept hsigned ht hhonors
  unfold decodedValueAlreadyHonorsBitOffset
  cases e.dataType with
  | byte | ushort | uint | uint64 | acc32 => exact fun _ _ _ hlo hhi _ => (hle hlo).trans hhi
  | short => exact fun _ _ hkept _ _ hsigned => hsigned 15 hkept le_rfl
  | int => exact fun _ _ hkept _ _ hsigned => hsigned 31 hkept le_rfl
  | int64 => exact fun _ _ hkept _ _ hsigned => hsigned 63 hkept le_rfl
  | bit n =>
    have hvalue := DataType.two_hundred_lt_value.mpr (.inl ⟨n, rfl⟩)
    exact fun hhonors => absurd (decide_eq_true hvalue) hhonors
  | sBit n =>
    have hvalue := DataType.two_hundred_lt_value.mpr (.inr (.inl ⟨n, rfl⟩))
    exact fun hhonors => absurd (decide_eq_true hvalue) hhonors
  | smBit n =>
    have hvalue := DataType.two_hundred_lt_value.mpr (.inr (.inr ⟨n, rfl⟩))
    exact fun hhonors => absurd (decide_eq_true hvalue) hhonors
  | _ => exact fun _ ht => ht.elim

/-! ## The value of an entry -/

/-- A number that is not scaled is what the decoder read. -/
theorem decoderValue_of_unscaled (hu : e.Unscaled) {i : Int} {value : PyValue}
    (hvalue : e.applyPostDecode host (.int i) = .ok value) : value = .int i := by
  rw [RegistryMapEntry.applyPostDecode_int hu] at hvalue
  exact (Except.ok.inj hvalue).symm

/-- What a decoder makes of an entry lies in the range. -/
theorem inDefaultRange_of_decoderValue (hu : e.Unscaled) (ht : IntegerValued e.dataType)
    (hkept : e.RangeKept (e.getEntryByteorder ps.defaultWordOrder)) {snapshot : Snapshot}
    {value : PyValue} (h : decoderValue ps host e snapshot = .ok (some value)) :
    InDefaultRange e.dataType value := by
  cases snapshot with
  | words registry =>
    unfold decoderValue at h
    dsimp only at h
    split at h
    · obtain ⟨decoded, hdecoded, h⟩ := bind_eq_ok_iff.mp h
      cases decoded with
      | none => cases h
      | some decoded =>
        obtain ⟨adjusted, hadjusted, h⟩ := bind_eq_ok_iff.mp h
        obtain ⟨i, rfl, hrange⟩ := inDefaultRange_of_decodeUshort ht hdecoded
        obtain rfl := decoderValue_of_unscaled hu hadjusted
        obtain rfl := Option.some.inj (Except.ok.inj h)
        exact inDefaultRange_int.mpr hrange
    · cases h
  | bytes registry =>
    unfold decoderValue at h
    dsimp only at h
    split at h
    · obtain ⟨adjusted, hbytes, h⟩ := map_eq_ok_iff.mp h
      obtain rfl := Option.some.inj h
      unfold processRegisterBytes at hbytes
      split at hbytes
      · cases hbytes
      · obtain ⟨decoded, hdecoded, hadjusted⟩ := bind_eq_ok_iff.mp hbytes
        obtain ⟨i, rfl, hrange⟩ := inDefaultRange_of_decodeBytes ht hkept hdecoded
        obtain rfl := decoderValue_of_unscaled hu hadjusted
        exact inDefaultRange_int.mpr hrange
    · cases h

/-- … and so does the value of the entry. -/
theorem inDefaultRange_of_decodeEntry (hu : e.Unscaled) (ht : IntegerValued e.dataType)
    (hkept : e.RangeKept (e.getEntryByteorder ps.defaultWordOrder)) {snapshot : Snapshot}
    {value : PyValue} (h : ps.decodeEntry host snapshot e = .ok (some value)) :
    InDefaultRange e.dataType value := by
  rw [decodeEntry_eq] at h
  obtain ⟨decoded, hdecoded, hcut⟩ := bind_eq_ok_iff.mp h
  cases decoded with
  | none => cases hcut
  | some decoded =>
    obtain ⟨i, rfl, hrange⟩ := inDefaultRange_of_decoderValue hu ht hkept hdecoded
    unfold cutBits at hcut
    dsimp only at hcut
    split at hcut
    · next hoffset =>
      obtain ⟨j, hj, hcut⟩ := bind_eq_ok_iff.mp hcut
      obtain rfl := Except.ok.inj hj
      obtain ⟨bits, hbits, hcut⟩ := map_eq_ok_iff.mp hcut
      obtain rfl := Option.some.inj hcut
      exact inDefaultRange_extractBits hoffset.1 hoffset.2 ht hkept (inDefaultRange_int.mpr hrange)
        hbits
    · obtain rfl := Option.some.inj (Except.ok.inj hcut)
      exact inDefaultRange_int.mpr hrange

/-! ## Registers full of ones -/

/-- Every register holds ones only. -/
def onesWords : Snapshot := .words fun _ => some (BitVec.allOnes 16)

/-- … and every payload. -/
def onesBytes (e : RegistryMapEntry) : Snapshot :=
  .bytes fun _ => some (List.replicate (e.registerByte.toNat + 2 * e.entryWordCount + 2)
    (BitVec.allOnes 8))

theorem complete_onesWords : Complete e onesWords := fun _ _ => rfl

theorem complete_onesBytes : Complete e (onesBytes e) := by
  refine ⟨_, rfl, ?_⟩
  rw [List.length_drop, List.length_replicate]
  omega

theorem registerWordsToBytes_ones (start : Int) (count : Nat) (list : List Int) :
    registerWordsToBytes (fun _ => some (BitVec.allOnes 16)) start count order list =
      some (List.replicate (2 * count) (BitVec.allOnes 8)) := by
  have hwords : ((List.range count).mapM fun offset : Nat =>
      (fun _ : Int => some (BitVec.allOnes 16)) (list.getD offset (start + offset))) =
      some (List.replicate count (BitVec.allOnes 16)) := by
    induction count with
    | zero => rfl
    | succ count ih =>
      rw [List.range_succ, List.mapM_append, ih, List.replicate_succ']
      rfl
  have hbytes : Word.toBytes order.bytesReversed (BitVec.allOnes 16) =
      List.replicate 2 (BitVec.allOnes 8) := by
    cases order.bytesReversed <;> decide
  rw [registerWordsToBytes, hwords, Option.map_some, ProtocolGateway.registerWordsToBytes,
    List.reverse_replicate, ite_self, List.flatMap_replicate, hbytes,
    List.flatten_replicate_replicate, Nat.mul_comm]

theorem number_ones (k : Nat) : number (List.replicate k (BitVec.allOnes 8)) = ones (8 * k) := by
  have hmap := number_map_ones (List.replicate k ((0, true) : BytePlace))
  rwa [List.map_replicate, List.length_replicate] at hmap

/-- A number full of ones is `-1` in two's complement. -/
theorem signedNumber_ones {k : Nat} (hk : 0 < k) :
    signedNumber (List.replicate k (BitVec.allOnes 8)) = -1 := by
  have hlarge : 2 ^ 1 ≤ 2 ^ (8 * k) := Nat.pow_le_pow_right (by decide) (by omega)
  rw [signedNumber, List.length_replicate, number_ones, ones_eq, Int.bmod_def]
  generalize 2 ^ (8 * k) = m at hlarge
  have hmod : ((m - 1 : Nat) : Int) % m = (m : Int) - 1 := by
    rw [Int.emod_eq_of_lt (by omega) (by omega)]
    omega
  rw [hmod]
  split <;> omega

/-- The wire decoder sees ones only. -/
theorem pairBytes_ones (h : 0 < e.wireBits order) {m : Nat} (hm : e.registerByte.toNat + 2 ≤ m) :
    ∃ raw, pairBytes order (registerSlice e (List.replicate m (BitVec.allOnes 8))) = .ok raw ∧
      number raw = ones (e.wireBits order) := by
  have hslice : ∃ k, registerSlice e (List.replicate m (BitVec.allOnes 8)) =
      List.replicate k (BitVec.allOnes 8) ∧ (e.dataTypeSize = 1 → k = 1) ∧
        (e.dataTypeSize ≠ 1 → 2 ≤ k) := by
    unfold registerSlice
    dsimp only
    split <;> split
    · exact ⟨_, by rw [List.drop_replicate, List.take_replicate], by omega, by omega⟩
    · exact ⟨_, List.take_replicate, by omega, by omega⟩
    · exact ⟨_, List.drop_replicate, by omega, by omega⟩
    · exact ⟨_, rfl, by omega, by omega⟩
  obtain ⟨k, hslice, hone, hmore⟩ := hslice
  rw [hslice]
  unfold RegistryMapEntry.wireBits at h ⊢
  unfold pairBytes
  by_cases hsize : e.dataTypeSize = 1
  · rw [if_pos hsize] at h ⊢
    rw [hone hsize]
    cases hreversed : order.bytesReversed with
    | false => exact ⟨_, rfl, by decide⟩
    | true =>
      rw [if_pos hreversed] at h
      cases h
  · obtain ⟨j, rfl⟩ := Nat.exists_eq_add_of_le (hmore hsize)
    rw [if_neg hsize, Nat.add_comm]
    cases order.bytesReversed with
    | false => exact ⟨[BitVec.allOnes 8, BitVec.allOnes 8], rfl, by decide⟩
    | true => exact ⟨[BitVec.allOnes 8, BitVec.allOnes 8], rfl, by decide⟩

/-- The signed types of whole registers read `-1`. -/
theorem decodeUshort_ones
    (ht : e.dataType = .short ∨ e.dataType = .int ∨ e.dataType = .int64) :
    ps.decodeUshort order (fun _ => some (BitVec.allOnes 16)) e = .ok (some (.int (-1))) := by
  unfold decodeUshort
  rcases ht with ht | ht | ht
  · rw [ht]
    dsimp only [wordAt, Except.map]
    cases order.bytesReversed <;> rfl
  · rw [ht]
    dsimp only
    rw [registerWordsToBytes_ones, Option.map_some, signedNumber_ones (by decide)]
  · rw [ht]
    dsimp only
    rw [registerWordsToBytes_ones, Option.map_some, signedNumber_ones (by decide)]

/-- The bits cut out of `-1` are ones. -/
theorem extractBits_ones (hb : 0 ≤ e.registerBit) (hwidth : 0 ≤ e.offsetWidth) :
    extractBits (-1) e = .ok (2 ^ e.offsetWidth.toNat - 1) := by
  have hshift : (-1 : Int) >>> e.registerBit.toNat = -1 :=
    congrArg Int.negSucc (Nat.zero_shiftRight _)
  have hpos : (0 : Int) < 2 ^ e.offsetWidth.toNat := Int.pow_pos (by decide)
  have hmod : (-1 : Int) % 2 ^ e.offsetWidth.toNat = 2 ^ e.offsetWidth.toNat - 1 := by
    rw [← Int.add_emod_right, Int.emod_eq_of_lt (by omega) (by omega)]
    omega
  have hcount : shiftCount e.offsetWidth = .ok e.offsetWidth.toNat :=
    if_neg (not_lt.mpr hwidth)
  rw [extractBits, if_neg (not_lt.mpr hb)]
  show (shiftCount e.offsetWidth >>= fun width => _) = _
  rw [hcount]
  show Except.ok ((-1 : Int) >>> e.registerBit.toNat % 2 ^ e.offsetWidth.toNat) = _
  rw [hshift, hmod]

/-- A signed entry with an offset of as many bits as its type has leaves the range. -/
theorem offset_of_decodedInRange (hu : e.Unscaled)
    (ht : e.dataType = .short ∨ e.dataType = .int ∨ e.dataType = .int64)
    (h : ps.DecodedInRange host e) :
    e.registerBit < 0 ∨ 2 ^ e.offsetWidth.toNat - 1 ≤ e.dataType.getDefaultRange.2 := by
  refine Classical.or_iff_not_imp_left.mpr fun hb => ?_
  have hb := not_lt.mp hb
  by_cases hwidth : 0 ≤ e.offsetWidth
  · have hhonors : ¬decodedValueAlreadyHonorsBitOffset e = true := by
      unfold decodedValueAlreadyHonorsBitOffset
      rcases ht with ht | ht | ht <;> rw [ht] <;> decide
    have hvalue : ps.decodeEntry host onesWords e =
        .ok (some (.int (2 ^ e.offsetWidth.toNat - 1))) := by
      rw [decodeEntry_eq, onesWords, decoderValue, if_pos Option.isSome_some, processRegisterUshort,
        decodeUshort_ones ht]
      show (e.applyPostDecode host (.int (-1)) >>= _) >>= _ = _
      rw [RegistryMapEntry.applyPostDecode_int hu]
      show (if 0 ≤ e.registerBit ∧ ¬decodedValueAlreadyHonorsBitOffset e = true then _ else _) = _
      rw [if_pos ⟨hb, hhonors⟩]
      show (extractBits (-1) e >>= _) = _
      rw [extractBits_ones hb hwidth]
      rfl
    exact (inDefaultRange_int.mp (h.decoded _ complete_onesWords _ hvalue)).2
  · rw [Int.toNat_of_nonpos (not_le.mp hwidth).le]
    exact (DataType.getDefaultRange_zero_mem _).2

/-- A sign that is extended leaves the range. -/
theorem extended_le (n x : Nat) :
    (2 : Int) ^ (n - 1) ≤ ((x ||| (0xFFFFFFFFFFFFFFFF <<< n) : Nat) : Int) := by
  have hlarge : 2 ^ (n - 1) ≤ 0xFFFFFFFFFFFFFFFF <<< n := by
    rw [Nat.shiftLeft_eq]
    exact (Nat.pow_le_pow_right (by decide) (Nat.sub_le n 1)).trans
      (Nat.le_mul_of_pos_left _ (by decide))
  exact_mod_cast hlarge.trans Nat.right_le_or

/-- What the wire decoder makes of ones only is the value of a bit field. -/
theorem decodeEntry_onesBytes (hu : e.Unscaled) (hhonors : decodedValueAlreadyHonorsBitOffset e)
    {i : Int} (hdecode : ps.decodeBytes (e.getEntryByteorder ps.defaultWordOrder)
      (registerSlice e (List.replicate (e.registerByte.toNat + 2 * e.entryWordCount + 2)
        (BitVec.allOnes 8))) e = .ok (.int i)) :
    ps.decodeEntry host (onesBytes e) e = .ok (some (.int i)) := by
  rw [decodeEntry_eq, onesBytes, decoderValue, if_pos Option.isSome_some, processRegisterBytes]
  dsimp only
  rw [hdecode]
  show (e.applyPostDecode host (.int i)).map some >>= _ = _
  rw [RegistryMapEntry.applyPostDecode_int hu]
  show (if 0 ≤ e.registerBit ∧ ¬decodedValueAlreadyHonorsBitOffset e = true then _ else _) = _
  rw [if_neg fun hcut => hcut.2 hhonors]

/-- A bit field has bits of its own. -/
theorem honors_of_bits (h : 200 < e.dataType.value) :
    decodedValueAlreadyHonorsBitOffset e = true := by
  unfold decodedValueAlreadyHonorsBitOffset
  split
  · rfl
  · rfl
  · rfl
  · exact decide_eq_true h

/-- The bits of a field of set bits, and how far the decoder shifts them. -/
theorem rawBits_ones (hb : 0 ≤ e.registerBit) (hpos : 0 < e.wireBits order) :
    ∃ raw, pairBytes order (registerSlice e (List.replicate
        (e.registerByte.toNat + 2 * e.entryWordCount + 2) (BitVec.allOnes 8))) = .ok raw ∧
      number raw = ones (e.wireBits order) ∧
      shiftCount e.registerBit = .ok e.registerBit.toNat := by
  obtain ⟨raw, hraw, hnumber⟩ := pairBytes_ones hpos
    (show e.registerByte.toNat + 2 ≤ e.registerByte.toNat + 2 * e.entryWordCount + 2 by omega)
  exact ⟨raw, hraw, hnumber, if_neg (not_lt.mpr hb)⟩

/-- A signed bit field whose sign bit the wire decoder sees leaves the range. -/
theorem sBit_of_decodedInRange (hu : e.Unscaled) {n : BitWidth 2} (ht : e.dataType = .sBit n)
    (h : ps.DecodedInRange host e) : e.registerBit < 0 ∨
      (e.wireBits (e.getEntryByteorder ps.defaultWordOrder) : Int) < e.registerBit + n.val := by
  refine Classical.or_iff_not_imp_left.mpr fun hb => ?_
  have hb := not_lt.mp hb
  by_contra hseen
  have hn := n.property
  have hstart : ((e.registerBit.toNat : Nat) : Int) = e.registerBit := Int.toNat_of_nonneg hb
  obtain ⟨raw, hraw, hnumber, hcount⟩ := rawBits_ones hb
    (show 0 < e.wireBits (e.getEntryByteorder ps.defaultWordOrder) by omega)
  have hsign : (number raw).testBit (e.registerBit.toNat + n.val - 1) = true := by
    rw [hnumber, testBit_ones, decide_eq_true_iff]
    omega
  have hhonors : decodedValueAlreadyHonorsBitOffset e = true :=
    honors_of_bits (by rw [ht]; exact DataType.two_hundred_lt_value.mpr (.inr (.inl ⟨n, rfl⟩)))
  have hvalue := @decodeEntry_onesBytes ps host e hu hhonors _ (by
    rw [decodeBytes, ht]
    dsimp only
    rw [hraw]
    show (shiftCount e.registerBit >>= _) = _
    rw [hcount]
    exact if_pos hsign)
  have hrange := (inDefaultRange_int.mp (h.decoded _ complete_onesBytes _ hvalue)).2
  have hlarge := extended_le n.val (number raw >>> e.registerBit.toNat)
  rw [ht] at hrange
  simp only [DataType.getDefaultRange] at hrange
  omega

/-- A signed-magnitude bit field whose sign bit the wire decoder sees leaves the range. -/
theorem smBit_of_decodedInRange (hu : e.Unscaled) {n : BitWidth 2} (ht : e.dataType = .smBit n)
    (h : ps.DecodedInRange host e) : e.registerBit < 0 ∨
      (e.wireBits (e.getEntryByteorder ps.defaultWordOrder) : Int) ≤ e.registerBit := by
  refine Classical.or_iff_not_imp_left.mpr fun hb => ?_
  have hb := not_lt.mp hb
  by_contra hseen
  have hstart : ((e.registerBit.toNat : Nat) : Int) = e.registerBit := Int.toNat_of_nonneg hb
  obtain ⟨raw, hraw, hnumber, hcount⟩ := rawBits_ones hb
    (show 0 < e.wireBits (e.getEntryByteorder ps.defaultWordOrder) by omega)
  have hsign : (number raw).testBit e.registerBit.toNat = true := by
    rw [hnumber, testBit_ones, decide_eq_true_iff]
    omega
  have hhonors : decodedValueAlreadyHonorsBitOffset e = true :=
    honors_of_bits (by rw [ht]; exact DataType.two_hundred_lt_value.mpr (.inr (.inr ⟨n, rfl⟩)))
  have hvalue := @decodeEntry_onesBytes ps host e hu hhonors _ (by
    rw [decodeBytes, ht]
    dsimp only
    rw [hraw]
    show (shiftCount e.registerBit >>= _) = _
    rw [hcount]
    exact if_pos hsign)
  have hrange := (inDefaultRange_int.mp (h.decoded _ complete_onesBytes _ hvalue)).2
  have hlarge := extended_le n.val (number raw >>> (e.registerBit.toNat + 1))
  rw [ht] at hrange
  simp only [DataType.getDefaultRange] at hrange
  omega

/-! ## Main theorem -/

/-- An offset that covers no more bits than a number of its type has above the sign. -/
theorem offsetWidth_lt {size : Nat} (h : (2 : Int) ^ e.offsetWidth.toNat - 1 ≤ 2 ^ size - 1) :
    e.offsetWidth < size + 1 := by
  have hpow : 2 ^ e.offsetWidth.toNat ≤ 2 ^ size := by
    have hcast : (2 : Int) ^ e.offsetWidth.toNat ≤ 2 ^ size := by omega
    exact_mod_cast hcast
  have hle := (Nat.pow_le_pow_iff_right (by decide)).mp hpow
  omega

/-- **The values of an entry that is not scaled lie in the default range of its type** exactly if no
stage takes them out of it. -/
theorem decodedInRange_iff (ps : ProtocolSettings) (host : Host) {registryType : RegistryType}
    {rows : List Row} {items : List RegistryMapEntry}
    (hload : ps.loadRegistry registryType rows = some items) {e : RegistryMapEntry} (he : e ∈ items)
    (ht : IntegerValued e.dataType) (hu : e.Unscaled) :
    ps.DecodedInRange host e ↔ e.RangeKept (e.getEntryByteorder ps.defaultWordOrder) := by
  constructor
  · intro h
    unfold RegistryMapEntry.RangeKept
    split
    · next hshort =>
      have hoffset := offset_of_decodedInRange hu (.inl hshort) h
      rw [hshort] at hoffset
      exact hoffset.imp_right offsetWidth_lt
    · next hint =>
      have hoffset := offset_of_decodedInRange hu (.inr (.inl hint)) h
      rw [hint] at hoffset
      exact hoffset.imp_right offsetWidth_lt
    · next hint64 =>
      have hoffset := offset_of_decodedInRange hu (.inr (.inr hint64)) h
      rw [hint64] at hoffset
      exact hoffset.imp_right offsetWidth_lt
    · next n hsBit => exact sBit_of_decodedInRange hu hsBit h
    · next n hsmBit => exact smBit_of_decodedInRange hu hsmBit h
    · trivial
  · intro hkept
    refine ⟨fun snapshot _ value hvalue => inDefaultRange_of_decodeEntry hu ht hkept hvalue, ?_⟩
    intro hplain snapshot _ before after hnames info hinfo value hvalue
    have hsource : e.descriptionSource = "" := by
      rcases descriptionSource_of_loaded hload he with hsource | htext
      · exact hsource
      · rw [htext] at ht
        exact ht.elim
    obtain ⟨decoded, context, hdecoded, hcontext⟩ :=
      emitted_cases hplain hsource hnames hinfo hvalue
    rw [RegistryMapEntry.applyContext_of_unscaled hu] at hcontext
    rw [← Except.ok.inj hcontext]
    exact inDefaultRange_of_decodeEntry hu ht hkept hdecoded

/-- A temperature in eight bits with a sign, in the high byte of its register. -/
def temperatureRows : List Row :=
  [{ cell := "40.b8-15", variableName := "temperature", dataType := .sBit ⟨8, by decide⟩ }]

/-- A counter in eight bits without one. -/
def cyclesRows : List Row :=
  [{ cell := "40.b8-15", variableName := "cycles", dataType := .bit ⟨8, by decide⟩ }]

/-- The counter stays in its range. -/
theorem cycles_inRange : ∃ items, ({} : ProtocolSettings).loadRegistry .holding cyclesRows =
    some items ∧ ∀ e ∈ items, ({} : ProtocolSettings).DecodedInRange default e := by
  refine ⟨_, rfl, fun e he => ?_⟩
  have hload : ({} : ProtocolSettings).loadRegistry .holding cyclesRows = some _ := rfl
  have heq := List.mem_singleton.mp he
  refine (decodedInRange_iff {} default hload he ?_ ?_).mpr ?_
  · rw [heq]
    trivial
  · rw [heq]
    exact ⟨by decide, rfl, rfl, rfl⟩
  · rw [heq]
    trivial

/-- The temperature does not: minus one degree in the wire bytes is more than any register. -/
theorem not_inRange_negative : ¬∀ (ps : ProtocolSettings) (host : Host) (rows : List Row)
    (items : List RegistryMapEntry), ps.loadRegistry .holding rows = some items →
    ∀ e ∈ items, IntegerValued e.dataType → e.Unscaled → ps.DecodedInRange host e := by
  intro hall
  have hrange := hall {} default temperatureRows _ rfl _ List.mem_cons_self trivial
    ⟨by decide, rfl, rfl, rfl⟩
  obtain ⟨i, hi, -, hle⟩ := hrange.emitted rfl
    (.bytes fun a => if a = 40 then some [0xFF, 0] else none) ⟨_, rfl, by decide⟩ [] [] (by simp) _
    rfl _ rfl
  obtain rfl := PyValue.int.inj hi
  exact absurd hle (by decide)

end ProtocolSettings

end ProtocolGateway
