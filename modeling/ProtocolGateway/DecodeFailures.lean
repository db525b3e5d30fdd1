import ProtocolGateway.ContextPass
import ProtocolGateway.Lib.Outcomes

/-!
# Snapshots that cannot be decoded

`process_registery` catches no exception, so one entry that raises takes the values of all others
with it. This module collects what raises, stage by stage, as conditions on the entry and on what
the stage is given:

* decoding a flag value whose code table does not hold texts, or a payload that is too short for
  its data type (`UshortDecodes`, `BytesDecodes`);
* the `post_decode` adjustments, for an `Offset` that is no float or a `High_Low` that cannot be
  applied (`Adjusts`);
* cutting a bit range out of a number that is no integer, or one that ends before it starts
  (`Extracts`);
* the `context` adjustments and the descriptions, for numbers that are no float or no integer
  (`ContextApplies`, `Describes`).

`decodable_iff` proves that a snapshot is decoded exactly if none of them occurs.
-/

namespace ProtocolGateway

open Outcomes BigEndian BitField

/-! ## Integers and floats -/

/-- `float(i)` does not overflow. -/
def InFloatRange (i : Int) : Prop := roundMagnitude i.natAbs < 2 ^ 1024

theorem returns_roundToDouble_iff {i : Int} : Returns (roundToDouble i) ↔ InFloatRange i := by
  unfold roundToDouble InFloatRange
  dsimp only
  split
  · next h => exact iff_of_false not_returns_error (Nat.not_lt_of_le h)
  · next h => exact iff_of_true (returns_ok _) (Nat.lt_of_not_le h)

theorem returns_truncate_iff {f : Float} : Returns (truncate f) ↔ exponentBits f ≠ 2047 := by
  unfold truncate
  split
  · next h => exact iff_of_false not_returns_error (not_not_intro h)
  · next h => exact iff_of_true (returns_ok _) h

/-- Rounding at most doubles a number. -/
theorem roundMagnitude_le (n : Nat) : roundMagnitude n ≤ 2 * n := by
  unfold roundMagnitude
  split
  · omega
  · next h =>
    have hunit : 2 ^ (n.log2 - 52) ≤ n :=
      Nat.le_trans (Nat.pow_le_pow_right (by decide) (Nat.sub_le _ _))
        (Nat.log2_self_le (by omega))
    have hquotient : n / 2 ^ (n.log2 - 52) * 2 ^ (n.log2 - 52) ≤ n := Nat.div_mul_le_self _ _
    dsimp only
    split
    · rw [Nat.add_mul, Nat.one_mul]
      omega
    · omega

/-- Every number a register decodes to is small. -/
def PyValue.Small (value : PyValue) : Prop := ∀ i, value = .int i → i.natAbs < 2 ^ 128

theorem inFloatRange_of_lt {i : Int} (h : i.natAbs < 2 ^ 128) : InFloatRange i := by
  have hdouble : 2 * 2 ^ 128 ≤ 2 ^ 1024 := by decide +kernel
  have := roundMagnitude_le i.natAbs
  exact Nat.lt_of_lt_of_le (by omega) hdouble

/-- A small number is a float. -/
theorem PyValue.Small.returns_toFloat {value : PyValue} (h : value.Small)
    (hnumber : value.isNumber = true) (host : Host) : Returns (value.toFloat host) := by
  cases value with
  | int i =>
    have hi := inFloatRange_of_lt (h i rfl)
    rw [PyValue.toFloat, returns_map_iff, returns_roundToDouble_iff]
    exact hi
  | float f => exact returns_ok f
  | str text => cases hnumber

/-! ## The `post_decode` adjustments -/

namespace RegistryMapEntry

variable (e : RegistryMapEntry) (host : Host)

/-- The adjustments can be applied to a decoded number: a `High_Low` text is understood, an integer
`Offset` is a float. -/
def Adjusts (value : PyValue) : Prop :=
  value.isNumber = true →
    match e.adjustment "High_Low" with
    | some logic => ∀ x, value.toFloat host = .ok x → Returns (host.applyRangeFormula x logic)
    | none => ∀ i, e.adjustment "Offset" = some (.int i) → InFloatRange i

/-- The bit range of an entry can be cut out of an adjusted number: the number is finite, and the
range does not end before it starts. -/
def Extracts (value : PyValue) : Prop :=
  0 ≤ e.registerBit → ProtocolSettings.decodedValueAlreadyHonorsBitOffset e = false →
    value.isNumber = true →
      (∀ f, value = .float f → exponentBits f ≠ 2047) ∧ e.registerBit ≤ e.registerBitEnd + 1

variable {e host}

theorem returns_offsetValue_iff {offset : Json} :
    Returns (offsetValue host offset) ↔ ∀ i, offset = .int i → InFloatRange i := by
  cases offset with
  | int i =>
    rw [offsetValue, returns_map_iff, returns_roundToDouble_iff]
    constructor
    · rintro h j hj
      obtain rfl := Json.int.inj hj
      exact h
    · exact fun h => h i rfl
  | _ => exact iff_of_true (returns_ok _) fun i h => (by cases h)

theorem returns_scale {value : PyValue} (h : value.Small) (hnumber : value.isNumber = true) :
    Returns (e.scale host value) := by
  unfold scale
  split
  · exact returns_map_iff.mpr (h.returns_toFloat hnumber host)
  · exact returns_ok value

/-- Scaling keeps a small number small. -/
theorem small_of_scale {value scaled : PyValue} (h : value.Small) (hnumber : value.isNumber = true)
    (hscale : e.scale host value = .ok scaled) : scaled.Small ∧ scaled.isNumber = true := by
  unfold scale at hscale
  split at hscale
  · obtain ⟨f, -, rfl⟩ := map_eq_ok_iff.mp hscale
    exact ⟨fun i hi => (by cases hi), rfl⟩
  · obtain rfl := Except.ok.inj hscale
    exact ⟨h, hnumber⟩

theorem returns_addOffset_iff {value : PyValue} (h : value.Small)
    (hnumber : value.isNumber = true) : Returns (e.addOffset host value) ↔
      ∀ i, e.adjustment "Offset" = some (.int i) → InFloatRange i := by
  unfold addOffset
  cases hoffset : e.adjustment "Offset" with
  | none => exact iff_of_true (returns_ok value) fun i hi => (by cases hi)
  | some offset =>
    dsimp only
    rw [returns_bind_iff, returns_offsetValue_iff]
    constructor
    · rintro ⟨hread, -⟩ i hi
      exact hread i (Option.some.inj hi)
    · intro hread
      refine ⟨fun i hi => hread i (congrArg some hi), fun x _ => ?_⟩
      cases x with
      | none => exact returns_ok value
      | some x => exact returns_map_iff.mpr (h.returns_toFloat hnumber host)

/-- The `post_decode` stage of a decoded value. -/
theorem returns_applyPostDecode_iff {value : PyValue} (h : value.Small) :
    Returns (e.applyPostDecode host value) ↔ e.Adjusts host value := by
  cases hnumber : value.isNumber with
  | false =>
    cases value with
    | str text => exact iff_of_true (returns_ok _) fun hnot => (by cases hnot)
    | int i => cases hnumber
    | float f => cases hnumber
  | true =>
    have hadjust : e.applyPostDecode host value = (e.adjustNumber host value).map collapse := by
      cases value with
      | str text => cases hnumber
      | int i => rfl
      | float f => rfl
    rw [hadjust, returns_map_iff, adjustNumber, Adjusts]
    cases e.adjustment "High_Low" with
    | some logic =>
      dsimp only
      rw [returns_bind_iff]
      constructor
      · rintro ⟨-, hformula⟩ - x hx
        exact returns_map_iff.mp (hformula x hx)
      · exact fun hformula => ⟨h.returns_toFloat hnumber host, fun x hx =>
          returns_map_iff.mpr (hformula hnumber x hx)⟩
    | none =>
      dsimp only
      rw [returns_bind_iff]
      constructor
      · rintro ⟨⟨scaled, hscaled⟩, hoffset⟩ -
        obtain ⟨hsmall, hnum⟩ := small_of_scale h hnumber hscaled
        exact (returns_addOffset_iff hsmall hnum).mp (hoffset scaled hscaled)
      · intro hoffset
        refine ⟨returns_scale h hnumber, fun scaled hscaled => ?_⟩
        obtain ⟨hsmall, hnum⟩ := small_of_scale h hnumber hscaled
        exact (returns_addOffset_iff hsmall hnum).mpr (hoffset hnumber)

end RegistryMapEntry

/-! ## Flags -/

/-- The table holds a text for each of the names that it holds. -/
def FlagTexts (table : List (String × Json)) (names : List String) : Prop :=
  ∀ name ∈ names, ∀ json, table.lookup name = some json → ∃ text, json = .str text

theorem text?_isSome_iff {json : Json} : json.text?.isSome = true ↔ ∃ text, json = .str text := by
  cases json <;> simp [Json.text?]

theorem returns_joinTexts_iff {texts : List Json} :
    Returns (joinTexts texts) ↔ ∀ json ∈ texts, ∃ text, json = .str text := by
  have hmap : (texts.mapM Json.text?).isSome = true ↔ ∀ json ∈ texts, ∃ text, json = .str text := by
    induction texts with
    | nil => simp
    | cons json texts ih =>
      rw [List.mapM_cons, List.forall_mem_cons, ← ih, ← text?_isSome_iff]
      cases json.text? <;> cases texts.mapM Json.text? <;> simp
  rw [← hmap, joinTexts]
  cases texts.mapM Json.text? with
  | none => exact iff_of_false not_returns_error (by simp)
  | some texts => exact iff_of_true (returns_ok _) rfl

theorem returns_join_lookup_iff {table : List (String × Json)} {names : List String} :
    Returns (joinTexts (names.filterMap fun name => table.lookup name)) ↔ FlagTexts table names := by
  rw [returns_joinTexts_iff]
  constructor
  · exact fun h name hname json hjson => h json (List.mem_filterMap.mpr ⟨name, hname, hjson⟩)
  · intro h json hjson
    obtain ⟨name, hname, hlookup⟩ := List.mem_filterMap.mp hjson
    exact h name hname json hlookup

theorem flagTexts_nil {names : List String} : FlagTexts [] names :=
  fun _ _ _ h => (by cases h)

namespace ProtocolSettings

variable (ps : ProtocolSettings) (host : Host)

theorem returns_flagsUshort_iff {e : RegistryMapEntry} {val size : Nat} :
    Returns (ps.flagsUshort e val size) ↔
      FlagTexts (ps.getCodeDict e.codesKey) (flagIndexes val e.startBit size) := by
  unfold flagsUshort
  dsimp only
  split
  · next hempty =>
    rw [List.isEmpty_iff.mp hempty]
    exact iff_of_true (returns_ok _) flagTexts_nil
  · exact returns_join_lookup_iff

/-- The names `process_register_bytes` looks up for a flag value. -/
def flagNames (e : RegistryMapEntry) (val size : Nat) : List String :=
  flagIndexes val e.startBit size ++
    (multibitFlags ps.codes).filter (allBits (flagIndexes val e.startBit size))

theorem returns_flagsBytes_iff {e : RegistryMapEntry} {val size : Nat} :
    Returns (ps.flagsBytes e val size) ↔
      FlagTexts (ps.getCodeDict e.codesKey) (ps.flagNames e val size) := by
  unfold flagsBytes
  cases htable : (ps.getCodeDict e.codesKey).isEmpty with
  | true =>
    rw [List.isEmpty_iff.mp htable]
    refine iff_of_true ?_ flagTexts_nil
    split
    · exact returns_join_lookup_iff.mpr flagTexts_nil
    · exact returns_ok _
  | false =>
    have hsome : (ps.codes.lookup e.codesKey).isSome = true := by
      cases hlookup : ps.codes.lookup e.codesKey with
      | none => simp [getCodeDict, hlookup] at htable
      | some json => rfl
    rw [if_pos hsome]
    dsimp only
    rw [htable]
    exact returns_join_lookup_iff

/-! ## The two decoders -/

/-- Nothing but the texts of a flag register is in the way of `process_register_ushort`. -/
def UshortDecodes (order : WordOrder) (registry : Int → Option Word) (e : RegistryMapEntry) : Prop :=
  match e.dataType with
  | .bit8Flags | .bit16Flags => ∀ w, registry e.register = some w →
    FlagTexts (ps.getCodeDict e.codesKey)
      (flagIndexes (w.orient order.bytesReversed).toNat e.startBit e.dataType.getSize.toNat)
  | .bit32Flags => ∀ raw, registerWordsToBytes registry e.register 2 order e.registerList = some raw →
    FlagTexts (ps.getCodeDict e.codesKey) (flagIndexes (number raw) e.startBit 32)
  | _ => True

/-- What `process_register_bytes` needs of a payload: bytes to swap, the bytes of a float, a bit
offset for a bit type, and texts for flags. -/
def BytesDecodes (order : WordOrder) (payload : List Byte) (e : RegistryMapEntry) : Prop :=
  match e.dataType with
  | .float32 => 4 ≤ payload.length
  | .float64 => 8 ≤ payload.length
  | .ushort | .short => order.bytesReversed = true → 2 ≤ payload.length
  | .byte => payload ≠ [] ∧ (order.bytesReversed = true → 2 ≤ payload.length)
  | .bit _ | .sBit _ | .smBit _ =>
    (order.bytesReversed = true → 2 ≤ payload.length) ∧ 0 ≤ e.registerBit
  | .bit8Flags | .bit16Flags => FlagTexts (ps.getCodeDict e.codesKey)
      (ps.flagNames e (number (flagBytes order 1 payload)) e.dataType.getSize.toNat)
  | .bit32Flags => FlagTexts (ps.getCodeDict e.codesKey)
      (ps.flagNames e (number (flagBytes order 2 payload)) 32)
  | _ => True

variable {ps}

theorem length_swapPairs {α : Type} (xs : List α) : (swapPairs xs).length = xs.length := by
  induction xs using swapPairs.induct with
  | case1 a b rest ih => simp [swapPairs, ih]
  | case2 rest h =>
    rcases rest with _ | ⟨a, _ | ⟨b, rest⟩⟩
    · rfl
    · rfl
    · exact absurd rfl (h a b rest)

theorem length_reversePairs {α : Type} (n : Nat) (xs : List α) :
    (reversePairs n xs).length = min (2 * n) xs.length := by
  unfold reversePairs
  rw [List.length_flatten, List.map_reverse, List.sum_reverse, List.map_map]
  induction n with
  | zero => simp
  | succ n ih =>
    rw [List.range_succ, List.map_append, List.sum_append, ih]
    simp
    omega

theorem length_wideBytes {α : Type} (order : WordOrder) (n : Nat) (register : List α) :
    (wideBytes order n register).length = min (2 * n) register.length := by
  unfold wideBytes
  dsimp only
  split <;> split <;> simp only [length_swapPairs, length_reversePairs, List.length_take] <;> omega

theorem returns_pairBytes_iff {α : Type} {order : WordOrder} {register : List α} :
    Returns (pairBytes order register) ↔ (order.bytesReversed = true → 2 ≤ register.length) := by
  unfold pairBytes
  cases order.bytesReversed with
  | false => exact iff_of_true (returns_ok _) (by simp)
  | true =>
    rcases register with _ | ⟨a, _ | ⟨b, rest⟩⟩
    · exact iff_of_false not_returns_error (by simp)
    · exact iff_of_false not_returns_error (by simp)
    · exact iff_of_true (returns_ok _) (by simp)

theorem length_of_pairBytes {α : Type} {order : WordOrder} {register raw : List α}
    (h : pairBytes order register = .ok raw) : raw.length = min 2 register.length := by
  unfold pairBytes at h
  split at h
  · split at h
    · next a b htake =>
      obtain rfl := Except.ok.inj h
      have hlength := congrArg List.length htake
      rw [List.length_take] at hlength
      exact hlength.symm
    · cases h
  · obtain rfl := Except.ok.inj h
    exact List.length_take

theorem returns_shiftCount_iff {count : Int} : Returns (shiftCount count) ↔ 0 ≤ count := by
  unfold shiftCount
  split
  · next h => exact iff_of_false not_returns_error (by omega)
  · next h => exact iff_of_true (returns_ok _) (by omega)

theorem length_of_registerWordsToBytes {registry : Int → Option Word} {start : Int} {count : Nat}
    {order : WordOrder} {addresses : List Int} {raw : List Byte}
    (h : registerWordsToBytes registry start count order addresses = some raw) :
    raw.length = 2 * count := by
  obtain ⟨words, hwords, rfl⟩ := Option.map_eq_some_iff.mp h
  rw [length_registerWordsToBytes, Cell.mapM_length hwords, List.length_range]

/-- What `process_register_ushort` raises on, when the register is there. -/
theorem returns_decodeUshort_iff {order : WordOrder} {registry : Int → Option Word}
    {e : RegistryMapEntry} {w : Word} (hw : registry e.register = some w) :
    Returns (ps.decodeUshort order registry e) ↔ ps.UshortDecodes order registry e := by
  have hword : (wordAt registry e.register).map (Word.orient order.bytesReversed) =
      .ok (w.orient order.bytesReversed) := by
    rw [wordAt, hw]
    rfl
  have hbytes {count : Nat} {raw : List Byte}
      (h : registerWordsToBytes registry e.register count order e.registerList = some raw) :=
    length_of_registerWordsToBytes h
  have hflags (size : Nat) : Returns (do
      let flags ← ps.flagsUshort e
        (← (wordAt registry e.register).map (Word.orient order.bytesReversed)).toNat size
      return some (PyValue.str flags)) ↔ ∀ w, registry e.register = some w →
        FlagTexts (ps.getCodeDict e.codesKey)
          (flagIndexes (w.orient order.bytesReversed).toNat e.startBit size) := by
    rw [hword]
    refine (returns_map_iff (f := fun flags => some (PyValue.str flags))).trans ?_
    rw [returns_flagsUshort_iff]
    constructor
    · intro h w' hw'
      obtain rfl := Option.some.inj (hw.symm.trans hw')
      exact h
    · exact fun h => h w hw
  unfold decodeUshort UshortDecodes
  dsimp only
  cases e.dataType with
  | bit8Flags => exact hflags _
  | bit16Flags => exact hflags _
  | bit32Flags =>
    dsimp only
    cases hraw : registerWordsToBytes registry e.register 2 order e.registerList with
    | none => exact iff_of_true (returns_ok _) fun raw h => (by cases h)
    | some raw =>
      dsimp only
      rw [returns_map_iff, returns_flagsUshort_iff]
      exact ⟨fun h raw' hraw' => Option.some.inj hraw' ▸ h, fun h => h raw rfl⟩
  | float32 =>
    dsimp only
    cases hraw : registerWordsToBytes registry e.register 2 order e.registerList with
    | none => exact iff_of_true (returns_ok _) trivial
    | some raw =>
      refine iff_of_true (returns_map_iff.mpr ?_) trivial
      rw [unpackFloat32, if_pos (hbytes hraw)]
      exact returns_ok _
  | float64 =>
    dsimp only
    cases hraw : registerWordsToBytes registry e.register 4 order e.registerList with
    | none => exact iff_of_true (returns_ok _) trivial
    | some raw =>
      refine iff_of_true (returns_map_iff.mpr ?_) trivial
      rw [unpackFloat64, if_pos (hbytes hraw)]
      exact returns_ok _
  | _ =>
    dsimp only
    try rw [hword]
    exact iff_of_true (returns_ok _) trivial

/-- What `process_register_bytes` raises on. -/
theorem returns_decodeBytes_iff {order : WordOrder} {payload : List Byte} {e : RegistryMapEntry} :
    Returns (ps.decodeBytes order payload e) ↔ ps.BytesDecodes order payload e := by
  have hwide (n : Nat) : (wideBytes order n payload).length = 2 * n ↔ 2 * n ≤ payload.length := by
    rw [length_wideBytes]
    omega
  have hbits {f : List Byte → Nat → Except PyError PyValue} (hf : ∀ raw bitIndex,
      Returns (f raw bitIndex)) : Returns (do
        let raw ← pairBytes order payload
        let bitIndex ← shiftCount e.registerBit
        f raw bitIndex) ↔
          (order.bytesReversed = true → 2 ≤ payload.length) ∧ 0 ≤ e.registerBit := by
    rw [returns_bind_iff, returns_pairBytes_iff]
    refine and_congr_right fun hpair => ?_
    obtain ⟨raw, hraw⟩ := returns_pairBytes_iff.mpr hpair
    constructor
    · exact fun h => returns_shiftCount_iff.mp (returns_bind_iff.mp (h raw hraw)).1
    · exact fun h raw _ => returns_bind_iff.mpr
        ⟨returns_shiftCount_iff.mpr h, fun bitIndex _ => hf raw bitIndex⟩
  unfold decodeBytes BytesDecodes
  cases e.dataType with
  | ushort => exact returns_map_iff.trans returns_pairBytes_iff
  | short => exact returns_map_iff.trans returns_pairBytes_iff
  | bit8Flags => exact returns_map_iff.trans ps.returns_flagsBytes_iff
  | bit16Flags => exact returns_map_iff.trans ps.returns_flagsBytes_iff
  | bit32Flags => exact returns_map_iff.trans ps.returns_flagsBytes_iff
  | float32 =>
    dsimp only
    rw [returns_map_iff, unpackFloat32, ← hwide 2]
    split
    · next h => exact iff_of_true (returns_ok _) h
    · next h => exact iff_of_false not_returns_error h
  | float64 =>
    dsimp only
    rw [returns_map_iff, unpackFloat64, ← hwide 4]
    split
    · next h => exact iff_of_true (returns_ok _) h
    · next h => exact iff_of_false not_returns_error h
  | byte =>
    dsimp only
    rw [returns_bind_iff, returns_pairBytes_iff, and_comm (a := payload ≠ [])]
    refine and_congr_right fun hpair => ?_
    obtain ⟨raw, hraw⟩ := returns_pairBytes_iff.mpr hpair
    constructor
    · rintro h rfl
      have hlength := length_of_pairBytes hraw
      obtain rfl := List.eq_nil_of_length_eq_zero hlength
      exact not_returns_error (h [] hraw)
    · intro hne raw hraw
      have hlength := length_of_pairBytes hraw
      have hpos := List.length_pos_iff.mpr hne
      cases raw with
      | nil =>
        rw [List.length_nil] at hlength
        omega
      | cons b rest => exact returns_ok _
  | bit n => exact hbits fun raw bitIndex => returns_ok _
  | sBit n =>
    refine hbits fun raw bitIndex => ?_
    split <;> exact returns_ok _
  | smBit n =>
    refine hbits fun raw bitIndex => ?_
    split <;> exact returns_ok _
  | _ => exact iff_of_true (returns_ok _) trivial

/-! ## Decoded numbers are small -/

theorem small_number {raw : List Byte} (h : raw.length ≤ 8) :
    (PyValue.int (number raw)).Small := by
  intro i hi
  obtain rfl := PyValue.int.inj hi
  have hlt := number_lt raw
  have hle : 2 ^ (8 * raw.length) ≤ 2 ^ 64 := Nat.pow_le_pow_right (by decide) (by omega)
  have : (2 : Nat) ^ 64 < 2 ^ 128 := by decide
  rw [Int.natAbs_natCast]
  omega

theorem small_signedNumber {raw : List Byte} (h : raw.length ≤ 8) :
    (PyValue.int (signedNumber raw)).Small := by
  intro i hi
  obtain rfl := PyValue.int.inj hi
  have hle : 2 ^ (8 * raw.length) ≤ 2 ^ 64 := Nat.pow_le_pow_right (by decide) (by omega)
  have hpos : 0 < 2 ^ (8 * raw.length) := Nat.two_pow_pos _
  have hlo := Int.le_bmod (x := number raw) hpos
  have hhi := Int.bmod_lt (x := number raw) hpos
  have : (2 : Nat) ^ 64 < 2 ^ 128 := by decide
  rw [signedNumber]
  omega

theorem small_of_lt {i : Int} (h : i.natAbs < 2 ^ 64) : (PyValue.int i).Small := by
  intro j hj
  obtain rfl := PyValue.int.inj hj
  have : (2 : Nat) ^ 64 < 2 ^ 128 := by decide
  omega

theorem small_float (f : Float) : (PyValue.float f).Small := fun i hi => (by cases hi)

theorem small_str (text : String) : (PyValue.str text).Small := fun i hi => (by cases hi)

theorem field_le (lo n x : Nat) : field lo n x ≤ x := by
  rw [field_eq]
  exact Nat.le_trans (Nat.mod_le _ _) (Nat.div_le_self _ _)

/-- A field of a register, with a sign. -/
theorem small_field {m n : Nat} (hm : m < 2 ^ 16) (hn : n ≤ 16) :
    (PyValue.int ((m : Int) - 2 ^ n)).Small ∧ (PyValue.int (-(m : Int))).Small ∧
      (PyValue.int m).Small := by
  have hpow : (2 : Nat) ^ n ≤ 2 ^ 16 := Nat.pow_le_pow_right (by decide) hn
  have hsub := Int.natAbs_sub_le (m : Int) (2 ^ n)
  rw [Int.natAbs_natCast, Int.natAbs_pow] at hsub
  refine ⟨small_of_lt ?_, small_of_lt ?_, small_of_lt ?_⟩
  · exact Nat.lt_of_le_of_lt hsub (Nat.lt_of_le_of_lt (Nat.add_le_add hm.le hpow) (by decide))
  · rw [Int.natAbs_neg, Int.natAbs_natCast]
    omega
  · rw [Int.natAbs_natCast]
    omega

/-- What `process_register_ushort` decodes is small. -/
theorem small_of_decodeUshort {order : WordOrder} {registry : Int → Option Word}
    {e : RegistryMapEntry} {value : PyValue}
    (h : ps.decodeUshort order registry e = .ok (some value)) : value.Small := by
  have hbytes {count : Nat} {f : List Byte → PyValue} (hf : ∀ raw, raw.length = 2 * count →
      (f raw).Small) (h : (.ok ((registerWordsToBytes registry e.register count order
        e.registerList).map f) : Except PyError (Option PyValue)) = .ok (some value)) :
      value.Small := by
    obtain ⟨raw, hraw, rfl⟩ := Option.map_eq_some_iff.mp (Except.ok.inj h)
    exact hf raw (length_of_registerWordsToBytes hraw)
  have hword {f : Word → PyValue} (hf : ∀ w : Word, w.toNat < 2 ^ 16 → (f w).Small)
      (h : ((wordAt registry e.register).map (Word.orient order.bytesReversed)).map
        (fun w => some (f w)) = .ok (some value)) : value.Small := by
    obtain ⟨w, -, hvalue⟩ := map_eq_ok_iff.mp h
    obtain rfl := Option.some.inj hvalue
    exact hf w w.isLt
  have hmapped {α : Type} {x : Except PyError α} {f : α → PyValue} (hf : ∀ a, (f a).Small)
      (h : x.map (fun a => some (f a)) = .ok (some value)) : value.Small := by
    obtain ⟨a, -, hvalue⟩ := map_eq_ok_iff.mp h
    obtain rfl := Option.some.inj hvalue
    exact hf a
  have htext {raw : Option (List Byte)} (h : (.ok (raw.map fun raw =>
      .str (decodeTextBytes raw)) : Except PyError (Option PyValue)) = .ok (some value)) :
      value.Small := by
    obtain ⟨raw, -, rfl⟩ := Option.map_eq_some_iff.mp (Except.ok.inj h)
    exact small_str _
  have hflags {size : Nat} (h : (do
      let flags ← ps.flagsUshort e
        (← (wordAt registry e.register).map (Word.orient order.bytesReversed)).toNat size
      return some (PyValue.str flags)) = .ok (some value)) : value.Small := by
    obtain ⟨w, -, h⟩ := bind_eq_ok_iff.mp h
    exact hmapped small_str h
  unfold decodeUshort at h
  dsimp only at h
  revert h
  cases e.dataType with
  | uint => exact hbytes fun raw hlength => small_number (by omega)
  | acc32 => exact hbytes fun raw hlength => small_number (by omega)
  | uint64 => exact hbytes fun raw hlength => small_number (by omega)
  | int => exact hbytes fun raw hlength => small_signedNumber (by omega)
  | int64 => exact hbytes fun raw hlength => small_signedNumber (by omega)
  | ushort => exact hword fun w hw => (small_field hw (Nat.le_refl 16)).2.2
  | short =>
    refine hword fun w hw => ?_
    split
    · exact (small_field hw (Nat.le_refl 16)).1
    · exact (small_field hw (Nat.le_refl 16)).2.2
  | byte => exact hword fun w _ => small_of_lt (by omega)
  | bit n =>
    exact hword fun w hw =>
      (small_field (Nat.lt_of_le_of_lt (field_le e.startBit n.val w.toNat) hw) n.property.2).2.2
  | sBit n =>
    refine hword fun w hw => ?_
    have hsmall := small_field (Nat.lt_of_le_of_lt (field_le e.startBit n.val w.toNat) hw)
      n.property.2
    split
    · exact hsmall.1
    · exact hsmall.2.2
  | smBit n =>
    refine hword fun w hw => ?_
    have hsmall := small_field
      (Nat.lt_of_le_of_lt (field_le (e.startBit + 1) (n.val - 1) w.toNat) hw) n.property.2
    split
    · exact hsmall.2.1
    · exact hsmall.2.2
  | hex => exact hword fun w _ => small_str _
  | ascii => exact htext
  | string => exact htext
  | string16 => exact htext
  | string32 => exact htext
  | bit8Flags => exact hflags
  | bit16Flags => exact hflags
  | bit32Flags =>
    dsimp only
    intro h
    split at h
    · exact hmapped small_str h
    · cases Except.ok.inj h
  | float32 =>
    dsimp only
    intro h
    split at h
    · exact hmapped small_float h
    · cases Except.ok.inj h
  | float64 =>
    dsimp only
    intro h
    split at h
    · exact hmapped small_float h
    · cases Except.ok.inj h

/-- Sign extension in 64 bits, as `process_register_bytes` does it. -/
theorem small_extended {m n : Nat} (hm : m < 2 ^ 64) (hn : n ≤ 16) :
    (PyValue.int (m ||| (0xFFFFFFFFFFFFFFFF <<< n) : Nat)).Small := by
  intro i hi
  obtain rfl := PyValue.int.inj hi
  rw [Int.natAbs_natCast]
  refine Nat.or_lt_two_pow (Nat.lt_of_lt_of_le hm (by decide)) ?_
  rw [Nat.shiftLeft_eq]
  have hpow : (2 : Nat) ^ n ≤ 2 ^ 16 := Nat.pow_le_pow_right (by decide) hn
  calc 0xFFFFFFFFFFFFFFFF * 2 ^ n ≤ 0xFFFFFFFFFFFFFFFF * 2 ^ 16 := Nat.mul_le_mul_left _ hpow
    _ < 2 ^ 128 := by decide

/-- What `process_register_bytes` decodes is small. -/
theorem small_of_decodeBytes {order : WordOrder} {payload : List Byte} {e : RegistryMapEntry}
    {value : PyValue} (h : ps.decodeBytes order payload e = .ok value) : value.Small := by
  have hmapped {α : Type} {x : Except PyError α} {f : α → PyValue} (hf : ∀ a, (f a).Small)
      (h : x.map f = .ok value) : value.Small := by
    obtain ⟨a, -, rfl⟩ := map_eq_ok_iff.mp h
    exact hf a
  have hpair {f : List Byte → PyValue} (hf : ∀ raw, raw.length ≤ 2 → (f raw).Small)
      (h : (pairBytes order payload).map f = .ok value) : value.Small := by
    obtain ⟨raw, hraw, rfl⟩ := map_eq_ok_iff.mp h
    exact hf raw (by rw [length_of_pairBytes hraw]; omega)
  have hregister {raw : List Byte} (hraw : pairBytes order payload = .ok raw) :
      number raw < 2 ^ 16 := by
    have hlength := length_of_pairBytes hraw
    exact Nat.lt_of_lt_of_le (number_lt raw) (Nat.pow_le_pow_right (by decide) (by omega))
  have hwide (n : Nat) : (wideBytes order n payload).length ≤ 2 * n := by
    rw [length_wideBytes]
    omega
  unfold decodeBytes at h
  revert h
  cases e.dataType with
  | uint => exact fun h => Except.ok.inj h ▸ small_number (by have := hwide 2; omega)
  | acc32 => exact fun h => Except.ok.inj h ▸ small_number (by have := hwide 2; omega)
  | int => exact fun h => Except.ok.inj h ▸ small_signedNumber (by have := hwide 2; omega)
  | uint64 => exact fun h => Except.ok.inj h ▸ small_number (by have := hwide 4; omega)
  | int64 => exact fun h => Except.ok.inj h ▸ small_signedNumber (by have := hwide 4; omega)
  | float32 => exact hmapped small_float
  | float64 => exact hmapped small_float
  | ushort => exact hpair fun raw hlength => small_number (by omega)
  | short => exact hpair fun raw hlength => small_signedNumber (by omega)
  | bit8Flags => exact hmapped small_str
  | bit16Flags => exact hmapped small_str
  | bit32Flags => exact hmapped small_str
  | smBit n =>
    dsimp only
    intro h
    obtain ⟨raw, hraw, h⟩ := bind_eq_ok_iff.mp h
    obtain ⟨bitIndex, -, h⟩ := bind_eq_ok_iff.mp h
    have hlt := hregister hraw
    split at h
    · obtain rfl := Except.ok.inj h
      refine small_extended (Nat.lt_of_le_of_lt ?_ (Nat.lt_trans hlt (by decide))) n.property.2
      rw [Nat.shiftRight_eq_div_pow]
      exact Nat.div_le_self _ _
    · obtain rfl := Except.ok.inj h
      exact (small_field (Nat.lt_of_le_of_lt (field_le _ _ _) hlt) n.property.2).2.2
  | sBit n =>
    dsimp only
    intro h
    obtain ⟨raw, hraw, h⟩ := bind_eq_ok_iff.mp h
    obtain ⟨bitIndex, -, h⟩ := bind_eq_ok_iff.mp h
    have hlt := hregister hraw
    split at h
    · obtain rfl := Except.ok.inj h
      refine small_extended (Nat.lt_of_le_of_lt ?_ (Nat.lt_trans hlt (by decide))) n.property.2
      rw [Nat.shiftRight_eq_div_pow]
      exact Nat.div_le_self _ _
    · obtain rfl := Except.ok.inj h
      exact (small_field (Nat.lt_of_le_of_lt (field_le _ _ _) hlt) n.property.2).2.2
  | byte =>
    dsimp only
    intro h
    obtain ⟨raw, -, h⟩ := bind_eq_ok_iff.mp h
    cases raw with
    | nil => cases h
    | cons b rest =>
      obtain rfl := Except.ok.inj h
      exact small_of_lt (by omega)
  | bit n =>
    dsimp only
    intro h
    obtain ⟨raw, hraw, h⟩ := bind_eq_ok_iff.mp h
    obtain ⟨bitIndex, -, h⟩ := bind_eq_ok_iff.mp h
    obtain rfl := Except.ok.inj h
    exact (small_field (Nat.lt_of_le_of_lt (field_le _ _ _) (hregister hraw)) n.property.2).2.2
  | hex => exact fun h => Except.ok.inj h ▸ small_str _
  | ascii => exact fun h => Except.ok.inj h ▸ small_str _
  | string => exact fun h => Except.ok.inj h ▸ small_str _
  | string16 => exact fun h => Except.ok.inj h ▸ small_str _
  | string32 => exact fun h => Except.ok.inj h ▸ small_str _

/-! ## One entry -/

variable (ps)

/-- Nothing raises while an entry is decoded from a snapshot: not its decoder, not the adjustments
of what that gives, not the bit range of what those give. -/
def EntryDecodes (snapshot : Snapshot) (e : RegistryMapEntry) : Prop :=
  let order := e.getEntryByteorder ps.defaultWordOrder
  match snapshot with
  | .words registry => (registry e.register).isSome = true →
    ps.UshortDecodes order registry e ∧
      ∀ value, ps.decodeUshort order registry e = .ok (some value) →
        e.Adjusts host value ∧
          ∀ adjusted, e.applyPostDecode host value = .ok adjusted → e.Extracts adjusted
  | .bytes registry => ∀ payload, registry e.register = some payload →
    ps.BytesDecodes order (registerSlice e payload) e ∧
      ∀ value, ps.decodeBytes order (registerSlice e payload) e = .ok value →
        e.Adjusts host value ∧
          ∀ adjusted, e.applyPostDecode host value = .ok adjusted → e.Extracts adjusted

variable {ps host}

theorem returns_extractBits_iff {e : RegistryMapEntry} {i : Int} (h : 0 ≤ e.registerBit) :
    Returns (extractBits i e) ↔ e.registerBit ≤ e.registerBitEnd + 1 := by
  rw [extractBits, if_neg (by omega)]
  refine returns_map_iff.trans (returns_shiftCount_iff.trans ?_)
  omega

theorem returns_toInt_iff {value : PyValue} (hnumber : value.isNumber = true) :
    Returns value.toInt ↔ ∀ f, value = .float f → exponentBits f ≠ 2047 := by
  cases value with
  | int i => exact iff_of_true (returns_ok i) fun f hf => (by cases hf)
  | float f =>
    refine returns_truncate_iff.trans ⟨fun h f' hf => ?_, fun h => h f rfl⟩
    obtain rfl := PyValue.float.inj hf
    exact h
  | str text => cases hnumber

/-- The last stage of an entry. -/
theorem returns_cut_iff {e : RegistryMapEntry} {value : PyValue} :
    Returns (match (some value : Option PyValue) with
      | none => (.ok none : Except PyError (Option PyValue))
      | some (.str s) => return some (.str s)
      | some number =>
        if 0 ≤ e.registerBit ∧ ¬decodedValueAlreadyHonorsBitOffset e then do
          return some (.int (← extractBits (← number.toInt) e))
        else return some number) ↔ e.Extracts value := by
  have hnumber (hvalue : value.isNumber = true) : Returns (
      if 0 ≤ e.registerBit ∧ ¬decodedValueAlreadyHonorsBitOffset e then do
        return some (PyValue.int (← extractBits (← value.toInt) e))
      else (.ok (some value) : Except PyError (Option PyValue))) ↔ e.Extracts value := by
    by_cases hcut : 0 ≤ e.registerBit ∧ ¬decodedValueAlreadyHonorsBitOffset e
    · rw [if_pos hcut, returns_bind_iff, returns_toInt_iff hvalue]
      have hextract (i : Int) : Returns (do
          let bits ← extractBits i e
          (.ok (some (PyValue.int bits)) : Except PyError _)) ↔
            e.registerBit ≤ e.registerBitEnd + 1 :=
        (returns_map_iff (f := fun bits => some (PyValue.int bits))).trans
          (returns_extractBits_iff hcut.1)
      constructor
      · rintro ⟨hfinite, hbits⟩ - - -
        obtain ⟨i, hi⟩ := (returns_toInt_iff hvalue).mpr hfinite
        exact ⟨hfinite, (hextract i).mp (hbits i hi)⟩
      · intro h
        obtain ⟨hfinite, hbits⟩ := h hcut.1 (by simpa using hcut.2) hvalue
        exact ⟨hfinite, fun i _ => (hextract i).mpr hbits⟩
    · rw [if_neg hcut]
      refine iff_of_true (returns_ok _) fun hbit hhonors _ => absurd ⟨hbit, ?_⟩ hcut
      simp [hhonors]
  cases value with
  | str text => exact iff_of_true (returns_ok _) fun _ _ h => (by cases h)
  | int i => exact hnumber rfl
  | float f => exact hnumber rfl

/-- An entry is decoded exactly if nothing in it raises. -/
theorem returns_decodeEntry_iff {snapshot : Snapshot} {e : RegistryMapEntry} :
    Returns (ps.decodeEntry host snapshot e) ↔ ps.EntryDecodes host snapshot e := by
  have hcollapse {value adjusted : PyValue} (h : e.applyPostDecode host value = .ok adjusted) :
      collapse adjusted = adjusted := by
    have hmap : (e.applyPostDecode host value).map collapse = e.applyPostDecode host value :=
      RegistryMapEntry.applyPostDecode_collapse value
    rw [h] at hmap
    exact Except.ok.inj hmap
  cases snapshot with
  | words registry =>
    unfold decodeEntry EntryDecodes
    dsimp only
    cases hw : registry e.register with
    | none =>
      refine iff_of_true (returns_ok _) fun h => ?_
      rw [Option.isSome_none] at h
      cases h
    | some w =>
      rw [if_pos (by rfl), returns_bind_iff, processRegisterUshort, returns_bind_iff,
        returns_decodeUshort_iff hw]
      constructor
      · rintro ⟨⟨hdecodes, hadjusts⟩, hcuts⟩ -
        refine ⟨hdecodes, fun value hvalue => ?_⟩
        have hpost := (returns_map_iff (f := fun a => some (collapse a))).mp (hadjusts _ hvalue)
        refine ⟨(RegistryMapEntry.returns_applyPostDecode_iff
          (small_of_decodeUshort hvalue)).mp hpost, fun adjusted hadjusted => ?_⟩
        refine returns_cut_iff.mp (hcuts _ (bind_eq_ok_iff.mpr ⟨_, hvalue, ?_⟩))
        refine (map_eq_ok_iff (f := fun a => some (collapse a))).mpr ⟨adjusted, hadjusted, ?_⟩
        rw [hcollapse hadjusted]
      · intro h
        obtain ⟨hdecodes, hvalues⟩ := h rfl
        refine ⟨⟨hdecodes, fun value hvalue => ?_⟩, fun value hvalue => ?_⟩
        · cases value with
          | none => exact returns_ok _
          | some value =>
            exact (returns_map_iff (f := fun a => some (collapse a))).mpr
              ((RegistryMapEntry.returns_applyPostDecode_iff
                (small_of_decodeUshort hvalue)).mpr (hvalues value hvalue).1)
        · obtain ⟨decoded, hdecoded, hvalue⟩ := bind_eq_ok_iff.mp hvalue
          cases decoded with
          | none =>
            obtain rfl := Except.ok.inj hvalue
            exact returns_ok _
          | some decoded =>
            obtain ⟨adjusted, hadjusted, rfl⟩ :=
              (map_eq_ok_iff (f := fun a => some (collapse a))).mp hvalue
            rw [hcollapse hadjusted]
            exact returns_cut_iff.mpr ((hvalues decoded hdecoded).2 adjusted hadjusted)
  | bytes registry =>
    unfold decodeEntry EntryDecodes
    dsimp only
    cases hpayload : registry e.register with
    | none => exact iff_of_true (returns_ok _) fun payload h => (by cases h)
    | some payload =>
      rw [if_pos (by rfl), returns_bind_iff, returns_map_iff, processRegisterBytes, hpayload]
      dsimp only
      rw [returns_bind_iff, returns_decodeBytes_iff]
      constructor
      · rintro ⟨⟨hdecodes, hadjusts⟩, hcuts⟩ payload' hpayload'
        obtain rfl := Option.some.inj hpayload'
        refine ⟨hdecodes, fun value hvalue => ⟨(RegistryMapEntry.returns_applyPostDecode_iff
          (small_of_decodeBytes hvalue)).mp (hadjusts value hvalue), fun adjusted hadjusted => ?_⟩⟩
        exact returns_cut_iff.mp (hcuts _ (map_eq_ok_iff.mpr
          ⟨adjusted, bind_eq_ok_iff.mpr ⟨value, hvalue, hadjusted⟩, rfl⟩))
      · intro h
        obtain ⟨hdecodes, hvalues⟩ := h payload rfl
        refine ⟨⟨hdecodes, fun value hvalue => (RegistryMapEntry.returns_applyPostDecode_iff
          (small_of_decodeBytes hvalue)).mpr (hvalues value hvalue).1⟩, fun value hvalue => ?_⟩
        obtain ⟨adjusted, hbytes, rfl⟩ := map_eq_ok_iff.mp hvalue
        obtain ⟨decoded, hdecoded, hadjusted⟩ := bind_eq_ok_iff.mp hbytes
        exact returns_cut_iff.mpr ((hvalues decoded hdecoded).2 adjusted hadjusted)

/-! ## The decode loop -/

/-- The members of a loaded range are distinct. -/
theorem nodup_of_rangeForm {e : RegistryMapEntry} (h : RangeForm e) (hc : e.concatenate = true) :
    e.concatenateRegisters.Nodup := by
  have hascending (start : Int) (n : Nat) : (Cell.ascending start n).Nodup :=
    List.nodup_range.map fun i j hij => by omega
  obtain ⟨start, n, heq | heq⟩ := h hc
  · rw [heq]
    exact hascending start n
  · rw [heq]
    exact List.nodup_reverse.mpr (hascending start n)

/-- The texts of a complete range can be taken out one after the other. -/
theorem returns_joinRange {keys : List Int} {d : Dict Int PyValue} (hn : keys.Nodup)
    (h : ∀ key ∈ keys, (d.get? key).isSome = true) : Returns (joinRange host keys d) := by
  induction keys generalizing d with
  | nil => exact returns_ok _
  | cons key keys ih =>
    obtain ⟨hnot, hn⟩ := List.nodup_cons.mp hn
    obtain ⟨value, hvalue⟩ := Option.isSome_iff_exists.mp (h key List.mem_cons_self)
    unfold joinRange
    rw [hvalue]
    refine returns_map_iff.mpr (ih hn fun key' hkey' => ?_)
    have hne : key' ≠ key := by
      rintro rfl
      exact hnot hkey'
    rw [Dict.get?_filter_ne d hne]
    exact h key' (List.mem_cons_of_mem _ hkey')

theorem returns_fileValue {decoded : Decoded} {e : RegistryMapEntry} {value : PyValue}
    (h : RangeForm e) : Returns (fileValue host decoded e value) := by
  unfold fileValue
  split
  · next hc =>
    dsimp only
    split
    · next hall =>
      refine returns_map_iff.mpr (returns_joinRange (nodup_of_rangeForm h hc) fun key hkey => ?_)
      exact List.all_eq_true.mp hall key hkey
    · exact returns_ok _
  · exact returns_ok _

/-- The first loop returns exactly if every entry with a register of its own is decoded. -/
theorem returns_decodedInfo_iff {snapshot : Snapshot} {registryMap : List RegistryMapEntry}
    (h : ∀ e ∈ registryMap, RangeForm e) :
    Returns (ps.decodedInfo host snapshot registryMap) ↔
      ∀ e ∈ registryMap, e.descriptionSource = "" → ps.EntryDecodes host snapshot e := by
  refine returns_map_iff.trans (returns_foldlM_iff_forall fun e he decoded => ?_)
  unfold decodeStep
  by_cases hsource : e.descriptionSource = ""
  · rw [if_neg (not_not_intro hsource), returns_bind_iff, returns_decodeEntry_iff]
    constructor
    · exact fun hentry _ => hentry.1
    · intro hentry
      refine ⟨hentry hsource, fun value _ => ?_⟩
      cases value with
      | none => exact returns_ok _
      | some value => exact returns_fileValue (h e he)
  · rw [if_pos hsource]
    exact iff_of_true (returns_ok _) fun heq => absurd heq hsource

/-! ## The context pass -/

/-- A bound of a `range` is read: it is not infinite. -/
def BoundReads (item : Json) : Prop :=
  ∀ f, item = .float f → exponentBits f = 2047 → f.toBits.toNat % 2 ^ 52 ≠ 0

/-- The bounds of a `range` are read. The second bound of a list is looked at after the first, and
the numbers of a text must not be too long. -/
def RangeReads : Json → Prop
  | .list [first, second] => BoundReads first ∧
    ((∃ low, ContextRange.itemNumber first = .ok (some low)) → BoundReads second)
  | .str spec => ∀ low high, ContextRange.matchText spec.toList = some (low, high) →
    (Text.decimal? low.2).isSome = true ∧ (Text.decimal? high.2).isSome = true
  | _ => True

variable (host) (formulas : Formulas)

/-- A `Context` adjustment returns for a number and a value of its key: its range is read if it is
needed, and a number that a formula is applied to is a float. -/
def TransformReturns (items : List (String × Json)) (value contextValue : PyValue) : Prop :=
  (casesFormula host formulas items (collapse contextValue) = "" →
    ∀ spec, items.lookup "range" = some spec → RangeReads spec) ∧
  ∀ i formula, value = .int i →
    chooseFormula host formulas items (collapse contextValue) = .ok formula → formula ≠ "" →
      InFloatRange i

/-- The `context` stage of a row returns. -/
def ContextApplies (info : Dict String PyValue) (e : RegistryMapEntry) : Prop :=
  ∀ items value contextValue, e.contextItems host formulas = some items →
    info.get? e.variableName = some value → value.isNumber = true →
      info.get? (contextKey host formulas items) = some contextValue →
        TransformReturns host formulas items value contextValue

variable {host formulas}

theorem returns_itemNumber_iff {item : Json} :
    Returns (ContextRange.itemNumber item) ↔ BoundReads item := by
  cases item with
  | float f =>
    have hbound : BoundReads (.float f) ↔
        (exponentBits f = 2047 → f.toBits.toNat % 2 ^ 52 ≠ 0) := by
      refine ⟨fun h => h f rfl, fun h f' hf' => ?_⟩
      obtain rfl := Json.float.inj hf'
      exact h
    rw [hbound]
    unfold ContextRange.itemNumber truncate
    by_cases hexponent : exponentBits f = 2047
    · by_cases hfraction : f.toBits.toNat % 2 ^ 52 = 0
      · simp only [hexponent, hfraction, if_true]
        exact iff_of_false not_returns_error (by simp)
      · simp only [hexponent, hfraction, if_true, if_false]
        exact iff_of_true (returns_ok _) fun _ => hfraction
    · simp only [hexponent, if_false]
      exact iff_of_true (returns_ok _) (by simp)
  | _ => exact iff_of_true (returns_ok _) fun f hf => (by cases hf)

theorem returns_groupNumber_iff {group : Int × List Char} :
    Returns (ContextRange.groupNumber group) ↔ (Text.decimal? group.2).isSome = true := by
  obtain ⟨sign, digits⟩ := group
  unfold ContextRange.groupNumber
  dsimp only
  cases Text.decimal? digits with
  | none => exact iff_of_false not_returns_error (by simp)
  | some n => exact iff_of_true (returns_ok _) rfl

theorem returns_contextRangeBounds_iff {spec : Json} :
    Returns (ContextRange.contextRangeBounds spec) ↔ RangeReads spec := by
  unfold ContextRange.contextRangeBounds
  split
  · next first second =>
    rw [returns_bind_iff, returns_itemNumber_iff, RangeReads]
    refine and_congr_right fun hfirst => ?_
    obtain ⟨low, hlow⟩ := returns_itemNumber_iff.mpr hfirst
    constructor
    · rintro h ⟨low', hlow'⟩
      have hsecond := h _ hlow'
      exact returns_itemNumber_iff.mp (returns_bind_iff.mp hsecond).1
    · intro h low' hlow'
      cases low' with
      | none => exact returns_ok _
      | some low' =>
        refine returns_bind_iff.mpr ⟨returns_itemNumber_iff.mpr (h ⟨low', hlow'⟩), fun high _ => ?_⟩
        cases high <;> exact returns_ok _
  · next spec =>
    rw [RangeReads]
    cases hmatch : ContextRange.matchText spec.toList with
    | none => exact iff_of_true (returns_ok _) fun low high h => (by cases h)
    | some bounds =>
      obtain ⟨low, high⟩ := bounds
      dsimp only
      rw [returns_bind_iff, returns_groupNumber_iff]
      constructor
      · rintro ⟨hlow, h⟩ low' high' heq
        obtain ⟨rfl, rfl⟩ := Prod.mk.inj (Option.some.inj heq)
        obtain ⟨n, hn⟩ := returns_groupNumber_iff.mpr hlow
        exact ⟨hlow, returns_groupNumber_iff.mp (returns_bind_iff.mp (h n hn)).1⟩
      · intro h
        obtain ⟨hlow, hhigh⟩ := h low high rfl
        exact ⟨hlow, fun n _ => returns_bind_iff.mpr
          ⟨returns_groupNumber_iff.mpr hhigh, fun m _ => returns_ok _⟩⟩
  · next spec hlist hstr =>
    refine iff_of_true (returns_ok _) ?_
    unfold RangeReads
    split
    · next first second => exact absurd rfl (hlist first second)
    · next spec => exact absurd rfl (hstr spec)
    · trivial

theorem returns_chooseFormula_iff {items : List (String × Json)} {contextValue : PyValue} :
    Returns (chooseFormula host formulas items contextValue) ↔
      (casesFormula host formulas items contextValue = "" →
        ∀ spec, items.lookup "range" = some spec → RangeReads spec) := by
  have hrange : Returns (rangeFormula items contextValue) ↔
      ∀ spec, items.lookup "range" = some spec → RangeReads spec := by
    unfold rangeFormula
    cases items.lookup "range" with
    | none => exact iff_of_true (returns_ok _) fun spec h => (by cases h)
    | some spec =>
      dsimp only
      rw [returns_bind_iff, returns_contextRangeBounds_iff]
      constructor
      · rintro ⟨h, -⟩ spec' hspec'
        obtain rfl := Option.some.inj hspec'
        exact h
      · refine fun h => ⟨h spec rfl, fun bounds _ => ?_⟩
        split <;> exact returns_ok _
  unfold chooseFormula
  by_cases hcases : casesFormula host formulas items contextValue = ""
  · rw [if_neg (not_not_intro hcases)]
    refine Iff.trans ?_ (forall_prop_of_true hcases).symm
    rw [← hrange]
    refine returns_bind_iff.trans (and_iff_left fun formula _ => ?_)
    split <;> exact returns_ok _
  · rw [if_pos hcases]
    exact iff_of_true (returns_ok _) fun h => absurd h hcases

/-- What a `Context` adjustment raises on. -/
theorem returns_contextTransform_iff {items : List (String × Json)} {value contextValue : PyValue}
    (hnumber : value.isNumber = true) :
    Returns (contextTransform host formulas items value contextValue) ↔
      TransformReturns host formulas items value contextValue := by
  have hfloat : Returns (value.toFloat host) ↔ ∀ i, value = .int i → InFloatRange i := by
    cases value with
    | int i =>
      rw [PyValue.toFloat, returns_map_iff, returns_roundToDouble_iff]
      constructor
      · intro h j hj
        obtain rfl := PyValue.int.inj hj
        exact h
      · exact fun h => h i rfl
    | float f => exact iff_of_true (returns_ok f) fun i hi => (by cases hi)
    | str text => cases hnumber
  unfold contextTransform TransformReturns
  rw [returns_bind_iff, returns_chooseFormula_iff]
  refine and_congr_right fun hchoose => ?_
  constructor
  · intro h i formula hvalue hformula hne
    have hrest := h formula hformula
    rw [if_neg hne] at hrest
    exact hfloat.mp (returns_bind_iff.mp hrest).1 i hvalue
  · intro h formula hformula
    by_cases hne : formula = ""
    · rw [if_pos hne]
      exact returns_ok _
    · rw [if_neg hne]
      refine returns_bind_iff.mpr ⟨hfloat.mpr fun i hi => h i formula hi hformula hne,
        fun x _ => ?_⟩
      cases formulas.evaluate formula x <;> exact returns_ok _

/-- The context pass raises in a row whose adjustment does. -/
theorem returns_contextStep_iff {info : Dict String PyValue} {e : RegistryMapEntry} :
    Returns (contextStep (host.withContext formulas (contextTransform host formulas)) info e) ↔
      ContextApplies host formulas info e := by
  unfold contextStep
  cases hvalue : info.get? e.variableName with
  | none =>
    refine iff_of_true (returns_ok _) fun items value contextValue _ h => ?_
    rw [hvalue] at h
    cases h
  | some value =>
    dsimp only
    refine (returns_map_iff (f := fun adjusted => info.set e.variableName adjusted)).trans ?_
    cases hitems : e.contextItems host formulas with
    | none =>
      rw [applyContext_of_none hitems]
      refine iff_of_true (returns_ok _) fun items value contextValue h => ?_
      rw [hitems] at h
      cases h
    | some items =>
      rw [applyContext_of_some hitems]
      cases hkey : info.get? (contextKey host formulas items) with
      | none =>
        rw [show info.items.lookup (contextKey host formulas items) = none from hkey]
        refine iff_of_true (returns_ok _) fun items' value contextValue h _ _ hkey' => ?_
        obtain rfl := Option.some.inj (hitems.symm.trans h)
        rw [hkey] at hkey'
        cases hkey'
      | some contextValue =>
        rw [show info.items.lookup (contextKey host formulas items) = some contextValue from hkey]
        dsimp only
        cases hnumber : value.isNumber with
        | false =>
          refine iff_of_true (returns_ok _) fun _ value' _ _ hvalue' hnumber' => ?_
          obtain rfl := Option.some.inj (hvalue.symm.trans hvalue')
          rw [hnumber] at hnumber'
          cases hnumber'
        | true =>
          refine (returns_contextTransform_iff hnumber).trans ⟨?_, ?_⟩
          · intro h items' value' contextValue' hitems' hvalue' _ hkey'
            obtain rfl := Option.some.inj (hitems.symm.trans hitems')
            obtain rfl := Option.some.inj (hvalue.symm.trans hvalue')
            obtain rfl := Option.some.inj (hkey.symm.trans hkey')
            exact h
          · exact fun h => h items value contextValue hitems hvalue hnumber hkey

/-! ## The descriptions -/

/-- `int(float(value))` raises nothing but a caught `ValueError`: the value is not infinite, and as
an integer it is a float. -/
def IntegerReads (host : Host) : PyValue → Prop
  | .int i => InFloatRange i
  | .float f => exponentBits f = 2047 → f.toBits.toNat % 2 ^ 52 ≠ 0
  | .str text => ∀ f, host.floatOfText text = some f →
    exponentBits f = 2047 → f.toBits.toNat % 2 ^ 52 ≠ 0

variable (ps host)

/-- The description of a value is looked up without an exception. -/
def Describes (registryMap : List RegistryMapEntry) (info : Dict String PyValue)
    (e : RegistryMapEntry) : Prop :=
  ∀ value sourceEntry, e.descriptionSource ≠ "" → info.get? e.descriptionSource = some value →
    registryMap.reverse.find? (·.variableName = e.descriptionSource) = some sourceEntry →
      ps.getEntryCodeDict sourceEntry ≠ [] → IntegerReads host value

variable {ps host}

/-- The two exceptions of `int(float(value))`. -/
theorem toFloatInt_error_iff {value : PyValue} :
    (∃ err, value.toFloatInt host = .error err ∧ err ≠ .valueError) ↔ ¬IntegerReads host value := by
  have htruncate (f : Float) : (∃ err, truncate f = .error err ∧ err ≠ .valueError) ↔
      ¬(exponentBits f = 2047 → f.toBits.toNat % 2 ^ 52 ≠ 0) := by
    unfold truncate
    by_cases hexponent : exponentBits f = 2047
    · by_cases hfraction : f.toBits.toNat % 2 ^ 52 = 0
      · simp only [hexponent, hfraction, if_true]
        simp
      · simp only [hexponent, hfraction, if_true, if_false]
        simp
        exact hfraction
    · rw [if_neg hexponent]
      refine iff_of_false ?_ (by simp [hexponent])
      rintro ⟨err, h, -⟩
      cases h
  cases value with
  | int i =>
    have hrange : ¬InFloatRange i ↔ ∃ err, roundToDouble i = .error err := by
      rw [← returns_roundToDouble_iff]
      cases hround : roundToDouble i with
      | ok j => exact iff_of_false (not_not_intro (returns_ok j)) (by simp)
      | error err => exact iff_of_true not_returns_error ⟨err, rfl⟩
    show (∃ err, roundToDouble i = .error err ∧ err ≠ .valueError) ↔ ¬InFloatRange i
    rw [hrange]
    refine exists_congr fun err => and_iff_left_of_imp fun herr => ?_
    unfold roundToDouble at herr
    dsimp only at herr
    split at herr
    · rw [← Except.error.inj herr]
      decide
    · cases herr
  | float f => exact htruncate f
  | str text =>
    unfold PyValue.toFloatInt IntegerReads
    dsimp only
    cases host.floatOfText text with
    | none =>
      refine iff_of_false (by simp) (not_not_intro fun f h => ?_)
      cases h
    | some f =>
      refine (htruncate f).trans (not_congr ⟨fun h f' hf' => ?_, fun h => h f rfl⟩)
      obtain rfl := Option.some.inj hf'
      exact h

theorem returns_codeDescriptionForValue_iff {e : RegistryMapEntry} {value : PyValue} :
    Returns (ps.codeDescriptionForValue host e value) ↔
      (ps.getEntryCodeDict e ≠ [] → IntegerReads host value) := by
  unfold codeDescriptionForValue
  dsimp only
  cases hint : value.toFloatInt host with
  | ok i =>
    refine iff_of_true (returns_ok _) fun _ => ?_
    by_contra hreads
    obtain ⟨err, herr, -⟩ := toFloatInt_error_iff.mpr hreads
    rw [hint] at herr
    cases herr
  | error err =>
    by_cases hvalue : err = .valueError
    · subst hvalue
      refine iff_of_true (returns_ok _) fun _ => ?_
      by_contra hreads
      obtain ⟨err, herr, hne⟩ := toFloatInt_error_iff.mpr hreads
      exact hne (Except.error.inj (herr.symm.trans hint))
    · have hreads : ¬IntegerReads host value := toFloatInt_error_iff.mp ⟨err, hint, hvalue⟩
      have hempty : Returns (if (ps.getEntryCodeDict e).isEmpty then
          (.ok none : Except PyError (Option String)) else .error err) ↔
            ps.getEntryCodeDict e = [] := by
        split
        · next h => exact iff_of_true (returns_ok _) (List.isEmpty_iff.mp h)
        · next h => exact iff_of_false not_returns_error fun heq => h (List.isEmpty_iff.mpr heq)
      cases err with
      | valueError => exact absurd rfl hvalue
      | _ =>
        refine hempty.trans ⟨fun h hne => absurd h hne, fun h => ?_⟩
        by_contra hne
        exact hreads (h hne)

theorem returns_describeStep_iff {registryMap : List RegistryMapEntry} {info : Dict String PyValue}
    {e : RegistryMapEntry} : Returns (ps.describeStep host registryMap info e) ↔
      ps.Describes host registryMap info e := by
  unfold describeStep Describes
  cases hvalue : info.get? e.descriptionSource with
  | none => exact iff_of_true (returns_ok _) fun value sourceEntry _ h => (by cases h)
  | some value =>
    cases hsource : registryMap.reverse.find? (·.variableName = e.descriptionSource) with
    | none => exact iff_of_true (returns_ok _) fun value sourceEntry _ _ h => (by cases h)
    | some sourceEntry =>
      dsimp only
      by_cases hempty : e.descriptionSource = ""
      · rw [if_pos hempty]
        exact iff_of_true (returns_ok _) fun value sourceEntry h => absurd hempty h
      · rw [if_neg hempty, returns_bind_iff, returns_codeDescriptionForValue_iff]
        constructor
        · rintro ⟨h, -⟩ value' sourceEntry' - hvalue' hsource'
          obtain rfl := Option.some.inj hvalue'
          obtain rfl := Option.some.inj hsource'
          exact h
        · refine fun h => ⟨h value sourceEntry hempty rfl rfl, fun description _ => ?_⟩
          cases description <;> exact returns_ok _

theorem describeStep_withContext {rule : ContextRule} {registryMap : List RegistryMapEntry}
    {info : Dict String PyValue} {e : RegistryMapEntry} :
    ps.describeStep (host.withContext formulas rule) registryMap info e =
      ps.describeStep host registryMap info e := by
  have hdescription (e : RegistryMapEntry) (value : PyValue) :
      ps.codeDescriptionForValue (host.withContext formulas rule) e value =
        ps.codeDescriptionForValue host e value := by
    have hint : value.toFloatInt (host.withContext formulas rule) = value.toFloatInt host := by
      unfold PyValue.toFloatInt
      rfl
    unfold codeDescriptionForValue
    rw [hint, text_withContext]
  unfold describeStep
  simp only [hdescription]

/-! ## The whole pass -/

section Whole

variable (ps) (host) (formulas) (snapshot : Snapshot)

/-- No stage of `process_registery` raises: no entry while it is decoded, no row of the context
pass and no description, each in the dictionary that the rows before it left. -/
structure Decodable (registryMap : List RegistryMapEntry) : Prop where
  entries : ∀ e ∈ registryMap, e.descriptionSource = "" → ps.EntryDecodes host snapshot e
  contexts : ∀ decoded before e after info,
    ps.decodedInfo host snapshot registryMap = .ok decoded → registryMap = before ++ e :: after →
      contextPass (host.withContext formulas (contextTransform host formulas)) before decoded =
        .ok info → ContextApplies host formulas info e
  descriptions : ∀ adjusted before e after info,
    ps.adjustedInfo (host.withContext formulas (contextTransform host formulas)) snapshot
      registryMap = .ok adjusted → registryMap = before ++ e :: after →
        before.foldlM (ps.describeStep host registryMap) adjusted = .ok info →
          ps.Describes host registryMap info e

/-- **Decoding a snapshot.** `process_registery` returns a dictionary for a loaded map exactly if
none of its stages raises. -/
theorem decodable_iff {registryType : RegistryType} {rows : List Row}
    {registryMap : List RegistryMapEntry}
    (hload : ps.loadRegistry registryType rows = some registryMap) :
    Returns (ps.processRegistery (host.withContext formulas (contextTransform host formulas))
      snapshot registryMap) ↔ ps.Decodable host formulas snapshot registryMap := by
  have hrange := ps.loadRegistry_rangeForm hload
  have hdescribe : ps.describeStep (host.withContext formulas (contextTransform host formulas))
      registryMap = ps.describeStep host registryMap := by
    funext info e
    exact describeStep_withContext
  have hadjusted : Returns (ps.adjustedInfo
      (host.withContext formulas (contextTransform host formulas)) snapshot registryMap) ↔
        (∀ e ∈ registryMap, e.descriptionSource = "" → ps.EntryDecodes host snapshot e) ∧
          ∀ decoded before e after info, ps.decodedInfo host snapshot registryMap = .ok decoded →
            registryMap = before ++ e :: after →
              contextPass (host.withContext formulas (contextTransform host formulas)) before
                decoded = .ok info → ContextApplies host formulas info e := by
    unfold adjustedInfo
    rw [returns_bind_iff, decodedInfo_withContext, returns_decodedInfo_iff hrange]
    refine and_congr_right fun _ => ⟨fun h decoded before e after info hdecoded hsplit hinfo => ?_,
      fun h decoded hdecoded => ?_⟩
    · exact returns_contextStep_iff.mp
        (returns_foldlM_iff.mp (h decoded hdecoded) before e after info hsplit hinfo)
    · exact returns_foldlM_iff.mpr fun before e after info hsplit hinfo =>
        returns_contextStep_iff.mpr (h decoded before e after info hdecoded hsplit hinfo)
  rw [processRegistery_eq, returns_bind_iff, hadjusted, hdescribe]
  constructor
  · rintro ⟨⟨hentries, hcontexts⟩, hdescriptions⟩
    refine ⟨hentries, hcontexts, fun adjusted before e after info hadjusted hsplit hinfo => ?_⟩
    exact returns_describeStep_iff.mp
      (returns_foldlM_iff.mp (hdescriptions adjusted hadjusted) before e after info hsplit hinfo)
  · intro h
    refine ⟨⟨h.entries, h.contexts⟩, fun adjusted hadjusted => ?_⟩
    exact returns_foldlM_iff.mpr fun before e after info hsplit hinfo =>
      returns_describeStep_iff.mpr (h.descriptions adjusted before e after info hadjusted hsplit hinfo)

/-- A register whose bit range ends before it starts. -/
def reversedBitsRows : List Row := [{ cell := "40.b5-2", variableName := "soc" }]

/-- The formulas of a map without formulas. -/
def noFormulas : Formulas where
  containerText _ := ""
  evaluate _ _ := none

/-- A map of one plain register is decoded. -/
theorem decodable_plain : ∃ registryMap,
    ({} : ProtocolSettings).loadRegistry .holding [{ cell := "40", variableName := "vbat" }] =
      some registryMap ∧
      ({} : ProtocolSettings).Decodable default noFormulas (.words fun _ => some 7) registryMap := by
  have hload : ({} : ProtocolSettings).loadRegistry .holding
      [{ cell := "40", variableName := "vbat" }] = some _ := rfl
  exact ⟨_, hload, (decodable_iff {} default noFormulas (.words fun _ => some 7) hload).mp ⟨_, rfl⟩⟩

/-- The reversed bit range is loaded, and its register cannot be decoded. -/
theorem reversed_bits_raise : ¬ ∀ (ps : ProtocolSettings) (host : Host) (formulas : Formulas)
    (snapshot : Snapshot) (registryType : RegistryType) (rows : List Row)
    (registryMap : List RegistryMapEntry), ps.loadRegistry registryType rows = some registryMap →
    Returns (ps.processRegistery (host.withContext formulas (contextTransform host formulas))
      snapshot registryMap) := by
  intro hall
  have hload : ({} : ProtocolSettings).loadRegistry .holding reversedBitsRows = some _ := rfl
  obtain ⟨info, hinfo⟩ := hall {} default noFormulas (.words fun _ => some 7) .holding
    reversedBitsRows _ hload
  have hraised : (.error .valueError : Except PyError (Dict String PyValue)) = .ok info := hinfo
  cases hraised

end Whole

end ProtocolSettings

end ProtocolGateway
