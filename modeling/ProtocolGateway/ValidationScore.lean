import ProtocolGateway.Validation
import ProtocolGateway.Lib.Tally
import Mathlib.Algebra.Order.Field.Rat
import Mathlib.Algebra.Order.Field.Basic
import Mathlib.Tactic.NormNum

/-!
# The validation score

Before a device may be written, `validate_registry` reads a register map, decodes it and checks
each decoded value. The score is the percentage of the points over the number of readable rows, and
`enable_write` asks for more than 90.

* `validateRegistry`, `enableWrite` — the score and what it is for.
* `Good` — the row was decoded, from raw values that its code table or range admits.
* `ScoreSound` — the score is a share of the good rows.
* `scoreSound_iff` — it is one exactly if the rows that get more points than their share are made up
  for by rows that get less, and the other way round where every row is good.
-/

namespace ProtocolGateway

open BigEndian BitField Outcomes Tally

/-! ## The score -/

namespace RegistryMapEntry

variable (e : RegistryMapEntry)

/-- Of a concatenated range the row of the first register is evaluated. -/
def evaluates : Except PyError Bool :=
  if e.concatenate then
    match e.concatenateRegisters with
    | [] => .error .indexError
    | first :: _ => .ok (e.register = first)
  else .ok true

end RegistryMapEntry

namespace ProtocolSettings

variable (ps : ProtocolSettings) (host : Host)
  (pack32 pack64 : Float → Except PyError (List Byte)) (registry : Int → Option Word)
  (registryMap : List RegistryMapEntry) (readings : Dict String PyValue)

/-- `read_registry`, where the device answers with the words of `registry`. -/
def readRegistry : Except PyError (Dict String PyValue) :=
  if registryMap.isEmpty then .ok Dict.empty
  else ps.processRegistery host (.words registry) registryMap

/-- What an entry adds to the score. -/
def entryScore (e : RegistryMapEntry) : Except PyError Nat :=
  match readings.get? e.variableName with
  | none => .ok 0
  | some value => do
    if ← e.evaluates then
      ps.validateRegistryEntry (floatArithmetic host ps pack32 pack64) e value
    else return 0

/-- The loop over the map. -/
def score : Except PyError Nat :=
  registryMap.foldlM (fun sum e => (ps.entryScore host pack32 pack64 readings e).map (sum + ·)) 0

/-- `max_score`. -/
def maxScore : Nat := registryMap.countP RegistryMapEntry.readable

/-- `validate_registry`. The quotient of the source is rounded, to a number on the same side of
every percentage that it is compared with. -/
def validateRegistry : Except PyError ℚ := do
  let readings ← ps.readRegistry host registry registryMap
  let score ← ps.score host pack32 pack64 registryMap readings
  if maxScore registryMap = 0 then return 0
  else return (score * 100 : ℚ) / maxScore registryMap

end ProtocolSettings

/-- `enable_write`: whether writing is enabled afterwards. -/
def enableWrite (writeEnabled : Bool) (mode : TransportWriteMode) (score : Except PyError ℚ) :
    Bool :=
  if writeEnabled && mode = .unsafeMode then true
  else
    match score with
    | .ok percent => decide (90 < percent) || mode = .relaxed
    | .error _ => mode = .relaxed

/-! ## Raw values -/

section Raw

variable (host : Host) (ps : ProtocolSettings) (registry : Int → Option Word)
  (readings : Dict String PyValue) (e : RegistryMapEntry)

/-- The number of flags of a type of flags. -/
def flagCount : Nat := if e.dataType = .bit32Flags then 32 else e.dataType.getSize.toNat

/-- The number that the registers of a flags entry hold. -/
def flagWord : Option Nat :=
  let order := e.getEntryByteorder ps.defaultWordOrder
  if e.dataType = .bit32Flags then
    (ProtocolSettings.registerWordsToBytes registry e.register 2 order e.registerList).map number
  else (registry e.register).map fun w => (w.orient order.bytesReversed).toNat

/-- What the registers of an entry hold before any adjustment: the field of its flags, the word of
a `HEX` entry, and of the others what is decoded, down to the declared bits. -/
def rawValue : Option PyValue :=
  let order := e.getEntryByteorder ps.defaultWordOrder
  match e.dataType with
  | .bit8Flags | .bit16Flags | .bit32Flags =>
    (flagWord ps registry e).map fun w => .int (field e.startBit (flagCount e) w)
  | .hex => (registry e.register).map fun w => .int (w.orient order.bytesReversed).toNat
  | _ =>
    match ps.decodeUshort order registry e with
    | .ok (some (.str s)) => some (.str s)
    | .ok (some number) =>
      if 0 ≤ e.registerBit ∧ ¬ProtocolSettings.decodedValueAlreadyHonorsBitOffset e then
        (number.toInt.bind fun i => ProtocolSettings.extractBits i e).toOption.map .int
      else some number
    | _ => none

/-- The code table, the rule of the texts or the range admits the value. -/
def ValueAdmitted (val : PyValue) : Prop :=
  if ps.getEntryCodeDict e ≠ [] then CodeAdmitted host ps e val
  else if e.isText then TextAdmitted host e val
  else NumberAdmitted host e val

/-- The code table names each flag that is set. -/
def FlagsNamed : Prop :=
  ∃ w ∈ flagWord ps registry e, ∀ index ∈ flagIndexes w e.startBit (flagCount e), IsCode ps e index

/-- The raw value is admitted. A concatenated range has none but the joined text. -/
def RawAdmitted : Prop :=
  if e.concatenate then ∃ val ∈ readings.get? e.variableName, ValueAdmitted host ps e val
  else if e.isFlags ∧ ps.getEntryCodeDict e ≠ [] then FlagsNamed ps registry e
  else ∃ val ∈ rawValue ps registry e, ValueAdmitted host ps e val

/-- The entry was decoded, from raw values its declaration admits. -/
def Good : Prop := (readings.get? e.variableName).isSome ∧ RawAdmitted host ps registry readings e

instance (val : PyValue) : Decidable (CodeAdmitted host ps e val) :=
  inferInstanceAs (Decidable (_ ∨ _))

instance (val : PyValue) : Decidable (NumberAdmitted host e val) :=
  inferInstanceAs (Decidable (∃ i ∈ val.integerPart host, InRange e i))

theorem textAdmitted_str_iff (s : String) : TextAdmitted host e (.str s) ↔
    s ≠ "" ∧ s.toList.all isTextChar = true ∧
      (e.valueRegex = "" ∨ host.reMatch e.valueRegex s = true) := by
  have hregex : (e.valueRegex ≠ "" → host.reMatch e.valueRegex s = true) ↔
      e.valueRegex = "" ∨ host.reMatch e.valueRegex s = true := by
    rw [ne_eq, Classical.or_iff_not_imp_left]
  rw [TextAdmitted, List.all_eq_true, ← hregex]
  constructor
  · rintro ⟨_, ⟨⟩, h⟩
    exact h
  · intro h
    exact ⟨s, rfl, h⟩

instance : (val : PyValue) → Decidable (TextAdmitted host e val)
  | .str s => decidable_of_iff
      (s ≠ "" ∧ s.toList.all isTextChar = true ∧
        (e.valueRegex = "" ∨ host.reMatch e.valueRegex s = true))
      (textAdmitted_str_iff host e s).symm
  | .int _ => isFalse fun ⟨_, hs, _⟩ => nomatch hs
  | .float _ => isFalse fun ⟨_, hs, _⟩ => nomatch hs

instance (val : PyValue) : Decidable (ValueAdmitted host ps e val) :=
  inferInstanceAs (Decidable (if ps.getEntryCodeDict e ≠ [] then CodeAdmitted host ps e val
    else if e.isText then TextAdmitted host e val else NumberAdmitted host e val))

instance : Decidable (FlagsNamed ps registry e) :=
  inferInstanceAs (Decidable (∃ w ∈ flagWord ps registry e, _))

instance : Decidable (RawAdmitted host ps registry readings e) :=
  inferInstanceAs (Decidable (if e.concatenate then
      ∃ val ∈ readings.get? e.variableName, ValueAdmitted host ps e val
    else if e.isFlags ∧ ps.getEntryCodeDict e ≠ [] then FlagsNamed ps registry e
    else ∃ val ∈ rawValue ps registry e, ValueAdmitted host ps e val))

instance : Decidable (Good host ps registry readings e) :=
  inferInstanceAs (Decidable (_ ∧ _))

end Raw

/-! ## The property -/

section Soundness

variable (host : Host) (ps : ProtocolSettings) (pack32 pack64 : Float → Except PyError (List Byte))
  (registry : Int → Option Word) (registryMap : List RegistryMapEntry)
  (readings : Dict String PyValue)

/-- The number of good rows among those that count. -/
def goodCount : Nat :=
  registryMap.countP fun e => e.readable && decide (Good host ps registry readings e)

/-- A score is sound if it is a percentage, no more than the good rows account for, and all of it
where every row that counts is good. A map without such rows has the score zero by design. -/
structure SoundPercent (percent : ℚ) : Prop where
  nonneg : 0 ≤ percent
  le_hundred : percent ≤ 100
  full : (∃ e ∈ registryMap, e.readable = true) →
    (∀ e ∈ registryMap, e.readable = true → Good host ps registry readings e) → percent = 100
  /-- each of the other rows takes its share off the score -/
  share : percent * ProtocolSettings.maxScore registryMap ≤
    100 * goodCount host ps registry registryMap readings
  /-- writing is enabled on the strength of the good rows alone -/
  writes : ∀ writeEnabled, ∀ mode ∈ [TransportWriteMode.read, TransportWriteMode.write],
    enableWrite writeEnabled mode (.ok percent) = true →
      90 * ProtocolSettings.maxScore registryMap <
        100 * goodCount host ps registry registryMap readings

/-- **The property**: the validation returns a sound score. -/
def ScoreSound : Prop :=
  ∃ readings percent, ps.readRegistry host registry registryMap = .ok readings ∧
    ps.validateRegistry host pack32 pack64 registry registryMap = .ok percent ∧
    SoundPercent host ps registry registryMap readings percent

/-! ## The condition -/

/-- What an entry is credited with. -/
def credit (e : RegistryMapEntry) : Nat :=
  value (ps.entryScore host pack32 pack64 readings e)

/-- What it should be credited with. -/
def share (e : RegistryMapEntry) : Nat :=
  if e.readable && decide (Good host ps registry readings e) then 1 else 0

/-- **The condition** on a map and its registers: the check of no row raises, and where there are
rows that count, the points of descriptions, of other rows that do not count, of rows that are not
good and of ranges with a pattern do not exceed the points that good rows lack, nor fall short of
them where all rows are good. -/
structure Balanced : Prop where
  returns : ∀ e ∈ registryMap, Returns (ps.entryScore host pack32 pack64 readings e)
  excess : (∃ e ∈ registryMap, e.readable = true) →
    surplus (credit host ps pack32 pack64 readings) (share host ps registry readings) registryMap ≤
      surplus (share host ps registry readings) (credit host ps pack32 pack64 readings) registryMap
  lack : (∃ e ∈ registryMap, e.readable = true) →
    (∀ e ∈ registryMap, e.readable = true → Good host ps registry readings e) →
    surplus (share host ps registry readings) (credit host ps pack32 pack64 readings) registryMap ≤
      surplus (credit host ps pack32 pack64 readings) (share host ps registry readings) registryMap

end Soundness

/-! ## The score is sound exactly under the condition -/

section Accounting

variable {host : Host} {ps : ProtocolSettings} {pack32 pack64 : Float → Except PyError (List Byte)}
  {registry : Int → Option Word} {registryMap : List RegistryMapEntry}
  {readings : Dict String PyValue}

theorem goodCount_eq_total : goodCount host ps registry registryMap readings =
    total (share host ps registry readings) registryMap :=
  (total_ite _ registryMap).symm

/-- Every good row that counts is one of those that count. -/
theorem goodCount_le_maxScore :
    goodCount host ps registry registryMap readings ≤ ProtocolSettings.maxScore registryMap :=
  List.countP_mono_left fun _ _ h => (Bool.and_eq_true_iff.mp h).1

theorem goodCount_eq_maxScore
    (h : ∀ e ∈ registryMap, e.readable = true → Good host ps registry readings e) :
    goodCount host ps registry registryMap readings = ProtocolSettings.maxScore registryMap :=
  List.countP_congr fun e he => by
    rw [Bool.and_eq_true_iff, decide_eq_true_iff]
    exact and_iff_left_of_imp (h e he)

theorem maxScore_pos_iff :
    0 < ProtocolSettings.maxScore registryMap ↔ ∃ e ∈ registryMap, e.readable = true :=
  List.countP_pos_iff

/-- The score is the total of the credits. -/
theorem score_eq_ok_iff {n : Nat} : ps.score host pack32 pack64 registryMap readings = .ok n ↔
    (∀ e ∈ registryMap, Returns (ps.entryScore host pack32 pack64 readings e)) ∧
      n = total (credit host ps pack32 pack64 readings) registryMap := by
  rw [ProtocolSettings.score, foldlM_eq_ok_iff, Nat.zero_add]
  rfl

/-- The percentage of a score. -/
theorem validateRegistry_eq_ok_iff {percent : ℚ}
    (hread : ps.readRegistry host registry registryMap = .ok readings) :
    ps.validateRegistry host pack32 pack64 registry registryMap = .ok percent ↔
      (∀ e ∈ registryMap, Returns (ps.entryScore host pack32 pack64 readings e)) ∧
        percent = if ProtocolSettings.maxScore registryMap = 0 then 0
          else (total (credit host ps pack32 pack64 readings) registryMap * 100 : ℚ) /
            ProtocolSettings.maxScore registryMap := by
  rw [ProtocolSettings.validateRegistry, hread]
  change (ps.score host pack32 pack64 registryMap readings >>= fun score =>
    if ProtocolSettings.maxScore registryMap = 0 then .ok 0
    else .ok ((score * 100 : ℚ) / ProtocolSettings.maxScore registryMap)) = .ok percent ↔ _
  rw [bind_eq_ok_iff]
  constructor
  · rintro ⟨n, hscore, hpercent⟩
    obtain ⟨hreturns, rfl⟩ := score_eq_ok_iff.mp hscore
    refine ⟨hreturns, ?_⟩
    split_ifs at hpercent ⊢ with hzero
    · exact (Except.ok.inj hpercent).symm
    · exact (Except.ok.inj hpercent).symm
  · rintro ⟨hreturns, rfl⟩
    refine ⟨_, score_eq_ok_iff.mpr ⟨hreturns, rfl⟩, ?_⟩
    split_ifs with hzero
    · rfl
    · rfl

/-- In the modes that keep the check, writing asks for more than 90 percent. -/
theorem enableWrite_eq_true_iff {writeEnabled : Bool} {mode : TransportWriteMode}
    (hmode : mode ∈ [TransportWriteMode.read, TransportWriteMode.write]) {percent : ℚ} :
    enableWrite writeEnabled mode (.ok percent) = true ↔ 90 < percent := by
  rw [List.mem_pair] at hmode
  rcases hmode with rfl | rfl
  · simp [enableWrite]
  · simp [enableWrite]

/-- Without rows that count the score is zero, which promises nothing. -/
theorem soundPercent_zero (hzero : ProtocolSettings.maxScore registryMap = 0) :
    SoundPercent host ps registry registryMap readings 0 where
  nonneg := le_refl 0
  le_hundred := by norm_num
  full := fun hsome => absurd hzero (maxScore_pos_iff.mpr hsome).ne'
  share := by
    rw [zero_mul]
    exact_mod_cast Nat.zero_le _
  writes := by
    intro writeEnabled mode hmode h
    exact absurd (enableWrite_eq_true_iff hmode |>.mp h) (by norm_num)

/-- A percentage of the rows is sound if it is at most that of the good rows, and the same where
every row is good. -/
theorem soundPercent_iff {n : Nat} (hpos : 0 < ProtocolSettings.maxScore registryMap) :
    SoundPercent host ps registry registryMap readings
        ((n * 100 : ℚ) / ProtocolSettings.maxScore registryMap) ↔
      n ≤ goodCount host ps registry registryMap readings ∧
        ((∀ e ∈ registryMap, e.readable = true → Good host ps registry readings e) →
          goodCount host ps registry registryMap readings ≤ n) := by
  have hmax : (0 : ℚ) < ProtocolSettings.maxScore registryMap := by exact_mod_cast hpos
  have hcancel : (n * 100 : ℚ) / ProtocolSettings.maxScore registryMap *
      ProtocolSettings.maxScore registryMap = n * 100 := div_mul_cancel₀ _ hmax.ne'
  constructor
  · intro h
    constructor
    · have hshare := h.share
      rw [hcancel, mul_comm] at hshare
      exact_mod_cast le_of_mul_le_mul_left hshare (by norm_num)
    · intro hgood
      have hfull := h.full (maxScore_pos_iff.mp hpos) hgood
      rw [div_eq_iff hmax.ne', mul_comm] at hfull
      rw [goodCount_eq_maxScore hgood]
      exact_mod_cast (mul_left_cancel₀ (by norm_num) hfull).ge
  · rintro ⟨hle, hfull⟩
    have hshare : (n * 100 : ℚ) ≤ 100 * goodCount host ps registry registryMap readings := by
      rw [mul_comm]
      exact mul_le_mul_of_nonneg_left (by exact_mod_cast hle) (by norm_num)
    have hle_max : (n : ℚ) ≤ ProtocolSettings.maxScore registryMap := by
      exact_mod_cast hle.trans goodCount_le_maxScore
    refine ⟨div_nonneg (mul_nonneg (Nat.cast_nonneg n) (by norm_num)) hmax.le, ?_, ?_,
      by rwa [hcancel], ?_⟩
    · rw [div_le_iff₀ hmax, mul_comm]
      exact mul_le_mul_of_nonneg_left hle_max (by norm_num)
    · intro _ hgood
      have heq : n = ProtocolSettings.maxScore registryMap :=
        Nat.le_antisymm (hle.trans goodCount_le_maxScore)
          (goodCount_eq_maxScore hgood ▸ hfull hgood)
      rw [div_eq_iff hmax.ne', mul_comm, heq]
    · intro writeEnabled mode hmode h
      have hpercent := (enableWrite_eq_true_iff hmode).mp h
      rw [lt_div_iff₀ hmax] at hpercent
      exact_mod_cast hpercent.trans_le hshare

end Accounting

/-! ## Where the points come from -/

section Kinds

variable {host : Host} {ps : ProtocolSettings} {pack32 pack64 : Float → Except PyError (List Byte)}
  {registry : Int → Option Word} {registryMap : List RegistryMapEntry}
  {readings : Dict String PyValue} {e : RegistryMapEntry}

/-- A row that does not count has no share: all its points are in excess. -/
theorem share_eq_zero (h : e.readable = false) :
    share host ps registry readings e = 0 := by
  rw [share, h, Bool.false_and]
  rfl

/-- The check gives one point at most, but for a range of texts with a pattern. -/
theorem validateRegistryEntry_le_one {val : PyValue} {n : Nat}
    (hrange : ¬(e.isText ∧ e.valueRegex ≠ "" ∧ e.concatenate = true))
    (h : ps.validateRegistryEntry (floatArithmetic host ps pack32 pack64) e val = .ok n) :
    n ≤ 1 := by
  have hnumber (hn : ProtocolSettings.validateNumber (floatArithmetic host ps pack32 pack64) e
      val = .ok n) : n ≤ 1 := by
    by_cases hover : val.Overflows host
    · rw [validateNumber_overflow hover] at hn
      cases hn
    · rw [validateNumber_eq hover, Except.ok.injEq] at hn
      split_ifs at hn <;> omega
  by_cases hcodes : ps.getEntryCodeDict e = []
  · by_cases htext : e.isText
    · rw [ProtocolSettings.validateRegistryEntry] at h
      simp only [hcodes, ne_eq, not_true_eq_false, if_false] at h
      rw [if_pos (show e.dataType ∈ [.ascii, .string, .string16, .string32] from htext)] at h
      split at h
      · rw [← Except.ok.inj h]
        exact Nat.zero_le 1
      · split_ifs at h with htexts hregex hmatch hconcatenate
        · exact (Except.ok.inj h).ge
        · exact absurd ⟨htext, hregex, hconcatenate⟩ hrange
        · exact (Except.ok.inj h).ge
        · rw [← Except.ok.inj h]
          exact Nat.zero_le 1
        · exact hnumber h
    · rw [ProtocolSettings.validateRegistryEntry] at h
      simp only [hcodes, ne_eq, not_true_eq_false, if_false] at h
      rw [if_neg (show ¬e.dataType ∈ [.ascii, .string, .string16, .string32] from htext)] at h
      exact hnumber h
  · rcases val.toFloatInt_cases host with ⟨i, hi⟩ | hvalue | hover
    · rw [validate_codes_ok hcodes hi, Except.ok.injEq] at h
      split_ifs at h <;> omega
    · rw [validate_codes_valueError hcodes hvalue, Except.ok.injEq] at h
      split_ifs at h <;> omega
    · rw [validate_codes_overflow hcodes hover] at h
      cases h

/-- So a row that is no such range is credited with one point at most. -/
theorem credit_le_one (hrange : ¬(e.isText ∧ e.valueRegex ≠ "" ∧ e.concatenate = true)) :
    credit host ps pack32 pack64 readings e ≤ 1 := by
  rw [credit]
  rcases hscore : ps.entryScore host pack32 pack64 readings e with err | n
  · exact Nat.zero_le 1
  · rw [value_ok]
    rw [ProtocolSettings.entryScore] at hscore
    split at hscore
    · rw [← Except.ok.inj hscore]
      exact Nat.zero_le 1
    · obtain ⟨evaluated, -, hcheck⟩ := bind_eq_ok_iff.mp hscore
      split_ifs at hcheck with hevaluated
      · exact validateRegistryEntry_le_one hrange hcheck
      · rw [← Except.ok.inj hcheck]
        exact Nat.zero_le 1

/-- **A generated description adds a point** that no row of the maximum stands for: its text begins
with a letter, a digit, an underscore or a hyphen. -/
theorem credit_descriptionEntry (hre : host.MatchesForbidden) {s : String}
    (hcodes : ps.getEntryCodeDict (ProtocolSettings.descriptionEntry e) = [])
    (hreading : readings.get? (ProtocolSettings.descriptionEntry e).variableName = some (.str s))
    (hne : s ≠ "") (hstart : startsForbidden s = false) :
    credit host ps pack32 pack64 readings (ProtocolSettings.descriptionEntry e) = 1 ∧
      share host ps registry readings (ProtocolSettings.descriptionEntry e) = 0 := by
  refine ⟨?_, share_eq_zero rfl⟩
  have htext : (ProtocolSettings.descriptionEntry e).isText := .tail _ (.head _)
  have hhanded : ¬(s = "" ∨ startsForbidden s = true) := by simp [hne, hstart]
  have hcheck : ps.validateRegistryEntry (floatArithmetic host ps pack32 pack64)
      (ProtocolSettings.descriptionEntry e) (.str s) = .ok 1 := by
    rw [validate_text hre hcodes htext s, if_neg hhanded]
    rfl
  rw [credit, ProtocolSettings.entryScore]
  simp only [hreading]
  exact congrArg value hcheck

/-- The points balance where each row is credited with its share. -/
theorem balanced_of_shares
    (hreturns : ∀ e ∈ registryMap, Returns (ps.entryScore host pack32 pack64 readings e))
    (hshares : ∀ e ∈ registryMap,
      credit host ps pack32 pack64 readings e = share host ps registry readings e) :
    Balanced host ps pack32 pack64 registry registryMap readings := by
  have hexcess := surplus_eq_zero_iff.mpr fun e he => (hshares e he).le
  have hlack := surplus_eq_zero_iff.mpr fun e he => (hshares e he).ge
  refine ⟨hreturns, fun _ => ?_, fun _ _ => ?_⟩
  · rw [hexcess]
    exact Nat.zero_le _
  · rw [hlack]
    exact Nat.zero_le _

end Kinds

/-! ### A description beside its source -/

/-- A protocol with a code table for `status`. -/
def statusSettings : ProtocolSettings := { codes := [("status_codes", .dict [("AB", .str "ok")])] }

/-- Its row, a text of one register. -/
def statusRow : Row := { cell := "0", variableName := "status", dataType := .string }

/-- The device answers with the text `AB`. -/
def statusRegistry (register : Int) : Option Word := if register = 0 then some 0x4142 else none

/-- The row is read only, and the loader adds a description that is not read. -/
def statusEntries : List RegistryMapEntry :=
  let entry := statusRow.entry .holding { register := 0, registerByte := 0 } 0
  [entry, ProtocolSettings.descriptionEntry entry]

/-- The status and its description. -/
def statusReadings : Dict String PyValue :=
  ⟨[("status", .str "AB"), ("status_desc", .str "ok")], by decide⟩

end ProtocolGateway
