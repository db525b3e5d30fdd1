import Mathlib.Data.Rat.Floor
import ProtocolGateway.CodeTables
import ProtocolGateway.DecodeFailures
import ProtocolGateway.Timescale.RawMetrics

/-!
# Integers in number columns

A reading goes through `float()` on its way into a wide row, and so does the new value of a metric edit.
Here a `float` is its exact value, so that it can be asked which integer is stored in the end.

* `processRawMetrics`, `coerceValueForDataType` — the two ways into a column.
* `Has53Bits` — the integers that are floats.
* `storedExactly_iff` — an integer is stored as it is, or refused, if it is a float.
-/

namespace ProtocolGateway

namespace IntegerColumns

open Outcomes

/-! ## Values -/

/-- A `float`, by its exact value. -/
inductive PyFloat
  | finite (q : ℚ)
  | infinite (negative : Bool)
  | nan

/-- `int | float | str | bool` -/
inductive Value
  | int (i : Int)
  | float (f : PyFloat)
  | str (s : String)
  | bool (b : Bool)

/-- The conversions of texts that are no integers in decimal digits, and of floats to texts. -/
structure Texts where
  /-- `float(text)`, `none` for the `ValueError` -/
  floatOfText : String → Option PyFloat
  /-- `str(f)` -/
  floatText : PyFloat → String

/-- The integer that a text in decimal digits stands for. -/
def integerLiteral (s : String) : Option Int :=
  let (sign, digits) := Text.takeSign (Text.strip s.toList)
  (Text.dropUnderscores false digits).bind fun ds =>
    (Text.readDigits Text.decDigit? 10 0 ds).map fun n => sign * n

variable (texts : Texts)

/-- `float(text)`. Digits beyond the range of a `float` are an infinity, not an error. -/
def floatOfText (s : String) : Option PyFloat :=
  match integerLiteral s with
  | some i =>
    match roundToDouble i with
    | .ok r => some (.finite r)
    | .error _ => some (.infinite (i < 0))
  | none => texts.floatOfText s

/-- `float(value)` -/
def toFloat : Value → Except PyError PyFloat
  | .int i => (roundToDouble i).map fun r => .finite r
  | .float f => .ok f
  | .str s =>
    match floatOfText texts s with
    | some f => .ok f
    | none => .error .valueError
  | .bool b => .ok (.finite b.toNat)

/-- `int(f)` -/
def PyFloat.toInt : PyFloat → Except PyError Int
  | finite q => .ok (q.num.tdiv q.den)
  | infinite _ => .error .overflowError
  | nan => .error .valueError

/-- `int(value)` -/
def toInt : Value → Except PyError Int
  | .int i => .ok i
  | .float f => f.toInt
  | .str s =>
    match Text.pyInt s.toList with
    | some i => .ok i
    | none => .error .valueError
  | .bool b => .ok b.toNat

/-- `str(value)`, `none` for an integer of too many digits. -/
def toText : Value → Option String
  | .int i => if Text.maxDecimalDigits < (toString i.natAbs).length then none else some (toString i)
  | .float f => some (texts.floatText f)
  | .str s => some s
  | .bool b => some (if b then "True" else "False")

/-! ## Readings -/

/-- The conversion for a column. -/
def convert (fieldType : String) (v : Value) : Except PyError Value :=
  if fieldType ∈ RawMetrics.intTypes then
    ((toFloat texts v).bind fun f => f.toInt).map .int
  else if fieldType ∈ RawMetrics.floatTypes then (toFloat texts v).map .float
  else if fieldType = "BOOLEAN" then (toInt v).map fun i => .bool (i ≠ 0)
  else
    match toText texts v with
    | some s => .ok (.str s)
    | none => .error .valueError

/-- The value that is put into the wide row. After a `ValueError` or `TypeError` a warning shows the
reading, which raises once more if it has too many digits, and the reading is put in as it is. -/
def coerce (fieldType : String) (v : Value) : Except PyError Value :=
  match convert texts fieldType v with
  | .error .valueError | .error .typeError =>
    if (toText texts v).isSome then .ok v else .error .valueError
  | result => result

/-- The loop of `_process_raw_metrics`. -/
def rows (mapping : List (String × String × String)) :
    List (String × Option Value) → Dict String (Option Value) × Dict String (Option Value) →
      Except PyError (Dict String (Option Value) × Dict String (Option Value))
  | [], acc => .ok acc
  | (k, none) :: rest, (wide, narrow) =>
    let cleanKey := (RawMetrics.columnOf mapping k).1
    rows mapping rest (wide.set cleanKey none, narrow.set cleanKey none)
  | (k, some v) :: rest, (wide, narrow) =>
    let (cleanKey, fieldType) := RawMetrics.columnOf mapping k
    (coerce texts fieldType v).bind fun value =>
      rows mapping rest (wide.set cleanKey (some value), narrow.set cleanKey (some v))

/-- `_process_raw_metrics`. An exception is logged, and nothing is stored. -/
def processRawMetrics (mapping : List (String × String × String))
    (metrics : List (String × Option Value)) : Dict String (Option Value) × Dict String (Option Value) :=
  match rows texts mapping metrics (.empty, .empty) with
  | .ok both => both
  | .error _ => (.empty, .empty)

/-! ## Edits -/

/-- `_METRIC_EDIT_INTEGER_TYPES` -/
def metricEditIntegerTypes : List (String × Int × Int) :=
  [("SMALLINT", -32768, 32767), ("INTEGER", -2147483648, 2147483647),
    ("BIGINT", -9223372036854775808, 9223372036854775807)]

/-- `_METRIC_EDIT_NUMERIC_TYPES` -/
def metricEditNumericTypes : List String :=
  ["REAL", "DOUBLE PRECISION", "NUMERIC"] ++ metricEditIntegerTypes.map Prod.fst

/-- What an edit is refused with. -/
inductive EditError
  | valueError (msg : String)
  /-- an exception that is not caught -/
  | python (err : PyError)

/-- `f"'{value}'"` -/
def quoted (value : Value) : String := "'" ++ (toText texts value).getD "" ++ "'"

/-- `f.is_integer()` -/
def PyFloat.isInteger : PyFloat → Bool
  | finite q => q.den = 1
  | infinite _ | nan => false

/-- `lo <= f <= hi` -/
def PyFloat.between (lo hi : Int) : PyFloat → Bool
  | finite q => decide ((lo : ℚ) ≤ q ∧ q ≤ hi)
  | infinite _ | nan => false

/-- The part of `_coerce_value_for_data_type` that is about numbers. -/
def coerceNumber (value : Value) (dataType : String) : Except EditError Value :=
  match toFloat texts value with
  | .error .valueError | .error .typeError =>
    .error (.valueError (quoted texts value ++ " is not a valid number for a " ++ dataType ++ " field."))
  | .error err => .error (.python err)
  | .ok parsed =>
    match metricEditIntegerTypes.lookup (RawMetrics.upper dataType) with
    | none => .ok (.float parsed)
    | some (lo, hi) =>
      if !parsed.isInteger then
        .error (.valueError (quoted texts value ++ " is not a whole number, but '" ++ dataType ++
          "' requires an integer."))
      else if !parsed.between lo hi then
        .error (.valueError (quoted texts value ++ " is out of range for " ++ dataType ++ " (" ++
          toString lo ++ " to " ++ toString hi ++ ")."))
      else .ok (.float parsed)

/-- `_coerce_value_for_data_type` -/
def coerceValueForDataType (value : Value) (dataType : Option String) : Except EditError Value :=
  match dataType with
  | none =>
    match value with
    | .str s => .ok (.str s)
    | _ =>
      match toFloat texts value with
      | .ok f => .ok (.float f)
      | .error err => .error (.python err)
  | some dataType =>
    if RawMetrics.upper dataType = "BOOLEAN" then
      match value with
      | .bool b => .ok (.bool b)
      | _ =>
        match (toText texts value).map fun s => lowerText (String.ofList (Text.strip s.toList)) with
        | none => .error (.python .valueError)
        | some textVal =>
          if textVal ∈ ["true", "t", "1", "yes", "on"] then .ok (.bool true)
          else if textVal ∈ ["false", "f", "0", "no", "off"] then .ok (.bool false)
          else
            .error (.valueError (quoted texts value ++ " is not a valid boolean for a " ++ dataType ++
              " field (use true/false)."))
    else if RawMetrics.upper dataType ∉ metricEditNumericTypes then
      match toText texts value with
      | some s => .ok (.str s)
      | none => .error (.python .valueError)
    else coerceNumber texts value dataType

/-! ## What is stored -/

/-- The value is this integer. -/
def Value.Denotes : Value → Int → Prop
  | .int i, v => i = v
  | .float (.finite q), v => q = v
  | .str s, v => integerLiteral s = some v
  | .float (.infinite _), _ | .float .nan, _ | .bool _, _ => False

/-- The integer is given as an `int`, or as a text in decimal digits. -/
def Value.Gives : Value → Int → Prop
  | .int i, v => i = v
  | .str s, v => integerLiteral s = some v
  | .float _, _ | .bool _, _ => False

/-- The ranges of the columns that take integers. -/
def InRange (fieldType : String) (v : Int) : Prop :=
  fieldType = "INTEGER" ∧ -2147483648 ≤ v ∧ v ≤ 2147483647 ∨
    fieldType = "BIGINT" ∧ -9223372036854775808 ≤ v ∧ v ≤ 9223372036854775807 ∨
    fieldType = "NUMERIC"

/-- Whatever else is read with it, the reading is stored in the wide row as the integer, or the whole
scrape is refused. -/
def ReadingExact (given : Value) (dataType : String) (v : Int) : Prop :=
  ∀ (mapping : List (String × String × String)) (name column : String)
    (before after : List (String × Option Value)),
    mapping.lookup name = some (column, dataType) →
    (∀ r ∈ after, (RawMetrics.columnOf mapping r.1).1 ≠ column) →
      processRawMetrics texts mapping (before ++ (name, some given) :: after) = (.empty, .empty) ∨
        ∃ x, (processRawMetrics texts mapping (before ++ (name, some given) :: after)).1.get? column =
          some (some x) ∧ x.Denotes v

/-- The value of an edit is the integer, or is refused. -/
def EditExact (given : Value) (dataType : String) (v : Int) : Prop :=
  ∀ x, coerceValueForDataType texts given (some dataType) = .ok x → x.Denotes v

/-- The integer is a `float`: 53 bits and zeros after them. -/
def Has53Bits (v : Int) : Prop :=
  v.natAbs < 2 ^ 1024 ∧ ∃ m e : Nat, v.natAbs = m * 2 ^ e ∧ m < 2 ^ 53

/-! ## Integers that are floats -/

/-- Rounding keeps a number exactly if it is 53 bits and zeros after them. -/
theorem roundMagnitude_eq_self_iff {n : Nat} :
    roundMagnitude n = n ↔ ∃ m e : Nat, n = m * 2 ^ e ∧ m < 2 ^ 53 := by
  constructor
  · intro h
    by_cases hsmall : n < 2 ^ 53
    · exact ⟨n, 0, (Nat.mul_one n).symm, hsmall⟩
    · have hn : n ≠ 0 := by omega
      generalize hs : n.log2 - 52 = s
      have hhigh : n < 2 ^ 53 * 2 ^ s := by
        have hlog : 53 ≤ n.log2 := (Nat.le_log2 hn).mpr (Nat.le_of_not_lt hsmall)
        rw [← Nat.pow_add, show 53 + s = n.log2 + 1 by omega]
        exact Nat.lt_log2_self
      have hmul : ∃ q, n = q * 2 ^ s := by
        rw [roundMagnitude, if_neg hsmall, hs] at h
        exact ⟨_, h.symm⟩
      obtain ⟨q, hq⟩ := hmul
      refine ⟨q, s, hq, ?_⟩
      rw [hq] at hhigh
      exact Nat.lt_of_mul_lt_mul_right hhigh
  · rintro ⟨m, e, hn, hm⟩
    by_cases hsmall : n < 2 ^ 53
    · exact roundMagnitude_of_lt hsmall
    · have hpos : m ≠ 0 := by
        rintro rfl
        omega
      -- the factor is brought to 53 bits
      generalize hl : m.log2 = l
      have hlow : 2 ^ l ≤ m := hl ▸ Nat.log2_self_le hpos
      have hhigh : m < 2 ^ (l + 1) := hl ▸ Nat.lt_log2_self
      have hl52 : l ≤ 52 := by
        by_contra hlarge
        have hpow : 2 ^ 53 ≤ 2 ^ l := Nat.pow_le_pow_right (by decide) (by omega)
        omega
      have he : 52 - l ≤ e := by
        by_contra hshort
        have hbound : m * 2 ^ e < 2 ^ (l + 1) * 2 ^ e :=
          (Nat.mul_lt_mul_right (Nat.two_pow_pos e)).mpr hhigh
        have hpow : 2 ^ (l + 1) * 2 ^ e ≤ 2 ^ 53 := by
          rw [← Nat.pow_add]
          exact Nat.pow_le_pow_right (by decide) (by omega)
        omega
      have hsplit : n = (m * 2 ^ (52 - l)) * 2 ^ (e - (52 - l)) := by
        rw [hn, Nat.mul_assoc, ← Nat.pow_add, Nat.add_sub_cancel' he]
      rw [hsplit]
      refine roundMagnitude_mul ?_ ?_
      · calc 2 ^ 52 = 2 ^ l * 2 ^ (52 - l) := by rw [← Nat.pow_add, Nat.add_sub_cancel' hl52]
          _ ≤ m * 2 ^ (52 - l) := Nat.mul_le_mul_right _ hlow
      · calc m * 2 ^ (52 - l) < 2 ^ (l + 1) * 2 ^ (52 - l) :=
              (Nat.mul_lt_mul_right (Nat.two_pow_pos _)).mpr hhigh
          _ = 2 ^ 53 := by rw [← Nat.pow_add, show l + 1 + (52 - l) = 53 by omega]

/-- The float of an integer is the integer exactly if it has 53 bits. -/
theorem has53Bits_iff {v r : Int} (h : roundToDouble v = .ok r) : Has53Bits v ↔ r = v := by
  unfold Has53Bits
  rw [← roundMagnitude_eq_self_iff]
  simp only [roundToDouble] at h
  generalize 2 ^ 1024 = limit at h ⊢
  split at h
  · cases h
  · next hsmall =>
    have hr := Except.ok.inj h
    constructor
    · rintro ⟨-, hround⟩
      rw [← hr, hround]
      split <;> omega
    · intro heq
      have hround : roundMagnitude v.natAbs = v.natAbs := by
        rw [heq] at hr
        split at hr <;> omega
      exact ⟨by omega, hround⟩

/-- An integer that has no float does not have 53 bits. -/
theorem not_has53Bits {v : Int} (h : ¬InFloatRange v) : ¬Has53Bits v := by
  rintro ⟨hsmall, hbits⟩
  rw [InFloatRange, roundMagnitude_eq_self_iff.mpr hbits] at h
  exact h hsmall

/-- The integers of the integer columns are in the range of a float. -/
theorem inFloatRange_of_bigint {v : Int} (hlow : -9223372036854775808 ≤ v)
    (hhigh : v ≤ 9223372036854775807) : InFloatRange v := by
  have hle := roundMagnitude_le v.natAbs
  have hsmall : 2 * v.natAbs < 2 ^ 65 := by omega
  have hpow : ∀ k, 65 ≤ k → (2 : Nat) ^ 65 ≤ 2 ^ k := fun k hk =>
    Nat.pow_le_pow_right (by decide) hk
  exact Nat.lt_of_le_of_lt hle (Nat.lt_of_lt_of_le hsmall (hpow 1024 (by decide)))

/-! ## The two ways -/

section

variable {texts : Texts} {v : Int} {given : Value}

/-- The float of an integer in range is its rounding, however it is given. -/
theorem toFloat_of_gives (hgiven : given.Gives v) {r : Int} (h : roundToDouble v = .ok r) :
    toFloat texts given = .ok (.finite r) := by
  cases given with
  | int i =>
    obtain rfl : i = v := hgiven
    rw [toFloat, h]
    rfl
  | str s =>
    have hs : integerLiteral s = some v := hgiven
    rw [toFloat, floatOfText, hs]
    simp only [h]
  | float f => exact hgiven.elim
  | bool b => exact hgiven.elim

/-- An `int` out of range raises; a text out of range is an infinity. -/
theorem toFloat_of_gives_error (hgiven : given.Gives v) {err : PyError}
    (h : roundToDouble v = .error err) :
    given = .int v ∧ toFloat texts given = .error .overflowError ∨
      given ≠ .int v ∧ toFloat texts given = .ok (.infinite (v < 0)) := by
  obtain rfl := error_of_roundToDouble h
  cases given with
  | int i =>
    obtain rfl : i = v := hgiven
    refine Or.inl ⟨rfl, ?_⟩
    rw [toFloat, h]
    rfl
  | str s =>
    have hs : integerLiteral s = some v := hgiven
    refine Or.inr ⟨by simp, ?_⟩
    rw [toFloat, floatOfText, hs]
    simp only [h]
  | float f => exact hgiven.elim
  | bool b => exact hgiven.elim

/-- The value that a float becomes in an integer or a number column. -/
def stored (fieldType : String) (r : Int) : Value :=
  if fieldType ∈ RawMetrics.intTypes then .int r else .float (.finite r)

theorem stored_denotes_iff {fieldType : String} {r : Int} :
    (stored fieldType r).Denotes v ↔ r = v := by
  unfold stored
  split
  · exact Iff.rfl
  · exact Int.cast_inj

theorem types_of_inRange {fieldType : String} (h : InRange fieldType v) :
    fieldType ∈ RawMetrics.intTypes ∧ InFloatRange v ∧ fieldType ≠ "NUMERIC" ∨
      fieldType ∉ RawMetrics.intTypes ∧ fieldType ∈ RawMetrics.floatTypes ∧ fieldType = "NUMERIC" := by
  rcases h with ⟨rfl, hlow, hhigh⟩ | ⟨rfl, hlow, hhigh⟩ | rfl
  · exact Or.inl ⟨by decide, inFloatRange_of_bigint (by omega) (by omega), by decide⟩
  · exact Or.inl ⟨by decide, inFloatRange_of_bigint hlow hhigh, by decide⟩
  · exact Or.inr ⟨by decide, by decide, rfl⟩

/-- A reading in range. -/
theorem coerce_of_gives (hgiven : given.Gives v) {fieldType : String} (htype : InRange fieldType v)
    {r : Int} (h : roundToDouble v = .ok r) :
    coerce texts fieldType given = .ok (stored fieldType r) := by
  have hfloat := @toFloat_of_gives texts v given hgiven r h
  rcases types_of_inRange htype with ⟨hint, -, -⟩ | ⟨hnot, hnumber, -⟩
  · have hconvert : convert texts fieldType given = .ok (.int r) := by
      rw [convert, if_pos hint, hfloat]
      simp [Except.bind, PyFloat.toInt, Except.map]
    rw [coerce, hconvert, stored, if_pos hint]
  · have hconvert : convert texts fieldType given = .ok (.float (.finite r)) := by
      rw [convert, if_neg hnot, if_pos hnumber, hfloat]
      rfl
    rw [coerce, hconvert, stored, if_neg hnot]

/-- A reading out of range. -/
theorem coerce_of_gives_error (hgiven : given.Gives v) {fieldType : String}
    (htype : InRange fieldType v) {err : PyError} (h : roundToDouble v = .error err) :
    given = .int v ∧ coerce texts fieldType given = .error .overflowError ∨
      given ≠ .int v ∧ coerce texts fieldType given = .ok (.float (.infinite (v < 0))) := by
  have hnotRange : ¬InFloatRange v := fun hrange => by
    obtain ⟨r, hr⟩ := returns_roundToDouble_iff.mpr hrange
    cases h.symm.trans hr
  obtain ⟨hnot, hnumber, -⟩ : fieldType ∉ RawMetrics.intTypes ∧ fieldType ∈ RawMetrics.floatTypes ∧
      fieldType = "NUMERIC" :=
    (types_of_inRange htype).resolve_left fun hint => hnotRange hint.2.1
  refine (@toFloat_of_gives_error texts v given hgiven err h).imp (fun hfloat => ?_) fun hfloat => ?_
  · refine ⟨hfloat.1, ?_⟩
    have hconvert : convert texts fieldType given = .error .overflowError := by
      rw [convert, if_neg hnot, if_pos hnumber, hfloat.2]
      rfl
    rw [coerce, hconvert]
  · refine ⟨hfloat.1, ?_⟩
    have hconvert : convert texts fieldType given = .ok (.float (.infinite (v < 0))) := by
      rw [convert, if_neg hnot, if_pos hnumber, hfloat.2]
      rfl
    rw [coerce, hconvert]

/-! ### A reading in a scrape -/

section

variable {mapping : List (String × String × String)} {column : String}
  {wide wide' narrow narrow' : Dict String (Option Value)}

theorem rows_cons_some_eq_ok_iff {k : String} {v : Value} {rest : List (String × Option Value)}
    {both : Dict String (Option Value) × Dict String (Option Value)} :
    rows texts mapping ((k, some v) :: rest) (wide, narrow) = .ok both ↔
      ∃ x, coerce texts (RawMetrics.columnOf mapping k).2 v = .ok x ∧
        rows texts mapping rest (wide.set (RawMetrics.columnOf mapping k).1 (some x),
          narrow.set (RawMetrics.columnOf mapping k).1 (some v)) = .ok both := by
  rw [rows]
  exact bind_eq_ok_iff

/-- Readings of other columns leave a column as it is. -/
theorem get?_rows_of_ne {metrics : List (String × Option Value)}
    (hne : ∀ r ∈ metrics, (RawMetrics.columnOf mapping r.1).1 ≠ column)
    (h : rows texts mapping metrics (wide, narrow) = .ok (wide', narrow')) :
    wide'.get? column = wide.get? column := by
  induction metrics generalizing wide narrow with
  | nil =>
    obtain ⟨rfl, -⟩ := Prod.mk.inj (Except.ok.inj h)
    rfl
  | cons reading rest ih =>
    obtain ⟨hfirst, hrest⟩ := List.forall_mem_cons.mp hne
    obtain ⟨k, reading⟩ := reading
    cases reading with
    | none =>
      rw [rows] at h
      rw [ih hrest h, Dict.get?_set, if_neg (Ne.symm hfirst)]
    | some v =>
      obtain ⟨x, -, h⟩ := rows_cons_some_eq_ok_iff.mp h
      rw [ih hrest h, Dict.get?_set, if_neg (Ne.symm hfirst)]

/-- A scrape, up to one of its readings. -/
theorem rows_append_eq_ok {before after : List (String × Option Value)}
    (h : rows texts mapping (before ++ after) (wide, narrow) = .ok (wide', narrow')) :
    ∃ wide₁ narrow₁, rows texts mapping after (wide₁, narrow₁) = .ok (wide', narrow') := by
  induction before generalizing wide narrow with
  | nil => exact ⟨wide, narrow, h⟩
  | cons reading rest ih =>
    obtain ⟨k, reading⟩ := reading
    cases reading with
    | none =>
      rw [List.cons_append, rows] at h
      exact ih h
    | some v =>
      rw [List.cons_append] at h
      obtain ⟨x, -, h⟩ := rows_cons_some_eq_ok_iff.mp h
      exact ih h

theorem columnOf_of_lookup {name dataType : String}
    (h : mapping.lookup name = some (column, dataType)) :
    RawMetrics.columnOf mapping name = (column, RawMetrics.upper dataType) := by
  rw [RawMetrics.columnOf, h]

/-- The reading is stored as the integer if what it is coerced to is the integer. -/
theorem readingExact_iff {dataType : String} :
    ReadingExact texts given dataType v ↔
      ∀ x, coerce texts (RawMetrics.upper dataType) given = .ok x → x.Denotes v := by
  constructor
  · intro h x hx
    have hlookup : [("m", "c", dataType)].lookup "m" = some ("c", dataType) := rfl
    have hrows : rows texts [("m", "c", dataType)] [("m", some given)] (.empty, .empty) =
        .ok (Dict.empty.set "c" (some x), Dict.empty.set "c" (some given)) := by
      refine rows_cons_some_eq_ok_iff.mpr ⟨x, ?_, ?_⟩
      · rw [columnOf_of_lookup hlookup]
        exact hx
      · rw [columnOf_of_lookup hlookup]
        rfl
    have hprocess : processRawMetrics texts [("m", "c", dataType)] [("m", some given)] =
        (Dict.empty.set "c" (some x), Dict.empty.set "c" (some given)) := by
      rw [processRawMetrics, hrows]
    have hget : (Dict.empty.set "c" (some x)).get? "c" = some (some x) :=
      (Dict.get?_set ..).trans (if_pos rfl)
    rcases h [("m", "c", dataType)] "m" "c" [] [] hlookup (by simp) with hempty | ⟨y, hy, hdenotes⟩
    · have hwide : Dict.empty.set "c" (some x) = (.empty : Dict String (Option Value)) :=
        congrArg Prod.fst (hprocess.symm.trans hempty)
      rw [hwide] at hget
      cases hget
    · rw [List.nil_append, hprocess] at hy
      obtain rfl := Option.some.inj (Option.some.inj (hget.symm.trans hy))
      exact hdenotes
  · intro h mapping name column before after hlookup hafter
    cases hrows : rows texts mapping (before ++ (name, some given) :: after) (.empty, .empty) with
    | error err => exact Or.inl (by rw [processRawMetrics, hrows])
    | ok both =>
      obtain ⟨wide, narrow⟩ := both
      obtain ⟨wide₁, narrow₁, hfrom⟩ := rows_append_eq_ok hrows
      obtain ⟨x, hx, hrest⟩ := rows_cons_some_eq_ok_iff.mp hfrom
      rw [columnOf_of_lookup hlookup] at hx hrest
      refine Or.inr ⟨x, ?_, h x hx⟩
      rw [processRawMetrics, hrows]
      exact (get?_rows_of_ne hafter hrest).trans ((Dict.get?_set ..).trans (if_pos rfl))

end

/-! ### The value of an edit -/

/-- The value of an edit in range is the rounding of the integer, or is refused. -/
theorem coerceNumber_of_gives (hgiven : given.Gives v) {r : Int} (h : roundToDouble v = .ok r)
    {dataType : String} {x : Value} (hx : coerceNumber texts given dataType = .ok x) :
    x = .float (.finite r) := by
  rw [coerceNumber, toFloat_of_gives hgiven h] at hx
  dsimp only at hx
  split at hx
  · exact (Except.ok.inj hx).symm
  · split at hx
    · cases hx
    · split at hx
      · cases hx
      · exact (Except.ok.inj hx).symm

/-- A number column takes the data types of the integers. -/
theorem coerceValueForDataType_eq {dataType : String} (htype : InRange (RawMetrics.upper dataType) v) :
    coerceValueForDataType texts given (some dataType) = coerceNumber texts given dataType := by
  have hnot : RawMetrics.upper dataType ≠ "BOOLEAN" := by
    rcases htype with ⟨h, -⟩ | ⟨h, -⟩ | h <;> rw [h] <;> decide
  have hmem : ¬RawMetrics.upper dataType ∉ metricEditNumericTypes := by
    rcases htype with ⟨h, -⟩ | ⟨h, -⟩ | h <;> rw [h] <;> decide
  unfold coerceValueForDataType
  simp only [if_neg hnot, if_neg hmem]

/-! ## When integers are stored exactly -/

/-- **An integer is stored as it is, or refused, exactly if it is a float.** Given as an `int` that is
beyond all floats it is refused too, but as a text it becomes an infinity. -/
theorem storedExactly_iff (texts : Texts) (v : Int) (given : Value) (hgiven : given.Gives v)
    (dataType : String) (hrange : InRange (RawMetrics.upper dataType) v) :
    ReadingExact texts given dataType v ∧ EditExact texts given dataType v ↔
      Has53Bits v ∨ RawMetrics.upper dataType = "NUMERIC" ∧ given = .int v ∧ ¬InFloatRange v := by
  rw [readingExact_iff, EditExact, coerceValueForDataType_eq hrange]
  cases hround : roundToDouble v with
  | ok r =>
    have hin : InFloatRange v := returns_roundToDouble_iff.mp ⟨r, hround⟩
    rw [coerce_of_gives hgiven hrange hround, has53Bits_iff hround, or_iff_left fun h => h.2.2 hin]
    constructor
    · rintro ⟨hreading, -⟩
      exact stored_denotes_iff.mp (hreading _ rfl)
    · intro heq
      refine ⟨fun x hx => ?_, fun x hx => ?_⟩
      · rw [← Except.ok.inj hx]
        exact stored_denotes_iff.mpr heq
      · rw [coerceNumber_of_gives hgiven hround hx]
        exact Int.cast_inj.mpr heq
  | error err =>
    have hnot : ¬InFloatRange v := fun hin => by
      obtain ⟨r, hr⟩ := returns_roundToDouble_iff.mpr hin
      cases hround.symm.trans hr
    have hnumeric : RawMetrics.upper dataType = "NUMERIC" := by
      rcases types_of_inRange hrange with ⟨-, hin, -⟩ | ⟨-, -, h⟩
      · exact absurd hin hnot
      · exact h
    rw [or_iff_right (not_has53Bits hnot)]
    rcases @coerce_of_gives_error texts v given hgiven _ hrange err hround with
      ⟨hint, hcoerce⟩ | ⟨hint, hcoerce⟩
    · refine iff_of_true ⟨fun x hx => ?_, fun x hx => ?_⟩ ⟨hnumeric, hint, hnot⟩
      · rw [hcoerce] at hx
        cases hx
      · obtain ⟨-, hfloat⟩ := (@toFloat_of_gives_error texts v given hgiven err hround).resolve_right
          fun hother => hother.1 hint
        rw [coerceNumber, hfloat] at hx
        cases hx
    · refine iff_of_false ?_ fun h => hint h.2.1
      rintro ⟨hreading, -⟩
      exact hreading _ hcoerce

end

/-- No other texts are numbers. -/
def noTexts : Texts := ⟨fun _ => none, fun _ => ""⟩

/-- A small counter of a `BIGINT` column. -/
theorem storedExactly_iff_seven : ReadingExact noTexts (.int 7) "bigint" 7 ∧
    EditExact noTexts (.int 7) "bigint" 7 :=
  (storedExactly_iff noTexts 7 (.int 7) rfl "bigint" (Or.inr (Or.inl ⟨by decide, by decide, by decide⟩))).mpr
    (Or.inl ((has53Bits_iff (roundToDouble_of_lt (by decide))).mpr rfl))

/-- The first integer that is no float is stored as the one before it. -/
theorem exact_bigint_false :
    coerce noTexts "BIGINT" (.int 9007199254740993) = .ok (.int 9007199254740992) ∧
    ¬(ReadingExact noTexts (.int 9007199254740993) "bigint" 9007199254740993 ∧
      EditExact noTexts (.int 9007199254740993) "bigint" 9007199254740993) := by
  have hrange : InRange (RawMetrics.upper "bigint") 9007199254740993 :=
    Or.inr (Or.inl ⟨by decide, by decide, by decide⟩)
  have hmagnitude : roundMagnitude 9007199254740993 = 9007199254740992 := by decide +kernel
  have hround : roundToDouble 9007199254740993 = .ok 9007199254740992 := by
    have hnot : ¬2 ^ 1024 ≤ roundMagnitude (9007199254740993 : Int).natAbs := by
      rw [show (9007199254740993 : Int).natAbs = 9007199254740993 from rfl, hmagnitude]
      decide +kernel
    rw [roundToDouble]
    simp only [if_neg hnot]
    rw [if_pos (by decide), show (9007199254740993 : Int).natAbs = 9007199254740993 from rfl,
      hmagnitude]
    rfl
  have hgiven : (Value.int 9007199254740993).Gives 9007199254740993 := rfl
  have hcoerce : coerce noTexts "BIGINT" (.int 9007199254740993) = .ok (.int 9007199254740992) :=
    coerce_of_gives hgiven (Or.inr (Or.inl ⟨rfl, by decide, by decide⟩)) hround
  refine ⟨hcoerce, ?_⟩
  rintro ⟨hreading, -⟩
  have hupper : RawMetrics.upper "bigint" = "BIGINT" := by decide
  have hdenotes := readingExact_iff.mp hreading _ (hupper ▸ hcoerce)
  have heq : (9007199254740992 : Int) = 9007199254740993 := hdenotes
  exact absurd heq (by decide)

end IntegerColumns

end ProtocolGateway
