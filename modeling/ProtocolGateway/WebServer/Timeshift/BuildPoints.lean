import ProtocolGateway.CodeTables
import ProtocolGateway.DecodeFailures
import ProtocolGateway.WebServer.Timeshift.FieldValues

/-!
# The points of an import

`build_points` makes one point of each row of a table, or counts the row as skipped. The instant of a
row is read by pandas, and all points are moved by the same time.

* `buildPoints` — the import.
* `Faithful` — every row is accounted for, and every value is stored as it should be.
* `faithful_iff` — when that is so: no row raises, and none of its cells is mishandled.
-/

namespace ProtocolGateway

namespace Timeshift

open Outcomes

variable {Ω : Type}

/-! ## The import -/

/-- A row, by its columns. -/
abbrev Row (Ω : Type) := Dict String (Option (FieldValue Ω))

structure InfluxPointDict (Ω : Type) where
  measurement : String
  timeIso : String
  fields : Dict String (FieldValue Ω)
  tags : Dict String String

structure TimeshiftImportResult where
  rowsSkippedNoFields : Nat
  rowsSkippedBadTime : Nat
  unmappedColumns : List String
  typeMismatches : List String

def TimeshiftImportResult.init : TimeshiftImportResult := ⟨0, 0, [], []⟩

/-- What the import is given, and the conversions of pandas. -/
structure Job (Ω : Type) where
  measurement : String
  /-- the field of a column; the empty text stands for a column that is ignored -/
  mapping : Dict String String
  tags : Dict String String
  timeColumn : String
  /-- in nanoseconds -/
  timeDelta : Int
  influxFieldTypes : Dict String FieldType
  allowFloatCoercion : Bool
  conversions : Conversions Ω
  /-- `repr(value)` -/
  repr : FieldValue Ω → String
  /-- the instant of a cell in its time zone, in nanoseconds, `none` for `NaT` -/
  instant : FieldValue Ω → Except PyError (Option Int)
  /-- can an instant be held? -/
  inBounds : Int → Bool
  /-- `t.isoformat()`, in UTC -/
  isoformat : Int → String

variable (job : Job Ω)

/-- The instant of a cell, moved by the time delta. -/
def Job.shifted (timeVal : FieldValue Ω) : Except PyError (Option Int) :=
  caught none ((job.instant timeVal).bind fun ts =>
    match ts with
    | none => .ok none
    | some t =>
      if job.inBounds (t + job.timeDelta) then .ok (some (t + job.timeDelta))
      else .error .valueError)

/-- The new time of a row, `none` if it has no valid one. -/
def Job.newTime (row : Row Ω) : Except PyError (Option Int) :=
  match row.get? job.timeColumn with
  | none | some none => .ok none
  | some (some (.float f)) => if f.isNaN then .ok none else job.shifted (.float f)
  | some (some timeVal) => job.shifted timeVal

/-- The value that is checked for a cell. -/
def Job.cellValue (targetField : String) (rawVal : Option (FieldValue Ω)) :
    Except PyError (Option (FieldValue Ω)) :=
  let val := normalizeValue job.conversions rawVal
  if job.allowFloatCoercion then
    coerceToInfluxType job.conversions (job.influxFieldTypes.get? targetField) val
  else .ok val

/-- What is said about a value that does not fit. -/
def Job.mismatchText (time : Int) (targetField : String) (val : FieldValue Ω) : String :=
  targetField ++ "=" ++ job.repr val ++ " (row time " ++ job.isoformat time ++ ")"

/-- One turn of the loop over the cells of a row. -/
def Job.importCell (time : Int) (acc : Dict String (FieldValue Ω) × TimeshiftImportResult)
    (cell : String × Option (FieldValue Ω)) :
    Except PyError (Dict String (FieldValue Ω) × TimeshiftImportResult) :=
  if cell.1 = job.timeColumn ∨ cell.1 ∈ job.tags.keys then .ok acc
  else
    match job.mapping.get? cell.1 with
    | none =>
      .ok (acc.1, { acc.2 with unmappedColumns := acc.2.unmappedColumns.insert cell.1 })
    | some targetField =>
      if targetField = "" then .ok acc
      else
        (job.cellValue targetField cell.2).map fun val =>
          match val with
          | none => acc
          | some val =>
            if checkFieldType (job.influxFieldTypes.get? targetField) val then
              (acc.1.set targetField val, acc.2)
            else
              (acc.1, { acc.2 with
                typeMismatches := acc.2.typeMismatches ++ [job.mismatchText time targetField val] })

/-- One turn of the loop over the rows. -/
def Job.importRow (acc : List (InfluxPointDict Ω) × TimeshiftImportResult) (row : Row Ω) :
    Except PyError (List (InfluxPointDict Ω) × TimeshiftImportResult) :=
  (job.newTime row).bind fun newTime =>
    match newTime with
    | none => .ok (acc.1, { acc.2 with rowsSkippedBadTime := acc.2.rowsSkippedBadTime + 1 })
    | some time =>
      (row.items.foldlM (job.importCell time) (.empty, acc.2)).map fun r =>
        if r.1.items = [] then
          (acc.1, { r.2 with rowsSkippedNoFields := r.2.rowsSkippedNoFields + 1 })
        else
          (acc.1 ++ [⟨job.measurement, job.isoformat time, r.1, job.tags⟩], r.2)

/-- `build_points`. -/
def buildPoints (df : List (Row Ω)) :
    Except PyError (List (InfluxPointDict Ω) × TimeshiftImportResult) :=
  df.foldlM job.importRow ([], .init)

/-! ## What it is for -/

/-- What becomes of a row. -/
inductive Fate (Ω : Type)
  | point (p : InfluxPointDict Ω)
  | noFields
  | badTime

def Fate.point? : Fate Ω → Option (InfluxPointDict Ω)
  | point p => some p
  | noFields | badTime => none

def Fate.isNoFields : Fate Ω → Bool
  | noFields => true
  | point _ | badTime => false

def Fate.isBadTime : Fate Ω → Bool
  | badTime => true
  | point _ | noFields => false

/-- The field that a cell is for. -/
def Job.target (cell : String × Option (FieldValue Ω)) : Option String :=
  if cell.1 = job.timeColumn ∨ cell.1 ∈ job.tags.keys then none
  else (job.mapping.get? cell.1).filter (· ≠ "")

/-- The value that a cell gives to a field. -/
def Job.stored (cell : String × Option (FieldValue Ω)) : Option (String × FieldValue Ω) :=
  (job.target cell).bind fun field =>
    match job.cellValue field cell.2 with
    | .ok (some value) =>
      if checkFieldType (job.influxFieldTypes.get? field) value then some (field, value) else none
    | _ => none

/-- The instant of a row. -/
def Job.HasInstant (row : Row Ω) (t : Int) : Prop :=
  ∃ timeVal, row.get? job.timeColumn = some (some timeVal) ∧
    (∀ f, timeVal = .float f → f.isNaN = false) ∧ job.instant timeVal = .ok (some t)

/-- The row becomes this: a point at its instant moved by the time delta, with what its cells store; or
it is skipped, since they store nothing, or since it has no valid time. -/
def Job.Becomes (row : Row Ω) : Fate Ω → Prop
  | .point p => ∃ t, job.HasInstant row t ∧ job.inBounds (t + job.timeDelta) = true ∧
      row.items.filterMap job.stored ≠ [] ∧
      p = ⟨job.measurement, job.isoformat (t + job.timeDelta),
        Dict.empty.update (row.items.filterMap job.stored), job.tags⟩
  | .noFields => ∃ t, job.HasInstant row t ∧ job.inBounds (t + job.timeDelta) = true ∧
      row.items.filterMap job.stored = []
  | .badTime => ∀ t, job.HasInstant row t → job.inBounds (t + job.timeDelta) = false

/-- A cell stores nothing, or it is not blank and stores a value of the type of its field. -/
def Job.StoresWell (cell : String × Option (FieldValue Ω)) : Prop :=
  ∀ field value, job.stored cell = some (field, value) →
    ¬Blank job.conversions cell.2 ∧ Conforms (job.influxFieldTypes.get? field) value

/-- Every row becomes a point or is counted once, and no cell of a row with a valid time is stored that
should not be. -/
def Faithful (df : List (Row Ω)) : Prop :=
  ∃ points result fates, buildPoints job df = .ok (points, result) ∧
    List.Forall₂ job.Becomes df fates ∧ points = fates.filterMap Fate.point? ∧
    result.rowsSkippedNoFields = fates.countP Fate.isNoFields ∧
    result.rowsSkippedBadTime = fates.countP Fate.isBadTime ∧
    ∀ row ∈ df, (∃ t, job.HasInstant row t ∧ job.inBounds (t + job.timeDelta) = true) →
      ∀ cell ∈ row.items, job.StoresWell cell

/-! ## Cells that are mishandled -/

/-- A type other than the four. -/
def IsOther (expected : Option FieldType) : Prop := ∃ name, expected = some (.other name)

/-- An exception other than the two that are caught. -/
def Escapes {α : Type} (x : Except PyError α) : Prop :=
  ∃ err, x = .error err ∧ err ≠ .valueError ∧ err ≠ .typeError

/-- A conversion of an object raises, or makes a value of `NaT`. -/
def ConvertsBadly (c : Conversions Ω) (o : Ω) {α : Type} (x : Except PyError α) : Prop :=
  c.isNaT o = true ∧ Returns x ∨ Escapes x

/-- A normalized value for a field of this type is stored though it is nothing, or of another type, or
its coercion raises. -/
def Mishandled (c : Conversions Ω) (coerce : Bool) (expected : Option FieldType) :
    Option (FieldValue Ω) → Prop
  -- `str(None)` is a text like any other
  | none => coerce = true ∧ expected = some .string
  | some (.int i) =>
    IsOther expected ∨ expected = some .float ∧ (coerce = true → ¬InFloatRange i)
  | some (.float f) =>
    IsOther expected ∨ coerce = true ∧ expected = some .integer ∧ ¬(0 ≤ f ∧ f < 1) ∧
      truncate f = .error .overflowError
  | some (.str _) => IsOther expected
  | some (.bool _) =>
    IsOther expected ∨ coerce = false ∧ (expected = some .float ∨ expected = some .integer)
  | some (.object o) =>
    IsOther expected ∨
      c.isNaT o = true ∧ (expected = none ∨ coerce = true ∧ expected = some .string) ∨
      coerce = true ∧ (expected = some .float ∧ ConvertsBadly c o (c.objectFloat o) ∨
        expected = some .integer ∧ ConvertsBadly c o (c.objectInt o))

section

variable {c : Conversions Ω} {expected : Option FieldType} {n : Option (FieldValue Ω)}

/-- The normalized value of a blank cell. -/
def IsNothing (c : Conversions Ω) (n : Option (FieldValue Ω)) : Prop :=
  n = none ∨ ∃ o, n = some (.object o) ∧ c.isNaT o = true

theorem isNothing_normalizeValue_iff {raw : Option (FieldValue Ω)} :
    IsNothing c (normalizeValue c raw) ↔ Blank c raw := by
  unfold IsNothing
  rw [normalizeValue_eq_none_iff]
  constructor
  · rintro (⟨h, -⟩ | ⟨o, ho, hNaT⟩)
    · exact h
    · have hraw : raw = some (.object o) := (normalizeValue_eq_object_iff c).mp ho
      rw [hraw]
      exact hNaT
  · intro h
    by_cases hobject : ∃ o, raw = some (.object o)
    · obtain ⟨o, rfl⟩ := hobject
      exact Or.inr ⟨o, rfl, h⟩
    · exact Or.inl ⟨h, fun o ho => hobject ⟨o, ho⟩⟩

/-- The outcome for a cell is as it should be. -/
def Sound (c : Conversions Ω) (expected : Option FieldType) (n : Option (FieldValue Ω))
    (outcome : Except PyError (Option (FieldValue Ω))) : Prop :=
  Returns outcome ∧ ∀ value, outcome = .ok (some value) → checkFieldType expected value = true →
    ¬IsNothing c n ∧ Conforms expected value

/-- A value that is kept as it is. -/
theorem sound_ok_iff : Sound c expected n (.ok n) ↔ ∀ value, n = some value →
    checkFieldType expected value = true → ¬IsNothing c n ∧ Conforms expected value := by
  unfold Sound
  rw [and_iff_right (returns_ok n)]
  exact forall_congr' fun value => imp_congr_left ⟨Except.ok.inj, congrArg Except.ok⟩

/-- A value that is converted to the type of its field. -/
theorem sound_caught_iff {α : Type} {x : Except PyError α} {g : α → FieldValue Ω}
    (hconforms : ∀ a, Conforms expected (g a)) (hchecks : ∀ a, checkFieldType expected (g a) = true)
    (hfails : x = .error .valueError ∨ x = .error .typeError → ∀ value, n = some value →
      checkFieldType expected value = false) :
    Sound c expected n (caught n (x.map fun a => some (g a))) ↔
      ¬(Escapes x ∨ Returns x ∧ IsNothing c n) := by
  have hcaught : x = .error .valueError ∨ x = .error .typeError →
      (Sound c expected n (.ok n) ↔ ¬(Escapes x ∨ Returns x ∧ IsNothing c n)) := by
    intro hx
    refine iff_of_true (sound_ok_iff.mpr fun value hn hcheck => ?_) ?_
    · rw [hfails hx value hn] at hcheck
      cases hcheck
    · rintro (⟨err, herr, hvalue, htype⟩ | ⟨⟨a, ha⟩, -⟩)
      · rcases hx with hx | hx
        · exact hvalue (Except.error.inj (herr.symm.trans hx))
        · exact htype (Except.error.inj (herr.symm.trans hx))
      · rcases hx with hx | hx
        · cases hx.symm.trans ha
        · cases hx.symm.trans ha
  cases x with
  | ok a =>
    have hnot : ¬Escapes (.ok a : Except PyError α) := fun ⟨err, herr, _⟩ => (by cases herr)
    rw [or_iff_right hnot, and_iff_right (returns_ok a)]
    refine ⟨fun h => (h.2 (g a) rfl (hchecks a)).1, fun h => ⟨returns_ok _, fun value heq _ => ?_⟩⟩
    obtain rfl := Option.some.inj (Except.ok.inj heq)
    exact ⟨h, hconforms a⟩
  | error err =>
    by_cases hvalue : err = .valueError
    · rw [hvalue] at hcaught ⊢
      exact hcaught (Or.inl rfl)
    · by_cases htype : err = .typeError
      · rw [htype] at hcaught ⊢
        exact hcaught (Or.inr rfl)
      · refine iff_of_false (fun h => ?_) (not_not_intro (Or.inl ⟨err, rfl, hvalue, htype⟩))
        obtain ⟨a, ha⟩ := h.1
        rw [Except.map, caught] at ha
        · cases ha
        · exact fun heq => hvalue (Except.error.inj heq)
        · exact fun heq => htype (Except.error.inj heq)

/-! ### Value by value -/

theorem isNothing_iff_false {value : FieldValue Ω} (h : ∀ o, value ≠ .object o) :
    IsNothing c (some value) ↔ False := by
  refine iff_of_false ?_ not_false
  rintro (heq | ⟨o, ho, -⟩)
  · cases heq
  · exact h o (Option.some.inj ho)

theorem isNothing_object_iff {o : Ω} : IsNothing c (some (.object o)) ↔ c.isNaT o = true := by
  constructor
  · rintro (heq | ⟨o', ho, hNaT⟩)
    · cases heq
    · obtain rfl := FieldValue.object.inj (Option.some.inj ho)
      exact hNaT
  · exact fun h => Or.inr ⟨o, rfl, h⟩

/-- A value is kept as it is. -/
theorem sound_kept_iff {value : FieldValue Ω} : Sound c expected (some value) (.ok (some value)) ↔
    ¬(checkFieldType expected value = true ∧
      (IsNothing c (some value) ∨ ¬Conforms expected value)) := by
  rw [sound_ok_iff]
  constructor
  · rintro h ⟨hcheck, hbad⟩
    obtain ⟨hsome, hconforms⟩ := h value rfl hcheck
    exact hbad.elim hsome fun hnot => hnot hconforms
  · intro h value' heq hcheck
    obtain rfl := Option.some.inj heq
    exact ⟨fun hnothing => h ⟨hcheck, Or.inl hnothing⟩,
      by_contra fun hnot => h ⟨hcheck, Or.inr hnot⟩⟩

/-- What is coerced to a float. -/
theorem sound_float_iff :
    Sound c (some .float) n (coerceToInfluxType c (some .float) n) ↔
      ¬(Escapes (toFloat c n) ∨ Returns (toFloat c n) ∧ IsNothing c n) := by
  refine sound_caught_iff (fun f type h => h ▸ rfl) (fun f => rfl) fun hx value hn => ?_
  subst hn
  cases value with
  | int i =>
    rcases hround : roundToDouble i with err | r
    · obtain rfl := error_of_roundToDouble hround
      simp [toFloat, hround, Except.map] at hx
    · simp [toFloat, hround, Except.map] at hx
  | float f => simp [toFloat] at hx
  | bool b => simp [toFloat] at hx
  | str s => rfl
  | object o => rfl

/-- What is coerced to an integer. -/
theorem sound_integer_iff :
    Sound c (some .integer) n (coerceToInfluxType c (some .integer) n) ↔
      ¬(Escapes (coerceToInteger c n) ∨ Returns (coerceToInteger c n) ∧ IsNothing c n) := by
  refine sound_caught_iff (fun f type h => h ▸ rfl) (fun f => rfl) fun hx value hn => ?_
  subst hn
  cases value with
  | int i => simp [coerceToInteger, toInt] at hx
  | float f => rfl
  | bool b => simp [coerceToInteger, toInt] at hx
  | str s => rfl
  | object o => rfl

/-- What is coerced to a text. -/
theorem sound_string_iff :
    Sound c (some .string) n (coerceToInfluxType c (some .string) n) ↔
      ¬(Escapes (toText c n) ∨ Returns (toText c n) ∧ IsNothing c n) := by
  refine sound_caught_iff (fun f type h => h ▸ rfl) (fun f => rfl) fun hx value hn => ?_
  subst hn
  cases value with
  | int i => rfl
  | float f => simp [toText] at hx
  | bool b => simp [toText] at hx
  | str s => simp [toText] at hx
  | object o => simp [toText] at hx

/-- What is coerced to a flag. -/
theorem sound_boolean :
    Sound c (some .boolean) n (coerceToInfluxType c (some .boolean) n) := by
  refine ⟨returns_ok _, fun value heq hcheck => ?_⟩
  have helim : (coerceToBoolean c n).elim n (fun b => some (.bool b)) = some value :=
    Except.ok.inj heq
  cases hflag : coerceToBoolean c n with
  | some b =>
    rw [hflag] at helim
    obtain rfl := Option.some.inj helim
    refine ⟨?_, fun type h => h ▸ rfl⟩
    rintro (rfl | ⟨o, rfl, -⟩)
    · cases hflag
    · cases hflag
  | none =>
    rw [hflag] at helim
    obtain rfl : n = some value := helim
    cases value with
    | bool b => exact ⟨fun h => (isNothing_iff_false (by simp)).mp h, fun type h => h ▸ rfl⟩
    | int i => cases hcheck
    | float f => cases hcheck
    | str s => cases hcheck
    | object o => cases hcheck

/-! ### All values -/

theorem escapes_ok {α : Type} {a : α} : ¬Escapes (.ok a : Except PyError α) :=
  fun ⟨_, h, _⟩ => (by cases h)

theorem escapes_map_iff {α β : Type} {x : Except PyError α} {f : α → β} :
    Escapes (x.map f) ↔ Escapes x := by
  cases x with
  | ok a => exact iff_of_false escapes_ok escapes_ok
  | error err => simp [Escapes, Except.map]

/-- An integer has a float, or the conversion raises an exception that is not caught. -/
theorem escapes_roundToDouble_iff {i : Int} : Escapes (roundToDouble i) ↔ ¬InFloatRange i := by
  rw [← returns_roundToDouble_iff]
  rcases hround : roundToDouble i with err | r
  · refine iff_of_true ⟨err, rfl, ?_⟩ not_returns_error
    rw [error_of_roundToDouble hround]
    exact ⟨by simp, by simp⟩
  · exact iff_of_false escapes_ok (not_not_intro (returns_ok r))

/-- The only exception of `int(f)` that is not caught is that of an infinity. -/
theorem escapes_truncate_iff {f : Float} :
    Escapes (truncate f) ↔ truncate f = .error .overflowError := by
  constructor
  · rintro ⟨err, herr, hvalue, -⟩
    unfold truncate at herr ⊢
    split at herr
    · split at herr
      · next h => rw [if_pos ‹_›, if_pos h]
      · exact absurd (Except.error.inj herr).symm hvalue
    · cases herr
  · exact fun h => ⟨_, h, by simp, by simp⟩

theorem not_escapes_of_caught {α : Type} {err : PyError} (h : err = .valueError ∨ err = .typeError) :
    ¬Escapes (.error err : Except PyError α) := by
  rintro ⟨err', herr, hvalue, htype⟩
  obtain rfl := Except.error.inj herr
  exact h.elim hvalue htype

/-- A conversion of a value that is something is as it should be unless it raises. -/
theorem sound_of_something {α : Type} {x : Except PyError α} (hn : ¬IsNothing c n) :
    (Escapes x ∨ Returns x ∧ IsNothing c n) ↔ Escapes x := by
  rw [iff_false_intro hn, and_false, or_false]

/-- Without coercion. -/
theorem sound_uncoerced_iff :
    Sound c expected n (.ok n) ↔ ¬Mishandled c false expected n := by
  cases n with
  | none => simp [sound_ok_iff, Mishandled]
  | some value =>
    rw [sound_kept_iff, not_iff_not]
    cases value with
    | object o =>
      rw [isNothing_object_iff]
      rcases expected with - | (- | - | - | - | name) <;>
        simp [checkFieldType, FieldValue.isNumber, Conforms, FieldValue.fieldType, Mishandled, IsOther]
    | int i =>
      rw [isNothing_iff_false (by simp)]
      rcases expected with - | (- | - | - | - | name) <;>
        simp [checkFieldType, FieldValue.isNumber, Conforms, FieldValue.fieldType, Mishandled, IsOther]
    | float f =>
      rw [isNothing_iff_false (by simp)]
      rcases expected with - | (- | - | - | - | name) <;>
        simp [checkFieldType, FieldValue.isNumber, Conforms, FieldValue.fieldType, Mishandled, IsOther]
    | str s =>
      rw [isNothing_iff_false (by simp)]
      rcases expected with - | (- | - | - | - | name) <;>
        simp [checkFieldType, FieldValue.isNumber, Conforms, FieldValue.fieldType, Mishandled, IsOther]
    | bool b =>
      rw [isNothing_iff_false (by simp)]
      rcases expected with - | (- | - | - | - | name) <;>
        simp [checkFieldType, FieldValue.isNumber, Conforms, FieldValue.fieldType, Mishandled, IsOther]

/-- With coercion. -/
theorem sound_coerced_iff :
    Sound c expected n (coerceToInfluxType c expected n) ↔ ¬Mishandled c true expected n := by
  have hnone : IsNothing c (none : Option (FieldValue Ω)) := Or.inl rfl
  have hsome : ∀ {value : FieldValue Ω}, (∀ o, value ≠ .object o) → ¬IsNothing c (some value) :=
    fun h hnothing => (isNothing_iff_false h).mp hnothing
  have htypeError : ∀ {α : Type}, ¬Escapes (.error .typeError : Except PyError α) :=
    not_escapes_of_caught (Or.inr rfl)
  rcases expected with - | (- | - | - | - | name)
  · -- the field is not there yet
    refine sound_uncoerced_iff.trans (not_congr ?_)
    rcases n with - | (i | f | s | b | o) <;> simp [Mishandled, IsOther]
  · refine sound_float_iff.trans (not_congr ?_)
    rcases n with - | (i | f | s | b | o)
    · simp [Mishandled, toFloat, htypeError, not_returns_error]
    · rw [sound_of_something (hsome (by simp)), toFloat, escapes_map_iff, escapes_roundToDouble_iff]
      simp [Mishandled, IsOther]
    · rw [sound_of_something (hsome (by simp)), toFloat]
      simp [Mishandled, IsOther, escapes_ok]
    · rw [sound_of_something (hsome (by simp)), toFloat]
      refine iff_of_false ?_ (by simp [Mishandled, IsOther])
      split
      · exact escapes_ok
      · exact not_escapes_of_caught (Or.inl rfl)
    · rw [sound_of_something (hsome (by simp)), toFloat]
      simp [Mishandled, IsOther, escapes_ok]
    · rw [isNothing_object_iff, toFloat, and_comm, or_comm]
      simp [Mishandled, IsOther, ConvertsBadly]
  · refine sound_integer_iff.trans (not_congr ?_)
    rcases n with - | (i | f | s | b | o)
    · simp [Mishandled, coerceToInteger, toInt, htypeError, not_returns_error]
    · rw [sound_of_something (hsome (by simp)), coerceToInteger, toInt]
      simp [Mishandled, IsOther, escapes_ok]
      simp
    · rw [sound_of_something (hsome (by simp)), coerceToInteger]
      split
      · next h => simp [Mishandled, IsOther, escapes_ok, h]
      · next h => simp [Mishandled, IsOther, escapes_truncate_iff, h]
    · rw [sound_of_something (hsome (by simp)), coerceToInteger, toInt]
      refine iff_of_false ?_ (by simp [Mishandled, IsOther])
      split
      · exact escapes_ok
      · exact not_escapes_of_caught (Or.inl rfl)
      · simp
    · rw [sound_of_something (hsome (by simp)), coerceToInteger, toInt]
      simp [Mishandled, IsOther, escapes_ok]
      simp
    · rw [isNothing_object_iff, coerceToInteger, toInt, and_comm, or_comm]
      simp [Mishandled, IsOther, ConvertsBadly]
      simp
  · refine sound_string_iff.trans (not_congr ?_)
    rcases n with - | (i | f | s | b | o)
    · simp [Mishandled, toText, returns_ok, hnone]
    · rw [sound_of_something (hsome (by simp)), toText]
      refine iff_of_false ?_ (by simp [Mishandled, IsOther])
      split
      · exact not_escapes_of_caught (Or.inl rfl)
      · exact escapes_ok
    · rw [sound_of_something (hsome (by simp)), toText]
      simp [Mishandled, IsOther, escapes_ok]
    · rw [sound_of_something (hsome (by simp)), toText]
      simp [Mishandled, IsOther, escapes_ok]
    · rw [sound_of_something (hsome (by simp)), toText]
      simp [Mishandled, IsOther, escapes_ok]
    · rw [isNothing_object_iff, toText]
      simp [Mishandled, IsOther, escapes_ok, returns_ok]
  · refine iff_of_true sound_boolean ?_
    rcases n with - | (i | f | s | b | o) <;> simp [Mishandled, IsOther]
  · refine sound_uncoerced_iff.trans (not_congr ?_)
    rcases n with - | (i | f | s | b | o) <;> simp [Mishandled, IsOther]

end

/-! ## The loops -/

section

variable {job : Job Ω}

/-- The two counters agree. -/
def SameCounts (r r' : TimeshiftImportResult) : Prop :=
  r'.rowsSkippedNoFields = r.rowsSkippedNoFields ∧ r'.rowsSkippedBadTime = r.rowsSkippedBadTime

/-- The outcome for a cell, if it is for a field. -/
def Job.CellReturns (job : Job Ω) (cell : String × Option (FieldValue Ω)) : Prop :=
  ∀ field, job.target cell = some field → Returns (job.cellValue field cell.2)

theorem target_of_mapping {cell : String × Option (FieldValue Ω)} {field : String}
    (hskip : ¬(cell.1 = job.timeColumn ∨ cell.1 ∈ job.tags.keys))
    (hmapping : job.mapping.get? cell.1 = some field) (hne : field ≠ "") :
    job.target cell = some field := by
  rw [Job.target, if_neg hskip, hmapping]
  exact Option.filter_some_pos (by simpa using hne)

/-- A cell that is for no field. -/
theorem importCell_of_target_none {cell : String × Option (FieldValue Ω)} (time : Int)
    (acc : Dict String (FieldValue Ω) × TimeshiftImportResult) (h : job.target cell = none) :
    ∃ result, job.importCell time acc cell = .ok (acc.1, result) ∧ SameCounts acc.2 result := by
  unfold Job.importCell
  split
  · exact ⟨acc.2, rfl, rfl, rfl⟩
  · next hskip =>
    split
    · exact ⟨_, rfl, rfl, rfl⟩
    · next field hmapping =>
      split
      · exact ⟨acc.2, rfl, rfl, rfl⟩
      · next hne => cases (target_of_mapping hskip hmapping hne).symm.trans h

/-- A cell that is for a field. -/
theorem importCell_of_target {cell : String × Option (FieldValue Ω)} {field : String} (time : Int)
    (acc : Dict String (FieldValue Ω) × TimeshiftImportResult) (h : job.target cell = some field) :
    (∃ err, job.cellValue field cell.2 = .error err ∧ job.importCell time acc cell = .error err) ∨
      Returns (job.cellValue field cell.2) ∧
        ∃ result, job.importCell time acc cell =
          .ok (acc.1.update (job.stored cell).toList, result) ∧ SameCounts acc.2 result := by
  have hskip : ¬(cell.1 = job.timeColumn ∨ cell.1 ∈ job.tags.keys) := by
    intro hskip
    rw [Job.target, if_pos hskip] at h
    cases h
  have hfilter : (job.mapping.get? cell.1).filter (· ≠ "") = some field := by
    rwa [Job.target, if_neg hskip] at h
  obtain ⟨hmapping, hne⟩ := Option.filter_eq_some_iff.mp hfilter
  have hne' : field ≠ "" := by simpa using hne
  have hstored : job.stored cell = match job.cellValue field cell.2 with
      | .ok (some value) =>
        if checkFieldType (job.influxFieldTypes.get? field) value then some (field, value) else none
      | _ => none := by
    rw [Job.stored, h]
    rfl
  unfold Job.importCell
  rw [if_neg hskip, hmapping, hstored]
  simp only [if_neg hne']
  cases job.cellValue field cell.2 with
  | error err => exact Or.inl ⟨err, rfl, rfl⟩
  | ok val =>
    refine Or.inr ⟨returns_ok val, ?_⟩
    cases val with
    | none => exact ⟨acc.2, rfl, rfl, rfl⟩
    | some value =>
      cases hcheck : checkFieldType (job.influxFieldTypes.get? field) value with
      | true => exact ⟨acc.2, by simp [Except.map, hcheck], rfl, rfl⟩
      | false =>
        let mismatches := acc.2.typeMismatches ++ [job.mismatchText time field value]
        exact ⟨{ acc.2 with typeMismatches := mismatches },
          by simp [Except.map, hcheck, mismatches], rfl, rfl⟩

/-- What a cell stores comes into the fields. -/
theorem importCell_eq {cell : String × Option (FieldValue Ω)} (h : job.CellReturns cell)
    (time : Int) (acc : Dict String (FieldValue Ω) × TimeshiftImportResult) :
    ∃ result, job.importCell time acc cell =
      .ok (acc.1.update (job.stored cell).toList, result) ∧ SameCounts acc.2 result := by
  cases htarget : job.target cell with
  | none =>
    have hstored : job.stored cell = none := by
      rw [Job.stored, htarget]
      rfl
    rw [hstored]
    exact importCell_of_target_none time acc htarget
  | some field =>
    rcases importCell_of_target time acc htarget with ⟨err, herr, -⟩ | ⟨-, h'⟩
    · obtain ⟨val, hval⟩ := h field htarget
      cases hval.symm.trans herr
    · exact h'

theorem returns_importCell_iff {cell : String × Option (FieldValue Ω)} (time : Int)
    (acc : Dict String (FieldValue Ω) × TimeshiftImportResult) :
    Returns (job.importCell time acc cell) ↔ job.CellReturns cell := by
  constructor
  · rintro ⟨r, hr⟩ field htarget
    rcases importCell_of_target time acc htarget with ⟨err, -, herr⟩ | ⟨hreturns, -⟩
    · cases hr.symm.trans herr
    · exact hreturns
  · intro h
    obtain ⟨result, hok, -⟩ := importCell_eq h time acc
    exact ⟨_, hok⟩

/-- The fields of a row. -/
theorem foldlM_importCell {cells : List (String × Option (FieldValue Ω))}
    (h : ∀ cell ∈ cells, job.CellReturns cell) (time : Int)
    (acc : Dict String (FieldValue Ω) × TimeshiftImportResult) :
    ∃ result, cells.foldlM (job.importCell time) acc =
      .ok (acc.1.update (cells.filterMap job.stored), result) ∧ SameCounts acc.2 result := by
  induction cells generalizing acc with
  | nil => exact ⟨acc.2, rfl, rfl, rfl⟩
  | cons cell cells ih =>
    obtain ⟨hcell, hcells⟩ := List.forall_mem_cons.mp h
    obtain ⟨first, hfirst, hcounts⟩ := importCell_eq hcell time acc
    obtain ⟨result, hrest, hcounts'⟩ := ih hcells (acc.1.update (job.stored cell).toList, first)
    refine ⟨result, ?_, hcounts'.1.trans hcounts.1, hcounts'.2.trans hcounts.2⟩
    rw [List.foldlM_cons, hfirst]
    refine hrest.trans ?_
    cases hstored : job.stored cell with
    | none =>
      rw [List.filterMap_cons_none hstored]
      rfl
    | some kv =>
      rw [List.filterMap_cons_some hstored]
      rfl

/-! ### Rows -/

/-- Reading the time of a row raises. -/
def Job.TimeRaises (job : Job Ω) (row : Row Ω) : Prop :=
  ∃ timeVal, row.get? job.timeColumn = some (some timeVal) ∧
    (∀ f, timeVal = .float f → f.isNaN = false) ∧ Escapes (job.instant timeVal)

theorem shifted_cases (timeVal : FieldValue Ω) :
    (∃ t, job.instant timeVal = .ok (some t) ∧ job.inBounds (t + job.timeDelta) = true ∧
        job.shifted timeVal = .ok (some (t + job.timeDelta))) ∨
      (Escapes (job.instant timeVal) ∧ ¬Returns (job.shifted timeVal)) ∨
      ((∀ t, job.instant timeVal = .ok (some t) → job.inBounds (t + job.timeDelta) = false) ∧
        ¬Escapes (job.instant timeVal) ∧ job.shifted timeVal = .ok none) := by
  unfold Job.shifted
  cases job.instant timeVal with
  | error err =>
    by_cases hvalue : err = .valueError
    · rw [hvalue]
      exact Or.inr (Or.inr ⟨fun t ht => (by cases ht), not_escapes_of_caught (Or.inl rfl), rfl⟩)
    · by_cases htype : err = .typeError
      · rw [htype]
        exact Or.inr (Or.inr ⟨fun t ht => (by cases ht), not_escapes_of_caught (Or.inr rfl), rfl⟩)
      · refine Or.inr (Or.inl ⟨⟨err, rfl, hvalue, htype⟩, ?_⟩)
        rintro ⟨r, hr⟩
        rw [Except.bind, caught] at hr
        · cases hr
        · exact fun heq => hvalue (Except.error.inj heq)
        · exact fun heq => htype (Except.error.inj heq)
  | ok ts =>
    cases ts with
    | none =>
      refine Or.inr (Or.inr ⟨fun t ht => ?_, escapes_ok, rfl⟩)
      cases Except.ok.inj ht
    | some t =>
      cases hbounds : job.inBounds (t + job.timeDelta) with
      | true => exact Or.inl ⟨t, rfl, hbounds, by simp [Except.bind, hbounds, caught]⟩
      | false =>
        refine Or.inr (Or.inr ⟨fun t' ht' => ?_, escapes_ok, by simp [Except.bind, hbounds, caught]⟩)
        obtain rfl := Option.some.inj (Except.ok.inj ht')
        exact hbounds

/-- A row has a valid time, or reading it raises, or it has none. -/
theorem newTime_cases (row : Row Ω) :
    (∃ t, job.HasInstant row t ∧ job.inBounds (t + job.timeDelta) = true ∧
        ¬job.TimeRaises row ∧ job.newTime row = .ok (some (t + job.timeDelta))) ∨
      (job.TimeRaises row ∧ ¬Returns (job.newTime row)) ∨
      ((∀ t, job.HasInstant row t → job.inBounds (t + job.timeDelta) = false) ∧
        ¬job.TimeRaises row ∧ job.newTime row = .ok none) := by
  have hnone : (∀ timeVal, row.get? job.timeColumn = some (some timeVal) →
        ∃ f, timeVal = .float f ∧ f.isNaN = true) →
      (∀ t, job.HasInstant row t → job.inBounds (t + job.timeDelta) = false) ∧
        ¬job.TimeRaises row := by
    intro h
    constructor
    · rintro t ⟨timeVal, hget, hnumber, -⟩
      obtain ⟨f, hf, hNaN⟩ := h timeVal hget
      rw [hnumber f hf] at hNaN
      cases hNaN
    · rintro ⟨timeVal, hget, hnumber, -⟩
      obtain ⟨f, hf, hNaN⟩ := h timeVal hget
      rw [hnumber f hf] at hNaN
      cases hNaN
  have hsome : ∀ timeVal, row.get? job.timeColumn = some (some timeVal) →
      (∀ f, timeVal = .float f → f.isNaN = false) → job.newTime row = job.shifted timeVal := by
    intro timeVal hget hnumber
    rw [Job.newTime, hget]
    cases timeVal with
    | float f =>
      dsimp only
      rw [hnumber f rfl]
      rfl
    | int i => rfl
    | str s => rfl
    | bool b => rfl
    | object o => rfl
  cases hget : row.get? job.timeColumn with
  | none =>
    have hno := hnone fun timeVal h => (by rw [hget] at h; cases h)
    exact Or.inr (Or.inr ⟨hno.1, hno.2, by rw [Job.newTime, hget]⟩)
  | some cell =>
    cases cell with
    | none =>
      have hno := hnone fun timeVal h => (by rw [hget] at h; cases h)
      exact Or.inr (Or.inr ⟨hno.1, hno.2, by rw [Job.newTime, hget]⟩)
    | some timeVal =>
      by_cases hnumber : ∀ f, timeVal = .float f → f.isNaN = false
      · have hunique : ∀ timeVal', row.get? job.timeColumn = some (some timeVal') →
            timeVal' = timeVal := fun timeVal' h =>
          Option.some.inj (Option.some.inj (h.symm.trans hget))
        rw [hsome timeVal hget hnumber]
        rcases shifted_cases timeVal with ⟨t, ht, hbounds, heq⟩ | ⟨hesc, hnot⟩ | ⟨hall, hesc, heq⟩
        · refine Or.inl ⟨t, ⟨timeVal, hget, hnumber, ht⟩, hbounds, ?_, heq⟩
          rintro ⟨timeVal', hget', -, hesc⟩
          rw [hunique timeVal' hget', ht] at hesc
          exact escapes_ok hesc
        · exact Or.inr (Or.inl ⟨⟨timeVal, hget, hnumber, hesc⟩, hnot⟩)
        · refine Or.inr (Or.inr ⟨?_, ?_, heq⟩)
          · rintro t ⟨timeVal', hget', -, ht⟩
            exact hall t (hunique timeVal' hget' ▸ ht)
          · rintro ⟨timeVal', hget', -, hesc'⟩
            exact hesc (hunique timeVal' hget' ▸ hesc')
      · obtain ⟨f, hf, hNaN⟩ : ∃ f, timeVal = .float f ∧ f.isNaN = true := by
          by_contra hnot
          exact hnumber fun f hf => by
            by_contra h
            exact hnot ⟨f, hf, by simpa using h⟩
        have hno := hnone fun timeVal' h => by
          obtain rfl := Option.some.inj (Option.some.inj (h.symm.trans hget))
          exact ⟨f, hf, hNaN⟩
        refine Or.inr (Or.inr ⟨hno.1, hno.2, ?_⟩)
        rw [Job.newTime, hget, hf]
        dsimp only
        rw [hNaN]
        rfl

/-- Nothing in a row raises. -/
def Job.RowReturns (job : Job Ω) (row : Row Ω) : Prop :=
  ¬job.TimeRaises row ∧ ((∃ t, job.HasInstant row t ∧ job.inBounds (t + job.timeDelta) = true) →
    ∀ cell ∈ row.items, job.CellReturns cell)

/-- What a row adds to the import. -/
def Fate.Adds (fate : Fate Ω) (acc acc' : List (InfluxPointDict Ω) × TimeshiftImportResult) : Prop :=
  acc'.1 = acc.1 ++ fate.point?.toList ∧
    acc'.2.rowsSkippedNoFields = acc.2.rowsSkippedNoFields + fate.isNoFields.toNat ∧
    acc'.2.rowsSkippedBadTime = acc.2.rowsSkippedBadTime + fate.isBadTime.toNat

theorem items_update_empty_eq_nil_iff {stored : List (String × FieldValue Ω)} :
    (Dict.empty.update stored).items = [] ↔ stored = [] := by
  cases stored with
  | nil => exact iff_of_true rfl rfl
  | cons kv stored =>
    refine iff_of_false (fun h => ?_) (by simp)
    have hmem : kv.1 ∈ (Dict.empty.update (kv :: stored)).keys :=
      Dict.mem_keys_update.mpr (Or.inr (List.mem_map_of_mem List.mem_cons_self))
    rw [Dict.keys, h] at hmem
    cases hmem

/-- A row in which nothing raises becomes something. -/
theorem importRow_eq {row : Row Ω} (h : job.RowReturns row) :
    ∃ fate, job.Becomes row fate ∧ ∀ acc, ∃ acc', job.importRow acc row = .ok acc' ∧
      fate.Adds acc acc' := by
  rcases newTime_cases row with ⟨t, ht, hbounds, -, hnew⟩ | ⟨hraises, -⟩ | ⟨hall, -, hnew⟩
  · have hcells := h.2 ⟨t, ht, hbounds⟩
    by_cases hnil : row.items.filterMap job.stored = []
    · refine ⟨.noFields, ⟨t, ht, hbounds, hnil⟩, fun acc => ?_⟩
      obtain ⟨result, hfold, hno, hbad⟩ := foldlM_importCell hcells (t + job.timeDelta) (.empty, acc.2)
      refine ⟨(acc.1, { result with rowsSkippedNoFields := result.rowsSkippedNoFields + 1 }), ?_,
        (List.append_nil _).symm, congrArg (· + 1) hno, hbad⟩
      rw [Job.importRow, hnew]
      refine (congrArg (Except.map _) hfold).trans ?_
      rw [Except.map]
      exact congrArg Except.ok (if_pos (items_update_empty_eq_nil_iff.mpr hnil))
    · refine ⟨.point _, ⟨t, ht, hbounds, hnil, rfl⟩, fun acc => ?_⟩
      obtain ⟨result, hfold, hno, hbad⟩ := foldlM_importCell hcells (t + job.timeDelta) (.empty, acc.2)
      refine ⟨(_, result), ?_, rfl, hno, hbad⟩
      rw [Job.importRow, hnew]
      refine (congrArg (Except.map _) hfold).trans ?_
      rw [Except.map]
      exact congrArg Except.ok (if_neg fun heq => hnil (items_update_empty_eq_nil_iff.mp heq))
  · exact absurd hraises h.1
  · refine ⟨.badTime, hall, fun acc =>
      ⟨(acc.1, { acc.2 with rowsSkippedBadTime := acc.2.rowsSkippedBadTime + 1 }), ?_,
        (List.append_nil _).symm, rfl, rfl⟩⟩
    rw [Job.importRow, hnew]
    rfl

theorem returns_importRow_iff (acc : List (InfluxPointDict Ω) × TimeshiftImportResult)
    (row : Row Ω) : Returns (job.importRow acc row) ↔ job.RowReturns row := by
  constructor
  · intro h
    obtain ⟨newTime, hnew, hrest⟩ := bind_eq_ok_iff.mp h.choose_spec
    rcases newTime_cases row with ⟨t, -, -, hnot, heq⟩ | ⟨-, hnot⟩ | ⟨hall, hnot, -⟩
    · refine ⟨hnot, fun _ cell hcell => ?_⟩
      obtain rfl := Except.ok.inj (hnew.symm.trans heq)
      have hfold : Returns (row.items.foldlM (job.importCell (t + job.timeDelta)) (.empty, acc.2)) :=
        returns_map_iff.mp ⟨_, hrest⟩
      have hcells : ∀ cell ∈ row.items, ∀ r,
          Returns (job.importCell (t + job.timeDelta) r cell) ↔ job.CellReturns cell :=
        fun cell _ r => returns_importCell_iff _ r
      exact (returns_foldlM_iff_forall hcells).mp hfold cell hcell
    · exact absurd ⟨newTime, hnew⟩ hnot
    · refine ⟨hnot, fun ⟨t, ht, hbounds⟩ => ?_⟩
      rw [hall t ht] at hbounds
      cases hbounds
  · intro h
    obtain ⟨fate, -, hacc⟩ := importRow_eq h
    obtain ⟨acc', hok, -⟩ := hacc acc
    exact ⟨acc', hok⟩

/-- Rows in which nothing raises. -/
theorem foldlM_importRow {df : List (Row Ω)} (h : ∀ row ∈ df, job.RowReturns row)
    (acc : List (InfluxPointDict Ω) × TimeshiftImportResult) :
    ∃ fates acc', List.Forall₂ job.Becomes df fates ∧ df.foldlM job.importRow acc = .ok acc' ∧
      acc'.1 = acc.1 ++ fates.filterMap Fate.point? ∧
      acc'.2.rowsSkippedNoFields = acc.2.rowsSkippedNoFields + fates.countP Fate.isNoFields ∧
      acc'.2.rowsSkippedBadTime = acc.2.rowsSkippedBadTime + fates.countP Fate.isBadTime := by
  induction df generalizing acc with
  | nil => exact ⟨[], acc, .nil, rfl, (List.append_nil _).symm, rfl, rfl⟩
  | cons row df ih =>
    obtain ⟨hrow, hrows⟩ := List.forall_mem_cons.mp h
    obtain ⟨fate, hbecomes, hadds⟩ := importRow_eq hrow
    obtain ⟨acc₁, hfirst, hpoints, hno, hbad⟩ := hadds acc
    obtain ⟨fates, acc', hall, hrest, hpoints', hno', hbad'⟩ := ih hrows acc₁
    refine ⟨fate :: fates, acc', .cons hbecomes hall, ?_, ?_, ?_, ?_⟩
    · rw [List.foldlM_cons, hfirst]
      exact hrest
    · rw [hpoints', hpoints, List.append_assoc]
      cases fate <;> rfl
    · rw [hno', hno, List.countP_cons, Nat.add_assoc, Nat.add_comm (Bool.toNat _)]
      cases fate <;> rfl
    · rw [hbad', hbad, List.countP_cons, Nat.add_assoc, Nat.add_comm (Bool.toNat _)]
      cases fate <;> rfl

/-- A cell returns and stores well, unless its value is mishandled. -/
theorem returns_storesWell_iff {cell : String × Option (FieldValue Ω)} :
    job.CellReturns cell ∧ job.StoresWell cell ↔ ∀ field, job.target cell = some field →
      ¬Mishandled job.conversions job.allowFloatCoercion (job.influxFieldTypes.get? field)
        (normalizeValue job.conversions cell.2) := by
  have hsound : ∀ field, ¬Mishandled job.conversions job.allowFloatCoercion
        (job.influxFieldTypes.get? field) (normalizeValue job.conversions cell.2) ↔
      Sound job.conversions (job.influxFieldTypes.get? field)
        (normalizeValue job.conversions cell.2) (job.cellValue field cell.2) := by
    intro field
    unfold Job.cellValue
    cases job.allowFloatCoercion with
    | true => exact sound_coerced_iff.symm
    | false => exact sound_uncoerced_iff.symm
  have hstored : ∀ field field' value, job.target cell = some field →
      (job.stored cell = some (field', value) ↔ field' = field ∧
        job.cellValue field cell.2 = .ok (some value) ∧
        checkFieldType (job.influxFieldTypes.get? field) value = true) := by
    intro field field' value htarget
    rw [Job.stored, htarget, Option.bind_some]
    split
    · next value' hvalue =>
      rw [hvalue]
      split
      · next hcheck =>
        constructor
        · intro heq
          obtain ⟨rfl, rfl⟩ := Prod.mk.inj (Option.some.inj heq)
          exact ⟨rfl, rfl, hcheck⟩
        · rintro ⟨rfl, heq, -⟩
          rw [Option.some.inj (Except.ok.inj heq)]
      · next hcheck =>
        refine iff_of_false (by simp) ?_
        rintro ⟨-, heq, hcheck'⟩
        rw [Option.some.inj (Except.ok.inj heq)] at hcheck
        exact hcheck hcheck'
    · next hno =>
      refine iff_of_false (by simp) ?_
      rintro ⟨-, heq, -⟩
      exact hno value heq
  constructor
  · rintro ⟨hreturns, hwell⟩ field htarget
    refine (hsound field).mpr ⟨hreturns field htarget, fun value hvalue hcheck => ?_⟩
    obtain ⟨hblank, hconforms⟩ :=
      hwell field value ((hstored field field value htarget).mpr ⟨rfl, hvalue, hcheck⟩)
    exact ⟨fun hnothing => hblank (isNothing_normalizeValue_iff.mp hnothing), hconforms⟩
  · intro h
    refine ⟨fun field htarget => ((hsound field).mp (h field htarget)).1, ?_⟩
    intro field' value hstore
    cases htarget : job.target cell with
    | none =>
      rw [Job.stored, htarget] at hstore
      cases hstore
    | some field =>
      obtain ⟨rfl, hvalue, hcheck⟩ := (hstored field field' value htarget).mp hstore
      obtain ⟨hnothing, hconforms⟩ := ((hsound field').mp (h field' htarget)).2 value hvalue hcheck
      exact ⟨fun hblank => hnothing (isNothing_normalizeValue_iff.mpr hblank), hconforms⟩

/-! ## When the import is faithful -/

/-- **The import is faithful exactly if no row raises and no cell is mishandled.** A blank cell is
stored where texts are coerced; without coercion a number or a flag is stored for a field of another
type of number. -/
theorem faithful_iff (job : Job Ω) (df : List (Row Ω)) :
    Faithful job df ↔ ∀ row ∈ df, ¬job.TimeRaises row ∧
      ((∃ t, job.HasInstant row t ∧ job.inBounds (t + job.timeDelta) = true) →
        ∀ cell ∈ row.items, ∀ field, job.target cell = some field →
          ¬Mishandled job.conversions job.allowFloatCoercion (job.influxFieldTypes.get? field)
            (normalizeValue job.conversions cell.2)) := by
  constructor
  · rintro ⟨points, result, fates, hok, -, -, -, -, hwell⟩ row hrow
    have hreturns : job.RowReturns row :=
      (returns_foldlM_iff_forall fun row _ acc => returns_importRow_iff acc row).mp ⟨_, hok⟩ row hrow
    refine ⟨hreturns.1, fun htime cell hcell => ?_⟩
    exact returns_storesWell_iff.mp ⟨hreturns.2 htime cell hcell, hwell row hrow htime cell hcell⟩
  · intro h
    have hreturns : ∀ row ∈ df, job.RowReturns row := fun row hrow =>
      ⟨(h row hrow).1, fun htime cell hcell =>
        (returns_storesWell_iff.mpr ((h row hrow).2 htime cell hcell)).1⟩
    obtain ⟨fates, acc, hall, hok, hpoints, hno, hbad⟩ := foldlM_importRow hreturns ([], .init)
    refine ⟨acc.1, acc.2, fates, hok, hall, hpoints, ?_, ?_, fun row hrow htime cell hcell => ?_⟩
    · rw [hno]
      exact Nat.zero_add _
    · rw [hbad]
      exact Nat.zero_add _
    · exact (returns_storesWell_iff.mpr ((h row hrow).2 htime cell hcell)).2

end

/-- Conversions that know no texts and no objects. -/
def bareConversions : Conversions Empty where
  intOfHex _ := none
  intOfText _ := none
  floatOfText _ := none
  isDigit _ := false
  lower s := s
  floatText _ := ""
  round _ := 0
  isNaT o := o.elim
  objectText o := o.elim
  objectFloat o := o.elim
  objectInt o := o.elim

/-- An import of one column into a text field, with coercion. -/
def textJob : Job Empty where
  measurement := "m"
  mapping := Dict.empty.set "Fault" "fault"
  tags := .empty
  timeColumn := "Time"
  timeDelta := 5
  influxFieldTypes := Dict.empty.set "fault" .string
  allowFloatCoercion := true
  conversions := bareConversions
  repr _ := ""
  instant
    | .int t => .ok (some t)
    | _ => .error .typeError
  inBounds _ := true
  isoformat t := toString t

/-- A row whose only cell is blank. -/
def blankRow : Row Empty := (Dict.empty.set "Time" (some (.int 7))).set "Fault" none

/-- A blank cell becomes the text `None`, and its row a point. -/
theorem faithful_blankRow_false :
    (buildPoints textJob [blankRow]).map (fun r => r.1.map fun p => (p.timeIso, p.fields.items)) =
        .ok [("12", [("fault", .str "None")])] ∧
      ¬Faithful textJob [blankRow] := by
  refine ⟨rfl, ?_⟩
  rintro ⟨points, result, fates, -, -, -, -, -, hwell⟩
  have htime : ∃ t, textJob.HasInstant blankRow t ∧ textJob.inBounds (t + textJob.timeDelta) = true :=
    ⟨7, ⟨.int 7, rfl, fun f h => (by cases h), rfl⟩, rfl⟩
  have hcell : ("Fault", none) ∈ blankRow.items := List.mem_cons_of_mem _ List.mem_cons_self
  exact (hwell blankRow List.mem_cons_self htime _ hcell "fault" (.str "None") rfl).1 trivial

end Timeshift

end ProtocolGateway
