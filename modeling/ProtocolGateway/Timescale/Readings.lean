import ProtocolGateway.Timescale.RawMetrics

/-!
# A scrape in the narrow table

`_process_raw_metrics` renames the metrics of a scrape to their columns, and `_flush_batch_narrow`
makes rows of them: a metric whose column ends in `_desc` gives its value to the text field of the
row of its base metric, every other metric has a row of its own. Here a scrape may hold flags and
missing values too.

* `get?_processReadings` — what is left of the metrics of one column.
* `mem_narrowRows` — the rows, each by the reading it is made of and by its description.
-/

namespace ProtocolGateway

namespace Readings

/-- `int | float | str | bool | None`. -/
inductive Reading
  | value (v : PyValue)
  | bool (b : Bool)
  | missing
  deriving DecidableEq

variable (host : Host)

/-! ## Renaming and coercion -/

/-- The number of a flag. -/
def flagNumber (b : Bool) : Float := if b then 1.0 else 0.0

/-- `str(b)`. -/
def flagText (b : Bool) : String := if b then "True" else "False"

/-- The type of a column that takes text: neither a number nor a flag. -/
def isTextType (fieldType : String) : Bool :=
  !(RawMetrics.intTypes.contains fieldType || RawMetrics.floatTypes.contains fieldType ||
    fieldType == "BOOLEAN")

/-- `str(v)` raises for an integer of more digits, and so does the warning about it. -/
def tooLongForText : PyValue → Bool
  | .int i => decide (10 ^ Text.maxDecimalDigits ≤ i.natAbs)
  | _ => false

/-- The parameter a reading becomes; an error is one that the handler around the conversion does not
keep. -/
def coerceReading (fieldType : String) : Reading → Except PyError (Option SqlValue)
  | .missing => .ok none
  | .bool b =>
    if fieldType ∈ RawMetrics.intTypes then .ok (some (.int (if b then 1 else 0)))
    else if fieldType ∈ RawMetrics.floatTypes then .ok (some (.float (flagNumber b)))
    else if fieldType = "BOOLEAN" then .ok (some (.bool b))
    else .ok (some (.text (flagText b)))
  | .value v =>
    if isTextType fieldType && tooLongForText v then .error .valueError
    else (RawMetrics.coerce host fieldType v).map some

/-- The rows of a scrape: the wide table's and the narrow table's. -/
abbrev Rows := Dict String (Option SqlValue) × Dict String Reading

/-- The loop of `_process_raw_metrics`. -/
def readingRows (mapping : List (String × String × String)) :
    List (String × Reading) → Rows → Except PyError Rows
  | [], acc => .ok acc
  | (name, r) :: rest, (wide, narrow) => do
    let (column, fieldType) := RawMetrics.columnOf mapping name
    let value ← coerceReading host fieldType r
    readingRows mapping rest (wide.set column value, narrow.set column r)

/-- `_process_raw_metrics`. -/
def processReadings (mapping : List (String × String × String)) (scrape : List (String × Reading)) :
    Rows :=
  match readingRows host mapping scrape (Dict.empty, Dict.empty) with
  | .ok both => both
  | .error _ => (Dict.empty, Dict.empty)

/-! ## Rows of the narrow table -/

/-- A row of the narrow table without its time stamp and device; a missing text is `NULL`. -/
structure NarrowRow where
  metricName : String
  metricValue : Float
  metricAscii : Reading
  deriving DecidableEq

/-- The number of a reading: its value, or zero for a text or nothing. -/
def number : Reading → Except PyError Float
  | .value (.str _) => .ok 0
  | .value v => v.toFloat host
  | .bool b => .ok (flagNumber b)
  | .missing => .ok 0

/-- The text of a reading. -/
def ownText : Reading → Reading
  | .value (.str s) => .value (.str s)
  | _ => .missing

/-- The row of one reading; a description takes the place of its text. -/
def narrowRow (descriptions : List (String × Reading)) (key : String) (r : Reading) :
    Except PyError NarrowRow :=
  (number host r).map fun f => ⟨key, f, (descriptions.lookup key).getD (ownText r)⟩

/-- The descriptions of the first pass of `_flush_batch_narrow`. -/
def descriptions (newData : Dict String Reading) : List (String × Reading) :=
  newData.items.filterMap fun kv => (RawMetrics.descriptionOf kv.1).map fun key => (key, kv.2)

/-- The rows of `_flush_batch_narrow`. -/
def narrowRows (newData : Dict String Reading) : Except PyError (List NarrowRow) :=
  (newData.items.filter fun kv => (RawMetrics.descriptionOf kv.1).isNone).mapM fun kv =>
    narrowRow host (descriptions newData) kv.1 kv.2

/-! ## The column of a description -/

/-- `key + "_desc"`. -/
def descColumn (key : String) : String := String.ofList (key.toList ++ "_desc".toList)

/-- A description's column is the base column with the suffix. -/
theorem descriptionOf_eq_some_iff {column base : String} :
    RawMetrics.descriptionOf column = some base ↔ column = descColumn base := by
  rw [RawMetrics.descriptionOf]
  constructor
  · intro h
    split at h
    · next hsuffix =>
      obtain ⟨front, hfront⟩ := hsuffix
      have hbase := Option.some.inj h
      rw [← hfront, List.length_append] at hbase
      have htake : (front ++ "_desc".toList).take
          (front.length + "_desc".toList.length - "_desc".length) = front := by
        have hlen : front.length + "_desc".toList.length - "_desc".length = front.length := by
          have : "_desc".toList.length = "_desc".length := rfl
          omega
        rw [hlen, List.take_left]
      rw [htake] at hbase
      rw [descColumn, ← hbase, String.toList_ofList, hfront, String.ofList_toList]
    · cases h
  · rintro rfl
    have hlist : (descColumn base).toList = base.toList ++ "_desc".toList := String.toList_ofList
    rw [hlist, if_pos (List.suffix_append _ _), List.length_append]
    have hlen : base.toList.length + "_desc".toList.length - "_desc".length =
        base.toList.length := by
      have : "_desc".toList.length = "_desc".length := rfl
      omega
    rw [hlen, List.take_left, String.ofList_toList]

/-! ## The readings that are left -/

/-- The column of a metric. -/
def columnName (mapping : List (String × String × String)) (name : String) : String :=
  (RawMetrics.columnOf mapping name).1

/-- The type of a metric's column. -/
def columnType (mapping : List (String × String × String)) (name : String) : String :=
  (RawMetrics.columnOf mapping name).2

variable {host} {mapping : List (String × String × String)} {scrape : List (String × Reading)}

theorem readingRows_cons (kv : String × Reading) (rest : List (String × Reading)) (acc : Rows) :
    readingRows host mapping (kv :: rest) acc =
      (coerceReading host (columnType mapping kv.1) kv.2).bind fun value =>
        readingRows host mapping rest (acc.1.set (columnName mapping kv.1) value,
          acc.2.set (columnName mapping kv.1) kv.2) := rfl

/-- The loop goes through when no conversion escapes; the narrow readings are the metrics in order,
a later one of a column in the place of an earlier one. -/
theorem readingRows_eq_ok {acc : Rows}
    (h : ∀ kv ∈ scrape, Outcomes.Returns (coerceReading host (columnType mapping kv.1) kv.2)) :
    ∃ wide, readingRows host mapping scrape acc = .ok
      (wide, acc.2.update (scrape.map fun kv => (columnName mapping kv.1, kv.2))) := by
  induction scrape generalizing acc with
  | nil => exact ⟨acc.1, rfl⟩
  | cons kv rest ih =>
    obtain ⟨value, hvalue⟩ := h kv (List.mem_cons_self ..)
    obtain ⟨wide, hrest⟩ := @ih (acc.1.set (columnName mapping kv.1) value,
      acc.2.set (columnName mapping kv.1) kv.2) fun kv' hkv' => h kv' (List.mem_cons_of_mem _ hkv')
    refine ⟨wide, ?_⟩
    rw [readingRows_cons, hvalue]
    exact hrest

/-- A conversion that escapes ends the loop. -/
theorem readingRows_error {acc : Rows} {kv : String × Reading} (hkv : kv ∈ scrape)
    (h : ¬ Outcomes.Returns (coerceReading host (columnType mapping kv.1) kv.2)) :
    ∃ err, readingRows host mapping scrape acc = .error err := by
  induction scrape generalizing acc with
  | nil => cases hkv
  | cons kv' rest ih =>
    rw [readingRows_cons]
    cases hvalue : coerceReading host (columnType mapping kv'.1) kv'.2 with
    | error err => exact ⟨err, rfl⟩
    | ok value =>
      rcases List.mem_cons.mp hkv with rfl | hkv
      · exact absurd ⟨value, hvalue⟩ h
      · exact ih hkv

/-- The reading `w` is that of the last metric of the scrape with the column. -/
def LastIs (mapping : List (String × String × String)) (scrape : List (String × Reading))
    (column : String) (w : Reading) : Prop :=
  ∃ before name after, scrape = before ++ (name, w) :: after ∧ columnName mapping name = column ∧
    ∀ kv ∈ after, columnName mapping kv.1 ≠ column

/-- **What is left of a column's metrics** is the last one. -/
theorem get?_processReadings
    (h : ∀ kv ∈ scrape, Outcomes.Returns (coerceReading host (columnType mapping kv.1) kv.2))
    {column : String} {w : Reading} :
    (processReadings host mapping scrape).2.get? column = some w ↔
      LastIs mapping scrape column w := by
  obtain ⟨wide, hrows⟩ := @readingRows_eq_ok host mapping scrape (Dict.empty, Dict.empty) h
  rw [processReadings, hrows]
  refine Dict.get?_update_empty_iff.trans ?_
  constructor
  · rintro ⟨before, after, hsplit, hnot⟩
    obtain ⟨before', rest, rfl, -, hrest⟩ := List.map_eq_append_iff.mp hsplit
    obtain ⟨kv, after', rfl, hkv, rfl⟩ := List.map_eq_cons_iff.mp hrest
    obtain ⟨hcolumn, rfl⟩ := Prod.mk.inj hkv
    refine ⟨before', kv.1, after', rfl, hcolumn, fun kv' hkv' heq => hnot ?_⟩
    rw [List.map_map]
    exact List.mem_map.mpr ⟨kv', hkv', heq⟩
  · rintro ⟨before, name, after, rfl, rfl, hafter⟩
    refine ⟨_, _, by rw [List.map_append, List.map_cons], fun hmem => ?_⟩
    rw [List.map_map] at hmem
    obtain ⟨kv, hkv, heq⟩ := List.mem_map.mp hmem
    exact hafter kv hkv heq

/-- Every metric's column has a last metric. -/
theorem exists_lastIs {kv : String × Reading} (h : kv ∈ scrape) :
    ∃ w, LastIs mapping scrape (columnName mapping kv.1) w := by
  induction scrape generalizing kv with
  | nil => cases h
  | cons kv' rest ih =>
    by_cases hrest : ∃ later ∈ rest, columnName mapping later.1 = columnName mapping kv.1
    · obtain ⟨later, hlater, heq⟩ := hrest
      obtain ⟨w, before, name, after, hsplit, hcolumn, hafter⟩ := ih hlater
      rw [heq] at hcolumn hafter
      exact ⟨w, kv' :: before, name, after, by rw [hsplit, List.cons_append], hcolumn, hafter⟩
    · rcases List.mem_cons.mp h with rfl | hmem
      · exact ⟨kv.2, [], kv.1, rest, rfl, rfl, fun later hlater heq => hrest ⟨later, hlater, heq⟩⟩
      · exact absurd ⟨kv, hmem, rfl⟩ hrest

/-- The last metric of a column is a metric of the scrape. -/
theorem LastIs.mem {column : String} {w : Reading} (h : LastIs mapping scrape column w) :
    ∃ name, (name, w) ∈ scrape ∧ columnName mapping name = column := by
  obtain ⟨before, name, after, rfl, hcolumn, -⟩ := h
  exact ⟨name, List.mem_append_right _ (List.mem_cons_self ..), hcolumn⟩

/-! ## The rows -/

/-- The description of a column is the reading of its description's column. -/
theorem lookup_descriptions (newData : Dict String Reading) (column : String) :
    (descriptions newData).lookup column = newData.get? (descColumn column) := by
  rw [descriptions, Dict.get?]
  induction newData.items with
  | nil => rfl
  | cons kv items ih =>
    rw [List.filterMap_cons, List.lookup_cons]
    cases hdesc : RawMetrics.descriptionOf kv.1 with
    | none =>
      have hne : (descColumn column == kv.1) = false := by
        refine beq_false_of_ne fun heq => ?_
        rw [← heq, descriptionOf_eq_some_iff.mpr rfl] at hdesc
        cases hdesc
      rw [hne]
      exact ih
    | some base =>
      have hkv := descriptionOf_eq_some_iff.mp hdesc
      by_cases hbase : column = base
      · rw [hkv, hbase, beq_self_eq_true]
        exact List.lookup_cons_self
      · have hne : (descColumn column == kv.1) = false := by
          refine beq_false_of_ne fun heq => hbase ?_
          rw [← heq, descriptionOf_eq_some_iff.mpr rfl] at hdesc
          exact Option.some.inj hdesc
        rw [hne]
        exact (List.lookup_cons.trans (by rw [beq_false_of_ne hbase])).trans ih

/-- The rows can be made when every number of a row can. -/
theorem returns_narrowRows_iff (newData : Dict String Reading) :
    Outcomes.Returns (narrowRows host newData) ↔
      ∀ column w, newData.get? column = some w → RawMetrics.descriptionOf column = none →
        Outcomes.Returns (number host w) := by
  rw [narrowRows, Outcomes.returns_mapM_iff]
  constructor
  · intro h column w hget hnone
    have hmem : (column, w) ∈ newData.items.filter fun kv =>
        (RawMetrics.descriptionOf kv.1).isNone := by
      rw [List.mem_filter, hnone]
      exact ⟨Dict.get?_eq_some_iff.mp hget, rfl⟩
    exact Outcomes.returns_map_iff.mp (h _ hmem)
  · intro h kv hkv
    rw [List.mem_filter, Option.isNone_iff_eq_none] at hkv
    exact Outcomes.returns_map_iff.mpr (h kv.1 kv.2 (Dict.get?_eq_some_iff.mpr hkv.1) hkv.2)

/-- **The rows**: one for each column that is no description's, with the number of its reading, and
with its description or its own text. -/
theorem mem_narrowRows {newData : Dict String Reading} {rows : List NarrowRow}
    (h : narrowRows host newData = .ok rows) (row : NarrowRow) :
    row ∈ rows ↔ RawMetrics.descriptionOf row.metricName = none ∧
      ∃ w, newData.get? row.metricName = some w ∧ number host w = .ok row.metricValue ∧
        row.metricAscii = (newData.get? (descColumn row.metricName)).getD (ownText w) := by
  rw [Outcomes.mem_mapM h]
  constructor
  · rintro ⟨kv, hkv, hrow⟩
    rw [List.mem_filter, Option.isNone_iff_eq_none] at hkv
    obtain ⟨f, hf, rfl⟩ := Outcomes.map_eq_ok_iff.mp hrow
    exact ⟨hkv.2, kv.2, Dict.get?_eq_some_iff.mpr hkv.1, hf, by rw [lookup_descriptions]⟩
  · rintro ⟨hnone, w, hget, hnumber, hascii⟩
    refine ⟨(row.metricName, w), ?_, ?_⟩
    · rw [List.mem_filter, hnone]
      exact ⟨Dict.get?_eq_some_iff.mp hget, rfl⟩
    · refine Outcomes.map_eq_ok_iff.mpr ⟨row.metricValue, hnumber, ?_⟩
      rw [lookup_descriptions, ← hascii]

/-! ## Scrapes of numbers and texts -/

/-- A row made of numbers and texts. -/
def ofRow (row : RawMetrics.NarrowRow) : NarrowRow :=
  ⟨row.metricName, row.metricValue, (row.metricAscii.map Reading.value).getD .missing⟩

/-- For numbers and texts alone the rows are those of `RawMetrics`. -/
theorem narrowRow_value (described : List (String × PyValue)) (key : String) (v : PyValue) :
    narrowRow host (described.map fun kv => (kv.1, .value kv.2)) key (.value v) =
      (RawMetrics.narrowRow host described key v).map ofRow := by
  have hlookup : (described.map fun kv => (kv.1, Reading.value kv.2)).lookup key =
      (described.lookup key).map Reading.value := by
    induction described with
    | nil => rfl
    | cons kv rest ih =>
      rw [List.map_cons, List.lookup_cons, List.lookup_cons]
      split
      · rfl
      · exact ih
  rw [narrowRow, hlookup]
  cases v with
  | str s =>
    cases hdescribed : described.lookup key <;>
      simp only [RawMetrics.narrowRow, hdescribed] <;> rfl
  | float f =>
    cases hdescribed : described.lookup key <;>
      simp only [RawMetrics.narrowRow, hdescribed] <;> rfl
  | int i =>
    simp only [RawMetrics.narrowRow, number]
    cases PyValue.toFloat host (.int i) with
    | error err => rfl
    | ok f => cases described.lookup key <;> rfl

end Readings

end ProtocolGateway
