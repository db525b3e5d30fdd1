import ProtocolGateway.Timescale.Readings

/-!
# What the narrow table keeps of a scrape

A metric of a scrape is lost when a later one is renamed to its column, when it describes a metric
that has no row, when its text gives way to a description, and with all the others when a number
cannot be converted.

`represented_iff`: the scrapes of which every metric is in the rows.
-/

namespace ProtocolGateway

namespace Readings

/-! ## Conversions that escape -/

theorem truncate_error {f : Float} {err : PyError} (h : truncate f = .error err) :
    err = .overflowError ∨ err = .valueError := by
  rw [truncate] at h
  split at h
  · rw [← Except.error.inj h]
    split
    · exact Or.inl rfl
    · exact Or.inr rfl
  · cases h

theorem map_error {α β : Type} {x : Except PyError α} {f : α → β} {err : PyError}
    (h : x.map f = .error err) : x = .error err := by
  cases x with
  | error err' => exact congrArg _ (Except.error.inj h)
  | ok a => cases h

/-- A conversion overflows or finds no number. -/
theorem convert_error {host : Host} {fieldType : String} {v : PyValue} {err : PyError}
    (h : RawMetrics.convert host fieldType v = .error err) :
    err = .overflowError ∨ err = .valueError := by
  rw [RawMetrics.convert] at h
  split_ifs at h
  · have hint := map_error h
    cases v with
    | int i =>
      rw [PyValue.toFloatInt] at hint
      exact Or.inl (error_of_roundToDouble hint)
    | float f => exact truncate_error hint
    | str s =>
      rw [PyValue.toFloatInt] at hint
      split at hint
      · exact truncate_error hint
      · exact Or.inr (Except.error.inj hint).symm
  · have hfloat := map_error h
    cases v with
    | int i =>
      rw [PyValue.toFloat] at hfloat
      exact Or.inl (error_of_roundToDouble (map_error hfloat))
    | float f => cases hfloat
    | str s =>
      rw [PyValue.toFloat] at hfloat
      split at hfloat
      · cases hfloat
      · exact Or.inr (Except.error.inj hfloat).symm
  · have hint := map_error h
    cases v with
    | int i => cases hint
    | float f => exact truncate_error hint
    | str s =>
      rw [PyValue.toInt] at hint
      split at hint
      · cases hint
      · exact Or.inr (Except.error.inj hint).symm

/-- The conversions that escape the handler are the overflows and the integers too long to write. -/
theorem returns_coerceReading_iff {host : Host} {fieldType : String} {v : PyValue} :
    Outcomes.Returns (coerceReading host fieldType (.value v)) ↔
      RawMetrics.convert host fieldType v ≠ .error .overflowError ∧
        ¬ (isTextType fieldType ∧ tooLongForText v) := by
  have hcoerce : Outcomes.Returns (RawMetrics.coerce host fieldType v) ↔
      RawMetrics.convert host fieldType v ≠ .error .overflowError := by
    rw [RawMetrics.coerce]
    cases hconvert : RawMetrics.convert host fieldType v with
    | ok x => exact iff_of_true ⟨x, rfl⟩ fun heq => (by cases heq)
    | error err =>
      rcases convert_error hconvert with rfl | rfl
      · exact iff_of_false Outcomes.not_returns_error fun hne => hne rfl
      · exact iff_of_true ⟨_, rfl⟩ fun heq => (by cases heq)
  rw [coerceReading, ← hcoerce]
  by_cases hlong : isTextType fieldType ∧ tooLongForText v
  · rw [if_pos (Bool.and_eq_true _ _ ▸ hlong)]
    exact iff_of_false Outcomes.not_returns_error fun h => h.2 hlong
  · rw [if_neg (Bool.and_eq_true _ _ ▸ hlong), Outcomes.returns_map_iff]
    exact ⟨fun h => ⟨h, hlong⟩, And.left⟩

/-! ## Represented metrics -/

/-- The row stores the metric: as its own row, with the metric's number and either its text or,
where it has none, its description; or in the text of the row of the metric it describes. -/
def Stores (host : Host) (mapping : List (String × String × String))
    (scrape : List (String × Reading)) (row : NarrowRow) (kv : String × Reading) : Prop :=
  (row.metricName = columnName mapping kv.1 ∧ number host kv.2 = .ok row.metricValue ∧
      (row.metricAscii = ownText kv.2 ∨ ownText kv.2 = .missing ∧ ∃ kv' ∈ scrape,
        columnName mapping kv'.1 = descColumn row.metricName ∧ row.metricAscii = kv'.2)) ∨
    (columnName mapping kv.1 = descColumn row.metricName ∧ row.metricAscii = kv.2)

/-- The rows of a scrape can be made, and every metric is stored by one of them. -/
def Represented (host : Host) (mapping : List (String × String × String))
    (scrape : List (String × Reading)) : Prop :=
  ∃ rows, narrowRows host (processReadings host mapping scrape).2 = .ok rows ∧
    ∀ kv ∈ scrape, ∃ row ∈ rows, Stores host mapping scrape row kv

/-- No metric of the scrape gets in the way of another one. -/
structure Safe (host : Host) (mapping : List (String × String × String))
    (scrape : List (String × Reading)) : Prop where
  /-- no conversion raises but a `ValueError` or `TypeError` -/
  coerces : ∀ kv ∈ scrape,
    Outcomes.Returns (coerceReading host (columnType mapping kv.1) kv.2)
  /-- the last metric of a column has a number a float can hold -/
  numbers : ∀ column w, LastIs mapping scrape column w →
    RawMetrics.descriptionOf column = none → Outcomes.Returns (number host w)
  /-- a description is the last metric of its column and describes a metric with a row -/
  described : ∀ kv ∈ scrape, ∀ base, columnName mapping kv.1 = descColumn base →
    LastIs mapping scrape (columnName mapping kv.1) kv.2 ∧
      RawMetrics.descriptionOf base = none ∧ ∃ kv' ∈ scrape, columnName mapping kv'.1 = base
  /-- the last metric of a column has the number and the text of the others, and only what has no
  text of its own is described -/
  own : ∀ kv ∈ scrape, RawMetrics.descriptionOf (columnName mapping kv.1) = none →
    ∃ w, LastIs mapping scrape (columnName mapping kv.1) w ∧ number host kv.2 = number host w ∧
      ((∀ d, ¬ LastIs mapping scrape (descColumn (columnName mapping kv.1)) d) ∧
          ownText kv.2 = ownText w ∨
        ∃ d, LastIs mapping scrape (descColumn (columnName mapping kv.1)) d ∧
          (ownText kv.2 = d ∨ ownText kv.2 = .missing))

variable {host : Host} {mapping : List (String × String × String)}
  {scrape : List (String × Reading)}

/-- A description's column has a description's name. -/
theorem descriptionOf_descColumn (base : String) :
    RawMetrics.descriptionOf (descColumn base) = some base :=
  descriptionOf_eq_some_iff.mpr rfl

theorem descColumn_injective {base base' : String} (h : descColumn base = descColumn base') :
    base = base' := by
  have := descriptionOf_descColumn base
  rw [h, descriptionOf_descColumn] at this
  exact (Option.some.inj this).symm

/-- A conversion that escapes leaves no row, so no metric. -/
theorem Represented.coerces (h : Represented host mapping scrape) :
    ∀ kv ∈ scrape, Outcomes.Returns (coerceReading host (columnType mapping kv.1) kv.2) := by
  intro kv hkv
  by_contra hescapes
  obtain ⟨err, herror⟩ := @readingRows_error host mapping scrape (Dict.empty, Dict.empty) kv hkv
    hescapes
  obtain ⟨rows, hrows, hall⟩ := h
  rw [processReadings, herror] at hrows
  obtain rfl : [] = rows := Except.ok.inj hrows
  obtain ⟨row, hrow, -⟩ := hall kv hkv
  cases hrow

section

variable (hcoerces : ∀ kv ∈ scrape,
    Outcomes.Returns (coerceReading host (columnType mapping kv.1) kv.2))
  {rows : List NarrowRow}
  (hrows : narrowRows host (processReadings host mapping scrape).2 = .ok rows)

include hcoerces hrows

/-- The row of a column, by the last metrics of the column and of its description's. -/
theorem mem_rows_iff (row : NarrowRow) :
    row ∈ rows ↔ RawMetrics.descriptionOf row.metricName = none ∧
      ∃ w, LastIs mapping scrape row.metricName w ∧ number host w = .ok row.metricValue ∧
        ((∀ d, ¬ LastIs mapping scrape (descColumn row.metricName) d) ∧
            row.metricAscii = ownText w ∨
          LastIs mapping scrape (descColumn row.metricName) row.metricAscii) := by
  rw [mem_narrowRows hrows]
  refine and_congr_right fun _ => exists_congr fun w => ?_
  rw [get?_processReadings hcoerces]
  refine and_congr_right fun _ => and_congr_right fun _ => ?_
  cases hdesc : (processReadings host mapping scrape).2.get? (descColumn row.metricName) with
  | none =>
    have hnot : ∀ d, ¬ LastIs mapping scrape (descColumn row.metricName) d := by
      intro d hd
      rw [(get?_processReadings hcoerces).mpr hd] at hdesc
      cases hdesc
    rw [Option.getD_none]
    exact ⟨fun heq => Or.inl ⟨hnot, heq⟩, fun h => h.elim And.right fun hd => absurd hd (hnot _)⟩
  | some d =>
    have hlast := (get?_processReadings hcoerces).mp hdesc
    rw [Option.getD_some]
    constructor
    · rintro rfl
      exact Or.inr hlast
    · rintro (⟨hnot, -⟩ | hd)
      · exact absurd hlast (hnot d)
      · rw [(get?_processReadings hcoerces).mpr hd] at hdesc
        exact Option.some.inj hdesc

end

/-- A scrape whose metrics are all represented is safe. -/
theorem Represented.safe (h : Represented host mapping scrape) : Safe host mapping scrape := by
  have hcoerces := h.coerces
  obtain ⟨rows, hrows, hall⟩ := h
  have hlast : ∀ {column w}, (processReadings host mapping scrape).2.get? column = some w ↔
      LastIs mapping scrape column w := get?_processReadings hcoerces
  refine ⟨hcoerces, fun column w hw hnone => ?_, fun kv hkv base hbase => ?_,
    fun kv hkv hnone => ?_⟩
  · exact (returns_narrowRows_iff _).mp ⟨rows, hrows⟩ column w (hlast.mpr hw) hnone
  · obtain ⟨row, hrow, hstores⟩ := hall kv hkv
    obtain ⟨hname, w, hw, -, hascii⟩ := (mem_rows_iff hcoerces hrows row).mp hrow
    rcases hstores with ⟨heq, -⟩ | ⟨hcolumn, hvalue⟩
    · rw [heq, hbase, descriptionOf_descColumn] at hname
      cases hname
    · obtain rfl := descColumn_injective (hbase.symm.trans hcolumn)
      obtain ⟨name, hmem, hbasename⟩ := hw.mem
      refine ⟨?_, hname, _, hmem, hbasename⟩
      obtain ⟨d, hd⟩ := @exists_lastIs mapping scrape kv hkv
      rw [hcolumn] at hd ⊢
      rcases hascii with ⟨hnot, -⟩ | hdescribed
      · exact absurd hd (hnot d)
      · exact hvalue ▸ hdescribed
  · obtain ⟨row, hrow, hstores⟩ := hall kv hkv
    obtain ⟨-, w, hw, hnumber, hascii⟩ := (mem_rows_iff hcoerces hrows row).mp hrow
    rcases hstores with ⟨hname, hvalue, htext⟩ | ⟨hcolumn, -⟩
    · rw [hname] at hw hascii htext
      refine ⟨w, hw, hvalue.trans hnumber.symm, ?_⟩
      rcases hascii with ⟨hnot, hown⟩ | hdescribed
      · refine Or.inl ⟨hnot, ?_⟩
        rcases htext with heq | ⟨-, kv', hkv', hcolumn, -⟩
        · rw [← heq, hown]
        · obtain ⟨d, hd⟩ := @exists_lastIs mapping scrape kv' hkv'
          rw [hcolumn] at hd
          exact absurd hd (hnot d)
      · refine Or.inr ⟨row.metricAscii, hdescribed, ?_⟩
        exact htext.imp Eq.symm And.left
    · rw [hcolumn, descriptionOf_descColumn] at hnone
      cases hnone

/-- In a safe scrape every metric is represented. -/
theorem Safe.represented (h : Safe host mapping scrape) : Represented host mapping scrape := by
  have hlast : ∀ {column w}, (processReadings host mapping scrape).2.get? column = some w ↔
      LastIs mapping scrape column w := get?_processReadings h.coerces
  obtain ⟨rows, hrows⟩ := (returns_narrowRows_iff (processReadings host mapping scrape).2).mpr
    fun column w hget hnone => h.numbers column w (hlast.mp hget) hnone
  refine ⟨rows, hrows, fun kv hkv => ?_⟩
  cases hdesc : RawMetrics.descriptionOf (columnName mapping kv.1) with
  | none =>
    obtain ⟨w, hw, hnumber, htext⟩ := h.own kv hkv hdesc
    obtain ⟨f, hf⟩ := h.numbers _ w hw hdesc
    rcases htext with ⟨hnot, heq⟩ | ⟨d, hd, htext⟩
    · exact ⟨⟨columnName mapping kv.1, f, ownText w⟩,
        (mem_rows_iff h.coerces hrows _).mpr ⟨hdesc, w, hw, hf, Or.inl ⟨hnot, rfl⟩⟩,
        Or.inl ⟨rfl, hnumber.trans hf, Or.inl heq.symm⟩⟩
    · refine ⟨⟨columnName mapping kv.1, f, d⟩,
        (mem_rows_iff h.coerces hrows _).mpr ⟨hdesc, w, hw, hf, Or.inr hd⟩,
        Or.inl ⟨rfl, hnumber.trans hf, ?_⟩⟩
      obtain ⟨name, hmem, hcolumn⟩ := hd.mem
      exact htext.imp Eq.symm fun hmissing => ⟨hmissing, (name, d), hmem, hcolumn, rfl⟩
  | some base =>
    have hcolumn := descriptionOf_eq_some_iff.mp hdesc
    obtain ⟨hlastkv, hbase, kv', hkv', hname⟩ := h.described kv hkv base hcolumn
    obtain ⟨w, hw⟩ := @exists_lastIs mapping scrape kv' hkv'
    rw [hname] at hw
    rw [hcolumn] at hlastkv
    obtain ⟨f, hf⟩ := h.numbers base w hw hbase
    exact ⟨⟨base, f, kv.2⟩,
      (mem_rows_iff h.coerces hrows _).mpr ⟨hbase, w, hw, hf, Or.inr hlastkv⟩,
      Or.inr ⟨hcolumn, rfl⟩⟩

/-- **No metric is lost** exactly when no metric of the scrape gets in the way of another one. -/
theorem represented_iff (host : Host) (mapping : List (String × String × String))
    (scrape : List (String × Reading)) :
    Represented host mapping scrape ↔ Safe host mapping scrape :=
  ⟨Represented.safe, Safe.represented⟩

/-- A description without its metric is in no row. -/
theorem not_represented_fault_desc :
    ¬ ∀ (host : Host) (mapping : List (String × String × String))
      (scrape : List (String × Reading)), (scrape.map Prod.fst).Nodup →
      Represented host mapping scrape := by
  intro hall
  have hsafe := (hall default [] [("fault_desc", .value (.str "overload"))]
    (List.nodup_singleton _)).safe
  obtain ⟨-, -, kv', hkv', hname⟩ :=
    hsafe.described _ (List.mem_singleton_self _) "fault" (by decide)
  rw [List.mem_singleton.mp hkv'] at hname
  exact absurd hname (by decide)

end Readings

end ProtocolGateway
