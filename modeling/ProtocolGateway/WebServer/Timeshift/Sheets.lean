import Mathlib.Data.List.Infix
import ProtocolGateway.Lib.Dict
import ProtocolGateway.Lib.FirstWins
import ProtocolGateway.Lib.Regex
import ProtocolGateway.Text
import ProtocolGateway.Values

/-!
# One table from the sheets of a workbook

An upload may be a workbook of several sheets, each with a time column of its own. They are joined
on the time, and where two sheets have a value in one cell the earlier sheet's is kept.

* `findTimeColumn` — the column with the times of a sheet.
* `consolidateSheets` — the table, the sheets that were used or skipped, the warnings.
* `FirstWinsJoin` — the table is the outer join in which the first value wins.
* `consolidateSheets_join` — it is that join for every workbook, or no sheet can be used.
-/

namespace ProtocolGateway

namespace Timeshift

open FirstWins

/-! ## Sheets -/

/-- A sheet: its columns under the texts of their labels, and the cells of its rows, `none` for a
blank one. -/
structure Frame (V : Type) where
  columns : List String
  nodup : columns.Nodup
  /-- pandas has typed the column as datetimes -/
  isDatetime : String → Bool
  rows : List (String → Option V)

/-- The library's part: reading times, and telling values apart. -/
structure Pandas (T V : Type) where
  /-- `pd.to_datetime(column, errors="coerce")`, without a time zone; `none` for `NaT` -/
  toDatetime : List (Option V) → List (Option T)
  length_toDatetime : ∀ column, (toDatetime column).length = column.length
  /-- `v.ne(w)` of two values -/
  ne : V → V → Bool

namespace Frame

variable {V : Type}

def column (df : Frame V) (c : String) : List (Option V) := df.rows.map fun r => r c

/-- `df.dropna(how="all")`. -/
def dropRows (df : Frame V) : Frame V :=
  { df with rows := df.rows.filter fun r => df.columns.any fun c => (r c).isSome }

/-- `df.dropna(axis=1, how="all")`. -/
def dropColumns (df : Frame V) : Frame V where
  columns := df.columns.filter fun c => df.rows.any fun r => (r c).isSome
  nodup := df.nodup.filter _
  isDatetime := df.isDatetime
  rows := df.rows

/-- The sheet without the rows and the columns that are blank throughout. -/
def dropna (df : Frame V) : Frame V := df.dropRows.dropColumns

/-- `df.empty`. -/
def empty (df : Frame V) : Bool := df.columns.isEmpty || df.rows.isEmpty

end Frame

/-! ## The time column -/

/-- `detect_time_column`. Where two labels differ only in case, the later one is in the dictionary.
-/
def detectTimeColumn (columns : List String) : Option String :=
  ["time", "timestamp", "date/time", "date"].findSome? fun candidate =>
    columns.reverse.find? fun c => lowerText c = candidate

/-- Does a character match a small letter when case is ignored? -/
def ignoreCase (letter c : Char) : Bool :=
  c = letter || c = letter.toUpper || letter = 'i' && (c = 'ı' || c = 'İ') || letter = 's' && c = 'ſ'

/-- One of the letters, in either case. -/
def anyOf (letters : String) : Regex Char := .one fun c => letters.toList.any (ignoreCase · c)

/-- The letters one after the other, in either case. -/
def word (letters : String) : Regex Char := .all (letters.toList.map fun l => .one (ignoreCase l))

/-- `\s*`. -/
def spaces (least : Nat) : Regex Char := .rep Text.isSpace least none

/-- `(?:…)?`. -/
def optionally (r : Regex Char) : Regex Char := .alt r (.all [])

/-- `_TIME_NAME_RE` between its anchors. -/
def timeName : Regex Char :=
  .all [
    spaces 0,
    .any (.all [word "date", spaces 0, .rep (· = '/') 0 (some 1), spaces 0, word "time"])
      [word "datetime", word "timestamp", word "time", word "date"],
    optionally (.all [spaces 0, .one (· = '('), .rep (· ≠ ')') 0 none, .one (· = ')')]),
    optionally (.seq (spaces 1) (.any (word "local") [word "utc", word "gmt",
      .all [anyOf "ecmp", anyOf "sd", word "t"]])),
    spaces 0]

/-- `find_time_column`. -/
def findTimeColumn {V : Type} (df : Frame V) : Option String :=
  (detectTimeColumn df.columns).or <| (df.columns.find? df.isDatetime).or <|
    df.columns.find? fun name => timeName.fullMatch name.toList

example : ["Date Time", "TIMESTAMP (PST)", "Date/Time Local", "Run Time (h)", "Time to Full"].map
    (fun name => timeName.fullMatch name.toList) = [true, true, true, false, false] := by decide

/-! ## The consolidation -/

/-- `SheetSummary`. -/
structure SheetSummary where
  name : String
  rows : Nat
  note : String
  deriving DecidableEq

/-- The warnings of a consolidation. -/
inductive Warning
  /-- a sheet has a column under the name that the time column gets -/
  | secondColumn (name canonical : String)
  /-- two sheets have values for the columns at the same times, and they differ -/
  | conflict (nameA nameB : String) (columns : List String)
  deriving DecidableEq

def Warning.text : Warning → String
  | .secondColumn name canonical =>
    s!"Sheet '{name}' has a second '{canonical}' column; it was dropped in favour of the sheet's time column."
  | .conflict nameA nameB columns =>
    let shown := ", ".intercalate (columns.take 5) ++ if columns.length > 5 then ", ..." else ""
    s!"Sheets '{nameA}' and '{nameB}' both have values for {shown} at the same timestamps, " ++
      s!"and they differ -- the value from '{nameA}' was kept."

/-- `ParsedSpreadsheet`; the table has the times in its first column, under the name of
`timeColumn`. -/
structure ParsedSpreadsheet (T V : Type) where
  columns : List String
  rows : List (T × (String → Option V))
  timeColumn : String
  sheetsUsed : List SheetSummary
  sheetsSkipped : List SheetSummary
  warnings : List Warning

/-- A table indexed by times. -/
structure Indexed (T V : Type) where
  columns : List String
  rows : List (T × (String → Option V))

namespace Indexed

variable {T V : Type}

/-- `df.drop(columns=[name])`; a column that is not there has no cells. -/
def drop (d : Indexed T V) (name : String) : Indexed T V :=
  let columns := d.columns.filter (· ≠ name)
  { columns, rows := d.rows.map fun r => (r.1, fun c => if c ∈ columns then r.2 c else none) }

def empty (d : Indexed T V) : Bool := d.columns.isEmpty || d.rows.isEmpty

/-- The first value for each time and column. -/
def unrepeated [DecidableEq T] (d : Indexed T V) : Indexed T V :=
  { d with rows := FirstWins.unrepeated d.rows }

end Indexed

section

variable {T V : Type} [LinearOrder T] (pd : Pandas T V)

/-- The rows whose time can be read, under their times. -/
def timedRows (df : Frame V) (timeCol : String) : List (T × (String → Option V)) :=
  ((pd.toDatetime (df.column timeCol)).zip df.rows).filterMap fun tr => tr.1.map (·, tr.2)

/-- The rows whose time cannot be read. -/
def badRows (df : Frame V) (timeCol : String) : Nat :=
  (pd.toDatetime (df.column timeCol)).countP (·.isNone)

omit [LinearOrder T] in
/-- A row has a valid time, or it is counted. -/
theorem length_timedRows (df : Frame V) (timeCol : String) :
    (timedRows pd df timeCol).length + badRows pd df timeCol = df.rows.length := by
  have hlength : (pd.toDatetime (df.column timeCol)).length = df.rows.length := by
    rw [pd.length_toDatetime, Frame.column, List.length_map]
  unfold timedRows badRows
  generalize pd.toDatetime (df.column timeCol) = times at hlength
  generalize df.rows = rows at hlength
  induction times generalizing rows with
  | nil => exact hlength
  | cons time times ih =>
    cases rows with
    | nil => cases hlength
    | cons row rows =>
      have hrest := ih rows (Nat.succ.inj hlength)
      cases time <;> simp only [List.zip_cons_cons, List.filterMap_cons, List.countP_cons,
        Option.map_none, Option.map_some, Option.isNone_none, Option.isNone_some, List.length_cons,
        if_true, Bool.false_eq_true, if_false] <;> omega

/-- A sheet's data: the rows with a valid time, in the columns other than its time column. -/
def sheetData (df : Frame V) (timeCol : String) : Indexed T V :=
  (Indexed.mk df.columns (timedRows pd df timeCol)).drop timeCol

/-- Where the loop over the sheets is. -/
structure Consolidation (T V : Type) where
  canonical : Option String
  used : List SheetSummary
  skipped : List SheetSummary
  warnings : List Warning
  indexed : List (String × Indexed T V)

def Consolidation.start : Consolidation T V := ⟨none, [], [], [], []⟩

/-- The body of the loop over the sheets. -/
def addSheet (s : Consolidation T V) (sheet : String × Frame V) : Consolidation T V :=
  let name := sheet.1
  let df := sheet.2.dropna
  if df.empty then { s with skipped := s.skipped ++ [⟨name, 0, "no data"⟩] }
  else
    match findTimeColumn df with
    | none => { s with skipped := s.skipped ++ [⟨name, 0, "no time column found"⟩] }
    | some timeCol =>
      let canonical := s.canonical.getD timeCol
      let data := sheetData pd df timeCol
      let second := canonical ∈ data.columns
      let warnings := if second then s.warnings ++ [.secondColumn name canonical] else s.warnings
      let data := if second then data.drop canonical else data
      if data.empty then
        { s with
          canonical := some canonical
          warnings
          skipped := s.skipped ++ [⟨name, 0, "no rows with a valid time"⟩] }
      else
        let data := data.unrepeated
        let bad := badRows pd df timeCol
        let note := if bad = 0 then "" else s!"{bad} row(s) without a valid time were dropped"
        { s with
          canonical := some canonical
          warnings
          used := s.used ++ [⟨name, data.rows.length, note⟩]
          indexed := s.indexed ++ [(name, data)] }

/-- The columns that two sheets have in common and in which they have different values at a time. -/
def conflicting (a b : Indexed T V) : List String :=
  (a.columns.filter (· ∈ b.columns)).filter fun c =>
    ((keys a.rows).filter (· ∈ keys b.rows)).any fun t =>
      match value a.rows t c, value b.rows t c with
      | some v, some w => pd.ne v w
      | _, _ => false

/-- Each element with each later one. -/
def pairs {α : Type} : List α → List (α × α)
  | [] => []
  | a :: l => l.map (a, ·) ++ pairs l

/-- The warning for two sheets. -/
def conflictOf (ab : (String × Indexed T V) × (String × Indexed T V)) : Option Warning :=
  let columns := conflicting pd ab.1.2 ab.2.2
  if columns = [] then none else some (.conflict ab.1.1 ab.2.1 columns)

/-- `consolidate_sheets`. -/
def consolidateSheets (sheets : Dict String (Frame V)) (filename : String) :
    Except (PyError × String) (ParsedSpreadsheet T V) :=
  let s := sheets.items.foldl (addSheet pd) .start
  match s.indexed, s.canonical with
  | _ :: _, some canonical =>
    let combined := FirstWins.unrepeated (s.indexed.flatMap fun d => d.2.rows)
    .ok {
      columns := (s.indexed.flatMap fun d => d.2.columns).eraseDups
      rows := sorted combined
      timeColumn := canonical
      sheetsUsed := s.used
      sheetsSkipped := s.skipped
      warnings := s.warnings ++ (pairs s.indexed).filterMap (conflictOf pd) }
  | _, _ => .error (.valueError,
      s!"None of the {sheets.items.length} sheet(s) in '{filename}' has both data and a recognizable time column.")

/-! ## The sheets that can be used -/

/-- The time column of a sheet with data. -/
def timeColumn? (df : Frame V) : Option String :=
  if df.dropna.empty then none else findTimeColumn df.dropna

/-- The data of a sheet, if it can be used: rows with a valid time, and columns other than its time
column and the one that the table's times get. -/
def usable? (canonical : String) (sheet : String × Frame V) : Option (String × Indexed T V) :=
  (timeColumn? sheet.2).bind fun timeCol =>
    let data := (sheetData pd sheet.2.dropna timeCol).drop canonical
    if data.empty then none else some (sheet.1, data)

/-- The name of the table's time column: that of the first sheet that has one. -/
def canonicalName (sheets : List (String × Frame V)) : Option String :=
  sheets.findSome? fun sheet => timeColumn? sheet.2

/-- The sheets that can be used, with their data. -/
def usableSheets (sheets : List (String × Frame V)) : List (String × Indexed T V) :=
  (canonicalName sheets).elim [] fun canonical => sheets.filterMap (usable? pd canonical)

omit [LinearOrder T] in
theorem usable?_of_none {df : Frame V} (h : timeColumn? df = none) (canonical name : String) :
    usable? pd canonical (name, df) = none := by rw [usable?, h]; rfl

omit [LinearOrder T] in
/-- A column that is dropped again changes nothing. -/
theorem drop_sheetData {df : Frame V} {timeCol name : String}
    (h : name ∉ (sheetData pd df timeCol).columns) :
    (sheetData pd df timeCol).drop name = sheetData pd df timeCol := by
  have hcolumns : (sheetData pd df timeCol).columns.filter (· ≠ name) =
      (sheetData pd df timeCol).columns := by
    refine List.filter_eq_self.2 fun c hc => decide_eq_true ?_
    rintro rfl
    exact h hc
  unfold Indexed.drop
  rw [hcolumns]
  refine congrArg (Indexed.mk _) ?_
  rw [sheetData, Indexed.drop, List.map_map]
  refine List.map_congr_left fun r _ => congrArg (Prod.mk r.1) (funext fun c => ?_)
  dsimp only [Function.comp]
  split <;> rfl

/-- A cell with a value is in one of the columns that stay. -/
theorem mem_columns_of_value {d : Indexed T V} {name c : String} {t : T} {v : V}
    (h : value (d.drop name).rows t c = some v) : c ∈ (d.drop name).columns := by
  obtain ⟨r, hr, hv⟩ := List.exists_of_findSome?_eq_some h
  obtain ⟨r', -, rfl⟩ := List.mem_map.1 hr
  by_contra hc
  have hblank : (if c ∈ (d.drop name).columns then r'.2 c else none) = some v := by
    rw [ite_eq_iff] at hv
    exact hv.elim (·.2) nofun
  rw [if_neg hc] at hblank
  cases hblank

/-! ## The loop over the sheets -/

/-- A sheet as the loop keeps it. -/
def kept (d : String × Indexed T V) : String × Indexed T V := (d.1, d.2.unrepeated)

omit [LinearOrder T] in
/-- The data of a sheet without the table's time column, whether or not it was there. -/
theorem ite_drop_sheetData (df : Frame V) (timeCol canonical : String) :
    (if canonical ∈ (sheetData pd df timeCol).columns then (sheetData pd df timeCol).drop canonical
      else sheetData pd df timeCol) = (sheetData pd df timeCol).drop canonical := by
  split
  · rfl
  · next h => exact (drop_sheetData pd h).symm

/-- **What one sheet adds**: its data, if it can be used, and perhaps the name of the time column.
-/
theorem addSheet_spec (s : Consolidation T V) (sheet : String × Frame V) :
    (addSheet pd s sheet).canonical = s.canonical.or (timeColumn? sheet.2) ∧
      (addSheet pd s sheet).indexed = s.indexed ++
        (((s.canonical.or (timeColumn? sheet.2)).bind (usable? pd · sheet)).map kept).toList := by
  have hskipped (h : timeColumn? sheet.2 = none) :
      s.canonical = s.canonical.or (timeColumn? sheet.2) ∧ s.indexed = s.indexed ++
        (((s.canonical.or (timeColumn? sheet.2)).bind (usable? pd · sheet)).map kept).toList := by
    have hnone : (s.canonical.bind (usable? pd · sheet)) = none := by
      refine Option.bind_eq_none_iff.2 fun canonical _ => ?_
      exact usable?_of_none pd h canonical sheet.1
    rw [h, Option.or_none, hnone]
    exact ⟨rfl, (List.append_nil _).symm⟩
  simp only [addSheet]
  by_cases hempty : sheet.2.dropna.empty = true
  · rw [if_pos hempty]
    exact hskipped (if_pos hempty)
  rw [if_neg hempty]
  rcases hcol : findTimeColumn sheet.2.dropna with _ | timeCol
  · exact hskipped ((if_neg hempty).trans hcol)
  · have htime : timeColumn? sheet.2 = some timeCol := (if_neg hempty).trans hcol
    have hcanonical : s.canonical.or (some timeCol) = some (s.canonical.getD timeCol) := by
      cases s.canonical <;> rfl
    rw [htime, hcanonical, Option.bind_some, usable?, htime, Option.bind_some]
    dsimp only
    rw [ite_drop_sheetData]
    split
    · exact ⟨rfl, (List.append_nil _).symm⟩
    · exact ⟨rfl, rfl⟩

theorem addSheet_warnings (s : Consolidation T V) (sheet : String × Frame V) {w : Warning}
    (h : w ∈ (addSheet pd s sheet).warnings) :
    w ∈ s.warnings ∨ ∃ canonical, w = .secondColumn sheet.1 canonical := by
  simp only [addSheet] at h
  split at h
  · exact Or.inl h
  split at h
  · exact Or.inl h
  · next timeCol _ =>
    have hw : w ∈ if s.canonical.getD timeCol ∈ (sheetData pd sheet.2.dropna timeCol).columns then
        s.warnings ++ [.secondColumn sheet.1 (s.canonical.getD timeCol)] else s.warnings := by
      rw [ite_drop_sheetData] at h
      split at h <;> exact h
    split at hw
    · rcases List.mem_append.1 hw with hw | hw
      · exact Or.inl hw
      · exact Or.inr ⟨_, List.mem_singleton.1 hw⟩
    · exact Or.inl hw

/-- **What the loop keeps**: the sheets that can be used, in their order. -/
theorem foldl_addSheet (sheets : List (String × Frame V)) (s : Consolidation T V) :
    (sheets.foldl (addSheet pd) s).canonical = s.canonical.or (canonicalName sheets) ∧
      (sheets.foldl (addSheet pd) s).indexed = s.indexed ++
        ((s.canonical.or (canonicalName sheets)).elim [] fun canonical =>
          sheets.filterMap (usable? pd canonical)).map kept := by
  induction sheets generalizing s with
  | nil =>
    refine ⟨(Option.or_none).symm, ?_⟩
    cases s.canonical <;> exact (List.append_nil _).symm
  | cons sheet sheets ih =>
    obtain ⟨hcanonical, hindexed⟩ := addSheet_spec pd s sheet
    obtain ⟨ihcanonical, ihindexed⟩ := ih (addSheet pd s sheet)
    have hor : s.canonical.or (canonicalName (sheet :: sheets)) =
        (s.canonical.or (timeColumn? sheet.2)).or (canonicalName sheets) := by
      rw [Option.or_assoc, canonicalName, List.findSome?_cons]
      cases timeColumn? sheet.2 <;> rfl
    rw [List.foldl_cons, ihcanonical, ihindexed, hcanonical, hindexed, hor, List.append_assoc]
    refine ⟨rfl, congrArg (s.indexed ++ ·) ?_⟩
    rcases hfirst : s.canonical.or (timeColumn? sheet.2) with _ | canonical
    · -- no time column so far: this sheet is not one to use, whatever the name turns out to be
      have hnone : timeColumn? sheet.2 = none := (Option.or_eq_none_iff.1 hfirst).2
      cases canonicalName sheets with
      | none => rfl
      | some canonical =>
        have hskip : usable? pd canonical sheet = none := usable?_of_none pd hnone canonical sheet.1
        simp only [Option.bind_none, Option.none_or, Option.elim_some]
        rw [List.filterMap_cons_none hskip]
        rfl
    · simp only [Option.bind_some, Option.some_or, Option.elim_some, List.filterMap_cons]
      cases usable? pd canonical sheet <;> rfl

theorem foldl_addSheet_start (sheets : List (String × Frame V)) :
    (sheets.foldl (addSheet pd) .start).canonical = canonicalName sheets ∧
      (sheets.foldl (addSheet pd) .start).indexed = (usableSheets pd sheets).map kept :=
  foldl_addSheet pd sheets .start

theorem conflict_not_mem_foldl (sheets : List (String × Frame V)) (s : Consolidation T V)
    (nameA nameB : String) (columns : List String) (h : .conflict nameA nameB columns ∉ s.warnings) :
    .conflict nameA nameB columns ∉ (sheets.foldl (addSheet pd) s).warnings := by
  induction sheets generalizing s with
  | nil => exact h
  | cons sheet sheets ih =>
    refine ih _ fun hmem => ?_
    rcases addSheet_warnings pd s sheet hmem with hmem | ⟨canonical, heq⟩
    · exact h hmem
    · cases heq

/-! ## The warnings -/

theorem mem_pairs {α : Type} {p q : α} {l : List α} : (p, q) ∈ pairs l ↔ [p, q].Sublist l := by
  induction l with
  | nil => simp [pairs]
  | cons a l ih =>
    rw [pairs, List.mem_append, ih, List.sublist_cons_iff, or_comm]
    refine or_congr_right ⟨fun h => ?_, fun ⟨r, heq, hr⟩ => ?_⟩
    · obtain ⟨q', hq, heq⟩ := List.mem_map.1 h
      cases heq
      exact ⟨[q], rfl, List.singleton_sublist.2 hq⟩
    · cases heq
      exact List.mem_map_of_mem (List.singleton_sublist.1 hr)

/-- Two sheets have different first values in a cell. -/
def FirstValuesDiffer (a b : Indexed T V) (t : T) (c : String) : Prop :=
  ∃ v w, value a.rows t c = some v ∧ value b.rows t c = some w ∧ pd.ne v w = true

theorem mem_conflicting {a b : Indexed T V} {c : String} :
    c ∈ conflicting pd a b ↔ c ∈ a.columns ∧ c ∈ b.columns ∧ ∃ t, FirstValuesDiffer pd a b t c := by
  rw [conflicting, List.mem_filter, List.mem_filter, List.any_eq_true, decide_eq_true_iff, and_assoc]
  refine and_congr_right fun _ => and_congr_right fun _ => ⟨fun ⟨t, _, h⟩ => ⟨t, ?_⟩, ?_⟩
  · split at h
    · next v w hv hw => exact ⟨v, w, hv, hw, h⟩
    · cases h
  · rintro ⟨t, v, w, hv, hw, hne⟩
    refine ⟨t, List.mem_filter.2 ⟨mem_keys_of_value hv, decide_eq_true (mem_keys_of_value hw)⟩, ?_⟩
    rw [hv, hw]
    exact hne

/-- The data of a sheet that can be used has values in its own columns only. -/
theorem mem_columns_of_usable {sheets : List (String × Frame V)} {s : String × Indexed T V}
    (h : s ∈ usableSheets pd sheets) {t : T} {c : String} {v : V} (hv : value s.2.rows t c = some v) :
    c ∈ s.2.columns := by
  rw [usableSheets] at h
  cases hname : canonicalName sheets with
  | none =>
    rw [hname] at h
    cases h
  | some canonical =>
    rw [hname] at h
    obtain ⟨sheet, -, hsheet⟩ := List.mem_filterMap.1 h
    obtain ⟨timeCol, -, hdata⟩ := Option.bind_eq_some_iff.1 hsheet
    dsimp only at hdata
    split at hdata
    · cases hdata
    · cases hdata
      exact mem_columns_of_value hv

/-- Two sheets conflict where their first values differ. -/
theorem mem_conflicting_kept {sheets : List (String × Frame V)} {a b : String × Indexed T V}
    (ha : a ∈ usableSheets pd sheets) (hb : b ∈ usableSheets pd sheets) {c : String} :
    c ∈ conflicting pd (kept a).2 (kept b).2 ↔ ∃ t, FirstValuesDiffer pd a.2 b.2 t c := by
  have hdiffer (t : T) :
      FirstValuesDiffer pd (kept a).2 (kept b).2 t c ↔ FirstValuesDiffer pd a.2 b.2 t c := by
    unfold FirstValuesDiffer kept Indexed.unrepeated
    rw [value_unrepeated, value_unrepeated]
  rw [mem_conflicting, exists_congr hdiffer]
  refine ⟨fun h => h.2.2, fun h => ⟨?_, ?_, h⟩⟩
  · obtain ⟨t, v, w, hv, -, -⟩ := h
    exact mem_columns_of_usable pd ha hv
  · obtain ⟨t, v, w, -, hw, -⟩ := h
    exact mem_columns_of_usable pd hb hw

/-- A warning is about two sheets and the columns in which their first values differ. -/
theorem mem_conflictOf {sheets : List (String × Frame V)} {nameA nameB : String}
    {columns : List String} :
    .conflict nameA nameB columns ∈
        (pairs ((usableSheets pd sheets).map kept)).filterMap (conflictOf pd) ↔
      ∃ a b, [(nameA, a), (nameB, b)].Sublist (usableSheets pd sheets) ∧
        columns = conflicting pd a.unrepeated b.unrepeated ∧ columns ≠ [] := by
  rw [List.mem_filterMap]
  constructor
  · rintro ⟨⟨p, q⟩, hpair, hwarning⟩
    obtain ⟨l, hsub, heq⟩ := List.sublist_map_iff.1 (mem_pairs.1 hpair)
    obtain ⟨a, l, rfl⟩ : ∃ a l', l = a :: l' := List.exists_cons_of_length_pos (by
      have hlength := congrArg List.length heq
      simp at hlength
      omega)
    obtain ⟨b, rfl⟩ : ∃ b, l = [b] := List.length_eq_one_iff.1 (by
      have hlength := congrArg List.length heq
      simp at hlength
      omega)
    cases heq
    rw [conflictOf] at hwarning
    dsimp only at hwarning
    split at hwarning
    · cases hwarning
    · next hne =>
      cases hwarning
      exact ⟨a.2, b.2, hsub, rfl, hne⟩
  · rintro ⟨a, b, hsub, rfl, hne⟩
    exact ⟨(kept (nameA, a), kept (nameB, b)), mem_pairs.2 (hsub.map kept), if_neg hne⟩

/-! ## The table -/

/-- **The outer join in which the first value wins.** One row for each valid time of a sheet that
can be used, in ascending order; under each column the first value of the sheets; and a warning for
two sheets, with its columns, where their first values differ. -/
structure FirstWinsJoin (sheets : Dict String (Frame V)) (p : ParsedSpreadsheet T V) : Prop where
  timeColumn : canonicalName sheets.items = some p.timeColumn
  ascending : (keys p.rows).Pairwise (· < ·)
  times : ∀ t, t ∈ keys p.rows ↔ ∃ s ∈ usableSheets pd sheets.items, t ∈ keys s.2.rows
  columns : ∀ c, c ∈ p.columns ↔ ∃ s ∈ usableSheets pd sheets.items, c ∈ s.2.columns
  cells : ∀ r ∈ p.rows, ∀ c,
    r.2 c = (usableSheets pd sheets.items).findSome? fun s => value s.2.rows r.1 c
  conflicts : ∀ nameA nameB, (∃ columns, .conflict nameA nameB columns ∈ p.warnings) ↔
    ∃ a b, [(nameA, a), (nameB, b)].Sublist (usableSheets pd sheets.items) ∧
      ∃ t c, FirstValuesDiffer pd a b t c
  conflictColumns : ∀ nameA nameB columns, .conflict nameA nameB columns ∈ p.warnings →
    ∃ a b, [(nameA, a), (nameB, b)].Sublist (usableSheets pd sheets.items) ∧
      ∀ c, c ∈ columns ↔ ∃ t, FirstValuesDiffer pd a b t c

/-- The warnings about conflicts, for the sheets as the loop leaves them. -/
theorem conflicts_of_warnings {sheets : List (String × Frame V)} {warnings : List Warning}
    (hother : ∀ nameA nameB columns, .conflict nameA nameB columns ∉ warnings)
    (nameA nameB : String) (columns : List String) :
    .conflict nameA nameB columns ∈
        warnings ++ (pairs ((usableSheets pd sheets).map kept)).filterMap (conflictOf pd) ↔
      ∃ a b, [(nameA, a), (nameB, b)].Sublist (usableSheets pd sheets) ∧
        columns = conflicting pd a.unrepeated b.unrepeated ∧ columns ≠ [] := by
  rw [List.mem_append, or_iff_right (hother nameA nameB columns), mem_conflictOf]

omit pd in
/-- The keys of the sheets one below the other. -/
theorem mem_keys_flatMap {sheets : List (String × Indexed T V)} {t : T} :
    t ∈ keys ((sheets.map kept).flatMap fun d => d.2.rows) ↔ ∃ s ∈ sheets, t ∈ keys s.2.rows := by
  rw [keys, List.map_flatMap, List.mem_flatMap]
  constructor
  · rintro ⟨d, hd, ht⟩
    obtain ⟨s, hs, rfl⟩ := List.mem_map.1 hd
    exact ⟨s, hs, mem_keys_unrepeated.1 ht⟩
  · rintro ⟨s, hs, ht⟩
    exact ⟨kept s, List.mem_map_of_mem hs, mem_keys_unrepeated.2 ht⟩

omit pd in
/-- The values of the sheets one below the other. -/
theorem value_flatMap_kept (sheets : List (String × Indexed T V)) (t : T) (c : String) :
    value ((sheets.map kept).flatMap fun d => d.2.rows) t c =
      sheets.findSome? fun s => value s.2.rows t c := by
  rw [value_flatMap, List.findSome?_map]
  refine congrArg (List.findSome? · sheets) (funext fun s => ?_)
  exact value_unrepeated s.2.rows t c

/-- **Consolidation is a first-wins outer join** of the sheets that can be used, and fails where
there is none. -/
theorem consolidateSheets_join (sheets : Dict String (Frame V)) (filename : String) :
    match consolidateSheets pd sheets filename with
    | .ok p => FirstWinsJoin pd sheets p ∧ usableSheets pd sheets.items ≠ []
    | .error e => usableSheets pd sheets.items = [] ∧ e.1 = .valueError := by
  obtain ⟨hcanonical, hindexed⟩ := foldl_addSheet_start pd sheets.items
  have hother (nameA nameB : String) (columns : List String) :
      .conflict nameA nameB columns ∉ (sheets.items.foldl (addSheet pd) .start).warnings :=
    conflict_not_mem_foldl pd sheets.items .start nameA nameB columns List.not_mem_nil
  unfold consolidateSheets
  generalize sheets.items.foldl (addSheet pd) .start = s at hcanonical hindexed hother
  obtain ⟨canonical, used, skipped, warnings, indexed⟩ := s
  dsimp only at hcanonical hindexed hother ⊢
  subst hcanonical hindexed
  cases husable : usableSheets pd sheets.items with
  | nil => exact ⟨rfl, rfl⟩
  | cons d ds =>
    have hname : canonicalName sheets.items ≠ none := by
      intro hnone
      rw [usableSheets, hnone] at husable
      cases husable
    obtain ⟨canonical, hcanonical⟩ := Option.ne_none_iff_exists'.1 hname
    rw [hcanonical, List.map_cons]
    dsimp only
    rw [← List.map_cons, ← husable]
    refine ⟨?_, husable ▸ List.cons_ne_nil d ds⟩
    have hnodup := nodup_unrepeated
      (((usableSheets pd sheets.items).map kept).flatMap fun d => d.2.rows)
    have hwarning := @conflicts_of_warnings T V _ pd sheets.items warnings hother
    have hconflicting {nameA nameB : String} {a b : Indexed T V}
        (hsub : [(nameA, a), (nameB, b)].Sublist (usableSheets pd sheets.items)) {c : String} :
        c ∈ conflicting pd a.unrepeated b.unrepeated ↔ ∃ t, FirstValuesDiffer pd a b t c :=
      mem_conflicting_kept pd (hsub.subset (.head _)) (hsub.subset (.tail _ (.head _)))
    exact {
      timeColumn := hcanonical
      ascending := pairwise_keys_sorted hnodup
      times := fun t => by rw [mem_keys_sorted, mem_keys_unrepeated, mem_keys_flatMap]
      columns := fun c => by
        rw [List.mem_eraseDups, List.mem_flatMap]
        constructor
        · rintro ⟨d, hd, hc⟩
          obtain ⟨s, hs, rfl⟩ := List.mem_map.1 hd
          exact ⟨s, hs, hc⟩
        · rintro ⟨s, hs, hc⟩
          exact ⟨kept s, List.mem_map_of_mem hs, hc⟩
      cells := fun r hr c => by
        have hcell := value_of_mem (((sorted_perm _).map Prod.fst).nodup_iff.2 hnodup) hr c
        rw [← hcell, value_sorted hnodup, value_unrepeated, value_flatMap_kept]
      conflicts := fun nameA nameB => by
        constructor
        · rintro ⟨columns, h⟩
          obtain ⟨a, b, hsub, rfl, hne⟩ := (hwarning nameA nameB columns).1 h
          obtain ⟨c, hc⟩ := List.exists_mem_of_ne_nil _ hne
          obtain ⟨t, hdiffer⟩ := (hconflicting hsub).1 hc
          exact ⟨a, b, hsub, t, c, hdiffer⟩
        · rintro ⟨a, b, hsub, t, c, hdiffer⟩
          have hc := (hconflicting hsub).2 ⟨t, hdiffer⟩
          exact ⟨_, (hwarning nameA nameB _).2 ⟨a, b, hsub, rfl, List.ne_nil_of_mem hc⟩⟩
      conflictColumns := fun nameA nameB columns h => by
        obtain ⟨a, b, hsub, rfl, -⟩ := (hwarning nameA nameB columns).1 h
        exact ⟨a, b, hsub, fun c => hconflicting hsub⟩ }

/-! ## Values that a sheet holds after its first -/

/-- A sheet has a value in a cell, in some row. -/
def Holds (a : Indexed T V) (t : T) (c : String) (v : V) : Prop := ∃ r ∈ a.rows, r.1 = t ∧ r.2 c = some v

/-- Two sheets hold different values in a cell, in any of their rows. -/
def HeldValuesDiffer (a b : Indexed T V) (t : T) (c : String) : Prop :=
  ∃ v w, Holds a t c v ∧ Holds b t c w ∧ pd.ne v w = true

/-- Where no time comes back in a sheet, it holds one value in a cell. -/
theorem holds_iff_of_nodup {a : Indexed T V} (hnodup : (keys a.rows).Nodup) {t : T} {c : String} {v : V} :
    Holds a t c v ↔ value a.rows t c = some v := by
  constructor
  · rintro ⟨⟨t, f⟩, hr, rfl, hv⟩
    rw [value_of_mem hnodup hr]
    exact hv
  · intro hv
    obtain ⟨⟨t, f⟩, hr, rfl⟩ := List.mem_map.1 (mem_keys_of_value hv)
    rw [value_of_mem hnodup hr] at hv
    exact ⟨(t, f), hr, rfl, hv⟩

theorem heldValuesDiffer_iff_of_nodup {a b : Indexed T V} (ha : (keys a.rows).Nodup)
    (hb : (keys b.rows).Nodup) {t : T} {c : String} :
    HeldValuesDiffer pd a b t c ↔ FirstValuesDiffer pd a b t c := by
  simp only [HeldValuesDiffer, FirstValuesDiffer, holds_iff_of_nodup ha, holds_iff_of_nodup hb]

/-- A warning for two sheets exactly where they hold different values. -/
def WarnsOfHeldValues (sheets : Dict String (Frame V)) (p : ParsedSpreadsheet T V) : Prop :=
  ∀ nameA nameB, (∃ columns, .conflict nameA nameB columns ∈ p.warnings) ↔
    ∃ a b, [(nameA, a), (nameB, b)].Sublist (usableSheets pd sheets.items) ∧
      ∃ t c, HeldValuesDiffer pd a b t c

end

/-- Times and values that are numbers. -/
def numbers : Pandas Nat Nat := ⟨id, fun _ => rfl, fun v w => v != w⟩

/-- A sheet with one column of measurements. -/
def readings (rows : List (Nat × Nat)) : Frame Nat where
  columns := ["Time", "Power"]
  nodup := by decide
  isDatetime := fun _ => false
  rows := rows.map fun tv c => if c = "Time" then some tv.1 else some tv.2

/-- The first sheet has a second value for a time, which the other sheet does not have. -/
def repeatedTime : Dict String (Frame Nat) where
  items := [("Monday", readings [(0, 1), (0, 2)]), ("Tuesday", readings [(0, 1)])]
  nodup := by decide

/-- **No warning for a second value**: the sheets hold 2 and 1 for one cell, and no warning says so.
-/
theorem second_value_unwarned : ¬ ∀ p, consolidateSheets numbers repeatedTime "times.xlsx" = .ok p →
    WarnsOfHeldValues numbers repeatedTime p := by
  intro h
  obtain ⟨columns, hmem⟩ := (h _ rfl "Monday" "Tuesday").2 ⟨_, _, List.Sublist.refl _, 0, "Power",
    2, 1, ⟨_, .tail _ (.head _), rfl, rfl⟩, ⟨_, .head _, rfl, rfl⟩, rfl⟩
  cases hmem

end Timeshift

end ProtocolGateway
