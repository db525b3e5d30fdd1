import Mathlib.Data.Int.Log
import Mathlib.Data.Rat.Floor
import Mathlib.Tactic.Linarith
import Mathlib.Tactic.NormNum
import Mathlib.Tactic.Positivity
import Mathlib.Tactic.Ring
import ProtocolGateway.Influx.SliceCover
import ProtocolGateway.Lib.Dict

/-!
# Editing a metric

A preview counts the points of a device in a range of time that have a field, and an edit gives the
field a new value. The edit reads the points of the range and writes one point for each of them: its
tags, its time and the one field, which the server merges into what is there.

The points without the field are read as well, and get it. On v3 a range may be read in slices, and
the time of a point comes back through a double.

* `previewV1`, `editV1`, `previewV3`, `editV3` — the calls, for every way a server answers.
* `Exact` — an edit does what its preview counts, and nothing if it fails.
* `edits_exact` — when that is so.
-/

namespace ProtocolGateway

namespace MetricEdit

open TimeSlices

/-! ## Points -/

/-- The tags of a series: `_INFLUX3_TAG_NAMES`. -/
structure Tags where
  deviceIdentifier : Option String
  deviceName : Option String
  deviceManufacturer : Option String
  deviceModel : Option String
  deviceSerialNumber : Option String
  transport : Option String
  deriving DecidableEq

/-- What identifies a point: its series, and its time in nanoseconds. -/
abbrev Key := Tags × Int

variable {V : Type}

/-- The fields of a point. -/
abbrev Fields (V : Type) := String → Option V

/-- The points of a measurement. -/
abbrev Store (V : Type) := Dict Key (Fields V)

/-- A point as a query returns it. -/
abbrev Row (V : Type) := Record (Tags × Fields V)

def Row.key (row : Row V) : Key := (row.2.1, row.1)

/-- The field is not null. -/
def Row.has (field : String) (row : Row V) : Bool := (row.2.2 field).isSome

/-- The points with a `device_identifier`. -/
def deviceRows (store : Store V) (device : String) : List (Row V) :=
  (store.items.filter fun kv => kv.1.1.deviceIdentifier = some device).map fun kv =>
    (kv.1.2, kv.1.1, kv.2)

/-- A server merges a field into the point that is there. -/
def writePoint (field : String) (value : V) (store : Store V) (key : Key) : Store V :=
  store.set key (Function.update ((store.get? key).getD fun _ => none) field (some value))

/-- `write_points` -/
def writePoints (field : String) (value : V) (store : Store V) (keys : List Key) : Store V :=
  keys.foldl (writePoint field value) store

/-! ## Times -/

/-- The nearest integer, a tie to the even one. -/
def nearest (q : ℚ) : Int :=
  let below := ⌊q⌋
  if q - below < 1 / 2 ∨ q - below = 1 / 2 ∧ below % 2 = 0 then below else below + 1

/-- The nearest number with 53 bits. -/
def toDouble (q : ℚ) : ℚ :=
  if q = 0 then 0
  else
    let unit : ℚ := 2 ^ (Int.log 2 |q| - 52)
    nearest (q / unit) * unit

/-- `int`, of a double -/
def truncate (q : ℚ) : Int := if 0 ≤ q then ⌊q⌋ else ⌈q⌉

/-- `int(time.timestamp() * 1e9)`, of a datetime in microseconds -/
def nanos (time : Int) : Int := truncate (toDouble (toDouble (time / 10 ^ 6) * 10 ^ 9))

/-- The time that is written for a point whose time the client reads as some microsecond. -/
def restamp (readMicros : Int → Int) (time : Int) : Int := nanos (readMicros time)

/-! ## The calls -/

/-- The arguments of a preview and its edit. The field picker has no empty name. -/
structure Request where
  device : String
  field : String
  startTime : Int
  endTime : Int
  field_ne : field ≠ ""

def endBeforeStart : String := "End time must not be before start time."

section

variable {utc : Int → Int} (req : Request) (store : Store V)

/-- `InfluxV1AdminManager.preview_metric_edit`: its `row_count`. -/
def previewV1 (server : Server utc (deviceRows store req.device)) : Except String Nat :=
  if req.endTime < req.startTime then .error endBeforeStart
  else (server.run 0 req.startTime req.endTime true).map (List.countP (Row.has req.field))

/-- `Influx3AdminManager.preview_metric_edit`: its `row_count`. -/
def previewV3 (server : Server utc (deviceRows store req.device)) : Except String Nat :=
  if req.endTime < req.startTime then .error endBeforeStart
  else
    (queryTimeSlices req.startTime req.endTime fun n a b endInclusive =>
      (server.run n a b endInclusive).map (List.countP (Row.has req.field))).1.map fun slices =>
        (slices.map fun slice => slice.2.2.2).sum

/-- `edit_metric_values("set_value")`: its `points_affected`, and the store. `coerced` is the value
once the type of the field has been looked up. -/
def editMetricValues (coerced : Except String V) (readRows : Except String (List (Row V)))
    (stamp : Int → Int) : Except String Nat × Store V :=
  if req.endTime < req.startTime then (.error endBeforeStart, store)
  else if req.field = "" then
    (.error "field_name is required when action is 'set_value'.", store)
  else
    match coerced with
    | .error exc => (.error exc, store)
    | .ok value =>
      match readRows with
      | .error exc => (.error exc, store)
      | .ok rows =>
        (.ok rows.length,
          writePoints req.field value store (rows.map fun row => (row.2.1, stamp row.1)))

/-- `InfluxV1AdminManager.edit_metric_values` -/
def editV1 (coerced : Except String V) (server : Server utc (deviceRows store req.device)) :
    Except String Nat × Store V :=
  editMetricValues req store coerced (server.run 0 req.startTime req.endTime true) fun time => time

/-- `Influx3AdminManager.edit_metric_values` -/
def editV3 (readMicros : Int → Int) (coerced : Except String V)
    (server : Server utc (deviceRows store req.device)) : Except String Nat × Store V :=
  editMetricValues req store coerced
    (joined (queryTimeSlices req.startTime req.endTime server.run)).1 (restamp readMicros)

/-! ## What they are for -/

/-- The points of the device in the range, -/
def rangeRows (utc : Int → Int) : List (Row V) :=
  (deviceRows store req.device).filter (inSlice utc req.startTime req.endTime true)

/-- and those of them that have the field. -/
def selected (utc : Int → Int) : List Key :=
  ((rangeRows req store utc).filter (Row.has req.field)).map Row.key

/-- An edit gives the field its value on the points that have it, as many as the preview counts, and
changes nothing else. If it fails it changes nothing. -/
structure Exact (utc : Int → Int) (coerced : Except String V) (preview : Except String Nat)
    (edit : Except String Nat × Store V) : Prop where
  previewed : ∀ n, preview = .ok n → n = (selected req store utc).length
  failed : ∀ exc, edit.1 = .error exc → edit.2 = store
  affected : ∀ n, edit.1 = .ok n → n = (selected req store utc).length
  points : ∀ n, edit.1 = .ok n → ∀ value, coerced = .ok value → ∀ key,
    edit.2.get? key =
      if key ∈ selected req store utc then
        (store.get? key).map fun fields => Function.update fields req.field (some value)
      else store.get? key

end

/-! ## Writing -/

section

variable {field : String} {value : V} {store : Store V} {device : String} {row : Row V}

theorem get?_writePoint (key key' : Key) :
    (writePoint field value store key).get? key' =
      if key' = key then
        some (Function.update ((store.get? key').getD fun _ => none) field (some value))
      else store.get? key' := by
  rw [writePoint, Dict.get?_set]
  split
  · next heq => rw [heq]
  · rfl

/-- Points that are written have the new value, and the others are as they were. -/
theorem get?_writePoints (keys : List Key) (key : Key) :
    (writePoints field value store keys).get? key =
      if key ∈ keys then
        some (Function.update ((store.get? key).getD fun _ => none) field (some value))
      else store.get? key := by
  induction keys generalizing store with
  | nil => rfl
  | cons k keys ih =>
    rw [writePoints, List.foldl_cons, ← writePoints, ih, get?_writePoint]
    by_cases hkey : key = k
    · simp [hkey]
    · simp [hkey]

theorem mem_deviceRows :
    row ∈ deviceRows store device ↔
      store.get? row.key = some row.2.2 ∧ row.2.1.deviceIdentifier = some device := by
  obtain ⟨time, tags, fields⟩ := row
  rw [Dict.get?_eq_some_iff]
  simp only [deviceRows, List.mem_map, List.mem_filter, decide_eq_true_eq]
  constructor
  · rintro ⟨kv, ⟨hmem, hdevice⟩, heq⟩
    cases heq
    exact ⟨hmem, hdevice⟩
  · rintro ⟨hmem, hdevice⟩
    exact ⟨_, ⟨hmem, hdevice⟩, rfl⟩

theorem mem_selected {utc : Int → Int} {req : Request} {key : Key} :
    key ∈ selected req store utc ↔
      ∃ row ∈ rangeRows req store utc, row.has req.field = true ∧ row.key = key := by
  simp only [selected, List.mem_map, List.mem_filter]
  exact exists_congr fun row => and_assoc

/-- A selected point is there. -/
theorem get?_of_mem_selected {utc : Int → Int} {req : Request} {key : Key}
    (h : key ∈ selected req store utc) :
    ∃ fields, store.get? key = some fields ∧ (fields req.field).isSome = true := by
  obtain ⟨row, hrow, hhas, rfl⟩ := mem_selected.1 h
  exact ⟨row.2.2, (mem_deviceRows.1 (List.mem_of_mem_filter hrow)).1, hhas⟩

/-- Writing a field at the selected points changes nothing else. -/
theorem get?_writePoints_selected {utc : Int → Int} {req : Request} {keys : List Key}
    (h : ∀ key, key ∈ keys ↔ key ∈ selected req store utc) (key : Key) :
    (writePoints req.field value store keys).get? key =
      if key ∈ selected req store utc then
        (store.get? key).map fun fields => Function.update fields req.field (some value)
      else store.get? key := by
  rw [get?_writePoints]
  by_cases hselected : key ∈ selected req store utc
  · obtain ⟨fields, hfields, -⟩ := get?_of_mem_selected hselected
    rw [if_pos ((h key).2 hselected), if_pos hselected, hfields]
    rfl
  · rw [if_neg (mt (h key).1 hselected), if_neg hselected]

/-- Writing two values changes nothing else only at the selected points. -/
theorem mem_selected_of_writePoints {utc : Int → Int} {req : Request} {keys : List Key}
    {value' : V} (hne : value ≠ value')
    (h : ∀ v ∈ [value, value'], ∀ key, (writePoints req.field v store keys).get? key =
      if key ∈ selected req store utc then
        (store.get? key).map fun fields => Function.update fields req.field (some v)
      else store.get? key) (key : Key) :
    key ∈ keys ↔ key ∈ selected req store utc := by
  have hfirst := h value (by simp) key
  have hsecond := h value' (by simp) key
  rw [get?_writePoints] at hfirst hsecond
  by_cases hwritten : key ∈ keys
  · refine iff_of_true hwritten (by_contra fun hnot => ?_)
    -- an unselected point would have both values
    rw [if_pos hwritten, if_neg hnot] at hfirst hsecond
    have hfields := congrFun (Option.some.inj (hfirst.trans hsecond.symm)) req.field
    rw [Function.update_self, Function.update_self] at hfields
    exact hne (Option.some.inj hfields)
  · refine iff_of_false hwritten fun hselected => ?_
    obtain ⟨fields, hfields, -⟩ := get?_of_mem_selected hselected
    rw [if_neg hwritten, if_pos hselected, hfields, Option.map_some] at hfirst hsecond
    have hvalues := congrFun (Option.some.inj (hfirst.symm.trans hsecond)) req.field
    rw [Function.update_self, Function.update_self] at hvalues
    exact hne (Option.some.inj hvalues)

end

/-! ## Slices -/

section

variable {utc : Int → Int} {rows : List (Row V)} {R : Type}

theorem countP_filter_eq_sum (p q : Row V → Bool) (rows : List (Row V)) :
    (rows.filter q).countP p = ((rows.filter p).map fun row => (q row).toNat).sum := by
  induction rows with
  | nil => rfl
  | cons row rows ih =>
    by_cases hp : p row = true <;> by_cases hq : q row = true <;> simp [hp, hq, ih, Nat.add_comm]

/-- What slices count of some rows, each row counts as often as they hold its time. -/
theorem sum_slices (p : Row V → Bool) (count : R → Nat) {slices : List (Int × Int × Bool × R)}
    (h : ∀ s ∈ slices, count s.2.2.2 =
      (rows.filter (inSlice utc s.1 s.2.1 s.2.2.1)).countP p) :
    (slices.map fun s => count s.2.2.2).sum =
      ((rows.filter p).map fun row => copies utc row.1 slices).sum := by
  induction slices with
  | nil => simp [copies]
  | cons s slices ih =>
    have hcopies (row : Row V) : copies utc row.1 (s :: slices) =
        (inSlice utc s.1 s.2.1 s.2.2.1 row).toNat + copies utc row.1 slices := List.sum_cons
    rw [List.map_cons, List.sum_cons, h s List.mem_cons_self, countP_filter_eq_sum,
      ih fun s hs => h s (List.mem_cons_of_mem _ hs), ← List.sum_map_add]
    exact congrArg List.sum (List.map_congr_left fun row _ => (hcopies row).symm)

theorem copies_pos_iff {t : Int} {slices : List (Int × Int × Bool × R)} :
    0 < copies utc t slices ↔
      ∃ s ∈ slices, Bisect.within (1000 * utc s.1) (1000 * utc s.2.1) s.2.2.1 t = true := by
  induction slices with
  | nil => simp [copies]
  | cons s slices ih =>
    have hcopies : copies utc t (s :: slices) =
        holds utc t s.1 s.2.1 s.2.2.1 + copies utc t slices := List.sum_cons
    have hholds : 0 < holds utc t s.1 s.2.1 s.2.2.1 ↔
        Bisect.within (1000 * utc s.1) (1000 * utc s.2.1) s.2.2.1 t = true := by
      unfold holds
      cases Bisect.within (1000 * utc s.1) (1000 * utc s.2.1) s.2.2.1 t <;> decide
    rw [hcopies, Nat.add_pos_iff_pos_or_pos, hholds, ih, List.exists_mem_cons_iff]

variable {req : Request} {store : Store V}
  {slices : List (Int × Int × Bool × List (Row V))}

/-- The rows of an edit are those of its slices. -/
theorem joined_eq_ok_iff {server : Server utc (deviceRows store req.device)}
    {rows : List (Row V)} :
    (joined (queryTimeSlices req.startTime req.endTime server.run)).1 = .ok rows ↔
      ∃ slices, (slicesFrom server.run req.startTime req.endTime true 0).1 = .ok slices ∧
        rows = slices.flatMap fun s => s.2.2.2 := by
  unfold joined queryTimeSlices slicesFrom
  cases (sliceLoop (fun x y i (result : List (Row V)) => [(x, y, i, result)]) server.run
    req.startTime req.endTime true 0).1 with
  | error exc => exact iff_of_false nofun nofun
  | ok slices => simp [Except.map, eq_comm]

theorem perm_of_mem_slices {server : Server utc (deviceRows store req.device)}
    (h : (slicesFrom server.run req.startTime req.endTime true 0).1 = .ok slices)
    {s : Int × Int × Bool × List (Row V)} (hs : s ∈ slices) :
    s.2.2.2.Perm ((deviceRows store req.device).filter (inSlice utc s.1 s.2.1 s.2.2.1)) := by
  obtain ⟨n, hrun⟩ := run_of_mem_slicesFrom h hs
  exact server.complete n _ _ _ _ hrun

/-- The number of rows of an edit. -/
theorem length_flatMap_slices {server : Server utc (deviceRows store req.device)}
    (h : (slicesFrom server.run req.startTime req.endTime true 0).1 = .ok slices) :
    (slices.flatMap fun s => s.2.2.2).length =
      ((deviceRows store req.device).map fun row => copies utc row.1 slices).sum := by
  have hcount (s) (hs : s ∈ slices) : s.2.2.2.length = ((deviceRows store req.device).filter
      (inSlice utc s.1 s.2.1 s.2.2.1)).countP fun _ => true := by
    rw [(perm_of_mem_slices h hs).length_eq, List.countP_true]
  have hsum := sum_slices (fun _ => true) List.length hcount
  rw [List.filter_true] at hsum
  exact List.length_flatMap.trans hsum

/-- The rows of an edit are those whose time a slice holds. -/
theorem mem_flatMap_slices {server : Server utc (deviceRows store req.device)}
    (h : (slicesFrom server.run req.startTime req.endTime true 0).1 = .ok slices) {row : Row V} :
    (row ∈ slices.flatMap fun s => s.2.2.2) ↔
      row ∈ deviceRows store req.device ∧ 0 < copies utc row.1 slices := by
  rw [copies_pos_iff, List.mem_flatMap]
  constructor
  · rintro ⟨s, hs, hrow⟩
    obtain ⟨hmem, hin⟩ := List.mem_filter.1 ((perm_of_mem_slices h hs).mem_iff.1 hrow)
    exact ⟨hmem, s, hs, hin⟩
  · rintro ⟨hmem, s, hs, hin⟩
    exact ⟨s, hs, (perm_of_mem_slices h hs).mem_iff.2 (List.mem_filter.2 ⟨hmem, hin⟩)⟩

end

/-! ## Previews and edits -/

section

variable {utc : Int → Int} {req : Request} {store : Store V} {rows : List (Row V)}
  {stamp : Int → Int}

theorem length_selected :
    (selected req store utc).length = (rangeRows req store utc).countP (Row.has req.field) := by
  rw [selected, List.length_map, List.countP_eq_length_filter]

/-- Where each slice holds what it should, so do the counts of a preview. -/
theorem previewV3_eq {server : Server utc (deviceRows store req.device)} {n : Nat}
    (hjoins : ∀ row ∈ deviceRows store req.device, ∀ x y i,
      Piece req.startTime req.endTime true x y i → Joins utc row.1 x y i)
    (h : previewV3 req store server = .ok n) : n = (selected req store utc).length := by
  unfold previewV3 at h
  split at h
  · cases h
  · generalize hslices : (queryTimeSlices req.startTime req.endTime _).1 = result at h
    cases result with
    | error exc => cases h
    | ok slices =>
      obtain rfl := Except.ok.inj h
      have hcount (s) (hs : s ∈ slices) : id s.2.2.2 =
          ((deviceRows store req.device).filter
            (inSlice utc s.1 s.2.1 s.2.2.1)).countP (Row.has req.field) := by
        obtain ⟨n, hrun⟩ := run_of_mem_slicesFrom hslices hs
        cases hrows : server.run n s.1 s.2.1 s.2.2.1 with
        | error exc =>
          rw [hrows] at hrun
          cases hrun
        | ok rows =>
          rw [hrows] at hrun
          rw [id, ← Except.ok.inj hrun]
          exact (server.complete n _ _ _ _ hrows).countP_eq _
      refine (sum_slices (Row.has req.field) id hcount).trans ?_
      rw [length_selected, rangeRows, countP_filter_eq_sum]
      refine congrArg List.sum (List.map_congr_left fun row hrow => ?_)
      exact copies_of_joins (hjoins row (List.mem_of_mem_filter hrow)) hslices

/-- An edit is exact if every read gives as many rows as are selected, and their points. -/
theorem exact_of_rows {coerced : Except String V} {preview : Except String Nat}
    {readRows : Except String (List (Row V))}
    (hpreview : ∀ n, preview = .ok n → n = (selected req store utc).length)
    (h : req.startTime ≤ req.endTime → ∀ rows, readRows = .ok rows →
      rows.length = (selected req store utc).length ∧
        ∀ key, key ∈ rows.map (fun row => (row.2.1, stamp row.1)) ↔
          key ∈ selected req store utc) :
    Exact req store utc coerced preview (editMetricValues req store coerced readRows stamp) := by
  unfold editMetricValues
  split
  · exact ⟨hpreview, fun _ _ => rfl, nofun, nofun⟩
  · next hrange =>
    rw [if_neg req.field_ne]
    cases coerced with
    | error exc => exact ⟨hpreview, fun _ _ => rfl, nofun, nofun⟩
    | ok value =>
      cases readRows with
      | error exc => exact ⟨hpreview, fun _ _ => rfl, nofun, nofun⟩
      | ok rows =>
        obtain ⟨hlength, hkeys⟩ := h (not_lt.1 hrange) rows rfl
        refine ⟨hpreview, nofun, fun n hn => Except.ok.inj hn ▸ hlength, ?_⟩
        intro n _ value' hvalue key
        obtain rfl := Except.ok.inj hvalue
        exact get?_writePoints_selected hkeys key

/-- And only then. -/
theorem rows_of_exact [Nontrivial V] {readRows : Except String (List (Row V))}
    {preview : Except String Nat} (hrange : req.startTime ≤ req.endTime)
    (hread : readRows = .ok rows)
    (h : ∀ value, Exact req store utc (.ok value) preview
      (editMetricValues req store (.ok value) readRows stamp)) :
    rows.length = (selected req store utc).length ∧
      ∀ key, key ∈ rows.map (fun row => (row.2.1, stamp row.1)) ↔
        key ∈ selected req store utc := by
  obtain ⟨value, value', hne⟩ := exists_pair_ne V
  have hedit (v : V) : editMetricValues req store (.ok v) readRows stamp = (.ok rows.length,
      writePoints req.field v store (rows.map fun row => (row.2.1, stamp row.1))) := by
    unfold editMetricValues
    rw [if_neg (not_lt.2 hrange), if_neg req.field_ne, hread]
  simp only [hedit] at h
  exact ⟨(h value).affected _ rfl, mem_selected_of_writePoints hne fun v _ key =>
    (h v).points _ rfl v rfl key⟩

end

/-! ## When an edit is exact -/

section

variable {V : Type} {utc : Int → Int} {req : Request} {store : Store V} {readMicros : Int → Int}

/-- Every point of the device in the range has the field. -/
def Covered (req : Request) (store : Store V) (utc : Int → Int) : Prop :=
  ∀ row ∈ rangeRows req store utc, row.has req.field = true

/-- What an edit on v3 takes. -/
structure Restampable (req : Request) (store : Store V) (utc : Int → Int)
    (readMicros : Int → Int) : Prop where
  covered : Covered req store utc
  /-- each slice holds a point as often as its halves -/
  joined : ∀ row ∈ deviceRows store req.device, ∀ x y i,
    Piece req.startTime req.endTime true x y i → Joins utc row.1 x y i
  /-- the points are written where they were -/
  restamped : ∀ key, (∃ row ∈ rangeRows req store utc,
    (row.2.1, restamp readMicros row.1) = key) ↔ ∃ row ∈ rangeRows req store utc, row.key = key

theorem covered_iff :
    Covered req store utc ↔
      (rangeRows req store utc).length = (selected req store utc).length := by
  rw [length_selected, eq_comm, List.countP_eq_length, Covered]

theorem mem_selected_of_covered (h : Covered req store utc) {key : Key} :
    key ∈ selected req store utc ↔ ∃ row ∈ rangeRows req store utc, row.key = key := by
  rw [mem_selected]
  exact exists_congr fun row => and_congr_right fun hrow => and_iff_right (h row hrow)

theorem previewV1_eq {server : Server utc (deviceRows store req.device)} {n : Nat}
    (h : previewV1 req store server = .ok n) : n = (selected req store utc).length := by
  unfold previewV1 at h
  split at h
  · cases h
  · cases hrun : server.run 0 req.startTime req.endTime true with
    | error exc =>
      rw [hrun] at h
      cases h
    | ok rows =>
      rw [hrun] at h
      rw [length_selected, ← Except.ok.inj h]
      exact (server.complete 0 _ _ _ _ hrun).countP_eq _

theorem editsV1_iff [Nontrivial V] :
    (∀ (coerced : Except String V) (server server' : Server utc (deviceRows store req.device)),
        Exact req store utc coerced (previewV1 req store server)
          (editV1 req store coerced server')) ↔
      (req.startTime ≤ req.endTime → Covered req store utc) := by
  constructor
  · intro h hrange
    let server : Server utc (deviceRows store req.device) := accepting utc _
    have hrun : server.run 0 req.startTime req.endTime true = .ok (rangeRows req store utc) := rfl
    exact covered_iff.2 (rows_of_exact hrange hrun fun value => h (.ok value) server server).1
  · intro h coerced server server'
    refine exact_of_rows (fun n => previewV1_eq) fun hrange rows hrun => ?_
    have hperm : rows.Perm (rangeRows req store utc) := server'.complete 0 _ _ _ _ hrun
    refine ⟨hperm.length_eq.trans (covered_iff.1 (h hrange)), fun key => ?_⟩
    rw [mem_selected_of_covered (h hrange), List.mem_map]
    exact exists_congr fun row => and_congr_left fun _ => hperm.mem_iff

theorem holds_pos_iff {row : Row V} :
    0 < holds utc row.1 req.startTime req.endTime true ↔
      inSlice utc req.startTime req.endTime true row = true := by
  unfold holds inSlice
  cases Bisect.within (1000 * utc req.startTime) (1000 * utc req.endTime) true row.1 <;> decide

theorem length_rangeRows :
    (rangeRows req store utc).length = ((deviceRows store req.device).map fun row =>
      holds utc row.1 req.startTime req.endTime true).sum := by
  have hcount := countP_filter_eq_sum (fun _ => true)
    (inSlice utc req.startTime req.endTime true) (deviceRows store req.device)
  rw [List.countP_true, List.filter_true] at hcount
  exact hcount

/-- A server that rejects nothing returns the range. -/
theorem slicesFrom_accepting (n : Nat) :
    (slicesFrom (accepting utc (deviceRows store req.device)).run req.startTime req.endTime true
      n).1 = .ok [(req.startTime, req.endTime, true, rangeRows req store utc)] := by
  have hrun : (accepting utc (deviceRows store req.device)).run n req.startTime req.endTime true =
      .ok (rangeRows req store utc) := rfl
  rw [slicesFrom, sliceLoop, hrun]

theorem editsV3_iff [Nontrivial V] :
    (∀ (coerced : Except String V) (server server' : Server utc (deviceRows store req.device)),
        Exact req store utc coerced (previewV3 req store server)
          (editV3 req store readMicros coerced server')) ↔
      (req.startTime ≤ req.endTime → Restampable req store utc readMicros) := by
  constructor
  · intro h hrange
    have hrows (server : Server utc (deviceRows store req.device)) {slices}
        (hslices : (slicesFrom server.run req.startTime req.endTime true 0).1 = .ok slices) :=
      rows_of_exact hrange (joined_eq_ok_iff.2 ⟨slices, hslices, rfl⟩)
        fun value => h (.ok value) server server
    have haccepted := hrows (accepting utc _) (slicesFrom_accepting 0)
    rw [List.flatMap_singleton] at haccepted
    have hcovered : Covered req store utc := covered_iff.2 haccepted.1
    refine ⟨hcovered, fun row hrow => ?_, fun key => ?_⟩
    · refine (joins_iff (deviceRows store req.device)).1 fun server slices hslices => ?_
      have hle (row : Row V) : holds utc row.1 req.startTime req.endTime true ≤
          copies utc row.1 slices := holds_le_copies hslices
      by_contra hne
      -- one row more than the range has
      have hmore := List.sum_lt_sum _ _ (fun row _ => hle row)
        ⟨row, hrow, lt_of_le_of_ne (hle row) (Ne.symm hne)⟩
      rw [← length_rangeRows, ← length_flatMap_slices hslices, (hrows server hslices).1,
        covered_iff.1 hcovered] at hmore
      exact absurd hmore (lt_irrefl _)
    · rw [← mem_selected_of_covered hcovered, ← haccepted.2, List.mem_map]
  · intro h coerced server server'
    by_cases hrange : req.startTime ≤ req.endTime
    · obtain ⟨hcovered, hjoins, hrestamped⟩ := h hrange
      refine exact_of_rows (fun n => previewV3_eq hjoins) fun _ rows hrows => ?_
      obtain ⟨slices, hslices, rfl⟩ := joined_eq_ok_iff.1 hrows
      have hcopies (row : Row V) (hrow : row ∈ deviceRows store req.device) :
          copies utc row.1 slices = holds utc row.1 req.startTime req.endTime true :=
        copies_of_joins (hjoins row hrow) hslices
      refine ⟨?_, fun key => ?_⟩
      · rw [length_flatMap_slices hslices, ← covered_iff.1 hcovered, length_rangeRows]
        exact congrArg List.sum (List.map_congr_left hcopies)
      · rw [mem_selected_of_covered hcovered, ← hrestamped, List.mem_map]
        refine exists_congr fun row => and_congr_left fun _ => ?_
        rw [mem_flatMap_slices hslices, rangeRows, List.mem_filter]
        refine and_congr_right fun hrow => ?_
        rw [hcopies row hrow, holds_pos_iff]
    · refine exact_of_rows (fun n hn => ?_) fun hle => absurd hle hrange
      rw [previewV3, if_pos (not_le.1 hrange)] at hn
      cases hn

end

/-! ## Times that come back -/

theorem nearest_error (q : ℚ) : |(nearest q : ℚ) - q| ≤ 1 / 2 := by
  have hbelow := Int.floor_le q
  have habove := Int.lt_floor_add_one q
  unfold nearest
  dsimp only
  rw [abs_le]
  split
  · next hnear =>
    have hle : q - ⌊q⌋ ≤ 1 / 2 := hnear.elim le_of_lt fun h => h.1.le
    exact ⟨by linarith, by linarith⟩
  · next hfar =>
    have hge : 1 / 2 ≤ q - ⌊q⌋ := not_lt.1 fun h => hfar (Or.inl h)
    push_cast
    exact ⟨by linarith, by linarith⟩

/-- A double is half a unit off at most. -/
theorem toDouble_error {q : ℚ} {k : Int} (h : |q| < 2 ^ k) :
    |toDouble q - q| ≤ 2 ^ (k - 54) := by
  unfold toDouble
  split
  · next hzero =>
    rw [hzero, sub_self, abs_zero]
    exact (zpow_pos two_pos _).le
  · next hne =>
    have hlog : Int.log 2 |q| < k := (Int.lt_zpow_iff_log_lt Nat.one_lt_two (abs_pos.2 hne)).1 h
    generalize hunit : (2 : ℚ) ^ (Int.log 2 |q| - 52) = unit
    have hpos : 0 < unit := hunit ▸ zpow_pos two_pos _
    have hscale : (nearest (q / unit) : ℚ) * unit - q =
        ((nearest (q / unit) : ℚ) - q / unit) * unit := by
      rw [sub_mul, div_mul_cancel₀ _ hpos.ne']
    have hhalf : 1 / 2 * unit = 2 ^ (Int.log 2 |q| - 53) := by
      rw [← hunit, show Int.log 2 |q| - 52 = Int.log 2 |q| - 53 + 1 by omega,
        zpow_add_one₀ two_ne_zero]
      ring
    dsimp only
    rw [hscale, abs_mul, abs_of_pos hpos]
    calc |(nearest (q / unit) : ℚ) - q / unit| * unit
        ≤ 1 / 2 * unit := mul_le_mul_of_nonneg_right (nearest_error _) hpos.le
      _ = 2 ^ (Int.log 2 |q| - 53) := hhalf
      _ ≤ 2 ^ (k - 54) := zpow_le_zpow_right₀ one_le_two (by omega)

theorem truncate_error (q : ℚ) : |(truncate q : ℚ) - q| < 1 := by
  unfold truncate
  split
  · rw [abs_sub_comm, abs_of_nonneg (sub_nonneg.2 (Int.floor_le q))]
    linarith [Int.lt_floor_add_one q]
  · rw [abs_of_nonneg (sub_nonneg.2 (Int.le_ceil q))]
    linarith [Int.ceil_lt_add_one q]

/-- Until 2106 a time is written less than half a microsecond off. -/
theorem nanos_error {time : Int} (hzero : 0 ≤ time) (htime : time < 2 ^ 32 * 10 ^ 6) :
    |(nanos time : ℚ) - 1000 * time| < 500 := by
  have hzero' : (0 : ℚ) ≤ time := Int.cast_nonneg hzero
  have htime' : (time : ℚ) < 2 ^ 32 * 10 ^ 6 := by exact_mod_cast htime
  have hseconds : |(time / 10 ^ 6 : ℚ)| < 2 ^ (32 : Int) := by
    rw [abs_of_nonneg (by positivity), div_lt_iff₀ (by norm_num)]
    exact_mod_cast htime'
  have hfirst := abs_le.1 (toDouble_error hseconds)
  unfold nanos
  generalize toDouble (time / 10 ^ 6 : ℚ) = seconds at hfirst ⊢
  norm_num at hfirst
  have hproduct : |seconds * 10 ^ 9| < 2 ^ (62 : Int) := by
    rw [abs_lt]
    norm_num
    constructor <;> linarith
  have hsecond := abs_le.1 (toDouble_error hproduct)
  generalize toDouble (seconds * 10 ^ 9) = product at hsecond ⊢
  norm_num at hsecond
  have hthird := abs_lt.1 (truncate_error product)
  rw [abs_lt]
  constructor <;> linarith

/-- **A point that the bridge wrote is written where it was**, if the client reads its time to the
nearest microsecond. -/
theorem restamp_nanos {readMicros : Int → Int} (hread : ∀ t, |1000 * readMicros t - t| ≤ 500)
    {time : Int} (hzero : 0 ≤ time) (htime : time < 2 ^ 32 * 10 ^ 6) :
    restamp readMicros (nanos time) = nanos time := by
  have herror := nanos_error hzero htime
  have hwritten : |nanos time - 1000 * time| < 500 := by exact_mod_cast herror
  have hback := abs_le.1 (hread (nanos time))
  have hforth := abs_lt.1 hwritten
  have hsame : readMicros (nanos time) = time := by omega
  rw [restamp, hsame]

/-- Of points that the bridge wrote, an edit on v3 takes the field and slices that join. -/
theorem restampable_of_bridge {utc readMicros : Int → Int} {req : Request} {store : Store V}
    (hread : ∀ t, |1000 * readMicros t - t| ≤ 500)
    (hbridge : ∀ row ∈ rangeRows req store utc,
      ∃ time, 0 ≤ time ∧ time < 2 ^ 32 * 10 ^ 6 ∧ row.1 = nanos time)
    (hcovered : Covered req store utc)
    (hjoins : ∀ row ∈ deviceRows store req.device, ∀ x y i,
      Piece req.startTime req.endTime true x y i → Joins utc row.1 x y i) :
    Restampable req store utc readMicros := by
  refine ⟨hcovered, hjoins, fun key => exists_congr fun row => and_congr_right fun hrow => ?_⟩
  obtain ⟨time, hzero, htime, hnanos⟩ := hbridge row hrow
  rw [Row.key, hnanos, restamp_nanos hread hzero htime]

/-! ## Both versions -/

/-- **Edits and their previews.** However the server answers: on v1 an edit is exact if and only if
every point of the device in the range has the field. On v3 the slices must hold each point of the
device as often as the range does, too, and the points of the range must be written where they were.
-/
theorem edits_exact [Nontrivial V] (utc readMicros : Int → Int) (req : Request) (store : Store V) :
    ((∀ (coerced : Except String V) (server server' : Server utc (deviceRows store req.device)),
        Exact req store utc coerced (previewV1 req store server)
          (editV1 req store coerced server')) ↔
      (req.startTime ≤ req.endTime → Covered req store utc)) ∧
    ((∀ (coerced : Except String V) (server server' : Server utc (deviceRows store req.device)),
        Exact req store utc coerced (previewV3 req store server)
          (editV3 req store readMicros coerced server')) ↔
      (req.startTime ≤ req.endTime → Restampable req store utc readMicros)) :=
  ⟨editsV1_iff, editsV3_iff⟩

/-- The series of an inverter. -/
def inverter : Tags where
  deviceIdentifier := some "inverter"
  deviceName := none
  deviceManufacturer := none
  deviceModel := none
  deviceSerialNumber := none
  transport := none

/-- A point with a power, and a later one with a state only. -/
def twoPoints : Store Int :=
  (Dict.empty.set (inverter, 1000000) fun field => if field = "power" then some 40 else none).set
    (inverter, 2000000) fun field => if field = "state" then some 1 else none

/-- The power of the first millisecond. -/
def firstPower : Request where
  device := "inverter"
  field := "power"
  startTime := 0
  endTime := 1000
  field_ne := by decide

/-- The first point alone is edited as its preview says. -/
theorem firstPower_exact :
    Exact firstPower twoPoints (fun t => t) (.ok 50)
      (previewV1 firstPower twoPoints (accepting (fun t => t) _))
      (editV1 firstPower twoPoints (.ok 50) (accepting (fun t => t) _)) := by
  have hcovered : Covered firstPower twoPoints fun t => t := by
    unfold Covered
    decide
  exact (edits_exact (fun t => t) (fun t => t / 1000) firstPower twoPoints).1.2
    (fun _ => hcovered) _ _ _

/-- In a range with both points the second one gets a power. -/
theorem bothPoints_not_exact :
    ¬Exact { firstPower with endTime := 2000 } twoPoints (fun t => t) (.ok 50)
      (previewV1 { firstPower with endTime := 2000 } twoPoints (accepting (fun t => t) _))
      (editV1 { firstPower with endTime := 2000 } twoPoints (.ok 50)
        (accepting (fun t => t) _)) := by
  intro h
  have haffected := h.affected 2 rfl
  exact absurd haffected (by decide)

end MetricEdit

end ProtocolGateway
