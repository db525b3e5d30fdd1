import ProtocolGateway.Lib.Dict
import ProtocolGateway.Text
import ProtocolGateway.Values

/-!
# The Prometheus bridge

`write_data` turns every numeric field of a transport into a sample of a metric. The name of the
metric is made from the name of the field, the labels of the sample from the names of the device
and of its protocol, and the kind of the metric from the end of the field's name. Metrics are
created when they are first needed, and the client library refuses one whose names clash with those
of an earlier metric.

Names are made smaller on the way: letters are lowered, other characters become underscores, and
labels are cut off. So two fields or two transports can end up in one series, and a field can be
refused because of another. `exposes_reported` says when every field is exposed as it was reported.
-/

namespace ProtocolGateway

namespace Prometheus

/-! ## Names and values -/

/-- The characters of a metric name. -/
def isNameChar (c : Char) : Bool := c.isAlphanum || c = '_' || c = ':'

/-- An underscore in front of a leading digit. -/
def guardDigit : List Char → List Char
  | [] => []
  | c :: cs => if c.isDigit then '_' :: c :: cs else c :: cs

/-- `_sanitize_metric_name`. -/
def sanitizeMetricName (metricPrefix rawName : String) : String :=
  let cleaned := (Text.strip rawName.toList).map fun c => if isNameChar c then c else '_'
  let cleaned := Trim.trim (· = '_') (guardDigit cleaned)
  let cleaned := if cleaned = [] then "unnamed_metric".toList else cleaned
  String.ofList (guardDigit (Text.lower (metricPrefix.toList ++ cleaned)))

/-- `text[:length]`, where a negative length counts from the end. -/
def cut (text : List Char) (length : Int) : List Char :=
  text.take (if 0 ≤ length then length.toNat else (text.length + length).toNat)

/-- `_sanitize_label_value`. -/
def sanitizeLabelValue (value : String) (maxLength : Int) : String :=
  let trimmed := Text.strip value.toList
  String.ofList (if maxLength < trimmed.length then cut trimmed maxLength else trimmed)

/-- `_coerce_metric_value`. The error of an integer that no float can hold is not caught. -/
def coerceMetricValue : PyValue → Except PyError (Option Float)
  | .int i => (roundToDouble i).map fun rounded => some (Float.ofInt rounded)
  | .float f => .ok (if f.isNaN || f.isInf then none else some f)
  | .str _ => .ok none

/-- `MetricKind`. -/
inductive MetricKind
  | gauge
  | counter
  | histogram
deriving DecidableEq, Repr

/-- What a bridge is configured to. -/
structure Settings where
  metricPrefix : String := "device_"
  includeProtocolLabel : Bool := false
  maxLabelValueLength : Int := 128
  counterSuffixes : List String := ["_total"]
  histogramFields : List String := []

/-- `_classify_metric_kind`. -/
def Settings.classify (cfg : Settings) (fieldName : String) : MetricKind :=
  if fieldName ∈ cfg.histogramFields then .histogram
  else if cfg.counterSuffixes.any (·.toList <:+ (lowerText fieldName).toList) then .counter
  else .gauge

/-- The names of a transport that the bridge reads. -/
structure Source where
  transportName : String
  deviceName : String
  protocolName : String
deriving DecidableEq, Repr

/-- `_machine_id_for`. -/
def Source.machineId (src : Source) : String :=
  if src.transportName ≠ "" then src.transportName
  else if src.deviceName ≠ "" then src.deviceName
  else "unknown_machine"

/-- The label values of a series. -/
abbrev Labels := List String

/-- A series of a metric. -/
structure Series where
  kind : MetricKind
  name : String
  labels : Labels
deriving DecidableEq, Repr

/-- The labels of the samples of a transport. -/
def Settings.labels (cfg : Settings) (src : Source) : Labels :=
  let deviceName := if src.deviceName ≠ "" then src.deviceName else src.machineId
  sanitizeLabelValue deviceName cfg.maxLabelValueLength ::
    if cfg.includeProtocolLabel then [sanitizeLabelValue src.protocolName cfg.maxLabelValueLength]
    else []

/-! ## The client library -/

/-- What the bridge relies on of `prometheus_client`: which names a metric exposes, among them the
one of its value, and which names it accepts. -/
structure Client where
  names : MetricKind → String → List String
  valueName : MetricKind → String → String
  valueName_mem : ∀ kind name, valueName kind name ∈ names kind name
  accepts : String → Bool

/-! ## The registry -/

/-- `DynamicMetricsRegistry`: the metrics of each kind with their series, the last values of the
counters, and the names that the registry of the client knows. -/
structure Metrics where
  gauges : Dict String (Dict Labels Float)
  counters : Dict String (Dict Labels Float)
  histograms : Dict String (Dict Labels (List Float))
  counterLastValue : Dict (String × Labels) Float
  registered : List String

/-- The metric has been created. -/
def Metrics.has (m : Metrics) : MetricKind → String → Prop
  | .gauge, name => name ∈ m.gauges.keys
  | .counter, name => name ∈ m.counters.keys
  | .histogram, name => name ∈ m.histograms.keys

instance (m : Metrics) (kind : MetricKind) (name : String) : Decidable (m.has kind name) :=
  match kind with
  | .gauge => inferInstanceAs (Decidable (name ∈ m.gauges.keys))
  | .counter => inferInstanceAs (Decidable (name ∈ m.counters.keys))
  | .histogram => inferInstanceAs (Decidable (name ∈ m.histograms.keys))

variable (client : Client)

/-- A new metric without series. -/
def Metrics.create (m : Metrics) (kind : MetricKind) (name : String) : Metrics :=
  let m := { m with registered := m.registered ++ client.names kind name }
  match kind with
  | .gauge => { m with gauges := m.gauges.set name Dict.empty }
  | .counter => { m with counters := m.counters.set name Dict.empty }
  | .histogram => { m with histograms := m.histograms.set name Dict.empty }

/-- `_get_or_create`, `none` for the `ValueError` of the client. -/
def Metrics.getOrCreate (m : Metrics) (kind : MetricKind) (name : String) : Option Metrics :=
  if m.has kind name then some m
  else if client.accepts name ∧ ∀ n ∈ client.names kind name, n ∉ m.registered then
    some (m.create client kind name)
  else none

/-- The next value of a counter. A sample below the last one is taken for a reset. -/
def increased (total last value : Float) : Float :=
  if last ≤ value ∧ 0 < value - last then total + (value - last) else total

/-- The sample is applied to its series. -/
def Metrics.sample (m : Metrics) (series : Series) (value : Float) : Metrics :=
  match series with
  | ⟨.gauge, name, labels⟩ => { m with gauges := m.gauges.setIn name labels value }
  | ⟨.counter, name, labels⟩ =>
    let total := (m.counters.getIn name labels).getD 0
    let next :=
      match m.counterLastValue.get? (name, labels) with
      | none => total
      | some last => increased total last value
    { m with
      counters := m.counters.setIn name labels next
      counterLastValue := m.counterLastValue.set (name, labels) value }
  | ⟨.histogram, name, labels⟩ =>
    let observed := (m.histograms.getIn name labels).getD []
    { m with histograms := m.histograms.setIn name labels (observed ++ [value]) }

variable (cfg : Settings)

/-- `record`. What the client refuses is skipped. -/
def record (m : Metrics) (fieldName : String) (value : Float) (labels : Labels) : Metrics :=
  let name := sanitizeMetricName cfg.metricPrefix fieldName
  let kind := cfg.classify fieldName
  match m.getOrCreate client kind name with
  | some m => m.sample ⟨kind, name, labels⟩ value
  | none => m

/-- The loop of `write_data`. An error ends it. -/
def writeFields (src : Source) (m : Metrics) : List (String × PyValue) → Metrics
  | [] => m
  | (fieldName, rawValue) :: fields =>
    match coerceMetricValue rawValue with
    | .error _ => m
    | .ok none => writeFields src m fields
    | .ok (some value) =>
      writeFields src (record client cfg m fieldName value (cfg.labels src)) fields

/-- `write_data`. -/
def writeData (m : Metrics) (call : Source × Dict String PyValue) : Metrics :=
  writeFields client cfg call.1 m call.2.items

/-- The bridge's own metrics, which it registers when it is made. -/
def internalMetrics : List (MetricKind × String) :=
  [(.gauge, "mpg_prometheus_bridge_scrape_duration_seconds"),
    (.gauge, "mpg_prometheus_bridge_last_scrape_timestamp_seconds"),
    (.counter, "mpg_prometheus_bridge_scrape_failures_total")]

/-- The registry of a new bridge. -/
def Metrics.new : Metrics where
  gauges := Dict.empty
  counters := Dict.empty
  histograms := Dict.empty
  counterLastValue := Dict.empty
  registered := internalMetrics.flatMap fun metric => client.names metric.1 metric.2

/-! ## Increases of a counter -/

/-- The increases from each sample to the next one. -/
def increases : List Float → List Float
  | last :: value :: values =>
    if last ≤ value ∧ 0 < value - last then (value - last) :: increases (value :: values)
    else increases (value :: values)
  | [_] => []
  | [] => []

/-- The sum of the increases, added up in the order in which they came. -/
def sumOfIncreases (values : List Float) : Float := (increases values).foldl (· + ·) 0

/-- One more sample adds one increase at most. -/
theorem increases_append (values : List Float) (last value : Float) :
    increases (values ++ [last, value]) =
      increases (values ++ [last]) ++
        if last ≤ value ∧ 0 < value - last then [value - last] else [] := by
  induction values with
  | nil =>
    rw [List.nil_append, List.nil_append, increases, increases]
    split <;> rfl
  | cons first values ih =>
    cases values with
    | nil =>
      simp only [List.nil_append, List.cons_append] at ih ⊢
      rw [increases, ih, increases]
      split <;> rfl
    | cons second values =>
      simp only [List.cons_append] at ih ⊢
      rw [increases, ih, increases]
      split <;> rfl

theorem sumOfIncreases_append (values : List Float) (last value : Float) :
    sumOfIncreases (values ++ [last, value]) =
      increased (sumOfIncreases (values ++ [last])) last value := by
  unfold sumOfIncreases increased
  rw [increases_append, List.foldl_append]
  split <;> rfl

/-! ## What a series shows -/

/-- The series shows these samples: a gauge the last one, a counter the sum of the increases, a
histogram all of them. A series without samples is not there. -/
def Metrics.Shows (m : Metrics) (values : List Float) : Series → Prop
  | ⟨.gauge, name, labels⟩ => m.gauges.getIn name labels = values.getLast?
  | ⟨.counter, name, labels⟩ =>
    m.counters.getIn name labels = (if values = [] then none else some (sumOfIncreases values)) ∧
      m.counterLastValue.get? (name, labels) = values.getLast?
  | ⟨.histogram, name, labels⟩ =>
    m.histograms.getIn name labels = if values = [] then none else some values

/-- A sample of the series is shown after the earlier ones. -/
theorem Metrics.Shows.sample {m : Metrics} {values : List Float} {series : Series}
    (h : m.Shows values series) (value : Float) :
    (m.sample series value).Shows (values ++ [value]) series := by
  obtain ⟨kind, name, labels⟩ := series
  have hne : values ++ [value] ≠ [] := by simp
  cases kind with
  | gauge =>
    show (m.gauges.setIn name labels value).getIn name labels = (values ++ [value]).getLast?
    rw [Dict.getIn_setIn, if_pos ⟨rfl, rfl⟩, List.getLast?_concat]
  | histogram =>
    show (m.histograms.setIn name labels _).getIn name labels = _
    rw [Dict.getIn_setIn, if_pos ⟨rfl, rfl⟩, if_neg hne,
      show m.histograms.getIn name labels = _ from h]
    split
    · next hnil => rw [hnil]; rfl
    · rfl
  | counter =>
    obtain ⟨htotal, hlast⟩ := h
    constructor
    · show (m.counters.setIn name labels _).getIn name labels = _
      rw [Dict.getIn_setIn, if_pos ⟨rfl, rfl⟩, if_neg hne, hlast, htotal]
      -- the first sample of a counter only sets what later ones are compared with
      rcases List.eq_nil_or_concat values with rfl | ⟨earlier, last, rfl⟩
      · rfl
      · rw [List.concat_eq_append, List.getLast?_concat, if_neg (by simp), List.append_assoc]
        exact congrArg some (sumOfIncreases_append earlier last value).symm
    · show (m.counterLastValue.set (name, labels) value).get? (name, labels) = _
      rw [Dict.get?_set, if_pos rfl, List.getLast?_concat]

/-- A sample of another series changes nothing. -/
theorem Metrics.Shows.sample_of_ne {m : Metrics} {values : List Float} {series other : Series}
    (h : m.Shows values series) (hne : series ≠ other) (value : Float) :
    (m.sample other value).Shows values series := by
  obtain ⟨kind, name, labels⟩ := series
  obtain ⟨otherKind, otherName, otherLabels⟩ := other
  by_cases hkind : kind = otherKind
  · subst hkind
    have hid : ¬(name = otherName ∧ labels = otherLabels) := by
      rintro ⟨rfl, rfl⟩
      exact hne rfl
    cases kind with
    | gauge => exact (Dict.getIn_setIn ..).trans ((if_neg hid).trans h)
    | histogram => exact (Dict.getIn_setIn ..).trans ((if_neg hid).trans h)
    | counter =>
      refine ⟨(Dict.getIn_setIn ..).trans ((if_neg hid).trans h.1), ?_⟩
      have hkey : (name, labels) ≠ (otherName, otherLabels) := fun heq =>
        hid (Prod.mk.inj heq)
      exact (Dict.get?_set ..).trans ((if_neg hkey).trans h.2)
  · -- the three kinds are kept apart
    cases kind <;> cases otherKind <;> first | exact absurd rfl hkind | exact h

/-- A series that shows something belongs to a metric. -/
theorem Metrics.Shows.has {m : Metrics} {values : List Float} {series : Series}
    (h : m.Shows values series) (hne : values ≠ []) : m.has series.kind series.name := by
  have hkey {ν : Type} {d : Dict String (Dict Labels ν)} {name : String} {labels : Labels}
      (hget : d.getIn name labels ≠ none) : name ∈ d.keys := by
    by_contra hnot
    rw [← Dict.get?_eq_none_iff] at hnot
    exact hget (by rw [Dict.getIn, hnot, Option.bind_none])
  obtain ⟨kind, name, labels⟩ := series
  cases kind with
  | gauge => exact hkey fun hnone => hne (List.getLast?_eq_none_iff.mp (h.symm.trans hnone))
  | counter => exact hkey fun hnone => by cases (h.1.symm.trans hnone).symm.trans (if_neg hne)
  | histogram => exact hkey fun hnone => by cases (h.symm.trans hnone).symm.trans (if_neg hne)

/-- A sample creates no metric. -/
theorem Metrics.has_sample {m : Metrics} {series : Series} (h : m.has series.kind series.name)
    (value : Float) (kind : MetricKind) (name : String) :
    (m.sample series value).has kind name ↔ m.has kind name := by
  obtain ⟨seriesKind, seriesName, labels⟩ := series
  by_cases hkind : kind = seriesKind
  · subst hkind
    cases kind <;> exact iff_of_eq (congrArg (name ∈ ·) (Dict.keys_set_of_mem h))
  · cases kind <;> cases seriesKind <;> first | exact absurd rfl hkind | exact Iff.rfl

theorem Metrics.registered_sample (m : Metrics) (series : Series) (value : Float) :
    (m.sample series value).registered = m.registered := by
  obtain ⟨kind, name, labels⟩ := series
  cases kind <;> rfl

variable {client}

/-- A metric that is looked up or created shows what it showed. -/
theorem Metrics.Shows.getOrCreate {m m' : Metrics} {values : List Float} {series : Series}
    {kind : MetricKind} {name : String} (h : m.Shows values series)
    (hm : m.getOrCreate client kind name = some m') : m'.Shows values series := by
  unfold Metrics.getOrCreate at hm
  split at hm
  · cases hm
    exact h
  · next hnew =>
    split at hm
    · cases hm
      obtain ⟨seriesKind, seriesName, labels⟩ := series
      cases kind <;> cases seriesKind <;> first
        | exact h
        | exact (Dict.getIn_set_empty hnew ..).trans h
        | exact ⟨(Dict.getIn_set_empty hnew ..).trans h.1, h.2⟩
    · cases hm

/-- A metric that is looked up or created is there, like those before it. -/
theorem Metrics.has_getOrCreate {m m' : Metrics} {kind : MetricKind} {name : String}
    (hm : m.getOrCreate client kind name = some m') (kind' : MetricKind) (name' : String) :
    m'.has kind' name' ↔ (kind' = kind ∧ name' = name) ∨ m.has kind' name' := by
  unfold Metrics.getOrCreate at hm
  split at hm
  · next hold =>
    cases hm
    refine ⟨Or.inr, ?_⟩
    rintro (⟨rfl, rfl⟩ | h)
    · exact hold
    · exact h
  · split at hm
    · cases hm
      by_cases hkind : kind' = kind
      · subst hkind
        have hkeys {ν : Type} {d : Dict String ν} {v : ν} :
            name' ∈ (d.set name v).keys ↔ (kind' = kind' ∧ name' = name) ∨ name' ∈ d.keys := by
          rw [Dict.mem_keys_set, eq_self_iff_true, true_and]
        cases kind' <;> exact hkeys
      · rw [eq_false hkind, false_and, false_or]
        cases kind <;> cases kind' <;> first | exact absurd rfl hkind | exact Iff.rfl
    · cases hm

/-- A metric that is looked up or created adds its own names at most. -/
theorem Metrics.registered_getOrCreate {m m' : Metrics} {kind : MetricKind} {name : String}
    (hm : m.getOrCreate client kind name = some m') {n : String} (hn : n ∈ m'.registered) :
    n ∈ m.registered ∨ n ∈ client.names kind name := by
  unfold Metrics.getOrCreate at hm
  split at hm
  · cases hm
    exact Or.inl hn
  · split at hm
    · cases hm
      refine List.mem_append.mp ?_
      cases kind <;> exact hn
    · cases hm

/-! ## Reports -/

/-- A numeric field as a transport reported it. -/
structure Report where
  source : Source
  fieldName : String
  value : PyValue

/-- Texts are not exposed. -/
def isNumeric : PyValue → Bool
  | .str _ => false
  | _ => true

/-- The numeric fields of the calls, in the order in which they came. -/
def reports (calls : List (Source × Dict String PyValue)) : List Report :=
  calls.flatMap fun call =>
    (call.2.items.filter fun kv => isNumeric kv.2).map fun kv => ⟨call.1, kv.1, kv.2⟩

/-- The number that was reported, as a float. -/
def Report.number (r : Report) : Float :=
  match r.value with
  | .int i => Float.ofInt i
  | .float f => f
  | .str _ => 0

/-- A float that is shown holds exactly the number that was reported. -/
def Report.Representable (r : Report) : Prop :=
  match r.value with
  | .int i => roundToDouble i = .ok i
  | .float f => (f.isNaN || f.isInf) = false
  | .str _ => False

/-- The series of a field. -/
def Settings.series (src : Source) (fieldName : String) : Series :=
  ⟨cfg.classify fieldName, sanitizeMetricName cfg.metricPrefix fieldName, cfg.labels src⟩

/-- The numbers that a transport reported for a field. -/
def samples (reported : List Report) (src : Source) (fieldName : String) : List Float :=
  (reported.filter fun r => r.source = src ∧ r.fieldName = fieldName).map Report.number

/-- A report is recorded. -/
def recordReport (client : Client) (m : Metrics) (r : Report) : Metrics :=
  record client cfg m r.fieldName r.number (cfg.labels r.source)

theorem coerce_of_representable {r : Report} (h : r.Representable) :
    coerceMetricValue r.value = .ok (some r.number) := by
  obtain ⟨src, fieldName, value⟩ := r
  cases value with
  | int i =>
    rw [coerceMetricValue, show roundToDouble i = .ok i from h]
    rfl
  | float f => exact congrArg Except.ok (if_neg (ne_true_of_eq_false h))
  | str s => exact h.elim

variable {cfg}

/-- The loop records the numeric fields. -/
theorem writeFields_eq {src : Source} {fields : List (String × PyValue)}
    (h : ∀ kv ∈ fields, isNumeric kv.2 → Report.Representable ⟨src, kv.1, kv.2⟩) (m : Metrics) :
    writeFields client cfg src m fields =
      ((fields.filter fun kv => isNumeric kv.2).map fun kv => (⟨src, kv.1, kv.2⟩ : Report)).foldl
        (recordReport cfg client) m := by
  induction fields generalizing m with
  | nil => rfl
  | cons kv fields ih =>
    obtain ⟨fieldName, value⟩ := kv
    have hrest := ih fun kv hkv => h kv (List.mem_cons_of_mem _ hkv)
    by_cases hnum : isNumeric value
    · have hcoerce := coerce_of_representable (h _ List.mem_cons_self hnum)
      rw [writeFields, hcoerce, List.filter_cons, if_pos hnum, List.map_cons, List.foldl_cons]
      exact hrest _
    · rw [writeFields, List.filter_cons, if_neg hnum]
      cases value with
      | str s => exact hrest m
      | int i => exact absurd rfl hnum
      | float f => exact absurd rfl hnum

/-- The calls record what was reported. -/
theorem foldl_writeData {calls : List (Source × Dict String PyValue)}
    (h : ∀ r ∈ reports calls, r.Representable) (m : Metrics) :
    calls.foldl (writeData client cfg) m = (reports calls).foldl (recordReport cfg client) m := by
  induction calls generalizing m with
  | nil => rfl
  | cons call calls ih =>
    rw [reports, List.flatMap_cons] at h ⊢
    rw [List.foldl_cons, List.foldl_append, writeData, writeFields_eq]
    · exact ih (fun r hr => h r (List.mem_append_right _ hr)) _
    · intro kv hkv hnum
      refine h _ (List.mem_append_left _ (List.mem_map.mpr ⟨kv, ?_, rfl⟩))
      exact List.mem_filter.mpr ⟨hkv, hnum⟩

/-! ## What the registry holds after some reports -/

variable (cfg)

/-- The series that a report belongs to. -/
def Settings.seriesOf (r : Report) : Series := cfg.series r.source r.fieldName

/-- The names that the metric of a series exposes. -/
def Series.names (client : Client) (series : Series) : List String :=
  client.names series.kind series.name

variable (client)

/-- The registry has the metrics of the reports, and each series shows its reports. -/
structure Follows (rs : List Report) (m : Metrics) : Prop where
  has_iff : ∀ kind name, m.has kind name ↔
    ∃ r ∈ rs, kind = (cfg.seriesOf r).kind ∧ name = (cfg.seriesOf r).name
  registered : ∀ n ∈ m.registered, n ∈ (Metrics.new client).registered ∨
    ∃ r ∈ rs, n ∈ (cfg.seriesOf r).names client
  shows : ∀ series, m.Shows ((rs.filter (cfg.seriesOf · = series)).map Report.number) series

/-- What the client accepts and what no earlier metric stands in the way of is not refused. -/
structure Fits (rs : List Report) (r : Report) : Prop where
  accepted : client.accepts (cfg.seriesOf r).name
  internal : ∀ n ∈ (cfg.seriesOf r).names client, n ∉ (Metrics.new client).registered
  others : ∀ r' ∈ rs,
    ((cfg.seriesOf r).kind = (cfg.seriesOf r').kind ∧
      (cfg.seriesOf r).name = (cfg.seriesOf r').name) ∨
    ∀ n ∈ (cfg.seriesOf r).names client, n ∉ (cfg.seriesOf r').names client

variable {client cfg}

/-- A new registry follows no reports. -/
theorem follows_nil : Follows client cfg [] (Metrics.new client) where
  has_iff kind name := by
    refine iff_of_false (fun h => ?_) (by simp)
    cases kind <;> exact List.not_mem_nil h
  registered n hn := Or.inl hn
  shows series := by
    obtain ⟨kind, name, labels⟩ := series
    cases kind <;> first | exact rfl | exact ⟨rfl, rfl⟩

/-- The metric of a report that fits is there or can be created. -/
theorem Follows.exists_getOrCreate {rs : List Report} {m : Metrics} (h : Follows client cfg rs m)
    {r : Report} (hfits : Fits client cfg rs r) :
    ∃ m', m.getOrCreate client (cfg.seriesOf r).kind (cfg.seriesOf r).name = some m' := by
  unfold Metrics.getOrCreate
  split
  · exact ⟨_, rfl⟩
  · next hnew =>
    rw [if_pos]
    · exact ⟨_, rfl⟩
    · refine ⟨hfits.accepted, fun n hn hreg => ?_⟩
      rcases h.registered n hreg with hinternal | ⟨r', hr', hn'⟩
      · exact hfits.internal n hn hinternal
      · rcases hfits.others r' hr' with heq | hdisjoint
        · exact hnew ((h.has_iff _ _).mpr ⟨r', hr', heq⟩)
        · exact hdisjoint n hn hn'

/-- A report that fits is recorded. -/
theorem Follows.recordReport {rs : List Report} {m : Metrics} (h : Follows client cfg rs m)
    {r : Report} (hfits : Fits client cfg rs r) :
    Follows client cfg (rs ++ [r]) (recordReport cfg client m r) := by
  obtain ⟨m', hm⟩ := h.exists_getOrCreate hfits
  have hrecord : Prometheus.recordReport cfg client m r = m'.sample (cfg.seriesOf r) r.number := by
    unfold Prometheus.recordReport record
    dsimp only
    rw [show m.getOrCreate client (cfg.classify r.fieldName)
      (sanitizeMetricName cfg.metricPrefix r.fieldName) = some m' from hm]
    rfl
  have hhas := Metrics.has_getOrCreate hm
  rw [hrecord]
  refine ⟨fun kind name => ?_, fun n hn => ?_, fun series => ?_⟩
  · rw [Metrics.has_sample ((hhas _ _).mpr (Or.inl ⟨rfl, rfl⟩)), hhas, h.has_iff]
    simp only [List.mem_append, List.mem_singleton]
    constructor
    · rintro (heq | ⟨r', hr', heq⟩)
      · exact ⟨r, Or.inr rfl, heq⟩
      · exact ⟨r', Or.inl hr', heq⟩
    · rintro ⟨r', hr' | rfl, heq⟩
      · exact Or.inr ⟨r', hr', heq⟩
      · exact Or.inl heq
  · rw [Metrics.registered_sample] at hn
    rcases Metrics.registered_getOrCreate hm hn with hold | hnew
    · rcases h.registered n hold with hinternal | ⟨r', hr', hn'⟩
      · exact Or.inl hinternal
      · exact Or.inr ⟨r', List.mem_append_left _ hr', hn'⟩
    · exact Or.inr ⟨r, List.mem_append_right _ (List.mem_singleton_self _), hnew⟩
  · have hshows := (h.shows series).getOrCreate hm
    rw [List.filter_append, List.map_append]
    by_cases hseries : cfg.seriesOf r = series
    · rw [List.filter_cons_of_pos (by simpa using hseries), ← hseries]
      rw [← hseries] at hshows
      exact hshows.sample r.number
    · rw [List.filter_cons_of_neg (by simpa using hseries), List.filter_nil, List.map_nil,
        List.append_nil]
      exact hshows.sample_of_ne (Ne.symm hseries) r.number

/-- After reports that each fit with the ones before them the registry follows them. -/
theorem follows_foldl {rs : List Report}
    (h : ∀ before r after, rs = before ++ r :: after → Fits client cfg before r) :
    Follows client cfg rs (rs.foldl (recordReport cfg client) (Metrics.new client)) := by
  induction rs using List.reverseRecOn with
  | nil => exact follows_nil
  | append_singleton rs r ih =>
    rw [List.foldl_append]
    refine (ih fun before r' after heq => ?_).recordReport (h rs r [] rfl)
    exact h before r' (after ++ [r]) (by rw [heq]; simp)

/-! ## Which runs are exposed -/

variable (client cfg)

/-- What was reported is exposed: every number is held exactly, every field has its samples in its
series, and the series of two fields differ in the name of their value or in the labels. -/
structure Exposes (rs : List Report) (m : Metrics) : Prop where
  exact : ∀ r ∈ rs, r.Representable
  shown : ∀ r ∈ rs, m.Shows (samples rs r.source r.fieldName) (cfg.series r.source r.fieldName)
  apart : ∀ r ∈ rs, ∀ r' ∈ rs, (r.source, r.fieldName) ≠ (r'.source, r'.fieldName) →
    (client.valueName (cfg.seriesOf r).kind (cfg.seriesOf r).name, (cfg.seriesOf r).labels) ≠
      (client.valueName (cfg.seriesOf r').kind (cfg.seriesOf r').name, (cfg.seriesOf r').labels)

/-- The reports can be exposed together: a float holds each number, the client accepts each name,
no metric has a name that another one or the bridge itself needs, and no two fields have the same
series. -/
structure Compatible (rs : List Report) : Prop where
  representable : ∀ r ∈ rs, r.Representable
  accepted : ∀ r ∈ rs, client.accepts (cfg.seriesOf r).name
  internal : ∀ r ∈ rs, ∀ n ∈ (cfg.seriesOf r).names client, n ∉ (Metrics.new client).registered
  others : ∀ r ∈ rs, ∀ r' ∈ rs,
    ((cfg.seriesOf r).kind = (cfg.seriesOf r').kind ∧
      (cfg.seriesOf r).name = (cfg.seriesOf r').name) ∨
    ∀ n ∈ (cfg.seriesOf r).names client, n ∉ (cfg.seriesOf r').names client
  series : ∀ r ∈ rs, ∀ r' ∈ rs, cfg.seriesOf r = cfg.seriesOf r' →
    (r.source, r.fieldName) = (r'.source, r'.fieldName)

variable {client cfg}

/-- A field that is exposed is not refused. -/
theorem Exposes.has {rs : List Report} {m : Metrics} (h : Exposes client cfg rs m) {r : Report}
    (hr : r ∈ rs) : m.has (cfg.seriesOf r).kind (cfg.seriesOf r).name := by
  have hne : samples rs r.source r.fieldName ≠ [] :=
    List.ne_nil_of_mem (List.mem_map_of_mem (List.mem_filter.mpr ⟨hr, by simp⟩))
  exact (h.shown r hr).has hne

/-- Fewer reports are compatible, too. -/
theorem Compatible.mono {rs rs' : List Report} (h : Compatible client cfg rs)
    (hsub : ∀ r ∈ rs', r ∈ rs) : Compatible client cfg rs' where
  representable r hr := h.representable r (hsub r hr)
  accepted r hr := h.accepted r (hsub r hr)
  internal r hr := h.internal r (hsub r hr)
  others r hr r' hr' := h.others r (hsub r hr) r' (hsub r' hr')
  series r hr r' hr' := h.series r (hsub r hr) r' (hsub r' hr')

/-- Among compatible reports the samples of a field are those of its series. -/
theorem Compatible.samples_eq {rs : List Report} (h : Compatible client cfg rs) {r : Report}
    (hr : r ∈ rs) :
    samples rs r.source r.fieldName =
      (rs.filter (cfg.seriesOf · = cfg.seriesOf r)).map Report.number := by
  unfold samples
  refine congrArg (List.map Report.number) (List.filter_congr fun r' hr' => ?_)
  refine decide_eq_decide.mpr ⟨fun heq => ?_, fun heq => ?_⟩
  · unfold Settings.seriesOf
    rw [heq.1, heq.2]
  · exact Prod.mk.inj (h.series r' hr' r hr heq)

/-- Compatible reports are exposed. -/
theorem Compatible.exposes {rs : List Report} (h : Compatible client cfg rs) :
    Exposes client cfg rs (rs.foldl (recordReport cfg client) (Metrics.new client)) := by
  have hfollows : Follows client cfg rs _ := follows_foldl fun before r after heq => by
    have hr : r ∈ rs := by rw [heq]; simp
    have hbefore : ∀ r' ∈ before, r' ∈ rs := fun r' hr' => by
      rw [heq]
      exact List.mem_append_left _ hr'
    exact ⟨h.accepted r hr, h.internal r hr, fun r' hr' => h.others r hr r' (hbefore r' hr')⟩
  refine ⟨h.representable, fun r hr => ?_, fun r hr r' hr' hne heq => ?_⟩
  · rw [h.samples_eq hr]
    exact hfollows.shows (cfg.seriesOf r)
  · obtain ⟨hname, hlabels⟩ := Prod.mk.inj heq
    rcases h.others r hr r' hr' with ⟨hkind, hmetric⟩ | hdisjoint
    · -- two series of one metric have different labels
      refine hne (h.series r hr r' hr' ?_)
      exact Series.mk.injEq .. ▸ ⟨hkind, hmetric, hlabels⟩
    · refine hdisjoint _ (client.valueName_mem _ _) ?_
      rw [hname]
      exact client.valueName_mem _ _

theorem reports_append (calls calls' : List (Source × Dict String PyValue)) :
    reports (calls ++ calls') = reports calls ++ reports calls' :=
  List.flatMap_append

/-- **The bridge exposes what was reported**, after each call of a run whose reports are
compatible. -/
theorem exposes_reported {calls : List (Source × Dict String PyValue)}
    (h : Compatible client cfg (reports calls)) {done : List (Source × Dict String PyValue)}
    (hdone : done <+: calls) :
    Exposes client cfg (reports done) (done.foldl (writeData client cfg) (Metrics.new client)) := by
  obtain ⟨rest, rfl⟩ := hdone
  have hcompatible : Compatible client cfg (reports done) := h.mono fun r hr => by
    rw [reports_append]
    exact List.mem_append_left _ hr
  rw [foldl_writeData hcompatible.representable]
  exact hcompatible.exposes

/-! ## The client of the bridge -/

/-- The name of a counter without the ending that the client gives to every counter. -/
def counterBase (name : String) : String :=
  if "_total".toList <:+ name.toList then String.ofList (name.toList.take (name.length - 6))
  else name

/-- The characters of a metric name after the first one, and the first one. -/
def validMetricName : List Char → Bool
  | [] => false
  | c :: cs => isNameChar c && !c.isDigit && cs.all isNameChar

/-- `prometheus_client`, as far as it is documented. -/
def prometheusClient : Client where
  names
    | .gauge, name => [name]
    | .counter, name =>
      [counterBase name, counterBase name ++ "_total", counterBase name ++ "_created"]
    | .histogram, name =>
      [name, name ++ "_bucket", name ++ "_sum", name ++ "_count", name ++ "_created"]
  valueName
    | .gauge, name => name
    | .counter, name => counterBase name ++ "_total"
    | .histogram, name => name ++ "_sum"
  valueName_mem kind name := by cases kind <;> simp
  accepts name := validMetricName name.toList

/-- A meter and an inverter. -/
def meter : Source := ⟨"transport.meter", "Meter", "meter_v1"⟩

def inverter : Source := ⟨"transport.inverter", "Inverter", "inverter_v1"⟩

/-- Both report a voltage, the meter also a total. -/
def plainCalls : List (Source × Dict String PyValue) :=
  [(meter, ⟨[("voltage", .int 230), ("energy_total", .int 5)], by decide⟩),
    (inverter, ⟨[("voltage", .int 231)], by decide⟩),
    (meter, ⟨[("energy_total", .int 9)], by decide⟩)]

theorem exposes_plainCalls :
    Exposes prometheusClient {} (reports plainCalls)
      (plainCalls.foldl (writeData prometheusClient {}) (Metrics.new prometheusClient)) := by
  have hcompatible : Compatible prometheusClient {} (reports plainCalls) := by
    refine ⟨?_, ?_, ?_, ?_, ?_⟩
    · refine List.forall_mem_cons.mpr ⟨roundToDouble_of_lt (by decide), ?_⟩
      refine List.forall_mem_cons.mpr ⟨roundToDouble_of_lt (by decide), ?_⟩
      refine List.forall_mem_cons.mpr ⟨roundToDouble_of_lt (by decide), ?_⟩
      exact List.forall_mem_singleton.mpr (roundToDouble_of_lt (by decide))
    · decide +kernel
    · decide +kernel
    · decide +kernel
    · decide +kernel
  exact exposes_reported hcompatible List.prefix_rfl

/-- The meter reports a total and a rate under one name. -/
def totalFirst : List (Source × Dict String PyValue) :=
  [(meter, ⟨[("energy_total", .int 5), ("energy", .int 7)], by decide⟩)]

/-- The rate comes first. -/
def rateFirst : List (Source × Dict String PyValue) :=
  [(meter, ⟨[("energy", .int 7), ("energy_total", .int 5)], by decide⟩)]

/-- Two transports with one device name report a voltage. -/
def twins : List (Source × Dict String PyValue) :=
  [(⟨"transport.left", "Inverter", "v1"⟩, ⟨[("voltage", .int 230)], by decide⟩),
    (⟨"transport.right", "Inverter", "v1"⟩, ⟨[("voltage", .int 231)], by decide⟩)]

/-- Whichever of the total and the rate comes first, the client refuses the other one, and twins
share a series. -/
theorem not_exposes :
    ¬Exposes prometheusClient {} (reports totalFirst)
      (totalFirst.foldl (writeData prometheusClient {}) (Metrics.new prometheusClient)) ∧
    ¬Exposes prometheusClient {} (reports rateFirst)
      (rateFirst.foldl (writeData prometheusClient {}) (Metrics.new prometheusClient)) ∧
    ¬Exposes prometheusClient {} (reports twins)
      (twins.foldl (writeData prometheusClient {}) (Metrics.new prometheusClient)) := by
  refine ⟨fun h => ?_, fun h => ?_, fun h => ?_⟩
  · have hrate : (⟨meter, "energy", .int 7⟩ : Report) ∈ reports totalFirst :=
      List.mem_cons_of_mem _ List.mem_cons_self
    exact absurd (h.has hrate) (by decide +kernel)
  · have htotal : (⟨meter, "energy_total", .int 5⟩ : Report) ∈ reports rateFirst :=
      List.mem_cons_of_mem _ List.mem_cons_self
    exact absurd (h.has htotal) (by decide +kernel)
  · refine h.apart _ List.mem_cons_self _ (List.mem_cons_of_mem _ List.mem_cons_self) ?_ ?_
    · decide +kernel
    · decide +kernel

end Prometheus

end ProtocolGateway
