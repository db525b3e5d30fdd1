import ProtocolGateway.ReadPlan
import ProtocolGateway.Values
import ProtocolGateway.Lib.Dict
import ProtocolGateway.Lib.Outcomes

/-!
# Template rows

`load__registry` for maps whose rows use anchors. A template row has a `[...]` expression in its
register cell, or the token `{i}` in one of its cells, and stands for as many rows as the anchors
say. Every row it is expanded to goes through `process_row` like a plain one, and leaves its code
table behind in `codes`.

The loader reads the anchors and the code tables of the instance and nothing else, so it is a
function of these: `loadRegistry` starts from an empty `LoadState`, and the instance takes over what
was collected. An exception carries what was collected before it.
-/

namespace ProtocolGateway

open Outcomes

/-! ## Rows -/

/-- A row as `csv.DictReader` reads it. -/
structure CsvRow where
  cells : Dict String String
  /-- the cells beyond the header, filed under `None` -/
  extra : List String := []

/-- The text starts with `#`. -/
def isComment (text : String) : Bool := text.toList.head? = some '#'

/-- `text.strip().lower().replace(" ", "_")`. -/
def columnKey (text : String) : String :=
  String.ofList ((Text.lower (Text.strip text.toList)).map fun c => if c = ' ' then '_' else c)

/-- `text.replace("__", "_")`. -/
def singleUnderscores : List Char → List Char
  | '_' :: '_' :: cs => '_' :: singleUnderscores cs
  | c :: cs => c :: singleUnderscores cs
  | [] => []

/-- `text.strip("\r")`. -/
def stripReturns (text : String) : String :=
  let cs := text.toList.dropWhile (· = '\r')
  String.ofList (cs.reverse.dropWhile (· = '\r')).reverse

namespace CsvRow

/-- `row.get(key) or ""`. -/
def cell (row : CsvRow) (key : String) : String := (row.cells.get? key).getD ""

/-- `row[key]`. -/
def item (row : CsvRow) (key : String) : Except PyError String :=
  match row.cells.get? key with
  | some text => .ok text
  | none => .error .keyError

/-- `row[key] = text`. -/
def set (row : CsvRow) (key text : String) : CsvRow := { row with cells := row.cells.set key text }

end CsvRow

/-- What loading leaves to the parsers of single cells. -/
structure RowHost where
  /-- `evaluate_expressions` -/
  evaluateExpressions : String → (String → Option PyValue) → Except PyError (List String)
  /-- the columns but names, register and code table: the interval is read before the overrides,
  the others after them -/
  columns : CsvRow → CsvRow → Except PyError Row
  /-- `json.loads` -/
  parseJson : String → Option Json
  /-- the `read command` column -/
  readCommand : String → Except PyError Unit

/-! ## Templates -/

/-- `_TEMPLATE_ROW_KEYS`. -/
def templateRowKeys : List String :=
  ["register", "variable name", "documented name", "adjustments", "note"]

/-- `_INSTANCE_TOKEN in text`. -/
def hasInstanceToken : List Char → Bool
  | '{' :: 'i' :: '}' :: _ => true
  | _ :: cs => hasInstanceToken cs
  | [] => false

/-- `text.replace(_INSTANCE_TOKEN, instance)`. -/
def replaceInstanceToken (index : List Char) : List Char → List Char
  | '{' :: 'i' :: '}' :: cs => index ++ replaceInstanceToken index cs
  | c :: cs => c :: replaceInstanceToken index cs
  | [] => []

/-- The characters of an anchor name. -/
def isNameChar (c : Char) : Bool := c.isAlphanum || c = '_'

/-- `_INSTANCE_STEM_REGEX` at the start of a text: the token cannot be inside a name, so the name
that the text starts with has to end right before it. -/
def stemAt (s : List Char) : Option (List Char) :=
  match s.span isNameChar with
  | (name, '{' :: 'i' :: '}' :: '_' :: _) =>
    if name.head?.any (fun c => !c.isDigit) && name.getLast? = some '_' && 2 ≤ name.length then
      some name.dropLast
    else none
  | _ => none

/-- `_INSTANCE_STEM_REGEX.search`. -/
def findStem : List Char → Option (List Char)
  | [] => none
  | c :: cs => (stemAt (c :: cs)).orElse fun _ => findStem cs

/-- `int(anchors.get(name, 0))`, where what is not a number counts as zero. -/
def instanceCount (anchors : String → Option PyValue) (name : String) : Except PyError Int :=
  match ((anchors name).getD (.int 0)).toInt with
  | .error .valueError | .error .typeError => .ok 0
  | count => count

namespace CsvRow

variable (row : CsvRow) (host : RowHost) (anchors : String → Option PyValue)

/-- `{i}` is in one of the cells. -/
def usesInstance : Bool := templateRowKeys.any fun key => hasInstanceToken (row.cell key).toList

/-- The stripped register cell. -/
def registerText : List Char := Text.strip (row.cell "register").toList

/-- The row has to be expanded. -/
def isTemplate : Bool :=
  (row.usesInstance || row.registerText.contains '[') &&
    !(row.registerText.head? = some '#' || isComment (row.cell "variable name"))

/-- The instances of a template, `none` for the only one of a row without the token. -/
def instances : Except PyError (List (Option Int)) :=
  if row.usesInstance then
    match findStem row.registerText with
    | none => .ok []
    | some stem => (instanceCount anchors (String.ofList stem ++ "_count")).map fun count =>
      (Cell.ascending 1 count.toNat).map some
  else .ok [none]

/-- The row of one instance. -/
def instanceRow : Option Int → CsvRow
  | none => row
  | some i => templateRowKeys.foldl (fun row key => row.set key
      (String.ofList (replaceInstanceToken (toString i).toList (row.cell key).toList))) row

/-- The row of one instance, with its register if that is known. -/
def expandInstance (index : Option Int) : Except PyError CsvRow := do
  let newRow := row.instanceRow index
  match ← host.evaluateExpressions (newRow.cell "register") anchors with
  | [register] =>
    if '[' ∈ register.toList then return newRow
    else return (newRow.set "register" register).set "_dynamic" "1"
  | _ => return newRow

/-- `_expand_template_row`. -/
def expandTemplateRow : Except PyError (List CsvRow) :=
  if row.isTemplate then do (← row.instances anchors).mapM (row.expandInstance host anchors)
  else .ok [row]

end CsvRow

/-! ## Overrides -/

/-- `override_keys`. -/
def overrideKeys : List String := ["documented name", "register"]

/-- `load_registry_overrides`, for one of the keys. -/
def overrideIndex (overrides : List CsvRow) (key : String) : Dict String CsvRow :=
  let rows := overrides.map fun row => overrideKeys.foldl (fun row key =>
    if row.cells.get? key = none then row else row.set key (columnKey (row.cell key))) row
  rows.foldl (fun index row => if row.cell key = "" then index else index.set (row.cell key) row)
    Dict.empty

/-- The row with the cells of the override that names it, and the name by which it was found. -/
def CsvRow.applyOverrides (row : CsvRow) (overrides : Option (List CsvRow)) :
    CsvRow × Option String :=
  let found := overrides.bind fun overrides => overrideKeys.findSome? fun key =>
    if row.cell key = "" then none
    else ((overrideIndex overrides key).get? (row.cell key)).map fun o => (o, row.cell key)
  match found with
  | none => (row, none)
  | some (override, key) =>
    (override.cells.items.foldl
      (fun row cell => if cell.2 = "" then row else row.set cell.1 cell.2) row, some key)

/-! ## Loading a file -/

/-- What one run of the loader collects. -/
structure LoadState where
  codes : Codes
  /-- a template row was seen -/
  template : Bool := false
  /-- the rows that go to `dynamic_registry_rows` -/
  deferred : List CsvRow := []
  textKeyIds : List String := []
  /-- `overrided_keys` -/
  overriddenKeys : List String := []
  entries : List RegistryMapEntry := []

/-- A computation that keeps what was collected when it raises. -/
abbrev Loading (σ : Type) := Except (PyError × LoadState) σ

/-- The file of a register map. -/
inductive MapFile
  | missing
  /-- opening it, or reading its header, raises -/
  | unreadable (err : PyError)
  /-- its rows, and those of the override file next to it -/
  | readable (rows : List CsvRow) (overrides : Option (List CsvRow))

/-- `find_protocol_file` finds nothing. -/
def MapFile.isMissing : MapFile → Bool
  | .missing => true
  | .unreadable _ | .readable _ _ => false

/-- `process_row` up to the overrides: `none` for a row that is left out. -/
def readRow (row : CsvRow) : Except PyError (Option CsvRow) :=
  if row.extra ≠ [] then .error .attributeError
  else do
    let row := { row with cells := row.cells.mapValues fun _ text => stripReturns text }
    if isComment (← row.item "variable name") then return none
    else if isComment (← row.item "register") then return none
    else if row.cell "register" = "" ∧ row.cell "variable name" = "" ∧
        row.cell "documented name" = "" then return none
    else return some (row.set "documented name" (columnKey (← row.item "documented name")))

/-- The variable name of a row. -/
def CsvRow.variableName (row : CsvRow) : String :=
  let name := if row.cell "variable name" ≠ "" then row.cell "variable name"
    else row.cell "documented name"
  String.ofList (singleUnderscores (columnKey name).toList)

namespace LoadState

variable (host : RowHost) (settings : ProtocolSettings) (registryType : RegistryType)
  (overrides : Option (List CsvRow)) (anchors : String → Option PyValue)

/-- The code table of a `values` cell. The first table of a name stays. -/
def addCodes (s : LoadState) (row : CsvRow) : LoadState :=
  if '{' ∈ (row.cell "values").toList then
    match host.parseJson (row.cell "values") with
    | none => s
    | some table =>
      let name := row.cell "documented name" ++ "_codes"
      if (s.codes.lookup name).isSome then s else { s with codes := s.codes ++ [(name, table)] }
  else s

/-- `process_row` from the register on. -/
def addEntries (s : LoadState) (row : CsvRow) (columns : Row) : Loading LoadState :=
  let parsed := { columns with
    cell := row.cell "register"
    variableName := row.variableName
    documentedName := row.cell "documented name" }
  match parsed.registerFields settings.textKeys s.textKeyIds with
  | (.raises, _) => .error (.valueError, s)
  | (.skip, _) => .ok s
  | (.deferred, _) => .ok { s with deferred := s.deferred ++ [row] }
  | (.fields f, ids) =>
    let s := { s with textKeyIds := ids }
    match host.readCommand (row.cell "read command") with
    | .error err => .error (err, s)
    | .ok _ =>
      let n := if f.concatenateRegisters = [] then 1 else f.concatenateRegisters.length
      .ok { s with entries := s.entries ++ (List.range n).map (parsed.entry registryType f) }

/-- `process_row`. -/
def processRow (s : LoadState) (row : CsvRow) : Loading LoadState :=
  match readRow row with
  | .error err => .error (err, s)
  | .ok none => .ok s
  | .ok (some read) =>
    let (row, key) := read.applyOverrides overrides
    let s := { s with overriddenKeys := s.overriddenKeys ++ key.toList }
    match host.columns read row with
    | .error err => .error (err, s)
    | .ok columns =>
      if row.variableName = "" ∧ row.cell "documented name" = "" then .ok s
      else (s.addCodes host row).addEntries host settings registryType row columns

/-- A row of the file. -/
def processFileRow (s : LoadState) (row : CsvRow) : Loading LoadState :=
  let s := { s with template := s.template || row.isTemplate }
  match row.expandTemplateRow host anchors with
  | .error err => .error (err, s)
  | .ok rows => rows.foldlM (processRow host settings registryType overrides) s

/-- The first override row that no row of the file used, for one of the keys. -/
def processUnusedOverride (s : LoadState) (key : String) : Loading LoadState :=
  let unused := fun row : CsvRow => overrideKeys.all fun key =>
    row.cell key ≠ "" && row.cell key ∉ s.overriddenKeys
  match (((overrides.map fun rows => (overrideIndex rows key).items).getD []).find? fun kv =>
      unused kv.2) with
  | none => .ok s
  | some (_, row) => do
    let s ← s.processRow host settings registryType overrides row
    return { s with overriddenKeys := s.overriddenKeys ++ overrideKeys.map row.cell }

end LoadState

/-- `load__registry`: what was collected, and the entries of the map. -/
def loadRegistryFile (host : RowHost) (settings : ProtocolSettings) (registryType : RegistryType)
    (file : MapFile) (codes : Codes) (anchors : String → Option PyValue) :
    Loading (LoadState × List RegistryMapEntry) :=
  match file with
  | .missing => .ok ({ codes }, [])
  | .unreadable err => .error (err, { codes })
  | .readable rows overrides => do
    let s ← rows.foldlM (LoadState.processFileRow host settings registryType overrides anchors)
      { codes }
    let s ← overrideKeys.foldlM
      (LoadState.processUnusedOverride host settings registryType overrides) s
    let ps := { settings with codes := s.codes }
    return (s, ps.addCodeDescriptionEntries (ps.applyFilters (ProtocolSettings.mergePairs s.entries)))

/-! ## Templates of a file -/

namespace LoadState

variable {host : RowHost} {settings : ProtocolSettings} {registryType : RegistryType}
  {overrides : Option (List CsvRow)} {anchors : String → Option PyValue}

theorem template_addCodes (s : LoadState) (row : CsvRow) :
    (s.addCodes host row).template = s.template := by
  unfold addCodes
  split
  · split
    · rfl
    · dsimp only
      split <;> rfl
  · rfl

/-- Processing a row finds no template. -/
theorem template_processRow {s s' : LoadState} {row : CsvRow}
    (h : s.processRow host settings registryType overrides row = .ok s') :
    s'.template = s.template := by
  unfold processRow at h
  split at h
  · cases h
  · rw [← Except.ok.inj h]
  · dsimp only at h
    split at h
    · cases h
    · split at h
      · rw [← Except.ok.inj h]
      · unfold addEntries at h
        dsimp only at h
        split at h
        · cases h
        · rw [← Except.ok.inj h, template_addCodes]
        · rw [← Except.ok.inj h]
          exact template_addCodes _ _
        · split at h
          · cases h
          · rw [← Except.ok.inj h]
            exact template_addCodes _ _

/-- A row of the file is a template or not. -/
theorem template_processFileRow {s s' : LoadState} {row : CsvRow}
    (h : s.processFileRow host settings registryType overrides anchors row = .ok s') :
    s'.template = (s.template || row.isTemplate) := by
  unfold processFileRow at h
  dsimp only at h
  split at h
  · cases h
  · refine foldlM_preserves (fun t => t.template = (s.template || row.isTemplate)) ?_ rfl h
    exact fun _ _ t t' ht hstep => (template_processRow hstep).trans ht

theorem template_rows {rows : List CsvRow} {s s' : LoadState}
    (h : rows.foldlM (processFileRow host settings registryType overrides anchors) s = .ok s') :
    s'.template = (s.template || rows.any CsvRow.isTemplate) := by
  induction rows generalizing s with
  | nil => rw [← Except.ok.inj h, List.any_nil, Bool.or_false]
  | cons row rows ih =>
    rw [List.foldlM_cons] at h
    obtain ⟨between, hbetween, hrest⟩ := bind_eq_ok_iff.mp h
    rw [ih hrest, template_processFileRow hbetween, List.any_cons, Bool.or_assoc]

end LoadState

/-- The file has a template row. -/
def MapFile.hasTemplate : MapFile → Bool
  | .readable rows _ => rows.any CsvRow.isTemplate
  | .missing | .unreadable _ => false

/-- A load that returns has seen the templates of the file. -/
theorem template_loadRegistryFile {host : RowHost} {settings : ProtocolSettings}
    {registryType : RegistryType} {file : MapFile} {codes : Codes}
    {anchors : String → Option PyValue} {s : LoadState} {items : List RegistryMapEntry}
    (h : loadRegistryFile host settings registryType file codes anchors = .ok (s, items)) :
    s.template = file.hasTemplate := by
  unfold loadRegistryFile at h
  cases file with
  | missing =>
    rw [← (Prod.mk.inj (Except.ok.inj h)).1]
    rfl
  | unreadable err => cases h
  | readable rows overrides =>
    obtain ⟨read, hread, h⟩ := bind_eq_ok_iff.mp h
    obtain ⟨finished, hfinished, h⟩ := bind_eq_ok_iff.mp h
    rw [← (Prod.mk.inj (Except.ok.inj h)).1]
    have hrest : finished.template = read.template := by
      refine foldlM_preserves (fun t => t.template = read.template) ?_ rfl hfinished
      rintro key - t t' ht hstep
      unfold LoadState.processUnusedOverride at hstep
      dsimp only at hstep
      split at hstep
      · rw [← Except.ok.inj hstep, ht]
      · obtain ⟨between, hbetween, hstep⟩ := bind_eq_ok_iff.mp hstep
        rw [← Except.ok.inj hstep]
        exact (LoadState.template_processRow hbetween).trans ht
    rw [hrest, LoadState.template_rows hread]
    exact Bool.false_or _

end ProtocolGateway
