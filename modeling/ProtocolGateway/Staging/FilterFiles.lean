import ProtocolGateway.Staging.Registers
import ProtocolGateway.Staging.Edits
import ProtocolGateway.MemberFilter
import ProtocolGateway.Lines
import ProtocolGateway.Lib.Trim
import Mathlib.Data.List.Dedup

/-!
# The mask and screen files

A commit writes the mask and screen selections of a device into two text files, one variable name a
line, and the gateway reads them back into `variable_mask` and `variable_screen`.

* `selectedNames` collects names, not registers: a name is written if every register of the device
  that has it is selected.
* `loadFilterFile` lowers and strips the lines, and `ProtocolSettings.applyFilters` finds them among
  the names of an entry.

`filters_follow_names` says which registers the gateway keeps.
-/

namespace ProtocolGateway

open Text (fileLines)

/-! ## The files a commit writes -/

/-- The files in the `config` directory: what stands in a file of a name. -/
abbrev ConfigDir := String → Option (List Char)

/-- A text without the first occurrence of a pattern. -/
def removeFirst (pattern : List Char) : List Char → List Char
  | [] => []
  | c :: cs =>
    if pattern.isPrefixOf (c :: cs) then (c :: cs).drop pattern.length
    else c :: removeFirst pattern cs

/-- `section.replace("transport.", "", 1)`. -/
def transportName (s : String) : String :=
  String.ofList (removeFirst "transport.".toList s.toList)

/-- `value_staged or value_disk or ""`. -/
def Setting.staged (row : Setting) : String :=
  if isSet row.valueStaged then row.valueStaged.getD "" else row.valueDisk.getD ""

/-- The protocol of each transport, as the settings have it. -/
def transportProtocols (settings : SettingTable) : Dict String String :=
  Dict.empty.update ((settings.items.filter fun row => row.1.2 = "protocol_version").map fun row =>
    (transportName row.1.1, row.2.staged))

/-- The names for which every row is chosen, in alphabetical order. -/
def selectedNames (entry : ProtocolRegister → String) (chosen : Choices → Bool)
    (rows : List DeviceRegister) : List String :=
  let names (rows : List DeviceRegister) := rows.map fun x => entry x.register
  let unselected := names (rows.filter fun x => !chosen x.selection.staged)
  (((names (rows.filter fun x => chosen x.selection.staged)).filter
    (· ∉ unselected)).dedup).insertionSort (· ≤ ·)

/-- `SYNTHETIC_FILTER_PREFIX`. -/
def syntheticFilterPrefix : String := "synthetic:"

/-- What stands in the screen file for a register. -/
def screenEntry (row : ProtocolRegister) : String :=
  if row.isSynthetic then syntheticFilterPrefix ++ row.variableName else row.variableName

/-- The lines of a device's mask file. -/
def maskLines (rows : List DeviceRegister) : List String :=
  selectedNames ProtocolRegister.variableName Choices.maskEnabled rows

/-- The lines of a device's screen file. -/
def screenLines (rows : List DeviceRegister) : List String :=
  selectedNames screenEntry Choices.screenEnabled rows

/-- A file of names, one a line. -/
def namesText (names : List String) : List Char :=
  ['\n'].intercalate (names.map String.toList) ++ ['\n']

/-- The name of a device's mask file. -/
def maskFile (deviceName : String) : String := "variable_mask_" ++ deviceName ++ ".txt"

/-- The name of a device's screen file. -/
def screenFile (deviceName : String) : String := "variable_screen_" ++ deviceName ++ ".txt"

namespace StagingDb

variable (db : StagingDb)

/-- The two files of one transport. A transport without registers keeps the files it has. -/
def writeFilterFiles (deviceName protocolVersion : String) (files : ConfigDir) : ConfigDir :=
  let rows := db.deviceRegisters deviceName protocolVersion
  if protocolVersion = "" ∨ rows = [] then files
  else
    Function.update
      (Function.update files (maskFile deviceName) (some (namesText (maskLines rows))))
      (screenFile deviceName) (some (namesText (screenLines rows)))

/-- `_write_mask_screen_files`. -/
def writeMaskScreenFiles (files : ConfigDir) : ConfigDir :=
  (transportProtocols db.settings).items.foldl
    (fun files kv => db.writeFilterFiles kv.1 kv.2 files) files

end StagingDb

/-! ## The files the gateway reads -/

/-- `_load_filter_file`: a file that is not there has no lines. -/
def ConfigDir.loadFilter (files : ConfigDir) (name : String) : List String :=
  match files name with
  | none => []
  | some text => loadFilterFile ((fileLines text).map String.ofList)

/-- The filters of a device that has the usual file names. -/
def runtimeFilters (files : ConfigDir) (deviceName : String) : ProtocolSettings where
  variableMask := files.loadFilter (maskFile deviceName)
  variableScreen := (files.loadFilter (screenFile deviceName)).filter fun line =>
    !syntheticFilterPrefix.toList.isPrefixOf line.toList

/-! ## Writing one transport's files -/

theorem maskFile_injective : Function.Injective maskFile := fun _ _ h =>
  (String.append_right_inj _).mp ((String.append_left_inj _).mp h)

theorem screenFile_injective : Function.Injective screenFile := fun _ _ h =>
  (String.append_right_inj _).mp ((String.append_left_inj _).mp h)

/-- Texts that start differently are different. -/
theorem append_append_ne {a a' : String} (i : Nat)
    (h : i < a.toList.length ∧ i < a'.toList.length ∧ a.toList[i]? ≠ a'.toList[i]?)
    (b b' c : String) : a ++ b ++ c ≠ a' ++ b' ++ c := by
  intro heq
  have heq : (a ++ b ++ c).toList[i]? = (a' ++ b' ++ c).toList[i]? := by rw [heq]
  rw [String.toList_append, String.toList_append, String.toList_append, String.toList_append,
    List.append_assoc, List.append_assoc, List.getElem?_append_left h.1,
    List.getElem?_append_left h.2.1] at heq
  exact h.2.2 heq

theorem maskFile_ne_screenFile (d d' : String) : maskFile d ≠ screenFile d' :=
  append_append_ne 9 (by decide) d d' _

namespace StagingDb

variable {db : StagingDb} {d d' v v' : String} {files : ConfigDir}

/-- The files of other transports stay as they are. -/
theorem writeFilterFiles_other (db : StagingDb) (v' : String) (files : ConfigDir) (hne : d' ≠ d) :
    db.writeFilterFiles d' v' files (maskFile d) = files (maskFile d) ∧
      db.writeFilterFiles d' v' files (screenFile d) = files (screenFile d) := by
  unfold writeFilterFiles
  split
  · exact ⟨rfl, rfl⟩
  · rw [Function.update_of_ne (maskFile_ne_screenFile _ _),
      Function.update_of_ne (fun h => hne (maskFile_injective h).symm),
      Function.update_of_ne (fun h => hne (screenFile_injective h).symm),
      Function.update_of_ne (maskFile_ne_screenFile _ _).symm]
    exact ⟨rfl, rfl⟩

/-- The files of a transport have the names of its registers. -/
theorem writeFilterFiles_self (hv : v ≠ "") (hrows : db.deviceRegisters d v ≠ []) :
    db.writeFilterFiles d v files (maskFile d) =
        some (namesText (maskLines (db.deviceRegisters d v))) ∧
      db.writeFilterFiles d v files (screenFile d) =
        some (namesText (screenLines (db.deviceRegisters d v))) := by
  unfold writeFilterFiles
  rw [if_neg (not_or.mpr ⟨hv, hrows⟩), Function.update_of_ne (maskFile_ne_screenFile _ _),
    Function.update_self, Function.update_self]
  exact ⟨rfl, rfl⟩

/-- Each transport writes its own files, whatever the other transports write. -/
theorem foldl_writeFilterFiles {items : List (String × String)} (hnodup : (items.map Prod.fst).Nodup)
    (hmem : (d, v) ∈ items) (hv : v ≠ "") (hrows : db.deviceRegisters d v ≠ []) :
    let files := items.foldl (fun files kv => db.writeFilterFiles kv.1 kv.2 files) files
    files (maskFile d) = some (namesText (maskLines (db.deviceRegisters d v))) ∧
      files (screenFile d) = some (namesText (screenLines (db.deviceRegisters d v))) := by
  induction items using List.reverseRecOn with
  | nil => cases hmem
  | append_singleton items kv ih =>
    rw [List.map_append, List.nodup_append] at hnodup
    rw [List.foldl_append, List.foldl_cons, List.foldl_nil]
    rcases List.mem_append.mp hmem with hmem | hmem
    · have hne : kv.1 ≠ d := fun h =>
        hnodup.2.2 d (List.mem_map_of_mem hmem) kv.1 List.mem_cons_self h.symm
      obtain ⟨hmask, hscreen⟩ := ih hnodup.1 hmem
      obtain ⟨hmask', hscreen'⟩ := writeFilterFiles_other db kv.2
        (items.foldl (fun files kv => db.writeFilterFiles kv.1 kv.2 files) files) hne
      exact ⟨hmask'.trans hmask, hscreen'.trans hscreen⟩
    · obtain rfl := List.mem_singleton.mp hmem
      exact writeFilterFiles_self hv hrows

/-- A device's files after all transports have been written. -/
theorem writeMaskScreenFiles_device (files : ConfigDir)
    (hversion : (transportProtocols db.settings).get? d = some v)
    (hv : v ≠ "") (hrows : db.deviceRegisters d v ≠ []) :
    db.writeMaskScreenFiles files (maskFile d) =
        some (namesText (maskLines (db.deviceRegisters d v))) ∧
      db.writeMaskScreenFiles files (screenFile d) =
        some (namesText (screenLines (db.deviceRegisters d v))) :=
  foldl_writeFilterFiles (transportProtocols db.settings).nodup (Dict.mem_of_get? hversion) hv hrows

end StagingDb

/-! ## Reading a file of names -/

/-- What the readers make of a line: no blanks around it, and no capitals. -/
def filterKey (name : String) : String :=
  String.ofList (Text.lower (Text.strip name.toList))

/-- A name that survives being written as a line. -/
structure OrdinaryName (name : String) : Prop where
  one_line : '\n' ∉ name.toList ∧ '\r' ∉ name.toList
  not_blank : filterKey name ≠ ""
  no_comment : (filterKey name).toList.head? ≠ some '#'
  not_synthetic : syntheticFilterPrefix.toList.isPrefixOf (filterKey name).toList = false

theorem fileLines_namesText {names : List String}
    (h : ∀ name ∈ names, '\n' ∉ name.toList ∧ '\r' ∉ name.toList) :
    fileLines (namesText names) = names.map String.toList ∨
      names = [] ∧ fileLines (namesText names) = [[]] := by
  by_cases hnil : names = []
  · subst hnil
    exact Or.inr ⟨rfl, rfl⟩
  · left
    have htext : namesText names = ['\n'].intercalate (names.map String.toList ++ [[]]) := by
      rw [namesText, Text.intercalate_concat_nil (by simpa using hnil)]
    rw [htext]
    refine Text.fileLines_intercalate fun line hline => ?_
    obtain ⟨name, hname, rfl⟩ := List.mem_map.mp hline
    exact h name hname

/-- **A file of names** is read as the keys of the names that are neither blank nor comments. -/
theorem mem_loadFilter {files : ConfigDir} {file : String} {names : List String}
    (hfile : files file = some (namesText names))
    (h : ∀ name ∈ names, '\n' ∉ name.toList ∧ '\r' ∉ name.toList) {line : String} :
    line ∈ files.loadFilter file ↔ (∃ name ∈ names, filterKey name = line) ∧ line ≠ "" ∧
      line.toList.head? ≠ some '#' := by
  have hkeys (lines : List (List Char)) (line : String) :
      line ∈ loadFilterFile (lines.map String.ofList) ↔
        (∃ l ∈ lines, filterKey (String.ofList l) = line) ∧ line ≠ "" ∧
          line.toList.head? ≠ some '#' := by
    unfold loadFilterFile
    rw [List.mem_filterMap]
    constructor
    · rintro ⟨text, htext, hline⟩
      obtain ⟨name, hname, rfl⟩ := List.mem_map.mp htext
      obtain ⟨l, hl, rfl⟩ := List.mem_map.mp hname
      split at hline
      · cases hline
      · next hkept =>
        obtain rfl := Option.some.inj hline
        rw [not_or] at hkept
        exact ⟨⟨l, hl, rfl⟩, by simpa using hkept.1, by simpa using hkept.2⟩
    · rintro ⟨⟨l, hl, rfl⟩, hne, hhead⟩
      refine ⟨_, List.mem_map_of_mem (List.mem_map_of_mem hl), if_neg ?_⟩
      rw [not_or]
      refine ⟨fun hnil => hne ?_, fun hcomment => hhead ?_⟩
      · rw [filterKey, hnil]
      · rw [filterKey, String.toList_ofList, hcomment]
  unfold ConfigDir.loadFilter
  rw [hfile]
  dsimp only
  rw [hkeys]
  refine and_congr_left fun hline => ?_
  rcases fileLines_namesText h with hlines | ⟨rfl, hlines⟩
  · rw [hlines]
    simp
  · rw [hlines]
    refine iff_of_false ?_ (by simp)
    rintro ⟨l, hl, hkey⟩
    obtain rfl := List.mem_singleton.mp hl
    exact hline.1 hkey.symm

/-! ## Names that are chosen -/

/-- A name is chosen if registers have it, and all of them are. -/
def NameChosen (chosen : Choices → Bool) (rows : List DeviceRegister) (name : String) : Prop :=
  (∃ x ∈ rows, x.register.variableName = name) ∧
    ∀ x ∈ rows, x.register.variableName = name → chosen x.selection.staged = true

theorem mem_selectedNames {entry : ProtocolRegister → String} {chosen : Choices → Bool}
    {rows : List DeviceRegister} {name : String} :
    name ∈ selectedNames entry chosen rows ↔ (∃ x ∈ rows, entry x.register = name) ∧
      ∀ x ∈ rows, entry x.register = name → chosen x.selection.staged = true := by
  unfold selectedNames
  dsimp only
  rw [List.mem_insertionSort, List.mem_dedup, List.mem_filter, List.mem_map, decide_eq_true_eq,
    List.mem_map]
  simp only [List.mem_filter, Bool.not_eq_true', not_exists, not_and, and_imp]
  constructor
  · rintro ⟨⟨x, ⟨hx, -⟩, hname⟩, hall⟩
    exact ⟨⟨x, hx, hname⟩, fun y hy hy' => Bool.not_eq_false _ ▸ fun h => hall y hy h hy'⟩
  · rintro ⟨⟨x, hx, hname⟩, hall⟩
    exact ⟨⟨x, ⟨hx, hall x hx hname⟩, hname⟩, fun y hy h hy' =>
      absurd (hall y hy hy') (Bool.eq_false_iff.mp h)⟩

/-- The registers that stand for themselves. -/
def realRegisters (rows : List DeviceRegister) : List DeviceRegister :=
  rows.filter fun x => !x.register.isSynthetic

/-- The line of a screened synthetic field keeps its prefix. -/
theorem prefix_filterKey (name : String) :
    syntheticFilterPrefix.toList.isPrefixOf (filterKey (syntheticFilterPrefix ++ name)).toList =
      true := by
  have hstrip : Text.strip (syntheticFilterPrefix ++ name).toList =
      "synthetic".toList ++ ':' :: name.toList.rdropWhile Text.isSpace := by
    have htext : (syntheticFilterPrefix ++ name).toList =
        "synthetic".toList ++ ':' :: name.toList := by
      rw [String.toList_append]
      rfl
    have hcolon : ¬Text.isSpace ':' = true := by decide
    have hstart : ("synthetic".toList ++ ':' :: name.toList).dropWhile Text.isSpace =
        "synthetic".toList ++ ':' :: name.toList :=
      Trim.dropWhile_eq_self fun c hc => by
        obtain rfl := Option.some.inj hc
        decide
    show (List.dropWhile Text.isSpace _).rdropWhile Text.isSpace = _
    rw [htext, hstart]
    exact Trim.rdropWhile_append_cons hcolon _ _
  rw [filterKey, hstrip, String.toList_ofList, List.isPrefixOf_iff_prefix, Text.lower,
    List.map_append, List.map_cons]
  exact ⟨(name.toList.rdropWhile Text.isSpace).map Text.lowerChar, rfl⟩

section Lines

variable {files : ConfigDir} {d : String} {rows : List DeviceRegister}
  (hnames : ∀ x ∈ rows, OrdinaryName x.register.variableName)
include hnames

/-- The mask of a device has the keys of the names that are mask-selected. -/
theorem mem_variableMask (hfile : files (maskFile d) = some (namesText (maskLines rows)))
    {line : String} : line ∈ (runtimeFilters files d).variableMask ↔
      ∃ name, NameChosen Choices.maskEnabled rows name ∧ filterKey name = line := by
  have hordinary : ∀ name ∈ maskLines rows, OrdinaryName name := by
    intro name hname
    obtain ⟨⟨x, hx, rfl⟩, -⟩ := mem_selectedNames.mp hname
    exact hnames x hx
  show line ∈ files.loadFilter _ ↔ _
  rw [mem_loadFilter hfile fun name hname => (hordinary name hname).one_line]
  constructor
  · rintro ⟨⟨name, hname, hline⟩, -⟩
    exact ⟨name, mem_selectedNames.mp hname, hline⟩
  · rintro ⟨name, hname, rfl⟩
    have hname : name ∈ maskLines rows := mem_selectedNames.mpr hname
    exact ⟨⟨name, hname, rfl⟩, (hordinary name hname).not_blank, (hordinary name hname).no_comment⟩

/-- The screen of a device has the keys of the names that are screen-selected. -/
theorem mem_variableScreen (hfile : files (screenFile d) = some (namesText (screenLines rows)))
    {line : String} : line ∈ (runtimeFilters files d).variableScreen ↔
      ∃ name, NameChosen Choices.screenEnabled (realRegisters rows) name ∧ filterKey name = line := by
  have hline : ∀ name ∈ screenLines rows, '\n' ∉ name.toList ∧ '\r' ∉ name.toList := by
    intro name hname
    obtain ⟨⟨x, hx, rfl⟩, -⟩ := mem_selectedNames.mp hname
    unfold screenEntry
    split
    · rw [String.toList_append]
      refine ⟨fun h => ?_, fun h => ?_⟩
      · exact (List.mem_append.mp h).elim (by decide) (hnames x hx).one_line.1
      · exact (List.mem_append.mp h).elim (by decide) (hnames x hx).one_line.2
    · exact (hnames x hx).one_line
  -- a name without the prefix is the entry of real registers only
  have hentry {name : String} (hplain : OrdinaryName name) :
      name ∈ screenLines rows ↔ NameChosen Choices.screenEnabled (realRegisters rows) name := by
    have hreal {x : DeviceRegister} : screenEntry x.register = name ↔
        x.register.isSynthetic = false ∧ x.register.variableName = name := by
      unfold screenEntry
      split
      · next hsynthetic =>
        rw [hsynthetic]
        refine iff_of_false ?_ (by simp)
        rintro rfl
        exact absurd (hplain.not_synthetic.symm.trans (prefix_filterKey _)) (by decide)
      · next hsynthetic =>
        rw [Bool.eq_false_iff.mpr hsynthetic]
        simp
    unfold screenLines NameChosen realRegisters
    rw [mem_selectedNames]
    simp only [hreal, List.mem_filter, Bool.not_eq_true', and_imp, and_assoc]
  show line ∈ List.filter _ (files.loadFilter _) ↔ _
  rw [List.mem_filter, mem_loadFilter hfile hline, Bool.not_eq_true']
  constructor
  · rintro ⟨⟨⟨name, hname, rfl⟩, -⟩, hplain⟩
    obtain ⟨⟨x, hx, rfl⟩, -⟩ := mem_selectedNames.mp hname
    refine ⟨_, (hentry ?_).mp hname, rfl⟩
    unfold screenEntry at hplain ⊢
    split at hplain
    · exact absurd (hplain.symm.trans (prefix_filterKey _)) (by decide)
    · next hreal =>
      rw [if_neg hreal]
      exact hnames x hx
  · rintro ⟨name, hname, rfl⟩
    obtain ⟨x, hx, rfl⟩ := hname.1
    have hordinary := hnames x (List.mem_of_mem_filter hx)
    exact ⟨⟨⟨_, (hentry hordinary).mpr hname, rfl⟩, hordinary.not_blank, hordinary.no_comment⟩,
      hordinary.not_synthetic⟩

end Lines

/-! ## What the gateway keeps -/

/-- A line of a filter file names an entry. -/
def NamesEntry (e : RegistryMapEntry) (line : String) : Prop :=
  line = filterKey e.documentedName ∨ line = filterKey e.variableName ∨
    line = filterKey e.documentedName ++ "_l" ∨ line = filterKey e.variableName ++ "_l"

theorem named_iff {filter : List String} {e : RegistryMapEntry} :
    ProtocolSettings.named filter e = true ↔ ∃ line ∈ filter, NamesEntry e line := by
  unfold ProtocolSettings.named NamesEntry
  simp only [Bool.or_eq_true, List.contains_iff_mem, filterKey]
  constructor
  · rintro (((h | h) | h) | h)
    · exact ⟨_, h, Or.inl rfl⟩
    · exact ⟨_, h, Or.inr (Or.inl rfl)⟩
    · exact ⟨_, h, Or.inr (Or.inr (Or.inl rfl))⟩
    · exact ⟨_, h, Or.inr (Or.inr (Or.inr rfl))⟩
  · rintro ⟨line, hline, rfl | rfl | rfl | rfl⟩
    · exact Or.inl (Or.inl (Or.inl hline))
    · exact Or.inl (Or.inl (Or.inr hline))
    · exact Or.inl (Or.inr hline)
    · exact Or.inr hline

/-- What the gateway loads for a register, under the names the row has. The other columns are those
of the given entry. -/
def ProtocolRegister.entry (row : ProtocolRegister) (columns : RegistryMapEntry) :
    RegistryMapEntry :=
  { columns with variableName := row.variableName, documentedName := row.documentedName }

namespace StagingDb

variable (db : StagingDb) (deviceName protocolVersion : String)

/-- The registers of a device that belong to its own protocol. -/
def ownDeviceRegisters : List DeviceRegister :=
  db.joined deviceName fun key =>
    key.protocolName ∈ [registryMapStem protocolVersion .customBus,
      registryMapStem protocolVersion .coil, registryMapStem protocolVersion .discrete,
      registryMapStem protocolVersion .holding, registryMapStem protocolVersion .input]

/-- A name that is mask-selected wherever a register of the device has it. -/
def MaskName (name : String) : Prop :=
  NameChosen Choices.maskEnabled (db.ownDeviceRegisters deviceName protocolVersion) name

/-- A name that is screen-selected wherever a register of the device has it. -/
def ScreenName (name : String) : Prop :=
  NameChosen Choices.screenEnabled
    (realRegisters (db.ownDeviceRegisters deviceName protocolVersion)) name

/-- The registers of one registry type of a protocol. -/
def ownRegisters (registryType : RegistryType) : List (RegisterKey × ProtocolRegister) :=
  db.registers.items.filter fun kr =>
    kr.1.protocolName = registryMapStem protocolVersion registryType ∧ !kr.2.isSynthetic ∧
      !kr.2.isJsonDesc

/-- A choice the user made for a register of a device. -/
def Chosen (chosen : Choices → Bool) (key : RegisterKey) : Prop :=
  ∃ selection, db.selections.get? ⟨deviceName, key⟩ = some selection ∧
    chosen selection.staged = true

section Runtime

variable (columns : RegisterKey → RegistryMapEntry) (filters : ProtocolSettings)

/-- The registry map of one type, before it is filtered. -/
def runtimeMap (registryType : RegistryType) : List RegistryMapEntry :=
  (db.ownRegisters protocolVersion registryType).map fun kr => kr.2.entry (columns kr.1)

/-- The gateway keeps a register. -/
def Keeps (registryType : RegistryType) (x : RegisterKey × ProtocolRegister) : Prop :=
  x.2.entry (columns x.1) ∈ filters.applyFilters (db.runtimeMap protocolVersion columns registryType)

/-- A line for one of some names would name a register. -/
def Listed (names : String → Prop) (x : RegisterKey × ProtocolRegister) : Prop :=
  ∃ name, names name ∧ NamesEntry (x.2.entry (columns x.1)) (filterKey name)

/-- The gateway keeps the registers the user selected: those with a mask selection, if there is one,
and otherwise those without a screen selection. -/
structure SelectionsReach : Prop where
  masked : ∀ registryType, ∀ x ∈ db.ownRegisters protocolVersion registryType,
    db.Chosen deviceName Choices.maskEnabled x.1 →
      db.Keeps protocolVersion columns filters registryType x
  unmasked : (∃ registryType, ∃ x ∈ db.ownRegisters protocolVersion registryType,
      db.Chosen deviceName Choices.maskEnabled x.1) →
    ∀ registryType, ∀ x ∈ db.ownRegisters protocolVersion registryType,
      db.Keeps protocolVersion columns filters registryType x →
        db.Chosen deviceName Choices.maskEnabled x.1
  screened : (¬∃ registryType, ∃ x ∈ db.ownRegisters protocolVersion registryType,
      db.Chosen deviceName Choices.maskEnabled x.1) →
    ∀ registryType, ∀ x ∈ db.ownRegisters protocolVersion registryType,
      (db.Keeps protocolVersion columns filters registryType x ↔
        ¬db.Chosen deviceName Choices.screenEnabled x.1)

/-- The gateway keeps the registers whose names are selected. A name that a register has which is not
selected is not selected, and a type without a screen-selected name is dropped as a whole once any
name is. -/
structure NamesReach : Prop where
  masked : ∀ registryType, ∀ x ∈ db.ownRegisters protocolVersion registryType,
    db.Chosen deviceName Choices.maskEnabled x.1 →
    (∀ y ∈ db.ownDeviceRegisters deviceName protocolVersion,
      y.register.variableName = x.2.variableName → y.selection.staged.maskEnabled = true) →
      db.Keeps protocolVersion columns filters registryType x
  unmasked : (∃ name, db.MaskName deviceName protocolVersion name) →
    ∀ registryType, ∀ x ∈ db.ownRegisters protocolVersion registryType,
      db.Keeps protocolVersion columns filters registryType x →
        Listed columns (db.MaskName deviceName protocolVersion) x
  screened : (¬∃ name, db.MaskName deviceName protocolVersion name) →
    (∃ name, db.ScreenName deviceName protocolVersion name) →
    ∀ registryType, ∀ x ∈ db.ownRegisters protocolVersion registryType,
      (db.Keeps protocolVersion columns filters registryType x ↔
        (∃ y ∈ db.ownRegisters protocolVersion registryType,
          Listed columns (db.ScreenName deviceName protocolVersion) y) ∧
        ¬Listed columns (db.ScreenName deviceName protocolVersion) x)
  unfiltered : (¬∃ name, db.MaskName deviceName protocolVersion name) →
    (¬∃ name, db.ScreenName deviceName protocolVersion name) →
    ∀ registryType, ∀ x ∈ db.ownRegisters protocolVersion registryType,
      db.Keeps protocolVersion columns filters registryType x

variable {db deviceName protocolVersion columns filters}

/-- The names of a mask or screen file list a register if the loaded filter names its entry. -/
theorem listed_iff {names : String → Prop} {filter : List String}
    (hfilter : ∀ line, line ∈ filter ↔ ∃ name, names name ∧ filterKey name = line)
    {x : RegisterKey × ProtocolRegister} :
    Listed columns names x ↔ ProtocolSettings.named filter (x.2.entry (columns x.1)) = true := by
  rw [named_iff]
  constructor
  · rintro ⟨name, hname, hnames⟩
    exact ⟨_, (hfilter _).mpr ⟨name, hname, rfl⟩, hnames⟩
  · rintro ⟨line, hline, hnames⟩
    obtain ⟨name, hname, rfl⟩ := (hfilter line).mp hline
    exact ⟨name, hname, hnames⟩

theorem ne_nil_iff {names : String → Prop} {filter : List String}
    (hfilter : ∀ line, line ∈ filter ↔ ∃ name, names name ∧ filterKey name = line) :
    filter ≠ [] ↔ ∃ name, names name := by
  constructor
  · intro hne
    obtain ⟨line, hline⟩ := List.exists_mem_of_ne_nil _ hne
    obtain ⟨name, hname, -⟩ := (hfilter line).mp hline
    exact ⟨name, hname⟩
  · rintro ⟨name, hname⟩
    exact List.ne_nil_of_mem ((hfilter _).mpr ⟨name, hname, rfl⟩)

/-- A register of a protocol with a selection is a register of the device. -/
theorem mem_ownDeviceRegisters {registryType : RegistryType} {x : RegisterKey × ProtocolRegister}
    (hx : x ∈ db.ownRegisters protocolVersion registryType) {selection : DeviceProtocolSelection}
    (hselection : db.selections.get? ⟨deviceName, x.1⟩ = some selection) :
    ⟨x.1, selection, x.2⟩ ∈ db.ownDeviceRegisters deviceName protocolVersion := by
  obtain ⟨hmem, htest⟩ := List.mem_filter.mp hx
  rw [decide_eq_true_eq, Bool.not_eq_true'] at htest
  refine mem_joined.mpr ⟨hselection, Dict.get?_eq_some_iff.mpr hmem, by simpa using htest.2.2, ?_⟩
  rw [decide_eq_true_eq, htest.1]
  cases registryType <;> simp

/-- What the filters keep, if they have the names of a device. -/
theorem namesReach_of_filters
    (hmask : ∀ line, line ∈ filters.variableMask ↔
      ∃ name, db.MaskName deviceName protocolVersion name ∧ filterKey name = line)
    (hscreen : ∀ line, line ∈ filters.variableScreen ↔
      ∃ name, db.ScreenName deviceName protocolVersion name ∧ filterKey name = line) :
    db.NamesReach deviceName protocolVersion columns filters where
  masked registryType x hx hchosen hsame := by
    obtain ⟨selection, hselection, -⟩ := hchosen
    have hname : db.MaskName deviceName protocolVersion x.2.variableName :=
      ⟨⟨_, mem_ownDeviceRegisters hx hselection, rfl⟩, hsame⟩
    have hlisted : Listed columns (db.MaskName deviceName protocolVersion) x :=
      ⟨_, hname, Or.inr (Or.inl rfl)⟩
    unfold Keeps ProtocolSettings.applyFilters
    rw [if_pos ((ne_nil_iff hmask).mpr ⟨_, hname⟩)]
    exact List.mem_filter.mpr ⟨List.mem_map_of_mem hx, (listed_iff hmask).mp hlisted⟩
  unmasked hany registryType x hx hkeeps := by
    rw [← ne_nil_iff hmask] at hany
    unfold Keeps ProtocolSettings.applyFilters at hkeeps
    rw [if_pos hany] at hkeeps
    exact (listed_iff hmask).mpr (List.mem_filter.mp hkeeps).2
  screened hno hany registryType x hx := by
    have hmap : x.2.entry (columns x.1) ∈ db.runtimeMap protocolVersion columns registryType :=
      List.mem_map_of_mem hx
    have hown : (db.runtimeMap protocolVersion columns registryType).any
        (ProtocolSettings.named filters.variableScreen) = true ↔
          ∃ y ∈ db.ownRegisters protocolVersion registryType,
            Listed columns (db.ScreenName deviceName protocolVersion) y := by
      rw [runtimeMap, List.any_map, List.any_eq_true]
      exact exists_congr fun y => and_congr_right fun _ => (listed_iff hscreen).symm
    rw [← ne_nil_iff hmask] at hno
    rw [← ne_nil_iff hscreen] at hany
    unfold Keeps ProtocolSettings.applyFilters
    rw [if_neg hno, if_pos hany, listed_iff hscreen, ← hown]
    split
    · next htype => rw [List.mem_filter, htype, Bool.not_eq_true', Bool.not_eq_true]; simp [hmap]
    · next htype => simp [htype]
  unfiltered hno hnone registryType x hx := by
    rw [← ne_nil_iff hmask] at hno
    rw [← ne_nil_iff hscreen] at hnone
    unfold Keeps ProtocolSettings.applyFilters
    rw [if_neg hno, if_neg hnone]
    exact List.mem_map_of_mem hx

variable (db deviceName protocolVersion columns) in
/-- **The selections reach the gateway by name.** If the rows a commit finds for a device are those of
its own protocol, the gateway keeps the registers whose names are selected. -/
theorem filters_follow_names (files : ConfigDir)
    (hversion : (transportProtocols db.settings).get? deviceName = some protocolVersion)
    (hset : protocolVersion ≠ "") (hrows : db.ownDeviceRegisters deviceName protocolVersion ≠ [])
    (hlike : ∀ x ∈ db.deviceRegisters deviceName protocolVersion,
      x ∈ db.ownDeviceRegisters deviceName protocolVersion)
    (hnames : ∀ x ∈ db.ownDeviceRegisters deviceName protocolVersion,
      OrdinaryName x.register.variableName) :
    db.NamesReach deviceName protocolVersion columns
      (runtimeFilters (db.writeMaskScreenFiles files) deviceName) := by
  have hsame (x : DeviceRegister) : x ∈ db.deviceRegisters deviceName protocolVersion ↔
      x ∈ db.ownDeviceRegisters deviceName protocolVersion := by
    refine ⟨hlike x, fun hx => ?_⟩
    obtain ⟨hselection, hregister, hdesc, hown⟩ := mem_joined.mp hx
    refine mem_joined.mpr ⟨hselection, hregister, hdesc, ?_⟩
    simp only [List.mem_cons, List.not_mem_nil, or_false, decide_eq_true_eq] at hown
    rcases hown with h | h | h | h | h <;> exact h ▸ ofProtocol_registryMapStem _ _
  have hfound : db.deviceRegisters deviceName protocolVersion ≠ [] := by
    obtain ⟨x, hx⟩ := List.exists_mem_of_ne_nil _ hrows
    exact List.ne_nil_of_mem ((hsame x).mpr hx)
  obtain ⟨hmask, hscreen⟩ := writeMaskScreenFiles_device files hversion hset hfound
  have hordinary : ∀ x ∈ db.deviceRegisters deviceName protocolVersion,
      OrdinaryName x.register.variableName := fun x hx => hnames x (hlike x hx)
  refine namesReach_of_filters (fun line => ?_) fun line => ?_
  · rw [mem_variableMask hordinary hmask]
    simp only [MaskName, NameChosen, hsame]
  · rw [mem_variableScreen hordinary hscreen]
    simp only [ScreenName, NameChosen, realRegisters, List.mem_filter, hsame]

end Runtime

/-! ## A name of two registers -/

/-- The settings of an inverter of protocol `eg4`. -/
def inverterSettings : SettingTable :=
  Dict.empty.set ("transport.inv", "protocol_version") { valueStaged := some "eg4" }

/-- A register of protocol `eg4`. -/
def inverterKey (registryType address : String) : RegisterKey where
  protocolName := "eg4." ++ registryType ++ "_registry_map"
  registryType := registryType
  registerAddress := address

/-- A register of the battery voltage. -/
def vbatRegister : ProtocolRegister := { variableName := "vbat", documentedName := "vbat" }

/-- A holding register and an input register of one name, with the selections of an inverter. -/
def inverterDb (holding input : Choices) : StagingDb where
  settings := inverterSettings
  registers := (Dict.empty.set (inverterKey "holding" "40") vbatRegister).set
    (inverterKey "input" "10") vbatRegister
  selections := (Dict.empty.set ⟨"inv", inverterKey "holding" "40"⟩ { staged := holding }).set
    ⟨"inv", inverterKey "input" "10"⟩ { staged := input }

/-- The other columns of a register. -/
def inverterColumns (key : RegisterKey) : RegistryMapEntry :=
  ({ cell := key.registerAddress, variableName := "" } : Row).entry .holding {} 0

/-- Two registers of one name that are both mask-selected are both kept. -/
theorem filters_follow_shared_name :
    (inverterDb { maskEnabled := true } { maskEnabled := true }).NamesReach "inv" "eg4"
      inverterColumns (runtimeFilters ((inverterDb { maskEnabled := true }
        { maskEnabled := true }).writeMaskScreenFiles fun _ => none) "inv") := by
  refine filters_follow_names _ "inv" "eg4" inverterColumns (fun _ => none) (by decide)
    (by decide) (by decide) (by decide +kernel) fun x hx => ?_
  have hname : x.register.variableName = "vbat" := by
    revert x
    decide
  rw [hname]
  exact ⟨by decide, by decide, by decide, by decide⟩

/-- A mask selection is lost if another register has the same name and is not selected: the mask
file is empty, and the gateway keeps both. -/
theorem not_selectionsReach_shared_name : ¬ ∀ (db : StagingDb) (deviceName protocolVersion : String)
    (files : ConfigDir) (columns : RegisterKey → RegistryMapEntry),
    (transportProtocols db.settings).get? deviceName = some protocolVersion →
    protocolVersion ≠ "" → db.SelectionsReach deviceName protocolVersion columns
      (runtimeFilters (db.writeMaskScreenFiles files) deviceName) := by
  intro hall
  have hreach := hall (inverterDb { maskEnabled := true } {}) "inv" "eg4" (fun _ => none)
    inverterColumns (by decide) (by decide)
  have hholding : (inverterKey "holding" "40", vbatRegister) ∈
      (inverterDb { maskEnabled := true } {}).ownRegisters "eg4" .holding := by decide
  have hinput : (inverterKey "input" "10", vbatRegister) ∈
      (inverterDb { maskEnabled := true } {}).ownRegisters "eg4" .input := by decide
  have hmask : (runtimeFilters ((inverterDb { maskEnabled := true } {}).writeMaskScreenFiles
      fun _ => none) "inv").variableMask = [] := by decide
  have hscreen : (runtimeFilters ((inverterDb { maskEnabled := true } {}).writeMaskScreenFiles
      fun _ => none) "inv").variableScreen = [] := by decide
  obtain ⟨selection, hselection, hmasked⟩ := hreach.unmasked
    ⟨.holding, _, hholding, ⟨{ maskEnabled := true }, {}, false⟩, by decide, rfl⟩
    .input _ hinput (by
      unfold Keeps ProtocolSettings.applyFilters
      rw [if_neg (not_not.mpr hmask), if_neg (not_not.mpr hscreen)]
      exact List.mem_map_of_mem hinput)
  have hinputSelection : (inverterDb { maskEnabled := true } {}).selections.get?
      ⟨"inv", inverterKey "input" "10"⟩ = some {} := by decide
  obtain rfl := Option.some.inj (hinputSelection.symm.trans hselection)
  cases hmasked

end StagingDb

end ProtocolGateway
