import ProtocolGateway.Staging.SelectionRules
import ProtocolGateway.Staging.CommitRescan
import ProtocolGateway.Lib.Runs

/-!
# Runs of toggles, commits and passes

Each request, a commit and a scanner pass keep the rules of the selections under a condition on the
state before them:

* a request, `ToggleGuard` for every register it toggles;
* a commit, none;
* a pass, `PassGuard`. A pass takes the choices about clean selections from the files, and the files
  name no descriptions.

`selectionRules_of_reach` follows for every run of such steps.
-/

namespace ProtocolGateway

open ConfigParser Runs

namespace StagingDb

variable {db db' : StagingDb} {deviceName : String} {field : ChoiceField} {value : Bool}
  {key : RegisterKey}

/-- What a step keeps. -/
structure Kept (db db' : StagingDb) : Prop where
  rules : db'.SelectionRules
  known : db'.SelectionsKnown
  screen : db.ScreenRule db'

/-- A step that changes nothing keeps the rules. -/
theorem Kept.refl (hrules : db.SelectionRules) (hknown : db.SelectionsKnown) : Kept db db :=
  ⟨hrules, hknown, fun _ _ hbefore hafter => absurd (hbefore.symm.trans hafter) (by decide)⟩

/-- A request keeps the rules if it does where it is not refused. -/
theorem Kept.getD {request : Option StagingDb} (hrules : db.SelectionRules)
    (hknown : db.SelectionsKnown) (h : ∀ db', request = some db' → Kept db db') :
    Kept db (request.getD db) := by
  cases request with
  | none => exact .refl hrules hknown
  | some db' => exact h db' rfl

/-! ## Rows that are made on demand -/

section Materialize

variable {payload : VirtualToggle}

@[simp] theorem selections_materialize :
    (db.materialize key payload).selections = db.selections := by
  unfold materialize
  split <;> rfl

/-- The rows that are there stay as they are, -/
theorem get?_materialize_of_mem {key' : RegisterKey} (h : key' ∈ db.registers.keys) :
    (db.materialize key payload).registers.get? key' = db.registers.get? key' := by
  unfold materialize
  split
  · rfl
  · next hnot =>
    refine (Dict.get?_set _ _ _ _).trans (if_neg ?_)
    rintro rfl
    exact hnot h

/-- and the row that is made is no code register. -/
theorem get?_of_materialize {key' : RegisterKey} {row : ProtocolRegister}
    (h : (db.materialize key payload).registers.get? key' = some row)
    (hreal : row.isJsonDesc = false ∧ row.isSynthetic = false) :
    db.registers.get? key' = some row := by
  unfold materialize at h
  split at h
  · exact h
  · have h := (Dict.get?_set _ _ _ _).symm.trans h
    split at h
    · obtain rfl := Option.some.inj h
      obtain ⟨hdesc, hsynthetic⟩ := hreal
      unfold VirtualToggle.row at hdesc hsynthetic
      cases hkind : payload.kind <;> simp_all
    · exact h

theorem describes_of_materialize {desc code : RegisterKey}
    (hpair : Describes (db.materialize key payload).registers desc code)
    (hdesc : desc ∈ db.registers.keys) : Describes db.registers desc code := by
  obtain ⟨d, c, hd, hc, hmap, hdDesc, hcDesc, hcSynthetic, hrest⟩ := hpair
  rw [get?_materialize_of_mem hdesc] at hd
  exact ⟨d, c, hd, get?_of_materialize hc ⟨hcDesc, hcSynthetic⟩, hmap, hdDesc, hcDesc, hcSynthetic,
    hrest⟩

variable (key payload) in
/-- Making a row keeps the rules, since no device has a selection for it yet. -/
theorem selectionRules_materialize (hrules : db.SelectionRules) (hknown : db.SelectionsKnown) :
    (db.materialize key payload).SelectionRules ∧ (db.materialize key payload).SelectionsKnown := by
  have hmem {skey : SelectionKey} {s : DeviceProtocolSelection}
      (hs : (db.materialize key payload).selections.get? skey = some s) :
      db.selections.get? skey = some s ∧ skey.register ∈ db.registers.keys := by
    rw [selections_materialize] at hs
    exact ⟨hs, hknown _ (Dict.mem_keys.mpr ⟨s, Dict.get?_eq_some_iff.mp hs⟩)⟩
  refine ⟨⟨fun skey s hs => hrules.exclusive _ s (hmem hs).1, fun skey s hs hwrite => ?_,
    fun deviceName desc code hpair s hs => ?_⟩, fun skey hskey => ?_⟩
  · rw [get?_materialize_of_mem (hmem hs).2]
    exact hrules.writable _ s (hmem hs).1 hwrite
  · rw [staged_of_selections_eq selections_materialize]
    exact hrules.described _ _ _ (describes_of_materialize hpair (hmem hs).2) s (hmem hs).1
  · obtain ⟨s, hs⟩ := Dict.mem_keys.mp hskey
    have hregister := (hmem (Dict.get?_eq_some_iff.mpr hs)).2
    obtain ⟨row, hrow⟩ := Dict.mem_keys.mp hregister
    rw [← Dict.get?_eq_some_iff, ← get?_materialize_of_mem hregister, Dict.get?_eq_some_iff] at hrow
    exact Dict.mem_keys.mpr ⟨row, hrow⟩

end Materialize

/-! ## Requests -/

theorem ToggleGuard.of_selections_eq {registers : RegisterTable}
    (h : db.ToggleGuard registers deviceName field value key)
    (hselections : db'.selections = db.selections) :
    db'.ToggleGuard registers deviceName field value key where
  unambiguous := h.unambiguous
  source_real := h.source_real
  alike := by
    rw [staged_of_selections_eq hselections]
    exact h.alike

/-- A guarded `toggle_register_field` keeps the rules. -/
theorem kept_toggleRegisterField (hrules : db.SelectionRules) (hknown : db.SelectionsKnown)
    (h : db.toggleRegisterField deviceName field value key = some db')
    (hguard : db.ToggleGuard db.registers deviceName field value key) : Kept db db' := by
  obtain ⟨htoggled, -, hrefuses, -⟩ := toggled_of_toggleRegisterField h
  obtain ⟨hrules', hknown'⟩ := selectionRules_of_toggled hrules hknown htoggled
    (keepsPairs_of_toggleRegisterField h hguard)
  exact ⟨hrules', hknown', screenRule_of_toggled htoggled hrefuses⟩

/-- The condition for a field or description that is made on demand. -/
def CreateGuard (db : StagingDb) (protocolName registryType deviceName : String)
    (payload : VirtualToggle) : Prop :=
  let key := virtualKey protocolName registryType payload
  db.ToggleGuard (db.materialize key payload).registers deviceName payload.field payload.value key

section Create

variable {protocolName registryType : String} {payload : VirtualToggle}

/-- What `materialize_and_toggle_virtual_metric` does. -/
theorem toggled_of_materializeAndToggle
    (h : db.materializeAndToggle protocolName registryType deviceName payload = some db') :
    (∃ touched, Toggled db db' deviceName payload.field payload.value touched) ∧
      db.refusesScreen deviceName payload.field payload.value = false ∧
        (db.materialize (virtualKey protocolName registryType payload)
          payload).toggleRegisterField deviceName payload.field payload.value
            (virtualKey protocolName registryType payload) = some db' := by
  unfold materializeAndToggle at h
  split at h
  · cases h
  · next hallowed =>
    rw [not_or, Bool.not_eq_true] at hallowed
    obtain ⟨htoggled, -⟩ := toggled_of_toggleRegisterField h
    exact ⟨⟨_, htoggled.of_left selections_materialize⟩, hallowed.2, h⟩

/-- A guarded `materialize_and_toggle_virtual_metric` keeps the rules. -/
theorem kept_materializeAndToggle (hrules : db.SelectionRules) (hknown : db.SelectionsKnown)
    (h : db.materializeAndToggle protocolName registryType deviceName payload = some db')
    (hguard : db.CreateGuard protocolName registryType deviceName payload) : Kept db db' := by
  obtain ⟨⟨touched, htoggled⟩, hrefuses, h⟩ := toggled_of_materializeAndToggle h
  obtain ⟨hrules', hknown'⟩ := selectionRules_materialize
    (virtualKey protocolName registryType payload) payload hrules hknown
  have hkept := kept_toggleRegisterField hrules' hknown' h
    (hguard.of_selections_eq selections_materialize)
  exact ⟨hkept.rules, hkept.known, screenRule_of_toggled htoggled hrefuses⟩

end Create

/-! ## The toggle route -/

/-- The condition for the `toggle` route: it toggles the register, and then the description that
the live transport has for it. -/
structure RouteGuard (db : StagingDb) (deviceName : String) (field : ChoiceField) (value : Bool)
    (key : RegisterKey) (transport : Option (List DescriptionRow)) : Prop where
  toggle : db.ToggleGuard db.registers deviceName field value key
  description : ∀ row desc, db.registers.get? key = some row →
    liveDescription? transport key row = some desc → field ≠ .userWriteEnabled →
      db.CreateGuard key.protocolName key.registryType deviceName
        (descriptionToggle field value desc)

section Route

variable {desc code : RegisterKey}

/-- Without a selection no choice is made. -/
theorem staged_of_notMem (hknown : db.SelectionsKnown) (h : key ∉ db.registers.keys) :
    db.staged deviceName key = {} := by
  have hget : db.selections.get? ⟨deviceName, key⟩ = none :=
    Dict.get?_eq_none_iff.mpr fun hmem => h (hknown _ hmem)
  rw [staged, hget]
  rfl

/-- Switching a field off makes no choice. -/
theorem setField_false_of_alike {a : Choices} (h : SameSelection {} a) :
    SameSelection {} (a.setField false field) := by
  obtain ⟨hmask, hscreen⟩ := h
  cases field <;> simp_all [SameSelection, Choices.setField]

/-- The first toggle of the route leaves alike what the second one needs to be alike. -/
theorem alike_after (hknown : db.SelectionsKnown)
    (h : db.toggleRegisterField deviceName field value key = some db')
    (hguard : db.ToggleGuard db.registers deviceName field value key)
    (hfield : field ≠ .userWriteEnabled)
    (hold : desc ∈ db.registers.keys → Describes db.registers desc code)
    (halike : value = true ∨
      SameSelection (db.staged deviceName desc) (db.staged deviceName code)) :
    value = true ∨ SameSelection (db'.staged deviceName desc) (db'.staged deviceName code) := by
  obtain ⟨htoggled, -⟩ := toggled_of_toggleRegisterField h
  have hkeeps := keepsPairs_of_toggleRegisterField h hguard
  cases value with
  | true => exact Or.inl rfl
  | false =>
    have halike := halike.resolve_left (by decide)
    refine Or.inr ?_
    by_cases hdesc : desc ∈ db.registers.keys
    · have hclosed := hkeeps.closed hfield desc code (hold hdesc)
      by_cases htouched : db.Touches field key desc
      · rw [htoggled.staged_set htouched, htoggled.staged_set (hclosed.mp htouched)]
        exact Choices.SameSelection.setField false field halike
      · rw [htoggled.staged_kept fun hand => htouched hand.2,
          htoggled.staged_kept fun hand => htouched (hclosed.mpr hand.2)]
        exact halike
    · -- the description is made by the second toggle, and has no selection yet
      rw [staged_of_notMem hknown hdesc] at halike
      rw [htoggled.staged_kept fun hand => hdesc (hkeeps.known desc hand.2),
        staged_of_notMem hknown hdesc]
      by_cases htouched : db.Touches field key code
      · rw [htoggled.staged_set htouched]
        exact setField_false_of_alike halike
      · rwa [htoggled.staged_kept fun hand => htouched hand.2]

/-- The condition for the second toggle of the route holds after the first one. -/
theorem createGuard_after {protocolName registryType : String} (payload : VirtualToggle)
    (hknown : db.SelectionsKnown)
    (h : db.toggleRegisterField deviceName payload.field payload.value key = some db')
    (hguard : db.ToggleGuard db.registers deviceName payload.field payload.value key)
    (hfield : payload.field ≠ .userWriteEnabled)
    (hcreate : db.CreateGuard protocolName registryType deviceName payload) :
    db'.CreateGuard protocolName registryType deviceName payload := by
  have hregisters := (keepsPairs_of_toggleRegisterField h hguard).registers
  have hmaterialize (key : RegisterKey) :
      (db'.materialize key payload).registers = (db.materialize key payload).registers := by
    unfold materialize
    rw [hregisters]
    split
    · exact hregisters
    · rfl
  unfold CreateGuard at hcreate ⊢
  dsimp only at hcreate ⊢
  rw [hmaterialize]
  refine ⟨hcreate.unambiguous, hcreate.source_real, fun desc code hpair hkey => ?_⟩
  have halike := (hcreate.alike desc code hpair hkey).imp_left And.left
  exact (alike_after hknown h hguard hfield (describes_of_materialize hpair) halike).imp_left
    fun hvalue => ⟨hvalue, hfield⟩

/-- A guarded `toggle` route keeps the rules. -/
theorem kept_toggleRegister {transport : Option (List DescriptionRow)}
    (hrules : db.SelectionRules) (hknown : db.SelectionsKnown)
    (h : db.toggleRegister deviceName field value key transport = some db')
    (hguard : db.RouteGuard deviceName field value key transport) : Kept db db' := by
  obtain ⟨db1, hdb1, h⟩ := Option.map_eq_some_iff.mp h
  have hkept := kept_toggleRegisterField hrules hknown hdb1 hguard.toggle
  have hregisters := (keepsPairs_of_toggleRegisterField hdb1 hguard.toggle).registers
  dsimp only at h
  split at h
  · exact h ▸ hkept
  · next desc hdesc =>
    split at hdesc
    · cases hdesc
    · next hfield =>
      rw [hregisters] at hdesc
      obtain ⟨row, hrow, hdesc⟩ := Option.bind_eq_some_iff.mp hdesc
      cases hcreate : db1.materializeAndToggle key.protocolName key.registryType deviceName
          (descriptionToggle field value desc) with
      | none =>
        rw [hcreate] at h
        exact h ▸ hkept
      | some db2 =>
        rw [hcreate] at h
        obtain rfl : db2 = db' := h
        have hkept' := kept_materializeAndToggle hkept.rules hkept.known hcreate
          (createGuard_after (descriptionToggle field value desc) hknown hdb1 hguard.toggle
            hfield (hguard.description row desc hrow hdesc hfield))
        obtain ⟨htoggled, -, hrefuses, -⟩ := toggled_of_toggleRegisterField hdb1
        obtain ⟨⟨_, htoggled'⟩, -⟩ := toggled_of_materializeAndToggle hcreate
        exact ⟨hkept'.rules, hkept'.known,
          screenRule_of_toggled (htoggled.trans htoggled') hrefuses⟩

end Route

/-! ## Commits -/

section Commit

variable {desc code : RegisterKey}

/-- A register after a commit. -/
theorem get?_registers_committed :
    db.committed.registers.get? key = if db.pendingDelete key then none
      else (db.registers.get? key).map fun row => { row with isDirty := false } := by
  rw [committed, resetDirtyFlags, Dict.get?_mapValues, deletePending, Dict.get?_filter,
    pendingDelete]
  cases db.registers.get? key with
  | none => simp
  | some row => cases hpending : row.pendingDelete <;> simp [hpending]

theorem staged_committed : db.committed.staged deviceName key =
    if db.pendingDelete key then {} else db.staged deviceName key := by
  unfold staged
  rw [staged_of_committed]
  split <;> rfl

/-- A pair after a commit was one before. -/
theorem describes_of_committed (hpair : Describes db.committed.registers desc code) :
    Describes db.registers desc code ∧ db.pendingDelete desc = false ∧
      db.pendingDelete code = false := by
  obtain ⟨d, c, hd, hc, hmap, hrest⟩ := hpair
  have hrow {key : RegisterKey} {row : ProtocolRegister}
      (h : db.committed.registers.get? key = some row) : db.pendingDelete key = false ∧
        ∃ before, db.registers.get? key = some before ∧ { before with isDirty := false } = row := by
    rw [get?_registers_committed] at h
    split at h
    · cases h
    · next hpending => exact ⟨Bool.eq_false_iff.mpr hpending, Option.map_eq_some_iff.mp h⟩
  obtain ⟨hdesc, d', hd', rfl⟩ := hrow hd
  obtain ⟨hcode, c', hc', rfl⟩ := hrow hc
  exact ⟨⟨d', c', hd', hc', hmap, hrest⟩, hdesc, hcode⟩

/-- **A commit keeps the rules.** -/
theorem kept_committed (hrules : db.SelectionRules) (hknown : db.SelectionsKnown) :
    Kept db db.committed := by
  -- a selection that is left had the choices before
  have hbefore {skey : SelectionKey} {s : DeviceProtocolSelection}
      (hs : db.committed.selections.get? skey = some s) : db.pendingDelete skey.register = false ∧
        ∃ s', db.selections.get? skey = some s' ∧ s'.staged = s.staged := by
    have hstaged : (db.committed.selections.get? skey).map _ = _ := staged_of_committed skey
    rw [hs, Option.map_some] at hstaged
    split at hstaged
    · cases hstaged
    · next hpending =>
      exact ⟨Bool.eq_false_iff.mpr hpending, Option.map_eq_some_iff.mp hstaged.symm⟩
  refine ⟨⟨fun skey s hs => ?_, fun skey s hs hwrite => ?_,
    fun deviceName desc code hpair s hs => ?_⟩, fun skey hskey => ?_,
    fun deviceName key hscreen hscreen' => ?_⟩
  · obtain ⟨-, s', hs', hstaged⟩ := hbefore hs
    rw [← hstaged]
    exact hrules.exclusive _ s' hs'
  · obtain ⟨hpending, s', hs', hstaged⟩ := hbefore hs
    rw [← hstaged] at hwrite
    have hwritable := hrules.writable _ s' hs' hwrite
    rw [get?_registers_committed, hpending, if_neg Bool.false_ne_true]
    cases hrow : db.registers.get? skey.register with
    | none =>
      rw [hrow] at hwritable
      cases hwritable
    | some row =>
      rw [hrow] at hwritable
      exact hwritable
  · obtain ⟨hpair, hdesc, hcode⟩ := describes_of_committed hpair
    obtain ⟨-, s', hs', hstaged⟩ := hbefore hs
    rw [staged_committed, hcode, if_neg Bool.false_ne_true, ← hstaged]
    exact hrules.described _ _ _ hpair s' hs'
  · obtain ⟨s, hs⟩ := Dict.mem_keys.mp hskey
    obtain ⟨hpending, s', hs', -⟩ := hbefore (Dict.get?_eq_some_iff.mpr hs)
    obtain ⟨row, hrow⟩ := Dict.mem_keys.mp
      (hknown _ (Dict.mem_keys.mpr ⟨s', Dict.get?_eq_some_iff.mp hs'⟩))
    refine Dict.mem_keys.mpr ⟨{ row with isDirty := false }, Dict.get?_eq_some_iff.mp ?_⟩
    rw [get?_registers_committed, hpending, if_neg Bool.false_ne_true,
      Dict.get?_eq_some_iff.mpr hrow]
    rfl
  · rw [staged_committed] at hscreen'
    split at hscreen'
    · cases hscreen'
    · exact absurd (hscreen.symm.trans hscreen') (by decide)

end Commit

/-! ## Passes -/

/-- No edit of a selection waits for a commit. -/
def Clean (db : StagingDb) (deviceName : String) (key : RegisterKey) : Prop :=
  ∀ s, db.selections.get? ⟨deviceName, key⟩ = some s → s.isDirty = false

/-- The choices a pass leaves about a register: those of the files if the selection is clean, and
those that are staged if not. -/
structure Leaves (db : StagingDb) (disk : Disk) (scan : DeviceScan) (key : RegisterKey)
    (row : ProtocolRegister) (choices : Choices) : Prop where
  clean : db.Clean scan.deviceName key → choices = scan.choices disk row
  edited : ¬db.Clean scan.deviceName key → choices = db.staged scan.deviceName key

/-- A pass does not visit a register of a device. -/
def Unvisited (registers : RegisterTable) (config : Config) (deviceName : String)
    (key : RegisterKey) : Prop :=
  ∀ scan row, scan.deviceName = deviceName → ¬Visits registers config scan key row

/-- The condition for a pass, which reads the given registers, settings and files. -/
structure PassGuard (db : StagingDb) (registers : RegisterTable) (config : Config) (disk : Disk) :
    Prop where
  /-- the files name no clean register for both mask and screen -/
  exclusive : ∀ scan key row, Visits registers config scan key row →
    db.Clean scan.deviceName key →
      ¬((scan.choices disk row).maskEnabled = true ∧ (scan.choices disk row).screenEnabled = true)
  /-- the writable files name no clean register that cannot be written, -/
  writable : ∀ scan key row, Visits registers config scan key row →
    db.Clean scan.deviceName key → (scan.choices disk row).userWriteEnabled = true →
      row.isWritableByProtocol = true
  /-- and the register maps still allow the write selections that stay -/
  writable_kept : ∀ deviceName key, (db.staged deviceName key).userWriteEnabled = true →
    ¬db.Clean deviceName key ∨ Unvisited registers config deviceName key →
      (registers.get? key).any ProtocolRegister.isWritableByProtocol = true
  /-- a clean register is named for the screen anew only if its device has no mask selection, and
  its mask file names no clean register -/
  screen : ∀ scan key row, Visits registers config scan key row → db.Clean scan.deviceName key →
    (scan.choices disk row).screenEnabled = true →
      (db.staged scan.deviceName key).screenEnabled = false →
        db.maskInUse scan.deviceName = false ∧
          ∀ scan' key' row', scan'.deviceName = scan.deviceName →
            Visits registers config scan' key' row' → db.Clean scan'.deviceName key' →
              (scan'.choices disk row').maskEnabled = false
  /-- what is left about a register and its description is alike, -/
  alike : ∀ scan desc d code c, Describes registers desc code →
    Visits registers config scan desc d → Visits registers config scan code c →
      ∀ a b, Leaves db disk scan desc d a → Leaves db disk scan code c b → SameSelection a b
  /-- also where the pass does not come -/
  paired : ∀ deviceName desc code, Describes registers desc code →
    Unvisited registers config deviceName desc → ∀ s,
      db.selections.get? ⟨deviceName, desc⟩ = some s →
        SameSelection s.staged (db.staged deviceName code)

section Pass

variable {registers : RegisterTable} {config : Config} {disk : Disk}

theorem leaves_upsertSelection {scan : DeviceScan} {row : ProtocolRegister} :
    db.Leaves disk scan key row (upsertSelection (scan.choices disk row)
      (db.selections.get? ⟨scan.deviceName, key⟩)).staged := by
  constructor
  · intro hclean
    exact (upsertSelection_clean hclean).1
  · intro hedited
    unfold Clean at hedited
    cases hget : db.selections.get? ⟨scan.deviceName, key⟩ with
    | none =>
      rw [hget] at hedited
      exact absurd (fun s hs => absurd hs (by simp)) hedited
    | some s =>
      rw [hget] at hedited
      have hdirty : s.isDirty = true := by
        by_contra hclean
        exact hedited fun s' hs' => Option.some.inj hs' ▸ Bool.eq_false_iff.mpr hclean
      rw [staged_of_get? hget]
      simp [upsertSelection, DeviceProtocolSelection.markDirty, hdirty]

variable (db disk config) in
/-- The database after a pass. -/
def rescanned (settings : SettingTable) (registers : RegisterTable) : StagingDb where
  settings := settings
  registers := registers
  selections := syncSelections registers config disk db.selections

variable {settings : SettingTable}

/-- A pass over a register it visits, -/
theorem leaves_rescanned {scan : DeviceScan} {row : ProtocolRegister}
    (h : Visits registers config scan key row) : db.Leaves disk scan key row
      ((db.rescanned config disk settings registers).staged scan.deviceName key) := by
  rw [staged_of_get? (get?_syncSelections h)]
  exact leaves_upsertSelection

/-- and over one it does not. -/
theorem get?_rescanned (h : Unvisited registers config deviceName key) :
    (db.rescanned config disk settings registers).selections.get? ⟨deviceName, key⟩ =
      db.selections.get? ⟨deviceName, key⟩ :=
  get?_syncSelections_of_not h

theorem visits_or_unvisited (registers : RegisterTable) (config : Config) (deviceName : String)
    (key : RegisterKey) : (∃ scan row, scan.deviceName = deviceName ∧
      Visits registers config scan key row) ∨ Unvisited registers config deviceName key := by
  by_cases hvisits : ∃ scan row, scan.deviceName = deviceName ∧
      Visits registers config scan key row
  · exact Or.inl hvisits
  · exact Or.inr fun scan row hname hvisit => hvisits ⟨scan, row, hname, hvisit⟩

/-- What is left was staged, or is what the files say. -/
theorem Leaves.staged_or_choices {scan : DeviceScan} {row : ProtocolRegister} {choices : Choices}
    (h : db.Leaves disk scan key row choices) :
    ¬db.Clean scan.deviceName key ∧ choices = db.staged scan.deviceName key ∨
      db.Clean scan.deviceName key ∧ choices = scan.choices disk row := by
  by_cases hclean : db.Clean scan.deviceName key
  · exact Or.inr ⟨hclean, h.clean hclean⟩
  · exact Or.inl ⟨hclean, h.edited hclean⟩

/-- A pass visits both or neither of a register and its description. -/
theorem visits_of_sameMap {scan : DeviceScan} {key' : RegisterKey} {row row' : ProtocolRegister}
    (h : Visits registers config scan key row) (hmap : key'.sameMap key = true)
    (hrow' : registers.get? key' = some row') : Visits registers config scan key' row' := by
  obtain ⟨hscan, -, hprotocol⟩ := h
  refine ⟨hscan, hrow', ?_⟩
  unfold RegisterKey.sameMap at hmap
  rw [decide_eq_true_eq] at hmap
  rwa [hmap.1]

/-- A guarded pass leaves a register and its description alike. -/
theorem described_rescanned (hguard : db.PassGuard registers config disk) {desc code : RegisterKey}
    (hpair : Describes registers desc code) {s : DeviceProtocolSelection}
    (hs : (db.rescanned config disk settings registers).selections.get? ⟨deviceName, desc⟩ =
      some s) :
    SameSelection s.staged
      ((db.rescanned config disk settings registers).staged deviceName code) := by
  obtain ⟨d, c, hd, hc, hmap, -⟩ := id hpair
  rcases visits_or_unvisited registers config deviceName desc with
    ⟨scan, d', rfl, hvisits⟩ | hunvisited
  · have hcode := visits_of_sameMap hvisits (RegisterKey.sameMap_comm _ _ ▸ hmap) hc
    rw [← staged_of_get? hs]
    exact hguard.alike scan desc d' code c hpair hvisits hcode _ _ (leaves_rescanned hvisits)
      (leaves_rescanned hcode)
  · have hunvisited' : Unvisited registers config deviceName code :=
      fun scan row hname hvisit => hunvisited scan d hname (visits_of_sameMap hvisit hmap hd)
    rw [get?_rescanned hunvisited] at hs
    unfold staged
    rw [get?_rescanned hunvisited']
    exact hguard.paired deviceName desc code hpair hunvisited s hs

/-- A guarded pass makes no screen selection beside a mask selection. -/
theorem screenRule_rescanned (hguard : db.PassGuard registers config disk) :
    db.ScreenRule (db.rescanned config disk settings registers) := by
  intro deviceName key hbefore hafter
  rcases visits_or_unvisited registers config deviceName key with
    ⟨scan, row, rfl, hvisits⟩ | hunvisited
  · rcases (leaves_rescanned hvisits).staged_or_choices with ⟨-, heq⟩ | ⟨hclean, heq⟩
    · rw [heq, hbefore] at hafter
      cases hafter
    · rw [heq] at hafter
      obtain ⟨hmask, hfiles⟩ := hguard.screen scan key row hvisits hclean hafter hbefore
      refine ⟨hmask, maskInUse_eq_false_iff.mpr fun key' => ?_⟩
      have hstaged := maskInUse_eq_false_iff.mp hmask key'
      rcases visits_or_unvisited registers config scan.deviceName key' with
        ⟨scan', row', hname, hvisits'⟩ | hunvisited'
      · rw [← hname] at hstaged ⊢
        rcases (leaves_rescanned hvisits').staged_or_choices with ⟨-, heq'⟩ | ⟨hclean', heq'⟩
        · rwa [heq']
        · rw [heq']
          exact hfiles scan' key' row' hname hvisits' hclean'
      · unfold staged at hstaged ⊢
        rwa [get?_rescanned hunvisited']
  · unfold staged at hbefore hafter
    rw [get?_rescanned hunvisited, hbefore] at hafter
    cases hafter

/-- **A guarded pass keeps the rules.** It forgets no register. -/
theorem kept_rescanned (hrules : db.SelectionRules) (hknown : db.SelectionsKnown)
    (hregisters : db.registers.keys <+: registers.keys)
    (hguard : db.PassGuard registers config disk) :
    Kept db (db.rescanned config disk settings registers) := by
  refine ⟨⟨?_, ?_, fun deviceName desc code hpair s hs => described_rescanned hguard hpair hs⟩, ?_,
    screenRule_rescanned hguard⟩
  · rintro ⟨deviceName, key⟩ s hs
    rcases visits_or_unvisited registers config deviceName key with
      ⟨scan, row, rfl, hvisits⟩ | hunvisited
    · rw [← staged_of_get? hs]
      rcases (leaves_rescanned hvisits).staged_or_choices with ⟨-, heq⟩ | ⟨hclean, heq⟩
      · rw [heq]
        exact exclusive_staged hrules _ _
      · rw [heq]
        exact hguard.exclusive scan key row hvisits hclean
    · rw [get?_rescanned hunvisited] at hs
      exact hrules.exclusive _ s hs
  · rintro ⟨deviceName, key⟩ s hs hwrite
    rcases visits_or_unvisited registers config deviceName key with
      ⟨scan, row, rfl, hvisits⟩ | hunvisited
    · rw [← staged_of_get? hs] at hwrite
      rcases (leaves_rescanned hvisits).staged_or_choices with ⟨hedited, heq⟩ | ⟨hclean, heq⟩
      · rw [heq] at hwrite
        exact hguard.writable_kept _ _ hwrite (Or.inl hedited)
      · rw [heq] at hwrite
        have hrow : registers.get? key = some row := hvisits.2.1
        show (registers.get? key).any _ = true
        rw [hrow]
        exact hguard.writable scan key row hvisits hclean hwrite
    · rw [get?_rescanned hunvisited] at hs
      rw [← staged_of_get? hs] at hwrite
      exact hguard.writable_kept _ _ hwrite (Or.inr hunvisited)
  · rintro ⟨deviceName, key⟩ hskey
    show key ∈ registers.keys
    rcases visits_or_unvisited registers config deviceName key with
      ⟨scan, row, rfl, hvisits⟩ | hunvisited
    · exact Dict.mem_keys.mpr ⟨row, Dict.get?_eq_some_iff.mp hvisits.2.1⟩
    · obtain ⟨s, hs⟩ := Dict.mem_keys.mp hskey
      rw [← Dict.get?_eq_some_iff, get?_rescanned hunvisited, Dict.get?_eq_some_iff] at hs
      exact hregisters.subset (hknown _ (Dict.mem_keys.mpr ⟨s, hs⟩))

end Pass

end StagingDb

/-! ## Runs -/

/-- The staging database and the files. -/
structure SelectionState where
  db : StagingDb
  disk : Disk

/-- What changes selections. -/
inductive SelectionOp
  /-- the `toggle` route, with the live transport's descriptions -/
  | toggle (deviceName : String) (field : ChoiceField) (value : Bool) (key : RegisterKey)
    (transport : Option (List DescriptionRow))
  /-- the `create-and-toggle` route -/
  | createAndToggle (protocolName registryType deviceName : String) (payload : VirtualToggle)
  /-- `commit_all` -/
  | commit
  /-- a scanner pass that reads the given register maps -/
  | rescan (cfgIsTruth : Bool) (parsed : List ParsedRegister)

section Run

variable (optionxform : String → String) (library : TransportLibrary)

/-- One step. A request that is refused changes nothing, and neither does a pass that cannot read
`config.cfg`. -/
def SelectionOp.apply (st : SelectionState) : SelectionOp → SelectionState
  | .toggle deviceName field value key transport =>
    { st with db := (st.db.toggleRegister deviceName field value key transport).getD st.db }
  | .createAndToggle protocolName registryType deviceName payload =>
    { st with db :=
        (st.db.materializeAndToggle protocolName registryType deviceName payload).getD st.db }
  | .commit => { db := st.db.committed, disk := st.db.committedDisk st.disk }
  | .rescan cfgIsTruth parsed =>
    match loadConfig optionxform st.disk.config with
    | none => st
    | some config =>
      { st with db := st.db.rescanned config st.disk
                  (scanSettings library cfgIsTruth config st.db.settings)
                  (scanRegisters parsed st.db.registers) }

/-- When a step keeps the rules. A commit always does. -/
def SelectionOp.Keeps (st : SelectionState) : SelectionOp → Prop
  | .toggle deviceName field value key transport =>
    st.db.RouteGuard deviceName field value key transport
  | .createAndToggle protocolName registryType deviceName payload =>
    st.db.CreateGuard protocolName registryType deviceName payload
  | .commit => True
  | .rescan _ parsed => ∀ config, loadConfig optionxform st.disk.config = some config →
      st.db.PassGuard (scanRegisters parsed st.db.registers) config st.disk

/-- The runs from any state whose selections obey the rules. -/
def selectionSystem : System SelectionState SelectionOp where
  init st := st.db.SelectionRules ∧ st.db.SelectionsKnown
  step st op st' := op.apply optionxform library st = st'

variable {optionxform}

/-- Every step that meets its condition keeps the rules. -/
theorem SelectionOp.kept {st : SelectionState} (hrules : st.db.SelectionRules)
    (hknown : st.db.SelectionsKnown) {op : SelectionOp} (hop : op.Keeps optionxform st) :
    StagingDb.Kept st.db (op.apply optionxform library st).db := by
  cases op with
  | toggle deviceName field value key transport =>
    exact .getD hrules hknown fun db' h => StagingDb.kept_toggleRegister hrules hknown h hop
  | createAndToggle protocolName registryType deviceName payload =>
    exact .getD hrules hknown fun db' h => StagingDb.kept_materializeAndToggle hrules hknown h hop
  | commit => exact StagingDb.kept_committed hrules hknown
  | rescan cfgIsTruth parsed =>
    unfold SelectionOp.apply
    dsimp only
    split
    · exact .refl hrules hknown
    · next config hconfig =>
      exact StagingDb.kept_rescanned hrules hknown (Dict.keys_prefix_upsertAll _ _)
        (hop config hconfig)

/-- **The rules of the selections** hold in every state that a run of guarded steps reaches, and the
next guarded step makes no screen selection beside a mask selection. -/
theorem selectionRules_of_reach (optionxform : String → String) (library : TransportLibrary)
    (st : SelectionState)
    (h : Reach (selectionSystem optionxform library) (SelectionOp.Keeps optionxform) st) :
    st.db.SelectionRules ∧ ∀ op : SelectionOp, op.Keeps optionxform st →
      st.db.ScreenRule (op.apply optionxform library st).db := by
  have hst : st.db.SelectionRules ∧ st.db.SelectionsKnown := by
    refine Reach.invariant (P := fun st => st.db.SelectionRules ∧ st.db.SelectionsKnown)
      (fun st hinit => hinit) (fun st op st' _ hst hop hstep => ?_) h
    obtain rfl : op.apply optionxform library st = st' := hstep
    have hkept := SelectionOp.kept library hst.1 hst.2 hop
    exact ⟨hkept.rules, hkept.known⟩
  exact ⟨hst.1, fun op hop => (SelectionOp.kept library hst.1 hst.2 hop).screen⟩

end Run

section Example

/-- A code register of an inverter. -/
def modeRegister : ProtocolRegister := { variableName := "mode", documentedName := "mode" }

/-- The row of its description. -/
def modeDescription : ProtocolRegister where
  variableName := "mode_desc"
  documentedName := "mode_desc"
  isJsonDesc := true
  sourceVariableName := some "mode"

def modeKey : RegisterKey := StagingDb.inverterKey "holding" "40"

def modeDescriptionKey : RegisterKey := StagingDb.inverterKey "holding" "~json_desc:mode_desc"

/-- Nothing is selected yet. -/
def modeState : SelectionState where
  db := { settings := StagingDb.inverterSettings
          registers :=
            (Dict.empty.set modeKey modeRegister).set modeDescriptionKey modeDescription }
  disk := emptyDisk

/-- Without selections the rules hold. -/
theorem init_of_no_selections (optionxform : String → String) (library : TransportLibrary)
    (st : SelectionState) (h : st.db.selections = Dict.empty) :
    (selectionSystem optionxform library).init st := by
  have hnone (key : SelectionKey) (s : DeviceProtocolSelection)
      (hs : st.db.selections.get? key = some s) : False := by
    rw [h] at hs
    cases hs
  refine ⟨⟨fun key s hs => (hnone key s hs).elim, fun key s hs => (hnone key s hs).elim,
    fun deviceName desc _ _ s hs => (hnone ⟨deviceName, desc⟩ s hs).elim⟩, fun _ hkey => ?_⟩
  rw [h] at hkey
  cases hkey

/-- A library without transports. -/
def noTransports : TransportLibrary := ⟨Dict.empty, Dict.empty, Dict.empty⟩

/-- The same register without a row for its description. -/
def plainState : SelectionState where
  db := { settings := StagingDb.inverterSettings, registers := Dict.empty.set modeKey modeRegister }
  disk := emptyDisk

theorem not_isJsonDesc_plain {key : RegisterKey} {row : ProtocolRegister}
    (h : plainState.db.registers.get? key = some row) : row.isJsonDesc ≠ true := by
  have h := (Dict.get?_set _ _ _ _).symm.trans h
  split at h
  · obtain rfl := Option.some.inj h
    decide
  · cases h

/-- A toggle of a register that has no description meets its condition. -/
theorem routeGuard_plain (field : ChoiceField) (value : Bool) :
    plainState.db.RouteGuard "inv" field value modeKey none where
  toggle :=
    { unambiguous := fun desc code ⟨_, _, hd, _, _, hdesc, _⟩ =>
        absurd hdesc (not_isJsonDesc_plain hd)
      source_real := fun d hd hdesc => absurd hdesc (not_isJsonDesc_plain hd)
      alike := fun desc code ⟨_, _, hd, _, _, hdesc, _⟩ => absurd hdesc (not_isJsonDesc_plain hd) }
  description row desc _ hdesc := by
    unfold StagingDb.liveDescription? at hdesc
    split at hdesc <;> cases hdesc

/-- The register is masked. -/
def maskToggle : SelectionOp := .toggle "inv" .maskEnabled true modeKey none

/-- The rules hold after the toggle, and a commit makes no screen selection. -/
theorem selectionRules_masked :
    (maskToggle.apply lowerText noTransports plainState).db.SelectionRules ∧
      (maskToggle.apply lowerText noTransports plainState).db.ScreenRule
        (SelectionOp.commit.apply lowerText noTransports
          (maskToggle.apply lowerText noTransports plainState)).db := by
  have hkeeps : maskToggle.Keeps lowerText plainState := routeGuard_plain _ _
  have hinit := init_of_no_selections lowerText noTransports plainState rfl
  obtain ⟨hrules, hscreen⟩ := selectionRules_of_reach lowerText noTransports _
    ((Reach.init hinit).step hkeeps rfl)
  exact ⟨hrules, hscreen .commit trivial⟩

/-- The state after a toggle of the register and its description, and a commit. -/
def modeCommitted : SelectionState :=
  SelectionOp.apply lowerText noTransports (SelectionOp.apply lowerText noTransports modeState
    (.toggle "inv" .maskEnabled true modeKey none)) .commit

/-- What a pass reads of the inverter's section. -/
def modeScan : DeviceScan := ⟨"inv", "eg4", maskFile "inv", screenFile "inv", false⟩

/-- A pass after a commit takes the mask selection of a description away: the mask file names its
register only. -/
theorem not_selectionRules_rescanned : ¬ ∀ (optionxform : String → String)
    (library : TransportLibrary) (st : SelectionState),
    Reachable (selectionSystem optionxform library) st → st.db.SelectionRules := by
  intro hall
  have hcommitted : Reachable (selectionSystem lowerText noTransports) modeCommitted :=
    ((Reach.init (init_of_no_selections _ _ _ rfl)).step trivial rfl).step trivial rfl
  have hrules := hall lowerText noTransports _
    (hcommitted.step (i := .rescan false []) trivial rfl)
  have hload : loadConfig lowerText modeCommitted.disk.config = some inverterConfig := by decide
  unfold SelectionOp.apply at hrules
  dsimp only at hrules
  rw [hload] at hrules
  have hvisits (key : RegisterKey) (row : ProtocolRegister)
      (hrow : modeCommitted.db.registers.get? key = some row)
      (hprotocol : ofProtocol "eg4" key.protocolName = true) :
      Visits modeCommitted.db.registers inverterConfig modeScan key row :=
    ⟨⟨("transport.inv", Dict.empty.set "protocol_version" "eg4"), by decide, by decide⟩, hrow,
      hprotocol⟩
  have hdesc := hvisits modeDescriptionKey modeDescription (by decide) (by decide)
  have hcode := hvisits modeKey modeRegister (by decide) (by decide)
  have hclean (key : RegisterKey) : modeCommitted.db.Clean "inv" key :=
    fun s => StagingDb.isDirty_of_committed
  have hpair : Describes modeCommitted.db.registers modeDescriptionKey modeKey :=
    ⟨modeDescription, modeRegister, hdesc.2.1, hcode.2.1, by decide, rfl, rfl, rfl, by decide, rfl⟩
  obtain ⟨hmask, -⟩ := hrules.described "inv" _ _ hpair _ (get?_syncSelections hdesc)
  have hleft : ((modeCommitted.db.rescanned inverterConfig modeCommitted.disk
      (scanSettings noTransports false inverterConfig modeCommitted.db.settings)
        modeCommitted.db.registers).staged "inv" modeKey) =
          modeScan.choices modeCommitted.disk modeRegister :=
    (StagingDb.leaves_rescanned hcode).clean (hclean modeKey)
  replace hmask := (congrArg Choices.maskEnabled
    (upsertSelection_clean (hclean modeDescriptionKey)).1).symm.trans hmask
  replace hmask := hmask.trans (congrArg Choices.maskEnabled hleft)
  have hdescMask : (modeScan.choices modeCommitted.disk modeDescription).maskEnabled = false := by
    decide
  have hcodeMask : (modeScan.choices modeCommitted.disk modeRegister).maskEnabled = true := by
    decide
  exact absurd (hdescMask.symm.trans (hmask.trans hcodeMask)) (by decide)

end Example

end ProtocolGateway
