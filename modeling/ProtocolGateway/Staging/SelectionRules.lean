import ProtocolGateway.Staging.Toggle
import ProtocolGateway.Staging.SelectionScan

/-!
# The rules of the selections

`SelectionRules` are the rules that the selections are meant to obey after any sequence of toggles,
commits and scanner passes; `ScreenRule` is the one about steps.

A toggle changes the same field in a set of registers of one device (`Toggled`). It keeps the rules
if that set has both or neither of a register and its description, and if a description that is
selected for the first time does not miss a choice of its register (`ToggleGuard`).
-/

namespace ProtocolGateway

/-! ## Rules -/

theorem RegisterKey.sameMap_comm (key key' : RegisterKey) :
    key.sameMap key' = key'.sameMap key := by
  unfold RegisterKey.sameMap
  rw [Bool.eq_iff_iff, decide_eq_true_eq, decide_eq_true_eq]
  exact and_congr eq_comm eq_comm

theorem RegisterKey.sameMap_trans {key key' key'' : RegisterKey} (h : key.sameMap key' = true)
    (h' : key'.sameMap key'' = true) : key.sameMap key'' = true := by
  unfold RegisterKey.sameMap at *
  rw [decide_eq_true_eq] at *
  exact ⟨h.1.trans h'.1, h.2.trans h'.2⟩

/-- A description row and the code register it describes. -/
def Describes (registers : RegisterTable) (desc code : RegisterKey) : Prop :=
  ∃ d c, registers.get? desc = some d ∧ registers.get? code = some c ∧ desc.sameMap code = true ∧
    d.isJsonDesc = true ∧ c.isJsonDesc = false ∧ c.isSynthetic = false ∧ c.variableName ≠ "" ∧
      d.sourceVariableName = some c.variableName

/-- Two registers are masked alike and screened alike. -/
def SameSelection (a b : Choices) : Prop :=
  a.maskEnabled = b.maskEnabled ∧ a.screenEnabled = b.screenEnabled

namespace StagingDb

variable (db : StagingDb)

/-- The choices of a device about a register; without a row none is made. -/
def staged (deviceName : String) (key : RegisterKey) : Choices :=
  ((db.selections.get? ⟨deviceName, key⟩).map DeviceProtocolSelection.staged).getD {}

/-- What holds of the selections. -/
structure SelectionRules : Prop where
  exclusive : ∀ key s, db.selections.get? key = some s →
    ¬(s.staged.maskEnabled = true ∧ s.staged.screenEnabled = true)
  writable : ∀ key s, db.selections.get? key = some s → s.staged.userWriteEnabled = true →
    (db.registers.get? key.register).any ProtocolRegister.isWritableByProtocol = true
  described : ∀ deviceName desc code, Describes db.registers desc code →
    ∀ s, db.selections.get? ⟨deviceName, desc⟩ = some s →
      SameSelection s.staged (db.staged deviceName code)

/-- Selections are for registers that are there. -/
def SelectionsKnown : Prop :=
  ∀ key ∈ db.selections.keys, key.register ∈ db.registers.keys

/-- Nothing becomes screen-selected while the device has a mask selection. -/
def ScreenRule (db' : StagingDb) : Prop :=
  ∀ deviceName key, (db.staged deviceName key).screenEnabled = false →
    (db'.staged deviceName key).screenEnabled = true →
      db.maskInUse deviceName = false ∧ db'.maskInUse deviceName = false

variable {db} {deviceName : String} {key : RegisterKey}

theorem staged_of_get? {s : DeviceProtocolSelection}
    (h : db.selections.get? ⟨deviceName, key⟩ = some s) : db.staged deviceName key = s.staged := by
  rw [staged, h]
  rfl

theorem staged_of_selections_eq {db' : StagingDb} (h : db'.selections = db.selections) :
    db'.staged = db.staged := by
  unfold staged
  rw [h]

/-- A device has a mask selection if it masks a register. -/
theorem maskInUse_iff :
    db.maskInUse deviceName = true ↔ ∃ key, (db.staged deviceName key).maskEnabled = true := by
  rw [maskInUse, List.any_eq_true]
  constructor
  · rintro ⟨⟨key, s⟩, hmem, htest⟩
    rw [decide_eq_true_eq] at htest
    obtain ⟨rfl, hmask⟩ := htest
    exact ⟨key.register, by rwa [staged_of_get? (Dict.get?_eq_some_iff.mpr hmem)]⟩
  · rintro ⟨key, hmask⟩
    cases hget : db.selections.get? ⟨deviceName, key⟩ with
    | none =>
      rw [staged, hget] at hmask
      cases hmask
    | some s =>
      rw [staged_of_get? hget] at hmask
      exact ⟨_, Dict.get?_eq_some_iff.mp hget, by simpa using hmask⟩

theorem maskInUse_eq_false_iff :
    db.maskInUse deviceName = false ↔ ∀ key, (db.staged deviceName key).maskEnabled = false := by
  rw [← Bool.not_eq_true, maskInUse_iff]
  simp

end StagingDb

/-! ## Toggles -/

namespace Choices

variable (choices : Choices) (value : Bool) (field : ChoiceField)

theorem setField_setField :
    (choices.setField value field).setField value field = choices.setField value field := by
  cases field <;> simp [setField]

/-- Setting a field leaves a register masked or screened, but not both. -/
theorem setField_exclusive (h : ¬(choices.maskEnabled = true ∧ choices.screenEnabled = true)) :
    ¬((choices.setField value field).maskEnabled = true ∧
      (choices.setField value field).screenEnabled = true) := by
  cases field <;> cases value <;> simp_all [setField]

/-- Setting a field in both keeps two registers alike. -/
theorem SameSelection.setField {a b : Choices} (h : SameSelection a b) :
    SameSelection (a.setField value field) (b.setField value field) := by
  obtain ⟨hmask, hscreen⟩ := h
  cases field <;> simp [SameSelection, Choices.setField, hmask, hscreen]

/-- Switching a mask or screen selection on makes two registers alike. -/
theorem sameSelection_setField_true {a b : Choices} (h : field ≠ .userWriteEnabled) :
    SameSelection (a.setField true field) (b.setField true field) := by
  cases field with
  | userWriteEnabled => exact absurd rfl h
  | maskEnabled => simp [SameSelection, Choices.setField]
  | screenEnabled => simp [SameSelection, Choices.setField]

end Choices

/-- A field was set in some registers of a device, and nothing else was changed. -/
structure Toggled (db db' : StagingDb) (deviceName : String) (field : ChoiceField) (value : Bool)
    (touched : RegisterKey → Prop) : Prop where
  set : ∀ key, touched key → ∃ s, db'.selections.get? ⟨deviceName, key⟩ = some s ∧
    s.staged = (db.staged deviceName key).setField value field
  kept : ∀ deviceName' key, ¬(deviceName' = deviceName ∧ touched key) →
    db'.selections.get? ⟨deviceName', key⟩ = db.selections.get? ⟨deviceName', key⟩

namespace Toggled

variable {db db' db'' : StagingDb} {deviceName : String} {field : ChoiceField} {value : Bool}
  {touched touched' : RegisterKey → Prop}

theorem staged_set (h : Toggled db db' deviceName field value touched) {key : RegisterKey}
    (hkey : touched key) :
    db'.staged deviceName key = (db.staged deviceName key).setField value field := by
  obtain ⟨s, hs, hstaged⟩ := h.set key hkey
  rw [StagingDb.staged_of_get? hs, hstaged]

theorem staged_kept (h : Toggled db db' deviceName field value touched) {deviceName' : String}
    {key : RegisterKey} (hkey : ¬(deviceName' = deviceName ∧ touched key)) :
    db'.staged deviceName' key = db.staged deviceName' key := by
  rw [StagingDb.staged, h.kept _ _ hkey, StagingDb.staged]

/-- Two toggles of one field are a toggle. -/
theorem trans (h : Toggled db db' deviceName field value touched)
    (h' : Toggled db' db'' deviceName field value touched') :
    Toggled db db'' deviceName field value fun key => touched key ∨ touched' key where
  set key hkey := by
    by_cases htouched' : touched' key
    · obtain ⟨s, hs, hstaged⟩ := h'.set key htouched'
      refine ⟨s, hs, ?_⟩
      by_cases htouched : touched key
      · rw [hstaged, h.staged_set htouched, Choices.setField_setField]
      · rw [hstaged, h.staged_kept fun hand => htouched hand.2]
    · have htouched := hkey.resolve_right htouched'
      rw [h'.kept _ _ fun hand => htouched' hand.2]
      exact h.set key htouched
  kept deviceName' key hkey := by
    rw [h'.kept _ _ fun hand => hkey ⟨hand.1, Or.inr hand.2⟩,
      h.kept _ _ fun hand => hkey ⟨hand.1, Or.inl hand.2⟩]

/-- Toggling nothing. -/
theorem of_selections_eq (h : db'.selections = db.selections) :
    Toggled db db' deviceName field value fun _ => False where
  set _ hkey := hkey.elim
  kept _ _ _ := by rw [h]

/-- What was no selection before a toggle does not count for it. -/
theorem of_left (h : Toggled db' db'' deviceName field value touched)
    (hselections : db'.selections = db.selections) :
    Toggled db db'' deviceName field value touched where
  set := StagingDb.staged_of_selections_eq hselections ▸ h.set
  kept := hselections ▸ h.kept

theorem congr (h : Toggled db db' deviceName field value touched)
    (hsame : ∀ key, touched key ↔ touched' key) :
    Toggled db db' deviceName field value touched' :=
  (funext fun key => propext (hsame key) : touched = touched') ▸ h

end Toggled

namespace StagingDb

variable {db db' : StagingDb} {deviceName : String} {field : ChoiceField} {value : Bool}
  {key : RegisterKey} {row : ProtocolRegister}

/-- What `_toggle_selection_for_row` does. -/
theorem toggled_of_toggleSelection
    (h : db.toggleSelection deviceName field value key row = some db') :
    Toggled db db' deviceName field value (· = key) ∧ db'.registers = db.registers ∧
      (field = .userWriteEnabled → value = true → row.isWritableByProtocol = true) := by
  unfold toggleSelection at h
  split at h
  · cases h
  · next hallowed =>
    obtain rfl := Option.some.inj h
    refine ⟨⟨?_, fun deviceName' key' hkey => ?_⟩, rfl, fun hfield hvalue => ?_⟩
    · rintro key rfl
      refine ⟨_, (Dict.get?_set _ _ _ _).trans (if_pos rfl), ?_⟩
      unfold staged DeviceProtocolSelection.markDirty
      cases db.selections.get? ⟨deviceName, key⟩ <;> rfl
    · refine (Dict.get?_set _ _ _ _).trans (if_neg fun heq => hkey ?_)
      obtain ⟨rfl, rfl⟩ := SelectionKey.mk.inj heq
      exact ⟨rfl, rfl⟩
    · by_contra hwritable
      exact hallowed ⟨hfield, hvalue, by simpa using hwritable⟩

variable (db deviceName field value key row) in
/-- What the cascade does. -/
theorem toggled_toggleCounterpart :
    Toggled db (db.toggleCounterpart deviceName field value key row) deviceName field value
        (fun key' => field ≠ .userWriteEnabled ∧
          ∃ row', db.counterpart? key row = some (key', row')) ∧
      (db.toggleCounterpart deviceName field value key row).registers = db.registers := by
  unfold toggleCounterpart
  split
  · next hfield =>
    exact ⟨(Toggled.of_selections_eq rfl).congr fun key' =>
      ⟨False.elim, fun h => h.1 hfield⟩, rfl⟩
  · next hfield =>
    split
    · next hnone =>
      refine ⟨(Toggled.of_selections_eq rfl).congr fun key' => ⟨False.elim, ?_⟩, rfl⟩
      rintro ⟨-, row', hrow'⟩
      rw [hnone] at hrow'
      cases hrow'
    · next kr hsome =>
      have hallowed : ∃ db', db.toggleSelection deviceName field value kr.1 kr.2 = some db' := by
        unfold toggleSelection
        rw [if_neg fun h => hfield h.1]
        exact ⟨_, rfl⟩
      obtain ⟨db', hdb'⟩ := hallowed
      obtain ⟨htoggled, hregisters, -⟩ := toggled_of_toggleSelection hdb'
      rw [hdb', Option.getD_some]
      refine ⟨htoggled.congr fun key' => ⟨?_, ?_⟩, hregisters⟩
      · rintro rfl
        exact ⟨hfield, kr.2, hsome⟩
      · rintro ⟨-, row', hrow'⟩
        exact (congrArg Prod.fst (Option.some.inj (hrow'.symm.trans hsome)))

/-- The registers `toggle_register_field` toggles a field of. -/
def Touches (db : StagingDb) (field : ChoiceField) (key key' : RegisterKey) : Prop :=
  key' = key ∨ field ≠ .userWriteEnabled ∧ ∃ row, db.registers.get? key = some row ∧
    ∃ row', db.counterpart? key row = some (key', row')

/-- **What `toggle_register_field` does.** -/
theorem toggled_of_toggleRegisterField
    (h : db.toggleRegisterField deviceName field value key = some db') :
    Toggled db db' deviceName field value (db.Touches field key) ∧
      db'.registers = db.registers ∧ db.refusesScreen deviceName field value = false ∧
      ∃ row, db.registers.get? key = some row ∧
        (field = .userWriteEnabled → value = true → row.isWritableByProtocol = true) := by
  unfold toggleRegisterField at h
  split at h
  · cases h
  · next hallowed =>
    rw [not_or, Bool.not_eq_true] at hallowed
    obtain ⟨row, hrow, h⟩ := Option.bind_eq_some_iff.mp h
    obtain ⟨db1, hdb1, rfl⟩ := Option.map_eq_some_iff.mp h
    obtain ⟨htoggled, hregisters, hwritable⟩ := toggled_of_toggleSelection hdb1
    obtain ⟨htoggled', hregisters'⟩ :=
      toggled_toggleCounterpart db1 deviceName field value key row
    have hcounterpart : db1.counterpart? key row = db.counterpart? key row := by
      unfold counterpart?
      rw [hregisters]
    refine ⟨(htoggled.trans htoggled').congr fun key' => or_congr_right ?_,
      hregisters'.trans hregisters, hallowed.2, row, hrow, hwritable⟩
    rw [hcounterpart]
    refine and_congr_right fun _ => ⟨fun h => ⟨row, hrow, h⟩, ?_⟩
    rintro ⟨row', hrow', h⟩
    rwa [Option.some.inj (hrow.symm.trans hrow')]

/-! ### Which toggles keep the rules -/

/-- A toggle of a register keeps its description in step, if there is one. -/
structure ToggleGuard (db : StagingDb) (registers : RegisterTable) (deviceName : String)
    (field : ChoiceField) (value : Bool) (key : RegisterKey) : Prop where
  /-- the register and its description find each other by name -/
  unambiguous : ∀ desc code, Describes registers desc code → key = desc ∨ key = code →
    (∀ c code' c', registers.get? code = some c → registers.get? code' = some c' →
      code'.sameMap code = true → c'.variableName = c.variableName → code' = code) ∧
      ∀ desc', Describes registers desc' code → desc' = desc
  /-- a description does not describe a description -/
  source_real : ∀ d, registers.get? key = some d → d.isJsonDesc = true →
    ∀ key' d', registers.get? key' = some d' → key'.sameMap key = true →
      some d'.variableName = d.sourceVariableName → d'.isJsonDesc = false
  /-- unless the toggle sets both, the two are alike before: a description that has not been
  selected before gets a row of its own -/
  alike : ∀ desc code, Describes registers desc code →
    key = desc ∨ key = code ∧ field ≠ .userWriteEnabled →
      value = true ∧ field ≠ .userWriteEnabled ∨
        SameSelection (db.staged deviceName desc) (db.staged deviceName code)

/-- What the lookup by name finds. -/
theorem of_counterpart? {key' : RegisterKey} {row' : ProtocolRegister}
    (h : db.counterpart? key row = some (key', row')) :
    db.registers.get? key' = some row' ∧ key'.sameMap key = true ∧
      (row.isJsonDesc = true ∧ some row'.variableName = row.sourceVariableName ∨
        row.isJsonDesc = false ∧ row.isSynthetic = false ∧ row'.isJsonDesc = true ∧
          row'.sourceVariableName = some row.variableName) := by
  unfold counterpart? at h
  dsimp only at h
  rw [Option.filter_eq_some_iff] at h
  obtain ⟨h, -⟩ := h
  split at h
  · next hdesc =>
    have htest := List.find?_some h
    rw [decide_eq_true_eq] at htest
    exact ⟨Dict.get?_eq_some_iff.mpr (List.mem_of_find?_eq_some h), htest.1,
      Or.inl ⟨hdesc.1, htest.2⟩⟩
  · split at h
    · next hreal =>
      have htest := List.find?_some h
      rw [decide_eq_true_eq] at htest
      rw [Bool.not_eq_true', Bool.not_eq_true'] at hreal
      exact ⟨Dict.get?_eq_some_iff.mpr (List.mem_of_find?_eq_some h), htest.1,
        Or.inr ⟨hreal.2, hreal.1, htest.2⟩⟩
    · cases h

/-- A search finds the only element that passes the test. -/
theorem find?_eq_some_of_unique {α : Type} {p : α → Bool} {xs : List α} {x : α} (hx : x ∈ xs)
    (hp : p x = true) (hunique : ∀ y ∈ xs, p y = true → y = x) : xs.find? p = some x := by
  cases hfind : xs.find? p with
  | none => exact absurd hp (by simpa using List.find?_eq_none.mp hfind x hx)
  | some y => rw [hunique y (List.mem_of_find?_eq_some hfind) (List.find?_some hfind)]

/-- The lookup finds the register of a description by its name. -/
theorem counterpart?_of_desc {desc code : RegisterKey} {d c : ProtocolRegister}
    (hd : d.isJsonDesc = true) (hname : c.variableName ≠ "")
    (hsource : d.sourceVariableName = some c.variableName)
    (hcode : db.registers.get? code = some c) (hmap : code.sameMap desc = true) (hne : code ≠ desc)
    (hunique : ∀ code' c', db.registers.get? code' = some c' → code'.sameMap desc = true →
      c'.variableName = c.variableName → code' = code) :
    db.counterpart? desc d = some (code, c) := by
  have hset : isSet d.sourceVariableName = true := by
    rw [hsource]
    simpa [isSet] using hname
  have hfind : db.registers.items.find? (fun kr =>
      kr.1.sameMap desc ∧ some kr.2.variableName = d.sourceVariableName) = some (code, c) := by
    refine find?_eq_some_of_unique (Dict.get?_eq_some_iff.mp hcode) ?_ fun kr hkr htest => ?_
    · rw [decide_eq_true_eq, hsource]
      exact ⟨hmap, rfl⟩
    · rw [decide_eq_true_eq, hsource] at htest
      have hkey := hunique kr.1 kr.2 (Dict.get?_eq_some_iff.mpr hkr) htest.1
        (Option.some.inj htest.2)
      have hrow : db.registers.get? code = some kr.2 := hkey ▸ Dict.get?_eq_some_iff.mpr hkr
      exact Prod.ext hkey (Option.some.inj (hrow.symm.trans hcode))
  unfold counterpart?
  rw [if_pos ⟨hd, hset⟩, hfind, Option.filter_some, if_pos (by simpa using hne)]

/-- The lookup finds the description of a register by its source. -/
theorem counterpart?_of_code {desc code : RegisterKey} {d c : ProtocolRegister}
    (hc : c.isJsonDesc = false ∧ c.isSynthetic = false)
    (hdesc : db.registers.get? desc = some d) (hd : d.isJsonDesc = true)
    (hsource : d.sourceVariableName = some c.variableName) (hmap : desc.sameMap code = true)
    (hne : desc ≠ code)
    (hunique : ∀ desc' d', db.registers.get? desc' = some d' → desc'.sameMap code = true →
      d'.isJsonDesc = true → d'.sourceVariableName = some c.variableName → desc' = desc) :
    db.counterpart? code c = some (desc, d) := by
  have hfind : db.registers.items.find? (fun kr => kr.1.sameMap code ∧ kr.2.isJsonDesc ∧
      kr.2.sourceVariableName = some c.variableName) = some (desc, d) := by
    refine find?_eq_some_of_unique (Dict.get?_eq_some_iff.mp hdesc) ?_ fun kr hkr htest => ?_
    · rw [decide_eq_true_eq]
      exact ⟨hmap, hd, hsource⟩
    · rw [decide_eq_true_eq] at htest
      have hkey := hunique kr.1 kr.2 (Dict.get?_eq_some_iff.mpr hkr) htest.1 htest.2.1 htest.2.2
      have hrow : db.registers.get? desc = some kr.2 := hkey ▸ Dict.get?_eq_some_iff.mpr hkr
      exact Prod.ext hkey (Option.some.inj (hrow.symm.trans hdesc))
  unfold counterpart?
  rw [if_neg (by simp [hc.1]), if_pos (by simp [hc.1, hc.2]), hfind, Option.filter_some,
    if_pos (by simpa using hne)]

/-- A guarded toggle touches both or neither of a register and its description. -/
theorem touches_pair (hguard : db.ToggleGuard db.registers deviceName field value key)
    (hfield : field ≠ .userWriteEnabled) {desc code : RegisterKey}
    (hpair : Describes db.registers desc code) :
    db.Touches field key desc ↔ db.Touches field key code := by
  obtain ⟨d, c, hdesc, hcode, hmap, hd, hc, hsynthetic, hname, hsource⟩ := id hpair
  have hne : code ≠ desc := by
    rintro rfl
    rw [Option.some.inj (hdesc.symm.trans hcode), hc] at hd
    cases hd
  have hmap' : code.sameMap desc = true := RegisterKey.sameMap_comm _ _ ▸ hmap
  constructor
  · rintro (rfl | ⟨-, row, hrow, d', hfound⟩)
    · -- the description was asked for, and finds its register
      obtain ⟨hcodes, -⟩ := hguard.unambiguous _ _ hpair (Or.inl rfl)
      exact Or.inr ⟨hfield, d, hdesc, c, counterpart?_of_desc hd hname hsource hcode hmap' hne
        fun code' c' hcode' hsame =>
          hcodes c code' c' hcode hcode' (RegisterKey.sameMap_trans hsame hmap)⟩
    · -- the description was found from its register, which was asked for
      obtain ⟨hd', hsame, ⟨hrowDesc, hrowSource⟩ | ⟨hrowDesc, hrowSynthetic, -, hrowSource⟩⟩ :=
        of_counterpart? hfound
      · have hreal := hguard.source_real row hrow hrowDesc desc d' hd' hsame hrowSource
        rw [Option.some.inj (hd'.symm.trans hdesc), hd] at hreal
        cases hreal
      · obtain rfl := Option.some.inj (hd'.symm.trans hdesc)
        have hnames : row.variableName = c.variableName :=
          Option.some.inj (hrowSource.symm.trans hsource)
        have hkey : Describes db.registers desc key :=
          ⟨d', row, hdesc, hrow, hsame, hd, hrowDesc, hrowSynthetic, hnames ▸ hname, hrowSource⟩
        obtain ⟨hcodes, -⟩ := hguard.unambiguous _ _ hkey (Or.inr rfl)
        exact Or.inl
          (hcodes row code c hrow hcode (RegisterKey.sameMap_trans hmap' hsame) hnames.symm)
  · rintro (rfl | ⟨-, row, hrow, c', hfound⟩)
    · -- the register was asked for, and finds its description
      obtain ⟨-, hdescs⟩ := hguard.unambiguous _ _ hpair (Or.inr rfl)
      exact Or.inr ⟨hfield, c, hcode, d, counterpart?_of_code ⟨hc, hsynthetic⟩ hdesc hd hsource hmap
        hne.symm fun desc' d' hdesc' hsame hd' hsource' =>
          hdescs desc' ⟨d', c, hdesc', hcode, hsame, hd', hc, hsynthetic, hname, hsource'⟩⟩
    · -- the register was found from its description, which was asked for
      obtain ⟨hc', hsame, ⟨hrowDesc, hrowSource⟩ | ⟨-, -, hcDesc, -⟩⟩ := of_counterpart? hfound
      · obtain rfl := Option.some.inj (hc'.symm.trans hcode)
        have hkey : Describes db.registers key code :=
          ⟨row, c', hrow, hcode, RegisterKey.sameMap_comm _ _ ▸ hsame, hrowDesc, hc, hsynthetic,
            hname, hrowSource.symm⟩
        obtain ⟨-, hdescs⟩ := hguard.unambiguous _ _ hkey (Or.inl rfl)
        exact Or.inl (hdescs desc hpair)
      · rw [Option.some.inj (hc'.symm.trans hcode), hc] at hcDesc
        cases hcDesc

/-- The two are alike before, or the toggle makes them. -/
theorem alike_of_touches (hguard : db.ToggleGuard db.registers deviceName field value key)
    {desc code : RegisterKey} (hpair : Describes db.registers desc code)
    (htouches : db.Touches field key desc) :
    value = true ∧ field ≠ .userWriteEnabled ∨
      SameSelection (db.staged deviceName desc) (db.staged deviceName code) := by
  rcases id htouches with rfl | ⟨hfield, row, hrow, d, hfound⟩
  · exact hguard.alike _ _ hpair (Or.inl rfl)
  · rcases (touches_pair hguard hfield hpair).mp htouches with rfl | ⟨-, row', hrow', c, hfound'⟩
    · exact hguard.alike _ _ hpair (Or.inr ⟨rfl, hfield⟩)
    · -- the lookup finds one of them only
      obtain rfl := Option.some.inj (hrow.symm.trans hrow')
      obtain ⟨rfl, rfl⟩ := Prod.mk.inj (Option.some.inj (hfound.symm.trans hfound'))
      obtain ⟨d', c', hdesc, hcode, -, hd, hc, -⟩ := hpair
      rw [Option.some.inj (hdesc.symm.trans hcode), hc] at hd
      cases hd

/-- What a toggle has to leave alone, and what it has to know, to keep the rules. -/
structure KeepsPairs (db db' : StagingDb) (deviceName : String) (field : ChoiceField) (value : Bool)
    (touched : RegisterKey → Prop) : Prop where
  registers : db'.registers = db.registers
  known : ∀ key, touched key → key ∈ db.registers.keys
  write : field = .userWriteEnabled → value = true → ∀ key, touched key →
    (db.registers.get? key).any ProtocolRegister.isWritableByProtocol = true
  closed : field ≠ .userWriteEnabled → ∀ desc code, Describes db.registers desc code →
    (touched desc ↔ touched code)
  alike : ∀ desc code, Describes db.registers desc code → touched desc →
    value = true ∧ field ≠ .userWriteEnabled ∨
      SameSelection (db.staged deviceName desc) (db.staged deviceName code)

/-- A guarded `toggle_register_field` keeps the pairs. -/
theorem keepsPairs_of_toggleRegisterField
    (h : db.toggleRegisterField deviceName field value key = some db')
    (hguard : db.ToggleGuard db.registers deviceName field value key) :
    KeepsPairs db db' deviceName field value (db.Touches field key) := by
  obtain ⟨-, hregisters, -, row, hrow, hwritable⟩ := toggled_of_toggleRegisterField h
  refine ⟨hregisters, ?_, ?_, fun hfield _ _ hpair => touches_pair hguard hfield hpair,
    fun _ _ hpair => alike_of_touches hguard hpair⟩
  · rintro key' (rfl | ⟨-, _, -, row', hfound⟩)
    · exact Dict.mem_keys.mpr ⟨row, Dict.get?_eq_some_iff.mp hrow⟩
    · exact Dict.mem_keys.mpr ⟨row', Dict.get?_eq_some_iff.mp (of_counterpart? hfound).1⟩
  · rintro hfield hvalue key' (rfl | ⟨hne, -⟩)
    · rw [hrow]
      exact hwritable hfield hvalue
    · exact absurd hfield hne

section Keeps

variable {touched : RegisterKey → Prop}

theorem exclusive_staged (hrules : db.SelectionRules) (deviceName : String) (key : RegisterKey) :
    ¬((db.staged deviceName key).maskEnabled = true ∧
      (db.staged deviceName key).screenEnabled = true) := by
  cases hget : db.selections.get? ⟨deviceName, key⟩ with
  | none => simp [staged, hget]
  | some s =>
    rw [staged_of_get? hget]
    exact hrules.exclusive _ s hget

/-- A write selection that is staged is for a register that can be written. -/
theorem writable_staged (hrules : db.SelectionRules)
    (h : (db.staged deviceName key).userWriteEnabled = true) :
    (db.registers.get? key).any ProtocolRegister.isWritableByProtocol = true := by
  cases hget : db.selections.get? ⟨deviceName, key⟩ with
  | none =>
    rw [staged, hget] at h
    cases h
  | some s =>
    rw [staged_of_get? hget] at h
    exact hrules.writable _ s hget h

/-- A toggle sets a field of a description and its register, or makes them alike. -/
theorem sameSelection_of_touched
    (htoggled : Toggled db db' deviceName field value touched)
    (hkeeps : KeepsPairs db db' deviceName field value touched) {desc code : RegisterKey}
    (hpair : Describes db.registers desc code) (hdesc : touched desc) :
    SameSelection (db'.staged deviceName desc) (db'.staged deviceName code) := by
  rw [htoggled.staged_set hdesc]
  have halike := hkeeps.alike desc code hpair hdesc
  by_cases hfield : field = .userWriteEnabled
  · subst hfield
    have halike := halike.resolve_left fun h => h.2 rfl
    by_cases hcode : touched code
    · rw [htoggled.staged_set hcode]
      exact halike
    · rw [htoggled.staged_kept fun h => hcode h.2]
      exact halike
  · rw [htoggled.staged_set ((hkeeps.closed hfield desc code hpair).mp hdesc)]
    rcases halike with ⟨rfl, -⟩ | halike
    · exact Choices.sameSelection_setField_true field hfield
    · exact Choices.SameSelection.setField value field halike

/-- The register of a description that is left alone is left alone, but for its write selection. -/
theorem sameSelection_of_not_touched
    (htoggled : Toggled db db' deviceName field value touched)
    (hkeeps : KeepsPairs db db' deviceName field value touched) {deviceName' : String}
    {desc code : RegisterKey} (hpair : Describes db.registers desc code)
    (hdesc : ¬(deviceName' = deviceName ∧ touched desc)) {choices : Choices}
    (h : SameSelection choices (db.staged deviceName' code)) :
    SameSelection choices (db'.staged deviceName' code) := by
  by_cases hcode : deviceName' = deviceName ∧ touched code
  · obtain ⟨rfl, hcode⟩ := hcode
    have hfield : field = .userWriteEnabled := by
      by_contra hfield
      exact hdesc ⟨rfl, (hkeeps.closed hfield desc code hpair).mpr hcode⟩
    rw [htoggled.staged_set hcode, hfield]
    exact h
  · rwa [htoggled.staged_kept hcode]

/-- **A toggle keeps the rules** if it treats a register and its description alike. -/
theorem selectionRules_of_toggled (hrules : db.SelectionRules) (hknown : db.SelectionsKnown)
    (htoggled : Toggled db db' deviceName field value touched)
    (hkeeps : KeepsPairs db db' deviceName field value touched) :
    db'.SelectionRules ∧ db'.SelectionsKnown := by
  refine ⟨⟨?_, ?_, ?_⟩, ?_⟩
  · rintro ⟨deviceName', key⟩ s hs
    by_cases hkey : deviceName' = deviceName ∧ touched key
    · obtain ⟨rfl, hkey⟩ := hkey
      rw [← staged_of_get? hs, htoggled.staged_set hkey]
      exact Choices.setField_exclusive _ _ _ (exclusive_staged hrules _ _)
    · rw [htoggled.kept _ _ hkey] at hs
      exact hrules.exclusive _ s hs
  · rintro ⟨deviceName', key⟩ s hs hwrite
    rw [hkeeps.registers]
    by_cases hkey : deviceName' = deviceName ∧ touched key
    · obtain ⟨rfl, hkey⟩ := hkey
      rw [← staged_of_get? hs, htoggled.staged_set hkey] at hwrite
      cases field with
      | userWriteEnabled => exact hkeeps.write rfl hwrite key hkey
      | maskEnabled => exact writable_staged hrules hwrite
      | screenEnabled => exact writable_staged hrules hwrite
    · rw [htoggled.kept _ _ hkey] at hs
      exact hrules.writable _ s hs hwrite
  · intro deviceName' desc code hpair s hs
    rw [hkeeps.registers] at hpair
    by_cases hdesc : deviceName' = deviceName ∧ touched desc
    · obtain ⟨rfl, hdesc⟩ := hdesc
      rw [← staged_of_get? hs]
      exact sameSelection_of_touched htoggled hkeeps hpair hdesc
    · rw [htoggled.kept _ _ hdesc] at hs
      exact sameSelection_of_not_touched htoggled hkeeps hpair hdesc
        (hrules.described _ _ _ hpair s hs)
  · rintro ⟨deviceName', key⟩ hmem
    rw [hkeeps.registers]
    obtain ⟨s, hs⟩ := Dict.mem_keys.mp hmem
    by_cases hkey : deviceName' = deviceName ∧ touched key
    · exact hkeeps.known key hkey.2
    · rw [← Dict.get?_eq_some_iff, htoggled.kept _ _ hkey, Dict.get?_eq_some_iff] at hs
      exact hknown _ (Dict.mem_keys.mpr ⟨s, hs⟩)

/-- A toggle that is not refused makes no screen selection beside a mask selection. -/
theorem screenRule_of_toggled
    (htoggled : Toggled db db' deviceName field value touched)
    (hrefuses : db.refusesScreen deviceName field value = false) : db.ScreenRule db' := by
  intro deviceName' key hbefore hafter
  by_cases hkey : deviceName' = deviceName ∧ touched key
  · obtain ⟨rfl, hkey⟩ := hkey
    rw [htoggled.staged_set hkey] at hafter
    -- only switching the screen selection on makes one
    have hscreen : field = .screenEnabled ∧ value = true := by
      cases field <;> simp_all [Choices.setField]
    obtain ⟨rfl, rfl⟩ := hscreen
    have hmask : db.maskInUse deviceName' = false := by
      simpa [refusesScreen] using hrefuses
    refine ⟨hmask, maskInUse_eq_false_iff.mpr fun key' => ?_⟩
    have hkey' := maskInUse_eq_false_iff.mp hmask key'
    by_cases htouched : touched key'
    · rw [htoggled.staged_set htouched]
      simp [Choices.setField, hkey']
    · rwa [htoggled.staged_kept fun h => htouched h.2]
  · rw [htoggled.staged_kept hkey, hbefore] at hafter
    cases hafter

end Keeps

end StagingDb

end ProtocolGateway
