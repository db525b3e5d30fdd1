import ProtocolGateway.Staging.Edits

/-!
# Rescans between edits

The scanner runs whenever the file watcher fires, also while edits wait for a commit. A pass keeps
the staged value of a row but decides by `config.cfg` alone whether the row is active. So what the
next commit would write survives a pass exactly if it has the keys of `config.cfg` already.
-/

namespace ProtocolGateway

open ConfigParser

/-- What happens to the settings between two commits. -/
inductive StagingStep
  | edit (e : Edit)
  | rescan

variable (library : TransportLibrary) (config : Config)

/-- One step, with the same `config.cfg` all along. -/
def StagingStep.apply (table : SettingTable) : StagingStep → SettingTable
  | .edit e => e.apply library table
  | .rescan => scanSettings library false config table

/-- The table after a list of steps. -/
def stagingRun (table : SettingTable) (steps : List StagingStep) : SettingTable :=
  steps.foldl (StagingStep.apply library config) table

/-- A pass leaves pending edits alone: the text the next commit would write, with the choice which
keys are in it, and the staged values. -/
structure RescanKeeps (table : SettingTable) : Prop where
  text : commitText (scanSettings library false config table) = commitText table
  written : ∀ key, (scanSettings library false config table).written? key = table.written? key
  staged : ∀ key row, table.get? key = some row →
    ((scanSettings library false config table).get? key).map Setting.valueStaged =
      some row.valueStaged

/-- The next commit would write the keys of `config.cfg`, apart from removed and derived ones. A row
for a derived key has the derived value staged, and a row without a staged value the value of
`config.cfg` on disk. -/
structure WritesConfigKeys (table : SettingTable) : Prop where
  keys : ∀ key, (∃ v, table.written? key = some v) ↔
    (∃ v, Config.scanned? config key = some v) ∧ key.2 ∉ removedKeys
  derived : ∀ key row v, table.get? key = some row → Config.derived? config key = some v →
    row.valueStaged = some v
  disk : ∀ key row v, table.get? key = some row → row.valueStaged = none → key.2 ∉ removedKeys →
    Config.scanned? config key = some v → row.valueDisk.getD "" = v

variable {library config} {table : SettingTable}

/-- **One pass.** -/
theorem rescanKeeps_iff : RescanKeeps library config table ↔ WritesConfigKeys config table := by
  constructor
  · rintro ⟨-, hkeep, hstaged⟩
    refine ⟨fun key => ?_, fun key row v hrow hder => ?_,
      fun key row v hrow hstaged hkey hscanned => ?_⟩
    · rw [← hkeep key, written?_scanSettings]
      constructor
      · rintro ⟨w, hw⟩
        obtain ⟨v, hv, hw⟩ := Option.bind_eq_some_iff.mp hw
        split at hw
        · cases hw
        · next hkey => exact ⟨⟨v, hv⟩, hkey⟩
      · rintro ⟨⟨v, hv⟩, hkey⟩
        exact ⟨_, by rw [hv, Option.bind_some, if_neg hkey]⟩
    · have hkept := hstaged key row hrow
      rw [valueStaged_scanSettings hrow, hder, Option.some_or] at hkept
      exact (Option.some.inj hkept).symm
    · have hwritten := (hkeep key).symm
      rw [written?_scanSettings, hscanned, Option.bind_some, if_neg hkey, hrow, Option.bind_some,
        if_neg Bool.false_ne_true,
        hstaged, Option.getD_none] at hwritten
      obtain ⟨row', hrow', -, -, -, heq⟩ := written?_eq_some_iff.mp hwritten
      obtain rfl : row = row' := Option.some.inj (hrow.symm.trans hrow')
      rwa [Setting.written, hstaged, Option.getD_none] at heq
  · intro h
    have hkeep : ∀ key,
        (scanSettings library false config table).written? key = table.written? key := by
      intro key
      rw [written?_scanSettings]
      cases hwritten : table.written? key with
      | none =>
        refine Option.bind_eq_none_iff.mpr fun v hv => ?_
        by_cases hkey : key.2 ∈ removedKeys
        · exact if_pos hkey
        · obtain ⟨w, hw⟩ := (h.keys key).mpr ⟨⟨v, hv⟩, hkey⟩
          exact absurd (hwritten.symm.trans hw) (by simp)
      | some w =>
        obtain ⟨⟨v, hv⟩, hkey⟩ := (h.keys key).mp ⟨w, hwritten⟩
        obtain ⟨row, hrow, -, -, -, rfl⟩ := written?_eq_some_iff.mp hwritten
        rw [hv, Option.bind_some, if_neg hkey, if_neg Bool.false_ne_true, hrow, Option.bind_some]
        cases hstaged : row.valueStaged with
        | none =>
          rw [Option.getD_none, Setting.written, hstaged, Option.getD_none,
            h.disk key row v hrow hstaged hkey hv]
        | some staged => rw [Option.getD_some, Setting.written, hstaged, Option.getD_some]
    refine ⟨commitText_congr keys_prefix_scanSettings hkeep, hkeep, fun key row hrow => ?_⟩
    rw [valueStaged_scanSettings hrow]
    cases hder : Config.derived? config key with
    | none => rfl
    | some v => rw [Option.some_or, h.derived key row v hrow hder]

/-- **No rescan loses pending edits.** In a run of edits and passes every pass leaves what the next
commit would write as it is, if and only if it comes when this has the keys of `config.cfg`. -/
theorem rescans_keep_iff (library : TransportLibrary) (config : Config) (table : SettingTable)
    (steps : List StagingStep) :
    (∀ before, before ++ [.rescan] <+: steps →
        RescanKeeps library config (stagingRun library config table before)) ↔
      ∀ before, before ++ [.rescan] <+: steps →
        WritesConfigKeys config (stagingRun library config table before) :=
  forall_congr' fun _ => imp_congr_right fun _ => rescanKeeps_iff

/-- A key that the user deactivated is active again after the next pass. -/
theorem not_rescanKeeps_deactivated :
    ¬RescanKeeps ⟨Dict.empty, Dict.empty, Dict.empty⟩
      (Dict.empty.set "general" (Dict.empty.set "log_level" "INFO"))
      (stagingRun ⟨Dict.empty, Dict.empty, Dict.empty⟩
        (Dict.empty.set "general" (Dict.empty.set "log_level" "INFO")) Dict.empty
        [.rescan, .edit (.general ("general", "log_level") { isActive := some false })]) := by
  intro h
  exact absurd (h.written ("general", "log_level")) (by decide)

end ProtocolGateway
