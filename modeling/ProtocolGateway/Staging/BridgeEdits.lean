import Mathlib.Data.List.Nodup
import ProtocolGateway.Lib.Dict
import ProtocolGateway.Lib.IdTable
import ProtocolGateway.Lib.SnapshotCommit
import ProtocolGateway.Timescale.DateTime

/-!
# Staged edits of the bridge databases

Three stores of changes that wait for "Commit All Changes": columns to delete from the wide tables
of TimescaleDB, edits of its metrics, and edits of InfluxDB. Requests stage and withdraw changes;
the commits of the three stores are one algorithm, that of `SnapshotCommit`.

A commit trusts the copy it made before it took the lock for its run. An edit withdrawn in between
is applied all the same, an edit that another commit has applied is applied again, and a column
staged in between for a protocol that is committed is dropped from the store with the others and not
deleted. Where the copies agree with the stores, `asStaged_of_reach` says that staged changes are
applied exactly as staged.

The runs begin when a store and its lock are there: those of the deletions are made at the start,
those of the edits by the first request that asks for them.
-/

namespace ProtocolGateway

open Runs SnapshotCommit

/-! ## Columns to delete -/

/-- One protocol's entry: the columns to delete, with their types. -/
structure StagedEntry where
  wideTableName : String
  columns : Dict String String

inductive DeletionRequest
  /-- `stage_field_deletion` -/
  | stage (protocolName wideTableName columnName dataType : String) (checked : Bool)
  /-- `clear_staged_deletions` -/
  | clear

/-- `timescale_pending_deletions`. -/
abbrev PendingDeletions := Dict String StagedEntry

namespace PendingDeletions

/-- `stage_field_deletion`: a box is checked, or not. -/
def stageFieldDeletion (store : PendingDeletions) (protocolName wideTableName columnName
    dataType : String) (checked : Bool) : PendingDeletions :=
  if checked then
    let columns := match store.get? protocolName with
      | some entry => entry.columns
      | none => .empty
    store.set protocolName ⟨wideTableName, columns.set columnName dataType⟩
  else
    match store.get? protocolName with
    | none => store
    | some entry =>
      let columns := entry.columns.filter fun kv => kv.1 ≠ columnName
      if columns.items.isEmpty then store.filter fun kv => kv.1 ≠ protocolName
      else store.set protocolName { entry with columns := columns }

/-- What a request makes of the store. -/
def request (store : PendingDeletions) : DeletionRequest → PendingDeletions
  | .stage protocolName wideTableName columnName dataType checked =>
    store.stageFieldDeletion protocolName wideTableName columnName dataType checked
  | .clear => .empty

/-- The columns of an entry, each with its protocol. -/
def columnsOf (e : String × StagedEntry) : List (String × String) :=
  e.2.columns.keys.map fun column => (e.1, column)

theorem columnsOf_nodup (store : PendingDeletions) : (store.items.flatMap columnsOf).Nodup := by
  refine List.nodup_flatMap.mpr ⟨fun e _ => ?_, ?_⟩
  · exact e.2.columns.nodup.map fun _ _ heq => (Prod.mk.inj heq).2
  · refine (List.pairwise_map.mp store.nodup).imp fun {e e'} hne => ?_
    intro x hx hx'
    obtain ⟨_, -, rfl⟩ := List.mem_map.mp hx
    obtain ⟨_, -, heq⟩ := List.mem_map.mp hx'
    exact hne (Prod.mk.inj heq).1.symm

end PendingDeletions

/-- `commit_staged_deletions` on its store: `delete_fields` is called for one protocol after
another, and succeeds or raises. -/
def deletions :
    Staging PendingDeletions String StagedEntry DeletionRequest Bool (String × String) where
  entries store := store.items
  pop store protocolName := store.filter fun kv => kv.1 ≠ protocolName
  request := PendingDeletions.request
  items := PendingDeletions.columnsOf
  succeeds _ deleted := deleted
  entries_pop := fun _ _ => rfl
  keys_nodup := fun store => store.nodup
  items_nodup := PendingDeletions.columnsOf_nodup

/-! ## Edits of metrics -/

/-- The value of an edit. -/
inductive EditValue
  | float (f : Float)
  | int (i : Int)
  | str (s : String)
  | bool (b : Bool)

inductive EditRequest (ε : Type)
  /-- an edit that passed its validation is staged, under an identifier that was never used -/
  | stage (edit : ε)
  /-- `unstage_metric_edit` -/
  | unstage (editId : Nat)
  /-- `clear_staged_metric_edits` -/
  | clear

/-- What a request makes of a store of edits; identifiers are numbered in the order of staging. -/
def EditRequest.apply {ε : Type} (store : IdTable ε) : EditRequest ε → IdTable ε
  | .stage edit => store.insert edit
  | .unstage editId => store.delete [editId]
  | .clear => store.delete store.ids

/-- `commit_staged_metric_edits` on its store, for an application that succeeds or raises. -/
def edits {ε ω : Type} (succeeds : ε → ω → Bool) :
    Staging (IdTable ε) Nat ε (EditRequest ε) ω Nat where
  entries store := store.rows
  pop store editId := store.delete [editId]
  request := EditRequest.apply
  items e := [e.1]
  succeeds e a := succeeds e.2 a
  entries_pop := fun store editId => by simp [IdTable.delete]
  keys_nodup := fun store => store.nodup_ids
  items_nodup := fun store => by
    rw [← List.map_eq_flatMap]
    exact store.nodup_ids

/-- A staged edit of TimescaleDB. -/
structure StagedMetricEdit where
  tableKind : String
  protocolName : Option String
  tableName : String
  deviceInfoId : Int
  deviceLabel : String
  fieldNames : List String
  startTime : DateTime
  endTime : DateTime
  /-- `delete` or `set_value` -/
  action : String
  newValue : Option EditValue
  /-- wide edits only: also apply the edit to the narrow table -/
  alsoNarrow : Bool

/-- `stage_metric_edit` after the validation: only a wide edit has a narrow companion. -/
def StagedMetricEdit.stage (edit : StagedMetricEdit) : StagedMetricEdit :=
  { edit with alsoNarrow := edit.alsoNarrow && edit.tableKind == "wide" }

/-- The calls a commit makes for an edit: does each return? -/
structure MetricEditAnswers where
  editMetricValues : Bool
  narrowCompanionValue : Bool
  editNarrowValues : Bool

/-- An edit is applied when all calls it needs return. -/
def StagedMetricEdit.succeeds (edit : StagedMetricEdit) (a : MetricEditAnswers) : Bool :=
  a.editMetricValues &&
    (!(edit.alsoNarrow && edit.tableKind == "wide") ||
      ((edit.action != "set_value" || a.narrowCompanionValue) && a.editNarrowValues))

/-- The edits of TimescaleDB. -/
abbrev metricEdits :
    Staging (IdTable StagedMetricEdit) Nat StagedMetricEdit (EditRequest StagedMetricEdit)
      MetricEditAnswers Nat :=
  edits StagedMetricEdit.succeeds

inductive InfluxVersion
  | v1
  | v3

/-- A staged edit of InfluxDB. -/
structure StagedInfluxEdit where
  version : InfluxVersion
  measurement : String
  deviceIdentifier : String
  deviceLabel : String
  /-- `None` only for a `delete` of version 1 -/
  fieldName : Option String
  startTime : DateTime
  endTime : DateTime
  action : String
  newValue : Option EditValue

/-- The calls a commit makes for an edit of InfluxDB: is there a manager for a version, and does its
`edit_metric_values` return? -/
structure InfluxEditAnswers where
  v1AdminManager : Bool
  v3AdminManager : Bool
  editMetricValues : Bool

def StagedInfluxEdit.succeeds (edit : StagedInfluxEdit) (a : InfluxEditAnswers) : Bool :=
  match edit.version with
  | .v1 => a.v1AdminManager && a.editMetricValues
  | .v3 => a.v3AdminManager && a.editMetricValues

/-- The edits of InfluxDB. -/
abbrev influxEdits :
    Staging (IdTable StagedInfluxEdit) Nat StagedInfluxEdit (EditRequest StagedInfluxEdit)
      InfluxEditAnswers Nat :=
  edits StagedInfluxEdit.succeeds

/-- Edits are numbered as they are staged. -/
theorem numbered_edits {ε ω : Type} (succeeds : ε → ω → Bool) :
    Staging.Numbered (edits succeeds) IdTable.next where
  sorted := fun store => store.sorted
  below := fun store => store.below
  next_request := fun store r => by
    cases r with
    | stage edit => exact Nat.le_succ _
    | unstage editId => exact Nat.le_refl _
    | clear => exact Nat.le_refl _
  fresh := fun store r e he => by
    cases r with
    | stage edit =>
      refine (List.mem_append.mp he).imp_right fun he => ?_
      rw [List.mem_singleton.mp he]
    | unstage editId => exact .inl (List.mem_of_mem_filter he)
    | clear => exact .inl (List.mem_of_mem_filter he)
  next_pop := fun _ _ => rfl

/-! ## The three stores -/

namespace BridgeEdits

/-- The three stores, with the commits at work on them. -/
structure Site where
  deletions : Desk PendingDeletions String StagedEntry (String × String)
  metricEdits : Desk (IdTable StagedMetricEdit) Nat StagedMetricEdit Nat
  influxEdits : Desk (IdTable StagedInfluxEdit) Nat StagedInfluxEdit Nat

inductive SiteEvent
  | deletions (e : Event DeletionRequest Bool)
  | metricEdits (e : Event (EditRequest StagedMetricEdit) MetricEditAnswers)
  | influxEdits (e : Event (EditRequest StagedInfluxEdit) InfluxEditAnswers)

/-- One event at one of the stores. -/
def Site.step (s : Site) : SiteEvent → Option Site
  | .deletions e =>
    (ProtocolGateway.deletions.step s.deletions e).map fun d => { s with deletions := d }
  | .metricEdits e =>
    (ProtocolGateway.metricEdits.step s.metricEdits e).map fun d => { s with metricEdits := d }
  | .influxEdits e =>
    (ProtocolGateway.influxEdits.step s.influxEdits e).map fun d => { s with influxEdits := d }

/-- Nothing is staged, and nothing was. -/
structure Site.Empty (s : Site) : Prop where
  deletions : ProtocolGateway.deletions.Empty s.deletions
  metricEdits : ProtocolGateway.metricEdits.Empty s.metricEdits
  influxEdits : ProtocolGateway.influxEdits.Empty s.influxEdits

/-- The runs of the requests and commits. -/
def system : System Site SiteEvent where
  init := Site.Empty
  step s e s' := s.step e = some s'

/-- Copies agree with their stores when commits take the lock. -/
def Agreed (s : Site) : SiteEvent → Prop
  | .deletions e => ProtocolGateway.deletions.Agreed s.deletions e
  | .metricEdits e => ProtocolGateway.metricEdits.Agreed s.metricEdits e
  | .influxEdits e => ProtocolGateway.influxEdits.Agreed s.influxEdits e

/-- **Staged changes are applied exactly as staged.** -/
structure AsStaged (s : Site) : Prop where
  deletions : ProtocolGateway.deletions.AsStaged s.deletions
  metricEdits : ProtocolGateway.metricEdits.AsStaged s.metricEdits
  influxEdits : ProtocolGateway.influxEdits.AsStaged s.influxEdits
  /-- edits are applied in the order they were staged, and none twice -/
  metricEdits_ordered : (Staging.appliedKeys s.metricEdits.attempts).Pairwise (· < ·)
  influxEdits_ordered : (Staging.appliedKeys s.influxEdits.attempts).Pairwise (· < ·)

/-- What every event keeps. -/
structure Sound (s : Site) : Prop where
  deletions : ProtocolGateway.deletions.Sound s.deletions
  metricEdits : ProtocolGateway.metricEdits.Sound s.metricEdits
  influxEdits : ProtocolGateway.influxEdits.Sound s.influxEdits
  metricEdits_ordered :
    Staging.Ordered ProtocolGateway.metricEdits IdTable.next s.metricEdits
  influxEdits_ordered :
    Staging.Ordered ProtocolGateway.influxEdits IdTable.next s.influxEdits

variable {s s' : Site}

namespace Sound

theorem empty (h : s.Empty) : Sound s where
  deletions := .empty h.deletions
  metricEdits := .empty h.metricEdits
  influxEdits := .empty h.influxEdits
  metricEdits_ordered := .empty h.metricEdits
  influxEdits_ordered := .empty h.influxEdits

theorem step (h : Sound s) {e : SiteEvent} (hagreed : Agreed s e) (hstep : s.step e = some s') :
    Sound s' := by
  cases e with
  | deletions e =>
    obtain ⟨d, hd, rfl⟩ := Option.map_eq_some_iff.mp hstep
    exact { h with deletions := h.deletions.step hagreed hd }
  | metricEdits e =>
    obtain ⟨d, hd, rfl⟩ := Option.map_eq_some_iff.mp hstep
    exact
      { h with
        metricEdits := h.metricEdits.step hagreed hd
        metricEdits_ordered := h.metricEdits_ordered.step (numbered_edits _) h.metricEdits hd }
  | influxEdits e =>
    obtain ⟨d, hd, rfl⟩ := Option.map_eq_some_iff.mp hstep
    exact
      { h with
        influxEdits := h.influxEdits.step hagreed hd
        influxEdits_ordered := h.influxEdits_ordered.step (numbered_edits _) h.influxEdits hd }

end Sound

/-- **Where the copies agree with the stores, changes are applied as staged.** -/
theorem asStaged_of_reach (h : Reach system Agreed s) : AsStaged s := by
  have hsound : Sound s := Reach.invariant (P := Sound) (fun _ h0 => .empty h0)
    (fun _ _ _ _ ih hagreed hstep => ih.step hagreed hstep) h
  exact
    { deletions := hsound.deletions.asStaged
      metricEdits := hsound.metricEdits.asStaged
      influxEdits := hsound.influxEdits.asStaged
      metricEdits_ordered := hsound.metricEdits_ordered.applied
      influxEdits_ordered := hsound.influxEdits_ordered.applied }

/-! ### A withdrawal between copy and run -/

/-- Nothing was staged yet. -/
def quiet : Site :=
  ⟨⟨.empty, [], none, [], [], []⟩, ⟨.empty, [], none, [], [], []⟩, ⟨.empty, [], none, [], [], []⟩⟩

theorem quiet_empty : quiet.Empty :=
  ⟨⟨rfl, rfl, rfl, rfl, rfl, rfl⟩, ⟨rfl, rfl, rfl, rfl, rfl, rfl⟩, ⟨rfl, rfl, rfl, rfl, rfl, rfl⟩⟩

/-- The first of June 2026, 08:00 UTC. -/
def editTime : DateTime := ⟨2026, 6, 1, 8, 0, 0, 0, 0, by decide⟩

/-- One metric of one device is to be deleted at one moment. -/
def sampleEdit : StagedMetricEdit :=
  ⟨"narrow", none, "device_metrics_narrow", 3, "eg4_18kpv_inverter_1", ["pv_power"], editTime,
    editTime, "delete", none, false⟩

/-- All calls return. -/
def allReturn : MetricEditAnswers := ⟨true, true, true⟩

/-- An edit is staged and committed. -/
theorem asStaged_committed :
    ∃ s, Staging.appliedKeys s.metricEdits.attempts = [1] ∧ AsStaged s := by
  have hstart : Reach system Agreed quiet := .init quiet_empty
  have hstaged := hstart.step (i := SiteEvent.metricEdits (.request (.stage sampleEdit.stage)))
    trivial rfl
  have hchecked := hstaged.step (i := SiteEvent.metricEdits .check) trivial rfl
  have hcopied := hchecked.step (i := SiteEvent.metricEdits (.copy 0)) trivial rfl
  have hrunning := hcopied.step (i := SiteEvent.metricEdits (.run 0)) (fun entries heq e he => by
    cases heq
    exact ⟨e, he, rfl, List.Perm.refl _⟩) rfl
  have happlied := hrunning.step (i := SiteEvent.metricEdits (.apply allReturn)) trivial rfl
  exact ⟨_, rfl, asStaged_of_reach happlied⟩

/-- **An edit withdrawn after it was copied is applied.** -/
theorem not_asStaged_withdrawn : ¬∀ s, Reachable system s → AsStaged s := by
  intro hall
  have hstart : Reachable system quiet := .init quiet_empty
  have hstaged := hstart.step (i := SiteEvent.metricEdits (.request (.stage sampleEdit.stage)))
    trivial rfl
  have hchecked := hstaged.step (i := SiteEvent.metricEdits .check) trivial rfl
  have hcopied := hchecked.step (i := SiteEvent.metricEdits (.copy 0)) trivial rfl
  have hwithdrawn := hcopied.step (i := SiteEvent.metricEdits (.request (.unstage 1))) trivial rfl
  have hrunning := hwithdrawn.step (i := SiteEvent.metricEdits (.run 0)) trivial rfl
  have happlied := hrunning.step (i := SiteEvent.metricEdits (.apply allReturn)) trivial rfl
  exact absurd ((hall _ happlied).metricEdits.in_time _ (List.mem_singleton_self _) rfl) (by decide)

end BridgeEdits

end ProtocolGateway
