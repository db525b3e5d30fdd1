import ProtocolGateway.Interleaved

/-!
# The scheduler of interleaved mode

`Interleaved` follows what a cycle reads and routes. Here is how cycles come and go: the main loop
submits a cycle for the due members of a ready group unless an active cycle overlaps it, hands out
bus locks while it does, and the poller collects the cycles whose futures are done and gives up on
those that take too long. A pool worker reads one block at a time, each under the bus lock its
transport has at that moment.

When a group is ready, how long a read takes, which members a routed cycle marks as forwarded, and
how the steps of the main loop and of the workers interleave are left open.

`one_cycle_per_group` proves that the due calculation and the overlap check together keep the cycles
of one group apart, although the check only looks at the members that were due. Bus locks do not
keep the cycles of different groups apart; `exclusion_of_guarded` proves the exclusion for the runs
in which no cycle begins on a bus that another one is reading.
-/

namespace ProtocolGateway

namespace Scheduler

open Interleaved

/-! ## Transports -/

/-- A scraper transport with the connection it reads over. -/
structure Transport extends Scraper where
  transportName : String
  host : String
  port : String

/-- The transports of the gateway, by index. Section names are unique, so an index stands for the
name wherever the source compares names. -/
abbrev Config := List Transport

variable (cfg : Config)

/-- The part of the configuration that grouping looks at. -/
def scrapers : Interleaved.Config := cfg.map Transport.toScraper

/-- `wire_key`: host and port, or the name of a transport that has neither. -/
def wireKey (t : Nat) : String :=
  match cfg[t]? with
  | none => ""
  | some tr =>
    let key := tr.host ++ ":" ++ tr.port
    if key.toList.all (· = ':') then tr.transportName else key

/-- Both transports speak over one physical connection. -/
def onOneBus (t t' : Nat) : Bool :=
  match cfg[t]?, cfg[t']? with
  | some tr, some tr' =>
    tr.host = tr'.host ∧ tr.port = tr'.port ∧ ¬(tr.host = "" ∧ tr.port = "")
  | _, _ => false

theorem onOneBus_symm {cfg : Config} {t t' : Nat} (h : onOneBus cfg t t') : onOneBus cfg t' t := by
  unfold onOneBus at h ⊢
  cases ht : cfg[t]? with
  | none => simp [ht] at h
  | some tr =>
    cases ht' : cfg[t']? with
    | none => simp [ht'] at h
    | some tr' =>
      rw [ht, ht'] at h
      obtain ⟨hhost, hport, hne⟩ := of_decide_eq_true h
      rw [hhost, hport] at hne
      exact decide_eq_true ⟨hhost.symm, hport.symm, hne⟩

/-! ## Work units -/

/-- `TransportState`: the transport a worker drives, and the group it reads for. -/
structure WorkUnit where
  transport : Nat
  group : Option ScrapeGroup
  deriving DecidableEq, Repr

/-- The multi-member group of a transport, among the ready ones. -/
def owningGroup (ready : List ScrapeGroup) (t : Nat) : Option ScrapeGroup :=
  ready.find? fun g => g.consolidated && decide (t ∈ g.members)

/-- `groups_to_read`: the owning groups, each once. -/
def groupsToRead (ready : List ScrapeGroup) (transports : List Nat) : List ScrapeGroup :=
  transports.foldl (fun groups t =>
    match owningGroup ready t with
    | some g => if g ∈ groups then groups else groups ++ [g]
    | none => groups) []

/-- `standalone`: the transports without an owning group. -/
def standalone (ready : List ScrapeGroup) (transports : List Nat) : List Nat :=
  transports.filter fun t => (owningGroup ready t).isNone

/-- `states`: one work unit for each group and each standalone transport. -/
def workUnits (ready : List ScrapeGroup) (transports : List Nat) : List WorkUnit :=
  ((groupsToRead ready transports).map fun g => ⟨g.primary, some g⟩) ++
    (standalone ready transports).map fun t => ⟨t, none⟩

/-- The transports that read for a work unit: each member of a fallback group reads for itself. -/
def WorkUnit.reads (w : WorkUnit) : List Nat :=
  match w.group with
  | some g => if g.fallback (scrapers cfg) then g.members else [w.transport]
  | none => [w.transport]

/-! ## States -/

/-- Where the worker of a cycle is. -/
inductive Phase
  /-- submitted, and not started by the executor -/
  | queued
  /-- between two blocks -/
  | running
  /-- about to take the bus lock for a block of transport `t` -/
  | waiting (t lock : Nat)
  /-- in a block of transport `t`, under the bus lock it found -/
  | requesting (t : Nat) (lock : Option Nat)
  /-- the future is done or cancelled -/
  | done
  deriving DecidableEq, Repr

/-- What a cycle is submitted with. -/
structure Submission where
  target : String
  group : ScrapeGroup
  /-- the cycle key: the due members the cycle was submitted for -/
  due : List Nat
  cycleNow : Int
  work : WorkUnit

/-- `InterleavedCycleState`, with its one future. -/
structure Cycle extends Submission where
  phase : Phase
  timedOut : Bool

/-- The state of the scheduler. -/
structure State where
  /-- the number of cycles begun -/
  begun : Nat
  /-- `__il_active_cycles` -/
  cycles : Nat → Option Cycle
  /-- `_member_last_forward` -/
  lastForward : Nat → Int
  /-- `bus_lock` of each transport -/
  busLock : Nat → Option Nat
  /-- the number of lock objects created -/
  locks : Nat

/-- `members_due`. -/
def membersDue (lastForward : Nat → Int) (g : ScrapeGroup) (now : Int) : List Nat :=
  g.members.filter fun m =>
    0 < readInterval (scrapers cfg) m ∧ readInterval (scrapers cfg) m ≤ now - lastForward m

/-- A fresh lock for each wire key of the transports, attached to them. -/
def attachLocks (s : State) (transports : List Nat) : Nat → Option Nat := fun t =>
  if t ∈ transports then
    some (s.locks + (transports.map (wireKey cfg)).idxOf (wireKey cfg t))
  else s.busLock t

/-- The members a routed cycle may mark as forwarded. -/
def routed (s : State) (u : Cycle) : List Nat :=
  match u.work.group with
  | some g => membersDue cfg s.lastForward g u.cycleNow
  | none => [u.work.transport]

/-- A lock is free when no block is read under it. -/
def State.Free (s : State) (lock : Nat) : Prop :=
  ∀ c u t, s.cycles c = some u → u.phase ≠ .requesting t (some lock)

/-- The active cycles, one of them changed. -/
def State.setCycle (s : State) (c : Nat) (u : Option Cycle) : Nat → Option Cycle :=
  Function.update s.cycles c u

/-- The state in which the worker of a cycle has moved on. -/
def State.move (s : State) (c : Nat) (u : Cycle) (phase : Phase) : State :=
  { s with cycles := s.setCycle c (some { u with phase }) }

/-- The steps of the main loop and of the workers. -/
inductive Label
  | begin (target : String) (now : Int) (ready : List ScrapeGroup)
  | collect (c : Nat) (marked : List Nat)
  | expire (c : Nat)
  | start (c : Nat)
  | block (c t : Nat)
  | acquire (c : Nat)
  | release (c : Nat)
  | finish (c : Nat)

/-- One step of the main loop or of a worker. -/
inductive Step : State → Label → State → Prop
  /-- `_process_transports_interleaved` for the due members of a ready group -/
  | begin {s : State} {target : String} {now : Int} {ready : List ScrapeGroup} {g : ScrapeGroup}
      {w : WorkUnit}
      (group : (target, g) ∈ (buildScrapeGroups (scrapers cfg)).items) (isReady : g ∈ ready)
      (groups : ∀ g' ∈ ready, ∃ target', (target', g') ∈ (buildScrapeGroups (scrapers cfg)).items)
      (due : membersDue cfg s.lastForward g now ≠ [])
      (overlap : ∀ c u, s.cycles c = some u → ∀ m ∈ membersDue cfg s.lastForward g now, m ∉ u.due)
      (units : workUnits ready (membersDue cfg s.lastForward g now) = [w]) :
      Step s (.begin target now ready)
        { s with
          begun := s.begun + 1
          cycles := s.setCycle s.begun
            (some ⟨⟨target, g, membersDue cfg s.lastForward g now, now, w⟩, .queued, false⟩)
          busLock := attachLocks cfg s (membersDue cfg s.lastForward g now)
          locks := s.locks + (membersDue cfg s.lastForward g now).length }
  /-- the poller finds the future done: it routes the cycle unless it timed out, and retires it -/
  | collect {s : State} {c : Nat} {marked : List Nat} {u : Cycle} (cycle : s.cycles c = some u)
      (phase : u.phase = .done) (marks : ∀ m ∈ marked, m ∈ routed cfg s u)
      (late : u.timedOut = true → marked = []) :
      Step s (.collect c marked)
        { s with
          cycles := s.setCycle c none
          lastForward := fun m => if m ∈ marked then u.cycleNow else s.lastForward m }
  /-- the poller gives up on a cycle, whose future may have finished in the meantime -/
  | expire {s : State} {c : Nat} {u : Cycle} (cycle : s.cycles c = some u)
      (first : u.timedOut = false) :
      Step s (.expire c)
        { s with
          cycles := s.setCycle c (some { u with
            timedOut := true
            -- only a future that has not started can be cancelled
            phase := if u.phase = .queued then .done else u.phase })
          busLock :=
            if u.phase = .done then s.busLock else Function.update s.busLock u.work.transport none }
  | start {s : State} {c : Nat} {u : Cycle} (cycle : s.cycles c = some u)
      (phase : u.phase = .queued) : Step s (.start c) (s.move c u .running)
  /-- `read_modbus_registers_iter` looks up the bus lock for the next block -/
  | block {s : State} {c t : Nat} {u : Cycle} (cycle : s.cycles c = some u)
      (phase : u.phase = .running) (reads : t ∈ u.work.reads cfg) :
      Step s (.block c t)
        (s.move c u (match s.busLock t with
          | some lock => .waiting t lock
          | none => .requesting t none))
  | acquire {s : State} {c t lock : Nat} {u : Cycle} (cycle : s.cycles c = some u)
      (phase : u.phase = .waiting t lock) (free : s.Free lock) :
      Step s (.acquire c) (s.move c u (.requesting t (some lock)))
  | release {s : State} {c t : Nat} {lock : Option Nat} {u : Cycle} (cycle : s.cycles c = some u)
      (phase : u.phase = .requesting t lock) : Step s (.release c) (s.move c u .running)
  /-- the worker returns, with or without an error -/
  | finish {s : State} {c : Nat} {u : Cycle} (cycle : s.cycles c = some u)
      (phase : u.phase = .running) :
      Step s (.finish c)
        { s.move c u .done with busLock := Function.update s.busLock u.work.transport none }

/-- Initially nothing has been forwarded and no cycle is active. -/
structure Initial (s : State) : Prop where
  cycles : ∀ c, s.cycles c = none
  lastForward : ∀ m, s.lastForward m = 0
  busLock : ∀ t, s.busLock t = none

/-- The scheduler. -/
def system : Runs.System State Label where
  init := Initial
  step := Step cfg

/-! ## Groups and their members -/

section Groups

variable {cfg} {g g' : ScrapeGroup} {target target' : String} {ready : List ScrapeGroup}
  {lastForward lastForward' : Nat → Int} {now now' : Int} {m : Nat}

theorem mem_membersDue : m ∈ membersDue cfg lastForward g now ↔ m ∈ g.members ∧
    0 < readInterval (scrapers cfg) m ∧ readInterval (scrapers cfg) m ≤ now - lastForward m := by
  simp [membersDue]

/-- A member stays due. -/
theorem membersDue_mono (h : now ≤ now') (hm : m ∈ membersDue cfg lastForward g now) :
    m ∈ membersDue cfg lastForward g now' := by
  obtain ⟨hg, hpos, hdue⟩ := mem_membersDue.mp hm
  exact mem_membersDue.mpr ⟨hg, hpos, by omega⟩

/-- Whenever some members are due at each of two times, one is due at both. -/
theorem exists_due_twice (h : membersDue cfg lastForward g now ≠ [])
    (h' : membersDue cfg lastForward g now' ≠ []) :
    ∃ m ∈ membersDue cfg lastForward g now, m ∈ membersDue cfg lastForward g now' := by
  rcases Int.le_total now now' with hle | hle
  · obtain ⟨m, hm⟩ := List.exists_mem_of_ne_nil _ h
    exact ⟨m, hm, membersDue_mono hle hm⟩
  · obtain ⟨m, hm⟩ := List.exists_mem_of_ne_nil _ h'
    exact ⟨m, membersDue_mono hle hm, hm⟩

/-- Who is due depends on when the members were forwarded. -/
theorem membersDue_congr (h : ∀ m ∈ g.members, lastForward m = lastForward' m) :
    membersDue cfg lastForward g now = membersDue cfg lastForward' g now :=
  List.filter_congr fun m hm => by rw [h m hm]

/-- Groups with one target are one group. -/
theorem group_eq (h : (target, g) ∈ (buildScrapeGroups (scrapers cfg)).items)
    (h' : (target, g') ∈ (buildScrapeGroups (scrapers cfg)).items) : g = g' :=
  Dict.eq_of_mem h h'

/-- The work unit of a group. -/
def groupUnit (g : ScrapeGroup) : WorkUnit :=
  if g.consolidated then ⟨g.primary, some g⟩ else ⟨g.primary, none⟩

/-- The owning group of a member, when its group is ready. -/
theorem owningGroup_of_mem (h : (target, g) ∈ (buildScrapeGroups (scrapers cfg)).items)
    (hready : ∀ g' ∈ ready, ∃ target', (target', g') ∈ (buildScrapeGroups (scrapers cfg)).items)
    (hg : g ∈ ready) (hm : m ∈ g.members) :
    owningGroup ready m = if g.consolidated then some g else none := by
  have heq (g' : ScrapeGroup) (hg' : g' ∈ ready) (hm' : m ∈ g'.members) : g' = g := by
    obtain ⟨target', h'⟩ := hready g' hg'
    obtain rfl := target_eq_of_member h h' hm hm'
    exact group_eq h' h
  cases hfound : owningGroup ready m with
  | some g' =>
    have hpass := List.find?_some hfound
    rw [Bool.and_eq_true, decide_eq_true_eq] at hpass
    obtain rfl := heq g' (List.mem_of_find?_eq_some hfound) hpass.2
    rw [if_pos hpass.1]
  | none =>
    have hnot := List.find?_eq_none.mp hfound g hg
    rw [if_neg fun hc => hnot (by simp [hc, hm])]

/-- A group of one member has its primary only. -/
theorem members_of_not_consolidated (h : (target, g) ∈ (buildScrapeGroups (scrapers cfg)).items)
    (hc : g.consolidated = false) : g.members = [g.primary] := by
  have hp := (buildScrapeGroups_sound h).primary
  have hlen : g.members.length ≤ 1 := by simpa [ScrapeGroup.consolidated] using hc
  match hms : g.members with
  | [] => rw [hms] at hp; exact absurd hp (by simp)
  | [m] => rw [hms, List.mem_singleton] at hp; rw [hp]
  | _ :: _ :: _ => rw [hms] at hlen; simp at hlen

/-- **One unit.** However many groups are ready, the due members of one of them make one work
unit. -/
theorem workUnits_due (h : (target, g) ∈ (buildScrapeGroups (scrapers cfg)).items)
    (hready : ∀ g' ∈ ready, ∃ target', (target', g') ∈ (buildScrapeGroups (scrapers cfg)).items)
    (hg : g ∈ ready) (hdue : membersDue cfg lastForward g now ≠ []) :
    workUnits ready (membersDue cfg lastForward g now) = [groupUnit g] := by
  have howning (m : Nat) (hm : m ∈ membersDue cfg lastForward g now) :=
    owningGroup_of_mem h hready hg (mem_membersDue.mp hm).1
  generalize hms : membersDue cfg lastForward g now = ms at hdue howning
  unfold workUnits groupUnit
  cases hc : g.consolidated with
  | true =>
    have howning (m : Nat) (hm : m ∈ ms) : owningGroup ready m = some g := by
      rw [howning m hm, hc, if_pos rfl]
    have hstandalone : standalone ready ms = [] :=
      List.filter_eq_nil_iff.mpr fun m hm => by simp [howning m hm]
    -- after the first member the group has been seen
    have hseen (ms : List Nat) (howning : ∀ m ∈ ms, owningGroup ready m = some g) :
        ms.foldl (fun groups t =>
          match owningGroup ready t with
          | some g => if g ∈ groups then groups else groups ++ [g]
          | none => groups) [g] = [g] := by
      induction ms with
      | nil => rfl
      | cons m ms ih =>
        rw [List.foldl_cons, howning m (List.mem_cons_self ..)]
        simpa using ih fun m hm => howning m (List.mem_cons_of_mem _ hm)
    have hgroups : groupsToRead ready ms = [g] := by
      match ms with
      | [] => exact absurd rfl hdue
      | m :: ms =>
        rw [groupsToRead, List.foldl_cons, howning m (List.mem_cons_self ..)]
        simpa using hseen ms fun m hm => howning m (List.mem_cons_of_mem _ hm)
    rw [hstandalone, hgroups]
    rfl
  | false =>
    have howning (m : Nat) (hm : m ∈ ms) : owningGroup ready m = none := by
      rw [howning m hm, hc, if_neg (by simp)]
    have hgroups (ms : List Nat) (howning : ∀ m ∈ ms, owningGroup ready m = none) :
        groupsToRead ready ms = [] := by
      unfold groupsToRead
      induction ms with
      | nil => rfl
      | cons m ms ih =>
        rw [List.foldl_cons, howning m (List.mem_cons_self ..)]
        exact ih fun m hm => howning m (List.mem_cons_of_mem _ hm)
    have hstandalone : standalone ready ms = ms :=
      List.filter_eq_self.mpr fun m hm => by simp [howning m hm]
    have hsingle : ms = [g.primary] := by
      have hsub : ms.Sublist [g.primary] := by
        rw [← hms, ← members_of_not_consolidated h hc]
        exact List.filter_sublist
      rcases List.sublist_singleton.mp hsub with rfl | rfl
      · exact absurd rfl hdue
      · rfl
    rw [hgroups ms howning, hstandalone, hsingle]
    rfl

/-- What the work unit of a group reads. -/
theorem reads_groupUnit :
    (groupUnit g).reads cfg = if g.fallback (scrapers cfg) then g.members else [g.primary] := by
  unfold groupUnit WorkUnit.reads
  cases hc : g.consolidated with
  | true => rfl
  | false => simp [ScrapeGroup.fallback, hc]

/-- A work unit reads members of its group. -/
theorem mem_of_reads (h : (target, g) ∈ (buildScrapeGroups (scrapers cfg)).items)
    (hm : m ∈ (groupUnit g).reads cfg) : m ∈ g.members := by
  rw [reads_groupUnit] at hm
  split at hm
  · exact hm
  · rw [List.mem_singleton.mp hm]
    exact (buildScrapeGroups_sound h).primary

end Groups

/-! ## What every step keeps -/

section Invariant

variable {cfg} {s s' : State} {l : Label} {c c' : Nat} {u u' : Cycle} {target : String} {now : Int}
  {ready : List ScrapeGroup}

/-- An active cycle was submitted for a group, and its key is still who is due. -/
structure Submission.Sound (cfg : Config) (lastForward : Nat → Int) (u : Submission) : Prop where
  group : (u.target, u.group) ∈ (buildScrapeGroups (scrapers cfg)).items
  due : u.due = membersDue cfg lastForward u.group u.cycleNow
  nonempty : u.due ≠ []
  work : u.work = groupUnit u.group

/-- A block is read for a transport that the cycle reads. -/
def Phase.Reads (reads : List Nat) : Phase → Prop
  | .waiting t _ | .requesting t _ => t ∈ reads
  | _ => True

/-- How a worker moves on: it stays done, and reads what the cycle reads. -/
structure Phase.Follows (reads : List Nat) (phase phase' : Phase) : Prop where
  done : phase = .done → phase' = .done
  reads : phase.Reads reads → phase'.Reads reads

/-- The invariant of the scheduler. -/
structure Inv (cfg : Config) (s : State) : Prop where
  fresh : ∀ c, s.begun ≤ c → s.cycles c = none
  sound : ∀ c u, s.cycles c = some u → u.toSubmission.Sound cfg s.lastForward
  single : ∀ c c' u u', s.cycles c = some u → s.cycles c' = some u' → u.target = u'.target → c = c'
  reads : ∀ c u, s.cycles c = some u → u.phase.Reads (u.work.reads cfg)
  created : ∀ t k, s.busLock t = some k → k < s.locks
  owned : ∀ t t' k, s.busLock t = some k → s.busLock t' = some k →
    scrapeTarget (scrapers cfg) t = scrapeTarget (scrapers cfg) t'

/-- A step that only moves workers on, marks cycles as late, or clears bus locks. -/
structure Quiet (cfg : Config) (s s' : State) : Prop where
  begun : s'.begun = s.begun
  lastForward : s'.lastForward = s.lastForward
  locks : s'.locks = s.locks
  cycles : ∀ c u', s'.cycles c = some u' →
    ∃ u, s.cycles c = some u ∧ u'.toSubmission = u.toSubmission ∧
      u.phase.Follows (u.work.reads cfg) u'.phase
  kept : ∀ c u, s.cycles c = some u → ∃ u', s'.cycles c = some u' ∧ u'.toSubmission = u.toSubmission
  busLock : ∀ t k, s'.busLock t = some k → s.busLock t = some k

/-- The table of active cycles after one of them has changed. -/
theorem setCycle_cases {v : Option Cycle} (h : s.setCycle c v c' = some u') :
    (c' = c ∧ v = some u') ∨ (c' ≠ c ∧ s.cycles c' = some u') := by
  by_cases hc : c' = c
  · rw [hc, State.setCycle, Function.update_self] at h
    exact Or.inl ⟨hc, h⟩
  · rw [State.setCycle, Function.update_of_ne hc] at h
    exact Or.inr ⟨hc, h⟩

/-- Changing one active cycle, but not what it was submitted with, is quiet. -/
theorem Quiet.of_update (hu : s.cycles c = some u) {phase : Phase} {timedOut : Bool}
    (hphase : u.phase.Follows (u.work.reads cfg) phase)
    {busLock : Nat → Option Nat} (hbus : ∀ t k, busLock t = some k → s.busLock t = some k) :
    Quiet cfg s
      { s with cycles := s.setCycle c (some { u with phase, timedOut }), busLock := busLock } where
  begun := rfl
  lastForward := rfl
  locks := rfl
  cycles c' v hv := by
    rcases setCycle_cases hv with ⟨rfl, hv'⟩ | ⟨-, hv'⟩
    · obtain rfl := Option.some.inj hv'
      exact ⟨u, hu, rfl, hphase⟩
    · exact ⟨v, hv', rfl, id, id⟩
  kept c' v hv := by
    by_cases hc : c' = c
    · subst hc
      obtain rfl := Option.some.inj (hu.symm.trans hv)
      exact ⟨_, Function.update_self .., rfl⟩
    · exact ⟨v, (Function.update_of_ne hc ..).trans hv, rfl⟩
  busLock := hbus

/-- Clearing a bus lock sets none. -/
theorem busLock_of_clear {t t' k : Nat}
    (h : Function.update s.busLock t none t' = some k) : s.busLock t' = some k := by
  by_cases ht : t' = t
  · rw [ht, Function.update_self] at h
    exact absurd h (by simp)
  · rwa [Function.update_of_ne ht] at h

/-- **What a step can do**: begin a cycle, collect one, or go on quietly. -/
theorem Step.cases (h : Step cfg s l s') :
    (∃ target now ready g, l = .begin target now ready ∧
      (target, g) ∈ (buildScrapeGroups (scrapers cfg)).items ∧
      membersDue cfg s.lastForward g now ≠ [] ∧
      (∀ c u, s.cycles c = some u → ∀ m ∈ membersDue cfg s.lastForward g now, m ∉ u.due) ∧
      s' = { s with
        begun := s.begun + 1
        cycles := s.setCycle s.begun (some
          ⟨⟨target, g, membersDue cfg s.lastForward g now, now, groupUnit g⟩, .queued, false⟩)
        busLock := attachLocks cfg s (membersDue cfg s.lastForward g now)
        locks := s.locks + (membersDue cfg s.lastForward g now).length }) ∨
    (∃ c marked u, l = .collect c marked ∧ s.cycles c = some u ∧
      (∀ m ∈ marked, m ∈ routed cfg s u) ∧
      s' = { s with
        cycles := s.setCycle c none
        lastForward := fun m => if m ∈ marked then u.cycleNow else s.lastForward m }) ∨
    ((∀ target now ready, l ≠ .begin target now ready) ∧ (∀ c marked, l ≠ .collect c marked) ∧
      Quiet cfg s s') := by
  cases h with
  | @begin target now ready g w group isReady groups due overlap units =>
    rw [workUnits_due group groups isReady due] at units
    obtain rfl := List.head_eq_of_cons_eq units
    exact Or.inl ⟨target, now, ready, g, rfl, group, due, overlap, rfl⟩
  | @collect c marked u cycle phase marks late =>
    exact Or.inr (Or.inl ⟨c, marked, u, rfl, cycle, marks, rfl⟩)
  | @expire c u cycle first =>
    refine Or.inr (Or.inr ⟨by simp, by simp, Quiet.of_update cycle ⟨?_, ?_⟩ ?_⟩)
    · intro hdone
      rw [hdone]
      rfl
    · intro hreads
      split
      · trivial
      · exact hreads
    · intro t k hk
      split at hk
      · exact hk
      · exact busLock_of_clear hk
  | start cycle phase =>
    refine Or.inr (Or.inr ⟨by simp, by simp, Quiet.of_update cycle ⟨?_, ?_⟩ fun _ _ => id⟩)
    · exact fun hdone => absurd (phase.symm.trans hdone) (by simp)
    · exact fun _ => trivial
  | @block c t u cycle phase reads =>
    refine Or.inr (Or.inr ⟨by simp, by simp, Quiet.of_update cycle ⟨?_, ?_⟩ fun _ _ => id⟩)
    · exact fun hdone => absurd (phase.symm.trans hdone) (by simp)
    · intro _
      split <;> exact reads
  | acquire cycle phase free =>
    refine Or.inr (Or.inr ⟨by simp, by simp, Quiet.of_update cycle ⟨?_, ?_⟩ fun _ _ => id⟩)
    · exact fun hdone => absurd (phase.symm.trans hdone) (by simp)
    · intro hreads
      rw [phase] at hreads
      exact hreads
  | release cycle phase =>
    refine Or.inr (Or.inr ⟨by simp, by simp, Quiet.of_update cycle ⟨?_, ?_⟩ fun _ _ => id⟩)
    · exact fun hdone => absurd (phase.symm.trans hdone) (by simp)
    · exact fun _ => trivial
  | finish cycle phase =>
    refine Or.inr (Or.inr
      ⟨by simp, by simp, Quiet.of_update cycle ⟨fun _ => rfl, ?_⟩ fun _ _ => busLock_of_clear⟩)
    exact fun _ => trivial

/-- What a routed cycle marks are members of its group. -/
theorem mem_of_routed (hu : u.toSubmission.Sound cfg s.lastForward) {m : Nat}
    (hm : m ∈ routed cfg s u) : m ∈ u.group.members := by
  unfold routed at hm
  rw [hu.work, groupUnit] at hm
  cases hc : u.group.consolidated with
  | true =>
    rw [hc, if_pos rfl] at hm
    exact (mem_membersDue.mp hm).1
  | false =>
    rw [hc, if_neg (by simp)] at hm
    rw [List.mem_singleton.mp hm]
    exact (buildScrapeGroups_sound hu.group).primary

/-- The due members of the group of an active cycle overlap its key. -/
theorem overlaps (h : Inv cfg s) (hu : s.cycles c = some u) {g : ScrapeGroup}
    (hg : (u.target, g) ∈ (buildScrapeGroups (scrapers cfg)).items)
    (hdue : membersDue cfg s.lastForward g now ≠ []) :
    ∃ m ∈ membersDue cfg s.lastForward g now, m ∈ u.due := by
  have hsound := h.sound c u hu
  obtain rfl := group_eq hg hsound.group
  have hkey := hsound.nonempty
  rw [hsound.due] at hkey ⊢
  exact exists_due_twice hdue hkey

theorem inv_initial (h : Initial s) : Inv cfg s where
  fresh c _ := h.cycles c
  sound c u hu := absurd (hu.symm.trans (h.cycles c)) (by simp)
  single c _ u _ hu := absurd (hu.symm.trans (h.cycles c)) (by simp)
  reads c u hu := absurd (hu.symm.trans (h.cycles c)) (by simp)
  created t k hk := absurd (hk.symm.trans (h.busLock t)) (by simp)
  owned t _ k hk := absurd (hk.symm.trans (h.busLock t)) (by simp)

/-- A quiet step keeps the invariant. -/
theorem Inv.quiet (h : Inv cfg s) (hq : Quiet cfg s s') : Inv cfg s' where
  fresh c hc := by
    rw [hq.begun] at hc
    cases hu' : s'.cycles c with
    | none => rfl
    | some u' =>
      obtain ⟨u, hu, -, -⟩ := hq.cycles c u' hu'
      exact absurd (hu.symm.trans (h.fresh c hc)) (by simp)
  sound c u' hu' := by
    obtain ⟨u, hu, hsub, -⟩ := hq.cycles c u' hu'
    rw [hsub, hq.lastForward]
    exact h.sound c u hu
  single c c' u' v' hu' hv' htarget := by
    obtain ⟨u, hu, hsub, -⟩ := hq.cycles c u' hu'
    obtain ⟨v, hv, hsub', -⟩ := hq.cycles c' v' hv'
    rw [hsub, hsub'] at htarget
    exact h.single c c' u v hu hv htarget
  reads c u' hu' := by
    obtain ⟨u, hu, hsub, hfollows⟩ := hq.cycles c u' hu'
    rw [hsub]
    exact hfollows.reads (h.reads c u hu)
  created t k hk := by
    rw [hq.locks]
    exact h.created t k (hq.busLock t k hk)
  owned t t' k hk hk' := h.owned t t' k (hq.busLock t k hk) (hq.busLock t' k hk')

/-- Collecting a cycle keeps the invariant: the members it marks are in no other active cycle. -/
theorem Inv.collect (h : Inv cfg s) (hu : s.cycles c = some u) {marked : List Nat}
    (hmarked : ∀ m ∈ marked, m ∈ routed cfg s u) :
    Inv cfg { s with
      cycles := s.setCycle c none
      lastForward := fun m => if m ∈ marked then u.cycleNow else s.lastForward m } where
  fresh c' hc' := by
    by_cases hc : c' = c
    · rw [hc]
      exact Function.update_self ..
    · exact (Function.update_of_ne hc ..).trans (h.fresh c' hc')
  sound c' v hv := by
    rcases setCycle_cases hv with ⟨-, hv⟩ | ⟨hne, hv⟩
    · exact absurd hv (by simp)
    · have hsound := h.sound c' v hv
      refine { hsound with due := hsound.due.trans (membersDue_congr fun m hm => ?_) }
      have hnot : m ∉ marked := fun hmark => hne (h.single c' c v u hv hu
        (target_eq_of_member hsound.group (h.sound c u hu).group hm
          (mem_of_routed (h.sound c u hu) (hmarked m hmark))))
      exact (if_neg hnot).symm
  single c₁ c₂ v₁ v₂ h₁ h₂ htarget := by
    rcases setCycle_cases h₁ with ⟨-, h₁⟩ | ⟨-, h₁⟩
    · exact absurd h₁ (by simp)
    · rcases setCycle_cases h₂ with ⟨-, h₂⟩ | ⟨-, h₂⟩
      · exact absurd h₂ (by simp)
      · exact h.single c₁ c₂ v₁ v₂ h₁ h₂ htarget
  reads c' v hv := by
    rcases setCycle_cases hv with ⟨-, hv⟩ | ⟨-, hv⟩
    · exact absurd hv (by simp)
    · exact h.reads c' v hv
  created := h.created
  owned := h.owned

/-- Where a lock attached to a transport comes from. -/
theorem attachLocks_cases {transports : List Nat} {t k : Nat}
    (h : attachLocks cfg s transports t = some k) :
    (t ∈ transports ∧ s.locks ≤ k ∧ k < s.locks + transports.length) ∨
      (t ∉ transports ∧ s.busLock t = some k) := by
  unfold attachLocks at h
  split at h
  · next ht =>
    obtain rfl := Option.some.inj h
    have hlt : (transports.map (wireKey cfg)).idxOf (wireKey cfg t) < transports.length := by
      have := List.idxOf_lt_length_of_mem (List.mem_map_of_mem (f := wireKey cfg) ht)
      rwa [List.length_map] at this
    exact Or.inl ⟨ht, by omega, by omega⟩
  · next ht => exact Or.inr ⟨ht, h⟩

/-- Beginning a cycle keeps the invariant: an active cycle of the same group would overlap it. -/
theorem Inv.begin (h : Inv cfg s) {g : ScrapeGroup}
    (hg : (target, g) ∈ (buildScrapeGroups (scrapers cfg)).items)
    (hdue : membersDue cfg s.lastForward g now ≠ [])
    (hoverlap : ∀ c u, s.cycles c = some u → ∀ m ∈ membersDue cfg s.lastForward g now, m ∉ u.due) :
    Inv cfg { s with
      begun := s.begun + 1
      cycles := s.setCycle s.begun (some
        ⟨⟨target, g, membersDue cfg s.lastForward g now, now, groupUnit g⟩, .queued, false⟩)
      busLock := attachLocks cfg s (membersDue cfg s.lastForward g now)
      locks := s.locks + (membersDue cfg s.lastForward g now).length } := by
  have hother (c : Nat) (u : Cycle) (hu : s.cycles c = some u) : u.target ≠ target := by
    rintro rfl
    obtain ⟨m, hm, hkey⟩ := overlaps h hu hg hdue
    exact hoverlap c u hu m hm hkey
  have htarget (m : Nat) (hm : m ∈ membersDue cfg s.lastForward g now) :
      scrapeTarget (scrapers cfg) m = target :=
    (buildScrapeGroups_sound hg).target m (mem_membersDue.mp hm).1
  exact {
    fresh := fun c hc => by
      have hc : s.begun + 1 ≤ c := hc
      exact (Function.update_of_ne (by omega) ..).trans (h.fresh c (by omega))
    sound := fun c u hu => by
      rcases setCycle_cases hu with ⟨-, hu⟩ | ⟨-, hu⟩
      · obtain rfl := Option.some.inj hu
        exact ⟨hg, rfl, hdue, rfl⟩
      · exact h.sound c u hu
    single := fun c c' u u' hu hu' heq => by
      rcases setCycle_cases hu with ⟨hc, hv⟩ | ⟨-, hv⟩ <;>
        rcases setCycle_cases hu' with ⟨hc', hv'⟩ | ⟨-, hv'⟩
      · rw [hc, hc']
      · obtain rfl := Option.some.inj hv
        exact absurd heq.symm (hother c' u' hv')
      · obtain rfl := Option.some.inj hv'
        exact absurd heq (hother c u hv)
      · exact h.single c c' u u' hv hv' heq
    reads := fun c u hu => by
      rcases setCycle_cases hu with ⟨-, hu⟩ | ⟨-, hu⟩
      · obtain rfl := Option.some.inj hu
        trivial
      · exact h.reads c u hu
    created := fun t k hk => by
      rcases attachLocks_cases hk with ⟨-, -, hlt⟩ | ⟨-, hk⟩
      · exact hlt
      · exact Nat.lt_of_lt_of_le (h.created t k hk) (Nat.le_add_right ..)
    owned := fun t t' k hk hk' => by
      rcases attachLocks_cases hk with ⟨ht, hle, -⟩ | ⟨-, hk⟩ <;>
        rcases attachLocks_cases hk' with ⟨ht', hle', -⟩ | ⟨-, hk'⟩
      · rw [htarget t ht, htarget t' ht']
      · exact absurd (h.created t' k hk') (Nat.not_lt_of_le hle)
      · exact absurd (h.created t k hk) (Nat.not_lt_of_le hle')
      · exact h.owned t t' k hk hk' }

theorem inv_step (h : Inv cfg s) (hs : Step cfg s l s') : Inv cfg s' := by
  rcases hs.cases with ⟨target, now, ready, g, -, hg, hdue, hoverlap, rfl⟩ |
    ⟨c, marked, u, -, hu, hmarked, rfl⟩ | ⟨-, -, hq⟩
  · exact h.begin hg hdue hoverlap
  · exact h.collect hu hmarked
  · exact h.quiet hq

theorem inv_of_reachable (h : Runs.Reachable (system cfg) s) : Inv cfg s :=
  h.invariant (fun _ h0 => inv_initial h0) fun _ _ _ _ ih _ hs => inv_step ih hs

/-! ## One cycle for a group -/

/-- A step submits no cycle for the group of an active one. -/
theorem no_resubmission (h : Inv cfg s) (hs : Step cfg s (.begin target now ready) s')
    (hu : s.cycles c = some u) : u.target ≠ target := by
  rintro rfl
  rcases hs.cases with ⟨_, _, _, g, hl, hg, hdue, hoverlap, -⟩ | ⟨_, _, _, hl, -⟩ | ⟨hl, -⟩
  · injection hl with htarget hnow
    subst htarget hnow
    obtain ⟨m, hm, hkey⟩ := overlaps h hu hg hdue
    exact hoverlap c u hu m hm hkey
  · cases hl
  · exact absurd rfl (hl _ _ _)

/-- An active cycle stays active until it is collected. -/
theorem active_until_collected (h : Inv cfg s) (hs : Step cfg s l s') (hu : s.cycles c = some u) :
    (∃ marked, l = .collect c marked) ∨
      ∃ u', s'.cycles c = some u' ∧ u'.toSubmission = u.toSubmission := by
  rcases hs.cases with ⟨_, _, _, _, -, -, -, -, rfl⟩ | ⟨c', marked, _, rfl, -, -, rfl⟩ | ⟨-, -, hq⟩
  · have hne : c ≠ s.begun := by
      rintro rfl
      exact absurd (hu.symm.trans (h.fresh _ (Nat.le_refl _))) (by simp)
    exact Or.inr ⟨u, (Function.update_of_ne hne ..).trans hu, rfl⟩
  · by_cases hc : c = c'
    · subst hc
      exact Or.inl ⟨marked, rfl⟩
    · exact Or.inr ⟨u, (Function.update_of_ne hc ..).trans hu, rfl⟩
  · exact Or.inr (hq.kept c u hu)

/-- **No overlapping cycles.** In every state that a run reaches, a group has one active cycle at
most, no step submits another one for it, and the cycle stays active until the poller collects
it. -/
theorem one_cycle_per_group (h : Runs.Reachable (system cfg) s) :
    (∀ c c' u u', s.cycles c = some u → s.cycles c' = some u' → u.target = u'.target → c = c') ∧
    ∀ l s' c u, (system cfg).step s l s' → s.cycles c = some u →
      (∀ now ready, l ≠ .begin u.target now ready) ∧
      ((∃ marked, l = .collect c marked) ∨ ∃ u', s'.cycles c = some u' ∧ u'.target = u.target) := by
  have hinv := inv_of_reachable h
  refine ⟨hinv.single, fun l s' c u hs hu => ⟨?_, ?_⟩⟩
  · rintro now ready rfl
    exact no_resubmission hinv hs hu rfl
  · rcases active_until_collected hinv hs hu with hl | ⟨u', hu', hsub⟩
    · exact Or.inl hl
    · exact Or.inr ⟨u', hu', congrArg Submission.target hsub⟩

/-- Two transports behind one serial gateway, with slave addresses of their own. -/
def exampleConfig : Config :=
  [⟨⟨"gw:502:p:1", 1000, [], fun _ => true, true⟩, "transport.a", "gw", "502"⟩,
    ⟨⟨"gw:502:p:2", 1000, [], fun _ => true, true⟩, "transport.b", "gw", "502"⟩]

/-- Nothing has been read yet. -/
def exampleStart : State where
  begun := 0
  cycles _ := none
  lastForward _ := 0
  busLock _ := none
  locks := 0

/-- One step more of a run, by its label. -/
theorem prolong {guard : State → Label → Prop} (h : Runs.Reach (system cfg) guard s) (l : Label)
    (hg : guard s l) (hs : Step cfg s l s') : Runs.Reach (system cfg) guard s' :=
  h.step hg hs

theorem exampleStart_reach {guard : State → Label → Prop} :
    Runs.Reach (system exampleConfig) guard exampleStart :=
  .init ⟨fun _ => rfl, fun _ => rfl, fun _ => rfl⟩

theorem exampleGroups : ∀ g ∈ ([⟨0, [0]⟩, ⟨1, [1]⟩] : List ScrapeGroup),
    ∃ target, (target, g) ∈ (buildScrapeGroups (scrapers exampleConfig)).items := by
  have h0 : ("gw:502:p:1", ⟨0, [0]⟩) ∈ (buildScrapeGroups (scrapers exampleConfig)).items := by
    decide
  have h1 : ("gw:502:p:2", ⟨1, [1]⟩) ∈ (buildScrapeGroups (scrapers exampleConfig)).items := by
    decide
  simpa using And.intro ⟨_, h0⟩ ⟨_, h1⟩

/-- The group of an active cycle is not submitted again. -/
theorem one_cycle_per_group_running : ∃ s : State, (∃ u, s.cycles 0 = some u) ∧
    ∀ l s' c u, (system exampleConfig).step s l s' → s.cycles c = some u →
      ∀ now ready, l ≠ .begin u.target now ready := by
  have h0 : Runs.Reachable (system exampleConfig) exampleStart := exampleStart_reach
  have h1 := prolong h0 (.begin "gw:502:p:1" 2000 [⟨0, [0]⟩]) trivial
    (.begin (g := ⟨0, [0]⟩) (w := ⟨0, none⟩) (by decide) (by decide)
      (by simpa using ⟨"gw:502:p:1", by decide⟩) (by decide)
      (fun c u hu => absurd hu (by simp [exampleStart])) (by decide))
  exact ⟨_, ⟨_, rfl⟩, fun l s' c u hs hu => ((one_cycle_per_group h1).2 l s' c u hs hu).1⟩

/-! ## Bus locks -/

/-- Whenever transports on one bus are read by two cycles in flight, both have the same bus lock,
and their blocks are read under it. -/
def Shared (cfg : Config) (s : State) : Prop :=
  ∀ c c' u u', s.cycles c = some u → s.cycles c' = some u' → c ≠ c' → u.phase ≠ .done →
    u'.phase ≠ .done → ∀ t ∈ u.work.reads cfg, ∀ t' ∈ u'.work.reads cfg, t ≠ t' →
    onOneBus cfg t t' → ∃ k, s.busLock t = some k ∧ s.busLock t' = some k ∧
      (∀ lock, u.phase = .requesting t lock → lock = some k) ∧
      ∀ lock, u'.phase = .requesting t' lock → lock = some k

/-- No two requests are on one bus at once. -/
def NoOverlap (cfg : Config) (s : State) : Prop :=
  ∀ c c' u u' t t' lock lock', s.cycles c = some u → s.cycles c' = some u' → c ≠ c' →
    u.phase = .requesting t lock → u'.phase = .requesting t' lock' → ¬onOneBus cfg t t'

/-- No two cycles in flight read on one bus. -/
def Apart (cfg : Config) (s : State) : Prop :=
  ∀ c c' u u', s.cycles c = some u → s.cycles c' = some u' → c ≠ c' → u.phase ≠ .done →
    u'.phase ≠ .done → ∀ t ∈ u.work.reads cfg, ∀ t' ∈ u'.work.reads cfg, ¬onOneBus cfg t t'

/-- The condition: no cycle begins that reads on a bus on which a cycle in flight reads. -/
def Guard (cfg : Config) (s : State) : Label → Prop
  | .begin target _ _ => ∀ g, (target, g) ∈ (buildScrapeGroups (scrapers cfg)).items →
      ∀ c u, s.cycles c = some u → u.phase ≠ .done →
        ∀ t ∈ u.work.reads cfg, ∀ t' ∈ (groupUnit g).reads cfg, ¬onOneBus cfg t t'
  | _ => True

/-- What a cycle reads has the target of its group. -/
theorem target_of_reads (h : Inv cfg s) (hu : s.cycles c = some u) {t : Nat}
    (ht : t ∈ u.work.reads cfg) : scrapeTarget (scrapers cfg) t = u.target := by
  have hsound := h.sound c u hu
  rw [hsound.work] at ht
  exact (buildScrapeGroups_sound hsound.group).target t (mem_of_reads hsound.group ht)

/-- Cycles of different groups have no bus lock in common, so only what is apart is excluded. -/
theorem shared_iff_apart (h : Inv cfg s) : Shared cfg s ↔ Apart cfg s := by
  constructor
  · intro hshared c c' u u' hu hu' hne hphase hphase' t ht t' ht' hbus
    have htarget : u.target ≠ u'.target := fun heq => hne (h.single c c' u u' hu hu' heq)
    have hreads := target_of_reads h hu ht
    have hreads' := target_of_reads h hu' ht'
    have htt : t ≠ t' := by
      rintro rfl
      exact htarget (hreads.symm.trans hreads')
    obtain ⟨k, hk, hk', -, -⟩ :=
      hshared c c' u u' hu hu' hne hphase hphase' t ht t' ht' htt hbus
    exact htarget (hreads.symm.trans ((h.owned t t' k hk hk').trans hreads'))
  · intro hapart c c' u u' hu hu' hne hphase hphase' t ht t' ht' _ hbus
    exact absurd hbus (hapart c c' u u' hu hu' hne hphase hphase' t ht t' ht')

theorem noOverlap_of_apart (h : Inv cfg s) (hapart : Apart cfg s) : NoOverlap cfg s := by
  intro c c' u u' t t' lock lock' hu hu' hne hphase hphase'
  have ht := h.reads c u hu
  have ht' := h.reads c' u' hu'
  rw [hphase] at ht
  rw [hphase'] at ht'
  exact hapart c c' u u' hu hu' hne (by simp [hphase]) (by simp [hphase']) t ht t' ht'

theorem apart_initial (h : Initial s) : Apart cfg s :=
  fun c _ _ _ hu => absurd (hu.symm.trans (h.cycles c)) (by simp)

/-- Cycles in flight stay apart when every step that begins one meets the condition. -/
theorem apart_step (hapart : Apart cfg s) (hg : Guard cfg s l)
    (hs : Step cfg s l s') : Apart cfg s' := by
  rcases hs.cases with ⟨target, now, ready, g, rfl, hgroup, -, -, rfl⟩ |
    ⟨c, marked, u, -, hu, -, rfl⟩ | ⟨-, -, hq⟩
  · intro c c' u u' hu hu' hne hphase hphase' t ht t' ht'
    rcases setCycle_cases hu with ⟨hc, hv⟩ | ⟨-, hv⟩ <;>
      rcases setCycle_cases hu' with ⟨hc', hv'⟩ | ⟨-, hv'⟩
    · exact absurd (hc.trans hc'.symm) hne
    · obtain rfl := Option.some.inj hv
      exact fun hbus => hg g hgroup c' u' hv' hphase' t' ht' t ht (onOneBus_symm hbus)
    · obtain rfl := Option.some.inj hv'
      exact hg g hgroup c u hv hphase t ht t' ht'
    · exact hapart c c' u u' hv hv' hne hphase hphase' t ht t' ht'
  · intro c₁ c₂ u₁ u₂ h₁ h₂
    rcases setCycle_cases h₁ with ⟨-, h₁⟩ | ⟨-, h₁⟩
    · exact absurd h₁ (by simp)
    · rcases setCycle_cases h₂ with ⟨-, h₂⟩ | ⟨-, h₂⟩
      · exact absurd h₂ (by simp)
      · exact hapart c₁ c₂ u₁ u₂ h₁ h₂
  · intro c c' u u' hu hu' hne hphase hphase' t ht t' ht'
    obtain ⟨v, hv, hsub, hfollows⟩ := hq.cycles c u hu
    obtain ⟨v', hv', hsub', hfollows'⟩ := hq.cycles c' u' hu'
    rw [hsub] at ht
    rw [hsub'] at ht'
    exact hapart c c' v v' hv hv' hne (fun hd => hphase (hfollows.done hd))
      (fun hd => hphase' (hfollows'.done hd)) t ht t' ht'

/-- **Bus exclusion**, in runs in which no cycle begins on a bus that a cycle in flight reads:
transports on one bus that are read at the same time share their bus lock, and no two requests
overlap. -/
theorem exclusion_of_guarded (h : Runs.Reach (system cfg) (Guard cfg) s) :
    Shared cfg s ∧ NoOverlap cfg s := by
  have hinv := inv_of_reachable h.reachable
  have hapart : Apart cfg s :=
    h.invariant (P := Apart cfg) (fun _ h0 => apart_initial h0)
      fun _ _ _ _ ih hg hs => apart_step ih hg hs
  exact ⟨(shared_iff_apart hinv).mpr hapart, noOverlap_of_apart hinv hapart⟩

/-- The condition is exact: a step that does not meet it leaves two cycles in flight that do not
share a bus lock. -/
theorem not_shared_of_unguarded (h : Runs.Reachable (system cfg) s) (hs : Step cfg s l s')
    (hg : ¬Guard cfg s l) : ¬Shared cfg s' := by
  have hinv := inv_of_reachable h
  rw [shared_iff_apart (inv_step hinv hs)]
  intro hapart
  apply hg
  rcases hs.cases with ⟨target, now, ready, g, rfl, hgroup, -, -, rfl⟩ |
    ⟨c, marked, u, rfl, -⟩ | ⟨hl, -, -⟩
  · intro g' hgroup' c u hu hphase t ht t' ht'
    obtain rfl := group_eq hgroup hgroup'
    have hne : c ≠ s.begun := by
      rintro rfl
      exact absurd (hu.symm.trans (hinv.fresh _ (Nat.le_refl _))) (by simp)
    exact hapart c s.begun u _ ((Function.update_of_ne hne ..).trans hu) (Function.update_self ..)
      hne hphase (by simp) t ht t' ht'
  · trivial
  · cases l with
    | begin target now ready => exact absurd rfl (hl target now ready)
    | _ => trivial

/-- Which locks are free, while there have been two cycles. -/
theorem free_of_two {k : Nat} {p q : Phase} (hrest : ∀ c, s.cycles (c + 2) = none)
    (h0 : (s.cycles 0).map Cycle.phase = some p) (h1 : (s.cycles 1).map Cycle.phase = some q)
    (hp : ∀ t, p ≠ .requesting t (some k)) (hq : ∀ t, q ≠ .requesting t (some k)) : s.Free k := by
  intro c u t hu
  match c with
  | 0 =>
    rw [hu] at h0
    exact Option.some.inj h0 ▸ hp t
  | 1 =>
    rw [hu] at h1
    exact Option.some.inj h1 ▸ hq t
  | c + 2 => exact absurd (hu.symm.trans (hrest c)) (by simp)

/-- The two groups are read one after the other. -/
theorem exclusion_one_by_one : ∃ s : State,
    (∃ u, s.cycles 1 = some u ∧ u.phase = .requesting 1 (some 1)) ∧
      Shared exampleConfig s ∧ NoOverlap exampleConfig s := by
  have h0 : Runs.Reach (system exampleConfig) (Guard exampleConfig) exampleStart :=
    exampleStart_reach
  have h1 := prolong h0 (.begin "gw:502:p:1" 2000 [⟨0, [0]⟩, ⟨1, [1]⟩])
    (fun _ _ c u hu => absurd hu (by simp [exampleStart]))
    (.begin (g := ⟨0, [0]⟩) (w := ⟨0, none⟩) (by decide) (by decide) exampleGroups (by decide)
      (fun c u hu => absurd hu (by simp [exampleStart])) (by decide))
  have h2 := prolong h1 (.start 0) trivial (.start rfl rfl)
  have h3 := prolong h2 (.finish 0) trivial (.finish rfl rfl)
  have h4 := prolong h3 (.begin "gw:502:p:2" 2000 [⟨0, [0]⟩, ⟨1, [1]⟩])
    (fun g _ c u hu hphase => by
      rcases setCycle_cases hu with ⟨-, hu⟩ | ⟨hc, hu⟩
      · obtain rfl := Option.some.inj hu
        exact absurd rfl hphase
      · exact absurd hu (by simp [State.move, State.setCycle, hc, exampleStart]))
    (.begin (g := ⟨1, [1]⟩) (w := ⟨1, none⟩) (by decide) (by decide) exampleGroups (by decide)
      (fun c u hu m hm => by
        rw [show m = 1 by simpa using (mem_membersDue.mp hm).1]
        rcases setCycle_cases hu with ⟨-, hu⟩ | ⟨hc, hu⟩
        · obtain rfl := Option.some.inj hu
          decide
        · exact absurd hu (by simp [State.move, State.setCycle, hc, exampleStart])) (by decide))
  have h5 := prolong h4 (.start 1) trivial (.start rfl rfl)
  have h6 := prolong h5 (.block 1 1) trivial (.block rfl rfl (by decide))
  have h7 := prolong h6 (.acquire 1) trivial (.acquire rfl rfl
    (free_of_two (k := 1) (fun _ => rfl) (p := .done) (q := .waiting 1 1) rfl rfl
      (by simp) (by simp)))
  exact ⟨_, ⟨_, rfl, rfl⟩, exclusion_of_guarded h7⟩

/-- Two groups behind one serial gateway are read at the same time, each under a lock of its own:
their requests overlap. -/
theorem requests_overlap : ¬ ∀ (cfg : Config) (s : State), Runs.Reachable (system cfg) s →
    Shared cfg s ∧ NoOverlap cfg s := by
  intro hall
  have h0 : Runs.Reachable (system exampleConfig) exampleStart := exampleStart_reach
  have h1 := prolong h0 (.begin "gw:502:p:1" 2000 [⟨0, [0]⟩, ⟨1, [1]⟩]) trivial
    (.begin (g := ⟨0, [0]⟩) (w := ⟨0, none⟩) (by decide) (by decide) exampleGroups (by decide)
      (fun c u hu => absurd hu (by simp [exampleStart])) (by decide))
  have h2 := prolong h1 (.begin "gw:502:p:2" 2000 [⟨0, [0]⟩, ⟨1, [1]⟩]) trivial
    (.begin (g := ⟨1, [1]⟩) (w := ⟨1, none⟩) (by decide) (by decide) exampleGroups (by decide)
      (fun c u hu m hm => by
        rcases setCycle_cases hu with ⟨-, hu⟩ | ⟨-, hu⟩
        · obtain rfl := Option.some.inj hu
          rw [show m = 1 by simpa using (mem_membersDue.mp hm).1]
          decide
        · exact absurd hu (by simp [exampleStart])) (by decide))
  have h3 := prolong h2 (.start 0) trivial (.start rfl rfl)
  have h4 := prolong h3 (.start 1) trivial (.start rfl rfl)
  have h5 := prolong h4 (.block 0 0) trivial (.block rfl rfl (by decide))
  have h6 := prolong h5 (.block 1 1) trivial (.block rfl rfl (by decide))
  have h7 := prolong h6 (.acquire 0) trivial (.acquire rfl rfl
    (free_of_two (k := 0) (fun _ => rfl) (p := .waiting 0 0) (q := .waiting 1 1) rfl rfl
      (by simp) (by simp)))
  have h8 := prolong h7 (.acquire 1) trivial (.acquire rfl rfl
    (free_of_two (k := 1) (fun _ => rfl) (p := .requesting 0 (some 0)) (q := .waiting 1 1) rfl rfl
      (by simp) (by simp)))
  exact (hall _ _ h8).2 0 1 _ _ 0 1 (some 0) (some 1) rfl rfl (by decide) rfl rfl (by decide)

end Invariant

end Scheduler

end ProtocolGateway
