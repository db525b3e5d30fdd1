import ProtocolGateway.Lib.Runs
import ProtocolGateway.Lib.Timers

/-!
# The file watcher

`_MPGEventHandler` turns the events of watchdog into two triggers: a change of `config.cfg` reloads
the gateway, a change of any other file scans the protocols again. Each trigger waits in a timer of
its own, and a further event of its kind cancels the timer and arms a new one. A timer whose time is
up may already be running when the event comes; then both run.

* `onAnyEvent` — one event.
* `run` — events and timers, in any order.
* `nothingMissed_iff` — the events of which every change leads to its trigger.

An event is judged while the file system answers `resolve()`; the answers are part of the run.
-/

namespace ProtocolGateway

namespace FileWatcher

open Runs Timers

/-! ## Events -/

inductive EventType
  | modified
  | created
  | deleted
  | moved
  deriving DecidableEq

/-- An event of watchdog. The destination is that of a move. -/
structure FileSystemEvent where
  eventType : EventType
  isDirectory : Bool
  srcPath : String
  destPath : String

/-- `Path.resolve()`, `none` for an `OSError`. -/
abbrev Resolve := String → Option String

/-- What a timer is for. -/
inductive TriggerKind
  | scan
  | reload
  deriving DecidableEq

/-- A timer's function and its argument. -/
structure Trigger where
  kind : TriggerKind
  path : String

/-! ## The handler -/

/-- What the handler is made with. -/
structure Handler where
  configPath : String
  /-- is there a callback -/
  onConfigChanged : Bool

/-- The timers, and which of them `_pending` and `_pending_config` refer to. -/
structure State where
  timers : Pool Trigger
  pending : Option Nat
  pendingConfig : Option Nat

/-- The state before any event. -/
def State.init : State := ⟨[], none, none⟩

/-- `cancel()` of the timer referred to, if there is one. -/
def cancelPending (timers : Pool Trigger) : Option Nat → Pool Trigger
  | some id => cancel timers id
  | none => timers

/-- `_schedule_scan`. -/
def scheduleScan (s : State) (path : String) : State :=
  let timers := cancelPending s.timers s.pending
  { s with timers := arm timers ⟨.scan, path⟩, pending := some timers.length }

/-- `_schedule_config_reload`. -/
def scheduleConfigReload (s : State) (path : String) : State :=
  let timers := cancelPending s.timers s.pendingConfig
  { s with timers := arm timers ⟨.reload, path⟩, pendingConfig := some timers.length }

/-- What a trigger does. -/
inductive Action
  /-- `scanner.run()` -/
  | scan
  /-- `on_config_changed()` -/
  | reload
  deriving DecidableEq

/-- `_do_scan` and `_do_config_reload`. What they raise is caught. -/
def Trigger.fire (h : Handler) (t : Trigger) : List Action :=
  match t.kind with
  | .scan => [.scan]
  | .reload => if h.onConfigChanged then [.reload] else []

/-- Is the changed path that of `config.cfg`? -/
def isConfigFile (h : Handler) (resolve : Resolve) (path : String) : Bool :=
  match resolve path, resolve h.configPath with
  | some path', some configPath' => path' == configPath'
  | _, _ => path == h.configPath

/-- `on_any_event`. -/
def onAnyEvent (h : Handler) (s : State) (e : FileSystemEvent) (resolve : Resolve) : State :=
  match e.eventType with
  | .modified | .created | .deleted =>
    if e.isDirectory then s
    else if isConfigFile h resolve e.srcPath then scheduleConfigReload s e.srcPath
    else scheduleScan s e.srcPath
  | .moved => s

/-! ## Runs -/

/-- What can happen next: an event, a timer whose time is up, or the function of a timer. -/
inductive Step
  | event (e : FileSystemEvent) (resolve : Resolve)
  | expire (id : Nat)
  | start (id : Nat)

/-- One step, and what is done in it. -/
def step (h : Handler) (s : State) : Step → Option (State × List Action)
  | .event e resolve => some (onAnyEvent h s e resolve, [])
  | .expire id => (expire s.timers id).map fun timers => ({ s with timers := timers }, [])
  | .start id => (start s.timers id).map fun r => ({ s with timers := r.2 }, r.1.fire h)

/-- Steps one after the other. -/
def run (h : Handler) (s : State) (steps : List Step) : Option (State × List Action) :=
  emit (step h) s steps

/-- The events among the steps. -/
def events : List Step → List (FileSystemEvent × Resolve)
  | [] => []
  | .event e resolve :: rest => (e, resolve) :: events rest
  | .expire _ :: rest | .start _ :: rest => events rest

/-! ## What is to be caught -/

/-- The files whose content or presence an event is about. -/
def FileSystemEvent.touched (e : FileSystemEvent) : List String :=
  match e.eventType with
  | .modified | .created | .deleted => [e.srcPath]
  | .moved => [e.srcPath, e.destPath]

/-- The trigger a changed file should lead to. -/
def kindOf (h : Handler) (resolve : Resolve) (path : String) : TriggerKind :=
  if isConfigFile h resolve path then .reload else .scan

/-- Does an event change a file that a trigger of this kind is for? -/
def Changes (h : Handler) (e : FileSystemEvent) (resolve : Resolve) (kind : TriggerKind) : Prop :=
  e.isDirectory = false ∧ ∃ path ∈ e.touched, kindOf h resolve path = kind

/-- What a trigger of this kind is for. -/
def TriggerKind.action : TriggerKind → Action
  | scan => .scan
  | reload => .reload

/-- A timer of this kind will run. -/
abbrev Awaits (kind : TriggerKind) (s : State) : Prop := WillRun (fun t => t.kind = kind) s.timers

/-- The watcher misses no change among these events, whenever the timers run. -/
structure NothingMissed (h : Handler) (es : List (FileSystemEvent × Resolve)) : Prop where
  /-- after a change its trigger is pending, or was started since -/
  caught : ∀ before e resolve after s s' actions actions' kind,
    events (before ++ .event e resolve :: after) <+: es →
    run h .init (before ++ [.event e resolve]) = some (s, actions) →
    run h s after = some (s', actions') → Changes h e resolve kind →
    Awaits kind s' ∨ kind.action ∈ actions'
  /-- an event leaves the timers of the other kind as they are -/
  apart : ∀ before e resolve s actions (id : Nat) (t : Trigger) (phase : Phase),
    run h .init before = some (s, actions) → s.timers[id]? = some (t, phase) →
    t.kind ≠ kindOf h resolve e.srcPath →
    (onAnyEvent h s e resolve).timers[id]? = some (t, phase)

/-! ## The references -/

variable {h : Handler} {s s' s'' : State} {actions : List Action}

/-- `_pending` and `_pending_config` refer to timers of their kinds. -/
structure Slots (s : State) : Prop where
  pending : ∀ id, s.pending = some id →
    ∃ (t : Trigger) (phase : Phase), s.timers[id]? = some (t, phase) ∧ t.kind = .scan
  pendingConfig : ∀ id, s.pendingConfig = some id →
    ∃ (t : Trigger) (phase : Phase), s.timers[id]? = some (t, phase) ∧ t.kind = .reload

theorem slots_init : Slots .init := ⟨fun _ h => (by cases h), fun _ h => (by cases h)⟩

/-- A reference to a timer that is kept. -/
theorem refers_of_keeps {timers timers' : Pool Trigger} (hkeeps : Keeps timers timers')
    {slot : Option Nat} {kind : TriggerKind}
    (hslot : ∀ id, slot = some id →
      ∃ (t : Trigger) (phase : Phase), timers[id]? = some (t, phase) ∧ t.kind = kind) :
    ∀ id, slot = some id →
      ∃ (t : Trigger) (phase : Phase), timers'[id]? = some (t, phase) ∧ t.kind = kind := by
  intro id hid
  obtain ⟨t, phase, hget, hkind⟩ := hslot id hid
  obtain ⟨phase', hget'⟩ := hkeeps id t phase hget
  exact ⟨t, phase', hget', hkind⟩

theorem keeps_cancelPending (timers : Pool Trigger) (slot : Option Nat) :
    Keeps timers (cancelPending timers slot) := by
  cases slot with
  | none => exact .refl timers
  | some id => exact keeps_cancel timers id

theorem Slots.scheduleScan (hs : Slots s) (path : String) : Slots (scheduleScan s path) where
  pending := by
    intro id hid
    obtain rfl := Option.some.inj hid
    exact ⟨_, _, getElem?_arm_length, rfl⟩
  pendingConfig :=
    refers_of_keeps ((keeps_cancelPending s.timers s.pending).trans (keeps_arm _ _))
      hs.pendingConfig

theorem Slots.scheduleConfigReload (hs : Slots s) (path : String) :
    Slots (scheduleConfigReload s path) where
  pending :=
    refers_of_keeps ((keeps_cancelPending s.timers s.pendingConfig).trans (keeps_arm _ _))
      hs.pending
  pendingConfig := by
    intro id hid
    obtain rfl := Option.some.inj hid
    exact ⟨_, _, getElem?_arm_length, rfl⟩

/-- What an event does, if it does anything. -/
theorem onAnyEvent_cases (h : Handler) (s : State) (e : FileSystemEvent) (resolve : Resolve) :
    (onAnyEvent h s e resolve = s ∧ (e.eventType = .moved ∨ e.isDirectory = true)) ∨
      (e.eventType ≠ .moved ∧ e.isDirectory = false ∧
        onAnyEvent h s e resolve =
          match kindOf h resolve e.srcPath with
          | .reload => scheduleConfigReload s e.srcPath
          | .scan => scheduleScan s e.srcPath) := by
  unfold onAnyEvent kindOf
  cases htype : e.eventType with
  | moved => exact Or.inl ⟨rfl, Or.inl rfl⟩
  | modified | created | deleted =>
    cases hdir : e.isDirectory with
    | true => exact Or.inl ⟨rfl, Or.inr rfl⟩
    | false =>
      refine Or.inr ⟨by simp, rfl, ?_⟩
      cases isConfigFile h resolve e.srcPath <;> rfl

theorem Slots.step {i : Step} (hs : Slots s) (hstep : step h s i = some (s', actions)) :
    Slots s' := by
  cases i with
  | event e resolve =>
    obtain ⟨rfl, -⟩ := Prod.mk.inj (Option.some.inj hstep)
    rcases onAnyEvent_cases h s e resolve with ⟨heq, -⟩ | ⟨-, -, heq⟩
    · rwa [heq]
    · rw [heq]
      cases kindOf h resolve e.srcPath with
      | reload => exact hs.scheduleConfigReload _
      | scan => exact hs.scheduleScan _
  | expire id =>
    obtain ⟨timers, hexpire, heq⟩ := Option.map_eq_some_iff.mp hstep
    obtain ⟨rfl, -⟩ := Prod.mk.inj heq
    exact ⟨refers_of_keeps (keeps_expire hexpire) hs.pending,
      refers_of_keeps (keeps_expire hexpire) hs.pendingConfig⟩
  | start id =>
    obtain ⟨⟨t, timers⟩, hstart, heq⟩ := Option.map_eq_some_iff.mp hstep
    obtain ⟨rfl, -⟩ := Prod.mk.inj heq
    exact ⟨refers_of_keeps (keeps_start hstart) hs.pending,
      refers_of_keeps (keeps_start hstart) hs.pendingConfig⟩

theorem Slots.run {steps : List Step} (hs : Slots s) (hrun : run h s steps = some (s', actions)) :
    Slots s' := by
  induction steps generalizing s actions with
  | nil =>
    obtain ⟨rfl, -⟩ := Prod.mk.inj (Option.some.inj hrun)
    exact hs
  | cons i rest ih =>
    obtain ⟨s₁, actions₁, actions₂, hstep, hrest, -⟩ := emit_cons_eq_some_iff.mp hrun
    exact ih (hs.step hstep) hrest

/-! ## WillRun triggers -/

/-- The timer a reference cancels is the one it refers to. -/
theorem getElem?_cancelPending {timers : Pool Trigger} {slot : Option Nat} {kind : TriggerKind}
    (hslot : ∀ id, slot = some id →
      ∃ (t : Trigger) (phase : Phase), timers[id]? = some (t, phase) ∧ t.kind = kind)
    {id : Nat} {t : Trigger} {phase : Phase} (hget : timers[id]? = some (t, phase))
    (hne : t.kind ≠ kind) : (cancelPending timers slot)[id]? = some (t, phase) := by
  cases slot with
  | none => exact hget
  | some id' =>
    refine getElem?_cancel hget fun heq => ?_
    obtain ⟨t', phase', hget', hkind⟩ := hslot id' rfl
    rw [← heq, hget] at hget'
    obtain ⟨rfl, -⟩ := Prod.mk.inj (Option.some.inj hget')
    exact hne hkind

/-- An event leaves the timers of the other kind as they are. -/
theorem Slots.apart (hs : Slots s) {e : FileSystemEvent} {resolve : Resolve} {id : Nat}
    {t : Trigger} {phase : Phase} (hget : s.timers[id]? = some (t, phase))
    (hne : t.kind ≠ kindOf h resolve e.srcPath) :
    (onAnyEvent h s e resolve).timers[id]? = some (t, phase) := by
  rcases onAnyEvent_cases h s e resolve with ⟨heq, -⟩ | ⟨-, -, heq⟩
  · rwa [heq]
  · rw [heq]
    cases hkind : kindOf h resolve e.srcPath with
    | reload =>
      rw [hkind] at hne
      exact getElem?_arm_of_some (getElem?_cancelPending hs.pendingConfig hget hne)
    | scan =>
      rw [hkind] at hne
      exact getElem?_arm_of_some (getElem?_cancelPending hs.pending hget hne)

/-- A trigger is pending after an event of its kind. -/
theorem awaits_onAnyEvent {e : FileSystemEvent} (resolve : Resolve) (hmoved : e.eventType ≠ .moved)
    (hfile : e.isDirectory = false) :
    Awaits (kindOf h resolve e.srcPath) (onAnyEvent h s e resolve) := by
  rcases onAnyEvent_cases h s e resolve with ⟨-, hor⟩ | ⟨-, -, heq⟩
  · rcases hor with hmoved' | hdir
    · exact absurd hmoved' hmoved
    · rw [hfile] at hdir
      cases hdir
  · rw [heq]
    cases kindOf h resolve e.srcPath with
    | reload => exact willRun_arm rfl
    | scan => exact willRun_arm rfl

/-- A pending trigger stays pending, or is started. -/
theorem Awaits.step {i : Step} {kind : TriggerKind} (hs : Slots s) (hpending : Awaits kind s)
    (hwired : kind = .reload → h.onConfigChanged = true)
    (hstep : step h s i = some (s', actions)) : Awaits kind s' ∨ kind.action ∈ actions := by
  cases i with
  | event e resolve =>
    obtain ⟨rfl, -⟩ := Prod.mk.inj (Option.some.inj hstep)
    left
    by_cases hkind : kind = kindOf h resolve e.srcPath
    · rcases onAnyEvent_cases h s e resolve with ⟨heq, -⟩ | ⟨hmoved, hfile, -⟩
      · rwa [heq]
      · rw [hkind]
        exact awaits_onAnyEvent resolve hmoved hfile
    · obtain ⟨id, t, phase, hget, ht, hlive⟩ := hpending
      exact ⟨id, t, phase, hs.apart hget (ht ▸ hkind), ht, hlive⟩
  | expire id =>
    obtain ⟨timers, hexpire, heq⟩ := Option.map_eq_some_iff.mp hstep
    obtain ⟨rfl, -⟩ := Prod.mk.inj heq
    exact Or.inl (WillRun.expire hpending hexpire)
  | start id =>
    obtain ⟨⟨t, timers⟩, hstart, heq⟩ := Option.map_eq_some_iff.mp hstep
    obtain ⟨rfl, rfl⟩ := Prod.mk.inj heq
    refine (WillRun.start hpending hstart).imp_right fun hkind => ?_
    subst hkind
    unfold Trigger.fire
    cases ht : t.kind with
    | scan => exact List.mem_singleton_self _
    | reload =>
      rw [hwired ht]
      exact List.mem_singleton_self _

theorem Awaits.run {steps : List Step} {kind : TriggerKind} (hs : Slots s)
    (hpending : Awaits kind s) (hwired : kind = .reload → h.onConfigChanged = true)
    (hrun : run h s steps = some (s', actions)) : Awaits kind s' ∨ kind.action ∈ actions := by
  induction steps generalizing s actions with
  | nil =>
    obtain ⟨rfl, -⟩ := Prod.mk.inj (Option.some.inj hrun)
    exact Or.inl hpending
  | cons i rest ih =>
    obtain ⟨s₁, actions₁, actions₂, hstep, hrest, rfl⟩ := emit_cons_eq_some_iff.mp hrun
    rcases hpending.step hs hwired hstep with hpending' | hmem
    · exact (ih (hs.step hstep) hpending' hrest).imp_right (List.mem_append_right _)
    · exact Or.inr (List.mem_append_left _ hmem)

/-! ## Quiet runs -/

theorem events_append (steps steps' : List Step) :
    events (steps ++ steps') = events steps ++ events steps' := by
  induction steps with
  | nil => rfl
  | cons i rest ih =>
    cases i with
    | event e resolve => exact congrArg ((e, resolve) :: ·) ih
    | expire id | start id => exact ih

theorem cancelPending_of_idle {timers : Pool Trigger} (hidle : Idle timers) (slot : Option Nat) :
    cancelPending timers slot = timers := by
  cases slot with
  | none => rfl
  | some id => exact hidle.cancel id

/-- The timer an event arms when nothing is pending, if it arms one. -/
theorem timers_onAnyEvent_of_idle (hidle : Idle s.timers) (e : FileSystemEvent)
    (resolve : Resolve) :
    onAnyEvent h s e resolve = s ∨
      (onAnyEvent h s e resolve).timers =
        arm s.timers ⟨kindOf h resolve e.srcPath, e.srcPath⟩ := by
  rcases onAnyEvent_cases h s e resolve with ⟨heq, -⟩ | ⟨-, -, heq⟩
  · exact Or.inl heq
  · right
    rw [heq]
    cases kindOf h resolve e.srcPath with
    | reload => simp only [scheduleConfigReload, cancelPending_of_idle hidle]
    | scan => simp only [scheduleScan, cancelPending_of_idle hidle]

/-- An event that arms a timer, and the timer run at once. -/
theorem run_event_timer (hidle : Idle s.timers) {e : FileSystemEvent} {resolve : Resolve}
    {t : Trigger} (harm : (onAnyEvent h s e resolve).timers = arm s.timers t) :
    ∃ s', run h (onAnyEvent h s e resolve) [.expire s.timers.length, .start s.timers.length] =
      some (s', t.fire h) ∧ Idle s'.timers := by
  obtain ⟨pool₁, pool₂, hexpire, hstart, hidle'⟩ := hidle.arm_run t
  rw [← harm] at hexpire
  refine ⟨{ onAnyEvent h s e resolve with timers := pool₂ }, ?_, hidle'⟩
  simp only [run, emit, step, hexpire, hstart, Option.map_some, Option.bind_some, List.nil_append,
    List.append_nil]

/-- Any events, with every timer run before the next of them. -/
theorem exists_quiet_run (h : Handler) (es : List (FileSystemEvent × Resolve)) :
    ∃ steps s actions, events steps = es ∧ run h .init steps = some (s, actions) ∧
      Idle s.timers := by
  induction es using List.reverseRecOn with
  | nil => exact ⟨[], .init, [], rfl, rfl, idle_nil⟩
  | append_singleton es x ih =>
    obtain ⟨steps, s, actions, rfl, hrun, hidle⟩ := ih
    obtain ⟨e, resolve⟩ := x
    have hevent : run h s [.event e resolve] = some (onAnyEvent h s e resolve, []) := rfl
    have hrun' := emit_append_eq_some_iff.mpr ⟨s, actions, [], hrun, hevent, rfl⟩
    rcases timers_onAnyEvent_of_idle hidle e resolve with heq | harm
    · refine ⟨_, _, _, events_append steps [.event e resolve], hrun', ?_⟩
      rwa [heq]
    · obtain ⟨s', htimer, hidle'⟩ := run_event_timer hidle harm
      refine ⟨_, s', _, ?_, emit_append_eq_some_iff.mpr ⟨_, _, _, hrun', htimer, rfl⟩, hidle'⟩
      rw [events_append, events_append]
      simp only [events, List.append_nil]

/-! ## Which changes are caught -/

/-- The files of a change that is no move. -/
theorem kind_eq_of_changes {e : FileSystemEvent} {resolve : Resolve} {kind : TriggerKind}
    (hchanges : Changes h e resolve kind) (hmoved : e.eventType ≠ .moved) :
    kind = kindOf h resolve e.srcPath := by
  obtain ⟨-, path, hpath, hkind⟩ := hchanges
  unfold FileSystemEvent.touched at hpath
  cases htype : e.eventType with
  | moved => exact absurd htype hmoved
  | modified | created | deleted =>
    rw [htype] at hpath
    rw [← hkind, List.mem_singleton.mp hpath]

/-- **The watcher misses no change exactly if no file is moved**, and there is a callback if
`config.cfg` is changed. A move has the event type `moved`, which the handler passes over: a save
that writes a temporary file and renames it onto `config.cfg` triggers nothing. Whatever the timers
do, the two triggers leave each other alone. -/
theorem nothingMissed_iff (h : Handler) (es : List (FileSystemEvent × Resolve)) :
    NothingMissed h es ↔
      ∀ x ∈ es, x.1.isDirectory = false →
        x.1.eventType ≠ .moved ∧
          (h.onConfigChanged = true ∨ isConfigFile h x.2 x.1.srcPath = false) := by
  constructor
  · rintro hnothing ⟨e, resolve⟩ hx hfile
    obtain ⟨a, b, rfl⟩ := List.append_of_mem hx
    obtain ⟨steps, s, actions, hsteps, hrun, hidle⟩ := exists_quiet_run h a
    have hevent : run h s [.event e resolve] = some (onAnyEvent h s e resolve, []) := rfl
    have hrun' := emit_append_eq_some_iff.mpr ⟨s, actions, [], hrun, hevent, rfl⟩
    have hmoved : e.eventType ≠ .moved := by
      intro hmoved
      have hsame : onAnyEvent h s e resolve = s := by
        unfold onAnyEvent
        rw [hmoved]
      have hchanges : Changes h e resolve (kindOf h resolve e.srcPath) :=
        ⟨hfile, e.srcPath, by simp [FileSystemEvent.touched, hmoved], rfl⟩
      rw [hsame] at hrun'
      have hprefix : events (steps ++ [.event e resolve]) <+: a ++ (e, resolve) :: b := by
        rw [events_append, hsteps]
        exact ⟨b, by simp [events]⟩
      rcases hnothing.caught steps e resolve [] s s _ _ _ hprefix hrun' rfl hchanges with hp | hmem
      · exact hidle.not_willRun hp
      · cases hmem
    refine ⟨hmoved, ?_⟩
    by_contra hor
    obtain ⟨hwired, hconfig⟩ := not_or.mp hor
    rw [Bool.not_eq_true] at hwired
    rw [Bool.not_eq_false] at hconfig
    have hkind : kindOf h resolve e.srcPath = .reload := by
      unfold kindOf
      rw [hconfig]
      rfl
    have hchanges : Changes h e resolve .reload := by
      refine ⟨hfile, e.srcPath, ?_, hkind⟩
      unfold FileSystemEvent.touched
      cases e.eventType <;> exact List.mem_cons_self
    rcases timers_onAnyEvent_of_idle hidle e resolve with heq | harm
    · have hawaits := awaits_onAnyEvent (h := h) (s := s) resolve hmoved hfile
      rw [heq] at hawaits
      exact hidle.not_willRun hawaits
    · obtain ⟨s', htimer, hidle'⟩ := run_event_timer hidle harm
      have hprefix : events (steps ++ .event e resolve ::
          [.expire s.timers.length, .start s.timers.length]) <+: a ++ (e, resolve) :: b := by
        rw [events_append, hsteps]
        exact ⟨b, by simp [events]⟩
      rcases hnothing.caught steps e resolve _ _ s' _ _ _ hprefix hrun' htimer hchanges with
        hp | hmem
      · exact hidle'.not_willRun hp
      · simp [Trigger.fire, hkind, hwired] at hmem
  · intro hfiles
    refine ⟨?_, ?_⟩
    · intro before e resolve after s s' actions actions' kind hprefix hrun hafter hchanges
      have hmem : (e, resolve) ∈ es := by
        refine hprefix.subset ?_
        rw [events_append]
        exact List.mem_append_right _ List.mem_cons_self
      obtain ⟨hmoved, hwired⟩ := hfiles _ hmem hchanges.1
      obtain rfl := kind_eq_of_changes hchanges hmoved
      have hs := slots_init.run hrun
      obtain ⟨s₀, actions₀, actions₁, -, hevent, -⟩ := emit_append_eq_some_iff.mp hrun
      obtain ⟨rfl, -⟩ := Prod.mk.inj (Option.some.inj hevent)
      refine Awaits.run hs (awaits_onAnyEvent resolve hmoved hchanges.1) (fun hkind => ?_) hafter
      rcases hwired with hwired | hconfig
      · exact hwired
      · unfold kindOf at hkind
        simp only at hconfig
        rw [hconfig] at hkind
        cases hkind
    · intro before e resolve s actions id t phase hrun hget hne
      exact (slots_init.run hrun).apart hget hne

/-- An editor saves `config.cfg` by way of a temporary file. -/
def savedByRename : FileSystemEvent :=
  ⟨.moved, false, "/srv/gateway/config.cfg.tmp", "/srv/gateway/config.cfg"⟩

/-- The gateway is not reloaded with what was saved. -/
theorem nothingMissed_savedByRename_false :
    ¬∀ (h : Handler) (es : List (FileSystemEvent × Resolve)), NothingMissed h es := by
  intro hall
  have hcaught := (hall ⟨"/srv/gateway/config.cfg", true⟩ [(savedByRename, some)]).caught
    [] savedByRename some [] .init .init [] [] .reload ⟨[], rfl⟩ rfl rfl
    ⟨rfl, "/srv/gateway/config.cfg", by decide, by decide⟩
  rcases hcaught with hp | hmem
  · exact idle_nil.not_willRun hp
  · cases hmem

end FileWatcher

end ProtocolGateway
