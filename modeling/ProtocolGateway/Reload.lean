import ProtocolGateway.Lib.Runs

/-!
# Reloading the gateway

`GatewayManager` owns the running gateway and replaces it when `config.cfg` changes: stop the old
gateway, build the new one, and if that fails fall back to the latest backup. `reload` skips all
of this when the file hashes to what was loaded last.

The manager is a state machine over its calls. What a call finds outside the manager is part of
its label: the content of `config.cfg`, whether the old gateway stops in time, and how building
from the file and from the latest backup turn out. The content type, the reading of
`enable_dynamic_configuration` and MD5 are parameters.

`reload_consistent_iff` says in which states an answer `ok` can be trusted: the exception is the
skip of a reload whose hash matches while the current gateway has been told to stop, which a
timed-out stop and a failed fallback leave behind.
-/

namespace ProtocolGateway

namespace Reload

/-- Parameters of the manager: what `config.cfg` can hold and how it is read. -/
structure Config where
  /-- the contents of a configuration file -/
  Content : Type
  /-- the hexadecimal MD5 digests -/
  Digest : Type
  /-- `hashlib.md5` -/
  md5 : Content → Digest
  /-- `enable_dynamic_configuration` of a content; `none` when reading it raises -/
  dynamic : Content → Option Bool

variable (C : Config)

/-- A `Protocol_Gateway`, as far as the manager can tell one from another. -/
structure Gateway where
  /-- the content of the file it was built from, `none` for a file that cannot be read -/
  builtFrom : Option C.Content
  /-- its `stop` has been called -/
  toldToStop : Bool

/-- `ReloadStatus`, without its time stamp. -/
structure ReloadStatus where
  ok : Bool
  message : String
  trigger : String
  usingFallback : Bool
  fatal : Bool := false
  deriving DecidableEq, Repr

/-- The fields of a `GatewayManager` that its calls read and write. -/
structure Manager where
  current : Option (Gateway C)
  status : Option ReloadStatus
  loadedConfigHash : Option C.Digest

/-- What `_fallback` finds. -/
inductive Backup
  /-- no row in `ConfigBackup`, or the query raises -/
  | none
  /-- the recorded file is missing on disk -/
  | missing (filepath createdAt : String)
  /-- building from the backup raises -/
  | fails (createdAt error : String)
  /-- building from the backup succeeds; the content is what the file holds -/
  | builds (createdAt : String) (content : Option C.Content)

/-- A call of the manager, with what it finds outside. -/
inductive Call
  /-- `start()`: the content of `config.cfg`, and whether the gateway can be built -/
  | start (config : Option C.Content) (built : Bool)
  /-- `reload(trigger)`: the content of `config.cfg`, whether `old.stop` returns in time, the
  exception building raises if any, and the latest backup -/
  | reload (trigger : String) (config : Option C.Content) (stopped : Bool)
      (buildError : Option String) (backup : Backup C)
  /-- `stop()`, at process exit -/
  | stop

variable {C}

/-- `_hash_file`: `none` for a file that cannot be read. -/
def hashFile (content : Option C.Content) : Option C.Digest := content.map C.md5

/-- `_dynamic_reload_enabled`: a file that cannot be read means no. The outer `none` is the
exception of a file that does not parse or a value that does not interpolate. -/
def dynamicReloadEnabled (content : Option C.Content) : Option Bool :=
  match content with
  | none => some false
  | some c => C.dynamic c

/-- `gateway.stop()` on the current gateway, whatever it answers. -/
def tellCurrentToStop (m : Manager C) : Manager C :=
  { m with current := m.current.map fun g => { g with toldToStop := true } }

/-- `_fallback`, with the status it returns. -/
def fallback (m : Manager C) (trigger error : String) : Backup C → Manager C × ReloadStatus
  | .none =>
    (m, { ok := false, fatal := true, usingFallback := false, trigger,
          message := "Config reload failed (" ++ error ++ ") and no backup " ++
            "exists to fall back to. Gateway is OFFLINE." })
  | .missing filepath createdAt =>
    (m, { ok := false, fatal := true, usingFallback := false, trigger,
          message := "Config reload failed (" ++ error ++ "); the last-known-good " ++
            "backup (" ++ filepath ++ ", from " ++ createdAt ++ ") is " ++
            "missing from disk. Gateway is OFFLINE." })
  | .fails createdAt fallbackError =>
    (m, { ok := false, fatal := true, usingFallback := false, trigger,
          message := "Config reload failed (" ++ error ++ "); fallback to the " ++
            "backup from " ++ createdAt ++ " ALSO failed (" ++ fallbackError ++ "). " ++
            "Gateway is OFFLINE." })
  | .builds createdAt content =>
    ({ m with
        current := some { builtFrom := content, toldToStop := false }
        loadedConfigHash := hashFile content },
      { ok := false, usingFallback := true, trigger,
        message := "New config failed to load (" ++ error ++ ") — reverted to " ++
          "the last-known-good config from " ++ createdAt ++ "." })

/-- The part of `reload` after the old gateway has stopped. -/
def rebuild (m : Manager C) (trigger : String) (config : Option C.Content)
    (buildError : Option String) (backup : Backup C) : Manager C × ReloadStatus :=
  match buildError with
  | some error => fallback m trigger error backup
  | none =>
    ({ m with
        current := some { builtFrom := config, toldToStop := false }
        loadedConfigHash := hashFile config },
      { ok := true, usingFallback := false, trigger, message := "Gateway reloaded successfully." })

/-- `start`: the initial boot. A build that raises leaves the manager as it was. -/
def start (m : Manager C) (config : Option C.Content) (built : Bool) : Manager C :=
  if built then
    { current := some { builtFrom := config, toldToStop := false }
      loadedConfigHash := hashFile config
      status := some { ok := true, message := "Gateway started.", trigger := "startup",
                       usingFallback := false } }
  else m

/-! ## What the manager knows about its gateway -/

variable {stopTimeout : String} {m : Manager C}

/-- The manager remembers the digest of what its current gateway was built from. -/
def HashLoaded (m : Manager C) : Prop :=
  ∀ g, m.current = some g → m.loadedConfigHash = hashFile g.builtFrom

theorem hashLoaded_tellCurrentToStop (h : HashLoaded m) : HashLoaded (tellCurrentToStop m) := by
  intro g hg
  obtain ⟨g', hg', rfl⟩ := Option.map_eq_some_iff.mp hg
  exact h g' hg'

theorem hashLoaded_fallback (h : HashLoaded m) (trigger error : String) (backup : Backup C) :
    HashLoaded (fallback m trigger error backup).1 := by
  cases backup with
  | builds createdAt content =>
    intro g hg
    injection hg with hg
    rw [← hg]
    rfl
  | _ => exact h

theorem hashLoaded_rebuild (h : HashLoaded m) (trigger : String) (config : Option C.Content)
    (buildError : Option String) (backup : Backup C) :
    HashLoaded (rebuild m trigger config buildError backup).1 := by
  cases buildError with
  | some error => exact hashLoaded_fallback h trigger error backup
  | none =>
    intro g hg
    injection hg with hg
    rw [← hg]
    rfl

theorem hashLoaded_start (h : HashLoaded m) (config : Option C.Content) (built : Bool) :
    HashLoaded (start m config built) := by
  unfold start
  split
  · intro g hg
    injection hg with hg
    rw [← hg]
  · exact h

section Reloading

variable [DecidableEq C.Digest]

/-- The skip test of `reload`: there is a current gateway and the file hashes to what is loaded. -/
def unchanged (m : Manager C) (config : Option C.Content) : Bool :=
  m.current.isSome && (hashFile config).isSome && hashFile config = m.loadedConfigHash

/-- `reload`, with the status it returns; `none` when it raises. -/
def reload (stopTimeout : String) (m : Manager C) (trigger : String) (config : Option C.Content)
    (stopped : Bool) (buildError : Option String) (backup : Backup C) :
    Option (Manager C × ReloadStatus) :=
  match dynamicReloadEnabled config with
  | none => none
  | some false =>
    let status : ReloadStatus :=
      { ok := true, usingFallback := false, trigger,
        message := "Dynamic configuration reload is disabled " ++
          "(enable_dynamic_configuration is not set to true " ++
          "in General Settings) — config.cfg was updated but " ++
          "the running gateway was not. Restart the process, " ++
          "or enable it in General Settings, to pick this up." }
    some ({ m with status := some status }, status)
  | some true =>
    if unchanged m config then
      let status : ReloadStatus :=
        { ok := true, usingFallback := false, trigger,
          message := "Config unchanged since last reload — skipped." }
      some ({ m with status := some status }, status)
    else if m.current.isSome ∧ stopped = false then
      let status : ReloadStatus :=
        { ok := false, usingFallback := false, trigger,
          message := "Reload aborted: the previous gateway did not stop " ++
            "within " ++ stopTimeout ++ "s (a read may still be " ++
            "in flight). Still running the previous config — " ++
            "try again shortly." }
      some ({ tellCurrentToStop m with status := some status }, status)
    else
      let (m', status) := rebuild (tellCurrentToStop m) trigger config buildError backup
      some ({ m' with status := some status }, status)

/-- One call of the manager. A `reload` that raises does so before it changes anything. -/
def call (stopTimeout : String) (m : Manager C) : Call C → Manager C
  | .start config built => start m config built
  | .reload trigger config stopped buildError backup =>
    match reload stopTimeout m trigger config stopped buildError backup with
    | some (m', _) => m'
    | none => m
  | .stop => tellCurrentToStop m

/-- A manager over all its calls. -/
def system (stopTimeout : String) : Runs.System (Manager C) (Call C) :=
  .ofFun (fun m => m = { current := none, status := none, loadedConfigHash := none })
    (call stopTimeout)

theorem hashLoaded_reload {trigger : String} {config : Option C.Content} {stopped : Bool}
    {buildError : Option String} {backup : Backup C} {m' : Manager C} {status : ReloadStatus}
    (h : HashLoaded m)
    (hr : reload stopTimeout m trigger config stopped buildError backup = some (m', status)) :
    HashLoaded m' := by
  unfold reload at hr
  split at hr
  · exact absurd hr (by simp)
  · injection hr with hr
    injection hr with hr _
    rw [← hr]
    exact h
  · split at hr
    · injection hr with hr
      injection hr with hr _
      rw [← hr]
      exact h
    · split at hr
      · injection hr with hr
        injection hr with hr _
        rw [← hr]
        exact hashLoaded_tellCurrentToStop h
      · injection hr with hr
        injection hr with hr _
        rw [← hr]
        exact hashLoaded_rebuild (hashLoaded_tellCurrentToStop h) trigger config buildError backup

theorem hashLoaded_call (h : HashLoaded m) (c : Call C) : HashLoaded (call stopTimeout m c) := by
  cases c with
  | start config built => exact hashLoaded_start h config built
  | reload trigger config stopped buildError backup =>
    rw [call]
    split
    · next hr => exact hashLoaded_reload h hr
    · exact h
  | stop => exact hashLoaded_tellCurrentToStop h

/-- In every run the loaded digest is that of the current gateway's content. -/
theorem reachable_hashLoaded (h : Runs.Reachable (system stopTimeout) m) : HashLoaded m := by
  refine h.invariant ?_ ?_
  · intro m hm g hg
    rw [hm] at hg
    exact absurd hg (by simp)
  · intro m c m' _ ih _ hstep
    rw [← hstep]
    exact hashLoaded_call ih c

/-! ## When an answer can be trusted -/

/-- The current gateway runs, and runs the given content. -/
def Running (m : Manager C) (config : Option C.Content) : Prop :=
  ∃ g, m.current = some g ∧ g.toldToStop = false ∧ g.builtFrom = config

/-- **Reload consistency.** In every reachable state, a reload of a content that enables dynamic
reload answers `ok` only over a running gateway of that content, exactly when this already holds
of a current gateway whose content has the same digest. It fails to hold where that gateway has
been told to stop: after a stop that timed out, or after a failed build without a working
backup. -/
theorem reload_consistent_iff (h : Runs.Reachable (system stopTimeout) m) {trigger : String}
    {config : Option C.Content} {stopped : Bool} {buildError : Option String} {backup : Backup C}
    (henabled : dynamicReloadEnabled config = some true) :
    (∀ m' status,
        reload stopTimeout m trigger config stopped buildError backup = some (m', status) →
        status.ok = true → Running m' config) ↔
      ∀ g, m.current = some g → hashFile g.builtFrom = hashFile config →
        g.toldToStop = false ∧ g.builtFrom = config := by
  have hloaded := reachable_hashLoaded h
  have hsome : (hashFile config).isSome = true := by
    cases config with
    | none => exact absurd henabled (by simp [dynamicReloadEnabled])
    | some c => rfl
  have hskip : unchanged m config = true ↔
      ∃ g, m.current = some g ∧ hashFile g.builtFrom = hashFile config := by
    simp only [unchanged, hsome, Bool.and_true, Bool.and_eq_true, decide_eq_true_eq,
      Option.isSome_iff_exists]
    constructor
    · rintro ⟨⟨g, hg⟩, hh⟩
      exact ⟨g, hg, by rw [hh, hloaded g hg]⟩
    · rintro ⟨g, hg, hh⟩
      exact ⟨⟨g, hg⟩, by rw [hloaded g hg, hh]⟩
  unfold reload
  rw [henabled]
  dsimp only
  by_cases hu : unchanged m config = true
  · -- the skip: the manager is left as it is
    rw [if_pos hu]
    obtain ⟨g, hg, hh⟩ := hskip.mp hu
    constructor
    · intro hall g' hg' _
      obtain ⟨g'', hg'', htold, hbuilt⟩ := hall _ _ rfl rfl
      rw [show g' = g'' from Option.some.inj (hg'.symm.trans hg'')]
      exact ⟨htold, hbuilt⟩
    · rintro hall m' status hr _
      injection hr with hr
      injection hr with hr _
      rw [← hr]
      exact ⟨g, hg, hall g hg hh⟩
  · rw [if_neg hu]
    have hvacuous : ∀ g, m.current = some g → hashFile g.builtFrom = hashFile config →
        g.toldToStop = false ∧ g.builtFrom = config :=
      fun g hg hh => absurd (hskip.mpr ⟨g, hg, hh⟩) hu
    refine iff_of_true ?_ hvacuous
    intro m' status hr hok
    split at hr
    · injection hr with hr
      injection hr with _ hr
      rw [← hr] at hok
      exact absurd hok (by simp)
    · cases buildError with
      | some error =>
        -- a fallback never answers ok
        injection hr with hr
        injection hr with _ hr
        rw [← hr] at hok
        cases backup <;> exact absurd hok (by simp [rebuild, fallback])
      | none =>
        injection hr with hr
        injection hr with hr _
        rw [← hr]
        exact ⟨_, rfl, rfl, rfl⟩

/-- A call that leaves no gateway told to stop in place: stopping is in time, and a failed build is
rescued by the backup. -/
def Smooth : Call C → Prop
  | .start _ _ => True
  | .reload _ _ stopped buildError backup =>
    stopped = true ∧ (buildError = none ∨ ∃ createdAt content, backup = .builds createdAt content)
  | .stop => False

/-- A smooth reload leaves a running gateway behind, if one was running before. -/
theorem reload_smooth {trigger : String} {config : Option C.Content} {stopped : Bool}
    {buildError : Option String} {backup : Backup C} {m' : Manager C} {status : ReloadStatus}
    (hs : Smooth (.reload trigger config stopped buildError backup))
    (hm : ∀ g, m.current = some g → g.toldToStop = false)
    (hr : reload stopTimeout m trigger config stopped buildError backup = some (m', status)) :
    ∀ g, m'.current = some g → g.toldToStop = false := by
  obtain ⟨hstopped, hbuild⟩ := hs
  unfold reload at hr
  split at hr
  · exact absurd hr (by simp)
  · injection hr with hr
    injection hr with hr _
    rw [← hr]
    exact hm
  · split at hr
    · injection hr with hr
      injection hr with hr _
      rw [← hr]
      exact hm
    · rw [if_neg (by simp [hstopped])] at hr
      injection hr with hr
      injection hr with hr _
      rw [← hr]
      rcases hbuild with rfl | ⟨createdAt, content, rfl⟩
      · intro g hg
        injection hg with hg
        rw [← hg]
      · cases buildError <;>
        · intro g hg
          injection hg with hg
          rw [← hg]

/-- In a run of smooth calls the current gateway is never one that was told to stop, so the answer
of every reload can be trusted up to digest collisions. -/
theorem running_of_smooth (h : Runs.Reach (system stopTimeout) (fun _ c => Smooth c) m) :
    ∀ g, m.current = some g → g.toldToStop = false := by
  refine Runs.Reach.invariant (P := fun m => ∀ g, m.current = some g → g.toldToStop = false)
    ?_ ?_ h
  · intro m hm g hg
    rw [hm] at hg
    exact absurd hg (by simp)
  · intro m c m' _ ih hs hstep
    rw [← hstep]
    cases c with
    | start config built =>
      change ∀ g, (start m config built).current = some g → g.toldToStop = false
      unfold start
      split
      · intro g hg
        injection hg with hg
        rw [← hg]
      · exact ih
    | reload trigger config stopped buildError backup =>
      rw [call]
      split
      · next hr => exact reload_smooth hs ih hr
      · exact ih
    | stop => exact absurd hs id

end Reloading

/-! ## A reload that answers `ok` over a stopped gateway -/

/-- Two contents of `config.cfg` and their digests. -/
def twoContents : Config where
  Content := Bool
  Digest := String
  md5 debug :=
    if debug then "9e741abda8778da832b54a150d6f3460" else "221f0a80fcbc79f0c52b690b52becdb1"
  dynamic _ := some true

instance : DecidableEq twoContents.Digest := inferInstanceAs (DecidableEq String)

/-- A gateway is started from the first content. -/
def started : Manager twoContents :=
  start { current := none, status := none, loadedConfigHash := none } (some false) true

theorem reachable_started : Runs.Reachable (system "10.0") started := by
  have hstep : (system "10.0").step { current := none, status := none, loadedConfigHash := none }
      (Call.start (some false) true) started := rfl
  exact .step (.init rfl) trivial hstep

/-- A reload of the second content builds it. -/
theorem reload_second_content : ∃ m' status,
    reload "10.0" started "manual" (some true) true none .none = some (m', status) ∧
      status.ok = true ∧ Running m' (some true) := by
  have hconsistent : ∀ m' status,
      reload "10.0" started "manual" (some true) true none .none = some (m', status) →
      status.ok = true → Running m' (some true) := by
    refine (reload_consistent_iff reachable_started rfl).mpr ?_
    intro g hg hh
    injection hg with hg
    rw [← hg] at hh
    exact absurd hh (by decide)
  exact ⟨_, _, rfl, rfl, hconsistent _ _ rfl rfl⟩

/-- After the first content has started, a reload of the second one whose stop times out, and a
reload of the first one again, the answer is `ok` and the gateway has been told to stop. -/
theorem not_reload_consistent :
    ¬ ∀ (C : Config) [DecidableEq C.Digest] (stopTimeout : String) (m : Manager C),
      Runs.Reachable (system stopTimeout) m →
      ∀ trigger config stopped buildError backup, dynamicReloadEnabled config = some true →
      ∀ m' status,
        reload stopTimeout m trigger config stopped buildError backup = some (m', status) →
        status.ok = true → Running m' config := by
  intro h
  have hreach : Runs.Reachable (system "10.0")
      (call "10.0" started (.reload "file_watch" (some true) false none .none)) :=
    .step reachable_started trivial rfl
  obtain ⟨g, hg, htold, _⟩ :=
    h twoContents "10.0" _ hreach "file_watch" (some false) true none .none rfl _ _ rfl rfl
  injection hg with hg
  rw [← hg] at htold
  exact absurd htold (by decide)

end Reload

end ProtocolGateway
