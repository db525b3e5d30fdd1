import ProtocolGateway.Reload
import ProtocolGateway.Staging.ConfigParser

/-!
# What a reload raises

`reload` is to answer with a status whatever it meets. It reads the flag that enables it before
anything else, and what the parser makes of the file is not caught there. Nor is a thread that does
not start, which both the reload and its fallback end with.

Here a call has the exceptions that its parts can raise, its lock and its `finally`.

* `Surroundings` — what each part of a reload meets, exceptions included.
* `GatewayManager.reload` — the call, under the lock of the manager.
* `Answers` — nothing is raised on the way that the call lets through.
* `reload_answers` — it answers exactly then, and leaves the lock free in either case.
* `reload_eq_of_answer` — an answer is the one of `Reload.reload`.
-/

namespace ProtocolGateway

namespace Reload

open ConfigParser (Contents)
open Text (strip)

/-! ## Exceptions -/

/-- What a part of a reload raises. -/
inductive Raised
  | osError (text : String)
  /-- any other `Exception` -/
  | exception (text : String)
  /-- `SystemExit` is no `Exception`. -/
  | systemExit
  deriving DecidableEq

/-- `str(exc)` -/
def Raised.text : Raised → String
  | .osError text | .exception text => text
  | .systemExit => ""

/-- What `except Exception` makes of a result. -/
def caught {α : Type} : Except Raised α → Except Raised (Except String α)
  | .ok a => .ok (.ok a)
  | .error .systemExit => .error .systemExit
  | .error raised => .ok (.error raised.text)

/-! ## The flag -/

/-- What the process runs on. -/
structure Platform where
  Digest : Type
  /-- `hashlib.md5` -/
  md5 : List UInt8 → Digest
  /-- the encoding of text files; `none` is a `UnicodeDecodeError` -/
  decode : List UInt8 → Option (List Char)
  /-- `str.lower` -/
  lower : String → String
  /-- what the exception says that reading a file or one of its values raises -/
  refusal : List UInt8 → String

/-- The values that `getboolean` takes for true, -/
def trueValues : List String := ["true", "yes", "on", "1", "enable", "enabled"]

/-- and for false. -/
def falseValues : List String := ["false", "no", "off", "0", "disable", "disabled"]

namespace Platform

variable (p : Platform)

/-- `parser.read`. It passes over a file that cannot be opened. -/
def readConfig : Option (List UInt8) → Except Raised Contents
  | none => .ok (ConfigParser.Reading.contents {})
  | some bytes =>
    match (p.decode bytes).bind (ConfigParser.read p.lower) with
    | none => .error (.exception (p.refusal bytes))
    | some contents => .ok contents

/-- The option is in the section, or in `DEFAULT`. -/
def IsSet (contents : Contents) (s option : String) : Prop :=
  s ∈ contents.keys ∧ (contents.raw? s (p.lower option)).isSome = true

instance (contents : Contents) (s option : String) : Decidable (p.IsSet contents s option) :=
  inferInstanceAs (Decidable (_ ∧ _))

/-- What `getboolean` makes of a value. -/
def boolean (fallback : Bool) (value : String) : Bool :=
  if value = "" then fallback
  else
    let value := String.ofList (strip (p.lower value).toList)
    if value ∈ trueValues then true else if value ∈ falseValues then false else fallback

/-- `CustomConfigParser.getboolean` with a fallback, which `str` writes as a value of its own.
`none` is an interpolation error. -/
def getboolean (contents : Contents) (s option : String) (fallback : Bool) : Option Bool :=
  if p.IsSet contents s option then
    (ConfigParser.customGet p.lower contents s option).map (p.boolean fallback)
  else some fallback

/-- `_dynamic_reload_enabled`. -/
def dynamicReloadEnabled (file : Option (List UInt8)) : Except Raised Bool :=
  match p.readConfig file with
  | .error (.osError _) => .ok false
  | .error raised => .error raised
  | .ok contents =>
    match p.getboolean contents "general" "enable_dynamic_configuration" false with
    | none => .error (.exception (p.refusal (file.getD [])))
    | some enabled => .ok enabled

/-- The parameters of the manager. -/
def config : Config where
  Content := List UInt8
  Digest := p.Digest
  md5 := p.md5
  dynamic bytes := (p.dynamicReloadEnabled (some bytes)).toOption

end Platform

/-! ## The call -/

/-- A row of `ConfigBackup`. -/
structure BackupRow where
  filepath : String
  /-- `created_at`, as a message shows it -/
  createdAt : String
  /-- `created_at.isoformat()` -/
  createdAtIso : String

/-- What the parts of a reload meet. -/
structure Surroundings where
  /-- `config.cfg` when the flag is read, -/
  checked : Option (List UInt8)
  /-- and when it is hashed and built from -/
  config : Option (List UInt8)
  /-- the loop of the old gateway ends in time -/
  loopEnds : Bool
  /-- `transport.cleanup()` of each of its transports -/
  cleanups : List (Except Raised Unit)
  /-- `Protocol_Gateway(config_file)` -/
  built : Except Raised Unit
  /-- the latest backup -/
  backup : Except Raised (Option BackupRow)
  /-- `is_file` of its path, which some versions let raise -/
  backupFound : Except Raised Bool
  /-- what the file of the backup holds, -/
  backupContent : Option (List UInt8)
  /-- and `Protocol_Gateway(backup_config_file)` -/
  backupBuilt : Except Raised Unit
  /-- `_start_thread`, of the gateway that was built -/
  started : Except Raised Unit
  /-- `create_backup`, after a reload -/
  backedUp : Except Raised Unit

/-- `GatewayManager`, with its lock. -/
structure GatewayManager (p : Platform) extends Manager p.config where
  locked : Bool
  reloading : Bool

namespace GatewayManager

variable {p : Platform}

/-- A status that is kept and returned. -/
def answer (s : GatewayManager p) (status : ReloadStatus) :
    Except Raised ReloadStatus × GatewayManager p :=
  (.ok status, { s with status := some status })

/-- The clean-up of the old transports. -/
def cleanUp : List (Except Raised Unit) → Except Raised Unit
  | [] => .ok ()
  | cleanup :: cleanups =>
    match caught cleanup with
    | .error raised => .error raised
    | .ok _ => cleanUp cleanups

/-- `old.stop`. -/
def stop (w : Surroundings) : Except Raised Bool :=
  if w.loopEnds then (cleanUp w.cleanups).map fun _ => true else .ok false

/-- What `_fallback` finds, up to the start of the thread. -/
def findBackup (w : Surroundings) : Except Raised (Backup p.config) :=
  match caught w.backup with
  | .error raised => .error raised
  | .ok (.error _) | .ok (.ok none) => .ok .none
  | .ok (.ok (some row)) =>
    match w.backupFound with
    | .error raised => .error raised
    | .ok false => .ok (.missing row.filepath row.createdAt)
    | .ok true =>
      match caught w.backupBuilt with
      | .error raised => .error raised
      | .ok (.error text) => .ok (.fails row.createdAt text)
      | .ok (.ok ()) =>
        match w.started with
        | .error raised => .error raised
        | .ok () => .ok (.builds row.createdAtIso w.backupContent)

/-- `_fallback`, and the answer with its status. -/
def fallBack (s : GatewayManager p) (trigger error : String) (w : Surroundings) :
    Except Raised ReloadStatus × GatewayManager p :=
  match findBackup w with
  | .error raised => (.error raised, s)
  | .ok backup =>
    let r := fallback s.toManager trigger error backup
    answer { s with toManager := r.1 } r.2

/-- The part of `reload` after the old gateway has stopped. -/
def build (s : GatewayManager p) (trigger : String) (w : Surroundings) :
    Except Raised ReloadStatus × GatewayManager p :=
  match caught w.built with
  | .error raised => (.error raised, s)
  | .ok (.error text) => fallBack s trigger text w
  | .ok (.ok ()) =>
    match w.started with
    | .error raised => (.error raised, s)
    | .ok () =>
      let r := rebuild s.toManager trigger w.config none .none
      let s := { s with toManager := r.1 }
      match if trigger = "file_watch" then caught w.backedUp else .ok (.ok ()) with
      | .error raised => (.error raised, s)
      | .ok _ => answer s r.2

/-- The part of `reload` inside its `try`. -/
def replace (stopTimeout : String) (s : GatewayManager p) (trigger : String) (w : Surroundings) :
    Except Raised ReloadStatus × GatewayManager p :=
  match s.current with
  | none => build s trigger w
  | some _ =>
    let s := { s with toManager := tellCurrentToStop s.toManager }
    match stop w with
    | .error raised => (.error raised, s)
    | .ok false =>
      answer s
        { ok := false, usingFallback := false, trigger,
          message := "Reload aborted: the previous gateway did not stop " ++
            "within " ++ stopTimeout ++ "s (a read may still be " ++
            "in flight). Still running the previous config — " ++
            "try again shortly." }
    | .ok true => build s trigger w

variable [DecidableEq p.config.Digest]

/-- The part of `reload` under the lock. -/
def reloadLocked (stopTimeout : String) (s : GatewayManager p) (trigger : String)
    (w : Surroundings) : Except Raised ReloadStatus × GatewayManager p :=
  match p.dynamicReloadEnabled w.checked with
  | .error raised => (.error raised, s)
  | .ok false =>
    answer s
      { ok := true, usingFallback := false, trigger,
        message := "Dynamic configuration reload is disabled " ++
          "(enable_dynamic_configuration is not set to true " ++
          "in General Settings) — config.cfg was updated but " ++
          "the running gateway was not. Restart the process, " ++
          "or enable it in General Settings, to pick this up." }
  | .ok true =>
    if unchanged s.toManager w.config then
      answer s
        { ok := true, usingFallback := false, trigger,
          message := "Config unchanged since last reload — skipped." }
    else
      -- the `finally`
      let r := replace stopTimeout { s with reloading := true } trigger w
      (r.1, { r.2 with reloading := false })

/-- `reload`: `none` while another call holds the lock. -/
def reload (stopTimeout : String) (s : GatewayManager p) (trigger : String) (w : Surroundings) :
    Option (Except Raised ReloadStatus × GatewayManager p) :=
  if s.locked then none
  else
    let r := reloadLocked stopTimeout { s with locked := true } trigger w
    some (r.1, { r.2 with locked := false })

end GatewayManager

/-! ## Reading the flag -/

namespace Platform

variable (p : Platform)

/-- A file is read to some contents. -/
def Reads (file : Option (List UInt8)) (contents : Contents) : Prop :=
  match file with
  | none => contents = ConfigParser.Reading.contents {}
  | some bytes =>
    ∃ text, p.decode bytes = some text ∧ ConfigParser.read p.lower text = some contents

/-- The flag can be read from a file. -/
def FlagReads (file : Option (List UInt8)) : Prop :=
  ∃ contents, p.Reads file contents ∧
    (p.IsSet contents "general" "enable_dynamic_configuration" →
      ∃ value, ConfigParser.customGet p.lower contents "general" "enable_dynamic_configuration" =
        some value)

/-- The flag is set in a file. -/
def Enables (file : Option (List UInt8)) : Prop :=
  ∃ contents value, p.Reads file contents ∧
    p.IsSet contents "general" "enable_dynamic_configuration" ∧
    ConfigParser.customGet p.lower contents "general" "enable_dynamic_configuration" = some value ∧
    p.boolean false value = true

variable {p} {file : Option (List UInt8)}

theorem readConfig_eq_ok_iff {contents : Contents} :
    p.readConfig file = .ok contents ↔ p.Reads file contents := by
  cases file with
  | none => simp [readConfig, Reads, eq_comm]
  | some bytes =>
    cases htext : (p.decode bytes).bind (ConfigParser.read p.lower) with
    | none =>
      simp only [readConfig, Reads, htext, reduceCtorEq, false_iff]
      rintro ⟨text, hdecode, hread⟩
      rw [hdecode, Option.bind_some, hread] at htext
      cases htext
    | some contents' =>
      simp only [readConfig, Reads, htext, Except.ok.injEq]
      obtain ⟨text, hdecode, hread⟩ := Option.bind_eq_some_iff.mp htext
      simp [hdecode, hread]

/-- A file that cannot be opened is not what `parser.read` raises. -/
theorem readConfig_ne_osError {text : String} : p.readConfig file ≠ .error (.osError text) := by
  cases file with
  | none => exact nofun
  | some bytes =>
    rw [readConfig]
    split <;> exact nofun

theorem dynamicReloadEnabled_eq_ok_iff {enabled : Bool} :
    p.dynamicReloadEnabled file = .ok enabled ↔
      ∃ contents, p.Reads file contents ∧
        p.getboolean contents "general" "enable_dynamic_configuration" false = some enabled := by
  rw [dynamicReloadEnabled]
  split
  · next text hread => exact absurd hread readConfig_ne_osError
  · next raised _ hread =>
    refine iff_of_false nofun ?_
    rintro ⟨contents, hreads, -⟩
    cases hread.symm.trans (readConfig_eq_ok_iff.mpr hreads)
  · next contents hread =>
    have hunique (contents' : Contents) : p.Reads file contents' ↔ contents = contents' := by
      rw [← readConfig_eq_ok_iff, hread, Except.ok.injEq]
    simp only [hunique, exists_eq_left']
    split
    · next hnone => simp [hnone]
    · next enabled' hsome => simp [hsome]

theorem flagReads_iff :
    p.FlagReads file ↔ ∃ enabled, p.dynamicReloadEnabled file = .ok enabled := by
  simp only [dynamicReloadEnabled_eq_ok_iff, FlagReads]
  rw [exists_comm]
  refine exists_congr fun contents => ?_
  rw [exists_and_left, and_congr_right_iff]
  intro _
  unfold getboolean
  split
  · next hset => simp [hset, Option.map_eq_some_iff, exists_comm]
  · next hset => simp [hset]

theorem enables_iff : p.Enables file ↔ p.dynamicReloadEnabled file = .ok true := by
  rw [dynamicReloadEnabled_eq_ok_iff, Enables]
  refine exists_congr fun contents => ?_
  unfold getboolean
  split
  · next hset => simp [hset, Option.map_eq_some_iff]
  · next hset => simp [hset]

end Platform

/-! ## When a reload answers -/

/-- Falling back to the backup raises nothing. -/
def FallsBack (w : Surroundings) : Prop :=
  w.backup ≠ .error .systemExit ∧
    ((∃ row, w.backup = .ok (some row)) →
      (∃ found, w.backupFound = .ok found) ∧
        (w.backupFound = .ok true →
          w.backupBuilt ≠ .error .systemExit ∧ (w.backupBuilt = .ok () → w.started = .ok ())))

/-- Building and starting the new gateway raises nothing, or falling back does not. -/
def Starts (trigger : String) (w : Surroundings) : Prop :=
  w.built ≠ .error .systemExit ∧
    (w.built = .ok () → w.started = .ok () ∧
      (trigger = "file_watch" → w.backedUp ≠ .error .systemExit)) ∧
    ((∃ raised, w.built = .error raised) → FallsBack w)

namespace GatewayManager

variable {p : Platform} {stopTimeout trigger : String} {s : GatewayManager p} {w : Surroundings}

/-- Nothing is raised on the way of a reload that it lets through. -/
def Answers [DecidableEq p.config.Digest] (s : GatewayManager p) (trigger : String)
    (w : Surroundings) : Prop :=
  p.FlagReads w.checked ∧
    (p.Enables w.checked → unchanged s.toManager w.config = false →
      (s.current.isSome = true → w.loopEnds = true → .error .systemExit ∉ w.cleanups) ∧
        ((s.current.isSome = true → w.loopEnds = true) → Starts trigger w))

theorem cleanUp_eq_ok_iff {cleanups : List (Except Raised Unit)} :
    cleanUp cleanups = .ok () ↔ .error .systemExit ∉ cleanups := by
  induction cleanups with
  | nil => simp [cleanUp]
  | cons cleanup cleanups ih =>
    rcases cleanup with (_ | _ | _) | _ <;> simp [cleanUp, caught, ih]

theorem findBackup_ok_iff :
    (∃ backup, (findBackup w : Except Raised (Backup p.config)) = .ok backup) ↔ FallsBack w := by
  unfold findBackup FallsBack
  rcases w.backup with (_ | _ | _) | (_ | row)
  case ok.some =>
    rcases w.backupFound with _ | (_ | _)
    case ok.true =>
      rcases w.backupBuilt with (_ | _ | _) | _
      case ok => cases w.started <;> simp [caught]
      all_goals simp [caught]
    all_goals simp [caught]
  all_goals simp [caught]

theorem fallBack_answers {error : String} :
    (∃ status, (fallBack s trigger error w).1 = .ok status) ↔ FallsBack w := by
  rw [← findBackup_ok_iff (p := p), fallBack]
  cases findBackup w with
  | error raised => simp
  | ok backup => simp [answer]

theorem build_answers : (∃ status, (build s trigger w).1 = .ok status) ↔ Starts trigger w := by
  unfold build Starts
  rcases w.built with (_ | _ | _) | _
  case ok =>
    cases w.started with
    | error raised => simp [caught]
    | ok =>
      by_cases hwatch : trigger = "file_watch"
      · rcases w.backedUp with (_ | _ | _) | _ <;> simp [caught, hwatch, answer]
      · simp [caught, hwatch, answer]
  all_goals simp [caught, fallBack_answers]

theorem replace_answers : (∃ status, (replace stopTimeout s trigger w).1 = .ok status) ↔
    (s.current.isSome = true → w.loopEnds = true → .error .systemExit ∉ w.cleanups) ∧
      ((s.current.isSome = true → w.loopEnds = true) → Starts trigger w) := by
  unfold replace
  cases s.current with
  | none => simp [build_answers]
  | some gateway =>
    cases hends : w.loopEnds with
    | false => simp [stop, hends, answer]
    | true =>
      rw [← cleanUp_eq_ok_iff]
      cases hclean : cleanUp w.cleanups with
      | error raised => simp [stop, hends, hclean, Except.map]
      | ok => simp [stop, hends, hclean, Except.map, build_answers]

/-- Reading the flag, without the exceptions. -/
theorem toOption_dynamicReloadEnabled (file : Option (List UInt8)) :
    (p.dynamicReloadEnabled file).toOption = @Reload.dynamicReloadEnabled p.config file := by
  cases file with
  | some bytes => rfl
  | none =>
    have hunset : ¬p.IsSet (ConfigParser.Reading.contents {}) "general"
        "enable_dynamic_configuration" := fun hset => absurd hset.1 (by decide)
    rw [Platform.dynamicReloadEnabled, Platform.readConfig]
    dsimp only
    rw [Platform.getboolean, if_neg hunset]
    rfl

theorem tellCurrentToStop_of_none {m : Manager p.config} (h : m.current = none) :
    tellCurrentToStop m = m := by
  obtain ⟨current, status, loadedConfigHash⟩ := m
  obtain rfl : current = none := h
  rfl

/-- An answer that the building gives is the one of `rebuild`. -/
theorem build_eq {status : ReloadStatus} {s' : GatewayManager p}
    (h : build s trigger w = (.ok status, s')) :
    ∃ buildError backup, (rebuild s.toManager trigger w.config buildError backup).2 = status ∧
      s'.toManager = { (rebuild s.toManager trigger w.config buildError backup).1 with
        status := some status } := by
  unfold build at h
  split at h
  · cases h
  · next text hbuilt =>
    unfold fallBack at h
    split at h
    · cases h
    · next backup hbackup =>
      cases h
      exact ⟨some text, backup, rfl, rfl⟩
  · split at h
    · cases h
    · dsimp only at h
      split at h
      · cases h
      · cases h
        exact ⟨none, .none, rfl, rfl⟩

variable [DecidableEq p.config.Digest]

theorem reloadLocked_answers :
    (∃ status, (reloadLocked stopTimeout s trigger w).1 = .ok status) ↔ s.Answers trigger w := by
  rw [reloadLocked, Answers, Platform.flagReads_iff, Platform.enables_iff]
  cases p.dynamicReloadEnabled w.checked with
  | error raised => simp
  | ok enabled =>
    cases enabled with
    | false =>
      refine iff_of_true ⟨_, rfl⟩ ⟨⟨_, rfl⟩, ?_⟩
      intro henabled
      cases henabled
    | true =>
      cases hsame : unchanged s.toManager w.config with
      | true => simp [answer]
      | false => simp [replace_answers]

/-! ## The lock -/

/-- A call of `reload`, with what it answers or raises. -/
def call (stopTimeout : String) (s : GatewayManager p) (c : String × Surroundings) :
    Option (GatewayManager p × List (Except Raised ReloadStatus)) :=
  (s.reload stopTimeout c.1 c.2).map fun r => (r.2, [r.1])

/-- A call on a free lock comes to an end and frees it. -/
theorem reload_of_free (stopTimeout trigger : String) (w : Surroundings)
    (hfree : s.locked = false) :
    ∃ s', s.reload stopTimeout trigger w =
        some ((reloadLocked stopTimeout { s with locked := true } trigger w).1, s') ∧
      s'.locked = false := by
  rw [reload, hfree]
  exact ⟨_, rfl, rfl⟩

theorem answers_locked {locked : Bool} :
    ({ s with locked := locked } : GatewayManager p).Answers trigger w ↔ s.Answers trigger w :=
  Iff.rfl

theorem reload_answers_iff (hfree : s.locked = false) :
    (∃ status s', s.reload stopTimeout trigger w = some (.ok status, s') ∧ s'.locked = false) ↔
      s.Answers trigger w := by
  obtain ⟨s', hreload, hlocked⟩ := reload_of_free stopTimeout trigger w hfree
  rw [← answers_locked, ← @reloadLocked_answers p stopTimeout, hreload]
  constructor
  · rintro ⟨status, s'', heq, -⟩
    exact ⟨status, congrArg Prod.fst (Option.some.inj heq)⟩
  · rintro ⟨status, hstatus⟩
    exact ⟨status, s', by rw [hstatus], hlocked⟩

/-- No call of a run waits for a lock that an earlier one kept. -/
theorem calls_of_free (calls : List (String × Surroundings)) (hfree : s.locked = false) :
    ∃ s' results, Runs.emit (call stopTimeout) s calls = some (s', results) ∧
      results.length = calls.length ∧ s'.locked = false := by
  induction calls generalizing s with
  | nil => exact ⟨s, [], rfl, rfl, hfree⟩
  | cons c calls ih =>
    obtain ⟨s₁, hreload, hfree₁⟩ := reload_of_free stopTimeout c.1 c.2 hfree
    obtain ⟨s', results, hrun, hlength, hlocked⟩ := ih hfree₁
    have hcall := congrArg (Option.map fun r => (r.2, [r.1])) hreload
    exact ⟨s', _, Runs.emit_cons_eq_some_iff.mpr ⟨s₁, _, results, hcall, hrun, rfl⟩,
      by rw [List.length_append, hlength, List.length_cons]; exact Nat.add_comm .., hlocked⟩

/-! ## The answers -/

/-- An answer of the part inside the `try` is the one after the flag and the digest. -/
theorem replace_eq {status : ReloadStatus} {s' : GatewayManager p}
    (henabled : @Reload.dynamicReloadEnabled p.config w.config = some true)
    (hsame : unchanged s.toManager w.config = false)
    (h : replace stopTimeout s trigger w = (.ok status, s')) :
    ∃ buildError backup, Reload.reload stopTimeout s.toManager trigger w.config w.loopEnds
      buildError backup = some (s'.toManager, status) := by
  unfold replace at h
  unfold Reload.reload
  rw [henabled]
  simp only [hsame, Bool.false_eq_true, if_false]
  cases hcurrent : s.current with
  | none =>
    rw [hcurrent] at h
    obtain ⟨buildError, backup, rfl, hmanager⟩ := build_eq h
    refine ⟨buildError, backup, ?_⟩
    rw [hmanager, tellCurrentToStop_of_none hcurrent]
    rfl
  | some gateway =>
    rw [hcurrent] at h
    dsimp only at h
    split at h
    · cases h
    · next hstop =>
      -- `stop` answers no only if the loop did not end
      have hends : w.loopEnds = false := by
        by_contra hends
        rw [stop, if_pos (Bool.not_eq_false _ ▸ hends)] at hstop
        cases hclean : cleanUp w.cleanups <;> rw [hclean] at hstop <;> cases hstop
      cases h
      refine ⟨none, .none, ?_⟩
      rw [if_pos ⟨rfl, hends⟩]
    · next hstop =>
      have hends : w.loopEnds = true := by
        by_contra hends
        rw [stop, if_neg hends] at hstop
        cases hstop
      obtain ⟨buildError, backup, rfl, hmanager⟩ := build_eq h
      refine ⟨buildError, backup, ?_⟩
      rw [hmanager, if_neg (by simp [hends])]

/-- **The answers of a reload**, over a file that does not change meanwhile, are those of the
manager without exceptions. -/
theorem reload_eq_of_answer {status : ReloadStatus} {s' : GatewayManager p}
    (hsteady : w.checked = w.config)
    (h : s.reload stopTimeout trigger w = some (.ok status, s')) :
    ∃ buildError backup, Reload.reload stopTimeout s.toManager trigger w.config w.loopEnds
      buildError backup = some (s'.toManager, status) := by
  have hflag : @Reload.dynamicReloadEnabled p.config w.config =
      (p.dynamicReloadEnabled w.checked).toOption := by
    rw [hsteady, toOption_dynamicReloadEnabled]
  unfold reload at h
  split at h
  · cases h
  · unfold reloadLocked at h
    dsimp only at h
    split at h
    · cases h
    · next hdisabled =>
      rw [hdisabled] at hflag
      cases h
      refine ⟨none, .none, ?_⟩
      unfold Reload.reload
      rw [hflag]
      rfl
    · next henabled =>
      rw [henabled] at hflag
      split at h
      · next hsame =>
        cases h
        refine ⟨none, .none, ?_⟩
        unfold Reload.reload
        rw [hflag]
        exact if_pos hsame
      · next hsame =>
        generalize hreplace : replace stopTimeout _ trigger w = r at h
        obtain ⟨result, s''⟩ := r
        cases h
        have hsame : unchanged s.toManager w.config = false := Bool.not_eq_true _ ▸ hsame
        have hreload := @replace_eq p stopTimeout trigger
          { s with locked := true, reloading := true } w _ status s'' hflag hsame hreplace
        exact hreload

end GatewayManager

/-! ## What it comes to -/

/-- **What a reload answers.** It returns a status exactly if the flag can be read and, where it
makes the reload go on, the thread of the gateway that is built starts and the backup can be looked
up. The lock is free in either case, so every later call runs. -/
theorem reload_answers (p : Platform) [DecidableEq p.config.Digest] (stopTimeout : String) :
    (∀ (s : GatewayManager p) (trigger : String) (w : Surroundings), s.locked = false →
      ((∃ status s', s.reload stopTimeout trigger w = some (.ok status, s') ∧
          s'.locked = false) ↔ s.Answers trigger w)) ∧
      ∀ (s : GatewayManager p) (calls : List (String × Surroundings)), s.locked = false →
        ∃ s' results, Runs.emit (GatewayManager.call stopTimeout) s calls = some (s', results) ∧
          results.length = calls.length ∧ s'.locked = false :=
  ⟨fun _ _ _ hfree => GatewayManager.reload_answers_iff hfree,
    fun _ calls hfree => GatewayManager.calls_of_free calls hfree⟩

/-- A platform with ISO 8859-1 text files, as far as a file without a header shows it. -/
def latin1 : Platform where
  Digest := String
  md5 _ := "3872c9ae3f427af0be0ead09d07ae2cf"
  decode bytes := some (bytes.map fun b => Char.ofNat b.toNat)
  lower := lowerText
  refusal _ := "File contains no section headers."

instance : DecidableEq latin1.config.Digest := inferInstanceAs (DecidableEq String)

/-- A file that holds `a=1`. -/
def headerless : Surroundings where
  checked := some [0x61, 0x3D, 0x31]
  config := some [0x61, 0x3D, 0x31]
  loopEnds := true
  cleanups := []
  built := .ok ()
  backup := .ok none
  backupFound := .ok false
  backupContent := none
  backupBuilt := .ok ()
  started := .ok ()
  backedUp := .ok ()

/-- An edit that leaves out a section header makes the reload raise. -/
theorem not_reload_answers :
    ¬∀ (p : Platform) [DecidableEq p.config.Digest] (stopTimeout : String) (s : GatewayManager p)
      (trigger : String) (w : Surroundings), s.locked = false →
      ∃ status s', s.reload stopTimeout trigger w = some (.ok status, s') ∧ s'.locked = false := by
  intro hall
  let idle : GatewayManager latin1 :=
    { current := none, status := none, loadedConfigHash := none
      locked := false, reloading := false }
  have hanswers : idle.Answers "file_watch" headerless :=
    (GatewayManager.reload_answers_iff rfl).mp (hall latin1 "10.0" idle "file_watch" headerless rfl)
  obtain ⟨⟨contents, ⟨text, hdecode, hread⟩, -⟩, -⟩ := hanswers
  have hnone : ConfigParser.read lowerText ['a', '=', '1'] = none := by decide
  obtain rfl : ['a', '=', '1'] = text := Option.some.inj hdecode
  exact absurd (hnone.symm.trans hread) nofun

end Reload

end ProtocolGateway
