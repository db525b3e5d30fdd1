import ProtocolGateway.Lib.Runs

/-!
# Connecting a Modbus transport

`modbus_tcp.connect` and `modbus_rtu.connect` open the client, set `connected`, and call
`modbus_base.connect`, which runs `init_after_connect` when `first_connect` is set or the
transport is not connected. The order matters: by the time the second test is made the subclass
has already set `connected`, so a reconnect runs the initialisation only if the connection is lost
again in between, and an object primed by `prepare_for_reload` never runs it.

A transport is a state machine over the two halves of `connect()`, connection losses and writes.
The state carries a history: what has been done on the connection that is up. A connection begins
with a successful `client.connect()` of a transport that is not connected and ends when
`connected` becomes false.

`initialised_of_guarded` proves what `connect()` promises for the runs in which the second half
finds `first_connect` set when it has to, and writes come while the transport is connected.
-/

namespace ProtocolGateway

namespace Connection

/-- `TransportWriteMode`. -/
inductive TransportWriteMode
  | read
  | write
  /-- write even when the validation fails -/
  | relaxed
  /-- skip all safeties -/
  | unsafeMode
  deriving DecidableEq, Repr

/-- What a transport is configured to. -/
structure Settings where
  writeMode : TransportWriteMode
  /-- the protocol declares discovery, so its register map is dynamic -/
  isDynamic : Bool

/-- Where a `connect()` call is. -/
inductive Phase
  /-- no call is in progress -/
  | idle
  /-- the client is open, `modbus_base.connect` has not run yet -/
  | opened
  deriving DecidableEq, Repr

/-- The fields of a transport that connecting reads and writes, and the history of the connection
that is up. `Layout` is what a register map is built from. -/
structure Transport (Layout : Type) where
  firstConnect : Bool
  connected : Bool
  writeEnabled : Bool
  identificationAttempted : Bool
  layout : Layout
  phase : Phase
  /-- history: `init_after_connect` has run on the connection -/
  initRan : Bool
  /-- history: the protocol validation has passed on the connection -/
  validated : Bool
  /-- history: register discovery has run on the connection -/
  discovered : Bool
  /-- history: what discovery gave when it last gave something -/
  lastDiscovery : Option Layout
  /-- history: a `connect()` has returned on a connection without initialising it -/
  skippedInit : Bool
  /-- history: for every write sent, whether the validation had passed on the connection -/
  writes : List Bool

variable {Layout : Type}

/-- What the device and the link do while `modbus_base.connect` runs. -/
structure InitOutcome (Layout : Type) where
  /-- the score of the protocol validation, `none` when it raises -/
  score : Option Float
  /-- the layout discovery leads to, `none` when it finds nothing or raises -/
  discovery : Option Layout
  /-- reading the serial number raises -/
  identificationRaises : Bool
  /-- a read during the initialisation or the post-connect hook loses the connection -/
  lost : Bool

/-- What happens to a transport. -/
inductive Event (Layout : Type)
  /-- the first half of `connect()`: does `client.connect()` succeed? -/
  | connectOpen (ok : Bool)
  /-- the second half of `connect()`: `modbus_base.connect` -/
  | connectFinish (outcome : InitOutcome Layout)
  /-- a read error or the stale-data callback sets `connected` to false -/
  | lose
  /-- `write_data` with a value for a writable entry -/
  | write

/-- `self.connected = False`: the connection, if there was one, is over. -/
def lose (t : Transport Layout) : Transport Layout :=
  { t with connected := false, initRan := false, validated := false, discovered := false }

/-- `enable_write`. -/
def enableWrite (cfg : Settings) (outcome : InitOutcome Layout) (t : Transport Layout) :
    Transport Layout :=
  if t.writeEnabled = true ∧ cfg.writeMode = .unsafeMode then t
  else
    match outcome.score with
    | some score =>
      if score > 90 then { t with writeEnabled := true, validated := true }
      else { t with writeEnabled := cfg.writeMode = .relaxed }
    | none => { t with writeEnabled := cfg.writeMode = .relaxed }

/-- `discover_register_structure`: static protocols return at once. -/
def discoverRegisterStructure (cfg : Settings) (outcome : InitOutcome Layout)
    (t : Transport Layout) : Transport Layout :=
  if cfg.isDynamic then
    match outcome.discovery with
    | some layout =>
      { t with layout := layout, lastDiscovery := some layout, discovered := true }
    | none => { t with discovered := true }
  else t

/-- The first step of `init_after_connect`: validate before writing, if writing is configured. -/
def validateForWriting (cfg : Settings) (outcome : InitOutcome Layout) (t : Transport Layout) :
    Transport Layout :=
  if t.writeEnabled then enableWrite cfg outcome t else t

/-- `init_after_connect`, and whether it raises. -/
def initAfterConnect (cfg : Settings) (outcome : InitOutcome Layout) (t : Transport Layout) :
    Transport Layout × Bool :=
  let t := discoverRegisterStructure cfg outcome (validateForWriting cfg outcome t)
  if t.identificationAttempted then ({ t with initRan := true }, false)
  else ({ t with initRan := true, identificationAttempted := true }, outcome.identificationRaises)

/-- The test of `modbus_base.connect`. -/
def runsInit (t : Transport Layout) : Bool := t.firstConnect || !t.connected

/-- `modbus_base.connect`, with the handlers of `connect()` around it. An exception of the
initialisation ends in `connected = False`. -/
def finish (cfg : Settings) (outcome : InitOutcome Layout) (t : Transport Layout) :
    Transport Layout :=
  if runsInit t then
    let (t', raised) := initAfterConnect cfg outcome { t with firstConnect := false }
    let t' := { t' with phase := .idle }
    if raised ∨ outcome.lost ∨ t'.connected = false then lose t' else t'
  else
    let t' := { t with phase := .idle, skippedInit := t.skippedInit || !t.initRan }
    if outcome.lost then lose t' else t'

/-- `client.connect()` and the assignment to `connected`. -/
def openClient (ok : Bool) (t : Transport Layout) : Transport Layout :=
  if ok then { t with connected := true, phase := .opened } else lose t

/-- `write_data`: nothing is sent unless writing is enabled. -/
def writeData (t : Transport Layout) : Transport Layout :=
  if t.writeEnabled then { t with writes := t.validated :: t.writes } else t

/-- One event. Calls of `connect()` do not overlap. -/
inductive Step (cfg : Settings) : Transport Layout → Event Layout → Transport Layout → Prop
  | connectOpen {t : Transport Layout} {ok : Bool} (idle : t.phase = .idle) :
      Step cfg t (.connectOpen ok) (openClient ok t)
  | connectFinish {t : Transport Layout} {outcome : InitOutcome Layout} (opened : t.phase = .opened) :
      Step cfg t (.connectFinish outcome) (finish cfg outcome t)
  | lose {t : Transport Layout} : Step cfg t .lose (lose t)
  | write {t : Transport Layout} : Step cfg t .write (writeData t)

/-- A new transport. `prepared` says whether `prepare_for_reload` has been called on it. -/
def new (writeEnabled prepared : Bool) (layout : Layout) : Transport Layout where
  firstConnect := !prepared
  connected := false
  writeEnabled := writeEnabled
  identificationAttempted := false
  layout := layout
  phase := .idle
  initRan := false
  validated := false
  discovered := false
  lastDiscovery := none
  skippedInit := false
  writes := []

/-- A transport over its life, from a new object, prepared for a reload or not. -/
def system (cfg : Settings) : Runs.System (Transport Layout) (Event Layout) where
  init t := ∃ writeEnabled prepared layout, t = new writeEnabled prepared layout
  step := Step cfg

/-! ## What connecting promises -/

/-- Every connection is initialised: no `connect()` has returned over a connection it did not
initialise; in write mode `WRITE` every write went out on a validated connection; and between
calls a connection that is up has had its discovery, with the register map that discovery last
gave. -/
structure Initialised (cfg : Settings) (t : Transport Layout) : Prop where
  init : t.skippedInit = false
  writes : cfg.writeMode = .write → ∀ w ∈ t.writes, w = true
  discovery : t.connected = true → t.phase = .idle → cfg.isDynamic = true → t.discovered = true
  layout : ∀ l, t.lastDiscovery = some l → t.layout = l

/-- The condition on the environment. When `modbus_base.connect` starts on a connection that has
not been initialised, either `first_connect` is set or the connection is already lost again; and a
write that would be sent comes while the transport is connected and no `connect()` is running. -/
def Guard (t : Transport Layout) : Event Layout → Prop
  | .connectFinish _ => runsInit t = true ∨ t.initRan = true
  | .write => t.writeEnabled = true → t.connected = true ∧ t.phase = .idle
  | .connectOpen _ => True
  | .lose => True

/-- The invariant of guarded runs: the promise, and what the history says about the flags. -/
structure Inv (cfg : Settings) (t : Transport Layout) : Prop extends Initialised cfg t where
  ran : t.connected = true → t.phase = .idle → t.initRan = true
  lost : t.connected = false → t.initRan = false
  valid : t.initRan = true → cfg.writeMode = .write → t.writeEnabled = true → t.validated = true
  seen : t.initRan = true → cfg.isDynamic = true → t.discovered = true

theorem inv_new (cfg : Settings) (writeEnabled prepared : Bool) (layout : Layout) :
    Inv cfg (new writeEnabled prepared layout) where
  init := rfl
  writes := by simp [new]
  discovery h := absurd h (by simp [new])
  layout := by simp [new]
  ran h := absurd h (by simp [new])
  lost _ := rfl
  valid h := absurd h (by simp [new])
  seen h := absurd h (by simp [new])

variable {cfg : Settings} {outcome : InitOutcome Layout} {t t' : Transport Layout}

theorem inv_lose (h : Inv cfg t) : Inv cfg (lose t) where
  init := h.init
  writes := h.writes
  discovery hc := absurd hc (by simp [lose])
  layout := h.layout
  ran hc := absurd hc (by simp [lose])
  lost _ := rfl
  valid hr := absurd hr (by simp [lose])
  seen hr := absurd hr (by simp [lose])

theorem inv_openClient (ok : Bool) (h : Inv cfg t) : Inv cfg (openClient ok t) := by
  cases ok with
  | false => exact inv_lose h
  | true =>
    exact {
      init := h.init
      writes := h.writes
      discovery := fun _ hp => absurd hp (by simp [openClient])
      layout := h.layout
      ran := fun _ hp => absurd hp (by simp [openClient])
      lost := fun hc => absurd hc (by simp [openClient])
      valid := h.valid
      seen := h.seen }

/-- A write is sent on an initialised connection, where write mode `WRITE` has been validated. -/
theorem inv_writeData (h : Inv cfg t) (hg : Guard t .write) : Inv cfg (writeData t) := by
  unfold writeData
  split
  · next hw =>
    obtain ⟨hc, hp⟩ := hg hw
    refine { h with writes := ?_ }
    intro hmode w hmem
    rcases List.mem_cons.mp hmem with rfl | hmem
    · exact h.valid (h.ran hc hp) hmode hw
    · exact h.writes hmode w hmem
  · exact h

/-! ## The initialisation -/

/-- The validation touches nothing but the write flag and its own history, and in write mode
`WRITE` it leaves writing enabled only if it has passed. -/
theorem validateForWriting_frame (cfg : Settings) (outcome : InitOutcome Layout)
    (t : Transport Layout) : ∃ w v,
    validateForWriting cfg outcome t = { t with writeEnabled := w, validated := v } ∧
    (cfg.writeMode = .write → w = true → v = true) := by
  unfold validateForWriting
  split
  · unfold enableWrite
    split
    · next h =>
      exact ⟨_, _, rfl, fun hmode => absurd (h.2.symm.trans hmode) (by decide)⟩
    · split
      · split
        · exact ⟨true, true, rfl, fun _ _ => rfl⟩
        · refine ⟨_, _, rfl, fun hmode hw => ?_⟩
          rw [hmode] at hw
          exact absurd hw (by decide)
      · refine ⟨_, _, rfl, fun hmode hw => ?_⟩
        rw [hmode] at hw
        exact absurd hw (by decide)
  · next hw => exact ⟨t.writeEnabled, t.validated, rfl, fun _ h => absurd h hw⟩

/-- Discovery touches nothing but the layout and its own history, has been run for a dynamic
protocol, and what it last gave is the layout in use. -/
theorem discoverRegisterStructure_frame (cfg : Settings) (outcome : InitOutcome Layout)
    (t : Transport Layout) : ∃ l d last,
    discoverRegisterStructure cfg outcome t =
      { t with layout := l, discovered := d, lastDiscovery := last } ∧
    (cfg.isDynamic = true → d = true) ∧
    ((∀ x, t.lastDiscovery = some x → t.layout = x) → ∀ x, last = some x → l = x) := by
  unfold discoverRegisterStructure
  split
  · split
    · next layout _ =>
      exact ⟨layout, true, some layout, rfl, fun _ => rfl, fun _ x hx => Option.some.inj hx⟩
    · exact ⟨t.layout, true, t.lastDiscovery, rfl, fun _ => rfl, fun h => h⟩
  · next hd => exact ⟨t.layout, t.discovered, t.lastDiscovery, rfl, fun h => absurd h hd, fun h => h⟩

/-- What the initialisation leaves. -/
theorem initAfterConnect_frame (cfg : Settings) (outcome : InitOutcome Layout)
    (t : Transport Layout) : ∃ w v l d last a,
    (initAfterConnect cfg outcome t).1 =
      { t with
        writeEnabled := w
        validated := v
        layout := l
        discovered := d
        lastDiscovery := last
        identificationAttempted := a
        initRan := true } ∧
    (cfg.writeMode = .write → w = true → v = true) ∧ (cfg.isDynamic = true → d = true) ∧
    ((∀ x, t.lastDiscovery = some x → t.layout = x) → ∀ x, last = some x → l = x) := by
  obtain ⟨w, v, hvalidate, hv⟩ := validateForWriting_frame cfg outcome t
  obtain ⟨l, d, last, hdiscover, hd, hl⟩ :=
    discoverRegisterStructure_frame cfg outcome (validateForWriting cfg outcome t)
  rw [hvalidate] at hdiscover hl
  unfold initAfterConnect
  rw [hvalidate, hdiscover]
  dsimp only
  split
  · exact ⟨w, v, l, d, last, t.identificationAttempted, rfl, hv, hd, hl⟩
  · exact ⟨w, v, l, d, last, true, rfl, hv, hd, hl⟩

/-- The second half of `connect()` keeps the invariant when it finds `first_connect` set, the
connection lost, or the connection initialised. -/
theorem inv_finish (h : Inv cfg t) (hg : Guard t (.connectFinish outcome)) :
    Inv cfg (finish cfg outcome t) := by
  unfold finish
  split
  · obtain ⟨w, v, l, d, last, a, hinit, hv, hd, hl⟩ :=
      initAfterConnect_frame cfg outcome { t with firstConnect := false }
    generalize initAfterConnect cfg outcome { t with firstConnect := false } = r at hinit
    obtain ⟨u, raised⟩ := r
    dsimp only at hinit ⊢
    rw [hinit]
    split
    · exact {
        init := h.init
        writes := h.writes
        discovery := fun hc => absurd hc (by simp [lose])
        layout := hl h.layout
        ran := fun hc => absurd hc (by simp [lose])
        lost := fun _ => rfl
        valid := fun hr => absurd hr (by simp [lose])
        seen := fun hr => absurd hr (by simp [lose]) }
    · next hkept =>
      exact {
        init := h.init
        writes := h.writes
        discovery := fun _ _ => hd
        layout := hl h.layout
        ran := fun _ _ => rfl
        lost := fun hc => absurd (Or.inr (Or.inr hc)) hkept
        valid := fun _ => hv
        seen := fun _ => hd }
  · next hrun =>
    have hran : t.initRan = true := hg.resolve_left hrun
    have hinv : Inv cfg { t with phase := .idle, skippedInit := t.skippedInit || !t.initRan } := {
      init := by simp [h.init, hran]
      writes := h.writes
      discovery := fun _ _ => h.seen hran
      layout := h.layout
      ran := fun _ _ => hran
      lost := h.lost
      valid := h.valid
      seen := h.seen }
    dsimp only
    split
    · exact inv_lose hinv
    · exact hinv

/-! ## Runs -/

/-- A guarded event keeps the invariant. -/
theorem inv_step {e : Event Layout} (h : Inv cfg t) (hg : Guard t e) (hs : Step cfg t e t') :
    Inv cfg t' := by
  cases hs with
  | connectOpen => exact inv_openClient _ h
  | connectFinish => exact inv_finish h hg
  | lose => exact inv_lose h
  | write => exact inv_writeData h hg

/-- **Every connection is initialised.** In every run in which `modbus_base.connect` finds
`first_connect` still set, or the connection lost again, whenever it starts on a connection that is
not initialised, and in which writes come while the transport is connected, every state keeps what
connecting promises. -/
theorem initialised_of_guarded (h : Runs.Reach (system cfg) Guard t) : Initialised cfg t := by
  have hinv : Inv cfg t := by
    refine h.invariant ?_ ?_
    · rintro t ⟨writeEnabled, prepared, layout, rfl⟩
      exact inv_new cfg writeEnabled prepared layout
    · intro t e t' _ ih hg hs
      exact inv_step ih hg hs
  exact hinv.toInitialised

/-- Where the condition on the second half of `connect()` fails, the promise is broken. -/
theorem finish_skipsInit (hg : ¬ Guard t (.connectFinish outcome)) :
    (finish cfg outcome t).skippedInit = true := by
  obtain ⟨hrun, hran⟩ := not_or.mp hg
  unfold finish
  rw [if_neg hrun]
  dsimp only
  split <;> simp [lose, hran]

/-- The first connect of a new transport, and a write after it. -/
theorem first_connect_initialised :
    ∃ t : Transport Nat, Runs.Reach (system ⟨.write, true⟩) Guard t ∧ t.writes = [true] ∧
      Initialised ⟨.write, true⟩ t := by
  let outcome : InitOutcome Nat :=
    { score := some 95, discovery := some 2, identificationRaises := false, lost := false }
  have hrun : Runs.Reach (system ⟨.write, true⟩) Guard
      (writeData (finish ⟨.write, true⟩ outcome (openClient true (new true false 1)))) := by
    have hopen : Step ⟨.write, true⟩ (new true false 1) (.connectOpen true)
        (openClient true (new true false 1)) := .connectOpen rfl
    have hfinish : Step ⟨.write, true⟩ (openClient true (new true false 1))
        (.connectFinish outcome) _ := .connectFinish rfl
    refine .step (.step (.step (.init ⟨true, false, 1, rfl⟩) ?_ hopen) ?_ hfinish) ?_ .write
    · trivial
    · exact Or.inl rfl
    · exact fun _ => by decide
  exact ⟨_, hrun, by decide, initialised_of_guarded hrun⟩

/-- A transport prepared for a reload connects and is not initialised. -/
theorem not_initialised_after_reload :
    ¬ ∀ (Layout : Type) (cfg : Settings) (t : Transport Layout),
      Runs.Reachable (system cfg) t → Initialised cfg t := by
  intro h
  let outcome : InitOutcome Nat :=
    { score := some 95, discovery := some 2, identificationRaises := false, lost := false }
  have hrun : Runs.Reachable (system ⟨.write, true⟩)
      (finish ⟨.write, true⟩ outcome (openClient true (new true true 1))) :=
    .step (.step (.init ⟨true, true, 1, rfl⟩) trivial (.connectOpen rfl)) trivial
      (.connectFinish rfl)
  exact absurd (h Nat ⟨.write, true⟩ _ hrun).init (by decide)

end Connection

end ProtocolGateway
