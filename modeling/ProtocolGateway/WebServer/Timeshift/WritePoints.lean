import ProtocolGateway.Lib.Regex
import ProtocolGateway.WebServer.Timeshift.BuildPoints

/-!
# The retry after a type conflict

The server knows the types of its fields and rejects a payload with a value of another type; its error
names one such field. `write_points_v1` reads the name from the error, makes the numbers of that field
floats and writes again. It gives up if the error does not name a field.

* `writePoints` — the loop, with the attempts it may make.
* `Stuck` — a conflict that making floats does not end.
* `writePoints_ends_iff` — the loop ends, whichever conflicts the server names, if none is stuck.
-/

namespace ProtocolGateway

namespace Timeshift

open Outcomes

variable {Ω : Type}

/-! ## The error -/

/-- `InfluxDBClientError` -/
structure InfluxDBClientError where
  code : Option Int
  content : String

/-- One letter after the other. -/
def literal (text : String) : List (Regex Char) := text.toList.map fun c => .one (· == c)

/-- `input field \\?"([^\\"]+)\\?"` -/
def fieldPattern : Regex Char :=
  .all (literal "input field " ++
    [.rep (· == '\\') 0 (some 1), .one (· == '"'),
      .group 1 (.rep (fun c => c != '\\' && c != '"') 1 none),
      .rep (· == '\\') 0 (some 1), .one (· == '"')])

/-- The field that is forced to float after an error. -/
def offendingField (allowFloatCoercion : Bool) (e : InfluxDBClientError) : Option String :=
  if allowFloatCoercion ∧ e.code = some 400 ∧
      "field type conflict".toList <:+: e.content.toList then
    (fieldPattern.search none e.content.toList).map fun m => String.ofList (m.groupText 1)
  else none

/-! ## The server -/

abbrev Payload (Ω : Type) := List (InfluxPointDict Ω)

/-- The payload has a value for the field that is not of the type the field has. -/
def FieldConflicts (table : Dict String FieldType) (payload : Payload Ω) (field : String) : Prop :=
  ∃ p ∈ payload, ∃ value, p.fields.get? field = some value ∧ ¬Conforms (table.get? field) value

/-- The types of the fields, and the error for a field of a payload. Which field an error is about does
not depend on the rest of the payload. -/
structure Server (Ω : Type) where
  table : Dict String FieldType
  error : Payload Ω → String → InfluxDBClientError
  offending : Bool → String → Option String
  reads : ∀ allow payload field, offendingField allow (error payload field) = offending allow field

/-- The field that the server rejects each attempt for, if there is a conflict. -/
structure Naming (server : Server Ω) where
  rejects : Nat → Payload Ω → Option String
  accepts : ∀ n payload, rejects n payload = none → ∀ field, ¬FieldConflicts server.table payload field
  conflicts : ∀ n payload field, rejects n payload = some field →
    FieldConflicts server.table payload field

/-! ## The loop -/

/-- `float(val)` for a number that is no flag. -/
def forcePoint (field : String) (pt : InfluxPointDict Ω) : Except PyError (InfluxPointDict Ω) :=
  match pt.fields.get? field with
  | some (.int i) =>
    (roundToDouble i).map fun r => { pt with fields := pt.fields.set field (.float (Float.ofInt r)) }
  | some (.float f) => .ok { pt with fields := pt.fields.set field (.float f) }
  | _ => .ok pt

/-- The numbers of a field are forced to float. -/
def forceFloat (field : String) (payload : Payload Ω) : Except PyError (Payload Ω) :=
  payload.mapM (forcePoint field)

/-- What comes out of the loop instead of a return. -/
inductive WriteError
  | client (e : InfluxDBClientError)
  | python (err : PyError)

/-- The loop of `write_points_v1` from its `n`th attempt on, `none` if it is still running after as many
attempts. It returns the payload that is written. -/
def writePoints (server : Server Ω) (naming : Naming server) (allowFloatCoercion : Bool) :
    Nat → Nat → Payload Ω → Option (Except WriteError (Payload Ω))
  | 0, _, _ => none
  | attempts + 1, n, payload =>
    match naming.rejects n payload with
    | none => some (.ok payload)
    | some field =>
      match offendingField allowFloatCoercion (server.error payload field) with
      | none => some (.error (.client (server.error payload field)))
      | some offending =>
        match forceFloat offending payload with
        | .error err => some (.error (.python err))
        | .ok payload' => writePoints server naming allowFloatCoercion attempts (n + 1) payload'

/-! ## When it ends -/

/-- The value is a number that is forced to float. -/
def FieldValue.isForced : FieldValue Ω → Bool
  | .int _ | .float _ => true
  | .str _ | .bool _ | .object _ => false

/-- `float()` raises for a value of the field. -/
def Overflows (payload : Payload Ω) (field : String) : Prop :=
  ∃ p ∈ payload, ∃ i, p.fields.get? field = some (.int i) ∧ ¬InFloatRange i

/-- The error for the field makes floats of a field, and the field still conflicts: it is another field,
or not a field of floats, or one with values that are no numbers. -/
def Stuck (server : Server Ω) (allow : Bool) (payload : Payload Ω) (field : String) : Prop :=
  ∃ offending, server.offending allow field = some offending ∧ ¬Overflows payload offending ∧
    ¬(offending = field ∧ server.table.get? field = some .float ∧
      ∀ p ∈ payload, ∀ value, p.fields.get? field = some value → value.isForced = true)

/-- The distinct names of the fields. -/
def fieldNames (payload : Payload Ω) : List String := (payload.flatMap (·.fields.keys)).dedup

/-! ## Forcing a field -/

section

variable {field offending : String} {payload payload' : Payload Ω}

theorem returns_forcePoint_iff {pt : InfluxPointDict Ω} :
    Returns (forcePoint field pt) ↔ ∀ i, pt.fields.get? field = some (.int i) → InFloatRange i := by
  unfold forcePoint
  split
  · next i hget =>
    rw [returns_map_iff, returns_roundToDouble_iff, hget]
    simp
  · next f hget =>
    rw [hget]
    exact iff_of_true (returns_ok _) (by simp)
  · next hint _ => exact iff_of_true (returns_ok _) fun i hget => absurd hget (hint i)

/-- The field can be forced if none of its integers is out of range. -/
theorem returns_forceFloat_iff : Returns (forceFloat field payload) ↔ ¬Overflows payload field := by
  rw [forceFloat, returns_mapM_iff]
  constructor
  · rintro h ⟨p, hp, i, hget, hrange⟩
    exact hrange (returns_forcePoint_iff.mp (h p hp) i hget)
  · intro h p hp
    refine returns_forcePoint_iff.mpr fun i hget => ?_
    by_contra hrange
    exact h ⟨p, hp, i, hget, hrange⟩

/-- What a point has for a field after a field was forced. -/
theorem get?_forcePoint {pt pt' : InfluxPointDict Ω} (h : forcePoint offending pt = .ok pt')
    (field : String) :
    pt'.fields.get? field = pt.fields.get? field ∨
      field = offending ∧ ∃ value f, pt.fields.get? field = some value ∧ value.isForced = true ∧
        pt'.fields.get? field = some (.float f) := by
  unfold forcePoint at h
  split at h
  · next i hget =>
    obtain ⟨r, -, rfl⟩ := map_eq_ok_iff.mp h
    rw [Dict.get?_set]
    split
    · next heq => exact Or.inr ⟨heq, .int i, _, heq ▸ hget, rfl, rfl⟩
    · exact Or.inl rfl
  · next f hget =>
    obtain rfl := Except.ok.inj h
    rw [Dict.get?_set]
    split
    · next heq => exact Or.inr ⟨heq, .float f, _, heq ▸ hget, rfl, rfl⟩
    · exact Or.inl rfl
  · obtain rfl := Except.ok.inj h
    exact Or.inl rfl

/-- A number of the forced field is a float afterwards. -/
theorem forcePoint_forced {pt pt' : InfluxPointDict Ω} (h : forcePoint field pt = .ok pt')
    {value : FieldValue Ω} (hget : pt.fields.get? field = some value)
    (hforced : value.isForced = true) : ∃ f, pt'.fields.get? field = some (.float f) := by
  unfold forcePoint at h
  rw [hget] at h
  cases value with
  | int i =>
    obtain ⟨r, -, rfl⟩ := map_eq_ok_iff.mp h
    exact ⟨_, (Dict.get?_set ..).trans (if_pos rfl)⟩
  | float f =>
    obtain rfl := Except.ok.inj h
    exact ⟨f, (Dict.get?_set ..).trans (if_pos rfl)⟩
  | str s => cases hforced
  | bool b => cases hforced
  | object o => cases hforced

/-- A value of another field, or one that is no number, stays. -/
theorem forcePoint_kept {pt pt' : InfluxPointDict Ω} (h : forcePoint offending pt = .ok pt')
    {value : FieldValue Ω} (hget : pt.fields.get? field = some value)
    (hkept : field ≠ offending ∨ value.isForced = false) :
    pt'.fields.get? field = some value := by
  rcases get?_forcePoint h field with heq | ⟨heq, value', f, hget', hforced, -⟩
  · rw [heq, hget]
  · obtain rfl := Option.some.inj (hget.symm.trans hget')
    rcases hkept with hne | hnot
    · exact absurd heq hne
    · rw [hforced] at hnot
      cases hnot

/-- The values of a payload in which a field was forced. -/
theorem value_of_forceFloat (h : forceFloat offending payload = .ok payload') {field : String}
    {p' : InfluxPointDict Ω} (hp' : p' ∈ payload') {value' : FieldValue Ω}
    (hget' : p'.fields.get? field = some value') :
    ∃ p ∈ payload, ∃ value, p.fields.get? field = some value ∧
      (value' = value ∨ field = offending ∧ value.isForced = true ∧ ∃ f, value' = .float f) := by
  obtain ⟨p, hp, hforce⟩ := (mem_mapM h p').mp hp'
  rcases get?_forcePoint hforce field with heq | ⟨heq, value, f, hget, hforced, hfloat⟩
  · exact ⟨p, hp, value', heq ▸ hget', Or.inl rfl⟩
  · exact ⟨p, hp, value, hget, Or.inr ⟨heq, hforced, f, Option.some.inj (hget'.symm.trans hfloat)⟩⟩

/-- A point of a payload in which a field was forced. -/
theorem point_of_forceFloat (h : forceFloat offending payload = .ok payload')
    {p : InfluxPointDict Ω} (hp : p ∈ payload) :
    ∃ p' ∈ payload', forcePoint offending p = .ok p' := by
  obtain ⟨p', hforce⟩ := returns_mapM_iff.mp ⟨payload', h⟩ p hp
  exact ⟨p', (mem_mapM h p').mpr ⟨p, hp, hforce⟩, hforce⟩

/-- After a field was forced none of its values is an integer. -/
theorem not_overflows_of_forceFloat (h : forceFloat offending payload = .ok payload') :
    ¬Overflows payload' offending := by
  rintro ⟨p', hp', i, hget', -⟩
  obtain ⟨p, hp, hforce⟩ := (mem_mapM h p').mp hp'
  rcases get?_forcePoint hforce offending with heq | ⟨-, value, f, -, -, hfloat⟩
  · obtain ⟨f, hfloat⟩ := forcePoint_forced hforce (heq ▸ hget') rfl
    cases hget'.symm.trans hfloat
  · cases hget'.symm.trans hfloat

end

/-! ## A step of the loop -/

section

variable {server : Server Ω} {allow : Bool} {payload payload' : Payload Ω} {field : String}

theorem conforms_float {expected : Option FieldType} {f : Float}
    (h : expected = none ∨ expected = some .float) : Conforms expected (.float f : FieldValue Ω) := by
  intro type htype
  rcases h with h | h
  · rw [h] at htype
    cases htype
  · rw [← Option.some.inj (h.symm.trans htype)]
    rfl

/-- A stuck conflict is still there, and still stuck, after an attempt. -/
theorem stuck_step (hconflict : FieldConflicts server.table payload field)
    (hstuck : Stuck server allow payload field) :
    ∃ offending payload', server.offending allow field = some offending ∧
      forceFloat offending payload = .ok payload' ∧
      FieldConflicts server.table payload' field ∧ Stuck server allow payload' field := by
  obtain ⟨offending, hoffending, hoverflow, hnot⟩ := hstuck
  obtain ⟨payload', hforce⟩ := returns_forceFloat_iff.mpr hoverflow
  have hoverflow' := not_overflows_of_forceFloat hforce
  refine ⟨offending, payload', hoffending, hforce, ?_⟩
  obtain ⟨p, hp, value, hget, hvalue⟩ := hconflict
  by_cases hfloat : offending = field ∧ server.table.get? field = some .float
  · -- the field wants floats, so one of its values is no number, and stays
    obtain ⟨rfl, htable⟩ := hfloat
    have hother : ∃ p ∈ payload, ∃ value, p.fields.get? offending = some value ∧
        value.isForced = false := by
      by_contra hall
      refine hnot ⟨rfl, htable, fun p hp value hget => ?_⟩
      by_contra hforced
      exact hall ⟨p, hp, value, hget, by simpa using hforced⟩
    obtain ⟨p, hp, value, hget, hforced⟩ := hother
    obtain ⟨p', hp', hforce'⟩ := point_of_forceFloat hforce hp
    have hget' := forcePoint_kept hforce' hget (Or.inr hforced)
    refine ⟨⟨p', hp', value, hget', fun hconforms => ?_⟩, offending, hoffending, hoverflow',
      fun hall => ?_⟩
    · have htype := hconforms .float htable
      cases value with
      | int i => cases hforced
      | float f => cases hforced
      | str s => cases htype
      | bool b => cases htype
      | object o => cases htype
    · rw [hall.2.2 p' hp' value hget'] at hforced
      cases hforced
  · refine ⟨?_, offending, hoffending, hoverflow', fun hall => hfloat ⟨hall.1, hall.2.1⟩⟩
    obtain ⟨p', hp', hforce'⟩ := point_of_forceFloat hforce hp
    rcases get?_forcePoint hforce' field with heq | ⟨heq, value', f, -, -, hget'⟩
    · exact ⟨p', hp', value, heq.trans hget, hvalue⟩
    · refine ⟨p', hp', .float f, hget', fun hconforms => ?_⟩
      cases htable : server.table.get? field with
      | none => exact hvalue fun type htype => (by rw [htable] at htype; cases htype)
      | some type =>
        have hfloat' : type = .float := (Option.some.inj (hconforms type htable)).symm
        exact hfloat ⟨heq.symm, hfloat' ▸ htable⟩

/-- A conflict that is not stuck is over after an attempt that names it, or the attempt raises; and no
other conflict begins or gets stuck. -/
theorem movable_step (hmovable : ∀ field, FieldConflicts server.table payload field →
      ¬Stuck server allow payload field)
    (hconflict : FieldConflicts server.table payload field) {offending : String}
    (hoffending : server.offending allow field = some offending)
    (hforce : forceFloat offending payload = .ok payload') :
    (∀ field', FieldConflicts server.table payload' field' →
      FieldConflicts server.table payload field' ∧ field' ≠ field) ∧
    ∀ field', FieldConflicts server.table payload' field' →
      ¬Stuck server allow payload' field' := by
  have hoverflow : ¬Overflows payload offending := returns_forceFloat_iff.mp ⟨payload', hforce⟩
  obtain ⟨rfl, htable, hnumbers⟩ : offending = field ∧ server.table.get? field = some .float ∧
      ∀ p ∈ payload, ∀ value, p.fields.get? field = some value → value.isForced = true := by
    by_contra hnot
    exact hmovable field hconflict ⟨offending, hoffending, hoverflow, hnot⟩
  have hover : ∀ field', FieldConflicts server.table payload' field' →
      FieldConflicts server.table payload field' ∧ field' ≠ offending := by
    rintro field' ⟨p', hp', value', hget', hvalue'⟩
    obtain ⟨p, hp, value, hget, hcases⟩ := value_of_forceFloat hforce hp' hget'
    have hne : field' ≠ offending := by
      rintro rfl
      obtain ⟨q, hq, hq'⟩ := (mem_mapM hforce p').mp hp'
      rcases get?_forcePoint hq' field' with heq | ⟨-, -, f, -, -, hfloat⟩
      · have hgetq : q.fields.get? field' = some value' := heq ▸ hget'
        obtain ⟨f, hfloat⟩ := forcePoint_forced hq' hgetq (hnumbers q hq value' hgetq)
        obtain rfl := Option.some.inj (hget'.symm.trans hfloat)
        exact hvalue' (conforms_float (Or.inr htable))
      · obtain rfl := Option.some.inj (hget'.symm.trans hfloat)
        exact hvalue' (conforms_float (Or.inr htable))
    rcases hcases with rfl | ⟨heq, -⟩
    · exact ⟨⟨p, hp, value', hget, hvalue'⟩, hne⟩
    · exact absurd heq hne
  refine ⟨hover, fun field' hconflict' => ?_⟩
  obtain ⟨hbefore, hne⟩ := hover field' hconflict'
  rintro ⟨g, hg, hoverflow', hnot⟩
  refine hmovable field' hbefore ⟨g, hg, ?_, fun hall => hnot ⟨hall.1, hall.2.1, ?_⟩⟩
  · rintro ⟨p, hp, i, hget, hrange⟩
    by_cases hgo : g = offending
    · exact hoverflow ⟨p, hp, i, hgo ▸ hget, hrange⟩
    · obtain ⟨p', hp', hforce'⟩ := point_of_forceFloat hforce hp
      exact hoverflow' ⟨p', hp', i, forcePoint_kept hforce' hget (Or.inl hgo), hrange⟩
  · intro p' hp' value' hget'
    obtain ⟨p, hp, value, hget, hcases⟩ := value_of_forceFloat hforce hp' hget'
    rcases hcases with rfl | ⟨heq, -⟩
    · exact hall.2.2 p hp value' hget
    · exact absurd heq hne

/-! ## The loop -/

/-- Each attempt ends one of the conflicts that are listed. -/
theorem writePoints_of_movable (naming : Naming server) {conflicting : List String}
    (hlisted : ∀ field, FieldConflicts server.table payload field → field ∈ conflicting)
    (hmovable : ∀ field, FieldConflicts server.table payload field →
      ¬Stuck server allow payload field) (n : Nat) :
    ∃ result, writePoints server naming allow (conflicting.length + 1) n payload = some result ∧
      ∀ written, result = .ok written →
        written.length = payload.length ∧ ∀ field, ¬FieldConflicts server.table written field := by
  induction hlength : conflicting.length generalizing conflicting payload n with
  | zero =>
    have hnil : conflicting = [] := List.eq_nil_of_length_eq_zero hlength
    rw [writePoints]
    cases hrejects : naming.rejects n payload with
    | none =>
      refine ⟨_, rfl, fun written heq => ?_⟩
      obtain rfl := Except.ok.inj heq
      exact ⟨rfl, naming.accepts n payload hrejects⟩
    | some field =>
      have hmem := hlisted field (naming.conflicts n payload field hrejects)
      rw [hnil] at hmem
      cases hmem
  | succ k ih =>
    rw [writePoints]
    cases hrejects : naming.rejects n payload with
    | none =>
      refine ⟨_, rfl, fun written heq => ?_⟩
      obtain rfl := Except.ok.inj heq
      exact ⟨rfl, naming.accepts n payload hrejects⟩
    | some field =>
      have hconflict := naming.conflicts n payload field hrejects
      simp only [server.reads]
      cases hoffending : server.offending allow field with
      | none =>
        refine ⟨_, rfl, fun written heq => ?_⟩
        cases heq
      | some offending =>
        cases hforce : forceFloat offending payload with
        | error err =>
          simp only [hforce]
          refine ⟨_, rfl, fun written heq => ?_⟩
          cases heq
        | ok payload' =>
          obtain ⟨hover, hmovable'⟩ := movable_step hmovable hconflict hoffending hforce
          have hlisted' : ∀ field', FieldConflicts server.table payload' field' →
              field' ∈ conflicting.erase field := fun field' h' =>
            (List.mem_erase_of_ne (hover field' h').2).mpr (hlisted field' (hover field' h').1)
          have hlength' : (conflicting.erase field).length = k := by
            rw [List.length_erase_of_mem (hlisted field hconflict), hlength]
            rfl
          obtain ⟨result, hrun, hwritten⟩ := ih hlisted' hmovable' (n + 1) hlength'
          simp only [hforce]
          refine ⟨result, hrun, fun written heq => ?_⟩
          obtain ⟨hlen, hnone⟩ := hwritten written heq
          exact ⟨hlen.trans (length_mapM hforce), hnone⟩

/-- If the server keeps naming a stuck conflict, the loop goes on. -/
theorem writePoints_of_stuck (naming : Naming server)
    (hnames : ∀ n payload, FieldConflicts server.table payload field →
      naming.rejects n payload = some field)
    (hconflict : FieldConflicts server.table payload field)
    (hstuck : Stuck server allow payload field) (attempts n : Nat) :
    writePoints server naming allow attempts n payload = none := by
  induction attempts generalizing payload n with
  | zero => rfl
  | succ attempts ih =>
    obtain ⟨offending, payload', hoffending, hforce, hconflict', hstuck'⟩ :=
      stuck_step hconflict hstuck
    rw [writePoints, hnames n payload hconflict]
    simp only [server.reads, hoffending, hforce]
    exact ih hconflict' hstuck' (n + 1)

end

/-- A server may name a certain conflict as long as it is there. -/
theorem exists_naming (server : Server Ω) (field : String) : ∃ naming : Naming server,
    ∀ n payload, FieldConflicts server.table payload field →
      naming.rejects n payload = some field := by
  classical
  refine ⟨⟨fun _ payload =>
    if FieldConflicts server.table payload field then some field
    else if h : ∃ field', FieldConflicts server.table payload field' then some h.choose else none,
    fun n payload hnone field' hconflict => ?_, fun n payload field' hsome => ?_⟩,
    fun n payload h => if_pos h⟩
  · split at hnone
    · cases hnone
    · split at hnone
      · cases hnone
      · next hno => exact hno ⟨field', hconflict⟩
  · split at hsome
    · next h =>
      obtain rfl := Option.some.inj hsome
      exact h
    · split at hsome
      · next h =>
        obtain rfl := Option.some.inj hsome
        exact h.choose_spec
      · cases hsome

/-- **The retry ends if no conflict is stuck.** Whichever conflicts the server names, the loop writes all
points, none of them with a conflict, or raises, and makes at most one attempt more than there are
names of fields: exactly if no field of the payload has a conflict that is stuck. -/
theorem writePoints_ends_iff (server : Server Ω) (allow : Bool) (payload : Payload Ω) :
    (∀ naming : Naming server, ∃ result,
      writePoints server naming allow ((fieldNames payload).length + 1) 0 payload = some result ∧
        ∀ written, result = .ok written →
          written.length = payload.length ∧ ∀ field, ¬FieldConflicts server.table written field) ↔
    ∀ field, FieldConflicts server.table payload field → ¬Stuck server allow payload field := by
  constructor
  · intro h field hconflict hstuck
    obtain ⟨naming, hnames⟩ := exists_naming server field
    obtain ⟨result, hrun, -⟩ := h naming
    rw [writePoints_of_stuck naming hnames hconflict hstuck] at hrun
    cases hrun
  · intro h naming
    refine writePoints_of_movable naming (fun field hconflict => ?_) h 0
    obtain ⟨p, hp, value, hget, -⟩ := hconflict
    rw [fieldNames, List.mem_dedup, List.mem_flatMap]
    exact ⟨p, hp, Dict.mem_keys.mpr ⟨value, Dict.mem_of_get? hget⟩⟩

/-- The error for a text that is written to a field of floats. -/
def conflictError : InfluxDBClientError where
  code := some 400
  content := "\x7b\"error\":\"partial write: field type conflict: input field \\\"temp\\\" on " ++
    "measurement \\\"m\\\" is type string, already exists as type float dropped=1\"\x7d\n"

theorem offendingField_conflictError : offendingField true conflictError = some "temp" := by
  have htext : conflictError.content.toList = _ :=
    String.toList_append.trans (congrArg₂ _ String.toList_ofList String.toList_ofList)
  rw [offendingField, htext]
  decide +kernel

/-- A server with one field of floats. -/
def tempServer : Server Empty where
  table := Dict.empty.set "temp" .float
  error _ _ := conflictError
  offending allow _ := offendingField allow conflictError
  reads _ _ _ := rfl

/-- A point with a text for that field. -/
def textPoint : InfluxPointDict Empty :=
  ⟨"m", "2026-01-01T00:00:00", Dict.empty.set "temp" (.str "n/a"), .empty⟩

/-- The text stays a text, and the loop never ends. -/
theorem writePoints_textPoint_never_ends (naming : Naming tempServer) (attempts : Nat) :
    writePoints tempServer naming true attempts 0 [textPoint] = none := by
  have hconflict : FieldConflicts tempServer.table [textPoint] "temp" := by
    refine ⟨textPoint, List.mem_singleton_self _, .str "n/a", rfl, fun hconforms => ?_⟩
    cases hconforms .float rfl
  have hstuck : Stuck tempServer true [textPoint] "temp" := by
    have hreads : tempServer.offending true "temp" = some "temp" := by
      simp only [tempServer]
      exact offendingField_conflictError
    refine ⟨"temp", hreads, ?_, ?_⟩
    · rintro ⟨p, hp, i, hget, -⟩
      rw [List.mem_singleton.mp hp] at hget
      cases hget
    · rintro ⟨-, -, hall⟩
      cases hall textPoint (List.mem_singleton_self _) (.str "n/a") rfl
  refine writePoints_of_stuck naming (fun n payload hpayload => ?_) hconflict hstuck attempts 0
  cases hrejects : naming.rejects n payload with
  | none => exact absurd hpayload (naming.accepts n payload hrejects "temp")
  | some field =>
    obtain ⟨p, -, value, -, hvalue⟩ := naming.conflicts n payload field hrejects
    by_cases heq : field = "temp"
    · rw [heq]
    · refine absurd (fun type htype => ?_) hvalue
      have hget : tempServer.table.get? field = none := (Dict.get?_set ..).trans (if_neg heq)
      rw [hget] at htype
      cases htype

/-- There is such a server, and it keeps the loop going for ever. -/
theorem writePoints_ends_textPoint_false : ∃ naming : Naming tempServer, ∀ attempts,
    writePoints tempServer naming true attempts 0 [textPoint] = none := by
  obtain ⟨naming, -⟩ := exists_naming tempServer "temp"
  exact ⟨naming, writePoints_textPoint_never_ends naming⟩

end Timeshift

end ProtocolGateway
