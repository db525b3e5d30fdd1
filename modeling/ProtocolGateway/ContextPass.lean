import ProtocolGateway.Decode
import ProtocolGateway.Lib.Assignments

/-!
# The context pass

`process_registery` decodes a snapshot into a dictionary of values and then goes over the map once
more: a value whose row has a `Context` adjustment is transformed by what its key decoded to. The
pass changes the dictionary it looks keys up in, row by row, so a row sees what the rows before it
made of its key and of its own variable.

The first part is the `context` stage of `apply_adjustments` as the source has it: the key, the
choice of a formula by `cases`, `range` and `default`, and its evaluation. For the second part only
the key matters, and what the formulas make of a value is left open (`ContextRule`). Every variable
is then transformed once, by decoded values, and in every order of the rows, exactly for the maps
that are `ContextSafe`.
-/

namespace ProtocolGateway

/-- What the `context` stage leaves to text conversions and to the expression evaluator. -/
structure Formulas where
  /-- `str(value)` of a JSON list or object -/
  containerText : Json → String
  /-- `safe_eval_expression(formula.replace("x", str(value)))`, `none` for an exception -/
  evaluate : String → Float → Option PyValue

/-! ## The bounds of a `range` -/

namespace ContextRange

/-- `CONTEXT_RANGE_LIMIT`. -/
def limit : Nat := 50

/-- `-?\d+`: the sign, the digits and the rest of the text. -/
def matchInteger (s : List Char) : Option ((Int × List Char) × List Char) :=
  let (sign, s) := match s with
    | '-' :: cs => ((-1 : Int), cs)
    | cs => (1, cs)
  match s.takeWhile fun c => (Text.decDigit? c).isSome with
  | [] => none
  | d :: ds => some ((sign, d :: ds), s.drop (ds.length + 1))

/-- `~|\.\.|,|-`. -/
def matchSeparator : List Char → Option (List Char)
  | '~' :: cs | ',' :: cs | '-' :: cs | '.' :: '.' :: cs => some cs
  | _ => none

/-- `_CONTEXT_RANGE_TEXT.match(spec)`. -/
def matchText (s : List Char) : Option ((Int × List Char) × (Int × List Char)) := do
  let (low, s) ← matchInteger (s.dropWhile Text.isSpace)
  let s ← matchSeparator (s.dropWhile Text.isSpace)
  let (high, s) ← matchInteger (s.dropWhile Text.isSpace)
  if s.all Text.isSpace then some (low, high) else none

/-- `int(match.group(1))`. -/
def groupNumber : Int × List Char → Except PyError Int
  | (sign, digits) =>
    match Text.decimal? digits with
    | some n => .ok (sign * n)
    | none => .error .valueError

/-- `int(items[0])`, where the source catches `TypeError` and `ValueError`. -/
def itemNumber : Json → Except PyError (Option Int)
  | .int i => .ok (some i)
  | .bool b => .ok (some (if b then 1 else 0))
  | .float f =>
    match truncate f with
    | .error .valueError => .ok none
    | x => x.map some
  | .str s => .ok (Text.pyInt s.toList)
  | .null | .list _ | .dict _ => .ok none

/-- The bounds in order, unless one of them is out of the limit. -/
def ordered (low high : Int) : Option (Int × Int) :=
  let (low, high) := if high < low then (high, low) else (low, high)
  if limit < max low.natAbs high.natAbs then none else some (low, high)

/-- `context_range_bounds`. -/
def contextRangeBounds : Json → Except PyError (Option (Int × Int))
  | .list [first, second] => do
    match ← itemNumber first with
    | none => return none
    | some low =>
      match ← itemNumber second with
      | none => return none
      | some high => return ordered low high
  | .str spec =>
    match matchText spec.toList with
    | none => .ok none
    | some (low, high) => do return ordered (← groupNumber low) (← groupNumber high)
  | _ => .ok none

example : (contextRangeBounds (.str "-10--5")).toOption = some (some (-10, -5)) := by decide
example : (contextRangeBounds (.str "3~-60")).toOption = some none := by decide

/-- `context_power_of_ten_formula`. -/
def contextPowerOfTenFormula (exponent : Int) : String :=
  if exponent < 0 then "x/" ++ toString (10 ^ exponent.natAbs)
  else if exponent = 0 then "x*1"
  else "x*" ++ toString (10 ^ exponent.natAbs)

end ContextRange

/-! ## The formula of a `Context` adjustment -/

/-- What the `Context` adjustments make of a number, given the value of the key. -/
def ContextRule := List (String × Json) → PyValue → PyValue → Except PyError PyValue

section Formula

variable (host : Host) (formulas : Formulas)

/-- `str(value)` of a JSON value. -/
def Json.pyText : Json → String
  | .null => "None"
  | .bool b => if b then "True" else "False"
  | .int i => toString i
  | .float f => host.floatText f
  | .str s => s
  | json => formulas.containerText json

/-- `str(context_adjustment.get("key", "")).strip()`. -/
def contextKey (items : List (String × Json)) : String :=
  String.ofList (Text.strip (((items.lookup "key").getD (.str "")).pyText host formulas).toList)

/-- The formula of the key's value in `cases`, empty without one. JSON names are texts, so the
second lookup of the source finds nothing the first did not. -/
def casesFormula (items : List (String × Json)) (contextValue : PyValue) : String :=
  match items.lookup "cases" with
  | some (.dict cases) =>
    ((cases.lookup (contextValue.text host)).getD (.str "")).pyText host formulas
  | _ => ""

/-- The formula of `range`: a power of ten for an integer within the bounds. -/
def rangeFormula (items : List (String × Json)) (contextValue : PyValue) : Except PyError String :=
  match items.lookup "range" with
  | none => .ok ""
  | some spec => do
    match ← ContextRange.contextRangeBounds spec, contextValue with
    | some (low, high), .int k =>
      return if low ≤ k ∧ k ≤ high then ContextRange.contextPowerOfTenFormula k else ""
    | _, _ => return ""

/-- The formula that is applied: the first of `cases`, `range` and `default` that has one. -/
def chooseFormula (items : List (String × Json)) (contextValue : PyValue) :
    Except PyError String := do
  if casesFormula host formulas items contextValue ≠ "" then
    return casesFormula host formulas items contextValue
  let formula ← rangeFormula items contextValue
  if formula ≠ "" then return formula
  return ((items.lookup "default").getD (.str "")).pyText host formulas

/-- The rule of the source: the value goes through the chosen formula. Evaluation errors are caught;
`float(value)` stands outside the `try`. -/
def contextTransform : ContextRule := fun items value contextValue => do
  let formula ← chooseFormula host formulas items (collapse contextValue)
  if formula = "" then return value
  match formulas.evaluate formula (← value.toFloat host) with
  | some adjusted => return collapse adjusted
  | none => return value

end Formula

/-- The `context` stage under a rule: without a key, or while the key has no value, it hands the
value on. -/
def ContextRule.applyContextFormula (rule : ContextRule) (host : Host) (formulas : Formulas)
    (items : List (String × Json)) (value : PyValue) (info : List (String × PyValue)) :
    Except PyError PyValue :=
  if contextKey host formulas items = "" then .ok value
  else
    match info.lookup (contextKey host formulas items) with
    | none => .ok value
    | some contextValue => rule items value contextValue

/-- The host whose `Context` adjustments follow a rule. The source's own is `contextTransform`. -/
def Host.withContext (host : Host) (formulas : Formulas) (rule : ContextRule) : Host :=
  { host with applyContextFormula := rule.applyContextFormula host formulas }

/-- The values the `context` stage transforms. -/
def PyValue.isNumber : PyValue → Bool
  | .str _ => false
  | _ => true

/-- The `Context` adjustment of a row, if it names a key. -/
def RegistryMapEntry.contextItems (e : RegistryMapEntry) (host : Host) (formulas : Formulas) :
    Option (List (String × Json)) :=
  match e.getAdjustment "Context" with
  | some (.dict items) => if contextKey host formulas items = "" then none else some items
  | _ => none

/-! ## The pass -/

/-- The same exception or not, and the same value under every name. -/
def SameOutcome : Except PyError (Dict String PyValue) → Except PyError (Dict String PyValue) → Prop
  | .ok info, .ok info' => ∀ name, info.get? name = info'.get? name
  | .error _, .error _ => True
  | _, _ => False

namespace ProtocolSettings

variable (ps : ProtocolSettings) (host : Host) (formulas : Formulas) (snapshot : Snapshot)

/-- The `post_decode` values: the first loop of `process_registery`. -/
def decodedInfo (registryMap : List RegistryMapEntry) : Except PyError (Dict String PyValue) :=
  (registryMap.foldlM (ps.decodeStep host snapshot) ⟨Dict.empty, Dict.empty⟩).map Decoded.info

/-- The context pass: the second loop of `process_registery`. -/
def contextPass (registryMap : List RegistryMapEntry) (info : Dict String PyValue) :
    Except PyError (Dict String PyValue) :=
  registryMap.foldlM (contextStep host) info

/-- The values after the context pass. -/
def adjustedInfo (registryMap : List RegistryMapEntry) : Except PyError (Dict String PyValue) := do
  contextPass host registryMap (← ps.decodedInfo host snapshot registryMap)

/-- `process_registery` only adds the descriptions to the values after the context pass. -/
theorem processRegistery_eq (registryMap : List RegistryMapEntry) :
    ps.processRegistery host snapshot registryMap =
      ps.adjustedInfo host snapshot registryMap >>=
        registryMap.foldlM (ps.describeStep host registryMap) := by
  unfold processRegistery adjustedInfo decodedInfo contextPass
  cases registryMap.foldlM (ps.decodeStep host snapshot) ⟨Dict.empty, Dict.empty⟩ <;> rfl

/-- In a dictionary of decoded values, a row transforms its variable: it has a `Context` adjustment,
its variable is a number, and its key has a value. -/
def Transforms (info : Dict String PyValue) (e : RegistryMapEntry) (items : List (String × Json)) :
    Prop :=
  e.contextItems host formulas = some items ∧
    (∃ value, info.get? e.variableName = some value ∧ value.isNumber = true) ∧
    ∃ contextValue, info.get? (contextKey host formulas items) = some contextValue

/-- Under a rule for the `Context` adjustments, every variable is transformed once, by the decoded
value of a key, and the rows can stand in any order. -/
structure AppliedOnce (registryMap : List RegistryMapEntry) (rule : ContextRule) : Prop where
  kept : ∀ info final,
    ps.decodedInfo host snapshot registryMap = .ok info →
    ps.adjustedInfo (host.withContext formulas rule) snapshot registryMap = .ok final →
    ∀ name, (∀ e ∈ registryMap, ∀ items, Transforms host formulas info e items →
      e.variableName ≠ name) → final.get? name = info.get? name
  transformed : ∀ info final,
    ps.decodedInfo host snapshot registryMap = .ok info →
    ps.adjustedInfo (host.withContext formulas rule) snapshot registryMap = .ok final →
    ∀ e ∈ registryMap, ∀ items, Transforms host formulas info e items →
      ∃ e' ∈ registryMap, ∃ items' value contextValue value',
        e'.variableName = e.variableName ∧ Transforms host formulas info e' items' ∧
        info.get? e.variableName = some value ∧
        info.get? (contextKey host formulas items') = some contextValue ∧
        rule items' value contextValue = .ok value' ∧ final.get? e.variableName = some value'
  unordered : ∀ registryMap', registryMap.Perm registryMap' →
    SameOutcome (ps.adjustedInfo (host.withContext formulas rule) snapshot registryMap)
      (ps.adjustedInfo (host.withContext formulas rule) snapshot registryMap')

/-- The decoded values do not depend on the order of the rows, no two rows transform one variable,
and no row that transforms a variable has another transformed variable for its key. -/
structure ContextSafe (registryMap : List RegistryMapEntry) : Prop where
  unordered : ∀ registryMap', registryMap.Perm registryMap' →
    SameOutcome (ps.decodedInfo host snapshot registryMap)
      (ps.decodedInfo host snapshot registryMap')
  distinct : ∀ info, ps.decodedInfo host snapshot registryMap = .ok info →
    registryMap.Pairwise fun e e' => ∀ items items', Transforms host formulas info e items →
      Transforms host formulas info e' items' → e.variableName ≠ e'.variableName
  apart : ∀ info, ps.decodedInfo host snapshot registryMap = .ok info →
    ∀ e ∈ registryMap, ∀ e' ∈ registryMap, ∀ items items',
      Transforms host formulas info e items → Transforms host formulas info e' items' →
      contextKey host formulas items = e'.variableName → e.variableName = e'.variableName

variable {ps host formulas snapshot}

/-! ## The pass as assignments -/

/-- The assignment a row stands for under a rule. -/
def contextAssignment (host : Host) (formulas : Formulas) (rule : ContextRule)
    (e : RegistryMapEntry) : Option (Assignment String PyValue PyError) :=
  (e.contextItems host formulas).map fun items =>
    ⟨e.variableName, contextKey host formulas items, rule items⟩

variable {rule : ContextRule}

theorem contextAssignment_of_some {e : RegistryMapEntry} {items : List (String × Json)}
    (h : e.contextItems host formulas = some items) :
    contextAssignment host formulas rule e =
      some ⟨e.variableName, contextKey host formulas items, rule items⟩ := by
  rw [contextAssignment, h]
  rfl

theorem toFloat_withContext (value : PyValue) :
    value.toFloat (host.withContext formulas rule) = value.toFloat host := by
  unfold PyValue.toFloat
  rfl

theorem adjustNumber_withContext (e : RegistryMapEntry) (value : PyValue) :
    e.adjustNumber (host.withContext formulas rule) value = e.adjustNumber host value := by
  unfold RegistryMapEntry.adjustNumber RegistryMapEntry.addOffset RegistryMapEntry.scale
    RegistryMapEntry.offsetValue
  simp only [toFloat_withContext]
  rfl

theorem applyPostDecode_withContext (e : RegistryMapEntry) (value : PyValue) :
    e.applyPostDecode (host.withContext formulas rule) value = e.applyPostDecode host value := by
  unfold RegistryMapEntry.applyPostDecode
  simp only [adjustNumber_withContext]

theorem decodeEntry_withContext (e : RegistryMapEntry) :
    ps.decodeEntry (host.withContext formulas rule) snapshot e =
      ps.decodeEntry host snapshot e := by
  unfold decodeEntry processRegisterUshort processRegisterBytes
  simp only [applyPostDecode_withContext]

theorem text_withContext (value : PyValue) :
    value.text (host.withContext formulas rule) = value.text host := by
  unfold PyValue.text
  rfl

theorem joinRange_withContext (keys : List Int) (concatenated : Dict Int PyValue) :
    joinRange (host.withContext formulas rule) keys concatenated =
      joinRange host keys concatenated := by
  induction keys generalizing concatenated with
  | nil => rw [joinRange, joinRange]
  | cons key keys ih =>
    unfold joinRange
    simp only [ih, text_withContext]

/-- Rules only matter in the context pass. -/
theorem decodedInfo_withContext (registryMap : List RegistryMapEntry) :
    ps.decodedInfo (host.withContext formulas rule) snapshot registryMap =
      ps.decodedInfo host snapshot registryMap := by
  have hstep : ps.decodeStep (host.withContext formulas rule) snapshot =
      ps.decodeStep host snapshot := by
    funext decoded e
    unfold decodeStep fileValue
    simp only [decodeEntry_withContext, joinRange_withContext]
  rw [decodedInfo, hstep]
  rfl

/-- Setting the value a name has changes nothing. -/
theorem get?_set_self {info : Dict String PyValue} {name : String} {value : PyValue}
    (h : info.get? name = some value) : (info.set name value).get? = info.get? := by
  refine funext fun name' => ?_
  rw [Dict.get?_set]
  split
  · next heq => rw [heq, h]
  · rfl

theorem applyContextFormula_withContext :
    (host.withContext formulas rule).applyContextFormula =
      rule.applyContextFormula host formulas := by
  rw [Host.withContext]

/-- Texts pass through. -/
theorem applyContext_text {e : RegistryMapEntry} {value : PyValue} (h : value.isNumber = false)
    {info : List (String × PyValue)} : e.applyContext host value info = .ok value := by
  cases value with
  | str text => rfl
  | int i => cases h
  | float f => cases h

theorem applyContext_number {e : RegistryMapEntry} {value : PyValue} (h : value.isNumber = true)
    {items : List (String × Json)} (hitems : e.getAdjustment "Context" = some (.dict items))
    {info : List (String × PyValue)} :
    e.applyContext host value info = host.applyContextFormula items value info := by
  unfold RegistryMapEntry.applyContext
  rw [hitems]
  cases value with
  | str text => cases h
  | int i => rfl
  | float f => rfl

/-- A row without a `Context` adjustment hands its value on. -/
theorem applyContext_of_none {e : RegistryMapEntry} (h : e.contextItems host formulas = none)
    (value : PyValue) (info : List (String × PyValue)) :
    e.applyContext (host.withContext formulas rule) value info = .ok value := by
  unfold RegistryMapEntry.contextItems at h
  unfold RegistryMapEntry.applyContext
  split
  · rfl
  · next items _ hitems =>
    rw [hitems] at h
    have hkey : contextKey host formulas items = "" := by
      by_contra hne
      exact absurd ((if_neg hne).symm.trans h) (by simp)
    rw [applyContextFormula_withContext, ContextRule.applyContextFormula, if_pos hkey]
  · rfl

/-- A row with one transforms a number once its key has a value. -/
theorem applyContext_of_some {e : RegistryMapEntry} {items : List (String × Json)}
    (h : e.contextItems host formulas = some items) (value : PyValue)
    (info : List (String × PyValue)) :
    e.applyContext (host.withContext formulas rule) value info =
      match info.lookup (contextKey host formulas items) with
      | some contextValue => if value.isNumber then rule items value contextValue else .ok value
      | none => .ok value := by
  unfold RegistryMapEntry.contextItems at h
  split at h
  · next items' hitems =>
    split at h
    · cases h
    · next hkey =>
      obtain rfl := Option.some.inj h
      have happly : rule.applyContextFormula host formulas items' value info =
          match info.lookup (contextKey host formulas items') with
          | none => .ok value
          | some contextValue => rule items' value contextValue := if_neg hkey
      cases hnumber : value.isNumber with
      | false =>
        rw [applyContext_text hnumber]
        split <;> rfl
      | true =>
        rw [applyContext_number hnumber hitems, applyContextFormula_withContext, happly]
        cases info.lookup (contextKey host formulas items') <;> rfl
  · cases h

/-- A row without a `Context` adjustment changes nothing. -/
theorem contextStep_of_none {e : RegistryMapEntry} (h : e.contextItems host formulas = none)
    (info : Dict String PyValue) :
    (contextStep (host.withContext formulas rule) info e).map Dict.get? = .ok info.get? := by
  unfold contextStep
  split
  · rfl
  · next value hvalue =>
    rw [applyContext_of_none h]
    exact congrArg Except.ok (get?_set_self hvalue)

/-- A row with one carries its assignment out. -/
theorem contextStep_of_some {e : RegistryMapEntry} {items : List (String × Json)}
    (h : e.contextItems host formulas = some items) (info : Dict String PyValue) :
    (contextStep (host.withContext formulas rule) info e).map Dict.get? =
      Assignment.step PyValue.isNumber info.get?
        ⟨e.variableName, contextKey host formulas items, rule items⟩ := by
  unfold contextStep Assignment.step
  cases hvalue : info.get? e.variableName with
  | none => rfl
  | some value =>
    have hself : (info.set e.variableName value).get? = info.get? := get?_set_self hvalue
    dsimp only
    rw [applyContext_of_some h]
    cases hkey : info.get? (contextKey host formulas items) with
    | none =>
      rw [show info.items.lookup (contextKey host formulas items) = none from hkey]
      exact congrArg Except.ok hself
    | some contextValue =>
      rw [show info.items.lookup (contextKey host formulas items) = some contextValue from hkey]
      dsimp only
      split
      · cases rule items value contextValue with
        | error err => rfl
        | ok adjusted =>
          refine congrArg Except.ok (funext fun name => ?_)
          rw [Dict.get?_set]
          exact (Function.update_apply _ _ _ _).symm
      · exact congrArg Except.ok hself

/-- The pass carries out the assignments of its rows, in their order. -/
theorem contextPass_get? (registryMap : List RegistryMapEntry) (info : Dict String PyValue) :
    (contextPass (host.withContext formulas rule) registryMap info).map Dict.get? =
      Assignment.run PyValue.isNumber
        (registryMap.filterMap (contextAssignment host formulas rule)) info.get? := by
  induction registryMap generalizing info with
  | nil => rfl
  | cons e registryMap ih =>
    show (contextStep (host.withContext formulas rule) info e >>=
      contextPass (host.withContext formulas rule) registryMap).map Dict.get? = _
    cases hitems : e.contextItems host formulas with
    | none =>
      have hnone : contextAssignment host formulas rule e = none := by
        rw [contextAssignment, hitems]
        rfl
      have hstep : (contextStep (host.withContext formulas rule) info e).map Dict.get? =
          .ok info.get? := contextStep_of_none hitems info
      rw [List.filterMap_cons_none hnone]
      cases h : contextStep (host.withContext formulas rule) info e with
      | error err =>
        rw [h] at hstep
        cases hstep
      | ok info' =>
        rw [h] at hstep
        rw [← Except.ok.inj hstep]
        exact ih info'
    | some items =>
      rw [List.filterMap_cons_some (contextAssignment_of_some hitems), Assignment.run_cons,
        ← contextStep_of_some hitems info]
      cases contextStep (host.withContext formulas rule) info e with
      | error err => rfl
      | ok info' => exact ih info'

/-! ## When the pass applies every adjustment once -/

/-- Outcomes are the same if they look the same. -/
theorem sameOutcome_iff {x y : Except PyError (Dict String PyValue)} :
    SameOutcome x y ↔ ∀ env, x.map Dict.get? = .ok env ↔ y.map Dict.get? = .ok env := by
  cases x with
  | error err =>
    cases y with
    | error err' => simp [SameOutcome, Except.map]
    | ok info' => simp [SameOutcome, Except.map]
  | ok info =>
    cases y with
    | error err' => simp [SameOutcome, Except.map]
    | ok info' =>
      constructor
      · intro h env
        have hget : info.get? = info'.get? := funext h
        show (.ok info.get? : Except PyError _) = .ok env ↔ (.ok info'.get? : Except PyError _) = .ok env
        rw [hget]
      · intro h name
        exact congrFun (Except.ok.inj ((h info'.get?).mpr rfl)) name

/-- What one outcome has under a name, the other one has. -/
theorem SameOutcome.get? {x y : Except PyError (Dict String PyValue)} (h : SameOutcome x y)
    {name : String} {value : Option PyValue}
    (hx : x.map (fun info => info.get? name) = .ok value) :
    y.map (fun info => info.get? name) = .ok value := by
  cases x with
  | error err => cases hx
  | ok info =>
    cases y with
    | error err => exact h.elim
    | ok info' => exact (congrArg Except.ok (h name).symm).trans hx

variable {registryMap : List RegistryMapEntry}

theorem Transforms.applies {info : Dict String PyValue} {e : RegistryMapEntry}
    {items : List (String × Json)} (h : Transforms host formulas info e items)
    (rule : ContextRule) : Assignment.Applies PyValue.isNumber info.get?
      ⟨e.variableName, contextKey host formulas items, rule items⟩ := h.2

theorem mem_assignments {a : Assignment String PyValue PyError} :
    a ∈ registryMap.filterMap (contextAssignment host formulas rule) ↔
      ∃ e ∈ registryMap, ∃ items, e.contextItems host formulas = some items ∧
        a = ⟨e.variableName, contextKey host formulas items, rule items⟩ := by
  simp [contextAssignment, eq_comm]

/-- A safe map gives independent assignments, whatever the rule. -/
theorem ContextSafe.independent (h : ps.ContextSafe host formulas snapshot registryMap)
    {info : Dict String PyValue} (hinfo : ps.decodedInfo host snapshot registryMap = .ok info) :
    Assignment.Independent PyValue.isNumber
      (registryMap.filterMap (contextAssignment host formulas rule)) info.get? where
  distinct := by
    refine List.pairwise_filterMap.mpr ((h.distinct info hinfo).imp ?_)
    intro e e' hne a ha a' ha' happ happ'
    obtain ⟨items, hitems, rfl⟩ := Option.map_eq_some_iff.mp ha
    obtain ⟨items', hitems', rfl⟩ := Option.map_eq_some_iff.mp ha'
    exact hne items items' ⟨hitems, happ⟩ ⟨hitems', happ'⟩
  apart := by
    intro a ha a' ha' happ happ' hkey
    obtain ⟨e, he, items, hitems, rfl⟩ := mem_assignments.mp ha
    obtain ⟨e', he', items', hitems', rfl⟩ := mem_assignments.mp ha'
    exact h.apart info hinfo e he e' he' items items' ⟨hitems, happ⟩ ⟨hitems', happ'⟩ hkey

/-- What the pass makes of decoded values. -/
theorem adjustedInfo_of_decoded {info : Dict String PyValue}
    (hinfo : ps.decodedInfo host snapshot registryMap = .ok info) :
    (ps.adjustedInfo (host.withContext formulas rule) snapshot registryMap).map Dict.get? =
      Assignment.run PyValue.isNumber
        (registryMap.filterMap (contextAssignment host formulas rule)) info.get? := by
  unfold adjustedInfo
  rw [decodedInfo_withContext, hinfo]
  exact contextPass_get? registryMap info

theorem adjustedInfo_of_error {err : PyError}
    (hinfo : ps.decodedInfo host snapshot registryMap = .error err) :
    ps.adjustedInfo (host.withContext formulas rule) snapshot registryMap = .error err := by
  unfold adjustedInfo
  rw [decodedInfo_withContext, hinfo]
  rfl

/-- A safe map is adjusted once, under every rule. -/
theorem ContextSafe.appliedOnce (h : ps.ContextSafe host formulas snapshot registryMap)
    (rule : ContextRule) : ps.AppliedOnce host formulas snapshot registryMap rule := by
  have hsimultaneous {info final : Dict String PyValue}
      (hinfo : ps.decodedInfo host snapshot registryMap = .ok info)
      (hfinal : ps.adjustedInfo (host.withContext formulas rule) snapshot registryMap = .ok final) :
      Assignment.Simultaneous PyValue.isNumber
        (registryMap.filterMap (contextAssignment host formulas rule)) info.get? final.get? := by
    rw [← Assignment.run_eq_ok_iff (h.independent hinfo), ← adjustedInfo_of_decoded hinfo, hfinal]
    rfl
  refine ⟨fun info final hinfo hfinal name hnone => ?_,
    fun info final hinfo hfinal e he items htransforms => ?_, fun registryMap' hperm => ?_⟩
  · refine (hsimultaneous hinfo hfinal).kept name fun a ha happ => ?_
    obtain ⟨e, he, items, hitems, rfl⟩ := mem_assignments.mp ha
    exact hnone e he items ⟨hitems, happ⟩
  · obtain ⟨hitems, ⟨value, hvalue, hnumber⟩, contextValue, hkey⟩ := id htransforms
    obtain ⟨value', hrule, hvalue'⟩ := (hsimultaneous hinfo hfinal).assigned _
      (mem_assignments.mpr ⟨e, he, items, hitems, rfl⟩) value contextValue hvalue hnumber hkey
    exact ⟨e, he, items, value, contextValue, value', rfl, htransforms, hvalue, hkey, hrule, hvalue'⟩
  · have hsame := h.unordered registryMap' hperm
    cases hinfo : ps.decodedInfo host snapshot registryMap with
    | error err =>
      rw [hinfo] at hsame
      cases hinfo' : ps.decodedInfo host snapshot registryMap' with
      | error err' =>
        rw [adjustedInfo_of_error hinfo, adjustedInfo_of_error hinfo']
        trivial
      | ok info' =>
        rw [hinfo'] at hsame
        exact hsame.elim
    | ok info =>
      rw [hinfo] at hsame
      cases hinfo' : ps.decodedInfo host snapshot registryMap' with
      | error err' =>
        rw [hinfo'] at hsame
        exact hsame.elim
      | ok info' =>
        rw [hinfo'] at hsame
        have hget : info.get? = info'.get? := funext hsame
        refine sameOutcome_iff.mpr fun env => ?_
        rw [adjustedInfo_of_decoded hinfo, adjustedInfo_of_decoded hinfo', ← hget]
        exact Assignment.run_perm (hperm.filterMap _) (h.independent hinfo)

/-! ## Rules that give an unsafe map away -/

/-- The rule that changes nothing. -/
def keepRule : ContextRule := fun _ value _ => .ok value

/-- How often a number was transformed by `riseRule`: integers count from `base` on. -/
def level (base : Nat) : PyValue → Nat
  | .int i => max base i.toNat
  | _ => base

/-- The rule that lifts a value above itself and above the value of its key. -/
def riseRule (base : Nat) : ContextRule := fun _ value contextValue =>
  .ok (.int (max (level base value) (level base contextValue) + 1 : Nat))

theorem rises_assignments (base : Nat) :
    ∀ a ∈ registryMap.filterMap (contextAssignment host formulas (riseRule base)),
      Assignment.Rises PyValue.isNumber (level base) a := by
  intro a ha value contextValue _
  obtain ⟨e, -, items, -, rfl⟩ := mem_assignments.mp ha
  refine ⟨_, rfl, rfl, ?_, ?_⟩ <;> simp only [level, Int.toNat_natCast] <;> omega

/-- The numbers of a dictionary have a common bound. -/
theorem exists_base (info : Dict String PyValue) :
    ∃ base, ∀ name value, info.get? name = some value → level base value = base := by
  have hbound : ∃ base, ∀ item ∈ info.items, level 0 item.2 ≤ base := by
    induction info.items with
    | nil => exact ⟨0, by simp⟩
    | cons item items ih =>
      obtain ⟨base, hbase⟩ := ih
      refine ⟨max base (level 0 item.2), fun item' hitem' => ?_⟩
      rcases List.mem_cons.mp hitem' with rfl | hitem'
      · omega
      · exact Nat.le_trans (hbase item' hitem') (Nat.le_max_left _ _)
  obtain ⟨base, hbase⟩ := hbound
  refine ⟨base, fun name value hvalue => ?_⟩
  have hle := hbase (name, value) (Dict.mem_of_get? hvalue)
  cases value with
  | int i =>
    simp only [level] at hle ⊢
    omega
  | float f => rfl
  | str text => rfl

/-- Where every adjustment is applied once, nothing rises twice. -/
theorem AppliedOnce.level_le {base : Nat}
    (h : ps.AppliedOnce host formulas snapshot registryMap (riseRule base))
    {info final : Dict String PyValue}
    (hinfo : ps.decodedInfo host snapshot registryMap = .ok info)
    (hfinal : ps.adjustedInfo (host.withContext formulas (riseRule base)) snapshot registryMap =
      .ok final)
    (hbase : ∀ name value, info.get? name = some value → level base value = base)
    {name : String} {value value' : PyValue} (hvalue : info.get? name = some value)
    (hvalue' : final.get? name = some value') : level base value' ≤ base + 1 := by
  by_cases hnone : ∀ e ∈ registryMap, ∀ items, Transforms host formulas info e items →
      e.variableName ≠ name
  · rw [h.kept info final hinfo hfinal name hnone] at hvalue'
    have := hbase name value' hvalue'
    omega
  · push Not at hnone
    obtain ⟨e, he, items, htransforms, rfl⟩ := hnone
    obtain ⟨-, -, items', v, c, v', -, -, hv, hc, hrule, hv'⟩ :=
      h.transformed info final hinfo hfinal e he items htransforms
    obtain rfl := Option.some.inj (hv'.symm.trans hvalue')
    have hlv := hbase _ v hv
    have hlc := hbase _ c hc
    rw [← Except.ok.inj hrule, hlv, hlc]
    simp only [level, Int.toNat_natCast]
    omega

/-- A variable has the same value in every order of the rows. -/
theorem AppliedOnce.value_of_perm (h : ps.AppliedOnce host formulas snapshot registryMap rule)
    {registryMap' : List RegistryMapEntry} (hperm : registryMap.Perm registryMap') {name : String}
    {value : Option PyValue}
    (hvalue : (ps.adjustedInfo (host.withContext formulas rule) snapshot registryMap).map
      (fun info => info.get? name) = .ok value) :
    (ps.adjustedInfo (host.withContext formulas rule) snapshot registryMap').map
      (fun info => info.get? name) = .ok value :=
  SameOutcome.get? (h.unordered registryMap' hperm) hvalue

/-- With the rule that changes nothing, the order of the rows is that of the decode loop. -/
theorem decoded_unordered
    (h : ps.AppliedOnce host formulas snapshot registryMap keepRule)
    {registryMap' : List RegistryMapEntry} (hperm : registryMap.Perm registryMap') :
    SameOutcome (ps.decodedInfo host snapshot registryMap)
      (ps.decodedInfo host snapshot registryMap') := by
  have hkeep (registryMap : List RegistryMapEntry) :
      (ps.adjustedInfo (host.withContext formulas keepRule) snapshot registryMap).map Dict.get? =
        (ps.decodedInfo host snapshot registryMap).map Dict.get? := by
    cases hinfo : ps.decodedInfo host snapshot registryMap with
    | error err =>
      rw [adjustedInfo_of_error hinfo]
    | ok info =>
      refine (adjustedInfo_of_decoded hinfo).trans (Assignment.run_of_keeps fun a ha v c => ?_)
      obtain ⟨e, -, items, -, rfl⟩ := mem_assignments.mp ha
      rfl
  have hsame := sameOutcome_iff.mp (h.unordered registryMap' hperm)
  refine sameOutcome_iff.mpr fun env => ?_
  rw [← hkeep, ← hkeep]
  exact hsame env

/-- The outcome of a run of the pass. -/
theorem adjustedInfo_of_run {info : Dict String PyValue} {env : String → Option PyValue}
    (hinfo : ps.decodedInfo host snapshot registryMap = .ok info)
    (hrun : Assignment.run PyValue.isNumber
      (registryMap.filterMap (contextAssignment host formulas rule)) info.get? = .ok env) :
    ∃ final, ps.adjustedInfo (host.withContext formulas rule) snapshot registryMap = .ok final ∧
      final.get? = env := by
  have hget := (adjustedInfo_of_decoded hinfo).trans hrun
  cases hfinal : ps.adjustedInfo (host.withContext formulas rule) snapshot registryMap with
  | error err =>
    rw [hfinal] at hget
    cases hget
  | ok final =>
    rw [hfinal] at hget
    exact ⟨final, rfl, Except.ok.inj hget⟩

/-- **The context pass.** Whatever the `Context` adjustments compute, each of them is applied once,
with decoded values and in every order of the rows, exactly for safe maps. -/
theorem applied_once_iff (ps : ProtocolSettings) (host : Host) (formulas : Formulas)
    (snapshot : Snapshot) (registryMap : List RegistryMapEntry) :
    (∀ rule, ps.AppliedOnce host formulas snapshot registryMap rule) ↔
      ps.ContextSafe host formulas snapshot registryMap := by
  refine ⟨fun h => ⟨fun registryMap' hperm => decoded_unordered (h keepRule) hperm,
    fun info hinfo => ?_, fun info hinfo e he e' he' items items' ht ht' hkey => ?_⟩,
    fun h rule => h.appliedOnce rule⟩
  · obtain ⟨base, hbase⟩ := exists_base info
    by_contra hdistinct
    -- a variable of two rows rises twice
    have hassignments : ¬(registryMap.filterMap
        (contextAssignment host formulas (riseRule base))).Pairwise fun a a' =>
          a.Applies PyValue.isNumber info.get? → a'.Applies PyValue.isNumber info.get? →
            a.target ≠ a'.target := by
      intro hpair
      refine hdistinct ((List.pairwise_filterMap.mp hpair).imp fun hne items items' ht ht' => ?_)
      exact hne _ (contextAssignment_of_some ht.1) _ (contextAssignment_of_some ht'.1)
        (ht.applies _) (ht'.applies _)
    obtain ⟨env', name, value, value', hrun, hvalue, hvalue', hlt⟩ :=
      Assignment.run_of_not_distinct (rises_assignments base) hassignments
    obtain ⟨final, hfinal, rfl⟩ := adjustedInfo_of_run hinfo hrun
    have hle := (h (riseRule base)).level_le hinfo hfinal hbase hvalue hvalue'
    have := hbase name value hvalue
    omega
  · obtain ⟨base, hbase⟩ := exists_base info
    by_contra hname
    -- in an order in which the key's row stands first, the variable rises by what the key became
    obtain ⟨before, after, rfl⟩ := List.append_of_mem he'
    have hperm : (before ++ e' :: after).Perm (e' :: (before ++ after)) := List.perm_middle
    have hmem : e ∈ before ++ after := by
      rcases List.mem_cons.mp (hperm.mem_iff.mp he) with rfl | hmem
      · exact absurd rfl hname
      · exact hmem
    have hsame := decoded_unordered (h keepRule) hperm
    rw [hinfo] at hsame
    cases hinfo' : ps.decodedInfo host snapshot (e' :: (before ++ after)) with
    | error err =>
      rw [hinfo'] at hsame
      exact hsame.elim
    | ok info' =>
      rw [hinfo'] at hsame
      have hget : info.get? = info'.get? := funext hsame
      obtain ⟨value, hvalue, -⟩ := ht.2.1
      obtain ⟨keyValue, hkeyValue, -⟩ := ht'.2.1
      have hcons : (e' :: (before ++ after)).filterMap
          (contextAssignment host formulas (riseRule base)) =
            ⟨e'.variableName, contextKey host formulas items', riseRule base items'⟩ ::
              (before ++ after).filterMap (contextAssignment host formulas (riseRule base)) :=
        List.filterMap_cons_some (contextAssignment_of_some ht'.1)
      obtain ⟨env', value', hrun, hvalue', hlt⟩ := Assignment.run_of_chained
        (hcons ▸ rises_assignments base) (mem_assignments.mpr ⟨e, hmem, items, ht.1, rfl⟩)
        (ht.applies _) (ht'.applies _) hkey hkeyValue
      rw [← hcons, hget] at hrun
      obtain ⟨final', hfinal', rfl⟩ := adjustedInfo_of_run hinfo' hrun
      have hsame' := (h (riseRule base)).unordered _ hperm
      rw [hfinal'] at hsame'
      cases hfinal : ps.adjustedInfo (host.withContext formulas (riseRule base)) snapshot
          (before ++ e' :: after) with
      | error err =>
        rw [hfinal] at hsame'
        exact hsame'.elim
      | ok final =>
        rw [hfinal] at hsame'
        have hle := (h (riseRule base)).level_le hinfo hfinal hbase hvalue
          ((hsame' e.variableName).trans hvalue')
        have := hbase _ keyValue hkeyValue
        omega

/-- `a` has a formula for the value `1` of `b`, which the row before it sets to `2`. -/
def chainedRows : List Row :=
  [{ cell := "41", variableName := "b"
     adjustments := [("Context", .dict [("key", .str "c"), ("default", .str "2")])] },
   { cell := "40", variableName := "a"
     adjustments := [("Context", .dict [("key", .str "b"), ("cases", .dict [("1", .str "10")])])] },
   { cell := "42", variableName := "c" }]

/-- The entries loaded from them. -/
def chainedMap : List RegistryMapEntry :=
  (({} : ProtocolSettings).loadRegistry .holding chainedRows).getD []

/-- The formulas of `chainedRows` are numbers. -/
def numberFormulas : Formulas where
  containerText _ := ""
  evaluate formula _ := (Text.pyInt formula.toList).map .int

/-- The key of `a` has changed when its formula is looked for. From the last row to the first, it
has not. -/
theorem chained_key_has_changed : ¬ ∀ (ps : ProtocolSettings) (host : Host) (formulas : Formulas)
    (snapshot : Snapshot) (registryMap : List RegistryMapEntry),
    ps.AppliedOnce host formulas snapshot registryMap (contextTransform host formulas) := by
  intro hall
  have happlied := hall {} default numberFormulas (.words fun _ => some 1) chainedMap
  have hforth : (adjustedInfo {} (Host.withContext default numberFormulas
      (contextTransform default numberFormulas)) (.words fun _ => some 1) chainedMap).map
        (fun info => info.get? "a") = .ok (some (.int 1)) := by decide +kernel
  have hback : (adjustedInfo {} (Host.withContext default numberFormulas
      (contextTransform default numberFormulas)) (.words fun _ => some 1) chainedMap.reverse).map
        (fun info => info.get? "a") = .ok (some (.int 10)) := by decide +kernel
  have hsame := happlied.value_of_perm (List.reverse_perm chainedMap).symm hforth
  have heq := Except.ok.inj (hback.symm.trans hsame)
  exact absurd heq (by decide)

end ProtocolSettings

end ProtocolGateway
