import ProtocolGateway.Values

/-!
# Adjustments

`DataAdjustments.apply_adjustments`: what happens to a value between its registers and the info
dictionary. The `post_decode` stage scales a number by the unit column and the `Offset` or
`High_Low` adjustment, the `context` stage transforms it by what its siblings decoded to. Texts
pass through both.
-/

namespace ProtocolGateway

/-- A whole float becomes an `int`. -/
def collapse : PyValue → PyValue
  | .float f =>
    if isInteger f then
      match truncate f with
      | .ok i => .int i
      | .error _ => .float f
    else .float f
  | value => value

/-- Collapsing leaves no whole float. -/
@[simp] theorem collapse_collapse (value : PyValue) : collapse (collapse value) = collapse value := by
  cases value with
  | float f =>
    rw [collapse]
    split
    · next hf =>
      split
      · rfl
      · next e ht => rw [collapse, if_pos hf, ht]
    · next hf => rw [collapse, if_neg hf]
  | _ => rfl

namespace RegistryMapEntry

variable (host : Host) (e : RegistryMapEntry)

/-- `get_adjustment`, where a JSON `null` is the `None` of an absent adjustment. -/
def adjustment (name : String) : Option Json :=
  match e.getAdjustment name with
  | some .null => none
  | found => found

/-- `float(offset)`; `none` where the source logs a warning and goes on. -/
def offsetValue : Json → Except PyError (Option Float)
  | .bool b => .ok (some (if b then 1 else 0))
  | .int i => (roundToDouble i).map fun i => some (Float.ofInt i)
  | .float f => .ok (some f)
  | .str s => .ok (host.floatOfText s)
  | .null | .list _ | .dict _ => .ok none

/-- `adjusted * entry.unit_mod`, which is skipped for a factor of one. -/
def scale (value : PyValue) : Except PyError PyValue :=
  if e.unitMod != 1 then (value.toFloat host).map fun f => .float (f * e.unitMod) else .ok value

/-- `adjusted + float(offset)`. -/
def addOffset (value : PyValue) : Except PyError PyValue :=
  match e.adjustment "Offset" with
  | none => .ok value
  | some offset => do
    match ← offsetValue host offset with
    | none => .ok value
    | some x => (value.toFloat host).map fun f => .float (f + x)

/-- The scaling of a number. `High_Low` is the complete transform, so the unit column and the
offset only apply without it. -/
def adjustNumber (value : PyValue) : Except PyError PyValue :=
  match e.adjustment "High_Low" with
  | some logic => do
    let x ← value.toFloat host
    (host.applyRangeFormula x logic).map PyValue.float
  | none => do e.addOffset host (← e.scale host value)

/-- The `post_decode` stage. -/
def applyPostDecode : PyValue → Except PyError PyValue
  | .str s => .ok (.str s)
  | value => (e.adjustNumber host value).map collapse

/-- The `context` stage. -/
def applyContext (value : PyValue) (info : List (String × PyValue)) : Except PyError PyValue :=
  match value, e.getAdjustment "Context" with
  | .str s, _ => .ok (.str s)
  | value, some (.dict items) => host.applyContextFormula items value info
  | value, _ => .ok value

/-- An entry whose decoded number is handed on as it is. -/
structure Unscaled : Prop where
  unitMod : (e.unitMod != 1) = false
  highLow : e.adjustment "High_Low" = none
  offset : e.adjustment "Offset" = none
  context : e.getAdjustment "Context" = none

variable {host e}

theorem applyPostDecode_int (h : e.Unscaled) (i : Int) :
    e.applyPostDecode host (.int i) = .ok (.int i) := by
  have hscale : e.scale host (.int i) = .ok (.int i) := by
    rw [scale, h.unitMod]
    rfl
  have hoffset : e.addOffset host (.int i) = .ok (.int i) := by
    rw [addOffset, h.offset]
  have hnumber : e.adjustNumber host (.int i) = .ok (.int i) := by
    rw [adjustNumber, h.highLow]
    dsimp only
    rw [hscale]
    exact hoffset
  show (e.adjustNumber host (.int i)).map collapse = .ok (.int i)
  rw [hnumber]
  rfl

@[simp] theorem applyPostDecode_str (s : String) :
    e.applyPostDecode host (.str s) = .ok (.str s) := rfl

theorem applyContext_of_unscaled (h : e.Unscaled) (value : PyValue)
    (info : List (String × PyValue)) : e.applyContext host value info = .ok value := by
  unfold applyContext
  rw [h.context]
  cases value <;> rfl

/-- The `post_decode` stage leaves no whole float behind. -/
theorem applyPostDecode_collapse (value : PyValue) :
    (e.applyPostDecode host value).map collapse = e.applyPostDecode host value := by
  have hmap (x : Except PyError PyValue) : (x.map collapse).map collapse = x.map collapse := by
    cases x with
    | error _ => rfl
    | ok v => exact congrArg Except.ok (collapse_collapse v)
  cases value with
  | str s => rfl
  | int i => exact hmap (e.adjustNumber host (.int i))
  | float f => exact hmap (e.adjustNumber host (.float f))

end RegistryMapEntry

end ProtocolGateway
