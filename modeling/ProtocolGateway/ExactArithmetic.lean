import ProtocolGateway.FieldWords
import ProtocolGateway.ContextPass
import Mathlib.Algebra.Order.Field.Rat

/-!
# Values as rational numbers

The `post_decode` and `context` stages and the write path with the floats of the source read as the
rational numbers they stand for. `DataAdjustments` returns a whole float as an `int`, so the number
alone tells the two apart.

`ExactHost` collects what this leaves to text conversions, to the regular expression of `High_Low`
and to the expression evaluator. Nothing is assumed about it.
-/

namespace ProtocolGateway

open Outcomes

/-! ## Rational numbers -/

/-- `int(f)`. -/
def truncateRat (q : Rat) : Int := q.num.tdiv q.den

/-- `int(round(f))`: to the nearest integer, a tie to the even one. -/
def roundRat (q : Rat) : Int :=
  let low := q.num / q.den
  let rest := q.num % q.den
  if q.den < 2 * rest ∨ (2 * rest = q.den ∧ low % 2 ≠ 0) then low + 1 else low

@[simp] theorem truncateRat_intCast (i : Int) : truncateRat i = i := by
  unfold truncateRat
  rw [Rat.num_intCast, Rat.den_intCast]
  exact Int.tdiv_one i

@[simp] theorem roundRat_intCast (i : Int) : roundRat i = i := by
  unfold roundRat
  rw [Rat.num_intCast, Rat.den_intCast]
  dsimp only
  rw [if_neg (by omega)]
  exact Int.ediv_one i

/-! ## Values -/

/-- `int | float | str`. -/
inductive ExactValue
  | num (q : Rat)
  | str (s : String)
  deriving DecidableEq

/-- A block `x?(lower,upper)->formula` of a `High_Low` adjustment. -/
structure RangeBlock where
  lower : Rat
  upper : Rat
  formula : String

/-- Text conversions, `High_Low` blocks and expressions. -/
structure ExactHost where
  host : Host
  formulas : Formulas
  /-- `float(text)`, `none` for the `ValueError` -/
  ratOfText : String → Option Rat
  /-- the number a float stands for -/
  ratOfFloat : Float → Rat
  /-- the float of a number -/
  floatOfRat : Rat → Float
  /-- `re.findall` of the blocks in `str(high_low)` -/
  rangeBlocks : Json → List RangeBlock
  /-- `safe_eval_expression(formula.replace("x", str(value)))`, `none` for an exception -/
  evaluate : String → Rat → Option Rat
  /-- `struct.pack(">f", value)` -/
  pack32 : Rat → Except PyError (List Byte)
  /-- `struct.pack(">d", value)` -/
  pack64 : Rat → Except PyError (List Byte)

namespace ExactHost

variable (x : ExactHost)

/-- The value as the source holds it. -/
def toPyValue : ExactValue → PyValue
  | .num q => if q.den = 1 then .int q.num else .float (x.floatOfRat q)
  | .str s => .str s

theorem toPyValue_intCast (i : Int) : x.toPyValue (.num i) = .int i := by
  unfold toPyValue
  dsimp only
  rw [if_pos (Rat.den_intCast i), Rat.num_intCast]

/-- `str(value)`. -/
def text (value : ExactValue) : String := (x.toPyValue value).text x.host

/-- `float(value)`. -/
def toRat : ExactValue → Except PyError Rat
  | .num q => .ok q
  | .str s =>
    match x.ratOfText s with
    | some q => .ok q
    | none => .error .valueError

/-- `int(value)`. -/
def toInt : ExactValue → Except PyError Int
  | .num q => .ok (truncateRat q)
  | .str s =>
    match Text.pyInt s.toList with
    | some i => .ok i
    | none => .error .valueError

/-! ## Adjustments -/

/-- The factor of the unit column. -/
def unitMod (e : RegistryMapEntry) : Rat := x.ratOfFloat e.unitMod

/-- `float(offset)`; `none` where the source logs a warning and goes on. -/
def offsetValue : Json → Option Rat
  | .bool b => some (if b then 1 else 0)
  | .int i => some i
  | .float f => some (x.ratOfFloat f)
  | .str s => x.ratOfText s
  | .null | .list _ | .dict _ => none

/-- `apply_range_formula`. -/
def applyRangeFormula (rawValue : Rat) (logic : Json) : Rat :=
  match (x.rangeBlocks logic).find? fun block => block.lower < rawValue ∧ rawValue ≤ block.upper with
  | some block => (x.evaluate block.formula rawValue).getD rawValue
  | none => rawValue

/-- The `post_decode` stage for a number. -/
def applyPostDecode (e : RegistryMapEntry) (value : Rat) : Rat :=
  match e.adjustment "High_Low" with
  | some logic => x.applyRangeFormula value logic
  | none =>
    let adjusted := if x.unitMod e ≠ 1 then value * x.unitMod e else value
    match (e.adjustment "Offset").bind x.offsetValue with
    | some offset => adjusted + offset
    | none => adjusted

/-- The `context` stage, given the values of the read. -/
def applyContext (e : RegistryMapEntry) (value : ExactValue) (info : List (String × ExactValue)) :
    Except PyError ExactValue :=
  match value, e.getAdjustment "Context" with
  | .num q, some (.dict items) =>
    let key := contextKey x.host x.formulas items
    if key = "" then .ok (.num q)
    else
      match info.lookup key with
      | none => .ok (.num q)
      | some contextValue => do
        let formula ← chooseFormula x.host x.formulas items (x.toPyValue contextValue)
        return .num (if formula = "" then q else (x.evaluate formula q).getD q)
  | value, _ => .ok value

end ExactHost

/-! ## Decoding and writing -/

namespace ProtocolSettings

variable (ps : ProtocolSettings) (x : ExactHost)

/-- The decoded value of one entry, before it is filed. -/
def decodeExact (registry : Int → Option Word) (e : RegistryMapEntry) :
    Except PyError (Option ExactValue) := do
  if registry e.register = none then return none
  let order := e.getEntryByteorder ps.defaultWordOrder
  let cut := fun q => do
    if 0 ≤ e.registerBit ∧ ¬decodedValueAlreadyHonorsBitOffset e then
      return some (.num (← extractBits (truncateRat q) e))
    else return some (ExactValue.num q)
  match ← ps.decodeUshort order registry e with
  | none => return none
  | some (.str s) => return some (.str s)
  | some (.int i) => cut (x.applyPostDecode e i)
  | some (.float f) => cut (x.applyPostDecode e (x.ratOfFloat f))

/-- What `process_registery` shows for an entry when the other members of its range have the values
`members` and the other entries the values `siblings`. -/
def showExact (registry : Int → Option Word) (members : Dict Int PyValue)
    (siblings : List (String × ExactValue)) (e : RegistryMapEntry) :
    Except PyError (Option ExactValue) :=
  if e.descriptionSource ≠ "" then .ok none
  else do
    match ← ps.decodeExact x registry e with
    | none => return none
    | some value =>
      if e.concatenate then
        -- the members of a range are joined to a text, which the context stage leaves alone
        let decoded ← fileValue x.host ⟨members, Dict.empty⟩ e (x.toPyValue value)
        return (decoded.info.get? e.variableName).map fun joined => .str (joined.text x.host)
      else return some (← x.applyContext e value ((e.variableName, value) :: siblings))

/-- The write path in rational arithmetic. -/
def exactArithmetic : Arithmetic ExactValue where
  str? := fun
    | .str s => some s
    | .num _ => none
  ofInt := fun i => .num i
  ofText := .str
  text := x.text
  toInt := ExactHost.toInt
  toFloatInt := fun value => (x.toRat value).map truncateRat
  packFloat32 := fun value => do x.pack32 (← x.toRat value)
  packFloat64 := fun value => do x.pack64 (← x.toRat value)
  reMatch := x.host.reMatch
  scaled := fun e => x.unitMod e ≠ 1
  unscale := fun e value => do
    let q ← x.toRat value
    if x.unitMod e = 0 then .error .zeroDivisionError else return roundRat (q / x.unitMod e)
  current := fun registry e => ps.showExact x registry Dict.empty [] e

end ProtocolSettings

end ProtocolGateway
