import ProtocolGateway.Values
import ProtocolGateway.Formula.Reading
import ProtocolGateway.Lib.Placeholders

/-!
# The expressions of register cells

`evaluate_expressions` rewrites a register cell in three passes: names in brackets are replaced by
the values of the anchors, the first range is expanded again and again until none is left, and what
is arithmetic between brackets is evaluated. Each pass works on the text that the one before it has
left, so a bracket does not remember where it came from.

Integers are exact. The numbers that are no integers, and what the operators make of them, are a
parameter: `Inexact`.

* `searchRange` — the pattern of a range, with the lazy and the greedy parts as they match.
* `evaluateRanges` — its expansion. Every replacement takes an opening bracket away, and so it ends.
* `evaluateExpressions` — the three passes.
-/

namespace ProtocolGateway

namespace Expressions

open Expression Placeholders

/-! ## Numbers -/

/-- An `int`, or a number that is none. -/
inductive Number (D : Type)
  | int (i : Int)
  | inexact (x : D)

/-- The numbers that are no integers. -/
structure Inexact (D : Type) where
  /-- the value of a numeral with a point or an exponent -/
  literal : List Char → D
  neg : D → D
  /-- the operations that are not those of the integers, `none` where they raise -/
  apply : Op → Number D → Number D → Option (Number D)
  /-- `result.is_integer()`, and `int(result)` if it is -/
  whole : D → Option Int
  /-- `str(result)` -/
  text : D → List Char
  /-- `str(value)` of an anchor -/
  anchorText : Float → List Char

variable {D : Type} (nums : Inexact D)

/-- The operators on integers. -/
def integerOp (o : Op) (a b : Int) : Option (Number D) :=
  match o with
  | .add => some (.int (a + b))
  | .sub => some (.int (a - b))
  | .mul => some (.int (a * b))
  | .div => if b = 0 then none else nums.apply .div (.int a) (.int b)
  | .floorDiv => if b = 0 then none else some (.int (a.fdiv b))
  | .mod => if b = 0 then none else some (.int (a.fmod b))
  | .pow =>
    if 0 ≤ b then some (.int (a ^ b.toNat))
    else if a = 0 then none
    else nums.apply .pow (.int a) (.int b)

/-- `-value`. -/
def Number.neg : Number D → Number D
  | .int i => .int (-i)
  | .inexact x => .inexact (nums.neg x)

/-- `a + b` and so on. -/
def applyOp (o : Op) : Number D → Number D → Option (Number D)
  | .int a, .int b => integerOp nums o a b
  | a, b => nums.apply o a b

/-- The integers that can be written and read. -/
def printable (i : Int) : Bool := (Nat.toDigits 10 i.natAbs).length ≤ Text.maxDecimalDigits

/-- `str(i)`. -/
def intText (i : Int) : List Char :=
  if i < 0 then '-' :: Nat.toDigits 10 i.natAbs else Nat.toDigits 10 i.natAbs

/-- A numeral. A long one is no integer. -/
def numeralValue (l : Literal) : Option (Number D) :=
  match Numeral.scan l.text with
  | some st =>
    if st.phase = .whole then
      if l.text.length ≤ Text.maxDecimalDigits then some (.int st.digits) else none
    else some (.inexact (nums.literal l.text))
  | none => none

/-- `_safe_eval`. -/
def arithmetic : Arithmetic Literal (Option (Number D)) where
  numeral := numeralValue nums
  neg := Option.map (Number.neg nums)
  apply := fun o a b => a.bind fun a => b.bind fun b => (applyOp nums o a b).map some

/-- `safe_eval_expression`, where `none` is an exception. -/
def safeEvalExpression (expression : List Char) : Option (Number D) :=
  ((readExpression expression).bind fun e => e.eval (arithmetic nums) none).join

/-- `str(result)`, where a whole number is an `int`. -/
def resultText : Number D → Option (List Char)
  | .int i => if printable i then some (intText i) else none
  | .inexact x =>
    match nums.whole x with
    | some i => if printable i then some (intText i) else none
    | none => some (nums.text x)

/-! ## Names -/

/-- The anchors. -/
abbrev Anchors := List Char → Option PyValue

/-- `str(value)`. -/
def valueText : PyValue → List Char
  | .int i => intText i
  | .float f => nums.anchorText f
  | .str s => s.toList

/-- `[A-Za-z_]`. -/
def nameStart (c : Char) : Bool := c.isAlpha || c = '_'

/-- `[A-Za-z0-9_]`. -/
def nameChar (c : Char) : Bool := c.isAlphanum || c = '_'

/-- A character, or a match of `identifier_pattern`. -/
inductive Segment
  | char (c : Char)
  | name (n : List Char)
  deriving DecidableEq

/-- The text with the matches, where `skip` characters belong to the last one. -/
def segments : Nat → List Char → List Segment
  | _, [] => []
  | skip + 1, _ :: s => segments skip s
  | 0, c :: s =>
    if nameStart c then
      .name (c :: s.takeWhile nameChar) :: segments (s.takeWhile nameChar).length s
    else .char c :: segments 0 s

/-- `identifier_pattern.findall`. -/
def names (s : List Char) : List (List Char) :=
  (segments 0 s).filterMap fun
    | .char _ => none
    | .name n => some n

/-- `identifier_pattern.sub`. -/
def replaceNames (f : List Char → List Char) (s : List Char) : List Char :=
  (segments 0 s).flatMap fun
    | .char c => [c]
    | .name n => f n

/-- `str(variables[name])`. -/
def nameText (anchors : Anchors) (name : List Char) : List Char :=
  ((anchors name).map (valueText nums)).getD []

/-- `var_pattern`. -/
def varFormat : Format Char where
  opening := '['
  closing := ']'
  inner := fun c => c ≠ '[' && c ≠ ']'
  closing_not_inner := rfl

/-- All names in the token are known, and there is one. -/
def namesKnown (anchors : Anchors) (token : List Char) : Bool :=
  names token ≠ [] && (names token).all fun name => (anchors name).isSome

/-- `replace_vars`. -/
def replaceVars (anchors : Anchors) (token : List Char) : List Char :=
  match anchors token with
  | some value => valueText nums value
  | none =>
    if namesKnown anchors token then
      varFormat.bracketed (replaceNames (nameText nums anchors) token)
    else varFormat.bracketed token

/-- `evaluate_variables`. -/
def evaluateVariables (anchors : Anchors) (expr : List Char) : List Char :=
  Placeholders.replace varFormat (replaceVars nums anchors) expr

/-! ## Ranges -/

/-- `.*?\]`. -/
def closeRange : List Char → Option (List Char)
  | [] => none
  | c :: s => if c = ']' then some s else if c = '\n' then none else closeRange s

/-- The groups of the range pattern, and what follows the match. -/
structure RangeMatch where
  start : List Char
  stop : List Char
  after : List Char
  deriving DecidableEq

/-- `(?P<start>\d+)\s*~\s*(?P<end>\d+).*?\]`. A shorter group would have a digit after it, so
there is no other match here. -/
def rangeHere (s : List Char) : Option RangeMatch :=
  let start := s.takeWhile Char.isDigit
  match (s.dropWhile Char.isDigit).dropWhile Text.isSpace with
  | '~' :: s =>
    let s := s.dropWhile Text.isSpace
    let stop := s.takeWhile Char.isDigit
    if start = [] ∨ stop = [] then none
    else (closeRange (s.dropWhile Char.isDigit)).map fun after => ⟨start, stop, after⟩
  | _ => none

/-- `.*?` before it. -/
def rangeIn : List Char → Option RangeMatch
  | [] => none
  | c :: s =>
    match rangeHere (c :: s) with
    | some m => some m
    | none => if c = '\n' then none else rangeIn s

/-- `range_pattern.search`, with the text before the match. -/
def searchRange : List Char → Option (List Char × RangeMatch)
  | [] => none
  | c :: s =>
    match if c = '[' then rangeIn s else none with
    | some m => some ([], m)
    | none => (searchRange s).map fun (before, m) => (c :: before, m)

/-- `int(text)` of digits. -/
def intOfDigits (s : List Char) : Option Nat :=
  if s.length ≤ Text.maxDecimalDigits then some (Nat.ofDigitChars 10 s 0) else none

/-- The numbers between two bounds. -/
def between (a b : Nat) : List Nat := List.range' (min a b) (max a b + 1 - min a b)

theorem closeRange_suffix {s after : List Char} (h : closeRange s = some after) : after <:+ s := by
  induction s with
  | nil => cases h
  | cons c s ih =>
    rw [closeRange] at h
    split at h
    · cases h
      exact List.suffix_cons _ _
    · split at h
      · cases h
      · exact (ih h).trans (List.suffix_cons _ _)

theorem rangeHere_suffix {s : List Char} {m : RangeMatch} (h : rangeHere s = some m) :
    m.after <:+ s := by
  unfold rangeHere at h
  dsimp only at h
  split at h
  · next t ht =>
    split at h
    · cases h
    · obtain ⟨after, hafter, rfl⟩ := Option.map_eq_some_iff.mp h
      have hdigits := (closeRange_suffix hafter).trans (List.dropWhile_suffix Char.isDigit)
      have hspaces := hdigits.trans (List.dropWhile_suffix Text.isSpace)
      have htilde := hspaces.trans (ht ▸ List.suffix_cons '~' t)
      exact (htilde.trans (List.dropWhile_suffix _)).trans (List.dropWhile_suffix _)
  · cases h

theorem rangeIn_suffix {s : List Char} {m : RangeMatch} (h : rangeIn s = some m) :
    m.after <:+ s := by
  induction s with
  | nil => cases h
  | cons c s ih =>
    rw [rangeIn] at h
    split at h
    · next hhere =>
      cases h
      exact rangeHere_suffix hhere
    · split at h
      · cases h
      · exact (ih h).trans (List.suffix_cons _ _)

/-- A match begins at an opening bracket. -/
theorem searchRange_eq_some {s before : List Char} {m : RangeMatch}
    (h : searchRange s = some (before, m)) :
    ∃ rest, s = before ++ '[' :: rest ∧ rangeIn rest = some m := by
  induction s generalizing before with
  | nil => cases h
  | cons c s ih =>
    rw [searchRange] at h
    split at h
    · next hfound =>
      cases h
      split at hfound
      · next hc => exact ⟨s, by rw [hc]; rfl, hfound⟩
      · cases hfound
    · obtain ⟨⟨before', m'⟩, hrest, heq⟩ := Option.map_eq_some_iff.mp h
      cases heq
      obtain ⟨rest, rfl, hin⟩ := ih hrest
      exact ⟨rest, rfl, hin⟩

theorem bracket_notMem_toDigits (n : Nat) : '[' ∉ Nat.toDigits 10 n := fun h =>
  absurd (Nat.isDigit_of_mem_toDigits (by decide) (by decide) h) (by decide)

/-- A replacement takes an opening bracket away. -/
theorem count_replaced_lt {s before : List Char} {m : RangeMatch}
    (h : searchRange s = some (before, m)) (n : Nat) :
    (before ++ (Nat.toDigits 10 n ++ m.after)).count '[' < s.count '[' := by
  obtain ⟨rest, rfl, hin⟩ := searchRange_eq_some h
  have hafter : m.after.count '[' ≤ rest.count '[' := (rangeIn_suffix hin).sublist.count_le _
  have hdigits : (Nat.toDigits 10 n).count '[' = 0 :=
    List.count_eq_zero.mpr (bracket_notMem_toDigits n)
  rw [List.count_append, List.count_append, List.count_append, List.count_cons_self, hdigits]
  omega

/-- `evaluate_ranges`. -/
def evaluateRanges (expr : List Char) : Except PyError (List (List Char)) :=
  match _h : searchRange expr with
  | none => .ok [expr]
  | some (before, m) =>
    match intOfDigits m.start, intOfDigits m.stop with
    | some a, some b => do
      let results ← (between a b).mapM fun i =>
        evaluateRanges (before ++ (Nat.toDigits 10 i ++ m.after))
      return results.flatten
    | _, _ => .error .valueError
termination_by expr.count '['
decreasing_by exact count_replaced_lt _h _

/-! ## Arithmetic -/

/-- `math_pattern`. -/
def mathFormat : Format Char where
  opening := '['
  closing := ']'
  inner := fun c => c.isDigit || c ∈ ['+', '-', '*', '/', '%', '(', ')', '.'] || Text.isSpace c
  closing_not_inner := rfl

/-- `replace_maths`. -/
def replaceMaths (maths : List Char) : List Char :=
  ((safeEvalExpression nums maths).bind (resultText nums)).getD (mathFormat.bracketed maths)

/-- `evaluate_math`. -/
def evaluateMath (expr : List Char) : List Char :=
  Placeholders.replace mathFormat (replaceMaths nums) expr

/-- `evaluate_expressions`. -/
def evaluateExpressions (expression : List Char) (anchors : Anchors) :
    Except PyError (List (List Char)) :=
  (evaluateRanges (evaluateVariables nums anchors expression)).map
    (List.map (evaluateMath nums))

end Expressions

end ProtocolGateway
