import Mathlib.Data.List.Basic
import ProtocolGateway.Lib.Trim

/-!
# Text handling shared by the loader and the transports

The pieces of Python's `str` that decide how a cell of a register map is read: stripping,
lowering, splitting, and the two integer readers. Register maps are opened as latin-1, so a
cell is a list of characters below `U+0100`; `lower` is exact on those.

* `strip`, `lower` — `str.strip()` and `str.lower()`.
* `pyInt` — `int(text)`: surrounding blanks, a sign, digits with single underscores.
* `strtoint` — `defs.common.strtoint`: decimal (`"40"`) or hexadecimal (`"0x28"`, `"x28"`).
  `none` stands for the branch that hands the text back unchanged.
-/

namespace ProtocolGateway

namespace Text

/-! ## Characters -/

/-- The characters `str.strip()` removes. -/
def isSpace (c : Char) : Bool :=
  let n := c.toNat
  (9 ≤ n && n ≤ 13) || (28 ≤ n && n ≤ 32) || n == 0x85 || n == 0xA0 || n == 0x1680 ||
    (0x2000 ≤ n && n ≤ 0x200A) || n == 0x2028 || n == 0x2029 || n == 0x202F || n == 0x205F ||
    n == 0x3000

/-- `c.lower()` for a latin-1 character. -/
def lowerChar (c : Char) : Char :=
  let n := c.toNat
  if (65 ≤ n && n ≤ 90) || (0xC0 ≤ n && n ≤ 0xDE && n != 0xD7) then Char.ofNat (n + 32) else c

/-- The value of a decimal digit. -/
def decDigit? (c : Char) : Option Nat :=
  if '0' ≤ c ∧ c ≤ '9' then some (c.toNat - 48) else none

/-- The value of a hexadecimal digit, either case. -/
def hexDigit? (c : Char) : Option Nat :=
  if '0' ≤ c ∧ c ≤ '9' then some (c.toNat - 48)
  else if 'a' ≤ c ∧ c ≤ 'f' then some (c.toNat - 87)
  else if 'A' ≤ c ∧ c ≤ 'F' then some (c.toNat - 55)
  else none

/-! ## Strings as lists of characters -/

/-- `text.strip()`. -/
def strip (s : List Char) : List Char :=
  ((s.dropWhile isSpace).reverse.dropWhile isSpace).reverse

/-- `text.lower()`. -/
def lower (s : List Char) : List Char := s.map lowerChar

/-- `text.split(sep)` for a one-character separator. -/
def split (sep : Char) : List Char → List (List Char)
  | [] => [[]]
  | c :: cs =>
    if c = sep then [] :: split sep cs
    else
      match split sep cs with
      | [] => [[c]]
      | w :: ws => (c :: w) :: ws

/-! ## Integers -/

/-- A positive number prints without a zero in front. -/
theorem head?_toDigits_ne_zero (m : Nat) (hm : 0 < m) : (Nat.toDigits 10 m).head? ≠ some '0' := by
  induction m using Nat.strongRecOn with
  | ind m ih =>
    by_cases hlt : m < 10
    · have hdigits : ∀ m < 10, 0 < m → [m.digitChar].head? ≠ some '0' := by decide
      rw [Nat.toDigits_of_lt_base hlt]
      exact hdigits m hlt hm
    · rw [Nat.toDigits_of_base_le (by decide) (Nat.le_of_not_lt hlt),
        List.head?_append_of_ne_nil _ Nat.toDigits_ne_nil]
      exact ih (m / 10) (by omega) (by omega)

/-- The longest accepted decimal literal: longer ones make `int()` raise `ValueError`. -/
def maxDecimalDigits : Nat := 4300

/-- Read a digit string in the given base; every character must be a digit. -/
def readDigits (digit? : Char → Option Nat) (base : Nat) (acc : Nat) : List Char → Option Nat
  | [] => some acc
  | c :: cs =>
    match digit? c with
    | some d => readDigits digit? base (base * acc + d) cs
    | none => none

/-- Drop the single underscores Python allows after a digit of a literal: `none` when one stands
first, last, or next to another. The flag says whether an underscore may come next. -/
def dropUnderscores : Bool → List Char → Option (List Char)
  | true, [] => some []
  | false, [] => none
  | may, c :: cs =>
    if c = '_' then
      if may then dropUnderscores false cs else none
    else (dropUnderscores true cs).map fun rest => c :: rest

/-- Split an optional sign off. -/
def takeSign : List Char → Int × List Char
  | '+' :: cs => (1, cs)
  | '-' :: cs => (-1, cs)
  | cs => (1, cs)

/-- `int(text, 10)` on a string of digits without a sign. -/
def decimal? (s : List Char) : Option Nat :=
  if s = [] ∨ maxDecimalDigits < s.length then none else readDigits decDigit? 10 0 s

/-- `int(text)`. -/
def pyInt (s : List Char) : Option Int :=
  let (sign, digits) := takeSign (strip s)
  (dropUnderscores false digits).bind fun ds => (decimal? ds).map fun n => sign * n

/-- `int(text, 16)` after the `0x` prefix, which itself may be followed by an underscore. -/
def hexLiteral? (s : List Char) : Option Nat :=
  match dropUnderscores true s with
  | none | some [] => none
  | some ds => readDigits hexDigit? 16 0 ds

/-- `strtoint`: a decimal or hexadecimal number, `0` for a blank text, and `none` where the
source returns the text itself. -/
def strtoint (val : List Char) : Option Int :=
  match strip (lower val) with
  | [] => some 0
  | 'x' :: cs => (hexLiteral? cs).map Int.ofNat
  | '0' :: 'x' :: cs => (hexLiteral? cs).map Int.ofNat
  | s =>
    let (sign, digits) := takeSign s
    (decimal? digits).map fun n => sign * n

example : strtoint "0x28".toList = some 40 := by decide
example : strtoint "40_41".toList = none := by decide

/-! ## Stripping and lowering -/

/-- Lowering changes latin-1 characters only. -/
theorem lowerChar_cases {P : Char → Prop} (latin : ∀ n < 256, P (Char.ofNat n))
    (fixed : ∀ c, lowerChar c = c → P c) (c : Char) : P c := by
  by_cases hc : c.toNat < 256
  · rw [← Char.ofNat_toNat c]
    exact latin c.toNat hc
  · refine fixed c ?_
    rw [lowerChar]
    refine if_neg ?_
    simp only [Bool.or_eq_true, Bool.and_eq_true, decide_eq_true_eq]
    omega

/-- Lowering makes no blanks. -/
theorem isSpace_lowerChar (c : Char) : isSpace (lowerChar c) = isSpace c :=
  lowerChar_cases (P := fun c => isSpace (lowerChar c) = isSpace c) (by decide +kernel)
    (fun c hc => by rw [hc]) c

/-- No lowered character is an upper-case one. -/
theorem lowerChar_lowerChar (c : Char) : lowerChar (lowerChar c) = lowerChar c :=
  lowerChar_cases (P := fun c => lowerChar (lowerChar c) = lowerChar c) (by decide +kernel)
    (fun c hc => by rw [hc, hc]) c

theorem lower_lower (s : List Char) : lower (lower s) = lower s := by
  rw [lower, lower, List.map_map]
  exact List.map_congr_left fun c _ => lowerChar_lowerChar c

theorem strip_eq_trim (s : List Char) : strip s = Trim.trim isSpace s := rfl

theorem strip_strip (s : List Char) : strip (strip s) = strip s := by
  rw [strip_eq_trim, strip_eq_trim, Trim.trim_trim]

theorem strip_lower (s : List Char) : strip (lower s) = lower (strip s) := by
  have hdrop (s : List Char) : (s.map lowerChar).dropWhile isSpace =
      (s.dropWhile isSpace).map lowerChar := by
    rw [List.dropWhile_map]
    congr 2
    funext c
    exact isSpace_lowerChar c
  rw [strip, strip, lower, lower, hdrop, ← List.map_reverse, hdrop, List.map_reverse]

end Text

/-- `text.lower()`. -/
def lowerText (s : String) : String := String.ofList (Text.lower s.toList)

end ProtocolGateway
