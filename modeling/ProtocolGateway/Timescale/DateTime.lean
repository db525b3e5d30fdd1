import Mathlib.Algebra.Ring.Nat
import ProtocolGateway.Text

/-!
# Time stamps and their text

An aware `datetime`, its instant, and the text the backlog journal stores it as: `str(t)` is
written to the `m_time` column and `datetime.fromisoformat` reads it back. `fromIsoFormat` reads
the texts `str` writes and rejects others; the further ISO 8601 forms Python accepts are never
written to that column.

`fromIsoFormat_str`: the text denotes the time stamp it was made from, offset included.
-/

namespace ProtocolGateway

/-! ## Decimal digits -/

namespace Text

/-- `"%0*d" % (width, n)`, for a number of at most `width` digits. -/
def pad : Nat → Nat → List Char
  | 0, _ => []
  | width + 1, n => pad width (n / 10) ++ [Nat.digitChar (n % 10)]

/-- `int(digits)`. -/
def digits (s : List Char) : Option Nat := readDigits decDigit? 10 0 s

theorem readDigits_append (s : List Char) (c : Char) (acc : Nat) :
    readDigits decDigit? 10 acc (s ++ [c]) =
      (readDigits decDigit? 10 acc s).bind fun n => (decDigit? c).map fun d => 10 * n + d := by
  induction s generalizing acc with
  | nil => cases h : decDigit? c <;> simp [readDigits, h]
  | cons a s ih =>
    cases h : decDigit? a with
    | none => simp [readDigits, h]
    | some d => simpa [readDigits, h] using ih (10 * acc + d)

theorem decDigit?_digitChar {d : Nat} (h : d < 10) : decDigit? (Nat.digitChar d) = some d := by
  revert d
  decide

/-- The padded digits of a number denote it. -/
theorem digits_pad {width n : Nat} (h : n < 10 ^ width) : digits (pad width n) = some n := by
  induction width generalizing n with
  | zero =>
    have : n = 0 := by simpa using h
    subst this
    rfl
  | succ width ih =>
    have hq : n / 10 < 10 ^ width := by
      rw [Nat.pow_succ] at h
      exact Nat.div_lt_of_lt_mul (by omega)
    have hpad : digits (pad width (n / 10)) = some (n / 10) := ih hq
    rw [pad, digits, readDigits_append]
    rw [digits] at hpad
    rw [hpad, decDigit?_digitChar (Nat.mod_lt _ (by decide))]
    simp only [Option.bind_some, Option.map_some, Option.some.injEq]
    omega

end Text

/-! ## The calendar -/

/-- `calendar.isleap`. -/
def isLeap (year : Nat) : Bool := year % 4 = 0 ∧ (year % 100 ≠ 0 ∨ year % 400 = 0)

/-- The days of the months of a year without a leap day. -/
def monthDays : List Nat := [31, 28, 31, 30, 31, 30, 31, 31, 30, 31, 30, 31]

/-- `_days_in_month(year, month)`. -/
def daysInMonth (year month : Nat) : Nat :=
  if month = 2 ∧ isLeap year then 29 else monthDays.getD (month - 1) 0

theorem daysInMonth_le (year month : Nat) : daysInMonth year month ≤ 31 := by
  unfold daysInMonth
  split
  · decide
  · by_cases h : month - 1 < 12
    · generalize month - 1 = m at h
      revert m
      decide
    · have hnone : monthDays[month - 1]? = none :=
        List.getElem?_eq_none (by simpa [monthDays] using h)
      rw [List.getD_eq_getElem?_getD, hnone]
      decide

/-- The microseconds of a day. -/
def dayMicroseconds : Nat := 86400000000

/-- What the constructor of `datetime` checks; `utcoffset()` is strictly within a day. -/
structure ValidTime (year month day hour minute second microsecond : Nat) (offset : Int) : Prop where
  year_pos : 1 ≤ year
  year_le : year ≤ 9999
  month_pos : 1 ≤ month
  month_le : month ≤ 12
  day_pos : 1 ≤ day
  day_le : day ≤ daysInMonth year month
  hour_lt : hour < 24
  minute_lt : minute < 60
  second_lt : second < 60
  microsecond_lt : microsecond < 1000000
  offset_lt : offset.natAbs < dayMicroseconds

/-- An aware `datetime`. -/
structure DateTime where
  year : Nat
  month : Nat
  day : Nat
  hour : Nat
  minute : Nat
  second : Nat
  microsecond : Nat
  /-- `utcoffset()` in microseconds -/
  offset : Int
  valid : ValidTime year month day hour minute second microsecond offset

namespace DateTime

/-- `toordinal()`: the days up to and including this one, the first of January of year 1 being 1. -/
def toordinal (t : DateTime) : Nat :=
  let y := t.year - 1
  y * 365 + y / 4 - y / 100 + y / 400 +
    ((List.range (t.month - 1)).map fun m => daysInMonth t.year (m + 1)).sum + t.day

/-- The microseconds of the wall clock since the start of year 1. -/
def wall (t : DateTime) : Int :=
  (((((t.toordinal - 1) * 24 + t.hour) * 60 + t.minute) * 60 + t.second) * 1000000 + t.microsecond :
    Nat)

/-- The instant a time stamp denotes: what `<` compares. -/
def instant (t : DateTime) : Int := t.wall - t.offset

/-! ## Text -/

/-- The microseconds of a time, written unless they are zero. -/
def fractionText (microsecond : Nat) : List Char :=
  if microsecond = 0 then [] else '.' :: Text.pad 6 microsecond

/-- `_format_offset`. -/
def offsetText (offset : Int) : List Char :=
  let second := offset.natAbs / 1000000 % 60
  let microsecond := offset.natAbs % 1000000
  (if offset < 0 then '-' else '+') ::
    (Text.pad 2 (offset.natAbs / 3600000000) ++ ':' ::
      (Text.pad 2 (offset.natAbs / 60000000 % 60) ++
        if second = 0 ∧ microsecond = 0 then []
        else ':' :: (Text.pad 2 second ++ fractionText microsecond)))

/-- `str(t)`, which is `t.isoformat(' ')`. -/
def str (t : DateTime) : List Char :=
  Text.pad 4 t.year ++ '-' :: (Text.pad 2 t.month ++ '-' :: (Text.pad 2 t.day ++ ' ' ::
    (Text.pad 2 t.hour ++ ':' :: (Text.pad 2 t.minute ++ ':' :: (Text.pad 2 t.second ++
      (fractionText t.microsecond ++ offsetText t.offset))))))

/-- The fraction of a second, and what follows it. -/
def readFraction : List Char → Option (Nat × List Char)
  | '.' :: rest => (Text.digits (rest.take 6)).map fun us => (us, rest.drop 6)
  | rest => some (0, rest)

/-- The sign of an offset: is it west of UTC? -/
def readSign (c : Char) : Option Bool :=
  if c = '-' then some true else if c = '+' then some false else none

/-- An offset from its sign and its parts. -/
def offsetOf (negative : Bool) (hours minutes seconds us : Nat) : Int :=
  let magnitude := ((hours * 60 + minutes) * 60 + seconds) * 1000000 + us
  if negative then -magnitude else magnitude

/-- The offset from UTC at the end of a text. -/
def readOffset : List Char → Option Int
  | sign :: h₁ :: h₂ :: ':' :: m₁ :: m₂ :: rest => do
    let negative ← readSign sign
    let hours ← Text.digits [h₁, h₂]
    let minutes ← Text.digits [m₁, m₂]
    match rest with
    | [] => some (offsetOf negative hours minutes 0 0)
    | ':' :: s₁ :: s₂ :: rest => do
      let seconds ← Text.digits [s₁, s₂]
      let (us, rest) ← readFraction rest
      if rest = [] then some (offsetOf negative hours minutes seconds us) else none
    | _ => none
  | _ => none

instance (year month day hour minute second microsecond : Nat) (offset : Int) :
    Decidable (ValidTime year month day hour minute second microsecond offset) :=
  decidable_of_iff
    ((1 ≤ year ∧ year ≤ 9999) ∧ (1 ≤ month ∧ month ≤ 12) ∧
      (1 ≤ day ∧ day ≤ daysInMonth year month) ∧ hour < 24 ∧ minute < 60 ∧ second < 60 ∧
      microsecond < 1000000 ∧ offset.natAbs < dayMicroseconds)
    ⟨fun ⟨⟨a, b⟩, ⟨c, d⟩, ⟨e, f⟩, g, h, i, j, k⟩ => ⟨a, b, c, d, e, f, g, h, i, j, k⟩,
      fun ⟨a, b, c, d, e, f, g, h, i, j, k⟩ => ⟨⟨a, b⟩, ⟨c, d⟩, ⟨e, f⟩, g, h, i, j, k⟩⟩

/-- `datetime.fromisoformat(text)`, `none` for the `ValueError`. -/
def fromIsoFormat : List Char → Option DateTime
  | y₁ :: y₂ :: y₃ :: y₄ :: '-' :: mo₁ :: mo₂ :: '-' :: d₁ :: d₂ :: _ :: h₁ :: h₂ :: ':' ::
      mi₁ :: mi₂ :: ':' :: s₁ :: s₂ :: rest => do
    let year ← Text.digits [y₁, y₂, y₃, y₄]
    let month ← Text.digits [mo₁, mo₂]
    let day ← Text.digits [d₁, d₂]
    let hour ← Text.digits [h₁, h₂]
    let minute ← Text.digits [mi₁, mi₂]
    let second ← Text.digits [s₁, s₂]
    let (us, rest) ← readFraction rest
    let offset ← readOffset rest
    if valid : ValidTime year month day hour minute second us offset then
      some ⟨year, month, day, hour, minute, second, us, offset, valid⟩
    else none
  | _ => none

/-! ## The text denotes the time stamp -/

/-- A fraction is read back, whatever follows it, as long as that does not start with a point. -/
theorem readFraction_fractionText {us : Nat} (h : us < 1000000) {rest : List Char}
    (hrest : rest.head? ≠ some '.') : readFraction (fractionText us ++ rest) = some (us, rest) := by
  unfold fractionText
  split
  · next hzero =>
    subst hzero
    rw [List.nil_append]
    match rest, hrest with
    | [], _ => rfl
    | c :: cs, hc =>
      have hne : c ≠ '.' := fun heq => hc (by rw [heq]; rfl)
      rw [readFraction]
      simpa using hne
  · have hlen : (Text.pad 6 us).length = 6 := by simp [Text.pad]
    rw [List.cons_append, readFraction, List.take_left' hlen, List.drop_left' hlen,
      Text.digits_pad h]
    rfl

/-- Two padded digits, one by one. -/
theorem pad_two (n : Nat) :
    Text.pad 2 n = [Nat.digitChar (n / 10 % 10), Nat.digitChar (n % 10)] := rfl

/-- Four padded digits, one by one. -/
theorem pad_four (n : Nat) :
    Text.pad 4 n = [Nat.digitChar (n / 10 / 10 / 10 % 10), Nat.digitChar (n / 10 / 10 % 10),
      Nat.digitChar (n / 10 % 10), Nat.digitChar (n % 10)] := rfl

/-- The parts of an offset are read back. -/
theorem readOffset_cons {sign : Char} {negative : Bool} {hours minutes seconds us : Nat}
    (hsign : readSign sign = some negative) (hhours : hours < 10 ^ 2) (hminutes : minutes < 10 ^ 2)
    (hseconds : seconds < 10 ^ 2) (hus : us < 1000000) :
    readOffset (sign :: (Text.pad 2 hours ++ ':' :: (Text.pad 2 minutes ++
      if seconds = 0 ∧ us = 0 then [] else ':' :: (Text.pad 2 seconds ++ fractionText us)))) =
      some (offsetOf negative hours minutes seconds us) := by
  have hh := Text.digits_pad hhours
  have hm := Text.digits_pad hminutes
  have hs := Text.digits_pad hseconds
  have hfraction : readFraction (fractionText us) = some (us, []) := by
    have hnil : ([] : List Char).head? ≠ some '.' := by simp
    simpa using readFraction_fractionText hus hnil
  rw [pad_two] at hh hm hs
  rw [pad_two, pad_two, pad_two]
  simp only [List.cons_append, List.nil_append, readOffset, hsign, hh, hm]
  by_cases hzero : seconds = 0 ∧ us = 0
  · obtain ⟨rfl, rfl⟩ := hzero
    simp
  · simp [if_neg hzero, hs, hfraction]

/-- An offset is read back. -/
theorem readOffset_offsetText {offset : Int} (h : offset.natAbs < dayMicroseconds) :
    readOffset (offsetText offset) = some offset := by
  rw [dayMicroseconds] at h
  have hsign : readSign (if offset < 0 then '-' else '+') = some (decide (offset < 0)) := by
    by_cases hneg : offset < 0 <;> simp [readSign, hneg]
  rw [offsetText, readOffset_cons hsign (by omega) (by omega) (by omega) (by omega)]
  have hmagnitude : ((offset.natAbs / 3600000000 * 60 + offset.natAbs / 60000000 % 60) *
      60 + offset.natAbs / 1000000 % 60) * 1000000 + offset.natAbs % 1000000 = offset.natAbs := by
    omega
  rw [offsetOf, hmagnitude]
  by_cases hneg : offset < 0
  · rw [if_pos (by simpa using hneg)]
    exact congrArg some (by omega)
  · rw [if_neg (by simpa using hneg)]
    exact congrArg some (by omega)

/-- **A time stamp survives the journal.** -/
theorem fromIsoFormat_str (t : DateTime) : fromIsoFormat t.str = some t := by
  have hdayle : t.day ≤ 31 := Nat.le_trans t.valid.day_le (daysInMonth_le _ _)
  have hyear := Text.digits_pad (show t.year < 10 ^ 4 by have := t.valid.year_le; omega)
  have hmonth := Text.digits_pad (show t.month < 10 ^ 2 by have := t.valid.month_le; omega)
  have hday := Text.digits_pad (show t.day < 10 ^ 2 by omega)
  have hhour := Text.digits_pad (show t.hour < 10 ^ 2 by have := t.valid.hour_lt; omega)
  have hminute := Text.digits_pad (show t.minute < 10 ^ 2 by have := t.valid.minute_lt; omega)
  have hsecond := Text.digits_pad (show t.second < 10 ^ 2 by have := t.valid.second_lt; omega)
  have hoffset : (offsetText t.offset).head? ≠ some '.' := by
    rw [offsetText, List.head?_cons]
    split <;> simp
  rw [pad_four] at hyear
  rw [pad_two] at hmonth hday hhour hminute hsecond
  rw [str, pad_four, pad_two, pad_two, pad_two, pad_two, pad_two]
  simp only [List.cons_append, List.nil_append, fromIsoFormat, hyear, hmonth, hday, hhour, hminute,
    hsecond, readFraction_fractionText t.valid.microsecond_lt hoffset,
    readOffset_offsetText t.valid.offset_lt, Option.bind_eq_bind, Option.bind_some, dif_pos t.valid]

end DateTime

end ProtocolGateway
