import ProtocolGateway.Lib.Buckets
import ProtocolGateway.Timescale.DateTime
import ProtocolGateway.Timescale.RollupViews

/-!
# The refresh of the rollups after a metric edit

`edit_metric_values` changes the raw rows of a range and then has every rollup view of the table
refreshed over the range. The database refreshes the buckets that lie wholly inside the window it is
given, so the window must reach from the start of the first bucket the range touches to the end of
the last one. `_widen_window_to_buckets` grows a short range around its middle and hands a long one
on as it is, without a look at where the buckets begin.

A `datetime` is the microseconds of its wall clock since the start of year 1; the time zone gives
each wall clock its UTC offset, and both ends of a range carry the zone of the machine. Arithmetic
on such a `datetime` works on the wall clock.

`refreshes_iff`: the edits the views follow.
-/

namespace ProtocolGateway

namespace Timescale

/-! ## The width of a bucket -/

/-- The bucket widths of `rollup_defaults`. -/
def rollupDefaults : List (List Char × List Char) :=
  [("hourly_rollup_bucket".toList, "1 hour".toList),
    ("daily_rollup_bucket".toList, "1 day".toList),
    ("weekly_rollup_bucket".toList, "1 week".toList),
    ("monthly_rollup_bucket".toList, "1 month".toList)]

/-- `_bucket_interval_for_view`. -/
def bucketIntervalForView (viewName : List Char) : List Char :=
  match Granularity.all.find? fun g => g.mark.isPrefixOf viewName with
  | some g => (rollupDefaults.lookup (g.mark ++ "rollup_bucket".toList)).getD "1 hour".toList
  | none => "1 hour".toList

/-- `_INTERVAL_UNIT_HOURS`. -/
def intervalUnitHours : List (List Char × Int) :=
  [("hour".toList, 1), ("hours".toList, 1), ("day".toList, 24), ("days".toList, 24),
    ("week".toList, 168), ("weeks".toList, 168), ("month".toList, 720), ("months".toList, 720)]

/-- `interval_str.strip().split()`. -/
def intervalParts (interval : List Char) : List (List Char) :=
  (interval.splitOnP Text.isSpace).filter fun part => part ≠ []

/-- `parse_interval_to_hours_helper`, for the whole numbers the configured widths are written
with. -/
def parseIntervalToHours (interval : List Char) : Int :=
  match intervalParts interval with
  | [number, unit] =>
    match Text.pyInt number, intervalUnitHours.lookup (Text.lower unit) with
    | some value, some hoursPerUnit => value * hoursPerUnit
    | _, _ => 0
  | _ => 0

/-! ## The window -/

/-- The microseconds of an hour. -/
def hourMicroseconds : Int := 3600000000

/-- `timedelta / 2`: to the nearest microsecond, a tie to the even one. -/
def half (delta : Int) : Int :=
  if delta % 2 = 1 ∧ delta / 2 % 2 = 1 then delta / 2 + 1 else delta / 2

/-- The first wall clock no `datetime` shows: the start of year 10000. -/
def maxWall : Int := 3652059 * dayMicroseconds

/-- A `datetime`, by the microseconds of its wall clock since the start of year 1. -/
structure WallTime where
  wall : Int
  wall_nonneg : 0 ≤ wall
  wall_lt : wall < maxWall
  deriving DecidableEq, Repr

/-- `t + delta`, `none` for the `OverflowError`. -/
def WallTime.shift (t : WallTime) (delta : Int) : Option WallTime :=
  if h : 0 ≤ t.wall + delta ∧ t.wall + delta < maxWall then some ⟨t.wall + delta, h.1, h.2⟩
  else none

/-- `_widen_window_to_buckets` with its default of two buckets. -/
def widenWindowToBuckets (startTime endTime : WallTime) (bucketInterval : List Char) :
    Option (WallTime × WallTime) :=
  let bucketHours := parseIntervalToHours bucketInterval
  if bucketHours ≤ 0 then some (startTime, endTime)
  else
    let minSpan := bucketHours * 2 * hourMicroseconds
    let span := endTime.wall - startTime.wall
    if minSpan ≤ span then some (startTime, endTime)
    else
      let pad := half (minSpan - span)
      (startTime.shift (-pad)).bind fun a => (endTime.shift pad).map fun b => (a, b)

/-- The time zone of the machine: the UTC offset of each wall clock. -/
abbrev Zone := Int → Int

/-- The zone without an offset. -/
def utc : Zone := fun _ => 0

/-- The instant a `datetime` denotes. -/
def Zone.instant (zone : Zone) (t : WallTime) : Int := t.wall - zone t.wall

/-- `refresh_view_range`: the instants of the window passed to `refresh_continuous_aggregate`. -/
def refreshViewRange (zone : Zone) (viewName : List Char) (startTime endTime : WallTime) :
    Option (Int × Int) :=
  (widenWindowToBuckets startTime endTime (bucketIntervalForView viewName)).map fun window =>
    (zone.instant window.1, zone.instant window.2)

/-! ## The views follow the edit -/

/-- The width of a view's buckets as the code counts it, a month as thirty days. -/
def Granularity.width : Granularity → Int
  | .hourly => hourMicroseconds
  | .daily => 24 * hourMicroseconds
  | .weekly => 168 * hourMicroseconds
  | .monthly => 720 * hourMicroseconds

theorem Granularity.width_pos (g : Granularity) : 0 < g.width := by cases g <;> decide

/-- The configured widths are read as they are meant. -/
theorem parseIntervalToHours_viewName (g : Granularity) (rollupPrefix : List Char) :
    parseIntervalToHours (bucketIntervalForView (viewName g rollupPrefix)) * hourMicroseconds =
      g.width := by
  cases g <;> rfl

variable (zone : Zone) (buckets : Buckets Int)

/-- Every bucket of the view that holds an instant of the edited range lies wholly in the window
passed to the database. -/
def Refreshes (viewName : List Char) (startTime endTime : WallTime) : Prop :=
  ∃ a b, refreshViewRange zone viewName startTime endTime = some (a, b) ∧
    ∀ t, zone.instant startTime ≤ t → t ≤ zone.instant endTime → buckets.Within a b t

/-- Half of what a range falls short of two buckets. -/
def slack (g : Granularity) (startTime endTime : WallTime) : Int :=
  half (2 * g.width - (endTime.wall - startTime.wall))

/-- The range is shorter than two buckets, and half of what it falls short of them reaches from its
start back to the start of its first bucket and from its end on to the end of its last one. -/
structure Reaches (g : Granularity) (startTime endTime : WallTime) : Prop where
  short : endTime.wall - startTime.wall < 2 * g.width
  first : ∃ a, startTime.shift (-slack g startTime endTime) = some a ∧
    zone.instant a ≤ buckets.start (zone.instant startTime)
  last : ∃ b, endTime.shift (slack g startTime endTime) = some b ∧
    buckets.stop (zone.instant endTime) ≤ zone.instant b

/-- The window of a view: a long range as it is, a short one with its slack on both sides. -/
theorem widenWindowToBuckets_viewName (g : Granularity) (rollupPrefix : List Char)
    (startTime endTime : WallTime) :
    widenWindowToBuckets startTime endTime (bucketIntervalForView (viewName g rollupPrefix)) =
      if 2 * g.width ≤ endTime.wall - startTime.wall then some (startTime, endTime)
      else
        (startTime.shift (-slack g startTime endTime)).bind fun a =>
          (endTime.shift (slack g startTime endTime)).map fun b => (a, b) := by
  have hwidth := parseIntervalToHours_viewName g rollupPrefix
  have hpos := g.width_pos
  have hhours : ¬ parseIntervalToHours (bucketIntervalForView (viewName g rollupPrefix)) ≤ 0 := by
    rw [hourMicroseconds] at hwidth
    omega
  have hspan : parseIntervalToHours (bucketIntervalForView (viewName g rollupPrefix)) * 2 *
      hourMicroseconds = 2 * g.width := by
    rw [← hwidth, Int.mul_comm _ 2, Int.mul_assoc]
  simp only [widenWindowToBuckets, if_neg hhours, hspan, slack]

theorem refreshes_iff_reaches (g : Granularity) (rollupPrefix : List Char)
    {startTime endTime : WallTime} (h : zone.instant startTime ≤ zone.instant endTime) :
    Refreshes zone buckets (viewName g rollupPrefix) startTime endTime ↔
      Reaches zone buckets g startTime endTime := by
  rw [Refreshes, refreshViewRange, widenWindowToBuckets_viewName]
  by_cases hlong : 2 * g.width ≤ endTime.wall - startTime.wall
  · -- The window ends with the range, before the end of the last bucket.
    rw [if_pos hlong]
    constructor
    · rintro ⟨a, b, hwindow, hwithin⟩
      cases hwindow
      exact absurd (hwithin _ h (Int.le_refl _)) buckets.not_within_self
    · intro hreach
      have := hreach.short
      omega
  · rw [if_neg hlong]
    constructor
    · rintro ⟨a, b, hwindow, hwithin⟩
      rw [buckets.within_iff h] at hwithin
      cases ha : startTime.shift (-slack g startTime endTime) with
      | none => simp [ha] at hwindow
      | some first =>
        cases hb : endTime.shift (slack g startTime endTime) with
        | none => simp [ha, hb] at hwindow
        | some last =>
          simp only [ha, hb, Option.bind_some, Option.map_some, Option.some.injEq,
            Prod.mk.injEq] at hwindow
          obtain ⟨rfl, rfl⟩ := hwindow
          exact ⟨by omega, ⟨first, ha, hwithin.1⟩, ⟨last, hb, hwithin.2⟩⟩
    · rintro ⟨-, ⟨first, ha, hfirst⟩, ⟨last, hb, hlast⟩⟩
      refine ⟨zone.instant first, zone.instant last, by simp [ha, hb], ?_⟩
      exact (buckets.within_iff h).mpr ⟨hfirst, hlast⟩

/-! ## Buckets of the width the code counts with -/

/-- The range lies in one bucket. -/
def OneBucket (startTime endTime : WallTime) : Prop :=
  buckets.start (zone.instant startTime) = buckets.start (zone.instant endTime)

/-- The range crosses one boundary and lies as far before it as behind it, to the microsecond the
half of an odd number of microseconds is rounded up by. -/
def Mirrored (startTime endTime : WallTime) : Prop :=
  let boundary := buckets.start (zone.instant endTime)
  let off := zone.instant startTime + zone.instant endTime - 2 * boundary
  buckets.stop (zone.instant startTime) = boundary ∧
    (off = 0 ∨ off.natAbs = 1 ∧ (endTime.wall - startTime.wall) % 4 = 1)

theorem width_dvd (g : Granularity) : 4 ∣ g.width := by cases g <;> decide

/-- Half of an even number is exact, half of an odd number is rounded up where that gives an even
number. -/
theorem two_mul_half (d : Int) :
    2 * half d = if d % 4 = 3 then d + 1 else if d % 2 = 1 then d - 1 else d := by
  unfold half
  split_ifs <;> omega

/-- Of two distances that add up to a number, neither exceeds half of it exactly when they are
equal, or a microsecond apart and the half is rounded up. -/
theorem le_half_iff {x y d : Int} (h : x + y = d) :
    x ≤ half d ∧ y ≤ half d ↔ x = y ∨ (x - y).natAbs = 1 ∧ d % 4 = 3 := by
  have := two_mul_half d
  split_ifs at this <;> omega

variable {zone buckets}

theorem shift_eq_some {t : WallTime} {delta : Int} (h : 0 ≤ t.wall + delta)
    (h' : t.wall + delta < maxWall) : t.shift delta = some ⟨t.wall + delta, h, h'⟩ :=
  dif_pos ⟨h, h'⟩

/-- With one offset and room in the calendar, the slack is compared with the distances of the range
from the ends of its first and last bucket. -/
theorem reaches_iff_distances {g : Granularity} {offset : Int} {startTime endTime : WallTime}
    (hzone : zone = fun _ => offset) (h : startTime.wall ≤ endTime.wall)
    (hroom : g.width ≤ startTime.wall) (hroom' : endTime.wall + g.width < maxWall) :
    Reaches zone buckets g startTime endTime ↔
      endTime.wall - startTime.wall < 2 * g.width ∧
        zone.instant startTime - buckets.start (zone.instant startTime) ≤
          slack g startTime endTime ∧
        buckets.stop (zone.instant endTime) - zone.instant endTime ≤ slack g startTime endTime := by
  subst hzone
  have hhalf := two_mul_half (2 * g.width - (endTime.wall - startTime.wall))
  rw [← slack] at hhalf
  have hinstant : ∀ t : WallTime, Zone.instant (fun _ => offset) t = t.wall - offset := fun _ => rfl
  have hlt := startTime.wall_lt
  have hnonneg := endTime.wall_nonneg
  -- A range shorter than two buckets has slack of at most one bucket on either side.
  have hshift (hshort : endTime.wall - startTime.wall < 2 * g.width) :
      (∃ a, startTime.shift (-slack g startTime endTime) = some a ∧
        a.wall = startTime.wall - slack g startTime endTime) ∧
      ∃ b, endTime.shift (slack g startTime endTime) = some b ∧
        b.wall = endTime.wall + slack g startTime endTime := by
    have hslack : 0 ≤ slack g startTime endTime ∧ slack g startTime endTime ≤ g.width := by
      split_ifs at hhalf <;> omega
    exact ⟨⟨_, shift_eq_some (by omega) (by omega), rfl⟩,
      ⟨_, shift_eq_some (by omega) (by omega), rfl⟩⟩
  constructor
  · rintro ⟨hshort, ⟨a, ha, hfirst⟩, ⟨b, hb, hlast⟩⟩
    obtain ⟨⟨a', ha', hwall⟩, ⟨b', hb', hwall'⟩⟩ := hshift hshort
    obtain rfl : a' = a := Option.some.inj (ha'.symm.trans ha)
    obtain rfl : b' = b := Option.some.inj (hb'.symm.trans hb)
    simp only [hinstant] at hfirst hlast ⊢
    exact ⟨hshort, by omega, by omega⟩
  · rintro ⟨hshort, hfirst, hlast⟩
    obtain ⟨⟨a, ha, hwall⟩, ⟨b, hb, hwall'⟩⟩ := hshift hshort
    simp only [hinstant] at hfirst hlast
    refine ⟨hshort, ⟨a, ha, ?_⟩, ⟨b, hb, ?_⟩⟩ <;> simp only [hinstant] <;> omega

/-- **The ranges with slack enough.** Where the zone keeps its offset, the buckets have the width
the code counts with and the calendar leaves room, the slack of a range reaches the ends of its
buckets just when it lies in one bucket or mirrors a boundary. -/
theorem reaches_iff {g : Granularity} {origin offset : Int} {startTime endTime : WallTime}
    (hbuckets : buckets = Buckets.aligned origin g.width g.width_pos)
    (hzone : zone = fun _ => offset) (h : startTime.wall ≤ endTime.wall)
    (hroom : g.width ≤ startTime.wall) (hroom' : endTime.wall + g.width < maxWall) :
    Reaches zone buckets g startTime endTime ↔
      OneBucket zone buckets startTime endTime ∨ Mirrored zone buckets startTime endTime := by
  rw [reaches_iff_distances hzone h hroom hroom', OneBucket, Mirrored]
  have hspan : endTime.wall - startTime.wall = zone.instant endTime - zone.instant startTime := by
    subst hzone
    simp only [Zone.instant]
    omega
  rw [slack, hspan]
  have hle : zone.instant startTime ≤ zone.instant endTime := by omega
  generalize zone.instant startTime = s, zone.instant endTime = e at hle
  subst hbuckets
  have hs := (Buckets.aligned origin g.width g.width_pos).start_le s
  have hs' := (Buckets.aligned origin g.width g.width_pos).lt_stop s
  have he := (Buckets.aligned origin g.width g.width_pos).start_le e
  have he' := (Buckets.aligned origin g.width g.width_pos).lt_stop e
  obtain ⟨k, hk⟩ := @Buckets.dvd_start_sub_start origin g.width g.width_pos s e
  rw [Buckets.aligned_stop] at hs' he'
  rw [Buckets.aligned_stop, Buckets.aligned_stop]
  generalize (Buckets.aligned origin g.width g.width_pos).start s = bs,
    (Buckets.aligned origin g.width g.width_pos).start e = be at *
  have hwidth := width_dvd g
  have hhalf := two_mul_half (2 * g.width - (e - s))
  -- The boundaries crossed by the range: none, one, or several.
  have hcases : k ≤ -1 ∨ k = 0 ∨ k = 1 ∨ 2 ≤ k := by omega
  rcases hcases with hneg | rfl | rfl | hmany
  · have : g.width * k ≤ g.width * -1 := Int.mul_le_mul_of_nonneg_left hneg (by omega)
    omega
  · refine iff_of_true ⟨by omega, ?_⟩ (Or.inl (by omega))
    split_ifs at hhalf <;> omega
  · have hsum : (s - bs) + (be + g.width - e) = 2 * g.width - (e - s) := by omega
    rw [le_half_iff hsum]
    omega
  · have : g.width * 2 ≤ g.width * k := Int.mul_le_mul_of_nonneg_left hmany (by omega)
    refine iff_of_false ?_ (by omega)
    rintro ⟨hshort, hfirst, hlast⟩
    split_ifs at hhalf <;> omega

/-- **The edits a view follows.** The window of a view covers every bucket the edited range touches
exactly when the slack of the range reaches the ends of its first and last bucket. For buckets of
the width the code counts with, under one UTC offset, that is when the range lies in one bucket or
mirrors the one boundary it crosses. -/
theorem refreshes_iff (zone : Zone) (buckets : Buckets Int) (g : Granularity)
    (rollupPrefix : List Char) {startTime endTime : WallTime}
    (h : zone.instant startTime ≤ zone.instant endTime) :
    (Refreshes zone buckets (viewName g rollupPrefix) startTime endTime ↔
      Reaches zone buckets g startTime endTime) ∧
    ∀ origin offset : Int, buckets = Buckets.aligned origin g.width g.width_pos →
      (zone = fun _ => offset) → g.width ≤ startTime.wall → endTime.wall + g.width < maxWall →
      (Reaches zone buckets g startTime endTime ↔
        OneBucket zone buckets startTime endTime ∨ Mirrored zone buckets startTime endTime) := by
  refine ⟨refreshes_iff_reaches zone buckets g rollupPrefix h, ?_⟩
  intro origin offset hbuckets hzone hroom hroom'
  refine reaches_iff hbuckets hzone ?_ hroom hroom'
  subst hzone
  simp only [Zone.instant] at h
  omega

/-- Half past ten. -/
def exampleStart : WallTime := ⟨37800000000, by decide, by decide⟩

/-- One o'clock in the afternoon of the same day. -/
def exampleEnd : WallTime := ⟨46800000000, by decide, by decide⟩

theorem refreshes_iff_morning :
    utc.instant exampleStart ≤ utc.instant exampleEnd ∧
      (Refreshes utc (Buckets.aligned 0 Granularity.daily.width (by decide))
          (viewName .daily "rollup_narrow".toList) exampleStart exampleEnd ↔
        Reaches utc (Buckets.aligned 0 Granularity.daily.width (by decide)) .daily
          exampleStart exampleEnd) :=
  ⟨by decide, (refreshes_iff utc (Buckets.aligned 0 Granularity.daily.width (by decide))
    .daily "rollup_narrow".toList (show utc.instant exampleStart ≤ utc.instant exampleEnd by
      decide)).1⟩

/-- A range of two and a half hours is handed on as it is, and the hours it begins and ends in are
not refreshed. -/
theorem not_refreshes_morning :
    ¬ ∀ (zone : Zone) (buckets : Buckets Int) (g : Granularity) (rollupPrefix : List Char)
      (startTime endTime : WallTime), zone.instant startTime ≤ zone.instant endTime →
      Refreshes zone buckets (viewName g rollupPrefix) startTime endTime := by
  intro hall
  obtain ⟨a, b, hwindow, hwithin⟩ := hall utc
    (Buckets.aligned 0 Granularity.hourly.width (by decide)) .hourly "rollup_narrow".toList
    exampleStart exampleEnd (by decide)
  have hab : refreshViewRange utc (viewName .hourly "rollup_narrow".toList) exampleStart
      exampleEnd = some (37800000000, 46800000000) := by decide
  rw [hab] at hwindow
  cases hwindow
  exact absurd (hwithin 37800000000 (by decide) (by decide)).1 (by decide)

end Timescale

end ProtocolGateway
