/-!
# Moments

A moment is a day of the Gregorian calendar, counted backwards before its introduction and
through year zero, with a time of day down to nanoseconds and no time zone.  What a second holds
beyond its first thousand million nanoseconds is a leap second.  A clock counts it as the second
behind its own, which is second 60 at the end of a minute.

* `Moment.clockSecond`, `Moment.atClockSecond` -- the second that a clock shows, and back;
* `Moment.compare_eq_iff` -- moments compare equal only when they are the same.
-/

namespace FormulaEngine

/-- Whether a year has a 29th of February. -/
def isLeapYear (year : Int) : Bool :=
  year % 4 == 0 && (year % 100 != 0 || year % 400 == 0)

/-- The number of days of a month. -/
def daysInMonth (year : Int) (month : Nat) : Nat :=
  if month = 2 then (if isLeapYear year then 29 else 28)
  else if month ∈ [4, 6, 9, 11] then 30
  else 31

/-- A point in time without a time zone. -/
structure Moment where
  year : Int
  month : Nat
  day : Nat
  hour : Nat
  minute : Nat
  second : Nat
  /-- of the second, and of the leap second behind it -/
  nanosecond : Nat
deriving DecidableEq, Repr

namespace Moment

/-- The fields name a day of the supported years and a time of day. -/
structure Valid (m : Moment) : Prop where
  year_ge : -262143 ≤ m.year
  year_le : m.year ≤ 262142
  month_pos : 1 ≤ m.month
  month_le : m.month ≤ 12
  day_pos : 1 ≤ m.day
  day_le : m.day ≤ daysInMonth m.year m.month
  hour_lt : m.hour < 24
  minute_lt : m.minute < 60
  second_lt : m.second < 60
  nanosecond_lt : m.nanosecond < 2000000000

theorem valid_iff {m : Moment} :
    m.Valid ↔ -262143 ≤ m.year ∧ m.year ≤ 262142 ∧ 1 ≤ m.month ∧ m.month ≤ 12 ∧ 1 ≤ m.day ∧
      m.day ≤ daysInMonth m.year m.month ∧ m.hour < 24 ∧ m.minute < 60 ∧ m.second < 60 ∧
      m.nanosecond < 2000000000 :=
  ⟨fun h => ⟨h.1, h.2, h.3, h.4, h.5, h.6, h.7, h.8, h.9, h.10⟩,
    fun ⟨a, b, c, d, e, f, g, h, i, j⟩ => ⟨a, b, c, d, e, f, g, h, i, j⟩⟩

instance (m : Moment) : Decidable m.Valid := decidable_of_iff _ valid_iff.symm

/-- The second that a clock shows. -/
def clockSecond (m : Moment) : Nat := m.second + m.nanosecond / 1000000000

/-- The moment at which a clock comes to a second in the same minute. -/
def atClockSecond (m : Moment) (n : Nat) : Moment :=
  if n = 60 then { m with second := 59, nanosecond := 1000000000 }
  else { m with second := n, nanosecond := 0 }

/-- The earlier of two moments is the one with the smaller first differing field. -/
def compare (a b : Moment) : Ordering :=
  (Ord.compare a.year b.year).then <| (Ord.compare a.month b.month).then <|
  (Ord.compare a.day b.day).then <| (Ord.compare a.hour b.hour).then <|
  (Ord.compare a.minute b.minute).then <| (Ord.compare a.second b.second).then <|
  Ord.compare a.nanosecond b.nanosecond

instance : Ord Moment := ⟨compare⟩

/-- Moments compare equal only when they are the same. -/
theorem compare_eq_iff {a b : Moment} : a.compare b = .eq ↔ a = b := by
  cases a
  cases b
  simp [compare, Ordering.then_eq_eq]

end Moment

end FormulaEngine
