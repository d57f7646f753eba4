/-!
# Dates and times

An `Instant` counts seconds and nanoseconds since the epoch, a `TimeOfDay` those since midnight.  The
nanoseconds of either may go up to two thousand million: a leap second is the second that follows.
A `SqlTime` is a count of milliseconds since the epoch, kept as it is; its time of day is that count
modulo a day.
-/

namespace ObjectWire

/-- A point in time. -/
structure Instant where
  /-- Seconds since the epoch, rounded down. -/
  seconds : Int
  nanos : Nat
deriving DecidableEq, Repr, Inhabited

namespace Instant

/-- Milliseconds since the epoch. -/
def millis (t : Instant) : Int64 := Int64.ofInt (t.seconds * 1000 + (t.nanos / 1000000 : Nat))

/-- The nanoseconds that the milliseconds leave out. -/
def nanosOfMilli (t : Instant) : Int32 := Int32.ofNat (t.nanos % 1000000)

end Instant

/-- A time of day. -/
structure TimeOfDay where
  secondOfDay : Nat
  nanos : Nat
deriving DecidableEq, Repr, Inhabited

namespace TimeOfDay

/-- A second of a day below its end, and nanoseconds that go beyond one second only in the last second
    of a minute. -/
def IsValid (t : TimeOfDay) : Prop :=
  t.secondOfDay < 86400 ∧ t.nanos < 2000000000 ∧
    (1000000000 ≤ t.nanos → t.secondOfDay % 60 = 59)

instance (t : TimeOfDay) : Decidable t.IsValid :=
  inferInstanceAs (Decidable (_ ∧ _ ∧ (_ → _)))

/-- The first moment of the day. -/
def midnight : TimeOfDay := ⟨0, 0⟩

/-- The time of day of a second and nanoseconds, if there is one. -/
def ofSecondOfDay? (secondOfDay nanos : Nat) : Option TimeOfDay :=
  let t : TimeOfDay := ⟨secondOfDay, nanos⟩
  if t.IsValid then some t else none

/-- The time of day of an hour, minute, second and nanoseconds, if there is one. -/
def ofClock? (hour minute second nanos : Nat) : Option TimeOfDay :=
  if hour < 24 ∧ minute < 60 ∧ second < 60 then
    ofSecondOfDay? (hour * 3600 + minute * 60 + second) nanos
  else none

/-- The hour of the day. -/
def hour (t : TimeOfDay) : Nat := t.secondOfDay / 3600

/-- The minute of the hour. -/
def minute (t : TimeOfDay) : Nat := t.secondOfDay / 60 % 60

/-- The second of the minute. -/
def second (t : TimeOfDay) : Nat := t.secondOfDay % 60

end TimeOfDay

/-- A time as databases count it: milliseconds since the epoch. -/
structure SqlTime where
  millis : Int64
deriving DecidableEq, Repr, Inhabited

namespace SqlTime

/-- Number of milliseconds of a day. -/
def millisPerDay : Int := 86400000

/-- A time of day on the first day of the epoch, cut to whole milliseconds. -/
def ofTimeOfDay (t : TimeOfDay) : SqlTime :=
  ⟨Int64.ofNat (t.secondOfDay * 1000 + t.nanos / 1000000)⟩

/-- The time of day, whichever the day; times before the epoch count backwards from midnight. -/
def timeOfDay (t : SqlTime) : TimeOfDay :=
  let millis := (t.millis.toInt % millisPerDay).toNat
  (TimeOfDay.ofSecondOfDay? (millis / 1000) (millis % 1000 * 1000000)).getD TimeOfDay.midnight

/-- Times are ordered by their counts. -/
def compare (s t : SqlTime) : Ordering := Ord.compare s.millis.toInt t.millis.toInt

end SqlTime

end ObjectWire
