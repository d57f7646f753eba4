import ObjectWire.Time

/-!
# Times of day as counts of milliseconds

A count of milliseconds tells a time of day by its remainder modulo a day (`SqlTime.milliOfDay`), and each
remainder has one, `TimeOfDay.ofMilli`, without a leap second (`TimeOfDay.ofSecondOfDay?_milli`).  A time of day
is counted without overflow, so going from a time of day to its count and back only takes the remainder of
the count (`SqlTime.milliOfDay_ofTimeOfDay`): the time is cut to whole milliseconds, and a leap second runs
over into the second that follows.
-/

namespace ObjectWire

namespace TimeOfDay

variable {milli : Nat}

/-- The time of day so many whole milliseconds after midnight. -/
def ofMilli (milli : Nat) : TimeOfDay := ⟨milli / 1000, milli % 1000 * 1000000⟩

/-- A count of milliseconds has no leap second in it. -/
theorem nanos_ofMilli_lt (milli : Nat) : (ofMilli milli).nanos < 1000000000 := by
  show milli % 1000 * 1000000 < 1000000000
  omega

/-- Each remainder modulo a day is a time of day. -/
theorem isValid_ofMilli (h : milli < 86400000) : (ofMilli milli).IsValid := by
  have hsecond : (ofMilli milli).secondOfDay < 86400 := Nat.div_lt_of_lt_mul h
  have hnanos := nanos_ofMilli_lt milli
  exact ⟨hsecond, by omega, fun hleap => absurd hnanos (Nat.not_lt.mpr hleap)⟩

/-- Each millisecond of a day has a time of day. -/
theorem ofSecondOfDay?_milli (h : milli < 86400000) :
    ofSecondOfDay? (milli / 1000) (milli % 1000 * 1000000) = some (ofMilli milli) :=
  if_pos (isValid_ofMilli h)

/-- Its second and its nanosecond fit in 32 bits. -/
theorem toNat_narrowed (h : milli < 86400000) :
    (UInt32.ofNat (milli / 1000)).toNat = milli / 1000 ∧
      (UInt32.ofNat (milli % 1000) * 1000000).toNat = milli % 1000 * 1000000 := by
  have hsecond : milli / 1000 < UInt32.size := by rw [UInt32.size]; omega
  have hmilli : milli % 1000 < UInt32.size := by rw [UInt32.size]; omega
  have hfactor : (1000000 : UInt32).toNat = 1000000 := rfl
  refine ⟨UInt32.toNat_ofNat_of_lt' hsecond, ?_⟩
  rw [UInt32.toNat_mul, UInt32.toNat_ofNat_of_lt' hmilli, hfactor]
  omega

end TimeOfDay

namespace SqlTime

/-- The milliseconds since midnight, whichever the day. -/
def milliOfDay (s : SqlTime) : Nat := (s.millis.toInt % millisPerDay).toNat

/-- The remainder is that of the count as an integer, so that it is not negative. -/
theorem milliOfDay_eq (s : SqlTime) : (s.milliOfDay : Int) = s.millis.toInt % 86400000 :=
  Int.toNat_of_nonneg (Int.emod_nonneg _ (by decide))

theorem milliOfDay_lt (s : SqlTime) : s.milliOfDay < 86400000 := by
  have hlt : s.millis.toInt % 86400000 < 86400000 := Int.emod_lt_of_pos _ (by decide)
  rw [← milliOfDay_eq] at hlt
  exact Int.ofNat_lt.mp hlt

/-- The time of day is told by the remainder alone. -/
theorem timeOfDay_eq (s : SqlTime) : s.timeOfDay = .ofMilli s.milliOfDay :=
  congrArg (·.getD TimeOfDay.midnight) (TimeOfDay.ofSecondOfDay?_milli s.milliOfDay_lt)

section

variable {t : TimeOfDay} (hsecond : t.secondOfDay < 86400) (hnanos : t.nanos < 2000000000)

include hsecond hnanos

/-- A time of day is counted without overflow, a leap second included. -/
theorem toInt_millis_ofTimeOfDay :
    (ofTimeOfDay t).millis.toInt = (t.secondOfDay * 1000 + t.nanos / 1000000 : Nat) :=
  Int64.toInt_ofNat_of_lt (by omega)

/-- A time of day counted and taken back is cut to milliseconds, and a leap second runs over. -/
theorem milliOfDay_ofTimeOfDay :
    (ofTimeOfDay t).milliOfDay = (t.secondOfDay * 1000 + t.nanos / 1000000) % 86400000 := by
  have h := (ofTimeOfDay t).milliOfDay_eq
  rw [toInt_millis_ofTimeOfDay hsecond hnanos] at h
  omega

end

/-- Counting the milliseconds of a day again gives them back. -/
theorem toInt_millis_ofMilli {milli : Nat} (h : milli < 86400000) :
    (ofTimeOfDay (.ofMilli milli)).millis.toInt = milli := by
  have hnanos := TimeOfDay.nanos_ofMilli_lt milli
  rw [toInt_millis_ofTimeOfDay (TimeOfDay.isValid_ofMilli h).1 (by omega), TimeOfDay.ofMilli,
    Nat.mul_div_cancel _ (by decide), Nat.div_add_mod']

/-- Every count of milliseconds, however far before or after the epoch, has a valid time of day, which is
    found without falling back to midnight and without overflow in 32 bits: whole milliseconds outside a
    leap second, and counted again they are the remainder of the count modulo a day.  A time of day outside
    a leap second comes back cut to whole milliseconds; inside one, whichever second it belongs to, it comes
    back as the same fraction of the second that follows, which after the last second of the day is the
    first. -/
theorem timeOfDay_ofTimeOfDay :
    (∀ s : SqlTime,
      TimeOfDay.ofSecondOfDay? (UInt32.ofNat (s.milliOfDay / 1000)).toNat
        (UInt32.ofNat (s.milliOfDay % 1000) * 1000000).toNat = some s.timeOfDay ∧
      s.timeOfDay.IsValid ∧ s.timeOfDay.nanos < 1000000000 ∧ 1000000 ∣ s.timeOfDay.nanos ∧
      (ofTimeOfDay s.timeOfDay).millis.toInt = s.millis.toInt % 86400000) ∧
    ∀ t : TimeOfDay, t.secondOfDay < 86400 →
      (t.nanos < 1000000000 →
        timeOfDay (ofTimeOfDay t) = ⟨t.secondOfDay, t.nanos / 1000000 * 1000000⟩) ∧
      (1000000000 ≤ t.nanos → t.nanos < 2000000000 →
        timeOfDay (ofTimeOfDay t) =
          ⟨(t.secondOfDay + 1) % 86400, (t.nanos - 1000000000) / 1000000 * 1000000⟩) := by
  refine ⟨fun s => ?_, fun t hsecond => ⟨fun hnanos => ?_, fun hleap hnanos => ?_⟩⟩
  · have hlt := s.milliOfDay_lt
    obtain ⟨hsecond, hnanos⟩ := TimeOfDay.toNat_narrowed hlt
    rw [hsecond, hnanos, s.timeOfDay_eq]
    exact ⟨TimeOfDay.ofSecondOfDay?_milli hlt, TimeOfDay.isValid_ofMilli hlt,
      TimeOfDay.nanos_ofMilli_lt _, Nat.dvd_mul_left .., (toInt_millis_ofMilli hlt).trans s.milliOfDay_eq⟩
  · rw [timeOfDay_eq, milliOfDay_ofTimeOfDay hsecond (by omega), TimeOfDay.ofMilli, TimeOfDay.mk.injEq]
    omega
  · -- The count goes past the end of the second, and in the last second past the end of the day.
    rw [timeOfDay_eq, milliOfDay_ofTimeOfDay hsecond hnanos, TimeOfDay.ofMilli, TimeOfDay.mk.injEq]
    omega

/-- The earliest count of all, a time with a broken millisecond, and half a leap second at the end of the
    day. -/
theorem timeOfDay_ofTimeOfDay_sample :
    (⟨Int64.minValue⟩ : SqlTime).timeOfDay.IsValid ∧
      (ofTimeOfDay (⟨Int64.minValue⟩ : SqlTime).timeOfDay).millis.toInt = 60424192 ∧
      timeOfDay (ofTimeOfDay ⟨43200, 250999999⟩) = ⟨43200, 250000000⟩ ∧
      timeOfDay (ofTimeOfDay ⟨86399, 1500999999⟩) = ⟨0, 500000000⟩ := by
  obtain ⟨hcount, htime⟩ := timeOfDay_ofTimeOfDay
  obtain ⟨-, hvalid, -, -, hmillis⟩ := hcount ⟨Int64.minValue⟩
  exact ⟨hvalid, hmillis.trans (by decide), (htime ⟨43200, 250999999⟩ (by decide)).1 (by decide),
    (htime ⟨86399, 1500999999⟩ (by decide)).2 (by decide) (by decide)⟩

end SqlTime

end ObjectWire
