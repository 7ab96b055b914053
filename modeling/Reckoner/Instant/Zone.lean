import Reckoner.Instant.Basic

/-! The clocks on the walls of a time zone. Which zone that is and how its offset changes is not
known here; all that is known is that the offset is less than a day. -/
namespace Reckoner

/-- What a clock on the wall shows: a day, and the second and nanosecond of it. -/
structure WallClock where
  date : Date
  second : Nat
  nanosecond : Nat
deriving DecidableEq

namespace WallClock

def hour (w : WallClock) : Nat := w.second / 3600

def minute (w : WallClock) : Nat := w.second / 60 % 60

/-- The second of the minute; a leap second counts as one more. -/
def secondOfMinute (w : WallClock) : Nat :=
  w.second % 60 + w.nanosecond / nanosPerSecond

end WallClock

/-- A time zone: how many seconds its clocks are ahead of universal time at an instant. -/
structure Zone where
  offset : Instant → Int
  offset_lt : ∀ t, (offset t).natAbs < secondsPerDay

namespace Zone

/-- The zone whose clocks always are the same number of seconds ahead. -/
def fixed (seconds : Int) (h : seconds.natAbs < secondsPerDay) : Zone where
  offset := fun _ => seconds
  offset_lt := fun _ => h

def universal : Zone :=
  fixed 0 (by decide)

def wallClock (zone : Zone) (t : Instant) : WallClock :=
  let second := (t.second : Int) + zone.offset t
  if second < 0 then ⟨t.date.previous, (second + secondsPerDay).toNat, t.nanosecond⟩
  else if second < secondsPerDay then ⟨t.date, second.toNat, t.nanosecond⟩
  else ⟨t.date.next, (second - secondsPerDay).toNat, t.nanosecond⟩

/-- Whether the zone's clocks show a date in range, which an instant at an end of the range need
not have. -/
def Shows (zone : Zone) (t : Instant) : Prop :=
  (zone.wallClock t).date.isInRange

/-- Whether the zone's clocks are whole minutes ahead of universal time or behind it. -/
def IsInMinutes (zone : Zone) (t : Instant) : Prop :=
  60 ∣ zone.offset t

end Zone

end Reckoner
