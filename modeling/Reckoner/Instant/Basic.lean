import Reckoner.Instant.Date
import Reckoner.Power

/-! Instants of coordinated universal time, to the nanosecond. -/
namespace Reckoner

def nanosPerSecond : Nat := 10 ^ 9

def secondsPerDay : Nat := 86400

/-- An instant. In a leap second, which follows the last second of a minute, that second is kept
and the nanoseconds go on beyond it. -/
structure Instant where
  date : Date
  second : Nat
  nanosecond : Nat
  second_lt : second < secondsPerDay
  nanosecond_lt : nanosecond < nanosPerSecond ∨
    (second % 60 = 59 ∧ nanosecond < 2 * nanosPerSecond)
  isInRange : date.isInRange
deriving DecidableEq

namespace Instant

/-- The instant at a second and nanosecond of a day, if there is one. -/
def ofParts? (date : Date) (second nanosecond : Nat) : Option Instant :=
  if h : second < secondsPerDay ∧
      (nanosecond < nanosPerSecond ∨ (second % 60 = 59 ∧ nanosecond < 2 * nanosPerSecond)) ∧
      date.isInRange then
    some ⟨date, second, nanosecond, h.1, h.2.1, h.2.2⟩
  else none

/-- The instant of a clock that is `seconds` ahead of universal time and shows a day and a
second of it. -/
def ofLocal? (date : Date) (second nanosecond : Nat) (seconds : Int) : Option Instant :=
  let universal := (second : Int) - seconds
  if universal < 0 then
    ofParts? date.previous (universal + secondsPerDay).toNat nanosecond
  else if universal < secondsPerDay then ofParts? date universal.toNat nanosecond
  else ofParts? date.next (universal - secondsPerDay).toNat nanosecond

/-- The beginning of the first of January 1970. -/
def epoch : Instant where
  date := .epoch
  second := 0
  nanosecond := 0
  second_lt := by decide
  nanosecond_lt := by decide
  isInRange := by decide

/-- The instant some time after the epoch, if it is not too late for one. -/
def sinceEpoch? (seconds nanoseconds : Nat) : Option Instant :=
  ofParts? (Nat.repeat Date.next (seconds / secondsPerDay) Date.epoch) (seconds % secondsPerDay)
    (nanoseconds % nanosPerSecond)

end Instant

end Reckoner
