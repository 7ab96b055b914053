/-! Days of the Gregorian calendar, carried on to all years before and after it. -/
namespace Reckoner

def isLeapYear (year : Int) : Bool :=
  year % 4 == 0 && (year % 100 != 0 || year % 400 == 0)

def daysInMonth (year : Int) (month : Nat) : Nat :=
  if month = 2 then if isLeapYear year then 29 else 28
  else if month ∈ [4, 6, 9, 11] then 30
  else 31

/-- A day of the calendar; year 0 comes before year 1. -/
structure Date where
  year : Int
  month : Nat
  day : Nat
  valid : 1 ≤ month ∧ month ≤ 12 ∧ 1 ≤ day ∧ day ≤ daysInMonth year month
deriving DecidableEq

theorem le_daysInMonth (year : Int) (month : Nat) : 28 ≤ daysInMonth year month := by
  unfold daysInMonth
  split
  · split <;> decide
  · split <;> decide

theorem daysInMonth_le (year : Int) (month : Nat) : daysInMonth year month ≤ 31 := by
  unfold daysInMonth
  split
  · split <;> decide
  · split <;> decide

namespace Date

/-- The day with these parts, if there is one. -/
def ofParts? (year : Int) (month day : Nat) : Option Date :=
  if h : 1 ≤ month ∧ month ≤ 12 ∧ 1 ≤ day ∧ day ≤ daysInMonth year month then
    some ⟨year, month, day, h⟩
  else none

/-- Whether the year is one of those that instants and their texts may have. -/
def isInRange (d : Date) : Bool :=
  decide (-262143 ≤ d.year ∧ d.year ≤ 262142)

def next (d : Date) : Date :=
  if hd : d.day < daysInMonth d.year d.month then
    ⟨d.year, d.month, d.day + 1, by have := d.valid; omega⟩
  else if hm : d.month < 12 then
    ⟨d.year, d.month + 1, 1, by have := le_daysInMonth d.year (d.month + 1); omega⟩
  else ⟨d.year + 1, 1, 1, by have := le_daysInMonth (d.year + 1) 1; omega⟩

def previous (d : Date) : Date :=
  if hd : 1 < d.day then ⟨d.year, d.month, d.day - 1, by have := d.valid; omega⟩
  else if hm : 1 < d.month then
    ⟨d.year, d.month - 1, daysInMonth d.year (d.month - 1), by
      have := d.valid
      have := le_daysInMonth d.year (d.month - 1)
      omega⟩
  else ⟨d.year - 1, 12, 31, by simp [daysInMonth]⟩

def epoch : Date where
  year := 1970
  month := 1
  day := 1
  valid := by decide

end Date

end Reckoner
