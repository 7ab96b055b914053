import Reckoner.Instant.Zone

/-! What clocks on the wall show determines the instant, and is a time of a day where they are whole
minutes ahead of universal time or behind it. -/
namespace Reckoner

namespace Date

theorem previous_next (d : Date) : d.next.previous = d := by
  obtain ⟨year, month, day, hmonth, hmonth', hday, hday'⟩ := d
  unfold next
  dsimp only
  split
  next hlater =>
    simp only [previous, dif_pos (show 1 < day + 1 by omega), Nat.add_sub_cancel]
  next hlast =>
    obtain rfl : day = daysInMonth year month := by omega
    split
    next => simp [previous, dif_pos (show 0 < month by omega)]
    next =>
      obtain rfl : month = 12 := by omega
      simp [previous, daysInMonth]

theorem next_previous (d : Date) : d.previous.next = d := by
  obtain ⟨year, month, day, hmonth, hmonth', hday, hday'⟩ := d
  unfold previous
  dsimp only
  split
  next hlater =>
    simp [next, dif_pos (show day - 1 < daysInMonth year month by omega),
      Nat.sub_add_cancel hday]
  next hfirst =>
    obtain rfl : day = 1 := by omega
    split
    next hlater =>
      simp [next, dif_pos (show month - 1 < 12 by omega), Nat.sub_add_cancel hmonth]
    next =>
      obtain rfl : month = 1 := by omega
      simp [next, daysInMonth]

end Date

namespace Instant

theorem ofParts?_self (t : Instant) : ofParts? t.date t.second t.nanosecond = some t := by
  unfold ofParts?
  rw [dif_pos ⟨t.second_lt, t.nanosecond_lt, t.isInRange⟩]

end Instant

/-- Whether a clock shows a time of a day, leap seconds included. -/
structure WallClock.IsTime (w : WallClock) : Prop where
  second_lt : w.second < secondsPerDay
  nanosecond_lt : w.nanosecond < nanosPerSecond ∨
    (w.second % 60 = 59 ∧ w.nanosecond < 2 * nanosPerSecond)

namespace Zone

variable (zone : Zone) (t : Instant)

/-- Whatever the offset is, an instant is found again from what the clocks show. -/
theorem ofLocal?_wallClock :
    Instant.ofLocal? (zone.wallClock t).date (zone.wallClock t).second
      (zone.wallClock t).nanosecond (zone.offset t) = some t := by
  have hsecond := t.second_lt
  have hoffset := zone.offset_lt t
  unfold wallClock Instant.ofLocal?
  unfold secondsPerDay at *
  dsimp only
  split
  next hbefore =>
    dsimp only
    rw [Int.toNat_of_nonneg (by omega), if_neg (by omega), if_neg (by omega), Date.next_previous,
      show ((t.second : Int) + zone.offset t + (86400 : Nat) - zone.offset t -
        (86400 : Nat)).toNat = t.second by omega, t.ofParts?_self]
  next hnotBefore =>
    split
    next hsame =>
      dsimp only
      rw [Int.toNat_of_nonneg (by omega), if_neg (by omega), if_pos (by omega),
        show ((t.second : Int) + zone.offset t - zone.offset t).toNat = t.second by omega,
        t.ofParts?_self]
    next hafter =>
      dsimp only
      rw [Int.toNat_of_nonneg (by omega), if_pos (by omega), Date.previous_next,
        show ((t.second : Int) + zone.offset t - (86400 : Nat) - zone.offset t +
          (86400 : Nat)).toNat = t.second by omega, t.ofParts?_self]

variable {zone t}

theorem nanosecond_wallClock : (zone.wallClock t).nanosecond = t.nanosecond := by
  unfold wallClock
  dsimp only
  split
  next => rfl
  next =>
    split
    next => rfl
    next => rfl

/-- Whole minutes leave the seconds of a minute alone, and with them a leap second its place. -/
theorem isTime_wallClock (h : zone.IsInMinutes t) : (zone.wallClock t).IsTime := by
  have hkept : (zone.wallClock t).second < secondsPerDay ∧
      (zone.wallClock t).second % 60 = t.second % 60 := by
    have hsecond := t.second_lt
    have hoffset := zone.offset_lt t
    obtain ⟨minutes, hminutes⟩ := h
    unfold wallClock
    unfold secondsPerDay at *
    dsimp only
    split
    next => dsimp only; omega
    next =>
      split
      next => dsimp only; omega
      next => dsimp only; omega
  refine ⟨hkept.1, ?_⟩
  rw [nanosecond_wallClock, hkept.2]
  exact t.nanosecond_lt

@[simp] theorem wallClock_universal (t : Instant) :
    universal.wallClock t = ⟨t.date, t.second, t.nanosecond⟩ := by
  have hsecond := t.second_lt
  unfold wallClock
  simp only [universal, fixed, Int.add_zero]
  rw [if_neg (by omega), if_pos (by omega), Int.toNat_natCast]

theorem shows_universal (t : Instant) : universal.Shows t := by
  unfold Shows
  rw [wallClock_universal]
  exact t.isInRange

theorem isInMinutes_universal (t : Instant) : universal.IsInMinutes t :=
  Int.dvd_zero 60

def fiveHoursBehind : Zone :=
  fixed (-18000) (by decide)

/-- Whether an instant has a text that says which instant it is, as all have in universal time. -/
structure Keeps (zone : Zone) (t : Instant) : Prop where
  isInMinutes : zone.IsInMinutes t
  shows : zone.Shows t

theorem keeps_universal (t : Instant) : universal.Keeps t :=
  ⟨isInMinutes_universal t, shows_universal t⟩

end Zone

end Reckoner
