import Mathlib.Data.List.Basic
import Reckoner.Instant.Timestamp
import Reckoner.Proofs.Decimal.Digits
import Reckoner.Proofs.Instant.Zone
import Reckoner.Proofs.Outcome

/-! Reading back the text of an instant: each part is read up to where the next begins. Only an
offset of whole minutes is written in full. -/
namespace Reckoner

theorem trimLeft_cons {c : Char} (h : ¬ isBlank c) (rest : List Char) :
    trimLeft (c :: rest) = c :: rest := by
  unfold trimLeft
  rw [List.dropWhile_cons_of_neg h]

theorem trimLeft_eq_self {text : List Char} (h : ∀ c ∈ text.head?, ¬ isBlank c) :
    trimLeft text = text := by
  cases text with
  | nil => rfl
  | cons c rest => exact trimLeft_cons (h c rfl) rest

theorem trimLeft_append_of_isDigit {digits : List Char} (hne : digits ≠ [])
    (hdigits : ∀ c ∈ digits, c.isDigit) (rest : List Char) :
    trimLeft (digits ++ rest) = digits ++ rest := by
  obtain ⟨c, digits, rfl⟩ := List.exists_cons_of_ne_nil hne
  exact trimLeft_cons (not_isBlank_of_isDigit (hdigits c List.mem_cons_self)) _

theorem ofParts?_date (d : Date) : Date.ofParts? d.year d.month d.day = some d := by
  unfold Date.ofParts?
  rw [dif_pos d.valid]

namespace Instant

open WallClock

/-- Digits are read up to the width, or up to what is no digit. -/
theorem readNumber?_append {width : Nat} {digits rest : List Char} (hne : digits ≠ [])
    (hdigits : ∀ c ∈ digits, c.isDigit) (hlength : digits.length ≤ width)
    (hrest : digits.length = width ∨ ∀ c ∈ rest.head?, ¬ c.isDigit) :
    readNumber? width (digits ++ rest) = some (Nat.ofDigitChars 10 digits 0, rest) := by
  have htake : ((digits ++ rest).take width).takeWhile Char.isDigit = digits := by
    rw [List.take_append, List.take_of_length_le hlength]
    apply takeWhile_isDigit_append hdigits
    intro c hc
    rcases hrest with hfull | hrest
    · rw [hfull, Nat.sub_self, List.take_zero] at hc
      simp at hc
    · apply hrest c
      cases rest with
      | nil => simp at hc
      | cons d rest =>
        cases hwidth : width - digits.length with
        | zero => rw [hwidth, List.take_zero] at hc; simp at hc
        | succ k => rwa [hwidth] at hc
  unfold readNumber?
  simp only [htake, hne, if_false, List.drop_left]

theorem readTwoDigits?_append {n : Nat} (h : n < 10 ^ 2) (rest : List Char) :
    readTwoDigits? (paddedDigits 2 n ++ rest) = some (n, rest) := by
  have hdigits : ∀ c ∈ paddedDigits 2 n, c.isDigit := fun _ hc => isDigit_of_mem_paddedDigits hc
  have hlength := length_paddedDigits (by decide) h
  unfold readTwoDigits?
  rw [trimLeft_append_of_isDigit (paddedDigits_ne_nil 2 n) hdigits,
    readNumber?_append (paddedDigits_ne_nil 2 n) hdigits hlength.le (.inl hlength),
    ofDigitChars_paddedDigits]

theorem readSeparator?_cons {c : Char} (h : ¬ isBlank c) (rest : List Char) :
    readSeparator? c (c :: rest) = some rest := by
  unfold readSeparator?
  rw [trimLeft_cons h]
  simp

/-- Four digits are a year without a sign. -/
theorem readYear?_append {n : Nat} (h : n < 10 ^ 4) (rest : List Char) :
    readYear? (paddedDigits 4 n ++ rest) = some ((n : Int), rest) := by
  have hdigits : ∀ c ∈ paddedDigits 4 n, c.isDigit := fun _ hc => isDigit_of_mem_paddedDigits hc
  have hlength := length_paddedDigits (by decide) h
  have hne := paddedDigits_ne_nil 4 n
  have hread : readNumber? 4 (paddedDigits 4 n ++ rest) = some (n, rest) := by
    rw [readNumber?_append hne hdigits hlength.le (.inl hlength), ofDigitChars_paddedDigits]
  obtain ⟨c, digits, hcons⟩ := List.exists_cons_of_ne_nil hne
  have hc := hdigits c (by rw [hcons]; exact List.mem_cons_self)
  unfold readYear?
  rw [trimLeft_append_of_isDigit hne hdigits]
  split
  next hminus =>
    rw [hcons] at hminus
    obtain rfl := (List.cons.inj hminus).1
    exact absurd hc (by decide)
  next hplus =>
    rw [hcons] at hplus
    obtain rfl := (List.cons.inj hplus).1
    exact absurd hc (by decide)
  next => rw [hread, Option.map_some]

theorem readYear?_yearText (year : Int) {rest : List Char}
    (hrest : ∀ c ∈ rest.head?, ¬ c.isDigit) :
    readYear? (yearText year ++ rest) = some (year, rest) := by
  have hdigits : ∀ c ∈ paddedDigits 4 year.natAbs, c.isDigit := fun _ hc =>
    isDigit_of_mem_paddedDigits hc
  have hsigned : readNumber? (paddedDigits 4 year.natAbs ++ rest).length
      (paddedDigits 4 year.natAbs ++ rest) = some (year.natAbs, rest) := by
    rw [readNumber?_append (paddedDigits_ne_nil 4 _) hdigits (by simp) (.inr hrest),
      ofDigitChars_paddedDigits]
  unfold yearText
  simp only
  by_cases hneg : year < 0
  · unfold readYear?
    rw [if_pos hneg, List.cons_append, trimLeft_cons (by decide)]
    simp only [hsigned, Option.map_some]
    rw [show -(year.natAbs : Int) = year by omega]
  by_cases hlarge : 9999 < year
  · unfold readYear?
    rw [if_neg hneg, if_pos hlarge, List.cons_append, trimLeft_cons (by decide)]
    simp only [hsigned, Option.map_some]
    rw [show (year.natAbs : Int) = year by omega]
  · rw [if_neg hneg, if_neg hlarge, readYear?_append (by omega),
      show (year.natAbs : Int) = year by omega]

theorem readFraction?_point {places n : Nat} (hplaces : 0 < places) (hnine : places ≤ 9)
    (hn : n < 10 ^ places) {rest : List Char} (hrest : ∀ c ∈ rest.head?, ¬ c.isDigit) :
    readFraction? ('.' :: paddedDigits places n ++ rest) = some (n * 10 ^ (9 - places), rest) := by
  have hdigits : ∀ c ∈ paddedDigits places n, c.isDigit := fun _ hc =>
    isDigit_of_mem_paddedDigits hc
  have hlength := length_paddedDigits hplaces hn
  simp only [List.cons_append, readFraction?, takeWhile_isDigit_append hdigits hrest,
    dropWhile_isDigit_append hdigits hrest, paddedDigits_ne_nil, if_false]
  rw [List.take_of_length_le (by omega), ofDigitChars_paddedDigits, hlength]

/-- The part of a second is read in full, however few digits it is written with. -/
theorem readFraction?_fractionOfSecond {n : Nat} (hn : n < nanosPerSecond) {rest : List Char}
    (hrest : ∀ c ∈ rest.head?, ¬ c.isDigit ∧ c ≠ '.') :
    readFraction? (fractionOfSecond n ++ rest) = some (n, rest) := by
  have hdigit : ∀ c ∈ rest.head?, ¬ c.isDigit := fun c hc => (hrest c hc).1
  unfold nanosPerSecond at hn
  unfold fractionOfSecond
  split
  next hzero =>
    rw [List.nil_append, hzero]
    unfold readFraction?
    split
    next => exact absurd rfl (hrest '.' rfl).2
    next => rfl
  split
  next hmillis =>
    rw [readFraction?_point (by decide) (by decide) (by omega) hdigit]
    congr 2
    omega
  split
  next hmicros =>
    rw [readFraction?_point (by decide) (by decide) (by omega) hdigit]
    congr 2
    omega
  next =>
    rw [readFraction?_point (by decide) (by decide) (by omega) hdigit]
    congr 2
    omega

/-- Two digits are written with two characters. -/
theorem exists_paddedDigits_two {n : Nat} (h : n < 10 ^ 2) :
    ∃ a b, paddedDigits 2 n = [a, b] ∧ a.isDigit ∧ b.isDigit ∧
      Nat.ofDigitChars 10 [a, b] 0 = n := by
  obtain ⟨a, b, hdigits⟩ := List.length_eq_two.mp (length_paddedDigits (by decide) h)
  have hmem : ∀ c ∈ [a, b], c.isDigit := fun c hc => isDigit_of_mem_paddedDigits (hdigits ▸ hc)
  exact ⟨a, b, hdigits, hmem a (by simp), hmem b (by simp),
    hdigits ▸ ofDigitChars_paddedDigits 2 n⟩

theorem readOffsetSize?_paddedDigits (hours minutes : Nat) (hhours : hours < 24)
    (hminutes : minutes < 60) :
    readOffsetSize? (paddedDigits 2 hours ++ ':' :: paddedDigits 2 minutes) =
      some (hours * 3600 + minutes * 60, []) := by
  obtain ⟨a, b, hhour, ha, hb, hab⟩ := exists_paddedDigits_two (n := hours) (by omega)
  obtain ⟨c, d, hminute, hc, hd, hcd⟩ := exists_paddedDigits_two (n := minutes) (by omega)
  have hrest : (':' :: [c, d]).dropWhile (fun c => c == ':' || isBlank c) = [c, d] := by
    have hcolon : (c == ':' || isBlank c) = false :=
      of_isDigit (p := fun c => (c == ':' || isBlank c) = false) (by decide) hc
    simp [hcolon]
  rw [hhour, hminute]
  simp only [List.cons_append, List.nil_append, readOffsetSize?, hrest, hab, hcd]
  simp [ha, hb, hc, hd, hhours, hminutes]

theorem readOffset?_minus (text : List Char) :
    readOffset? ('-' :: text) =
      (readOffsetSize? text).map fun (n, rest) => (-(n : Int), rest) :=
  if_neg fun h => absurd (List.cons.inj h).1 (by decide)

theorem readOffset?_plus (text : List Char) :
    readOffset? ('+' :: text) = (readOffsetSize? text).map fun (n, rest) => ((n : Int), rest) :=
  if_neg fun h => absurd (List.cons.inj h).1 (by decide)

/-- An offset of whole minutes is read as it is written. -/
theorem readOffset?_offsetText {seconds : Int} (hminutes : 60 ∣ seconds)
    (hlt : seconds.natAbs < secondsPerDay) :
    readOffset? (Zone.offsetText seconds) = some (seconds, []) := by
  obtain ⟨minutes, rfl⟩ := hminutes
  unfold secondsPerDay at hlt
  have htotal : ((60 * minutes).natAbs + 30) / 60 = minutes.natAbs := by omega
  have hsize := readOffsetSize?_paddedDigits (minutes.natAbs / 60) (minutes.natAbs % 60)
    (by omega) (by omega)
  unfold Zone.offsetText
  simp only [htotal]
  split
  next hzero => rw [hzero]; rfl
  next hne =>
    split
    next hneg =>
      have hworth : -((minutes.natAbs / 60 * 3600 + minutes.natAbs % 60 * 60 : Nat) : Int) =
          60 * minutes := by omega
      simp only [List.cons_append, readOffset?_minus, hsize, Option.map_some, hworth]
    next hpos =>
      have hworth : ((minutes.natAbs / 60 * 3600 + minutes.natAbs % 60 * 60 : Nat) : Int) =
          60 * minutes := by omega
      simp only [List.cons_append, readOffset?_plus, hsize, Option.map_some, hworth]

theorem not_isBlank_of_mem_head?_offsetText (seconds : Int) :
    ∀ c ∈ (Zone.offsetText seconds).head?, ¬ isBlank c ∧ ¬ c.isDigit ∧ c ≠ '.' := by
  unfold Zone.offsetText
  split
  next => simp; decide
  next =>
    split
    next => simp; decide
    next => simp; decide

end Instant

namespace WallClock

theorem hour_lt {w : WallClock} (h : w.IsTime) : w.hour < 24 := by
  have hsecond := h.second_lt
  unfold secondsPerDay at hsecond
  unfold hour
  omega

theorem minute_lt (w : WallClock) : w.minute < 60 := by
  unfold minute
  omega

namespace IsTime

variable {w : WallClock} (h : w.IsTime)
include h

theorem leap_iff : w.secondOfMinute = 60 ↔ nanosPerSecond ≤ w.nanosecond := by
  have hnanosecond := h.nanosecond_lt
  unfold secondOfMinute
  unfold nanosPerSecond at *
  omega

/-- The second of the day, of which a leap second is not one. -/
theorem secondOfDay_eq :
    w.hour * 3600 + w.minute * 60 +
      (w.secondOfMinute - if w.secondOfMinute = 60 then 1 else 0) = w.second := by
  have hleap := h.leap_iff
  have hnanosecond := h.nanosecond_lt
  unfold secondOfMinute at *
  unfold hour minute
  unfold nanosPerSecond at *
  split <;> omega

theorem nanosecond_eq :
    w.nanosecond % nanosPerSecond + (if w.secondOfMinute = 60 then 1 else 0) * nanosPerSecond =
      w.nanosecond := by
  have hleap := h.leap_iff
  have hnanosecond := h.nanosecond_lt
  unfold nanosPerSecond at *
  split <;> omega

theorem secondOfMinute_le : w.secondOfMinute ≤ 60 := by
  have hnanosecond := h.nanosecond_lt
  unfold nanosPerSecond at hnanosecond
  unfold secondOfMinute nanosPerSecond
  omega

end IsTime

theorem text_append (w : WallClock) (rest : List Char) :
    w.text ++ rest = yearText w.date.year ++ '-' :: (paddedDigits 2 w.date.month ++ '-' ::
      (paddedDigits 2 w.date.day ++ 'T' :: (paddedDigits 2 w.hour ++ ':' ::
        (paddedDigits 2 w.minute ++ ':' :: (paddedDigits 2 w.secondOfMinute ++
          (fractionOfSecond (w.nanosecond % nanosPerSecond) ++ rest)))))) := by
  unfold text timeOfDay
  simp only [List.append_assoc, List.cons_append]

end WallClock

namespace Instant

/-- What the clocks show is read as the instant when they show it. -/
theorem ofTimestamp?_text {w : WallClock} (h : w.IsTime) (hrange : w.date.isInRange)
    {seconds : Int} (hminutes : 60 ∣ seconds) (hlt : seconds.natAbs < secondsPerDay) :
    ofTimestamp? (w.text ++ Zone.offsetText seconds) =
      ofLocal? w.date w.second w.nanosecond seconds := by
  have hdate := w.date.valid
  have hdays := daysInMonth_le w.date.year w.date.month
  have hhour := w.hour_lt h
  have hminute := w.minute_lt
  have hsecond := h.secondOfMinute_le
  have hnanosecond : w.nanosecond % nanosPerSecond < nanosPerSecond := Nat.mod_lt _ (by decide)
  have hdash (rest : List Char) : ∀ c ∈ ('-' :: rest).head?, ¬ c.isDigit := by
    intro c hc
    obtain rfl := Option.some.inj hc
    decide
  have hhead := not_isBlank_of_mem_head?_offsetText seconds
  have hoffset : readOffset? (trimLeft (Zone.offsetText seconds)) = some (seconds, []) := by
    rw [trimLeft_eq_self fun c hc => (hhead c hc).1, readOffset?_offsetText hminutes hlt]
  rw [WallClock.text_append]
  unfold ofTimestamp?
  apply bind_eq_of_eq_some (readYear?_yearText _ (hdash _))
  apply bind_eq_of_eq_some (readSeparator?_cons (by decide) _)
  apply bind_eq_of_eq_some (readTwoDigits?_append (by omega) _)
  apply bind_eq_of_eq_some (readSeparator?_cons (by decide) _)
  apply bind_eq_of_eq_some (readTwoDigits?_append (by omega) _)
  apply bind_eq_of_eq_some rfl
  apply bind_eq_of_eq_some (readTwoDigits?_append (by omega) _)
  apply bind_eq_of_eq_some (readSeparator?_cons (by decide) _)
  apply bind_eq_of_eq_some (readTwoDigits?_append (by omega) _)
  apply bind_eq_of_eq_some (readSeparator?_cons (by decide) _)
  apply bind_eq_of_eq_some (readTwoDigits?_append (by omega) _)
  apply bind_eq_of_eq_some (readFraction?_fractionOfSecond hnanosecond fun c hc => (hhead c hc).2)
  apply bind_eq_of_eq_some hoffset
  apply bind_eq_of_eq_some (guard_eq_some ⟨rfl, hhour, hminute, hsecond⟩)
  apply bind_eq_of_eq_some (ofParts?_date w.date)
  apply bind_eq_of_eq_some (guard_eq_some hrange)
  dsimp only
  rw [h.secondOfDay_eq, h.nanosecond_eq]

/-- The text of an instant is read as that instant, if the offset is of whole minutes. -/
theorem ofTimestamp?_timestamp? {zone : Zone} {t : Instant} {text : List Char}
    (hminutes : zone.IsInMinutes t) (htext : zone.timestamp? t = some text) :
    ofTimestamp? text = some t := by
  unfold Zone.timestamp? at htext
  dsimp only at htext
  split at htext
  next hrange =>
    obtain rfl := Option.some.inj htext
    rw [ofTimestamp?_text (Zone.isTime_wallClock hminutes) hrange hminutes (zone.offset_lt t),
      zone.ofLocal?_wallClock]
  next => cases htext

end Instant

end Reckoner
