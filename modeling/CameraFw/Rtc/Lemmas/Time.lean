import CameraFw.Base.Calendar
import CameraFw.Rtc.Driver

/-!
# The two conversions

`mktime` is the count of seconds of the Gregorian calendar, as far as 32 bits hold it. `to_tm` goes
back, as long as the years that are divisible by 4 are the leap years.
-/

namespace CameraFw.Rtc

open CameraFw.Base

/-! ## From the date to the counter -/

/-- An integer in a 32-bit word. -/
def word : ℤ →+* BitVec 32 := Int.castRingHom (BitVec 32)

theorem word_toNat (x : BitVec 32) : word x.toNat = x := by
  apply BitVec.eq_of_toNat_eq
  rw [show word x.toNat = BitVec.ofInt 32 x.toNat from rfl, BitVec.toNat_ofInt]
  omega

theorem toNat_word {z : ℤ} (h0 : 0 ≤ z) (h1 : z < 2 ^ 32) : (word z).toNat = z := by
  rw [show word z = BitVec.ofInt 32 z from rfl, BitVec.toNat_ofInt]
  omega

theorem word_div (x : BitVec 32) (k : Nat) (hk : k < 2 ^ 32) :
    word (x.toNat / k : ℤ) = x / BitVec.ofNat 32 k := by
  rw [← word_toNat (x / BitVec.ofNat 32 k), BitVec.toNat_udiv, BitVec.toNat_ofNat, Nat.mod_eq_of_lt hk]
  norm_cast

/-- The days up to day `day`, for a year that begins with March and `c` days before the month. -/
def dayCount (year c day : ℤ) : ℤ := year / 4 - year / 100 + year / 400 + c + day + year * 365 - 719499

theorem dayCount_word (year c day : BitVec 32) :
    year / 4 - year / 100 + year / 400 + c + day + year * 365 - 719499 =
      word (dayCount year.toNat c.toNat day.toNat) := by
  have h4 : word (year.toNat / 4) = year / 4 := word_div year 4 (by decide)
  have h100 : word (year.toNat / 100) = year / 100 := word_div year 100 (by decide)
  have h400 : word (year.toNat / 400) = year / 400 := word_div year 400 (by decide)
  simp only [dayCount, map_sub, map_add, map_mul, word_toNat, h4, h100, h400]
  rfl

theorem seconds_word (d : ℤ) (hour min sec : BitVec 32) :
    ((word d * 24 + hour) * 60 + min) * 60 + sec =
      word (d * 86400 + hour.toNat * 3600 + min.toNat * 60 + sec.toNat) := by
  simp only [map_add, map_mul, word_toNat]
  rw [show word 86400 = 24 * 60 * 60 from rfl, show word 3600 = 60 * 60 from rfl, show word 60 = 60 from rfl]
  ring

theorem leapDay_eq (y : Nat) :
    leapDay y = (y : ℤ) / 4 - (y - 1) / 4 - (y / 100 - (y - 1) / 100) + (y / 400 - (y - 1) / 400) := by
  unfold leapDay
  cases h : isLeap y
  · simp only [isLeap, decide_eq_false_iff_not] at h
    simp only [Bool.false_eq_true, if_false]
    omega
  · simp only [isLeap, decide_eq_true_eq] at h
    simp only [if_true]
    omega

/-- The days before month `m`, January being 0: 367 days in 12 months, rounded down, give them but for
February. -/
theorem monthOffset : ∀ m < 12,
    if m < 2 then 367 * (m + 11) / 12 = ((monthLens false).take m).sum + 336
    else 367 * (m - 1) / 12 + 29 = ((monthLens false).take m).sum := by
  decide

/-- A year that begins with March has the leap day at its end. -/
theorem dayCount_eq {y m : Nat} (hy : 1 ≤ y) (hm : m < 12) (day : ℤ) :
    dayCount (if m < 2 then y - 1 else y : Nat) (367 * (if m < 2 then m + 11 else m - 1) / 12 : Nat) day =
      monthStart y m + (day - 1) := by
  have hoffset := monthOffset m hm
  rcases Nat.lt_or_ge m 2 with hlt | hge
  · rw [if_pos hlt] at hoffset
    have hfirst : (monthLens (isLeap y)).take m = (monthLens false).take m := by interval_cases m <;> rfl
    rw [if_pos hlt, if_pos hlt, Nat.cast_sub hy, monthStart, hfirst, hoffset]
    simp only [dayCount, yearStart]
    push_cast
    omega
  · rw [if_neg (by omega)] at hoffset
    rw [if_neg (by omega), if_neg (by omega), monthStart_eq y hge, leapDay_eq y, ← hoffset]
    simp only [dayCount, yearStart]
    push_cast
    omega

theorem month_shift {mon : BitVec 32} (hlo : 1 ≤ mon.toNat) (hhi : mon.toNat ≤ 12) :
    ((mon - 2).toInt ≤ 0 ↔ mon.toNat - 1 < 2) ∧
      (367 * (if (mon - 2).toInt ≤ 0 then mon - 2 + 12 else mon - 2) / 12).toNat =
        367 * (if mon.toNat - 1 < 2 then mon.toNat - 1 + 11 else mon.toNat - 1 - 1) / 12 := by
  obtain ⟨k, hk⟩ : ∃ k, mon.toNat = k := ⟨_, rfl⟩
  obtain rfl : mon = BitVec.ofNat 32 k := BitVec.eq_of_toNat_eq (by rw [hk, BitVec.toNat_ofNat]; omega)
  rw [hk] at hlo hhi
  clear hk
  interval_cases k <;> decide

/-- For a month and a positive year `mktime` is the count of the calendar, in 32 bits. -/
theorem mktime_eq {year mon day hour min sec : BitVec 32} (hy : 1 ≤ year.toNat) (hlo : 1 ≤ mon.toNat)
    (hhi : mon.toNat ≤ 12) :
    mktime year mon day hour min sec =
      word (timegm ⟨sec.toNat, min.toNat, hour.toNat, day.toNat, mon.toNat - 1, year.toNat - 1900, 0,
        0⟩) := by
  obtain ⟨hearly, hmon⟩ := month_shift hlo hhi
  have hyear : (if (mon - 2).toInt ≤ 0 then year - 1 else year).toNat =
      if mon.toNat - 1 < 2 then year.toNat - 1 else year.toNat := by
    by_cases h : mon.toNat - 1 < 2
    · rw [if_pos (hearly.mpr h), if_pos h, BitVec.toNat_sub_of_le (by rw [BitVec.le_def]; exact hy)]
      rfl
    · rw [if_neg (mt hearly.mp h), if_neg h]
  have hcount := @dayCount_eq year.toNat (mon.toNat - 1) hy (by omega) day.toNat
  simp only [mktime]
  rw [dayCount_word, hmon, hyear, hcount, seconds_word]
  simp only [timegm, monthStart, Int.sub_add_cancel]

/-! ## From the counter to the date -/

/-- The first second of March 2100; the year 2100 is no leap year. -/
def march2100 : ℤ := monthStart 2100 2 * 86400

theorem leapyear_eq {y : Nat} (h0 : 1970 ≤ y) (h1 : y < 2100) : leapyear y = isLeap y := by
  rw [leapyear, isLeap, decide_eq_decide]
  omega

theorem daysInYear_eq {y : Nat} (h0 : 1970 ≤ y) (h1 : y < 2100) : (daysInYear y : ℤ) = yearLen y := by
  rw [daysInYear, yearLen, leapyear_eq h0 h1]
  split <;> rfl

/-- Up to February 2100 the loop over the years ends in the year of the day. -/
theorem years_spec {i day : Nat} (h0 : 1970 ≤ i) (h1 : i ≤ 2100)
    (hday : yearStart i + day < yearStart 2100 + 59) :
    ((years i day).1 : ℤ) = yearOf (yearStart i + day) ∧
      ((years i day).2 : ℤ) = yearStart i + day - yearStart (yearOf (yearStart i + day)) ∧
        (years i day).1 ≤ 2100 ∧
      1970 ≤ (years i day).1 := by
  fun_induction years i day with
  | case1 i day hle ih =>
      have hlt : i < 2100 := by
        by_contra hge
        obtain rfl : i = 2100 := by omega
        have : daysInYear 2100 = 366 := rfl
        rw [Nat.cast_ofNat] at hday
        omega
      have hlen := daysInYear_eq h0 hlt
      have hsucc := yearStart_succ i
      have hsame : yearStart (i + 1 : Nat) + (day - daysInYear i : Nat) = yearStart i + day := by
        rw [Nat.cast_succ, hsucc, Nat.cast_sub hle]
        omega
      rw [hsame] at ih
      exact ih (by omega) (by omega) hday
  | case2 i day hgt =>
      have hsucc := yearStart_succ i
      have hlen := yearLen_bounds i
      have hin : yearStart i + day < yearStart (i + 1) := by
        rcases Nat.lt_or_eq_of_le h1 with hlt | rfl
        · have := daysInYear_eq h0 hlt
          omega
        · rw [Nat.cast_ofNat] at hday hlen hsucc ⊢
          omega
      rw [yearOf_eq (by omega) hin]
      exact ⟨rfl, by omega, h1, h0⟩

/-- The days of 1970. -/
theorem years_first {day : Nat} (h : day < 365) : years STARTOFTIME day = (STARTOFTIME, day) := by
  have hlen : daysInYear STARTOFTIME = 365 := rfl
  rw [years, if_neg (by omega)]

theorem months_eq : ∀ (table : List Nat) (i day : Nat),
    months table i day = (i + (splitMonth table day).1, (splitMonth table day).2) := by
  intro table
  induction table with
  | nil => intro i day; rfl
  | cons l ls ih =>
      intro i day
      rw [months, splitMonth]
      by_cases h : l ≤ day
      · rw [if_pos h, if_neg (by omega), ih]
        simp only [Prod.mk.injEq, and_true]
        omega
      · rw [if_neg h, if_pos (by omega)]
        rfl

/-- The patched table is that of the year, but for the days after February 2100. -/
theorem splitMonth_patched {y day : Nat} (h0 : 1970 ≤ y) (h1 : y ≤ 2100) (hday : y = 2100 → day < 59) :
    splitMonth (if leapyear y then monthDays.set (FEBRUARY - 1) 29 else monthDays) day =
      splitMonth (monthLens (isLeap y)) day := by
  rcases Nat.lt_or_eq_of_le h1 with hlt | rfl
  · rw [leapyear_eq h0 hlt, monthLens]
    cases isLeap y <;> rfl
  · obtain hjan | hfeb : day < 31 ∨ day - 31 < 28 := by have := hday rfl; omega
    · simp [splitMonth, monthDays, monthLens, leapyear, FEBRUARY, hjan]
    · have hfeb' : day - 31 < 29 := by omega
      simp [splitMonth, monthDays, monthLens, leapyear, FEBRUARY, isLeap, hfeb, hfeb']

/-- The fields are the date and the time of day of `t`. -/
structure RtcTime.Shows (tm : RtcTime) (t : ℤ) : Prop where
  tm_year : tm.tm_year.toInt = (gmtime t).year + 1900
  tm_mon : tm.tm_mon.toInt = (gmtime t).mon + 1
  tm_mday : tm.tm_mday.toInt = (gmtime t).mday
  tm_hour : tm.tm_hour.toInt = (gmtime t).hour
  tm_min : tm.tm_min.toInt = (gmtime t).min
  tm_sec : tm.tm_sec.toInt = (gmtime t).sec

theorem toInt_ofNat {n : Nat} (h : n < 2 ^ 31) : (BitVec.ofNat 32 n).toInt = n := by
  have hnat : (BitVec.ofNat 32 n).toNat = n := by rw [BitVec.toNat_ofNat]; omega
  rw [BitVec.toInt_eq_toNat_of_lt (by omega), hnat]

theorem splitMonth_le (ls : List Nat) (d : Nat) :
    (splitMonth ls d).1 ≤ ls.length ∧ (splitMonth ls d).2 ≤ d := by
  have hsum := splitMonth_sum ls d
  refine ⟨?_, by omega⟩
  clear hsum
  induction ls generalizing d with
  | nil => simp [splitMonth]
  | cons l ls ih =>
      rw [splitMonth]
      split
      · simp
      · have := ih (d - l)
        simp only [List.length_cons]
        omega

/-- The year of the counter value and the day in it, as the first loop finds them. -/
theorem years_tim {tim : BitVec 32} (h : tim.toNat < march2100) :
    ∃ y n : Nat, years STARTOFTIME (tim.toNat / SECDAY) = (y, n) ∧ (y : ℤ) = yearOf (tim.toNat / 86400) ∧
      (n : ℤ) = tim.toNat / 86400 - yearStart y ∧ 1970 ≤ y ∧ y ≤ 2100 ∧ (y = 2100 → n < 59) ∧ n < 366 := by
  have hend : march2100 = (yearStart 2100 + 59) * 86400 := by decide
  have hstart : yearStart (1970 : Nat) = 0 := by decide
  have hd : ((tim.toNat / SECDAY : Nat) : ℤ) = tim.toNat / 86400 := rfl
  obtain ⟨hy, hn, hhi, hlo⟩ := @years_spec 1970 (tim.toNat / SECDAY) (by decide) (by decide)
    (by rw [hstart, hd]; omega)
  rw [hstart, zero_add, hd] at hy hn
  rw [← hy] at hn
  obtain ⟨h0, h1⟩ := yearOf_spec (tim.toNat / 86400)
  rw [← hy] at h1
  have hsucc := yearStart_succ (years 1970 (tim.toNat / SECDAY)).1
  have hlen := yearLen_bounds (years 1970 (tim.toNat / SECDAY)).1
  refine ⟨_, _, rfl, hy, hn, hlo, hhi, fun heq => ?_, ?_⟩
  · rw [show years STARTOFTIME (tim.toNat / SECDAY) = years 1970 (tim.toNat / SECDAY) from rfl] at heq ⊢
    rw [heq, Nat.cast_ofNat] at hn
    omega
  · rw [show years STARTOFTIME (tim.toNat / SECDAY) = years 1970 (tim.toNat / SECDAY) from rfl]
    omega

/-- Up to February 2100 `to_tm` shows the date and time of its argument. -/
theorem toTm_shows {tim : BitVec 32} (h : tim.toNat < march2100) :
    (toTm monthDays tim).1.Shows tim.toNat := by
  obtain ⟨y, n, hyears, hy, hn, hlo, hhi, hfeb, hlt⟩ := years_tim h
  have hpatch := splitMonth_patched hlo hhi hfeb
  obtain ⟨hmon, hmday⟩ := splitMonth_le (monthLens (isLeap y)) n
  have hlen : (monthLens (isLeap y)).length = 12 := rfl
  have hn' : ((tim.toNat : ℤ) / 86400 - yearStart y).toNat = n := by omega
  have hms : ((tim.toNat % SECDAY : Nat) : ℤ) = tim.toNat % 86400 := rfl
  have hsec : tim.toNat % SECDAY < 86400 := Nat.mod_lt _ (by decide)
  simp only [toTm, hyears, months_eq, hpatch]
  constructor
  all_goals
    simp only [gmtime, ← hy, hn']
    rw [toInt_ofNat (by omega)]
    push_cast
    omega

/-- The weekday is computed from what is left of the day, its number in the month. -/
theorem toTm_wday {tim : BitVec 32} (h : tim.toNat < march2100) :
    (toTm monthDays tim).1.tm_wday.toInt = ((gmtime tim.toNat).mday + 2) % 7 := by
  obtain ⟨y, n, hyears, hy, hn, hlo, hhi, hfeb, hlt⟩ := years_tim h
  have hpatch := splitMonth_patched hlo hhi hfeb
  have hn' : ((tim.toNat : ℤ) / 86400 - yearStart y).toNat = n := by omega
  simp only [toTm, hyears, months_eq, hpatch, gmtime, ← hy, hn']
  rw [toInt_ofNat (by omega)]
  push_cast
  omega

theorem toTm_table (tim : BitVec 32) : (toTm monthDays tim).2 = monthDays := by
  simp only [toTm]
  split <;> rfl

end CameraFw.Rtc
