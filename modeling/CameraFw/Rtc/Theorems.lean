import CameraFw.Rtc.Lemmas.Checks

/-!
# Setting and reading the real-time clock

The driver takes every valid date that it can represent but those before the epoch year, and some that
are none or that it cannot represent. What it takes up to February 2100 it gives back. The alarm it
gives back for the first hours of 1970 only, and the weekday is right in the months that begin with a
Wednesday.
-/

namespace CameraFw.Rtc

open CameraFw.Base

/-! ## States of the driver -/

/-- The driver gets into the state by calls, whatever is in its registers in the beginning. -/
def Reached (rtc : Driver) : Prop := ∃ rRTC rALM_0 es, List.foldl step (load rRTC rALM_0) es = rtc

structure Driver.Inv (rtc : Driver) : Prop where
  epoch : 1900 ≤ rtc.epoch.toNat
  month_days : rtc.month_days = monthDays

theorem inv_readTime {rtc : Driver} (h : rtc.Inv) (tim : BitVec 32) : (readTime rtc tim).2.Inv where
  epoch := h.epoch
  month_days := by
    have htable := toTm_table tim
    rw [← h.month_days] at htable
    exact htable.trans h.month_days

theorem inv_rtcSetTime {rtc : Driver} (h : rtc.Inv) (tm : RtcTime) : (rtcSetTime rtc tm).2.Inv := by
  rw [rtcSetTime]
  split <;> exact ⟨h.epoch, h.month_days⟩

theorem inv_rtcSetAlmTime {rtc : Driver} (h : rtc.Inv) (tm : RtcTime) : (rtcSetAlmTime rtc tm).2.Inv := by
  rw [rtcSetAlmTime]
  split <;> exact ⟨h.epoch, h.month_days⟩

theorem inv_step {rtc : Driver} (h : rtc.Inv) (e : Event) : (step rtc e).Inv := by
  cases e with
  | tick => exact ⟨h.epoch, h.month_days⟩
  | ioctl cmd =>
      cases cmd with
      | RTC_ALM_READ copied => cases copied <;> exact inv_readTime h _
      | RTC_RD_TIME copied => cases copied <;> exact inv_readTime h _
      | RTC_ALM_SET arg =>
          cases arg with
          | none => exact h
          | some tm => exact inv_rtcSetAlmTime h tm
      | RTC_SET_TIME capable arg =>
          cases capable with
          | false => exact h
          | true =>
              cases arg with
              | none => exact h
              | some tm => exact inv_rtcSetTime h tm
      | RTC_EPOCH_READ copied => cases copied <;> exact h
      | RTC_EPOCH_SET capable arg =>
          simp only [step, rtcIoctl]
          split
          · exact h
          · rename_i harg
            cases capable with
            | false => exact h
            | true => exact ⟨BitVec.not_lt.mp harg, h.month_days⟩
      | RTC_AIE => exact h
      | unsupported => exact h

theorem Reached.inv {rtc : Driver} (h : Reached rtc) : rtc.Inv := by
  obtain ⟨rRTC, rALM_0, es, rfl⟩ := h
  have hload : (load rRTC rALM_0).Inv := ⟨le_refl 1900, rfl⟩
  exact List.foldlRecOn es step hload fun _ h e _ => inv_step h e

/-! ## Dates the counter holds -/

section Dates

variable {tm : RtcTime} {epoch : BitVec 32} {w : Nat}

theorem narrow_eq (hw : w ≤ 32) (hw' : 8 ≤ w) {x : BitVec 32} (hx : x.toNat < 256) : narrow w x = x := by
  have hpow : 2 ^ 8 ≤ 2 ^ w := Nat.pow_le_pow_right (by decide) hw'
  exact BitVec.eq_of_toNat_eq (by rw [toNat_narrow hw, Nat.mod_eq_of_lt (by omega)])

/-- The fields of a date fit into a byte. -/
theorem RtcTime.Denotes.narrowed_eq (h : tm.Denotes epoch) (hw : w ≤ 32) (hw' : 8 ≤ w) :
    tm.narrowed w = tm := by
  obtain ⟨hmon, hday, ⟨hhour, hmin, hsec⟩, _⟩ := denotes_iff.mp h
  have hlen := monthLen_le (tm.tm_year.toInt + epoch.toNat) tm.tm_mon.toNat
  rw [RtcTime.narrowed, narrow_eq hw hw' (by omega), narrow_eq hw hw' (by omega), narrow_eq hw hw' (by omega),
    narrow_eq hw hw' (by omega), narrow_eq hw hw' (by omega)]

theorem RtcTime.Denotes.yearStart_le (h : tm.Denotes epoch) :
    yearStart (tm.tm_year.toInt + epoch.toNat) * 86400 ≤ tm.seconds epoch := by
  have hday := h.valid.mday.1
  have hhour := h.valid.hour.1
  have hmin := h.valid.min.1
  have hsec := h.valid.sec.1
  simp only [RtcTime.seconds, timegm, RtcTime.date, Int.sub_add_cancel] at hday hhour hmin hsec ⊢
  omega

/-- What 32 bits hold ends in 2106. -/
theorem RtcTime.Denotes.year_lt (h : tm.Denotes epoch) (hs : tm.seconds epoch < 2 ^ 32) :
    tm.tm_year.toInt + epoch.toNat < 2107 := by
  by_contra hge
  have hstart := h.yearStart_le
  have hend : 2 ^ 32 < yearStart 2107 * 86400 := by decide
  rcases lt_or_eq_of_le (not_lt.mp hge) with hlt | heq
  · have := yearStart_lt hlt
    omega
  · rw [← heq] at hstart
    omega

/-- The driver takes every date that 32 bits hold and that is not before the epoch year. -/
theorem RtcTime.Denotes.accepts (h : tm.Denotes epoch) (hs : tm.seconds epoch < 2 ^ 32)
    (hepoch : 1900 ≤ epoch.toNat) (hy : 0 ≤ tm.tm_year.toInt) (hw : w ≤ 32) (hw' : 8 ≤ w) :
    Accepts w epoch tm := by
  have hlt := h.year_lt hs
  have hint := toInt_nonneg hy
  exact ⟨by omega, by omega, by rwa [h.narrowed_eq hw hw']⟩

theorem RtcTime.Denotes.seconds_nonneg (h : tm.Denotes epoch) : 0 ≤ tm.seconds epoch := by
  have hstart := h.yearStart_le
  have hzero : yearStart 1970 = 0 := by decide
  rcases lt_or_eq_of_le h.year with hlt | heq
  · have := yearStart_lt hlt
    omega
  · rw [← heq] at hstart
    omega

end Dates

/-! ## Reading and setting -/

theorem rtcSetTime_zero_iff {rtc : Driver} {tm : RtcTime} :
    (rtcSetTime rtc tm).1 = 0 ↔ Accepts 8 rtc.epoch tm := by
  by_cases h : Accepts 8 rtc.epoch tm
  · simp [rtcSetTime, checkedTime_some (by decide) (by decide) h, h]
  · simp [rtcSetTime, checkedTime_none (by decide) (by decide) h, h, EINVAL]

theorem word_toInt (x : BitVec 32) : word x.toInt = x := BitVec.ofInt_toInt

/-- What is read from the counter, for the date that the counter holds. -/
theorem readTime_seconds {rtc : Driver} {tm : RtcTime} (hrtc : rtc.Inv) (h : tm.Denotes rtc.epoch)
    (hs : tm.seconds rtc.epoch < march2100) :
    { (readTime rtc (word (tm.seconds rtc.epoch))).1 with tm_wday := tm.tm_wday } = tm := by
  have hcount := toNat_word h.seconds_nonneg (hs.trans (by decide))
  have hshows := @toTm_shows (word (tm.seconds rtc.epoch)) (by rw [hcount]; exact hs)
  rw [hcount] at hshows
  obtain ⟨hyear, hmon, hmday, hhour, hmin, hsec⟩ := gmtime_timegm h.valid
  simp only [readTime, hrtc.month_days]
  generalize (toTm monthDays (word (tm.seconds rtc.epoch))).1 = t at hshows
  have hy : t.tm_year = tm.tm_year + rtc.epoch := by
    rw [← word_toInt t.tm_year, hshows.tm_year, RtcTime.seconds, hyear, RtcTime.date,
      Int.sub_add_cancel, map_add, word_toInt, word_toNat]
  have hm : t.tm_mon = tm.tm_mon + 1 := by
    rw [← word_toInt t.tm_mon, hshows.tm_mon, RtcTime.seconds, hmon, RtcTime.date,
      Int.toNat_of_nonneg h.mon, map_add, word_toInt, map_one]
  have hd : t.tm_mday = tm.tm_mday := BitVec.eq_of_toInt_eq (hshows.tm_mday.trans hmday)
  have hh : t.tm_hour = tm.tm_hour := BitVec.eq_of_toInt_eq (hshows.tm_hour.trans hhour)
  have hmi : t.tm_min = tm.tm_min := BitVec.eq_of_toInt_eq (hshows.tm_min.trans hmin)
  have hse : t.tm_sec = tm.tm_sec := BitVec.eq_of_toInt_eq (hshows.tm_sec.trans hsec)
  simp only [hy, hm, hd, hh, hmi, hse, add_sub_cancel_right]

/-- Up to February 2100 `to_tm` gives the date of the counter, and the driver gives back the date it is
set to, if that is not before the epoch year. -/
theorem setTime_getTime (rtc : Driver) (hrtc : Reached rtc) :
    (∀ tim : BitVec 32, tim.toNat < march2100 → (toTm rtc.month_days tim).1.Shows tim.toNat) ∧
      ∀ tm : RtcTime, tm.Denotes rtc.epoch → tm.seconds rtc.epoch < march2100 → 0 ≤ tm.tm_year.toInt →
        tm.tm_year.toInt ≤ 255 → (rtcSetTime rtc tm).1 = 0 ∧
          { (rtcGetTime (rtcSetTime rtc tm).2).1 with tm_wday := tm.tm_wday } = tm := by
  have hinv := hrtc.inv
  refine ⟨fun tim h => hinv.month_days ▸ toTm_shows h, fun tm h hs hy _ => ?_⟩
  have hacc : Accepts 8 rtc.epoch tm := h.accepts (hs.trans (by decide)) hinv.epoch hy (by decide) (by decide)
  refine ⟨rtcSetTime_zero_iff.mpr hacc, ?_⟩
  rw [rtcSetTime, checkedTime_some (by decide) (by decide) hacc, h.narrowed_eq (by decide) (by decide)]
  exact @readTime_seconds { rtc with rRTC := _ } tm ⟨hinv.epoch, hinv.month_days⟩ h hs

/-- Leap day of 2000, at noon, for the epoch 1970. -/
def leapDay2000 : RtcTime := ⟨0, 0, 12, 29, 1, 30, 0⟩

def epoch1970 : Driver := ⟨0, 0, 1970, monthDays⟩

theorem epoch1970_reached : Reached epoch1970 := ⟨0, 0, [.ioctl (.RTC_EPOCH_SET true 1970)], rfl⟩

theorem leapDay2000_denotes : leapDay2000.Denotes 1970 := by
  rw [denotes_iff]
  decide

theorem setTime_getTime_leapDay :
    (rtcSetTime epoch1970 leapDay2000).1 = 0 ∧
      { (rtcGetTime (rtcSetTime epoch1970 leapDay2000).2).1 with tm_wday := 0 } = leapDay2000 :=
  (setTime_getTime epoch1970 epoch1970_reached).2 leapDay2000 leapDay2000_denotes (by decide)
    (by decide) (by decide)

/-! ## What the driver takes -/

/-- No valid date is before the epoch year, and what the driver takes of the low bytes is what the
fields denote and can be represented. -/
structure Faithful (tm : RtcTime) (epoch : BitVec 32) : Prop where
  early : tm.tm_year.toInt < 0 → ¬(tm.Denotes epoch ∧ tm.seconds epoch < 2 ^ 32)
  bytes : Accepts 8 epoch tm → tm.narrowed 8 = tm ∧ tm.seconds epoch < 2 ^ 32

/-- The driver takes exactly the valid dates from 1970 on that 32 bits can represent, and is unchanged
otherwise, exactly if the fields are no valid date before the epoch year, and no others that their low
bytes make valid or that come too late. -/
theorem rtcSetTime_valid_iff (rtc : Driver) (hrtc : Reached rtc) (tm : RtcTime) :
    (((rtcSetTime rtc tm).1 = 0 ↔ tm.Denotes rtc.epoch ∧ tm.seconds rtc.epoch < 2 ^ 32) ∧
        ((rtcSetTime rtc tm).1 ≠ 0 → rtcSetTime rtc tm = (-EINVAL, rtc))) ↔ Faithful tm rtc.epoch := by
  have hkeep : (rtcSetTime rtc tm).1 ≠ 0 → rtcSetTime rtc tm = (-EINVAL, rtc) := by
    intro hne
    rw [ne_eq, rtcSetTime_zero_iff] at hne
    rw [rtcSetTime, checkedTime_none (by decide) (by decide) hne]
  rw [rtcSetTime_zero_iff, and_iff_left hkeep]
  constructor
  · intro hiff
    refine ⟨fun hneg hden => ?_, fun hacc => ?_⟩
    · have := (yrs_eq (hiff.mpr hden).tm_year (hiff.mpr hden).year).2
      omega
    · obtain ⟨hden, hs⟩ := hiff.mp hacc
      exact ⟨hden.narrowed_eq (by decide) (by decide), hs⟩
  · rintro ⟨hearly, hbytes⟩
    refine ⟨fun hacc => ?_, fun hden => ?_⟩
    · obtain ⟨heq, hs⟩ := hbytes hacc
      exact ⟨heq ▸ hacc.denotes, hs⟩
    · refine hden.1.accepts hden.2 hrtc.inv.epoch ?_ (by decide) (by decide)
      by_contra hneg
      exact hearly (by omega) hden

theorem rtcSetTime_valid_leapDay :
    ((rtcSetTime epoch1970 leapDay2000).1 = 0 ↔
      leapDay2000.Denotes 1970 ∧ leapDay2000.seconds 1970 < 2 ^ 32) ∧
      ((rtcSetTime epoch1970 leapDay2000).1 ≠ 0 →
        rtcSetTime epoch1970 leapDay2000 = (-EINVAL, epoch1970)) := by
  refine (rtcSetTime_valid_iff epoch1970 epoch1970_reached leapDay2000).mpr
    ⟨fun hneg => ?_, fun _ => ⟨rfl, by decide⟩⟩
  exact absurd hneg (by decide)

/-- Day 257 of January 2000, whose low byte is 1. -/
def day257 : RtcTime := ⟨0, 0, 0, 257, 0, 100, 0⟩

/-- The driver takes it, and sets the clock to the first of January. -/
theorem day257_taken :
    rtcSetTime (load 0 0) day257 = (0, load 946684800 0) ∧ Reached (load 0 0) ∧
      ¬((rtcSetTime (load 0 0) day257).1 = 0 ↔ day257.Denotes 1900 ∧ day257.seconds 1900 < 2 ^ 32) := by
  have hset : rtcSetTime (load 0 0) day257 = (0, load 946684800 0) := by decide
  refine ⟨hset, ⟨0, 0, [], rfl⟩, fun hiff => ?_⟩
  obtain ⟨_, hday, _⟩ := denotes_iff.mp (hiff.mp (by rw [hset])).1
  exact absurd hday.2 (by decide)

/-! ## The alarm -/

theorem rtcSetAlmTime_zero_iff {rtc : Driver} {tm : RtcTime} :
    (rtcSetAlmTime rtc tm).1 = 0 ↔ Accepts 32 rtc.epoch tm := by
  by_cases h : Accepts 32 rtc.epoch tm
  · simp [rtcSetAlmTime, checkedTime_some (by decide) (by decide) h, h]
  · simp [rtcSetAlmTime, checkedTime_none (by decide) (by decide) h, h, EINVAL]

theorem toInt_of_word {x : BitVec 32} {z : ℤ} (h : word z = x) (h0 : 0 ≤ z) (h1 : z < 2 ^ 31) :
    x.toInt = z := by
  have hnat := toNat_word h0 (h1.trans (by decide))
  rw [h] at hnat
  rw [BitVec.toInt_eq_toNat_of_lt (by omega), hnat]

/-- A date that is read from the counter is the one that the counter holds. -/
theorem seconds_of_readTime {rtc : Driver} {tm : RtcTime} {tim : BitVec 32} (hrtc : rtc.Inv)
    (h : tm.Denotes rtc.epoch) (hs : tm.seconds rtc.epoch < 2 ^ 32) (htim : tim.toNat < march2100)
    (hread : { (readTime rtc tim).1 with tm_wday := tm.tm_wday } = tm) :
    tm.seconds rtc.epoch = tim.toNat := by
  have hshows := toTm_shows htim
  simp only [readTime, hrtc.month_days] at hread
  generalize (toTm monthDays tim).1 = t at hread hshows
  have hlt := h.year_lt hs
  have hge := h.year
  have hmon0 := h.mon
  have hmon1 := h.valid.mon
  have hback := timegm_gmtime tim.toNat
  obtain ⟨sec, min, hour, mday, mon, year, wday⟩ := tm
  simp only [RtcTime.mk.injEq, and_true] at hread
  obtain ⟨rfl, rfl, rfl, rfl, rfl, rfl⟩ := hread
  simp only [RtcTime.date] at hlt hge hmon0 hmon1
  have hyear : t.tm_year.toInt = (t.tm_year - rtc.epoch).toInt + rtc.epoch.toNat :=
    toInt_of_word (by rw [map_add, word_toInt, word_toNat, sub_add_cancel]) (by omega) (by omega)
  have hmon : t.tm_mon.toInt = (t.tm_mon - 1).toInt + 1 :=
    toInt_of_word (by rw [map_add, word_toInt, map_one, sub_add_cancel]) (by omega) (by omega)
  have hmon' : (t.tm_mon - 1).toInt.toNat = (gmtime tim.toNat).mon := by
    have := hshows.tm_mon
    omega
  rw [RtcTime.seconds, ← hback]
  simp only [timegm, RtcTime.date, ← hyear, hmon', hshows.tm_sec, hshows.tm_min, hshows.tm_hour,
    hshows.tm_mday, hshows.tm_year, Int.add_sub_cancel]

/-- The alarm is read back as it was set exactly if its date is not before the epoch year and in the
first 2^16 seconds of 1970, for the register is read as a halfword. -/
theorem getAlmTime_setAlmTime_iff (rtc : Driver) (hrtc : Reached rtc) (tm : RtcTime)
    (h : tm.Denotes rtc.epoch) (hs : tm.seconds rtc.epoch < 2 ^ 32) :
    ((rtcSetAlmTime rtc tm).1 = 0 ∧
      { (rtcGetAlmTime (rtcSetAlmTime rtc tm).2).1 with tm_wday := tm.tm_wday } = tm) ↔
      0 ≤ tm.tm_year.toInt ∧ tm.seconds rtc.epoch < 2 ^ 16 := by
  have hinv := hrtc.inv
  have hcount := toNat_word h.seconds_nonneg hs
  have hnarrow : ((narrow 16 (word (tm.seconds rtc.epoch))).toNat : ℤ) = tm.seconds rtc.epoch % 2 ^ 16 := by
    rw [toNat_narrow (by decide)]
    omega
  have hend : (2 : ℤ) ^ 16 < march2100 := by decide
  rw [rtcSetAlmTime_zero_iff]
  constructor
  · rintro ⟨hacc, hread⟩
    rw [rtcSetAlmTime, checkedTime_some (by decide) (by decide) hacc,
      h.narrowed_eq (by decide) (by decide)] at hread
    have hback : tm.seconds rtc.epoch = _ :=
      @seconds_of_readTime { rtc with rALM_0 := word (tm.seconds rtc.epoch) } tm
      (narrow 16 (word (tm.seconds rtc.epoch))) ⟨hinv.epoch, hinv.month_days⟩ h hs (by omega) hread
    rw [hnarrow] at hback
    have := (yrs_eq hacc.tm_year hacc.year).2
    omega
  · rintro ⟨hy, hlt⟩
    have hacc : Accepts 32 rtc.epoch tm := h.accepts hs hinv.epoch hy (by decide) (by decide)
    have hsame : narrow 16 (word (tm.seconds rtc.epoch)) = word (tm.seconds rtc.epoch) :=
      BitVec.eq_of_toNat_eq (by have := h.seconds_nonneg; omega)
    refine ⟨hacc, ?_⟩
    rw [rtcSetAlmTime, checkedTime_some (by decide) (by decide) hacc,
      h.narrowed_eq (by decide) (by decide), rtcGetAlmTime, hsame]
    exact @readTime_seconds { rtc with rALM_0 := _ } tm ⟨hinv.epoch, hinv.month_days⟩ h (hlt.trans hend)

/-- Ten o'clock on the first of January 1970. -/
def firstMorning : RtcTime := ⟨0, 0, 10, 1, 0, 0, 0⟩

theorem firstMorning_denotes : firstMorning.Denotes 1970 := by
  rw [denotes_iff]
  decide

theorem getAlmTime_setAlmTime_firstMorning :
    (rtcSetAlmTime epoch1970 firstMorning).1 = 0 ∧
      { (rtcGetAlmTime (rtcSetAlmTime epoch1970 firstMorning).2).1 with tm_wday := 0 } = firstMorning :=
  (getAlmTime_setAlmTime_iff epoch1970 epoch1970_reached firstMorning firstMorning_denotes (by decide)).mpr
    ⟨by decide, by decide⟩

/-- An alarm at noon of leap day 2000 is read back as 12:51:12 on the first of January 1970. -/
theorem getAlmTime_leapDay :
    leapDay2000.Denotes epoch1970.epoch ∧ leapDay2000.seconds epoch1970.epoch < 2 ^ 32 ∧ Reached epoch1970 ∧
      rtcSetAlmTime epoch1970 leapDay2000 = (0, { epoch1970 with rALM_0 := 951825600 }) ∧
      { (rtcGetAlmTime { epoch1970 with rALM_0 := 951825600 }).1 with tm_wday := 0 } =
        ⟨12, 51, 12, 1, 0, 0, 0⟩ ∧
      leapDay2000 ≠ ⟨12, 51, 12, 1, 0, 0, 0⟩ := by
  refine ⟨leapDay2000_denotes, by decide, epoch1970_reached, by decide, ?_, by decide⟩
  simp only [rtcGetAlmTime, readTime, toTm,
    years_first (show (narrow 16 951825600).toNat / SECDAY < 365 by decide)]
  decide

/-! ## The weekday -/

def wednesday : ℤ := 3

/-- The first day of the month that `to_tm` shows, in days since 1970. -/
def RtcTime.firstDay (tm : RtcTime) : ℤ := monthStart tm.tm_year.toInt (tm.tm_mon.toInt - 1).toNat

/-- The day that `to_tm` shows. -/
def RtcTime.day (tm : RtcTime) : ℤ := tm.firstDay + (tm.tm_mday.toInt - 1)

/-- The first day of the month that the time `t` lies in. -/
def firstOfMonth (t : ℤ) : ℤ := monthStart ((gmtime t).year + 1900) (gmtime t).mon

theorem RtcTime.Shows.firstDay {tm : RtcTime} {t : ℤ} (h : tm.Shows t) : tm.firstDay = firstOfMonth t := by
  rw [RtcTime.firstDay, firstOfMonth, h.tm_year, h.tm_mon, Int.add_sub_cancel, Int.toNat_natCast]

/-- Up to February 2100 `to_tm` gives the weekday of its date exactly in the months that begin with a
Wednesday. -/
theorem toTm_wday_iff (rtc : Driver) (hrtc : Reached rtc) (tim : BitVec 32) (h : tim.toNat < march2100) :
    (toTm rtc.month_days tim).1.tm_wday.toInt = weekday (toTm rtc.month_days tim).1.day ↔
      weekday (firstOfMonth tim.toNat) = wednesday := by
  rw [hrtc.inv.month_days, toTm_wday h, RtcTime.day, (toTm_shows h).firstDay, (toTm_shows h).tm_mday]
  unfold weekday wednesday
  omega

/-- The first of April 1970 is a Wednesday. -/
theorem toTm_wday_april : weekday (firstOfMonth 7776000) = wednesday ∧
    (toTm monthDays 7776000).1.tm_wday.toInt = weekday (toTm monthDays 7776000).1.day := by
  have hapril : weekday (firstOfMonth 7776000) = wednesday := by decide
  exact ⟨hapril, (toTm_wday_iff (load 0 0) ⟨0, 0, [], rfl⟩ 7776000 (by decide)).mpr hapril⟩

/-- The first of January 1970 is a Thursday. -/
theorem toTm_wday_wrong :
    (toTm (load 0 0).month_days 0).1.tm_wday = 3 ∧ weekday (toTm (load 0 0).month_days 0).1.day = 4 ∧
      ((0 : BitVec 32).toNat : ℤ) < march2100 ∧ Reached (load 0 0) := by
  refine ⟨?_, ?_, by decide, 0, 0, [], rfl⟩
  all_goals
    rw [toTm, years_first (by decide)]
    decide

end CameraFw.Rtc
