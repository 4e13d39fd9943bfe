import CameraFw.Rtc.Lemmas.Time

/-!
# The checks of the driver

What the fields of `struct rtc_time` denote, and which of them the functions that set the clock and the
alarm take.
-/

namespace CameraFw.Rtc

open CameraFw.Base

/-! ## What the fields denote -/

/-- The date and time of day that the fields stand for. -/
def RtcTime.date (tm : RtcTime) (epoch : BitVec 32) : Tm :=
  ⟨tm.tm_sec.toInt, tm.tm_min.toInt, tm.tm_hour.toInt, tm.tm_mday.toInt, tm.tm_mon.toInt.toNat,
    tm.tm_year.toInt + epoch.toNat - 1900, 0, 0⟩

def RtcTime.seconds (tm : RtcTime) (epoch : BitVec 32) : ℤ := timegm (tm.date epoch)

/-- The fields denote a valid date and time of day from 1970 on. -/
structure RtcTime.Denotes (tm : RtcTime) (epoch : BitVec 32) : Prop where
  mon : 0 ≤ tm.tm_mon.toInt
  valid : (tm.date epoch).Valid
  year : 1970 ≤ tm.tm_year.toInt + epoch.toNat

/-- The fields as variables of `w` bits hold them. -/
def RtcTime.narrowed (w : Nat) (tm : RtcTime) : RtcTime :=
  { tm with tm_sec := narrow w tm.tm_sec, tm_min := narrow w tm.tm_min, tm_hour := narrow w tm.tm_hour
            tm_mday := narrow w tm.tm_mday, tm_mon := narrow w tm.tm_mon }

/-- The fields that the driver takes, with variables of `w` bits. -/
structure Accepts (w : Nat) (epoch : BitVec 32) (tm : RtcTime) : Prop where
  tm_year : tm.tm_year.toNat ≤ 255
  year : tm.tm_year.toNat + epoch.toNat < 2 ^ 32
  denotes : (tm.narrowed w).Denotes epoch

theorem toNat_lt_iff {x : BitVec 32} {k : Nat} (hk : k ≤ 2 ^ 31) :
    x.toNat < k ↔ 0 ≤ x.toInt ∧ x.toInt < k := by
  have hlt := x.isLt
  rw [BitVec.toInt_eq_toNat_cond]
  split <;> omega

theorem toInt_nonneg {x : BitVec 32} (h : 0 ≤ x.toInt) : x.toInt = x.toNat := by
  have hlt := x.isLt
  rw [BitVec.toInt_eq_toNat_cond] at h ⊢
  split at h <;> omega

theorem toNat_narrow {w : Nat} (hw : w ≤ 32) (x : BitVec 32) : (narrow w x).toNat = x.toNat % 2 ^ w := by
  have hlt : x.toNat % 2 ^ w < 2 ^ 32 :=
    lt_of_lt_of_le (Nat.mod_lt _ (by positivity)) (Nat.pow_le_pow_right (by decide) hw)
  rw [narrow, BitVec.toNat_setWidth, BitVec.toNat_setWidth, Nat.mod_eq_of_lt hlt]

/-- The month in the variable of the driver counts from 1. -/
theorem narrow_succ {w : Nat} (hw : w ≤ 32) (hw' : 8 ≤ w) (x : BitVec 32) {k : Nat} (hk : k < 12) :
    (narrow w (x + 1)).toNat = k + 1 ↔ (narrow w x).toNat = k := by
  have hpow : 2 ^ 8 ≤ 2 ^ w := Nat.pow_le_pow_right (by decide) hw'
  have hlt : x.toNat % 2 ^ w < 2 ^ w := Nat.mod_lt _ (by positivity)
  rw [toNat_narrow hw, toNat_narrow hw, BitVec.toNat_add, Nat.mod_mod_of_dvd _ (pow_dvd_pow 2 hw),
    Nat.add_mod, show (1 : BitVec 32).toNat = 1 from rfl, Nat.mod_eq_of_lt (show 1 < 2 ^ w by omega)]
  generalize x.toNat % 2 ^ w = r at hlt
  rcases Nat.lt_or_ge (r + 1) (2 ^ w) with h | h
  · rw [Nat.mod_eq_of_lt h]
    omega
  · rw [show r + 1 = 2 ^ w by omega, Nat.mod_self]
    omega

theorem umod_eq_zero {x : BitVec 32} {k : Nat} (hk : k < 2 ^ 32) :
    x % BitVec.ofNat 32 k = 0 ↔ (x.toNat : ℤ) % k = 0 := by
  rw [← BitVec.toNat_inj, BitVec.toNat_umod, BitVec.toNat_ofNat, Nat.mod_eq_of_lt hk]
  norm_cast

theorem leapYr_iff (yrs : BitVec 32) :
    ((yrs % 4 = 0 ∧ yrs % 100 ≠ 0) ∨ yrs % 400 = 0) ↔ isLeap yrs.toNat = true := by
  have h4 : yrs % 4 = 0 ↔ (yrs.toNat : ℤ) % 4 = 0 := umod_eq_zero (by decide)
  have h100 : yrs % 100 = 0 ↔ (yrs.toNat : ℤ) % 100 = 0 := umod_eq_zero (by decide)
  have h400 : yrs % 400 = 0 ↔ (yrs.toNat : ℤ) % 400 = 0 := umod_eq_zero (by decide)
  rw [h4, ne_eq, h100, h400, isLeap, decide_eq_true_iff]
  omega

theorem daysInMo_eq {m : Nat} (hm : m < 12) (leap : Bool) :
    daysInMo.getD (m + 1) 0 + (if m + 1 = 2 ∧ leap = true then 1 else 0) = (monthLens leap).getD m 0 := by
  interval_cases m <;> cases leap <;> rfl

theorem monthLen_le (y : ℤ) (m : Nat) : monthLen y m ≤ 31 := by
  rw [monthLen, List.getD_eq_getElem?_getD]
  cases h : (monthLens (isLeap y))[m]? with
  | none => simp
  | some l =>
      have hmem := List.mem_of_getElem? h
      cases hleap : isLeap y <;> simp [monthLens, hleap] at hmem ⊢ <;> omega

/-- A date in terms of the fields as unsigned words. -/
theorem denotes_iff {tm : RtcTime} {epoch : BitVec 32} :
    tm.Denotes epoch ↔ tm.tm_mon.toNat < 12 ∧
      (1 ≤ tm.tm_mday.toNat ∧ tm.tm_mday.toNat ≤ monthLen (tm.tm_year.toInt + epoch.toNat) tm.tm_mon.toNat) ∧
      (tm.tm_hour.toNat < 24 ∧ tm.tm_min.toNat < 60 ∧ tm.tm_sec.toNat < 60) ∧
        1970 ≤ tm.tm_year.toInt + epoch.toNat := by
  have hyear : (tm.date epoch).year + 1900 = tm.tm_year.toInt + epoch.toNat := Int.sub_add_cancel _ _
  have hlen := monthLen_le (tm.tm_year.toInt + epoch.toNat) tm.tm_mon.toNat
  constructor
  · rintro ⟨hmon, ⟨hmon', hday, hhour, hmin, hsec⟩, hy⟩
    rw [hyear] at hday
    have hm : tm.tm_mon.toInt.toNat = tm.tm_mon.toNat := by rw [toInt_nonneg hmon, Int.toNat_natCast]
    have hd := toInt_nonneg (show 0 ≤ tm.tm_mday.toInt from le_trans (by decide) hday.1)
    simp only [RtcTime.date, hm, hd] at hmon' hday
    exact ⟨hmon', by omega, ⟨(toNat_lt_iff (by decide)).mpr hhour, (toNat_lt_iff (by decide)).mpr hmin,
      (toNat_lt_iff (by decide)).mpr hsec⟩, hy⟩
  · rintro ⟨hmon, hday, ⟨hhour, hmin, hsec⟩, hy⟩
    have hmon' := (toNat_lt_iff (by decide)).mp hmon
    have hm : tm.tm_mon.toInt.toNat = tm.tm_mon.toNat := by rw [toInt_nonneg hmon'.1, Int.toNat_natCast]
    have hd := toInt_nonneg ((toNat_lt_iff (by decide)).mp (show tm.tm_mday.toNat < 32 by omega)).1
    refine ⟨hmon'.1, ⟨hm.trans_lt hmon, ?_, (toNat_lt_iff (by decide)).mp hhour,
      (toNat_lt_iff (by decide)).mp hmin, (toNat_lt_iff (by decide)).mp hsec⟩, hy⟩
    rw [hyear]
    simp only [RtcTime.date, hm, hd]
    omega

/-- The check of the year: the sum does not go beyond 32 bits, or it would be below 255. -/
theorem year_check {tm_year epoch : BitVec 32} :
    ¬tm_year + epoch < 1970 ∧ ¬tm_year + epoch - epoch > 255 ↔
      tm_year.toNat ≤ 255 ∧ tm_year.toNat + epoch.toNat < 2 ^ 32 ∧ 1970 ≤ tm_year.toNat + epoch.toNat := by
  have h1 := tm_year.isLt
  have h2 := epoch.isLt
  rw [add_sub_cancel_right, gt_iff_lt, BitVec.lt_def, BitVec.lt_def, BitVec.toNat_add]
  simp only [show (1970 : BitVec 32).toNat = 1970 from rfl, show (255 : BitVec 32).toNat = 255 from rfl]
  omega

/-- The checks of the month and the day; `mon` counts from 1, and 0 has no days. -/
theorem day_check {mon day : BitVec 32} {leap : Bool} :
    ¬(mon > 12 ∨ day = 0) ∧
        ¬day.toNat > daysInMo.getD mon.toNat 0 + (if mon = 2 ∧ leap = true then 1 else 0) ↔
      ∃ m < 12, mon.toNat = m + 1 ∧ 1 ≤ day.toNat ∧ day.toNat ≤ (monthLens leap).getD m 0 := by
  have htwo : mon = 2 ↔ mon.toNat = 2 := by rw [← BitVec.toNat_inj]; rfl
  have hzero : day = 0 ↔ day.toNat = 0 := by rw [← BitVec.toNat_inj]; rfl
  rw [gt_iff_lt, BitVec.lt_def, show (12 : BitVec 32).toNat = 12 from rfl]
  simp only [htwo, hzero]
  constructor
  · rintro ⟨hmon, hday⟩
    obtain ⟨m, hm⟩ : ∃ m, mon.toNat = m + 1 := by
      refine ⟨mon.toNat - 1, ?_⟩
      by_contra h0
      rw [show mon.toNat = 0 by omega] at hday
      simp [daysInMo] at hday
      omega
    have hlt : m < 12 := by omega
    rw [hm, daysInMo_eq hlt] at hday
    exact ⟨m, hlt, hm, by omega, by omega⟩
  · rintro ⟨m, hlt, hm, hlo, hhi⟩
    rw [hm, daysInMo_eq hlt]
    omega

section Accept

variable {w : Nat} {epoch : BitVec 32} {tm : RtcTime}

theorem yrs_eq {tm_year : BitVec 32} (h : tm_year.toNat ≤ 255) (hsum : tm_year.toNat + epoch.toNat < 2 ^ 32) :
    ((tm_year + epoch).toNat : ℤ) = tm_year.toInt + epoch.toNat ∧ tm_year.toInt = tm_year.toNat := by
  have hint := toInt_nonneg ((toNat_lt_iff (by decide)).mp (Nat.lt_succ_of_le h)).1
  rw [BitVec.toNat_add, Nat.mod_eq_of_lt hsum, hint]
  exact ⟨by push_cast; rfl, rfl⟩

theorem accepts_iff (hw : w ≤ 32) (hw' : 8 ≤ w) :
    Accepts w epoch tm ↔
      (¬tm.tm_year + epoch < 1970 ∧ ¬tm.tm_year + epoch - epoch > 255) ∧
      (¬(narrow w (tm.tm_mon + 1) > 12 ∨ narrow w tm.tm_mday = 0) ∧
        ¬(narrow w tm.tm_mday).toNat > daysInMo.getD (narrow w (tm.tm_mon + 1)).toNat 0 +
          (if narrow w (tm.tm_mon + 1) = 2 ∧ isLeap (tm.tm_year + epoch).toNat = true then 1 else 0)) ∧
      ¬(narrow w tm.tm_hour ≥ 24 ∨ narrow w tm.tm_min ≥ 60 ∨ narrow w tm.tm_sec ≥ 60) := by
  have htime : ¬(narrow w tm.tm_hour ≥ 24 ∨ narrow w tm.tm_min ≥ 60 ∨ narrow w tm.tm_sec ≥ 60) ↔
      (narrow w tm.tm_hour).toNat < 24 ∧ (narrow w tm.tm_min).toNat < 60 ∧
        (narrow w tm.tm_sec).toNat < 60 := by
    simp only [not_or, ge_iff_le, BitVec.not_le]
    rfl
  rw [year_check, day_check, htime]
  constructor
  · intro h
    obtain ⟨hyrs, hint⟩ := yrs_eq h.tm_year h.year
    obtain ⟨hmon, hday, htm, hy⟩ := denotes_iff.mp h.denotes
    have hy' : 1970 ≤ tm.tm_year.toInt + epoch.toNat := hy
    rw [hyrs]
    exact ⟨⟨h.tm_year, h.year, by omega⟩, ⟨_, hmon, (narrow_succ hw hw' _ hmon).mpr rfl, hday⟩, htm⟩
  · rintro ⟨⟨hty, hsum, hy⟩, ⟨m, hm, hmon, hday⟩, htm⟩
    obtain ⟨hyrs, hint⟩ := yrs_eq hty hsum
    obtain rfl := (narrow_succ hw hw' _ hm).mp hmon
    rw [hyrs] at hday
    have hy' : 1970 ≤ tm.tm_year.toInt + epoch.toNat := by omega
    exact ⟨hty, hsum, denotes_iff.mpr ⟨hm, hday, htm, hy'⟩⟩

/-- The variables of the driver hold the date that the narrowed fields denote. -/
theorem Accepts.date_eq (hw : w ≤ 32) (hw' : 8 ≤ w) (h : Accepts w epoch tm) :
    (tm.narrowed w).date epoch = ⟨(narrow w tm.tm_sec).toNat, (narrow w tm.tm_min).toNat,
      (narrow w tm.tm_hour).toNat,
      (narrow w tm.tm_mday).toNat, (narrow w (tm.tm_mon + 1)).toNat - 1,
        (tm.tm_year + epoch).toNat - 1900, 0, 0⟩ := by
  obtain ⟨hyrs, _⟩ := yrs_eq h.tm_year h.year
  obtain ⟨hmon, _, _⟩ := denotes_iff.mp h.denotes
  have hvalid := h.denotes.valid
  have hmon' := (narrow_succ hw hw' tm.tm_mon hmon).mpr rfl
  have hm := toInt_nonneg h.denotes.mon
  simp only [RtcTime.date, RtcTime.narrowed, Tm.mk.injEq, and_true] at hm ⊢
  refine ⟨toInt_nonneg hvalid.sec.1, toInt_nonneg hvalid.min.1, toInt_nonneg hvalid.hour.1,
    toInt_nonneg (le_trans (by decide) hvalid.mday.1), ?_, by omega⟩
  rw [hm, hmon']
  rfl

theorem checkedTime_some (hw : w ≤ 32) (hw' : 8 ≤ w) (h : Accepts w epoch tm) :
    checkedTime w epoch tm = some (word ((tm.narrowed w).seconds epoch)) := by
  obtain ⟨⟨h1, h5⟩, ⟨h2, h3⟩, h4⟩ := (accepts_iff hw hw').mp h
  obtain ⟨hyrs, _⟩ := yrs_eq h.tm_year h.year
  obtain ⟨m, hm, hmon, _⟩ := day_check.mp ⟨h2, h3⟩
  have hyear : 1 ≤ (tm.tm_year + epoch).toNat := by
    have hy : 1970 ≤ tm.tm_year.toInt + epoch.toNat := h.denotes.year
    omega
  simp only [checkedTime, leapYr_iff]
  rw [if_neg h1, if_neg h2, if_neg h3, if_neg h4, if_neg h5, RtcTime.seconds, h.date_eq hw hw',
    mktime_eq hyear (by omega) (by omega)]

theorem checkedTime_none (hw : w ≤ 32) (hw' : 8 ≤ w) (h : ¬Accepts w epoch tm) :
    checkedTime w epoch tm = none := by
  rw [accepts_iff hw hw'] at h
  simp only [checkedTime, leapYr_iff]
  generalize
    (if narrow w (tm.tm_mon + 1) = 2 ∧ isLeap (tm.tm_year + epoch).toNat = true then 1 else 0) = extra at h ⊢
  split
  · rfl
  · split
    · rfl
    · split
      · rfl
      · split
        · rfl
        · split
          · rfl
          · exact absurd ⟨⟨‹_›, ‹_›⟩, ⟨‹_›, ‹_›⟩, ‹_›⟩ h

end Accept

end CameraFw.Rtc
