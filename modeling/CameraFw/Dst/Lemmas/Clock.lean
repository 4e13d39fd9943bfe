import CameraFw.Dst.Clock

/-!
# What one step does to the clock
-/

namespace CameraFw.Dst

open CameraFw.Base

variable {tzone : Fin 76} {s : Sys}

@[simp] theorem tick_std (s : Sys) (n : Nat) : (s.tick n).std = s.std + n := rfl
@[simp] theorem tick_clock (s : Sys) (n : Nat) : (s.tick n).clock = s.clock + n := rfl
@[simp] theorem tick_rtc (s : Sys) (n : Nat) : (s.tick n).rtc = s.rtc + n := rfl
@[simp] theorem tick_dsv (s : Sys) (n : Nat) : (s.tick n).dsv = s.dsv := rfl

/-! ## `cron` -/

def hourMoved (tzone : Fin 76) (s : Sys) : Int :=
  if daylightSaving tzone s.clock = s.dsv then 0 else if s.dsv ≠ 0 then -3600 else 3600

theorem checkDaylight_same {e : Nat} (h : daylightSaving tzone s.clock = s.dsv) :
    checkDaylight tzone s e = s.tick e := if_neg (not_not.mpr h)

theorem checkDaylight_clock {e : Nat} :
    (checkDaylight tzone s e).clock = s.clock + e + hourMoved tzone s := by
  unfold hourMoved
  by_cases h : daylightSaving tzone s.clock = s.dsv
  · rw [checkDaylight_same h, if_pos h]; simp
  · rw [checkDaylight, if_pos h, if_neg h]
    by_cases hd : s.dsv ≠ 0
    · simp only [if_pos hd, mktime_localtime]; rfl
    · simp only [if_neg hd, mktime_localtime]; rfl

theorem checkDaylight_std {e : Nat} : (checkDaylight tzone s e).std = s.std + e := by
  unfold checkDaylight
  dsimp only
  split
  · split <;> rfl
  · rfl

def Sys.Flagged (s : Sys) : Prop := s.dsv = 0 ∨ s.dsv = 1

theorem hourMoved_eq (hf : s.Flagged) :
    hourMoved tzone s = 3600 * (daylightSaving tzone s.clock - s.dsv) := by
  unfold hourMoved
  rcases hf with hd | hd <;> rcases daylightSaving_zero_or_one tzone s.clock with hn | hn <;> rw [hd,
    hn] <;> rfl

theorem checkDaylight_dsv {e : Nat} (hf : s.Flagged) :
    (checkDaylight tzone s e).dsv = daylightSaving tzone s.clock := by
  by_cases h : daylightSaving tzone s.clock = s.dsv
  · rw [checkDaylight_same h, h]; rfl
  · rw [checkDaylight, if_pos h]
    rcases hf with hd | hd <;> rcases daylightSaving_zero_or_one tzone s.clock with hn | hn <;> rw [hd,
      hn] at h ⊢
    · exact absurd rfl h
    · rfl
    · rfl
    · exact absurd rfl h

theorem checkDaylight_flagged {e : Nat} (hf : s.Flagged) : (checkDaylight tzone s e).Flagged := by
  unfold Sys.Flagged
  rw [checkDaylight_dsv hf]
  exact daylightSaving_zero_or_one tzone s.clock

theorem checkDaylight_rtc {e : Nat} (hr : s.rtc = s.clock) :
    (checkDaylight tzone s e).rtc = (checkDaylight tzone s e).clock := by
  unfold checkDaylight
  dsimp only
  split
  · split <;> rfl
  · simp [hr]

/-- The clock shows standard time, with the hour that the flag tells of. -/
structure Sys.Kept (s : Sys) : Prop where
  flagged : s.Flagged
  clock : s.clock = s.std + 3600 * s.dsv

theorem Sys.Kept.tick (h : s.Kept) (n : Nat) : (s.tick n).Kept :=
  ⟨h.flagged, by simp only [tick_clock, tick_std, tick_dsv, h.clock]; omega⟩

theorem Sys.Kept.checkDaylight (h : s.Kept) (e : Nat) : (checkDaylight tzone s e).Kept := by
  refine ⟨checkDaylight_flagged h.flagged, ?_⟩
  rw [checkDaylight_clock, hourMoved_eq h.flagged, checkDaylight_std, checkDaylight_dsv h.flagged, h.clock]
  omega

/-! ## `NTP_update` -/

theorem ntpTime_eq (utc clock : Int) :
    ntpTime tzone true utc clock =
      utc + adjustTzTime tzone + 3600 * daylightSaving tzone (utc + adjustTzTime tzone) := by
  have hnew : clock + (utc - (clock - adjustTzTime tzone)) = utc + adjustTzTime tzone := by omega
  unfold ntpTime
  simp only [hnew, ite_self, true_and]
  rcases daylightSaving_zero_or_one tzone (utc + adjustTzTime tzone) with h | h <;> simp [h]

theorem setRtcTime_clock (s : Sys) : s.setRtcTime.clock = s.clock := by unfold Sys.setRtcTime; split <;> rfl
theorem setRtcTime_std (s : Sys) : s.setRtcTime.std = s.std := by unfold Sys.setRtcTime; split <;> rfl
theorem setRtcTime_dsv (s : Sys) : s.setRtcTime.dsv = s.dsv := by unfold Sys.setRtcTime; split <;> rfl

theorem ntpUpdate_clock : (ntpUpdate tzone s).clock = s.std + 3600 * daylightSaving tzone s.std := by
  rw [ntpUpdate, setRtcTime_clock]
  simp only [Sys.stime, ntpTime_eq, sub_add_cancel]

theorem ntpUpdate_std : (ntpUpdate tzone s).std = s.std := by rw [ntpUpdate, setRtcTime_std]; rfl

theorem ntpUpdate_dsv : (ntpUpdate tzone s).dsv = s.dsv := by rw [ntpUpdate, setRtcTime_dsv]; rfl

/-- `NTP_update` adds the hour by the rule, not by the flag: the two have to agree. -/
theorem Sys.Kept.ntpUpdate (h : s.Kept) (hd : daylightSaving tzone s.std = s.dsv) :
    (ntpUpdate tzone s).Kept := by
  constructor
  · unfold Sys.Flagged
    rw [ntpUpdate_dsv]
    exact h.flagged
  · rw [ntpUpdate_clock, ntpUpdate_std, ntpUpdate_dsv, hd]

/-! ## Start and sleep -/

theorem startUp_flagged : (startUp tzone s).Flagged := daylightSaving_zero_or_one tzone s.clock

theorem firstIteration_clock {g e : Nat} :
    (firstIteration tzone s g e).clock =
      s.clock + g + e + 3600 * (daylightSaving tzone (s.clock + g) - daylightSaving tzone s.clock) := by
  unfold firstIteration
  rw [checkDaylight_clock, hourMoved_eq (show ((startUp tzone s).tick g).Flagged from startUp_flagged)]
  rfl

theorem firstIteration_std {g e : Nat} : (firstIteration tzone s g e).std = s.std + g + e := checkDaylight_std

theorem catchUp_eq {target now : Int} {fuel : Nat} (hf : (now - target + 1).toNat < fuel) :
    catchUp fuel target now =
      some (if now < target then target - now else 60 - (now - target) % 60) := by
  induction fuel generalizing target with
  | zero => omega
  | succ fuel ih =>
      simp only [catchUp]
      by_cases h : target - now > 0
      · rw [if_pos h, if_pos (by omega)]
      · rw [if_neg h, ih (by omega), if_neg (show ¬ now < target by omega)]
        congr 1
        split <;> omega

theorem localtime_sec (t : Int) : (localtime t).sec = t % 60 := by
  simp only [localtime, gmtime]
  omega

theorem iteration_eq {dSav : Bool} {e₁ e₂ : Nat} {m : Int} (hm : m = if dSav then hourMoved tzone s else 0) :
    iteration tzone dSav s e₁ e₂ =
      some ⟨s.clock, s.clock + e₁ + e₂ + m,
        let late := s.clock % 60 + e₁ + e₂ + m - 60
        if late < 0 then -late else 60 - late % 60⟩ := by
  have hnow : ((if dSav then checkDaylight tzone s e₁ else s.tick e₁).tick e₂).clock =
      s.clock + e₁ + e₂ + m := by
    cases dSav with
    | false => simp [hm]
    | true => simp only [hm, if_true, tick_clock, checkDaylight_clock]; omega
  simp only [iteration, hnow, localtime_sec, catchUp_eq (Nat.lt_succ_self _), Option.map_some,
    Option.some.injEq, Wake.mk.injEq, true_and]
  split_ifs <;> omega

end CameraFw.Dst
