import CameraFw.Dst.Lemmas.Clock
import CameraFw.Dst.Lemmas.Season

/-!
# Daylight saving: what holds of the clock
-/

namespace CameraFw.Dst

open CameraFw.Base

variable {tzone : Fin 76}

/-! ## `cron` and `NTP_update` side by side -/

/-- `NTP_update` is called while the flag says of standard time what the rule says. -/
def FlagAgrees (tzone : Fin 76) (s : Sys) (a : Event) : Prop := a = .ntp → daylightSaving tzone s.std = s.dsv

instance (tzone : Fin 76) (s : Sys) (a : Event) : Decidable (FlagAgrees tzone s a) :=
  inferInstanceAs (Decidable (_ → _))

theorem step_kept {s t : Sys} {a : Event} (h : s.Kept) (ha : FlagAgrees tzone s a)
    (ht : step tzone s a = some t) :
    t.Kept := by
  cases a with
  | tick n => cases ht; exact h.tick n
  | cron e => cases ht; exact h.checkDaylight e
  | ntp => cases ht; exact h.ntpUpdate (ha rfl)

theorem Sys.Kept.hour {s : Sys} (h : s.Kept) : s.clock - s.std = 0 ∨ s.clock - s.std = 3600 := by
  have := h.clock
  rcases h.flagged with hd | hd <;> rw [hd] at this <;> omega

/-- The clock is standard time or an hour ahead of it, while `NTP_update` finds the flag as the rule has
it. -/
theorem clock_within_hour {s : Sys} {as : List Event} (hf : s.dsv = 0 ∨ s.dsv = 1)
    (hs : s.clock = s.std + 3600 * s.dsv) (has : Along (step tzone) (FlagAgrees tzone) s as) :
    Always (step tzone) (fun s => s.clock - s.std = 0 ∨ s.clock - s.std = 3600) s as :=
  Always.imp (fun _ => Sys.Kept.hour) (always_of_along (fun _ _ _ => step_kept) as s ⟨hf, hs⟩ has)

/-- 2010-03-28 00:59:50 in Lisbon: `cron` enters daylight saving, then `NTP_update` is called. -/
def lisbonSpring : Sys := ⟨1269737990, 1269737990, 1269737990, some 0⟩

theorem clock_within_hour_lisbon :
    Along (step 26) (FlagAgrees 26) lisbonSpring [.ntp, .tick 20, .cron 1, .tick 3600, .ntp, .cron 0] ∧
      Always (step 26) (fun s => s.clock - s.std = 0 ∨ s.clock - s.std = 3600) lisbonSpring
        [.ntp, .tick 20, .cron 1, .tick 3600, .ntp, .cron 0] :=
  ⟨by decide +kernel, clock_within_hour (Or.inl rfl) rfl (by decide +kernel)⟩

/-- `NTP_update` puts the hour in before `cron` has seen the transition, and `cron` puts it in again. -/
theorem hour_added_twice :
    lisbonSpring.clock = lisbonSpring.std + 3600 * lisbonSpring.dsv ∧
      ((run (step 26) lisbonSpring [.tick 20, .ntp, .cron 0]).map fun s => s.clock - s.std) = some 7200 := by
  decide +kernel

/-! ## The rule on the clock that `NTP_update` installs -/

/-- The rule says of the installed clock what it says of standard time, and the daylight check of `cron`
does not move that clock, except in the last hour of daylight saving. -/
theorem ntpTime_agrees_iff {u clock : Int}
    (hy : 2007 ≤ 1900 + (localtime (u + adjustTzTime tzone)).year) :
    (daylightSaving tzone (ntpTime tzone true u clock) = daylightSaving tzone (u + adjustTzTime tzone) ∧
      ∀ s : Sys, s.clock = ntpTime tzone true u clock →
        s.dsv = daylightSaving tzone (u + adjustTzTime tzone) → ∀ e, checkDaylight tzone s e = s.tick e) ↔
      ¬ LastHour (timeZone tzone).dst (1900 + (localtime (u + adjustTzTime tzone)).year)
        (localtime (u + adjustTzTime tzone)).yday (localtime (u + adjustTzTime tzone)).hour := by
  have hmoves : ∀ s : Sys, s.clock = ntpTime tzone true u clock →
      s.dsv = daylightSaving tzone (u + adjustTzTime tzone) →
      daylightSaving tzone (ntpTime tzone true u clock) = daylightSaving tzone (u + adjustTzTime tzone) →
      ∀ e, checkDaylight tzone s e = s.tick e := by
    intro s hc hd ha e
    exact checkDaylight_same (by rw [hc, hd, ha])
  rw [and_iff_left_of_imp fun ha s hc hd => hmoves s hc hd ha, ntpTime_eq]
  rcases daylightSaving_zero_or_one tzone (u + adjustTzTime tzone) with h0 | h1
  · -- no hour is added, and this cannot be the last hour of daylight saving
    rw [h0, mul_zero, add_zero, h0]
    refine iff_of_true rfl fun hl => ?_
    have h1 := bSaveFlag_of_lastHour hy hl
    have : daylightSaving tzone (u + adjustTzTime tzone) = 1 := h1
    omega
  · rw [h1, mul_one]
    exact daylightSaving_hour_iff hy h1

theorem ntpTime_agrees_iff_july :
    2007 ≤ 1900 + (localtime (1278000000 + adjustTzTime 26)).year ∧
      (daylightSaving 26 (ntpTime 26 true 1278000000 0) = daylightSaving 26 (1278000000 + adjustTzTime 26) ∧
        ∀ s : Sys, s.clock = ntpTime 26 true 1278000000 0 →
          s.dsv = daylightSaving 26 (1278000000 + adjustTzTime 26) → ∀ e, checkDaylight 26 s e = s.tick e) :=
  ⟨by decide +kernel, (ntpTime_agrees_iff (by decide +kernel)).mpr fun h => absurd h.2 (by decide +kernel)⟩

/-- 2010-10-31 00:30 in Lisbon: half an hour before the end, the installed clock is already past it. -/
theorem ntpTime_past_the_end :
    daylightSaving 26 (1288485000 + adjustTzTime 26) = 1 ∧
      daylightSaving 26 (ntpTime 26 true 1288485000 1288485000) = 0 := by
  decide +kernel

/-! ## Starts of `cron` -/

/-- After its first iteration, `cron` leaves the hour in the clock that the rule gives for the time the
iteration has read. -/
def Applied (tzone : Fin 76) (s : Sys) : LifeEvent → Prop
  | .start g e =>
      (firstIteration tzone s g e).clock =
        (firstIteration tzone s g e).std + 3600 * daylightSaving tzone (s.clock + g)
  | _ => True

/-- At the start of `cron`, the rule says of the clock what the flag said when the device went off. -/
def NoneMissed (tzone : Fin 76) (s : Sys) : LifeEvent → Prop
  | .start _ _ => daylightSaving tzone s.clock = s.dsv
  | _ => True

instance (tzone : Fin 76) (s : Sys) : ∀ a, Decidable (NoneMissed tzone s a)
  | .start _ _ => inferInstanceAs (Decidable (_ = _))
  | .tick _ => isTrue trivial
  | .cron _ => isTrue trivial
  | .off _ => isTrue trivial

theorem applied_iff {s : Sys} (h : s.Kept) (a : LifeEvent) : Applied tzone s a ↔ NoneMissed tzone s a := by
  cases a with
  | start g e =>
      simp only [Applied, NoneMissed, firstIteration_clock, firstIteration_std, h.clock]
      omega
  | _ => exact Iff.rfl

theorem lifeStep_kept {s t : Sys} {a : LifeEvent} (h : s.Kept ∧ s.rtc = s.clock) (ha : NoneMissed tzone s a)
    (ht : lifeStep tzone s a = some t) : t.Kept ∧ t.rtc = t.clock := by
  obtain ⟨hk, hr⟩ := h
  cases a with
  | tick n => cases ht; exact ⟨hk.tick n, by simp [hr]⟩
  | cron e => cases ht; exact ⟨hk.checkDaylight e, checkDaylight_rtc hr⟩
  | off n =>
      cases ht
      refine ⟨⟨hk.flagged, ?_⟩, rfl⟩
      calc s.rtc + n = s.clock + n := by rw [hr]
        _ = s.std + n + 3600 * s.dsv := (hk.tick n).clock
  | start g e =>
      cases ht
      -- the start writes the value that is there
      have hup : (startUp tzone s).Kept :=
        ⟨startUp_flagged, by
          calc s.clock = s.std + 3600 * s.dsv := hk.clock
            _ = s.std + 3600 * daylightSaving tzone s.clock := by rw [show _ = s.dsv from ha]⟩
      exact ⟨(hup.tick g).checkDaylight e, checkDaylight_rtc (show s.rtc + g = s.clock + g by rw [hr])⟩

/-- A start applies what the rule says exactly when no transition has passed while `cron` was not running. -/
theorem starts_apply_iff {s : Sys} {as : List LifeEvent} (hf : s.dsv = 0 ∨ s.dsv = 1)
    (hs : s.clock = s.std + 3600 * s.dsv) (hr : s.rtc = s.clock) :
    Along (lifeStep tzone) (Applied tzone) s as ↔ Along (lifeStep tzone) (NoneMissed tzone) s as :=
  (along_iff (fun _ a h => (applied_iff h.1 a).symm) (fun _ _ _ => lifeStep_kept) ⟨⟨hf, hs⟩, hr⟩).symm

/-- 2010-03-01 00:00 in Lisbon. -/
def lisbonWinter : Sys := ⟨1267401600, 1267401600, 1267401600, some 0⟩

theorem starts_apply_iff_march :
    Along (lifeStep 26) (Applied 26) lisbonWinter [.start 2 1, .cron 0, .off 86400, .start 2 1, .cron 0] :=
  (starts_apply_iff (Or.inl rfl) rfl rfl).mpr (by decide +kernel)

/-- The device is off from March to May, and the clock stays at standard time. -/
theorem hour_missed :
    lisbonWinter.clock = lisbonWinter.std + 3600 * lisbonWinter.dsv ∧ lisbonWinter.rtc = lisbonWinter.clock ∧
      ((run (lifeStep 26) lisbonWinter [.start 2 1, .off 5184000, .start 2 1]).map fun s =>
        (s.clock - s.std, daylightSaving 26 s.clock, daylightSaving 26 s.std)) = some (0, 1, 1) := by
  decide +kernel

/-! ## The sleep of `cron` -/

/-- The sleep ends at the next minute of the clock, and no minute has gone by since the last one that
was checked. -/
def Wake.NextMinute (w : Wake) : Prop :=
  0 < w.delay ∧ w.delay ≤ 60 ∧ w.now + w.delay = (w.now / 60 + 1) * 60 ∧
    ∀ k, w.checked / 60 < k → ¬ k < (w.now + w.delay) / 60

theorem hourMoved_cases (tzone : Fin 76) (s : Sys) :
    (daylightSaving tzone s.clock = s.dsv ∧ hourMoved tzone s = 0) ∨
      (daylightSaving tzone s.clock ≠ s.dsv ∧ (hourMoved tzone s = -3600 ∨ hourMoved tzone s = 3600)) := by
  unfold hourMoved
  split_ifs with h hd
  · exact Or.inl ⟨h, rfl⟩
  · exact Or.inr ⟨h, Or.inl rfl⟩
  · exact Or.inr ⟨h, Or.inr rfl⟩

/-- Moved back, the clock needs an hour to the target; moved forward or late, it has left a minute behind. -/
theorem nextMinute_iff {t m : Int} {e₁ e₂ : Nat} (he : e₁ + e₂ < 60) (hm : m = 0 ∨ m = -3600 ∨ m = 3600) :
    Wake.NextMinute ⟨t, t + e₁ + e₂ + m,
      let late := t % 60 + e₁ + e₂ + m - 60
      if late < 0 then -late else 60 - late % 60⟩ ↔ m = 0 ∧ t % 60 + e₁ + e₂ < 60 := by
  unfold Wake.NextMinute
  dsimp only
  constructor
  · rintro ⟨h0, h1, h2, h3⟩
    have hnext := h3 (t / 60 + 1) (by omega)
    split at hnext <;> omega
  · rintro ⟨rfl, hlt⟩
    rw [if_pos (by omega)]
    refine ⟨by omega, by omega, by omega, fun k hk => by omega⟩

/-- An iteration sleeps to the next minute exactly when it leaves the clock alone and ends within its
minute. -/
theorem iteration_nextMinute_iff {dSav : Bool} {s : Sys} {e₁ e₂ : Nat} (he : e₁ + e₂ < 60) :
    (∃ w, iteration tzone dSav s e₁ e₂ = some w ∧ w.NextMinute) ↔
      (dSav = true → daylightSaving tzone s.clock = s.dsv) ∧ s.clock % 60 + e₁ + e₂ < 60 := by
  obtain ⟨m, hm⟩ : ∃ m, m = if dSav then hourMoved tzone s else 0 := ⟨_, rfl⟩
  have hmoves : m = 0 ∨ m = -3600 ∨ m = 3600 := by
    cases dSav with
    | false => exact Or.inl hm
    | true =>
        rw [hm, if_pos rfl]
        rcases hourMoved_cases tzone s with ⟨_, h0⟩ | ⟨_, h1⟩
        · exact Or.inl h0
        · exact Or.inr h1
  have hstill : m = 0 ↔ (dSav = true → daylightSaving tzone s.clock = s.dsv) := by
    cases dSav with
    | false => simp [hm]
    | true =>
        rw [hm, if_pos rfl]
        rcases hourMoved_cases tzone s with ⟨hd, h0⟩ | ⟨hd, h1⟩
        · exact iff_of_true h0 fun _ => hd
        · exact iff_of_false (by omega) fun h => hd (h rfl)
  rw [iteration_eq hm, ← hstill]
  simp only [Option.some.injEq, exists_eq_left']
  exact nextMinute_iff he hmoves

theorem iteration_nextMinute_iff_still :
    ∃ w, iteration 26 true lisbonWinter 1 2 = some w ∧ w.NextMinute :=
  (iteration_nextMinute_iff (by decide)).mpr (by decide +kernel)

/-- 2010-10-31 01:00 in Lisbon: `cron` leaves daylight saving and sleeps for 61 minutes. -/
theorem sleeps_past_hour : iteration 26 true ⟨1288483200, 1288486800, 1288486800, some 1⟩ 0 0 =
    some ⟨1288486800, 1288483200, 3660⟩ := by
  decide +kernel

/-! ## The season over a year -/

/-- Daylight saving in North America: from the second Sunday of March to the first of November since
2007, before that from the first Sunday of April to the last of October. -/
def naSeason (y : Int) : Int × Int :=
  if y < 2007 then (atHour (nthWeekday y 3 sunday 1) 2, atHour (lastWeekday y 9 sunday) 2)
  else (atHour (nthWeekday y 2 sunday 2) 2, atHour (nthWeekday y 10 sunday 1) 2)

/-- Daylight saving in Europe: from the last Sunday of March to the last of October. -/
def euSeason (y : Int) : Int × Int := (atHour (lastWeekday y 2 sunday) 1, atHour (lastWeekday y 9 sunday) 1)

theorem seasonOf_na {y : Int} (h0 : 2005 ≤ y) (h1 : y < 2100) : seasonOf .NA_DST y = naSeason y := by
  by_cases hy : 2007 ≤ y
  · obtain ⟨hs, he⟩ := na_sundays hy h1
    rw [seasonOf, naSeason, if_neg (by omega), hs, he]
  · -- the two years that have days of their own
    obtain rfl | rfl : y = 2005 ∨ y = 2006 := by omega
    · decide
    · decide

theorem seasonOf_eu {y : Int} (h0 : 2005 ≤ y) (h1 : y < 2100) : seasonOf .EU_DST y = euSeason y := by
  obtain ⟨hs, he⟩ := eu_sundays h0 h1
  simp only [seasonOf, euSeason, hs, he]

/-- The rules of North America and Europe say 1 exactly between the Sundays that are meant. -/
theorem daylightSaving_sundays {y t : Int} (hy : 1900 + (localtime t).year = y) (h0 : 2005 ≤ y)
    (h1 : y ≤ 2037) :
    ((timeZone tzone).dst = .NA_DST →
      daylightSaving tzone t = if (naSeason y).1 ≤ t ∧ t < (naSeason y).2 then 1 else 0) ∧
    ((timeZone tzone).dst = .EU_DST →
      daylightSaving tzone t = if (euSeason y).1 ≤ t ∧ t < (euSeason y).2 then 1 else 0) := by
  have hin : InYear y t := hy ▸ inYear_gmtime t
  have hflag := daylightSaving_zero_or_one tzone t
  constructor
  · intro hr
    have hiff := daylightSaving_na hr hin
    rw [seasonOf_na h0 (by omega)] at hiff
    split <;> omega
  · intro hr
    have hiff := daylightSaving_eu hr hin
    rw [seasonOf_eu h0 (by omega)] at hiff
    split <;> omega

theorem daylightSaving_sundays_2010 :
    daylightSaving 4 1268532000 =
        (if (naSeason 2010).1 ≤ 1268532000 ∧ 1268532000 < (naSeason 2010).2 then 1 else 0) ∧
      daylightSaving 26 1269738000 =
        (if (euSeason 2010).1 ≤ 1269738000 ∧ 1269738000 < (euSeason 2010).2 then 1 else 0) :=
  ⟨(daylightSaving_sundays (by decide) (by decide) (by decide)).1 (by decide),
    (daylightSaving_sundays (by decide) (by decide) (by decide)).2 (by decide)⟩

/-- Over the year `y` the function takes both values, and changes from 0 to 1 once and from 1 to 0 once. -/
def ChangesOnce (f : Int → Int) (y : Int) : Prop :=
  (∃ t, InYear y t ∧ f t = 0) ∧ (∃ t, InYear y t ∧ f t = 1) ∧ (∃! t, RisesAt f y t) ∧ ∃! t, FallsAt f y t

theorem Season.changesOnce {f : Int → Int} {y a b : Int} (h : Season f y a b) : ChangesOnce f y := by
  obtain ⟨_, hb, _, hb0⟩ := h.fallsAt_iff.mpr rfl
  obtain ⟨_, ha, _, ha1⟩ := h.risesAt_iff.mpr rfl
  exact ⟨⟨b, hb, hb0⟩, ⟨a, ha, ha1⟩, ⟨a, h.risesAt_iff.mpr rfl, fun _ => h.risesAt_iff.mp⟩,
    ⟨b, h.fallsAt_iff.mpr rfl, fun _ => h.fallsAt_iff.mp⟩⟩

/-- A zone with a rule has one season in every year, unless the rule is that of Chile or of Brazil:
their days end before they begin, and the test is written for days that begin before they end. -/
theorem daylightSaving_changesOnce_iff {y : Int} (h0 : 2008 ≤ y)
    (hn : (timeZone tzone).dst ≠ .NEEDNOT_DST) :
    ChangesOnce (daylightSaving tzone) y ↔
      (timeZone tzone).dst ≠ .CHILE_DST ∧ (timeZone tzone).dst ≠ .SA_DST := by
  constructor
  · rintro ⟨-, ⟨t, ht, h⟩, -⟩
    have hnever : (timeZone tzone).dst = .SA_DST ∨ (timeZone tzone).dst = .CHILE_DST →
        daylightSaving tzone t = 0 :=
      fun hr => daylightSaving_never h0 hr ht
    refine ⟨fun hr => ?_, fun hr => ?_⟩
    · rw [hnever (Or.inr hr)] at h; omega
    · rw [hnever (Or.inl hr)] at h; omega
  · rintro ⟨hc, hs⟩
    exact (daylightSaving_season h0 hn hc hs).changesOnce

theorem daylightSaving_changesOnce_hobart :
    (timeZone 69).dst = .AU2_DST ∧ ChangesOnce (daylightSaving 69) 2012 :=
  ⟨by decide, (daylightSaving_changesOnce_iff (by decide) (by decide)).mpr (by decide)⟩

/-- Santiago never has daylight saving in 2010. -/
theorem daylightSaving_santiago :
    (timeZone 17).dst = .CHILE_DST ∧ ¬ ∃ t, InYear 2010 t ∧ daylightSaving 17 t = 1 := by
  refine ⟨by decide, ?_⟩
  rintro ⟨t, ht, h⟩
  rw [daylightSaving_never (by omega) (Or.inr (by decide)) ht] at h
  omega

/-! ## The day on which the season begins -/

/-- The day that the rule means, for the rules without a term for the leap day. -/
def meantStart (region : DstRegion) (y : Int) : Option Int :=
  match region with
  | .AU_DST => some (lastWeekday y 9 sunday)
  | .AU2_DST | .AU3_DST => some (nthWeekday y 9 sunday 1)
  | .AF_DST => some (lastWeekday y 3 friday)
  | _ => none

def RisesOn (f : Int → Int) (y d : Int) : Prop := ∃ t, RisesAt f y t ∧ t / 86400 = d

theorem Season.risesOn_iff {f : Int → Int} {y a b d : Int} (h : Season f y a b) :
    RisesOn f y d ↔ a / 86400 = d := by
  simp only [RisesOn, h.risesAt_iff, exists_eq_left]

theorem seasonOf_day {region : DstRegion} {y d : Int} (h0 : 2008 ≤ y) (h1 : y ≤ 2037)
    (hd : meantStart region y = some d) :
    (seasonOf region y).1 / 86400 = if region = .AF_DST then d - leapDay y else d + 1 - leapDay y := by
  have hau := au_sundays (show 2005 ≤ y by omega) (show y < 2100 by omega)
  have haf := af_fridays (show 2005 ≤ y by omega) (show y < 2100 by omega)
  cases region with
  | AU_DST | AU2_DST | AU3_DST =>
      cases hd
      simp only [seasonOf, atHour, reduceCtorEq, if_false]
      simp only [startDay] at hau ⊢
      omega
  | AF_DST =>
      cases hd
      simp only [seasonOf, atHour, if_true]
      omega
  | _ => cases hd

/-- The season of Australia and New Zealand begins on the Sunday that is meant exactly in leap years,
that of Egypt on the Friday that is meant exactly in the others. -/
theorem risesOn_meantStart_iff {y d : Int} (h0 : 2008 ≤ y) (h1 : y ≤ 2037)
    (hd : meantStart (timeZone tzone).dst y = some d) :
    (∀ d', RisesOn (daylightSaving tzone) y d' ↔ d' = d) ↔ (isLeap y ↔ (timeZone tzone).dst ≠ .AF_DST) := by
  have hregion : (timeZone tzone).dst ≠ .NEEDNOT_DST ∧ (timeZone tzone).dst ≠ .CHILE_DST ∧
      (timeZone tzone).dst ≠ .SA_DST := by
    refine ⟨?_, ?_, ?_⟩ <;> intro hr <;> rw [hr] at hd <;> cases hd
  have hday := seasonOf_day h0 h1 hd
  have honce : (∀ d', RisesOn (daylightSaving tzone) y d' ↔ d' = d) ↔
      (seasonOf (timeZone tzone).dst y).1 / 86400 = d := by
    simp only [(daylightSaving_season h0 hregion.1 hregion.2.1 hregion.2.2).risesOn_iff]
    exact ⟨fun h => (h d).mpr rfl, fun h d' => by omega⟩
  rw [honce, hday, leapDay]
  split <;> split <;> simp_all

theorem risesOn_meantStart_leap :
    meantStart (timeZone 64).dst 2012 = some 15641 ∧ ∀ d', RisesOn (daylightSaving 64) 2012 d' ↔ d' = 15641 :=
  ⟨by decide, (risesOn_meantStart_iff (by decide) (by decide) (by decide)).mpr (by decide)⟩

/-- In 2009 the zone of Hobart changes on Monday the 5th of October, in 2012 that of Cairo on Thursday
the 26th of April. -/
theorem risesOn_off_by_one :
    meantStart (timeZone 69).dst 2009 = some (1254700800 / 86400 - 1) ∧
      RisesAt (daylightSaving 69) 2009 1254700800 ∧
      meantStart (timeZone 34).dst 2012 = some (1335398400 / 86400 + 1) ∧
      RisesAt (daylightSaving 34) 2012 1335398400 := by
  decide +kernel

end CameraFw.Dst
