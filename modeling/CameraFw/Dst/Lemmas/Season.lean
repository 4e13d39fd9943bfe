import CameraFw.Dst.Lemmas.LastHour

/-!
# The season of a rule

In each year a rule says that daylight saving is on from one instant to another, or, where the season
lies across New Year, from one instant to the end of the year and from its start to another.
-/

namespace CameraFw.Dst

open CameraFw.Base

/-! ## A function of the clock over a year -/

def RisesAt (f : Int → Int) (y t : Int) : Prop := InYear y (t - 1) ∧ InYear y t ∧ f (t - 1) = 0 ∧ f t = 1

def FallsAt (f : Int → Int) (y t : Int) : Prop := InYear y (t - 1) ∧ InYear y t ∧ f (t - 1) = 1 ∧ f t = 0

instance (f : Int → Int) (y t : Int) : Decidable (RisesAt f y t) := inferInstanceAs (Decidable (_ ∧ _))

/-- In the year `y` the function is 1 from `a` on and 0 from `b` on. -/
structure Season (f : Int → Int) (y a b : Int) : Prop where
  opens : InYear y (a - 1) ∧ InYear y a
  closes : InYear y (b - 1) ∧ InYear y b
  apart : a ≠ b
  flag : ∀ t, InYear y t → (f t = 1 ↔ (a ≤ t ∧ t < b) ∨ (b < a ∧ (a ≤ t ∨ t < b)))
  zero_or_one : ∀ t, f t = 0 ∨ f t = 1

variable {f : Int → Int} {y a b t : Int}

theorem Season.off_iff (h : Season f y a b) (ht : InYear y t) :
    f t = 0 ↔ ¬ ((a ≤ t ∧ t < b) ∨ (b < a ∧ (a ≤ t ∨ t < b))) := by
  rw [← h.flag t ht]
  have := h.zero_or_one t
  omega

theorem Season.risesAt_iff (h : Season f y a b) : RisesAt f y t ↔ t = a := by
  have hab := h.apart
  constructor
  · rintro ⟨h1, h2, h3, h4⟩
    rw [h.off_iff h1] at h3
    rw [h.flag _ h2] at h4
    omega
  · rintro rfl
    refine ⟨h.opens.1, h.opens.2, ?_, ?_⟩
    · rw [h.off_iff h.opens.1]; omega
    · rw [h.flag _ h.opens.2]; omega

theorem Season.fallsAt_iff (h : Season f y a b) : FallsAt f y t ↔ t = b := by
  have hab := h.apart
  constructor
  · rintro ⟨h1, h2, h3, h4⟩
    rw [h.flag _ h1] at h3
    rw [h.off_iff h2] at h4
    omega
  · rintro rfl
    refine ⟨h.closes.1, h.closes.2, ?_, ?_⟩
    · rw [h.flag _ h.closes.1]; omega
    · rw [h.off_iff h.closes.2]; omega

/-! ## The seasons of the rules -/

/-- When the season begins and ends. -/
def seasonOf (region : DstRegion) (y : Int) : Int × Int :=
  match region with
  | .NA_DST => (atHour (yearStart y + naStart y) 2, atHour (yearStart y + naEnd y) 2)
  | .EU_DST => (atHour (yearStart y + startDay region y - 1) 1, atHour (yearStart y + endDay region y - 1) 1)
  | .AU_DST | .AU2_DST | .AU3_DST =>
      (atHour (yearStart y + startDay region y) 0, atHour (yearStart y + endDay region y + 1) 0)
  | .IRAQ_DST | .AF_DST | .SA_DST | .CHILE_DST | .NEEDNOT_DST =>
      (atHour (yearStart y + startDay region y - 1) 0, atHour (yearStart y + endDay region y) 0)

theorem daylightSaving_of_inYear (tzone : Fin 76) (h : InYear y t) :
    daylightSaving tzone t = bSaveFlag (timeZone tzone).dst y (t / 86400 - yearStart y)
      (t % 86400 / 3600) := by
  obtain ⟨hy, hd, hh⟩ := gmtime_of_inYear h
  simp only [daylightSaving, localtime, hy, hd, hh, show 1900 + (y - 1900) = y by omega]

/-- From hour `k` of one day of the year `y` to hour `k` of another. -/
theorem atHour_window_iff {s e k : Int} (hk : 0 ≤ k ∧ k < 24) :
    atHour (yearStart y + s) k ≤ t ∧ t < atHour (yearStart y + e) k ↔
      (s < t / 86400 - yearStart y ∨ t / 86400 - yearStart y = s ∧ k ≤ t % 86400 / 3600) ∧
        (t / 86400 - yearStart y < e ∨ t / 86400 - yearStart y = e ∧ t % 86400 / 3600 < k) := by
  unfold atHour
  omega

theorem daylightSaving_na {tzone : Fin 76} (hr : (timeZone tzone).dst = .NA_DST) (h : InYear y t) :
    daylightSaving tzone t = 1 ↔ (seasonOf .NA_DST y).1 ≤ t ∧ t < (seasonOf .NA_DST y).2 := by
  rw [daylightSaving_of_inYear tzone h, hr]
  simp only [bSaveFlag, seasonOf]
  rw [timed_iff, atHour_window_iff (by omega)]

theorem daylightSaving_eu {tzone : Fin 76} (hr : (timeZone tzone).dst = .EU_DST) (h : InYear y t) :
    daylightSaving tzone t = 1 ↔ (seasonOf .EU_DST y).1 ≤ t ∧ t < (seasonOf .EU_DST y).2 := by
  rw [daylightSaving_of_inYear tzone h, hr]
  simp only [bSaveFlag, seasonOf, Int.add_sub_assoc]
  rw [timed_iff, atHour_window_iff (by omega)]

theorem daylightSaving_never {tzone : Fin 76} (hy : 2008 ≤ y)
    (hr : (timeZone tzone).dst = .SA_DST ∨ (timeZone tzone).dst = .CHILE_DST) (h : InYear y t) :
    daylightSaving tzone t = 0 := by
  have hs := startDay_bounds (timeZone tzone).dst (show 2007 ≤ y by omega)
  have he := endDay_bounds (timeZone tzone).dst (show 2007 ≤ y by omega)
  rw [daylightSaving_of_inYear tzone h]
  rcases hr with hr | hr
  all_goals
    rw [hr] at hs he ⊢
    simp only [firstDays] at hs he
    simp only [bSaveFlag]
    rw [if_neg (by omega)]

theorem seasonOf_inYear {region : DstRegion} (hy : 2008 ≤ y) (hr : region ≠ .NEEDNOT_DST) :
    (InYear y ((seasonOf region y).1 - 1) ∧ InYear y (seasonOf region y).1) ∧
      (InYear y ((seasonOf region y).2 - 1) ∧ InYear y (seasonOf region y).2) ∧
      (seasonOf region y).1 ≠ (seasonOf region y).2 := by
  have hs := startDay_bounds region (show 2007 ≤ y by omega)
  have he := endDay_bounds region (show 2007 ≤ y by omega)
  have hlen := yearLen_bounds y
  have hnext := yearStart_succ y
  cases region with
  | NEEDNOT_DST => exact absurd rfl hr
  | NA_DST =>
      simp only [firstDays] at hs he
      simp only [seasonOf, InYear, atHour, naStart_eq (show 2007 ≤ y by omega),
        naEnd_eq (show 2007 ≤ y by omega)]
      omega
  | _ =>
      simp only [firstDays] at hs he
      simp only [seasonOf, InYear, atHour]
      omega

/-- Every rule but those of Chile and Brazil has a season in every year. -/
theorem daylightSaving_season {tzone : Fin 76} (hy : 2008 ≤ y) (hn : (timeZone tzone).dst ≠ .NEEDNOT_DST)
    (hc : (timeZone tzone).dst ≠ .CHILE_DST) (hsa : (timeZone tzone).dst ≠ .SA_DST) :
    Season (daylightSaving tzone) y (seasonOf (timeZone tzone).dst y).1
      (seasonOf (timeZone tzone).dst y).2 := by
  obtain ⟨hopens, hcloses, hne⟩ := seasonOf_inYear hy hn
  refine ⟨hopens, hcloses, hne, fun t h => ?_, daylightSaving_zero_or_one tzone⟩
  have hs := startDay_bounds (timeZone tzone).dst (show 2007 ≤ y by omega)
  have he := endDay_bounds (timeZone tzone).dst (show 2007 ≤ y by omega)
  cases hr : (timeZone tzone).dst with
  | NEEDNOT_DST => exact absurd hr hn
  | CHILE_DST => exact absurd hr hc
  | SA_DST => exact absurd hr hsa
  | NA_DST =>
      rw [hr] at hs he
      rw [daylightSaving_na hr h]
      simp only [firstDays] at hs he
      simp only [seasonOf, atHour, naStart_eq (show 2007 ≤ y by omega), naEnd_eq (show 2007 ≤ y by omega)]
      omega
  | EU_DST =>
      rw [hr] at hs he
      rw [daylightSaving_eu hr h]
      simp only [seasonOf, atHour, firstDays] at hs he ⊢
      omega
  | IRAQ_DST | AF_DST =>
      rw [hr] at hs he
      rw [daylightSaving_of_inYear tzone h, hr]
      simp only [bSaveFlag, seasonOf, atHour, firstDays, ite_eq_left_iff, zero_ne_one, imp_false,
        not_not] at hs he ⊢
      omega
  | AU_DST | AU2_DST | AU3_DST =>
      rw [hr] at hs he
      rw [daylightSaving_of_inYear tzone h, hr]
      simp only [bSaveFlag, seasonOf, atHour, firstDays, ite_eq_left_iff, zero_ne_one, imp_false,
        not_not] at hs he ⊢
      rw [auDay_iff (by omega), auShift_later (by omega)]
      omega

/-! ## The weekdays that the rules mean

The formulas count a leap day every fourth year, which is right until 2100.
-/

/-- The quarters of the formulas and the start of the year, by the leap years since 2000. -/
theorem leapYears_since (h0 : 2004 ≤ y) (h1 : y < 2100) :
    ∃ q, 1 ≤ q ∧ (y - 2000).tdiv 4 = q ∧ (y - 1996).tdiv 4 = q + 1 ∧ (y - 2004).tdiv 4 = q - 1 ∧
      isLeapYear y = leapDay y ∧ yearStart y = 365 * (y - 1970) + q + 8 - leapDay y ∧
      (leapDay y = 0 ∨ leapDay y = 1) := by
  refine ⟨(y - 2000) / 4, by omega, ?_, ?_, ?_, ?_, ?_, ?_⟩
  · exact Int.tdiv_eq_ediv_of_nonneg (by omega)
  · rw [Int.tdiv_eq_ediv_of_nonneg (by omega)]; omega
  · rw [Int.tdiv_eq_ediv_of_nonneg (by omega)]; omega
  · simp only [isLeapYear, leapDay, isLeap, decide_eq_true_eq,
      Int.tmod_eq_emod_of_nonneg (show 0 ≤ y by omega)]
    split <;> split <;> omega
  · simp only [yearStart, leapDay, isLeap, decide_eq_true_eq]
    split <;> omega
  · unfold leapDay
    split <;> omega

theorem monthStart_marchOn (y : Int) :
    monthStart y 2 = yearStart y + 59 + leapDay y ∧ monthStart y 3 = yearStart y + 90 + leapDay y ∧
      monthStart y 4 = yearStart y + 120 + leapDay y ∧ monthStart y 9 = yearStart y + 273 + leapDay y ∧
      monthStart y 10 = yearStart y + 304 + leapDay y :=
  ⟨monthStart_eq y (by omega), monthStart_eq y (by omega), monthStart_eq y (by omega),
    monthStart_eq y (by omega), monthStart_eq y (by omega)⟩

theorem eu_sundays (h0 : 2005 ≤ y) (h1 : y < 2100) :
    yearStart y + startDay .EU_DST y - 1 = lastWeekday y 2 sunday ∧
      yearStart y + endDay .EU_DST y - 1 = lastWeekday y 9 sunday := by
  obtain ⟨q, hq, hq0, hq1, -, hl, hy, hlb⟩ := leapYears_since (by omega) h1
  obtain ⟨-, hm3, -, -, hm10⟩ := monthStart_marchOn y
  rw [eq_lastWeekday_iff (by decide), eq_lastWeekday_iff (by decide), hm3, hm10]
  simp only [weekday, sunday, startDay, endDay, hq0, hq1, hl]
  rw [Int.tmod_eq_emod_of_nonneg (by omega), Int.tmod_eq_emod_of_nonneg (by omega)]
  omega

theorem na_sundays (h0 : 2007 ≤ y) (h1 : y < 2100) :
    yearStart y + naStart y = nthWeekday y 2 sunday 2 ∧ yearStart y + naEnd y = nthWeekday y 10 sunday 1 := by
  obtain ⟨q, hq, -, -, hq4, hl, hy, hlb⟩ := leapYears_since (by omega) h1
  obtain ⟨hm2, -, -, -, hm10⟩ := monthStart_marchOn y
  rw [eq_nthWeekday_iff (by decide), eq_nthWeekday_iff (by decide), hm2, hm10, naStart_eq h0, naEnd_eq h0]
  simp only [weekday, sunday, startDay, endDay, hq4, hl]
  rw [Int.tmod_eq_emod_of_nonneg (by omega)]
  omega

/-- The rules of Australia and New Zealand have no term for the leap day: they are a day late in common
years. -/
theorem au_sundays (h0 : 2005 ≤ y) (h1 : y < 2100) :
    yearStart y + startDay .AU_DST y - 1 + leapDay y = lastWeekday y 9 sunday ∧
      yearStart y + startDay .AU2_DST y - 1 + leapDay y = nthWeekday y 9 sunday 1 := by
  obtain ⟨q, hq, hq0, hq1, -, hl, hy, hlb⟩ := leapYears_since (by omega) h1
  obtain ⟨-, -, -, hm9, hm10⟩ := monthStart_marchOn y
  rw [eq_lastWeekday_iff (by decide), eq_nthWeekday_iff (by decide), hm9, hm10]
  simp only [weekday, sunday, startDay, hq0, hq1]
  rw [Int.tmod_eq_emod_of_nonneg (by omega), Int.tmod_eq_emod_of_nonneg (by omega)]
  omega

/-- The rule of Egypt counts its first day from 1, and is a day early in leap years. -/
theorem af_fridays (h0 : 2005 ≤ y) (h1 : y < 2100) :
    yearStart y + startDay .AF_DST y - 1 + leapDay y = lastWeekday y 3 friday := by
  obtain ⟨q, hq, -, -, hq4, hl, hy, hlb⟩ := leapYears_since (by omega) h1
  obtain ⟨-, -, hm4, -, -⟩ := monthStart_marchOn y
  rw [eq_lastWeekday_iff (by decide), hm4]
  simp only [weekday, friday, startDay, hq4]
  rw [Int.tmod_eq_emod_of_nonneg (by omega)]
  omega

end CameraFw.Dst
