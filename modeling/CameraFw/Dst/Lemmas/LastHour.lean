import CameraFw.Dst.Clock

/-!
# The last hour of daylight saving

When the rule says that daylight saving is on, it says so an hour later too, except in the last hour
before its end.
-/

namespace CameraFw.Dst

open CameraFw.Base

/-! ## Where the rules begin and end -/

theorem tmod_seven {x : Int} (h : 0 ≤ x) : 0 ≤ x.tmod 7 ∧ x.tmod 7 ≤ 6 := by
  rw [Int.tmod_eq_emod_of_nonneg h]; omega

theorem tdiv_four {x : Int} (h : 0 ≤ x) : 0 ≤ x.tdiv 4 := by
  rw [Int.tdiv_eq_ediv_of_nonneg h]; omega

theorem isLeapYear_bounds (y : Int) : 0 ≤ isLeapYear y ∧ isLeapYear y ≤ 1 := by
  unfold isLeapYear; split <;> omega

def firstDays : DstRegion → Int × Int
  | .NA_DST => (66, 303)
  | .EU_DST => (84, 298)
  | .AU_DST => (298, 84)
  | .CHILE_DST => (281, 67)
  | .SA_DST => (305, 46)
  | .AF_DST => (114, 267)
  | .IRAQ_DST => (91, 274)
  | .AU2_DST => (274, 84)
  | .AU3_DST => (274, 74)
  | .NEEDNOT_DST => (0, 0)

theorem startDay_bounds (region : DstRegion) {y : Int} (hy : 2007 ≤ y) :
    (firstDays region).1 ≤ startDay region y ∧ startDay region y ≤ (firstDays region).1 + 7 := by
  have hl := isLeapYear_bounds y
  have h4 := tdiv_four (show 0 ≤ y - 2004 by omega)
  have h0 := tdiv_four (show 0 ≤ y - 2000 by omega)
  have h6 := tdiv_four (show 0 ≤ y - 1996 by omega)
  cases region <;> simp only [firstDays, startDay]
  case NA_DST => have := tmod_seven (show 0 ≤ y - 2002 + (y - 2004).tdiv 4 - 2 by omega); omega
  case EU_DST => have := tmod_seven (show 0 ≤ y - 2002 + (y - 2000).tdiv 4 by omega); omega
  case AU_DST => have := tmod_seven (show 0 ≤ y - 1999 + (y - 1996).tdiv 4 by omega); omega
  case CHILE_DST => have := tmod_seven (show 0 ≤ y - 2000 + (y - 2000).tdiv 4 by omega); omega
  case SA_DST => have := tmod_seven (show 0 ≤ y - 2004 + (y - 2004).tdiv 4 by omega); omega
  case AF_DST => have := tmod_seven (show 0 ≤ y - 2004 + (y - 2004).tdiv 4 by omega); omega
  case IRAQ_DST => split <;> omega
  case AU2_DST => have := tmod_seven (show 0 ≤ y - 2001 + (y - 2000).tdiv 4 by omega); omega
  case AU3_DST => have := tmod_seven (show 0 ≤ y - 2001 + (y - 2000).tdiv 4 by omega); omega
  case NEEDNOT_DST => omega

theorem endDay_bounds (region : DstRegion) {y : Int} (hy : 2007 ≤ y) :
    (firstDays region).2 ≤ endDay region y ∧ endDay region y ≤ (firstDays region).2 + 7 := by
  have hl := isLeapYear_bounds y
  have h4 := tdiv_four (show 0 ≤ y - 2004 by omega)
  have h0 := tdiv_four (show 0 ≤ y - 2000 by omega)
  have h6 := tdiv_four (show 0 ≤ y - 1996 by omega)
  cases region <;> simp only [firstDays, endDay]
  case NA_DST => have := tmod_seven (show 0 ≤ y - 2002 + (y - 2004).tdiv 4 - 2 by omega); omega
  case EU_DST => have := tmod_seven (show 0 ≤ y - 1999 + (y - 1996).tdiv 4 by omega); omega
  case AU_DST => have := tmod_seven (show 0 ≤ y - 2002 + (y - 2000).tdiv 4 by omega); omega
  case CHILE_DST => have := tmod_seven (show 0 ≤ y - 1998 + (y - 1996).tdiv 4 by omega); omega
  case SA_DST => have := tmod_seven (show 0 ≤ y - 1999 + (y - 1996).tdiv 4 by omega); omega
  case AF_DST => have := tmod_seven (show 0 ≤ y - 2004 + (y - 2004).tdiv 4 by omega); omega
  case IRAQ_DST => split <;> omega
  case AU2_DST => have := tmod_seven (show 0 ≤ y - 2002 + (y - 2000).tdiv 4 by omega); omega
  case AU3_DST => have := tmod_seven (show 0 ≤ y - 1999 + (y - 1996).tdiv 4 by omega); omega
  case NEEDNOT_DST => omega

/-! ## One hour on -/

def NextHour (y d h y' d' h' : Int) : Prop :=
  (h < 23 ∧ y' = y ∧ d' = d ∧ h' = h + 1) ∨
  (h = 23 ∧ d + 1 < yearLen y ∧ y' = y ∧ d' = d + 1 ∧ h' = 0) ∨
  (h = 23 ∧ d + 1 = yearLen y ∧ y' = y + 1 ∧ d' = 0 ∧ h' = 0)

theorem localtime_nextHour (t : Int) :
    NextHour (1900 + (localtime t).year) (localtime t).yday (localtime t).hour
      (1900 + (localtime (t + 3600)).year) (localtime (t + 3600)).yday (localtime (t + 3600)).hour := by
  obtain ⟨h0, h1, h2, h3⟩ := gmtime_bounds t
  rw [add_comm] at h3
  unfold NextHour localtime
  by_cases hh : (gmtime t).hour < 23
  · obtain ⟨hy, hd, hn⟩ := gmtime_add_hour_same hh
    exact Or.inl ⟨hh, by rw [hy], hd, hn⟩
  · have h23 : (gmtime t).hour = 23 := by omega
    rcases lt_or_eq_of_le (show (gmtime t).yday + 1 ≤ yearLen (1900 + (gmtime t).year) by
      omega) with hlt | heq
    · obtain ⟨hy, hd, hn⟩ := gmtime_add_hour_next h23 (by rw [add_comm (gmtime t).year]; exact hlt)
      exact Or.inr (Or.inl ⟨h23, hlt, by rw [hy], hd, hn⟩)
    · obtain ⟨hy, hd, hn⟩ := gmtime_add_hour_newYear h23 (by rw [add_comm (gmtime t).year]; exact heq)
      exact Or.inr (Or.inr ⟨h23, heq, by rw [hy]; omega, hd, hn⟩)

/-! ## When the flag is set -/

/-- The rules of Europe and North America begin and end at an hour `k` of their first and last day. -/
theorem timed_iff (s e k d h : Int) :
    (if d ≥ s ∧ d ≤ e then (if (d = s ∧ h < k) ∨ (d = e ∧ h ≥ k) then 0 else 1) else 0 : Int) = 1 ↔
      (s < d ∨ d = s ∧ k ≤ h) ∧ (d < e ∨ d = e ∧ h < k) := by
  split
  · split <;> omega
  · omega

theorem naStart_eq {y : Int} (hy : 2007 ≤ y) : naStart y = startDay .NA_DST y := by
  rw [naStart, if_neg (by omega), if_neg (by omega)]

theorem naEnd_eq {y : Int} (hy : 2007 ≤ y) : naEnd y = endDay .NA_DST y + 1 := by
  rw [naEnd, if_neg (by omega), if_neg (by omega)]

def auShift (y : Int) : Int := if y = 2007 then 1 else 0

theorem auShift_later {y : Int} (hy : 2007 < y) : auShift y = 0 := if_neg (by omega)

/-- In 2007 the day is moved only from two days before the end on, which is where it makes a difference. -/
theorem auDay_iff {region : DstRegion} {y d : Int} (hy : 2007 ≤ y) :
    (auDay region y d ≥ startDay region y ∨ auDay region y d ≤ endDay region y) ↔
      (startDay region y ≤ d + auShift y ∨ d + auShift y ≤ endDay region y) := by
  simp only [auDay, auShift, if_neg (show ¬ y = 2006 by omega)]
  split_ifs <;> omega

/-- The last hour for which the rule says that daylight saving is on. -/
def LastHour (region : DstRegion) (y d h : Int) : Prop :=
  match region with
  | .EU_DST => d = endDay region y - 1 ∧ h = 0
  | .NA_DST => d = naEnd y ∧ h = 1
  | .IRAQ_DST | .AF_DST => d = endDay region y - 1 ∧ h = 23
  | .AU_DST | .AU2_DST | .AU3_DST => d + auShift y = endDay region y ∧ h = 23
  -- these rules never say so: the days of two of them end before they begin, the third has none
  | .SA_DST | .CHILE_DST | .NEEDNOT_DST => False

theorem bSaveFlag_of_lastHour {region : DstRegion} {y d h : Int} (hy : 2007 ≤ y)
    (hl : LastHour region y d h) :
    bSaveFlag region y d h = 1 := by
  have hs := startDay_bounds region hy
  have he := endDay_bounds region hy
  cases region <;> simp only [bSaveFlag, LastHour, firstDays, ite_eq_left_iff, zero_ne_one, imp_false,
    not_not] at hl hs he ⊢
  case AU_DST | AU2_DST | AU3_DST => rw [auDay_iff hy]; omega
  case NA_DST => rw [naEnd_eq hy] at hl; rw [timed_iff, naStart_eq hy, naEnd_eq hy]; omega
  case EU_DST => rw [timed_iff]; omega
  case IRAQ_DST | AF_DST => omega

theorem au_next_iff {region : DstRegion} {y d h y' d' h' : Int} (hy : 2007 ≤ y) (he : endDay region y < 100)
    (hs : 200 < startDay region y) (he' : 0 ≤ endDay region y') (hn : NextHour y d h y' d' h')
    (hf : auDay region y d ≥ startDay region y ∨ auDay region y d ≤ endDay region y) :
    (auDay region y' d' ≥ startDay region y' ∨ auDay region y' d' ≤ endDay region y') ↔
      ¬ (d + auShift y = endDay region y ∧ h = 23) := by
  rw [auDay_iff hy] at hf
  rcases hn with ⟨_, rfl, rfl, rfl⟩ | ⟨rfl, _, rfl, rfl, rfl⟩ | ⟨rfl, hd, rfl, rfl, rfl⟩
  · rw [auDay_iff hy]; omega
  · rw [auDay_iff hy]; omega
  · -- the new year begins before the last day
    have hlen := yearLen_bounds y
    have hsh : 0 ≤ auShift y := by unfold auShift; split <;> omega
    rw [auDay_iff (by omega), auShift_later (by omega)]
    omega

theorem bSaveFlag_next_iff {region : DstRegion} {y d h y' d' h' : Int} (hy : 2007 ≤ y)
    (hn : NextHour y d h y' d' h') (hf : bSaveFlag region y d h = 1) :
    bSaveFlag region y' d' h' = 1 ↔ ¬ LastHour region y d h := by
  have hlen := yearLen_bounds y
  have hy' : 2007 ≤ y' := by unfold NextHour at hn; omega
  have hs := startDay_bounds region hy
  have he := endDay_bounds region hy
  have hs' := startDay_bounds region hy'
  have he' := endDay_bounds region hy'
  cases region <;> simp only [bSaveFlag, LastHour, firstDays, ite_eq_left_iff, zero_ne_one, imp_false,
    not_not] at hf hs he hs' he' ⊢
  case AU_DST | AU2_DST | AU3_DST => exact au_next_iff hy (by omega) (by omega) (by omega) hn hf
  case NA_DST =>
    rw [timed_iff, naStart_eq hy, naEnd_eq hy] at hf
    rw [timed_iff, naStart_eq hy', naEnd_eq hy', naEnd_eq hy]
    rcases hn with ⟨_, rfl, rfl, rfl⟩ | ⟨rfl, _, rfl, rfl, rfl⟩ | ⟨rfl, _, rfl, rfl, rfl⟩ <;> omega
  case EU_DST =>
    rw [timed_iff] at hf ⊢
    rcases hn with ⟨_, rfl, rfl, rfl⟩ | ⟨rfl, _, rfl, rfl, rfl⟩ | ⟨rfl, _, rfl, rfl, rfl⟩ <;> omega
  case IRAQ_DST | AF_DST | SA_DST | CHILE_DST =>
    rcases hn with ⟨_, rfl, rfl, rfl⟩ | ⟨rfl, _, rfl, rfl, rfl⟩ | ⟨rfl, _, rfl, rfl, rfl⟩ <;> omega

theorem daylightSaving_hour_iff {tzone : Fin 76} {t : Int} (hy : 2007 ≤ 1900 + (localtime t).year)
    (hd : daylightSaving tzone t = 1) :
    daylightSaving tzone (t + 3600) = 1 ↔
      ¬ LastHour (timeZone tzone).dst (1900 + (localtime t).year) (localtime t).yday (localtime t).hour :=
  bSaveFlag_next_iff hy (localtime_nextHour t) hd

end CameraFw.Dst
