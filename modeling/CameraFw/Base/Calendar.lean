import Mathlib

/-!
# The calendar of a time counter

Seconds since the start of 1970, broken down by the Gregorian calendar with no time zone. A day is found
by its year and its number in the year; `timegm` goes back from the broken-down time to the counter.
-/

namespace CameraFw.Base

/-! ## Years -/

def isLeap (y : Int) : Bool := y % 4 = 0 ∧ (y % 100 ≠ 0 ∨ y % 400 = 0)

def yearLen (y : Int) : Int := if isLeap y then 366 else 365

def yearStart (y : Int) : Int := 365 * (y - 1970) + (y - 1969) / 4 - (y - 1901) / 100 + (y - 1601) / 400

/-- The year of day `d`: a guess from the mean length of a year, which is off by at most one. -/
def yearOf (d : Int) : Int :=
  let y := 1970 + d * 400 / 146097
  if d < yearStart y then y - 1 else if yearStart (y + 1) ≤ d then y + 1 else y

theorem yearStart_succ (y : Int) : yearStart (y + 1) = yearStart y + yearLen y := by
  unfold yearLen yearStart
  split
  · rename_i h
    simp only [isLeap, decide_eq_true_eq] at h
    omega
  · rename_i h
    simp only [isLeap, decide_eq_true_eq] at h
    omega

theorem yearLen_bounds (y : Int) : 365 ≤ yearLen y ∧ yearLen y ≤ 366 := by
  unfold yearLen
  split <;> omega

theorem yearStart_bounds (y : Int) :
    146097 * (y - 1970) - 1200 < 400 * yearStart y ∧ 400 * yearStart y < 146097 * (y - 1970) + 1200 := by
  unfold yearStart
  omega

theorem yearStart_lt {a b : Int} (h : a < b) : yearStart a < yearStart b := by
  have hstep : ∀ n : Nat, yearStart a < yearStart (a + (n + 1)) := by
    intro n
    induction n with
    | zero =>
        have h1 := yearStart_succ a
        have h2 := yearLen_bounds a
        simp only [Nat.cast_zero, zero_add]
        omega
    | succ n ih =>
        have h1 := yearStart_succ (a + (n + 1))
        have h2 := yearLen_bounds (a + (n + 1))
        rw [Nat.cast_succ, ← add_assoc a]
        omega
  have := hstep (b - a - 1).toNat
  rwa [show a + (((b - a - 1).toNat : Int) + 1) = b by omega] at this

theorem yearOf_spec (d : Int) : yearStart (yearOf d) ≤ d ∧ d < yearStart (yearOf d + 1) := by
  obtain ⟨y, hy⟩ : ∃ y, y = 1970 + d * 400 / 146097 := ⟨_, rfl⟩
  have h0 := yearStart_bounds (y - 1)
  have h2 := yearStart_bounds (y + 2)
  simp only [yearOf, ← hy]
  split
  · rw [Int.sub_add_cancel]; omega
  · split
    · rw [show y + 1 + 1 = y + 2 by omega]; omega
    · omega

theorem yearOf_eq {d y : Int} (h0 : yearStart y ≤ d) (h1 : d < yearStart (y + 1)) : yearOf d = y := by
  obtain ⟨h2, h3⟩ := yearOf_spec d
  rcases lt_trichotomy (yearOf d) y with h | h | h
  · rcases lt_or_eq_of_le (show yearOf d + 1 ≤ y by omega) with h' | h'
    · have := yearStart_lt h'; omega
    · rw [h'] at h3; omega
  · exact h
  · rcases lt_or_eq_of_le (show y + 1 ≤ yearOf d by omega) with h' | h'
    · have := yearStart_lt h'; omega
    · rw [← h'] at h2; omega

/-! ## Months -/

def monthLens (leap : Bool) : List Nat :=
  [31, if leap then 29 else 28, 31, 30, 31, 30, 31, 31, 30, 31, 30, 31]

def splitMonth : List Nat → Nat → Nat × Nat
  | [], d => (0, d)
  | l :: ls, d => if d < l then (0, d) else ((splitMonth ls (d - l)).1 + 1, (splitMonth ls (d - l)).2)

theorem splitMonth_sum (ls : List Nat) (d : Nat) :
    (ls.take (splitMonth ls d).1).sum + (splitMonth ls d).2 = d := by
  induction ls generalizing d with
  | nil => simp [splitMonth]
  | cons l ls ih =>
      simp only [splitMonth]
      split
      · simp
      · have := ih (d - l)
        simp only [List.take_succ_cons, List.sum_cons]
        omega

/-! ## Broken-down time -/

/-- `struct tm`; the year counts from 1900. -/
structure Tm where
  sec : Int
  min : Int
  hour : Int
  mday : Int
  mon : Nat
  year : Int
  wday : Int
  yday : Int
  deriving DecidableEq, Repr

def gmtime (t : Int) : Tm :=
  let d := t / 86400
  let s := t % 86400
  let y := yearOf d
  let m := splitMonth (monthLens (isLeap y)) (d - yearStart y).toNat
  { sec := s % 60, min := s / 60 % 60, hour := s / 3600, mday := m.2 + 1, mon := m.1, year := y - 1900,
    wday := (d + 4) % 7, yday := d - yearStart y }

def timegm (tm : Tm) : Int :=
  let y := tm.year + 1900
  let d := yearStart y + ((monthLens (isLeap y)).take tm.mon).sum + (tm.mday - 1)
  d * 86400 + tm.hour * 3600 + tm.min * 60 + tm.sec

theorem timegm_gmtime (t : Int) : timegm (gmtime t) = t := by
  obtain ⟨h0, -⟩ := yearOf_spec (t / 86400)
  have hsum := splitMonth_sum (monthLens (isLeap (yearOf (t / 86400))))
    (t / 86400 - yearStart (yearOf (t / 86400))).toNat
  simp only [timegm, gmtime, Int.sub_add_cancel]
  omega

/-! ## Weekdays

Days are counted from the start of 1970 and months from 0, weekdays from Sunday.
-/

def weekday (d : Int) : Int := (d + 4) % 7

def sunday : Int := 0
def friday : Int := 5

def monthStart (y : Int) (m : Nat) : Int := yearStart y + ((monthLens (isLeap y)).take m).sum

/-- The `n`-th day of the month that is a `w`. -/
def nthWeekday (y : Int) (m : Nat) (w n : Int) : Int :=
  monthStart y m + (w - weekday (monthStart y m)) % 7 + 7 * (n - 1)

/-- The last day of the month that is a `w`. -/
def lastWeekday (y : Int) (m : Nat) (w : Int) : Int :=
  monthStart y (m + 1) - 1 - (weekday (monthStart y (m + 1) - 1) - w) % 7

def leapDay (y : Int) : Int := if isLeap y then 1 else 0

theorem monthStart_eq (y : Int) {m : Nat} (hm : 2 ≤ m) :
    monthStart y m = yearStart y + ((monthLens false).take m).sum + leapDay y := by
  obtain ⟨k, rfl⟩ : ∃ k, m = k + 2 := ⟨m - 2, by omega⟩
  unfold monthStart leapDay monthLens
  simp only [List.take_succ_cons, List.sum_cons]
  split <;> push_cast <;> omega

theorem eq_nthWeekday_iff {y w n d : Int} {m : Nat} (hw : 0 ≤ w ∧ w < 7) :
    d = nthWeekday y m w n ↔ weekday d = w ∧ monthStart y m + 7 * (n - 1) ≤ d ∧
      d < monthStart y m + 7 * n := by
  unfold nthWeekday weekday
  omega

theorem eq_lastWeekday_iff {y w d : Int} {m : Nat} (hw : 0 ≤ w ∧ w < 7) :
    d = lastWeekday y m w ↔ weekday d = w ∧ monthStart y (m + 1) - 7 ≤ d ∧ d < monthStart y (m + 1) := by
  unfold lastWeekday weekday
  omega

/-! ## The instants of a year -/

/-- Hour `h` of day `d`. -/
def atHour (d h : Int) : Int := 86400 * d + 3600 * h

def InYear (y t : Int) : Prop := atHour (yearStart y) 0 ≤ t ∧ t < atHour (yearStart (y + 1)) 0

instance (y t : Int) : Decidable (InYear y t) := inferInstanceAs (Decidable (_ ∧ _))

theorem inYear_gmtime (t : Int) : InYear (1900 + (gmtime t).year) t := by
  obtain ⟨h0, h1⟩ := yearOf_spec (t / 86400)
  simp only [InYear, atHour, gmtime, show 1900 + (yearOf (t / 86400) - 1900) = yearOf (t / 86400) by omega]
  omega

theorem gmtime_of_inYear {y t : Int} (h : InYear y t) :
    (gmtime t).year = y - 1900 ∧ (gmtime t).yday = t / 86400 - yearStart y ∧
      (gmtime t).hour = t % 86400 / 3600 := by
  unfold InYear atHour at h
  have hy : yearOf (t / 86400) = y := yearOf_eq (by omega) (by omega)
  simp only [gmtime, hy]
  exact ⟨trivial, trivial, trivial⟩

/-! ## An hour later -/

theorem gmtime_bounds (t : Int) :
    0 ≤ (gmtime t).hour ∧ (gmtime t).hour < 24 ∧ 0 ≤ (gmtime t).yday ∧
      (gmtime t).yday < yearLen ((gmtime t).year + 1900) := by
  obtain ⟨h0, h1⟩ := yearOf_spec (t / 86400)
  rw [yearStart_succ] at h1
  simp only [gmtime, Int.sub_add_cancel]
  omega

theorem gmtime_add_hour_same {t : Int} (h : (gmtime t).hour < 23) :
    (gmtime (t + 3600)).year = (gmtime t).year ∧ (gmtime (t + 3600)).yday = (gmtime t).yday ∧
      (gmtime (t + 3600)).hour = (gmtime t).hour + 1 := by
  simp only [gmtime] at h ⊢
  have hd : (t + 3600) / 86400 = t / 86400 := by omega
  rw [hd]
  exact ⟨rfl, rfl, by omega⟩

theorem gmtime_add_hour_next {t : Int} (h : (gmtime t).hour = 23)
    (hy : (gmtime t).yday + 1 < yearLen ((gmtime t).year + 1900)) :
    (gmtime (t + 3600)).year = (gmtime t).year ∧ (gmtime (t + 3600)).yday = (gmtime t).yday + 1 ∧
      (gmtime (t + 3600)).hour = 0 := by
  obtain ⟨h0, h1⟩ := yearOf_spec (t / 86400)
  simp only [gmtime, Int.sub_add_cancel] at h hy ⊢
  have hd : (t + 3600) / 86400 = t / 86400 + 1 := by omega
  have hyear : yearOf (t / 86400 + 1) = yearOf (t / 86400) :=
    yearOf_eq (by omega) (by rw [yearStart_succ]; omega)
  rw [hd, hyear]
  exact ⟨rfl, by omega, by omega⟩

theorem gmtime_add_hour_newYear {t : Int} (h : (gmtime t).hour = 23)
    (hy : (gmtime t).yday + 1 = yearLen ((gmtime t).year + 1900)) :
    (gmtime (t + 3600)).year = (gmtime t).year + 1 ∧ (gmtime (t + 3600)).yday = 0 ∧
      (gmtime (t + 3600)).hour = 0 := by
  have hlen := yearLen_bounds (yearOf (t / 86400) + 1)
  simp only [gmtime, Int.sub_add_cancel] at h hy ⊢
  have hd : (t + 3600) / 86400 = t / 86400 + 1 := by omega
  have hstart := yearStart_succ (yearOf (t / 86400))
  have hyear : yearOf (t / 86400 + 1) = yearOf (t / 86400) + 1 :=
    yearOf_eq (by omega) (by rw [yearStart_succ (yearOf (t / 86400) + 1)]; omega)
  rw [hd, hyear]
  exact ⟨by omega, by omega, by omega⟩

/-! ## Valid dates -/

def monthLen (y : Int) (m : Nat) : Nat := (monthLens (isLeap y)).getD m 0

/-- The fields are those of a date and a time of day. -/
structure Tm.Valid (tm : Tm) : Prop where
  mon : tm.mon < 12
  mday : 1 ≤ tm.mday ∧ tm.mday ≤ monthLen (tm.year + 1900) tm.mon
  hour : 0 ≤ tm.hour ∧ tm.hour < 24
  min : 0 ≤ tm.min ∧ tm.min < 60
  sec : 0 ≤ tm.sec ∧ tm.sec < 60

theorem splitMonth_add :
    ∀ (ls : List Nat) (m d : Nat), d < ls.getD m 0 → splitMonth ls ((ls.take m).sum + d) = (m, d) := by
  intro ls
  induction ls with
  | nil => intro m d h; simp at h
  | cons l ls ih =>
      intro m d h
      cases m with
      | zero => simp only [List.take_zero, List.sum_nil, Nat.zero_add, splitMonth, if_pos (show d < l from h)]
      | succ m =>
          have hrest : l + (ls.take m).sum + d - l = (ls.take m).sum + d := by omega
          have hih := ih m d h
          simp only [List.take_succ_cons, List.sum_cons, splitMonth, hrest, hih,
            if_neg (show ¬l + (ls.take m).sum + d < l by omega)]

theorem take_sum_add_le : ∀ (ls : List Nat) (m : Nat), (ls.take m).sum + ls.getD m 0 ≤ ls.sum := by
  intro ls
  induction ls with
  | nil => intro m; simp
  | cons l ls ih =>
      intro m
      cases m with
      | zero => simp
      | succ m =>
          have := ih m
          simp only [List.take_succ_cons, List.sum_cons, List.getD_cons_succ]
          omega

theorem monthLens_sum (y : Int) : ((monthLens (isLeap y)).sum : Int) = yearLen y := by
  unfold yearLen monthLens
  split <;> simp_all

theorem gmtime_timegm {tm : Tm} (h : tm.Valid) :
    (gmtime (timegm tm)).year = tm.year ∧ (gmtime (timegm tm)).mon = tm.mon ∧
      (gmtime (timegm tm)).mday = tm.mday ∧
      (gmtime (timegm tm)).hour = tm.hour ∧ (gmtime (timegm tm)).min = tm.min ∧
        (gmtime (timegm tm)).sec = tm.sec := by
  obtain ⟨y, hy⟩ : ∃ y, y = tm.year + 1900 := ⟨_, rfl⟩
  obtain ⟨d, hd⟩ : ∃ d : Nat, tm.mday = d + 1 := ⟨(tm.mday - 1).toNat, by have := h.mday.1; omega⟩
  have hlen : d < (monthLens (isLeap y)).getD tm.mon 0 := by
    have := h.mday.2
    rw [← hy, monthLen] at this
    omega
  obtain ⟨n, hn⟩ : ∃ n : Nat, n = ((monthLens (isLeap y)).take tm.mon).sum + d := ⟨_, rfl⟩
  have hsplit : splitMonth (monthLens (isLeap y)) n = (tm.mon, d) := hn ▸ splitMonth_add _ _ _ hlen
  have hsum := take_sum_add_le (monthLens (isLeap y)) tm.mon
  have hyear := monthLens_sum y
  have hsucc := yearStart_succ y
  have hday : timegm tm / 86400 = yearStart y + n := by
    have := h.hour; have := h.min; have := h.sec
    simp only [timegm, ← hy]
    omega
  have hsecs : timegm tm % 86400 = tm.hour * 3600 + tm.min * 60 + tm.sec := by
    have := h.hour; have := h.min; have := h.sec
    simp only [timegm]
    omega
  have hof : yearOf (yearStart y + n) = y := yearOf_eq (by omega) (by omega)
  have := h.hour; have := h.min; have := h.sec
  simp only [gmtime, hday, hsecs, hof, add_sub_cancel_left, Int.toNat_natCast, hsplit]
  refine ⟨by omega, trivial, hd.symm, by omega, by omega, by omega⟩

end CameraFw.Base
