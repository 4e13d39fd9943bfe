import CameraFw.Ntp.Update

/-!
# Sums and differences of time values

`tv_add` and `tv_sub` carry at most once, and `tv_add` does not carry when the microseconds make up
exactly a second.
-/

namespace CameraFw.Ntp

/-! ## 32-bit seconds -/

theorem wrap_eq_iff {x : Int} : wrap x = x ↔ -2 ^ 31 ≤ x ∧ x < 2 ^ 31 := by
  constructor
  · intro h
    have h1 := Int.le_bmod (x := x) (m := 2 ^ 32) (by decide)
    have h2 := Int.bmod_lt (x := x) (m := 2 ^ 32) (by decide)
    unfold wrap at h
    omega
  · rintro ⟨h1, h2⟩
    exact Int.bmod_eq_of_le (by omega) (by omega)

theorem wrap_wrap_add (x y : Int) : wrap (wrap x + y) = wrap (x + y) := Int.bmod_add_bmod

/-! ## Microseconds -/

def Timeval.total (x : Timeval) : Int := x.sec * 1000000 + x.usec

def Timeval.Normal (x : Timeval) : Prop := 0 ≤ x.usec ∧ x.usec < 1000000

instance (x : Timeval) : Decidable x.Normal := inferInstanceAs (Decidable (_ ∧ _))

/-- The whole seconds of `n` microseconds fit into a `long`. -/
def Fits (n : Int) : Prop := -2 ^ 31 ≤ n / 1000000 ∧ n / 1000000 < 2 ^ 31

instance (n : Int) : Decidable (Fits n) := inferInstanceAs (Decidable (_ ∧ _))

/-- `x` is `n` microseconds, and normalised. -/
def Timeval.Exact (x : Timeval) (n : Int) : Prop := x.total = n ∧ x.Normal

theorem exact_wrap_iff (n : Int) : Timeval.Exact ⟨wrap (n / 1000000), n % 1000000⟩ n ↔ Fits n := by
  rw [Fits, ← wrap_eq_iff]
  simp only [Timeval.Exact, Timeval.total, Timeval.Normal]
  omega

theorem Timeval.Exact.usec_eq {x : Timeval} {n : Int} (h : x.Exact n) : x.usec = n % 1000000 := by
  obtain ⟨h, h0, h1⟩ := h
  unfold Timeval.total at h
  omega

/-- With the one carry the fields are the quotient and the remainder, but for a full second of
microseconds. -/
theorem normalise_eq {s u : Int} (h0 : -1000000 < u) (h1 : u < 2000000) (hu : u ≠ 1000000) :
    normalise (wrap s) u = ⟨wrap ((s * 1000000 + u) / 1000000), (s * 1000000 + u) % 1000000⟩ := by
  have hq : (s * 1000000 + u) / 1000000 = s + u / 1000000 := by omega
  have hr : (s * 1000000 + u) % 1000000 = u % 1000000 := by omega
  rw [hq, hr]
  simp only [normalise]
  by_cases hbig : u > 1000000
  · rw [if_pos hbig, if_neg (show ¬ u - 1000000 < 0 by omega), wrap_wrap_add, show u / 1000000 = 1 by omega,
      show u % 1000000 = u - 1000000 by omega]
  · rw [if_neg hbig]
    by_cases hneg : u < 0
    · rw [if_pos hneg, Int.sub_eq_add_neg, wrap_wrap_add, show u / 1000000 = -1 by omega,
        show u % 1000000 = u + 1000000 by omega]
    · rw [if_neg hneg, show u / 1000000 = 0 by omega, show u % 1000000 = u by omega, Int.add_zero]

theorem normalise_second (s : Int) : normalise s 1000000 = ⟨s, 1000000⟩ := by
  simp [normalise]

theorem tvSub_exact_iff {x1 x2 : Timeval} (h1 : x1.Normal) (h2 : x2.Normal) :
    (tvSub x1 x2).Exact (x1.total - x2.total) ↔ Fits (x1.total - x2.total) := by
  unfold Timeval.Normal at h1 h2
  have htotal : x1.total - x2.total = (x1.sec - x2.sec) * 1000000 + (x1.usec - x2.usec) := by
    unfold Timeval.total
    omega
  have husec : wrap (x1.usec - x2.usec) = x1.usec - x2.usec := wrap_eq_iff.mpr (by omega)
  rw [tvSub, husec, normalise_eq (by omega) (by omega) (by omega), ← htotal]
  exact exact_wrap_iff _

theorem tvAdd_exact_iff {x1 x2 : Timeval} (h1 : x1.Normal) (h2 : -1000000 < x2.usec ∧ x2.usec < 1000000) :
    (tvAdd x1 x2).Exact (x1.total + x2.total) ↔ Fits (x1.total + x2.total) ∧ x1.usec + x2.usec ≠ 1000000 := by
  unfold Timeval.Normal at h1
  have htotal : x1.total + x2.total = (x1.sec + x2.sec) * 1000000 + (x1.usec + x2.usec) := by
    unfold Timeval.total
    omega
  have husec : wrap (x1.usec + x2.usec) = x1.usec + x2.usec := wrap_eq_iff.mpr (by omega)
  rw [tvAdd, husec]
  by_cases hu : x1.usec + x2.usec = 1000000
  · rw [hu, normalise_second]
    simp [Timeval.Exact, Timeval.Normal]
  · rw [normalise_eq (by omega) (by omega) hu, ← htotal, exact_wrap_iff]
    exact (and_iff_left hu).symm

end CameraFw.Ntp
