import Mathlib
import CameraFw.Pwc.Gamma

/-!
# The curve rises

The levels rise along the table for every setting, because each step of the look-up keeps the order, and
the last of them are equal. The smoothing needs no more than that.
-/

namespace CameraFw.Pwc

/-! ## Arithmetic of the source -/

theorem toNat_ofInt {x : Int} (h0 : 0 ≤ x) (h : x ≤ 255) : ((UInt8.ofInt x).toNat : Int) = x := by
  obtain ⟨n, rfl⟩ := Int.eq_ofNat_of_zero_le h0
  rw [UInt8.ofInt, UInt8.toNat_ofNat']
  omega

theorem tdiv_le_tdiv_right {a b c : Int} (hc : 0 < c) (h : a ≤ b) : a.tdiv c ≤ b.tdiv c := by
  rcases le_or_gt 0 a with ha | ha
  · rw [Int.tdiv_eq_ediv_of_nonneg ha, Int.tdiv_eq_ediv_of_nonneg (ha.trans h)]
    exact Int.ediv_le_ediv hc h
  · have hneg : ∀ x : Int, x ≤ 0 → x.tdiv c = -(-x / c) := by
      intro x hx
      rw [← Int.tdiv_eq_ediv_of_nonneg (by omega), Int.neg_tdiv, neg_neg]
    rw [hneg a ha.le]
    rcases le_or_gt 0 b with hb | hb
    · have := Int.ediv_nonneg (a := -a) (by omega) hc.le
      have := Int.tdiv_nonneg hb hc.le
      omega
    · rw [hneg b hb.le]
      have := Int.ediv_le_ediv hc (show -b ≤ -a by omega)
      omega

/-! ## The levels -/

theorem searchLn_le (lnA : Int) (k : Nat) : searchLn lnA k ≤ 2 * k := by
  induction k with
  | zero => exact le_refl 0
  | succ k ih =>
      rw [searchLn]
      split_ifs <;> omega

/-- It always stops at a logarithm. -/
theorem searchLn_even (lnA : Int) (k : Nat) : ∃ n ≤ k, searchLn lnA k = 2 * n := by
  induction k with
  | zero => exact ⟨0, le_refl 0, rfl⟩
  | succ k ih =>
      rw [searchLn]
      split_ifs
      · obtain ⟨n, hn, h⟩ := ih
        exact ⟨n, by omega, h⟩
      · exact ⟨k + 1, le_refl _, rfl⟩

/-- The search for a larger number goes further down. -/
theorem searchLn_anti {a b : Int} (h : a ≤ b) (k : Nat) : searchLn b k ≤ searchLn a k := by
  induction k with
  | zero => exact le_refl 0
  | succ k ih =>
      have := searchLn_le b k
      simp only [searchLn]
      split_ifs <;> omega

/-- The logarithms of the table are all at most that of its first entry. -/
theorem lnATable_log_le : ∀ k < 100, lnATable.getD (2 * k) 0 ≤ -303 := by
  decide +kernel

theorem searchLn_zero {lnA : Int} (h : -303 < lnA) {k : Nat} (hk : k < 100) : searchLn lnA k = 0 := by
  induction k with
  | zero => rfl
  | succ k ih =>
      rw [searchLn, if_pos (by have := lnATable_log_le (k + 1) hk; omega)]
      exact ih (by omega)

theorem lnATable_value_step : ∀ k < 99, lnATable.getD (2 * (k + 1) + 1) 0 ≤ lnATable.getD (2 * k + 1) 0 := by
  decide +kernel

/-- The values fall along the table. -/
theorem lnATable_value_anti {m n : Nat} (h : m ≤ n) (hn : n < 100) :
    lnATable.getD (2 * n + 1) 0 ≤ lnATable.getD (2 * m + 1) 0 := by
  induction n, h using Nat.le_induction with
  | base => exact le_refl _
  | succ n _ ih => exact (lnATable_value_step n (by omega)).trans (ih (by omega))

theorem lnATable_value_nonneg : ∀ k < 100, 0 ≤ lnATable.getD (2 * k + 1) 0 := by
  decide +kernel

theorem ln256_sorted : ln256.IsChain (· ≤ ·) := by
  decide +kernel

theorem length_ln256 : ln256.length = 256 := by
  decide +kernel

theorem ln256_step {i : Nat} (h : i < 255) : ln256.getD i 0 ≤ ln256.getD (i + 1) 0 := by
  have hi : i + 1 < ln256.length := by
    rw [length_ln256]
    omega
  rw [List.getD_eq_getElem _ _ (by omega), List.getD_eq_getElem _ _ hi]
  exact List.isChain_iff_getElem.mp ln256_sorted i hi

theorem gammaOf_bounds (brightness gamma : Int) :
    0 ≤ gammaOf brightness gamma ∧ gammaOf brightness gamma ≤ 20000 := by
  have hb : 50 ≤ 50 + min (max brightness 0) 100 := by omega
  have hg : 10 ≤ min (max gamma 10) 30 := by omega
  have hprod := mul_le_mul hg hb (by decide) (by omega)
  rw [gammaOf, Int.tdiv_eq_ediv_of_nonneg (by decide)]
  exact ⟨Int.ediv_nonneg (by decide) (by omega), Int.ediv_le_of_le_mul (by omega) (by omega)⟩

/-- The level, before it is cut to a byte, as a function of the logarithm. -/
def levelAt (contrast lnA : Int) : Int :=
  ((lnATable.getD (searchLn lnA 99 + 1) 0 * (50 + min (max contrast 0) 100) * 256).tdiv 1000 + 50).tdiv 100

theorem levelAt_mono (contrast : Int) {a b : Int} (h : a ≤ b) : levelAt contrast a ≤ levelAt contrast b := by
  obtain ⟨m, hm, hma⟩ := searchLn_even a 99
  obtain ⟨n, hn, hnb⟩ := searchLn_even b 99
  have hle := searchLn_anti h 99
  have hval := lnATable_value_anti (m := n) (n := m) (by omega) (by omega)
  rw [levelAt, levelAt, hma, hnb]
  refine tdiv_le_tdiv_right (by decide) (Int.add_le_add_right (tdiv_le_tdiv_right (by decide) ?_) 50)
  exact mul_le_mul_of_nonneg_right (mul_le_mul_of_nonneg_right hval (by omega)) (by decide)

theorem levelAt_nonneg (contrast lnA : Int) : 0 ≤ levelAt contrast lnA := by
  obtain ⟨n, hn, h⟩ := searchLn_even lnA 99
  have hval := lnATable_value_nonneg n (by omega)
  rw [levelAt, h]
  refine Int.tdiv_nonneg (Int.add_nonneg (Int.tdiv_nonneg ?_ (by decide)) (by decide)) (by decide)
  exact mul_nonneg (mul_nonneg hval (by omega)) (by decide)

theorem toNat_levelOf (contrast brightness gamma : Int) (i : Nat) :
    ((levelOf contrast brightness gamma i).toNat : Int) =
      min (levelAt contrast ((ln256.getD i 0 * gammaOf brightness gamma).tdiv 10000)) 255 := by
  have := levelAt_nonneg contrast ((ln256.getD i 0 * gammaOf brightness gamma).tdiv 10000)
  change ((UInt8.ofInt (min (levelAt contrast _) 255)).toNat : Int) = _
  exact toNat_ofInt (by omega) (by omega)

theorem levelOf_step (contrast brightness gamma : Int) {i : Nat} (h : i < 255) :
    levelOf contrast brightness gamma i ≤ levelOf contrast brightness gamma (i + 1) := by
  have hg := (gammaOf_bounds brightness gamma).1
  have hln := tdiv_le_tdiv_right (c := 10000) (by decide) (mul_le_mul_of_nonneg_right (ln256_step h) hg)
  have := levelAt_mono contrast hln
  rw [UInt8.le_iff_toNat_le]
  have h1 := toNat_levelOf contrast brightness gamma i
  have h2 := toNat_levelOf contrast brightness gamma (i + 1)
  omega

theorem levelOf_mono (contrast brightness gamma : Int) {i j : Nat} (h : i ≤ j) (hj : j < 256) :
    levelOf contrast brightness gamma i ≤ levelOf contrast brightness gamma j := by
  induction j, h using Nat.le_induction with
  | base => exact UInt8.le_refl _
  | succ j _ ih => exact UInt8.le_trans (ih (by omega)) (levelOf_step contrast brightness gamma (by omega))

/-- Near the end of the table the search runs through for every setting. -/
theorem levelAt_top (contrast : Int) {lnA : Int} (h : -303 < lnA) :
    levelAt contrast lnA = levelAt contrast 0 := by
  rw [levelAt, levelAt, searchLn_zero h (by decide), searchLn_zero (by decide) (by decide)]

theorem levelOf_top (contrast brightness gamma : Int) {i : Nat} (h : -100 ≤ ln256.getD i 0) :
    ((levelOf contrast brightness gamma i).toNat : Int) = min (levelAt contrast 0) 255 := by
  obtain ⟨hg0, hg⟩ := gammaOf_bounds brightness gamma
  have hmul : -100 * 20000 ≤ ln256.getD i 0 * gammaOf brightness gamma := by nlinarith
  have := tdiv_le_tdiv_right (c := 10000) (by decide) hmul
  rw [toNat_levelOf, levelAt_top contrast (lt_of_lt_of_le (by decide) this)]

/-! ## Stores -/

variable {src : Nat → UInt8} {dst : Curve} {s e s' e' : Nat}

theorem Curve.put_same (dst : Curve) (i : Nat) (b : UInt8) : dst.put i b i = some b := by
  rw [Curve.put, Function.update_self]

theorem Curve.put_other (dst : Curve) {i k : Nat} (b : UInt8) (h : k ≠ i) : dst.put i b k = dst k := by
  rw [Curve.put, Function.update_of_ne h]

theorem Curve.fill_apply (dst : Curve) (f : Nat → UInt8) (first n k : Nat) :
    dst.fill f first n k = if first ≤ k ∧ k < first + n then some (f k) else dst k := by
  induction n with
  | zero => exact (if_neg (by omega)).symm
  | succ n ih =>
      have hfill : dst.fill f first (n + 1) = (dst.fill f first n).put (first + n) (f (first + n)) := by
        simp only [Curve.fill, List.range'_1_concat, List.foldl_append, List.foldl_cons, List.foldl_nil]
      rw [hfill]
      by_cases hk : k = first + n
      · rw [hk, Curve.put_same, if_pos (by omega)]
      · rw [Curve.put_other _ _ hk, ih]
        by_cases h : first ≤ k ∧ k < first + n
        · rw [if_pos h, if_pos (by omega)]
        · rw [if_neg h, if_neg (by omega)]

/-! ## The line between two runs -/

theorem interpolate_zero (src : Nat → UInt8) (s e : Nat) : interpolate src s e 0 = src s := by
  refine UInt8.toNat_inj.mp ?_
  have := (src s).toNat_lt
  have h := toNat_ofInt (x := (src s).toNat) (by omega) (by omega)
  simp only [interpolate, Nat.cast_zero, mul_zero, Int.zero_tdiv, add_zero]
  omega

/-- How far the line has risen after `k` entries. -/
def rise (src : Nat → UInt8) (s e k : Nat) : Nat := ((src e).toNat - (src s).toNat) * k / (e - s)

theorem rise_le (src : Nat → UInt8) {k : Nat} (hk : k ≤ e - s) :
    rise src s e k ≤ (src e).toNat - (src s).toNat :=
  Nat.div_le_of_le_mul (by rw [mul_comm (e - s)]; exact Nat.mul_le_mul_left _ hk)

theorem rise_mono {k l : Nat} (h : k ≤ l) : rise src s e k ≤ rise src s e l :=
  Nat.div_le_div_right (Nat.mul_le_mul_left _ h)

theorem toNat_interpolate {k : Nat} (hle : src s ≤ src e) (hse : s < e) (hk : k ≤ e - s) :
    (interpolate src s e k).toNat = (src s).toNat + rise src s e k := by
  have hle := UInt8.le_iff_toNat_le.mp hle
  have hrise := rise_le src hk
  have hlt := (src e).toNat_lt
  have hcast : ((((src e).toNat - (src s).toNat) * k : Int).tdiv (e - s)) = rise src s e k := by
    rw [rise, Int.tdiv_eq_ediv_of_nonneg (mul_nonneg (by omega) (by omega)), Int.natCast_ediv,
      Nat.cast_mul, Nat.cast_sub hle, Nat.cast_sub hse.le]
  have h := toNat_ofInt (x := (src s).toNat + rise src s e k) (by omega) (by omega)
  rw [interpolate, hcast]
  omega

/-- What belongs `k` entries behind the beginning of the run. -/
def point (src : Nat → UInt8) (s e k : Nat) : UInt8 := if e < 256 then interpolate src s e k else src s

theorem point_zero (src : Nat → UInt8) (s e : Nat) : point src s e 0 = src s := by
  rw [point, interpolate_zero, ite_self]

/-! ## Runs -/

/-- The levels rise. -/
def Rising (src : Nat → UInt8) : Prop := ∀ i j, i ≤ j → j < 256 → src i ≤ src j

theorem Rising.le_point {k : Nat} (hsrc : Rising src) (hse : s < e) (hk : k < e - s) :
    src s ≤ point src s e k := by
  unfold point
  split_ifs with he
  · rw [UInt8.le_iff_toNat_le, toNat_interpolate (hsrc s e hse.le he) hse hk.le]
    omega
  · exact UInt8.le_refl _

theorem Rising.point_le {k : Nat} (hsrc : Rising src) (hse : s < e) (hk : k < e - s) :
    point src s e k ≤ if e < 256 then src e else src s := by
  unfold point
  split_ifs with he
  · have hle := hsrc s e hse.le he
    have := rise_le src hk.le
    rw [UInt8.le_iff_toNat_le, toNat_interpolate hle hse hk.le]
    have := UInt8.le_iff_toNat_le.mp hle
    omega
  · exact UInt8.le_refl _

theorem Rising.point_mono {k l : Nat} (hsrc : Rising src) (hse : s < e) (hkl : k ≤ l) (hl : l < e - s) :
    point src s e k ≤ point src s e l := by
  unfold point
  split_ifs with he
  · have hle := hsrc s e hse.le he
    rw [UInt8.le_iff_toNat_le, toNat_interpolate hle hse (by omega), toNat_interpolate hle hse hl.le]
    exact Nat.add_le_add_left (rise_mono hkl) _
  · exact UInt8.le_refl _

theorem IsRun.start_le {i : Nat} (h : IsRun src s e) (h' : IsRun src s' e') (he : i < e)
    (hi' : s' ≤ i) : s' ≤ s := by
  by_contra hlt
  rcases h'.first with h0 | hne
  · omega
  · exact hne ((h.same (s' - 1) (by omega) (by omega)).trans (h.same s' (by omega) (by omega)).symm)

theorem IsRun.stop_le (h : IsRun src s e) (h' : IsRun src s e') : e' ≤ e := by
  by_contra hlt
  rcases h.last with h256 | hne
  · have := h'.le
    omega
  · exact hne (h'.same e h.lt.le (by omega))

/-- An index is in one run. -/
theorem IsRun.unique {i : Nat} (h : IsRun src s e) (h' : IsRun src s' e') (hi : s ≤ i) (he : i < e)
    (hi' : s' ≤ i) (he' : i < e') :
    s = s' ∧ e = e' := by
  obtain rfl : s = s' := le_antisymm (h'.start_le h he' hi) (h.start_le h' he hi')
  exact ⟨rfl, le_antisymm (h'.stop_le h) (h.stop_le h')⟩

theorem runEnd_spec {p : Nat} (hp : p ≤ 256) (hsp : s < p) (hsame : ∀ k, s ≤ k → k < p → src k = src s) :
    runEnd src s p ≤ 256 ∧ (∀ k, s ≤ k → k < runEnd src s p → src k = src s) ∧
      (runEnd src s p = 256 ∨ src (runEnd src s p) ≠ src s) := by
  fun_induction runEnd src s p with
  | case1 p hcond ih =>
      refine ih (by omega) (by omega) fun k hk hlt => ?_
      rcases Nat.lt_succ_iff_lt_or_eq.mp hlt with hlt | rfl
      · exact hsame k hk hlt
      · exact hcond.1
  | case2 p hcond =>
      refine ⟨hp, hsame, ?_⟩
      by_contra h
      obtain ⟨hne, heq⟩ := not_or.mp h
      exact hcond ⟨not_not.mp heq, by omega⟩

/-- The loop looks for the run that begins where it stands. -/
theorem runEnd_isRun (hs : s < 256) (hfirst : s = 0 ∨ src (s - 1) ≠ src s) :
    IsRun src s (runEnd src s (s + 1)) := by
  have hself : ∀ k, s ≤ k → k < s + 1 → src k = src s := by
    intro k hk hlt
    rw [show k = s by omega]
  obtain ⟨hle, hsame, hlast⟩ := runEnd_spec (by omega) (by omega) hself
  exact ⟨le_runEnd src s (s + 1), hle, hfirst, hsame, hlast⟩

/-! ## The loop -/

/-- The entry has been given what belongs there. -/
def Drawn (src : Nat → UInt8) (dst : Curve) (i : Nat) : Prop :=
  ∃ s e, IsRun src s e ∧ s ≤ i ∧ i < e ∧ dst i = some (point src s e (i - s))

theorem Drawn.congr {dst' : Curve} {i : Nat} (h : Drawn src dst i) (heq : dst' i = dst i) :
    Drawn src dst' i := by
  obtain ⟨s, e, hrun, hs, he, hd⟩ := h
  exact ⟨s, e, hrun, hs, he, heq.trans hd⟩

theorem drawRun_apply (hse : s < e) (i : Nat) :
    drawRun src dst s e i = if i = e then some (src e) else if s ≤ i ∧ i < e then
      some (interpolate src s e (i - s)) else dst i := by
  unfold drawRun
  by_cases hi : i = e
  · rw [if_pos hi, hi, Curve.put_same]
  · rw [if_neg hi, Curve.put_other _ _ hi]
    have hput : dst.put s (src s) i = if s ≤ i ∧ i < s + 1 then some (interpolate src s e (i - s))
        else dst i := by
      by_cases his : i = s
      · rw [if_pos (by omega), his, Curve.put_same, Nat.sub_self, interpolate_zero]
      · rw [if_neg (by omega), Curve.put_other _ _ his]
    by_cases hne : e ≠ s + 1
    · rw [if_pos hne, Curve.fill_apply, hput]
      split_ifs <;> first | rfl | omega
    · rw [if_neg hne, hput, show s + 1 = e by omega]

/-- What the loop has when it comes to the run that begins at `s`. -/
structure SmoothInv (src : Nat → UInt8) (dst : Curve) (s : Nat) : Prop where
  lt : s < 256
  first : s = 0 ∨ src (s - 1) ≠ src s
  begun : s = 0 ∨ dst s = some (src s)
  drawn : ∀ i < s, Drawn src dst i
  outside : ∀ i, 256 ≤ i → dst i = none

theorem SmoothInv.drawRun (h : SmoothInv src dst s) (hrun : IsRun src s e) (he : e < 256) :
    SmoothInv src (drawRun src dst s e) e where
  lt := he
  first := by
    refine .inr fun heq => (hrun.last.resolve_left he.ne) ?_
    rw [← heq]
    have := hrun.lt
    exact hrun.same (e - 1) (by omega) (by omega)
  begun := .inr (by rw [drawRun_apply hrun.lt, if_pos rfl])
  drawn := by
    intro i hi
    rcases Nat.lt_or_ge i s with hs | hs
    · refine (h.drawn i hs).congr ?_
      rw [drawRun_apply hrun.lt, if_neg (by omega), if_neg (by omega)]
    · refine ⟨s, e, hrun, hs, hi, ?_⟩
      rw [drawRun_apply hrun.lt, if_neg (by omega), if_pos ⟨hs, hi⟩, point, if_pos he]
  outside := by
    intro i hi
    rw [drawRun_apply hrun.lt, if_neg (by omega), if_neg (by omega)]
    exact h.outside i hi

/-- The last run goes to the end of the table, and is copied. -/
theorem SmoothInv.copy (h : SmoothInv src dst s) (hrun : IsRun src s 256) :
    (∀ i < 256, Drawn src (dst.fill src s (256 - s)) i) ∧ ∀ i, 256 ≤ i →
      dst.fill src s (256 - s) i = none := by
  have := h.lt
  refine ⟨fun i hi => ?_, fun i hi => ?_⟩
  · rcases Nat.lt_or_ge i s with hs | hs
    · exact (h.drawn i hs).congr (by rw [Curve.fill_apply, if_neg (by omega)])
    · refine ⟨s, 256, hrun, hs, hi, ?_⟩
      rw [Curve.fill_apply, if_pos (by omega), hrun.same i hs hi]
      rfl
  · rw [Curve.fill_apply, if_neg (by omega)]
    exact h.outside i hi

/-- The loop leaves a run of one entry at the very end as it is. A run of two entries there would be
left half done. -/
theorem SmoothInv.exit (h : SmoothInv src dst s) (hs : 254 ≤ s) (htop : src 253 = src 254) :
    ∀ i < 256, Drawn src dst i := by
  have := h.lt
  have hne : s ≠ 254 := by
    rintro rfl
    exact h.first.elim (by omega) fun hne => hne htop
  obtain rfl : s = 255 := by omega
  intro i hi
  rcases Nat.lt_succ_iff_lt_or_eq.mp hi with hlt | rfl
  · exact h.drawn i hlt
  · refine ⟨255, 256, ⟨by omega, by omega, h.first, fun k hk hlt => ?_, .inl rfl⟩, le_refl _, by omega, ?_⟩
    · rw [show k = 255 by omega]
    · exact h.begun.resolve_left (by omega)

theorem SmoothInv.smooth (h : SmoothInv src dst s) (htop : src 253 = src 254) :
    (∀ i < 256, Drawn src (Pwc.smooth src dst s (s + 1)) i) ∧ ∀ i, 256 ≤ i →
      Pwc.smooth src dst s (s + 1) i = none := by
  -- every pass leads to a later run
  induction hn : 256 - s using Nat.strong_induction_on generalizing s dst with
  | _ n ih =>
      rw [Pwc.smooth]
      by_cases hlt : s + 1 < 255
      · have hrun := runEnd_isRun h.lt h.first
        rw [if_pos hlt]
        by_cases he : runEnd src s (s + 1) < 256
        · simp only [if_pos he]
          have := hrun.lt
          exact ih (256 - runEnd src s (s + 1)) (by omega) (h.drawRun hrun he) rfl
        · have h256 : runEnd src s (s + 1) = 256 := le_antisymm hrun.le (by omega)
          simp only [if_neg he]
          rw [h256] at hrun ⊢
          rw [Pwc.smooth, if_neg (by decide)]
          exact h.copy hrun
      · rw [if_neg hlt]
        exact ⟨h.exit (by omega) htop, h.outside⟩

/-! ## The curve -/

/-- Within a run the line rises, and it ends in front of the next run. -/
theorem Drawn.le {i j : Nat} {a b : UInt8} (hsrc : Rising src) (hi : Drawn src dst i)
    (hj : Drawn src dst j) (hij : i ≤ j) (ha : dst i = some a) (hb : dst j = some b) : a ≤ b := by
  obtain ⟨s, e, hrun, hs, he, hi⟩ := hi
  obtain ⟨s', e', hrun', hs', he', hj⟩ := hj
  obtain rfl : a = point src s e (i - s) := Option.some.inj (ha.symm.trans hi)
  obtain rfl : b = point src s' e' (j - s') := Option.some.inj (hb.symm.trans hj)
  rcases Nat.lt_or_ge s' e with hlt | hge
  · -- the same run
    obtain ⟨rfl, rfl⟩ := hrun.unique hrun' (i := max s' i) (by omega) (by omega) (by omega) (by omega)
    exact hsrc.point_mono hrun.lt (by omega) (by omega)
  · have hle := hrun'.le
    have hup := hsrc.point_le hrun.lt (show i - s < e - s by omega)
    rw [if_pos (by omega)] at hup
    have hlow := hsrc.le_point hrun'.lt (show j - s' < e' - s' by omega)
    exact UInt8.le_trans hup (UInt8.le_trans (hsrc e s' hge (by omega)) hlow)

/-- In a run that is known, the entry is a point of its line. -/
theorem Drawn.eq_point {i : Nat} (h : Drawn src dst i) (hrun : IsRun src s e) (hs : s ≤ i) (he : i < e) :
    dst i = some (point src s e (i - s)) := by
  obtain ⟨s', e', hrun', hs', he', hi⟩ := h
  obtain ⟨rfl, rfl⟩ := hrun.unique hrun' hs he hs' he'
  exact hi

theorem Smoothed.of_drawn (hsrc : Rising src) (hd : ∀ i < 256, Drawn src dst i)
    (hout : ∀ i, 256 ≤ i → dst i = none) :
    Smoothed src dst := by
  have hassigned : ∀ i, (dst i).isSome ↔ i < 256 := by
    intro i
    constructor
    · intro h
      by_contra hi
      simp [hout i (by omega)] at h
    · intro hi
      obtain ⟨s, e, _, _, _, h⟩ := hd i hi
      rw [h]
      rfl
  refine ⟨hassigned, fun i j a b hij ha hb => ?_, fun s e hrun => ?_, fun s e i b hrun hs he hb => ?_⟩
  · have hj := (hassigned j).mp (by rw [hb]; rfl)
    exact (hd i (by omega)).le hsrc (hd j hj) hij ha hb
  · have hlt := hrun.lt
    have hle := hrun.le
    rw [(hd s (by omega)).eq_point hrun (le_refl s) hlt, Nat.sub_self, point_zero]
  · have hle := hrun.le
    obtain rfl : b = point src s e (i - s) :=
      Option.some.inj (hb.symm.trans ((hd i (by omega)).eq_point hrun hs he))
    exact ⟨hsrc.le_point hrun.lt (by omega), hsrc.point_le hrun.lt (by omega)⟩

theorem dataBuf_rising (behind : UInt8) (contrast brightness gamma : Int) :
    Rising (dataBuf behind contrast brightness gamma) := by
  intro i j hij hj
  rw [dataBuf, dataBuf, if_pos (by omega), if_pos hj]
  exact levelOf_mono contrast brightness gamma hij hj

theorem dataBuf_top (behind : UInt8) (contrast brightness gamma : Int) :
    dataBuf behind contrast brightness gamma 253 = dataBuf behind contrast brightness gamma 254 := by
  have h253 := levelOf_top contrast brightness gamma (i := 253) (by decide +kernel)
  have h254 := levelOf_top contrast brightness gamma (i := 254) (by decide +kernel)
  rw [dataBuf, dataBuf, if_pos (by decide), if_pos (by decide)]
  exact UInt8.toNat_inj.mp (by omega)

/-- For every setting, and whatever stands behind the buffer, the curve has all its entries and no
others, rises, goes through the first level of every run, and stays between the levels of the two runs
that it leads over. -/
theorem calculateCBG_smoothed (behind : UInt8) (contrast brightness gamma : Int) :
    Smoothed (dataBuf behind contrast brightness gamma) (calculateCBG behind contrast brightness gamma) := by
  have hstart : SmoothInv (dataBuf behind contrast brightness gamma) (fun _ => none) 0 :=
    ⟨by decide, .inl rfl, .inl rfl, fun i hi => absurd hi (by omega), fun _ _ => rfl⟩
  obtain ⟨hd, hout⟩ := hstart.smooth (dataBuf_top behind contrast brightness gamma)
  exact Smoothed.of_drawn (dataBuf_rising behind contrast brightness gamma) hd hout

end CameraFw.Pwc
