import CameraFw.Uart.Baud

/-!
# How well a baud rate is met

The search finds the nearest rate of a table, but for the middle between the two lowest. The tables are
right for their clocks, but for one entry at 56 MHz; the clock of 60 MHz has no table of its own.
-/

namespace CameraFw.Uart

variable {rate idx : Nat} {rates : List Nat}

/-! ## The search -/

theorem Nearest.cons {r x : Nat} (h : Nearest rate r rates)
    (hx : ((r : Int) - rate).natAbs ≤ ((x : Int) - rate).natAbs) :
    Nearest rate r (x :: rates) := by
  intro y hy
  rcases List.mem_cons.mp hy with rfl | hy
  · exact hx
  · exact h y hy

/-- The upper of two neighbours is nearest in a falling list if the rate is above their middle. -/
theorem nearest_upper {a b : Nat} (hsorted : (a :: b :: rates).Pairwise (· > ·)) (h : rate > (a + b) / 2) :
    Nearest rate a (a :: b :: rates) := by
  obtain ⟨ha, hrest⟩ := List.pairwise_cons.mp hsorted
  intro y hy
  rcases List.mem_cons.mp hy with rfl | hy
  · exact Nat.le_refl _
  · have hab : a > b := ha b (by simp)
    have hyb : y ≤ b := by
      rcases List.mem_cons.mp hy with rfl | hy
      · exact Nat.le_refl _
      · exact Nat.le_of_lt ((List.pairwise_cons.mp hrest).1 y hy)
    omega

/-- The first of a falling list is nearest if the rate is not below it. -/
theorem nearest_head {b : Nat} (hsorted : (b :: rates).Pairwise (· > ·)) (h : rate ≥ b) :
    Nearest rate b (b :: rates) := by
  intro y hy
  rcases List.mem_cons.mp hy with rfl | hy
  · exact Nat.le_refl _
  · have : b > y := (List.pairwise_cons.mp hsorted).1 y hy
    omega

theorem closest_spec (idx : Nat) {front : List Nat} {a b : Nat}
    (hsorted : (front ++ [a, b]).Pairwise (· > ·)) (hlow : b < rate) (hmid : rate ≠ (a + b) / 2)
    (hnot : rate ∉ front ++ [a, b]) :
    ∃ j r, closest rate idx (front ++ [a, b]) = some (idx + j) ∧ (front ++ [a, b])[j]? = some r ∧
      Nearest rate r (front ++ [a, b]) := by
  induction front generalizing idx with
  | nil =>
      simp only [List.nil_append] at hsorted ⊢
      simp only [closest]
      split
      · rename_i h
        exact ⟨0, a, rfl, rfl, nearest_upper hsorted h⟩
      · rename_i h
        rw [if_pos ⟨by omega, hlow⟩]
        have hrest := nearest_head (List.pairwise_cons.mp hsorted).2 (Nat.le_of_lt hlow)
        exact ⟨1, b, rfl, rfl, hrest.cons (by omega)⟩
  | cons x front ih =>
      obtain ⟨y, rest, hy⟩ : ∃ y rest, front ++ [a, b] = y :: rest := by
        cases front with
        | nil => exact ⟨a, [b], rfl⟩
        | cons y front => exact ⟨y, front ++ [a, b], rfl⟩
      rw [List.cons_append] at hsorted hnot ⊢
      obtain ⟨hx, hrest⟩ := List.pairwise_cons.mp hsorted
      have hnot : rate ∉ front ++ [a, b] := fun h => hnot (List.mem_cons_of_mem x h)
      have ih := ih (idx + 1) hrest hnot
      rw [hy] at hsorted hrest hnot ih ⊢
      have hxy : x > y := (List.pairwise_cons.mp hsorted).1 y (by simp)
      have hney : rate ≠ y := fun h => hnot (h ▸ by simp)
      simp only [closest]
      split
      · rename_i h
        exact ⟨0, x, rfl, rfl, nearest_upper hsorted h⟩
      · split
        · rename_i h
          exact ⟨1, y, rfl, rfl, (nearest_head hrest (Nat.le_of_lt h.2)).cons (by omega)⟩
        · rename_i hup h
          obtain ⟨j, r, hj, hr, hnear⟩ := ih
          refine ⟨j + 1, r, by rw [hj]; congr 1; omega, hr, hnear.cons ?_⟩
          -- `y` is as near as `x`, and `r` is as near as `y`
          have := hnear y (by simp)
          omega

theorem finalIdx_spec {front : List Nat} {a b : Nat} (hsorted : (front ++ [a, b]).Pairwise (· > ·))
    (hlow : b ≤ rate) (hmid : rate ≠ (a + b) / 2) :
    ∃ j r, finalIdx rate (front ++ [a, b]) = some j ∧ (front ++ [a, b])[j]? = some r ∧
      Nearest rate r (front ++ [a, b]) := by
  unfold finalIdx
  split
  · rename_i j hj
    obtain ⟨hlt, hp, -⟩ := List.findIdx?_eq_some_iff_getElem.mp hj
    refine ⟨j, _, rfl, List.getElem?_eq_getElem hlt, fun y _ => ?_⟩
    have : (front ++ [a, b])[j] = rate := by simpa using hp
    rw [this]
    omega
  · rename_i hnone
    have hnot : rate ∉ front ++ [a, b] := fun h => by simpa using List.findIdx?_eq_none_iff.mp hnone rate h
    have hb : b ≠ rate := fun h => hnot (by simp [h])
    obtain ⟨j, r, hj, hr, hnear⟩ := closest_spec 0 hsorted (by omega) hmid hnot
    exact ⟨j, r, by rw [hj, Nat.zero_add], hr, hnear⟩

/-! ## The tables -/

/-- The rates of every table but the two lowest. -/
def upperRates : List Nat := [921600, 460800, 230400, 115200, 57600, 38400, 19200, 9600, 4800, 2400, 1200]

theorem rates_eq {clk : Nat} (h : clk ∈ namedClocks) :
    (AvailBaudRate clk).map (·.rate) = upperRates ++ [600, 300] := by
  have : ∀ clk ∈ namedClocks, (AvailBaudRate clk).map (·.rate) = upperRates ++ [600, 300] := by decide
  exact this clk h

theorem rates_sorted : (upperRates ++ [600, 300]).Pairwise (· > ·) := by decide

/-- The denominator of the real rate, times 65536. -/
def divisor (reg : BitVec 32) : Nat := 16 * 2 ^ bsel reg * ((bdiv reg + 1) * 65536 + bcmp reg)

theorem accurate_iff {clk nominal : Nat} {reg : BitVec 32} :
    Accurate clk reg nominal ↔
      ((clk * 65536000 : Nat) - (nominal * divisor reg : Nat) : Int).natAbs * 50 ≤ nominal * divisor reg := by
  have hpos : (0 : ℚ) < divisor reg := by
    have : 0 < divisor reg := by unfold divisor; positivity
    exact_mod_cast this
  have hreal : realRate clk reg = (clk * 65536000 : Nat) / divisor reg := by
    have hden : (16 * 2 ^ bsel reg * (bdiv reg + 1 + bcmp reg / 65536) : ℚ) = divisor reg / 65536 := by
      unfold divisor
      push_cast
      ring
    rw [realRate, hden]
    push_cast
    field_simp
    ring
  have hdiff : realRate clk reg - nominal =
      ((clk * 65536000 : Nat) - (nominal * divisor reg : Nat) : Int) / divisor reg := by
    rw [hreal]
    push_cast
    field_simp
  rw [Accurate, hdiff, abs_div, abs_of_pos hpos, div_le_iff₀ hpos]
  rw [← Int.cast_abs, Int.abs_eq_natAbs]
  generalize ((clk * 65536000 : Nat) - (nominal * divisor reg : Nat) : Int).natAbs = k
  constructor
  · intro h
    have : (k * 50 : ℚ) ≤ nominal * divisor reg := by push_cast at h; linarith
    exact_mod_cast this
  · intro h
    have : (k * 50 : ℚ) ≤ nominal * divisor reg := by exact_mod_cast h
    push_cast
    linarith

instance (clk : Nat) (reg : BitVec 32) (nominal : Nat) : Decidable (Accurate clk reg nominal) :=
  decidable_of_iff _ accurate_iff.symm

/-- Which entries meet their rate. -/
theorem table_accurate_iff {clk : Nat} (h : clk ∈ namedClocks) {e : BaudRateClock}
    (he : e ∈ AvailBaudRate clk) :
    Accurate clk e.regVal e.rate ↔ clk ≠ 60000 ∧ ¬(clk = 56000 ∧ e.rate = 19200) := by
  have : ∀ clk ∈ namedClocks, ∀ e ∈ AvailBaudRate clk,
      (Accurate clk e.regVal e.rate ↔ clk ≠ 60000 ∧ ¬(clk = 56000 ∧ e.rate = 19200)) := by decide +kernel
  exact this clk h e he

/-! ## Programming a rate -/

section Program

variable {devHz clk : Nat}

theorem setBaudRate_eq (h : clk ∈ namedClocks) :
    setBaudRate devHz rate clk =
      (finalIdx rate (upperRates ++ [600, 300])).bind fun idx =>
        ((AvailBaudRate clk)[idx]?).map (·.regVal) := by
  have hne : clk ≠ 0 := by
    rintro rfl
    exact absurd h (by decide)
  simp only [setBaudRate, if_neg hne, rates_eq h]
  cases finalIdx rate (upperRates ++ [600, 300]) <;> rfl

/-- An entry that is nearest is programmed, unless the rate is the middle of the two lowest. -/
theorem setBaudRate_nearest (devHz : Nat) (h : clk ∈ namedClocks) (hlow : 300 ≤ rate) (hmid : rate ≠ 450) :
    ∃ e ∈ AvailBaudRate clk, Nearest rate e.rate ((AvailBaudRate clk).map (·.rate)) ∧
      setBaudRate devHz rate clk = some e.regVal := by
  obtain ⟨j, r, hj, hr, hnear⟩ := finalIdx_spec rates_sorted hlow hmid
  rw [← rates_eq h, List.getElem?_map] at hr
  obtain ⟨e, he, rfl⟩ := Option.map_eq_some_iff.mp hr
  refine ⟨e, List.mem_of_getElem? he, by rw [rates_eq h]; exact hnear, ?_⟩
  rw [setBaudRate_eq h, hj, Option.bind_some, he, Option.map_some]

/-- Around 19200 no other rate is as near. -/
theorem nearest_eq_19200 {r : Nat} (hnear : Nearest rate r (upperRates ++ [600, 300]))
    (hr : r ∈ upperRates ++ [600, 300]) (hlow : 14400 < rate) (hhigh : rate < 28800) : r = 19200 := by
  have := hnear 19200 (by decide)
  have hcases : r = 19200 ∨ 38400 ≤ r ∨ r ≤ 9600 := by
    have : ∀ r ∈ upperRates ++ [600, 300], r = 19200 ∨ 38400 ≤ r ∨ r ≤ 9600 := by decide
    exact this r hr
  omega

/-- Between the middles to the neighbours of 19200 its entry is the one that is programmed. At a middle
it is the lower rate. -/
theorem rate_eq_19200_iff (h : clk ∈ namedClocks) {e : BaudRateClock} (he : e ∈ AvailBaudRate clk)
    (hnear : Nearest rate e.rate ((AvailBaudRate clk).map (·.rate)))
    (hset : setBaudRate devHz rate clk = some e.regVal) :
    e.rate = 19200 ↔ 14400 < rate ∧ rate ≤ 28800 := by
  have hmem : e.rate ∈ upperRates ++ [600, 300] := rates_eq h ▸ List.mem_map_of_mem he
  rw [rates_eq h] at hnear
  rw [setBaudRate_eq h] at hset
  have hreg : ∀ clk ∈ namedClocks, ∀ e ∈ AvailBaudRate clk,
      (((AvailBaudRate clk)[6]?).map (·.regVal) = some e.regVal → e.rate = 19200) ∧
        (((AvailBaudRate clk)[7]?).map (·.regVal) = some e.regVal → e.rate = 9600) := by decide +kernel
  constructor
  · intro hr
    rw [hr] at hnear
    have hup := hnear 38400 (by decide)
    have hdown := hnear 9600 (by decide)
    have hne : rate ≠ 14400 := by
      rintro rfl
      have := (hreg clk h e he).2 hset
      omega
    omega
  · rintro ⟨hlow, hhigh⟩
    rcases Nat.lt_or_eq_of_le hhigh with hlt | rfl
    · exact nearest_eq_19200 hnear hmem hlow hlt
    · exact (hreg clk h e he).1 hset

/-- With a clock that the switch names and a rate from 300 on, the nearest entry is programmed and meets
its rate exactly if the clock is not 60 MHz, the rate is not 450, and not the entry of 19200 at 56 MHz
is the nearest. -/
theorem setBaudRate_wellSet_iff (devHz clk rate : Nat) (hclk : clk ∈ namedClocks) (hrate : 300 ≤ rate) :
    WellSet devHz rate clk ↔ clk ≠ 60000 ∧ rate ≠ 450 ∧ ¬(clk = 56000 ∧ 14400 < rate ∧ rate ≤ 28800) := by
  constructor
  · rintro ⟨e, he, hnear, hset, hacc⟩
    obtain ⟨h60, h56⟩ := (table_accurate_iff hclk he).mp hacc
    refine ⟨h60, ?_, fun ⟨hc, hin⟩ => h56 ⟨hc, (rate_eq_19200_iff hclk he hnear hset).mpr hin⟩⟩
    rintro rfl
    rw [setBaudRate_eq hclk, show finalIdx 450 (upperRates ++ [600, 300]) = none by decide] at hset
    cases hset
  · rintro ⟨h60, h450, h56⟩
    obtain ⟨e, he, hnear, hset⟩ := setBaudRate_nearest devHz hclk hrate h450
    refine ⟨e, he, hnear, hset, (table_accurate_iff hclk he).mpr ⟨h60, fun ⟨hc, hr⟩ => h56 ⟨hc, ?_⟩⟩⟩
    exact (rate_eq_19200_iff hclk he hnear hset).mp hr

/-- 9600 at 48 MHz. -/
theorem setBaudRate_wellSet_9600 : 48000 ∈ namedClocks ∧ 300 ≤ 9600 ∧ WellSet 0 9600 48000 :=
  ⟨by decide, by decide, (setBaudRate_wellSet_iff 0 48000 9600 (by decide) (by decide)).mpr (by decide)⟩

/-- At 60 MHz 9600 becomes 12000; 450 programs nothing; at 56 MHz 19200 becomes about 16333. -/
theorem setBaudRate_off :
    (∃ reg, setBaudRate 0 9600 60000 = some reg ∧ realRate 60000 reg = 12000) ∧
      setBaudRate 0 450 48000 = none ∧
      ∃ reg, setBaudRate 0 19200 56000 = some reg ∧ ¬Accurate 56000 reg 19200 := by
  refine ⟨⟨0x8508c400, by decide, ?_⟩, by decide, 0x8505b254, by decide, by decide +kernel⟩
  have hsel : bsel 0x8508c400 = 5 := by decide
  have hdiv : bdiv 0x8508c400 = 8 := by decide
  have hcmp : bcmp 0x8508c400 = 50176 := by decide
  rw [realRate, hsel, hdiv, hcmp]
  norm_num

end Program

end CameraFw.Uart
