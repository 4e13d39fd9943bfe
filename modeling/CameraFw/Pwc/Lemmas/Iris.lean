import CameraFw.Pwc.Iris

/-!
# Values of the DAC

`cal_dac_register` brings the two registers back to a range in which all that is subtracted from them
leaves them positive. Only an opening leaves them outside, until the next call of it.
-/

namespace CameraFw.Pwc

open CameraFw.Base

/-- A value that the DAC is meant for. -/
def InDac (x : Int) : Prop := MIN_DAC_NUM ≤ x ∧ x ≤ MAX_DAC_NUM

instance (x : Int) : Decidable (InDac x) := inferInstanceAs (Decidable (_ ∧ _))

/-- All values that are passed on are such. -/
def AllInDac (dacs : List Dac) : Prop := ∀ w ∈ dacs, InDac w.arg

instance (dacs : List Dac) : Decidable (AllInDac dacs) := inferInstanceAs (Decidable (∀ w ∈ dacs, _))

@[simp]
theorem allInDac_nil : AllInDac [] := fun _ h => by cases h

@[simp]
theorem allInDac_cons {w : Dac} {dacs : List Dac} :
    AllInDac (w :: dacs) ↔ InDac w.arg ∧ AllInDac dacs := List.forall_mem_cons

@[simp]
theorem allInDac_append {a b : List Dac} : AllInDac (a ++ b) ↔ AllInDac a ∧ AllInDac b :=
  List.forall_mem_append

/-- A byte holds it. -/
theorem byte_of_inDac {x : Int} (h : InDac x) : (byte x : Int) = x := by
  obtain ⟨hlo, hhi⟩ := h
  unfold MIN_DAC_NUM at hlo
  unfold MAX_DAC_NUM at hhi
  unfold byte
  omega

/-! ## The registers -/

/-- What `cal_dac_register` needs: below 20 it starts anew. -/
structure Iris.Ready (i : Iris) : Prop where
  first_le : i.dacFirst ≤ 90
  last_le : i.lastValidValue ≤ 95
  apart : 20 ≤ i.dacFirst → i.dacFirst - 8 ≤ i.dacSecond ∧ i.dacSecond ≤ i.dacFirst
  failed : i.failedAndToleranceRange = 0

/-- The registers are at least `m + 6` and `m`, and not above their limit. -/
structure Iris.From (i : Iris) (m : Int) : Prop where
  first_ge : m + 6 ≤ i.dacFirst
  first_le : i.dacFirst ≤ 90
  second_ge : m ≤ i.dacSecond
  second_le : i.dacSecond ≤ i.dacFirst
  apart : i.dacFirst - 8 ≤ i.dacSecond
  last_le : i.lastValidValue ≤ 95
  failed : i.failedAndToleranceRange = 0

section Registers

variable {i : Iris} {m : Int}

theorem Iris.From.mono {k : Int} (h : i.From m) (hle : k ≤ m) : i.From k where
  first_ge := by have := h.first_ge; omega
  first_le := h.first_le
  second_ge := by have := h.second_ge; omega
  second_le := h.second_le
  apart := h.apart
  last_le := h.last_le
  failed := h.failed

theorem Iris.From.ready (h : i.From m) : i.Ready :=
  ⟨h.first_le, h.last_le, fun _ => ⟨h.apart, h.second_le⟩, h.failed⟩

theorem Iris.From.lessBy {n : Int} (h : i.From m) (hn : 0 ≤ n) : (i.lessBy n).From (m - n) := by
  obtain ⟨h1, h2, h3, h4, h5, h6, h7⟩ := h
  constructor <;> simp only [Iris.lessBy] <;> omega

/-- By how much a command lowers the registers at most. -/
def Command.drop : Command → Int
  | .minusOneUnit => 1
  | .enterValidMode => 3
  | .exposureIs .tooLow => 2
  | .exposureIs .veryLow => 4
  | .exposureIs _ => 0

theorem Iris.Ready.restart (h : i.Ready) : i.restart.From 10 := by
  obtain ⟨h1, h2, h3, h4⟩ := h
  unfold Iris.restart
  split
  · split
    · constructor <;> dsimp only <;> omega
    · constructor <;> dsimp only <;> omega
  · obtain ⟨h5, h6⟩ := h3 (by omega)
    constructor <;> omega

/-- What `limit` makes of registers that were changed. -/
theorem Iris.limit_from {i : Iris} {m : Int} (hm : 0 ≤ m) (hfirst : m + 6 ≤ i.dacFirst)
    (hsecond : m ≤ i.dacSecond) (hle : i.dacSecond ≤ i.dacFirst ∧ i.dacSecond ≤ 90) (hm' : m ≤ 84)
    (hlast : i.lastValidValue ≤ 95) (hfailed : i.failedAndToleranceRange = 0) : i.limit.From m := by
  unfold Iris.limit MIN_DAC_NUM MAX_DAC_NUM
  dsimp only
  rw [if_neg (show ¬i.dacFirst < 0 by omega)]
  constructor <;> dsimp only
  all_goals repeat' split
  all_goals omega

theorem Iris.From.limit (h : i.From m) (hm : 0 ≤ m) : i.limit.From m := by
  have hfirst := h.first_ge
  have hle := h.first_le
  have hsecond := h.second_le
  exact Iris.limit_from hm hfirst h.second_ge ⟨hsecond, by omega⟩ (by omega) h.last_le h.failed

theorem Iris.From.limit_raise (h : i.From 10) : i.raise.limit.From 10 := by
  obtain ⟨h1, h2, h3, h4, h5, h6, h7⟩ := h
  unfold Iris.raise VALID_MODE_UNIT INVALID_MODE_UNIT
  split
  · split
    · apply Iris.limit_from <;> first | omega | (dsimp only; omega)
    · apply Iris.limit_from <;> first | omega | (dsimp only; omega)
  · split
    · apply Iris.limit_from <;> first | omega | (dsimp only; omega)
    · apply Iris.limit_from <;> first | omega | (dsimp only; omega)

theorem Iris.From.limit_lowerTo {n : Int} (h : i.From 10) (h0 : 0 ≤ n) (hn : n ≤ 10) :
    (i.lowerTo n).limit.From (10 - n) := by
  obtain ⟨h1, h2, h3, h4, h5, h6, h7⟩ := h
  unfold Iris.lowerTo
  apply Iris.limit_from <;> first | omega | (dsimp only; omega)

/-- `cal_dac_register` puts the registers back into range, whatever the command. -/
theorem Iris.Ready.cal (h : i.Ready) (c : Command) : (calDacRegister i c).From (10 - c.drop) := by
  have hr := h.restart
  unfold calDacRegister
  generalize i.restart = r at hr
  have htried : Iris.From { r with tried := r.tried - 1 } 10 :=
    ⟨hr.first_ge, hr.first_le, hr.second_ge, hr.second_le, hr.apart, hr.last_le, hr.failed⟩
  cases c with
  | minusOneUnit => exact (hr.lessBy (by decide)).limit (by decide)
  | enterValidMode => exact (hr.lessBy (by decide)).limit (by decide)
  | exposureIs code =>
      cases code with
      | ok => exact hr.limit (by decide)
      | tooHigh =>
          simp only [Iris.apply]
          split
          · exact htried.limit (by decide)
          · exact hr.limit_raise
      | tooLow =>
          simp only [Iris.apply]
          split
          · exact (htried.limit (by decide)).mono (by decide)
          · exact hr.limit_lowerTo (by decide) (by decide)
      | veryLow =>
          simp only [Iris.apply]
          split
          · exact (htried.limit (by decide)).mono (by decide)
          · exact hr.limit_lowerTo (by decide) (by decide)

/-- Less than `m` can be subtracted from both. -/
theorem Iris.From.inDac {n : Int} (h : i.From m) (h0 : 0 ≤ n) (hn : n ≤ m) :
    AllInDac [.register (i.dacFirst - n), .register (i.dacSecond - n)] := by
  obtain ⟨h1, h2, h3, h4, h5, _, _⟩ := h
  simp only [allInDac_cons, allInDac_nil, InDac, Dac.arg, MIN_DAC_NUM, MAX_DAC_NUM, and_true]
  omega

end Registers

/-! ## A closing -/

section Closing

variable {i : Iris} {m thr cur : Int} {code : Code}

theorem Iris.Ready.findValid_found (h : i.Ready) {cur : Int} (hmode : i.validMode = false)
    (hfound : int32 (i.preAccY - cur) > EXPOSURE_RANGE) : (i.findValid cur).From 6 := by
  have hready : Iris.Ready { i with validMode := true } := ⟨h.first_le, h.last_le, h.apart, h.failed⟩
  rw [Iris.findValid, if_pos ⟨hmode, hfound⟩]
  exact (hready.cal .enterValidMode).mono (by decide)

/-- The valid mode is entered with a calculation, or nothing happens. -/
theorem Iris.Ready.findValid (h : i.Ready) (cur : Int) : (i.findValid cur).From 6 ∨ i.findValid cur = i := by
  by_cases hboth : i.validMode = false ∧ int32 (i.preAccY - cur) > EXPOSURE_RANGE
  · exact .inl (h.findValid_found hboth.1 hboth.2)
  · exact .inr (if_neg hboth)

theorem Iris.From.findValid (h : i.From 6) (cur : Int) : (i.findValid cur).From 6 := by
  rcases h.ready.findValid cur with hsix | hsame
  · exact hsix
  · rw [hsame]
    exact h

/-- The average is so low that the loop does not calculate anew: it has risen by more than is missing. -/
def Iris.Rising (i : Iris) (thr cur : Int) : Prop := ¬int32 (cur - i.preAccY) ≤ int32 (thr - cur)

theorem not_high_of_low {p : Prop} (hcode : code = .tooLow ∨ code = .veryLow ∧ p) :
    code ≠ .tooHigh ∧ code ≠ .ok := by
  rcases hcode with rfl | ⟨rfl, _⟩
  · exact ⟨by decide, by decide⟩
  · exact ⟨by decide, by decide⟩

theorem Iris.settleOnce_from (thr cur : Int) (hne : code ≠ .tooHigh)
    (h : i.From 6 ∨ i.Ready ∧ (code = .tooLow ∨ code = .veryLow ∧ ¬i.Rising thr cur)) :
    (i.settleOnce thr cur code).1.From 6 ∧ AllInDac (i.settleOnce thr cur code).2 := by
  have hready : i.Ready := h.elim (fun h => h.ready) And.left
  cases code with
  | tooHigh => exact absurd rfl hne
  | ok =>
      rcases h with h | ⟨_, hcode | ⟨hcode, _⟩⟩
      · exact ⟨h, allInDac_nil⟩
      · cases hcode
      · cases hcode
  | tooLow =>
      have hcal : (calDacRegister i (.exposureIs .tooLow)).From 8 := hready.cal (.exposureIs .tooLow)
      exact ⟨hcal.mono (by decide), hcal.inDac (by decide) (by decide)⟩
  | veryLow =>
      have hsix : (i.settleOnce thr cur .veryLow).1.From 6 := by
        simp only [Iris.settleOnce]
        split
        · exact hready.cal (.exposureIs .veryLow)
        · rename_i hrising
          rcases h with h | ⟨_, hcode | ⟨_, hnot⟩⟩
          · exact h
          · cases hcode
          · exact absurd hrising hnot
      refine ⟨hsix, ?_⟩
      have hsecond := (hsix.inDac (n := 6) (by decide) (by decide))
      simp only [allInDac_cons, allInDac_nil, and_true] at hsecond
      exact allInDac_cons.mpr ⟨by decide, allInDac_cons.mpr ⟨hsecond.2, allInDac_nil⟩⟩

/-- The settling loop keeps the registers and what it writes in range. -/
theorem Iris.settle_from (thr : Int) (readings : Nat → Int) :
    ∀ (n k continueOk : Nat) (cur : Int) (code : Code) {i : Iris},
    i.From 6 → (Iris.settle thr readings n k continueOk cur code i).1.From 6 ∧
      AllInDac (Iris.settle thr readings n k continueOk cur code i).2.2 := by
  intro n
  induction n with
  | zero => intro k continueOk cur code i h; exact ⟨h, allInDac_nil⟩
  | succ n ih =>
      intro k continueOk cur code i h
      rw [Iris.settle]
      split
      · exact ⟨h, allInDac_nil⟩
      · rename_i hne
        dsimp only
        generalize (if code = .ok then continueOk + 1 else continueOk) = continueOk'
        split
        · exact ⟨h, allInDac_nil⟩
        · obtain ⟨honce, hdacs⟩ := Iris.settleOnce_from thr cur hne (.inl h)
          obtain ⟨hrest, hmore⟩ := ih (k + 1) continueOk' (readings k)
            (checkCurrentAvgY (i.settleOnce thr cur code).1 (readings k) thr) honce
          exact ⟨hrest, allInDac_append.mpr ⟨hdacs, hmore⟩⟩

/-- So does a loop that begins with a calculation, from wherever. -/
theorem Iris.settle_ready (readings : Nat → Int) (n k continueOk : Nat) (hready : i.Ready)
    (hcode : code = .tooLow ∨ code = .veryLow ∧ ¬i.Rising thr cur) :
    (Iris.settle thr readings (n + 1) k continueOk cur code i).1.From 6 ∧
      AllInDac (Iris.settle thr readings (n + 1) k continueOk cur code i).2.2 := by
  obtain ⟨hne, hok⟩ := not_high_of_low hcode
  obtain ⟨honce, hdacs⟩ := Iris.settleOnce_from thr cur hne (.inr ⟨hready, hcode⟩)
  obtain ⟨hrest, hmore⟩ := Iris.settle_from thr readings n (k + 1) continueOk (readings k)
    (checkCurrentAvgY (i.settleOnce thr cur code).1 (readings k) thr) honce
  rw [Iris.settle, if_neg hne, if_neg hok, if_neg (fun h => hok h.1)]
  exact ⟨hrest, allInDac_append.mpr ⟨hdacs, hmore⟩⟩

/-- In a round that does not calculate anew, the second register has to be 6 at least. -/
theorem Iris.settle_rising (readings : Nat → Int) (n k continueOk : Nat) (hrising : i.Rising thr cur)
    (hlow : i.dacSecond < 6) :
    ¬AllInDac (Iris.settle thr readings (n + 1) k continueOk cur .veryLow i).2.2 := by
  have honce : ¬AllInDac (i.settleOnce thr cur .veryLow).2 := by
    simp only [Iris.settleOnce, if_neg hrising, allInDac_cons, InDac, Dac.arg, MIN_DAC_NUM]
    omega
  rw [Iris.settle, if_neg (by simp), if_neg (by simp), if_neg (by simp)]
  exact fun hall => honce (allInDac_append.mp hall).1

/-- Where the first average leads to a calculation, the registers are in range afterwards. -/
theorem Iris.Ready.react (h : i.Ready) (thr cur : Int) (hcode : code = .tooHigh ∨ code = .ok) :
    (i.react thr cur code).1.From 6 ∧ AllInDac (i.react thr cur code).2 := by
  rcases hcode with rfl | rfl
  · have hcal : (calDacRegister i (.exposureIs .tooHigh)).From 10 := h.cal (.exposureIs .tooHigh)
    have hsix : (i.react thr cur .tooHigh).1.From 6 := by
      simp only [Iris.react]
      split
      · exact (hcal.lessBy (by decide)).mono (by decide)
      · exact hcal.mono (by decide)
    have hdacs := hsix.inDac (n := 0) (by decide) (by decide)
    rw [Int.sub_zero, Int.sub_zero] at hdacs
    exact ⟨hsix, hdacs⟩
  · have hcal : (calDacRegister i (.exposureIs .ok)).From 10 := h.cal (.exposureIs .ok)
    have hfailed : ¬(calDacRegister i (.exposureIs .ok)).failedAndToleranceRange > 0 := by
      rw [hcal.failed]; decide
    simp only [Iris.react, if_neg hfailed]
    refine ⟨hcal.mono (by decide), ?_⟩
    split
    · exact hcal.inDac (by decide) (by decide)
    · decide

theorem Iris.From.react_tooLow (h : i.From 6) (thr cur : Int) :
    (i.react thr cur .tooLow).1.Ready ∧ AllInDac (i.react thr cur .tooLow).2 := by
  have hfirst := h.first_ge
  have hless : (i.lessBy 1).From 5 := h.lessBy (by decide)
  have hge := hless.first_ge
  simp only [Iris.react, if_pos (show i.dacFirst > 1 by omega),
    if_pos (show (i.lessBy 1).dacFirst ≥ 4 by omega)]
  exact ⟨hless.ready, hless.inDac (by decide) (by decide)⟩

theorem Iris.From.remember (h : i.From m) (y : Int) : Iris.From { i with preAccY := y } m :=
  ⟨h.first_ge, h.first_le, h.second_ge, h.second_le, h.apart, h.last_le, h.failed⟩

/-- A closing ends with registers in range if the reaction does, -/
theorem reactAndSettle_from {readings : Nat → Int} (h : (i.react thr (readings 0) code).1.From 6)
    (hdacs : AllInDac (i.react thr (readings 0) code).2) :
    (i.reactAndSettle thr readings code).1.From 6 ∧ AllInDac (i.reactAndSettle thr readings code).2 := by
  simp only [Iris.reactAndSettle]
  generalize (if code = .tooHigh then _ else _ : Int × Code) = p
  obtain ⟨hsettle, hmore⟩ := Iris.settle_from thr readings
    (10 + ((i.react thr (readings 0) code).1.findValid p.1).failedAndToleranceRange).toNat 2 0 p.1 p.2
    (h.findValid p.1)
  exact ⟨hsettle.remember _, allInDac_append.mpr ⟨hdacs, hmore⟩⟩

/-- or if the loop begins with a calculation. -/
theorem reactAndSettle_ready {readings : Nat → Int} (h : (i.react thr (readings 0) code).1.Ready)
    (hdacs : AllInDac (i.react thr (readings 0) code).2)
    (hcode : code = .tooLow ∨ code = .veryLow ∧ ¬(i.react thr (readings 0) code).1.Rising thr (readings 0)) :
    (i.reactAndSettle thr readings code).1.From 6 ∧ AllInDac (i.reactAndSettle thr readings code).2 := by
  obtain ⟨hne, _⟩ := not_high_of_low hcode
  simp only [Iris.reactAndSettle, if_neg hne]
  generalize i.react thr (readings 0) code = r at h hdacs hcode
  have hsettle : ∀ j : Iris, j = r.1.findValid (readings 0) →
      (Iris.settle thr readings (10 + j.failedAndToleranceRange).toNat 2 0 (readings 0) code j).1.From 6 ∧
        AllInDac
          (Iris.settle thr readings (10 + j.failedAndToleranceRange).toNat 2 0 (readings 0) code j).2.2 := by
    rintro j rfl
    rcases h.findValid (readings 0) with hsix | hsame
    · exact Iris.settle_from thr readings _ 2 0 _ code hsix
    · rw [hsame, h.failed]
      exact Iris.settle_ready readings 9 2 0 h hcode
  obtain ⟨hfrom, hmore⟩ := hsettle _ rfl
  exact ⟨hfrom.remember _, allInDac_append.mpr ⟨hdacs, hmore⟩⟩

theorem Iris.Ready.reactAndSettle (h : i.Ready) (thr : Int) (readings : Nat → Int)
    (hcode : code = .tooHigh ∨ code = .ok) :
    (i.reactAndSettle thr readings code).1.From 6 ∧ AllInDac (i.reactAndSettle thr readings code).2 := by
  obtain ⟨hreact, hdacs⟩ := h.react thr (readings 0) hcode
  exact reactAndSettle_from hreact hdacs

theorem Iris.From.reactAndSettle (h : i.From 6) (thr : Int) (readings : Nat → Int) (code : Code) :
    (i.reactAndSettle thr readings code).1.From 6 ∧ AllInDac (i.reactAndSettle thr readings code).2 := by
  cases code with
  | tooHigh => exact h.ready.reactAndSettle thr readings (.inl rfl)
  | ok => exact h.ready.reactAndSettle thr readings (.inr rfl)
  | veryLow => exact reactAndSettle_from h allInDac_nil
  | tooLow =>
      obtain ⟨hready, hdacs⟩ := h.react_tooLow thr (readings 0)
      exact reactAndSettle_ready hready hdacs (.inl rfl)

theorem Iris.From.close (h : i.From 6) (thr : Int) (readings : Nat → Int) :
    (i.close thr readings).1.From 6 ∧ AllInDac (i.close thr readings).2 :=
  (h.findValid (readings 0)).reactAndSettle thr readings _

/-! ## After an opening -/

/-- The registers are as an opening leaves them. -/
structure Iris.Opened (i : Iris) : Prop where
  validMode : i.validMode = false
  first : i.dacFirst = 0
  second : i.dacSecond = 4
  last_le : i.lastValidValue ≤ 95
  failed : i.failedAndToleranceRange = 0

theorem Iris.Opened.ready (h : i.Opened) : i.Ready :=
  ⟨by rw [h.first]; decide, h.last_le, fun hge => by rw [h.first] at hge; omega, h.failed⟩

/-- The first average of a closing is very low and has risen by more than is missing, so that nothing is
calculated. -/
structure Iris.Hazard (i : Iris) (thr cur : Int) : Prop where
  code : checkCurrentAvgY i cur thr = .veryLow
  notValid : ¬int32 (i.preAccY - cur) > EXPOSURE_RANGE
  rising : i.Rising thr cur

theorem Iris.Opened.react_tooLow (h : i.Opened) (thr cur : Int) :
    i.react thr cur .tooLow = (i, [.register 0, .register 6]) := by
  have hfirst := h.first
  simp only [Iris.react, if_neg (show ¬i.dacFirst > 1 by omega), if_neg (show ¬i.dacFirst ≥ 4 by omega)]

/-- A closing after an opening is in range exactly if it is no hazard. -/
theorem Iris.Opened.close (h : i.Opened) (thr : Int) (readings : Nat → Int) :
    (¬i.Hazard thr (readings 0) → (i.close thr readings).1.From 6 ∧ AllInDac (i.close thr readings).2) ∧
      (i.Hazard thr (readings 0) → ¬AllInDac (i.close thr readings).2) := by
  unfold Iris.close
  by_cases hfound : int32 (i.preAccY - readings 0) > EXPOSURE_RANGE
  · exact ⟨fun _ => (h.ready.findValid_found h.validMode hfound).reactAndSettle thr readings _,
      fun hhazard => absurd hfound hhazard.notValid⟩
  · have hsame : i.findValid (readings 0) = i := if_neg fun hboth => hfound hboth.2
    rw [hsame]
    cases hcode : checkCurrentAvgY i (readings 0) thr with
    | tooHigh =>
        exact ⟨fun _ => h.ready.reactAndSettle thr readings (.inl rfl),
          fun hhazard => by cases hcode.symm.trans hhazard.code⟩
    | ok =>
        exact ⟨fun _ => h.ready.reactAndSettle thr readings (.inr rfl),
          fun hhazard => by cases hcode.symm.trans hhazard.code⟩
    | tooLow =>
        have hreact := h.react_tooLow thr (readings 0)
        have hdacs : AllInDac [.register 0, .register 6] := by decide
        refine ⟨fun _ => reactAndSettle_ready ?_ ?_ (.inl rfl),
          fun hhazard => by cases hcode.symm.trans hhazard.code⟩
        · rw [hreact]
          exact h.ready
        · rw [hreact]
          exact hdacs
    | veryLow =>
        refine ⟨fun hno => reactAndSettle_ready h.ready allInDac_nil
          (.inr ⟨rfl, fun hrising => hno ⟨hcode, hfound, hrising⟩⟩), fun hhazard hall => ?_⟩
        have hloop := Iris.settle_rising readings 9 2 0 hhazard.rising (by rw [h.second]; decide)
        simp only [Iris.reactAndSettle, Iris.react, reduceCtorEq, if_false, hsame, h.failed] at hall
        exact hloop hall

/-! ## Rounds -/

/-- The registers are in range, or as an opening left them. -/
def Iris.Sound (i : Iris) : Prop := i.From 6 ∨ i.Opened

theorem Iris.Sound.open (h : i.Sound) (cur : Int) : (i.open cur).1.Opened ∧ AllInDac (i.open cur).2 := by
  have hlast : i.lastValidValue ≤ 95 := h.elim (fun h => h.last_le) (fun h => h.last_le)
  have hfailed : i.failedAndToleranceRange = 0 := h.elim (fun h => h.failed) (fun h => h.failed)
  have hdacs : AllInDac [.register2 0, .register2 4] := by decide
  refine ⟨⟨rfl, rfl, rfl, ?_, hfailed⟩, hdacs⟩
  simp only [Iris.open]
  split
  · split <;> omega
  · exact hlast

end Closing

/-- The round closes an iris that an opening has left as it is, and does so without a calculation. -/
structure Thread.Hazard (s : Thread) (c : Ctl) (cur : Int) : Prop where
  closing : c.currentIRISIndicator ≥ 20 ∧ c.currentExposure = 1
  opened : s.iris.dacFirst = 0
  hazard : s.iris.Hazard c.aeThreshold cur

/-- The turn is no such round. -/
def Thread.Harmless (s : Thread) : Turn → Prop
  | .round accY avg readings => ¬s.Hazard (s.passes accY avg).ctl (readings 0)
  | .job _ => True

/-- Every turn keeps the registers sound and passes on values in range exactly if it is harmless. -/
theorem perform_sound {s : Thread} (h : s.iris.Sound) (t : Turn) :
    (AllInDac (s.perform t).2 ↔ s.Harmless t) ∧ (s.Harmless t → (s.perform t).1.iris.Sound) := by
  cases t with
  | job j => exact ⟨iff_of_true allInDac_nil trivial, fun _ => h⟩
  | round accY avg readings =>
      obtain ⟨c, hc⟩ : ∃ c, c = (s.passes accY avg).ctl := ⟨_, rfl⟩
      simp only [Thread.perform, Thread.Harmless, ← hc, Iris.adjust]
      by_cases hopen : c.currentIRISIndicator = -9999
      · obtain ⟨hopened, hdacs⟩ := h.open (readings 0)
        have hno : ¬s.Hazard c (readings 0) := fun hhazard => by have := hhazard.closing.1; omega
        rw [if_pos hopen]
        exact ⟨iff_of_true hdacs hno, fun _ => .inr hopened⟩
      · rw [if_neg hopen]
        by_cases hclose : c.currentIRISIndicator ≥ 20 ∧ c.currentExposure = 1
        · rw [if_pos hclose]
          rcases h with hfrom | hopened
          · obtain ⟨hclosed, hdacs⟩ := hfrom.close c.aeThreshold readings
            have hno : ¬s.Hazard c (readings 0) := fun hhazard => by
              have := hhazard.opened
              have := hfrom.first_ge
              omega
            exact ⟨iff_of_true hdacs hno, fun _ => .inl hclosed⟩
          · obtain ⟨hright, hwrong⟩ := hopened.close c.aeThreshold readings
            by_cases hhazard : s.iris.Hazard c.aeThreshold (readings 0)
            · have hyes : s.Hazard c (readings 0) := ⟨hclose, hopened.first, hhazard⟩
              exact ⟨iff_of_false (hwrong hhazard) (not_not.mpr hyes), fun hno => absurd hyes hno⟩
            · obtain ⟨hclosed, hdacs⟩ := hright hhazard
              exact ⟨iff_of_true hdacs fun hyes => hhazard hyes.hazard, fun _ => .inl hclosed⟩
        · rw [if_neg hclose]
          exact ⟨iff_of_true allInDac_nil fun hyes => hclose hyes.closing, fun _ => h⟩

theorem started_sound (d : Dev) (accY : Int) : (Thread.started d accY).iris.Sound := by
  refine .inl ?_
  constructor <;> simp [Thread.started, Iris.loaded]

end CameraFw.Pwc
