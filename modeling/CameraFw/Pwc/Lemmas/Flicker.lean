import CameraFw.Pwc.Lemmas.Exposure

/-!
# The band of averages that change nothing

Its two ends are distances from the target that depend on the flicker tolerance. For a target that an
average can come near to, the tolerance stays small: the exposure can go down only while the upper end
is below 255.
-/

namespace CameraFw.Pwc

open CameraFw.Base

theorem int32_eq {x : Int} (hlo : -2 ^ 31 ≤ x) (hhi : x < 2 ^ 31) : int32 x = x := by
  unfold int32
  exact Int.bmod_eq_of_le (by omega) (by omega)

theorem tdiv_ten (x : Int) : x.tdiv 10 = if 0 ≤ x then x / 10 else -(-x / 10) := by
  split
  · exact Int.tdiv_eq_ediv_of_nonneg ‹_›
  · rw [← Int.neg_neg (x.tdiv 10), ← Int.neg_tdiv, Int.tdiv_eq_ediv_of_nonneg (by omega)]

/-! ## Offsets of the tables -/

theorem offsets_of_mem : ∀ r ∈ CCD_EXPOSURE_TABLE50.tail, r.prevExpoOfst = 10 ∧ r.nextExpoOfst = 16 := by
  decide +kernel

theorem rowAt_mem {e : Int} (hpos : 1 ≤ e) (hle : e ≤ TI_MAX_EXPO_60) :
    rowAt CCD_EXPOSURE_TABLE50 e ∈ CCD_EXPOSURE_TABLE50.tail := by
  have hlt : e.toNat < CCD_EXPOSURE_TABLE50.length := by
    have hmax : TI_MAX_EXPO_60 = CCD_EXPOSURE_TABLE50.length - 1 := rfl
    omega
  obtain ⟨n, hn⟩ : ∃ n, e.toNat = n + 1 := ⟨e.toNat - 1, by omega⟩
  rw [hn] at hlt
  have htail : n < CCD_EXPOSURE_TABLE50.tail.length := by rw [List.length_tail]; omega
  rw [rowAt, if_neg (by omega), hn, List.getD_eq_getElem _ _ hlt, ← List.getElem_tail htail]
  exact List.getElem_mem htail

/-- The frequencies that the ioctl sets. -/
def Dev.Hz (d : Dev) : Prop := d.frequency = 0 ∨ d.frequency = 50 ∨ d.frequency = 60

/-- The offsets do not depend on the exposure. -/
theorem offsets_eq {c : Ctl} (h : c.InRange) (hz : c.dev.Hz) :
    c.dev.frequency = 0 ∧ getPrevOfst c.dev.frequency c.currentExposure = 0 ∧
        getNextOfst c.dev.frequency c.currentExposure = 0 ∨
      c.dev.frequency ≠ 0 ∧ getPrevOfst c.dev.frequency c.currentExposure = 10 ∧
        getNextOfst c.dev.frequency c.currentExposure = 16 := by
  obtain ⟨hprev, hnext⟩ := offsets_of_mem _ (rowAt_mem h.pos (h.max ▸ h.le))
  rcases hz with hz | hz | hz
  · exact .inl ⟨hz, by rw [hz]; rfl, by rw [hz]; rfl⟩
  · refine .inr ⟨by rw [hz]; decide, ?_, ?_⟩
    · rw [getPrevOfst, getColumn, if_pos hz]; exact hprev
    · rw [getNextOfst, getColumn, if_pos hz]; exact hnext
  · refine .inr ⟨by rw [hz]; decide, ?_, ?_⟩
    · rw [getPrevOfst, getColumn, if_neg (by rw [hz]; decide), if_pos hz]; exact hprev
    · rw [getNextOfst, getColumn, if_neg (by rw [hz]; decide), if_pos hz]; exact hnext

/-! ## The ends of the band -/

/-- How far above the target the band ends at this tolerance. -/
def Ctl.above (c : Ctl) (tolerance : Int) : Int :=
  ((getNextOfst c.dev.frequency c.currentExposure + tolerance) * c.flickerAllowTolerance).tdiv 10

/-- And how far below it. -/
def Ctl.below (c : Ctl) (tolerance : Int) : Int :=
  ((getPrevOfst c.dev.frequency c.currentExposure - tolerance) * c.flickerAllowTolerance).tdiv 10

/-- The target of a pass. -/
def Ctl.target (c : Ctl) : Int := int32 (120 + (c.dev.exposurelevel - 10) * 10)

/-- Some average from 0 to 255 is within the offsets of the target. -/
def Ctl.Near (c : Ctl) : Prop := -16 ≤ c.target ∧ c.target ≤ 265

/-- What the passes keep of the flicker tolerance. -/
structure Ctl.Calm (c : Ctl) : Prop where
  allow : c.flickerAllowTolerance = 18 ∨ c.flickerAllowTolerance = 10 ∧ c.flickerTolerance = 0
  direct : c.flickerLastDirect = c.flickerCurrentDirect
  bound : c.Near →
    0 ≤ c.flickerTolerance ∧ c.flickerTolerance ≤ 151 + if c.flickerCurrentDirect = 1 then 1 else 0

theorem Ctl.Calm.of_reset {c : Ctl}
    (hallow : c.flickerAllowTolerance = 18 ∨ c.flickerAllowTolerance = 10)
    (htolerance : c.flickerTolerance = 0) (hlast : c.flickerLastDirect = 0)
    (hcurrent : c.flickerCurrentDirect = 0) :
    c.Calm := by
  refine ⟨hallow.imp_right fun h => ⟨h, htolerance⟩, hlast.trans hcurrent.symm, fun _ => ?_⟩
  rw [htolerance, hcurrent]
  decide

/-- What every job keeps. -/
structure Ctl.Tuned (c : Ctl) : Prop where
  inRange : c.InRange
  hz : c.dev.Hz
  calm : c.Calm

section Ends

variable {c : Ctl}

/-- The numbers in the two expressions are small. -/
theorem Ctl.Tuned.scaled (h : c.Tuned) (hnear : c.Near) :
    (0 ≤ (getNextOfst c.dev.frequency c.currentExposure + c.flickerTolerance) * c.flickerAllowTolerance ∧
        (getNextOfst c.dev.frequency c.currentExposure + c.flickerTolerance) * c.flickerAllowTolerance ≤
          4000) ∧
      -4000 ≤ (getPrevOfst c.dev.frequency c.currentExposure - c.flickerTolerance) * c.flickerAllowTolerance ∧
        (getPrevOfst c.dev.frequency c.currentExposure - c.flickerTolerance) * c.flickerAllowTolerance ≤
          4000 := by
  obtain ⟨hpos, hle⟩ := h.calm.bound hnear
  have hsmall : c.flickerTolerance ≤ 152 := by split at hle <;> omega
  rcases offsets_eq h.inRange h.hz with ⟨_, hprev, hnext⟩ | ⟨_, hprev, hnext⟩ <;>
    rcases h.calm.allow with hallow | ⟨hallow, _⟩ <;> rw [hprev, hnext, hallow] <;> omega

/-- Nothing overflows. -/
theorem Ctl.Tuned.ends (h : c.Tuned) (hnear : c.Near) (hthr : c.aeThreshold = c.target) :
    c.upper = c.target + c.above c.flickerTolerance ∧ c.lower = c.target - c.below c.flickerTolerance := by
  obtain ⟨⟨hn0, hn⟩, hp0, hp⟩ := h.scaled hnear
  obtain ⟨hlo, hhi⟩ := hnear
  have hfits : ∀ x : Int, -4000 ≤ x → x ≤ 4000 → int32 (c.target + (int32 x).tdiv 10) = c.target + x.tdiv 10 ∧
      int32 (c.target - (int32 x).tdiv 10) = c.target - x.tdiv 10 := by
    intro x hx0 hx
    have hdiv := tdiv_ten x
    rw [int32_eq (x := x) (by omega) (by omega)]
    constructor <;> apply int32_eq <;> split at hdiv <;> omega
  unfold Ctl.upper Ctl.lower Ctl.above Ctl.below
  rw [hthr]
  exact ⟨(hfits _ (by omega) hn).1, (hfits _ hp0 hp).2⟩

end Ends

/-! ## One measured average -/

theorem Ctl.move_direct (c : Ctl) (accY : Int) :
    (c.move accY).flickerCurrentDirect =
      if accY > c.upper then if c.currentExposure = 1 then c.flickerCurrentDirect else -1
      else if accY < c.lower then 1 else 0 := by
  unfold Ctl.move
  split
  · unfold Ctl.down Ctl.jump
    dsimp only
    repeat' split
    all_goals rfl
  · split
    · unfold Ctl.up Ctl.jump
      dsimp only
      repeat' split
      all_goals rfl
    · rfl

/-- The exposure goes down only while the tolerance is at most 150. -/
theorem Ctl.Tuned.small_of_upper {c : Ctl} (h : c.Tuned) (hnear : c.Near)
    (hthr : c.aeThreshold = c.target) {accY : Int} (hle : accY ≤ 255) (hup : accY > c.upper) :
    c.flickerTolerance ≤ 150 := by
  have hscaled := (h.scaled hnear).1
  rw [(h.ends hnear hthr).1, Ctl.above, tdiv_ten, if_pos hscaled.1] at hup
  obtain ⟨hlo, _⟩ := hnear
  rcases h.calm.allow with hallow | ⟨_, hzero⟩
  · rw [hallow] at hup
    omega
  · omega

/-- The new direction: as it was, down while there is room, up or none. -/
theorem Ctl.Tuned.direct_cases {c : Ctl} (h : c.Tuned) (hnear : c.Near)
    (hthr : c.aeThreshold = c.target) {accY : Int} (hle : accY ≤ 255) :
    (c.move accY).flickerCurrentDirect = c.flickerCurrentDirect ∨
      (c.move accY).flickerCurrentDirect = -1 ∧ c.flickerTolerance ≤ 150 ∨
      (c.move accY).flickerCurrentDirect = 1 ∨ (c.move accY).flickerCurrentDirect = 0 := by
  rw [Ctl.move_direct]
  split
  · rename_i hup
    split
    · exact .inl rfl
    · exact .inr (.inl ⟨rfl, h.small_of_upper hnear hthr hle hup⟩)
  · split
    · exact .inr (.inr (.inl rfl))
    · exact .inr (.inr (.inr rfl))

theorem Ctl.Tuned.adjust_calm {c : Ctl} (h : c.Tuned) (hthr : c.aeThreshold = c.target) {accY : Int}
    (hle : accY ≤ 255) :
    (c.adjust accY).Calm := by
  have hmoved := c.move_moved accY
  rw [Ctl.adjust_eq]
  refine ⟨.inl ?_, rfl, fun hnear => ?_⟩
  · unfold Ctl.flicker
    dsimp only
    rw [hmoved.flickerAllowTolerance]
    rcases h.calm.allow with hallow | ⟨hallow, _⟩ <;> rw [hallow] <;> rfl
  · have hnear' : c.Near := by
      unfold Ctl.Near Ctl.target at hnear ⊢
      rwa [show (c.move accY).flicker.dev = c.dev from hmoved.dev] at hnear
    obtain ⟨hpos, hbound⟩ := h.calm.bound hnear'
    have hnext : int32 (c.flickerTolerance + 1) = c.flickerTolerance + 1 := by
      apply int32_eq <;> split at hbound <;> omega
    have hcases := h.direct_cases hnear' hthr hle
    unfold Ctl.flicker
    dsimp only
    rw [hmoved.flickerTolerance, hmoved.flickerLastDirect, h.calm.direct, hnext]
    split at hbound <;> rcases hcases with hd | ⟨hd, hroom⟩ | hd | hd <;> rw [hd] <;> repeat' split
    all_goals omega

/-! ## Jobs -/

theorem Ctl.Tuned.measuring {c : Ctl} (h : c.Tuned) : c.measuring.Tuned :=
  ⟨⟨h.inRange.max, h.inRange.pos, h.inRange.le⟩, h.hz, h.calm.allow, h.calm.direct, h.calm.bound⟩

theorem autoexposure_tuned {c : Ctl} (h : c.Tuned) (accY : Int) : (autoexposure c accY).1.Tuned := by
  have hmeasuring := h.measuring
  have hdev : (c.measuring.adjust accY).dev = c.dev := (c.measuring.move_moved accY).dev
  have hcalm : accY ≤ 255 → (c.measuring.adjust accY).Calm := fun hle => hmeasuring.adjust_calm rfl hle
  have hrange := (autoexposure_inRange h.inRange accY).1
  have hpassed := autoexposure_passed c accY
  generalize autoexposure c accY = r at hpassed hrange
  cases hpassed with
  | off => exact h
  | skipped => exact ⟨hrange, h.hz, h.calm.allow, h.calm.direct, h.calm.bound⟩
  | refused => exact hmeasuring
  | kept _ hvalid => exact ⟨hrange, hdev ▸ h.hz, hcalm hvalid.2⟩
  | set _ hvalid _ hr =>
      subst hr
      obtain ⟨hallow, hdirect, hbound⟩ := hcalm hvalid.2
      exact ⟨hrange, hdev ▸ h.hz, hallow, hdirect, hbound⟩

/-- Of what the exposure depends on, an ioctl sets the frequency and the level only. -/
theorem handle_break {d d' : Dev} {call : Call} (h : handle d call = .break d') :
    (d.Hz → d'.Hz) ∧ (call.cmd ≠ .VIDIOCSETEXPOSURELEVEL → d'.exposurelevel = d.exposurelevel) := by
  obtain ⟨cmd, arg, ans⟩ := call
  cases cmd
  case VIDIOCSETEXPOSURELEVEL =>
      cases h
      exact ⟨id, fun hne => absurd rfl hne⟩
  case VIDIOCSETFREQUENCY =>
      cases h
      refine ⟨fun _ => ?_, fun _ => rfl⟩
      unfold Dev.Hz
      dsimp only
      split
      · exact .inl rfl
      · split
        · exact .inr (.inl rfl)
        · exact .inr (.inr rfl)
  all_goals
    simp only [handle, Answers.from, Answers.to] at h
    repeat' split at h
    all_goals cases h
    all_goals exact ⟨id, fun _ => rfl⟩

theorem pwcIoctl_dev (d : Dev) (call : Call) :
    (d.Hz → (pwcIoctl d call).dev.Hz) ∧
      (call.cmd ≠ .VIDIOCSETEXPOSURELEVEL → (pwcIoctl d call).dev.exposurelevel = d.exposurelevel) := by
  unfold pwcIoctl
  split
  · exact handle_break ‹_›
  · exact ⟨id, fun _ => rfl⟩
  · exact ⟨id, fun _ => rfl⟩

theorem ioctl_tuned {c : Ctl} (h : c.Tuned) (call : Call) : (c.ioctl call).1.Tuned := by
  obtain ⟨hhz, hlevel⟩ := pwcIoctl_dev c.dev call
  have hrange := (ioctl_inRange h.inRange call).1
  have hcalm : call.cmd ≠ .VIDIOCSETEXPOSURELEVEL → Ctl.Calm { c with dev := (pwcIoctl c.dev call).dev } := by
    intro hne
    refine ⟨h.calm.allow, h.calm.direct, fun hnear => h.calm.bound ?_⟩
    unfold Ctl.Near Ctl.target at hnear ⊢
    rwa [hlevel hne] at hnear
  unfold Ctl.ioctl at hrange ⊢
  dsimp only at hrange ⊢
  split at hrange
  · rename_i hcmd
    obtain ⟨hallow, hdirect, hbound⟩ := hcalm (by rw [hcmd]; simp)
    exact ⟨hrange, hhz h.hz, hallow, hdirect, hbound⟩
  · rename_i hcmd
    obtain ⟨hallow, hdirect, hbound⟩ := hcalm (by rw [hcmd]; simp)
    exact ⟨hrange, hhz h.hz, hallow, hdirect, hbound⟩
  · exact ⟨hrange, hhz h.hz, .of_reset (.inr rfl) rfl rfl rfl⟩
  · rename_i hcmd
    exact ⟨hrange, hhz h.hz, hcalm hcmd⟩

/-- Every job keeps the controller tuned. -/
theorem perform_tuned {s : Control} (h : s.ctl.Tuned) (j : Job) : (s.perform j).1.ctl.Tuned := by
  cases j with
  | autoexposure accY => exact autoexposure_tuned h accY
  | autowhitebalance avg => exact h
  | ioctl call => exact ioctl_tuned h call
  | window =>
      exact ⟨(restoreExposure_inRange h.inRange.max).1, h.hz, h.calm.allow, h.calm.direct, h.calm.bound⟩

theorem started_tuned (d : Dev) : (Control.started d).ctl.Tuned :=
  ⟨(camInit_inRange (Ctl.loaded d)).1, .inr (.inr rfl), .of_reset (.inl rfl) rfl rfl rfl⟩

/-! ## Averages within the offsets -/

/-- The average is within the table's offsets of the target. -/
def Ctl.Within (c : Ctl) (accY : Int) : Prop :=
  c.target - getPrevOfst c.dev.frequency c.currentExposure ≤ accY ∧
    accY ≤ c.target + getNextOfst c.dev.frequency c.currentExposure

section Within

variable {c : Ctl} {accY : Int}

theorem Ctl.Tuned.near_of_within (h : c.Tuned) (hw : c.Within accY) (hvalid : 0 ≤ accY ∧ accY ≤ 255) :
    c.Near := by
  obtain ⟨hlo, hhi⟩ := hw
  unfold Ctl.Near
  rcases offsets_eq h.inRange h.hz with ⟨_, hprev, hnext⟩ | ⟨_, hprev, hnext⟩ <;>
    rw [hprev] at hlo <;> rw [hnext] at hhi <;> omega

/-- Such an average is never above the band. -/
theorem Ctl.Tuned.le_upper (h : c.Tuned) (hthr : c.aeThreshold = c.target) (hw : c.Within accY)
    (hvalid : 0 ≤ accY ∧ accY ≤ 255) : ¬accY > c.upper := by
  have hnear := h.near_of_within hw hvalid
  have hscaled := (h.scaled hnear).1
  obtain ⟨hpos, _⟩ := h.calm.bound hnear
  rw [(h.ends hnear hthr).1, Ctl.above, tdiv_ten, if_pos hscaled.1]
  obtain ⟨_, hhi⟩ := hw
  rcases h.calm.allow with hallow | ⟨hallow, _⟩ <;> rw [hallow] <;> omega

/-- And below it, it raises the exposure by one. -/
theorem Ctl.Tuned.up_exposure (h : c.Tuned) (hthr : c.aeThreshold = c.target) (hw : c.Within accY)
    (hvalid : 0 ≤ accY ∧ accY ≤ 255) :
    (c.up accY).currentExposure = if c.currentExposure = c.maxExposure then c.currentExposure
      else c.currentExposure + 1 := by
  obtain ⟨hlo, hhi⟩ := h.near_of_within hw hvalid
  have hprev : c.target - 10 ≤ accY := by
    have := hw.1
    rcases offsets_eq h.inRange h.hz with ⟨_, hprev, _⟩ | ⟨_, hprev, _⟩ <;> rw [hprev] at this <;> omega
  have hpos := h.inRange.pos
  have hle := h.inRange.le
  have hmax := h.inRange.max
  rw [maxExpo_eq] at hmax
  unfold Ctl.up
  dsimp only
  rw [hthr, int32_eq (x := accY + 50) (by omega) (by omega),
    int32_eq (x := c.target - 40) (by omega) (by omega),
    int32_eq (x := c.target - 30) (by omega) (by omega),
      int32_eq (x := c.currentExposure + 1) (by omega) (by omega),
    if_neg (show ¬accY + 50 < c.target by omega), if_neg (show ¬accY < c.target - 40 by omega),
    if_neg (show ¬accY < c.target - 30 by omega)]
  split <;> rfl

/-- So the exposure stays, or goes up by one. -/
theorem Ctl.Tuned.adjust_exposure (h : c.Tuned) (hthr : c.aeThreshold = c.target) (hw : c.Within accY)
    (hvalid : 0 ≤ accY ∧ accY ≤ 255) :
    (c.adjust accY).currentExposure = c.currentExposure ∧
        (c.currentExposure = c.maxExposure ∨ c.target - c.below c.flickerTolerance ≤ accY) ∨
      (c.adjust accY).currentExposure = c.currentExposure + 1 ∧ c.currentExposure ≠ c.maxExposure ∧
        accY < c.target - c.below c.flickerTolerance := by
  have hlower := (h.ends (h.near_of_within hw hvalid) hthr).2
  have hup := h.up_exposure hthr hw hvalid
  have hmove : c.move accY = if accY < c.target - c.below c.flickerTolerance then c.up accY else c.stay := by
    rw [Ctl.move, if_neg (h.le_upper hthr hw hvalid), hlower]
  rw [Ctl.adjust_eq, show (c.move accY).flicker.currentExposure =
    (c.move accY).currentExposure from rfl, hmove]
  split
  · rename_i hlt
    split at hup
    · rename_i hmax
      exact .inl ⟨hup, .inl hmax⟩
    · rename_i hmax
      exact .inr ⟨hup, hmax, hlt⟩
  · rename_i hge
    exact .inl ⟨rfl, .inr (not_lt.mp hge)⟩

end Within

/-! ## Exposures that are kept -/

/-- No average within the offsets of the target changes the exposure. `AEThreshold` is `target` in the
pass. -/
def Ctl.Keeps (c : Ctl) : Prop :=
  ∀ accY, c.Within accY → (autoexposure c accY).1.currentExposure = c.currentExposure

/-- The exposure is kept if the pass does not measure or cannot raise it, if no average can be within
the offsets, or if the band reaches down to the least one that is. -/
inductive Ctl.Tolerant (c : Ctl) : Prop where
  | idle (h : ¬c.Measures)
  | greatest (h : c.currentExposure = c.maxExposure)
  | high (h : 255 < c.target - getPrevOfst c.dev.frequency c.currentExposure)
  | low (h : c.target + getNextOfst c.dev.frequency c.currentExposure < 0)
  | wide (h : c.target - c.below c.flickerTolerance ≤
      max 0 (c.target - getPrevOfst c.dev.frequency c.currentExposure))

/-- What a pass makes of an average within the offsets. -/
theorem autoexposure_within {c : Ctl} (h : c.Tuned) {accY : Int} (hw : c.Within accY)
    (hvalid : 0 ≤ accY ∧ accY ≤ 255) :
    (autoexposure c accY).1.currentExposure = c.currentExposure ↔
      ¬c.Measures ∨ c.currentExposure = c.maxExposure ∨ c.target - c.below c.flickerTolerance ≤ accY := by
  have hadjust : (c.measuring.adjust accY).currentExposure = c.currentExposure ∧
        (c.currentExposure = c.maxExposure ∨ c.target - c.below c.flickerTolerance ≤ accY) ∨
      (c.measuring.adjust accY).currentExposure = c.currentExposure + 1 ∧ c.currentExposure ≠ c.maxExposure ∧
        accY < c.target - c.below c.flickerTolerance := h.measuring.adjust_exposure rfl hw hvalid
  have hmax : (c.measuring.adjust accY).maxExposure = c.maxExposure :=
    (c.measuring.move_moved accY).maxExposure
  have hpos := h.inRange.pos
  have hle := h.inRange.le
  have hpassed := autoexposure_passed c accY
  generalize autoexposure c accY = r at hpassed
  cases hpassed with
  | off hoff => exact iff_of_true rfl (.inl fun hmeasures => absurd hmeasures.1 (by rw [hoff]; decide))
  | skipped _ hdue => exact iff_of_true rfl (.inl fun hmeasures => hdue hmeasures.2)
  | refused _ hrefused => exact absurd hvalid hrefused
  | kept _ _ hsame =>
      rcases hadjust with ⟨_, hkeep⟩ | ⟨hnext, _⟩
      · exact iff_of_true hsame (.inr hkeep)
      · omega
  | set hmeasures _ hmoved hr =>
      rcases hadjust with ⟨hsame, _⟩ | ⟨hnext, hne, hlt⟩
      · exact absurd hsame hmoved
      · refine iff_of_false ?_ ?_
        · subst hr
          simp only [fpsControl, checkRangeExposure, hmax, hnext]
          omega
        · rintro (hno | heq | hge)
          · exact hno hmeasures
          · exact hne heq
          · omega

/-- A larger tolerance makes the band smaller at its lower end. -/
theorem below_lt {c : Ctl} (h : c.Calm) {t t' : Int} (hlt : t < t') : c.below t' < c.below t := by
  unfold Ctl.below
  rw [tdiv_ten, tdiv_ten]
  rcases h.allow with hallow | ⟨hallow, _⟩ <;> rw [hallow] <;> split <;> split <;> omega

theorem Ctl.Tuned.keeps_iff {c : Ctl} (h : c.Tuned) : c.Keeps ↔ c.Tolerant := by
  constructor
  · intro hkeeps
    by_cases hlow : c.target + getNextOfst c.dev.frequency c.currentExposure < 0
    · exact .low hlow
    by_cases hhigh : 255 < c.target - getPrevOfst c.dev.frequency c.currentExposure
    · exact .high hhigh
    -- the least average within the offsets
    have hw : c.Within (max 0 (c.target - getPrevOfst c.dev.frequency c.currentExposure)) :=
      ⟨by omega, by omega⟩
    rcases (autoexposure_within h hw ⟨by omega, by omega⟩).mp (hkeeps _ hw) with hno | hmax | hwide
    · exact .idle hno
    · exact .greatest hmax
    · exact .wide hwide
  · intro htolerant accY hw
    by_cases hvalid : 0 ≤ accY ∧ accY ≤ 255
    · refine (autoexposure_within h hw hvalid).mpr ?_
      obtain ⟨hlo, hhi⟩ := hw
      cases htolerant with
      | idle hno => exact .inl hno
      | greatest hmax => exact .inr (.inl hmax)
      | high hhigh => omega
      | low hlow => omega
      | wide hwide => exact .inr (.inr (by omega))
    · have hpassed := autoexposure_passed c accY
      generalize autoexposure c accY = r at hpassed
      cases hpassed with
      | off => rfl
      | skipped => rfl
      | refused => rfl
      | kept _ h' => exact absurd h' hvalid
      | set _ h' => exact absurd h' hvalid

end CameraFw.Pwc
