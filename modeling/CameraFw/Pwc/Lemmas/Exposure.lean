import CameraFw.Pwc.Control

/-!
# Range of the exposure

Every function that sets the exposure clamps it; automatic exposure moves it further, and reads the
tables at the exposure it had before.
-/

namespace CameraFw.Pwc

open CameraFw.Base

/-! ## Reads of the tables -/

/-- All reads of the tables among these operations meet `P`. -/
def Reads (P : Int → Prop) (ops : List Op) : Prop := ∀ i, Op.look i ∈ ops → P i

section Reads

variable {P : Int → Prop}

@[simp]
theorem reads_nil : Reads P [] := fun _ h => by cases h

@[simp]
theorem reads_append {a b : List Op} : Reads P (a ++ b) ↔ Reads P a ∧ Reads P b := by
  simp only [Reads, List.mem_append]
  exact ⟨fun h => ⟨fun i hi => h i (.inl hi), fun i hi => h i (.inr hi)⟩,
    fun h i hi => hi.elim (h.1 i) (h.2 i)⟩

theorem reads_cons {o : Op} {ops : List Op} (ho : ∀ i, o ≠ .look i) : Reads P (o :: ops) ↔ Reads P ops := by
  simp only [Reads, List.mem_cons]
  exact ⟨fun h i hi => h i (.inr hi), fun h i hi => hi.elim (fun heq => absurd heq.symm (ho i)) (h i)⟩

theorem reads_look {f e : Int} (h : P e) : Reads P (look f e) := by
  intro i hi
  unfold look at hi
  split at hi
  · cases List.mem_singleton.mp hi
    exact h
  · cases hi

theorem reads_fpsWrites {was is : Nat} : Reads P (fpsWrites was is) := by
  unfold fpsWrites
  split
  · cases mclkSel is <;> simp [Reads]
  · exact reads_nil

theorem reads_exposureTime {c : Ctl} {e : Int} (h : P e) : Reads P (exposureTime c e) := by
  refine reads_append.mpr ⟨reads_look h, ?_⟩
  split <;> simp [Reads]

theorem reads_exposureGain {c : Ctl} {e : Int} (h : P e) : Reads P (exposureGain c e) :=
  reads_append.mpr ⟨reads_look h, by simp [Reads]⟩

theorem reads_setexposure {c : Ctl} {e : Int} (h : P (checkRangeExposure 1 c.maxExposure e)) :
    Reads P (setexposure c e) := by
  refine reads_append.mpr ⟨reads_exposureTime h, ?_⟩
  split
  · exact reads_nil
  · exact reads_exposureGain h

theorem reads_fpsControl {c : Ctl} {was is : Int} (hwas : P was)
    (his : P (checkRangeExposure 1 c.maxExposure is)) :
    Reads P (fpsControl c was is).2 :=
  reads_append.mpr ⟨reads_append.mpr ⟨reads_look hwas, reads_look his⟩, reads_fpsWrites⟩

theorem reads_gainWrites {c : Ctl} {w : Balance} (h : P c.currentExposure) : Reads P (gainWrites c w) := by
  have hlook : Reads P (look c.dev.frequency c.currentExposure) := reads_look h
  simp only [gainWrites, reads_append, hlook, true_and]
  simp [Reads]

end Reads

/-! ## The range -/

/-- The greatest exposure is the last row of both tables, and the exposure is a row but the first. -/
structure Ctl.InRange (c : Ctl) : Prop where
  max : c.maxExposure = TI_MAX_EXPO_60
  pos : 1 ≤ c.currentExposure
  le : c.currentExposure ≤ c.maxExposure

/-- An index of both tables. -/
def IsRow (i : Int) : Prop := 0 ≤ i ∧ i ≤ TI_MAX_EXPO_60

theorem Ctl.InRange.row {c : Ctl} (h : c.InRange) : IsRow c.currentExposure :=
  ⟨Int.le_trans (by decide) h.pos, h.max ▸ h.le⟩

theorem maxExpo_eq : TI_MAX_EXPO_60 = 137 := by decide +kernel

theorem checkRange_bounds {dMax : Int} (h : dMax = TI_MAX_EXPO_60) (e : Int) :
    1 ≤ checkRangeExposure 1 dMax e ∧ checkRangeExposure 1 dMax e ≤ dMax := by
  rw [maxExpo_eq] at h
  unfold checkRangeExposure
  omega

theorem checkRange_row {dMax : Int} (h : dMax = TI_MAX_EXPO_60) (e : Int) :
    IsRow (checkRangeExposure 1 dMax e) :=
  ⟨Int.le_trans (by decide) (checkRange_bounds h e).1, h ▸ (checkRange_bounds h e).2⟩

/-- Whatever the exposure was, `topro_fps_control` leaves it in range. -/
theorem fpsControl_inRange {c : Ctl} (h : c.maxExposure = TI_MAX_EXPO_60) (was is : Int) :
    (fpsControl c was is).1.InRange :=
  ⟨h, (checkRange_bounds h is).1, (checkRange_bounds h is).2⟩

/-- The two calls that set an exposure; they are always made together. -/
theorem reads_fpsControl_setexposure {c : Ctl} (h : c.maxExposure = TI_MAX_EXPO_60) {was : Int}
    (hwas : IsRow was) (is e : Int) :
    Reads IsRow ((fpsControl c was is).2 ++ setexposure (fpsControl c was is).1 e) :=
  reads_append.mpr ⟨reads_fpsControl hwas (checkRange_row h is), reads_setexposure (checkRange_row h e)⟩

/-! ## What a measured average changes -/

/-- Only the exposure, the extra passes, the indicator for the iris and the direction differ. -/
structure Ctl.Moved (c d : Ctl) : Prop where
  dev : d.dev = c.dev
  maxExposure : d.maxExposure = c.maxExposure
  aeThreshold : d.aeThreshold = c.aeThreshold
  frameSkipCount : d.frameSkipCount = c.frameSkipCount
  flickerTolerance : d.flickerTolerance = c.flickerTolerance
  flickerLastDirect : d.flickerLastDirect = c.flickerLastDirect
  flickerAllowTolerance : d.flickerAllowTolerance = c.flickerAllowTolerance

theorem Ctl.down_moved (c : Ctl) (accY : Int) : c.Moved (c.down accY) := by
  unfold Ctl.down Ctl.jump
  dsimp only
  repeat' split
  all_goals exact ⟨rfl, rfl, rfl, rfl, rfl, rfl, rfl⟩

theorem Ctl.up_moved (c : Ctl) (accY : Int) : c.Moved (c.up accY) := by
  unfold Ctl.up Ctl.jump
  dsimp only
  repeat' split
  all_goals exact ⟨rfl, rfl, rfl, rfl, rfl, rfl, rfl⟩

theorem Ctl.stay_moved (c : Ctl) : c.Moved c.stay := ⟨rfl, rfl, rfl, rfl, rfl, rfl, rfl⟩

/-- The controller as it is before the flicker tolerance is counted. -/
def Ctl.move (c : Ctl) (accY : Int) : Ctl :=
  if accY > c.upper then c.down accY else if accY < c.lower then c.up accY else c.stay

theorem Ctl.adjust_eq (c : Ctl) (accY : Int) : c.adjust accY = (c.move accY).flicker := rfl

theorem Ctl.move_moved (c : Ctl) (accY : Int) : c.Moved (c.move accY) := by
  unfold Ctl.move
  split
  · exact c.down_moved accY
  · split
    · exact c.up_moved accY
    · exact c.stay_moved

/-! ## A pass -/

/-- A pass that measures. -/
def Ctl.Measures (c : Ctl) : Prop := c.dev.autoExposure = true ∧ c.begin.Due

/-- The controller that the average is measured for. -/
def Ctl.measuring (c : Ctl) : Ctl := c.begin.clearExtra

/-- All that a pass can come to. -/
inductive Ctl.Passed (c : Ctl) (accY : Int) : Ctl × List Op → Prop where
  | off (h : c.dev.autoExposure = false) : c.Passed accY (c, [.getBulkInAvgY])
  | skipped (hon : c.dev.autoExposure = true) (h : ¬c.begin.Due) : c.Passed accY (c.begin, [])
  | refused (hm : c.Measures) (h : ¬(0 ≤ accY ∧ accY ≤ 255)) : c.Passed accY (c.measuring, [.getBulkInAvgY])
  | kept (hm : c.Measures) (h : 0 ≤ accY ∧ accY ≤ 255)
      (hsame : (c.measuring.adjust accY).currentExposure = c.currentExposure) :
      c.Passed accY (c.measuring.adjust accY, .getBulkInAvgY :: lookOffsets c.measuring)
  | set (hm : c.Measures) (h : 0 ≤ accY ∧ accY ≤ 255)
      (hmoved : (c.measuring.adjust accY).currentExposure ≠ c.currentExposure) {r : Ctl × List Op}
      (hr : r = fpsControl (c.measuring.adjust accY) c.currentExposure
        (c.measuring.adjust accY).currentExposure) :
      c.Passed accY (r.1, .getBulkInAvgY :: lookOffsets c.measuring ++ r.2 ++
        setexposure r.1 r.1.currentExposure)

theorem autoexposure_passed (c : Ctl) (accY : Int) : c.Passed accY (autoexposure c accY) := by
  unfold autoexposure
  dsimp only
  split
  · exact .off ‹_›
  · rename_i hoff
    have hon : c.dev.autoExposure = true := by simpa using hoff
    split
    · exact .skipped hon ‹_›
    · rename_i hdue
      have hm : c.Measures := ⟨hon, not_not.mp hdue⟩
      split
      · exact .refused hm (by omega)
      · split
        · rename_i hsame
          exact .kept hm (by omega) hsame.symm
        · rename_i hmoved
          exact .set hm (by omega) (fun heq => hmoved heq.symm) rfl

theorem autoexposure_inRange {c : Ctl} (h : c.InRange) (accY : Int) :
    (autoexposure c accY).1.InRange ∧ Reads IsRow (autoexposure c accY).2 := by
  have hmax : (c.measuring.adjust accY).maxExposure = TI_MAX_EXPO_60 :=
    (c.measuring.move_moved accY).maxExposure.trans h.max
  have hlook : ∀ f, Reads IsRow (look f c.currentExposure) := fun f => reads_look h.row
  have hoffsets : Reads IsRow (lookOffsets c.measuring) := reads_append.mpr ⟨hlook _, hlook _⟩
  have hnone : Reads IsRow [.getBulkInAvgY] := by simp [Reads]
  have hpassed := autoexposure_passed c accY
  generalize autoexposure c accY = r at hpassed
  cases hpassed with
  | off => exact ⟨h, hnone⟩
  | skipped => exact ⟨⟨h.max, h.pos, h.le⟩, reads_nil⟩
  | refused => exact ⟨⟨h.max, h.pos, h.le⟩, hnone⟩
  | kept _ _ hsame =>
      refine ⟨⟨hmax, hsame ▸ h.pos, ?_⟩, (reads_cons (by simp)).mpr hoffsets⟩
      rw [hsame, hmax, ← h.max]
      exact h.le
  | set _ _ _ hr =>
      subst hr
      refine ⟨fpsControl_inRange hmax c.currentExposure _, ?_⟩
      rw [List.append_assoc, List.cons_append, reads_cons (by simp), reads_append]
      exact ⟨hoffsets, reads_fpsControl_setexposure hmax h.row _ _⟩

/-! ## Jobs -/

theorem autowhitebalance_reads {c : Ctl} (h : c.InRange) (w : Balance) (avg : Rgb) :
    Reads IsRow (autowhitebalance c w avg).2 := by
  unfold autowhitebalance
  dsimp only
  split
  · exact reads_nil
  · split
    · exact reads_nil
    · exact (reads_cons (by simp)).mpr (reads_gainWrites h.row)

theorem restoreExposure_inRange {c : Ctl} (h : c.maxExposure = TI_MAX_EXPO_60) :
    (restoreExposure c).1.InRange ∧ Reads IsRow (restoreExposure c).2 := by
  have hzero : IsRow 0 := by rw [IsRow, maxExpo_eq]; decide
  exact ⟨fpsControl_inRange h 0 c.currentExposure, reads_fpsControl_setexposure h hzero _ _⟩

theorem camInit_inRange (c : Ctl) : (camInit c).1.InRange ∧ Reads IsRow (camInit c).2 :=
  restoreExposure_inRange rfl

theorem ioctl_inRange {c : Ctl} (h : c.InRange) (call : Call) :
    (c.ioctl call).1.InRange ∧ Reads IsRow (c.ioctl call).2 := by
  have hset := fpsControl_inRange
    (c := { c with dev := (pwcIoctl c.dev call).dev }) h.max c.currentExposure call.arg.toInt
  have hreads := reads_fpsControl_setexposure
    (c := { c with dev := (pwcIoctl c.dev call).dev }) h.max h.row call.arg.toInt call.arg.toInt
  unfold Ctl.ioctl
  dsimp only
  split
  · exact ⟨hset, hreads⟩
  · exact ⟨hset, hreads⟩
  · exact ⟨⟨h.max, h.pos, h.le⟩, reads_nil⟩
  · exact ⟨⟨h.max, h.pos, h.le⟩, reads_nil⟩

/-- Every job keeps the exposure in range and reads rows of the tables only. -/
theorem perform_inRange {s : Control} (h : s.ctl.InRange) (j : Job) :
    (s.perform j).1.ctl.InRange ∧ Reads IsRow (s.perform j).2 := by
  cases j with
  | autoexposure accY => exact autoexposure_inRange h accY
  | autowhitebalance avg => exact ⟨h, autowhitebalance_reads h s.balance avg⟩
  | ioctl call => exact ioctl_inRange h call
  | window => exact restoreExposure_inRange h.max

end CameraFw.Pwc
