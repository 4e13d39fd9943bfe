import CameraFw.Pwc.Lemmas.Flicker
import CameraFw.Pwc.Theorems

/-!
# Automatic exposure over whole runs

The exposure and all reads of the tables stay in range. The band of averages that change nothing does
not always contain those within the table's offsets, since the flicker tolerance enters its lower end
with the wrong sign.
-/

namespace CameraFw.Pwc

open CameraFw.Base

/-- Whatever jobs are done one after the other, all reads of the tables, those of the initialisation
included, are at rows from 0 to the greatest exposure, and between the jobs the exposure is from 1 to
the greatest one. -/
theorem exposure_inRange (d : Dev) (js : List Job) :
    Reads (fun i => 0 ≤ i ∧ i ≤ (Control.started d).ctl.maxExposure) (camInit (Ctl.loaded d)).2 ∧
      Along Control.step (fun s j => Reads (fun i => 0 ≤ i ∧ i ≤ s.ctl.maxExposure) (s.perform j).2)
        (Control.started d) js ∧
      Always Control.step (fun s => 1 ≤ s.ctl.currentExposure ∧ s.ctl.currentExposure ≤ s.ctl.maxExposure)
        (Control.started d) js := by
  obtain ⟨hstarted, hreads⟩ := camInit_inRange (Ctl.loaded d)
  have halways : Always Control.step (fun s => s.ctl.InRange) (Control.started d) js := by
    refine always_of_step (fun s j t hs ht => ?_) js (Control.started d) hstarted
    cases ht
    exact (perform_inRange hs j).1
  refine ⟨fun i hi => hstarted.max ▸ hreads i hi, halways.along fun s j hs i hi => ?_,
    halways.imp fun s hs => ⟨hs.pos, hs.le⟩⟩
  rw [hs.max]
  exact (perform_inRange hs j).2 i hi

/-! ## The band around the target -/

/-- At the tolerance `t` the band is not smaller at either end. -/
def Ctl.Covers (c : Ctl) (t : Int) : Prop :=
  c.below c.flickerTolerance ≤ c.below t ∧ c.above c.flickerTolerance ≤ c.above t

/-- In every state that the jobs reach, averages within the offsets keep the exposure exactly if the
controller is `Tolerant`, and of all larger tolerances none leaves the band as wide. -/
theorem exposure_band_iff (d : Dev) (js : List Job) :
    Always Control.step (fun s => (s.ctl.Keeps ↔ s.ctl.Tolerant) ∧
      ∀ t, s.ctl.flickerTolerance ≤ t → (s.ctl.Covers t ↔ t = s.ctl.flickerTolerance))
        (Control.started d) js := by
  have htuned : Always Control.step (fun s => s.ctl.Tuned) (Control.started d) js := by
    refine always_of_step (fun s j t hs ht => ?_) js (Control.started d) (started_tuned d)
    cases ht
    exact perform_tuned hs j
  refine htuned.imp fun s hs => ⟨hs.keeps_iff, fun t hle => ⟨fun hcovers => ?_, fun heq => ?_⟩⟩
  · by_contra hne
    exact absurd hcovers.1 (not_le.mpr (below_lt hs.calm (lt_of_le_of_ne hle (Ne.symm hne))))
  · rw [heq]
    exact ⟨Int.le_refl _, Int.le_refl _⟩

/-- For a pass that measures and could raise the exposure, at 50 or 60 Hz and with a target that
averages can come near to, this is a tolerance of at most 4. -/
theorem keeps_iff_tolerance_le {c : Ctl} (h : c.Tuned) (hm : c.Measures)
    (hne : c.currentExposure ≠ c.maxExposure) (hz : c.dev.frequency ≠ 0)
    (hallow : c.flickerAllowTolerance = 18) (htarget : 10 ≤ c.target ∧ c.target ≤ 255) :
    c.Keeps ↔ c.flickerTolerance ≤ 4 := by
  obtain ⟨hprev, hnext⟩ : getPrevOfst c.dev.frequency c.currentExposure = 10 ∧
      getNextOfst c.dev.frequency c.currentExposure = 16 :=
    (offsets_eq h.inRange h.hz).elim (fun h0 => absurd h0.1 hz) And.right
  have hbelow : c.below c.flickerTolerance = ((10 - c.flickerTolerance) * 18).tdiv 10 := by
    rw [Ctl.below, hprev, hallow]
    rfl
  rw [tdiv_ten] at hbelow
  rw [h.keeps_iff]
  constructor
  · intro htolerant
    cases htolerant with
    | idle hno => exact absurd hm hno
    | greatest heq => exact absurd heq hne
    | high hhigh => rw [hprev] at hhigh; omega
    | low hlow => rw [hnext] at hlow; omega
    | wide hwide =>
        rw [hprev] at hwide
        split at hbelow <;> omega
  · intro hle
    refine .wide ?_
    rw [hprev]
    split at hbelow <;> omega

/-- Averages that change the direction five times, and three passes that do not measure. -/
def flickering : List Job :=
  [90, 155, 90, 160, 90].flatMap (fun accY => List.replicate 4 (.autoexposure accY)) ++
    List.replicate 3 (.autoexposure 110)

/-- Then 110, which is within 10 of the target, raises the exposure; with a tolerance of 0 it would not. -/
theorem flickering_moves :
    (run Control.step (Control.started idle) flickering).map
        (fun s => (s.ctl.flickerTolerance, s.ctl.target,
          getPrevOfst s.ctl.dev.frequency s.ctl.currentExposure)) =
      some (5, 120, 10) ∧
    (run Control.step (Control.started idle) flickering).map
        (fun s => (s.ctl.currentExposure, (autoexposure s.ctl 110).1.currentExposure,
          (autoexposure { s.ctl with flickerTolerance := 0 } 110).1.currentExposure)) =
            some (69, 70, 69) := by
  decide +kernel

end CameraFw.Pwc
