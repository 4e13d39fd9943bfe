import CameraFw.Pwc.Lemmas.Iris
import CameraFw.Pwc.Theorems

/-!
# What the iris thread passes to the DAC

All values are in range but those of one kind of round: it closes an iris that was just opened fully,
and its average is low but has risen so fast that nothing is calculated, so that 6 is subtracted from
the 4 that the opening has left in the second register.
-/

namespace CameraFw.Pwc

open CameraFw.Base

/-- Over a whole run, all values are in range exactly if every turn is harmless; and a value in range is
what the DAC writer has in its byte. -/
theorem dac_inRange_iff (d : Dev) (accY : Int) (ts : List Turn) :
    (Along Thread.step (fun s t => AllInDac (s.perform t).2) (Thread.started d accY) ts ↔
      Along Thread.step Thread.Harmless (Thread.started d accY) ts) ∧ ∀ x, InDac x → (byte x : Int) = x := by
  refine ⟨?_, fun x => byte_of_inDac⟩
  refine along_iff (I := fun s => s.iris.Sound) (fun s t h => (perform_sound h t).1)
    (fun s t s' h hall hs => ?_) (started_sound d accY)
  cases hs
  exact (perform_sound h t).2 ((perform_sound h t).1.mp hall)

def grey : Rgb := ⟨128, 128, 128⟩

/-- Four dark rounds, at the end of which the iris is opened, and bright passes until the exposure is 1.
In all of them the average after the opening is 10. -/
def lightning : List Turn :=
  List.replicate 4 (.round 90 grey fun _ => 10) ++ List.replicate 95 (.round 210 grey fun _ => 10)

/-- Then an average of 70 leads to the value −2, which is 254 in the byte of the DAC writer. -/
theorem lightning_wraps :
    (run Thread.step (Thread.started idle 10) lightning).map
        (fun s => (s.perform (.round 210 grey fun _ => 70)).2.take 2) = some [.register 0, .register (-2)] ∧
      byte (-2) = 254 := by
  decide +kernel

end CameraFw.Pwc
