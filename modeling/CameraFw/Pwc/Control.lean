import CameraFw.Pwc.WhiteBalance

/-!
# The control of the picture, one job after the other

What is done under the semaphore `sem` of the driver: the passes of automatic exposure and white
balance, and the ioctls. The part of `VIDIOCSWIN` that sets the exposure again is a job of its own.
-/

namespace CameraFw.Pwc

structure Control where
  ctl : Ctl
  balance : Balance
  deriving DecidableEq, Repr

inductive Job where
  | autoexposure (accY : Int)
  | autowhitebalance (avg : Rgb)
  | ioctl (call : Call)
  | window
  deriving DecidableEq, Repr

/-- A job, with the operations it makes. -/
def Control.perform (s : Control) : Job → Control × List Op
  | .autoexposure accY =>
      let (c, ops) := autoexposure s.ctl accY
      ({ s with ctl := c }, ops)
  | .autowhitebalance avg =>
      let (w, ops) := autowhitebalance s.ctl s.balance avg
      ({ s with balance := w }, ops)
  | .ioctl call =>
      let (c, ops) := s.ctl.ioctl call
      (⟨c, s.balance.ioctl s.ctl.dev call⟩, ops)
  | .window =>
      let (c, ops) := restoreExposure s.ctl
      ({ s with ctl := c }, ops)

def Control.step (s : Control) (j : Job) : Option Control := some (s.perform j).1

/-- After `topro_cam_init`, which is the first to use the variables. -/
def Control.started (d : Dev) : Control :=
  ⟨(camInit (Ctl.loaded d)).1, { Balance.loaded with autoWhiteBalance := true }⟩

end CameraFw.Pwc
