import CameraFw.Pwc.Control
import Mathlib.Logic.Function.Basic

/-!
# Who runs the passes

The iris thread runs automatic exposure and white balance under the semaphore `sem`, `pwc_handle_frame`
of `pwc-if.c` runs them for every frame that is read, without it. Both sleep in each transfer to the
camera. What a context does between two sleeps is one step here; transfers with nothing else between
them count as one.
-/

namespace CameraFw.Pwc

/-! ## Passes in parts -/

/-- The transfers that the passes and the setting of an exposure sleep in, with the local variables that
are used afterwards. -/
inductive Stage where
  -- `GetBulkInAvgY`, with automatic exposure off
  | averageOff
  | average
  -- the register writes of `topro_fps_control`; the exposure is set after them
  | frameRate (expoIs : Int)
  -- the writes of `topro_setexposure` up to the exposure time
  | exposureTime (expo : Int)
  | exposureGain
  -- `GetBulkAvgRGB`
  | averageRgb
  | gains
  deriving DecidableEq, Repr

/-- What a transfer brings. -/
structure Reading where
  accY : Int
  avg : Rgb
  deriving DecidableEq, Repr

/-- A part of a function: the variables it leaves, what it does, and where it sleeps then, if it does
not return. -/
structure Part where
  control : Control
  ops : List Op
  next : Option Stage
  deriving DecidableEq, Repr

def Part.after (p : Part) (ops : List Op) : Part := { p with ops := ops ++ p.ops }

/-- `topro_setexposure`. -/
def startSetexposure (s : Control) (expo : Int) : Part :=
  let expo := checkRangeExposure 1 s.ctl.maxExposure expo
  ⟨s, exposureTime s.ctl expo, if s.ctl.dev.frequency = 0 then none else some (.exposureTime expo)⟩

/-- The end of `topro_fps_control`, and the call of `topro_setexposure` behind it. -/
def setCurrent (s : Control) (expoIs : Int) : Part :=
  startSetexposure { s with ctl := { s.ctl with currentExposure := expoIs } } expoIs

/-- `topro_fps_control`. -/
def startFps (s : Control) (expoWas expoIs : Int) : Part :=
  let f := s.ctl.dev.frequency
  let expoIs := checkRangeExposure 1 s.ctl.maxExposure expoIs
  let looks := look f expoWas ++ look f expoIs
  if getFrameRate f expoWas = getFrameRate f expoIs then (setCurrent s expoIs).after looks
  else ⟨s, looks ++ fpsWrites (getFrameRate f expoWas) (getFrameRate f expoIs), some (.frameRate expoIs)⟩

/-- `topro_autoexposure` up to its first transfer. -/
def startExposure (s : Control) : Part :=
  if s.ctl.dev.autoExposure = false then ⟨s, [.getBulkInAvgY], some .averageOff⟩
  else
    let c := s.ctl.begin
    if ¬c.Due then ⟨{ s with ctl := c }, [], none⟩
    else ⟨{ s with ctl := c.clearExtra }, [.getBulkInAvgY], some .average⟩

/-- `topro_autowhitebalance` up to its first transfer. -/
def startBalance (s : Control) : Part :=
  if s.balance.autoWhiteBalance = false then ⟨s, [], none⟩
  else
    let w := s.balance.begin
    if ¬w.Due then ⟨{ s with balance := w }, [], none⟩
    else ⟨{ s with balance := w }, [.getBulkAvgRGB], some .averageRgb⟩

/-- From the end of a transfer to the next one. -/
def resume (s : Control) (r : Reading) : Stage → Part
  | .averageOff => ⟨s, [], none⟩
  | .average =>
      if r.accY > 255 ∨ r.accY < 0 then ⟨s, [], none⟩
      else
        let moved := s.ctl.adjust r.accY
        if s.ctl.currentExposure = moved.currentExposure then
          ⟨{ s with ctl := moved }, lookOffsets s.ctl, none⟩
        else (startFps { s with ctl := moved } s.ctl.currentExposure moved.currentExposure).after
          (lookOffsets s.ctl)
  | .frameRate expoIs => setCurrent s expoIs
  | .exposureTime expo => ⟨s, exposureGain s.ctl expo, some .exposureGain⟩
  | .exposureGain => ⟨s, [], none⟩
  | .averageRgb =>
      let w := s.balance.update r.avg
      ⟨{ s with balance := w }, gainWrites s.ctl w, some .gains⟩
  | .gains => ⟨s, [], none⟩

/-- At most `n` transfers that nobody disturbs. -/
def Part.finish (r : Reading) : Nat → Part → Part
  | 0, p => p
  | n + 1, p =>
      match p.next with
      | none => p
      | some stage => Part.finish r n ((resume p.control r stage).after p.ops)

/-! ## Contexts -/

/-- The iris thread, calls of `pwc_ioctl`, of `VIDIOCSWIN`, and reads. -/
inductive Context where
  | iris
  | ioctl (n : Nat)
  | window (n : Nat)
  | read (n : Nat)
  deriving DecidableEq, Repr

/-- Where a context sleeps. -/
inductive Pos where
  | exposure (stage : Stage)
  | balance (stage : Stage)
  -- the iris thread behind its two passes
  | iris
  -- an ioctl that sets the exposure
  | setting (stage : Stage)
  deriving DecidableEq, Repr

structure World where
  control : Control
  -- whether the semaphore can be had
  free : Bool
  pos : Context → Option Pos

inductive Switch where
  -- the thread begins a round
  | iris
  | ioctl (n : Nat) (call : Call)
  | window (n : Nat)
  -- a frame is handled
  | read (n : Nat)
  -- the transfer that the context sleeps in is over
  | resume (c : Context) (r : Reading)
  deriving DecidableEq, Repr

def Switch.context : Switch → Context
  | .iris => .iris
  | .ioctl n _ => .ioctl n
  | .window n => .window n
  | .read n => .read n
  | .resume c _ => c

def World.move (w : World) (c : Context) (p : Option Pos) : World :=
  { w with pos := Function.update w.pos c p }

/-- A context runs a part of a function; it goes to sleep there, or goes on with `k`. -/
def World.runPart (w : World) (c : Context) (at' : Stage → Pos) (p : Part)
    (k : World → World × List Op) : World × List Op :=
  let w := { w with control := p.control }
  match p.next with
  | some stage => (w.move c (some (at' stage)), p.ops)
  | none =>
      let (w, ops) := k w
      (w, p.ops ++ ops)

def World.leave (c : Context) (w : World) : World × List Op := (w.move c none, [])

/-- Behind the passes of the iris thread. -/
def World.irisRest (w : World) : World × List Op := (w.move .iris (some .iris), [])

def World.irisBalance (w : World) : World × List Op :=
  w.runPart .iris .balance (startBalance w.control) World.irisRest

def World.readExposure (n : Nat) (w : World) : World × List Op :=
  w.runPart (.read n) .exposure (startExposure w.control) (World.leave (.read n))

/-- `up(&sem)` at the end of an ioctl that sets the exposure. -/
def World.ioctlDone (n : Nat) (w : World) : World × List Op :=
  ({ w with free := true }.move (.ioctl n) none, [])

/-- A call under the semaphore. Only those that set the exposure are cut into parts. -/
def World.ioctl (w : World) (n : Nat) (call : Call) : World × List Op :=
  match call.cmd with
  | .VIDIOCSETEXPOSURE | .VIDIOCSETEXPOSURE_EX =>
      let s := { w.control with ctl := { w.control.ctl with dev := (pwcIoctl w.control.ctl.dev call).dev } }
      { w with free := false }.runPart (.ioctl n) .setting
        (startFps s s.ctl.currentExposure call.arg.toInt) (World.ioctlDone n)
  | _ =>
      let (s, ops) := w.control.perform (.ioctl call)
      ({ w with control := s, free := (pwcIoctl w.control.ctl.dev call).ups = 1 }, ops)

/-- A context goes on where it sleeps. -/
def World.resumeAt (w : World) (r : Reading) : Context → Pos → World × List Op
  | .iris, .exposure stage => w.runPart .iris .exposure (resume w.control r stage) World.irisBalance
  | .iris, .balance stage => w.runPart .iris .balance (resume w.control r stage) World.irisRest
  | .read n, .balance stage => w.runPart (.read n) .balance (resume w.control r stage) (World.readExposure n)
  | .read n, .exposure stage =>
      w.runPart (.read n) .exposure (resume w.control r stage) (World.leave (.read n))
  | .ioctl n, .setting stage => w.runPart (.ioctl n) .setting (resume w.control r stage) (World.ioctlDone n)
  | .window n, .setting stage =>
      w.runPart (.window n) .setting (resume w.control r stage) (World.leave (.window n))
  -- the end of a round
  | .iris, .iris => ({ w with free := true }.move .iris none, [])
  | _, _ => (w, [])

/-- One step; `none` where the semaphore is taken, the context is busy, or it does not sleep. -/
def World.go (w : World) : Switch → Option (World × List Op)
  | .iris =>
      if w.free = true ∧ w.pos .iris = none then
        some ({ w with free := false }.runPart .iris .exposure (startExposure w.control) World.irisBalance)
      else none
  | .ioctl n call => if w.free = true ∧ w.pos (.ioctl n) = none then some (w.ioctl n call) else none
  | .window n =>
      if w.pos (.window n) = none then
        some (w.runPart (.window n) .setting (startFps w.control 0 w.control.ctl.currentExposure)
          (World.leave (.window n)))
      else none
  | .read n =>
      if w.pos (.read n) = none then
        some (w.runPart (.read n) .balance (startBalance w.control) (World.readExposure n))
      else none
  | .resume c r => (w.pos c).map (w.resumeAt r c)

def World.step (w : World) (e : Switch) : Option World := (w.go e).map Prod.fst

/-- After `topro_cam_init`, which starts the thread. -/
def World.started (d : Dev) : World := ⟨Control.started d, true, fun _ => none⟩

end CameraFw.Pwc
