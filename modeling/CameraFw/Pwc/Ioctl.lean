import CameraFw.Base.Loop

/-!
# The ioctls of the camera driver

`pwc_ioctl` of `pwc-ctrl.c`, and the semaphore it shares with the iris thread and `leave_thread`. What a
command does to the registers of the camera is left out.
-/

namespace CameraFw.Pwc

open CameraFw.Base

def EFAULT : Int := 14
def EINVAL : Int := 22
def ENOIOCTLCMD : Int := 515

inductive Cmd where
  | VIDIOCPWCRUSER | VIDIOCPWCSUSER | VIDIOCPWCFACTORY | VIDIOCPWCSCQUAL | VIDIOCPWCGCQUAL | VIDIOCPWCSAGC
  | VIDIOCPWCGAGC | VIDIOCPWCSSHUTTER | VIDIOCPWCSAWB | VIDIOCPWCGAWB | VIDIOCPWCSLED | VIDIOCPWCGLED
  | VIDIOCWRITEREG | VIDIOCREADREG | VIDIOCSETGAMMAR | VIDIOCSETGAMMAG | VIDIOCSETGAMMAB
  | VIDIOCGETEXPOSURE_EX | VIDIOCSETEXPOSURE | VIDIOCSETEXPOSURE_EX | VIDIOCGETIRIS_MAX | VIDIOCGETIRIS_EX
  | VIDIOCSETIRIS_EX
  | VIDIOCOPENIRIS | VIDIOCCLOSEIRIS | VIDIOCIRISDIAGNOSIS | VIDIOCGETEXPOSURELEVEL | VIDIOCSETEXPOSURELEVEL
  | VIDIOCGETMOTION | VIDIOCSETMOTION | VIDIOCGETFREQUENCY | VIDIOCSETFREQUENCY | VIDIOCFRAMECOUNT
  | VIDIOCISOCSTART | VIDIOCISOCSTOP
  | unknown (n : BitVec 32)
  deriving DecidableEq, Repr

/-- What the calls made for a command answer. `fromUser` is the number that `copy_from_user` gets,
`helper` the result of the function the handler calls, and `readable` whether `*((int*)arg)` can be
read. -/
structure Answers where
  fromUser : Option Int
  toUser : Bool
  readable : Bool
  helper : Int
  deriving DecidableEq, Repr

structure Call where
  cmd : Cmd
  arg : BitVec 32
  ans : Answers
  deriving DecidableEq, Repr

structure Dev where
  imageQuality : Int
  awbmode : Int
  exposurelevel : Int
  autoExposure : Bool
  motionYthrld : Int
  frequency : Int
  deriving DecidableEq, Repr

/-- How control leaves the `switch`: by `break`, by a `return` of its own, or not at all. -/
inductive Leave where
  | break (d : Dev)
  | return (ret : Int)
  | oops
  deriving DecidableEq, Repr

def Answers.from (a : Answers) (k : Int → Leave) : Leave :=
  match a.fromUser with
  | none => .return (-EFAULT)
  | some v => k v

def Answers.to (a : Answers) (d : Dev) : Leave := if a.toUser then .break d else .return (-EFAULT)

/-- The `switch` of `pwc_ioctl`. -/
def handle (d : Dev) (c : Call) : Leave :=
  match c.cmd with
  | .VIDIOCPWCRUSER | .VIDIOCPWCSUSER | .VIDIOCPWCFACTORY =>
      if c.ans.helper ≠ 0 then .return (-EINVAL) else .break d
  | .VIDIOCPWCSCQUAL =>
      c.ans.from fun qual =>
        if qual < 0 ∨ qual > 15 then .return (-EINVAL) else .break { d with imageQuality := qual }
  | .VIDIOCPWCGCQUAL => c.ans.to d
  | .VIDIOCPWCSAGC => c.ans.from fun _ => if c.ans.helper ≠ 0 then .return (-EINVAL) else .break d
  | .VIDIOCPWCGAGC => if c.ans.helper ≠ 0 then .return (-EINVAL) else c.ans.to d
  | .VIDIOCPWCSSHUTTER => c.ans.from fun _ => if c.ans.helper < 0 then .return c.ans.helper else .break d
  | .VIDIOCPWCSAWB =>
      c.ans.from fun mode =>
        if mode ≠ d.awbmode then
          if mode = 5 then .break { d with awbmode := mode }
          else if 0 ≤ mode ∧ mode ≤ 5 then .break { d with awbmode := mode }
          else .return (-EFAULT)
        else .break d
  | .VIDIOCPWCGAWB => c.ans.to d
  | .VIDIOCPWCSLED => c.ans.from fun _ => if c.ans.helper < 0 then .return c.ans.helper else .break d
  | .VIDIOCPWCGLED => if c.ans.helper < 0 then .return (-EINVAL) else c.ans.to d
  | .VIDIOCWRITEREG => c.ans.from fun _ => .break d
  | .VIDIOCREADREG => c.ans.from fun reg => if reg = 0 then .break d else c.ans.to d
  | .VIDIOCSETGAMMAR | .VIDIOCSETGAMMAG | .VIDIOCSETGAMMAB => c.ans.from fun _ => .break d
  -- the result of `copy_to_user` is not looked at
  | .VIDIOCGETEXPOSURE_EX | .VIDIOCGETMOTION | .VIDIOCGETFREQUENCY => .break d
  -- nor here, and `printk` then reads the number at the user's address
  | .VIDIOCGETIRIS_MAX | .VIDIOCGETIRIS_EX | .VIDIOCGETEXPOSURELEVEL =>
      if c.ans.readable then .break d else .oops
  | .VIDIOCSETEXPOSURE | .VIDIOCSETEXPOSURE_EX | .VIDIOCSETIRIS_EX | .VIDIOCCLOSEIRIS =>
      .break { d with autoExposure := false }
  | .VIDIOCOPENIRIS | .VIDIOCIRISDIAGNOSIS | .VIDIOCFRAMECOUNT | .VIDIOCISOCSTART | .VIDIOCISOCSTOP =>
      .break d
  | .VIDIOCSETEXPOSURELEVEL => .break { d with exposurelevel := c.arg.toInt }
  | .VIDIOCSETMOTION => .break { d with motionYthrld := c.arg.toInt }
  | .VIDIOCSETFREQUENCY =>
      .break { d with frequency := if c.arg = 0 then 0 else if c.arg.toInt = 50 then 50 else 60 }
  | .unknown _ => .return (-ENOIOCTLCMD)

/-- A whole call: what it returns, if it does, how often it calls `up(&sem)`, and the device afterwards. -/
structure Done where
  ret : Option Int
  ups : Nat
  dev : Dev
  deriving DecidableEq, Repr

def pwcIoctl (d : Dev) (c : Call) : Done :=
  match handle d c with
  | .break d' => ⟨some 0, 1, d'⟩
  | .return ret => ⟨some ret, 0, d⟩
  | .oops => ⟨none, 0, d⟩

/-! ## The semaphore -/

/-- Who takes the semaphore: an ioctl, a round of the iris thread, `leave_thread`. -/
inductive Who where
  | ioctl (c : Call)
  | iris
  | leave
  deriving DecidableEq, Repr

structure Sys where
  count : Nat
  inside : List Who
  dev : Dev
  deriving DecidableEq, Repr

inductive Ev where
  -- `down(&sem)` goes through
  | down (w : Who)
  -- one that is inside gets to its end
  | out (w : Who)
  deriving DecidableEq, Repr

def Who.finish (d : Dev) : Who → Done
  | .ioctl c => pwcIoctl d c
  | .iris => ⟨some 0, 1, d⟩
  | .leave => ⟨some 0, 1, d⟩

/-- One step; `none` where the semaphore is not free or nobody like that is inside. -/
def step (s : Sys) : Ev → Option Sys
  | .down w => if s.count = 0 then none else some { s with count := s.count - 1, inside := w :: s.inside }
  | .out w =>
      if w ∈ s.inside then
        let r := w.finish s.dev
        some ⟨s.count + r.ups, s.inside.erase w, r.dev⟩
      else none

/-- After `sema_init(&sem, 1)`. -/
def Sys.init (d : Dev) : Sys := ⟨1, [], d⟩

end CameraFw.Pwc
