import CameraFw.Base.Loop
import CameraFw.Pwc.Iris

/-!
# The settling loop of the iris thread

The loop at the end of a closing, round by round and with the way it is left, and the rounds of
`topro_iris_thread` that it is part of.

`AEThreshold`, `CurrentExposure` and `CurrentIRISIndicator` are set by every pass of automatic exposure,
also by those of `pwc_handle_frame`, which do not take the semaphore. Here the thread finds in them
whatever it finds: the threshold comes with each average, the other two with each round. The rounds of
`Thread`, between which nobody disturbs the thread, are some of these.
-/

namespace CameraFw.Pwc

open CameraFw.Base

/-! ## The loop -/

/-- An average, and `AEThreshold` when it is looked at. -/
structure Look where
  accY : Int
  aeThreshold : Int
  deriving DecidableEq, Repr

def Iris.check (i : Iris) (l : Look) : Code := checkCurrentAvgY i l.accY l.aeThreshold

/-- The variables of the loop. -/
structure Settling where
  -- `i`
  left : Int
  continueOk : Nat
  -- what `ccode` is from; until the round compares with the threshold once more, the thread does not sleep
  look : Look
  ccode : Code
  iris : Iris
  -- what was passed to the DAC so far
  dacs : List Dac
  deriving DecidableEq, Repr

/-- The ways out of the loop. -/
inductive Exit where
  -- `i` is used up
  | counter
  -- `ccode` is `EXPOSURE_IS_TOO_HIGH`
  | tooHigh
  -- the `break` after four good averages
  | settled
  deriving DecidableEq, Repr

/-- The condition of the loop, and a round up to the check of the next average. -/
def Settling.pass (next : Look) (s : Settling) : Pass Settling (Exit × Settling) :=
  if s.left ≤ 0 then .leave (.counter, s)
  else if s.ccode = .tooHigh then .leave (.tooHigh, s)
  else
    let continueOk := if s.ccode = .ok then s.continueOk + 1 else s.continueOk
    if s.ccode = .ok ∧ continueOk ≥ 4 then .leave (.settled, s)
    else
      let (i, dacs) := s.iris.settleOnce s.look.aeThreshold s.look.accY s.ccode
      .again ⟨s.left - 1, continueOk, next, i.check next, i, s.dacs ++ dacs⟩

/-- How the loop is left, and with which variables. -/
def Settling.leave (looks : Nat → Look) (s : Settling) : Option (Exit × Settling) :=
  whileLoop Settling.pass looks (s.left.toNat + 1) 0 s

/-! ## Rounds of the thread -/

/-- A closing up to the loop. -/
def Iris.enter (i : Iris) (looks : Nat → Look) : Settling :=
  let code := i.check (looks 0)
  let (i, dacs) := (i.findValid (looks 0).accY).react (looks 0).aeThreshold (looks 0).accY code
  let (look, code) := if code = .tooHigh then (looks 1, i.check (looks 1)) else (looks 0, code)
  let i := i.findValid look.accY
  ⟨10 + i.failedAndToleranceRange, 0, look, code, i, dacs⟩

/-- What the thread finds behind its two passes. -/
structure Round where
  indicator : Int
  currentExposure : Int
  looks : Nat → Look

/-- The iris is closed step by step. -/
def Round.Closes (r : Round) : Prop := r.indicator ≥ 20 ∧ r.currentExposure = 1

instance (r : Round) : Decidable r.Closes := inferInstanceAs (Decidable (_ ∧ _))

/-- The averages of the loop; those before it are two at most. -/
def Round.later (r : Round) (k : Nat) : Look := r.looks (k + 2)

def Iris.settling (i : Iris) (r : Round) : Option (Exit × Settling) := (i.enter r.looks).leave r.later

def Iris.round (i : Iris) (r : Round) : Option (Iris × List Dac) :=
  if r.indicator = -9999 then some (i.open (r.looks 0).accY)
  else if r.Closes then (i.settling r).map fun (_, s) => ({ s.iris with preAccY := s.look.accY }, s.dacs)
  else some (i, [])

def Iris.step (i : Iris) (r : Round) : Option Iris := (i.round r).map Prod.fst

/-! ## Rounds of an undisturbed thread -/

/-- The variables of the control are as the passes have left them. -/
def Ctl.round (c : Ctl) (readings : Nat → Int) : Round :=
  ⟨c.currentIRISIndicator, c.currentExposure, fun k => ⟨readings k, c.aeThreshold⟩⟩

/-- The rounds that a turn consists of: one, or none if it is somebody else's. -/
def Thread.roundOf (s : Thread) : Turn → List Round
  | .round accY avg readings => [(s.passes accY avg).ctl.round readings]
  | .job _ => []

def Thread.rounds : Thread → List Turn → List Round := relabel Thread.step Thread.roundOf

end CameraFw.Pwc
