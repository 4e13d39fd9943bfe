import CameraFw.Pwc.Control

/-!
# The iris thread

`topro_iris_thread` of `pwc-ctrl.c` with `CheckCurrentAvgY` and `cal_dac_register` of `tp_iri_thread.h`.
Of the variables of the header `keep`, which is never read, is left out.
-/

namespace CameraFw.Pwc

def MIN_DAC_NUM : Int := 0
def MAX_DAC_NUM : Int := 90
def PULL_UP_VOLTAGE_IF_FINDING_VALID_MODE : Int := 3
def PULL_UP_VOLTAGE_IF_NEXT_ADJUSTMENT_COULD_BE_TOO_FAR : Int := 3
def INVALID_MODE_UNIT : Int := 5
def VALID_MODE_UNIT : Int := 1
def BASIC_UNIT : Int := 1
def MID_KEEP : Int := 3
def MAX_KEEP : Int := 8
def EXPOSURE_RANGE : Int := 30

/-- `EXPOSURE_IS_OK`, `EXPOSURE_IS_TOO_HIGH` and so on. -/
inductive Code where
  | ok | tooHigh | tooLow | veryLow
  deriving DecidableEq, Repr

/-- The first argument of `cal_dac_register`. -/
inductive Command where
  | minusOneUnit
  | enterValidMode
  | exposureIs (code : Code)
  deriving DecidableEq, Repr

/-- A call of one of the two functions that write to the DAC. -/
inductive Dac where
  | register (arg : Int)
  | register2 (arg : Int)
  deriving DecidableEq, Repr

def Dac.arg : Dac → Int
  | .register arg => arg
  | .register2 arg => arg

/-- `set_dac1_register` and `set_dac1_register2`, which adds nothing to the upper part. -/
def Dac.ops : Dac → List Op
  | .register arg =>
      [.writeSpi16 0x0a ((byte arg % 32 * 2) <<< 2), .writeSpi16 0x0b ((byte arg / 32 + 1) <<< 2)]
  | .register2 arg => [.writeSpi16 0x0a ((byte arg % 32 * 2) <<< 2), .writeSpi16 0x0b ((byte arg / 32) <<< 2)]

/-- The variables of the iris control; `preAccY` is a local one of the thread. -/
structure Iris where
  validMode : Bool
  dacFirst : Int
  dacSecond : Int
  lastValidValue : Int
  tried : Int
  failedAndToleranceRange : Int
  preAccY : Int
  deriving DecidableEq, Repr

def Iris.loaded (accY : Int) : Iris := ⟨false, 20, 12, 0, 0, 0, accY⟩

/-! ## Helpers -/

def checkCurrentAvgY (i : Iris) (cur thr : Int) : Code :=
  if cur > int32 (thr - EXPOSURE_RANGE) ∧
    cur < int32 (thr + EXPOSURE_RANGE + i.failedAndToleranceRange * 2) then .ok
  else if cur ≥ int32 (thr + EXPOSURE_RANGE) then .tooHigh
  else if cur < int32 (thr - (EXPOSURE_RANGE * 3).tdiv 2) then .veryLow
  else .tooLow

/-- The first lines of `cal_dac_register`. -/
def Iris.restart (i : Iris) : Iris :=
  if i.dacFirst < 20 then
    if i.lastValidValue > 20 then
      { i with dacFirst := i.lastValidValue - 5, dacSecond := i.lastValidValue - 5 - 6 }
    else { i with dacFirst := 20, dacSecond := 12 }
  else i

/-- Its last ones. -/
def Iris.limit (i : Iris) : Iris :=
  let first := if i.dacFirst < MIN_DAC_NUM then MIN_DAC_NUM else i.dacFirst
  let first := if first ≥ MAX_DAC_NUM then MAX_DAC_NUM else first
  { i with dacFirst := first, dacSecond := if i.dacSecond < first - 6 then first - 6 else i.dacSecond }

/-- Both registers by the same amount. -/
def Iris.lessBy (i : Iris) (n : Int) : Iris :=
  { i with dacFirst := i.dacFirst - n, dacSecond := i.dacSecond - n }

/-- The first register by this amount, and the second one 6 below it. -/
def Iris.lowerTo (i : Iris) (n : Int) : Iris :=
  { i with dacFirst := i.dacFirst - n, dacSecond := i.dacFirst - n - 6, tried := MID_KEEP }

def Iris.raise (i : Iris) : Iris :=
  if i.dacFirst < i.dacSecond + 5 then
    if i.validMode then
      { i with
        dacFirst := i.dacFirst + VALID_MODE_UNIT, dacSecond := i.dacFirst + VALID_MODE_UNIT - 6
        tried := MID_KEEP }
    else
      { i with
        dacFirst := i.dacFirst + INVALID_MODE_UNIT, dacSecond := i.dacFirst + INVALID_MODE_UNIT - 6
        lastValidValue := i.dacFirst + INVALID_MODE_UNIT, tried := MAX_KEEP }
  else { i with dacSecond := i.dacSecond + if i.validMode then VALID_MODE_UNIT else INVALID_MODE_UNIT }

/-- The `switch` of `cal_dac_register`. -/
def Iris.apply (i : Iris) : Command → Iris
  | .minusOneUnit => i.lessBy BASIC_UNIT
  | .enterValidMode => i.lessBy PULL_UP_VOLTAGE_IF_FINDING_VALID_MODE
  | .exposureIs .tooHigh => if i.tried > 0 then { i with tried := i.tried - 1 } else i.raise
  | .exposureIs .tooLow => if i.tried > 0 then { i with tried := i.tried - 1 } else i.lowerTo 2
  | .exposureIs .veryLow => if i.tried > 0 then { i with tried := i.tried - 1 } else i.lowerTo 4
  | .exposureIs .ok => i

/-- `cal_dac_register`, which is always given the current mode. -/
def calDacRegister (i : Iris) (c : Command) : Iris := (i.restart.apply c).limit

/-! ## A round -/

/-- The iris is opened fully. -/
def Iris.open (i : Iris) (cur : Int) : Iris × List Dac :=
  ({ i with
    validMode := false
    dacFirst := 0
    dacSecond := 4
    lastValidValue :=
      if cur < 40 ∧ i.lastValidValue > 20 then if i.lastValidValue - 5 < 20 then 20 else i.lastValidValue - 5
      else i.lastValidValue
    -- `failed_and_tolerance_range` is assigned its own value, whatever `--` does to it
    preAccY := cur }, [.register2 0, .register2 4])

/-- Enters the valid mode when the average has fallen by more than the range. -/
def Iris.findValid (i : Iris) (cur : Int) : Iris :=
  if i.validMode = false ∧ int32 (i.preAccY - cur) > EXPOSURE_RANGE then
    calDacRegister { i with validMode := true } .enterValidMode
  else i

/-- What is done about the first average of a closing. -/
def Iris.react (i : Iris) (thr cur : Int) : Code → Iris × List Dac
  | .tooHigh =>
      let i := calDacRegister i (.exposureIs .tooHigh)
      let i :=
        if int32 (cur - thr) < int32 (i.preAccY - cur) then
          i.lessBy PULL_UP_VOLTAGE_IF_NEXT_ADJUSTMENT_COULD_BE_TOO_FAR
        else i
      (i, [.register i.dacFirst, .register i.dacSecond])
  | .tooLow =>
      let i := if i.dacFirst > 1 then i.lessBy 1 else i
      (i, if i.dacFirst ≥ 4 then [.register (i.dacFirst - 4), .register (i.dacSecond - 4)]
        else [.register 0, .register 6])
  | .veryLow => (i, [])
  | .ok =>
      let i := calDacRegister i (.exposureIs .ok)
      let i :=
        if i.failedAndToleranceRange > 0 then
          { i with failedAndToleranceRange := i.failedAndToleranceRange - 1 }
        else i
      (i, if i.dacFirst ≥ 4 then [.register (i.dacFirst - 4), .register (i.dacSecond - 4)]
        else [.register 0, .register 4])

/-- One round of the settling loop up to the next average. -/
def Iris.settleOnce (i : Iris) (thr cur : Int) : Code → Iris × List Dac
  | .ok => (i, [])
  | .veryLow =>
      let i :=
        if int32 (cur - i.preAccY) ≤ int32 (thr - cur) then
          calDacRegister i (.exposureIs .veryLow)
        else i
      (i, [.register 0, .register (i.dacSecond - 6)])
  | .tooLow =>
      let i := calDacRegister i (.exposureIs .tooLow)
      (i, [.register (i.dacFirst - 6), .register (i.dacSecond - 6)])
  | .tooHigh => ({ i with failedAndToleranceRange := i.failedAndToleranceRange + 1 }, [])

/-- The settling loop; `n` is what is left of its counter, and `readings k` the next average. -/
def Iris.settle (thr : Int) (readings : Nat → Int) :
    Nat → Nat → Nat → Int → Code → Iris → Iris × Int × List Dac
  | 0, _, _, cur, _, i => (i, cur, [])
  | n + 1, k, continueOk, cur, code, i =>
      if code = .tooHigh then (i, cur, [])
      else
        let continueOk := if code = .ok then continueOk + 1 else continueOk
        if code = .ok ∧ continueOk ≥ 4 then (i, cur, [])
        else
          let (i, dacs) := i.settleOnce thr cur code
          let next := readings k
          let (i, cur, more) := Iris.settle thr readings n (k + 1) continueOk next
            (checkCurrentAvgY i next thr) i
          (i, cur, dacs ++ more)

/-- A closing from the code of its first average on; too bright an average is followed by another one. -/
def Iris.reactAndSettle (i : Iris) (thr : Int) (readings : Nat → Int) (code : Code) : Iris × List Dac :=
  let (i, dacs) := i.react thr (readings 0) code
  let (cur, code) :=
    if code = .tooHigh then (readings 1, checkCurrentAvgY i (readings 1) thr) else (readings 0, code)
  let i := i.findValid cur
  let (i, cur, more) := Iris.settle thr readings (10 + i.failedAndToleranceRange).toNat 2 0 cur code i
  ({ i with preAccY := cur }, dacs ++ more)

/-- The iris is closed step by step. -/
def Iris.close (i : Iris) (thr : Int) (readings : Nat → Int) : Iris × List Dac :=
  (i.findValid (readings 0)).reactAndSettle thr readings (checkCurrentAvgY i (readings 0) thr)

/-- What the thread does after its two passes. -/
def Iris.adjust (i : Iris) (c : Ctl) (readings : Nat → Int) : Iris × List Dac :=
  if c.currentIRISIndicator = -9999 then i.open (readings 0)
  else if c.currentIRISIndicator ≥ 20 ∧ c.currentExposure = 1 then i.close c.aeThreshold readings
  else (i, [])

/-! ## Runs -/

structure Thread where
  control : Control
  iris : Iris
  deriving DecidableEq, Repr

/-- A round of the thread, with what it reads, or a job of somebody else between two rounds. -/
inductive Turn where
  | round (accY : Int) (avg : Rgb) (readings : Nat → Int)
  | job (j : Job)

/-- The two passes at the beginning of a round. -/
def Thread.passes (s : Thread) (accY : Int) (avg : Rgb) : Control :=
  ((s.control.perform (.autoexposure accY)).1.perform (.autowhitebalance avg)).1

def Thread.perform (s : Thread) : Turn → Thread × List Dac
  | .round accY avg readings =>
      let control := s.passes accY avg
      let (iris, dacs) := s.iris.adjust control.ctl readings
      (⟨control, iris⟩, dacs)
  | .job j => ({ s with control := (s.control.perform j).1 }, [])

def Thread.step (s : Thread) (t : Turn) : Option Thread := some (s.perform t).1

/-- The thread reads one average before its first round. -/
def Thread.started (d : Dev) (accY : Int) : Thread := ⟨Control.started d, Iris.loaded accY⟩

end CameraFw.Pwc
