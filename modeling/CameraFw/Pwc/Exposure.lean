import CameraFw.Pwc.Ioctl

/-!
# Automatic exposure

`topro_autoexposure`, `topro_fps_control` and `topro_setexposure` of `pwc-ctrl.c` for the TI CCD, with
the exposure tables of `pwc-ctrl-TI.h`. Each function returns the variables it leaves and, in their
order, the reads of the tables and the transfers to the camera. The least and the greatest average,
which are only printed, are left out, and so is `WAIT_SIF`.
-/

namespace CameraFw.Pwc

/-- A C `int` after an operation that may overflow. -/
def int32 (x : Int) : Int := x.bmod (2 ^ 32)

/-! ## The tables -/

structure Row where
  tiExposure : Nat
  tiGain : Nat
  frameRate : Nat
  awbGainWei : Nat
  prevExpoOfst : Nat
  nextExpoOfst : Nat
  deriving DecidableEq, Repr

def CCD_EXPOSURE_TABLE50 : List Row :=
  [⟨0, 0, 0, 0, 0, 0⟩, ⟨0, 2, 30, 45, 10, 16⟩, ⟨0, 2, 30, 45, 10, 16⟩, ⟨0, 2, 30, 50, 10, 16⟩,
   ⟨0, 2, 30, 50, 10, 16⟩, ⟨0, 2, 30, 55, 10, 16⟩, ⟨0, 2, 30, 55, 10, 16⟩, ⟨0, 2, 30, 60, 10, 16⟩,
   ⟨0, 2, 30, 65, 10, 16⟩, ⟨0, 2, 30, 65, 10, 16⟩, ⟨0, 2, 30, 70, 10, 16⟩, ⟨0, 2, 30, 70, 10, 16⟩,
   ⟨0, 2, 30, 75, 10, 16⟩, ⟨0, 2, 30, 75, 10, 16⟩, ⟨0, 2, 30, 80, 10, 16⟩, ⟨0, 2, 30, 80, 10, 16⟩,
   ⟨0, 2, 30, 85, 10, 16⟩, ⟨0, 2, 30, 85, 10, 16⟩, ⟨0, 2, 30, 90, 10, 16⟩, ⟨0, 2, 30, 90, 10, 16⟩,
   ⟨0, 2, 30, 95, 10, 16⟩, ⟨0, 2, 30, 100, 10, 16⟩, ⟨0, 3, 30, 95, 10, 16⟩, ⟨0, 3, 30, 100, 10, 16⟩,
   ⟨0, 4, 30, 100, 10, 16⟩, ⟨0, 4, 30, 105, 10, 16⟩, ⟨0, 5, 30, 95, 10, 16⟩, ⟨0, 5, 30, 100, 10, 16⟩,
   ⟨0, 5, 30, 105, 10, 16⟩, ⟨0, 6, 30, 95, 10, 16⟩, ⟨0, 6, 30, 100, 10, 16⟩, ⟨0, 6, 30, 105, 10, 16⟩,
   ⟨0, 7, 30, 100, 10, 16⟩, ⟨0, 7, 30, 100, 10, 16⟩, ⟨0, 7, 30, 105, 10, 16⟩, ⟨0, 7, 30, 105, 10, 16⟩,
   ⟨0, 7, 30, 110, 10, 16⟩, ⟨0, 7, 30, 110, 10, 16⟩, ⟨0, 7, 30, 115, 10, 16⟩, ⟨0, 7, 30, 115, 10, 16⟩,
   ⟨0, 7, 30, 120, 10, 16⟩, ⟨0, 7, 30, 120, 10, 16⟩, ⟨0, 7, 30, 125, 10, 16⟩, ⟨0, 7, 30, 125, 10, 16⟩,
   ⟨1, 1, 30, 80, 10, 16⟩, ⟨1, 1, 30, 80, 10, 16⟩, ⟨1, 1, 30, 85, 10, 16⟩, ⟨1, 1, 30, 85, 10, 16⟩,
   ⟨1, 1, 30, 90, 10, 16⟩, ⟨1, 1, 30, 90, 10, 16⟩, ⟨1, 1, 30, 95, 10, 16⟩, ⟨1, 1, 30, 95, 10, 16⟩,
   ⟨1, 1, 30, 100, 10, 16⟩, ⟨1, 1, 30, 100, 10, 16⟩, ⟨1, 1, 30, 105, 10, 16⟩, ⟨1, 1, 30, 105, 10, 16⟩,
   ⟨1, 2, 30, 95, 10, 16⟩, ⟨1, 2, 30, 100, 10, 16⟩, ⟨1, 2, 30, 105, 10, 16⟩, ⟨1, 3, 30, 100, 10, 16⟩,
   ⟨1, 3, 30, 105, 10, 16⟩, ⟨1, 4, 30, 95, 10, 16⟩, ⟨1, 4, 30, 95, 10, 16⟩, ⟨1, 4, 30, 100, 10, 16⟩,
   ⟨1, 4, 30, 100, 10, 16⟩, ⟨1, 4, 30, 105, 10, 16⟩, ⟨1, 4, 30, 105, 10, 16⟩, ⟨1, 4, 30, 110, 10, 16⟩,
   ⟨1, 4, 30, 110, 10, 16⟩, ⟨2, 3, 30, 95, 10, 16⟩, ⟨2, 3, 30, 95, 10, 16⟩, ⟨2, 3, 30, 100, 10, 16⟩,
   ⟨2, 3, 30, 100, 10, 16⟩, ⟨2, 3, 30, 105, 10, 16⟩, ⟨2, 3, 30, 105, 10, 16⟩, ⟨2, 4, 30, 100, 10, 16⟩,
   ⟨2, 4, 30, 105, 10, 16⟩, ⟨2, 5, 30, 100, 10, 16⟩, ⟨2, 5, 30, 105, 10, 16⟩, ⟨2, 6, 30, 100, 10, 16⟩,
   ⟨2, 6, 30, 100, 10, 16⟩, ⟨2, 6, 30, 105, 10, 16⟩, ⟨2, 6, 30, 105, 10, 16⟩, ⟨2, 6, 30, 110, 10, 16⟩,
   ⟨2, 6, 30, 110, 10, 16⟩, ⟨3, 5, 30, 100, 10, 16⟩, ⟨3, 5, 30, 100, 10, 16⟩, ⟨3, 5, 30, 105, 10, 16⟩,
   ⟨3, 5, 30, 105, 10, 16⟩, ⟨3, 6, 30, 100, 10, 16⟩, ⟨3, 6, 30, 105, 10, 16⟩, ⟨3, 7, 30, 100, 10, 16⟩,
   ⟨3, 7, 30, 105, 10, 16⟩, ⟨3, 7, 30, 110, 10, 16⟩, ⟨3, 7, 30, 115, 10, 16⟩, ⟨3, 7, 25, 100, 10, 16⟩,
   ⟨3, 7, 25, 105, 10, 16⟩, ⟨3, 7, 25, 110, 10, 16⟩, ⟨3, 7, 25, 115, 10, 16⟩, ⟨3, 7, 20, 100, 10, 16⟩,
   ⟨3, 7, 20, 105, 10, 16⟩, ⟨3, 7, 20, 110, 10, 16⟩, ⟨3, 7, 20, 115, 10, 16⟩, ⟨3, 7, 20, 120, 10, 16⟩,
   ⟨3, 7, 20, 127, 10, 16⟩, ⟨3, 7, 15, 100, 10, 16⟩, ⟨3, 7, 15, 105, 10, 16⟩, ⟨3, 7, 15, 110, 10, 16⟩,
   ⟨3, 7, 15, 110, 10, 16⟩, ⟨3, 7, 15, 115, 10, 16⟩, ⟨3, 7, 15, 120, 10, 16⟩, ⟨3, 7, 15, 125, 10, 16⟩,
   ⟨3, 7, 15, 130, 10, 16⟩, ⟨3, 7, 13, 100, 10, 16⟩, ⟨3, 7, 13, 105, 10, 16⟩, ⟨3, 7, 13, 110, 10, 16⟩,
   ⟨3, 7, 13, 115, 10, 16⟩, ⟨3, 7, 10, 100, 10, 16⟩, ⟨3, 7, 10, 105, 10, 16⟩, ⟨3, 7, 10, 110, 10, 16⟩,
   ⟨3, 7, 10, 115, 10, 16⟩, ⟨3, 7, 10, 120, 10, 16⟩, ⟨3, 7, 10, 125, 10, 16⟩, ⟨3, 7, 10, 130, 10, 16⟩,
   ⟨3, 7, 10, 135, 10, 16⟩, ⟨3, 7, 10, 140, 10, 16⟩, ⟨3, 7, 10, 145, 10, 16⟩, ⟨3, 7, 10, 150, 10, 16⟩,
   ⟨3, 7, 10, 155, 10, 16⟩, ⟨3, 7, 10, 160, 10, 16⟩, ⟨3, 7, 10, 165, 10, 16⟩, ⟨3, 7, 10, 170, 10, 16⟩,
   ⟨3, 7, 10, 175, 10, 16⟩, ⟨3, 7, 10, 180, 10, 16⟩, ⟨3, 7, 10, 185, 10, 16⟩, ⟨3, 7, 10, 190, 10, 16⟩,
   ⟨3, 7, 10, 195, 10, 16⟩, ⟨3, 7, 10, 200, 10, 16⟩]

/-- The source writes the same rows out again. -/
def CCD_EXPOSURE_TABLE60 : List Row := CCD_EXPOSURE_TABLE50

def TI_25FPS_EXPO_NUM : Int := 98
def TI_20FPS_EXPO_NUM : Int := 104
def TI_15FPS_EXPO_NUM : Int := 112
def TI_13FPS_EXPO_NUM : Int := 116

def TI_MAX_EXPO_50 : Int := CCD_EXPOSURE_TABLE50.length - 1
def TI_MAX_EXPO_60 : Int := CCD_EXPOSURE_TABLE60.length - 1

/-- What a read at this index finds. Outside of the table it is whatever lies there, a row of zeros
here; that the index was read is in the list of operations. -/
def rowAt (table : List Row) (expo : Int) : Row :=
  if expo < 0 then ⟨0, 0, 0, 0, 0, 0⟩ else table.getD expo.toNat ⟨0, 0, 0, 0, 0, 0⟩

/-- The `Get_…` functions: a column at the current frequency. -/
def getColumn (column : Row → Nat) (frequency expo : Int) : Nat :=
  if frequency = 50 then column (rowAt CCD_EXPOSURE_TABLE50 expo)
  else if frequency = 60 then column (rowAt CCD_EXPOSURE_TABLE60 expo)
  else 0

def getTempExposure : Int → Int → Nat := getColumn Row.tiExposure
def getTempGain : Int → Int → Nat := getColumn Row.tiGain
def getFrameRate : Int → Int → Nat := getColumn Row.frameRate
def getAWBGainWei : Int → Int → Nat := getColumn Row.awbGainWei
def getPrevOfst : Int → Int → Nat := getColumn Row.prevExpoOfst
def getNextOfst : Int → Int → Nat := getColumn Row.nextExpoOfst

/-! ## Operations -/

inductive Reg where
  | MCLK_CFG | MCLK_SEL | AWB_RGAIN | AWB_GGAIN | AWB_BGAIN
  deriving DecidableEq, Repr

inductive Op where
  -- a read of one of the two tables
  | look (expo : Int)
  | getBulkInAvgY
  | getBulkAvgRGB
  | writeReg (reg : Reg) (data : Nat)
  -- the three curves of `topro_prog_gamma`, or of `topro_prog_gamma1`
  | progGamma (low : Bool)
  | writeSpi16 (addr data : Nat)
  deriving DecidableEq, Repr

/-- The read that a `Get_…` function makes. -/
def look (frequency expo : Int) : List Op := if frequency = 50 ∨ frequency = 60 then [.look expo] else []

/-! ## State -/

/-- The variables of the exposure control. -/
structure Ctl where
  dev : Dev
  maxExposure : Int
  currentExposure : Int
  aeThreshold : Int
  frameSkipCount : Int
  extraRateAE : Int
  currentIRISIndicator : Int
  flickerTolerance : Int
  flickerLastDirect : Int
  flickerCurrentDirect : Int
  flickerAllowTolerance : Int
  deriving DecidableEq, Repr

/-- As they are loaded. -/
def Ctl.loaded (d : Dev) : Ctl where
  dev := d
  maxExposure := 0
  currentExposure := TI_MAX_EXPO_60.tdiv 2
  aeThreshold := 125
  frameSkipCount := 0
  extraRateAE := 0
  currentIRISIndicator := 0
  flickerTolerance := 0
  flickerLastDirect := 0
  flickerCurrentDirect := 0
  flickerAllowTolerance := 18

/-! ## Frame rate and exposure -/

def checkRangeExposure (dMin dMax dNew : Int) : Int := min dMax (max dMin dNew)

/-- The `switch` of `topro_fps_control`. -/
def mclkSel : Nat → Option Nat
  | 30 => some 0x11
  | 25 => some 0x04
  | 20 => some 0x12
  | 15 => some 0x21
  | 13 => some 0x08
  | 10 => some 0x15
  | _ => none

def fpsWrites (fpsWas fpsIs : Nat) : List Op :=
  if fpsWas ≠ fpsIs then
    (mclkSel fpsIs).toList.map (.writeReg .MCLK_SEL ·) ++ [.writeReg .MCLK_CFG 0x03]
  else []

def fpsControl (c : Ctl) (expoWas expoIs : Int) : Ctl × List Op :=
  let f := c.dev.frequency
  let expoIs := checkRangeExposure 1 c.maxExposure expoIs
  ({ c with currentExposure := expoIs },
    look f expoWas ++ look f expoIs ++ fpsWrites (getFrameRate f expoWas) (getFrameRate f expoIs))

def calcTempExposure (frequency expo : Int) : Int :=
  if frequency = 50 ∨ frequency = 60 then
    0x20c - ((getTempExposure frequency expo * 12 * 1000000 : Int).tdiv (frequency * 2) - 447).tdiv 780
  else 0x20c - expo * 5

def calcCCDGain (frequency expo : Int) : Nat := getTempGain frequency expo <<< 2

/-- The first part of `topro_setexposure`, up to the exposure time. -/
def exposureTime (c : Ctl) (expo : Int) : List Op :=
  let f := c.dev.frequency
  let ccd := (calcTempExposure f expo).toNat
  look f expo ++ if f = 0 then [] else
    [.progGamma (70 ≤ expo), .writeSpi16 0x9e ((ccd <<< 2) &&& 0xfc), .writeSpi16 0x9f ((ccd >>> 4) &&& 0xfc)]

/-- And the gain. -/
def exposureGain (c : Ctl) (expo : Int) : List Op :=
  look c.dev.frequency expo ++ [.writeSpi16 0x07 (calcCCDGain c.dev.frequency expo)]

def setexposure (c : Ctl) (expo : Int) : List Op :=
  let expo := checkRangeExposure 1 c.maxExposure expo
  exposureTime c expo ++ if c.dev.frequency = 0 then [] else exposureGain c expo

/-! ## The controller -/

/-- Passes between two measurements. -/
def Ctl.rateAE (c : Ctl) : Int :=
  (if c.currentExposure = 1 then 10 else if c.currentExposure ≤ 62 then 15 else 4) +
    if c.extraRateAE > 0 then c.extraRateAE else 0

/-- The beginning of a pass with automatic exposure on. -/
def Ctl.begin (c : Ctl) : Ctl :=
  { c with
    frameSkipCount := int32 (c.frameSkipCount + 1)
    aeThreshold := int32 (120 + (c.dev.exposurelevel - 10) * 10) }

/-- Whether the pass that has begun measures. -/
def Ctl.Due (c : Ctl) : Prop := c.frameSkipCount.tmod c.rateAE = 0

instance (c : Ctl) : Decidable c.Due := inferInstanceAs (Decidable (_ = _))

def Ctl.clearExtra (c : Ctl) : Ctl := { c with extraRateAE := if c.extraRateAE > 0 then 0 else c.extraRateAE }

/-- Above this average the exposure goes down. -/
def Ctl.upper (c : Ctl) : Int :=
  let next := getNextOfst c.dev.frequency c.currentExposure
  int32 (c.aeThreshold + (int32 ((next + c.flickerTolerance) * c.flickerAllowTolerance)).tdiv 10)

/-- Below this one it goes up. -/
def Ctl.lower (c : Ctl) : Int :=
  let prev := getPrevOfst c.dev.frequency c.currentExposure
  int32 (c.aeThreshold - (int32 ((prev - c.flickerTolerance) * c.flickerAllowTolerance)).tdiv 10)

/-- `CurrentExposure -= (AccY - AEThreshold)/8`. -/
def Ctl.jump (c : Ctl) (accY : Int) : Ctl :=
  { c with currentExposure := int32 (c.currentExposure - (int32 (accY - c.aeThreshold)).tdiv 8) }

def Ctl.down (c : Ctl) (accY : Int) : Ctl :=
  if c.currentExposure = 1 then { c with currentIRISIndicator := 20 }
  else
    let c := { c with flickerCurrentDirect := -1 }
    if c.currentExposure > TI_13FPS_EXPO_NUM ∧ accY > 210 then
      { c with currentExposure := TI_13FPS_EXPO_NUM, extraRateAE := 1 }
    else if c.currentExposure > TI_15FPS_EXPO_NUM ∧ accY > 210 then
      { c with currentExposure := TI_15FPS_EXPO_NUM, extraRateAE := 2 }
    else if c.currentExposure > TI_20FPS_EXPO_NUM ∧ accY > 210 then
      { c with currentExposure := TI_20FPS_EXPO_NUM, extraRateAE := 3 }
    else if c.currentExposure > TI_25FPS_EXPO_NUM ∧ accY > 210 then
      { c with currentExposure := TI_25FPS_EXPO_NUM, extraRateAE := 4 }
    else if accY > int32 (c.aeThreshold + 50) then c.jump accY
    else if accY > int32 (c.aeThreshold + 40) then { c with currentExposure := int32 (c.currentExposure - 2) }
    else { c with currentExposure := int32 (c.currentExposure - 1) }

def Ctl.up (c : Ctl) (accY : Int) : Ctl :=
  let c := { c with
    flickerCurrentDirect := 1, currentIRISIndicator := if c.currentExposure ≥ 68 then -9999 else -20 }
  if c.currentExposure = c.maxExposure then c
  else if int32 (accY + 50) < c.aeThreshold then c.jump accY
  else if accY < int32 (c.aeThreshold - 40) then { c with currentExposure := int32 (c.currentExposure + 3) }
  else if accY < int32 (c.aeThreshold - 30) then { c with currentExposure := int32 (c.currentExposure + 2) }
  else { c with currentExposure := int32 (c.currentExposure + 1) }

def Ctl.stay (c : Ctl) : Ctl := { c with flickerCurrentDirect := 0, currentIRISIndicator := 0 }

/-- The tolerance grows when the direction changes, and shrinks when there is none any more. -/
def Ctl.flicker (c : Ctl) : Ctl :=
  { c with
    flickerTolerance :=
      if c.flickerCurrentDirect ≠ 0 ∧ c.flickerCurrentDirect ≠ c.flickerLastDirect then
        int32 (c.flickerTolerance + 1)
      else if c.flickerCurrentDirect = 0 ∧ c.flickerCurrentDirect ≠ c.flickerLastDirect then
        if c.flickerTolerance > 3 then c.flickerTolerance - 3 else 0
      else c.flickerTolerance
    flickerLastDirect := c.flickerCurrentDirect
    flickerAllowTolerance := if c.flickerAllowTolerance = 10 then 18 else c.flickerAllowTolerance }

/-- What a measured average does; the exposure may be out of range afterwards. -/
def Ctl.adjust (c : Ctl) (accY : Int) : Ctl :=
  (if accY > c.upper then c.down accY else if accY < c.lower then c.up accY else c.stay).flicker

/-- The reads of the two offsets. -/
def lookOffsets (c : Ctl) : List Op :=
  look c.dev.frequency c.currentExposure ++ look c.dev.frequency c.currentExposure

/-- `topro_autoexposure`, where `GetBulkInAvgY` returns `accY`. -/
def autoexposure (c : Ctl) (accY : Int) : Ctl × List Op :=
  if c.dev.autoExposure = false then (c, [.getBulkInAvgY])
  else
    let c := c.begin
    if ¬c.Due then (c, [])
    else
      let c := c.clearExtra
      -- "AccY data Error"
      if accY > 255 ∨ accY < 0 then (c, [.getBulkInAvgY])
      else
        let moved := c.adjust accY
        if c.currentExposure = moved.currentExposure then (moved, .getBulkInAvgY :: lookOffsets c)
        else
          let (set, ops) := fpsControl moved c.currentExposure moved.currentExposure
          (set, .getBulkInAvgY :: lookOffsets c ++ ops ++ setexposure set set.currentExposure)

/-! ## Initialisation and ioctls -/

/-- `topro_TI_MaxExpo`. -/
def tiMaxExpo (c : Ctl) : Ctl :=
  { c with maxExposure := if c.dev.frequency = 50 then TI_MAX_EXPO_50 else TI_MAX_EXPO_60 }

/-- What the end of `topro_cam_init` and `VIDIOCSWIN` do about the exposure. -/
def restoreExposure (c : Ctl) : Ctl × List Op :=
  let (set, ops) := fpsControl c 0 c.currentExposure
  (set, ops ++ setexposure set set.currentExposure)

/-- `topro_cam_init`; `PWC_WB_AUTO` is 4. -/
def camInit (c : Ctl) : Ctl × List Op :=
  restoreExposure (tiMaxExpo { c with dev := { c.dev with
    frequency := 60, autoExposure := true, exposurelevel := 10, awbmode := 4
    imageQuality := 0x0f, motionYthrld := 0 } })

/-- What an ioctl does about the exposure. -/
def Ctl.ioctl (c : Ctl) (call : Call) : Ctl × List Op :=
  let c := { c with dev := (pwcIoctl c.dev call).dev }
  match call.cmd with
  | .VIDIOCSETEXPOSURE | .VIDIOCSETEXPOSURE_EX =>
      let (set, ops) := fpsControl c c.currentExposure call.arg.toInt
      (set, ops ++ setexposure set call.arg.toInt)
  | .VIDIOCSETEXPOSURELEVEL =>
      ({ c with
        flickerTolerance := 0, flickerLastDirect := 0, flickerCurrentDirect := 0
        flickerAllowTolerance := 10 }, [])
  | _ => (c, [])

end CameraFw.Pwc
