import CameraFw.Pwc.Exposure

/-!
# Automatic white balance

`topro_autowhitebalance`, `AdjustGainData` and `CheckGainData` of `pwc-ctrl.c`.
-/

namespace CameraFw.Pwc

def CHK_GAIN_WT : Nat := 5

/-- The averages that `GetBulkAvgRGB` stores, a byte each. -/
structure Rgb where
  r : BitVec 8
  g : BitVec 8
  b : BitVec 8
  deriving DecidableEq, Repr

/-- The variables of the white balance; the gains are bytes. -/
structure Balance where
  autoWhiteBalance : Bool
  frameSkipCount : Int
  factorR : Int
  factorB : Int
  gainR : Nat
  gainB : Nat
  deriving DecidableEq, Repr

def Balance.loaded : Balance := ⟨false, 0, 0, 0, 0x40, 0x40⟩

/-- One factor against green, by at most `most` where the colour is far away. -/
def moveFactor (most factor acc accG : Int) : Int :=
  if 2 < |acc - accG| then
    if acc > accG then
      if acc > accG + 20 then max (-63) (factor - min (acc - accG) most) else factor - 1
    else if acc < accG - 20 then min 190 (factor + min (accG - acc) most)
    else factor + 1
  else factor

def clampFactor (factor : Int) : Int := min 190 (max (-63) factor)

/-- The conversion to `unsigned char`. -/
def byte (x : Int) : Nat := (x % 256).toNat

/-- `CheckGainData`; `target` is its `Calc`. -/
def checkGainData (target modifyRecord : Nat) : Nat :=
  if target > modifyRecord then min target (min (modifyRecord + CHK_GAIN_WT) 255)
  else max target (modifyRecord - CHK_GAIN_WT)

def adjustGainData (c : Ctl) (dat : Nat) : Nat :=
  min 0xff (dat * 0x80 / 0x40 * getAWBGainWei c.dev.frequency c.currentExposure / 100)

/-- The part behind `GetBulkAvgRGB`: factors and recorded gains. -/
def Balance.update (w : Balance) (avg : Rgb) : Balance :=
  let accR : Int := avg.r.toNat
  let accG : Int := avg.g.toNat
  let accB : Int := avg.b.toNat - 1
  let factorR := clampFactor (moveFactor 4 w.factorR accR accG)
  let factorB := clampFactor (moveFactor 6 w.factorB accB accG)
  { w with
    factorR := factorR, factorB := factorB
    gainR := checkGainData (byte (0x40 + factorR)) w.gainR
    gainB := checkGainData (byte (0x40 + factorB)) w.gainB }

/-- The gains for the camera; `AdjustGainData` reads the table for each colour. -/
def gainWrites (c : Ctl) (w : Balance) : List Op :=
  let l := look c.dev.frequency c.currentExposure
  l ++ l ++ l ++ [.writeReg .AWB_RGAIN (adjustGainData c w.gainR),
    .writeReg .AWB_GGAIN (adjustGainData c 0x40), .writeReg .AWB_BGAIN (adjustGainData c w.gainB)]

def Balance.begin (w : Balance) : Balance := { w with frameSkipCount := int32 (w.frameSkipCount + 1) }

def Balance.Due (w : Balance) : Prop := w.frameSkipCount.tmod 10 = 0

instance (w : Balance) : Decidable w.Due := inferInstanceAs (Decidable (_ = _))

/-- `topro_autowhitebalance`, where `GetBulkAvgRGB` stores `avg`. -/
def autowhitebalance (c : Ctl) (w : Balance) (avg : Rgb) : Balance × List Op :=
  if w.autoWhiteBalance = false then (w, [])
  else
    let w := w.begin
    if ¬w.Due then (w, [])
    else
      let w := w.update avg
      (w, .getBulkAvgRGB :: gainWrites c w)

/-- What `VIDIOCPWCSAWB` does about the white balance, whether or not it then takes the mode. -/
def Balance.ioctl (w : Balance) (d : Dev) (call : Call) : Balance :=
  match call.cmd, call.ans.fromUser with
  | .VIDIOCPWCSAWB, some mode =>
      if mode ≠ d.awbmode then { w with factorR := 0, factorB := 0, gainR := 0x40, gainB := 0x40 } else w
  | _, _ => w

end CameraFw.Pwc
