import Mathlib.Logic.Function.Basic

/-!
# The brightness curve

`CalculateCBG` makes the table that the sensor's levels go through. It looks up a level for each of the
256 entries and then smooths the steps: between the beginnings of two runs of equal levels it draws a
line.
-/

namespace CameraFw.Pwc

/-! ## The tables -/

/-- `Ln_A_Table`: a logarithm and the value that belongs to it, in turn. -/
def lnATable : List Int := [
  -303, 968, -598, 938, -894, 909, -1189, 881, -1484, 854, -1780, 827, -2075, 802, -2371, 777, -2666,
  753, -2961, 729, -3257, 706, -3552, 684, -3847, 662, -4143, 642, -4438, 621, -4734, 602, -5029, 582,
  -5324, 564, -5620, 546, -5915, 528, -6210, 511, -6506, 495, -6801, 479, -7097, 463, -7392, 448, -7687,
  433, -7983, 419, -8278, 405, -8574, 392, -8869, 379, -9164, 366, -9460, 354, -9755, 342, -10050, 331,
  -10346, 319, -10641, 308, -10937, 298, -11232, 288, -11527, 278, -11823, 268, -12118, 258, -12413,
  249, -12709, 240, -13004, 232, -13300, 223, -13595, 215, -13890, 208, -14186, 200, -14481, 192,
  -14776, 185, -15072, 178, -15367, 171, -15663, 165, -15958, 158, -16253, 152, -16549, 146, -16844,
  140, -17140, 135, -17435, 129, -17730, 124, -18026, 118, -18321, 113, -18616, 108, -18912, 104,
  -19207, 99, -19503, 95, -19798, 90, -20093, 86, -20389, 82, -20684, 78, -20979, 74, -21275, 70,
  -21570, 66, -21866, 63, -22161, 59, -22456, 56, -22752, 53, -23047, 50, -23343, 47, -23638, 44,
  -23933, 41, -24229, 38, -24524, 35, -24819, 33, -25115, 30, -25410, 28, -25706, 25, -26001, 23,
  -26296, 21, -26592, 18, -26887, 16, -27182, 14, -27478, 12, -27773, 10, -28069, 8, -28364, 6, -28659,
  5, -28955, 3, -29250, 1, -29546, 0]

/-- `Ln256` -/
def ln256 : List Int := [
  -55452, -48519, -44465, -41588, -39356, -37533, -35992, -34656, -33478, -32425, -31472, -30602,
  -29801, -29060, -28370, -27725, -27119, -26547, -26006, -25493, -25006, -24540, -24096, -23670,
  -23262, -22870, -22493, -22129, -21778, -21439, -21111, -20793, -20486, -20187, -19897, -19616,
  -19342, -19075, -18815, -18562, -18315, -18074, -17839, -17609, -17384, -17165, -16950, -16739,
  -16533, -16330, -16132, -15938, -15747, -15561, -15377, -15197, -15020, -14846, -14675, -14507,
  -14342, -14179, -14019, -13862, -13707, -13554, -13404, -13256, -13110, -12966, -12824, -12684,
  -12546, -12410, -12276, -12144, -12013, -11884, -11757, -11631, -11507, -11384, -11263, -11143,
  -11025, -10908, -10792, -10678, -10565, -10453, -10342, -10232, -10124, -10017, -9912, -9807, -9703,
  -9601, -9499, -9399, -9299, -9201, -9103, -9007, -8911, -8816, -8722, -8629, -8537, -8446, -8355,
  -8266, -8177, -8089, -8001, -7915, -7829, -7744, -7660, -7576, -7493, -7411, -7329, -7248, -7168,
  -7088, -7009, -6931, -6853, -6776, -6699, -6623, -6547, -6473, -6398, -6324, -6251, -6178, -6106,
  -6035, -5963, -5893, -5823, -5753, -5684, -5615, -5547, -5479, -5412, -5345, -5278, -5212, -5147,
  -5082, -5017, -4953, -4889, -4825, -4762, -4699, -4637, -4575, -4514, -4452, -4392, -4331, -4271,
  -4211, -4152, -4093, -4034, -3976, -3918, -3860, -3803, -3746, -3690, -3633, -3577, -3521, -3466,
  -3411, -3356, -3302, -3247, -3193, -3140, -3087, -3033, -2981, -2928, -2876, -2824, -2772, -2721,
  -2670, -2619, -2568, -2518, -2468, -2418, -2368, -2319, -2270, -2221, -2172, -2124, -2075, -2028,
  -1980, -1932, -1885, -1838, -1791, -1744, -1698, -1652, -1606, -1560, -1515, -1469, -1424, -1379,
  -1334, -1290, -1246, -1201, -1157, -1114, -1070, -1027, -983, -940, -898, -855, -813, -770, -728,
  -686, -644, -603, -562, -520, -479, -438, -398, -357, -317, -276, -236, -196, -157, -117, -78, -38, 0]

/-! ## The levels -/

/-- The loop over the logarithms, with `j = 2 * k`. -/
def searchLn (lnA : Int) : Nat → Nat
  | 0 => 0
  | k + 1 => if lnATable.getD (2 * (k + 1)) 0 < lnA then searchLn lnA k else 2 * (k + 1)

/-- `G` as the loop uses it. -/
def gammaOf (brightness gamma : Int) : Int :=
  let b := min (max brightness 0) 100
  let g := min (max gamma 10) 30
  (1000 * 10000 : Int).tdiv (g * (50 + b))

/-- What is stored into `DataBuf[i]`. -/
def levelOf (contrast brightness gamma : Int) (i : Nat) : UInt8 :=
  let c := min (max contrast 0) 100
  let lnA := (ln256.getD i 0 * gammaOf brightness gamma).tdiv 10000
  let j := searchLn lnA 99
  let t := (lnATable.getD (j + 1) 0 * (50 + c) * 256).tdiv 1000
  let l := (t + 50).tdiv 100
  -- a `UCHAR` is never below 0, and the `max` that follows changes nothing
  UInt8.ofInt (min l 255)

/-- `DataBuf` and the byte behind it, which the smoothing may look at. -/
def dataBuf (behind : UInt8) (contrast brightness gamma : Int) (i : Nat) : UInt8 :=
  if i < 256 then levelOf contrast brightness gamma i else behind

/-! ## Smoothing -/

/-- The loop that looks for the end of the run; it reads `Src[pend]` and only then compares `pend` with
256. -/
def runEnd (src : Nat → UInt8) (pstart pend : Nat) : Nat :=
  if src pend = src pstart ∧ pend < 256 then runEnd src pstart (pend + 1) else pend
termination_by 256 - pend

/-- The point `j` entries behind `pstart` on the line. -/
def interpolate (src : Nat → UInt8) (pstart pend j : Nat) : UInt8 :=
  UInt8.ofInt ((src pstart).toNat + (((src pend).toNat - (src pstart).toNat) * j : Int).tdiv (pend - pstart))

/-- `Dst`; an entry is `none` until it is assigned. -/
abbrev Curve := Nat → Option UInt8

def Curve.put (dst : Curve) (i : Nat) (b : UInt8) : Curve := Function.update dst i (some b)

/-- `for (j = first; j < first + n; j++) Dst[j] = f(j)` -/
def Curve.fill (dst : Curve) (f : Nat → UInt8) (first n : Nat) : Curve :=
  (List.range' first n).foldl (fun d j => d.put j (f j)) dst

/-- A pass that has found the end of the run in front of the end of the table. -/
def drawRun (src : Nat → UInt8) (dst : Curve) (pstart pend : Nat) : Curve :=
  let dst := dst.put pstart (src pstart)
  let dst :=
    if pend ≠ pstart + 1 then
      dst.fill (fun i => interpolate src pstart pend (i - pstart)) (pstart + 1) (pend - pstart)
    else dst
  dst.put pend (src pend)

theorem le_runEnd (src : Nat → UInt8) (pstart pend : Nat) : pend ≤ runEnd src pstart pend := by
  fun_induction runEnd src pstart pend with
  | case1 pend _ ih => omega
  | case2 pend _ => exact Nat.le_refl _

/-- The smoothing loop. -/
def smooth (src : Nat → UInt8) (dst : Curve) (pstart pend : Nat) : Curve :=
  if pend < 255 then
    let stop := runEnd src pstart pend
    if stop < 256 then smooth src (drawRun src dst pstart stop) stop (stop + 1)
    else smooth src (dst.fill src pstart (256 - pstart)) pstart stop
  else dst
termination_by 256 - pend
decreasing_by
  all_goals
    have := le_runEnd src pstart pend
    omega

def calculateCBG (behind : UInt8) (contrast brightness gamma : Int) : Curve :=
  smooth (dataBuf behind contrast brightness gamma) (fun _ => none) 0 1

/-! ## What a smoothed curve is -/

/-- From `s` up to `e` stands one value, and at both ends begins another one or the table ends. -/
structure IsRun (src : Nat → UInt8) (s e : Nat) : Prop where
  lt : s < e
  le : e ≤ 256
  first : s = 0 ∨ src (s - 1) ≠ src s
  same : ∀ k, s ≤ k → k < e → src k = src s
  last : e = 256 ∨ src e ≠ src s

structure Smoothed (src : Nat → UInt8) (dst : Curve) : Prop where
  assigned : ∀ i, (dst i).isSome ↔ i < 256
  nondecreasing : ∀ i j a b, i ≤ j → dst i = some a → dst j = some b → a ≤ b
  first : ∀ s e, IsRun src s e → dst s = some (src s)
  range : ∀ s e i b, IsRun src s e → s ≤ i → i < e → dst i = some b →
    src s ≤ b ∧ b ≤ if e < 256 then src e else src s

end CameraFw.Pwc
