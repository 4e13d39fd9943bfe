import CameraFw.Base.Calendar

/-!
# The daylight rules

`TimeZone` and `daylight_saving`, which `cron.c` and `fntp.c` have word for word alike. No program sets
a time zone for the C library, so that `localtime` is the plain breakdown of the counter it is given.
-/

namespace CameraFw.Dst

open CameraFw.Base

def localtime (t : Int) : Tm := gmtime t

def mktime (tm : Tm) : Int := timegm tm

inductive DstRegion where
  | NEEDNOT_DST | NA_DST | EU_DST | CHILE_DST | SA_DST | IRAQ_DST | AU2_DST | AU3_DST | AF_DST | AU_DST
  deriving DecidableEq, Repr

structure TzS where
  num : Int
  dst : DstRegion
  deriving DecidableEq, Repr

def timeZoneTable : List TzS :=
  [⟨-48, .NEEDNOT_DST⟩, ⟨-44, .NEEDNOT_DST⟩, ⟨-40, .NEEDNOT_DST⟩, ⟨-36, .NA_DST⟩, ⟨-32, .NA_DST⟩,
    ⟨-28, .NEEDNOT_DST⟩, ⟨-28, .NA_DST⟩, ⟨-28, .NA_DST⟩, ⟨-24, .NEEDNOT_DST⟩, ⟨-24, .NA_DST⟩, ⟨-24, .NA_DST⟩,
    ⟨-24, .NEEDNOT_DST⟩, ⟨-20, .NEEDNOT_DST⟩, ⟨-20, .NA_DST⟩, ⟨-20, .NEEDNOT_DST⟩, ⟨-16, .NA_DST⟩,
    ⟨-16, .NEEDNOT_DST⟩, ⟨-16, .CHILE_DST⟩, ⟨-14, .NA_DST⟩, ⟨-12, .SA_DST⟩, ⟨-12, .NEEDNOT_DST⟩,
    ⟨-12, .EU_DST⟩, ⟨-8, .EU_DST⟩, ⟨-4, .EU_DST⟩, ⟨-4, .NEEDNOT_DST⟩, ⟨0, .NEEDNOT_DST⟩, ⟨0, .EU_DST⟩,
    ⟨4, .EU_DST⟩, ⟨4, .EU_DST⟩, ⟨4, .EU_DST⟩, ⟨4, .EU_DST⟩, ⟨4, .NEEDNOT_DST⟩, ⟨8, .EU_DST⟩, ⟨8, .EU_DST⟩,
    ⟨8, .AF_DST⟩, ⟨8, .NEEDNOT_DST⟩, ⟨8, .EU_DST⟩, ⟨8, .NEEDNOT_DST⟩, ⟨12, .IRAQ_DST⟩, ⟨12, .NEEDNOT_DST⟩,
    ⟨12, .EU_DST⟩, ⟨12, .NEEDNOT_DST⟩, ⟨14, .IRAQ_DST⟩, ⟨16, .NEEDNOT_DST⟩, ⟨16, .EU_DST⟩, ⟨18, .NEEDNOT_DST⟩,
    ⟨20, .EU_DST⟩, ⟨20, .NEEDNOT_DST⟩, ⟨22, .NEEDNOT_DST⟩, ⟨23, .NEEDNOT_DST⟩, ⟨24, .EU_DST⟩,
    ⟨24, .NEEDNOT_DST⟩, ⟨24, .NEEDNOT_DST⟩, ⟨26, .NEEDNOT_DST⟩, ⟨28, .NEEDNOT_DST⟩, ⟨28, .EU_DST⟩,
    ⟨32, .NEEDNOT_DST⟩, ⟨32, .EU_DST⟩, ⟨32, .NEEDNOT_DST⟩, ⟨32, .NEEDNOT_DST⟩, ⟨32, .NEEDNOT_DST⟩,
    ⟨36, .NEEDNOT_DST⟩, ⟨36, .NEEDNOT_DST⟩, ⟨36, .EU_DST⟩, ⟨38, .AU_DST⟩, ⟨38, .NEEDNOT_DST⟩,
    ⟨40, .NEEDNOT_DST⟩, ⟨40, .NEEDNOT_DST⟩, ⟨40, .NEEDNOT_DST⟩, ⟨40, .AU2_DST⟩, ⟨40, .EU_DST⟩,
    ⟨44, .NEEDNOT_DST⟩, ⟨48, .AU3_DST⟩, ⟨48, .NEEDNOT_DST⟩, ⟨52, .NEEDNOT_DST⟩, ⟨-18, .NEEDNOT_DST⟩]

def timeZone (tzone : Fin 76) : TzS := timeZoneTable.get tzone

/-- `(time_t)(TimeZone[tzone].num*3600)`. -/
def adjustTzTime (tzone : Fin 76) : Int := (timeZone tzone).num * 900

/-! ## The first and the last day -/

def isLeapYear (y : Int) : Int :=
  if (y.tmod 4 = 0 ∧ y.tmod 100 ≠ 0) ∨ (y.tmod 100 = 0 ∧ y.tmod 400 = 0) then 1 else 0

/-- `startDay`, which the switch leaves unset for a zone without a rule. -/
def startDay (region : DstRegion) (y : Int) : Int :=
  match region with
  | .NA_DST => 72 + isLeapYear y - (y - 2002 + (y - 2004).tdiv 4 - 2).tmod 7
  | .EU_DST => 90 + isLeapYear y - (y - 2002 + (y - 2000).tdiv 4).tmod 7
  | .AU_DST => 304 - (y - 1999 + (y - 1996).tdiv 4).tmod 7
  | .CHILE_DST => 287 - (y - 2000 + (y - 2000).tdiv 4).tmod 7
  | .SA_DST => 311 - (y - 2004 + (y - 2004).tdiv 4).tmod 7
  | .AF_DST => 120 - (y - 2004 + (y - 2004).tdiv 4).tmod 7
  | .IRAQ_DST => if y.tmod 4 ≠ 0 then 91 else 92
  | .AU2_DST => 280 - (y - 2001 + (y - 2000).tdiv 4).tmod 7
  | .AU3_DST => 280 - (y - 2001 + (y - 2000).tdiv 4).tmod 7
  | .NEEDNOT_DST => 0

def endDay (region : DstRegion) (y : Int) : Int :=
  match region with
  | .NA_DST => 309 + isLeapYear y - (y - 2002 + (y - 2004).tdiv 4 - 2).tmod 7
  | .EU_DST => 304 + isLeapYear y - (y - 1999 + (y - 1996).tdiv 4).tmod 7
  | .AU_DST => 90 - (y - 2002 + (y - 2000).tdiv 4).tmod 7
  | .CHILE_DST => 73 - (y - 1998 + (y - 1996).tdiv 4).tmod 7
  | .SA_DST => 52 - (y - 1999 + (y - 1996).tdiv 4).tmod 7
  | .AF_DST => 273 - (y - 2004 + (y - 2004).tdiv 4).tmod 7
  | .IRAQ_DST => if y.tmod 4 ≠ 0 then 274 else 275
  | .AU2_DST => 90 - (y - 2002 + (y - 2000).tdiv 4).tmod 7
  | .AU3_DST => 80 - (y - 1999 + (y - 1996).tdiv 4).tmod 7
  | .NEEDNOT_DST => 0

/-! ## The flag -/

def auDay (region : DstRegion) (y d : Int) : Int :=
  let d := if y = 2006 then (if region = .AU_DST then d + 1 + 2 else d + 1) else d
  if y = 2007 ∧ d + 2 > endDay region y then d + 1 else d

/-- The first and the last day of the North American rule, after the years that have their own. -/
def naStart (y : Int) : Int := if y = 2005 then 92 else if y = 2006 then 91 else startDay .NA_DST y
def naEnd (y : Int) : Int := if y = 2005 then 302 else if y = 2006 then 301 else endDay .NA_DST y + 1

def bSaveFlag (region : DstRegion) (y d h : Int) : Int :=
  match region with
  | .AU_DST | .AU2_DST | .AU3_DST =>
      if auDay region y d ≥ startDay region y ∨ auDay region y d ≤ endDay region y then 1 else 0
  | .IRAQ_DST | .AF_DST | .SA_DST | .CHILE_DST =>
      if d ≥ startDay region y - 1 ∧ d ≤ endDay region y - 1 then 1 else 0
  | .EU_DST =>
      if d ≥ startDay region y - 1 ∧ d ≤ endDay region y - 1 then
        if (d = startDay region y - 1 ∧ h < 1) ∨ (d = endDay region y - 1 ∧ h ≥ 1) then 0 else 1
      else 0
  | .NA_DST =>
      if d ≥ naStart y ∧ d ≤ naEnd y then
        if (d = naStart y ∧ h < 2) ∨ (d = naEnd y ∧ h ≥ 2) then 0 else 1
      else 0
  | .NEEDNOT_DST => 0

def daylightSaving (tzone : Fin 76) (time : Int) : Int :=
  let st := localtime time
  bSaveFlag (timeZone tzone).dst (1900 + st.year) st.yday st.hour

theorem bSaveFlag_zero_or_one (region : DstRegion) (y d h : Int) :
    bSaveFlag region y d h = 0 ∨ bSaveFlag region y d h = 1 := by
  cases region <;> simp only [bSaveFlag] <;> (try split) <;> (try split) <;> simp

theorem daylightSaving_zero_or_one (tzone : Fin 76) (t : Int) :
    daylightSaving tzone t = 0 ∨ daylightSaving tzone t = 1 := bSaveFlag_zero_or_one _ _ _ _

theorem mktime_localtime (t : Int) : mktime (localtime t) = t := timegm_gmtime t

end CameraFw.Dst
