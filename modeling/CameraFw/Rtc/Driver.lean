import Mathlib

/-!
# The real-time clock

The driver `rtc.c` of the timer block, with `mktime` of the kernel. The clock is a counter of seconds
since 1970 in a 32-bit register; the fields of `struct rtc_time`, `int` and `unsigned` alike, are 32-bit
words, and years count from `epoch`. The table `month_days` of `to_tm` is static, so it is part of the
state.
-/

namespace CameraFw.Rtc

def EACCES : Int := 13
def EFAULT : Int := 14
def EINVAL : Int := 22

/-- `struct rtc_time`; the driver does not use its last two fields. -/
structure RtcTime where
  tm_sec : BitVec 32
  tm_min : BitVec 32
  tm_hour : BitVec 32
  tm_mday : BitVec 32
  tm_mon : BitVec 32
  tm_year : BitVec 32
  tm_wday : BitVec 32
  deriving DecidableEq, Repr

/-! ## From the counter to the date -/

def STARTOFTIME : Nat := 1970
def SECDAY : Nat := 86400

def leapyear (year : Nat) : Bool := year % 4 = 0

def daysInYear (a : Nat) : Nat := if leapyear a then 366 else 365

theorem daysInYear_pos (a : Nat) : 0 < daysInYear a := by
  unfold daysInYear
  split <;> omega

/-- The first loop of `to_tm`: the year, and the days that are left. -/
def years (i day : Nat) : Nat × Nat :=
  if daysInYear i ≤ day then years (i + 1) (day - daysInYear i) else (i, day)
termination_by day
decreasing_by
  have := daysInYear_pos i
  omega

/-- The second loop, over the rest of the table. -/
def months : List Nat → Nat → Nat → Nat × Nat
  | [], i, day => (i, day)
  | days :: rest, i, day => if days ≤ day then months rest (i + 1) (day - days) else (i, day)

def FEBRUARY : Nat := 2

def monthDays : List Nat := [31, 28, 31, 30, 31, 30, 31, 31, 30, 31, 30, 31]

/-- `to_tm` with the table as it is before and after. -/
def toTm (table : List Nat) (tim : BitVec 32) : RtcTime × List Nat :=
  let day := tim.toNat / SECDAY
  let hms := tim.toNat % SECDAY
  let (year, day) := years STARTOFTIME day
  let table := if leapyear year then table.set (FEBRUARY - 1) 29 else table
  let (mon, day) := months table 1 day
  ({ tm_sec := .ofNat 32 (hms % 3600 % 60), tm_min := .ofNat 32 (hms % 3600 / 60)
     tm_hour := .ofNat 32 (hms / 3600)
     tm_mday := .ofNat 32 (day + 1), tm_mon := .ofNat 32 mon, tm_year := .ofNat 32 year
     tm_wday := .ofNat 32 ((day + 3) % 7) },
    table.set (FEBRUARY - 1) 28)

/-! ## From the date to the counter -/

def mktime (year mon day hour min sec : BitVec 32) : BitVec 32 :=
  -- March is the first month of the year, so that the leap day is the last day
  let early := (mon - 2).toInt ≤ 0
  let mon := if early then mon - 2 + 12 else mon - 2
  let year := if early then year - 1 else year
  (((year / 4 - year / 100 + year / 400 + 367 * mon / 12 + day + year * 365 - 719499) * 24 + hour) * 60 +
    min) * 60 + sec

def daysInMo : List Nat := [0, 31, 28, 31, 30, 31, 30, 31, 31, 30, 31, 30, 31]

/-- A value that has been stored in a variable of `w` bits. -/
def narrow (w : Nat) (x : BitVec 32) : BitVec 32 := (x.setWidth w).setWidth 32

/-- The checks of `rtc_set_time` and `rtc_set_alm_time`, which have `w`-bit variables for all but the
year, and the seconds they get; `none` is -EINVAL. -/
def checkedTime (w : Nat) (epoch : BitVec 32) (tm : RtcTime) : Option (BitVec 32) :=
  let yrs := tm.tm_year + epoch
  let mon := narrow w (tm.tm_mon + 1)
  let day := narrow w tm.tm_mday
  let hrs := narrow w tm.tm_hour
  let min := narrow w tm.tm_min
  let sec := narrow w tm.tm_sec
  let leapYr := (yrs % 4 = 0 ∧ yrs % 100 ≠ 0) ∨ yrs % 400 = 0
  if yrs < 1970 then none
  else if mon > 12 ∨ day = 0 then none
  else if day.toNat > daysInMo.getD mon.toNat 0 + (if mon = 2 ∧ leapYr then 1 else 0) then none
  else if hrs ≥ 24 ∨ min ≥ 60 ∨ sec ≥ 60 then none
  else if yrs - epoch > 255 then none
  else some (mktime yrs mon day hrs min sec)

/-! ## The driver -/

/-- The registers and the static variables. -/
structure Driver where
  rRTC : BitVec 32
  rALM_0 : BitVec 32
  epoch : BitVec 32
  month_days : List Nat
  deriving DecidableEq, Repr

/-- `to_tm` with the corrections of the caller. -/
def readTime (rtc : Driver) (tim : BitVec 32) : RtcTime × Driver :=
  let (tm, table) := toTm rtc.month_days tim
  ({ tm with tm_year := tm.tm_year - rtc.epoch, tm_mon := tm.tm_mon - 1 }, { rtc with month_days := table })

def rtcGetTime (rtc : Driver) : RtcTime × Driver := readTime rtc rtc.rRTC

/-- The alarm register is read as a halfword. -/
def rtcGetAlmTime (rtc : Driver) : RtcTime × Driver := readTime rtc (narrow 16 rtc.rALM_0)

def rtcSetTime (rtc : Driver) (tm : RtcTime) : Int × Driver :=
  match checkedTime 8 rtc.epoch tm with
  | none => (-EINVAL, rtc)
  | some nowtime => (0, { rtc with rRTC := nowtime })

def rtcSetAlmTime (rtc : Driver) (tm : RtcTime) : Int × Driver :=
  match checkedTime 32 rtc.epoch tm with
  | none => (-EINVAL, rtc)
  | some almtime => (0, { rtc with rALM_0 := almtime })

/-- The commands of `rtc_ioctl`, with the argument as `copy_from_user` gets it, whether the process may
set the time, and whether `copy_to_user` succeeds. The rest either only switches the interrupt or is
refused. -/
inductive Cmd where
  | RTC_ALM_READ (copied : Bool)
  | RTC_ALM_SET (arg : Option RtcTime)
  | RTC_RD_TIME (copied : Bool)
  | RTC_SET_TIME (capable : Bool) (arg : Option RtcTime)
  | RTC_EPOCH_READ (copied : Bool)
  | RTC_EPOCH_SET (capable : Bool) (arg : BitVec 32)
  | RTC_AIE
  | unsupported

/-- What the caller gets. -/
inductive Out where
  | nothing
  | time (tm : RtcTime)
  | epoch (e : BitVec 32)
  deriving DecidableEq, Repr

def rtcIoctl (rtc : Driver) : Cmd → Int × Out × Driver
  | .RTC_ALM_READ copied =>
      let (wtime, rtc) := rtcGetAlmTime rtc
      if copied then (0, .time wtime, rtc) else (-EFAULT, .nothing, rtc)
  | .RTC_ALM_SET none => (-EFAULT, .nothing, rtc)
  | .RTC_ALM_SET (some tm) => ((rtcSetAlmTime rtc tm).1, .nothing, (rtcSetAlmTime rtc tm).2)
  | .RTC_RD_TIME copied =>
      let (wtime, rtc) := rtcGetTime rtc
      if copied then (0, .time wtime, rtc) else (-EFAULT, .nothing, rtc)
  | .RTC_SET_TIME false _ => (-EACCES, .nothing, rtc)
  | .RTC_SET_TIME true none => (-EFAULT, .nothing, rtc)
  | .RTC_SET_TIME true (some tm) => ((rtcSetTime rtc tm).1, .nothing, (rtcSetTime rtc tm).2)
  | .RTC_EPOCH_READ copied => if copied then (0, .epoch rtc.epoch, rtc) else (-EFAULT, .nothing, rtc)
  | .RTC_EPOCH_SET capable arg =>
      if arg < 1900 then (-EINVAL, .nothing, rtc)
      else if !capable then (-EACCES, .nothing, rtc)
      else (0, .nothing, { rtc with epoch := arg })
  | .RTC_AIE => (0, .nothing, rtc)
  | .unsupported => (-EINVAL, .nothing, rtc)

/-- A call, or a second that passes. -/
inductive Event where
  | ioctl (cmd : Cmd)
  | tick

def step (rtc : Driver) : Event → Driver
  | .ioctl cmd => (rtcIoctl rtc cmd).2.2
  | .tick => { rtc with rRTC := rtc.rRTC + 1 }

/-- The driver when it is loaded; the registers hold what they held. -/
def load (rRTC rALM_0 : BitVec 32) : Driver := ⟨rRTC, rALM_0, 1900, monthDays⟩

end CameraFw.Rtc
