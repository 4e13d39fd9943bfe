import CameraFw.Base.Loop
import CameraFw.Dst.DaylightSaving

/-!
# Who moves the clock

`cron` and `NTP_update` keep the system clock at standard local time, or one hour ahead of it when
daylight saving is on. `cron` remembers in the profile entry `summer_chg` whether it has put the hour
into the clock; `NTP_update` puts it there on its own. An iteration of the `cron` loop and a call of
`NTP_update` are one step each; sub-second parts of the time are left out.
-/

namespace CameraFw.Dst

open CameraFw.Base

/-- The clocks of the device, beside the true standard local time. The profile entry may not be there. -/
structure Sys where
  std : Int
  clock : Int
  rtc : Int
  summerChg : Option Int
  deriving DecidableEq, Repr

def Sys.tick (s : Sys) (n : Nat) : Sys := { s with std := s.std + n, clock := s.clock + n, rtc := s.rtc + n }

def Sys.stime (s : Sys) (t : Int) : Sys := { s with clock := t }

/-- `set_rtc`: the battery-backed clock takes over what the system clock shows. -/
def Sys.setRtc (s : Sys) : Sys := { s with rtc := s.clock }

/-! ## `cron` -/

/-- What `PRO_GetInt` gives for `summer_chg`; an entry that is not there counts as 0. -/
def Sys.dsv (s : Sys) : Int := s.summerChg.getD 0

def startUp (tzone : Fin 76) (s : Sys) : Sys := { s with summerChg := some (daylightSaving tzone s.clock) }

/-- The daylight check at the top of the loop, up to which `e` seconds pass after the time has been read. -/
def checkDaylight (tzone : Fin 76) (s : Sys) (e : Nat) : Sys :=
  if daylightSaving tzone s.clock ≠ s.dsv then
    let stm := mktime (localtime (s.tick e).clock)
    if s.dsv ≠ 0 then { ((s.tick e).stime (stm - 3600)).setRtc with summerChg := some 0 }
    else { ((s.tick e).stime (stm + 3600)).setRtc with summerChg := some 1 }
  else s.tick e

def catchUp : Nat → Int → Int → Option Int
  | 0, _, _ => none
  | fuel + 1, target, now => if target - now > 0 then some (target - now) else catchUp fuel (target + 60) now

structure Wake where
  checked : Int
  now : Int
  delay : Int
  deriving DecidableEq, Repr

/-- One iteration of the loop; `e₁` and `e₂` seconds pass before and after the clock is moved. The
target moves on in each round, so that the rounds are enough (`catchUp_eq`). -/
def iteration (tzone : Fin 76) (dSav : Bool) (s : Sys) (e₁ e₂ : Nat) : Option Wake :=
  let t := s.clock
  let s := if dSav then checkDaylight tzone s e₁ else s.tick e₁
  let target := t + 60 - (localtime t).sec
  let now := (s.tick e₂).clock
  (catchUp ((now - target + 1).toNat + 1) target now).map fun delay => ⟨t, now, delay⟩

/-! ## `NTP_update` -/

/-- What `NTP_update` sets the clock to, with an exact measurement: the local offset `td` is taken
against the clock less the zone offset, and decides between the gross and the fine adjustment. -/
def ntpTime (tzone : Fin 76) (dsav : Bool) (utc clock : Int) : Int :=
  let td := utc - (clock - adjustTzTime tzone)
  if td > 10000 ∨ td < -10000 then
    let t3 := utc + adjustTzTime tzone
    if dsav ∧ daylightSaving tzone t3 ≠ 0 then t3 + 3600 else t3
  else
    let new := clock + td
    if dsav ∧ daylightSaving tzone new ≠ 0 then new + 3600 else new

/-- `SETRTCTIME`, which refuses years that do not fit. -/
def Sys.setRtcTime (s : Sys) : Sys :=
  if (localtime s.clock).year + 1900 < 2000 ∨ (localtime s.clock).year + 1900 ≥ 2038 then s else s.setRtc

def ntpUpdate (tzone : Fin 76) (s : Sys) : Sys :=
  (s.stime (ntpTime tzone true (s.std - adjustTzTime tzone) s.clock)).setRtcTime

/-! ## Runs -/

inductive Event where
  | tick (n : Nat)
  | cron (e : Nat)
  | ntp
  deriving DecidableEq, Repr

def step (tzone : Fin 76) (s : Sys) : Event → Option Sys
  | .tick n => some (s.tick n)
  | .cron e => some (checkDaylight tzone s e)
  | .ntp => some (ntpUpdate tzone s)

/-- What can happen over the life of the device: `cron` goes on, the device is off for `n` seconds and
takes the clock from the battery-backed one, `cron` starts and comes to its loop after `g` seconds. -/
inductive LifeEvent where
  | tick (n : Nat)
  | cron (e : Nat)
  | off (n : Nat)
  | start (g e : Nat)
  deriving DecidableEq, Repr

def firstIteration (tzone : Fin 76) (s : Sys) (g e : Nat) : Sys :=
  checkDaylight tzone ((startUp tzone s).tick g) e

def lifeStep (tzone : Fin 76) (s : Sys) : LifeEvent → Option Sys
  | .tick n => some (s.tick n)
  | .cron e => some (checkDaylight tzone s e)
  | .off n => some { (s.tick n) with clock := (s.tick n).rtc }
  | .start g e => some (firstIteration tzone s g e)

end CameraFw.Dst
