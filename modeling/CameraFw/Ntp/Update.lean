import CameraFw.Base.Bytes
import CameraFw.Dst.DaylightSaving

/-!
# The NTP client

`NTP_update` of `fntp.c`: up to three queries, and from the first reply that matches its query the new
time of the clock. `long` and `time_t` have 32 bits. What the C library computes in `double` is a
parameter.
-/

namespace CameraFw.Ntp

open CameraFw.Base CameraFw.Dst

inductive Ret where
  | TIMEOUT | GOOD_RESPONSE | BAD_PACKET | CONNECT_BAD | SYNC_OK | SYNC_ERROR
  deriving DecidableEq, Repr

structure Timeval where
  sec : Int
  usec : Int
  deriving DecidableEq, Repr

/-- The local offset `td`, cut into seconds and microseconds, and whether it is beyond 10000 seconds. -/
structure Offset where
  t : Timeval
  gross : Bool
  deriving DecidableEq, Repr

/-- The three computations in `double`. -/
structure Arith where
  usecOf : Nat → Nat
  fracOf : Int → Nat
  half : Timeval → Offset

/-- The same in exact arithmetic, with `NTP_OFFSET` as it is written. -/
def Arith.exact : Arith where
  usecOf n := n * 232830643654 / 10 ^ 15
  fracOf u := u.toNat * 10 ^ 15 / 232830643654
  half tx2 :=
    let n := tx2.sec * 1000000 + tx2.usec
    ⟨⟨n.tdiv 2000000, (n - n.tdiv 2000000 * 2000000).tdiv 2⟩, n > 20000000000 || n < -20000000000⟩

/-! ## Time values -/

/-- A 32-bit `long`. -/
def wrap (x : Int) : Int := x.bmod (2 ^ 32)

/-- What `tv_add` and `tv_sub` do with the sum and the difference of the fields. -/
def normalise (sec usec : Int) : Timeval :=
  let r : Timeval := if usec > 1000000 then ⟨wrap (sec + 1), usec - 1000000⟩ else ⟨sec, usec⟩
  if r.usec < 0 then ⟨wrap (r.sec - 1), r.usec + 1000000⟩ else r

def tvAdd (x1 x2 : Timeval) : Timeval := normalise (wrap (x1.sec + x2.sec)) (wrap (x1.usec + x2.usec))

def tvSub (x1 x2 : Timeval) : Timeval := normalise (wrap (x1.sec - x2.sec)) (wrap (x1.usec - x2.usec))

def endianFix (data : Nat) : Nat :=
  (data &&& 0x000000FF) <<< 24 + (data &&& 0x0000FF00) <<< 8 + (data &&& 0x00FF0000) >>> 8 +
    (data &&& 0xFF000000) >>> 24

def EPOCH_OFFSET : Nat := 0x83AA7E80

def ntp2timeval (ar : Arith) (ntp : List UInt8) : Timeval :=
  let sec := endianFix (le (load ntp 0 4))
  let usec := endianFix (le (load ntp 4 4))
  ⟨wrap ((sec - EPOCH_OFFSET : Int) % 2 ^ 32), wrap (ar.usecOf usec % 2 ^ 32 : Nat)⟩

def timeval2ntp (ar : Arith) (tv : Timeval) : List UInt8 :=
  let sec := ((tv.sec + EPOCH_OFFSET) % 2 ^ 32).toNat
  let usec := ar.fracOf tv.usec % 2 ^ 32
  toLE 4 (endianFix sec) ++ toLE 4 (endianFix usec)

/-! ## One exchange -/

inductive Select where
  | failed | timeout | ready
  deriving DecidableEq, Repr

/-- What the outside gives in one attempt: the clock when the query is built, the first `select` that no
signal interrupts, the clock then, the datagram (`none` where `recvfrom` fails), the clock before a fine
adjustment, whether `settimeofday` accepts, and the seconds until `SETRTCTIME` reads the clock. -/
structure Answer where
  sent : Timeval
  select : Select
  received : Timeval
  datagram : Option (List UInt8)
  now : Timeval
  setOk : Bool
  passed : Nat
  deriving DecidableEq, Repr

/-- The profile as the call has read it: `adjust_tz_time`, `tzone`, `dsav` and `port`. -/
structure Config where
  adjust : Int
  tzone : Fin 76
  dsav : Int
  port : Int
  deriving DecidableEq, Repr

/-- The globals of `fntp.c`, the queries sent and their port, the times that `settimeofday` has put into
the clock, and what `set_RTC_time` got. -/
structure Sntp where
  tx : List UInt8
  rx : List UInt8
  t1 : Timeval
  t2 : Timeval
  t3 : Timeval
  t4 : Timeval
  queries : List (Int × List UInt8)
  installed : List Timeval
  rtc : List (List UInt8)
  deriving DecidableEq, Repr

def clientVers : Nat := 3
def maxStratum : Nat := 15
def abortOnAlarm : Bool := false
def abortOnStratZero : Bool := false

/-- A clock reading less the zone offset. -/
def Config.utc (cfg : Config) (t : Timeval) : Timeval := ⟨wrap (t.sec - cfg.adjust), t.usec⟩

def sendQuery (ar : Arith) (cfg : Config) (a : Answer) (s : Sntp) : Sntp :=
  let t1 := cfg.utc a.sent
  let tx := store (List.replicate 48 0) 0 [UInt8.ofNat (clientVers <<< 3 ||| 0x03)]
  let tx := store (store tx 24 (timeval2ntp ar t1)) 40 (timeval2ntp ar t1)
  { s with t1, tx, queries := s.queries ++ [(cfg.port, tx)] }

def stratum (rx : List UInt8) : Nat := le (load rx 1 1)

def li (rx : List UInt8) : Nat := (le (load rx 0 1) &&& 0xc0) >>> 6

def getResponse (ar : Arith) (cfg : Config) (a : Answer) (s : Sntp) : Ret × Sntp :=
  let s := { s with t4 := cfg.utc a.received }
  match a.select with
  | .failed => (.CONNECT_BAD, s)
  | .timeout => (.TIMEOUT, s)
  | .ready =>
      match a.datagram with
      | none => (.BAD_PACKET, s)
      | some bytes =>
          let bytes := bytes.take 1024
          let s := { s with rx := store s.rx 0 bytes }
          if bytes.length < 48 then (.BAD_PACKET, s) else
          let s := { s with t2 := ntp2timeval ar (load s.rx 32 8), t3 := ntp2timeval ar (load s.rx 40 8) }
          if li s.rx = 3 ∧ abortOnAlarm then (.CONNECT_BAD, s)
          else if stratum s.rx = 0 ∧ abortOnStratZero then (.CONNECT_BAD, s)
          else if stratum s.rx > maxStratum then (.CONNECT_BAD, s)
          else (.GOOD_RESPONSE, s)

/-! ## The new time -/

def rtcYear (t : Int) : Bool := 2000 ≤ (localtime t).year + 1900 && (localtime t).year + 1900 < 2038

def convert (range : Int) : List UInt8 :=
  [UInt8.ofNat (range.tdiv 10).toNat, UInt8.ofNat (range.tmod 10).toNat]

/-- `SETRTCTIME`, where the clock reads `now`. -/
def setRtcTime (now : Int) (s : Sntp) : Ret × Sntp :=
  let tm := localtime now
  if tm.year + 1900 < 2000 ∨ tm.year + 1900 ≥ 2038 then (.SYNC_ERROR, s)
  else
    (.SYNC_OK, { s with
      rtc := s.rtc ++ [[2, 0, 0, 0] ++ convert tm.year ++ convert tm.mon ++ convert tm.mday ++
        convert tm.hour ++ convert tm.min ++ convert tm.sec] })

/-- The daylight hour on top of a time, if the profile wants it. -/
def Config.summer (cfg : Config) (t : Timeval) : Timeval :=
  if cfg.dsav ≠ 0 ∧ daylightSaving cfg.tzone t.sec ≠ 0 then ⟨wrap (t.sec + 3600), t.usec⟩ else t

/-- The time handed to `settimeofday`: the server's, if the clock is far out, or the clock corrected by
the offset. -/
def newTime (ar : Arith) (cfg : Config) (t1 t2 t3 t4 now : Timeval) : Timeval :=
  let off := ar.half (tvAdd (tvSub t2 t1) (tvSub t3 t4))
  if off.gross then cfg.summer ⟨wrap (t3.sec + cfg.adjust), t3.usec⟩ else cfg.summer (tvAdd now off.t)

/-- `settimeofday(…) || (SETRTCTIME() != SYNC_OK)`, negated. -/
def setClock (new : Timeval) (a : Answer) (s : Sntp) : Bool × Sntp :=
  if a.setOk then
    let s := { s with installed := s.installed ++ [new] }
    let (ret, s) := setRtcTime (wrap (new.sec + a.passed)) s
    (ret = .SYNC_OK, s)
  else (false, s)

inductive Attempt where
  | retry | failed | synced
  deriving DecidableEq, Repr

/-- The body of the loop, and the `result` it leaves. -/
def attempt (ar : Arith) (cfg : Config) (a : Answer) (s : Sntp) : Attempt × Ret × Sntp :=
  let (result, s) := getResponse ar cfg a (sendQuery ar cfg a s)
  if result ≠ .GOOD_RESPONSE then (.retry, result, s)
  else if load s.rx 24 8 ≠ load s.tx 24 8 then (.retry, result, s)
  else
    let new := newTime ar cfg s.t1 s.t2 s.t3 s.t4 a.now
    let tx2 := tvAdd (tvSub s.t2 s.t1) (tvSub s.t3 s.t4)
    -- the results go into `t2` and, in the gross adjustment, into `t3` itself
    let (ok, s) := setClock new a { s with t2 := tx2, t3 := if (ar.half tx2).gross then new else s.t3 }
    (if ok then .synced else .failed, result, s)

/-! ## The call -/

structure Outcome where
  ret : Ret
  /-- the number given to `AddLog` -/
  log : Nat
  st : Sntp
  deriving DecidableEq, Repr

def giveUp (result : Ret) (s : Sntp) : Outcome :=
  ⟨.SYNC_ERROR, if result = .CONNECT_BAD ∨ result = .TIMEOUT then 2 else 3, s⟩

def attempts (ar : Arith) (cfg : Config) : List Answer → Ret → Sntp → Outcome
  | [], result, s => giveUp result s
  | a :: as, _, s =>
      match attempt ar cfg a s with
      | (.retry, result, s) => attempts ar cfg as result s
      | (.failed, result, s) => giveUp result s
      | (.synced, _, s) => ⟨.SYNC_OK, 1, s⟩

/-- A call: the profile entries that are there, whether the name resolves and a socket can be had, and
what comes in each of the three attempts. -/
structure Call where
  zone : Option (Fin 76)
  daySaving : Option Int
  port : Option Int
  host : Bool
  socket : Bool
  answers : Fin 3 → Answer

/-- `get_ntp_port`. -/
def getNtpPort (entry : Option Int) : Int :=
  let port := entry.getD 123
  if port > 65535 ∨ (port < 1024 ∧ port ≠ 123) then 123 else port

/-- `get_timezone` and `get_daylightsaving`; without an entry for the zone the static `tzone` stays as
it was. -/
def Call.config (c : Call) (tzone : Fin 76) : Config where
  adjust := match c.zone with
    | some z => adjustTzTime z
    | none => 0
  tzone := c.zone.getD tzone
  dsav := c.daySaving.getD 0
  port := getNtpPort c.port

def ntpUpdate (ar : Arith) (c : Call) (tzone : Fin 76) (s : Sntp) : Outcome :=
  if !c.host then ⟨.SYNC_ERROR, 4, s⟩
  else if !c.socket then ⟨.SYNC_ERROR, 2, s⟩
  else attempts ar (c.config tzone) [c.answers 0, c.answers 1, c.answers 2] .TIMEOUT s

end CameraFw.Ntp
