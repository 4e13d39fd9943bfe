import CameraFw.Base.Bytes
import CameraFw.Base.CString
import CameraFw.Base.Loop

/-!
# The TLS proxy

`transfer` of `stunnel/src/client.c`, which moves bytes between a TLS client and the web server, with
the passage that puts a line with the address of the client into an HTTP request. One round of its main
loop reads the answers of one `Round`. Pointers are offsets from `ssl_buff`; the counters for the log
are left out.
-/

namespace CameraFw.Proxy

open CameraFw.Base

def BUFFSIZE : Nat := 16384

inductive Closing where
  | CL_OPEN | CL_INIT | CL_RETRY | CL_CLOSED
  deriving DecidableEq, Repr

/-- What the C library and the kernel know about a connection: the text `host:port` that `s_ntop` makes
of the peer's address, the address of `ssl_buff`, and the memory behind `ssl_buff` and `sock_ptr`. -/
structure Conn where
  ntop : List UInt8
  base : Nat
  above : List UInt8
  colon : 58 ∈ ntop
  short : ntop.length < 128
  pos : 0 < base
  user : base + 2 ^ 30 ≤ 2 ^ 32
  room : base + BUFFSIZE + 4 + above.length ≤ 2 ^ 32

/-- The way from the client to the web server. `sslBuff` is `ssl_buff` as far as it has ever been
written, the rest of it is zero. `received` is what `SSL_read` has delivered, `sent` what the web server
has got. -/
structure Up where
  sslBuff : List UInt8
  sslPtr : Int
  isHttp : Option Bool
  spaceCnt : Nat
  hdrSent : Bool
  received : List UInt8
  sent : List UInt8
  deriving DecidableEq, Repr

structure Cli where
  up : Up
  sockBuff : List UInt8
  sockPtr : Nat
  sockRd : Bool
  sockWr : Bool
  sslRd : Bool
  sslWr : Bool
  closing : Closing
  watchdog : Nat
  deriving DecidableEq, Repr

inductive Code where
  | ret (n : Int)
  | fault
  deriving DecidableEq, Repr

structure Exit where
  code : Code
  cli : Cli
  deriving DecidableEq, Repr

/-! ## What the calls answer -/

/-- A non-blocking `write`: it takes some of the bytes, or fails with an error that `parse_socket_error`
retries, or with another one. -/
inductive Wr where
  | took (n : Nat)
  | again
  | failed
  deriving DecidableEq, Repr

inductive Rd where
  | got (bytes : List UInt8)
  | closed
  | again
  | failed
  deriving DecidableEq, Repr

inductive SslWr where
  | took (n : Nat)
  | want
  | syscall (zero : Bool) (fatal : Bool)
  | closed
  | fatal
  deriving DecidableEq, Repr

inductive SslRd where
  | got (bytes : List UInt8)
  | want
  | eof
  | syscall (fatal : Bool)
  | closed
  | fatal
  deriving DecidableEq, Repr

structure Want where
  rd : Bool
  wr : Bool
  deriving DecidableEq, Repr

/-- The answers in one round: `poll` and its events, `SSL_want_*` each time it is asked, and the calls
in their order. `write1` is the only write to the web server unless the line is put in. -/
structure Round where
  poll : Int
  sockRd : Bool
  sockWr : Bool
  sslRd : Bool
  sslWr : Bool
  wantSetup : Want
  wantNotify : Want
  wantWrite : Want
  wantRead : Want
  wantEnd : Want
  notify : Int
  write1 : Wr
  header : Wr
  write2 : Wr
  sslWrite : SslWr
  read : Rd
  pending : Bool
  sslRead : SslRd
  shutdown : Bool
  sslv2 : Bool
  deriving DecidableEq, Repr

/-! ## Finding the end of the request line -/

/-- The memory from `ssl_buff` on; behind the buffer comes the variable `sock_ptr`. -/
def mem (c : Conn) (sockPtr : Nat) (u : Up) : List UInt8 :=
  u.sslBuff ++ (List.replicate (BUFFSIZE - u.sslBuff.length) 0 ++ (toLE 4 sockPtr ++ c.above))

/-- The loop over `strchr`: `.inr` the place behind the last of the spaces, or `.inl` how many are missing. -/
def scanSpaces (m : List UInt8) (sslPtr : Int) : Nat → Nat → Nat ⊕ Nat
  | 0, space => .inr space
  | missing + 1, space =>
      match (cstr (m.drop space)).findIdx? (· = 32) with
      | none => .inl (missing + 1)
      | some i =>
          if ((space + i : Nat) : Int) > sslPtr - 1 then .inl (missing + 1)
          else scanSpaces m sslPtr missing (space + i + 1)

def detect (m : List UInt8) (u : Up) : Up :=
  if u.isHttp = none ∧ u.hdrSent = false then
    match scanSpaces m u.sslPtr (2 - u.spaceCnt) 0 with
    | .inl missing => { u with spaceCnt := 2 - missing }
    | .inr space => { u with spaceCnt := 2, isHttp := some ((m.drop space).take 5 == ascii "HTTP/") }
  else u

def crlf : List UInt8 := [13, 10]

def firstHdrEnd (m : List UInt8) : Option Nat := strstr crlf (cstr m)

/-- `first_hdr_end - c->ssl_buff`, also where `strstr` has given NULL. -/
def hdrOff (c : Conn) (m : List UInt8) : Int :=
  match firstHdrEnd m with
  | some i => i
  | none => -c.base

/-- `insert_new_hdr`; the comparison is one of unsigned numbers. -/
def inserts (c : Conn) (m : List UInt8) (u : Up) : Bool :=
  u.isHttp == some true && !u.hdrSent && (hdrOff c m % 2 ^ 32 ≤ (u.sslPtr - 2) % 2 ^ 32 : Bool)

/-- `addr_header`. -/
def header (c : Conn) : List UInt8 := ascii "StunnelRemoteIP: " ++ c.ntop.takeWhile (· ≠ 58) ++ crlf

/-! ## Write to socket -/

/-- `writesocket(fd, m, len)` with `len` as a `size_t`: the result, and the bytes that went out. -/
def writeSocket (m : List UInt8) (len : Int) : Wr → Int × List UInt8
  | .took n => ((m.take (min n (len % 2 ^ 32).toNat)).length, m.take (min n (len % 2 ^ 32).toNat))
  | .again => (-1, [])
  | .failed => (-1, [])

/-- Whether the last of the calls that failed left an `errno` that `parse_socket_error` gives up on. -/
def fatalError (ws : List Wr) : Bool :=
  (ws.filter fun w => w == .again || w == .failed).getLast? == some .failed

/-- The last `n` bytes of `sock_buff`, which lies in front of `ssl_buff`. -/
def below (sockBuff : List UInt8) (n : Nat) : List UInt8 :=
  (List.range n).map fun i => sockBuff.getD (BUFFSIZE - n + i) 0

/-- The bytes from `ssl_buff + num` to `ssl_buff + ssl_ptr`. -/
def moved (s : Cli) (m : List UInt8) (num : Int) : List UInt8 :=
  ((below s.sockBuff (-num).toNat ++ m).drop num.toNat).take (s.up.sslPtr - num).toNat

/-- The switch over `num`; also `check_SSL_pending`. -/
def advance (m : List UInt8) (num : Int) (ws : List Wr) (s : Cli) : Except Exit (Cli × Bool) :=
  if num = -1 then
    if fatalError ws then .error ⟨.ret (-1), s⟩ else .ok (s, false)
  else if num = 0 then .ok (s, false)
  else if s.up.sslPtr - num < 0 then .error ⟨.fault, s⟩
  else
    .ok ({ s with
      up := { s.up with sslBuff := store s.up.sslBuff 0 (moved s m num), sslPtr := s.up.sslPtr - num }
      watchdog := 0 }, s.up.sslPtr = BUFFSIZE)

/-- The writes of a round in which the line is put in; a read from NULL fails. -/
def writeInserted (c : Conn) (r : Round) (m : List UInt8) (s : Cli) : Except Exit (Cli × Bool) :=
  let len := hdrOff c m + 2
  let w2 := if firstHdrEnd m = none then .failed else r.write2
  let (num1, out1) := writeSocket m len r.write1
  let (_, out2) := writeSocket (header c) (header c).length r.header
  let (num2, out3) := writeSocket (m.drop len.toNat) (s.up.sslPtr - len) w2
  advance m (num1 + num2) [r.write1, r.header, w2]
    { s with up := { s.up with sent := s.up.sent ++ out1 ++ out2 ++ out3, hdrSent := true } }

def writePlain (r : Round) (m : List UInt8) (s : Cli) : Except Exit (Cli × Bool) :=
  let (num, out) := writeSocket m s.up.sslPtr r.write1
  advance m num [r.write1] { s with up := { s.up with sent := s.up.sent ++ out } }

def scanned (c : Conn) (s : Cli) : Cli := { s with up := detect (mem c s.sockPtr s.up) s.up }

def writeUp (c : Conn) (r : Round) (s : Cli) : Except Exit (Cli × Bool) :=
  let m := mem c s.sockPtr s.up
  if inserts c m (scanned c s).up then writeInserted c r m (scanned c s) else writePlain r m (scanned c s)

/-- Write to the web server, if it takes output and is still open for it. -/
def writeStep (c : Conn) (r : Round) (writable : Bool) (s : Cli) : Except Exit (Cli × Bool) :=
  if s.sockWr ∧ writable then writeUp c r s else .ok (s, false)

/-! ## The rest of a round -/

/-- The descriptors that `poll` was asked about and has found ready. -/
structure Ready where
  sockRd : Bool
  sockWr : Bool
  sslRd : Bool
  sslWr : Bool
  deriving DecidableEq, Repr

def ready (r : Round) (s : Cli) : Ready :=
  let sock := s.sockRd && (s.sockPtr < BUFFSIZE : Bool)
  let ssl := (s.sslRd && (s.up.sslPtr < BUFFSIZE : Bool)) ||
    ((s.sockPtr ≠ 0 : Bool) || s.closing == .CL_RETRY) && r.wantSetup.rd
  let sockOut := (s.up.sslPtr ≠ 0 : Bool)
  let sslOut := (s.sockPtr ≠ 0 : Bool) || s.closing == .CL_INIT ||
    ((s.up.sslPtr < BUFFSIZE : Bool) || s.closing == .CL_RETRY) && r.wantSetup.wr
  -- an error shows as readable, also on a descriptor that waits for output only
  ⟨r.sockRd && (sock || sockOut), r.sockWr && sockOut, r.sslRd && (ssl || sslOut), r.sslWr && sslOut⟩

def sendNotify (r : Round) (f : Ready) (s : Cli) : Except Exit Cli :=
  if s.closing = .CL_INIT ∨
      (s.closing = .CL_RETRY ∧ (r.wantNotify.rd ∧ f.sslRd ∨ r.wantNotify.wr ∧ f.sslWr)) then
    if r.notify = 1 then .ok { s with closing := .CL_CLOSED }
    else if r.notify = 0 then .ok { s with closing := .CL_RETRY }
    else if r.notify = -1 then .error ⟨.ret (-1), s⟩
    else .ok s
  else .ok s

def writeSsl (r : Round) (f : Ready) (s : Cli) : Except Exit Cli :=
  if s.sslWr ∧ s.sockPtr ≠ 0 ∧ (f.sslWr ∨ r.wantWrite.rd ∧ f.sslRd) then
    match r.sslWrite with
    | .took n =>
        let num := min n s.sockPtr
        .ok { s with
          sockBuff := store s.sockBuff 0 (load s.sockBuff num (s.sockPtr - num)), sockPtr := s.sockPtr - num,
          watchdog := 0 }
    | .want => .ok s
    | .syscall zero fatal => if !zero && fatal then .error ⟨.ret (-1), s⟩ else .ok s
    | .closed => .ok { s with sslRd := false }
    | .fatal => .error ⟨.ret (-1), s⟩
  else .ok s

def readSocket (r : Round) (f : Ready) (s : Cli) : Except Exit Cli :=
  if s.sockRd ∧ f.sockRd then
    match r.read with
    | .got bytes =>
        let bytes := bytes.take (BUFFSIZE - s.sockPtr)
        .ok { s with
          sockBuff := store s.sockBuff s.sockPtr bytes, sockPtr := s.sockPtr + bytes.length, watchdog := 0 }
    | .closed => .ok { s with sockRd := false }
    | .again => .ok s
    | .failed => .error ⟨.ret (-1), s⟩
  else .ok s

/-- The buffer after `SSL_read` has put `bytes` behind what it held. -/
def Up.append (u : Up) (bytes : List UInt8) : Up :=
  { u with
    sslBuff := store u.sslBuff u.sslPtr.toNat bytes, sslPtr := u.sslPtr + bytes.length,
    received := u.received ++ bytes }

def readSsl (r : Round) (f : Ready) (check : Bool) (s : Cli) : Except Exit Cli :=
  if s.sslRd ∧ s.up.sslPtr < BUFFSIZE ∧ (f.sslRd ∨ r.wantRead.wr ∧ f.sslWr ∨ check ∧ r.pending) then
    match r.sslRead with
    | .got bytes =>
        .ok { s with up := s.up.append (bytes.take (BUFFSIZE - s.up.sslPtr).toNat), watchdog := 0 }
    | .want => .ok s
    | .eof =>
        if s.sockPtr ≠ 0 then .error ⟨.ret (-1), s⟩
        else .ok { s with sslRd := false, sslWr := false, closing := .CL_CLOSED }
    | .syscall fatal => if fatal then .error ⟨.ret (-1), s⟩ else .ok s
    | .closed => .ok { s with sslRd := false }
    | .fatal => .error ⟨.ret (-1), s⟩
  else .ok s

def checkShutdown (r : Round) (s : Cli) : Cli :=
  let s := if s.sockWr ∧ !s.sslRd ∧ s.up.sslPtr = 0 then { s with sockWr := false } else s
  let s :=
    if s.sslWr ∧ (!s.sockRd ∨ r.shutdown) ∧ s.sockPtr = 0 then
      if r.sslv2 then { s with sslWr := false, sslRd := false, closing := .CL_CLOSED }
      else { s with sslWr := false, closing := .CL_INIT }
    else s
  if s.closing = .CL_RETRY ∧ (!r.wantEnd.rd ∧ !r.wantEnd.wr ∨ s.watchdog > 5) then
    { s with closing := .CL_CLOSED }
  else s

/-- The steps of a round that come after the events are known. -/
def handle (c : Conn) (r : Round) (f : Ready) (s : Cli) : Except Exit Cli := do
  let s ← sendNotify r f s
  let p ← writeStep c r f.sockWr s
  let s ← writeSsl r f p.1
  let s ← readSocket r f s
  readSsl r f p.2 s

/-- The end of a round: shutdown conditions, the watchdog and the test of the loop. -/
def endRound (r : Round) (s : Cli) : Pass Cli Exit :=
  let s := { checkShutdown r s with watchdog := (checkShutdown r s).watchdog + 1 }
  if s.watchdog > 100 then .leave ⟨.ret (-1), s⟩
  else if s.sockWr ∨ s.closing ≠ .CL_CLOSED then .again s
  else .leave ⟨.ret 0, s⟩

def transferPass (c : Conn) (r : Round) (s : Cli) : Pass Cli Exit :=
  let f := ready r s
  if r.poll = -1 then .leave ⟨.ret (-1), s⟩
  else if r.poll = 0 then
    .leave ⟨.ret (if (s.sockRd ∧ s.sslRd) ∨ s.up.sslPtr ≠ 0 ∨ s.sockPtr ≠ 0 then -1 else 0), s⟩
  else if !(f.sockRd || f.sockWr || f.sslRd || f.sslWr) then .leave ⟨.ret (-1), s⟩
  else
    match handle c r f s with
    | .error e => .leave e
    | .ok s => endRound r s

def Cli.start : Cli where
  up := ⟨[], 0, none, 0, false, [], []⟩
  sockBuff := []
  sockPtr := 0
  sockRd := true
  sockWr := true
  sslRd := true
  sslWr := true
  closing := .CL_OPEN
  watchdog := 0

inductive St where
  | running (s : Cli)
  | left (e : Exit)
  deriving DecidableEq, Repr

/-- `transfer` takes one round after another, until it is left. -/
def transferStep (c : Conn) : St → Round → Option St
  | .running s, r =>
      match transferPass c r s with
      | .again t => some (.running t)
      | .leave e => some (.left e)
  | .left _, _ => none

/-- The state of the way to the web server, in the loop and after it. -/
def St.up : St → Up
  | .running s => s.up
  | .left e => e.cli.up

end CameraFw.Proxy
