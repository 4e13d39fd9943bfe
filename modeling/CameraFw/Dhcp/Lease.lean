import CameraFw.Dhcp.Exchange

/-!
# The states of the client

The state functions of `client.c` without AutoIP, the main loop of `dhcpcd.c` and what `sigHandler` of
`signals.c` does about `SIGALRM`. Time is in seconds and passes while the client sleeps or waits for a
reply; an alarm comes in the second it is set for. Of `dhcpConfig` there is whether it succeeds, and the
test for an infinite lease.
-/

namespace CameraFw.Dhcp

open CameraFw.Base

inductive StateFn where
  | dhcpReboot | dhcpInit | dhcpBound | dhcpRenew | dhcpRebind | dhcpStop | dhcpStart
  deriving DecidableEq, Repr

/-- Where the client is: about to call `currState`, in `sleep`, in one of both exchanges that `dhcpInit`
begins with, in the exchange of a request, or at its end. -/
inductive Point where
  | calling
  | sleeping
  | discovering (again : Bool)
  | requesting
  | exited (status : Int)
  | undefined
  deriving DecidableEq, Repr

/-- The type that is waited for in an exchange. -/
def Point.msg : Point → Option UInt8
  | .discovering _ => some DHCP_OFFER
  | .requesting => some DHCP_ACK
  | _ => none

/-- Time passes. -/
def Point.waiting : Point → Bool
  | .sleeping | .discovering _ | .requesting => true
  | _ => false

def Point.running : Point → Bool
  | .exited _ | .undefined => false
  | _ => true

structure Settings where
  timeOut : Nat
  nleaseTime : List UInt8
  deriving DecidableEq, Repr

/-- The variables. `alarm` is when the alarm is due, `daemon` is whether the client has been in
`dhcpBound`, and `leaseEnd` is when the lease ends that was acknowledged last. -/
structure Client where
  currState : StateFn
  point : Point
  now : Nat
  alarm : Option Nat
  reqSentTime : Nat
  options : DhcpOptions
  daemon : Bool
  leaseEnd : Nat

def started (s : Settings) (now : Nat) : Client :=
  ⟨.dhcpReboot, .calling, now, some (now + s.timeOut), 0, .released, false, 0⟩

namespace Client

def enter (c : Client) (f : StateFn) : Client := { c with currState := f, point := .calling }

def stopAt (c : Client) (p : Point) : Client := { c with point := p }

def seconds (c : Client) (code : UInt8) : Option Nat := (c.options.first4 code).map ntohl

/-! ## The state functions -/

/-- What `dhcpBound`, `dhcpRenew` and `dhcpRebind` begin with. The difference is an `int`. -/
def armed (c : Client) (code : UInt8) (p : Point) (next : StateFn) : Client :=
  match c.seconds code with
  | none => c.stopAt .undefined
  | some t =>
      let i := ((c.reqSentTime + t : Nat) - c.now : Int).bmod (2 ^ 32)
      if i > 0 then { c with alarm := some (c.now + i.toNat), point := p } else c.enter next

/-- A call of `currState`; `ready` is whether `dhcpStart` comes back, and `cached` whether
`readDhcpCache` finds an address. -/
def call (c : Client) (ready cached : Bool) : Client :=
  match c.currState with
  | .dhcpReboot =>
      if ready then
        let c := { c with options := .released }
        if cached then c.stopAt .requesting else c.enter .dhcpInit
      else c.stopAt (.exited 1)
  | .dhcpInit => { c with options := .released, point := .discovering false }
  | .dhcpBound => c.armed dhcpT1value .sleeping .dhcpRenew
  | .dhcpRenew => c.armed dhcpT2value .requesting .dhcpRebind
  | .dhcpRebind => c.armed dhcpIPaddrLeaseTime .requesting .dhcpStop
  | .dhcpStop => { c with options := .released }.enter .dhcpStart
  | .dhcpStart => if ready then c.enter .dhcpInit else c.stopAt (.exited 1)

/-- The first `dhcpBound` ends the first loop of `main`. -/
def bind (c : Client) : Client :=
  if c.daemon then c.enter .dhcpBound else { c with daemon := true, alarm := none }.enter .dhcpBound

/-- `siaddr` is copied from the table. -/
def bindServer (c : Client) : Client :=
  if (c.options.first4 dhcpServerIdentifier).isSome then c.bind else c.stopAt .undefined

def acknowledged (c : Client) : Client :=
  { c with reqSentTime := c.now, leaseEnd := c.now + (c.seconds dhcpIPaddrLeaseTime).getD 0 }

/-- What a request does after its ACK. -/
def accepted (c : Client) (configured : Bool) : Client :=
  match c.currState with
  | .dhcpRenew => c.bind
  | .dhcpRebind => c.bindServer
  | _ =>
      if configured then
        match c.options.first4 dhcpIPaddrLeaseTime with
        | none => c.stopAt .undefined
        | some lease => if lease = [255, 255, 255, 255] then c.stopAt (.exited 0) else c.bindServer
      else c.stopAt (.exited 1)

/-- Where a request goes that has been refused. -/
def refused (c : Client) : Client :=
  match c.currState with
  | .dhcpRenew => c.enter .dhcpRebind
  | .dhcpRebind => c.enter .dhcpStop
  | _ => c.enter .dhcpInit

/-- `dhcpSendAndRecv` has returned. What it returns the second time is not looked at in `dhcpInit`. -/
def returned (c : Client) (ret : Int) (configured : Bool) : Client :=
  match c.point with
  | .discovering false => if ret = 0 then c.stopAt (.discovering true) else c.stopAt (.exited 1)
  | .discovering true =>
      if (c.options.first4 dhcpServerIdentifier).isSome then c.stopAt .requesting else c.stopAt .undefined
  | _ => if ret = 0 then c.acknowledged.accepted configured else c.refused

def ended (c : Client) (o : Outcome) (configured : Bool) : Client :=
  match o with
  | .returned ret => c.returned ret configured
  | .fault => c.stopAt .undefined

/-- A reply in an exchange that waits for `msg`. -/
def hear (s : Settings) (c : Client) (msg : UInt8) (r : Reply) (configured : Bool) : Client :=
  match parseDhcpMsgRecv s.nleaseTime r c.options with
  | none => c.stopAt .undefined
  | some p =>
      match judge msg p with
      | none => { c with options := p.options }
      | some o => { c with options := p.options }.ended o configured

/-! ## The alarm -/

/-- `siglongjmp` needs the environment of the state function that is running. -/
def jump (c : Client) (c' : Client) : Client := if c.point = .calling then c.stopAt .undefined else c'

def sigHandler (s : Settings) (c : Client) : Client :=
  match c.currState with
  | .dhcpBound => c.jump (c.enter .dhcpRenew)
  | .dhcpRenew => c.jump (c.enter .dhcpRebind)
  | .dhcpRebind => c.jump (c.enter .dhcpStop)
  | .dhcpReboot => c.jump ({ c with alarm := some (c.now + s.timeOut) }.enter .dhcpInit)
  | _ => c.stopAt (.exited 14)

end Client

/-! ## Runs -/

/-- What happens to the client. `failed` is an error of `sendto` or `recvfrom`, `corrupted` a frame
whose checksum takes in bytes outside of the buffer, and `woken` the end of `sleep`, which comes early
after a `SIGCHLD`. -/
inductive Event where
  | call (ready cached : Bool)
  | second
  | alarm
  | woken
  | heard (r : Reply) (configured : Bool)
  | failed
  | corrupted

def Client.due (c : Client) : Bool := c.alarm.any (· ≤ c.now)

def Client.step (s : Settings) (c : Client) : Event → Option Client
  | .call ready cached => if c.point = .calling then some (c.call ready cached) else none
  | .second => if c.point.waiting && !c.due then some { c with now := c.now + 1 } else none
  | .alarm => if c.point.running && c.due then some ({ c with alarm := none }.sigHandler s) else none
  | .woken => if c.point = .sleeping then some (c.enter .dhcpRenew) else none
  | .heard r configured => c.point.msg.map fun msg => c.hear s msg r configured
  | .failed => if c.point.msg.isSome then some (c.returned (-1) false) else none
  | .corrupted => if c.point.msg.isSome then some (c.stopAt .undefined) else none

end CameraFw.Dhcp
