import CameraFw.AutoIp.Configure
import CameraFw.Base.Loop

/-!
# The AutoIP module under the DHCP client

`StartAutoIP`, `WaitInAutoIPBeforeLookforDHCP` and `StopAutoIP` of `autoip.c` with the watcher threads
they create and join, and the states of `client.c` that call them, with AutoIP enabled. Both files have
their own `bStartUP` and `bAutoConfiguredIP`. A watcher finds a collision, or ends, between two calls or
within one.
-/

namespace CameraFw.AutoIp

open CameraFw.Base

def DHCPCHECK_TIME : Nat := 300

/-! ## Watcher threads -/

/-- A thread that has been created and not been joined. -/
structure Watcher where
  id : Nat
  ip : BitVec 32
  running : Bool
  deriving DecidableEq, Repr

/-- A call of the thread library: `pthread_create` with no other watcher left to join, or with one;
`pthread_join` with the handle of a watcher that is left to join, or with another value. -/
inductive ThreadOp where
  | create (alone : Bool)
  | join (known : Bool)
  deriving DecidableEq, Repr

def ThreadOp.ok : ThreadOp → Bool
  | .create alone => alone
  | .join known => known

/-- The variables of `autoip.c`, the watchers that are left to join, what the thread library has been
called for, latest first, the address on the interface, and the addresses for which
`SendARPtoCheckUniqueness` has returned 0. -/
structure Module where
  vars : Vars
  bInitialize : Bool
  bthread : Bool
  thread : Option Nat
  unjoined : List Watcher
  created : Nat
  ops : List ThreadOp
  iface : Option (BitVec 32)
  cleared : List (BitVec 32)
  deriving DecidableEq, Repr

namespace Module

/-- `CreateThreadToLookForIPCollision`; `created` is whether `pthread_create` succeeds. -/
def createThread (m : Module) (ip : BitVec 32) (created : Bool) : Module :=
  if created then
    { m with bthread := true, thread := some m.created, created := m.created + 1
             unjoined := ⟨m.created, ip, true⟩ :: m.unjoined, ops := .create m.unjoined.isEmpty :: m.ops }
  else { m with bthread := false }

/-- `DestroyThread`. Whether it has been cancelled or has reported a collision, the watcher is gone when
`pthread_join` returns. -/
def destroyThread (m : Module) : Module :=
  { m with bthread := false, unjoined := m.unjoined.filter fun w => some w.id ≠ m.thread
           ops := .join (m.unjoined.any fun w => some w.id = m.thread) :: m.ops }

def watched (m : Module) : Bool := m.unjoined.any Watcher.running

/-- The watcher ends. -/
def unwatch (m : Module) : Module :=
  { m with unjoined := m.unjoined.map fun w => { w with running := false } }

/-- The watcher, if one is running, finds a collision and ends. -/
def collide (m : Module) : Module :=
  if m.watched then { m.unwatch with vars := { m.vars with bCollision := true } } else m

/-! ## The calls -/

/-- What a `StartAutoIP` call meets besides: whether `pthread_create` succeeds, and whether the new
watcher finds a collision before the call is over. -/
structure StartEnv extends Env where
  created : Bool
  collides : Bool

/-- What an action of `dhcpAutoConfigureIP` does to the threads and the interface. -/
def perform (env : StartEnv) (m : Module) : Act → Module
  | .destroyThread => m.destroyThread
  | .createThread ip =>
      if env.collides then (m.createThread ip env.created).collide else m.createThread ip env.created
  | .setAddress ip => if env.setAddress then { m with iface := some ip } else m
  | _ => m

/-- Only a watcher that is running sets `bCollision`. -/
def world (m : Module) (env : StartEnv) : Env := { env.toEnv with collided := env.collided && m.watched }

/-- `dhcpAutoConfigureIP` with what its actions do. -/
def configure (m : Module) (env : StartEnv) : Int × Module :=
  let r := dhcpAutoConfigureIP m.vars (m.world env)
  let found :=
    if m.vars.stale then (search (collision m.vars (m.world env)) (m.world env) AUTOIP_RETRY 0).2 else none
  (r.ret, r.acts.foldl (perform env) { m with vars := r.vars, cleared := found.toList ++ m.cleared })

def startAutoIP (m : Module) (startUp : Bool) (env : StartEnv) : Int × Module :=
  if m.bInitialize then { m with vars := { m.vars with bStartUP := startUp } }.configure env else (-1, m)

def stopAutoIP (m : Module) : Module :=
  { m.destroyThread with vars := { m.vars with bAutoConfiguredIP := false, bCollision := false } }

/-- What a `WaitInAutoIPBeforeLookforDHCP` call meets: whether `pthread_create` succeeds, and whether
the watcher finds a collision in each of the seconds. -/
structure WaitEnv where
  created : Bool
  collides : Nat → Bool

/-- The loop of the call, from second `t` on with `n` to go. -/
def waitLoop (env : WaitEnv) : Nat → Nat → Module → Int × Module
  | 0, _, m => (0, m)
  | n + 1, t, m =>
      if m.vars.bCollision then (-1, m) else waitLoop env n (t + 1) (if env.collides t then m.collide else m)

/-- What the call does before its loop. -/
def watch (m : Module) (env : WaitEnv) : Module :=
  let m :=
    if m.vars.bStartUP && !m.vars.bCollision then
      m.createThread m.vars.autoConfiguredIPAddress env.created
    else m
  { m with vars := { m.vars with bStartUP := false } }

def waitInAutoIPBeforeLookforDHCP (m : Module) (env : WaitEnv) : Int × Module :=
  waitLoop env DHCPCHECK_TIME 0 (m.watch env)

end Module

/-! ## The client -/

inductive State where
  | dhcpReboot
  | dhcpRestart
  | dhcpCheck
  | dhcpInit
  | dhcpBound
  | dhcpRenew
  | dhcpRebind
  | dhcpSwitchToAutoIP
  | dhcpWaitInAutoIP
  | exited
  deriving DecidableEq, Repr

structure Client where
  state : State
  bStartUP : Bool
  bAutoConfiguredIP : Bool
  autoIP : Module
  deriving DecidableEq, Repr

/-- What comes of `dhcpRequest`: no acknowledgement, an address in use, or an acknowledgement for which
`dhcpConfig` leaves an address on the interface, and after which the client goes on or exits. -/
inductive Request where
  | noAck
  | inUse
  | acked (iface : Option (BitVec 32)) (goesOn : Bool)
  deriving DecidableEq, Repr

/-- What the state function of the client meets, or something of the watcher between two of them. -/
inductive Event where
  | collision
  | ended
  | proceeds
  | fails
  | request (r : Request)
  | start (env : Module.StartEnv)
  | wait (env : Module.WaitEnv) (again : Module.StartEnv)

namespace Client

def boot : Client where
  state := .dhcpReboot
  bStartUP := true
  bAutoConfiguredIP := false
  autoIP :=
    { vars := ⟨false, false, false, false, 0⟩, bInitialize := false, bthread := false, thread := none,
      unjoined := [], created := 0, ops := [], iface := none, cleared := [] }

/-- The module as `dhcpConfig` finds it. -/
def released (s : Client) : Module :=
  if !s.bStartUP && s.bAutoConfiguredIP then s.autoIP.stopAutoIP else s.autoIP

def dhcpRequest (s : Client) : Request → Client
  | .noAck => { s with state := .dhcpInit }
  | .inUse => { s with state := .dhcpInit }
  | .acked iface goesOn =>
      let m := { s.released with iface := iface }
      if goesOn then { s with state := .dhcpBound, bAutoConfiguredIP := false, autoIP := m }
      else { s with state := .exited, autoIP := m }

def dhcpSwitchToAutoIP (s : Client) (env : Module.StartEnv) : Client :=
  -- `Initialize` comes first
  let r := { s.autoIP with bInitialize := true }.startAutoIP s.bStartUP env
  if r.1 ≠ 0 then { s with state := .exited, autoIP := r.2 }
  else { state := .dhcpWaitInAutoIP, bStartUP := false, bAutoConfiguredIP := true, autoIP := r.2 }

/-- The result of the second `StartAutoIP` is not looked at. -/
def dhcpWaitInAutoIP (s : Client) (env : Module.WaitEnv) (again : Module.StartEnv) : Client :=
  let r := s.autoIP.waitInAutoIPBeforeLookforDHCP env
  if r.1 = 0 then { s with state := .dhcpRestart, autoIP := r.2 }
  else { s with autoIP := (r.2.startAutoIP s.bStartUP again).2 }

def step (s : Client) (e : Event) : Option Client :=
  match s.state, e with
  | .exited, _ => none
  | _, .collision => some { s with autoIP := s.autoIP.collide }
  | _, .ended => some { s with autoIP := s.autoIP.unwatch }
  | .dhcpReboot, .proceeds => some { s with state := .dhcpCheck }
  | .dhcpRestart, .proceeds => some { s with state := .dhcpCheck }
  | .dhcpCheck, .fails => some { s with state := .dhcpInit }
  | .dhcpCheck, .request r => some (s.dhcpRequest r)
  | .dhcpInit, .fails => some { s with state := .dhcpSwitchToAutoIP }
  | .dhcpInit, .request r => some (s.dhcpRequest r)
  | .dhcpBound, .proceeds => some { s with state := .dhcpRenew, bStartUP := false }
  | .dhcpRenew, .proceeds => some { s with state := .dhcpBound }
  | .dhcpRenew, .fails => some { s with state := .dhcpRebind }
  | .dhcpRebind, .proceeds => some { s with state := .dhcpBound }
  | .dhcpRebind, .fails => some { s with state := .dhcpInit }
  | .dhcpSwitchToAutoIP, .start env => some (s.dhcpSwitchToAutoIP env)
  | .dhcpWaitInAutoIP, .wait env again => some (s.dhcpWaitInAutoIP env again)
  | _, _ => none

end Client

end CameraFw.AutoIp
