import CameraFw.Base.CString

/-!
# Link-local addresses

`dhcpAutoConfigureIP` of `autoip.c` with the two functions its candidates come from. Addresses are
32-bit words as they lie in the memory of the little-endian machine, so that the first octet is the
lowest byte. The `float` expression is the exact quotient, rounded down.
-/

namespace CameraFw.AutoIp

open CameraFw.Base

def AUTOIP_RETRY : Nat := 10
def NETWORK_ID : BitVec 32 := (169 <<< 8) + 254
def START_ADDR : BitVec 16 := 1 <<< 8
def END_ADDR : Nat := (254 <<< 8) + 255
def RAND_MAX : Nat := 2147483647

def htonl (x : BitVec 32) : BitVec 32 :=
  x <<< 24 ||| (x &&& 0xff00) <<< 8 ||| (x >>> 8) &&& 0xff00 ||| x >>> 24

def octet (ip : BitVec 32) (k : Nat) : BitVec 8 := ip.extractLsb' (8 * k) 8

def linkLocal (hostID : BitVec 16) : BitVec 32 := htonl (NETWORK_ID <<< 16 ||| hostID.setWidth 32)

/-! ## Candidates -/

def scaled (rand : Fin (RAND_MAX + 1)) : Nat := END_ADDR * rand / (RAND_MAX + 1)

def getNewIP (rand : Fin (RAND_MAX + 1)) : BitVec 32 := linkLocal (START_ADDR + BitVec.ofNat 16 (scaled rand))

/-- `MAC_StationID`, the last three bytes of the hardware address. -/
structure StationID where
  m0 : BitVec 8
  m1 : BitVec 8
  m2 : BitVec 8
  deriving DecidableEq, Repr

/-- The byte that becomes the third octet. -/
def StationID.third (m : StationID) : BitVec 8 :=
  if 1 ≤ m.m1 ∧ m.m1 ≤ 254 then m.m1
  else if 1 ≤ m.m0 ∧ m.m0 ≤ 254 then m.m0
  else
    let temp : BitVec 8 := ((m.m1.setWidth 16 + m.m0.setWidth 16) / 2).setWidth 8
    if temp < 1 ∨ temp > 254 then 1 else temp

def StationID.hostID (m : StationID) : BitVec 16 := m.m2.setWidth 16 ||| m.third.setWidth 16 <<< 8

/-- The cache file: it cannot be opened, or `read` gets these bytes from it (none if it fails). -/
inductive Cache where
  | absent
  | present (bytes : List UInt8)
  deriving DecidableEq, Repr

def decimal (s : List UInt8) : Int := (s.takeWhile isdigit).foldl (fun n c => 10 * n + (c.toNat - 48)) 0

/-- `atoi`, within the range of a 32-bit `long`. -/
def cachedValue (s : List UInt8) : Int :=
  match trimStart s with
  | 45 :: t => max (-2147483648) (-decimal t)
  | 43 :: t => min 2147483647 (decimal t)
  | t => min 2147483647 (decimal t)

/-- `ReadFromAutoIPCacheFile`; `none` is the result 1. `station` is what `SIOCGIFHWADDR` gives. -/
def readFromAutoIPCacheFile (cache : Cache) (station : Option StationID) : Option (BitVec 32) :=
  match cache with
  | .present [] => none
  | .present bytes => some (BitVec.ofInt 32 (cachedValue bytes))
  | .absent => station.map fun m => linkLocal m.hostID

/-! ## Configuration -/

structure Vars where
  bAutoConfiguredIP : Bool
  bStartUP : Bool
  bCollision : Bool
  bAddressIsSet : Bool
  autoConfiguredIPAddress : BitVec 32
  deriving DecidableEq, Repr

/-- What the outside world answers in a call. `collided` is whether the watcher sets `bCollision` before
the loop starts; `rand i` is the value of `rand()` in round `i` and `probe i` the result of
`SendARPtoCheckUniqueness` in it. -/
structure Env where
  collided : Bool
  cache : Cache
  station : Option StationID
  rand : Nat → Fin (RAND_MAX + 1)
  probe : Nat → BitVec 32 → Int
  setAddress : Bool

inductive Act where
  | destroyThread
  | probe (ip : BitVec 32)
  | createThread (ip : BitVec 32)
  | stopScript
  | setAddress (ip : BitVec 32)
  | addRoutes
  | gratuitousArp (ip : BitVec 32)
  | startScript
  | writeCache (ip : BitVec 32)
  deriving DecidableEq, Repr

/-- The address of round `i`. -/
def candidate (collision : Bool) (env : Env) (i : Nat) : BitVec 32 :=
  if i ≠ 0 ∨ collision then getNewIP (env.rand i)
  else
    match readFromAutoIPCacheFile env.cache env.station with
    | some ip => ip
    | none => getNewIP (env.rand i)

/-- Rounds `i`, `i + 1`, … of the loop, `n` of them at most: what they do, and the address that is free. -/
def search (collision : Bool) (env : Env) : Nat → Nat → List Act × Option (BitVec 32)
  | 0, _ => ([], none)
  | n + 1, i =>
      let ip := candidate collision env i
      if env.probe i ip = 0 then ([.probe ip], some ip)
      else
        let rest := search collision env n (i + 1)
        (.probe ip :: rest.1, rest.2)

structure Result where
  ret : Int
  vars : Vars
  acts : List Act
  deriving DecidableEq, Repr

/-- The part behind the loop, for an address that is free. -/
def assign (v : Vars) (env : Env) (ip : BitVec 32) : Result :=
  let v : Vars := { v with bAutoConfiguredIP := true, bCollision := false, bAddressIsSet := false }
  if env.setAddress then
    { ret := 0
      vars := { v with bAddressIsSet := true, autoConfiguredIPAddress := ip }
      acts := [.createThread ip, .stopScript, .setAddress ip, .addRoutes, .gratuitousArp ip,
          .gratuitousArp ip,
          .startScript, .writeCache ip] ++ if v.bStartUP then [.destroyThread] else [] }
  else ⟨-1, v, [.createThread ip, .stopScript, .setAddress ip]⟩

def dhcpAutoConfigureIP (v : Vars) (env : Env) : Result :=
  if !v.bAutoConfiguredIP || v.bCollision then
    let stopped : List Act := if v.bStartUP then [] else [.destroyThread]
    let v : Vars := { v with bCollision := v.bCollision || env.collided }
    let found := search v.bCollision env AUTOIP_RETRY 0
    match found.2 with
    | some ip =>
        let r := assign v env ip
        { r with acts := stopped ++ found.1 ++ r.acts }
    | none => ⟨-1, v, stopped ++ found.1⟩
  else ⟨0, v, []⟩

/-- The call does more than return. -/
def Vars.stale (v : Vars) : Bool := !v.bAutoConfiguredIP || v.bCollision

/-- What the loop reads from `bCollision`. -/
def collision (v : Vars) (env : Env) : Bool := v.bCollision || env.collided

end CameraFw.AutoIp
