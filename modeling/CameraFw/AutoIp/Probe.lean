import CameraFw.Base.Loop

/-!
# Probing for an address

`SendARPtoCheckUniqueness` of `autoip.c`: up to five probes, and between them whatever the raw socket
receives.
-/

namespace CameraFw.AutoIp

open CameraFw.Base

def ETHERTYPE_ARP : BitVec 16 := 0x0806
def ARPOP_REQUEST : BitVec 16 := 1
def ARPOP_REPLY : BitVec 16 := 2

/-- The fields of a received `arpMessage` that are looked at, in host byte order where they have one. -/
structure ArpMessage where
  etherType : BitVec 16
  operation : BitVec 16
  sHaddr : BitVec 48
  sInaddr : BitVec 32
  tInaddr : BitVec 32
  deriving DecidableEq, Repr

/-- The result of `Select`. -/
inductive Selected where
  | error | ready | timeout
  deriving DecidableEq, Repr

/-- What the calls of one round return; `none` is a failed `recvfrom`. -/
structure Answers where
  sent : Bool
  received : Option ArpMessage
  selected : Selected

inductive Phase where
  -- the loop that sends
  | send
  -- the loop that receives
  | receive
  deriving DecidableEq, Repr

/-- The counter, the loop, and the packets received so far. -/
structure ProbeSt where
  i : Nat
  phase : Phase
  seen : List ArpMessage
  deriving DecidableEq, Repr

structure ProbeEnd where
  ret : Int
  seen : List ArpMessage
  deriving DecidableEq, Repr

/-- The packet makes the function return 1. -/
def decisive (client : BitVec 48) (ip : BitVec 32) (m : ArpMessage) : Bool :=
  if m.etherType ≠ ETHERTYPE_ARP then false
  else if m.operation = ARPOP_REPLY then m.sInaddr = ip
  else m.operation = ARPOP_REQUEST ∧ m.sHaddr ≠ client ∧ m.tInaddr = ip

/-- One round of the loop that sends, or of the one that receives. -/
def probePass (client : BitVec 48) (ip : BitVec 32) (a : Answers) (st : ProbeSt) : Pass ProbeSt ProbeEnd :=
  match st.phase with
  | .send =>
      if st.i > 4 then .leave ⟨0, st.seen⟩
      else if !a.sent then .leave ⟨-1, st.seen⟩
      else .again { st with i := st.i + 1, phase := if a.selected = .ready then .receive else .send }
  | .receive =>
      match a.received with
      | none => .leave ⟨-1, st.seen⟩
      | some m =>
          if decisive client ip m then .leave ⟨1, st.seen ++ [m]⟩
          else
            .again { st with
              phase := if a.selected = .ready then .receive else .send
              seen := st.seen ++ [m] }

/-- The result and the packets received, if it returns within `fuel` rounds. -/
def sendARPtoCheckUniqueness (client : BitVec 48) (ip : BitVec 32) (answers : Nat → Answers) (fuel : Nat) :
    Option ProbeEnd :=
  whileLoop (probePass client ip) answers fuel 0 ⟨0, .send, []⟩

end CameraFw.AutoIp
