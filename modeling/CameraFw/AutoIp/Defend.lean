import CameraFw.AutoIp.Probe

/-!
# Watching over the address

`IPDefend` of `autoip.c`, which the watcher thread runs: it receives packets until another machine is
seen to use the address, and answers probes for the address as long as `bAddressIsSet` is 0. The
configuring thread goes on meanwhile.
-/

namespace CameraFw.AutoIp

open CameraFw.Base

/-- How far the configuring thread has come: the address is on the interface before `bAddressIsSet` says
so. -/
inductive Stage where
  | configuring | onInterface | flagged
  deriving DecidableEq, Repr

/-- What the calls of one round return, and how far the configuring thread is when the packet is
received and when `bAddressIsSet` is looked at; no packet is a failed `recvfrom`. -/
structure Heard where
  selected : Selected
  received : Option ArpMessage
  heard : Stage
  tested : Stage
  deriving DecidableEq, Repr

/-- An `arpMessage` that is sent, in host byte order. -/
structure ArpReply where
  etherDhost : BitVec 48
  etherShost : BitVec 48
  etherType : BitVec 16
  operation : BitVec 16
  sHaddr : BitVec 48
  sInaddr : BitVec 32
  tHaddr : BitVec 48
  tInaddr : BitVec 32
  deriving DecidableEq, Repr

/-- The message of `SendReplyForArpProbe`; the target's address stays 0. -/
def sendReplyForArpProbe (client : BitVec 48) (ip : BitVec 32) (target : BitVec 48) : ArpReply where
  etherDhost := target
  etherShost := client
  etherType := ETHERTYPE_ARP
  operation := ARPOP_REPLY
  sHaddr := client
  sInaddr := ip
  tHaddr := target
  tInaddr := 0

inductive Handled where
  | conflict
  | reply (msg : ArpReply)
  | ignored
  deriving DecidableEq, Repr

/-- `ArpMsgRecv.sInaddr == 0` compares an array with the null pointer. -/
def sInaddrIsNull : Bool := false

/-- What is done with a packet. -/
def handle (client : BitVec 48) (ip : BitVec 32) (m : ArpMessage) (bAddressIsSet : Bool) : Handled :=
  if m.etherType ≠ ETHERTYPE_ARP then .ignored
  else if m.sHaddr ≠ client ∧ m.sInaddr ≠ m.tInaddr ∧ m.sInaddr = ip then .conflict
  else if m.sHaddr ≠ client ∧ m.operation = ARPOP_REQUEST ∧ (sInaddrIsNull ∨ m.sInaddr = m.tInaddr) ∧
      m.tInaddr = ip ∧ !bAddressIsSet then
    .reply (sendReplyForArpProbe client ip m.sHaddr)
  else .ignored

inductive Waiting where
  -- for a packet, in the outer loop
  | select
  -- for nothing: there is one
  | recvfrom
  deriving DecidableEq, Repr

structure DefendSt where
  waiting : Waiting
  sent : List ArpReply
  deriving DecidableEq, Repr

def next (h : Heard) : Waiting := if h.selected = .ready then .recvfrom else .select

/-- One round of the loops: it waits for a packet, or handles one. It leaves with the result of the
function. -/
def defendPass (client : BitVec 48) (ip : BitVec 32) (h : Heard) (st : DefendSt) : Pass DefendSt Int :=
  match st.waiting with
  | .select => .again { st with waiting := next h }
  | .recvfrom =>
      match h.received with
      | none => .leave (-1)
      | some m =>
          match handle client ip m (h.tested = .flagged) with
          | .conflict => .leave 0
          | .reply msg => .again ⟨next h, st.sent ++ [msg]⟩
          | .ignored => .again { st with waiting := next h }

/-- `IPDefend`, if it returns within `fuel` rounds. -/
def ipDefend (client : BitVec 48) (ip : BitVec 32) (answers : Nat → Heard) (fuel : Nat) : Option Int :=
  whileLoop (defendPass client ip) answers fuel 0 ⟨.select, []⟩

/-- `WatchForIPCollision`: whether the thread has set `bCollision` within `fuel` rounds of `IPDefend`. -/
def watchForIPCollision (client : BitVec 48) (ip : BitVec 32) (answers : Nat → Heard) (fuel : Nat) : Bool :=
  ipDefend client ip answers fuel = some 0

/-! ## What is heard -/

/-- What round `n` waits for. -/
def waitsFor (answers : Nat → Heard) : Nat → Waiting
  | 0 => .select
  | n + 1 => next (answers n)

/-- What `recvfrom` gives in round `n`, if it is called. -/
def recvAt (answers : Nat → Heard) (n : Nat) : Option (Option ArpMessage) :=
  match waitsFor answers n with
  | .select => none
  | .recvfrom => some (answers n).received

end CameraFw.AutoIp
