import CameraFw.Dhcp.Build

/-!
# Sending a message and waiting for the reply

`dhcpSendAndRecv` of `client.c`. What the calls of a round answer comes from outside, and so do the
random numbers. Times are in microseconds.
-/

namespace CameraFw.Dhcp

open CameraFw.Base

def DHCP_INITIAL_RTO : Nat := 4000000
def DHCP_MAX_RTO : Nat := 64000000
def ETHERTYPE_IP : Nat := 0x0800

/-- What the function is called with: the transaction, the type that is waited for, and of the message
that is sent its `ciaddr`; and the options of the client. -/
structure Request where
  xid : BitVec 32
  msg : UInt8
  ciaddr : List UInt8
  doCheckSum : Bool
  nleaseTime : List UInt8
  deriving DecidableEq, Repr

/-- What the calls of a round answer. `received` is `none` for an error, and otherwise the buffer, which
was cleared before, and the number of bytes. -/
structure Round where
  sent : Bool
  random : Nat
  waited : Bool
  received : Option (List UInt8 × Nat)
  elapsed : Int
  more : Bool

/-- The tests of the headers in front of the checksums. With IP options the UDP length is looked for in
them. -/
def lengthsOk (f : List UInt8) (len : Nat) : Bool :=
  load f 12 2 == htons ETHERTYPE_IP && f.getD (ETH_HLEN + 9) 0 == IPPROTO_UDP &&
    decide (ntohs (load f (ETH_HLEN + 2) 2) + ETH_HLEN ≤ len) &&
    decide (ntohs (load f (ETH_HLEN + 24) 2) + ipHl f ≤ ntohs (load f (ETH_HLEN + 2) 2))

/-- The tests of the message, which comes after an IP header of `hl` bytes. -/
def answers (q : Request) (f : List UInt8) (hl : Nat) : Bool :=
  f.getD (msgRecv hl + 1) 0 == 1 && load f (msgRecv hl + 4) 4 == toLE 4 q.xid.toNat &&
    f.getD (msgRecv hl) 0 == 2

/-- What becomes of a frame that has been received. -/
inductive Sorted where
  | discarded
  | fault
  | reply (r : Reply)

def sort (q : Request) (f : List UInt8) (len : Nat) : Sorted :=
  if lengthsOk f len then
    match if q.doCheckSum then udpipchk f else some (0, f) with
    | none => .fault
    | some (r, f') =>
        if r ≠ 0 then .discarded
        else if answers q f' (ipHl f) then .reply ⟨f', ipHl f, q.ciaddr⟩
        else .discarded
  else .discarded

/-- Whether the inner loop is to send or to receive. -/
inductive Phase where
  | send
  | receive
  deriving DecidableEq, Repr

/-- The variables, with what the function has waited for after each message and the replies that it has
parsed. -/
structure ExchangeSt where
  phase : Phase
  j : Nat
  options : DhcpOptions
  waits : List Nat
  replies : List Reply

inductive Outcome where
  | returned (ret : Int)
  | fault
  deriving DecidableEq, Repr

structure ExchangeEnd where
  outcome : Outcome
  options : DhcpOptions
  waits : List Nat
  replies : List Reply

def ExchangeSt.finish (st : ExchangeSt) (o : Outcome) : ExchangeEnd := ⟨o, st.options, st.waits, st.replies⟩

/-- The retransmission time for the next message. A DISCOVER is repeated at a constant rate. -/
def nextRto (msg : UInt8) (j : Nat) : Nat := min (if msg = DHCP_OFFER then 3000000 else j + j) DHCP_MAX_RTO

/-- Where the receiving loop goes on. -/
def ExchangeSt.goOn (st : ExchangeSt) (a : Round) : ExchangeSt :=
  { st with phase := if (st.j : Int) - a.elapsed + a.random % 200000 > 0 ∧ a.more then .receive else .send }

/-- Whether the call ends with the reply that has been parsed. The type of the message is read once
more, which needs it to be there. -/
def judge (msg : UInt8) (p : Parsed) : Option Outcome :=
  if p.type = msg then some (.returned 0)
  else
    match (p.options.val dhcpMessageType).bind List.head? with
    | none => some .fault
    | some type => if type = DHCP_NAK then some (.returned 1) else none

/-- A reply has been accepted. -/
def ExchangeSt.handle (q : Request) (a : Round) (st : ExchangeSt) (r : Reply) : Pass ExchangeSt ExchangeEnd :=
  match parseDhcpMsgRecv q.nleaseTime r st.options with
  | none => .leave ({ st with replies := st.replies ++ [r] }.finish .fault)
  | some p =>
      let st := { st with options := p.options, replies := st.replies ++ [r] }
      match judge q.msg p with
      | some o => .leave (st.finish o)
      | none => .again (st.goOn a)

def exchangePass (q : Request) (a : Round) (st : ExchangeSt) : Pass ExchangeSt ExchangeEnd :=
  match st.phase with
  | .send =>
      let j := nextRto q.msg st.j
      if a.sent then
        let i := if q.msg = DHCP_OFFER then 200000 else a.random
        .again { st with
          j := j, waits := st.waits ++ [j + i % 200000], phase := if a.waited then .send else .receive }
      else .leave (st.finish (.returned (-1)))
  | .receive =>
      match a.received with
      | none => .leave (st.finish (.returned (-1)))
      | some (f, len) =>
          match sort q f len with
          | .discarded => .again (st.goOn a)
          | .fault => .leave (st.finish .fault)
          | .reply r => st.handle q a r

/-- How the call ends, if it does within `fuel` rounds. -/
def dhcpSendAndRecv (q : Request) (t : DhcpOptions) (rounds : Nat → Round) (fuel : Nat) :
    Option ExchangeEnd :=
  whileLoop (exchangePass q) rounds fuel 0 ⟨.send, DHCP_INITIAL_RTO / 2, t, [], []⟩

end CameraFw.Dhcp
