import CameraFw.Base.Loop
import CameraFw.Base.Ring

/-!
# The transmit ring of the serial line

`uart_write`, `uart_put_char`, `uart_start`, `uart_interrupt` and `transmit_chars` of `pl_uart.c`, which
is built without the DMA. What runs with interrupts masked is one step. The rest of `uart_write`, and
`transmit_chars` when it is called from there, is taken apart into single accesses to what it shares
with the others, and anything may come in between.
-/

namespace CameraFw.Uart

open CameraFw.Base

def serialXmitSize : Nat := 4096

def rsIsrPassLimit : Nat := 256

/-- A byte, and how many were accepted before it. -/
structure Cell where
  byte : UInt8
  seq : Nat
  deriving DecidableEq, Repr

/-- What all contexts share, with a record of the bytes that have been taken into the ring and of those
that have been taken from it into the data register. -/
structure Port where
  xmit : Ring Cell serialXmitSize
  xChar : UInt8
  thri : Bool
  stopped : Bool
  hwStopped : Bool
  accepted : List Cell
  sent : List Cell

/-! ## Into the ring -/

def Port.number (p : Port) (bs : List UInt8) : List Cell := bs.mapIdx fun i b => ⟨b, p.accepted.length + i⟩

/-- `memcpy` to the head, and the head behind it. -/
def Port.accept (p : Port) (bs : List UInt8) : Port :=
  { p with xmit := p.xmit.copyIn (p.number bs), accepted := p.accepted ++ p.number bs }

def Port.spaceToEnd (p : Port) : Nat := Ring.spaceToEnd serialXmitSize p.xmit.head p.xmit.tail

def uartPutChar (ch : UInt8) (p : Port) : Port :=
  if Ring.space serialXmitSize p.xmit.head p.xmit.tail = 0 then p else p.accept [ch]

/-- The loop of `uart_write` for a buffer of the kernel. -/
def fillRing (p : Port) (buf : List UInt8) : Port :=
  let c := min p.spaceToEnd buf.length
  if c = 0 then p else fillRing (p.accept (buf.take c)) (buf.drop c)
termination_by buf.length
decreasing_by
  rw [List.length_drop]
  omega

/-! ## Out of the ring, with interrupts masked -/

def Port.sendByte (p : Port) : Port :=
  { p with sent := p.sent ++ [p.xmit.buf p.xmit.tail], xmit := p.xmit.advance p.xmit.tail }

/-- The loop of `transmit_chars`. The list says whether the transmitter is busy each time it is asked. -/
def drain : List Bool → Nat → Port → Port
  | false :: busy, count, p =>
      if p.sendByte.xmit.head = p.sendByte.xmit.tail then p.sendByte
      else if 1 < count then drain busy (count - 1) p.sendByte
      else p.sendByte
  | _, _, p => p

def transmitChars (fifo : Nat) (busy : List Bool) (p : Port) : Port :=
  if p.xChar ≠ 0 then
    match busy with
    | false :: _ => { p with xChar := 0 }
    | _ => p
  else if p.xmit.head = p.xmit.tail ∨ p.stopped = true ∨ p.hwStopped = true then { p with thri := false }
  else
    let p := drain busy fifo p
    if p.xmit.head = p.xmit.tail then { p with thri := false } else p

def uartStart (fifo : Nat) (busy : List Bool) (p : Port) : Port :=
  if p.xmit.head ≠ p.xmit.tail ∧ p.thri = false then transmitChars fifo busy { p with thri := true } else p

/-- What one round of `uart_interrupt` finds. -/
structure Round where
  ti : Bool
  ri : Bool
  busy : List Bool

/-- The rounds from `passCounter` on. `receive_chars` touches nothing of this. -/
def uartInterrupt (fifo : Nat) : Nat → List Round → Port → Port
  | _, [], p => p
  | passCounter, r :: rs, p =>
      let p := if r.ti then transmitChars fifo r.busy p else p
      if rsIsrPassLimit < passCounter then p
      else if r.ti ∨ r.ri then uartInterrupt fifo (passCounter + 1) rs p
      else p

/-! ## `uart_write` -/

/-- Where a call of `uart_write` stands, with its locals. -/
inductive Pos where
  -- the loop for a buffer of the user
  | room (buf : List UInt8)
  | roomTail (buf : List UInt8) (head : Nat)
  | copy (buf : List UInt8) (c : Nat)
  | insert (buf : List UInt8) (c : Nat)
  -- the one for a buffer of the kernel
  | fill (buf : List UInt8)
  -- whether to transmit
  | testHead
  | testTail (head : Nat)
  | testStopped
  | testHwStopped
  | testThri
  | setThri
  -- `transmit_chars`
  | xTest
  | xStatus
  | xSend
  | xClear
  | emptyHead
  | emptyTail (head : Nat)
  | stopTest
  | hwStopTest
  | clearThri
  | status (count : Nat)
  | loadTail (count : Nat)
  | loadByte (count : Nat) (tail : Fin serialXmitSize)
  | write (count : Nat) (c : Cell)
  | reloadTail (count : Nat)
  | storeTail (count : Nat) (tail : Fin serialXmitSize)
  | againHead (count : Nat)
  | againTail (count : Nat) (head : Nat)
  | lastHead
  | lastTail (head : Nat)
  | done
  deriving DecidableEq

/-- What the outside answers: how many bytes `copy_from_user` could not copy, and whether the
transmitter is busy. -/
structure Answer where
  notCopied : Nat
  busy : Bool

/-- The next access of the call. -/
def Pos.step (fifo : Nat) (a : Answer) (p : Port) : Pos → Option (Port × Pos)
  | .room buf => some (p, .roomTail buf p.xmit.head)
  | .roomTail buf head =>
      let c := min buf.length (Ring.spaceToEnd serialXmitSize head p.xmit.tail)
      some (p, if c = 0 then .testHead else .copy buf c)
  | .copy buf c => some (p, if c - a.notCopied = 0 then .testHead else .insert buf (c - a.notCopied))
  -- `tmp_buf` is held by its semaphore, so that the bytes are still those of the buffer; the space is
  -- asked for again under `cli`
  | .insert buf c =>
      let c := min c p.spaceToEnd
      some (p.accept (buf.take c), .room (buf.drop c))
  | .fill buf => some (fillRing p buf, .testHead)
  | .testHead => some (p, .testTail p.xmit.head)
  | .testTail head => some (p, if head ≠ p.xmit.tail then .testStopped else .done)
  | .testStopped => some (p, if p.stopped then .done else .testHwStopped)
  | .testHwStopped => some (p, if p.hwStopped then .done else .testThri)
  | .testThri => some (p, if p.thri then .done else .setThri)
  | .setThri => some ({ p with thri := true }, .xTest)
  | .xTest => some (p, if p.xChar ≠ 0 then .xStatus else .emptyHead)
  | .xStatus => some (p, if a.busy then .done else .xSend)
  -- the flow control character is no byte of the ring
  | .xSend => some (p, .xClear)
  | .xClear => some ({ p with xChar := 0 }, .done)
  | .emptyHead => some (p, .emptyTail p.xmit.head)
  | .emptyTail head => some (p, if head = p.xmit.tail then .clearThri else .stopTest)
  | .stopTest => some (p, if p.stopped then .clearThri else .hwStopTest)
  | .hwStopTest => some (p, if p.hwStopped then .clearThri else .status fifo)
  | .clearThri => some ({ p with thri := false }, .done)
  | .status count => some (p, if a.busy then .lastHead else .loadTail count)
  | .loadTail count => some (p, .loadByte count ⟨p.xmit.tail, p.xmit.tail_lt⟩)
  | .loadByte count tail => some (p, .write count (p.xmit.buf tail))
  | .write count c => some ({ p with sent := p.sent ++ [c] }, .reloadTail count)
  | .reloadTail count => some (p, .storeTail count ⟨p.xmit.tail, p.xmit.tail_lt⟩)
  | .storeTail count tail => some ({ p with xmit := p.xmit.advance tail }, .againHead count)
  | .againHead count => some (p, .againTail count p.xmit.head)
  | .againTail count head =>
      some (p, if head = p.xmit.tail then .lastHead else if 1 < count then .status (count - 1) else .lastHead)
  | .lastHead => some (p, .lastTail p.xmit.head)
  | .lastTail head => some (p, if head = p.xmit.tail then .clearThri else .done)
  | .done => none

/-! ## All contexts together -/

/-- The port and the calls of `uart_write` so far. -/
structure Line where
  port : Port
  writers : List Pos

inductive Event where
  -- a call of `uart_write` begins
  | call (fromUser : Bool) (buf : List UInt8)
  -- one makes its next access
  | turn (i : Nat) (a : Answer)
  | putChar (ch : UInt8)
  | start (busy : List Bool)
  | interrupt (rounds : List Round)
  -- flow control, `uart_stop` and `uart_flush_chars`
  | flags (xChar : UInt8) (thri stopped hwStopped : Bool)

def Line.step (fifo : Nat) (s : Line) : Event → Option Line
  | .call fromUser buf => some { s with writers := s.writers ++ [if fromUser then .room buf else .fill buf] }
  | .turn i a =>
      match s.writers[i]? with
      | none => none
      | some w => (w.step fifo a s.port).map fun r => ⟨r.1, s.writers.set i r.2⟩
  | .putChar ch => some { s with port := uartPutChar ch s.port }
  | .start busy => some { s with port := uartStart fifo busy s.port }
  | .interrupt rounds => some { s with port := uartInterrupt fifo 0 rounds s.port }
  | .flags xChar thri stopped hwStopped =>
      some { s with
        port := { s.port with xChar := xChar, thri := thri, stopped := stopped, hwStopped := hwStopped } }

/-- An empty ring, whatever the old cells and the flags are. -/
def Line.idle (buf : Nat → Cell) (pos : Fin serialXmitSize) (xChar : UInt8)
    (thri stopped hwStopped : Bool) : Line where
  port := {
    xmit := ⟨buf, pos, pos, pos.isLt, pos.isLt⟩
    xChar := xChar
    thri := thri
    stopped := stopped
    hwStopped := hwStopped
    accepted := []
    sent := [] }
  writers := []

/-! ## What must hold -/

/-- The byte is in the register, and the tail still stands on it. -/
def Pos.underway : Pos → Bool
  | .reloadTail _ => true
  | .storeTail _ _ => true
  | _ => false

def Line.underway (s : Line) : Nat := s.writers.countP Pos.underway

/-- The ring holds the last of the accepted bytes, and what has been sent, followed by what is still to
be sent, is what was accepted. -/
structure Line.Exact (s : Line) : Prop where
  ring : s.port.xmit.contents <:+ s.port.accepted
  underway : s.underway ≤ s.port.xmit.contents.length
  order : s.port.sent ++ s.port.xmit.contents.drop s.underway = s.port.accepted

/-- `uart_write` sends the byte that is next and moves the tail that it has read, and no one else sends
while its byte is underway. -/
def Line.Orderly (fifo : Nat) (s : Line) : Event → Prop
  | .turn i _ =>
      match s.writers[i]? with
      | some (.write _ c) => s.port.xmit.contents[s.underway]? = some c
      | some (.storeTail _ tail) => tail = s.port.xmit.tail
      | _ => True
  | .start busy => (uartStart fifo busy s.port).sent = s.port.sent ∨ s.underway = 0
  | .interrupt rounds => (uartInterrupt fifo 0 rounds s.port).sent = s.port.sent ∨ s.underway = 0
  | _ => True

end CameraFw.Uart
