import CameraFw.Recorder.SendAsf

/-!
# The stream behind the parser

The parser only ever sees a window of the stream. Here the same walk is made over the whole stream: from
the end of the header objects it steps from packet to packet, and how far it gets is decided by how many
bytes of the stream there are, not by the reads that brought them. On top of the walk a recording is no
more than two totals, of the bytes received and of the bytes written. `asfStream` describes the streams
that the streaming server sends.
-/

namespace CameraFw.Recorder

open CameraFw.Base

/-! ## The walk over the stream -/

/-- The parser behind the header object, if `v` is what the buffer held when the header object was parsed. -/
def afterHeader (v : List UInt8) : SmbcAsfDs :=
  (changeState
    { SmbcAsfDs.zero with
      hohSize := hohSizeOf v
      headerBuf := store SmbcAsfDs.zero.headerBuf 0 (load v 0 (hohSizeOf v + dataObjectHeaderSize)) }
    .FPH firstPacketHeaderSize (hohSizeOf v + dataObjectHeaderSize)).2

/-- One packet further, with the whole stream `S` in sight. -/
def packetStep (S : List UInt8) (ds : SmbcAsfDs) : SmbcAsfDs :=
  match processState (S.drop ds.doneOffset) ds.stateSize ds with
  | none => ds
  | some r => r.2

def headersIn (S : List UInt8) (R : Nat) : Nat → SmbcAsfDs → Nat
  | 0, _ => 0
  | fuel + 1, ds =>
      if ds.doneOffset + ds.stateSize ≤ R then headersIn S R fuel (packetStep S ds) + 1 else 0

/-- How many packets, from `ds` on, have their whole packet header in the first `R` bytes of the stream. -/
def headerCount (S : List UInt8) (R : Nat) (ds : SmbcAsfDs) : Nat := headersIn S R (R + 1) ds

def parsed (S : List UInt8) (R : Nat) (ds : SmbcAsfDs) : SmbcAsfDs :=
  (packetStep S)^[headerCount S R ds] ds

def packetStart (S : List UInt8) (ds : SmbcAsfDs) (j : Nat) : Nat := ((packetStep S)^[j] ds).doneOffset

/-- Where the last packet starts that has its packet header in the first `R` bytes; the start of the
file before there is one. -/
def lastPacketStart (S : List UInt8) (R : Nat) (ds : SmbcAsfDs) : Nat :=
  match headerCount S R ds with
  | 0 => 0
  | k + 1 => packetStart S ds k

/-- How far the parser reaches with the first `R` bytes: the end of the last packet whose header they hold. -/
def reach (S : List UInt8) (R : Nat) (ds : SmbcAsfDs) : Nat := packetStart S ds (headerCount S R ds)

def reachOf (S v : List UInt8) (R : Nat) : Nat := reach S R (afterHeader v)

/-! ## Received and written totals -/

structure Flow where
  rcvd : Nat
  sent : Nat
  deriving DecidableEq, Repr

def Flow.room (limit : Nat) (f : Flow) : Nat :=
  if limit - f.sent > smbcBufSize then smbcBufSize - (f.rcvd - f.sent) else limit - f.rcvd

/-- A read from a socket that has `avail` bytes in all and is ready for `r + 1` of them. -/
def Flow.receive (avail limit : Nat) (f : Flow) (r : Nat) : Flow :=
  { f with rcvd := f.rcvd + min (min (r + 1) (f.room limit)) (avail - f.rcvd) }

/-- A write to a server that is ready for `w + 1` bytes: it ends at the packet end the parser has reached. -/
def Flow.send (reach : Nat → Nat) (f : Flow) (w : Nat) : Flow :=
  { f with sent := f.sent + min (w + 1) (min (reach f.rcvd) f.rcvd - f.sent) }

def flowPass (avail limit : Nat) (reach : Nat → Nat) (t : Turn) (f : Flow) : Pass Flow (Int × Flow) :=
  if f.sent < limit ∧ t.stop = false then
    match t.rd with
    | none => .leave (-1, f)
    | some r =>
        let f₁ := f.receive avail limit r
        if f₁.rcvd = f.rcvd then .leave (-1, f)
        else
          match t.wr with
          | none => .leave (-1, f₁)
          | some w =>
              let f₂ := f₁.send reach w
              if f₂.sent = f₁.sent then .leave (-1, f₁) else .again f₂
  else .leave (0, f)

/-- The totals at the head of each round, for reads and writes that are ready for `rd n + 1` and `wr n +
1` bytes. -/
def flow (avail limit : Nat) (reach : Nat → Nat) (rd wr : Nat → Nat) (f₀ : Flow) : Nat → Flow
  | 0 => f₀
  | n + 1 => ((flow avail limit reach rd wr f₀ n).receive avail limit (rd n)).send reach (wr n)

/-! ## The first read -/

def firstBytesRcvd (h S : List UInt8) (k : Nat) : Nat := min (min (k + 1) 128 - h.length) S.length

def httpBuf (mem h S : List UInt8) (k : Nat) : List UInt8 :=
  let got := (h ++ S).take (min (k + 1) 128)
  got ++ 0 :: mem.drop (got.length + 1)

/-- What the buffer holds when the header object is parsed: the stream as far as the first read of the
loop has brought it, and behind it what the read of the HTTP header and the memory before the call have
left there. -/
def headerView (mem h S : List UInt8) (hdr : Option Nat) (L : Int) (rd : Option Nat) : List UInt8 :=
  let R := ((⟨firstBytesRcvd h S (hdr.getD 0), 0⟩ : Flow).receive S.length L.toNat (rd.getD 0)).rcvd
  S.take R ++ (httpBuf mem h S (hdr.getD 0)).drop R

/-- The totals of a recording at the head of each round, from the stream and the answers of the outside
world. -/
def totals (mem h S : List UInt8) (hdr : Option Nat) (env : Nat → Turn) (L : Int) : Nat → Flow :=
  flow S.length L.toNat (reachOf S (headerView mem h S hdr L (env 0).rd)) (fun n => (env n).rd.getD 0)
    (fun n => (env n).wr.getD 0) ⟨firstBytesRcvd h S (hdr.getD 0), 0⟩

/-- The totals of a recording when it ends; nothing is received if the HTTP header is not complete in
the first read. -/
def endTotals (mem h S : List UInt8) (hdr : Option Nat) (env : Nat → Turn) (L : Int) : Flow :=
  let v := headerView mem h S hdr L (env 0).rd
  match hdr with
  | none => ⟨0, 0⟩
  | some k =>
      if h.length ≤ min (k + 1) 128 then
        match whileLoop (flowPass S.length L.toNat (reachOf S v)) env (L.toNat + 1) 0
          ⟨firstBytesRcvd h S k, 0⟩ with
        | none => ⟨0, 0⟩
        | some r => r.2
      else ⟨0, 0⟩

/-! ## Well-formed streams -/

/-- What a packet carries: the bytes of its headers that the parser does not read, its payload and its
padding. -/
structure Packet where
  -- error correction data and the flag bytes of the payload information
  pre : List UInt8
  -- send time and duration
  mid : List UInt8
  -- the payload header up to the replicated data length
  tag : List UInt8
  payload : List UInt8
  padding : List UInt8
  pre_len : pre.length = 5
  mid_len : mid.length = 6
  tag_len : tag.length = 8
  payload_lt : payload.length < 65536
  padding_lt : padding.length < 65536

def Packet.lead (p : Packet) : List UInt8 := p.pre ++ (toLE 2 p.padding.length ++ (p.mid ++ p.tag))

def Packet.otherBytes (p : Packet) : List UInt8 :=
  p.lead ++ (toLE 2 p.payload.length ++ (p.payload ++ p.padding))

def Packet.firstBytes (p : Packet) (frameSize presentTime : Nat) : List UInt8 :=
  p.lead ++ (toLE 4 frameSize ++
    (toLE 4 presentTime ++ (toLE 2 p.payload.length ++ (p.payload ++ p.padding))))

/-- A frame cut into packets: the payloads of the continuation packets are not empty and only the last
packet of a frame is padded. -/
structure Frame where
  first : Packet
  rest : List Packet
  presentTime : Nat
  size_lt : first.payload.length + (rest.map fun p => p.payload.length).sum < 4294967296
  rest_pos : ∀ p ∈ rest, 0 < p.payload.length
  padded : ∀ p ∈ (first :: rest).dropLast, p.padding = []

def Frame.size (f : Frame) : Nat := f.first.payload.length + (f.rest.map fun p => p.payload.length).sum

def Frame.packets (f : Frame) : List (List UInt8) :=
  f.first.firstBytes f.size f.presentTime :: f.rest.map Packet.otherBytes

/-- The stream of a header object with a data-object header, and of the packets of its frames. -/
def asfStream (header : List UInt8) (frames : List Frame) : List UInt8 :=
  header ++ (frames.flatMap Frame.packets).flatten

/-- A header object, of the size that its `objectNum` says, and the data-object header behind it. -/
def HeaderObjects (header : List UInt8) : Prop := header.length = hohSizeOf header + dataObjectHeaderSize

instance (header : List UInt8) : Decidable (HeaderObjects header) :=
  inferInstanceAs (Decidable (header.length = hohSizeOf header + dataObjectHeaderSize))

/-- Where packet `j` of the stream starts: behind the data-object header and the packets before it. -/
def streamBoundary (header : List UInt8) (frames : List Frame) (j : Nat) : Nat :=
  header.length + (((frames.flatMap Frame.packets).take j).map List.length).sum

end CameraFw.Recorder
