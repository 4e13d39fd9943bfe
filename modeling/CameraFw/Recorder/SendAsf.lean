import CameraFw.Base.CString
import CameraFw.Base.Loop
import CameraFw.Recorder.Parser

/-!
# `send_asf` and `make_it_seekable`

The outside world answers each `read` and each `smbc_write` with `none` for `-1`, or with `some k` when
it is ready to move `k + 1` bytes: the call then moves `k + 1` bytes or as many as were asked for or are
there, whichever is least. So a call that is asked for at least one byte, and has one, moves at least
one, and every split of the stream into such reads, and every sequence of short and full writes, is one
sequence of answers.
-/

namespace CameraFw.Recorder

open CameraFw.Base

def smbcBufSize : Nat := 2048

/-- An `int` as the `size_t` or `DWORD` it is converted to. -/
def word32 (x : Int) : Nat := (x % 4294967296).toNat

def word64 (x : Int) : Nat := (x % 18446744073709551616).toNat

def readFd (ifd : List UInt8) (n : Nat) : Option Nat → Option (List UInt8 × List UInt8)
  | none => none
  | some k => some (ifd.take (min (k + 1) n), ifd.drop (min (k + 1) n))

def smbcWrite (n : Nat) : Option Nat → Option Nat
  | none => none
  | some k => some (min (k + 1) n)

/-! ## `make_it_seekable` -/

inductive SmbCall where
  | lseek (offset : Nat)
  | write (bytes : List UInt8)
  deriving DecidableEq, Repr

def asfSampleIndexObject : List UInt8 :=
  [0x90, 0x08, 0x00, 0x33, 0xB1, 0xE5, 0xCF, 0x11, 0x89, 0xF4, 0x00, 0xA0, 0xC9, 0x03, 0x49, 0xCB]
    ++ toLE 8 asfSampleIndexObjectSize
    ++ [0x01, 0xC0, 0xBA, 0xBA, 0x72, 0x2B, 0x07, 0xA9, 0xA8, 0xF9, 0x74, 0x23, 0xE9, 0x00, 0x6C, 0xD9]
    ++ toLE 8 10000000 ++ toLE 4 0 ++ toLE 4 0

/-- Offsets of the fields of `ASF_FILE_PROPERTY`, which lies behind `ASF_HEADER`. -/
def fpFileLen : Nat := asfHeaderSize + 40
def fpDataPacketCount : Nat := asfHeaderSize + 56
def fpPlayDuration : Nat := asfHeaderSize + 64
def fpPlayDuration2 : Nat := asfHeaderSize + 68
def fpSendDuration : Nat := asfHeaderSize + 72
def fpSendDuration2 : Nat := asfHeaderSize + 76
def fpFlags : Nat := asfHeaderSize + 88

/-- Offsets of the fields of `ASF_DATA`, which lies behind the header object. -/
def dpObjectLen (hohSize : Nat) : Nat := hohSize + 16
def dpDummy (hohSize : Nat) : Nat := hohSize + 20
def dpTotalDataPackets (hohSize : Nat) : Nat := hohSize + 40

/-- `header_buf` with the fields that `make_it_seekable` sets, in the order in which it sets them. -/
def seekableHeader (ds : SmbcAsfDs) : List UInt8 :=
  let hb := ds.headerBuf
  -- `broadcast` is bit 0 and `seekable` bit 1 of the flags word
  let hb := store hb fpFlags (toLE 4 (le32 hb fpFlags / 4 * 4 + 2))
  let hb := store hb fpFileLen (toLE 4 (word32 ds.prevDoneOffset))
  let hb := store hb fpPlayDuration (toLE 4 (ds.prevPresentTime * 10000).toNat)
  let hb := store hb fpPlayDuration2 (toLE 4 0)
  let hb := store hb fpSendDuration (toLE 4 (ds.prevPresentTime * 10000).toNat)
  let hb := store hb fpSendDuration2 (toLE 4 0)
  let hb := store hb fpDataPacketCount (toLE 4 (word32 ((ds.packetCount : Int) - 1)))
  let hb := store hb (dpObjectLen ds.hohSize) (toLE 4 (word32 ((le32 hb fpFileLen : Int) - ds.hohSize)))
  let hb := store hb (dpDummy ds.hohSize) (toLE 4 0)
  store hb (dpTotalDataPackets ds.hohSize) (toLE 8 (word64 ((ds.packetCount : Int) - 1)))

/-- The part of `header_buf` that `make_it_seekable` writes back over the start of the file. -/
def writtenHeader (ds : SmbcAsfDs) : List UInt8 := load (seekableHeader ds) 0 (ds.hohSize + asfDataSize)

/-- `make_it_seekable`: what it asks of the output file; the results of these calls are not looked at. -/
def makeItSeekable (ds : SmbcAsfDs) : List SmbCall :=
  [.lseek 0, .write (writtenHeader ds),
    .lseek (le32 (seekableHeader ds) fpFileLen), .write asfSampleIndexObject]

/-! ## `send_asf` -/

/-- The variables of `send_asf` at the head of its loop, with what the socket still has to deliver and
what the output file has been given. -/
structure SendSt where
  buf : List UInt8
  bufSize : Int
  doneSize : Int
  asfMaxSize : Int
  asfDs : SmbcAsfDs
  ifd : List UInt8
  ofd : List UInt8
  deriving DecidableEq, Repr

/-- What the outside world does in one round: whether SIGHUP has been seen at the loop head, and how it
answers the `read` and the `smbc_write`. -/
structure Turn where
  stop : Bool
  rd : Option Nat
  wr : Option Nat
  deriving DecidableEq, Repr

structure SendExit where
  errcode : Int
  st : SendSt
  deriving DecidableEq, Repr

def crlfcrlf : List UInt8 := [13, 10, 13, 10]

/-- `skip_http_header`: the buffer, the number of bytes in it and the rest of the socket; `none` is its
`-1`. -/
def skipHttpHeader (ifd buf : List UInt8) (rd : Option Nat) : Option (List UInt8 × Int × List UInt8) :=
  match readFd ifd 128 rd with
  | none => none
  | some (got, rest) =>
      let buf := store (store buf 0 got) got.length [0]
      match strstr crlfcrlf (cstr buf) with
      | none => none
      | some i =>
          let p := i + crlfcrlf.length
          let bufSize : Int := got.length - p
          some (store buf 0 (load buf p bufSize.toNat), bufSize, rest)

def readRequest (s : SendSt) : Int :=
  if s.asfMaxSize > smbcBufSize then smbcBufSize - s.bufSize else s.asfMaxSize - s.bufSize

def processIt (s : SendSt) : SendSt :=
  if s.bufSize > s.doneSize then
    let r := processAsfState (s.buf.drop s.doneSize.toNat) (s.bufSize - s.doneSize) s.asfDs
    { s with doneSize := s.doneSize + r.1, asfDs := r.2 }
  else s

/-- "get asf content" and "process it"; `none` where the code leaves for `errout`. -/
def fill (s : SendSt) (rd : Option Nat) : Option SendSt :=
  match readFd s.ifd (word32 (readRequest s)) rd with
  | none => none
  | some (got, rest) =>
      if got.length = 0 then none
      else
        some (processIt { s with
          buf := store s.buf s.bufSize.toNat got
          bufSize := s.bufSize + got.length
          ifd := rest })

def writeRequest (s : SendSt) : Int := if s.doneSize > s.bufSize then s.bufSize else s.doneSize

/-- "send it out" and "move remaining"; `none` where the code leaves for `errout`. A return value of
`-1` is never `EAGAIN`, so both tests of `EXP_ERR` end the recording. -/
def drain (s : SendSt) (wr : Option Nat) : Option SendSt :=
  match smbcWrite (word32 (writeRequest s)) wr with
  | none => none
  | some ret =>
      if ret = 0 then none
      else
        let left := s.bufSize - ret
        some { s with
          ofd := s.ofd ++ load s.buf 0 ret
          bufSize := left
          doneSize := s.doneSize - ret
          asfMaxSize := s.asfMaxSize - ret
          buf := if left ≠ 0 then store s.buf 0 (load s.buf ret left.toNat) else s.buf }

def sendPass (t : Turn) (s : SendSt) : Pass SendSt SendExit :=
  if s.asfMaxSize > 0 ∧ t.stop = false then
    match fill s t.rd with
    | none => .leave ⟨-1, s⟩
    | some s₁ =>
        match drain s₁ t.wr with
        | none => .leave ⟨-1, s₁⟩
        | some s₂ => .again s₂
  else .leave ⟨0, s⟩

def SendSt.start (mem ifd : List UInt8) (asfMaxSize : Int) : SendSt where
  buf := mem
  bufSize := 0
  doneSize := 0
  asfMaxSize := asfMaxSize
  asfDs := .zero
  ifd := ifd
  ofd := []

def sendStart (mem ifd : List UInt8) (hdr : Option Nat) (asfMaxSize : Int) : Option SendSt :=
  match skipHttpHeader ifd mem hdr with
  | none => none
  | some (buf, bufSize, rest) =>
      if bufSize = -1 then none
      else some { SendSt.start mem ifd asfMaxSize with buf := buf, bufSize := bufSize, ifd := rest }

/-- `send_asf`: `mem` is what the stack buffer holds before the call, `hdr` the answer to the read of
`skip_http_header`. Every round but the last writes a byte, so `asf_max_size + 1` rounds are enough
(`sendAsf_isSome`). -/
def sendAsf (mem ifd : List UInt8) (hdr : Option Nat) (env : Nat → Turn) (asfMaxSize : Int) :
    Option SendExit :=
  match sendStart mem ifd hdr asfMaxSize with
  | none => some ⟨-1, SendSt.start mem ifd asfMaxSize⟩
  | some s => whileLoop sendPass env (asfMaxSize.toNat + 1) 0 s

end CameraFw.Recorder
