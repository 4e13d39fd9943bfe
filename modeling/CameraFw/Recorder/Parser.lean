import CameraFw.Base.Bytes

/-!
# The ASF parser of the recorder

`smbc_rec.c` follows the packets of the stream it records with a small state machine, `struct
smbc_asf_ds`, that `process_state` advances by one object of the stream and `process_asf_state` by as
many as the buffer holds. The offsets are those of the packed structures of `asfparser.h`.
-/

namespace CameraFw.Recorder

open CameraFw.Base

/-! ## Sizes of the packed structures -/

def asfHeaderSize : Nat := 30
def asfFilePropertySize : Nat := 104
def asfVideoStreamPropertySize : Nat := 147
def asfAudioStreamProperty1Size : Nat := 78
def asfAudioStreamProperty2Size : Nat := 18
def asfAudioStreamProperty3Size : Nat := 8
def asfHeaderExtensionSize : Nat := 46
def asfDataSize : Nat := 50
def asfErrorCorrectionSize : Nat := 3
def asfPayloadInformationSize : Nat := 10
def payloadFirstPacketHeaderSize : Nat := 18
def payloadOtherPacketHeaderSize : Nat := 10
def asfSampleIndexObjectSize : Nat := 56

def avHeaderObjectHeaderSize : Nat :=
  asfHeaderSize + asfFilePropertySize + asfVideoStreamPropertySize + asfAudioStreamProperty1Size
    + asfAudioStreamProperty2Size + asfAudioStreamProperty3Size + asfHeaderExtensionSize

def videoHeaderObjectHeaderSize : Nat :=
  asfHeaderSize + asfFilePropertySize + asfVideoStreamPropertySize + asfHeaderExtensionSize

def dataObjectHeaderSize : Nat := asfDataSize

def firstPacketHeaderSize : Nat :=
  asfErrorCorrectionSize + asfPayloadInformationSize + payloadFirstPacketHeaderSize

def otherPacketHeaderSize : Nat :=
  asfErrorCorrectionSize + asfPayloadInformationSize + payloadOtherPacketHeaderSize

/-! ## The fields that are read from the buffer -/

def objectNum (buf : List UInt8) : Nat := le32 buf 24

def paddingLength (buf : List UInt8) : Nat := le16 buf (asfErrorCorrectionSize + 2)

/-- `fpp` and `opp` point behind the payload information. -/
def payloadHeader (off : Nat) : Nat := asfPayloadInformationSize + asfErrorCorrectionSize + off

def fppFrameSize (buf : List UInt8) : Nat := le32 buf (payloadHeader 8)
def fppPresentTime (buf : List UInt8) : Nat := le32 buf (payloadHeader 12)
def fppLen (buf : List UInt8) : Nat := le16 buf (payloadHeader 16)
def oppLen (buf : List UInt8) : Nat := le16 buf (payloadHeader 8)

/-! ## The state machine -/

inductive SmbcState where
  | HOH | FPH | OPH
  deriving DecidableEq, Repr

/-- `struct smbc_asf_ds`. The `int` fields that take part in signed arithmetic modulo `2^32` are bit
vectors. -/
structure SmbcAsfDs where
  stateSize : Nat
  state : SmbcState
  rFrameSize : BitVec 32
  hohSize : Nat
  packetCount : Nat
  doneOffset : Nat
  prevDoneOffset : Nat
  presentTime : BitVec 32
  prevPresentTime : BitVec 32
  headerBuf : List UInt8
  deriving DecidableEq, Repr

/-- `memset(&asf_ds, 0, sizeof(struct smbc_asf_ds))`; the first state has the required size zero. -/
def SmbcAsfDs.zero : SmbcAsfDs where
  stateSize := 0
  state := .HOH
  rFrameSize := 0
  hohSize := 0
  packetCount := 0
  doneOffset := 0
  prevDoneOffset := 0
  presentTime := 0
  prevPresentTime := 0
  headerBuf := List.replicate (avHeaderObjectHeaderSize + dataObjectHeaderSize + 1) 0

/-- `CHANGE_STATE`, together with the `done_size` that `process_state` then returns. -/
def changeState (ds : SmbcAsfDs) (nextState : SmbcState) (nextStateSize thisStateDoneSize : Nat) :
    Nat × SmbcAsfDs :=
  (thisStateDoneSize,
    { ds with
      state := nextState
      stateSize := nextStateSize
      prevDoneOffset := ds.doneOffset
      doneOffset := ds.doneOffset + thisStateDoneSize
      packetCount := ds.packetCount + 1 })

def hohSizeOf (buf : List UInt8) : Nat :=
  if objectNum buf = 4 then avHeaderObjectHeaderSize else videoHeaderObjectHeaderSize

/-- `process_state`; `none` is its `-1`, which leaves the state as it is. The enumeration has no other
state, so the `default` branch of the switch has no counterpart. -/
def processState (buf : List UInt8) (bufSize : Int) (ds : SmbcAsfDs) : Option (Nat × SmbcAsfDs) :=
  if bufSize < ds.stateSize then none
  else
    match ds.state with
    | .HOH =>
        let hohSize := hohSizeOf buf
        let ds := { ds with
          hohSize := hohSize
          headerBuf := store ds.headerBuf 0 (load buf 0 (hohSize + dataObjectHeaderSize)) }
        some (changeState ds .FPH firstPacketHeaderSize (hohSize + dataObjectHeaderSize))
    | .FPH =>
        let ds := { ds with
          rFrameSize := BitVec.ofNat 32 (fppFrameSize buf) - BitVec.ofNat 32 (fppLen buf)
          prevPresentTime := ds.presentTime
          presentTime := BitVec.ofNat 32 (fppPresentTime buf) }
        if ds.rFrameSize ≠ 0 then
          some (changeState ds .OPH otherPacketHeaderSize (fppLen buf + firstPacketHeaderSize))
        else
          some (changeState ds .FPH firstPacketHeaderSize
            (fppLen buf + firstPacketHeaderSize + paddingLength buf))
    | .OPH =>
        let ds := { ds with rFrameSize := ds.rFrameSize - BitVec.ofNat 32 (oppLen buf) }
        if ds.rFrameSize ≠ 0 then
          some (changeState ds .OPH otherPacketHeaderSize (oppLen buf + otherPacketHeaderSize))
        else
          some (changeState ds .FPH firstPacketHeaderSize
            (oppLen buf + otherPacketHeaderSize + paddingLength buf))

/-- The loop of `process_asf_state`, with the `total_done_size` so far. Every step of `process_state`
moves on by at least one byte, so `fuel` rounds are enough for a buffer of `fuel` bytes
(`processLoop_eq`). -/
def processLoop : Nat → List UInt8 → Int → Nat → SmbcAsfDs → Nat × SmbcAsfDs
  | 0, _, _, total, ds => (total, ds)
  | fuel + 1, buf, bufSize, total, ds =>
      if 0 < bufSize then
        match processState buf bufSize ds with
        | none => (total, ds)
        | some (doneSize, ds') =>
            processLoop fuel (buf.drop doneSize) (bufSize - doneSize) (total + doneSize) ds'
      else (total, ds)

def processAsfState (buf : List UInt8) (bufSize : Int) (ds : SmbcAsfDs) : Nat × SmbcAsfDs :=
  processLoop bufSize.toNat buf bufSize 0 ds

end CameraFw.Recorder
