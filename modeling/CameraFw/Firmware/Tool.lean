import CameraFw.Base.CString
import CameraFw.Firmware.Checksum

/-!
# How `checksum` ends

`main` of `checksum.c` again, with its arguments, the system calls that may fail, the memory around the
mapped file and the exit status. `Firmware.main` has what it does to a file that can be mapped.
-/

namespace CameraFw.Firmware

open CameraFw.Base

/-! ## Numbers -/

def digitVal (c : UInt8) : Nat :=
  if isdigit c then c.toNat - 48
  else if 97 ≤ c ∧ c ≤ 122 then c.toNat - 87
  else if 65 ≤ c ∧ c ≤ 90 then c.toNat - 55
  else 36

def digitsIn (base : Nat) (s : List UInt8) : Nat :=
  (s.takeWhile fun c => digitVal c < base).foldl (fun n c => base * n + digitVal c) 0

/-- The number to base 16 behind `0x`, to base 8 behind `0`, else to base 10. -/
def unsignedNumber : List UInt8 → Nat
  | 48 :: 120 :: s => digitsIn 16 s
  | 48 :: 88 :: s => digitsIn 16 s
  | 48 :: s => digitsIn 8 s
  | s => digitsIn 10 s

/-- `strtol(s, NULL, 0)` before it is held within a `long`; `toInt` does that. -/
def number (s : List UInt8) : Int :=
  match trimStart s with
  | 45 :: s => -unsignedNumber s
  | 43 :: s => unsignedNumber s
  | s => unsignedNumber s

/-! ## The memory of the process -/

/-- The system that the tool runs on. -/
structure Host where
  -- what `open` finds, if it succeeds
  file : List UInt8 → Option (List UInt8)
  fstat : Bool
  mmap : Bool
  -- the bytes around the file in the memory, counted from the beginning of the mapping; `none` where
  -- there is no memory
  around : Int → Option UInt8
  -- whether the program lives on after a store to the byte there
  endures : Int → Bool
  -- whether `munmap(NULL, st.st_size)`, with a size that has never been set, takes the program away
  unmaps : Bool

def Host.byteAt (host : Host) (m : List UInt8) (o : Int) : Option UInt8 :=
  if 0 ≤ o ∧ o < m.length then m[o.toNat]? else host.around o

/-- `fptr[i]`; `none` is a signal. -/
def Host.wordAt (host : Host) (m : List UInt8) (i : Int) : Option (BitVec 32) :=
  match host.byteAt m (4 * i), host.byteAt m (4 * i + 1), host.byteAt m (4 * i + 2),
    host.byteAt m (4 * i + 3) with
  | some a, some b, some c, some d => some (BitVec.ofNat 32 (le [a, b, c, d]))
  | _, _, _, _ => none

/-- Whether `fptr[i] = w` goes through. -/
def Host.storesAt (host : Host) (m : List UInt8) (i : Int) : Bool :=
  (List.range 4).all fun k => (0 ≤ 4 * i + k ∧ 4 * i + k < m.length) ∨ host.endures (4 * i + k)

/-- The bytes of the file under `fptr[i] = w`; those of the word that lie outside do not get into it. -/
def storeWord (m : List UInt8) (i : Int) (w : BitVec 32) : List UInt8 :=
  m.mapIdx fun k b =>
    if 4 * i ≤ k ∧ (k : Int) < 4 * i + 4 then (toLE 4 w.toNat).getD ((k : Int) - 4 * i).toNat 0 else b

/-- The `n` rounds of the loop that are left at `i`. -/
def Host.sumLoop (host : Host) (m : List UInt8) : Nat → Int → BitVec 32 → Option (BitVec 32)
  | 0, _, checksum => some checksum
  | n + 1, i, checksum =>
      match host.wordAt m i with
      | none => none
      | some w => host.sumLoop m n (i + 1) (checksum + w)

/-! ## The tool -/

/-- How it has ended, with `none` for a signal; the offset that a word was stored at; what is in the
file then. -/
structure Ended where
  status : Option Int
  stored : Option Int
  file : Option (List UInt8)
  deriving DecidableEq, Repr

def startOffset (argv : List (List UInt8)) : Int := toInt (number (argv.getD 2 []))
def endOffset (argv : List (List UInt8)) : Int := toInt (number (argv.getD 3 []))

/-- A fifth argument is taken only if it is the last one. -/
def checksumOffset (argv : List (List UInt8)) : Int :=
  if argv.length = 5 then toInt (number (argv.getD 4 [])) else endOffset argv

/-- The checks in front of `mmap`; the file that is to be mapped. -/
def Host.opened (host : Host) (argv : List (List UInt8)) : Option (List UInt8) :=
  if argv.length < 4 then none
  else if endOffset argv = 0 then none
  else
    match host.file (argv.getD 1 []) with
    | none => none
    | some m => if host.fstat = false then none else some m

/-- `mmap` and the checks behind it. -/
def Host.mapped (host : Host) (argv : List (List UInt8)) (m : List UInt8) : Bool :=
  host.mmap ∧ m ≠ [] ∧ ¬(m.length : Int) < endOffset argv ∧ ¬endOffset argv < startOffset argv

/-- The sum and the store. -/
def Host.insert (host : Host) (argv : List (List UInt8)) (m : List UInt8) : Ended :=
  match host.sumLoop m ((endOffset argv).tdiv 4 - (startOffset argv).tdiv 4).toNat
    ((startOffset argv).tdiv 4) 0 with
  | none => ⟨none, none, some m⟩
  | some checksum =>
      let i := (checksumOffset argv).tdiv 4
      if host.storesAt m i then ⟨some 0, some (4 * i), some (storeWord m i (~~~checksum + 1))⟩
      else ⟨none, none, some m⟩

/-- `main`. The variable `errcode` is never set to anything but 0. -/
def Host.tool (host : Host) (argv : List (List UInt8)) : Ended :=
  let file := host.file (argv.getD 1 [])
  match host.opened argv with
  | none => if host.unmaps then ⟨none, none, file⟩ else ⟨some 0, none, file⟩
  | some m => if host.mapped argv m then host.insert argv m else ⟨some 0, none, file⟩

/-! ## What its status is for -/

/-- The offsets lie in a file of `size` bytes, and so does the word of the last one. -/
structure OffsetsInside (argv : List (List UInt8)) (size : Nat) : Prop where
  start : 0 ≤ startOffset argv
  stop : endOffset argv ≤ size
  checksum : 0 ≤ checksumOffset argv
  word : 4 * (checksumOffset argv).tdiv 4 + 4 ≤ size

/-- The status is 0 just if a word was stored in the file, only for offsets inside, and without it the
file is as it was. -/
structure Honest (host : Host) (argv : List (List UInt8)) : Prop where
  status : (host.tool argv).status = some 0 ↔
    ∃ m off, host.file (argv.getD 1 []) = some m ∧ (host.tool argv).stored = some off ∧ 0 ≤ off ∧
      off + 4 ≤ m.length ∧ 4 ∣ off
  offsets : (host.tool argv).status = some 0 → ∀ m, host.file (argv.getD 1 []) = some m →
    OffsetsInside argv m.length
  unchanged : (host.tool argv).status ≠ some 0 → (host.tool argv).file = host.file (argv.getD 1 [])

/-- An access of the sum or of the store ends the program. -/
def Host.Faults (host : Host) (argv : List (List UInt8)) (m : List UInt8) : Prop :=
  (∃ i, (startOffset argv).tdiv 4 ≤ i ∧ i < (endOffset argv).tdiv 4 ∧ host.wordAt m i = none) ∨
    host.storesAt m ((checksumOffset argv).tdiv 4) = false

end CameraFw.Firmware
