import CameraFw.Base.Bytes

/-!
# Checksums of the firmware image

`checksum` maps the image into memory, sums its 32-bit words over a range and writes the complement of
the sum into another word. `FW.sh` calls it twice for each entry of `checksum_map` and does not look at
how it ends.
-/

namespace CameraFw.Firmware

open CameraFw.Base

/-! ## `checksum` -/

/-- `strtol` into an `int`: the number is held within a 64-bit `long` and then cut to its low 32 bits. -/
def toInt (x : Int) : Int := (max (-2 ^ 63) (min (2 ^ 63 - 1) x)).bmod (2 ^ 32)

/-- The word at byte offset `off`. -/
def word (m : List UInt8) (off : Nat) : BitVec 32 := BitVec.ofNat 32 (le32 m off)

/-- `fptr[i]`, which exists only within the mapping. -/
def fptr (m : List UInt8) (i : Int) : Option (BitVec 32) :=
  if 0 ≤ i ∧ 4 * i + 4 ≤ m.length then some (word m (4 * i.toNat)) else none

/-- `fptr[i] = w` -/
def setFptr (m : List UInt8) (i : Int) (w : BitVec 32) : Option (List UInt8) :=
  if 0 ≤ i ∧ 4 * i + 4 ≤ m.length then some (store m (4 * i.toNat) (toLE 4 w.toNat)) else none

/-- The `n` rounds of the loop that are left at `i`. -/
def sumLoop (m : List UInt8) : Nat → Int → BitVec 32 → Option (BitVec 32)
  | 0, _, checksum => some checksum
  | n + 1, i, checksum =>
      match fptr m i with
      | none => none
      | some w => sumLoop m n (i + 1) (checksum + w)

/-- `main` of `checksum`: the image afterwards, which an error leaves as it is; `none` if a signal ends it. -/
def main (m : List UInt8) (start stop : Int) (offset : Option Int) : Option (List UInt8) :=
  let startOffset := toInt start
  let endOffset := toInt stop
  if endOffset = 0 then some m
  -- `mmap` of nothing fails
  else if m = [] then some m
  else if (m.length : Int) < endOffset then some m
  else if endOffset < startOffset then some m
  else
    match sumLoop m (endOffset.tdiv 4 - startOffset.tdiv 4).toNat (startOffset.tdiv 4) 0 with
    | none => none
    | some checksum =>
        let checksumOffset := match offset with
          | some x => toInt x
          | none => endOffset
        setFptr m (checksumOffset.tdiv 4) (~~~checksum + 1)

/-! ## `FW.sh` -/

structure Entry where
  start : Nat
  stop : Nat
  deriving DecidableEq, Repr

/-- One run of `checksum`; the image is a file, and stays when the process dies. -/
def runChecksum (start stop offset : Int) (m : List UInt8) : List UInt8 :=
  (main m start stop (some offset)).getD m

def insertChecksum (m : List UInt8) (e : Entry) : List UInt8 :=
  runChecksum 0 (e.stop - 8) (e.stop - 4) (runChecksum e.start (e.stop - 8) (e.stop - 8) m)

def insertChecksums (m : List UInt8) (es : List Entry) : List UInt8 := es.foldl insertChecksum m

/-! ## What the checksums are for -/

/-- The sum of the words of `[a, b)`. -/
def wordSum (m : List UInt8) (a b : Nat) : BitVec 32 :=
  ((List.range ((b - a) / 4)).map fun k => word m (a + 4 * k)).sum

/-- A `checksum_map` for an image of `size` bytes. -/
structure ChecksumMap (size : Nat) where
  entries : List Entry
  aligned : ∀ e ∈ entries, 4 ∣ e.start ∧ 4 ∣ e.stop
  inside : ∀ e ∈ entries, 8 < e.stop ∧ e.stop ≤ size ∧ e.start ≤ e.stop - 8
  ordered : entries.IsChain fun e e' => e.stop + 8 ≤ e'.stop

/-- Both checksums of the entry balance the words in front of them. -/
def Entry.Balanced (e : Entry) (m : List UInt8) : Prop :=
  wordSum m e.start (e.stop - 8) + word m (e.stop - 8) = 0 ∧
    wordSum m 0 (e.stop - 8) + word m (e.stop - 4) = 0

/-- From `m` to `m'` only bytes of the checksums of `es` have changed. -/
def OnlyChecksums (es : List Entry) (m m' : List UInt8) : Prop :=
  m'.length = m.length ∧ ∀ off n, (∀ e ∈ es, off + n ≤ e.stop - 8 ∨ e.stop ≤ off) →
    load m' off n = load m off n

end CameraFw.Firmware
