import Mathlib.Data.List.DropRight
import CameraFw.Recorder.Stream

/-!
# Frames cut in any way

The streams of `asfStream` have no empty continuation packets. Here a frame is cut into any number of
packets of any size, and the states that the parser goes through are listed next to those that belong to
the packets.
-/

namespace CameraFw.Recorder

open CameraFw.Base

/-! ## The states of the parser -/

/-- The loop of `process_asf_state` again, with the state after each call of `process_state` that does
not return `-1`. -/
def processTrace : Nat → List UInt8 → Int → SmbcAsfDs → List SmbcAsfDs
  | 0, _, _, _ => []
  | fuel + 1, buf, bufSize, ds =>
      if 0 < bufSize then
        match processState buf bufSize ds with
        | none => []
        | some (doneSize, ds') => ds' :: processTrace fuel (buf.drop doneSize) (bufSize - doneSize) ds'
      else []

def asfTrace (buf : List UInt8) (bufSize : Int) (ds : SmbcAsfDs) : List SmbcAsfDs :=
  processTrace bufSize.toNat buf bufSize ds

/-- The state and `done_offset`, which is an `int`. -/
def SmbcAsfDs.mark (ds : SmbcAsfDs) : SmbcState × Int := (ds.state, (ds.doneOffset : Int).bmod (2 ^ 32))

/-! ## The packets of a stream -/

/-- A frame cut into packets, of which only the last is padded. -/
structure CutFrame where
  first : Packet
  rest : List Packet
  presentTime : Nat
  size_lt : first.payload.length + (rest.map fun p => p.payload.length).sum < 4294967296
  padded : ∀ p ∈ (first :: rest).dropLast, p.padding = []

def CutFrame.size (f : CutFrame) : Nat := f.first.payload.length + (f.rest.map fun p => p.payload.length).sum

/-- The packets of a frame, with the state that belongs to the start of each. -/
def CutFrame.packets (f : CutFrame) : List (SmbcState × List UInt8) :=
  (.FPH, f.first.firstBytes f.size f.presentTime) :: f.rest.map fun q => (.OPH, q.otherBytes)

def bytesOf (ps : List (SmbcState × List UInt8)) : List UInt8 := (ps.map Prod.snd).flatten

def cutStream (header : List UInt8) (frames : List CutFrame) : List UInt8 :=
  header ++ bytesOf (frames.flatMap CutFrame.packets)

/-- Where the packets start, if the first of them starts at `p`. -/
def marks (p : Nat) : List (SmbcState × List UInt8) → List (SmbcState × Nat)
  | [] => []
  | x :: ps => (x.1, p) :: marks (p + x.2.length) ps

/-- What the parser should go through: the packets of the frames, and the end, where it waits for the
next frame. -/
def streamMarks (header : List UInt8) (frames : List CutFrame) : List (SmbcState × Nat) :=
  marks header.length (frames.flatMap CutFrame.packets) ++ [(.FPH, (cutStream header frames).length)]

/-- The last of several packets is not empty. -/
def CutFrame.EndsFull (f : CutFrame) : Prop := ∀ q, f.rest.getLast? = some q → 0 < q.payload.length

/-! ## What the parser sees of a frame -/

/-- Without the empty ones at the end. -/
def trimPackets (qs : List Packet) : List Packet := qs.rdropWhile fun q => q.payload.isEmpty

theorem sum_trimPackets (qs : List Packet) :
    ((trimPackets qs).map fun q => q.payload.length).sum = (qs.map fun q => q.payload.length).sum := by
  induction qs using List.reverseRecOn with
  | nil => rfl
  | append_singleton qs q ih =>
      by_cases hq : q.payload.isEmpty = true
      · rw [trimPackets, List.rdropWhile_concat_pos (fun q : Packet => q.payload.isEmpty) qs q hq,
          ← trimPackets, ih]
        simp [List.isEmpty_iff.mp hq]
      · rw [trimPackets, List.rdropWhile_concat_neg (fun q : Packet => q.payload.isEmpty) qs q hq]

theorem mem_dropLast_mono {α : Type} {xs ys : List α} {x : α} (h : xs <+: ys) (hx : x ∈ xs.dropLast) :
    x ∈ ys.dropLast := by
  obtain ⟨t, rfl⟩ := h
  cases t with
  | nil => rwa [List.append_nil]
  | cons y t =>
      rw [List.dropLast_append_of_ne_nil (List.cons_ne_nil y t)]
      exact List.mem_append_left _ (List.dropLast_subset xs hx)

/-- The frame without the empty packets at its end, which is all of it to the parser. -/
def CutFrame.trimmed (f : CutFrame) : CutFrame where
  first := f.first
  rest := trimPackets f.rest
  presentTime := f.presentTime
  size_lt := by rw [sum_trimPackets]; exact f.size_lt
  padded := fun p hp =>
    f.padded p (mem_dropLast_mono (List.cons_prefix_cons.mpr ⟨rfl, List.rdropWhile_prefix _ _⟩) hp)

/-- A frame ends with empty packets, and so much has been received that the parser takes the first of
them for the first packet of a frame. -/
def EmptyEndReached (header : List UInt8) (frames : List CutFrame) (R : Nat) : Prop :=
  ∃ pre g post, frames = pre ++ g :: post ∧ ¬ g.EndsFull ∧
    (cutStream header (pre ++ [g.trimmed])).length + firstPacketHeaderSize ≤ R

/-- The presentation times in those of the next `k` packets that the walk takes for the first ones of a
frame. -/
def timesRead (S : List UInt8) : Nat → SmbcAsfDs → List Nat
  | 0, _ => []
  | k + 1, ds =>
      (if ds.state = .FPH then [fppPresentTime (S.drop ds.doneOffset)] else []) ++
        timesRead S k (packetStep S ds)

/-- The last but one of the times that the walk reads in the first `R` bytes, and 0 before there are two. -/
def timeRead (S : List UInt8) (R : Nat) (ds : SmbcAsfDs) : Nat :=
  (timesRead S (headerCount S R ds) ds).reverse.getD 1 0

end CameraFw.Recorder
