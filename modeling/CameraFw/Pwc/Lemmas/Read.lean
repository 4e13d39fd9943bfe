import CameraFw.Isoc.Links
import CameraFw.Pwc.Read

/-!
# What a read hands over

`Delivers` compares what the callers got with the frames taken. A read refuses the frame it has taken or
copies its picture as far as there is room, and that frame is complete unless the handler is filling it;
`delivers_step` puts the two together.
-/

namespace CameraFw.Pwc

open CameraFw.Base

variable {n : Nat} {q : QTables}

/-! ## What is expected -/

/-- The read that is in the driver, and the frame it decompresses. -/
def Session.reading (s : Session n) : Option (Req × Fin n) :=
  match s.call with
  | some (.read r) => s.cam.bufs.readFrame.map fun i => (r, i)
  | _ => none

theorem Session.reading_eq_some {s : Session n} {r : Req} {i : Fin n} :
    s.reading = some (r, i) ↔ s.call = some (.read r) ∧ s.cam.bufs.readFrame = some i := by
  unfold Session.reading
  split
  · rename_i r' hcall
    simp only [hcall, Option.map_eq_some_iff, Prod.mk.injEq, Option.some.injEq, Entry.read.injEq]
    constructor
    · rintro ⟨i', hi, rfl, rfl⟩
      exact ⟨rfl, hi⟩
    · rintro ⟨rfl, hi⟩
      exact ⟨i, hi, rfl, rfl⟩
  · rename_i hno
    simp only [reduceCtorEq, false_iff, not_and]
    exact fun hcall => absurd hcall (hno r)

/-- No more is copied than was asked for, and a result that is no error is the number of bytes copied. -/
def Req.Meets (r : Req) (got : Got) : Prop :=
  got.copied.length ≤ r.count.toNat ∧ ∀ ret ∈ got.ret, 0 ≤ ret → ret = got.copied.length

/-- The last read was answered as it should be; while a read decompresses a frame, this is a completed
one; and the callers have got the pictures of all frames that reads have taken, up to a picture that is
being read in parts. -/
def Delivers (s : Session n) : Prop :=
  (∀ p ∈ s.last, p.1.Meets p.2) ∧ (∀ r i, s.reading = some (r, i) → s.complete i = true) ∧
    s.delivered <+: s.expected ∧ (s.cam.imageReadPos = 0 → s.delivered = s.expected)

/-- No read has the frame that is being filled. -/
def Apart (s : Session n) : Prop := ∀ r i, s.reading = some (r, i) → s.cam.bufs.fillFrame ≠ some i

/-- The frame has data after its own header, the caller asked for, and has room for, the whole picture,
there is an image buffer, and the data is not by 530 bytes longer than that of the frame delivered
before. -/
def Fits (c : Cam n) (r : Req) (f : Isoc.Frame) : Prop :=
  TP6830_HEADER_SIZE < f.filled ∧
    f.filled - TP6830_HEADER_SIZE + jpgHdSize ≤ r.count.toNat ∧
    f.filled - TP6830_HEADER_SIZE + jpgHdSize ≤ r.room ∧ r.image = true ∧
    c.realLen + 530 ≠ BitVec.ofNat 32 (f.filled - TP6830_HEADER_SIZE)

instance (c : Cam n) (r : Req) (f : Isoc.Frame) : Decidable (Fits c r f) :=
  inferInstanceAs (Decidable (_ ∧ _))

def ReadFits (s : Session n) : Act → Prop
  | .leave => ∀ p, s.reading = some p → Fits s.cam p.1 (s.cam.bufs.fbuf p.2)
  | _ => True

instance (s : Session n) : DecidablePred (ReadFits s)
  | .leave => inferInstanceAs (Decidable (∀ p, s.reading = some p → Fits s.cam p.1 (s.cam.bufs.fbuf p.2)))
  | .write .. | .complete | .enter _ | .reset | .reopen | .resize _ => isTrue trivial

/-- The calls that may take a frame. -/
def Act.isEnter : Act → Bool
  | .enter _ => true
  | _ => false

/-- How many frames have been completed since the buffers were reset. -/
def Act.completions (k : Nat) : Act → Nat
  | .complete => k + 1
  | .reset => 0
  | .reopen => 0
  | _ => k

/-- Whenever the buffers have been reset, no call comes between the first completed frame and the second
one. -/
def Calm : Nat → List Act → Prop
  | _, [] => True
  | k, a :: as => (k = 1 → a.isEnter = false) ∧ Calm (a.completions k) as

instance Calm.decidable : ∀ k as, Decidable (Calm k as)
  | _, [] => isTrue trivial
  | k, a :: as =>
      have := Calm.decidable (a.completions k) as
      inferInstanceAs (Decidable ((k = 1 → a.isEnter = false) ∧ _))

/-! ## The frame that is decompressed -/

theorem updateQTable_fields (c : Cam n) (f : Isoc.Frame) :
    (updateQTable q c f).bufs = c.bufs ∧ (updateQTable q c f).fillImage = c.fillImage ∧
      (updateQTable q c f).realLen = c.realLen ∧ (updateQTable q c f).imageReadPos = c.imageReadPos := by
  unfold updateQTable
  split_ifs <;> exact ⟨rfl, rfl, rfl, rfl⟩

theorem length_jpeg (c : Cam n) (f : Isoc.Frame) :
    (c.jpeg q f).length = jpgHdSize + (f.filled - TP6830_HEADER_SIZE) := by
  simp only [Cam.jpeg, Isoc.Frame.bytes, List.length_append, (updateQTable q c f).jpgHd.size,
    List.length_drop, List.length_map, List.length_range]

section Frame

variable {c : Cam n} {i : Fin n} {b : Isoc.Buffers n} {r : Req}

/-- A frame that is long enough ends up in the image buffer, behind the header. -/
theorem handleFrameRest_unpacks (hr : c.bufs.readFrame = some i) (hb : c.bufs.giveBack = some b)
    (hl : TP6830_HEADER_SIZE ≤ (c.bufs.fbuf i).filled) :
    ∃ c', handleFrameRest q true c = some (0, c') ∧ c'.bufs = b ∧
      c.jpeg q (c.bufs.fbuf i) <+: c'.images c'.fillImage ∧
      c'.realLen = c.realLen ∧ c'.imageReadPos = c.imageReadPos ∧
      c'.packetBufferTmp = BitVec.ofNat 32 ((c.bufs.fbuf i).filled - TP6830_HEADER_SIZE) := by
  obtain ⟨hbufs, -, hlen, hpos⟩ := updateQTable_fields (q := q) c (c.bufs.fbuf i)
  simp only [handleFrameRest, hr, pwcDecompress, Bool.true_eq_false, if_false,
    if_neg (Nat.not_lt.mpr hl), hbufs, hb, Option.bind_eq_bind, Option.bind_some]
  refine ⟨_, rfl, rfl, ?_, hlen, hpos, rfl⟩
  simp only [Function.update_self, store, List.take_zero, List.nil_append, Cam.jpeg]
  exact List.prefix_append _ _

/-- Without an image buffer, or with a frame that is too short, nothing gets that far. -/
theorem handleFrameRest_fails {image : Bool} (hr : c.bufs.readFrame = some i) (hb : c.bufs.giveBack = some b)
    (h : ¬ (image = true ∧ TP6830_HEADER_SIZE ≤ (c.bufs.fbuf i).filled)) :
    handleFrameRest q image c = none ∨ handleFrameRest q image c = some (-EFAULT, { c with bufs := b }) := by
  cases image with
  | false => exact Or.inr (by simp [handleFrameRest, hr, pwcDecompress, hb])
  | true =>
      have hlt : (c.bufs.fbuf i).filled < TP6830_HEADER_SIZE := by simpa using h
      exact Or.inl (by simp [handleFrameRest, hr, pwcDecompress, hlt])

theorem handleFrameRest_fields {image : Bool} {p} (hr : c.bufs.readFrame = some i)
    (hb : c.bufs.giveBack = some b) (h : handleFrameRest q image c = some p) :
    p.2.bufs = b ∧ p.2.imageReadPos = c.imageReadPos := by
  by_cases hok : image = true ∧ TP6830_HEADER_SIZE ≤ (c.bufs.fbuf i).filled
  · obtain ⟨c', hrest, hbufs, -, -, hpos, -⟩ := handleFrameRest_unpacks (q := q) hr hb hok.2
    rw [hok.1, hrest] at h
    cases h
    exact ⟨hbufs, hpos⟩
  · rcases handleFrameRest_fails (q := q) hr hb hok with hrest | hrest <;> rw [hrest] at h <;> cases h
    exact ⟨rfl, rfl⟩

theorem copyOut_fields (c : Cam n) (r : Req) (hpos : c.imageReadPos = 0) :
    (copyOut c r).2.bufs = c.bufs ∧ (copyOut c r).2.imageReadPos = 0 := by
  unfold copyOut
  dsimp only
  split_ifs <;> exact ⟨rfl, by first | exact hpos | rfl⟩

theorem videoReadLeave_fields {p} (hr : c.bufs.readFrame = some i) (hb : c.bufs.giveBack = some b)
    (hpos : c.imageReadPos = 0) (h : videoReadLeave q c r = some p) :
    p.2.bufs = b ∧ p.2.imageReadPos = 0 := by
  obtain ⟨p', hrest, rfl⟩ := Option.map_eq_some_iff.mp h
  obtain ⟨hbufs, hpos'⟩ := handleFrameRest_fields hr hb hrest
  split
  · exact ⟨hbufs, hpos'.trans hpos⟩
  · obtain ⟨hb', hp'⟩ := copyOut_fields p'.2 r (hpos'.trans hpos)
    exact ⟨hb'.trans hbufs, hp'⟩

/-! ## The length of the picture -/

variable {k : Nat}

theorem toNat_count (h : k ≤ frameSize) :
    (BitVec.ofNat 32 (k - TP6830_HEADER_SIZE) + 537).toNat = k - TP6830_HEADER_SIZE + jpgHdSize := by
  have h537 : (537 : BitVec 32).toNat = 537 := rfl
  simp only [frameSize, TP6830_HEADER_SIZE, jpgHdSize, BitVec.toNat_add, BitVec.toNat_ofNat, h537] at h ⊢
  omega

theorem toInt_count (h : k ≤ frameSize) :
    (BitVec.ofNat 32 (k - TP6830_HEADER_SIZE) + 537).toInt =
      ((k - TP6830_HEADER_SIZE + jpgHdSize : Nat) : Int) := by
  rw [BitVec.toInt_eq_toNat_of_lt, toNat_count h]
  rw [toNat_count h]
  simp only [frameSize, TP6830_HEADER_SIZE, jpgHdSize] at h ⊢
  omega

theorem toInt_length_le (h : k ≤ frameSize) :
    (BitVec.ofNat 32 (k - TP6830_HEADER_SIZE)).toInt ≤ 0 ↔ k ≤ TP6830_HEADER_SIZE := by
  have hnat : (BitVec.ofNat 32 (k - TP6830_HEADER_SIZE)).toNat = k - TP6830_HEADER_SIZE := by
    simp only [frameSize, TP6830_HEADER_SIZE, BitVec.toNat_ofNat] at h ⊢
    omega
  rw [BitVec.toInt_eq_toNat_of_lt, hnat]
  · omega
  · rw [hnat]
    simp only [frameSize, TP6830_HEADER_SIZE] at h ⊢
    omega

/-! ## The answer of a read -/

/-- The frame is not refused: there is data in it, and its length is not the one that is taken for a
repetition. -/
def Accepted (c : Cam n) (r : Req) (f : Isoc.Frame) : Prop :=
  TP6830_HEADER_SIZE < f.filled ∧ r.image = true ∧
    c.realLen + 530 ≠ BitVec.ofNat 32 (f.filled - TP6830_HEADER_SIZE)

/-- The frame that was taken gets as far as the second half of the read. -/
theorem leave_unpacks (hr : c.bufs.readFrame = some i) (hb : c.bufs.giveBack = some b) (hi : r.image = true)
    (hl : TP6830_HEADER_SIZE ≤ (c.bufs.fbuf i).filled) :
    ∃ c', videoReadLeave q c r = some (copyOut c' r) ∧
      c.jpeg q (c.bufs.fbuf i) <+: c'.images c'.fillImage ∧ c'.realLen = c.realLen ∧
      c'.packetBufferTmp = BitVec.ofNat 32 ((c.bufs.fbuf i).filled - TP6830_HEADER_SIZE) := by
  obtain ⟨c', hrest, -, himg, hlen, -, htmp⟩ := handleFrameRest_unpacks (q := q) hr hb hl
  refine ⟨c', ?_, himg, hlen, htmp⟩
  simp only [videoReadLeave, hi, hrest, Option.map_some, ne_eq, not_true, if_false]

theorem leave_accepted (hr : c.bufs.readFrame = some i) (hb : c.bufs.giveBack = some b)
    (hfit : (c.bufs.fbuf i).filled ≤ frameSize) (ha : Accepted c r (c.bufs.fbuf i)) :
    ∃ p, videoReadLeave q c r = some p ∧ p.1.copied = (c.jpeg q (c.bufs.fbuf i)).take r.room ∧
      p.1.ret = some
        (if r.room < (c.jpeg q (c.bufs.fbuf i)).length then -EFAULT
          else ((c.jpeg q (c.bufs.fbuf i)).length : Int)) := by
  obtain ⟨hl, hi, hne⟩ := ha
  obtain ⟨c', hleave, ⟨more, himg⟩, hlen, htmp⟩ := leave_unpacks (q := q) hr hb hi hl.le
  have hjpeg : (c.jpeg q (c.bufs.fbuf i)).length =
      (c.bufs.fbuf i).filled - TP6830_HEADER_SIZE + jpgHdSize := by
    rw [length_jpeg, Nat.add_comm]
  have hcopy : (c'.images c'.fillImage).take (min (c.jpeg q (c.bufs.fbuf i)).length r.room) =
      (c.jpeg q (c.bufs.fbuf i)).take r.room := by
    rw [← himg, Nat.min_comm, ← List.take_take, List.take_left]
  refine ⟨_, hleave, ?_⟩
  simp only [copyOut, hlen, htmp, toInt_length_le hfit, if_neg (Nat.not_le.mpr hl), if_pos hne,
    toNat_count hfit, toInt_count hfit, ← hjpeg]
  split_ifs with hroom
  · exact ⟨hcopy, rfl⟩
  · exact ⟨hcopy, rfl⟩

/-- A frame that is refused is lost, and if it is too short the read does not even come back. -/
theorem leave_refused (hr : c.bufs.readFrame = some i) (hb : c.bufs.giveBack = some b)
    (hfit : (c.bufs.fbuf i).filled ≤ frameSize) (ha : ¬ Accepted c r (c.bufs.fbuf i)) :
    ∀ p, videoReadLeave q c r = some p → p.1.copied = [] := by
  intro p hp
  by_cases hok : r.image = true ∧ TP6830_HEADER_SIZE ≤ (c.bufs.fbuf i).filled
  · obtain ⟨c', hleave, -, hlen, htmp⟩ := leave_unpacks (q := q) hr hb hok.1 hok.2
    rw [hleave] at hp
    cases hp
    by_cases h0 : c'.packetBufferTmp.toInt ≤ 0
    · simp only [copyOut, if_pos h0]
    · have heq : ¬ c'.realLen + 530 ≠ c'.packetBufferTmp := by
        rw [htmp, toInt_length_le hfit] at h0
        rw [hlen, htmp]
        exact fun hne => ha ⟨Nat.not_le.mp h0, hok.1, hne⟩
      simp only [copyOut, if_neg h0, if_neg heq]
  · rcases handleFrameRest_fails (q := q) hr hb hok with hrest | hrest
    · rw [videoReadLeave, hrest] at hp
      cases hp
    · rw [videoReadLeave, hrest] at hp
      cases hp
      rfl

end Frame

/-! ## What every session keeps -/

/-- A call is where a frame is being read, the links lead only to completed frames and to the fill
frame, which is not complete, and no picture is read in parts. -/
structure Sound (s : Session n) : Prop where
  closed : s.cam.bufs.Closed fun i => s.complete i = true ∨ s.cam.bufs.fillFrame = some i
  filling : ∀ i, s.cam.bufs.fillFrame = some i → s.complete i = false
  idle : s.call = none ↔ s.cam.bufs.readFrame = none
  small : ∀ i, (s.cam.bufs.fbuf i).filled ≤ frameSize
  whole : s.cam.imageReadPos = 0

section Steps

variable {s t : Session n}

/-- What a read decompresses is complete exactly if the handler is not filling it. -/
theorem Sound.complete_iff (h : Sound s) :
    (∀ r i, s.reading = some (r, i) → s.complete i = true) ↔ Apart s := by
  refine forall₃_congr fun r i hi => ⟨fun hc hf => ?_, fun hne => ?_⟩
  · rw [h.filling i hf] at hc
    cases hc
  · exact (h.closed.read i (Session.reading_eq_some.mp hi).2).resolve_right hne

/-- The buffers and the place in a picture are all that counts. -/
theorem Sound.of_cam (h : Sound s) (hbufs : t.cam.bufs = s.cam.bufs) (hcall : t.call = s.call)
    (hcomp : t.complete = s.complete) (hpos : t.cam.imageReadPos = 0) : Sound t :=
  ⟨by rw [hbufs, hcomp]; exact h.closed, by rw [hbufs, hcomp]; exact h.filling,
    by rw [hbufs, hcall]; exact h.idle, by rw [hbufs]; exact h.small, hpos⟩

theorem Sound.write (h : Sound s) {f : Isoc.Frame} (hf : f.filled ≤ frameSize) {b : Isoc.Buffers n}
    (hb : s.cam.bufs.step (.write f) = some b) : Sound { s with cam := { s.cam with bufs := b } } := by
  obtain ⟨i, hi, rfl⟩ := Option.map_eq_some_iff.mp hb
  refine ⟨h.closed.write _, h.filling, h.idle, fun j => ?_, h.whole⟩
  show (Function.update s.cam.bufs.fbuf i f j).filled ≤ frameSize
  by_cases hj : j = i
  · rw [hj, Function.update_self]
    exact hf
  · rw [Function.update_of_ne hj]
    exact h.small j

theorem Sound.complete (h : Sound s) {b : Isoc.Buffers n} (hb : s.cam.bufs.step .nextFillFrame = some b) :
    Sound { s with cam := { s.cam with bufs := b }, complete := s.completed b } := by
  obtain ⟨b', y, hstep, hfill, hread, hbuf, hclosed⟩ := h.closed.nextFillFrame
  cases hb.symm.trans hstep
  refine ⟨?_, ?_, by rw [hread]; exact h.idle, by rw [hbuf]; exact h.small, h.whole⟩
  · have heq : (fun i => s.completed b i = true ∨ b.fillFrame = some i) =
        fun i => (s.complete i = true ∨ s.cam.bufs.fillFrame = some i) ∨ i = y := by
      funext i
      by_cases hi : i = y
      · simp [hi, hfill]
      · simp [Session.completed, hfill, hi, Ne.symm hi]
    exact heq ▸ hclosed
  · intro i hi
    simp [Session.completed, show b.fillFrame = some i from hi]

/-- A frame is taken. -/
theorem Sound.grab (h : Sound s) (hcall : s.call = none) (hfull : s.cam.bufs.full.head ≠ none)
    (e : Entry) (c : Cam n) (hbufs : c.bufs = s.cam.bufs.grab) (hpos : c.imageReadPos = 0) :
    Sound { s with cam := c, call := some e } := by
  obtain ⟨f, hf⟩ := Option.ne_none_iff_exists'.mp hfull
  have hread := h.idle.mp hcall
  have hgrab := Isoc.Buffers.grab_of_full hread hf
  have hclosed := h.closed.grab hread hf
  refine ⟨?_, ?_, ?_, ?_, hpos⟩ <;> rw [hbufs]
  · rw [hgrab] at hclosed ⊢
    exact hclosed
  · rw [hgrab]
    exact h.filling
  · rw [hgrab]
    exact iff_of_false (Option.some_ne_none e) (Option.some_ne_none f)
  · rw [hgrab]
    exact h.small

/-- The call is over. -/
theorem Sound.giveBack (h : Sound s) (hcall : s.call ≠ none) (hgive : s.cam.bufs.giveBack = some t.cam.bufs)
    (hnone : t.call = none) (hcomp : t.complete = s.complete) (hpos : t.cam.imageReadPos = 0) : Sound t := by
  obtain ⟨r, hr⟩ := Option.ne_none_iff_exists'.mp fun hr => hcall (h.idle.mpr hr)
  obtain ⟨b, hb, hfill, hread, hbuf, hclosed⟩ := h.closed.giveBack hr
  obtain rfl : t.cam.bufs = b := Option.some.inj (hgive.symm.trans hb)
  refine ⟨?_, ?_, ?_, ?_, hpos⟩
  · rw [hcomp, hfill]
    exact hclosed
  · rw [hcomp, hfill]
    exact h.filling
  · rw [hnone, hread]
    exact iff_of_true rfl rfl
  · rw [hbuf]
    exact h.small

/-- The frame that a call has taken can be given back. -/
theorem Sound.exists_giveBack (h : Sound s) (hcall : s.call ≠ none) :
    ∃ i b, s.cam.bufs.readFrame = some i ∧ s.cam.bufs.giveBack = some b := by
  obtain ⟨i, hi⟩ := Option.ne_none_iff_exists'.mp fun hr => hcall (h.idle.mpr hr)
  obtain ⟨b, hb, -⟩ := h.closed.giveBack hi
  exact ⟨i, b, hi, hb⟩

theorem sound_reset {s : Session (n + 1)} (c : Cam (n + 1)) (hcall : s.call = none)
    (hpos : c.imageReadPos = 0) (hbufs : c.bufs = s.cam.bufs.pwcResetBuffers) :
    Sound { s with cam := c, complete := fun _ => false } := by
  refine ⟨?_, fun _ _ => rfl, ?_, ?_, hpos⟩ <;> rw [hbufs]
  · have heq : (fun i => false = true ∨ s.cam.bufs.pwcResetBuffers.fillFrame = some i) =
        fun i => i = Fin.last n := by
      funext i
      simp [Isoc.Buffers.pwcResetBuffers, eq_comm]
    exact heq ▸ Isoc.Buffers.closed_reset s.cam.bufs
  · exact iff_of_true hcall rfl
  · exact fun i => Nat.zero_le _

/-- A read that does not take a frame is refused with an error. -/
theorem videoReadEnter_cases {c : Cam n} (r : Req) (hpos : c.imageReadPos = 0) :
    (∃ e : Int, e < 0 ∧ videoReadEnter c r = .inl (⟨some e, []⟩, c)) ∨
      c.bufs.full.head ≠ none ∧ videoReadEnter c r = .inr (handleFrameGrab c) := by
  unfold videoReadEnter
  cases r.unplugged with
  | true => exact Or.inl ⟨-EPIPE, by decide, rfl⟩
  | false =>
      by_cases hfull : c.bufs.full.head = none
      · exact Or.inl ⟨-EAGAIN, by decide, by simp [hpos, hfull]⟩
      · exact Or.inr ⟨hfull, by simp [hpos, hfull]⟩

/-- What the beginning of a call does. -/
theorem enter_cases (hpos : s.cam.imageReadPos = 0) {e : Entry} (hs : s.enter e = some t) :
    (∃ r ret, ret < 0 ∧ t = s.returns r (⟨some ret, []⟩, s.cam)) ∨
      s.cam.bufs.full.head ≠ none ∧ ∃ c, t = { s with cam := c, call := some e } ∧
        c.bufs = s.cam.bufs.grab ∧ c.imageReadPos = 0 := by
  cases e with
  | read r =>
      rcases videoReadEnter_cases r hpos with ⟨ret, hret, henter⟩ | ⟨hfull, henter⟩
      · simp only [Session.enter, henter, Option.some.injEq] at hs
        exact Or.inl ⟨r, ret, hret, hs.symm⟩
      · simp only [Session.enter, henter, Option.some.injEq] at hs
        exact Or.inr ⟨hfull, _, hs.symm, rfl, hpos⟩
  | sync mbuf image =>
      simp only [Session.enter] at hs
      split at hs
      · cases hs
      · rename_i hfull
        exact Or.inr ⟨hfull, _, (Option.some.inj hs).symm, rfl, hpos⟩

/-- What the end of a call does to the buffers: unless it does not come back, its frame is given back. -/
theorem Sound.leave_cases (h : Sound s) {e : Entry} (hcall : s.call = some e) (hs : s.leave q e = some t) :
    t.complete = s.complete ∧ t.cam.imageReadPos = 0 ∧
      (t.cam.bufs = s.cam.bufs ∧ t.call = s.call ∨
        s.cam.bufs.giveBack = some t.cam.bufs ∧ t.call = none) := by
  obtain ⟨i, b, hi, hb⟩ := h.exists_giveBack (by rw [hcall]; exact Option.some_ne_none e)
  cases e with
  | read r =>
      simp only [Session.leave] at hs
      split at hs
      · cases hs
        exact ⟨rfl, h.whole, Or.inl ⟨rfl, rfl⟩⟩
      · rename_i p hp
        cases hs
        obtain ⟨hbufs, hpos⟩ := videoReadLeave_fields hi hb h.whole hp
        exact ⟨rfl, hpos, Or.inr ⟨hb.trans (congrArg some hbufs.symm), rfl⟩⟩
  | sync mbuf image =>
      obtain ⟨p, hp, rfl⟩ := Option.map_eq_some_iff.mp hs
      obtain ⟨hbufs, hpos⟩ := handleFrameRest_fields hi hb hp
      exact ⟨rfl, hpos.trans h.whole, Or.inr ⟨hb.trans (congrArg some hbufs.symm), rfl⟩⟩

theorem Sound.enter (h : Sound s) (hcall : s.call = none) {e : Entry} (hs : s.enter e = some t) :
    Sound t := by
  rcases enter_cases h.whole hs with ⟨r, ret, -, rfl⟩ | ⟨hfull, c, rfl, hbufs, hpos⟩
  · exact h.of_cam rfl hcall.symm rfl h.whole
  · exact h.grab hcall hfull e c hbufs hpos

theorem Sound.leave (h : Sound s) {e : Entry} (hcall : s.call = some e) (hs : s.leave q e = some t) :
    Sound t := by
  obtain ⟨hcomp, hpos, ⟨hbufs, hsame⟩ | ⟨hgive, hnone⟩⟩ := h.leave_cases hcall hs
  · exact h.of_cam hbufs hsame hcomp hpos
  · exact h.giveBack (by rw [hcall]; exact Option.some_ne_none e) hgive hnone hcomp hpos

end Steps

section Sessions

variable {s t : Session (n + 1)} {a : Act}

theorem sound_step (h : Sound s) (hs : Session.step q s a = some t) : Sound t := by
  cases a with
  | write f hf =>
      obtain ⟨b, hb, rfl⟩ := Option.map_eq_some_iff.mp hs
      exact h.write hf hb
  | complete =>
      obtain ⟨b, hb, rfl⟩ := Option.map_eq_some_iff.mp hs
      exact h.complete hb
  | leave =>
      obtain ⟨e, he, hs⟩ := Option.bind_eq_some_iff.mp hs
      exact h.leave he hs
  | enter e =>
      obtain ⟨hcall, hs⟩ := Option.ite_none_right_eq_some.mp hs
      exact h.enter hcall hs
  | reset | reopen =>
      obtain ⟨hcall, hs⟩ := Option.ite_none_right_eq_some.mp hs
      cases hs
      exact sound_reset _ hcall rfl rfl
  | resize z =>
      obtain ⟨-, hs⟩ := Option.ite_none_right_eq_some.mp hs
      cases hs
      exact h.of_cam rfl rfl rfl h.whole

theorem sound_init (bufs : Isoc.Buffers (n + 1)) (images qTableIndex jpgHd) :
    Sound (Session.init bufs images qTableIndex jpgHd) := by
  have h := sound_reset (s := ⟨⟨bufs, images, 0, 0, qTableIndex, jpgHd, 0, 0⟩, none, fun _ => false, [],
    [], none⟩) ⟨bufs.pwcResetBuffers, images, 0, 0, qTableIndex, jpgHd, 0, 0⟩ rfl rfl rfl
  exact h

/-! ## The account -/

/-- The last read was answered as it should be, and nothing is owed. -/
def Balanced (s : Session n) : Prop := (∀ p ∈ s.last, p.1.Meets p.2) ∧ s.delivered = s.expected

theorem delivers_iff {s : Session n} (h : Sound s) : Delivers s ↔ Apart s ∧ Balanced s := by
  rw [← h.complete_iff]
  constructor
  · rintro ⟨hlast, hcomp, -, heq⟩
    exact ⟨hcomp, hlast, heq h.whole⟩
  · rintro ⟨hcomp, hlast, heq⟩
    exact ⟨hlast, hcomp, heq ▸ List.prefix_refl _, fun _ => heq⟩

/-- What an answer adds to an account that was in balance. -/
theorem balanced_returns {s : Session n} (hb : s.delivered = s.expected) (r : Req) (p : Got × Cam n)
    (picture : List UInt8) :
    Balanced (Session.returns { s with expected := s.expected ++ picture } r p) ↔
      r.Meets p.1 ∧ p.1.copied = picture := by
  simp only [Balanced, Session.returns, hb, Option.mem_def, Option.some.injEq, forall_eq',
    List.append_cancel_left_eq]

theorem balanced_enter {s t : Session n} (h : Sound s) (hb : Balanced s) {e : Entry}
    (hs : s.enter e = some t) : Balanced t := by
  rcases enter_cases h.whole hs with ⟨r, ret, hret, rfl⟩ | ⟨-, c, rfl, -⟩
  · have hmeets : r.Meets ⟨some ret, []⟩ := by
      refine ⟨Nat.zero_le _, fun ret' hret' h0 => ?_⟩
      cases hret'
      omega
    have := (balanced_returns hb.2 r (⟨some ret, []⟩, s.cam) []).mpr ⟨hmeets, rfl⟩
    rwa [List.append_nil] at this
  · exact hb

theorem meets_iff_fits {c : Cam n} {r : Req} {f : Isoc.Frame} {got : Got} (ha : Accepted c r f)
    (hcopied : got.copied = (c.jpeg q f).take r.room)
    (hret : got.ret = some (if r.room < (c.jpeg q f).length then -EFAULT else ((c.jpeg q f).length : Int))) :
    r.Meets got ∧ got.copied = c.jpeg q f ↔ Fits c r f := by
  have hlen := length_jpeg (q := q) c f
  obtain ⟨hl, hi, hne⟩ := ha
  simp only [Req.Meets, hcopied, hret, List.take_eq_self_iff, List.length_take, Option.mem_def,
    Option.some.injEq, forall_eq', Fits, hl, hi, hne, ne_eq, not_false_eq_true, true_and, and_true]
  constructor
  · rintro ⟨⟨hcount, -⟩, hroom⟩
    omega
  · rintro ⟨hcount, hroom⟩
    have hnot : ¬ r.room < (c.jpeg q f).length := by omega
    rw [if_neg hnot]
    refine ⟨⟨by omega, fun _ => ?_⟩, by omega⟩
    rw [Nat.min_eq_right (Nat.not_lt.mp hnot)]

/-- The picture has at least its header. -/
theorem jpeg_ne_nil (c : Cam n) (f : Isoc.Frame) : c.jpeg q f ≠ [] := by
  intro hnil
  have hlen := length_jpeg (q := q) c f
  rw [hnil, List.length_nil, jpgHdSize] at hlen
  omega

theorem balanced_leave {s t : Session n} (h : Sound s) (hb : Balanced s) {r : Req} {i : Fin n}
    {b : Isoc.Buffers n} (hi : s.cam.bufs.readFrame = some i) (hgive : s.cam.bufs.giveBack = some b)
    (hs : s.leave q (.read r) = some t) :
    Balanced t ↔ Fits s.cam r (s.cam.bufs.fbuf i) := by
  have hpic : s.cam.picture q = s.cam.jpeg q (s.cam.bufs.fbuf i) := by rw [Cam.picture, hi]; rfl
  simp only [Session.leave, hpic] at hs
  by_cases ha : Accepted s.cam r (s.cam.bufs.fbuf i)
  · obtain ⟨p, hp, hcopied, hret⟩ := leave_accepted (q := q) hi hgive (h.small i) ha
    simp only [hp, Option.some.injEq] at hs
    subst hs
    exact (balanced_returns hb.2 r p _).trans (meets_iff_fits ha hcopied hret)
  · refine iff_of_false ?_ fun ⟨hl, _, _, him, hne⟩ => ha ⟨hl, him, hne⟩
    split at hs
    · cases hs
      rintro ⟨-, heq⟩
      exact jpeg_ne_nil _ _ (List.append_right_eq_self.mp (heq.symm.trans hb.2))
    · rename_i p hp
      cases hs
      rw [balanced_returns hb.2, leave_refused hi hgive (h.small i) ha p hp]
      exact fun hnil => jpeg_ne_nil _ _ hnil.2.symm

theorem balanced_step (h : Sound s) (hb : Balanced s) (hs : Session.step q s a = some t) :
    Balanced t ↔ ReadFits s a := by
  cases a with
  | leave =>
      obtain ⟨e, he, hs⟩ := Option.bind_eq_some_iff.mp hs
      obtain ⟨i, b, hi, hgive⟩ := h.exists_giveBack (by rw [he]; exact Option.some_ne_none e)
      cases e with
      | read r =>
          have hreading : s.reading = some (r, i) := Session.reading_eq_some.mpr ⟨he, hi⟩
          rw [balanced_leave h hb hi hgive hs]
          simp only [ReadFits, hreading, Option.some.injEq, forall_eq']
      | sync mbuf image =>
          obtain ⟨p, -, rfl⟩ := Option.map_eq_some_iff.mp hs
          refine iff_of_true hb fun p hp => ?_
          cases he.symm.trans (Session.reading_eq_some.mp hp).1
  | write | complete =>
      obtain ⟨b, -, rfl⟩ := Option.map_eq_some_iff.mp hs
      exact iff_of_true hb trivial
  | enter e =>
      obtain ⟨-, hs⟩ := Option.ite_none_right_eq_some.mp hs
      exact iff_of_true (balanced_enter h hb hs) trivial
  | reset | reopen | resize =>
      obtain ⟨-, hs⟩ := Option.ite_none_right_eq_some.mp hs
      cases hs
      exact iff_of_true hb trivial

theorem delivers_step (h : Sound s) (hd : Delivers s) (hs : Session.step q s a = some t) :
    Delivers t ↔ Apart t ∧ ReadFits s a := by
  rw [delivers_iff (sound_step h hs), balanced_step h ((delivers_iff h).mp hd).2 hs]

/-- A read that is to be ended always goes on. -/
theorem readFits_of_none (hs : Session.step q s a = none) : ReadFits s a := by
  cases a with
  | leave =>
      intro p hp
      simp only [Session.step, (Session.reading_eq_some.mp hp).1, Option.bind_some, Session.leave] at hs
      split at hs <;> cases hs
  | _ => trivial

/-! ## Readers that wait -/

/-- What a step does to the buffers. -/
theorem step_bufs (h : Sound s) (hs : Session.step q s a = some t) :
    (∃ op, s.cam.bufs.step op = some t.cam.bufs ∧ (a.isEnter = false → op.isGrab = false) ∧
        ∀ k, a.completions k = k + op.completions) ∨
      (t.cam.bufs = s.cam.bufs ∧ ∀ k, a.completions k = k) ∨
      (t.cam.bufs = s.cam.bufs.pwcResetBuffers ∧ ∀ k, a.completions k = 0) := by
  cases a with
  | write | complete =>
      obtain ⟨b, hb, rfl⟩ := Option.map_eq_some_iff.mp hs
      exact Or.inl ⟨_, hb, fun _ => rfl, fun _ => rfl⟩
  | enter e =>
      obtain ⟨-, hs⟩ := Option.ite_none_right_eq_some.mp hs
      rcases enter_cases h.whole hs with ⟨r, ret, -, rfl⟩ | ⟨-, c, rfl, hbufs, -⟩
      · exact Or.inr (Or.inl ⟨rfl, fun _ => rfl⟩)
      · exact Or.inl ⟨.grab, congrArg some hbufs.symm, fun hne => (by cases hne), fun _ => rfl⟩
  | leave =>
      obtain ⟨e, he, hs⟩ := Option.bind_eq_some_iff.mp hs
      obtain ⟨-, -, ⟨hbufs, -⟩ | ⟨hgive, -⟩⟩ := h.leave_cases he hs
      · exact Or.inr (Or.inl ⟨hbufs, fun _ => rfl⟩)
      · exact Or.inl ⟨.giveBack, hgive, fun _ => rfl, fun _ => rfl⟩
  | reset | reopen =>
      obtain ⟨-, hs⟩ := Option.ite_none_right_eq_some.mp hs
      cases hs
      exact Or.inr (Or.inr ⟨rfl, fun _ => rfl⟩)
  | resize z =>
      obtain ⟨-, hs⟩ := Option.ite_none_right_eq_some.mp hs
      cases hs
      exact Or.inr (Or.inl ⟨rfl, fun _ => rfl⟩)

end Sessions

/-- As long as no call comes between the first frame and the second one, no read has the frame that is
being filled. -/
theorem apart_of_calm : ∀ {k : Nat} {s : Session (n + 2)} {d : Isoc.Dev} (as : List Act), Sound s →
    s.cam.bufs.Phase k d → Calm k as → Always (Session.step q) Apart s as
  | k, s, d, as, h, hphase, hcalm => by
      have hapart : Apart s := fun r i hi => hphase.read_ne_fill (Session.reading_eq_some.mp hi).2
      cases as with
      | nil => exact hapart
      | cons a as =>
          refine ⟨hapart, fun t ht => ?_⟩
          have ht' := sound_step h ht
          rcases step_bufs h ht with ⟨op, hop, hgrab, hk⟩ | ⟨hbufs, hk⟩ | ⟨hbufs, hk⟩
          · obtain ⟨b, hstep, hphase', -⟩ := hphase.step ⟨800, 0, by decide⟩ fun h1 => hgrab (hcalm.1 h1)
            cases hop.symm.trans hstep
            exact apart_of_calm as ht' hphase' (hk k ▸ hcalm.2)
          · exact apart_of_calm as ht' (hbufs ▸ hphase) (hk k ▸ hcalm.2)
          · exact apart_of_calm as ht' (hbufs ▸ Isoc.Buffers.phase_reset s.cam.bufs 0 0) (hk k ▸ hcalm.2)

end CameraFw.Pwc
