import CameraFw.Isoc.Handler

/-!
# The three places agree

Every branch that moves one of the three places moves the others too, but for one: a packet of two bytes
whose start marker is made up with a byte of an earlier packet sets only `packet_buffer_size` back. The
check for the end of the buffer looks at that place.
-/

namespace CameraFw.Isoc

open CameraFw.Base

variable {cfg : Config} {p : Packet} {w : Work} {d : Dev}

/-! ## Packets -/

/-- A header packet has the marker at its first place, if there is a place. -/
theorem Packet.headerOffset_eq (h : p.isHeader = true) : p.headerOffset = 1 := by
  have hmark := of_decide_eq_true h
  unfold Packet.headerOffset
  cases p.flen - 2 with
  | zero => rfl
  | succ n => exact if_pos hmark

theorem Packet.first_eq (p : Packet) : p.first = 1 := by
  unfold Packet.first
  split_ifs with h
  · exact Packet.headerOffset_eq h
  · rfl

theorem Packet.valid_pos (h : p.valid cfg = true) : 0 < p.flen := (of_decide_eq_true h).2.1

theorem Packet.flen_lt (p : Packet) : p.flen < 2 ^ 31 := by
  have := BitVec.toInt_lt (x := p.actualLength)
  unfold Packet.flen
  omega

/-! ## One packet -/

/-- All three places are the same, and there is room behind it. -/
structure Level (cfg : Config) (w : Work) : Prop where
  filled : w.fbuf.filled = w.dev.packetBufferSize
  fillptr : w.fillptr = w.dev.packetBufferSize
  room : w.dev.packetBufferSize = 0 ∨ w.dev.packetBufferSize < cfg.frameSize

/-- What holds between packets: before the first header nothing is collected. -/
structure PacketInv (cfg : Config) (w : Work) : Prop extends Level cfg w where
  hunting : w.dev.get1stHeader = false → w.dev.packetBufferSize = 0

theorem Work.restart_level (w : Work) : Level cfg w.restart := ⟨rfl, rfl, .inl rfl⟩

theorem endFrame_level (w : Work) : Level cfg (endFrame w) := by
  unfold endFrame
  dsimp only
  split_ifs
  · exact Work.restart_level _
  · exact w.restart_level

/-- The two checks of the size touch nothing but that one place, and at most set it back. -/
theorem skipFrame_noteSize (p : Packet) (d : Dev) :
    (skipFrame p (noteSize p d)).get1stHeader = d.get1stHeader ∧
      ((skipFrame p (noteSize p d)).packetBufferSize = d.packetBufferSize ∨
        (skipFrame p (noteSize p d)).packetBufferSize = 0) := by
  unfold skipFrame noteSize
  dsimp only
  split_ifs <;> simp

theorem noteSize_short (hp : p.flen ≤ 10) (d : Dev) : noteSize p d = { d with packetBufferSize := 0 } :=
  if_neg (by omega)

theorem takeHeader_get1st (p : Packet) (w : Work) : (takeHeader p w).dev.get1stHeader = true := rfl

/-- A header packet of another length ends the frame. -/
theorem takeHeader_of_ends (hp : p.isHeader = true) (hg : w.dev.get1stHeader = true) (hlen : p.flen ≠ 2) :
    Level cfg (takeHeader p w) := by
  have hget := (skipFrame_noteSize p w.dev).1
  have hends : p.headerOffset ≠ p.flen - 1 ∧ (skipFrame p (noteSize p w.dev)).get1stHeader = true := by
    rw [Packet.headerOffset_eq hp, hget]
    exact ⟨by omega, hg⟩
  have hlevel : Level cfg (endFrame { w with dev := skipFrame p (noteSize p w.dev) }) := endFrame_level _
  unfold takeHeader
  simp only [hends, ne_eq, not_false_eq_true, and_self, if_true]
  exact ⟨hlevel.filled, hlevel.fillptr, hlevel.room⟩

/-- One that ends none leaves `fbuf` and `fillptr` alone. -/
theorem takeHeader_of_not_ends (h : ¬(p.headerOffset ≠ p.flen - 1 ∧ w.dev.get1stHeader = true)) :
    (takeHeader p w).fbuf = w.fbuf ∧ (takeHeader p w).fillptr = w.fillptr ∧
      (takeHeader p w).dev.packetBufferSize = (skipFrame p (noteSize p w.dev)).packetBufferSize := by
  have h' : ¬(p.headerOffset ≠ p.flen - 1 ∧ (skipFrame p (noteSize p w.dev)).get1stHeader = true) := by
    rwa [(skipFrame_noteSize p w.dev).1]
  unfold takeHeader
  simp only [h', if_false, and_self]

/-- Of the three places, the short header packet with an old byte moves just one. -/
theorem takeHeader_two (hp : p.isHeader = true) (hlen : p.flen = 2) :
    (takeHeader p w).fbuf = w.fbuf ∧ (takeHeader p w).fillptr = w.fillptr ∧
      (takeHeader p w).dev.packetBufferSize = 0 := by
  obtain ⟨hf, hptr, hsize⟩ := takeHeader_of_not_ends (p := p) (w := w)
    (by rw [Packet.headerOffset_eq hp]; omega)
  refine ⟨hf, hptr, hsize.trans ?_⟩
  have hnote := noteSize_short (p := p) (by omega) w.dev
  rw [hnote, skipFrame, if_neg (by omega)]

theorem PacketInv.beforeData (h : PacketInv cfg w) (hv : p.valid cfg = true) (hs : ¬StaleMarker cfg w p) :
    Level cfg (beforeData p w) := by
  unfold Isoc.beforeData
  split_ifs with hp
  · by_cases hg : w.dev.get1stHeader = true
    · by_cases hlen : p.flen = 2
      · -- nothing is filled, or the marker would be stale
        have hzero : w.fbuf.filled = 0 := by
          by_contra hne
          exact hs ⟨hv, hp, hlen, hg, hne⟩
        obtain ⟨hf, hptr, hsize⟩ := takeHeader_two (w := w) hp hlen
        exact ⟨by rw [hf, hsize, hzero], by rw [hptr, hsize, h.fillptr, ← h.filled, hzero], .inl hsize⟩
      · exact takeHeader_of_ends hp hg hlen
    · have hzero := h.hunting (by simpa using hg)
      obtain ⟨hf, hptr, hsize⟩ := takeHeader_of_not_ends (p := p) (w := w) (fun hc => hg hc.2)
      have hnote := (skipFrame_noteSize p w.dev).2
      exact ⟨by rw [hf, hsize, h.filled]; omega, by rw [hptr, hsize, h.fillptr]; omega, .inl (by omega)⟩
  · exact h.toLevel

theorem Level.lt (h : Level cfg w) : w.dev.packetBufferSize < 2 ^ 31 := by
  have := h.room
  have := cfg.int
  omega

theorem Level.tooLong_iff (h : Level cfg w) :
    tooLong cfg p w = true ↔ cfg.frameSize < w.dev.packetBufferSize + p.flen := by
  have := h.lt
  have := p.flen_lt
  rw [tooLong, Nat.mod_eq_of_lt (by omega), decide_eq_true_iff]

/-- A packet that fits leaves a byte of the buffer free: its own first byte is not copied. -/
theorem Level.copyData (h : Level cfg w) (hv : 0 < p.flen) (hfit : tooLong cfg p w = false) :
    Level cfg (copyData p w) := by
  have hle : ¬cfg.frameSize < w.dev.packetBufferSize + p.flen := by
    rw [← h.tooLong_iff (p := p), hfit]
    decide
  have hint := cfg.int
  have hfirst := p.first_eq
  have hmod : (w.dev.packetBufferSize + (p.flen - p.first)) % 2 ^ 32 =
      w.dev.packetBufferSize + (p.flen - p.first) :=
    Nat.mod_eq_of_lt (by omega)
  refine ⟨?_, ?_, .inr ?_⟩
  · exact (congrArg (· + (p.flen - p.first)) h.filled).trans hmod.symm
  · exact (congrArg (· + (p.flen - p.first)) h.fillptr).trans hmod.symm
  · show (w.dev.packetBufferSize + (p.flen - p.first)) % 2 ^ 32 < cfg.frameSize
    omega

theorem PacketInv.takeData (h : Level cfg w)
    (hunt : w.dev.get1stHeader = false → w.dev.packetBufferSize = 0) (hv : 0 < p.flen) :
    PacketInv cfg (takeData cfg p w) := by
  unfold Isoc.takeData
  split_ifs with hg hl
  · exact ⟨h, hunt⟩
  · exact ⟨⟨rfl, rfl, .inl rfl⟩, fun _ => rfl⟩
  · have hcopy := h.copyData hv (by simpa using hl)
    exact ⟨hcopy, fun hf => absurd hf hg⟩

theorem PacketInv.takePacket (h : PacketInv cfg w) (hs : ¬StaleMarker cfg w p) :
    PacketInv cfg (takePacket cfg w p) := by
  unfold Isoc.takePacket
  split_ifs with hv
  · refine PacketInv.takeData (h.beforeData hv hs) ?_ (Packet.valid_pos hv)
    unfold Isoc.beforeData
    split_ifs with hp
    · intro hf
      exact absurd hf (by simp [takeHeader_get1st])
    · exact h.hunting
  · exact h

/-- The copies go wrong just with a stale marker. -/
theorem PacketInv.copiesInside_iff (h : PacketInv cfg w) : CopiesInside cfg w p ↔ ¬StaleMarker cfg w p := by
  constructor
  · rintro hin ⟨hv, hp, hlen, hg, hne⟩
    obtain ⟨hf, hptr, hsize⟩ := takeHeader_two (w := w) hp hlen
    have hbefore : Isoc.beforeData p w = takeHeader p w := if_pos hp
    have hroom := h.room
    have hfilled := h.filled
    have hfit : tooLong cfg p (Isoc.beforeData p w) = false := by
      rw [hbefore, tooLong, hsize, hlen, decide_eq_false_iff_not]
      omega
    have := (hin hv (by rw [hbefore]; rfl) hfit).1
    rw [hbefore, hsize, hf] at this
    exact hne this.symm
  · intro hs hv _ hfit
    have hlevel := h.beforeData hv hs
    have hpos := Packet.valid_pos hv
    have hfirst := p.first_eq
    have hptr := hlevel.fillptr
    have hle : ¬cfg.frameSize < (Isoc.beforeData p w).dev.packetBufferSize + p.flen := by
      rw [← hlevel.tooLong_iff (p := p), hfit]
      decide
    exact ⟨hlevel.filled.symm, by omega⟩

/-! ## Whole runs -/

/-- What holds between completions. -/
def DevInv (cfg : Config) (d : Dev) : Prop := ∀ f, d.fillFrame = some f → PacketInv cfg (begin d f)

theorem opened_inv (cfg : Config) (skipCount preframesize : Nat) (bufs : List (Nat → UInt8)) :
    DevInv cfg (opened skipCount preframesize bufs) := by
  intro f hf
  have hfilled : f.filled = 0 := by
    cases bufs with
    | nil => cases hf
    | cons b bufs =>
        cases hf
        rfl
  exact ⟨⟨hfilled, hfilled, .inl rfl⟩, fun _ => rfl⟩

/-- The packets of one completion. -/
theorem PacketInv.packets {ps : List Packet} (h : PacketInv cfg w)
    (hs : Along (fun w p => some (Isoc.takePacket cfg w p)) (fun w p => ¬StaleMarker cfg w p) w ps) :
    PacketInv cfg (ps.foldl (Isoc.takePacket cfg) w) := by
  induction ps generalizing w with
  | nil => exact h
  | cons p ps ih => exact ih (h.takePacket hs.1) (hs.2 _ rfl)

theorem DevInv.step {e : Event} (h : DevInv cfg d)
    (hs : EachPacket cfg (fun w p => ¬StaleMarker cfg w p) d e) :
    DevInv cfg (d.step cfg e) := by
  cases e with
  | completion u =>
      show DevInv cfg (pwcIsocHandler cfg d u)
      unfold pwcIsocHandler
      split_ifs with hok
      · exact h
      · cases hf : d.fillFrame with
        | none => exact h
        | some f =>
            have hinv := (h f hf).packets (hs (by simpa using hok) f hf)
            rintro g ⟨⟩
            -- the next completion takes `fillptr` from `filled`
            exact ⟨⟨hinv.filled, hinv.filled, hinv.room⟩, hinv.hunting⟩
  | grab =>
      simp only [Dev.step]
      split
      · intro f hf
        exact ⟨⟨(h f hf).filled, (h f hf).fillptr, (h f hf).room⟩, (h f hf).hunting⟩
      · exact h
  | giveBack =>
      intro f hf
      exact ⟨⟨(h f hf).filled, (h f hf).fillptr, (h f hf).room⟩, (h f hf).hunting⟩

theorem DevInv.eachPacket_iff {e : Event} (h : DevInv cfg d) :
    EachPacket cfg (CopiesInside cfg) d e ↔ EachPacket cfg (fun w p => ¬StaleMarker cfg w p) d e := by
  cases e with
  | completion u =>
      refine forall_congr' fun _ => forall_congr' fun f => forall_congr' fun hf => ?_
      refine along_iff (I := PacketInv cfg) (fun w p hw => hw.copiesInside_iff) ?_ (h f hf)
      rintro w p _ hw hin ⟨⟩
      exact hw.takePacket (hw.copiesInside_iff.mp hin)
  | grab => exact Iff.rfl
  | giveBack => exact Iff.rfl

/-- From a fresh start on, over all completions and readers: every copy finds the three places in
agreement and stays inside the buffer, just if no packet of two bytes comes with a stale marker while a
frame is being filled. -/
theorem allPackets_copiesInside_iff (cfg : Config) (skipCount preframesize : Nat)
    (bufs : List (Nat → UInt8)) (es : List Event) :
    AllPackets cfg (CopiesInside cfg) (opened skipCount preframesize bufs) es ↔
      AllPackets cfg (fun w p => ¬StaleMarker cfg w p) (opened skipCount preframesize bufs) es := by
  refine along_iff (I := DevInv cfg) (fun d e hd => hd.eachPacket_iff) ?_
    (opened_inv cfg skipCount preframesize bufs)
  rintro d e _ hd hin ⟨⟩
  exact hd.step (hd.eachPacket_iff.mp hin)

def tp6830 : Config := ⟨800, 163840, by decide⟩

/-- A packet of `n` bytes: a byte that is not copied, then `a`, `b` and zeroes. -/
def packetOf (n : Nat) (a b : UInt8) : Packet :=
  ⟨0, BitVec.ofNat 32 n, fun k => if k = 1 then a else if k = 2 then b else 0⟩

/-- A header, enough data, and the packet with the stale marker. -/
def staleMarkerTraffic : List Packet :=
  packetOf 3 0xff 0xd8 :: (List.replicate 163 (packetOf 1001 0 0) ++ [packetOf 2 0xff 0xd8])

/-- After them `packet_buffer_size` is 1 while 163003 bytes are in the buffer, and the next thousand go
over its end. -/
theorem copies_outside :
    (let w := staleMarkerTraffic.foldl (takePacket tp6830) (begin (opened 0 0 [fun _ => 0]) ⟨fun _ => 0, 0⟩)
     w.dev.packetBufferSize = 1 ∧ w.fbuf.filled = 163003 ∧ w.fillptr = 163003 ∧
       ¬CopiesInside tp6830 w (packetOf 1001 0 0)) ∧
    ¬AllPackets tp6830 (CopiesInside tp6830) (opened 0 0 [fun _ => 0])
      [.completion ⟨0, [packetOf 3 0xff 0xd8, packetOf 2 0xff 0xd8]⟩] := by
  refine ⟨⟨by decide +kernel, by decide +kernel, by decide +kernel, fun h => ?_⟩, fun h => ?_⟩
  · exact absurd (h (by decide) (by decide +kernel) (by decide +kernel)).2 (by decide +kernel)
  · have hpackets := h.1 (by decide) _ rfl
    exact absurd ((hpackets.2 _ rfl).1 (by decide) (by decide) (by decide)).1 (by decide)

end CameraFw.Isoc
