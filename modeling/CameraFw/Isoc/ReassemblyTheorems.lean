import CameraFw.Isoc.BufferTheorems
import CameraFw.Isoc.Reassembly

/-!
# Readers get pictures

The handler collects just what the byte lists say, and completes a frame just where a picture ends.
Together with the buffers: what readers get are pictures of the stream, whole and in their order.
-/

namespace CameraFw.Isoc

open CameraFw.Base

variable {cfg : Config} {p : Packet} {w : Work} {d a : Dev}

/-! ## Byte lists -/

@[simp] theorem Frame.length_bytes (f : Frame) : f.bytes.length = f.filled := by simp [Frame.bytes]

/-- What the handler has collected. -/
def Work.asm (w : Work) : Asm := ⟨if w.dev.get1stHeader then some w.fbuf.bytes else none, w.dev.skipCount⟩

theorem copyData_bytes (h : Level cfg w) : (copyData p w).fbuf.bytes = w.fbuf.bytes ++ p.payload := by
  have hptr : w.fillptr = w.fbuf.filled := h.fillptr.trans h.filled.symm
  simp only [Frame.bytes, copyData, Packet.first_eq, Packet.payload, List.range_add, List.map_append,
    List.map_map, hptr]
  congr 1
  · refine List.map_congr_left fun k hk => if_neg ?_
    have := List.mem_range.mp hk
    omega
  · refine List.map_congr_left fun k hk => ?_
    have := List.mem_range.mp hk
    simp only [Function.comp_apply]
    rw [if_pos (by omega), Nat.add_sub_cancel_left]

theorem isPicture_bytes_iff (f : Frame) :
    IsPicture f.bytes ↔ 2 ≤ f.filled ∧ f.data 0 = 0xff ∧ f.data 1 = 0xd8 ∧
    f.data (f.filled - 2) = 0xff ∧ f.data (f.filled - 1) = 0xd9 := by
  unfold IsPicture
  rw [Frame.length_bytes]
  refine and_congr_right fun hle => ?_
  obtain ⟨m, hm⟩ : ∃ m, f.filled = m + 2 := ⟨f.filled - 2, by omega⟩
  have htake : f.bytes.take 2 = [f.data 0, f.data 1] := by
    rw [Frame.bytes, ← List.map_take, List.take_range, Nat.min_eq_left hle]
    rfl
  have hdrop : f.bytes.drop (f.filled - 2) = [f.data (f.filled - 2), f.data (f.filled - 1)] := by
    rw [Frame.bytes, hm, List.range_add, List.map_append, Nat.add_sub_cancel, List.drop_left' (by simp)]
    rfl
  rw [htake, hdrop]
  simp [and_assoc]

/-! ## One packet -/

theorem PacketInv.length_collected (h : PacketInv cfg w) :
    (w.asm.collected.getD []).length = w.dev.packetBufferSize := by
  unfold Work.asm
  cases hg : w.dev.get1stHeader with
  | true => simp [h.filled]
  | false => simp [h.hunting hg]

theorem noteSize_long (hlen : 10 < p.flen) (d : Dev) : noteSize p d = { d with
    preframesize := p.size
    skipCount := if d.packetBufferSize ≠ p.size then if p.size < 6 then 6 else 3 else d.skipCount } := by
  rw [noteSize, if_pos hlen]
  by_cases hne : d.packetBufferSize ≠ p.size
  · rw [if_pos hne]
    exact if_pos hne
  · rw [if_neg hne]
    exact if_neg hne

/-- The size fits and nothing is skipped. -/
theorem PacketInv.note_of_fits (h : PacketInv cfg w) (hlen : 10 < p.flen) (hskip : w.asm.skips p = 0) :
    w.dev.packetBufferSize = p.size ∧
      skipFrame p (noteSize p w.dev) = { w.dev with preframesize := p.size } := by
  have hfit : w.dev.packetBufferSize = p.size := by
    by_contra hne
    rw [Asm.skips, h.length_collected, if_pos ⟨hlen, hne⟩] at hskip
    split_ifs at hskip
  have hzero : w.dev.skipCount = 0 := by
    rwa [Asm.skips, h.length_collected, if_neg (fun hc => hc.2 hfit)] at hskip
  refine ⟨hfit, ?_⟩
  rw [noteSize_long hlen, if_neg (not_not.mpr hfit), skipFrame, if_neg (fun hc => hc.1 hzero)]

/-- The skips are counted, and where it does not fit, the size goes back. -/
theorem PacketInv.note_skip (h : PacketInv cfg w) :
    (skipFrame p (noteSize p w.dev)).skipCount = (w.asm.header p).skip ∧
      (¬(10 < p.flen ∧ w.asm.skips p = 0) → (skipFrame p (noteSize p w.dev)).packetBufferSize = 0) := by
  have hskips : (noteSize p w.dev).skipCount = w.asm.skips p := by
    rw [Asm.skips, h.length_collected]
    by_cases hlen : 10 < p.flen
    · simp only [noteSize_long hlen, hlen, true_and]
      rfl
    · rw [noteSize_short (by omega), if_neg fun hc => hlen hc.1]
      rfl
  constructor
  · rw [Asm.header, skipFrame, hskips]
    split_ifs with hc
    · rfl
    · exact hskips
  · intro hnot
    rw [skipFrame]
    split_ifs with hc
    · rfl
    · -- a short packet has set the size back, and for a long one there is nothing to skip
      rw [hskips] at hc
      rw [noteSize_short (by by_contra hlen; exact hnot ⟨by omega, by by_contra hs; exact hc ⟨hs, by omega⟩⟩)]

theorem endFrame_eq (w : Work) : endFrame w =
    if w.complete then
      Work.restart { w with
        dev := pwcNextFillFrame { w.dev with fillFrame := some w.fbuf }
        fbuf := (pwcNextFillFrame { w.dev with fillFrame := some w.fbuf }).fillFrame.getD w.fbuf }
    else w.restart := by
  simp only [endFrame, Work.complete, decide_eq_true_eq]

theorem pwcNextFillFrame_skipCount (d : Dev) : (pwcNextFillFrame d).skipCount = d.skipCount := by
  unfold pwcNextFillFrame
  dsimp only
  split <;> rfl

theorem endFrame_asm (w : Work) :
    (endFrame w).fbuf.bytes = [] ∧ (endFrame w).dev.skipCount = w.dev.skipCount := by
  rw [endFrame_eq]
  split_ifs
  · exact ⟨rfl, pwcNextFillFrame_skipCount _⟩
  · exact ⟨rfl, rfl⟩

theorem Frame.bytes_of_filled {f : Frame} (h : f.filled = 0) : f.bytes = [] := by rw [Frame.bytes, h]; rfl

theorem PacketInv.takeHeader_asm (h : PacketInv cfg w) (hv : p.valid cfg = true)
    (hp : p.isHeader = true) (hs : ¬StaleMarker cfg w p) :
    (takeHeader p w).asm = w.asm.header p := by
  have hskip := h.note_skip (p := p)
  by_cases hends : p.headerOffset ≠ p.flen - 1 ∧ w.dev.get1stHeader = true
  · have hget := (skipFrame_noteSize p w.dev).1
    have hasm := endFrame_asm { w with dev := skipFrame p (noteSize p w.dev) }
    have heq : takeHeader p w = { endFrame { w with dev := skipFrame p (noteSize p w.dev) } with
        dev :=
          { (endFrame { w with dev := skipFrame p (noteSize p w.dev) }).dev with get1stHeader := true } } := by
      simp only [takeHeader, hget, hends, ne_eq, not_false_eq_true, and_self, if_true]
    rw [heq, Work.asm, if_pos rfl, hasm.1, hasm.2, hskip.1]
    rfl
  · obtain ⟨hf, -, -⟩ := takeHeader_of_not_ends hends
    have hdev : (takeHeader p w).dev.skipCount = (skipFrame p (noteSize p w.dev)).skipCount := by
      have hends' : ¬(p.headerOffset ≠ p.flen - 1 ∧
          (skipFrame p (noteSize p w.dev)).get1stHeader = true) := by
        rwa [(skipFrame_noteSize p w.dev).1]
      simp only [takeHeader, hends', if_false]
    -- nothing is filled: the marker would be stale, or there was none before
    have hzero : w.fbuf.filled = 0 := by
      cases hg : w.dev.get1stHeader with
      | false => exact h.filled.trans (h.hunting hg)
      | true =>
          by_contra hne
          have hpos := Packet.valid_pos hv
          rw [Packet.headerOffset_eq hp] at hends
          exact hs ⟨hv, hp, by by_contra hlen; exact hends ⟨by omega, hg⟩, hg, hne⟩
    rw [Work.asm, if_pos (takeHeader_get1st p w), hdev, hskip.1, hf, Frame.bytes_of_filled hzero]
    rfl

theorem Level.takeData_asm (h : Level cfg w) : (takeData cfg p w).asm = w.asm.data cfg p := by
  unfold takeData
  cases hg : w.dev.get1stHeader with
  | false => simp [Work.asm, hg, Asm.data]
  | true =>
      have hcoll : w.asm.collected = some w.fbuf.bytes := by simp [Work.asm, hg]
      have hlong := h.tooLong_iff (p := p)
      rw [← h.filled, ← Frame.length_bytes] at hlong
      simp only [Asm.data, hcoll, Bool.true_eq_false, if_false]
      by_cases hl : tooLong cfg p w = true
      · rw [if_pos hl, if_pos (hlong.mp hl)]
        rfl
      · rw [if_neg hl, if_neg (fun hc => hl (hlong.mpr hc)), Work.asm, copyData_bytes h, if_pos (by exact hg)]
        rfl

/-- The handler collects what the byte lists say. -/
theorem PacketInv.takePacket_asm (h : PacketInv cfg w) (hs : ¬StaleMarker cfg w p) :
    (Isoc.takePacket cfg w p).asm = w.asm.packet cfg p := by
  unfold Isoc.takePacket Asm.packet
  by_cases hv : p.valid cfg = true
  · have hlevel := h.beforeData hv hs
    rw [if_pos hv, if_pos hv, hlevel.takeData_asm, Isoc.beforeData]
    by_cases hp : p.isHeader = true
    · rw [if_pos hp, if_pos hp, h.takeHeader_asm hv hp hs]
    · rw [if_neg hp, if_neg hp]
  · rw [if_neg hv, if_neg hv]

/-- It completes a frame where a picture ends. -/
theorem PacketInv.completes_iff (h : PacketInv cfg w) :
    w.asm.emits cfg p = if completes cfg w p then [w.fbuf.bytes] else [] := by
  unfold Asm.emits
  by_cases hhead : p.valid cfg = true ∧ p.isHeader = true
  · rw [if_pos hhead, Asm.ends, Work.asm]
    cases hg : w.dev.get1stHeader with
    | false => simp [completes, hg]
    | true =>
        simp only [if_true]
        refine if_congr ?_ rfl rfl
        have hasm : (⟨some w.fbuf.bytes, w.dev.skipCount⟩ : Asm) = w.asm := by simp [Work.asm, hg]
        rw [hasm, isPicture_bytes_iff]
        by_cases hfits : 10 < p.flen ∧ w.asm.skips p = 0
        · obtain ⟨hsize, hnote⟩ := h.note_of_fits hfits.1 hfits.2
          have hoff : p.headerOffset ≠ p.flen - 1 := by rw [Packet.headerOffset_eq hhead.2]; omega
          simp [completes, Work.complete, hhead, hg, hoff, hnote, hfits, h.filled, hsize]
        · have hzero := (h.note_skip (p := p)).2 hfits
          simp [completes, Work.complete, hzero]
          tauto
  · rw [if_neg hhead, if_neg]
    simp only [completes, decide_eq_true_eq]
    tauto

/-! ## The frames of one packet -/

/-- The lists behind the fill frame. -/
def Dev.queues (d : Dev) : List Frame × List Frame × Option Frame :=
  (d.emptyFrames, d.fullFrames, d.readFrame)

theorem pwcNextFillFrame_congr {d d' : Dev} (hq : d.queues = d'.queues) (hf : d.fillFrame = d'.fillFrame) :
    (pwcNextFillFrame d).queues = (pwcNextFillFrame d').queues := by
  obtain ⟨hempty, hrest⟩ := Prod.mk.inj hq
  obtain ⟨hfull, hread⟩ := Prod.mk.inj hrest
  simp only [pwcNextFillFrame, hempty, hfull, hf]
  cases d'.emptyFrames <;> simp [Dev.queues, hread]

theorem noteSize_queues (p : Packet) (d : Dev) : (skipFrame p (noteSize p d)).queues = d.queues := by
  unfold skipFrame noteSize
  dsimp only
  split_ifs <;> rfl

theorem takeData_queues (w : Work) : (takeData cfg p w).dev.queues = w.dev.queues := by
  unfold takeData
  split_ifs <;> rfl

theorem endFrame_queues (w : Work) : (endFrame w).dev.queues =
    if w.complete then (pwcNextFillFrame { w.dev with fillFrame := some w.fbuf }).queues
    else w.dev.queues := by
  rw [endFrame_eq]
  split_ifs <;> rfl

theorem takeHeader_queues (w : Work) : (takeHeader p w).dev.queues =
    if p.headerOffset ≠ p.flen - 1 ∧ w.dev.get1stHeader = true ∧
      Work.complete { w with dev := skipFrame p (noteSize p w.dev) } = true then
      (pwcNextFillFrame { w.dev with fillFrame := some w.fbuf }).queues
    else w.dev.queues := by
  have hget := (skipFrame_noteSize p w.dev).1
  by_cases hends : p.headerOffset ≠ p.flen - 1 ∧ w.dev.get1stHeader = true
  · have heq : (takeHeader p w).dev.queues =
        (endFrame { w with dev := skipFrame p (noteSize p w.dev) }).dev.queues := by
      simp only [takeHeader, hget, hends, ne_eq, not_false_eq_true, and_self, if_true]
      rfl
    rw [heq, endFrame_queues, noteSize_queues]
    simp only [hends, ne_eq, not_false_eq_true, true_and]
    refine if_congr Iff.rfl (pwcNextFillFrame_congr ?_ rfl) rfl
    exact noteSize_queues p w.dev
  · have hends' : ¬(p.headerOffset ≠ p.flen - 1 ∧
      (skipFrame p (noteSize p w.dev)).get1stHeader = true) := by rwa [hget]
    have heq : (takeHeader p w).dev.queues = (skipFrame p (noteSize p w.dev)).queues := by
      simp only [takeHeader, hends', if_false]
      rfl
    rw [heq, noteSize_queues, if_neg fun hc => hends ⟨hc.1, hc.2.1⟩]

theorem takePacket_queues (cfg : Config) (w : Work) (p : Packet) : (takePacket cfg w p).dev.queues =
    if completes cfg w p then (pwcNextFillFrame { w.dev with fillFrame := some w.fbuf }).queues
    else w.dev.queues := by
  unfold takePacket
  by_cases hv : p.valid cfg = true
  · rw [if_pos hv, takeData_queues, beforeData]
    by_cases hp : p.isHeader = true
    · rw [if_pos hp, takeHeader_queues]
      refine if_congr ?_ rfl rfl
      simp [completes, hv, hp]
    · rw [if_neg hp, if_neg]
      simp [completes, hp]
  · rw [if_neg hv, if_neg]
    simp [completes, hv]

/-! ## Whole runs -/

/-- The device after some operations has the frames that the handler works on. -/
structure Work.SameFrames (a : Dev) (w : Work) : Prop where
  fill : a.fillFrame = some w.fbuf
  queues : a.queues = w.dev.queues

theorem completedBy_append (cfg : Config) : ∀ (ops ops' : List BufferOp) (d : Dev),
    completedBy cfg d (ops ++ ops') = completedBy cfg d ops ++ completedBy cfg (ops.foldl (Dev.op cfg) d) ops'
  | [], _, _ => rfl
  | op :: ops, ops', d => by
      rw [List.cons_append, completedBy, completedBy, completedBy_append cfg ops ops', List.append_assoc]
      rfl

theorem Asm.pictures_append (cfg : Config) : ∀ (ps qs : List Packet) (m : Asm),
    m.pictures cfg (ps ++ qs) = m.pictures cfg ps ++ (ps.foldl (Asm.packet cfg) m).pictures cfg qs
  | [], _, _ => rfl
  | p :: ps, qs, m => by
      rw [List.cons_append, Asm.pictures, Asm.pictures, Asm.pictures_append cfg ps qs, List.append_assoc]
      rfl

theorem Work.SameFrames.packet (cfg : Config) (h : w.SameFrames a) (p : Packet) :
    (takePacket cfg w p).SameFrames ((packetOps cfg w p).foldl (Dev.op cfg) a) ∧
      completedBy cfg a (packetOps cfg w p) = if completes cfg w p then [w.fbuf] else [] := by
  unfold packetOps
  have hq := takePacket_queues cfg w p
  split_ifs with hc
  · rw [if_pos hc] at hq
    refine ⟨⟨rfl, ?_⟩, by simp [completedBy, Dev.flow, h.fill]⟩
    rw [hq]
    exact pwcNextFillFrame_congr h.queues h.fill
  · rw [if_neg hc] at hq
    exact ⟨⟨rfl, by rw [hq]; exact h.queues⟩, rfl⟩

/-- One completion. -/
theorem Work.SameFrames.packets :
    ∀ {ps : List Packet} {w : Work} {a : Dev}, w.SameFrames a → PacketInv cfg w →
    Along (fun w p => some (takePacket cfg w p)) (fun w p => ¬StaleMarker cfg w p) w ps →
    (ps.foldl (takePacket cfg) w).SameFrames ((packetsOps cfg w ps).foldl (Dev.op cfg) a) ∧
      (completedBy cfg a (packetsOps cfg w ps)).map Frame.bytes = w.asm.pictures cfg ps ∧
      (ps.foldl (takePacket cfg) w).asm = ps.foldl (Asm.packet cfg) w.asm
  | [], _, _, h, _, _ => ⟨h, rfl, rfl⟩
  | p :: ps, w, a, h, hinv, hs => by
      obtain ⟨hsame, hcomp⟩ := h.packet cfg p
      have hasm := hinv.takePacket_asm hs.1
      obtain ⟨hsame', hcomp', hasm'⟩ := hsame.packets (hinv.takePacket hs.1) (hs.2 _ rfl)
      refine ⟨by rw [packetsOps, List.foldl_append]; exact hsame', ?_, ?_⟩
      · rw [packetsOps, completedBy_append, List.map_append, hcomp', hcomp, Asm.pictures, ← hasm,
          hinv.completes_iff]
        split_ifs <;> rfl
      · rw [List.foldl_cons, List.foldl_cons, hasm', hasm]

/-- What the device has collected. -/
def Dev.asm (d : Dev) : Asm :=
  match d.fillFrame with
  | none => ⟨none, d.skipCount⟩
  | some f => (begin d f).asm

structure Dev.SameFrames (a d : Dev) : Prop where
  fill : a.fillFrame = d.fillFrame
  queues : a.queues = d.queues
  some : d.fillFrame ≠ none

theorem Dev.SameFrames.completion {u : Urb} (h : a.SameFrames d) (hd : DevInv cfg d)
    (hs : EachPacket cfg (fun w p => ¬StaleMarker cfg w p) d (.completion u)) :
    Dev.SameFrames ((eventOps cfg d (.completion u)).foldl (Dev.op cfg) a) (d.step cfg (.completion u)) ∧
      (completedBy cfg a (eventOps cfg d (.completion u))).map Frame.bytes =
        d.asm.pictures cfg (if u.ok then u.packets else []) ∧
      (d.step cfg (.completion u)).asm = (if u.ok then u.packets else []).foldl (Asm.packet cfg) d.asm := by
  simp only [Dev.step, pwcIsocHandler, eventOps]
  by_cases hok : u.ok = true
  · obtain ⟨f, hf⟩ := Option.ne_none_iff_exists'.mp h.some
    have hasm : d.asm = (begin d f).asm := by simp only [Dev.asm, hf]
    have hsame : (begin d f).SameFrames a := ⟨h.fill.trans hf, h.queues⟩
    obtain ⟨hsame', hcomp, hasm'⟩ := hsame.packets (hd f hf) (hs hok f hf)
    simp only [hok, hf, hasm, Bool.true_eq_false, if_false, if_true]
    exact ⟨⟨hsame'.fill, hsame'.queues, Option.some_ne_none _⟩, hcomp, hasm'⟩
  · simp only [hok, if_true, Bool.not_eq_true] at *
    exact ⟨h, rfl, rfl⟩

theorem Dev.SameFrames.grab (cfg : Config) (h : a.SameFrames d) :
    Dev.SameFrames (a.step cfg .grab) (d.step cfg .grab) := by
  obtain ⟨hempty, hrest⟩ := Prod.mk.inj h.queues
  obtain ⟨hfull, hread⟩ := Prod.mk.inj hrest
  simp only [Dev.step, hfull, hread]
  cases hr : d.readFrame with
  | some r => exact h
  | none =>
      cases hf : d.fullFrames with
      | nil => exact h
      | cons f rest => exact ⟨h.fill, by simp [Dev.queues, hempty], h.some⟩

theorem Dev.SameFrames.giveBack (cfg : Config) (h : a.SameFrames d) :
    Dev.SameFrames (a.step cfg .giveBack) (d.step cfg .giveBack) := by
  obtain ⟨hempty, hrest⟩ := Prod.mk.inj h.queues
  obtain ⟨hfull, hread⟩ := Prod.mk.inj hrest
  exact ⟨h.fill, by simp [Dev.queues, Dev.step, hempty, hfull, hread], h.some⟩

theorem step_grab_asm (d : Dev) : (d.step cfg .grab).asm = d.asm := by
  simp only [Dev.step]
  split <;> rfl

theorem Dev.SameFrames.events : ∀ {es : List Event} {d a : Dev}, a.SameFrames d → DevInv cfg d →
    AllPackets cfg (fun w p => ¬StaleMarker cfg w p) d es →
    (completedBy cfg a (eventsOps cfg d es)).map Frame.bytes = d.asm.pictures cfg (packetsOf es)
  | [], _, _, _, _, _ => rfl
  | e :: es, d, a, h, hd, hs => by
      have hd' := hd.step hs.1
      rw [eventsOps, completedBy_append, List.map_append]
      cases e with
      | completion u =>
          obtain ⟨hsame, hcomp, hasm⟩ := h.completion hd hs.1
          rw [hcomp, hsame.events hd' (hs.2 _ rfl), packetsOf, Asm.pictures_append, hasm]
      | grab =>
          have hsame := h.grab cfg
          exact (hsame.events hd' (hs.2 _ rfl)).trans (by rw [step_grab_asm]; rfl)
      | giveBack =>
          have hsame := h.giveBack cfg
          exact hsame.events hd' (hs.2 _ rfl)

/-- From the opening of the device on, whatever packets come and whenever readers do, if no packet of
two bytes has a stale marker and no reader comes between the first completed frame and the second one:
the frames that are completed are the pictures in the packets, and readers get pictures in their order,
none of them twice. -/
theorem readers_get_pictures (n : Nat) (s : Buffers (n + 2)) (cfg : Config)
    (skipCount preframesize : Nat) (es : List Event)
    (hstale : AllPackets cfg (fun w p => ¬StaleMarker cfg w p) (opened skipCount preframesize s.bufs) es)
    (hread : Undisturbed 0 (eventsOps cfg (opened skipCount preframesize s.bufs) es)) :
    ∃ t, run Traced.step (.opened s) (eventsOps cfg (opened skipCount preframesize s.bufs) es) = some t ∧
      t.completed.map Frame.bytes = Asm.pictures cfg ⟨none, skipCount⟩ (packetsOf es) ∧
        t.grabbed.Sublist t.completed := by
  obtain ⟨t, hrun, hsim, hcomp⟩ := Traced.Sim.run cfg _ (Traced.sim_opened s skipCount preframesize) hread
  refine ⟨t, hrun, ?_, (List.sublist_append_left _ _).trans hsim.order⟩
  have hfill : (opened skipCount preframesize s.bufs).fillFrame ≠ none :=
    (Traced.sim_opened s skipCount preframesize).fill
  have hsame : Dev.SameFrames (opened skipCount preframesize s.bufs)
    (opened skipCount preframesize s.bufs) := ⟨rfl, rfl, hfill⟩
  have hasm : (opened skipCount preframesize s.bufs).asm = ⟨none, skipCount⟩ := by
    obtain ⟨f, hf⟩ := Option.ne_none_iff_exists'.mp hfill
    simp only [Dev.asm, hf]
    rfl
  rw [hcomp, ← hasm]
  exact hsame.events (opened_inv cfg skipCount preframesize s.bufs) hstale

/-- Packets of other lengths have no stale marker. -/
theorem allPackets_of_length (cfg : Config) :
    ∀ {es : List Event} {d : Dev}, (∀ p ∈ packetsOf es, p.flen ≠ 2) →
    AllPackets cfg (fun w p => ¬StaleMarker cfg w p) d es
  | [], _, _ => trivial
  | e :: es, d, h => by
      have htail : ∀ p ∈ packetsOf es, p.flen ≠ 2 := by
        cases e with
        | completion u => exact fun p hp => h p (List.mem_append_right _ hp)
        | grab => exact h
        | giveBack => exact h
      refine ⟨?_, fun t _ => allPackets_of_length cfg htail⟩
      cases e with
      | completion u =>
          intro hok f _
          have hmem : ∀ p ∈ u.packets, p.flen ≠ 2 := fun p hp =>
            h p (List.mem_append_left _ (by rw [if_pos hok]; exact hp))
          exact along_of_along (I := fun _ => True) (fun _ _ _ hne hs => hne hs.2.2.1)
            (fun _ _ _ _ _ _ => trivial) _ _ trivial (along_of_mem hmem)
      | grab => trivial
      | giveBack => trivial

/-- A packet with a start marker, which gives a length, and one with an end marker. -/
def startPacket (size : UInt8) : Packet :=
  ⟨0, 11, fun k => if k = 1 then 0xff else if k = 2 then 0xd8 else if k = 8 then size else 0⟩

def endPacket : Packet := ⟨0, 3, fun k => if k = 1 then 0xff else if k = 2 then 0xd9 else 0⟩

/-- Two pictures of twelve bytes, and then a reader. -/
def twoPictures : List Event :=
  [.completion ⟨0, [startPacket 0, endPacket, startPacket 12]⟩,
    .completion ⟨0, [endPacket, startPacket 12]⟩, .grab, .giveBack]

theorem readers_get_pictures_two :
    (Asm.pictures tp6830 ⟨none, 0⟩ (packetsOf twoPictures)).length = 2 ∧
    ∃ t, run Traced.step (.opened threeBuffers)
      (eventsOps tp6830 (opened 0 0 threeBuffers.bufs) twoPictures) = some t ∧
      t.completed.map Frame.bytes = Asm.pictures tp6830 ⟨none, 0⟩ (packetsOf twoPictures) ∧
        t.grabbed.Sublist t.completed :=
  ⟨by decide +kernel, readers_get_pictures 1 threeBuffers tp6830 0 0 twoPictures
    (allPackets_of_length _ (by decide +kernel)) (by decide +kernel)⟩

end CameraFw.Isoc
