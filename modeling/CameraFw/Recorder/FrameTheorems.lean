import CameraFw.Recorder.Lemmas.Frames
import CameraFw.Recorder.Theorems

/-!
# Frames, packets and durations

Two questions about streams whose frames are cut in any way: whether the parser is in the right state at
each packet, and whether the header of the finished file has the time of the last frame in it.
-/

namespace CameraFw.Recorder

open CameraFw.Base

variable {header : List UInt8} {frames : List CutFrame}

theorem length_cutStream (header : List UInt8) (frames : List CutFrame) :
    (cutStream header frames).length =
      header.length + (bytesOf (frames.flatMap CutFrame.packets)).length := by
  rw [cutStream, List.length_append]

theorem cutStream_pos (hh : HeaderObjects header) : 0 < (cutStream header frames).length := by
  rw [length_cutStream, hh]
  exact Nat.lt_of_lt_of_le (Nat.succ_pos _) (Nat.le_add_right _ _)

theorem drop_cutStream_append (header : List UInt8) (fs gs : List CutFrame) :
    (cutStream header (fs ++ gs)).drop header.length =
      bytesOf (fs.flatMap CutFrame.packets) ++ bytesOf (gs.flatMap CutFrame.packets) := by
  rw [cutStream, List.drop_left, List.flatMap_append, bytesOf_append]

theorem drop_cutStream (header : List UInt8) (frames : List CutFrame) :
    (cutStream header frames).drop header.length = bytesOf (frames.flatMap CutFrame.packets) ++ [] := by
  rw [cutStream, List.drop_left, List.append_nil]

theorem hohSizeOf_cutStream (hh : HeaderObjects header) :
    hohSizeOf (cutStream header frames) = hohSizeOf header := by
  have hlen : 24 + 4 ≤ header.length := by
    have := (hohSizeOf_bounds header).1
    rw [hh]
    omega
  rw [hohSizeOf, hohSizeOf, objectNum, objectNum, le32, le32, cutStream, load_append_left hlen]

/-! ## The state at each packet -/

theorem marks_le {p : Nat} {ps : List (SmbcState × List UInt8)} :
    ∀ m ∈ marks p ps, m.2 ≤ p + (bytesOf ps).length := by
  induction ps generalizing p with
  | nil => exact nofun
  | cons x ps ih =>
      intro m hm
      rw [bytesOf_cons, List.length_append]
      rcases List.mem_cons.mp hm with rfl | hm
      · exact Nat.le_add_right _ _
      · have := ih m hm
        omega

theorem streamMarks_le : ∀ m ∈ streamMarks header frames, m.2 ≤ (cutStream header frames).length := by
  intro m hm
  rcases List.mem_append.mp hm with hm | hm
  · exact length_cutStream header frames ▸ marks_le m hm
  · rw [List.mem_singleton.mp hm]

theorem asfTrace_marks (hh : HeaderObjects header) (hfull : ∀ f ∈ frames, f.EndsFull) :
    (asfTrace (cutStream header frames) (cutStream header frames).length .zero).map SmbcAsfDs.mark =
      (streamMarks header frames).map fun m => (m.1, (m.2 : Int).bmod (2 ^ 32)) := by
  have hsize : hohSizeOf (cutStream header frames) = hohSizeOf header := hohSizeOf_cutStream hh
  have hat := afterHeader_atFrame hh hsize
  have hlen := length_cutStream header frames
  obtain ⟨hviews, hend⟩ := frames_reached hfull hat (drop_cutStream header frames)
  have hcount : headerCount (cutStream header frames) (cutStream header frames).length
      (afterHeader (cutStream header frames)) = (frames.flatMap CutFrame.packets).length := by
    rw [headerCount_marks (afterHeader_atPacket _) (fun x hx => ?_) hviews (by omega),
      headerCount_short, Nat.add_zero]
    · have h31 := hend.2.1
      have hoff := hend.2.2
      omega
    · obtain ⟨f, -, hf⟩ := List.mem_flatMap.mp hx
      exact ⟨f, hf⟩
  have hall : views (cutStream header frames) ((frames.flatMap CutFrame.packets).length + 1)
      (afterHeader (cutStream header frames)) = streamMarks header frames := by
    rw [views_add, hviews, streamMarks, hlen]
    simp only [views, List.iterate, List.map_cons, List.map_nil, hend.1, hend.2.2]
  rw [asfTrace_eq (cutStream_pos hh), hcount, ← hall, views, List.map_map]
  rfl

theorem endsFull_of_trace (hh : HeaderObjects header)
    (h : (asfTrace (cutStream header frames) (cutStream header frames).length .zero).map SmbcAsfDs.state =
      (streamMarks header frames).map Prod.fst) : ∀ f ∈ frames, f.EndsFull := by
  have hmarks : (streamMarks header frames).map Prod.fst =
      (frames.flatMap CutFrame.packets).map Prod.fst ++ [.FPH] := by
    rw [streamMarks, List.map_append, map_fst_marks]
    rfl
  rw [asfTrace_eq (cutStream_pos hh), hmarks] at h
  -- the trace is as long as the stream has packets, so that it is the walk over them
  have hcount := congrArg List.length h
  simp only [List.length_map, List.length_append, List.length_cons, List.length_nil,
    List.length_iterate] at hcount
  rw [hcount] at h
  have hviews : (views (cutStream header frames) ((frames.flatMap CutFrame.packets).length + 1)
      (afterHeader (cutStream header frames))).map Prod.fst =
        (frames.flatMap CutFrame.packets).map Prod.fst ++ [.FPH] := by
    rw [views, List.map_map]
    exact h
  rw [views_add, List.map_append] at hviews
  exact endsFull_of_states (afterHeader_atFrame hh (hohSizeOf_cutStream hh)) (drop_cutStream header frames)
    (List.append_inj hviews (by rw [List.length_map, List.length_map, length_views])).1

/-- The parser, given the complete stream, goes through the packets in their states, and through the
end, exactly if in each frame of several packets the last is not empty and `done_offset` does not
overflow. -/
theorem asfTrace_marks_iff (hh : HeaderObjects header) :
    (asfTrace (cutStream header frames) (cutStream header frames).length .zero).map SmbcAsfDs.mark =
        (streamMarks header frames).map (fun m => (m.1, (m.2 : Int))) ↔
      (cutStream header frames).length < 2 ^ 31 ∧ ∀ f ∈ frames, f.EndsFull := by
  constructor
  · intro h
    have hfull : ∀ f ∈ frames, f.EndsFull := by
      refine endsFull_of_trace hh ?_
      have := congrArg (List.map Prod.fst) h
      rwa [List.map_map, List.map_map] at this
    refine ⟨?_, hfull⟩
    rw [asfTrace_marks hh hfull] at h
    have hlast := List.map_inj_left.mp h (.FPH, (cutStream header frames).length) (by simp [streamMarks])
    have hint : ((cutStream header frames).length : Int).bmod (2 ^ 32) = (cutStream header frames).length :=
      (Prod.mk.inj hlast).2
    have hlt := @Int.bmod_lt ((cutStream header frames).length : Int) (2 ^ 32) (by decide)
    omega
  · rintro ⟨hlt, hfull⟩
    rw [asfTrace_marks hh hfull]
    refine List.map_congr_left fun m hm => ?_
    have hle := streamMarks_le m hm
    rw [Int.bmod_eq_of_le (by omega) (by omega)]

def blankPacket (n : Nat) (hn : n < 65536) : Packet := (blankFrame n hn).first

@[simp] theorem length_blankPacket (n : Nat) (hn : n < 65536) : (blankPacket n hn).payload.length = n :=
  List.length_replicate

@[simp] theorem padding_blankPacket (n : Nat) (hn : n < 65536) : (blankPacket n hn).padding = [] := rfl

/-- A frame of two packets, of one byte and of `n` bytes. -/
def twoPackets (n : Nat) (hn : n < 65536) (presentTime : Nat) : CutFrame where
  first := blankPacket 1 (by decide)
  rest := [blankPacket n hn]
  presentTime := presentTime
  size_lt := by simp; omega
  padded := by simp

theorem asfTrace_marks_iff_twoPackets :
    (asfTrace (cutStream (blankHeader 3 327) [twoPackets 2 (by decide) 0])
        (cutStream (blankHeader 3 327) [twoPackets 2 (by decide) 0]).length .zero).map SmbcAsfDs.mark =
      (streamMarks (blankHeader 3 327) [twoPackets 2 (by decide) 0]).map fun m => (m.1, (m.2 : Int)) := by
  refine (asfTrace_marks_iff stream_evaluations.1.1).mpr ⟨?_, ?_⟩
  · rw [length_cutStream, length_blankHeader]
    simp [bytesOf, CutFrame.packets, twoPackets, Packet.firstBytes_len, Packet.otherBytes_len]
  · intro f hf
    obtain rfl := List.mem_singleton.mp hf
    intro q hq
    cases hq
    decide

/-- The second packet is empty, and taken for the start of a frame. -/
theorem asfTrace_empty_packet :
    HeaderObjects (blankHeader 3 327) ∧
      (asfTrace (cutStream (blankHeader 3 327) [twoPackets 0 (by decide) 0])
        (cutStream (blankHeader 3 327) [twoPackets 0 (by decide) 0]).length .zero).map SmbcAsfDs.mark =
        [(.FPH, 377), (.FPH, 409)] ∧
      streamMarks (blankHeader 3 327) [twoPackets 0 (by decide) 0] =
        [(.FPH, 377), (.OPH, 409), (.FPH, 432)] := by
  decide +kernel

/-! ## The durations -/

/-- `f` is the last frame that lies in the first `n` bytes of the stream. -/
def LastKept (header : List UInt8) (frames : List CutFrame) (n : Nat) (f : CutFrame) : Prop :=
  ∃ pre post, frames = pre ++ f :: post ∧ (cutStream header (pre ++ [f])).length ≤ n ∧
    ∀ g post', post = g :: post' → n < (cutStream header (pre ++ [f, g])).length

/-- Both durations of the header are `n`, in units of 100 ns. -/
def DurationsAre (hdr : List UInt8) (n : Nat) : Prop :=
  le64 hdr fpPlayDuration = n ∧ le64 hdr fpSendDuration = n

/-- The parser has taken the packets in the first `R` bytes for what they are: it knew the size of the
header object, and has not come to the empty packets at the end of a frame. -/
def Followed (header : List UInt8) (frames : List CutFrame) (v : List UInt8) (R : Nat) : Prop :=
  hohSizeOf v = hohSizeOf header ∧ ¬ EmptyEndReached header frames R

theorem packetStart_strictMono (S : List UInt8) {ds : SmbcAsfDs} (hp : ds.AtPacket) :
    StrictMono (packetStart S ds) :=
  strictMono_nat_of_lt_succ (packetStart_lt S hp)

/-- Behind the frames `fs` of a stream the parser waits for the next one. -/
theorem afterFrames_atFrame {S v t : List UInt8} {fs : List CutFrame} (hh : HeaderObjects header)
    (hv : hohSizeOf v = hohSizeOf header) (hfull : ∀ f ∈ fs, f.EndsFull)
    (hS : S.drop header.length = bytesOf (fs.flatMap CutFrame.packets) ++ t) :
    AtFrame ((packetStep S)^[(fs.flatMap CutFrame.packets).length] (afterHeader v))
      (cutStream header fs).length := by
  rw [length_cutStream]
  exact (frames_reached hfull (afterHeader_atFrame hh hv) hS).2

theorem drop_split {S t : List UInt8} {fs gs : List CutFrame}
    (hS : S.drop header.length = bytesOf ((fs ++ gs).flatMap CutFrame.packets) ++ t) :
    S.drop header.length = bytesOf (fs.flatMap CutFrame.packets) ++
      (bytesOf (gs.flatMap CutFrame.packets) ++ t) := by
  rw [hS, List.flatMap_append, bytesOf_append, List.append_assoc]

/-- When the start of packet `k` is the end of the file, the parser has the time of the last frame in
front of it as the previous one. -/
theorem prevPresentTime_lastKept {S v t : List UInt8} {f : CutFrame} {k : Nat}
    (hh : HeaderObjects header) (hv : hohSizeOf v = hohSizeOf header)
    (hS : S.drop header.length = bytesOf (frames.flatMap CutFrame.packets) ++ t)
    (hfull : ∀ g ∈ frames, g.EndsFull) (hk : k < (frames.flatMap CutFrame.packets).length)
    (hkept : LastKept header frames (packetStart S (afterHeader v) k) f) :
    ((packetStep S)^[k + 1] (afterHeader v)).prevPresentTime = BitVec.ofNat 32 f.presentTime := by
  obtain ⟨pre, post, rfl, hle, hlt⟩ := hkept
  have hmono := packetStart_strictMono S (afterHeader_atPacket v)
  rw [List.append_cons] at hS hfull hk
  have hpre : ∀ x ∈ pre ++ [f], x.EndsFull := fun x hx => hfull x (List.mem_append_left post hx)
  have hfront := afterFrames_atFrame hh hv hpre (drop_split hS)
  have hn : ((pre ++ [f]).flatMap CutFrame.packets).length ≤ k := by
    rw [← hmono.le_iff_le]
    exact hfront.2.2.trans_le hle
  cases post with
  | nil =>
      rw [List.append_nil] at hk
      omega
  | cons g post =>
      have hsplit : pre ++ [f] ++ g :: post = (pre ++ [f, g]) ++ post := by simp
      have hnext : ∀ x ∈ pre ++ [f, g], x.EndsFull :=
        fun x hx => hfull x (hsplit ▸ List.mem_append_left post hx)
      have hbehind := afterFrames_atFrame hh hv hnext (drop_split (hsplit ▸ hS))
      have hlast : k < ((pre ++ [f, g]).flatMap CutFrame.packets).length := by
        rw [← hmono.lt_iff_lt]
        exact (hlt g post rfl).trans_eq hbehind.2.2.symm
      -- packet `k` belongs to the frame behind `f`
      obtain ⟨r, rfl⟩ := Nat.exists_eq_add_of_le hn
      have hr : r < g.packets.length := by
        simp only [List.flatMap_append, List.flatMap_cons, List.flatMap_nil, List.append_nil,
          List.length_append] at hlast
        omega
      have hat₀ := afterHeader_atFrame hh hv
      obtain ⟨-, hat⟩ := frames_reached hpre hat₀ (drop_split hS)
      have htime := presentTime_reached hpre hat₀ (drop_split hS)
      have hS' := drop_append_len (drop_split hS)
      rw [List.flatMap_cons, bytesOf_append, List.append_assoc] at hS'
      rw [Nat.add_assoc, Nat.add_comm, Function.iterate_add_apply,
        (frame_times (hfull g (by simp)) hat hS' hr).2, htime]

theorem length_cutStream_le (header : List UInt8) (fs gs : List CutFrame) :
    (cutStream header fs).length ≤ (cutStream header (fs ++ gs)).length := by
  rw [length_cutStream, length_cutStream, List.flatMap_append, bytesOf_append, List.length_append]
  omega

theorem length_cutStream_trimmed (header : List UInt8) (fs : List CutFrame) (g : CutFrame) :
    (cutStream header (fs ++ [g.trimmed])).length ≤ (cutStream header (fs ++ [g])).length := by
  have := g.bytesOf_trimmed.length_le
  simp only [length_cutStream, List.flatMap_append, List.flatMap_cons, List.flatMap_nil,
    List.append_nil, bytesOf_append, List.length_append]
  omega

/-- In front of the empty packets at the end of a frame it makes no difference that there are any. -/
theorem LastKept.trimmed {pre post : List CutFrame} {g f : CutFrame} {n : Nat}
    (h : LastKept header (pre ++ g :: post) n f)
    (hn : n < (cutStream header (pre ++ [g.trimmed])).length) :
    LastKept header (pre ++ [g.trimmed]) n f := by
  obtain ⟨pre', post', hsplit, hle, hlt⟩ := h
  -- the frame that is kept does not lie behind `g`
  have hbefore : ∀ fs, pre' ++ [f] ≠ pre ++ g :: fs := by
    intro fs heq
    rw [heq, List.append_cons] at hle
    have h₁ := length_cutStream_le header (pre ++ [g]) fs
    have h₂ := length_cutStream_trimmed header pre g
    omega
  obtain ⟨fs, rfl⟩ : ∃ fs, pre = pre' ++ f :: fs := by
    rcases List.append_eq_append_iff.mp hsplit with ⟨fs, rfl, hfs⟩ | ⟨fs, hpre, hfs⟩
    · cases fs with
      | nil => exact absurd (by rw [List.append_nil, (List.cons.inj hfs).1]) (hbefore [])
      | cons x fs =>
          obtain ⟨rfl, -⟩ := List.cons.inj hfs
          exact absurd (by simp) (hbefore (fs ++ [f]))
    · cases fs with
      | nil => exact absurd (by rw [hpre, List.append_nil, (List.cons.inj hfs).1]) (hbefore [])
      | cons x fs =>
          obtain ⟨rfl, -⟩ := List.cons.inj hfs
          exact ⟨fs, hpre⟩
  obtain rfl : post' = fs ++ g :: post := by simpa using hsplit.symm
  refine ⟨pre', fs ++ [g.trimmed], by simp, hle, fun x xs hx => ?_⟩
  cases fs with
  | nil =>
      obtain ⟨rfl, -⟩ := List.cons.inj hx
      simpa using hn
  | cons y fs =>
      obtain ⟨rfl, -⟩ := List.cons.inj hx
      exact hlt y (fs ++ g :: post) rfl

theorem exists_first_not {α : Type} {P : α → Prop} {l : List α} (h : ¬ ∀ x ∈ l, P x) :
    ∃ pre x post, l = pre ++ x :: post ∧ (∀ y ∈ pre, P y) ∧ ¬ P x := by
  induction l with
  | nil => exact absurd nofun h
  | cons a l ih =>
      by_cases ha : P a
      · obtain ⟨pre, x, post, rfl, hpre, hx⟩ := ih fun hl => h (List.forall_mem_cons.mpr ⟨ha, hl⟩)
        exact ⟨a :: pre, x, post, rfl, List.forall_mem_cons.mpr ⟨ha, hpre⟩, hx⟩
      · exact ⟨[], a, l, rfl, nofun, ha⟩

/-- As long as the parser has not come to such packets, it walks over frames that end full. -/
theorem exists_full_frames {R : Nat} (hR : R ≤ (cutStream header frames).length)
    (h : ¬ EmptyEndReached header frames R) :
    ∃ fs t, (∀ f ∈ fs, f.EndsFull) ∧
      (cutStream header frames).drop header.length = bytesOf (fs.flatMap CutFrame.packets) ++ t ∧
      R < (cutStream header fs).length + firstPacketHeaderSize ∧
      ∀ n f, LastKept header frames n f → n < (cutStream header fs).length → LastKept header fs n f := by
  by_cases hfull : ∀ f ∈ frames, f.EndsFull
  · exact ⟨frames, [], hfull, drop_cutStream header frames,
      Nat.lt_of_le_of_lt hR (Nat.lt_add_of_pos_right (by decide)), fun _ _ hk _ => hk⟩
  · obtain ⟨pre, g, post, rfl, hpre, hg⟩ := exists_first_not hfull
    obtain ⟨t, ht⟩ := g.bytesOf_trimmed
    refine ⟨pre ++ [g.trimmed], t ++ bytesOf (post.flatMap CutFrame.packets), ?_, ?_, ?_,
      fun _ _ => LastKept.trimmed⟩
    · intro f hf
      rcases List.mem_append.mp hf with hf | hf
      · exact hpre f hf
      · exact List.mem_singleton.mp hf ▸ g.trimmed_endsFull
    · simp only [drop_cutStream_append, List.flatMap_append, List.flatMap_cons, List.flatMap_nil,
        List.append_nil, bytesOf_append, ← ht, List.append_assoc]
    · by_contra hc
      exact h ⟨pre, g, post, rfl, hg, by omega⟩

/-- With the packets followed, the previous time of the parser is that of the last frame kept. -/
theorem Followed.prevPresentTime {v : List UInt8} {R : Nat} {f : CutFrame} (hobj : HeaderObjects header)
    (hR : R ≤ (cutStream header frames).length) (h : Followed header frames v R)
    (hpos : 0 < lastPacketStart (cutStream header frames) R (afterHeader v))
    (hkept : LastKept header frames (lastPacketStart (cutStream header frames) R (afterHeader v)) f) :
    (parsed (cutStream header frames) R (afterHeader v)).prevPresentTime = BitVec.ofNat 32 f.presentTime := by
  obtain ⟨fs, t, hfull, hS, hend, htrim⟩ := exists_full_frames hR h.2
  have hp := afterHeader_atPacket v
  have hat := afterFrames_atFrame hobj h.1 hfull hS
  -- the last packet whose header was received starts at `fileLen`
  obtain ⟨k, hk, hstart⟩ := lastPacketStart_pos hpos
  have hcount : k < (fs.flatMap CutFrame.packets).length := by
    by_contra hc
    have hle := header_of_lt_headerCount hp (fs.flatMap CutFrame.packets).length
      (Nat.lt_of_le_of_lt (Nat.not_lt.mp hc) (Nat.lt_of_lt_of_eq (Nat.lt_succ_self k) hk.symm))
    rw [packetStart, hat.2.2, hat.2.1] at hle
    exact absurd hle (Nat.not_le.mpr hend)
  have hlt := (packetStart_strictMono (cutStream header frames) hp) hcount
  rw [packetStart, packetStart, hat.2.2, ← packetStart, ← hstart] at hlt
  rw [parsed, hk]
  exact prevPresentTime_lastKept hobj h.1 hS hfull hcount (hstart ▸ htrim _ f hkept hlt)

/-- What the 32-bit product says of the time. -/
theorem product_eq_iff {t p : Nat} (hp : p < 2 ^ 31) :
    (BitVec.ofNat 32 t * 10000).toNat = 10000 * p ↔ 10000 * p < 2 ^ 32 ∧ t % 2 ^ 28 = p := by
  rw [BitVec.toNat_mul, BitVec.toNat_ofNat, show (10000 : BitVec 32).toNat = 10000 from rfl]
  omega

/-- The durations are the time of the last frame kept exactly if that fits into 32 bits in units of 100
ns and the parser has followed the packets; or if, not having followed them, it has read that time, up
to a multiple of `2 ^ 28`, at a wrong place. -/
theorem durations_iff {mem h : List UInt8} {hdr : Option Nat} {env : Nat → Turn} {z : Int}
    {e : SendExit} {f : CutFrame} (hm : mem.length = 2049) (hh : HttpHeader h)
    (hobj : HeaderObjects header) (hz : 1024 * z < 2147483648)
    (he : sendAsf mem (h ++ cutStream header frames) hdr env (1024 * z) = some e)
    (hkept : LastKept header frames (le32 (writtenHeader e.st.asfDs) fpFileLen) f)
    (hp : f.presentTime < 2 ^ 31) :
    let S := cutStream header frames
    let v := headerView mem h S hdr (1024 * z) (env 0).rd
    let R := (endTotals mem h S hdr env (1024 * z)).rcvd
    DurationsAre (writtenHeader e.st.asfDs) (10000 * f.presentTime) ↔
      10000 * f.presentTime < 2 ^ 32 ∧
        (Followed header frames v R ∨
          ¬ Followed header frames v R ∧ timeRead S R (afterHeader v) % 2 ^ 28 = f.presentTime) := by
  intro S v R
  have hR : R = e.st.rcvd := congrArg Flow.rcvd (sendAsf_endTotals hm hh he).symm
  have hpos : 0 < le32 (writtenHeader e.st.asfDs) fpFileLen := by
    obtain ⟨pre, post, -, hle, -⟩ := hkept
    exact Nat.lt_of_lt_of_le (cutStream_pos hobj) hle
  rcases sendAsf_exit hm hh he with hidle | ⟨hb, hv, hparsed⟩
  · rw [hidle.written_fileLen] at hpos
    exact absurd hpos (Nat.lt_irrefl 0)
  · have hlim := hb.rcvd_le_limit
    obtain ⟨hplay, hsend⟩ := writtenHeader_durations (hparsed.layout hv)
    obtain ⟨-, hfields⟩ := hparsed.header hv (by omega)
    rw [hfields.fileLen_eq] at hkept hpos
    have hprev : e.st.asfDs.prevPresentTime = BitVec.ofNat 32 (timeRead S R (afterHeader v)) := by
      rw [hparsed.asfDs, prevPresentTime_parsed, hR]
    have hiff : DurationsAre (writtenHeader e.st.asfDs) (10000 * f.presentTime) ↔
        10000 * f.presentTime < 2 ^ 32 ∧ timeRead S R (afterHeader v) % 2 ^ 28 = f.presentTime := by
      rw [DurationsAre, hplay, hsend, and_self, hprev, product_eq_iff hp]
    rw [hiff]
    refine and_congr_right fun hlt => ?_
    by_cases hf : Followed header frames v R
    · have htime : BitVec.ofNat 32 (timeRead S R (afterHeader v)) = BitVec.ofNat 32 f.presentTime := by
        rw [← hprev, hparsed.asfDs, ← hR]
        exact hf.prevPresentTime hobj (hR ▸ hb.rcvd_le) (hR ▸ hpos) (hR ▸ hkept)
      have hmod := congrArg BitVec.toNat htime
      simp only [BitVec.toNat_ofNat] at hmod
      exact iff_of_true (by omega) (.inl hf)
    · simp only [hf, false_or, not_false_eq_true, true_and]

def onePacket (n : Nat) (hn : n < 65536) (presentTime : Nat) : CutFrame where
  first := blankPacket n hn
  rest := []
  presentTime := presentTime
  size_lt := by simp; omega
  padded := by simp

/-- Two frames, with the presentation times `p` and 0. -/
def twoFrames (p : Nat) : List CutFrame := [onePacket 10 (by decide) p, onePacket 10 (by decide) 0]

theorem length_onePacket (n : Nat) (hn : n < 65536) (p : Nat) :
    (bytesOf (onePacket n hn p).packets).length = 31 + n := by
  simp [bytesOf, CutFrame.packets, onePacket, Packet.firstBytes_len]

theorem lastKept_twoFrames (p : Nat) :
    LastKept (blankHeader 3 327) (twoFrames p) 418 (onePacket 10 (by decide) p) := by
  have hheader : (blankHeader 3 327).length = 377 := length_blankHeader 3 327
  refine ⟨[], [onePacket 10 (by decide) 0], rfl, ?_, fun _ _ h => ?_⟩
  · rw [length_cutStream, hheader]
    simp [length_onePacket]
  · cases h
    rw [length_cutStream, hheader]
    simp [bytesOf_append, length_onePacket]

theorem endsFull_onePacket (n : Nat) (hn : n < 65536) (p : Nat) : (onePacket n hn p).EndsFull := nofun

def threeFrames : List CutFrame :=
  [onePacket 0 (by decide) 5, onePacket 0 (by decide) 6, onePacket 0 (by decide) 7]

/-- The length and the play duration in the headers of three recordings. The header of the last one is
taken to have the wrong size, after a first read of one byte. -/
theorem durations_runs :
    (sendAsf blankMem (okHeader ++ cutStream (blankHeader 3 327) (twoFrames 5)) (some 18)
        (steady (fun _ => 2047) (fun _ => 2047)) (1024 * 1)).map (fun e =>
          (le32 (writtenHeader e.st.asfDs) fpFileLen, le64 (writtenHeader e.st.asfDs) fpPlayDuration)) =
      some (418, 50000) ∧
    (sendAsf blankMem (okHeader ++ cutStream (blankHeader 3 327) (twoFrames 429497)) (some 18)
        (steady (fun _ => 2047) (fun _ => 2047)) 1024).map (fun e =>
          (le32 (writtenHeader e.st.asfDs) fpFileLen, le64 (writtenHeader e.st.asfDs) fpPlayDuration)) =
      some (418, 2704) ∧
    (sendAsf blankMem (okHeader ++ cutStream skewHeader threeFrames) (some 18)
        (steady (fun n => if n = 0 then 0 else 2047) (fun _ => 2047)) 1024).map (fun e =>
          (le32 (writtenHeader e.st.asfDs) fpFileLen, le64 (writtenHeader e.st.asfDs) fpPlayDuration)) =
      some (543, 0) ∧
    hohSizeOf (headerView blankMem okHeader (cutStream (blankHeader 3 327) (twoFrames 5)) (some 18) (1024 * 1)
      (steady (fun _ => 2047) (fun _ => 2047) 0).rd) = hohSizeOf (blankHeader 3 327) := by
  decide +kernel

theorem followed_of_full {v : List UInt8} {R : Nat} (hv : hohSizeOf v = hohSizeOf header)
    (hfull : ∀ f ∈ frames, f.EndsFull) :
    Followed header frames v R := by
  refine ⟨hv, ?_⟩
  rintro ⟨pre, g, post, rfl, hg, -⟩
  exact hg (hfull g (by simp))

theorem durations_iff_five :
    ∃ e, sendAsf blankMem (okHeader ++ cutStream (blankHeader 3 327) (twoFrames 5)) (some 18)
        (steady (fun _ => 2047) (fun _ => 2047)) (1024 * 1) = some e ∧
      DurationsAre (writtenHeader e.st.asfDs) (10000 * 5) := by
  obtain ⟨hrun, -, -, hsize⟩ := durations_runs
  obtain ⟨e, he, h⟩ := Option.map_eq_some_iff.mp hrun
  have hlen := (Prod.mk.inj h).1
  refine ⟨e, he, (durations_iff blankMem_len okHeader_httpHeader stream_evaluations.1.1 (by decide) he
    (hlen ▸ lastKept_twoFrames 5) (by decide)).mpr ⟨by decide, .inl (followed_of_full hsize ?_)⟩⟩
  intro g hg
  rcases List.mem_pair.mp hg with rfl | rfl
  · exact endsFull_onePacket _ _ _
  · exact endsFull_onePacket _ _ _

theorem lastKept_threeFrames : LastKept skewHeader threeFrames 543 (onePacket 0 (by decide) 6) := by
  have hheader : skewHeader.length = 481 := by
    simp only [skewHeader, List.length_append, List.length_replicate, List.length_cons, List.length_nil]
  refine ⟨[onePacket 0 (by decide) 5], [onePacket 0 (by decide) 7], rfl, ?_, fun _ _ h => ?_⟩
  · rw [length_cutStream, hheader]
    simp [bytesOf_append, length_onePacket]
  · cases h
    rw [length_cutStream, hheader]
    simp [bytesOf_append, length_onePacket]

/-- The product no longer fits into 32 bits; and after a first read of one byte the header object of
`skewHeader` is taken to have the wrong size, and the time is read from the middle of it. -/
theorem durations_wrong :
    (∃ e, sendAsf blankMem (okHeader ++ cutStream (blankHeader 3 327) (twoFrames 429497)) (some 18)
        (steady (fun _ => 2047) (fun _ => 2047)) 1024 = some e ∧
      LastKept (blankHeader 3 327) (twoFrames 429497) (le32 (writtenHeader e.st.asfDs) fpFileLen)
        (onePacket 10 (by decide) 429497) ∧
      le64 (writtenHeader e.st.asfDs) fpPlayDuration = 2704) ∧
    ∃ e, sendAsf blankMem (okHeader ++ cutStream skewHeader threeFrames) (some 18)
        (steady (fun n => if n = 0 then 0 else 2047) (fun _ => 2047)) 1024 = some e ∧
      LastKept skewHeader threeFrames (le32 (writtenHeader e.st.asfDs) fpFileLen)
        (onePacket 0 (by decide) 6) ∧
      le64 (writtenHeader e.st.asfDs) fpPlayDuration = 0 := by
  obtain ⟨-, hlong, hskew, -⟩ := durations_runs
  obtain ⟨e₁, he₁, h₁⟩ := Option.map_eq_some_iff.mp hlong
  obtain ⟨e₂, he₂, h₂⟩ := Option.map_eq_some_iff.mp hskew
  obtain ⟨hlen₁, hplay₁⟩ := Prod.mk.inj h₁
  obtain ⟨hlen₂, hplay₂⟩ := Prod.mk.inj h₂
  exact ⟨⟨e₁, he₁, hlen₁ ▸ lastKept_twoFrames 429497, hplay₁⟩, e₂, he₂, hlen₂ ▸ lastKept_threeFrames, hplay₂⟩

end CameraFw.Recorder
