import CameraFw.Recorder.Lemmas.Recording

/-!
# What a recording keeps

Four questions about a recording: whether it reaches its limit, whether the parser depends on how the
stream was cut into reads, whether the header of the finished file describes the packets in front of
`fileLen`, and whether `fileLen` lies within what was written.
-/

namespace CameraFw.Recorder

open CameraFw.Base

/-! ## A stream to look at -/

def blankHeader (num : UInt8) (hohSize : Nat) : List UInt8 :=
  List.replicate 24 0 ++ num :: List.replicate (hohSize + 25) 0

theorem length_blankHeader (num : UInt8) (hohSize : Nat) :
    (blankHeader num hohSize).length = hohSize + 50 := by
  simp only [blankHeader, List.length_append, List.length_replicate, List.length_cons]
  omega

def blankFrame (n : Nat) (hn : n < 65536) : Frame where
  first :=
    { pre := List.replicate 5 0, mid := List.replicate 6 0, tag := List.replicate 8 0,
      payload := List.replicate n 0, padding := [], pre_len := rfl, mid_len := rfl, tag_len := rfl,
      payload_lt := by rw [List.length_replicate]; exact hn, padding_lt := by decide }
  rest := []
  presentTime := 0
  size_lt := by simp only [List.length_replicate, List.map_nil, List.sum_nil]; omega
  rest_pos := by simp
  padded := by simp

/-- "HTTP/1.0 200 OK" and the empty line. -/
def okHeader : List UInt8 := [72, 84, 84, 80, 47, 49, 46, 48, 32, 50, 48, 48, 32, 79, 75, 13, 10, 13, 10]

theorem okHeader_httpHeader : HttpHeader okHeader := ⟨by decide, by decide, by decide⟩

def blankMem : List UInt8 := List.replicate 2049 0

theorem blankMem_len : blankMem.length = 2049 := List.length_replicate

def videoStream : List UInt8 := asfStream (blankHeader 3 327) [blankFrame 616 (by decide)]

def avStream : List UInt8 := asfStream (blankHeader 4 431) [blankFrame 616 (by decide)]

def headerFirst : Nat → Turn := steady (fun _ => 480) (fun _ => 2047)

def byteFirst : Nat → Turn := steady (fun n => if n = 0 then 0 else 479) (fun _ => 2047)

def moreFirst : Nat → Turn := steady (fun _ => 961) (fun _ => 2047)

/-- What a recording of `videoStream` ends with, and where the parsers are in recordings of `avStream` that
are read in three ways. -/
theorem stream_evaluations :
    (HeaderObjects (blankHeader 3 327) ∧ videoStream.length = 1024 ∧
      streamBoundary (blankHeader 3 327) [blankFrame 616 (by decide)] 1 = 1024 ∧
      (sendAsf blankMem (okHeader ++ videoStream) (some 18)
        (steady (fun _ => 2047) (fun _ => 2047)) 1024).map (fun e =>
          (e.errcode, e.st.ofd, le32 (writtenHeader e.st.asfDs) fpFileLen,
            le32 (writtenHeader e.st.asfDs) fpDataPacketCount)) = some (0, videoStream.take 1024, 377, 1) ∧
      (sendAsf blankMem (okHeader ++ videoStream) (some 18)
          (steady (fun n => if n = 0 then 376 else 0) (fun _ => 2047)) 1024).map SendExit.errcode =
            some (-1)) ∧
    (HeaderObjects (blankHeader 4 431) ∧
      (parsePoint blankMem (okHeader ++ avStream) (some 18) headerFirst (1024 * 1) 1).map SendSt.rcvd =
        some 962 ∧
      (parsePoint blankMem (okHeader ++ avStream) (some 18) moreFirst (1024 * 1) 0).map SendSt.rcvd =
        some 962 ∧
      headerBytes (headerView blankMem okHeader avStream (some 18) (1024 * 1) (headerFirst 0).rd) =
        headerBytes (headerView blankMem okHeader avStream (some 18) (1024 * 1) (moreFirst 0).rd) ∧
      (parsePoint blankMem (okHeader ++ avStream) (some 18) headerFirst 1024 0).map
        (fun s => (s.rcvd, s.asfDs.hohSize)) = some (481, 431) ∧
      (parsePoint blankMem (okHeader ++ avStream) (some 18) byteFirst 1024 1).map
        (fun s => (s.rcvd, s.asfDs.hohSize)) = some (481, 327)) := by
  decide +kernel

/-! ## Reaching the limit -/

/-- With nothing failing, a recording reaches its limit exactly when it survives every round before: not
everything up to the limit has been received already, and the bytes received in the round bring the
parser past what has been written. -/
theorem sendAsf_complete_iff {mem h S : List UInt8} {k L : Nat} {rd wr : Nat → Nat} (hm : mem.length = 2049)
    (hh : HttpHeader h) (hfit : h.length ≤ min (k + 1) 128) (hL : 1024 ≤ L) (hS : L ≤ S.length) :
    (∃ st, sendAsf mem (h ++ S) (some k) (steady rd wr) L = some ⟨0, st⟩ ∧ st.ofd = S.take L) ↔
      Survives L (reachOf S (headerView mem h S (some k) L (some (rd 0))))
        (totals mem h S (some k) (steady rd wr) L) := by
  have hL' : (1024 : Int) ≤ L := by omega
  have hb := startSt_buffered (h := h) (S := S) (k := k) hm hL'
  have hv := fun s₁ (hf : fill (startSt mem h S k L) (steady rd wr 0).rd = some s₁) => startSt_view hm hL' hf
  have hrun : sendAsf mem (h ++ S) (some k) (steady rd wr) L =
      whileLoop sendPass (steady rd wr) (L + 1) 0 (startSt mem h S k L) := by
    simp only [sendAsf, sendStart_eq hh hfit, Int.toNat_natCast]
  have hsim := sendLoop_flow hb startSt_fresh hv (L + 1)
  have hfl : (startSt mem h S k L).flow = ⟨firstBytesRcvd h S k, 0⟩ := by rw [SendSt.flow, startSt_rcvd]; rfl
  have hsane : (⟨firstBytesRcvd h S k, 0⟩ : Flow).Sane L := by
    have : firstBytesRcvd h S k ≤ 128 := by unfold firstBytesRcvd; omega
    exact ⟨Nat.zero_le _, by simp only; omega, by simp only; omega⟩
  rw [hfl, Int.toNat_natCast] at hsim
  have hiff := @flowLoop_complete_iff S.length L
    (reachOf S (headerView mem h S (some k) L (some (rd 0)))) rd wr _ hsane hS
  refine Iff.trans ?_ hiff
  have hsim' : whileLoop (flowPass S.length L (reachOf S (headerView mem h S (some k) L (some (rd 0)))))
      (steady rd wr) (L + 1) 0 ⟨firstBytesRcvd h S k, 0⟩ = _ := hsim
  rw [hrun, hsim', Option.map_eq_some_iff]
  constructor
  · rintro ⟨st, hst, hofd⟩
    refine ⟨_, hst, ?_⟩
    have hbst := (exit_inv hb startSt_fresh hv hst).1
    have hlen : st.ofd.length = L := by rw [hofd, List.length_take]; omega
    have hR := hbst.rcvd_le_limit
    have hge : st.ofd.length ≤ st.rcvd := Nat.le_add_right _ _
    simp only [SendSt.flow, hlen, Prod.mk.injEq, Flow.mk.injEq, and_true, true_and]
    simp only at hR
    omega
  · rintro ⟨⟨code, st⟩, hst, he⟩
    simp only [SendSt.flow, Prod.mk.injEq, Flow.mk.injEq] at he
    obtain ⟨rfl, -, hlen⟩ := he
    have hbst := (exit_inv hb startSt_fresh hv hst).1
    exact ⟨st, hst, by rw [hbst.ofd, hlen]⟩

theorem sendAsf_complete_iff_oneRead :
    Survives 1024 (reachOf videoStream (headerView blankMem okHeader videoStream (some 18) (1024 : Nat)
      (some 2047)))
      (totals blankMem okHeader videoStream (some 18) (steady (fun _ => 2047) (fun _ => 2047))
        (1024 : Nat)) := by
  refine (@sendAsf_complete_iff blankMem okHeader videoStream 18 1024 (fun _ => 2047)
    (fun _ => 2047) blankMem_len
    okHeader_httpHeader (by decide) (by decide) stream_evaluations.1.2.1.ge).mp ?_
  obtain ⟨⟨code, st⟩, hst, he⟩ := Option.map_eq_some_iff.mp stream_evaluations.1.2.2.2.1
  simp only [Prod.mk.injEq] at he
  exact ⟨st, he.1 ▸ hst, he.2.1⟩

theorem sendAsf_given_up :
    HeaderObjects (blankHeader 3 327) ∧ HttpHeader okHeader ∧ okHeader.length ≤ min (18 + 1) 128 ∧
      1024 ≤ videoStream.length ∧
      ¬ ∃ st, sendAsf blankMem (okHeader ++ videoStream) (some 18)
          (steady (fun n => if n = 0 then 376 else 0) (fun _ => 2047)) 1024 = some ⟨0, st⟩ ∧
        st.ofd = videoStream.take 1024 := by
  obtain ⟨hobj, hlen, -, -, hcode⟩ := stream_evaluations.1
  refine ⟨hobj, okHeader_httpHeader, by decide, hlen.ge, ?_⟩
  rintro ⟨st, hst, -⟩
  rw [hst] at hcode
  cases hcode

/-! ## Where the reads split the stream -/

/-- Two recordings of one stream that have received and parsed the same bytes have the same parser
exactly when they took the same bytes for the header. -/
theorem parse_state_eq_iff {mem₁ mem₂ h₁ h₂ S : List UInt8} {hdr₁ hdr₂ : Option Nat} {env₁ env₂ : Nat → Turn}
    {z₁ z₂ : Int} {n₁ n₂ : Nat} {s₁ s₂ : SendSt} (hm₁ : mem₁.length = 2049) (hm₂ : mem₂.length = 2049)
    (hh₁ : HttpHeader h₁) (hh₂ : HttpHeader h₂)
    (hp₁ : parsePoint mem₁ (h₁ ++ S) hdr₁ env₁ (1024 * z₁) n₁ = some s₁)
    (hp₂ : parsePoint mem₂ (h₂ ++ S) hdr₂ env₂ (1024 * z₂) n₂ = some s₂) (hR : s₁.rcvd = s₂.rcvd) :
    s₁.asfDs = s₂.asfDs ↔
      headerBytes (headerView mem₁ h₁ S hdr₁ (1024 * z₁) (env₁ 0).rd) =
        headerBytes (headerView mem₂ h₂ S hdr₂ (1024 * z₂) (env₂ 0).rd) := by
  obtain ⟨hv₁, hq₁⟩ := parsePoint_parsed hm₁ hh₁ hp₁
  obtain ⟨hv₂, hq₂⟩ := parsePoint_parsed hm₂ hh₂ hp₂
  rw [hq₁.asfDs, hq₂.asfDs, hR]
  exact parsed_eq_iff hv₁ hv₂

theorem parse_state_eq_iff_headerFirst :
    ∃ s₁ s₂,
      parsePoint blankMem (okHeader ++ avStream) (some 18) headerFirst (1024 * 1) 1 = some s₁ ∧
      parsePoint blankMem (okHeader ++ avStream) (some 18) moreFirst (1024 * 1) 0 = some s₂ ∧
      s₁.rcvd = s₂.rcvd ∧ s₁.asfDs = s₂.asfDs := by
  obtain ⟨-, h₁, h₂, hview, -, -⟩ := stream_evaluations.2
  obtain ⟨s₁, hs₁, he₁⟩ := Option.map_eq_some_iff.mp h₁
  obtain ⟨s₂, hs₂, he₂⟩ := Option.map_eq_some_iff.mp h₂
  have hR : s₁.rcvd = s₂.rcvd := he₁.trans he₂.symm
  refine ⟨s₁, s₂, hs₁, hs₂, hR, ?_⟩
  exact (parse_state_eq_iff blankMem_len blankMem_len okHeader_httpHeader okHeader_httpHeader hs₁ hs₂
    hR).mpr hview

/-- When 481 bytes have been received in either way, the parsers take the header object for 431 and 327
bytes. -/
theorem parse_state_depends_on_split :
    HeaderObjects (blankHeader 4 431) ∧ HttpHeader okHeader ∧
    ∃ s₁ s₂,
      parsePoint blankMem (okHeader ++ avStream) (some 18) headerFirst 1024 0 = some s₁ ∧
      parsePoint blankMem (okHeader ++ avStream) (some 18) byteFirst 1024 1 = some s₂ ∧
      s₁.rcvd = s₂.rcvd ∧ s₁.asfDs ≠ s₂.asfDs := by
  obtain ⟨hobj, -, -, -, h₁, h₂⟩ := stream_evaluations.2
  refine ⟨hobj, okHeader_httpHeader, ?_⟩
  obtain ⟨s₁, hs₁, he₁⟩ := Option.map_eq_some_iff.mp h₁
  obtain ⟨s₂, hs₂, he₂⟩ := Option.map_eq_some_iff.mp h₂
  simp only [Prod.mk.injEq] at he₁ he₂
  refine ⟨s₁, s₂, hs₁, hs₂, by rw [he₁.1, he₂.1], fun hc => ?_⟩
  have := congrArg SmbcAsfDs.hohSize hc
  rw [he₁.2, he₂.2] at this
  omega

theorem parse_state_eq_of_header_received {mem₁ mem₂ h₁ h₂ S : List UInt8} {hdr₁ hdr₂ : Option Nat}
    {env₁ env₂ : Nat → Turn} {z₁ z₂ : Int} {n₁ n₂ : Nat} {s₁ s₂ t₁ t₂ : SendSt} (hm₁ : mem₁.length = 2049)
    (hm₂ : mem₂.length = 2049) (hh₁ : HttpHeader h₁) (hh₂ : HttpHeader h₂)
    (hp₁ : parsePoint mem₁ (h₁ ++ S) hdr₁ env₁ (1024 * z₁) n₁ = some s₁)
    (hp₂ : parsePoint mem₂ (h₂ ++ S) hdr₂ env₂ (1024 * z₂) n₂ = some s₂) (hR : s₁.rcvd = s₂.rcvd)
    (hf₁ : parsePoint mem₁ (h₁ ++ S) hdr₁ env₁ (1024 * z₁) 0 = some t₁) (ht₁ : 481 ≤ t₁.rcvd)
    (hf₂ : parsePoint mem₂ (h₂ ++ S) hdr₂ env₂ (1024 * z₂) 0 = some t₂) (ht₂ : 481 ≤ t₂.rcvd) :
    s₁.asfDs = s₂.asfDs := by
  obtain ⟨hv₁, hq₁⟩ := parsePoint_parsed hm₁ hh₁ hp₁
  obtain ⟨hv₂, hq₂⟩ := parsePoint_parsed hm₂ hh₂ hp₂
  rw [hq₁.asfDs, hq₂.asfDs, hR, parsed_eq_iff hv₁ hv₂]
  rw [headerBytes_of_take (headerView_take hm₁ hh₁ hf₁ ht₁),
    headerBytes_of_take (headerView_take hm₂ hh₂ hf₂ ht₂)]

/-! ## The header of the finished file -/

/-- The header describes the stream in front of `fileLen`: that is a packet boundary, and both packet
counts are the number of packets before it. -/
def DescribesPackets (header : List UInt8) (frames : List Frame) (hdr : List UInt8) : Prop :=
  ∃ m ≤ (frames.flatMap Frame.packets).length,
    le32 hdr fpFileLen = streamBoundary header frames m ∧ le32 hdr fpDataPacketCount = m ∧
      le64 hdr (dpTotalDataPackets (hohSizeOf hdr)) = m

/-- What a header says that was filled in after the walk. The boundary that it names is that of the last
packet, which it counts; so the walk must have been wrong about the packets. -/
theorem describesPackets_iff {header v hdr : List UInt8} {frames : List Frame} {R : Nat}
    (hobj : HeaderObjects header)
    (hfields : HeaderFields hdr (hohSizeOf v) (lastPacketStart (asfStream header frames) R (afterHeader v))
      (headerCount (asfStream header frames) R (afterHeader v))) :
    DescribesPackets header frames hdr ↔
      hohSizeOf v ≠ hohSizeOf header ∧
        ∃ k, headerCount (asfStream header frames) R (afterHeader v) = k + 1 ∧
          k + 1 ≤ (frames.flatMap Frame.packets).length ∧
          packetStart (asfStream header frames) (afterHeader v) k = streamBoundary header frames (k + 1) := by
  unfold DescribesPackets
  rw [hfields.hoh_eq, hfields.fileLen_eq, hfields.dataPacketCount_eq, hfields.totalDataPackets_eq]
  constructor
  · rintro ⟨m, hm, hlen, hcount, -⟩
    obtain ⟨k, hk, hlast⟩ := lastPacketStart_pos (hlen ▸ streamBoundary_pos hobj frames m)
    obtain rfl : m = k + 1 := hcount.symm.trans hk
    rw [hlast] at hlen
    refine ⟨fun hc => ?_, k, hk, hm, hlen⟩
    rw [packetStart_asfStream hobj hc k (by omega)] at hlen
    have hlt : streamBoundary header frames k < streamBoundary header frames (k + 1) :=
      streamBoundary_strictMono (Nat.lt_succ_self k) hm hobj
    omega
  · rintro ⟨-, k, hk, hm, hstart⟩
    refine ⟨k + 1, hm, ?_, hk, hk⟩
    rw [lastPacketStart, hk]
    exact hstart

/-- `fileLen` is where the last packet starts whose header was received, while that packet is counted.
So the header describes its packets only if the first read did not bring `objectNum`, the header object
was then taken to have the wrong size, and the packet starts that the parser found behind it happen to
hit the next boundary. -/
theorem writtenHeader_describes_iff {mem h header : List UInt8} {frames : List Frame} {hdr : Option Nat}
    {env : Nat → Turn} {z : Int} {e : SendExit} (hm : mem.length = 2049) (hh : HttpHeader h)
    (hobj : HeaderObjects header) (hz : 1024 * z < 2147483648)
    (he : sendAsf mem (h ++ asfStream header frames) hdr env (1024 * z) = some e) :
    let S := asfStream header frames
    let v := headerView mem h S hdr (1024 * z) (env 0).rd
    let R := (endTotals mem h S hdr env (1024 * z)).rcvd
    DescribesPackets header frames (writtenHeader e.st.asfDs) ↔
      hohSizeOf v ≠ hohSizeOf header ∧
        ∃ k, headerCount S R (afterHeader v) = k + 1 ∧ k + 1 ≤ (frames.flatMap Frame.packets).length ∧
          packetStart S (afterHeader v) k = streamBoundary header frames (k + 1) := by
  intro S v R
  have hR : R = e.st.rcvd := congrArg Flow.rcvd (sendAsf_endTotals hm hh he).symm
  rw [hR]
  rcases sendAsf_exit hm hh he with hidle | ⟨hb, hv, hp⟩
  · -- nothing was parsed: the block written back ends before `fileLen`
    constructor
    · rintro ⟨m, -, hlen, -⟩
      have hpos := streamBoundary_pos hobj frames m
      rw [← hlen, hidle.written_fileLen] at hpos
      exact absurd hpos (Nat.lt_irrefl 0)
    · rintro ⟨-, k, hk, -⟩
      rw [hidle.headerCount] at hk
      cases hk
  · have hlim := hb.rcvd_le_limit
    exact describesPackets_iff hobj (hp.header hv (by omega)).2

/-- The one packet of `videoStream` is received, parsed and written; `fileLen` is 377 but one packet is
counted. -/
theorem writtenHeader_miscounts :
    HeaderObjects (blankHeader 3 327) ∧ HttpHeader okHeader ∧
    ∃ e, sendAsf blankMem (okHeader ++ videoStream) (some 18)
      (steady (fun _ => 2047) (fun _ => 2047)) 1024 = some e ∧
      e.errcode = 0 ∧ ¬ DescribesPackets (blankHeader 3 327) [blankFrame 616 (by decide)]
        (writtenHeader e.st.asfDs) := by
  obtain ⟨hobj, -, hbound, hrun, -⟩ := stream_evaluations.1
  refine ⟨hobj, okHeader_httpHeader, ?_⟩
  obtain ⟨e, hst, he⟩ := Option.map_eq_some_iff.mp hrun
  simp only [Prod.mk.injEq] at he
  obtain ⟨hcode, -, hfile, hpackets⟩ := he
  refine ⟨e, hst, hcode, ?_⟩
  rintro ⟨m, -, hlen, hcount, -⟩
  rw [hpackets] at hcount
  rw [hfile, ← hcount, hbound] at hlen
  cases hlen

/-- An audio and video header with numbers in it, 377 bytes from its start, that read as a packet up to
byte 543. -/
def skewHeader : List UInt8 :=
  List.replicate 24 0 ++ 4 :: List.replicate 373 0 ++ [135, 0, 0, 0, 0, 0, 0, 0, 135, 0] ++
    List.replicate 73 0

/-- The accident: taken to be 327 bytes long, this header object hides the first two of three packets. -/
theorem writtenHeader_describes_iff_skew :
    ∃ e, sendAsf blankMem (okHeader ++
        asfStream skewHeader (List.replicate 3 (blankFrame 0 (by decide)))) (some 18)
        (steady (fun n => if n = 0 then 0 else 2047) (fun _ => 2047)) (1024 * 1) = some e ∧
      DescribesPackets skewHeader (List.replicate 3 (blankFrame 0 (by decide)))
        (writtenHeader e.st.asfDs) := by
  obtain ⟨e, he⟩ := Option.isSome_iff_exists.mp (sendAsf_isSome blankMem
    (okHeader ++ asfStream skewHeader (List.replicate 3 (blankFrame 0 (by decide)))) (some 18)
    (steady (fun n => if n = 0 then 0 else 2047) (fun _ => 2047)) (1024 * 1))
  refine ⟨e, he, ?_⟩
  refine (writtenHeader_describes_iff blankMem_len okHeader_httpHeader (by decide +kernel)
    (by decide) he).mpr ?_
  exact ⟨by decide +kernel, 1, by decide +kernel, by decide +kernel, by decide +kernel⟩

/-! ## What lies in front of `fileLen` -/

/-- The server was ready, in the write of round `m`, for the bytes up to the start of the last packet
whose header had been received. -/
def WriteReaches (S v : List UInt8) (env : Nat → Turn) (F : Nat → Flow) (m : Nat) : Prop :=
  ∀ w, (env m).wr = some w → lastPacketStart S (F (m + 1)).rcvd (afterHeader v) ≤ (F m).sent + (w + 1)

theorem fileLen_eq {mem h S : List UInt8} {hdr : Option Nat} {env : Nat → Turn} {z c : Int} {st : SendSt}
    (hm : mem.length = 2049) (hh : HttpHeader h) (hz : 1024 * z < 2147483648)
    (he : sendAsf mem (h ++ S) hdr env (1024 * z) = some ⟨c, st⟩) :
    le32 (seekableHeader st.asfDs) fpFileLen =
      lastPacketStart S st.rcvd (afterHeader (headerView mem h S hdr (1024 * z) (env 0).rd)) := by
  rcases sendAsf_exit hm hh he with hidle | ⟨hb, hv, hp⟩
  · rw [hidle.seekable_fileLen, lastPacketStart, hidle.headerCount]
  · have hlim := hb.rcvd_le_limit
    obtain ⟨hfields, -⟩ := hp.header hv (by omega)
    exact hfields.fileLen_eq

/-- When `send_asf` returns 0, `fileLen` lies within what was written exactly when the last write, if
there was one, reached the start of the last packet whose header had been received. -/
theorem fileLen_written_iff {mem h S : List UInt8} {hdr : Option Nat} {env : Nat → Turn} {z : Int}
    {st : SendSt} (hm : mem.length = 2049) (hh : HttpHeader h) (hz : 1024 * z < 2147483648)
    (he : sendAsf mem (h ++ S) hdr env (1024 * z) = some ⟨0, st⟩) :
    ∃ n, EndsAt env (1024 * z) (totals mem h S hdr env (1024 * z)) n ∧
      (le32 (seekableHeader st.asfDs) fpFileLen ≤ st.ofd.length ↔
        ∀ m, n = m + 1 →
          WriteReaches S (headerView mem h S hdr (1024 * z) (env 0).rd) env
            (totals mem h S hdr env (1024 * z)) m) := by
  obtain ⟨n, hend, hfl, hidle, hwrite⟩ := sendAsf_zero hm hh he
  refine ⟨n, hend, ?_⟩
  have hlen := fileLen_eq hm hh hz he
  have hrcvd : st.rcvd = (totals mem h S hdr env (1024 * z) n).rcvd := congrArg Flow.rcvd hfl
  have hsent : st.ofd.length = (totals mem h S hdr env (1024 * z) n).sent := congrArg Flow.sent hfl
  rw [hlen]
  cases n with
  | zero =>
      have hnone := (hidle rfl).headerCount S (headerView mem h S hdr (1024 * z) (env 0).rd)
      rw [lastPacketStart, hnone]
      exact ⟨fun _ m hm' => absurd hm' (by omega), fun _ => Nat.zero_le _⟩
  | succ m =>
      obtain ⟨w, hw, hmore, -⟩ := hwrite m rfl
      rw [hrcvd, hsent]
      refine (send_reaches_iff (totals_succ hw) hmore).trans ⟨?_, fun h => h m rfl w hw⟩
      intro h m' hm' w' hw'
      cases hm'
      rw [hw] at hw'; cases hw'
      exact h

def stopAfterShortWrite (n : Nat) : Turn := ⟨n == 1, some 2047, some 0⟩

def stopAfterFullWrite (n : Nat) : Turn := ⟨n == 1, some 1000, some 2047⟩

/-- The file is declared to be 377 bytes long and holds one byte. -/
theorem fileLen_past_end :
    HeaderObjects (blankHeader 3 327) ∧ HttpHeader okHeader ∧
    ∃ st, sendAsf blankMem (okHeader ++ videoStream) (some 18) stopAfterShortWrite 1024 = some ⟨0, st⟩ ∧
      ¬ le32 (seekableHeader st.asfDs) fpFileLen ≤ st.ofd.length := by
  refine ⟨stream_evaluations.1.1, okHeader_httpHeader, ?_⟩
  have hrun : (sendAsf blankMem (okHeader ++ videoStream) (some 18) stopAfterShortWrite 1024).map
      (fun e => (e.errcode, le32 (seekableHeader e.st.asfDs) fpFileLen, e.st.ofd.length)) =
        some (0, 377, 1) := by
    decide +kernel
  obtain ⟨⟨code, st⟩, hst, he⟩ := Option.map_eq_some_iff.mp hrun
  simp only [Prod.mk.injEq] at he
  exact ⟨st, he.1 ▸ hst, by omega⟩

theorem fileLen_written_iff_fullWrite :
    ∃ st, sendAsf blankMem (okHeader ++ videoStream) (some 18) stopAfterFullWrite (1024 * 1) = some ⟨0, st⟩ ∧
      le32 (seekableHeader st.asfDs) fpFileLen ≤ st.ofd.length := by
  have hrun : (sendAsf blankMem (okHeader ++ videoStream) (some 18) stopAfterFullWrite (1024 * 1)).map
      SendExit.errcode = some 0 := by decide +kernel
  obtain ⟨⟨code, st⟩, hst, he⟩ := Option.map_eq_some_iff.mp hrun
  cases he
  refine ⟨st, hst, ?_⟩
  obtain ⟨n, hend, hiff⟩ := fileLen_written_iff blankMem_len okHeader_httpHeader (by decide) hst
  refine hiff.mpr fun m hm w hw => ?_
  -- the stop is seen in round 1, so round 0 is the one that wrote
  have hn : n ≤ 1 := by
    by_contra hc
    have := (hend.1 1 (by omega)).1
    cases this
  obtain rfl : m = 0 := by omega
  cases hw
  decide +kernel

/-- Short writes are what it takes: if every write is a full one, `fileLen` lies within what was written. -/
theorem fileLen_written_of_full_writes {mem h S : List UInt8} {hdr : Option Nat} {env : Nat → Turn} {z : Int}
    {st : SendSt} (hm : mem.length = 2049) (hh : HttpHeader h) (hz : 1024 * z < 2147483648)
    (hfull : ∀ n, ∃ w, 2047 ≤ w ∧ (env n).wr = some w)
    (he : sendAsf mem (h ++ S) hdr env (1024 * z) = some ⟨0, st⟩) :
    le32 (seekableHeader st.asfDs) fpFileLen ≤ st.ofd.length := by
  obtain ⟨n, -, hfl, hidle, hwrite⟩ := sendAsf_zero hm hh he
  have hrcvd : st.rcvd = (totals mem h S hdr env (1024 * z) n).rcvd := congrArg Flow.rcvd hfl
  have hsent : st.ofd.length = (totals mem h S hdr env (1024 * z) n).sent := congrArg Flow.sent hfl
  rw [fileLen_eq hm hh hz he]
  cases n with
  | zero =>
      rw [lastPacketStart, (hidle rfl).headerCount]
      exact Nat.zero_le _
  | succ m =>
      obtain ⟨w, hw, hmore, hbuf⟩ := hwrite m rfl
      obtain ⟨w', hle, hw'⟩ := hfull m
      rw [hw] at hw'; cases hw'
      rw [hrcvd, hsent]
      refine (send_reaches_iff (totals_succ hw) hmore).mpr ?_
      exact (lastPacketStart_le (afterHeader_atPacket _)).trans (by omega)

end CameraFw.Recorder
