import CameraFw.Recorder.Lemmas.Run

/-!
# The finalised header

Which numbers `make_it_seekable` puts into the fields of the header that it writes back over the start
of the file.
-/

namespace CameraFw.Recorder

open CameraFw.Base

def headerFields (hohSize flags fileLen duration packets objectLen totalPackets : Nat) : List Field :=
  [⟨fpFlags, 4, flags⟩, ⟨fpFileLen, 4, fileLen⟩, ⟨fpPlayDuration, 4, duration⟩, ⟨fpPlayDuration2, 4, 0⟩,
    ⟨fpSendDuration, 4, duration⟩, ⟨fpSendDuration2, 4, 0⟩, ⟨fpDataPacketCount, 4, packets⟩,
    ⟨dpObjectLen hohSize, 4, objectLen⟩, ⟨dpDummy hohSize, 4, 0⟩,
      ⟨dpTotalDataPackets hohSize, 8, totalPackets⟩]

theorem seekableHeader_eq (ds : SmbcAsfDs) : ∃ flags objectLen,
    seekableHeader ds = storeFields ds.headerBuf
      (headerFields ds.hohSize flags (word32 ds.prevDoneOffset) (ds.prevPresentTime * 10000).toNat
        (word32 ((ds.packetCount : Int) - 1)) objectLen (word64 ((ds.packetCount : Int) - 1))) :=
  ⟨_, _, rfl⟩

/-- The header buffer has its size, and the data-object header lies behind the file properties in it. -/
structure Layout (ds : SmbcAsfDs) : Prop where
  len : ds.headerBuf.length = 482
  hoh_ge : 327 ≤ ds.hohSize
  hoh_le : ds.hohSize ≤ 431

section

variable {m : List UInt8} {hohSize a b c d e f : Nat}

theorem headerFields_in (hm : m.length = 482) (h : hohSize ≤ 431) :
    ∀ x ∈ headerFields hohSize a b c d e f, x.In m.length := by
  simp only [headerFields, List.forall_mem_cons, Field.In, fpFlags, fpFileLen, fpPlayDuration,
    fpPlayDuration2,
    fpSendDuration, fpSendDuration2, fpDataPacketCount, dpObjectLen, dpDummy, dpTotalDataPackets,
      asfHeaderSize,
    List.not_mem_nil, false_implies, implies_true, and_true]
  omega

theorem headerFields_apart (hge : 327 ≤ hohSize) :
    (headerFields hohSize a b c d e f).Pairwise fun x y => y.Apart x.off x.width := by
  simp only [headerFields, List.pairwise_cons, List.forall_mem_cons, Field.Apart, fpFlags, fpFileLen,
    fpPlayDuration,
    fpPlayDuration2, fpSendDuration, fpSendDuration2, fpDataPacketCount, dpObjectLen, dpDummy,
      dpTotalDataPackets,
    asfHeaderSize, List.not_mem_nil, false_implies, implies_true, and_true, List.Pairwise.nil]
  omega

theorem load_objectNum (hm : m.length = 482) (h : hohSize ≤ 431) (hge : 327 ≤ hohSize) :
    load (storeFields m (headerFields hohSize a b c d e f)) 24 4 = load m 24 4 := by
  refine load_storeFields_apart (headerFields_in hm h) ?_
  simp only [headerFields, List.forall_mem_cons, Field.Apart, fpFlags, fpFileLen, fpPlayDuration,
    fpPlayDuration2,
    fpSendDuration, fpSendDuration2, fpDataPacketCount, dpObjectLen, dpDummy, dpTotalDataPackets,
      asfHeaderSize,
    List.not_mem_nil, false_implies, implies_true, and_true]
  omega

end

/-- Each field of the header is read as `make_it_seekable` has set it. -/
theorem load_seekableHeader {ds : SmbcAsfDs} (h : Layout ds) : ∃ flags objectLen,
    ∀ x ∈ headerFields ds.hohSize flags (word32 ds.prevDoneOffset) (ds.prevPresentTime * 10000).toNat
        (word32 ((ds.packetCount : Int) - 1)) objectLen (word64 ((ds.packetCount : Int) - 1)),
      load (seekableHeader ds) x.off x.width = toLE x.width x.value := by
  obtain ⟨flags, objectLen, he⟩ := seekableHeader_eq ds
  refine ⟨flags, objectLen, fun x hx => ?_⟩
  rw [he]
  exact load_storeFields_mem (headerFields_in h.len h.hoh_le) (headerFields_apart h.hoh_ge) hx

/-- What a reader of the file finds in its header. -/
structure HeaderFields (hdr : List UInt8) (hohSize fileLen packets : Nat) : Prop where
  hoh_eq : hohSizeOf hdr = hohSize
  fileLen_eq : le32 hdr fpFileLen = fileLen
  dataPacketCount_eq : le32 hdr fpDataPacketCount = packets
  totalDataPackets_eq : le64 hdr (dpTotalDataPackets hohSize) = packets

theorem seekableHeader_fields {ds : SmbcAsfDs} (h : Layout ds)
    (hobj : hohSizeOf ds.headerBuf = ds.hohSize) (hpos : 1 ≤ ds.packetCount)
    (hcount : ds.packetCount ≤ 4294967296) (hprev : ds.prevDoneOffset < 4294967296) :
    HeaderFields (seekableHeader ds) ds.hohSize ds.prevDoneOffset (ds.packetCount - 1) := by
  have hge := h.hoh_ge
  have hle := h.hoh_le
  obtain ⟨_, _, he⟩ := seekableHeader_eq ds
  obtain ⟨x, y, hload⟩ := load_seekableHeader h
  have hp : word32 ds.prevDoneOffset = ds.prevDoneOffset := by unfold word32; omega
  have hc : word32 ((ds.packetCount : Int) - 1) = ds.packetCount - 1 := by unfold word32; omega
  have hc' : word64 ((ds.packetCount : Int) - 1) = ds.packetCount - 1 := by unfold word64; omega
  rw [hp, hc, hc'] at hload
  have hfile : load (seekableHeader ds) fpFileLen 4 = toLE 4 ds.prevDoneOffset :=
    hload ⟨fpFileLen, 4, ds.prevDoneOffset⟩ (by simp [headerFields])
  have hdata : load (seekableHeader ds) fpDataPacketCount 4 = toLE 4 (ds.packetCount - 1) :=
    hload ⟨fpDataPacketCount, 4, ds.packetCount - 1⟩ (by simp [headerFields])
  have htotal : load (seekableHeader ds) (dpTotalDataPackets ds.hohSize) 8 = toLE 8 (ds.packetCount - 1) :=
    hload ⟨dpTotalDataPackets ds.hohSize, 8, ds.packetCount - 1⟩ (by simp [headerFields])
  refine ⟨?_, ?_, ?_, ?_⟩
  · rw [← hobj, hohSizeOf, hohSizeOf, objectNum, objectNum, he, le32, load_objectNum h.len hle hge, le32]
  · rw [le32, hfile, le_toLE]; omega
  · rw [le32, hdata, le_toLE]; omega
  · rw [le64, htotal, le_toLE]; omega

/-- What is written back of the header is read as it was set. -/
theorem load_writtenHeader {ds : SmbcAsfDs} {off n : Nat} (hn : off + n ≤ ds.hohSize + 50) :
    load (writtenHeader ds) off n = load (seekableHeader ds) off n := by
  refine load_congr (k := ds.hohSize + 50) ?_ hn
  rw [writtenHeader, load, List.drop_zero, asfDataSize, List.take_take, Nat.min_self]

theorem writtenHeader_fields {ds : SmbcAsfDs} {hohSize fileLen packets : Nat} (hge : 327 ≤ ds.hohSize)
    (h : HeaderFields (seekableHeader ds) hohSize fileLen packets) (hoh : hohSize = ds.hohSize) :
    HeaderFields (writtenHeader ds) hohSize fileLen packets := by
  obtain ⟨h1, h2, h3, h4⟩ := h
  subst hoh
  refine ⟨?_, ?_, ?_, ?_⟩
  · rw [← h1, hohSizeOf, hohSizeOf, objectNum, objectNum, le32, load_writtenHeader (by omega), le32]
  · rw [le32, load_writtenHeader (by simp only [fpFileLen, asfHeaderSize]; omega), ← h2, le32]
  · rw [le32, load_writtenHeader (by simp only [fpDataPacketCount, asfHeaderSize]; omega), ← h3, le32]
  · rw [le64, load_writtenHeader (by simp only [dpTotalDataPackets]; omega), ← h4, le64]

/-- Both durations are the time of the parser in a 32-bit product; the high words are 0. -/
theorem writtenHeader_durations {ds : SmbcAsfDs} (h : Layout ds) :
    le64 (writtenHeader ds) fpPlayDuration = (ds.prevPresentTime * 10000).toNat ∧
      le64 (writtenHeader ds) fpSendDuration = (ds.prevPresentTime * 10000).toNat := by
  have hge := h.hoh_ge
  obtain ⟨x, y, he⟩ := seekableHeader_eq ds
  have hlen : (writtenHeader ds).length = ds.hohSize + 50 := by
    have hle := h.hoh_le
    rw [writtenHeader, he]
    refine length_load ?_
    rw [length_storeFields (headerFields_in h.len hle), h.len, asfDataSize]
    omega
  obtain ⟨_, _, hload⟩ := load_seekableHeader h
  have h1 : load (seekableHeader ds) fpPlayDuration 4 = toLE 4 (ds.prevPresentTime * 10000).toNat :=
    hload ⟨fpPlayDuration, 4, (ds.prevPresentTime * 10000).toNat⟩ (by simp [headerFields])
  have h2 : load (seekableHeader ds) fpPlayDuration2 4 = toLE 4 0 :=
    hload ⟨fpPlayDuration2, 4, 0⟩ (by simp [headerFields])
  have h3 : load (seekableHeader ds) fpSendDuration 4 = toLE 4 (ds.prevPresentTime * 10000).toNat :=
    hload ⟨fpSendDuration, 4, (ds.prevPresentTime * 10000).toNat⟩ (by simp [headerFields])
  have h4 : load (seekableHeader ds) fpSendDuration2 4 = toLE 4 0 :=
    hload ⟨fpSendDuration2, 4, 0⟩ (by simp [headerFields])
  have hlt : (ds.prevPresentTime * 10000).toNat % 256 ^ 4 = (ds.prevPresentTime * 10000).toNat :=
    Nat.mod_eq_of_lt (BitVec.isLt _)
  simp only [fpPlayDuration, fpPlayDuration2, fpSendDuration, fpSendDuration2, asfHeaderSize] at h1 h2 h3 h4 ⊢
  rw [le64_eq (by omega), le64_eq (by omega), le32, le32, le32, le32, load_writtenHeader (by omega),
    load_writtenHeader (by omega), load_writtenHeader (by omega), load_writtenHeader (by omega), h1, h2,
      h3, h4,
    le_toLE, le_toLE, hlt]
  simp

/-- A parser that has seen nothing has no length to declare. -/
theorem header_zero_fileLen :
    le32 (seekableHeader .zero) fpFileLen = 0 ∧ le32 (writtenHeader .zero) fpFileLen = 0 :=
  ⟨rfl, rfl⟩

end CameraFw.Recorder
