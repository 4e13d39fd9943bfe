import CameraFw.Recorder.Lemmas.Parser

/-!
# The loop of `send_asf`

At every loop head the buffer holds the stretch of the stream between what has been written and what has
been received, and the parser stands where the walk over the received bytes ends.
-/

namespace CameraFw.Recorder

open CameraFw.Base

def SendSt.rcvd (s : SendSt) : Nat := s.ofd.length + s.bufSize.toNat

def SendSt.flow (s : SendSt) : Flow := ⟨s.rcvd, s.ofd.length⟩

/-- The buffer of a recording of `S` with the limit `L`. -/
structure Buffered (S : List UInt8) (L : Int) (s : SendSt) : Prop where
  mem_len : s.buf.length = 2049
  size_nonneg : 0 ≤ s.bufSize
  size_le : s.bufSize ≤ 2048
  size_le_limit : s.bufSize ≤ s.asfMaxSize
  limit : s.asfMaxSize = L - s.ofd.length
  ofd : s.ofd = S.take s.ofd.length
  ifd : s.ifd = S.drop s.rcvd
  rcvd_le : s.rcvd ≤ S.length
  held : s.buf.take s.bufSize.toNat = load S s.ofd.length s.bufSize.toNat

structure Fresh (s : SendSt) : Prop where
  asfDs : s.asfDs = .zero
  doneSize : s.doneSize = 0
  ofd : s.ofd = []
  size_lt : s.bufSize < 2048

/-- The parser has parsed what has been received; `v` is what the buffer held when it parsed the header
object. -/
structure Parsed (S v : List UInt8) (s : SendSt) : Prop where
  asfDs : s.asfDs = parsed S s.rcvd (afterHeader v)
  doneSize : s.doneSize = (s.asfDs.doneOffset : Int) - s.ofd.length
  done_nonneg : 0 ≤ s.doneSize

theorem Buffered.rcvd_le_limit {S L s} (h : Buffered S L s) : (s.rcvd : Int) ≤ L := by
  have h1 := h.size_nonneg
  have h2 := h.size_le_limit
  have h3 := h.limit
  unfold SendSt.rcvd
  omega

theorem word32_of_nonneg {x : Int} (h0 : 0 ≤ x) (h1 : x ≤ 2048) : word32 x = x.toNat := by
  unfold word32; omega

/-! ## Reading -/

theorem Buffered.room_eq {S L s} (h : Buffered S L s) :
    s.flow.room L.toNat = if s.asfMaxSize > 2048 then 2048 - s.bufSize.toNat else L.toNat - s.rcvd := by
  have h0 := h.size_nonneg
  have h2 := h.size_le_limit
  have h3 := h.limit
  have hlim : L.toNat - s.ofd.length > smbcBufSize ↔ s.asfMaxSize > 2048 := by
    show L.toNat - s.ofd.length > 2048 ↔ _
    omega
  have hsize : s.rcvd - s.ofd.length = s.bufSize.toNat := by unfold SendSt.rcvd; omega
  simp only [Flow.room, SendSt.flow, hlim, hsize]
  rfl

theorem Buffered.word32_readRequest {S L s} (h : Buffered S L s) :
    word32 (readRequest s) = s.flow.room L.toNat := by
  have h0 := h.size_nonneg
  have h1 := h.size_le
  have h2 := h.size_le_limit
  have h3 := h.limit
  rw [h.room_eq]
  unfold readRequest SendSt.rcvd
  rw [show ((smbcBufSize : Nat) : Int) = 2048 from rfl]
  split
  · rw [word32_of_nonneg (by omega) (by omega)]; omega
  · rw [word32_of_nonneg (by omega) (by omega)]; omega

theorem Buffered.room_le {S L s} (h : Buffered S L s) : s.bufSize.toNat + s.flow.room L.toNat ≤ 2048 := by
  have h0 := h.size_nonneg
  have h1 := h.size_le
  have h2 := h.size_le_limit
  have h3 := h.limit
  rw [h.room_eq]
  unfold SendSt.rcvd
  split <;> omega

theorem Buffered.room_le_limit {S L s} (h : Buffered S L s) : (s.rcvd : Int) + s.flow.room L.toNat ≤ L := by
  have h0 := h.size_nonneg
  have h1 := h.size_le
  have h2 := h.size_le_limit
  have h3 := h.limit
  rw [h.room_eq]
  unfold SendSt.rcvd
  split <;> omega

def SendSt.receive (s : SendSt) (got : Nat) (S : List UInt8) : SendSt :=
  { s with
    buf := store s.buf s.bufSize.toNat (load S s.rcvd got)
    bufSize := s.bufSize + got
    ifd := S.drop (s.rcvd + got) }

theorem receive_rcvd {S L s} (h : Buffered S L s) (got : Nat) : (s.receive got S).rcvd = s.rcvd + got := by
  have := h.size_nonneg
  simp only [SendSt.receive, SendSt.rcvd]; omega

theorem Buffered.receive {S L s got} (h : Buffered S L s) (hroom : got ≤ s.flow.room L.toNat)
    (hgot : s.rcvd + got ≤ S.length) : Buffered S L (s.receive got S) := by
  have hr := receive_rcvd h got
  have hlen : (load S s.rcvd got).length = got := length_load hgot
  have hsz := h.room_le
  have hlim := h.room_le_limit
  have hnn := h.size_nonneg
  have hl := h.limit
  refine
    { mem_len := ?_, size_nonneg := ?_, size_le := ?_, size_le_limit := ?_, limit := h.limit, ofd := h.ofd,
      ifd := ?_, rcvd_le := by rw [hr]; exact hgot, held := ?_ }
  · have := h.mem_len
    simp only [SendSt.receive]
    rw [length_store (by omega)]; exact this
  · simp only [SendSt.receive]; omega
  · simp only [SendSt.receive]; omega
  · simp only [SendSt.receive, SendSt.rcvd] at hlim ⊢; omega
  · rw [hr]; rfl
  · have hb := h.mem_len
    have hstore := take_store_prefix (m := s.buf) (load S s.rcvd got) (show s.bufSize.toNat ≤ _ by omega)
    simp only [SendSt.receive]
    rw [show (s.bufSize + (got : Int)).toNat = s.bufSize.toNat + got by omega]
    rw [hlen] at hstore
    rw [hstore, h.held]
    simp only [load, SendSt.rcvd]
    rw [List.take_add, List.drop_drop]

theorem Buffered.fill_eq {S L s} (h : Buffered S L s) (r : Nat) :
    fill s (some r) =
      if min (min (r + 1) (s.flow.room L.toNat)) (S.length - s.rcvd) = 0 then none
      else some (processIt (s.receive (min (min (r + 1) (s.flow.room L.toNat)) (S.length - s.rcvd)) S)) := by
  have hle := h.rcvd_le
  have hgot : s.ifd.take (min (r + 1) (s.flow.room L.toNat)) =
      load S s.rcvd (min (min (r + 1) (s.flow.room L.toNat)) (S.length - s.rcvd)) := by
    rw [h.ifd, load, ← List.length_drop, List.take_eq_take_min]
  have hlen : (load S s.rcvd (min (min (r + 1) (s.flow.room L.toNat)) (S.length - s.rcvd))).length =
      min (min (r + 1) (s.flow.room L.toNat)) (S.length - s.rcvd) := length_load (by omega)
  have hrest : s.ifd.drop (min (r + 1) (s.flow.room L.toNat)) =
      S.drop (s.rcvd + min (min (r + 1) (s.flow.room L.toNat)) (S.length - s.rcvd)) := by
    rw [h.ifd, List.drop_drop]
    rcases Nat.le_total (min (r + 1) (s.flow.room L.toNat)) (S.length - s.rcvd) with hc | hc
    · rw [Nat.min_eq_left hc]
    · rw [Nat.min_eq_right hc, List.drop_of_length_le (by omega), List.drop_of_length_le (by omega)]
  simp only [fill, readFd, h.word32_readRequest, hgot, hrest, hlen]
  rfl

/-! ## Parsing -/

@[simp] theorem processIt_buf (s : SendSt) : (processIt s).buf = s.buf := by unfold processIt; split <;> rfl
@[simp] theorem processIt_bufSize (s : SendSt) : (processIt s).bufSize = s.bufSize := by
  unfold processIt; split <;> rfl
@[simp] theorem processIt_asfMaxSize (s : SendSt) : (processIt s).asfMaxSize = s.asfMaxSize := by
  unfold processIt; split <;> rfl
@[simp] theorem processIt_ifd (s : SendSt) : (processIt s).ifd = s.ifd := by unfold processIt; split <;> rfl
@[simp] theorem processIt_ofd (s : SendSt) : (processIt s).ofd = s.ofd := by unfold processIt; split <;> rfl
@[simp] theorem processIt_rcvd (s : SendSt) : (processIt s).rcvd = s.rcvd := by simp [SendSt.rcvd]

theorem Buffered.processIt {S L s} (h : Buffered S L s) : Buffered S L (processIt s) :=
  { mem_len := by simpa using h.mem_len
    size_nonneg := by simpa using h.size_nonneg
    size_le := by simpa using h.size_le
    size_le_limit := by simpa using h.size_le_limit
    limit := by simpa using h.limit
    ofd := by simpa using h.ofd
    ifd := by simpa using h.ifd
    rcvd_le := by simpa using h.rcvd_le
    held := by simpa using h.held }

theorem parsed_processIt {S v L s} (R₀ : Nat) (hb : Buffered S L s) (hR : R₀ ≤ s.rcvd)
    (hds : s.asfDs = parsed S R₀ (afterHeader v))
    (hdone : s.doneSize = (s.asfDs.doneOffset : Int) - s.ofd.length) (hnn : 0 ≤ s.doneSize) :
    Parsed S v (processIt s) := by
  have hp₀ := afterHeader_atPacket v
  have hp : s.asfDs.AtPacket := hds ▸ parsed_atPacket hp₀
  have hgo : parsed S s.rcvd s.asfDs = parsed S s.rcvd (afterHeader v) := by
    rw [hds]; exact parsed_parsed hp₀ hR
  have hsz := hb.size_nonneg
  by_cases hlt : s.bufSize > s.doneSize
  · have hrun : processAsfState (s.buf.drop s.doneSize.toNat) (s.bufSize - s.doneSize) s.asfDs =
        ((parsed S s.rcvd s.asfDs).doneOffset - s.asfDs.doneOffset, parsed S s.rcvd s.asfDs) := by
      refine processAsfState_eq hp (by unfold SendSt.rcvd; omega) ?_
      have := congrArg (List.drop s.doneSize.toNat) hb.held
      simp only [load, List.drop_take, List.drop_drop] at this
      rw [show (s.bufSize - s.doneSize).toNat = s.bufSize.toNat - s.doneSize.toNat by omega, this, load]
      congr 2; omega
    have hle := parsed_le (S := S) (R := s.rcvd) hp
    have heq : Recorder.processIt s = { s with
        doneSize := s.doneSize + ((parsed S s.rcvd s.asfDs).doneOffset - s.asfDs.doneOffset : Nat)
        asfDs := parsed S s.rcvd s.asfDs } := by
      simp only [Recorder.processIt, if_pos hlt, hrun]
    rw [heq]
    exact ⟨hgo, by simp only; omega, by simp only; omega⟩
  · have hshort : s.rcvd < s.asfDs.doneOffset + s.asfDs.stateSize := by
      have := hp.size_pos
      unfold SendSt.rcvd; omega
    have heq : Recorder.processIt s = s := by simp only [Recorder.processIt, if_neg hlt]
    rw [heq]
    exact ⟨by rw [← hgo, parsed_short hshort], hdone, hnn⟩

/-- The first parsing: whatever the buffer holds is taken for the header object. -/
theorem parsed_processIt_first {S L s} (hb : Buffered S L s) (hds : s.asfDs = .zero) (hdone : s.doneSize = 0)
    (hofd : s.ofd = []) (hpos : 0 < s.bufSize) : Parsed S s.buf (processIt s) := by
  have hlt : s.bufSize > s.doneSize := by rw [hdone]; exact hpos
  have hR : s.rcvd = s.bufSize.toNat := by simp [SendSt.rcvd, hofd]
  have hheld := hb.held
  rw [hofd, List.length_nil] at hheld
  have hrun := processAsfState_first (S := S) (R := s.bufSize.toNat) (by omega) hheld
  have heq : Recorder.processIt s = { s with
      doneSize := ((parsed S s.rcvd (afterHeader s.buf)).doneOffset : Nat)
      asfDs := parsed S s.rcvd (afterHeader s.buf) } := by
    rw [Int.toNat_of_nonneg (by omega)] at hrun
    rw [Recorder.processIt, if_pos hlt]
    simp only [hdone, hds, Int.toNat_zero, List.drop_zero, Int.sub_zero, hrun, hR, Int.zero_add]
  rw [heq]
  refine ⟨rfl, ?_, by simp only; omega⟩
  simp only [hofd, List.length_nil]; omega

/-! ## Writing -/

def SendSt.sendOut (s : SendSt) (ret : Nat) : SendSt :=
  { s with
    ofd := s.ofd ++ load s.buf 0 ret
    bufSize := s.bufSize - ret
    doneSize := s.doneSize - ret
    asfMaxSize := s.asfMaxSize - ret
    buf := if s.bufSize - ret ≠ 0 then store s.buf 0 (load s.buf ret (s.bufSize - ret).toNat) else s.buf }

theorem drain_eq {S L s} (h : Buffered S L s) (hd : 0 ≤ s.doneSize) (w : Nat) :
    drain s (some w) =
      if min (w + 1) (min s.doneSize s.bufSize).toNat = 0 then none
      else some (s.sendOut (min (w + 1) (min s.doneSize s.bufSize).toNat)) := by
  have h0 := h.size_nonneg
  have h1 := h.size_le
  have hreq : writeRequest s = min s.doneSize s.bufSize := by unfold writeRequest; split <;> omega
  rw [drain, hreq, word32_of_nonneg (by omega) (by omega)]
  rfl

theorem sendOut_rcvd {S L s ret} (h : Buffered S L s) (hret : ret ≤ s.bufSize.toNat) :
    (s.sendOut ret).ofd.length = s.ofd.length + ret ∧ (s.sendOut ret).rcvd = s.rcvd := by
  have hm := h.mem_len
  have h1 := h.size_le
  have hlen : (load s.buf 0 ret).length = ret := length_load (by omega)
  have : (s.sendOut ret).ofd.length = s.ofd.length + ret := by simp [SendSt.sendOut, hlen]
  refine ⟨this, ?_⟩
  simp only [SendSt.rcvd, this]
  simp only [SendSt.sendOut]; omega

theorem Buffered.sendOut {S L s ret} (h : Buffered S L s) (hret : ret ≤ s.bufSize.toNat) :
    Buffered S L (s.sendOut ret) := by
  obtain ⟨hofd, hr⟩ := sendOut_rcvd h hret
  have hm := h.mem_len
  have h0 := h.size_nonneg
  have h1 := h.size_le
  have h2 := h.size_le_limit
  have h3 := h.limit
  have hlen : (load s.buf ret (s.bufSize - ret).toNat).length = (s.bufSize - ret).toNat :=
    length_load (by omega)
  refine
    { mem_len := ?_, size_nonneg := ?_, size_le := ?_, size_le_limit := ?_, limit := ?_, ofd := ?_, ifd := ?_,
      rcvd_le := by rw [hr]; exact h.rcvd_le, held := ?_ }
  · simp only [SendSt.sendOut]
    split
    · rw [length_store (by omega)]; exact hm
    · exact hm
  · simp only [SendSt.sendOut]; omega
  · simp only [SendSt.sendOut]; omega
  · simp only [SendSt.sendOut]; omega
  · rw [hofd]; simp only [SendSt.sendOut]; omega
  · -- what was at the front of the buffer is the stream behind what had been written
    have hfront : load s.buf 0 ret = load S s.ofd.length ret := by
      have := congrArg (List.take ret) h.held
      simp only [load, List.take_take, Nat.min_eq_left hret] at this
      simpa [load] using this
    rw [hofd]
    simp only [SendSt.sendOut]
    rw [hfront, List.take_add, ← h.ofd, load]
  · rw [hr]; exact h.ifd
  · rw [hofd]
    have hmove : load s.buf ret (s.bufSize - ret).toNat =
        load S (s.ofd.length + ret) (s.bufSize - ret).toNat := by
      have := congrArg (List.drop ret) h.held
      simp only [load, List.drop_take, List.drop_drop] at this
      rw [load, load, show (s.bufSize - (ret : Int)).toNat = s.bufSize.toNat - ret by omega]
      exact this
    simp only [SendSt.sendOut]
    split
    · have := take_store_prefix (m := s.buf) (load s.buf ret (s.bufSize - ret).toNat) (Nat.zero_le _)
      rw [hlen, Nat.zero_add] at this
      rw [this, ← hmove]; simp
    · rename_i hz
      rw [show (s.bufSize - (ret : Int)).toNat = 0 by omega]
      simp [load]

theorem Parsed.sendOut {S v L s ret} (hb : Buffered S L s) (hp : Parsed S v s)
    (hret : ret ≤ (min s.doneSize s.bufSize).toNat) : Parsed S v (s.sendOut ret) := by
  have hnn := hp.done_nonneg
  obtain ⟨hofd, hr⟩ := sendOut_rcvd hb (show ret ≤ _ by omega)
  refine ⟨by rw [hr]; exact hp.asfDs, ?_, ?_⟩
  · have := hp.doneSize
    rw [hofd]; simp only [SendSt.sendOut]; omega
  · simp only [SendSt.sendOut]; omega

end CameraFw.Recorder
