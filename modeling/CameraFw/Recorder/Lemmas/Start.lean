import CameraFw.Recorder.Lemmas.Loop

/-!
# The start of a recording

The socket delivers an HTTP header and then the stream. `skip_http_header` either gives up, or leaves
the beginning of the stream at the front of the buffer.
-/

namespace CameraFw.Recorder

open CameraFw.Base

structure HttpHeader (h : List UInt8) : Prop where
  no_nul : 0 ∉ h
  len : 4 ≤ h.length
  ends : strstr crlfcrlf h = some (h.length - 4)

theorem HttpHeader.strstr_cstr {h : List UInt8} (hh : HttpHeader h) (t : List UInt8) :
    strstr crlfcrlf (cstr (h ++ t)) = some (h.length - 4) := by
  rw [cstr_append t hh.no_nul]
  exact strstr_append _ hh.ends

theorem HttpHeader.strstr_cut {h : List UInt8} (hh : HttpHeader h) {m : Nat} (hm : m < h.length)
    (t : List UInt8) :
    strstr crlfcrlf (cstr (h.take m ++ 0 :: t)) = none := by
  have hnul : 0 ∉ h.take m := fun hc => hh.no_nul (List.mem_of_mem_take hc)
  have hz : cstr (h.take m ++ 0 :: t) = h.take m := by
    rw [cstr_append _ hnul]; simp [cstr]
  rw [hz]
  cases hs : strstr crlfcrlf (h.take m) with
  | none => rfl
  | some i =>
      have hb := strstr_bound hs
      have := strstr_append (h.drop m) hs
      rw [List.take_append_drop, hh.ends] at this
      have hlen : (h.take m).length = m := by simp; omega
      have h4 : crlfcrlf.length = 4 := rfl
      cases this
      omega

theorem store_got (mem got : List UInt8) :
    store (store mem 0 got) got.length [0] = got ++ 0 :: mem.drop (got.length + 1) := by
  have h1 : store mem 0 got = got ++ mem.drop got.length := by simp [store]
  have h2 : (store mem 0 got).take got.length = got := by rw [h1, List.take_left]
  have h3 : (store mem 0 got).drop (got.length + 1) = mem.drop (got.length + 1) := by
    rw [h1, List.drop_append, List.drop_of_length_le (by omega), List.drop_drop]
    simp
  rw [store, h2]
  simp only [List.length_singleton, h3, List.append_assoc, List.singleton_append]

theorem sendStart_cut {mem h S : List UInt8} {k : Nat} {L : Int} (hh : HttpHeader h)
    (hcut : min (k + 1) 128 < h.length) : sendStart mem (h ++ S) (some k) L = none := by
  have htake : (h ++ S).take (min (k + 1) 128) = h.take (min (k + 1) 128) :=
    List.take_append_of_le_length (by omega)
  simp only [sendStart, skipHttpHeader, readFd, store_got]
  rw [htake, hh.strstr_cut hcut]

/-- The variables of `send_asf` at the first loop head, when the HTTP header was complete in the first
read. -/
def startSt (mem h S : List UInt8) (k : Nat) (L : Int) : SendSt :=
  { SendSt.start mem (h ++ S) L with
    buf := store (httpBuf mem h S k) 0 (S.take (firstBytesRcvd h S k))
    bufSize := firstBytesRcvd h S k
    ifd := S.drop (firstBytesRcvd h S k) }

section

variable {mem h S : List UInt8} {k : Nat} {L : Int}

theorem got_eq (hfit : h.length ≤ min (k + 1) 128) :
    (h ++ S).take (min (k + 1) 128) = h ++ S.take (firstBytesRcvd h S k) := by
  rw [List.take_append, List.take_of_length_le hfit, firstBytesRcvd, ← List.take_eq_take_min]

theorem rest_eq (hfit : h.length ≤ min (k + 1) 128) :
    (h ++ S).drop (min (k + 1) 128) = S.drop (firstBytesRcvd h S k) := by
  rw [List.drop_append, List.drop_of_length_le hfit, List.nil_append, firstBytesRcvd]
  rcases Nat.le_total (min (k + 1) 128 - h.length) S.length with hc | hc
  · rw [Nat.min_eq_left hc]
  · rw [Nat.min_eq_right hc, List.drop_of_length_le hc, List.drop_length]

theorem httpBuf_eq (hfit : h.length ≤ min (k + 1) 128) :
    httpBuf mem h S k = h ++ (S.take (firstBytesRcvd h S k) ++
      0 :: mem.drop (h.length + firstBytesRcvd h S k + 1)) := by
  have hlen : (S.take (firstBytesRcvd h S k)).length = firstBytesRcvd h S k := by
    simp [firstBytesRcvd]
  rw [httpBuf, got_eq hfit, List.append_assoc, List.length_append, hlen]

theorem httpBuf_len (hm : mem.length = 2049) : (httpBuf mem h S k).length = 2049 := by
  have := List.length_take_le (min (k + 1) 128) (h ++ S)
  simp only [httpBuf, List.length_append, List.length_cons, List.length_drop, hm]
  omega

theorem sendStart_eq (hh : HttpHeader h) (hfit : h.length ≤ min (k + 1) 128) :
    sendStart mem (h ++ S) (some k) L = some (startSt mem h S k L) := by
  have hlen : (S.take (firstBytesRcvd h S k)).length = firstBytesRcvd h S k := by
    simp [firstBytesRcvd]
  have hbuf : httpBuf mem h S k = _ := httpBuf_eq hfit
  have hstr : strstr crlfcrlf (cstr (httpBuf mem h S k)) = some (h.length - 4) := by
    rw [hbuf]; exact hh.strstr_cstr _
  have hp : h.length - 4 + crlfcrlf.length = h.length := by
    have := hh.len
    have h4 : crlfcrlf.length = 4 := rfl
    omega
  have hsize : ((h ++ S.take (firstBytesRcvd h S k)).length :
      Int) - ((h.length - 4 + crlfcrlf.length : Nat) : Int) = (firstBytesRcvd h S k : Int) := by
    rw [List.length_append, hlen, hp]; omega
  have hmove : load (httpBuf mem h S k) h.length (firstBytesRcvd h S k) = S.take (firstBytesRcvd h S k) := by
    have := load_append_mid (a := h) (b := S.take (firstBytesRcvd h S k))
      (c := 0 :: mem.drop (h.length + firstBytesRcvd h S k + 1))
    rwa [hlen, ← hbuf] at this
  have hgot : (h ++ S.take (firstBytesRcvd h S k)) ++
      0 :: mem.drop ((h ++ S.take (firstBytesRcvd h S k)).length + 1) = httpBuf mem h S k := by
    rw [httpBuf, got_eq hfit]
  simp only [sendStart, skipHttpHeader, readFd, store_got, got_eq hfit, rest_eq hfit, hgot, hstr, hsize]
  rw [hp, Int.toNat_natCast, hmove, if_neg (by omega)]
  rfl

theorem startSt_rcvd : (startSt mem h S k L).rcvd = firstBytesRcvd h S k := by
  simp [SendSt.rcvd, startSt, SendSt.start]

theorem startSt_fresh : Fresh (startSt mem h S k L) := by
  refine ⟨rfl, rfl, rfl, ?_⟩
  simp only [startSt, firstBytesRcvd]
  omega

theorem startSt_buffered (hm : mem.length = 2049) (hL : 1024 ≤ L) : Buffered S L (startSt mem h S k L) := by
  have hj : firstBytesRcvd h S k ≤ 128 := by unfold firstBytesRcvd; omega
  have hlen : (S.take (firstBytesRcvd h S k)).length = firstBytesRcvd h S k := by
    simp [firstBytesRcvd]
  have hb := httpBuf_len (h := h) (S := S) (k := k) hm
  refine
    { mem_len := ?_, size_nonneg := ?_, size_le := ?_, size_le_limit := ?_, limit := ?_, ofd := rfl,
      ifd := ?_, rcvd_le := ?_, held := ?_ }
  · simp only [startSt]
    rw [length_store (by rw [hlen]; omega)]; exact hb
  · simp only [startSt]; omega
  · simp only [startSt]; omega
  · simp only [startSt, SendSt.start]; omega
  · simp [startSt, SendSt.start]
  · rw [startSt_rcvd]; rfl
  · rw [startSt_rcvd]; unfold firstBytesRcvd; omega
  · have hfront := take_store_prefix (m := httpBuf mem h S k) (S.take (firstBytesRcvd h S k)) (Nat.zero_le _)
    rw [hlen, Nat.zero_add] at hfront
    simp only [startSt, Int.toNat_natCast, hfront, SendSt.start]
    simp [load]

theorem startSt_view {rd s₁} (hm : mem.length = 2049) (hL : 1024 ≤ L)
    (hf : fill (startSt mem h S k L) rd = some s₁) : s₁.buf = headerView mem h S (some k) L rd := by
  have hb := startSt_buffered (h := h) (S := S) (k := k) hm hL
  cases rd with
  | none => simp [fill, readFd] at hf
  | some r =>
      rw [hb.fill_eq] at hf
      split at hf
      · cases hf
      · cases hf
        have hlen : (S.take (firstBytesRcvd h S k)).length = firstBytesRcvd h S k := by
          simp [firstBytesRcvd]
        obtain ⟨got, hgot⟩ : ∃ got, got = min (min (r + 1) ((startSt mem h S k L).flow.room L.toNat))
            (S.length - (startSt mem h S k L).rcvd) := ⟨_, rfl⟩
        have hR : headerView mem h S (some k) L (some r) =
            S.take (firstBytesRcvd h S k + got) ++ (httpBuf mem h S k).drop (firstBytesRcvd h S k + got) := by
          have hfl : (startSt mem h S k L).flow = ⟨firstBytesRcvd h S k, 0⟩ := by
            rw [SendSt.flow, startSt_rcvd]; rfl
          rw [hfl, startSt_rcvd] at hgot
          simp only [headerView, Option.getD_some, Flow.receive, ← hgot]
        rw [← hgot, hR, processIt_buf]
        have hgl : (load S (firstBytesRcvd h S k) got).length = got := by
          rw [startSt_rcvd] at hgot
          exact length_load (by unfold firstBytesRcvd at *; omega)
        have hstart : (startSt mem h S k L).buf =
            S.take (firstBytesRcvd h S k) ++ (httpBuf mem h S k).drop (firstBytesRcvd h S k) := by
          simp only [startSt, store, List.take_zero, List.nil_append, hlen, Nat.zero_add]
        have hsz : (startSt mem h S k L).bufSize.toNat = firstBytesRcvd h S k := rfl
        simp only [SendSt.receive, startSt_rcvd, hsz, store, hstart, hgl]
        rw [List.take_left' hlen, List.drop_append, hlen, List.drop_of_length_le (by omega), List.nil_append,
          List.drop_drop, load, ← List.take_add]
        congr 2; omega

end

theorem sendStart_none_or (mem S : List UInt8) {h : List UInt8} (hdr : Option Nat) (L : Int)
    (hh : HttpHeader h) :
    (sendStart mem (h ++ S) hdr L = none ∧ ∀ k, hdr = some k → min (k + 1) 128 < h.length) ∨
      ∃ k, hdr = some k ∧ h.length ≤ min (k + 1) 128 ∧
        sendStart mem (h ++ S) hdr L = some (startSt mem h S k L) := by
  cases hdr with
  | none => exact Or.inl ⟨rfl, nofun⟩
  | some k =>
      by_cases hcut : min (k + 1) 128 < h.length
      · refine Or.inl ⟨sendStart_cut hh hcut, ?_⟩
        rintro k' ⟨⟩; exact hcut
      · exact Or.inr ⟨k, rfl, by omega, sendStart_eq hh (by omega)⟩

end CameraFw.Recorder
