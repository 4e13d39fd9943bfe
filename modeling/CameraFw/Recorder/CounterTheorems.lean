import CameraFw.Recorder.Lemmas.Run
import CameraFw.Recorder.Lemmas.Start

/-!
# The counters of `send_asf`

`buf_size`, `done_size` and `asf_max_size` are reduced by the same short write. Whatever the socket
delivers and however the writes go, what is in the buffer fits into it and into what is left of the
limit.
-/

namespace CameraFw.Recorder

open CameraFw.Base

variable {L : Int} {s s₁ s₂ : SendSt}

/-- The counters at a loop head, when `L` bytes were to be recorded. -/
structure Counters (L : Int) (s : SendSt) : Prop where
  mem_len : s.buf.length = smbcBufSize + 1
  done_nonneg : 0 ≤ s.doneSize
  size_nonneg : 0 ≤ s.bufSize
  size_le : s.bufSize ≤ smbcBufSize
  size_le_limit : s.bufSize ≤ s.asfMaxSize
  limit : s.asfMaxSize = L - s.ofd.length

theorem bufSize_eq : smbcBufSize = 2048 := rfl

/-! ## Reading -/

theorem Counters.readRequest (h : Counters L s) :
    0 ≤ readRequest s ∧ s.bufSize + readRequest s ≤ smbcBufSize ∧
    s.bufSize + readRequest s ≤ s.asfMaxSize := by
  have hle := h.size_le
  have hlimit := h.size_le_limit
  unfold Recorder.readRequest
  split <;> omega

theorem processIt_done (h : 0 ≤ s.doneSize) : 0 ≤ (processIt s).doneSize := by
  unfold processIt
  split
  · dsimp only
    omega
  · exact h

theorem Counters.processIt (h : Counters L s) : Counters L (processIt s) where
  mem_len := by simpa using h.mem_len
  done_nonneg := processIt_done h.done_nonneg
  size_nonneg := by simpa using h.size_nonneg
  size_le := by simpa using h.size_le
  size_le_limit := by simpa using h.size_le_limit
  limit := by simpa using h.limit

theorem Counters.fill {rd : Option Nat} (h : Counters L s) (hf : fill s rd = some s₁) : Counters L s₁ := by
  obtain ⟨hnonneg, hfits, hlimit⟩ := h.readRequest
  have hmem := h.mem_len
  have hsize := h.size_nonneg
  have hreq : word32 (Recorder.readRequest s) = (Recorder.readRequest s).toNat :=
    word32_of_nonneg hnonneg (by rw [bufSize_eq] at hfits; omega)
  unfold Recorder.fill at hf
  cases rd with
  | none => cases hf
  | some k =>
      simp only [readFd] at hf
      split at hf
      · cases hf
      · cases hf
        have hlen : (s.ifd.take (min (k + 1) (word32 (Recorder.readRequest s)))).length ≤
            (Recorder.readRequest s).toNat := by
          rw [List.length_take, hreq]
          omega
        refine Counters.processIt ⟨?_, h.done_nonneg, ?_, ?_, ?_, h.limit⟩
        · exact (length_store (by omega)).trans hmem
        · show 0 ≤ s.bufSize + _
          omega
        · show s.bufSize + _ ≤ _
          omega
        · show s.bufSize + _ ≤ s.asfMaxSize
          omega

/-! ## Writing -/

theorem Counters.drain {wr : Option Nat} (h : Counters L s) (hd : drain s wr = some s₂) : Counters L s₂ := by
  have hmem := h.mem_len
  have hdone := h.done_nonneg
  have hsize := h.size_nonneg
  have hle := h.size_le
  have hlimit := h.size_le_limit
  have heq := h.limit
  rw [bufSize_eq] at hmem hle
  have hreq : word32 (writeRequest s) = (writeRequest s).toNat ∧ writeRequest s ≤ s.bufSize ∧
      writeRequest s ≤ s.doneSize ∧ 0 ≤ writeRequest s := by
    unfold writeRequest
    split
    · exact ⟨word32_of_nonneg (by omega) (by omega), by omega, by omega, by omega⟩
    · exact ⟨word32_of_nonneg (by omega) (by omega), by omega, by omega, by omega⟩
  unfold Recorder.drain at hd
  cases wr with
  | none => cases hd
  | some k =>
      simp only [smbcWrite, hreq.1] at hd
      split at hd
      · cases hd
      · cases hd
        generalize hret : min (k + 1) (writeRequest s).toNat = ret
        have hretle : (ret : Int) ≤ writeRequest s := by omega
        refine ⟨?_, ?_, ?_, ?_, ?_, ?_⟩
        · dsimp only
          split
          · rw [length_store (by rw [length_load (by omega)]; omega), hmem]
            rfl
          · exact hmem
        all_goals dsimp only
        · omega
        · omega
        · rw [bufSize_eq]
          omega
        · omega
        · rw [List.length_append, length_load (by omega)]
          omega

/-! ## The start -/

theorem length_cstr_le (got t : List UInt8) : (cstr (got ++ 0 :: t)).length ≤ got.length := by
  by_cases h : 0 ∈ got
  · rw [cstr_append_of_mem _ h]
    exact (List.takeWhile_prefix _).length_le
  · rw [cstr_append _ h, cstr_cons, if_pos rfl, List.append_nil]

/-- Behind the HTTP header there is at most the rest of the 128 bytes. -/
theorem sendStart_counters {mem ifd : List UInt8} {hdr : Option Nat}
    (hm : mem.length = smbcBufSize + 1) (hL : 1024 ≤ L) (h : sendStart mem ifd hdr L = some s) :
    Counters L s := by
  unfold sendStart skipHttpHeader at h
  cases hdr with
  | none => cases h
  | some k =>
      simp only [readFd, store_got] at h
      have hgot : (ifd.take (min (k + 1) 128)).length ≤ 128 := by
        rw [List.length_take]
        omega
      generalize ifd.take (min (k + 1) 128) = got at h hgot
      have hle := length_cstr_le got (mem.drop (got.length + 1))
      have hlen : (got ++ 0 :: mem.drop (got.length + 1)).length = smbcBufSize + 1 := by
        simp only [List.length_append, List.length_cons, List.length_drop, hm, bufSize_eq]
        omega
      cases hstr : strstr crlfcrlf (cstr (got ++ 0 :: mem.drop (got.length + 1))) with
      | none => simp [hstr] at h
      | some i =>
          have hbound := strstr_bound hstr
          simp only [hstr, if_neg (show ¬((got.length : Int) - (i + crlfcrlf.length : Nat) = -1) by omega),
            Option.some.injEq] at h
          subst h
          rw [bufSize_eq] at hlen
          refine ⟨?_, Int.le_refl 0, ?_, ?_, ?_, ?_⟩
          all_goals dsimp only [SendSt.start]
          · rw [length_store (by rw [length_load (by omega)]; omega), hlen]
            rfl
          · omega
          · rw [bufSize_eq]
            omega
          · omega
          · simp

/-! ## The loop -/

theorem Counters.pass {t : Turn} (h : Counters L s) (hp : sendPass t s = .again s₂) : Counters L s₂ := by
  obtain ⟨_, s₁, hf, hd⟩ := sendPass_again.mp hp
  exact (h.fill hf).drain hd

theorem Counters.head {env : Nat → Turn} {n : Nat} (h : Counters L s) (hh : head sendPass env s n = some s₁) :
    Counters L s₁ :=
  head_inv (fun _ => Counters L) h (fun _ _ _ ht hp => ht.pass hp) n s₁ hh

theorem Counters.written_le (h : Counters L s) : (s.ofd.length : Int) ≤ L := by
  have := h.limit
  have := h.size_nonneg
  have := h.size_le_limit
  omega

theorem Counters.exit {t : Turn} {e : SendExit} (h : Counters L s) (hp : sendPass t s = .leave e) :
    Counters L e.st := by
  rcases sendPass_leave.mp hp with ⟨_, rfl⟩ | ⟨_, _, rfl⟩ | ⟨_, s₁, hf, _, rfl⟩
  · exact h
  · exact h
  · exact h.fill hf

/-- With a limit from 1024 on, whatever the socket delivers: at every loop head the counters are in
their ranges and the next read fits behind what is in the buffer; when `send_asf` returns, no more than
the limit has been written. -/
theorem sendAsf_counters (mem ifd : List UInt8) (hdr : Option Nat) (env : Nat → Turn) (L : Int)
    (hm : mem.length = smbcBufSize + 1) (hL : 1024 ≤ L) :
    (∀ s₀ n s, sendStart mem ifd hdr L = some s₀ → head sendPass env s₀ n = some s →
      0 ≤ s.doneSize ∧ 0 ≤ s.bufSize ∧ s.bufSize ≤ min (smbcBufSize : Int) s.asfMaxSize ∧
        0 ≤ readRequest s ∧ s.bufSize + readRequest s ≤ smbcBufSize ∧
        s.asfMaxSize = L - s.ofd.length ∧ (s.ofd.length : Int) ≤ L) ∧
      ∃ e, sendAsf mem ifd hdr env L = some e ∧ (e.st.ofd.length : Int) ≤ L := by
  refine ⟨fun s₀ n s hs hn => ?_, ?_⟩
  · have hc := (sendStart_counters hm hL hs).head hn
    obtain ⟨hnonneg, hfits, _⟩ := hc.readRequest
    exact ⟨hc.done_nonneg, hc.size_nonneg, le_min hc.size_le hc.size_le_limit, hnonneg, hfits, hc.limit,
      hc.written_le⟩
  · obtain ⟨e, he⟩ := Option.isSome_iff_exists.mp (sendAsf_isSome mem ifd hdr env L)
    refine ⟨e, he, ?_⟩
    unfold sendAsf at he
    cases hs : sendStart mem ifd hdr L with
    | none =>
        rw [hs] at he
        cases he
        simp only [SendSt.start, List.length_nil]
        omega
    | some s₀ =>
        rw [hs] at he
        obtain ⟨n, u, _, hu, hleave⟩ := whileLoop_eq_some.mp he
        exact ((sendStart_counters hm hL hs).head hu |>.exit hleave).written_le

/-- Every write is shorter than what has been read. -/
def shortWrites (_ : Nat) : Turn := ⟨false, some 39, some 19⟩

/-- In five rounds 200 bytes are read behind the header and 100 written. -/
theorem sendAsf_counters_short :
    (∃ s₀ s, sendStart (List.replicate (smbcBufSize + 1) 0) (crlfcrlf ++ List.replicate 300 7)
      (some 99) 1024 = some s₀ ∧
      head sendPass shortWrites s₀ 5 = some s ∧ s.bufSize = 196 ∧ s.ofd.length = 100 ∧
      0 ≤ s.doneSize ∧ 0 ≤ readRequest s ∧ s.bufSize + readRequest s ≤ smbcBufSize ∧
        s.asfMaxSize = 1024 - s.ofd.length) ∧
    ∃ e, sendAsf (List.replicate (smbcBufSize + 1) 0) (crlfcrlf ++ List.replicate 300 7)
      (some 99) shortWrites 1024 = some e ∧ (e.st.ofd.length : Int) ≤ 1024 := by
  obtain ⟨hheads, hexit⟩ := sendAsf_counters (List.replicate (smbcBufSize + 1) 0)
    (crlfcrlf ++ List.replicate 300 7) (some 99) shortWrites 1024 List.length_replicate (le_refl _)
  have hrun : ((sendStart (List.replicate (smbcBufSize + 1) 0) (crlfcrlf ++ List.replicate 300 7)
      (some 99) 1024).bind
      fun s₀ => (head sendPass shortWrites s₀ 5).map fun s => (s.bufSize, s.ofd.length)) =
        some (196, 100) := by
    decide +kernel
  obtain ⟨s₀, hs₀, hs⟩ := Option.bind_eq_some_iff.mp hrun
  obtain ⟨s, hs, heq⟩ := Option.map_eq_some_iff.mp hs
  obtain ⟨hsize, hofd⟩ := Prod.mk.inj heq
  obtain ⟨hdone, -, -, hreq, hfits, hlimit, -⟩ := hheads s₀ 5 s hs₀ hs
  exact ⟨⟨s₀, s, hs₀, hs, hsize, hofd, hdone, hreq, hfits, hlimit⟩, hexit⟩

end CameraFw.Recorder
