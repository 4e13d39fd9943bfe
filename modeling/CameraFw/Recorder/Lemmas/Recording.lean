import CameraFw.Recorder.Lemmas.Flow
import CameraFw.Recorder.Lemmas.Frames
import CameraFw.Recorder.Lemmas.Seekable

/-!
# From the socket to the finalised header

The results about the loop, stated for `send_asf` as a whole: the points at which it parses, the state
it ends in and the header it then writes back.
-/

namespace CameraFw.Recorder

open CameraFw.Base

/-- The variables of `send_asf` when round `n` has processed what it has read, if the recording gets
that far. -/
def parsePoint (mem ifd : List UInt8) (hdr : Option Nat) (env : Nat → Turn) (L : Int) (n : Nat) :
    Option SendSt :=
  match sendStart mem ifd hdr L with
  | none => none
  | some s₀ =>
      match head sendPass env s₀ n with
      | none => none
      | some s => if s.asfMaxSize > 0 ∧ (env n).stop = false then fill s (env n).rd else none

/-- Nothing has been parsed yet; of the stream there is at most what came with the HTTP header. -/
structure Idle (s : SendSt) : Prop where
  asfDs : s.asfDs = .zero
  ofd : s.ofd = []
  rcvd_le : s.rcvd ≤ 128

theorem start_idle (mem ifd : List UInt8) (L : Int) : Idle (SendSt.start mem ifd L) :=
  ⟨rfl, rfl, Nat.zero_le _⟩

theorem sendStart_idle {mem ifd hdr L s} (h : sendStart mem ifd hdr L = some s) :
    Idle s ∧ s.asfMaxSize = L := by
  unfold sendStart skipHttpHeader at h
  cases hdr with
  | none => simp [readFd] at h
  | some k =>
      simp only [readFd] at h
      split at h
      · cases h
      · rename_i buf size rest hs
        split at hs
        · cases hs
        · cases hs
          split at h
          · cases h
          · cases h
            refine ⟨⟨rfl, rfl, ?_⟩, rfl⟩
            have := List.length_take_le (min (k + 1) 128) ifd
            simp only [SendSt.rcvd, SendSt.start, List.length_nil]
            omega

theorem Idle.headerCount {s : SendSt} (h : Idle s) (S v : List UInt8) :
    headerCount S s.rcvd (afterHeader v) = 0 := by
  refine headerCount_short ?_
  have hR := h.rcvd_le
  have hoff : 377 ≤ (afterHeader v).doneOffset := by
    show 377 ≤ 0 + (hohSizeOf v + 50)
    unfold hohSizeOf
    split <;> decide
  omega

theorem Idle.seekable_fileLen {s : SendSt} (h : Idle s) : le32 (seekableHeader s.asfDs) fpFileLen = 0 := by
  rw [h.asfDs]
  exact header_zero_fileLen.1

theorem Idle.written_fileLen {s : SendSt} (h : Idle s) : le32 (writtenHeader s.asfDs) fpFileLen = 0 := by
  rw [h.asfDs]
  exact header_zero_fileLen.2

section

variable {mem h S : List UInt8} {hdr : Option Nat} {env : Nat → Turn} {z : Int}

theorem sendAsf_cases {L : Int} {e} (hh : HttpHeader h) (he : sendAsf mem (h ++ S) hdr env L = some e) :
    (e = ⟨-1, SendSt.start mem (h ++ S) L⟩ ∧ ∀ k, hdr = some k → min (k + 1) 128 < h.length) ∨
      ∃ k, hdr = some k ∧ h.length ≤ min (k + 1) 128 ∧
        whileLoop sendPass env (L.toNat + 1) 0 (startSt mem h S k L) = some e := by
  unfold sendAsf at he
  rcases sendStart_none_or mem S hdr L hh with ⟨hn, hcut⟩ | ⟨k, rfl, hfit, hs⟩
  · rw [hn] at he; cases he; exact Or.inl ⟨rfl, hcut⟩
  · rw [hs] at he; exact Or.inr ⟨k, rfl, hfit, he⟩

theorem sendLoop_of_nonpos {s₀ : SendSt} {fuel e} (h0 : s₀.asfMaxSize ≤ 0)
    (he : whileLoop sendPass env (fuel + 1) 0 s₀ = some e) : e = ⟨0, s₀⟩ := by
  have hno : ¬ (s₀.asfMaxSize > 0 ∧ (env 0).stop = false) := by omega
  simp only [whileLoop, sendPass, if_neg hno] at he
  cases he; rfl

/-- How `send_asf` ends: with a parser that has not been called, or with one that has parsed what was
received. -/
theorem sendAsf_exit {e} (hm : mem.length = 2049) (hh : HttpHeader h)
    (he : sendAsf mem (h ++ S) hdr env (1024 * z) = some e) :
    Idle e.st ∨
      (Buffered S (1024 * z) e.st ∧ (headerView mem h S hdr (1024 * z) (env 0).rd).length = 2049 ∧
        Parsed S (headerView mem h S hdr (1024 * z) (env 0).rd) e.st) := by
  rcases sendAsf_cases hh he with ⟨rfl, -⟩ | ⟨k, rfl, hfit, hloop⟩
  · exact Or.inl (start_idle _ _ _)
  · have hidle := (sendStart_idle (show sendStart mem (h ++ S) (some k) (1024 * z) =
      _ from sendStart_eq hh hfit)).1
    by_cases hz : 1024 ≤ 1024 * z
    · obtain ⟨hb', hst | hp⟩ := exit_inv (startSt_buffered hm hz) startSt_fresh
        (fun s₁ hf => startSt_view hm hz hf) hloop
      · exact Or.inl (hst ▸ hidle)
      · exact Or.inr ⟨hb', hp⟩
    · cases sendLoop_of_nonpos (show 1024 * z ≤ 0 by omega) hloop
      exact Or.inl hidle

theorem sendAsf_endTotals {e} (hm : mem.length = 2049) (hh : HttpHeader h)
    (he : sendAsf mem (h ++ S) hdr env (1024 * z) = some e) :
    e.st.flow = endTotals mem h S hdr env (1024 * z) := by
  rcases sendAsf_cases hh he with ⟨rfl, hcut⟩ | ⟨k, rfl, hfit, hloop⟩
  · cases hdr with
    | none => rfl
    | some k =>
        have hno : ¬ h.length ≤ min (k + 1) 128 := Nat.not_le.mpr (hcut k rfl)
        simp only [endTotals, if_neg hno]
        rfl
  · have hfl : (startSt mem h S k (1024 * z)).flow = ⟨firstBytesRcvd h S k, 0⟩ := by
      rw [SendSt.flow, startSt_rcvd]; rfl
    simp only [endTotals, if_pos hfit]
    by_cases hz : 1024 ≤ 1024 * z
    · have hsim := sendLoop_flow (startSt_buffered (h := h) (S := S) (k := k) hm hz) startSt_fresh
        (fun s₁ (hf : fill _ (env 0).rd = some s₁) => startSt_view hm hz hf) ((1024 * z).toNat + 1)
      rw [hloop, hfl] at hsim
      rw [hsim]; rfl
    · have hz0 : (1024 * z).toNat = 0 := by omega
      cases sendLoop_of_nonpos (show 1024 * z ≤ 0 by omega) hloop
      rw [hfl, hz0]
      rfl

theorem parsePoint_cases {n s} (hh : HttpHeader h)
    (hp : parsePoint mem (h ++ S) hdr env (1024 * z) n = some s) :
    ∃ k t, hdr = some k ∧ 1024 ≤ 1024 * z ∧ head sendPass env (startSt mem h S k (1024 * z)) n = some t ∧
      fill t (env n).rd = some s := by
  unfold parsePoint at hp
  rcases sendStart_none_or mem S hdr (1024 * z) hh with ⟨hn, -⟩ | ⟨k, rfl, hfit, hs⟩
  · rw [hn] at hp; cases hp
  · rw [hs] at hp
    simp only at hp
    split at hp
    · cases hp
    · rename_i t hhead
      split at hp
      · rename_i hg
        -- the limit is at its start what it was set to and never grows
        have hmax : t.asfMaxSize ≤ 1024 * z := by
          refine head_inv (fun _ t => t.asfMaxSize ≤ 1024 * z) (le_refl _) ?_ n t hhead
          intro m t u ht hpass
          obtain ⟨_, t₁, hf, hd⟩ := sendPass_again.mp hpass
          have h1 := fill_asfMaxSize hf
          have h2 := drain_asfMaxSize hd
          omega
        exact ⟨k, t, rfl, by omega, hhead, hp⟩
      · cases hp

theorem parsePoint_parsed {n s} (hm : mem.length = 2049) (hh : HttpHeader h)
    (hp : parsePoint mem (h ++ S) hdr env (1024 * z) n = some s) :
    (headerView mem h S hdr (1024 * z) (env 0).rd).length = 2049 ∧
      Parsed S (headerView mem h S hdr (1024 * z) (env 0).rd) s := by
  obtain ⟨k, t, rfl, hz, hhead, hf⟩ := parsePoint_cases hh hp
  have hv := fun s₁ (hf : fill (startSt mem h S k (1024 * z)) (env 0).rd = some s₁) => startSt_view hm hz hf
  exact ((headInv (startSt_buffered hm hz) startSt_fresh hv n t hhead).fill startSt_fresh hv hf).2

/-! ## The rounds of a recording -/

/-- Round `n` is the first at whose head a stop is seen or the limit has been reached. -/
def EndsAt (env : Nat → Turn) (L : Int) (F : Nat → Flow) (n : Nat) : Prop :=
  (∀ m < n, (env m).stop = false ∧ (F m).sent < L.toNat) ∧ ((env n).stop = true ∨ L.toNat ≤ (F n).sent)

theorem totals_succ {L : Int} {m w : Nat} (hw : (env m).wr = some w) :
    totals mem h S hdr env L (m + 1) =
      ((totals mem h S hdr env L m).receive S.length L.toNat ((env m).rd.getD 0)).send
        (reachOf S (headerView mem h S hdr L (env 0).rd)) w := by
  simp only [totals, flow, hw, Option.getD_some]

theorem head_totals {k : Nat} (hm : mem.length = 2049) (hz : 1024 ≤ 1024 * z) (n : Nat) :
    ∀ s, head sendPass env (startSt mem h S k (1024 * z)) n = some s →
      s.flow = totals mem h S (some k) env (1024 * z) n ∧
      ∀ m < n, (env m).stop = false ∧ (totals mem h S (some k) env (1024 * z) m).sent < (1024 * z).toNat := by
  have hv := fun s₁ (hf : fill (startSt mem h S k (1024 * z)) (env 0).rd = some s₁) => startSt_view hm hz hf
  induction n with
  | zero =>
      rintro s ⟨⟩
      exact ⟨by rw [SendSt.flow, startSt_rcvd]; rfl, fun m hm => absurd hm (by omega)⟩
  | succ n ih =>
      intro s hs
      obtain ⟨t, ht, hpass⟩ := head_succ.mp hs
      obtain ⟨hfl, hbefore⟩ := ih t ht
      have hi := headInv (startSt_buffered hm hz) startSt_fresh hv n t ht
      obtain ⟨⟨hlt, hstop⟩, r, w, hrd, hwr, hg, -⟩ :=
        flowPass_again (sendPass_flow_again startSt_fresh hv hi hpass)
      rw [hfl] at hlt hg
      refine ⟨?_, fun m hm => ?_⟩
      · rw [hg, totals_succ hwr, hrd, Option.getD_some]
      · rcases Nat.lt_or_eq_of_le (Nat.le_of_lt_succ hm) with h' | rfl
        · exact hbefore m h'
        · exact ⟨hstop, hlt⟩

/-- A recording that is not given up ends at the loop head that `EndsAt` says: the first one, or one
behind a round in which something was written. -/
theorem sendAsf_zero {st} (hm : mem.length = 2049) (hh : HttpHeader h)
    (he : sendAsf mem (h ++ S) hdr env (1024 * z) = some ⟨0, st⟩) :
    ∃ n, EndsAt env (1024 * z) (totals mem h S hdr env (1024 * z)) n ∧
      st.flow = totals mem h S hdr env (1024 * z) n ∧ (n = 0 → Idle st) ∧
      ∀ m, n = m + 1 → ∃ w, (env m).wr = some w ∧
        (totals mem h S hdr env (1024 * z) m).sent < (totals mem h S hdr env (1024 * z) n).sent ∧
        (totals mem h S hdr env (1024 * z) n).rcvd ≤ (totals mem h S hdr env (1024 * z) m).sent + 2048 := by
  rcases sendAsf_cases hh he with ⟨hc, -⟩ | ⟨k, rfl, hfit, hloop⟩
  · cases hc
  · have hidle := (sendStart_idle (show sendStart mem (h ++ S) (some k) (1024 * z) =
      _ from sendStart_eq hh hfit)).1
    by_cases hz : 1024 ≤ 1024 * z
    · obtain ⟨n, s, -, hhead, hl⟩ := whileLoop_eq_some.mp hloop
      obtain ⟨hfl, hbefore⟩ := head_totals hm hz n s hhead
      have hv := fun s₁ (hf : fill (startSt mem h S k (1024 * z)) (env 0).rd = some s₁) =>
        startSt_view hm hz hf
      have hi := headInv (startSt_buffered hm hz) startSt_fresh hv n s hhead
      rcases sendPass_leave.mp hl with ⟨hg, hc⟩ | ⟨-, -, hc⟩ | ⟨-, s₁, -, -, hc⟩ <;> cases hc
      refine ⟨n, ⟨hbefore, ?_⟩, hfl, fun hn => hi.2.2.1 hn ▸ hidle, ?_⟩
      · have hlim := hi.1.limit
        have hsent : (totals mem h S (some k) env (1024 * z) n).sent = st.ofd.length := by rw [← hfl]; rfl
        rw [hsent]
        cases hstop : (env n).stop with
        | true => exact Or.inl rfl
        | false =>
            have hno : ¬ st.asfMaxSize > 0 := fun h => hg ⟨h, hstop⟩
            exact Or.inr (by omega)
      · rintro m rfl
        obtain ⟨t, ht, hpass⟩ := head_succ.mp hhead
        have hi' := headInv (startSt_buffered hm hz) startSt_fresh hv m t ht
        obtain ⟨-, r, w, -, hwr, hg, hne⟩ := flowPass_again (sendPass_flow_again startSt_fresh hv hi' hpass)
        have hroom := hi'.1.room_le
        have hsz := hi'.1.size_nonneg
        have hrcvd : t.flow.rcvd = t.flow.sent + t.bufSize.toNat := rfl
        rw [← (head_totals hm hz m t ht).1, ← hfl]
        rw [hg] at hne ⊢
        refine ⟨w, hwr, Nat.lt_of_le_of_ne (Nat.le_add_right _ _) hne, ?_⟩
        simp only [Flow.receive, Flow.send]
        omega
    · cases sendLoop_of_nonpos (show 1024 * z ≤ 0 by omega) hloop
      refine ⟨0, ⟨fun m hm => absurd hm (by omega), Or.inr (by omega)⟩, ?_, fun _ => hidle,
        fun m hm => absurd hm (by omega)⟩
      rw [SendSt.flow, startSt_rcvd]; rfl

end

theorem lastPacketStart_le_reach (S : List UInt8) (R : Nat) (v : List UInt8) :
    lastPacketStart S R (afterHeader v) ≤ reachOf S v R := by
  unfold lastPacketStart reachOf reach
  cases headerCount S R (afterHeader v) with
  | zero => exact Nat.zero_le _
  | succ k => exact (packetStart_lt S (afterHeader_atPacket v) k).le

/-- A round that writes something reaches the start of the last packet whose header was received exactly
when the server was ready for that many bytes. -/
theorem send_reaches_iff {S v : List UInt8} {avail limit r w : Nat} {f g : Flow}
    (hg : g = (f.receive avail limit r).send (reachOf S v) w) (hmore : f.sent < g.sent) :
    lastPacketStart S g.rcvd (afterHeader v) ≤ g.sent ↔
      lastPacketStart S g.rcvd (afterHeader v) ≤ f.sent + (w + 1) := by
  have h1 := lastPacketStart_le_reach S g.rcvd v
  have h2 := lastPacketStart_le (S := S) (R := g.rcvd) (afterHeader_atPacket v)
  have hsent : g.sent = f.sent + min (w + 1) (min (reachOf S v g.rcvd) g.rcvd - f.sent) := by rw [hg]; rfl
  omega

/-! ## The header of a finished recording -/

theorem hohSizeOf_bounds (v : List UInt8) : 327 ≤ hohSizeOf v ∧ hohSizeOf v ≤ 431 := by
  unfold hohSizeOf
  split <;> decide

theorem afterHeader_headerBuf (v : List UInt8) (hv : v.length = 2049) :
    (afterHeader v).headerBuf.length = 482 ∧ objectNum (afterHeader v).headerBuf = objectNum v := by
  obtain ⟨hge, hle⟩ := hohSizeOf_bounds v
  have hzero : SmbcAsfDs.zero.headerBuf.length = 482 := by simp [SmbcAsfDs.zero]; rfl
  have hcopy : (load v 0 (hohSizeOf v + dataObjectHeaderSize)).length = hohSizeOf v + 50 :=
    length_load (by rw [hv]; show 0 + (hohSizeOf v + 50) ≤ 2049; omega)
  have hbuf : (afterHeader v).headerBuf =
      store SmbcAsfDs.zero.headerBuf 0 (load v 0 (hohSizeOf v + dataObjectHeaderSize)) := rfl
  refine ⟨by rw [hbuf, length_store (by omega), hzero], ?_⟩
  have hfront := take_store_prefix (m := SmbcAsfDs.zero.headerBuf)
    (load v 0 (hohSizeOf v + dataObjectHeaderSize)) (Nat.zero_le _)
  rw [hcopy, Nat.zero_add, List.take_zero, List.nil_append] at hfront
  rw [objectNum, objectNum, le32, le32, hbuf]
  refine congrArg le (load_congr (k := hohSizeOf v + 50) ?_ (by omega))
  rw [hfront, load, List.drop_zero]; rfl

theorem headerCount_le (S : List UInt8) (R : Nat) (v : List UInt8) : headerCount S R (afterHeader v) ≤ R := by
  have hp := afterHeader_atPacket v
  have hgrow : ∀ j, j ≤ packetStart S (afterHeader v) j := by
    intro j
    induction j with
    | zero => exact Nat.zero_le _
    | succ j ih => exact Nat.lt_of_le_of_lt ih (packetStart_lt S hp j)
  cases hc : headerCount S R (afterHeader v) with
  | zero => exact Nat.zero_le _
  | succ k =>
      have h1 := packetStart_of_lt_headerCount (S := S) (R := R) hp k (by omega)
      have h2 := hgrow k
      omega

theorem Parsed.layout {S v : List UInt8} {s : SendSt} (h : Parsed S v s) (hv : v.length = 2049) :
    Layout s.asfDs := by
  obtain ⟨hge, hle⟩ := hohSizeOf_bounds v
  obtain ⟨-, hhoh, hbuf⟩ := iterate_kept S (afterHeader_atPacket v) (headerCount S s.rcvd (afterHeader v))
  rw [← parsed, ← h.asfDs] at hhoh hbuf
  have hhoh' : s.asfDs.hohSize = hohSizeOf v := hhoh
  exact ⟨hbuf ▸ (afterHeader_headerBuf v hv).1, by omega, by omega⟩

theorem Parsed.header {S v : List UInt8} {s : SendSt} (h : Parsed S v s) (hv : v.length = 2049)
    (hR : s.rcvd < 4294967296) :
    HeaderFields (seekableHeader s.asfDs) (hohSizeOf v) (lastPacketStart S s.rcvd (afterHeader v))
      (headerCount S s.rcvd (afterHeader v)) ∧
    HeaderFields (writtenHeader s.asfDs) (hohSizeOf v) (lastPacketStart S s.rcvd (afterHeader v))
      (headerCount S s.rcvd (afterHeader v)) := by
  have hp := afterHeader_atPacket v
  obtain ⟨hge, hle⟩ := hohSizeOf_bounds v
  obtain ⟨hcount, hhoh, hbuf⟩ := iterate_kept S hp (headerCount S s.rcvd (afterHeader v))
  have hprev : (parsed S s.rcvd (afterHeader v)).prevDoneOffset = _ := parsed_prev hp rfl
  rw [← parsed, ← h.asfDs] at hcount hhoh hbuf
  rw [← h.asfDs] at hprev
  have hhoh' : s.asfDs.hohSize = hohSizeOf v := hhoh
  have hcount' : s.asfDs.packetCount = headerCount S s.rcvd (afterHeader v) + 1 := by
    rw [hcount, Nat.add_comm]; rfl
  have hbound := headerCount_le S s.rcvd v
  have hstart := lastPacketStart_le (S := S) (R := s.rcvd) hp
  have hfields := seekableHeader_fields (h.layout hv)
    (by rw [hbuf, hohSizeOf, (afterHeader_headerBuf v hv).2, hhoh']; rfl) (by omega) (by omega) (by omega)
  rw [hprev, hcount', Nat.add_sub_cancel, hhoh'] at hfields
  exact ⟨hfields, writtenHeader_fields (by omega) hfields hhoh'.symm⟩

/-! ## The copied header -/

def headerBytes (v : List UInt8) : List UInt8 := load v 0 (hohSizeOf v + dataObjectHeaderSize)

theorem headerBytes_len {v : List UInt8} (hv : v.length = 2049) :
    (headerBytes v).length = hohSizeOf v + 50 := by
  have := (hohSizeOf_bounds v).2
  exact length_load (by rw [hv]; show 0 + (hohSizeOf v + 50) ≤ 2049; omega)

/-- The copied header is the only thing the parser remembers of the first read, and it never forgets it. -/
theorem parsed_eq_iff {S v₁ v₂ : List UInt8} {R : Nat} (h₁ : v₁.length = 2049) (h₂ : v₂.length = 2049) :
    parsed S R (afterHeader v₁) = parsed S R (afterHeader v₂) ↔ headerBytes v₁ = headerBytes v₂ := by
  constructor
  · intro he
    obtain ⟨-, hhoh₁, hbuf₁⟩ := iterate_kept S (afterHeader_atPacket v₁) (headerCount S R (afterHeader v₁))
    obtain ⟨-, hhoh₂, hbuf₂⟩ := iterate_kept S (afterHeader_atPacket v₂) (headerCount S R (afterHeader v₂))
    rw [← parsed, he] at hhoh₁ hbuf₁
    rw [← parsed] at hhoh₂ hbuf₂
    have hhoh : hohSizeOf v₁ = hohSizeOf v₂ := hhoh₁.symm.trans hhoh₂
    have hbuf : store SmbcAsfDs.zero.headerBuf 0 (headerBytes v₁) =
        store SmbcAsfDs.zero.headerBuf 0 (headerBytes v₂) :=
      hbuf₁.symm.trans hbuf₂
    have hfront := congrArg (List.take (hohSizeOf v₁ + 50)) hbuf
    have ht := fun v => take_store_prefix (m := SmbcAsfDs.zero.headerBuf) (headerBytes v) (Nat.zero_le _)
    have ht₁ := ht v₁
    have ht₂ := ht v₂
    rw [headerBytes_len h₁, Nat.zero_add, List.take_zero, List.nil_append] at ht₁
    rw [headerBytes_len h₂, Nat.zero_add, List.take_zero, List.nil_append, ← hhoh] at ht₂
    rwa [ht₁, ht₂] at hfront
  · intro he
    have hlen := congrArg List.length he
    rw [headerBytes_len h₁, headerBytes_len h₂] at hlen
    have hhoh : hohSizeOf v₁ = hohSizeOf v₂ := by omega
    unfold headerBytes at he
    have hafter : afterHeader v₁ = afterHeader v₂ := by
      unfold afterHeader
      rw [he, hhoh]
    rw [hafter]

theorem headerView_take {mem h S : List UInt8} {hdr : Option Nat} {env : Nat → Turn} {z : Int} {s n}
    (hm : mem.length = 2049) (hh : HttpHeader h) (hp : parsePoint mem (h ++ S) hdr env (1024 * z) 0 = some s)
    (hn : n ≤ s.rcvd) : (headerView mem h S hdr (1024 * z) (env 0).rd).take n = S.take n := by
  obtain ⟨k, t, rfl, hz, hhead, hf⟩ := parsePoint_cases hh hp
  cases hhead
  have hb := startSt_buffered (h := h) (S := S) (k := k) hm hz
  obtain ⟨hb', hofd, -⟩ := fill_buffered hb hf
  have hofd' : s.ofd = [] := hofd
  have hR : s.rcvd = s.bufSize.toNat := by simp [SendSt.rcvd, hofd']
  have hheld := hb'.held
  rw [hofd', List.length_nil, load, List.drop_zero, ← hR, startSt_view hm hz hf] at hheld
  have hcut := congrArg (List.take n) hheld
  rwa [List.take_take, List.take_take, Nat.min_eq_left hn] at hcut

theorem headerBytes_of_take {v S : List UInt8} (h : v.take 481 = S.take 481) :
    headerBytes v = headerBytes S := by
  have hnum : objectNum v = objectNum S := congrArg le (load_congr h (by decide))
  have hhoh : hohSizeOf v = hohSizeOf S := by rw [hohSizeOf, hohSizeOf, hnum]
  have hle := (hohSizeOf_bounds S).2
  rw [headerBytes, headerBytes, hhoh]
  exact load_congr h (by show 0 + (hohSizeOf S + 50) ≤ 481; omega)

/-! ## Packet boundaries -/

theorem streamBoundary_pos {header : List UInt8} (hobj : HeaderObjects header) (frames : List Frame)
    (m : Nat) :
    0 < streamBoundary header frames m := by
  have hpos : 0 < header.length := by rw [hobj]; exact Nat.succ_pos _
  unfold streamBoundary
  omega

theorem streamBoundary_strictMono {header : List UInt8} {frames : List Frame} {i j : Nat} (hij : i < j)
    (hj : j ≤ (frames.flatMap Frame.packets).length) (hh : HeaderObjects header) :
    streamBoundary header frames i < streamBoundary header frames j := by
  have hstart := @packetStart_asfStream header frames header hh rfl
  rw [← hstart i (by omega), ← hstart j hj]
  exact strictMono_nat_of_lt_succ (packetStart_lt _ (afterHeader_atPacket header)) hij

end CameraFw.Recorder
