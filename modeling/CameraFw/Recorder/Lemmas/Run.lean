import CameraFw.Recorder.Lemmas.Start

/-!
# Whole recordings

What holds at every loop head, after every parsing and at the end of a recording, for every behaviour of
the outside world.
-/

namespace CameraFw.Recorder

open CameraFw.Base

/-! ## One round -/

theorem sendPass_again {t : Turn} {s s₂ : SendSt} :
    sendPass t s = .again s₂ ↔
      (s.asfMaxSize > 0 ∧ t.stop = false) ∧ ∃ s₁, fill s t.rd = some s₁ ∧ drain s₁ t.wr = some s₂ := by
  unfold sendPass
  constructor
  · intro h
    split at h
    · rename_i hg
      split at h
      · cases h
      · rename_i s₁ hf
        split at h
        · cases h
        · rename_i s₂' hd
          cases h
          exact ⟨hg, s₁, hf, hd⟩
    · cases h
  · rintro ⟨hg, s₁, hf, hd⟩
    simp only [hg, and_self, ↓reduceIte, hf, hd]

theorem sendPass_leave {t : Turn} {s : SendSt} {e : SendExit} :
    sendPass t s = .leave e ↔
      (¬ (s.asfMaxSize > 0 ∧ t.stop = false) ∧ e = ⟨0, s⟩) ∨
      ((s.asfMaxSize > 0 ∧ t.stop = false) ∧ fill s t.rd = none ∧ e = ⟨-1, s⟩) ∨
      ((s.asfMaxSize > 0 ∧ t.stop = false) ∧ ∃ s₁, fill s t.rd = some s₁ ∧ drain s₁ t.wr = none ∧
        e = ⟨-1, s₁⟩) := by
  unfold sendPass
  constructor
  · intro h
    split at h
    · rename_i hg
      split at h
      · rename_i hf
        cases h
        exact Or.inr (Or.inl ⟨hg, hf, rfl⟩)
      · rename_i s₁ hf
        split at h
        · rename_i hd
          cases h
          exact Or.inr (Or.inr ⟨hg, s₁, hf, hd, rfl⟩)
        · cases h
    · rename_i hg
      cases h
      exact Or.inl ⟨hg, rfl⟩
  · rintro (⟨hg, rfl⟩ | ⟨hg, hf, rfl⟩ | ⟨hg, s₁, hf, hd, rfl⟩)
    · rw [if_neg hg]
    · simp only [hg, and_self, ↓reduceIte, hf]
    · simp only [hg, and_self, ↓reduceIte, hf, hd]

theorem drain_asfMaxSize {s s' : SendSt} {wr} (h : drain s wr = some s') : s'.asfMaxSize < s.asfMaxSize := by
  unfold drain at h
  split at h
  · cases h
  · split at h
    · cases h
    · cases h; simp only; omega

theorem fill_asfMaxSize {s s' : SendSt} {rd} (h : fill s rd = some s') : s'.asfMaxSize = s.asfMaxSize := by
  unfold fill at h
  split at h
  · cases h
  · split at h
    · cases h
    · cases h; simp

/-- `send_asf` always comes to an end. -/
theorem sendAsf_isSome (mem ifd : List UInt8) (hdr : Option Nat) (env : Nat → Turn) (L : Int) :
    (sendAsf mem ifd hdr env L).isSome := by
  unfold sendAsf
  split
  · rfl
  · rename_i s hs
    have hmax : s.asfMaxSize = L := by
      unfold sendStart at hs
      split at hs
      · cases hs
      · split at hs
        · cases hs
        · cases hs; rfl
    refine whileLoop_isSome (fun s => s.asfMaxSize.toNat) ?_ _ _ _ (by omega)
    intro t s s₂ h
    obtain ⟨⟨hpos, _⟩, s₁, hf, hd⟩ := sendPass_again.mp h
    have h1 := fill_asfMaxSize hf
    have h2 := drain_asfMaxSize hd
    omega

/-! ## The invariant -/

theorem fill_cases {S L s s₁ rd} (h : Buffered S L s) (hf : fill s rd = some s₁) :
    ∃ r got, rd = some r ∧ got = min (min (r + 1) (s.flow.room L.toNat)) (S.length - s.rcvd) ∧ 0 < got ∧
      s₁ = processIt (s.receive got S) := by
  cases rd with
  | none => simp [fill, readFd] at hf
  | some r =>
      rw [h.fill_eq] at hf
      split at hf
      · cases hf
      · cases hf
        exact ⟨r, _, rfl, rfl, by omega, rfl⟩

theorem fill_buffered {S L s s₁ rd} (h : Buffered S L s) (hf : fill s rd = some s₁) :
    Buffered S L s₁ ∧ s₁.ofd = s.ofd ∧ s.rcvd < s₁.rcvd := by
  obtain ⟨r, got, -, hgot, hpos, rfl⟩ := fill_cases h hf
  refine ⟨(h.receive (by omega) (by omega)).processIt, by simp [SendSt.receive], ?_⟩
  rw [processIt_rcvd, receive_rcvd h]; omega

theorem fill_parsed {S v L s s₁ rd} (h : Buffered S L s) (hp : Parsed S v s) (hf : fill s rd = some s₁) :
    Parsed S v s₁ := by
  obtain ⟨r, got, -, hgot, hpos, rfl⟩ := fill_cases h hf
  refine parsed_processIt s.rcvd (h.receive (by omega) (by omega)) ?_ hp.asfDs hp.doneSize hp.done_nonneg
  rw [receive_rcvd h]; omega

theorem fill_fresh {S L s s₁ rd} (h : Buffered S L s) (hfr : Fresh s) (hf : fill s rd = some s₁) :
    Parsed S s₁.buf s₁ := by
  obtain ⟨r, got, -, hgot, hpos, rfl⟩ := fill_cases h hf
  rw [processIt_buf]
  refine parsed_processIt_first (h.receive (by omega) (by omega)) hfr.asfDs hfr.doneSize hfr.ofd ?_
  have := h.size_nonneg
  simp only [SendSt.receive]; omega

theorem drain_inv {S v L s s₂ wr} (h : Buffered S L s) (hp : Parsed S v s) (hd : drain s wr = some s₂) :
    Buffered S L s₂ ∧ Parsed S v s₂ ∧ s₂.bufSize < 2048 := by
  cases wr with
  | none => simp [drain, smbcWrite] at hd
  | some w =>
      have hnn := hp.done_nonneg
      have hsz := h.size_nonneg
      rw [drain_eq h hnn] at hd
      split at hd
      · cases hd
      · cases hd
        have := h.size_le
        exact ⟨h.sendOut (by omega), hp.sendOut h (by omega), by simp only [SendSt.sendOut]; omega⟩

section Recording

variable {S v : List UInt8} {L : Int} {s₀ : SendSt} {env : Nat → Turn}

def HeadInv (S : List UInt8) (L : Int) (s₀ : SendSt) (v : List UInt8) (n : Nat) (s : SendSt) : Prop :=
  Buffered S L s ∧ s.bufSize < 2048 ∧ (n = 0 → s = s₀) ∧ (0 < n → v.length = 2049 ∧ Parsed S v s)

theorem HeadInv.fill {n s s₁} (hf₀ : Fresh s₀) (hv : ∀ s₁, fill s₀ (env 0).rd = some s₁ → s₁.buf = v)
    (h : HeadInv S L s₀ v n s) (hf : fill s (env n).rd = some s₁) :
    Buffered S L s₁ ∧ v.length = 2049 ∧ Parsed S v s₁ := by
  obtain ⟨hb, _, h0, hp⟩ := h
  have hb₁ := (fill_buffered hb hf).1
  refine ⟨hb₁, ?_⟩
  rcases Nat.eq_zero_or_pos n with rfl | hpos
  · obtain rfl := h0 rfl
    have hview := hv s₁ hf
    subst hview
    exact ⟨hb₁.mem_len, fill_fresh hb hf₀ hf⟩
  · exact ⟨(hp hpos).1, fill_parsed hb (hp hpos).2 hf⟩

theorem HeadInv.next {n s s₂} (hf₀ : Fresh s₀) (hv : ∀ s₁, Recorder.fill s₀ (env 0).rd = some s₁ → s₁.buf = v)
    (h : HeadInv S L s₀ v n s) (hpass : sendPass (env n) s = .again s₂) : HeadInv S L s₀ v (n + 1) s₂ := by
  obtain ⟨_, s₁, hf, hd⟩ := sendPass_again.mp hpass
  obtain ⟨hb₁, hlen, hp₁⟩ := h.fill hf₀ hv hf
  obtain ⟨hb₂, hp₂, hlt⟩ := drain_inv hb₁ hp₁ hd
  exact ⟨hb₂, hlt, fun h => absurd h (by omega), fun _ => ⟨hlen, hp₂⟩⟩

theorem headInv_start (hb₀ : Buffered S L s₀) (hf₀ : Fresh s₀) : HeadInv S L s₀ v 0 s₀ :=
  ⟨hb₀, hf₀.size_lt, fun _ => rfl, fun h => absurd h (by omega)⟩

theorem headInv (hb₀ : Buffered S L s₀) (hf₀ : Fresh s₀)
    (hv : ∀ s₁, fill s₀ (env 0).rd = some s₁ → s₁.buf = v) :
    ∀ n s, head sendPass env s₀ n = some s → HeadInv S L s₀ v n s :=
  head_inv (HeadInv S L s₀ v) (headInv_start hb₀ hf₀) fun _ _ _ hi h => hi.next hf₀ hv h

theorem exit_inv (hb₀ : Buffered S L s₀) (hf₀ : Fresh s₀)
    (hv : ∀ s₁, fill s₀ (env 0).rd = some s₁ → s₁.buf = v) {fuel e}
    (h : whileLoop sendPass env fuel 0 s₀ = some e) :
    Buffered S L e.st ∧ (e.st = s₀ ∨ (v.length = 2049 ∧ Parsed S v e.st)) := by
  obtain ⟨n, s, _, hh, hl⟩ := whileLoop_eq_some.mp h
  have hi := headInv hb₀ hf₀ hv n s hh
  have hs : Buffered S L s ∧ (s = s₀ ∨ (v.length = 2049 ∧ Parsed S v s)) := by
    refine ⟨hi.1, ?_⟩
    rcases Nat.eq_zero_or_pos n with h0 | hpos
    · exact Or.inl (hi.2.2.1 h0)
    · exact Or.inr (hi.2.2.2 hpos)
  rcases sendPass_leave.mp hl with ⟨_, rfl⟩ | ⟨_, _, rfl⟩ | ⟨_, s₁, hf, _, rfl⟩
  · exact hs
  · exact hs
  · obtain ⟨hb₁, hp₁⟩ := hi.fill hf₀ hv hf
    exact ⟨hb₁, Or.inr hp₁⟩

end Recording

end CameraFw.Recorder
