import CameraFw.Recorder.Lemmas.Run

/-!
# The totals of a recording

The loop of `send_asf` refines the loop of `flowPass`: how many bytes are received and written, and how
the recording ends, is decided by the totals and by the packet ends of the stream. With no stop, no
failing read and no failing write, a recording runs to its limit exactly when every round leaves it
something to read and something to write.
-/

namespace CameraFw.Recorder

open CameraFw.Base

/-! ## The loop of `send_asf` as a loop of totals -/

section

variable {S v : List UInt8} {L : Int} {s₀ : SendSt} {env : Nat → Turn}

theorem fill_flow {s} (hb : Buffered S L s) (r : Nat) :
    (fill s (some r) = none ∧ (s.flow.receive S.length L.toNat r).rcvd = s.flow.rcvd) ∨
      ∃ s₁, fill s (some r) = some s₁ ∧ s₁.flow = s.flow.receive S.length L.toNat r ∧
        s.flow.rcvd < s₁.flow.rcvd := by
  have hfl : s.flow.rcvd = s.rcvd := rfl
  rw [hb.fill_eq]
  split
  · left
    refine ⟨rfl, ?_⟩
    simp only [Flow.receive]
    omega
  · right
    refine ⟨_, rfl, ?_, ?_⟩
    · simp only [SendSt.flow, processIt_rcvd, processIt_ofd, receive_rcvd hb]
      rfl
    · rename_i hpos
      have := receive_rcvd hb (min (min (r + 1) (s.flow.room L.toNat)) (S.length - s.rcvd))
      rw [← processIt_rcvd] at this
      show s.rcvd < SendSt.rcvd _
      rw [this]
      exact Nat.lt_add_of_pos_right (Nat.pos_of_ne_zero hpos)

theorem drain_flow {s₁} (hb : Buffered S L s₁) (hp : Parsed S v s₁) (w : Nat) :
    (drain s₁ (some w) = none ∧ (s₁.flow.send (reachOf S v) w).sent = s₁.flow.sent) ∨
      ∃ s₂, drain s₁ (some w) = some s₂ ∧ s₂.flow = s₁.flow.send (reachOf S v) w ∧
        s₁.flow.sent < s₂.flow.sent := by
  have hnn := hp.done_nonneg
  have hsz := hb.size_nonneg
  have hds : s₁.asfDs.doneOffset = reachOf S v s₁.rcvd := by rw [hp.asfDs]; rfl
  have hdone := hp.doneSize
  have hR : s₁.rcvd = s₁.ofd.length + s₁.bufSize.toNat := rfl
  have hreq : (min s₁.doneSize s₁.bufSize).toNat = min (reachOf S v s₁.rcvd) s₁.rcvd - s₁.ofd.length := by
    rw [← hds]; omega
  have hsend : (s₁.flow.send (reachOf S v) w).sent =
      s₁.ofd.length + min (w + 1) (min (reachOf S v s₁.rcvd) s₁.rcvd - s₁.ofd.length) := rfl
  rw [drain_eq hb hnn, hreq]
  split
  · exact Or.inl ⟨rfl, by rw [hsend]; simp only [SendSt.flow]; omega⟩
  · obtain ⟨h1, h2⟩ := sendOut_rcvd hb
      (show min (w + 1) (min (reachOf S v s₁.rcvd) s₁.rcvd - s₁.ofd.length) ≤ s₁.bufSize.toNat by omega)
    refine Or.inr ⟨_, rfl, ?_, ?_⟩
    · simp only [SendSt.flow, h1, h2]
      rfl
    · simp only [SendSt.flow, h1]
      omega

/-- A round of the loop is a round of its totals. -/
theorem sendPass_flow (hf₀ : Fresh s₀) (hv : ∀ s₁, fill s₀ (env 0).rd = some s₁ → s₁.buf = v) {n s}
    (hi : HeadInv S L s₀ v n s) :
    flowPass S.length L.toNat (reachOf S v) (env n) s.flow =
      (sendPass (env n) s).map SendSt.flow fun e => (e.errcode, e.st.flow) := by
  have hb := hi.1
  have hlim := hb.limit
  have hguard : (s.asfMaxSize > 0 ∧ (env n).stop = false) ↔
      (s.flow.sent < L.toNat ∧ (env n).stop = false) := by
    have : s.flow.sent = s.ofd.length := rfl
    rw [this]
    exact and_congr_left fun _ => by omega
  unfold sendPass flowPass
  by_cases hg : s.asfMaxSize > 0 ∧ (env n).stop = false
  · rw [if_pos hg, if_pos (hguard.mp hg)]
    cases hrd : (env n).rd with
    | none => rfl
    | some r =>
        rcases fill_flow hb r with ⟨hf, hsame⟩ | ⟨s₁, hf, hfl, hmore⟩
        · simp only [hf, hsame, ↓reduceIte]
          rfl
        · obtain ⟨hb₁, -, hp₁⟩ := hi.fill hf₀ hv (hrd ▸ hf)
          simp only [hf, ← hfl, if_neg (Nat.ne_of_gt hmore)]
          cases hwr : (env n).wr with
          | none => rfl
          | some w =>
              rcases drain_flow hb₁ hp₁ w with ⟨hd, hsame⟩ | ⟨s₂, hd, hfl₂, hmore₂⟩
              · simp only [hd, hsame, ↓reduceIte]
                rfl
              · simp only [hd, ← hfl₂, if_neg (Nat.ne_of_gt hmore₂)]
                rfl
  · rw [if_neg hg, if_neg (hguard.not.mp hg)]
    rfl

theorem sendPass_flow_again (hf₀ : Fresh s₀) (hv : ∀ s₁, fill s₀ (env 0).rd = some s₁ → s₁.buf = v) {n s s₂}
    (hi : HeadInv S L s₀ v n s) (h : sendPass (env n) s = .again s₂) :
    flowPass S.length L.toNat (reachOf S v) (env n) s.flow = .again s₂.flow := by
  rw [sendPass_flow hf₀ hv hi, h]
  rfl

/-- The loop of `send_asf` ends as the loop of its totals does. -/
theorem sendLoop_flow (hb₀ : Buffered S L s₀) (hf₀ : Fresh s₀)
    (hv : ∀ s₁, fill s₀ (env 0).rd = some s₁ → s₁.buf = v) (fuel : Nat) :
    whileLoop (flowPass S.length L.toNat (reachOf S v)) env fuel 0 s₀.flow =
      (whileLoop sendPass env fuel 0 s₀).map fun e => (e.errcode, e.st.flow) := by
  refine whileLoop_sim SendSt.flow (fun e : SendExit => (e.errcode, e.st.flow))
    (HeadInv S L s₀ v) ?_ ?_ fuel 0 s₀ (headInv_start hb₀ hf₀)
  · intro n s hi
    exact sendPass_flow hf₀ hv hi
  · intro n s s₂ hi h
    exact hi.next hf₀ hv h

end

theorem flowPass_again {avail limit : Nat} {ρ : Nat → Nat} {t : Turn} {f g : Flow}
    (h : flowPass avail limit ρ t f = .again g) :
    (f.sent < limit ∧ t.stop = false) ∧ ∃ r w, t.rd = some r ∧ t.wr = some w ∧
      g = (f.receive avail limit r).send ρ w ∧ f.sent ≠ g.sent := by
  unfold flowPass at h
  split at h
  · rename_i hg
    split at h
    · cases h
    · rename_i r hr
      simp only at h
      split at h
      · cases h
      · split at h
        · cases h
        · rename_i w hw
          split at h
          · cases h
          · rename_i hne
            cases h
            exact ⟨hg, r, w, hr, hw, rfl, fun hc => hne hc.symm⟩
  · cases h

/-! ## Undisturbed recordings -/

def steady (rd wr : Nat → Nat) (n : Nat) : Turn := ⟨false, some (rd n), some (wr n)⟩

section

variable {avail L : Nat} {ρ : Nat → Nat} {rd wr : Nat → Nat}

structure Flow.Sane (L : Nat) (f : Flow) : Prop where
  sent_le : f.sent ≤ f.rcvd
  rcvd_le : f.rcvd ≤ L
  buf_lt : f.rcvd - f.sent < 2048

/-- A round with totals `f` at its head and `f'` behind it is one the recording survives: there is
something left to receive below the limit, and with the bytes received the parser has come further than
what has been written. -/
def Flow.Lives (L : Nat) (ρ : Nat → Nat) (f f' : Flow) : Prop := f.rcvd < L ∧ f.sent < ρ f'.rcvd

/-- No round before the limit is one that ends the recording. -/
def Survives (L : Nat) (ρ : Nat → Nat) (F : Nat → Flow) : Prop :=
  ∀ n, (F n).sent < L → (F n).Lives L ρ (F (n + 1))

theorem Flow.Sane.receive_lt {f : Flow} (h : f.Sane L) (hL : L ≤ avail) (hlt : f.rcvd < L) (r : Nat) :
    f.rcvd < (f.receive avail L r).rcvd ∧ (f.receive avail L r).rcvd ≤ L ∧
      (f.receive avail L r).rcvd - f.sent ≤ 2048 := by
  obtain ⟨h1, h2, h3⟩ := h
  have hb : smbcBufSize = 2048 := rfl
  simp only [Flow.receive, Flow.room, hb]
  split <;> omega

theorem Flow.Sane.receive_full {f : Flow} (h : f.Sane L) (hfull : ¬ f.rcvd < L) (r : Nat) :
    (f.receive avail L r).rcvd = f.rcvd := by
  obtain ⟨h1, h2, h3⟩ := h
  have hb : smbcBufSize = 2048 := rfl
  simp only [Flow.receive, Flow.room, hb]
  split <;> omega

theorem Flow.Sane.next {f : Flow} {r w : Nat} (h : f.Sane L) (hL : L ≤ avail)
    (hl : f.Lives L ρ ((f.receive avail L r).send ρ w)) :
    ((f.receive avail L r).send ρ w).Sane L ∧ f.sent < ((f.receive avail L r).send ρ w).sent := by
  obtain ⟨hlt, hr⟩ := hl
  obtain ⟨h1, h2, h3⟩ := h.receive_lt hL hlt r
  have hs := h.sent_le
  have he : (f.receive avail L r).sent = f.sent := rfl
  simp only [Flow.send] at hr ⊢
  refine ⟨⟨?_, h2, ?_⟩, ?_⟩ <;> simp only [he] <;> omega

theorem flowPass_steady {f : Flow} (h : f.Sane L) (hL : L ≤ avail) (hlt : f.sent < L) (n : Nat) :
    (f.Lives L ρ ((f.receive avail L (rd n)).send ρ (wr n)) →
      flowPass avail L ρ (steady rd wr n) f = .again ((f.receive avail L (rd n)).send ρ (wr n))) ∧
    (¬ f.Lives L ρ ((f.receive avail L (rd n)).send ρ (wr n)) →
      ∃ g, flowPass avail L ρ (steady rd wr n) f = .leave (-1, g)) := by
  have hg : f.sent < L ∧ (steady rd wr n).stop = false := ⟨hlt, rfl⟩
  unfold flowPass
  rw [if_pos hg]
  simp only [steady]
  refine ⟨fun hl => ?_, fun hl => ?_⟩
  · have hmore := (h.receive_lt hL hl.1 (rd n)).1
    have hsent := (h.next hL hl).2
    rw [if_neg (Nat.ne_of_gt hmore), if_neg]
    exact Nat.ne_of_gt hsent
  · by_cases hr : f.rcvd < L
    · have hmore := (h.receive_lt hL hr (rd n)).1
      have hstall : ¬ f.sent < ρ (f.receive avail L (rd n)).rcvd := fun hc => hl ⟨hr, hc⟩
      have hsame : ((f.receive avail L (rd n)).send ρ (wr n)).sent = (f.receive avail L (rd n)).sent := by
        simp only [Flow.send]
        have he : (f.receive avail L (rd n)).sent = f.sent := rfl
        omega
      rw [if_neg (Nat.ne_of_gt hmore), if_pos hsame]
      exact ⟨_, rfl⟩
    · rw [if_pos (h.receive_full hr (rd n))]
      exact ⟨_, rfl⟩

theorem head_flow_iff {f₀ : Flow} (h₀ : f₀.Sane L) (hL : L ≤ avail) (n : Nat) (f : Flow) :
    head (flowPass avail L ρ) (steady rd wr) f₀ n = some f ↔
      f = flow avail L ρ rd wr f₀ n ∧ ∀ m < n, (flow avail L ρ rd wr f₀ m).sent < L ∧
        (flow avail L ρ rd wr f₀ m).Lives L ρ (flow avail L ρ rd wr f₀ (m + 1)) := by
  -- along the rounds that are survived the totals stay sane
  have hsane : ∀ n, (∀ m < n, (flow avail L ρ rd wr f₀ m).sent < L ∧
      (flow avail L ρ rd wr f₀ m).Lives L ρ (flow avail L ρ rd wr f₀ (m + 1))) →
      (flow avail L ρ rd wr f₀ n).Sane L := by
    intro n
    induction n with
    | zero => intro _; exact h₀
    | succ n ih => intro h; exact ((ih fun m hm => h m (by omega)).next hL (h n (by omega)).2).1
  induction n generalizing f with
  | zero =>
      constructor
      · rintro ⟨⟩; exact ⟨rfl, fun m hm => absurd hm (by omega)⟩
      · rintro ⟨rfl, -⟩; rfl
  | succ n ih =>
      rw [head_succ]
      constructor
      · rintro ⟨g, hg, hpass⟩
        obtain ⟨rfl, hlive⟩ := (ih g).mp hg
        have hlt : (flow avail L ρ rd wr f₀ n).sent < L := by
          by_contra hc
          have hno : ¬ ((flow avail L ρ rd wr f₀ n).sent < L ∧ (steady rd wr n).stop = false) :=
            fun h => hc h.1
          simp only [flowPass, if_neg hno] at hpass
          cases hpass
        obtain ⟨hyes, hno⟩ := flowPass_steady (ρ := ρ) (hsane n hlive) hL hlt n
        by_cases hl : (flow avail L ρ rd wr f₀ n).Lives L ρ (flow avail L ρ rd wr f₀ (n + 1))
        · rw [hyes hl] at hpass
          cases hpass
          refine ⟨rfl, fun m hm => ?_⟩
          rcases Nat.lt_or_eq_of_le (Nat.le_of_lt_succ hm) with hlt' | rfl
          · exact hlive m hlt'
          · exact ⟨hlt, hl⟩
        · obtain ⟨g', hg'⟩ := hno hl
          rw [hg'] at hpass
          cases hpass
      · rintro ⟨rfl, hlive⟩
        have hbefore := fun m (hm : m < n) => hlive m (by omega)
        refine ⟨_, (ih _).mpr ⟨rfl, hbefore⟩, ?_⟩
        exact (flowPass_steady (hsane n hbefore) hL (hlive n (by omega)).1 n).1 (hlive n (by omega)).2

theorem flow_sent_ge {f₀ : Flow} (h₀ : f₀.Sane L) (hL : L ≤ avail) (n : Nat)
    (h : ∀ m < n, (flow avail L ρ rd wr f₀ m).sent < L ∧
      (flow avail L ρ rd wr f₀ m).Lives L ρ (flow avail L ρ rd wr f₀ (m + 1))) :
    (flow avail L ρ rd wr f₀ n).Sane L ∧ n ≤ (flow avail L ρ rd wr f₀ n).sent := by
  induction n with
  | zero => exact ⟨h₀, Nat.zero_le _⟩
  | succ n ih =>
      obtain ⟨hs, hn⟩ := ih fun m hm => h m (by omega)
      obtain ⟨hs', hlt⟩ := hs.next hL (h n (by omega)).2
      exact ⟨hs', Nat.lt_of_le_of_lt hn hlt⟩

theorem flow_full {f₀ : Flow} {n : Nat} (h : flow avail L ρ rd wr f₀ n = ⟨L, L⟩) :
    ∀ m, n ≤ m → flow avail L ρ rd wr f₀ m = ⟨L, L⟩ := by
  intro m hm
  induction m with
  | zero => rw [← Nat.le_zero.mp hm]; exact h
  | succ m ih =>
      rcases Nat.lt_or_eq_of_le hm with hlt | rfl
      · simp only [flow, ih (by omega), Flow.receive, Flow.send, Flow.room]
        congr 1 <;> simp
      · exact h

/-- An undisturbed recording runs to its limit exactly when it survives every round. -/
theorem flowLoop_complete_iff {f₀ : Flow} (h₀ : f₀.Sane L) (hL : L ≤ avail) :
    whileLoop (flowPass avail L ρ) (steady rd wr) (L + 1) 0 f₀ = some (0, ⟨L, L⟩) ↔
      Survives L ρ (flow avail L ρ rd wr f₀) := by
  rw [whileLoop_eq_some]
  constructor
  · rintro ⟨n, f, -, hhead, hl⟩
    obtain ⟨rfl, hlive⟩ := (head_flow_iff h₀ hL n f).mp hhead
    have hfull : flow avail L ρ rd wr f₀ n = ⟨L, L⟩ := by
      by_cases hlt : (flow avail L ρ rd wr f₀ n).sent < L
      · -- a round below the limit goes on or is given up
        obtain ⟨hyes, hno⟩ := flowPass_steady (ρ := ρ) (flow_sent_ge h₀ hL n hlive).1 hL hlt n
        by_cases hc : (flow avail L ρ rd wr f₀ n).Lives L ρ (flow avail L ρ rd wr f₀ (n + 1))
        · rw [hyes hc] at hl; cases hl
        · obtain ⟨g, hg⟩ := hno hc
          rw [hg] at hl; cases hl
      · have hno : ¬ ((flow avail L ρ rd wr f₀ n).sent < L ∧ (steady rd wr n).stop = false) :=
          fun h => hlt h.1
        simp only [flowPass, if_neg hno, Pass.leave.injEq, Prod.mk.injEq, true_and] at hl
        exact hl
    intro m hm
    by_cases hmn : m < n
    · exact (hlive m hmn).2
    · rw [flow_full hfull m (by omega)] at hm
      exact absurd hm (lt_irrefl L)
  · intro hsurv
    have hex : ∃ n, ¬ (flow avail L ρ rd wr f₀ n).sent < L := by
      by_contra hc
      push Not at hc
      have := (flow_sent_ge h₀ hL (L + 1) fun m _ => ⟨hc m, hsurv m (hc m)⟩).2
      have := hc (L + 1)
      omega
    have hbefore := fun m (hm : m < Nat.find hex) =>
      have hlt := not_not.mp (Nat.find_min hex hm)
      (⟨hlt, hsurv m hlt⟩ : _ ∧ _)
    obtain ⟨hs, hn⟩ := flow_sent_ge h₀ hL (Nat.find hex) hbefore
    have hend := Nat.find_spec hex
    have hfull : flow avail L ρ rd wr f₀ (Nat.find hex) = ⟨L, L⟩ := by
      have h1 := hs.sent_le
      have h2 := hs.rcvd_le
      cases hf : flow avail L ρ rd wr f₀ (Nat.find hex) with
      | mk r t => rw [hf] at h1 h2 hend; simp only at h1 h2 hend; congr 1 <;> omega
    refine ⟨Nat.find hex, _, ?_, (head_flow_iff h₀ hL _ _).mpr ⟨rfl, hbefore⟩, ?_⟩
    · rw [hfull] at hn; simp only at hn; omega
    · rw [hfull]
      simp [flowPass]

end

end CameraFw.Recorder
