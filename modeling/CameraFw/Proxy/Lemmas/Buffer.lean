import CameraFw.Proxy.Transfer

/-!
# The buffer between the client and the web server

What `ssl_buff` holds is the end of what the client has sent. Of a round only the writes to the web server and
`SSL_read` touch it.
-/

namespace CameraFw.Proxy

open CameraFw.Base

variable {c : Conn} {r : Round} {s t : Cli} {u : Up} {k n : Nat}

/-- `k` bytes of the client have left the buffer, `n` are in it. -/
structure Held (u : Up) (k n : Nat) : Prop where
  ptr : u.sslPtr = n
  total : k + n = u.received.length
  bytes : u.sslBuff.take n = u.received.drop k
  size : u.sslBuff.length ≤ BUFFSIZE

theorem Held.le (h : Held u k n) : n ≤ u.sslBuff.length := by
  have hlen := congrArg List.length h.bytes
  have htotal := h.total
  simp only [List.length_take, List.length_drop] at hlen
  omega

theorem Held.lt (h : Held u k n) : n < 2 ^ 32 := by
  have hle := h.le
  have hsize := h.size
  have : BUFFSIZE = 16384 := rfl
  omega

theorem Held.congr {v : Up} (h : Held u k n) (hbuff : v.sslBuff = u.sslBuff) (hptr : v.sslPtr = u.sslPtr)
    (hrec : v.received = u.received) : Held v k n :=
  ⟨hptr ▸ h.ptr, hrec ▸ h.total, hbuff ▸ hrec ▸ h.bytes, hbuff ▸ h.size⟩

theorem Held.take_mem (h : Held u k n) {p : Nat} : (mem c p u).take n = u.received.drop k := by
  rw [mem, List.take_append_of_le_length h.le, h.bytes]

theorem Held.append (h : Held u k n) {bytes : List UInt8} (hfit : n + bytes.length ≤ BUFFSIZE) :
    Held (u.append bytes) k (n + bytes.length) := by
  have hle := h.le
  have htotal := h.total
  refine ⟨?_, ?_, ?_, ?_⟩
  · simp [Up.append, h.ptr]
  · simp only [Up.append, List.length_append]; omega
  · simp only [Up.append, h.ptr, Int.toNat_natCast, store]
    rw [List.take_append_of_le_length (by simp; omega), List.take_of_length_le (by simp), h.bytes,
      List.drop_append_of_le_length (by omega)]
  · have hsize := h.size
    simp only [Up.append, h.ptr, Int.toNat_natCast, store, List.length_append, List.length_take,
      List.length_drop]
    omega

/-! ## Taking bytes out -/

/-- The buffer after the switch over a positive `num`. -/
def Up.drop (u : Up) (m : List UInt8) (num : Nat) : Up :=
  { u with sslBuff := store u.sslBuff 0 ((m.drop num).take (u.sslPtr.toNat - num)), sslPtr := u.sslPtr - num }

theorem Held.drop (h : Held u k n) {p num : Nat} (hnum : num ≤ n) :
    Held (u.drop (mem c p u) num) (k + num) (n - num) := by
  have hle := h.le
  have htotal := h.total
  have hmoved : ((mem c p u).drop num).take (n - num) = u.received.drop (k + num) := by
    rw [← List.drop_take, h.take_mem, List.drop_drop]
  refine ⟨?_, ?_, ?_, ?_⟩
  · simp only [Up.drop, h.ptr]; omega
  · simp only [Up.drop]; omega
  · simp only [Up.drop, h.ptr, Int.toNat_natCast, hmoved, store, List.take_zero, List.nil_append]
    rw [List.take_append_of_le_length (by simp; omega), List.take_of_length_le (by simp; omega)]
  · have hsize := h.size
    simp only [Up.drop, h.ptr, Int.toNat_natCast, hmoved, store, List.take_zero, List.nil_append,
      List.length_append, List.length_drop]
    omega

/-- `I` holds of the way to the web server however a part of a round ends. -/
def Kept {α : Type} (I : Up → Prop) (up : α → Up) : Except Exit α → Prop
  | .error e => I e.cli.up
  | .ok a => I (up a)

theorem Kept.bind {α β : Type} {I : Up → Prop} {up : α → Up} {up' : β → Up} {x : Except Exit α}
    {f : α → Except Exit β} (hx : Kept I up x) (hf : ∀ a, x = .ok a → I (up a) → Kept I up' (f a)) :
    Kept I up' (x >>= f) := by
  cases x with
  | error e => exact hx
  | ok a => exact hf a rfl hx

theorem Kept.of_eq {α : Type} {I : Up → Prop} {up : α → Up} {x : Except Exit α} {u : Up} (hu : I u)
    (hx : Kept (· = u) up x) : Kept I up x := by
  cases x with
  | error e => exact Eq.subst (motive := I) hx.symm hu
  | ok a => exact Eq.subst (motive := I) hx.symm hu

theorem Held.drop_zero (h : Held u k n) {p : Nat} : u.drop (mem c p u) 0 = u := by
  have hle := h.le
  have hbuff : store u.sslBuff 0 ((mem c p u).take n) = u.sslBuff := by
    rw [h.take_mem, ← h.bytes, store, List.length_take, Nat.min_eq_left hle]
    simp
  simp only [Up.drop, h.ptr, List.drop_zero, Int.toNat_natCast, Nat.sub_zero, Int.natCast_zero,
    Int.sub_zero, hbuff]
  rw [← h.ptr]

/-- The switch over `num` takes out what has been sent, if `num` says how much that is. -/
theorem advance_kept {I : Up → Prop} {m : List UInt8} {ws : List Wr} {num : Int} {j : Nat}
    (hptr : s.up.sslPtr = n) (hzero : s.up.drop m 0 = s.up) (hj : j ≤ n)
    (hnum : num = j ∨ num = -1 ∧ j = 0) (hdrop : I (s.up.drop m j)) :
    Kept I (·.1.up) (advance m num ws s) := by
  have hstay : j = 0 → I s.up := by
    rintro rfl
    rwa [hzero] at hdrop
  unfold advance
  by_cases h1 : num = -1
  · rw [if_pos h1]
    split <;> exact hstay (by omega)
  · rw [if_neg h1]
    by_cases h0 : num = 0
    · rw [if_pos h0]
      exact hstay (by omega)
    · rw [if_neg h0, if_neg (by omega)]
      obtain rfl : num = j := by omega
      have hneg : (-(j : Int)).toNat = 0 := by omega
      have hlen : (s.up.sslPtr - j).toNat = s.up.sslPtr.toNat - j := by omega
      simpa only [Kept, moved, below, hneg, List.range_zero, List.map_nil, List.nil_append, hlen,
        Int.toNat_natCast, Up.drop] using hdrop

/-- A write takes a part of what it is given, and says how much or that it has failed. -/
theorem writeSocket_cases (m : List UInt8) (len : Nat) (w : Wr) (hm : len ≤ m.length) (hlen : len < 2 ^ 32) :
    ∃ j ≤ len, (writeSocket m len w).2 = m.take j ∧
      ((writeSocket m len w).1 = j ∨ (writeSocket m len w).1 = -1 ∧ j = 0) := by
  have hmod : ((len : Int) % 2 ^ 32).toNat = len := by omega
  cases w with
  | took a =>
      refine ⟨min a len, Nat.min_le_right _ _, ?_, Or.inl ?_⟩
      · simp only [writeSocket, hmod]
      · simp only [writeSocket, hmod, List.length_take]
        rw [Nat.min_eq_left (by omega)]
  | again => exact ⟨0, Nat.zero_le _, rfl, Or.inr ⟨rfl, rfl⟩⟩
  | failed => exact ⟨0, Nat.zero_le _, rfl, Or.inr ⟨rfl, rfl⟩⟩

/-! ## A round -/

theorem sendNotify_kept (f : Ready) : Kept (· = s.up) Cli.up (sendNotify r f s) := by
  unfold sendNotify
  split_ifs <;> rfl

theorem sendNotify_ok {f : Ready} (h : sendNotify r f s = .ok t) : ∃ cl, t = { s with closing := cl } := by
  unfold sendNotify at h
  split_ifs at h <;> cases h
  · exact ⟨_, rfl⟩
  · exact ⟨_, rfl⟩
  · exact ⟨s.closing, rfl⟩
  · exact ⟨s.closing, rfl⟩

theorem writeSsl_kept (f : Ready) : Kept (· = s.up) Cli.up (writeSsl r f s) := by
  unfold writeSsl
  split
  · split
    · rfl
    · rfl
    · split <;> rfl
    · rfl
    · rfl
  · rfl

theorem readSocket_kept (f : Ready) : Kept (· = s.up) Cli.up (readSocket r f s) := by
  unfold readSocket
  split
  · split <;> rfl
  · rfl

theorem readSsl_kept {I : Up → Prop} {check : Bool} (f : Ready) (hI : I s.up)
    (hread : ∀ bytes : List UInt8, s.up.sslPtr < BUFFSIZE →
      I (s.up.append (bytes.take (BUFFSIZE - s.up.sslPtr).toNat))) :
    Kept I Cli.up (readSsl r f check s) := by
  unfold readSsl
  split
  · rename_i hc
    split
    · exact hread _ hc.2.1
    · exact hI
    · split <;> exact hI
    · split <;> exact hI
    · exact hI
    · exact hI
  · exact hI

theorem checkShutdown_up : (checkShutdown r s).up = s.up := by
  unfold checkShutdown
  dsimp only
  split_ifs <;> rfl

/-- What `SSL_read` and the writes to the web server keep, a round keeps. -/
theorem handle_kept {I : Up → Prop} {f : Ready} (hI : I s.up)
    (hread : ∀ u, I u → ∀ bytes : List UInt8, u.sslPtr < BUFFSIZE →
      I (u.append (bytes.take (BUFFSIZE - u.sslPtr).toNat)))
    (hwrite : s.sockWr = true → f.sockWr = true →
      ∀ cl, Kept I (·.1.up) (writeUp c r { s with closing := cl })) :
    Kept I Cli.up (handle c r f s) := by
  unfold handle
  refine (Kept.of_eq hI (sendNotify_kept f)).bind fun t1 h1 hI1 => ?_
  obtain ⟨cl, rfl⟩ := sendNotify_ok h1
  have hw : Kept I (·.1.up) (writeStep c r f.sockWr { s with closing := cl }) := by
    unfold writeStep
    split
    · rename_i hgo; exact hwrite hgo.1 hgo.2 cl
    · exact hI
  refine hw.bind fun p _ hI2 => ?_
  refine (Kept.of_eq hI2 (writeSsl_kept f)).bind fun t3 _ hI3 => ?_
  refine (Kept.of_eq hI3 (readSocket_kept f)).bind fun t4 _ hI4 => ?_
  exact readSsl_kept f hI4 (hread _ hI4)

/-- The same for a whole round. -/
def PassKept (I : Up → Prop) : Pass Cli Exit → Prop
  | .again t => I t.up
  | .leave e => I e.cli.up

theorem endRound_kept {I : Up → Prop} (hI : I s.up) : PassKept I (endRound r s) := by
  have hup : I (checkShutdown r s).up := by rw [checkShutdown_up]; exact hI
  unfold endRound
  dsimp only
  split_ifs
  · exact hup
  · exact hup
  · exact hup

theorem transferPass_kept {I : Up → Prop} (hI : I s.up) (hh : Kept I Cli.up (handle c r (ready r s) s)) :
    PassKept I (transferPass c r s) := by
  unfold transferPass
  dsimp only
  split_ifs
  · exact hI
  · exact hI
  · exact hI
  · exact hI
  · cases hres : handle c r (ready r s) s with
    | error e => rw [hres] at hh; exact hh
    | ok t => rw [hres] at hh; exact endRound_kept hh

/-- A condition on the rounds, as long as the loop runs. -/
def During (G : Cli → Round → Prop) : St → Round → Prop
  | .running s, r => G s r
  | .left _, _ => True

instance (G : Cli → Round → Prop) [∀ s r, Decidable (G s r)] : ∀ st r, Decidable (During G st r)
  | .running s, r => inferInstanceAs (Decidable (G s r))
  | .left _, _ => isTrue trivial

/-- The rule for runs: what holds at the start, and is kept by `SSL_read` and by every write of the run,
holds in every state of the run. -/
theorem transfer_always {I : Up → Prop} {G : Cli → Round → Prop} (hstart : I Cli.start.up)
    (hread : ∀ u, I u → ∀ bytes : List UInt8, u.sslPtr < BUFFSIZE →
      I (u.append (bytes.take (BUFFSIZE - u.sslPtr).toNat)))
    (hwrite : ∀ s r, I s.up → s.sockWr = true → (ready r s).sockWr = true → G s r →
      ∀ cl, Kept I (·.1.up) (writeUp c r { s with closing := cl }))
    (rounds : List Round)
    (hG : Along (transferStep c) (During G) (.running Cli.start) rounds) :
    Always (transferStep c) (fun st => I st.up) (.running Cli.start) rounds := by
  refine always_of_along ?_ rounds _ hstart hG
  intro st r st' hI hGr hstep
  cases st with
  | left e => cases hstep
  | running s =>
      have hk := transferPass_kept hI (handle_kept hI hread fun h1 h2 => hwrite s r hI h1 h2 hGr)
      simp only [transferStep] at hstep
      cases hp : transferPass c r s with
      | leave e => rw [hp] at hk hstep; cases hstep; exact hk
      | again t => rw [hp] at hk hstep; cases hstep; exact hk

end CameraFw.Proxy
