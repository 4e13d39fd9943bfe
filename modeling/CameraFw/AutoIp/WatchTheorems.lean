import CameraFw.AutoIp.Defend

/-!
# What the watcher reports and answers

An announcement by another machine, whose sender and target are the defended address, is no conflict for
the watcher. A probe from 0.0.0.0 gets no answer.
-/

namespace CameraFw.AutoIp

open CameraFw.Base

variable {client : BitVec 48} {ip : BitVec 32} {answers : Nat → Heard}

/-! ## Packets -/

/-- An ARP packet from another machine that has the address. -/
def Claims (client : BitVec 48) (ip : BitVec 32) (m : ArpMessage) : Prop :=
  m.etherType = ETHERTYPE_ARP ∧ m.sHaddr ≠ client ∧ m.sInaddr = ip

/-- An ARP request for the address from another machine that has no address, or has this one. -/
def ProbesFor (client : BitVec 48) (ip : BitVec 32) (m : ArpMessage) : Prop :=
  m.etherType = ETHERTYPE_ARP ∧ m.sHaddr ≠ client ∧ m.operation = ARPOP_REQUEST ∧ m.tInaddr = ip ∧
    (m.sInaddr = 0 ∨ m.sInaddr = m.tInaddr)

theorem handle_conflict_iff {m : ArpMessage} {isSet : Bool} :
    handle client ip m isSet = .conflict ↔ Claims client ip m ∧ m.tInaddr ≠ ip := by
  constructor
  · intro h
    unfold handle at h
    split_ifs at h with harp hclaim
    obtain ⟨hother, hne, rfl⟩ := hclaim
    exact ⟨⟨not_not.mp harp, hother, rfl⟩, Ne.symm hne⟩
  · rintro ⟨⟨harp, hother, rfl⟩, hne⟩
    simp [handle, harp, hother, Ne.symm hne]

theorem handle_reply_iff {m : ArpMessage} {isSet : Bool} {msg : ArpReply} :
    handle client ip m isSet = .reply msg ↔
      ProbesFor client ip m ∧ m.sInaddr = m.tInaddr ∧ isSet = false ∧
        msg = sendReplyForArpProbe client ip m.sHaddr := by
  constructor
  · intro h
    unfold handle at h
    split_ifs at h with harp hclaim hprobe
    obtain ⟨hother, hrequest, hsame, htarget, hset⟩ := hprobe
    have hsame' : m.sInaddr = m.tInaddr := hsame.resolve_left (by decide)
    cases h
    exact ⟨⟨not_not.mp harp, hother, hrequest, htarget, Or.inr hsame'⟩, hsame', by simpa using hset, rfl⟩
  · rintro ⟨⟨harp, hother, hrequest, htarget, _⟩, hsame, rfl, rfl⟩
    simp [handle, harp, hother, hrequest, htarget, hsame]

/-! ## Rounds -/

/-- The watcher gets to round `n`: there was no conflict before, and `recvfrom` has not failed. -/
def Watching (client : BitVec 48) (ip : BitVec 32) (answers : Nat → Heard) (n : Nat) : Prop :=
  ∀ k < n, recvAt answers k ≠ some none ∧
    ∀ m, recvAt answers k = some (some m) → ¬ (Claims client ip m ∧ m.tInaddr ≠ ip)

/-- What a round does, by what it hears. -/
theorem defendPass_eq {n : Nat} {st : DefendSt} (h : st.waiting = waitsFor answers n) :
    defendPass client ip (answers n) st =
      match recvAt answers n with
      | none => .again { st with waiting := next (answers n) }
      | some none => .leave (-1)
      | some (some m) =>
          match handle client ip m ((answers n).tested = .flagged) with
          | .conflict => .leave 0
          | .reply msg => .again ⟨next (answers n), st.sent ++ [msg]⟩
          | .ignored => .again { st with waiting := next (answers n) } := by
  unfold defendPass recvAt
  rw [h]
  cases waitsFor answers n with
  | select => rfl
  | recvfrom => cases (answers n).received <;> rfl

theorem defendPass_again_iff {n : Nat} {st : DefendSt} (h : st.waiting = waitsFor answers n) :
    (∃ u, defendPass client ip (answers n) st = .again u) ↔
      recvAt answers n ≠ some none ∧
        ∀ m, recvAt answers n = some (some m) → ¬ (Claims client ip m ∧ m.tInaddr ≠ ip) := by
  rw [defendPass_eq h]
  cases hr : recvAt answers n with
  | none => simp
  | some r =>
      cases r with
      | none => simp
      | some m =>
          simp only [ne_eq, Option.some.injEq, reduceCtorEq, not_false_eq_true, true_and, forall_eq',
            ← @handle_conflict_iff client ip m (decide ((answers n).tested = .flagged))]
          cases handle client ip m (decide ((answers n).tested = .flagged)) <;> simp

theorem head_waiting {n : Nat} {st : DefendSt}
    (h : head (defendPass client ip) answers ⟨.select, []⟩ n = some st) :
    st.waiting = waitsFor answers n := by
  refine head_inv (fun n (st : DefendSt) => st.waiting = waitsFor answers n) rfl ?_ n st h
  intro n t u ht hu
  rw [defendPass_eq ht] at hu
  split at hu
  · cases hu; rfl
  · cases hu
  · split at hu <;> cases hu <;> rfl

theorem head_isSome_iff (n : Nat) :
    (∃ st, head (defendPass client ip) answers ⟨.select, []⟩ n = some st) ↔ Watching client ip answers n := by
  induction n with
  | zero => exact ⟨fun _ k hk => absurd hk (Nat.not_lt_zero k), fun _ => ⟨_, rfl⟩⟩
  | succ n ih =>
      constructor
      · rintro ⟨u, hu⟩ k hk
        obtain ⟨t, ht, hpass⟩ := head_succ.mp hu
        rcases Nat.lt_succ_iff_lt_or_eq.mp hk with hlt | rfl
        · exact ih.mp ⟨t, ht⟩ k hlt
        · exact (defendPass_again_iff (head_waiting ht)).mp ⟨u, hpass⟩
      · intro hwatch
        obtain ⟨t, ht⟩ := ih.mpr fun k hk => hwatch k (Nat.lt_succ_of_lt hk)
        obtain ⟨u, hu⟩ := (defendPass_again_iff (head_waiting ht)).mpr (hwatch n (Nat.lt_succ_self n))
        exact ⟨u, head_succ.mpr ⟨t, ht, hu⟩⟩

/-! ## Reports -/

/-- `bCollision` is set in round `n`. -/
def ReportsAt (client : BitVec 48) (ip : BitVec 32) (answers : Nat → Heard) (n : Nat) : Prop :=
  watchForIPCollision client ip answers (n + 1) = true ∧ watchForIPCollision client ip answers n = false

/-- The first packet that claims the address comes in round `n`, and `recvfrom` has not failed before. -/
def FirstClaim (client : BitVec 48) (ip : BitVec 32) (answers : Nat → Heard) (n : Nat)
    (m : ArpMessage) : Prop :=
  recvAt answers n = some (some m) ∧ Claims client ip m ∧
    ∀ k < n, recvAt answers k ≠ some none ∧ ∀ m', recvAt answers k = some (some m') → ¬ Claims client ip m'

theorem defendPass_leave_iff {n : Nat} {st : DefendSt} (h : st.waiting = waitsFor answers n) :
    defendPass client ip (answers n) st = .leave 0 ↔
      ∃ m, recvAt answers n = some (some m) ∧ Claims client ip m ∧ m.tInaddr ≠ ip := by
  rw [defendPass_eq h]
  cases hr : recvAt answers n with
  | none => simp
  | some r =>
      cases r with
      | none => simp
      | some m =>
          simp only [Option.some.injEq, exists_eq_left',
            ← @handle_conflict_iff client ip m (decide ((answers n).tested = .flagged))]
          cases handle client ip m (decide ((answers n).tested = .flagged)) <;> simp

theorem reportsAt_iff (n : Nat) :
    ReportsAt client ip answers n ↔
      Watching client ip answers n ∧ ∃ m, recvAt answers n = some (some m) ∧ Claims client ip m ∧
        m.tInaddr ≠ ip := by
  rw [ReportsAt, watchForIPCollision, watchForIPCollision, decide_eq_true_iff, decide_eq_false_iff_not,
    ipDefend, ipDefend, whileLoop_eq_some, whileLoop_eq_some]
  constructor
  · rintro ⟨⟨k, u, hk, hu, hleave⟩, hnot⟩
    obtain rfl : k = n := by
      by_contra hne
      exact hnot ⟨k, u, by omega, hu, hleave⟩
    exact ⟨(head_isSome_iff k).mp ⟨u, hu⟩, (defendPass_leave_iff (head_waiting hu)).mp hleave⟩
  · rintro ⟨hwatch, hclaim⟩
    obtain ⟨u, hu⟩ := (head_isSome_iff n).mpr hwatch
    refine ⟨⟨n, u, Nat.lt_succ_self n, hu, (defendPass_leave_iff (head_waiting hu)).mpr hclaim⟩, ?_⟩
    rintro ⟨k, v, hk, hv, hleave⟩
    -- the watcher got beyond round `k`
    obtain ⟨w, hw⟩ := head_of_le hu (show k + 1 ≤ n from hk)
    obtain ⟨v', hv', hagain⟩ := head_succ.mp hw
    rw [hv] at hv'
    cases hv'
    rw [hleave] at hagain
    cases hagain

theorem FirstClaim.watching {n : Nat} {m : ArpMessage} (h : FirstClaim client ip answers n m) :
    Watching client ip answers n :=
  fun k hk => ⟨(h.2.2 k hk).1, fun m' hm' hclaim => (h.2.2 k hk).2 m' hm' hclaim.1⟩

/-- The watcher reports the first packet that claims the address exactly if that packet does not ask for
the address. -/
theorem reports_first_iff (client : BitVec 48) (ip : BitVec 32) (answers : Nat → Heard) :
    (∀ n, ReportsAt client ip answers n ↔ ∃ m, FirstClaim client ip answers n m) ↔
      ∀ n m, FirstClaim client ip answers n m → m.tInaddr ≠ ip := by
  constructor
  · intro h n m hfirst
    obtain ⟨_, m', hm', _, hne⟩ := (reportsAt_iff n).mp ((h n).mpr ⟨m, hfirst⟩)
    rw [hfirst.1] at hm'
    cases hm'
    exact hne
  · intro h n
    rw [reportsAt_iff]
    constructor
    · rintro ⟨hwatch, m, hm, hclaim, hne⟩
      refine ⟨m, hm, hclaim, fun k hk => ⟨(hwatch k hk).1, ?_⟩⟩
      -- an earlier claim would be the first one of all, and be reported
      induction k using Nat.strong_induction_on with
      | _ k ih =>
          intro m' hm' hclaim'
          have hfirst : FirstClaim client ip answers k m' :=
            ⟨hm', hclaim', fun j hj => ⟨(hwatch j (hj.trans hk)).1, ih j hj (hj.trans hk)⟩⟩
          exact (hwatch k hk).2 m' hm' ⟨hclaim', h k m' hfirst⟩
    · rintro ⟨m, hfirst⟩
      exact ⟨hfirst.watching, m, hfirst.1, hfirst.2.1, h n m hfirst⟩

/-- Another machine announces the address of the watcher. -/
def announcement : ArpMessage := ⟨0x0806, 1, 0x2b, 0x0105fea9, 0x0105fea9⟩

/-- The packet comes in round 1, and nothing comes after it. -/
def hears (m : ArpMessage) (stage : Stage) : Nat → Heard
  | 0 => ⟨.ready, none, stage, stage⟩
  | 1 => ⟨.timeout, some m, stage, stage⟩
  | _ => ⟨.timeout, none, stage, stage⟩

theorem recvAt_hears {m : ArpMessage} {stage : Stage} {n : Nat} {r : Option ArpMessage}
    (h : recvAt (hears m stage) n = some r) : n = 1 ∧ r = some m := by
  match n with
  | 0 => cases h
  | 1 => cases h; exact ⟨rfl, rfl⟩
  | n + 2 => cases n <;> simp [recvAt, waitsFor, hears, next] at h

theorem announcement_not_reported :
    FirstClaim 0x1a 0x0105fea9 (hears announcement .flagged) 1 announcement ∧
      ∀ n, ¬ ReportsAt 0x1a 0x0105fea9 (hears announcement .flagged) n := by
  refine ⟨⟨rfl, ⟨rfl, by decide, rfl⟩, fun k hk => ?_⟩, fun n => ?_⟩
  · obtain rfl : k = 0 := by omega
    exact ⟨by decide, by simp [recvAt, waitsFor]⟩
  · rw [reportsAt_iff]
    rintro ⟨_, m, hm, _, hne⟩
    obtain ⟨_, hm⟩ := recvAt_hears hm
    cases hm
    exact hne rfl

/-! ## Replies -/

/-- The watcher sends the message in round `n`. -/
def SendsAt (client : BitVec 48) (ip : BitVec 32) (answers : Nat → Heard) (n : Nat) (msg : ArpReply) : Prop :=
  ∃ st st', head (defendPass client ip) answers ⟨.select, []⟩ n = some st ∧
    head (defendPass client ip) answers ⟨.select, []⟩ (n + 1) = some st' ∧ st'.sent = st.sent ++ [msg]

theorem sendsAt_iff {n : Nat} {msg : ArpReply} :
    SendsAt client ip answers n msg ↔
      Watching client ip answers n ∧ ∃ m, recvAt answers n = some (some m) ∧ ProbesFor client ip m ∧
        m.sInaddr = m.tInaddr ∧ (answers n).tested ≠ .flagged ∧
          msg = sendReplyForArpProbe client ip m.sHaddr := by
  constructor
  · rintro ⟨st, st', hst, hst', hsent⟩
    obtain ⟨u, hu, hpass⟩ := head_succ.mp hst'
    rw [hst] at hu
    cases hu
    rw [defendPass_eq (head_waiting hst)] at hpass
    refine ⟨(head_isSome_iff n).mp ⟨st, hst⟩, ?_⟩
    split at hpass
    · cases hpass; simp at hsent
    · cases hpass
    · rename_i m hm
      split at hpass
      · cases hpass
      · rename_i msg' hreply
        cases hpass
        obtain rfl : msg' = msg := by simpa using hsent
        obtain ⟨hprobe, hsame, hset, hmsg⟩ := handle_reply_iff.mp hreply
        exact ⟨m, hm, hprobe, hsame, of_decide_eq_false hset, hmsg⟩
      · cases hpass; simp at hsent
  · rintro ⟨hwatch, m, hm, hprobe, hsame, hset, rfl⟩
    obtain ⟨st, hst⟩ := (head_isSome_iff n).mpr hwatch
    have hreply := handle_reply_iff.mpr ⟨hprobe, hsame, decide_eq_false hset, rfl⟩
    have hpass := @defendPass_eq client ip answers n st (head_waiting hst)
    simp only [hm, hreply] at hpass
    exact ⟨st, _, hst, head_succ.mpr ⟨st, hst, hpass⟩, rfl⟩

/-- Before the address is on the interface the watcher answers every probe for it, and none after that,
exactly if no probe comes from 0.0.0.0, and none from the address itself while the configuring thread
goes on to the interface and the flag. -/
theorem replies_iff (client : BitVec 48) (ip : BitVec 32) (answers : Nat → Heard) :
    ((∀ n m, Watching client ip answers n → recvAt answers n = some (some m) → ProbesFor client ip m →
          (answers n).heard = .configuring →
            SendsAt client ip answers n (sendReplyForArpProbe client ip m.sHaddr)) ∧
        ∀ n msg, SendsAt client ip answers n msg → (answers n).tested = .configuring) ↔
      ∀ n m, Watching client ip answers n → recvAt answers n = some (some m) → ProbesFor client ip m →
        ((answers n).heard = .configuring → m.sInaddr = ip ∧ (answers n).tested ≠ .flagged) ∧
          (m.sInaddr = ip → (answers n).tested ≠ .onInterface) := by
  constructor
  · rintro ⟨hall, hnone⟩ n m hwatch hm hprobe
    have htarget : m.tInaddr = ip := hprobe.2.2.2.1
    refine ⟨fun hheard => ?_, fun hsame hon => ?_⟩
    · obtain ⟨_, m', hm', _, hsame, hset, _⟩ := sendsAt_iff.mp (hall n m hwatch hm hprobe hheard)
      rw [hm] at hm'
      cases hm'
      exact ⟨hsame.trans htarget, hset⟩
    · have hsends := sendsAt_iff.mpr
        ⟨hwatch, m, hm, hprobe, hsame.trans htarget.symm, by rw [hon]; decide, rfl⟩
      have := hnone n _ hsends
      rw [hon] at this
      cases this
  · intro h
    refine ⟨fun n m hwatch hm hprobe hheard => ?_, fun n msg hsends => ?_⟩
    · obtain ⟨hsame, hset⟩ := (h n m hwatch hm hprobe).1 hheard
      exact sendsAt_iff.mpr ⟨hwatch, m, hm, hprobe, hsame.trans hprobe.2.2.2.1.symm, hset, rfl⟩
    · obtain ⟨hwatch, m, hm, hprobe, hsame, hset, _⟩ := sendsAt_iff.mp hsends
      have hon := (h n m hwatch hm hprobe).2 (hsame.trans hprobe.2.2.2.1)
      cases hstage : (answers n).tested with
      | configuring => rfl
      | onInterface => exact absurd hstage hon
      | flagged => exact absurd hstage hset

/-- Another machine probes for the address that is being set up. -/
def probeFromNobody : ArpMessage := ⟨0x0806, 1, 0x2b, 0, 0x0105fea9⟩

theorem probe_not_answered :
    recvAt (hears probeFromNobody .configuring) 1 = some (some probeFromNobody) ∧
      ProbesFor 0x1a 0x0105fea9 probeFromNobody ∧
        Watching 0x1a 0x0105fea9 (hears probeFromNobody .configuring) 1 ∧
      ∀ n msg, ¬ SendsAt 0x1a 0x0105fea9 (hears probeFromNobody .configuring) n msg := by
  refine ⟨rfl, ⟨rfl, by decide, rfl, rfl, Or.inl rfl⟩, fun k hk => ?_, fun n msg hsends => ?_⟩
  · obtain rfl : k = 0 := by omega
    exact ⟨by decide, by simp [recvAt, waitsFor]⟩
  · obtain ⟨_, m, hm, _, hsame, _⟩ := sendsAt_iff.mp hsends
    obtain ⟨_, hm⟩ := recvAt_hears hm
    cases hm
    exact absurd hsame (by decide)

end CameraFw.AutoIp
