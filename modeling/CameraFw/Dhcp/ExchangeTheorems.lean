import CameraFw.Dhcp.Exchange
import CameraFw.Dhcp.OptionsTheorems

/-!
# How an exchange with a server ends

`dhcpSendAndRecv` returns with the first reply that has the type it waits for or is a NAK. What it
leaves in the table is what the replies with its transaction say, whatever other frames arrive, and it
waits longer after each message up to a limit.
-/

namespace CameraFw.Dhcp

open CameraFw.Base

/-! ## Frames -/

section Frames

variable {q : Request} {f : List UInt8} {len : Nat} {r : Reply}

theorem fetch_eq_some {off n : Nat} {bs : List UInt8} :
    fetch f off n = some bs ↔ off + n ≤ f.length ∧ load f off n = bs := by
  simp [fetch]

theorem length_fetch {off n : Nat} {bs : List UInt8} (h : fetch f off n = some bs) : bs.length = n := by
  obtain ⟨hle, rfl⟩ := fetch_eq_some.mp h
  exact length_load hle

theorem length_udpchk {n : Nat} {save : List UInt8} {res : Int × List UInt8} (hf : 34 ≤ f.length)
    (hs : save.length = 20) (h : udpchk f n save = some res) : res.2.length = f.length := by
  simp only [udpchk, Option.bind_eq_bind, Option.bind_eq_some_iff] at h
  obtain ⟨sum, hsum, h⟩ := h
  have hlen := (fetch_eq_some.mp hsum).1
  split at h
  · cases h; rfl
  · obtain ⟨ulen, hulen, h⟩ := Option.bind_eq_some_iff.mp h
    obtain ⟨covered, _, h⟩ := Option.bind_eq_some_iff.mp h
    have h9 : (store f n (List.replicate 9 0)).length = f.length :=
      length_store (by rw [List.length_replicate]; omega)
    have hover : (store (store f n (List.replicate 9 0)) (n + 10) ulen).length = f.length :=
      (length_store (by rw [length_fetch hulen, h9]; omega)).trans h9
    split at h
    · cases h; exact hover
    · cases h
      exact (length_store (by rw [hs, hover, ETH_HLEN]; omega)).trans hover

theorem length_udpipchk {res : Int × List UInt8} (h : udpipchk f = some res) : res.2.length = f.length := by
  simp only [udpipchk, Option.bind_eq_bind, Option.bind_eq_some_iff] at h
  obtain ⟨header, hheader, h⟩ := h
  have hlen := (fetch_eq_some.mp hheader).1
  split at h
  · cases h; rfl
  · obtain ⟨save, hsave, h⟩ := Option.bind_eq_some_iff.mp h
    split at h
    · cases h
    · have hkeep : (if ipHl f ≠ 20 then store f (ETH_HLEN + ipHl f - 20) save else f).length = f.length := by
        split
        · exact length_store (by rw [length_fetch hsave]; omega)
        · rfl
      exact (length_udpchk (by rw [hkeep]; exact (fetch_eq_some.mp hsave).1)
        (length_fetch hsave) h).trans hkeep

theorem ipHl_le (f : List UInt8) : ipHl f ≤ 60 := by
  rw [ipHl]
  omega

/-- What is known of a reply that has been accepted. -/
theorem sort_reply (h : sort q f len = .reply r) :
    r.frame.length = f.length ∧ r.hl ≤ 60 ∧ r.ciaddr = q.ciaddr ∧ answers q r.frame r.hl := by
  rw [sort] at h
  split at h
  · split at h
    · cases h
    · rename_i c f' hchk
      have hf : f'.length = f.length := by
        split at hchk
        · exact length_udpipchk hchk
        · cases hchk; rfl
      split at h
      · cases h
      · split at h
        · rename_i hans
          cases h
          exact ⟨hf, ipHl_le f, rfl, hans⟩
        · cases h
  · cases h

end Frames

/-- The type of the last message that had one. -/
def OptionMap.type (m : OptionMap) : Option UInt8 := (m dhcpMessageType).bind List.head?

theorem OptionMap.headD_eq_type (m : OptionMap) : ((m dhcpMessageType).getD []).headD 0 = m.type.getD 0 := by
  rw [type]
  cases m dhcpMessageType with
  | none => rfl
  | some b => cases b <;> rfl

/-- The table's block and what the table says have the same first byte. -/
theorem DhcpOptions.Ok.type {t : DhcpOptions} (h : t.Ok) :
    (t.val dhcpMessageType).bind List.head? = t.view.type := by
  rw [OptionMap.type, view]
  cases hv : t.val dhcpMessageType with
  | none => rfl
  | some b =>
      have hpos : (t.len dhcpMessageType).toNat ≠ 0 := fun h0 => (h.block _ b hv).1 (UInt8.toNat_inj.mp h0)
      obtain ⟨k, hk⟩ := Nat.exists_eq_succ_of_ne_zero hpos
      simp only [Option.map_some, Option.bind_some, hk]
      cases b <;> rfl

/-- How an exchange ends when the table has this type after a reply. -/
def verdict (msg : UInt8) : Option UInt8 → Option Outcome
  | none => some .fault
  | some type =>
      if type = msg then some (.returned 0) else if type = DHCP_NAK then some (.returned 1) else none

theorem judge_eq {p : Parsed} {msg : UInt8} (hok : p.options.Ok)
    (htype : p.type = ((p.options.view dhcpMessageType).getD []).headD 0) (hmsg : msg ≠ 0) :
    judge msg p = verdict msg p.options.view.type := by
  rw [OptionMap.headD_eq_type] at htype
  rw [judge, hok.type, htype]
  cases p.options.view.type with
  | none => exact if_neg hmsg.symm
  | some type => rfl

/-! ## Rounds -/

section Rounds

variable {q : Request} {a : Round} {st st' : ExchangeSt} {e : ExchangeEnd}

/-- The reply that a round hears, if it is one that receives. -/
def Round.heard (q : Request) (a : Round) (st : ExchangeSt) : Option Reply :=
  match st.phase, a.received with
  | .receive, some (f, len) =>
      match sort q f len with
      | .reply r => some r
      | _ => none
  | _, _ => none

/-- The message cannot be sent, or nothing can be received. -/
def Round.Fails (a : Round) (st : ExchangeSt) : Prop :=
  match st.phase with
  | .send => a.sent = false
  | .receive => a.received = none

/-- What a round does that hears nothing. -/
theorem exchangePass_silent (h : a.heard q st = none) :
    (st.phase = .send ∧ ∃ w phase, exchangePass q a st =
      .again { st with j := nextRto q.msg st.j, waits := st.waits ++ [w], phase := phase } ∧
      nextRto q.msg st.j ≤ w ∧ w < nextRto q.msg st.j + 200000) ∨
    (exchangePass q a st = .again (st.goOn a)) ∨
    (exchangePass q a st = .leave (st.finish (.returned (-1))) ∧ a.Fails st) ∨
    (exchangePass q a st = .leave (st.finish .fault) ∧ ∃ f len, a.received = some (f, len) ∧
      sort q f len = .fault) := by
  cases hp : st.phase with
  | send =>
      by_cases hs : a.sent = true
      · refine .inl ⟨rfl, nextRto q.msg st.j + (if q.msg = DHCP_OFFER then 200000 else a.random) % 200000,
        if a.waited then .send else .receive, ?_, ?_, ?_⟩
        · simp only [exchangePass, hp, hs, if_true]
        · omega
        · have := Nat.mod_lt (if q.msg = DHCP_OFFER then 200000 else a.random) (show 0 < 200000 by decide)
          omega
      · refine .inr (.inr (.inl ⟨by simp only [exchangePass, hp, hs]; rfl, ?_⟩))
        simpa only [Round.Fails, hp, Bool.not_eq_true] using hs
  | receive =>
      cases hr : a.received with
      | none =>
          exact .inr (.inr (.inl ⟨by simp only [exchangePass, hp, hr], by simp only [Round.Fails, hp, hr]⟩))
      | some fl =>
          obtain ⟨f, len⟩ := fl
          simp only [Round.heard, hp, hr] at h
          cases hsort : sort q f len with
          | discarded => exact .inr (.inl (by simp only [exchangePass, hp, hr, hsort]))
          | fault => exact .inr (.inr (.inr ⟨by simp only [exchangePass, hp, hr, hsort], f, len, rfl, hsort⟩))
          | reply r => rw [hsort] at h; cases h

theorem exchangePass_heard {r : Reply} (h : a.heard q st = some r) :
    exchangePass q a st = st.handle q a r ∧ ∃ f len, a.received = some (f, len) ∧
      sort q f len = .reply r := by
  cases hp : st.phase with
  | send => simp [Round.heard, hp] at h
  | receive =>
      cases hr : a.received with
      | none => simp [Round.heard, hp, hr] at h
      | some fl =>
          obtain ⟨f, len⟩ := fl
          simp only [Round.heard, hp, hr] at h
          cases hsort : sort q f len with
          | discarded => rw [hsort] at h; cases h
          | fault => rw [hsort] at h; cases h
          | reply r' =>
              rw [hsort] at h
              cases h
              exact ⟨by simp only [exchangePass, hp, hr, hsort], f, len, rfl, hsort⟩

/-- What is done with a reply, from what it says. -/
theorem handle_spec {r : Reply} (hr : r.Ok) (hnl : q.nleaseTime.length = 4) (hopt : st.options.Ok)
    (hmsg : q.msg ≠ 0) :
    ((r.received st.options.view).Faulty →
      st.handle q a r = .leave ({ st with replies := st.replies ++ [r] }.finish .fault)) ∧
    (¬ (r.received st.options.view).Faulty → ∃ t :
      DhcpOptions, t.Ok ∧ t.view = r.learned q.nleaseTime st.options.view ∧
      (∀ o, verdict q.msg t.view.type = some o →
        st.handle q a r = .leave ({ st with options := t, replies := st.replies ++ [r] }.finish o)) ∧
      (verdict q.msg t.view.type = none →
        st.handle q a r = .again ({ st with options := t, replies := st.replies ++ [r] }.goOn a))) := by
  obtain ⟨hbad, hgood⟩ := parseDhcpMsgRecv_spec hr hnl hopt
  constructor
  · intro hf
    simp only [ExchangeSt.handle, hbad hf]
  · intro hf
    obtain ⟨p, hp, hok, hview, htype⟩ := hgood hf
    have hjudge := judge_eq hok htype hmsg
    refine ⟨p.options, hok, hview, ?_, ?_⟩
    · intro o ho
      simp only [ExchangeSt.handle, hp, hjudge, ho]
    · intro ho
      simp only [ExchangeSt.handle, hp, hjudge, ho]

end Rounds

/-! ## Whole exchanges -/

/-- How the exchange ends with the last of these replies, if it does. -/
def verdictAfter (q : Request) (m : OptionMap) (rs : List Reply) : Option Outcome :=
  ((learnAll q.nleaseTime rs m).map fun m => verdict q.msg m.type).getD (some .fault)

def start (t : DhcpOptions) : ExchangeSt := ⟨.send, DHCP_INITIAL_RTO / 2, t, [], []⟩

/-- The reply that is heard in round `i`. -/
def heardIn (q : Request) (t : DhcpOptions) (rounds : Nat → Round) (i : Nat) : Option Reply :=
  (head (exchangePass q) rounds (start t) i).bind (rounds i |>.heard q)

section Runs

variable {q : Request} {t : DhcpOptions} {rounds : Nat → Round}

/-- The state in front of round `n`. -/
structure Open (q : Request) (t : DhcpOptions) (rounds : Nat → Round) (n : Nat) (st : ExchangeSt) : Prop where
  here : head (exchangePass q) rounds (start t) n = some st
  ok : st.options.Ok
  heard : st.replies = (List.range n).filterMap (heardIn q t rounds)
  learned : learnAll q.nleaseTime st.replies t.view = some st.options.view
  undecided : ∀ k, 0 < k → k ≤ st.replies.length → verdictAfter q t.view (st.replies.take k) = none

theorem learnAll_snoc {nl : List UInt8} {rs : List Reply} {m m' : OptionMap}
    (h : learnAll nl rs m = some m') (r : Reply) :
    learnAll nl (rs ++ [r]) m = if (r.received m').Faulty then none else some (r.learned nl m') := by
  rw [learnAll_append, h, Option.bind_some, learnAll, List.foldlM_cons]
  split <;> rfl

theorem Open.heardIn {n : Nat} {st : ExchangeSt} (h : Open q t rounds n st) :
    heardIn q t rounds n = (rounds n).heard q st := by
  rw [Dhcp.heardIn, h.here, Option.bind_some]

theorem Open.filterMap {n : Nat} {st : ExchangeSt} (h : Open q t rounds n st) :
    (List.range (n + 1)).filterMap (Dhcp.heardIn q t rounds) = st.replies ++
      ((rounds n).heard q st).toList := by
  rw [List.range_succ, List.filterMap_append, ← h.heard, List.filterMap_cons, h.heardIn]
  cases (rounds n).heard q st <;> rfl

variable (hnl : q.nleaseTime.length = 4) (hmsg : q.msg ≠ 0) (hci : q.ciaddr.length = 4)
  (hsize : ∀ i f len, (rounds i).received = some (f, len) → f.length = FRAME_SIZE)

include hnl hmsg hci hsize

/-- What a round does that hears a reply, in front of which the exchange is open. -/
theorem Open.reply {n : Nat} {st : ExchangeSt} (h : Open q t rounds n st) {r : Reply}
    (hr : (rounds n).heard q st = some r) :
    (∃ e, exchangePass q (rounds n) st = .leave e ∧ e.replies = st.replies ++ [r] ∧
      verdictAfter q t.view (st.replies ++ [r]) = some e.outcome ∧
      (e.outcome ≠ .fault → learnAll q.nleaseTime (st.replies ++ [r]) t.view = some e.options.view)) ∨
    (∃ st', exchangePass q (rounds n) st = .again st' ∧ st'.options.Ok ∧ st'.replies = st.replies ++ [r] ∧
      learnAll q.nleaseTime st'.replies t.view = some st'.options.view ∧
      verdictAfter q t.view (st.replies ++ [r]) = none) := by
  obtain ⟨hpass, f, len, hrec, hsort⟩ := exchangePass_heard hr
  obtain ⟨hlen, hhl, hciaddr, _⟩ := sort_reply hsort
  have hok : r.Ok := ⟨hlen.trans (hsize n f len hrec), hhl, by rw [hciaddr, hci]⟩
  have hlearn := learnAll_snoc h.learned r
  obtain ⟨hbad, hgood⟩ := handle_spec (a := rounds n) hok hnl h.ok hmsg
  rw [hpass]
  by_cases hf : (r.received st.options.view).Faulty
  · rw [if_pos hf] at hlearn
    exact .inl ⟨_, hbad hf, rfl, by rw [verdictAfter, hlearn]; rfl, fun hne => absurd rfl hne⟩
  · obtain ⟨t', ht', hview, hleave, hagain⟩ := hgood hf
    rw [if_neg hf, ← hview] at hlearn
    have hverdict : verdictAfter q t.view (st.replies ++ [r]) = verdict q.msg t'.view.type := by
      rw [verdictAfter, hlearn]; rfl
    cases hv : verdict q.msg t'.view.type with
    | none => exact .inr ⟨_, hagain hv, ht', rfl, hlearn, hverdict.trans hv⟩
    | some o => exact .inl ⟨_, hleave o hv, rfl, hverdict.trans hv, fun _ => hlearn⟩

end Runs

/-- A frame with a message of this transaction and type. -/
def frameWith (xid : List UInt8) (type : UInt8) : List UInt8 :=
  List.replicate 12 0 ++ [8, 0, 0x45, 0, 1, 72, 0, 0, 0, 0, 64, 17] ++ List.replicate 14 0 ++
    [1, 52, 0, 0, 2, 1, 6, 0] ++
    xid ++ List.replicate 232 0 ++ [53, 1, type, 255] ++ List.replicate 1228 0

/-- The client waits for an ACK of transaction 7. A message is sent, a NAK of another transaction comes
in, and then the ACK. -/
def renewal : Request := ⟨7, DHCP_ACK, [192, 168, 0, 9], false, [255, 255, 255, 255]⟩

def twoServers (i : Nat) : Round :=
  ⟨true, 0, false, some (frameWith (if i = 1 then [8, 0, 0, 0] else [7, 0, 0, 0])
    (if i = 1 then DHCP_NAK else DHCP_ACK), 342), 0, true⟩

/-- How long the client waits for replies to the message of this number, apart from the random part. -/
def rto (msg : UInt8) (k : Nat) : Nat :=
  if msg = DHCP_OFFER then 3000000 else min (DHCP_INITIAL_RTO * 2 ^ k) DHCP_MAX_RTO

theorem nextRto_rto (msg : UInt8) (k : Nat) : nextRto msg (rto msg k) = rto msg (k + 1) := by
  unfold nextRto rto
  split
  · rfl
  · simp only [Nat.pow_succ, DHCP_INITIAL_RTO, DHCP_MAX_RTO]
    omega

/-- What is known of the times that have been waited. -/
structure Paced (msg : UInt8) (st : ExchangeSt) : Prop where
  next : nextRto msg st.j = rto msg st.waits.length
  waits : ∀ k w, st.waits[k]? = some w → rto msg k ≤ w ∧ w < rto msg k + 200000

theorem Paced.sent {msg : UInt8} {st : ExchangeSt} (h : Paced msg st) {w : Nat} (hle : nextRto msg st.j ≤ w)
    (hlt : w < nextRto msg st.j + 200000) (p : Phase) :
    Paced msg { st with j := nextRto msg st.j, waits := st.waits ++ [w], phase := p } where
  next := by rw [List.length_append, List.length_singleton, h.next, nextRto_rto]
  waits := by
    intro k v hv
    rcases Nat.lt_trichotomy k st.waits.length with hk | rfl | hk
    · exact h.waits k v (by rwa [List.getElem?_append_left hk] at hv)
    · rw [List.getElem?_concat_length] at hv
      cases hv
      rw [← h.next]
      exact ⟨hle, hlt⟩
    · rw [List.getElem?_eq_none (by simpa using hk)] at hv
      cases hv

end CameraFw.Dhcp
