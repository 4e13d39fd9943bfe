import CameraFw.Dhcp.ExchangeTheorems
import CameraFw.Dhcp.Lease

/-!
# How long the client keeps its address

With sensible times in every ACK the client is in `dhcpBound`, `dhcpRenew` or `dhcpRebind` only until
its lease ends. An alarm that one of them has set stays set when a request is refused, and ends a client
that has not got a new lease by then.
-/

namespace CameraFw.Dhcp

open CameraFw.Base

/-! ## Exchanges -/

section Exchange

variable {s : Settings} {c : Client} {q : Request}

/-- The events that a sequence of replies is for the client. -/
def replyEvents (rs : List Reply) (configured : Bool) : List Event := rs.map fun r => .heard r configured

/-- A reply is to the client what it is to `dhcpSendAndRecv`. -/
theorem step_heard (hnl : q.nleaseTime = s.nleaseTime) (hmsg : c.point.msg = some q.msg) (a : Round)
    (st : ExchangeSt) (r : Reply) (configured : Bool) :
    (∃ e, st.handle q a r = .leave e ∧ e.replies = st.replies ++ [r] ∧
      Client.step s { c with options := st.options } (.heard r configured)
        = some ({ c with options := e.options }.ended e.outcome configured)) ∨
    (∃ st', st.handle q a r = .again st' ∧ st'.replies = st.replies ++ [r] ∧
      Client.step s { c with options := st.options } (.heard r configured) =
        some { c with options := st'.options }) := by
  simp only [ExchangeSt.handle, Client.step, hmsg, Option.map_some, Client.hear, ← hnl]
  cases parseDhcpMsgRecv q.nleaseTime r st.options with
  | none => exact .inl ⟨_, rfl, rfl, rfl⟩
  | some p =>
      cases hj : judge q.msg p with
      | none =>
          simp only [hj]
          exact .inr ⟨_, rfl, rfl, rfl⟩
      | some o =>
          simp only [hj]
          exact .inl ⟨_, rfl, rfl, rfl⟩

theorem Client.returned_failed (c : Client) (configured : Bool) :
    c.returned (-1) configured = c.returned (-1) false := by
  unfold Client.returned
  split <;> rfl

/-- A call of `dhcpSendAndRecv` is to the client the replies that it hears, and the error that ends it
if none of them does. -/
theorem run_exchange (s : Settings) (c : Client) (q : Request) (rounds : Nat → Round) (fuel : Nat)
    (e : ExchangeEnd) (configured : Bool) (hnl : q.nleaseTime = s.nleaseTime)
    (hmsg : c.point.msg = some q.msg) (h : dhcpSendAndRecv q c.options rounds fuel = some e) :
    ∃ tail, (tail = [] ∨ tail = [.failed] ∨ tail = [.corrupted]) ∧
      run (Client.step s) c (replyEvents e.replies configured ++ tail)
        = some ({ c with options := e.options }.ended e.outcome configured) := by
  obtain ⟨n, st, _, hst, hpass⟩ := whileLoop_eq_some.mp h
  have hsome : c.point.msg.isSome = true := by rw [hmsg]; rfl
  have hrun : run (Client.step s) c (replyEvents st.replies configured) =
      some { c with options := st.options } := by
    refine head_inv (fun _ st => run (Client.step s) c (replyEvents st.replies configured) =
      some { c with options := st.options }) rfl ?_ n st hst
    intro n st st' hi hagain
    cases hr : (rounds n).heard q st with
    | none =>
        obtain ⟨_, w, phase, he, _⟩ | he | ⟨he, _⟩ | ⟨he, _⟩ := exchangePass_silent hr
        all_goals rw [he] at hagain; cases hagain
        · exact hi
        · exact hi
    | some r =>
        rw [(exchangePass_heard hr).1] at hagain
        obtain ⟨e, he, _⟩ | ⟨st'', he, hreplies, hstep⟩ := step_heard hnl hmsg (rounds n) st r configured
        all_goals rw [he] at hagain; cases hagain
        rw [hreplies, replyEvents, List.map_append, run_append, ← replyEvents, hi, Option.bind_some]
        simp only [List.map_cons, List.map_nil, run, hstep]
  cases hr : (rounds n).heard q st with
  | none =>
      obtain ⟨_, w, phase, he, _⟩ | he | ⟨he, _⟩ | ⟨he, _⟩ := exchangePass_silent hr
      all_goals rw [he] at hpass; cases hpass
      · refine ⟨[.failed], .inr (.inl rfl), ?_⟩
        rw [run_append, show (st.finish (.returned (-1))).replies = st.replies from rfl, hrun,
          Option.bind_some]
        simp only [run, Client.step, if_pos hsome]
        exact congrArg some (Client.returned_failed _ configured).symm
      · refine ⟨[.corrupted], .inr (.inr rfl), ?_⟩
        rw [run_append, show (st.finish .fault).replies = st.replies from rfl, hrun, Option.bind_some]
        simp only [run, Client.step, if_pos hsome]
        rfl
  | some r =>
      rw [(exchangePass_heard hr).1] at hpass
      obtain ⟨e', he, hreplies, hstep⟩ | ⟨st'', he, _⟩ := step_heard hnl hmsg (rounds n) st r configured
      all_goals rw [he] at hpass; cases hpass
      refine ⟨[], .inl rfl, ?_⟩
      rw [List.append_nil, hreplies, replyEvents, List.map_append, run_append, ← replyEvents, hrun,
        Option.bind_some]
      simp only [List.map_cons, List.map_nil, run, hstep]

theorem run_exchange_two_servers :
    ∃ e tail, dhcpSendAndRecv renewal .released twoServers 3 = some e ∧
      run (Client.step ⟨60, [255, 255, 255, 255]⟩) ((started ⟨60, [255, 255, 255, 255]⟩ 0).stopAt .requesting)
          (replyEvents e.replies true ++ tail)
        = some ({ (started ⟨60,
          [255, 255, 255, 255]⟩ 0).stopAt .requesting with options := e.options }.ended e.outcome true) := by
  obtain ⟨e, he⟩ := Option.isSome_iff_exists.mp
    (show (dhcpSendAndRecv renewal .released twoServers 3).isSome = true by decide +kernel)
  obtain ⟨tail, _, hrun⟩ := run_exchange ⟨60, [255, 255, 255, 255]⟩
    ((started ⟨60, [255, 255, 255, 255]⟩ 0).stopAt .requesting) renewal twoServers 3 e true rfl rfl he
  exact ⟨e, tail, he, hrun⟩

end Exchange

/-! ## The times of the table -/

/-- The times of an ACK that make sense; the client computes with `int`. -/
def OptionMap.Timed (m : OptionMap) : Prop :=
  m.seconds dhcpT1value ≤ m.seconds dhcpT2value ∧ m.seconds dhcpT2value ≤ m.seconds dhcpIPaddrLeaseTime ∧
    0 < m.seconds dhcpIPaddrLeaseTime ∧ m.seconds dhcpIPaddrLeaseTime < 2 ^ 31

instance (m : OptionMap) : Decidable m.Timed := by unfold OptionMap.Timed; infer_instance

/-- The codes of the three times. -/
def IsTime (c : UInt8) : Prop := c = dhcpT1value ∨ c = dhcpT2value ∨ c = dhcpIPaddrLeaseTime

def OptionMap.HasTimes (m : OptionMap) : Prop := ∀ c, IsTime c → ∃ d, m c = some d ∧ d.length = 4

theorem Reply.hasTimes_learned {nl : List UInt8} (hnl : nl.length = 4) (r : Reply) (m : OptionMap) :
    (r.learned nl m).HasTimes := by
  rintro c (rfl | rfl | rfl)
  · rw [Reply.learned, OptionMap.complete_T1]
    exact OptionMap.time_self _ _ (length_htonl _)
  · rw [Reply.learned, OptionMap.complete_T2]
    exact OptionMap.time_self _ _ (length_htonl _)
  · rw [Reply.learned, OptionMap.complete_lease]
    exact OptionMap.time_self _ _ hnl

/-- A time of the table as the client reads it. -/
theorem Client.seconds_eq {c : Client} (h : c.options.Ok) (ht : c.options.view.HasTimes)
    {code : UInt8} (hc : IsTime code) :
    c.seconds code = some (c.options.view.seconds code) := by
  obtain ⟨d, hd, hlen⟩ := ht code hc
  have hshort : ¬ c.options.view.Short code := by
    rintro ⟨d', hd', hlt⟩
    rw [hd] at hd'
    cases hd'
    omega
  rw [Client.seconds, h.first4 (by rw [hd]; exact Option.some_ne_none d) hshort]
  rfl

/-! ## The invariant -/

/-- The client has an address. -/
def StateFn.holds : StateFn → Bool
  | .dhcpBound | .dhcpRenew | .dhcpRebind => true
  | _ => false

/-- The points of a state function, apart from the ends. -/
def StateFn.allows : StateFn → Point → Bool
  | _, .calling | _, .exited _ | _, .undefined => true
  | .dhcpBound, .sleeping => true
  | .dhcpRenew, .requesting | .dhcpRebind, .requesting | .dhcpReboot, .requesting => true
  | .dhcpInit, .requesting | .dhcpInit, .discovering _ => true
  | _, _ => false

namespace Client

/-- What is known of a client with an address. An alarm of an earlier lease is still there only in the
second of the ACK. -/
structure Held (c : Client) : Prop where
  daemon : c.daemon = true
  times : c.options.view.HasTimes
  timed : c.options.view.Timed
  ends : c.leaseEnd = c.reqSentTime + c.options.view.seconds dhcpIPaddrLeaseTime
  after : c.reqSentTime ≤ c.now
  before : c.now ≤ c.leaseEnd
  calling : c.point = .calling → c.now = c.reqSentTime ∨ ∀ d, c.alarm = some d → d ≤ c.leaseEnd
  waiting : c.point.waiting = true → ∃ d, c.alarm = some d ∧ d ≤ c.leaseEnd

/-- A daemon without an address has at most an alarm of its last lease. -/
def Idle (c : Client) : Prop := c.daemon = true → ∀ d, c.alarm = some d → d ≤ c.leaseEnd

/-- What is known of every client. -/
structure Sane (c : Client) : Prop where
  table : c.options.Ok
  alarm : ∀ d, c.alarm = some d → c.now ≤ d
  boot : c.currState = .dhcpReboot → c.daemon = false

structure Sound (c : Client) : Prop extends Sane c where
  shape : c.currState.allows c.point = true
  held : c.currState.holds = true → c.point.running = true → c.Held
  idle : c.currState.holds = false → c.point.running = true → c.Idle
  killed : c.point = .exited 14 → c.daemon = true → c.now ≤ c.leaseEnd

variable {c : Client}

/-! ## Steps -/

theorem Sane.stopAt (h : c.Sane) {p : Point} (hp : p = .undefined ∨ p = .exited 0 ∨ p = .exited 1) :
    (c.stopAt p).Sound where
  table := h.table
  alarm := h.alarm
  boot := h.boot
  shape := by rcases hp with rfl | rfl | rfl <;> cases c.currState <;> rfl
  held := by rcases hp with rfl | rfl | rfl <;> exact fun _ hr => absurd hr Bool.false_ne_true
  idle := by rcases hp with rfl | rfl | rfl <;> exact fun _ hr => absurd hr Bool.false_ne_true
  killed := by rcases hp with rfl | rfl | rfl <;> exact fun hk => by cases hk

/-- The client has no address. -/
theorem Sane.idle (h : c.Sane) (hrun : c.point.running = true) (hf : c.currState.holds = false)
    (hshape : c.currState.allows c.point = true) (hidle : c.Idle) : c.Sound where
  toSane := h
  shape := hshape
  held := fun hh => absurd (hf.symm.trans hh) (by decide)
  idle := fun _ _ => hidle
  killed := fun hk => absurd hrun (by rw [hk]; decide)

/-- The client has an address. -/
theorem Sane.held (h : c.Sane) (hrun : c.point.running = true) (hf : c.currState.holds = true)
    (hshape : c.currState.allows c.point = true) (hheld : c.Held) : c.Sound where
  toSane := h
  shape := hshape
  held := fun _ _ => hheld
  idle := fun hh => absurd (hf.symm.trans hh) (by decide)
  killed := fun hk => absurd hrun (by rw [hk]; decide)

theorem Sane.enter (h : c.Sane) {f : StateFn} (hf : f.holds = false) (hboot : f ≠ .dhcpReboot)
    (hidle : c.Idle) :
    (c.enter f).Sound :=
  Sane.idle ⟨h.table, h.alarm, fun hb => absurd hb hboot⟩ rfl hf (by cases f <;> rfl) hidle

theorem Sane.enterHeld (h : c.Sane) {f : StateFn} (hf : f.holds = true) (hheld : (c.enter f).Held) :
    (c.enter f).Sound :=
  Sane.held ⟨h.table, h.alarm,
    fun hb => absurd hf (by rw [show f = .dhcpReboot from hb]; decide)⟩ rfl hf (by cases f <;> rfl) hheld

/-- Elsewhere in the same state function, with another table; the client has no address. -/
theorem Sound.rest (h : c.Sound) (hrun : c.point.running = true) (hf : c.currState.holds = false)
    {t : DhcpOptions} (ht : t.Ok) {p : Point} (hp : c.currState.allows p = true)
    (hend : p.running = true) : Sound { c with options := t, point := p } :=
  Sane.idle ⟨ht, h.alarm, h.boot⟩ hend hf hp (h.idle hf hrun)

/-- From one state with the address to the next. -/
theorem Held.enter (h : c.Held) (f : StateFn) {alarm : Option Nat}
    (hc : c.now = c.reqSentTime ∨ ∀ d, alarm = some d → d ≤ c.leaseEnd) :
    ({ c with alarm := alarm }.enter f).Held where
  daemon := h.daemon
  times := h.times
  timed := h.timed
  ends := h.ends
  after := h.after
  before := h.before
  calling := fun _ => hc
  waiting := fun hw => absurd hw Bool.false_ne_true

theorem Held.idle (h : c.Held) (hw : c.point.waiting = true) : ∀ d, c.alarm = some d → d ≤ c.leaseEnd := by
  intro d hd
  obtain ⟨d', hd', hle⟩ := h.waiting hw
  rw [hd] at hd'
  cases hd'
  exact hle

theorem Held.seconds_le (h : c.Held) {code : UInt8} (hc : IsTime code) :
    c.options.view.seconds code ≤ c.options.view.seconds dhcpIPaddrLeaseTime := by
  obtain ⟨h12, h2l, _, _⟩ := h.timed
  rcases hc with rfl | rfl | rfl
  · exact h12.trans h2l
  · exact h2l
  · exact le_rfl

/-- The alarm is set for the time of the lease that the state function waits for, unless that has passed. -/
theorem Held.armed_eq (h : c.Held) (htable : c.options.Ok) {code : UInt8} (hc : IsTime code)
    (p : Point) (next : StateFn) :
    c.armed code p next =
      if c.now < c.reqSentTime + c.options.view.seconds code then
        { c with alarm := some (c.reqSentTime + c.options.view.seconds code), point := p }
      else c.enter next := by
  have hle := h.seconds_le hc
  have hafter := h.after
  have hbefore := h.before
  have hends := h.ends
  obtain ⟨_, _, _, hlt⟩ := h.timed
  have hi : (((c.reqSentTime + c.options.view.seconds code : Nat) : Int) - c.now).bmod (2 ^ 32)
      = (c.reqSentTime + c.options.view.seconds code : Nat) - c.now :=
    Int.bmod_eq_of_le (by omega) (by omega)
  simp only [armed, seconds_eq htable h.times hc, hi]
  by_cases hpos : c.now < c.reqSentTime + c.options.view.seconds code
  · rw [if_pos (by omega), if_pos hpos]
    congr 2
    omega
  · rw [if_neg (by omega), if_neg hpos]

theorem Sound.armed (h : c.Sound) (hheld : c.Held) (hcall : c.point = .calling)
    (hholds : c.currState.holds = true) {code : UInt8} (hc : IsTime code) {p : Point} {next : StateFn}
    (hp : c.currState.allows p = true) (hwait : p.waiting = true)
    (hnext : next.holds = true ∨ next = .dhcpStop ∧ code = dhcpIPaddrLeaseTime) :
    (c.armed code p next).Sound := by
  have hends := hheld.ends
  have hle := hheld.seconds_le hc
  rw [hheld.armed_eq h.table hc]
  split
  · rename_i hlt
    refine Sane.held ⟨h.table, ?_, h.boot⟩ (by cases p <;> first | rfl | exact hwait) hholds hp
      { hheld with calling := ?_, waiting := ?_ }
    · intro d hd
      cases hd
      exact hlt.le
    · rintro rfl
      exact absurd hwait Bool.false_ne_true
    · exact fun _ => ⟨_, rfl, show c.reqSentTime + _ ≤ c.leaseEnd by omega⟩
  · rename_i hge
    have hcalling := hheld.calling hcall
    rcases hnext with hnext | ⟨rfl, rfl⟩
    · exact h.enterHeld hnext (hheld.enter next hcalling)
    · -- the lease has ended, so this is not the second of its ACK
      obtain ⟨_, _, hpos, _⟩ := hheld.timed
      exact h.enter rfl (by decide) fun _ => hcalling.resolve_left (by omega)

theorem Sound.call (h : c.Sound) (hcall : c.point = .calling) (ready cached : Bool) :
    (c.call ready cached).Sound := by
  obtain ⟨f, p, now, alarm, sent, t, daemon, ends⟩ := c
  cases hcall
  cases f with
  | dhcpReboot =>
      cases ready with
      | false => exact h.stopAt (.inr (.inr rfl))
      | true =>
          cases cached with
          | false =>
              exact (h.rest rfl rfl .released (p := .calling) rfl rfl).enter rfl (by decide) (h.idle rfl rfl)
          | true => exact h.rest rfl rfl .released rfl rfl
  | dhcpInit => exact h.rest rfl rfl .released (p := .discovering false) rfl rfl
  | dhcpBound => exact h.armed (h.held rfl rfl) rfl rfl (.inl rfl) rfl rfl (.inl rfl)
  | dhcpRenew => exact h.armed (h.held rfl rfl) rfl rfl (.inr (.inl rfl)) rfl rfl (.inl rfl)
  | dhcpRebind => exact h.armed (h.held rfl rfl) rfl rfl (.inr (.inr rfl)) rfl rfl (.inr ⟨rfl, rfl⟩)
  | dhcpStop =>
      exact (h.rest rfl rfl .released (p := .calling) rfl rfl).enter rfl (by decide) (h.idle rfl rfl)
  | dhcpStart =>
      cases ready with
      | false => exact h.stopAt (.inr (.inr rfl))
      | true => exact h.enter rfl (by decide) (h.idle rfl rfl)

/-! ## The alarm -/

theorem Sane.noAlarm (h : c.Sane) : Sane { c with alarm := none } :=
  ⟨h.table, (by intro d hd; cases hd), h.boot⟩

theorem Sane.jump {c' : Client} (h : c.Sane) (h' : c'.Sound) : (c.jump c').Sound := by
  rw [Client.jump]
  split
  · exact h.stopAt (.inl rfl)
  · exact h'

/-- A client without an address is ended by the alarm. -/
theorem Sound.timedOut (h : c.Sound) (hrun : c.point.running = true) (hf : c.currState.holds = false)
    {d : Nat} (hd : c.alarm = some d) : (stopAt { c with alarm := none } (.exited 14)).Sound where
  table := h.table
  alarm := h.noAlarm.alarm
  boot := h.boot
  shape := by cases c.currState <;> rfl
  held := fun _ hr => absurd hr Bool.false_ne_true
  idle := fun _ hr => absurd hr Bool.false_ne_true
  killed := fun _ hdaemon => (h.alarm d hd).trans (h.idle hf hrun hdaemon d hd)

theorem Sound.sigHandler (h : c.Sound) (s : Settings) (hrun : c.point.running = true) {d : Nat}
    (hd : c.alarm = some d) :
    ({ c with alarm := none }.sigHandler s).Sound := by
  obtain ⟨f, p, now, alarm, sent, t, daemon, ends⟩ := c
  have hsane := h.noAlarm
  cases f with
  | dhcpReboot =>
      have hset : Sane ⟨.dhcpReboot, p, now, some (now + s.timeOut), sent, t, daemon, ends⟩ :=
        ⟨h.table, (by intro d hd; cases hd; exact Nat.le_add_right now s.timeOut), h.boot⟩
      exact hsane.jump (hset.enter rfl (by decide) fun hdaemon =>
        absurd (hdaemon.symm.trans (h.boot rfl)) (by decide))
  | dhcpBound =>
      exact hsane.jump (hsane.enterHeld rfl ((h.held rfl hrun).enter .dhcpRenew
        (.inr (by intro d hd; cases hd))))
  | dhcpRenew =>
      exact hsane.jump (hsane.enterHeld rfl ((h.held rfl hrun).enter .dhcpRebind
        (.inr (by intro d hd; cases hd))))
  | dhcpRebind => exact hsane.jump (hsane.enter rfl (by decide) (by intro _ d hd; cases hd))
  | dhcpInit => exact h.timedOut hrun rfl hd
  | dhcpStop => exact h.timedOut hrun rfl hd
  | dhcpStart => exact h.timedOut hrun rfl hd

/-! ## Replies -/

theorem Sane.bind (h : c.Sane) (htimes : c.options.view.HasTimes) (htimed : c.options.view.Timed)
    (hnow : c.reqSentTime = c.now)
    (hends : c.leaseEnd = c.now + c.options.view.seconds dhcpIPaddrLeaseTime) : c.bind.Sound := by
  have hheld : ∀ alarm, Held ⟨.dhcpBound, .calling, c.now, alarm, c.reqSentTime, c.options, true,
    c.leaseEnd⟩ := fun alarm =>
    { daemon := rfl
      times := htimes
      timed := htimed
      ends := hnow ▸ hends
      after := hnow.le
      before := by rw [hends]; exact Nat.le_add_right _ _
      calling := fun _ => .inl hnow.symm
      waiting := fun hw => absurd hw Bool.false_ne_true }
  rw [Client.bind]
  split
  · rename_i hdaemon
    refine h.enterHeld rfl ?_
    have := hheld c.alarm
    rwa [← hdaemon] at this
  · refine Sane.held ⟨h.table, ?_, ?_⟩ rfl rfl rfl (hheld none)
    · intro d hd
      cases hd
    · intro hb
      cases hb

theorem Sane.bindServer (h : c.Sane) (hbind : c.bind.Sound) : c.bindServer.Sound := by
  rw [Client.bindServer]
  split
  · exact hbind
  · exact h.stopAt (.inl rfl)

/-- An ACK with sensible times. -/
theorem Sane.acknowledged (h : c.Sane) (htimes : c.options.view.HasTimes)
    (htimed : c.options.view.Timed) (configured : Bool) :
    (c.acknowledged.accepted configured).Sound := by
  have hsane : c.acknowledged.Sane := ⟨h.table, h.alarm, h.boot⟩
  have hbind : c.acknowledged.bind.Sound :=
    hsane.bind htimes htimed rfl
      (by rw [Client.acknowledged, seconds_eq h.table htimes (.inr (.inr rfl))]; rfl)
  have hserver := hsane.bindServer hbind
  unfold accepted
  split
  · exact hbind
  · exact hserver
  · split
    · split
      · exact hsane.stopAt (.inl rfl)
      · split
        · exact hsane.stopAt (.inr (.inl rfl))
        · exact hserver
    · exact hsane.stopAt (.inr (.inr rfl))

/-- Another table with the same times. -/
theorem Held.relearn (h : c.Held) {t : DhcpOptions}
    (hsame : ∀ code, IsTime code → t.view code = c.options.view code) :
    Held { c with options := t } := by
  have hsec : ∀ code, IsTime code → t.view.seconds code = c.options.view.seconds code := fun code hc => by
    rw [OptionMap.seconds, OptionMap.word, hsame code hc]; rfl
  exact { h with
    times := fun code hc => by rw [show t.view code = _ from hsame code hc]; exact h.times code hc
    timed := by
      rw [OptionMap.Timed, hsec _ (.inl rfl), hsec _ (.inr (.inl rfl)), hsec _ (.inr (.inr rfl))]
      exact h.timed
    ends := by rw [hsec _ (.inr (.inr rfl))]; exact h.ends }

theorem Sound.relearn (h : c.Sound) (hrun : c.point.running = true) {t : DhcpOptions} (ht : t.Ok)
    (hsame : c.currState.holds = true → ∀ code, IsTime code → t.view code = c.options.view code) :
    Sound { c with options := t } := by
  have hsane : Sane { c with options := t } := ⟨ht, h.alarm, h.boot⟩
  cases hf : c.currState.holds with
  | true => exact hsane.held hrun hf h.shape ((h.held hf hrun).relearn (hsame hf))
  | false => exact hsane.idle hrun hf h.shape (h.idle hf hrun)

theorem returned_requesting (hp : c.point = .requesting) (ret : Int) (configured : Bool) :
    c.returned ret configured = if ret = 0 then c.acknowledged.accepted configured else c.refused := by
  rw [returned, hp]

/-- The end of the second exchange of `dhcpInit`. -/
theorem Sound.offered (h : c.Sound) (hp : c.point = .discovering true) (ret : Int) (configured : Bool) :
    (c.returned ret configured).Sound := by
  obtain ⟨f, p, now, alarm, sent, t, daemon, ends⟩ := c
  cases hp
  have hf : f = .dhcpInit := by
    have := h.shape
    cases f <;> first | rfl | cases this
  subst hf
  simp only [returned]
  split
  · exact h.rest rfl rfl h.table rfl rfl
  · exact h.stopAt (.inl rfl)

/-- An exchange without the message that was waited for. -/
theorem Sound.refused (h : c.Sound) (hmsg : c.point.msg.isSome = true) {ret : Int} (hret : ret ≠ 0)
    (configured : Bool) :
    (c.returned ret configured).Sound := by
  obtain ⟨f, p, now, alarm, sent, t, daemon, ends⟩ := c
  cases p with
  | calling => cases hmsg
  | sleeping => cases hmsg
  | exited _ => cases hmsg
  | undefined => cases hmsg
  | discovering again =>
      cases again with
      | false =>
          rw [returned, if_neg hret]
          exact h.stopAt (.inr (.inr rfl))
      | true => exact h.offered rfl ret configured
  | requesting =>
      rw [returned_requesting rfl, if_neg hret]
      cases f with
      | dhcpRenew =>
          exact h.enterHeld rfl ((h.held rfl rfl).enter .dhcpRebind (.inr ((h.held rfl rfl).idle rfl)))
      | dhcpRebind => exact h.enter rfl (by decide) fun _ => (h.held rfl rfl).idle rfl
      | dhcpInit => exact h.enter rfl (by decide) (h.idle rfl rfl)
      | dhcpReboot => exact h.enter rfl (by decide) (h.idle rfl rfl)
      | dhcpBound => cases h.shape
      | dhcpStop => cases h.shape
      | dhcpStart => cases h.shape

/-- The message that was waited for. -/
theorem Sane.answered (h : c.Sane) (hidle : c.point ≠ .requesting → c.Sound)
    (hmsg : c.point.msg.isSome = true) (htimes : c.options.view.HasTimes)
    (htimed : c.point = .requesting → c.options.view.Timed) (configured : Bool) :
    (c.returned 0 configured).Sound := by
  cases hp : c.point with
  | calling => rw [hp] at hmsg; cases hmsg
  | sleeping => rw [hp] at hmsg; cases hmsg
  | exited _ => rw [hp] at hmsg; cases hmsg
  | undefined => rw [hp] at hmsg; cases hmsg
  | requesting =>
      rw [returned_requesting hp, if_pos rfl]
      exact h.acknowledged htimes (htimed hp) configured
  | discovering again =>
      have hsound := hidle (by rw [hp]; exact nofun)
      cases again with
      | true => exact hsound.offered hp 0 configured
      | false =>
          obtain ⟨f, p, now, alarm, sent, t, daemon, ends⟩ := c
          cases hp
          have hf : f = .dhcpInit := by
            have := hsound.shape
            cases f <;> first | rfl | cases this
          subst hf
          exact hsound.rest rfl rfl hsound.table (p := .discovering true) rfl rfl

end Client

/-! ## Runs -/

/-- What is asked of the replies: an ACK leaves sensible times in the table, and no other reply to a
client with an address changes its times. -/
def Proper (s : Settings) (c : Client) : Event → Prop
  | .heard r _ => r.Ok ∧ ∀ p, parseDhcpMsgRecv s.nleaseTime r c.options = some p →
      (p.options.view.type = some DHCP_ACK → p.options.view.Timed) ∧
      (c.currState.holds = true → p.options.view.type ≠ some DHCP_ACK →
        ∀ code ∈ [dhcpT1value, dhcpT2value, dhcpIPaddrLeaseTime], p.options.view code = c.options.view code)
  | _ => True

instance (r : Reply) : Decidable r.Ok :=
  decidable_of_iff (r.frame.length = FRAME_SIZE ∧ r.hl ≤ 60 ∧ r.ciaddr.length = 4)
    ⟨fun h => ⟨h.1, h.2.1, h.2.2⟩, fun h => ⟨h.frame, h.hl, h.ciaddr⟩⟩

instance (s : Settings) (c : Client) : (e : Event) → Decidable (Proper s c e)
  | .heard _ _ => inferInstanceAs (Decidable (_ ∧ _))
  | .call _ _ | .second | .alarm | .woken | .failed | .corrupted => isTrue trivial

theorem verdict_eq_zero {msg : UInt8} {o : Option UInt8} (h : verdict msg o = some (.returned 0)) :
    o = some msg := by
  cases o with
  | none => cases h
  | some type =>
      rw [verdict] at h
      split at h
      · rename_i he; rw [he]
      · split at h <;> cases h

theorem verdict_ne_ack {msg : UInt8} {o : Option UInt8} (h : verdict msg o ≠ some (.returned 0)) :
    o ≠ some msg := by
  rintro rfl
  exact h (if_pos rfl)

namespace Client

variable {c c' : Client} {s : Settings}

theorem requesting_of_holds {f : StateFn} {p : Point} (hf : f.holds = true) (hp : f.allows p = true)
    (hmsg : p.msg.isSome = true) :
    p = .requesting := by
  cases p <;> cases f <;> simp_all [StateFn.holds, StateFn.allows, Point.msg]

theorem running_of_msg {p : Point} (h : p.msg.isSome = true) : p.running = true := by
  cases p <;> first | rfl | cases h

theorem msg_ne_zero {p : Point} {msg : UInt8} (h : p.msg = some msg) : msg ≠ 0 := by
  cases p <;> cases h <;> decide

theorem Sound.hear (h : c.Sound) (hnl : s.nleaseTime.length = 4) {msg : UInt8}
    (hmsg : c.point.msg = some msg) {r : Reply} {configured : Bool}
    (hproper : Proper s c (.heard r configured)) : (c.hear s msg r configured).Sound := by
  obtain ⟨hr, hproper⟩ := hproper
  obtain ⟨hbad, hgood⟩ := parseDhcpMsgRecv_spec hr hnl h.table
  have hsome : c.point.msg.isSome = true := by rw [hmsg]; rfl
  by_cases hf : (r.received c.options.view).Faulty
  · simp only [Client.hear, hbad hf]
    exact h.stopAt (.inl rfl)
  · obtain ⟨p, hp, hok, hview, htype⟩ := hgood hf
    have htimes : p.options.view.HasTimes := hview ▸ r.hasTimes_learned hnl c.options.view
    obtain ⟨hack, hother⟩ := hproper p hp
    have hsane : Sane { c with options := p.options } := ⟨hok, h.alarm, h.boot⟩
    -- without the message that is waited for, the times are as they were
    have hopen : verdict msg p.options.view.type ≠ some (.returned 0) →
        Sound { c with options := p.options } := by
      intro hne
      refine h.relearn (running_of_msg hsome) hok fun hholds code hc => ?_
      have hack' : msg = DHCP_ACK := by
        rw [requesting_of_holds hholds h.shape hsome] at hmsg
        exact (Option.some.inj hmsg).symm
      refine hother hholds (hack' ▸ verdict_ne_ack hne) code ?_
      rcases hc with rfl | rfl | rfl <;> simp
    simp only [Client.hear, hp, judge_eq hok htype (msg_ne_zero hmsg)]
    cases hv : verdict msg p.options.view.type with
    | none => exact hopen (by rw [hv]; exact nofun)
    | some o =>
        cases o with
        | fault => exact hsane.stopAt (.inl rfl)
        | returned ret =>
            rcases eq_or_ne ret 0 with rfl | hret
            · refine hsane.answered (fun hne => ?_) hsome htimes (fun hreq => ?_) configured
              · exact h.relearn (running_of_msg hsome) hok fun hholds =>
                  absurd (requesting_of_holds hholds h.shape hsome) hne
              · refine hack ?_
                rw [verdict_eq_zero hv, ← hmsg, show c.point = .requesting from hreq]
                rfl
            · exact (hopen (by rw [hv]; simpa using hret)).refused hsome hret configured

theorem Sound.second (h : c.Sound) (hwait : c.point.waiting = true) (hdue : c.due = false) :
    Sound { c with now := c.now + 1 } := by
  have hrun : c.point.running = true := by
    revert hwait
    cases c.point <;> simp [Point.waiting, Point.running]
  have hlt : ∀ d, c.alarm = some d → c.now + 1 ≤ d := by
    intro d hd
    simp only [due, hd, Option.any_some, decide_eq_false_iff_not] at hdue
    omega
  have hsane : Sane { c with now := c.now + 1 } := ⟨h.table, hlt, h.boot⟩
  cases hf : c.currState.holds with
  | false => exact hsane.idle hrun hf h.shape (h.idle hf hrun)
  | true =>
      have hheld := h.held hf hrun
      obtain ⟨d, hd, hle⟩ := hheld.waiting hwait
      refine hsane.held hrun hf h.shape
        { hheld with after := hheld.after.trans (Nat.le_succ _), before := ?_, calling := ?_ }
      · exact (hlt d hd).trans hle
      · intro hcall
        rw [show c.point = .calling from hcall] at hwait
        cases hwait

theorem Sound.step (h : c.Sound) (hnl : s.nleaseTime.length = 4) {e : Event} (hproper : Proper s c e)
    (hstep : c.step s e = some c') : c'.Sound := by
  cases e with
  | call ready cached =>
      simp only [Client.step] at hstep
      split at hstep
      · cases hstep; exact h.call ‹_› ready cached
      · cases hstep
  | second =>
      simp only [Client.step] at hstep
      split at hstep
      · rename_i hcond
        cases hstep
        obtain ⟨hwait, hdue⟩ := Bool.and_eq_true_iff.mp hcond
        exact h.second hwait (by simpa using hdue)
      · cases hstep
  | alarm =>
      simp only [Client.step] at hstep
      split at hstep
      · rename_i hcond
        cases hstep
        obtain ⟨hrun, hdue⟩ := Bool.and_eq_true_iff.mp hcond
        obtain ⟨d, hd, _⟩ : ∃ d, c.alarm = some d ∧ d ≤ c.now := by simpa [due, Option.any_eq_true] using hdue
        exact h.sigHandler s hrun hd
      · cases hstep
  | woken =>
      simp only [Client.step] at hstep
      split at hstep
      · rename_i hp
        cases hstep
        have hf : c.currState = .dhcpBound := by
          have := h.shape
          rw [hp] at this
          cases hc : c.currState <;> rw [hc] at this <;> first | rfl | cases this
        have hheld := h.held (by rw [hf]; rfl) (by rw [hp]; rfl)
        exact h.enterHeld rfl (hheld.enter .dhcpRenew (.inr (hheld.idle (by rw [hp]; rfl))))
      · cases hstep
  | heard r configured =>
      obtain ⟨msg, hmsg, rfl⟩ := Option.map_eq_some_iff.mp hstep
      exact h.hear hnl hmsg hproper
  | failed =>
      simp only [Client.step] at hstep
      split at hstep
      · cases hstep; exact h.refused ‹_› (by decide) false
      · cases hstep
  | corrupted =>
      simp only [Client.step] at hstep
      split at hstep
      · cases hstep; exact h.stopAt (.inl rfl)
      · cases hstep

end Client

theorem sound_started (s : Settings) (now : Nat) : (started s now).Sound :=
  Client.Sane.idle ⟨.released, by intro d hd; cases hd; exact Nat.le_add_right now s.timeOut,
    fun _ => rfl⟩ rfl rfl rfl (fun hdaemon => by cases hdaemon)

/-- Whatever happens and in whatever order, a client whose ACKs have sensible times is bound, renewing
or rebinding only until its lease ends. -/
theorem lease_kept (s : Settings) (now : Nat) (es : List Event) (hnl : s.nleaseTime.length = 4)
    (hes : Along (Client.step s) (Proper s) (started s now) es) :
    Always (Client.step s) (fun c => c.currState.holds = true → c.point.running = true →
      c.now ≤ c.leaseEnd) (started s now) es :=
  (always_of_along (fun _ _ _ hc he hstep => hc.step hnl he hstep) es _ (sound_started s now) hes).imp
    fun _ hc hholds hrun => (hc.held hholds hrun).before

/-- An ACK with a lease of three seconds. -/
def shortLease : Reply := replyWith [⟨53, [5]⟩, ⟨51, [0, 0, 0, 3]⟩, ⟨58, [0, 0, 0, 1]⟩, ⟨59, [0, 0, 0, 2]⟩]

/-- The lease is neither renewed nor bound again in time, and then there is no server any more. -/
def refusedRun : List Event :=
  [.call true true, .heard shortLease true, .call true true, .second, .alarm, .call true true, .second,
    .alarm, .call true true,
    .heard (replyWith [⟨53, [6]⟩]) true, .call true true, .call true true, .call true true, .second, .alarm]

def daily : Settings := ⟨60, [0, 1, 81, 128]⟩

theorem lease_kept_refused :
    (run (Client.step daily) (started daily 0) (refusedRun.take 9)).map
    (fun c => (c.currState, c.now, c.leaseEnd)) = some (.dhcpRebind, 2, 3) ∧
    Always (Client.step daily) (fun c => c.currState.holds = true → c.point.running = true →
      c.now ≤ c.leaseEnd) (started daily 0) refusedRun :=
  ⟨by decide +kernel, lease_kept daily 0 refusedRun rfl (by decide +kernel)⟩

end CameraFw.Dhcp
