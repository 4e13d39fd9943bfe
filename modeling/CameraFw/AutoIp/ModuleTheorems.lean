import CameraFw.AutoIp.Lemmas.Module

/-!
# Watchers and addresses under the DHCP client

Over every run of the client, with collisions at any time: which calls hand `pthread_join` something
that is not a watcher left to join, and which leave `bAutoConfiguredIP` set without the address.
-/

namespace CameraFw.AutoIp

open CameraFw.Base

namespace Client

variable {s t : Client} {e : Event}

/-! ## The invariant -/

/-- The module has an address only after the client has switched to it, which ends the start-up, and
while it waits with that address the module has one. -/
structure Inv (s : Client) : Prop where
  autoIP : s.autoIP.Inv
  fresh : s.bStartUP = true → s.autoIP.vars.bAutoConfiguredIP = false ∧ s.state ≠ .dhcpWaitInAutoIP
  told : s.autoIP.vars.bAutoConfiguredIP = true → s.bAutoConfiguredIP = true
  waiting : s.state = .dhcpWaitInAutoIP → s.autoIP.bInitialize = true ∧ s.autoIP.vars.bAutoConfiguredIP = true

def Live (s : Client) : Prop := s.state = .exited ∨ s.Inv

theorem boot_inv : boot.Inv where
  autoIP := ⟨⟨fun _ => rfl, fun h => by cases h⟩, fun _ => rfl, fun _ => ⟨rfl, rfl⟩⟩
  fresh := fun _ => ⟨rfl, by decide⟩
  told := fun h => by cases h
  waiting := fun h => by cases h

/-- A step of the client that makes no call. -/
theorem Inv.goto (h : s.Inv) (state : State) (hstate : state ≠ .dhcpWaitInAutoIP) :
    Inv { s with state := state } :=
  ⟨h.autoIP, fun hs => ⟨(h.fresh hs).1, hstate⟩, h.told, fun hw => absurd hw hstate⟩

theorem Inv.watcher {m : Module} (h : s.Inv) (hm : m.Inv) (hinit : m.bInitialize = s.autoIP.bInitialize)
    (hauto : m.vars.bAutoConfiguredIP = s.autoIP.vars.bAutoConfiguredIP) : Inv { s with autoIP := m } where
  autoIP := hm
  fresh := fun hs => ⟨hauto.trans (h.fresh hs).1, (h.fresh hs).2⟩
  told := fun ha => h.told (hauto ▸ ha)
  waiting := fun hw => ⟨hinit.trans (h.waiting hw).1, hauto.trans (h.waiting hw).2⟩

theorem Inv.collide (h : s.Inv) : Inv { s with autoIP := s.autoIP.collide } :=
  h.watcher h.autoIP.collide (by rw [Module.collide_eq]; rfl) (by rw [Module.collide_eq])

theorem Inv.released (h : s.Inv) : s.released.Inv ∧ s.released.vars.bAutoConfiguredIP = false := by
  rw [Client.released]
  split
  · exact ⟨h.autoIP.stopAutoIP, rfl⟩
  · rename_i hkeep
    refine ⟨h.autoIP, ?_⟩
    by_contra hauto
    have hon : s.autoIP.vars.bAutoConfiguredIP = true := by simpa using hauto
    have hstart : s.bStartUP = false := by
      by_contra hstart
      exact hauto (h.fresh (by simpa using hstart)).1
    exact hkeep (by simp [hstart, h.told hon])

theorem Inv.dhcpRequest (h : s.Inv) (r : Request) : (s.dhcpRequest r).Live := by
  cases r with
  | noAck => exact .inr (h.goto _ (by decide))
  | inUse => exact .inr (h.goto _ (by decide))
  | acked iface goesOn =>
      cases goesOn with
      | false => exact .inl rfl
      | true =>
          obtain ⟨hm, hoff⟩ := h.released
          refine .inr ⟨⟨⟨hm.free, hm.held⟩, hm.starting, hm.unset⟩,
            fun _ => ⟨hoff, by simp [Client.dhcpRequest]⟩, fun hon => ?_, fun hw => by cases hw⟩
          exact absurd (hoff.symm.trans hon) (by decide)

/-- The module that `dhcpAutoConfigureIP` is called in, for a `StartAutoIP` in `m`. -/
def starting (s : Client) (m : Module) : Module :=
  { m with bInitialize := true, vars := { m.vars with bStartUP := s.bStartUP } }

theorem startAutoIP_eq {m : Module} (hinit : m.bInitialize = true) (env : Module.StartEnv) :
    m.startAutoIP s.bStartUP env = (s.starting m).configure env := by
  rw [Module.startAutoIP, if_pos hinit, starting, ← hinit]

theorem Inv.starting_switch (h : s.Inv) : (s.starting s.autoIP).Inv :=
  ⟨⟨h.autoIP.free, h.autoIP.held⟩, fun hs => (h.autoIP.unset (h.fresh hs).1).1, h.autoIP.unset⟩

theorem dhcpSwitchToAutoIP_eq (env : Module.StartEnv) :
    s.dhcpSwitchToAutoIP env = if ((s.starting s.autoIP).configure env).1 = 0 then
        ⟨.dhcpWaitInAutoIP, false, true, ((s.starting s.autoIP).configure env).2⟩
      else { s with state := .exited, autoIP := ((s.starting s.autoIP).configure env).2 } := by
  rw [Client.dhcpSwitchToAutoIP, startAutoIP_eq rfl]
  exact ite_not ..

theorem dhcpSwitchToAutoIP_autoIP (env : Module.StartEnv) :
    (s.dhcpSwitchToAutoIP env).autoIP = ((s.starting s.autoIP).configure env).2 := by
  rw [dhcpSwitchToAutoIP_eq]
  split <;> rfl

theorem Inv.dhcpSwitchToAutoIP (h : s.Inv) (env : Module.StartEnv) : (s.dhcpSwitchToAutoIP env).Live := by
  obtain ⟨hinv, hinit, hauto⟩ := @Module.Inv.configure _ env h.starting_switch
  rw [dhcpSwitchToAutoIP_eq]
  split
  · rename_i hret
    exact .inr ⟨hinv (.inl hret), fun hs => (by cases hs), fun _ => rfl, fun _ => ⟨hinit, hauto (.inl hret)⟩⟩
  · exact .inl rfl

/-- The module in which the client configures an address again. -/
def restarting (s : Client) (env : Module.WaitEnv) : Module :=
  s.starting (s.autoIP.waitInAutoIPBeforeLookforDHCP env).2

theorem Inv.started (h : s.Inv) (hstate : s.state = .dhcpWaitInAutoIP) : s.bStartUP = false := by
  by_contra hs
  exact (h.fresh (by simpa using hs)).2 hstate

theorem Inv.restarting (h : s.Inv) (hstate : s.state = .dhcpWaitInAutoIP) (env : Module.WaitEnv) :
    (s.restarting env).Inv := by
  obtain ⟨hinv, _⟩ := @Module.Inv.wait _ env h.autoIP (h.waiting hstate).2
  refine ⟨⟨hinv.free, hinv.held⟩, fun hs => ?_, hinv.unset⟩
  exact absurd ((h.started hstate).symm.trans hs) (by decide)

open Classical in
theorem Inv.dhcpWaitInAutoIP_eq (h : s.Inv) (hstate : s.state = .dhcpWaitInAutoIP) (env : Module.WaitEnv)
    (again : Module.StartEnv) :
    s.dhcpWaitInAutoIP env again = if s.autoIP.Interrupted env then
      { s with autoIP := ((s.restarting env).configure again).2 }
      else { s with state := .dhcpRestart, autoIP := (s.autoIP.waitInAutoIPBeforeLookforDHCP env).2 } := by
  obtain ⟨_, _, hinit, _⟩ := @Module.Inv.wait _ env h.autoIP (h.waiting hstate).2
  rw [Client.dhcpWaitInAutoIP, startAutoIP_eq (hinit.trans (h.waiting hstate).1)]
  by_cases hint : s.autoIP.Interrupted env
  · rw [if_pos hint]
    exact if_neg (Module.wait_ne_zero.mpr hint)
  · rw [if_neg hint]
    exact if_pos (not_not.mp (mt Module.wait_ne_zero.mp hint))

theorem Inv.dhcpWaitInAutoIP (h : s.Inv) (hstate : s.state = .dhcpWaitInAutoIP) (env : Module.WaitEnv)
    (again : Module.StartEnv) : (s.dhcpWaitInAutoIP env again).Inv := by
  obtain ⟨hinv, _, hinit, hauto, _⟩ := @Module.Inv.wait _ env h.autoIP (h.waiting hstate).2
  have hstart := h.started hstate
  rw [h.dhcpWaitInAutoIP_eq hstate]
  split
  · obtain ⟨hinv', hinit', hauto'⟩ := @Module.Inv.configure _ again (h.restarting hstate env)
    exact h.watcher (hinv' (.inr hstart)) (hinit'.trans (h.waiting hstate).1.symm)
      ((hauto' (.inr hauto)).trans (h.waiting hstate).2.symm)
  · exact (h.watcher hinv hinit (hauto.trans (h.waiting hstate).2.symm)).goto _ (by decide)

/-- All that a step can be: the watcher does something, the client moves on without a call, or it makes
calls. -/
inductive Steps (s : Client) : Event → Client → Prop where
  | collision : Steps s .collision { s with autoIP := s.autoIP.collide }
  | ended : Steps s .ended { s with autoIP := s.autoIP.unwatch }
  | moves (e : Event) (state : State) (bStartUP : Bool) (hstate : state ≠ .dhcpWaitInAutoIP)
      (hstart : bStartUP = true → s.bStartUP = true) (he : e = .proceeds ∨ e = .fails) :
      Steps s e { s with state := state, bStartUP := bStartUP }
  | request (r : Request) (hstate : s.state = .dhcpCheck ∨ s.state = .dhcpInit) :
      Steps s (.request r) (s.dhcpRequest r)
  | start (env : Module.StartEnv) (hstate : s.state = .dhcpSwitchToAutoIP) :
      Steps s (.start env) (s.dhcpSwitchToAutoIP env)
  | wait (env : Module.WaitEnv) (again : Module.StartEnv) (hstate : s.state = .dhcpWaitInAutoIP) :
      Steps s (.wait env again) (s.dhcpWaitInAutoIP env again)

theorem steps_of_step (hstep : s.step e = some t) : s.state ≠ .exited ∧ s.Steps e t := by
  unfold step at hstep
  split at hstep
  all_goals cases hstep
  · exact ⟨‹_›, .collision⟩
  · exact ⟨‹_›, .ended⟩
  all_goals
    rename_i hstate
    refine ⟨by rw [hstate]; decide, ?_⟩
  · exact .moves _ _ _ (by decide) id (.inl rfl)
  · exact .moves _ _ _ (by decide) id (.inl rfl)
  · exact .moves _ _ _ (by decide) id (.inr rfl)
  · exact .request _ (.inl hstate)
  · exact .moves _ _ _ (by decide) id (.inr rfl)
  · exact .request _ (.inr hstate)
  · exact .moves _ _ _ (by decide) (fun h => by cases h) (.inl rfl)
  · exact .moves _ _ _ (by decide) id (.inl rfl)
  · exact .moves _ _ _ (by decide) id (.inr rfl)
  · exact .moves _ _ _ (by decide) id (.inl rfl)
  · exact .moves _ _ _ (by decide) id (.inr rfl)
  · exact .start _ hstate
  · exact .wait _ _ hstate

theorem live_step (h : s.Live) (hstep : s.step e = some t) : t.Live := by
  obtain ⟨hx, hsteps⟩ := steps_of_step hstep
  replace h := h.resolve_left hx
  cases hsteps with
  | collision => exact .inr h.collide
  | ended => exact .inr (h.watcher h.autoIP.unwatch rfl rfl)
  | moves _ state bStartUP hstate hstart _ =>
      exact .inr ⟨h.autoIP, fun hs => ⟨(h.fresh (hstart hs)).1, hstate⟩, h.told, fun hw => absurd hw hstate⟩
  | request r _ => exact h.dhcpRequest r
  | start env _ => exact h.dhcpSwitchToAutoIP env
  | wait env again hstate => exact .inr (h.dhcpWaitInAutoIP hstate env again)

/-! ## Joins -/

/-- The calls of the step find a watcher to join where they join one. -/
def Joinable (s : Client) : Event → Prop
  | .request (.acked _ _) =>
      s.state = .dhcpCheck ∨ s.state = .dhcpInit → s.bStartUP = false → s.bAutoConfiguredIP = true →
        s.autoIP.bthread = true
  | .start env =>
      s.state = .dhcpSwitchToAutoIP → s.autoIP.vars.stale = true →
        if s.bStartUP then Finds s.autoIP.vars.bCollision env.toEnv → env.setAddress = true →
          env.created = true
        else s.autoIP.bthread = true
  | .wait _ _ => s.state = .dhcpWaitInAutoIP → s.autoIP.vars.bCollision = true → s.autoIP.bthread = true
  | _ => True

def Orderly (s : Client) : Prop := s.autoIP.orderly = true

theorem Inv.request_orderly (h : s.Inv) (hord : s.Orderly) {iface : Option (BitVec 32)} {goesOn : Bool} :
    (s.dhcpRequest (.acked iface goesOn)).Orderly ↔
      (s.bStartUP = false → s.bAutoConfiguredIP = true → s.autoIP.bthread = true) := by
  have hiff : (s.dhcpRequest (.acked iface goesOn)).Orderly ↔ s.released.orderly = true := by
    cases goesOn <;> rfl
  rw [hiff, Client.released]
  split
  · rename_i hstop
    rw [Bool.and_eq_true, Bool.not_eq_true'] at hstop
    rw [h.autoIP.stopAutoIP_orderly, show s.autoIP.orderly = true from hord]
    simp [hstop]
  · rename_i hkeep
    refine ⟨fun _ hs ha => absurd (by simp [hs, ha]) hkeep, fun _ => hord⟩

theorem orderly_step (h : s.Live) (hord : s.Orderly) (hstep : s.step e = some t) :
    t.Orderly ↔ s.Joinable e := by
  obtain ⟨hx, hsteps⟩ := steps_of_step hstep
  replace h := h.resolve_left hx
  cases hsteps with
  | collision =>
      rw [Orderly, Module.collide_eq]
      exact iff_of_true hord trivial
  | ended => exact iff_of_true hord trivial
  | moves _ state bStartUP hstate hstart he => rcases he with rfl | rfl <;> exact iff_of_true hord trivial
  | request r hstate =>
      cases r with
      | noAck => exact iff_of_true hord trivial
      | inUse => exact iff_of_true hord trivial
      | acked iface goesOn =>
          rw [h.request_orderly hord]
          exact ⟨fun hj _ => hj, fun hj => hj hstate⟩
  | start env hstate =>
      have hiff := @Module.Inv.configure_orderly _ env h.starting_switch hord
      rw [Orderly, dhcpSwitchToAutoIP_autoIP, hiff]
      exact ⟨fun hj _ => hj, fun hj => hj hstate⟩
  | wait env again hstate =>
      obtain ⟨_, hord', _, _, _, _, hint'⟩ := @Module.Inv.wait _ env h.autoIP (h.waiting hstate).2
      have hiff := @Module.Inv.configure_orderly _ again (h.restarting hstate env) (hord'.trans hord)
      rw [h.dhcpWaitInAutoIP_eq hstate]
      split
      · rename_i hint
        obtain ⟨hset, hthread⟩ := hint' hint
        have hstale : (s.restarting env).vars.stale = true := by
          rw [Vars.stale, show (s.restarting env).vars.bCollision = true from hset, Bool.or_true]
        rw [show (s.restarting env).vars.bStartUP = false from h.started hstate] at hiff
        refine hiff.trans ⟨fun hj _ => hthread.mp (hj hstale), fun hj _ => hthread.mpr (hj hstate)⟩
      · rename_i hint
        exact iff_of_true (hord'.trans hord) fun _ hc => absurd (.inl hc) hint

theorem joinable_of_none (h : s.step e = none) : s.Joinable e := by
  cases e with
  | collision | ended | proceeds | fails => trivial
  | request r =>
      cases r with
      | noAck | inUse => trivial
      | acked iface goesOn => rintro (hstate | hstate) <;> simp [step, hstate] at h
  | start env => intro hstate; simp [step, hstate] at h
  | wait env again => intro hstate; simp [step, hstate] at h

/-- Over a run of the client `pthread_join` is only called for watchers that are left to join, and
watchers are only created with none left, exactly if the calls always find a watcher to join. -/
theorem joins_watchers_iff (es : List Event) :
    Always step Orderly boot es ↔ Along step Joinable boot es :=
  always_iff_along (fun _ _ _ h hstep => live_step h hstep)
    (fun _ _ _ h hord hstep => orderly_step h hord hstep)
    (fun _ _ h => joinable_of_none h) es boot (.inr boot_inv) rfl

/-- Every probe finds its address free, and everything succeeds. -/
def smooth : Module.StartEnv where
  collided := false
  cache := .absent
  station := none
  rand := fun _ => ⟨0, by decide⟩
  probe := fun _ _ => 0
  setAddress := true
  created := true
  collides := false

/-- The client gets a lease, cannot renew it and finds no server any more. -/
def lostLease : List Event :=
  [.proceeds, .fails, .request (.acked (some 0x6401a8c0) true), .proceeds, .fails, .fails, .fails,
    .start smooth]

theorem lostLease_ops :
    (run step boot lostLease).map (fun s => s.autoIP.ops) = some [.create true, .join false] :=
  rfl

/-- The first `StartAutoIP` call comes after the start-up and joins a watcher though none has ever been
created. -/
theorem lostLease_joins_nothing : ¬Always step Orderly boot lostLease := by
  intro h
  obtain ⟨s, hrun, hops⟩ := Option.map_eq_some_iff.mp lostLease_ops
  have hord : s.autoIP.orderly = true := h.last hrun
  rw [Module.orderly, hops] at hord
  cases hord

/-! ## Addresses -/

/-- The module in which the step calls `StartAutoIP`, and what the call meets. -/
def startCall (s : Client) : Event → Option (Module × Module.StartEnv)
  | .start env =>
      if s.state = .dhcpSwitchToAutoIP then some ({ s.autoIP with bInitialize := true }, env) else none
  | .wait env again =>
      let r := s.autoIP.waitInAutoIPBeforeLookforDHCP env
      if s.state = .dhcpWaitInAutoIP ∧ r.1 ≠ 0 then some (r.2, again) else none
  | _ => none

/-- The step leads to a state with the address on the interface if one is configured, and a
`StartAutoIP` call in it that fails leaves neither an address configured nor a watcher for it. -/
def Keeps (s : Client) (e : Event) : Prop :=
  (∀ t, s.step e = some t → t.autoIP.Carries) ∧
    ∀ m env, s.startCall e = some (m, env) → m.FailsClean env (m.startAutoIP s.bStartUP env)

/-- A call that has to configure an address can set the one it finds; it may find none only if none is
configured. -/
def Available (s : Client) : Event → Prop
  | .start env =>
      s.state = .dhcpSwitchToAutoIP → s.autoIP.vars.stale = true →
        (Finds s.autoIP.vars.bCollision env.toEnv → env.setAddress = true) ∧
          (¬Finds s.autoIP.vars.bCollision env.toEnv → s.autoIP.vars.bAutoConfiguredIP = false)
  | .wait env again =>
      s.state = .dhcpWaitInAutoIP → s.autoIP.Interrupted env →
        Finds true again.toEnv ∧ again.setAddress = true
  | _ => True

/-- The invariant of the runs along which the condition holds. -/
def Sound (s : Client) : Prop := s.Live ∧ s.autoIP.Carries

theorem keeps_call {m : Module} {env : Module.StartEnv} (hstep : s.step e = some t)
    (hcall : s.startCall e = some (m, env)) :
    s.Keeps e ↔ t.autoIP.Carries ∧ m.FailsClean env (m.startAutoIP s.bStartUP env) := by
  constructor
  · rintro ⟨hcar, hclean⟩
    exact ⟨hcar t hstep, hclean m env hcall⟩
  · rintro ⟨hcar, hclean⟩
    refine ⟨fun t' hstep' => ?_, fun m' env' hcall' => ?_⟩
    · rw [hstep] at hstep'; cases hstep'; exact hcar
    · rw [hcall] at hcall'; cases hcall'; exact hclean

theorem keeps_quiet (hcall : s.startCall e = none) (hcar : ∀ t, s.step e = some t → t.autoIP.Carries) :
    s.Keeps e :=
  ⟨hcar, fun m env hcall' => by rw [hcall] at hcall'; cases hcall'⟩

theorem Inv.request_carries (h : s.Inv) (hcar : s.autoIP.Carries) (r : Request) :
    (s.dhcpRequest r).autoIP.Carries := by
  cases r with
  | noAck => exact hcar
  | inUse => exact hcar
  | acked iface goesOn =>
      have hoff : (s.dhcpRequest (.acked iface goesOn)).autoIP.vars.bAutoConfiguredIP = false := by
        cases goesOn <;> exact h.released.2
      exact fun hon => absurd (hoff.symm.trans hon) (by decide)

theorem Inv.start_keeps (h : s.Inv) (hcar : s.autoIP.Carries) (hstate : s.state = .dhcpSwitchToAutoIP)
    (env : Module.StartEnv) : s.Keeps (.start env) ↔ s.Available (.start env) := by
  have hstep : s.step (.start env) = some (s.dhcpSwitchToAutoIP env) := by simp [step, hstate]
  have hcall : s.startCall (.start env) = some ({ s.autoIP with bInitialize := true }, env) := by
    simp [startCall, hstate]
  have hiff := @Module.Inv.configure_carries _ env h.starting_switch hcar
  rw [keeps_call hstep hcall, dhcpSwitchToAutoIP_autoIP, startAutoIP_eq rfl]
  exact hiff.trans ⟨fun ha _ => ha, fun ha => ha hstate⟩

theorem Inv.wait_keeps (h : s.Inv) (hcar : s.autoIP.Carries) (hstate : s.state = .dhcpWaitInAutoIP)
    (env : Module.WaitEnv) (again : Module.StartEnv) :
    s.Keeps (.wait env again) ↔ s.Available (.wait env again) := by
  obtain ⟨_, _, hinit, hauto, hiface, hcl, hint'⟩ := @Module.Inv.wait _ env h.autoIP (h.waiting hstate).2
  have hcar' : (s.autoIP.waitInAutoIPBeforeLookforDHCP env).2.Carries := by
    rw [Module.Carries, hiface, hcl]
    exact fun _ => hcar (h.waiting hstate).2
  have hstep : s.step (.wait env again) = some (s.dhcpWaitInAutoIP env again) := by simp [step, hstate]
  rw [h.dhcpWaitInAutoIP_eq hstate] at hstep
  by_cases hint : s.autoIP.Interrupted env
  · obtain ⟨hset, _⟩ := hint' hint
    have hcall : s.startCall (.wait env again) =
        some ((s.autoIP.waitInAutoIPBeforeLookforDHCP env).2, again) :=
      if_pos ⟨hstate, Module.wait_ne_zero.mpr hint⟩
    have hiff := @Module.Inv.configure_carries _ again (h.restarting hstate env) hcar'
    rw [if_pos hint] at hstep
    rw [keeps_call hstep hcall, startAutoIP_eq (hinit.trans (h.waiting hstate).1)]
    -- an address is configured, so the call must get another one
    have hc : (s.restarting env).vars.bCollision = true := hset
    have ha : (s.restarting env).vars.bAutoConfiguredIP = true := hauto
    have hstale : (s.restarting env).vars.stale = true := by rw [Vars.stale, hc, Bool.or_true]
    rw [hc, ha] at hiff
    refine hiff.trans ⟨fun hav _ _ => ?_, fun hav _ => ?_⟩
    · obtain ⟨hfound, hnone⟩ := hav hstale
      have hfinds : Finds true again.toEnv := by
        by_contra hno
        exact absurd (hnone hno) (by decide)
      exact ⟨hfinds, hfound hfinds⟩
    · obtain ⟨hfinds, hok⟩ := hav hstate hint
      exact ⟨fun _ => hok, fun hno => absurd hfinds hno⟩
  · have hcall : s.startCall (.wait env again) = none := if_neg fun hne => hint (Module.wait_ne_zero.mp hne.2)
    rw [if_neg hint] at hstep
    refine iff_of_true (keeps_quiet hcall fun t ht => ?_) fun _ hint' => absurd hint' hint
    rw [hstep] at ht
    cases ht
    exact hcar'

theorem Sound.quiet_carries (h : s.Sound) (he : ∀ env, e ≠ .start env)
    (he' : ∀ env again, e ≠ .wait env again) :
    ∀ t, s.step e = some t → t.autoIP.Carries := by
  intro t hstep
  obtain ⟨hx, hsteps⟩ := steps_of_step hstep
  have hinv := h.1.resolve_left hx
  cases hsteps with
  | collision =>
      rw [Module.Carries, Module.collide_eq]
      exact h.2
  | ended => exact h.2
  | moves => exact h.2
  | request r _ => exact hinv.request_carries h.2 r
  | start env _ => exact absurd rfl (he env)
  | wait env again _ => exact absurd rfl (he' env again)

theorem keeps_iff (h : s.Sound) : s.Keeps e ↔ s.Available e := by
  have hquiet := fun he he' hcall => keeps_quiet hcall (@Sound.quiet_carries s e h he he')
  cases e with
  | collision | ended | proceeds | fails | request => exact iff_of_true (hquiet nofun nofun rfl) trivial
  | start env =>
      by_cases hstate : s.state = .dhcpSwitchToAutoIP
      · exact (h.1.resolve_left (by simp [hstate])).start_keeps h.2 hstate env
      · refine iff_of_true (keeps_quiet (if_neg hstate) fun t hstep => ?_) fun hs => absurd hs hstate
        cases (steps_of_step hstep).2 with
        | moves _ _ _ _ _ he => rcases he with he | he <;> cases he
        | start _ hs => exact absurd hs hstate
  | wait env again =>
      by_cases hstate : s.state = .dhcpWaitInAutoIP
      · exact (h.1.resolve_left (by simp [hstate])).wait_keeps h.2 hstate env again
      · refine iff_of_true (keeps_quiet (if_neg fun hs => hstate hs.1) fun t hstep => ?_) fun hs =>
          absurd hs hstate
        cases (steps_of_step hstep).2 with
        | moves _ _ _ _ _ he => rcases he with he | he <;> cases he
        | wait _ _ hs => exact absurd hs hstate

/-- Over a run of the client `bAutoConfiguredIP` is only set while the interface carries an address that
has been found free, and calls that fail leave no address configured and no watcher for it, exactly if
every call that has to configure an address can set the one it finds, and finds one when it has one
configured already. -/
theorem keeps_address_iff (es : List Event) : Along step Keeps boot es ↔ Along step Available boot es := by
  have hsound : ∀ s e t, Sound s → Keeps s e → step s e = some t → Sound t := by
    intro s e t h hkeeps hstep
    exact ⟨live_step h.1 hstep, hkeeps.1 t hstep⟩
  have hiff : ∀ s e, Sound s → (Keeps s e ↔ Available s e) := fun _ _ h => keeps_iff h
  exact along_iff hiff hsound ⟨.inr boot_inv, fun h => by cases h⟩

/-- The interface does not take the address. -/
def refused : Module.StartEnv := { smooth with setAddress := false }

/-- No server answers, and the address that is found cannot be set: the call returns -1 with
`bAutoConfiguredIP` set and a watcher for the address. -/
theorem refused_leaves_watcher :
    (run step boot [.proceeds, .fails, .fails, .start refused]).map
        (fun s => (s.state, s.autoIP.vars.bAutoConfiguredIP, s.autoIP.watched, s.autoIP.iface)) =
        some (.exited, true, true, none) ∧
      ¬Along step Keeps boot [.proceeds, .fails, .fails, .start refused] := by
  refine ⟨rfl, fun h => ?_⟩
  have hkeeps := (((h.2 _ rfl).2 _ rfl).2 _ rfl).1
  have hclean := hkeeps.2 _ _ rfl nofun
  exact Bool.noConfusion hclean.1

end Client

end CameraFw.AutoIp
