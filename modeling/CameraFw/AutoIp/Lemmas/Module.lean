import CameraFw.AutoIp.Module

/-!
# What the calls of the AutoIP module do

`bthread` says whether a watcher is left to join. One lemma for each call says what it does to the
flags, the threads and the interface, and one that it keeps the invariant of the module.
-/

namespace CameraFw.AutoIp

open CameraFw.Base

/-! ## Configuration -/

section Configure

variable {v : Vars} {c : Bool} {env : Env}

/-- One of the rounds finds its address free. -/
def Finds (c : Bool) (env : Env) : Prop := ∃ i < AUTOIP_RETRY, env.probe i (candidate c env i) = 0

theorem search_collided {x : Bool} : ∀ n i, search c { env with collided := x } n i = search c env n i := by
  intro n
  induction n with
  | zero => intro i; rfl
  | succ n ih =>
      intro i
      simp only [search, ih]
      rfl

theorem search_isSome :
    ∀ n i, (search c env n i).2.isSome ↔ ∃ k, i ≤ k ∧ k < i + n ∧ env.probe k (candidate c env k) = 0 := by
  intro n
  induction n with
  | zero =>
      intro i
      simp only [search, Option.isSome_none, Bool.false_eq_true, false_iff]
      rintro ⟨k, h1, h2, _⟩
      omega
  | succ n ih =>
      intro i
      by_cases hfree : env.probe i (candidate c env i) = 0
      · simp only [search, if_pos hfree, Option.isSome_some, true_iff]
        exact ⟨i, by omega, by omega, hfree⟩
      · simp only [search, if_neg hfree, ih]
        constructor
        · rintro ⟨k, h1, h2, h⟩; exact ⟨k, by omega, by omega, h⟩
        · rintro ⟨k, h1, h2, h⟩
          refine ⟨k, ?_, by omega, h⟩
          rcases Nat.lt_or_eq_of_le h1 with hlt | rfl
          · omega
          · exact absurd h hfree

theorem finds_iff : (search c env AUTOIP_RETRY 0).2.isSome ↔ Finds c env := by
  rw [search_isSome]
  simp [Finds]

theorem dhcpAutoConfigureIP_idle (h : v.stale = false) : dhcpAutoConfigureIP v env = ⟨0, v, []⟩ := by
  rw [dhcpAutoConfigureIP, if_neg (show ¬(!v.bAutoConfiguredIP || v.bCollision) =
    true from Bool.eq_false_iff.mp h)]

theorem dhcpAutoConfigureIP_none (h : v.stale = true)
    (hnone : (search (collision v env) env AUTOIP_RETRY 0).2 = none) :
    dhcpAutoConfigureIP v env = ⟨-1, { v with bCollision := collision v env },
      (if v.bStartUP then [] else [.destroyThread]) ++ (search (collision v env) env AUTOIP_RETRY 0).1⟩ := by
  rw [dhcpAutoConfigureIP, if_pos (show (!v.bAutoConfiguredIP || v.bCollision) = true from h)]
  simp only [show (v.bCollision || env.collided) = collision v env from rfl, hnone]

theorem dhcpAutoConfigureIP_some {ip : BitVec 32} (h : v.stale = true)
    (hsome : (search (collision v env) env AUTOIP_RETRY 0).2 = some ip) :
    dhcpAutoConfigureIP v env = { assign v env ip with
      acts := (if v.bStartUP then [] else [.destroyThread]) ++
        (search (collision v env) env AUTOIP_RETRY 0).1 ++ (assign v env ip).acts } := by
  rw [dhcpAutoConfigureIP, if_pos (show (!v.bAutoConfiguredIP || v.bCollision) = true from h)]
  simp only [show (v.bCollision || env.collided) = collision v env from rfl, hsome]
  rfl

theorem assign_spec {ip : BitVec 32} :
    (assign v env ip).ret = (if env.setAddress then 0 else -1) ∧
      (assign v env ip).vars.bAutoConfiguredIP = true ∧ (assign v env ip).vars.bStartUP = v.bStartUP := by
  rw [assign]
  cases env.setAddress <;> exact ⟨rfl, rfl, rfl⟩

end Configure

/-! ## Threads -/

namespace Module

variable {m : Module} {ip : BitVec 32}

/-- No watcher was created with another one left to join, and `pthread_join` was only called for watchers. -/
def orderly (m : Module) : Bool := m.ops.all ThreadOp.ok

/-- The variable `bthread` says whether a watcher is left to join, and `thread` is its handle. -/
structure Threads (m : Module) : Prop where
  free : m.bthread = false → m.unjoined = []
  held : m.bthread = true → ∃ w, m.unjoined = [w] ∧ m.thread = some w.id

theorem Threads.known (h : m.Threads) : (m.unjoined.any fun w => some w.id = m.thread) = m.bthread := by
  cases hb : m.bthread with
  | false => simp [h.free hb]
  | true =>
      obtain ⟨w, hw, hid⟩ := h.held hb
      simp [hw, hid]

theorem Threads.destroyThread_unjoined (h : m.Threads) : m.destroyThread.unjoined = [] := by
  cases hb : m.bthread with
  | false => simp [destroyThread, h.free hb]
  | true =>
      obtain ⟨w, hw, hid⟩ := h.held hb
      simp [destroyThread, hw, hid]

@[simp]
theorem destroyThread_bthread : m.destroyThread.bthread = false := rfl

theorem Threads.destroyThread (h : m.Threads) : m.destroyThread.Threads :=
  ⟨fun _ => h.destroyThread_unjoined, fun hb => by cases hb⟩

theorem Threads.destroyThread_orderly (h : m.Threads) :
    m.destroyThread.orderly = (m.bthread && m.orderly) := by
  rw [← h.known]
  rfl

theorem Threads.createThread (h : m.Threads) (hb : m.bthread = false) (created : Bool) :
    (m.createThread ip created).Threads := by
  cases created with
  | false => exact ⟨fun _ => h.free hb, fun hb => by cases hb⟩
  | true =>
      refine ⟨fun hb => (by cases hb), fun _ => ⟨⟨m.created, ip, true⟩, ?_, rfl⟩⟩
      simp [Module.createThread, h.free hb]

@[simp]
theorem createThread_bthread (created : Bool) : (m.createThread ip created).bthread = created := by
  cases created <;> rfl

theorem Threads.createThread_orderly (h : m.Threads) (hb : m.bthread = false) (created : Bool) :
    (m.createThread ip created).orderly = m.orderly := by
  cases created with
  | false => rfl
  | true => simp [Module.createThread, orderly, ThreadOp.ok, h.free hb]

theorem Threads.watched (h : m.Threads) (hb : m.bthread = false) : m.watched = false := by
  simp [Module.watched, h.free hb]

theorem Threads.unwatch (h : m.Threads) : m.unwatch.Threads := by
  refine ⟨fun hb => ?_, fun hb => ?_⟩
  · simp [Module.unwatch, h.free hb]
  · obtain ⟨w, hw, hid⟩ := h.held hb
    exact ⟨{ w with running := false }, by simp [Module.unwatch, hw], hid⟩

theorem unwatch_eq (h : m.watched = false) : m.unwatch = m := by
  have hmap : (m.unjoined.map fun w => { w with running := false }) = m.unjoined := by
    refine (List.map_congr_left fun w hw => ?_).trans m.unjoined.map_id
    have hrun : w.running = false := by simpa using List.any_eq_false.mp h w hw
    rw [← hrun]
    rfl
  rw [unwatch, hmap]

/-- A collision changes `bCollision` and the watcher, and nothing else. -/
theorem collide_eq (m : Module) :
    m.collide = { m.unwatch with vars := { m.vars with bCollision := m.vars.bCollision || m.watched } } := by
  cases h : m.watched with
  | false => rw [collide, if_neg (by simp [h]), unwatch_eq h, Bool.or_false]
  | true => rw [collide, if_pos h, Bool.or_true]

@[simp]
theorem collide_watched (m : Module) : m.collide.watched = false := by
  simp [collide_eq, watched, Module.unwatch]

theorem collide_of_unwatched (h : m.watched = false) : m.collide = m := by rw [collide, if_neg (by simp [h])]

/-! ## The calls -/

/-- `bthread` speaks the truth, no watcher is there while a start-up call is to be completed, and
neither a watcher nor a collision without an address. -/
structure Inv (m : Module) : Prop extends Threads m where
  starting : m.vars.bStartUP = true → m.bthread = false
  unset : m.vars.bAutoConfiguredIP = false → m.bthread = false ∧ m.vars.bCollision = false

theorem Inv.unwatch (h : m.Inv) : m.unwatch.Inv := ⟨h.toThreads.unwatch, h.starting, h.unset⟩

theorem Inv.collide (h : m.Inv) : m.collide.Inv := by
  rw [collide_eq]
  refine ⟨⟨h.toThreads.unwatch.free, h.toThreads.unwatch.held⟩, h.starting, fun hauto => ?_⟩
  obtain ⟨hb, hc⟩ := h.unset hauto
  exact ⟨hb, by simp [hc, h.watched hb]⟩

theorem Inv.stopAutoIP (h : m.Inv) : m.stopAutoIP.Inv :=
  ⟨⟨h.destroyThread.free, h.destroyThread.held⟩, fun _ => rfl, fun _ => ⟨rfl, rfl⟩⟩

theorem Inv.stopAutoIP_orderly (h : m.Inv) : m.stopAutoIP.orderly = (m.bthread && m.orderly) :=
  h.destroyThread_orderly

section Wait

variable {env : WaitEnv}

/-- The loop leaves the module as it was, up to a collision of the watcher. -/
theorem waitLoop_cases : ∀ n t m, (waitLoop env n t m).2 = m ∨ (waitLoop env n t m).2 = m.collide := by
  intro n
  induction n with
  | zero => intro t m; exact .inl rfl
  | succ n ih =>
      intro t m
      rw [waitLoop]
      split
      · exact .inl rfl
      · split
        · rcases ih (t + 1) m.collide with h | h
          · exact .inr h
          · exact .inr (h.trans (collide_of_unwatched (collide_watched m)))
        · exact ih (t + 1) m

/-- Without a watcher, only a collision from before is seen. -/
theorem waitLoop_unwatched (hw : m.watched = false) : ∀ n t,
    (waitLoop env n t m).1 ≠ 0 ↔ 0 < n ∧ m.vars.bCollision = true := by
  intro n
  induction n with
  | zero => intro t; simp [waitLoop]
  | succ n ih =>
      intro t
      rw [waitLoop]
      split
      · rename_i hc
        simp [hc]
      · rename_i hc
        rw [collide_of_unwatched hw, ite_self, ih]
        simp [hc]

theorem waitLoop_watched : ∀ n t m, m.watched = true → ((waitLoop env n t m).1 ≠ 0 ↔
    0 < n ∧ m.vars.bCollision = true ∨ ∃ k, t ≤ k ∧ k + 1 < t + n ∧ env.collides k = true) := by
  intro n
  induction n with
  | zero =>
      intro t m _
      simp only [waitLoop, ne_eq, not_true_eq_false, Nat.lt_irrefl, false_and, false_or, false_iff]
      rintro ⟨k, h1, h2, _⟩
      omega
  | succ n ih =>
      intro t m hw
      rw [waitLoop]
      split
      · rename_i hc
        simp [hc]
      · rename_i hc
        cases hhit : env.collides t with
        | true =>
            -- the collision of this second is seen in the next one, if there is one
            have hset : m.collide.vars.bCollision = true := by simp [collide_eq, hw]
            rw [if_pos rfl, waitLoop_unwatched (collide_watched m), hset]
            constructor
            · rintro ⟨hn, _⟩
              exact .inr ⟨t, le_refl t, by omega, hhit⟩
            · rintro (⟨_, hf⟩ | ⟨k, h1, h2, _⟩)
              · exact absurd hf hc
              · exact ⟨by omega, rfl⟩
        | false =>
            rw [if_neg Bool.false_ne_true, ih (t + 1) m hw]
            constructor
            · rintro (⟨_, hf⟩ | ⟨k, h1, h2, hk⟩)
              · exact absurd hf hc
              · exact .inr ⟨k, by omega, by omega, hk⟩
            · rintro (⟨_, hf⟩ | ⟨k, h1, h2, hk⟩)
              · exact absurd hf hc
              · have hne : k ≠ t := by rintro rfl; rw [hhit] at hk; cases hk
                exact .inr ⟨k, by omega, by omega, hk⟩

theorem waitLoop_ne_zero (n t : Nat) (m : Module) : (waitLoop env n t m).1 ≠ 0 ↔
    0 < n ∧ m.vars.bCollision = true ∨
      m.watched = true ∧ ∃ k, t ≤ k ∧ k + 1 < t + n ∧ env.collides k = true := by
  cases hw : m.watched with
  | true =>
      rw [waitLoop_watched n t m hw]
      simp only [true_and]
  | false =>
      rw [waitLoop_unwatched hw]
      simp only [Bool.false_eq_true, false_and, or_false]

theorem waitLoop_ret :
    ∀ n t m, (waitLoop env n t m).1 ≠ 0 → (waitLoop env n t m).2.vars.bCollision = true := by
  intro n
  induction n with
  | zero => intro t m h; exact absurd rfl h
  | succ n ih =>
      intro t m
      rw [waitLoop]
      split
      · exact fun _ => ‹_›
      · exact ih (t + 1) _

@[simp]
theorem createThread_vars (created : Bool) : (m.createThread ip created).vars = m.vars := by
  cases created <;> rfl

@[simp]
theorem createThread_cleared (created : Bool) : (m.createThread ip created).cleared = m.cleared := by
  cases created <;> rfl

theorem Inv.watch (h : m.Inv) (hauto : m.vars.bAutoConfiguredIP = true) (env : WaitEnv) :
    (m.watch env).Inv := by
  rw [Module.watch]
  split
  · rename_i hstart
    have hb := h.starting (Bool.and_eq_true_iff.mp hstart).1
    have ht := @Threads.createThread m m.vars.autoConfiguredIPAddress h.toThreads hb env.created
    refine ⟨⟨ht.free, ht.held⟩, fun hs => (by cases hs), fun hoff => ?_⟩
    simp [hauto] at hoff
  · exact ⟨⟨h.free, h.held⟩, fun hs => (by cases hs), h.unset⟩

theorem Inv.watch_orderly (h : m.Inv) (env : WaitEnv) : (m.watch env).orderly = m.orderly := by
  rw [Module.watch]
  split
  · rename_i hstart
    exact h.createThread_orderly (h.starting (Bool.and_eq_true_iff.mp hstart).1) env.created
  · rfl

/-- A collision that the wait gets to see: one from before, or one that a watcher finds but for the last
second. -/
def Interrupted (m : Module) (env : WaitEnv) : Prop :=
  m.vars.bCollision = true ∨ (m.watched = true ∨ m.vars.bStartUP = true ∧ env.created = true) ∧
    ∃ t, t + 1 < DHCPCHECK_TIME ∧ env.collides t = true

theorem watch_watched (hc : m.vars.bCollision = false) :
    (m.watch env).watched = true ↔ m.watched = true ∨ m.vars.bStartUP = true ∧ env.created = true := by
  rw [Module.watch]
  cases hs : m.vars.bStartUP <;> cases hw : env.created <;> simp [hc, createThread, watched]

theorem wait_ne_zero : (m.waitInAutoIPBeforeLookforDHCP env).1 ≠ 0 ↔ m.Interrupted env := by
  have hvars : (m.watch env).vars.bCollision = m.vars.bCollision := by
    rw [Module.watch]
    split <;> simp
  rw [waitInAutoIPBeforeLookforDHCP, waitLoop_ne_zero, hvars, Interrupted]
  cases hc : m.vars.bCollision with
  | true => simp [DHCPCHECK_TIME]
  | false => simp [watch_watched hc]

/-- The wait changes the watcher and `bCollision`. If it is interrupted, there is a watcher to join
unless there was none and the collision is from before. -/
theorem Inv.wait (h : m.Inv) (hauto : m.vars.bAutoConfiguredIP = true) :
    let t := (m.waitInAutoIPBeforeLookforDHCP env).2
    t.Inv ∧ t.orderly = m.orderly ∧ t.bInitialize = m.bInitialize ∧ t.vars.bAutoConfiguredIP = true ∧
      t.iface = m.iface ∧ t.cleared = m.cleared ∧
      (m.Interrupted env → t.vars.bCollision = true ∧
        (t.bthread = true ↔ (m.vars.bCollision = true → m.bthread = true))) := by
  intro t
  have hw := h.watch hauto env
  have ho := h.watch_orderly env
  have hbasic : (m.watch env).bInitialize = m.bInitialize ∧ (m.watch env).vars.bAutoConfiguredIP = true ∧
      (m.watch env).iface = m.iface ∧ (m.watch env).cleared = m.cleared := by
    rw [Module.watch]
    split <;> cases env.created <;> exact ⟨rfl, hauto, rfl, rfl⟩
  have hcases : t = m.watch env ∨ t = (m.watch env).collide := waitLoop_cases _ _ _
  have hthread : m.Interrupted env →
      ((m.watch env).bthread = true ↔ (m.vars.bCollision = true → m.bthread = true)) := by
    intro hint
    cases hc : m.vars.bCollision with
    | true => simp [Module.watch, hc]
    | false =>
        rcases hint with hf | ⟨hwatched, _⟩
        · rw [hc] at hf; cases hf
        · have hrun := (@watch_watched m env hc).mpr hwatched
          refine ⟨fun _ hf => (by cases hf), fun _ => ?_⟩
          by_contra hb
          simp [hw.watched (by simpa using hb)] at hrun
  have hset : m.Interrupted env → t.vars.bCollision = true :=
    fun hint => waitLoop_ret _ _ _ (wait_ne_zero.mpr hint)
  obtain ⟨hi, ha, hf, hcl⟩ := hbasic
  rcases hcases with heq | heq
  · rw [heq] at hset ⊢
    exact ⟨hw, ho, hi, ha, hf, hcl, fun hint => ⟨hset hint, hthread hint⟩⟩
  · rw [heq] at hset ⊢
    have hcol := hw.collide
    rw [collide_eq] at hset hcol ⊢
    exact ⟨hcol, ho, hi, ha, hf, hcl, fun hint => ⟨hset hint, hthread hint⟩⟩

end Wait

section Start

variable {env : StartEnv}

theorem foldl_search {c : Bool} {world : Env} : ∀ n i, (search c world n i).1.foldl (perform env) m = m := by
  intro n
  induction n with
  | zero => intro i; rfl
  | succ n ih =>
      intro i
      rw [search]
      split
      · rfl
      · exact ih (i + 1)

/-- A call that configures an address reads `bCollision` as the call before it has left it. -/
theorem Inv.collision_eq (h : m.Inv) (hstale : m.vars.stale = true) :
    collision m.vars (m.world env) = m.vars.bCollision := by
  rw [collision, world]
  cases hauto : m.vars.bAutoConfiguredIP with
  | false => simp [h.watched (h.unset hauto).1]
  | true =>
      have hc : m.vars.bCollision = true := by simpa [Vars.stale, hauto] using hstale
      simp [hc]

theorem Inv.search_eq (h : m.Inv) (hstale : m.vars.stale = true) :
    search (collision m.vars (m.world env)) (m.world env) AUTOIP_RETRY 0 =
      search m.vars.bCollision env.toEnv AUTOIP_RETRY 0 := by
  rw [h.collision_eq hstale, world, search_collided]

theorem configure_idle (hidle : m.vars.stale = false) : m.configure env = (0, m) := by
  simp [configure, hidle, dhcpAutoConfigureIP_idle hidle]

/-- The module at the first round of a call. -/
def stopped (m : Module) : Module := if m.vars.bStartUP then m else m.destroyThread

/-- Stopping the watcher touches neither the flags nor the interface. -/
theorem stopped_eq :
    m.stopped.vars = m.vars ∧ m.stopped.bInitialize = m.bInitialize ∧ m.stopped.iface = m.iface ∧
    m.stopped.cleared = m.cleared := by
  rw [stopped]
  split <;> exact ⟨rfl, rfl, rfl, rfl⟩

theorem foldl_stopped {su : Bool} (hsu : su = m.vars.bStartUP) :
    (if su then [] else [Act.destroyThread]).foldl (perform env) m = m.stopped := by
  rw [hsu, stopped]
  split <;> rfl

theorem Inv.configure_none (h : m.Inv) (hstale : m.vars.stale = true)
    (hnone : ¬Finds m.vars.bCollision env.toEnv) :
    m.configure env = (-1, m.stopped) := by
  have hnone' := Option.not_isSome_iff_eq_none.mp (mt finds_iff.mp hnone)
  rw [← h.search_eq hstale] at hnone'
  simp only [configure, dhcpAutoConfigureIP_none hstale hnone', hnone', hstale, if_true,
    List.foldl_append, foldl_search, Option.toList_none, List.nil_append]
  rw [h.collision_eq hstale, foldl_stopped rfl]

theorem Inv.stopped (h : m.Inv) :
    m.stopped.Threads ∧ m.stopped.bthread = false ∧
      m.stopped.orderly = ((m.vars.bStartUP || m.bthread) && m.orderly) := by
  rw [Module.stopped]
  cases hs : m.vars.bStartUP with
  | false => exact ⟨h.destroyThread, rfl, by simp [h.destroyThread_orderly]⟩
  | true => exact ⟨h.toThreads, h.starting hs, by simp⟩

/-- What holds after the address `ip` has been found free by a call in `m`. -/
structure Configured (env : StartEnv) (ip : BitVec 32) (m t : Module) : Prop extends Threads t where
  bAutoConfiguredIP : t.vars.bAutoConfiguredIP = true
  bStartUP : t.vars.bStartUP = m.vars.bStartUP
  bInitialize : t.bInitialize = m.bInitialize
  bthread : t.bthread = (env.created && !(m.vars.bStartUP && env.setAddress))
  orderly : t.orderly = ((if m.vars.bStartUP then !env.setAddress || env.created else m.bthread) && m.orderly)
  iface : env.setAddress = true → t.iface = some ip
  cleared : ip ∈ t.cleared

/-- The new watcher may find a collision at once. -/
theorem Threads.perform_create (h : m.Threads) (hb : m.bthread = false) :
    (perform env m (.createThread ip)).Threads ∧ (perform env m (.createThread ip)).bthread = env.created ∧
      (perform env m (.createThread ip)).orderly = m.orderly ∧
      (perform env m (.createThread ip)).vars.bAutoConfiguredIP = m.vars.bAutoConfiguredIP ∧
      (perform env m (.createThread ip)).vars.bStartUP = m.vars.bStartUP ∧
      (perform env m (.createThread ip)).bInitialize = m.bInitialize ∧
      (perform env m (.createThread ip)).cleared = m.cleared := by
  have ht := @Threads.createThread m ip h hb env.created
  have ho := @Threads.createThread_orderly m ip h hb env.created
  have hi : (m.createThread ip env.created).bInitialize = m.bInitialize := by cases env.created <;> rfl
  cases hc : env.collides with
  | false => simp [perform, hc, ht, ho, hi]
  | true =>
      simp only [perform, hc, if_true, collide_eq, createThread_vars]
      exact ⟨⟨ht.unwatch.free, ht.unwatch.held⟩, createThread_bthread _, ho, trivial, trivial, hi,
        createThread_cleared _⟩

theorem foldl_assign {v : Vars} {world : Env} (hset : world.setAddress = env.setAddress) :
    (assign v world ip).acts.foldl (perform env) m =
      let t := perform env m (.createThread ip)
      if env.setAddress then
        if v.bStartUP then { t with iface := some ip }.destroyThread else { t with iface := some ip }
      else t := by
  rw [assign, hset]
  cases hs : env.setAddress with
  | false => simp [perform, hs]
  | true => cases hv : v.bStartUP <;> simp [perform, hs]

/-- The part of the call behind its loop, from the module with the new variables on. -/
theorem Inv.assigned {v : Vars} {world : Env} (h : m.Inv) (hset : world.setAddress = env.setAddress)
    (hv : m.vars = (assign v world ip).vars) (hcl : ip ∈ m.cleared) :
    Configured env ip m ((assign v world ip).acts.foldl (perform env) m.stopped) := by
  obtain ⟨_, hauto, hstart⟩ := @assign_spec v world ip
  obtain ⟨hvars, hinit, _, hcl₀⟩ := @stopped_eq m
  obtain ⟨ht₀, hb₀, hord₀⟩ := h.stopped
  obtain ⟨ht, hthread, hord, hauto₁, hstart₁, hinit₁, hcl₁⟩ :=
    @Threads.perform_create m.stopped ip env ht₀ hb₀
  rw [foldl_assign hset, ← hstart, ← hv]
  generalize perform env m.stopped (.createThread ip) = t at ht hthread hord hauto₁ hstart₁ hinit₁ hcl₁
  rw [hvars] at hauto₁ hstart₁
  rw [← hv] at hauto
  rw [hord₀] at hord
  have hmem : ip ∈ t.cleared := by rwa [hcl₁, hcl₀]
  cases hs : env.setAddress with
  | false =>
      refine ⟨ht, hauto₁.trans hauto, hstart₁, hinit₁.trans hinit, by simp [hthread, hs],
        by simp [hord, hs], ?_, hmem⟩
      simp [hs]
  | true =>
      cases hup : m.vars.bStartUP with
      | false =>
          refine ⟨⟨ht.free, ht.held⟩, hauto₁.trans hauto, hstart₁, hinit₁.trans hinit,
            by simp [hthread, hup], ?_, fun _ => rfl, hmem⟩
          exact hord.trans (by simp [hup])
      | true =>
          refine ⟨⟨ht.destroyThread.free, ht.destroyThread.held⟩, hauto₁.trans hauto, hstart₁,
            hinit₁.trans hinit, by simp [hs, hup], ?_, fun _ => rfl, hmem⟩
          exact ht.destroyThread_orderly.trans (by simp [hthread, hord, hs, hup])

/-- A call that finds a free address succeeds exactly if the address can be set. -/
theorem Inv.configure_some (h : m.Inv) (hstale : m.vars.stale = true)
    (hfinds : Finds m.vars.bCollision env.toEnv) :
    ∃ ip t, m.configure env = (if env.setAddress then 0 else -1, t) ∧ Configured env ip m t := by
  obtain ⟨ip, hip⟩ := Option.isSome_iff_exists.mp (finds_iff.mpr hfinds)
  rw [← h.search_eq hstale] at hip
  obtain ⟨hret, hauto, hstart⟩ := @assign_spec m.vars (m.world env) ip
  let m' : Module := { m with vars := (assign m.vars (m.world env) ip).vars, cleared := ip :: m.cleared }
  have hm' : m'.Inv := ⟨⟨h.free, h.held⟩, fun hs => h.starting (hstart ▸ hs),
    fun hoff => by simp [m', hauto] at hoff⟩
  have hcall : m.configure env = (if env.setAddress then 0 else -1,
      (assign m.vars (m.world env) ip).acts.foldl (perform env) m'.stopped) := by
    simp only [configure, dhcpAutoConfigureIP_some hstale hip, hip, hstale, if_true, List.foldl_append,
      foldl_search, Option.toList_some, hret]
    rw [foldl_stopped hstart.symm]
    rfl
  obtain ⟨ht, ha, hs, hi, hb, ho, hf, hc⟩ :=
    @Inv.assigned m' ip env m.vars (m.world env) hm' rfl rfl List.mem_cons_self
  rw [show m'.vars.bStartUP = m.vars.bStartUP from hstart] at hs hb ho
  exact ⟨ip, _, hcall, ht, ha, hs, hi, hb, ho, hf, hc⟩

theorem Inv.configure (h : m.Inv) :
    ((m.configure env).1 = 0 ∨ m.vars.bStartUP = false → (m.configure env).2.Inv) ∧
      (m.configure env).2.bInitialize = m.bInitialize ∧
      ((m.configure env).1 = 0 ∨ m.vars.bAutoConfiguredIP = true →
        (m.configure env).2.vars.bAutoConfiguredIP = true) := by
  cases hstale : m.vars.stale with
  | false =>
      rw [configure_idle hstale]
      have hauto : m.vars.bAutoConfiguredIP = true := by
        cases ha : m.vars.bAutoConfiguredIP <;> simp [Vars.stale, ha] at hstale ⊢
      exact ⟨fun _ => h, rfl, fun _ => hauto⟩
  | true =>
      by_cases hfinds : Finds m.vars.bCollision env.toEnv
      · obtain ⟨ip, t, hcall, hconf⟩ := h.configure_some hstale hfinds
        rw [hcall]
        refine ⟨fun hok => ⟨hconf.toThreads, fun hs => ?_, fun hoff => ?_⟩, hconf.bInitialize,
          fun _ => hconf.bAutoConfiguredIP⟩
        · -- at start-up the call has succeeded, and so has stopped its watcher
          have hup : m.vars.bStartUP = true := hconf.bStartUP ▸ hs
          have hset : env.setAddress = true := by
            by_contra hset
            simp [hset, hup] at hok
          simp [hconf.bthread, hup, hset]
        · simp [hconf.bAutoConfiguredIP] at hoff
      · obtain ⟨hvars, hinit, _, _⟩ := @stopped_eq m
        obtain ⟨ht, hb, _⟩ := h.stopped
        rw [h.configure_none hstale hfinds]
        refine ⟨fun _ => ⟨ht, fun _ => hb, fun hoff => ⟨hb, ?_⟩⟩, hinit, fun hor => ?_⟩
        · rw [hvars] at hoff ⊢
          exact (h.unset hoff).2
        · exact hvars ▸ hor.resolve_left (by simp)

/-- A call joins only watchers exactly if, having to configure an address, it finds a watcher to join:
the old one, or at start-up the one it has created itself. -/
theorem Inv.configure_orderly (h : m.Inv) (hord : m.orderly = true) :
    (m.configure env).2.orderly = true ↔ (m.vars.stale = true →
      if m.vars.bStartUP then Finds m.vars.bCollision env.toEnv → env.setAddress = true → env.created = true
      else m.bthread = true) := by
  cases hstale : m.vars.stale with
  | false => simp [configure_idle hstale, hord]
  | true =>
      by_cases hfinds : Finds m.vars.bCollision env.toEnv
      · obtain ⟨ip, t, hcall, hconf⟩ := h.configure_some hstale hfinds
        rw [hcall]
        simp only [hconf.orderly, hord, Bool.and_true]
        cases hup : m.vars.bStartUP <;> cases hset : env.setAddress <;> simp [hfinds]
      · rw [h.configure_none hstale hfinds]
        simp only [h.stopped.2.2, hord, Bool.and_true]
        cases hup : m.vars.bStartUP <;> simp [hfinds]

/-- With an address configured, the interface carries an address that has been found free. -/
def Carries (m : Module) : Prop := m.vars.bAutoConfiguredIP = true → ∃ ip, m.iface = some ip ∧ ip ∈ m.cleared

/-- The address is one that a call in `m` may try. -/
def Candidate (m : Module) (env : StartEnv) (ip : BitVec 32) : Prop :=
  ∃ i < AUTOIP_RETRY, ip = candidate m.vars.bCollision env.toEnv i

/-- A call that fails leaves no address configured, and no watcher for an address it has tried. -/
def FailsClean (m : Module) (env : StartEnv) (r : Int × Module) : Prop :=
  r.1 ≠ 0 → r.2.vars.bAutoConfiguredIP = false ∧ ∀ w ∈ r.2.unjoined, w.running = true → ¬m.Candidate env w.ip

theorem Inv.configure_carries (h : m.Inv) (hcar : m.Carries) :
    (m.configure env).2.Carries ∧ m.FailsClean env (m.configure env) ↔ (m.vars.stale = true →
      (Finds m.vars.bCollision env.toEnv → env.setAddress = true) ∧
        (¬Finds m.vars.bCollision env.toEnv → m.vars.bAutoConfiguredIP = false)) := by
  cases hstale : m.vars.stale with
  | false => simp [configure_idle hstale, hcar, FailsClean]
  | true =>
      by_cases hfinds : Finds m.vars.bCollision env.toEnv
      · obtain ⟨ip, t, hcall, hconf⟩ := h.configure_some hstale hfinds
        rw [hcall]
        cases hset : env.setAddress with
        | false => simp [FailsClean, hconf.bAutoConfiguredIP, hfinds]
        | true =>
            have hcar' : t.Carries := fun _ => ⟨ip, hconf.iface hset, hconf.cleared⟩
            simp [FailsClean, hcar', hfinds]
      · obtain ⟨hvars, _, hiface, hcl⟩ := @stopped_eq m
        have hcar' : m.stopped.Carries := by
          rw [Carries, hvars, hiface, hcl]
          exact hcar
        have hnone : m.stopped.unjoined = [] := h.stopped.1.free h.stopped.2.1
        rw [h.configure_none hstale hfinds]
        simp [FailsClean, hcar', hvars, hnone, hfinds]

end Start

end Module

end CameraFw.AutoIp
