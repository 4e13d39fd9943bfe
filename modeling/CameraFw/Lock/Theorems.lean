import CameraFw.Lock.System

/-!
# What the lock excludes

`lock_smb_fd` closes its descriptor at `errout` also when `flock` was granted, so a process that has
returned from it no longer has the lock. Two processes are kept apart only as long as none is granted
the lock while another one is behind it.
-/

namespace CameraFw.Lock

open CameraFw.Base

section

variable {P : Type} {s t : St P} {p q : P}

def Granted (x : Proc) : Prop :=
  match x.pc with
  | .behind i => i.val ≠ 20
  | .errout => x.fd ≠ -1
  | _ => False

def Entered (s : St P) (p : P) : Prop := Granted (s.proc p) ∨ Inside s p

theorem not_entered_of_pc {pc : Pc} (h : (s.proc p).pc = pc) (hb : ∀ i, pc ≠ .behind i) (he : pc ≠ .errout)
    (hr : pc ≠ .ret) (hw : pc ≠ .work) : ¬ Granted (s.proc p) ∧ ¬ Entered s p := by
  have hg : ¬ Granted (s.proc p) := by
    unfold Granted
    rw [h]
    cases pc with
    | behind i => exact absurd rfl (hb i)
    | errout => exact absurd rfl he
    | _ => exact id
  refine ⟨hg, ?_⟩
  rintro (h' | h' | ⟨h', -⟩)
  · exact hg h'
  · exact hw (h ▸ h')
  · exact hr (h ▸ h')

/-- A step that is not a granted `flock`: the lock stays or is given back, and nobody enters. -/
structure Quiet (s t : St P) (p : P) : Prop where
  owner : t.owner = s.owner ∨ (s.owner = some p ∧ t.owner = none)
  entered : Entered t p → Entered s p
  granted : Granted (t.proc p) → Granted (s.proc p) ∧ t.owner = s.owner

theorem quiet_of_pc {pc : Pc} (ho : t.owner = s.owner ∨ (s.owner = some p ∧ t.owner = none))
    (h : (t.proc p).pc = pc) (hb : ∀ i, pc ≠ .behind i) (he : pc ≠ .errout) (hr : pc ≠ .ret)
    (hw : pc ≠ .work) :
    Quiet s t p :=
  have hno := not_entered_of_pc h hb he hr hw
  ⟨ho, fun h => absurd h hno.2, fun h => absurd h hno.1⟩

theorem quiet_fail {x : Proc} (ho : t.owner = s.owner ∨ (s.owner = some p ∧ t.owner = none))
    (h : t.proc p = x) (hpc : x.pc = .errout) (hfd : x.fd = -1) : Quiet s t p := by
  have hg : ¬ Granted (t.proc p) := by
    rw [h, Granted, hpc]; exact fun hc => hc hfd
  refine ⟨ho, ?_, fun h => absurd h hg⟩
  rintro (h' | h' | ⟨h', -⟩)
  · exact absurd h' hg
  · rw [h, hpc] at h'; cases h'
  · rw [h, hpc] at h'; cases h'

/-! ## The invariant -/

/-- The lock is with the process that was granted it until that closes its descriptor, and at most one
process has entered. -/
structure Inv (s : St P) : Prop where
  owner : ∀ q, Granted (s.proc q) → s.owner = some q
  alone : ∀ p q, Entered s p → Entered s q → p = q

def GrantedAlone (s : St P) (l : P × Act) : Prop := l.2 = .flock true → ∀ q, q ≠ l.1 → ¬ Inside s q

instance [Fintype P] [DecidableEq P] (s : St P) (l : P × Act) : Decidable (GrantedAlone s l) :=
  inferInstanceAs (Decidable (l.2 = .flock true → ∀ q, q ≠ l.1 → ¬ Inside s q))

theorem inv_init (prog : Program) : Inv (init prog : St P) := by
  have hno : ∀ p, ¬ Entered (init prog : St P) p := by
    intro p
    cases prog with
    | smbcRec => exact (not_entered_of_pc (show _ = Pc.open from rfl) nofun nofun nofun nofun).2
    | smbcPut => exact (not_entered_of_pc (show _ = Pc.args from rfl) nofun nofun nofun nofun).2
  exact ⟨fun q h => absurd (Or.inl h) (hno q), fun p _ h _ => absurd h (hno p)⟩

variable [DecidableEq P]

/-! ## The parts of a step -/

@[simp] theorem set_self (x : Proc) : (s.set p x).proc p = x := Function.update_self ..
theorem set_other (x : Proc) (h : q ≠ p) : (s.set p x).proc q = s.proc q := Function.update_of_ne h ..

@[simp] theorem goto_self (pc : Pc) : (s.goto p pc).proc p = { s.proc p with pc := pc } := set_self _
@[simp] theorem goto_owner (pc : Pc) : (s.goto p pc).owner = s.owner := rfl
theorem goto_other (pc : Pc) (h : q ≠ p) : (s.goto p pc).proc q = s.proc q := set_other _ h

theorem close_other (h : q ≠ p) : (s.close p).proc q = s.proc q := set_other _ h

theorem close_owner : (s.close p).owner = s.owner ∨ (s.owner = some p ∧ (s.close p).owner = none) := by
  simp only [St.close]
  split
  · rename_i h; exact Or.inr ⟨h.1, rfl⟩
  · exact Or.inl rfl

@[simp] theorem exit_self : ((s.exit p).proc p).pc = .exited := by simp [St.exit]
theorem exit_other (h : q ≠ p) : (s.exit p).proc q = s.proc q := by
  rw [St.exit, goto_other _ h, close_other h]

theorem exit_owner : (s.exit p).owner = s.owner ∨ (s.owner = some p ∧ (s.exit p).owner = none) := by
  rw [St.exit, goto_owner]; exact close_owner

/-! ## What a step does -/

theorem quiet_goto {pc : Pc} (hb : ∀ i, pc ≠ .behind i) (he : pc ≠ .errout) (hr : pc ≠ .ret)
    (hw : pc ≠ .work) :
    Quiet s (s.goto p pc) p :=
  quiet_of_pc (Or.inl rfl) (by rw [goto_self]) hb he hr hw

theorem quiet_exit : Quiet s (s.exit p) p :=
  quiet_of_pc exit_owner exit_self nofun nofun nofun nofun

theorem quiet_behind {i : Fin 21} (hpc : (s.proc p).pc = .behind i) (hi : i.val ≠ 20) :
    Quiet s (s.goto p .errout) p := by
  have hg : Granted (s.proc p) := by rw [Granted, hpc]; exact hi
  exact ⟨Or.inl rfl, fun _ => Or.inl hg, fun _ => ⟨hg, rfl⟩⟩

/-- Behind its last round the loop has not got the lock. -/
theorem quiet_looped {i : Fin 20} (hend : ¬i.val + 1 < 20) : Quiet s (s.goto p (.behind i.succ)) p := by
  have hi : i.succ.val = 20 := by have := i.isLt; simp only [Fin.val_succ]; omega
  have hno : ¬ Granted ((s.goto p (.behind i.succ)).proc p) := by
    rw [goto_self, Granted]; exact fun hc => hc hi
  refine ⟨Or.inl rfl, ?_, fun h => absurd h hno⟩
  rintro (h | h | ⟨h, -⟩)
  · exact absurd h hno
  · rw [goto_self] at h; cases h
  · rw [goto_self] at h; cases h

theorem quiet_errout (hpc : (s.proc p).pc = .errout) :
    Quiet s (if (s.proc p).fd ≠ -1 then (s.close p).goto p .ret else s.goto p .ret) p := by
  have hno : ∀ x : Proc, x.pc = .ret → ¬ Granted x := by
    intro x hx; rw [Granted, hx]; exact id
  split
  · rename_i hfd
    have hg : Granted (s.proc p) := by rw [Granted, hpc]; exact hfd
    refine ⟨by rw [goto_owner]; exact close_owner, fun _ => Or.inl hg, fun h => absurd h (hno _ ?_)⟩
    rw [goto_self]
  · rename_i hfd
    have hret : ((s.goto p .ret).proc p).pc = .ret := by rw [goto_self]
    refine ⟨Or.inl rfl, ?_, fun h => absurd h (hno _ hret)⟩
    rintro (h | h | ⟨-, h⟩)
    · exact absurd h (hno _ hret)
    · rw [hret] at h; cases h
    · rw [goto_self] at h; exact absurd h hfd

theorem quiet_ret (hpc : (s.proc p).pc = .ret) :
    Quiet s (if (s.proc p).fd = -1 then s.exit p else s.goto p .work) p := by
  split
  · exact quiet_exit
  · rename_i hfd
    refine ⟨Or.inl rfl, fun _ => Or.inr (Or.inr ⟨hpc, hfd⟩), fun h => ?_⟩
    rw [goto_self, Granted] at h
    exact absurd h id

/-- A step of `p` leaves the other processes alone; it is a granted `flock`, or a quiet step. -/
theorem step_cases {a : Act} (h : step s (p, a) = some t) :
    (∀ q, q ≠ p → t.proc q = s.proc q) ∧
      ((a = .flock true ∧ (s.owner = none ∨ s.owner = some p) ∧ t.owner = some p) ∨ Quiet s t p) := by
  unfold step at h
  simp only at h
  split at h
  · -- the argument check of `smbc_put`
    cases h
    split
    · exact ⟨fun q hq => goto_other _ hq, Or.inr (quiet_goto nofun nofun nofun nofun)⟩
    · exact ⟨fun q hq => exit_other hq, Or.inr quiet_exit⟩
  · -- `open` fails
    cases h
    exact ⟨fun q hq => set_other _ hq, Or.inr (quiet_fail (Or.inl rfl) (set_self _) rfl rfl)⟩
  · rename_i n _
    cases h
    have hpc : ((s.set p ⟨.loop 0, n, true⟩).proc p).pc = .loop 0 := by rw [set_self]
    exact ⟨fun q hq => set_other _ hq, Or.inr (quiet_of_pc (Or.inl rfl) hpc nofun nofun nofun nofun)⟩
  · -- `flock` is granted
    split at h
    · rename_i hfree
      cases h
      exact ⟨fun q hq => goto_other _ hq, Or.inl ⟨rfl, hfree, rfl⟩⟩
    · cases h
  · cases h
    exact ⟨fun q hq => goto_other _ hq, Or.inr (quiet_goto nofun nofun nofun nofun)⟩
  · -- the loop goes on, or ends with `i == 20`
    cases h
    refine ⟨fun q hq => goto_other _ hq, Or.inr ?_⟩
    split
    · exact quiet_goto nofun nofun nofun nofun
    · exact quiet_looped ‹_›
  · rename_i i hpc
    cases h
    split
    · refine ⟨fun q hq => by rw [set_other _ hq, close_other hq], Or.inr ?_⟩
      exact quiet_fail close_owner (set_self _) rfl rfl
    · rename_i hi
      exact ⟨fun q hq => goto_other _ hq, Or.inr (quiet_behind hpc hi)⟩
  · rename_i hpc
    cases h
    refine ⟨fun q hq => ?_, Or.inr (quiet_errout hpc)⟩
    split
    · rw [goto_other _ hq, close_other hq]
    · rw [goto_other _ hq]
  · rename_i hpc
    cases h
    refine ⟨fun q hq => ?_, Or.inr (quiet_ret hpc)⟩
    split
    · rw [exit_other hq]
    · rw [goto_other _ hq]
  · cases h
    exact ⟨fun q hq => exit_other hq, Or.inr quiet_exit⟩
  · cases h
  · -- killed
    cases h
    exact ⟨fun q hq => exit_other hq, Or.inr quiet_exit⟩
  · cases h

/-! ## Mutual exclusion -/

theorem inv_step {l : P × Act} (hi : Inv s) (hg : GrantedAlone s l) (h : step s l = some t) : Inv t := by
  obtain ⟨p, a⟩ := l
  obtain ⟨hother, hstep⟩ := step_cases h
  have hgr : ∀ q, q ≠ p → Granted (t.proc q) → Granted (s.proc q) := fun q hq h => hother q hq ▸ h
  have hen : ∀ q, q ≠ p → Entered t q → Entered s q := by
    intro q hq h
    unfold Entered Inside at h ⊢
    rwa [hother q hq] at h
  rcases hstep with ⟨rfl, hfree, howner⟩ | hquiet
  · -- whoever has entered before still has the lock, or is behind it: there is no such process but `p`
    have hnone : ∀ q, q ≠ p → ¬ Entered s q := by
      rintro q hq (h | h)
      · rcases hfree with hf | hf
        · rw [hi.owner q h] at hf; cases hf
        · rw [hi.owner q h] at hf; cases hf; exact hq rfl
      · exact hg rfl q hq h
    have hp : ∀ q, Entered t q → q = p := fun q h => by_contra fun hq => hnone q hq (hen q hq h)
    refine ⟨fun q h => ?_, fun q r hq hr => (hp q hq).trans (hp r hr).symm⟩
    rw [hp q (Or.inl h), howner]
  · have hall : ∀ q, Entered t q → Entered s q := by
      intro q hq'
      by_cases hq : q = p
      · subst hq; exact hquiet.entered hq'
      · exact hen q hq hq'
    refine ⟨fun q hq' => ?_, fun q r hq hr => hi.alone q r (hall q hq) (hall r hr)⟩
    by_cases hq : q = p
    · subst hq
      obtain ⟨h', ho⟩ := hquiet.granted hq'
      rw [ho, hi.owner q h']
    · have ho := hi.owner q (hgr q hq hq')
      rcases hquiet.owner with h' | ⟨h', -⟩
      · rw [h', ho]
      · rw [ho] at h'; cases h'; exact absurd rfl hq

/-- As long as `flock` is granted only while no other process is behind the lock, at most one process is. -/
theorem lock_exclusive (prog : Program) (ls : List (P × Act)) (h : Along step GrantedAlone (init prog) ls) :
    Always step Exclusive (init prog : St P) ls := by
  have hinv := always_of_along (I := Inv) (fun s l t hi hg hs => inv_step hi hg hs) ls (init prog)
    (inv_init prog) h
  exact hinv.imp fun s hi p q hp hq => hi.alone p q (Or.inr hp) (Or.inr hq)

end

def enter {P : Type} (prog : Program) (p : P) : List (P × Act) :=
  (match prog with | .smbcRec => [] | .smbcPut => [(p, .args true)]) ++
    [(p, .open (some 3)), (p, .flock true), (p, .go), (p, .go), (p, .go)]

/-- Two processes enter one after the other; the first has not ended when the second is granted the lock. -/
theorem lock_shared :
    (∃ s : St Bool, run step (init .smbcRec) (enter .smbcRec false ++ enter .smbcRec true) = some s ∧
      ¬ Exclusive s) ∧
    (∃ s : St Bool, run step (init .smbcPut) (enter .smbcPut false ++ enter .smbcPut true) = some s ∧
      ¬ Exclusive s) :=
  ⟨⟨_, rfl, fun h => absurd (h false true (Or.inl rfl) (Or.inl rfl)) (by decide)⟩,
    ⟨_, rfl, fun h => absurd (h false true (Or.inl rfl) (Or.inl rfl)) (by decide)⟩⟩

theorem lock_exclusive_inTurn :
    Always step Exclusive (init .smbcRec : St Bool)
      (enter .smbcRec false ++ [(false, .exit)] ++ enter .smbcRec true) := by
  exact lock_exclusive .smbcRec _ (by decide)

end CameraFw.Lock
