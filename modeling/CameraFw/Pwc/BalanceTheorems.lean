import CameraFw.Pwc.Lemmas.Contexts

/-!
# The range of the white balance

The factors follow the averages of the colours and the gains follow the factors, both by bounded steps.
Only the part of `topro_autowhitebalance` behind `GetBulkAvgRGB` and the change of the mode touch them,
and neither sleeps, so that their bounds hold for all contexts together.
-/

namespace CameraFw.Pwc

open CameraFw.Base

/-! ## One colour -/

/-- How a colour may move, with average `acc` against `accG` of green: the gain by a bounded step and
not past its target, the factor not away from green. -/
structure ColourMoves (acc accG factor factor' : Int) (gain gain' : Nat) : Prop where
  step_le : (gain' : Int) - gain ≤ CHK_GAIN_WT ∧ (gain : Int) - gain' ≤ CHK_GAIN_WT
  not_past : (gain ≤ gain' ∧ (gain' : Int) ≤ 0x40 + factor') ∨ (0x40 + factor' ≤ (gain' : Int) ∧ gain' ≤ gain)
  not_up : accG + 2 < acc → factor' ≤ factor
  not_down : acc + 2 < accG → factor ≤ factor'

section Colour

variable {most factor acc accG : Int} {gain : Nat}

theorem clampFactor_range (factor : Int) : -63 ≤ clampFactor factor ∧ clampFactor factor ≤ 190 := by
  unfold clampFactor
  omega

theorem moveFactor_not_up (hmost : 0 ≤ most) (hfactor : -63 ≤ factor) (h : accG + 2 < acc) :
    moveFactor most factor acc accG ≤ factor := by
  unfold moveFactor
  rw [if_pos (lt_abs.mpr (.inl (by omega))), if_pos (by omega)]
  split <;> omega

theorem moveFactor_not_down (hmost : 0 ≤ most) (hfactor : factor ≤ 190) (h : acc + 2 < accG) :
    factor ≤ moveFactor most factor acc accG := by
  unfold moveFactor
  rw [if_pos (lt_abs.mpr (.inr (by omega))), if_neg (by omega)]
  split <;> omega

/-- The target of a factor in its range is a byte. -/
theorem byte_target {factor : Int} (h : -63 ≤ factor ∧ factor ≤ 190) :
    (byte (0x40 + factor) : Int) = 0x40 + factor := by
  unfold byte
  omega

theorem checkGainData_moves (target : Nat) (h : gain ≤ 254) :
    ((checkGainData target gain : Int) - gain ≤ CHK_GAIN_WT ∧
      (gain : Int) - checkGainData target gain ≤ CHK_GAIN_WT) ∧
      ((gain ≤ checkGainData target gain ∧ checkGainData target gain ≤ target) ∨
        (target ≤ checkGainData target gain ∧ checkGainData target gain ≤ gain)) := by
  unfold checkGainData CHK_GAIN_WT
  split <;> omega

/-- One update of a colour, from a factor in its range. -/
theorem colour_moves (hmost : 0 ≤ most) (hfactor : -63 ≤ factor ∧ factor ≤ 190) (hgain : gain ≤ 254) :
    ColourMoves acc accG factor (clampFactor (moveFactor most factor acc accG)) gain
      (checkGainData (byte (0x40 + clampFactor (moveFactor most factor acc accG))) gain) := by
  have htarget := byte_target (clampFactor_range (moveFactor most factor acc accG))
  obtain ⟨hstep, hpast⟩ :=
    checkGainData_moves (byte (0x40 + clampFactor (moveFactor most factor acc accG))) hgain
  refine ⟨hstep, by omega, fun h => ?_, fun h => ?_⟩
  · have := moveFactor_not_up hmost hfactor.1 h
    unfold clampFactor
    omega
  · have := moveFactor_not_down hmost hfactor.2 h
    unfold clampFactor
    omega

end Colour

/-! ## The variables -/

structure Balance.InRange (w : Balance) : Prop where
  factorR : -63 ≤ w.factorR ∧ w.factorR ≤ 190
  factorB : -63 ≤ w.factorB ∧ w.factorB ≤ 190
  gainR : 1 ≤ w.gainR ∧ w.gainR ≤ 254
  gainB : 1 ≤ w.gainB ∧ w.gainB ≤ 254

/-- The factors and the gains are the same. -/
structure Balance.Same (w v : Balance) : Prop where
  factorR : v.factorR = w.factorR
  factorB : v.factorB = w.factorB
  gainR : v.gainR = w.gainR
  gainB : v.gainB = w.gainB

/-- The factors and the gains are those of a new mode. -/
structure Balance.Fresh (w : Balance) : Prop where
  factorR : w.factorR = 0
  factorB : w.factorB = 0
  gainR : w.gainR = 0x40
  gainB : w.gainB = 0x40

/-- Both colours have moved as they may; the average of blue is corrected by 1. -/
structure Balance.Moves (avg : Rgb) (w v : Balance) : Prop where
  red : ColourMoves avg.r.toNat avg.g.toNat w.factorR v.factorR w.gainR v.gainR
  blue : ColourMoves (avg.b.toNat - 1) avg.g.toNat w.factorB v.factorB w.gainB v.gainB

section Variables

variable {w v u : Balance} {avg : Rgb}

theorem Balance.Same.refl (w : Balance) : w.Same w := ⟨rfl, rfl, rfl, rfl⟩

theorem Balance.Same.of_eq (h : v = w) : w.Same v := h ▸ .refl v

theorem Balance.Same.trans (h : w.Same v) (h' : v.Same u) : w.Same u :=
  ⟨h'.factorR.trans h.factorR, h'.factorB.trans h.factorB, h'.gainR.trans h.gainR, h'.gainB.trans h.gainB⟩

theorem Balance.InRange.same (h : w.InRange) (hs : w.Same v) : v.InRange :=
  ⟨hs.factorR ▸ h.factorR, hs.factorB ▸ h.factorB, hs.gainR ▸ h.gainR, hs.gainB ▸ h.gainB⟩

theorem Balance.Fresh.inRange (h : w.Fresh) : w.InRange :=
  ⟨by rw [h.factorR]; decide, by rw [h.factorB]; decide, by rw [h.gainR]; decide, by rw [h.gainB]; decide⟩

theorem Balance.begin_same (w : Balance) : w.Same w.begin := ⟨rfl, rfl, rfl, rfl⟩

theorem Balance.update_moves (h : w.InRange) (avg : Rgb) : Balance.Moves avg w (w.update avg) :=
  ⟨colour_moves (by decide) h.factorR h.gainR.2, colour_moves (by decide) h.factorB h.gainB.2⟩

theorem ColourMoves.gain_range {acc accG factor factor' : Int} {gain gain' : Nat}
    (h : ColourMoves acc accG factor factor' gain gain') (hfactor : -63 ≤ factor' ∧ factor' ≤ 190)
    (hgain : 1 ≤ gain ∧ gain ≤ 254) : 1 ≤ gain' ∧ gain' ≤ 254 := by
  have := h.not_past
  omega

theorem Balance.update_inRange (h : w.InRange) (avg : Rgb) : (w.update avg).InRange := by
  have hm := w.update_moves h avg
  have hr := clampFactor_range (moveFactor 4 w.factorR avg.r.toNat avg.g.toNat)
  have hb := clampFactor_range (moveFactor 6 w.factorB (avg.b.toNat - 1) avg.g.toNat)
  exact ⟨hr, hb, hm.red.gain_range hr h.gainR, hm.blue.gain_range hb h.gainB⟩

end Variables

/-! ## The contexts -/

section Parts

variable (s : Control) (r : Reading)

theorem startFps_balance (expoWas expoIs : Int) :
    (startFps s expoWas expoIs).control.balance = s.balance := by
  unfold startFps
  dsimp only
  split <;> rfl

theorem startExposure_balance : (startExposure s).control.balance = s.balance := by
  unfold startExposure
  dsimp only
  split
  · rfl
  · split <;> rfl

theorem startBalance_same : s.balance.Same (startBalance s).control.balance := by
  unfold startBalance
  dsimp only
  split
  · exact .refl _
  · split <;> exact s.balance.begin_same

/-- Only the stage behind `GetBulkAvgRGB` moves the balance, and it sleeps again then. -/
theorem resume_balance (stage : Stage) :
    (resume s r stage).control.balance = s.balance ∨
      (resume s r stage).control.balance = s.balance.update r.avg ∧
        (resume s r stage).next = some .gains := by
  cases stage with
  | averageRgb => exact .inr ⟨rfl, rfl⟩
  | average =>
      left
      simp only [resume]
      split
      · rfl
      · split
        · rfl
        · rw [Part.after_control, startFps_balance]
  | averageOff => exact .inl rfl
  | frameRate expoIs => exact .inl rfl
  | exposureTime expo => exact .inl rfl
  | exposureGain => exact .inl rfl
  | gains => exact .inl rfl

end Parts

section Worlds

variable {w t : World} {c : Context} {f : Stage → Pos} {p : Part} {k : World → World × List Op} {b : Balance}

/-- What goes on behind the part keeps the balance. -/
def KeepsBalance (k : World → World × List Op) : Prop :=
  ∀ u : World, u.control.balance.Same (k u).1.control.balance

theorem runPart_same (hk : KeepsBalance k) (hp : b.Same p.control.balance) :
    b.Same (w.runPart c f p k).1.control.balance := by
  unfold World.runPart
  dsimp only
  split
  · exact hp
  · exact hp.trans (hk { w with control := p.control })

theorem leave_keeps (c : Context) : KeepsBalance (World.leave c) := fun _ => .refl _

theorem irisRest_keeps : KeepsBalance World.irisRest := fun _ => .refl _

theorem ioctlDone_keeps (n : Nat) : KeepsBalance (World.ioctlDone n) := fun _ => .refl _

theorem irisBalance_keeps : KeepsBalance World.irisBalance := fun u =>
  runPart_same irisRest_keeps (startBalance_same u.control)

theorem readExposure_keeps (n : Nat) : KeepsBalance (World.readExposure n) := fun u =>
  runPart_same (leave_keeps _) (.of_eq (startExposure_balance u.control))

/-- The balance is kept, or has been updated with the averages that have just been read. -/
def Settled (r : Reading) (b b' : Balance) : Prop := b.Same b' ∨ b' = b.update r.avg

theorem runPart_resume {r : Reading} {stage : Stage} (hk : KeepsBalance k) :
    Settled r w.control.balance (w.runPart c f (resume w.control r stage) k).1.control.balance := by
  rcases resume_balance w.control r stage with hsame | ⟨hupdate, hnext⟩
  · exact .inl (runPart_same hk (.of_eq hsame))
  · right
    rw [World.runPart, hnext]
    exact hupdate

theorem resumeAt_settled (r : Reading) (c : Context) (p : Pos) :
    Settled r w.control.balance (w.resumeAt r c p).1.control.balance := by
  fun_cases World.resumeAt w r c p
  · exact runPart_resume irisBalance_keeps
  · exact runPart_resume irisRest_keeps
  · exact runPart_resume (readExposure_keeps _)
  · exact runPart_resume (leave_keeps _)
  · exact runPart_resume (ioctlDone_keeps _)
  · exact runPart_resume (leave_keeps _)
  · exact .inl (.refl _)
  · exact .inl (.refl _)

theorem Balance.ioctl_change (w : Balance) (d : Dev) (call : Call) :
    w.Same (w.ioctl d call) ∨ (w.ioctl d call).Fresh := by
  unfold Balance.ioctl
  split
  · split
    · exact .inr ⟨rfl, rfl, rfl, rfl⟩
    · exact .inl (.refl _)
  · exact .inl (.refl _)

theorem ioctl_change (w : World) (n : Nat) (call : Call) :
    w.control.balance.Same (w.ioctl n call).1.control.balance ∨ (w.ioctl n call).1.control.balance.Fresh := by
  unfold World.ioctl
  split
  · exact .inl (runPart_same (ioctlDone_keeps n) (.of_eq (startFps_balance _ _ _)))
  · exact .inl (runPart_same (ioctlDone_keeps n) (.of_eq (startFps_balance _ _ _)))
  · exact w.control.balance.ioctl_change w.control.ctl.dev call

/-- A step leaves the factors and gains alone, or sets them for a new mode, or moves them as they may. -/
def World.BalanceFair (w : World) (e : Switch) : Prop :=
  ∀ t, w.step e = some t →
    w.control.balance.Same t.control.balance ∨ (∃ n call, e = .ioctl n call ∧ t.control.balance.Fresh) ∨
      ∃ c r, e = .resume c r ∧ Balance.Moves r.avg w.control.balance t.control.balance

/-- What a step does to the balance, whatever it was. -/
theorem step_balance {e : Switch} (ht : w.step e = some t) :
    w.control.balance.Same t.control.balance ∨ (∃ n call, e = .ioctl n call ∧ t.control.balance.Fresh) ∨
      ∃ c r, e = .resume c r ∧ t.control.balance = w.control.balance.update r.avg := by
  obtain ⟨x, hgo, rfl⟩ := Option.map_eq_some_iff.mp ht
  cases e with
  | iris =>
      simp only [World.go, Option.ite_none_right_eq_some, Option.some.injEq] at hgo
      obtain ⟨_, rfl⟩ := hgo
      exact .inl (runPart_same irisBalance_keeps (.of_eq (startExposure_balance w.control)))
  | ioctl n call =>
      simp only [World.go, Option.ite_none_right_eq_some, Option.some.injEq] at hgo
      obtain ⟨_, rfl⟩ := hgo
      exact (ioctl_change w n call).imp_right fun h => .inl ⟨n, call, rfl, h⟩
  | window n =>
      simp only [World.go, Option.ite_none_right_eq_some, Option.some.injEq] at hgo
      obtain ⟨_, rfl⟩ := hgo
      exact .inl (runPart_same (leave_keeps _) (.of_eq (startFps_balance _ _ _)))
  | read n =>
      simp only [World.go, Option.ite_none_right_eq_some, Option.some.injEq] at hgo
      obtain ⟨_, rfl⟩ := hgo
      exact .inl (runPart_same (readExposure_keeps n) (startBalance_same w.control))
  | resume c r =>
      simp only [World.go, Option.map_eq_some_iff] at hgo
      obtain ⟨p, _, rfl⟩ := hgo
      exact (resumeAt_settled r c p).imp_right fun h => .inr ⟨c, r, rfl, h⟩

theorem step_inRange {e : Switch} (h : w.control.balance.InRange) (ht : w.step e = some t) :
    t.control.balance.InRange := by
  rcases step_balance ht with hsame | ⟨_, _, _, hfresh⟩ | ⟨_, r, _, hupdate⟩
  · exact h.same hsame
  · exact hfresh.inRange
  · rw [hupdate]
    exact w.control.balance.update_inRange h r.avg

theorem balanceFair_of_inRange (h : w.control.balance.InRange) (e : Switch) : w.BalanceFair e := by
  intro t ht
  refine (step_balance ht).imp_right fun hcase => hcase.imp_right ?_
  rintro ⟨c, r, he, hupdate⟩
  exact ⟨c, r, he, hupdate ▸ w.control.balance.update_moves h r.avg⟩

end Worlds

/-- Whatever is read, asked for and in which order the contexts go on: the factors and gains stay in
their ranges, and each step is fair. -/
theorem balance_fair (d : Dev) (es : List Switch) :
    Always World.step (fun w => w.control.balance.InRange) (World.started d) es ∧
      Along World.step World.BalanceFair (World.started d) es := by
  have halways : Always World.step (fun w => w.control.balance.InRange) (World.started d) es :=
    always_of_step (fun w e t h ht => step_inRange h ht) es _ (Balance.Fresh.inRange ⟨rfl, rfl, rfl, rfl⟩)
  exact ⟨halways, halways.along fun w e h => balanceFair_of_inRange h e⟩

end CameraFw.Pwc
