import CameraFw.Pwc.Contexts

/-!
# Passes in parts

Parts that nobody disturbs make up the passes as `Pwc.Exposure` and `Pwc.WhiteBalance` have them, and so
does a context that goes on alone. A step of one context leaves the others where they sleep, and puts
its own into a pass only if it runs one.
-/

namespace CameraFw.Pwc

open CameraFw.Base

/-! ## Undisturbed passes -/

section Undisturbed

variable (s : Control) (r : Reading)

@[simp]
theorem Part.after_control (p : Part) (ops : List Op) : (p.after ops).control = p.control := rfl

theorem Part.finish_none {p : Part} (h : p.next = none) (n : Nat) : p.finish r n = p := by
  cases n with
  | zero => rfl
  | succ n => rw [Part.finish, h]

theorem Part.finish_some {p : Part} {stage : Stage} (h : p.next = some stage) (n : Nat) :
    p.finish r (n + 1) = ((resume p.control r stage).after p.ops).finish r n := by
  rw [Part.finish, h]

theorem Part.after_after (p : Part) (a b : List Op) : (p.after a).after b = p.after (b ++ a) := by
  simp [Part.after]

theorem Part.finish_after :
    ∀ (n : Nat) (p : Part) (ops : List Op), (p.after ops).finish r n = (p.finish r n).after ops := by
  intro n
  induction n with
  | zero => intro p ops; rfl
  | succ n ih =>
      intro p ops
      cases h : p.next with
      | none => rw [Part.finish_none r h, Part.finish_none r (p := p.after ops) h]
      | some stage =>
          rw [Part.finish_some r h, Part.finish_some r (p := p.after ops) h, Part.after_control, ih, ih,
            Part.after_after]
          rfl

theorem startSetexposure_finish (n : Nat) (expo : Int) :
    (startSetexposure s expo).finish r (n + 2) = ⟨s, setexposure s.ctl expo, none⟩ := by
  unfold startSetexposure setexposure
  dsimp only
  split
  · rw [Part.finish_none r rfl, List.append_nil]
  · rw [Part.finish_some r rfl, Part.finish_after, Part.finish_some r rfl, Part.finish_after]
    rw [Part.finish_none r rfl]
    simp [Part.after, resume]

theorem startFps_finish (n : Nat) (expoWas expoIs : Int) :
    (startFps s expoWas expoIs).finish r (n + 3) =
      ⟨{ s with ctl := (fpsControl s.ctl expoWas expoIs).1 },
        (fpsControl s.ctl expoWas expoIs).2 ++ setexposure (fpsControl s.ctl expoWas expoIs).1
          (fpsControl s.ctl expoWas expoIs).1.currentExposure, none⟩ := by
  unfold startFps fpsControl
  dsimp only
  split
  · rename_i hsame
    rw [Part.finish_after, setCurrent, startSetexposure_finish, hsame]
    simp [Part.after, fpsWrites]
  · rw [Part.finish_some r rfl, Part.finish_after, resume, setCurrent, startSetexposure_finish]
    rfl

theorem setexposure_checkRange (c : Ctl) (expo : Int) :
    setexposure c (checkRangeExposure 1 c.maxExposure expo) = setexposure c expo := by
  have hsame : checkRangeExposure 1 c.maxExposure (checkRangeExposure 1 c.maxExposure expo) =
      checkRangeExposure 1 c.maxExposure expo := by
    unfold checkRangeExposure
    omega
  simp only [setexposure, hsame]

/-- An ioctl that sets the exposure, undisturbed. It passes its argument to `topro_setexposure`, which
bounds it once more. -/
theorem setting_finish (expo : Int) :
    (startFps s s.ctl.currentExposure expo).finish r 3 =
      ⟨{ s with ctl := (fpsControl s.ctl s.ctl.currentExposure expo).1 },
        (fpsControl s.ctl s.ctl.currentExposure expo).2 ++
          setexposure (fpsControl s.ctl s.ctl.currentExposure expo).1 expo, none⟩ := by
  rw [startFps_finish]
  exact congrArg (fun ops => Part.mk _ (_ ++ ops) none)
    (setexposure_checkRange (fpsControl s.ctl s.ctl.currentExposure expo).1 expo)

/-- Automatic exposure, undisturbed. -/
theorem startExposure_finish :
    (startExposure s).finish r 4 = ⟨{ s with ctl := (autoexposure s.ctl r.accY).1 },
      (autoexposure s.ctl r.accY).2, none⟩ := by
  unfold startExposure autoexposure
  dsimp only
  split
  · rw [Part.finish_some r rfl, Part.finish_none r rfl]
    rfl
  · split
    · rw [Part.finish_none r rfl]
    · rw [Part.finish_some r rfl, Part.finish_after, resume]
      split
      · rw [Part.finish_none r rfl]
        rfl
      · dsimp only
        split
        · rw [Part.finish_none r rfl]
          rfl
        · rw [Part.finish_after, startFps_finish]
          simp [Part.after]

/-- White balance, undisturbed. -/
theorem startBalance_finish :
    (startBalance s).finish r 2 =
      ⟨{ s with balance := (autowhitebalance s.ctl s.balance r.avg).1 },
        (autowhitebalance s.ctl s.balance r.avg).2, none⟩ := by
  unfold startBalance autowhitebalance
  dsimp only
  split
  · rw [Part.finish_none r rfl]
  · split
    · rw [Part.finish_none r rfl]
    · rw [Part.finish_some r rfl, Part.finish_after, resume, Part.finish_some r rfl]
      simp [Part.after, resume, Part.finish]

end Undisturbed

/-! ## Contexts inside a pass -/

def Pos.inPass : Pos → Bool
  | .exposure _ => true
  | .balance _ => true
  | .iris => false
  | .setting _ => false

/-- The context sleeps inside `topro_autoexposure` or `topro_autowhitebalance`. -/
def World.Inside (w : World) (c : Context) : Prop := (w.pos c).any Pos.inPass = true

/-- The step executes code of one of the two. -/
def Switch.Runs (w : World) : Switch → Prop
  | .iris => True
  | .read _ => True
  | .resume c _ => w.Inside c
  | .ioctl _ _ => False
  | .window _ => False

section Steps

variable {w t : World} {c : Context} {Q : Option Pos → Prop}

/-- Contexts other than `c` sleep where they did. -/
def World.Only (w : World) (c : Context) (t : World) : Prop := ∀ d, d ≠ c → t.pos d = w.pos d

/-- And the position of `c` meets `Q`. -/
structure World.Lands (w : World) (c : Context) (Q : Option Pos → Prop) (t : World) : Prop where
  only : w.Only c t
  lands : Q (t.pos c)

theorem move_pos (p : Option Pos) : (t.move c p).pos = Function.update t.pos c p := rfl

theorem move_lands {p : Option Pos} (h : w.Only c t) (hp : Q p) : w.Lands c Q (t.move c p) := by
  refine ⟨fun d hd => ?_, ?_⟩
  · rw [move_pos, Function.update_of_ne hd]
    exact h d hd
  · rw [move_pos, Function.update_self]
    exact hp

theorem runPart_lands {f : Stage → Pos} {p : Part} {k : World → World × List Op} (h : w.Only c t)
    (hf : ∀ stage, Q (some (f stage))) (hk : ∀ u, w.Only c u → w.Lands c Q (k u).1) :
    w.Lands c Q (t.runPart c f p k).1 := by
  unfold World.runPart
  dsimp only
  split
  · exact move_lands (t := { t with control := p.control }) h (hf _)
  · exact hk _ h

theorem leave_lands (h : w.Only c t) (hnone : Q none) : w.Lands c Q (t.leave c).1 := move_lands h hnone

theorem irisBalance_lands (hQ : ∀ p, Q p) (h : w.Only .iris t) : w.Lands .iris Q t.irisBalance.1 :=
  runPart_lands h (fun _ => hQ _) fun _ hu => move_lands hu (hQ _)

theorem readExposure_lands {n : Nat} (hQ : ∀ p, Q p) (h : w.Only (.read n) t) :
    w.Lands (.read n) Q (t.readExposure n).1 :=
  runPart_lands h (fun _ => hQ _) fun _ hu => leave_lands hu (hQ _)

theorem ioctlDone_lands {n : Nat} (hnone : Q none) (h : w.Only (.ioctl n) t) :
    w.Lands (.ioctl n) Q (t.ioctlDone n).1 :=
  move_lands (t := { t with free := true }) h hnone

theorem ioctl_lands {n : Nat} {call : Call} (hidle : w.pos (.ioctl n) = none) (hnone : Q none)
    (hsetting : ∀ stage, Q (some (.setting stage))) : w.Lands (.ioctl n) Q (w.ioctl n call).1 := by
  have hset : ∀ s p, w.Lands (.ioctl n) Q
      (({ w with control := s, free := false }).runPart (.ioctl n) .setting p (World.ioctlDone n)).1 :=
        fun s p =>
    runPart_lands (fun _ _ => rfl) hsetting fun _ => ioctlDone_lands hnone
  unfold World.ioctl
  split
  · exact hset w.control _
  · exact hset w.control _
  · exact ⟨fun _ _ => rfl, hidle.symm ▸ hnone⟩

/-- A context that goes on is inside a pass only if it was. -/
theorem resumeAt_lands {r : Reading} {p : Pos} (hp : w.pos c = some p) :
    w.Lands c (fun q => q.any Pos.inPass = true → w.Inside c) (w.resumeAt r c p).1 := by
  have hself : w.Only c w := fun _ _ => rfl
  have hin : p.inPass = true → w.Inside c := by
    intro h
    simpa [World.Inside, hp] using h
  fun_cases World.resumeAt w r c p
  · exact runPart_lands hself (fun _ _ => hin rfl) fun u hu => irisBalance_lands (fun _ _ => hin rfl) hu
  · exact runPart_lands hself (fun _ _ => hin rfl) fun u hu => move_lands hu fun _ => hin rfl
  · exact runPart_lands hself (fun _ _ => hin rfl) fun u hu => readExposure_lands (fun _ _ => hin rfl) hu
  · exact runPart_lands hself (fun _ _ => hin rfl) fun u hu => leave_lands hu fun _ => hin rfl
  · exact runPart_lands hself (fun _ h => by cases h) fun u hu => ioctlDone_lands (fun h => by cases h) hu
  · exact runPart_lands hself (fun _ h => by cases h) fun u hu => leave_lands hu fun h => by cases h
  · exact move_lands (t := { w with free := true }) hself fun h => by cases h
  · exact ⟨hself, id⟩

/-- A step moves one context, and leaves it inside a pass only if it has executed code of one. -/
theorem go_lands {e : Switch} {r : World × List Op} (h : w.go e = some r) :
    w.Lands e.context (fun q => q.any Pos.inPass = true → e.Runs w) r.1 := by
  have hself : w.Only e.context w := fun _ _ => rfl
  cases e with
  | iris =>
      simp only [World.go, Option.ite_none_right_eq_some, Option.some.injEq] at h
      obtain ⟨_, rfl⟩ := h
      exact runPart_lands (t := { w with free := false }) hself (fun _ _ => trivial)
        fun u hu => irisBalance_lands (fun _ _ => trivial) hu
  | ioctl n call =>
      simp only [World.go, Option.ite_none_right_eq_some, Option.some.injEq] at h
      obtain ⟨⟨_, hidle⟩, rfl⟩ := h
      exact ioctl_lands hidle (fun h => by cases h) fun _ h => by cases h
  | window n =>
      simp only [World.go, Option.ite_none_right_eq_some, Option.some.injEq] at h
      obtain ⟨_, rfl⟩ := h
      exact runPart_lands hself (fun _ h => by cases h) fun u hu => leave_lands hu fun h => by cases h
  | read n =>
      simp only [World.go, Option.ite_none_right_eq_some, Option.some.injEq] at h
      obtain ⟨_, rfl⟩ := h
      exact runPart_lands hself (fun _ _ => trivial) fun u hu => readExposure_lands (fun _ _ => trivial) hu
  | resume c r =>
      simp only [World.go, Option.map_eq_some_iff] at h
      obtain ⟨p, hp, rfl⟩ := h
      exact resumeAt_lands hp

end Steps

/-! ## One context at a time -/

/-- A context goes on, and no other one does, until it has returned. -/
inductive World.Alone (r : Reading) (c : Context) : World × List Op → World × List Op → Prop where
  | done {w : World} {ops : List Op} (h : w.pos c = none) : World.Alone r c (w, ops) (w, ops)
  | resume {w : World} {ops : List Op} {p : Pos} {t : World × List Op} (h : w.pos c = some p)
      (hrest : World.Alone r c ((w.resumeAt r c p).1, ops ++ (w.resumeAt r c p).2) t) :
        World.Alone r c (w, ops) t

section Alone

variable {w : World} {c : Context} {r : Reading} {f : Stage → Pos} {k : World → World × List Op}

theorem move_move (p q : Option Pos) : (w.move c p).move c q = w.move c q := by
  simp [World.move]

theorem runPart_move (hk : ∀ u q, k (World.move u c q) = k u) (p : Part) (q : Option Pos) :
    (w.move c q).runPart c f p k = w.runPart c f p k := by
  unfold World.runPart
  dsimp only
  split
  · exact congrArg (fun u => (u, p.ops)) (move_move (w := { w with control := p.control }) q _)
  · rw [show ({ (w.move c q) with control := p.control } : World) =
      { w with control := p.control }.move c q from rfl, hk]

theorem alone_runPart
    (hf : ∀ u stage, World.resumeAt u r c (f stage) = u.runPart c f (resume u.control r stage) k)
    (hk : ∀ u q, k (World.move u c q) = k u) {t : World × List Op} :
    ∀ (n : Nat) (p : Part) (w : World) (ops : List Op), (p.finish r n).next = none →
      World.Alone r c ((k { w with control := (p.finish r n).control }).1,
        ops ++ (p.finish r n).ops ++ (k { w with control := (p.finish r n).control }).2) t →
      World.Alone r c ((w.runPart c f p k).1, ops ++ (w.runPart c f p k).2) t := by
  intro n
  induction n with
  | zero =>
      intro p w ops hnext h
      rw [Part.finish] at hnext h
      rw [World.runPart, hnext]
      simpa only [List.append_assoc] using h
  | succ n ih =>
      intro p w ops hnext h
      cases hp : p.next with
      | none =>
          rw [Part.finish_none r hp] at h
          rw [World.runPart, hp]
          simpa only [List.append_assoc] using h
      | some stage =>
          rw [Part.finish_some r hp, Part.finish_after] at hnext h
          have hpos : (({ w with control := p.control } : World).move c (some (f stage))).pos c =
              some (f stage) := by
            rw [move_pos, Function.update_self]
          rw [World.runPart, hp]
          refine .resume hpos ?_
          rw [hf, runPart_move hk]
          refine ih (resume p.control r stage) { w with control := p.control } (ops ++ p.ops) hnext ?_
          simpa only [Part.after, List.append_assoc] using h

theorem irisBalance_move (u : World) (q : Option Pos) : (u.move .iris q).irisBalance = u.irisBalance :=
  runPart_move (fun _ _ => congrArg (fun v => (v, [])) (move_move _ _)) _ q

theorem leave_move (u : World) (c : Context) (q : Option Pos) : (u.move c q).leave c = u.leave c :=
  congrArg (fun v => (v, [])) (move_move _ _)

theorem ioctlDone_move (n : Nat) (u : World) (q : Option Pos) :
    (u.move (.ioctl n) q).ioctlDone n = u.ioctlDone n :=
  leave_move { u with free := true } (.ioctl n) q

theorem readExposure_move (n : Nat) (u : World) (q : Option Pos) :
    (u.move (.read n) q).readExposure n = u.readExposure n :=
  runPart_move (fun v q => leave_move v (.read n) q) _ q

theorem alone_leave (h : w.pos c = none) (ops : List Op) :
    World.Alone r c ((w.leave c).1, ops ++ (w.leave c).2) (w, ops) := by
  have hself : w.move c none = w := by rw [World.move, ← h, Function.update_eq_self]
  rw [World.leave, hself, List.append_nil]
  exact .done h

theorem alone_irisRest (h : w.pos .iris = none) (ops : List Op) :
    World.Alone r .iris (w.irisRest.1, ops ++ w.irisRest.2) ({ w with free := true }, ops) := by
  have hpos : (w.move .iris (some .iris)).pos .iris = some .iris := by rw [move_pos, Function.update_self]
  rw [World.irisRest, List.append_nil]
  refine .resume hpos ?_
  have hback := leave_move { w with free := true } .iris (some .iris)
  have hend := alone_leave (w := { w with free := true }) (r := r) (c := .iris) h ops
  rw [← hback] at hend
  exact hend

/-- The part of an ioctl that sets the exposure. -/
theorem setting_alone {n : Nat} (hidle : w.pos (.ioctl n) = none) (s : Control) (expo : Int) :
    World.Alone r (.ioctl n)
      ({ w with free := false }.runPart (.ioctl n) .setting (startFps s s.ctl.currentExposure expo)
        (World.ioctlDone n))
      (⟨{ s with ctl := (fpsControl s.ctl s.ctl.currentExposure expo).1 }, true, w.pos⟩,
        (fpsControl s.ctl s.ctl.currentExposure expo).2 ++
          setexposure (fpsControl s.ctl s.ctl.currentExposure expo).1 expo) := by
  refine alone_runPart (f := .setting) (k := World.ioctlDone n) (fun _ _ => rfl) (ioctlDone_move n) 3 _
    { w with free := false } [] (by rw [setting_finish]) ?_
  rw [setting_finish]
  exact @alone_leave ⟨{ s with ctl := (fpsControl s.ctl s.ctl.currentExposure expo).1 }, true, w.pos⟩
    (.ioctl n) r hidle _

end Alone

end CameraFw.Pwc
