import CameraFw.Pwc.Lemmas.Contexts
import CameraFw.Pwc.Theorems

/-!
# Passes side by side

By itself, each context does what `Pwc.Control` has as jobs. The semaphore keeps the iris thread and the
ioctls apart, but a frame is handled without it. So two contexts are inside the passes at once exactly
if a frame is handled while the thread or another read sleeps in one, or the thread begins a round while
a read does.
-/

namespace CameraFw.Pwc

open CameraFw.Base

/-! ## One context at a time -/

/-- A round that nobody disturbs does the two passes as jobs, and holds the semaphore meanwhile. -/
theorem iris_alone (w : World) (r : Reading) (hfree : w.free = true) (hidle : w.pos .iris = none) :
    ∃ x, w.go .iris = some x ∧
      World.Alone r .iris x
        (⟨((w.control.perform (.autoexposure r.accY)).1.perform (.autowhitebalance r.avg)).1, true, w.pos⟩,
          (w.control.perform (.autoexposure r.accY)).2 ++
            ((w.control.perform (.autoexposure r.accY)).1.perform (.autowhitebalance r.avg)).2) := by
  refine ⟨_, if_pos ⟨hfree, hidle⟩, ?_⟩
  refine alone_runPart (f := .exposure) (k := World.irisBalance) (fun _ _ => rfl) irisBalance_move 4
    (startExposure w.control) { w with free := false } [] (by rw [startExposure_finish]) ?_
  rw [startExposure_finish]
  refine alone_runPart (f := .balance) (k := World.irisRest) (fun _ _ => rfl)
    (fun _ _ => congrArg (fun v => (v, [])) (move_move _ _)) 2 _ _ _ (by rw [startBalance_finish]) ?_
  rw [startBalance_finish]
  exact @alone_irisRest ⟨((w.control.perform (.autoexposure r.accY)).1.perform
    (.autowhitebalance r.avg)).1, false, w.pos⟩ r hidle _

/-- A frame that nobody disturbs does them in the other order. -/
theorem read_alone (w : World) (n : Nat) (r : Reading) (hidle : w.pos (.read n) = none) :
    ∃ x, w.go (.read n) = some x ∧
      World.Alone r (.read n) x
        (⟨((w.control.perform (.autowhitebalance r.avg)).1.perform (.autoexposure r.accY)).1, w.free, w.pos⟩,
          (w.control.perform (.autowhitebalance r.avg)).2 ++
            ((w.control.perform (.autowhitebalance r.avg)).1.perform (.autoexposure r.accY)).2) := by
  refine ⟨_, if_pos hidle, ?_⟩
  refine alone_runPart (f := .balance) (k := World.readExposure n) (fun _ _ => rfl) (readExposure_move n) 2
    (startBalance w.control) w [] (by rw [startBalance_finish]) ?_
  rw [startBalance_finish]
  refine alone_runPart (f := .exposure) (k := World.leave (.read n)) (fun _ _ => rfl)
    (fun u q => leave_move u (.read n) q) 4 _ _ _ (by rw [startExposure_finish]) ?_
  rw [startExposure_finish]
  exact @alone_leave ⟨((w.control.perform (.autowhitebalance r.avg)).1.perform
    (.autoexposure r.accY)).1, w.free, w.pos⟩ (.read n) r hidle _

/-- An ioctl that nobody disturbs is a job, and whether it leaves the semaphore free is up to its way out. -/
theorem ioctl_alone (w : World) (n : Nat) (call : Call) (r : Reading) (hfree : w.free = true)
    (hidle : w.pos (.ioctl n) = none) :
    ∃ x, w.go (.ioctl n call) = some x ∧
      World.Alone r (.ioctl n) x
        (⟨(w.control.perform (.ioctl call)).1, (pwcIoctl w.control.ctl.dev call).ups = 1, w.pos⟩,
          (w.control.perform (.ioctl call)).2) := by
  refine ⟨_, if_pos ⟨hfree, hidle⟩, ?_⟩
  obtain ⟨cmd, arg, ans⟩ := call
  unfold World.ioctl
  split
  · rename_i hcmd
    obtain rfl : cmd = .VIDIOCSETEXPOSURE := hcmd
    exact setting_alone hidle _ _
  · rename_i hcmd
    obtain rfl : cmd = .VIDIOCSETEXPOSURE_EX := hcmd
    exact setting_alone hidle _ _
  · exact .done hidle

/-! ## Two contexts -/

/-- The contexts that execute passes. -/
def Context.HasPasses : Context → Prop
  | .iris => True
  | .read _ => True
  | .ioctl _ => False
  | .window _ => False

/-- At most one context is inside a pass, and it is the thread or a read. -/
structure World.Single (w : World) : Prop where
  single : ∀ c d, w.Inside c → w.Inside d → c = d
  hasPasses : ∀ c, w.Inside c → c.HasPasses

/-- The transfers of automatic exposure that write registers. -/
def Stage.Writes : Stage → Prop
  | .frameRate _ => True
  | .exposureTime _ => True
  | .exposureGain => True
  | .averageOff => False
  | .average => False
  | .averageRgb => False
  | .gains => False

/-- A step that executes code of a pass finds no other context inside one, and no other context in a
register write of automatic exposure while the exposure is out of range. -/
structure World.Undisturbed (w : World) (e : Switch) : Prop where
  alone : (w.go e).isSome → e.Runs w → ∀ c, c ≠ e.context → ¬w.Inside c
  notOvertaken : (w.go e).isSome → e.Runs w → ∀ c stage, c ≠ e.context →
    w.pos c = some (.exposure stage) → stage.Writes →
    1 ≤ w.control.ctl.currentExposure ∧ w.control.ctl.currentExposure ≤ w.control.ctl.maxExposure

/-- No round begins while a read is inside a pass, and no frame is handled while the thread or another
read is. -/
def World.StartsAlone (w : World) : Switch → Prop
  | .iris => (w.go .iris).isSome → ∀ n, ¬w.Inside (.read n)
  | .read n => (w.go (.read n)).isSome → ¬w.Inside .iris ∧ ∀ m, m ≠ n → ¬w.Inside (.read m)
  | .resume _ _ => True
  | .ioctl _ _ => True
  | .window _ => True

section Steps

variable {w t : World} {e : Switch}

theorem World.Undisturbed.of_alone (h : (w.go e).isSome → e.Runs w → ∀ c, c ≠ e.context → ¬w.Inside c) :
    w.Undisturbed e where
  alone := h
  notOvertaken hgo hruns c stage hc hpos _ := by
    have hin : w.Inside c := by rw [World.Inside, hpos]; rfl
    exact absurd hin (h hgo hruns c hc)

theorem undisturbed_iff (h : w.Single) : w.Undisturbed e ↔ w.StartsAlone e := by
  constructor
  · intro hu
    cases e with
    | iris => exact fun hgo n => hu.alone hgo trivial (.read n) (by simp [Switch.context])
    | read n =>
        exact fun hgo => ⟨hu.alone hgo trivial .iris (by simp [Switch.context]),
          fun m hm => hu.alone hgo trivial (.read m) (by simpa [Switch.context] using hm)⟩
    | resume c r => trivial
    | ioctl n call => trivial
    | window n => trivial
  · intro hs
    refine .of_alone fun hgo hruns c hc hin => ?_
    have hpasses := h.hasPasses c hin
    cases e with
    | iris =>
        cases c with
        | iris => exact hc rfl
        | read n => exact hs hgo n hin
        | ioctl n => exact hpasses
        | window n => exact hpasses
    | read n =>
        cases c with
        | iris => exact (hs hgo).1 hin
        | read m => exact (hs hgo).2 m (fun heq => hc (congrArg Context.read heq)) hin
        | ioctl m => exact hpasses
        | window m => exact hpasses
    | resume d r => exact hc (h.single c d hin hruns)
    | ioctl n call => exact hruns
    | window n => exact hruns

theorem World.Single.step (h : w.Single) (hu : w.Undisturbed e) (ht : w.step e = some t) : t.Single := by
  obtain ⟨r, hgo, rfl⟩ := Option.map_eq_some_iff.mp ht
  obtain ⟨honly, hruns⟩ := go_lands hgo
  have hothers : ∀ c, c ≠ e.context → (r.1.Inside c ↔ w.Inside c) := by
    intro c hc
    rw [World.Inside, World.Inside, honly c hc]
  have halone : r.1.Inside e.context → ∀ c, c ≠ e.context → ¬r.1.Inside c := by
    intro hin c hc hc'
    exact hu.alone (Option.isSome_of_eq_some hgo) (hruns hin) c hc ((hothers c hc).mp hc')
  constructor
  · intro c d hc hd
    by_cases hce : c = e.context
    · by_contra hne
      exact halone (hce ▸ hc) d (fun hde => hne (hce.trans hde.symm)) hd
    · by_cases hde : d = e.context
      · exact absurd hc (halone (hde ▸ hd) c hce)
      · exact h.single c d ((hothers c hce).mp hc) ((hothers d hde).mp hd)
  · intro c hc
    by_cases hce : c = e.context
    · have he := hruns (hce ▸ hc)
      subst hce
      cases e with
      | iris => trivial
      | read n => trivial
      | resume d r => exact h.hasPasses d he
      | ioctl n call => exact he
      | window n => exact he
    · exact h.hasPasses c ((hothers c hce).mp hc)

end Steps

/-- Whatever the order in which the thread, the ioctls and the reads go on, passes are undisturbed
exactly if each of them starts while no other context is inside one. -/
theorem passes_undisturbed_iff (d : Dev) (es : List Switch) :
    Along World.step World.Undisturbed (World.started d) es ↔
      Along World.step World.StartsAlone (World.started d) es := by
  refine along_iff (I := World.Single) (fun w e h => undisturbed_iff h)
    (fun w e t h hu ht => h.step hu ht) ⟨?_, ?_⟩
  · intro c _ hc
    cases hc
  · intro c hc
    cases hc

def shade (accY : Int) : Reading := ⟨accY, ⟨128, 128, 128⟩⟩

/-- A round of the thread whose averages are all the same. -/
def roundAt (accY : Int) : List Switch := .iris :: List.replicate 5 (.resume .iris (shade accY))

def reads (n : Nat) : List Switch := List.replicate n (.read 0)

def setLevel : Switch := .ioctl 0 ⟨.VIDIOCSETEXPOSURELEVEL, 21, ⟨none, true, true, 0⟩⟩

/-- The exposure level is set, passes in the dark raise the exposure to 113, and the thread measures there. -/
def crossing : List Switch :=
  setLevel :: reads 3 ++ roundAt 0 ++ reads 3 ++ roundAt 94 ++ reads 2 ++
    List.replicate 2 (Switch.resume (.read 0) (shade 0)) ++ reads 1 ++
      [Switch.iris, Switch.resume .iris (shade 0)]

/-- The thread then sleeps in the writes of `topro_fps_control` with the exposure at 141, where the
greatest is 137. Four frames are handled meanwhile, and the fourth looks at row 141 of tables that have
138 rows. -/
theorem crossing_overtakes :
    (run World.step (World.started idle) crossing).map
        (fun w => (w.pos .iris, w.pos (.read 0), w.control.ctl.currentExposure, w.control.ctl.maxExposure)) =
      some (some (.exposure (.frameRate 137)), none, 141, 137) ∧
    (run World.step (World.started idle) (crossing ++ reads 4)).map
        (fun w => (w.pos .iris, w.pos (.read 0), w.control.ctl.currentExposure)) =
      some (some (.exposure (.frameRate 137)), some (.exposure .average), 141) ∧
    ((run World.step (World.started idle) (crossing ++ reads 4)).bind
        (fun w => w.go (.resume (.read 0) (shade 0)))).map (fun r => r.2.head?) =
          some (some (.look 141)) := by
  decide +kernel

end CameraFw.Pwc
