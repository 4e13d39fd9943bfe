import CameraFw.Pwc.IrisTheorems
import CameraFw.Pwc.Settling

/-!
# The tolerance of the iris thread

`failed_and_tolerance_range` is to grow by one each time the settling loop has gone too far. The
increment is in the body of the loop, for averages that are too high. But the next average is taken at
the end of the body, and the condition of the loop, which comes then, lets in none that is too high.
Nothing else adds to the tolerance, so it is 0 from the beginning to the end.
-/

namespace CameraFw.Pwc

open CameraFw.Base

/-! ## The tolerance -/

section Tolerance

variable {i : Iris} {code : Code}

@[simp]
theorem restart_tolerance (i : Iris) : i.restart.failedAndToleranceRange = i.failedAndToleranceRange := by
  unfold Iris.restart
  split
  · split <;> rfl
  · rfl

@[simp]
theorem raise_tolerance (i : Iris) : i.raise.failedAndToleranceRange = i.failedAndToleranceRange := by
  unfold Iris.raise
  split
  · split <;> rfl
  · rfl

@[simp]
theorem apply_tolerance (i : Iris) (c : Command) :
    (i.apply c).failedAndToleranceRange = i.failedAndToleranceRange := by
  have htried {j : Iris} (hj : j.failedAndToleranceRange = i.failedAndToleranceRange) :
      (if i.tried > 0 then { i with tried := i.tried - 1 } else j).failedAndToleranceRange =
        i.failedAndToleranceRange := by
    split
    · rfl
    · exact hj
  cases c with
  | minusOneUnit => rfl
  | enterValidMode => rfl
  | exposureIs code =>
      cases code with
      | ok => rfl
      | tooHigh => exact htried (raise_tolerance i)
      | tooLow => exact htried rfl
      | veryLow => exact htried rfl

@[simp]
theorem calDacRegister_tolerance (i : Iris) (c : Command) :
    (calDacRegister i c).failedAndToleranceRange = i.failedAndToleranceRange := by
  unfold calDacRegister
  exact (apply_tolerance i.restart c).trans (restart_tolerance i)

@[simp]
theorem findValid_tolerance (i : Iris) (cur : Int) :
    (i.findValid cur).failedAndToleranceRange = i.failedAndToleranceRange := by
  unfold Iris.findValid
  split
  · exact calDacRegister_tolerance _ _
  · rfl

/-- The reaction to a good average takes one off a tolerance that is not 0. -/
theorem react_tolerance (thr cur : Int) (hzero : i.failedAndToleranceRange = 0) :
    (i.react thr cur code).1.failedAndToleranceRange = 0 := by
  cases code with
  | tooHigh =>
      simp only [Iris.react]
      split
      · exact (calDacRegister_tolerance _ _).trans hzero
      · exact (calDacRegister_tolerance _ _).trans hzero
  | tooLow =>
      simp only [Iris.react]
      split <;> exact hzero
  | veryLow => exact hzero
  | ok =>
      have hcal : (calDacRegister i (.exposureIs .ok)).failedAndToleranceRange = 0 :=
        (calDacRegister_tolerance _ _).trans hzero
      simp only [Iris.react, hcal, gt_iff_lt, Int.lt_irrefl, if_false]

/-- The increment is in the branch for averages that are too high, and the loop does not take them in. -/
theorem settleOnce_tolerance (thr cur : Int) (hne : code ≠ .tooHigh) :
    (i.settleOnce thr cur code).1.failedAndToleranceRange = i.failedAndToleranceRange := by
  cases code with
  | ok => rfl
  | tooHigh => exact absurd rfl hne
  | tooLow => exact calDacRegister_tolerance _ _
  | veryLow =>
      simp only [Iris.settleOnce]
      split
      · exact calDacRegister_tolerance _ _
      · rfl

/-- `CheckCurrentAvgY` reads nothing else of these variables. -/
theorem checkCurrentAvgY_congr {j : Iris} (h : i.failedAndToleranceRange = j.failedAndToleranceRange)
    (cur thr : Int) :
    checkCurrentAvgY i cur thr = checkCurrentAvgY j cur thr := by
  unfold checkCurrentAvgY
  rw [h]

end Tolerance

/-! ## The loop -/

section Loop

variable {s t : Settling} {next : Look} {looks : Nat → Look}

theorem pass_cases (next : Look) (s : Settling) :
    (∃ e, s.pass next = .leave (e, s)) ∨
      ∃ t, s.pass next = .again t ∧ 0 < s.left ∧ t.left = s.left - 1 ∧ s.ccode ≠ .tooHigh ∧
        t.iris = (s.iris.settleOnce s.look.aeThreshold s.look.accY s.ccode).1 := by
  unfold Settling.pass
  split
  · exact .inl ⟨_, rfl⟩
  · rename_i hleft
    split
    · exact .inl ⟨_, rfl⟩
    · rename_i hne
      dsimp only
      generalize (if s.ccode = .ok then s.continueOk + 1 else s.continueOk) = continueOk
      split
      · exact .inl ⟨_, rfl⟩
      · exact .inr ⟨_, rfl, by omega, rfl, hne, rfl⟩

theorem pass_again (h : s.pass next = .again t) :
    0 < s.left ∧ t.left = s.left - 1 ∧ s.ccode ≠ .tooHigh ∧
      t.iris = (s.iris.settleOnce s.look.aeThreshold s.look.accY s.ccode).1 := by
  obtain ⟨e, hleave⟩ | ⟨u, hagain, hspec⟩ := pass_cases next s
  · cases h.symm.trans hleave
  · cases h.symm.trans hagain
    exact hspec

/-- The loop is left with the variables of its last head. -/
theorem pass_leave {e : Exit} (h : s.pass next = .leave (e, t)) : t = s := by
  obtain ⟨e', hleave⟩ | ⟨u, hagain, _⟩ := pass_cases next s
  · cases h.symm.trans hleave
    rfl
  · cases h.symm.trans hagain

theorem head_tolerance {n : Nat} (h : head Settling.pass looks s n = some t) :
    t.iris.failedAndToleranceRange = s.iris.failedAndToleranceRange := by
  refine head_inv (fun _ u => u.iris.failedAndToleranceRange = s.iris.failedAndToleranceRange) rfl
    (fun n u v hu hpass => ?_) n t h
  obtain ⟨_, _, hne, hiris⟩ := pass_again hpass
  rw [hiris, settleOnce_tolerance _ _ hne]
  exact hu

/-- However the loop is left, the tolerance is what it was. -/
theorem leave_tolerance {e : Exit} (h : s.leave looks = some (e, t)) :
    t.iris.failedAndToleranceRange = s.iris.failedAndToleranceRange := by
  obtain ⟨n, u, _, hhead, hpass⟩ := whileLoop_eq_some.mp h
  rw [pass_leave hpass]
  exact head_tolerance hhead

/-- The loop ends. -/
theorem leave_isSome (looks : Nat → Look) (s : Settling) : (s.leave looks).isSome := by
  refine whileLoop_isSome (fun u => u.left.toNat) (fun next u v hpass => ?_) _ 0 s (Nat.lt_succ_self _)
  obtain ⟨hpos, hleft, _, _⟩ := pass_again hpass
  omega

/-- The average has become too high again, and this ends the loop. -/
def Settling.Overshoots (s : Settling) (looks : Nat → Look) : Prop :=
  s.ccode ≠ .tooHigh ∧ (s.leave looks).map Prod.fst = some .tooHigh

/-- If so, the tolerance is one more afterwards. -/
def Settling.Widens (s : Settling) (looks : Nat → Look) : Prop :=
  ∀ e, s.leave looks = some e → s.Overshoots looks →
    e.2.iris.failedAndToleranceRange = s.iris.failedAndToleranceRange + 1

instance (s : Settling) (looks : Nat → Look) : Decidable (s.Overshoots looks) :=
  inferInstanceAs (Decidable (_ ∧ _))

instance (s : Settling) (looks : Nat → Look) : Decidable (s.Widens looks) :=
  decidableForallSome (s.leave looks) _

/-- It never is. -/
theorem Settling.widens_iff : s.Widens looks ↔ ¬s.Overshoots looks := by
  constructor
  · intro hwidens hover
    obtain ⟨⟨e, t⟩, hleave⟩ := Option.isSome_iff_exists.mp (leave_isSome looks s)
    have hmore := hwidens (e, t) hleave hover
    have hsame := leave_tolerance hleave
    dsimp only at hmore
    omega
  · intro hnot e _ hover
    exact absurd hover hnot

end Loop

/-! ## Rounds -/

section Rounds

variable {i j : Iris} {r : Round}

theorem enter_tolerance (hzero : i.failedAndToleranceRange = 0) (looks : Nat → Look) :
    (i.enter looks).iris.failedAndToleranceRange = 0 :=
  (findValid_tolerance _ _).trans (react_tolerance _ _ ((findValid_tolerance _ _).trans hzero))

/-- A tolerance of 0 stays 0. -/
theorem step_tolerance (hzero : i.failedAndToleranceRange = 0) (h : i.step r = some j) :
    j.failedAndToleranceRange = 0 := by
  obtain ⟨⟨j', dacs⟩, hround, rfl⟩ := Option.map_eq_some_iff.mp h
  unfold Iris.round at hround
  split at hround
  · cases hround
    exact hzero
  · split at hround
    · obtain ⟨⟨e, t⟩, hleave, heq⟩ := Option.map_eq_some_iff.mp hround
      cases heq
      exact (leave_tolerance hleave).trans (enter_tolerance hzero r.looks)
    · cases hround
      exact hzero

/-- The loop of the round ends because the average has become too high again. -/
def Iris.Overshoots (i : Iris) (r : Round) : Prop := r.Closes ∧ (i.enter r.looks).Overshoots r.later

/-- If so, the loop has added one to the tolerance. -/
def Iris.Widens (i : Iris) (r : Round) : Prop := r.Closes → (i.enter r.looks).Widens r.later

instance (i : Iris) (r : Round) : Decidable (i.Widens r) := inferInstanceAs (Decidable (_ → _))

theorem Iris.widens_iff : i.Widens r ↔ ¬i.Overshoots r := by
  simp only [Iris.Widens, Iris.Overshoots, Settling.widens_iff, not_and]

end Rounds

/-! ## The undisturbed thread -/

/-- With one threshold throughout, the loop is that of `Iris.settle`. -/
theorem whileLoop_settle (thr : Int) (readings : Nat → Int) : ∀ (n k : Nat) (s : Settling),
    s.left.toNat = n → s.look.aeThreshold = thr →
      ∃ e t more, whileLoop Settling.pass (fun j => ⟨readings (j + 2), thr⟩) (n + 1) k s = some (e, t) ∧
        Iris.settle thr readings n (k + 2) s.continueOk s.look.accY s.ccode s.iris =
          (t.iris, t.look.accY, more) ∧
        t.dacs = s.dacs ++ more := by
  intro n
  induction n with
  | zero =>
      intro k s hleft _
      have hdone : s.left ≤ 0 := by omega
      simp only [whileLoop, Settling.pass, if_pos hdone, Iris.settle]
      exact ⟨_, s, [], rfl, rfl, (List.append_nil _).symm⟩
  | succ n ih =>
      intro k s hleft hthr
      have hmore : ¬s.left ≤ 0 := by omega
      rw [whileLoop, Iris.settle]
      simp only [Settling.pass, if_neg hmore, hthr]
      by_cases hhigh : s.ccode = .tooHigh
      · simp only [if_pos hhigh]
        exact ⟨_, s, [], rfl, rfl, (List.append_nil _).symm⟩
      · simp only [if_neg hhigh]
        generalize (if s.ccode = .ok then s.continueOk + 1 else s.continueOk) = continueOk
        by_cases hok : s.ccode = .ok ∧ continueOk ≥ 4
        · simp only [if_pos hok]
          exact ⟨_, s, [], rfl, rfl, (List.append_nil _).symm⟩
        · simp only [if_neg hok]
          -- both go on from the same variables, and what is written comes behind what was written
          generalize s.iris.settleOnce thr s.look.accY s.ccode = once
          obtain ⟨e, t, more, hloop, hsettle, hdacs⟩ := ih (k + 1)
            { left := s.left - 1, continueOk, look := ⟨readings (k + 2), thr⟩,
              ccode := once.1.check ⟨readings (k + 2), thr⟩, iris := once.1, dacs := s.dacs ++ once.2 }
            (by dsimp only; omega) rfl
          refine ⟨e, t, once.2 ++ more, hloop, ?_, by rw [hdacs, List.append_assoc]⟩
          rw [show k + 2 + 1 = k + 1 + 2 by omega]
          simp only [Iris.check] at hsettle
          rw [hsettle]

/-- What `enter` leaves is what a closing begins its loop with. -/
theorem close_of_settle {i : Iris} {thr : Int} {readings : Nat → Int} {s : Settling}
    {r : Iris × Int × List Dac} (hs : i.enter (fun k => ⟨readings k, thr⟩) = s)
    (h : Iris.settle thr readings s.left.toNat 2 s.continueOk s.look.accY s.ccode s.iris = r) :
    i.close thr readings = ({ r.1 with preAccY := r.2.1 }, s.dacs ++ r.2.2) := by
  subst hs h
  unfold Iris.close Iris.reactAndSettle Iris.enter Iris.check
  dsimp only
  split
  · rfl
  · rfl

theorem enter_threshold (i : Iris) (thr : Int) (readings : Nat → Int) :
    (i.enter fun k => ⟨readings k, thr⟩).look.aeThreshold = thr := by
  simp only [Iris.enter]
  split <;> rfl

theorem round_eq_close (i : Iris) (c : Ctl) (readings : Nat → Int) :
    (i.settling (c.round readings)).map (fun e => ({ e.2.iris with preAccY := e.2.look.accY }, e.2.dacs)) =
      some (i.close c.aeThreshold readings) := by
  obtain ⟨e, t, more, hloop, hsettle, hdacs⟩ :=
    whileLoop_settle c.aeThreshold readings _ 0 _ rfl (enter_threshold i c.aeThreshold readings)
  have hsettling : i.settling (c.round readings) = some (e, t) := hloop
  rw [hsettling, Option.map_some, hdacs, close_of_settle rfl hsettle]

theorem round_eq_adjust (i : Iris) (c : Ctl) (readings : Nat → Int) :
    i.round (c.round readings) = some (i.adjust c readings) := by
  have hcloses : (c.round readings).Closes ↔ c.currentIRISIndicator ≥ 20 ∧ c.currentExposure = 1 := Iff.rfl
  unfold Iris.round Iris.adjust
  by_cases hopen : c.currentIRISIndicator = -9999
  · rw [if_pos hopen]
    exact if_pos hopen
  · rw [if_neg hopen]
    refine (if_neg hopen).trans ?_
    by_cases hclose : c.currentIRISIndicator ≥ 20 ∧ c.currentExposure = 1
    · rw [if_pos hclose, if_pos (hcloses.mpr hclose)]
      exact round_eq_close i c readings
    · rw [if_neg hclose, if_neg (hcloses.not.mpr hclose)]

/-- A turn of the undisturbed thread does to the iris what its rounds do. -/
theorem perform_rounds (s : Thread) (t : Turn) :
    run Iris.step s.iris (s.roundOf t) = some (s.perform t).1.iris := by
  cases t with
  | job j => rfl
  | round accY avg readings =>
      simp only [Thread.roundOf, run, Iris.step, round_eq_adjust, Option.map_some]
      rfl

/-- All that the undisturbed thread does to the iris is a run of such rounds. -/
theorem run_rounds {s s' : Thread} {ts : List Turn} (h : run Thread.step s ts = some s') :
    run Iris.step s.iris (s.rounds ts) = some s'.iris := by
  refine run_relabel Thread.iris (fun s t s' hs => ?_) ts s s' h
  cases hs
  exact perform_rounds s t

/-! ## Overshoots -/

/-- In a run of the thread all overshoots widen the tolerance exactly if there are none, and the averages that
`CheckCurrentAvgY` accepts are the same all the time. -/
theorem overshoots_widen_iff (accY : Int) (rs : List Round) :
    (Along Iris.step Iris.Widens (Iris.loaded accY) rs ↔
      Along Iris.step (fun i r => ¬i.Overshoots r) (Iris.loaded accY) rs) ∧
      Always Iris.step (fun i => ∀ cur thr,
        checkCurrentAvgY i cur thr = checkCurrentAvgY (Iris.loaded accY) cur thr)
        (Iris.loaded accY) rs := by
  have hzero : Always Iris.step (fun i => i.failedAndToleranceRange = 0) (Iris.loaded accY) rs :=
    always_of_step (fun i r j hi hstep => step_tolerance hi hstep) rs _ rfl
  refine ⟨along_iff (I := fun _ => True) (fun i r _ => Iris.widens_iff)
    (fun _ _ _ _ _ _ => trivial) trivial, ?_⟩
  exact hzero.imp fun i hi cur thr => checkCurrentAvgY_congr hi cur thr

/-- Bright rounds until the exposure is 1. -/
def brightening : List Turn := List.replicate 99 (.round 210 grey fun _ => 210)

/-- A closing that brings the average down to 120, from where it goes up again. -/
def overshooting : Turn := .round 210 grey fun k => if k = 1 then 120 else 210

/-- The loop of this round is entered with a good average and left because the next one is too high,
with the tolerance at 0. -/
theorem overshoot_forgotten :
    (run Thread.step (Thread.started idle 10) brightening).map
        (fun s => (s.roundOf overshooting).map fun r => ((s.iris.enter r.looks).ccode,
          (s.iris.settling r).map fun e => (e.1, e.2.iris.failedAndToleranceRange))) =
        some [(.ok, some (.tooHigh, 0))] ∧
      ¬Along Iris.step Iris.Widens (Iris.loaded 10)
        ((Thread.started idle 10).rounds (brightening ++ [overshooting])) := by
  decide +kernel

end CameraFw.Pwc
