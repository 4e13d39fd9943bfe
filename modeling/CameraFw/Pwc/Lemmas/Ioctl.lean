import CameraFw.Pwc.Ioctl

/-!
# Which ioctls give the semaphore back

A call gets to `up(&sem)` only by a `break`. `Released` says for each command when that happens, and
`acquirable_step` what it means for those who come next.
-/

namespace CameraFw.Pwc

open CameraFw.Base

/-- What a command needs to get out of the `switch` by `break`. -/
def Released (d : Dev) (c : Call) : Prop :=
  match c.cmd with
  | .unknown _ => False
  | .VIDIOCPWCRUSER | .VIDIOCPWCSUSER | .VIDIOCPWCFACTORY => c.ans.helper = 0
  | .VIDIOCPWCSCQUAL => ∃ qual ∈ c.ans.fromUser, 0 ≤ qual ∧ qual ≤ 15
  | .VIDIOCPWCSAGC => c.ans.fromUser.isSome ∧ c.ans.helper = 0
  | .VIDIOCPWCGAGC => c.ans.helper = 0 ∧ c.ans.toUser = true
  | .VIDIOCPWCSSHUTTER | .VIDIOCPWCSLED => c.ans.fromUser.isSome ∧ 0 ≤ c.ans.helper
  | .VIDIOCPWCGLED => 0 ≤ c.ans.helper ∧ c.ans.toUser = true
  | .VIDIOCPWCSAWB => ∃ mode ∈ c.ans.fromUser, mode = d.awbmode ∨ (0 ≤ mode ∧ mode ≤ 5)
  | .VIDIOCPWCGCQUAL | .VIDIOCPWCGAWB => c.ans.toUser = true
  | .VIDIOCREADREG => ∃ reg ∈ c.ans.fromUser, reg = 0 ∨ c.ans.toUser = true
  | .VIDIOCWRITEREG | .VIDIOCSETGAMMAR | .VIDIOCSETGAMMAG | .VIDIOCSETGAMMAB => c.ans.fromUser.isSome
  | .VIDIOCGETIRIS_MAX | .VIDIOCGETIRIS_EX | .VIDIOCGETEXPOSURELEVEL => c.ans.readable = true
  | _ => True

/-- With nobody inside, whoever comes next gets the semaphore. -/
def Acquirable (s : Sys) : Prop := s.inside = [] → ∀ w, (step s (.down w)).isSome

def ReleasedBy (s : Sys) : Ev → Prop
  | .out (.ioctl c) => .ioctl c ∈ s.inside → Released s.dev c
  | _ => True

def Leave.Breaks : Leave → Prop
  | .break _ => True
  | _ => False

theorem breaks_from {a : Answers} {k} : (a.from k).Breaks ↔ ∃ v ∈ a.fromUser, (k v).Breaks := by
  unfold Answers.from
  cases a.fromUser <;> simp [Leave.Breaks]

theorem breaks_to {a : Answers} {d} : (a.to d).Breaks ↔ a.toUser = true := by
  unfold Answers.to
  cases a.toUser <;> simp [Leave.Breaks]

theorem breaks_ite {p : Prop} [Decidable p] {a b : Leave} :
    (if p then a else b).Breaks ↔ (p ∧ a.Breaks) ∨ (¬ p ∧ b.Breaks) := by
  split <;> simp_all

theorem breaks_break {d} : (Leave.break d).Breaks ↔ True := Iff.rfl

theorem breaks_return {r} : (Leave.return r).Breaks ↔ False := Iff.rfl

theorem breaks_oops : Leave.oops.Breaks ↔ False := Iff.rfl

theorem handle_breaks_iff (d : Dev) (c : Call) : (handle d c).Breaks ↔ Released d c := by
  obtain ⟨cmd, arg, ans⟩ := c
  -- one case for each command; what is left after the rules above is arithmetic on the number read
  cases cmd <;>
    simp only [handle, Released, breaks_from, breaks_to, breaks_ite, breaks_break, breaks_return,
      breaks_oops, and_true,
      and_false, false_or, or_false, Decidable.not_not, Option.isSome_iff_exists, Option.mem_def,
        exists_and_right,
      not_lt, not_or, ne_eq]
  case VIDIOCPWCSAWB =>
    refine exists_congr fun mode => and_congr_right fun _ => ?_
    omega
  case VIDIOCREADREG =>
    refine exists_congr fun reg => and_congr_right fun _ => ?_
    by_cases hr : reg = 0 <;> simp [hr]

theorem ups_eq (d : Dev) (c : Call) : (pwcIoctl d c).ups = 1 ∧ (handle d c).Breaks ∨
    (pwcIoctl d c).ups = 0 ∧ ¬ (handle d c).Breaks := by
  unfold pwcIoctl
  cases handle d c <;> simp [Leave.Breaks]

theorem pwcIoctl_ups_iff (d : Dev) (c : Call) : (pwcIoctl d c).ups = 1 ↔ Released d c := by
  rw [← handle_breaks_iff]
  rcases ups_eq d c with ⟨h, hb⟩ | ⟨h, hb⟩ <;> simp [h, hb]

theorem finish_ups_le (d : Dev) (w : Who) : (w.finish d).ups ≤ 1 := by
  cases w with
  | ioctl c => rcases ups_eq d c with ⟨h, _⟩ | ⟨h, _⟩ <;> simp [Who.finish, h]
  | iris => exact Nat.le_refl 1
  | leave => exact Nat.le_refl 1

/-- The semaphore never lets two in. -/
def Exclusive (s : Sys) : Prop := s.count + s.inside.length ≤ 1

theorem step_down {s w t} (hs : step s (.down w) = some t) :
    s.count ≠ 0 ∧ t = { s with count := s.count - 1, inside := w :: s.inside } := by
  simp only [step] at hs
  split at hs
  · cases hs
  · rename_i hcount
    cases hs
    exact ⟨hcount, rfl⟩

theorem step_out {s w t} (hs : step s (.out w) = some t) :
    w ∈ s.inside ∧ t = ⟨s.count + (w.finish s.dev).ups, s.inside.erase w, (w.finish s.dev).dev⟩ := by
  simp only [step] at hs
  split at hs
  · rename_i hw
    cases hs
    exact ⟨hw, rfl⟩
  · cases hs

theorem exclusive_step {s e t} (h : Exclusive s) (hs : step s e = some t) : Exclusive t := by
  simp only [Exclusive] at h ⊢
  cases e with
  | down w =>
      obtain ⟨hcount, rfl⟩ := step_down hs
      simp only [List.length_cons]
      omega
  | out w =>
      obtain ⟨hw, rfl⟩ := step_out hs
      have hups := finish_ups_le s.dev w
      have hlen := List.length_erase_of_mem hw
      have hpos := List.length_pos_of_mem hw
      simp only
      omega

theorem acquirable_iff {s : Sys} : Acquirable s ↔ (s.inside = [] → s.count ≠ 0) := by
  refine imp_congr_right fun _ => ⟨fun h h0 => ?_, fun h w => ?_⟩
  · have := h .iris
    simp [step, h0] at this
  · simp [step, h]

/-- Who is inside is alone there, and leaves the semaphore free exactly if it calls `up`. -/
theorem acquirable_out {s w t} (h : Exclusive s) (hs : step s (.out w) = some t) :
    Acquirable t ↔ (w.finish s.dev).ups = 1 := by
  obtain ⟨hw, rfl⟩ := step_out hs
  have hups := finish_ups_le s.dev w
  have hlen := List.length_erase_of_mem hw
  have hpos := List.length_pos_of_mem hw
  simp only [Exclusive] at h
  have hnil : s.inside.erase w = [] := List.eq_nil_of_length_eq_zero (by omega)
  rw [acquirable_iff]
  simp only [hnil, true_implies]
  omega

theorem acquirable_step {s e t} (h : Exclusive s) (hs : step s e = some t) :
    Acquirable t ↔ ReleasedBy s e := by
  cases e with
  | down w =>
      obtain ⟨_, rfl⟩ := step_down hs
      exact ⟨fun _ => trivial, fun _ hnil => absurd hnil (List.cons_ne_nil _ _)⟩
  | out w =>
      rw [acquirable_out h hs]
      cases w with
      | ioctl c =>
          have hw := (step_out hs).1
          exact (pwcIoctl_ups_iff s.dev c).trans ⟨fun hr _ => hr, fun hr => hr hw⟩
      | iris => exact ⟨fun _ => trivial, fun _ => rfl⟩
      | leave => exact ⟨fun _ => trivial, fun _ => rfl⟩

theorem releasedBy_of_none {s e} (hs : step s e = none) : ReleasedBy s e := by
  cases e with
  | down w => trivial
  | out w =>
      cases w with
      | ioctl c => intro hw; simp [step, hw] at hs
      | iris => trivial
      | leave => trivial

end CameraFw.Pwc
