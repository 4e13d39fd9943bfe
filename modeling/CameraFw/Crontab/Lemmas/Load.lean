import CameraFw.Crontab.Load

/-!
# `load_file` reads the lines of the crontab
-/

namespace CameraFw.Crontab

open CameraFw.Base

variable {db : Passwd} {bufsiz : Nat}

/-! ## `fdgets` -/

theorem fdgets_line {i : Nat} {l rest : List UInt8} (hl : 10 ∉ l) (hi : l.length < i) :
    fdgets i (l ++ 10 :: rest) = (l ++ [10], rest, true) := by
  induction l generalizing i with
  | nil =>
      obtain ⟨i, rfl⟩ := Nat.exists_eq_succ_of_ne_zero (by omega : i ≠ 0)
      simp [fdgets]
  | cons ch l ih =>
      obtain ⟨i, rfl⟩ := Nat.exists_eq_succ_of_ne_zero (by omega : i ≠ 0)
      simp only [List.mem_cons, not_or] at hl
      simp only [List.length_cons] at hi
      simp only [List.cons_append, fdgets, if_neg (Ne.symm hl.1), ih hl.2 (show l.length < i by omega)]

theorem fdgets_last {i : Nat} {l : List UInt8} (hl : 10 ∉ l) (hi : l.length + 1 < i) :
    fdgets i l = (l ++ [10], [], false) := by
  induction l generalizing i with
  | nil =>
      obtain ⟨i, rfl⟩ := Nat.exists_eq_succ_of_ne_zero (by omega : i ≠ 0)
      simp only [fdgets, if_pos (show i + 1 > 1 from hi)]
      rfl
  | cons ch l ih =>
      obtain ⟨i, rfl⟩ := Nat.exists_eq_succ_of_ne_zero (by omega : i ≠ 0)
      simp only [List.mem_cons, not_or] at hl
      simp only [List.length_cons] at hi
      simp only [fdgets, if_neg (Ne.symm hl.1), ih hl.2 (show l.length + 1 < i by omega)]
      rfl

/-- The text has a newline only behind a whole line, for which there was room. -/
theorem fdgets_newline {i : Nat} {s : List UInt8} (h : 10 ∈ (fdgets i s).1) :
    ∃ l, 10 ∉ l ∧ (fdgets i s).1 = l ++ [10] ∧
      ((∃ rest, s = l ++ 10 :: rest ∧ l.length < i) ∨ (s = l ∧ l.length + 1 < i)) := by
  induction s generalizing i with
  | nil =>
      cases i with
      | zero => simp [fdgets] at h
      | succ i =>
          simp only [fdgets] at h ⊢
          split at h
          · rename_i hi; exact ⟨[], by simp, by simp [hi], Or.inr ⟨rfl, by simpa using hi⟩⟩
          · simp at h
  | cons ch s ih =>
      cases i with
      | zero => simp [fdgets] at h
      | succ i =>
          by_cases hc : ch = 10
          · subst hc
            exact ⟨[], by simp, by simp [fdgets], Or.inl ⟨s, rfl, by simp⟩⟩
          · simp only [fdgets, if_neg hc] at h ⊢
            obtain ⟨l, hl, htext, hs⟩ := ih ((List.mem_cons.mp h).resolve_left (Ne.symm hc))
            refine ⟨ch :: l, by simp [hl, Ne.symm hc], by rw [htext]; rfl, ?_⟩
            rcases hs with ⟨rest, rfl, hlen⟩ | ⟨rfl, hlen⟩
            · exact Or.inl ⟨rest, rfl, by simpa using hlen⟩
            · exact Or.inr ⟨rfl, by simpa using hlen⟩

/-! ## One round -/

private theorem mem_cstr_line {l : List UInt8} (h : 0 ∉ l) : (10 : UInt8) ∈ cstr (l ++ [10]) := by
  rw [cstr_append _ h]; simp [cstr]

private theorem takeWhile_line {l : List UInt8} (h : 10 ∉ l) :
    (l ++ [10]).takeWhile (· ≠ (10 : UInt8)) = l := by
  rw [takeWhile_ne_append _ h]; simp

theorem loadPass_line {c : Cron} {l rest : List UInt8} (hnl : 10 ∉ l) (h0 : 0 ∉ l)
    (hl : l.length + 2 ≤ bufsiz) :
    loadPass db bufsiz (l ++ 10 :: rest, c) = .again (rest, c.decode db l) := by
  simp only [loadPass, fdgets_line hnl (show l.length < bufsiz - 1 by omega), if_pos (mem_cstr_line h0),
    takeWhile_line hnl, if_true]

theorem loadPass_last {c : Cron} {l : List UInt8} (hnl : 10 ∉ l) (h0 : 0 ∉ l) (hl : l.length + 3 ≤ bufsiz) :
    loadPass db bufsiz (l, c) = .leave (true, { c.decode db l with env := [] }) := by
  simp only [loadPass, fdgets_last hnl (show l.length + 1 < bufsiz - 1 by omega), if_pos (mem_cstr_line h0),
    takeWhile_line hnl]
  rfl

theorem loadPass_unfit {c : Cron} {content l : List UInt8} (hl : content.takeWhile (· ≠ 10) = l)
    (hbad : ¬ (0 ∉ l ∧ l.length + (if 10 ∈ content then 2 else 3) ≤ bufsiz)) :
    loadPass db bufsiz (content, c) = .leave (false, c) := by
  have hnl : 10 ∉ cstr (fdgets (bufsiz - 1) content).1 := by
    intro hnl
    obtain ⟨l', hl', htext, hs⟩ := fdgets_newline ((List.takeWhile_sublist _).subset hnl)
    have hsame : l' = l := by
      rcases hs with ⟨rest, rfl, _⟩ | ⟨rfl, _⟩
      · rw [← hl, takeWhile_ne_append _ hl']; simp
      · rw [← hl]; simpa using (takeWhile_ne_append [] hl').symm
    subst hsame
    refine hbad ⟨fun hz => ?_, ?_⟩
    · rw [htext, cstr_append_of_mem _ hz] at hnl
      exact hl' ((List.takeWhile_sublist _).subset hnl)
    · rcases hs with ⟨rest, rfl, hlen⟩ | ⟨rfl, hlen⟩
      · rw [if_pos (by simp)]; omega
      · rw [if_neg hl']; omega
  simp only [loadPass, if_neg hnl]

/-! ## The loop -/

/-- Lines that the buffer can hold, with the newline that ends them and the final NUL. The last one gets
its newline only if there is room for one more character. -/
def Fit (bufsiz : Nat) : List (List UInt8) → Prop
  | [] => True
  | [l] => 0 ∉ l ∧ l.length + 3 ≤ bufsiz
  | l :: lines => (0 ∉ l ∧ l.length + 2 ≤ bufsiz) ∧ Fit bufsiz lines

instance Fit.decidable (bufsiz : Nat) : ∀ lines, Decidable (Fit bufsiz lines)
  | [] => isTrue trivial
  | [_] => inferInstanceAs (Decidable (_ ∧ _))
  | _ :: l :: lines =>
      have := Fit.decidable bufsiz (l :: lines)
      inferInstanceAs (Decidable ((_ ∧ _) ∧ _))

private theorem beq_false_of_notMem {l : List UInt8} (h : 10 ∉ l) : ∀ x ∈ l, (x == 10) = false :=
  fun _ hx => beq_false_of_ne fun e => h (e ▸ hx)

theorem splitOn_line {l : List UInt8} (rest : List UInt8) (h : 10 ∉ l) :
    (l ++ 10 :: rest).splitOn 10 = l :: rest.splitOn 10 :=
  List.splitOnP_append_cons_of_forall_mem (beq_false_of_notMem h) 10 (beq_self_eq_true _) rest

theorem splitOn_last {l : List UInt8} (h : 10 ∉ l) : l.splitOn 10 = [l] :=
  List.splitOnP_eq_singleton (beq_false_of_notMem h)

theorem splitOn_cases {content l : List UInt8} {lines : List (List UInt8)}
    (h : content.splitOn 10 = l :: lines) :
    10 ∉ l ∧ ((lines = [] ∧ content = l) ∨
      ∃ rest l' lines', content = l ++ 10 :: rest ∧ lines = l' :: lines' ∧ rest.splitOn 10 = lines) := by
  by_cases hm : 10 ∈ content
  · obtain ⟨l₀, rest, rfl, hl₀⟩ := List.eq_append_cons_of_mem hm
    rw [splitOn_line rest hl₀] at h
    cases h
    obtain ⟨l', lines', hr⟩ := List.exists_cons_of_ne_nil (List.splitOnP_ne_nil (· == (10 : UInt8)) rest)
    exact ⟨hl₀, Or.inr ⟨rest, l', lines', rfl, hr, rfl⟩⟩
  · rw [splitOn_last hm] at h
    cases h
    exact ⟨hm, Or.inl ⟨rfl, rfl⟩⟩

theorem jobs_cons (c : Cron) (l : List UInt8) (lines : List (List UInt8)) :
    (jobs db c.env (l :: lines)).reverse ++ c.tasklist =
      (jobs db (c.decode db l).env lines).reverse ++ (c.decode db l).tasklist := by
  cases hk : lineKind l with
  | skipped => simp only [jobs, Cron.decode, hk]
  | setting p => simp only [jobs, Cron.decode, hk]
  | job p => cases hj : decodeLine db c.env p <;> simp [jobs, Cron.decode, hk, hj]

/-- The lines before the first that the buffer cannot hold. -/
def linesRead (bufsiz : Nat) : List (List UInt8) → List (List UInt8)
  | [] => []
  | [l] => if 0 ∉ l ∧ l.length + 3 ≤ bufsiz then [l] else []
  | l :: lines => if 0 ∉ l ∧ l.length + 2 ≤ bufsiz then l :: linesRead bufsiz lines else []

theorem linesRead_eq_self {lines : List (List UInt8)} (h : Fit bufsiz lines) :
    linesRead bufsiz lines = lines := by
  induction lines with
  | nil => rfl
  | cons l lines ih =>
      cases lines with
      | nil => exact if_pos h
      | cons l' lines => rw [linesRead, if_pos h.1, ih h.2]; simp

theorem linesRead_begins (lines : List (List UInt8)) :
    linesRead bufsiz lines <+: lines ∧ ∀ l ∈ linesRead bufsiz lines, 0 ∉ l := by
  induction lines with
  | nil => exact ⟨List.prefix_rfl, by simp [linesRead]⟩
  | cons l lines ih =>
      cases lines with
      | nil =>
          simp only [linesRead]
          split_ifs with h
          · exact ⟨List.prefix_rfl, by simpa using h.1⟩
          · exact ⟨List.nil_prefix, by simp⟩
      | cons l' lines =>
          rw [linesRead]
          · split_ifs with h
            · exact ⟨(List.cons_prefix_cons).mpr ⟨rfl, ih.1⟩, List.forall_mem_cons.mpr ⟨h.1, ih.2⟩⟩
            · exact ⟨List.nil_prefix, by simp⟩
          · simp

/-- The loop decodes the lines up to the first that the buffer cannot hold. It fails if there is one. -/
theorem load_lines {lines : List (List UInt8)} :
    ∀ {content : List UInt8} {c : Cron} {fuel i : Nat}, content.splitOn 10 = lines → content.length < fuel →
      ∃ c', whileLoop (fun _ : Unit => loadPass db bufsiz) (fun _ => ()) fuel i (content, c) =
          some (decide (Fit bufsiz lines), c') ∧
        c'.tasklist = (jobs db c.env (linesRead bufsiz lines)).reverse ++ c.tasklist := by
  induction lines with
  | nil => intro content c fuel i h _; exact absurd h (List.splitOnP_ne_nil _ _)
  | cons l lines ih =>
      intro content c fuel i h hlen
      obtain ⟨fuel, rfl⟩ := Nat.exists_eq_succ_of_ne_zero (by omega : fuel ≠ 0)
      obtain ⟨hnl, ⟨rfl, rfl⟩ | ⟨rest, l', lines', rfl, rfl, hrest⟩⟩ := splitOn_cases h
      · have htake : content.takeWhile (· ≠ 10) = content := by simpa using takeWhile_ne_append [] hnl
        by_cases hfit : Fit bufsiz [content]
        · rw [decide_eq_true hfit, linesRead_eq_self hfit, jobs_cons]
          simp only [whileLoop, loadPass_last hnl hfit.1 hfit.2]
          exact ⟨_, rfl, rfl⟩
        · have hread : linesRead bufsiz [content] = [] := if_neg hfit
          rw [decide_eq_false hfit, hread]
          simp only [whileLoop, loadPass_unfit htake (by rw [if_neg hnl]; exact hfit)]
          exact ⟨c, rfl, rfl⟩
      · have htake : (l ++ 10 :: rest).takeWhile (· ≠ 10) = l := by rw [takeWhile_ne_append _ hnl]; simp
        simp only [List.length_append, List.length_cons] at hlen
        by_cases hfit : 0 ∉ l ∧ l.length + 2 ≤ bufsiz
        · have hiff : Fit bufsiz (l :: l' :: lines') ↔ Fit bufsiz (l' :: lines') := and_iff_right hfit
          have hread : linesRead bufsiz (l :: l' :: lines') = l :: linesRead bufsiz (l' :: lines') :=
            if_pos hfit
          rw [hread, jobs_cons, decide_eq_decide.mpr hiff]
          simp only [whileLoop, loadPass_line hnl hfit.1 hfit.2]
          exact ih hrest (by omega)
        · have hread : linesRead bufsiz (l :: l' :: lines') = [] := if_neg hfit
          rw [decide_eq_false (show ¬ Fit bufsiz (l :: l' :: lines') from fun h => hfit h.1), hread]
          simp only [whileLoop, loadPass_unfit htake (by simpa using hfit)]
          exact ⟨c, rfl, rfl⟩

/-- The file is a crontab that may be read, and not the one read last. -/
def IsRead (c : Cron) (o : Option Opened) (file : Opened) : Prop :=
  ∃ lst fst, o = some file ∧ file.lst = some lst ∧ file.fst = some fst ∧ permitted lst fst ∧
    fst.mtime ≠ c.fileMtime

theorem IsRead.loadFile_eq {c : Cron} {o : Option Opened} {file : Opened} (h : IsRead c o file) :
    ∃ c', loadFile db bufsiz c o = some (decide (Fit bufsiz (file.content.splitOn 10)), c') ∧
      c'.tasklist = (jobs db defaultEnv (linesRead bufsiz (file.content.splitOn 10))).reverse := by
  obtain ⟨lst, fst, rfl, hl, hf, hp, hm⟩ := h
  obtain ⟨c', hload, htasks⟩ :=
    @load_lines db bufsiz _ file.content ⟨[], defaultEnv, fst.mtime⟩ _ 0 rfl (Nat.lt_succ_self _)
  simp only [loadFile, hl, hf, if_pos hp, if_neg hm]
  rw [List.append_nil] at htasks
  exact ⟨c', hload, htasks⟩

theorem loadFile_not_read {c : Cron} {o : Option Opened} (h : ¬ ∃ file, IsRead c o file) :
    ∃ ok, loadFile db bufsiz c o = some (ok, c) := by
  cases o with
  | none => exact ⟨false, rfl⟩
  | some file =>
      obtain ⟨lst, fst, content⟩ := file
      cases lst with
      | none => exact ⟨false, rfl⟩
      | some lst =>
          cases fst with
          | none => exact ⟨false, rfl⟩
          | some fst =>
              by_cases hp : permitted lst fst
              · by_cases hm : fst.mtime = c.fileMtime
                · exact ⟨true, by simp only [loadFile, if_pos hp, if_pos hm]⟩
                · exact absurd ⟨_, lst, fst, rfl, rfl, rfl, hp, hm⟩ h
              · exact ⟨false, by simp only [loadFile, if_neg hp]⟩

theorem loadFile_isSome (c : Cron) (o : Option Opened) : (loadFile db bufsiz c o).isSome := by
  by_cases h : ∃ file, IsRead c o file
  · obtain ⟨file, h⟩ := h
    obtain ⟨c', hload, _⟩ := @IsRead.loadFile_eq db bufsiz _ _ _ h
    rw [hload]; rfl
  · obtain ⟨ok, hload⟩ := @loadFile_not_read db bufsiz _ _ h
    rw [hload]; rfl

theorem loadFile_fits {c : Cron} {o : Opened} {lst fst : Stat} (hl : o.lst = some lst) (hf : o.fst = some fst)
    (hp : permitted lst fst) (hm : fst.mtime ≠ c.fileMtime) (hfit : Fit bufsiz (o.content.splitOn 10)) :
    ∃ c', loadFile db bufsiz c (some o) = some (true, c') ∧
      c'.tasklist = (crontabJobs db o.content).reverse := by
  have h := @IsRead.loadFile_eq db bufsiz c (some o) o ⟨lst, fst, rfl, hl, hf, hp, hm⟩
  rwa [linesRead_eq_self hfit, decide_eq_true hfit] at h

end CameraFw.Crontab
