import CameraFw.Crontab.Environ
import CameraFw.Crontab.Lemmas.Load

/-!
# The environment of a job

The list that `load_file` keeps holds the variables of the lines it has read, and `cloneenv` copies all of it.
-/

namespace CameraFw.Crontab

open CameraFw.Base

variable {db : Passwd} {bufsiz : Nat} {env : Env} {vars : Vars} {name val : List UInt8}

/-! ## The list as a map -/

/-- The list holds what the variables are, each of them once. -/
structure Represents (env : Env) (vars : Vars) : Prop where
  nodup : (env.map Prod.fst).Nodup
  mem_iff : ∀ name val, (name, val) ∈ env ↔ vars name = some val

theorem setFirst_names (name val : List UInt8) (env : Env) :
    (setFirst name val env).map Prod.fst = env.map Prod.fst := by
  induction env with
  | nil => rfl
  | cons p env ih => by_cases hp : p.1 = name <;> simp [setFirst, hp, ih]

theorem mem_setFirst (hnd : (env.map Prod.fst).Nodup) (hin : name ∈ env.map Prod.fst) {n v : List UInt8} :
    (n, v) ∈ setFirst name val env ↔ if n = name then v = val else (n, v) ∈ env := by
  induction env with
  | nil => simp at hin
  | cons p env ih =>
      obtain ⟨n', v'⟩ := p
      simp only [List.map_cons, List.nodup_cons] at hnd
      by_cases hp : n' = name
      · subst hp
        have hout : ∀ w, (n', w) ∉ env := fun w hw => hnd.1 (List.mem_map_of_mem hw)
        by_cases hn : n = n'
        · subst hn; simp [setFirst, hout]
        · simp [setFirst, hn]
      · have hin' : name ∈ env.map Prod.fst := by
          rcases List.mem_cons.mp hin with h | h
          · exact absurd h.symm hp
          · exact h
        simp only [setFirst, if_neg hp, List.mem_cons, ih hnd.2 hin', Prod.mk.injEq]
        by_cases hn : n = name
        · subst hn; simp [Ne.symm hp]
        · simp [hn]

theorem mem_clrenv (hnd : (env.map Prod.fst).Nodup) {n v : List UInt8} :
    (n, v) ∈ clrenv env name ↔ n ≠ name ∧ (n, v) ∈ env := by
  by_cases hn : n = name
  · subst hn
    simp only [ne_eq, not_true_eq_false, false_and, iff_false]
    induction env with
    | nil => simp [clrenv]
    | cons p env ih =>
        obtain ⟨n', v'⟩ := p
        simp only [List.map_cons, List.nodup_cons] at hnd
        by_cases hp : n' = n
        · subst hp
          have hout : (n', v) ∉ env := fun hw => hnd.1 (List.mem_map_of_mem hw)
          simpa [clrenv] using hout
        · have := ih hnd.2
          simpa [clrenv, hp, Ne.symm hp] using this
  · simp [clrenv, hn, List.mem_eraseP_of_neg]

theorem Represents.stoenv (h : Represents env vars) :
    Represents (stoenv env name val) (Function.update vars name (some val)) := by
  unfold Crontab.stoenv
  have hupd : ∀ n v, Function.update vars name (some val) n = some v ↔
      if n = name then v = val else (n, v) ∈ env := by
    intro n v
    by_cases hn : n = name
    · subst hn; simp [eq_comm]
    · simp [hn, h.mem_iff]
  split
  · rename_i hany
    have hin : name ∈ env.map Prod.fst := by
      obtain ⟨p, hp, hpn⟩ := List.any_eq_true.mp hany
      exact List.mem_map.mpr ⟨p, hp, by simpa using hpn⟩
    refine ⟨setFirst_names name val env ▸ h.nodup, fun n v => ?_⟩
    rw [mem_setFirst h.nodup hin, hupd]
  · rename_i hany
    have hout : name ∉ env.map Prod.fst := by
      intro hin
      obtain ⟨p, hp, hpn⟩ := List.mem_map.mp hin
      exact hany (List.any_eq_true.mpr ⟨p, hp, by simpa using hpn⟩)
    refine ⟨by simpa using ⟨by simpa using hout, h.nodup⟩, fun n v => ?_⟩
    rw [hupd, List.mem_cons, Prod.mk.injEq]
    by_cases hn : n = name
    · subst hn
      have hv : (n, v) ∉ env := fun hm => hout (List.mem_map_of_mem hm)
      simp [hv]
    · simp [hn]

theorem Represents.clrenv (h : Represents env vars) :
    Represents (clrenv env name) (Function.update vars name none) := by
  refine ⟨h.nodup.sublist (List.eraseP_sublist.map _), fun n v => ?_⟩
  rw [mem_clrenv h.nodup, h.mem_iff]
  by_cases hn : n = name
  · subst hn; simp
  · simp [hn]

theorem represents_defaults : Represents defaultEnv defaults := by
  have hempty : Represents [] fun _ => none := ⟨List.nodup_nil, by simp⟩
  have h : Represents defaultEnv _ := hempty.stoenv.stoenv
  convert h using 1
  funext n
  by_cases hp : n = ascii "PATH"
  · subst hp
    rw [Function.update_self]
    decide
  · simp only [defaults, Function.update_apply, if_neg hp]

/-! ## One line -/

theorem trimName_eq_trimEnd {s : List UInt8} (h : ∀ c ∈ s.head?, ¬ isspace c) : trimName s = trimEnd s := by
  cases s with
  | nil => rfl
  | cons c s =>
      have hc := h c rfl
      simp only [trimName, trimEnd]
      induction s using List.reverseRecOn with
      | nil => simp [List.rdropWhile_singleton, hc]
      | append_singleton s b ih =>
          rw [← List.cons_append, List.rdropWhile_concat, List.rdropWhile_concat]
          by_cases hb : isspace b
          · rw [if_pos hb, if_pos hb, ih (by simpa using hc)]
          · rw [if_neg hb, if_neg hb, List.cons_append]

theorem lineKind_setting {line p : List UInt8} (h : lineKind line = .setting p) :
    p = trimStart (trimEnd line) := by
  unfold lineKind at h
  split at h
  · cases h
  · rename_i hs
    rw [hs]
    split at h
    · cases h
    · split at h <;> cases h
      rfl

theorem trimStart_head (s : List UInt8) : ∀ c ∈ (trimStart s).head?, ¬ isspace c := by
  intro c hc
  have h := List.head?_dropWhile_not isspace s
  rw [show (s.dropWhile isspace).head? = some c from hc] at h
  simpa using h

theorem after_eq (env : Env) (line : List UInt8) :
    env.after line = match assignment line with
      | none => env
      | some (name, val) => if val = [] then clrenv env name else stoenv env name val := by
  unfold Env.after assignment
  cases hk : lineKind line with
  | skipped => rfl
  | job p => rfl
  | setting p =>
      by_cases hp : 61 ∈ p
      · have htrim : trimName (p.takeWhile (· ≠ 61)) = trimEnd (p.takeWhile (· ≠ 61)) := by
          refine trimName_eq_trimEnd fun c hc => trimStart_head (trimEnd line) c ?_
          rw [← lineKind_setting hk]
          cases p with
          | nil => simp at hp
          | cons b p => by_cases hb : b = 61 <;> simp_all
        simp only [decodeEnv, if_pos hp, Option.getD_some, htrim]
      · simp only [decodeEnv, if_neg hp, Option.getD_none]

theorem varsBelow_concat (lines : List (List UInt8)) (line : List UInt8) :
    varsBelow (lines ++ [line]) = match assignment line with
      | none => varsBelow lines
      | some (name, val) => Function.update (varsBelow lines) name (if val = [] then none else some val) := by
  cases ha : assignment line with
  | none =>
      funext n
      simp [varsBelow, ha]
  | some a =>
      obtain ⟨name, val⟩ := a
      funext n
      by_cases hn : n = name
      · subst hn
        simp [varsBelow, ha]
      · simp [varsBelow, ha, hn, Ne.symm hn]

theorem represents_envBelow (lines : List (List UInt8)) : Represents (envBelow lines) (varsBelow lines) := by
  induction lines using List.reverseRecOn with
  | nil => exact represents_defaults
  | append_singleton lines line ih =>
      rw [show envBelow (lines ++ [line]) = (envBelow lines).after line by simp [envBelow], after_eq,
        varsBelow_concat]
      cases assignment line with
      | none => exact ih
      | some a =>
          simp only
          split
          · exact ih.clrenv
          · exact ih.stoenv

/-! ## The strings -/

theorem assignment_parts {line : List UInt8} (h : assignment line = some (name, val)) :
    61 ∉ name ∧ name ⊆ line ∧ val ⊆ line := by
  unfold assignment at h
  split at h
  · rename_i p hk
    split at h
    · cases h
      have hp : p ⊆ line := by
        rw [lineKind_setting hk]
        exact ((List.dropWhile_sublist _).trans (List.rdropWhile_prefix _ _).sublist).subset
      have hname : trimEnd (p.takeWhile (· ≠ 61)) ⊆ p.takeWhile (· ≠ 61) :=
        (List.rdropWhile_prefix _ _).subset
      refine ⟨fun hm => ?_, ?_, ?_⟩
      · have := List.mem_takeWhile_imp (hname hm)
        simp at this
      · exact fun b hb => hp ((List.takeWhile_sublist _).subset (hname hb))
      · exact fun b hb => hp ((List.dropWhile_sublist _).subset (List.mem_of_mem_tail
          ((List.dropWhile_sublist _).subset hb)))
    · cases h
  · cases h

/-- A variable comes from the defaults or from an assignment. -/
theorem varsBelow_cases {lines : List (List UInt8)} (h : varsBelow lines name = some val) :
    defaults name = some val ∨ ∃ line ∈ lines, assignment line = some (name, val) := by
  unfold varsBelow at h
  split at h
  · exact Or.inl h
  · rename_i n v hl
    have hm := List.mem_filter.mp (List.mem_of_getLast? hl)
    obtain ⟨line, hline, ha⟩ := List.mem_filterMap.mp hm.1
    obtain rfl : n = name := by simpa using hm.2
    split at h
    · cases h
    · cases h
      exact Or.inr ⟨line, hline, ha⟩

theorem defaults_parts (h : defaults name = some val) : 61 ∉ name ∧ 0 ∉ name ∧ 0 ∉ val := by
  unfold defaults at h
  split at h
  · rename_i hn; cases h; rw [hn]; decide
  · split at h
    · rename_i hn; cases h; rw [hn]; decide
    · cases h

theorem varsBelow_name {lines : List (List UInt8)} (h : varsBelow lines name = some val) : 61 ∉ name := by
  rcases varsBelow_cases h with hd | ⟨line, _, ha⟩
  · exact (defaults_parts hd).1
  · exact (assignment_parts ha).1

theorem varsBelow_nulFree {lines : List (List UInt8)} (h0 : ∀ line ∈ lines, 0 ∉ line)
    (h : varsBelow lines name = some val) : 0 ∉ name ∧ 0 ∉ val := by
  rcases varsBelow_cases h with hd | ⟨line, hline, ha⟩
  · exact (defaults_parts hd).2
  · obtain ⟨_, hn, hv⟩ := assignment_parts ha
    exact ⟨fun hm => h0 line hline (hn hm), fun hm => h0 line hline (hv hm)⟩

theorem Represents.environOf (h : Represents env vars) (hname : ∀ n v, vars n = some v → 61 ∉ n) :
    EnvironOf vars (cloneenv env) := by
  refine ⟨?_, fun s => ?_⟩
  · have hmap : (cloneenv env).map (·.takeWhile (· ≠ 61)) = env.map Prod.fst := by
      rw [cloneenv, List.map_map]
      refine List.map_congr_left fun p hp => ?_
      have hn : 61 ∉ p.1 := hname p.1 p.2 ((h.mem_iff p.1 p.2).mp hp)
      rw [Function.comp_apply, takeWhile_ne_append _ hn]
      simp
    rw [hmap]
    exact h.nodup
  · constructor
    · intro hs
      obtain ⟨p, hp, rfl⟩ := List.mem_map.mp hs
      exact ⟨p.1, p.2, (h.mem_iff _ _).mp hp, rfl⟩
    · rintro ⟨n, v, hv, rfl⟩
      exact List.mem_map.mpr ⟨(n, v), (h.mem_iff n v).mpr hv, rfl⟩

/-! ## The block -/

/-- A NUL stands behind each pointer. -/
def Procenv.Terminated (b : Procenv) : Prop := ∀ x ∈ b.ptrs, 0 ∈ b.chars.drop x

theorem Procenv.Terminated.copy {b : Procenv} (h : b.Terminated) (p : List UInt8 × List UInt8) :
    (b.copy p).Terminated ∧ (b.copy p).strings = b.strings ++ [cstr p.1 ++ 61 :: cstr p.2] := by
  have hle : ∀ x ∈ b.ptrs, x ≤ b.chars.length := by
    intro x hx
    by_contra hlt
    have := h x hx
    rw [List.drop_eq_nil_of_le (by omega)] at this
    cases this
  constructor
  · intro x hx
    rcases List.mem_append.mp hx with hx | hx
    · simp only [Procenv.copy, List.drop_append_of_le_length (hle x hx)]
      exact List.mem_append_left _ (h x hx)
    · obtain rfl := List.mem_singleton.mp hx
      simp [Procenv.copy]
  · have hnew : 0 ∉ cstr p.1 ++ 61 :: cstr p.2 := by simp [zero_notMem_cstr]
    simp only [Procenv.strings, Procenv.copy, List.map_append, List.map_cons, List.map_nil, List.drop_left]
    congr 1
    · refine List.map_congr_left fun x hx => ?_
      rw [List.drop_append_of_le_length (hle x hx), cstr_append_of_mem _ (h x hx)]
    · have := cstr_append [0] hnew
      simpa [cstr] using this

theorem procenv_spec (env : Env) :
    (procenv env).Terminated ∧ (procenv env).strings = env.map (fun p => cstr p.1 ++ 61 :: cstr p.2) ∧
      (procenv env).chars.length = procenvSize env := by
  induction env using List.reverseRecOn with
  | nil => exact ⟨by simp [procenv, Procenv.Terminated], rfl, rfl⟩
  | append_singleton env p ih =>
      obtain ⟨hterm, hstr, hlen⟩ := ih
      have hcopy : procenv (env ++ [p]) = (procenv env).copy p := by simp [procenv]
      rw [hcopy]
      refine ⟨(hterm.copy p).1, ?_, ?_⟩
      · rw [(hterm.copy p).2, hstr, List.map_append]; rfl
      · simp only [Procenv.copy, List.length_append, List.length_cons, List.length_nil, hlen, procenvSize,
          List.map_append, List.sum_append, List.map_cons, List.map_nil, List.sum_cons, List.sum_nil]
        omega

theorem procenv_strings (h : ∀ p ∈ env, 0 ∉ p.1 ∧ 0 ∉ p.2) : (procenv env).strings = cloneenv env := by
  rw [(procenv_spec env).2.1]
  refine List.map_congr_left fun p hp => ?_
  rw [cstr_eq_self (h p hp).1, cstr_eq_self (h p hp).2]

theorem procenv_envBelow {lines : List (List UInt8)} (h0 : ∀ line ∈ lines, 0 ∉ line) :
    (procenv (envBelow lines)).strings = cloneenv (envBelow lines) := by
  refine procenv_strings fun p hp => ?_
  exact varsBelow_nulFree h0 (((represents_envBelow lines).mem_iff p.1 p.2).mp hp)

/-! ## The jobs of the lines that are read -/

theorem decodeLine_env (db : Passwd) (env : Env) (p : List UInt8) :
    decodeLine db env p = (decodeLine db [] p).map fun job => { job with environ := cloneenv env } := by
  simp only [decodeLine, Option.bind_eq_bind, Option.map_bind, Function.comp_def, Option.map_some]

theorem jobs_eq_jobLines (db : Passwd) (above lines : List (List UInt8)) :
    jobs db (envBelow above) lines =
      (jobLines db above lines).map fun j => { j.2 with environ := cloneenv (envBelow j.1) } := by
  induction lines generalizing above with
  | nil => rfl
  | cons line lines ih =>
      have hbelow : envBelow (above ++ [line]) = (envBelow above).after line := by simp [envBelow]
      have hih := ih (above ++ [line])
      rw [hbelow] at hih
      cases hk : lineKind line with
      | skipped => simpa [jobs, jobLines, Env.after, hk] using hih
      | setting p => simpa [jobs, jobLines, Env.after, hk] using hih
      | job p =>
          simp only [Env.after, hk] at hih
          simp only [jobs, jobLines, hk, hih, List.map_append, decodeLine_env db (envBelow above) p]
          cases decodeLine db [] p <;> rfl

theorem jobLines_above {above lines : List (List UInt8)} {j : List (List UInt8) × Centry}
    (hj : j ∈ jobLines db above lines) : j.1 <+: above ++ lines := by
  induction lines generalizing above with
  | nil => simp [jobLines] at hj
  | cons line lines ih =>
      have hrest : j ∈ jobLines db (above ++ [line]) lines → j.1 <+: above ++ line :: lines := by
        intro hj
        simpa using ih hj
      cases hk : lineKind line with
      | skipped => simp only [jobLines, hk] at hj; exact hrest hj
      | setting p => simp only [jobLines, hk] at hj; exact hrest hj
      | job p =>
          simp only [jobLines, hk] at hj
          rcases List.mem_append.mp hj with hj | hj
          · obtain ⟨job, _, rfl⟩ := List.mem_map.mp hj
            exact List.prefix_append _ _
          · exact hrest hj

end CameraFw.Crontab
