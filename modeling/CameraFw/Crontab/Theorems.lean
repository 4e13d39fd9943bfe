import CameraFw.Crontab.Lemmas.Environ
import CameraFw.Crontab.Lemmas.Grammar

/-!
# The jobs in force, their environment and their times
-/

namespace CameraFw.Crontab

open CameraFw.Base

variable {db : Passwd} {bufsiz : Nat}

/-- The crontab is written at another second than the one `cron` has read last, and its lines fit. -/
def EditSeen (bufsiz : Nat) (s : Sys) : Event → Prop
  | .write f => f.stat.mtime ≠ s.cron.fileMtime ∧ Fit bufsiz (f.content.splitOn 10)
  | _ => True

instance (bufsiz : Nat) (s : Sys) : ∀ a, Decidable (EditSeen bufsiz s a)
  | .write _ => inferInstanceAs (Decidable (_ ∧ _))
  | .remove => isTrue trivial
  | .load _ => isTrue trivial

/-- A call of `load_file` that returns non-zero leaves the jobs of the crontab, the last one first. -/
def InForce (db : Passwd) (bufsiz : Nat) (s : Sys) : Event → Prop
  | .load lst => ∀ c, s.load db bufsiz lst = some (true, c) →
      ∃ f, s.file = some f ∧ c.tasklist = (crontabJobs db f.content).reverse
  | _ => True

/-- The lines of the crontab fit, and its jobs are there if `cron` takes it for the one it has read last. -/
def UpToDate (db : Passwd) (bufsiz : Nat) (s : Sys) : Prop :=
  ∀ f, s.file = some f → Fit bufsiz (f.content.splitOn 10) ∧
    (f.stat.mtime = s.cron.fileMtime → s.cron.tasklist = (crontabJobs db f.content).reverse)

theorem load_cases {s : Sys} {lst : Option Stat} {r : Bool} {c : Cron} (h : UpToDate db bufsiz s)
    (hr : s.load db bufsiz lst = some (r, c)) :
    (r = false ∧ c = s.cron) ∨
      ∃ f, s.file = some f ∧ c.tasklist = (crontabJobs db f.content).reverse := by
  unfold Sys.load at hr
  cases hf : s.file with
  | none => rw [hf] at hr; cases hr; exact Or.inl ⟨rfl, rfl⟩
  | some f =>
      obtain ⟨hfit, hsame⟩ := h f hf
      rw [hf, Option.map_some] at hr
      cases lst with
      | none => cases hr; exact Or.inl ⟨rfl, rfl⟩
      | some lst =>
          by_cases hp : permitted lst f.stat
          · refine Or.inr ⟨f, rfl, ?_⟩
            by_cases hm : f.stat.mtime = s.cron.fileMtime
            · simp only [loadFile, if_pos hp, if_pos hm] at hr
              cases hr
              exact hsame hm
            · obtain ⟨c', hload, htasks⟩ :=
                @loadFile_fits db bufsiz _ ⟨_, _, f.content⟩ _ _ rfl rfl hp hm hfit
              rw [hload] at hr
              cases hr
              exact htasks
          · simp only [loadFile, if_neg hp] at hr
            cases hr
            exact Or.inl ⟨rfl, rfl⟩

theorem step_upToDate {s t : Sys} {a : Event} (h : UpToDate db bufsiz s) (ha : EditSeen bufsiz s a)
    (ht : step db bufsiz s a = some t) : UpToDate db bufsiz t := by
  cases a with
  | write f =>
      cases ht
      intro f' hf'
      cases hf'
      exact ⟨ha.2, fun hm => absurd hm ha.1⟩
  | remove => cases ht; intro f hf; cases hf
  | load lst =>
      obtain ⟨⟨r, c⟩, hr, rfl⟩ := Option.map_eq_some_iff.mp ht
      rcases load_cases h hr with ⟨_, hc⟩ | ⟨f, hf, hj⟩
      · intro f hf
        rw [show c = s.cron from hc]
        exact h f hf
      · intro f' hf'
        obtain rfl : f = f' := Option.some.inj (hf.symm.trans hf')
        exact ⟨(h f hf).1, fun _ => hj⟩

theorem inForce_of_upToDate {s : Sys} {a : Event} (h : UpToDate db bufsiz s) : InForce db bufsiz s a := by
  cases a with
  | load lst =>
      intro c hc
      rcases load_cases h hc with ⟨hr, _⟩ | ⟨f, hf, hj⟩
      · cases hr
      · exact ⟨f, hf, hj⟩
  | _ => trivial

/-- From the start of `cron` on, every call of `load_file` that returns non-zero leaves the jobs of the
crontab as it is then, if each edit comes at another second than the crontab `cron` has read last and
has lines that fit. -/
theorem loads_in_force {as : List Event}
    (has : Along (step db bufsiz) (EditSeen bufsiz) ⟨none, Cron.init⟩ as) :
    Along (step db bufsiz) (InForce db bufsiz) ⟨none, Cron.init⟩ as := by
  have hstart : UpToDate db bufsiz ⟨none, Cron.init⟩ := by
    intro f hf
    cases hf
  exact along_of_along (I := UpToDate db bufsiz) (fun _ _ h _ => inForce_of_upToDate h)
    (fun _ _ _ => step_upToDate) as _ hstart has

/-! ## Two edits that are missed -/

def nobody : Passwd := ⟨fun _ => none, fun _ => none⟩

def crontabAt (t : Int) (content : List UInt8) : File := ⟨⟨7, 1, 0, 0o100644, t⟩, content⟩

def oneJob : List UInt8 := ascii "0 5 * * * 0 /usr/sbin/ntp\n"
def twoJobs : List UInt8 := oneJob ++ ascii "*/15 * * * mon-fri 0 /usr/sbin/upload\n"

def hiddenJob : List UInt8 := oneJob ++ 0 :: 10 :: ascii "*/15 * * * mon-fri 0 /usr/sbin/upload\n"

def load : Event := .load (some ⟨7, 1, 0, 0o100644, 0⟩)

theorem loads_in_force_edited :
    Along (step nobody 4096) (InForce nobody 4096) ⟨none, Cron.init⟩
      [.write (crontabAt 100 oneJob), load, load, .write (crontabAt 160 twoJobs), load] :=
  loads_in_force (by decide +kernel)

def loaded (as : List Event) : Option (Bool × Nat) :=
  (run (step nobody 4096) ⟨none, Cron.init⟩ as).bind fun s =>
    (s.load nobody 4096 (some ⟨7, 1, 0, 0o100644, 0⟩)).map fun r => (r.1, r.2.tasklist.length)

/-- An edit within the second of the last load is not seen, and a load that has failed is taken for done. -/
theorem load_stale :
    loaded [.write (crontabAt 100 oneJob), load, .write (crontabAt 100 twoJobs)] = some (true, 1) ∧
      (crontabJobs nobody twoJobs).length = 2 ∧
      loaded [.write (crontabAt 100 hiddenJob)] = some (false, 1) ∧
      loaded [.write (crontabAt 100 hiddenJob), load] = some (true, 1) ∧
      (crontabJobs nobody hiddenJob).length = 2 := by
  decide +kernel

/-! ## Loads that fail -/

/-- When `load_file` returns 0, the jobs are the ones from before exactly if the crontab was not read,
or can be read to its end, or they happen to be those of the lines before the one that cannot be read. -/
theorem loadFile_fails_iff (c : Cron) (o : Option Opened) :
    (∀ c', loadFile db bufsiz c o = some (false, c') → c'.tasklist = c.tasklist) ↔
      ∀ file, IsRead c o file → ¬ Fit bufsiz (file.content.splitOn 10) →
        c.tasklist = (jobs db defaultEnv (linesRead bufsiz (file.content.splitOn 10))).reverse := by
  by_cases h : ∃ file, IsRead c o file
  · obtain ⟨file, h⟩ := h
    obtain ⟨c', hload, htasks⟩ := @IsRead.loadFile_eq db bufsiz _ _ _ h
    have hsame : ∀ file', IsRead c o file' → file' = file := by
      rintro file' ⟨_, _, ho', _⟩
      obtain ⟨_, _, ho, _⟩ := h
      exact Option.some.inj (ho'.symm.trans ho)
    rw [hload]
    constructor
    · intro hkeep file' hread hunfit
      obtain rfl := hsame file' hread
      rw [← htasks, hkeep c' (by rw [decide_eq_false hunfit])]
    · intro hkeep d hd
      simp only [Option.some.injEq, Prod.mk.injEq, decide_eq_false_iff_not] at hd
      obtain ⟨hunfit, rfl⟩ := hd
      rw [htasks, hkeep file h hunfit]
  · obtain ⟨ok, hload⟩ := @loadFile_not_read db bufsiz _ _ h
    rw [hload]
    constructor
    · exact fun _ file hread => absurd ⟨file, hread⟩ h
    · intro _ d hd
      cases hd
      rfl

/-- The first job, a comment of 8192 characters, and the second job. -/
def longLine : List UInt8 :=
  oneJob ++ 35 :: List.replicate 8191 45 ++ 10 :: ascii "*/15 * * * mon-fri 0 /usr/sbin/upload\n"

/-- The second job is lost when the comment comes in. -/
theorem load_truncates :
    loaded [.write (crontabAt 100 twoJobs), load] = some (true, 2) ∧
      loaded [.write (crontabAt 100 twoJobs), load, .write (crontabAt 160 longLine)] = some (false, 1) ∧
      (crontabJobs nobody longLine).length = 2 := by
  decide +kernel

/-! ## The environment of the jobs -/

/-- The job in the list is the one of its line. Its environment is what the lines above say, and stands
in a block that has room for all of it. -/
structure TaskOf (j : List (List UInt8) × Centry) (task : Centry) : Prop where
  job : task = { j.2 with environ := task.environ }
  environ : EnvironOf (varsBelow j.1) task.environ
  block : task.environ = (procenv (envBelow j.1)).strings
  room : (procenv (envBelow j.1)).chars.length = procenvSize (envBelow j.1)

theorem jobs_tasksOf {lines : List (List UInt8)} (h0 : ∀ l ∈ lines, 0 ∉ l) :
    List.Forall₂ TaskOf (jobLines db [] lines) (jobs db defaultEnv lines) := by
  rw [show defaultEnv = envBelow [] from rfl, jobs_eq_jobLines, List.forall₂_map_right_iff, List.forall₂_same]
  intro j hj
  have habove : ∀ l ∈ j.1, 0 ∉ l := fun l hl => h0 l ((jobLines_above hj).subset hl)
  exact ⟨rfl, (represents_envBelow j.1).environOf fun _ _ => varsBelow_name, (procenv_envBelow habove).symm,
    (procenv_spec _).2.2⟩

theorem decode_keeps_tasks (c : Cron) (l : List UInt8) : c.tasklist <:+ (c.decode db l).tasklist := by
  unfold Cron.decode
  split
  · exact List.suffix_rfl
  · exact List.suffix_append _ _
  · exact List.suffix_rfl

/-- When a crontab is read, each job gets the variables that the lines above it say, each once, and no
line changes a job that is there. This also holds of a crontab that is not read to its end, for the
lines before that. -/
theorem loadFile_environ {c : Cron} {o : Opened} {lst fst : Stat} (hl : o.lst = some lst)
    (hf : o.fst = some fst) (hp : permitted lst fst) (hm : fst.mtime ≠ c.fileMtime) :
    (∃ c', loadFile db bufsiz c (some o) = some (decide (Fit bufsiz (o.content.splitOn 10)), c') ∧
        List.Forall₂ TaskOf (jobLines db [] (linesRead bufsiz (o.content.splitOn 10))) c'.tasklist.reverse) ∧
      linesRead bufsiz (o.content.splitOn 10) <+: o.content.splitOn 10 ∧
      (Fit bufsiz (o.content.splitOn 10) → linesRead bufsiz (o.content.splitOn 10) = o.content.splitOn 10) ∧
      ∀ (d : Cron) (l : List UInt8), d.tasklist <:+ (d.decode db l).tasklist := by
  obtain ⟨hpre, h0⟩ := @linesRead_begins bufsiz (o.content.splitOn 10)
  obtain ⟨c', hload, htasks⟩ := @IsRead.loadFile_eq db bufsiz c (some o) o ⟨lst, fst, rfl, hl, hf, hp, hm⟩
  refine ⟨⟨c', hload, ?_⟩, hpre, linesRead_eq_self, decode_keeps_tasks⟩
  rw [htasks, List.reverse_reverse]
  exact jobs_tasksOf h0

def settings : List UInt8 :=
  ascii "MAILTO = root\nPATH=\n* * * * * 0 /bin/a\nMAILTO=\nSHELL=/bin/ash\nSHELL=/bin/bash\n0 5 * * * 0 /bin/b\n"

example : (crontabJobs nobody settings).map Centry.environ =
    [[ascii "MAILTO=root", ascii "SHELL=/bin/sh"], [ascii "SHELL=/bin/bash"]] := by
  decide +kernel

theorem loadFile_environ_settings :
    ∃ c', loadFile nobody 4096 Cron.init
        (some ⟨some (crontabAt 100 settings).stat, some (crontabAt 100 settings).stat, settings⟩) =
          some (true, c') ∧
      List.Forall₂ TaskOf (jobLines nobody [] (settings.splitOn 10)) c'.tasklist.reverse := by
  have hfit : Fit 4096 (settings.splitOn 10) := by decide +kernel
  obtain ⟨⟨c', hload, htasks⟩, -, hread, -⟩ := @loadFile_environ nobody 4096 Cron.init
    ⟨some (crontabAt 100 settings).stat, some (crontabAt 100 settings).stat, settings⟩ _ _ rfl rfl
      (by decide) (by decide)
  rw [hread hfit] at htasks
  exact ⟨c', by rw [hload, decide_eq_true hfit], htasks⟩

/-! ## The times of the jobs -/

/-- A list of elements is decoded to the values that they denote. What the field held in its range is
gone, and the bits outside it are left alone. -/
theorem decodeElem_denotes {f : FieldSpec} (hf : f ∈ [minutesField, hoursField, domField, monthsField])
    (es : List (Elem f)) {bits : Bitstr} (hlen : (f.nbits - 1) / 8 < bits.length) :
    ∃ bits', decodeElem f (fieldText es) bits = some bits' ∧ bits'.length = bits.length ∧
      ∀ i, bitTest bits' i =
        if f.base ≤ i ∧ i < f.nbits then decide (∃ e ∈ es, e.Denotes i) else bitTest bits i := by
  refine decodeElem_fieldText ?_ es hlen
  simp only [List.mem_cons, List.not_mem_nil, or_false] at hf
  rcases hf with rfl | rfl | rfl | rfl
  · exact regular_noNames (Or.inl rfl) (by decide) (by decide)
  · exact regular_noNames (Or.inl rfl) (by decide) (by decide)
  · exact regular_noNames (Or.inr rfl) (by decide) (by decide)
  · exact regular_months

/-- `Mar-JAN/2,12` -/
def someMonths : List (Elem monthsField) :=
  [⟨.range ⟨ascii "Mar", 3, .name rfl (by decide), by decide, by decide⟩
      ⟨ascii "JAN", 1, .name rfl (by decide), by decide, by decide⟩,
    some ⟨ascii "2", by decide, by decide +kernel, by decide, by decide⟩⟩,
   ⟨.one ⟨ascii "12", decimal (ascii "12"), .number (by decide) (by decide +kernel), by decide,
     by decide⟩, none⟩]

example : fieldText someMonths = ascii "Mar-JAN/2,12" ∧
    (decodeElem monthsField (fieldText someMonths) [0xff, 0xff]).map
      (fun bits => (List.range 16).filter (bitTest bits ·)) = some [0, 1, 3, 12, 13, 14, 15] := by
  decide +kernel

theorem decodeElem_denotes_months :
    ∃ bits', decodeElem monthsField (fieldText someMonths) [0xff, 0xff] = some bits' ∧ bits'.length = 2 ∧
      ∀ i : Nat, bitTest bits' i =
        if monthsField.base ≤ i ∧ i < monthsField.nbits then decide (∃ e ∈ someMonths, e.Denotes i)
        else bitTest [0xff, 0xff] i :=
  decodeElem_denotes (by simp) someMonths (by decide)

/-! ## Sundays -/

theorem Days.denotes_of_lt {r : Days} (h : r.m < 7) (day : Nat) :
    r.Denotes day ↔ min r.n r.m ≤ day ∧ day ≤ max r.n r.m ∧ r.stride ∣ day - min r.n r.m := by
  have hn := r.n_le
  constructor
  · rintro ⟨v, hhigh, hlow, hd, rfl⟩
    rw [Nat.mod_eq_of_lt (by omega)]
    exact ⟨hlow, hhigh, hd⟩
  · rintro ⟨hlow, hhigh, hd⟩
    exact ⟨day, hhigh, hlow, hd, Nat.mod_eq_of_lt (by omega)⟩

/-- From `n` on to the Sunday at the end of the week is never from the Sunday at its start to `n`. -/
theorem week_ends_differ {n k : Nat} (hn : n ≤ 6) (hk : k = 1 ∨ 1 ≤ k ∧ k ≤ n)
    (h : ∀ day < 7, (day ≤ n ∧ k ∣ day) ↔ ∃ v ≤ 7, n ≤ v ∧ k ∣ v - n ∧ v % 7 = day) : False := by
  have hself : k ∣ n := ((h n (by omega)).mpr ⟨n, by omega, le_rfl, by simp, Nat.mod_eq_of_lt (by omega)⟩).2
  obtain ⟨v, hv7, hnv, hd, hv0⟩ := (h 0 (by omega)).mp ⟨Nat.zero_le _, dvd_zero k⟩
  have hends : v = 0 ∨ v = 7 := by omega
  rcases hends with rfl | rfl
  · -- only the first Sunday is set, but Monday is meant
    have hmonday := (h 1 (by omega)).mpr ⟨1, by omega, by omega, by simp [show k = 1 by omega], rfl⟩
    omega
  · have hk1 : k = 1 := by
      have h7 : k ∣ 7 := by simpa [Nat.add_sub_cancel' hnv] using dvd_add hself hd
      rcases (Nat.dvd_prime (by decide : Nat.Prime 7)).mp h7 with h1 | h7
      · exact h1
      · omega
    subst hk1
    rcases Nat.lt_or_ge n 6 with hlt | hge
    · have hnext := (h (n + 1) (by omega)).mpr
        ⟨n + 1, by omega, by omega, one_dvd _, Nat.mod_eq_of_lt (by omega)⟩
      omega
    · obtain ⟨w, hw7, hnw, _, hw1⟩ := (h 1 (by omega)).mp ⟨by omega, one_dvd _⟩
      omega

/-- A range that ends in 7 is decoded as one that ends in 0. -/
theorem Days.not_decoded_of_seven {r : Days} {bits : List UInt8} (h7 : r.m = 7)
    (hd : decodeElem dowField r.text (bitDecl dowField.nbits) = some bits) :
    ¬∀ day < 7, bitTest bits day = decide (r.Denotes day) := by
  intro hdays
  have hn := r.n_le
  have hmod : r.m % 7 = 0 := by omega
  have hmin : min r.n r.m = r.n := by omega
  have hmax : max r.n r.m = 7 := by omega
  have hfits := (r.decodeElem_isSome_iff (bitDecl dowField.nbits)).mp (by rw [hd]; rfl)
  rw [hmod, Nat.min_zero, Nat.max_zero, Nat.zero_add] at hfits
  refine week_ends_differ hn (k := r.stride) ?_ fun day hday => ?_
  · cases hs : r.step with
    | none => exact Or.inl (by rw [Days.stride, hs])
    | some s => exact Or.inr ⟨r.stride_pos, hfits (by rw [hs]; rfl)⟩
  · have hday' := (r.decodeElem_bits (by decide) hd day hday).symm.trans (hdays day hday)
    rw [decide_eq_decide, hmod, Days.Denotes, hmin, hmax] at hday'
    simpa using hday'

theorem splitOn_list {before after : List (List UInt8)} {text : List UInt8}
    (hcommas : ∀ s ∈ before ++ after, 44 ∉ s) (hchars : ∀ c ∈ text, Alnum c) :
    ([44].intercalate (before ++ text :: after)).splitOn 44 = before ++ text :: after := by
  refine List.splitOn_intercalate 44 (fun s hs => ?_) (by simp)
  rw [List.mem_append, List.mem_cons] at hs
  rcases hs with hs | rfl | hs
  · exact hcommas s (List.mem_append_left _ hs)
  · exact fun h => (hchars 44 h).ne (by decide) rfl
  · exact hcommas s (List.mem_append_right _ hs)

/-- A range of days is decoded to the days it stands for exactly if it does not end in 7 and its step is
not larger than the range. A lone 7 in a list is a lone 0. -/
theorem decodeElem_days_iff (r : Days) :
    ((∃ bits, decodeElem dowField r.text (bitDecl dowField.nbits) = some bits ∧
        ∀ day < 7, bitTest bits day = decide (r.Denotes day)) ↔
      r.m ≠ 7 ∧ (r.step.isSome → min r.n r.m + r.stride ≤ max r.n r.m)) ∧
      ∀ {zero seven : List UInt8} (before after : List (List UInt8)), Writes dowField zero 0 →
        Writes dowField seven 7 → (∀ s ∈ before ++ after, 44 ∉ s) →
        decodeElem dowField ([44].intercalate (before ++ zero :: after)) (bitDecl dowField.nbits) =
          decodeElem dowField ([44].intercalate (before ++ seven :: after)) (bitDecl dowField.nbits) := by
  have hm := r.m_le
  have hmod : r.m ≠ 7 → r.m % 7 = r.m := fun h7 => Nat.mod_eq_of_lt (by omega)
  have hsome := r.decodeElem_isSome_iff (bitDecl dowField.nbits)
  refine ⟨⟨?_, fun ⟨h7, hfits⟩ => ?_⟩, ?_⟩
  · rintro ⟨bits, hd, hdays⟩
    have h7 : r.m ≠ 7 := fun h7 => Days.not_decoded_of_seven h7 hd hdays
    have hfits := hsome.mp (by rw [hd]; rfl)
    rw [hmod h7] at hfits
    exact ⟨h7, hfits⟩
  · rw [hmod h7] at hsome
    obtain ⟨bits, hd⟩ := Option.isSome_iff_exists.mp (hsome.mpr hfits)
    refine ⟨bits, hd, fun day hday => ?_⟩
    rw [r.decodeElem_bits (by decide) hd day hday, hmod h7]
    exact decide_eq_decide.mpr (Days.denotes_of_lt (by omega) day).symm
  · intro zero seven before after hzero hseven hcommas
    obtain ⟨hzne, hzchars⟩ := hzero.alnum regular_dow
    obtain ⟨hsne, hschars⟩ := hseven.alnum regular_dow
    rw [decodeElem, decodeElem, splitOn_list hcommas hzchars, splitOn_list hcommas hschars]
    refine FieldSpec.elems_replace hzne hsne (fun bits => ?_) _ _ _
    rw [elem_lone hzero (by omega), elem_lone hseven (by omega)]

/-- `1-7` -/
def mondayToSunday : Days :=
  ⟨ascii "1", decimal (ascii "1"), ascii "7", decimal (ascii "7"), .number (by decide) (by decide +kernel),
    .number (by decide) (by decide +kernel), by decide, by decide, none⟩

/-- The whole week is meant, and Sunday and Monday are set. -/
theorem mondayToSunday_decoded :
    mondayToSunday.text = ascii "1-7" ∧ (∀ day < 7, mondayToSunday.Denotes day) ∧
      (decodeElem dowField mondayToSunday.text (bitDecl dowField.nbits)).map
        (fun bits => (List.range 7).filter (bitTest bits ·)) = some [0, 1] := by
  decide +kernel

/-! ## Malformed fields -/

/-- A field that is no list of elements is rejected, and its line gives no job, exactly if one of its
parts begins with no element. What follows an element is not looked at, nor is a comma behind the last. -/
theorem decodeElem_rejects_iff (k : TimeField) (str : List UInt8) :
    (¬ WellFormed k.spec str →
        decodeElem k.spec str (bitDecl k.spec.nbits) = none ∧
          ∀ (db : Passwd) (env : Env) (line : List UInt8), word k.position line = some str →
            decodeLine db env line = none) ↔
      (BeginsWell k.spec str → WellFormed k.spec str) := by
  obtain ⟨hf, hz⟩ := k.regular
  have haccept := decodeElem_isSome hf hz str (bitDecl k.spec.nbits)
  constructor
  · intro h hbegin
    by_contra hbad
    rw [← haccept, (h hbad).1] at hbegin
    cases hbegin
  · intro h hbad
    have hnone : decodeElem k.spec str (bitDecl k.spec.nbits) = none := by
      rw [← Option.not_isSome_iff_eq_none, haccept]
      exact fun hbegin => hbad (h hbegin)
    refine ⟨hnone, fun db env line hword => ?_⟩
    rw [Option.eq_none_iff_forall_not_mem]
    intro c hc
    obtain ⟨str', bits, hword', hd⟩ := decodeLine_fields hc k
    obtain rfl : str = str' := Option.some.inj (hword.symm.trans hword')
    rw [hnone] at hd
    cases hd

/-- `5x` in the minutes is taken for 5. -/
theorem decodeElem_takes_junk :
    ¬ WellFormed minutesField (ascii "5x") ∧ word 0 (ascii "5x * * * * 0 /bin/a") = some (ascii "5x") ∧
      (decodeLine nobody [] (ascii "5x * * * * 0 /bin/a")).map Centry.minutes =
        some [0x20, 0, 0, 0, 0, 0, 0, 0] := by
  have hrange : (ascii "5x").splitOn 44 = [ascii "5x"] ∧
      minutesField.range (ascii "5x") = some (5, 5, [120]) := by
    decide +kernel
  have hf : minutesField.Regular := TimeField.minutes.regular.1
  refine ⟨fun h => ?_, by decide +kernel⟩
  obtain ⟨x, y, rest, hr, hend⟩ :=
    (h _ (by rw [hrange.1]; exact List.mem_singleton_self _)).range_end hf (by decide)
  rw [hrange.2] at hr
  cases hr
  exact absurd (hend 120 rfl) (by decide)

end CameraFw.Crontab
