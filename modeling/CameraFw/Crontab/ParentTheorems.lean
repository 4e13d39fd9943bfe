import CameraFw.Crontab.Parent

/-!
# What a job gets of its command
-/

namespace CameraFw.Crontab

open CameraFw.Base

/-! ## The translation -/

theorem length_translate_le (s : List UInt8) : (translate s).length ≤ s.length := by
  fun_induction translate s with
  | case1 => simp
  | case2 c => simp
  | case3 s ih => simp only [List.length_cons]; omega
  | case4 d s hd ih => simpa using ih
  | case5 c d s hc ih => simpa using ih

theorem newline_mem_translate {s : List UInt8} (h : 10 ∈ s) : 10 ∈ translate s := by
  fun_induction translate s with
  | case1 => exact h
  | case2 c => simp_all
  | case3 s ih => exact List.mem_cons_of_mem _ (ih (by simpa using h))
  | case4 d s hd ih => exact List.mem_cons_self
  | case5 c d s hc ih =>
      rcases List.mem_cons.mp h with rfl | h
      · exact List.mem_cons_self
      · exact List.mem_cons_of_mem _ (ih h)

theorem zero_notMem_translate {s : List UInt8} (h : 0 ∉ s) : 0 ∉ translate s := by
  fun_induction translate s with
  | case1 => exact h
  | case2 c =>
      rw [List.mem_singleton] at h ⊢
      split_ifs
      · decide
      · exact h
  | case3 s ih =>
      simp only [List.mem_cons, not_or] at h ⊢
      exact ⟨h.1, ih h.2.2⟩
  | case4 d s hd ih =>
      rw [List.mem_cons, not_or] at h ⊢
      exact ⟨by decide, ih h.2⟩
  | case5 c d s hc ih =>
      rw [List.mem_cons, not_or] at h ⊢
      exact ⟨h.1, ih h.2⟩

/-- The translation is shorter exactly if there is a `%%`. -/
theorem length_translate_eq_iff (s : List UInt8) : (translate s).length = s.length ↔ ¬ [37, 37] <:+: s := by
  fun_induction translate s with
  | case1 => simp
  | case2 c => simp [List.infix_cons_iff]
  | case3 s ih =>
      have hlen := length_translate_le s
      have hpair : [37, 37] <:+: (37 : UInt8) :: 37 :: s := (List.prefix_append [37, 37] s).isInfix
      simp only [List.length_cons, hpair, not_true_eq_false, iff_false]
      omega
  | case4 d s hd ih =>
      have hcons : [37, 37] <:+: 37 :: d :: s ↔ [37, 37] <:+: d :: s := by
        rw [List.infix_cons_iff]
        simp [Ne.symm hd]
      rw [hcons, ← ih, List.length_cons, List.length_cons, Nat.add_right_cancel_iff]
  | case5 c d s hc ih =>
      have hcons : [37, 37] <:+: c :: d :: s ↔ [37, 37] <:+: d :: s := by
        rw [List.infix_cons_iff]
        simp [Ne.symm hc]
      rw [hcons, ← ih, List.length_cons, List.length_cons, Nat.add_right_cancel_iff]

/-! ## The buffer -/

section Buffer

variable (d x r : List UInt8) (c : UInt8)

theorem getD_gap (k : Nat) : (d ++ (x ++ r)).getD (d.length + x.length + k) 0 = r.getD k 0 := by
  rw [Nat.add_assoc, List.getD_append_right _ _ _ _ (by omega), Nat.add_sub_cancel_left,
    List.getD_append_right _ _ _ _ (by omega), Nat.add_sub_cancel_left]

theorem set_gap (v : UInt8) : (d ++ (x ++ c :: r)).set d.length v = (d ++ [v]) ++ ((x ++ [c]).tail ++ r) := by
  rw [List.set_append_right _ _ le_rfl, Nat.sub_self]
  cases x <;> simp

theorem drop_gap (n : Nat) : (x ++ c :: r).drop (n + 1) = ((x ++ [c]).tail ++ r).drop n := by
  cases x <;> simp

/-- A round writes one character behind `d`, and the gap moves on by one. -/
theorem manglePass_one {c} (hc : c ≠ 0) (hr : c = 37 → r.getD 0 0 ≠ 37) :
    manglePass ⟨d ++ (x ++ c :: r), d.length, d.length + x.length⟩ =
      .again ⟨(d ++ [if c = 37 then 10 else c]) ++ ((x ++ [c]).tail ++ r), d.length + 1,
        d.length + x.length + 1⟩ := by
  have hread : (d ++ (x ++ c :: r)).getD (d.length + x.length) 0 = c := getD_gap d x (c :: r) 0
  have hnext : (d ++ (x ++ c :: r)).getD (d.length + x.length + 1) 0 = r.getD 0 0 := by
    rw [getD_gap]; rfl
  simp only [manglePass, hread, hnext, if_neg hc, set_gap]
  split_ifs with h37
  · exact absurd ‹_› (hr h37)
  · rfl
  · rfl

theorem manglePass_two :
    manglePass ⟨d ++ (x ++ 37 :: 37 :: r), d.length, d.length + x.length⟩ =
      .again ⟨(d ++ [37]) ++ (((x ++ [37]).tail ++ [37]) ++ r), d.length + 1, d.length + x.length + 2⟩ := by
  have hread : (d ++ (x ++ 37 :: 37 :: r)).getD (d.length + x.length) 0 = 37 := getD_gap d x (37 :: 37 :: r) 0
  have hnext : (d ++ (x ++ 37 :: 37 :: r)).getD (d.length + x.length + 1) 0 = 37 :=
    getD_gap d x (37 :: 37 :: r) 1
  simp only [manglePass, hread, hnext, set_gap, List.append_assoc]
  rfl

end Buffer

theorem translate_one {c : UInt8} {r : List UInt8} (hr : c = 37 → r.getD 0 0 ≠ 37) :
    translate (c :: r) = (if c = 37 then 10 else c) :: translate r := by
  cases r with
  | nil => rfl
  | cons e r =>
      rw [translate]
      split_ifs with hc he
      · exact absurd he (hr hc)
      · rfl
      · rfl

/-- What the loop leaves, when it has written `d` and `x` lies between there and the text `t` that it
has not read: the translation of `t`, and then the bytes that were there. -/
def Mangled (t : List UInt8) : Prop :=
  ∀ (d x : List UInt8) {fuel i : Nat}, t.length < fuel →
    whileLoop (fun _ : Unit => manglePass) (fun _ => ()) fuel i
        ⟨d ++ (x ++ (t ++ [0])), d.length, d.length + x.length⟩ =
      some (d ++ (translate t ++ (x ++ (t ++ [0])).drop (translate t).length))

theorem mangled_nil : Mangled [] := by
  intro d x fuel i hfuel
  obtain ⟨fuel, rfl⟩ := Nat.exists_eq_succ_of_ne_zero (by omega : fuel ≠ 0)
  simp [whileLoop, manglePass, translate]

theorem Mangled.one {c : UInt8} {r : List UInt8} (h : Mangled r) (hc : c ≠ 0)
    (hr : c = 37 → r.getD 0 0 ≠ 37) :
    Mangled (c :: r) := by
  intro d x fuel i hfuel
  obtain ⟨fuel, rfl⟩ := Nat.exists_eq_succ_of_ne_zero (by omega : fuel ≠ 0)
  have hr' : c = 37 → (r ++ [0]).getD 0 0 ≠ 37 := by
    intro h37
    cases r with
    | nil => decide
    | cons e r => exact hr h37
  have hp : (d ++ [if c = 37 then 10 else c]).length = d.length + 1 := by simp
  have hq : d.length + 1 + (x ++ [c]).tail.length = d.length + x.length + 1 := by simp; omega
  have hih := @h (d ++ [if c = 37 then 10 else c]) (x ++ [c]).tail fuel (i + 1) (by simpa using hfuel)
  rw [hp, hq] at hih
  simp only [whileLoop, List.cons_append, manglePass_one d x (r ++ [0]) hc hr']
  rw [hih, translate_one hr, List.length_cons, drop_gap]
  simp

theorem Mangled.two {s : List UInt8} (h : Mangled s) : Mangled (37 :: 37 :: s) := by
  intro d x fuel i hfuel
  obtain ⟨fuel, rfl⟩ := Nat.exists_eq_succ_of_ne_zero (by omega : fuel ≠ 0)
  have hp : (d ++ [(37 : UInt8)]).length = d.length + 1 := by simp
  have hq : d.length + 1 + ((x ++ [(37 : UInt8)]).tail ++ [37]).length = d.length + x.length + 2 := by
    simp; omega
  have hih := @h (d ++ [37]) ((x ++ [37]).tail ++ [37]) fuel (i + 1)
    (by simp only [List.length_cons] at hfuel; omega)
  rw [hp, hq] at hih
  simp only [whileLoop, List.cons_append, manglePass_two d x (s ++ [0])]
  have htwo : translate (37 :: 37 :: s) = 37 :: translate s := rfl
  rw [hih, htwo, List.length_cons, drop_gap]
  simp

theorem mangled {t : List UInt8} (h0 : 0 ∉ t) : Mangled t := by
  fun_induction translate t with
  | case1 => exact mangled_nil
  | case2 c => exact mangled_nil.one (fun h => h0 (by simp [h])) (by simp)
  | case3 s ih => exact (ih (by simpa using h0)).two
  | case4 e s he ih =>
      rw [List.mem_cons, not_or] at h0
      exact (ih h0.2).one (by decide) (fun _ => he)
  | case5 c e s hc ih =>
      rw [List.mem_cons, not_or] at h0
      exact (ih h0.2).one (Ne.symm h0.1) (fun h => absurd h hc)

theorem mangle_eq {s : List UInt8} (h0 : 0 ∉ s) :
    mangle s = some (translate s ++ (s ++ [0]).drop (translate s).length) :=
  mangled h0 [] [] (Nat.lt_succ_self _)

/-- What `parseargs` finds in the buffer: the translation, and as many bytes from the end of the command
as the translation is shorter. -/
theorem commandLine_eq {s : List UInt8} (h0 : 0 ∉ s) :
    commandLine s = some (cutLine (translate s ++ s.drop (translate s).length)) := by
  have hdrop : (s ++ [0]).drop (translate s).length = s.drop (translate s).length ++ [0] :=
    List.drop_append_of_le_length (length_translate_le s)
  have hrest : 0 ∉ s.drop (translate s).length := fun h => h0 (List.mem_of_mem_drop h)
  rw [commandLine, mangle_eq h0, Option.map_some, hdrop, cstr_append _ (zero_notMem_translate h0),
    cstr_append _ hrest]
  simp [cstr]

theorem cutLine_line {a : List UInt8} (b : List UInt8) (h : 10 ∉ a) :
    cutLine (a ++ 10 :: b) = (a, some b) := by
  have htake : (a ++ 10 :: b).takeWhile (· ≠ 10) = a := by rw [takeWhile_ne_append _ h]; simp
  have hdrop : (a ++ 10 :: b).dropWhile (· ≠ 10) = 10 :: b := by
    have happend := List.takeWhile_append_dropWhile (p := (· ≠ (10 : UInt8))) (l := a ++ 10 :: b)
    rw [htake] at happend
    exact List.append_cancel_left happend
  rw [cutLine, if_pos (by simp), htake, hdrop, List.tail_cons]

theorem cutLine_append_iff {text left : List UInt8} (h : 10 ∈ left → 10 ∈ text) :
    cutLine (text ++ left) = cutLine text ↔ left = [] := by
  constructor
  · intro hcut
    by_cases hnl : 10 ∈ text
    · obtain ⟨a, b, rfl, ha⟩ := List.eq_append_cons_of_mem hnl
      rw [List.append_assoc, List.cons_append, cutLine_line _ ha, cutLine_line _ ha] at hcut
      simpa using hcut
    · have hnl' : 10 ∉ text ++ left := by
        rw [List.mem_append]
        exact fun hm => hm.elim hnl fun hl => hnl (h hl)
      simpa [cutLine, hnl, hnl'] using hcut
  · rintro rfl
    rw [List.append_nil]

/-! ## Words -/

theorem strtok_rest {delim s t rest : List UInt8} (h : strtok delim s = some (t, rest)) :
    rest.length < s.length := by
  unfold strtok at h
  have hle := (List.dropWhile_suffix (l := s) (· ∈ delim)).length_le
  have hhead := List.head?_dropWhile_not (· ∈ delim) s
  cases hd : s.dropWhile (· ∈ delim) with
  | nil => rw [hd] at h; cases h
  | cons c s' =>
      rw [hd] at h hle hhead
      cases h
      have hc : c ∉ delim := by simpa using hhead
      have hle' := (List.dropWhile_suffix (l := s') (· ∉ delim)).length_le
      rw [List.dropWhile_cons_of_pos (by simpa using hc), List.length_tail]
      simp only [List.length_cons] at hle
      omega

theorem wordsPass_rest {s t : List UInt8 × Words} (h : wordsPass s = .again t) : t.1.length < s.1.length := by
  obtain ⟨rest, w⟩ := s
  simp only [wordsPass] at h
  split at h
  · cases hp : strtok blanks rest with
    | none => rw [hp] at h; cases h
    | some r =>
        obtain ⟨p, rest'⟩ := r
        have hlt := strtok_rest hp
        simp only [hp] at h
        split_ifs at h
        · -- a lone `>`: the file is the next word
          cases hn : strtok blanks rest' with
          | none => rw [hn] at h; cases h
          | some r =>
              have hlt' := strtok_rest hn
              simp only [hn] at h
              cases h
              exact hlt'.trans hlt
        · cases h; exact hlt
        · cases h; exact hlt
  · cases h

theorem parseargs_isSome {s : List UInt8} (h0 : 0 ∉ s) : (parseargs s).isSome := by
  have hwords : ∀ command, (buildWords command).isSome := by
    intro command
    unfold buildWords
    split
    · rfl
    · exact whileLoop_isSome (fun s => s.1.length) (fun _ _ _ h => wordsPass_rest h) _ _ _
        (Nat.lt_succ_self _)
  rw [parseargs, commandLine_eq h0]
  obtain ⟨w, hw⟩ := Option.isSome_iff_exists.mp
    (hwords (cutLine (translate s ++ s.drop (translate s).length)).1)
  simp [hw]

/-! ## Standard input -/

theorem sendstdin_from {stdinstr : List UInt8} {write : Nat → Option Nat}
    (h : ∀ k, ∃ n, write k = some (n + 1)) :
    ∀ {fuel i : Nat} {sent : List UInt8}, sent <+: stdinstr → stdinstr.length < fuel + sent.length →
      whileLoop (sendPass stdinstr) write fuel i sent = some stdinstr := by
  intro fuel
  induction fuel with
  | zero => intro i sent hsent hfuel; have := hsent.length_le; omega
  | succ fuel ih =>
      intro i sent hsent hfuel
      obtain ⟨n, hn⟩ := h i
      obtain ⟨left, rfl⟩ := hsent
      by_cases hdone : left = []
      · subst hdone
        simp [whileLoop, sendPass]
      · have hpos := List.length_pos_of_ne_nil hdone
        have hlt : sent.length < (sent ++ left).length := by rw [List.length_append]; omega
        have hpass : sendPass (sent ++ left) (write i) sent = .again (sent ++ left.take (n + 1)) := by
          simp only [sendPass, if_pos hlt, hn, List.drop_left]
        simp only [whileLoop, hpass]
        refine ih ((List.prefix_append_right_inj sent).mpr (List.take_prefix _ _)) ?_
        simp only [List.length_append, List.length_take] at hfuel ⊢
        omega

/-- If no `write` fails, the whole text is sent, with a newline at its end. -/
theorem sendstdin_sends {stdinstr : List UInt8} {write : Nat → Option Nat}
    (h : ∀ k, ∃ n, write k = some (n + 1)) :
    sendstdin stdinstr write (stdinstr.length + 1) =
      some (if stdinstr.getLastD 0 ≠ 10 then stdinstr ++ [10] else stdinstr) := by
  rw [sendstdin, sendstdin_from h List.nil_prefix (by simp), Option.map_some]

/-- The command line and the standard input are those of the translated command exactly if it has no
`%%`. What is sent is that standard input, with a newline at its end, as long as no `write` fails. -/
theorem commandLine_translate_iff {s : List UInt8} (h0 : 0 ∉ s) :
    (commandLine s = some (cutLine (translate s)) ↔ ¬ [37, 37] <:+: s) ∧
      ∀ (stdinstr : List UInt8) (write : Nat → Option Nat), (∀ k, ∃ n, write k = some (n + 1)) →
        sendstdin stdinstr write (stdinstr.length + 1) =
          some (if stdinstr.getLastD 0 ≠ 10 then stdinstr ++ [10] else stdinstr) := by
  refine ⟨?_, fun _ _ => sendstdin_sends⟩
  have hleft : 10 ∈ s.drop (translate s).length → 10 ∈ translate s := fun h =>
    newline_mem_translate (List.mem_of_mem_drop h)
  have hlen := length_translate_le s
  rw [commandLine_eq h0, Option.some.injEq, cutLine_append_iff hleft, ← length_translate_eq_iff,
    List.drop_eq_nil_iff]
  omega

def mailCommand : List UInt8 := ascii "mail root%Subject%text"

theorem commandLine_translate_mail :
    commandLine mailCommand = some (ascii "mail root", some (ascii "Subject\ntext")) := by
  have hmail : 0 ∉ mailCommand ∧ ¬ [37, 37] <:+: mailCommand ∧
      cutLine (translate mailCommand) = (ascii "mail root", some (ascii "Subject\ntext")) := by
    decide +kernel
  rw [(commandLine_translate_iff hmail.1).1.mpr hmail.2.1, hmail.2.2]

/-- The last character of the command is left over behind its translation. -/
theorem commandLine_leftover :
    commandLine (ascii "echo 50%% done") = some (ascii "echo 50% donee", none) ∧
      cutLine (translate (ascii "echo 50%% done")) = (ascii "echo 50% done", none) := by
  decide +kernel

end CameraFw.Crontab
