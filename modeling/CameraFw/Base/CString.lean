import Mathlib

/-!
# C strings

A C string in memory is the bytes before the first NUL.
-/

namespace CameraFw.Base

def cstr (m : List UInt8) : List UInt8 := m.takeWhile (· ≠ 0)

def strstr (pat : List UInt8) : List UInt8 → Option Nat
  | [] => if pat = [] then some 0 else none
  | b :: s => if pat.isPrefixOf (b :: s) then some 0 else (strstr pat s).map (· + 1)

theorem strstr_bound {pat s : List UInt8} {i} (h : strstr pat s = some i) : i + pat.length ≤ s.length := by
  induction s generalizing i with
  | nil =>
      simp only [strstr] at h
      split at h
      · rename_i hp; cases h; simp [hp]
      · cases h
  | cons b s ih =>
      simp only [strstr] at h
      split at h
      · rename_i hp
        cases h
        have := (List.isPrefixOf_iff_prefix.mp hp).length_le
        omega
      · obtain ⟨j, hj, rfl⟩ := Option.map_eq_some_iff.mp h
        have := ih hj
        simp only [List.length_cons]; omega

theorem strstr_append {pat s : List UInt8} (t : List UInt8) {i} (h : strstr pat s = some i) :
    strstr pat (s ++ t) = some i := by
  induction s generalizing i with
  | nil =>
      simp only [strstr] at h
      split at h
      · rename_i hp
        subst hp
        cases h
        cases t <;> simp [strstr]
      · cases h
  | cons b s ih =>
      have hb := strstr_bound h
      simp only [strstr] at h
      simp only [List.cons_append, strstr]
      split at h
      · rename_i hp
        cases h
        have hp' : pat <+: b :: (s ++ t) :=
          (List.isPrefixOf_iff_prefix.mp hp).trans (List.prefix_append (b :: s) t)
        rw [if_pos (List.isPrefixOf_iff_prefix.mpr hp')]
      · rename_i hp
        obtain ⟨j, hj, rfl⟩ := Option.map_eq_some_iff.mp h
        -- `pat` fits into `s`, so it cannot begin here and end behind `s`
        have hlen := strstr_bound hj
        have hnp : ¬ pat.isPrefixOf (b :: (s ++ t)) = true := by
          intro hq
          refine hp (List.isPrefixOf_iff_prefix.mpr ?_)
          exact List.prefix_of_prefix_length_le (List.isPrefixOf_iff_prefix.mp hq)
            (List.prefix_append (b :: s) t) (by simp only [List.length_cons]; omega)
        rw [if_neg hnp, ih hj]; rfl

theorem takeWhile_ne_append {c : UInt8} {s : List UInt8} (t : List UInt8) (h : c ∉ s) :
    (s ++ t).takeWhile (· ≠ c) = s ++ t.takeWhile (· ≠ c) := by
  refine List.takeWhile_append_of_pos ?_
  intro b hb
  have : b ≠ c := fun e => h (e ▸ hb)
  simpa using this

theorem cstr_append {s : List UInt8} (t : List UInt8) (h : 0 ∉ s) : cstr (s ++ t) = s ++ cstr t :=
  takeWhile_ne_append t h

theorem strstr_of_append {pat s t : List UInt8} {i} (h : strstr pat (s ++ t) = some i)
    (hi : i + pat.length ≤ s.length) : strstr pat s = some i := by
  induction s generalizing i with
  | nil =>
      have hp : pat = [] := List.eq_nil_of_length_eq_zero (by simp only [List.length_nil] at hi; omega)
      have hi0 : i = 0 := by simp only [List.length_nil] at hi; omega
      simp [strstr, hp, hi0]
  | cons b s ih =>
      simp only [List.cons_append, strstr] at h ⊢
      split at h
      · rename_i hp
        cases h
        have hp' : pat <+: b :: s := List.prefix_of_prefix_length_le (List.isPrefixOf_iff_prefix.mp hp)
          (List.prefix_append (b :: s) t) (by omega)
        rw [if_pos (List.isPrefixOf_iff_prefix.mpr hp')]
      · rename_i hp
        obtain ⟨j, hj, rfl⟩ := Option.map_eq_some_iff.mp h
        have hnp : ¬ pat.isPrefixOf (b :: s) = true := fun hq =>
          hp (List.isPrefixOf_iff_prefix.mpr ((List.isPrefixOf_iff_prefix.mp hq).trans
            (List.prefix_append (b :: s) t)))
        rw [if_neg hnp, ih hj (by simp only [List.length_cons] at hi; omega)]; rfl

theorem cstr_cons (b : UInt8) (s : List UInt8) : cstr (b :: s) = if b = 0 then [] else b :: cstr s := by
  by_cases hb : b = 0 <;> simp [cstr, hb]

theorem zero_notMem_cstr (s : List UInt8) : 0 ∉ cstr s := by
  intro h
  have := List.mem_takeWhile_imp h
  simp at this

theorem cstr_append_of_mem {s : List UInt8} (t : List UInt8) (h : 0 ∈ s) : cstr (s ++ t) = cstr s := by
  induction s with
  | nil => simp at h
  | cons b s ih =>
      rw [List.cons_append, cstr_cons, cstr_cons]
      by_cases hb : b = 0
      · rw [if_pos hb, if_pos hb]
      · have hs : 0 ∈ s := (List.mem_cons.mp h).resolve_left (Ne.symm hb)
        rw [if_neg hb, if_neg hb, ih hs]

theorem cstr_eq_self {s : List UInt8} (h : 0 ∉ s) : cstr s = s := by simpa [cstr] using cstr_append [] h

theorem take_cstr_append (s t : List UInt8) : (cstr (s ++ t)).take s.length = cstr s := by
  induction s with
  | nil => rfl
  | cons b s ih => by_cases hb : b = 0 <;> simp [cstr_cons, hb, ih]

theorem cstr_drop {m : List UInt8} {k} (h : k ≤ (cstr m).length) : cstr (m.drop k) = (cstr m).drop k := by
  induction m generalizing k with
  | nil => simp [cstr]
  | cons b m ih =>
      cases k with
      | zero => rfl
      | succ k =>
          rw [cstr_cons] at h ⊢
          split at h
          · simp at h
          · rename_i hb
            simpa [hb] using ih (by simpa using h)

/-! ## Behind the n-th of a character -/

def afterNth (c : UInt8) : Nat → List UInt8 → Option (List UInt8)
  | 0, s => some s
  | _ + 1, [] => none
  | n + 1, b :: s => if b = c then afterNth c n s else afterNth c (n + 1) s

@[simp] theorem afterNth_zero (c : UInt8) (s : List UInt8) : afterNth c 0 s = some s := by cases s <;> rfl

theorem afterNth_append {c : UInt8} {n s t} (x : List UInt8) (h : afterNth c n s = some t) :
    afterNth c n (s ++ x) = some (t ++ x) := by
  induction s generalizing n with
  | nil =>
      cases n with
      | zero => simp only [afterNth_zero, Option.some.injEq] at h; simp [← h]
      | succ n => cases h
  | cons b s ih =>
      cases n with
      | zero => simp only [afterNth_zero, Option.some.injEq] at h; simp [← h]
      | succ n =>
          simp only [afterNth, List.cons_append] at h ⊢
          split at h
          · rename_i hb; rw [if_pos hb, ih h]
          · rename_i hb; rw [if_neg hb, ih h]

theorem afterNth_suffix {c : UInt8} {n s t} (h : afterNth c n s = some t) : t <:+ s := by
  induction s generalizing n with
  | nil =>
      cases n with
      | zero => simp only [afterNth_zero, Option.some.injEq] at h; simp [← h]
      | succ n => cases h
  | cons b s ih =>
      cases n with
      | zero => simp only [afterNth_zero, Option.some.injEq] at h; simp [← h]
      | succ n =>
          simp only [afterNth] at h
          split at h <;> exact (ih h).trans (List.suffix_cons b s)

theorem afterNth_isSome {c : UInt8} {n s} : (afterNth c n s).isSome ↔ n ≤ s.count c := by
  induction s generalizing n with
  | nil => cases n <;> simp [afterNth]
  | cons b s ih =>
      cases n with
      | zero => simp
      | succ n =>
          simp only [afterNth, List.count_cons]
          by_cases hb : b = c
          · simp [hb, ih]
          · simp [hb, ih]

/-- What stands before it matters only through how many of the character it has. -/
theorem afterNth_append_left {c : UInt8} {n a} (b : List UInt8) (h : a.count c < n) :
    afterNth c n (a ++ b) = afterNth c (n - a.count c) b := by
  induction a generalizing n with
  | nil => rfl
  | cons x a ih =>
      obtain ⟨n, rfl⟩ : ∃ k, n = k + 1 := ⟨n - 1, by omega⟩
      simp only [List.cons_append, afterNth, List.count_cons] at h ⊢
      by_cases hx : x = c
      · simp only [hx, if_true, beq_self_eq_true] at h ⊢
        rw [ih (by omega), show n + 1 - (a.count c + 1) = n - a.count c by omega]
      · simp only [hx, if_false, beq_iff_eq, Nat.add_zero] at h ⊢
        exact ih h

theorem afterNth_succ {c : UInt8} {n s} :
    afterNth c (n + 1) s = match s.findIdx? (· = c) with
      | none => none
      | some i => afterNth c n (s.drop (i + 1)) := by
  induction s with
  | nil => rfl
  | cons b s ih =>
      simp only [afterNth, List.findIdx?_cons]
      by_cases hb : b = c
      · simp [hb]
      · simp only [hb, if_false, decide_false, Bool.false_eq_true, ih]
        cases s.findIdx? (· = c) <;> simp

/-! ## Characters, numbers and tokens -/

def ascii (s : String) : List UInt8 := s.toList.map fun c => UInt8.ofNat c.toNat

def isspace (c : UInt8) : Bool := c = 32 ∨ (9 ≤ c ∧ c ≤ 13)

def isdigit (c : UInt8) : Bool := 48 ≤ c ∧ c ≤ 57

def tolower (c : UInt8) : UInt8 := if 65 ≤ c ∧ c ≤ 90 then c + 32 else c

def trimStart (s : List UInt8) : List UInt8 := s.dropWhile isspace
def trimEnd (s : List UInt8) : List UInt8 := s.rdropWhile isspace

/-- `strtol` to base 10 at a digit: the number, at most `LONG_MAX` of a 32-bit `long`, and what follows it. -/
def strtol (s : List UInt8) : Nat × List UInt8 :=
  (min 2147483647 ((s.takeWhile isdigit).foldl (fun n c => 10 * n + (c.toNat - 48)) 0), s.dropWhile isdigit)

def atoi (s : List UInt8) : Nat := (strtol s).1

def itoa (n : Nat) : List UInt8 := (Nat.toDigits 10 n).map fun c => UInt8.ofNat c.toNat

/-- `strtok`: the first token, and what is left behind the delimiter that ends it. -/
def strtok (delim s : List UInt8) : Option (List UInt8 × List UInt8) :=
  match s.dropWhile (· ∈ delim) with
  | [] => none
  | c :: s => some ((c :: s).takeWhile (· ∉ delim), ((c :: s).dropWhile (· ∉ delim)).tail)

end CameraFw.Base
