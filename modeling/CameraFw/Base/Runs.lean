import Mathlib

/-!
# Runs of equal values

A list written as runs, each a value and how often it comes. Runs that are not empty and differ from
their neighbours are the fewest that a list can be written with, and one pass over the list finds them.
-/

namespace CameraFw.Base

variable {α : Type}

def expand (rs : List (α × Nat)) : List α := rs.flatMap fun r => List.replicate r.2 r.1

structure Proper (rs : List (α × Nat)) : Prop where
  pos : ∀ r ∈ rs, 0 < r.2
  differ : rs.IsChain fun r s => r.1 ≠ s.1

@[simp]
theorem expand_nil : expand ([] : List (α × Nat)) = [] := rfl

@[simp]
theorem expand_cons (r : α × Nat) (rs : List (α × Nat)) :
    expand (r :: rs) = List.replicate r.2 r.1 ++ expand rs := rfl

@[simp]
theorem expand_append (rs ss : List (α × Nat)) : expand (rs ++ ss) = expand rs ++ expand ss :=
  List.flatMap_append

theorem length_expand (rs : List (α × Nat)) : (expand rs).length = (rs.map Prod.snd).sum := by
  induction rs with
  | nil => rfl
  | cons r rs ih => simp [ih]

theorem sum_expand (rs : List (Nat × Nat)) : (expand rs).sum = (rs.map fun r => r.2 * r.1).sum := by
  induction rs with
  | nil => rfl
  | cons r rs ih => simp [ih]

theorem Proper.nil : Proper ([] : List (α × Nat)) := ⟨by simp, .nil⟩

theorem Proper.tail {r : α × Nat} {rs : List (α × Nat)} (h : Proper (r :: rs)) : Proper rs :=
  ⟨fun s hs => h.pos s (List.mem_cons_of_mem _ hs), h.differ.tail⟩

/-- The length of the first run does not matter. -/
theorem Proper.resize {a : α} {n m : Nat} {rs : List (α × Nat)} (h : Proper ((a, n) :: rs)) (hm : 0 < m) :
    Proper ((a, m) :: rs) := by
  refine ⟨fun s hs => ?_, ?_⟩
  · rcases List.mem_cons.mp hs with rfl | hs
    · exact hm
    · exact h.pos s (List.mem_cons_of_mem _ hs)
  · cases rs with
    | nil => exact .singleton _
    | cons s rs =>
        obtain ⟨hne, hrest⟩ := List.isChain_cons_cons.mp h.differ
        exact List.isChain_cons_cons.mpr ⟨hne, hrest⟩

theorem Proper.concat {a : α} {n : Nat} {rs : List (α × Nat)} (h : Proper rs) (hn : 0 < n)
    (hne : ∀ r ∈ rs.getLast?, r.1 ≠ a) : Proper (rs ++ [(a, n)]) := by
  refine ⟨fun r hr => ?_, List.isChain_append.mpr ⟨h.differ, .singleton _, fun r hr s hs => ?_⟩⟩
  · rcases List.mem_append.mp hr with hr | hr
    · exact h.pos r hr
    · rw [List.mem_singleton.mp hr]
      exact hn
  · cases hs
    exact hne r hr

theorem Proper.of_concat {a : α} {n : Nat} {rs : List (α × Nat)} (h : Proper (rs ++ [(a, n)])) :
    Proper rs ∧ ∀ r ∈ rs.getLast?, r.1 ≠ a := by
  obtain ⟨hleft, _, hlast⟩ := List.isChain_append.mp h.differ
  exact ⟨⟨fun r hr => h.pos r (List.mem_append_left _ hr), hleft⟩, fun r hr => hlast r hr (a, n) rfl⟩

/-- The first value of the list is that of the first run. -/
theorem Proper.exists_cons {rs : List (α × Nat)} (h : Proper rs) {a : α} {l : List α}
    (hexpand : expand rs = a :: l) :
    ∃ n rest, rs = (a, n + 1) :: rest ∧ List.replicate n a ++ expand rest = l := by
  cases rs with
  | nil => cases hexpand
  | cons r rest =>
      obtain ⟨b, n⟩ := r
      obtain ⟨n, rfl⟩ := Nat.exists_eq_succ_of_ne_zero (h.pos (b, n) List.mem_cons_self).ne'
      rw [expand_cons, List.replicate_succ, List.cons_append, List.cons.injEq] at hexpand
      obtain ⟨rfl, hrest⟩ := hexpand
      exact ⟨n, rest, rfl, hrest⟩

theorem Proper.eq_nil {rs : List (α × Nat)} (h : Proper rs) (hexpand : expand rs = []) : rs = [] := by
  cases rs with
  | nil => rfl
  | cons r rest =>
      rw [expand_cons, List.append_eq_nil_iff, List.replicate_eq_nil_iff] at hexpand
      exact absurd hexpand.1 (h.pos r List.mem_cons_self).ne'

/-- Proper runs are the fewest, and the only ones of that number. -/
theorem Proper.length_le {rs bs : List (α × Nat)} (hrs : Proper rs) (h : expand rs = expand bs) :
    rs.length ≤ bs.length ∧ (rs.length = bs.length → rs = bs) := by
  induction bs generalizing rs with
  | nil =>
      obtain rfl := hrs.eq_nil h
      exact ⟨Nat.le_refl _, fun _ => rfl⟩
  | cons b bs ih =>
      obtain ⟨a, m⟩ := b
      cases m with
      | zero =>
          have := (ih hrs (by simpa using h)).1
          simp only [List.length_cons]
          omega
      | succ m =>
          simp only [expand_cons, List.replicate_succ, List.cons_append] at h
          obtain ⟨n, rest, rfl, htail⟩ := hrs.exists_cons h
          simp only [List.length_cons]
          rcases lt_trichotomy n m with hlt | rfl | hlt
          · -- the second run of `rs` would have to begin with the same value
            obtain ⟨k, rfl⟩ := Nat.exists_eq_add_of_lt hlt
            rw [Nat.add_assoc, List.replicate_add, List.append_assoc, List.append_cancel_left_eq,
              List.replicate_succ, List.cons_append] at htail
            obtain ⟨_, _, rfl, _⟩ := hrs.tail.exists_cons htail
            exact absurd rfl (List.isChain_cons_cons.mp hrs.differ).1
          · obtain ⟨hle, heq⟩ := ih hrs.tail (List.append_cancel_left htail)
            exact ⟨by omega, fun hlen => by rw [heq (by omega)]⟩
          · obtain ⟨k, rfl⟩ := Nat.exists_eq_add_of_lt hlt
            rw [Nat.add_assoc, List.replicate_add, List.append_assoc, List.append_cancel_left_eq] at htail
            have := (ih (hrs.resize (Nat.succ_pos k)) htail).1
            simp only [List.length_cons] at this
            omega

/-- Runs are as few as can be exactly if they are proper. -/
theorem Proper.length_eq_iff {rs bs : List (α × Nat)} (hrs : Proper rs) (h : expand rs = expand bs) :
    rs.length = bs.length ↔ Proper bs := by
  constructor
  · intro hlen
    rwa [(hrs.length_le h).2 hlen] at hrs
  · intro hbs
    exact Nat.le_antisymm (hrs.length_le h).1 (hbs.length_le h.symm).1

/-! ## One pass -/

section Pass

variable [DecidableEq α]

/-- One more value: it makes the last run longer, or begins a new one. -/
def push (rs : List (α × Nat)) (a : α) : List (α × Nat) :=
  match rs.getLast? with
  | none => [(a, 1)]
  | some (b, n) => if a = b then rs.dropLast ++ [(b, n + 1)] else rs ++ [(a, 1)]

@[simp]
theorem push_concat (rs : List (α × Nat)) (b : α) (n : Nat) (a : α) :
    push (rs ++ [(b, n)]) a = if a = b then rs ++ [(b, n + 1)] else rs ++ [(b, n)] ++ [(a, 1)] := by
  simp [push]

theorem expand_push (rs : List (α × Nat)) (a : α) : expand (push rs a) = expand rs ++ [a] := by
  rcases List.eq_nil_or_concat' rs with rfl | ⟨rs, ⟨b, n⟩, rfl⟩
  · rfl
  · rw [push_concat]
    split
    · subst a
      simp [List.replicate_succ']
    · simp

theorem length_le_push (rs : List (α × Nat)) (a : α) : rs.length ≤ (push rs a).length := by
  rcases List.eq_nil_or_concat' rs with rfl | ⟨rs, ⟨b, n⟩, rfl⟩
  · simp
  · rw [push_concat]
    split <;> simp

theorem Proper.push {rs : List (α × Nat)} (h : Proper rs) (a : α) : Proper (push rs a) := by
  rcases List.eq_nil_or_concat' rs with rfl | ⟨rs, ⟨b, n⟩, rfl⟩
  · exact Proper.nil.concat Nat.one_pos (by simp)
  · obtain ⟨hleft, hlast⟩ := h.of_concat
    rw [push_concat]
    split
    · exact hleft.concat (Nat.succ_pos n) hlast
    · rename_i hne
      refine h.concat Nat.one_pos fun r hr => ?_
      rw [List.getLast?_concat] at hr
      cases hr
      exact Ne.symm hne

theorem expand_foldl_push (l : List α) (rs : List (α × Nat)) : expand (l.foldl push rs) = expand rs ++ l := by
  induction l generalizing rs with
  | nil => simp
  | cons a l ih => rw [List.foldl_cons, ih, expand_push, List.append_assoc, List.singleton_append]

theorem length_le_foldl_push (l : List α) (rs : List (α × Nat)) : rs.length ≤ (l.foldl push rs).length := by
  induction l generalizing rs with
  | nil => exact Nat.le_refl _
  | cons a l ih => exact (length_le_push rs a).trans (ih _)

theorem Proper.foldl_push {rs : List (α × Nat)} (h : Proper rs) (l : List α) :
    Proper (l.foldl Base.push rs) := by
  induction l generalizing rs with
  | nil => exact h
  | cons a l ih => exact ih (h.push a)

end Pass

end CameraFw.Base
