import Mathlib

/-!
# Rings

A ring of `n` cells: values are stored at the head and taken from the tail. It is empty when the two
meet, so that it never holds more than `n - 1` values.
-/

namespace CameraFw.Base

structure Ring (α : Type) (n : Nat) where
  buf : Nat → α
  head : Nat
  tail : Nat
  head_lt : head < n
  tail_lt : tail < n

namespace Ring

variable {α : Type} {n : Nat}

def count (r : Ring α n) : Nat := (r.head + n - r.tail) % n

/-- The values from the tail up to the head. -/
def contents (r : Ring α n) : List α := (List.range r.count).map fun i => r.buf ((r.tail + i) % n)

/-- The free cells. -/
def space (n head tail : Nat) : Nat := (tail + n - (head + 1)) % n

/-- The free cells up to the end of the buffer. -/
def spaceToEnd (n head tail : Nat) : Nat :=
  let stop := n - 1 - head
  let m := (stop + tail) % n
  if m ≤ stop then m else stop + 1

/-- Store `xs` from the head on, and move the head behind them. -/
def copyIn (r : Ring α n) (xs : List α) : Ring α n :=
  { r with
    buf := fun k => if r.head ≤ k then xs[k - r.head]?.getD (r.buf k) else r.buf k
    head := (r.head + xs.length) % n
    head_lt := Nat.mod_lt _ (Nat.zero_lt_of_lt r.head_lt) }

/-- Move the tail behind the cell `t`. -/
def advance (r : Ring α n) (t : Nat) : Ring α n :=
  { r with tail := (t + 1) % n, tail_lt := Nat.mod_lt _ (Nat.zero_lt_of_lt r.tail_lt) }

/-! ## Without the remainder -/

theorem mod_eq_ite {a : Nat} (h : a < 2 * n) : a % n = if a < n then a else a - n := by
  split_ifs with ha
  · exact Nat.mod_eq_of_lt ha
  · rw [Nat.mod_eq_sub_mod (by omega), Nat.mod_eq_of_lt (by omega)]

theorem distance_eq {head tail : Nat} (hh : head < n) (ht : tail < n) :
    (head + n - tail) % n = if tail ≤ head then head - tail else head + n - tail := by
  rw [mod_eq_ite (by omega)]
  split_ifs <;> omega

theorem count_eq (r : Ring α n) :
    r.count = if r.tail ≤ r.head then r.head - r.tail else r.head + n - r.tail :=
  distance_eq r.head_lt r.tail_lt

theorem count_lt (r : Ring α n) : r.count < n := Nat.mod_lt _ (Nat.zero_lt_of_lt r.head_lt)

theorem count_eq_zero (r : Ring α n) : r.count = 0 ↔ r.head = r.tail := by
  have := r.head_lt
  have := r.tail_lt
  rw [count_eq]
  split_ifs <;> omega

theorem spaceToEnd_le {head tail : Nat} (hh : head < n) (ht : tail < n) :
    spaceToEnd n head tail ≤ n - head ∧
      spaceToEnd n head tail + (if tail ≤ head then head - tail else head + n - tail) < n := by
  unfold spaceToEnd
  dsimp only
  rw [mod_eq_ite (by omega)]
  split_ifs <;> omega

theorem spaceToEnd_pos {head tail : Nat} (hh : head < n) (ht : tail < n) (h : space n head tail ≠ 0) :
    0 < spaceToEnd n head tail := by
  unfold space at h
  unfold spaceToEnd
  dsimp only
  rw [mod_eq_ite (by omega)] at h ⊢
  split_ifs at h ⊢ <;> omega

/-! ## The contents -/

@[simp]
theorem length_contents (r : Ring α n) : r.contents.length = r.count := by
  simp [contents]

theorem contents_eq_nil (r : Ring α n) : r.contents = [] ↔ r.head = r.tail := by
  rw [← List.length_eq_zero_iff, length_contents, count_eq_zero]

theorem getElem?_contents (r : Ring α n) {i : Nat} (h : i < r.count) :
    r.contents[i]? = some (r.buf ((r.tail + i) % n)) := by
  simp [contents, h]

theorem head?_contents (r : Ring α n) (h : r.head ≠ r.tail) : r.contents[0]? = some (r.buf r.tail) := by
  have hpos : 0 < r.count := Nat.pos_of_ne_zero (mt r.count_eq_zero.mp h)
  rw [r.getElem?_contents hpos, Nat.add_zero, Nat.mod_eq_of_lt r.tail_lt]

/-- What fits in front of the end of the buffer is appended. -/
theorem contents_copyIn (r : Ring α n) {xs : List α} (h : xs.length ≤ spaceToEnd n r.head r.tail) :
    (r.copyIn xs).contents = r.contents ++ xs := by
  have hh := r.head_lt
  have ht := r.tail_lt
  obtain ⟨hend, hfree⟩ := spaceToEnd_le hh ht
  have hcount := r.count_eq
  have hcount' : (r.copyIn xs).count = r.count + xs.length := by
    show ((r.head + xs.length) % n + n - r.tail) % n = _
    rw [distance_eq (Nat.mod_lt _ (by omega)) ht, mod_eq_ite (by omega), hcount]
    split_ifs at hfree ⊢ <;> omega
  refine List.ext_getElem? fun i => ?_
  by_cases hi : i < r.count
  · rw [List.getElem?_append_left (by simpa using hi), getElem?_contents _ (by omega), getElem?_contents _ hi]
    -- an old value stands either below the head or behind all that is stored
    have hcell : ¬(r.head ≤ (r.tail + i) % n ∧ (r.tail + i) % n < r.head + xs.length) := by
      rw [mod_eq_ite (by omega)]
      split_ifs at hcount hfree ⊢ <;> omega
    simp only [copyIn]
    split_ifs with hle
    · rw [List.getElem?_eq_none (by omega), Option.getD_none]
    · rfl
  · rw [List.getElem?_append_right (by simpa using hi), length_contents]
    by_cases hi' : i < r.count + xs.length
    · have hcell : (r.tail + i) % n = r.head + (i - r.count) := by
        rw [mod_eq_ite (by omega)]
        split_ifs at hcount hfree ⊢ <;> omega
      rw [getElem?_contents _ (by omega)]
      simp only [copyIn, hcell, Nat.le_add_right, if_true, Nat.add_sub_cancel_left]
      rw [List.getElem?_eq_getElem (by omega), Option.getD_some]
    · rw [List.getElem?_eq_none (by rw [length_contents]; omega), List.getElem?_eq_none (by omega)]

/-- Behind the tail stands the rest. -/
theorem contents_advance (r : Ring α n) (h : r.head ≠ r.tail) :
    (r.advance r.tail).contents = r.contents.drop 1 := by
  have hh := r.head_lt
  have ht := r.tail_lt
  have hcount := r.count_eq
  have hcount' : (r.advance r.tail).count = r.count - 1 := by
    show (r.head + n - (r.tail + 1) % n) % n = _
    rw [distance_eq hh (Nat.mod_lt _ (by omega)), mod_eq_ite (by omega), hcount]
    split_ifs <;> omega
  have hlt := r.count_lt
  refine List.ext_getElem? fun i => ?_
  rw [List.getElem?_drop]
  by_cases hi : i < r.count - 1
  · rw [getElem?_contents _ (by omega), getElem?_contents _ (by omega)]
    simp only [advance, Nat.mod_add_mod, Nat.add_assoc]
  · rw [List.getElem?_eq_none (by rw [length_contents]; omega),
      List.getElem?_eq_none (by rw [length_contents]; omega)]

/-- Only behind the tail stands one value less. -/
theorem count_advance_eq (r : Ring α n) {t : Nat} (ht : t < n) (h : (r.advance t).count + 1 = r.count) :
    t = r.tail := by
  have hh := r.head_lt
  have htail := r.tail_lt
  change (r.head + n - (t + 1) % n) % n + 1 = _ at h
  rw [distance_eq hh (Nat.mod_lt _ (by omega)), mod_eq_ite (by omega), count_eq] at h
  split_ifs at h <;> omega

end Ring

end CameraFw.Base
