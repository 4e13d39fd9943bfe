import Mathlib.Data.List.Nodup
import Mathlib.Logic.Function.Basic

/-!
# Linked queues

Cells that are linked by a field of their own: a queue is known by the pointers to its first and its
last cell, and the link of a cell belongs to whatever queue the cell is in. A cell is linked behind the
last one and taken off at the head.
-/

namespace CameraFw.Base

variable {ι : Type} {next next' : ι → Option ι} {p : Option ι} {x y t : ι} {xs ys : List ι}

/-- From `p` on the links lead through the cells `xs` to the end. -/
inductive Linked (next : ι → Option ι) : Option ι → List ι → Prop where
  | nil : Linked next none []
  | cons {x : ι} {xs : List ι} : Linked next (next x) xs → Linked next (some x) (x :: xs)

theorem linked_nil_iff : Linked next p [] ↔ p = none :=
  ⟨fun h => by cases h; rfl, fun h => h ▸ .nil⟩

theorem linked_cons_iff : Linked next p (x :: xs) ↔ p = some x ∧ Linked next (next x) xs :=
  ⟨fun h => by cases h with | cons h => exact ⟨rfl, h⟩, fun h => h.1 ▸ .cons h.2⟩

theorem Linked.frame (h : Linked next p xs) (heq : ∀ x ∈ xs, next' x = next x) : Linked next' p xs := by
  induction h with
  | nil => exact .nil
  | cons _ ih =>
      refine .cons ?_
      rw [heq _ List.mem_cons_self]
      exact ih fun x hx => heq x (List.mem_cons_of_mem _ hx)

theorem Linked.unique (h : Linked next p xs) (h' : Linked next p ys) : xs = ys := by
  induction h generalizing ys with
  | nil => cases h'; rfl
  | cons _ ih =>
      cases h' with
      | cons h' => rw [ih h']

/-- The link of a cell in no queue is nobody's. -/
theorem Linked.update [DecidableEq ι] (h : Linked next p xs) (hx : x ∉ xs) (q : Option ι) :
    Linked (Function.update next x q) p xs :=
  h.frame fun _ hy => Function.update_of_ne (ne_of_mem_of_not_mem hy hx) _ _

/-- The last cell gets a link to another one. -/
theorem Linked.extend [DecidableEq ι] (h : Linked next p (xs ++ [t])) (hnd : (xs ++ [t]).Nodup)
    (hys : Linked next (some y) ys) (ht : t ∉ ys) :
    Linked (Function.update next t (some y)) p (xs ++ [t] ++ ys) := by
  induction xs generalizing p with
  | nil =>
      cases h with
      | cons h => exact .cons (by rw [Function.update_self]; exact hys.update ht _)
  | cons x xs ih =>
      cases h with
      | cons h =>
          have hne : x ≠ t := by
            rintro rfl
            exact (List.nodup_cons.mp hnd).1 (by simp)
          refine .cons ?_
          rw [Function.update_of_ne hne]
          exact ih h (List.nodup_cons.mp hnd).2

/-! ## The ends -/

/-- The pointers to the first and the last cell; the second one counts only if there is a first one. -/
structure Ends (ι : Type) where
  head : Option ι
  tail : Option ι
  deriving DecidableEq, Repr

structure Ends.Holds (q : Ends ι) (next : ι → Option ι) (xs : List ι) : Prop where
  linked : Linked next q.head xs
  last : ∀ t ∈ xs.getLast?, q.tail = some t

/-- Links a cell behind the last one. There is no answer where the code follows a null pointer. -/
def Ends.append [DecidableEq ι] (q : Ends ι) (next : ι → Option ι) (x : ι) :
    Option (Ends ι × (ι → Option ι)) :=
  match q.head, q.tail with
  | none, _ => some (⟨some x, some x⟩, next)
  | some _, some t => some (⟨q.head, some x⟩, Function.update next t (some x))
  | some _, none => none

variable {q : Ends ι}

/-- With a last cell there is an answer: the queue ends with the new cell, and that is all the new links
lead to. -/
theorem Ends.append_of_tail [DecidableEq ι] (h : q.head ≠ none → q.tail ≠ none) (next : ι → Option ι)
    (x : ι) :
    ∃ q' next', q.append next x = some (q', next') ∧ q'.tail = some x ∧ q'.head = some (q.head.getD x) ∧
      ∀ i j, next' i = some j → j = x ∨ next i = some j := by
  cases hh : q.head with
  | none => exact ⟨⟨some x, some x⟩, next, by simp only [Ends.append, hh], rfl, rfl, fun _ _ => Or.inr⟩
  | some z =>
      obtain ⟨t, ht⟩ := Option.ne_none_iff_exists'.mp (h (by rw [hh]; exact Option.some_ne_none z))
      refine ⟨⟨q.head, some x⟩, Function.update next t (some x), by simp only [Ends.append, hh, ht],
        rfl, hh, ?_⟩
      intro i j hij
      by_cases hi : i = t
      · rw [hi, Function.update_self] at hij
        exact Or.inl (Option.some.inj hij).symm
      · rw [Function.update_of_ne hi] at hij
        exact Or.inr hij

theorem Ends.Holds.frame (h : q.Holds next xs) (heq : ∀ x ∈ xs, next' x = next x) : q.Holds next' xs :=
  ⟨h.linked.frame heq, h.last⟩

theorem Ends.Holds.update [DecidableEq ι] (h : q.Holds next xs) (hx : x ∉ xs) (p : Option ι) :
    q.Holds (Function.update next x p) xs :=
  ⟨h.linked.update hx p, h.last⟩

theorem Ends.Holds.nil_of_head (h : q.head = none) : q.Holds next [] := ⟨h ▸ .nil, nofun⟩

theorem Ends.Holds.head_eq (h : q.Holds next xs) : q.head = xs.head? := by
  cases xs with
  | nil => exact linked_nil_iff.mp h.linked
  | cons x xs => exact (linked_cons_iff.mp h.linked).1

/-- What is left when the first cell is taken off. -/
theorem Ends.Holds.pop (h : q.Holds next (x :: xs)) : Ends.Holds ⟨next x, q.tail⟩ next xs := by
  refine ⟨(linked_cons_iff.mp h.linked).2, fun t ht => h.last t ?_⟩
  rw [List.getLast?_cons, Option.mem_def.mp ht]
  rfl

theorem Ends.Holds.append [DecidableEq ι] (h : q.Holds next xs) (hnd : xs.Nodup) (hx : x ∉ xs)
    (hend : next x = none) :
    ∃ q' next', q.append next x = some (q', next') ∧ q'.Holds next' (xs ++ [x]) ∧ ∀ y, y ∉ xs →
      next' y = next y := by
  have hsingle : Linked next (some x) [x] := .cons (hend ▸ .nil)
  rcases List.eq_nil_or_concat xs with rfl | ⟨ys, t, rfl⟩
  · have hhead : q.head = none := h.head_eq
    exact ⟨⟨some x, some x⟩, next, by simp only [Ends.append, hhead], ⟨hsingle, by simp⟩, fun _ _ => rfl⟩
  · rw [List.concat_eq_append] at *
    have htail : q.tail = some t := h.last t (by simp)
    have hhead : q.head = (ys ++ [t]).head? := h.head_eq
    obtain ⟨z, hz⟩ : ∃ z, q.head = some z := by
      rw [hhead]
      cases ys with
      | nil => exact ⟨t, rfl⟩
      | cons z _ => exact ⟨z, rfl⟩
    refine ⟨⟨q.head, some x⟩, Function.update next t (some x), by simp only [Ends.append, hz, htail],
      ⟨?_, by simp⟩, ?_⟩
    · exact h.linked.extend hnd hsingle fun ht => hx (by simp [List.mem_singleton.mp ht])
    · exact fun y hy => Function.update_of_ne (fun he => hy (by simp [he])) _ _

end CameraFw.Base
