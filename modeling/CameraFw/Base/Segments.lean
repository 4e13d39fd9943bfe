import Mathlib

/-!
# Segments side by side

A list of segments, each from `lo` up to but not including `hi`, that divide the numbers from `b` to `e`
among them. A walk through it goes on from each point by the length of the segment the point is in, as
long as it is below a limit.
-/

namespace CameraFw.Base

variable {α : Type} (lo hi : α → Nat)

/-- The segments lie side by side from `b` to `e`. -/
def Adjoins : Nat → List α → Nat → Prop
  | b, [], e => b = e
  | b, s :: l, e => lo s = b ∧ lo s < hi s ∧ Adjoins (hi s) l e

/-- The walk from a point enters the segment. -/
inductive Visit (l : List α) (limit : Nat) : Nat → α → Prop
  | here {a s} : a < limit → s ∈ l → lo s ≤ a → a < hi s → Visit l limit a s
  | next {a t s} : a < limit → t ∈ l → lo t ≤ a → a < hi t → Visit l limit (a + (hi t - lo t)) s →
      Visit l limit a s

variable {lo hi} {l : List α} {b e : Nat}

theorem Adjoins.le (h : Adjoins lo hi b l e) : b ≤ e := by
  induction l generalizing b with
  | nil => exact Nat.le_of_eq h
  | cons s l ih => have := ih h.2.2; have := h.1; have := h.2.1; omega

theorem Adjoins.bounds (h : Adjoins lo hi b l e) {s : α} (hs : s ∈ l) :
    b ≤ lo s ∧ lo s < hi s ∧ hi s ≤ e := by
  induction l generalizing b with
  | nil => cases hs
  | cons t l ih =>
      obtain ⟨rfl, hlt, htail⟩ := h
      rcases List.mem_cons.mp hs with rfl | hs
      · exact ⟨Nat.le_refl _, hlt, htail.le⟩
      · obtain ⟨hb, hne, he⟩ := ih htail hs
        exact ⟨by omega, hne, he⟩

theorem Adjoins.covered (h : Adjoins lo hi b l e) {x : Nat} (hb : b ≤ x) (he : x < e) :
    ∃ s ∈ l, lo s ≤ x ∧ x < hi s := by
  induction l generalizing b with
  | nil => cases h; omega
  | cons t l ih =>
      obtain ⟨rfl, hlt, htail⟩ := h
      by_cases hx : x < hi t
      · exact ⟨t, List.mem_cons_self, hb, hx⟩
      · obtain ⟨s, hs, hin⟩ := ih htail (by omega)
        exact ⟨s, List.mem_cons_of_mem _ hs, hin⟩

/-- Of two segments one is the other, or lies before it. -/
theorem Adjoins.before (h : Adjoins lo hi b l e) {s t : α} (hs : s ∈ l) (ht : t ∈ l) :
    s = t ∨ hi s ≤ lo t ∨ hi t ≤ lo s := by
  induction l generalizing b with
  | nil => cases hs
  | cons u l ih =>
      obtain ⟨rfl, hlt, htail⟩ := h
      rcases List.mem_cons.mp hs with rfl | hs' <;> rcases List.mem_cons.mp ht with rfl | ht'
      · exact .inl rfl
      · exact .inr (.inl (htail.bounds ht').1)
      · exact .inr (.inr (htail.bounds hs').1)
      · exact ih htail hs' ht'

theorem Adjoins.unique (h : Adjoins lo hi b l e) {s t : α} {x : Nat} (hs : s ∈ l) (ht : t ∈ l)
    (hsx : lo s ≤ x) (hxs : x < hi s) (htx : lo t ≤ x) (hxt : x < hi t) : s = t := by
  rcases h.before hs ht with heq | hlt | hlt
  · exact heq
  · omega
  · omega

theorem Adjoins.next (h : Adjoins lo hi b l e) {s : α} (hs : s ∈ l) (hlt : hi s < e) :
    ∃ t ∈ l, lo t = hi s := by
  obtain ⟨hb, hne, _⟩ := h.bounds hs
  obtain ⟨t, ht, hle, hin⟩ := h.covered (x := hi s) (by omega) hlt
  refine ⟨t, ht, ?_⟩
  rcases h.before hs ht with rfl | hst | hts <;> omega

/-! ## Walks -/

theorem Visit.lt {limit a : Nat} {s : α} (h : Visit lo hi l limit a s) :
    s ∈ l ∧ a < limit ∧ a < hi s ∧ lo s < limit := by
  induction h with
  | here ha hs hlo hhi => exact ⟨hs, ha, hhi, by omega⟩
  | next ha ht hlo hhi _ ih => exact ⟨ih.1, ha, by omega, ih.2.2.2⟩

/-- Behind `t` come the segment that begins at its end and those behind that one. -/
theorem Adjoins.behind (h : Adjoins lo hi b l e) {s t t' : α} (ht : t ∈ l) (ht' : t' ∈ l) (heq : lo t' = hi t)
    (hs : s ∈ l) (hlt : lo t < lo s) : s = t' ∨ lo t' < lo s := by
  have hs' := (h.bounds hs).2.1
  have ht'' := (h.bounds ht').2.1
  rcases h.before hs ht' with rfl | hlt' | hgt
  · exact .inl rfl
  · rcases h.before hs ht with rfl | _ | _ <;> omega
  · exact .inr (by omega)

/-- A walk from inside `t` gets to a segment behind `t` only by its next step. -/
theorem Adjoins.visit_onward (h : Adjoins lo hi b l e) {limit a : Nat} {s t : α} (ht : t ∈ l) (hlo : lo t ≤ a)
    (hhi : a < hi t) (hlt : lo t < lo s) (hv : Visit lo hi l limit a s) :
    Visit lo hi l limit (a + (hi t - lo t)) s := by
  cases hv with
  | here _ hs hlo' hhi' =>
      cases h.unique hs ht hlo' hhi' hlo hhi
      omega
  | next _ hu hlo' hhi' hv =>
      cases h.unique hu ht hlo' hhi' hlo hhi
      exact hv

theorem Adjoins.eq_of_last (h : Adjoins lo hi b l e) {limit : Nat} {s t : α} (ht : t ∈ l)
    (hend : limit ≤ hi t) (hs : s ∈ l) (hle : lo t ≤ lo s) (hs' : lo s < limit) : s = t := by
  have hs'' := (h.bounds hs).2.1
  rcases h.before hs ht with heq | hlt | hgt <;> [exact heq; omega; omega]

/-- A walk that starts in segment `t` enters every segment from there to the limit exactly if each of
them that begins behind `t` reaches, below the limit, as far as the start of the walk is inside `t`. -/
theorem Adjoins.visit_all_iff (h : Adjoins lo hi b l e) {limit : Nat} (hl : limit ≤ e) :
    ∀ n a t, limit - a ≤ n → t ∈ l → lo t ≤ a → a < hi t → a < limit →
      ((∀ s ∈ l, lo t ≤ lo s → lo s < limit → Visit lo hi l limit a s) ↔
        ∀ s ∈ l, lo t < lo s → lo s < limit → lo s + (a - lo t) < min limit (hi s)) := by
  intro n
  induction n with
  | zero => intro a t hn _ _ _ ha; omega
  | succ n ih =>
      intro a t hn ht hlo hhi ha
      rcases Nat.lt_or_ge (hi t) limit with hend | hend
      · obtain ⟨t', ht', heq⟩ := h.next ht (by omega)
        have hmove : a + (hi t - lo t) = lo t' + (a - lo t) := by omega
        by_cases hin : lo t' + (a - lo t) < min limit (hi t')
        · have hoff : a + (hi t - lo t) - lo t' = a - lo t := by omega
          have hih := ih (a + (hi t - lo t)) t' (by omega) ht' (by omega) (by omega) (by omega)
          rw [hoff] at hih
          constructor
          · intro hall s hs hlt hs'
            rcases h.behind ht ht' heq hs hlt with rfl | hlt'
            · exact hin
            · refine hih.mp (fun u hu hle hu' => ?_) s hs hlt' hs'
              exact h.visit_onward ht hlo hhi (by omega) (hall u hu (by omega) hu')
          · intro hcond s hs hle hs'
            rcases Nat.lt_or_eq_of_le hle with hlt | heq'
            · refine .next ha ht hlo hhi (hih.mpr (fun u hu hlt' => hcond u hu (by omega)) s hs ?_ hs')
              rcases h.behind ht ht' heq hs hlt with rfl | hlt' <;> omega
            · have hs'' := (h.bounds hs).2.1
              cases h.unique hs ht (Nat.le_refl _) hs'' (Nat.le_of_eq heq') (by omega)
              exact .here ha ht hlo hhi
        · -- the walk jumps over `t'`, or ends in front of it
          constructor
          · intro hall
            have hv := (h.visit_onward ht hlo hhi (by omega) (hall t' ht' (by omega) (by omega))).lt
            omega
          · intro hcond
            exact absurd (hcond t' ht' (by omega) (by omega)) hin
      · constructor
        · intro _ s hs hlt hs'
          cases h.eq_of_last ht hend hs hlt.le hs'
          omega
        · intro _ s hs hle hs'
          cases h.eq_of_last ht hend hs hle hs'
          exact .here ha ht hlo hhi

end CameraFw.Base
