import CameraFw.Isoc.BufferTheorems

/-!
# Where the links lead

Even when readers come too early and the lists get mixed up, the list of full frames leads to no other
buffers than those that have held a completed frame and the one that is being filled.
-/

namespace CameraFw.Isoc

open CameraFw.Base

namespace Buffers

variable {n : Nat} {s s' : Buffers n} {U : Fin n → Prop}

/-- From the full frames, the reader's and the fill frame on the links stay among the buffers `U`. Only
the link that is left at the first fill frame leads to an empty one, while there are no full frames. -/
structure Closed (s : Buffers n) (U : Fin n → Prop) : Prop where
  fill : ∃ f, s.fillFrame = some f ∧ U f
  full : ∀ i, s.full.head = some i → U i
  fullTail : s.full.head ≠ none → s.full.tail ≠ none
  read : ∀ i, s.readFrame = some i → U i
  emptyTail : s.empty.tail ≠ none
  link : ∀ i j, U i → s.next i = some j → U j ∨ s.full.head = none ∧ s.empty.head = some j

theorem Closed.write (h : s.Closed U) (b : Fin n → Frame) : Closed { s with fbuf := b } U :=
  ⟨h.fill, h.full, h.fullTail, h.read, h.emptyTail, h.link⟩

/-- Frames are taken from the full list without its leaving `U`. -/
theorem Closed.link_full (h : s.Closed U) (hhead : s.full.head ≠ none ∨ s.empty.head = none)
    {i j : Fin n} (hi : U i) (hij : s.next i = some j) : U j := by
  rcases h.link i j hi hij with hj | ⟨hfull, hempty⟩
  · exact hj
  · rcases hhead with hhead | hhead
    · exact absurd hfull hhead
    · rw [hhead] at hempty
      cases hempty

theorem update_eq_some {next : Fin n → Option (Fin n)} {x i j : Fin n}
    (h : Function.update next x none i = some j) :
    i ≠ x ∧ next i = some j := by
  by_cases hi : i = x
  · rw [hi, Function.update_self] at h
    cases h
  · exact ⟨hi, by rwa [Function.update_of_ne hi] at h⟩

/-- The next fill frame joins `U`. -/
theorem Closed.nextFillFrame (h : s.Closed U) :
    ∃ s' y, s.step .nextFillFrame = some s' ∧ s'.fillFrame = some y ∧ s'.readFrame = s.readFrame ∧
      s'.fbuf = s.fbuf ∧ s'.Closed fun i => U i ∨ i = y := by
  obtain ⟨f, hfill, hf⟩ := h.fill
  obtain ⟨q, next, happ, htail, hhead, hnext⟩ := Ends.append_of_tail h.fullTail s.next f
  have hfirst : U (s.full.head.getD f) := by
    cases hh : s.full.head with
    | none => exact hf
    | some i => exact h.full i hh
  have htail' : q.tail ≠ none := by rw [htail]; exact Option.some_ne_none f
  cases he : s.empty.head with
  | some y =>
      refine ⟨_, y, congrArg (Option.map Prod.snd) (pwcNextFillFrame_of_empty hfill happ he), rfl, rfl, rfl,
        ⟨y, rfl, Or.inr rfl⟩, ?_, fun _ => htail', fun i hi => Or.inl (h.read i hi), h.emptyTail, ?_⟩
      · intro i hi
        cases hhead.symm.trans hi
        exact Or.inl hfirst
      · intro i j hi hij
        rcases hi with hi | rfl
        · rcases hnext i j (update_eq_some hij).2 with rfl | hij
          · exact Or.inl (Or.inl hf)
          · rcases h.link i j hi hij with hj | ⟨-, hj⟩
            · exact Or.inl (Or.inl hj)
            · exact Or.inl (Or.inr (Option.some.inj (hj.symm.trans he)))
        · exact absurd rfl (update_eq_some hij).1
  | none =>
      -- the first of the full frames goes from one place in `U` to another
      have hlink : ∀ i j, U i → next i = some j → U j := fun i j hi hij => by
        rcases hnext i j hij with rfl | hij
        · exact hf
        · exact h.link_full (Or.inr he) hi hij
      refine ⟨_, _, congrArg (Option.map Prod.snd) (pwcNextFillFrame_of_full hfill happ he hhead),
        rfl, rfl, rfl, ⟨_, rfl, Or.inr rfl⟩, fun i hi => Or.inl (hlink _ _ hfirst hi), fun _ => htail',
        fun i hi => Or.inl (h.read i hi), h.emptyTail, ?_⟩
      intro i j hi hij
      have hi : U i := hi.elim id fun hi => hi ▸ hfirst
      exact Or.inl (Or.inl (hlink i j hi (update_eq_some hij).2))

theorem grab_of_full {f : Fin n} (hread : s.readFrame = none) (hhead : s.full.head = some f) :
    s.grab = { s with
      readFrame := some f, full := ⟨s.next f, s.full.tail⟩, next := Function.update s.next f none } := by
  simp only [Buffers.grab, hread, hhead]

theorem Closed.grab (h : s.Closed U) {f : Fin n} (hread : s.readFrame = none) (hhead : s.full.head = some f) :
    s.grab.Closed U := by
  have hne : s.full.head ≠ none := by rw [hhead]; exact Option.some_ne_none f
  rw [grab_of_full hread hhead]
  refine ⟨h.fill, fun i hi => h.link_full (Or.inl hne) (h.full f hhead) hi, fun _ => h.fullTail hne, ?_,
    h.emptyTail, ?_⟩
  · rintro i ⟨⟩
    exact h.full f hhead
  · exact fun i j hi hij => Or.inl (h.link_full (Or.inl hne) hi (update_eq_some hij).2)

theorem Closed.giveBack (h : s.Closed U) {r : Fin n} (hread : s.readFrame = some r) :
    ∃ s', s.giveBack = some s' ∧ s'.fillFrame = s.fillFrame ∧ s'.readFrame = none ∧ s'.fbuf = s.fbuf ∧
      s'.Closed U := by
  obtain ⟨q, next, happ, htail, hhead, hnext⟩ := Ends.append_of_tail (fun _ => h.emptyTail) s.next r
  refine ⟨_, giveBack_of_read hread happ, rfl, rfl, rfl, h.fill, h.full, h.fullTail, fun i hi => ?_, ?_, ?_⟩
  · cases hi
  · show q.tail ≠ none
    rw [htail]
    exact Option.some_ne_none r
  · intro i j hi hij
    rcases hnext i j hij with rfl | hij
    · exact Or.inl (h.read _ hread)
    · refine (h.link i j hi hij).imp id fun ⟨hfull, hempty⟩ => ⟨hfull, ?_⟩
      rw [hempty] at hhead
      exact hhead

theorem closed_reset {n : Nat} (s : Buffers (n + 1)) : s.pwcResetBuffers.Closed fun i => i = Fin.last n where
  fill := ⟨Fin.last n, rfl, rfl⟩
  full := fun i hi => by cases hi
  fullTail := fun h => absurd rfl h
  read := fun i hi => by cases hi
  emptyTail := Option.some_ne_none _
  link := by
    rintro i j rfl hij
    exact Or.inr ⟨rfl, hij⟩

end Buffers

end CameraFw.Isoc
