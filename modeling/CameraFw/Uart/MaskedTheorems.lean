import CameraFw.Uart.TransmitTheorems

/-!
# What masking would do

If from its look at an empty ring up to the end of its loop a transmitting `uart_write` could not be
interrupted by others that send, as `uart_start` cannot be, what it reads would stay true and no byte
would be lost or sent twice.
-/

namespace CameraFw.Uart

open CameraFw.Base

variable {fifo : Nat} {p p' : Port} {s : Line}

/-- From the look at an empty ring up to the end of the loop. -/
def Pos.sending : Pos → Bool
  | .emptyTail _ => true
  | .stopTest => true
  | .hwStopTest => true
  | .status _ => true
  | .loadTail _ => true
  | .loadByte _ _ => true
  | .write _ _ => true
  | .reloadTail _ => true
  | .storeTail _ _ => true
  | .againHead _ => true
  | .againTail _ _ => true
  | _ => false

/-- While a call is sending, no other one begins to, and neither `uart_start` nor the interrupt comes in. -/
def Line.Masked (s : Line) : Event → Prop
  | .turn i _ => s.writers[i]? = some .emptyHead → ∀ w ∈ s.writers, w.sending = false
  | .start _ => ∀ w ∈ s.writers, w.sending = false
  | .interrupt _ => ∀ w ∈ s.writers, w.sending = false
  | _ => True

instance (s : Line) : DecidablePred s.Masked
  | .turn i _ =>
      inferInstanceAs (Decidable (s.writers[i]? = some .emptyHead → ∀ w ∈ s.writers, w.sending = false))
  | .start _ | .interrupt _ => inferInstanceAs (Decidable (∀ w ∈ s.writers, w.sending = false))
  | .call .. | .putChar _ | .flags .. => isTrue trivial

/-! ## One call -/

/-- What the call has read is still true. -/
def Pos.Fresh (p : Port) : Pos → Prop
  | .emptyTail head => head ≠ p.xmit.tail → p.xmit.contents ≠ []
  | .stopTest => p.xmit.contents ≠ []
  | .hwStopTest => p.xmit.contents ≠ []
  | .status _ => p.xmit.contents ≠ []
  | .loadTail _ => p.xmit.contents ≠ []
  | .loadByte _ tail => tail = p.xmit.tail ∧ p.xmit.contents ≠ []
  | .write _ c => p.xmit.contents[0]? = some c
  | .storeTail _ tail => tail = p.xmit.tail
  | .againTail _ head => head ≠ p.xmit.tail → p.xmit.contents ≠ []
  | _ => True

theorem Pos.Fresh.of_not_sending {w : Pos} (h : w.sending = false) : w.Fresh p := by
  cases w <;> trivial

/-- Bytes that come in do not make it stale. -/
theorem Pos.Fresh.accepts {w : Pos} {cs : List Cell} (h : w.Fresh p) (ha : Accepts p p' cs) : w.Fresh p' := by
  have hne : p.xmit.contents ≠ [] → p'.xmit.contents ≠ [] := by
    intro hc
    rw [ha.contents]
    exact List.append_ne_nil_of_left_ne_nil hc cs
  cases w with
  | emptyTail | againTail =>
      intro hhead
      rw [ha.tail] at hhead
      exact hne (h hhead)
  | stopTest | hwStopTest | status | loadTail => exact hne h
  | loadByte => exact ⟨h.1.trans ha.tail.symm, hne h.2⟩
  | write count c =>
      obtain ⟨hlt, _⟩ := List.getElem?_eq_some_iff.mp h
      show p'.xmit.contents[0]? = some c
      rw [ha.contents, List.getElem?_append_left hlt]
      exact h
  | storeTail => exact h.trans ha.tail.symm
  | _ => trivial

/-- Neither does a step of its own. -/
theorem Pos.Fresh.step {w w' : Pos} {a : Answer} (h : w.Fresh p)
    (hstep : w.step fifo a p = some (p', w')) : w'.Fresh p' := by
  have hload : p.xmit.head ≠ p.xmit.tail → p.xmit.contents ≠ [] := mt p.xmit.contents_eq_nil.mp
  cases w with
  | done => cases hstep
  | emptyHead | againHead =>
      cases hstep
      exact hload
  | emptyTail head =>
      cases hstep
      split_ifs with hempty
      · trivial
      · exact h hempty
  | stopTest | hwStopTest | status =>
      cases hstep
      split_ifs
      · trivial
      · exact h
  | loadTail =>
      cases hstep
      exact ⟨rfl, h⟩
  | loadByte count tail =>
      cases hstep
      show p.xmit.contents[0]? = some (p.xmit.buf tail)
      rw [h.1]
      exact p.xmit.head?_contents (mt p.xmit.contents_eq_nil.mpr h.2)
  | reloadTail =>
      cases hstep
      rfl
  | againTail count head =>
      cases hstep
      split_ifs with hempty
      · trivial
      · exact h hempty
      · trivial
  | _ =>
      cases hstep
      first | trivial | (split_ifs <;> trivial)

/-- A call begins to send where it looks at the head. -/
theorem Pos.eq_emptyHead {w w' : Pos} {a : Answer} (hw : w.sending = false) (hw' : w'.sending = true)
    (hstep : w.step fifo a p = some (p', w')) : w = .emptyHead := by
  cases w with
  | emptyHead => rfl
  | emptyTail | stopTest | hwStopTest | status | loadTail | loadByte | write | reloadTail | storeTail
  | againHead | againTail => cases hw
  | done => cases hstep
  | _ =>
      cases hstep
      first | cases hw' | (split_ifs at hw' <;> cases hw')

/-! ## Whole runs -/

/-- At most one call is sending, and what it has read is true. -/
structure Line.Tidy (s : Line) : Prop where
  exact : s.Exact
  numbered : s.port.Numbered
  sole : s.writers.countP Pos.sending ≤ 1
  fresh : ∀ w ∈ s.writers, w.Fresh s.port

theorem Pos.sending_of_underway {w : Pos} (h : w.underway = true) : w.sending = true := by
  cases w <;> first | rfl | cases h

theorem Line.underway_eq_zero (h : ∀ w ∈ s.writers, w.sending = false) : s.underway = 0 := by
  refine List.countP_eq_zero.mpr fun w hw hu => ?_
  have := Pos.sending_of_underway hu
  rw [h w hw] at this
  cases this

/-- While one call is sending, the others are not. -/
theorem Line.Tidy.others {i j : Nat} {w v : Pos} (h : s.Tidy) (hi : s.writers[i]? = some w)
    (hw : w.sending = true) (hj : s.writers[j]? = some v) (hij : i ≠ j) : v.sending = false := by
  have hcount := countP_set_add (q := Pos.sending) hi .done
  rw [hw] at hcount
  have hzero : (s.writers.set i .done).countP Pos.sending = 0 := by
    have := h.sole
    simp only [if_true, Pos.sending, Bool.false_eq_true, if_false] at hcount
    omega
  have hmem : v ∈ s.writers.set i .done := List.mem_of_getElem? ((List.getElem?_set_ne hij).trans hj)
  simpa using List.countP_eq_zero.mp hzero v hmem

/-- Nothing is underway as long as the one that sends has not got so far. -/
theorem Line.Tidy.underway_eq_zero {i : Nat} {w : Pos} (h : s.Tidy) (hi : s.writers[i]? = some w)
    (hw : w.sending = true) (hu : w.underway = false) : s.underway = 0 := by
  refine List.countP_eq_zero.mpr fun v hv hvu => ?_
  obtain ⟨j, hj⟩ := List.mem_iff_getElem?.mp hv
  by_cases hij : i = j
  · subst hij
    rw [Option.some.inj (hi.symm.trans hj), hvu] at hu
    cases hu
  · have := Pos.sending_of_underway hvu
    rw [h.others hi hw hj hij] at this
    cases this

theorem Line.Tidy.orderly {e : Event} (h : s.Tidy) (hm : s.Masked e) : s.Orderly fifo e := by
  cases e with
  | turn i a =>
      cases hw : s.writers[i]? with
      | none => simp [Line.Orderly, hw]
      | some w =>
          have hfresh := h.fresh w (List.mem_of_getElem? hw)
          simp only [Line.Orderly, hw]
          cases w with
          | write count c =>
              rw [h.underway_eq_zero hw rfl rfl]
              exact hfresh
          | storeTail => exact hfresh
          | _ => trivial
  | start busy => exact .inr (Line.underway_eq_zero hm)
  | interrupt rounds => exact .inr (Line.underway_eq_zero hm)
  | _ => trivial

/-- After a call has made its access, what it and the others have read is true. -/
theorem Line.Tidy.fresh_set {i : Nat} {a : Answer} {w w' : Pos} (h : s.Tidy) (hi : s.writers[i]? = some w)
    (hstep : w.step fifo a s.port = some (p', w')) : ∀ v ∈ s.writers.set i w', v.Fresh p' := by
  intro v hv
  obtain ⟨j, hj⟩ := List.mem_iff_getElem?.mp hv
  by_cases hij : i = j
  · subst hij
    rw [List.getElem?_set_self (List.getElem?_eq_some_iff.mp hi).1] at hj
    rw [← Option.some.inj hj]
    exact (h.fresh w (List.mem_of_getElem? hi)).step hstep
  · rw [List.getElem?_set_ne hij] at hj
    by_cases hw : w.sending = true
    · exact .of_not_sending (h.others hi hw hj hij)
    · have hst : w.stores = false := by cases w <;> first | rfl | exact absurd rfl hw
      obtain ⟨⟨cs, hcs⟩, _⟩ := Pos.step_accepts hst hstep
      exact (h.fresh v (List.mem_of_getElem? hj)).accepts hcs

theorem Line.Tidy.sole_set {i : Nat} {a : Answer} {w w' : Pos} (h : s.Tidy)
    (hm : s.Masked (.turn i a)) (hi : s.writers[i]? = some w)
    (hstep : w.step fifo a s.port = some (p', w')) : (s.writers.set i w').countP Pos.sending ≤ 1 := by
  have hcount := countP_set_add (q := Pos.sending) hi w'
  have hsole := h.sole
  by_cases hw : w.sending = true
  · rw [if_pos hw] at hcount
    split_ifs at hcount <;> omega
  · by_cases hw' : w'.sending = true
    · -- the call begins to send: no other one does
      rw [Pos.eq_emptyHead (by simpa using hw) hw' hstep] at hi
      have hzero : s.writers.countP Pos.sending = 0 :=
        List.countP_eq_zero.mpr fun v hv => by simp [hm hi v hv]
      rw [if_neg hw, if_pos hw'] at hcount
      omega
    · rw [if_neg hw, if_neg hw'] at hcount
      omega

theorem Line.Tidy.step {e : Event} {t : Line} (h : s.Tidy) (hm : s.Masked e)
    (hstep : s.step fifo e = some t) : t.Tidy := by
  have hexact := (h.exact.step_iff h.numbered hstep).mpr (h.orderly hm)
  have hnumbered := Line.numbered_step h.numbered hstep
  cases e with
  | turn i a =>
      cases hw : s.writers[i]? with
      | none => simp [Line.step, hw] at hstep
      | some w =>
          simp only [Line.step, hw, Option.map_eq_some_iff] at hstep
          obtain ⟨⟨q, w'⟩, hpos, rfl⟩ := hstep
          exact ⟨hexact, hnumbered, h.sole_set hm hw hpos, h.fresh_set hw hpos⟩
  | call fromUser buf =>
      cases hstep
      have hnew : (if fromUser then Pos.room buf else Pos.fill buf).sending = false := by
        cases fromUser <;> rfl
      refine ⟨hexact, hnumbered, ?_, fun w hw => ?_⟩
      · have := h.sole
        simpa [List.countP_append, hnew] using this
      · rcases List.mem_append.mp hw with hw | hw
        · exact h.fresh w hw
        · rw [List.mem_singleton.mp hw]
          exact .of_not_sending hnew
  | putChar ch =>
      cases hstep
      obtain ⟨cs, hcs⟩ := uartPutChar_accepts ch s.port
      exact ⟨hexact, hnumbered, h.sole, fun w hw => (h.fresh w hw).accepts hcs⟩
  | start busy =>
      cases hstep
      exact ⟨hexact, hnumbered, h.sole, fun w hw => .of_not_sending (hm w hw)⟩
  | interrupt rounds =>
      cases hstep
      exact ⟨hexact, hnumbered, h.sole, fun w hw => .of_not_sending (hm w hw)⟩
  | flags xChar thri stopped hwStopped =>
      cases hstep
      exact ⟨hexact, hnumbered, h.sole, fun w hw => (h.fresh w hw).accepts (.none rfl rfl rfl)⟩

theorem Line.idle_tidy (buf : Nat → Cell) (pos : Fin serialXmitSize) (xChar : UInt8)
    (thri stopped hwStopped : Bool) :
    (Line.idle buf pos xChar thri stopped hwStopped).Tidy where
  exact := Line.idle_exact buf pos xChar thri stopped hwStopped
  numbered := rfl
  sole := Nat.zero_le 1
  fresh := fun _ hw => absurd hw List.not_mem_nil

/-- Masked in this way, every run keeps every byte. -/
theorem masked_exact (fifo : Nat) (buf : Nat → Cell) (pos : Fin serialXmitSize) (xChar : UInt8)
    (thri stopped hwStopped : Bool) (es : List Event)
    (h : Along (Line.step fifo) Line.Masked (Line.idle buf pos xChar thri stopped hwStopped) es) :
    Always (Line.step fifo) Line.Exact (Line.idle buf pos xChar thri stopped hwStopped) es :=
  (always_of_along (fun _ _ _ ht hm hstep => Line.Tidy.step ht hm hstep) es _
    (Line.idle_tidy buf pos xChar thri stopped hwStopped) h).imp fun _ ht => ht.exact

/-- `uart_write` takes in three bytes and sends two of them; the interrupt that sends the third comes
when it is through. -/
def maskedWrite : List Event :=
  .call true [65, 66, 67] :: (List.replicate 34 (.turn 0 ⟨0, false⟩) ++
    [.interrupt [⟨true, false, [false]⟩, ⟨false, false, []⟩]])

theorem masked_exact_write :
    ((run (Line.step 2) quiet maskedWrite).map fun s => s.port.sent.map Cell.byte) = some [65, 66, 67] ∧
      Along (Line.step 2) Line.Masked quiet maskedWrite ∧
        Always (Line.step 2) Line.Exact quiet maskedWrite := by
  have hrun : ((run (Line.step 2) quiet maskedWrite).map fun s => s.port.sent.map Cell.byte) =
      some [65, 66, 67] ∧ Along (Line.step 2) Line.Masked quiet maskedWrite := by
    decide +kernel
  exact ⟨hrun.1, hrun.2, masked_exact 2 _ _ _ _ _ _ _ hrun.2⟩

end CameraFw.Uart
