import CameraFw.Uart.Transmit

/-!
# Every byte once and in order

Whatever masks interrupts keeps the ring and the register in step. `uart_write` does not mask them while
it transmits, and so each of its two stores is right only if what it has read before is still true.
-/

namespace CameraFw.Uart

open CameraFw.Base

variable {fifo : Nat} {p p' : Port} {s : Line}

/-! ## Bytes into the ring -/

/-- The accepted bytes are numbered from 0 on. -/
def Port.Numbered (p : Port) : Prop := p.accepted.map Cell.seq = List.range p.accepted.length

theorem Port.Numbered.nodup (h : p.Numbered) : p.accepted.Nodup :=
  List.Nodup.of_map Cell.seq (h ▸ List.nodup_range)

/-- Some bytes have been taken into the ring. -/
structure Accepts (p p' : Port) (cs : List Cell) : Prop where
  accepted : p'.accepted = p.accepted ++ cs
  contents : p'.xmit.contents = p.xmit.contents ++ cs
  tail : p'.xmit.tail = p.xmit.tail
  sent : p'.sent = p.sent
  numbered : p.Numbered → p'.Numbered

theorem Accepts.none (hx : p'.xmit = p.xmit) (ha : p'.accepted = p.accepted) (hs : p'.sent = p.sent) :
    Accepts p p' [] where
  accepted := by rw [ha, List.append_nil]
  contents := by rw [hx, List.append_nil]
  tail := by rw [hx]
  sent := hs
  numbered := by
    intro h
    rw [Port.Numbered, ha]
    exact h

theorem Accepts.trans {p'' : Port} {cs ds : List Cell} (h : Accepts p p' cs) (h' : Accepts p' p'' ds) :
    Accepts p p'' (cs ++ ds) where
  accepted := by rw [h'.accepted, h.accepted, List.append_assoc]
  contents := by rw [h'.contents, h.contents, List.append_assoc]
  tail := h'.tail.trans h.tail
  sent := h'.sent.trans h.sent
  numbered := fun hn => h'.numbered (h.numbered hn)

theorem Port.length_number (p : Port) (bs : List UInt8) : (p.number bs).length = bs.length :=
  List.length_mapIdx

theorem Port.map_seq_number (p : Port) (bs : List UInt8) :
    (p.number bs).map Cell.seq = (List.range bs.length).map fun i => p.accepted.length + i := by
  refine List.ext_getElem? fun i => ?_
  simp only [Port.number, List.getElem?_map, List.getElem?_mapIdx, Option.map_map]
  by_cases hi : i < bs.length
  · simp [hi]
  · simp [hi]

theorem Port.accept_accepts (p : Port) {bs : List UInt8} (h : bs.length ≤ p.spaceToEnd) :
    Accepts p (p.accept bs) (p.number bs) where
  accepted := rfl
  contents := p.xmit.contents_copyIn (by rw [Port.length_number]; exact h)
  tail := rfl
  sent := rfl
  numbered := by
    intro hn
    show (p.accepted ++ p.number bs).map Cell.seq = List.range (p.accepted ++ p.number bs).length
    rw [List.map_append, hn, Port.map_seq_number, List.length_append, Port.length_number, List.range_add]

theorem uartPutChar_accepts (ch : UInt8) (p : Port) : ∃ cs, Accepts p (uartPutChar ch p) cs := by
  unfold uartPutChar
  split_ifs with h
  · exact ⟨[], .none rfl rfl rfl⟩
  · exact ⟨_, p.accept_accepts (Ring.spaceToEnd_pos p.xmit.head_lt p.xmit.tail_lt h)⟩

theorem fillRing_accepts (p : Port) (buf : List UInt8) : ∃ cs, Accepts p (fillRing p buf) cs := by
  fun_induction fillRing p buf with
  | case1 p buf c hc => exact ⟨[], .none rfl rfl rfl⟩
  | case2 p buf c hc ih =>
      obtain ⟨ds, hds⟩ := ih
      exact ⟨_, (p.accept_accepts (by rw [List.length_take]; omega)).trans hds⟩

/-! ## Bytes out of the ring -/

/-- The first bytes of the ring have been sent. -/
structure Sends (p p' : Port) (k : Nat) : Prop where
  le : k ≤ p.xmit.contents.length
  sent : p'.sent = p.sent ++ p.xmit.contents.take k
  contents : p'.xmit.contents = p.xmit.contents.drop k
  accepted : p'.accepted = p.accepted

theorem Sends.none (hx : p'.xmit = p.xmit) (ha : p'.accepted = p.accepted) (hs : p'.sent = p.sent) :
    Sends p p' 0 where
  le := Nat.zero_le _
  sent := by rw [hs, List.take_zero, List.append_nil]
  contents := by rw [hx, List.drop_zero]
  accepted := ha

theorem Sends.trans {p'' : Port} {k l : Nat} (h : Sends p p' k) (h' : Sends p' p'' l) :
    Sends p p'' (k + l) where
  le := by
    have := h.le
    have hle := h'.le
    rw [h.contents, List.length_drop] at hle
    omega
  sent := by rw [h'.sent, h.sent, h.contents, List.take_add, List.append_assoc]
  contents := by rw [h'.contents, h.contents, List.drop_drop]
  accepted := h'.accepted.trans h.accepted

theorem Port.sendByte_sends (h : p.xmit.head ≠ p.xmit.tail) : Sends p p.sendByte 1 := by
  have hhead := p.xmit.head?_contents h
  have hcontents := p.xmit.contents_advance h
  cases hc : p.xmit.contents with
  | nil => simp [hc] at hhead
  | cons c cs =>
      rw [hc, List.getElem?_cons_zero, Option.some.injEq] at hhead
      refine ⟨by simp [hc], ?_, hcontents, rfl⟩
      simp [Port.sendByte, hc, hhead]

theorem drain_sends (busy : List Bool) (count : Nat) (h : p.xmit.head ≠ p.xmit.tail) :
    ∃ k, Sends p (drain busy count p) k := by
  induction busy generalizing count p with
  | nil => exact ⟨0, .none rfl rfl rfl⟩
  | cons b busy ih =>
      cases b with
      | true => exact ⟨0, .none rfl rfl rfl⟩
      | false =>
          have hone := Port.sendByte_sends h
          rw [drain]
          split_ifs with hempty hcount
          · exact ⟨1, hone⟩
          · obtain ⟨k, hk⟩ := ih (count - 1) hempty
            exact ⟨1 + k, hone.trans hk⟩
          · exact ⟨1, hone⟩

theorem transmitChars_sends (fifo : Nat) (busy : List Bool) (p : Port) :
    ∃ k, Sends p (transmitChars fifo busy p) k := by
  unfold transmitChars
  split_ifs with hx hstop
  · split
    · exact ⟨0, .none rfl rfl rfl⟩
    · exact ⟨0, .none rfl rfl rfl⟩
  · exact ⟨0, .none rfl rfl rfl⟩
  · obtain ⟨k, hk⟩ := drain_sends busy fifo fun h => hstop (.inl h)
    dsimp only
    split_ifs
    · exact ⟨k, hk.le, hk.sent, hk.contents, hk.accepted⟩
    · exact ⟨k, hk⟩

theorem uartStart_sends (fifo : Nat) (busy : List Bool) (p : Port) :
    ∃ k, Sends p (uartStart fifo busy p) k := by
  unfold uartStart
  split_ifs with h
  · obtain ⟨k, hk⟩ := transmitChars_sends fifo busy { p with thri := true }
    exact ⟨k, hk.le, hk.sent, hk.contents, hk.accepted⟩
  · exact ⟨0, .none rfl rfl rfl⟩

theorem uartInterrupt_sends (fifo n : Nat) (rounds : List Round) (p : Port) :
    ∃ k, Sends p (uartInterrupt fifo n rounds p) k := by
  induction rounds generalizing n p with
  | nil => exact ⟨0, .none rfl rfl rfl⟩
  | cons r rs ih =>
      have hround : ∃ k, Sends p (if r.ti then transmitChars fifo r.busy p else p) k := by
        split_ifs
        · exact transmitChars_sends fifo r.busy p
        · exact ⟨0, .none rfl rfl rfl⟩
      obtain ⟨k, hk⟩ := hround
      rw [uartInterrupt]
      generalize (if r.ti then transmitChars fifo r.busy p else p) = q at hk
      split_ifs
      · exact ⟨k, hk⟩
      · obtain ⟨l, hl⟩ := ih (n + 1) q
        exact ⟨k + l, hk.trans hl⟩
      · exact ⟨k, hk⟩

/-! ## Masked steps -/

theorem Line.Exact.contents_nodup (h : s.Exact) (hn : s.port.Numbered) : s.port.xmit.contents.Nodup :=
  hn.nodup.sublist h.ring.sublist

/-- Taking bytes in keeps everything. -/
theorem Line.Exact.accepts {s' : Line} {cs : List Cell} (h : s.Exact) (ha : Accepts s.port s'.port cs)
    (hu : s'.underway = s.underway) : s'.Exact where
  ring := by
    rw [ha.contents, ha.accepted]
    obtain ⟨before, hb⟩ := h.ring
    exact ⟨before, by rw [← hb, List.append_assoc]⟩
  underway := by
    have := h.underway
    rw [hu, ha.contents, List.length_append]
    omega
  order := by
    rw [hu, ha.contents, ha.sent, ha.accepted, List.drop_append_of_le_length h.underway,
      ← List.append_assoc, h.order]

/-- Sending under a mask is right just if nobody's byte is underway. -/
theorem Line.Exact.sends_iff {s' : Line} {k : Nat} (h : s.Exact) (hn : s.port.Numbered)
    (hs : Sends s.port s'.port k) (hu : s'.underway = s.underway) :
    s'.Exact ↔ s'.port.sent = s.port.sent ∨ s.underway = 0 := by
  constructor
  · intro h'
    rcases Nat.eq_zero_or_pos k with rfl | hk
    · exact .inl (by rw [hs.sent, List.take_zero, List.append_nil])
    · right
      have horder := h'.order
      rw [hu, hs.sent, hs.contents, hs.accepted, ← h.order, List.append_assoc,
        List.append_cancel_left_eq] at horder
      -- the first byte of the ring is the next one
      have hle := hs.le
      have hfirst := congrArg (·[0]?) horder
      simp only [List.getElem?_drop, Nat.add_zero] at hfirst
      rw [List.getElem?_append_left (by rw [List.length_take]; omega), List.getElem?_take_of_lt hk,
        List.getElem?_eq_getElem (by omega)] at hfirst
      obtain ⟨hlt, heq⟩ := List.getElem?_eq_some_iff.mp hfirst.symm
      exact (h.contents_nodup hn).getElem_inj_iff.mp heq
  · rintro (hsent | hzero)
    · have htake : s.port.xmit.contents.take k = [] := by
        rw [hs.sent] at hsent
        exact List.append_right_eq_self.mp hsent
      have hcontents : s'.port.xmit.contents = s.port.xmit.contents := by
        rw [hs.contents]
        conv_rhs => rw [← List.take_append_drop k s.port.xmit.contents, htake, List.nil_append]
      exact ⟨by rw [hcontents, hs.accepted]; exact h.ring, by rw [hu, hcontents]; exact h.underway,
        by rw [hu, hcontents, hsent, hs.accepted]; exact h.order⟩
    · have horder := h.order
      rw [hzero, List.drop_zero] at horder
      refine ⟨?_, by omega, ?_⟩
      · rw [hs.contents, hs.accepted]
        exact (List.drop_suffix k _).trans h.ring
      · rw [hu, hzero, List.drop_zero, hs.sent, hs.contents, hs.accepted, List.append_assoc,
          List.take_append_drop, horder]

/-! ## Single accesses -/

/-- The two accesses that change what the others see of the ring and the register. -/
def Pos.stores : Pos → Bool
  | .write _ _ => true
  | .storeTail _ _ => true
  | _ => false

/-- The other accesses of `uart_write` at most take bytes in. -/
theorem Pos.step_accepts {w w' : Pos} {a : Answer} (hw : w.stores = false)
    (h : w.step fifo a p = some (p', w')) :
    (∃ cs, Accepts p p' cs) ∧ w'.underway = w.underway := by
  cases w with
  | write | storeTail => cases hw
  | done => cases h
  | insert buf c =>
      cases h
      exact ⟨⟨_, p.accept_accepts (by rw [List.length_take]; omega)⟩, rfl⟩
  | fill buf =>
      cases h
      exact ⟨fillRing_accepts p buf, rfl⟩
  | _ =>
      cases h
      refine ⟨⟨[], .none rfl rfl rfl⟩, ?_⟩
      first | rfl | (split_ifs <;> rfl)

theorem countP_set_add {q : Pos → Bool} {ws : List Pos} {i : Nat} {w : Pos} (h : ws[i]? = some w) (w' : Pos) :
    (ws.set i w').countP q + (if q w then 1 else 0) = ws.countP q + (if q w' then 1 else 0) := by
  obtain ⟨hi, rfl⟩ := List.getElem?_eq_some_iff.mp h
  have := List.boole_getElem_le_countP (p := q) hi
  rw [List.countP_set hi]
  omega

/-- The byte that is written must be the next one. -/
theorem Line.Exact.write_iff {s' : Line} {c : Cell} (h : s.Exact) (hx : s'.port.xmit = s.port.xmit)
    (ha : s'.port.accepted = s.port.accepted) (hs : s'.port.sent = s.port.sent ++ [c])
    (hu : s'.underway = s.underway + 1) :
    s'.Exact ↔ s.port.xmit.contents[s.underway]? = some c := by
  constructor
  · intro h'
    have horder := h'.order
    rw [hu, hx, hs, ha, ← h.order, List.append_assoc, List.append_cancel_left_eq] at horder
    have hfirst := congrArg (·[0]?) horder
    simpa only [List.getElem?_drop, List.cons_append, List.getElem?_cons_zero, Nat.add_zero] using hfirst.symm
  · intro hc
    obtain ⟨hlt, heq⟩ := List.getElem?_eq_some_iff.mp hc
    refine ⟨by rw [hx, ha]; exact h.ring, by rw [hu, hx]; exact hlt, ?_⟩
    rw [hu, hx, hs, ha, ← h.order, List.append_assoc, List.append_cancel_left_eq,
      List.drop_eq_getElem_cons hlt, heq]
    rfl

/-- The tail that is moved on must be the tail. -/
theorem Line.Exact.storeTail_iff {s' : Line} {t : Fin serialXmitSize} (h : s.Exact)
    (hx : s'.port.xmit = s.port.xmit.advance t) (ha : s'.port.accepted = s.port.accepted)
    (hs : s'.port.sent = s.port.sent) (hu : s'.underway + 1 = s.underway) :
    s'.Exact ↔ t = s.port.xmit.tail := by
  have hle := h.underway
  have hlen := s.port.xmit.length_contents
  constructor
  · intro h'
    have hle' := h'.underway
    have horder := congrArg List.length ((h'.order.trans ha).trans h.order.symm)
    simp only [hs, hx, List.length_append, List.length_drop, Ring.length_contents] at horder hle'
    exact s.port.xmit.count_advance_eq t.isLt (by omega)
  · intro ht
    have hne : s.port.xmit.head ≠ s.port.xmit.tail := by
      rw [Ne, ← s.port.xmit.count_eq_zero]
      omega
    have hcontents : s'.port.xmit.contents = s.port.xmit.contents.drop 1 := by
      rw [hx, ht]
      exact s.port.xmit.contents_advance hne
    refine ⟨?_, ?_, ?_⟩
    · rw [hcontents, ha]
      exact (List.drop_suffix 1 _).trans h.ring
    · rw [hcontents, List.length_drop]
      omega
    · rw [hcontents, List.drop_drop, Nat.add_comm 1, hu, hs, ha]
      exact h.order

/-! ## Whole runs -/

theorem Line.Exact.turn_iff {i : Nat} {a : Answer} {t : Line} (h : s.Exact)
    (hstep : s.step fifo (.turn i a) = some t) :
    t.Exact ↔ s.Orderly fifo (.turn i a) := by
  cases hw : s.writers[i]? with
  | none => simp [Line.step, hw] at hstep
  | some w =>
      simp only [Line.step, hw, Option.map_eq_some_iff] at hstep
      obtain ⟨⟨q, w'⟩, hpos, rfl⟩ := hstep
      by_cases hst : w.stores = true
      · cases w with
        | write count c =>
            cases hpos
            simp only [Line.Orderly, hw]
            exact h.write_iff rfl rfl rfl (countP_set_add (q := Pos.underway) hw _)
        | storeTail count tail =>
            cases hpos
            simp only [Line.Orderly, hw]
            exact h.storeTail_iff rfl rfl rfl (countP_set_add (q := Pos.underway) hw _)
        | _ => cases hst
      · obtain ⟨⟨cs, hcs⟩, hsame⟩ := Pos.step_accepts (by simpa using hst) hpos
        have hu := countP_set_add (q := Pos.underway) hw w'
        rw [hsame] at hu
        have hexact : (Line.mk q (s.writers.set i w')).Exact := h.accepts hcs (Nat.add_right_cancel hu)
        have hfree : s.Orderly fifo (.turn i a) := by
          simp only [Line.Orderly, hw]
          cases w <;> trivial
        exact ⟨fun _ => hfree, fun _ => hexact⟩

theorem Line.Exact.step_iff {e : Event} {t : Line} (h : s.Exact) (hn : s.port.Numbered)
    (hstep : s.step fifo e = some t) :
    t.Exact ↔ s.Orderly fifo e := by
  cases e with
  | turn i a => exact h.turn_iff hstep
  | call fromUser buf =>
      cases hstep
      have hu : (Line.mk s.port (s.writers ++ [if fromUser then .room buf else .fill buf])).underway =
          s.underway := by
        simp only [Line.underway, List.countP_append]
        cases fromUser <;> rfl
      exact ⟨fun _ => trivial, fun _ => h.accepts (.none rfl rfl rfl) hu⟩
  | putChar ch =>
      cases hstep
      obtain ⟨cs, hcs⟩ := uartPutChar_accepts ch s.port
      exact ⟨fun _ => trivial, fun _ => h.accepts hcs rfl⟩
  | start busy =>
      cases hstep
      obtain ⟨k, hk⟩ := uartStart_sends fifo busy s.port
      exact h.sends_iff hn hk rfl
  | interrupt rounds =>
      cases hstep
      obtain ⟨k, hk⟩ := uartInterrupt_sends fifo 0 rounds s.port
      exact h.sends_iff hn hk rfl
  | flags xChar thri stopped hwStopped =>
      cases hstep
      exact ⟨fun _ => trivial, fun _ => h.accepts (.none rfl rfl rfl) rfl⟩

theorem Port.Numbered.of_sends {k : Nat} (hn : p.Numbered) (h : Sends p p' k) : p'.Numbered := by
  rw [Port.Numbered, h.accepted]
  exact hn

theorem Line.numbered_step {e : Event} {t : Line} (hn : s.port.Numbered)
    (hstep : s.step fifo e = some t) : t.port.Numbered := by
  cases e with
  | turn i a =>
      cases hw : s.writers[i]? with
      | none => simp [Line.step, hw] at hstep
      | some w =>
          simp only [Line.step, hw, Option.map_eq_some_iff] at hstep
          obtain ⟨⟨q, w'⟩, hpos, rfl⟩ := hstep
          by_cases hst : w.stores = true
          · cases w with
            | write | storeTail =>
                cases hpos
                exact hn
            | _ => cases hst
          · obtain ⟨⟨cs, hcs⟩, _⟩ := Pos.step_accepts (by simpa using hst) hpos
            exact hcs.numbered hn
  | call | flags =>
      cases hstep
      exact hn
  | putChar ch =>
      cases hstep
      obtain ⟨cs, hcs⟩ := uartPutChar_accepts ch s.port
      exact hcs.numbered hn
  | start busy =>
      cases hstep
      obtain ⟨k, hk⟩ := uartStart_sends fifo busy s.port
      exact hn.of_sends hk
  | interrupt rounds =>
      cases hstep
      obtain ⟨k, hk⟩ := uartInterrupt_sends fifo 0 rounds s.port
      exact hn.of_sends hk

theorem Line.idle_exact (buf : Nat → Cell) (pos : Fin serialXmitSize) (xChar : UInt8)
    (thri stopped hwStopped : Bool) :
    (Line.idle buf pos xChar thri stopped hwStopped).Exact := by
  have hempty : (Line.idle buf pos xChar thri stopped hwStopped).port.xmit.contents = [] :=
    (Ring.contents_eq_nil _).mpr rfl
  refine ⟨?_, Nat.zero_le _, ?_⟩
  · rw [hempty]
    exact List.nil_suffix
  · rw [hempty, List.drop_nil]
    rfl

def quiet : Line := Line.idle (fun _ => ⟨0, 0⟩) ⟨0, by decide⟩ 0 false false false

/-- `uart_write` takes in three bytes and puts the first one into the register. The interrupt that comes
then sends it again, and the tail that `uart_write` reads only now is moved over a byte that nobody has
sent. -/
def interruptedWrite : List Event :=
  .call true [65, 66, 67] :: (List.replicate 21 (.turn 0 ⟨0, false⟩) ++
    (.interrupt [⟨true, false, [false, true]⟩, ⟨false, false, []⟩] :: List.replicate 2 (.turn 0 ⟨0, false⟩)))

theorem interruptedWrite_repeats :
    ((run (Line.step 2) quiet interruptedWrite).map fun s =>
      (s.port.accepted.map Cell.byte, s.port.sent.map Cell.byte, s.port.xmit.contents.map Cell.byte)) =
        some ([65, 66, 67], [65, 65], [67]) ∧
    ¬Always (Line.step 2) Line.Exact quiet interruptedWrite := by
  have hrun : ((run (Line.step 2) quiet interruptedWrite).map fun s =>
      (s.port.accepted.map Cell.byte, s.port.sent.map Cell.byte, s.port.xmit.contents.map Cell.byte)) =
        some ([65, 66, 67], [65, 65], [67]) := by
    decide +kernel
  refine ⟨hrun, fun h => ?_⟩
  obtain ⟨t, ht, hbytes⟩ := Option.map_eq_some_iff.mp hrun
  rw [Prod.mk.injEq, Prod.mk.injEq] at hbytes
  have horder := congrArg (List.map Cell.byte) (h.last ht).order
  rw [List.map_append, hbytes.1, hbytes.2.1] at horder
  simp at horder

end CameraFw.Uart
