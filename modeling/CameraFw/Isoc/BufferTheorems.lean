import Mathlib
import CameraFw.Isoc.Buffers

/-!
# Each buffer is in one place

Where every link of a buffer outside of the lists is null, the buffers are shared out between the two
lists, the handler and the reader, and all operations keep them so. `pwc_reset_buffers` leaves a link at
the fill frame. It does no harm just if no reader comes between the first completed frame and the second
one.
-/

namespace CameraFw.Isoc

open CameraFw.Base

namespace Buffers

variable {n : Nat} {s s' : Buffers n} {f : Fin n} {xs ys : List (Fin n)}

/-! ## Buffers that are shared out -/

/-- The buffers are the fill frame `f`, the full frames `xs`, the empty ones `ys` and that of the reader. -/
structure Lists (s : Buffers n) (f : Fin n) (xs ys : List (Fin n)) : Prop where
  fill : s.fillFrame = some f
  full : s.full.Holds s.next xs
  empty : s.empty.Holds s.next ys
  once : (f :: s.readFrame.toList ++ xs ++ ys).Nodup
  all : ∀ i, i ∈ f :: s.readFrame.toList ++ xs ++ ys
  fillEnd : s.next f = none
  readEnd : ∀ r ∈ s.readFrame, s.next r = none

def Proper (s : Buffers n) : Prop := ∃ f xs ys, s.Lists f xs ys

theorem Lists.nodup_full (h : s.Lists f xs ys) : xs.Nodup := by
  have := h.once
  simp only [List.cons_append, List.nodup_cons, List.nodup_append] at this
  tauto

theorem Lists.nodup_empty (h : s.Lists f xs ys) : ys.Nodup := by
  have := h.once
  simp only [List.cons_append, List.nodup_cons, List.nodup_append] at this
  tauto

theorem Lists.disjoint (h : s.Lists f xs ys) : ∀ i ∈ ys, i ∉ xs := by
  intro i hy hx
  have := (List.nodup_append.mp h.once).2.2 i (by simp [hx]) i hy
  exact this rfl

theorem Lists.fill_not_mem (h : s.Lists f xs ys) : f ∉ xs ∧ f ∉ ys ∧ s.readFrame ≠ some f := by
  have := h.once
  simp only [List.cons_append, List.nodup_cons, List.mem_append, not_or] at this
  exact ⟨this.1.1.2, this.1.2, fun hr => this.1.1.1 (by simp [hr])⟩

theorem Lists.read_not_mem (h : s.Lists f xs ys) {r : Fin n} (hr : s.readFrame = some r) :
    r ∉ xs ∧ r ∉ ys := by
  have := h.once
  simp only [hr, Option.toList_some, List.cons_append, List.nil_append, List.nodup_cons, List.mem_cons,
    List.mem_append, not_or] at this
  exact this.2.1

/-- Buffers that change places. -/
theorem Lists.of_perm (h : s.Lists f xs ys) {f' : Fin n} {xs' ys' : List (Fin n)}
    (hperm : (f' :: s'.readFrame.toList ++ xs' ++ ys').Perm (f :: s.readFrame.toList ++ xs ++ ys))
    (hfill : s'.fillFrame = some f') (hfull : s'.full.Holds s'.next xs')
    (hempty : s'.empty.Holds s'.next ys') (hend : s'.next f' = none)
    (hread : ∀ r ∈ s'.readFrame, s'.next r = none) : s'.Lists f' xs' ys' :=
  ⟨hfill, hfull, hempty, hperm.nodup_iff.mpr h.once, fun i => hperm.mem_iff.mpr (h.all i), hend, hread⟩

/-! ## One operation -/

theorem step_write (hfill : s.fillFrame = some f) (v : Frame) :
    s.step (.write v) = some { s with fbuf := Function.update s.fbuf f v } := by
  rw [Buffers.step, hfill]
  rfl

theorem giveBack_of_read {q : Ends (Fin n)} {next : Fin n → Option (Fin n)} {r : Fin n}
    (hread : s.readFrame = some r) (happ : s.empty.append s.next r = some (q, next)) :
    s.giveBack = some { s with empty := q, next := next, readFrame := none } := by
  simp only [Buffers.giveBack, hread, happ, Option.bind_eq_bind, Option.bind_some]

theorem pwcNextFillFrame_of_empty {q : Ends (Fin n)} {next : Fin n → Option (Fin n)} {y : Fin n}
    (hfill : s.fillFrame = some f) (happ : s.full.append s.next f = some (q, next))
    (hhead : s.empty.head = some y) :
    s.pwcNextFillFrame = some (false, { s with
      full := q, empty := ⟨next y, s.empty.tail⟩, fillFrame := some y
      next := Function.update next y none }) := by
  simp only [pwcNextFillFrame, appendFill, hfill, happ, hhead, Option.bind_eq_bind, Option.bind_some]

theorem pwcNextFillFrame_of_full {q : Ends (Fin n)} {next : Fin n → Option (Fin n)} {x : Fin n}
    (hfill : s.fillFrame = some f) (happ : s.full.append s.next f = some (q, next))
    (hhead : s.empty.head = none) (hfirst : q.head = some x) :
    s.pwcNextFillFrame = some (true, { s with
      full := ⟨next x, q.tail⟩, fillFrame := some x, next := Function.update next x none }) := by
  simp only [pwcNextFillFrame, appendFill, hfill, happ, hhead, hfirst, Option.bind_eq_bind, Option.bind_some]

/-- The fill frame joins the full ones, and an empty one is next. -/
theorem Lists.nextFillFrame_cons {y : Fin n} (h : s.Lists f xs (y :: ys)) :
    ∃ s', s.pwcNextFillFrame = some (false, s') ∧ s'.fbuf = s.fbuf ∧ s'.readFrame = s.readFrame ∧
      s'.Lists y (xs ++ [f]) ys := by
  obtain ⟨q, next, happ, hfull, hframe⟩ := h.full.append h.nodup_full h.fill_not_mem.1 h.fillEnd
  have hempty : s.empty.Holds next (y :: ys) := h.empty.frame fun i hi => hframe i (h.disjoint i hi)
  have hhead : s.empty.head = some y := hempty.head_eq
  have hyf : f ≠ y := fun he => h.fill_not_mem.2.1 (by simp [he])
  refine ⟨_, pwcNextFillFrame_of_empty h.fill happ hhead, rfl, rfl, ?_⟩
  refine h.of_perm ?_ rfl (hfull.update ?_ none) (hempty.pop.update ?_ none) (Function.update_self ..) ?_
  · rw [List.perm_iff_count]
    intro i
    simp only [List.count_append, List.count_cons, List.count_nil]
    omega
  · simp only [List.mem_append, List.mem_singleton, not_or]
    exact ⟨h.disjoint y List.mem_cons_self, hyf.symm⟩
  · exact (List.nodup_cons.mp h.nodup_empty).1
  · intro r hr
    have hnot := h.read_not_mem hr
    have hry : r ≠ y := fun he => hnot.2 (by simp [he])
    exact (Function.update_of_ne hry _ _).trans ((hframe r hnot.1).trans (h.readEnd r hr))

/-- Without an empty one the oldest full frame is next. -/
theorem Lists.nextFillFrame_nil {x : Fin n} {xs' : List (Fin n)} (h : s.Lists f xs [])
    (hx : xs ++ [f] = x :: xs') :
    ∃ s', s.pwcNextFillFrame = some (true, s') ∧ s'.fbuf = s.fbuf ∧ s'.readFrame = s.readFrame ∧
      s'.Lists x xs' [] := by
  obtain ⟨q, next, happ, hfull, hframe⟩ := h.full.append h.nodup_full h.fill_not_mem.1 h.fillEnd
  have hhead : s.empty.head = none := h.empty.head_eq
  have hnodup : (xs ++ [f]).Nodup := List.concat_eq_append ▸ h.nodup_full.concat h.fill_not_mem.1
  rw [hx] at hfull hnodup
  have hfirst : q.head = some x := hfull.head_eq
  refine ⟨_, pwcNextFillFrame_of_full h.fill happ hhead hfirst, rfl, rfl, ?_⟩
  refine h.of_perm ?_ rfl (hfull.pop.update (List.nodup_cons.mp hnodup).1 none) (.nil_of_head hhead)
    (Function.update_self ..) ?_
  · have hmove : (x :: xs').Perm (f :: xs) := hx ▸ List.perm_append_comm
    rw [List.perm_iff_count] at hmove ⊢
    intro i
    have := hmove i
    simp only [List.count_append, List.count_cons, List.count_nil] at this ⊢
    omega
  · intro r hr
    have hnot := h.read_not_mem hr
    have hrx : r ≠ x := by
      rintro rfl
      have : r ∈ xs ++ [f] := hx ▸ List.mem_cons_self
      rcases List.mem_append.mp this with hm | hm
      · exact hnot.1 hm
      · exact h.fill_not_mem.2.2 (List.mem_singleton.mp hm ▸ hr)
    exact (Function.update_of_ne hrx _ _).trans ((hframe r hnot.1).trans (h.readEnd r hr))

theorem Lists.grab {x : Fin n} (h : s.Lists f (x :: xs) ys) (hread : s.readFrame = none) :
    s.grab.fbuf = s.fbuf ∧ s.grab.readFrame = some x ∧ s.grab.Lists f xs ys := by
  have hhead : s.full.head = some x := h.full.head_eq
  have hnd := List.nodup_cons.mp h.nodup_full
  have hx : x ∉ ys := fun hy => h.disjoint x hy List.mem_cons_self
  have hf : f ≠ x := fun he => h.fill_not_mem.1 (by simp [he])
  have hgrab : s.grab = { s with
      readFrame := some x, full := ⟨s.next x, s.full.tail⟩, next := Function.update s.next x none } := by
    simp only [Buffers.grab, hread, hhead]
  rw [hgrab]
  refine ⟨rfl, rfl, h.of_perm ?_ h.fill (h.full.pop.update hnd.1 none) (h.empty.update hx none) ?_ ?_⟩
  · rw [List.perm_iff_count]
    intro i
    simp only [hread, Option.toList_some, Option.toList_none, List.count_append, List.count_cons,
      List.count_nil]
    omega
  · exact (Function.update_of_ne hf _ _).trans h.fillEnd
  · rintro r ⟨⟩
    exact Function.update_self ..

theorem Lists.giveBack {r : Fin n} (h : s.Lists f xs ys) (hread : s.readFrame = some r) :
    ∃ s', s.giveBack = some s' ∧ s'.fbuf = s.fbuf ∧ s'.readFrame = none ∧ s'.Lists f xs (ys ++ [r]) := by
  have hnot := h.read_not_mem hread
  obtain ⟨q, next, happ, hempty, hframe⟩ := h.empty.append h.nodup_empty hnot.2 (h.readEnd r hread)
  refine ⟨_, giveBack_of_read hread happ, rfl, rfl,
      h.of_perm ?_ h.fill (h.full.frame fun i hi => hframe i fun hy => h.disjoint i hy hi) hempty
      ((hframe f h.fill_not_mem.2.1).trans h.fillEnd) nofun⟩
  rw [List.perm_iff_count]
  intro i
  simp only [hread, Option.toList_some, Option.toList_none, List.count_append, List.count_cons,
    List.count_nil]
  omega

/-! ## The lists of the device -/

/-- The device has the contents of the buffers. -/
structure Shows (s : Buffers n) (f : Fin n) (xs ys : List (Fin n)) (d : Dev) : Prop where
  fill : d.fillFrame = some (s.fbuf f)
  full : d.fullFrames = xs.map s.fbuf
  empty : d.emptyFrames = ys.map s.fbuf
  read : d.readFrame = s.readFrame.map s.fbuf

variable {d : Dev}

/-- The handler writes to no other frame. -/
theorem Shows.write (h : s.Shows f xs ys d) (hnot : f ∉ xs ∧ f ∉ ys ∧ s.readFrame ≠ some f) (g : Frame) :
    Shows { s with fbuf := Function.update s.fbuf f g } f xs ys { d with fillFrame := some g } := by
  have hmap : ∀ zs : List (Fin n), f ∉ zs → zs.map (Function.update s.fbuf f g) = zs.map s.fbuf :=
    fun zs hz =>
    List.map_congr_left fun i hi => Function.update_of_ne (ne_of_mem_of_not_mem hi hz) _ _
  refine ⟨by simp, h.full.trans (hmap xs hnot.1).symm, h.empty.trans (hmap ys hnot.2.1).symm, h.read.trans ?_⟩
  cases hr : s.readFrame with
  | none => rfl
  | some r =>
      have hne : r ≠ f := fun he => hnot.2.2 (he ▸ hr)
      simp [hne]

theorem Lists.write (h : s.Lists f xs ys) (b : Fin n → Frame) : Lists { s with fbuf := b } f xs ys :=
  ⟨h.fill, h.full, h.empty, h.once, h.all, h.fillEnd, h.readEnd⟩

/-- The places of the buffers and their contents. -/
def Represents (s : Buffers n) (d : Dev) : Prop := ∃ f xs ys, s.Lists f xs ys ∧ s.Shows f xs ys d

/-- The operation does to the links what it does to the lists, and the same frames go through. -/
def Follows (cfg : Config) (s : Buffers n) (d : Dev) (op : BufferOp) : Prop :=
  ∃ s', s.step op = some s' ∧ s'.Represents (d.op cfg op) ∧ s.flow op = d.flow op

theorem Lists.nextFillFrame_follows (cfg : Config) (hl : s.Lists f xs ys) (hs : s.Shows f xs ys d) :
    Follows cfg s d .nextFillFrame := by
  have hcomp : (s.fillFrame.map s.fbuf).toList = d.fillFrame.toList := by rw [hl.fill, hs.fill]; rfl
  cases ys with
  | cons y ys =>
      obtain ⟨s', hnext, hbuf, hread, hl'⟩ := hl.nextFillFrame_cons
      have hempty : d.emptyFrames = s.fbuf y :: ys.map s.fbuf := hs.empty
      refine ⟨s', by rw [Buffers.step, hnext]; rfl, ⟨y, xs ++ [f], ys, hl', ?_⟩, ?_⟩
      · simp only [Dev.op, Isoc.pwcNextFillFrame, hempty]
        exact ⟨by rw [hbuf], by rw [hs.full, hs.fill, hbuf]; simp, by rw [hbuf], by rw [hs.read, hread, hbuf]⟩
      · simp [Buffers.flow, Dev.flow, hnext, hempty, hcomp]
  | nil =>
      obtain ⟨x, xs', hx⟩ : ∃ x xs', xs ++ [f] = x :: xs' := List.exists_cons_of_ne_nil (by simp)
      obtain ⟨s', hnext, hbuf, hread, hl'⟩ := hl.nextFillFrame_nil hx
      have hempty : d.emptyFrames = [] := hs.empty
      have hfull : d.fullFrames ++ d.fillFrame.toList = s.fbuf x :: xs'.map s.fbuf := by
        rw [hs.full, hs.fill, Option.toList_some, ← List.map_singleton, ← List.map_append, hx, List.map_cons]
      refine ⟨s', by rw [Buffers.step, hnext]; rfl, ⟨x, xs', [], hl', ?_⟩, ?_⟩
      · simp only [Dev.op, Isoc.pwcNextFillFrame, hempty, hfull]
        exact ⟨by rw [hbuf]; rfl, by rw [hbuf]; rfl, rfl, by rw [hs.read, hread, hbuf]⟩
      · simp [Buffers.flow, Dev.flow, hnext, hempty, hcomp]

theorem Lists.grab_follows (cfg : Config) (hl : s.Lists f xs ys) (hs : s.Shows f xs ys d) :
    Follows cfg s d .grab := by
  have hread := hs.read
  have hhead := hl.full.head_eq
  cases hr : s.readFrame with
  | some r =>
      rw [hr] at hread
      have hgrab : s.grab = s := by simp only [Buffers.grab, hr]
      have hdev : d.op cfg .grab = d := by simp only [Dev.op, Dev.step, hread, Option.map_some]
      exact ⟨s, by rw [Buffers.step, hgrab], ⟨f, xs, ys, hl, by rw [hdev]; exact hs⟩,
        by simp [Buffers.flow, Dev.flow, hr, hread]⟩
  | none =>
      rw [hr] at hread
      cases xs with
      | nil =>
          have hfull : d.fullFrames = [] := hs.full
          have hgrab : s.grab = s := by simp only [Buffers.grab, hr, hhead, List.head?_nil]
          have hdev : d.op cfg .grab = d := by simp only [Dev.op, Dev.step, hread, hfull, Option.map_none]
          exact ⟨s, by rw [Buffers.step, hgrab], ⟨f, [], ys, hl, by rw [hdev]; exact hs⟩,
            by simp [Buffers.flow, Dev.flow, hr, hread, hhead, hfull]⟩
      | cons x xs =>
          obtain ⟨hbuf, hread', hl'⟩ := hl.grab hr
          have hfull : d.fullFrames = s.fbuf x :: xs.map s.fbuf := hs.full
          have hdev : d.op cfg .grab =
              { d with readFrame := some (s.fbuf x), fullFrames := xs.map s.fbuf } := by
            simp only [Dev.op, Dev.step, hread, hfull, Option.map_none]
          refine ⟨s.grab, rfl, ⟨f, xs, ys, hl', ?_⟩,
            by simp [Buffers.flow, Dev.flow, hr, hread, hhead, hfull]⟩
          rw [hdev]
          exact ⟨by rw [hbuf]; exact hs.fill, by rw [hbuf], by rw [hbuf]; exact hs.empty,
            by rw [hbuf, hread']; rfl⟩

theorem op_giveBack_of_none (cfg : Config) (h : d.readFrame = none) : d.op cfg .giveBack = d := by
  obtain ⟨_, _, _, _, _, _, _, read⟩ := d
  cases h
  simp [Dev.op, Dev.step]

theorem Lists.giveBack_follows (cfg : Config) (hl : s.Lists f xs ys) (hs : s.Shows f xs ys d) :
    Follows cfg s d .giveBack := by
  have hread := hs.read
  cases hr : s.readFrame with
  | none =>
      rw [hr] at hread
      exact ⟨s, by simp only [Buffers.step, Buffers.giveBack, hr],
        ⟨f, xs, ys, hl, by rw [op_giveBack_of_none cfg hread]; exact hs⟩, rfl⟩
  | some r =>
      obtain ⟨s', hgive, hbuf, hread', hl'⟩ := hl.giveBack hr
      refine ⟨s', by rw [Buffers.step, hgive], ⟨f, xs, ys ++ [r], hl', ?_⟩, rfl⟩
      refine ⟨by rw [hbuf]; exact hs.fill, by rw [hbuf]; exact hs.full, ?_, by rw [hread']; rfl⟩
      simp only [Dev.op, Dev.step, hs.empty, hread, hr, hbuf, Option.map_some, Option.toList_some,
        List.map_append, List.map_cons, List.map_nil]

theorem Represents.follows (cfg : Config) (h : s.Represents d) (op : BufferOp) : Follows cfg s d op := by
  obtain ⟨f, xs, ys, hl, hs⟩ := h
  cases op with
  | write g =>
      exact ⟨_, step_write hl.fill g, ⟨f, xs, ys, hl.write _, hs.write hl.fill_not_mem g⟩, rfl⟩
  | nextFillFrame => exact hl.nextFillFrame_follows cfg hs
  | grab => exact hl.grab_follows cfg hs
  | giveBack => exact hl.giveBack_follows cfg hs

/-! ## The link that is left -/

/-- Without the link of `g`. -/
def cut (s : Buffers n) (g : Fin n) : Buffers n := { s with next := Function.update s.next g none }

/-- Nothing is completed yet: but for the link of the fill frame to the next one all is well. -/
structure Fresh (s : Buffers n) (f y : Fin n) (ys : List (Fin n)) : Prop where
  lists : (s.cut f).Lists f [] (y :: ys)
  link : s.next f = some y
  read : s.readFrame = none

/-- One frame is completed, which is linked to the one that is being filled. -/
structure Window (s : Buffers n) (g f : Fin n) (ys : List (Fin n)) : Prop where
  lists : (s.cut g).Lists f [g] ys
  link : s.next g = some f
  read : s.readFrame = none

theorem Shows.cut (h : s.Shows f xs ys d) (g : Fin n) : (s.cut g).Shows f xs ys d :=
  ⟨h.fill, h.full, h.empty, h.read⟩

theorem Fresh.next {y : Fin n} (h : s.Fresh f y ys) :
    ∃ s', s.pwcNextFillFrame = some (false, s') ∧ s'.fbuf = s.fbuf ∧ s'.Window f y ys := by
  have hfill : s.fillFrame = some f := h.lists.fill
  have hfull : s.full.head = none := h.lists.full.head_eq
  have hempty : s.empty.head = some y := h.lists.empty.head_eq
  have hne : f ≠ y := fun he => h.lists.fill_not_mem.2.1 (by simp [he])
  have happ : s.full.append s.next f = some (⟨some f, some f⟩, s.next) := by simp only [Ends.append, hfull]
  have hcut : (s.cut f).full.append (s.cut f).next f = some (⟨some f, some f⟩, (s.cut f).next) := by
    simp only [Ends.append, Buffers.cut, hfull]
  obtain ⟨s', hnext, -, -, hl⟩ := h.lists.nextFillFrame_cons
  rw [pwcNextFillFrame_of_empty h.lists.fill hcut hempty] at hnext
  obtain ⟨rfl⟩ : _ = s' := (Prod.mk.inj (Option.some.inj hnext)).2
  refine ⟨_, pwcNextFillFrame_of_empty hfill happ hempty, rfl, ?_, ?_, h.read⟩
  · have heq : Function.update (Function.update s.next y none) f none =
        Function.update (Function.update s.next f none) y none :=
      Function.update_comm hne.symm ..
    have hlink : Function.update s.next f none y = s.next y := Function.update_of_ne hne.symm ..
    simpa only [Buffers.cut, heq, hlink, List.nil_append] using hl
  · exact (Function.update_of_ne hne _ _).trans h.link

/-- The next completion sets the link that is there already. -/
theorem Window.next {g : Fin n} (h : s.Window g f ys) : s.pwcNextFillFrame = (s.cut g).pwcNextFillFrame := by
  have hfill : s.fillFrame = some f := h.lists.fill
  have hhead : s.full.head = some g := h.lists.full.head_eq
  have htail : s.full.tail = some g := h.lists.full.last g rfl
  simp only [pwcNextFillFrame, appendFill, Buffers.cut, hfill, Ends.append, hhead, htail,
    Function.update_idem]

/-! ## From the reset on -/

/-- The buffers from `k` on downwards. -/
def descending (n : Nat) : (k : Nat) → k < n + 1 → List (Fin (n + 1))
  | 0, h => [⟨0, h⟩]
  | k + 1, h => ⟨k + 1, h⟩ :: descending n k (Nat.lt_of_succ_lt h)

theorem backwards_succ {n k : Nat} (h : k + 1 < n + 1) :
    backwards ⟨k + 1, h⟩ = some ⟨k, Nat.lt_of_succ_lt h⟩ := by
  rw [backwards, dif_neg (by simp [Fin.ext_iff])]
  rfl

theorem mem_descending {n : Nat} (i : Fin (n + 1)) : ∀ k h, i ∈ descending n k h ↔ i.val ≤ k
  | 0, h => by rw [descending, List.mem_singleton, Fin.ext_iff, Nat.le_zero]
  | k + 1, h => by
      simp only [descending, List.mem_cons, mem_descending i k, Fin.ext_iff]
      omega

theorem nodup_descending {n : Nat} : ∀ k h, (descending n k h).Nodup
  | 0, _ => List.nodup_singleton _
  | k + 1, h => by
      rw [descending, List.nodup_cons, mem_descending]
      exact ⟨by simp, nodup_descending k _⟩

theorem linked_descending {n : Nat} (f : Fin (n + 1)) : ∀ k h, k < f.val →
    Linked (Function.update backwards f none) (some ⟨k, h⟩) (descending n k h)
  | 0, h, hk => by
      refine .cons ?_
      rw [Function.update_of_ne (by simp only [ne_eq, Fin.ext_iff]; omega)]
      exact .nil
  | k + 1, h, hk => by
      refine .cons ?_
      rw [Function.update_of_ne (by simp only [ne_eq, Fin.ext_iff]; omega), backwards_succ]
      exact linked_descending f k _ (Nat.lt_of_succ_lt hk)

theorem getLast_descending {n : Nat} : ∀ k h, (descending n k h).getLast? = some 0
  | 0, _ => rfl
  | k + 1, h => by
      rw [descending, List.getLast?_cons, getLast_descending k]
      rfl

theorem descending_eq_cons {n k : Nat} (h : k < n + 1) : ∃ ys, descending n k h = ⟨k, h⟩ :: ys := by
  cases k with
  | zero => exact ⟨[], rfl⟩
  | succ k => exact ⟨_, rfl⟩

theorem fresh_reset {n : Nat} (s : Buffers (n + 2)) :
    ∃ ys, s.pwcResetBuffers.Fresh (Fin.last (n + 1)) ⟨n, by omega⟩ ys ∧
      descending (n + 1) n (by omega) = ⟨n, by omega⟩ :: ys := by
  obtain ⟨ys, hys⟩ := descending_eq_cons (n := n + 1) (k := n) (by omega)
  have hlast : backwards (Fin.last (n + 1)) = some ⟨n, by omega⟩ := backwards_succ (n := n + 1) (by omega)
  refine ⟨ys, ⟨⟨rfl, .nil_of_head rfl, ⟨?_, ?_⟩, ?_, ?_, Function.update_self .., nofun⟩, hlast, rfl⟩, hys⟩
  · rw [← hys]
    show Linked _ (backwards (Fin.last (n + 1))) _
    rw [hlast]
    exact linked_descending _ n _ (by simp)
  · rw [← hys, getLast_descending]
    rintro t ⟨⟩
    rfl
  · rw [← hys]
    show (Fin.last (n + 1) :: descending (n + 1) n _).Nodup
    rw [List.nodup_cons, mem_descending]
    exact ⟨by simp, nodup_descending n _⟩
  · intro i
    rw [← hys]
    show i ∈ Fin.last (n + 1) :: descending (n + 1) n _
    rw [List.mem_cons, mem_descending, Fin.ext_iff, Fin.val_last]
    omega

/-- The buffers as the device has them when it is opened. -/
def bufs {n : Nat} (s : Buffers (n + 1)) : List (Nat → UInt8) :=
  (descending n n n.lt_succ_self).map fun i => (s.fbuf i).data

/-- How the buffers and the lists stand after `k` completed frames. -/
inductive Phase : Nat → Buffers n → Dev → Prop where
  | fresh {s : Buffers n} {d : Dev} {f y : Fin n} {ys : List (Fin n)} :
      s.Fresh f y ys → s.Shows f [] (y :: ys) d → Phase 0 s d
  | window {s : Buffers n} {d : Dev} {g f : Fin n} {ys : List (Fin n)} :
      s.Window g f ys → s.Shows f [g] ys d → Phase 1 s d
  | shared {s : Buffers n} {d : Dev} {k : Nat} : s.Represents d → Phase (k + 2) s d

theorem phase_reset {n : Nat} (s : Buffers (n + 2)) (skipCount preframesize : Nat) :
    Phase 0 s.pwcResetBuffers (opened skipCount preframesize s.bufs) := by
  obtain ⟨ys, hf, hys⟩ := fresh_reset s
  have hbufs : s.bufs = (s.fbuf (Fin.last (n + 1))).data ::
      ((⟨n, by omega⟩ : Fin (n + 2)) :: ys).map fun i => (s.fbuf i).data := by
    rw [bufs, ← hys]
    rfl
  refine .fresh hf ⟨?_, rfl, ?_, rfl⟩
  · rw [opened, hbufs]
    rfl
  · rw [opened, hbufs]
    simp [pwcResetBuffers]

/-- A reader finds nothing. -/
theorem Fresh.idle {y : Fin n} (h : s.Fresh f y ys) : s.grab = s ∧ s.giveBack = some s := by
  have hfull : s.full.head = none := h.lists.full.head_eq
  exact ⟨by simp only [Buffers.grab, h.read, hfull], by simp only [Buffers.giveBack, h.read]⟩

theorem Fresh.write {y : Fin n} (h : s.Fresh f y ys) (b : Fin n → Frame) :
    Fresh { s with fbuf := b } f y ys :=
  ⟨h.lists.write b, h.link, h.read⟩

theorem Window.write {g : Fin n} (h : s.Window g f ys) (b : Fin n → Frame) :
    Window { s with fbuf := b } g f ys :=
  ⟨h.lists.write b, h.link, h.read⟩

theorem Phase.step {k : Nat} (cfg : Config) (h : Phase k s d) {op : BufferOp}
    (hop : k = 1 → op.isGrab = false) :
    ∃ s', s.step op = some s' ∧ Phase (k + op.completions) s' (d.op cfg op) ∧ s.flow op = d.flow op := by
  cases h with
  | @fresh _ _ f y ys hf hs =>
      have hfill : s.fillFrame = some f := hf.lists.fill
      have hfull : s.full.head = none := hf.lists.full.head_eq
      have hread : d.readFrame = none := by rw [hs.read, hf.read]; rfl
      cases op with
      | write g =>
          exact ⟨_, step_write hfill g, .fresh (hf.write _) (hs.write hf.lists.fill_not_mem g), rfl⟩
      | nextFillFrame =>
          obtain ⟨s', hnext, hbuf, hw⟩ := hf.next
          have hempty : d.emptyFrames = s.fbuf y :: ys.map s.fbuf := hs.empty
          refine ⟨s', by rw [Buffers.step, hnext]; rfl, .window hw ?_,
            by simp [Buffers.flow, Dev.flow, hnext, hfill, hs.fill, hempty]⟩
          simp only [Dev.op, Isoc.pwcNextFillFrame, hempty]
          exact ⟨by rw [hbuf], by rw [hs.full, hs.fill, hbuf]; rfl, by rw [hbuf], by rw [hread, hw.read]; rfl⟩
      | grab =>
          have hempty : d.fullFrames = [] := hs.full
          have hdev : d.op cfg .grab = d := by simp only [Dev.op, Dev.step, hread, hempty]
          exact ⟨s, by rw [Buffers.step, hf.idle.1], by rw [hdev]; exact .fresh hf hs,
            by simp [Buffers.flow, Dev.flow, hf.read, hread, hfull, hempty]⟩
      | giveBack => exact ⟨s, hf.idle.2, by rw [op_giveBack_of_none cfg hread]; exact .fresh hf hs, rfl⟩
  | @window _ _ g f ys hw hs =>
      have hfill : s.fillFrame = some f := hw.lists.fill
      have hread : d.readFrame = none := by rw [hs.read, hw.read]; rfl
      cases op with
      | write v =>
          exact ⟨_, step_write hfill v, .window (hw.write _) (hs.write hw.lists.fill_not_mem v), rfl⟩
      | nextFillFrame =>
          obtain ⟨s', hstep, hr, hflow⟩ := hw.lists.nextFillFrame_follows cfg (hs.cut g)
          have hstep' : s.step .nextFillFrame = some s' := by
            rw [← hstep, Buffers.step, Buffers.step, hw.next]
          exact ⟨s', hstep', .shared hr, by rw [← hflow]; simp only [Buffers.flow, hw.next]; rfl⟩
      | grab => cases hop rfl
      | giveBack =>
          exact ⟨s, by simp only [Buffers.step, Buffers.giveBack, hw.read],
            by rw [op_giveBack_of_none cfg hread]; exact .window hw hs, rfl⟩
  | @shared _ _ k hr =>
      obtain ⟨s', hstep, hr', hflow⟩ := hr.follows cfg op
      refine ⟨s', hstep, ?_, hflow⟩
      rw [show k + 2 + op.completions = k + op.completions + 2 by omega]
      exact .shared hr'

theorem Phase.read_ne_fill {k : Nat} (h : Phase k s d) {r : Fin n} (hr : s.readFrame = some r) :
    s.fillFrame ≠ some r := by
  cases h with
  | fresh hf _ => cases hr.symm.trans hf.read
  | window hw _ => cases hr.symm.trans hw.read
  | shared h =>
      obtain ⟨f, xs, ys, hl, -⟩ := h
      intro hf
      exact hl.fill_not_mem.2.2 (hr.trans (hf.symm.trans hl.fill))

theorem Phase.represents {k : Nat} (h : Phase k s d) (hk : 2 ≤ k) : s.Represents d := by
  cases h with
  | fresh => omega
  | window => omega
  | shared h => exact h

end Buffers

/-! ## The frames on their way -/

theorem completions_cons (op : BufferOp) (ops : List BufferOp) :
    completions (op :: ops) = op.completions + completions ops := by
  simp [completions]

namespace Traced

variable {n k : Nat} {t t' : Traced n} {d : Dev}

/-- What the readers have got and what waits for them is, in this order, a part of what was completed;
the rest was taken for want of an empty frame. -/
structure Sim (k : Nat) (t : Traced n) (d : Dev) : Prop where
  phase : Buffers.Phase k t.bufs d
  order : (t.grabbed ++ d.fullFrames).Sublist t.completed
  count : t.completed.length = t.grabbed.length + t.dumped + d.fullFrames.length

/-- What waits and what is completed is grabbed, dropped or waits now. -/
theorem flow_eq (cfg : Config) (op : BufferOp) (hfill : d.fillFrame ≠ none) :
    ∃ dropped, dropped.length = (d.flow op).dumps ∧
      d.fullFrames ++ (d.flow op).completes = (d.flow op).grabs ++ dropped ++ (d.op cfg op).fullFrames := by
  cases op with
  | write f => exact ⟨[], rfl, by simp [Dev.flow, Dev.op]⟩
  | giveBack => exact ⟨[], rfl, by simp [Dev.flow, Dev.op, Dev.step]⟩
  | nextFillFrame =>
      cases he : d.emptyFrames with
      | cons y ys => exact ⟨[], by simp [Dev.flow, he], by simp [Dev.flow, Dev.op, pwcNextFillFrame, he]⟩
      | nil =>
          obtain ⟨f, hf⟩ := Option.ne_none_iff_exists'.mp hfill
          obtain ⟨x, xs, hx⟩ : ∃ x xs, d.fullFrames ++ d.fillFrame.toList = x :: xs :=
            List.exists_cons_of_ne_nil (by simp [hf])
          exact ⟨[x], by simp [Dev.flow, he], by simp [Dev.flow, Dev.op, pwcNextFillFrame, he, hx]⟩
  | grab =>
      refine ⟨[], rfl, ?_⟩
      cases hr : d.readFrame with
      | some r => simp [Dev.flow, Dev.op, Dev.step, hr]
      | none =>
          cases hf : d.fullFrames with
          | nil => simp [Dev.flow, Dev.op, Dev.step, hr, hf]
          | cons f rest => simp [Dev.flow, Dev.op, Dev.step, hr, hf]

theorem Sim.fill (h : Sim k t d) : d.fillFrame ≠ none := by
  cases h.phase with
  | fresh _ hs => rw [hs.fill]; exact nofun
  | window _ hs => rw [hs.fill]; exact nofun
  | shared hr =>
      obtain ⟨_, _, _, _, hs⟩ := hr
      rw [hs.fill]
      exact nofun

theorem Sim.step (cfg : Config) (h : Sim k t d) {op : BufferOp} (hop : k = 1 → op.isGrab = false) :
    ∃ t', t.step op = some t' ∧ Sim (k + op.completions) t' (d.op cfg op) ∧
      t'.completed = t.completed ++ (d.flow op).completes := by
  obtain ⟨s', hstep, hphase, hflow⟩ := h.phase.step cfg hop
  obtain ⟨dropped, hlen, heq⟩ := flow_eq cfg op h.fill
  refine ⟨_, by rw [Traced.step, hstep]; rfl, ⟨hphase, ?_, ?_⟩, by rw [hflow]⟩
  · have hsub : ((d.flow op).grabs ++ (d.op cfg op).fullFrames).Sublist
        (d.fullFrames ++ (d.flow op).completes) := by
      rw [heq, List.append_assoc]
      exact (List.sublist_append_right _ _).append_left _
    show (t.grabbed ++ (t.bufs.flow op).grabs ++ _).Sublist (t.completed ++ (t.bufs.flow op).completes)
    rw [hflow, List.append_assoc]
    refine (hsub.append_left t.grabbed).trans ?_
    rw [← List.append_assoc]
    exact h.order.append_right _
  · have hcount := congrArg List.length heq
    have := h.count
    simp only [List.length_append] at hcount ⊢
    rw [hflow]
    omega

theorem Sim.run (cfg : Config) :
    ∀ {k : Nat} {t : Traced n} {d : Dev} (ops : List BufferOp), Sim k t d → Undisturbed k ops →
    ∃ t', Base.run Traced.step t ops = some t' ∧ Sim (k + completions ops) t' (ops.foldl (Dev.op cfg) d) ∧
      t'.completed = t.completed ++ completedBy cfg d ops
  | _, t, _, [], h, _ => ⟨t, rfl, h, (List.append_nil _).symm⟩
  | k, t, d, op :: ops, h, hu => by
      obtain ⟨t₁, hstep, h₁, hcomp⟩ := h.step cfg hu.1
      obtain ⟨t', hrun, h', hcomp'⟩ := Sim.run cfg ops h₁ hu.2
      refine ⟨t', by simp only [Base.run, hstep, hrun], ?_,
        by rw [hcomp', hcomp, completedBy, List.append_assoc]⟩
      rwa [completions_cons, ← Nat.add_assoc]

theorem sim_opened {n : Nat} (s : Buffers (n + 2)) (skipCount preframesize : Nat) :
    Sim 0 (.opened s) (Isoc.opened skipCount preframesize s.bufs) :=
  ⟨Buffers.phase_reset s _ _, by simp [Isoc.opened, Traced.opened], rfl⟩

end Traced

/-- As long as no reader comes between the first completed frame and the second one, and whatever is
done else: no null pointer is followed, the reader never has the frame that is being filled, and from
the second frame on the links are the lists of the device. -/
theorem buffers_refine (n : Nat) (s : Buffers (n + 2)) (cfg : Config) (skipCount preframesize : Nat)
    (ops : List BufferOp) (h : Undisturbed 0 ops) :
    ∃ t, run Traced.step (.opened s) ops = some t ∧
      (∀ r, t.bufs.readFrame = some r → t.bufs.fillFrame ≠ some r) ∧
      (2 ≤ completions ops → t.bufs.Represents (ops.foldl (Dev.op cfg)
        (opened skipCount preframesize s.bufs))) := by
  obtain ⟨t, hrun, hsim, -⟩ := Traced.Sim.run cfg ops (Traced.sim_opened s skipCount preframesize) h
  rw [Nat.zero_add] at hsim
  exact ⟨t, hrun, fun r hr => hsim.phase.read_ne_fill hr, hsim.phase.represents⟩

/-- Three buffers, and a reader that is slower than the camera. -/
def threeBuffers : Buffers 3 where
  fbuf := fun i => ⟨fun _ => i.val.toUInt8, 0⟩
  next := fun _ => none
  full := ⟨none, none⟩
  empty := ⟨none, none⟩
  fillFrame := none
  readFrame := none

def slowReader : List BufferOp :=
  [.nextFillFrame, .write ⟨fun _ => 7, 5⟩, .nextFillFrame, .grab, .nextFillFrame, .nextFillFrame,
    .giveBack, .grab]

theorem buffers_refine_slow_reader : Undisturbed 0 slowReader ∧
    ∃ t, run Traced.step (.opened threeBuffers) slowReader = some t ∧
      (∀ r, t.bufs.readFrame = some r → t.bufs.fillFrame ≠ some r) ∧
      (2 ≤ completions slowReader →
        t.bufs.Represents (slowReader.foldl (Dev.op ⟨800, 163840, by decide⟩)
          (opened 0 0 threeBuffers.bufs))) :=
  ⟨by decide, buffers_refine 1 threeBuffers _ 0 0 slowReader (by decide)⟩

/-- The readers get completed frames as they were when they were completed, in that order and none of
them twice; of the others, those that do not wait were taken for want of an empty frame. -/
theorem frames_in_order (n : Nat) (s : Buffers (n + 2)) (ops : List BufferOp) (h : Undisturbed 0 ops)
    (hops : 2 ≤ completions ops) :
    ∃ t xs, run Traced.step (.opened s) ops = some t ∧ t.bufs.full.Holds t.bufs.next xs ∧
      (t.grabbed ++ xs.map t.bufs.fbuf).Sublist t.completed ∧
        t.completed.length = t.grabbed.length + t.dumped + xs.length := by
  obtain ⟨t, hrun, hsim, -⟩ := Traced.Sim.run ⟨800, 0, by decide⟩ ops (Traced.sim_opened s 0 0) h
  rw [Nat.zero_add] at hsim
  obtain ⟨f, xs, ys, hl, hs⟩ := hsim.phase.represents hops
  refine ⟨t, xs, hrun, hl.full, ?_, ?_⟩
  · rw [← hs.full]
    exact hsim.order
  · rw [hsim.count, hs.full, List.length_map]

theorem frames_in_order_slow_reader : Undisturbed 0 slowReader ∧ completions slowReader = 4 ∧
    ∃ t xs, run Traced.step (.opened threeBuffers) slowReader = some t ∧ t.bufs.full.Holds t.bufs.next xs ∧
      (t.grabbed ++ xs.map t.bufs.fbuf).Sublist t.completed ∧
        t.completed.length = t.grabbed.length + t.dumped + xs.length :=
  ⟨by decide, by decide, frames_in_order 1 threeBuffers slowReader (by decide) (by decide)⟩

/-! ## A reader in between -/

namespace Buffers

variable {n : Nat} {s s' : Buffers n} {g f : Fin n} {ys : List (Fin n)} {d : Dev}

/-- What becomes of the first frame `g` and the fill frame `f` when a reader has come: the list of full
frames goes on from `g` to `f`, and the handler goes on filling it. -/
inductive Mixed (s : Buffers n) (g f : Fin n) (ys : List (Fin n)) : Prop where
  | reading : s.readFrame = some g → s.full = ⟨some f, some g⟩ → s.next g = none →
      s.empty.Holds s.next ys → Mixed s g f ys
  | done : s.readFrame = none → s.full = ⟨some f, some g⟩ → s.empty.Holds s.next (ys ++ [g]) → Mixed s g f ys
  -- the reader has the frame that is being filled
  | torn : s.readFrame = some f → s.full.head = none → s.empty.Holds s.next (ys ++ [g]) → Mixed s g f ys
  | doubled : s.readFrame = none → s.full.head = none → s.empty.Holds s.next (ys ++ [g] ++ [f]) →
      Mixed s g f ys

structure Disturbed (s : Buffers n) (g f : Fin n) (ys : List (Fin n)) : Prop where
  fill : s.fillFrame = some f
  fillEnd : s.next f = none
  once : (f :: g :: ys).Nodup
  mixed : s.Mixed g f ys

theorem Window.grab_eq (h : s.Window g f ys) : s.grab = { s with
    readFrame := some g, full := ⟨some f, some g⟩, next := Function.update s.next g none } := by
  have hhead : s.full.head = some g := h.lists.full.head_eq
  have htail : s.full.tail = some g := h.lists.full.last g rfl
  simp only [Buffers.grab, h.read, hhead, htail, h.link]

theorem Window.grab (h : s.Window g f ys) : s.grab.Disturbed g f ys := by
  have hread : (s.cut g).readFrame = none := h.read
  rw [h.grab_eq]
  refine ⟨h.lists.fill, h.lists.fillEnd, ?_, .reading rfl rfl (Function.update_self ..) h.lists.empty⟩
  simpa [hread] using h.lists.once

theorem Disturbed.nodup (h : s.Disturbed g f ys) : (ys ++ [g]).Nodup ∧ f ∉ ys ++ [g] := by
  have hperm : (f :: (ys ++ [g])).Perm (f :: g :: ys) := List.perm_append_comm.cons f
  have := List.nodup_cons.mp (hperm.nodup_iff.mpr h.once)
  exact ⟨this.2, this.1⟩

/-- It stays so until the next frame is completed. -/
theorem Disturbed.step (h : s.Disturbed g f ys) {op : BufferOp} (hop : op.completions = 0) :
    ∃ s', s.step op = some s' ∧ s'.Disturbed g f ys := by
  have hnd := h.nodup
  obtain ⟨hfill, hend, honce, hmix⟩ := h
  have hg : g ∉ ys := (List.nodup_cons.mp (List.nodup_cons.mp honce).2).1
  cases op with
  | nextFillFrame => cases hop
  | write v =>
      refine ⟨_, step_write hfill v, hfill, hend, honce, ?_⟩
      cases hmix with
      | reading h₁ h₂ h₃ h₄ => exact .reading h₁ h₂ h₃ h₄
      | done h₁ h₂ h₃ => exact .done h₁ h₂ h₃
      | torn h₁ h₂ h₃ => exact .torn h₁ h₂ h₃
      | doubled h₁ h₂ h₃ => exact .doubled h₁ h₂ h₃
  | grab =>
      refine ⟨s.grab, rfl, ?_⟩
      cases hmix with
      | reading h₁ h₂ h₃ h₄ =>
          have hsame : s.grab = s := by simp only [Buffers.grab, h₁]
          rw [hsame]
          exact ⟨hfill, hend, honce, .reading h₁ h₂ h₃ h₄⟩
      | done h₁ h₂ h₃ =>
          have hgrab : s.grab = { s with
              readFrame := some f, full := ⟨none, some g⟩, next := Function.update s.next f none } := by
            simp only [Buffers.grab, h₁, h₂, hend]
          rw [hgrab]
          exact ⟨hfill, Function.update_self .., honce, .torn rfl rfl (h₃.update hnd.2 none)⟩
      | torn h₁ h₂ h₃ =>
          have hsame : s.grab = s := by simp only [Buffers.grab, h₁]
          rw [hsame]
          exact ⟨hfill, hend, honce, .torn h₁ h₂ h₃⟩
      | doubled h₁ h₂ h₃ =>
          have hsame : s.grab = s := by simp only [Buffers.grab, h₁, h₂]
          rw [hsame]
          exact ⟨hfill, hend, honce, .doubled h₁ h₂ h₃⟩
  | giveBack =>
      cases hmix with
      | reading h₁ h₂ h₃ h₄ =>
          obtain ⟨q, next, happ, hempty, hframe⟩ := h₄.append (List.nodup_append.mp hnd.1).1 hg h₃
          have hf : f ∉ ys := fun hm => hnd.2 (List.mem_append_left _ hm)
          exact ⟨_, giveBack_of_read h₁ happ, hfill, (hframe f hf).trans hend, honce, .done rfl h₂ hempty⟩
      | done h₁ h₂ h₃ =>
          exact ⟨s, by simp only [Buffers.step, Buffers.giveBack, h₁], hfill, hend, honce, .done h₁ h₂ h₃⟩
      | torn h₁ h₂ h₃ =>
          obtain ⟨q, next, happ, hempty, hframe⟩ := h₃.append hnd.1 hnd.2 hend
          exact ⟨_, giveBack_of_read h₁ happ, hfill, (hframe f hnd.2).trans hend, honce,
            .doubled rfl h₂ hempty⟩
      | doubled h₁ h₂ h₃ =>
          exact ⟨s, by simp only [Buffers.step, Buffers.giveBack, h₁], hfill, hend, honce, .doubled h₁ h₂ h₃⟩

/-- A list of full frames of its own and one of empty frames have no frame in common. -/
theorem Proper.not_both (h : s.Proper) {xs ys : List (Fin n)} (hfull : Linked s.next s.full.head xs)
    (hempty : Linked s.next s.empty.head ys) : ∀ i ∈ ys, i ∉ xs := by
  obtain ⟨f, xs', ys', hl⟩ := h
  rw [hfull.unique hl.full.linked, hempty.unique hl.empty.linked]
  exact hl.disjoint

theorem Proper.not_read (h : s.Proper) {xs : List (Fin n)} (hfull : Linked s.next s.full.head xs) {r : Fin n}
    (hr : s.readFrame = some r) : r ∉ xs ∧ s.next r = none := by
  obtain ⟨f, xs', ys', hl⟩ := h
  rw [hfull.unique hl.full.linked]
  exact ⟨(hl.read_not_mem hr).1, hl.readEnd r hr⟩

/-- The next completed frame is in two places, or the reader's frame is linked to it. -/
theorem Disturbed.next (h : s.Disturbed g f ys) : ∃ b s', s.pwcNextFillFrame = some (b, s') ∧ ¬s'.Proper := by
  have hnd := h.nodup
  obtain ⟨hfill, hend, honce, hmix⟩ := h
  have hgf : g ≠ f := fun he => (List.nodup_cons.mp honce).1 (by simp [he])
  have hg : g ∉ ys := (List.nodup_cons.mp (List.nodup_cons.mp honce).2).1
  -- the frame at the head of the list of empty ones
  obtain ⟨z, zs, hz⟩ : ∃ z zs, ys ++ [g] = z :: zs := List.exists_cons_of_ne_nil (by simp)
  have hzf : f ≠ z := fun he => hnd.2 (by rw [hz, he]; exact List.mem_cons_self)
  have hzs : z ∉ zs := (List.nodup_cons.mp (hz ▸ hnd.1)).1
  have hzs' : z ∉ zs ++ [f] := by simp [hzs, hzf.symm]
  cases hmix with
  | reading h₁ h₂ h₃ h₄ =>
      have happ : s.full.append s.next f = some (⟨some f, some f⟩, Function.update s.next g (some f)) := by
        simp only [h₂, Ends.append]
      cases ys with
      | nil =>
          refine ⟨true, _, pwcNextFillFrame_of_full hfill happ h₄.head_eq rfl, fun hp => ?_⟩
          obtain ⟨_, _, _, hl⟩ := hp
          have := hl.readEnd g h₁
          simp only [Function.update_of_ne hgf, Function.update_self] at this
          cases this
      | cons y ys =>
          have hgy : g ≠ y := fun he => hg (by simp [he])
          refine ⟨false, _, pwcNextFillFrame_of_empty hfill happ h₄.head_eq, fun hp => ?_⟩
          obtain ⟨_, _, _, hl⟩ := hp
          have := hl.readEnd g h₁
          simp only [Function.update_of_ne hgy, Function.update_self] at this
          cases this
  | done h₁ h₂ h₃ =>
      have happ : s.full.append s.next f = some (⟨some f, some f⟩, Function.update s.next g (some f)) := by
        simp only [h₂, Ends.append]
      have hsingle : Linked s.next (some f) [f] := .cons (hend ▸ .nil)
      have hlong := h₃.linked.extend hnd.1 hsingle (by simpa using hgf)
      have hhead : s.empty.head = some z := h₃.head_eq.trans (by rw [hz]; rfl)
      rw [hz, List.cons_append, linked_cons_iff] at hlong
      refine ⟨false, _, pwcNextFillFrame_of_empty hfill happ hhead, fun hp => ?_⟩
      have hfull : Linked (Function.update (Function.update s.next g (some f)) z none) (some f) [f] := by
        refine .cons ?_
        rw [Function.update_of_ne hzf, Function.update_of_ne hgf.symm, hend]
        exact .nil
      exact hp.not_both hfull (hlong.2.update hzs' none) f (by simp) (by simp)
  | torn h₁ h₂ h₃ =>
      have happ : s.full.append s.next f = some (⟨some f, some f⟩, s.next) := by simp only [Ends.append, h₂]
      have hhead : s.empty.head = some z := h₃.head_eq.trans (by rw [hz]; rfl)
      refine ⟨false, _, pwcNextFillFrame_of_empty hfill happ hhead, fun hp => ?_⟩
      have hfull : Linked (Function.update s.next z none) (some f) [f] := by
        refine .cons ?_
        rw [Function.update_of_ne hzf, hend]
        exact .nil
      exact (hp.not_read hfull h₁).1 (by simp)
  | doubled h₁ h₂ h₃ =>
      have happ : s.full.append s.next f = some (⟨some f, some f⟩, s.next) := by simp only [Ends.append, h₂]
      have hhead : s.empty.head = some z := h₃.head_eq.trans (by rw [hz]; rfl)
      have hlong := h₃.linked
      rw [hz, List.cons_append, linked_cons_iff] at hlong
      refine ⟨false, _, pwcNextFillFrame_of_empty hfill happ hhead, fun hp => ?_⟩
      have hfull : Linked (Function.update s.next z none) (some f) [f] := by
        refine .cons ?_
        rw [Function.update_of_ne hzf, hend]
        exact .nil
      exact hp.not_both hfull (hlong.2.update hzs' none) f (by simp) (by simp)

theorem Disturbed.run : ∀ {s : Buffers n} (ops : List BufferOp), s.Disturbed g f ys → completions ops = 0 →
    ∃ s', Base.run Buffers.step s ops = some s' ∧ s'.Disturbed g f ys
  | s, [], h, _ => ⟨s, rfl, h⟩
  | s, op :: ops, h, hc => by
      rw [completions_cons] at hc
      obtain ⟨s₁, hstep, h₁⟩ := h.step (show op.completions = 0 by omega)
      obtain ⟨s', hrun, h'⟩ := Disturbed.run ops h₁ (by omega)
      exact ⟨s', by simp only [Base.run, hstep, hrun], h'⟩

/-- Until the second frame is completed: all is well, or a reader has come. -/
theorem Phase.run (cfg : Config) :
    ∀ {k : Nat} {s : Buffers n} {d : Dev} (ops : List BufferOp), Phase k s d → k + completions ops = 1 →
    ∃ s', Base.run Buffers.step s ops = some s' ∧
      ((Undisturbed k ops ∧ ∃ d', Phase 1 s' d') ∨ (¬Undisturbed k ops ∧ ∃ g f ys, s'.Disturbed g f ys))
  | k, s, d, [], h, hc => by
      obtain rfl : k = 1 := hc
      exact ⟨s, rfl, .inl ⟨trivial, d, h⟩⟩
  | k, s, d, op :: ops, h, hc => by
      rw [completions_cons] at hc
      by_cases hop : k = 1 → op.isGrab = false
      · obtain ⟨s₁, hstep, h₁, -⟩ := h.step cfg hop
        obtain ⟨s', hrun, h'⟩ := Phase.run cfg ops h₁ (by omega)
        refine ⟨s', by simp only [Base.run, hstep, hrun],
          h'.imp (fun hu => ⟨⟨hop, hu.1⟩, hu.2⟩) fun hu => ⟨fun hn => hu.1 hn.2, hu.2⟩⟩
      · obtain ⟨rfl, hgrab⟩ : k = 1 ∧ op.isGrab ≠ false := Classical.not_imp.mp hop
        cases op with
        | grab =>
            cases h with
            | window hw _ =>
                obtain ⟨s', hrun, hd⟩ := Disturbed.run ops hw.grab (by omega)
                refine ⟨s', by simp only [Base.run, Buffers.step, hrun],
                  .inr ⟨fun hn => hop hn.1, _, _, _, hd⟩⟩
        | _ => exact absurd rfl hgrab

theorem Window.proper_next (h : s.Window g f ys) : ∃ b s', s.pwcNextFillFrame = some (b, s') ∧ s'.Proper := by
  rw [h.next]
  cases ys with
  | cons y ys =>
      obtain ⟨s', hnext, -, -, hl⟩ := h.lists.nextFillFrame_cons
      exact ⟨false, s', hnext, _, _, _, hl⟩
  | nil =>
      obtain ⟨s', hnext, -, -, hl⟩ := h.lists.nextFillFrame_nil rfl
      exact ⟨true, s', hnext, _, _, _, hl⟩

theorem run_writes (hfill : s.fillFrame = some f) (vs : List Frame) :
    ∃ b, Base.run Buffers.step s (vs.map .write) = some { s with fbuf := b } := by
  induction vs generalizing s with
  | nil => exact ⟨s.fbuf, rfl⟩
  | cons v vs ih =>
      obtain ⟨b, hb⟩ := ih (s := { s with fbuf := Function.update s.fbuf f v }) hfill
      exact ⟨b, by simp only [List.map_cons, Base.run, step_write hfill, hb]⟩

/-- A reader that comes back before the second frame is completed finds the fill frame in the list. -/
theorem Window.again (h : s.Window g f ys) (b : Fin n → Frame) :
    ∃ s', Buffers.giveBack { s.grab with fbuf := b } = some s' ∧ s'.fillFrame = some f ∧
      ∀ b', (Buffers.grab { s' with fbuf := b' }).readFrame = some f ∧
        (Buffers.grab { s' with fbuf := b' }).fillFrame = some f := by
  have hg : g ∉ ys := (List.nodup_cons.mp (List.nodup_cons.mp h.grab.once).2).1
  obtain ⟨q, next, happ, -, -⟩ := h.lists.empty.append h.lists.nodup_empty hg (Function.update_self ..)
  rw [h.grab_eq]
  exact ⟨_, giveBack_of_read rfl happ, h.lists.fill, fun _ => ⟨rfl, h.lists.fill⟩⟩

end Buffers

/-- `pwc_reset_buffers` leaves the link of the fill frame: when the second frame is completed, each
buffer is in one place just if no reader has come since the first one. -/
theorem proper_iff_undisturbed (n : Nat) (s : Buffers (n + 2)) (ops : List BufferOp)
    (hops : completions ops = 1) :
    ∃ s', run Buffers.step s.pwcResetBuffers (ops ++ [.nextFillFrame]) = some s' ∧
      (s'.Proper ↔ Undisturbed 0 ops) := by
  obtain ⟨s₁, hrun, h⟩ := Buffers.Phase.run ⟨800, 0, by decide⟩ ops (Buffers.phase_reset s 0 0) (by omega)
  have hlast : ∀ {b s'}, s₁.pwcNextFillFrame = some (b, s') →
      run Buffers.step s.pwcResetBuffers (ops ++ [.nextFillFrame]) = some s' := by
    intro b s' hnext
    rw [run_append, hrun]
    simp only [Option.bind_some, run, Buffers.step, hnext, Option.map_some]
  rcases h with ⟨hu, d, hphase⟩ | ⟨hu, g, f, ys, hd⟩
  · cases hphase with
    | window hw _ =>
        obtain ⟨b, s', hnext, hproper⟩ := hw.proper_next
        exact ⟨s', hlast hnext, iff_of_true hproper hu⟩
  · obtain ⟨b, s', hnext, hproper⟩ := hd.next
    exact ⟨s', hlast hnext, iff_of_false hproper hu⟩

/-- A reader that waits for each frame. -/
theorem proper_iff_undisturbed_eager_reader :
    completions [.nextFillFrame, .grab, .giveBack] = 1 ∧ ¬Undisturbed 0 [.nextFillFrame, .grab, .giveBack] ∧
      ∃ s', run Buffers.step threeBuffers.pwcResetBuffers
        ([.nextFillFrame, .grab, .giveBack] ++ [.nextFillFrame]) = some s' ∧
        (s'.Proper ↔ Undisturbed 0 [.nextFillFrame, .grab, .giveBack]) :=
  ⟨by decide, by decide, proper_iff_undisturbed 1 threeBuffers _ (by decide)⟩

/-- Whatever the handler writes in the meantime: a reader that takes the first frame, gives it back and
comes again before the second one is completed gets the buffer that is being filled. -/
theorem second_grab_gets_fill_frame (n : Nat) (s : Buffers (n + 2)) (vs₁ vs₂ vs₃ vs₄ : List Frame) :
    ∃ s' f, run Buffers.step s.pwcResetBuffers (vs₁.map .write ++ (.nextFillFrame :: (vs₂.map .write ++
        (.grab :: (vs₃.map .write ++ (.giveBack :: (vs₄.map .write ++ [.grab]))))))) = some s' ∧
      s'.fillFrame = some f ∧ s'.readFrame = some f := by
  obtain ⟨ys, hfresh, -⟩ := Buffers.fresh_reset s
  obtain ⟨b₁, h₁⟩ := Buffers.run_writes (s := s.pwcResetBuffers) rfl vs₁
  obtain ⟨s₁, hnext, -, hw⟩ := (hfresh.write b₁).next
  obtain ⟨b₂, h₂⟩ := Buffers.run_writes (s := s₁) hw.lists.fill vs₂
  have hgrab := (hw.write b₂).grab
  obtain ⟨b₃, h₃⟩ := Buffers.run_writes hgrab.fill vs₃
  obtain ⟨s₂, hgive, hfill, hagain⟩ := (hw.write b₂).again b₃
  obtain ⟨b₄, h₄⟩ := Buffers.run_writes hfill vs₄
  refine ⟨_, _, ?_, (hagain b₄).2, (hagain b₄).1⟩
  simp only [run_append, h₁, Option.bind_some, run, Buffers.step, hnext, Option.map_some, h₂, h₃, hgive, h₄]

end CameraFw.Isoc
