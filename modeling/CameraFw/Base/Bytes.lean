import Mathlib

/-!
# Byte buffers

A buffer is the list of its bytes. `load` and `store` are the copies in and out of a buffer, `le` and
`toLE` the little-endian reading and writing of an unsigned number. Nothing here depends on a particular
program.
-/

namespace CameraFw.Base

/-- The `n` bytes of `m` from offset `off`; fewer where the buffer ends. -/
def load (m : List UInt8) (off n : Nat) : List UInt8 := (m.drop off).take n

/-- `m` with `bs` copied over it from offset `off`. -/
def store (m : List UInt8) (off : Nat) (bs : List UInt8) : List UInt8 :=
  m.take off ++ bs ++ m.drop (off + bs.length)

/-- The number that `bs` spells with its lowest byte first. -/
def le : List UInt8 → Nat
  | [] => 0
  | b :: bs => b.toNat + 256 * le bs

def toLE : Nat → Nat → List UInt8
  | 0, _ => []
  | n + 1, v => UInt8.ofNat v :: toLE n (v / 256)

/-! ## Loads -/

theorem length_load {m off n} (h : off + n ≤ m.length) : (load m off n).length = n := by
  simp only [load, List.length_take, List.length_drop]; omega

@[simp] theorem length_toLE (n v : Nat) : (toLE n v).length = n := by
  induction n generalizing v with
  | zero => rfl
  | succ n ih => simp [toLE, ih]

theorem load_congr {a b : List UInt8} {k off n} (h : a.take k = b.take k) (hk : off + n ≤ k) :
    load a off n = load b off n := by
  have hcut : ∀ m : List UInt8, load m off n = load (m.take k) off n := by
    intro m
    simp only [load, List.drop_take, List.take_take, Nat.min_eq_left (show n ≤ k - off by omega)]
  rw [hcut a, hcut b, h]

theorem load_append_left {a b : List UInt8} {off n} (h : off + n ≤ a.length) :
    load (a ++ b) off n = load a off n := by
  simp only [load]
  rw [List.drop_append_of_le_length (by omega), List.take_append_of_le_length (by simp; omega)]

theorem load_append_right {a b : List UInt8} {off n} (h : a.length ≤ off) :
    load (a ++ b) off n = load b (off - a.length) n := by
  simp only [load, List.drop_append, List.drop_eq_nil_of_le h, List.nil_append]

theorem load_append_mid {a b c : List UInt8} : load (a ++ (b ++ c)) a.length b.length = b := by
  rw [load_append_right (Nat.le_refl _)]
  simp [load]

theorem load_drop (m : List UInt8) (p off n : Nat) : load (m.drop p) off n = load m (p + off) n := by
  simp only [load, List.drop_drop]

/-! ## Stores -/

theorem length_store {m off bs} (h : off + bs.length ≤ m.length) : (store m off bs).length = m.length := by
  simp only [store, List.length_append, List.length_take, List.length_drop]; omega

theorem load_store_same {m : List UInt8} {off bs n} (h : off ≤ m.length) (hn : n = bs.length) :
    load (store m off bs) off n = bs := by
  subst hn
  have hl : (m.take off).length = off := by simp; omega
  have := load_append_mid (a := m.take off) (b := bs) (c := m.drop (off + bs.length))
  rwa [hl, ← List.append_assoc] at this

theorem load_store_below {m : List UInt8} {off bs o n} (h : off ≤ m.length) (hd : o + n ≤ off) :
    load (store m off bs) o n = load m o n := by
  have hl : (m.take off).length = off := by simp; omega
  rw [store, List.append_assoc, load_append_left (by omega)]
  exact load_congr (by simp) hd

theorem load_store_above {m : List UInt8} {off bs o n} (h : off ≤ m.length) (hd : off + bs.length ≤ o) :
    load (store m off bs) o n = load m o n := by
  have hl : (m.take off ++ bs).length = off + bs.length := by simp; omega
  rw [store, load_append_right (by omega), load_drop, hl]
  congr 1; omega

theorem take_store_prefix {m : List UInt8} {off} (bs : List UInt8) (h : off ≤ m.length) :
    (store m off bs).take (off + bs.length) = m.take off ++ bs := by
  have hl : (m.take off ++ bs).length = off + bs.length := by simp; omega
  rw [store, ← hl, List.take_left]

theorem store_zero (m bs : List UInt8) : store m 0 bs = bs ++ m.drop bs.length := by simp [store]

theorem store_append {a b c bs : List UInt8} (h : bs.length = b.length) :
    store (a ++ (b ++ c)) a.length bs = a ++ (bs ++ c) := by
  rw [store, List.take_left, h, List.append_assoc, ← List.append_assoc a b, ← List.length_append,
    List.drop_left]

/-! ## One byte -/

theorem load_set_of_le {m : List UInt8} {i off : Nat} (n : Nat) (b : UInt8) (h : off ≤ i) :
    load (m.set i b) off n = (load m off n).set (i - off) b := by
  rw [load, load, List.drop_set, if_neg (by omega), List.take_set]

theorem load_set_of_lt {m : List UInt8} {i off : Nat} (n : Nat) (b : UInt8) (h : i < off) :
    load (m.set i b) off n = load m off n := by
  rw [load, load, List.drop_set, if_pos h]

theorem load_set_above {m : List UInt8} {i off n : Nat} (b : UInt8) (h : off + n ≤ i) :
    load (m.set i b) off n = load m off n := by
  rw [load_set_of_le n b (by omega), List.set_eq_of_length_le]
  simp only [load, List.length_take]
  omega

theorem store_set_above {m bs : List UInt8} {i off : Nat} (b : UInt8) (hm : off + bs.length ≤ m.length)
    (h : off + bs.length ≤ i) : store (m.set i b) off bs = (store m off bs).set i b := by
  have hlen : (m.take off ++ bs).length = off + bs.length := by simp; omega
  rw [store, store, List.set_append, if_neg (by omega), hlen, List.drop_set, if_neg (by omega),
    List.take_set, List.set_eq_of_length_le (by simp; omega)]

/-! ## Numbers -/

theorem le_toLE (n v : Nat) : le (toLE n v) = v % 256 ^ n := by
  induction n generalizing v with
  | zero => simp [toLE, le, Nat.mod_one]
  | succ n ih =>
      have hb : (UInt8.ofNat v).toNat = v % 256 := UInt8.toNat_ofNat'
      simp only [toLE, le, ih, hb]
      exact (Nat.pow_succ' (m := 256) ▸ Nat.mod_mul).symm

theorem le_append (a b : List UInt8) : le (a ++ b) = le a + 256 ^ a.length * le b := by
  induction a with
  | nil => simp [le]
  | cons x a ih => rw [List.cons_append, le, ih, le, List.length_cons, Nat.pow_succ']; ring

theorem load_add (m : List UInt8) (off a b : Nat) :
    load m off (a + b) = load m off a ++ load m (off + a) b := by
  simp only [load, List.take_add, List.drop_drop]

def le16 (m : List UInt8) (off : Nat) : Nat := le (load m off 2)
def le32 (m : List UInt8) (off : Nat) : Nat := le (load m off 4)
def le64 (m : List UInt8) (off : Nat) : Nat := le (load m off 8)

/-- A 64-bit number as two 32-bit words. -/
theorem le64_eq {m : List UInt8} {off : Nat} (h : off + 4 ≤ m.length) :
    le64 m off = le32 m off + 2 ^ 32 * le32 m (off + 4) := by
  rw [le64, le32, le32, show 8 = 4 + 4 from rfl, load_add, le_append, length_load h,
    show 256 ^ 4 = 2 ^ 32 from rfl]

/-! ## Fields -/

structure Field where
  off : Nat
  width : Nat
  value : Nat

/-- `m` after the fields `fs` have been set in their order. -/
def storeFields (m : List UInt8) (fs : List Field) : List UInt8 :=
  fs.foldl (fun m f => store m f.off (toLE f.width f.value)) m

def Field.Apart (o n : Nat) (f : Field) : Prop := o + n ≤ f.off ∨ f.off + f.width ≤ o

def Field.In (len : Nat) (f : Field) : Prop := f.off + f.width ≤ len

theorem length_storeField {m : List UInt8} {f : Field} (h : f.In m.length) :
    (store m f.off (toLE f.width f.value)).length = m.length :=
  length_store (by rw [length_toLE]; exact h)

theorem length_storeFields {fs : List Field} : ∀ {m}, (∀ f ∈ fs, f.In m.length) →
    (storeFields m fs).length = m.length := by
  induction fs with
  | nil => intro m _; rfl
  | cons f fs ih =>
      intro m h
      have hf := length_storeField (h f (by simp))
      exact (ih fun x hx => hf.symm ▸ h x (by simp [hx])).trans hf

theorem load_storeFields_apart {fs : List Field} {o n : Nat} : ∀ {m}, (∀ f ∈ fs, f.In m.length) →
    (∀ f ∈ fs, f.Apart o n) → load (storeFields m fs) o n = load m o n := by
  induction fs with
  | nil => intro m _ _; rfl
  | cons f fs ih =>
      intro m h ha
      have hin : f.off + f.width ≤ m.length := h f (by simp)
      have hf := length_storeField (h f (by simp))
      refine (ih (fun x hx => hf.symm ▸ h x (by simp [hx])) fun x hx => ha x (by simp [hx])).trans ?_
      rcases ha f (by simp) with hd | hd
      · exact load_store_below (by omega) hd
      · exact load_store_above (by omega) (by rw [length_toLE]; exact hd)

/-- Of fields that lie apart from each other, each is read as it was set. -/
theorem load_storeFields_mem {fs : List Field} {f : Field} : ∀ {m}, (∀ f ∈ fs, f.In m.length) →
    fs.Pairwise (fun x y => y.Apart x.off x.width) → f ∈ fs →
    load (storeFields m fs) f.off f.width = toLE f.width f.value := by
  induction fs with
  | nil => intro m _ _ hf; cases hf
  | cons x fs ih =>
      intro m h hapart hf
      obtain ⟨hx, hapart⟩ := List.pairwise_cons.mp hapart
      have hlen := length_storeField (h x (by simp))
      have hfs : ∀ y ∈ fs, y.In (store m x.off (toLE x.width x.value)).length :=
        fun y hy => hlen.symm ▸ h y (by simp [hy])
      rcases List.mem_cons.mp hf with rfl | hf
      · have hin : f.off + f.width ≤ m.length := h f (by simp)
        exact (load_storeFields_apart hfs hx).trans (load_store_same (by omega) (length_toLE _ _).symm)
      · exact ih hfs hapart hf

end CameraFw.Base
