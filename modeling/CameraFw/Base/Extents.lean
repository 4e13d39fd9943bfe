import Mathlib

/-!
# Copies made in pieces

A copy between two memories whose `w`-bit addresses wrap, as the list of the pieces it was made in. What
it did to an address of the destination is the list of the addresses that were copied there. Offsets are
counted from a base address, round the end of the memory.
-/

namespace CameraFw.Base

structure Extent (w : Nat) where
  dst : BitVec w
  src : BitVec w
  n : Nat
  deriving DecidableEq, Repr

variable {w : Nat}

def Extent.Covers (e : Extent w) (a : BitVec w) : Prop := (a - e.dst).toNat < e.n

instance (e : Extent w) (a : BitVec w) : Decidable (e.Covers a) := inferInstanceAs (Decidable (_ < _))

/-- The addresses that were copied to `a`, one for each piece that covers it, in their order. -/
def sources (log : List (Extent w)) (a : BitVec w) : List (BitVec w) :=
  (log.filter fun e => e.Covers a).map fun e => e.src + (a - e.dst)

theorem sources_cons (e : Extent w) (log : List (Extent w)) (a : BitVec w) :
    sources (e :: log) a = (if e.Covers a then [e.src + (a - e.dst)] else []) ++ sources log a := by
  by_cases h : e.Covers a <;> simp [sources, h]

theorem sources_append (log more : List (Extent w)) (a : BitVec w) :
    sources (log ++ more) a = sources log a ++ sources more a := by
  simp [sources]

theorem sources_ne_nil {log : List (Extent w)} {e : Extent w} {a : BitVec w} (he : e ∈ log)
    (ha : e.Covers a) :
    sources log a ≠ [] := by
  simp only [sources, ne_eq, List.map_eq_nil_iff, List.filter_eq_nil_iff]
  intro h
  exact h e he (by simpa using ha)

theorem toNat_sub_add {a b d : BitVec w} (h : (b - d).toNat + (a - b).toNat < 2 ^ w) :
    (a - d).toNat = (b - d).toNat + (a - b).toNat := by
  have hsum : a - d = (b - d) + (a - b) := by ring
  rw [hsum, BitVec.toNat_add, Nat.mod_eq_of_lt h]

theorem toNat_add_ofNat_sub {k : Nat} (d : BitVec w) (h : k < 2 ^ w) :
    (d + BitVec.ofNat w k - d).toNat = k := by
  rw [add_sub_cancel_left, BitVec.toNat_ofNat, Nat.mod_eq_of_lt h]

/-! ## Pieces between two offsets -/

/-- Every piece lies between the offsets `lo` and `hi` from `d`. -/
def Spans (log : List (Extent w)) (d : BitVec w) (lo hi : Nat) : Prop :=
  ∀ e ∈ log, e.n = 0 ∨ lo ≤ (e.dst - d).toNat ∧ (e.dst - d).toNat + e.n ≤ hi

theorem Spans.sources_eq_nil {log : List (Extent w)} {d a : BitVec w} {lo hi : Nat} (h : Spans log d lo hi)
    (hhi : hi ≤ 2 ^ w) (ha : (a - d).toNat < lo ∨ hi ≤ (a - d).toNat) : sources log a = [] := by
  simp only [sources, List.map_eq_nil_iff, List.filter_eq_nil_iff]
  intro e he hdec
  have hcov : (a - e.dst).toNat < e.n := of_decide_eq_true hdec
  rcases h e he with h0 | ⟨hlo, hle⟩
  · omega
  · have hadd : (a - d).toNat = (e.dst - d).toNat + (a - e.dst).toNat := toNat_sub_add (by omega)
    omega

theorem Spans.mono {log : List (Extent w)} {d : BitVec w} {lo hi lo' hi' : Nat}
    (h : Spans log d lo hi) (hlo : lo' ≤ lo) (hhi : hi ≤ hi') : Spans log d lo' hi' :=
  fun e he => (h e he).imp_right fun hin => ⟨hlo.trans hin.1, hin.2.trans hhi⟩

theorem Spans.cons {e : Extent w} {log : List (Extent w)} {hi : Nat} (hn : e.n ≤ hi)
    (h : Spans log e.dst 0 hi) :
    Spans (e :: log) e.dst 0 hi := by
  intro f hf
  rcases List.mem_cons.mp hf with rfl | hf
  · exact .inr ⟨Nat.zero_le _, by simpa using hn⟩
  · exact h f hf

theorem Spans.shift {log : List (Extent w)} {d : BitVec w} {k n : Nat}
    (h : Spans log (d + BitVec.ofNat w k) 0 n) (hk : k + n ≤ 2 ^ w) : Spans log d k (k + n) := by
  intro e he
  rcases h e he with h0 | ⟨_, hle⟩
  · exact .inl h0
  · rcases Nat.eq_zero_or_pos e.n with h0 | hpos
    · exact .inl h0
    · have hd : (d + BitVec.ofNat w k - d).toNat = k := toNat_add_ofNat_sub d (by omega)
      have hadd : (e.dst - d).toNat = k + (e.dst - (d + BitVec.ofNat w k)).toNat := by
        rw [toNat_sub_add (b := d + BitVec.ofNat w k) (by omega), hd]
      exact .inr ⟨by omega, by omega⟩

/-! ## Pieces end to end -/

/-- The pieces lie end to end, from `d` and `s` on, and have `n` bytes together. -/
def Tiles : List (Extent w) → BitVec w → BitVec w → Nat → Prop
  | [], _, _, n => n = 0
  | e :: log, d, s, n =>
      e.dst = d ∧ e.src = s ∧ e.n ≤ n ∧ Tiles log (d + BitVec.ofNat w e.n) (s + BitVec.ofNat w e.n) (n - e.n)

theorem Tiles.append {log more : List (Extent w)} {d s : BitVec w} {m n : Nat} (h : Tiles log d s m)
    (h' : Tiles more (d + BitVec.ofNat w m) (s + BitVec.ofNat w m) n) : Tiles (log ++ more) d s (m + n) := by
  induction log generalizing d s m with
  | nil =>
      cases h
      simpa using h'
  | cons e log ih =>
      obtain ⟨hd, hs, hle, htail⟩ := h
      have hsplit (x : BitVec w) : x + BitVec.ofNat w m =
          x + BitVec.ofNat w e.n + BitVec.ofNat w (m - e.n) := by
        rw [add_assoc, ← BitVec.ofNat_add, Nat.add_sub_cancel' hle]
      rw [hsplit d, hsplit s] at h'
      have hrest := ih htail h'
      refine ⟨hd, hs, by omega, ?_⟩
      rwa [show m + n - e.n = m - e.n + n by omega]

theorem Tiles.spans {log : List (Extent w)} {d s : BitVec w} {n : Nat} (h : Tiles log d s n)
    (hn : n ≤ 2 ^ w) :
    Spans log d 0 n := by
  induction log generalizing d s n with
  | nil => intro e he; cases he
  | cons e log ih =>
      obtain ⟨rfl, _, hle, htail⟩ := h
      have hrest := (ih htail (by omega)).shift (by omega)
      exact .cons hle (hrest.mono (Nat.zero_le _) (by omega))

/-- Pieces end to end copy each address of their range once, and no other. -/
theorem Tiles.sources {log : List (Extent w)} {d s : BitVec w} {n : Nat} (h : Tiles log d s n)
    (hn : n ≤ 2 ^ w) (a : BitVec w) :
    sources log a = if (a - d).toNat < n then [s + (a - d)] else [] := by
  induction log generalizing d s n with
  | nil => cases h; simp [Base.sources]
  | cons e log ih =>
      obtain ⟨rfl, rfl, hle, htail⟩ := h
      rw [sources_cons]
      by_cases hcov : e.Covers a
      · have hoff : (a - e.dst).toNat < e.n := hcov
        -- the rest lies behind the first piece, and there is no room to come round
        have hrest := (htail.spans (by omega)).shift (by omega)
        rw [hrest.sources_eq_nil (by omega) (.inl hoff), if_pos hcov, if_pos (by omega), List.append_nil]
      · have hge : e.n ≤ (a - e.dst).toNat := Nat.le_of_not_lt hcov
        have hlt : e.n < 2 ^ w := by have := (a - e.dst).isLt; omega
        have hoff : (a - (e.dst + BitVec.ofNat w e.n)).toNat = (a - e.dst).toNat - e.n := by
          rw [← sub_sub, BitVec.toNat_sub_of_le, BitVec.toNat_ofNat, Nat.mod_eq_of_lt hlt]
          rw [BitVec.le_def, BitVec.toNat_ofNat, Nat.mod_eq_of_lt hlt]
          omega
        have hsrc : e.src + BitVec.ofNat w e.n + (a - (e.dst + BitVec.ofNat w e.n)) =
          e.src + (a - e.dst) := by ring
        rw [if_neg hcov, List.nil_append, ih htail (by omega), hoff, hsrc]
        by_cases hin : (a - e.dst).toNat < n
        · rw [if_pos (by omega), if_pos hin]
        · rw [if_neg (by omega), if_neg hin]

end CameraFw.Base
