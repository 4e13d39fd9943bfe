import CameraFw.Base.Bytes

/-!
# One's complement sums

The sum of the 16-bit words of a buffer, and its reduction to one word with the carries added back in.
The sum is the number that the buffer spells modulo 65535, since 65536 is 1 there. Nothing here depends
on a particular program.
-/

namespace CameraFw.Base

/-- The sum of the words of the buffer, lowest byte first; a byte that is left over is a word of its own. -/
def wordSum : List UInt8 → Nat
  | [] => 0
  | [a] => a.toNat
  | a :: b :: bs => a.toNat + 256 * b.toNat + wordSum bs

/-- The carries out of the low 16 bits are added to them, twice. -/
def endAround (s : Nat) : Nat := (s / 65536 + s % 65536 + (s / 65536 + s % 65536) / 65536) % 65536

/-! ## The sum -/

theorem wordSum_le (bs : List UInt8) : wordSum bs ≤ 65535 * ((bs.length + 1) / 2) := by
  fun_induction wordSum with
  | case1 => simp
  | case2 a =>
      have := a.toNat_lt
      simp only [List.length_singleton]
      omega
  | case3 a b bs ih =>
      have := a.toNat_lt
      have := b.toNat_lt
      simp only [List.length_cons]
      omega

theorem wordSum_append {a : List UInt8} (b : List UInt8) (h : a.length % 2 = 0) :
    wordSum (a ++ b) = wordSum a + wordSum b := by
  fun_induction wordSum a with
  | case1 => simp
  | case2 x => simp at h
  | case3 x y a ih =>
      simp only [List.cons_append, wordSum]
      rw [ih (by simp only [List.length_cons] at h; omega)]
      omega

theorem wordSum_modEq (bs : List UInt8) : wordSum bs ≡ le bs [MOD 65535] := by
  fun_induction wordSum with
  | case1 => exact rfl
  | case2 a => exact rfl
  | case3 a b bs ih =>
      have h : 65536 * le bs ≡ 1 * le bs [MOD 65535] := Nat.ModEq.mul_right _ (by decide)
      calc a.toNat + 256 * b.toNat + wordSum bs
          ≡ a.toNat + 256 * b.toNat + le bs [MOD 65535] := Nat.ModEq.add_left _ ih
        _ ≡ a.toNat + 256 * b.toNat + 65536 * le bs [MOD 65535] :=
          Nat.ModEq.add_left _ (by simpa using h.symm)
        _ = le (a :: b :: bs) := by simp only [le]; ring

theorem wordSum_toLE (v : Nat) : wordSum (toLE 2 v) = v % 65536 := by
  have h := le_toLE 2 v
  simp only [toLE, le, wordSum] at h ⊢
  omega

/-- A word between whole words. -/
theorem wordSum_append_toLE {a : List UInt8} (v : Nat) (c : List UInt8) (h : a.length % 2 = 0) :
    wordSum (a ++ (toLE 2 v ++ c)) = wordSum a + (v % 65536 + wordSum c) := by
  rw [wordSum_append _ h, wordSum_append _ (by simp), wordSum_toLE]

/-- A changed byte changes the sum modulo 65535: it counts for a power of 256, which is prime to it. -/
theorem wordSum_set_ne {m : List UInt8} {i : Nat} {b : UInt8} (hi : i < m.length) (hb : m[i] ≠ b) :
    ¬ wordSum (m.set i b) ≡ wordSum m [MOD 65535] := by
  intro h
  have hpow : Nat.Coprime 65535 (256 ^ i) := Nat.Coprime.pow_right i (by decide)
  have hlen : (m.take i).length = i := by simp; omega
  have hset : le (m.set i b) = le (m.take i) + 256 ^ i * (b.toNat + 256 * le (m.drop (i + 1))) := by
    rw [List.set_eq_take_append_cons_drop, if_pos hi, le_append, hlen, le]
  have hm : le m = le (m.take i) + 256 ^ i * (m[i].toNat + 256 * le (m.drop (i + 1))) := by
    conv_lhs => rw [← List.take_append_drop i m, List.drop_eq_getElem_cons hi]
    rw [le_append, hlen, le]
  have hle : le (m.set i b) ≡ le m [MOD 65535] :=
    ((wordSum_modEq _).symm.trans h).trans (wordSum_modEq _)
  rw [hset, hm] at hle
  have hbyte := Nat.ModEq.add_right_cancel' _
    (Nat.ModEq.cancel_left_of_coprime hpow (Nat.ModEq.add_left_cancel' _ hle))
  have h1 := b.toNat_lt
  have h2 := (m[i]).toNat_lt
  have heq : b.toNat = m[i].toNat := Nat.ModEq.eq_of_lt_of_lt hbyte (by omega) (by omega)
  exact hb (UInt8.toNat_inj.mp heq.symm)

/-! ## The reduction -/

theorem endAround_of_pos {s : Nat} (h0 : 0 < s) (h : s < 2 ^ 32) : endAround s = (s - 1) % 65535 + 1 := by
  obtain ⟨q, r, hr, rfl⟩ : ∃ q r, r < 65536 ∧ s = 65536 * q + r :=
    ⟨s / 65536, s % 65536, Nat.mod_lt _ (by decide), (Nat.div_add_mod s 65536).symm⟩
  have hdiv : (65536 * q + r) / 65536 = q := by omega
  have hmod : (65536 * q + r) % 65536 = r := by omega
  have hone : 65536 * q + r - 1 = 65535 * q + (q + r - 1) := by omega
  rw [endAround, hdiv, hmod, hone, Nat.mul_add_mod]
  clear hdiv hmod hone
  by_cases hc : q + r < 65536
  · rw [Nat.div_eq_of_lt hc]
    omega
  · rw [show (q + r) / 65536 = 1 by omega]
    omega

theorem endAround_lt (s : Nat) : endAround s < 65536 := Nat.mod_lt _ (by decide)

theorem endAround_modEq {s : Nat} (h : s < 2 ^ 32) : endAround s ≡ s [MOD 65535] := by
  rcases Nat.eq_zero_or_pos s with rfl | h0
  · exact rfl
  · rw [endAround_of_pos h0 h]
    simp only [Nat.ModEq]
    omega

/-- All bits of the reduced sum are set for a multiple of 65535 other than 0. -/
theorem endAround_eq_iff {s : Nat} (h : s < 2 ^ 32) : endAround s = 65535 ↔ 0 < s ∧ s % 65535 = 0 := by
  rcases Nat.eq_zero_or_pos s with rfl | h0
  · simp [endAround]
  · rw [endAround_of_pos h0 h]
    omega

end CameraFw.Base
