import CameraFw.Flash.Theorems

/-!
# Buffers and descriptors of the DMA

The part that is moved by programmed I/O has the length of the buffer's offset into its 16 bytes, not of
what is missing to the next multiple, and the largest chunk is longer than the count field.
-/

namespace CameraFw.Flash

open CameraFw.Base

/-! ## Buffer addresses -/

section Buffers

variable {mode : Mode} {size : BitVec 32} {pos : BitVec 64} {len buf : BitVec 32} {env : Env}

/-- A call is accepted: it is not refused for its range, and gets the semaphore. -/
def Accepted (size : BitVec 32) (pos : BitVec 64) (len : BitVec 32) (env : Env) : Prop :=
  (size.setWidth 64).slt (pos + len.setWidth 64) = false ∧ env.interrupted = false

/-- The address is handed to `pl_setup_dma` in some round of the loop. -/
def Handed (mode : Mode) (size : BitVec 32) (pos : BitVec 64) (len buf : BitVec 32) (env : Env)
    (a : BitVec 32) : Prop :=
  Accepted size pos len env ∧
    ∃ n x, head (dmaPass mode) env.dma (enter (mode.pio env) pos len buf) n = some x ∧ x.len ≠ 0 ∧
      x.bufNow = a

theorem enter_bufNow (pio : BitVec 32 → BitVec 32 → Nat → Pio) :
    (enter pio pos len buf).bufNow = buf + pioLen buf ∧ (enter pio pos len buf).len = len - pioLen buf := by
  unfold enter
  split
  · exact ⟨rfl, rfl⟩
  · rename_i h
    simp only [ne_eq, not_not] at h
    simp [h]

theorem toNat_pioLen (buf : BitVec 32) : (pioLen buf).toNat = buf.toNat % 16 := by
  rw [pioLen, BitVec.toNat_and]
  exact Nat.and_two_pow_sub_one_eq_mod buf.toNat 4

/-- A chunk that is not the last one keeps the offset of the buffer address. -/
theorem Xfer.next_bufNow {x : Xfer} {e : DmaEnd} (h : (x.next mode e).len ≠ 0) :
    (x.next mode e).bufNow.toNat % 16 = x.bufNow.toNat % 16 := by
  have hlen := x.next_len mode e
  have hcnt := x.thisCnt_toNat
  have hne : (x.next mode e).len.toNat ≠ 0 := fun h0 => h (BitVec.eq_of_toNat_eq h0)
  rw [Xfer.next, BitVec.toNat_add]
  omega

/-- Every buffer address of an accepted call is a multiple of 16 exactly if the buffer is a multiple of
8, or nothing is left for the DMA. -/
theorem handed_aligned_iff (h : Accepted size pos len env) :
    (∀ a, Handed mode size pos len buf env a → a.toNat % 16 = 0) ↔ buf.toNat % 8 = 0 ∨ len = pioLen buf := by
  obtain ⟨hbuf, hlen⟩ := @enter_bufNow pos len buf (mode.pio env)
  have hpio := toNat_pioLen buf
  have hsum : (buf + pioLen buf).toNat % 16 = 2 * buf.toNat % 16 := by
    rw [BitVec.toNat_add]
    omega
  constructor
  · intro hall
    by_cases hzero : len = pioLen buf
    · exact .inr hzero
    · have := hall _ ⟨h, 0, _, rfl, by rwa [hlen, sub_ne_zero], hbuf⟩
      exact .inl (by omega)
  · intro hcase a ⟨_, n, x, hx, hne, ha⟩
    -- as long as there is something left, the address keeps the offset that it has before the first chunk
    have hinv := head_inv (fun _ x => x.len ≠ 0 → len ≠ pioLen buf ∧ x.bufNow.toNat % 16 = 2 * buf.toNat % 16)
      (fun h0 => ⟨fun heq => h0 (by rw [hlen, heq, sub_self]), by rw [hbuf, hsum]⟩)
        (fun n x y ih hstep h0 => ?_) n x hx hne
    · rw [← ha]
      rcases hcase with h8 | hzero
      · omega
      · exact absurd hzero hinv.1
    · have hx0 : x.len ≠ 0 := fun hx0 => by rw [dmaPass_leave hx0] at hstep; cases hstep
      rw [dmaPass_again hx0] at hstep
      cases hstep
      rw [Xfer.next_bufNow h0]
      exact ih hx0

/-- A buffer at 8, whose first 8 bytes are moved by programmed I/O. -/
theorem handed_aligned_eight :
    Accepted 0x1000 0 0x100 quiet ∧ ∀ a, Handed .read 0x1000 0 0x100 8 quiet a → a.toNat % 16 = 0 :=
  ⟨⟨by decide, rfl⟩, (handed_aligned_iff ⟨by decide, rfl⟩).mpr (.inl rfl)⟩

/-- A buffer at 4: the DMA gets 8. -/
theorem handed_unaligned :
    Accepted 0x1000 0 0x100 quiet ∧ Handed .read 0x1000 0 0x100 4 quiet 8 ∧
      Handed .write 0x1000 0 0x100 4 quiet 8 :=
  ⟨⟨by decide, rfl⟩, ⟨⟨by decide, rfl⟩, 0, _, rfl, by decide, by decide⟩, ⟨by decide, rfl⟩, 0, _, rfl,
    by decide, by decide⟩

end Buffers

/-! ## Descriptors -/

/-- The table holds the vectors: each length, the next index, the valid bit, and the end bit in the last
one only. -/
structure Decodes (vecs : List Iovec) (mdt : List Mde) : Prop where
  length : mdt.length = vecs.length
  dcnt : ∀ (i : Nat) (v : Iovec) (m : Mde), vecs[i]? = some v → mdt[i]? = some m → m.dcnt = v.len.toNat
  next : ∀ (i : Nat) (m : Mde), mdt[i]? = some m → m.next = i + 1
  valid : ∀ m ∈ mdt, m.valid = true
  last : ∀ (i : Nat) (m : Mde), mdt[i]? = some m → (m.last = true ↔ i + 1 = vecs.length)

theorem or_shiftLeft_toNat {x y : BitVec 32} {k : Nat} (hx : x.toNat < 2 ^ k)
    (hy : y.toNat * 2 ^ k < 2 ^ 32) :
    (x ||| (y <<< k)).toNat = x.toNat + y.toNat * 2 ^ k := by
  rw [BitVec.toNat_or, BitVec.toNat_shiftLeft, Nat.shiftLeft_eq, Nat.mod_eq_of_lt hy,
    ← Nat.shiftLeft_eq, Nat.lor_comm, ← Nat.shiftLeft_add_eq_or_of_lt hx, Nat.shiftLeft_eq, Nat.add_comm]

theorem and_bit_ne_zero (x : BitVec 32) {k : Nat} (hk : k < 32) :
    (x &&& BitVec.twoPow 32 k != 0#32) = decide (x.toNat / 2 ^ k % 2 = 1) := by
  have hne : BitVec.twoPow 32 k ≠ 0#32 := by
    intro h
    have := congrArg BitVec.toNat h
    rw [BitVec.toNat_twoPow_of_lt hk] at this
    simp at this
  rw [BitVec.and_twoPow, ← BitVec.testBit_toNat, Nat.testBit_eq_decide_div_mod_eq]
  by_cases h : x.toNat / 2 ^ k % 2 = 1 <;> simp [h, hne]

section Fields

variable (m : Mde)

theorem Mde.dcnt_eq : m.dcnt = m.mde.toNat % 2 ^ 21 := by
  rw [Mde.dcnt, BitVec.toNat_and]
  exact Nat.and_two_pow_sub_one_eq_mod m.mde.toNat 21

theorem Mde.next_eq : m.next = m.mde.toNat / 2 ^ 21 % 2 ^ 8 := by
  rw [Mde.next, BitVec.ushiftRight_and_distrib, BitVec.toNat_and, BitVec.toNat_ushiftRight,
    Nat.shiftRight_eq_div_pow]
  exact Nat.and_two_pow_sub_one_eq_mod _ 8

theorem Mde.valid_eq : m.valid = decide (m.mde.toNat / 2 ^ 30 % 2 = 1) :=
  @and_bit_ne_zero m.mde 30 (by decide)

theorem Mde.last_eq : m.last = decide (m.mde.toNat / 2 ^ 31 % 2 = 1) :=
  @and_bit_ne_zero m.mde 31 (by decide)

end Fields

/-- Fields that fit do not overlap. -/
theorem mde_toNat {cnt : BitVec 32} {i : Nat} (hcnt : cnt.toNat < 2 ^ 21) (hi : i < MDE_MAX_ENTRY) :
    (cnt ||| (BitVec.ofNat 32 (i + 1) <<< MDE_NXT_SHIFT) ||| (1#32 <<< MDE_VALID_SHIFT)).toNat =
      cnt.toNat + (i + 1) * 2 ^ 21 + 2 ^ 30 := by
  have hnext : (BitVec.ofNat 32 (i + 1)).toNat = i + 1 := by
    rw [BitVec.toNat_ofNat]
    unfold MDE_MAX_ENTRY at hi
    omega
  unfold MDE_MAX_ENTRY at hi
  have hlow := or_shiftLeft_toNat (y := BitVec.ofNat 32 (i + 1)) hcnt (by omega)
  rw [MDE_NXT_SHIFT, MDE_VALID_SHIFT, or_shiftLeft_toNat (by omega) (by decide), hlow, hnext]
  rfl

theorem mde_last_toNat {w : BitVec 32} (hw : w.toNat < 2 ^ 31) :
    (w ||| (1#32 <<< MDE_EMDE_SHIFT)).toNat = w.toNat + 2 ^ 31 := or_shiftLeft_toNat hw (by decide)

theorem setupDma_get {vecs : List Iovec} {i : Nat} {m : Mde} (h : (setupDma vecs).1[i]? = some m) :
    ∃ v, vecs[i]? = some v ∧ m.mde =
      let w := v.len ||| (BitVec.ofNat 32 (i + 1) <<< MDE_NXT_SHIFT) ||| (1#32 <<< MDE_VALID_SHIFT)
      if vecs.length - 1 = i then w ||| (1#32 <<< MDE_EMDE_SHIFT) else w := by
  simp only [setupDma, List.getElem?_modify, List.getElem?_mapIdx] at h
  cases hv : vecs[i]? with
  | none => simp [hv] at h
  | some v =>
      refine ⟨v, rfl, ?_⟩
      simp only [hv, Option.map_some] at h
      split at h
      · rename_i heq
        cases h
        simp [heq]
      · rename_i hne
        cases h
        simp [hne]

/-- The word of an entry as a number. -/
theorem setupDma_word {vecs : List Iovec} (hcount : vecs.length ≤ MDE_MAX_ENTRY)
    (hfit : ∀ v ∈ vecs, v.len.toNat < 2 ^ 21) {i : Nat} {m : Mde} (h : (setupDma vecs).1[i]? = some m) :
    ∃ v, vecs[i]? = some v ∧ v.len.toNat < 2 ^ 21 ∧ i + 1 ≤ MDE_MAX_ENTRY ∧
      m.mde.toNat = v.len.toNat + (i + 1) * 2 ^ 21 + 2 ^ 30 + if i + 1 = vecs.length then 2 ^ 31 else 0 := by
  obtain ⟨v, hv, hmde⟩ := setupDma_get h
  have hlt := (List.getElem?_eq_some_iff.mp hv).1
  have hcnt := hfit v (List.mem_of_getElem? hv)
  have hw := mde_toNat (i := i) hcnt (by omega)
  refine ⟨v, hv, hcnt, by omega, ?_⟩
  rw [hmde]
  unfold MDE_MAX_ENTRY at hcount
  by_cases hlast : i + 1 = vecs.length
  · rw [if_pos (by omega), if_pos hlast, mde_last_toNat (by omega), hw]
  · rw [if_neg (by omega), if_neg hlast, hw]
    exact (Nat.add_zero _).symm

/-- The table is decoded to the vectors it was built from exactly if no length needs more than the 21
bits of the count field. -/
theorem setupDma_decodes_iff (vecs : List Iovec) (hcount : vecs.length ≤ MDE_MAX_ENTRY) :
    Decodes vecs (setupDma vecs).1 ↔ ∀ v ∈ vecs, v.len.toNat < 2 ^ 21 := by
  have hlength : (setupDma vecs).1.length = vecs.length := by simp [setupDma]
  constructor
  · intro h v hv
    obtain ⟨i, hi⟩ := List.getElem?_of_mem hv
    have hlt := (List.getElem?_eq_some_iff.mp hi).1
    have hm := List.getElem?_eq_getElem (hlength ▸ hlt)
    rw [← h.dcnt i v _ hi hm, Mde.dcnt_eq]
    exact Nat.mod_lt _ (by decide)
  · intro hfit
    have hmax : MDE_MAX_ENTRY = 128 := rfl
    refine ⟨hlength, fun i v m hv hm => ?_, fun i m hm => ?_, fun m hmem => ?_, fun i m hm => ?_⟩
    · obtain ⟨v', hv', hcnt, hi, hw⟩ := setupDma_word hcount hfit hm
      obtain rfl : v = v' := Option.some.inj (hv.symm.trans hv')
      rw [Mde.dcnt_eq, hw]
      split <;> omega
    · obtain ⟨v, hv, hcnt, hi, hw⟩ := setupDma_word hcount hfit hm
      rw [Mde.next_eq, hw]
      split <;> omega
    · obtain ⟨i, hm⟩ := List.getElem?_of_mem hmem
      obtain ⟨v, hv, hcnt, hi, hw⟩ := setupDma_word hcount hfit hm
      rw [Mde.valid_eq, hw, decide_eq_true_iff]
      split <;> omega
    · obtain ⟨v, hv, hcnt, hi, hw⟩ := setupDma_word hcount hfit hm
      rw [Mde.last_eq, hw, decide_eq_true_iff]
      split <;> omega

/-- Two buffers of 4 KB. -/
theorem setupDma_decodes_pages :
    Decodes [⟨0x1000, 0x1000⟩, ⟨0x4000, 0x1000⟩] (setupDma [⟨0x1000, 0x1000⟩, ⟨0x4000, 0x1000⟩]).1 :=
  (setupDma_decodes_iff [⟨0x1000, 0x1000⟩, ⟨0x4000, 0x1000⟩] (by decide)).mpr (by decide)

/-- Of 2 MB the count field keeps nothing. -/
theorem setupDma_overlaps :
    (0x200000 : BitVec 32) ≤ MAX_DMA_CNT ∧ [Iovec.mk 0x1000 0x200000].length ≤ MDE_MAX_ENTRY ∧
      (setupDma [⟨0x1000, 0x200000⟩]).1.map Mde.dcnt = [0] ∧
        ¬Decodes [⟨0x1000, 0x200000⟩] (setupDma [⟨0x1000, 0x200000⟩]).1 := by
  refine ⟨by decide, by decide, by decide, fun h => ?_⟩
  have := h.dcnt 0 _ _ rfl rfl
  exact absurd this (by decide)

end CameraFw.Flash
