import CameraFw.Dma.Enable
import CameraFw.Flash.DmaTheorems

/-!
# The descriptors describe the buffer

Each round of the loop takes what fits, so that descriptor `k` begins `k` full counts behind the
buffer's start. The counts fit into their field, and the fields do not overlap.
-/

namespace CameraFw.Dma

open CameraFw.Base CameraFw.Flash

/-! ## One round -/

theorem maxCount_eq : MAX_DMA_MDT_COUNT = 2097136 := rfl

/-- The count of the descriptor `k` places on, when `c` bytes are left. -/
def share (c k : Nat) : Nat := min MAX_DMA_MDT_COUNT (c - k * MAX_DMA_MDT_COUNT)

theorem share_zero (c : Nat) : share c 0 = min MAX_DMA_MDT_COUNT c := by
  rw [share, Nat.zero_mul, Nat.sub_zero]

theorem share_succ (c k : Nat) : share c (k + 1) = share (c - MAX_DMA_MDT_COUNT) k := by
  rw [share, share, Nat.succ_mul, Nat.sub_sub, Nat.add_comm]

theorem share_le (c k : Nat) : share c k ≤ MAX_DMA_MDT_COUNT := Nat.min_le_left _ _

section Round

variable {count prev dcnt : BitVec 32} {mde : Nat → Mde} {i : Nat}

theorem dcntOf_eq (h : count.toNat < 2 ^ 31) : dcntOf count = BitVec.ofNat 32 (share count.toNat 0) := by
  rw [dcntOf, BitVec.toInt_eq_toNat_of_lt (by omega), share_zero]
  split
  · rw [Nat.min_eq_left (by omega)]
  · rw [Nat.min_eq_right (by omega), BitVec.ofNat_toNat, BitVec.setWidth_eq]

theorem toNat_ofNat_share (c k : Nat) : (BitVec.ofNat 32 (share c k)).toNat = share c k := by
  have hle := share_le c k
  rw [maxCount_eq] at hle
  rw [BitVec.toNat_ofNat]
  omega

theorem sub_dcntOf (h : count.toNat < 2 ^ 31) :
    (count - dcntOf count).toNat = count.toNat - MAX_DMA_MDT_COUNT := by
  have hle : share count.toNat 0 ≤ count.toNat := share_zero _ ▸ Nat.min_le_right _ _
  rw [dcntOf_eq h, BitVec.toNat_sub_of_le (BitVec.le_def.mpr (by rw [toNat_ofNat_share]; exact hle)),
    toNat_ofNat_share, share_zero]
  omega

theorem fillMde_of_ne {k : Nat} (h : k ≠ i) : fillMde mde i prev dcnt k = mde k := by
  unfold fillMde
  split <;> simp [Function.update_of_ne h]

/-- Where descriptor `i` begins. -/
def begins (mde : Nat → Mde) (i : Nat) (prev : BitVec 32) : BitVec 32 :=
  if i > 0 then (mde (i - 1)).saddr + prev else (mde i).saddr

theorem fillMde_self : fillMde mde i prev dcnt i = ⟨begins mde i prev, flag dcnt i⟩ := by
  unfold fillMde begins
  split <;> simp

end Round

/-! ## The loop -/

/-- Descriptors `i` to `j` have been filled for `c` bytes from `a` on, the others are as before. -/
structure Filled (before mde : Nat → Mde) (i j : Nat) (a : BitVec 32) (c : Nat) : Prop where
  le : i ≤ j
  other : ∀ k, k < i ∨ j < k → mde k = before k
  filled : ∀ k, i + k ≤ j →
    mde (i + k) = ⟨a + BitVec.ofNat 32 (k * MAX_DMA_MDT_COUNT), flag (BitVec.ofNat 32 (share c k)) (i + k)⟩
  needed : ∀ k, i + k ≤ j → k * MAX_DMA_MDT_COUNT ≤ c
  enough : c ≤ (j + 1 - i) * MAX_DMA_MDT_COUNT

theorem Filled.single {before : Nat → Mde} {i c : Nat} {prev : BitVec 32} (h : c ≤ MAX_DMA_MDT_COUNT) :
    Filled before (fillMde before i prev (BitVec.ofNat 32 (share c 0))) i i (begins before i prev) c where
  le := Nat.le_refl i
  other k hk := fillMde_of_ne (by omega)
  filled k hk := by
    obtain rfl : k = 0 := by omega
    rw [Nat.add_zero, fillMde_self, Nat.zero_mul, BitVec.add_zero]
  needed k hk := by
    obtain rfl : k = 0 := by omega
    rw [Nat.zero_mul]
    exact Nat.zero_le c
  enough := by
    rw [Nat.add_sub_cancel_left, Nat.one_mul]
    exact h

/-- A full descriptor in front of those that take the rest. -/
theorem Filled.cons {before mde : Nat → Mde} {i j c : Nat} {prev : BitVec 32} (hc : MAX_DMA_MDT_COUNT < c)
    (h : Filled (fillMde before i prev (BitVec.ofNat 32 (share c 0))) mde (i + 1) j
      (begins before i prev + BitVec.ofNat 32 MAX_DMA_MDT_COUNT) (c - MAX_DMA_MDT_COUNT)) :
    Filled before mde i j (begins before i prev) c where
  le := Nat.le_of_succ_le h.le
  other k hk := by
    have := h.le
    rw [h.other k (by omega), fillMde_of_ne (by omega)]
  filled k hk := by
    cases k with
    | zero => rw [h.other (i + 0) (by omega), Nat.add_zero, fillMde_self, Nat.zero_mul, BitVec.add_zero]
    | succ k =>
        have heq := h.filled k (by omega)
        rw [show i + 1 + k = i + (k + 1) by omega, ← share_succ, add_assoc, ← BitVec.ofNat_add,
          Nat.add_comm MAX_DMA_MDT_COUNT, ← Nat.succ_mul] at heq
        exact heq
  needed k hk := by
    cases k with
    | zero => rw [Nat.zero_mul]; exact Nat.zero_le c
    | succ k =>
        have hle := h.needed k (by omega)
        rw [Nat.succ_mul]
        omega
  enough := by
    have henough := h.enough
    have hle := h.le
    rw [show j + 1 - i = (j + 1 - (i + 1)) + 1 by omega, Nat.succ_mul]
    omega

/-- The loop fills as many descriptors as it needs, if there are enough rounds left. -/
theorem split_filled (n i : Nat) (count prev : BitVec 32) (mde : Nat → Mde) (hn : 0 < n)
    (hcount : count.toNat ≤ n * MAX_DMA_MDT_COUNT) (hint : count.toNat < 2 ^ 31) :
    (split n i count prev mde).1 < i + n ∧
      Filled mde (split n i count prev mde).2 i (split n i count prev mde).1
        (begins mde i prev) count.toNat := by
  induction n generalizing i count prev mde with
  | zero => omega
  | succ n ih =>
      have hrest := sub_dcntOf hint
      simp only [split]
      split
      · rename_i hzero
        rw [hzero] at hrest
        have hfits : count.toNat ≤ MAX_DMA_MDT_COUNT := Nat.le_of_sub_eq_zero hrest.symm
        rw [dcntOf_eq hint]
        exact ⟨by omega, .single hfits⟩
      · rename_i hne
        have hmore : MAX_DMA_MDT_COUNT < count.toNat := by
          by_contra hle
          refine hne (BitVec.eq_of_toNat_eq ?_)
          rw [hrest, Nat.sub_eq_zero_of_le (by omega)]
          rfl
        rw [Nat.succ_mul] at hcount
        have hpos : 0 < n := by
          refine Nat.pos_of_ne_zero fun h0 => ?_
          rw [h0, Nat.zero_mul] at hcount
          omega
        have hfull : share count.toNat 0 = MAX_DMA_MDT_COUNT := by
          rw [share_zero, Nat.min_eq_left (Nat.le_of_lt hmore)]
        obtain ⟨hlt, hfill⟩ := ih (i + 1) (count - dcntOf count) (dcntOf count)
          (fillMde mde i prev (dcntOf count)) hpos (by rw [hrest]; omega) (by rw [hrest]; omega)
        have hbegin : begins (fillMde mde i prev (dcntOf count)) (i + 1) (dcntOf count) =
            begins mde i prev + BitVec.ofNat 32 MAX_DMA_MDT_COUNT := by
          rw [begins, if_pos (Nat.succ_pos i), Nat.add_sub_cancel, fillMde_self, dcntOf_eq hint, hfull]
        rw [hbegin, hrest] at hfill
        refine ⟨by omega, .cons hmore ?_⟩
        rw [← dcntOf_eq hint]
        exact hfill

/-! ## The table -/

theorem countBelow_succ (mde : Nat → Mde) (k : Nat) :
    countBelow mde (k + 1) = countBelow mde k + (mde k).dcnt := by
  simp only [countBelow, List.range_succ, List.map_append, List.sum_append, List.map_singleton,
    List.sum_singleton]

section Table

variable {before mde : Nat → Mde} {j c : Nat} {a : BitVec 32}

theorem markLast_of_ne {r : Nat × (Nat → Mde)} {k : Nat} (h : k ≠ r.1) : markLast r k = r.2 k :=
  Function.update_of_ne h _ _

theorem markLast_saddr (r : Nat × (Nat → Mde)) (k : Nat) : (markLast r k).saddr = (r.2 k).saddr := by
  by_cases h : k = r.1
  · rw [h, markLast, Function.update_self]
  · rw [markLast_of_ne h]

theorem flag_toNat (k : Nat) {i : Nat} (hi : i < MAX_DMA_MDT) :
    (flag (BitVec.ofNat 32 (share c k)) i).toNat = share c k + (i + 1) * 2 ^ 21 + 2 ^ 30 := by
  have hle := share_le c k
  rw [maxCount_eq] at hle
  have hi' : i < 4 := hi
  rw [flag, mde_toNat (by rw [toNat_ofNat_share]; omega) (by unfold MDE_MAX_ENTRY; omega), toNat_ofNat_share]

/-- The word of a descriptor as a number. -/
theorem Filled.word (h : Filled before mde 0 j a c) (hj : j < MAX_DMA_MDT) {k : Nat} (hk : k ≤ j) :
    (markLast (j, mde) k).mde.toNat =
      share c k + (k + 1) * 2 ^ 21 + 2 ^ 30 + if k = j then 2 ^ 31 else 0 := by
  have hle := share_le c k
  have hfour : j < 4 := hj
  have hword : (mde k).mde.toNat = share c k + (k + 1) * 2 ^ 21 + 2 ^ 30 := by
    have := h.filled k (by omega)
    rw [Nat.zero_add] at this
    rw [this, flag_toNat k (by omega)]
  rw [maxCount_eq] at hle
  by_cases hkj : k = j
  · subst hkj
    have hlow : (mde k).mde.toNat < 2 ^ 31 := by omega
    rw [markLast, Function.update_self, if_pos rfl, ← hword]
    exact mde_last_toNat hlow
  · rw [markLast_of_ne hkj, hword, if_neg hkj]
    rfl

theorem Filled.dcnt (h : Filled before mde 0 j a c) (hj : j < MAX_DMA_MDT) {k : Nat} (hk : k ≤ j) :
    (markLast (j, mde) k).dcnt = share c k := by
  have hle := share_le c k
  rw [maxCount_eq] at hle
  rw [Mde.dcnt_eq, h.word hj hk]
  split <;> omega

theorem Filled.countBelow (h : Filled before mde 0 j a c) (hj : j < MAX_DMA_MDT) {k : Nat} (hk : k ≤ j + 1) :
    countBelow (markLast (j, mde)) k = min c (k * MAX_DMA_MDT_COUNT) := by
  induction k with
  | zero => simp [Dma.countBelow]
  | succ k ih =>
      rw [countBelow_succ, ih (by omega), h.dcnt hj (by omega), share, Nat.succ_mul]
      omega

theorem Filled.describes (h : Filled before mde 0 j a c) (hj : j < MAX_DMA_MDT) :
    Describes (markLast (j, mde)) (j + 1) a c where
  count_le k hk := by
    rw [h.dcnt hj (by omega)]
    exact share_le c k
  count_sum := by
    rw [h.countBelow hj (Nat.le_refl _)]
    exact Nat.min_eq_left h.enough
  saddr k hk := by
    have hfill := h.filled k (by omega)
    rw [Nat.zero_add] at hfill
    rw [markLast_saddr, h.countBelow hj (by omega), Nat.min_eq_right (h.needed k (by omega))]
    exact congrArg Mde.saddr hfill
  next k hk := by
    have hle := share_le c k
    rw [maxCount_eq] at hle
    have hfour : j < 4 := hj
    rw [Mde.next_eq, h.word hj (by omega)]
    split <;> omega
  valid k hk := by
    have hle := share_le c k
    rw [maxCount_eq] at hle
    have hfour : j < 4 := hj
    rw [Mde.valid_eq, h.word hj (by omega), decide_eq_true_iff]
    split <;> omega
  last k hk := by
    have hle := share_le c k
    rw [maxCount_eq] at hle
    have hfour : j < 4 := hj
    rw [Mde.last_eq, h.word hj (by omega), decide_eq_true_iff]
    split <;> omega

end Table

/-- A transfer that is no scatter list, of up to four full counts, is described by at most four
descriptors; what lies behind them is left alone, and the channel is started at the first one. -/
theorem enableDma_describes (channel : Nat) (s : Chan) (dma : Request) (hchan : channel < MAX_DMA_CHANNELS)
    (hsg : dma.usingSg = false) (hlen : dma.length.toNat ≤ MAX_DMA_MDT * MAX_DMA_MDT_COUNT) :
    ∃ n, 1 ≤ n ∧ n ≤ MAX_DMA_MDT ∧ Describes (enableDma channel s dma).mde n dma.address dma.length.toNat ∧
      (∀ k, n ≤ k → (enableDma channel s dma).mde k = s.mde k) ∧
      (enableDma channel s dma).idx = 0 ∧ (enableDma channel s dma).mdt = s.base := by
  have hlow : dma.length.toNat < 2 ^ 31 := Nat.lt_of_le_of_lt hlen (by decide)
  have hmde : (enableDma channel s dma).mde = buildMdt s.mde dma ∧ (enableDma channel s dma).idx = 0 ∧
      (enableDma channel s dma).mdt = s.base := by
    rw [enableDma, if_neg (by omega), if_pos hsg, BitVec.toInt_eq_toNat_of_lt (by omega), if_neg (by omega)]
    exact ⟨rfl, rfl, rfl⟩
  obtain ⟨hlt, hfill⟩ := split_filled MAX_DMA_MDT 0 dma.length 0
    (Function.update s.mde 0 { s.mde 0 with saddr := dma.address }) (by decide) hlen hlow
  rw [hmde.1, buildMdt]
  generalize split MAX_DMA_MDT 0 dma.length 0
    (Function.update s.mde 0 { s.mde 0 with saddr := dma.address }) = r at hlt hfill ⊢
  have hbegin : begins (Function.update s.mde 0 { s.mde 0 with saddr := dma.address }) 0 0 = dma.address := by
    rw [begins, if_neg (Nat.lt_irrefl 0), Function.update_self]
  rw [hbegin] at hfill
  rw [Nat.zero_add] at hlt
  refine ⟨r.1 + 1, by omega, by omega, hfill.describes hlt, fun k hk => ?_, hmde.2⟩
  rw [markLast_of_ne (by omega), hfill.other k (by omega), Function.update_of_ne (by omega)]

/-- A channel whose memory and registers are clear. -/
def Chan.clear : Chan := ⟨fun _ => ⟨0, 0⟩, 0, 0, 0, 0⟩

/-- Two full counts exactly, over the end of the addresses. -/
theorem enableDma_describes_exact :
    2 * MAX_DMA_MDT_COUNT ≤ MAX_DMA_MDT * MAX_DMA_MDT_COUNT ∧
      ∃ n, 1 ≤ n ∧ n ≤ MAX_DMA_MDT ∧
        Describes (enableDma 3 .clear ⟨0xfffffff0, BitVec.ofNat 32 (2 * MAX_DMA_MDT_COUNT), false,
          false, .read⟩).mde n 0xfffffff0 (2 * MAX_DMA_MDT_COUNT) := by
  refine ⟨by decide, ?_⟩
  obtain ⟨n, h1, h4, hdesc, -⟩ := enableDma_describes 3 .clear
    ⟨0xfffffff0, BitVec.ofNat 32 (2 * MAX_DMA_MDT_COUNT), false, false, .read⟩ (by decide) rfl (by decide)
  exact ⟨n, h1, h4, hdesc⟩

/-! ## What the controller makes of it -/

section Moves

variable {mde : Nat → Mde} {n len : Nat} {address : BitVec 32}

theorem countBelow_mono (mde : Nat → Mde) {k m : Nat} (h : k ≤ m) : countBelow mde k ≤ countBelow mde m := by
  induction m, h using Nat.le_induction with
  | base => exact Nat.le_refl _
  | succ m _ ih => rw [countBelow_succ]; omega

/-- From descriptor `k` on, the pieces lie end to end up to the last byte. -/
theorem Describes.tiles_from (h : Describes mde n address len) {m k : Nat} (hm : k + m = n)
    (hpos : 0 < m) (dev : BitVec 32) :
    Tiles (dmaMoves .read ((List.range' k m).map mde) (dev + BitVec.ofNat 32 (countBelow mde k)))
      (address + BitVec.ofNat 32 (countBelow mde k)) (dev + BitVec.ofNat 32 (countBelow mde k))
        (len - countBelow mde k) := by
  induction m generalizing k with
  | zero => omega
  | succ m ih =>
      have hle : countBelow mde (k + 1) ≤ len := h.count_sum ▸ countBelow_mono mde (by omega)
      rw [countBelow_succ] at hle
      have hnext (x : BitVec 32) : x + BitVec.ofNat 32 (countBelow mde k) + BitVec.ofNat 32 (mde k).dcnt =
          x + BitVec.ofNat 32 (countBelow mde (k + 1)) := by
        rw [countBelow_succ, BitVec.ofNat_add, add_assoc]
      rw [List.range'_succ, List.map_cons, dmaMoves]
      refine ⟨h.saddr k (by omega), rfl, by simp only [Mode.piece]; omega, ?_⟩
      simp only [Mode.piece, hnext]
      by_cases hlast : k + 1 = n
      · rw [if_pos ((h.last k (by omega)).mpr hlast)]
        have := h.count_sum
        rw [← hlast, countBelow_succ] at this
        simp only [Tiles]
        omega
      · rw [if_neg fun hl => hlast ((h.last k (by omega)).mp hl), Nat.sub_sub, ← countBelow_succ]
        exact ih (by omega) (by omega)

/-- A controller that follows the table moves the buffer, byte by byte and each byte once. -/
theorem Describes.tiles (h : Describes mde n address len) (hn : 1 ≤ n) (dev : BitVec 32) :
    Tiles (dmaMoves .read ((List.range n).map mde) dev) address dev len := by
  have := h.tiles_from (k := 0) (Nat.zero_add n) hn dev
  simpa [countBelow, List.range_eq_range'] using this

end Moves

end CameraFw.Dma
