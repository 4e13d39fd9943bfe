import CameraFw.Firmware.Checksum

/-!
# The checksums hold together

A later entry is summed and written behind the words that an earlier one has balanced, so that the words
in front of an entry's end do not change any more once it is done.
-/

namespace CameraFw.Firmware

open CameraFw.Base

variable {m m' : List UInt8} {e : Entry} {es : List Entry}

/-! ## Words -/

theorem toInt_of_lt {x : Int} (h0 : 0 ≤ x) (h : x < 2 ^ 31) : toInt x = x := by
  rw [toInt, show max (-2 ^ 63) (min (2 ^ 63 - 1) x) = x by omega]
  exact Int.bmod_eq_of_le (by omega) (by omega)

theorem toInt_lt (x : Int) : toInt x < 2 ^ 31 :=
  Int.bmod_lt (by decide)

theorem word_congr {off : Nat} (h : load m' off 4 = load m off 4) : word m' off = word m off := by
  rw [word, word, le32, le32, h]

theorem wordSum_congr {a b : Nat} (ha : 4 ∣ a) (hb : 4 ∣ b)
    (h : ∀ off, a ≤ off → off + 4 ≤ b → load m' off 4 = load m off 4) : wordSum m' a b = wordSum m a b := by
  unfold wordSum
  congr 1
  refine List.map_congr_left fun k hk => ?_
  rw [List.mem_range] at hk
  exact word_congr (h _ (by omega) (by omega))

theorem word_store {off : Nat} {w : BitVec 32} (h : off ≤ m.length) :
    word (store m off (toLE 4 w.toNat)) off = w := by
  rw [word, le32, load_store_same h (length_toLE 4 _).symm, le_toLE]
  refine BitVec.eq_of_toNat_eq ?_
  rw [BitVec.toNat_ofNat, show 256 ^ 4 = 2 ^ 32 from rfl, Nat.mod_mod, Nat.mod_eq_of_lt w.isLt]

/-! ## One run of `checksum` -/

theorem sumLoop_eq {n a : Nat} {c : BitVec 32} (h : 4 * a + 4 * n ≤ m.length) :
    sumLoop m n a c = some (c + ((List.range n).map fun k => word m (4 * a + 4 * k)).sum) := by
  induction n generalizing a c with
  | zero => simp [sumLoop]
  | succ n ih =>
      have hw : fptr m a = some (word m (4 * a)) := by
        rw [fptr, if_pos (by omega), Int.toNat_natCast]
      have hk : ∀ k, 4 * (a + 1) + 4 * k = 4 * a + 4 * (k + 1) := by
        intro k
        omega
      simp only [sumLoop, hw, List.range_succ_eq_map, List.map_cons, List.map_map, List.sum_cons,
        Nat.mul_zero, Nat.add_zero, ← BitVec.add_assoc]
      have := ih (a := a + 1) (c := c + word m (4 * a)) (by omega)
      simp only [hk, Int.natCast_add, Int.natCast_one] at this
      exact this

theorem main_eq {a b c : Nat} (ha : 4 ∣ a) (hb : 4 ∣ b) (hc : 4 ∣ c) (hab : a ≤ b) (hb0 : 0 < b)
    (hbm : b ≤ m.length) (hcm : c + 4 ≤ m.length) (hb' : b < 2 ^ 31) (hc' : c < 2 ^ 31) :
    main m a b (some c) = some (store m c (toLE 4 (-wordSum m a b).toNat)) := by
  obtain ⟨a, rfl⟩ := ha
  obtain ⟨b, rfl⟩ := hb
  obtain ⟨c, rfl⟩ := hc
  have hm : m ≠ [] := by
    rintro rfl
    simp only [List.length_nil] at hbm
    omega
  have hsum := sumLoop_eq (m := m) (n := b - a) (a := a) (c := 0) (by omega)
  have hset : ∀ w, setFptr m c w = some (store m (4 * c) (toLE 4 w.toNat)) := by
    intro w
    rw [setFptr, if_pos (by omega), Int.toNat_natCast]
  have hdiv : ∀ k : Nat, ((4 * k : Nat) : Int).tdiv 4 = k := by
    intro k
    rw [Int.tdiv_eq_ediv_of_nonneg (by omega)]
    omega
  have hneg : ∀ w : BitVec 32, ~~~w + 1 = -w := fun w => (BitVec.neg_eq_not_add w).symm
  have hr : ((b : Int) - a).toNat = b - a := by omega
  have hn : (4 * b - 4 * a) / 4 = b - a := by omega
  simp only [main, toInt_of_lt (show (0 : Int) ≤ (4 * a : Nat) by omega) (by omega),
    toInt_of_lt (show (0 : Int) ≤ (4 * b : Nat) by omega) (by omega),
    toInt_of_lt (show (0 : Int) ≤ (4 * c : Nat) by omega) (by omega), hdiv, hr]
  rw [if_neg (by omega), if_neg hm, if_neg (by omega), if_neg (by omega), hsum]
  simp only [hset, zero_add, hneg, wordSum, hn]

/-- A run within the first 2 GiB writes the word at `c`, which balances `[a, b)` if it lies behind it. -/
theorem runChecksum_spec {a b c : Nat} (ha : 4 ∣ a) (hb : 4 ∣ b) (hc : 4 ∣ c) (hab : a ≤ b) (hb0 : 0 < b)
    (hbc : b ≤ c) (hcm : c + 4 ≤ m.length) (hc' : c < 2 ^ 31) :
    (runChecksum a b c m).length = m.length ∧
      (∀ off n, off + n ≤ c ∨ c + 4 ≤ off → load (runChecksum a b c m) off n = load m off n) ∧
      wordSum m a b + word (runChecksum a b c m) c = 0 := by
  rw [runChecksum, main_eq ha hb hc hab hb0 (by omega) hcm (by omega) hc', Option.getD_some]
  refine ⟨length_store (by rw [length_toLE]; exact hcm), ?_, ?_⟩
  · intro off n h
    rcases h with h | h
    · exact load_store_below (by omega) h
    · exact load_store_above (by omega) (by rw [length_toLE]; exact h)
  · rw [word_store (by omega), add_neg_cancel]

/-! ## The entries -/

/-- What one entry of `checksum_map` asks of its image, with its end in the first 2 GiB. -/
structure Entry.Fits (e : Entry) (size : Nat) : Prop where
  start_dvd : 4 ∣ e.start
  stop_dvd : 4 ∣ e.stop
  stop_gt : 8 < e.stop
  stop_le : e.stop ≤ size
  start_le : e.start ≤ e.stop - 8
  stop_low : e.stop ≤ 2 ^ 31

theorem insertChecksum_spec (h : e.Fits m.length) :
    OnlyChecksums [e] m (insertChecksum m e) ∧ e.Balanced (insertChecksum m e) := by
  obtain ⟨hs, he, h8, hsize, hse, hlow⟩ := h
  have h8' : ((e.stop : Int) - 8) = ((e.stop - 8 : Nat) : Int) := by omega
  have h4' : ((e.stop : Int) - 4) = ((e.stop - 4 : Nat) : Int) := by omega
  obtain ⟨hlen₁, hload₁, hsum₁⟩ := runChecksum_spec (m := m) hs (b := e.stop - 8) (c := e.stop - 8)
    (by omega) (by omega) hse (by omega) (Nat.le_refl _) (by omega) (by omega)
  unfold insertChecksum
  rw [h8', h4']
  generalize runChecksum e.start (e.stop - 8 : Nat) (e.stop - 8 : Nat) m = m₁ at hlen₁ hload₁ hsum₁ ⊢
  obtain ⟨hlen₂, hload₂, hsum₂⟩ :=
    runChecksum_spec (m := m₁) (Nat.dvd_zero 4) (b := e.stop - 8) (c := e.stop - 4)
    (by omega) (by omega) (Nat.zero_le _) (by omega) (by omega) (by omega) (by omega)
  rw [Int.natCast_zero] at hlen₂ hload₂ hsum₂
  generalize runChecksum 0 (e.stop - 8 : Nat) (e.stop - 4 : Nat) m₁ = m₂ at hlen₂ hload₂ hsum₂ ⊢
  have hsame : ∀ off n, off + n ≤ e.stop - 8 → load m₂ off n = load m off n := fun off n h =>
    (hload₂ off n (by omega)).trans (hload₁ off n (Or.inl h))
  refine ⟨⟨hlen₂.trans hlen₁, ?_⟩, ?_, ?_⟩
  · intro off n h
    rcases h e (by simp) with h | h
    · exact hsame off n h
    · exact (hload₂ off n (by omega)).trans (hload₁ off n (by omega))
  · rw [wordSum_congr hs (by omega) fun off _ h => hsame off 4 h,
      word_congr (hload₂ (e.stop - 8) 4 (by omega))]
    exact hsum₁
  · rw [wordSum_congr (Nat.dvd_zero 4) (by omega) fun off _ h => hload₂ off 4 (by omega)]
    exact hsum₂

/-- An entry looks at nothing behind its end. -/
theorem Entry.Balanced.congr (hs : 4 ∣ e.start) (he : 4 ∣ e.stop) (h8 : 8 < e.stop)
    (h : ∀ off n, off + n ≤ e.stop → load m' off n = load m off n) (hb : e.Balanced m) : e.Balanced m' := by
  refine ⟨?_, ?_⟩
  · rw [wordSum_congr hs (by omega) fun off _ h' => h off 4 (by omega), word_congr (h _ 4 (by omega))]
    exact hb.1
  · rw [wordSum_congr (Nat.dvd_zero 4) (by omega) fun off _ h' => h off 4 (by omega),
      word_congr (h _ 4 (by omega))]
    exact hb.2

theorem insertChecksums_spec (hfit : ∀ e ∈ es, e.Fits m.length)
    (hord : es.Pairwise fun e e' => e.stop + 8 ≤ e'.stop) :
    OnlyChecksums es m (insertChecksums m es) ∧ ∀ e ∈ es, e.Balanced (insertChecksums m es) := by
  induction es generalizing m with
  | nil => exact ⟨⟨rfl, fun _ _ _ => rfl⟩, nofun⟩
  | cons e es ih =>
      obtain ⟨hlater, hord⟩ := List.pairwise_cons.mp hord
      have hf := hfit e (by simp)
      obtain ⟨⟨hlen, hload⟩, hbal⟩ := insertChecksum_spec hf
      obtain ⟨⟨hlen', hload'⟩, hbal'⟩ :=
        ih (m := insertChecksum m e) (fun x hx => hlen ▸ hfit x (by simp [hx])) hord
      -- what the later entries write lies behind the end of this one
      have hfront : ∀ off n, off + n ≤ e.stop →
          load (insertChecksums (insertChecksum m e) es) off n = load (insertChecksum m e) off n := by
        intro off n h
        refine hload' off n fun x hx => Or.inl ?_
        have := hlater x hx
        omega
      refine ⟨⟨hlen'.trans hlen, ?_⟩, ?_⟩
      · intro off n h
        exact (hload' off n fun x hx => h x (by simp [hx])).trans
          (hload off n fun x hx => h x (by rw [List.mem_singleton.mp hx]; simp))
      · intro x hx
        rcases List.mem_cons.mp hx with rfl | hx
        · exact hbal.congr hf.start_dvd hf.stop_dvd hf.stop_gt hfront
        · exact hbal' x hx

/-! ## Beyond 2 GiB

No run of `checksum` sums or writes a word that does not begin in the first 2 GiB, since its offsets are
of type `int`.
-/

def ZeroBelow (m : List UInt8) (off : Nat) : Prop := ∀ k n, k + n ≤ off → load m k n = List.replicate n 0

theorem ZeroBelow.word_eq {off k : Nat} (h : ZeroBelow m off) (hk : k + 4 ≤ off) : word m k = 0 := by
  rw [word, le32, h k 4 hk]
  rfl

theorem ZeroBelow.sumLoop_eq {off n : Nat} {i : Int} {c w : BitVec 32} (h : ZeroBelow m off)
    (hi : 4 * (i + n) ≤ off) (hw : sumLoop m n i c = some w) : w = c := by
  induction n generalizing i c with
  | zero => cases hw; rfl
  | succ n ih =>
      simp only [sumLoop, fptr] at hw
      split at hw
      · cases hw
      · rename_i v hv
        split at hv
        · cases hv
          rw [h.word_eq (by omega), add_zero] at hw
          exact ih (by omega) hw
        · cases hv

theorem ZeroBelow.setFptr_eq {off : Nat} {i : Int} (h : ZeroBelow m off) (hi : 4 * i + 4 ≤ off)
    (hm : setFptr m i 0 = some m') : m' = m := by
  unfold setFptr at hm
  split at hm
  · cases hm
    have hz : toLE 4 (0 : BitVec 32).toNat = load m (4 * i.toNat) 4 := (h (4 * i.toNat) 4 (by omega)).symm
    rw [hz, store, length_load (by omega), load, List.append_assoc, ← List.drop_drop, List.take_append_drop,
      List.take_append_drop]
  · cases hm

theorem ZeroBelow.main_eq {off : Nat} {a b : Int} {c : Option Int} (h : ZeroBelow m off) (ho : 2 ^ 31 ≤ off)
    (hm : main m a b c = some m') : m' = m := by
  have hdiv : ∀ x : Int, 4 * (toInt x).tdiv 4 + 4 ≤ off := by
    intro x
    have hle : (toInt x).tdiv 4 ≤ Int.tdiv (2 ^ 31 - 1) 4 :=
      Int.tdiv_le_tdiv (by decide) (by have := toInt_lt x; omega)
    rw [show Int.tdiv (2 ^ 31 - 1) 4 = 2 ^ 29 - 1 from rfl] at hle
    omega
  simp only [main] at hm
  split at hm
  · cases hm; rfl
  split at hm
  · cases hm; rfl
  split at hm
  · cases hm; rfl
  split at hm
  · cases hm; rfl
  split at hm
  · cases hm
  rename_i hle w hw
  have hb := hdiv b
  have hab : (toInt a).tdiv 4 ≤ (toInt b).tdiv 4 := Int.tdiv_le_tdiv (by decide) (by omega)
  obtain rfl := h.sumLoop_eq (by omega) hw
  refine h.setFptr_eq ?_ hm
  cases c with
  | none => exact hdiv b
  | some c => exact hdiv c

theorem ZeroBelow.insertChecksums_eq {off : Nat} (h : ZeroBelow m off) (ho : 2 ^ 31 ≤ off) :
    insertChecksums m es = m := by
  have hrun : ∀ a b c, runChecksum a b c m = m := by
    intro a b c
    unfold runChecksum
    cases hm : main m a b (some c) with
    | none => rfl
    | some m' => exact h.main_eq ho hm
  have hone : ∀ e, insertChecksum m e = m := by
    intro e
    rw [insertChecksum, hrun, hrun]
  induction es with
  | nil => rfl
  | cons e es ih =>
      rw [insertChecksums, List.foldl_cons, hone]
      exact ih

/-- An image of zeros but for the word at `off`, which is 1. -/
def loneWord (size off : Nat) : List UInt8 :=
  List.replicate off 0 ++ ([1, 0, 0, 0] ++ List.replicate (size - off - 4) 0)

theorem length_loneWord {size off : Nat} (h : off + 4 ≤ size) : (loneWord size off).length = size := by
  simp only [loneWord, List.length_append, List.length_replicate, List.length_cons, List.length_nil]
  omega

theorem loneWord_zeroBelow (size off : Nat) : ZeroBelow (loneWord size off) off := by
  intro k n h
  rw [loneWord, load_append_left (by rw [List.length_replicate]; exact h), load, List.drop_replicate,
    List.take_replicate, Nat.min_eq_left (by omega)]

theorem word_loneWord (size off : Nat) : word (loneWord size off) off = 1 := by
  have := load_append_mid (a := List.replicate off (0 : UInt8)) (b := [1, 0, 0, 0])
    (c := List.replicate (size - off - 4) 0)
  rw [List.length_replicate] at this
  rw [word, le32, show load (loneWord size off) off 4 = [1, 0, 0, 0] from this]
  rfl

theorem loneWord_not_balanced {size : Nat} (he : 4 ∣ e.stop) (h : 2 ^ 31 < e.stop) :
    ¬ e.Balanced (insertChecksums (loneWord size (e.stop - 4)) es) := by
  have hz := loneWord_zeroBelow size (e.stop - 4)
  rw [hz.insertChecksums_eq (by omega)]
  rintro ⟨-, hb⟩
  have hsum : wordSum (loneWord size (e.stop - 4)) 0 (e.stop - 8) = 0 := by
    refine List.sum_eq_zero fun w hw => ?_
    obtain ⟨k, hk, rfl⟩ := List.mem_map.mp hw
    rw [List.mem_range] at hk
    exact hz.word_eq (by omega)
  rw [hsum, word_loneWord] at hb
  exact absurd hb (by decide)

/-! ## The whole loop -/

/-- The loop of `FW.sh` balances every entry, in every image of this size and with nothing else changed,
exactly if no entry ends beyond 2 GiB. -/
theorem insertChecksums_balanced_iff {size : Nat} (map : ChecksumMap size) :
    (∀ m : List UInt8, m.length = size →
      OnlyChecksums map.entries m (insertChecksums m map.entries) ∧
        ∀ e ∈ map.entries, e.Balanced (insertChecksums m map.entries)) ↔
      ∀ e ∈ map.entries, e.stop ≤ 2 ^ 31 := by
  constructor
  · intro h e he
    by_contra hlow
    have hin := map.inside e he
    exact loneWord_not_balanced (map.aligned e he).2 (by omega)
      ((h (loneWord size (e.stop - 4)) (length_loneWord (by omega))).2 e he)
  · intro hlow m hm
    have : IsTrans Entry fun e e' => e.stop + 8 ≤ e'.stop := ⟨fun _ _ _ h h' => by omega⟩
    refine insertChecksums_spec (fun e he => ?_) (List.isChain_iff_pairwise.mp map.ordered)
    obtain ⟨hs, he'⟩ := map.aligned e he
    obtain ⟨h8, hsize, hse⟩ := map.inside e he
    exact ⟨hs, he', h8, hm ▸ hsize, hse, hlow e he⟩

def beyondMap : ChecksumMap (2 ^ 31 + 4) where
  entries := [⟨0, 2 ^ 31 + 4⟩]
  aligned := by decide
  inside := by decide
  ordered := by decide

/-- With an entry that ends 4 bytes beyond 2 GiB, the second checksum would go to the word at 2 GiB,
which stays 1. -/
theorem insertChecksums_beyond :
    (loneWord (2 ^ 31 + 4) (2 ^ 31)).length = 2 ^ 31 + 4 ∧
      ¬ ∀ e ∈ beyondMap.entries,
        e.Balanced (insertChecksums (loneWord (2 ^ 31 + 4) (2 ^ 31)) beyondMap.entries) :=
  ⟨length_loneWord (Nat.le_refl _), fun h =>
    loneWord_not_balanced (e := ⟨0, 2 ^ 31 + 4⟩) ⟨2 ^ 29 + 1, rfl⟩ (Nat.lt_add_of_pos_right (by decide))
      (h _ (List.mem_singleton_self _))⟩

/-- The entry of `FW_map.txt`. -/
def fwMap : ChecksumMap 0x800000 where
  entries := [⟨0x70000, 0x800000⟩]
  aligned := by decide
  inside := by decide
  ordered := by decide

example (m : List UInt8) (hm : m.length = 0x800000) :
    ∀ e ∈ fwMap.entries, e.Balanced (insertChecksums m fwMap.entries) := by
  refine (insertChecksums_spec (fun e he => ?_) (List.pairwise_singleton _ _)).2
  obtain rfl := List.mem_singleton.mp he
  exact ⟨by decide, by decide, by decide, hm ▸ Nat.le_refl _, by decide, by decide⟩

end CameraFw.Firmware
