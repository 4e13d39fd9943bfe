import CameraFw.Flash.Lemmas.Map

/-!
# The erase regions of any sector map

The loop of `pl_nor_mtd_init` pushes the sizes of the sectors onto runs; the regions are these runs,
laid out from 0.
-/

namespace CameraFw.Flash

open CameraFw.Base

def Region.lo (r : Region) : Nat := r.offset.toNat

def Region.hi (r : Region) : Nat := r.offset.toNat + r.numblocks.toNat * r.erasesize.toNat

/-- The regions of these runs, from `b` on. -/
def regionsAt : Nat → List (Nat × Nat) → List Region
  | _, [] => []
  | b, (z, n) :: rs => ⟨BitVec.ofNat 32 b, BitVec.ofNat 32 z, BitVec.ofNat 32 n⟩ :: regionsAt (b + n * z) rs

@[simp]
theorem length_regionsAt (b : Nat) (rs : List (Nat × Nat)) : (regionsAt b rs).length = rs.length := by
  induction rs generalizing b with
  | nil => rfl
  | cons r rs ih => simp [regionsAt, ih]

theorem regionsAt_append (b : Nat) (rs ss : List (Nat × Nat)) :
    regionsAt b (rs ++ ss) = regionsAt b rs ++ regionsAt (b + (expand rs).sum) ss := by
  induction rs generalizing b with
  | nil => simp [regionsAt]
  | cons r rs ih => simp [regionsAt, ih, Nat.add_assoc]

/-! ## The loop -/

/-- The size that the loop compares with: that of the last run. -/
def lastSize (rs : List (Nat × Nat)) : Nat := (rs.getLast?.map Prod.fst).getD 0

/-- The loop has filled in these runs, of `num` regions. -/
structure Grouped (num : Nat) (st : RegionState) (rs : List (Nat × Nat)) : Prop where
  regions : st.eraseregions = (regionsAt 0 rs).map some ++ List.replicate (num - rs.length) none
  used : st.used = rs.length
  cSize : st.cSize = BitVec.ofNat 32 (lastSize rs)

theorem lastSize_concat (rs : List (Nat × Nat)) (r : Nat × Nat) : lastSize (rs ++ [r]) = r.1 := by
  simp [lastSize]

/-- A sector of another size opens a region. -/
theorem Grouped.opened {num z : Nat} {st : RegionState} {rs : List (Nat × Nat)} (h : Grouped num st rs)
    (hlt : rs.length < num) (e : BitVec 32) :
    Grouped num ⟨st.eraseregions.set st.used (some ⟨BitVec.ofNat 32 (expand rs).sum, BitVec.ofNat 32 z, 1⟩),
      BitVec.ofNat 32 z, st.used + 1, e⟩ (rs ++ [(z, 1)]) := by
  refine ⟨?_, by rw [h.used, List.length_append]; rfl, by rw [lastSize_concat]⟩
  obtain ⟨k, hk⟩ : ∃ k, num - rs.length = k + 1 := ⟨num - rs.length - 1, by omega⟩
  have hrest : num - (rs ++ [(z, 1)]).length = k := by rw [List.length_append, List.length_singleton]; omega
  rw [h.regions, h.used, hrest, hk, regionsAt_append, Nat.zero_add, List.set_append_right _ _ (by simp)]
  simp [regionsAt, List.replicate_succ]

/-- A sector of the same size belongs to the last region. -/
theorem Grouped.extended {num z n : Nat} {st : RegionState} {rs : List (Nat × Nat)}
    (h : Grouped num st (rs ++ [(z, n)])) :
    Grouped num ⟨st.eraseregions.modify (st.used - 1)
      (Option.map fun p => { p with numblocks := p.numblocks + 1 }),
      st.cSize, st.used, st.erasesize⟩ (rs ++ [(z, n + 1)]) := by
  refine ⟨?_, by rw [h.used]; simp, by rw [h.cSize, lastSize_concat, lastSize_concat]⟩
  have hlen : (rs ++ [(z, n + 1)]).length = (rs ++ [(z, n)]).length := by simp
  have hlast : (rs ++ [(z, n)]).length - 1 = ((regionsAt 0 rs).map some).length := by simp
  rw [hlen, h.regions, h.used, hlast, regionsAt_append, regionsAt_append, List.map_append, List.map_append,
    List.append_assoc, List.append_assoc, List.modify_eq_set_getElem?]
  simp [regionsAt, BitVec.ofNat_add]

theorem Grouped.addRegions_cons {num z : Nat} {st : RegionState} {rs : List (Nat × Nat)}
    (h : Grouped num st rs) (hz : SizeOk z) (hlast : lastSize rs < 2 ^ 26)
    (hle : (push rs z).length ≤ num) (map : List Sector) :
    ∃ st', Grouped num st' (push rs z) ∧
      addRegions (⟨BitVec.ofNat 32 (expand rs).sum, BitVec.ofNat 32 z⟩ :: map) st = addRegions map st' := by
  have hsame : BitVec.ofNat 32 z = st.cSize ↔ z = lastSize rs := by
    have := hz.2
    rw [h.cSize, ← BitVec.toNat_inj, BitVec.toNat_ofNat, BitVec.toNat_ofNat]
    omega
  have hlen : rs.length ≤ num → st.eraseregions.length = num := by
    intro hrs
    rw [h.regions]
    simp [hrs]
  have hopen : rs.length < num → z ≠ lastSize rs → ∃ st', Grouped num st' (rs ++ [(z, 1)]) ∧
      addRegions (⟨BitVec.ofNat 32 (expand rs).sum, BitVec.ofNat 32 z⟩ :: map) st = addRegions map st' := by
    intro hlt hne
    refine ⟨_, h.opened hlt (if st.erasesize < BitVec.ofNat 32 z then BitVec.ofNat 32 z
      else st.erasesize), ?_⟩
    rw [Flash.addRegions, if_pos (fun heq => hne (hsame.mp heq)), if_neg (by rw [hlen hlt.le, h.used]; omega)]
  rcases List.eq_nil_or_concat' rs with rfl | ⟨rs, ⟨w, n⟩, rfl⟩
  · exact hopen hle hz.1.ne'
  · rw [push_concat] at hle ⊢
    rw [lastSize_concat] at hsame hopen
    by_cases heq : z = w
    · subst w
      rw [if_pos rfl]
      refine ⟨_, h.extended, ?_⟩
      rw [Flash.addRegions, if_neg (fun hne => hne (hsame.mpr rfl))]
    · rw [if_neg heq] at hle ⊢
      rw [List.length_append, List.length_singleton] at hle
      exact hopen hle heq

theorem Grouped.addRegions {num : Nat} : ∀ (zs : List Nat) {st : RegionState} {rs : List (Nat × Nat)},
    Grouped num st rs → Proper rs → (∀ z ∈ expand rs ++ zs, SizeOk z) → (zs.foldl push rs).length ≤ num →
      Grouped num (addRegions (layout (expand rs).sum zs) st) (zs.foldl push rs) := by
  intro zs
  induction zs with
  | nil => intro st rs h _ _ _; exact h
  | cons z zs ih =>
      intro st rs h hproper hok hle
      rw [List.foldl_cons] at hle ⊢
      have hlast : lastSize rs < 2 ^ 26 := by
        rcases List.eq_nil_or_concat' rs with rfl | ⟨rs, ⟨w, n⟩, rfl⟩
        · decide
        · have hn : 0 < n := hproper.pos (w, n) (by simp)
          rw [lastSize_concat]
          exact (hok w (by simp [hn.ne'])).2
      obtain ⟨st', hst', heq⟩ := h.addRegions_cons (hok z (by simp)) hlast
        ((length_le_foldl_push zs _).trans hle) (layout ((expand rs).sum + z) zs)
      have hsum : (expand rs).sum + z = (expand (push rs z)).sum := by rw [expand_push]; simp
      rw [layout, heq, hsum]
      refine ih hst' (hproper.push z) (fun w hw => hok w ?_) hle
      rw [expand_push] at hw
      simpa using hw

/-! ## What is published -/

/-- Both numbers of a run are what they are in the 32 bits of a region. -/
structure RunOk (r : Nat × Nat) : Prop where
  size : 0 < r.1 ∧ r.1 < 2 ^ 32
  number : 0 < r.2 ∧ r.2 < 2 ^ 32

theorem adjoins_regionsAt_cons {b e : Nat} {r : Nat × Nat} (hr : RunOk r) (rs : List (Nat × Nat)) :
    Adjoins Region.lo Region.hi b (regionsAt b (r :: rs)) e ↔
      b < 2 ^ 32 ∧ Adjoins Region.lo Region.hi (b + r.2 * r.1) (regionsAt (b + r.2 * r.1) rs) e := by
  obtain ⟨⟨hz, hzlt⟩, hn, hnlt⟩ := hr
  have hpos := Nat.mul_pos hn hz
  simp only [regionsAt, Adjoins, Region.lo, Region.hi, BitVec.toNat_ofNat, Nat.mod_eq_of_lt hzlt,
    Nat.mod_eq_of_lt hnlt]
  constructor
  · rintro ⟨hb, _, hrest⟩
    rw [hb] at hrest
    exact ⟨by omega, hrest⟩
  · rintro ⟨hb, hrest⟩
    rw [Nat.mod_eq_of_lt hb]
    exact ⟨rfl, by omega, hrest⟩

theorem sum_expand_cons (r : Nat × Nat) (rs : List (Nat × Nat)) :
    (expand (r :: rs)).sum = r.2 * r.1 + (expand rs).sum := by
  simp

/-- Regions that lie side by side end behind all their sectors. -/
theorem regionsAt_end {b e : Nat} {rs : List (Nat × Nat)} (hok : ∀ r ∈ rs, RunOk r)
    (h : Adjoins Region.lo Region.hi b (regionsAt b rs) e) : e = b + (expand rs).sum := by
  induction rs generalizing b with
  | nil => exact h.symm
  | cons r rs ih =>
      rw [adjoins_regionsAt_cons (hok r List.mem_cons_self)] at h
      rw [ih (fun s hs => hok s (List.mem_cons_of_mem _ hs)) h.2, sum_expand_cons, Nat.add_assoc]

theorem adjoins_regionsAt {b : Nat} {rs : List (Nat × Nat)} (hok : ∀ r ∈ rs, RunOk r)
    (hlt : b + (expand rs).sum < 2 ^ 32) :
    Adjoins Region.lo Region.hi b (regionsAt b rs) (b + (expand rs).sum) := by
  induction rs generalizing b with
  | nil => rfl
  | cons r rs ih =>
      rw [sum_expand_cons, ← Nat.add_assoc] at hlt ⊢
      rw [adjoins_regionsAt_cons (hok r List.mem_cons_self)]
      exact ⟨by omega, ih (fun s hs => hok s (List.mem_cons_of_mem _ hs)) hlt⟩

/-- The blocks of the regions are the sectors of the runs. -/
theorem blocks_regionsAt (b : Nat) {rs : List (Nat × Nat)} (hn : ∀ r ∈ rs, r.2 < 2 ^ 32) :
    (expand rs).map (BitVec.ofNat 32) =
      (regionsAt b rs).flatMap fun r => List.replicate r.numblocks.toNat r.erasesize := by
  induction rs generalizing b with
  | nil => rfl
  | cons r rs ih =>
      have hr : (BitVec.ofNat 32 r.2).toNat = r.2 := by
        rw [BitVec.toNat_ofNat, Nat.mod_eq_of_lt (hn r List.mem_cons_self)]
      rw [expand_cons, List.map_append, List.map_replicate, regionsAt, List.flatMap_cons, hr,
        ih (b + r.2 * r.1) fun s hs => hn s (List.mem_cons_of_mem _ hs)]

end CameraFw.Flash
