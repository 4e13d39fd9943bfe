import CameraFw.Flash.Erase

/-!
# Sectors of a chip and the erase loop
-/

namespace CameraFw.Flash

open CameraFw.Base

def Sector.lo (s : Sector) : Nat := s.startAddr.toNat

def Sector.hi (s : Sector) : Nat := s.startAddr.toNat + s.size.toNat

/-- A chip whose sectors divide its addresses among them. `total_size` is an `int`. -/
structure Chip where
  map : List Sector
  size : BitVec 32
  adjoins : Adjoins Sector.lo Sector.hi 0 map size.toNat
  small : size.toNat < 2 ^ 31

/-! ## The erase loop -/

section Chip

variable {c : Chip}

theorem Chip.mapSector_iff {addr : BitVec 32} {s : Sector} :
    mapSector c.map addr = some s ↔ s ∈ c.map ∧ s.lo ≤ addr.toNat ∧ addr.toNat < s.hi := by
  -- no sector reaches beyond the chip, so the sum in the test does not wrap
  have htest : ∀ t ∈ c.map,
      (t.startAddr ≤ addr && addr < t.startAddr + t.size) = true ↔ t.lo ≤ addr.toNat ∧ addr.toNat < t.hi := by
    intro t ht
    have hhi := (c.adjoins.bounds ht).2.2
    have hsmall := c.small
    simp only [Sector.hi] at hhi
    have hsum : (t.startAddr + t.size).toNat = t.hi := BitVec.toNat_add_of_lt (by omega)
    simp only [Bool.and_eq_true, decide_eq_true_eq, BitVec.le_def, BitVec.lt_def, hsum, Sector.lo]
  constructor
  · intro h
    have hmem := List.mem_of_find?_eq_some h
    exact ⟨hmem, (htest s hmem).mp (by simpa using List.find?_some h)⟩
  · rintro ⟨hs, hlo, hhi⟩
    obtain ⟨t, ht⟩ : ∃ t, mapSector c.map addr = some t := by
      rw [← Option.isSome_iff_exists, mapSector, List.find?_isSome]
      exact ⟨s, hs, by simpa using (htest s hs).mpr ⟨hlo, hhi⟩⟩
    have hmem := List.mem_of_find?_eq_some ht
    obtain ⟨hlo', hhi'⟩ := (htest t hmem).mp (by simpa using List.find?_some ht)
    rw [ht, c.adjoins.unique hmem hs hlo' hhi' hlo hhi]

theorem Chip.mapSector_below {addr : BitVec 32} (h : addr.toNat < c.size.toNat) :
    ∃ s, mapSector c.map addr = some s := by
  obtain ⟨s, hs, hin⟩ := c.adjoins.covered (Nat.zero_le _) h
  exact ⟨s, mapSector_iff.mpr ⟨hs, hin⟩⟩

/-- The state after a sector, as numbers. -/
theorem erase_next {len addr : BitVec 32} {s : Sector} {limit : Nat} (hs : s ∈ c.map)
    (hlen : len.toInt = (limit : Int) - addr.toNat) (hlimit : limit ≤ c.size.toNat)
    (hlt : addr.toNat < limit) :
    (addr + s.size).toNat = addr.toNat + (s.hi - s.lo) ∧
      (len - s.size).toInt = (limit : Int) - (addr + s.size).toNat := by
  have hhi := (c.adjoins.bounds hs).2.2
  have hsmall := c.small
  have hsize : s.hi - s.lo = s.size.toNat := by simp [Sector.hi, Sector.lo]
  simp only [Sector.hi] at hhi
  have hsum : (addr + s.size).toNat = addr.toNat + s.size.toNat := BitVec.toNat_add_of_lt (by omega)
  have hint : s.size.toInt = s.size.toNat := BitVec.toInt_eq_toNat_of_lt (by omega)
  refine ⟨by omega, ?_⟩
  rw [BitVec.toInt_sub, hlen, hint, hsum, Int.bmod_eq_of_le (by omega) (by omega)]
  push_cast
  omega

theorem eraseLoop_visits {ok : Nat → Bool} (hok : ∀ k, ok k = true) {limit : Nat}
    (hlimit : limit ≤ c.size.toNat) :
    ∀ fuel i st, st.len.toInt = (limit : Int) - st.addr.toNat → limit - st.addr.toNat < fuel →
      ∃ new, whileLoop (erasePass c.map) ok fuel i st = some ⟨.ok, st.erased ++ new⟩ ∧
        ∀ x, x ∈ new ↔ ∃ s, Visit Sector.lo Sector.hi c.map limit st.addr.toNat s ∧ x = s.startAddr := by
  intro fuel
  induction fuel with
  | zero => intro i st _ h; omega
  | succ fuel ih =>
      intro i st hlen hfuel
      have hgo : (0#32).slt st.len = true ↔ st.addr.toNat < limit := by
        rw [BitVec.slt, decide_eq_true_eq, hlen]
        simp
      by_cases hlt : st.addr.toNat < limit
      · obtain ⟨s, hs⟩ := c.mapSector_below (by omega : st.addr.toNat < c.size.toNat)
        obtain ⟨hmem, hlo, hhi⟩ := Chip.mapSector_iff.mp hs
        obtain ⟨haddr, hnext⟩ := erase_next hmem hlen hlimit hlt
        obtain ⟨new, hrun, hnew⟩ := ih (i + 1) ⟨st.len - s.size, st.addr + s.size, st.erased ++
          [s.startAddr]⟩ hnext (by simp only [haddr]; omega)
        refine ⟨s.startAddr :: new, ?_, fun x => ?_⟩
        · simp [whileLoop, erasePass, hgo.mpr hlt, hs, hok, hrun]
        · rw [List.mem_cons, hnew]
          simp only [haddr]
          constructor
          · rintro (rfl | ⟨t, ht, rfl⟩)
            · exact ⟨s, .here hlt hmem hlo hhi, rfl⟩
            · exact ⟨t, .next hlt hmem hlo hhi ht, rfl⟩
          · rintro ⟨t, ht, rfl⟩
            cases ht with
            | here _ ht hlo' hhi' => exact .inl (by rw [c.adjoins.unique ht hmem hlo' hhi' hlo hhi])
            | next _ hu hlo' hhi' ht =>
                cases c.adjoins.unique hu hmem hlo' hhi' hlo hhi
                exact .inr ⟨t, ht, rfl⟩
      · have hstop : (0#32).slt st.len = false := by
          rw [← Bool.not_eq_true]
          exact fun h => hlt (hgo.mp h)
        refine ⟨[], by simp [whileLoop, erasePass, hstop], fun x => ?_⟩
        constructor
        · intro hx; cases hx
        · rintro ⟨s, hs, _⟩
          exact absurd hs.lt.2.1 hlt

end Chip

end CameraFw.Flash
