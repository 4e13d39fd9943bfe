import CameraFw.Flash.Lemmas.Regions
import CameraFw.Flash.Theorems

/-!
# The sector map and the erase regions

A full map stops only the loop over one set, so a later set is written behind its end; and regions are
counted by sets, but filled in by runs of equal sizes.
-/

namespace CameraFw.Flash

open CameraFw.Base

/-! ## The map -/

/-- The map is inside its array, its sectors lie side by side from 0 to `total_size`, and each address
below that is mapped to the one sector that contains it. -/
structure MapState.Sound (st : MapState) : Prop where
  within : st.map.length ≤ MAX_NOR_SECTOR
  contiguous : Adjoins Sector.lo Sector.hi 0 st.map (st.map.map fun s => s.size.toNat).sum
  total : st.totalSize.toInt = (st.map.map fun s => s.size.toNat).sum
  mapped : ∀ addr : BitVec 32, (addr.toNat : ℤ) < st.totalSize.toInt →
    ∃ s, mapSector st.map addr = some s ∧ s ∈ st.map ∧ (s.lo ≤ addr.toNat ∧ addr.toNat < s.hi) ∧
      ∀ t ∈ st.map, t.lo ≤ addr.toNat → addr.toNat < t.hi → t = s

/-- The map gets full in the last set with sectors at the earliest, and what it holds is below 2 GB. -/
structure Geometry.Fits (g : Geometry) : Prop where
  room : ((filled g.sectinfo).dropLast.map fun i => i.quantum.toNat).sum < MAX_NOR_SECTOR
  bytes : (g.sizes.take MAX_NOR_SECTOR).sum < 2 ^ 31

theorem within_iff (g : Geometry) :
    (generateMap g).map.length ≤ MAX_NOR_SECTOR ↔
      ((filled g.sectinfo).dropLast.map fun i => i.quantum.toNat).sum < MAX_NOR_SECTOR := by
  rw [(generateMap_laid g).1.map, length_layout, laidSizes_within_iff _ _ (Nat.zero_le _),
    List.length_nil, Nat.zero_add, or_iff_right_of_imp]
  intro h
  rw [h]
  decide

theorem Laid.take {g : Geometry} (h : (generateMap g).map.length ≤ MAX_NOR_SECTOR) :
    Laid (generateMap g) (g.sizes.take MAX_NOR_SECTOR) := by
  obtain ⟨hlaid, _⟩ := generateMap_laid g
  rw [hlaid.map, length_layout] at h
  have heq := laidSizes_eq g.sectinfo [] h
  rw [List.nil_append, List.length_nil, Nat.sub_zero] at heq
  rwa [heq] at hlaid

theorem sizes_layout {b : Nat} {zs : List Nat} (hok : ∀ z ∈ zs, SizeOk z) :
    (layout b zs).map (fun s => s.size.toNat) = zs := by
  have hsize := congrArg (List.map BitVec.toNat) (map_size_layout b zs)
  rw [List.map_map, List.map_map] at hsize
  refine hsize.trans ?_
  conv_rhs => rw [← List.map_id zs]
  refine List.map_congr_left fun z hz => ?_
  have := (hok z hz).2
  simp only [Function.comp_apply, BitVec.toNat_ofNat, id]
  omega

/-- The generated map is what it should be exactly if the geometry fits. -/
theorem generateMap_sound_iff (g : Geometry) : (generateMap g).Sound ↔ g.Fits := by
  have hok : ∀ z ∈ g.sizes.take MAX_NOR_SECTOR, SizeOk z :=
    fun z hz => sizeOk_of_mem (List.mem_of_mem_take hz)
  constructor
  · intro h
    have hlaid := Laid.take h.within
    have htotal := h.total
    rw [hlaid.map, sizes_layout hok] at htotal
    have hint := @BitVec.toInt_lt 32 (generateMap g).totalSize
    exact ⟨(within_iff g).mp h.within, by omega⟩
  · rintro ⟨hroom, hbytes⟩
    have hwithin := (within_iff g).mpr hroom
    have hlaid := Laid.take hwithin
    have hsum : ((generateMap g).map.map fun s => s.size.toNat).sum = (g.sizes.take MAX_NOR_SECTOR).sum := by
      rw [hlaid.map, sizes_layout hok]
    obtain ⟨hsize, hadj⟩ := hlaid.adjoins hok (by omega)
    have hint : (generateMap g).totalSize.toInt = (g.sizes.take MAX_NOR_SECTOR).sum := by
      rw [BitVec.toInt_eq_toNat_of_lt (by omega), hsize]
    obtain ⟨c, hmap, hend⟩ : ∃ c : Chip, c.map = (generateMap g).map ∧ c.size = (generateMap g).totalSize :=
      ⟨⟨_, (generateMap g).totalSize, hadj, hsize ▸ hbytes⟩, rfl, rfl⟩
    refine ⟨hwithin, by rwa [hsum, ← hsize], by rw [hsum, hint], fun addr haddr => ?_⟩
    obtain ⟨s, hs⟩ := c.mapSector_below (show addr.toNat < c.size.toNat by rw [hend]; omega)
    obtain ⟨hmem, hin⟩ := c.mapSector_iff.mp hs
    rw [← hmap]
    exact ⟨s, hs, hmem, hin, fun t ht hlo hhi => c.adjoins.unique ht hmem hlo hhi hin.1 hin.2⟩

/-- 1024 sectors of 64 KB, and one more of 8 KB. -/
def overfull : Geometry := ⟨⟨64, 1024⟩ :: ⟨8, 1⟩ :: List.replicate 14 ⟨0, 0⟩, rfl⟩

/-- The last sector is written behind the end of the map. -/
theorem overfull_written : (generateMap overfull).map[MAX_NOR_SECTOR]? = some ⟨0x4000000, 0x2000⟩ := by
  have hsizes : laidSizes overfull.sectinfo [] = List.replicate 1024 65536 ++ [8192] := by
    dsimp only [overfull]
    rw [List.replicate_succ]
    simp [laidSizes, added, MAX_NOR_SECTOR, -List.reduceReplicate]
  rw [(generateMap_laid overfull).1.map, hsizes, layout_append,
    List.getElem?_append_right (by rw [length_layout, List.length_replicate]; decide),
      List.sum_replicate, length_layout,
    List.length_replicate]
  rfl

/-! ## The regions -/

/-- These regions are published: all of them are filled in, they lie side by side from 0 to the size of
the chip, and their blocks are the sectors of the map. -/
structure Mtd.Published (m : Mtd) (map : List Sector) (rs : List Region) : Prop where
  initialised : m.eraseregions = rs.map some
  number : rs.length = m.numeraseregions
  adjoins : Adjoins Region.lo Region.hi 0 rs m.size.toNat
  sectors : map.map Sector.size = rs.flatMap fun r => List.replicate r.numblocks.toNat r.erasesize

/-- Each set that is counted has sectors, no set has the size of the one before, and the chip is below 4
GB. -/
structure Geometry.Regular (g : Geometry) : Prop where
  quanta : ∀ i ∈ usedSets g.sectinfo, i.quantum ≠ 0
  differ : (usedSets g.sectinfo).IsChain fun i k => i.size ≠ k.size
  bytes : g.sizes.sum < 2 ^ 32

theorem proper_run_iff (is : List SectInfo) :
    Proper (is.map SectInfo.run) ↔ (∀ i ∈ is, i.quantum ≠ 0) ∧ is.IsChain fun i k => i.size ≠ k.size := by
  have hpos : ∀ i : SectInfo, 0 < i.run.2 ↔ i.quantum ≠ 0 := by
    intro i
    rw [SectInfo.run, Nat.pos_iff_ne_zero, not_iff_not, ← BitVec.toNat_inj]
    rfl
  have hdiffer : ∀ i k : SectInfo, i.run.1 ≠ k.run.1 ↔ i.size ≠ k.size := by
    intro i k
    rw [SectInfo.run, SectInfo.run, not_iff_not, ← BitVec.toNat_inj]
    dsimp only
    omega
  constructor
  · intro h
    refine ⟨fun i hi => (hpos i).mp (h.pos _ (List.mem_map_of_mem hi)), ?_⟩
    exact (List.isChain_map _).mp h.differ |>.imp fun i k => (hdiffer i k).mp
  · rintro ⟨hquanta, hchain⟩
    refine ⟨?_, (List.isChain_map _).mpr (hchain.imp fun i k => (hdiffer i k).mpr)⟩
    intro r hr
    obtain ⟨i, hi, rfl⟩ := List.mem_map.mp hr
    exact (hpos i).mpr (hquanta i hi)

/-- The runs that the loop over the map finds. -/
def Geometry.runs (g : Geometry) : List (Nat × Nat) := g.sizes.foldl push []

theorem expand_runs (g : Geometry) : expand g.runs = g.sizes := expand_foldl_push g.sizes []

theorem proper_runs (g : Geometry) : Proper g.runs := Proper.nil.foldl_push g.sizes

theorem runOk_of_mem {g : Geometry} (hsmall : g.sizes.length ≤ MAX_NOR_SECTOR) {r : Nat × Nat}
    (hr : r ∈ g.runs) :
    RunOk r := by
  have hpos := (proper_runs g).pos r hr
  have hsub : List.replicate r.2 r.1 ⊆ expand g.runs := by
    intro z hz
    exact List.mem_flatMap.mpr ⟨r, hr, hz⟩
  have hlen : r.2 ≤ g.sizes.length := by
    obtain ⟨l, m, hl⟩ := List.append_of_mem hr
    rw [← expand_runs, hl, expand_append, expand_cons, List.length_append, List.length_append,
      List.length_replicate]
    omega
  have hsize : SizeOk r.1 := sizeOk_of_mem (g := g) (expand_runs g ▸ hsub
    (List.mem_replicate.mpr ⟨hpos.ne', rfl⟩))
  have hmax : MAX_NOR_SECTOR < 2 ^ 32 := by decide
  exact ⟨⟨hsize.1, by have := hsize.2; omega⟩, hpos, by omega⟩

theorem mtdInit_regions {g : Geometry} (hsmall : g.sizes.length ≤ MAX_NOR_SECTOR) :
    (generateMap g).map = layout 0 g.sizes ∧
      (mtdInit g).eraseregions = (regionsAt 0 g.runs).map some ++
        List.replicate ((usedSets g.sectinfo).length - g.runs.length) none ∧
      (mtdInit g).numeraseregions = (usedSets g.sectinfo).length ∧
        (mtdInit g).size = BitVec.ofNat 32 g.sizes.sum := by
  have hlaid := Laid.all hsmall
  have hnum := (generateMap_laid g).2
  have hmap : (generateMap g).map = layout 0 g.sizes := hlaid.map
  have hle : g.runs.length ≤ (usedSets g.sectinfo).length := by
    rw [← List.length_map (f := SectInfo.run)]
    exact ((proper_runs g).length_le (expand_runs g)).1
  have hgrouped := @Grouped.addRegions (usedSets g.sectinfo).length g.sizes
    ⟨List.replicate (usedSets g.sectinfo).length none, 0, 0, 0⟩ [] ⟨rfl, rfl, rfl⟩ Proper.nil
    (fun z hz => sizeOk_of_mem (g := g) (by simpa using hz)) hle
  refine ⟨hmap, ?_, hnum, hlaid.total⟩
  rw [expand_nil, List.sum_nil, ← hmap, ← hnum] at hgrouped
  rw [← hnum]
  exact hgrouped.regions

/-- The regions of a chip with at most 1024 sectors are what they should be exactly if each set is a run
of its own. -/
theorem mtdInit_published_iff (g : Geometry) (hsmall : g.sizes.length ≤ MAX_NOR_SECTOR) :
    (∃ rs, (mtdInit g).Published (generateMap g).map rs) ↔ g.Regular := by
  obtain ⟨hmap, hregions, hnum, hsize⟩ := mtdInit_regions hsmall
  have hlen : g.runs.length = (usedSets g.sectinfo).length ↔
      (∀ i ∈ usedSets g.sectinfo, i.quantum ≠ 0) ∧
        (usedSets g.sectinfo).IsChain fun i k => i.size ≠ k.size := by
    rw [← proper_run_iff, ← (proper_runs g).length_eq_iff (expand_runs g), List.length_map]
  constructor
  · rintro ⟨rs, h⟩
    have hfull : (usedSets g.sectinfo).length - g.runs.length = 0 := by
      by_contra hne
      have hnone : none ∈ (mtdInit g).eraseregions := by
        rw [hregions, List.mem_append, List.mem_replicate]
        exact .inr ⟨hne, rfl⟩
      rw [h.initialised] at hnone
      simp at hnone
    rw [hfull, List.replicate_zero, List.append_nil] at hregions
    have hrs : rs = regionsAt 0 g.runs :=
      List.map_injective_iff.mpr (Option.some_injective _) (h.initialised.symm.trans hregions)
    have hnumber := h.number
    have hadj := h.adjoins
    rw [hrs, length_regionsAt, hnum] at hnumber
    rw [hrs, hsize] at hadj
    obtain ⟨hquanta, hdiffer⟩ := hlen.mp hnumber
    have hend := regionsAt_end (fun r hr => runOk_of_mem hsmall hr) hadj
    rw [expand_runs, BitVec.toNat_ofNat] at hend
    exact ⟨hquanta, hdiffer, by omega⟩
  · rintro ⟨hquanta, hdiffer, hbytes⟩
    have hall := hlen.mpr ⟨hquanta, hdiffer⟩
    rw [hall, Nat.sub_self, List.replicate_zero, List.append_nil] at hregions
    refine ⟨regionsAt 0 g.runs, hregions, by rw [length_regionsAt, hnum, hall], ?_, ?_⟩
    · have hadj := adjoins_regionsAt (b := 0) (fun r hr => runOk_of_mem hsmall hr)
        (by rw [expand_runs]; omega)
      rwa [expand_runs, Nat.zero_add, ← Nat.mod_eq_of_lt hbytes, ← BitVec.toNat_ofNat, ← hsize] at hadj
    · rw [hmap, map_size_layout, ← expand_runs]
      exact blocks_regionsAt 0 fun r hr => (runOk_of_mem hsmall hr).number.2

/-- A chip with smaller sectors at its beginning is published. -/
theorem mtdInit_published_boot : bootSectors.sizes.length ≤ MAX_NOR_SECTOR ∧ bootSectors.Regular ∧
    ∃ rs, (mtdInit bootSectors).Published (generateMap bootSectors).map rs := by
  have hregular : bootSectors.Regular := ⟨by decide, by decide, by decide⟩
  exact ⟨by decide, hregular, (mtdInit_published_iff bootSectors (by decide)).mpr hregular⟩

/-- Two sets of sectors of the same size. -/
def twins : Geometry := ⟨⟨64, 3⟩ :: ⟨64, 1⟩ :: List.replicate 14 ⟨0, 0⟩, rfl⟩

/-- Two regions are published, but all sectors go into the first. -/
theorem twins_unfilled : twins.sizes.length ≤ MAX_NOR_SECTOR ∧
    (mtdInit twins).numeraseregions = 2 ∧ (mtdInit twins).eraseregions = [some ⟨0, 0x10000, 4⟩, none] := by
  decide

end CameraFw.Flash
