import CameraFw.Base.Runs
import CameraFw.Flash.Lemmas.Erase
import CameraFw.Flash.Regions

/-!
# The sector map of any geometry

The map as the sizes of its sectors, whatever comes out of the two loops, and the erase regions as its
runs of equal sizes.
-/

namespace CameraFw.Flash

open CameraFw.Base

/-! ## Sectors one after the other -/

/-- Sectors of these sizes from address `b` on, in the 32 bits of the map. -/
def layout : Nat → List Nat → List Sector
  | _, [] => []
  | b, z :: zs => ⟨BitVec.ofNat 32 b, BitVec.ofNat 32 z⟩ :: layout (b + z) zs

@[simp]
theorem length_layout (b : Nat) (zs : List Nat) : (layout b zs).length = zs.length := by
  induction zs generalizing b with
  | nil => rfl
  | cons z zs ih => simp [layout, ih]

theorem layout_append (b : Nat) (zs ws : List Nat) :
    layout b (zs ++ ws) = layout b zs ++ layout (b + zs.sum) ws := by
  induction zs generalizing b with
  | nil => simp [layout]
  | cons z zs ih => simp [layout, ih, Nat.add_assoc]

theorem map_size_layout (b : Nat) (zs : List Nat) :
    (layout b zs).map Sector.size = zs.map (BitVec.ofNat 32) := by
  induction zs generalizing b with
  | nil => rfl
  | cons z zs ih => simp [layout, ih]

/-- Sizes of sectors: some KB, in 16 bits. -/
def SizeOk (z : Nat) : Prop := 0 < z ∧ z < 2 ^ 26

theorem adjoins_layout {b : Nat} {zs : List Nat} (hok : ∀ z ∈ zs, SizeOk z) (hlt : b + zs.sum < 2 ^ 32) :
    Adjoins Sector.lo Sector.hi b (layout b zs) (b + zs.sum) := by
  induction zs generalizing b with
  | nil => rfl
  | cons z zs ih =>
      obtain ⟨hpos, hz⟩ := hok z List.mem_cons_self
      rw [List.sum_cons] at hlt ⊢
      have hlo : (BitVec.ofNat 32 b).toNat = b := by rw [BitVec.toNat_ofNat]; omega
      have hsize : (BitVec.ofNat 32 z).toNat = z := by rw [BitVec.toNat_ofNat]; omega
      refine ⟨hlo, by simp only [Sector.lo, Sector.hi, hlo, hsize]; omega, ?_⟩
      simp only [Sector.hi, hlo, hsize]
      rw [← Nat.add_assoc]
      exact ih (fun w hw => hok w (List.mem_cons_of_mem _ hw)) (by omega)

/-- The loops have laid out sectors of these sizes. -/
structure Laid (st : MapState) (zs : List Nat) : Prop where
  map : st.map = layout 0 zs
  addr : st.addr = BitVec.ofNat 32 zs.sum
  total : st.totalSize = BitVec.ofNat 32 zs.sum

/-- One sector more. -/
theorem Laid.concat {st : MapState} {zs : List Nat} (h : Laid st zs) (size : BitVec 32) :
    Laid ⟨st.map ++ [⟨st.addr, size⟩], st.addr + size, st.totalSize + size, st.numEraseRegions⟩
      (zs ++ [size.toNat]) := by
  have hsum : BitVec.ofNat 32 zs.sum + size = BitVec.ofNat 32 (zs ++ [size.toNat]).sum := by
    rw [List.sum_append, List.sum_singleton, BitVec.ofNat_add, BitVec.ofNat_toNat, BitVec.setWidth_eq]
  refine ⟨?_, by rw [← hsum, h.addr], by rw [← hsum, h.total]⟩
  rw [layout_append, h.map, h.addr]
  simp [layout]

/-- Where the addresses do not wrap, the sectors lie side by side up to the size of the chip. -/
theorem Laid.adjoins {st : MapState} {zs : List Nat} (h : Laid st zs) (hok : ∀ z ∈ zs, SizeOk z)
    (hlt : zs.sum < 2 ^ 32) :
    st.totalSize.toNat = zs.sum ∧ Adjoins Sector.lo Sector.hi 0 st.map st.totalSize.toNat := by
  have hsize : st.totalSize.toNat = zs.sum := by
    rw [h.total, BitVec.toNat_ofNat]
    omega
  have hadj := adjoins_layout (b := 0) hok (by omega)
  rw [Nat.zero_add, ← h.map, ← hsize] at hadj
  exact ⟨hsize, hadj⟩

/-- How many of `j` sectors the inner loop adds to `n`: it stops when the map gets full, but not when it
is already. -/
def added (n j : Nat) : Nat := if n < MAX_NOR_SECTOR then min j (MAX_NOR_SECTOR - n) else j

theorem append_added_succ (zs : List Nat) (z j : Nat) :
    zs ++ List.replicate (added zs.length (j + 1)) z =
      if zs.length + 1 = MAX_NOR_SECTOR then zs ++ [z]
      else zs ++ [z] ++ List.replicate (added (zs ++ [z]).length j) z := by
  have hpos : 0 < MAX_NOR_SECTOR := by decide
  split
  · rw [added, if_pos (by omega), show min (j + 1) (MAX_NOR_SECTOR - zs.length) = 1 by omega]
    rfl
  · rw [List.append_assoc, List.singleton_append, ← List.replicate_succ, List.length_append,
      List.length_singleton]
    congr 2
    unfold added
    split <;> split <;> omega

theorem Laid.addSectors {size : BitVec 32} : ∀ (j : Nat) {st : MapState} {zs : List Nat}, Laid st zs →
    Laid (addSectors size j st) (zs ++ List.replicate (added zs.length j) size.toNat) ∧
      (Flash.addSectors size j st).numEraseRegions = st.numEraseRegions := by
  intro j
  induction j with
  | zero => intro st zs h; simpa [Flash.addSectors, added] using h
  | succ j ih =>
      intro st zs h
      have hlen : st.map.length = zs.length := by rw [h.map, length_layout]
      simp only [Flash.addSectors, List.length_append, List.length_singleton, hlen]
      rw [append_added_succ]
      split
      · exact ⟨h.concat size, rfl⟩
      · exact ih (h.concat size)

/-! ## All sets -/

def SectInfo.bytes (i : SectInfo) : Nat := i.quantum.toNat * (i.size.toNat * 1024)

/-- The entries in front of the first one with size 0. -/
def usedSets : List SectInfo → List SectInfo
  | [] => []
  | i :: is => if i.size = 0 then [] else i :: usedSets is

theorem shifted_size {size : BitVec 16} : (size.setWidth 32 <<< 10).toNat = size.toNat * 1024 := by
  have hlt := size.isLt
  rw [BitVec.toNat_shiftLeft, BitVec.toNat_setWidth, Nat.shiftLeft_eq]
  omega

/-- The sizes that the two loops lay out behind `zs`. -/
def laidSizes : List SectInfo → List Nat → List Nat
  | [], zs => zs
  | i :: is, zs =>
      if i.size = 0 then zs
      else laidSizes is (zs ++ List.replicate (added zs.length i.quantum.toNat) (i.size.toNat * 1024))

theorem Laid.addSets : ∀ (is : List SectInfo) {st : MapState} {zs : List Nat}, Laid st zs →
    Laid (addSets is st) (laidSizes is zs) ∧
      (Flash.addSets is st).numEraseRegions = st.numEraseRegions + (usedSets is).length := by
  intro is
  induction is with
  | nil => intro st zs h; exact ⟨h, rfl⟩
  | cons i is ih =>
      intro st zs h
      rw [Flash.addSets, laidSizes, usedSets]
      split
      · exact ⟨h, rfl⟩
      · have hstep := @Laid.addSectors (i.size.setWidth 32 <<< 10) i.quantum.toNat
          { st with numEraseRegions := st.numEraseRegions + 1 } zs ⟨h.map, h.addr, h.total⟩
        rw [shifted_size] at hstep
        obtain ⟨hlaid, hnum⟩ := ih hstep.1
        have hcount := hstep.2
        dsimp only at hcount
        exact ⟨hlaid, by rw [hnum, hcount, List.length_cons]; omega⟩

/-- The runs of sectors that the sets describe: size in bytes and number. -/
def SectInfo.run (i : SectInfo) : Nat × Nat := (i.size.toNat * 1024, i.quantum.toNat)

/-- The sizes of all sectors of the chip. -/
def Geometry.sizes (g : Geometry) : List Nat := expand ((usedSets g.sectinfo).map SectInfo.run)

/-- The sets that have any sectors. -/
def filled (is : List SectInfo) : List SectInfo := (usedSets is).filter fun i => i.quantum ≠ 0

theorem filled_cons {i : SectInfo} {is : List SectInfo} (hsize : i.size ≠ 0) :
    filled (i :: is) = if i.quantum = 0 then filled is else i :: filled is := by
  rw [filled, usedSets, if_neg hsize]
  split
  · rw [List.filter_cons_of_neg (by simpa using ‹_›)]
    rfl
  · rw [List.filter_cons_of_pos (by simpa using ‹_›)]
    rfl

theorem length_le_laidSizes :
    ∀ (is : List SectInfo) (zs : List Nat), zs.length ≤ (laidSizes is zs).length := by
  intro is
  induction is with
  | nil => intro zs; exact Nat.le_refl _
  | cons i is ih =>
      intro zs
      rw [laidSizes]
      split
      · exact Nat.le_refl _
      · refine Nat.le_trans ?_ (ih _)
        simp

/-- The loops stay inside the map exactly if it is not full before the last set that has sectors. -/
theorem laidSizes_within_iff : ∀ (is : List SectInfo) (zs : List Nat), zs.length ≤ MAX_NOR_SECTOR →
    ((laidSizes is zs).length ≤ MAX_NOR_SECTOR ↔
      filled is = [] ∨ zs.length + ((filled is).dropLast.map fun i => i.quantum.toNat).sum <
        MAX_NOR_SECTOR) := by
  intro is
  induction is with
  | nil => intro zs h; simpa [laidSizes, filled, usedSets] using h
  | cons i is ih =>
      intro zs h
      by_cases hsize : i.size = 0
      · simpa [laidSizes, filled, usedSets, hsize] using h
      · by_cases hq : i.quantum = 0
        · have hsame : laidSizes (i :: is) zs = laidSizes is zs := by
            rw [laidSizes, if_neg hsize, hq]
            simp [added]
          rw [filled_cons hsize, if_pos hq, hsame, ih zs h]
        · have hpos : i.quantum.toNat ≠ 0 := fun h0 => hq (BitVec.eq_of_toNat_eq h0)
          obtain ⟨ws, hws⟩ : ∃ ws, ws = zs ++
              List.replicate (added zs.length i.quantum.toNat) (i.size.toNat * 1024) :=
            ⟨_, rfl⟩
          have hlen : ws.length = zs.length + added zs.length i.quantum.toNat := by rw [hws]; simp
          rw [laidSizes, if_neg hsize, ← hws, filled_cons hsize, if_neg hq]
          rcases Nat.lt_or_eq_of_le h with hlt | hfull
          · rw [added, if_pos hlt] at hlen
            rw [ih ws (by omega)]
            cases hrest : filled is with
            | nil => simpa using hlt
            | cons k ks =>
                simp only [List.dropLast_cons_cons, List.map_cons, List.sum_cons, reduceCtorEq, false_or]
                omega
          · -- the map is full: the inner loop goes on behind its end
            rw [added, if_neg (by omega)] at hlen
            have hgrow := length_le_laidSizes is ws
            simp only [reduceCtorEq, false_or]
            omega

/-- What fits into the map is laid out as the sets say. -/
theorem laidSizes_eq : ∀ (is : List SectInfo) (zs : List Nat), (laidSizes is zs).length ≤ MAX_NOR_SECTOR →
    laidSizes is zs = zs ++ (expand ((usedSets is).map SectInfo.run)).take (MAX_NOR_SECTOR - zs.length) := by
  intro is
  induction is with
  | nil => intro zs _; simp [laidSizes, usedSets]
  | cons i is ih =>
      intro zs h
      have hgrow := length_le_laidSizes (i :: is) zs
      rw [laidSizes] at h ⊢
      rw [usedSets]
      by_cases hsize : i.size = 0
      · simp [hsize]
      · rw [if_neg hsize] at h ⊢
        have hlt := length_le_laidSizes is
          (zs ++ List.replicate (added zs.length i.quantum.toNat) (i.size.toNat * 1024))
        rw [ih _ h, if_neg hsize, List.map_cons, expand_cons, List.take_append, List.take_replicate,
          List.append_assoc]
        rw [List.length_append, List.length_replicate] at hlt ⊢
        replace hlt := hlt.trans h
        have hadd : added zs.length i.quantum.toNat = min (MAX_NOR_SECTOR - zs.length) i.quantum.toNat := by
          unfold added at hlt ⊢
          split <;> split at hlt <;> omega
        rw [hadd, SectInfo.run, List.length_replicate]
        congr 3
        omega

/-- A chip with room for all its sectors has them all laid out. -/
theorem laidSizes_all : ∀ (is : List SectInfo) (zs : List Nat),
    zs.length + (expand ((usedSets is).map SectInfo.run)).length ≤ MAX_NOR_SECTOR →
      laidSizes is zs = zs ++ expand ((usedSets is).map SectInfo.run) := by
  intro is
  induction is with
  | nil => intro zs _; simp [laidSizes, usedSets]
  | cons i is ih =>
      intro zs h
      rw [laidSizes]
      rw [usedSets] at h ⊢
      by_cases hsize : i.size = 0
      · simp [hsize]
      · rw [if_neg hsize, List.map_cons, expand_cons, List.length_append, List.length_replicate] at h
        rw [if_neg hsize, if_neg hsize, List.map_cons, expand_cons, ← List.append_assoc]
        have hadd : added zs.length i.quantum.toNat = i.run.2 := by
          unfold added
          simp only [SectInfo.run] at h ⊢
          split <;> omega
        rw [hadd]
        refine ih _ ?_
        rw [List.length_append, List.length_replicate]
        omega

theorem sizeOk_of_mem {g : Geometry} {z : Nat} (h : z ∈ g.sizes) : SizeOk z := by
  have hused : ∀ is : List SectInfo, ∀ i ∈ usedSets is, i.size ≠ 0 := by
    intro is
    induction is with
    | nil => simp [usedSets]
    | cons k ks ih =>
        intro i hi
        rw [usedSets] at hi
        split at hi
        · cases hi
        · rcases List.mem_cons.mp hi with rfl | hi
          · assumption
          · exact ih i hi
  obtain ⟨r, hr, hz⟩ := List.mem_flatMap.mp h
  obtain ⟨i, hi, rfl⟩ := List.mem_map.mp hr
  have hne : i.size.toNat ≠ 0 := fun h0 => hused _ i hi (BitVec.eq_of_toNat_eq h0)
  have hlt := i.size.isLt
  rw [List.eq_of_mem_replicate hz, SectInfo.run]
  exact ⟨by omega, by omega⟩

theorem generateMap_laid (g : Geometry) : Laid (generateMap g) (laidSizes g.sectinfo []) ∧
    (generateMap g).numEraseRegions = (usedSets g.sectinfo).length := by
  have h := @Laid.addSets g.sectinfo ⟨[], 0, 0, 0⟩ [] ⟨rfl, rfl, rfl⟩
  rw [Nat.zero_add] at h
  exact h

theorem Laid.all {g : Geometry} (h : g.sizes.length ≤ MAX_NOR_SECTOR) : Laid (generateMap g) g.sizes := by
  have hlaid := (generateMap_laid g).1
  rwa [laidSizes_all g.sectinfo [] (by rwa [List.length_nil, Nat.zero_add]), List.nil_append] at hlaid

theorem length_sizes (g : Geometry) :
    g.sizes.length = ((usedSets g.sectinfo).map fun i => i.quantum.toNat).sum := by
  rw [Geometry.sizes, length_expand, List.map_map]
  rfl

theorem sum_sizes (g : Geometry) : g.sizes.sum = ((usedSets g.sectinfo).map SectInfo.bytes).sum := by
  rw [Geometry.sizes, sum_expand, List.map_map]
  rfl

/-- The chip of a geometry that fits into the map and into the range of `total_size`. -/
def Geometry.chip (g : Geometry)
    (hroom : ((usedSets g.sectinfo).map fun i => i.quantum.toNat).sum ≤ MAX_NOR_SECTOR)
    (hlt : ((usedSets g.sectinfo).map SectInfo.bytes).sum < 2 ^ 31) : Chip :=
  have hsum : g.sizes.sum < 2 ^ 31 := (sum_sizes g).trans_lt hlt
  have h := (Laid.all (length_sizes g ▸ hroom)).adjoins (fun _ => sizeOk_of_mem) (hsum.trans (by decide))
  { map := (generateMap g).map
    size := (generateMap g).totalSize
    adjoins := h.2
    small := h.1.trans_lt hsum }

end CameraFw.Flash
