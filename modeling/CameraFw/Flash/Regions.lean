import CameraFw.Flash.Erase

/-!
# The erase regions of the NOR flash driver

What `pl_nor_mtd_init` of `pl_nor.c` publishes about the chip. The regions are allocated for as many
sets as `pl_nor_generate_map` has counted, and filled in from the sector map; a region is `none` until
it is filled in.
-/

namespace CameraFw.Flash

/-- `struct mtd_erase_region_info`. -/
structure Region where
  offset : BitVec 32
  erasesize : BitVec 32
  numblocks : BitVec 32
  deriving DecidableEq, Repr

/-- The variables of the loop; `used` is `c_idx + 1`. -/
structure RegionState where
  eraseregions : List (Option Region)
  cSize : BitVec 32
  used : Nat
  erasesize : BitVec 32
  deriving DecidableEq, Repr

def addRegions : List Sector → RegionState → RegionState
  | [], st => st
  | s :: map, st =>
      if s.size ≠ st.cSize then
        -- "Shouldn't be here... Wrong!!"
        if st.eraseregions.length ≤ st.used then { st with used := st.used + 1 }
        else addRegions map {
          eraseregions := st.eraseregions.set st.used (some ⟨s.startAddr, s.size, 1⟩)
          cSize := s.size
          used := st.used + 1
          erasesize := if st.erasesize < s.size then s.size else st.erasesize }
      else addRegions map { st with
        eraseregions := st.eraseregions.modify (st.used - 1)
          (Option.map fun p => { p with numblocks := p.numblocks + 1 }) }

/-- The fields of `struct mtd_info` that describe the chip. -/
structure Mtd where
  size : BitVec 32
  erasesize : BitVec 32
  numeraseregions : Nat
  eraseregions : List (Option Region)
  deriving DecidableEq, Repr

/-- `pl_nor_mtd_init`, where the allocation and the calls around it succeed. -/
def mtdInit (g : Geometry) : Mtd :=
  let st := generateMap g
  let regions := addRegions st.map ⟨List.replicate st.numEraseRegions none, 0, 0, 0⟩
  ⟨st.totalSize, regions.erasesize, st.numEraseRegions, regions.eraseregions⟩

end CameraFw.Flash
