import CameraFw.Base.Segments
import CameraFw.Flash.Transfer

/-!
# The sector map and the erase of the NOR flash driver

`pl_nor_generate_map`, `pl_nor_map_sector` and `pl_nor_flash_erase` of `pl_nor.c`. The map is the list
of the entries of `nor_sector_map` that have been written, in the order of their index.
-/

namespace CameraFw.Flash

open CameraFw.Base

/-! ## The sector map -/

/-- An entry of the tag that the boot loader passes: the size in KB and the number of such sectors. -/
structure SectInfo where
  size : BitVec 16
  quantum : BitVec 16
  deriving DecidableEq, Repr

def MAX_SECTOR_SET : Nat := 16
def MAX_NOR_SECTOR : Nat := 1024

structure Geometry where
  sectinfo : List SectInfo
  sets : sectinfo.length = MAX_SECTOR_SET

structure Sector where
  startAddr : BitVec 32
  size : BitVec 32
  deriving DecidableEq, Repr

structure MapState where
  map : List Sector
  addr : BitVec 32
  totalSize : BitVec 32
  numEraseRegions : Nat
  deriving DecidableEq, Repr

/-- The inner loop. The check for `MAX_NOR_SECTOR` leaves only this loop. -/
def addSectors (size : BitVec 32) : Nat → MapState → MapState
  | 0, st => st
  | j + 1, st =>
      let st : MapState := { st with
        map := st.map ++ [⟨st.addr, size⟩]
        addr := st.addr + size
        totalSize := st.totalSize + size }
      if st.map.length = MAX_NOR_SECTOR then st else addSectors size j st

def addSets : List SectInfo → MapState → MapState
  | [], st => st
  | i :: is, st =>
      if i.size = 0 then st
      else addSets is (addSectors (i.size.setWidth 32 <<< 10) i.quantum.toNat
        { st with numEraseRegions := st.numEraseRegions + 1 })

def generateMap (g : Geometry) : MapState := addSets g.sectinfo ⟨[], 0, 0, 0⟩

def mapSector (map : List Sector) (addr : BitVec 32) : Option Sector :=
  map.find? fun s => s.startAddr ≤ addr && addr < s.startAddr + s.size

/-! ## Erase -/

structure EraseSt where
  len : BitVec 32
  addr : BitVec 32
  erased : List (BitVec 32)
  deriving DecidableEq, Repr

/-- The start addresses that block erases were given, in their order. -/
structure Erased where
  rc : Rc
  erased : List (BitVec 32)
  deriving DecidableEq, Repr

/-- One round of the loop; `ok` is whether the block erase succeeds. `len` is an `int`. -/
def erasePass (map : List Sector) (ok : Bool) (st : EraseSt) : Pass EraseSt Erased :=
  if (0#32).slt st.len then
    match mapSector map st.addr with
    | none => .leave ⟨.EINVAL, st.erased⟩
    | some sector =>
        if ok then .again ⟨st.len - sector.size, st.addr + sector.size, st.erased ++ [sector.startAddr]⟩
        else .leave ⟨.EINVAL, st.erased⟩
  else .leave ⟨.ok, st.erased⟩

def flashErase (map : List Sector) (size : BitVec 32) (addr len : BitVec 32) (interrupted : Bool)
    (ok : Nat → Bool) :
    Option Erased :=
  if addr > size then some ⟨.EINVAL, []⟩
  else if addr + len > size then some ⟨.EINVAL, []⟩
  else if interrupted then some ⟨.ERESTARTSYS, []⟩
  else whileLoop (erasePass map) ok (2 ^ 32) 0 ⟨len, addr, []⟩

end CameraFw.Flash
