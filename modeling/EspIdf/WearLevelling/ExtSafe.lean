/-
# Small sectors in safety mode

A sector of the flash holds eight FAT sectors, and some of them are erased by erasing the whole
sector and writing the others back.  In safety mode the sector is dumped before, and a record
in the state sector says what is going on, so that `recover` can finish after a power loss.
The flash is the logical one below the small sectors, in words of 32 bits; its last sector
holds the dump, and the one before it the state.
-/
import Mathlib

namespace EspIdf.WearLevelling.Ext

abbrev Word : Type := BitVec 32

/-- The contents of the flash, by word. -/
abbrev Flash : Type := ℕ → Word

/-- An erased word. -/
def erased : Word := BitVec.allOnes 32

/-- `flash_sector_size`, in bytes. -/
def flashSectorSize : ℕ := 4096

/-- `fat_sector_size`, in bytes. -/
def fatSectorSize : ℕ := 512

/-- `size_factor`. -/
def sizeFactor : ℕ := 8

/-- `WL_EXT_SAFE_OK`. -/
def wlExtSafeOk : Word := 0x12345678

/-! ### The flash below -/

/-- One erase of a sector, or one word that is programmed. -/
inductive FlashOp where
  | erase (sector : ℕ)
  | program (addr : ℕ) (word : Word)

/-- Programming clears bits only. -/
def FlashOp.apply (flash : Flash) : FlashOp → Flash
  | .erase sector => fun a => if a / 1024 = sector then erased else flash a
  | .program addr word => Function.update flash addr (flash addr &&& word)

/-- The flash after some operations. -/
def replay (flash : Flash) (ops : List FlashOp) : Flash := ops.foldl FlashOp.apply flash

/-- Where `calcAddr` finds a byte address among the `sectors` sectors of the flash: the sum
wraps at 32 bits before it is reduced. -/
def fold (sectors addr : ℕ) : ℕ :=
  (flashSectorSize * sectors + addr % 2 ^ 32) % 2 ^ 32 % (flashSectorSize * sectors)

/-- `WL_Flash::erase_sector`. -/
def eraseSector (sectors sector : ℕ) : FlashOp :=
  .erase (fold sectors (sector * flashSectorSize) / flashSectorSize)

/-- `WL_Flash::write` of some words. -/
def writeWords (sectors addr : ℕ) (words : ℕ) (data : ℕ → Word) : List FlashOp :=
  (List.range words).map fun j => .program (fold sectors addr / 4 + j) (data j)

/-! ### Erasing FAT sectors -/

/-- `WL_Ext_Safe`: the sectors of the flash below. -/
structure Device where
  sectors : ℕ
  two_lt : 2 < sectors
  size_lt : flashSectorSize * sectors < 2 ^ 31

namespace Device

variable (d : Device)

/-- `dump_addr / flash_sector_size`. -/
def dumpSector : ℕ := d.sectors - 1

/-- `state_addr / flash_sector_size`. -/
def stateSector : ℕ := d.sectors - 2

/-- The FAT sectors outside the erased range are kept; the sum wraps. -/
def keeps (shift count i : ℕ) : Bool := i < shift || i ≥ (count + shift) % 2 ^ 32

/-- The FAT sectors that are kept are read into `sector_buffer`. -/
def readBack (flash : Flash) (base shift count : ℕ) (buffer : ℕ → Word) : ℕ → Word :=
  fun j => if keeps shift count (j / 128) then flash (1024 * base + j) else buffer j

/-- The FAT sectors that are kept are written back. -/
def writeBack (base shift count : ℕ) (buffer : ℕ → Word) : List FlashOp :=
  (List.range sizeFactor).flatMap fun i =>
    if keeps shift count i then
      writeWords d.sectors (base * flashSectorSize + i * fatSectorSize) 128
        fun j => buffer (128 * i + j)
    else []

/-- `WL_Ext_Safe_State`. -/
def stateWords (base shift count : ℕ) : ℕ → Word
  | 0 => wlExtSafeOk
  | 1 => BitVec.ofNat 32 base
  | 2 => BitVec.ofNat 32 shift
  | _ => BitVec.ofNat 32 count

/-- `WL_Ext_Safe::erase_sector_fit`. -/
def eraseSectorFit (flash : Flash) (buffer : ℕ → Word) (startSector count : ℕ) : List FlashOp :=
  let localAddrBase := startSector / sizeFactor
  let preCheckStart := startSector % sizeFactor
  let buffer := readBack flash localAddrBase preCheckStart count buffer
  [eraseSector d.sectors d.dumpSector] ++
    writeWords d.sectors (d.dumpSector * flashSectorSize) 1024 buffer ++
    [eraseSector d.sectors d.stateSector] ++
    writeWords d.sectors (d.stateSector * flashSectorSize) 4
      (stateWords localAddrBase preCheckStart count) ++
    [eraseSector d.sectors localAddrBase] ++
    d.writeBack localAddrBase preCheckStart count buffer ++
    [eraseSector d.sectors d.stateSector]

/-- `WL_Ext_Perf::erase_sector`. -/
def eraseFatSector (flash : Flash) (buffer : ℕ → Word) (sector : ℕ) : List FlashOp :=
  d.eraseSectorFit flash buffer sector 1

/-- `WL_Flash::erase_range` of one sector: `erase_sector` is virtual, so a FAT sector is
erased. -/
def eraseRange (flash : Flash) (buffer : ℕ → Word) (startAddress : ℕ) : List FlashOp :=
  d.eraseFatSector flash buffer (startAddress / flashSectorSize)

/-- `WL_Ext_Safe::recover`, which `WL_Ext_Safe::init` calls. -/
def recover (flash : Flash) : List FlashOp :=
  let state := fun i => flash (1024 * d.stateSector + i)
  if state 0 = wlExtSafeOk then
    let buffer := fun j => flash (1024 * d.dumpSector + j)
    let base := (state 1).toNat
    let restore := eraseSector d.sectors base ::
      d.writeBack base (state 2).toNat (state 3).toNat buffer
    restore ++ d.eraseRange (replay flash restore) buffer (d.stateSector * flashSectorSize)
  else []

/-! ### Power losses -/

/-- The flash after the last of some recoveries.  The power was lost in the others, after as
many operations as the list says. -/
def recovered (flash : Flash) : List ℕ → Flash
  | [] => replay flash (d.recover flash)
  | cut :: cuts => recovered (replay flash ((d.recover flash).take cut)) cuts

/-- The FAT sector has not changed. -/
def Same (flash flash' : Flash) (sector : ℕ) : Prop :=
  ∀ j < 128, flash' (128 * sector + j) = flash (128 * sector + j)

/-- The FAT sector is erased. -/
def Erased (flash : Flash) (sector : ℕ) : Prop :=
  ∀ j < 128, flash (128 * sector + j) = erased

/-- The FAT sectors of the range hold their old contents or are erased, and the others have
not changed. -/
def Safe (startSector count : ℕ) (flash flash' : Flash) : Prop :=
  ∀ sector < sizeFactor * d.stateSector,
    if startSector ≤ sector ∧ sector < startSector + count then
      Same flash flash' sector ∨ Erased flash' sector
    else Same flash flash' sector

end Device

end EspIdf.WearLevelling.Ext
