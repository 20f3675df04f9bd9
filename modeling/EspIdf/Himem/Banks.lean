/-
# Bank switching of external memory

Blocks of physical memory above the directly mapped ones are allocated to handles, and mapped
into ranges of the address space that are allocated to range handles.
-/
import Mathlib

namespace EspIdf.Himem

/-- `CACHE_BLOCKSIZE`. -/
def cacheBlocksize : ℕ := 32 * 1024

/-- `SOC_EXTRAM_DATA_LOW`. -/
def socExtramDataLow : ℕ := 0x3F800000

/-- The configuration, and the size of the memory. -/
structure Config where
  /-- `SPIRAM_BANKSWITCH_RESERVE`. -/
  reserve : ℕ
  /-- `esp_spiram_get_size()`. -/
  maxram : ℕ
  reserve_pos : 1 ≤ reserve
  reserve_le : reserve ≤ 62
  maxram_ge : 4096 * 1024 ≤ maxram
  maxram_lt : maxram < 2 ^ 31

/-- `s_ramblockcnt`, as `esp_himem_init` sets it. -/
def Config.ramblockcnt (c : Config) : ℕ :=
  (c.maxram - (4096 * 1024 - cacheBlocksize * c.reserve)) / cacheBlocksize

/-- `VIRT_HIMEM_RANGE_BLOCKSTART`. -/
def Config.rangeBlockstart (c : Config) : ℕ := 128 - c.reserve

/-- `VIRT_HIMEM_RANGE_START`. -/
def Config.rangeStart (c : Config) : ℕ := socExtramDataLow + c.rangeBlockstart * cacheBlocksize

/-- `PHYS_HIMEM_BLOCKSTART`. -/
def Config.physBlockstart (c : Config) : ℕ := 128 - c.reserve

/-- `ramblock_t`. -/
structure RamBlock where
  isAlloced : Bool
  isMapped : Bool
deriving DecidableEq

/-- `rangeblock_t`. -/
structure RangeBlock where
  isAlloced : Bool
  isMapped : Bool
  ramBlock : ℕ
deriving DecidableEq

/-- `s_ram_descriptor` and `s_range_descriptor`, and for each bank of the external memory in
the address space the physical bank that the MMU shows there. -/
@[ext]
structure Banks where
  ram : ℕ → RamBlock
  range : ℕ → RangeBlock
  mmu : ℕ → ℕ

/-- `esp_himem_ramdata_t`; `block_ct` is the length of the list. -/
structure RamData where
  block : List ℕ
deriving DecidableEq

/-- `esp_himem_rangedata_t`. -/
structure RangeData where
  blockCt : ℕ
  blockStart : ℕ
deriving DecidableEq

/-- The error codes. -/
inductive Err where
  | noMem
  | invalidArg
  | invalidSize
  | invalidState
  /-- A descriptor in front of the table is accessed. -/
  | outOfTable
deriving DecidableEq

/-- The tables after `esp_himem_init`. -/
def Banks.init (mmu : ℕ → ℕ) : Banks := ⟨fun _ => ⟨false, false⟩, fun _ => ⟨false, false, 0⟩, mmu⟩

/-! ### Physical memory -/

/-- Set `is_alloced` of some blocks. -/
def Banks.setAlloced (s : Banks) (blocks : List ℕ) (v : Bool) : Banks :=
  { s with ram := fun b => if b ∈ blocks then { s.ram b with isAlloced := v } else s.ram b }

/-- `allocate_blocks`. -/
def allocateBlocks (c : Config) (s : Banks) (count : ℕ) : Option (List ℕ × Banks) :=
  let blocks := ((List.range c.ramblockcnt).filter fun i => !(s.ram i).isAlloced).take count
  if blocks.length = count then some (blocks, s.setAlloced blocks true) else none

/-- `esp_himem_alloc`.  `mem` is whether the handle can be allocated. -/
def espHimemAlloc (c : Config) (s : Banks) (size : ℕ) (mem : Bool) : Except Err RamData × Banks :=
  if size % cacheBlocksize ≠ 0 then (.error .invalidSize, s)
  else if mem = false then (.error .noMem, s)
  else
    match allocateBlocks c s (size / cacheBlocksize) with
    | some (blocks, s') => (.ok ⟨blocks⟩, s')
    | none => (.error .noMem, s)

/-- `esp_himem_free`. -/
def espHimemFree (s : Banks) (handle : RamData) : Except Err Unit × Banks :=
  if handle.block.any fun b => (s.ram b).isMapped then (.error .invalidArg, s)
  else (.ok (), s.setAlloced handle.block false)

/-! ### Ranges of the address space -/

/-- The loop of `esp_himem_alloc_map_range` that looks for a span. -/
def findSpan (s : Banks) (blocks : ℕ) : List ℕ → ℕ → Option ℕ
  | [], _ => none
  | i :: is, startFree =>
    if (s.range i).isAlloced then findSpan s blocks is (i + 1)
    else if (i : ℤ) - startFree = blocks - 1 then some startFree
    else findSpan s blocks is startFree

/-- The blocks of a range. -/
def RangeData.covers (g : RangeData) (j : ℕ) : Prop :=
  g.blockStart ≤ j ∧ j < g.blockStart + g.blockCt

instance (g : RangeData) (j : ℕ) : Decidable (g.covers j) := inferInstanceAs (Decidable (_ ∧ _))

/-- Set `is_alloced` of the blocks of a range. -/
def Banks.setRangeAlloced (s : Banks) (g : RangeData) (v : Bool) : Banks :=
  { s with range := fun j => if g.covers j then { s.range j with isAlloced := v } else s.range j }

/-- `esp_himem_alloc_map_range`. -/
def espHimemAllocMapRange (c : Config) (s : Banks) (size : ℕ) (mem : Bool) :
    Except Err RangeData × Banks :=
  if size % cacheBlocksize ≠ 0 then (.error .invalidSize, s)
  else if mem = false then (.error .noMem, s)
  else
    match findSpan s (size / cacheBlocksize) (List.range c.reserve) 0 with
    | some start =>
      (.ok ⟨size / cacheBlocksize, start⟩, s.setRangeAlloced ⟨size / cacheBlocksize, start⟩ true)
    | none => (.error .noMem, s)

/-- `esp_himem_free_map_range`. -/
def espHimemFreeMapRange (s : Banks) (handle : RangeData) : Except Err Unit × Banks :=
  if (List.range handle.blockCt).any fun i => (s.range (i + handle.blockStart)).isMapped then
    (.error .invalidArg, s)
  else (.ok (), s.setRangeAlloced handle false)

/-! ### Mapping -/

/-- The checks of `esp_himem_map`. -/
def mapChecks (s : Banks) (handle : RamData) (range : RangeData)
    (ramOffset rangeOffset len : ℕ) : Option Err :=
  let ramBlock := ramOffset / cacheBlocksize
  let rangeBlock := rangeOffset / cacheBlocksize
  let blockcount := len / cacheBlocksize
  if ramOffset % cacheBlocksize ≠ 0 then some .invalidArg
  else if rangeOffset % cacheBlocksize ≠ 0 then some .invalidArg
  else if len % cacheBlocksize ≠ 0 then some .invalidArg
  else if ramBlock + blockcount > handle.block.length then some .invalidSize
  else if rangeBlock + blockcount > range.blockCt then some .invalidSize
  else if (List.range blockcount).any fun i =>
      (s.ram (handle.block.getD (i + ramBlock) 0)).isMapped ||
        (s.range (range.blockStart + i + rangeBlock)).isMapped then some .invalidState
  else none

/-- Map a physical block into the range block `j`: the descriptors, and `set_bank`. -/
def Banks.mapBlock (c : Config) (s : Banks) (j b : ℕ) : Banks where
  ram := Function.update s.ram b { s.ram b with isMapped := true }
  range := Function.update s.range j
    { s.range j with
      isMapped := true
      ramBlock := b % 2 ^ 16 }
  mmu := Function.update s.mmu (c.rangeBlockstart + j) (b + c.physBlockstart)

/-- Map physical blocks into the range blocks from `j` on. -/
def Banks.mapBlocks (c : Config) : Banks → ℕ → List ℕ → Banks
  | s, _, [] => s
  | s, j, b :: bs => Banks.mapBlocks c (s.mapBlock c j b) (j + 1) bs

/-- The physical blocks that a call of `esp_himem_map` maps. -/
def mapped (handle : RamData) (ramOffset len : ℕ) : List ℕ :=
  (handle.block.drop (ramOffset / cacheBlocksize)).take (len / cacheBlocksize)

/-- `esp_himem_map`, with the pointer that it returns. -/
def espHimemMap (c : Config) (s : Banks) (handle : RamData) (range : RangeData)
    (ramOffset rangeOffset len : ℕ) : Except Err ℕ × Banks :=
  match mapChecks s handle range ramOffset rangeOffset len with
  | some e => (.error e, s)
  | none =>
    (.ok ((c.rangeStart + (range.blockStart + rangeOffset) * cacheBlocksize) % 2 ^ 32),
      s.mapBlocks c (range.blockStart + rangeOffset / cacheBlocksize) (mapped handle ramOffset len))

/-- The `int` in which `esp_himem_unmap` keeps the distance of the pointer from the start. -/
def rangeOffsetOf (c : Config) (ptr : ℕ) : ℤ := ((ptr : ℤ) - c.rangeStart).bmod (2 ^ 32)

/-- The checks of `esp_himem_unmap`. -/
def unmapChecks (c : Config) (range : RangeData) (ptr len : ℕ) : Option Err :=
  let rangeOffset := rangeOffsetOf c ptr
  let rangeBlock := rangeOffset.tdiv cacheBlocksize - range.blockStart
  if rangeOffset.tmod cacheBlocksize ≠ 0 then some .invalidArg
  else if len % cacheBlocksize ≠ 0 then some .invalidArg
  else if rangeBlock + (len / cacheBlocksize : ℕ) > range.blockCt then some .invalidArg
  else none

/-- Unmap the physical block of the range block `j`. -/
def Banks.unmapBlock (s : Banks) (j : ℕ) : Banks :=
  let b := (s.range j).ramBlock
  { s with
    ram := Function.update s.ram b { s.ram b with isMapped := false }
    range := Function.update s.range j { s.range j with isMapped := false } }

/-- Unmap `count` range blocks from `j` on. -/
def Banks.unmapBlocks : Banks → ℕ → ℕ → Banks
  | s, _, 0 => s
  | s, j, count + 1 => (s.unmapBlock j).unmapBlocks (j + 1) count

/-- `esp_himem_unmap`. -/
def espHimemUnmap (c : Config) (s : Banks) (range : RangeData) (ptr len : ℕ) :
    Except Err Unit × Banks :=
  match unmapChecks c range ptr len with
  | some e => (.error e, s)
  | none =>
    -- the index of the first range block, whose range is not looked at
    let first := (rangeOffsetOf c ptr).tdiv cacheBlocksize
    if first < 0 ∧ len / cacheBlocksize ≠ 0 then (.error .outOfTable, s)
    else (.ok (), s.unmapBlocks first.toNat (len / cacheBlocksize))

end EspIdf.Himem
