/-
# Access to the flash

A page works on its own sector.  Headers and entry states are read and written as they are;
entries pass through the encryption layer, which picks a context by the absolute address and
encrypts each 32-byte entry with its address relative to the partition as the data unit.
Every word that is programmed and every sector that is erased is recorded.
-/
import EspIdf.Lib.EnumTable
import EspIdf.Nvs.HashList

namespace EspIdf.Nvs

open EspIdf.Lib

/-- `SPI_FLASH_SEC_SIZE`. -/
def secSize : ℕ := 4096

/-- `ENTRY_SIZE`. -/
def entrySize : ℕ := 32

/-- `ENTRY_COUNT`. -/
def entryCount : ℕ := 126

/-- `INVALID_ENTRY`. -/
def invalidEntry : ℕ := 0xffffffff

/-- `ENTRY_TABLE_OFFSET`. -/
def entryTableOffset : ℕ := 32

/-- `ENTRY_DATA_OFFSET`. -/
def entryDataOffset : ℕ := 64

/-- The offset of entry `i` in the sector. -/
def entryOffset (i : ℕ) : ℕ := entryDataOffset + entrySize * i

/-- What is done to a sector: program one word, or erase it. -/
inductive SectorOp where
  | program (offset : ℕ) (word : List Byte)
  | erase
deriving DecidableEq, Repr

/-- A sector after one operation. -/
def SectorOp.apply (m : Mem) : SectorOp → Mem
  | program offset word => m.program offset word
  | erase => fun _ => 0xff#8

/-- The words that writing `bs` from `offset` on programs, in their order. -/
def wordOps (offset : ℕ) (bs : List Byte) : List SectorOp :=
  (List.range (bs.length / 4)).map fun k => .program (offset + 4 * k) ((bs.drop (4 * k)).take 4)

/-- `XtsCtxt`: the sectors of a partition and the cipher of one entry for each data unit. -/
structure XtsCtxt where
  baseSector : ℕ
  sectorCount : ℕ
  encrypt : ℕ → List Byte → List Byte
  decrypt : ℕ → List Byte → List Byte

/-- `EncrMgr::findXtsCtxtFromAddr`. -/
def findXtsCtxtFromAddr (xts : List XtsCtxt) (addr : ℕ) : Option XtsCtxt :=
  xts.find? fun x => u32 (x.baseSector * secSize) ≤ addr ∧
    addr < u32 (u32 (x.baseSector + x.sectorCount) * secSize)

/-- `PageState`. -/
inductive PageState where
  | uninitialized
  | active
  | full
  | freeing
  | corrupt
  | invalid
deriving DecidableEq, Repr

namespace PageState

/-- The state as it is stored. -/
def toWord : PageState → BitVec 32
  | uninitialized => 0xffffffff#32
  | active => 0xfffffffe#32
  | full => 0xfffffffc#32
  | freeing => 0xfffffff8#32
  | corrupt => 0xfffffff0#32
  | invalid => 0#32

/-- The state that a stored word stands for; `load` takes any other word for corrupt. -/
def ofWord (w : BitVec 32) : PageState :=
  if w = uninitialized.toWord then uninitialized
  else if w = active.toWord then active
  else if w = full.toWord then full
  else if w = freeing.toWord then freeing
  else if w = corrupt.toWord then corrupt
  else invalid

end PageState

/-- `EntryState`, two bits of the entry table. -/
abbrev EntryState : Type := BitVec 2

namespace EntryState

def empty : EntryState := 0b11
def written : EntryState := 0b10
def erased : EntryState := 0b00

end EntryState

/-- `NVS_VERSION`. -/
def nvsVersion : Byte := 0xfe

/-- `Page`. -/
structure Page where
  /-- `mBaseAddress`, in sectors. -/
  sector : ℕ
  state : PageState
  seqNumber : ℕ
  version : Byte
  entryTable : EnumTable
  nextFreeEntry : ℕ
  firstUsedEntry : ℕ
  usedEntryCount : ℕ
  erasedEntryCount : ℕ
  hashList : HashList

/-- A new page object for a sector. -/
def Page.new (sector : ℕ) : Page where
  sector := sector
  state := .invalid
  seqNumber := 0xffffffff
  version := nvsVersion
  entryTable := fun _ => 0
  nextFreeEntry := invalidEntry
  firstUsedEntry := invalidEntry
  usedEntryCount := 0
  erasedEntryCount := 0
  hashList := []

/-- A page object and its sector: the contents, and what has been done to it. -/
structure PageCtx where
  mem : Mem
  log : List SectorOp
  xts : List XtsCtxt
  page : Page

/-- Programs of a page. -/
abbrev PageM : Type → Type := Prog PageCtx Exit

/-- Change the page object. -/
def modifyPage (f : Page → Page) : PageM Unit := Prog.modify fun c => { c with page := f c.page }

/-- `spi_flash_read`. -/
def spiFlashRead (offset n : ℕ) : PageM (List Byte) := do
  let c ← Prog.get
  pure (c.mem.read offset n)

/-- `spi_flash_write`. -/
def spiFlashWrite (offset : ℕ) (bs : List Byte) : PageM Unit :=
  Prog.modify fun c => { c with mem := c.mem.program offset bs, log := c.log ++ wordOps offset bs }

/-- `spi_flash_erase_sector`. -/
def spiFlashEraseSector : PageM Unit :=
  Prog.modify fun c => { c with mem := fun _ => 0xff#8, log := c.log ++ [.erase] }

/-- The entries of `bs`, each encrypted with its relative address (`encryptNvsData`). -/
def encryptEntries (x : XtsCtxt) (relAddr : ℕ) : ℕ → List Byte → List Byte
  | 0, _ => []
  | n + 1, bs => x.encrypt relAddr (bs.take entrySize) ++
      encryptEntries x (relAddr + entrySize) n (bs.drop entrySize)

/-- `nvs_flash_write`. -/
def nvsFlashWrite (offset : ℕ) (bs : List Byte) : PageM Unit := do
  let c ← Prog.get
  let addr := c.page.sector * secSize + offset
  match findXtsCtxtFromAddr c.xts addr with
  | none => spiFlashWrite offset bs
  | some x => do
    assert (bs.length % entrySize = 0)
    spiFlashWrite offset
      (encryptEntries x (addr - x.baseSector * secSize) (bs.length / entrySize) bs)

/-- `nvs_flash_read`. -/
def nvsFlashRead (offset n : ℕ) : PageM (List Byte) := do
  let c ← Prog.get
  let addr := c.page.sector * secSize + offset
  let bs ← spiFlashRead offset n
  match findXtsCtxtFromAddr c.xts addr with
  | none => pure bs
  | some x => do
    assert (n = entrySize)
    pure (x.decrypt (addr - x.baseSector * secSize) bs)

end EspIdf.Nvs
