/-
# Partitions at run time

The list of partitions starts with those of the table, and partitions on other flash chips can be
registered and deregistered.  Reads, writes, erasures and mappings are checked against the size of
the partition before the flash driver is called.
-/
import EspIdf.Lib.Signed
import EspIdf.Bootloader.LoadAddresses
import EspIdf.PartitionTable.Soundness

namespace EspIdf.PartitionTable

open Lib

/-- `partition_list_item_t`.  `flash_chip` is the number of a chip, zero for
`esp_flash_default_chip`. -/
structure Item where
  /-- The address of `info`. -/
  ptr : ℕ
  info : Partition
  flashChip : ℕ
  userRegistered : Bool
  deriving DecidableEq, Repr

inductive AccessErr where
  | invalidArg
  | invalidSize
  | notSupported
  | noMem
  /-- An error of `load_partitions`. -/
  | load (err : EspErr)
  deriving DecidableEq, Repr

/-- The build. -/
structure Build where
  /-- `CONFIG_SPI_FLASH_USE_LEGACY_IMPL`. -/
  legacyImpl : Bool
  /-- `CONFIG_SPI_FLASH_ENABLE_ENCRYPTED_READ_WRITE`. -/
  encryptedReadWrite : Bool
  deriving DecidableEq, Repr

/-! ### The list -/

/-- What the environment answers when the table is loaded. -/
structure Loading where
  encryptionEnabled : Bool
  mmapErr : EspErr
  calloc : ℕ → Bool
  /-- The addresses of the items. -/
  ptr : ℕ → ℕ

/-- The items of a table. -/
def itemsOfTable (env : Loading) (list : List Partition) : List Item :=
  list.mapIdx fun n info => ⟨env.ptr n, info, 0, false⟩

/-- `ensure_partitions_loaded`. -/
def ensurePartitionsLoaded (env : Loading) (mem : Mem) (items : List Item) :
    EspErr × List Item :=
  if items = [] then
    let loaded := loadPartitions env.encryptionEnabled env.mmapErr env.calloc mem
    (loaded.1, itemsOfTable env loaded.2)
  else
    (.ok, items)

/-- The loop over the partitions of the chip; `none` if an `assert` fires. -/
def overlapsAny (flashChip offset size : ℕ) : List Item → Option Bool
  | [] => some false
  | it :: items =>
    if it.flashChip = flashChip then
      match Bootloader.regionsOverlap (intptr offset) (intptr (u32 (offset + size)))
        (intptr it.info.address) (intptr (u32 (it.info.address + it.info.size))) with
      | none => none
      | some true => some true
      | some false => overlapsAny flashChip offset size items
    else
      overlapsAny flashChip offset size items

/-- The arguments of `esp_partition_register_external`. -/
structure External where
  flashChip : ℕ
  offset : ℕ
  size : ℕ
  label : List Byte
  type : ℕ
  subtype : ℕ
  deriving DecidableEq, Repr

/-- The new item. -/
def External.item (e : External) (ptr : ℕ) : Item where
  ptr := ptr
  info := ⟨e.offset, e.size, e.type, e.subtype, false, strncpy 16 e.label⟩
  flashChip := e.flashChip
  userRegistered := true

/-- `esp_partition_register_external`, with the address of the new item if there is memory for it;
`none` if an `assert` fires. -/
def registerExternal (build : Build) (chipSize : ℕ → ℕ) (env : Loading) (mem : Mem)
    (calloc : Option ℕ) (e : External) (items : List Item) :
    Option (Except AccessErr ℕ × List Item) :=
  if build.legacyImpl then some (.error .notSupported, items)
  else if u32 (e.offset + e.size) > chipSize e.flashChip then some (.error .invalidSize, items)
  else
    let loaded := ensurePartitionsLoaded env mem items
    if loaded.1 ≠ .ok then some (.error (.load loaded.1), loaded.2)
    else match calloc with
      | none => some (.error .noMem, loaded.2)
      | some ptr => match overlapsAny e.flashChip e.offset e.size loaded.2 with
        | none => none
        | some true => some (.error .invalidArg, loaded.2)
        | some false => some (.ok ptr, loaded.2 ++ [e.item ptr])

/-- `esp_partition_deregister_external`. -/
def deregisterExternal (ptr : ℕ) (items : List Item) : List Item :=
  match items.find? fun it => it.ptr = ptr with
  | some it => if it.userRegistered then items.erase it else items
  | none => items

/-- What is done with the list. -/
inductive Op where
  /-- A function that only needs the list to be loaded. -/
  | find (env : Loading)
  | register (env : Loading) (calloc : Option ℕ) (e : External)
  | deregister (ptr : ℕ)

/-- One operation; `none` if an `assert` fires. -/
def step (build : Build) (chipSize : ℕ → ℕ) (mem : Mem) (items : List Item) :
    Op → Option (List Item)
  | .find env => some (ensurePartitionsLoaded env mem items).2
  | .register env calloc e =>
    (registerExternal build chipSize env mem calloc e items).map Prod.snd
  | .deregister ptr => some (deregisterExternal ptr items)

/-- A sequence of operations. -/
def run (build : Build) (chipSize : ℕ → ℕ) (mem : Mem) : List Item → List Op → Option (List Item) :=
  List.foldlM (step build chipSize mem)

/-! ### Accesses -/

/-- A call of the flash driver. -/
inductive DriverCall where
  | read (flashChip addr size : ℕ)
  | write (flashChip addr size : ℕ)
  | writeEncrypted (addr size : ℕ)
  | erase (flashChip addr size : ℕ)
  /-- `spi_flash_mmap`; the pointer is moved on by `regionOffset`. -/
  | mmap (addr size regionOffset : ℕ)
  deriving DecidableEq, Repr

/-- The check that all accesses share. -/
def checkRange (it : Item) (offset size : ℕ) : Except AccessErr Unit :=
  if offset > it.info.size then .error .invalidArg
  else if u32 (offset + size) > it.info.size then .error .invalidSize
  else .ok ()

/-- `esp_partition_mmap`. -/
def partitionMmap (it : Item) (offset size : ℕ) : Except AccessErr DriverCall := do
  checkRange it offset size
  if it.flashChip ≠ 0 then throw .notSupported
  let physAddr := u32 (it.info.address + offset)
  let regionOffset := physAddr % 0x10000
  return .mmap (physAddr - regionOffset) (u32 (size + regionOffset)) regionOffset

/-- `esp_partition_read`; an encrypted partition is read through a mapping. -/
def partitionRead (build : Build) (it : Item) (srcOffset size : ℕ) :
    Except AccessErr DriverCall := do
  checkRange it srcOffset size
  if !it.info.encrypted then
    return .read (if build.legacyImpl then 0 else it.flashChip)
      (u32 (it.info.address + srcOffset)) size
  else if build.encryptedReadWrite then
    if it.flashChip ≠ 0 then throw .notSupported
    partitionMmap it srcOffset size
  else
    throw .notSupported

/-- `esp_partition_write`. -/
def partitionWrite (build : Build) (it : Item) (dstOffset size : ℕ) :
    Except AccessErr DriverCall := do
  checkRange it dstOffset size
  let dstOffset := u32 (it.info.address + dstOffset)
  if !it.info.encrypted then
    return .write (if build.legacyImpl then 0 else it.flashChip) dstOffset size
  else if build.encryptedReadWrite then
    if it.flashChip ≠ 0 then throw .notSupported
    return .writeEncrypted dstOffset size
  else
    throw .notSupported

/-- `esp_partition_erase_range`. -/
def partitionEraseRange (build : Build) (it : Item) (offset size : ℕ) :
    Except AccessErr DriverCall := do
  checkRange it offset size
  if size % 0x1000 ≠ 0 then throw .invalidSize
  if offset % 0x1000 ≠ 0 then throw .invalidArg
  return .erase (if build.legacyImpl then 0 else it.flashChip) (u32 (it.info.address + offset)) size

end EspIdf.PartitionTable
