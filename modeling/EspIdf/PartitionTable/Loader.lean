/-
# The partition table in flash

The bootloader verifies the table entry by entry, and the application builds the list of its
partitions from it.  Both look for the entry with the MD5 digest of the entries before it.
-/
import EspIdf.Lib.Md5

namespace EspIdf.PartitionTable

open Lib

inductive EspErr where
  | ok
  | noMem
  | notFound
  | invalidState
  | invalidSize
  /-- An error of `spi_flash_mmap`. -/
  | mmap (code : ℕ)
  deriving DecidableEq, Repr

/-- `esp_partition_info_t`. -/
structure PartitionInfo where
  magic : ℕ
  type : ℕ
  subtype : ℕ
  offset : ℕ
  size : ℕ
  label : List Byte
  flags : ℕ
  deriving DecidableEq, Repr

/-- `sizeof(esp_partition_info_t)`. -/
def infoSize : ℕ := 32

/-- The entry that bytes stand for. -/
def PartitionInfo.ofBytes (bs : List Byte) : PartitionInfo where
  magic := leVal (bs.take 2)
  type := leVal ((bs.drop 2).take 1)
  subtype := leVal ((bs.drop 3).take 1)
  offset := leVal ((bs.drop 4).take 4)
  size := leVal ((bs.drop 8).take 4)
  label := (bs.drop 12).take 16
  flags := leVal ((bs.drop 28).take 4)

/-- Entry `n` of a table that is found at address 0 of the memory. -/
def infoAt (mem : Mem) (n : ℕ) : PartitionInfo :=
  PartitionInfo.ofBytes (mem.read (infoSize * n) infoSize)

/-- `ESP_PARTITION_MAGIC`. -/
def partitionMagic : ℕ := 0x50AA

/-- `ESP_PARTITION_MAGIC_MD5`. -/
def partitionMagicMd5 : ℕ := 0xEBEB

/-- `ESP_PARTITION_MD5_OFFSET`. -/
def partitionMd5Offset : ℕ := 16

/-- `ESP_PARTITION_TABLE_MAX_ENTRIES`. -/
def partitionTableMaxEntries : ℕ := 0xC00 / infoSize

/-- `PART_TYPE_END` and `PART_SUBTYPE_END`. -/
def partTypeEnd : ℕ := 0xff

/-! ### The bootloader -/

/-- The loop of `esp_partition_table_verify` over the last `fuel` entries. -/
def verifyLoop (chipSize : ℕ) (mem : Mem) : ℕ → ℕ → ℕ → EspErr × ℕ
  | 0, _, _ => (.invalidState, 0)
  | fuel + 1, numParts, md5Found =>
    let part := infoAt mem numParts
    if part.magic = partitionMagic then
      if part.offset > chipSize ∨ u32 (part.offset + part.size) > chipSize then (.invalidSize, 0)
      else verifyLoop chipSize mem fuel (numParts + 1) md5Found
    else if part.magic = partitionMagicMd5 then
      if md5Found ≠ 0 then (.invalidState, 0)
      else
        let digest := md5 (mem.read 0 (numParts * infoSize))
        if mem.read (infoSize * numParts + partitionMd5Offset) 16 ≠ digest then (.invalidState, 0)
        else verifyLoop chipSize mem fuel (numParts + 1) 1
    else if part.magic = 0xFFFF ∧ part.type = partTypeEnd ∧ part.subtype = partTypeEnd then
      (.ok, numParts - md5Found)
    else (.invalidState, 0)

/-- `esp_partition_table_verify`, with `num_partitions`. -/
def tableVerify (chipSize : ℕ) (mem : Mem) : EspErr × ℕ :=
  verifyLoop chipSize mem partitionTableMaxEntries 0 0

/-! ### The application -/

/-- `esp_partition_t`. -/
structure Partition where
  address : ℕ
  size : ℕ
  type : ℕ
  subtype : ℕ
  encrypted : Bool
  /-- `char label[17]`. -/
  label : List Byte
  deriving DecidableEq, Repr

/-- `strncpy` of at most `n` bytes to an array of `n + 1` zeros. -/
def strncpy (n : ℕ) (src : List Byte) : List Byte :=
  let copied := (src.take n).takeWhile fun b => b ≠ 0
  copied ++ List.replicate (n + 1 - copied.length) 0

/-- The list item for an entry. -/
def Partition.ofInfo (encryptionEnabled : Bool) (entry : PartitionInfo) : Partition where
  address := entry.offset
  size := entry.size
  type := entry.type
  subtype := entry.subtype
  encrypted :=
    if !encryptionEnabled then false
    -- applications, OTA data and NVS keys
    else if entry.type = 0x00 ∨ entry.type = 0x01 ∧ entry.subtype = 0x00 ∨
        entry.type = 0x01 ∧ entry.subtype = 0x04 then true
    else entry.flags &&& 1 ≠ 0
  label := strncpy 16 entry.label

/-- How the loop of `load_partitions` ends. -/
structure Loaded where
  err : EspErr
  /-- The index of `md5_part`. -/
  md5Part : Option ℕ
  /-- The bytes that `MD5Update` has been called with. -/
  md5Input : List Byte
  list : List Partition

/-- The loop of `load_partitions` over the last `fuel` entries of the sector. -/
def loadLoop (encryptionEnabled : Bool) (calloc : ℕ → Bool) (mem : Mem) :
    ℕ → ℕ → List Byte → List Partition → Loaded
  | 0, _, input, list => ⟨.ok, none, input, list⟩
  | fuel + 1, n, input, list =>
    let entry := infoAt mem n
    if entry.magic = partitionMagicMd5 then ⟨.ok, some n, input, list⟩
    else if entry.magic ≠ partitionMagic then ⟨.ok, none, input, list⟩
    else
      let input := input ++ mem.read (infoSize * n) infoSize
      if calloc n then
        loadLoop encryptionEnabled calloc mem fuel (n + 1) input
          (list ++ [Partition.ofInfo encryptionEnabled entry])
      else ⟨.noMem, none, input, list⟩

/-- `load_partitions`: the error and `s_partition_list`, which is empty before. -/
def loadPartitions (encryptionEnabled : Bool) (mmapErr : EspErr) (calloc : ℕ → Bool) (mem : Mem) :
    EspErr × List Partition :=
  if mmapErr ≠ .ok then (mmapErr, [])
  else
    let res := loadLoop encryptionEnabled calloc mem (0x1000 / infoSize) 0 [] []
    let err := match res.md5Part with
      | none => .notFound
      | some n =>
        if md5 res.md5Input ≠ mem.read (infoSize * n + partitionMd5Offset) 16 then .invalidState
        else res.err
    if err = .ok then (err, res.list) else (err, [])

end EspIdf.PartitionTable
