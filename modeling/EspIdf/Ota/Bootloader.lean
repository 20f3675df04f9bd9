/-
# Boot selection in the bootloader

The functions of `bootloader_utility.c`: the table of boot partitions, the choice of the boot
index from the two otadata records, with the bookkeeping of the rollback option, and the
order in which partitions are tried.
-/
import EspIdf.Ota.App

namespace EspIdf.Ota

open EspIdf.Lib

/-- `esp_partition_pos_t`. -/
structure PartitionPos where
  offset : ℕ
  size : ℕ
deriving DecidableEq, Repr

/-- `bootloader_state_t`. -/
structure BootloaderState where
  otaInfo : PartitionPos
  factory : PartitionPos
  test : PartitionPos
  ota : ℕ → PartitionPos
  appCount : ℕ

/-- The position of a partition. -/
def Partition.pos (p : Partition) : PartitionPos := ⟨p.offset, p.size⟩

/-- A position that no partition has taken yet. -/
def PartitionPos.unset : PartitionPos := ⟨0, 0⟩

/-- `FACTORY_INDEX`. -/
def factoryIndex : ℤ := -1

/-- `TEST_APP_INDEX`. -/
def testAppIndex : ℤ := -2

/-- `INVALID_INDEX`. -/
def invalidIndex : ℤ := -99

/-- One entry of the table, in `bootloader_utility_load_partition_table`. -/
def BootloaderState.enter (bs : BootloaderState) (p : Partition) : BootloaderState :=
  if p.type.toNat = typeApp then
    if p.subtype.toNat = subtypeFactory then { bs with factory := p.pos }
    else if p.subtype.toNat = subtypeTest then { bs with test := p.pos }
    else if p.subtype.toNat / 16 * 16 = subtypeOtaMin then
      { bs with
        ota := Function.update bs.ota (p.subtype.toNat % 16) p.pos
        appCount := bs.appCount + 1 }
    else bs
  else if p.type.toNat = typeData then
    if p.subtype.toNat = subtypeDataOta then { bs with otaInfo := p.pos } else bs
  else bs

/-- The state before the table has been read. -/
def BootloaderState.empty : BootloaderState where
  otaInfo := .unset
  factory := .unset
  test := .unset
  ota := fun _ => .unset
  appCount := 0

/-- `bootloader_utility_load_partition_table`, on a table that verifies. -/
def loadPartitionTable (table : List Partition) : BootloaderState :=
  table.foldl BootloaderState.enter .empty

/-- `index_to_partition`. -/
def indexToPartition (bs : BootloaderState) (index : ℤ) : PartitionPos :=
  if index = factoryIndex then bs.factory
  else if index = testAppIndex then bs.test
  else if 0 ≤ index ∧ index < 16 ∧ index < bs.appCount then bs.ota index.toNat
  else .unset

/-! ### The boot index -/

/-- The boot index, whether `ota_has_initial_contents` was set, and the records that the
sectors then hold. -/
structure Selection where
  index : ℤ
  initial : Bool
  otadata : Mem

/-- A record that waits for its confirmation loses it at the next boot. -/
def abortPending (m : Mem) (i : Fin 2) : Mem :=
  if (readTwo m i).otaState = imgPendingVerify then
    storeEntry m i ((readTwo m i).withState imgAborted)
  else m

/-- The new image is booted for the first time. -/
def monitorFirstBoot (m : Mem) (i : Fin 2) : Mem :=
  if (readTwo m i).otaState = imgNew then
    storeEntry m i ((readTwo m i).withState imgPendingVerify)
  else m

/-- The sector has its initial contents, or its checksum is wrong. -/
def isInitial (s : SelectEntry) : Bool := s.otaSeq == seqErased || s.crc != otaSelectCrc s

/-- The choice of `bootloader_utility_get_selected_boot_partition` after the pending records
have been aborted. -/
def selectIndex (rollback : Bool) (bs : BootloaderState) (m : Mem) : Selection :=
  let otadata := readTwo m
  if (otaSelectInvalid (otadata 0) && otaSelectInvalid (otadata 1)) || bs.appCount == 0 then
    if bs.factory.offset ≠ 0 then ⟨factoryIndex, false, m⟩
    else ⟨0, isInitial (otadata 0) && isInitial (otadata 1), m⟩
  else
    match getActiveOtadata otadata with
    | some active =>
      ⟨(u32Sub (otadata active).otaSeq.toNat 1 % bs.appCount : ℕ), false,
        if rollback then monitorFirstBoot m active else m⟩
    | none => ⟨factoryIndex, false, m⟩

/-- `bootloader_utility_get_selected_boot_partition`. -/
def getSelectedBootPartition (rollback : Bool) (bs : BootloaderState) (m : Mem) : Selection :=
  if bs.otaInfo.offset = 0 then ⟨factoryIndex, false, m⟩
  else if bs.otaInfo.size < 2 * secSize then ⟨invalidIndex, false, m⟩
  else selectIndex rollback bs (if rollback then abortPending (abortPending m 0) 1 else m)

/-! ### Loading an image -/

/-- The indices that `bootloader_utility_load_boot_image` goes through: backwards from the
start to the factory partition, then forwards. -/
def bootOrder (bs : BootloaderState) (start : ℤ) : List ℤ :=
  ((List.range (start + 2).toNat).map fun i : ℕ => start - (i : ℤ)) ++
    ((List.range (bs.appCount - (start + 1)).toNat).map fun i : ℕ => start + 1 + (i : ℤ))

/-- The indices whose partitions are tried, in this order. -/
def triedIndices (bs : BootloaderState) (start : ℤ) : List ℤ :=
  (bootOrder bs start).filter fun index => (indexToPartition bs index).size ≠ 0

/-- `set_actual_ota_seq`. -/
def setActualOtaSeq (m : Mem) (initial : Bool) (index : ℤ) : Mem :=
  if factoryIndex < index ∧ initial = true then
    storeEntry m 0 (SelectEntry.withSeq ⟨0, fun _ => 0xff#8, imgValid, 0⟩
      (BitVec.ofNat 32 (index + 1).toNat))
  else m

/-- What a boot does: the index of the image that was started, if one was, and the otadata
partition afterwards. -/
structure BootResult where
  started : Option ℤ
  otadata : Mem

/-- `bootloader_utility_load_boot_image`.  `loads` is whether an image can be loaded. -/
def loadBootImage (bs : BootloaderState) (loads : PartitionPos → Bool) (sel : Selection) :
    BootResult :=
  match (triedIndices bs sel.index).find? fun index => loads (indexToPartition bs index) with
  | some index => ⟨some index, setActualOtaSeq sel.otadata sel.initial index⟩
  | none =>
    if bs.test.size ≠ 0 ∧ loads bs.test then ⟨some testAppIndex, sel.otadata⟩
    else ⟨none, sel.otadata⟩

/-- A reset: the boot partition is selected and an image is loaded. -/
def boot (dev : Device) (loads : PartitionPos → Bool) (m : Mem) : BootResult :=
  let bs := loadPartitionTable dev.table
  let sel := getSelectedBootPartition dev.rollback bs m
  if sel.index = invalidIndex then ⟨none, sel.otadata⟩ else loadBootImage bs loads sel

end EspIdf.Ota
