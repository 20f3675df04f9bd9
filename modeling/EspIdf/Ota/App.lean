/-
# Boot selection in the application

The functions of `esp_ota_ops.c` that read and rewrite the otadata partition.  They run on
the contents of that partition; the partition table, the configuration and the outcome of
the image verification are parameters.
-/
import EspIdf.Ota.Otadata

namespace EspIdf.Ota

open EspIdf.Lib

/-- An entry of the partition table. -/
structure Partition where
  type : BitVec 8
  subtype : BitVec 8
  offset : ℕ
  size : ℕ
deriving DecidableEq, Repr

/-- The partition table and the rollback option of the build. -/
structure Device where
  table : List Partition
  /-- `CONFIG_BOOTLOADER_APP_ROLLBACK_ENABLE`. -/
  rollback : Bool

/-- The error codes that the functions return. -/
inductive EspErr where
  | fail
  | invalidArg
  | invalidSize
  | notFound
  | notSupported
  | validateFailed
  | rollbackFailed
deriving DecidableEq, Repr

/-- How a function ends other than with `ESP_OK`. -/
inductive Stop where
  | err (e : EspErr)
  /-- An assertion does not hold. -/
  | abort
  /-- A loop does not end. -/
  | hang
  /-- `esp_restart`. -/
  | restart
deriving DecidableEq, Repr

/-- Programs over the contents of the otadata partition. -/
abbrev OtaM : Type → Type := Prog Mem Stop

/-- `ESP_PARTITION_TYPE_APP`. -/
def typeApp : ℕ := 0x00

/-- `ESP_PARTITION_TYPE_DATA`. -/
def typeData : ℕ := 0x01

/-- `ESP_PARTITION_SUBTYPE_APP_FACTORY`. -/
def subtypeFactory : ℕ := 0x00

/-- `ESP_PARTITION_SUBTYPE_APP_OTA_MIN`. -/
def subtypeOtaMin : ℕ := 0x10

/-- `ESP_PARTITION_SUBTYPE_APP_TEST`. -/
def subtypeTest : ℕ := 0x20

/-- `ESP_PARTITION_SUBTYPE_DATA_OTA`. -/
def subtypeDataOta : ℕ := 0x00

/-- The partitions that a search for a type and a subtype accepts. -/
def Partition.matches (type subtype : ℕ) (p : Partition) : Bool :=
  p.type.toNat == type && (subtype == 0xff || p.subtype.toNat == subtype)

/-- `esp_partition_find_first` without a label. -/
def findFirst (table : List Partition) (type subtype : ℕ) : Option Partition :=
  table.find? (Partition.matches type subtype)

/-! ### The otadata partition -/

/-- `esp_partition_erase_range` on the otadata partition. -/
def eraseRange (part : Partition) (offset size : ℕ) : OtaM Unit := fun m =>
  if offset > part.size then (.error (.err .invalidArg), m)
  else if offset + size > part.size then (.error (.err .invalidSize), m)
  else if size % secSize ≠ 0 then (.error (.err .invalidSize), m)
  else if offset % secSize ≠ 0 then (.error (.err .invalidArg), m)
  else (.ok (), m.erase offset size)

/-- `esp_partition_write` on the otadata partition. -/
def partitionWrite (part : Partition) (offset : ℕ) (bs : List Byte) : OtaM Unit := fun m =>
  if offset > part.size then (.error (.err .invalidArg), m)
  else if offset + bs.length > part.size then (.error (.err .invalidSize), m)
  else (.ok (), m.program offset bs)

/-- `read_otadata`: the partition and its two records. -/
def readOtadata (dev : Device) : OtaM (Option (Partition × (Fin 2 → SelectEntry))) := fun m =>
  (.ok ((findFirst dev.table typeData subtypeDataOta).map fun part => (part, readTwo m)), m)

/-- `set_new_state_otadata`. -/
def setNewStateOtadata (dev : Device) : BitVec 32 := if dev.rollback then imgNew else imgUndefined

/-- A record with its sequence number, and the checksum of it, replaced. -/
def SelectEntry.withSeq (s : SelectEntry) (seq : BitVec 32) : SelectEntry :=
  { s with otaSeq := seq, crc := otaSelectCrc { s with otaSeq := seq } }

/-- `rewrite_ota_seq`. -/
def rewriteOtaSeq (two : Fin 2 → SelectEntry) (seq : BitVec 32) (secId : Fin 2)
    (part : Partition) : OtaM Unit := do
  eraseRange part (secSize * secId) secSize
  partitionWrite part (secSize * secId) ((two secId).withSeq seq).encode

/-- The loop of `get_ota_partition_count`: `left` more slots may be counted. -/
def countSlots (table : List Partition) (left count : ℕ) : OtaM ℕ :=
  match findFirst table typeApp (subtypeOtaMin + count) with
  | none => pure count
  | some _ =>
    match left with
    | 0 => Prog.throw .abort
    | left + 1 => countSlots table left (count + 1)

/-- `get_ota_partition_count`. -/
def getOtaPartitionCount (dev : Device) : OtaM ℕ := countSlots dev.table 16 0

/-! ### Selecting a slot -/

/-- `SUB_TYPE_ID`. -/
def subTypeId (subtype : ℕ) : ℕ := subtype % 16

/-- The sequence number that the search of `esp_rewrite_ota_data` tries in round `i`. -/
def seqCandidate (id count i : ℕ) : ℕ := u32 ((id + 1) % count + u32 (i * count))

/-- The search of `esp_rewrite_ota_data`; after `2 ^ 32` rounds the counter is back at its
start and the loop goes on for ever. -/
def searchSeq (seq id count : ℕ) : ℕ → ℕ → Option ℕ
  | 0, _ => none
  | fuel + 1, i =>
    if seq > seqCandidate id count i then searchSeq seq id count fuel (i + 1)
    else some (seqCandidate id count i)

/-- Set the state of a record. -/
def SelectEntry.withState (s : SelectEntry) (state : BitVec 32) : SelectEntry :=
  { s with otaState := state }

/-- The records with the state of record `i` set. -/
def setState (two : Fin 2 → SelectEntry) (i : Fin 2) (state : BitVec 32) : Fin 2 → SelectEntry :=
  Function.update two i ((two i).withState state)

/-- `esp_rewrite_ota_data`. -/
def espRewriteOtaData (dev : Device) (subtype : ℕ) : OtaM Unit := do
  match ← readOtadata dev with
  | none => Prog.throw (.err .notFound)
  | some (part, otadata) =>
    let otaAppCount ← getOtaPartitionCount dev
    if subTypeId subtype ≥ otaAppCount then
      Prog.throw (.err .invalidArg)
    else
      match getActiveOtadata otadata with
      | some active =>
        match searchSeq (otadata active).otaSeq.toNat (subTypeId subtype) otaAppCount (2 ^ 32) 0 with
        | none => Prog.throw .hang
        | some seq =>
          let next := otherRecord active
          rewriteOtaSeq (setState otadata next (setNewStateOtadata dev)) (BitVec.ofNat 32 seq)
            next part
      | none =>
        -- both records are invalid, probably because the partition is unformatted
        rewriteOtaSeq (setState otadata 0 (setNewStateOtadata dev))
          (BitVec.ofNat 32 (subTypeId subtype + 1)) 0 part

/-- `esp_ota_set_boot_partition`.  `verify` is the outcome of the image verification. -/
def espOtaSetBootPartition (dev : Device) (verify : Partition → Bool)
    (partition : Option Partition) : OtaM Unit :=
  match partition with
  | none => Prog.throw (.err .invalidArg)
  | some p =>
    if verify p then
      if p.type.toNat = typeApp then
        if p.subtype.toNat = subtypeFactory then
          match findFirst dev.table typeData subtypeDataOta with
          | some part => eraseRange part 0 part.size
          | none => Prog.throw (.err .notFound)
        else
          espRewriteOtaData dev p.subtype.toNat
      else
        Prog.throw (.err .invalidArg)
    else
      Prog.throw (.err .validateFailed)

/-! ### Asking for the slot -/

/-- `find_default_boot_partition`. -/
def findDefaultBootPartition (dev : Device) : Option Partition :=
  match findFirst dev.table typeApp subtypeFactory with
  | some p => some p
  | none =>
    match (List.range 16).findSome? fun i => findFirst dev.table typeApp (subtypeOtaMin + i) with
    | some p => some p
    | none => findFirst dev.table typeApp subtypeTest

/-- `esp_ota_get_boot_partition`. -/
def espOtaGetBootPartition (dev : Device) : OtaM (Option Partition) := do
  match ← readOtadata dev with
  | none => pure none
  | some (_, otadata) =>
    let otaAppCount ← getOtaPartitionCount dev
    if (otaSelectInvalid (otadata 0) && otaSelectInvalid (otadata 1)) || otaAppCount == 0 then
      pure (findDefaultBootPartition dev)
    else
      match getActiveOtadata otadata with
      | some active =>
        let slot := u32Sub (otadata active).otaSeq.toNat 1 % otaAppCount
        pure (findFirst dev.table typeApp (subtypeOtaMin + slot))
      | none => pure (findDefaultBootPartition dev)

/-! ### Confirming and rejecting the running image -/

/-- `esp_ota_check_rollback_is_possible`. -/
def espOtaCheckRollbackIsPossible (dev : Device) (verify : Partition → Bool) : OtaM Bool := do
  match ← readOtadata dev with
  | none => pure false
  | some (_, otadata) =>
    let otaAppCount ← getOtaPartitionCount dev
    if otaAppCount = 0 then
      pure false
    else
      match getActiveOtadata otadata with
      | none => pure false
      | some active =>
        let last := otherRecord active
        if otaSelectValid (otadata last) then
          let slot := u32Sub (otadata last).otaSeq.toNat 1 % otaAppCount
          pure ((findFirst dev.table typeApp (subtypeOtaMin + slot)).any verify)
        else
          pure ((findFirst dev.table typeApp subtypeFactory).any verify)

/-- `esp_ota_current_ota_is_workable`. -/
def espOtaCurrentOtaIsWorkable (dev : Device) (verify : Partition → Bool) (valid : Bool) :
    OtaM Unit := do
  match ← readOtadata dev with
  | none => Prog.throw (.err .notFound)
  | some (part, otadata) =>
    match getActiveOtadata otadata with
    | none => Prog.throw (.err .fail)
    | some active =>
      let otaAppCount ← getOtaPartitionCount dev
      if otaAppCount = 0 then
        Prog.throw (.err .fail)
      else if valid then
        if (otadata active).otaState = imgValid then
          pure ()
        else
          rewriteOtaSeq (setState otadata active imgValid) (otadata active).otaSeq active part
      else if ← espOtaCheckRollbackIsPossible dev verify then
        rewriteOtaSeq (setState otadata active imgInvalid) (otadata active).otaSeq active part
        Prog.throw .restart
      else
        Prog.throw (.err .rollbackFailed)

/-- `esp_ota_mark_app_valid_cancel_rollback`. -/
def espOtaMarkAppValidCancelRollback (dev : Device) (verify : Partition → Bool) : OtaM Unit :=
  espOtaCurrentOtaIsWorkable dev verify true

/-- `esp_ota_mark_app_invalid_rollback_and_reboot`. -/
def espOtaMarkAppInvalidRollbackAndReboot (dev : Device) (verify : Partition → Bool) :
    OtaM Unit :=
  espOtaCurrentOtaIsWorkable dev verify false

/-! ### Asking for the state of an image -/

/-- `is_ota_partition`. -/
def isOtaPartition (p : Partition) : Bool :=
  p.type.toNat == typeApp && subtypeOtaMin ≤ p.subtype.toNat &&
    p.subtype.toNat < subtypeOtaMin + 16

/-- A record for the slot whose checksum is correct. -/
def SelectEntry.isFor (count slot : ℕ) (s : SelectEntry) : Bool :=
  u32Sub s.otaSeq.toNat 1 % count == slot && s.crc == otaSelectCrc s

/-- The loop of `esp_ota_get_state_partition`: the state of the first record for the slot. -/
def stateOfSlot (two : Fin 2 → SelectEntry) (count slot : ℕ) : Option (BitVec 32) :=
  ([two 0, two 1].find? (SelectEntry.isFor count slot)).map SelectEntry.otaState

/-- `esp_ota_get_state_partition`. -/
def espOtaGetStatePartition (dev : Device) (partition : Option Partition) :
    OtaM (BitVec 32) := do
  match partition with
  | none => Prog.throw (.err .invalidArg)
  | some p =>
    if isOtaPartition p then
      let otaAppCount ← getOtaPartitionCount dev
      match ← readOtadata dev with
      | none => Prog.throw (.err .notFound)
      | some (_, otadata) =>
        if otaAppCount = 0 then
          Prog.throw (.err .notFound)
        else
          match stateOfSlot otadata otaAppCount (p.subtype.toNat - subtypeOtaMin) with
          | some state => pure state
          | none => Prog.throw (.err .notFound)
    else
      Prog.throw (.err .notSupported)

end EspIdf.Ota
