/-
# Streaming an image into a slot

`esp_ota_begin`, `esp_ota_write` and `esp_ota_end`.  With flash encryption only whole blocks
of 16 bytes can be written, and a handle carries the bytes of the last unfinished block from
call to call.  The flash driver may refuse any access, which then leaves the flash as it is.
-/
import EspIdf.Ota.App
import EspIdf.SpiFlash.Encrypted

namespace EspIdf.Ota

open EspIdf.Lib EspIdf.SpiFlash

/-- The device with what `esp_ota_begin` asks for. -/
structure Board extends Device where
  /-- `esp_ota_get_running_partition`. -/
  running : Partition
  /-- The flash encryption, when it is enabled; every application partition and the otadata
  partition are encrypted then. -/
  cipher : Option (Cipher 16)

/-- The error codes of the calls. -/
inductive OpsErr where
  | invalidArg
  | invalidSize
  | invalidState
  | notFound
  | validateFailed
  | partitionConflict
  | rollbackInvalidState
  /-- An error of the flash driver. -/
  | flash (code : ℕ)
deriving DecidableEq, Repr

/-- How a call ends other than with `ESP_OK`. -/
inductive OpsStop where
  | err (e : OpsErr)
  /-- An assertion does not hold. -/
  | abort
deriving DecidableEq, Repr

/-- `ota_ops_entry_t`. -/
structure OtaOpsEntry where
  handle : ℕ
  part : Partition
  erasedSize : ℕ
  wroteSize : ℕ
  partialBytes : ℕ
  partialData : Block 16

/-- The flash and the open handles. -/
structure OpsState where
  flash : Mem
  /-- How often each address was written. -/
  written : ℕ → ℕ
  /-- How the next accesses of the flash driver end; those after the list succeed. -/
  faults : List (Option ℕ)
  /-- `s_ota_ops_entries_head`. -/
  entries : List OtaOpsEntry
  /-- `s_ota_ops_last_handle`. -/
  lastHandle : ℕ

/-- Programs over the flash and the handles. -/
abbrev OpsM : Type → Type := Prog OpsState OpsStop

/-- Leave with an error code. -/
def failWith {α : Type} (e : OpsErr) : OpsM α := Prog.throw (.err e)

/-- `ESP_IMAGE_HEADER_MAGIC`. -/
def imageHeaderMagic : Byte := 0xe9#8

/-- `OTA_SIZE_UNKNOWN`. -/
def otaSizeUnknown : ℕ := 0xffffffff

/-! ### The partition functions -/

/-- An access of the flash driver. -/
def flashAccess (f : OpsState → OpsState) : OpsM Unit := fun s =>
  match s.faults with
  | some e :: fs => (.error (.err (.flash e)), { s with faults := fs })
  | none :: fs => (.ok (), f { s with faults := fs })
  | [] => (.ok (), f s)

/-- What reads of an application partition see. -/
def Board.view (dev : Board) (m : Mem) : Mem :=
  match dev.cipher with
  | none => m
  | some c => c.plain m

/-- The flash after the bytes `bs` were written to the address `a`. -/
def Board.store (dev : Board) (m : Mem) (a : ℕ) (bs : List Byte) : Mem :=
  match dev.cipher with
  | none => m.program a bs
  | some c => spiFlashWriteEncryptedChip c m a bs (bs.length / 16)

/-- The state after the bytes `bs` were written to the address `a`. -/
def OpsState.store (dev : Board) (a : ℕ) (bs : List Byte) (s : OpsState) : OpsState :=
  { s with
    flash := dev.store s.flash a bs
    written := fun x => if a ≤ x ∧ x < a + bs.length then s.written x + 1 else s.written x }

/-- `esp_partition_write` on an application partition. -/
def espPartitionWrite (dev : Board) (part : Partition) (dstOffset : ℕ) (src : List Byte) :
    OpsM Unit :=
  if dstOffset > part.size then failWith .invalidArg
  else if dstOffset + src.length > part.size then failWith .invalidSize
  else if dev.cipher.isSome ∧ (part.offset + dstOffset) % 16 ≠ 0 then failWith .invalidArg
  else if dev.cipher.isSome ∧ src.length % 16 ≠ 0 then failWith .invalidSize
  else flashAccess (OpsState.store dev (part.offset + dstOffset) src)

/-- `esp_partition_erase_range`. -/
def espPartitionEraseRange (part : Partition) (offset size : ℕ) : OpsM Unit :=
  if offset > part.size then failWith .invalidArg
  else if offset + size > part.size then failWith .invalidSize
  else if size % secSize ≠ 0 then failWith .invalidSize
  else if offset % secSize ≠ 0 then failWith .invalidArg
  else if (part.offset + offset) % secSize ≠ 0 then failWith .invalidArg
  else flashAccess fun s => { s with flash := s.flash.erase (part.offset + offset) size }

/-! ### The handles -/

/-- The handle that a call finds. -/
def findEntry (handle : ℕ) (entries : List OtaOpsEntry) : Option OtaOpsEntry :=
  entries.find? fun it => it.handle == handle

/-- Change the handle that a call has found. -/
def setEntry (it : OtaOpsEntry) : List OtaOpsEntry → List OtaOpsEntry
  | [] => []
  | e :: es => if e.handle = it.handle then it :: es else e :: setEntry it es

/-- `LIST_REMOVE` of the handle that a call has found. -/
def removeEntry (handle : ℕ) (entries : List OtaOpsEntry) : List OtaOpsEntry :=
  entries.eraseP fun it => it.handle == handle

/-- Store the fields of a handle. -/
def putEntry (it : OtaOpsEntry) : OpsM Unit :=
  Prog.modify fun s => { s with entries := setEntry it s.entries }

/-! ### esp_ota_begin -/

/-- The size of the range that `esp_ota_begin` erases. -/
def eraseLength (part : Partition) (imageSize : ℕ) : ℕ :=
  if imageSize = 0 ∨ imageSize = otaSizeUnknown then part.size
  else u32 (imageSize + (secSize - 1)) / secSize * secSize

/-- What reads of the otadata partition see. -/
def otadataView (dev : Board) (m : Mem) : Mem :=
  match findFirst dev.table typeData subtypeDataOta with
  | none => m
  | some part => fun x => dev.view m (part.offset + x)

/-- The running application still waits for its confirmation; only asked with the rollback
option. -/
def runningPendingVerify (dev : Board) : OpsM Bool := fun s =>
  if dev.rollback then
    match (espOtaGetStatePartition dev.toDevice (some dev.running) (otadataView dev s.flash)).1 with
    | .ok state => (.ok (state == imgPendingVerify), s)
    | .error (.err _) => (.ok false, s)
    | .error _ => (.error .abort, s)
  else (.ok false, s)

/-- `esp_ota_begin`. -/
def espOtaBegin (dev : Board) (partition : Partition) (imageSize : ℕ) : OpsM ℕ :=
  if partition ∉ dev.table then failWith .notFound
  else if !isOtaPartition partition then failWith .invalidArg
  else if partition = dev.running then failWith .partitionConflict
  else do
    if ← runningPendingVerify dev then
      failWith .rollbackInvalidState
    else
      espPartitionEraseRange partition 0 (eraseLength partition imageSize)
      let s ← Prog.get
      let handle := u32 (s.lastHandle + 1)
      let newEntry : OtaOpsEntry :=
        { handle := handle
          part := partition
          erasedSize := if imageSize = 0 ∨ imageSize = otaSizeUnknown then partition.size
            else imageSize
          wroteSize := 0
          partialBytes := 0
          partialData := fun _ => 0 }
      Prog.modify fun s => { s with entries := newEntry :: s.entries, lastHandle := handle }
      pure handle

/-! ### esp_ota_write -/

/-- The last step of `esp_ota_write`: write the bytes that are left of the data. -/
def writeData (dev : Board) (it : OtaOpsEntry) (data : List Byte) : OpsM Unit := do
  espPartitionWrite dev it.part it.wroteSize data
  putEntry { it with wroteSize := it.wroteSize + data.length }

/-- Save the trailing data in the handle and write the blocks before it. -/
def writeBlocks (dev : Board) (it : OtaOpsEntry) (data : List Byte) : OpsM Unit := do
  let trailing := data.length % 16
  let it : OtaOpsEntry :=
    { it with
      partialBytes := trailing
      partialData := it.partialData.patch 0 (data.drop (data.length - trailing)) }
  putEntry it
  writeData dev it (data.take (data.length - trailing))

/-- The handle with the block that `copyLen` bytes of the data fill up. -/
def OtaOpsEntry.filled (it : OtaOpsEntry) (data : List Byte) (copyLen : ℕ) : OtaOpsEntry :=
  { it with
    partialBytes := it.partialBytes + copyLen
    partialData := it.partialData.patch it.partialBytes (data.take copyLen) }

/-- The handle after its block was written. -/
def OtaOpsEntry.flushed (it : OtaOpsEntry) : OtaOpsEntry :=
  { it with
    partialBytes := 0
    partialData := fun _ => 0xff#8
    wroteSize := it.wroteSize + 16 }

/-- `esp_ota_write` with flash encryption. -/
def writeEncrypted (dev : Board) (it : OtaOpsEntry) (data : List Byte) : OpsM Unit :=
  if it.partialBytes ≠ 0 then
    let copyLen := min (16 - it.partialBytes) data.length
    let it := it.filled data copyLen
    if it.partialBytes ≠ 16 then
      -- nothing to write yet, just filling buffer
      putEntry it
    else do
      putEntry it
      espPartitionWrite dev it.part it.wroteSize (List.ofFn it.partialData)
      putEntry it.flushed
      writeBlocks dev it.flushed (data.drop copyLen)
  else
    writeBlocks dev it data

/-- `esp_ota_write`. -/
def espOtaWrite (dev : Board) (handle : ℕ) (data : List Byte) : OpsM Unit := do
  let s ← Prog.get
  match findEntry handle s.entries with
  | none => failWith .invalidArg
  | some it =>
    if it.erasedSize = 0 then
      Prog.throw .abort
    else if it.wroteSize = 0 ∧ it.partialBytes = 0 ∧ data ≠ [] ∧
        data.head? ≠ some imageHeaderMagic then
      failWith .validateFailed
    else if dev.cipher.isSome then
      writeEncrypted dev it data
    else
      writeData dev it data

/-! ### esp_ota_end -/

/-- The last block of `esp_ota_end`; the fields it sets in the handle go with the handle. -/
def writeLastBlock (dev : Board) (it : OtaOpsEntry) : OpsM Unit := fun s =>
  if it.partialBytes > 0 then
    match espPartitionWrite dev it.part it.wroteSize (List.ofFn it.partialData) s with
    | (.ok _, s') => (.ok (), s')
    | (.error _, s') => (.error (.err .invalidState), s')
  else (.ok (), s)

/-- `esp_ota_end` up to its cleanup.  `verify` is the outcome of the image verification. -/
def endBody (dev : Board) (verify : Mem → Partition → Bool) (it : OtaOpsEntry) : OpsM Unit :=
  if it.erasedSize = 0 ∨ it.wroteSize = 0 then failWith .invalidArg
  else do
    writeLastBlock dev it
    let s ← Prog.get
    if verify s.flash it.part then pure () else failWith .validateFailed

/-- `esp_ota_end`. -/
def espOtaEnd (dev : Board) (verify : Mem → Partition → Bool) (handle : ℕ) :
    OpsM Unit := fun s =>
  match findEntry handle s.entries with
  | none => (.error (.err .notFound), s)
  | some it =>
    let (ret, s') := endBody dev verify it s
    (ret, { s' with entries := removeEntry handle s'.entries })

/-- Calls of `esp_ota_write` one after the other, as long as they return `ESP_OK`. -/
def writeChunks (dev : Board) (handle : ℕ) : List (List Byte) → OpsM Unit
  | [] => pure ()
  | chunk :: chunks => do
    espOtaWrite dev handle chunk
    writeChunks dev handle chunks

end EspIdf.Ota
