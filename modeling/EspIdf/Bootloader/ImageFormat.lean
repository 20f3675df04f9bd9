/-
# Verifying an application image

`image_load` in its verifying modes.  It follows the segments of an image through the flash and
feeds their headers and data to a checksum, word by word, and to SHA-256, in steps of 1 KB; the
data are mapped piece by piece, as many pages at a time as are free.  A sum of addresses is one
of 32-bit words, and the lengths are read from flash.
-/
import EspIdf.Bootloader.LoadAddresses
import EspIdf.Lib.Nor

namespace EspIdf.Bootloader

open EspIdf.Lib

/-- How `image_load` ends other than with `ESP_OK`. -/
inductive ImageErr where
  | invalidArg
  | imageInvalid
  | fail
  /-- The error code of the flash driver. -/
  | flash
  /-- An assertion does not hold, or a pointer is `NULL` where it is used. -/
  | abort
  /-- A loop that takes nothing off what remains. -/
  | hang
deriving DecidableEq, Repr

/-- Which of the two versions of `bootloader_flash.c` is built in. -/
inductive Build where
  | app
  | bootloader
deriving DecidableEq, Repr

/-- What `image_load` runs on. -/
structure Env where
  build : Build
  /-- The contents of the flash, decrypted where encryption is enabled. -/
  flash : Mem
  /-- `g_rom_flashchip.chip_size`. -/
  chipSize : ℕ
  /-- The pages that `spi_flash_mmap` can map next to each other. -/
  freePages : ℕ
  /-- `esp_cpu_in_ocd_debug_mode`. -/
  ocdDebug : Bool
  /-- `CONFIG_IDF_FIRMWARE_CHIP_ID`. -/
  chipId : ℕ
  /-- `bootloader_common_get_chip_revision`. -/
  chipRevision : ℕ
  sha256 : List Byte → List Byte

/-! ### Access to the flash -/

/-- `SPI_FLASH_MMU_PAGE_SIZE`. -/
def mmuPageSize : ℕ := 0x10000

/-- `MMU_FREE_PAGES` of the bootloader. -/
def mmuFreePages : ℕ := 50

/-- `bootloader_mmap_get_free_pages`. -/
def Env.mmapGetFreePages (e : Env) : ℕ :=
  match e.build with
  | .app => e.freePages
  | .bootloader => mmuFreePages

/-- `bootloader_flash_read`. -/
def Env.flashRead (e : Env) (src size : ℕ) : Except ImageErr (List Byte) :=
  match e.build with
  | .app => if e.chipSize < u32 (src + size) then .error .flash else .ok (e.flash.read src size)
  | .bootloader =>
    if src % 4 ≠ 0 ∨ size % 4 ≠ 0 then .error .fail else .ok (e.flash.read src size)

/-- What `bootloader_mmap` maps, `none` for `NULL`. -/
def Env.mmap (e : Env) (src size : ℕ) : Option (List Byte) :=
  match e.build with
  | .app =>
    let srcPage := src / mmuPageSize * mmuPageSize
    let mapSize := u32 (size + (src - srcPage))
    if e.chipSize < u32 (srcPage + mapSize) ∨
        e.freePages < (mapSize + (mmuPageSize - 1)) / mmuPageSize then none
    else some (e.flash.read src size)
  | .bootloader =>
    if mmuFreePages * mmuPageSize < size then none else some (e.flash.read src size)

/-- The bytes that an open SHA-256 handle was fed, `none` for `NULL`. -/
abbrev ShaHandle : Type := Option (List Byte)

/-- `bootloader_sha256_data` where the handle is not `NULL`; it asserts that it is given words. -/
def sha256Data : ShaHandle → List Byte → Except ImageErr ShaHandle
  | none, _ => .ok none
  | some fed, data => if data.length % 4 ≠ 0 then .error .abort else .ok (some (fed ++ data))

/-! ### The image header -/

/-- The 24 bytes of an `esp_image_header_t`. -/
abbrev ImageHeader : Type := List Byte

namespace ImageHeader

variable (h : ImageHeader)

def magic : Byte := h.getD 0 0#8
def segmentCount : ℕ := (h.getD 1 0#8).toNat
def chipId : ℕ := leVal ((h.drop 12).take 2)
def minChipRev : ℕ := (h.getD 14 0#8).toNat
def hashAppended : Bool := h.getD 23 0#8 ≠ 0#8

end ImageHeader

/-- `ESP_IMAGE_MAX_SEGMENTS`. -/
def imageMaxSegments : ℕ := 16

/-- `HASH_LEN`. -/
def hashLen : ℕ := 32

/-- `bootloader_common_check_chip_validity`. -/
def checkChipValidity (e : Env) (image : ImageHeader) : Bool :=
  e.chipId = image.chipId ∧ image.minChipRev ≤ e.chipRevision

/-- `verify_image_header`. -/
def verifyImageHeader (e : Env) (image : ImageHeader) : Except ImageErr Unit :=
  if image.magic ≠ 0xe9#8 then .error .imageInvalid
  else if checkChipValidity e image = false then .error .imageInvalid
  else .ok ()

/-! ### The segments -/

/-- The word at the offset `i` of mapped data. -/
def wordAt (src : List Byte) (i : ℕ) : BitVec 32 :=
  src.getD (i + 3) 0#8 ++ src.getD (i + 2) 0#8 ++ src.getD (i + 1) 0#8 ++ src.getD i 0#8

/-- `SHA_CHUNK`. -/
def shaChunk : ℕ := 1024

/-- The hash is fed in steps of 1 KB of the mapped data. -/
def feedChunk (src : List Byte) (dataLen i : ℕ) (sha : ShaHandle) : Except ImageErr ShaHandle :=
  if i % shaChunk = 0 then sha256Data sha ((src.drop i).take (min shaChunk (dataLen - i)))
  else .ok sha

/-- The loop of `process_segment_data` at the offset `i` of the mapped data, with `n` words left. -/
def dataLoop (src : List Byte) (dataLen : ℕ) :
    ℕ → ℕ → ShaHandle → BitVec 32 → Except ImageErr (ShaHandle × BitVec 32)
  | 0, _, sha, checksum => .ok (sha, checksum)
  | n + 1, i, sha, checksum => do
    let checksum := checksum ^^^ wordAt src i
    let sha ← feedChunk src dataLen i sha
    dataLoop src dataLen n (i + 4) sha checksum

/-- `process_segment_data`. -/
def processSegmentData (e : Env) (dataAddr dataLen : ℕ) (sha : ShaHandle) (checksum : BitVec 32) :
    Except ImageErr (ShaHandle × BitVec 32) :=
  match e.mmap dataAddr dataLen with
  | none => .error .fail
  | some data => dataLoop data dataLen ((dataLen + 3) / 4) 0 sha checksum

/-- How many of the bytes that remain at an address are mapped next. -/
def pieceLen (e : Env) (dataAddr dataLenRemain : ℕ) : ℕ :=
  let offsetPage := if dataAddr % mmuPageSize ≠ 0 then 1 else 0
  min dataLenRemain (u32 (u32Sub e.mmapGetFreePages offsetPage * mmuPageSize))

/-- The loop of `process_segment` over the data of a segment. -/
def segmentLoop (e : Env) (dataAddr dataLenRemain : ℕ) (sha : ShaHandle) (checksum : BitVec 32) :
    Except ImageErr (ShaHandle × BitVec 32) :=
  if dataLenRemain = 0 then .ok (sha, checksum)
  else if _h : pieceLen e dataAddr dataLenRemain = 0 then .error .hang
  else do
    let dataLen := pieceLen e dataAddr dataLenRemain
    let done ← processSegmentData e dataAddr dataLen sha checksum
    segmentLoop e (u32 (dataAddr + dataLen)) (dataLenRemain - dataLen) done.1 done.2
termination_by dataLenRemain
decreasing_by
  have hle : pieceLen e dataAddr dataLenRemain ≤ dataLenRemain := Nat.min_le_left _ _
  omega

/-- The header that the bytes stand for. -/
def segmentHeader (bs : List Byte) : SegmentHeader :=
  ⟨leVal (bs.take 4), leVal ((bs.drop 4).take 4)⟩

/-- A segment that has been processed. -/
structure Processed where
  header : SegmentHeader
  sha : ShaHandle
  checksum : BitVec 32

/-- `process_segment`. -/
def processSegment (e : Env) (flashAddr : ℕ) (sha : ShaHandle) (checksum : BitVec 32) :
    Except ImageErr Processed := do
  let bs ← e.flashRead flashAddr 8
  let sha ← sha256Data sha bs
  let header := segmentHeader bs
  let dataAddr := u32 (flashAddr + 8)
  if verifySegmentHeader header dataAddr = false then .error .imageInvalid
  else if header.dataLen % 4 ≠ 0 then .error .imageInvalid
  else do
    let done ← segmentLoop e dataAddr header.dataLen sha checksum
    .ok ⟨header, done.1, done.2⟩

/-- The segments that have been processed, with where the data of each begin. -/
structure Segments where
  headers : List SegmentHeader
  dataAddrs : List ℕ
  nextAddr : ℕ
  sha : ShaHandle
  checksum : BitVec 32

/-- One segment before the others. -/
def Segments.cons (header : SegmentHeader) (dataAddr : ℕ) (rest : Segments) : Segments :=
  { rest with headers := header :: rest.headers, dataAddrs := dataAddr :: rest.dataAddrs }

/-- The loop of `image_load` at `nextAddr`, with `n` segments left. -/
def loadSegments (e : Env) : ℕ → ℕ → ShaHandle → BitVec 32 → Except ImageErr Segments
  | 0, nextAddr, sha, checksum => .ok ⟨[], [], nextAddr, sha, checksum⟩
  | n + 1, nextAddr, sha, checksum => do
    let done ← processSegment e nextAddr sha checksum
    let dataAddr := u32 (nextAddr + 8)
    let rest ← loadSegments e n (u32 (dataAddr + done.header.dataLen)) done.sha done.checksum
    .ok (rest.cons done.header dataAddr)

/-! ### The image -/

/-- The bytes of the checksum word put together. -/
def checksumByte (w : BitVec 32) : Byte :=
  (w >>> 24).setWidth 8 ^^^ (w >>> 16).setWidth 8 ^^^ (w >>> 8).setWidth 8 ^^^ w.setWidth 8

/-- `verify_checksum`, which returns the whole length of the image. -/
def verifyChecksum (e : Env) (startAddr unpaddedLength : ℕ) (hashAppended : Bool) (sha : ShaHandle)
    (checksumWord : BitVec 32) : Except ImageErr (ℕ × ShaHandle) :=
  let length := u32 (u32 (unpaddedLength + 1) + 15) / 16 * 16
  match e.flashRead (u32 (startAddr + unpaddedLength)) (u32Sub length unpaddedLength) with
  | .error _ => .error .imageInvalid
  | .ok buf =>
    let calculated := checksumByte checksumWord
    if calculated ≠ buf.getD (u32Sub length unpaddedLength - 1) 0#8 then .error .imageInvalid
    else do
      let sha ← sha256Data sha buf
      .ok (if hashAppended then length + hashLen else length, sha)

/-- `verify_simple_hash`. -/
def verifySimpleHash (e : Env) (startAddr imageLen : ℕ) (fed : List Byte) :
    Except ImageErr Unit :=
  match e.mmap (u32Sub (u32 (startAddr + imageLen)) hashLen) hashLen with
  | none => .error .abort
  | some hash => if hash ≠ e.sha256 fed then .error .imageInvalid else .ok ()

/-- The modes that verify and do not load; they differ in what they log. -/
inductive LoadMode where
  | verify
  | verifySilent
deriving DecidableEq, Repr

/-- `esp_partition_pos_t`. -/
structure PartitionPos where
  offset : ℕ
  size : ℕ
deriving DecidableEq, Repr

/-- `esp_image_metadata_t`. -/
structure Metadata where
  startAddr : ℕ
  image : ImageHeader
  segments : List SegmentHeader
  segmentData : List ℕ
  imageLen : ℕ
  imageDigest : List Byte
deriving DecidableEq, Repr

/-- `ESP_BOOTLOADER_OFFSET`. -/
def espBootloaderOffset : ℕ := 0x1000

/-- The check of the appended hash in `image_load`; an image at the offset of the bootloader is not
checked. -/
def checkHash (e : Env) (part : PartitionPos) (imageLen : ℕ) (sha : ShaHandle) :
    Except ImageErr Unit :=
  match sha with
  | some fed =>
    if part.offset ≠ espBootloaderOffset ∧ e.ocdDebug = false then
      verifySimpleHash e part.offset imageLen fed
    else .ok ()
  | none => .ok ()

/-- The digest that is handed out. -/
def imageDigest (e : Env) (part : PartitionPos) (image : ImageHeader) (imageLen : ℕ) :
    Except ImageErr (List Byte) :=
  if image.hashAppended then
    match e.mmap (u32Sub (u32 (part.offset + imageLen)) hashLen) hashLen with
    | none => .error .fail
    | some hash => .ok hash
  else .ok (List.replicate hashLen 0#8)

/-- The end of `image_load`: the length, the hash and the digest. -/
def finishImage (e : Env) (part : PartitionPos) (image : ImageHeader) (segments : Segments)
    (imageLen : ℕ) (sha : ShaHandle) : Except ImageErr Metadata :=
  if part.offset ≠ espBootloaderOffset ∧ part.size < imageLen then .error .imageInvalid
  else
    match checkHash e part imageLen sha with
    | .error .abort => .error .abort
    | err => do
      -- an error of the hash is returned after the digest has been read
      let digest ← imageDigest e part image imageLen
      err
      .ok ⟨part.offset, image, segments.headers, segments.dataAddrs, imageLen, digest⟩

/-- The hash is calculated only for an image that has one appended. -/
def startSha (image : ImageHeader) : Except ImageErr ShaHandle :=
  if image.hashAppended then sha256Data (some []) image else .ok none

/-- The check of the checksum in `image_load`, which a debugger that is attached turns off. -/
def checkChecksum (e : Env) (part : PartitionPos) (image : ImageHeader) (imageLen : ℕ)
    (segments : Segments) : Except ImageErr (ℕ × ShaHandle) :=
  if e.ocdDebug then .ok (imageLen, segments.sha)
  else verifyChecksum e part.offset imageLen image.hashAppended segments.sha segments.checksum

/-- `image_load` in a verifying mode. -/
def imageLoad (e : Env) (_mode : LoadMode) (part : PartitionPos) : Except ImageErr Metadata :=
  if 0x1000000 < part.size then .error .invalidArg
  else do
    let image ← e.flashRead part.offset 24
    let sha ← startSha image
    verifyImageHeader e image
    if imageMaxSegments < ImageHeader.segmentCount image then .error .imageInvalid
    else do
      let segments ← loadSegments e (ImageHeader.segmentCount image) (u32 (part.offset + 24)) sha
        0xef#32
      if segments.nextAddr < part.offset then .error .imageInvalid
      else do
        let imageLen := u32Sub segments.nextAddr part.offset
        let checked ← checkChecksum e part image imageLen segments
        finishImage e part image segments checked.1 checked.2

end EspIdf.Bootloader
