/-
# The partition generator

`nvs_partition_gen.py` writes the rows of a table to the pages of an image.  Texts are lists of
characters, as in Python, and are encoded as UTF-8 where they are stored.  The image is not
encrypted; `hex2bin`, `base64` and the contents of files are bytes when they get here.
-/
import EspIdf.Nvs.Types

namespace EspIdf.Nvs.PartitionGen

open EspIdf.Lib

/-- The exceptions: `PageFullError`, `InputError`, `InsufficientSizeError`, and those of the
language itself (a value that does not fit its field, an assertion). -/
inductive GenErr where
  | pageFull
  | input
  | insufficientSize
  | value
deriving DecidableEq, Repr

abbrev GenM : Type → Type := Except GenErr

/-! ### Bytes -/

/-- `str.encode`. -/
def encode (text : List Char) : List Byte :=
  text.flatMap fun c => (String.utf8EncodeChar c).map UInt8.toBitVec

/-- `buf[start:stop] = data` for a `bytearray`: the slice is replaced, whatever its length. -/
def setSlice (buf : List Byte) (start stop : ℕ) (data : List Byte) : List Byte :=
  buf.take start ++ data ++ buf.drop (max start stop)

/-- `struct.pack_into('<I', buf, offset, v)`. -/
def packWord (buf : List Byte) (offset v : ℕ) : List Byte :=
  setSlice buf offset (offset + 4) (le32 v)

/-- `struct.pack_into('<H', buf, offset, v)`. -/
def packHalf (buf : List Byte) (offset v : ℕ) : List Byte :=
  setSlice buf offset (offset + 2) ((le32 v).take 2)

/-- `zlib.crc32(data, 0xFFFFFFFF)`. -/
def zlibCrc32 (data : List Byte) : ℕ := (crc32Le 0xffffffff#32 data).toNat

/-- `buf[i] = v`, for an integer that has to be a byte. -/
def setByte (buf : List Byte) (i v : ℕ) : GenM (List Byte) :=
  if v < 256 then pure (setSlice buf i (i + 1) [BitVec.ofNat 8 v]) else throw .value

/-- `data`: a text or bytes. -/
inductive Data where
  | str (text : List Char)
  | bytes (bs : List Byte)
deriving DecidableEq

namespace Data

/-- `len(data)`: characters or bytes. -/
def len : Data → ℕ
  | str text => text.length
  | bytes bs => bs.length

/-- `data[start:stop]`. -/
def slice (start stop : ℕ) : Data → Data
  | str text => str ((text.take stop).drop start)
  | bytes bs => bytes ((bs.take stop).drop start)

/-- `bytes(data, encoding='utf8')`, unless it is bytes already. -/
def toBytes : Data → List Byte
  | str text => encode text
  | bytes bs => bs

end Data

/-! ### Pages -/

/-- The version of the format; the byte stands in the header of a page. -/
inductive Version where
  | version1
  | version2
deriving DecidableEq, Repr

def Version.toByte : Version → Byte
  | version1 => 0xff
  | version2 => 0xfe

/-- The encodings of rows of variable length. -/
inductive Encoding where
  | string
  /-- `hex2bin`, `base64` or `binary`. -/
  | binary
deriving DecidableEq, Repr

/-- `Page`. -/
structure Page where
  entryNum : ℕ
  bitmapArray : List Byte
  pageBuf : List Byte
deriving DecidableEq

namespace Page

def maxSize : ℕ := 4096
def maxOldBlobSize : ℕ := 1984
def maxEntries : ℕ := 126
def firstEntryOffset : ℕ := 64
def singleEntrySize : ℕ := 32

/-- `ACTIVE`. -/
def activeState : ℕ := 0xFFFFFFFE

/-- `FULL`. -/
def fullState : ℕ := 0xFFFFFFFC

/-- `Page.set_header`. -/
def setHeader (pageNum : ℕ) (version : Version) (pageBuf : List Byte) : List Byte :=
  let header := List.replicate 32 0xff
  let header := packWord header 0 activeState
  let header := packWord header 4 pageNum
  let header := setSlice header 8 9 [version.toByte]
  let header := packWord header 28 (zlibCrc32 ((header.take 28).drop 4))
  setSlice pageBuf 0 header.length header

/-- `Page.__init__`; a reserved page stays blank. -/
def init (pageNum : ℕ) (version : Version) (isRsrvPage : Bool) : Page :=
  let pageBuf := List.replicate maxSize 0xff
  if isRsrvPage then ⟨0, [], pageBuf⟩
  else ⟨0, List.replicate 32 0xff, setHeader pageNum version pageBuf⟩

/-- `Page.write_bitmaparray`. -/
def writeBitmaparray (p : Page) : GenM Page :=
  let bitnum := p.entryNum * 2
  let byteIdx := bitnum / 8
  let bitOffset := bitnum % 8
  if byteIdx < p.bitmapArray.length then
    let bitmapArray := p.bitmapArray.modify byteIdx (· &&& ~~~ (1#8 <<< bitOffset))
    pure { p with bitmapArray := bitmapArray, pageBuf := setSlice p.pageBuf 32 64 bitmapArray }
  else throw .value

/-- Mark `entrycount` entries. -/
def markEntries : ℕ → Page → GenM Page
  | 0, p => pure p
  | entrycount + 1, p => do
    let p ← p.writeBitmaparray
    markEntries entrycount { p with entryNum := p.entryNum + 1 }

/-- `Page.write_entry_to_buf`. -/
def writeEntryToBuf (data : List Byte) (entrycount : ℕ) (p : Page) : GenM Page :=
  let startIdx := firstEntryOffset + singleEntrySize * p.entryNum
  markEntries entrycount
    { p with pageBuf := setSlice p.pageBuf startIdx (startIdx + data.length) data }

/-- `Page.set_crc_header`. -/
def setCrcHeader (entryStruct : List Byte) : List Byte :=
  packWord entryStruct 4
    (zlibCrc32 (entryStruct.take 4 ++ (entryStruct.take 32).drop 8))

/-- The key of an entry. -/
def setKey (entryStruct : List Byte) (key : List Char) : List Byte :=
  let entryStruct := setSlice entryStruct 8 24 (List.replicate 16 0)
  setSlice entryStruct 8 (8 + key.length) (encode key)

/-- The entries of data of variable length, rounded up. -/
def dataEntryCount (datalen : ℕ) : ℕ := (datalen + 31) / 32

/-- `Page.write_single_page_entry`. -/
def writeSinglePageEntry (entryStruct : List Byte) (data : Data) (datalen dataEntryCount : ℕ)
    (p : Page) : GenM Page := do
  let entryStruct := packHalf entryStruct 24 datalen
  let entryStruct := packWord entryStruct 28 (zlibCrc32 data.toBytes)
  let p ← p.writeEntryToBuf (setCrcHeader entryStruct) 1
  p.writeEntryToBuf data.toBytes dataEntryCount

end Page

/-! ### Images -/

/-- `NVS`: the pages before the current one, and the current one. -/
structure NVS where
  size : ℕ
  namespaceIdx : ℕ
  pageNum : ℕ
  version : Version
  pages : List Page
  curPage : Page
deriving DecidableEq

namespace NVS

/-- All pages. -/
def allPages (nvs : NVS) : List Page := nvs.pages ++ [nvs.curPage]

/-- The state of a page is set to full. -/
def markFull (p : Page) : Page :=
  if p.pageBuf.take 4 = le32 Page.activeState then
    { p with pageBuf := packWord p.pageBuf 0 Page.fullState }
  else p

/-- `NVS.create_new_page`. -/
def createNewPage (isRsrvPage : Bool) (nvs : NVS) : GenM NVS :=
  if nvs.size = 0 then throw .insufficientSize
  else pure { nvs with
    size := if isRsrvPage then nvs.size else nvs.size - Page.maxSize
    pageNum := nvs.pageNum + 1
    pages := nvs.pages ++ [markFull nvs.curPage]
    curPage := Page.init (nvs.pageNum + 1) nvs.version isRsrvPage }

/-- `NVS.__init__`, with the first page. -/
def nvsOpen (inputSize : ℕ) (version : Version) : GenM NVS :=
  if inputSize = 0 then throw .insufficientSize
  else pure ⟨inputSize - Page.maxSize, 0, 0, version, [], Page.init 0 version false⟩

/-- Change the current page. -/
def onCurPage (nvs : NVS) (f : Page → GenM Page) : GenM NVS := do
  let p ← f nvs.curPage
  pure { nvs with curPage := p }

/-- Go on with a new page if a chunk has not taken all data, or has left no room. -/
def newPageAfterChunk (remaining room : ℕ) (nvs : NVS) : GenM NVS :=
  if remaining ≠ 0 ∨ room < Page.singleEntrySize then nvs.createNewPage false else pure nvs

/-- The loop of `Page.write_varlen_binary_data`.  A pass that writes no data goes on with an
empty page, and any other pass makes `remaining` smaller. -/
def writeChunks (data : Data) (dataSize : ℕ) :
    ℕ → List Byte → ℕ → ℕ → ℕ → NVS → GenM NVS
  | 0, _, _, _, _, _ => throw .value
  | fuel + 1, entryStruct, chunkCount, offset, remaining, nvs => do
    let p := nvs.curPage
    if Page.maxEntries < p.entryNum + 1 then throw .value
    else do
      let tailroom := (Page.maxEntries - p.entryNum - 1) * Page.singleEntrySize
      let chunkSize := min tailroom remaining
      let remaining := remaining - chunkSize
      let entryStruct := setSlice entryStruct 1 2 [ItemType.blobData]
      let entryStruct ← setByte entryStruct 2 (Page.dataEntryCount chunkSize + 1)
      let entryStruct ← setByte entryStruct 3 chunkCount
      let dataChunk := (data.slice offset (offset + chunkSize)).toBytes
      let entryStruct := packHalf entryStruct 24 chunkSize
      let entryStruct := packWord entryStruct 28 (zlibCrc32 dataChunk)
      let entryStruct := Page.setCrcHeader entryStruct
      let nvs ← nvs.onCurPage (Page.writeEntryToBuf entryStruct 1)
      let nvs ← nvs.onCurPage (Page.writeEntryToBuf dataChunk (Page.dataEntryCount chunkSize))
      let chunkCount := chunkCount + 1
      let nvs ← nvs.newPageAfterChunk remaining (tailroom - chunkSize)
      if remaining = 0 then do
        let entryStruct := setSlice entryStruct 24 32 (List.replicate 8 0xff)
        let entryStruct := setSlice entryStruct 1 2 [ItemType.blobIdx]
        let entryStruct := setSlice entryStruct 2 4 [1, chunkAny]
        let entryStruct := packWord entryStruct 24 dataSize
        let entryStruct ← setByte entryStruct 28 chunkCount
        let entryStruct := setSlice entryStruct 29 30 [0]
        nvs.onCurPage (Page.writeEntryToBuf (Page.setCrcHeader entryStruct) 1)
      else writeChunks data dataSize fuel entryStruct chunkCount (offset + chunkSize) remaining nvs

/-- The span of an entry; version 2 leaves that of a blob open. -/
def setSpan (nvs : NVS) (encoding : Encoding) (dataEntryCount : ℕ) (entryStruct : List Byte) :
    GenM (List Byte) :=
  if nvs.version = .version2 ∧ encoding ≠ .string then pure entryStruct
  else setByte entryStruct 2 (dataEntryCount + 1)

/-- The header of an entry before its data is known. -/
def entryHeader (nvs : NVS) (key : List Char) (encoding : Encoding) (dataEntryCount : ℕ) :
    GenM (List Byte) := do
  let entryStruct ← setByte (List.replicate 32 0xff) 0 nvs.namespaceIdx
  let entryStruct ← nvs.setSpan encoding dataEntryCount entryStruct
  let entryStruct := setSlice entryStruct 3 4 [chunkAny]
  let entryStruct := Page.setKey entryStruct key
  pure (setSlice entryStruct 1 2
    [if encoding = .string then ItemType.sz else ItemType.blob])

/-- `Page.write_varlen_data`. -/
def writeVarlenData (nvs : NVS) (key : List Char) (data : Data) (encoding : Encoding) :
    GenM NVS := do
  let datalen := data.len
  let multiPage : Bool := nvs.version = .version2 ∧ encoding ≠ .string
  if Page.maxOldBlobSize < datalen ∧ multiPage = false then throw .input
  else do
    let count := Page.dataEntryCount datalen
    if Page.maxEntries ≤ nvs.curPage.entryNum then throw .pageFull
    else if Page.maxEntries ≤ nvs.curPage.entryNum + (count + 1) ∧ multiPage = false then
      throw .pageFull
    else do
      let entryStruct ← nvs.entryHeader key encoding count
      if multiPage then nvs.writeChunks data datalen (datalen + 2) entryStruct 0 0 datalen
      else nvs.onCurPage (Page.writeSinglePageEntry entryStruct data datalen count)

/-- The encodings of integers: the code, the bytes, and the values that fit. -/
inductive Primitive where
  | u8
  | i8
  | u16
  | u32
  | i32
deriving DecidableEq, Repr

namespace Primitive

def toType : Primitive → ItemType
  | u8 => ItemType.u8
  | i8 => ItemType.i8
  | u16 => ItemType.u16
  | u32 => ItemType.u32
  | i32 => ItemType.i32

def width : Primitive → ℕ
  | u8 | i8 => 1
  | u16 => 2
  | u32 | i32 => 4

def isSigned : Primitive → Bool
  | i8 | i32 => true
  | u8 | u16 | u32 => false

/-- `struct.pack` takes the value. -/
def fits (enc : Primitive) (value : ℤ) : Bool :=
  if enc.isSigned then -(256 ^ enc.width / 2 : ℤ) ≤ value ∧ value < 256 ^ enc.width / 2
  else 0 ≤ value ∧ value < 256 ^ enc.width

/-- The bytes that it stores. -/
def pack (enc : Primitive) (value : ℤ) : List Byte := (le32 (value % 2 ^ 32).toNat).take enc.width

end Primitive

/-- `Page.write_primitive_data`. -/
def writePrimitiveData (key : List Char) (value : ℤ) (enc : Primitive) (nsIndex : ℕ)
    (p : Page) : GenM Page :=
  if Page.maxEntries ≤ p.entryNum then throw .pageFull
  else do
    let entryStruct ← setByte (List.replicate 32 0xff) 0 nsIndex
    let entryStruct := setSlice entryStruct 2 4 [1, chunkAny]
    let entryStruct := Page.setKey entryStruct key
    let entryStruct := setSlice entryStruct 1 2 [enc.toType]
    if enc.fits value then
      let entryStruct := setSlice entryStruct 24 (24 + enc.width) (enc.pack value)
      p.writeEntryToBuf (Page.setCrcHeader entryStruct) 1
    else throw .value

/-- Try on the current page, and on a new one if it is full. -/
def orOnNewPage (nvs : NVS) (f : NVS → GenM NVS) : GenM NVS :=
  match f nvs with
  | .error .pageFull => do
    let nvs ← nvs.createNewPage false
    f nvs
  | r => r

/-- `NVS.write_namespace`. -/
def writeNamespace (key : List Char) (nvs : NVS) : GenM NVS :=
  let nvs := { nvs with namespaceIdx := nvs.namespaceIdx + 1 }
  nvs.orOnNewPage fun nvs =>
    nvs.onCurPage (writePrimitiveData key nvs.namespaceIdx .u8 0)

/-- A row of the table. -/
inductive Row where
  | namespace (key : List Char)
  | string (key : List Char) (value : List Char)
  | binary (key : List Char) (value : Data)
  | primitive (key : List Char) (value : ℤ) (enc : Primitive)
deriving DecidableEq

def Row.key : Row → List Char
  | .namespace key | .string key _ | .binary key _ | .primitive key _ _ => key

/-- `NVS.write_entry`, and `write_namespace` for a row of that type.  A text gets a `'\0'`. -/
def writeEntry (nvs : NVS) : Row → GenM NVS
  | .namespace key => nvs.writeNamespace key
  | .string key value =>
    nvs.orOnNewPage fun nvs => nvs.writeVarlenData key (.str (value ++ [Char.ofNat 0])) .string
  | .binary key value => nvs.orOnNewPage fun nvs => nvs.writeVarlenData key value .binary
  | .primitive key value enc =>
    nvs.orOnNewPage fun nvs => nvs.onCurPage (writePrimitiveData key value enc nvs.namespaceIdx)

/-- One pass of the loop of `generate` over the rows.  The `csv` module does not take lines with
a `'\0'`. -/
def generateRow (nvs : NVS) (row : Row) : GenM NVS :=
  if Char.ofNat 0 ∈ row.key then throw .value
  else if 15 < row.key.length then throw .input
  else nvs.writeEntry row

/-- The rows of `generate`. -/
def generateRows : NVS → List Row → GenM NVS
  | nvs, [] => pure nvs
  | nvs, row :: rows => do
    let nvs ← nvs.generateRow row
    nvs.generateRows rows

end NVS

end EspIdf.Nvs.PartitionGen
