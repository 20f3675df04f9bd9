/-
# The storage of a partition

`Storage` keeps keys under namespaces.  A primitive value is one item and a string is one
item with its data; a blob is a row of chunks, one for each page that it needs, and an index.
A new version of a blob is written beside the old one, with the other half of the chunk
indices, before the old one is erased.  The functions follow `nvs_storage.cpp`.
-/
import EspIdf.Nvs.PageManager

namespace EspIdf.Nvs.Storage

open EspIdf.Lib EspIdf.Nvs

/-! ### Finding -/

/-- The first page of the list on which the item is found; a mismatch of the type is passed
over as well. -/
def findInPages (q : Page.Query) : List ℕ → NvsM (Option (ℕ × Item))
  | [] => pure none
  | i :: is => do
    let r ← onPage i (Page.findItem q 0 Page.noItem)
    if r.rc = none then pure (some (i, r.item)) else findInPages q is

/-- `Storage::findItem`. -/
def findItem (q : Page.Query) : NvsM (Option (ℕ × Item)) := do
  let s ← Prog.get
  findInPages q s.pageList

/-- Leave unless the storage has been initialised. -/
def checkActive : NvsM Unit := do
  let s ← Prog.get
  if s.state = .active then pure () else fail .notInitialized

/-- The query for a value. -/
def valueQuery (nsIndex : Byte) (datatype : ItemType) (key : List Byte) : Page.Query :=
  { nsIndex := nsIndex, datatype := datatype, key := some key }

/-- The query for a chunk of a blob. -/
def chunkQuery (nsIndex : Byte) (key : List Byte) (chunkIdx : Byte) : Page.Query :=
  { nsIndex := nsIndex, datatype := .blobData, key := some key, chunkIdx := chunkIdx }

/-- The query for the index of a blob. -/
def indexQuery (nsIndex : Byte) (key : List Byte) (chunkStart : VerOffset) : Page.Query :=
  { nsIndex := nsIndex, datatype := .blobIdx, key := some key, chunkStart := chunkStart }

/-- The chunk index `n` chunks after the start of a version. -/
def chunkAt (chunkStart : VerOffset) (n : ℕ) : Byte := chunkStart + BitVec.ofNat 8 n

/-! ### Blobs -/

/-- Read `n` chunks from number `k` on into the buffer from `offset` on: the code of the
search, the buffer and the bytes read. -/
def readChunks (nsIndex : Byte) (key : List Byte) (chunkStart : VerOffset) :
    ℕ → ℕ → List Byte → ℕ → NvsM (Option Err × List Byte × ℕ)
  | 0, _, buf, offset => pure (none, buf, offset)
  | n + 1, k, buf, offset => do
    let found ← findItem (chunkQuery nsIndex key (chunkAt chunkStart k))
    match found with
    | none => pure (some .notFound, buf, offset)
    | some (page, it) => do
      let part ← onPage page (Page.readItem (chunkQuery nsIndex key (chunkAt chunkStart k))
        ((buf.drop offset).take it.dataSize))
      assert (chunkAt chunkStart k = it.chunkIndex)
      readChunks nsIndex key chunkStart n (k + 1)
        (buf.take offset ++ part ++ buf.drop (offset + part.length)) (offset + it.dataSize)

/-- Erase `n` chunks from number `k` on; those that are missing are passed over. -/
def eraseChunks (nsIndex : Byte) (key : List Byte) (chunkStart : VerOffset) :
    ℕ → ℕ → NvsM Unit
  | 0, _ => pure ()
  | n + 1, k => do
    let found ← findItem (chunkQuery nsIndex key (chunkAt chunkStart k))
    match found with
    | none => eraseChunks nsIndex key chunkStart n (k + 1)
    | some (page, _) => do
      onPage page (Page.eraseItem (chunkQuery nsIndex key (chunkAt chunkStart k)))
      eraseChunks nsIndex key chunkStart n (k + 1)

/-- `Storage::eraseMultiPageBlob`. -/
def eraseMultiPageBlob (nsIndex : Byte) (key : List Byte) (chunkStart : VerOffset) :
    NvsM Unit := do
  checkActive
  let found ← findItem (indexQuery nsIndex key chunkStart)
  match found with
  | none => fail .notFound
  | some (page, it) => do
    onPage page (Page.eraseItem (indexQuery nsIndex key chunkStart))
    assert (chunkStart = verAny ∨ chunkStart = it.chunkStart)
    eraseChunks nsIndex key it.chunkStart it.chunkCount 0

/-- `Storage::readMultiPageBlob`. -/
def readMultiPageBlob (nsIndex : Byte) (key buf : List Byte) : NvsM (List Byte) := do
  let found ← findItem (indexQuery nsIndex key verAny)
  match found with
  | none => fail .notFound
  | some (_, it) => do
    assert (buf.length = it.blobDataSize)
    let (rc, out, offset) ← readChunks nsIndex key it.chunkStart it.chunkCount 0 buf 0
    match rc with
    | none => do
      assert (offset = buf.length)
      pure out
    | some e => do
      -- the source does not look at the result of the clean-up
      let _ ← attempt (eraseMultiPageBlob nsIndex key verAny)
      fail e

/-- Compare `n` chunks from number `k` on with the data from `offset` on. -/
def cmpChunks (nsIndex : Byte) (key : List Byte) (chunkStart : VerOffset) (data : List Byte) :
    ℕ → ℕ → ℕ → NvsM ℕ
  | 0, _, offset => pure offset
  | n + 1, k, offset => do
    let found ← findItem (chunkQuery nsIndex key (chunkAt chunkStart k))
    match found with
    | none => fail .notFound
    | some (page, it) => do
      onPage page (Page.cmpItem (chunkQuery nsIndex key (chunkAt chunkStart k))
        ((data.drop offset).take it.dataSize))
      assert (chunkAt chunkStart k = it.chunkIndex)
      cmpChunks nsIndex key chunkStart data n (k + 1) (offset + it.dataSize)

/-- `Storage::cmpMultiPageBlob`. -/
def cmpMultiPageBlob (nsIndex : Byte) (key data : List Byte) : NvsM Unit := do
  let found ← findItem (indexQuery nsIndex key verAny)
  match found with
  | none => fail .notFound
  | some (_, it) =>
    if data.length ≠ it.blobDataSize then fail .contentDiffers
    else do
      let offset ← cmpChunks nsIndex key it.chunkStart data it.chunkCount 0 0
      assert (offset = data.length)

/-- Mark a page as full unless it is. -/
def markFull (page : ℕ) : NvsM Unit := do
  let s ← Prog.get
  if (s.pages page).state = .full then pure () else onPage page Page.markFull

/-- Close the page and go on with a new one. -/
def switchPage (page : ℕ) : NvsM Unit := do
  markFull page
  PageManager.requestNewPage

/-- The room for data on the current page. -/
def tailroom (s : Partition) : ℕ := (s.pages (PageManager.back s)).getVarDataTailroom

/-- Write an item of a blob to the current page; the code that it returns. -/
def writeBlobItem (page : ℕ) (nsIndex : Byte) (datatype : ItemType) (key data : List Byte)
    (chunkIdx : Byte) : NvsM (Option Err) := do
  let r ← attempt (onPage page (Page.writeItem nsIndex datatype key data chunkIdx))
  match r with
  | .ok () => pure none
  | .error e => do
    assert (e ≠ .pageFull)
    pure (some e)

/-- Close the page of a chunk if the blob goes on or the page has no room left. -/
def closeAfterChunk (page remaining room : ℕ) : NvsM (Option Err) :=
  if remaining ≠ 0 ∨ room < entrySize then do
    let r ← attempt (switchPage page)
    match r with
    | .ok () => pure none
    | .error e => pure (some e)
  else pure none

/-- The loop of `writeMultiPageBlob` with the chunks written so far, their pages and the
bytes written: the code with which it ends and the pages.  Every pass but the first two
writes a byte, or ends the loop. -/
def writeChunks (nsIndex : Byte) (key data : List Byte) (chunkStart : VerOffset) :
    ℕ → ℕ → List ℕ → ℕ → NvsM (Option Err × List ℕ)
  | 0, _, _, _ => Prog.throw .hang
  | fuel + 1, chunkCount, usedPages, offset => do
    let s ← Prog.get
    let page := PageManager.back s
    let room := tailroom s
    if chunkCount = 0 ∧ room < data.length ∧ room < chunkMaxSize / 10 then do
      switchPage page
      let s' ← Prog.get
      if tailroom s' = room then fail .notEnoughSpace
      else writeChunks nsIndex key data chunkStart fuel chunkCount usedPages offset
    else if room = 0 then pure (some .notEnoughSpace, usedPages)
    else do
      let chunkSize := min room (data.length - offset)
      let rc ← writeBlobItem page nsIndex .blobData key ((data.drop offset).take chunkSize)
        (chunkAt chunkStart chunkCount)
      if rc ≠ none then pure (rc, usedPages)
      else do
        let remaining := data.length - offset - chunkSize
        let rc ← closeAfterChunk page remaining (room - chunkSize)
        if rc ≠ none then pure (rc, usedPages ++ [page])
        else if remaining = 0 then do
          let s ← Prog.get
          let rc ← writeBlobItem (PageManager.back s) nsIndex .blobIdx key
            (blobIndexData data.length (chunkCount + 1) chunkStart) chunkAny
          pure (rc, usedPages ++ [page])
        else
          writeChunks nsIndex key data chunkStart fuel ((chunkCount + 1) % 256)
            (usedPages ++ [page]) (offset + chunkSize)

/-- Erase the chunks after a failure: the page remembered for each, and a running index. -/
def rollBack (nsIndex : Byte) (key : List Byte) : ℕ → List ℕ → NvsM Unit
  | _, [] => pure ()
  | ii, page :: pages => do
    let _ ← attempt (onPage page (Page.eraseItem (chunkQuery nsIndex key (BitVec.ofNat 8 ii))))
    rollBack nsIndex key (ii + 1) pages

/-- The bytes that a blob may have. -/
def maxBlobSize (pageCount : ℕ) : ℕ := min (pageCount - 1) 127 * chunkMaxSize

/-- `Storage::writeMultiPageBlob`. -/
def writeMultiPageBlob (nsIndex : Byte) (key data : List Byte) (chunkStart : VerOffset) :
    NvsM Unit := do
  let s ← Prog.get
  if maxBlobSize s.pageCount < data.length then fail .valueTooLong
  else do
    let (rc, usedPages) ← writeChunks nsIndex key data chunkStart (data.length + 4) 0 [] 0
    match rc with
    | none => pure ()
    | some e => do
      rollBack nsIndex key 0 usedPages
      fail e

/-! ### Writing -/

/-- The page object holds no items: it has been erased since it was found. -/
def isGone (s : Partition) (page : ℕ) : Bool :=
  (s.pages page).state = .uninitialized ∨ (s.pages page).state = .invalid

/-- Erase the item that has been replaced; the page on which it was found may have been
compacted. -/
def eraseOld (nsIndex : Byte) (datatype : ItemType) (key : List Byte) (findPage : ℕ) :
    NvsM Unit := do
  let s ← Prog.get
  if isGone s findPage then do
    let found ← findItem (valueQuery nsIndex datatype key)
    match found with
    | none => Prog.throw .assertion
    | some (page, _) => onPage page (Page.eraseItem (valueQuery nsIndex datatype key))
  else onPage findPage (Page.eraseItem (valueQuery nsIndex datatype key))

/-- The item of a page found by a search, again if the page is gone. -/
def refind (nsIndex : Byte) (key : List Byte) (found : ℕ × Item) : NvsM (ℕ × Item) := do
  let s ← Prog.get
  if isGone s found.1 then do
    let again ← findItem (valueQuery nsIndex .blob key)
    match again with
    | none => Prog.throw .assertion
    | some r => pure r
  else pure found

/-- The code `ESP_ERR_NVS_PAGE_FULL` of a write is turned into `ESP_ERR_NVS_NOT_ENOUGH_SPACE`. -/
def pageFullToNotEnough {α : Type} (m : NvsM α) : NvsM α := do
  let r ← attempt m
  match r with
  | .ok a => pure a
  | .error e => fail (if e = .pageFull then .notEnoughSpace else e)

/-- Replace a blob by a new version. -/
def replaceBlob (nsIndex : Byte) (key data : List Byte) (found : ℕ × Item) : NvsM Unit := do
  let (_, it) ← refind nsIndex key found
  assert (it.chunkStart = ver0 ∨ it.chunkStart = ver1)
  pageFullToNotEnough
    (writeMultiPageBlob nsIndex key data (if it.chunkStart = ver1 then ver0 else ver1))
  eraseMultiPageBlob nsIndex key it.chunkStart

/-- Write a blob that has no index; an item of the first format is erased. -/
def writeNewBlob (nsIndex : Byte) (key data : List Byte) : NvsM Unit := do
  pageFullToNotEnough (writeMultiPageBlob nsIndex key data ver0)
  let found ← findItem (valueQuery nsIndex .blob key)
  match found with
  | none => pure ()
  | some (page, _) => eraseOld nsIndex .blob key page

/-- The branch of `writeItem` for blobs. -/
def writeBlob (nsIndex : Byte) (key data : List Byte) : NvsM Unit := do
  let found ← findItem (indexQuery nsIndex key verAny)
  match found with
  | none => writeNewBlob nsIndex key data
  | some found => do
    let same ← attempt (cmpMultiPageBlob nsIndex key data)
    match same with
    | .ok () => pure ()
    | .error _ => replaceBlob nsIndex key data found

/-- Write an item to the current page, or to a new one if it does not fit. -/
def writeToCurrent (nsIndex : Byte) (datatype : ItemType) (key data : List Byte) :
    NvsM Unit := do
  let s ← Prog.get
  let r ← attempt (onPage (PageManager.back s)
    (Page.writeItem nsIndex datatype key data chunkAny))
  match r with
  | .ok () => pure ()
  | .error e =>
    if e = .pageFull then do
      switchPage (PageManager.back s)
      let s' ← Prog.get
      pageFullToNotEnough (onPage (PageManager.back s')
        (Page.writeItem nsIndex datatype key data chunkAny))
    else fail e

/-- The branch of `writeItem` for primitive values and strings. -/
def writeValue (nsIndex : Byte) (datatype : ItemType) (key data : List Byte) : NvsM Unit := do
  let found ← findItem (valueQuery nsIndex datatype key)
  match found with
  | none => writeToCurrent nsIndex datatype key data
  | some (page, _) => do
    let same ← attempt (onPage page (Page.cmpItem (valueQuery nsIndex datatype key) data))
    match same with
    | .ok () => pure ()
    | .error _ => do
      writeToCurrent nsIndex datatype key data
      eraseOld nsIndex datatype key page

/-- `Storage::writeItem`. -/
def writeItem (nsIndex : Byte) (datatype : ItemType) (key data : List Byte) : NvsM Unit := do
  checkActive
  if datatype = .blob then writeBlob nsIndex key data
  else writeValue nsIndex datatype key data

/-! ### Reading and erasing -/

/-- Read an item of one page. -/
def readValue (nsIndex : Byte) (datatype : ItemType) (key buf : List Byte) :
    NvsM (List Byte) := do
  let found ← findItem (valueQuery nsIndex datatype key)
  match found with
  | none => fail .notFound
  | some (page, _) => onPage page (Page.readItem (valueQuery nsIndex datatype key) buf)

/-- `Storage::readItem` into the buffer `buf`. -/
def readItem (nsIndex : Byte) (datatype : ItemType) (key buf : List Byte) :
    NvsM (List Byte) := do
  checkActive
  if datatype = .blob then do
    let r ← attempt (readMultiPageBlob nsIndex key buf)
    match r with
    | .ok out => pure out
    | .error e =>
      if e = .notFound then readValue nsIndex datatype key buf else fail e
  else readValue nsIndex datatype key buf

/-- `Storage::eraseItem`. -/
def eraseItem (nsIndex : Byte) (datatype : ItemType) (key : List Byte) : NvsM Unit := do
  checkActive
  if datatype = .blob then eraseMultiPageBlob nsIndex key verAny
  else do
    let found ← findItem (valueQuery nsIndex datatype key)
    match found with
    | none => fail .notFound
    | some (page, it) =>
      if it.datatype = .blobData ∨ it.datatype = .blobIdx then
        eraseMultiPageBlob nsIndex key verAny
      else onPage page (Page.eraseItem (valueQuery nsIndex datatype key))

/-- The query for any item of a namespace. -/
def namespaceQuery (nsIndex : Byte) : Page.Query :=
  { nsIndex := nsIndex, datatype := .any, key := none }

/-- Erase the items of a namespace on one page.  Every pass erases an entry. -/
def eraseAllOnPage (nsIndex : Byte) (page : ℕ) : ℕ → NvsM Unit
  | 0 => Prog.throw .hang
  | fuel + 1 => do
    let r ← attempt (onPage page (Page.eraseItem (namespaceQuery nsIndex)))
    match r with
    | .ok () => eraseAllOnPage nsIndex page fuel
    | .error e => if e = .notFound then pure () else fail e

/-- Erase the items of a namespace on the pages of a list. -/
def eraseAllOnPages (nsIndex : Byte) : List ℕ → NvsM Unit
  | [] => pure ()
  | i :: is => do
    eraseAllOnPage nsIndex i (entryCount + 1)
    eraseAllOnPages nsIndex is

/-- `Storage::eraseNamespace`. -/
def eraseNamespace (nsIndex : Byte) : NvsM Unit := do
  checkActive
  let s ← Prog.get
  eraseAllOnPages nsIndex s.pageList

/-- `Storage::getItemDataSize`. -/
def getItemDataSize (nsIndex : Byte) (datatype : ItemType) (key : List Byte) : NvsM ℕ := do
  checkActive
  let found ← findItem (valueQuery nsIndex datatype key)
  match found with
  | some (_, it) => pure it.dataSize
  | none =>
    if datatype = .blob then do
      let index ← findItem (indexQuery nsIndex key verAny)
      match index with
      | some (_, it) => pure it.blobDataSize
      | none => fail .notFound
    else fail .notFound

/-! ### Namespaces -/

/-- The first namespace index that is not in use; `255` if there is none. -/
def firstFreeNamespace (usage : EnumTable) : ℕ :=
  ((List.range' 1 254).find? fun ns => (usage.get ns : BitVec 1) = 0).getD 255

/-- Enter a new namespace. -/
def createNamespace (name : List Byte) : NvsM Byte := do
  let s ← Prog.get
  let ns := firstFreeNamespace s.namespaceUsage
  if ns = 255 then fail .notEnoughSpace
  else do
    writeItem nsNames .u8 name [BitVec.ofNat 8 ns]
    Prog.modify fun s => { s with
      namespaceUsage := s.namespaceUsage.set ns (1 : BitVec 1)
      namespaces := s.namespaces ++ [⟨(cstr name).take maxKeyLength, BitVec.ofNat 8 ns⟩] }
    pure (BitVec.ofNat 8 ns)

/-- `Storage::createOrOpenNamespace`. -/
def createOrOpenNamespace (name : List Byte) (canCreate : Bool) : NvsM Byte := do
  checkActive
  let s ← Prog.get
  match s.namespaces.find? fun e => strncmpEq maxKeyLength name e.name with
  | some e => pure e.index
  | none => if canCreate then createNamespace name else fail .notFound

/-! ### Initialisation -/

/-- The namespaces of one page from `itemIndex` on. -/
def loadNamespaces (page : ℕ) : ℕ → ℕ → Item → NvsM Unit
  | 0, _, _ => Prog.throw .hang
  | fuel + 1, itemIndex, item => do
    let r ← onPage page (Page.findItem
      { nsIndex := nsNames, datatype := .u8, key := none } itemIndex item)
    if r.rc = none then do
      Prog.modify fun s => { s with
        namespaces := s.namespaces ++ [⟨(cstr r.item.key).take maxKeyLength, r.item.byte 24⟩]
        namespaceUsage := s.namespaceUsage.set (r.item.byte 24).toNat (1 : BitVec 1) }
      loadNamespaces page fuel (r.itemIndex + r.item.span) r.item
    else pure ()

/-- `BlobIndexNode`. -/
structure BlobIndexNode where
  key : List Byte
  nsIndex : Byte
  chunkCount : ℕ
  chunkStart : VerOffset
deriving DecidableEq

/-- The indices of blobs on one page from `itemIndex` on. -/
def populateBlobIndices (page : ℕ) : ℕ → ℕ → Item → NvsM (List BlobIndexNode)
  | 0, _, _ => Prog.throw .hang
  | fuel + 1, itemIndex, item => do
    let r ← onPage page (Page.findItem
      { nsIndex := nsAny, datatype := .blobIdx, key := none } itemIndex item)
    if r.rc = none then do
      let rest ← populateBlobIndices page fuel (r.itemIndex + r.item.span) r.item
      pure (⟨(cstr r.item.key).take maxKeyLength, r.item.nsIndex, r.item.chunkCount,
        r.item.chunkStart⟩ :: rest)
    else pure []

/-- A chunk belongs to the blob of an index. -/
def BlobIndexNode.owns (e : BlobIndexNode) (it : Item) : Bool :=
  strncmpEq maxKeyLength it.key e.key ∧ it.nsIndex = e.nsIndex ∧ e.chunkStart ≤ it.chunkIndex ∧
    it.chunkIndex.toNat < e.chunkStart.toNat + e.chunkCount

/-- Erase the chunk unless it belongs to a blob; the result of the search is not looked at. -/
def eraseOrphan (page : ℕ) (indices : List BlobIndexNode) (it : Item) : NvsM Unit :=
  if indices.any (·.owns it) then pure ()
  else do
    let _ ← attempt (onPage page (Page.eraseItem
      (chunkQuery it.nsIndex it.key it.chunkIndex)))
    pure ()

/-- Erase the chunks of one page from `itemIndex` on that belong to no blob. -/
def eraseOrphanDataBlobs (page : ℕ) (indices : List BlobIndexNode) :
    ℕ → ℕ → Item → NvsM Unit
  | 0, _, _ => Prog.throw .hang
  | fuel + 1, itemIndex, item => do
    let r ← onPage page (Page.findItem
      { nsIndex := nsAny, datatype := .blobData, key := none } itemIndex item)
    if r.rc = none then do
      eraseOrphan page indices r.item
      eraseOrphanDataBlobs page indices fuel (r.itemIndex + r.item.span) r.item
    else pure ()

/-- Run a program for every page of a list. -/
def forPages (f : ℕ → NvsM Unit) : List ℕ → NvsM Unit
  | [] => pure ()
  | i :: is => do
    f i
    forPages f is

/-- The indices of blobs on the pages of a list. -/
def allBlobIndices : List ℕ → NvsM (List BlobIndexNode)
  | [] => pure []
  | i :: is => do
    let here ← populateBlobIndices i (entryCount + 1) 0 Page.noItem
    let rest ← allBlobIndices is
    pure (here ++ rest)

/-- The namespaces are read from the pages, and chunks without an index are erased. -/
def loadItems : NvsM Unit := do
  Prog.modify fun s => { s with namespaces := [], namespaceUsage := fun _ => 0 }
  let s ← Prog.get
  forPages (fun i => loadNamespaces i (entryCount + 1) 0 Page.noItem) s.pageList
  Prog.modify fun s => { s with
    namespaceUsage := (s.namespaceUsage.set 0 (1 : BitVec 1)).set 255 (1 : BitVec 1)
    state := .active }
  let indices ← allBlobIndices s.pageList
  forPages (fun i => eraseOrphanDataBlobs i indices (entryCount + 1) 0 Page.noItem) s.pageList

/-- `Storage::init`. -/
def init (baseSector sectorCount : ℕ) : NvsM Unit := do
  let r ← attempt (PageManager.load baseSector sectorCount)
  match r with
  | .ok () => loadItems
  | .error e => do
    Prog.modify fun s => { s with state := .invalid }
    fail e

end EspIdf.Nvs.Storage
