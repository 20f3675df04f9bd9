/-
# Pages

`Page` manages one sector: a header with the state and the sequence number, a table of two
bits for each of the 126 entries, and the entries.  The functions follow `nvs_page.cpp`.  The
flash driver does not fail, so a function has an error code only where the page itself
refuses; an entry index outside the table ends at an assertion, as in the source.
-/
import EspIdf.Nvs.Flash

namespace EspIdf.Nvs

open EspIdf.Lib

/-- `CHUNK_MAX_SIZE`. -/
def chunkMaxSize : ℕ := entrySize * (entryCount - 1)

/-- Subtraction of `uint16_t` values. -/
def u16Sub (a b : ℕ) : ℕ := (a + (2 ^ 16 - b % 2 ^ 16)) % 2 ^ 16

/-- Addition of `uint16_t` values. -/
def u16Add (a b : ℕ) : ℕ := (a + b) % 2 ^ 16

namespace Page

/-! ### Entry states -/

/-- `mEntryTable.get`. -/
def entryState (i : ℕ) : PageM EntryState := do
  assert (i < entryCount)
  let c ← Prog.get
  pure (c.page.entryTable.get i)

/-- Write word `k` of the entry table to the flash. -/
def writeTableWord (k : ℕ) : PageM Unit := do
  let c ← Prog.get
  spiFlashWrite (entryTableOffset + 4 * k) (wordBytes (c.page.entryTable k))

/-- `mEntryTable.set`. -/
def setEntryState (i : ℕ) (state : EntryState) : PageM Unit :=
  modifyPage fun p => { p with entryTable := p.entryTable.set i state }

/-- `Page::alterEntryState`. -/
def alterEntryState (i : ℕ) (state : EntryState) : PageM Unit := do
  assert (i < entryCount)
  setEntryState i state
  writeTableWord (EnumTable.wordIndex 2 i)

/-- Write the word of entry `first + n` if the next entry, going down, lies in another one. -/
def flushTableWord (first n : ℕ) : PageM Unit :=
  if n = 0 ∨ EnumTable.wordIndex 2 (first + n - 1) ≠ EnumTable.wordIndex 2 (first + n) then
    writeTableWord (EnumTable.wordIndex 2 (first + n))
  else pure ()

/-- The loop of `alterEntryRangeState`: `n` entries from `first` on remain, the last one is
next. -/
def alterEntries (first : ℕ) (state : EntryState) : ℕ → PageM Unit
  | 0 => pure ()
  | n + 1 => do
    setEntryState (first + n) state
    flushTableWord first n
    alterEntries first state n

/-- `Page::alterEntryRangeState`. -/
def alterEntryRangeState (first last : ℕ) (state : EntryState) : PageM Unit := do
  assert (last ≤ entryCount)
  assert (first < last)
  alterEntries first state (last - first)

/-! ### Entries -/

/-- `Page::readEntry`. -/
def readEntry (i : ℕ) : PageM Item := do
  assert (i < entryCount)
  let bs ← nvsFlashRead (entryOffset i) entrySize
  pure ⟨bs⟩

/-- `Page::writeEntry`. -/
def writeEntry (it : Item) : PageM Unit := do
  let c ← Prog.get
  assert (c.page.nextFreeEntry < entryCount)
  nvsFlashWrite (entryOffset c.page.nextFreeEntry) it.rawData
  alterEntryState c.page.nextFreeEntry .written
  modifyPage fun p => { p with
    firstUsedEntry := if p.firstUsedEntry = invalidEntry then p.nextFreeEntry else p.firstUsedEntry
    usedEntryCount := u16Add p.usedEntryCount 1
    nextFreeEntry := p.nextFreeEntry + 1 }

/-- `Page::writeEntryData`. -/
def writeEntryData (data : List Byte) : PageM Unit := do
  let c ← Prog.get
  let count := data.length / entrySize
  assert (data.length % entrySize = 0)
  assert (c.page.nextFreeEntry ≠ invalidEntry)
  assert (c.page.firstUsedEntry ≠ invalidEntry)
  assert (c.page.nextFreeEntry < entryCount)
  nvsFlashWrite (entryOffset c.page.nextFreeEntry) data
  alterEntryRangeState c.page.nextFreeEntry (c.page.nextFreeEntry + count) .written
  modifyPage fun p => { p with
    usedEntryCount := u16Add p.usedEntryCount count
    nextFreeEntry := p.nextFreeEntry + count }

/-- `mHashList.insert`. -/
def insertHash (it : Item) (i : ℕ) : PageM Unit :=
  modifyPage fun p => { p with hashList := p.hashList.insert it i }

/-- `mHashList.erase`. -/
def eraseHash (i : ℕ) (itemShouldExist : Bool) : PageM Unit := do
  let c ← Prog.get
  let (h, found) := HashList.erase i c.page.hashList
  modifyPage fun p => { p with hashList := h }
  assert (found = true ∨ itemShouldExist = false)

/-! ### Erasing an item -/

/-- The first written entry among `n` entries from `i` on. -/
def firstWritten (t : EnumTable) : ℕ → ℕ → Option ℕ
  | _, 0 => none
  | i, n + 1 => if t.get i = EntryState.written then some i else firstWritten t (i + 1) n

/-- The number of entries of a state among `n` entries from `i` on. -/
def countState (t : EnumTable) (state : EntryState) (i n : ℕ) : ℕ :=
  (List.range n).countP fun k => t.get (i + k) = state

/-- `Page::updateFirstUsedEntry`. -/
def updateFirstUsedEntry (index span : ℕ) : PageM Unit :=
  modifyPage fun p =>
    let last := min p.nextFreeEntry entryCount
    { p with firstUsedEntry :=
      (firstWritten p.entryTable (index + span) (last - (index + span))).getD invalidEntry }

/-- Erase an entry whose checksum is wrong. -/
def eraseBadEntry (index : ℕ) : PageM ℕ := do
  eraseHash index false
  alterEntryState index .erased
  modifyPage fun p => { p with
    usedEntryCount := u16Sub p.usedEntryCount 1
    erasedEntryCount := u16Add p.erasedEntryCount 1 }
  pure 1

/-- Mark the entries of an item as erased. -/
def alterSpan (index span : ℕ) : PageM Unit :=
  if span = 1 then alterEntryState index .erased
  else alterEntryRangeState index (index + span) .erased

/-- Erase the entries of an item. -/
def eraseSpan (index span : ℕ) : PageM ℕ := do
  eraseHash index true
  assert (span = 0 ∨ index + span ≤ entryCount)
  modifyPage fun p => { p with
    usedEntryCount := u16Sub p.usedEntryCount (countState p.entryTable .written index span)
    erasedEntryCount := u16Add p.erasedEntryCount span }
  alterSpan index span
  pure span

/-- The entries that are erased for the entry at `index`, by its state. -/
def eraseEntries (index : ℕ) (state : EntryState) : PageM ℕ :=
  if state = .written then do
    let it ← readEntry index
    if it.crcOk then eraseSpan index it.span else eraseBadEntry index
  else do
    alterEntryState index .erased
    pure 1

/-- Look for the first used entry again if it has been erased. -/
def leaveFirstUsedEntry (index span : ℕ) : PageM Unit := do
  let c ← Prog.get
  if index = c.page.firstUsedEntry then updateFirstUsedEntry index span else pure ()

/-- `Page::eraseEntryAndSpan`. -/
def eraseEntryAndSpan (index : ℕ) : PageM Unit := do
  let state ← entryState index
  assert (state = .written ∨ state = .empty)
  let span ← eraseEntries index state
  leaveFirstUsedEntry index span
  modifyPage fun p => { p with nextFreeEntry := max p.nextFreeEntry (index + span) }

/-! ### Finding an item -/

/-- What `findItem` looks for. -/
structure Query where
  nsIndex : Byte
  datatype : ItemType
  key : Option (List Byte)
  chunkIdx : Byte := chunkAny
  chunkStart : VerOffset := verAny

/-- The key of an item differs from the key that is looked for. -/
def Query.keyDiffers (q : Query) (it : Item) : Bool :=
  match q.key with
  | none => false
  | some key => !strncmpEq maxKeyLength key it.key

/-- What `findItem` does with an item: go on, stop with a mismatch of the type, or return. -/
inductive Verdict where
  | next
  | mismatch
  | found
deriving DecidableEq, Repr

/-- The tests of `findItem` on an item, in their order. -/
def Query.verdict (q : Query) (it : Item) : Verdict :=
  if q.nsIndex ≠ nsAny ∧ it.nsIndex ≠ q.nsIndex then .next
  else if q.keyDiffers it then .next
  else if q.chunkIdx ≠ chunkAny ∧ q.datatype = .blobData ∧ it.chunkIndex ≠ q.chunkIdx then .next
  else if q.datatype = .blobIdx ∧ it.chunkIndex ≠ chunkAny then .next
  else if q.datatype = .blobIdx ∧ q.chunkStart ≠ verAny ∧ it.chunkStart ≠ q.chunkStart then .next
  else if q.datatype ≠ .any ∧ it.datatype ≠ q.datatype then
    if q.key = none ∧ q.nsIndex = nsAny ∧ q.chunkIdx = chunkAny then .next else .mismatch
  else .found

/-- What `findItem` returns: the code, the index and the item that was read last. -/
structure Found where
  rc : Option Err
  itemIndex : ℕ
  item : Item
deriving DecidableEq

/-- The entry after an item, as `findItem` steps. -/
def nextEntry (i : ℕ) (it : Item) : ℕ := if it.datatype.isVariableLength then i + it.span else i + 1

/-- The loop of `findItem`.  It does not end when an item of variable length has the span
`0`; any other pass moves on, so that `entryCount + 1` passes are enough. -/
def findLoop (q : Query) (itemIndex stop : ℕ) : ℕ → ℕ → Item → PageM Found
  | 0, _, _ => Prog.throw .hang
  | fuel + 1, i, item =>
    if i < stop then do
      let state ← entryState i
      if state = .written then do
        let it ← readEntry i
        if it.crcOk then
          match q.verdict it with
          | .next => findLoop q itemIndex stop fuel (nextEntry i it) it
          | .mismatch => pure ⟨some .typeMismatch, i, it⟩
          | .found => pure ⟨none, i, it⟩
        else do
          eraseEntryAndSpan i
          findLoop q itemIndex stop fuel (i + 1) it
      else findLoop q itemIndex stop fuel (i + 1) item
    else pure ⟨some .notFound, itemIndex, item⟩

/-- The entry from which `findItem` looks: the hash list is asked for a full query. -/
def findStart (p : Page) (q : Query) (itemIndex : ℕ) : Option ℕ :=
  let start := if p.firstUsedEntry < itemIndex then itemIndex else p.firstUsedEntry
  match q.key with
  | none => some start
  | some key =>
    if q.nsIndex ≠ nsAny ∧ q.datatype ≠ .any then
      (p.hashList.find start (Item.create q.nsIndex q.datatype 0 key q.chunkIdx)).filter
        (· < entryCount)
    else some start

/-- `Page::findItem`. -/
def findItem (q : Query) (itemIndex : ℕ) (item : Item) : PageM Found := do
  let c ← Prog.get
  if c.page.state = .corrupt ∨ c.page.state = .invalid ∨ c.page.state = .uninitialized then
    pure ⟨some .notFound, itemIndex, item⟩
  else if entryCount ≤ itemIndex then pure ⟨some .notFound, itemIndex, item⟩
  else
    match findStart c.page q itemIndex with
    | none => pure ⟨some .notFound, itemIndex, item⟩
    | some start =>
      findLoop q itemIndex (min c.page.nextFreeEntry entryCount) (entryCount + 1) start item

/-- An item that has not been read. -/
def noItem : Item := ⟨[]⟩

/-- Find an item from the first entry on, or return the error. -/
def lookup (q : Query) : PageM (ℕ × Item) := do
  let r ← findItem q 0 noItem
  match r.rc with
  | none => pure (r.itemIndex, r.item)
  | some e => fail e

/-- `Page::eraseItem`. -/
def eraseItem (q : Query) : PageM Unit := do
  let (index, _) ← lookup q
  eraseEntryAndSpan index

/-! ### Reading and comparing -/

/-- The bytes of `n` data entries from `i` on, of which `left` are wanted. -/
def readData : ℕ → ℕ → ℕ → PageM (List Byte)
  | 0, _, _ => pure []
  | n + 1, i, left => do
    let e ← readEntry i
    let rest ← readData n (i + 1) (left - min left entrySize)
    pure (e.rawData.take (min left entrySize) ++ rest)

/-- Read the data entries of an item into `buf`. -/
def readVarLength (index : ℕ) (it : Item) (buf : List Byte) : PageM (List Byte) := do
  let bs ← readData (it.span - 1) (index + 1) it.dataSize
  let buf := bs ++ buf.drop bs.length
  if Item.dataCrcOf (buf.take it.dataSize) = it.dataCrc32 then pure buf
  else do
    eraseEntryAndSpan index
    fail .notFound

/-- `Page::readItem` into the buffer `buf`. -/
def readItem (q : Query) (buf : List Byte) : PageM (List Byte) := do
  let c ← Prog.get
  if c.page.state = .invalid then fail .invalidState
  else do
    let (index, it) ← lookup q
    if q.datatype.isVariableLength then
      if buf.length < it.dataSize then fail .invalidLength
      else readVarLength index it buf
    else if buf.length ≠ q.datatype.alignment then fail .typeMismatch
    else pure (it.slice 24 buf.length)

/-- Compare `n` data entries from `i` on with `data`, of which `left` bytes count. -/
def cmpData : ℕ → ℕ → ℕ → List Byte → PageM Unit
  | 0, _, _, _ => pure ()
  | n + 1, i, left, data => do
    let e ← readEntry i
    let k := min left entrySize
    if data.take k = e.rawData.take k then cmpData n (i + 1) (left - k) (data.drop k)
    else fail .contentDiffers

/-- `Page::cmpItem`. -/
def cmpItem (q : Query) (data : List Byte) : PageM Unit := do
  let c ← Prog.get
  if c.page.state = .invalid then fail .invalidState
  else do
    let (index, it) ← lookup q
    if q.datatype.isVariableLength then
      if data.length < it.dataSize then fail .invalidLength
      else do
        cmpData (it.span - 1) (index + 1) it.dataSize data
        if Item.dataCrcOf (data.take it.dataSize) = it.dataCrc32 then pure () else fail .notFound
    else if data.length ≠ q.datatype.alignment then fail .typeMismatch
    else if data = it.slice 24 data.length then pure ()
    else fail .contentDiffers

/-! ### Writing an item -/

/-- The header of a page without the state: sequence number, version and reserved bytes. -/
def headerBody (seqNumber : ℕ) (version : Byte) : List Byte :=
  le32 seqNumber ++ version :: List.replicate 19 0xff

/-- `Header::calculateCrc32`. -/
def headerCrc (body : List Byte) : ℕ := (crc32Le 0xffffffff#32 body).toNat

/-- `Page::initialize`. -/
def initializePage : PageM Unit := do
  let c ← Prog.get
  assert (c.page.state = .uninitialized)
  let body := headerBody c.page.seqNumber c.page.version
  modifyPage fun p => { p with state := .active }
  spiFlashWrite 0 (wordBytes PageState.active.toWord ++ body ++ le32 (headerCrc body))
  modifyPage fun p => { p with nextFreeEntry := 0, entryTable := fun _ => 0xffffffff#32 }

/-- Initialise a page that has not been written to. -/
def ensureInitialized : PageM Unit := do
  let c ← Prog.get
  if c.page.state = .uninitialized then initializePage else pure ()

/-- The entries that an item needs. -/
def entriesFor (datatype : ItemType) (data : List Byte) : ℕ :=
  if datatype.isVariableLength then 1 + (data.length + entrySize - 1) / entrySize else 1

/-- The last, padded data entry. -/
def tailEntry (data : List Byte) : Item :=
  ⟨data ++ List.replicate (entrySize - data.length) 0xff⟩

/-- The data entries that are filled. -/
def writeFilled (data : List Byte) (left : ℕ) : PageM Unit :=
  if 0 < left then writeEntryData (data.take left) else pure ()

/-- The data entry that is not filled, if there is one. -/
def writeTail (data : List Byte) (left : ℕ) : PageM Unit :=
  if left < data.length then writeEntry (tailEntry (data.drop left)) else pure ()

/-- The data entries of an item. -/
def writeVarData (data : List Byte) : PageM Unit := do
  let left := data.length - data.length % entrySize
  writeFilled data left
  writeTail data left

/-- The entries of an item that the page has room for. -/
def writeEntries (nsIndex : Byte) (datatype : ItemType) (key data : List Byte)
    (chunkIdx : Byte) : PageM Unit := do
  let span := entriesFor datatype data
  let c ← Prog.get
  insertHash (Item.create nsIndex datatype span key chunkIdx) c.page.nextFreeEntry
  if datatype.isVariableLength then do
    writeEntry (Item.sealed nsIndex datatype span key chunkIdx (varLengthData data))
    writeVarData data
  else
    writeEntry (Item.sealed nsIndex datatype span key chunkIdx
      (data ++ List.replicate (8 - data.length) 0xff))

/-- `Page::writeItem`. -/
def writeItem (nsIndex : Byte) (datatype : ItemType) (key data : List Byte)
    (chunkIdx : Byte) : PageM Unit := do
  let c ← Prog.get
  if c.page.state = .invalid then fail .invalidState
  else do
    ensureInitialized
    let c ← Prog.get
    if c.page.state = .full then fail .pageFull
    else if maxKeyLength < (cstr key).length then fail .keyTooLong
    else if chunkMaxSize < data.length then fail .valueTooLong
    else if datatype.isVariableLength = false ∧ 8 < data.length then fail .invalidArg
    else if c.page.nextFreeEntry = invalidEntry ∨
        entryCount < c.page.nextFreeEntry + entriesFor datatype data then fail .pageFull
    else writeEntries nsIndex datatype key data chunkIdx

/-! ### The state of the page -/

/-- `Page::alterPageState`. -/
def alterPageState (state : PageState) : PageM Unit := do
  spiFlashWrite 0 (wordBytes state.toWord)
  modifyPage fun p => { p with state := state }

/-- `Page::markFull`. -/
def markFull : PageM Unit := do
  let c ← Prog.get
  if c.page.state = .active then alterPageState .full else fail .invalidState

/-- `Page::markFreeing`. -/
def markFreeing : PageM Unit := do
  let c ← Prog.get
  if c.page.state = .full ∨ c.page.state = .active then alterPageState .freeing
  else fail .invalidState

/-- `Page::erase`. -/
def erase : PageM Unit := do
  spiFlashEraseSector
  modifyPage fun p => { p with
    usedEntryCount := 0
    erasedEntryCount := 0
    firstUsedEntry := invalidEntry
    nextFreeEntry := invalidEntry
    state := .uninitialized
    hashList := [] }

/-- `Page::getSeqNumber`. -/
def getSeqNumber (p : Page) : Option ℕ :=
  if p.state ≠ .uninitialized ∧ p.state ≠ .invalid ∧ p.state ≠ .corrupt then some p.seqNumber
  else none

/-- `Page::setSeqNumber`; the caller does not look at the result. -/
def setSeqNumber (seqNumber : ℕ) : PageM Unit :=
  modifyPage fun p => if p.state = .uninitialized then { p with seqNumber := seqNumber } else p

/-- `Page::getVarDataTailroom`. -/
def getVarDataTailroom (p : Page) : ℕ :=
  if p.state = .uninitialized then chunkMaxSize
  else if p.state = .full then 0
  else if p.nextFreeEntry < entryCount - 1 then (entryCount - p.nextFreeEntry - 1) * entrySize
  else 0

/-! ### Loading -/

/-- The words of the entry table on the flash. -/
def readEntryTable : PageM Unit :=
  Prog.modify fun c => { c with page := { c.page with
    entryTable := fun k => c.mem.word (entryTableOffset + 4 * k) } }

/-- Count the entries by their state. -/
def countEntries : PageM Unit :=
  modifyPage fun p => { p with
    firstUsedEntry :=
      if p.firstUsedEntry = invalidEntry then
        (firstWritten p.entryTable 0 entryCount).getD invalidEntry
      else p.firstUsedEntry
    usedEntryCount := countState p.entryTable .written 0 entryCount
    erasedEntryCount := countState p.entryTable .erased 0 entryCount }

/-- The first entry that is marked as empty. -/
def firstEmpty (t : EnumTable) : Option ℕ :=
  (List.range entryCount).find? fun i => t.get i = EntryState.empty

/-- Set the next free entry of an active page. -/
def findNextFreeEntry : PageM Unit :=
  modifyPage fun p => { p with
    nextFreeEntry := (firstEmpty p.entryTable).getD p.nextFreeEntry }

/-- Erase the entry that was begun but not marked as written. -/
def dropHalfWritten (i : ℕ) : PageM Unit := do
  let oldState ← entryState i
  alterEntryState i .erased
  modifyPage fun p => { p with
    nextFreeEntry := i + 1
    usedEntryCount :=
      if oldState = .written then u16Sub p.usedEntryCount 1 else p.usedEntryCount
    erasedEntryCount := u16Add p.erasedEntryCount 1 }

/-- Move the next free entry past the entries whose first word has been written; `n` entries
may follow. -/
def skipHalfWritten : ℕ → PageM Unit
  | 0 => pure ()
  | n + 1 => do
    let c ← Prog.get
    if c.page.nextFreeEntry < entryCount then do
      let header ← spiFlashRead (entryOffset c.page.nextFreeEntry) 4
      if header = [0xff, 0xff, 0xff, 0xff] then pure ()
      else do
        dropHalfWritten c.page.nextFreeEntry
        skipHalfWritten n
    else pure ()

/-- The `n` entries from `i` on are all written; stops at the first that is not. -/
def allWritten : ℕ → ℕ → PageM Bool
  | _, 0 => pure true
  | i, n + 1 => do
    let state ← entryState i
    if state = .written then allWritten (i + 1) n else pure false

/-- Erase the entry with the same hash as the one at `i`, if it comes first. -/
def eraseDuplicate (duplicateIndex : Option ℕ) (i : ℕ) : PageM Unit :=
  match duplicateIndex with
  | none => pure ()
  | some d => if d < i then eraseEntryAndSpan d else pure ()

/-- The loop of `mLoadEntryTable` over the entries of an active page, with the index of the
last item and the item that was read last. -/
def loadActiveItems (stop : ℕ) : ℕ → ℕ → ℕ → Item → PageM (ℕ × Item)
  | 0, _, _, _ => Prog.throw .hang
  | fuel + 1, i, last, item =>
    if i < stop then do
      let state ← entryState i
      if state = .erased then loadActiveItems stop fuel (i + 1) invalidEntry item
      else do
        let it ← readEntry i
        if it.crcOk then do
          insertHash it i
          let c ← Prog.get
          let duplicateIndex := c.page.hashList.find 0 it
          if it.datatype.isVariableLength then do
            let complete ← allWritten i it.span
            if complete then do
              eraseDuplicate duplicateIndex i
              loadActiveItems stop fuel (i + it.span) i it
            else do
              eraseEntryAndSpan i
              loadActiveItems stop fuel (i + it.span) invalidEntry it
          else do
            eraseDuplicate duplicateIndex i
            loadActiveItems stop fuel (i + 1) i it
        else do
          eraseEntryAndSpan i
          loadActiveItems stop fuel (i + 1) i it
    else pure (last, item)

/-- Erase an earlier item with the namespace, type and key of the last one. -/
def eraseTwinOfLast (last : ℕ) (item : Item) : PageM Unit :=
  if last = invalidEntry then pure ()
  else do
    let r ← findItem { nsIndex := item.nsIndex, datatype := item.datatype, key := some item.key }
      0 noItem
    if r.rc = none ∧ r.itemIndex < last then eraseEntryAndSpan r.itemIndex else pure ()

/-- The entries of an active page. -/
def loadActive : PageM Unit := do
  findNextFreeEntry
  skipHalfWritten entryCount
  let c ← Prog.get
  let (last, item) ← loadActiveItems (min c.page.nextFreeEntry entryCount) (entryCount + 1) 0
    invalidEntry noItem
  eraseTwinOfLast last item

/-- Erase an item of variable length unless all its entries are written. -/
def eraseIncomplete (i : ℕ) (it : Item) : PageM Unit :=
  if it.datatype.isVariableLength then do
    let complete ← allWritten (i + 1) (it.span - 1)
    if complete then pure () else eraseEntryAndSpan i
  else pure ()

/-- The loop of `mLoadEntryTable` over the entries of a page that takes no more items; `n`
passes remain. -/
def loadFullItems : ℕ → ℕ → PageM Unit
  | 0, _ => pure ()
  | n + 1, i =>
    if i < entryCount then do
      let state ← entryState i
      if state = .written then do
        let it ← readEntry i
        if it.crcOk then do
          assert (0 < it.span)
          insertHash it i
          eraseIncomplete i it
          loadFullItems n (i + it.span)
        else do
          eraseEntryAndSpan i
          loadFullItems n (i + 1)
      else loadFullItems n (i + 1)
    else pure ()

/-- The items of a page that takes no more. -/
def loadFull : PageM Unit := do
  let c ← Prog.get
  loadFullItems entryCount c.page.firstUsedEntry

/-- `Page::mLoadEntryTable`. -/
def loadEntryTable : PageM Unit := do
  readEntryTable
  countEntries
  let c ← Prog.get
  if c.page.state = .active then loadActive else loadFull

/-- The page is taken by its header's state: the entries of a page in use are read. -/
def loadByState : PageM Unit := do
  let c ← Prog.get
  match c.page.state with
  | .uninitialized => pure ()
  | .active | .full | .freeing => loadEntryTable
  | .corrupt | .invalid => modifyPage fun p => { p with state := .corrupt }

/-- Every byte of the sector is erased. -/
def isBlank (m : Mem) : Bool := (List.range secSize).all fun x => m x = 0xff#8

/-- The state of the page by its header. -/
def loadHeader : PageM Unit := do
  let c ← Prog.get
  let body := c.mem.read 4 24
  if c.mem.word 0 = PageState.uninitialized.toWord then
    modifyPage fun p => { p with
      state := if isBlank c.mem then .uninitialized else .corrupt }
  else if leVal (c.mem.read 28 4) ≠ headerCrc body then pure ()
  else do
    modifyPage fun p => { p with
      state := PageState.ofWord (c.mem.word 0)
      seqNumber := leVal (body.take 4) }
    if body.getD 4 0 < nvsVersion then fail .newVersionFound
    else modifyPage fun p => { p with version := body.getD 4 0 }

/-- `Page::load`, for a new page object. -/
def load : PageM Unit := do
  modifyPage fun p => { p with usedEntryCount := 0, erasedEntryCount := 0 }
  loadHeader
  loadByState

end Page

end EspIdf.Nvs
