/-
# The pages of a partition

`PageManager` keeps the pages in use in the order of their sequence numbers and the free
pages.  When only one free page is left, the page with the most unused entries is copied to
it and erased.  The functions follow `nvs_pagemanager.cpp` and `Page::copyItems`.
-/
import EspIdf.Nvs.Page

namespace EspIdf.Nvs

open EspIdf.Lib

/-- `NamespaceEntry`. -/
structure NamespaceEntry where
  name : List Byte
  index : Byte
deriving DecidableEq, Repr

/-- `StorageState`. -/
inductive StorageState where
  | invalid
  | active
deriving DecidableEq, Repr

/-- A partition: the flash, the page objects, the page manager and the storage. -/
structure Partition where
  /-- The sectors of the flash. -/
  flash : ℕ → Mem
  /-- What has been done to the flash, each time with the sector. -/
  log : List (ℕ × SectorOp)
  xts : List XtsCtxt
  /-- `mPages`. -/
  pages : ℕ → Page
  pageList : List ℕ
  freePageList : List ℕ
  seqNumber : ℕ
  baseSector : ℕ
  pageCount : ℕ
  namespaces : List NamespaceEntry
  namespaceUsage : EnumTable
  state : StorageState

/-- Programs of a partition. -/
abbrev NvsM : Type → Type := Prog Partition Exit

/-- The page object `i` with its sector. -/
def Partition.ctx (s : Partition) (i : ℕ) : PageCtx := ⟨s.flash (s.pages i).sector, [], s.xts, s.pages i⟩

/-- The partition after the page object `i` and its sector `k` have become `c`. -/
def Partition.putCtx (s : Partition) (i k : ℕ) (c : PageCtx) : Partition :=
  { s with
    flash := Function.update s.flash k c.mem
    log := s.log ++ c.log.map fun op => (k, op)
    pages := Function.update s.pages i c.page }

/-- Run a program of a page. -/
def onPage {α : Type} (i : ℕ) (m : PageM α) : NvsM α := fun s =>
  ((m (s.ctx i)).1, s.putCtx i (s.pages i).sector (m (s.ctx i)).2)

/-! ### Copying a page -/

/-- Copy `n` entries from `i` on. -/
def copyEntries (src dst : ℕ) : ℕ → ℕ → NvsM Unit
  | 0, _ => pure ()
  | n + 1, i => do
    let entry ← onPage src (Page.readEntry i)
    onPage dst (Page.writeEntry entry)
    copyEntries src dst n (i + 1)

/-- Copy the item at `i`; the index of the entry after it. -/
def copyItem (src dst i : ℕ) : NvsM ℕ := do
  let entry ← onPage src (Page.readEntry i)
  let s ← Prog.get
  onPage dst (Page.insertHash entry (s.pages dst).nextFreeEntry)
  onPage dst (Page.writeEntry entry)
  assert (i + entry.span ≤ entryCount)
  copyEntries src dst (entry.span - 1) (i + 1)
  pure (i + entry.span)

/-- The loop of `copyItems`.  A pass either moves on or fills an entry of the other page, so
that twice the number of entries are enough. -/
def copyLoop (src dst : ℕ) : ℕ → ℕ → NvsM Unit
  | 0, _ => Prog.throw .hang
  | fuel + 1, i =>
    if i < entryCount then do
      let state ← onPage src (Page.entryState i)
      if state = .written then do
        let next ← copyItem src dst i
        copyLoop src dst fuel next
      else do
        let s ← Prog.get
        assert (i ≠ (s.pages src).firstUsedEntry)
        copyLoop src dst fuel (i + 1)
    else pure ()

/-- `Page::copyItems`. -/
def copyItems (src dst : ℕ) : NvsM Unit := do
  let s ← Prog.get
  if (s.pages src).firstUsedEntry = invalidEntry then fail .notFound
  else do
    onPage dst Page.ensureInitialized
    copyLoop src dst (2 * entryCount + 1) (s.pages src).firstUsedEntry

/-- Copy the items of a page that may have none. -/
def copyItemsIfAny (src dst : ℕ) : NvsM Unit := do
  let r ← attempt (copyItems src dst)
  match r with
  | .ok () => pure ()
  | .error e => if e = .notFound then pure () else fail e

namespace PageManager

/-- `mPageList.back()`. -/
def back (s : Partition) : ℕ := s.pageList.getLastD 0

/-- Erase a page that was found corrupt. -/
def eraseCorrupt (p : ℕ) : NvsM Unit := do
  let s ← Prog.get
  if (s.pages p).state = .corrupt then onPage p Page.erase else pure ()

/-- `PageManager::activatePage`. -/
def activatePage : NvsM Unit := do
  let s ← Prog.get
  match s.freePageList with
  | [] => fail .notEnoughSpace
  | p :: rest => do
    eraseCorrupt p
    Prog.modify fun s => { s with
      freePageList := rest, pageList := s.pageList ++ [p], seqNumber := u32 (s.seqNumber + 1) }
    onPage p (Page.setSeqNumber s.seqNumber)

/-- The entries of a page that hold no data. -/
def unused (p : Page) : ℕ := u32Sub entryCount p.usedEntryCount

/-- The first page with the most unused entries, and their number. -/
def maxUnusedItems (pages : ℕ → Page) (list : List ℕ) : Option ℕ × ℕ :=
  list.foldl (fun best i => if best.2 < unused (pages i) then (some i, unused (pages i)) else best)
    (none, 0)

/-- Move page `p` from the pages in use to the free ones. -/
def release (p : ℕ) : NvsM Unit :=
  Prog.modify fun s => { s with
    pageList := s.pageList.erase p, freePageList := s.freePageList ++ [p] }

/-- Copy a page to a new one and erase it. -/
def compact (erasedPage : ℕ) : NvsM Unit := do
  activatePage
  let s ← Prog.get
  onPage erasedPage Page.markFreeing
  copyItemsIfAny erasedPage (back s)
  onPage erasedPage Page.erase
  let s' ← Prog.get
  assert ((s.pages erasedPage).usedEntryCount = (s'.pages (back s)).usedEntryCount)
  release erasedPage

/-- `PageManager::requestNewPage`. -/
def requestNewPage : NvsM Unit := do
  let s ← Prog.get
  if s.freePageList = [] then fail .invalidState
  else if 2 ≤ s.freePageList.length then activatePage
  else
    match (maxUnusedItems s.pages s.pageList).1 with
    | none => fail .notEnoughSpace
    | some p => compact p

/-! ### Loading -/

/-- Insert page `i` before the first page with a higher sequence number. -/
def insertBySeqNumber (pages : ℕ → Page) (i seqNumber : ℕ) : List ℕ → List ℕ
  | [] => [i]
  | j :: js =>
    match (pages j).getSeqNumber with
    | none => j :: insertBySeqNumber pages i seqNumber js
    | some other =>
      if seqNumber < other then i :: j :: js else j :: insertBySeqNumber pages i seqNumber js

/-- Put a page that has been loaded into its list. -/
def listPage (i : ℕ) : NvsM Unit :=
  Prog.modify fun s =>
    match (s.pages i).getSeqNumber with
    | none => { s with freePageList := s.freePageList ++ [i] }
    | some seqNumber => { s with pageList := insertBySeqNumber s.pages i seqNumber s.pageList }

/-- Load `n` pages. -/
def loadPages (n : ℕ) : NvsM Unit :=
  Prog.upTo (fun i => do onPage i Page.load; listPage i) n

/-- The last item of a page, if it has one. -/
def findLastItem (page : ℕ) : ℕ → ℕ → Item → Bool → NvsM (Option Item)
  | 0, _, _, _ => Prog.throw .hang
  | fuel + 1, itemIndex, item, found => do
    let r ← onPage page (Page.findItem
      { nsIndex := nsAny, datatype := .any, key := none } itemIndex item)
    if r.rc = none then findLastItem page fuel (r.itemIndex + r.item.span) r.item true
    else pure (if found then some r.item else none)

/-- Erase the first match in the pages of the list that are not being freed. -/
def eraseFirst (q : Page.Query) : List ℕ → NvsM Bool
  | [] => pure false
  | i :: is => do
    let s ← Prog.get
    if (s.pages i).state = .freeing then eraseFirst q is
    else do
      let r ← attempt (onPage i (Page.eraseItem q))
      match r with
      | .ok () => pure true
      | .error _ => eraseFirst q is

/-- The query for an item with the namespace, key and chunk index of `item`. -/
def twinOf (item : Item) (datatype : ItemType) : Page.Query :=
  { nsIndex := item.nsIndex, datatype := datatype, key := some item.key
    chunkIdx := item.chunkIndex }

/-- Erase the item that the last item of the last page has replaced. -/
def eraseReplaced (item : Item) : NvsM Unit := do
  let s ← Prog.get
  let erased ← eraseFirst (twinOf item item.datatype) s.pageList.dropLast
  if erased = false ∧ item.datatype = .blobIdx then do
    let _ ← eraseFirst (twinOf item .blob) s.pageList.dropLast
    pure ()
  else pure ()

/-- Power may have gone out after an item was written and before the old one was erased. -/
def eraseDuplicateOfLast : NvsM Unit := do
  let s ← Prog.get
  let last ← findLastItem (back s) (entryCount + 1) 0 Page.noItem false
  match last with
  | none => pure ()
  | some item => eraseReplaced item

/-- Erase the page that a page was being copied to. -/
def dropNewPage : NvsM Unit := do
  let s ← Prog.get
  if (s.pages (back s)).state = .active then do
    onPage (back s) Page.erase
    release (back s)
  else pure ()

/-- Power may have gone out while a page was being freed. -/
def finishFreeing : NvsM Unit := do
  let s ← Prog.get
  match s.pageList.find? fun i => (s.pages i).state = .freeing with
  | none => pure ()
  | some p => do
    dropNewPage
    activatePage
    let s' ← Prog.get
    copyItemsIfAny p (back s')
    onPage p Page.erase
    release p

/-- The pages in use are in order: repair what a loss of power has left. -/
def repair : NvsM Unit := do
  Prog.modify fun s => { s with seqNumber := u32 ((s.pages (back s)).seqNumber + 1) }
  eraseDuplicateOfLast
  finishFreeing
  let s ← Prog.get
  if s.freePageList = [] then fail .noFreePages else pure ()

/-- `PageManager::load`. -/
def load (baseSector sectorCount : ℕ) : NvsM Unit := do
  Prog.modify fun s => { s with
    baseSector := baseSector
    pageCount := sectorCount
    pageList := []
    freePageList := []
    pages := fun i => Page.new (baseSector + i) }
  loadPages sectorCount
  let s ← Prog.get
  if s.pageList = [] then do
    Prog.modify fun s => { s with seqNumber := 0 }
    activatePage
  else repair

end PageManager

end EspIdf.Nvs
