/-
# Ring buffers

The functions of `ringbuf.c`.  A program runs on the control structure together with the
memory that holds the storage area; pointers are addresses.  Each function here is what a
task does inside its critical section: the two semaphores and the tick counts only decide
when a task enters it.
-/
import EspIdf.Lib.Prog
import EspIdf.Lib.Ram

namespace EspIdf.RingBuffer

open EspIdf.Lib

/-- `RingbufferType_t`. -/
inductive RingbufferType where
  | noSplit
  | allowSplit
  | byteBuf
deriving DecidableEq, Repr

/-- `Ringbuffer_t` and the memory.  The type stands for `rbALLOW_SPLIT_FLAG`,
`rbBYTE_BUFFER_FLAG` and the function pointers, which are set once; `bufferFull` is
`rbBUFFER_FULL_FLAG`. -/
structure Ringbuffer where
  xSize : ℕ
  xMaxItemSize : ℕ
  type : RingbufferType
  bufferFull : Bool
  pucAcquire : ℕ
  pucWrite : ℕ
  pucRead : ℕ
  pucFree : ℕ
  pucHead : ℕ
  pucTail : ℕ
  xItemsWaiting : ℤ
  mem : Mem

/-- How a function ends abnormally. -/
inductive Stop where
  /-- A `configASSERT` fires. -/
  | assertion
  /-- A loop does not end. -/
  | hang
deriving DecidableEq, Repr

/-- Programs over a ring buffer. -/
abbrev RbM : Type → Type := Prog Ringbuffer Stop

/-- `configASSERT`. -/
def configAssert (b : Bool) : RbM Unit := if b then pure () else Prog.throw .assertion

/-! ### Sizes, alignment and item headers -/

/-- `rbHEADER_SIZE`. -/
def rbHeaderSize : ℕ := 8

/-- `rbALIGN_SIZE`, with a `portBYTE_ALIGNMENT` of 4. -/
def rbAlignSize (xSize : ℕ) : ℕ := u32 (xSize + 3) / 4 * 4

/-- `rbCHECK_ALIGNED`. -/
def rbCheckAligned (pvPtr : ℕ) : Bool := pvPtr % 4 = 0

/-- `rbITEM_FREE_FLAG`. -/
def rbItemFreeFlag : BitVec 32 := 1#32

/-- `rbITEM_DUMMY_DATA_FLAG`. -/
def rbItemDummyDataFlag : BitVec 32 := 2#32

/-- `rbITEM_SPLIT_FLAG`. -/
def rbItemSplitFlag : BitVec 32 := 4#32

/-- `rbITEM_WRITTEN_FLAG`. -/
def rbItemWrittenFlag : BitVec 32 := 8#32

/-- Whether a word of flags has the bit `flag`. -/
def hasFlag (flags flag : BitVec 32) : Bool := flags &&& flag != 0#32

namespace Ringbuffer

/-- `xItemLen` of the header at `p`. -/
def xItemLen (rb : Ringbuffer) (p : ℕ) : ℕ := (rb.mem.word p).toNat

/-- `uxItemFlags` of the header at `p`. -/
def uxItemFlags (rb : Ringbuffer) (p : ℕ) : BitVec 32 := rb.mem.word (p + 4)

end Ringbuffer

/-- Store `xItemLen` of the header at `p`. -/
def setItemLen (p n : ℕ) : RbM Unit :=
  Prog.modify fun rb => { rb with mem := rb.mem.storeWord p (BitVec.ofNat 32 n) }

/-- Store `uxItemFlags` of the header at `p`. -/
def setItemFlags (p : ℕ) (flags : BitVec 32) : RbM Unit :=
  Prog.modify fun rb => { rb with mem := rb.mem.storeWord (p + 4) flags }

/-- `memcpy` of `bs` to `p`. -/
def memcpy (p : ℕ) (bs : List Byte) : RbM Unit :=
  Prog.modify fun rb => { rb with mem := rb.mem.store p bs }

/-- A pointer that has been moved on starts over when no header fits before the tail. -/
def wrapAround (rb : Ringbuffer) (p : ℕ) : ℕ :=
  if u32Sub rb.pucTail p < rbHeaderSize then rb.pucHead else p

/-! ### Creation -/

/-- `xMaxItemSize` as `prvInitializeNewRingbuffer` sets it. -/
def maxItemSize (xBufferSize : ℕ) : RingbufferType → ℕ
  | .noSplit => u32Sub (rbAlignSize (xBufferSize / 2)) rbHeaderSize
  | .allowSplit => u32Sub xBufferSize (rbHeaderSize * 2)
  | .byteBuf => xBufferSize

/-- `prvInitializeNewRingbuffer`, in the memory `mem`. -/
def prvInitializeNewRingbuffer (mem : Mem) (xBufferSize : ℕ) (xBufferType : RingbufferType)
    (pucRingbufferStorage : ℕ) : Ringbuffer where
  xSize := xBufferSize
  xMaxItemSize := maxItemSize xBufferSize xBufferType
  type := xBufferType
  bufferFull := false
  pucAcquire := pucRingbufferStorage
  pucWrite := pucRingbufferStorage
  pucRead := pucRingbufferStorage
  pucFree := pucRingbufferStorage
  pucHead := pucRingbufferStorage
  pucTail := pucRingbufferStorage + xBufferSize
  xItemsWaiting := 0
  mem := mem

/-- `xRingbufferCreate`; `pucRingbufferStorage` is what `malloc` returns. -/
def xRingbufferCreate (mem : Mem) (xBufferSize : ℕ) (xBufferType : RingbufferType)
    (pucRingbufferStorage : ℕ) : Ringbuffer :=
  prvInitializeNewRingbuffer mem
    (if xBufferType ≠ .byteBuf then rbAlignSize xBufferSize else xBufferSize) xBufferType
    pucRingbufferStorage

/-- `xRingbufferCreateNoSplit`. -/
def xRingbufferCreateNoSplit (mem : Mem) (xItemSize xItemNum : ℕ) (pucRingbufferStorage : ℕ) :
    Ringbuffer :=
  xRingbufferCreate mem (u32 (u32 (rbAlignSize xItemSize + rbHeaderSize) * xItemNum)) .noSplit
    pucRingbufferStorage

/-! ### Space -/

/-- `prvGetFreeSize`. -/
def prvGetFreeSize : RbM ℕ := do
  let rb ← Prog.get
  let xFreeSize : ℤ := rb.pucFree - rb.pucAcquire
  let xFreeSize := if xFreeSize ≤ 0 then xFreeSize + rb.xSize else xFreeSize
  let xReturn := if rb.bufferFull then 0 else (xFreeSize % 2 ^ 32).toNat
  configAssert (xReturn ≤ rb.xSize)
  pure xReturn

/-- `prvCheckItemFitsDefault`. -/
def prvCheckItemFitsDefault (xItemSize : ℕ) : RbM Bool := do
  let rb ← Prog.get
  configAssert (rbCheckAligned rb.pucAcquire)
  configAssert (rb.pucHead ≤ rb.pucAcquire && rb.pucAcquire < rb.pucTail)
  let xTotalItemSize := u32 (rbAlignSize xItemSize + rbHeaderSize)
  if rb.pucAcquire = rb.pucFree then
    -- completely empty or completely full
    pure !rb.bufferFull
  else if rb.pucFree > rb.pucAcquire then
    pure (xTotalItemSize ≤ u32Sub rb.pucFree rb.pucAcquire)
  else if xTotalItemSize ≤ u32Sub rb.pucTail rb.pucAcquire then
    pure true
  else if rb.type = .allowSplit then
    -- split wrapping takes an extra header
    pure (u32 (xTotalItemSize + rbHeaderSize) ≤
      u32Sub rb.xSize (u32Sub rb.pucAcquire rb.pucFree))
  else
    pure (xTotalItemSize ≤ u32Sub rb.pucFree rb.pucHead)

/-- `prvCheckItemFitsByteBuffer`. -/
def prvCheckItemFitsByteBuffer (xItemSize : ℕ) : RbM Bool := do
  let rb ← Prog.get
  configAssert (rb.pucHead ≤ rb.pucAcquire && rb.pucAcquire < rb.pucTail)
  if rb.pucAcquire = rb.pucFree then
    pure !rb.bufferFull
  else if rb.pucFree > rb.pucAcquire then
    pure (xItemSize ≤ u32Sub rb.pucFree rb.pucAcquire)
  else
    pure (xItemSize ≤ u32Sub rb.xSize (u32Sub rb.pucAcquire rb.pucFree))

/-- A value as a `BaseType_t`. -/
def toBaseType (x : ℤ) : ℤ := x.bmod (2 ^ 32)

namespace Ringbuffer

/-- The limits at the end of `prvGetCurMaxSizeNoSplit` and `prvGetCurMaxSizeAllowSplit`. -/
def limitFreeSize (rb : Ringbuffer) (xFreeSize : ℤ) : ℕ :=
  if xFreeSize < 0 then 0
  else if (rb.xMaxItemSize : ℤ) < xFreeSize then rb.xMaxItemSize
  else xFreeSize.toNat

/-- `prvGetCurMaxSizeNoSplit`. -/
def prvGetCurMaxSizeNoSplit (rb : Ringbuffer) : ℕ :=
  if rb.bufferFull then 0
  else
    let xFreeSize : ℤ :=
      if rb.pucAcquire < rb.pucFree then toBaseType (rb.pucFree - rb.pucAcquire)
      else
        -- the largest contiguous space
        let xSize1 := u32Sub rb.pucTail rb.pucAcquire
        let xSize2 := u32Sub rb.pucFree rb.pucHead
        toBaseType (if xSize2 < xSize1 then xSize1 else xSize2)
    rb.limitFreeSize (toBaseType (xFreeSize - rbHeaderSize))

/-- `prvGetCurMaxSizeAllowSplit`. -/
def prvGetCurMaxSizeAllowSplit (rb : Ringbuffer) : ℕ :=
  if rb.bufferFull then 0
  else
    let xFreeSize : ℤ :=
      if rb.pucAcquire = rb.pucHead ∧ rb.pucFree = rb.pucHead then
        toBaseType (rb.xSize - rbHeaderSize)
      else if rb.pucAcquire < rb.pucFree then
        toBaseType (rb.pucFree - rb.pucAcquire - rbHeaderSize)
      else
        -- free space that wraps around takes two headers
        toBaseType ((rb.pucFree - rb.pucHead) + (rb.pucTail - rb.pucAcquire) - rbHeaderSize * 2)
    rb.limitFreeSize xFreeSize

/-- `prvGetCurMaxSizeByteBuf`. -/
def prvGetCurMaxSizeByteBuf (rb : Ringbuffer) : ℕ :=
  if rb.bufferFull then 0
  else
    let xFreeSize : ℤ := toBaseType (rb.pucFree - rb.pucAcquire)
    let xFreeSize := if xFreeSize ≤ 0 then toBaseType (xFreeSize + rb.xSize) else xFreeSize
    (xFreeSize % 2 ^ 32).toNat

/-- `xRingbufferGetCurFreeSize`. -/
def xRingbufferGetCurFreeSize (rb : Ringbuffer) : ℕ :=
  match rb.type with
  | .noSplit => rb.prvGetCurMaxSizeNoSplit
  | .allowSplit => rb.prvGetCurMaxSizeAllowSplit
  | .byteBuf => rb.prvGetCurMaxSizeByteBuf

/-- `xRingbufferGetMaxItemSize`. -/
def xRingbufferGetMaxItemSize (rb : Ringbuffer) : ℕ := rb.xMaxItemSize

end Ringbuffer

/-- The buffer is full when the acquire pointer has caught up with the free pointer. -/
def markFull : RbM Unit :=
  Prog.modify fun rb => { rb with bufferFull := rb.bufferFull || rb.pucAcquire == rb.pucFree }

/-! ### Sending -/

/-- `prvAcquireItemNoSplit`. -/
def prvAcquireItemNoSplit (xItemSize : ℕ) : RbM ℕ := do
  let rb ← Prog.get
  let xAlignedItemSize := rbAlignSize xItemSize
  let xRemLen := u32Sub rb.pucTail rb.pucAcquire
  configAssert (rbCheckAligned rb.pucAcquire)
  configAssert (rb.pucHead ≤ rb.pucAcquire && rb.pucAcquire < rb.pucTail)
  configAssert (rbHeaderSize ≤ xRemLen)
  if xRemLen < u32 (xAlignedItemSize + rbHeaderSize) then
    -- the rest of the buffer is dummy data
    setItemFlags rb.pucAcquire rbItemDummyDataFlag
    setItemLen rb.pucAcquire 0
    Prog.modify fun rb => { rb with pucAcquire := rb.pucHead }
  let rb ← Prog.get
  setItemLen rb.pucAcquire xItemSize
  setItemFlags rb.pucAcquire 0#32
  let itemAddress := rb.pucAcquire + rbHeaderSize
  Prog.modify fun rb =>
    { rb with pucAcquire := wrapAround rb (rb.pucAcquire + (rbHeaderSize + xAlignedItemSize)) }
  markFull
  pure itemAddress

/-- The loops of `prvSendItemDoneNoSplit` and `prvReturnItemDefault`: move the pointer `p`
past every item that has the flag and past dummy data, up to `limit`. -/
def skipItems (flag : BitVec 32) (limit : ℕ) : ℕ → ℕ → RbM ℕ
  | 0, _ => Prog.throw .hang
  | fuel + 1, p => do
    let rb ← Prog.get
    let flags := rb.uxItemFlags p
    if (hasFlag flags flag || hasFlag flags rbItemDummyDataFlag) && p != limit then
      if hasFlag flags rbItemDummyDataFlag then
        setItemFlags p (flags ||| flag)
        skipItems flag limit fuel (wrapAround rb rb.pucHead)
      else
        let p' := u32 (p + (rbAlignSize (rb.xItemLen p) + rbHeaderSize))
        configAssert (p' ≤ rb.pucHead + rb.xSize)
        skipItems flag limit fuel (wrapAround rb p')
    else
      pure p

/-- `prvSendItemDoneNoSplit`. -/
def prvSendItemDoneNoSplit (pucItem : ℕ) : RbM Unit := do
  let rb ← Prog.get
  configAssert (rbCheckAligned pucItem)
  configAssert (rb.pucHead ≤ pucItem)
  configAssert (pucItem ≤ rb.pucTail)
  let pxCurHeader := pucItem - rbHeaderSize
  let flags := rb.uxItemFlags pxCurHeader
  configAssert (rb.xItemLen pxCurHeader ≤ rb.xMaxItemSize)
  configAssert (!hasFlag flags rbItemDummyDataFlag)
  configAssert (!hasFlag flags rbItemWrittenFlag)
  setItemFlags pxCurHeader ((flags &&& ~~~rbItemSplitFlag) ||| rbItemWrittenFlag)
  Prog.modify fun rb => { rb with xItemsWaiting := rb.xItemsWaiting + 1 }
  let pucWrite ← skipItems rbItemWrittenFlag rb.pucAcquire (rb.xSize + 1) rb.pucWrite
  Prog.modify fun rb => { rb with pucWrite := pucWrite }

/-- `prvCopyItemNoSplit`. -/
def prvCopyItemNoSplit (pucItem : List Byte) : RbM Unit := do
  let itemAddr ← prvAcquireItemNoSplit pucItem.length
  memcpy itemAddr pucItem
  prvSendItemDoneNoSplit itemAddr

/-- The first part of an item that `prvCopyItemAllowSplit` splits; the bytes that are left
for the second part and their aligned size. -/
def copyFirstPart (pucItem : List Byte) (xRemLen xAlignedItemSize : ℕ) :
    RbM (List Byte × ℕ) := do
  let rb ← Prog.get
  let pxFirstHeader := rb.pucAcquire
  setItemFlags pxFirstHeader 0#32
  setItemLen pxFirstHeader (u32Sub xRemLen rbHeaderSize)
  let xRemLen := u32Sub xRemLen rbHeaderSize
  let rest ← if 0 < xRemLen then do
      memcpy (rb.pucAcquire + rbHeaderSize) (pucItem.take xRemLen)
      Prog.modify fun rb => { rb with xItemsWaiting := rb.xItemsWaiting + 1 }
      setItemFlags pxFirstHeader (0#32 ||| rbItemSplitFlag)
      pure (pucItem.drop xRemLen, u32Sub xAlignedItemSize xRemLen)
    else do
      -- only the header has room: the item is stored in the second part
      setItemFlags pxFirstHeader (0#32 ||| rbItemDummyDataFlag)
      pure (pucItem, xAlignedItemSize)
  Prog.modify fun rb => { rb with pucAcquire := rb.pucHead }
  pure rest

/-- The item, or its second part, in `prvCopyItemAllowSplit`. -/
def copyLastPart (pucItem : List Byte) (xAlignedItemSize : ℕ) : RbM Unit := do
  let rb ← Prog.get
  setItemLen rb.pucAcquire pucItem.length
  setItemFlags rb.pucAcquire 0#32
  memcpy (rb.pucAcquire + rbHeaderSize) pucItem
  Prog.modify fun rb => { rb with
    xItemsWaiting := rb.xItemsWaiting + 1
    pucAcquire := wrapAround rb (rb.pucAcquire + rbHeaderSize + xAlignedItemSize) }
  markFull
  Prog.modify fun rb => { rb with pucWrite := rb.pucAcquire }

/-- `prvCopyItemAllowSplit`. -/
def prvCopyItemAllowSplit (pucItem : List Byte) : RbM Unit := do
  let rb ← Prog.get
  let xAlignedItemSize := rbAlignSize pucItem.length
  let xRemLen := u32Sub rb.pucTail rb.pucAcquire
  configAssert (rbCheckAligned rb.pucAcquire)
  configAssert (rb.pucHead ≤ rb.pucAcquire && rb.pucAcquire < rb.pucTail)
  configAssert (rbHeaderSize ≤ xRemLen)
  if xRemLen < u32 (xAlignedItemSize + rbHeaderSize) then
    let rest ← copyFirstPart pucItem xRemLen xAlignedItemSize
    copyLastPart rest.1 rest.2
  else
    copyLastPart pucItem xAlignedItemSize

/-- The data, or the rest of it, in `prvCopyItemByteBuf`. -/
def copyBytes (pucItem : List Byte) : RbM Unit := do
  let rb ← Prog.get
  memcpy rb.pucAcquire pucItem
  Prog.modify fun rb => { rb with
    xItemsWaiting := rb.xItemsWaiting + pucItem.length
    pucAcquire :=
      if rb.pucAcquire + pucItem.length = rb.pucTail then rb.pucHead
      else rb.pucAcquire + pucItem.length }
  markFull
  Prog.modify fun rb => { rb with pucWrite := rb.pucAcquire }

/-- `prvCopyItemByteBuf`. -/
def prvCopyItemByteBuf (pucItem : List Byte) : RbM Unit := do
  let rb ← Prog.get
  configAssert (rb.pucHead ≤ rb.pucAcquire && rb.pucAcquire < rb.pucTail)
  let xRemLen := u32Sub rb.pucTail rb.pucAcquire
  if xRemLen < pucItem.length then
    -- as much as possible is copied into the remaining length
    memcpy rb.pucAcquire (pucItem.take xRemLen)
    Prog.modify fun rb => { rb with
      xItemsWaiting := rb.xItemsWaiting + xRemLen
      pucAcquire := rb.pucHead }
    copyBytes (pucItem.drop xRemLen)
  else
    copyBytes pucItem

/-- `xCheckItemFits`. -/
def checkItemFits (xItemSize : ℕ) : RbM Bool := do
  let rb ← Prog.get
  match rb.type with
  | .byteBuf => prvCheckItemFitsByteBuffer xItemSize
  | _ => prvCheckItemFitsDefault xItemSize

/-- `vCopyItem`. -/
def copyItem (pucItem : List Byte) : RbM Unit := do
  let rb ← Prog.get
  match rb.type with
  | .noSplit => prvCopyItemNoSplit pucItem
  | .allowSplit => prvCopyItemAllowSplit pucItem
  | .byteBuf => prvCopyItemByteBuf pucItem

/-- `xRingbufferSend`: whether the item has been sent. -/
def xRingbufferSend (pvItem : List Byte) : RbM Bool := do
  let rb ← Prog.get
  if rb.xMaxItemSize < pvItem.length then
    pure false
  else if rb.type = .byteBuf ∧ pvItem.length = 0 then
    -- sending 0 bytes to a byte buffer has no effect
    pure true
  else if ← checkItemFits pvItem.length then
    copyItem pvItem
    let _ ← prvGetFreeSize
    pure true
  else
    pure false

/-- `xRingbufferSendAcquire`: the memory of the item, if it has been acquired. -/
def xRingbufferSendAcquire (xItemSize : ℕ) : RbM (Option ℕ) := do
  let rb ← Prog.get
  configAssert (rb.type = .noSplit)
  if rb.xMaxItemSize < xItemSize then
    pure none
  else if ← checkItemFits xItemSize then
    let pvItem ← prvAcquireItemNoSplit xItemSize
    let _ ← prvGetFreeSize
    pure (some pvItem)
  else
    pure none

/-- `xRingbufferSendComplete`. -/
def xRingbufferSendComplete (pvItem : ℕ) : RbM Unit := do
  let rb ← Prog.get
  configAssert (pvItem ≠ 0)
  configAssert (rb.type = .noSplit)
  prvSendItemDoneNoSplit pvItem

/-! ### Receiving -/

namespace Ringbuffer

/-- There are items to be read. -/
def itemsToRead (rb : Ringbuffer) : Bool :=
  decide (0 < rb.xItemsWaiting) && (rb.pucRead != rb.pucWrite || rb.bufferFull)

/-- `prvCheckItemAvail`. -/
def prvCheckItemAvail (rb : Ringbuffer) : Bool :=
  if rb.type = .byteBuf ∧ rb.pucRead ≠ rb.pucFree then
    -- byte buffers do not allow multiple retrievals before return
    false
  else
    rb.itemsToRead

end Ringbuffer

/-- What a retrieval yields: the address of the data, its length and whether the rest of the
item is wrapped around. -/
structure Retrieved where
  pvItem : ℕ
  xItemSize : ℕ
  isSplit : Bool
deriving DecidableEq, Repr

/-- The item at the read pointer, in `prvGetItemDefault` once dummy data has been skipped. -/
def takeItem : RbM Retrieved := do
  let rb ← Prog.get
  let pcReturn := rb.pucRead + rbHeaderSize
  let xItemLen := rb.xItemLen rb.pucRead
  if xItemLen = 0 then
    -- an item of zero length may end at the tail
    configAssert (rb.pucHead ≤ pcReturn && pcReturn ≤ rb.pucTail)
  else
    configAssert (rb.pucHead ≤ pcReturn && pcReturn < rb.pucTail)
  let isSplit := hasFlag (rb.uxItemFlags rb.pucRead) rbItemSplitFlag
  Prog.modify fun rb => { rb with
    xItemsWaiting := rb.xItemsWaiting - 1
    pucRead := wrapAround rb (rb.pucRead + (rbHeaderSize + rbAlignSize xItemLen)) }
  pure ⟨pcReturn, xItemLen, isSplit⟩

/-- `prvGetItemDefault`. -/
def prvGetItemDefault : RbM Retrieved := do
  let rb ← Prog.get
  configAssert rb.itemsToRead
  configAssert (rbCheckAligned rb.pucRead)
  configAssert (rb.pucHead ≤ rb.pucRead && rb.pucRead < rb.pucTail)
  configAssert (decide (rb.xItemLen rb.pucRead ≤ rb.xMaxItemSize) ||
    hasFlag (rb.uxItemFlags rb.pucRead) rbItemDummyDataFlag)
  if hasFlag (rb.uxItemFlags rb.pucRead) rbItemDummyDataFlag then
    -- dummy data indicates wrap around
    Prog.modify fun rb => { rb with pucRead := rb.pucHead }
    configAssert (rb.xItemLen rb.pucHead ≤ rb.xMaxItemSize)
  takeItem

/-- `prvGetItemByteBuf`. -/
def prvGetItemByteBuf (xMaxSize : ℕ) : RbM Retrieved := do
  let rb ← Prog.get
  configAssert rb.itemsToRead
  configAssert (rb.pucHead ≤ rb.pucRead && rb.pucRead < rb.pucTail)
  configAssert (rb.pucRead = rb.pucFree)
  let wraps := decide (rb.pucWrite < rb.pucRead) || rb.bufferFull
  let contiguous :=
    if wraps then u32Sub rb.pucTail rb.pucRead else u32Sub rb.pucWrite rb.pucRead
  if xMaxSize = 0 ∨ contiguous ≤ xMaxSize then
    -- all contiguous data, up to the tail or up to the write pointer
    Prog.modify fun rb => { rb with
      xItemsWaiting := rb.xItemsWaiting - contiguous
      pucRead := if wraps then rb.pucHead else rb.pucWrite }
    pure ⟨rb.pucRead, contiguous, false⟩
  else
    Prog.modify fun rb => { rb with
      xItemsWaiting := rb.xItemsWaiting - xMaxSize
      pucRead := rb.pucRead + xMaxSize }
    pure ⟨rb.pucRead, xMaxSize, false⟩

/-- `pvGetItem`. -/
def getItem (xMaxSize : ℕ) : RbM Retrieved := do
  let rb ← Prog.get
  match rb.type with
  | .byteBuf => prvGetItemByteBuf xMaxSize
  | _ => prvGetItemDefault

/-- `prvReceiveGeneric` without a second item. -/
def receiveOne (xMaxSize : ℕ) : RbM (Option Retrieved) := do
  let rb ← Prog.get
  if rb.prvCheckItemAvail then
    let item ← getItem xMaxSize
    pure (some item)
  else
    pure none

/-- `xRingbufferReceive`. -/
def xRingbufferReceive : RbM (Option Retrieved) := receiveOne 0

/-- `xRingbufferReceiveUpTo`. -/
def xRingbufferReceiveUpTo (xMaxSize : ℕ) : RbM (Option Retrieved) := do
  let rb ← Prog.get
  configAssert (rb.type = .byteBuf)
  if xMaxSize = 0 then
    pure none
  else
    receiveOne xMaxSize

/-- `xRingbufferReceiveSplit`: the head item and, when it is split, the tail item. -/
def xRingbufferReceiveSplit : RbM (Option (Retrieved × Option Retrieved)) := do
  let rb ← Prog.get
  configAssert (rb.type = .allowSplit)
  if rb.prvCheckItemAvail then
    let item1 ← prvGetItemDefault
    if item1.isSplit then
      let item2 ← prvGetItemDefault
      configAssert (item2.pvItem < item1.pvItem)
      configAssert (!item2.isSplit)
      pure (some (item1, some item2))
    else
      pure (some (item1, none))
  else
    pure none

/-! ### Returning -/

/-- `prvReturnItemDefault`. -/
def prvReturnItemDefault (pucItem : ℕ) : RbM Unit := do
  let rb ← Prog.get
  configAssert (rbCheckAligned pucItem)
  configAssert (rb.pucHead ≤ pucItem)
  configAssert (pucItem ≤ rb.pucTail)
  let pxCurHeader := pucItem - rbHeaderSize
  let flags := rb.uxItemFlags pxCurHeader
  configAssert (rb.xItemLen pxCurHeader ≤ rb.xMaxItemSize)
  configAssert (!hasFlag flags rbItemDummyDataFlag)
  configAssert (!hasFlag flags rbItemFreeFlag)
  setItemFlags pxCurHeader ((flags &&& ~~~rbItemSplitFlag) ||| rbItemFreeFlag)
  let pucFree ← skipItems rbItemFreeFlag rb.pucRead (rb.xSize + 1) rb.pucFree
  Prog.modify fun rb => { rb with pucFree := pucFree }
  -- a full buffer is no longer full once the free pointer has moved, or when it is
  -- completely freed in one go
  Prog.modify fun rb => { rb with
    bufferFull := rb.bufferFull &&
      !(rb.pucFree != rb.pucAcquire || rb.pucFree == rb.pucRead) }

/-- `prvReturnItemByteBuf`. -/
def prvReturnItemByteBuf (pucItem : ℕ) : RbM Unit := do
  let rb ← Prog.get
  configAssert (rb.pucHead ≤ pucItem)
  configAssert (pucItem < rb.pucTail)
  Prog.modify fun rb => { rb with pucFree := rb.pucRead, bufferFull := false }

/-- `vRingbufferReturnItem`. -/
def vRingbufferReturnItem (pvItem : ℕ) : RbM Unit := do
  let rb ← Prog.get
  configAssert (pvItem ≠ 0)
  match rb.type with
  | .byteBuf => prvReturnItemByteBuf pvItem
  | _ => prvReturnItemDefault pvItem

end EspIdf.RingBuffer
