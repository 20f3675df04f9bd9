/-
# The wear-levelling driver

`WL_Flash` presents `flash_size` bytes of logical flash on top of a flash driver.  The
logical pages are spread over one physical page more than there are logical ones; the page
left over is the dummy page, at position `pos`.  Every `max_count` sector erases
`update_wl` copies the page after the dummy into it, so that the dummy travels through the
memory, and `move_count` counts its rounds.  The position is kept as a row of records
behind each of two copies of the state, at the end of the memory, and `init` reads it back.

The functions follow `WL_Flash.cpp` one by one.  A driver call that fails leaves the
function with the driver's error; the state reached so far stays.
-/
import EspIdf.Lib.Prog
import EspIdf.Lib.Nor

namespace EspIdf.WearLevelling

open EspIdf.Lib

/-- The error codes that the component and its driver return. -/
inductive EspErr where
  | fail
  | invalidArg
  | invalidSize
  | invalidState
deriving DecidableEq, Repr

/-- `wl_config_t`. -/
structure WlConfig where
  /-- The first address of the memory. -/
  startAddr : ℕ
  /-- The bytes of memory used. -/
  fullMemSize : ℕ
  /-- The bytes of a page, the unit that is moved. -/
  pageSize : ℕ
  /-- The bytes of a sector, the unit that is erased. -/
  sectorSize : ℕ
  /-- The number of erases between two moves. -/
  updaterate : ℕ
  /-- The bytes that one position record takes. -/
  wrSize : ℕ
  version : ℕ
  /-- The bytes of the buffer through which pages are copied. -/
  tempBuffSize : ℕ
  crc : ℕ
deriving DecidableEq, Repr

/-- `wl_state_t`. -/
structure WlState where
  /-- The position of the dummy page. -/
  pos : ℕ
  /-- The number of physical pages. -/
  maxPos : ℕ
  /-- The number of rounds of the dummy page. -/
  moveCount : ℕ
  accessCount : ℕ
  maxCount : ℕ
  blockSize : ℕ
  version : ℕ
  deviceId : ℕ
  reserved : List ℕ
  crc : ℕ
deriving DecidableEq, Repr

/-- The object: `WL_Flash` without its driver. -/
structure WlFlash where
  configured : Bool
  initialized : Bool
  state : WlState
  cfg : WlConfig
  addrCfg : ℕ
  addrState1 : ℕ
  addrState2 : ℕ
  flashSize : ℕ
  stateSize : ℕ
  cfgSize : ℕ
  tempBuff : List Byte
  dummyAddr : ℕ

/-- The flash driver underneath, a partition of `chipSize` bytes with sectors of `secSize`.
`strayed` records that an access outside the partition has been asked for; no function of the
component looks at it. -/
structure FlashDrv where
  mem : Mem
  chipSize : ℕ
  secSize : ℕ
  strayed : Bool

/-- The object together with its driver. -/
structure World where
  wl : WlFlash
  drv : FlashDrv

/-- Programs of the component. -/
abbrev WlM : Type → Type := Prog World EspErr

/-! ### The driver -/

/-- Refuse an access outside the partition. -/
def refuse {α : Type} : WlM α := fun w =>
  (.error .invalidSize, { w with drv := { w.drv with strayed := true } })

/-- `Partition::read`. -/
def drvRead (a n : ℕ) : WlM (List Byte) := fun w =>
  if a + n > w.drv.chipSize then refuse w else (.ok (w.drv.mem.read a n), w)

/-- `Partition::write`. -/
def drvWrite (a : ℕ) (bs : List Byte) : WlM Unit := fun w =>
  if a + bs.length > w.drv.chipSize then refuse w
  else (.ok (), { w with drv := { w.drv with mem := w.drv.mem.program a bs } })

/-- `Partition::erase_range`. -/
def drvEraseRange (a n : ℕ) : WlM Unit := fun w =>
  if a + n > w.drv.chipSize then refuse w
  else if n % w.drv.secSize ≠ 0 then (.error .invalidSize, w)
  else if a % w.drv.secSize ≠ 0 then (.error .invalidArg, w)
  else (.ok (), { w with drv := { w.drv with mem := w.drv.mem.erase a n } })

/-- `Partition::erase_sector`. -/
def drvEraseSector (sector : ℕ) : WlM Unit := do
  let w ← Prog.get
  drvEraseRange (sector * w.drv.secSize) w.drv.secSize

/-! ### The stored structures -/

/-- `sizeof(wl_state_t)`. -/
def stateBytes : ℕ := 64

/-- `sizeof(wl_config_t)`: nine words, aligned to 16 bytes. -/
def configBytes : ℕ := 48

/-- The words of the state that its checksum covers (`WL_STATE_CRC_LEN_V2`). -/
def WlState.crcWords (s : WlState) : List ℕ :=
  [s.pos, s.maxPos, s.moveCount, s.accessCount, s.maxCount, s.blockSize, s.version,
    s.deviceId] ++ s.reserved

/-- The state as it lies in memory. -/
def WlState.encode (s : WlState) : List Byte :=
  s.crcWords.flatMap le32 ++ le32 s.crc

/-- Word `i` of a structure that lies in memory as `bs`. -/
def wordAt (bs : List Byte) (i : ℕ) : ℕ := leVal ((bs.drop (4 * i)).take 4)

/-- A state read from memory. -/
def WlState.decode (bs : List Byte) : WlState where
  pos := wordAt bs 0
  maxPos := wordAt bs 1
  moveCount := wordAt bs 2
  accessCount := wordAt bs 3
  maxCount := wordAt bs 4
  blockSize := wordAt bs 5
  version := wordAt bs 6
  deviceId := wordAt bs 7
  reserved := (List.range 7).map fun i => wordAt bs (8 + i)
  crc := wordAt bs 15

/-- `crc32_le` from `WL_CFG_CRC_CONST`. -/
def wlCrc (bs : List Byte) : ℕ := (crc32Le 0xffffffff#32 bs).toNat

/-- The checksum of the state in the current format. -/
def WlState.crcV2 (s : WlState) : ℕ := wlCrc (s.crcWords.flatMap le32)

/-- The checksum of the state in the first format: up to `device_id`. -/
def WlState.crcV1 (s : WlState) : ℕ := wlCrc ((s.crcWords.take 7).flatMap le32)

/-- The configuration as it lies in memory. -/
def WlConfig.encode (c : WlConfig) : List Byte :=
  [c.startAddr, c.fullMemSize, c.pageSize, c.sectorSize, c.updaterate, c.wrSize, c.version,
    c.tempBuffSize, c.crc, 0, 0, 0].flatMap le32

/-- The checksum that `config` puts into the configuration. -/
def WlConfig.crcOf (c : WlConfig) : ℕ :=
  wlCrc ([c.startAddr, c.fullMemSize, c.pageSize, c.sectorSize, c.updaterate, c.wrSize,
    c.version, c.tempBuffSize].flatMap le32)

/-! ### Configuration -/

/-- The bytes of a state and of the records behind it. -/
def recordsSizeOf (cfg : WlConfig) : ℕ :=
  u32 (stateBytes + u32 (cfg.fullMemSize / cfg.sectorSize * cfg.wrSize))

/-- `state_size`: a state and its records, rounded up to whole sectors. -/
def stateSizeOf (cfg : WlConfig) : ℕ :=
  if cfg.sectorSize < recordsSizeOf cfg then
    u32 (u32 (recordsSizeOf cfg + cfg.sectorSize - 1) / cfg.sectorSize * cfg.sectorSize)
  else cfg.sectorSize

/-- `cfg_size`. -/
def cfgSizeOf (cfg : WlConfig) : ℕ :=
  u32 (u32 (configBytes + cfg.sectorSize - 1) / cfg.sectorSize * cfg.sectorSize)

/-- `flash_size`: the whole pages of what the areas leave, less the dummy page. -/
def flashSizeOf (cfg : WlConfig) : ℕ :=
  u32 (u32Sub (u32Sub (u32Sub cfg.fullMemSize (u32 (stateSizeOf cfg * 2))) (cfgSizeOf cfg) /
    cfg.pageSize) 1 * cfg.pageSize)

/-- `WL_Flash::config`.  `mallocd` is what the freshly allocated buffer holds. -/
def config (c : WlConfig) (mallocd : ℕ → Byte) : WlM Unit := do
  let cfg := { c with crc := c.crcOf, tempBuffSize := max c.tempBuffSize c.wrSize }
  Prog.modify fun w => { w with wl := { w.wl with cfg := cfg, configured := false } }
  -- the divisions of the source do not return for a zero size
  if cfg.sectorSize = 0 ∨ cfg.tempBuffSize = 0 then
    Prog.throw .fail
  else if cfg.sectorSize % cfg.tempBuffSize ≠ 0 ∨ cfg.pageSize < cfg.sectorSize then
    Prog.throw .invalidArg
  else
    let memEnd := u32 (cfg.startAddr + cfg.fullMemSize)
    Prog.modify fun w => { w with wl := { w.wl with
      stateSize := stateSizeOf cfg
      cfgSize := cfgSizeOf cfg
      addrCfg := u32Sub memEnd (cfgSizeOf cfg)
      addrState1 := u32Sub (u32Sub memEnd (u32 (stateSizeOf cfg * 2))) (cfgSizeOf cfg)
      addrState2 := u32Sub (u32Sub memEnd (stateSizeOf cfg)) (cfgSizeOf cfg)
      flashSize := flashSizeOf cfg } }
    -- the size as a `ptrdiff_t` is not positive
    if flashSizeOf cfg = 0 ∨ 2 ^ 31 ≤ flashSizeOf cfg then
      Prog.throw .invalidArg
    else
      Prog.modify fun w => { w with wl := { w.wl with
        tempBuff := (List.range cfg.tempBuffSize).map mallocd
        configured := true } }

/-! ### Position records -/

/-- The words of the record for position `n`. -/
def okWord (deviceId n i : ℕ) : ℕ := wlCrc (le32 (u32 (deviceId + n * 4 + i)))

/-- The sixteen bytes of the record for position `n`. -/
def okBytes (deviceId n : ℕ) : List Byte := (List.range 4).flatMap fun i => le32 (okWord deviceId n i)

/-- Put `bs` at the start of the buffer. -/
def overlay (buff bs : List Byte) : List Byte := bs ++ buff.drop bs.length

/-- `WL_Flash::fillOkBuff`. -/
def fillOkBuff (n : ℕ) : WlM Unit :=
  Prog.modify fun w => { w with wl := { w.wl with
    tempBuff := overlay w.wl.tempBuff (okBytes w.wl.state.deviceId n) } }

/-- `WL_Flash::OkBuffSet`. -/
def okBuffSet (n : ℕ) : WlM Bool := do
  let w ← Prog.get
  pure ((List.range 4).all fun i => okWord w.wl.state.deviceId n i == wordAt w.wl.tempBuff i)

/-- Read `n` bytes at `a` into the buffer. -/
def readBuff (a n : ℕ) : WlM Unit := do
  let bs ← drvRead a n
  Prog.modify fun w => { w with wl := { w.wl with tempBuff := overlay w.wl.tempBuff bs } }

/-- The address of record `i` behind the state at `addr`. -/
def recordAddr (addr wrSize i : ℕ) : ℕ := addr + stateBytes + i * wrSize

/-- The loop of `recoverPos`: `left` positions remain, `i` is the next one. -/
def recoverScan : ℕ → ℕ → ℕ → WlM ℕ
  | 0, _, position => pure position
  | left + 1, i, _ => do
    let w ← Prog.get
    readBuff (recordAddr w.wl.addrState1 w.wl.cfg.wrSize i) w.wl.cfg.wrSize
    if ← okBuffSet i then recoverScan left (i + 1) i else pure i

/-- `WL_Flash::recoverPos`. -/
def recoverPos : WlM Unit := do
  let w ← Prog.get
  let position ← recoverScan w.wl.state.maxPos 0 0
  let pos := if position = w.wl.state.maxPos then u32Sub position 1 else position
  Prog.modify fun w => { w with wl := { w.wl with state := { w.wl.state with pos := pos } } }

/-! ### Mounting -/

/-- Erase a state area and write the state that the object holds there. -/
def storeState (addr : ℕ) : WlM Unit := do
  let w ← Prog.get
  drvEraseRange addr w.wl.stateSize
  drvWrite addr w.wl.state.encode

/-- Set the checksum of the state that the object holds. -/
def sealState : WlM Unit :=
  Prog.modify fun w => { w with wl := { w.wl with
    state := { w.wl.state with crc := w.wl.state.crcV2 } } }

/-- `WL_Flash::initSections`.  `random` is what `esp_random` returns. -/
def initSections (random : ℕ) : WlM Unit := do
  Prog.modify fun w => { w with wl := { w.wl with state := { w.wl.state with
    pos := 0
    accessCount := 0
    moveCount := 0
    maxCount :=
      if w.wl.cfg.updaterate ≠ 0 then w.wl.cfg.updaterate
      else u32 (w.wl.flashSize / w.wl.stateSize * w.wl.cfg.updaterate)
    version := w.wl.cfg.version
    blockSize := w.wl.cfg.pageSize
    deviceId := u32 random
    reserved := List.replicate 7 0
    maxPos := 1 + w.wl.flashSize / w.wl.cfg.pageSize } } }
  sealState
  let w ← Prog.get
  storeState w.wl.addrState1
  storeState w.wl.addrState2
  drvEraseRange w.wl.addrCfg w.wl.cfgSize
  drvWrite w.wl.addrCfg w.wl.cfg.encode

/-- The scan of `updateV1_V2` for the position: a record of the first format is any byte
other than `0xff`. -/
def scanV1 : ℕ → ℕ → ℕ → WlM ℕ
  | 0, _, pos => pure pos
  | left + 1, i, _ => do
    let w ← Prog.get
    let bs ← drvRead (recordAddr w.wl.addrState1 w.wl.cfg.wrSize i) 1
    if bs = [0xff#8] then pure i else scanV1 left (i + 1) i

/-- Write the records `0, …, pos` behind the state at `addr`. -/
def writeRecords (addr pos : ℕ) : WlM Unit := do
  Prog.modify fun w => { w with wl := { w.wl with
    tempBuff := overlay w.wl.tempBuff (List.replicate w.wl.cfg.wrSize 0#8) } }
  Prog.upTo (fun i => do
    fillOkBuff i
    let w ← Prog.get
    drvWrite (recordAddr addr w.wl.cfg.wrSize i) (w.wl.tempBuff.take w.wl.cfg.wrSize)) (pos + 1)

/-- `WL_Flash::updateV1_V2`. -/
def updateV1V2 (random : ℕ) : WlM Unit := do
  let w ← Prog.get
  let copy := WlState.decode (← drvRead w.wl.addrState2 stateBytes)
  let state := w.wl.state
  if state.crcV1 = state.deviceId ∧ copy.crcV1 = copy.deviceId ∧
      state.deviceId = copy.deviceId ∧ state.version = 1 ∧ copy.version = 1 then
    let found ← scanV1 state.maxPos 0 0
    let pos := if found = state.maxPos then u32Sub found 1 else found
    Prog.modify fun w => { w with wl := { w.wl with state := { w.wl.state with
      version := 2, pos := 0, deviceId := u32 random, reserved := List.replicate 7 0 } } }
    sealState
    storeState w.wl.addrState1
    writeRecords w.wl.addrState1 pos
    storeState w.wl.addrState2
    writeRecords w.wl.addrState2 pos
    Prog.modify fun w => { w with wl := { w.wl with state := { w.wl.state with pos := pos } } }
  else
    Prog.throw .fail

/-- Copy the position records from the area at `src` to the area at `dst`. -/
def copyRecords (src dst : ℕ) : WlM Unit := do
  let w ← Prog.get
  let cfg := w.wl.cfg
  Prog.upTo (fun i => do
    readBuff (recordAddr src cfg.wrSize i) cfg.wrSize
    if ← okBuffSet i then
      let w ← Prog.get
      drvWrite (recordAddr dst cfg.wrSize i) (w.wl.tempBuff.take cfg.wrSize))
    (cfg.fullMemSize / cfg.sectorSize * cfg.wrSize)

/-- Read the state at `addr` into the object; the source does not look at the result. -/
def readState (addr : ℕ) : WlM Unit := fun w =>
  match drvRead addr stateBytes w with
  | (.ok bs, w') => (.ok (), { w' with wl := { w'.wl with state := WlState.decode bs } })
  | (.error _, w') => (.ok (), w')

/-- Rewrite the second area from the first. -/
def resyncState2 : WlM Unit := do
  let w ← Prog.get
  storeState w.wl.addrState2
  copyRecords w.wl.addrState1 w.wl.addrState2

/-- The branch of `init` for two intact states. -/
def initIntact (random : ℕ) (state copy : WlState) : WlM Unit := do
  let w ← Prog.get
  if state.version ≠ w.wl.cfg.version then
    initSections random
    recoverPos
  else if state.crcV2 ≠ copy.crcV2 then
    -- the second state had not been updated
    resyncState2
    recoverPos
  else
    recoverPos

/-- The branch of `init` for two broken states: a new memory, or one of the first format.
Only the answer that it is not of the first format leads to a new state. -/
def initNew (random : ℕ) : WlM Unit := fun w =>
  match updateV1V2 random w with
  | (.error .fail, w') => (do initSections random; recoverPos : WlM Unit) w'
  | (_, w') => recoverPos w'

/-- The branch of `init` for one broken state: the other one is copied over it. -/
def initBroken (random : ℕ) (state copy : WlState) : WlM Unit := do
  let w ← Prog.get
  if state.crcV2 = state.crc then
    resyncState2
    let bs ← drvRead w.wl.addrState2 stateBytes
    Prog.modify fun w => { w with wl := { w.wl with state := WlState.decode bs } }
  else
    drvEraseRange w.wl.addrState1 w.wl.stateSize
    drvWrite w.wl.addrState1 copy.encode
    copyRecords w.wl.addrState2 w.wl.addrState1
    let bs ← drvRead w.wl.addrState1 stateBytes
    Prog.modify fun w => { w with wl := { w.wl with
      state := { WlState.decode bs with pos := u32Sub (WlState.decode bs).maxPos 1 } } }
  let w ← Prog.get
  if w.wl.state.version ≠ w.wl.cfg.version then initSections random else pure ()

/-- `init` from the two states that have been read. -/
def initFrom (random : ℕ) (state copy : WlState) : WlM Unit :=
  if state.crcV2 = state.crc ∧ copy.crcV2 = copy.crc then initIntact random state copy
  else if state.crcV2 ≠ state.crc ∧ copy.crcV2 ≠ copy.crc then initNew random
  else initBroken random state copy

/-- `WL_Flash::init`. -/
def init (random : ℕ) : WlM Unit := do
  let w ← Prog.get
  if w.wl.configured then
    Prog.modify fun w => { w with wl := { w.wl with initialized := false } }
    readState w.wl.addrState1
    let v ← Prog.get
    let bs ← drvRead w.wl.addrState2 stateBytes
    initFrom random v.wl.state (WlState.decode bs)
    Prog.modify fun w => { w with wl := { w.wl with initialized := true } }
  else
    Prog.throw .invalidState

/-! ### Moving the dummy page -/

/-- `updateWL` gives up and tries again at the next erase. -/
def retryNextTime (m : WlM Unit) : WlM Unit := fun w =>
  match m w with
  | (.ok (), w') => (.ok (), w')
  | (.error e, w') => (.error e, { w' with wl := { w'.wl with
      state := { w'.wl.state with accessCount := u32Sub w'.wl.state.maxCount 1 } } })

/-- Copy the page at `src` to `dst` through the buffer. -/
def copyPage (src dst : ℕ) : WlM Unit := do
  let w ← Prog.get
  let size := w.wl.cfg.tempBuffSize
  Prog.upTo (fun i => do
    readBuff (src + i * size) size
    let w ← Prog.get
    drvWrite (dst + i * size) (w.wl.tempBuff.take size)) (w.wl.cfg.pageSize / size)

/-- The physical page that is copied into the dummy page: the one after it. -/
def nextPage (state : WlState) : ℕ := if state.pos + 1 ≥ state.maxPos then 0 else state.pos + 1

/-- Record that the page at the position has been moved, behind the state at `addr`. -/
def writeRecord (addr : ℕ) : WlM Unit := do
  let w ← Prog.get
  fillOkBuff w.wl.state.pos
  let w ← Prog.get
  drvWrite (recordAddr addr w.wl.cfg.wrSize w.wl.state.pos)
    (w.wl.tempBuff.take w.wl.cfg.wrSize)

/-- Move the dummy page one position on. -/
def advancePos : WlM Unit := do
  let w ← Prog.get
  let pos := w.wl.state.pos + 1
  if pos ≥ w.wl.state.maxPos then
    let move := w.wl.state.moveCount + 1
    Prog.modify fun w => { w with wl := { w.wl with state := { w.wl.state with
      pos := 0
      moveCount := if move ≥ w.wl.state.maxPos - 1 then 0 else move } } }
    sealState
    storeState w.wl.addrState1
    storeState w.wl.addrState2
  else
    Prog.modify fun w => { w with wl := { w.wl with state := { w.wl.state with pos := pos } } }

/-- `WL_Flash::updateWL`. -/
def updateWL : WlM Unit := do
  Prog.modify fun w => { w with wl := { w.wl with state := { w.wl.state with
    accessCount := u32 (w.wl.state.accessCount + 1) } } }
  let w ← Prog.get
  if w.wl.state.accessCount < w.wl.state.maxCount then
    pure ()
  else
    let src := w.wl.cfg.startAddr + nextPage w.wl.state * w.wl.cfg.pageSize
    let dummy := w.wl.cfg.startAddr + w.wl.state.pos * w.wl.cfg.pageSize
    Prog.modify fun w => { w with wl := { w.wl with
      state := { w.wl.state with accessCount := 0 }, dummyAddr := dummy } }
    retryNextTime do
      drvEraseRange dummy w.wl.cfg.pageSize
      copyPage src dummy
      writeRecord w.wl.addrState1
      writeRecord w.wl.addrState2
    advancePos

/-! ### Access -/

/-- `WL_Flash::calcAddr`. -/
def calcAddr (wl : WlFlash) (addr : ℕ) : ℕ :=
  let result := (wl.flashSize - wl.state.moveCount * wl.cfg.pageSize + addr) % wl.flashSize
  if result < wl.state.pos * wl.cfg.pageSize then result else result + wl.cfg.pageSize

/-- `WL_Flash::chip_size`. -/
def chipSize (wl : WlFlash) : ℕ := if wl.configured then wl.flashSize else 0

/-- Leave unless the object is mounted. -/
def checkInitialized : WlM Unit := do
  let w ← Prog.get
  if w.wl.initialized then pure () else Prog.throw .invalidState

/-- `WL_Flash::erase_sector`. -/
def eraseSector (sector : ℕ) : WlM Unit := do
  checkInitialized
  updateWL
  let w ← Prog.get
  drvEraseSector ((w.wl.cfg.startAddr + calcAddr w.wl (sector * w.wl.cfg.sectorSize)) /
    w.wl.cfg.sectorSize)

/-- `WL_Flash::erase_range`. -/
def eraseRange (start size : ℕ) : WlM Unit := do
  checkInitialized
  let w ← Prog.get
  let sec := w.wl.cfg.sectorSize
  Prog.upTo (fun i => eraseSector (start / sec + i)) ((size + sec - 1) / sec)

/-- `WL_Flash::write` of `size` bytes of the caller's memory `src`.  The transfer takes steps of a
page from `addr` on, and a `size` of zero makes both subtractions wrap around. -/
def write (addr : ℕ) (src : Mem) (size : ℕ) : WlM Unit := do
  checkInitialized
  let w ← Prog.get
  let page := w.wl.cfg.pageSize
  let count := u32Sub size 1 / page
  Prog.upTo (fun i => do
    let w ← Prog.get
    drvWrite (w.wl.cfg.startAddr + calcAddr w.wl (addr + i * page)) (src.read (i * page) page)) count
  let w ← Prog.get
  drvWrite (w.wl.cfg.startAddr + calcAddr w.wl (addr + count * page))
    (src.read (count * page) (u32Sub size (count * page)))

/-- The page reads of `WL_Flash::read`: `left` pages remain, `i` is the next one. -/
def readPages (addr page : ℕ) : ℕ → ℕ → WlM (List Byte)
  | 0, _ => pure []
  | left + 1, i => do
    let w ← Prog.get
    let bs ← drvRead (w.wl.cfg.startAddr + calcAddr w.wl (addr + i * page)) page
    let rest ← readPages addr page left (i + 1)
    pure (bs ++ rest)

/-- `WL_Flash::read`. -/
def read (addr size : ℕ) : WlM (List Byte) := do
  checkInitialized
  let w ← Prog.get
  let page := w.wl.cfg.pageSize
  let count := u32Sub size 1 / page
  let front ← readPages addr page count 0
  let w ← Prog.get
  let last ← drvRead (w.wl.cfg.startAddr + calcAddr w.wl (addr + count * page))
    (u32Sub size (count * page))
  pure (front ++ last)

/-- `WL_Flash::flush`. -/
def flush : WlM Unit := do
  Prog.modify fun w => { w with wl := { w.wl with state := { w.wl.state with
    accessCount := u32Sub w.wl.state.maxCount 1 } } }
  updateWL

end EspIdf.WearLevelling
