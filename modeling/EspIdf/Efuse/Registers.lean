/-
# Writing eFuse registers

The bits to be programmed are collected in the program registers and burned from there.  In
batch mode several calls collect their bits before one burn; outside it each call burns its own.
The eFuse blocks are the ones emulated in memory (`CONFIG_EFUSE_VIRTUAL`), whose burning is
written out in the source; the coding scheme is read from the chip's own register.
-/
import Mathlib

namespace EspIdf.Efuse

inductive EspErr where
  | ok
  | invalidArg
  | invalidState
  | repeatedProg
  | coding
  | cntIsFull
  /-- `ESP_OK_EFUSE_CNT`: the required number of bits has been set. -/
  | okCnt
  deriving DecidableEq, Repr

inductive CodingScheme where
  | none
  | threeQuarters
  | repetition
  deriving DecidableEq, Repr

/-- `esp_efuse_desc_t`. -/
structure Desc where
  efuseBlock : ℕ
  bitStart : ℕ
  bitCount : ℕ
  deriving DecidableEq, Repr

/-- The registers of one block. -/
abbrev Block := ℕ → BitVec 32

/-- The registers of all blocks. -/
abbrev Regs := ℕ → Block

/-- `EFUSE_BLK_MAX`, which is also `COUNT_EFUSE_BLOCKS`. -/
def blkMax : ℕ := 4

/-- The number of the last register of a block; block 0 has seven. -/
def maxNumReg (blk : ℕ) : ℕ := if blk = 0 then 6 else 7

structure Chip where
  /-- `EFUSE_BLK0_RDATA6_REG`. -/
  rdata6 : BitVec 32
  virtBlocks : Regs
  /-- The program registers `EFUSE_BLKx_WDATAx_REG`. -/
  wdata : Regs
  /-- `s_batch_writing_mode`. -/
  batchMode : Bool

def getCodingScheme (rdata6 : BitVec 32) (blk : ℕ) : CodingScheme :=
  if blk = 0 then .none
  else
    let codingScheme := rdata6 &&& 3
    if codingScheme = 0 ∨ codingScheme = 3 then .none
    else if codingScheme = 1 then .threeQuarters
    else .repetition

/-! ### Registers and masks -/

/-- Both functions on registers assert that the register exists. -/
def RegExists (blk numReg : ℕ) : Prop := blk < blkMax ∧ numReg ≤ maxNumReg blk

instance (blk numReg : ℕ) : Decidable (RegExists blk numReg) :=
  inferInstanceAs (Decidable (_ ∧ _))

/-- `esp_efuse_utility_read_reg`. -/
def readReg (r : Regs) (blk numReg : ℕ) : Option (BitVec 32) :=
  if RegExists blk numReg then some (r blk numReg) else none

def setReg (w : Regs) (blk numReg : ℕ) (value : BitVec 32) : Regs :=
  Function.update w blk (Function.update (w blk) numReg value)

/-- `write_reg`. -/
def writeReg (w : Regs) (blk numReg : ℕ) (value : BitVec 32) : Option Regs :=
  if RegExists blk numReg then some (setReg w blk numReg (w blk numReg ||| value)) else none

/-- `esp_efuse_utility_write_reg`. -/
def utilityWriteReg (r w : Regs) (blk numReg : ℕ) (regToWrite : BitVec 32) :
    Option (EspErr × Regs) := do
  let reg ← readReg r blk numReg
  if reg &&& regToWrite ≠ 0 then return (.repeatedProg, w)
  else return (.ok, ← writeReg w blk numReg regToWrite)

def getMask (bitCount shift : ℕ) : BitVec 32 :=
  (if bitCount ≠ 32 then (1#32 <<< bitCount) - 1 else 0xFFFFFFFF) <<< shift

/-- `get_reg_num`; `none` is its −1. -/
def getRegNum (bitStart bitCount iReg : ℕ) : Option ℕ :=
  let numReg := iReg + bitStart / 32
  if numReg > (bitStart + bitCount - 1) / 32 then none else some numReg

def getStartingBitNumInReg (bitStart iReg : ℕ) : ℕ :=
  if iReg = 0 then bitStart % 32 else 0

/-- The loop of `get_count_bits_in_reg` over the last `n` bits of the range. -/
def countBitsLoop (iReg : ℕ) : ℕ → ℕ → ℕ → ℕ → ℕ
  | 0, _, _, _ => 0
  | n + 1, numBit, retCount, numReg =>
    if (numBit + 1) % 32 = 0 ∨ n = 0 then
      if iReg = numReg then retCount + 1 else countBitsLoop iReg n (numBit + 1) 0 (numReg + 1)
    else countBitsLoop iReg n (numBit + 1) (retCount + 1) numReg

def getCountBitsInReg (bitStart bitCount iReg : ℕ) : ℕ :=
  countBitsLoop iReg bitCount bitStart 0 0

/-- The loop of `fill_reg` over whole bytes of the blob. -/
def fillRegLoop (blob : ℕ → BitVec 8) : ℕ → ℕ → ℕ → BitVec 32 → ℕ → BitVec 32 × ℕ
  | 0, _, _, regToWrite, filled => (regToWrite, filled)
  | fuel + 1, bitCount, shiftReg, regToWrite, filled =>
    if bitCount > 0 then
      let shiftBit := if bitCount > 8 then 8 else bitCount
      let part := (blob (filled / 8)).setWidth 32 &&& getMask shiftBit 0
      fillRegLoop blob fuel (bitCount - shiftBit) (shiftReg + 8) (regToWrite ||| part <<< shiftReg)
        (filled + shiftBit)
    else (regToWrite, filled)

/-- `fill_reg`, with the new number of filled bits. -/
def fillReg (bitStart bitCount : ℕ) (blob : ℕ → BitVec 8) (filled : ℕ) : BitVec 32 × ℕ :=
  let shiftBit := if filled % 8 = 0 then 0 else
    if 8 - filled % 8 < bitCount then 8 - filled % 8 else bitCount
  let first := if filled % 8 = 0 then 0 else
    ((blob (filled / 8)).setWidth 32 >>> (filled % 8)) &&& getMask shiftBit 0
  let res := fillRegLoop blob bitCount (bitCount - shiftBit) shiftBit first (filled + shiftBit)
  (res.1 <<< bitStart, res.2)

/-- The loop of `set_cnt_in_reg` over the last `n` bits of the range. -/
def setCntLoop (regMasked : BitVec 32) : ℕ → ℕ → BitVec 32 → ℕ → BitVec 32 × ℕ
  | 0, _, regToWrite, cnt => (regToWrite, cnt)
  | n + 1, i, regToWrite, cnt =>
    if regMasked &&& (1#32 <<< i) = 0 then
      if cnt - 1 = 0 then (regToWrite ||| 1#32 <<< i, cnt - 1)
      else setCntLoop regMasked n (i + 1) (regToWrite ||| 1#32 <<< i) (cnt - 1)
    else setCntLoop regMasked n (i + 1) regToWrite cnt

def setCntInReg (bitStart bitCountUsed : ℕ) (regMasked : BitVec 32) (cnt : ℕ) :
    Option (BitVec 32 × ℕ) :=
  if bitStart + bitCountUsed ≤ 32 then some (setCntLoop regMasked bitCountUsed bitStart 0 cnt)
  else none

def checkRangeOfBits (rdata6 : BitVec 32) (blk offsetInBits sizeBits : ℕ) : Bool :=
  let maxNumBit := offsetInBits + sizeBits
  if maxNumBit > 256 then false
  else match getCodingScheme rdata6 blk with
    | .none => true
    | .threeQuarters => decide (maxNumBit ≤ 192)
    | .repetition => decide (maxNumBit ≤ 128)

/-! ### Processing a field -/

/-- What `esp_efuse_utility_process` passes on: an error, the program registers with the number
behind `ptr`, and `bits_counter`. -/
structure Progress where
  err : EspErr
  wdata : Regs
  cnt : ℕ
  bitsCounter : ℕ

/-- `efuse_func_proc_t`. -/
abbrev FuncProc :=
  (numReg blk bitStart bitCount : ℕ) → Progress → Option Progress

def Progress.Going (reqSize : ℕ) (s : Progress) : Prop := s.err = .ok ∧ s.bitsCounter < reqSize

instance (reqSize : ℕ) (s : Progress) : Decidable (s.Going reqSize) :=
  inferInstanceAs (Decidable (_ ∧ _))

/-- The loop over the registers of a descriptor. -/
def processRegs (func : FuncProc) (reqSize : ℕ) (d : Desc) : ℕ → ℕ → Progress → Option Progress
  | 0, _, s => some s
  | fuel + 1, iReg, s =>
    if s.Going reqSize then
      match getRegNum d.bitStart d.bitCount iReg with
      | none => some s
      | some numReg => do
        let startBit := getStartingBitNumInReg d.bitStart iReg
        let numBits := getCountBitsInReg d.bitStart d.bitCount iReg
        let numBits := if s.bitsCounter + numBits > reqSize then reqSize - s.bitsCounter
          else numBits
        let s ← func numReg d.efuseBlock startBit numBits s
        processRegs func reqSize d fuel (iReg + 1) s
    else some s

/-- The loop over the descriptors of a field. -/
def processDescs (rdata6 : BitVec 32) (func : FuncProc) (reqSize : ℕ) :
    List Desc → Progress → Option Progress
  | [], s => some s
  | d :: ds, s =>
    if s.Going reqSize then do
      let err := if checkRangeOfBits rdata6 d.efuseBlock d.bitStart d.bitCount then s.err
        else .coding
      -- one round for each register the descriptor can reach
      let s ← processRegs func reqSize d (d.bitCount + 2) 0 { s with err := err }
      processDescs rdata6 func reqSize ds s
    else some s

/-- `esp_efuse_get_field_size`. -/
def getFieldSize (field : List Desc) : ℕ := (field.map Desc.bitCount).sum

/-- `esp_efuse_utility_process`. -/
def utilityProcess (rdata6 : BitVec 32) (field : List Desc) (w : Regs) (cnt ptrSizeBits : ℕ)
    (func : FuncProc) : Option Progress :=
  let fieldLen := getFieldSize field
  let reqSize := if ptrSizeBits = 0 then fieldLen else min ptrSizeBits fieldLen
  processDescs rdata6 func reqSize field ⟨.ok, w, cnt, 0⟩

/-- `esp_efuse_utility_write_blob`. -/
def utilityWriteBlob (r : Regs) (blob : ℕ → BitVec 8) : FuncProc :=
  fun numReg blk bitStart bitCount s => do
    let res := fillReg bitStart bitCount blob s.bitsCounter
    let (err, w) ← utilityWriteReg r s.wdata blk numReg res.1
    return ⟨err, w, s.cnt, res.2⟩

/-- `esp_efuse_utility_write_cnt`. -/
def utilityWriteCnt (r : Regs) : FuncProc :=
  fun numReg blk bitStart bitCount s => do
    let reg ← readReg r blk numReg
    let mask := getMask bitCount bitStart
    let regMaskedBits := reg &&& mask
    let staged : Option (Regs × ℕ) :=
      if regMaskedBits ^^^ mask ≠ 0 then do
        let (regToWrite, cnt) ← setCntInReg bitStart bitCount regMaskedBits s.cnt
        let w ← writeReg s.wdata blk numReg regToWrite
        return (w, cnt)
      else some (s.wdata, s.cnt)
    let (w, cnt) ← staged
    return ⟨if cnt = 0 then .okCnt else .ok, w, cnt, s.bitsCounter + bitCount⟩

/-! ### Coding and burning -/

/-- Byte `n` of a block seen as an array of bytes. -/
def byteAt (b : Block) (n : ℕ) : BitVec 8 := (b (n / 4)).extractLsb' (8 * (n % 4)) 8

/-- The word of four bytes, the first one lowest. -/
def wordAt (bytes : ℕ → BitVec 8) (n : ℕ) : BitVec 32 :=
  bytes (4 * n + 3) ++ bytes (4 * n + 2) ++ bytes (4 * n + 1) ++ bytes (4 * n)

/-- `esp_efuse_utility_apply_34_encoding` of six bytes: the eight bytes of the two words. -/
def apply34Encoding (inBytes : ℕ → BitVec 8) : ℕ → BitVec 8 := fun n =>
  if n < 6 then inBytes n
  else if n = 6 then (List.range 6).foldl (fun x i => x ^^^ inBytes i) 0
  else (List.range 6).foldl (fun m i => m + BitVec.ofNat 8 (i + 1) * (inBytes i).cpop) 0

/-- The loop over the bytes of a block with 3/4 coding. -/
def code34Loop (r w : Block) : ℕ → ℕ → Block → EspErr × Block
  | 0, _, out => (.ok, out)
  | fuel + 1, i, out =>
    if i < 24 then
      if byteAt w i ≠ 0 then
        let stOffsetBuf := i / 6 * 6
        if (List.range 6).all fun n => byteAt r (stOffsetBuf + n) = 0 then
          let reg := apply34Encoding fun n => byteAt w (stOffsetBuf + n)
          let numReg := stOffsetBuf / 6 * 2
          let out := Function.update out numReg (wordAt reg 0)
          let out := Function.update out (numReg + 1) (wordAt reg 1)
          code34Loop r w fuel (stOffsetBuf + 6) out
        else (.coding, out)
      else code34Loop r w fuel (i + 1) out
    else (.ok, out)

/-- One round of `esp_efuse_utility_apply_new_coding_scheme`, for a block that reads `r`. -/
def codeBlock (scheme : CodingScheme) (r w : Block) : EspErr × Block :=
  -- `read_w_data_and_check_fill` clears the registers it has read
  let cleared : Block := fun i => if i < 8 then 0 else w i
  if (List.range 8).all fun i => w i = 0 then (.ok, w)
  else match scheme with
    | .none => (.ok, w)
    | .threeQuarters =>
      if w 6 ≠ 0 ∨ w 7 ≠ 0 then (.coding, cleared) else code34Loop r w 24 0 cleared
    | .repetition =>
      if (List.range 4).all fun i => w (i + 4) = 0 then
        (.ok, fun i => if i < 4 then w i else if i < 8 then w (i - 4) else w i)
      else (.coding, cleared)

/-- The rounds from a block on. -/
def codeBlocks (e : Chip) : ℕ → ℕ → Regs → EspErr × Regs
  | 0, _, w => (.ok, w)
  | n + 1, blk, w =>
    let res := codeBlock (getCodingScheme e.rdata6 blk) (e.virtBlocks blk) (w blk)
    let w := Function.update w blk res.2
    if res.1 = .ok then codeBlocks e n (blk + 1) w else (res.1, w)

/-- `esp_efuse_utility_apply_new_coding_scheme`. -/
def applyNewCodingScheme (e : Chip) : EspErr × Chip :=
  let res := codeBlocks e (blkMax - 1) 1 e.wdata
  (res.1, { e with wdata := res.2 })

/-- `esp_efuse_utility_reset`. -/
def Chip.reset (e : Chip) : Chip := { e with wdata := fun _ _ => 0 }

/-- What burning a block adds to it: the data bytes of the coded ones. -/
def decodeBlock (scheme : CodingScheme) (w : Block) : Block :=
  if scheme = .threeQuarters then
    wordAt fun n => if n < 24 then byteAt w (n / 6 * 8 + n % 6) else 0
  else w

/-- `esp_efuse_utility_burn_efuses`. -/
def burnEfuses (e : Chip) : Chip :=
  let burned : Regs := fun blk numReg =>
    if RegExists blk numReg then
      e.virtBlocks blk numReg ||| decodeBlock (getCodingScheme e.rdata6 blk) (e.wdata blk) numReg
    else e.virtBlocks blk numReg
  Chip.reset { e with virtBlocks := burned }

/-- Apply the coding scheme and burn if that succeeds. -/
def codeAndBurn (e : Chip) : EspErr × Chip :=
  let res := applyNewCodingScheme e
  if res.1 = .ok then (.ok, burnEfuses res.2) else res

/-! ### The interface -/

/-- How the writing functions begin. -/
def Chip.start (e : Chip) : Chip := if e.batchMode then e else e.reset

/-- How the writing functions end, outside batch mode with burning. -/
def Chip.finish (e : Chip) (err : EspErr) : EspErr × Chip :=
  if e.batchMode then (err, e)
  else
    let res := if err = .ok then codeAndBurn e else (err, e)
    (res.1, res.2.reset)

/-- `esp_efuse_write_field_blob`; an absent pointer is `NULL`. -/
def writeFieldBlob (e : Chip) (field : Option (List Desc)) (src : Option (ℕ → BitVec 8))
    (srcSizeBits : ℕ) : Option (EspErr × Chip) :=
  match field, src with
  | some field, some src =>
    if srcSizeBits = 0 then some (.invalidArg, e)
    else do
      let e := e.start
      let s ← utilityProcess e.rdata6 field e.wdata 0 srcSizeBits
        (utilityWriteBlob e.virtBlocks src)
      return Chip.finish { e with wdata := s.wdata } s.err
  | _, _ => some (.invalidArg, e)

/-- `esp_efuse_write_field_cnt`. -/
def writeFieldCnt (e : Chip) (field : Option (List Desc)) (cnt : ℕ) : Option (EspErr × Chip) :=
  match field with
  | none => some (.invalidArg, e)
  | some field =>
    if cnt = 0 then some (.invalidArg, e)
    else do
      let e := e.start
      let s ← utilityProcess e.rdata6 field e.wdata cnt 0 (utilityWriteCnt e.virtBlocks)
      let err := if s.cnt ≠ 0 then .cntIsFull else s.err
      let err := if err = .okCnt then .ok else err
      return Chip.finish { e with wdata := s.wdata } err

/-- `esp_efuse_write_reg`. -/
def efuseWriteReg (e : Chip) (blk numReg : ℕ) (val : BitVec 32) : Option (EspErr × Chip) := do
  let e := e.start
  let (err, w) ← utilityWriteReg e.virtBlocks e.wdata blk numReg val
  return Chip.finish { e with wdata := w } err

def batchWriteBegin (e : Chip) : Chip := Chip.reset { e with batchMode := true }

def batchWriteCancel (e : Chip) : Chip :=
  if e.batchMode then Chip.reset { e with batchMode := false } else e

def batchWriteCommit (e : Chip) : EspErr × Chip :=
  if e.batchMode then
    let res := codeAndBurn e
    (res.1, batchWriteCancel res.2)
  else (.invalidState, e)

end EspIdf.Efuse
