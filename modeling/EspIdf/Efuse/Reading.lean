/-
# Reading a field

A field is read piece by piece, either as the number of its programmed bits or into an array of
bytes.  The bits of a piece begin anywhere in a byte of the array, so the first ones complete a
byte and the others follow in whole bytes.  Here the array that is read is the list of the bits
of the field, and the value that a blob writes to a piece is a part of the blob.
-/
import EspIdf.Efuse.Staging

namespace EspIdf.Efuse

variable {r w : Regs} {s s' t : Progress} {ps : List Piece} {x : Pos} {req : ℕ}
  {rdata6 : BitVec 32}

/-! ### The functions -/

/-- Set bits of a byte of an array, which is given by the number it stands for. -/
def orByte (dst i : ℕ) (v : BitVec 8) : ℕ := dst ||| v.toNat <<< (8 * i)

/-- The loop of `esp_efuse_utility_fill_buff` over whole bytes. -/
def fillBuffLoop (bits : BitVec 64) : ℕ → ℕ → ℕ → ℕ → ℕ → ℕ → ℕ × ℕ
  | 0, _, _, _, dst, bitsCounter => (dst, bitsCounter)
  | fuel + 1, bitCount, shiftBit, sumShift, dst, bitsCounter =>
    if bitCount > 0 then
      let sumShift := sumShift + shiftBit
      let dst := orByte dst (bitsCounter / 8) ((bits >>> sumShift).setWidth 8)
      let shiftBit := if bitCount > 8 then 8 else bitCount
      fillBuffLoop bits fuel (bitCount - shiftBit) shiftBit sumShift dst (bitsCounter + shiftBit)
    else (dst, bitsCounter)

/-- The body of `esp_efuse_utility_fill_buff`: the array and the counter. -/
def fillBuff (reg : BitVec 32) (bitStart bitCount dst bitsCounter : ℕ) : ℕ × ℕ :=
  let bits := ((reg >>> bitStart) &&& getMask bitCount 0).setWidth 64
  let shift := bitsCounter % 8
  let shiftBit := if shift = 0 then 0 else if 8 - shift < bitCount then 8 - shift else bitCount
  let dst := if shift = 0 then dst
    else orByte dst (bitsCounter / 8) ((bits <<< shift).setWidth 8)
  fillBuffLoop bits bitCount (bitCount - shiftBit) shiftBit 0 dst (bitsCounter + shiftBit)

/-- `esp_efuse_utility_fill_buff`; the number behind `ptr` is that of the array. -/
def utilityFillBuff (r : Regs) : FuncProc :=
  fun numReg blk bitStart bitCount s => do
    let reg ← readReg r blk numReg
    let res := fillBuff reg bitStart bitCount s.cnt s.bitsCounter
    return ⟨.ok, s.wdata, res.1, res.2⟩

/-- `esp_efuse_utility_count_once`. -/
def utilityCountOnce (r : Regs) : FuncProc :=
  fun numReg blk bitStart bitCount s => do
    let reg ← readReg r blk numReg
    return ⟨.ok, s.wdata, s.cnt + (reg &&& getMask bitCount bitStart).cpop.toNat,
      s.bitsCounter + bitCount⟩

/-- `esp_efuse_read_field_blob`: the array `dst` is a number, and absent pointers are `NULL`. -/
def readFieldBlob (e : Chip) (field : Option (List Desc)) (dst : Option ℕ) (dstSizeBits : ℕ) :
    Option (EspErr × Option ℕ) :=
  match field, dst with
  | some field, some _ =>
    if dstSizeBits = 0 then some (.invalidArg, dst)
    else do
      let s ← utilityProcess e.rdata6 field e.wdata 0 dstSizeBits (utilityFillBuff e.virtBlocks)
      return (s.err, some s.cnt)
  | _, _ => some (.invalidArg, dst)

/-- `esp_efuse_read_field_cnt`, with `outCnt` behind its pointer. -/
def readFieldCnt (e : Chip) (field : Option (List Desc)) (outCnt : Option ℕ) :
    Option (EspErr × Option ℕ) :=
  match field, outCnt with
  | some field, some _ => do
    let s ← utilityProcess e.rdata6 field e.wdata 0 0 (utilityCountOnce e.virtBlocks)
    return (s.err, some s.cnt)
  | _, _ => some (.invalidArg, outCnt)

/-! ### The bits of one piece -/

lemma testBit_orByte {dst i j : ℕ} {v : BitVec 8} :
    (orByte dst i v).testBit j = (dst.testBit j || (decide (8 * i ≤ j) && v.getLsbD (j - 8 * i))) := by
  rw [orByte, Nat.testBit_or, Nat.testBit_shiftLeft, BitVec.testBit_toNat]

lemma fillBuffLoop_zero {bits : BitVec 64} {fuel shiftBit sumShift dst c : ℕ} :
    fillBuffLoop bits fuel 0 shiftBit sumShift dst c = (dst, c) := by
  cases fuel with
  | zero => rfl
  | succ fuel => rw [fillBuffLoop, if_neg (Nat.lt_irrefl 0)]

/-- A byte takes the bits from `sumShift` on. -/
lemma testBit_orByte_ushiftRight {bits : BitVec 64} {dst c sumShift j : ℕ} (hc : c % 8 = 0) :
    (orByte dst (c / 8) ((bits >>> sumShift).setWidth 8)).testBit j =
      (dst.testBit j || (decide (c ≤ j ∧ j < c + 8) && bits.getLsbD (sumShift + (j - c)))) := by
  have hbyte : 8 * (c / 8) = c := by omega
  rw [testBit_orByte, hbyte, BitVec.getLsbD_setWidth, BitVec.getLsbD_ushiftRight]
  by_cases hle : c ≤ j
  · by_cases hlt : j < c + 8
    · simp [hle, hlt, show j - c < 8 by omega]
    · simp [hlt, show ¬ j - c < 8 by omega]
  · simp [hle]

/-- The loop reads the bits from `k` on to the places from the counter on, which is at the
beginning of a byte. -/
lemma fillBuffLoop_eq {bits : BitVec 64} {last : ℕ}
    (hlast : ∀ i, last ≤ i → bits.getLsbD i = false) :
    ∀ {fuel bitCount shiftBit sumShift dst c : ℕ}, bitCount ≤ fuel → c % 8 = 0 →
      sumShift + shiftBit + bitCount = last →
      (fillBuffLoop bits fuel bitCount shiftBit sumShift dst c).2 = c + bitCount ∧
      ∀ j, (fillBuffLoop bits fuel bitCount shiftBit sumShift dst c).1.testBit j =
        (dst.testBit j ||
          (decide (c ≤ j) && bits.getLsbD (sumShift + shiftBit + (j - c)))) := by
  intro fuel
  induction fuel with
  | zero =>
    intro bitCount shiftBit sumShift dst c hfuel hc hsum
    obtain rfl := Nat.le_zero.mp hfuel
    refine ⟨rfl, fun j => ?_⟩
    rw [hlast _ (by omega), Bool.and_false, Bool.or_false]
    rfl
  | succ fuel ih =>
    intro bitCount shiftBit sumShift dst c hfuel hc hsum
    by_cases hpos : bitCount > 0
    · rw [fillBuffLoop, if_pos hpos]
      by_cases h8 : bitCount > 8
      · simp only [if_pos h8]
        obtain ⟨hcounter, hbits⟩ := @ih (bitCount - 8) 8 (sumShift + shiftBit)
          (orByte dst (c / 8) ((bits >>> (sumShift + shiftBit)).setWidth 8)) (c + 8) (by omega)
          (by omega) (by omega)
        refine ⟨by rw [hcounter]; omega, fun j => ?_⟩
        rw [hbits j, testBit_orByte_ushiftRight hc, Bool.or_assoc]
        congr 1
        by_cases hle : c ≤ j
        · by_cases hlt : j < c + 8
          · simp [hle, hlt, show ¬ c + 8 ≤ j by omega]
          · have hidx : sumShift + shiftBit + 8 + (j - (c + 8)) =
                sumShift + shiftBit + (j - c) := by omega
            rw [hidx]
            simp [hle, hlt, show c + 8 ≤ j by omega]
        · simp [hle, show ¬ c + 8 ≤ j by omega]
      · -- the last byte
        simp only [if_neg h8, Nat.sub_self, fillBuffLoop_zero]
        refine ⟨trivial, fun j => ?_⟩
        rw [testBit_orByte_ushiftRight hc]
        congr 1
        by_cases hlt : j < c + 8
        · simp [hlt]
        · rw [hlast _ (by omega), Bool.and_false, Bool.and_false]
    · obtain rfl : bitCount = 0 := by omega
      rw [fillBuffLoop_zero]
      refine ⟨rfl, fun j => ?_⟩
      rw [hlast _ (by omega), Bool.and_false, Bool.or_false]

lemma getLsbD_aligned {reg : BitVec 32} {bitStart bitCount i : ℕ} (h : bitStart + bitCount ≤ 32) :
    (((reg >>> bitStart) &&& getMask bitCount 0).setWidth 64).getLsbD i =
      (decide (i < bitCount) && reg.getLsbD (bitStart + i)) := by
  rw [BitVec.getLsbD_setWidth, BitVec.getLsbD_and, BitVec.getLsbD_ushiftRight,
    getLsbD_getMask (by omega)]
  by_cases hi : i < bitCount
  · simp [hi, show i < 64 by omega]
  · simp [hi]

/-- The bits of a piece go to the places from the counter on. -/
lemma fillBuff_eq {reg : BitVec 32} {bitStart bitCount dst c : ℕ} (h : bitStart + bitCount ≤ 32) :
    (fillBuff reg bitStart bitCount dst c).2 = c + bitCount ∧
    ∀ j, (fillBuff reg bitStart bitCount dst c).1.testBit j =
      (dst.testBit j ||
        (decide (c ≤ j ∧ j < c + bitCount) && reg.getLsbD (bitStart + (j - c)))) := by
  have hlast : ∀ i, bitCount ≤ i →
      (((reg >>> bitStart) &&& getMask bitCount 0).setWidth 64).getLsbD i = false := by
    intro i hi
    rw [getLsbD_aligned h, decide_eq_false (by omega), Bool.false_and]
  have hbit : ∀ {j}, c ≤ j →
      (((reg >>> bitStart) &&& getMask bitCount 0).setWidth 64).getLsbD (j - c) =
        (decide (c ≤ j ∧ j < c + bitCount) && reg.getLsbD (bitStart + (j - c))) := by
    intro j hj
    rw [getLsbD_aligned h]
    congr 1
    exact decide_eq_decide.mpr (by omega)
  unfold fillBuff
  generalize ((reg >>> bitStart) &&& getMask bitCount 0).setWidth 64 = bits at hlast hbit ⊢
  by_cases hc : c % 8 = 0
  · simp only [if_pos hc]
    obtain ⟨hcounter, hbits⟩ := @fillBuffLoop_eq bits bitCount hlast bitCount (bitCount - 0) 0 0 dst
      (c + 0) (by omega) (by omega) (by omega)
    refine ⟨hcounter, fun j => ?_⟩
    rw [hbits j]
    congr 1
    by_cases hj : c ≤ j
    · rw [Nat.add_zero, Nat.zero_add, decide_eq_true hj, Bool.true_and, hbit hj]
    · simp [hj]
  · simp only [if_neg hc]
    have hfirst : ∀ j, (orByte dst (c / 8) ((bits <<< (c % 8)).setWidth 8)).testBit j =
        (dst.testBit j || (decide (c ≤ j ∧ j < 8 * (c / 8) + 8) && bits.getLsbD (j - c))) := by
      intro j
      rw [testBit_orByte, BitVec.getLsbD_setWidth, BitVec.getLsbD_shiftLeft]
      congr 1
      by_cases hj : c ≤ j ∧ j < 8 * (c / 8) + 8
      · have hidx : j - 8 * (c / 8) - c % 8 = j - c := by omega
        rw [hidx, decide_eq_true hj]
        simp [show 8 * (c / 8) ≤ j by omega, show j - 8 * (c / 8) < 8 by omega,
          show j - 8 * (c / 8) < 64 by omega, show ¬ j - 8 * (c / 8) < c % 8 by omega]
      · rw [decide_eq_false hj, Bool.false_and]
        by_cases hle : 8 * (c / 8) ≤ j
        · by_cases hlt : j - 8 * (c / 8) < 8
          · simp [show j - 8 * (c / 8) < c % 8 by omega]
          · simp [hlt]
        · simp [hle]
    by_cases hfit : 8 - c % 8 < bitCount
    · simp only [if_pos hfit]
      obtain ⟨hcounter, hbits⟩ := @fillBuffLoop_eq bits bitCount hlast bitCount
        (bitCount - (8 - c % 8)) (8 - c % 8) 0 (orByte dst (c / 8) ((bits <<< (c % 8)).setWidth 8))
        (c + (8 - c % 8)) (by omega) (by omega) (by omega)
      refine ⟨by rw [hcounter]; omega, fun j => ?_⟩
      rw [hbits j, hfirst j, Bool.or_assoc]
      congr 1
      by_cases hj : c ≤ j
      · rw [← hbit hj]
        by_cases hnext : c + (8 - c % 8) ≤ j
        · have hidx : 0 + (8 - c % 8) + (j - (c + (8 - c % 8))) = j - c := by omega
          rw [hidx]
          simp [hnext, show ¬ j < 8 * (c / 8) + 8 by omega]
        · simp [hj, hnext, show j < 8 * (c / 8) + 8 by omega]
      · simp [hj, show ¬ c + (8 - c % 8) ≤ j by omega]
    · simp only [if_neg hfit, Nat.sub_self, fillBuffLoop_zero]
      refine ⟨trivial, fun j => ?_⟩
      rw [hfirst j]
      congr 1
      by_cases hj : c ≤ j
      · rw [← hbit hj]
        by_cases hlt : j < 8 * (c / 8) + 8
        · simp [hj, hlt]
        · rw [hlast _ (by omega), Bool.and_false]
      · simp [hj]

end EspIdf.Efuse
