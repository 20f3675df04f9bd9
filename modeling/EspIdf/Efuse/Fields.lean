/-
# The bits of a field

A field is a list of descriptors, and each descriptor is written piece by piece, a piece being
its part in one register.  Here the loops over descriptors and registers are replaced by the
list of the pieces, and the bits of the pieces are shown to be those of the field in order.
-/
import EspIdf.Efuse.Registers

namespace EspIdf.Efuse

/-- A bit of the eFuses: block, register and number of the bit. -/
abbrev Pos := ℕ × ℕ × ℕ

def Desc.bits (d : Desc) : List Pos :=
  (List.range' d.bitStart d.bitCount).map fun n => (d.efuseBlock, n / 32, n % 32)

/-- The part of a descriptor in one register. -/
structure Piece where
  numReg : ℕ
  blk : ℕ
  bitStart : ℕ
  bitCount : ℕ

def Piece.bits (p : Piece) : List Pos :=
  (List.range' p.bitStart p.bitCount).map fun n => (p.blk, p.numReg, n)

/-- The pieces from a register on. -/
def piecesFrom (d : Desc) : ℕ → ℕ → List Piece
  | 0, _ => []
  | fuel + 1, iReg =>
    match getRegNum d.bitStart d.bitCount iReg with
    | none => []
    | some numReg =>
      { numReg := numReg
        blk := d.efuseBlock
        bitStart := getStartingBitNumInReg d.bitStart iReg
        bitCount := getCountBitsInReg d.bitStart d.bitCount iReg } :: piecesFrom d fuel (iReg + 1)

def Desc.pieces (d : Desc) : List Piece := piecesFrom d (d.bitCount + 2) 0

/-! ### The pieces of a descriptor -/

lemma countBitsLoop_eq {iReg : ℕ} : ∀ {n numBit retCount numReg : ℕ}, numReg ≤ iReg →
    countBitsLoop iReg n numBit retCount numReg =
      if iReg = numReg then if n = 0 then 0 else retCount + min n (32 - numBit % 32)
      else min (n - (32 - numBit % 32) - 32 * (iReg - numReg - 1)) 32 := by
  intro n
  induction n with
  | zero =>
    intro numBit retCount numReg _
    rw [countBitsLoop]
    split_ifs <;> omega
  | succ n ih =>
    intro numBit retCount numReg hle
    rw [countBitsLoop]
    by_cases hend : (numBit + 1) % 32 = 0 ∨ n = 0
    · rw [if_pos hend]
      by_cases hreg : iReg = numReg
      · rw [if_pos hreg, if_pos hreg, if_neg (Nat.succ_ne_zero n)]
        omega
      · rw [if_neg hreg, if_neg hreg, ih (by omega)]
        split_ifs <;> omega
    · rw [if_neg hend, ih hle, if_neg (Nat.succ_ne_zero n)]
      rw [not_or] at hend
      rw [if_neg hend.2]
      split_ifs <;> omega

/-- The number of the bit a piece begins with, counted in its block. -/
def firstBit (bitStart iReg : ℕ) : ℕ :=
  if iReg = 0 then bitStart else 32 * (bitStart / 32 + iReg)

lemma getCountBitsInReg_eq (bitStart bitCount iReg : ℕ) :
    getCountBitsInReg bitStart bitCount iReg =
      min (bitStart + bitCount) (32 * (bitStart / 32 + iReg + 1)) - firstBit bitStart iReg := by
  rw [getCountBitsInReg, countBitsLoop_eq (Nat.zero_le _), firstBit]
  split_ifs <;> omega

lemma firstBit_eq (bitStart iReg : ℕ) :
    firstBit bitStart iReg =
      32 * (iReg + bitStart / 32) + getStartingBitNumInReg bitStart iReg := by
  rw [firstBit, getStartingBitNumInReg]
  split_ifs <;> omega

lemma getStartingBitNumInReg_lt (bitStart iReg : ℕ) :
    getStartingBitNumInReg bitStart iReg < 32 := by
  rw [getStartingBitNumInReg]
  split_ifs <;> omega

/-- A piece stays in its register. -/
lemma piece_le (bitStart bitCount iReg : ℕ) :
    getStartingBitNumInReg bitStart iReg + getCountBitsInReg bitStart bitCount iReg ≤ 32 := by
  have hfirst := firstBit_eq bitStart iReg
  have hlt := getStartingBitNumInReg_lt bitStart iReg
  rw [getCountBitsInReg_eq]
  omega

/-- Numbered in their block, the bits of a piece follow each other. -/
lemma piece_bits_eq (d : Desc) (iReg : ℕ) :
    Piece.bits ⟨iReg + d.bitStart / 32, d.efuseBlock, getStartingBitNumInReg d.bitStart iReg,
        getCountBitsInReg d.bitStart d.bitCount iReg⟩ =
      (List.range' (firstBit d.bitStart iReg)
        (getCountBitsInReg d.bitStart d.bitCount iReg)).map
        fun n => (d.efuseBlock, n / 32, n % 32) := by
  have hle := piece_le d.bitStart d.bitCount iReg
  rw [Piece.bits, firstBit_eq, ← List.map_add_range', List.map_map]
  refine List.map_congr_left fun n hn => ?_
  rw [List.mem_range'_1] at hn
  have hlt : n < 32 := by
    have := hn.2
    dsimp only at this
    omega
  have hdiv : (32 * (iReg + d.bitStart / 32) + n) / 32 = iReg + d.bitStart / 32 := by omega
  have hmod : (32 * (iReg + d.bitStart / 32) + n) % 32 = n := by omega
  rw [Function.comp_apply, hdiv, hmod]

lemma piecesFrom_bits {d : Desc} : ∀ {fuel iReg : ℕ},
    d.bitStart + d.bitCount ≤ 32 * (d.bitStart / 32 + iReg + fuel) →
    (piecesFrom d fuel iReg).flatMap Piece.bits =
      (List.range' (firstBit d.bitStart iReg)
        (d.bitStart + d.bitCount - firstBit d.bitStart iReg)).map
        fun n => (d.efuseBlock, n / 32, n % 32) := by
  intro fuel
  induction fuel with
  | zero =>
    intro iReg hfuel
    have hzero : d.bitStart + d.bitCount - firstBit d.bitStart iReg = 0 := by
      rw [firstBit]
      split_ifs <;> omega
    rw [hzero]
    rfl
  | succ fuel ih =>
    intro iReg hfuel
    have hcount := getCountBitsInReg_eq d.bitStart d.bitCount iReg
    rw [piecesFrom, getRegNum]
    by_cases hend : iReg + d.bitStart / 32 > (d.bitStart + d.bitCount - 1) / 32
    · have hzero : d.bitStart + d.bitCount - firstBit d.bitStart iReg = 0 := by
        rw [firstBit]
        split_ifs <;> omega
      simp only [if_pos hend, hzero]
      rfl
    · simp only [if_neg hend]
      rw [List.flatMap_cons, piece_bits_eq, ih (by omega), ← List.map_append]
      congr 1
      have hnext : firstBit d.bitStart (iReg + 1) = 32 * (d.bitStart / 32 + iReg + 1) := by
        rw [firstBit, if_neg (Nat.succ_ne_zero _)]
        omega
      by_cases hlast : d.bitStart + d.bitCount ≤ firstBit d.bitStart (iReg + 1)
      · have hrest : d.bitStart + d.bitCount - firstBit d.bitStart (iReg + 1) = 0 := by omega
        have hall : getCountBitsInReg d.bitStart d.bitCount iReg =
            d.bitStart + d.bitCount - firstBit d.bitStart iReg := by omega
        rw [hrest, hall]
        exact List.append_nil _
      · have hfirst : firstBit d.bitStart iReg ≤ firstBit d.bitStart (iReg + 1) := by
          rw [hnext, firstBit]
          split_ifs <;> omega
        have hfull : firstBit d.bitStart (iReg + 1) = firstBit d.bitStart iReg +
            getCountBitsInReg d.bitStart d.bitCount iReg := by omega
        rw [hfull, List.range'_append_1]
        congr 1
        omega

/-- The pieces of a descriptor hold its bits in order. -/
theorem pieces_bits (d : Desc) : d.pieces.flatMap Piece.bits = d.bits := by
  have hfuel : d.bitStart + d.bitCount ≤ 32 * (d.bitStart / 32 + 0 + (d.bitCount + 2)) := by omega
  rw [Desc.pieces, piecesFrom_bits hfuel, Desc.bits]
  congr 2
  exact Nat.add_sub_cancel_left ..

end EspIdf.Efuse
