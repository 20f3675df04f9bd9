/-
# The reflected CRC-32

The register is shifted right and reduced by `0xEDB88320`; a byte is folded in through the
table of the 256 eight-step remainders.  One byte step is injective in the register, so two
inputs that share a suffix and differ in the register before it have different checksums.
-/
import Mathlib

namespace EspIdf.Lib

/-- A byte. -/
abbrev Byte : Type := BitVec 8

/-- One shift of the register. -/
def crcShift (c : BitVec 32) : BitVec 32 :=
  if c.getLsbD 0 then (c >>> 1) ^^^ 0xEDB88320#32 else c >>> 1

/-- Entry `i` of the lookup table: eight shifts of the register that starts as `i`. -/
def crc32LeTable (i : BitVec 32) : BitVec 32 :=
  crcShift (crcShift (crcShift (crcShift (crcShift (crcShift (crcShift (crcShift i)))))))

/-- Fold one byte into the register. -/
def crcByte (crc : BitVec 32) (b : Byte) : BitVec 32 :=
  crc32LeTable ((crc ^^^ b.setWidth 32) &&& 0xff#32) ^^^ (crc >>> 8)

/-- The checksum of `buf`, continued from `crc`. -/
def crc32Le (crc : BitVec 32) (buf : List Byte) : BitVec 32 :=
  ~~~ buf.foldl crcByte (~~~ crc)

example : crc32LeTable 1#32 = 0x77073096#32 := by decide
example : crc32LeTable 255#32 = 0x2d02ef8d#32 := by decide

/-! ### The register is linear, and a byte step injective -/

lemma crcShift_xor (a b : BitVec 32) : crcShift (a ^^^ b) = crcShift a ^^^ crcShift b := by
  have hsh : (a ^^^ b) >>> 1 = (a >>> 1) ^^^ (b >>> 1) := BitVec.ushiftRight_xor_distrib a b 1
  unfold crcShift
  rw [BitVec.getLsbD_xor, hsh]
  cases ha : a.getLsbD 0 <;> cases hb : b.getLsbD 0
  · simp
  · simp [BitVec.xor_assoc]
  · simp only [Bool.xor_false, if_true, Bool.false_eq_true, if_false]
    rw [BitVec.xor_assoc, BitVec.xor_comm (b >>> 1), BitVec.xor_assoc]
  · simp only [bne_self_eq_false, Bool.false_eq_true, if_false, if_true]
    rw [BitVec.xor_assoc, ← BitVec.xor_assoc 0xEDB88320#32,
      BitVec.xor_comm 0xEDB88320#32 (b >>> 1), BitVec.xor_assoc (b >>> 1), BitVec.xor_self,
      BitVec.xor_zero]

lemma crc32LeTable_xor (a b : BitVec 32) :
    crc32LeTable (a ^^^ b) = crc32LeTable a ^^^ crc32LeTable b := by
  simp only [crc32LeTable, crcShift_xor]

/-- Only entry `0` of the table has an empty top byte. -/
lemma crc32LeTable_top :
    ∀ i : Fin 256, (crc32LeTable (BitVec.ofNat 32 i)).toNat < 2 ^ 24 → i = 0 := by
  decide +kernel

lemma and_255_eq_zero_of_top {d : BitVec 32}
    (h : (crc32LeTable (d &&& 0xff#32)).toNat < 2 ^ 24) : d &&& 0xff#32 = 0#32 := by
  have hlow : d &&& 0xff#32 = BitVec.ofNat 32 (d.toNat % 256) := by
    apply BitVec.eq_of_toNat_eq
    rw [BitVec.toNat_and, BitVec.toNat_ofNat, BitVec.toNat_ofNat]
    have hmask := Nat.and_two_pow_sub_one_eq_mod d.toNat 8
    rw [show 255 % 2 ^ 32 = 2 ^ 8 - 1 from rfl, hmask]
    omega
  have hzero := crc32LeTable_top ⟨d.toNat % 256, by omega⟩ (by rw [← hlow]; exact h)
  rw [hlow, show d.toNat % 256 = 0 by simpa using congrArg Fin.val hzero]

/-- The difference of two byte steps is the step of the difference. -/
lemma crcByte_xor (c c' : BitVec 32) (b b' : Byte) :
    crcByte c b ^^^ crcByte c' b' =
      crc32LeTable ((c ^^^ c' ^^^ (b ^^^ b').setWidth 32) &&& 0xff#32) ^^^
        ((c ^^^ c') >>> 8) := by
  have hand : (c ^^^ c' ^^^ (b ^^^ b').setWidth 32) &&& 0xff#32 =
      ((c ^^^ b.setWidth 32) &&& 0xff#32) ^^^ ((c' ^^^ b'.setWidth 32) &&& 0xff#32) := by
    ext i hi
    simp only [BitVec.getElem_and, BitVec.getElem_xor, BitVec.setWidth_xor]
    cases (c)[i] <;> cases (c')[i] <;> cases (b.setWidth 32)[i] <;> cases (b'.setWidth 32)[i] <;>
      cases (0xff#32)[i] <;> rfl
  rw [hand, crc32LeTable_xor, BitVec.ushiftRight_xor_distrib, crcByte, crcByte]
  generalize crc32LeTable ((c ^^^ b.setWidth 32) &&& 0xff#32) = t
  generalize crc32LeTable ((c' ^^^ b'.setWidth 32) &&& 0xff#32) = t'
  ext i hi
  simp only [BitVec.getElem_xor]
  cases t[i] <;> cases t'[i] <;> cases (c >>> 8)[i] <;> cases (c' >>> 8)[i] <;> rfl

lemma crcByte_left_cancel {c c' : BitVec 32} {b : Byte} (h : crcByte c b = crcByte c' b) :
    c = c' := by
  have hdiff : crcByte c b ^^^ crcByte c' b = 0#32 := BitVec.xor_eq_zero_iff.mpr h
  rw [crcByte_xor, BitVec.xor_self, BitVec.setWidth_zero, BitVec.xor_zero,
    BitVec.xor_eq_zero_iff] at hdiff
  suffices hd : c ^^^ c' = 0#32 from BitVec.xor_eq_zero_iff.mp hd
  generalize c ^^^ c' = d at hdiff
  have hhigh : (d >>> 8).toNat = d.toNat / 256 := by
    rw [BitVec.toNat_ushiftRight, Nat.shiftRight_eq_div_pow]
  have hlow : d &&& 0xff#32 = 0#32 := by
    apply and_255_eq_zero_of_top
    rw [hdiff, hhigh]
    omega
  have hrest : d.toNat / 256 = 0 := by
    rw [← hhigh, ← hdiff, hlow]
    decide
  have hmask := Nat.and_two_pow_sub_one_eq_mod d.toNat 8
  have hnat : d.toNat &&& 255 = 0 := by simpa using congrArg BitVec.toNat hlow
  rw [show 2 ^ 8 - 1 = 255 from rfl, hnat] at hmask
  apply BitVec.eq_of_toNat_eq
  simp only [BitVec.toNat_ofNat]
  omega

lemma crcByte_right_cancel {c : BitVec 32} {b b' : Byte} (h : crcByte c b = crcByte c b') :
    b = b' := by
  have hdiff : crcByte c b ^^^ crcByte c b' = 0#32 := BitVec.xor_eq_zero_iff.mpr h
  rw [crcByte_xor, BitVec.xor_self, BitVec.zero_xor, BitVec.zero_ushiftRight, BitVec.xor_zero]
    at hdiff
  have hlow : (b ^^^ b').setWidth 32 &&& 0xff#32 = 0#32 := by
    apply and_255_eq_zero_of_top
    rw [hdiff]
    decide
  apply BitVec.xor_eq_zero_iff.mp
  ext i hi
  have hbit := congrArg (fun w : BitVec 32 => w.getLsbD i) hlow
  have hmask : (0xff#32).getLsbD i = true := by
    have : ∀ j : Fin 8, (0xff#32).getLsbD j = true := by decide
    exact this ⟨i, hi⟩
  simp only [BitVec.getLsbD_and, hmask, Bool.and_true, BitVec.getLsbD_setWidth,
    BitVec.getLsbD_zero] at hbit
  have hi32 : i < 32 := by omega
  simpa [hi32, hi, BitVec.getLsbD_eq_getElem hi] using hbit

end EspIdf.Lib
