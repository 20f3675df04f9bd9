/-
# Bit fields

The fields of a C bit-field structure in a word, which are counted from the least significant bit
up.
-/
import Mathlib

namespace EspIdf.Lib

variable {n w w' : ℕ}

/-- The field of `w` bits from bit `lo` on. -/
def field (x : BitVec n) (lo w : ℕ) : BitVec w :=
  x.extractLsb' lo w

/-- The word with the field of `w` bits from bit `lo` on set to `v`. -/
def setField (x : BitVec n) (lo : ℕ) (v : BitVec w) : BitVec n :=
  (x &&& ~~~((BitVec.allOnes w).setWidth n <<< lo)) ||| (v.setWidth n <<< lo)

@[simp] lemma getLsbD_field (x : BitVec n) (lo i : ℕ) :
    (field x lo w).getLsbD i = (decide (i < w) && x.getLsbD (lo + i)) := by
  simp [field]

lemma getLsbD_setField (x : BitVec n) (lo : ℕ) (v : BitVec w) {i : ℕ} (hi : i < n) :
    (setField x lo v).getLsbD i =
      if lo ≤ i ∧ i < lo + w then v.getLsbD (i - lo) else x.getLsbD i := by
  by_cases hlo : lo ≤ i
  · have hge : ¬ i < lo := by omega
    by_cases hw : i < lo + w
    · have hsw : i - lo < w := by omega
      simp [setField, hi, hlo, hge, hw, hsw]
    · have hsw : w ≤ i - lo := by omega
      simp [setField, hi, hge, hw, hsw]
  · have hlt : i < lo := by omega
    simp [setField, hi, hlo, hlt]

/-- A field holds what it was set to. -/
lemma field_setField (x : BitVec n) {lo : ℕ} (v : BitVec w) (h : lo + w ≤ n) :
    field (setField x lo v) lo w = v := by
  ext i hi
  rw [← BitVec.getLsbD_eq_getElem, ← BitVec.getLsbD_eq_getElem, getLsbD_field,
    getLsbD_setField x lo v (by omega), if_pos (by omega)]
  simp [hi]

/-- Setting a field leaves the fields next to it alone. -/
lemma field_setField_of_apart (x : BitVec n) {lo lo' : ℕ} (v : BitVec w)
    (h : lo + w ≤ lo' ∨ lo' + w' ≤ lo) : field (setField x lo v) lo' w' = field x lo' w' := by
  ext i hi
  rw [← BitVec.getLsbD_eq_getElem, ← BitVec.getLsbD_eq_getElem, getLsbD_field, getLsbD_field]
  by_cases hn : lo' + i < n
  · rw [getLsbD_setField x lo v hn, if_neg (by omega)]
  · rw [BitVec.getLsbD_of_ge _ _ (by omega), BitVec.getLsbD_of_ge _ _ (by omega)]

/-- Only the last value of a field counts. -/
lemma setField_setField (x : BitVec n) (lo : ℕ) (v v' : BitVec w) :
    setField (setField x lo v) lo v' = setField x lo v' := by
  ext i hi
  rw [← BitVec.getLsbD_eq_getElem, ← BitVec.getLsbD_eq_getElem, getLsbD_setField _ lo v' hi,
    getLsbD_setField _ lo v' hi, getLsbD_setField _ lo v hi]
  split_ifs <;> rfl

lemma setField_comm (x : BitVec n) {lo lo' : ℕ} (v : BitVec w) (v' : BitVec w')
    (h : lo + w ≤ lo' ∨ lo' + w' ≤ lo) :
    setField (setField x lo v) lo' v' = setField (setField x lo' v') lo v := by
  ext i hi
  simp only [← BitVec.getLsbD_eq_getElem, getLsbD_setField _ _ _ hi]
  split_ifs <;> first | rfl | omega

end EspIdf.Lib
