/-
# The names of items

Two keys are the same for `strncmp` when the names that they stand for are.
-/
import EspIdf.Nvs.Read

namespace EspIdf.Nvs

open EspIdf.Lib

/-! ### Names -/

/-- The name that a key stands for: its first fifteen characters. -/
def nameOf (key : List Byte) : List Byte := (cstr key).take maxKeyLength

lemma cstr_cons_zero (bs : List Byte) : cstr (0 :: bs) = [] := by
  rw [cstr, List.takeWhile_cons_of_neg (by decide)]

lemma cstr_cons_of_ne {b : Byte} (h : b ≠ 0) (bs : List Byte) : cstr (b :: bs) = b :: cstr bs := by
  rw [cstr, List.takeWhile_cons_of_pos (by simpa using h), cstr]

lemma strncmpEq_iff : ∀ (n : ℕ) (a b : List Byte),
    strncmpEq n a b = true ↔ (cstr a).take n = (cstr b).take n := by
  intro n
  induction n with
  | zero => intro a b; simp [strncmpEq]
  | succ n ih =>
    -- a list that has ended goes on with zeros
    have hnil : ∀ l : List Byte, cstr l = if l.headD 0 = 0 then [] else l.headD 0 :: cstr l.tail := by
      intro l
      cases l with
      | nil => rfl
      | cons x l =>
        by_cases hx : x = 0
        · rw [hx, cstr_cons_zero]
          rfl
        · rw [cstr_cons_of_ne hx, List.headD_cons, if_neg hx, List.tail_cons]
    intro a b
    rw [strncmpEq, hnil a, hnil b]
    generalize a.headD 0 = x
    generalize b.headD 0 = y
    by_cases hx : x = 0#8
    · by_cases hy : y = 0#8
      · simp [hx, hy]
      · have : ¬ 0#8 = y := fun h => hy h.symm
        simp [hx, hy, this]
    · by_cases hy : y = 0#8
      · simp [hx, hy]
      · rw [if_neg (show ¬ x = 0 from hx), if_neg (show ¬ y = 0 from hy), List.take_succ_cons,
          List.take_succ_cons, List.cons.injEq, ← ih]
        simp [hx]

lemma strncmpEq_key_iff (a b : List Byte) :
    strncmpEq maxKeyLength a b = true ↔ nameOf a = nameOf b := strncmpEq_iff _ _ _

lemma length_nameOf_le (key : List Byte) : (nameOf key).length ≤ 15 := by
  rw [nameOf, List.length_take]
  exact Nat.min_le_left _ _

lemma keyField_eq (key : List Byte) :
    keyField key = nameOf key ++ List.replicate (16 - (nameOf key).length) 0 := rfl

/-- No character of a name is zero. -/
lemma ne_zero_of_mem_nameOf {key : List Byte} {b : Byte} (hb : b ∈ nameOf key) : b ≠ 0 := by
  have hmem : b ∈ cstr key := List.mem_of_mem_take hb
  unfold cstr at hmem
  have := List.mem_takeWhile_imp hmem
  simpa using this

lemma cstr_append_zero {name : List Byte} (h : ∀ b ∈ name, b ≠ 0) (bs : List Byte) :
    cstr (name ++ 0 :: bs) = name := by
  induction name with
  | nil => exact cstr_cons_zero bs
  | cons x name ih =>
    rw [List.cons_append, cstr_cons_of_ne (h x List.mem_cons_self),
      ih fun b hb => h b (List.mem_cons_of_mem _ hb)]

/-- The name of the key field of an item. -/
@[simp] lemma nameOf_keyField (key : List Byte) : nameOf (keyField key) = nameOf key := by
  have hle := length_nameOf_le key
  obtain ⟨k, hk⟩ : ∃ k, 16 - (nameOf key).length = k + 1 := ⟨15 - (nameOf key).length, by omega⟩
  rw [nameOf, keyField_eq, hk, List.replicate_succ,
    cstr_append_zero fun b hb => ne_zero_of_mem_nameOf hb]
  exact List.take_of_length_le hle

end EspIdf.Nvs
