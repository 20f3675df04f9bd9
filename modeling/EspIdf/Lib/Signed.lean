/-
# Signed machine words

An address that is stored to an `intptr_t` is negative from `2 ^ 31` on, and a negative number that
is stored to a `size_t` wraps around.
-/
import EspIdf.Lib.Nor

namespace EspIdf.Lib

/-- The value of an `intptr_t`. -/
def intptr (c : ℕ) : ℤ := if c < 2 ^ 31 then (c : ℤ) else (c : ℤ) - 2 ^ 32

/-- The value of a `size_t` that an integer is stored to. -/
def sizeT (i : ℤ) : ℕ := (i % 2 ^ 32).toNat

/-- The value of an `int16_t` that an integer is stored to. -/
def int16 (i : ℤ) : ℤ := (i + 2 ^ 15) % 2 ^ 16 - 2 ^ 15

variable {c n : ℕ}

lemma intptr_of_lt (h : c < 2 ^ 31) : intptr c = c := if_pos h

lemma intptr_of_ge (h : 2 ^ 31 ≤ c) (h' : c < 2 ^ 32) : intptr c = -(2 ^ 32 - c : ℕ) := by
  rw [intptr, if_neg (by omega)]
  omega

lemma sizeT_natCast (h : n < 2 ^ 32) : sizeT n = n := by
  rw [sizeT]
  omega

lemma sizeT_neg (h0 : 0 < n) (h : n < 2 ^ 32) : sizeT (-n) = 2 ^ 32 - n := by
  rw [sizeT]
  omega

lemma int16_of_mem {i : ℤ} (hle : -2 ^ 15 ≤ i) (hlt : i < 2 ^ 15) : int16 i = i := by
  rw [int16]
  omega

/-- A detour through a `uint16_t` changes nothing. -/
lemma int16_emod (i : ℤ) : int16 (i % 2 ^ 16) = int16 i := by
  rw [int16, int16, Int.emod_add_emod]

end EspIdf.Lib
