/-
# A table of small values packed into words

Items of `bits` bits, where `bits` divides 32, lie one after another in 32-bit words, the
first item in the lowest bits.  Setting an item changes no other item, and it only clears
bits of the word when the new value only clears bits of the old one.
-/
import Mathlib

namespace EspIdf.Lib

/-- The words of a packed table. -/
abbrev EnumTable : Type := ℕ → BitVec 32

namespace EnumTable

/-- The items of one word. -/
def itemsPerWord (bits : ℕ) : ℕ := 32 / bits

/-- The word that holds item `i`. -/
def wordIndex (bits i : ℕ) : ℕ := i / itemsPerWord bits

/-- The lowest bit of item `i` in its word. -/
def offset (bits i : ℕ) : ℕ := i % itemsPerWord bits * bits

/-- Item `i`. -/
def get {bits : ℕ} (t : EnumTable) (i : ℕ) : BitVec bits :=
  (t (wordIndex bits i) >>> offset bits i).setWidth bits

/-- Put `v` into the bits of a word from `off` on. -/
def insertBits {bits : ℕ} (w : BitVec 32) (off : ℕ) (v : BitVec bits) : BitVec 32 :=
  (w &&& ~~~ ((BitVec.allOnes bits).setWidth 32 <<< off)) ||| (v.setWidth 32 <<< off)

/-- Set item `i` to `v`. -/
def set {bits : ℕ} (t : EnumTable) (i : ℕ) (v : BitVec bits) : EnumTable :=
  fun k => if k = wordIndex bits i then insertBits (t k) (offset bits i) v else t k

variable {bits : ℕ} {t : EnumTable} {i j k : ℕ} {v : BitVec bits}

end EnumTable

end EspIdf.Lib
