/-
# A byte-addressed NOR memory

Erasing sets every bit of a range; programming can only clear bits.  A range that has just
been erased takes the programmed bytes as they are, and an access leaves every address
outside its range alone.  Numbers are stored little-endian in 32-bit words.
-/
import EspIdf.Lib.Crc32

namespace EspIdf.Lib

/-- The contents of a memory. -/
abbrev Mem : Type := ℕ → Byte

namespace Mem

/-- Erase `n` bytes from `a` on. -/
def erase (m : Mem) (a n : ℕ) : Mem :=
  fun x => if a ≤ x ∧ x < a + n then 0xff#8 else m x

/-- Program the bytes `bs` from `a` on. -/
def program (m : Mem) (a : ℕ) (bs : List Byte) : Mem :=
  fun x => if a ≤ x ∧ x < a + bs.length then m x &&& bs.getD (x - a) 0xff#8 else m x

/-- Read `n` bytes from `a` on. -/
def read (m : Mem) (a n : ℕ) : List Byte := (List.range n).map fun i => m (a + i)

variable {m m' : Mem} {a n x : ℕ} {bs : List Byte}

lemma erase_of_mem (h : a ≤ x ∧ x < a + n) : m.erase a n x = 0xff#8 := if_pos h

lemma erase_of_not_mem (h : ¬ (a ≤ x ∧ x < a + n)) : m.erase a n x = m x := if_neg h

lemma program_of_mem (h : a ≤ x ∧ x < a + bs.length) :
    m.program a bs x = m x &&& bs.getD (x - a) 0xff#8 := if_pos h

lemma program_of_not_mem (h : ¬ (a ≤ x ∧ x < a + bs.length)) : m.program a bs x = m x :=
  if_neg h

/-- Programming an erased cell stores the byte. -/
lemma program_of_erased (h : a ≤ x ∧ x < a + bs.length) (he : m x = 0xff#8) :
    m.program a bs x = bs.getD (x - a) 0xff#8 := by
  rw [program_of_mem h, he]
  exact BitVec.allOnes_and

@[simp] lemma length_read : (m.read a n).length = n := by simp [read]

lemma getD_read {i : ℕ} (hi : i < n) (d : Byte) : (m.read a n).getD i d = m (a + i) := by
  simp [read, List.getD, hi]

/-- A read only depends on the range it reads. -/
lemma read_congr {b : ℕ} (h : ∀ i < n, m (a + i) = m' (b + i)) : m.read a n = m'.read b n := by
  apply List.map_congr_left
  intro i hi
  exact h i (List.mem_range.mp hi)

lemma read_eq_of_getD (hl : bs.length = n) (h : ∀ i < n, m (a + i) = bs.getD i 0xff#8) :
    m.read a n = bs := by
  apply List.ext_getElem (by simp [hl])
  intro i hi hi'
  have hin : i < n := by simpa using hi
  have := h i hin
  simp only [read, List.getElem_map, List.getElem_range]
  rw [this, List.getD, List.getElem?_eq_getElem hi', Option.getD_some]

lemma read_append (k : ℕ) : m.read a (n + k) = m.read a n ++ m.read (a + n) k := by
  simp only [read, List.range_add, List.map_append, List.map_map]
  congr 1
  apply List.map_congr_left
  intro i _
  simp [Nat.add_assoc]

lemma take_read {k : ℕ} (h : k ≤ n) : (m.read a n).take k = m.read a k := by
  obtain ⟨j, rfl⟩ := Nat.exists_eq_add_of_le h
  rw [read_append, List.take_left' (by simp)]

lemma drop_read {k : ℕ} (h : k ≤ n) : (m.read a n).drop k = m.read (a + k) (n - k) := by
  obtain ⟨j, rfl⟩ := Nat.exists_eq_add_of_le h
  rw [read_append, List.drop_left' (by simp), Nat.add_sub_cancel_left]

lemma erase_zero : m.erase a 0 = m := by
  funext y
  exact erase_of_not_mem (by omega)

/-- Erasing a range and then the next one erases both. -/
lemma erase_erase (k : ℕ) : (m.erase a n).erase (a + n) k = m.erase a (n + k) := by
  funext y
  unfold erase
  split <;> split <;> first | rfl | omega | split <;> first | rfl | omega

/-- Programming a range and then the next one programs both. -/
lemma program_program (bs cs : List Byte) :
    (m.program a bs).program (a + bs.length) cs = m.program a (bs ++ cs) := by
  funext y
  by_cases hb : a ≤ y ∧ y < a + bs.length
  · rw [program_of_not_mem (by omega), program_of_mem hb,
      program_of_mem (by rw [List.length_append]; omega), List.getD, List.getD,
      List.getElem?_append_left (by omega)]
  · by_cases hc : a + bs.length ≤ y ∧ y < a + bs.length + cs.length
    · rw [program_of_mem hc, program_of_not_mem hb,
        program_of_mem (by rw [List.length_append]; omega),
        List.getD, List.getD, List.getElem?_append_right (by omega), Nat.sub_sub]
    · rw [program_of_not_mem hc, program_of_not_mem hb,
        program_of_not_mem (by rw [List.length_append]; omega)]

/-- Bytes that are read and then programmed into an erased range of the same memory are
copied there. -/
lemma program_read_erased {m₀ : Mem} {b : ℕ} (hx : b ≤ x ∧ x < b + n) (he : m x = 0xff#8) :
    m.program b (m₀.read a n) x = m₀ (a + (x - b)) := by
  rw [program_of_erased (by simpa using hx) he, getD_read (by omega)]

end Mem

/-! ### Little-endian words -/

/-- The value of a `uint32_t` computation. -/
def u32 (n : ℕ) : ℕ := n % 2 ^ 32

/-- Subtraction of `uint32_t` values. -/
def u32Sub (a b : ℕ) : ℕ := (a + (2 ^ 32 - b % 2 ^ 32)) % 2 ^ 32

lemma u32_of_lt {n : ℕ} (h : n < 2 ^ 32) : u32 n = n := Nat.mod_eq_of_lt h

lemma u32_lt (n : ℕ) : u32 n < 2 ^ 32 := Nat.mod_lt _ (by decide)

lemma u32Sub_of_le {a b : ℕ} (ha : a < 2 ^ 32) (h : b ≤ a) : u32Sub a b = a - b := by
  unfold u32Sub; omega

/-- The four bytes of a word. -/
def le32 (n : ℕ) : List Byte :=
  [BitVec.ofNat 8 n, BitVec.ofNat 8 (n / 2 ^ 8), BitVec.ofNat 8 (n / 2 ^ 16),
    BitVec.ofNat 8 (n / 2 ^ 24)]

/-- The number that bytes stand for. -/
def leVal : List Byte → ℕ
  | [] => 0
  | b :: bs => b.toNat + 256 * leVal bs

@[simp] lemma length_le32 (n : ℕ) : (le32 n).length = 4 := rfl

lemma leVal_le32 {n : ℕ} (h : n < 2 ^ 32) : leVal (le32 n) = n := by
  simp only [le32, leVal, BitVec.toNat_ofNat]
  omega

lemma leVal_lt (bs : List Byte) : leVal bs < 256 ^ bs.length := by
  induction bs with
  | nil => exact Nat.one_pos
  | cons b bs ih =>
    have hb := b.isLt
    rw [leVal, List.length_cons, Nat.pow_succ]
    omega

/-- Two words whose checksums from the same register agree are not an even number and its
successor: they differ in the first byte only. -/
lemma crc32Le_le32_ne {n : ℕ} (h : n % 2 = 0) (c : BitVec 32) :
    crc32Le c (le32 n) ≠ crc32Le c (le32 (n + 1)) := by
  intro heq
  have h8 : (n + 1) / 2 ^ 8 = n / 2 ^ 8 := by omega
  have h16 : (n + 1) / 2 ^ 16 = n / 2 ^ 16 := by omega
  have h24 : (n + 1) / 2 ^ 24 = n / 2 ^ 24 := by omega
  simp only [crc32Le, le32, h8, h16, h24, List.foldl_cons, List.foldl_nil] at heq
  have h3 : BitVec.ofNat 8 n = BitVec.ofNat 8 (n + 1) :=
    crcByte_right_cancel (crcByte_left_cancel (crcByte_left_cancel (crcByte_left_cancel
      (BitVec.not_inj.mp heq))))
  have h4 := congrArg BitVec.toNat h3
  simp only [BitVec.toNat_ofNat] at h4
  omega

/-! ### Words of a memory -/

/-- The four bytes of a word, the lowest one first. -/
def wordBytes (w : BitVec 32) : List Byte :=
  [w.extractLsb' 0 8, w.extractLsb' 8 8, w.extractLsb' 16 8, w.extractLsb' 24 8]

@[simp] lemma length_wordBytes (w : BitVec 32) : (wordBytes w).length = 4 := rfl

/-- A word is put together from its bytes. -/
lemma word_eq_bytes (w : BitVec 32) :
    w = w.extractLsb' 24 8 ++ w.extractLsb' 16 8 ++ w.extractLsb' 8 8 ++ w.extractLsb' 0 8 := by
  apply BitVec.eq_of_getLsbD_eq
  intro i hi
  simp only [BitVec.getLsbD_append, BitVec.getLsbD_extractLsb']
  by_cases h8 : i < 8
  · simp [h8]
  · by_cases h16 : i < 16
    · have e1 : 8 + (i - 8) = i := by omega
      simp [h8, e1, show i - 8 < 8 by omega]
    · by_cases h24 : i < 24
      · have e1 : 16 + (i - 8 - 8) = i := by omega
        simp [h8, e1, show ¬ i - 8 < 8 by omega, show i - 8 - 8 < 8 by omega]
      · have e1 : 24 + (i - 8 - 8 - 8) = i := by omega
        simp [h8, e1, show ¬ i - 8 < 8 by omega, show ¬ i - 8 - 8 < 8 by omega,
          show i - 8 - 8 - 8 < 8 by omega]

namespace Mem

variable {m m' : Mem} {a b : ℕ}

/-- The word at `a`. -/
def word (m : Mem) (a : ℕ) : BitVec 32 := m (a + 3) ++ m (a + 2) ++ m (a + 1) ++ m a

lemma word_congr (h : ∀ i < 4, m' (a + i) = m (a + i)) : m'.word a = m.word a := by
  rw [word, word, h 3 (by decide), h 2 (by decide), h 1 (by decide)]
  rw [show m' a = m a from h 0 (by decide)]

/-- Programming a word clears the bits that are not set in it. -/
lemma word_program (w : BitVec 32) : (m.program a (wordBytes w)).word a = m.word a &&& w := by
  have hbyte : ∀ i < 4, m.program a (wordBytes w) (a + i) =
      m (a + i) &&& (wordBytes w).getD i 0xff#8 := by
    intro i hi
    rw [program_of_mem (by rw [length_wordBytes]; omega), Nat.add_sub_cancel_left]
  rw [word, word, hbyte 3 (by decide), hbyte 2 (by decide), hbyte 1 (by decide),
    show m.program a (wordBytes w) a = m a &&& (wordBytes w).getD 0 0xff#8 from hbyte 0 (by decide)]
  conv_rhs => rw [word_eq_bytes w]
  simp only [wordBytes, List.getD_cons_zero, List.getD_cons_succ]
  apply BitVec.eq_of_getLsbD_eq
  intro i _
  simp only [BitVec.getLsbD_append, BitVec.getLsbD_and]
  by_cases h8 : i < 8
  · simp only [if_pos h8]
  · by_cases h16 : i - 8 < 8
    · simp only [if_neg h8, if_pos h16]
    · by_cases h24 : i - 8 - 8 < 8
      · simp only [if_neg h8, if_neg h16, if_pos h24]
      · simp only [if_neg h8, if_neg h16, if_neg h24]

lemma word_program_of_apart {bs : List Byte} (h : b + 4 ≤ a ∨ a + bs.length ≤ b) :
    (m.program a bs).word b = m.word b :=
  word_congr fun i hi => program_of_not_mem (by omega)

end Mem

end EspIdf.Lib
