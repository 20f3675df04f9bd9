/-
# A NOR memory behind a block cipher

The memory holds the encryption of what is stored in it, block by block, each block under
the key of its place.  Reads go through the decryption.  Seen through it, the memory takes
blocks that are stored in an erased range as they are and keeps all the others, as a plain
NOR memory does.
-/
import EspIdf.Lib.Nor

namespace EspIdf.Lib

/-- A block of `n` bytes. -/
abbrev Block (n : ℕ) : Type := Fin n → Byte

/-- A permutation of the blocks for every place in the memory. -/
structure Cipher (n : ℕ) where
  enc : ℕ → Block n → Block n
  dec : ℕ → Block n → Block n
  dec_enc : ∀ k b, dec k (enc k b) = b
  enc_dec : ∀ k b, enc k (dec k b) = b

namespace Block

variable {n : ℕ}

/-- The first `n` bytes of a buffer. -/
def ofList (bs : List Byte) : Block n := fun i => bs.getD i 0xff#8

lemma ofList_apply (bs : List Byte) (i : Fin n) : (ofList bs : Block n) i = bs.getD i 0xff#8 := rfl

/-- Copy the bytes `bs` into a block from `p` on. -/
def patch (b : Block n) (p : ℕ) (bs : List Byte) : Block n :=
  fun i => if p ≤ i ∧ i < p + bs.length then bs.getD (i - p) 0xff#8 else b i

lemma ofList_ofFn (b : Block n) : ofList (List.ofFn b) = b := by
  funext i
  simp [ofList, List.getD]

end Block

namespace Mem

variable {n : ℕ} {m m' : Mem} {k : ℕ}

/-- The stored bytes of block `k`. -/
def block (n : ℕ) (m : Mem) (k : ℕ) : Block n := fun i => m (n * k + i)

lemma block_congr (h : ∀ i < n, m (n * k + i) = m' (n * k + i)) : m.block n k = m'.block n k :=
  funext fun i => h i i.isLt

end Mem

namespace Cipher

variable {n : ℕ} (c : Cipher n) {m m' : Mem} {k j x : ℕ} {b : Block n} {bs : List Byte}

/-- Store the block `b` at place `k`. -/
def putBlock (m : Mem) (k : ℕ) (b : Block n) : Mem := m.program (n * k) (List.ofFn (c.enc k b))

/-- The block at place `k`. -/
def plainBlock (m : Mem) (k : ℕ) : Block n := c.dec k (m.block n k)

/-- Store the first `j` blocks of `bs` from place `k` on. -/
def putBlocks (m : Mem) (k : ℕ) (bs : List Byte) : ℕ → Mem
  | 0 => m
  | j + 1 => c.putBlock (putBlocks m k bs j) (k + j) (Block.ofList (bs.drop (n * j)))

/-- What reads see. -/
def plain [NeZero n] (m : Mem) : Mem := fun x => c.plainBlock m (x / n) (Fin.ofNat n x)

lemma putBlock_of_not_mem (h : ¬ (n * k ≤ x ∧ x < n * k + n)) : c.putBlock m k b x = m x :=
  Mem.program_of_not_mem (by rwa [List.length_ofFn])

lemma putBlocks_of_not_mem (h : ¬ (n * k ≤ x ∧ x < n * (k + j))) :
    c.putBlocks m k bs j x = m x := by
  induction j with
  | zero => rfl
  | succ j ih =>
    have e : n * (k + (j + 1)) = n * (k + j) + n := by rw [← Nat.add_assoc, Nat.mul_succ]
    have hle : n * k ≤ n * (k + j) := Nat.mul_le_mul_left n (Nat.le_add_right k j)
    rw [putBlocks, c.putBlock_of_not_mem (by omega), ih (by omega)]

/-- Storing blocks and then the ones behind them stores all of them. -/
lemma putBlocks_add (i : ℕ) : c.putBlocks m k bs (j + i) =
    c.putBlocks (c.putBlocks m k bs j) (k + j) (bs.drop (n * j)) i := by
  induction i with
  | zero => rfl
  | succ i ih =>
    rw [← Nat.add_assoc, putBlocks, ih, putBlocks, List.drop_drop, Nat.add_assoc, ← Nat.mul_add]

/-- Only the stored bytes matter. -/
lemma putBlocks_congr {bs' : List Byte}
    (h : ∀ i < n * j, bs.getD i 0xff#8 = bs'.getD i 0xff#8) :
    c.putBlocks m k bs j = c.putBlocks m k bs' j := by
  induction j with
  | zero => rfl
  | succ j ih =>
    have e : n * (j + 1) = n * j + n := Nat.mul_succ n j
    have hb : (Block.ofList (bs.drop (n * j)) : Block n) = Block.ofList (bs'.drop (n * j)) := by
      funext i
      have hi := h (n * j + i) (by have := i.isLt; omega)
      simpa only [Block.ofList_apply, List.getD, List.getElem?_drop] using hi
    rw [putBlocks, putBlocks, ih fun i hi => h i (by omega), hb]

/-- The stored bytes of a block that was put into an erased place. -/
lemma block_putBlock (he : ∀ i < n, m (n * k + i) = 0xff#8) :
    (c.putBlock m k b).block n k = c.enc k b := by
  funext i
  have hi := i.isLt
  rw [Mem.block, putBlock, Mem.program_of_erased (by rw [List.length_ofFn]; omega) (he i hi),
    Nat.add_sub_cancel_left]
  simp [List.getD]

lemma plainBlock_putBlock (he : ∀ i < n, m (n * k + i) = 0xff#8) :
    c.plainBlock (c.putBlock m k b) k = b := by
  rw [plainBlock, c.block_putBlock he, c.dec_enc]

lemma plainBlock_putBlock_of_ne {l : ℕ} (h : l ≠ k) :
    c.plainBlock (c.putBlock m k b) l = c.plainBlock m l := by
  rw [plainBlock, plainBlock]
  congr 1
  apply Mem.block_congr
  intro i hi
  apply c.putBlock_of_not_mem
  rintro ⟨h1, h2⟩
  have e : n * k + n = n * (k + 1) := (Nat.mul_succ n k).symm
  rcases Nat.lt_or_gt_of_ne h with hlt | hgt
  · have := Nat.mul_le_mul_left n (show l + 1 ≤ k from hlt)
    rw [Nat.mul_succ] at this
    omega
  · have := Nat.mul_le_mul_left n (show k + 1 ≤ l from hgt)
    omega

/-- A block that is put once more where it is already stored changes nothing. -/
lemma putBlock_plainBlock (m : Mem) (k : ℕ) : c.putBlock m k (c.plainBlock m k) = m := by
  rw [putBlock, plainBlock, c.enc_dec]
  funext y
  by_cases hy : n * k ≤ y ∧ y < n * k + (List.ofFn (m.block n k)).length
  · have hy' : y - n * k < n := by rw [List.length_ofFn] at hy; omega
    rw [Mem.program_of_mem hy, List.getD, List.getElem?_ofFn, dif_pos hy', Option.getD_some,
      Mem.block, Nat.add_sub_cancel' hy.1, BitVec.and_self]
  · exact Mem.program_of_not_mem hy

/-- The blocks that were put into an erased range. -/
lemma plainBlock_putBlocks (he : ∀ y, n * k ≤ y → y < n * (k + j) → m y = 0xff#8) {i : ℕ}
    (hi : i < j) :
    c.plainBlock (c.putBlocks m k bs j) (k + i) = Block.ofList (bs.drop (n * i)) := by
  induction j with
  | zero => omega
  | succ j ih =>
    have e : n * (k + (j + 1)) = n * (k + j) + n := by rw [← Nat.add_assoc, Nat.mul_succ]
    have hle : n * k ≤ n * (k + j) := Nat.mul_le_mul_left n (Nat.le_add_right k j)
    rw [putBlocks]
    rcases Nat.lt_or_ge i j with hij | hij
    · rw [c.plainBlock_putBlock_of_ne (by omega)]
      exact ih (fun y h1 h2 => he y h1 (by omega)) hij
    · obtain rfl : i = j := by omega
      apply c.plainBlock_putBlock
      intro l hl
      rw [c.putBlocks_of_not_mem (by omega)]
      exact he _ (by omega) (by omega)

variable [NeZero n]

lemma plain_apply (x : ℕ) : c.plain m x = c.plainBlock m (x / n) (Fin.ofNat n x) := rfl

/-- What reads see of a block only depends on what is stored there. -/
lemma plain_congr (h : ∀ i < n, m (n * (x / n) + i) = m' (n * (x / n) + i)) :
    c.plain m x = c.plain m' x := by
  rw [plain_apply, plain_apply, plainBlock, plainBlock, Mem.block_congr h]

/-- Bytes that were put into an erased range. -/
theorem plain_putBlocks_of_mem (he : ∀ y, n * k ≤ y → y < n * (k + j) → m y = 0xff#8)
    (hx : n * k ≤ x ∧ x < n * (k + j)) :
    c.plain (c.putBlocks m k bs j) x = bs.getD (x - n * k) 0xff#8 := by
  have hn : 0 < n := Nat.pos_of_neZero n
  have h1 : k ≤ x / n := (Nat.le_div_iff_mul_le hn).mpr (by rw [Nat.mul_comm]; exact hx.1)
  have h2 : x / n < k + j := (Nat.div_lt_iff_lt_mul hn).mpr (by rw [Nat.mul_comm]; exact hx.2)
  obtain ⟨i, hi⟩ := Nat.exists_eq_add_of_le h1
  rw [plain_apply, hi, c.plainBlock_putBlocks he (by omega), Block.ofList_apply, List.getD,
    List.getD, List.getElem?_drop]
  have hmod := Nat.div_add_mod x n
  rw [hi, Nat.mul_add] at hmod
  rw [Fin.val_ofNat, show n * i + x % n = x - n * k by omega]

/-- Bytes outside the range. -/
theorem plain_putBlocks_of_not_mem (hx : ¬ (n * k ≤ x ∧ x < n * (k + j))) :
    c.plain (c.putBlocks m k bs j) x = c.plain m x := by
  have hn : 0 < n := Nat.pos_of_neZero n
  have hblock : (c.putBlocks m k bs j).block n (x / n) = m.block n (x / n) := by
    apply Mem.block_congr
    intro i hi
    apply c.putBlocks_of_not_mem
    rintro ⟨h1, h2⟩
    -- a block lies inside the range as soon as one of its bytes does
    have hk : k ≤ x / n := by
      have : n * k < n * (x / n + 1) := by rw [Nat.mul_succ]; omega
      exact Nat.lt_succ_iff.mp (Nat.lt_of_mul_lt_mul_left this)
    have hj : x / n < k + j :=
      Nat.lt_of_mul_lt_mul_left (Nat.lt_of_le_of_lt (Nat.le_add_right _ i) h2)
    apply hx
    have hdm := Nat.div_add_mod x n
    have hml := Nat.mod_lt x hn
    have h3 := Nat.mul_le_mul_left n hk
    have h4 := Nat.mul_le_mul_left n (show x / n + 1 ≤ k + j from hj)
    rw [Nat.mul_succ] at h4
    omega
  rw [plain_apply, plain_apply, plainBlock, plainBlock, hblock]

end Cipher

end EspIdf.Lib
