/-
# Writing to encrypted flash

The ESP32 encrypts as it writes, in rows of 32 bytes that are two cipher blocks each.  Where
only one block of a row is to be written, the other one is read, decrypted and written again
with the bytes that it has.
-/
import EspIdf.Lib.Cipher

namespace EspIdf.SpiFlash

open EspIdf.Lib

/-- The bytes of an encryption block. -/
def encBlockSize : ℕ := 16

/-- `spi_flash_read_encrypted` of the block at the address `a`. -/
def readEncrypted (c : Cipher 16) (m : Mem) (a : ℕ) : List Byte :=
  List.ofFn (c.plainBlock m (a / 16))

/-- `esp_rom_spiflash_write_encrypted` of the 32 bytes of a row. -/
def romWriteEncrypted (c : Cipher 16) (m : Mem) (rowAddr : ℕ) (buf : List Byte) : Mem :=
  c.putBlocks m (rowAddr / 16) buf 2

/-- The loop of `spi_flash_write_encrypted_chip`; `left` blocks are left to be written.  Only the
first address can be the second block of a row. -/
def spiFlashWriteEncryptedChip (c : Cipher 16) (m : Mem) (a : ℕ) (src : List Byte) : ℕ → Mem
  | 0 => m
  | left + 1 =>
    if a % 32 ≠ 0 then
      -- the first block is decrypted from flash, it will encrypt to the same bytes
      let m' := romWriteEncrypted c m (a - 16) (readEncrypted c m (a - 16) ++ src.take 16)
      spiFlashWriteEncryptedChip c m' (a + 16) (src.drop 16) left
    else
      match left with
      | 0 => romWriteEncrypted c m a (src.take 16 ++ readEncrypted c m (a + 16))
      | left + 1 =>
        let m' := romWriteEncrypted c m a (src.take 32)
        spiFlashWriteEncryptedChip c m' (a + 32) (src.drop 32) left

variable (c : Cipher 16) {m : Mem} {k j : ℕ} {src : List Byte}

@[simp] lemma length_readEncrypted (a : ℕ) : (readEncrypted c m a).length = 16 :=
  List.length_ofFn

lemma ofList_readEncrypted : Block.ofList (readEncrypted c m (16 * k)) = c.plainBlock m k := by
  rw [readEncrypted, Nat.mul_div_cancel_left k (by decide), Block.ofList_ofFn]

/-- A row is its two blocks. -/
lemma romWriteEncrypted_eq (buf : List Byte) :
    romWriteEncrypted c m (16 * k) buf =
      c.putBlock (c.putBlock m k (Block.ofList buf)) (k + 1) (Block.ofList (buf.drop 16)) := by
  rw [romWriteEncrypted, Nat.mul_div_cancel_left k (by decide)]
  rfl

lemma ofList_append {n : ℕ} {bs cs : List Byte} (h : n ≤ bs.length) :
    (Block.ofList (bs ++ cs) : Block n) = Block.ofList bs := by
  funext i
  have hi : (i : ℕ) < bs.length := Nat.lt_of_lt_of_le i.isLt h
  rw [Block.ofList_apply, Block.ofList_apply, List.getD, List.getD, List.getElem?_append_left hi]

lemma ofList_take {n k : ℕ} {bs : List Byte} (h : n ≤ k) :
    (Block.ofList (bs.take k) : Block n) = Block.ofList bs := by
  funext i
  have hi : (i : ℕ) < k := Nat.lt_of_lt_of_le i.isLt h
  rw [Block.ofList_apply, Block.ofList_apply, List.getD, List.getD, List.getElem?_take_of_lt hi]

/-- Writing the second block of a row keeps the first one. -/
lemma romWrite_second (h : 0 < k) :
    romWriteEncrypted c m (16 * k - 16) (readEncrypted c m (16 * k - 16) ++ src.take 16) =
      c.putBlock m k (Block.ofList src) := by
  obtain ⟨l, rfl⟩ : ∃ l, k = l + 1 := ⟨k - 1, by omega⟩
  rw [show 16 * (l + 1) - 16 = 16 * l by omega, romWriteEncrypted_eq, ofList_append (by simp),
    ofList_readEncrypted, c.putBlock_plainBlock, List.drop_left' (by simp),
    ofList_take (Nat.le_refl 16)]

/-- Writing the first block of a row keeps the second one. -/
lemma romWrite_first (h : 16 ≤ src.length) :
    romWriteEncrypted c m (16 * k) (src.take 16 ++ readEncrypted c m (16 * k + 16)) =
      c.putBlock m k (Block.ofList src) := by
  have hlen : (src.take 16).length = 16 := by rw [List.length_take]; omega
  rw [romWriteEncrypted_eq, ofList_append (by omega), ofList_take (Nat.le_refl 16),
    List.drop_left' hlen, show 16 * k + 16 = 16 * (k + 1) by omega, ofList_readEncrypted,
    ← c.plainBlock_putBlock_of_ne (b := Block.ofList src) (show k + 1 ≠ k by omega),
    c.putBlock_plainBlock]

lemma putBlocks_one : c.putBlocks m k src 1 = c.putBlock m k (Block.ofList src) := rfl

/-- The rows of the loop store the blocks of the data one after the other. -/
theorem writeEncryptedChip_eq (h : 16 * j ≤ src.length) :
    spiFlashWriteEncryptedChip c m (16 * k) src j = c.putBlocks m k src j := by
  induction j using Nat.strongRecOn generalizing m k src with
  | _ j ih =>
    match j, ih, h with
    | 0, _, _ => rfl
    | left + 1, ih, h =>
      unfold spiFlashWriteEncryptedChip
      split
      · next hodd =>
        have hlen : 16 * left ≤ (src.drop 16).length := by rw [List.length_drop]; omega
        simp only [romWrite_second c (show 0 < k by omega)]
        rw [show 16 * k + 16 = 16 * (k + 1) by omega, ih left (by omega) hlen, Nat.add_comm left 1,
          c.putBlocks_add, putBlocks_one]
      · next heven =>
        match left, ih, h with
        | 0, _, h => exact romWrite_first c (by omega)
        | left + 1, ih, h =>
          have hlen : 16 * left ≤ (src.drop 32).length := by rw [List.length_drop]; omega
          have hrow : romWriteEncrypted c m (16 * k) (src.take 32) = c.putBlocks m k src 2 := by
            rw [romWriteEncrypted, Nat.mul_div_cancel_left k (by decide)]
            apply c.putBlocks_congr
            intro i hi
            rw [List.getD, List.getD, List.getElem?_take_of_lt hi]
          simp only [hrow]
          rw [show 16 * k + 32 = 16 * (k + 2) by omega, ih left (by omega) hlen,
            show left + 1 + 1 = 2 + left by omega, c.putBlocks_add]

end EspIdf.SpiFlash
