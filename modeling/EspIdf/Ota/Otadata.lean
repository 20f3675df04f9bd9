/-
# The OTA selection records

The boot slot is recorded in two sectors of the otadata partition, one record in each.  A
record holds a sequence number, the state of the image it selects and a checksum of the
sequence number.  The record with the larger sequence number among the valid ones is the
active one, and slot `(ota_seq - 1) % n` of `n` slots is the one that it selects.  The
functions of `bootloader_common.c` below are used by the application and by the bootloader.
-/
import EspIdf.Lib.Nor
import EspIdf.Lib.Prog

namespace EspIdf.Ota

open EspIdf.Lib

/-- `SPI_FLASH_SEC_SIZE`. -/
def secSize : ℕ := 0x1000

/-- There are two records. -/
scoped instance neZeroTwo : NeZero 2 := ⟨two_ne_zero⟩

/-! ### Image states -/

/-- `ESP_OTA_IMG_NEW`: selected, not yet booted. -/
def imgNew : BitVec 32 := 0x0#32

/-- `ESP_OTA_IMG_PENDING_VERIFY`: booted once, not yet confirmed. -/
def imgPendingVerify : BitVec 32 := 0x1#32

/-- `ESP_OTA_IMG_VALID`: confirmed. -/
def imgValid : BitVec 32 := 0x2#32

/-- `ESP_OTA_IMG_INVALID`: rejected by the application. -/
def imgInvalid : BitVec 32 := 0x3#32

/-- `ESP_OTA_IMG_ABORTED`: reset before it was confirmed. -/
def imgAborted : BitVec 32 := 0x4#32

/-- `ESP_OTA_IMG_UNDEFINED`. -/
def imgUndefined : BitVec 32 := 0xffffffff#32

/-- `UINT32_MAX`, the sequence number of an erased record. -/
def seqErased : BitVec 32 := 0xffffffff#32

/-! ### Records -/

/-- `esp_ota_select_entry_t`. -/
structure SelectEntry where
  otaSeq : BitVec 32
  seqLabel : Fin 20 → Byte
  otaState : BitVec 32
  /-- The checksum of `otaSeq`. -/
  crc : BitVec 32

/-- The record that lies at `a`. -/
def readEntry (m : Mem) (a : ℕ) : SelectEntry where
  otaSeq := m.word a
  seqLabel := fun i => m (a + 4 + i)
  otaState := m.word (a + 24)
  crc := m.word (a + 28)

/-- The bytes of a record. -/
def SelectEntry.encode (s : SelectEntry) : List Byte :=
  wordBytes s.otaSeq ++ List.ofFn s.seqLabel ++ wordBytes s.otaState ++ wordBytes s.crc

/-- The two records of the otadata partition. -/
def readTwo (m : Mem) : Fin 2 → SelectEntry := fun i => readEntry m (secSize * i)

/-- Erase the sector `i` and write a record there. -/
def storeEntry (m : Mem) (i : Fin 2) (s : SelectEntry) : Mem :=
  (m.erase (secSize * i) secSize).program (secSize * i) s.encode

/-! ### Functions shared with the bootloader -/

/-- `bootloader_common_ota_select_crc`. -/
def otaSelectCrc (s : SelectEntry) : BitVec 32 := crc32Le 0xffffffff#32 (wordBytes s.otaSeq)

/-- `bootloader_common_ota_select_invalid`. -/
def otaSelectInvalid (s : SelectEntry) : Bool :=
  s.otaSeq == seqErased || s.otaState == imgInvalid || s.otaState == imgAborted

/-- `bootloader_common_ota_select_valid`. -/
def otaSelectValid (s : SelectEntry) : Bool :=
  otaSelectInvalid s == false && s.crc == otaSelectCrc s

/-- `bootloader_common_select_otadata`. -/
def selectOtadata (two : Fin 2 → SelectEntry) (valid : Fin 2 → Bool) (max : Bool) :
    Option (Fin 2) :=
  if valid 0 && valid 1 then
    let condition :=
      if max then Nat.max (two 0).otaSeq.toNat (two 1).otaSeq.toNat
      else Nat.min (two 0).otaSeq.toNat (two 1).otaSeq.toNat
    if condition = (two 0).otaSeq.toNat then some 0 else some 1
  else if valid 0 then some 0
  else if valid 1 then some 1
  else none

/-- `bootloader_common_get_active_otadata`. -/
def getActiveOtadata (two : Fin 2 → SelectEntry) : Option (Fin 2) :=
  selectOtadata two (fun i => otaSelectValid (two i)) true

/-- `(~active) & 1`, the record that is not the active one. -/
def otherRecord (i : Fin 2) : Fin 2 := if i = 0 then 1 else 0

/-! ### Reading back what has been stored -/

variable {m : Mem} {a : ℕ} {i j : Fin 2} {s : SelectEntry}

lemma length_encode : s.encode.length = 32 := by
  simp [SelectEntry.encode]

lemma readEntry_congr {m' : Mem} (h : ∀ x, a ≤ x → x < a + 32 → m' x = m x) :
    readEntry m' a = readEntry m a := by
  have hw : ∀ b, a ≤ b → b + 4 ≤ a + 32 → m'.word b = m.word b := fun b h1 h2 =>
    Mem.word_congr fun k hk => h _ (by omega) (by omega)
  have hl : (fun k : Fin 20 => m' (a + 4 + k)) = fun k : Fin 20 => m (a + 4 + k) := by
    funext k
    exact h _ (by omega) (by omega)
  rw [readEntry, readEntry, hw a (by omega) (by omega), hw (a + 24) (by omega) (by omega),
    hw (a + 28) (by omega) (by omega), hl]

lemma word_of_erased (he : ∀ k < 4, m (a + k) = 0xff#8) : m.word a = BitVec.allOnes 32 := by
  rw [Mem.word, he 3 (by decide), he 2 (by decide), he 1 (by decide),
    show m a = 0xff#8 from he 0 (by decide)]
  decide

/-- A word that is programmed into erased cells is read back. -/
lemma word_of_programmed {w : BitVec 32} (he : ∀ k < 4, m (a + k) = 0xff#8) :
    (m.program a (wordBytes w)).word a = w := by
  rw [Mem.word_program, word_of_erased he, BitVec.allOnes_and]

/-- A record that is programmed into erased cells is read back. -/
lemma readEntry_programmed (he : ∀ k < 32, m (a + k) = 0xff#8) :
    readEntry (m.program a s.encode) a = s := by
  have hsplit : m.program a s.encode = (((m.program a (wordBytes s.otaSeq)).program (a + 4)
      (List.ofFn s.seqLabel)).program (a + 24) (wordBytes s.otaState)).program (a + 28)
        (wordBytes s.crc) := by
    rw [SelectEntry.encode, ← Mem.program_program, ← Mem.program_program,
      ← Mem.program_program]
    simp
  have h1 : (m.program a s.encode).word a = s.otaSeq := by
    rw [hsplit, Mem.word_program_of_apart (by left; omega),
      Mem.word_program_of_apart (by left; omega), Mem.word_program_of_apart (by left; omega)]
    exact word_of_programmed fun k hk => he k (by omega)
  have h2 : (m.program a s.encode).word (a + 24) = s.otaState := by
    rw [hsplit, Mem.word_program_of_apart (by left; omega)]
    apply word_of_programmed
    intro k hk
    rw [Mem.program_of_not_mem (by simp), Mem.program_of_not_mem (by simp; omega),
      Nat.add_assoc]
    exact he _ (by omega)
  have h3 : (m.program a s.encode).word (a + 28) = s.crc := by
    rw [hsplit]
    apply word_of_programmed
    intro k hk
    rw [Mem.program_of_not_mem (by simp), Mem.program_of_not_mem (by simp; omega),
      Mem.program_of_not_mem (by simp; omega), Nat.add_assoc]
    exact he _ (by omega)
  have h4 : (fun k : Fin 20 => m.program a s.encode (a + 4 + k)) = s.seqLabel := by
    funext k
    have hk := k.isLt
    rw [hsplit, Mem.program_of_not_mem (by omega), Mem.program_of_not_mem (by omega),
      Mem.program_of_erased (by simp)
        (by rw [Mem.program_of_not_mem (by simp), Nat.add_assoc]
            exact he _ (by omega))]
    rw [Nat.add_sub_cancel_left, List.getD, List.getElem?_ofFn, dif_pos hk, Option.getD_some]
  cases s with
  | mk seq label state crc =>
    simp only [readEntry] at h1 h2 h3 h4 ⊢
    rw [h1, h2, h3, h4]

/-- Storing a record replaces that record and keeps the other one. -/
lemma readTwo_storeEntry : readTwo (storeEntry m i s) = Function.update (readTwo m) i s := by
  have hsec : secSize = 4096 := rfl
  funext j
  by_cases h : j = i
  · subst h
    rw [Function.update_self]
    apply readEntry_programmed
    intro k hk
    exact Mem.erase_of_mem (by omega)
  · rw [Function.update_of_ne h]
    apply readEntry_congr
    intro x h1 h2
    have hne : (j : ℕ) ≠ i := fun h' => h (Fin.ext h')
    have hi := i.isLt
    have hj := j.isLt
    rw [hsec] at h1 h2
    rw [storeEntry, hsec, Mem.program_of_not_mem (by rw [length_encode]; omega),
      Mem.erase_of_not_mem (by omega)]

@[simp] lemma otherRecord_ne : otherRecord i ≠ i := by
  revert i
  decide

lemma eq_otherRecord_of_ne (h : j ≠ i) : j = otherRecord i := by
  revert i j
  decide

@[simp] lemma otherRecord_otherRecord : otherRecord (otherRecord i) = i := by
  revert i
  decide

/-! ### Which record is active -/

variable {two : Fin 2 → SelectEntry}

lemma getActiveOtadata_eq_none_iff :
    getActiveOtadata two = none ↔ ∀ i, otaSelectValid (two i) = false := by
  rw [Fin.forall_fin_two, getActiveOtadata, selectOtadata]
  cases h0 : otaSelectValid (two 0) <;> cases h1 : otaSelectValid (two 1)
  · simp
  · simp
  · simp
  · simp only [Bool.and_self, if_true]
    split <;> simp

/-- The active record is valid, and the other one, if it is valid, has no larger number;
with equal numbers the first record is the active one. -/
lemma getActiveOtadata_eq_some_iff :
    getActiveOtadata two = some i ↔ otaSelectValid (two i) = true ∧
      (otaSelectValid (two (otherRecord i)) = true →
        (two (otherRecord i)).otaSeq.toNat < (two i).otaSeq.toNat ∨
          ((two (otherRecord i)).otaSeq.toNat = (two i).otaSeq.toNat ∧ i = 0)) := by
  have hmax : ∀ x y : ℕ, Nat.max x y = x ↔ y ≤ x := fun x y => by
    rw [show Nat.max x y = max x y from rfl]
    omega
  revert i
  rw [Fin.forall_fin_two, getActiveOtadata, selectOtadata]
  cases h0 : otaSelectValid (two 0) <;> cases h1 : otaSelectValid (two 1)
  · simp [otherRecord, h0, h1]
  · simp [otherRecord, h0, h1]
  · simp [otherRecord, h0, h1]
  · have h01 : otherRecord 0 = 1 := rfl
    have h10 : otherRecord 1 = 0 := rfl
    simp only [Bool.and_self, if_true, hmax, h01, h10, h0, h1]
    split
    · next h => simp; omega
    · next h => simp; omega

end EspIdf.Ota
