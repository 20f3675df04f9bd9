/-
# Verified writes to encrypted flash

With `CONFIG_SPI_FLASH_VERIFY_WRITE`, `spi_flash_write_encrypted` writes pieces of 64 bytes and
reads each one back through the decryption.  The flash is whatever answers the calls: an access
may fail, and it may leave or deliver any bytes.
-/
import EspIdf.SpiFlash.Encrypted

namespace EspIdf.SpiFlash

open EspIdf.Lib

/-! ### The calls of the flash -/

/-- `esp_rom_spiflash_result_t`. -/
inductive RomResult where
  | ok
  | err
  | timeout
deriving DecidableEq, Repr

/-- The number of the result, which is also what it is as an `esp_err_t`. -/
def RomResult.code : RomResult → ℤ
  | ok => 0
  | err => 1
  | timeout => 2

/-- `ESP_OK`. -/
def espOk : ℤ := 0
/-- `ESP_FAIL`. -/
def espFail : ℤ := -1
/-- `ESP_ERR_INVALID_ARG`. -/
def espErrInvalidArg : ℤ := 0x102
/-- `ESP_ERR_INVALID_SIZE`. -/
def espErrInvalidSize : ℤ := 0x104
/-- `ESP_ERR_FLASH_OP_FAIL`. -/
def espErrFlashOpFail : ℤ := 0x6001
/-- `ESP_ERR_FLASH_OP_TIMEOUT`. -/
def espErrFlashOpTimeout : ℤ := 0x6002

/-- `spi_flash_translate_rc`. -/
def spiFlashTranslateRc : RomResult → ℤ
  | .ok => espOk
  | .timeout => espErrFlashOpTimeout
  | .err => espErrFlashOpFail

/-- How a decrypting read ends: its result, what the buffer of `n` bytes holds then, and the
state. -/
structure ReadAnswer (σ : Type) (n : ℕ) where
  err : ℤ
  buf : List.Vector Byte n
  state : σ

/-- How the calls of the flash answer, and what they do to its state. -/
structure Flash (σ : Type) where
  /-- `spi_flash_unlock`. -/
  unlock : σ → RomResult × σ
  /-- `spi_flash_read` of `n` bytes at an address, into a buffer that nothing reads. -/
  read : σ → ℕ → ℕ → ℤ × σ
  /-- `spi_flash_read_encrypted` of `n` bytes at an address; where the call fails the buffer may
  hold anything. -/
  readEncrypted : σ → ℕ → (n : ℕ) → ReadAnswer σ n
  /-- `esp_rom_spiflash_write_encrypted` of a row. -/
  writeEncrypted : σ → ℕ → List Byte → RomResult × σ

variable {σ : Type}

/-! ### The functions -/

/-- `n` bytes of the source from the offset `i` on. -/
def slice (src : List Byte) (i n : ℕ) : List Byte := (src.drop i).take n

/-- An address as a `uint32_t`. -/
def addr (destAddr i : ℕ) : ℕ := (destAddr + i) % 2 ^ 32

/-- `spi_flash_write_encrypted_chip` from the offset `i` on, with `left` blocks left to be
written.  The result of `spi_flash_read_encrypted` is not looked at. -/
def writeRows (f : Flash σ) (destAddr : ℕ) (src : List Byte) : ℕ → ℕ → σ → RomResult × σ
  | _, 0, s => (.ok, s)
  | i, left + 1, s =>
    let rowAddr := addr destAddr i
    if i = 0 ∧ rowAddr % 32 ≠ 0 then
      let first := f.readEncrypted s (rowAddr - 16) 16
      match f.writeEncrypted first.state (rowAddr - 16) (first.buf.toList ++ slice src i 16) with
      | (.ok, s) => writeRows f destAddr src (i + 16) left s
      | stop => stop
    else
      match left with
      | 0 =>
        let second := f.readEncrypted s (rowAddr + 16) 16
        f.writeEncrypted second.state rowAddr (slice src i 16 ++ second.buf.toList)
      | left + 1 =>
        match f.writeEncrypted s rowAddr (slice src i 32) with
        | (.ok, s) => writeRows f destAddr src (i + 32) left s
        | stop => stop

/-- `spi_flash_write_encrypted_chip`. -/
def writeEncryptedChip (f : Flash σ) (destAddr : ℕ) (src : List Byte) (s : σ) : RomResult × σ :=
  writeRows f destAddr src 0 (src.length / 16) s

/-- What was read back: addresses and the bytes that the decryption gave there. -/
abbrev ReadBacks : Type := List (ℕ × List Byte)

/-- `ESP_ROM_SPIFLASH_BUFF_BYTE_READ_NUM`. -/
def buffByteReadNum : ℕ := 64

/-- The piece of the source that the iteration at the offset `i` writes. -/
def piece (src : List Byte) (i : ℕ) : List Byte := slice src i buffByteReadNum

/-- How the writing of the source, or of a piece, ends. -/
structure Written (σ : Type) where
  err : ℤ
  readBack : ReadBacks
  state : σ

/-- An iteration of the loop, with the error that it breaks with. -/
def verifyPiece (f : Flash σ) (a : ℕ) (bs : List Byte) (s : σ) : Written σ :=
  let before := f.read s a bs.length
  if before.1 ≠ espOk then ⟨before.1, [], before.2⟩
  else
    let after := writeEncryptedChip f a bs before.2
    if after.1.code ≠ espOk then ⟨after.1.code, [], after.2⟩
    else
      let read := f.readEncrypted after.2 a bs.length
      if read.err ≠ espOk then ⟨read.err, [], read.state⟩
      else
        let err := if bs = read.buf.toList then read.err else espFail
        ⟨err, [(a, read.buf.toList)], read.state⟩

/-- The loop at the offset `i` with `n` iterations to go.  An iteration declares an `err` of its
own, so that nothing is left of its error where the loop breaks. -/
def verifyLoop (f : Flash σ) (destAddr : ℕ) (src : List Byte) : ℕ → ℕ → σ → ReadBacks × σ
  | _, 0, s => ([], s)
  | i, n + 1, s =>
    let done := verifyPiece f (addr destAddr i) (piece src i) s
    if done.err ≠ espOk then (done.readBack, done.state)
    else
      let rest := verifyLoop f destAddr src (i + buffByteReadNum) n done.state
      (done.readBack ++ rest.1, rest.2)

/-- The iterations that the source takes. -/
def pieceCount (src : List Byte) : ℕ := (src.length + (buffByteReadNum - 1)) / buffByteReadNum

/-- `spi_flash_write_encrypted`, where `safe` is the check of `CHECK_WRITE_ADDRESS`. -/
def spiFlashWriteEncrypted (f : Flash σ) (safe : ℕ → ℕ → Bool) (destAddr : ℕ) (src : List Byte)
    (s : σ) : Written σ :=
  if safe destAddr src.length = false then ⟨espErrInvalidArg, [], s⟩
  else if destAddr % 16 ≠ 0 then ⟨espErrInvalidArg, [], s⟩
  else if src.length % 16 ≠ 0 then ⟨espErrInvalidSize, [], s⟩
  else
    let unlocked := f.unlock s
    let err := spiFlashTranslateRc unlocked.1
    if err ≠ espOk then ⟨err, [], unlocked.2⟩
    else
      let done := verifyLoop f destAddr src 0 (pieceCount src) unlocked.2
      ⟨err, done.1, done.2⟩

/-! ### What a call should report -/

/-- The pieces of the source with their addresses, from the offset `i` on. -/
def pieces (destAddr : ℕ) (src : List Byte) : ℕ → ℕ → ReadBacks
  | _, 0 => []
  | i, n + 1 =>
    (addr destAddr i, piece src i) :: pieces destAddr src (i + buffByteReadNum) n

/-- `ESP_OK` is returned only if every piece was read back equal to the source. -/
def Honest (destAddr : ℕ) (src : List Byte) (w : Written σ) : Prop :=
  w.err = espOk → w.readBack = pieces destAddr src 0 (pieceCount src)

/-- Each row is programmed without an error. -/
def RowsTaken (f : Flash σ) (destAddr : ℕ) (src : List Byte) : ℕ → ℕ → σ → Prop
  | _, 0, _ => True
  | i, left + 1, s =>
    let rowAddr := addr destAddr i
    if i = 0 ∧ rowAddr % 32 ≠ 0 then
      let first := f.readEncrypted s (rowAddr - 16) 16
      let row := f.writeEncrypted first.state (rowAddr - 16) (first.buf.toList ++ slice src i 16)
      row.1 = .ok ∧ RowsTaken f destAddr src (i + 16) left row.2
    else
      match left with
      | 0 =>
        let second := f.readEncrypted s (rowAddr + 16) 16
        (f.writeEncrypted second.state rowAddr (slice src i 16 ++ second.buf.toList)).1 = .ok
      | left + 1 =>
        let row := f.writeEncrypted s rowAddr (slice src i 32)
        row.1 = .ok ∧ RowsTaken f destAddr src (i + 32) left row.2

/-- The flash takes the piece: no access fails, and the decryption gives back what was written. -/
def Takes (f : Flash σ) (a : ℕ) (bs : List Byte) (s : σ) : Prop :=
  let before := f.read s a bs.length
  let after := writeEncryptedChip f a bs before.2
  let read := f.readEncrypted after.2 a bs.length
  before.1 = espOk ∧ RowsTaken f a bs 0 (bs.length / 16) before.2 ∧ read.err = espOk ∧
    read.buf.toList = bs

/-- The state behind the three accesses of a piece. -/
def afterPiece (f : Flash σ) (a : ℕ) (bs : List Byte) (s : σ) : σ :=
  (f.readEncrypted (writeEncryptedChip f a bs (f.read s a bs.length).2).2 a bs.length).state

/-- The flash takes one piece after the other. -/
def TakesAll (f : Flash σ) (destAddr : ℕ) (src : List Byte) : ℕ → ℕ → σ → Prop
  | _, 0, _ => True
  | i, n + 1, s =>
    Takes f (addr destAddr i) (piece src i) s ∧
      TakesAll f destAddr src (i + buffByteReadNum) n
        (afterPiece f (addr destAddr i) (piece src i) s)

variable {f : Flash σ} {destAddr : ℕ} {src : List Byte}

/-- The rows that follow a programmed one. -/
lemma fst_match_ok {rs : RomResult × σ} {next : σ → RomResult × σ} {P : σ → Prop}
    (h : ∀ s, (next s).1 = .ok ↔ P s) :
    (match rs with
      | (.ok, s) => next s
      | stop => stop).1 = .ok ↔ rs.1 = .ok ∧ P rs.2 := by
  rcases rs with ⟨rc, s⟩
  cases rc <;> simp [h]

lemma writeRows_fst (i left : ℕ) (s : σ) :
    (writeRows f destAddr src i left s).1 = .ok ↔ RowsTaken f destAddr src i left s := by
  induction left using Nat.strongRecOn generalizing i s with
  | _ left ih =>
    rcases left with _ | _ | left
    · simp [writeRows, RowsTaken]
    · unfold writeRows RowsTaken
      dsimp only
      split
      · exact fst_match_ok (ih 0 (by omega) (i + 16))
      · exact Iff.rfl
    · unfold writeRows RowsTaken
      dsimp only
      split
      · exact fst_match_ok (ih (left + 1) (by omega) (i + 16))
      · exact fst_match_ok (ih left (by omega) (i + 32))

lemma code_eq_ok (rc : RomResult) : rc.code = espOk ↔ rc = .ok := by cases rc <;> decide

/-- An iteration ends without an error exactly if the flash takes the piece. -/
lemma verifyPiece_err (a : ℕ) (bs : List Byte) (s : σ) :
    (verifyPiece f a bs s).err = espOk ↔ Takes f a bs s := by
  have hfail : espFail ≠ espOk := by decide
  simp only [verifyPiece, Takes]
  rw [← writeRows_fst, ← writeEncryptedChip]
  generalize f.read s a bs.length = before
  generalize writeEncryptedChip f a bs before.2 = after
  generalize f.readEncrypted after.2 a bs.length = read
  split_ifs with hb hw hr hd
  · exact iff_of_false hb fun h => hb h.1
  · exact iff_of_false hw fun h => hw ((code_eq_ok _).mpr h.2.1)
  · exact iff_of_false hr fun h => hr h.2.2.1
  · rw [not_not] at hb hw hr
    exact iff_of_true hr ⟨hb, (code_eq_ok _).mp hw, hr, hd.symm⟩
  · exact iff_of_false hfail fun h => hd h.2.2.2.symm

/-- What an iteration does when the flash takes the piece. -/
lemma verifyPiece_of_takes {a : ℕ} {bs : List Byte} {s : σ} (h : Takes f a bs s) :
    verifyPiece f a bs s = ⟨espOk, [(a, bs)], afterPiece f a bs s⟩ := by
  obtain ⟨hb, hw, hr, hd⟩ := h
  rw [← writeRows_fst, ← writeEncryptedChip, ← code_eq_ok] at hw
  simp only [verifyPiece, afterPiece]
  rw [if_neg (not_not.mpr hb), if_neg (not_not.mpr hw), if_neg (not_not.mpr hr), hd, if_pos rfl, hr]

/-- An iteration that breaks has read back at most one piece, and not what was written. -/
lemma verifyPiece_readBack {a : ℕ} {bs : List Byte} {s : σ} (h : ¬ Takes f a bs s) :
    (verifyPiece f a bs s).readBack = [] ∨
      ∃ bs', bs' ≠ bs ∧ (verifyPiece f a bs s).readBack = [(a, bs')] := by
  rw [← verifyPiece_err] at h
  revert h
  simp only [verifyPiece]
  split_ifs with hb hw hr hd
  · exact fun _ => .inl rfl
  · exact fun _ => .inl rfl
  · exact fun _ => .inl rfl
  · exact fun h => absurd (not_not.mp hr) h
  · exact fun _ => .inr ⟨_, Ne.symm hd, rfl⟩

/-! ### The loop -/

lemma verifyLoop_of_takes {i n : ℕ} {s : σ} (h : Takes f (addr destAddr i) (piece src i) s) :
    verifyLoop f destAddr src i (n + 1) s =
      let rest := verifyLoop f destAddr src (i + buffByteReadNum) n
        (afterPiece f (addr destAddr i) (piece src i) s)
      ((addr destAddr i, piece src i) :: rest.1, rest.2) := by
  rw [verifyLoop]
  simp only [verifyPiece_of_takes h]
  exact if_neg (not_not.mpr rfl)

lemma verifyLoop_of_not_takes {i n : ℕ} {s : σ}
    (h : ¬ Takes f (addr destAddr i) (piece src i) s) :
    verifyLoop f destAddr src i (n + 1) s =
      ((verifyPiece f (addr destAddr i) (piece src i) s).readBack,
        (verifyPiece f (addr destAddr i) (piece src i) s).state) := by
  rw [verifyLoop]
  exact if_pos (mt (verifyPiece_err _ _ _).mp h)

/-- The loop reads all the pieces back exactly if the flash takes all of them. -/
lemma verifyLoop_fst (i n : ℕ) (s : σ) :
    (verifyLoop f destAddr src i n s).1 = pieces destAddr src i n ↔
      TakesAll f destAddr src i n s := by
  induction n generalizing i s with
  | zero => simp [verifyLoop, pieces, TakesAll]
  | succ n ih =>
    rw [pieces, TakesAll]
    by_cases h : Takes f (addr destAddr i) (piece src i) s
    · rw [verifyLoop_of_takes h]
      simp [h, ih]
    · rw [verifyLoop_of_not_takes h]
      refine iff_of_false ?_ (fun hall => h hall.1)
      intro hback
      rcases verifyPiece_readBack h with h0 | ⟨bs', hne, h1⟩
      · simp [h0] at hback
      · simp only [h1, List.cons.injEq, Prod.mk.injEq] at hback
        exact hne hback.1.2

lemma spiFlashTranslateRc_ok {rc : RomResult} : spiFlashTranslateRc rc = espOk ↔ rc = .ok := by
  cases rc <;> decide

/-- A call reports the truth exactly if it is refused, or the flash takes every piece. -/
lemma honest_iff (safe : ℕ → ℕ → Bool) (s : σ) (hd : destAddr % 16 = 0)
    (hs : src.length % 16 = 0) :
    Honest destAddr src (spiFlashWriteEncrypted f safe destAddr src s) ↔
      safe destAddr src.length = false ∨ (f.unlock s).1 ≠ .ok ∨
        TakesAll f destAddr src 0 (pieceCount src) (f.unlock s).2 := by
  have hne : espErrInvalidArg ≠ espOk := by decide
  unfold Honest spiFlashWriteEncrypted
  rw [if_neg (not_not.mpr hd), if_neg (not_not.mpr hs), ← verifyLoop_fst]
  cases hsafe : safe destAddr src.length with
  | false => simp [hne]
  | true =>
    by_cases hrc : (f.unlock s).1 = .ok
    · simp [hrc, spiFlashTranslateRc]
    · have he := mt spiFlashTranslateRc_ok.mp hrc
      simp [hrc, he]

/-! ### A flash that works -/

/-- A block of the cipher has 16 bytes. -/
scoped instance neZeroBlock : NeZero 16 := ⟨by decide⟩

/-- `n` bytes as the decryption shows them. -/
def plainRead (c : Cipher 16) (m : Mem) (a n : ℕ) : List.Vector Byte n :=
  ⟨(c.plain m).read a n, Mem.length_read⟩

/-- A flash chip of `size` bytes behind the cipher `c` that takes every access to it. -/
def workingChip (c : Cipher 16) (size : ℕ) : Flash Mem where
  unlock m := (.ok, m)
  read m a n := (if size < a + n then espErrInvalidSize else espOk, m)
  readEncrypted m a n :=
    ⟨if size < a + n then espErrInvalidSize else espOk, plainRead c m a n, m⟩
  writeEncrypted m a row := (if size < a + 32 then .err else .ok, romWriteEncrypted c m a row)

variable {c : Cipher 16} {size : ℕ} {m : Mem}

lemma plainRead_block (k : ℕ) :
    (plainRead c m (16 * k) 16).toList = readEncrypted c m (16 * k) := by
  apply Mem.read_eq_of_getD (length_readEncrypted c (16 * k))
  intro i hi
  rw [Cipher.plain_apply, readEncrypted, Nat.mul_div_cancel_left k (by decide),
    show (16 * k + i) / 16 = k by omega, List.getD, List.getElem?_ofFn, dif_pos hi,
    Option.getD_some]
  congr 1
  apply Fin.ext
  rw [Fin.val_ofNat]
  show (16 * k + i) % 16 = i
  omega

lemma addr_of_lt {i : ℕ} (h : destAddr + i < 2 ^ 32) : addr destAddr i = destAddr + i :=
  Nat.mod_eq_of_lt h

/-- On a working chip the rows are written one after the other. -/
lemma writeRows_working (hrows : size % 32 = 0) (hsize : size ≤ 2 ^ 32) (hd : destAddr % 16 = 0)
    {i left : ℕ} (hi : i % 16 = 0) (hrow : i = 0 ∨ (destAddr + i) % 32 = 0)
    (hin : destAddr + i + 16 * left ≤ size) :
    writeRows (workingChip c size) destAddr src i left m =
      (.ok, spiFlashWriteEncryptedChip c m (destAddr + i) (src.drop i) left) := by
  induction left using Nat.strongRecOn generalizing i m with
  | _ left ih =>
    rcases left with _ | left
    · rfl
    · have haddr : addr destAddr i = destAddr + i := addr_of_lt (by omega)
      have hdrop (n : ℕ) : (src.drop i).drop n = src.drop (i + n) := List.drop_drop
      obtain ⟨k, hk⟩ : ∃ k, destAddr + i = 16 * k := ⟨(destAddr + i) / 16, by omega⟩
      unfold writeRows spiFlashWriteEncryptedChip
      simp only [haddr]
      by_cases hodd : (destAddr + i) % 32 = 0
      · rw [if_neg (fun h => h.2 hodd), if_neg (not_not.mpr hodd)]
        rcases left with _ | left
        · have hread := plainRead_block (c := c) (m := m) (k + 1)
          rw [show 16 * (k + 1) = destAddr + i + 16 by omega] at hread
          simp only [workingChip, hread]
          rw [if_neg (by omega)]
          rfl
        · simp only [workingChip]
          rw [if_neg (by omega)]
          simp only
          rw [← workingChip, ih left (by omega) (by omega) (by omega) (by omega), hdrop]
          rfl
      · have h0 : i = 0 := by omega
        have hread := plainRead_block (c := c) (m := m) (k - 1)
        rw [show 16 * (k - 1) = destAddr + i - 16 by omega] at hread
        rw [if_pos ⟨h0, hodd⟩, if_pos hodd]
        simp only [workingChip, hread]
        rw [if_neg (by omega)]
        simp only
        rw [← workingChip, ih left (by omega) (by omega) (by omega) (by omega), hdrop]
        rfl

/-- The blocks of a source that is written from `a` on. -/
def put (c : Cipher 16) (m : Mem) (a : ℕ) (bs : List Byte) : Mem :=
  c.putBlocks m (a / 16) bs (bs.length / 16)

lemma writeEncryptedChip_working (hrows : size % 32 = 0) (hsize : size ≤ 2 ^ 32) {a : ℕ}
    {bs : List Byte} (ha : a % 16 = 0) (hbs : bs.length % 16 = 0) (hin : a + bs.length ≤ size) :
    writeEncryptedChip (workingChip c size) a bs m = (.ok, put c m a bs) := by
  rw [writeEncryptedChip, writeRows_working hrows hsize ha (Nat.zero_mod 16) (.inl rfl) (by omega),
    Nat.add_zero, List.drop_zero, put, ← writeEncryptedChip_eq c (by omega)]
  congr 2
  omega

lemma put_of_not_mem {a x : ℕ} {bs : List Byte} (ha : a % 16 = 0) (hbs : bs.length % 16 = 0)
    (hx : ¬ (a ≤ x ∧ x < a + bs.length)) : put c m a bs x = m x :=
  c.putBlocks_of_not_mem (by omega)

lemma put_of_erased {a : ℕ} {bs : List Byte} (ha : a % 16 = 0) (hbs : bs.length % 16 = 0)
    (he : ∀ x, a ≤ x → x < a + bs.length → m x = 0xff#8) :
    (c.plain (put c m a bs)).read a bs.length = bs := by
  apply Mem.read_eq_of_getD rfl
  intro i hi
  rw [put, c.plain_putBlocks_of_mem (fun y h1 h2 => he y (by omega) (by omega)) (by omega)]
  congr 1
  omega

/-- On a working chip a piece is taken if it is what the cells then hold. -/
lemma takes_working (hrows : size % 32 = 0) (hsize : size ≤ 2 ^ 32) {a : ℕ}
    (bs : List Byte) (ha : a % 16 = 0) (hbs : bs.length % 16 = 0) (hin : a + bs.length ≤ size) :
    Takes (workingChip c size) a bs m ↔ (c.plain (put c m a bs)).read a bs.length = bs := by
  have hchip := writeEncryptedChip_working (c := c) (m := m) hrows hsize ha hbs hin
  have hle : ¬ size < a + bs.length := by omega
  have hread : (workingChip c size).read m a bs.length = (espOk, m) := by simp [workingChip, hle]
  simp only [Takes]
  rw [← writeRows_fst, ← writeEncryptedChip, hread, hchip]
  simp [workingChip, hle, plainRead, List.Vector.toList]

lemma state_verifyPiece_working (hrows : size % 32 = 0) (hsize : size ≤ 2 ^ 32) {a : ℕ}
    {bs : List Byte} (ha : a % 16 = 0) (hbs : bs.length % 16 = 0) (hin : a + bs.length ≤ size) :
    (verifyPiece (workingChip c size) a bs m).state = put c m a bs := by
  have hchip := writeEncryptedChip_working (c := c) (m := m) hrows hsize ha hbs hin
  have hle : ¬ size < a + bs.length := by omega
  have hread : (workingChip c size).read m a bs.length = (espOk, m) := by simp [workingChip, hle]
  simp only [verifyPiece, hread, hchip]
  simp [workingChip, hle, RomResult.code, espOk]

lemma afterPiece_working (hrows : size % 32 = 0) (hsize : size ≤ 2 ^ 32) {a : ℕ}
    {bs : List Byte} (ha : a % 16 = 0) (hbs : bs.length % 16 = 0) (hin : a + bs.length ≤ size) :
    afterPiece (workingChip c size) a bs m = put c m a bs := by
  have hchip := writeEncryptedChip_working (c := c) (m := m) hrows hsize ha hbs hin
  have hle : ¬ size < a + bs.length := by omega
  have hread : (workingChip c size).read m a bs.length = (espOk, m) := by simp [workingChip, hle]
  rw [afterPiece, hread, hchip]
  rfl

lemma length_piece (src : List Byte) (i : ℕ) : (piece src i).length = min 64 (src.length - i) := by
  rw [piece, slice, List.length_take, List.length_drop, buffByteReadNum]

lemma getD_piece {i j : ℕ} (hj : j < 64) :
    (piece src i).getD j 0xff#8 = src.getD (i + j) 0xff#8 := by
  rw [piece, slice, buffByteReadNum, List.getD, List.getElem?_take_of_lt hj, List.getElem?_drop,
    List.getD]

/-- The memory holds the source from the offset `i` up to the offset `j`, as reads see it. -/
def Holds (c : Cipher 16) (destAddr : ℕ) (src : List Byte) (i j : ℕ) (m : Mem) : Prop :=
  ∀ y, i ≤ y → y < j → c.plain m (destAddr + y) = src.getD y 0xff#8

lemma holds_piece {i : ℕ} : (c.plain m).read (destAddr + i) (piece src i).length = piece src i ↔
    Holds c destAddr src i (i + (piece src i).length) m := by
  have hlen := length_piece src i
  constructor
  · intro h y hy hy'
    have hj : y - i < (piece src i).length := by omega
    have hread := Mem.getD_read (m := c.plain m) (a := destAddr + i) hj 0xff#8
    rw [h, getD_piece (by omega), Nat.add_sub_cancel' hy] at hread
    rw [hread]
    congr 1
    omega
  · intro h
    apply Mem.read_eq_of_getD rfl
    intro j hj
    rw [Nat.add_assoc, h (i + j) (by omega) (by omega), getD_piece (by omega)]

/-- Blocks before a range are read as before where the range alone has changed. -/
lemma holds_congr {i j a b : ℕ} {m' : Mem} (hd : destAddr % 16 = 0) (ha : a % 16 = 0)
    (hout : j ≤ a)
    (h : ∀ x, ¬ (destAddr + a ≤ x ∧ x < destAddr + b) → m' x = m x) :
    Holds c destAddr src i j m' ↔ Holds c destAddr src i j m := by
  have hplain {y : ℕ} (hy : y < j) : c.plain m' (destAddr + y) = c.plain m (destAddr + y) :=
    c.plain_congr fun k hk => h _ (by omega)
  constructor
  · intro hm y hy hy'
    rw [← hplain hy', hm y hy hy']
  · intro hm y hy hy'
    rw [hplain hy', hm y hy hy']

lemma holds_split {i j k : ℕ} (hij : i ≤ j) (hjk : j ≤ k) :
    Holds c destAddr src i k m ↔ Holds c destAddr src i j m ∧ Holds c destAddr src j k m := by
  constructor
  · exact fun h => ⟨fun y h1 h2 => h y h1 (by omega), fun y h1 h2 => h y (by omega) h2⟩
  · rintro ⟨h1, h2⟩ y hy hy'
    by_cases hyj : y < j
    · exact h1 y hy hyj
    · exact h2 y (by omega) hy'

section Run

variable (hrows : size % 32 = 0) (hsize : size ≤ 2 ^ 32) (hd : destAddr % 16 = 0)
  (hs : src.length % 16 = 0) (hin : destAddr + src.length ≤ size)
include hrows hsize hd hs hin

/-- The loop on a working chip changes nothing outside the rest of the range. -/
lemma verifyLoop_frame {i n : ℕ} (hi : i % 16 = 0) (hn : n = (src.length - i + 63) / 64) {x : ℕ}
    (hx : ¬ (destAddr + i ≤ x ∧ x < destAddr + src.length)) :
    (verifyLoop (workingChip c size) destAddr src i n m).2 x = m x := by
  induction n generalizing i m with
  | zero => rfl
  | succ n ih =>
    have hlen := length_piece src i
    have haddr : addr destAddr i = destAddr + i := addr_of_lt (by omega)
    have hput : put c m (destAddr + i) (piece src i) x = m x :=
      put_of_not_mem (by omega) (by omega) (by omega)
    by_cases h : Takes (workingChip c size) (addr destAddr i) (piece src i) m
    · simp only [verifyLoop_of_takes h]
      rw [haddr, afterPiece_working hrows hsize (by omega) (by omega) (by omega)]
      have hnext : n = (src.length - (i + buffByteReadNum) + 63) / 64 := by
        rw [buffByteReadNum]
        omega
      rw [ih (by rw [buffByteReadNum]; omega) hnext (by omega), hput]
    · rw [verifyLoop_of_not_takes h, haddr,
        state_verifyPiece_working hrows hsize (by omega) (by omega) (by omega)]
      exact hput

/-- The pieces are taken exactly if the rest of the range holds the source in the end. -/
lemma takesAll_working {i n : ℕ} (hi : i % 16 = 0) (hn : n = (src.length - i + 63) / 64) :
    TakesAll (workingChip c size) destAddr src i n m ↔
      Holds c destAddr src i src.length
        (verifyLoop (workingChip c size) destAddr src i n m).2 := by
  induction n generalizing i m with
  | zero => exact iff_of_true trivial fun y hy hy' => absurd hy' (by omega)
  | succ n ih =>
    have hlen := length_piece src i
    have haddr : addr destAddr i = destAddr + i := addr_of_lt (by omega)
    have htakes := takes_working (c := c) (m := m) (a := destAddr + i) hrows hsize
      (piece src i) (by omega) (by omega) (by omega)
    rw [holds_piece] at htakes
    set e := i + (piece src i).length
    rw [holds_split (show i ≤ e by omega) (show e ≤ src.length by omega), TakesAll, haddr]
    by_cases h : Takes (workingChip c size) (destAddr + i) (piece src i) m
    · have hstep := verifyLoop_of_takes (n := n) (haddr ▸ h)
      have hnext : n = (src.length - (i + buffByteReadNum) + 63) / 64 := by
        rw [buffByteReadNum]
        omega
      have hi' : (i + buffByteReadNum) % 16 = 0 := by rw [buffByteReadNum]; omega
      rw [haddr, afterPiece_working hrows hsize (by omega) (by omega) (by omega)] at hstep
      have hframe := fun x hx => verifyLoop_frame (c := c) (x := x)
        (m := put c m (destAddr + i) (piece src i)) hrows hsize hd hs hin hi' hnext hx
      rw [hstep, afterPiece_working hrows hsize (by omega) (by omega) (by omega), ih hi' hnext,
        holds_congr hd hi' (show e ≤ i + buffByteReadNum by rw [buffByteReadNum]; omega) hframe]
      refine and_congr htakes ?_
      -- only the last piece can be shorter than the step of the loop
      rcases (show e = i + buffByteReadNum ∨ e = src.length ∧ src.length ≤ i + buffByteReadNum by
        rw [buffByteReadNum]; omega) with he | ⟨he, hlast⟩
      · rw [he]
      · rw [he]
        exact iff_of_true (fun y hy hy' => absurd hy' (by omega))
          fun y hy hy' => absurd hy' (by omega)
    · rw [verifyLoop_of_not_takes (haddr ▸ h), haddr]
      rw [state_verifyPiece_working hrows hsize (by omega) (by omega) (by omega)]
      exact iff_of_false (fun hall => h hall.1) fun hall => h (htakes.mpr hall.1)

/-- A working chip takes everything that is written to an erased range. -/
lemma takesAll_of_erased {i n : ℕ} (hi : i % 16 = 0) (hn : n = (src.length - i + 63) / 64)
    (he : ∀ x, destAddr + i ≤ x → x < destAddr + src.length → m x = 0xff#8) :
    TakesAll (workingChip c size) destAddr src i n m := by
  induction n generalizing i m with
  | zero => trivial
  | succ n ih =>
    have hlen := length_piece src i
    have haddr : addr destAddr i = destAddr + i := addr_of_lt (by omega)
    have hnext : n = (src.length - (i + buffByteReadNum) + 63) / 64 := by
      rw [buffByteReadNum]
      omega
    rw [TakesAll, haddr, afterPiece_working hrows hsize (by omega) (by omega) (by omega),
      takes_working hrows hsize _ (by omega) (by omega) (by omega)]
    constructor
    · exact put_of_erased (by omega) (by omega) fun x h1 h2 => he x h1 (by omega)
    · apply ih (by rw [buffByteReadNum]; omega) hnext
      intro x h1 h2
      rw [buffByteReadNum] at h1
      rw [put_of_not_mem (by omega) (by omega) (by omega)]
      exact he x (by omega) h2

end Run

/-- A call that is not refused is its loop. -/
lemma spiFlashWriteEncrypted_working {safe : ℕ → ℕ → Bool} (hsafe : safe destAddr src.length = true)
    (hd : destAddr % 16 = 0) (hs : src.length % 16 = 0) :
    spiFlashWriteEncrypted (workingChip c size) safe destAddr src m =
      let done := verifyLoop (workingChip c size) destAddr src 0 (pieceCount src) m
      ⟨espOk, done.1, done.2⟩ := by
  simp [spiFlashWriteEncrypted, hsafe, hd, hs, workingChip, spiFlashTranslateRc]

/-- A verified write returns `ESP_OK` only for what it has read back, exactly if the call is
refused or the flash takes every piece: an access that fails, and a piece that is read back
otherwise than it was written, end the loop and leave the result at `ESP_OK`.  On a chip that
works, nothing outside the range changes, and the range holds the source exactly if the chip takes
it, as it does where the range is erased. -/
theorem spiFlashWriteEncrypted_honest_iff (safe : ℕ → ℕ → Bool) (destAddr : ℕ) (src : List Byte)
    (hd : destAddr % 16 = 0) (hs : src.length % 16 = 0) :
    (∀ {σ : Type} (f : Flash σ) (s : σ),
      Honest destAddr src (spiFlashWriteEncrypted f safe destAddr src s) ↔
        safe destAddr src.length = false ∨ (f.unlock s).1 ≠ .ok ∨
          TakesAll f destAddr src 0 (pieceCount src) (f.unlock s).2) ∧
    ∀ (c : Cipher 16) (size : ℕ) (m : Mem), size % 32 = 0 → size ≤ 2 ^ 32 →
      destAddr + src.length ≤ size → safe destAddr src.length = true →
        let w := spiFlashWriteEncrypted (workingChip c size) safe destAddr src m
        (∀ x, ¬ (destAddr ≤ x ∧ x < destAddr + src.length) → w.state x = m x) ∧
        (TakesAll (workingChip c size) destAddr src 0 (pieceCount src) m ↔
          Holds c destAddr src 0 src.length w.state) ∧
        ((∀ x, destAddr ≤ x → x < destAddr + src.length → m x = 0xff#8) →
          w.err = espOk ∧ w.readBack = pieces destAddr src 0 (pieceCount src) ∧
            Holds c destAddr src 0 src.length w.state) := by
  refine ⟨fun f s => honest_iff safe s hd hs, ?_⟩
  intro c size m hrows hsize hin hsafe
  rw [spiFlashWriteEncrypted_working hsafe hd hs]
  have hn : pieceCount src = (src.length - 0 + 63) / 64 := rfl
  have hframe := fun x hx => verifyLoop_frame (c := c) (m := m) (x := x) (i := 0) hrows hsize hd hs
    hin rfl hn hx
  have htakes := takesAll_working (c := c) (m := m) (i := 0) hrows hsize hd hs hin rfl hn
  refine ⟨hframe, htakes, fun he => ?_⟩
  have hall := takesAll_of_erased (c := c) (m := m) (i := 0) hrows hsize hd hs hin rfl hn he
  exact ⟨rfl, (verifyLoop_fst 0 _ m).mpr hall, htakes.mp hall⟩

/-- The cipher that leaves every block as it is. -/
def idCipher : Cipher 16 := ⟨fun _ b => b, fun _ b => b, fun _ _ => rfl, fun _ _ => rfl⟩

/-- 96 bytes from the second block of a row on, in an erased chip. -/
theorem spiFlashWriteEncrypted_honest_iff_erased :
    Holds idCipher 0x1010 (List.replicate 96 0x5a#8) 0 96
      (spiFlashWriteEncrypted (workingChip idCipher 0x10000) (fun _ _ => true) 0x1010
        (List.replicate 96 0x5a#8) fun _ => 0xff#8).state :=
  ((spiFlashWriteEncrypted_honest_iff (fun _ _ => true) 0x1010 (List.replicate 96 0x5a#8)
    (by decide) (by decide)).2 idCipher 0x10000 (fun _ => 0xff#8) (by decide) (by decide)
    (by decide) rfl).2.2 (fun _ _ _ => rfl) |>.2.2

/-- A chip on which every program times out. -/
def timeoutChip : Flash Mem :=
  { workingChip idCipher 0x10000 with writeEncrypted := fun m _ _ => (.timeout, m) }

/-- The error of a program that times out is lost. -/
theorem spiFlashWriteEncrypted_not_honest :
    ¬ ∀ (f : Flash Mem) (destAddr : ℕ) (src : List Byte) (m : Mem), destAddr % 16 = 0 →
      src.length % 16 = 0 →
        Honest destAddr src (spiFlashWriteEncrypted f (fun _ _ => true) destAddr src m) := by
  intro h
  have := h timeoutChip 0x1000 (List.replicate 16 0x5a#8) (fun _ => 0xff#8) (by decide) (by decide)
  exact absurd (this (by decide)) (by decide)

end EspIdf.SpiFlash
