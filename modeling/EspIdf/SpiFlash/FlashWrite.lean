/-
# Writing through a chip driver

`esp_flash_write` cuts the data into chunks, which may be copied to a buffer on the stack, and the
generic chip driver cuts each chunk into pieces that stay in one page of the flash.  After the last
piece of a chunk the driver flushes the cache, but by then the address and the length have run to
the end of the chunk.
-/
import EspIdf.Lib.Prog
import EspIdf.SpiFlash.VerifiedWrite

namespace EspIdf.SpiFlash

open EspIdf.Lib Prog

namespace ChipWrite

/-! ### The chip and its host -/

/-- What `esp_flash_write` and the chip driver look at: the size of the chip, the page size of the
driver, the functions that the host and the driver have, whether the buffer of the caller can be
written directly, and whether the region is protected. -/
structure Chip where
  size : ℕ
  pageSize : ℕ
  maxWriteBytes : ℕ
  initialised : Bool
  hasWrite : Bool
  hasFlushCache : Bool
  directWrite : Bool
  regionProtected : Bool

/-- A call of the host that reaches the flash or the cache. -/
inductive Cmd where
  | programPage (address : ℕ) (bytes : List Byte)
  | flushCache (address size : ℕ)

/-- What the functions of the host, the driver and the operating system will return, in the order
in which they are called, and the calls that have reached the flash. -/
structure Host where
  results : ℕ → ℤ
  log : List Cmd

/-- A loop that has not ended. -/
inductive Stuck where
  | running

/-- Programs of the chip. -/
abbrev ChipM : Type → Type := Prog Host Stuck

/-- `ESP_ERR_FLASH_NOT_INITIALISED`. -/
def espErrFlashNotInitialised : ℤ := 0x6003
/-- `ESP_ERR_FLASH_UNSUPPORTED_CHIP`. -/
def espErrFlashUnsupportedChip : ℤ := 0x6005

/-- A call of a function that returns a code. -/
def call : ChipM ℤ := fun s => (.ok (s.results 0), { s with results := fun n => s.results (n + 1) })

/-- A call that reaches the flash. -/
def issue (cmd : Cmd) : ChipM Unit := Prog.modify fun s => { s with log := s.log ++ [cmd] }

/-! ### The chip driver -/

/-- `spi_flash_chip_generic_page_program`. -/
def pageProgram (buffer : List Byte) (address length : ℕ) : ChipM ℤ := do
  let err ← call
  if err = espOk then do
    issue (.programPage address (buffer.take length))
    call
  else pure err

/-- The bytes that a pass of `spi_flash_chip_generic_write` writes. -/
def pageLen (c : Chip) (address length : ℕ) : ℕ :=
  let pageLen := min c.maxWriteBytes (min c.pageSize length)
  if (address + pageLen) / c.pageSize ≠ address / c.pageSize then
    c.pageSize - address % c.pageSize
  else pageLen

/-- The loop of `spi_flash_chip_generic_write`, for so many passes at most: the error, the address
and the length after it. -/
def writeLoop (c : Chip) : ℕ → ℤ → List Byte → ℕ → ℕ → ChipM (ℤ × ℕ × ℕ)
  | fuel, err, buffer, address, length =>
    if err = espOk ∧ 0 < length then
      match fuel with
      | 0 => Prog.throw .running
      | fuel + 1 => do
        let n := pageLen c address length
        let err ← call
        if err = espOk then do
          let err ← pageProgram buffer address n
          writeLoop c fuel err (buffer.drop n) (address + n) (length - n)
        else writeLoop c fuel err buffer address length
    else pure (err, address, length)

/-- `spi_flash_chip_generic_write`. -/
def genericWrite (c : Chip) (buffer : List Byte) (address length : ℕ) : ChipM ℤ := do
  let (err, address, length) ← writeLoop c (length + 1) espOk buffer address length
  if err = espOk ∧ c.hasFlushCache then do
    issue (.flushCache address length)
    call
  else pure err

/-! ### The functions of the chip -/

/-- `MAX_WRITE_CHUNK`. -/
def maxWriteChunk : ℕ := 8192

/-- The size of `temp_buf` in `esp_flash_write`. -/
def tempBufSize : ℕ := 32

/-- `flash_write_core`, with `spiflash_start` and `spiflash_end`. -/
def flashWriteCore (c : Chip) (writeBuf : List Byte) (writeAddr writeLen : ℕ) : ChipM ℤ := do
  let err ← call
  if err = espOk then do
    let err ← genericWrite c writeBuf writeAddr writeLen
    let endErr ← call
    pure (if err = espOk then endErr else err)
  else pure err

/-- The loop of `esp_flash_write`, for so many passes at most. -/
def chunkLoop (c : Chip) : ℕ → List Byte → ℕ → ℕ → ChipM ℤ
  | 0, _, _, _ => Prog.throw .running
  | fuel + 1, buffer, writeAddr, lenRemain => do
    let writeLen := min lenRemain (if c.directWrite then maxWriteChunk else tempBufSize)
    let writeBuf := if c.directWrite then buffer else buffer.take writeLen
    let err ← flashWriteCore c writeBuf writeAddr writeLen
    if err ≠ espOk ∨ lenRemain = writeLen then pure err
    else chunkLoop c fuel (buffer.drop writeLen) (writeAddr + writeLen) (lenRemain - writeLen)

/-- `esp_flash_write`. -/
def espFlashWrite (c : Chip) (buffer : List Byte) (address length : ℕ) : ChipM ℤ :=
  if length = 0 then pure espOk
  else if ¬ c.initialised then pure espErrFlashNotInitialised
  else if ¬ c.hasWrite then pure espErrFlashUnsupportedChip
  else if c.regionProtected then pure espErrInvalidArg
  else if address > c.size ∨ (address + length) % 2 ^ 32 > c.size then pure espErrInvalidArg
  else chunkLoop c length buffer address length

/-! ### The commands that are issued -/

/-- The byte that a command programs at the address `x`. -/
def Cmd.byteAt (x : ℕ) : Cmd → Option Byte
  | .programPage address bytes => if address ≤ x then bytes[x - address]? else none
  | .flushCache _ _ => none

/-- The bytes that are programmed at the address `x`, one after the other. -/
def programmedAt (log : List Cmd) (x : ℕ) : List Byte := log.filterMap (Cmd.byteAt x)

/-- A command programs bytes of one page, and no more than the host can write. -/
def Cmd.Fits (c : Chip) : Cmd → Prop
  | .programPage address bytes =>
    address % c.pageSize + bytes.length ≤ c.pageSize ∧ bytes.length ≤ c.maxWriteBytes
  | .flushCache _ _ => True

/-- The commands program the bytes from `address` on, each of them once. -/
structure Programs (c : Chip) (address : ℕ) (bytes : List Byte) (log : List Cmd) : Prop where
  once : ∀ x, programmedAt log x = (if address ≤ x then bytes[x - address]? else none).toList
  fits : ∀ cmd ∈ log, cmd.Fits c

/-- The cache has been flushed for the address `x`. -/
def FlushedAt (log : List Cmd) (x : ℕ) : Prop :=
  ∃ address size, Cmd.flushCache address size ∈ log ∧ address ≤ x ∧ x < address + size

/-- The commands so far, of which those that flush the cache flush nothing; with `ok`, all calls to
come succeed. -/
structure Progress (c : Chip) (ok : Prop) (address : ℕ) (bytes : List Byte) (s : Host) : Prop
    extends Programs c address bytes s.log where
  flush : ∀ address size, Cmd.flushCache address size ∈ s.log → size = 0
  results : ok → ∀ n, s.results n = espOk

variable {c : Chip} {ok : Prop} {address k length n : ℕ} {bytes data : List Byte} {s : Host}

lemma Progress.issue_program (h : Progress c ok address bytes s) {ys : List Byte}
    (hfits : Cmd.Fits c (.programPage (address + bytes.length) ys)) :
    Progress c ok address (bytes ++ ys)
      { s with log := s.log ++ [.programPage (address + bytes.length) ys] } where
  once := by
    intro x
    rw [programmedAt, List.filterMap_append, ← programmedAt, h.once x]
    by_cases hx : address ≤ x
    · simp only [if_pos hx]
      rcases Nat.lt_or_ge (x - address) bytes.length with hlt | hge
      · have hbefore : ¬ address + bytes.length ≤ x := by omega
        rw [List.getElem?_append_left hlt]
        simp [Cmd.byteAt, hbefore]
      · have hafter : address + bytes.length ≤ x := by omega
        have hsub : x - (address + bytes.length) = x - address - bytes.length := by omega
        rw [List.getElem?_append_right hge, List.getElem?_eq_none hge]
        cases hy : ys[x - address - bytes.length]? <;> simp [Cmd.byteAt, hafter, hsub, hy]
    · have hbefore : ¬ address + bytes.length ≤ x := by omega
      simp [Cmd.byteAt, hx, hbefore]
  fits := by
    intro cmd hmem
    rcases List.mem_append.mp hmem with hmem | hmem
    · exact h.fits cmd hmem
    · rw [List.mem_singleton.mp hmem]
      exact hfits
  flush := by
    intro a size hmem
    rcases List.mem_append.mp hmem with hmem | hmem
    · exact h.flush a size hmem
    · exact nomatch List.mem_singleton.mp hmem
  results := h.results

lemma Progress.issue_flush (h : Progress c ok address bytes s) (a : ℕ) :
    Progress c ok address bytes { s with log := s.log ++ [.flushCache a 0] } where
  once := by
    intro x
    rw [programmedAt, List.filterMap_append, ← programmedAt, h.once x]
    simp [Cmd.byteAt]
  fits := by
    intro cmd hmem
    rcases List.mem_append.mp hmem with hmem | hmem
    · exact h.fits cmd hmem
    · rw [List.mem_singleton.mp hmem]
      trivial
  flush := by
    intro a' size hmem
    rcases List.mem_append.mp hmem with hmem | hmem
    · exact h.flush a' size hmem
    · cases List.mem_singleton.mp hmem
      rfl
  results := h.results

lemma triple_call : Triple (Progress c ok address bytes) call
    (fun err s => Progress c ok address bytes s ∧ (ok → err = espOk)) fun _ _ => False :=
  fun _ hs => ⟨⟨hs.toPrograms, hs.flush, fun hok n => hs.results hok (n + 1)⟩,
    fun hok => hs.results hok 0⟩

/-! ### Pieces of a page -/

/-- The pieces that the chip driver cuts are not empty, and each lies in one page. -/
lemma pageLen_ok (c : Chip) (address : ℕ) (hpage : 0 < c.pageSize) (hmax : 0 < c.maxWriteBytes)
    (hlen : 0 < length) :
    0 < pageLen c address length ∧ pageLen c address length ≤ length ∧
      pageLen c address length ≤ c.maxWriteBytes ∧
      address % c.pageSize + pageLen c address length ≤ c.pageSize := by
  have hmod := Nat.mod_lt address hpage
  have hsum : ∀ m, (address + m) / c.pageSize =
      address / c.pageSize + (address % c.pageSize + m) / c.pageSize := by
    intro m
    conv_lhs => rw [← Nat.div_add_mod address c.pageSize, Nat.add_assoc]
    rw [Nat.mul_add_div hpage]
  have hcross : ∀ m, (address + m) / c.pageSize = address / c.pageSize ↔
      address % c.pageSize + m < c.pageSize := by
    intro m
    rw [hsum, Nat.add_eq_left, Nat.div_eq_zero_iff]
    omega
  unfold pageLen
  simp only [ne_eq, hcross]
  split <;> omega

/-! ### The loops -/

/-- After a write of `n` bytes from the byte `k` on: a part of them has been programmed, and all if
there is no error. -/
def Wrote (c : Chip) (ok : Prop) (address : ℕ) (data : List Byte) (k n : ℕ) (err : ℤ) (s : Host) :
    Prop :=
  ∃ j ≤ n, Progress c ok address (data.take (k + j)) s ∧ (err = espOk → j = n) ∧
    (ok → err = espOk)

variable {err : ℤ} {buffer : List Byte}

/-- Nothing is written after an error. -/
lemma Wrote.of_error (h : Progress c ok address (data.take k) s) (hok : ok → err = espOk)
    (herr : err ≠ espOk) : Wrote c ok address data k n err s :=
  ⟨0, Nat.zero_le _, h, fun he => absurd he herr, hok⟩

/-- A write that goes on where another one has ended. -/
lemma Wrote.append (h : Wrote c ok address data (k + n) length err s) :
    Wrote c ok address data k (n + length) err s := by
  obtain ⟨j, hj, hprogress, hall, hok⟩ := h
  refine ⟨n + j, by omega, by rwa [← Nat.add_assoc], fun he => by rw [hall he], hok⟩

lemma triple_pageProgram (hn : k + n ≤ data.length) (hb : buffer.take n = (data.drop k).take n)
    (hpage : (address + k) % c.pageSize + n ≤ c.pageSize) (hmax : n ≤ c.maxWriteBytes) :
    Triple (Progress c ok address (data.take k)) (pageProgram buffer (address + k) n)
      (Wrote c ok address data k n) fun _ _ => False := by
  have hk : (data.take k).length = k := List.length_take_of_le (by omega)
  have hlen : ((data.drop k).take n).length = n := List.length_take_of_le (by simp; omega)
  refine .bind triple_call fun err => .ite (fun herr => ?_) fun herr => .pure fun s hs =>
    .of_error hs.1 hs.2 herr
  refine .bind (.modify (Q := fun _ => Progress c ok address (data.take (k + n))) fun s hs => ?_)
    fun _ => triple_call.conseq (fun _ h => h) (fun err s hs => ?_) fun _ _ h => h
  · have hfits : Cmd.Fits c (.programPage (address + (data.take k).length) (buffer.take n)) := by
      rw [hk, hb, Cmd.Fits, hlen]
      exact ⟨hpage, hmax⟩
    have hissue := hs.1.issue_program hfits
    rw [hk, hb, ← List.take_add] at hissue
    rw [hb]
    exact hissue
  · exact ⟨n, le_rfl, hs.1, fun _ => rfl, hs.2⟩

lemma writeLoop_done {fuel a : ℕ} (h : err ≠ espOk ∨ length = 0) :
    writeLoop c fuel err buffer a length = pure (err, a, length) := by
  have hnot : ¬ (err = espOk ∧ 0 < length) := by
    rintro ⟨herr, hpos⟩
    exact h.elim (fun hne => hne herr) fun h0 => by omega
  rw [writeLoop.eq_def]
  exact if_neg hnot

lemma triple_writeLoop (hpage : 0 < c.pageSize) (hmax : 0 < c.maxWriteBytes) :
    ∀ {fuel k length : ℕ} {err : ℤ} {buffer : List Byte}, length ≤ fuel →
      k + length ≤ data.length → buffer.take length = (data.drop k).take length →
      Triple (fun s => Progress c ok address (data.take k) s ∧ (ok → err = espOk))
        (writeLoop c fuel err buffer (address + k) length)
        (fun r s => Wrote c ok address data k length r.1 s ∧ (r.1 = espOk → r.2.2 = 0))
        fun _ _ => False := by
  intro fuel
  induction fuel with
  | zero =>
    intro k length err buffer hfuel hk hb
    rw [writeLoop_done (.inr (by omega))]
    exact .pure fun s hs => ⟨⟨0, by omega, hs.1, fun _ => by omega, hs.2⟩,
      fun _ => show length = 0 by omega⟩
  | succ fuel ih =>
    intro k length err buffer hfuel hk hb
    by_cases hdone : err = espOk ∧ 0 < length
    · obtain ⟨herr, hpos⟩ := hdone
      obtain ⟨hn0, hnle, hnmax, hnpage⟩ := pageLen_ok c (address + k) hpage hmax hpos
      rw [writeLoop, if_pos ⟨herr, hpos⟩]
      generalize pageLen c (address + k) length = n at *
      refine .bind (triple_call.conseq (fun _ hs => hs.1) (fun _ _ h => h) fun _ _ h => h)
        fun err => .ite (fun _ => ?_) fun hne => ?_
      · have hbn : buffer.take n = (data.drop k).take n := by
          have := congrArg (List.take n) hb
          rwa [List.take_take, List.take_take, Nat.min_eq_left hnle] at this
        refine .bind ((triple_pageProgram (by omega) hbn hnpage hnmax).conseq (fun _ hs => hs.1)
          (fun _ _ h => h) fun _ _ h => h) fun err => ?_
        by_cases herr' : err = espOk
        · -- the next pass starts behind the piece
          have hrest : (buffer.drop n).take (length - n) =
              (data.drop (k + n)).take (length - n) := by
            have := congrArg (List.drop n) hb
            rwa [List.drop_take, List.drop_take, List.drop_drop] at this
          rw [Nat.add_assoc]
          refine (ih (by omega) (by omega) hrest).conseq (fun s hs => ?_) (fun r s hs => ?_)
            fun _ _ h => h
          · obtain ⟨j, -, hprogress, hall, hok⟩ := hs
            rw [hall herr'] at hprogress
            exact ⟨hprogress, hok⟩
          · have happend := hs.1.append
            rw [Nat.add_sub_of_le hnle] at happend
            exact ⟨happend, hs.2⟩
        · rw [writeLoop_done (.inl herr')]
          refine .pure fun s hs => ⟨?_, fun he => absurd he herr'⟩
          obtain ⟨j, hj, hprogress, hall, hok⟩ := hs
          exact ⟨j, by omega, hprogress, fun he => absurd he herr', hok⟩
      · rw [writeLoop_done (.inl hne)]
        exact .pure fun s hs => ⟨.of_error hs.1 hs.2 hne, fun he => absurd he hne⟩
    · have hdone' : err ≠ espOk ∨ length = 0 := by
        by_contra hcon
        exact hdone ⟨by simpa using fun h => hcon (.inl h), by omega⟩
      rw [writeLoop_done hdone']
      refine .pure fun s hs => ⟨?_, fun he => (hdone'.resolve_left fun hne => hne he)⟩
      rcases hdone' with hne | h0
      · exact .of_error hs.1 hs.2 hne
      · exact ⟨0, by omega, hs.1, fun _ => h0.symm, hs.2⟩

lemma triple_genericWrite (hpage : 0 < c.pageSize) (hmax : 0 < c.maxWriteBytes)
    (hk : k + length ≤ data.length) (hb : buffer.take length = (data.drop k).take length) :
    Triple (Progress c ok address (data.take k)) (genericWrite c buffer (address + k) length)
      (Wrote c ok address data k length) fun _ _ => False := by
  refine .bind ((triple_writeLoop hpage hmax (Nat.le_succ _) hk hb).conseq
    (fun s hs => ⟨hs, fun _ => rfl⟩) (fun _ _ h => h) fun _ _ h => h) fun r => ?_
  obtain ⟨err, a, rest⟩ := r
  refine .ite (fun hflush => ?_) fun _ => .pure fun s hs => hs.1
  refine .bind (.modify (Q := fun _ => Progress c ok address (data.take (k + length)))
    fun s hs => ?_) fun _ => triple_call.conseq (fun _ h => h) (fun err s hs => ?_) fun _ _ h => h
  · obtain ⟨⟨j, -, hprogress, hall, -⟩, hrest⟩ := hs
    rw [hall hflush.1] at hprogress
    have h0 : rest = 0 := hrest hflush.1
    rw [h0]
    exact hprogress.issue_flush a
  · exact ⟨length, le_rfl, hs.1, fun _ => rfl, hs.2⟩

lemma triple_call_wrote : Triple (Wrote c ok address data k n err) call
    (fun endErr s => Wrote c ok address data k n err s ∧ (ok → endErr = espOk))
      fun _ _ => False := by
  rintro s ⟨j, hj, hprogress, hall, hok⟩
  have hcall := triple_call s hprogress
  exact ⟨⟨j, hj, hcall.1, hall, hok⟩, hcall.2⟩

lemma triple_flashWriteCore (hpage : 0 < c.pageSize) (hmax : 0 < c.maxWriteBytes)
    (hk : k + length ≤ data.length) (hb : buffer.take length = (data.drop k).take length) :
    Triple (Progress c ok address (data.take k)) (flashWriteCore c buffer (address + k) length)
      (Wrote c ok address data k length) fun _ _ => False := by
  refine .bind triple_call fun err => .ite (fun _ => ?_) fun hne => .pure fun s hs =>
    .of_error hs.1 hs.2 hne
  refine .bind ((triple_genericWrite hpage hmax hk hb).conseq (fun _ hs => hs.1) (fun _ _ h => h)
    fun _ _ h => h) fun err => .bind triple_call_wrote fun endErr => .pure fun s hs => ?_
  obtain ⟨⟨j, hj, hprogress, hall, hok⟩, hend⟩ := hs
  refine ⟨j, hj, hprogress, fun he => hall ?_, fun h => ?_⟩
  · by_contra hne
    rw [if_neg hne] at he
    exact hne he
  · rw [if_pos (hok h)]
    exact hend h

lemma triple_chunkLoop (hpage : 0 < c.pageSize) (hmax : 0 < c.maxWriteBytes) :
    ∀ {fuel k length : ℕ}, 0 < length → length ≤ fuel → k + length = data.length →
      Triple (Progress c ok address (data.take k))
        (chunkLoop c fuel (data.drop k) (address + k) length)
        (Wrote c ok address data k length) fun _ _ => False := by
  intro fuel
  induction fuel with
  | zero =>
    intro k length hpos hfuel
    omega
  | succ fuel ih =>
    intro k length hpos hfuel hk
    have hchunk : 0 < (if c.directWrite then maxWriteChunk else tempBufSize) := by
      split <;> decide
    rw [chunkLoop]
    generalize hn : min length (if c.directWrite then maxWriteChunk else tempBufSize) = n
    have hnle : n ≤ length := by omega
    have hb : (if c.directWrite then data.drop k else (data.drop k).take n).take n =
        (data.drop k).take n := by
      split
      · rfl
      · rw [List.take_take, Nat.min_self]
    refine .bind (triple_flashWriteCore hpage hmax (by omega) hb) fun err =>
      .ite (fun hend => .pure fun s hs => ?_) fun hgo => ?_
    · rcases hend with hne | hfinal
      · obtain ⟨j, hj, hprogress, hall, hok⟩ := hs
        exact ⟨j, by omega, hprogress, fun he => absurd he hne, hok⟩
      · rwa [hfinal]
    · -- the next chunk starts behind this one
      obtain ⟨herr, hne⟩ : err = espOk ∧ length ≠ n := by
        simpa [not_or] using hgo
      rw [Nat.add_assoc, List.drop_drop]
      refine (ih (by omega) (by omega) (by omega)).conseq (fun s hs => ?_) (fun r s hs => ?_)
        fun _ _ h => h
      · obtain ⟨j, -, hprogress, hall, -⟩ := hs
        rwa [hall herr] at hprogress
      · have happend := hs.append
        rwa [Nat.add_sub_of_le hnle] at happend

/-! ### A call of `esp_flash_write` -/

/-- The call is refused before anything is written. -/
def Chip.Refuses (c : Chip) : Prop :=
  c.initialised = false ∨ c.hasWrite = false ∨ c.regionProtected = true

/-- A call of `esp_flash_write` ends, with the results of the host and the driver that `results`
tells; it has programmed the data from the first byte on, all of them if it succeeds; and if it
succeeds and the host has a cache, the cache has been flushed for every byte. -/
def WritesExactly (c : Chip) (address : ℕ) (data : List Byte) (results : ℕ → ℤ) : Prop :=
  ∃ err s, espFlashWrite c data address data.length ⟨results, []⟩ = (.ok err, s) ∧
    (∃ n ≤ data.length, Programs c address (data.take n) s.log ∧
      (err = espOk → n = data.length)) ∧
    (err = espOk → c.hasFlushCache → ∀ x, address ≤ x → x < address + data.length →
      FlushedAt s.log x)

lemma Programs.nil : Programs c address [] [] :=
  ⟨fun x => by simp [programmedAt], fun _ h => absurd h List.not_mem_nil⟩

/-- Without data, or if it is refused, the call does nothing. -/
lemma espFlashWrite_idle (address : ℕ) (h : data = [] ∨ c.Refuses) (s : Host) :
    ∃ err, espFlashWrite c data address data.length s = (.ok err, s) ∧
      (err = espOk → data = []) := by
  unfold espFlashWrite
  by_cases hnil : data = []
  · exact ⟨espOk, by rw [if_pos (by rw [hnil]; rfl)]; rfl, fun _ => hnil⟩
  · have hlen : data.length ≠ 0 := fun h0 => hnil (List.length_eq_zero_iff.mp h0)
    rw [if_neg hlen]
    by_cases hinit : c.initialised = false
    · exact ⟨_, by rw [if_pos (by simp [hinit])]; rfl, fun he => absurd he (by decide)⟩
    · rw [if_neg (by simpa using hinit)]
      by_cases hwrite : c.hasWrite = false
      · exact ⟨_, by rw [if_pos (by simp [hwrite])]; rfl, fun he => absurd he (by decide)⟩
      · rw [if_neg (by simpa using hwrite)]
        have hprotected : c.regionProtected = true :=
          ((h.resolve_left hnil).resolve_left hinit).resolve_left hwrite
        exact ⟨_, by rw [if_pos hprotected]; rfl, fun he => absurd he (by decide)⟩

/-- Otherwise the chunks are written. -/
lemma espFlashWrite_writes (ok : Prop) (hnil : data ≠ []) (hrefuse : ¬ c.Refuses)
    (hsize : address + data.length ≤ c.size) (h32 : c.size < 2 ^ 32)
    (hpage : 0 < c.pageSize) (hmax : 0 < c.maxWriteBytes) :
    Triple (Progress c ok address []) (espFlashWrite c data address data.length)
      (Wrote c ok address data 0 data.length) fun _ _ => False := by
  have hlen : 0 < data.length := List.length_pos_iff.mpr hnil
  have hmod : (address + data.length) % 2 ^ 32 = address + data.length :=
    Nat.mod_eq_of_lt (by omega)
  simp only [Chip.Refuses, not_or, Bool.not_eq_false, Bool.not_eq_true] at hrefuse
  obtain ⟨hinit, hwrite, hprotected⟩ := hrefuse
  rw [espFlashWrite, if_neg (by omega), if_neg (by simp [hinit]), if_neg (by simp [hwrite]),
    if_neg (by simp [hprotected]), if_neg (by omega)]
  exact triple_chunkLoop hpage hmax hlen le_rfl (Nat.zero_add _)

/-- `esp_flash_write` programs exactly its range and flushes the cache for it if and only if there is
nothing to write, or the call is refused, or the host has no cache. -/
theorem espFlashWrite_exact_iff (hsize : address + data.length ≤ c.size) (h32 : c.size < 2 ^ 32)
    (hmax : 1 ≤ c.maxWriteBytes) (hpage : c.maxWriteBytes ≤ c.pageSize) :
    (∀ results, WritesExactly c address data results) ↔
      data = [] ∨ c.Refuses ∨ c.hasFlushCache = false := by
  constructor
  · intro h
    by_contra hnot
    obtain ⟨hnil, hrefuse, hcache⟩ : data ≠ [] ∧ ¬ c.Refuses ∧ ¬ c.hasFlushCache = false := by
      simpa only [not_or] using hnot
    -- every call succeeds, and what has been flushed is empty
    obtain ⟨err, s, hrun, -, hflushed⟩ := h fun _ => espOk
    have htriple := espFlashWrite_writes True hnil hrefuse hsize h32 (by omega) hmax
      ⟨fun _ => espOk, []⟩ ⟨.nil, fun _ _ h => absurd h List.not_mem_nil, fun _ _ => rfl⟩
    rw [hrun] at htriple
    obtain ⟨j, -, hprogress, -, hok⟩ := htriple
    have hlen : 0 < data.length := List.length_pos_iff.mpr hnil
    obtain ⟨a, size, hmem, hle, hlt⟩ := hflushed (hok trivial) (by simpa using hcache) address
      le_rfl (by omega)
    have hzero := hprogress.flush a size hmem
    omega
  · intro h results
    by_cases hidle : data = [] ∨ c.Refuses
    · obtain ⟨err, hrun, herr⟩ := espFlashWrite_idle address hidle ⟨results, []⟩
      refine ⟨err, _, hrun, ⟨0, Nat.zero_le _, .nil, fun he => by rw [herr he]; rfl⟩,
        fun he _ x hx hlt => ?_⟩
      rw [herr he] at hlt
      exact absurd hlt (not_lt.mpr hx)
    · obtain ⟨hnil, hrefuse⟩ := not_or.mp hidle
      have hcache : c.hasFlushCache = false := (h.resolve_left hnil).resolve_left hrefuse
      have htriple := espFlashWrite_writes False hnil hrefuse hsize h32 (by omega) hmax
        ⟨results, []⟩ ⟨.nil, fun _ _ h => absurd h List.not_mem_nil, fun h => h.elim⟩
      cases hrun : espFlashWrite c data address data.length ⟨results, []⟩ with
      | mk r s =>
        rw [hrun] at htriple
        cases r with
        | error e => exact htriple.elim
        | ok err =>
          obtain ⟨j, hj, hprogress, hall, -⟩ := htriple
          rw [Nat.zero_add] at hprogress
          exact ⟨err, s, hrun, ⟨j, hj, hprogress.toPrograms, hall⟩, fun _ hc => by
            rw [hcache] at hc
            cases hc⟩

/-- A chip of 4096 bytes with pages of 16 bytes, whose host has a cache if `cache` says so. -/
def smallChip (cache : Bool) : Chip where
  size := 4096
  pageSize := 16
  maxWriteBytes := 8
  initialised := true
  hasWrite := true
  hasFlushCache := cache
  directWrite := true
  regionProtected := false

theorem espFlashWrite_exact_small :
    (14 + [1, 2, 3, 4].length ≤ (smallChip false).size ∧ (smallChip false).size < 2 ^ 32) ∧
      ∀ results, WritesExactly (smallChip false) 14 [1, 2, 3, 4] results :=
  ⟨by decide, (espFlashWrite_exact_iff (by decide) (by decide) (by decide) (by decide)).mpr
    (.inr (.inr rfl))⟩

/-- Four bytes across the border of a page are programmed in two pieces, and the cache is flushed
for no byte behind them. -/
theorem espFlashWrite_flushes_nothing :
    (espFlashWrite (smallChip true) [1, 2, 3, 4] 14 4 ⟨fun _ => espOk, []⟩).1 = .ok espOk ∧
    (espFlashWrite (smallChip true) [1, 2, 3, 4] 14 4 ⟨fun _ => espOk, []⟩).2.log =
      [.programPage 14 [1, 2], .programPage 16 [3, 4], .flushCache 18 0] ∧
    ¬ WritesExactly (smallChip true) 14 [1, 2, 3, 4] fun _ => espOk := by
  have hrun : espFlashWrite (smallChip true) [1, 2, 3, 4] 14 4 ⟨fun _ => espOk, []⟩ =
      (.ok espOk, ⟨fun _ => espOk,
        [.programPage 14 [1, 2], .programPage 16 [3, 4], .flushCache 18 0]⟩) := rfl
  refine ⟨by rw [hrun], by rw [hrun], ?_⟩
  rintro ⟨err, s, hrun', -, hflushed⟩
  cases hrun.symm.trans hrun'
  obtain ⟨a, size, hmem, hle, hlt⟩ := hflushed rfl rfl 14 le_rfl (by decide)
  simp only [List.mem_cons, reduceCtorEq, Cmd.flushCache.injEq, List.not_mem_nil, or_false,
    false_or] at hmem
  omega

end ChipWrite

end EspIdf.SpiFlash
