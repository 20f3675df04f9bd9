/-
# Writes through the ROM

`spi_flash_write` programs any range with whole words: the word that the range starts in, the
words inside and the word that it ends in.  Bytes of a word that are not written are set to
`0xff`, which leaves the flash as it is.
-/
import EspIdf.SpiFlash.LegacyRead

namespace EspIdf.SpiFlash

open EspIdf.Lib

variable (r : Rom)

/-! ### The function -/

/-- `esp_rom_spiflash_write` of `bs`, which are in the buffer `src`. -/
def romWrite (target : ℕ) (src : Buffer) (bs : List Byte) : RomProg Unit := fun s =>
  let log := s.log ++ [⟨.write, target, src, bs.length⟩]
  match r.result log with
  | .ok => (.ok (), { s with flash := s.flash.program target bs, log })
  | e =>
    (.error e,
      { s with flash := s.flash.program target ((List.range bs.length).map (r.junk log)), log })

/-- The buffer from its `i`-th byte on. -/
def Buffer.offset (i : ℕ) : Buffer → Buffer
  | stack bytes => stack (bytes - i)
  | ram a => ram (a + i)

/-- `spi_flash_write_inner` with `CONFIG_SPI_FLASH_VERIFY_WRITE`: pieces of 64 bytes are read,
programmed and read back. -/
def writeVerified (target : ℕ) (src : Buffer) (bs : List Byte) : RomProg Unit :=
  if _h : bs.length = 0 then pure ()
  else do
    let readLen := min buffByteReadNum bs.length
    let before ← romRead r buffByteReadNum target readLen
    romWrite r target src (bs.take readLen)
    let after ← romRead r buffByteReadNum target readLen
    if after ≠ List.zipWith (· &&& ·) (bs.take readLen) before then Prog.throw .err
    else
      writeVerified (target + buffByteReadNum) (src.offset buffByteReadNum)
        (bs.drop buffByteReadNum)
termination_by bs.length
decreasing_by
  rw [List.length_drop, buffByteReadNum]
  omega

/-- `spi_flash_write_inner`, with `CONFIG_SPI_FLASH_VERIFY_WRITE` or without. -/
def writeInner (verify : Bool) (target : ℕ) (src : Buffer) (bs : List Byte) : RomProg Unit :=
  if verify then writeVerified r target src bs else romWrite r target src bs

/-- Bytes of the caller's memory. -/
def ramRead (a n : ℕ) : RomProg (List Byte) := fun s => (.ok (s.ram.read a n), s)

/-- `MAX_WRITE_CHUNK`. -/
def maxWriteChunk : ℕ := 8192

/-- The word `0xffffffff` with the bytes `bs` copied into it from the offset `k` on. -/
def padded (k : ℕ) (bs : List Byte) : List Byte :=
  List.replicate k 0xff#8 ++ bs ++ List.replicate (4 - k - bs.length) 0xff#8

/-- The part of the range before its first whole word. -/
def writeLeft (verify : Bool) (dst src leftSize : ℕ) : RomProg Unit :=
  let leftOff := alignDown dst
  if 0 < leftSize then do
    let bs ← ramRead src leftSize
    writeInner r verify leftOff (.stack 4) (padded (dst - leftOff) bs)
  else pure ()

/-- The loop over the whole words, of which `midSize` bytes from the offset `midOff` on are left. -/
def writeMid (verify directWrite : Bool) (dst src midOff midSize : ℕ) : RomProg Unit :=
  if _h : midSize = 0 then pure ()
  else do
    let writeSize := chunk maxWriteChunk directWrite midSize
    let writeSrc ← ramRead (src + midOff) writeSize
    writeInner r verify (dst + midOff)
      (if directWrite then .ram (src + midOff) else .stack bounceSize) writeSrc
    writeMid verify directWrite dst src (midOff + writeSize) (midSize - writeSize)
termination_by midSize
decreasing_by
  have := chunk_pos directWrite (show 0 < maxWriteChunk by decide) _h
  omega

/-- The part of the range behind its last whole word. -/
def writeRight (verify : Bool) (dst src rightOff rightSize : ℕ) : RomProg Unit :=
  if 0 < rightSize then do
    let bs ← ramRead (src + rightOff) rightSize
    writeInner r verify (dst + rightOff) (.stack 4) (padded 0 bs)
  else pure ()

/-- The three parts of a write.  `capable` says that the source is in internal memory that can be
accessed by bytes. -/
def writeParts (verify capable : Bool) (dst src size : ℕ) : RomProg Unit := do
  let leftSize := min (alignDown (dst + 3) - dst) size
  let midOff := leftSize
  let midSize := alignDown (size - leftSize)
  let rightOff := leftSize + midSize
  let rightSize := size - midSize - leftSize
  let directWrite := capable && (src + midOff) % 4 == 0
  writeLeft r verify dst src leftSize
  writeMid r verify directWrite dst src midOff midSize
  writeRight r verify dst src rightOff rightSize

/-- `spi_flash_write`, where `safe` is the check of `CHECK_WRITE_ADDRESS`. -/
def spiFlashWrite (chipSize : ℕ) (safe : ℕ → ℕ → Bool) (verify capable : Bool) (dst src size : ℕ)
    (s : RomState) : ℤ × RomState :=
  if safe dst size = false then (espErrInvalidArg, s)
  else if chipSize < u32 (dst + size) then (espErrInvalidSize, s)
  else if size = 0 then (espOk, s)
  else translated (writeParts r verify capable dst src size s)

/-! ### What the accesses do -/

/-- What a write in progress keeps: the caller's memory and the words of the flash outside
`[lo, hi)` are as they were, and all accesses are of whole words inside. -/
structure Writing (lo hi : ℕ) (s₀ s : RomState) : Prop where
  ram : s.ram = s₀.ram
  frame : ∀ x, ¬ (lo ≤ x ∧ x < hi) → s.flash x = s₀.flash x
  log : ∃ new, s.log = s₀.log ++ new ∧ ∀ a ∈ new, a.Aligned lo hi

/-- A write in progress with `m` in the flash. -/
def WriteAt (lo hi : ℕ) (s₀ : RomState) (m : Mem) (s : RomState) : Prop :=
  Writing lo hi s₀ s ∧ s.flash = m

/-- A write that was left with a result of the ROM. -/
def WriteFailed (lo hi : ℕ) (s₀ : RomState) (rc : RomResult) (s : RomState) : Prop :=
  Writing lo hi s₀ s ∧ rc ≠ .ok ∧ ∃ log, r.result log = rc

variable {r} {lo hi a cap len : ℕ} {b : Buffer} {bs : List Byte} {s₀ : RomState} {m : Mem}
  {verify : Bool}

/-- One more access. -/
lemma Writing.access {s s' : RomState} {x : Access} (h : Writing lo hi s₀ s)
    (ha : x.Aligned lo hi) (hram : s'.ram = s.ram)
    (hframe : ∀ x, ¬ (lo ≤ x ∧ x < hi) → s'.flash x = s.flash x)
    (hlog : s'.log = s.log ++ [x]) : Writing lo hi s₀ s' where
  ram := hram.trans h.ram
  frame x hx := (hframe x hx).trans (h.frame x hx)
  log := by
    obtain ⟨new, hnew, hall⟩ := h.log
    refine ⟨new ++ [x], by rw [hlog, hnew, List.append_assoc], ?_⟩
    intro y hy
    rcases List.mem_append.mp hy with hy | hy
    · exact hall y hy
    · obtain rfl := List.mem_singleton.mp hy
      exact ha

lemma romWrite_ok {s : RomState} (h : r.result (s.log ++ [⟨.write, a, b, bs.length⟩]) = .ok) :
    romWrite r a b bs s = (.ok (),
      { s with
        flash := s.flash.program a bs
        log := s.log ++ [⟨.write, a, b, bs.length⟩] }) := by
  simp [romWrite, h]

lemma romWrite_error {s : RomState} (h : r.result (s.log ++ [⟨.write, a, b, bs.length⟩]) ≠ .ok) :
    romWrite r a b bs s = (.error (r.result (s.log ++ [⟨.write, a, b, bs.length⟩])),
      { s with
        flash := s.flash.program a
          ((List.range bs.length).map (r.junk (s.log ++ [⟨.write, a, b, bs.length⟩])))
        log := s.log ++ [⟨.write, a, b, bs.length⟩] }) := by
  unfold romWrite
  simp only

lemma romWrite_triple (ha : Access.Aligned ⟨.write, a, b, bs.length⟩ lo hi) :
    Prog.Triple (WriteAt lo hi s₀ m) (romWrite r a b bs)
      (fun _ => WriteAt lo hi s₀ (m.program a bs)) (WriteFailed r lo hi s₀) := by
  have hlo : lo ≤ a := ha.lo_le
  have hhi : a + bs.length ≤ hi := ha.le_hi
  rintro s ⟨h, rfl⟩
  have hprogram (cs : List Byte) (hlen : cs.length = bs.length) {x : ℕ}
      (hx : ¬ (lo ≤ x ∧ x < hi)) : s.flash.program a cs x = s.flash x :=
    Mem.program_of_not_mem (by omega)
  by_cases hr : r.result (s.log ++ [⟨.write, a, b, bs.length⟩]) = .ok
  · rw [romWrite_ok hr]
    exact ⟨h.access ha rfl (fun x hx => hprogram _ rfl hx) rfl, rfl⟩
  · rw [romWrite_error hr]
    exact ⟨h.access ha rfl (fun x hx => hprogram _ (by simp) hx) rfl, hr, _, rfl⟩

lemma romRead_write_triple (ha : Access.Aligned ⟨.read, a, .stack cap, len⟩ lo hi) :
    Prog.Triple (WriteAt lo hi s₀ m) (romRead r cap a len)
      (fun bs s => bs = m.read a len ∧ WriteAt lo hi s₀ m s) (WriteFailed r lo hi s₀) := by
  rintro s ⟨h, rfl⟩
  have hs : Writing lo hi s₀ { s with log := s.log ++ [⟨.read, a, .stack cap, len⟩] } :=
    h.access ha rfl (fun _ _ => rfl) rfl
  by_cases hr : r.result (s.log ++ [⟨.read, a, .stack cap, len⟩]) = .ok
  · rw [romRead_ok hr]
    exact ⟨rfl, hs, rfl⟩
  · rw [romRead_error hr]
    exact ⟨hs, hr, _, rfl⟩

lemma ramRead_triple {src n : ℕ} : Prog.Triple (WriteAt lo hi s₀ m) (ramRead src n)
    (fun bs s => bs = s₀.ram.read src n ∧ WriteAt lo hi s₀ m s) (WriteFailed r lo hi s₀) := by
  intro s h
  exact ⟨by rw [h.1.ram], h⟩

/-- What was programmed is the bytes that were there and those that were written. -/
lemma read_program (bs : List Byte) : (m.program a bs).read a bs.length =
    List.zipWith (· &&& ·) bs (m.read a bs.length) := by
  apply Mem.read_eq_of_getD (by simp)
  intro i hi
  rw [Mem.program_of_mem (by omega), Nat.add_sub_cancel_left, BitVec.and_comm]
  simp [List.getD, Mem.read, hi]

lemma Buffer.Holds.offset {n k : ℕ} (h : b.Holds n) (hk : k % 4 = 0) :
    (b.offset k).Holds (n - k) := by
  cases b with
  | stack bytes => exact Nat.sub_le_sub_right h k
  | ram x => have hx : x % 4 = 0 := h; show (x + k) % 4 = 0; omega

lemma Buffer.Holds.mono {n k : ℕ} (h : b.Holds n) (hk : k ≤ n) : b.Holds k := by
  cases b with
  | stack bytes => exact hk.trans h
  | ram x => exact h

lemma program_nil : m.program a [] = m :=
  funext fun _ => Mem.program_of_not_mem (by rw [List.length_nil]; omega)

lemma writeVerified_nil : writeVerified r a b [] = pure () := by
  unfold writeVerified
  rfl

lemma writeVerified_triple (ha : a % 4 = 0) (hlen : bs.length % 4 = 0) (hb : b.Holds bs.length)
    (hlo : lo ≤ a) (hhi : a + bs.length ≤ hi) :
    Prog.Triple (WriteAt lo hi s₀ m) (writeVerified r a b bs)
      (fun _ => WriteAt lo hi s₀ (m.program a bs)) (WriteFailed r lo hi s₀) := by
  induction hn : bs.length using Nat.strongRecOn generalizing a b bs m with
  | _ n ih =>
    unfold writeVerified
    by_cases h0 : bs.length = 0
    · rw [dif_pos h0]
      obtain rfl := List.length_eq_zero_iff.mp h0
      rw [program_nil]
      exact Prog.Triple.pure fun s h => h
    · rw [dif_neg h0]
      have hl : min buffByteReadNum bs.length % 4 = 0 := by rw [buffByteReadNum]; omega
      have hle : min buffByteReadNum bs.length ≤ buffByteReadNum := Nat.min_le_left _ _
      have htake : (bs.take (min buffByteReadNum bs.length)).length =
          min buffByteReadNum bs.length := by
        rw [List.length_take]
        omega
      have hread : Access.Aligned
          ⟨.read, a, .stack buffByteReadNum, min buffByteReadNum bs.length⟩ lo hi :=
        ⟨ha, hl, hle, hlo, by show a + min buffByteReadNum bs.length ≤ hi; omega⟩
      have hwrite : Access.Aligned
          ⟨.write, a, b, (bs.take (min buffByteReadNum bs.length)).length⟩ lo hi := by
        rw [htake]
        exact ⟨ha, hl, hb.mono (Nat.min_le_right _ _), hlo,
          by show a + min buffByteReadNum bs.length ≤ hi; omega⟩
      refine (romRead_write_triple hread).bind fun before => ?_
      apply Prog.Triple.assume
      rintro rfl
      refine (romWrite_triple hwrite).bind fun _ => ?_
      refine (romRead_write_triple hread).bind fun after => ?_
      apply Prog.Triple.assume
      rintro rfl
      have hsame := read_program (m := m) (a := a) (bs.take (min buffByteReadNum bs.length))
      rw [htake] at hsame
      rw [hsame, if_neg (not_not.mpr rfl)]
      rcases Nat.lt_or_ge bs.length buffByteReadNum with hlast | hmore
      · -- the last piece
        rw [Nat.min_eq_right (Nat.le_of_lt hlast), List.take_length,
          List.drop_of_length_le (Nat.le_of_lt hlast), writeVerified_nil]
        exact Prog.Triple.pure fun s h => h
      · rw [Nat.min_eq_left hmore] at htake ⊢
        have hdrop : (bs.drop buffByteReadNum).length = bs.length - buffByteReadNum :=
          List.length_drop
        have hrest := Mem.program_program (m := m) (a := a) (bs.take buffByteReadNum)
          (bs.drop buffByteReadNum)
        rw [htake, List.take_append_drop] at hrest
        rw [← hrest]
        have h64 : buffByteReadNum = 64 := rfl
        refine ih _ ?_ ?_ ?_ ?_ ?_ ?_ hdrop
        · omega
        · omega
        · omega
        · rw [hdrop]
          exact hb.offset (by decide)
        · omega
        · omega

lemma writeInner_triple (ha : a % 4 = 0) (hlen : bs.length % 4 = 0) (hb : b.Holds bs.length)
    (hlo : lo ≤ a) (hhi : a + bs.length ≤ hi) :
    Prog.Triple (WriteAt lo hi s₀ m) (writeInner r verify a b bs)
      (fun _ => WriteAt lo hi s₀ (m.program a bs)) (WriteFailed r lo hi s₀) := by
  apply Prog.Triple.ite
  · intro _
    exact writeVerified_triple ha hlen hb hlo hhi
  · intro _
    exact romWrite_triple ⟨ha, hlen, hb, hlo, hhi⟩

/-! ### The parts of a write -/

lemma program_replicate (k : ℕ) : m.program a (List.replicate k 0xff#8) = m := by
  funext x
  by_cases hx : a ≤ x ∧ x < a + (List.replicate k 0xff#8).length
  · rw [Mem.program_of_mem hx, List.getD, List.getElem?_replicate]
    rw [List.length_replicate] at hx
    rw [if_pos (by omega)]
    exact BitVec.and_allOnes
  · exact Mem.program_of_not_mem hx

/-- Set bits around the bytes that are written do nothing. -/
lemma program_padded (k : ℕ) : m.program a (padded k bs) = m.program (a + k) bs := by
  rw [padded, ← Mem.program_program, program_replicate, ← Mem.program_program, program_replicate,
    List.length_replicate]

lemma length_padded {k : ℕ} (h : k + bs.length ≤ 4) : (padded k bs).length = 4 := by
  simp only [padded, List.length_append, List.length_replicate]
  omega

variable {dst src size : ℕ}

lemma writeLeft_triple {leftSize : ℕ} (hlo : lo ≤ alignDown dst)
    (hhi : 0 < leftSize → alignDown dst + 4 ≤ hi) (hleft : dst + leftSize ≤ alignDown dst + 4) :
    Prog.Triple (WriteAt lo hi s₀ m) (writeLeft r verify dst src leftSize)
      (fun _ => WriteAt lo hi s₀ (m.program dst (s₀.ram.read src leftSize)))
      (WriteFailed r lo hi s₀) := by
  have hdown : alignDown dst ≤ dst := by unfold alignDown; omega
  have hmod : alignDown dst % 4 = 0 := Nat.mul_mod_left _ _
  apply Prog.Triple.ite
  · intro hpos
    refine ramRead_triple.bind fun bs => ?_
    apply Prog.Triple.assume
    rintro rfl
    have hlen : (padded (dst - alignDown dst) (s₀.ram.read src leftSize)).length = 4 :=
      length_padded (by rw [Mem.length_read]; omega)
    have hword : m.program (alignDown dst)
        (padded (dst - alignDown dst) (s₀.ram.read src leftSize)) =
        m.program dst (s₀.ram.read src leftSize) := by
      rw [program_padded, Nat.add_sub_cancel' hdown]
    rw [← hword]
    refine writeInner_triple hmod (by rw [hlen]) ?_ hlo (by rw [hlen]; exact hhi hpos)
    rw [hlen]
    exact Nat.le_refl 4
  · intro h0
    obtain rfl : leftSize = 0 := by omega
    have hnil : s₀.ram.read src 0 = [] := rfl
    rw [hnil, program_nil]
    exact Prog.Triple.pure fun s h => h

lemma writeMid_triple {direct : Bool} {k n : ℕ} (hd : 0 < n → (dst + k) % 4 = 0)
    (hn : n % 4 = 0) (hlo : lo ≤ dst + k) (hhi : dst + k + n ≤ hi)
    (hdirect : direct = true → (src + k) % 4 = 0) :
    Prog.Triple (WriteAt lo hi s₀ (m.program dst (s₀.ram.read src k)))
      (writeMid r verify direct dst src k n)
      (fun _ => WriteAt lo hi s₀ (m.program dst (s₀.ram.read src (k + n))))
      (WriteFailed r lo hi s₀) := by
  induction n using Nat.strongRecOn generalizing k with
  | _ n ih =>
    unfold writeMid
    by_cases h : n = 0
    · subst h
      exact Prog.Triple.pure fun s hs => hs
    · rw [dif_neg h]
      have hpos := chunk_pos direct (show 0 < maxWriteChunk by decide) h
      have hle := chunk_le maxWriteChunk direct n
      have hmod := chunk_mod direct (show maxWriteChunk % 4 = 0 by decide) hn
      have hbounce : direct = false → chunk maxWriteChunk direct n ≤ bounceSize := by
        rintro rfl
        exact chunk_le_bounceSize _ _
      generalize chunk maxWriteChunk direct n = l at hpos hle hmod hbounce
      have hd' := hd (by omega)
      refine ramRead_triple.bind fun writeSrc => ?_
      apply Prog.Triple.assume
      rintro rfl
      have hbuf : (if direct = true then Buffer.ram (src + k) else .stack bounceSize).Holds
          (s₀.ram.read (src + k) l).length := by
        rw [Mem.length_read]
        split
        · next hdir => exact hdirect hdir
        · next hdir => exact hbounce (by simpa using hdir)
      refine (writeInner_triple hd' (by rwa [Mem.length_read]) hbuf hlo
        (by rw [Mem.length_read]; omega)).bind fun _ => ?_
      have hprogram := Mem.program_program (m := m) (a := dst) (s₀.ram.read src k)
        (s₀.ram.read (src + k) l)
      rw [Mem.length_read, ← Mem.read_append] at hprogram
      rw [hprogram]
      have := ih (n - l) (by omega) (k := k + l) (by omega) (by omega) (by omega) (by omega)
        (fun hdir => by have := hdirect hdir; omega)
      rwa [show k + l + (n - l) = k + n by omega] at this

lemma writeRight_triple {off n : ℕ} (hd : 0 < n → (dst + off) % 4 = 0) (hn : n ≤ 4)
    (hlo : lo ≤ dst + off) (hhi : 0 < n → dst + off + 4 ≤ hi) :
    Prog.Triple (WriteAt lo hi s₀ (m.program dst (s₀.ram.read src off)))
      (writeRight r verify dst src off n)
      (fun _ => WriteAt lo hi s₀ (m.program dst (s₀.ram.read src (off + n))))
      (WriteFailed r lo hi s₀) := by
  apply Prog.Triple.ite
  · intro hpos
    refine ramRead_triple.bind fun bs => ?_
    apply Prog.Triple.assume
    rintro rfl
    have hlen : (padded 0 (s₀.ram.read (src + off) n)).length = 4 :=
      length_padded (by rw [Mem.length_read]; omega)
    have hprogram := Mem.program_program (m := m) (a := dst) (s₀.ram.read src off)
      (s₀.ram.read (src + off) n)
    rw [Mem.length_read, ← Mem.read_append, ← Nat.add_zero (dst + off), ← program_padded 0]
      at hprogram
    rw [← hprogram]
    refine writeInner_triple (hd hpos) (by rw [hlen]) ?_ hlo (by rw [hlen]; exact hhi hpos)
    rw [hlen]
    exact Nat.le_refl 4
  · intro h0
    obtain rfl : n = 0 := by omega
    exact Prog.Triple.pure fun s h => h

/-! ### The whole write -/

lemma writeParts_triple {capable : Bool} :
    Prog.Triple (WriteAt (alignDown dst) (alignDown (dst + size + 3)) s₀ m)
      (writeParts r verify capable dst src size)
      (fun _ => WriteAt (alignDown dst) (alignDown (dst + size + 3)) s₀
        (m.program dst (s₀.ram.read src size)))
      (WriteFailed r (alignDown dst) (alignDown (dst + size + 3)) s₀) := by
  have hdown : alignDown dst ≤ dst := by unfold alignDown; omega
  have hdmod : alignDown dst % 4 = 0 := Nat.mul_mod_left _ _
  have hup : dst + size ≤ alignDown (dst + size + 3) := by unfold alignDown; omega
  have hmod : alignDown (dst + size + 3) % 4 = 0 := Nat.mul_mod_left _ _
  have hend : alignDown (dst + size + 3) ≤ dst + size + 3 := by unfold alignDown; omega
  simp only [writeParts]
  obtain ⟨hl, hl4, hlmod⟩ : min (alignDown (dst + 3) - dst) size ≤ size ∧
      dst + min (alignDown (dst + 3) - dst) size ≤ alignDown dst + 4 ∧
      (min (alignDown (dst + 3) - dst) size < size →
        (dst + min (alignDown (dst + 3) - dst) size) % 4 = 0) := by
    unfold alignDown
    omega
  generalize min (alignDown (dst + 3) - dst) size = leftSize at *
  obtain ⟨hm, hm4, hmmod⟩ : alignDown (size - leftSize) ≤ size - leftSize ∧
      size - leftSize ≤ alignDown (size - leftSize) + 3 ∧
      alignDown (size - leftSize) % 4 = 0 := by
    unfold alignDown
    omega
  generalize alignDown (size - leftSize) = midSize at *
  refine (writeLeft_triple (Nat.le_refl _) (fun hpos => by omega) hl4).bind fun _ => ?_
  have hdirect : (capable && (src + leftSize) % 4 == 0) = true → (src + leftSize) % 4 = 0 := by
    intro hdir
    simpa using (Bool.and_eq_true_iff.mp hdir).2
  refine (writeMid_triple (fun hpos => hlmod (by omega)) hmmod ?_ ?_ hdirect).bind fun _ => ?_
  · omega
  · omega
  refine (writeRight_triple (fun hpos => by omega) (by omega) (by omega)
    (fun hpos => by omega)).conseq (fun _ h => h) ?_ fun _ _ h => h
  intro _ s h
  rwa [show leftSize + midSize + (size - midSize - leftSize) = size by omega] at h

/-- How a write ends. -/
structure WriteOutcome (r : Rom) (chipSize dst src size : ℕ) (s : RomState) (out : ℤ × RomState) :
    Prop where
  ram : out.2.ram = s.ram
  /-- Also where the ROM fails, only the words of the range can change. -/
  frame : ∀ x, ¬ (alignDown dst ≤ x ∧ x < alignDown (dst + size + 3)) →
    out.2.flash x = s.flash x
  log : ∃ new, out.2.log = s.log ++ new ∧ ∀ a ∈ new, a.Aligned 0 chipSize
  exact : out.1 = espOk → ∀ x, out.2.flash x =
    if dst ≤ x ∧ x < dst + size then s.flash x &&& s.ram (src + (x - dst)) else s.flash x
  ok : (∀ log, r.result log = .ok) → out.1 = espOk

/-- Programming what the memory holds. -/
lemma program_read (m' : Mem) (x : ℕ) : m.program dst (m'.read src size) x =
    if dst ≤ x ∧ x < dst + size then m x &&& m' (src + (x - dst)) else m x := by
  split
  · next h => rw [Mem.program_of_mem (by rwa [Mem.length_read]), Mem.getD_read (by omega)]
  · next h => exact Mem.program_of_not_mem (by rwa [Mem.length_read])

/-- A write inside the chip that the guard lets pass. -/
lemma spiFlashWrite_outcome {chipSize : ℕ} {capable : Bool} {safe : ℕ → ℕ → Bool}
    (hchip : chipSize % 4 = 0) (hchip' : chipSize < 2 ^ 32) (hin : dst + size ≤ chipSize)
    (hsafe : safe dst size = true) (s : RomState) :
    WriteOutcome r chipSize dst src size s
      (spiFlashWrite r chipSize safe verify capable dst src size s) := by
  have hend : alignDown (dst + size + 3) ≤ chipSize := by unfold alignDown; omega
  unfold spiFlashWrite
  rw [if_neg (by simp [hsafe]), u32_of_lt (by omega), if_neg (by omega)]
  by_cases h0 : size = 0
  · rw [if_pos h0]
    exact ⟨rfl, fun _ _ => rfl, ⟨[], by simp⟩, fun _ x => (if_neg (by omega)).symm, fun _ => rfl⟩
  · rw [if_neg h0]
    have hwriting : WriteAt (alignDown dst) (alignDown (dst + size + 3)) s s.flash s :=
      ⟨⟨rfl, fun _ _ => rfl, [], by simp⟩, rfl⟩
    have hlog {t : RomState} (ht : Writing (alignDown dst) (alignDown (dst + size + 3)) s t) :
        ∃ new, t.log = s.log ++ new ∧ ∀ a ∈ new, a.Aligned 0 chipSize := by
      obtain ⟨new, hnew, hall⟩ := ht.log
      exact ⟨new, hnew, fun x hx => (hall x hx).mono (Nat.zero_le _) hend⟩
    have htriple : Prog.Triple (WriteAt (alignDown dst) (alignDown (dst + size + 3)) s s.flash)
        (writeParts r verify capable dst src size) _ _ := writeParts_triple
    have hp := htriple s hwriting
    rcases hrun : writeParts r verify capable dst src size s with ⟨rc | u, t⟩
    · rw [hrun] at hp
      obtain ⟨ht, hne, log, hrc⟩ := hp
      have herr : spiFlashTranslateRc rc ≠ espOk := mt spiFlashTranslateRc_ok.mp hne
      exact ⟨ht.ram, ht.frame, hlog ht, fun hok => absurd hok herr,
        fun hall => absurd (hrc.symm.trans (hall log)) hne⟩
    · rw [hrun] at hp
      obtain ⟨ht, hflash⟩ := hp
      refine ⟨ht.ram, ht.frame, hlog ht, fun _ x => ?_, fun _ => rfl⟩
      exact (congrFun hflash x).trans (program_read s.ram x)

/-- `SOC_RTC_DATA_HIGH`: no memory for data lies above. -/
def socRtcDataHigh : ℕ := 0x50002000

/-- The legacy flash functions are exact to the byte for every alignment and every size, directly
and through the bounce buffer, and they ask the ROM for aligned words of the chip only. -/
theorem legacyFlash_exact (r : Rom) (chipSize : ℕ) (hchip : chipSize % 4 = 0)
    (hchip' : chipSize < 2 ^ 32) :
    (∀ (capable : Bool) (src dst size : ℕ) (s : RomState), src + size ≤ chipSize →
      dst < socRtcDataHigh →
        ReadOutcome r chipSize src dst size s (spiFlashRead r chipSize capable src dst size s)) ∧
    ∀ (safe : ℕ → ℕ → Bool) (verify capable : Bool) (dst src size : ℕ) (s : RomState),
      dst + size ≤ chipSize → safe dst size = true →
        WriteOutcome r chipSize dst src size s
          (spiFlashWrite r chipSize safe verify capable dst src size s) := by
  constructor
  · intro capable src dst size s hin hdst
    have hdst' : dst < 2 ^ 31 := Nat.lt_trans hdst (by decide)
    exact spiFlashRead_outcome hchip hchip' hin hdst' s
  · intro safe verify capable dst src size s hin hsafe
    exact spiFlashWrite_outcome hchip hchip' hin hsafe s

/-- A ROM that serves every access. -/
def servingRom : Rom := ⟨fun _ => .ok, fun _ _ => 0xff#8⟩

/-- 21 bytes from the third byte of a word on, to the second byte of a word. -/
theorem legacyFlash_exact_unaligned :
    Filled (fun x => BitVec.ofNat 8 x) 0x1003 0x3ffb0002 21
      (spiFlashRead servingRom 0x400000 true 0x1003 0x3ffb0002 21
        ⟨fun _ => 0#8, fun x => BitVec.ofNat 8 x, []⟩).2.ram := by
  have h := (legacyFlash_exact servingRom 0x400000 (by decide) (by decide)).1 true
    0x1003 0x3ffb0002 21 ⟨fun _ => 0#8, fun x => BitVec.ofNat 8 x, []⟩ (by decide) (by decide)
  exact h.filled (h.ok fun _ => rfl)

end EspIdf.SpiFlash
