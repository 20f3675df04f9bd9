/-
# Reads through the ROM

The ROM reads whole words from word addresses into word buffers.  `spi_flash_read` serves any
range and any destination with such accesses: a middle part goes to the first aligned position
of the destination and is shifted into place, and what is left over on both sides is read once
more into words on the stack.
-/
import EspIdf.Lib.Prog
import EspIdf.Lib.Ram
import EspIdf.Lib.Signed
import EspIdf.SpiFlash.VerifiedWrite

namespace EspIdf.SpiFlash

open EspIdf.Lib

/-! ### The accesses of the ROM -/

/-- The buffer of an access. -/
inductive Buffer where
  /-- An array of `uint32_t` on the stack, with its bytes. -/
  | stack (bytes : ℕ)
  /-- The caller's memory from an address on. -/
  | ram (a : ℕ)
deriving DecidableEq, Repr

/-- The ROM takes the buffer for words, and `n` bytes fit where the size is known. -/
def Buffer.Holds (n : ℕ) : Buffer → Prop
  | stack bytes => n ≤ bytes
  | ram a => a % 4 = 0

/-- The direction of an access. -/
inductive RomOp where
  | read
  | write
deriving DecidableEq, Repr

/-- A call of `esp_rom_spiflash_read` or `esp_rom_spiflash_write`. -/
structure Access where
  op : RomOp
  flashAddr : ℕ
  buffer : Buffer
  len : ℕ
deriving DecidableEq, Repr

/-- The access is one of whole words inside `[lo, hi)`. -/
structure Access.Aligned (a : Access) (lo hi : ℕ) : Prop where
  addr : a.flashAddr % 4 = 0
  len : a.len % 4 = 0
  buffer : a.buffer.Holds a.len
  lo_le : lo ≤ a.flashAddr
  le_hi : a.flashAddr + a.len ≤ hi

/-- How the ROM answers, by all the accesses up to the present one. -/
structure Rom where
  result : List Access → RomResult
  /-- The bytes that an access leaves where it fails. -/
  junk : List Access → ℕ → Byte

/-- The memories, and the accesses of the ROM so far. -/
structure RomState where
  ram : Mem
  flash : Mem
  log : List Access

/-- A program that calls the ROM and leaves with the first result that is not `OK`. -/
abbrev RomProg (α : Type) : Type := Prog RomState RomResult α

variable (r : Rom)

/-- `esp_rom_spiflash_read` into an array of `cap` bytes on the stack. -/
def romRead (cap src len : ℕ) : RomProg (List Byte) := fun s =>
  let log := s.log ++ [⟨.read, src, .stack cap, len⟩]
  match r.result log with
  | .ok => (.ok (s.flash.read src len), { s with log })
  | e => (.error e, { s with log })

/-- `esp_rom_spiflash_read` into the memory at `dst`. -/
def romReadTo (src dst len : ℕ) : RomProg Unit := fun s =>
  let log := s.log ++ [⟨.read, src, .ram dst, len⟩]
  match r.result log with
  | .ok => (.ok (), { s with ram := s.ram.store dst (s.flash.read src len), log })
  | e => (.error e, { s with ram := s.ram.store dst ((List.range len).map (r.junk log)), log })

/-- `memcpy` from a buffer on the stack. -/
def memcpy (dst : ℕ) (bs : List Byte) : RomProg Unit :=
  Prog.modify fun s => { s with ram := s.ram.store dst bs }

/-- `memmove`. -/
def memmove (dst src n : ℕ) : RomProg Unit :=
  Prog.modify fun s => { s with ram := s.ram.store dst (s.ram.read src n) }

/-! ### The function -/

/-- `a & ~3U`. -/
def alignDown (a : ℕ) : ℕ := a / 4 * 4

/-- `MAX_READ_CHUNK`. -/
def maxReadChunk : ℕ := 16384

/-- The bytes of the bounce buffers. -/
def bounceSize : ℕ := 32

/-- The bytes of the next access of the middle part. -/
def chunk (max : ℕ) (direct : Bool) (left : ℕ) : ℕ :=
  if direct then min left max else min (min left max) bounceSize

/-- The reads of less than 16 bytes. -/
def readSmall (src dst size : ℕ) : RomProg Unit := do
  let leftOff := src % 4
  let t ← romRead r 24 (alignDown src) (alignDown (leftOff + size + 3))
  memcpy dst ((t.drop leftOff).take size)

lemma chunk_pos {max left : ℕ} (direct : Bool) (hmax : 0 < max) (h : left ≠ 0) :
    0 < chunk max direct left := by
  unfold chunk bounceSize
  split <;> omega

lemma chunk_le (max : ℕ) (direct : Bool) (left : ℕ) : chunk max direct left ≤ left := by
  unfold chunk
  split <;> omega

/-- A pass of the loop over the middle part. -/
def readChunk (direct : Bool) (src dst readSize : ℕ) : RomProg Unit :=
  if direct then romReadTo r src dst readSize
  else do
    let readBuf ← romRead r bounceSize src readSize
    memcpy dst readBuf

/-- The loop over the middle part, of which `midRead` bytes have been read. -/
def readMid (direct : Bool) (src dst midRead midRemaining : ℕ) : RomProg Unit :=
  if _h : midRemaining = 0 then pure ()
  else do
    let readSize := chunk maxReadChunk direct midRemaining
    readChunk r direct (src + midRead) (dst + midRead) readSize
    readMid direct src dst (midRead + readSize) (midRemaining - readSize)
termination_by midRemaining
decreasing_by
  have := chunk_pos direct (show 0 < maxReadChunk by decide) _h
  omega

/-- `src_mid_off`. -/
def srcMidOff (src : ℕ) : ℕ := if src % 4 = 0 then 0 else 4 - src % 4

/-- `dst_mid_off`, which is computed from the pointer as an `intptr_t`. -/
def dstMidOff (dst : ℕ) : ℕ :=
  if (intptr dst).tmod 4 = 0 then 0 else sizeT (4 - (intptr dst).tmod 4)

/-- The middle part: `midSize` bytes from the first word of the source go to the first word of the
destination, and from there to where they belong. -/
def readMiddle (capable : Bool) (src dst midSize : ℕ) : RomProg Unit :=
  let directRead := capable && (dst + dstMidOff dst) % 4 == 0
  if 0 < midSize then do
    readMid r directRead (src + srcMidOff src) (dst + dstMidOff dst) 0 midSize
    if srcMidOff src ≠ dstMidOff dst then
      memmove (dst + srcMidOff src) (dst + dstMidOff dst) midSize
    else pure ()
  else pure ()

/-- The bytes before the first word of the source. -/
def readPadLeft (src dst : ℕ) : RomProg Unit :=
  let padLeftSize := srcMidOff src
  if 0 < padLeftSize then do
    let t ← romRead r 4 (alignDown src) 4
    memcpy dst ((t.drop (4 - padLeftSize)).take padLeftSize)
  else pure ()

/-- The bytes behind the middle part. -/
def readPadRight (src dst size midSize : ℕ) : RomProg Unit :=
  let padRightSrc := alignDown (src + srcMidOff src + midSize)
  let padRightOff := padRightSrc - src
  let padRightSize := size - padRightOff
  if 0 < padRightSize then do
    let t ← romRead r 8 padRightSrc (if padRightSize ≤ 4 then 4 else 8)
    memcpy (dst + padRightOff) (t.take padRightSize)
  else pure ()

/-- The reads of 16 bytes and more.  `capable` says that the destination is in internal memory
that can be accessed by bytes. -/
def readLarge (capable : Bool) (src dst size : ℕ) : RomProg Unit := do
  let midSize := alignDown (size - max (srcMidOff src) (dstMidOff dst))
  readMiddle r capable src dst midSize
  readPadLeft r src dst
  readPadRight r src dst size midSize

/-- What a program returns after `spi_flash_translate_rc`. -/
def translated : Except RomResult Unit × RomState → ℤ × RomState
  | (.ok _, s) => (spiFlashTranslateRc .ok, s)
  | (.error rc, s) => (spiFlashTranslateRc rc, s)

/-- `spi_flash_read`, on a chip of `chipSize` bytes. -/
def spiFlashRead (chipSize : ℕ) (capable : Bool) (src dst size : ℕ) (s : RomState) : ℤ × RomState :=
  if chipSize < u32 (src + size) then (espErrInvalidSize, s)
  else if size = 0 then (espOk, s)
  else if size < 16 then translated (readSmall r src dst size s)
  else translated (readLarge r capable src dst size s)

/-! ### What the accesses do -/

/-- What a read in progress keeps: the flash and every byte outside the destination are as they
were, and all accesses are reads of whole words inside `[lo, hi)`. -/
structure Reading (lo hi dst size : ℕ) (s₀ s : RomState) : Prop where
  flash : s.flash = s₀.flash
  frame : ∀ x, ¬ (dst ≤ x ∧ x < dst + size) → s.ram x = s₀.ram x
  log : ∃ new, s.log = s₀.log ++ new ∧ ∀ a ∈ new, a.op = .read ∧ a.Aligned lo hi

/-- A read in progress with `m` in the memory. -/
def ReadAt (lo hi dst size : ℕ) (s₀ : RomState) (m : Mem) (s : RomState) : Prop :=
  Reading lo hi dst size s₀ s ∧ s.ram = m

/-- A read that was left with a result of the ROM. -/
def ReadFailed (lo hi dst size : ℕ) (s₀ : RomState) (rc : RomResult) (s : RomState) : Prop :=
  Reading lo hi dst size s₀ s ∧ rc ≠ .ok ∧ ∃ log, r.result log = rc

variable {r} {lo hi dst size a d cap len : ℕ} {s₀ : RomState} {m : Mem}

/-- One more access. -/
lemma Reading.access {s s' : RomState} {b : Buffer} (h : Reading lo hi dst size s₀ s)
    (ha : Access.Aligned ⟨.read, a, b, len⟩ lo hi) (hflash : s'.flash = s.flash)
    (hframe : ∀ x, ¬ (dst ≤ x ∧ x < dst + size) → s'.ram x = s.ram x)
    (hlog : s'.log = s.log ++ [⟨.read, a, b, len⟩]) : Reading lo hi dst size s₀ s' where
  flash := hflash.trans h.flash
  frame x hx := (hframe x hx).trans (h.frame x hx)
  log := by
    obtain ⟨new, hnew, hall⟩ := h.log
    refine ⟨new ++ [⟨.read, a, b, len⟩], by rw [hlog, hnew, List.append_assoc], ?_⟩
    intro x hx
    rcases List.mem_append.mp hx with hx | hx
    · exact hall x hx
    · obtain rfl := List.mem_singleton.mp hx
      exact ⟨rfl, ha⟩

lemma Reading.store {s : RomState} {bs : List Byte} (h : Reading lo hi dst size s₀ s)
    (hd : dst ≤ d) (hd' : d + bs.length ≤ dst + size) :
    Reading lo hi dst size s₀ { s with ram := s.ram.store d bs } where
  flash := h.flash
  frame x hx := (Mem.store_of_not_mem (by omega)).trans (h.frame x hx)
  log := h.log

lemma romRead_ok {s : RomState} (h : r.result (s.log ++ [⟨.read, a, .stack cap, len⟩]) = .ok) :
    romRead r cap a len s = (.ok (s.flash.read a len),
      { s with log := s.log ++ [⟨.read, a, .stack cap, len⟩] }) := by
  simp [romRead, h]

lemma romRead_error {s : RomState} (h : r.result (s.log ++ [⟨.read, a, .stack cap, len⟩]) ≠ .ok) :
    romRead r cap a len s = (.error (r.result (s.log ++ [⟨.read, a, .stack cap, len⟩])),
      { s with log := s.log ++ [⟨.read, a, .stack cap, len⟩] }) := by
  unfold romRead
  simp only

lemma romReadTo_ok {s : RomState} (h : r.result (s.log ++ [⟨.read, a, .ram d, len⟩]) = .ok) :
    romReadTo r a d len s = (.ok (),
      { s with
        ram := s.ram.store d (s.flash.read a len)
        log := s.log ++ [⟨.read, a, .ram d, len⟩] }) := by
  simp [romReadTo, h]

lemma romReadTo_error {s : RomState} (h : r.result (s.log ++ [⟨.read, a, .ram d, len⟩]) ≠ .ok) :
    romReadTo r a d len s = (.error (r.result (s.log ++ [⟨.read, a, .ram d, len⟩])),
      { s with
        ram := s.ram.store d
          ((List.range len).map (r.junk (s.log ++ [⟨.read, a, .ram d, len⟩])))
        log := s.log ++ [⟨.read, a, .ram d, len⟩] }) := by
  unfold romReadTo
  simp only

lemma romRead_triple (ha : Access.Aligned ⟨.read, a, .stack cap, len⟩ lo hi) :
    Prog.Triple (ReadAt lo hi dst size s₀ m) (romRead r cap a len)
      (fun bs s => bs = s₀.flash.read a len ∧ ReadAt lo hi dst size s₀ m s)
      (ReadFailed r lo hi dst size s₀) := by
  rintro s ⟨h, hm⟩
  have hs : Reading lo hi dst size s₀ { s with log := s.log ++ [⟨.read, a, .stack cap, len⟩] } :=
    h.access ha rfl (fun _ _ => rfl) rfl
  by_cases hr : r.result (s.log ++ [⟨.read, a, .stack cap, len⟩]) = .ok
  · rw [romRead_ok hr]
    exact ⟨by rw [h.flash], hs, hm⟩
  · rw [romRead_error hr]
    exact ⟨hs, hr, _, rfl⟩

lemma romReadTo_triple (ha : Access.Aligned ⟨.read, a, .ram d, len⟩ lo hi) (hd : dst ≤ d)
    (hd' : d + len ≤ dst + size) :
    Prog.Triple (ReadAt lo hi dst size s₀ m) (romReadTo r a d len)
      (fun _ => ReadAt lo hi dst size s₀ (m.store d (s₀.flash.read a len)))
      (ReadFailed r lo hi dst size s₀) := by
  rintro s ⟨h, rfl⟩
  have hstore (bs : List Byte) (hlen : bs.length = len) {x : ℕ}
      (hx : ¬ (dst ≤ x ∧ x < dst + size)) : s.ram.store d bs x = s.ram x :=
    Mem.store_of_not_mem (by omega)
  by_cases hr : r.result (s.log ++ [⟨.read, a, .ram d, len⟩]) = .ok
  · rw [romReadTo_ok hr]
    exact ⟨h.access ha rfl (fun x hx => hstore _ Mem.length_read hx) rfl, by rw [h.flash]⟩
  · rw [romReadTo_error hr]
    exact ⟨h.access ha rfl (fun x hx => hstore _ (by simp) hx) rfl, hr, _, rfl⟩

lemma memcpy_triple {bs : List Byte} (hd : dst ≤ d) (hd' : d + bs.length ≤ dst + size) :
    Prog.Triple (ReadAt lo hi dst size s₀ m) (memcpy d bs)
      (fun _ => ReadAt lo hi dst size s₀ (m.store d bs)) (ReadFailed r lo hi dst size s₀) :=
  Prog.Triple.modify fun s hs => ⟨hs.1.store hd hd', by rw [hs.2]⟩

lemma memmove_triple {b : ℕ} (hd : dst ≤ d) (hd' : d + len ≤ dst + size) :
    Prog.Triple (ReadAt lo hi dst size s₀ m) (memmove d b len)
      (fun _ => ReadAt lo hi dst size s₀ (m.store d (m.read b len)))
      (ReadFailed r lo hi dst size s₀) :=
  Prog.Triple.modify fun s hs =>
    ⟨hs.1.store hd (by rwa [Mem.length_read]), by rw [hs.2]⟩

/-! ### The parts of a read -/

lemma chunk_mod {max left : ℕ} (direct : Bool) (hmax : max % 4 = 0) (h : left % 4 = 0) :
    chunk max direct left % 4 = 0 := by
  unfold chunk bounceSize
  split <;> omega

lemma chunk_le_bounceSize (max left : ℕ) : chunk max false left ≤ bounceSize := by
  unfold chunk
  exact Nat.min_le_right _ _

lemma readChunk_triple {direct : Bool} (ha : a % 4 = 0) (hlen : len % 4 = 0)
    (hlo : lo ≤ a) (hhi : a + len ≤ hi) (hdirect : direct = true → d % 4 = 0)
    (hbounce : direct = false → len ≤ bounceSize) (hd : dst ≤ d) (hd' : d + len ≤ dst + size) :
    Prog.Triple (ReadAt lo hi dst size s₀ m) (readChunk r direct a d len)
      (fun _ => ReadAt lo hi dst size s₀ (m.store d (s₀.flash.read a len)))
      (ReadFailed r lo hi dst size s₀) := by
  apply Prog.Triple.ite
  · intro h
    exact romReadTo_triple ⟨ha, hlen, hdirect h, hlo, hhi⟩ hd hd'
  · intro h
    refine (romRead_triple ⟨ha, hlen, hbounce (by simpa using h), hlo, hhi⟩).bind fun bs => ?_
    apply Prog.Triple.assume
    rintro rfl
    exact memcpy_triple hd (by rwa [Mem.length_read])

lemma readMid_triple {direct : Bool} {k n : ℕ} (ha : a % 4 = 0) (hk : k % 4 = 0) (hn : n % 4 = 0)
    (hlo : lo ≤ a) (hhi : a + (k + n) ≤ hi) (hdirect : direct = true → d % 4 = 0) (hd : dst ≤ d)
    (hd' : d + (k + n) ≤ dst + size) :
    Prog.Triple (ReadAt lo hi dst size s₀ (m.store d (s₀.flash.read a k)))
      (readMid r direct a d k n)
      (fun _ => ReadAt lo hi dst size s₀ (m.store d (s₀.flash.read a (k + n))))
      (ReadFailed r lo hi dst size s₀) := by
  induction n using Nat.strongRecOn generalizing k with
  | _ n ih =>
    unfold readMid
    by_cases h : n = 0
    · subst h
      exact Prog.Triple.pure fun s hs => hs
    · rw [dif_neg h]
      have hpos := chunk_pos direct (show 0 < maxReadChunk by decide) h
      have hle := chunk_le maxReadChunk direct n
      have hmod := chunk_mod direct (show maxReadChunk % 4 = 0 by decide) hn
      have hbounce : direct = false → chunk maxReadChunk direct n ≤ bounceSize := by
        rintro rfl
        exact chunk_le_bounceSize _ _
      generalize chunk maxReadChunk direct n = l at hpos hle hmod hbounce
      refine (readChunk_triple (by omega) hmod (by omega) (by omega)
        (fun hdir => by have := hdirect hdir; omega) hbounce (by omega) (by omega)).bind fun _ => ?_
      have hstore := Mem.store_store (m := m) (a := d) (s₀.flash.read a k) (s₀.flash.read (a + k) l)
      rw [Mem.length_read, ← Mem.read_append] at hstore
      rw [hstore]
      have := ih (n - l) (by omega) (k := k + l) (by omega) (by omega) (by omega) (by omega)
      rwa [show k + l + (n - l) = k + n by omega] at this

/-- The loop over the whole middle part. -/
lemma readMid_all_triple {direct : Bool} {n : ℕ} (ha : a % 4 = 0) (hn : n % 4 = 0) (hlo : lo ≤ a)
    (hhi : a + n ≤ hi) (hdirect : direct = true → d % 4 = 0) (hd : dst ≤ d)
    (hd' : d + n ≤ dst + size) :
    Prog.Triple (ReadAt lo hi dst size s₀ m) (readMid r direct a d 0 n)
      (fun _ => ReadAt lo hi dst size s₀ (m.store d (s₀.flash.read a n)))
      (ReadFailed r lo hi dst size s₀) := by
  have h0 : s₀.flash.read a 0 = [] := rfl
  have hloop : Prog.Triple (ReadAt lo hi dst size s₀ (m.store d (s₀.flash.read a 0)))
      (readMid r direct a d 0 n)
      (fun _ => ReadAt lo hi dst size s₀ (m.store d (s₀.flash.read a (0 + n))))
      (ReadFailed r lo hi dst size s₀) :=
    readMid_triple ha rfl hn hlo (by omega) hdirect hd (by omega)
  rwa [h0, Mem.store_nil, Nat.zero_add] at hloop

lemma srcMidOff_le (src : ℕ) : srcMidOff src ≤ 3 := by
  unfold srcMidOff
  split <;> omega

lemma srcMidOff_mod (src : ℕ) : (src + srcMidOff src) % 4 = 0 := by
  unfold srcMidOff
  split <;> omega

/-- Below `2 ^ 31` the remainder of the pointer is not negative. -/
lemma dstMidOff_eq (h : dst < 2 ^ 31) : dstMidOff dst = srcMidOff dst := by
  have htmod : (intptr dst).tmod 4 = (dst % 4 : ℕ) := by
    rw [intptr_of_lt h]
    exact (Int.ofNat_tmod dst 4).symm
  unfold dstMidOff srcMidOff
  rw [htmod]
  by_cases h0 : dst % 4 = 0
  · rw [if_pos h0, if_pos (by omega)]
  · have hlt := Nat.mod_lt dst (show 0 < 4 by decide)
    rw [if_neg h0, if_neg (by omega), show (4 : ℤ) - (dst % 4 : ℕ) = (4 - dst % 4 : ℕ) by omega,
      sizeT_natCast (by omega)]

variable {src midSize : ℕ} {capable : Bool}

lemma readMiddle_triple (hdst : dst < 2 ^ 31) (hmid : midSize % 4 = 0)
    (hlo : lo ≤ src + srcMidOff src) (hhi : src + srcMidOff src + midSize ≤ hi)
    (hs : srcMidOff src + midSize ≤ size) (hd : dstMidOff dst + midSize ≤ size) :
    Prog.Triple (ReadAt lo hi dst size s₀ m) (readMiddle r capable src dst midSize)
      (fun _ s => ∃ m' : Mem, ReadAt lo hi dst size s₀
        (m'.store (dst + srcMidOff src) (s₀.flash.read (src + srcMidOff src) midSize)) s)
      (ReadFailed r lo hi dst size s₀) := by
  have hmod := srcMidOff_mod src
  have hdmod := srcMidOff_mod dst
  rw [← dstMidOff_eq hdst] at hdmod
  apply Prog.Triple.ite
  · intro _
    refine (readMid_all_triple hmod hmid hlo hhi (fun _ => hdmod) (by omega) (by omega)).bind
      fun _ => ?_
    apply Prog.Triple.ite
    · intro _
      refine (memmove_triple (by omega) (by omega)).conseq (fun _ h => h) ?_ fun _ _ h => h
      rintro _ s h
      rw [Mem.read_store_read] at h
      exact ⟨_, h⟩
    · intro heq
      rw [← not_not.mp heq]
      exact Prog.Triple.pure fun s h => ⟨m, h⟩
  · intro h0
    obtain rfl : midSize = 0 := by omega
    have h0 : s₀.flash.read (src + srcMidOff src) 0 = [] := rfl
    exact Prog.Triple.pure fun s h => ⟨m, by rwa [h0, Mem.store_nil]⟩

lemma readPadLeft_triple (hlo : lo ≤ alignDown src) (hhi : src + srcMidOff src ≤ hi)
    (hs : srcMidOff src ≤ size) :
    Prog.Triple (ReadAt lo hi dst size s₀ m) (readPadLeft r src dst)
      (fun _ => ReadAt lo hi dst size s₀ (m.store dst (s₀.flash.read src (srcMidOff src))))
      (ReadFailed r lo hi dst size s₀) := by
  have hmod := srcMidOff_mod src
  have hle := srcMidOff_le src
  apply Prog.Triple.ite
  · intro hpos
    have hword : alignDown src + 4 = src + srcMidOff src := by unfold alignDown; omega
    have hal : alignDown src % 4 = 0 := Nat.mul_mod_left _ _
    have haligned : Access.Aligned ⟨.read, alignDown src, .stack 4, 4⟩ lo hi :=
      ⟨hal, Nat.mod_self 4, Nat.le_refl 4, hlo, by show alignDown src + 4 ≤ hi; omega⟩
    refine (romRead_triple haligned).bind fun t => ?_
    apply Prog.Triple.assume
    rintro rfl
    have hbytes :
        ((s₀.flash.read (alignDown src) 4).drop (4 - srcMidOff src)).take (srcMidOff src) =
          s₀.flash.read src (srcMidOff src) := by
      rw [Mem.drop_read (by omega), Mem.take_read (by omega)]
      congr 1
      omega
    rw [hbytes]
    exact memcpy_triple (Nat.le_refl dst) (by rw [Mem.length_read]; omega)
  · intro h0
    have h0' : srcMidOff src = 0 := by omega
    have hnil : s₀.flash.read src 0 = [] := rfl
    rw [h0', hnil, Mem.store_nil]
    exact Prog.Triple.pure fun s h => h

lemma readPadRight_triple (hmid : midSize % 4 = 0) (hlo : lo ≤ src)
    (hhi : alignDown (src + size + 3) ≤ hi) (hs : srcMidOff src + midSize ≤ size)
    (hright : size - (srcMidOff src + midSize) ≤ 8) :
    Prog.Triple (ReadAt lo hi dst size s₀ m) (readPadRight r src dst size midSize)
      (fun _ => ReadAt lo hi dst size s₀
        (m.store (dst + (srcMidOff src + midSize))
          (s₀.flash.read (src + (srcMidOff src + midSize)) (size - (srcMidOff src + midSize)))))
      (ReadFailed r lo hi dst size s₀) := by
  have hmod := srcMidOff_mod src
  have hsrc : alignDown (src + srcMidOff src + midSize) = src + (srcMidOff src + midSize) := by
    unfold alignDown
    omega
  have hoff : src + (srcMidOff src + midSize) - src = srcMidOff src + midSize :=
    Nat.add_sub_cancel_left _ _
  have hend : src + size ≤ alignDown (src + size + 3) := by unfold alignDown; omega
  have hendmod : alignDown (src + size + 3) % 4 = 0 := Nat.mul_mod_left _ _
  have hoffmod : (src + (srcMidOff src + midSize)) % 4 = 0 := by omega
  unfold readPadRight
  simp only [hsrc, hoff]
  clear hsrc hoff
  generalize srcMidOff src + midSize = off at *
  apply Prog.Triple.ite
  · intro hpos
    have hlen : size - off ≤ (if size - off ≤ 4 then 4 else 8) := by split <;> omega
    have hin : src + off + (if size - off ≤ 4 then 4 else 8) ≤ hi := by split <;> omega
    have haligned : Access.Aligned ⟨.read, src + off, .stack 8, if size - off ≤ 4 then 4 else 8⟩
        lo hi :=
      ⟨by show (src + off) % 4 = 0; omega, by show (if _ then _ else _) % 4 = 0; split <;> rfl,
        by show (if _ then _ else _) ≤ 8; split <;> omega, by show lo ≤ src + off; omega, hin⟩
    refine (romRead_triple haligned).bind fun t => ?_
    apply Prog.Triple.assume
    rintro rfl
    rw [Mem.take_read hlen]
    exact memcpy_triple (by omega) (by rw [Mem.length_read]; omega)
  · intro h0
    have h0' : size - off = 0 := by omega
    have hnil : s₀.flash.read (src + off) 0 = [] := rfl
    rw [h0', hnil, Mem.store_nil]
    exact Prog.Triple.pure fun s h => h

/-! ### The whole read -/

/-- The destination holds the bytes of the flash. -/
def Filled (flash : Mem) (src dst size : ℕ) (ram : Mem) : Prop :=
  ∀ i < size, ram (dst + i) = flash (src + i)

/-- A read that is done. -/
def ReadDone (lo hi src dst size : ℕ) (s₀ s : RomState) : Prop :=
  Reading lo hi dst size s₀ s ∧ Filled s₀.flash src dst size s.ram

lemma readSmall_triple (h : size < 16) :
    Prog.Triple (ReadAt (alignDown src) (alignDown (src + size + 3)) dst size s₀ m)
      (readSmall r src dst size)
      (fun _ => ReadDone (alignDown src) (alignDown (src + size + 3)) src dst size s₀)
      (ReadFailed r (alignDown src) (alignDown (src + size + 3)) dst size s₀) := by
  have hsrc : alignDown src + src % 4 = src := by unfold alignDown; omega
  have hend : alignDown src + alignDown (src % 4 + size + 3) = alignDown (src + size + 3) := by
    unfold alignDown
    omega
  have hlen : src % 4 + size ≤ alignDown (src % 4 + size + 3) := by unfold alignDown; omega
  have hcap : alignDown (src % 4 + size + 3) ≤ 24 := by unfold alignDown; omega
  have haligned : Access.Aligned
      ⟨.read, alignDown src, .stack 24, alignDown (src % 4 + size + 3)⟩
      (alignDown src) (alignDown (src + size + 3)) :=
    ⟨Nat.mul_mod_left _ _, Nat.mul_mod_left _ _, hcap, Nat.le_refl _, Nat.le_of_eq hend⟩
  refine (romRead_triple haligned).bind fun t => ?_
  apply Prog.Triple.assume
  rintro rfl
  rw [Mem.drop_read (by omega), Mem.take_read (by omega), hsrc]
  refine (memcpy_triple (Nat.le_refl dst) (by rw [Mem.length_read])).conseq (fun _ h => h) ?_
    fun _ _ h => h
  rintro _ s ⟨hs, hram⟩
  refine ⟨hs, fun i hi => ?_⟩
  rw [hram, Mem.store_read_of_mem (by omega), Nat.add_sub_cancel_left]

lemma readLarge_triple (h : 16 ≤ size) (hdst : dst < 2 ^ 31) :
    Prog.Triple (ReadAt (alignDown src) (alignDown (src + size + 3)) dst size s₀ m)
      (readLarge r capable src dst size)
      (fun _ => ReadDone (alignDown src) (alignDown (src + size + 3)) src dst size s₀)
      (ReadFailed r (alignDown src) (alignDown (src + size + 3)) dst size s₀) := by
  have hs := srcMidOff_le src
  have hd := srcMidOff_le dst
  rw [← dstMidOff_eq hdst] at hd
  have hdown : alignDown src ≤ src := by unfold alignDown; omega
  have hup : src + size ≤ alignDown (src + size + 3) := by unfold alignDown; omega
  unfold readLarge
  obtain ⟨hmod, hmid, hright⟩ :
      alignDown (size - max (srcMidOff src) (dstMidOff dst)) % 4 = 0 ∧
      max (srcMidOff src) (dstMidOff dst) +
        alignDown (size - max (srcMidOff src) (dstMidOff dst)) ≤ size ∧
      size ≤ max (srcMidOff src) (dstMidOff dst) +
        alignDown (size - max (srcMidOff src) (dstMidOff dst)) + 3 := by
    unfold alignDown
    omega
  generalize alignDown (size - max (srcMidOff src) (dstMidOff dst)) = midSize at *
  refine (readMiddle_triple hdst hmod (by omega) (by omega) (by omega) (by omega)).bind fun _ => ?_
  apply Prog.Triple.of_exists
  intro m'
  refine (readPadLeft_triple (Nat.le_refl _) (by omega) (by omega)).bind fun _ => ?_
  refine (readPadRight_triple hmod hdown (Nat.le_refl _) (by omega) (by omega)).conseq
    (fun _ h => h) ?_ fun _ _ h => h
  rintro _ s ⟨hread, hram⟩
  refine ⟨hread, fun i hi => ?_⟩
  rw [hram]
  by_cases hr : srcMidOff src + midSize ≤ i
  · rw [Mem.store_read_of_mem (by omega)]
    congr 1
    omega
  · rw [Mem.store_of_not_mem (by rw [Mem.length_read]; omega)]
    by_cases hl : i < srcMidOff src
    · rw [Mem.store_read_of_mem (by omega), Nat.add_sub_cancel_left]
    · rw [Mem.store_of_not_mem (by rw [Mem.length_read]; omega),
        Mem.store_read_of_mem (by omega)]
      congr 1
      omega

/-- How a read ends. -/
structure ReadOutcome (r : Rom) (chipSize src dst size : ℕ) (s : RomState) (out : ℤ × RomState) :
    Prop where
  flash : out.2.flash = s.flash
  frame : ∀ x, ¬ (dst ≤ x ∧ x < dst + size) → out.2.ram x = s.ram x
  log : ∃ new, out.2.log = s.log ++ new ∧ ∀ a ∈ new, a.op = .read ∧ a.Aligned 0 chipSize
  filled : out.1 = espOk → Filled s.flash src dst size out.2.ram
  ok : (∀ log, r.result log = .ok) → out.1 = espOk

lemma Access.Aligned.mono {x : Access} {lo' hi' : ℕ} (h : x.Aligned lo hi) (hlo : lo' ≤ lo)
    (hhi : hi ≤ hi') : x.Aligned lo' hi' :=
  ⟨h.addr, h.len, h.buffer, hlo.trans h.lo_le, h.le_hi.trans hhi⟩

/-- The outcome of a program that reads. -/
lemma readOutcome_of_triple {p : RomProg Unit} {chipSize : ℕ} (hhi : hi ≤ chipSize)
    (h : Prog.Triple (ReadAt lo hi dst size s₀ s₀.ram) p
      (fun _ => ReadDone lo hi src dst size s₀) (ReadFailed r lo hi dst size s₀)) :
    ReadOutcome r chipSize src dst size s₀ (translated (p s₀)) := by
  have hreading : ReadAt lo hi dst size s₀ s₀.ram s₀ :=
    ⟨⟨rfl, fun _ _ => rfl, [], by simp⟩, rfl⟩
  have hlog {s : RomState} (hs : Reading lo hi dst size s₀ s) :
      ∃ new, s.log = s₀.log ++ new ∧ ∀ a ∈ new, a.op = .read ∧ a.Aligned 0 chipSize := by
    obtain ⟨new, hnew, hall⟩ := hs.log
    exact ⟨new, hnew, fun x hx => ⟨(hall x hx).1, (hall x hx).2.mono (Nat.zero_le lo) hhi⟩⟩
  have hp := h s₀ hreading
  rcases hrun : p s₀ with ⟨rc | u, s⟩
  · rw [hrun] at hp
    obtain ⟨hs, hne, log, hrc⟩ := hp
    have herr : spiFlashTranslateRc rc ≠ espOk := mt spiFlashTranslateRc_ok.mp hne
    exact ⟨hs.flash, hs.frame, hlog hs, fun hok => absurd hok herr,
      fun hall => absurd (hrc.symm.trans (hall log)) hne⟩
  · rw [hrun] at hp
    exact ⟨hp.1.flash, hp.1.frame, hlog hp.1, fun _ => hp.2, fun _ => rfl⟩

/-- A read inside the chip, to a destination that the processor can address as data. -/
lemma spiFlashRead_outcome {chipSize : ℕ} (hchip : chipSize % 4 = 0) (hchip' : chipSize < 2 ^ 32)
    (hin : src + size ≤ chipSize) (hdst : dst < 2 ^ 31) (s : RomState) :
    ReadOutcome r chipSize src dst size s (spiFlashRead r chipSize capable src dst size s) := by
  have hend : alignDown (src + size + 3) ≤ chipSize := by unfold alignDown; omega
  unfold spiFlashRead
  rw [u32_of_lt (by omega), if_neg (by omega)]
  by_cases h0 : size = 0
  · rw [if_pos h0]
    exact ⟨rfl, fun _ _ => rfl, ⟨[], by simp⟩, fun _ i hi => absurd hi (by omega), fun _ => rfl⟩
  · rw [if_neg h0]
    by_cases h16 : size < 16
    · rw [if_pos h16]
      exact readOutcome_of_triple hend (readSmall_triple h16)
    · rw [if_neg h16]
      exact readOutcome_of_triple hend (readLarge_triple (by omega) hdst)

end EspIdf.SpiFlash
