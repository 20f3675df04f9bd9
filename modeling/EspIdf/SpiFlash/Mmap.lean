/-
# Mapping flash memory

Flash pages are mapped through the entries of the MMU tables of the two processors.  An entry
may be shared by several mappings, and `s_mmap_page_refcnt` counts them in eight bits.
-/
import Mathlib

namespace EspIdf.SpiFlash

/-- `SPI_FLASH_MMU_PAGE_SIZE`. -/
def mmuPageSize : ℕ := 0x10000

/-- What differs between the chips. -/
structure Target where
  /-- `REGIONS_COUNT * PAGES_PER_REGION`. -/
  pages : ℕ
  drom0PagesStart : ℕ
  drom0PagesNum : ℕ
  /-- `PRO_IRAM0_FIRST_USABLE_PAGE`. -/
  iram0FirstUsablePage : ℕ
  /-- The pages from there to `IROM0_PAGES_END`. -/
  iram0PagesNum : ℕ
  /-- `VADDR0_START_ADDR`. -/
  vaddr0StartAddr : ℕ
  /-- `VADDR1_FIRST_USABLE_ADDR`. -/
  vaddr1FirstUsableAddr : ℕ
  pageInFlash : ℕ → ℕ
  invalidEntryVal : ℕ
  mmuAddrMask : ℕ
  /-- `CONFIG_FREERTOS_UNICORE`. -/
  unicore : Bool
  drom0_le : drom0PagesStart + drom0PagesNum ≤ pages
  iram0_le : iram0FirstUsablePage + iram0PagesNum ≤ pages
  vaddr0_lt : vaddr0StartAddr + drom0PagesNum * mmuPageSize < 2 ^ 32
  vaddr1_lt : vaddr1FirstUsableAddr + iram0PagesNum * mmuPageSize < 2 ^ 32
  pageInFlash_valid : ∀ p ≤ mmuAddrMask, pageInFlash p &&& invalidEntryVal = 0
  pageInFlash_addr : ∀ p ≤ mmuAddrMask, pageInFlash p &&& mmuAddrMask = p
  /-- The application processor's entry is written without `PAGE_IN_FLASH`. -/
  pageInFlash_app : unicore = false → ∀ p, pageInFlash p = p

lemma and_two_pow_of_lt {n p : ℕ} (h : p < 2 ^ n) : p &&& 2 ^ n = 0 := by
  rw [Nat.and_two_pow, Nat.testBit_lt_two_pow h]
  exact Nat.zero_mul _

lemma and_mask_of_lt {n p : ℕ} (h : p < 2 ^ n) : p &&& (2 ^ n - 1) = p := by
  rw [Nat.and_two_pow_sub_one_eq_mod, Nat.mod_eq_of_lt h]

/-- The ESP32. -/
def Target.esp32 (unicore : Bool) : Target where
  pages := 256
  drom0PagesStart := 0
  drom0PagesNum := 64
  iram0FirstUsablePage := 77
  iram0PagesNum := 179
  vaddr0StartAddr := 0x3F400000
  vaddr1FirstUsableAddr := 0x400D0000
  pageInFlash := fun page => page
  invalidEntryVal := 0x100
  mmuAddrMask := 0xff
  unicore := unicore
  drom0_le := by decide
  iram0_le := by decide
  vaddr0_lt := by decide
  vaddr1_lt := by decide
  pageInFlash_valid := fun p hp => and_two_pow_of_lt (n := 8) (Nat.lt_succ_of_le hp)
  pageInFlash_addr := fun p hp => and_mask_of_lt (n := 8) (Nat.lt_succ_of_le hp)
  pageInFlash_app := fun _ _ => rfl

/-- The ESP32-S2 Beta; read-only data goes through the instruction cache or the data cache. -/
def Target.esp32s2beta (usingICache : Bool) : Target where
  pages := 512
  drom0PagesStart := if usingICache then 0xC0 else 0x1C0
  drom0PagesNum := 64
  iram0FirstUsablePage := 8
  iram0PagesNum := 184
  vaddr0StartAddr := 0x3F000000
  vaddr1FirstUsableAddr := 0x40080000
  pageInFlash := fun page => page ||| 0x8000
  invalidEntryVal := 0x4000
  mmuAddrMask := 0x3fff
  unicore := true
  drom0_le := by cases usingICache <;> decide
  iram0_le := by decide
  vaddr0_lt := by decide
  vaddr1_lt := by decide
  pageInFlash_valid := by
    intro p hp
    have hvalid : p &&& 0x4000 = 0 := and_two_pow_of_lt (n := 14) (Nat.lt_succ_of_le hp)
    rw [Nat.and_or_distrib_right, hvalid]
    rfl
  pageInFlash_addr := by
    intro p hp
    have haddr : p &&& 0x3fff = p := and_mask_of_lt (n := 14) (Nat.lt_succ_of_le hp)
    rw [Nat.and_or_distrib_right, haddr]
    exact Nat.or_zero p
  pageInFlash_app := fun h => absurd h (by decide)

/-- The flash page that an entry maps, if it is valid. -/
def Target.physPage (t : Target) (entry : ℕ) : Option ℕ :=
  if entry &&& t.invalidEntryVal = 0 then some (entry &&& t.mmuAddrMask) else none

lemma Target.physPage_pageInFlash (t : Target) {p : ℕ} (hp : p ≤ t.mmuAddrMask) :
    t.physPage (t.pageInFlash p) = some p := by
  rw [physPage, if_pos (t.pageInFlash_valid p hp), t.pageInFlash_addr p hp]

/-- `mmap_entry_t`. -/
structure MmapEntry where
  handle : ℕ
  page : ℕ
  count : ℕ
deriving DecidableEq

/-- The MMU tables of the two processors, `s_mmap_page_refcnt`, the list of mappings and
`s_mmap_last_handle`. -/
structure MmapState where
  pro : ℕ → ℕ
  app : ℕ → ℕ
  refcnt : ℕ → ℕ
  entries : List MmapEntry
  lastHandle : ℕ

/-- `spi_flash_mmap_memory_t`. -/
inductive Memory where
  | data
  | inst
deriving DecidableEq

inductive Err where
  | invalidArg
  | noMem
deriving DecidableEq

/-- What `get_mmu_region` returns. -/
structure Region where
  start : ℕ
  size : ℕ
  addr : ℕ

variable (t : Target)

/-! ### The tables at the start -/

/-- The entry is in use when the mappings are initialised. -/
def Target.Keeps (s : MmapState) (i : ℕ) : Prop :=
  (t.unicore = true ∨ s.pro i = s.app i) ∧ s.pro i &&& t.invalidEntryVal = 0 ∧
    (i = t.drom0PagesStart ∨ i = t.iram0FirstUsablePage ∨ s.pro i ≠ 0)

instance (s : MmapState) (i : ℕ) : Decidable (t.Keeps s i) :=
  inferInstanceAs (Decidable (_ ∧ _))

/-- `spi_flash_mmap_init`. -/
def spiFlashMmapInit (s : MmapState) : MmapState :=
  if s.refcnt t.drom0PagesStart ≠ 0 then s
  else
    { s with
      refcnt := fun i => if i < t.pages ∧ t.Keeps s i then 1 else s.refcnt i
      pro := fun i => if i < t.pages ∧ ¬ t.Keeps s i then t.invalidEntryVal else s.pro i
      app := fun i =>
        if i < t.pages ∧ ¬ t.Keeps s i ∧ t.unicore = false then t.invalidEntryVal
        else s.app i }

/-- `get_mmu_region`. -/
def getMmuRegion : Memory → Region
  | .data => ⟨t.drom0PagesStart, t.drom0PagesNum, t.vaddr0StartAddr⟩
  | .inst => ⟨t.iram0FirstUsablePage, t.iram0PagesNum, t.vaddr1FirstUsableAddr⟩

/-! ### Mapping pages -/

/-- The check of the page numbers in `spi_flash_mmap_pages`, in which the product wraps. -/
def pagesAccepted (chipSize : ℕ) (pages : List ℤ) : Bool :=
  !pages.isEmpty &&
    pages.all fun p => !(p < 0 ∨ ((p * mmuPageSize) % 2 ^ 32).toNat ≥ chipSize)

/-- The entries from `pos` on are unused or map the pages already. -/
def rangeMatches (s : MmapState) : List ℕ → ℕ → Bool
  | [], _ => true
  | p :: pages, pos =>
    !(s.refcnt pos ≠ 0 ∧ s.pro pos ≠ t.pageInFlash p) && rangeMatches s pages (pos + 1)

/-- The search in `spi_flash_mmap_pages`. -/
def findStart (s : MmapState) (pages : List ℕ) (r : Region) : Option ℕ :=
  (List.range' r.start (r.size - pages.length + 1)).find? (rangeMatches t s pages)

/-- The loop of `spi_flash_mmap_pages` that sets up the entries from `i` on.  There is no
result if the assertion fails. -/
def setUp : List ℕ → ℕ → MmapState → Option MmapState
  | [], _, s => some s
  | p :: pages, i, s =>
    if s.refcnt i = 0 ∨
        s.pro i = t.pageInFlash p ∧ (t.unicore = true ∨ s.app i = t.pageInFlash p) then
      let s' :=
        if s.refcnt i = 0 ∧ (s.pro i ≠ t.pageInFlash p ∨
            t.unicore = false ∧ s.app i ≠ t.pageInFlash p) then
          { s with
            pro := Function.update s.pro i (t.pageInFlash p)
            app := if t.unicore then s.app else Function.update s.app i p }
        else s
      setUp pages (i + 1)
        { s' with refcnt := Function.update s'.refcnt i ((s'.refcnt i + 1) % 2 ^ 8) }
    else none

/-- `spi_flash_mmap_pages`: the address and the handle.  `internal` is whether the array of
pages is in internal memory, and `mem` whether the allocation succeeds. -/
def spiFlashMmapPages (chipSize : ℕ) (s : MmapState) (pages : List ℤ) (memory : Memory)
    (internal mem : Bool) : Option (Except Err (ℕ × ℕ) × MmapState) :=
  if !internal || !pagesAccepted chipSize pages then some (.error .invalidArg, s)
  else if !mem then some (.error .noMem, s)
  else
    let s := spiFlashMmapInit t s
    let r := getMmuRegion t memory
    if r.size < pages.length then some (.error .noMem, s)
    else
      match findStart t s (pages.map Int.toNat) r with
      | none => some (.error .noMem, s)
      | some start =>
        (setUp t (pages.map Int.toNat) start s).map fun s =>
          let handle := (s.lastHandle + 1) % 2 ^ 32
          (.ok ((r.addr + (start - r.start) * mmuPageSize) % 2 ^ 32, handle),
            { s with
              entries := ⟨handle, start, pages.length⟩ :: s.entries
              lastHandle := handle })

/-- The pages that `spi_flash_mmap` asks for. -/
def pagesOf (srcAddr size : ℕ) : List ℤ :=
  (List.range ((size + (mmuPageSize - 1)) % 2 ^ 32 / mmuPageSize)).map fun i =>
    ((srcAddr / mmuPageSize + i : ℕ) : ℤ)

/-- `spi_flash_mmap`. -/
def spiFlashMmap (chipSize : ℕ) (s : MmapState) (srcAddr size : ℕ) (memory : Memory)
    (memPages memEntry : Bool) : Option (Except Err (ℕ × ℕ) × MmapState) :=
  if srcAddr % mmuPageSize ≠ 0 ∨ (srcAddr + size) % 2 ^ 32 > chipSize then
    some (.error .invalidArg, s)
  else if !memPages then some (.error .noMem, s)
  else spiFlashMmapPages t chipSize s (pagesOf srcAddr size) memory true memEntry

/-! ### Unmapping -/

/-- The loop of `spi_flash_munmap`, for `count` entries from `i` on. -/
def release : ℕ → ℕ → MmapState → Option MmapState
  | 0, _, s => some s
  | count + 1, i, s =>
    if s.refcnt i > 0 then
      let s := { s with refcnt := Function.update s.refcnt i (s.refcnt i - 1) }
      release count (i + 1)
        (if s.refcnt i = 0 then
          { s with
            pro := Function.update s.pro i t.invalidEntryVal
            app := if t.unicore then s.app else Function.update s.app i t.invalidEntryVal }
        else s)
    else none

/-- `spi_flash_munmap`. -/
def spiFlashMunmap (s : MmapState) (handle : ℕ) : Option MmapState :=
  match s.entries.find? fun it => it.handle == handle with
  | none => none
  | some it =>
    (release t it.count it.page s).map fun s =>
      { s with entries := s.entries.eraseP fun it => it.handle == handle }

end EspIdf.SpiFlash
