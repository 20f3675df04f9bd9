/-
# Cache addresses and flash addresses

`spi_flash_cache2phys` looks up the flash address behind an address of the two cache windows, and
`spi_flash_phys2cache` looks for an entry of the MMU table that maps a flash address.  The first
one does not check the lower end of the DROM window, and takes the addresses between the windows
for data.
-/
import EspIdf.Lib.Signed
import EspIdf.SpiFlash.Mmap

namespace EspIdf.SpiFlash

open EspIdf.Lib

/-- The chips, with the options that the MMU tables depend on. -/
inductive Chip where
  | esp32 (unicore : Bool)
  | esp32s2beta (usingICache : Bool)
deriving DecidableEq, Repr

/-- `VADDR1_START_ADDR`. -/
def vaddr1StartAddr : ℕ := 0x40000000

/-- `SPI_FLASH_CACHE2PHYS_FAIL`. -/
def cache2physFail : ℕ := 2 ^ 32 - 1

namespace Chip

def target : Chip → Target
  | esp32 unicore => Target.esp32 unicore
  | esp32s2beta usingICache => Target.esp32s2beta usingICache

/-- `IROM0_PAGES_START`. -/
def irom0PagesStart : Chip → ℕ
  | esp32 _ => 64
  | esp32s2beta _ => 0

/-- `IROM0_PAGES_END`. -/
def irom0PagesEnd (chip : Chip) : ℕ := chip.target.iram0FirstUsablePage + chip.target.iram0PagesNum

/-- `DROM0_PAGES_END`. -/
def drom0PagesEnd (chip : Chip) : ℕ := chip.target.drom0PagesStart + chip.target.drom0PagesNum

/-- `PAGES_LIMIT`. -/
def pagesLimit (chip : Chip) : ℕ :=
  if chip.irom0PagesEnd > chip.drom0PagesEnd then chip.irom0PagesEnd else chip.drom0PagesEnd

end Chip

variable (chip : Chip) (table : ℕ → ℕ)

/-- The page that `spi_flash_cache2phys` looks up.  Signed division rounds towards zero. -/
def cachePage (c : ℕ) : ℕ :=
  if intptr c < chip.target.vaddr1FirstUsableAddr then
    sizeT ((intptr c - chip.target.vaddr0StartAddr).tdiv mmuPageSize + chip.target.drom0PagesStart)
  else
    sizeT ((intptr c - vaddr1StartAddr).tdiv mmuPageSize + chip.irom0PagesStart)

/-- `spi_flash_cache2phys`. -/
def spiFlashCache2phys (cached : ℕ) : ℕ :=
  if (vaddr1StartAddr : ℤ) ≤ intptr cached ∧ intptr cached < chip.target.vaddr1FirstUsableAddr then
    -- an IRAM address
    cache2physFail
  else if cachePage chip cached ≥ chip.pagesLimit then
    cache2physFail
  else
    let physPage := table (cachePage chip cached)
    if physPage = chip.target.invalidEntryVal then
      cache2physFail
    else
      (physPage &&& chip.target.mmuAddrMask) * mmuPageSize ||| (cached &&& (mmuPageSize - 1))

/-- `page_delta` of `spi_flash_phys2cache`. -/
def pageDelta : Memory → ℕ
  | .data => if chip.target.drom0PagesStart > chip.irom0PagesStart then chip.target.drom0PagesStart
    else 0
  | .inst => if chip.target.drom0PagesStart > chip.irom0PagesStart then 0 else chip.irom0PagesStart

/-- `base` of `spi_flash_phys2cache`. -/
def baseAddr : Memory → ℕ
  | .data => chip.target.vaddr0StartAddr
  | .inst => vaddr1StartAddr

/-- `spi_flash_phys2cache`; `none` is `NULL`. -/
def spiFlashPhys2cache (physOffs : ℕ) (memory : Memory) : Option ℕ :=
  let region := getMmuRegion chip.target memory
  let physPage := physOffs / mmuPageSize
  ((List.range' region.start region.size).find? fun i =>
      decide (table i = chip.target.pageInFlash physPage)).map fun i =>
    (baseAddr chip memory + mmuPageSize * (i - pageDelta chip memory)) |||
      (physOffs &&& (mmuPageSize - 1))

/-! ### The windows -/

/-- The entry that maps an address of the DROM window or of the usable IROM window. -/
def windowPage (c : ℕ) : Option ℕ :=
  if chip.target.vaddr0StartAddr ≤ c ∧
      c < chip.target.vaddr0StartAddr + chip.target.drom0PagesNum * mmuPageSize then
    some (chip.target.drom0PagesStart + (c - chip.target.vaddr0StartAddr) / mmuPageSize)
  else if chip.target.vaddr1FirstUsableAddr ≤ c ∧
      c < chip.target.vaddr1FirstUsableAddr + chip.target.iram0PagesNum * mmuPageSize then
    some (chip.target.iram0FirstUsablePage +
      (c - chip.target.vaddr1FirstUsableAddr) / mmuPageSize)
  else
    none

/-- An entry that maps a page of the flash. -/
def MapsFlash (entry : ℕ) : Prop :=
  entry = chip.target.pageInFlash (entry &&& chip.target.mmuAddrMask)

instance (entry : ℕ) : Decidable (MapsFlash chip entry) := inferInstanceAs (Decidable (_ = _))

/-- The flash address that a load from `c` reaches, if there is one. -/
def loadAddr (c : ℕ) : ℕ :=
  match windowPage chip c with
  | none => cache2physFail
  | some i =>
    if MapsFlash chip (table i) then
      (table i &&& chip.target.mmuAddrMask) * mmuPageSize + c % mmuPageSize
    else cache2physFail

/-- The entry that the lookup arrives at, for the addresses below, between and above the windows
as well. -/
def lookupPage (c : ℕ) : Option ℕ :=
  if c < chip.target.vaddr0StartAddr then
    if (chip.target.vaddr0StartAddr - c) / mmuPageSize ≤ chip.target.drom0PagesStart then
      some (chip.target.drom0PagesStart - (chip.target.vaddr0StartAddr - c) / mmuPageSize)
    else none
  else if c < vaddr1StartAddr then
    if chip.target.drom0PagesStart + (c - chip.target.vaddr0StartAddr) / mmuPageSize <
        chip.pagesLimit then
      some (chip.target.drom0PagesStart + (c - chip.target.vaddr0StartAddr) / mmuPageSize)
    else none
  else if c < chip.target.vaddr1FirstUsableAddr then
    none
  else if chip.irom0PagesStart + (c - vaddr1StartAddr) / mmuPageSize < chip.pagesLimit then
    some (chip.irom0PagesStart + (c - vaddr1StartAddr) / mmuPageSize)
  else
    none

/-- How the windows and the table are placed. -/
structure Placed : Prop where
  drom_aligned : chip.target.vaddr0StartAddr % 0x10000 = 0
  drom_above : (chip.target.drom0PagesStart + 1) * 0x10000 ≤ chip.target.vaddr0StartAddr
  drom_below : chip.target.vaddr0StartAddr + chip.target.drom0PagesNum * 0x10000 ≤ 0x40000000
  num_pos : 0 < chip.target.drom0PagesNum
  drom_end : chip.target.drom0PagesStart + chip.target.drom0PagesNum ≤ chip.pagesLimit
  irom_start : chip.irom0PagesStart ≤ chip.target.iram0FirstUsablePage
  irom_first : chip.target.vaddr1FirstUsableAddr =
    0x40000000 + (chip.target.iram0FirstUsablePage - chip.irom0PagesStart) * 0x10000
  irom_end : chip.target.iram0FirstUsablePage + chip.target.iram0PagesNum ≤ chip.pagesLimit
  limit : chip.pagesLimit ≤ 0x200
  first_lt : chip.target.iram0FirstUsablePage < 0x200
  delta_data : pageDelta chip .data = chip.target.drom0PagesStart
  delta_inst : pageDelta chip .inst = chip.irom0PagesStart
  mask : chip.target.mmuAddrMask ≤ 0x3fff
  invalid : chip.target.invalidEntryVal &&& chip.target.invalidEntryVal ≠ 0
  topPage : chip.target.pageInFlash 0xffff ≠ chip.target.invalidEntryVal

lemma placed : Placed chip := by
  cases chip with
  | esp32 unicore => cases unicore <;> constructor <;> decide
  | esp32s2beta usingICache => cases usingICache <;> constructor <;> decide

/-! ### Rounding -/

section Arithmetic

variable {a b : ℕ}

lemma tdiv_of_le (h : a ≤ b) : ((b : ℤ) - a).tdiv mmuPageSize = ((b - a) / mmuPageSize : ℕ) := by
  rw [← Int.natCast_sub h, ← Int.ofNat_tdiv]

lemma tdiv_of_ge (h : a ≤ b) : ((a : ℤ) - b).tdiv mmuPageSize = -((b - a) / mmuPageSize : ℕ) := by
  rw [← neg_sub, Int.neg_tdiv, tdiv_of_le h]

lemma or_offset (page c : ℕ) :
    page * mmuPageSize ||| (c &&& (mmuPageSize - 1)) = page * mmuPageSize + c % mmuPageSize := by
  have hmod : c &&& (mmuPageSize - 1) = c % mmuPageSize := Nat.and_two_pow_sub_one_eq_mod c 16
  rw [hmod, Nat.mul_comm]
  exact (Nat.two_pow_add_eq_or_of_lt (i := 16) (Nat.mod_lt c (by decide)) page).symm

end Arithmetic

/-! ### The lookup -/

variable {chip table} {c : ℕ}

/-- Below the DROM window. -/
lemma cachePage_below (h : c < chip.target.vaddr0StartAddr) :
    cachePage chip c = sizeT (-((chip.target.vaddr0StartAddr - c) / mmuPageSize : ℕ) +
      chip.target.drom0PagesStart) := by
  have h2 := (placed chip).drom_below
  have h4 := (placed chip).irom_first
  unfold cachePage
  rw [intptr_of_lt (by omega), if_pos (by omega), tdiv_of_ge (by omega)]

/-- From the DROM window up to the second one. -/
lemma cachePage_between (h : chip.target.vaddr0StartAddr ≤ c) (h' : c < vaddr1StartAddr) :
    cachePage chip c =
      chip.target.drom0PagesStart + (c - chip.target.vaddr0StartAddr) / mmuPageSize := by
  have h3 := (placed chip).drom_end
  have h4 := (placed chip).irom_first
  have h6 := (placed chip).limit
  unfold vaddr1StartAddr at h'
  have hle : (c - chip.target.vaddr0StartAddr) / mmuPageSize ≤ 0x4000 :=
    Nat.div_le_of_le_mul (by unfold mmuPageSize; omega)
  unfold cachePage
  rw [intptr_of_lt (by omega), if_pos (by omega), tdiv_of_le h, ← Int.natCast_add,
    sizeT_natCast (by omega), Nat.add_comm]

/-- From the usable part of the second window on. -/
lemma cachePage_above (h : chip.target.vaddr1FirstUsableAddr ≤ c) (h' : c < 2 ^ 31) :
    cachePage chip c = chip.irom0PagesStart + (c - vaddr1StartAddr) / mmuPageSize := by
  have h4 := (placed chip).irom_first
  have h7 := (placed chip).first_lt
  have h8 := (placed chip).irom_start
  unfold cachePage vaddr1StartAddr
  have hle : (c - 0x40000000) / mmuPageSize ≤ 0x8000 :=
    Nat.div_le_of_le_mul (by unfold mmuPageSize; omega)
  rw [intptr_of_lt h', if_neg (by omega), tdiv_of_le (by omega), ← Int.natCast_add,
    sizeT_natCast (by omega), Nat.add_comm]

/-- The addresses that are negative numbers are beyond the table. -/
lemma cachePage_negative (h : 2 ^ 31 ≤ c) (h' : c < 2 ^ 32) :
    chip.pagesLimit ≤ cachePage chip c := by
  have h1 := (placed chip).drom_above
  have h2 := (placed chip).drom_below
  have h6 := (placed chip).limit
  set q := (2 ^ 32 - c + chip.target.vaddr0StartAddr) / mmuPageSize with hq
  have hlow : chip.target.drom0PagesStart < q :=
    (Nat.le_div_iff_mul_le (by decide)).mpr (by unfold mmuPageSize; omega)
  have hhigh : q ≤ 0x10000 := Nat.div_le_of_le_mul (by unfold mmuPageSize; omega)
  unfold cachePage
  rw [intptr_of_ge h h', if_pos (by omega),
    show -((2 ^ 32 - c : ℕ) : ℤ) - chip.target.vaddr0StartAddr =
      ((0 : ℕ) : ℤ) - (2 ^ 32 - c + chip.target.vaddr0StartAddr : ℕ) by omega,
    tdiv_of_ge (Nat.zero_le _), Nat.sub_zero, ← hq,
    show -(q : ℤ) + chip.target.drom0PagesStart = -(q - chip.target.drom0PagesStart : ℕ) by omega,
    sizeT_neg (by omega) (by omega)]
  omega

/-- The page of the lookup, or one beyond the table. -/
lemma lookupPage_eq (hc : c < 2 ^ 32)
    (hiram : ¬ (vaddr1StartAddr ≤ c ∧ c < chip.target.vaddr1FirstUsableAddr)) :
    lookupPage chip c = if cachePage chip c < chip.pagesLimit then some (cachePage chip c)
      else none := by
  have h2 := (placed chip).drom_below
  have h3 := (placed chip).drom_end
  have h4 := (placed chip).irom_first
  have h6 := (placed chip).limit
  have h7 := (placed chip).first_lt
  unfold lookupPage
  by_cases hlow : c < chip.target.vaddr0StartAddr
  · rw [if_pos hlow, cachePage_below hlow]
    set q := (chip.target.vaddr0StartAddr - c) / mmuPageSize with hq
    have hle : q ≤ 0x4000 := Nat.div_le_of_le_mul (by unfold mmuPageSize; omega)
    clear_value q
    by_cases hd : q ≤ chip.target.drom0PagesStart
    · rw [if_pos hd, neg_add_eq_sub, ← Int.natCast_sub hd, sizeT_natCast (by omega),
        if_pos (by have := (placed chip).num_pos; omega)]
    · rw [if_neg hd, show -(q : ℤ) + chip.target.drom0PagesStart =
        -(q - chip.target.drom0PagesStart : ℕ) by omega, sizeT_neg (by omega) (by omega),
        if_neg (by omega)]
  · rw [if_neg hlow]
    by_cases hmid : c < vaddr1StartAddr
    · rw [if_pos hmid, cachePage_between (by omega) hmid]
    · rw [if_neg hmid, if_neg (by omega)]
      by_cases hhigh : c < 2 ^ 31
      · rw [cachePage_above (by omega) hhigh]
      · have hneg : chip.pagesLimit ≤ cachePage chip c := cachePage_negative (by omega) hc
        have hle : 0x4000 ≤ (c - vaddr1StartAddr) / mmuPageSize :=
          (Nat.le_div_iff_mul_le (by decide)).mpr (by unfold mmuPageSize vaddr1StartAddr; omega)
        rw [if_neg (by omega), if_neg (by omega)]

/-- `spi_flash_cache2phys` by the entry that it looks up. -/
lemma spiFlashCache2phys_eq (hc : c < 2 ^ 32) :
    spiFlashCache2phys chip table c = match lookupPage chip c with
      | none => cache2physFail
      | some i =>
        if table i = chip.target.invalidEntryVal then cache2physFail
        else (table i &&& chip.target.mmuAddrMask) * mmuPageSize + c % mmuPageSize := by
  have hP := placed chip
  have h1 := hP.drom_below
  have h4 := hP.irom_first
  have h7 := hP.first_lt
  unfold spiFlashCache2phys
  by_cases hiram : vaddr1StartAddr ≤ c ∧ c < chip.target.vaddr1FirstUsableAddr
  · have hnone : lookupPage chip c = none := by
      unfold lookupPage
      rw [if_neg (by unfold vaddr1StartAddr at hiram; omega), if_neg (by omega), if_pos hiram.2]
    have hcond : (vaddr1StartAddr : ℤ) ≤ intptr c ∧
        intptr c < chip.target.vaddr1FirstUsableAddr := by
      have h8 := hP.irom_start
      rw [intptr_of_lt (by omega)]
      omega
    rw [if_pos hcond, hnone]
  · have hcond : ¬ ((vaddr1StartAddr : ℤ) ≤ intptr c ∧
        intptr c < chip.target.vaddr1FirstUsableAddr) := by
      unfold vaddr1StartAddr at hiram ⊢
      unfold intptr
      split_ifs <;> omega
    rw [if_neg hcond, lookupPage_eq hc hiram]
    by_cases hlim : cachePage chip c < chip.pagesLimit
    · rw [if_pos hlim, if_neg (by omega)]
      simp only [or_offset]
    · rw [if_neg hlim, if_pos (by omega)]

/-- In the windows the lookup finds the entry that maps the address. -/
lemma lookupPage_of_window {i : ℕ} (h : windowPage chip c = some i) :
    lookupPage chip c = some i ∧ c < 2 ^ 32 := by
  have h2 := (placed chip).drom_below
  have h3 := (placed chip).drom_end
  have h4 := (placed chip).irom_first
  have h5 := (placed chip).irom_end
  have h6 := (placed chip).limit
  have h8 := (placed chip).irom_start
  unfold windowPage at h
  split_ifs at h with hdrom hirom
  · obtain rfl := Option.some.inj h
    have hlt : (c - chip.target.vaddr0StartAddr) / mmuPageSize < chip.target.drom0PagesNum :=
      Nat.div_lt_of_lt_mul (by rw [Nat.mul_comm]; omega)
    unfold mmuPageSize at hdrom
    refine ⟨?_, by omega⟩
    unfold lookupPage vaddr1StartAddr
    rw [if_neg (by omega), if_pos (by omega), if_pos (by omega)]
  · obtain rfl := Option.some.inj h
    have hlt : (c - chip.target.vaddr1FirstUsableAddr) / mmuPageSize < chip.target.iram0PagesNum :=
      Nat.div_lt_of_lt_mul (by rw [Nat.mul_comm]; omega)
    have hpage : (c - vaddr1StartAddr) / mmuPageSize = (chip.target.iram0FirstUsablePage -
        chip.irom0PagesStart) + (c - chip.target.vaddr1FirstUsableAddr) / mmuPageSize := by
      unfold vaddr1StartAddr mmuPageSize
      omega
    unfold mmuPageSize at hirom
    refine ⟨?_, by omega⟩
    unfold lookupPage
    rw [if_neg (by omega), if_neg (by unfold vaddr1StartAddr; omega), if_neg (by omega), hpage,
      if_pos (by omega)]
    congr 1
    omega

/-! ### The two directions -/

/-- An address that the lookup takes for a mapped one is one: it lies in a window, at an entry
that maps the flash. -/
def Genuine (chip : Chip) (table : ℕ → ℕ) (c : ℕ) : Prop :=
  ∀ i, lookupPage chip c = some i → table i = chip.target.invalidEntryVal ∨
    windowPage chip c = some i ∧ MapsFlash chip (table i)

lemma not_mapsFlash_invalid : ¬ MapsFlash chip chip.target.invalidEntryVal := by
  intro h
  have hvalid := chip.target.pageInFlash_valid
    (chip.target.invalidEntryVal &&& chip.target.mmuAddrMask) Nat.and_le_right
  rw [← h] at hvalid
  exact (placed chip).invalid hvalid

lemma physAddr_ne_fail (entry : ℕ) :
    (entry &&& chip.target.mmuAddrMask) * mmuPageSize + c % mmuPageSize ≠ cache2physFail := by
  have hle : entry &&& chip.target.mmuAddrMask ≤ 0x3fff :=
    Nat.le_trans Nat.and_le_right (placed chip).mask
  unfold mmuPageSize cache2physFail
  omega

/-- The lookup gives the address that a load reaches, just when it is genuine. -/
lemma spiFlashCache2phys_iff (hc : c < 2 ^ 32) :
    spiFlashCache2phys chip table c = loadAddr chip table c ↔ Genuine chip table c := by
  rw [spiFlashCache2phys_eq hc, loadAddr, Genuine]
  cases hwin : windowPage chip c with
  | some i =>
    rw [(lookupPage_of_window hwin).1]
    simp only [Option.some.injEq, forall_eq', true_and]
    by_cases hinv : table i = chip.target.invalidEntryVal
    · rw [if_pos hinv, hinv, if_neg not_mapsFlash_invalid]
      simp
    · rw [if_neg hinv]
      by_cases hmap : MapsFlash chip (table i)
      · simp [hmap]
      · rw [if_neg hmap]
        simp [hinv, hmap, physAddr_ne_fail]
  | none =>
    cases hlook : lookupPage chip c with
    | none => simp
    | some i =>
      simp only [Option.some.injEq, forall_eq', reduceCtorEq, false_and, or_false]
      by_cases hinv : table i = chip.target.invalidEntryVal
      · simp [hinv]
      · simp [hinv, physAddr_ne_fail]

/-- The pages that the entries can name, for the addresses that `spi_flash_phys2cache` finds. -/
def Named (chip : Chip) (table : ℕ → ℕ) (p : ℕ) (memory : Memory) : Prop :=
  p / mmuPageSize ≤ chip.target.mmuAddrMask ∨
    ∀ i, (getMmuRegion chip.target memory).start ≤ i →
      i < (getMmuRegion chip.target memory).start + (getMmuRegion chip.target memory).size →
      table i ≠ chip.target.pageInFlash (p / mmuPageSize)

/-- The address of an entry lies in its window. -/
lemma windowPage_of_entry {memory : Memory} {i o : ℕ}
    (hi : (getMmuRegion chip.target memory).start ≤ i ∧
      i < (getMmuRegion chip.target memory).start + (getMmuRegion chip.target memory).size)
    (ho : o < mmuPageSize) :
    windowPage chip (baseAddr chip memory + mmuPageSize * (i - pageDelta chip memory) + o) =
      some i := by
  have h2 := (placed chip).drom_below
  have h4 := (placed chip).irom_first
  have h8 := (placed chip).irom_start
  unfold mmuPageSize at ho ⊢
  cases memory with
  | data =>
    obtain ⟨hi1, hi2⟩ : chip.target.drom0PagesStart ≤ i ∧
      i < chip.target.drom0PagesStart + chip.target.drom0PagesNum := hi
    rw [(placed chip).delta_data, baseAddr]
    unfold windowPage mmuPageSize
    rw [if_pos (by omega)]
    congr 1
    omega
  | inst =>
    obtain ⟨hi1, hi2⟩ : chip.target.iram0FirstUsablePage ≤ i ∧
      i < chip.target.iram0FirstUsablePage + chip.target.iram0PagesNum := hi
    rw [(placed chip).delta_inst, baseAddr]
    unfold windowPage mmuPageSize vaddr1StartAddr
    rw [if_neg (by omega), if_pos (by omega)]
    congr 1
    omega

/-- The address that `spi_flash_phys2cache` returns lies in the window, at an entry with the page. -/
lemma spiFlashPhys2cache_some {p ptr : ℕ} {memory : Memory}
    (h : spiFlashPhys2cache chip table p memory = some ptr) :
    ∃ i, table i = chip.target.pageInFlash (p / mmuPageSize) ∧ windowPage chip ptr = some i ∧
      ptr % mmuPageSize = p % mmuPageSize := by
  obtain ⟨i, hfind, rfl⟩ := Option.map_eq_some_iff.mp h
  have hentry : table i = chip.target.pageInFlash (p / mmuPageSize) := by
    simpa using List.find?_some hfind
  have hi := List.mem_range'_1.mp (List.mem_of_find?_eq_some hfind)
  have hbase : baseAddr chip memory % mmuPageSize = 0 := by
    cases memory with
    | data => exact (placed chip).drom_aligned
    | inst => exact (by decide : vaddr1StartAddr % mmuPageSize = 0)
  have hptr : (baseAddr chip memory + mmuPageSize * (i - pageDelta chip memory)) |||
      (p &&& (mmuPageSize - 1)) =
        baseAddr chip memory + mmuPageSize * (i - pageDelta chip memory) + p % mmuPageSize := by
    rw [← Nat.div_add_mod (baseAddr chip memory) mmuPageSize, hbase, Nat.add_zero, ← Nat.mul_add,
      Nat.mul_comm, or_offset]
  refine ⟨i, hentry, ?_, ?_⟩
  · rw [hptr]
    exact windowPage_of_entry hi (Nat.mod_lt p (by decide))
  · rw [hptr]
    unfold mmuPageSize at hbase ⊢
    omega

/-- The address of a page leads back to it, just when the entries can name the page. -/
lemma spiFlashPhys2cache_iff (p : ℕ) (memory : Memory) :
    (∀ ptr, spiFlashPhys2cache chip table p memory = some ptr →
      spiFlashCache2phys chip table ptr = p) ↔ Named chip table p memory := by
  constructor
  · intro h
    by_contra hnamed
    rw [Named, not_or, not_le] at hnamed
    obtain ⟨hpage, hfound⟩ := hnamed
    push Not at hfound
    obtain ⟨i, hi1, hi2, hi⟩ := hfound
    cases hptr : spiFlashPhys2cache chip table p memory with
    | none =>
      have hnone := List.find?_eq_none.mp (Option.map_eq_none_iff.mp hptr) i
        (List.mem_range'_1.mpr ⟨hi1, hi2⟩)
      simp [hi] at hnone
    | some ptr =>
      have hback := h ptr hptr
      obtain ⟨j, hj, hwin, hoff⟩ := spiFlashPhys2cache_some hptr
      obtain ⟨hlook, hlt⟩ := lookupPage_of_window hwin
      rw [spiFlashCache2phys_eq hlt, hlook] at hback
      simp only at hback
      split_ifs at hback with hinv
      · -- the entry for unmapped pages was taken for a page of the flash
        have htop : p / mmuPageSize = 0xffff := by
          rw [← hback]
          rfl
        rw [hj, htop] at hinv
        exact (placed chip).topPage hinv
      · have hmask : table j &&& chip.target.mmuAddrMask ≤ chip.target.mmuAddrMask :=
          Nat.and_le_right
        unfold mmuPageSize at *
        omega
  · rintro (hpage | hnone) ptr hptr
    · obtain ⟨i, hi, hwin, hoff⟩ := spiFlashPhys2cache_some hptr
      obtain ⟨hlook, hlt⟩ := lookupPage_of_window hwin
      have haddr := chip.target.pageInFlash_addr _ hpage
      have hvalid : table i ≠ chip.target.invalidEntryVal := by
        intro heq
        have := chip.target.pageInFlash_valid _ hpage
        rw [← hi, heq] at this
        exact (placed chip).invalid this
      rw [spiFlashCache2phys_eq hlt, hlook]
      simp only
      rw [if_neg hvalid, hi, haddr, hoff, Nat.mul_comm]
      exact Nat.div_add_mod p mmuPageSize
    · obtain ⟨i, hfind, -⟩ := Option.map_eq_some_iff.mp hptr
      have hi := List.mem_range'_1.mp (List.mem_of_find?_eq_some hfind)
      exact absurd (by simpa using List.find?_some hfind) (hnone i hi.1 hi.2)

/-- The two lookups are sound at an address and at a flash address, just when the first one is a
genuine cache address and the page of the second one can be named. -/
theorem cache_translation_iff (chip : Chip) (table : ℕ → ℕ) (c p : ℕ) (memory : Memory)
    (hc : c < 2 ^ 32) :
    (spiFlashCache2phys chip table c = loadAddr chip table c ∧
      ∀ ptr, spiFlashPhys2cache chip table p memory = some ptr →
        spiFlashCache2phys chip table ptr = p) ↔
      Genuine chip table c ∧ Named chip table p memory := by
  rw [spiFlashCache2phys_iff hc, spiFlashPhys2cache_iff]

theorem cache_translation_iff_drom :
    (spiFlashCache2phys (.esp32 false) id 0x3F410010 = loadAddr (.esp32 false) id 0x3F410010 ∧
      ∀ ptr, spiFlashPhys2cache (.esp32 false) id 0x50010 .data = some ptr →
        spiFlashCache2phys (.esp32 false) id ptr = 0x50010) ↔
      Genuine (.esp32 false) id 0x3F410010 ∧ Named (.esp32 false) id 0x50010 .data :=
  cache_translation_iff (.esp32 false) id 0x3F410010 0x50010 .data (by decide)

/-- An address of the data memory gets a flash address. -/
theorem cache2phys_dram : ¬ ∀ (chip : Chip) (table : ℕ → ℕ) (c p : ℕ) (memory : Memory),
    c < 2 ^ 32 → spiFlashCache2phys chip table c = loadAddr chip table c ∧
      ∀ ptr, spiFlashPhys2cache chip table p memory = some ptr →
        spiFlashCache2phys chip table ptr = p := by
  intro h
  exact absurd (h (.esp32 false) (fun _ => 0) 0x3FFB0000 0 .data (by decide)).1
    (by decide +kernel)

end EspIdf.SpiFlash
