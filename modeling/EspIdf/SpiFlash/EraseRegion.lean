/-
# Erasing a region

`esp_flash_erase_region` erases a region of a chip by blocks where a whole block is left from a
block boundary on, and by sectors elsewhere.  The end of the region and the ends of the protected
regions are computed in 32 bits, so that a region that reaches past `2 ^ 32` is taken for one that
ends at a low address.
-/
import EspIdf.SpiFlash.FlashWrite

namespace EspIdf.SpiFlash

namespace ChipErase

open ChipWrite

/-- `ESP_ERR_FLASH_PROTECTED`. -/
def espErrFlashProtected : ℤ := 0x6006

/-- `esp_flash_region_t`. -/
structure Region where
  offset : ℕ
  size : ℕ

/-- What `esp_flash_erase_region` looks at: the chip and its driver, the mask that
`get_protected_regions` gives, the answer of `region_protected`, and the configuration. -/
structure Chip where
  size : ℕ
  sectorSize : ℕ
  blockEraseSize : ℕ
  initialised : Bool
  hasEraseSector : Bool
  hasEraseBlock : Bool
  hasGetProtectedRegions : Bool
  protectableRegions : List Region
  protectedMask : ℕ
  regionProtected : Bool
  /-- `CONFIG_SPI_FLASH_BYPASS_BLOCK_ERASE`. -/
  bypassBlockErase : Bool
  size_lt : size < 2 ^ 32

/-- The sizes that the function accepts. -/
structure Geometry where
  sectorSize : ℕ
  blockEraseSize : ℕ
  pos : 0 < sectorSize
  dvd : sectorSize ∣ blockEraseSize

/-- A command to the chip driver. -/
inductive Cmd where
  | eraseSector (sectorAddress : ℕ)
  | eraseBlock (blockAddress : ℕ)
deriving DecidableEq

/-- Whether a block is erased next. -/
def Geometry.takesBlock (g : Geometry) (bypass : Bool) (start len : ℕ) : Bool :=
  !bypass && 0 < g.blockEraseSize && g.blockEraseSize ≤ len && start % g.blockEraseSize = 0

/-- The next command, and the bytes that it erases. -/
def Geometry.next (g : Geometry) (bypass : Bool) (start len : ℕ) : Cmd × ℕ :=
  if g.takesBlock bypass start len then (.eraseBlock start, g.blockEraseSize)
  else (.eraseSector start, g.sectorSize)

lemma Geometry.next_pos (g : Geometry) (bypass : Bool) (start len : ℕ) :
    0 < (g.next bypass start len).2 := by
  rw [next]
  split
  · next h =>
    simp only [takesBlock, Bool.and_eq_true, decide_eq_true_eq] at h
    exact h.1.1.2
  · exact g.pos

/-- The loop of `esp_flash_erase_region`: what is returned, and the commands.  `results` are what
`spiflash_start`, the driver and `spiflash_end` return. -/
def eraseLoop (g : Geometry) (bypass : Bool) (results : ℕ → ℤ) (start len : ℕ) : ℤ × List Cmd :=
  if h : g.sectorSize ≤ len then
    if results 0 ≠ espOk then (results 0, [])
    else
      let cmd := g.next bypass start len
      let err := if results 1 = espOk then results 2 else results 1
      if err ≠ espOk then (err, [cmd.1])
      else
        let out := eraseLoop g bypass (fun n => results (n + 3)) ((start + cmd.2) % 2 ^ 32)
          (len - cmd.2)
        (out.1, cmd.1 :: out.2)
  else (espOk, [])
termination_by len
decreasing_by
  have hpos := g.next_pos bypass start len
  have hsector := g.pos
  omega

/-- `regions_overlap`. -/
def regionsOverlap (aStart aLen bStart bLen : ℕ) : Bool :=
  (aStart + aLen) % 2 ^ 32 > bStart && (bStart + bLen) % 2 ^ 32 > aStart

/-- The regions that are protected, on a chip that can tell. -/
def Chip.protectedRegions (c : Chip) : List Region :=
  if c.hasGetProtectedRegions then
    (c.protectableRegions.zipIdx.filter fun r => c.protectedMask.testBit r.2).map Prod.fst
  else []

/-- The check for protected regions, with the results that are left. -/
def checkProtected (c : Chip) (results : ℕ → ℤ) (start len : ℕ) : ℤ × (ℕ → ℤ) :=
  if c.hasGetProtectedRegions && 0 < c.protectableRegions.length then
    if results 0 ≠ espOk then (results 0, fun n => results (n + 1))
    else
      let err :=
        if results 1 ≠ espOk then results 1
        else if c.protectedRegions.any fun r => regionsOverlap start len r.offset r.size then
          espErrFlashProtected
        else espOk
      (if err = espOk then results 2 else err, fun n => results (n + 3))
  else (espOk, results)

/-- `esp_flash_erase_region`: what is returned, and the commands to the driver. -/
def espFlashEraseRegion (c : Chip) (results : ℕ → ℤ) (start len : ℕ) : ℤ × List Cmd :=
  if !c.initialised then (espErrFlashNotInitialised, [])
  else if !c.hasEraseSector then (espErrFlashUnsupportedChip, [])
  else if !c.hasEraseBlock then (espErrFlashUnsupportedChip, [])
  else if c.regionProtected then (espErrInvalidArg, [])
  else if h : c.sectorSize = 0 ∨ c.blockEraseSize % c.sectorSize ≠ 0 then
    (espErrFlashNotInitialised, [])
  else if start > c.size ∨ (start + len) % 2 ^ 32 > c.size then (espErrInvalidArg, [])
  else if start % c.sectorSize ≠ 0 ∨ len % c.sectorSize ≠ 0 then (espErrInvalidArg, [])
  else
    let checked := checkProtected c results start len
    if checked.1 ≠ espOk then (checked.1, [])
    else
      eraseLoop
        ⟨c.sectorSize, c.blockEraseSize, Nat.pos_of_ne_zero fun h0 => h (.inl h0),
          Nat.dvd_of_mod_eq_zero (Decidable.not_not.1 fun hmod => h (.inr hmod))⟩
        c.bypassBlockErase checked.2 start len

/-! ### What is erased -/

/-- The sectors that a command erases. -/
def Cmd.sectors (c : Chip) : Cmd → List ℕ
  | .eraseSector a => [a]
  | .eraseBlock a => List.range' a (c.blockEraseSize / c.sectorSize) c.sectorSize

/-- The commands erase each sector of the region once, inside of the chip and outside of the
protected regions. -/
structure ErasesExactly (c : Chip) (start len : ℕ) (log : List Cmd) : Prop where
  once : (log.flatMap (Cmd.sectors c)).Perm (List.range' start (len / c.sectorSize) c.sectorSize)
  inside : ∀ a ∈ log.flatMap (Cmd.sectors c), a + c.sectorSize ≤ c.size
  unprotected : ∀ a ∈ log.flatMap (Cmd.sectors c), ∀ r ∈ c.protectedRegions, ∀ x,
    a ≤ x → x < a + c.sectorSize → ¬ (r.offset ≤ x ∧ x < r.offset + r.size)

/-- The call returns an error before it erases anything; or it erases exactly the region, if the
driver returns no error. -/
def EraseRight (c : Chip) (results : ℕ → ℤ) (start len : ℕ) : Prop :=
  let out := espFlashEraseRegion c results start len
  (out.1 ≠ espOk ∧ out.2 = []) ∨
    ((∀ n, results n = espOk) → out.1 = espOk ∧ ErasesExactly c start len out.2)

/-- The checks of the function before the loop. -/
structure Accepted (c : Chip) (start len : ℕ) : Prop where
  initialised : c.initialised = true
  hasEraseSector : c.hasEraseSector = true
  hasEraseBlock : c.hasEraseBlock = true
  notProtected : c.regionProtected = false
  sector : 0 < c.sectorSize
  block : c.sectorSize ∣ c.blockEraseSize
  start_le : start ≤ c.size
  end_le : (start + len) % 2 ^ 32 ≤ c.size
  start_dvd : c.sectorSize ∣ start
  len_dvd : c.sectorSize ∣ len
  noOverlap : ∀ r ∈ c.protectedRegions, regionsOverlap start len r.offset r.size = false

variable {c : Chip} {g : Geometry} {bypass : Bool} {results : ℕ → ℤ} {start len : ℕ}

lemma eraseLoop_of_ok (bypass : Bool) (start : ℕ) (hok : ∀ n, results n = espOk)
    (h : g.sectorSize ≤ len) :
    ∃ results' : ℕ → ℤ, (∀ n, results' n = espOk) ∧ eraseLoop g bypass results start len =
      ((eraseLoop g bypass results' ((start + (g.next bypass start len).2) % 2 ^ 32)
        (len - (g.next bypass start len).2)).1,
        (g.next bypass start len).1 ::
          (eraseLoop g bypass results' ((start + (g.next bypass start len).2) % 2 ^ 32)
            (len - (g.next bypass start len).2)).2) := by
  refine ⟨fun n => results (n + 3), fun n => hok _, ?_⟩
  rw [eraseLoop, dif_pos h, hok 0, hok 1, hok 2, if_neg (by simp)]
  dsimp only
  rw [if_pos rfl, if_neg (by simp)]

/-- The next command erases the first sectors of what is left. -/
lemma next_sectors (bypass : Bool) (start : ℕ) (hs : c.sectorSize = g.sectorSize)
    (hb : c.blockEraseSize = g.blockEraseSize) (h : g.sectorSize ≤ len) :
    ∃ n, (g.next bypass start len).2 = g.sectorSize * n ∧ (g.next bypass start len).2 ≤ len ∧
      (g.next bypass start len).1.sectors c = List.range' start n g.sectorSize := by
  rw [Geometry.next]
  split
  · next hblock =>
    simp only [Geometry.takesBlock, Bool.and_eq_true, decide_eq_true_eq] at hblock
    refine ⟨g.blockEraseSize / g.sectorSize, (Nat.mul_div_cancel' g.dvd).symm, hblock.1.2, ?_⟩
    rw [Cmd.sectors, hs, hb]
  · exact ⟨1, (Nat.mul_one _).symm, h, rfl⟩

/-- Without an error the loop erases the sectors of the region in their order. -/
lemma eraseLoop_sectors (bypass : Bool) (hs : c.sectorSize = g.sectorSize)
    (hb : c.blockEraseSize = g.blockEraseSize) (hok : ∀ n, results n = espOk)
    (hdvd : g.sectorSize ∣ len) (hlt : start + len < 2 ^ 32) :
    (eraseLoop g bypass results start len).1 = espOk ∧
      (eraseLoop g bypass results start len).2.flatMap (Cmd.sectors c) =
        List.range' start (len / g.sectorSize) g.sectorSize := by
  induction len using Nat.strong_induction_on generalizing start results with
  | h len ih =>
    by_cases h : g.sectorSize ≤ len
    · obtain ⟨results', hok', hloop⟩ := eraseLoop_of_ok bypass start hok h
      obtain ⟨n, hn, hle, hsectors⟩ := next_sectors bypass start hs hb h
      have hpos := g.next_pos bypass start len
      rw [hn] at hloop hle hpos
      rw [Nat.mod_eq_of_lt (by omega)] at hloop
      have hend : start + g.sectorSize * n + (len - g.sectorSize * n) < 2 ^ 32 := by omega
      obtain ⟨herr, hrest⟩ := ih (len - g.sectorSize * n) (by omega) hok'
        ((Nat.dvd_sub_iff_left hle (Nat.dvd_mul_right _ _)).2 hdvd) hend
      rw [hloop]
      refine ⟨herr, ?_⟩
      have hcount : len / g.sectorSize = n + (len - g.sectorSize * n) / g.sectorSize := by
        obtain ⟨k, rfl⟩ := hdvd
        have hnk : n ≤ k := Nat.le_of_mul_le_mul_left hle g.pos
        rw [← Nat.mul_sub, Nat.mul_div_cancel_left _ g.pos, Nat.mul_div_cancel_left _ g.pos]
        omega
      dsimp only
      rw [List.flatMap_cons, hsectors, hrest, hcount, List.range'_append]
    · obtain rfl : len = 0 := Nat.eq_zero_of_dvd_of_lt hdvd (Nat.not_le.1 h)
      rw [eraseLoop, dif_neg h, Nat.zero_div]
      exact ⟨rfl, rfl⟩

/-! ### The checks -/

lemma checkProtected_of_ok (hok : ∀ n, results n = espOk)
    (h : ∀ r ∈ c.protectedRegions, regionsOverlap start len r.offset r.size = false) :
    ∃ results' : ℕ → ℤ, (∀ n, results' n = espOk) ∧
      checkProtected c results start len = (espOk, results') := by
  have hany :
      (c.protectedRegions.any fun r => regionsOverlap start len r.offset r.size) = false := by
    rw [List.any_eq_false]
    exact fun r hr => by rw [h r hr]; exact Bool.false_ne_true
  rw [checkProtected]
  split
  · refine ⟨fun n => results (n + 3), fun n => hok _, ?_⟩
    rw [hok 0, hok 1, hok 2, hany]
    simp
  · exact ⟨results, hok, rfl⟩

lemma checkProtected_overlap (hok : ∀ n, results n = espOk) {r : Region}
    (hr : r ∈ c.protectedRegions) (h : regionsOverlap start len r.offset r.size = true) :
    (checkProtected c results start len).1 ≠ espOk := by
  have hany : (c.protectedRegions.any fun r => regionsOverlap start len r.offset r.size) = true :=
    List.any_eq_true.2 ⟨r, hr, h⟩
  have hchecks : (c.hasGetProtectedRegions && 0 < c.protectableRegions.length) = true := by
    rw [Chip.protectedRegions] at hr
    split at hr
    · next hget =>
      rw [hget, Bool.true_and, decide_eq_true_eq, List.length_pos_iff]
      rintro hnil
      rw [hnil] at hr
      exact absurd hr List.not_mem_nil
    · exact absurd hr List.not_mem_nil
  rw [checkProtected, if_pos hchecks, hok 0, hok 1, hany]
  simp [espOk, espErrFlashProtected]

/-- What is not accepted is refused before anything is erased. -/
lemma eraseRegion_refused (hok : ∀ n, results n = espOk) (h : ¬ Accepted c start len) :
    (espFlashEraseRegion c results start len).1 ≠ espOk ∧
      (espFlashEraseRegion c results start len).2 = [] := by
  rw [espFlashEraseRegion]
  dsimp only
  split_ifs with h1 h2 h3 h4 h5 h6 h7 h8
  all_goals try exact ⟨by decide, rfl⟩
  · exact ⟨h8, rfl⟩
  · rw [not_or, Decidable.not_not] at h5
    rw [not_or, Nat.not_lt, Nat.not_lt] at h6
    rw [not_or, Decidable.not_not, Decidable.not_not] at h7
    refine absurd ⟨by simpa using h1, by simpa using h2, by simpa using h3, by simpa using h4,
      Nat.pos_of_ne_zero h5.1, Nat.dvd_of_mod_eq_zero h5.2, h6.1, h6.2,
      Nat.dvd_of_mod_eq_zero h7.1, Nat.dvd_of_mod_eq_zero h7.2, fun r hr => ?_⟩ h
    by_contra hoverlap
    exact h8 (checkProtected_overlap hok hr (by simpa using hoverlap))

/-- What is accepted is erased by the loop. -/
lemma eraseRegion_accepted (hok : ∀ n, results n = espOk) (h : Accepted c start len) :
    ∃ results' : ℕ → ℤ, (∀ n, results' n = espOk) ∧
      espFlashEraseRegion c results start len =
        eraseLoop ⟨c.sectorSize, c.blockEraseSize, h.sector, h.block⟩ c.bypassBlockErase results'
          start len := by
  obtain ⟨results', hok', hcheck⟩ := checkProtected_of_ok hok h.noOverlap
  refine ⟨results', hok', ?_⟩
  have hsector := h.sector
  have hblock := Nat.mod_eq_zero_of_dvd h.block
  rw [espFlashEraseRegion, if_neg (by simp [h.initialised]), if_neg (by simp [h.hasEraseSector]),
    if_neg (by simp [h.hasEraseBlock]), if_neg (by simp [h.notProtected]),
    dif_neg (by rw [hblock]; omega), if_neg (not_or.2 ⟨Nat.not_lt.2 h.start_le,
      Nat.not_lt.2 h.end_le⟩), if_neg (not_or.2 ⟨not_not.2 (Nat.mod_eq_zero_of_dvd h.start_dvd),
      not_not.2 (Nat.mod_eq_zero_of_dvd h.len_dvd)⟩)]
  dsimp only
  rw [hcheck]
  exact if_neg (by simp)

/-! ### The exact condition -/

/-- The region has no byte in common with another one. -/
def Apart (start len : ℕ) (r : Region) : Prop :=
  ∀ x, start ≤ x → x < start + len → ¬ (r.offset ≤ x ∧ x < r.offset + r.size)

/-- No end is computed past `2 ^ 32`, but for protected regions elsewhere. -/
def EndsRight (c : Chip) (start len : ℕ) : Prop :=
  len = 0 ∨ (start + len < 2 ^ 32 ∧
    ∀ r ∈ c.protectedRegions, r.offset + r.size < 2 ^ 32 ∨ Apart start len r)

lemma apart_of_noOverlap {r : Region} (hlt : start + len < 2 ^ 32) (hr : r.offset + r.size < 2 ^ 32)
    (h : regionsOverlap start len r.offset r.size = false) : Apart start len r := by
  rw [regionsOverlap, Nat.mod_eq_of_lt hlt, Nat.mod_eq_of_lt hr] at h
  rintro x hle hx ⟨hoffset, hend⟩
  have hoverlap : start + len > r.offset ∧ r.offset + r.size > start := ⟨by omega, by omega⟩
  simp [hoverlap.1, hoverlap.2] at h

/-- Each byte of the region is in one of its sectors. -/
lemma exists_sector (hs : 0 < c.sectorSize) (hdvd : c.sectorSize ∣ len) {x : ℕ} (hle : start ≤ x)
    (hx : x < start + len) : ∃ a ∈ List.range' start (len / c.sectorSize) c.sectorSize,
      a ≤ x ∧ x < a + c.sectorSize := by
  have hmod := Nat.mod_lt (x - start) hs
  have hdiv := Nat.div_add_mod (x - start) c.sectorSize
  refine ⟨start + c.sectorSize * ((x - start) / c.sectorSize), List.mem_range'.2
    ⟨_, ?_, rfl⟩, by omega, by omega⟩
  rw [Nat.div_lt_iff_lt_mul hs, Nat.div_mul_cancel hdvd]
  omega

/-- Each sector is in the region. -/
lemma sector_mem {a : ℕ} (hs : 0 < c.sectorSize) (hdvd : c.sectorSize ∣ len)
    (h : a ∈ List.range' start (len / c.sectorSize) c.sectorSize) :
    start ≤ a ∧ a + c.sectorSize ≤ start + len := by
  obtain ⟨i, hi, rfl⟩ := List.mem_range'.1 h
  obtain ⟨k, rfl⟩ := hdvd
  rw [Nat.mul_div_cancel_left _ hs] at hi
  have hle := Nat.mul_le_mul_left c.sectorSize (Nat.succ_le_of_lt hi)
  rw [Nat.mul_succ] at hle
  omega

/-- A region that is accepted is not refused later. -/
lemma erasesExactly_of_right (h : EraseRight c results start len) (hok : ∀ n, results n = espOk)
    (hacc : Accepted c start len) (hlen : len ≠ 0) : ∃ log, ErasesExactly c start len log := by
  obtain ⟨results', hok', hcall⟩ := eraseRegion_accepted hok hacc
  have hle : c.sectorSize ≤ len := Nat.le_of_dvd (Nat.pos_of_ne_zero hlen) hacc.len_dvd
  obtain ⟨results'', -, hloop⟩ := eraseLoop_of_ok c.bypassBlockErase start
    (g := ⟨c.sectorSize, c.blockEraseSize, hacc.sector, hacc.block⟩) hok' hle
  refine ⟨_, ((h.resolve_left fun hnone => ?_) hok).2⟩
  rw [hcall, hloop] at hnone
  exact absurd hnone.2 (List.cons_ne_nil _ _)

/-- The last sector of the region has been erased, so that it is in the chip. -/
lemma ErasesExactly.end_le {log : List Cmd} (h : ErasesExactly c start len log)
    (hacc : Accepted c start len) (hlen : len ≠ 0) : start + len ≤ c.size := by
  obtain ⟨a, ha, -, hlast⟩ := exists_sector (x := start + (len - 1)) hacc.sector hacc.len_dvd
    (Nat.le_add_right _ _) (by omega)
  have hin := h.inside a (h.once.mem_iff.2 ha)
  omega

/-- Any protected regions may be set.  The call erases exactly the region, or returns an error
before it erases anything, if and only if the ends are computed right for a region that it
accepts. -/
theorem eraseRegion_right_iff (c : Chip) (results : ℕ → ℤ) (start len : ℕ) :
    EraseRight c results start len ↔
      ((∀ n, results n = espOk) → Accepted c start len → EndsRight c start len) := by
  by_cases hok : ∀ n, results n = espOk
  swap
  · exact iff_of_true (.inr fun h => absurd h hok) fun h => absurd h hok
  by_cases hacc : Accepted c start len
  swap
  · exact iff_of_true (.inl (eraseRegion_refused hok hacc)) fun _ h => absurd h hacc
  constructor
  · rintro h - -
    by_cases hlen : len = 0
    · exact .inl hlen
    obtain ⟨log, hexact⟩ := erasesExactly_of_right h hok hacc hlen
    have hend := hexact.end_le hacc hlen
    have hsize := c.size_lt
    refine .inr ⟨by omega, fun r hr => .inr fun x hx hx' => ?_⟩
    obtain ⟨a, ha, hax, hxa⟩ := exists_sector hacc.sector hacc.len_dvd hx hx'
    exact hexact.unprotected a (hexact.once.mem_iff.2 ha) r hr x hax hxa
  · intro h
    obtain ⟨results', hok', hcall⟩ := eraseRegion_accepted hok hacc
    rw [EraseRight, hcall]
    refine .inr fun _ => ?_
    rcases h hok hacc with rfl | ⟨hlt, hregions⟩
    · rw [eraseLoop, dif_neg (Nat.not_le.2 hacc.sector)]
      refine ⟨rfl, ⟨?_, by simp, by simp⟩⟩
      rw [Nat.zero_div]
      rfl
    · obtain ⟨herr, hsectors⟩ := eraseLoop_sectors (c := c) c.bypassBlockErase
        (g := ⟨c.sectorSize, c.blockEraseSize, hacc.sector, hacc.block⟩) rfl rfl hok'
        hacc.len_dvd hlt
      have hend := hacc.end_le
      rw [Nat.mod_eq_of_lt hlt] at hend
      refine ⟨herr, ⟨hsectors ▸ List.Perm.refl _, fun a ha => ?_, fun a ha r hr x hax hxa => ?_⟩⟩
      · have hmem := sector_mem hacc.sector hacc.len_dvd (hsectors ▸ ha)
        omega
      · have hmem := sector_mem hacc.sector hacc.len_dvd (hsectors ▸ ha)
        have hapart : Apart start len r := (hregions r hr).elim
          (fun hlt' => apart_of_noOverlap hlt hlt' (hacc.noOverlap r hr)) id
        exact hapart x (by omega) (by omega)

/-- A chip of 4 MiB with the sizes of the generic driver. -/
def Chip.generic : Chip where
  size := 0x400000
  sectorSize := 0x1000
  blockEraseSize := 0x10000
  initialised := true
  hasEraseSector := true
  hasEraseBlock := true
  hasGetProtectedRegions := false
  protectableRegions := []
  protectedMask := 0
  regionProtected := false
  bypassBlockErase := false
  size_lt := by decide

/-- The end of a region is 0 again, which is in the chip. -/
theorem eraseRegion_wraps : ¬ ∀ (c : Chip) (results : ℕ → ℤ) (start len : ℕ),
    EraseRight c results start len := by
  intro h
  have hacc : Accepted .generic 0x1000 (2 ^ 32 - 0x1000) :=
    ⟨rfl, rfl, rfl, rfl, by decide, by decide, by decide, by decide, by decide, by decide,
      fun r hr => absurd hr List.not_mem_nil⟩
  obtain ⟨log, hexact⟩ := erasesExactly_of_right (h .generic (fun _ => espOk) 0x1000
    (2 ^ 32 - 0x1000)) (fun _ => rfl) hacc (by decide)
  exact absurd (hexact.end_le hacc (by decide)) (by decide)

end ChipErase

end EspIdf.SpiFlash
