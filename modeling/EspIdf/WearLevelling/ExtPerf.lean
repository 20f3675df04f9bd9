/-
# Small sectors in performance mode

A FAT sector is a part of a flash sector, and the flash is erased by whole flash sectors.
`WL_Ext_Perf::erase_range` cuts its range into a part of a first flash sector, whole flash
sectors, and a part of a last one.  Of a flash sector that is erased in part the FAT sectors
outside the range are read into a buffer before and written back behind.
-/
import EspIdf.WearLevelling.ByteAccess
import EspIdf.Lib.Ram

namespace EspIdf.WearLevelling

open EspIdf.Lib

/-- The fields of `WL_Ext_Perf` beside those of the `WL_Flash` below it. -/
structure ExtPerf where
  flashSectorSize : ℕ
  fatSectorSize : ℕ
  sizeFactor : ℕ
  /-- What `sector_buffer` points to, by byte. -/
  sectorBuffer : Mem

/-- How `erase_range` cuts a range.  `restCheckStart` is an address, the others count FAT
sectors. -/
structure Parts where
  preCheckCount : ℕ
  restCheckStart : ℕ
  restCheckCount : ℕ
  postCheckStart : ℕ
  postCheckCount : ℕ
deriving DecidableEq, Repr

variable {w w' : World} {N : ℕ} {m : Mem}

namespace ExtPerf

/-- `WL_Ext_Perf::config`.  `buffer` is what the freshly allocated sector buffer holds. -/
def config (c : WlConfig) (fatSectorSize : ℕ) (buffer : Mem) (mallocd : ℕ → Byte) :
    WlM ExtPerf :=
  -- the division of the source does not return for a zero size
  if fatSectorSize = 0 then Prog.throw .fail
  else if c.sectorSize / fatSectorSize < 1 then Prog.throw .invalidArg
  else do
    WearLevelling.config c mallocd
    pure ⟨c.sectorSize, fatSectorSize, c.sectorSize / fatSectorSize, buffer⟩

variable (e : ExtPerf)

/-- FAT sector `i` of a flash sector is kept when those from `shift` on are erased. -/
def keeps (shift count i : ℕ) : Bool := i < shift || i ≥ u32 (count + shift)

/-- The address of FAT sector `i` of flash sector `base`. -/
def partAddr (base i : ℕ) : ℕ := u32 (base * e.flashSectorSize + i * e.fatSectorSize)

/-- The byte of the buffer where FAT sector `i` starts: the buffer is indexed by words. -/
def bufferIndex (i : ℕ) : ℕ := 4 * (i * e.fatSectorSize / 4)

/-- The kept ones of the first FAT sectors of flash sector `base` are read into the buffer. -/
def readKept (base shift count : ℕ) : ℕ → WlM Mem
  | 0 => pure e.sectorBuffer
  | i + 1 => do
    let buffer ← readKept base shift count i
    if keeps shift count i then do
      let bs ← read (e.partAddr base i) e.fatSectorSize
      pure (buffer.store (e.bufferIndex i) bs)
    else pure buffer

/-- The kept FAT sectors of flash sector `base` are written back. -/
def writeKept (base shift count : ℕ) (buffer : Mem) : WlM Unit :=
  Prog.upTo (fun i =>
    if keeps shift count i then
      write (e.partAddr base i) (fun j => buffer (e.bufferIndex i + j)) e.fatSectorSize
    else pure ()) e.sizeFactor

/-- `WL_Ext_Perf::erase_sector_fit`. -/
def eraseSectorFit (startSector count : ℕ) : WlM ExtPerf := do
  let preCheckStart := startSector % e.sizeFactor
  let buffer ← e.readKept (startSector / e.sizeFactor) preCheckStart count e.sizeFactor
  WearLevelling.eraseSector (startSector / e.sizeFactor)
  e.writeKept (startSector / e.sizeFactor) preCheckStart count buffer
  pure { e with sectorBuffer := buffer }

/-- `WL_Ext_Perf::erase_sector`. -/
def eraseSector (sector : ℕ) : WlM ExtPerf := e.eraseSectorFit sector 1

/-- The parts of the range of `size` bytes from `start` on. -/
def parts (start size : ℕ) : Parts :=
  let preCheckStart := start / e.fatSectorSize % e.sizeFactor
  let sectorsCount := size / e.fatSectorSize
  let preCheckCount := min (e.sizeFactor - preCheckStart) sectorsCount
  let postCheckCount := (sectorsCount - preCheckCount) % e.sizeFactor
  let postCheckStart :=
    u32Sub (u32 (start + size)) (postCheckCount * e.fatSectorSize) / e.fatSectorSize
  let restCheckCount := sectorsCount - preCheckCount - postCheckCount
  -- a first part that is a whole flash sector counts as rest
  if preCheckCount = e.sizeFactor ∧ 0 = preCheckStart then
    ⟨0, start, restCheckCount + e.sizeFactor, postCheckStart, postCheckCount⟩
  else
    ⟨preCheckCount, u32 (start + preCheckCount * e.fatSectorSize), restCheckCount,
      postCheckStart, postCheckCount⟩

/-- Erase `count` FAT sectors of one flash sector, unless there are none. -/
def erasePart (startSector count : ℕ) : WlM ExtPerf :=
  if count ≠ 0 then e.eraseSectorFit startSector count else pure e

/-- Erase the whole flash sectors of the range. -/
def eraseRest (p : Parts) : WlM Unit :=
  if p.restCheckCount > 0 then
    Prog.upTo (fun i => WearLevelling.eraseSector (p.restCheckStart / e.flashSectorSize + i))
      (p.restCheckCount / e.sizeFactor)
  else pure ()

/-- `WL_Ext_Perf::erase_range`. -/
def eraseRange (start size : ℕ) : WlM ExtPerf :=
  if start % e.fatSectorSize ≠ 0 ∨ size % e.fatSectorSize ≠ 0 ∨ size = 0 then
    Prog.throw .invalidArg
  else do
    let p := e.parts start size
    let e₁ ← e.erasePart (start / e.fatSectorSize) p.preCheckCount
    e₁.eraseRest p
    e₁.erasePart p.postCheckStart p.postCheckCount

/-! ### The configuration -/

/-- The flash sectors of the driver are cut into whole FAT sectors of whole words. -/
structure Fits (e : ExtPerf) (w : World) : Prop where
  flash_eq : e.flashSectorSize = w.wl.cfg.sectorSize
  split : e.flashSectorSize = e.fatSectorSize * e.sizeFactor
  fat_pos : 0 < e.fatSectorSize
  word_dvd : 4 ∣ e.fatSectorSize

variable {e : ExtPerf}

lemma Fits.congr (h : e.Fits w) (hset : SameSetup w w') : e.Fits w' :=
  ⟨by rw [h.flash_eq, hset.cfg], h.split, h.fat_pos, h.word_dvd⟩

/-- Another content of the buffer fits as well. -/
lemma Fits.withBuffer (h : e.Fits w) (buffer : Mem) : Fits { e with sectorBuffer := buffer } w :=
  ⟨h.flash_eq, h.split, h.fat_pos, h.word_dvd⟩

/-! ### Accesses to one FAT sector -/

lemma partAddr_eq (hF : e.Fits w) {base i : ℕ}
    (hlt : e.fatSectorSize * (e.sizeFactor * base + i) < 2 ^ 32) :
    e.partAddr base i = e.fatSectorSize * (e.sizeFactor * base + i) := by
  have heq : base * e.flashSectorSize + i * e.fatSectorSize =
      e.fatSectorSize * (e.sizeFactor * base + i) := by
    rw [hF.split]
    ring
  rw [partAddr, heq, u32_of_lt hlt]

lemma bufferIndex_eq (hF : e.Fits w) (i : ℕ) : e.bufferIndex i = e.fatSectorSize * i := by
  rw [bufferIndex, Nat.mul_div_cancel' (Dvd.dvd.mul_left hF.word_dvd i), Nat.mul_comm]

/-- No page starts inside a FAT sector. -/
lemma plainAccess_part (hM : Mounted w N) (hF : e.Fits w) {u : ℕ}
    (hle : e.fatSectorSize * u + e.fatSectorSize ≤ w.wl.flashSize) :
    PlainAccess w (e.fatSectorSize * u) e.fatSectorSize := by
  refine plainAccess_of_unbroken hM.laid hM.initialized hM.state.moveCount_lt hF.fat_pos hle
    (.inr fun l hlow hhigh => ?_)
  obtain ⟨k, hk⟩ := hM.laid.page_dvd
  have hpage : l * w.wl.cfg.pageSize = e.fatSectorSize * (e.sizeFactor * k * l) := by
    rw [hk, ← hF.flash_eq, hF.split]
    ring
  rw [hpage] at hlow hhigh
  have h1 : u < e.sizeFactor * k * l := Nat.lt_of_mul_lt_mul_left hlow
  have h2 : e.sizeFactor * k * l < u + 1 :=
    Nat.lt_of_mul_lt_mul_left (a := e.fatSectorSize) (by rwa [Nat.mul_add, Nat.mul_one])
  omega

lemma read_part (h : Shows w N m) (hF : e.Fits w) {u : ℕ}
    (hle : e.fatSectorSize * u + e.fatSectorSize ≤ w.wl.flashSize) :
    read (e.fatSectorSize * u) e.fatSectorSize w =
      (.ok (m.read (e.fatSectorSize * u) e.fatSectorSize), w) := by
  rw [(plainAccess_part h.mounted hF hle).read_eq,
    Mem.read_congr fun i hi => h.view_eq (e.fatSectorSize * u + i) (by omega)]

lemma write_part (h : Shows w N m) (hF : e.Fits w) {u : ℕ}
    (hle : e.fatSectorSize * u + e.fatSectorSize ≤ w.wl.flashSize) (src : Mem) :
    ∃ w', write (e.fatSectorSize * u) src e.fatSectorSize w = (.ok (), w') ∧ SameSetup w w' ∧
      Shows w' N (m.program (e.fatSectorSize * u) (src.read 0 e.fatSectorSize)) := by
  obtain ⟨w', hrun, hw'⟩ := (plainAccess_part h.mounted hF hle).write_eq src
  refine ⟨w', hrun, hw'.sameSetup, hw'.mounted h.mounted, fun a ha => ?_⟩
  rw [hw'.sameSetup.flashSize] at ha
  rw [hw'.view_eq a ha]
  unfold Mem.program
  rw [h.view_eq a ha]

/-! ### Erasing a part of a flash sector -/

/-- The kept FAT sectors that have been read lie in the buffer. -/
lemma readKept_shows (h : Shows w N m) (hF : e.Fits w) {base : ℕ}
    (hle : e.fatSectorSize * (e.sizeFactor * base + e.sizeFactor) ≤ w.wl.flashSize)
    (shift count : ℕ) :
    ∀ n ≤ e.sizeFactor, ∃ buffer, e.readKept base shift count n w = (.ok buffer, w) ∧
      ∀ i < n, keeps shift count i = true → ∀ j < e.fatSectorSize,
        buffer (e.fatSectorSize * i + j) =
          m (e.fatSectorSize * (e.sizeFactor * base + i) + j) := by
  intro n
  induction n with
  | zero => exact fun _ => ⟨_, rfl, by omega⟩
  | succ n ih =>
    intro hn
    obtain ⟨buffer, hrun, hbuffer⟩ := ih (by omega)
    have hlt := h.mounted.laid.flashSize_lt
    have hfit : e.fatSectorSize * (e.sizeFactor * base + n) + e.fatSectorSize ≤
        w.wl.flashSize := by
      refine le_trans ?_ hle
      rw [← Nat.mul_succ]
      exact Nat.mul_le_mul_left _ (by omega)
    have hpart := hF.fat_pos
    cases hk : keeps shift count n with
    | false =>
      refine ⟨buffer, ?_, fun i hi hki => hbuffer i ?_ hki⟩
      · rw [readKept, Prog.bind_ok hrun, hk]
        rfl
      · rcases Nat.lt_succ_iff_lt_or_eq.mp hi with hi | rfl
        · exact hi
        · rw [hk] at hki
          cases hki
    | true =>
      refine ⟨buffer.store (e.fatSectorSize * n)
        (m.read (e.fatSectorSize * (e.sizeFactor * base + n)) e.fatSectorSize), ?_, ?_⟩
      · rw [readKept, Prog.bind_ok hrun, hk, if_pos rfl, partAddr_eq hF (by omega),
          bufferIndex_eq hF, Prog.bind_ok (read_part h hF hfit), Prog.pure_apply]
      · intro i hi hki j hj
        rcases Nat.lt_succ_iff_lt_or_eq.mp hi with hi | rfl
        · -- an earlier FAT sector lies before the new one
          have hbefore : e.fatSectorSize * (i + 1) ≤ e.fatSectorSize * n :=
            Nat.mul_le_mul_left _ hi
          rw [Nat.mul_add, Nat.mul_one] at hbefore
          rw [Mem.store_of_not_mem (by omega)]
          exact hbuffer i hi hki j hj
        · rw [Mem.store_of_mem (by rw [Mem.length_read]; omega), Nat.add_sub_cancel_left,
            Mem.getD_read hj]

/-- The memory `m` after the flash sector from FAT sector `first` on has been erased and the
first `n` of its FAT sectors have been written back where `keep` says so. -/
def restored (m : Mem) (fat factor first : ℕ) (keep : ℕ → Bool) (n : ℕ) : Mem := fun x =>
  if (first ≤ x / fat ∧ x / fat < first + factor) ∧
      ¬ (x / fat - first < n ∧ keep (x / fat - first) = true) then 0xff#8
  else m x

section Restored

variable {fat factor first n : ℕ} {keep : ℕ → Bool}

/-- An address lies in the FAT sector that its quotient names. -/
lemma div_eq_iff_mem (hfat : 0 < fat) {x u : ℕ} : x / fat = u ↔ fat * u ≤ x ∧ x < fat * u + fat := by
  rw [Nat.div_eq_iff hfat, Nat.mul_comm u]
  omega

lemma restored_zero (hfat : 0 < fat) :
    restored m fat factor first keep 0 = m.erase (fat * first) (fat * factor) := by
  funext x
  have h1 : first ≤ x / fat ↔ fat * first ≤ x := by rw [Nat.le_div_iff_mul_le hfat, Nat.mul_comm]
  have h2 : x / fat < first + factor ↔ x < fat * first + fat * factor := by
    rw [Nat.div_lt_iff_lt_mul hfat, Nat.mul_comm, Nat.mul_add]
  unfold restored Mem.erase
  simp only [h1, h2, Nat.not_lt_zero, false_and, not_false_iff, and_true]

lemma restored_skip (hk : keep n = false) :
    restored m fat factor first keep (n + 1) = restored m fat factor first keep n := by
  funext x
  have h : (x / fat - first < n + 1 ∧ keep (x / fat - first) = true) ↔
      (x / fat - first < n ∧ keep (x / fat - first) = true) := by
    constructor
    · rintro ⟨hlt, hkeep⟩
      refine ⟨?_, hkeep⟩
      rcases Nat.lt_succ_iff_lt_or_eq.mp hlt with hlt | heq
      · exact hlt
      · rw [heq, hk] at hkeep
        cases hkeep
    · exact fun h => ⟨by omega, h.2⟩
  unfold restored
  simp only [h]

/-- Writing back the bytes that a FAT sector had restores it. -/
lemma restored_program (hfat : 0 < fat) (hn : n < factor) (hk : keep n = true) {src : Mem}
    (hsrc : ∀ j < fat, src j = m (fat * (first + n) + j)) :
    (restored m fat factor first keep n).program (fat * (first + n)) (src.read 0 fat) =
      restored m fat factor first keep (n + 1) := by
  funext x
  by_cases hx : x / fat = first + n
  · have hmem := (div_eq_iff_mem hfat).mp hx
    have herased : restored m fat factor first keep n x = 0xff#8 := by
      unfold restored
      rw [if_pos (by rw [hx]; omega)]
    have hdone : restored m fat factor first keep (n + 1) x = m x := by
      unfold restored
      rw [if_neg (by rw [hx, Nat.add_sub_cancel_left]; simp [hk])]
    rw [Mem.program_of_erased (by rw [Mem.length_read]; exact hmem) herased, hdone,
      Mem.getD_read (by omega), Nat.zero_add, hsrc _ (by omega), Nat.add_sub_cancel' hmem.1]
  · rw [Mem.program_of_not_mem (by rw [Mem.length_read, ← div_eq_iff_mem hfat]; exact hx)]
    unfold restored
    have h : first ≤ x / fat → (x / fat - first < n + 1 ↔ x / fat - first < n) := by omega
    by_cases hle : first ≤ x / fat
    · simp only [h hle]
    · simp only [hle, false_and]

/-- Once all kept FAT sectors are restored only the others are erased. -/
lemma restored_all (hfat : 0 < fat) {shift count : ℕ} (hin : shift + count ≤ factor)
    (hlt : factor < 2 ^ 32) :
    restored m fat factor first (keeps shift count) factor =
      m.erase (fat * (first + shift)) (fat * count) := by
  funext x
  have hkeeps : ∀ i, keeps shift count i = true ↔ ¬ (shift ≤ i ∧ i < shift + count) := by
    intro i
    unfold keeps
    rw [u32_of_lt (by omega), Bool.or_eq_true, decide_eq_true_iff, decide_eq_true_iff]
    omega
  have h1 : first + shift ≤ x / fat ↔ fat * (first + shift) ≤ x := by
    rw [Nat.le_div_iff_mul_le hfat, Nat.mul_comm]
  have h2 : x / fat < first + shift + count ↔ x < fat * (first + shift) + fat * count := by
    rw [Nat.div_lt_iff_lt_mul hfat, Nat.mul_comm, Nat.mul_add]
  unfold restored Mem.erase
  simp only [hkeeps, ← h1, ← h2]
  congr 1
  apply propext
  omega

end Restored

lemma sizeFactor_pos (hM : Mounted w N) (hF : e.Fits w) : 0 < e.sizeFactor := by
  by_contra h0
  have hsec := hM.laid.sector_pos
  rw [← hF.flash_eq, hF.split, Nat.eq_zero_of_not_pos h0] at hsec
  omega

/-- The flash sector that holds FAT sector `s` lies in the logical flash. -/
lemma sector_le (hM : Mounted w N) (hF : e.Fits w) {s : ℕ}
    (hs : e.fatSectorSize * s < w.wl.flashSize) :
    e.fatSectorSize * (e.sizeFactor * (s / e.sizeFactor) + e.sizeFactor) ≤ w.wl.flashSize := by
  obtain ⟨k, hk⟩ := hM.laid.page_dvd
  have hsize : w.wl.flashSize = e.fatSectorSize * (e.sizeFactor * (k * N)) := by
    rw [hM.laid.flashSize_eq, hk, ← hF.flash_eq, hF.split]
    ring
  rw [hsize] at hs ⊢
  have hdiv : s / e.sizeFactor < k * N :=
    Nat.div_lt_of_lt_mul (Nat.lt_of_mul_lt_mul_left hs)
  rw [← Nat.mul_succ]
  exact Nat.mul_le_mul_left _ (Nat.mul_le_mul_left _ hdiv)

/-- Writing the kept FAT sectors back into the erased flash sector restores them. -/
lemma writeKept_shows {base : ℕ}
    (h : Shows w N (m.erase (e.fatSectorSize * (e.sizeFactor * base))
      (e.fatSectorSize * e.sizeFactor)))
    (hF : e.Fits w)
    (hle : e.fatSectorSize * (e.sizeFactor * base + e.sizeFactor) ≤ w.wl.flashSize)
    {shift count : ℕ} {buffer : Mem}
    (hbuffer : ∀ i < e.sizeFactor, keeps shift count i = true → ∀ j < e.fatSectorSize,
      buffer (e.fatSectorSize * i + j) = m (e.fatSectorSize * (e.sizeFactor * base + i) + j)) :
    ∃ w', e.writeKept base shift count buffer w = (.ok (), w') ∧ SameSetup w w' ∧
      Shows w' N (restored m e.fatSectorSize e.sizeFactor (e.sizeFactor * base)
        (keeps shift count) e.sizeFactor) := by
  have hlt := h.mounted.laid.flashSize_lt
  -- after `n` passes the first `n` FAT sectors are restored
  obtain ⟨w', hloop, hset, hw'⟩ := Prog.upTo_returns (n := e.sizeFactor)
    (f := fun i => (if keeps shift count i then
      write (e.partAddr base i) (fun j => buffer (e.bufferIndex i + j)) e.fatSectorSize
      else pure () : WlM Unit))
    (I := fun n w₁ => SameSetup w w₁ ∧ Shows w₁ N (restored m e.fatSectorSize e.sizeFactor
      (e.sizeFactor * base) (keeps shift count) n))
    (by
      rintro n hn w₁ ⟨hset₁, h₁⟩
      have hfit : e.fatSectorSize * (e.sizeFactor * base + n) + e.fatSectorSize ≤
          w.wl.flashSize := by
        refine le_trans ?_ hle
        rw [← Nat.mul_succ]
        exact Nat.mul_le_mul_left _ (by omega)
      have hpart := hF.fat_pos
      cases hk : keeps shift count n with
      | false => exact ⟨w₁, by rw [if_neg (by simp)]; rfl, hset₁, by rwa [restored_skip hk]⟩
      | true =>
        rw [if_pos rfl, partAddr_eq hF (by omega), bufferIndex_eq hF]
        obtain ⟨w₂, hrun, hset₂, h₂⟩ := write_part h₁ (hF.congr hset₁)
          (u := e.sizeFactor * base + n) (by rw [hset₁.flashSize]; exact hfit)
          (fun j => buffer (e.fatSectorSize * n + j))
        rw [restored_program hF.fat_pos hn hk (hbuffer n hn hk)] at h₂
        exact ⟨w₂, hrun, hset₁.trans hset₂, h₂⟩)
    ⟨SameSetup.refl w, by rwa [restored_zero hF.fat_pos]⟩
  exact ⟨w', hloop, hset, hw'⟩

/-- `eraseSectorFit` erases `count` FAT sectors that lie in one flash sector. -/
lemma eraseSectorFit_shows (h : Shows w N m) (hF : e.Fits w) {s : ℕ} (count : ℕ)
    (hin : s % e.sizeFactor + count ≤ e.sizeFactor)
    (hs : e.fatSectorSize * s < w.wl.flashSize) :
    ∃ buffer w', e.eraseSectorFit s count w = (.ok { e with sectorBuffer := buffer }, w') ∧
      SameSetup w w' ∧
      Shows w' N (m.erase (e.fatSectorSize * s) (e.fatSectorSize * count)) := by
  have hle := sector_le h.mounted hF hs
  have hlt := h.mounted.laid.flashSize_lt
  obtain ⟨buffer, hread, hbuffer⟩ := readKept_shows h hF hle (s % e.sizeFactor) count _ le_rfl
  have hsec : w.wl.cfg.sectorSize = e.fatSectorSize * e.sizeFactor := by
    rw [← hF.flash_eq, hF.split]
  have hsector : (s / e.sizeFactor + 1) * w.wl.cfg.sectorSize ≤ w.wl.flashSize := by
    rw [hsec, show (s / e.sizeFactor + 1) * (e.fatSectorSize * e.sizeFactor) =
      e.fatSectorSize * (e.sizeFactor * (s / e.sizeFactor) + e.sizeFactor) by ring]
    exact hle
  obtain ⟨w₁, herase, hset₁, h₁⟩ := eraseSector_shows h (s / e.sizeFactor) hsector
  rw [hsec, show s / e.sizeFactor * (e.fatSectorSize * e.sizeFactor) =
    e.fatSectorSize * (e.sizeFactor * (s / e.sizeFactor)) by ring] at h₁
  obtain ⟨w₂, hwrite, hset₂, h₂⟩ := writeKept_shows h₁ (hF.congr hset₁)
    (by rw [hset₁.flashSize]; exact hle) hbuffer
  have hfactor : e.sizeFactor < 2 ^ 32 := by
    have : 1 * e.sizeFactor ≤ e.fatSectorSize * e.sizeFactor :=
      Nat.mul_le_mul_right _ hF.fat_pos
    rw [Nat.mul_add] at hle
    omega
  rw [restored_all hF.fat_pos hin hfactor, Nat.div_add_mod] at h₂
  refine ⟨buffer, w₂, ?_, hset₁.trans hset₂, h₂⟩
  unfold eraseSectorFit
  rw [Prog.bind_ok hread, Prog.bind_ok herase, Prog.bind_ok hwrite, Prog.pure_apply]

/-! ### The parts of a range -/

/-- Three parts lie one behind the other from FAT sector `s` on and have `k` FAT sectors
together: a part of a flash sector, whole flash sectors, and a part of a flash sector. -/
structure Covers (p : Parts) (fat factor s k : ℕ) : Prop where
  sum_eq : p.preCheckCount + factor * (p.restCheckCount / factor) + p.postCheckCount = k
  pre_le : p.preCheckCount ≠ 0 → s % factor + p.preCheckCount ≤ factor
  restStart_eq : p.restCheckStart = fat * (s + p.preCheckCount)
  rest_dvd : 0 < p.restCheckCount → factor ∣ s + p.preCheckCount
  postStart_eq : p.postCheckCount ≠ 0 →
    p.postCheckStart = s + p.preCheckCount + factor * (p.restCheckCount / factor)
  post_dvd : p.postCheckCount ≠ 0 → factor ∣ p.postCheckStart
  post_lt : p.postCheckCount < factor

section Split

variable {f s k pre : ℕ}

/-- A range that goes on behind its first part has filled the first flash sector. -/
lemma first_fills (hf : 0 < f) (hpre : pre = min (f - s % f) k) (hne : pre ≠ k) :
    s + pre = f * (s / f + 1) := by
  have hs := Nat.div_add_mod s f
  have hmod := Nat.mod_lt s hf
  rw [Nat.mul_add]
  generalize s % f = r at *
  generalize f * (s / f) = m at *
  omega

lemma rest_eq : k - pre - (k - pre) % f = f * ((k - pre) / f) := by
  have hsplit := Nat.div_add_mod (k - pre) f
  omega

lemma rest_ends (hle : pre ≤ k) :
    s + k - (k - pre) % f = s + pre + f * ((k - pre) / f) := by
  have hsplit := Nat.div_add_mod (k - pre) f
  generalize f * ((k - pre) / f) = m at *
  omega

lemma parts_sum (hle : pre ≤ k) : pre + f * ((k - pre) / f) + (k - pre) % f = k := by
  rw [Nat.add_assoc, Nat.div_add_mod]
  omega

end Split

lemma parts_covers (hfat : 0 < e.fatSectorSize) (hfactor : 0 < e.sizeFactor) {s k : ℕ}
    (hlt : e.fatSectorSize * (s + k) < 2 ^ 32) :
    Covers (e.parts (e.fatSectorSize * s) (e.fatSectorSize * k)) e.fatSectorSize e.sizeFactor
      s k := by
  obtain ⟨pre, hpre⟩ : ∃ pre, pre = min (e.sizeFactor - s % e.sizeFactor) k := ⟨_, rfl⟩
  have hle : pre ≤ k := by
    rw [hpre]
    exact Nat.min_le_right _ _
  have hpost := Nat.mod_lt (k - pre) hfactor
  have hstart : e.fatSectorSize * s / e.fatSectorSize = s := Nat.mul_div_cancel_left _ hfat
  have hsize : e.fatSectorSize * k / e.fatSectorSize = k := Nat.mul_div_cancel_left _ hfat
  -- the last part ends where the range ends
  have hpostStart : u32Sub (u32 (e.fatSectorSize * s + e.fatSectorSize * k))
      ((k - pre) % e.sizeFactor * e.fatSectorSize) / e.fatSectorSize =
        s + k - (k - pre) % e.sizeFactor := by
    have hpostLe : (k - pre) % e.sizeFactor ≤ s + k :=
      ((Nat.mod_le _ _).trans (Nat.sub_le _ _)).trans (Nat.le_add_left _ _)
    have hbytes : (k - pre) % e.sizeFactor * e.fatSectorSize ≤ e.fatSectorSize * (s + k) := by
      rw [Nat.mul_comm]
      exact Nat.mul_le_mul_left _ hpostLe
    rw [← Nat.mul_add, u32_of_lt hlt, u32Sub_of_le hlt hbytes,
      Nat.mul_comm ((k - pre) % e.sizeFactor), ← Nat.mul_sub, Nat.mul_div_cancel_left _ hfat]
  have hend : s + k - (k - pre) % e.sizeFactor =
      s + pre + e.sizeFactor * ((k - pre) / e.sizeFactor) := rest_ends hle
  have hfull : pre ≠ k → s + pre = e.sizeFactor * (s / e.sizeFactor + 1) :=
    first_fills hfactor hpre
  unfold parts
  simp only [hstart, hsize, ← hpre, hpostStart, rest_eq]
  by_cases hwhole : pre = e.sizeFactor ∧ 0 = s % e.sizeFactor
  · rw [if_pos hwhole]
    have hdvd : e.sizeFactor ∣ s := Nat.dvd_of_mod_eq_zero hwhole.2.symm
    have hcount : (e.sizeFactor * ((k - pre) / e.sizeFactor) + e.sizeFactor) / e.sizeFactor =
        (k - pre) / e.sizeFactor + 1 := by
      rw [Nat.add_div_right _ hfactor, Nat.mul_div_cancel_left _ hfactor]
    have hrows : e.sizeFactor * ((k - pre) / e.sizeFactor + 1) =
        pre + e.sizeFactor * ((k - pre) / e.sizeFactor) := by
      rw [Nat.mul_add, Nat.mul_one, Nat.add_comm, ← hwhole.1]
    have hends : s + k - (k - pre) % e.sizeFactor =
        s + e.sizeFactor * ((k - pre) / e.sizeFactor + 1) := by
      rw [hrows, hend, Nat.add_assoc]
    refine ⟨?_, fun h => absurd rfl h, rfl, fun _ => hdvd, fun _ => ?_, fun _ => ?_, hpost⟩
    · simp only [hcount, Nat.zero_add, hrows]
      exact parts_sum hle
    · simp only [hcount]
      exact hends
    · simp only [hends]
      exact Nat.dvd_add hdvd (Nat.dvd_mul_right _ _)
  · rw [if_neg hwhole]
    have hcount : e.sizeFactor * ((k - pre) / e.sizeFactor) / e.sizeFactor =
        (k - pre) / e.sizeFactor := Nat.mul_div_cancel_left _ hfactor
    have hrestStart : u32 (e.fatSectorSize * s + pre * e.fatSectorSize) =
        e.fatSectorSize * (s + pre) := by
      rw [Nat.mul_comm pre, ← Nat.mul_add]
      exact u32_of_lt (lt_of_le_of_lt (Nat.mul_le_mul_left _ (Nat.add_le_add_left hle _)) hlt)
    refine ⟨?_, fun _ => ?_, hrestStart, fun hpos => ?_, fun _ => ?_, fun hne => ?_, hpost⟩
    · simp only [hcount]
      exact parts_sum hle
    · have hmod := Nat.mod_lt s hfactor
      have hfirst : pre ≤ e.sizeFactor - s % e.sizeFactor := by
        rw [hpre]
        exact Nat.min_le_left _ _
      dsimp only
      omega
    · refine ⟨_, hfull fun heq => ?_⟩
      rw [heq, Nat.sub_self, Nat.zero_div, Nat.mul_zero] at hpos
      exact absurd hpos (lt_irrefl 0)
    · simp only [hcount]
      exact hend
    · simp only [hend]
      refine Nat.dvd_add ⟨_, hfull fun heq => hne ?_⟩ (Nat.dvd_mul_right _ _)
      rw [heq, Nat.sub_self, Nat.zero_mod]

/-! ### Erasing a range -/

lemma erasePart_shows (h : Shows w N m) (hF : e.Fits w) (s count : ℕ)
    (hin : count ≠ 0 → s % e.sizeFactor + count ≤ e.sizeFactor)
    (hs : e.fatSectorSize * (s + count) ≤ w.wl.flashSize) :
    ∃ buffer w', e.erasePart s count w = (.ok { e with sectorBuffer := buffer }, w') ∧
      SameSetup w w' ∧
      Shows w' N (m.erase (e.fatSectorSize * s) (e.fatSectorSize * count)) := by
  unfold erasePart
  by_cases hc : count ≠ 0
  · rw [if_pos hc]
    refine eraseSectorFit_shows h hF count (hin hc) (lt_of_lt_of_le ?_ hs)
    exact Nat.mul_lt_mul_of_pos_left (by omega) hF.fat_pos
  · rw [if_neg hc]
    have hzero : count = 0 := by omega
    exact ⟨e.sectorBuffer, w, rfl, SameSetup.refl w, by
      rwa [hzero, Nat.mul_zero, Mem.erase_zero]⟩

lemma eraseRest_shows (h : Shows w N m) (hF : e.Fits w) {p : Parts} {s k : ℕ}
    (hp : Covers p e.fatSectorSize e.sizeFactor s k) (hfactor : 0 < e.sizeFactor)
    (hle : e.fatSectorSize * (s + k) ≤ w.wl.flashSize) :
    ∃ w', e.eraseRest p w = (.ok (), w') ∧ SameSetup w w' ∧
      Shows w' N (m.erase (e.fatSectorSize * (s + p.preCheckCount))
        (e.fatSectorSize * (e.sizeFactor * (p.restCheckCount / e.sizeFactor)))) := by
  unfold eraseRest
  by_cases hpos : p.restCheckCount > 0
  · rw [if_pos hpos]
    obtain ⟨q, hq⟩ := hp.rest_dvd hpos
    have hsec : w.wl.cfg.sectorSize = e.fatSectorSize * e.sizeFactor := by
      rw [← hF.flash_eq, hF.split]
    have hfirst : p.restCheckStart / e.flashSectorSize = q := by
      rw [hp.restStart_eq, hF.split, hq, ← Nat.mul_assoc,
        Nat.mul_div_cancel_left _ (Nat.mul_pos hF.fat_pos hfactor)]
    have hsum := hp.sum_eq
    rw [hfirst]
    obtain ⟨w', hrun, hset, hw'⟩ := eraseSectors_shows h (k := q)
      (n := p.restCheckCount / e.sizeFactor) (by
        rw [hsec, Nat.mul_assoc, Nat.mul_add e.sizeFactor, ← hq]
        refine le_trans (Nat.mul_le_mul_left _ ?_) hle
        omega)
    rw [hsec, Nat.mul_assoc, Nat.mul_assoc, ← hq] at hw'
    exact ⟨w', hrun, hset, hw'⟩
  · rw [if_neg hpos]
    have hzero : p.restCheckCount = 0 := by omega
    exact ⟨w, rfl, SameSetup.refl w, by
      rwa [hzero, Nat.zero_div, Nat.mul_zero, Nat.mul_zero, Mem.erase_zero]⟩

/-- `eraseRange` acts on the logical contents as on a plain memory. -/
lemma eraseRange_shows (h : Shows w N m) (hF : e.Fits w) {s k : ℕ} (hk : 0 < k)
    (hle : e.fatSectorSize * (s + k) ≤ w.wl.flashSize) :
    ∃ buffer w', e.eraseRange (e.fatSectorSize * s) (e.fatSectorSize * k) w =
        (.ok { e with sectorBuffer := buffer }, w') ∧ SameSetup w w' ∧
      Shows w' N (m.erase (e.fatSectorSize * s) (e.fatSectorSize * k)) := by
  have hlt := h.mounted.laid.flashSize_lt
  have hfactor := sizeFactor_pos h.mounted hF
  have hp := parts_covers hF.fat_pos hfactor (s := s) (k := k) (by omega)
  set p := e.parts (e.fatSectorSize * s) (e.fatSectorSize * k) with hparts
  have hsum := hp.sum_eq
  obtain ⟨b₁, w₁, hrun₁, hset₁, h₁⟩ := erasePart_shows h hF s p.preCheckCount
    hp.pre_le (le_trans (Nat.mul_le_mul_left _ (by omega)) hle)
  have hF₁ := (hF.congr hset₁).withBuffer b₁
  obtain ⟨w₂, hrun₂, hset₂, h₂⟩ := eraseRest_shows h₁ hF₁ hp hfactor
    (by rw [hset₁.flashSize]; exact hle)
  have hset₁₂ := hset₁.trans hset₂
  rw [Nat.mul_add e.fatSectorSize s, Mem.erase_erase, ← Nat.mul_add] at h₂
  have hlast : p.postCheckCount ≠ 0 → e.fatSectorSize * p.postCheckStart = e.fatSectorSize * s +
      e.fatSectorSize * (p.preCheckCount + e.sizeFactor * (p.restCheckCount / e.sizeFactor)) := by
    intro hne
    rw [hp.postStart_eq hne, ← Nat.mul_add, Nat.add_assoc]
  by_cases hpost : p.postCheckCount = 0
  · refine ⟨b₁, w₂, ?_, hset₁₂, ?_⟩
    · unfold eraseRange
      rw [if_neg (by simp [hF.fat_pos.ne', hk.ne']), ← hparts, Nat.mul_div_cancel_left _ hF.fat_pos,
        Prog.bind_ok hrun₁, Prog.bind_ok hrun₂, erasePart, if_neg (by simp [hpost])]
      rfl
    · rw [hpost, Nat.add_zero] at hsum
      rwa [hsum] at h₂
  · obtain ⟨b₃, w₃, hrun₃, hset₃, h₃⟩ := erasePart_shows h₂ (hF₁.congr hset₂)
      p.postCheckStart p.postCheckCount
      (fun hne => by
        have hmod : p.postCheckStart % e.sizeFactor = 0 := Nat.mod_eq_zero_of_dvd (hp.post_dvd hne)
        have := hp.post_lt
        simp only
        omega)
      (by
        rw [hset₁₂.flashSize]
        refine le_trans (Nat.mul_le_mul_left _ ?_) hle
        rw [hp.postStart_eq hpost]
        omega)
    refine ⟨b₃, w₃, ?_, hset₁₂.trans hset₃, ?_⟩
    · unfold eraseRange
      rw [if_neg (by simp [hF.fat_pos.ne', hk.ne']), ← hparts, Nat.mul_div_cancel_left _ hF.fat_pos,
        Prog.bind_ok hrun₁, Prog.bind_ok hrun₂, hrun₃]
    · simp only [hlast hpost] at h₃
      rwa [Mem.erase_erase, ← Nat.mul_add, hsum] at h₃

/-- Of a mounted driver whose flash sectors are cut into FAT sectors, `eraseRange` erases the
bytes of its range and no others, wherever the range starts and ends in the flash sectors; it
refuses an empty range only. -/
theorem eraseRange_exact (hM : Mounted w N) (hF : e.Fits w) {start size : ℕ}
    (hstart : e.fatSectorSize ∣ start) (hsize : e.fatSectorSize ∣ size)
    (hle : start + size ≤ w.wl.flashSize) :
    (size ≠ 0 → ∃ e' w', e.eraseRange start size w = (.ok e', w')) ∧
      ∀ e' w', e.eraseRange start size w = (.ok e', w') →
        Mounted w' N ∧ SameSetup w w' ∧ e'.Fits w' ∧
          ∀ a < w.wl.flashSize,
            view w' a = if start ≤ a ∧ a < start + size then 0xff#8 else view w a := by
  obtain ⟨s, rfl⟩ := hstart
  obtain ⟨k, rfl⟩ := hsize
  rw [← Nat.mul_add] at hle
  rcases Nat.eq_zero_or_pos k with rfl | hk
  · refine ⟨fun h => absurd (Nat.mul_zero _) h, fun e' w' h => ?_⟩
    unfold eraseRange at h
    rw [if_pos (by simp)] at h
    simp [Prog.throw] at h
  · obtain ⟨buffer, w₁, hrun, hset, h₁⟩ :=
      eraseRange_shows (m := view w) ⟨hM, fun _ _ => rfl⟩ hF hk hle
    refine ⟨fun _ => ⟨_, w₁, hrun⟩, fun e' w' h => ?_⟩
    rw [hrun] at h
    obtain ⟨rfl, rfl⟩ : _ = e' ∧ w₁ = w' := by simpa using h
    refine ⟨h₁.mounted, hset, (hF.congr hset).withBuffer buffer, fun a ha => ?_⟩
    exact h₁.view_eq a (by rwa [hset.flashSize])

/-- Four FAT sectors in each flash sector. -/
def small : ExtPerf := ⟨64, 16, 4, fun _ => 0x00#8⟩

/-- A range with all three parts, in a memory that has just been mounted. -/
theorem eraseRange_exact_small :
    (144 ≠ 0 → ∃ e' w', small.eraseRange 16 144 (mountedWith 16) = (.ok e', w')) ∧
      ∀ e' w', small.eraseRange 16 144 (mountedWith 16) = (.ok e', w') →
        Mounted w' 4 ∧ SameSetup (mountedWith 16) w' ∧ e'.Fits w' ∧
          ∀ a < (mountedWith 16).wl.flashSize, view w' a =
            if 16 ≤ a ∧ a < 16 + 144 then 0xff#8 else view (mountedWith 16) a :=
  eraseRange_exact mountedWith_sixteen ⟨by decide +kernel, rfl, by decide, by decide⟩
    (by decide) (by decide) (by decide +kernel)

example : small.parts 16 144 = ⟨3, 64, 4, 8, 2⟩ := by decide

end ExtPerf

end EspIdf.WearLevelling
