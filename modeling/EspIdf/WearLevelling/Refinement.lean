/-
# Wear levelling refines plain flash

A plain NOR device of `chip_size` bytes erases and programs in place.  Every operation of a
mounted driver, and every remount, does to the logical contents what the plain device does,
while the dummy page travels through the memory underneath.
-/
import EspIdf.WearLevelling.Mount

namespace EspIdf.WearLevelling

open EspIdf.Lib

variable {w w' : World} {N : ℕ} {m : Mem} {c : WlConfig}

/-! ### Operations -/

/-- What a client does with the driver.  A remount destroys the object and mounts the memory
with a new one, whose fields other than the flags are whatever the allocator left. -/
inductive Op where
  | eraseSector (sector : ℕ)
  | eraseRange (start size : ℕ)
  | write (addr : ℕ) (src : List Byte)
  | read (addr size : ℕ)
  | flush
  | remount (random : ℕ) (mallocd : ℕ → Byte) (garbage : WlFlash)

/-- A new object. -/
def construct (garbage : WlFlash) : WlM Unit :=
  Prog.modify fun w => { w with wl := { garbage with configured := false, initialized := false } }

/-- `wl_unmount` flushes, and `wl_mount` configures and initialises a new object. -/
def remount (c : WlConfig) (random : ℕ) (mallocd : ℕ → Byte) (garbage : WlFlash) : WlM Unit := do
  flush
  construct garbage
  config c mallocd
  init random

/-- A caller's memory that holds the bytes `bs`. -/
def bufferOf (bs : List Byte) : Mem := fun i => bs.getD i 0xff#8

/-- The operation on the driver, with the bytes it returns. -/
def Op.run (c : WlConfig) : Op → WlM (List Byte)
  | eraseSector sector => do WearLevelling.eraseSector sector; pure []
  | eraseRange start size => do WearLevelling.eraseRange start size; pure []
  | write addr src => do
    WearLevelling.write addr (bufferOf src) src.length
    pure []
  | read addr size => WearLevelling.read addr size
  | flush => do WearLevelling.flush; pure []
  | remount random mallocd garbage => do
    WearLevelling.remount c random mallocd garbage
    pure []

/-- The operation on a plain device with sectors of `sec` bytes. -/
def Op.plain (sec : ℕ) : Op → Mem → List Byte × Mem
  | eraseSector sector, m => ([], m.erase (sector * sec) sec)
  | eraseRange start size, m => ([], m.erase start size)
  | write addr src, m => ([], m.program addr src)
  | read addr size, m => (m.read addr size, m)
  | flush, m => ([], m)
  | remount _ _ _, m => ([], m)

/-- The operations that a device of `size` bytes takes: whole sectors are erased, and reads
and writes start at a page and transfer something. -/
def Op.Valid (sec page size : ℕ) : Op → Prop
  | eraseSector sector => (sector + 1) * sec ≤ size
  | eraseRange start n => sec ∣ start ∧ sec ∣ n ∧ start + n ≤ size
  | write addr src => page ∣ addr ∧ 0 < src.length ∧ addr + src.length ≤ size
  | read addr n => page ∣ addr ∧ 0 < n ∧ addr + n ≤ size
  | flush => True
  | remount _ _ _ => True

instance Op.decidableValid (sec page size : ℕ) : (op : Op) → Decidable (op.Valid sec page size)
  | .eraseSector sector => inferInstanceAs (Decidable ((sector + 1) * sec ≤ size))
  | .eraseRange start n => inferInstanceAs (Decidable (sec ∣ start ∧ sec ∣ n ∧ start + n ≤ size))
  | .write addr src =>
    inferInstanceAs (Decidable (page ∣ addr ∧ 0 < src.length ∧ addr + src.length ≤ size))
  | .read addr n => inferInstanceAs (Decidable (page ∣ addr ∧ 0 < n ∧ addr + n ≤ size))
  | .flush => inferInstanceAs (Decidable True)
  | .remount _ _ _ => inferInstanceAs (Decidable True)

/-- A sequence of operations on the driver. -/
def runOps (c : WlConfig) : List Op → WlM (List (List Byte))
  | [] => pure []
  | op :: ops => do
    let out ← op.run c
    let outs ← runOps c ops
    pure (out :: outs)

/-- A sequence of operations on the plain device. -/
def plainOps (sec : ℕ) : List Op → Mem → List (List Byte) × Mem
  | [], m => ([], m)
  | op :: ops, m =>
    let (out, m₁) := op.plain sec m
    let (outs, m₂) := plainOps sec ops m₁
    (out :: outs, m₂)

/-! ### One operation -/

/-- The driver is mounted and shows the contents of the plain device. -/
structure Shows (w : World) (N : ℕ) (m : Mem) : Prop where
  mounted : Mounted w N
  view_eq : ∀ a < w.wl.flashSize, view w a = m a

lemma checkInitialized_ok (h : w.wl.initialized = true) : checkInitialized w = (.ok (), w) := by
  unfold checkInitialized
  rw [Prog.get_bind, if_pos h]
  rfl

lemma updateWL_shows (h : Shows w N m) :
    ∃ w', updateWL w = (.ok (), w') ∧ SameSetup w w' ∧ Shows w' N m := by
  obtain ⟨w', hrun, hM, hset, hstep⟩ := updateWL_ok h.mounted
  refine ⟨w', hrun, hset, hM, ?_⟩
  intro a ha
  rw [hset.flashSize] at ha
  rw [view_dataStep h.mounted.laid h.mounted.state hset hstep ha]
  exact h.view_eq a ha

lemma eraseSector_shows (h : Shows w N m) (sector : ℕ)
    (hs : (sector + 1) * w.wl.cfg.sectorSize ≤ w.wl.flashSize) :
    ∃ w', eraseSector sector w = (.ok (), w') ∧ SameSetup w w' ∧
      Shows w' N (m.erase (sector * w.wl.cfg.sectorSize) w.wl.cfg.sectorSize) := by
  obtain ⟨w₁, hup, hset₁, h₁⟩ := updateWL_shows h
  have hpos := h.mounted.laid.sector_pos
  rw [Nat.add_mul] at hs
  obtain ⟨w₂, her, hM, hset₂, -, hview⟩ := drvEraseSector_page h₁.mounted
    (c := sector * w₁.wl.cfg.sectorSize) (by rw [hset₁.cfg, hset₁.flashSize]; omega)
    (Nat.dvd_mul_left _ _)
  refine ⟨w₂, ?_, hset₁.trans hset₂, hM, ?_⟩
  · unfold eraseSector
    rw [Prog.bind_ok (checkInitialized_ok h.mounted.initialized), Prog.bind_ok hup, Prog.get_bind]
    exact her
  · intro a ha
    rw [hset₂.flashSize] at ha
    rw [hview a ha, hset₁.cfg]
    unfold Mem.erase
    rw [h₁.view_eq a ha]

/-- Erasing `n` sectors one behind the other. -/
lemma eraseSectors_shows (h : Shows w N m) {k n : ℕ}
    (hle : w.wl.cfg.sectorSize * (k + n) ≤ w.wl.flashSize) :
    ∃ w', Prog.upTo (fun i => eraseSector (k + i)) n w = (.ok (), w') ∧ SameSetup w w' ∧
      Shows w' N (m.erase (w.wl.cfg.sectorSize * k) (w.wl.cfg.sectorSize * n)) := by
  set sec := w.wl.cfg.sectorSize with hsec
  -- after `i` passes the first `i` sectors are erased
  obtain ⟨w', hloop, hset, hw'⟩ := Prog.upTo_returns (n := n)
    (f := fun i => (eraseSector (k + i) : WlM Unit))
    (I := fun i w₁ => SameSetup w w₁ ∧ Shows w₁ N (m.erase (sec * k) (sec * i)))
    (by
      rintro i hi w₁ ⟨hset₁, h₁⟩
      have hlast : sec * (k + (i + 1)) ≤ sec * (k + n) := Nat.mul_le_mul_left _ (by omega)
      have hsector : w₁.wl.cfg.sectorSize = sec := by rw [hset₁.cfg]
      obtain ⟨w₂, hrun, hset₂, h₂⟩ := eraseSector_shows h₁ (k + i) (by
        rw [hsector, hset₁.flashSize, Nat.mul_comm, Nat.add_assoc]
        omega)
      refine ⟨w₂, hrun, hset₁.trans hset₂, ?_⟩
      rw [hsector, Nat.mul_comm (k + i), Nat.mul_add, Mem.erase_erase] at h₂
      exact h₂)
    ⟨SameSetup.refl w, by rwa [Nat.mul_zero, Mem.erase_zero]⟩
  exact ⟨w', hloop, hset, hw'⟩

lemma eraseRange_shows (h : Shows w N m) {start size : ℕ} (hstart : w.wl.cfg.sectorSize ∣ start)
    (hsize : w.wl.cfg.sectorSize ∣ size) (hle : start + size ≤ w.wl.flashSize) :
    ∃ w', eraseRange start size w = (.ok (), w') ∧ SameSetup w w' ∧
      Shows w' N (m.erase start size) := by
  have hpos : 0 < w.wl.cfg.sectorSize := h.mounted.laid.sector_pos
  obtain ⟨k, hk⟩ := hstart
  obtain ⟨n, hn⟩ := hsize
  obtain ⟨w', hloop, hset, hw'⟩ := eraseSectors_shows h (k := k) (n := n)
    (by rw [Nat.mul_add, ← hk, ← hn]; exact hle)
  rw [← hk, ← hn] at hw'
  refine ⟨w', ?_, hset, hw'⟩
  have hcount : (size + w.wl.cfg.sectorSize - 1) / w.wl.cfg.sectorSize = n := by
    rw [hn, show w.wl.cfg.sectorSize * n + w.wl.cfg.sectorSize - 1 =
      w.wl.cfg.sectorSize - 1 + w.wl.cfg.sectorSize * n by omega, Nat.add_mul_div_left _ _ hpos,
      Nat.div_eq_of_lt (by omega), Nat.zero_add]
  have hfirst : start / w.wl.cfg.sectorSize = k := by rw [hk, Nat.mul_div_cancel_left _ hpos]
  unfold eraseRange
  rw [Prog.bind_ok (checkInitialized_ok h.mounted.initialized), Prog.get_bind]
  simp only [hcount, hfirst]
  exact hloop

/-- The pages that a transfer of `size` bytes from `addr` on takes each lie in order. -/
def Pieces (w : World) (addr size : ℕ) : Prop :=
  ∀ i, i * w.wl.cfg.pageSize < size →
    InOrder w (addr + i * w.wl.cfg.pageSize)
      (min w.wl.cfg.pageSize (size - i * w.wl.cfg.pageSize))

/-- A transfer from the start of a page on takes whole pages. -/
lemma pieces_of_dvd (hL : Laid w N) (hm : w.wl.state.moveCount < N) {addr size : ℕ}
    (hd : w.wl.cfg.pageSize ∣ addr) : Pieces w addr size := by
  intro i _
  apply inOrder_of_fits hL hm
  rw [Nat.mod_eq_zero_of_dvd (Nat.dvd_add hd (Nat.dvd_mul_left _ _)), Nat.zero_add]
  exact Nat.min_le_left _ _

/-- The whole pages of a transfer leave between one byte and one page. -/
lemma rest_le {size page : ℕ} (hpage : 0 < page) (hsize : 0 < size) :
    (size - 1) / page * page < size ∧ size ≤ (size - 1) / page * page + page := by
  have h1 := Nat.div_mul_le_self (size - 1) page
  have h2 := Nat.lt_div_mul_add (a := size - 1) hpage
  omega

lemma write_programmed (hL : Laid w N) (hinit : w.wl.initialized = true)
    (hm : w.wl.state.moveCount < N) {addr size : ℕ} (hp : Pieces w addr size) (hsize : 0 < size)
    (hle : addr + size ≤ w.wl.flashSize) (src : Mem) :
    ∃ w', write addr src size w = (.ok (), w') ∧ Programmed w w' addr (src.read 0 size) := by
  have hlt := hL.flashSize_lt
  unfold Pieces at hp
  set page := w.wl.cfg.pageSize with hpg
  have hpos : 0 < page := hL.page_pos
  obtain ⟨hlow, hhigh⟩ := rest_le hpos hsize
  set count := (size - 1) / page with hcount
  have hsub : u32Sub size 1 / page = count := by
    rw [u32Sub_of_le (by omega) hsize]
  have hrest : u32Sub size (count * page) = size - count * page :=
    u32Sub_of_le (by omega) (by omega)
  -- one piece after `k` bytes
  have hstep : ∀ k n w₁, Programmed w w₁ addr (src.read 0 k) → InOrder w (addr + k) n →
      addr + k + n ≤ w.wl.flashSize → ∃ w₂,
      drvWrite (w₁.wl.cfg.startAddr + calcAddr w₁.wl (addr + k)) (src.read k n) w₁ = (.ok (), w₂) ∧
        Programmed w w₂ addr (src.read 0 (k + n)) := by
    intro k n w₁ h₁ hin hfit
    obtain ⟨w₂, hrun, h₂⟩ := drvWrite_inOrder (hL.of_sameSetup h₁.sameSetup)
      (c := addr + k) (by rw [h₁.wl_eq]; exact hm)
      (show InOrder w₁ _ (src.read k n).length by rw [Mem.length_read]; exact hin.congr h₁.wl_eq)
      (by rw [Mem.length_read, h₁.wl_eq]; exact hfit)
    refine ⟨w₂, hrun, ?_⟩
    rw [Mem.read_append, Nat.zero_add]
    exact h₁.append (by rwa [Mem.length_read])
  -- after `i` passes the first `i` pages are programmed
  obtain ⟨w₁, hloop, h₁⟩ := Prog.upTo_returns (n := count)
    (f := fun i => (do
      let w ← Prog.get
      drvWrite (w.wl.cfg.startAddr + calcAddr w.wl (addr + i * page))
        (src.read (i * page) page) : WlM Unit))
    (I := fun i w₁ => Programmed w w₁ addr (src.read 0 (i * page)))
    (by
      intro i hi w₁ h₁
      have hi' : (i + 1) * page ≤ count * page := Nat.mul_le_mul_right _ hi
      rw [Nat.add_mul, Nat.one_mul] at hi'
      have hin := hp i (by omega)
      rw [Nat.min_eq_left (by omega)] at hin
      obtain ⟨w₂, hrun, h₂⟩ := hstep (i * page) page w₁ h₁ hin (by omega)
      rw [Nat.add_mul, Nat.one_mul]
      exact ⟨w₂, hrun, h₂⟩)
    (by rw [Nat.zero_mul]; exact Programmed.nil w addr)
  have hin := hp count hlow
  rw [Nat.min_eq_right (by omega)] at hin
  obtain ⟨w₂, hrun, h₂⟩ := hstep (count * page) (size - count * page) w₁ h₁ hin (by omega)
  rw [Nat.add_sub_cancel' hlow.le] at h₂
  refine ⟨w₂, ?_, h₂⟩
  unfold write
  rw [Prog.bind_ok (checkInitialized_ok hinit), Prog.get_bind]
  simp only [← hpg, hsub, hrest]
  rw [Prog.bind_ok hloop, Prog.get_bind]
  exact hrun

lemma readPages_inOrder (hL : Laid w N) {addr size : ℕ} (hp : Pieces w addr size) :
    ∀ left i, (i + left) * w.wl.cfg.pageSize ≤ size →
      readPages addr w.wl.cfg.pageSize left i w =
        (.ok (Mem.read (view w) (addr + i * w.wl.cfg.pageSize) (left * w.wl.cfg.pageSize)), w) := by
  have hpos := hL.page_pos
  unfold Pieces at hp
  set page := w.wl.cfg.pageSize with hpg
  intro left
  induction left with
  | zero =>
    intro i _
    rw [Nat.zero_mul]
    rfl
  | succ left ih =>
    intro i hle
    have hsplit : (i + (left + 1)) * page = i * page + left * page + page := by
      rw [Nat.add_mul, Nat.add_mul]
      omega
    have hin := hp i (by omega)
    rw [Nat.min_eq_left (by omega)] at hin
    have hread := drvRead_inOrder hL hin
    have hrest := ih (i + 1) (by rw [show i + 1 + left = i + (left + 1) by omega]; exact hle)
    unfold readPages
    rw [Prog.get_bind, Prog.bind_ok hread, Prog.bind_ok hrest, Prog.pure_apply, Nat.add_mul i,
      Nat.one_mul, ← Nat.add_assoc, ← Mem.read_append, Nat.add_mul left, Nat.one_mul,
      Nat.add_comm page]

lemma read_inOrder (hL : Laid w N) (hinit : w.wl.initialized = true) {addr size : ℕ}
    (hp : Pieces w addr size) (hsize : 0 < size) (hle : addr + size ≤ w.wl.flashSize) :
    read addr size w = (.ok (Mem.read (view w) addr size), w) := by
  have hlt := hL.flashSize_lt
  have hpos := hL.page_pos
  have hfront := readPages_inOrder hL hp
  unfold Pieces at hp
  set page := w.wl.cfg.pageSize with hpg
  obtain ⟨hlow, hhigh⟩ := rest_le hpos hsize
  set count := (size - 1) / page with hcount
  have hsub : u32Sub size 1 / page = count := by
    rw [u32Sub_of_le (by omega) hsize]
  have hrest : u32Sub size (count * page) = size - count * page :=
    u32Sub_of_le (by omega) (by omega)
  have hfront := hfront count 0 (by rw [Nat.zero_add]; omega)
  rw [Nat.zero_mul, Nat.add_zero] at hfront
  have hin := hp count hlow
  rw [Nat.min_eq_right (by omega)] at hin
  have hlast := drvRead_inOrder hL hin
  unfold read
  rw [Prog.bind_ok (checkInitialized_ok hinit), Prog.get_bind]
  simp only [← hpg, hsub, hrest]
  rw [Prog.bind_ok hfront, Prog.get_bind, Prog.bind_ok hlast, Prog.pure_apply, ← Mem.read_append,
    Nat.add_sub_cancel' hlow.le]

lemma write_shows (h : Shows w N m) {addr : ℕ} {src : List Byte}
    (hd : w.wl.cfg.pageSize ∣ addr) (hlen : 0 < src.length)
    (hle : addr + src.length ≤ w.wl.flashSize) :
    ∃ w', write addr (bufferOf src) src.length w = (.ok (), w') ∧ SameSetup w w' ∧
      Shows w' N (m.program addr src) := by
  have hM := h.mounted
  obtain ⟨w', hrun, hw'⟩ := write_programmed hM.laid hM.initialized hM.state.moveCount_lt
    (pieces_of_dvd hM.laid hM.state.moveCount_lt hd) hlen hle (bufferOf src)
  have hread : (bufferOf src).read 0 src.length = src :=
    Mem.read_eq_of_getD rfl fun i _ => by rw [bufferOf, Nat.zero_add]
  rw [hread] at hw'
  refine ⟨w', hrun, hw'.sameSetup, hw'.mounted hM, fun a ha => ?_⟩
  rw [hw'.sameSetup.flashSize] at ha
  rw [hw'.view_eq a ha]
  unfold Mem.program
  rw [h.view_eq a ha]

lemma read_shows (h : Shows w N m) {addr size : ℕ} (hd : w.wl.cfg.pageSize ∣ addr)
    (hsize : 0 < size) (hle : addr + size ≤ w.wl.flashSize) :
    read addr size w = (.ok (m.read addr size), w) := by
  have hM := h.mounted
  have hview : Mem.read (view w) addr size = m.read addr size :=
    Mem.read_congr fun i hi => h.view_eq (addr + i) (by omega)
  rw [read_inOrder hM.laid hM.initialized (pieces_of_dvd hM.laid hM.state.moveCount_lt hd) hsize
    hle, hview]

lemma Shows.counted (h : Shows w N m) (n : ℕ) :
    Shows (w.withState { w.wl.state with accessCount := n }) N m :=
  ⟨h.mounted.counted n, h.view_eq⟩

lemma flush_shows (h : Shows w N m) :
    ∃ w', flush w = (.ok (), w') ∧ SameSetup w w' ∧ Shows w' N m := by
  obtain ⟨w', hrun, hset, h'⟩ := updateWL_shows (h.counted (u32Sub w.wl.state.maxCount 1))
  refine ⟨w', ?_, (SameSetup.withState _ _).trans hset, h'⟩
  unfold flush
  rw [Prog.modify_bind]
  exact hrun

/-! ### Remounting -/

/-- The driver works with the layout that `config c` computes. -/
def LaidBy (c : WlConfig) (w : World) : Prop :=
  ∃ mallocd w₀ w₁, config c mallocd w₀ = (.ok (), w₁) ∧ SameSetup w₁ w

/-- An accepted configuration is accepted by every object and lays the memory out in the same
way. -/
lemma config_again (h : LaidBy c w) {v : World} (hdrv : v.drv = w.drv) (mallocd : ℕ → Byte) :
    ∃ v', config c mallocd v = (.ok (), v') ∧ SameSetup w v' ∧ v'.wl.configured = true ∧
      v'.drv = w.drv ∧ LaidBy c v' := by
  obtain ⟨mallocd₀, w₀, w₁, hconf, hset⟩ := h
  obtain ⟨hsec, hpage, hbuff, hne, hlt, rfl⟩ := config_cases hconf
  have hmax : max c.tempBuffSize c.wrSize ≠ 0 := by
    intro h0
    rw [h0, Nat.mod_zero] at hbuff
    omega
  have hrun : config c mallocd v = (.ok (), { v with wl := { v.wl with
      cfg := { c with crc := c.crcOf, tempBuffSize := max c.tempBuffSize c.wrSize }
      stateSize := stateSizeOf c
      cfgSize := cfgSizeOf c
      addrCfg := u32Sub (u32 (c.startAddr + c.fullMemSize)) (cfgSizeOf c)
      addrState1 := u32Sub (u32Sub (u32 (c.startAddr + c.fullMemSize))
        (u32 (stateSizeOf c * 2))) (cfgSizeOf c)
      addrState2 := u32Sub (u32Sub (u32 (c.startAddr + c.fullMemSize)) (stateSizeOf c))
        (cfgSizeOf c)
      flashSize := flashSizeOf c
      tempBuff := (List.range (max c.tempBuffSize c.wrSize)).map mallocd
      configured := true } }) := by
    unfold config
    rw [Prog.modify_bind]
    simp only
    rw [if_neg (by omega), if_neg (by omega), Prog.modify_bind]
    exact congrFun (if_neg (by push Not; exact ⟨hne, hlt⟩)) _
  refine ⟨_, hrun, ?_, rfl, hdrv, mallocd, v, _, hrun, SameSetup.refl _⟩
  constructor
  · exact hset.configured.symm
  · exact hset.cfg.symm
  · exact hset.addrCfg.symm
  · exact hset.addrState1.symm
  · exact hset.addrState2.symm
  · exact hset.flashSize.symm
  · exact hset.stateSize.symm
  · exact hset.cfgSize.symm
  · exact congrArg FlashDrv.chipSize hdrv
  · exact congrArg FlashDrv.secSize hdrv
  · rw [hset.buff_length]
    simp

lemma LaidBy.configured (h : LaidBy c w) : w.wl.configured = true := by
  obtain ⟨mallocd, w₀, w₁, hconf, hset⟩ := h
  obtain ⟨-, -, -, -, -, rfl⟩ := config_cases hconf
  exact hset.configured

lemma LaidBy.of_sameSetup (h : LaidBy c w) (hset : SameSetup w w') : LaidBy c w' := by
  obtain ⟨mallocd, w₀, w₁, hconf, hset₁⟩ := h
  exact ⟨mallocd, w₀, w₁, hconf, hset₁.trans hset⟩

lemma remount_eq (random : ℕ) (mallocd : ℕ → Byte) (garbage : WlFlash) :
    remount c random mallocd garbage = flush >>= fun _ => construct garbage >>= fun _ =>
      config c mallocd >>= fun _ => init random := by
  rw [remount]

lemma remount_shows (h : Shows w N m) (hc : LaidBy c w) (random : ℕ) (mallocd : ℕ → Byte)
    (garbage : WlFlash) :
    ∃ w', remount c random mallocd garbage w = (.ok (), w') ∧ LaidBy c w' ∧ SameSetup w w' ∧
      Shows w' N m := by
  obtain ⟨w₁, hflush, hset₁, h₁⟩ := flush_shows h
  set v : World := { w₁ with wl :=
    { garbage with configured := false, initialized := false } } with hv
  obtain ⟨v', hconf, hset₂, hcd, hdrv, hc'⟩ := config_again (hc.of_sameSetup hset₁) (v := v) rfl
    mallocd
  have hL := h₁.mounted.laid.of_sameSetup hset₂
  have hs := h₁.mounted.state
  -- the memory has not changed since the driver was last mounted
  have hU : Unmounted v' w₁.wl.state N := by
    refine ⟨hL, hcd, ?_, ?_, ?_⟩
    · rw [hset₂.cfg]
      exact hs
    · rw [hdrv, hset₂.cfg, hset₂.addrState1]
      exact h₁.mounted.area1
    · rw [hdrv, hset₂.cfg, hset₂.addrState2]
      exact h₁.mounted.area2
  obtain ⟨w', hinit, hM, hstate, hmem, hset₃⟩ := init_ok random hU
  have hset : SameSetup w₁ w' := hset₂.trans hset₃
  refine ⟨w', ?_, hc'.of_sameSetup hset₃, hset₁.trans hset, hM, ?_⟩
  · have hnew : construct garbage w₁ = (.ok (), v) := rfl
    rw [remount_eq, Prog.bind_ok hflush, Prog.bind_ok hnew, Prog.bind_ok hconf, hinit]
  · intro a ha
    rw [hset.flashSize] at ha
    rw [← h₁.view_eq a ha]
    have hpos : w'.wl.state.pos = w₁.wl.state.pos := by rw [hstate]; rfl
    have hmove : w'.wl.state.moveCount = w₁.wl.state.moveCount := by rw [hstate]; rfl
    unfold view calcAddr
    rw [hmem, hdrv, hset.cfg, hset.flashSize, hpos, hmove]

/-! ### Runs -/

/-- One operation of a client on a driver and on the plain device. -/
lemma Op.run_shows (h : Shows w N m) (hc : LaidBy c w) (op : Op)
    (hop : op.Valid w.wl.cfg.sectorSize w.wl.cfg.pageSize w.wl.flashSize) :
    ∃ w', op.run c w = (.ok (op.plain w.wl.cfg.sectorSize m).1, w') ∧ LaidBy c w' ∧
      SameSetup w w' ∧ Shows w' N (op.plain w.wl.cfg.sectorSize m).2 := by
  cases op with
  | eraseSector sector =>
    obtain ⟨w', hrun, hset, h'⟩ := eraseSector_shows h sector hop
    exact ⟨w', by rw [Op.run, Prog.bind_ok hrun]; rfl, hc.of_sameSetup hset, hset, h'⟩
  | eraseRange start size =>
    obtain ⟨w', hrun, hset, h'⟩ := eraseRange_shows h hop.1 hop.2.1 hop.2.2
    exact ⟨w', by rw [Op.run, Prog.bind_ok hrun]; rfl, hc.of_sameSetup hset, hset, h'⟩
  | write addr src =>
    obtain ⟨w', hrun, hset, h'⟩ := write_shows h hop.1 hop.2.1 hop.2.2
    exact ⟨w', by rw [Op.run, Prog.bind_ok hrun]; rfl, hc.of_sameSetup hset, hset, h'⟩
  | read addr size =>
    exact ⟨w, by rw [Op.run, read_shows h hop.1 hop.2.1 hop.2.2]; rfl, hc, SameSetup.refl w, h⟩
  | flush =>
    obtain ⟨w', hrun, hset, h'⟩ := flush_shows h
    exact ⟨w', by rw [Op.run, Prog.bind_ok hrun]; rfl, hc.of_sameSetup hset, hset, h'⟩
  | remount random mallocd garbage =>
    obtain ⟨w', hrun, hc', hset, h'⟩ := remount_shows h hc random mallocd garbage
    exact ⟨w', by rw [Op.run, Prog.bind_ok hrun]; rfl, hc', hset, h'⟩

/-- A sequence of operations. -/
lemma runOps_shows (ops : List Op) : ∀ {w : World} {m : Mem}, Shows w N m → LaidBy c w →
    (∀ op ∈ ops, op.Valid w.wl.cfg.sectorSize w.wl.cfg.pageSize w.wl.flashSize) →
    ∃ w', runOps c ops w = (.ok (plainOps w.wl.cfg.sectorSize ops m).1, w') ∧ LaidBy c w' ∧
      SameSetup w w' ∧ Shows w' N (plainOps w.wl.cfg.sectorSize ops m).2 := by
  induction ops with
  | nil =>
    intro w m h hc _
    exact ⟨w, rfl, hc, SameSetup.refl w, h⟩
  | cons op ops ih =>
    intro w m h hc hops
    obtain ⟨w₁, hrun₁, hc₁, hset₁, h₁⟩ := op.run_shows h hc (hops op List.mem_cons_self)
    obtain ⟨w₂, hrun₂, hc₂, hset₂, h₂⟩ := ih h₁ hc₁ fun o ho => by
      rw [hset₁.cfg, hset₁.flashSize]
      exact hops o (List.mem_cons_of_mem _ ho)
    rw [hset₁.cfg] at hrun₂ h₂
    refine ⟨w₂, ?_, hc₂, hset₁.trans hset₂, h₂⟩
    rw [runOps, Prog.bind_ok hrun₁, Prog.bind_ok hrun₂]
    rfl

/-! ### The map of the pages -/

/-- The physical page of a logical page. -/
def physPage (wl : WlFlash) (l : ℕ) : ℕ := calcAddr wl (l * wl.cfg.pageSize) / wl.cfg.pageSize

/-- The number of logical pages. -/
def pageCount (wl : WlFlash) : ℕ := chipSize wl / wl.cfg.pageSize

/-- `calcAddr` maps whole pages, injectively, into the `max_pos` physical pages and past the
dummy page. -/
structure PageMap (wl : WlFlash) : Prop where
  maxPos_eq : wl.state.maxPos = pageCount wl + 1
  pos_lt : wl.state.pos < wl.state.maxPos
  addr_eq : ∀ a < chipSize wl,
    calcAddr wl a = physPage wl (a / wl.cfg.pageSize) * wl.cfg.pageSize + a % wl.cfg.pageSize
  lt_maxPos : ∀ l < pageCount wl, physPage wl l < wl.state.maxPos
  ne_dummy : ∀ l < pageCount wl, physPage wl l ≠ wl.state.pos
  injective : ∀ l < pageCount wl, ∀ k < pageCount wl, physPage wl l = physPage wl k → l = k

/-- Byte `i` of physical page `q`. -/
def World.pageByte (w : World) (q i : ℕ) : Byte :=
  w.drv.mem (w.wl.cfg.startAddr + q * w.wl.cfg.pageSize + i)

/-- The map of the pages and the data pages are as they were. -/
structure SameMap (w w' : World) : Prop where
  page_eq : ∀ l < pageCount w.wl, physPage w'.wl l = physPage w.wl l
  dummy_eq : w'.wl.state.pos = w.wl.state.pos
  byte_eq : ∀ q < w.wl.state.maxPos, ∀ i < w.wl.cfg.pageSize, w'.pageByte q i = w.pageByte q i

/-- The logical page `l` has moved into the dummy page, which has taken its place; no other
page has moved. -/
structure Moved (w w' : World) (l : ℕ) : Prop where
  lt : l < pageCount w.wl
  page_eq : physPage w'.wl l = w.wl.state.pos
  dummy_eq : w'.wl.state.pos = physPage w.wl l
  others : ∀ k < pageCount w.wl, k ≠ l → physPage w'.wl k = physPage w.wl k
  copied : ∀ i < w.wl.cfg.pageSize,
    w'.pageByte w.wl.state.pos i = w.pageByte (physPage w.wl l) i
  byte_eq : ∀ q < w.wl.state.maxPos, q ≠ w.wl.state.pos → ∀ i < w.wl.cfg.pageSize,
    w'.pageByte q i = w.pageByte q i

lemma physPage_eq (hL : Laid w N) (hm : w.wl.state.moveCount < N) (l : ℕ) :
    physPage w.wl l = slot N w.wl.state.moveCount w.wl.state.pos l := by
  have hp := hL.page_pos
  unfold physPage
  rw [calcAddr_eq hL hm, Nat.mul_div_cancel _ hp, Nat.mul_mod_left, Nat.add_zero,
    Nat.mul_div_cancel _ hp]

lemma pageCount_eq (hL : Laid w N) (hc : w.wl.configured = true) : pageCount w.wl = N := by
  unfold pageCount chipSize
  rw [if_pos hc, hL.flashSize_eq, Nat.mul_div_cancel _ hL.page_pos]

lemma Mounted.pageMap (hM : Mounted w N) (hc : w.wl.configured = true) : PageMap w.wl := by
  have hL := hM.laid
  have hm := hM.state.moveCount_lt
  have hmax := hM.state.maxPos_eq
  have hcount := pageCount_eq hL hc
  constructor
  · rw [hmax, hcount]
  · rw [hmax]
    exact Nat.lt_succ_of_le hM.state.pos_le
  · intro a _
    rw [calcAddr_eq hL hm, physPage_eq hL hm]
  · intro l _
    rw [physPage_eq hL hm, hmax]
    exact Nat.lt_succ_of_le (slot_le hL.pages_pos)
  · intro l _
    rw [physPage_eq hL hm]
    exact slot_ne_hole
  · intro l hl k hk h
    rw [hcount] at hl hk
    rw [physPage_eq hL hm, physPage_eq hL hm] at h
    exact slot_injective hm hl hk h

/-- A data step keeps the map or moves one page. -/
lemma DataStep.sameMap_or_moved (hM : Mounted w N) (hc : w.wl.configured = true)
    (hM' : Mounted w' N) (hset : SameSetup w w') (hstep : DataStep w w' N) :
    SameMap w w' ∨ ∃ l, Moved w w' l := by
  have hL := hM.laid
  have hm := hM.state.moveCount_lt
  have hp := hM.state.pos_le
  have hmax := hM.state.maxPos_eq
  have hcount := pageCount_eq hL hc
  have hphys := physPage_eq hL hm
  have hphys' := physPage_eq hM'.laid hM'.state.moveCount_lt
  cases hstep with
  | count hpos hmove hmem =>
    refine .inl ⟨?_, hpos, ?_⟩
    · intro l _
      rw [hphys, hphys', hpos, hmove]
    · intro q _ i _
      unfold World.pageByte
      rw [hmem, hset.cfg]
  | move hpos hmove hmem =>
    -- the page that lies after the dummy
    obtain ⟨l, hl, hslot⟩ := slot_surjective hm hp (nextSlot_le hp) (nextSlot_ne hL.pages_pos)
    have hbytes : ∀ q ≤ N, ∀ i < w.wl.cfg.pageSize, w'.pageByte q i =
        if q = w.wl.state.pos then w.pageByte (nextSlot N w.wl.state.pos) i else w.pageByte q i := by
      intro q hq i hi
      have hend := slot_bytes_le w.wl.cfg.pageSize hq
      unfold World.pageByte
      rw [hset.cfg, hmem _ (by omega) (by omega)]
      unfold copied
      by_cases h : q = w.wl.state.pos
      · subst h
        rw [if_pos (by omega), if_pos rfl]
        congr 1
        omega
      · rw [if_neg h, if_neg]
        rcases slot_disjoint w.wl.cfg.pageSize h with h | h <;> omega
    refine .inr ⟨l, by rw [hcount]; exact hl, ?_, ?_, ?_, ?_, ?_⟩
    · rw [hphys', hpos, hmove, slot_next hm hp hl, if_pos hslot]
    · rw [hphys, hpos, hslot]
    · intro k hk hne
      rw [hcount] at hk
      rw [hphys, hphys', hpos, hmove, slot_next hm hp hk, if_neg]
      intro h
      exact hne (slot_injective hm hk hl (h.trans hslot.symm))
    · intro i hi
      rw [hbytes _ hp i hi, if_pos rfl, hphys, hslot]
    · intro q hq hne i hi
      rw [hbytes q (by omega) i hi, if_neg hne]

/-! ### The refinement -/

/-- A driver that shows the contents of the plain device, whose pages are mapped one to one,
and whose next `updateWL` counts or moves the one page whose mapping changes. -/
structure Refines (w : World) (m : Mem) : Prop where
  view_eq : ∀ a < chipSize w.wl, view w a = m a
  pageMap : PageMap w.wl
  update : ∃ w', updateWL w = (.ok (), w') ∧ (SameMap w w' ∨ ∃ l, Moved w w' l)

lemma Shows.refines (h : Shows w N m) (hc : LaidBy c w) : Refines w m where
  view_eq := by
    intro a ha
    rw [chipSize, if_pos hc.configured] at ha
    exact h.view_eq a ha
  pageMap := h.mounted.pageMap hc.configured
  update := by
    obtain ⟨w', hrun, hM', hset, hstep⟩ := updateWL_ok h.mounted
    exact ⟨w', hrun, hstep.sameMap_or_moved h.mounted hc.configured hM' hset⟩

/-- Under a good configuration, mounting a new memory succeeds, and from then on every
sequence of operations and remounts returns what the plain device returns and leaves the
driver refining it. -/
theorem wl_refines_plain_flash {w w₀ : World} {c : WlConfig} {mallocd : ℕ → Byte}
    (hgood : GoodConfig c w.drv) (hconf : config c mallocd w = (.ok (), w₀))
    (hnew : Unformatted w₀) (random : ℕ) :
    ∃ w₁, init random w₀ = (.ok (), w₁) ∧
      ∀ ops : List Op, (∀ op ∈ ops, op.Valid c.sectorSize c.pageSize (chipSize w₁.wl)) →
        ∃ w₂, runOps c ops w₁ = (.ok (plainOps c.sectorSize ops (view w₁)).1, w₂) ∧
          chipSize w₂.wl = chipSize w₁.wl ∧
          Refines w₂ (plainOps c.sectorSize ops (view w₁)).2 := by
  have hL := config_laid hgood hconf
  have hlaid₀ : LaidBy c w₀ := ⟨mallocd, w, w₀, hconf, SameSetup.refl w₀⟩
  obtain ⟨-, -, -, -, -, hw₀⟩ := config_cases hconf
  have hsec : w₀.wl.cfg.sectorSize = c.sectorSize := by rw [hw₀]
  have hpage : w₀.wl.cfg.pageSize = c.pageSize := by rw [hw₀]
  obtain ⟨w₁, hinit, hM, hset⟩ := init_format_ok random hL hlaid₀.configured
    (by rw [hw₀]; exact hgood.updaterate_lt) (by rw [hw₀]; exact hgood.version_lt) hnew
  have hlaid₁ := hlaid₀.of_sameSetup hset
  refine ⟨w₁, hinit, fun ops hops => ?_⟩
  rw [chipSize, if_pos hlaid₁.configured] at hops
  obtain ⟨w₂, hrun, hlaid₂, hset₂, h₂⟩ := runOps_shows ops (m := view w₁) ⟨hM, fun _ _ => rfl⟩
    hlaid₁ (by rwa [hset.cfg, hsec, hpage])
  rw [hset.cfg, hsec] at hrun h₂
  refine ⟨w₂, hrun, ?_, h₂.refines hlaid₂⟩
  rw [chipSize, chipSize, hset₂.configured, hset₂.flashSize]

/-- An object before it is configured, with every field cleared. -/
def unconfigured : WlFlash where
  configured := false
  initialized := false
  state := ⟨0, 0, 0, 0, 0, 0, 0, 0, List.replicate 7 0, 0⟩
  cfg := ⟨0, 0, 0, 0, 0, 0, 0, 0, 0⟩
  addrCfg := 0
  addrState1 := 0
  addrState2 := 0
  flashSize := 0
  stateSize := 0
  cfgSize := 0
  tempBuff := []
  dummyAddr := 0

/-- An erased memory of sixteen sectors of 64 bytes. -/
def erasedWorld : World := ⟨unconfigured, ⟨fun _ => 0xff#8, 1024, 64, false⟩⟩

/-- A configuration for the whole of it, with records of `wrSize` bytes. -/
def configWith (wrSize : ℕ) : WlConfig := ⟨0, 1024, 64, 64, 4, wrSize, 2, 64, 0⟩

/-- The object after `config`. -/
def configuredWith (wrSize : ℕ) : World := (config (configWith wrSize) (fun _ => 0#8) erasedWorld).2

/-- The object after `config` and `init`. -/
def mountedWith (wrSize : ℕ) : World := (init 7 (configuredWith wrSize)).2

/-- Move a page, rewrite it, mount the memory again and read the page. -/
def rewriteAndRemount : List Op :=
  [.flush, .eraseSector 0, .write 0 [0x00#8], .remount 7 (fun _ => 0x00#8) unconfigured, .read 0 1]

/-- The driver with records of sixteen bytes refines the plain device over these operations. -/
theorem wl_refines_plain_flash_sixteen :
    GoodConfig (configWith 16) erasedWorld.drv ∧
      ∃ w₁, init 7 (configuredWith 16) = (.ok (), w₁) ∧
        ∀ ops : List Op, (∀ op ∈ ops, op.Valid 64 64 (chipSize w₁.wl)) →
          ∃ w₂, runOps (configWith 16) ops w₁ = (.ok (plainOps 64 ops (view w₁)).1, w₂) ∧
            chipSize w₂.wl = chipSize w₁.wl ∧ Refines w₂ (plainOps 64 ops (view w₁)).2 := by
  have hgood : GoodConfig (configWith 16) erasedWorld.drv := by
    constructor <;> decide +kernel
  have hconf : config (configWith 16) (fun _ => 0#8) erasedWorld = (.ok (), configuredWith 16) :=
    Prod.ext (by decide +kernel) (by rw [configuredWith])
  exact ⟨hgood, wl_refines_plain_flash hgood hconf (by decide +kernel) 7⟩

/-- A record of eight bytes is accepted, written and never recognised: the position is lost at
the remount, and the read returns the byte of another page. -/
theorem wl_refines_plain_flash_narrow_records :
    (config (configWith 8) (fun _ => 0#8) erasedWorld).1 = .ok () ∧
      (init 7 (configuredWith 8)).1 = .ok () ∧
      (∀ op ∈ rewriteAndRemount, op.Valid 64 64 (chipSize (mountedWith 8).wl)) ∧
      (runOps (configWith 8) rewriteAndRemount (mountedWith 8)).1 =
        .ok [[], [], [], [], [0xff#8]] ∧
      (plainOps 64 rewriteAndRemount (view (mountedWith 8))).1 = [[], [], [], [], [0x00#8]] := by
  refine ⟨?_, ?_, ?_, ?_, ?_⟩ <;> decide +kernel

end EspIdf.WearLevelling
