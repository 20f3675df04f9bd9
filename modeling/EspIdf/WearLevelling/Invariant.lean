/-
# The invariant of a mounted driver

`Laid` describes the memory: the data pages, the two state areas and the configuration lie
behind one another inside the driver's memory, aligned to sectors.  `Mounted` adds what the
running object keeps true: the position and the round are in range, and each state area
holds the state as it was at the last wrap, followed by one record for each position the
dummy has left, followed by erased records.
-/
import EspIdf.WearLevelling.Flash
import EspIdf.WearLevelling.Mapping

namespace EspIdf.WearLevelling

open EspIdf.Lib

/-- Replace the buffer and the memory. -/
def World.upd (w : World) (buff : List Byte) (mem : Mem) : World :=
  { wl := { w.wl with tempBuff := buff }, drv := { w.drv with mem := mem } }

/-- Replace the state that the object holds. -/
def World.withState (w : World) (s : WlState) : World :=
  { w with wl := { w.wl with state := s } }

/-- The parts of the memory do not overlap and the accesses to them are aligned. -/
structure Laid (w : World) (N : ℕ) : Prop where
  pages_pos : 0 < N
  flashSize_eq : w.wl.flashSize = N * w.wl.cfg.pageSize
  flashSize_lt : w.wl.flashSize < 2 ^ 31
  sector_pos : 0 < w.wl.cfg.sectorSize
  secSize_eq : w.drv.secSize = w.wl.cfg.sectorSize
  page_pos : 0 < w.wl.cfg.pageSize
  page_dvd : w.wl.cfg.sectorSize ∣ w.wl.cfg.pageSize
  start_dvd : w.wl.cfg.sectorSize ∣ w.wl.cfg.startAddr
  state_dvd : w.wl.cfg.sectorSize ∣ w.wl.stateSize
  cfg_dvd : w.wl.cfg.sectorSize ∣ w.wl.cfgSize
  addr1_dvd : w.wl.cfg.sectorSize ∣ w.wl.addrState1
  addr2_dvd : w.wl.cfg.sectorSize ∣ w.wl.addrState2
  addrCfg_dvd : w.wl.cfg.sectorSize ∣ w.wl.addrCfg
  data_le : w.wl.cfg.startAddr + (N + 1) * w.wl.cfg.pageSize ≤ w.wl.addrState1
  state1_le : w.wl.addrState1 + w.wl.stateSize ≤ w.wl.addrState2
  state2_le : w.wl.addrState2 + w.wl.stateSize ≤ w.wl.addrCfg
  cfg_le : w.wl.addrCfg + w.wl.cfgSize ≤ w.drv.chipSize
  records_le : stateBytes + (N + 1) * w.wl.cfg.wrSize ≤ w.wl.stateSize
  config_le : configBytes ≤ w.wl.cfgSize
  wrSize_ge : 16 ≤ w.wl.cfg.wrSize
  wrSize_le : w.wl.cfg.wrSize ≤ w.wl.cfg.tempBuffSize
  buff_dvd : w.wl.cfg.tempBuffSize ∣ w.wl.cfg.sectorSize
  buff_length : w.wl.tempBuff.length = w.wl.cfg.tempBuffSize

/-- Two worlds with the same layout: only the memory's contents, the state, the buffer's bytes
and whether the object is initialised may differ. -/
structure SameSetup (w w' : World) : Prop where
  configured : w'.wl.configured = w.wl.configured
  cfg : w'.wl.cfg = w.wl.cfg
  addrCfg : w'.wl.addrCfg = w.wl.addrCfg
  addrState1 : w'.wl.addrState1 = w.wl.addrState1
  addrState2 : w'.wl.addrState2 = w.wl.addrState2
  flashSize : w'.wl.flashSize = w.wl.flashSize
  stateSize : w'.wl.stateSize = w.wl.stateSize
  cfgSize : w'.wl.cfgSize = w.wl.cfgSize
  chipSize : w'.drv.chipSize = w.drv.chipSize
  secSize : w'.drv.secSize = w.drv.secSize
  buff_length : w'.wl.tempBuff.length = w.wl.tempBuff.length

lemma SameSetup.refl (w : World) : SameSetup w w := by constructor <;> rfl

lemma SameSetup.trans {w w' w'' : World} (h : SameSetup w w') (h' : SameSetup w' w'') :
    SameSetup w w'' where
  configured := h'.configured.trans h.configured
  cfg := h'.cfg.trans h.cfg
  addrCfg := h'.addrCfg.trans h.addrCfg
  addrState1 := h'.addrState1.trans h.addrState1
  addrState2 := h'.addrState2.trans h.addrState2
  flashSize := h'.flashSize.trans h.flashSize
  stateSize := h'.stateSize.trans h.stateSize
  cfgSize := h'.cfgSize.trans h.cfgSize
  chipSize := h'.chipSize.trans h.chipSize
  secSize := h'.secSize.trans h.secSize
  buff_length := h'.buff_length.trans h.buff_length

lemma SameSetup.upd {w : World} {b : List Byte} {m : Mem}
    (hb : b.length = w.wl.tempBuff.length) : SameSetup w (w.upd b m) := by
  constructor <;> first | rfl | exact hb

lemma SameSetup.withState (w : World) (s : WlState) : SameSetup w (w.withState s) := by
  constructor <;> rfl

lemma Laid.of_sameSetup {w w' : World} {N : ℕ} (hL : Laid w N) (h : SameSetup w w') :
    Laid w' N := by
  constructor
  all_goals try simp only [h.cfg, h.addrCfg, h.addrState1, h.addrState2, h.flashSize, h.stateSize,
    h.cfgSize, h.chipSize, h.secSize, h.buff_length]
  exacts [hL.pages_pos, hL.flashSize_eq, hL.flashSize_lt, hL.sector_pos, hL.secSize_eq,
    hL.page_pos, hL.page_dvd, hL.start_dvd, hL.state_dvd, hL.cfg_dvd, hL.addr1_dvd, hL.addr2_dvd,
    hL.addrCfg_dvd, hL.data_le, hL.state1_le, hL.state2_le, hL.cfg_le, hL.records_le,
    hL.config_le, hL.wrSize_ge, hL.wrSize_le, hL.buff_dvd, hL.buff_length]

/-- The state as a wrap stores it: at position `0`, with nothing counted. -/
def WlState.stored (s : WlState) : WlState :=
  let s₀ := { s with pos := 0, accessCount := 0 }
  { s₀ with crc := s₀.crcV2 }

/-- The state area at `addr`: the stored state, the records of the positions that the dummy
has left, and erased records. -/
structure Area (m : Mem) (s : WlState) (wrSize N addr : ℕ) : Prop where
  state_eq : m.read addr stateBytes = s.stored.encode
  record_eq : ∀ i < s.pos, m.read (recordAddr addr wrSize i) 16 = okBytes s.deviceId i
  erased : ∀ x, recordAddr addr wrSize s.pos ≤ x → x < recordAddr addr wrSize (N + 1) →
    m x = 0xff#8

/-- The state that the object holds is one of this configuration. -/
structure StateOk (s : WlState) (version N : ℕ) : Prop where
  maxPos_eq : s.maxPos = N + 1
  pos_le : s.pos ≤ N
  moveCount_lt : s.moveCount < N
  maxCount_lt : s.maxCount < 2 ^ 32
  blockSize_lt : s.blockSize < 2 ^ 32
  version_eq : s.version = version
  version_lt : s.version < 2 ^ 32
  deviceId_lt : s.deviceId < 2 ^ 32
  reserved_eq : s.reserved = List.replicate 7 0

/-- A mounted driver between two operations. -/
structure Mounted (w : World) (N : ℕ) : Prop where
  laid : Laid w N
  initialized : w.wl.initialized = true
  state : StateOk w.wl.state w.wl.cfg.version N
  area1 : Area w.drv.mem w.wl.state w.wl.cfg.wrSize N w.wl.addrState1
  area2 : Area w.drv.mem w.wl.state w.wl.cfg.wrSize N w.wl.addrState2

/-! ### The state areas -/

@[simp] lemma length_encode {s : WlState} (h : s.reserved.length = 7) :
    s.encode.length = stateBytes := by
  simp [WlState.encode, WlState.crcWords, List.length_flatMap, List.map_const', h, stateBytes]

lemma recordAddr_succ (addr wrSize i : ℕ) :
    recordAddr addr wrSize (i + 1) = recordAddr addr wrSize i + wrSize := by
  unfold recordAddr
  rw [Nat.add_mul]
  omega

lemma recordAddr_mono (addr wrSize : ℕ) {i j : ℕ} (h : i ≤ j) :
    recordAddr addr wrSize i ≤ recordAddr addr wrSize j :=
  Nat.add_le_add_left (Nat.mul_le_mul_right _ h) _

lemma recordAddr_add_le (addr wrSize : ℕ) {i j : ℕ} (h : i < j) :
    recordAddr addr wrSize i + wrSize ≤ recordAddr addr wrSize j := by
  rw [← recordAddr_succ]
  exact recordAddr_mono addr wrSize h

lemma le_recordAddr (addr wrSize i : ℕ) : addr + stateBytes ≤ recordAddr addr wrSize i :=
  Nat.le_add_right _ _

/-- The position records behind the state at `addr`: those below `pos` are written, and the
rest is erased. -/
structure Records (m : Mem) (deviceId pos wrSize N addr : ℕ) : Prop where
  record_eq : ∀ i < pos, m.read (recordAddr addr wrSize i) 16 = okBytes deviceId i
  erased : ∀ x, recordAddr addr wrSize pos ≤ x → x < recordAddr addr wrSize (N + 1) →
    m x = 0xff#8

namespace Records

variable {m m' : Mem} {d pos wrSize N addr : ℕ}

/-- The records only depend on their own bytes. -/
lemma congr (h : Records m d pos wrSize N addr) (hwr : 16 ≤ wrSize) (hpN : pos ≤ N + 1)
    (hm : ∀ x, addr ≤ x → x < recordAddr addr wrSize (N + 1) → m' x = m x) :
    Records m' d pos wrSize N addr where
  record_eq := by
    intro i hi
    rw [← h.record_eq i hi]
    apply Mem.read_congr
    intro j hj
    have h1 := le_recordAddr addr wrSize i
    have h2 := recordAddr_add_le addr wrSize (show i < N + 1 by omega)
    exact hm _ (by omega) (by omega)
  erased := by
    intro x h1 h2
    have h3 := le_recordAddr addr wrSize pos
    rw [hm x (by omega) h2]
    exact h.erased x h1 h2

/-- Writing the record of the position. -/
lemma record (h : Records m d pos wrSize N addr) (hwr : 16 ≤ wrSize) (hpN : pos ≤ N)
    {r : List Byte} (hlen : r.length = wrSize) (hr : r.take 16 = okBytes d pos) :
    Records (m.program (recordAddr addr wrSize pos) r) d (pos + 1) wrSize N addr where
  record_eq := by
    intro i hi
    rcases Nat.lt_succ_iff_lt_or_eq.mp hi with hlt | rfl
    · rw [← h.record_eq i hlt]
      apply Mem.read_congr
      intro j hj
      have := recordAddr_add_le addr wrSize hlt
      exact Mem.program_of_not_mem (by omega)
    · have h1 := recordAddr_add_le addr wrSize (show i < N + 1 by omega)
      have h16 : 16 ≤ r.length := by omega
      refine Mem.read_eq_of_getD (by rw [← hr]; simp [h16]) fun j hj => ?_
      rw [Mem.program_of_erased (by omega) (h.erased _ (by omega) (by omega)), ← hr]
      simp [List.getD, hj]
  erased := by
    intro x h1 h2
    rw [recordAddr_succ] at h1
    rw [Mem.program_of_not_mem (by omega)]
    exact h.erased x (by omega) h2

end Records

namespace Area

variable {m m' : Mem} {s s' : WlState} {wrSize N addr : ℕ}

lemma records (h : Area m s wrSize N addr) : Records m s.deviceId s.pos wrSize N addr :=
  ⟨h.record_eq, h.erased⟩

lemma of_records (hs : m.read addr stateBytes = s.stored.encode)
    (h : Records m s.deviceId s.pos wrSize N addr) : Area m s wrSize N addr :=
  ⟨hs, h.record_eq, h.erased⟩

/-- An area only depends on its own bytes and on the parts of the state that it stores. -/
lemma congr (h : Area m s wrSize N addr) (hwr : 16 ≤ wrSize) (hpN : s.pos ≤ N + 1)
    (hm : ∀ x, addr ≤ x → x < recordAddr addr wrSize (N + 1) → m' x = m x)
    (hs : s'.stored = s.stored) (hp : s'.pos = s.pos) (hd : s'.deviceId = s.deviceId) :
    Area m' s' wrSize N addr := by
  apply of_records
  · rw [hs, ← h.state_eq]
    apply Mem.read_congr
    intro i hi
    have := le_recordAddr addr wrSize (N + 1)
    exact hm _ (by omega) (by omega)
  · rw [hp, hd]
    exact h.records.congr hwr hpN hm

/-- Writing the record of the position accounts for one more move. -/
lemma record (h : Area m s wrSize N addr) (hwr : 16 ≤ wrSize) (hpN : s.pos ≤ N) {r : List Byte}
    (hlen : r.length = wrSize) (hr : r.take 16 = okBytes s.deviceId s.pos)
    (hs : s'.stored = s.stored) (hp : s'.pos = s.pos + 1) (hd : s'.deviceId = s.deviceId) :
    Area (m.program (recordAddr addr wrSize s.pos) r) s' wrSize N addr := by
  apply of_records
  · rw [hs, ← h.state_eq]
    apply Mem.read_congr
    intro i hi
    have := le_recordAddr addr wrSize s.pos
    exact Mem.program_of_not_mem (by omega)
  · rw [hp, hd]
    exact h.records.record hwr hpN hlen hr

/-- A freshly written area. -/
lemma fresh (hlen : s.reserved.length = 7) (hs : s.stored = s) (hp : s.pos = 0) {size : ℕ}
    (hsize : recordAddr addr wrSize (N + 1) ≤ addr + size) :
    Area ((m.erase addr size).program addr s.encode) s wrSize N addr where
  state_eq := by
    rw [hs]
    have hle := le_recordAddr addr wrSize (N + 1)
    refine Mem.read_eq_of_getD (length_encode hlen) fun i hi => ?_
    rw [Mem.program_of_erased (by rw [length_encode hlen]; omega)
      (Mem.erase_of_mem (by omega)), Nat.add_sub_cancel_left]
  record_eq := by
    intro i hi
    omega
  erased := by
    intro x h1 h2
    have hle := le_recordAddr addr wrSize s.pos
    rw [Mem.program_of_not_mem (by rw [length_encode hlen]; omega)]
    exact Mem.erase_of_mem (by omega)

end Area

/-- Counting accesses leaves the driver mounted. -/
lemma Mounted.counted {w : World} {N : ℕ} (hM : Mounted w N) (n : ℕ) :
    Mounted (w.withState { w.wl.state with accessCount := n }) N := by
  obtain ⟨hL, hinit, hs, ha1, ha2⟩ := hM
  refine ⟨hL.of_sameSetup (SameSetup.withState _ _), hinit, ?_, ?_, ?_⟩
  · exact ⟨hs.maxPos_eq, hs.pos_le, hs.moveCount_lt, hs.maxCount_lt, hs.blockSize_lt,
      hs.version_eq, hs.version_lt, hs.deviceId_lt, hs.reserved_eq⟩
  · exact ha1.congr hL.wrSize_ge (Nat.le_succ_of_le hs.pos_le) (fun _ _ _ => rfl) rfl rfl rfl
  · exact ha2.congr hL.wrSize_ge (Nat.le_succ_of_le hs.pos_le) (fun _ _ _ => rfl) rfl rfl rfl

/-- The logical contents. -/
def view (w : World) (a : ℕ) : Byte := w.drv.mem (w.wl.cfg.startAddr + calcAddr w.wl a)

end EspIdf.WearLevelling
