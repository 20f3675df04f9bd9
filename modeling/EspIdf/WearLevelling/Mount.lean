/-
# Configuring and mounting

`config` lays the memory out; `init` formats a new memory, and finds the position of a
memory that has been in use by looking for the first missing record.  The record of a
position is never mistaken for an erased one: four consecutive numbers cannot all have the
checksum `0xffffffff`.
-/
import EspIdf.WearLevelling.Access

namespace EspIdf.WearLevelling

open EspIdf.Lib

variable {w : World} {N : ℕ}

/-! ### Reading records back -/

lemma okWord_lt (deviceId n i : ℕ) : okWord deviceId n i < 2 ^ 32 :=
  (crc32Le 0xffffffff#32 _).isLt

lemma wordAt_of_take {bs cs : List Byte} (h : bs.take 16 = cs.take 16) {i : ℕ} (hi : i < 4) :
    wordAt bs i = wordAt cs i := by
  have key : ∀ l : List Byte, ((l.drop (4 * i)).take 4) = ((l.take 16).drop (4 * i)).take 4 := by
    intro l
    rw [List.drop_take, List.take_take, Nat.min_eq_left (by omega)]
  unfold wordAt
  rw [key bs, key cs, h]

lemma wordAt_okBytes (deviceId n : ℕ) {i : ℕ} (hi : i < 4) :
    wordAt (okBytes deviceId n) i = okWord deviceId n i := by
  have hcases : i = 0 ∨ i = 1 ∨ i = 2 ∨ i = 3 := by omega
  rcases hcases with rfl | rfl | rfl | rfl
  all_goals
    exact leVal_le32 (okWord_lt deviceId n _)

/-- The words of a record are not all erased. -/
lemma exists_okWord_ne (deviceId n : ℕ) : ∃ i < 4, okWord deviceId n i ≠ 0xffffffff := by
  -- one of two neighbouring numbers is even, and its successor has another checksum
  have key : ∀ i, u32 (deviceId + n * 4 + i) % 2 = 0 →
      okWord deviceId n i ≠ okWord deviceId n (i + 1) := by
    intro i heven heq
    have hsucc : u32 (deviceId + n * 4 + (i + 1)) = u32 (deviceId + n * 4 + i) + 1 := by
      unfold u32 at heven ⊢
      omega
    unfold okWord wlCrc at heq
    rw [hsucc] at heq
    exact crc32Le_le32_ne heven _ (BitVec.eq_of_toNat_eq heq)
  by_contra hall
  push Not at hall
  rcases Nat.mod_two_eq_zero_or_one (u32 (deviceId + n * 4 + 0)) with h | h
  · exact key 0 h ((hall 0 (by decide)).trans (hall 1 (by decide)).symm)
  · refine key 1 ?_ ((hall 1 (by decide)).trans (hall 2 (by decide)).symm)
    unfold u32 at h ⊢
    omega

variable {d pos : ℕ}

/-- The test of a record that has just been read. -/
lemma okBuffSet_read {addr i : ℕ} (hs : w.wl.state.deviceId = d) (hwr : 16 ≤ w.wl.cfg.wrSize)
    (hi : i ≤ pos) (hN : i ≤ N) (hR : Records w.drv.mem d pos w.wl.cfg.wrSize N addr)
    (b : List Byte) :
    okBuffSet i (w.upd (overlay b (w.drv.mem.read (recordAddr addr w.wl.cfg.wrSize i)
      w.wl.cfg.wrSize)) w.drv.mem) =
    (.ok (decide (i < pos)), w.upd (overlay b (w.drv.mem.read (recordAddr addr w.wl.cfg.wrSize i)
      w.wl.cfg.wrSize)) w.drv.mem) := by
  set bs := w.drv.mem.read (recordAddr addr w.wl.cfg.wrSize i) w.wl.cfg.wrSize with hbs
  have htake : (overlay b bs).take 16 = w.drv.mem.read (recordAddr addr w.wl.cfg.wrSize i) 16 := by
    rw [← Mem.take_read hwr]
    unfold overlay
    rw [List.take_append_of_le_length (by rw [hbs, Mem.length_read]; exact hwr)]
  unfold okBuffSet
  rw [Prog.get_bind, Prog.pure_apply, upd_tempBuff, upd_state, hs]
  congr 2
  rcases Nat.lt_or_eq_of_le hi with hlt | rfl
  · rw [hR.record_eq i hlt] at htake
    rw [decide_eq_true hlt, List.all_eq_true]
    intro k hk
    rw [beq_iff_eq, wordAt_of_take (htake.trans (List.take_of_length_le (by rfl)).symm)
      (List.mem_range.mp hk), wordAt_okBytes _ _ (List.mem_range.mp hk)]
  · obtain ⟨k, hk, hne⟩ := exists_okWord_ne d i
    rw [decide_eq_false (lt_irrefl _), List.all_eq_false]
    refine ⟨k, List.mem_range.mpr hk, ?_⟩
    rw [beq_iff_eq]
    have hff : w.drv.mem.read (recordAddr addr w.wl.cfg.wrSize i) 16 =
        List.replicate 16 0xff#8 := by
      refine Mem.read_eq_of_getD (by simp) fun j hj => ?_
      have := recordAddr_add_le addr w.wl.cfg.wrSize (show i < N + 1 by omega)
      rw [hR.erased _ (by omega) (by omega), List.getD, List.getElem?_replicate, if_pos hj]
      rfl
    rw [wordAt_of_take (htake.trans (hff.trans (List.take_of_length_le (by simp)).symm)) hk]
    intro heq
    apply hne
    rw [heq]
    have hcases : k = 0 ∨ k = 1 ∨ k = 2 ∨ k = 3 := by omega
    rcases hcases with rfl | rfl | rfl | rfl <;> rfl

/-- The scan of the first area stops at the first missing record, or at the last record. -/
lemma recoverScan_records (hL : Laid w N) (hs : w.wl.state.deviceId = d) (hpos : pos ≤ N + 1)
    (hR : Records w.drv.mem d pos w.wl.cfg.wrSize N w.wl.addrState1) :
    ∀ (left i position : ℕ) (b : List Byte), b.length = w.wl.tempBuff.length → i ≤ pos →
      left + i = N + 1 → position = i - 1 → ∃ b', b'.length = w.wl.tempBuff.length ∧
        recoverScan left i position (w.upd b w.drv.mem) =
          (.ok (min pos N), w.upd b' w.drv.mem) := by
  intro left
  induction left with
  | zero =>
    intro i position b hb hi hleft hposition
    have hmin : position = min pos N := by omega
    exact ⟨b, hb, by rw [recoverScan, Prog.pure_apply, hmin]⟩
  | succ left ih =>
    intro i position b hb hi hleft hposition
    have h1 := hL.state1_le
    have h2 := hL.state2_le
    have h3 := hL.cfg_le
    have hrec := hL.records_le
    have hadd := recordAddr_add_le w.wl.addrState1 w.wl.cfg.wrSize (show i < N + 1 by omega)
    have hend : recordAddr w.wl.addrState1 w.wl.cfg.wrSize (N + 1) ≤
        w.wl.addrState1 + w.wl.stateSize := by unfold recordAddr; omega
    have hread := readBuff_ok (w := w.upd b w.drv.mem)
      (a := recordAddr w.wl.addrState1 w.wl.cfg.wrSize i) (n := w.wl.cfg.wrSize)
      (by rw [upd_chipSize]; omega)
    rw [upd_tempBuff, upd_mem, upd_upd] at hread
    have hset := okBuffSet_read hs hL.wrSize_ge hi (by omega) hR b
    set bs := overlay b (w.drv.mem.read (recordAddr w.wl.addrState1 w.wl.cfg.wrSize i)
      w.wl.cfg.wrSize) with hbs
    have hlen : bs.length = w.wl.tempBuff.length := by
      rw [hbs, length_overlay, hb]
      rw [Mem.length_read, hb, hL.buff_length]
      exact hL.wrSize_le
    unfold recoverScan
    rw [Prog.get_bind]
    change ∃ b', _ ∧ (readBuff (recordAddr w.wl.addrState1 w.wl.cfg.wrSize i) w.wl.cfg.wrSize >>=
      fun _ => okBuffSet i >>= fun r => if r = true then recoverScan left (i + 1) i else pure i)
      (w.upd b w.drv.mem) = _
    rw [Prog.bind_ok hread, Prog.bind_ok hset]
    rcases Nat.lt_or_eq_of_le hi with hlt | heq
    · rw [if_pos (decide_eq_true hlt)]
      exact ih (i + 1) i bs hlen hlt (by omega) rfl
    · rw [if_neg (by simp [heq])]
      have hmin : i = min pos N := by omega
      exact ⟨bs, hlen, by rw [Prog.pure_apply, ← hmin]⟩

/-- `recoverPos` counts the records, and takes the last position when all are written. -/
lemma recoverPos_records (hL : Laid w N) (hmax : w.wl.state.maxPos = N + 1)
    (hs : w.wl.state.deviceId = d) (hpos : pos ≤ N + 1)
    (hR : Records w.drv.mem d pos w.wl.cfg.wrSize N w.wl.addrState1) :
    ∃ b, b.length = w.wl.tempBuff.length ∧ recoverPos w =
      (.ok (), (w.withState { w.wl.state with pos := min pos N }).upd b w.drv.mem) := by
  obtain ⟨b, hb, hscan⟩ := recoverScan_records hL hs hpos hR (N + 1) 0 0 w.wl.tempBuff rfl
    (Nat.zero_le _) rfl rfl
  refine ⟨b, hb, ?_⟩
  have hscan' : recoverScan w.wl.state.maxPos 0 0 w = (.ok (min pos N), w.upd b w.drv.mem) := by
    rw [hmax]
    exact hscan
  unfold recoverPos
  rw [Prog.get_bind, Prog.bind_ok hscan', if_neg (by omega)]
  rfl

/-- `recoverPos` finds the position. -/
lemma recoverPos_ok {s : WlState} (hL : Laid w N) (hmax : w.wl.state.maxPos = N + 1)
    (hs : w.wl.state.deviceId = s.deviceId) (hN : s.pos ≤ N)
    (hA : Area w.drv.mem s w.wl.cfg.wrSize N w.wl.addrState1) :
    ∃ b, b.length = w.wl.tempBuff.length ∧ recoverPos w =
      (.ok (), (w.withState { w.wl.state with pos := s.pos }).upd b w.drv.mem) := by
  have h := recoverPos_records hL hmax hs (Nat.le_succ_of_le hN) hA.records
  rwa [Nat.min_eq_left hN] at h

/-! ### The layout that `config` computes -/

/-- The bytes of a state and its records, as a number without wrap-around. -/
def recordsArea (c : WlConfig) : ℕ := stateBytes + c.fullMemSize / c.sectorSize * c.wrSize

/-- The size of a state area. -/
def stateArea (c : WlConfig) : ℕ :=
  if c.sectorSize < recordsArea c then
    (recordsArea c + c.sectorSize - 1) / c.sectorSize * c.sectorSize
  else c.sectorSize

/-- The size of the configuration area. -/
def cfgArea (c : WlConfig) : ℕ := (configBytes + c.sectorSize - 1) / c.sectorSize * c.sectorSize

/-- The configurations under which the driver works: a record holds its sixteen bytes, a page
is made of whole sectors, the state areas fit into the memory, and the memory is a row of
sectors of the flash driver. -/
structure GoodConfig (c : WlConfig) (drv : FlashDrv) : Prop where
  wrSize_ge : 16 ≤ c.wrSize
  page_dvd : c.sectorSize ∣ c.pageSize
  page_lt : c.pageSize < 2 ^ 31
  areas_le : 2 * stateArea c + cfgArea c ≤ c.fullMemSize
  secSize_eq : drv.secSize = c.sectorSize
  start_dvd : c.sectorSize ∣ c.startAddr
  full_dvd : c.sectorSize ∣ c.fullMemSize
  mem_le : c.startAddr + c.fullMemSize ≤ drv.chipSize
  updaterate_lt : c.updaterate < 2 ^ 32
  version_lt : c.version < 2 ^ 32
  chip_lt : drv.chipSize < 2 ^ 32

lemma roundUp_ge {n k : ℕ} (hk : 0 < k) : n ≤ (n + k - 1) / k * k := by
  have h1 := Nat.div_add_mod (n + k - 1) k
  have h2 := Nat.mod_lt (n + k - 1) hk
  rw [Nat.mul_comm] at h1
  omega

variable {c : WlConfig}

lemma recordsArea_le (h : 0 < c.sectorSize) : recordsArea c ≤ stateArea c := by
  have := roundUp_ge (n := recordsArea c) h
  unfold stateArea
  split <;> omega

lemma sectorSize_le (h : 0 < c.sectorSize) : c.sectorSize ≤ stateArea c := by
  have := roundUp_ge (n := recordsArea c) h
  unfold stateArea
  split <;> omega

lemma stateArea_dvd (c : WlConfig) : c.sectorSize ∣ stateArea c := by
  unfold stateArea
  split
  · exact Nat.dvd_mul_left _ _
  · exact Nat.dvd_refl _

/-- The sizes that `config` computes do not wrap around. -/
lemma sizes_eq {drv : FlashDrv} (hg : GoodConfig c drv) (hs : 0 < c.sectorSize) :
    stateSizeOf c = stateArea c ∧ cfgSizeOf c = cfgArea c := by
  have h1 := recordsArea_le hs
  have h2 := sectorSize_le hs
  have h3 := hg.areas_le
  have h4 := hg.mem_le
  have h5 := hg.chip_lt
  have hca : configBytes ≤ cfgArea c := roundUp_ge hs
  have hrec : recordsSizeOf c = recordsArea c := by
    unfold recordsSizeOf
    unfold recordsArea at h1
    rw [u32_of_lt (n := c.fullMemSize / c.sectorSize * c.wrSize) (by omega), u32_of_lt (by omega)]
    rfl
  constructor
  · unfold stateSizeOf stateArea
    rw [hrec]
    split
    · rename_i hlt
      have harea : stateArea c = (recordsArea c + c.sectorSize - 1) / c.sectorSize * c.sectorSize :=
        if_pos hlt
      rw [u32_of_lt (n := recordsArea c + c.sectorSize - 1) (by omega), u32_of_lt (by omega)]
    · rfl
  · unfold cfgSizeOf
    have hle : configBytes + c.sectorSize - 1 < 2 ^ 32 := by omega
    rw [u32_of_lt hle]
    exact u32_of_lt (show cfgArea c < 2 ^ 32 by omega)

/-- The pages of an accepted good configuration. -/
lemma flashSizeOf_eq {drv : FlashDrv} (hg : GoodConfig c drv) (hs : 0 < c.sectorSize)
    (hp : c.sectorSize ≤ c.pageSize) (hne : flashSizeOf c ≠ 0) (hlt : flashSizeOf c < 2 ^ 31) :
    ∃ N, 0 < N ∧ flashSizeOf c = N * c.pageSize ∧
      (N + 1) * c.pageSize ≤ c.fullMemSize - 2 * stateArea c - cfgArea c := by
  obtain ⟨hss, hcs⟩ := sizes_eq hg hs
  have h3 := hg.areas_le
  have h4 := hg.mem_le
  have h5 := hg.chip_lt
  set d := c.fullMemSize - 2 * stateArea c - cfgArea c with hd
  have hdata : u32Sub (u32Sub c.fullMemSize (u32 (stateSizeOf c * 2))) (cfgSizeOf c) = d := by
    have h1 : u32Sub c.fullMemSize (stateArea c * 2) = c.fullMemSize - 2 * stateArea c := by
      rw [u32Sub_of_le (by omega) (by omega), Nat.mul_comm]
    rw [hss, hcs, u32_of_lt (by omega), h1]
    exact u32Sub_of_le (by omega) (by omega)
  have hflash : flashSizeOf c = u32 (u32Sub (d / c.pageSize) 1 * c.pageSize) := by
    unfold flashSizeOf
    rw [hdata]
  have hpage : 0 < c.pageSize := by omega
  have hle : d / c.pageSize * c.pageSize ≤ d := Nat.div_mul_le_self _ _
  have hq : d / c.pageSize < 2 ^ 32 := lt_of_le_of_lt (Nat.div_le_self _ _) (by omega)
  have hpl := hg.page_lt
  rcases Nat.eq_zero_or_pos (d / c.pageSize) with hzero | hpos
  · -- no page at all: the size wraps around to a negative one
    exfalso
    have hwrap : flashSizeOf c = 2 ^ 32 - c.pageSize := by
      rw [hflash, hzero]
      unfold u32 u32Sub
      have : (0 + (2 ^ 32 - 1 % 2 ^ 32)) % 2 ^ 32 * c.pageSize =
          (c.pageSize - 1) * 2 ^ 32 + (2 ^ 32 - c.pageSize) := by
        rw [show (0 + (2 ^ 32 - 1 % 2 ^ 32)) % 2 ^ 32 = 4294967295 from rfl]
        omega
      rw [this, Nat.mul_comm, Nat.mul_add_mod, Nat.mod_eq_of_lt (by omega)]
    omega
  · have hsub : u32Sub (d / c.pageSize) 1 = d / c.pageSize - 1 := u32Sub_of_le hq hpos
    have hle1 : (d / c.pageSize - 1) * c.pageSize ≤ d :=
      (Nat.mul_le_mul_right _ (Nat.sub_le _ _)).trans hle
    have hval : flashSizeOf c = (d / c.pageSize - 1) * c.pageSize := by
      rw [hflash, hsub]
      exact u32_of_lt (by omega)
    refine ⟨d / c.pageSize - 1, ?_, hval, ?_⟩
    · rcases Nat.eq_zero_or_pos (d / c.pageSize - 1) with h0 | h0
      · rw [hval, h0, Nat.zero_mul] at hne
        exact absurd rfl hne
      · exact h0
    · rwa [Nat.sub_add_cancel hpos]

/-- What `config` leaves when it accepts. -/
lemma config_cases {mallocd : ℕ → Byte} {w' : World} (h : config c mallocd w = (.ok (), w')) :
    0 < c.sectorSize ∧ c.sectorSize ≤ c.pageSize ∧
      c.sectorSize % max c.tempBuffSize c.wrSize = 0 ∧
      flashSizeOf c ≠ 0 ∧ flashSizeOf c < 2 ^ 31 ∧
      w' = { w with wl := { w.wl with
        cfg := { c with crc := c.crcOf, tempBuffSize := max c.tempBuffSize c.wrSize }
        stateSize := stateSizeOf c
        cfgSize := cfgSizeOf c
        addrCfg := u32Sub (u32 (c.startAddr + c.fullMemSize)) (cfgSizeOf c)
        addrState1 := u32Sub (u32Sub (u32 (c.startAddr + c.fullMemSize))
          (u32 (stateSizeOf c * 2))) (cfgSizeOf c)
        addrState2 := u32Sub (u32Sub (u32 (c.startAddr + c.fullMemSize)) (stateSizeOf c))
          (cfgSizeOf c)
        flashSize := flashSizeOf c
        tempBuff := (List.range (max c.tempBuffSize c.wrSize)).map mallocd
        configured := true } } := by
  unfold config at h
  rw [Prog.modify_bind] at h
  simp only at h
  split at h
  · simp [Prog.throw] at h
  rename_i hzero
  split at h
  · simp [Prog.throw] at h
  rename_i hbad
  rw [Prog.modify_bind] at h
  split at h
  · simp [Prog.throw] at h
  rename_i hsize
  push Not at hzero hbad hsize
  refine ⟨Nat.pos_of_ne_zero hzero.1, hbad.2, hbad.1, hsize.1, hsize.2, ?_⟩
  exact (congrArg Prod.snd h).symm

/-- An accepted good configuration lays the memory out. -/
lemma config_laid {mallocd : ℕ → Byte} {w' : World} (hg : GoodConfig c w.drv)
    (h : config c mallocd w = (.ok (), w')) :
    Laid w' (w'.wl.flashSize / w'.wl.cfg.pageSize) := by
  obtain ⟨hs, hp, hbuff, hne, hlt, rfl⟩ := config_cases h
  obtain ⟨N, hN, hsize, hfit⟩ := flashSizeOf_eq hg hs hp hne hlt
  obtain ⟨hss, hcs⟩ := sizes_eq hg hs
  have h3 := hg.areas_le
  have h4 := hg.mem_le
  have h5 := hg.chip_lt
  have hpages : flashSizeOf c / c.pageSize = N := by
    rw [hsize]
    exact Nat.mul_div_cancel _ (by omega)
  have hcfgd : c.sectorSize ∣ cfgArea c := Nat.dvd_mul_left _ _
  have hstd := stateArea_dvd c
  have hend : c.sectorSize ∣ c.startAddr + c.fullMemSize := Nat.dvd_add hg.start_dvd hg.full_dvd
  have hrecs : stateBytes + (N + 1) * c.wrSize ≤ stateArea c := by
    refine le_trans ?_ (recordsArea_le hs)
    unfold recordsArea
    refine Nat.add_le_add_left (Nat.mul_le_mul_right _ ?_) _
    rw [Nat.le_div_iff_mul_le hs]
    calc (N + 1) * c.sectorSize ≤ (N + 1) * c.pageSize := Nat.mul_le_mul_left _ hp
      _ ≤ c.fullMemSize := by omega
  have haddrCfg : u32Sub (u32 (c.startAddr + c.fullMemSize)) (cfgSizeOf c) =
      c.startAddr + c.fullMemSize - cfgArea c := by
    rw [hcs, u32_of_lt (by omega), u32Sub_of_le (by omega) (by omega)]
  have haddr1 : u32Sub (u32Sub (u32 (c.startAddr + c.fullMemSize)) (u32 (stateSizeOf c * 2)))
      (cfgSizeOf c) = c.startAddr + c.fullMemSize - 2 * stateArea c - cfgArea c := by
    have h1 : u32Sub (c.startAddr + c.fullMemSize) (stateArea c * 2) =
        c.startAddr + c.fullMemSize - 2 * stateArea c := by
      rw [u32Sub_of_le (by omega) (by omega), Nat.mul_comm]
    rw [hss, hcs, u32_of_lt (n := c.startAddr + c.fullMemSize) (by omega),
      u32_of_lt (by omega), h1]
    exact u32Sub_of_le (by omega) (by omega)
  have haddr2 : u32Sub (u32Sub (u32 (c.startAddr + c.fullMemSize)) (stateSizeOf c))
      (cfgSizeOf c) = c.startAddr + c.fullMemSize - stateArea c - cfgArea c := by
    have h1 : u32Sub (c.startAddr + c.fullMemSize) (stateArea c) =
        c.startAddr + c.fullMemSize - stateArea c := u32Sub_of_le (by omega) (by omega)
    rw [hss, hcs, u32_of_lt (n := c.startAddr + c.fullMemSize) (by omega), h1]
    exact u32Sub_of_le (by omega) (by omega)
  constructor
  all_goals simp only [hpages, haddrCfg, haddr1, haddr2]
  all_goals try simp only [hss, hcs]
  exacts [hN, hsize, hlt, hs, hg.secSize_eq, by omega, hg.page_dvd, hg.start_dvd, hstd, hcfgd,
    Nat.dvd_sub (Nat.dvd_sub hend (Dvd.dvd.mul_left hstd 2)) hcfgd,
    Nat.dvd_sub (Nat.dvd_sub hend hstd) hcfgd, Nat.dvd_sub hend hcfgd, by omega, by omega, by omega,
    by omega, hrecs, roundUp_ge hs, hg.wrSize_ge, le_max_right _ _, Nat.dvd_of_mod_eq_zero hbuff,
    by simp]

/-! ### Reading a stored state back -/

lemma decode_encode {s : WlState} (hpos : s.pos < 2 ^ 32) (hmax : s.maxPos < 2 ^ 32)
    (hmove : s.moveCount < 2 ^ 32) (haccess : s.accessCount < 2 ^ 32)
    (hcount : s.maxCount < 2 ^ 32) (hblock : s.blockSize < 2 ^ 32) (hver : s.version < 2 ^ 32)
    (hdev : s.deviceId < 2 ^ 32) (hres : s.reserved = List.replicate 7 0) (hcrc : s.crc < 2 ^ 32) :
    WlState.decode s.encode = s := by
  obtain ⟨pos, maxPos, moveCount, accessCount, maxCount, blockSize, version, deviceId, reserved,
    crc⟩ := s
  subst hres
  simp only [WlState.decode, WlState.mk.injEq]
  exact ⟨leVal_le32 hpos, leVal_le32 hmax, leVal_le32 hmove, leVal_le32 haccess, leVal_le32 hcount,
    leVal_le32 hblock, leVal_le32 hver, leVal_le32 hdev, rfl, leVal_le32 hcrc⟩

lemma decode_stored {s : WlState} {v : ℕ} (hs : StateOk s v N) (hN : N < 2 ^ 31) :
    WlState.decode s.stored.encode = s.stored := by
  have h1 := hs.maxPos_eq
  have h2 := hs.moveCount_lt
  exact decode_encode (s := s.stored) (show 0 < 2 ^ 32 by decide)
    (show s.maxPos < 2 ^ 32 by omega) (show s.moveCount < 2 ^ 32 by omega)
    (show 0 < 2 ^ 32 by decide) hs.maxCount_lt hs.blockSize_lt hs.version_lt hs.deviceId_lt
    hs.reserved_eq (crc32Le 0xffffffff#32 _).isLt

lemma pages_lt (hL : Laid w N) : N < 2 ^ 31 := by
  have h1 := hL.flashSize_lt
  have h2 := hL.page_pos
  rw [hL.flashSize_eq] at h1
  exact lt_of_le_of_lt (Nat.le_mul_of_pos_right _ h2) h1

/-! ### Mounting a memory that has been in use -/

/-- The object and the two areas of a memory that has been unmounted in state `s`. -/
structure Unmounted (w : World) (s : WlState) (N : ℕ) : Prop where
  laid : Laid w N
  configured : w.wl.configured = true
  state : StateOk s w.wl.cfg.version N
  area1 : Area w.drv.mem s w.wl.cfg.wrSize N w.wl.addrState1
  area2 : Area w.drv.mem s w.wl.cfg.wrSize N w.wl.addrState2

/-- The state that mounting recovers. -/
def WlState.recovered (s : WlState) : WlState := { s.stored with pos := s.pos }

/-- `init` finds the state and the position again. -/
lemma init_ok {s : WlState} (random : ℕ) (hU : Unmounted w s N) :
    ∃ w', init random w = (.ok (), w') ∧ Mounted w' N ∧ w'.wl.state = s.recovered ∧
      w'.drv.mem = w.drv.mem ∧ SameSetup w w' := by
  obtain ⟨hL, hconf, hs, ha1, ha2⟩ := hU
  have h1 := hL.state1_le
  have h2 := hL.state2_le
  have h3 := hL.cfg_le
  have hrec := hL.records_le
  have hdec := decode_stored hs (pages_lt hL)
  set w₁ : World := { w with wl := { w.wl with initialized := false } } with hw₁
  set w₂ : World := w₁.withState s.stored with hw₂
  have hread1 : drvRead w.wl.addrState1 stateBytes w₁ = (.ok s.stored.encode, w₁) := by
    rw [drvRead_ok (by show _ ≤ w.drv.chipSize; omega)]
    exact congrArg (fun bs => (Except.ok bs, w₁)) ha1.state_eq
  have hstate : readState w.wl.addrState1 w₁ = (.ok (), w₂) := by
    unfold readState
    rw [hread1]
    simp only [hdec]
    rfl
  have hread2 : drvRead w.wl.addrState2 stateBytes w₂ = (.ok s.stored.encode, w₂) := by
    rw [drvRead_ok (by show _ ≤ w.drv.chipSize; omega)]
    exact congrArg (fun bs => (Except.ok bs, w₂)) ha2.state_eq
  have hset : SameSetup w₁ w₂ := SameSetup.withState _ _
  have hset₁ : Laid w₁ N := hL.of_sameSetup (by constructor <;> rfl)
  obtain ⟨b, hb, hpos⟩ := recoverPos_ok (w := w₂) (s := s) (hset₁.of_sameSetup hset) hs.maxPos_eq rfl
    hs.pos_le ha1
  have hfrom : initFrom random s.stored s.stored w₂ = (.ok (), (w₂.withState s.recovered).upd b w.drv.mem) := by
    unfold initFrom initIntact
    rw [if_pos ⟨rfl, rfl⟩, Prog.get_bind,
      if_neg (show ¬ s.stored.version ≠ w₂.wl.cfg.version from fun h => h hs.version_eq),
      if_neg (show ¬ s.stored.crcV2 ≠ s.stored.crcV2 from fun h => h rfl)]
    exact hpos
  set w₃ : World := (w₂.withState s.recovered).upd b w.drv.mem with hw₃
  set w₄ : World := { w₃ with wl := { w₃.wl with initialized := true } } with hw₄
  have hset : SameSetup w w₄ := by constructor <;> first | rfl | exact hb
  refine ⟨w₄, ?_, ?_, rfl, rfl, hset⟩
  · unfold init
    rw [Prog.get_bind, if_pos hconf, Prog.modify_bind]
    change (readState w.wl.addrState1 >>= _) w₁ = _
    rw [Prog.bind_ok hstate, Prog.get_bind, Prog.bind_ok hread2, hdec]
    change (initFrom random s.stored s.stored >>= _) w₂ = _
    rw [Prog.bind_ok hfrom]
    rfl
  · refine ⟨hL.of_sameSetup hset, rfl, ?_, ?_, ?_⟩
    · exact ⟨hs.maxPos_eq, hs.pos_le, hs.moveCount_lt, hs.maxCount_lt, hs.blockSize_lt,
        hs.version_eq, hs.version_lt, hs.deviceId_lt, hs.reserved_eq⟩
    · exact ha1.congr hL.wrSize_ge (Nat.le_succ_of_le hs.pos_le) (fun _ _ _ => rfl) rfl rfl rfl
    · exact ha2.congr hL.wrSize_ge (Nat.le_succ_of_le hs.pos_le) (fun _ _ _ => rfl) rfl rfl rfl

/-! ### Mounting a new memory -/

/-- The state that `initSections` sets up. -/
def formatted (w : World) (random : ℕ) : WlState :=
  let s : WlState := { w.wl.state with
    pos := 0
    accessCount := 0
    moveCount := 0
    maxCount :=
      if w.wl.cfg.updaterate ≠ 0 then w.wl.cfg.updaterate
      else u32 (w.wl.flashSize / w.wl.stateSize * w.wl.cfg.updaterate)
    version := w.wl.cfg.version
    blockSize := w.wl.cfg.pageSize
    deviceId := u32 random
    reserved := List.replicate 7 0
    maxPos := 1 + w.wl.flashSize / w.wl.cfg.pageSize }
  { s with crc := s.crcV2 }

lemma formatted_ok (random : ℕ) (hL : Laid w N) (hu : w.wl.cfg.updaterate < 2 ^ 32)
    (hv : w.wl.cfg.version < 2 ^ 32) :
    StateOk (formatted w random) w.wl.cfg.version N where
  maxPos_eq := by
    show 1 + w.wl.flashSize / w.wl.cfg.pageSize = N + 1
    rw [hL.flashSize_eq, Nat.mul_div_cancel _ hL.page_pos, Nat.add_comm]
  pos_le := Nat.zero_le _
  moveCount_lt := hL.pages_pos
  maxCount_lt := by
    show (if _ then _ else _) < 2 ^ 32
    split
    · exact hu
    · exact u32_lt _
  blockSize_lt := by
    show w.wl.cfg.pageSize < 2 ^ 32
    have h1 := hL.flashSize_lt
    have h2 := hL.flashSize_eq
    have h3 : w.wl.cfg.pageSize ≤ N * w.wl.cfg.pageSize := Nat.le_mul_of_pos_left _ hL.pages_pos
    omega
  version_eq := rfl
  version_lt := hv
  deviceId_lt := u32_lt _
  reserved_eq := rfl

lemma length_config_encode (c : WlConfig) : c.encode.length = configBytes := rfl

/-- `initSections` writes a fresh state into both areas. -/
lemma initSections_ok (random : ℕ) (hL : Laid w N) :
    ∃ m, initSections random w = (.ok (), (w.withState (formatted w random)).upd w.wl.tempBuff m) ∧
      Area m (formatted w random) w.wl.cfg.wrSize N w.wl.addrState1 ∧
      Area m (formatted w random) w.wl.cfg.wrSize N w.wl.addrState2 ∧
      ∀ x < w.wl.addrState1, m x = w.drv.mem x := by
  set s := formatted w random with hs
  have hres : s.reserved.length = 7 := rfl
  have h1 := hL.state1_le
  have h2 := hL.state2_le
  have h3 := hL.cfg_le
  have hrec := hL.records_le
  have hcl := hL.config_le
  have hd : w.drv.secSize ∣ w.wl.stateSize := hL.secSize_eq ▸ hL.state_dvd
  have hd1 : w.drv.secSize ∣ w.wl.addrState1 := hL.secSize_eq ▸ hL.addr1_dvd
  have hd2 : w.drv.secSize ∣ w.wl.addrState2 := hL.secSize_eq ▸ hL.addr2_dvd
  have hdc : w.drv.secSize ∣ w.wl.cfgSize := hL.secSize_eq ▸ hL.cfg_dvd
  have hda : w.drv.secSize ∣ w.wl.addrCfg := hL.secSize_eq ▸ hL.addrCfg_dvd
  have hlen := length_encode hres
  have hend1 : recordAddr w.wl.addrState1 w.wl.cfg.wrSize (N + 1) ≤
      w.wl.addrState1 + w.wl.stateSize := by unfold recordAddr; omega
  have hend2 : recordAddr w.wl.addrState2 w.wl.cfg.wrSize (N + 1) ≤
      w.wl.addrState2 + w.wl.stateSize := by unfold recordAddr; omega
  set v := w.withState s with hv
  set m1 := (w.drv.mem.erase w.wl.addrState1 w.wl.stateSize).program w.wl.addrState1 s.encode with hm1
  set m2 := (m1.erase w.wl.addrState2 w.wl.stateSize).program w.wl.addrState2 s.encode with hm2
  set m3 := (m2.erase w.wl.addrCfg w.wl.cfgSize).program w.wl.addrCfg w.wl.cfg.encode with hm3
  have hrun1 : storeState w.wl.addrState1 v = (.ok (), v.upd w.wl.tempBuff m1) :=
    storeState_ok hres (by show _ ≤ w.drv.chipSize; change w.wl.addrState1 + w.wl.stateSize ≤ _; omega)
      (by change stateBytes ≤ w.wl.stateSize; omega) hd hd1
  have hrun2 : storeState w.wl.addrState2 (v.upd w.wl.tempBuff m1) =
      (.ok (), v.upd w.wl.tempBuff m2) :=
    storeState_ok (w := v.upd w.wl.tempBuff m1) hres
      (by change w.wl.addrState2 + w.wl.stateSize ≤ w.drv.chipSize; omega)
      (by change stateBytes ≤ w.wl.stateSize; omega) hd hd2
  have hrun3 := drvEraseRange_ok (w := v.upd w.wl.tempBuff m2) (a := w.wl.addrCfg)
    (n := w.wl.cfgSize) (by change _ ≤ w.drv.chipSize; omega) hdc hda
  have hrun4 : drvWrite w.wl.addrCfg w.wl.cfg.encode
      (v.upd w.wl.tempBuff (m2.erase w.wl.addrCfg w.wl.cfgSize)) =
      (.ok (), v.upd w.wl.tempBuff m3) :=
    drvWrite_ok (by rw [length_config_encode]; change _ ≤ w.drv.chipSize; omega)
  -- the configuration lies behind both areas, and the second area behind the first
  have hout3 : ∀ x < w.wl.addrCfg, m3 x = m2 x := by
    intro x hx
    rw [hm3, Mem.program_of_not_mem (by omega), Mem.erase_of_not_mem (by omega)]
  have hout2 : ∀ x < w.wl.addrState2, m2 x = m1 x := by
    intro x hx
    rw [hm2, Mem.program_of_not_mem (by omega), Mem.erase_of_not_mem (by omega)]
  have hout1 : ∀ x < w.wl.addrState1, m1 x = w.drv.mem x := by
    intro x hx
    rw [hm1, Mem.program_of_not_mem (by omega), Mem.erase_of_not_mem (by omega)]
  refine ⟨m3, ?_, ?_, ?_, ?_⟩
  · unfold initSections sealState
    rw [Prog.modify_bind, Prog.modify_bind, Prog.get_bind]
    change (storeState w.wl.addrState1 >>= _) v = _
    rw [Prog.bind_ok hrun1, Prog.bind_ok hrun2, Prog.bind_ok hrun3]
    exact hrun4
  · refine (Area.fresh (m := w.drv.mem) hres rfl rfl hend1).congr hL.wrSize_ge (Nat.zero_le _) ?_
      rfl rfl rfl
    intro x hx hx'
    rw [hout3 x (by omega), hout2 x (by omega)]
  · refine (Area.fresh (m := m1) hres rfl rfl hend2).congr hL.wrSize_ge (Nat.zero_le _) ?_
      rfl rfl rfl
    intro x hx hx'
    rw [hout3 x (by omega)]
  · intro x hx
    rw [hout3 x (by omega), hout2 x (by omega), hout1 x hx]

/-- A memory that holds no state of this driver: both stored states are broken and are not
of the first format, or both are intact and of another version. -/
def Unformatted (w : World) : Prop :=
  let s₁ := WlState.decode (w.drv.mem.read w.wl.addrState1 stateBytes)
  let s₂ := WlState.decode (w.drv.mem.read w.wl.addrState2 stateBytes)
  (s₁.crcV2 ≠ s₁.crc ∧ s₂.crcV2 ≠ s₂.crc ∧
    ¬ (s₁.crcV1 = s₁.deviceId ∧ s₂.crcV1 = s₂.deviceId ∧ s₁.deviceId = s₂.deviceId ∧
      s₁.version = 1 ∧ s₂.version = 1)) ∨
  (s₁.crcV2 = s₁.crc ∧ s₂.crcV2 = s₂.crc ∧ s₁.version ≠ w.wl.cfg.version)

instance (w : World) : Decidable (Unformatted w) := by
  unfold Unformatted
  infer_instance

/-- `init` formats a memory that is not formatted. -/
lemma init_format_ok (random : ℕ) (hL : Laid w N) (hconf : w.wl.configured = true)
    (hu : w.wl.cfg.updaterate < 2 ^ 32) (hv : w.wl.cfg.version < 2 ^ 32) (hnew : Unformatted w) :
    ∃ w', init random w = (.ok (), w') ∧ Mounted w' N ∧ SameSetup w w' := by
  have h1 := hL.state1_le
  have h2 := hL.state2_le
  have h3 := hL.cfg_le
  have hrec := hL.records_le
  set s₁ := WlState.decode (w.drv.mem.read w.wl.addrState1 stateBytes) with hs₁
  set s₂ := WlState.decode (w.drv.mem.read w.wl.addrState2 stateBytes) with hs₂
  set w₁ : World := { w with wl := { w.wl with initialized := false } } with hw₁
  set w₂ : World := w₁.withState s₁ with hw₂
  have hL₂ : Laid w₂ N := hL.of_sameSetup (by constructor <;> rfl)
  have hstate : readState w.wl.addrState1 w₁ = (.ok (), w₂) := by
    unfold readState
    rw [drvRead_ok (by change _ ≤ w.drv.chipSize; omega)]
    rfl
  have hread2 : drvRead w.wl.addrState2 stateBytes w₂ =
      (.ok (w.drv.mem.read w.wl.addrState2 stateBytes), w₂) :=
    drvRead_ok (by change _ ≤ w.drv.chipSize; omega)
  obtain ⟨m, hsect, ha1, ha2, -⟩ := initSections_ok random hL₂
  have hok := formatted_ok random hL₂ hu hv
  set s := formatted w₂ random with hs
  set w₃ := (w₂.withState s).upd w₂.wl.tempBuff m with hw₃
  have hL₃ : Laid w₃ N := hL.of_sameSetup (by constructor <;> rfl)
  obtain ⟨b, hb, hpos⟩ := recoverPos_ok (w := w₃) (s := s) hL₃ hok.maxPos_eq rfl hok.pos_le ha1
  have hboth : (do initSections random; recoverPos : WlM Unit) w₂ =
      (.ok (), (w₃.withState { w₃.wl.state with pos := s.pos }).upd b m) := by
    rw [Prog.bind_ok hsect]
    exact hpos
  have hfrom : initFrom random s₁ s₂ w₂ =
      (.ok (), (w₃.withState { w₃.wl.state with pos := s.pos }).upd b m) := by
    unfold initFrom
    rcases hnew with ⟨hc1, hc2, hv1⟩ | ⟨hc1, hc2, hver⟩
    · rw [if_neg (fun h => hc1 h.1), if_pos ⟨hc1, hc2⟩]
      have hfail : updateV1V2 random w₂ = (.error .fail, w₂) := by
        unfold updateV1V2
        rw [Prog.get_bind]
        change (drvRead w.wl.addrState2 stateBytes >>= _) w₂ = _
        rw [Prog.bind_ok hread2]
        exact congrFun (if_neg hv1) w₂
      unfold initNew
      rw [hfail]
      exact hboth
    · rw [if_pos ⟨hc1, hc2⟩]
      unfold initIntact
      rw [Prog.get_bind, if_pos (show s₁.version ≠ w₂.wl.cfg.version from hver)]
      exact hboth
  set w₄ := (w₃.withState { w₃.wl.state with pos := s.pos }).upd b m with hw₄
  set w₅ : World := { w₄ with wl := { w₄.wl with initialized := true } } with hw₅
  have hset : SameSetup w w₅ := by constructor <;> first | rfl | exact hb
  refine ⟨w₅, ?_, ?_, hset⟩
  · unfold init
    rw [Prog.get_bind, if_pos hconf, Prog.modify_bind]
    change (readState w.wl.addrState1 >>= _) w₁ = _
    rw [Prog.bind_ok hstate, Prog.get_bind, Prog.bind_ok hread2]
    change (initFrom random s₁ s₂ >>= _) w₂ = _
    rw [Prog.bind_ok hfrom]
    rfl
  · refine ⟨hL.of_sameSetup hset, rfl, ?_, ?_, ?_⟩
    · exact ⟨hok.maxPos_eq, hok.pos_le, hok.moveCount_lt, hok.maxCount_lt, hok.blockSize_lt,
        hok.version_eq, hok.version_lt, hok.deviceId_lt, hok.reserved_eq⟩
    · exact ha1.congr hL.wrSize_ge (Nat.zero_le _) (fun _ _ _ => rfl) rfl rfl rfl
    · exact ha2.congr hL.wrSize_ge (Nat.zero_le _) (fun _ _ _ => rfl) rfl rfl rfl

end EspIdf.WearLevelling
