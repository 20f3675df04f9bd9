/-
# Moving the dummy page keeps the logical contents

One run of `updateWL` either only counts, or copies the page after the dummy into it,
appends a record to both areas and moves the position on.  The mapping of exactly one
logical page changes with the position, and it is the page that was copied.
-/
import EspIdf.WearLevelling.Invariant

namespace EspIdf.WearLevelling

open EspIdf.Lib

variable {w : World} {N a n : ℕ} {bs : List Byte}

/-! ### Driver calls that succeed -/

lemma drvRead_ok (h : a + n ≤ w.drv.chipSize) :
    drvRead a n w = (.ok (w.drv.mem.read a n), w) := if_neg (by omega)

lemma drvWrite_ok (h : a + bs.length ≤ w.drv.chipSize) :
    drvWrite a bs w = (.ok (), w.upd w.wl.tempBuff (w.drv.mem.program a bs)) := if_neg (by omega)

lemma drvEraseRange_ok (h : a + n ≤ w.drv.chipSize) (hn : w.drv.secSize ∣ n)
    (ha : w.drv.secSize ∣ a) :
    drvEraseRange a n w = (.ok (), w.upd w.wl.tempBuff (w.drv.mem.erase a n)) := by
  unfold drvEraseRange
  rw [if_neg (by omega), if_neg (by simpa using Nat.mod_eq_zero_of_dvd hn),
    if_neg (by simpa using Nat.mod_eq_zero_of_dvd ha)]
  rfl

lemma readBuff_ok (h : a + n ≤ w.drv.chipSize) :
    readBuff a n w =
      (.ok (), w.upd (overlay w.wl.tempBuff (w.drv.mem.read a n)) w.drv.mem) := by
  unfold readBuff
  rw [Prog.bind_ok (drvRead_ok h)]
  rfl

lemma length_overlay {buff : List Byte} (h : bs.length ≤ buff.length) :
    (overlay buff bs).length = buff.length := by
  simp [overlay]; omega

lemma take_overlay {buff : List Byte} (h : bs.length = n) : (overlay buff bs).take n = bs := by
  simp [overlay, ← h]

@[simp] lemma upd_upd (b b' : List Byte) (m m' : Mem) : (w.upd b m).upd b' m' = w.upd b' m' := rfl

@[simp] lemma upd_mem (b : List Byte) (m : Mem) : (w.upd b m).drv.mem = m := rfl

@[simp] lemma upd_tempBuff (b : List Byte) (m : Mem) : (w.upd b m).wl.tempBuff = b := rfl

@[simp] lemma upd_cfg (b : List Byte) (m : Mem) : (w.upd b m).wl.cfg = w.wl.cfg := rfl

@[simp] lemma upd_state (b : List Byte) (m : Mem) : (w.upd b m).wl.state = w.wl.state := rfl

@[simp] lemma upd_chipSize (b : List Byte) (m : Mem) :
    (w.upd b m).drv.chipSize = w.drv.chipSize := rfl

/-! ### Copying a page -/

/-- The memory after `n` bytes have been copied from `src` to `dst`. -/
def copied (m : Mem) (src dst n : ℕ) : Mem :=
  fun x => if dst ≤ x ∧ x < dst + n then m (src + (x - dst)) else m x

/-- `copyPage` into an erased page copies it, through whatever the buffer holds. -/
lemma copyPage_ok {src dst : ℕ} {m : Mem} (hdvd : w.wl.cfg.tempBuffSize ∣ w.wl.cfg.pageSize)
    (hlen : w.wl.tempBuff.length = w.wl.cfg.tempBuffSize)
    (hsrc : src + w.wl.cfg.pageSize ≤ w.drv.chipSize)
    (hdst : dst + w.wl.cfg.pageSize ≤ w.drv.chipSize)
    (hdisj : src + w.wl.cfg.pageSize ≤ dst ∨ dst + w.wl.cfg.pageSize ≤ src)
    (hmem : w.drv.mem = m.erase dst w.wl.cfg.pageSize) :
    ∃ b, b.length = w.wl.cfg.tempBuffSize ∧
      copyPage src dst w = (.ok (), w.upd b (copied m src dst w.wl.cfg.pageSize)) := by
  obtain ⟨k, hk⟩ := hdvd
  set size := w.wl.cfg.tempBuffSize with hsize
  set page := w.wl.cfg.pageSize with hpage
  -- after `i` chunks the first `i * size` bytes are copied and the rest of the page is erased
  let I : ℕ → World → Prop := fun i v => ∃ b m', v = w.upd b m' ∧ b.length = size ∧
    ∀ x, m' x = if dst ≤ x ∧ x < dst + i * size then m (src + (x - dst))
      else m.erase dst page x
  have hle : ∀ i < page / size, (i + 1) * size ≤ page := by
    intro i hi
    calc (i + 1) * size ≤ page / size * size := Nat.mul_le_mul_right _ hi
      _ ≤ page := Nat.div_mul_le_self _ _
  have hstep : ∀ i < page / size, ∀ v, I i v → ∃ v',
      (do readBuff (src + i * size) size
          let w ← Prog.get
          drvWrite (dst + i * size) (w.wl.tempBuff.take size) : WlM Unit) v = (.ok (), v') ∧
        I (i + 1) v' := by
    rintro i hi v ⟨b, m', rfl, hb, hm'⟩
    have hi' := hle i hi
    rw [Nat.add_mul, Nat.one_mul] at hi'
    have hread : m'.read (src + i * size) size = m.read (src + i * size) size := by
      apply Mem.read_congr
      intro j hj
      rw [hm', if_neg (by omega), Mem.erase_of_not_mem (by omega)]
    have hlr : (m'.read (src + i * size) size).length = size := Mem.length_read
    rw [Prog.bind_ok (readBuff_ok (w := w.upd b m')
        (show src + i * size + size ≤ w.drv.chipSize by omega)),
      Prog.get_bind]
    have htake : (overlay b (m'.read (src + i * size) size)).take size =
        m.read (src + i * size) size := by
      rw [← hread]
      exact take_overlay hlr
    refine ⟨_, drvWrite_ok ?_, _, _, rfl, ?_, ?_⟩
    · simp only [upd_tempBuff, upd_mem, upd_upd, htake, Mem.length_read]
      show dst + i * size + size ≤ w.drv.chipSize
      omega
    · simp only [upd_tempBuff, upd_upd]
      rw [length_overlay (by simp [hb]), hb]
    · intro x
      simp only [upd_tempBuff, upd_mem, upd_upd, htake]
      by_cases hx : dst + i * size ≤ x ∧ x < dst + i * size + size
      · rw [Mem.program_read_erased hx, if_pos (by rw [Nat.add_mul]; omega)]
        · congr 1
          omega
        · rw [hm', if_neg (by omega), Mem.erase_of_mem (by omega)]
      · rw [Mem.program_of_not_mem (by simpa using hx), hm']
        by_cases hx' : dst ≤ x ∧ x < dst + i * size
        · rw [if_pos hx', if_pos (by rw [Nat.add_mul]; omega)]
        · rw [if_neg hx', if_neg (by rw [Nat.add_mul]; omega)]
  have h0 : I 0 w := by
    refine ⟨w.wl.tempBuff, w.drv.mem, rfl, hlen, fun x => ?_⟩
    rw [if_neg (by omega), hmem]
  obtain ⟨w', hrun, b, m', rfl, hb, hm'⟩ := Prog.upTo_returns hstep h0
  refine ⟨b, hb, ?_⟩
  have hfin : m' = copied m src dst page := by
    funext x
    have hdiv : page / size * size = page := Nat.div_mul_cancel ⟨k, hk⟩
    rw [hm', hdiv]
    unfold copied
    split
    · rfl
    · rw [Mem.erase_of_not_mem ‹_›]
  rw [← hfin, ← hrun]
  rfl

/-! ### Records and stored states -/

lemma length_okBytes (deviceId i : ℕ) : (okBytes deviceId i).length = 16 := rfl

/-- A record of `wr_size` bytes that starts with the sixteen bytes for its position is filled
into the buffer and programmed. -/
lemma programRecord_ok (i : ℕ) (hwr : 16 ≤ w.wl.cfg.wrSize)
    (hbuff : w.wl.cfg.wrSize ≤ w.wl.tempBuff.length)
    (hin : recordAddr a w.wl.cfg.wrSize i + w.wl.cfg.wrSize ≤ w.drv.chipSize) :
    ∃ b r, b.length = w.wl.tempBuff.length ∧ r.length = w.wl.cfg.wrSize ∧
      r.take 16 = okBytes w.wl.state.deviceId i ∧
      (do
        fillOkBuff i
        let w ← Prog.get
        drvWrite (recordAddr a w.wl.cfg.wrSize i) (w.wl.tempBuff.take w.wl.cfg.wrSize) : WlM Unit)
        w = (.ok (), w.upd b (w.drv.mem.program (recordAddr a w.wl.cfg.wrSize i) r)) := by
  set b := overlay w.wl.tempBuff (okBytes w.wl.state.deviceId i) with hb
  have hlen : b.length = w.wl.tempBuff.length :=
    length_overlay (by rw [length_okBytes]; omega)
  have hr : (b.take w.wl.cfg.wrSize).length = w.wl.cfg.wrSize := by
    simp [hlen, hbuff]
  refine ⟨b, b.take w.wl.cfg.wrSize, hlen, hr, ?_, ?_⟩
  · rw [List.take_take, Nat.min_eq_left hwr]
    exact take_overlay (length_okBytes _ _)
  · have hin' : recordAddr a w.wl.cfg.wrSize i +
        (b.take w.wl.cfg.wrSize).length ≤ (w.upd b w.drv.mem).drv.chipSize := by
      rw [hr]
      exact hin
    exact drvWrite_ok hin'

/-- `writeRecord` programs the record of the position. -/
lemma writeRecord_ok (hwr : 16 ≤ w.wl.cfg.wrSize)
    (hbuff : w.wl.cfg.wrSize ≤ w.wl.tempBuff.length)
    (hin : recordAddr a w.wl.cfg.wrSize w.wl.state.pos + w.wl.cfg.wrSize ≤ w.drv.chipSize) :
    ∃ b r, b.length = w.wl.tempBuff.length ∧ r.length = w.wl.cfg.wrSize ∧
      r.take 16 = okBytes w.wl.state.deviceId w.wl.state.pos ∧
      writeRecord a w = (.ok (), w.upd b
        (w.drv.mem.program (recordAddr a w.wl.cfg.wrSize w.wl.state.pos) r)) :=
  programRecord_ok w.wl.state.pos hwr hbuff hin

lemma storeState_ok {addr : ℕ} (hres : w.wl.state.reserved.length = 7)
    (hin : addr + w.wl.stateSize ≤ w.drv.chipSize) (hsize : stateBytes ≤ w.wl.stateSize)
    (hd : w.drv.secSize ∣ w.wl.stateSize) (ha : w.drv.secSize ∣ addr) :
    storeState addr w = (.ok (), w.upd w.wl.tempBuff
      ((w.drv.mem.erase addr w.wl.stateSize).program addr w.wl.state.encode)) := by
  unfold storeState
  rw [Prog.get_bind, Prog.bind_ok (drvEraseRange_ok hin hd ha), drvWrite_ok]
  · rfl
  · rw [length_encode hres]
    show addr + stateBytes ≤ w.drv.chipSize
    omega

/-- The state after the dummy has moved on. -/
def WlState.advance (s : WlState) (N : ℕ) : WlState :=
  let s' := { s with pos := nextSlot N s.pos, moveCount := nextMove N s.moveCount s.pos }
  if s.pos = N then { s' with crc := s'.crcV2 } else s'

lemma StateOk.advance {s : WlState} {v : ℕ} (h : StateOk s v N) :
    StateOk (s.advance N) v N := by
  have hpos : nextSlot N s.pos ≤ N := nextSlot_le h.pos_le
  have hmove : nextMove N s.moveCount s.pos < N := nextMove_lt h.moveCount_lt
  unfold WlState.advance
  split
  · exact ⟨h.maxPos_eq, hpos, hmove, h.maxCount_lt, h.blockSize_lt, h.version_eq,
      h.version_lt, h.deviceId_lt, h.reserved_eq⟩
  · exact ⟨h.maxPos_eq, hpos, hmove, h.maxCount_lt, h.blockSize_lt, h.version_eq,
      h.version_lt, h.deviceId_lt, h.reserved_eq⟩

/-- The memory after the state has been stored in both areas. -/
def storedTwice (w : World) (s : WlState) : Mem :=
  (((w.drv.mem.erase w.wl.addrState1 w.wl.stateSize).program w.wl.addrState1 s.encode).erase
    w.wl.addrState2 w.wl.stateSize).program w.wl.addrState2 s.encode

lemma storeBoth_ok (hL : Laid w N) (hres : w.wl.state.reserved.length = 7) :
    (do storeState w.wl.addrState1; storeState w.wl.addrState2 : WlM Unit) w =
      (.ok (), w.upd w.wl.tempBuff (storedTwice w w.wl.state)) := by
  have hcfg := hL.cfg_le
  have h1 := hL.state1_le
  have h2 := hL.state2_le
  have hrec := hL.records_le
  have hd : w.drv.secSize ∣ w.wl.stateSize := hL.secSize_eq ▸ hL.state_dvd
  have hd1 : w.drv.secSize ∣ w.wl.addrState1 := hL.secSize_eq ▸ hL.addr1_dvd
  have hd2 : w.drv.secSize ∣ w.wl.addrState2 := hL.secSize_eq ▸ hL.addr2_dvd
  rw [Prog.bind_ok (storeState_ok hres (by omega) (by omega) hd hd1)]
  exact storeState_ok (w := w.upd _ _) hres (by show _ ≤ w.drv.chipSize; simp only [World.upd]; omega)
    (by simp only [World.upd]; omega) hd hd2

lemma advancePos_ok {v : ℕ} (hL : Laid w N) (hs : StateOk w.wl.state v N) :
    advancePos w = (.ok (), (w.withState (w.wl.state.advance N)).upd w.wl.tempBuff
      (if w.wl.state.pos = N then storedTwice w (w.wl.state.advance N) else w.drv.mem)) := by
  have hres : w.wl.state.reserved.length = 7 := by rw [hs.reserved_eq]; rfl
  have hmax := hs.maxPos_eq
  have hpos := hs.pos_le
  unfold advancePos
  rw [Prog.get_bind]
  by_cases hp : w.wl.state.pos = N
  · have hadv : w.wl.state.advance N =
        { w.wl.state with
          pos := 0
          moveCount := if w.wl.state.moveCount + 1 ≥ w.wl.state.maxPos - 1 then 0
            else w.wl.state.moveCount + 1
          crc := ({ w.wl.state with
            pos := 0
            moveCount := if w.wl.state.moveCount + 1 ≥ w.wl.state.maxPos - 1 then 0
              else w.wl.state.moveCount + 1 } : WlState).crcV2 } := by
      have hmove : nextMove N w.wl.state.moveCount w.wl.state.pos =
          if w.wl.state.moveCount + 1 ≥ w.wl.state.maxPos - 1 then 0
            else w.wl.state.moveCount + 1 := by
        have hlt := hs.moveCount_lt
        rw [nextMove, if_pos hp, hmax]
        split <;> split <;> omega
      have hslot : nextSlot N w.wl.state.pos = 0 := if_pos hp
      rw [WlState.advance, if_pos hp, hslot, hmove]
    rw [if_pos hp, if_pos (by omega), Prog.modify_bind]
    have hstore := storeBoth_ok (hL.of_sameSetup (SameSetup.withState w (w.wl.state.advance N)))
      (show (w.wl.state.advance N).reserved.length = 7 by rw [hadv]; exact hres)
    rw [hadv] at hstore ⊢
    exact hstore
  · have hadv : w.wl.state.advance N = { w.wl.state with pos := w.wl.state.pos + 1 } := by
      have hslot : nextSlot N w.wl.state.pos = w.wl.state.pos + 1 := if_neg hp
      have hmove : nextMove N w.wl.state.moveCount w.wl.state.pos = w.wl.state.moveCount :=
        if_neg hp
      rw [WlState.advance, if_neg hp, hslot, hmove]
    rw [if_neg hp, if_neg (by omega), hadv]
    rfl

/-! ### One run of `updateWL` -/

/-- What a run of `updateWL` does to the data pages: nothing, or the copy of the page after
the dummy into it while the dummy takes that page's place. -/
inductive DataStep (w w' : World) (N : ℕ) : Prop
  | count (hpos : w'.wl.state.pos = w.wl.state.pos)
      (hmove : w'.wl.state.moveCount = w.wl.state.moveCount) (hmem : w'.drv.mem = w.drv.mem)
  | move (hpos : w'.wl.state.pos = nextSlot N w.wl.state.pos)
      (hmove : w'.wl.state.moveCount = nextMove N w.wl.state.moveCount w.wl.state.pos)
      (hmem : ∀ x, w.wl.cfg.startAddr ≤ x →
        x < w.wl.cfg.startAddr + (N + 1) * w.wl.cfg.pageSize →
        w'.drv.mem x = copied w.drv.mem
          (w.wl.cfg.startAddr + nextSlot N w.wl.state.pos * w.wl.cfg.pageSize)
          (w.wl.cfg.startAddr + w.wl.state.pos * w.wl.cfg.pageSize) w.wl.cfg.pageSize x)

lemma nextPage_eq {s : WlState} {v : ℕ} (h : StateOk s v N) : nextPage s = nextSlot N s.pos := by
  have := h.maxPos_eq
  have := h.pos_le
  unfold nextPage nextSlot
  split <;> split <;> omega

lemma slot_bytes_le {p q : ℕ} (page : ℕ) (h : p ≤ q) : p * page + page ≤ (q + 1) * page := by
  rw [Nat.add_mul]
  have := Nat.mul_le_mul_right page h
  omega

/-- Two different pages are apart. -/
lemma slot_disjoint {p q : ℕ} (page : ℕ) (h : p ≠ q) :
    p * page + page ≤ q * page ∨ q * page + page ≤ p * page := by
  rcases Nat.lt_or_gt_of_ne h with h | h
  · left
    calc p * page + page = (p + 1) * page := by rw [Nat.add_mul, Nat.one_mul]
      _ ≤ q * page := Nat.mul_le_mul_right _ h
  · right
    calc q * page + page = (q + 1) * page := by rw [Nat.add_mul, Nat.one_mul]
      _ ≤ p * page := Nat.mul_le_mul_right _ h

lemma retryNextTime_ok {m : WlM Unit} {w' : World} (h : m w = (.ok (), w')) :
    retryNextTime m w = (.ok (), w') := by
  rw [retryNextTime, h]

/-- The part of `updateWL` that a driver error would repeat: the copy and the two records. -/
lemma movePage_ok (hM : Mounted w N) :
    ∃ b m, b.length = w.wl.tempBuff.length ∧
      (retryNextTime do
        drvEraseRange (w.wl.cfg.startAddr + w.wl.state.pos * w.wl.cfg.pageSize) w.wl.cfg.pageSize
        copyPage (w.wl.cfg.startAddr + nextSlot N w.wl.state.pos * w.wl.cfg.pageSize)
          (w.wl.cfg.startAddr + w.wl.state.pos * w.wl.cfg.pageSize)
        writeRecord w.wl.addrState1
        writeRecord w.wl.addrState2) w = (.ok (), w.upd b m) ∧
      (∀ x, x < w.wl.cfg.startAddr + (N + 1) * w.wl.cfg.pageSize →
        m x = copied w.drv.mem
          (w.wl.cfg.startAddr + nextSlot N w.wl.state.pos * w.wl.cfg.pageSize)
          (w.wl.cfg.startAddr + w.wl.state.pos * w.wl.cfg.pageSize) w.wl.cfg.pageSize x) ∧
      (∀ s' : WlState, s'.stored = w.wl.state.stored → s'.pos = w.wl.state.pos + 1 →
        s'.deviceId = w.wl.state.deviceId →
        Area m s' w.wl.cfg.wrSize N w.wl.addrState1 ∧
        Area m s' w.wl.cfg.wrSize N w.wl.addrState2) := by
  obtain ⟨hL, -, hs, ha1, ha2⟩ := hM
  have hN := hL.pages_pos
  have hpos := hs.pos_le
  have hdata := hL.data_le
  have h1 := hL.state1_le
  have h2 := hL.state2_le
  have hcfg := hL.cfg_le
  have hrec := hL.records_le
  have hwr := hL.wrSize_ge
  have hwrb := hL.wrSize_le
  have hblen := hL.buff_length
  have hpage := slot_bytes_le w.wl.cfg.pageSize hpos
  have hnext := slot_bytes_le w.wl.cfg.pageSize (nextSlot_le hpos)
  have hdisj := slot_disjoint w.wl.cfg.pageSize (nextSlot_ne (p := w.wl.state.pos) hN)
  set src := w.wl.cfg.startAddr + nextSlot N w.wl.state.pos * w.wl.cfg.pageSize with hsrc
  set dst := w.wl.cfg.startAddr + w.wl.state.pos * w.wl.cfg.pageSize with hdst
  have hend1 : recordAddr w.wl.addrState1 w.wl.cfg.wrSize (N + 1) ≤
      w.wl.addrState1 + w.wl.stateSize := by
    unfold recordAddr; omega
  have hend2 : recordAddr w.wl.addrState2 w.wl.cfg.wrSize (N + 1) ≤
      w.wl.addrState2 + w.wl.stateSize := by
    unfold recordAddr; omega
  have hrec1 := recordAddr_add_le w.wl.addrState1 w.wl.cfg.wrSize (show w.wl.state.pos < N + 1 by omega)
  have hrec2 := recordAddr_add_le w.wl.addrState2 w.wl.cfg.wrSize (show w.wl.state.pos < N + 1 by omega)
  have hlow1 := le_recordAddr w.wl.addrState1 w.wl.cfg.wrSize w.wl.state.pos
  have hlow2 := le_recordAddr w.wl.addrState2 w.wl.cfg.wrSize w.wl.state.pos
  have hsec : w.drv.secSize ∣ dst := by
    rw [hL.secSize_eq]
    exact Nat.dvd_add hL.start_dvd (Dvd.dvd.mul_left hL.page_dvd _)
  have herase := drvEraseRange_ok (w := w) (a := dst) (n := w.wl.cfg.pageSize) (by omega)
    (hL.secSize_eq ▸ hL.page_dvd) hsec
  obtain ⟨b1, hb1, hcopy⟩ := copyPage_ok (w := w.upd w.wl.tempBuff (w.drv.mem.erase dst w.wl.cfg.pageSize))
    (m := w.drv.mem) (Dvd.dvd.trans hL.buff_dvd hL.page_dvd) hblen
    (by show src + w.wl.cfg.pageSize ≤ w.drv.chipSize; omega)
    (by show dst + w.wl.cfg.pageSize ≤ w.drv.chipSize; omega)
    (by show src + w.wl.cfg.pageSize ≤ dst ∨ dst + w.wl.cfg.pageSize ≤ src; omega) rfl
  simp only [upd_cfg, upd_upd] at hb1 hcopy
  set m1 := copied w.drv.mem src dst w.wl.cfg.pageSize with hm1
  obtain ⟨b2, r1, hb2, hr1, ht1, hw1⟩ := writeRecord_ok (w := w.upd b1 m1)
    (a := w.wl.addrState1) hwr (by rw [upd_tempBuff, hb1]; exact hwrb)
    (by show _ ≤ w.drv.chipSize; simp only [World.upd]; omega)
  simp only [upd_cfg, upd_upd, upd_state, upd_mem, upd_tempBuff] at hb2 hr1 ht1 hw1
  set m2 := m1.program (recordAddr w.wl.addrState1 w.wl.cfg.wrSize w.wl.state.pos) r1 with hm2
  obtain ⟨b3, r2, hb3, hr2, ht2, hw2⟩ := writeRecord_ok (w := w.upd b2 m2)
    (a := w.wl.addrState2) hwr (by rw [upd_tempBuff, hb2, hb1]; exact hwrb)
    (by show _ ≤ w.drv.chipSize; simp only [World.upd]; omega)
  simp only [upd_cfg, upd_upd, upd_state, upd_mem, upd_tempBuff] at hb3 hr2 ht2 hw2
  set m3 := m2.program (recordAddr w.wl.addrState2 w.wl.cfg.wrSize w.wl.state.pos) r2 with hm3
  refine ⟨b3, m3, by rw [hb3, hb2, hb1, hblen], ?_, ?_, ?_⟩
  · apply retryNextTime_ok
    rw [Prog.bind_ok herase, Prog.bind_ok hcopy, Prog.bind_ok hw1]
    exact hw2
  · intro x hx
    rw [hm3, Mem.program_of_not_mem (by rw [hr2]; omega), hm2,
      Mem.program_of_not_mem (by rw [hr1]; omega)]
  · intro s' hst hp hd
    -- the copy lies below both areas, and each record inside its own
    have hbelow : ∀ x, w.wl.addrState1 ≤ x → m1 x = w.drv.mem x := by
      intro x hx
      exact if_neg (by omega)
    constructor
    · have hA : Area m1 w.wl.state w.wl.cfg.wrSize N w.wl.addrState1 :=
        ha1.congr hwr (by omega) (fun x hx _ => hbelow x hx) rfl rfl rfl
      refine (hA.record hwr hpos hr1 ht1 hst hp hd).congr hwr (by omega) ?_ rfl rfl rfl
      intro x hx hx'
      exact Mem.program_of_not_mem (by omega)
    · have hA : Area m2 w.wl.state w.wl.cfg.wrSize N w.wl.addrState2 := by
        refine ha2.congr hwr (by omega) (fun x hx _ => ?_) rfl rfl rfl
        rw [hm2, Mem.program_of_not_mem (by rw [hr1]; omega)]
        exact hbelow x (by omega)
      exact hA.record hwr hpos hr2 ht2 hst hp hd

/-- The areas after the position has moved on. -/
lemma area_advance {m : Mem} {addr : ℕ} (hL : Laid w N) (hs : StateOk w.wl.state w.wl.cfg.version N)
    (haccess : w.wl.state.accessCount = 0)
    (haddr : addr = w.wl.addrState1 ∨ addr = w.wl.addrState2)
    (hrec : ∀ s' : WlState, s'.stored = w.wl.state.stored → s'.pos = w.wl.state.pos + 1 →
      s'.deviceId = w.wl.state.deviceId → Area m s' w.wl.cfg.wrSize N addr) :
    Area (if w.wl.state.pos = N then storedTwice (w.upd w.wl.tempBuff m) (w.wl.state.advance N) else m)
      (w.wl.state.advance N) w.wl.cfg.wrSize N addr := by
  have hwr := hL.wrSize_ge
  have h1 := hL.state1_le
  have hsize := hL.records_le
  by_cases hp : w.wl.state.pos = N
  · rw [if_pos hp]
    have hadv : w.wl.state.advance N = { w.wl.state with
        pos := 0
        moveCount := nextMove N w.wl.state.moveCount w.wl.state.pos
        crc := ({ w.wl.state with
          pos := 0
          moveCount := nextMove N w.wl.state.moveCount w.wl.state.pos } : WlState).crcV2 } := by
      have hslot : nextSlot N w.wl.state.pos = 0 := if_pos hp
      rw [WlState.advance, if_pos hp, hslot]
    have hres : (w.wl.state.advance N).reserved.length = 7 := by
      rw [hadv]
      show w.wl.state.reserved.length = 7
      rw [hs.reserved_eq]
      rfl
    have hstored : (w.wl.state.advance N).stored = w.wl.state.advance N := by
      rw [hadv]
      simp only [WlState.stored, WlState.crcV2, WlState.crcWords, haccess]
    have hpos0 : (w.wl.state.advance N).pos = 0 := by rw [hadv]
    rcases haddr with rfl | rfl
    · have hend : recordAddr w.wl.addrState1 w.wl.cfg.wrSize (N + 1) ≤
          w.wl.addrState1 + w.wl.stateSize := by unfold recordAddr; omega
      refine (Area.fresh (m := m) hres hstored hpos0 hend).congr hwr (by omega) ?_ rfl rfl rfl
      intro x hx hx'
      have hlen := length_encode hres
      unfold stateBytes at hlen hsize
      show (storedTwice (w.upd w.wl.tempBuff m) (w.wl.state.advance N)) x = _
      unfold storedTwice
      rw [Mem.program_of_not_mem, Mem.erase_of_not_mem]
      · rfl
      · show ¬ (w.wl.addrState2 ≤ x ∧ _)
        omega
      · show ¬ (w.wl.addrState2 ≤ x ∧ _)
        omega
    · refine Area.fresh hres hstored hpos0 ?_
      show recordAddr w.wl.addrState2 w.wl.cfg.wrSize (N + 1) ≤ w.wl.addrState2 + w.wl.stateSize
      unfold recordAddr
      omega
  · rw [if_neg hp]
    have hadv : w.wl.state.advance N = { w.wl.state with pos := w.wl.state.pos + 1 } := by
      have hslot : nextSlot N w.wl.state.pos = w.wl.state.pos + 1 := if_neg hp
      have hmove : nextMove N w.wl.state.moveCount w.wl.state.pos = w.wl.state.moveCount :=
        if_neg hp
      rw [WlState.advance, if_neg hp, hslot, hmove]
    rw [hadv]
    exact hrec _ rfl rfl rfl

/-- One run of `updateWL` on a mounted driver succeeds, keeps the driver mounted and does a
data step. -/
lemma updateWL_ok (hM : Mounted w N) :
    ∃ w', updateWL w = (.ok (), w') ∧ Mounted w' N ∧ SameSetup w w' ∧ DataStep w w' N := by
  set count := u32 (w.wl.state.accessCount + 1) with hcount
  have hL := hM.laid
  have hs := hM.state
  unfold updateWL
  rw [Prog.modify_bind, Prog.get_bind]
  by_cases hlt : count < w.wl.state.maxCount
  · rw [if_pos (by exact hlt)]
    exact ⟨w.withState { w.wl.state with accessCount := count }, rfl, hM.counted count,
      SameSetup.withState _ _, .count rfl rfl rfl⟩
  · -- the moves start from the state with nothing counted
    set s₀ : WlState := { w.wl.state with accessCount := 0 } with hs₀
    set w₀ : World := { w with wl := { w.wl with
      state := s₀
      dummyAddr := w.wl.cfg.startAddr + w.wl.state.pos * w.wl.cfg.pageSize } } with hw₀
    have hset : SameSetup w w₀ := by constructor <;> rfl
    have hM₀ : Mounted w₀ N := by
      obtain ⟨-, hinit, hs₀, ha1, ha2⟩ := hM.counted 0
      exact ⟨hL.of_sameSetup hset, hinit, hs₀, ha1, ha2⟩
    obtain ⟨b, m, hb, hmove, hdata, hareas⟩ := movePage_ok hM₀
    have hset₁ : SameSetup w₀ (w₀.upd b m) := SameSetup.upd hb
    have hadv := advancePos_ok (hM₀.laid.of_sameSetup hset₁) hM₀.state
    have hnext : nextPage w.wl.state = nextSlot N w₀.wl.state.pos := nextPage_eq hs
    rw [if_neg (by exact hlt), Prog.modify_bind]
    set m' := if s₀.pos = N then storedTwice (w₀.upd b m) (s₀.advance N) else m with hm'
    have hset₂ : SameSetup w₀ ((w₀.withState (s₀.advance N)).upd b m') :=
      (SameSetup.withState _ _).trans (SameSetup.upd hb)
    refine ⟨(w₀.withState (s₀.advance N)).upd b m', ?_, ?_, hset.trans hset₂, ?_⟩
    · show (retryNextTime _ >>= fun _ => advancePos) w₀ = _
      refine (Prog.bind_ok (a := ()) ?_).trans hadv
      rw [← hmove, ← hnext]
      rfl
    · refine ⟨hM₀.laid.of_sameSetup hset₂, hM.initialized, hM₀.state.advance, ?_, ?_⟩
      · exact area_advance hM₀.laid hM₀.state rfl (.inl rfl) fun s' h1 h2 h3 => (hareas s' h1 h2 h3).1
      · exact area_advance hM₀.laid hM₀.state rfl (.inr rfl) fun s' h1 h2 h3 => (hareas s' h1 h2 h3).2
    · have hpos : (s₀.advance N).pos = nextSlot N s₀.pos := by
        unfold WlState.advance; split <;> rfl
      have hmv : (s₀.advance N).moveCount = nextMove N s₀.moveCount s₀.pos := by
        unfold WlState.advance; split <;> rfl
      refine .move hpos hmv fun x hx hx' => ?_
      rw [← hdata x hx']
      show m' x = m x
      rw [hm']
      split
      · have h1 := hL.data_le
        have h2 := hL.state1_le
        unfold storedTwice
        rw [Mem.program_of_not_mem, Mem.erase_of_not_mem, Mem.program_of_not_mem,
          Mem.erase_of_not_mem]
        · rfl
        · show ¬ (w.wl.addrState1 ≤ x ∧ _)
          omega
        · show ¬ (w.wl.addrState1 ≤ x ∧ _)
          omega
        · show ¬ (w.wl.addrState2 ≤ x ∧ _)
          omega
        · show ¬ (w.wl.addrState2 ≤ x ∧ _)
          omega
      · rfl

end EspIdf.WearLevelling
