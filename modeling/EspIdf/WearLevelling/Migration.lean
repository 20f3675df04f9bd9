/-
# Migrating a memory of the first format

The first format keeps its checksum where the current one has the device id, and a record of
any bytes for each position that the dummy page has left.  `updateV1_V2` counts these records
and writes records of the current format in their place, one more than it has counted; `init`
then counts again with `recoverPos`.  The first format's state is shorter than the current
one, and the records that lie in the bytes of the longer state are not counted.
-/
import EspIdf.WearLevelling.Refinement

namespace EspIdf.WearLevelling

open EspIdf.Lib

variable {w : World} {N v1Bytes pos moveCount lead f : ℕ}

/-! ### Images of the first format -/

/-- A stored state of the first format, which is none of the current format. -/
structure StateV1 (s : WlState) (N moveCount : ℕ) : Prop where
  version_eq : s.version = 1
  crc_eq : s.crcV1 = s.deviceId
  not_v2 : s.crcV2 ≠ s.crc
  maxPos_eq : s.maxPos = N + 1
  moveCount_eq : s.moveCount = moveCount

instance (s : WlState) (N moveCount : ℕ) : Decidable (StateV1 s N moveCount) :=
  decidable_of_iff (s.version = 1 ∧ s.crcV1 = s.deviceId ∧ s.crcV2 ≠ s.crc ∧ s.maxPos = N + 1 ∧
    s.moveCount = moveCount)
    ⟨fun ⟨h1, h2, h3, h4, h5⟩ => ⟨h1, h2, h3, h4, h5⟩,
      fun ⟨h1, h2, h3, h4, h5⟩ => ⟨h1, h2, h3, h4, h5⟩⟩

/-- The state that the memory holds at `addr`. -/
def storedAt (w : World) (addr : ℕ) : WlState := WlState.decode (w.drv.mem.read addr stateBytes)

/-- The memory of a configured driver as a driver of the first format has left it in round
`moveCount` with the dummy page at `pos`: two states of `v1Bytes`, each followed by one record
for each position that the dummy has left.  A record does not start with `0xff`. -/
structure ImageV1 (w : World) (N v1Bytes pos moveCount : ℕ) : Prop where
  laid : Laid w N
  configured : w.wl.configured = true
  pos_le : pos ≤ N
  moveCount_lt : moveCount < N
  state1 : StateV1 (storedAt w w.wl.addrState1) N moveCount
  state2 : StateV1 (storedAt w w.wl.addrState2) N moveCount
  same : (storedAt w w.wl.addrState1).deviceId = (storedAt w w.wl.addrState2).deviceId
  record_ne : ∀ i < pos, w.drv.mem (w.wl.addrState1 + v1Bytes + i * w.wl.cfg.wrSize) ≠ 0xff#8
  erased : ∀ x, w.wl.addrState1 + v1Bytes + pos * w.wl.cfg.wrSize ≤ x →
    x < w.wl.addrState1 + w.wl.stateSize → w.drv.mem x = 0xff#8

/-- The logical contents for a dummy page at `pos` in round `moveCount`. -/
def viewAt (w : World) (pos moveCount a : ℕ) : Byte :=
  view (w.withState { w.wl.state with pos := pos, moveCount := moveCount }) a

/-- Of the records of the first format the scan sees those behind the current format's state. -/
lemma ImageV1.found (h : ImageV1 w N v1Bytes pos moveCount)
    (hlead : v1Bytes + lead * w.wl.cfg.wrSize = stateBytes) :
    (∀ j < pos - lead,
      w.drv.mem (recordAddr w.wl.addrState1 w.wl.cfg.wrSize j) ≠ 0xff#8) ∧
    w.drv.mem (recordAddr w.wl.addrState1 w.wl.cfg.wrSize (pos - lead)) = 0xff#8 := by
  have haddr : ∀ j, recordAddr w.wl.addrState1 w.wl.cfg.wrSize j =
      w.wl.addrState1 + v1Bytes + (j + lead) * w.wl.cfg.wrSize := by
    intro j
    unfold recordAddr
    rw [Nat.add_mul]
    omega
  refine ⟨fun j hj => ?_, h.erased _ ?_ ?_⟩
  · rw [haddr]
    exact h.record_ne _ (by omega)
  · rw [haddr]
    exact Nat.add_le_add_left (Nat.mul_le_mul_right _ (by omega)) _
  · have hpos := h.pos_le
    have hrec := h.laid.records_le
    have hwr := h.laid.wrSize_ge
    have hadd := recordAddr_add_le w.wl.addrState1 w.wl.cfg.wrSize
      (show pos - lead < N + 1 by omega)
    have hend : recordAddr w.wl.addrState1 w.wl.cfg.wrSize (N + 1) ≤
        w.wl.addrState1 + w.wl.stateSize := by unfold recordAddr; omega
    omega

/-! ### Counting and writing records -/

/-- The scan stops at the first byte `0xff`. -/
lemma scanV1_ok (hL : Laid w N) (hf : f ≤ N)
    (hne : ∀ j < f, w.drv.mem (recordAddr w.wl.addrState1 w.wl.cfg.wrSize j) ≠ 0xff#8)
    (hff : w.drv.mem (recordAddr w.wl.addrState1 w.wl.cfg.wrSize f) = 0xff#8) :
    ∀ left i p, i ≤ f → left + i = N + 1 → scanV1 left i p w = (.ok f, w) := by
  have h1 := hL.state1_le
  have h2 := hL.state2_le
  have h3 := hL.cfg_le
  have hrec := hL.records_le
  have hwr := hL.wrSize_ge
  intro left
  induction left with
  | zero => intro i p hi hleft; omega
  | succ left ih =>
    intro i p hi hleft
    have hadd := recordAddr_add_le w.wl.addrState1 w.wl.cfg.wrSize (show i < N + 1 by omega)
    have hend : recordAddr w.wl.addrState1 w.wl.cfg.wrSize (N + 1) ≤
        w.wl.addrState1 + w.wl.stateSize := by unfold recordAddr; omega
    have hread : drvRead (recordAddr w.wl.addrState1 w.wl.cfg.wrSize i) 1 w =
        (.ok [w.drv.mem (recordAddr w.wl.addrState1 w.wl.cfg.wrSize i)], w) :=
      drvRead_ok (by omega)
    rw [scanV1, Prog.get_bind, Prog.bind_ok hread]
    rcases Nat.lt_or_eq_of_le hi with hlt | rfl
    · rw [if_neg (by simpa using hne i hlt)]
      exact ih (i + 1) i hlt (by omega)
    · rw [if_pos (by rw [hff])]
      rfl

/-- The records `0, …, f` are written behind an erased state area. -/
lemma writeRecords_ok (hL : Laid w N) {addr : ℕ} (hf : f ≤ N)
    (hin : addr + w.wl.stateSize ≤ w.drv.chipSize)
    (hR : Records w.drv.mem w.wl.state.deviceId 0 w.wl.cfg.wrSize N addr) :
    ∃ b m, b.length = w.wl.tempBuff.length ∧ writeRecords addr f w = (.ok (), w.upd b m) ∧
      Records m w.wl.state.deviceId (f + 1) w.wl.cfg.wrSize N addr ∧
      ∀ x, x < addr ∨ addr + w.wl.stateSize ≤ x → m x = w.drv.mem x := by
  have hwr := hL.wrSize_ge
  have hbuff : w.wl.cfg.wrSize ≤ w.wl.tempBuff.length := by
    rw [hL.buff_length]
    exact hL.wrSize_le
  have hrec := hL.records_le
  have hend : recordAddr addr w.wl.cfg.wrSize (N + 1) ≤ addr + w.wl.stateSize := by
    unfold recordAddr
    omega
  set b₀ := overlay w.wl.tempBuff (List.replicate w.wl.cfg.wrSize 0#8) with hb₀
  -- after `i` passes the first `i` records are written
  obtain ⟨w', hloop, b, m, rfl, hb, hm, hout⟩ := Prog.upTo_returns (n := f + 1)
    (f := fun i => (do
      fillOkBuff i
      let w ← Prog.get
      drvWrite (recordAddr addr w.wl.cfg.wrSize i) (w.wl.tempBuff.take w.wl.cfg.wrSize) :
        WlM Unit))
    (s := w.upd b₀ w.drv.mem)
    (I := fun i w' => ∃ b m, w' = w.upd b m ∧ b.length = w.wl.tempBuff.length ∧
      Records m w.wl.state.deviceId i w.wl.cfg.wrSize N addr ∧
      ∀ x, x < addr ∨ addr + w.wl.stateSize ≤ x → m x = w.drv.mem x)
    (by
      rintro i hi - ⟨b, m, rfl, hb, hm, hout⟩
      have hadd := recordAddr_add_le addr w.wl.cfg.wrSize (show i < N + 1 by omega)
      have hlow := le_recordAddr addr w.wl.cfg.wrSize i
      obtain ⟨b', r, hb', hr, htake, hrun⟩ := programRecord_ok (w := w.upd b m) (a := addr) i
        (by rw [upd_cfg]; exact hwr) (by rw [upd_cfg, upd_tempBuff, hb]; exact hbuff)
        (by rw [upd_cfg, upd_chipSize]; omega)
      refine ⟨_, hrun, b', _, rfl, hb'.trans hb, hm.record hwr (by omega) hr htake, ?_⟩
      intro x hx
      rw [upd_cfg] at hr
      rw [upd_mem, upd_cfg, Mem.program_of_not_mem (by omega)]
      exact hout x hx)
    ⟨b₀, w.drv.mem, rfl, length_overlay (by simpa using hbuff), hR, fun _ _ => rfl⟩
  refine ⟨b, m, hb, ?_, hm, hout⟩
  unfold writeRecords
  rw [Prog.modify_bind]
  exact hloop

/-- Behind a state that has just been stored there are no records. -/
lemma records_stored {m : Mem} {bs : List Byte} {d size wrSize addr : ℕ}
    (hlen : bs.length = stateBytes) (hsize : recordAddr addr wrSize (N + 1) ≤ addr + size) :
    Records ((m.erase addr size).program addr bs) d 0 wrSize N addr where
  record_eq := by
    intro i hi
    omega
  erased := by
    intro x h1 h2
    have hle := le_recordAddr addr wrSize 0
    rw [Mem.program_of_not_mem (by omega)]
    exact Mem.erase_of_mem (by omega)

/-! ### The migration -/

/-- The state that `updateV1_V2` stores. -/
def WlState.migrated (s : WlState) (random : ℕ) : WlState :=
  let s' := { s with
    version := 2, pos := 0, deviceId := u32 random, reserved := List.replicate 7 0 }
  { s' with crc := s'.crcV2 }

/-- Storing a state and its records. -/
lemma storeMigrated_ok (hL : Laid w N) (addr : ℕ) (hres : w.wl.state.reserved.length = 7)
    (hf : f ≤ N) (hin : addr + w.wl.stateSize ≤ w.drv.chipSize)
    (hd : w.wl.cfg.sectorSize ∣ addr) :
    ∃ b m₁ m, b.length = w.wl.tempBuff.length ∧
      storeState addr w = (.ok (), w.upd w.wl.tempBuff m₁) ∧
      writeRecords addr f (w.upd w.wl.tempBuff m₁) = (.ok (), w.upd b m) ∧
      Records m w.wl.state.deviceId (f + 1) w.wl.cfg.wrSize N addr ∧
      ∀ x, x < addr ∨ addr + w.wl.stateSize ≤ x → m x = w.drv.mem x := by
  have hrec := hL.records_le
  have hend : recordAddr addr w.wl.cfg.wrSize (N + 1) ≤ addr + w.wl.stateSize := by
    unfold recordAddr
    omega
  have hlen := length_encode hres
  have hstore := storeState_ok hres hin (by omega) (hL.secSize_eq ▸ hL.state_dvd)
    (hL.secSize_eq ▸ hd)
  set m₁ := (w.drv.mem.erase addr w.wl.stateSize).program addr w.wl.state.encode with hm₁
  obtain ⟨b, m, hb, hrun, hR, hout⟩ := writeRecords_ok (w := w.upd w.wl.tempBuff m₁)
    (hL.of_sameSetup (SameSetup.upd rfl)) hf hin (records_stored hlen hend)
  refine ⟨b, m₁, m, hb, hstore, hrun, hR, fun x hx => ?_⟩
  have hsize : stateBytes ≤ w.wl.stateSize := by omega
  rw [hout x hx, upd_mem, hm₁, Mem.program_of_not_mem (by omega), Mem.erase_of_not_mem (by omega)]

/-- `updateV1_V2` writes one record more than it has counted. -/
lemma updateV1V2_ok (random : ℕ) (hL : Laid w N)
    (h1 : StateV1 w.wl.state N moveCount) (h2 : StateV1 (storedAt w w.wl.addrState2) N moveCount)
    (hsame : w.wl.state.deviceId = (storedAt w w.wl.addrState2).deviceId) (hf : f ≤ N)
    (hne : ∀ j < f, w.drv.mem (recordAddr w.wl.addrState1 w.wl.cfg.wrSize j) ≠ 0xff#8)
    (hff : w.drv.mem (recordAddr w.wl.addrState1 w.wl.cfg.wrSize f) = 0xff#8) :
    ∃ b m, b.length = w.wl.tempBuff.length ∧
      updateV1V2 random w =
        (.ok (), (w.withState { w.wl.state.migrated random with pos := f }).upd b m) ∧
      Records m (u32 random) (f + 1) w.wl.cfg.wrSize N w.wl.addrState1 ∧
      ∀ x < w.wl.addrState1, m x = w.drv.mem x := by
  have hs1 := hL.state1_le
  have hs2 := hL.state2_le
  have hs3 := hL.cfg_le
  have hrec := hL.records_le
  set v := w.withState (w.wl.state.migrated random) with hv
  have hLv : Laid v N := hL.of_sameSetup (SameSetup.withState w _)
  have hres : v.wl.state.reserved.length = 7 := rfl
  obtain ⟨b₁, n₁, m₁, hb₁, hstore₁, hrun₁, hR₁, hout₁⟩ := storeMigrated_ok hLv
    w.wl.addrState1 (f := f) hres hf (by change _ ≤ w.drv.chipSize; change _ + w.wl.stateSize ≤ _; omega) hL.addr1_dvd
  have hL₁ : Laid (v.upd b₁ m₁) N := hLv.of_sameSetup (SameSetup.upd hb₁)
  obtain ⟨b₂, n₂, m₂, hb₂, hstore₂, hrun₂, hR₂, hout₂⟩ := storeMigrated_ok hL₁
    w.wl.addrState2 (f := f) hres hf (by change _ ≤ w.drv.chipSize; change _ + w.wl.stateSize ≤ _; omega) hL.addr2_dvd
  have hread : drvRead w.wl.addrState2 stateBytes w =
      (.ok (w.drv.mem.read w.wl.addrState2 stateBytes), w) := drvRead_ok (by omega)
  have hscan : scanV1 w.wl.state.maxPos 0 0 w = (.ok f, w) := by
    rw [h1.maxPos_eq]
    exact scanV1_ok hL hf hne hff _ 0 0 (Nat.zero_le _) rfl
  refine ⟨b₂, m₂, hb₂.trans hb₁, ?_, ?_, ?_⟩
  · unfold updateV1V2 sealState
    rw [Prog.get_bind, Prog.bind_ok hread]
    change (if w.wl.state.crcV1 = w.wl.state.deviceId ∧
        (storedAt w w.wl.addrState2).crcV1 = (storedAt w w.wl.addrState2).deviceId ∧
        w.wl.state.deviceId = (storedAt w w.wl.addrState2).deviceId ∧
        w.wl.state.version = 1 ∧ (storedAt w w.wl.addrState2).version = 1 then _ else _ : WlM Unit) w = _
    rw [if_pos ⟨h1.crc_eq, h2.crc_eq, hsame, h1.version_eq, h2.version_eq⟩, Prog.bind_ok hscan,
      if_neg (by rw [h1.maxPos_eq]; omega), Prog.modify_bind, Prog.modify_bind]
    change (storeState w.wl.addrState1 >>= _) v = _
    rw [Prog.bind_ok hstore₁, Prog.bind_ok hrun₁]
    rw [Prog.bind_ok hstore₂, Prog.bind_ok hrun₂]
    rfl
  · exact hR₁.congr hL.wrSize_ge (by omega) fun x hx hx' => hout₂ x (.inl (by
      have : recordAddr w.wl.addrState1 w.wl.cfg.wrSize (N + 1) ≤
        w.wl.addrState1 + w.wl.stateSize := by unfold recordAddr; omega
      change x < recordAddr w.wl.addrState1 w.wl.cfg.wrSize (N + 1) at hx'
      omega))
  · intro x hx
    rw [hout₂ x (.inl (by omega)), upd_mem, hout₁ x (.inl hx)]
    rfl

/-- `init` counts the records again and finds the one that was written too much, unless it is the
last one. -/
lemma init_migrates (h : ImageV1 w N v1Bytes pos moveCount)
    (hlead : v1Bytes + lead * w.wl.cfg.wrSize = stateBytes) (random : ℕ) :
    ∃ w', init random w = (.ok (), w') ∧ SameSetup w w' ∧
      w'.wl.state.pos = min (pos - lead + 1) N ∧ w'.wl.state.moveCount = moveCount ∧
      ∀ x < w.wl.addrState1, w'.drv.mem x = w.drv.mem x := by
  have hL := h.laid
  have hpos := h.pos_le
  have hs1 := hL.state1_le
  have hs2 := hL.state2_le
  have hs3 := hL.cfg_le
  have hrec := hL.records_le
  obtain ⟨hne, hff⟩ := h.found hlead
  set s₁ := storedAt w w.wl.addrState1 with hs₁
  set s₂ := storedAt w w.wl.addrState2 with hs₂
  set w₁ : World := { w with wl := { w.wl with initialized := false } } with hw₁
  set w₂ : World := w₁.withState s₁ with hw₂
  have hL₂ : Laid w₂ N := hL.of_sameSetup (by constructor <;> rfl)
  have hstate : readState w.wl.addrState1 w₁ = (.ok (), w₂) := by
    unfold readState
    rw [drvRead_ok (by change _ ≤ w.drv.chipSize; omega)]
    rfl
  have hread : drvRead w.wl.addrState2 stateBytes w₂ =
      (.ok (w.drv.mem.read w.wl.addrState2 stateBytes), w₂) :=
    drvRead_ok (by change _ ≤ w.drv.chipSize; omega)
  obtain ⟨b, m, hb, hupdate, hR, hout⟩ := updateV1V2_ok (w := w₂) random hL₂ h.state1 h.state2
    h.same (show pos - lead ≤ N by omega) hne hff
  set w₃ := (w₂.withState { w₂.wl.state.migrated random with pos := pos - lead }).upd b m with hw₃
  have hL₃ : Laid w₃ N := hL₂.of_sameSetup (by constructor <;> first | rfl | exact hb)
  obtain ⟨b', hb', hrecover⟩ := recoverPos_records (w := w₃) (d := u32 random)
    hL₃ h.state1.maxPos_eq rfl (by omega) hR
  set w₄ := (w₃.withState { w₃.wl.state with pos := min (pos - lead + 1) N }).upd b' m with hw₄
  have hfrom : initFrom random s₁ s₂ w₂ = (.ok (), w₄) := by
    unfold initFrom
    rw [if_neg (fun h' => h.state1.not_v2 h'.1), if_pos ⟨h.state1.not_v2, h.state2.not_v2⟩]
    unfold initNew
    rw [hupdate]
    exact hrecover
  refine ⟨{ w₄ with wl := { w₄.wl with initialized := true } }, ?_, ?_, rfl,
    h.state1.moveCount_eq, hout⟩
  · unfold init
    rw [Prog.get_bind, if_pos h.configured, Prog.modify_bind]
    change (readState w.wl.addrState1 >>= _) w₁ = _
    rw [Prog.bind_ok hstate, Prog.get_bind, Prog.bind_ok hread]
    change (initFrom random s₁ s₂ >>= _) w₂ = _
    rw [Prog.bind_ok hfrom]
    rfl
  · constructor <;> first | rfl | exact hb'.trans hb

/-- With the position and the round of the first format the logical contents are the same. -/
lemma view_eq_viewAt {w' : World} (hL : Laid w N) (hset : SameSetup w w')
    (hpos : w'.wl.state.pos = pos) (hmove : w'.wl.state.moveCount = moveCount)
    (hm : moveCount < N) (hmem : ∀ x < w.wl.addrState1, w'.drv.mem x = w.drv.mem x) (a : ℕ) :
    view w' a = viewAt w pos moveCount a := by
  have haddr : calcAddr w'.wl a =
      calcAddr (w.withState { w.wl.state with pos := pos, moveCount := moveCount }).wl a := by
    unfold calcAddr
    rw [hset.flashSize, hset.cfg, hpos, hmove]
    rfl
  have hlt := calcAddr_lt (hL.of_sameSetup hset) (by rwa [hmove]) a
  have hdata := hL.data_le
  rw [hset.cfg] at hlt
  unfold viewAt view
  rw [← haddr, hset.cfg]
  exact hmem _ (by omega)

/-- Mounting a memory of the first format succeeds, and keeps the position and the round of the
dummy page and with them the logical contents, exactly when the record that is written too much
makes up for what the scan does not count: where it counts all records only with the dummy in
the last position; where the current state covers one record, as soon as there is one; where it
covers more, only with the dummy in position 1. -/
theorem init_keeps_v1_iff (h : ImageV1 w N v1Bytes pos moveCount)
    (hlead : v1Bytes + lead * w.wl.cfg.wrSize = stateBytes) (random : ℕ) :
    (∃ w', init random w = (.ok (), w') ∧ w'.wl.state.pos = pos ∧
      w'.wl.state.moveCount = moveCount ∧
      ∀ a < w.wl.flashSize, view w' a = viewAt w pos moveCount a) ↔
    (lead = 0 ∧ pos = N) ∨ (lead = 1 ∧ pos ≠ 0) ∨ (2 ≤ lead ∧ pos = 1) := by
  have hpos := h.pos_le
  have hN := h.laid.pages_pos
  obtain ⟨w₁, hrun, hset, hp, hmove, hmem⟩ := init_migrates h hlead random
  have hiff : min (pos - lead + 1) N = pos ↔
      (lead = 0 ∧ pos = N) ∨ (lead = 1 ∧ pos ≠ 0) ∨ (2 ≤ lead ∧ pos = 1) := by
    omega
  rw [← hiff]
  constructor
  · rintro ⟨w', hrun', hpos', -, -⟩
    rw [hrun] at hrun'
    obtain rfl : w₁ = w' := (Prod.mk.inj hrun').2
    rw [← hp, hpos']
  · intro heq
    exact ⟨w₁, hrun, hp.trans heq, hmove, fun a _ =>
      view_eq_viewAt h.laid hset (hp.trans heq) hmove h.moveCount_lt hmem a⟩

/-- A stored state of the first format for five positions: its words and their checksum. -/
def storedV1 : List Byte :=
  let words := [0, 5, 0, 0, 4, 64, 1].flatMap le32
  words ++ le32 (wlCrc words)

/-- A memory of the first format with the dummy page at position 0, and a byte in the page
behind it. -/
def memoryV1 : Mem :=
  ((Mem.program (fun _ => 0xff#8) 64 [0x00#8]).program 320 storedV1).program 640 storedV1

/-- A driver configured for this memory. -/
def configuredV1 : World :=
  (config (configWith 16) (fun _ => 0#8) { erasedWorld with
    drv := { erasedWorld.drv with mem := memoryV1 } }).2

/-- No record has been written, wherever the state ends. -/
lemma imageV1_new {n : ℕ} (h32 : 32 ≤ n) (h64 : n ≤ 64) : ImageV1 configuredV1 4 n 0 0 := by
  have hgood : GoodConfig (configWith 16) { erasedWorld.drv with mem := memoryV1 } := by
    constructor <;> decide +kernel
  have hconf : config (configWith 16) (fun _ => 0#8) { erasedWorld with
      drv := { erasedWorld.drv with mem := memoryV1 } } = (.ok (), configuredV1) :=
    Prod.ext (by decide +kernel) (by rw [configuredV1])
  have herased : ∀ x < 640, 352 ≤ x → configuredV1.drv.mem x = 0xff#8 := by decide +kernel
  have haddr : configuredV1.wl.addrState1 = 320 := by decide +kernel
  have hsize : configuredV1.wl.stateSize = 320 := by decide +kernel
  exact {
    laid := config_laid hgood hconf
    configured := by decide +kernel
    pos_le := by decide
    moveCount_lt := by decide
    state1 := by decide +kernel
    state2 := by decide +kernel
    same := by decide +kernel
    record_ne := by omega
    erased := fun x hx hx' => herased x (by omega) (by omega) }

/-- The position of this memory is not kept, and its first byte is lost. -/
theorem migrated_new :
    ImageV1 configuredV1 4 64 0 0 ∧ (init 7 configuredV1).1 = .ok () ∧
      (init 7 configuredV1).2.wl.state.pos = 1 ∧ viewAt configuredV1 0 0 0 = 0x00#8 ∧
      view (init 7 configuredV1).2 0 = 0xff#8 :=
  ⟨imageV1_new (by decide) (by decide), by decide +kernel, by decide +kernel, by decide +kernel,
    by decide +kernel⟩

/-- The migration of this memory, with the state of 32 bytes of the first format. -/
theorem init_keeps_v1_iff_new :
    (∃ w', init 7 configuredV1 = (.ok (), w') ∧ w'.wl.state.pos = 0 ∧
      w'.wl.state.moveCount = 0 ∧
      ∀ a < configuredV1.wl.flashSize, view w' a = viewAt configuredV1 0 0 a) ↔
    (2 = 0 ∧ 0 = 4) ∨ (2 = 1 ∧ 0 ≠ 0) ∨ (2 ≤ 2 ∧ 0 = 1) :=
  init_keeps_v1_iff (imageV1_new (n := 32) (by decide) (by decide)) (by decide +kernel) 7

end EspIdf.WearLevelling
