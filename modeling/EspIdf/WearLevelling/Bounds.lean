/-
# Accesses stay inside the partition

`wl_mount` lays the data pages, the two state areas and the configuration one behind the other
inside the partition.  Every access that mounting, moving the dummy page and reading and writing
ask the driver for lies inside it, except for one loop: the copy of the position records from
one state area to the other runs over `wr_size` times as many records as there are.
-/
import EspIdf.WearLevelling.Refinement

namespace EspIdf.WearLevelling

open EspIdf.Lib

/-- The configuration that `wl_mount` builds for a partition of `size` bytes. -/
def mountConfig (size : ℕ) : WlConfig where
  startAddr := 0
  fullMemSize := size
  pageSize := 4096
  sectorSize := 4096
  updaterate := 16
  wrSize := 16
  version := 2
  tempBuffSize := 32
  crc := 0

/-- The data pages with the dummy page, the state areas and the configuration lie one behind the
other inside the memory of the configuration. -/
structure LaidInside (w : World) : Prop where
  data_le : w.wl.cfg.startAddr + (w.wl.flashSize + w.wl.cfg.pageSize) ≤ w.wl.addrState1
  state1_le : w.wl.addrState1 + w.wl.stateSize ≤ w.wl.addrState2
  state2_le : w.wl.addrState2 + w.wl.stateSize ≤ w.wl.addrCfg
  cfg_le : w.wl.addrCfg + w.wl.cfgSize ≤ w.wl.cfg.startAddr + w.wl.cfg.fullMemSize

/-- An object that has been configured for a partition of `size` bytes and `N` logical pages, and
that has not asked for an access outside it. -/
structure Inside (size N : ℕ) (b : Bool) (w : World) : Prop where
  chipSize_eq : w.drv.chipSize = size
  secSize_eq : w.drv.secSize = 4096
  strayed_eq : w.drv.strayed = false
  configured_eq : w.wl.configured = true
  initialized_eq : w.wl.initialized = b
  startAddr_eq : w.wl.cfg.startAddr = 0
  fullMemSize_eq : w.wl.cfg.fullMemSize = size
  pageSize_eq : w.wl.cfg.pageSize = 4096
  sectorSize_eq : w.wl.cfg.sectorSize = 4096
  wrSize_eq : w.wl.cfg.wrSize = 16
  version_eq : w.wl.cfg.version = 2
  tempBuffSize_eq : w.wl.cfg.tempBuffSize = 32
  pages_pos : 0 < N
  flashSize_eq : w.wl.flashSize = N * 4096
  data_le : (N + 1) * 4096 ≤ w.wl.addrState1
  stateSize_eq : w.wl.stateSize = stateSizeOf (mountConfig size)
  stateSize_ge : 4096 ≤ w.wl.stateSize
  stateSize_dvd : 4096 ∣ w.wl.stateSize
  records_le : stateBytes + (N + 1) * 16 ≤ w.wl.stateSize
  state2_eq : w.wl.addrState2 = w.wl.addrState1 + w.wl.stateSize
  addrCfg_eq : w.wl.addrCfg = w.wl.addrState2 + w.wl.stateSize
  cfgSize_eq : w.wl.cfgSize = 4096
  end_eq : w.wl.addrCfg + 4096 = size

/-- The number of logical pages of a partition of `size` bytes. -/
def pagesOf (size : ℕ) : ℕ := flashSizeOf (mountConfig size) / 4096

/-! ### The layout -/

/-- The sizes and addresses that `config` computes for an accepted partition. -/
lemma mountConfig_sizes {size : ℕ} (hsize : size < 2 ^ 32)
    (hne : flashSizeOf (mountConfig size) ≠ 0) (hlt : flashSizeOf (mountConfig size) < 2 ^ 31) :
    ∃ N st, 0 < N ∧ 4096 ≤ st ∧ 4096 ∣ st ∧ stateBytes + (N + 1) * 16 ≤ st ∧
      (N + 1) * 4096 + 2 * st + 4096 ≤ size ∧ flashSizeOf (mountConfig size) = N * 4096 ∧
      stateSizeOf (mountConfig size) = st ∧ cfgSizeOf (mountConfig size) = 4096 := by
  have hrec : recordsSizeOf (mountConfig size) = 64 + size / 4096 * 16 := by
    simp only [recordsSizeOf, mountConfig, u32, stateBytes]
    omega
  have hcfg : cfgSizeOf (mountConfig size) = 4096 :=
    (by decide : u32 (u32 (configBytes + 4096 - 1) / 4096 * 4096) = 4096)
  have hst : stateSizeOf (mountConfig size) =
      if 4096 < 64 + size / 4096 * 16 then (64 + size / 4096 * 16 + 4095) / 4096 * 4096
      else 4096 := by
    rw [stateSizeOf, hrec]
    change (if 4096 < 64 + size / 4096 * 16 then
      u32 (u32 (64 + size / 4096 * 16 + 4096 - 1) / 4096 * 4096) else 4096) = _
    unfold u32
    split_ifs <;> omega
  have hfl : flashSizeOf (mountConfig size) = u32 (u32Sub (u32Sub (u32Sub size
      (u32 (stateSizeOf (mountConfig size) * 2))) 4096 / 4096) 1 * 4096) := by
    rw [flashSizeOf, hcfg]
    rfl
  set st := stateSizeOf (mountConfig size) with hstv
  set f := flashSizeOf (mountConfig size) with hf
  clear_value st f
  have hbounds : 4096 ≤ st ∧ 64 + size / 4096 * 16 ≤ st ∧ st < 2 ^ 25 := by
    split at hst <;> omega
  have hdvd : 4096 ∣ st := by
    split at hst <;> omega
  -- areas that do not fit leave a difference that wraps around and is refused
  have hfit : 2 * st + 4096 ≤ size := by
    by_contra hwrap
    have hdiff : u32Sub (u32Sub size (u32 (st * 2))) 4096 = 2 ^ 32 + size - (2 * st + 4096) := by
      simp only [u32, u32Sub]
      omega
    rw [hdiff] at hfl
    simp only [u32, u32Sub] at hfl
    omega
  have hdiff : u32Sub (u32Sub size (u32 (st * 2))) 4096 = size - (2 * st + 4096) := by
    simp only [u32, u32Sub]
    omega
  rw [hdiff] at hfl
  set d := size - (2 * st + 4096) with hd
  have hpos : 2 ≤ d / 4096 := by
    by_contra hlow
    simp only [u32, u32Sub] at hfl
    omega
  have hval : f = (d / 4096 - 1) * 4096 := by
    rw [hfl, u32Sub_of_le (by omega) (by omega)]
    exact u32_of_lt (by omega)
  refine ⟨d / 4096 - 1, st, by omega, hbounds.1, hdvd, ?_, by omega, hval, rfl, hcfg⟩
  unfold stateBytes
  omega

/-- An accepted configuration lays the partition out. -/
lemma config_inside {size : ℕ} (hsize : size < 2 ^ 32) {w w' : World} {mallocd : ℕ → Byte}
    (hchip : w.drv.chipSize = size) (hsec : w.drv.secSize = 4096) (hs : w.drv.strayed = false)
    (h : config (mountConfig size) mallocd w = (.ok (), w')) :
    Inside size (pagesOf size) w.wl.initialized w' := by
  obtain ⟨-, -, -, hne, hlt, rfl⟩ := config_cases h
  obtain ⟨N, st, hN, hst, hdvd, hrec, hfit, hfl, hstv, hcfg⟩ := mountConfig_sizes hsize hne hlt
  have hpages : pagesOf size = N := by
    rw [pagesOf, hfl, Nat.mul_div_cancel _ (by decide)]
  have hend : u32 ((mountConfig size).startAddr + (mountConfig size).fullMemSize) = size := by
    simp only [mountConfig, u32, Nat.zero_add]
    exact Nat.mod_eq_of_lt hsize
  rw [hpages]
  constructor <;> try simp only [hend, hstv, hcfg, hfl]
  case chipSize_eq => exact hchip
  case secSize_eq => exact hsec
  case strayed_eq => exact hs
  case state2_eq => simp only [u32, u32Sub]; omega
  case addrCfg_eq => simp only [u32Sub]; omega
  case end_eq => simp only [u32Sub]; omega
  case data_le => simp only [u32, u32Sub]; omega
  all_goals first | rfl | assumption

lemma Inside.laid {size N : ℕ} {b : Bool} {w : World} (h : Inside size N b w) :
    LaidInside w := by
  obtain ⟨-, -, -, -, -, h1, h2, h3, -, -, -, -, -, h4, h5, -, -, -, -, h6, h7, h8, h9⟩ := h
  constructor <;> omega

lemma Inside.withState {size N : ℕ} {b : Bool} {w : World} (h : Inside size N b w) (s : WlState) :
    Inside size N b (w.withState s) := by
  obtain ⟨h1, h2, h3, h4, h5, h6, h7, h8, h9, h10, h11, h12, h13, h14, h15, h16, h17, h18, h19,
    h20, h21, h22, h23⟩ := h
  constructor <;> assumption

/-! ### Driver calls -/

section Calls

variable {size N : ℕ} {b : Bool} {S T : WlState → Mem → Prop} {E : EspErr → World → Prop}

/-- An object that has stayed inside, with `S` of its state and of the memory. -/
def On (size N : ℕ) (b : Bool) (S : WlState → Mem → Prop) (w : World) : Prop :=
  Inside size N b w ∧ S w.wl.state w.drv.mem

lemma On.mono {w : World} (h : On size N b S w) (hST : ∀ s m, S s m → T s m) : On size N b T w :=
  ⟨h.1, hST _ _ h.2⟩

lemma drvRead_on {a n : ℕ} (ha : a + n ≤ size) :
    Prog.Triple (On size N b S) (drvRead a n)
      (fun bs w => bs = w.drv.mem.read a n ∧ On size N b S w) E :=
  Prog.Triple.of_ok fun w hw =>
    ⟨_, w, drvRead_ok (by rw [hw.1.chipSize_eq]; exact ha), rfl, hw⟩

lemma drvWrite_on {a : ℕ} {bs : List Byte} (ha : a + bs.length ≤ size)
    (hS : ∀ s m, S s m → T s (m.program a bs)) :
    Prog.Triple (On size N b S) (drvWrite a bs) (fun _ => On size N b T) E :=
  Prog.Triple.of_ok fun w hw =>
    ⟨(), _, drvWrite_ok (by rw [hw.1.chipSize_eq]; exact ha), { hw.1 with }, hS _ _ hw.2⟩

/-- An erase is refused where it is not aligned. -/
lemma drvEraseRange_on {a n : ℕ} (ha : a + n ≤ size) (hS : ∀ s m, S s m → T s (m.erase a n))
    (hE : ∀ e w, On size N b S w → E e w) :
    Prog.Triple (On size N b S) (drvEraseRange a n) (fun _ => On size N b T) E := by
  intro w hw
  unfold drvEraseRange
  rw [if_neg (by rw [hw.1.chipSize_eq]; omega)]
  by_cases hn : n % w.drv.secSize ≠ 0
  · rw [if_pos hn]
    exact hE _ w hw
  rw [if_neg hn]
  by_cases hd : a % w.drv.secSize ≠ 0
  · rw [if_pos hd]
    exact hE _ w hw
  rw [if_neg hd]
  exact ⟨{ hw.1 with }, hS _ _ hw.2⟩

lemma readBuff_on {a n : ℕ} (ha : a + n ≤ size) :
    Prog.Triple (On size N b S) (readBuff a n) (fun _ => On size N b S) E :=
  Prog.Triple.bind (drvRead_on ha) fun _ =>
    Prog.Triple.modify fun _ hw => ⟨{ hw.2.1 with }, hw.2.2⟩

lemma okBuffSet_on {n : ℕ} :
    Prog.Triple (On size N b S) (okBuffSet n) (fun _ => On size N b S) E :=
  Prog.Triple.get_bind fun _ _ => Prog.Triple.pure fun _ hw => hw

lemma fillOkBuff_on {n : ℕ} :
    Prog.Triple (On size N b S) (fillOkBuff n) (fun _ => On size N b S) E :=
  Prog.Triple.modify fun _ hw => ⟨{ hw.1 with }, hw.2⟩

/-- A change of the state that the object holds. -/
lemma modifyState_on {f : World → WlState} (hS : ∀ w, On size N b S w → T (f w) w.drv.mem) :
    Prog.Triple (On size N b S)
      (Prog.modify fun w => { w with wl := { w.wl with state := f w } } : WlM Unit)
      (fun _ => On size N b T) E :=
  Prog.Triple.modify fun w hw => ⟨{ hw.1 with }, hS w hw⟩

lemma sealState_on (hS : ∀ s m n, S s m → T { s with crc := n } m) :
    Prog.Triple (On size N b S) sealState (fun _ => On size N b T) E :=
  modifyState_on fun _ hw => hS _ _ _ hw.2

/-! ### Recovering the position -/

/-- A state of this partition. -/
structure Sound (N : ℕ) (s : WlState) : Prop where
  maxPos_eq : s.maxPos = N + 1
  pos_le : s.pos ≤ N
  reserved_length : s.reserved.length = 7

lemma Sound.counted {s : WlState} (h : Sound N s) (n : ℕ) :
    Sound N { s with accessCount := n } :=
  ⟨h.maxPos_eq, h.pos_le, h.reserved_length⟩

/-- A record of the first state area lies inside. -/
lemma Inside.record1_le {w : World} (h : Inside size N b w) {i : ℕ} (hi : i ≤ N) :
    recordAddr w.wl.addrState1 16 i + 16 ≤ w.wl.addrState2 := by
  have h1 := h.records_le
  have h2 := h.state2_eq
  unfold recordAddr
  omega

lemma Inside.record2_le {w : World} (h : Inside size N b w) {i : ℕ} (hi : i ≤ N) :
    recordAddr w.wl.addrState2 16 i + 16 ≤ w.wl.addrCfg := by
  have h1 := h.records_le
  have h2 := h.addrCfg_eq
  unfold recordAddr
  omega

lemma Inside.le_size {w : World} (h : Inside size N b w) :
    w.wl.addrState2 ≤ size ∧ w.wl.addrCfg ≤ size := by
  have h1 := h.addrCfg_eq
  have h2 := h.end_eq
  omega

lemma recoverScan_on : ∀ {left i p : ℕ}, i + left ≤ N + 1 → p ≤ N →
    Prog.Triple (On size N b S) (recoverScan left i p) (fun q w => q ≤ N ∧ On size N b S w) E := by
  intro left
  induction left with
  | zero =>
    intro i p _ hp
    exact Prog.Triple.pure fun w hw => ⟨hp, hw⟩
  | succ left ih =>
    intro i p hi _
    refine Prog.Triple.get_bind fun w hw => ?_
    rw [hw.1.wrSize_eq]
    have h1 := hw.1.record1_le (i := i) (by omega)
    have h2 := hw.1.le_size
    refine Prog.Triple.bind (readBuff_on (by omega)) fun _ => ?_
    refine Prog.Triple.bind okBuffSet_on fun r => ?_
    refine Prog.Triple.ite (fun _ => ih (by omega) (by omega)) fun _ => ?_
    exact Prog.Triple.pure fun w hw => ⟨by omega, hw⟩

lemma recoverPos_on :
    Prog.Triple (On size N b fun s _ => s.maxPos = N + 1 ∧ s.reserved.length = 7) recoverPos
      (fun _ => On size N b fun s _ => Sound N s) E := by
  refine Prog.Triple.get_bind fun w hw => ?_
  rw [hw.2.1]
  refine Prog.Triple.bind (recoverScan_on (by omega) (by omega)) fun q => ?_
  refine Prog.Triple.modify fun v hv => ⟨{ hv.2.1 with }, hv.2.2.1, ?_, hv.2.2.2⟩
  have hq := hv.1
  simp only
  rw [if_neg (by omega)]
  exact hq

/-! ### Writing the state areas -/

/-- The areas lie in the same places in all objects for the partition. -/
lemma Inside.addr1_eq {c : Bool} {w v : World} (h : Inside size N b w) (h' : Inside size N c v) :
    w.wl.addrState1 = v.wl.addrState1 := by
  have h1 := h.state2_eq
  have h2 := h.addrCfg_eq
  have h3 := h.end_eq
  have h4 := h'.state2_eq
  have h5 := h'.addrCfg_eq
  have h6 := h'.end_eq
  have h7 := h.stateSize_eq
  have h8 := h'.stateSize_eq
  omega

lemma Inside.addr2_eq {c : Bool} {w v : World} (h : Inside size N b w) (h' : Inside size N c v) :
    w.wl.addrState2 = v.wl.addrState2 := by
  rw [h.state2_eq, h'.state2_eq, h.addr1_eq h', h.stateSize_eq, h'.stateSize_eq]

lemma Inside.area1_le {w : World} (h : Inside size N b w) :
    w.wl.addrState1 + w.wl.stateSize ≤ size := by
  have h1 := h.state2_eq
  have h2 := h.le_size
  omega

lemma Inside.area2_le {w : World} (h : Inside size N b w) :
    w.wl.addrState2 + w.wl.stateSize ≤ size := by
  have h1 := h.addrCfg_eq
  have h2 := h.le_size
  omega

/-- A state area is erased and a state written to it. -/
lemma storeEncoded_on {addr n : ℕ} {s₀ : WlState} (hlen : s₀.reserved.length = 7)
    (hn : stateBytes ≤ n) (haddr : addr + n ≤ size)
    (hS : ∀ s m, S s m → S s ((m.erase addr n).program addr s₀.encode))
    (hE : ∀ e w, On size N b S w → E e w) :
    Prog.Triple (On size N b S) (do drvEraseRange addr n; drvWrite addr s₀.encode : WlM Unit)
      (fun _ => On size N b fun s m => S s m ∧ m.read addr stateBytes = s₀.encode) E := by
  have hl := length_encode hlen
  refine Prog.Triple.bind (Q := fun _ => On size N b fun s m =>
    S s (m.program addr s₀.encode) ∧ ∀ i < stateBytes, m (addr + i) = 0xff#8)
    (drvEraseRange_on haddr (fun s m h => ⟨hS s m h, fun i hi => ?_⟩) hE) fun _ => ?_
  · exact Mem.erase_of_mem (by omega)
  · refine drvWrite_on (by omega) fun s m h => ⟨h.1, ?_⟩
    refine Mem.read_eq_of_getD hl fun i hi => ?_
    rw [Mem.program_of_erased (by omega) (h.2 i hi), Nat.add_sub_cancel_left]

/-- A state area is erased and the state written to it. -/
lemma storeState_on {addr : ℕ} {T : WlState → Prop} (hT : ∀ s, T s → s.reserved.length = 7)
    (haddr : ∀ w, Inside size N b w → addr + w.wl.stateSize ≤ size)
    (hE : ∀ e w, On size N b (fun s _ => T s) w → E e w) :
    Prog.Triple (On size N b fun s _ => T s) (storeState addr)
      (fun _ => On size N b fun s m => T s ∧ m.read addr stateBytes = s.encode) E := by
  refine Prog.Triple.get_bind_eq fun w hw => ?_
  have hst := hw.1.stateSize_ge
  refine (storeEncoded_on (S := fun s _ => s = w.wl.state) (hT _ hw.2) (by unfold stateBytes; omega)
    (haddr w hw.1) (fun _ _ h => h) (fun e v hv => hE e v ⟨hv.1, ?_⟩)).conseq ?_ ?_ fun _ _ h => h
  · rw [hv.2]
    exact hw.2
  · rintro v rfl
    exact ⟨hw.1, rfl⟩
  · rintro _ v ⟨hv, hs, hm⟩
    exact ⟨hv, by rw [hs]; exact hw.2, by rw [hm, hs]⟩

/-- The same where only the state matters. -/
lemma storeState_keeps {addr : ℕ} {T : WlState → Prop} (hT : ∀ s, T s → s.reserved.length = 7)
    (haddr : ∀ w, Inside size N b w → addr + w.wl.stateSize ≤ size)
    (hE : ∀ e w, On size N b (fun s _ => T s) w → E e w) :
    Prog.Triple (On size N b fun s _ => T s) (storeState addr)
      (fun _ => On size N b fun s _ => T s) E :=
  (storeState_on hT haddr hE).conseq (fun _ h => h) (fun _ _ h => h.mono fun _ _ h => h.1)
    fun _ _ h => h

/-- `initSections` leaves a state of this partition. -/
lemma initSections_on (random : ℕ) (hE : ∀ e w, Inside size N b w → E e w) :
    Prog.Triple (Inside size N b) (initSections random)
      (fun _ => On size N b fun s _ => Sound N s) E := by
  have hT : ∀ s, Sound N s → s.reserved.length = 7 := fun _ h => h.reserved_length
  refine Prog.Triple.modify_bind (J := On size N b fun s _ => Sound N s) (fun w hw => ?_) ?_
  · refine ⟨{ hw with }, ?_, Nat.zero_le _, rfl⟩
    show 1 + w.wl.flashSize / w.wl.cfg.pageSize = N + 1
    rw [hw.flashSize_eq, hw.pageSize_eq, Nat.mul_div_cancel _ (by decide), Nat.add_comm]
  refine Prog.Triple.bind (sealState_on (T := fun s _ => Sound N s) fun s _ n h =>
    ⟨h.maxPos_eq, h.pos_le, h.reserved_length⟩) fun _ => ?_
  refine Prog.Triple.get_bind fun w hw => ?_
  have h1 := hw.1.area1_le
  have h2 := hw.1.area2_le
  have h3 := hw.1.end_eq
  have h4 := hw.1.cfgSize_eq
  refine Prog.Triple.bind (storeState_keeps hT (fun v hv => ?_) fun e v hv => hE e v hv.1) fun _ => ?_
  · rw [hw.1.addr1_eq hv]
    exact hv.area1_le
  refine Prog.Triple.bind (storeState_keeps hT (fun v hv => ?_) fun e v hv => hE e v hv.1) fun _ => ?_
  · rw [hw.1.addr2_eq hv]
    exact hv.area2_le
  refine Prog.Triple.bind (drvEraseRange_on (T := fun s _ => Sound N s) (by omega)
    (fun _ _ h => h) fun e v hv => hE e v hv.1) fun _ => ?_
  exact drvWrite_on (by rw [length_config_encode]; unfold configBytes; omega) fun _ _ h => h

/-! ### Memories of the first format -/

lemma scanV1_on : ∀ {left i p : ℕ}, i + left ≤ N + 1 → p ≤ N →
    Prog.Triple (On size N b S) (scanV1 left i p) (fun q w => q ≤ N ∧ On size N b S w) E := by
  intro left
  induction left with
  | zero =>
    intro i p _ hp
    exact Prog.Triple.pure fun w hw => ⟨hp, hw⟩
  | succ left ih =>
    intro i p hi _
    refine Prog.Triple.get_bind fun w hw => ?_
    rw [hw.1.wrSize_eq]
    have h1 := hw.1.record1_le (i := i) (by omega)
    have h2 := hw.1.le_size
    refine Prog.Triple.bind (drvRead_on (S := S) (by omega)) fun bs => ?_
    refine Prog.Triple.conseq (P := On size N b S) ?_ (fun _ h => h.2) (fun _ _ h => h)
      fun _ _ h => h
    refine Prog.Triple.ite (fun _ => ?_) fun _ => ih (by omega) (by omega)
    exact Prog.Triple.pure fun w hw => ⟨by omega, hw⟩

/-- Records are written behind a state area that has room for them. -/
lemma writeRecords_on {addr pos : ℕ} (hS : ∀ s m a bs, S s m → S s (Mem.program m a bs))
    (haddr : recordAddr addr 16 pos + 16 ≤ size) :
    Prog.Triple (On size N b S) (writeRecords addr pos) (fun _ => On size N b S) E := by
  refine Prog.Triple.modify_bind (J := On size N b S) (fun w hw => ⟨{ hw.1 with }, hw.2⟩) ?_
  refine Prog.Triple.upTo fun i hi => ?_
  refine Prog.Triple.bind fillOkBuff_on fun _ => ?_
  refine Prog.Triple.get_bind fun w hw => ?_
  rw [hw.1.wrSize_eq]
  have hmono := recordAddr_mono addr 16 (show i ≤ pos by omega)
  refine drvWrite_on ?_ fun s m h => hS _ _ _ _ h
  have := List.length_take_le 16 w.wl.tempBuff
  omega

/-- `updateV1V2` leaves a state of this partition; where it gives up after having recognised the
first format, the state has the right size. -/
lemma updateV1V2_on (random : ℕ) :
    Prog.Triple (On size N b fun s _ => s.reserved.length = 7 ∧
        (s.crcV1 = s.deviceId → s.version = 1 → s.maxPos = N + 1))
      (updateV1V2 random) (fun _ => On size N b fun s _ => Sound N s)
      (fun e w => Inside size N b w ∧ (e ≠ .fail → w.wl.state.maxPos = N + 1 ∧
        w.wl.state.reserved.length = 7)) := by
  have hT : ∀ s, Sound N s → s.reserved.length = 7 := fun _ h => h.reserved_length
  refine Prog.Triple.get_bind_eq fun w hw => ?_
  have h1 := hw.1.area2_le
  have h2 := hw.1.stateSize_ge
  have h3 := hw.1.record1_le (le_refl N)
  have h4 := hw.1.record2_le (le_refl N)
  have h5 := hw.1.le_size
  have hread : Prog.Triple (fun t => t = w) (drvRead w.wl.addrState2 stateBytes)
      (fun _ => On size N b fun s _ => s = w.wl.state)
      (fun e v => Inside size N b v ∧ (e ≠ .fail → v.wl.state.maxPos = N + 1 ∧
        v.wl.state.reserved.length = 7)) :=
    (drvRead_on (S := fun s _ => s = w.wl.state) (by unfold stateBytes; omega)).conseq
      (by rintro v rfl; exact ⟨hw.1, rfl⟩) (fun _ _ h => h.2) fun _ _ h => h
  refine Prog.Triple.bind hread fun bs => ?_
  refine Prog.Triple.ite (fun hc => ?_) fun _ => ?_
  · obtain ⟨hcrc, -, -, hver, -⟩ := hc
    have hmax := hw.2.2 hcrc hver
    have hE : ∀ (e : EspErr) (v : World), On size N b (fun s _ => Sound N s) v →
        Inside size N b v ∧ (e ≠ .fail → v.wl.state.maxPos = N + 1 ∧
          v.wl.state.reserved.length = 7) :=
      fun _ _ hv => ⟨hv.1, fun _ => ⟨hv.2.maxPos_eq, hv.2.reserved_length⟩⟩
    rw [hmax]
    refine Prog.Triple.bind (scanV1_on (by omega) (by omega)) fun q => ?_
    refine Prog.Triple.assume fun hq => ?_
    have hpos : (if q = N + 1 then u32Sub q 1 else q) = q := if_neg (by omega)
    have h6 := recordAddr_mono w.wl.addrState1 16 hq
    have h7 := recordAddr_mono w.wl.addrState2 16 hq
    simp only [hpos]
    refine Prog.Triple.bind (modifyState_on (T := fun s _ => Sound N s) fun v hv => ?_) fun _ => ?_
    · refine ⟨?_, Nat.zero_le _, rfl⟩
      show v.wl.state.maxPos = N + 1
      rw [hv.2, hmax]
    refine Prog.Triple.bind (sealState_on (T := fun s _ => Sound N s) fun s _ n h =>
      ⟨h.maxPos_eq, h.pos_le, h.reserved_length⟩) fun _ => ?_
    refine Prog.Triple.bind (storeState_keeps hT (fun v hv => ?_) hE) fun _ => ?_
    · rw [hw.1.addr1_eq hv]
      exact hv.area1_le
    refine Prog.Triple.bind (writeRecords_on (fun _ _ _ _ h => h) (by omega)) fun _ => ?_
    refine Prog.Triple.bind (storeState_keeps hT (fun v hv => ?_) hE) fun _ => ?_
    · rw [hw.1.addr2_eq hv]
      exact hv.area2_le
    refine Prog.Triple.bind (writeRecords_on (fun _ _ _ _ h => h) (by omega)) fun _ => ?_
    exact modifyState_on fun v hv => ⟨hv.2.maxPos_eq, hq, hv.2.reserved_length⟩
  · exact Prog.Triple.throw fun v hv => ⟨hv.1, fun h => absurd rfl h⟩

/-! ### Copying the records -/

/-- The loop over `wr_size` times as many records as there are stays inside only if so many fit
behind both areas. -/
lemma copyRecords_on {src dst : ℕ} {T : WlState → Prop} {bs : List Byte}
    (hsrc : recordAddr src 16 (size / 4096 * 16) ≤ size)
    (hdst : recordAddr dst 16 (size / 4096 * 16) ≤ size) :
    Prog.Triple (On size N b fun s m => T s ∧ m.read dst stateBytes = bs) (copyRecords src dst)
      (fun _ => On size N b fun s m => T s ∧ m.read dst stateBytes = bs) E := by
  refine Prog.Triple.get_bind fun w hw => ?_
  simp only [hw.1.wrSize_eq, hw.1.fullMemSize_eq, hw.1.sectorSize_eq]
  refine Prog.Triple.upTo fun i hi => ?_
  have h1 := recordAddr_add_le src 16 hi
  have h2 := recordAddr_add_le dst 16 hi
  refine Prog.Triple.bind (readBuff_on (by omega)) fun _ => ?_
  refine Prog.Triple.bind okBuffSet_on fun r => ?_
  refine Prog.Triple.ite (fun _ => ?_) fun _ => Prog.Triple.pure fun _ h => h
  refine Prog.Triple.get_bind fun v hv => ?_
  have hlen := List.length_take_le 16 v.wl.tempBuff
  refine drvWrite_on (by omega) fun s m h => ⟨h.1, ?_⟩
  -- the records lie behind the state
  rw [← h.2]
  apply Mem.read_congr
  intro k hk
  have := le_recordAddr dst 16 i
  exact Mem.program_of_not_mem (by omega)

/-! ### Mounting -/

/-- The state that lies at `addr`. -/
def storedState (w : World) (addr : ℕ) : WlState :=
  WlState.decode (w.drv.mem.read addr stateBytes)

lemma wordAt_lt (bs : List Byte) (i : ℕ) : wordAt bs i < 2 ^ 32 := by
  have h := leVal_lt ((bs.drop (4 * i)).take 4)
  have hlen : ((bs.drop (4 * i)).take 4).length ≤ 4 := List.length_take_le _ _
  have hpow := Nat.pow_le_pow_right (show 0 < 256 by decide) hlen
  unfold wordAt
  omega

lemma reserved_decode (bs : List Byte) : (WlState.decode bs).reserved.length = 7 := by
  simp [WlState.decode]

/-- A state that has been read is written and read back with its position and its sizes. -/
lemma decode_encode_decode (bs : List Byte) :
    (WlState.decode (WlState.decode bs).encode).pos = (WlState.decode bs).pos ∧
      (WlState.decode (WlState.decode bs).encode).maxPos = (WlState.decode bs).maxPos ∧
      (WlState.decode (WlState.decode bs).encode).version = (WlState.decode bs).version :=
  ⟨leVal_le32 (wordAt_lt _ _), leVal_le32 (wordAt_lt _ _), leVal_le32 (wordAt_lt _ _)⟩

/-- A mount copies the records of one state area behind the other: one state is broken, or both
are intact and differ. -/
def Copies (w : World) : Prop :=
  let s₁ := storedState w w.wl.addrState1
  let s₂ := storedState w w.wl.addrState2
  (s₁.crcV2 = s₁.crc ∧ s₂.crcV2 = s₂.crc ∧ s₁.version = w.wl.cfg.version ∧ s₁.crcV2 ≠ s₂.crcV2) ∨
    ¬ (s₁.crcV2 = s₁.crc ↔ s₂.crcV2 = s₂.crc)

instance (w : World) : Decidable (Copies w) := by
  unfold Copies
  infer_instance

/-- What a configured object finds in the memory: records that must be copied only in a partition
of fewer than 32 sectors, and intact states of the current version that are of this partition. -/
structure Recoverable (w : World) : Prop where
  copies_le : Copies w → w.wl.cfg.fullMemSize / w.wl.cfg.sectorSize < 32
  state1 : (storedState w w.wl.addrState1).crcV2 = (storedState w w.wl.addrState1).crc →
    (storedState w w.wl.addrState1).version = w.wl.cfg.version →
    (storedState w w.wl.addrState1).maxPos = w.wl.flashSize / w.wl.cfg.pageSize + 1 ∧
      (storedState w w.wl.addrState1).pos < (storedState w w.wl.addrState1).maxPos
  state2 : (storedState w w.wl.addrState2).crcV2 = (storedState w w.wl.addrState2).crc →
    (storedState w w.wl.addrState2).version = w.wl.cfg.version →
    (storedState w w.wl.addrState2).maxPos = w.wl.flashSize / w.wl.cfg.pageSize + 1
  first : (storedState w w.wl.addrState1).crcV1 = (storedState w w.wl.addrState1).deviceId →
    (storedState w w.wl.addrState1).version = 1 →
    (storedState w w.wl.addrState1).maxPos = w.wl.flashSize / w.wl.cfg.pageSize + 1

/-- The records behind the second area of a partition of fewer than 32 sectors. -/
lemma Inside.copies2_le {w : World} (h : Inside size N b w) (hsize : size / 4096 < 32) :
    recordAddr w.wl.addrState2 16 (size / 4096 * 16) ≤ size := by
  have h1 := h.stateSize_ge
  have h2 := h.addrCfg_eq
  have h3 := h.end_eq
  unfold recordAddr stateBytes
  omega

lemma Inside.copies1_le {w : World} (h : Inside size N b w) (hsize : size / 4096 < 32) :
    recordAddr w.wl.addrState1 16 (size / 4096 * 16) ≤ size := by
  have h1 := h.copies2_le hsize
  have h2 := h.state2_eq
  unfold recordAddr at *
  omega

lemma resyncState2_on {s : WlState} (hres : s.reserved.length = 7) (hsize : size / 4096 < 32)
    (hE : ∀ e w, Inside size N b w → E e w) :
    Prog.Triple (On size N b fun s' _ => s' = s) resyncState2
      (fun _ w => On size N b (fun s' _ => s' = s) w ∧
        w.drv.mem.read w.wl.addrState2 stateBytes = s.encode) E := by
  refine Prog.Triple.get_bind fun w hw => ?_
  have h1 := hw.1.copies1_le hsize
  have h2 := hw.1.copies2_le hsize
  refine Prog.Triple.bind (storeState_on (T := fun s' => s' = s) (by rintro _ rfl; exact hres)
    (fun v hv => ?_) fun e v hv => hE e v hv.1) fun _ => ?_
  · rw [hw.1.addr2_eq hv]
    exact hv.area2_le
  have hcopy : Prog.Triple
      (On size N b fun s' m => s' = s ∧ m.read w.wl.addrState2 stateBytes = s.encode)
      (copyRecords w.wl.addrState1 w.wl.addrState2)
      (fun _ => On size N b fun s' m =>
        s' = s ∧ m.read w.wl.addrState2 stateBytes = s.encode) E :=
    copyRecords_on (T := fun s' => s' = s) h1 h2
  refine hcopy.conseq ?_ ?_ fun _ _ h => h
  · rintro v ⟨hv, hs, hm⟩
    exact ⟨hv, hs, by rw [hm, hs]⟩
  · rintro _ v ⟨hv, hs, hm⟩
    exact ⟨⟨hv, hs⟩, by rw [← hw.1.addr2_eq hv]; exact hm⟩

/-- Two intact states. -/
lemma initIntact_on (random : ℕ) {state copy : WlState} (hres : state.reserved.length = 7)
    (hmax : state.version = 2 → state.maxPos = N + 1)
    (hsize : state.version = 2 → state.crcV2 ≠ copy.crcV2 → size / 4096 < 32)
    (hE : ∀ e w, Inside size N b w → E e w) :
    Prog.Triple (On size N b fun s _ => s = state) (initIntact random state copy)
      (fun _ => On size N b fun s _ => Sound N s) E := by
  have hSound : ∀ w, On size N b (fun s _ => Sound N s) w →
      On size N b (fun s _ => s.maxPos = N + 1 ∧ s.reserved.length = 7) w :=
    fun w hw => hw.mono fun s _ h => ⟨h.maxPos_eq, h.reserved_length⟩
  refine Prog.Triple.get_bind fun w hw => ?_
  rw [hw.1.version_eq]
  refine Prog.Triple.ite (fun _ => ?_) fun hver => ?_
  · refine Prog.Triple.bind ((initSections_on random hE).conseq (fun _ h => h.1)
      (fun _ w h => hSound w h) fun _ _ h => h) fun _ => recoverPos_on
  have hmax' := hmax (not_not.mp hver)
  have hstart : ∀ w, On size N b (fun s _ => s = state) w →
      On size N b (fun s _ => s.maxPos = N + 1 ∧ s.reserved.length = 7) w :=
    fun w hw => hw.mono fun s _ h => by rw [h]; exact ⟨hmax', hres⟩
  refine Prog.Triple.ite (fun hcrc => ?_) fun _ => ?_
  · exact Prog.Triple.bind ((resyncState2_on hres (hsize (not_not.mp hver) hcrc) hE).conseq
      (fun _ h => h) (fun _ w h => hstart w h.1) fun _ _ h => h) fun _ => recoverPos_on
  · exact recoverPos_on.conseq hstart (fun _ _ h => h) fun _ _ h => h

/-- Two broken states. -/
lemma initNew_on (random : ℕ) {state : WlState} (hres : state.reserved.length = 7)
    (hmax : state.crcV1 = state.deviceId → state.version = 1 → state.maxPos = N + 1)
    (hE : ∀ e w, Inside size N b w → E e w) :
    Prog.Triple (On size N b fun s _ => s = state) (initNew random)
      (fun _ => On size N b fun s _ => Sound N s) E := by
  have hSound : ∀ w, On size N b (fun s _ => Sound N s) w →
      On size N b (fun s _ => s.maxPos = N + 1 ∧ s.reserved.length = 7) w :=
    fun w hw => hw.mono fun s _ h => ⟨h.maxPos_eq, h.reserved_length⟩
  intro w hw
  have hup := updateV1V2_on (b := b) random w (hw.mono fun s _ h => by rw [h]; exact ⟨hres, hmax⟩)
  have hnew : Prog.Triple (Inside size N b) (do initSections random; recoverPos : WlM Unit)
      (fun _ => On size N b fun s _ => Sound N s) E :=
    Prog.Triple.bind ((initSections_on random hE).conseq (fun _ h => h)
      (fun _ w h => hSound w h) fun _ _ h => h) fun _ => recoverPos_on
  unfold initNew
  split at hup
  · next u w' hrun =>
    rw [hrun]
    exact recoverPos_on _ (hSound _ hup)
  · next e w' hrun =>
    rw [hrun]
    cases e with
    | fail => exact hnew _ hup.1
    | invalidArg => exact recoverPos_on _ ⟨hup.1, hup.2 (by simp)⟩
    | invalidSize => exact recoverPos_on _ ⟨hup.1, hup.2 (by simp)⟩
    | invalidState => exact recoverPos_on _ ⟨hup.1, hup.2 (by simp)⟩

/-- One broken state. -/
lemma initBroken_on (random : ℕ) {bs₁ bs₂ : List Byte} (hsize : size / 4096 < 32)
    (h1 : (WlState.decode bs₁).crcV2 = (WlState.decode bs₁).crc →
      (WlState.decode bs₁).version = 2 → (WlState.decode bs₁).maxPos = N + 1 ∧
        (WlState.decode bs₁).pos < (WlState.decode bs₁).maxPos)
    (h2 : (WlState.decode bs₁).crcV2 ≠ (WlState.decode bs₁).crc →
      (WlState.decode bs₂).version = 2 → (WlState.decode bs₂).maxPos = N + 1)
    (hE : ∀ e w, Inside size N b w → E e w) :
    Prog.Triple (On size N b fun s _ => s = WlState.decode bs₁)
      (initBroken random (WlState.decode bs₁) (WlState.decode bs₂))
      (fun _ => On size N b fun s _ => Sound N s) E := by
  -- a state of another version is replaced at the end
  have hend : Prog.Triple (On size N b fun s _ => s.version = 2 → Sound N s)
      (do
        let w ← Prog.get
        if w.wl.state.version ≠ w.wl.cfg.version then initSections random else pure () : WlM Unit)
      (fun _ => On size N b fun s _ => Sound N s) E := by
    refine Prog.Triple.get_bind_eq fun w hw => ?_
    rw [hw.1.version_eq]
    refine Prog.Triple.ite (fun _ => ?_) fun hver => ?_
    · exact (initSections_on random hE).conseq (by rintro _ rfl; exact hw.1) (fun _ _ h => h)
        fun _ _ h => h
    · exact Prog.Triple.pure (by rintro _ rfl; exact ⟨hw.1, hw.2 (not_not.mp hver)⟩)
  refine Prog.Triple.get_bind fun w hw => ?_
  have ha1 := hw.1.area1_le
  have ha2 := hw.1.area2_le
  have hst := hw.1.stateSize_ge
  have hb1 : w.wl.addrState1 + stateBytes ≤ size := by unfold stateBytes; omega
  have hb2 : w.wl.addrState2 + stateBytes ≤ size := by unfold stateBytes; omega
  refine Prog.Triple.ite (fun hc => ?_) fun hc => ?_
  · -- the second state is broken
    obtain ⟨-, hm, hv⟩ := decode_encode_decode bs₁
    have hp := (decode_encode_decode bs₁).1
    have hread : Prog.Triple (fun u => On size N b (fun s' _ => s' = WlState.decode bs₁) u ∧
          u.drv.mem.read u.wl.addrState2 stateBytes = (WlState.decode bs₁).encode)
        (drvRead w.wl.addrState2 stateBytes)
        (fun bs => On size N b fun _ _ => bs = (WlState.decode bs₁).encode) E := by
      intro u hu
      rw [drvRead_ok (by rw [hu.1.1.chipSize_eq]; exact hb2)]
      refine ⟨hu.1.1, ?_⟩
      rw [hw.1.addr2_eq hu.1.1]
      exact hu.2
    refine Prog.Triple.bind (resyncState2_on (reserved_decode bs₁) hsize hE) fun _ => ?_
    refine Prog.Triple.bind hread fun bs => ?_
    refine Prog.Triple.bind (modifyState_on fun u hu hver => ?_) fun _ => hend
    rw [hu.2] at hver ⊢
    rw [hv] at hver
    obtain ⟨hmax, hpos⟩ := h1 hc hver
    exact ⟨by rw [hm, hmax], by omega, reserved_decode _⟩
  · -- the first state is broken: the position is taken to be the last one
    obtain ⟨-, hm, hv⟩ := decode_encode_decode bs₂
    have hcopy : Prog.Triple
        (On size N b fun s' m => True ∧
          m.read w.wl.addrState1 stateBytes = (WlState.decode bs₂).encode)
        (copyRecords w.wl.addrState2 w.wl.addrState1)
        (fun _ => On size N b fun s' m => True ∧
          m.read w.wl.addrState1 stateBytes = (WlState.decode bs₂).encode) E :=
      copyRecords_on (T := fun _ => True) (hw.1.copies2_le hsize) (hw.1.copies1_le hsize)
    have hread : Prog.Triple
        (On size N b fun s' m => True ∧
          m.read w.wl.addrState1 stateBytes = (WlState.decode bs₂).encode)
        (drvRead w.wl.addrState1 stateBytes)
        (fun bs => On size N b fun _ _ => bs = (WlState.decode bs₂).encode) E := by
      intro u hu
      rw [drvRead_ok (by rw [hu.1.chipSize_eq]; exact hb1)]
      exact ⟨hu.1, hu.2.2⟩
    have hstore : Prog.Triple (On size N b fun s _ => s = WlState.decode bs₁)
        (do drvEraseRange w.wl.addrState1 w.wl.stateSize
            drvWrite w.wl.addrState1 (WlState.decode bs₂).encode : WlM Unit)
        (fun _ => On size N b fun s' m => True ∧
          m.read w.wl.addrState1 stateBytes = (WlState.decode bs₂).encode) E :=
      (storeEncoded_on (S := fun _ _ => True) (reserved_decode bs₂)
        (by unfold stateBytes; omega) ha1 (fun _ _ h => h) fun e v hv => hE e v hv.1).conseq
          (fun _ h => h.mono fun _ _ _ => trivial) (fun _ _ h => h) fun _ _ h => h
    rw [← Prog.bind_bind]
    refine Prog.Triple.bind hstore fun _ => ?_
    refine Prog.Triple.bind hcopy fun _ => ?_
    refine Prog.Triple.bind hread fun bs => ?_
    refine Prog.Triple.bind (modifyState_on fun u hu hver => ?_) fun _ => hend
    have hres := reserved_decode (WlState.decode bs₂).encode
    simp only at hver ⊢
    rw [hu.2] at hver ⊢
    rw [hv] at hver
    rw [h2 hc hver] at hm
    generalize WlState.decode (WlState.decode bs₂).encode = s at hm hres ⊢
    refine ⟨hm, ?_, hres⟩
    show u32Sub s.maxPos 1 ≤ N
    rw [hm, u32Sub]
    omega

/-- `init` from the two states that have been read. -/
lemma initFrom_on (random : ℕ) {w : World} (hw : Inside size N b w) (hr : Recoverable w) :
    Prog.Triple (On size N false fun s _ => s = storedState w w.wl.addrState1)
      (initFrom random (storedState w w.wl.addrState1) (storedState w w.wl.addrState2))
      (fun _ => On size N false fun s _ => Sound N s) (fun _ => Inside size N false) := by
  obtain ⟨hcopies, hs1, hs2, hfirst⟩ := hr
  have hN : w.wl.flashSize / w.wl.cfg.pageSize = N := by
    rw [hw.flashSize_eq, hw.pageSize_eq, Nat.mul_div_cancel _ (by decide)]
  rw [hN, hw.version_eq] at hs1
  rw [hN, hw.version_eq] at hs2
  rw [hN] at hfirst
  rw [hw.fullMemSize_eq, hw.sectorSize_eq] at hcopies
  unfold Copies at hcopies
  simp only [hw.version_eq] at hcopies
  have hE : ∀ (e : EspErr) (u : World), Inside size N false u → Inside size N false u :=
    fun _ _ h => h
  have hres : (storedState w w.wl.addrState1).reserved.length = 7 := reserved_decode _
  unfold initFrom
  refine Prog.Triple.ite (fun hboth => ?_) fun hboth => Prog.Triple.ite (fun hnone => ?_)
    fun hnone => ?_
  · exact initIntact_on random hres (fun h => (hs1 hboth.1 h).1)
      (fun hver hne => hcopies (.inl ⟨hboth.1, hboth.2, hver, hne⟩)) hE
  · exact initNew_on random hres hfirst hE
  · have hone : ¬ ((storedState w w.wl.addrState1).crcV2 = (storedState w w.wl.addrState1).crc ↔
        (storedState w w.wl.addrState2).crcV2 = (storedState w w.wl.addrState2).crc) :=
      fun h => hnone ⟨fun h1 => hboth ⟨h1, h.mp h1⟩, fun h2 => hboth ⟨h.mpr h2, h2⟩⟩
    exact initBroken_on random (hcopies (.inr hone)) hs1
      (fun hne => hs2 (not_not.mp fun h => hnone ⟨hne, h⟩)) hE

/-- A configured object reads both states before it does anything else. -/
lemma init_reads (random : ℕ) {w : World} (hw : Inside size N b w) :
    ∃ v, On size N false (fun s _ => s = storedState w w.wl.addrState1) v ∧
      init random w = (do
        initFrom random (storedState w w.wl.addrState1) (storedState w w.wl.addrState2)
        Prog.modify fun w => { w with wl := { w.wl with initialized := true } } : WlM Unit) v := by
  have ha1 := hw.area1_le
  have ha2 := hw.area2_le
  have hst := hw.stateSize_ge
  set w₁ : World := { w with wl := { w.wl with initialized := false } } with hw₁
  have hin₁ : Inside size N false w₁ := { hw with initialized_eq := rfl }
  set w₂ : World := w₁.withState (storedState w w.wl.addrState1) with hw₂
  have hin₂ : Inside size N false w₂ := hin₁.withState _
  have hread1 : readState w.wl.addrState1 w₁ = (.ok (), w₂) := by
    unfold readState
    rw [drvRead_ok (by rw [hin₁.chipSize_eq]; unfold stateBytes; omega)]
    rfl
  have hread2 : drvRead w.wl.addrState2 stateBytes w₂ =
      (.ok (w.drv.mem.read w.wl.addrState2 stateBytes), w₂) :=
    drvRead_ok (by rw [hin₂.chipSize_eq]; unfold stateBytes; omega)
  refine ⟨w₂, ⟨hin₂, rfl⟩, ?_⟩
  unfold init
  rw [Prog.get_bind, if_pos hw.configured_eq, Prog.modify_bind, Prog.bind_ok hread1,
    Prog.get_bind, Prog.bind_ok hread2]
  rfl

/-- `init` leaves an initialised object with a state of this partition, or an object that is not
initialised, and stays inside. -/
lemma init_on (random : ℕ) {w : World} (hw : Inside size N b w) (hr : Recoverable w) :
    Prog.Triple (fun u => u = w) (init random) (fun _ => On size N true fun s _ => Sound N s)
      (fun _ => Inside size N false) := by
  rintro _ rfl
  obtain ⟨v, hv, hrun⟩ := init_reads random hw
  rw [hrun]
  exact Prog.Triple.bind (initFrom_on random hw hr) (fun _ =>
    Prog.Triple.modify fun u hu => ⟨{ hu.1 with initialized_eq := rfl }, hu.2⟩) v hv

end Calls

/-! ### Moving the dummy page -/

section Moves

variable {size N : ℕ}

/-- A mounted object that has stayed inside. -/
abbrev Live (size N : ℕ) : World → Prop := On size N true fun s _ => Sound N s

lemma Inside.pages_le {b : Bool} {w : World} (h : Inside size N b w) :
    w.wl.flashSize + 8192 ≤ size := by
  have h1 := h.data_le
  rw [Nat.add_mul, Nat.one_mul, ← h.flashSize_eq] at h1
  have h2 := h.state2_eq
  have h3 := h.stateSize_ge
  have h4 := h.le_size
  omega

/-- A physical page lies inside. -/
lemma Inside.page_le {b : Bool} {w : World} (h : Inside size N b w) {q : ℕ} (hq : q ≤ N) :
    q * w.wl.cfg.pageSize + w.wl.cfg.pageSize ≤ size := by
  have h1 := h.pages_le
  have h2 : q * w.wl.cfg.pageSize ≤ w.wl.flashSize := by
    rw [h.flashSize_eq, h.pageSize_eq]
    exact Nat.mul_le_mul_right _ hq
  have h3 := h.pageSize_eq
  omega

lemma retryNextTime_on {m : WlM Unit} {P : World → Prop}
    (h : Prog.Triple P m (fun _ => Live size N) fun _ => Live size N) :
    Prog.Triple P (retryNextTime m) (fun _ => Live size N) fun _ => Live size N := by
  intro w hw
  have hm := h w hw
  unfold retryNextTime
  split at hm
  · next u w' hrun =>
    rw [hrun]
    exact hm
  · next e w' hrun =>
    rw [hrun]
    exact ⟨hm.1.withState _, hm.2.counted _⟩

lemma copyPage_on {src dst page : ℕ} (hp : page = 4096) (hsrc : src + page ≤ size)
    (hdst : dst + page ≤ size) :
    Prog.Triple (Live size N) (copyPage src dst) (fun _ => Live size N) fun _ => Live size N := by
  refine Prog.Triple.get_bind fun w hw => ?_
  refine Prog.Triple.upTo fun i hi => ?_
  have hend : i * w.wl.cfg.tempBuffSize + w.wl.cfg.tempBuffSize ≤ 4096 := by
    rw [hw.1.tempBuffSize_eq, hw.1.pageSize_eq] at hi
    rw [hw.1.tempBuffSize_eq]
    omega
  refine Prog.Triple.bind (readBuff_on (by omega)) fun _ => ?_
  refine Prog.Triple.get_bind fun v hv => ?_
  have hlen := List.length_take_le w.wl.cfg.tempBuffSize v.wl.tempBuff
  exact drvWrite_on (by omega) fun _ _ h => h

lemma writeRecord_on {addr : ℕ} (haddr : recordAddr addr 16 N + 16 ≤ size) :
    Prog.Triple (Live size N) (writeRecord addr) (fun _ => Live size N) fun _ => Live size N := by
  refine Prog.Triple.get_bind fun w hw => ?_
  refine Prog.Triple.bind fillOkBuff_on fun _ => ?_
  refine Prog.Triple.get_bind fun v hv => ?_
  have hmono := recordAddr_mono addr 16 hv.2.pos_le
  have hlen := List.length_take_le 16 v.wl.tempBuff
  rw [hv.1.wrSize_eq]
  exact drvWrite_on (by omega) fun _ _ h => h

lemma advancePos_on :
    Prog.Triple (Live size N) advancePos (fun _ => Live size N) fun _ => Live size N := by
  have hT : ∀ s, Sound N s → s.reserved.length = 7 := fun _ h => h.reserved_length
  refine Prog.Triple.get_bind fun w hw => ?_
  refine Prog.Triple.ite (fun _ => ?_) fun hpos => ?_
  · refine Prog.Triple.bind (modifyState_on (T := fun s _ => Sound N s) fun v hv =>
      ⟨hv.2.maxPos_eq, Nat.zero_le _, hv.2.reserved_length⟩) fun _ => ?_
    refine Prog.Triple.bind (sealState_on (T := fun s _ => Sound N s) fun s _ n h =>
      ⟨h.maxPos_eq, h.pos_le, h.reserved_length⟩) fun _ => ?_
    refine Prog.Triple.bind (storeState_keeps hT (fun u hu => ?_) fun _ _ h => h) fun _ => ?_
    · rw [hw.1.addr1_eq hu]
      exact hu.area1_le
    refine storeState_keeps hT (fun u hu => ?_) fun _ _ h => h
    rw [hw.1.addr2_eq hu]
    exact hu.area2_le
  · have hmax := hw.2.maxPos_eq
    exact modifyState_on fun v hv =>
      ⟨hv.2.maxPos_eq, (by omega : w.wl.state.pos + 1 ≤ N), hv.2.reserved_length⟩

lemma updateWL_on :
    Prog.Triple (Live size N) updateWL (fun _ => Live size N) fun _ => Live size N := by
  refine Prog.Triple.bind (modifyState_on (T := fun s _ => Sound N s) fun v hv =>
    ⟨hv.2.maxPos_eq, hv.2.pos_le, hv.2.reserved_length⟩) fun _ => ?_
  refine Prog.Triple.get_bind fun w hw => ?_
  refine Prog.Triple.ite (fun _ => Prog.Triple.pure fun _ h => h) fun _ => ?_
  have hpos := hw.2.pos_le
  have hmax := hw.2.maxPos_eq
  have hnext : nextPage w.wl.state ≤ N := by
    unfold nextPage
    split <;> omega
  have hsrc := hw.1.page_le hnext
  have hdst := hw.1.page_le hpos
  have h1 := hw.1.record1_le (le_refl N)
  have h2 := hw.1.record2_le (le_refl N)
  have h3 := hw.1.le_size
  have hp := hw.1.pageSize_eq
  have hst := hw.1.startAddr_eq
  refine Prog.Triple.modify_bind (J := Live size N) (fun v hv =>
    ⟨{ hv.1 with }, hv.2.maxPos_eq, hv.2.pos_le, hv.2.reserved_length⟩) ?_
  refine Prog.Triple.bind (retryNextTime_on ?_) fun _ => advancePos_on
  refine Prog.Triple.bind (drvEraseRange_on (T := fun s _ => Sound N s) (by omega)
    (fun _ _ h => h) fun _ _ h => h) fun _ => ?_
  refine Prog.Triple.bind (copyPage_on hp (by omega) (by omega)) fun _ => ?_
  exact Prog.Triple.bind (writeRecord_on (by omega)) fun _ => writeRecord_on (by omega)

/-! ### Accesses -/

/-- `calcAddr` finds an address among the data pages, whatever it is asked for. -/
lemma Live.calcAddr_lt {w : World} (h : Live size N w) (a : ℕ) :
    calcAddr w.wl a < w.wl.flashSize + 4096 := by
  have hN := h.1.pages_pos
  have hmod := Nat.mod_lt (w.wl.flashSize - w.wl.state.moveCount * w.wl.cfg.pageSize + a)
    (show 0 < w.wl.flashSize by rw [h.1.flashSize_eq]; omega)
  have hpg := h.1.pageSize_eq
  unfold calcAddr
  simp only
  split <;> omega

lemma checkInitialized_on :
    Prog.Triple (Live size N) checkInitialized (fun _ => Live size N) fun _ => Live size N :=
  Prog.Triple.get_bind fun _ _ => Prog.Triple.ite (fun _ => Prog.Triple.pure fun _ h => h)
    fun _ => Prog.Triple.throw fun _ h => h

lemma eraseSector_on (sector : ℕ) :
    Prog.Triple (Live size N) (eraseSector sector) (fun _ => Live size N) fun _ => Live size N := by
  refine Prog.Triple.bind checkInitialized_on fun _ => ?_
  refine Prog.Triple.bind updateWL_on fun _ => ?_
  refine Prog.Triple.get_bind fun w hw => ?_
  have hcalc := Live.calcAddr_lt hw (sector * w.wl.cfg.sectorSize)
  have hdata := hw.1.pages_le
  rw [hw.1.startAddr_eq, hw.1.sectorSize_eq] at *
  refine Prog.Triple.get_bind fun v hv => ?_
  rw [hv.1.secSize_eq]
  exact drvEraseRange_on (by omega) (fun _ _ h => h) fun _ _ h => h

lemma eraseRange_on (start n : ℕ) :
    Prog.Triple (Live size N) (eraseRange start n) (fun _ => Live size N) fun _ => Live size N :=
  Prog.Triple.bind checkInitialized_on fun _ => Prog.Triple.get_bind fun _ _ =>
    Prog.Triple.upTo fun _ _ => eraseSector_on _

/-- The rest behind the whole pages of a transfer is at most a page, for a size of zero too. -/
lemma u32Sub_rest_le {page n : ℕ} (hp : page = 4096) :
    u32Sub n (u32Sub n 1 / page * page) ≤ 4096 := by
  subst hp
  unfold u32Sub
  omega

lemma write_on (addr : ℕ) (src : Mem) (n : ℕ) :
    Prog.Triple (Live size N) (write addr src n) (fun _ => Live size N) fun _ => Live size N := by
  refine Prog.Triple.bind checkInitialized_on fun _ => ?_
  refine Prog.Triple.get_bind fun w hw => ?_
  have hrest := u32Sub_rest_le (n := n) hw.1.pageSize_eq
  have hcall : ∀ a bs, bs.length ≤ 4096 → Prog.Triple (Live size N)
      (do
        let w ← Prog.get
        drvWrite (w.wl.cfg.startAddr + calcAddr w.wl a) bs : WlM Unit)
      (fun _ => Live size N) fun _ => Live size N := by
    intro a bs hbs
    refine Prog.Triple.get_bind fun v hv => ?_
    have hcalc := Live.calcAddr_lt hv a
    have hdata := hv.1.pages_le
    rw [hv.1.startAddr_eq]
    exact drvWrite_on (by omega) fun _ _ h => h
  refine Prog.Triple.bind (Prog.Triple.upTo fun i _ => hcall _ _ ?_) fun _ => hcall _ _ ?_
  · rw [Mem.length_read, hw.1.pageSize_eq]
  · rw [Mem.length_read]
    exact hrest

lemma drvRead_live {v : World} (hv : Live size N v) (a : ℕ) {n : ℕ} (hn : n ≤ 4096) :
    Prog.Triple (Live size N) (drvRead (v.wl.cfg.startAddr + calcAddr v.wl a) n)
      (fun _ => Live size N) fun _ => Live size N := by
  have hcalc := Live.calcAddr_lt hv a
  have hdata := hv.1.pages_le
  rw [hv.1.startAddr_eq]
  exact (drvRead_on (by omega)).conseq (fun _ h => h) (fun _ _ h => h.2) fun _ _ h => h

lemma readPages_on (addr : ℕ) {page : ℕ} (hp : page ≤ 4096) : ∀ left i,
    Prog.Triple (Live size N) (readPages addr page left i) (fun _ => Live size N)
      fun _ => Live size N := by
  intro left
  induction left with
  | zero => exact fun _ => Prog.Triple.pure fun _ h => h
  | succ left ih =>
    intro i
    refine Prog.Triple.get_bind fun v hv => ?_
    refine Prog.Triple.bind (drvRead_live hv _ hp) fun bs => ?_
    exact Prog.Triple.bind (ih _) fun _ => Prog.Triple.pure fun _ h => h

lemma read_on (addr n : ℕ) :
    Prog.Triple (Live size N) (read addr n) (fun _ => Live size N) fun _ => Live size N := by
  unfold read
  refine Prog.Triple.bind checkInitialized_on fun _ => ?_
  refine Prog.Triple.get_bind fun w hw => ?_
  have hrest := u32Sub_rest_le (n := n) hw.1.pageSize_eq
  dsimp only
  generalize u32Sub n (u32Sub n 1 / w.wl.cfg.pageSize * w.wl.cfg.pageSize) = rest at hrest ⊢
  refine Prog.Triple.bind (readPages_on addr hw.1.pageSize_eq.le _ _) fun front => ?_
  refine Prog.Triple.get_bind fun v hv => ?_
  exact Prog.Triple.bind (drvRead_live hv _ hrest) fun _ => Prog.Triple.pure fun _ h => h

lemma flush_on :
    Prog.Triple (Live size N) flush (fun _ => Live size N) fun _ => Live size N :=
  Prog.Triple.bind (modifyState_on (T := fun s _ => Sound N s) fun _ hv =>
    ⟨hv.2.maxPos_eq, hv.2.pos_le, hv.2.reserved_length⟩) fun _ => updateWL_on

end Moves

/-! ### Runs -/

/-- An access of a client to a mounted object. -/
inductive Access where
  | eraseSector (sector : ℕ)
  | eraseRange (start size : ℕ)
  | write (addr : ℕ) (src : Mem) (size : ℕ)
  | read (addr size : ℕ)
  | flush

/-- The access on the driver. -/
def Access.run : Access → WlM Unit
  | eraseSector sector => WearLevelling.eraseSector sector
  | eraseRange start size => WearLevelling.eraseRange start size
  | write addr src size => WearLevelling.write addr src size
  | read addr size => do
    let _ ← WearLevelling.read addr size
    pure ()
  | flush => WearLevelling.flush

/-- Every access keeps a mounted object inside, whether it returns or not. -/
lemma Access.run_on {size N : ℕ} (a : Access) :
    Prog.Triple (Live size N) a.run (fun _ => Live size N) fun _ => Live size N := by
  cases a with
  | eraseSector sector => exact eraseSector_on sector
  | eraseRange start n => exact eraseRange_on start n
  | write addr src n => exact write_on addr src n
  | read addr n => exact Prog.Triple.bind (read_on addr n) fun _ => Prog.Triple.pure fun _ h => h
  | flush => exact flush_on

/-- What happens to a partition of `size` bytes: new objects are configured and initialised on
whatever the memory holds, as long as it is recoverable, initialised ones are accessed in any way,
and the power may fail at any time and leave anything in the memory. -/
inductive Run (size : ℕ) : World → Prop where
  | start {w : World} : w.drv.chipSize = size → w.drv.secSize = 4096 → w.drv.strayed = false →
      w.wl.configured = false → w.wl.initialized = false → Run size w
  | config {w : World} (garbage : WlFlash) (mallocd : ℕ → Byte) : Run size w →
      Run size ((do construct garbage; config (mountConfig size) mallocd : WlM Unit) w).2
  | init {w : World} (random : ℕ) : Run size w → w.wl.configured = true → Recoverable w →
      Run size (init random w).2
  | access {w : World} (a : Access) : Run size w → w.wl.initialized = true →
      Run size (a.run w).2
  | powerLoss {w : World} (m : Mem) : Run size w →
      Run size { wl := unconfigured, drv := { w.drv with mem := m } }

/-- What a run keeps true. -/
structure RunOk (size : ℕ) (w : World) : Prop where
  chipSize_eq : w.drv.chipSize = size
  secSize_eq : w.drv.secSize = 4096
  strayed_eq : w.drv.strayed = false
  inside : w.wl.configured = true → Inside size (pagesOf size) w.wl.initialized w
  sound : w.wl.initialized = true → w.wl.configured = true ∧ Sound (pagesOf size) w.wl.state

lemma RunOk.of_inside {size : ℕ} {w : World} {b : Bool} (h : Inside size (pagesOf size) b w)
    (hs : b = true → Sound (pagesOf size) w.wl.state) : RunOk size w where
  chipSize_eq := h.chipSize_eq
  secSize_eq := h.secSize_eq
  strayed_eq := h.strayed_eq
  inside _ := by rw [h.initialized_eq]; exact h
  sound hi := ⟨h.configured_eq, hs (h.initialized_eq.symm.trans hi)⟩

lemma RunOk.live {size : ℕ} {w : World} (h : RunOk size w) (hi : w.wl.initialized = true) :
    Live size (pagesOf size) w := by
  obtain ⟨hc, hs⟩ := h.sound hi
  have hin := h.inside hc
  rw [hi] at hin
  exact ⟨hin, hs⟩

/-- `config` does not ask the driver for anything. -/
lemma config_keeps (c : WlConfig) (mallocd : ℕ → Byte) (d : FlashDrv) :
    Prog.Triple (fun w => w.drv = d ∧ w.wl.initialized = false) (config c mallocd)
      (fun _ w => w.drv = d ∧ w.wl.initialized = false)
      (fun _ w => w.drv = d ∧ w.wl.initialized = false ∧ w.wl.configured = false) := by
  refine Prog.Triple.modify_bind (J := fun w => w.drv = d ∧ w.wl.initialized = false ∧
    w.wl.configured = false) (fun w hw => ⟨hw.1, hw.2, rfl⟩) ?_
  refine Prog.Triple.ite (fun _ => Prog.Triple.throw fun w hw => hw) fun _ => ?_
  refine Prog.Triple.ite (fun _ => Prog.Triple.throw fun w hw => hw) fun _ => ?_
  refine Prog.Triple.modify_bind (J := fun w => w.drv = d ∧ w.wl.initialized = false ∧
    w.wl.configured = false) (fun w hw => hw) ?_
  refine Prog.Triple.ite (fun _ => Prog.Triple.throw fun w hw => hw) fun _ => ?_
  exact Prog.Triple.modify fun w hw => ⟨hw.1, hw.2.1⟩

lemma RunOk.config {size : ℕ} (hsize : size < 2 ^ 32) {w : World} (h : RunOk size w)
    (garbage : WlFlash) (mallocd : ℕ → Byte) :
    RunOk size ((do construct garbage; config (mountConfig size) mallocd : WlM Unit) w).2 := by
  set v : World := { w with wl := { garbage with configured := false, initialized := false } }
    with hv
  change RunOk size (WearLevelling.config (mountConfig size) mallocd v).2
  have hkeep := config_keeps (mountConfig size) mallocd w.drv v ⟨rfl, rfl⟩
  split at hkeep
  · next u v' hrun =>
    rw [hrun]
    have hin := config_inside hsize (w := v) h.chipSize_eq h.secSize_eq h.strayed_eq hrun
    exact RunOk.of_inside hin (fun hb => absurd hb (by simp [hv]))
  · next e v' hrun =>
    rw [hrun]
    obtain ⟨hdrv, hi, hc⟩ := hkeep
    constructor <;> simp only [hdrv, hi, hc]
    case chipSize_eq => exact h.chipSize_eq
    case secSize_eq => exact h.secSize_eq
    case strayed_eq => exact h.strayed_eq
    all_goals simp

lemma RunOk.init {size : ℕ} {w : World} (h : RunOk size w) (random : ℕ)
    (hc : w.wl.configured = true) (hr : Recoverable w) : RunOk size (init random w).2 := by
  have hinit := init_on random (h.inside hc) hr w rfl
  split at hinit
  · next u w' hrun =>
    rw [hrun]
    exact RunOk.of_inside hinit.1 fun _ => hinit.2
  · next e w' hrun =>
    rw [hrun]
    exact RunOk.of_inside hinit (by simp)

lemma RunOk.access {size : ℕ} {w : World} (h : RunOk size w) (a : Access)
    (hi : w.wl.initialized = true) : RunOk size (a.run w).2 := by
  have hrun := a.run_on w (h.live hi)
  split at hrun
  · next u w' heq =>
    rw [heq]
    exact RunOk.of_inside hrun.1 fun _ => hrun.2
  · next e w' heq =>
    rw [heq]
    exact RunOk.of_inside hrun.1 fun _ => hrun.2

lemma Run.ok {size : ℕ} (hsize : size < 2 ^ 32) {w : World} (h : Run size w) : RunOk size w := by
  induction h with
  | start hchip hsec hs hc hi => exact ⟨hchip, hsec, hs, by simp [hc], by simp [hi]⟩
  | config garbage mallocd _ ih => exact ih.config hsize garbage mallocd
  | init random _ hc hr ih => exact ih.init random hc hr
  | access a _ hi ih => exact ih.access a hi
  | powerLoss m _ ih =>
    exact ⟨ih.chipSize_eq, ih.secSize_eq, ih.strayed_eq, by simp [unconfigured],
      by simp [unconfigured]⟩

/-- The parts of an accepted partition lie one behind the other inside it. -/
lemma config_laidInside {size : ℕ} (hsize : size < 2 ^ 32) {w w' : World} {mallocd : ℕ → Byte}
    (h : config (mountConfig size) mallocd w = (.ok (), w')) : LaidInside w' := by
  obtain ⟨-, -, -, hne, hlt, rfl⟩ := config_cases h
  obtain ⟨N, st, -, -, -, -, hfit, hfl, hstv, hcfg⟩ := mountConfig_sizes hsize hne hlt
  have hend : u32 ((mountConfig size).startAddr + (mountConfig size).fullMemSize) = size := by
    simp only [mountConfig, u32, Nat.zero_add]
    exact Nat.mod_eq_of_lt hsize
  have hfit' : flashSizeOf (mountConfig size) + 4096 + 2 * st + 4096 ≤ size := by
    rw [Nat.add_mul, Nat.one_mul] at hfit
    rw [hfl]
    exact hfit
  clear hfit hfl
  have hA1 : u32Sub (u32Sub size (u32 (st * 2))) 4096 = size - 2 * st - 4096 := by
    simp only [u32, u32Sub]
    omega
  have hA2 : u32Sub (u32Sub size st) 4096 = size - st - 4096 := by
    simp only [u32Sub]
    omega
  have hA3 : u32Sub size 4096 = size - 4096 := by
    simp only [u32Sub]
    omega
  have hpage : (mountConfig size).pageSize = 4096 := rfl
  have hstart : (mountConfig size).startAddr = 0 := rfl
  have hfull : (mountConfig size).fullMemSize = size := rfl
  constructor <;> simp only [hend, hstv, hcfg, hA1, hA2, hA3]
  case data_le =>
    rw [hpage, hstart, Nat.zero_add]
    exact Nat.le_sub_of_add_le (Nat.le_sub_of_add_le (by rwa [Nat.add_right_comm]))
  case cfg_le =>
    rw [hstart, hfull]
    omega
  all_goals omega

/-- The parts of an accepted partition lie one behind the other inside it, and no run asks the
driver for an access outside it. -/
theorem run_stays_inside {size : ℕ} (hsize : size < 2 ^ 32) :
    (∀ w w' mallocd, config (mountConfig size) mallocd w = (.ok (), w') → LaidInside w') ∧
      ∀ w, Run size w → w.drv.strayed = false :=
  ⟨fun _ _ _ h => config_laidInside hsize h, fun _ h => (h.ok hsize).strayed_eq⟩

/-! ### Copies that leave the partition -/

section Strays

variable {size N : ℕ} {b : Bool}

/-- An object that has stayed inside, or whose driver has been asked for an access outside. -/
abbrev Kept (size N : ℕ) (b : Bool) : World → Prop := On size N b fun _ _ => True

lemma drvRead_strays (a n : ℕ) :
    Prog.Triple (Kept size N b) (drvRead a n) (fun _ w => Kept size N b w ∧ a + n ≤ size)
      fun _ w => w.drv.strayed = true := by
  intro w hw
  unfold drvRead
  by_cases h : a + n > w.drv.chipSize
  · rw [if_pos h]
    rfl
  · rw [if_neg h]
    exact ⟨hw, by rw [← hw.1.chipSize_eq]; omega⟩

lemma drvWrite_strays (a : ℕ) (bs : List Byte) :
    Prog.Triple (Kept size N b) (drvWrite a bs) (fun _ => Kept size N b)
      fun _ w => w.drv.strayed = true := by
  intro w hw
  unfold drvWrite
  by_cases h : a + bs.length > w.drv.chipSize
  · rw [if_pos h]
    rfl
  · rw [if_neg h]
    exact ⟨{ hw.1 with }, trivial⟩

/-- A copy whose last record lies outside the partition asks for an access outside. -/
lemma copyRecords_strays {src dst : ℕ} (hpos : 0 < size / 4096)
    (hsrc : size < recordAddr src 16 (size / 4096 * 16)) :
    Prog.Triple (Kept size N b) (copyRecords src dst) (fun _ _ => False)
      fun _ w => w.drv.strayed = true := by
  refine Prog.Triple.get_bind fun w hw => ?_
  simp only [hw.1.wrSize_eq, hw.1.fullMemSize_eq, hw.1.sectorSize_eq]
  obtain ⟨k, hk⟩ : ∃ k, size / 4096 * 16 = k + 1 := ⟨size / 4096 * 16 - 1, by omega⟩
  rw [hk] at hsrc ⊢
  have hbuff : ∀ i, Prog.Triple (Kept size N b) (readBuff (recordAddr src 16 i) 16)
      (fun _ v => Kept size N b v ∧ recordAddr src 16 i + 16 ≤ size)
      fun _ v => v.drv.strayed = true := fun i =>
    Prog.Triple.bind (drvRead_strays _ _) fun _ =>
      Prog.Triple.modify fun v hv => ⟨⟨{ hv.1.1 with }, trivial⟩, hv.2⟩
  refine Prog.Triple.bind (Prog.Triple.upTo fun i _ => ?_) fun _ => ?_
  · refine Prog.Triple.bind (hbuff i) fun _ => ?_
    refine Prog.Triple.bind (Q := fun _ => Kept size N b)
      (Prog.Triple.get_bind fun v hv => Prog.Triple.pure fun _ h => h.1) fun r => ?_
    refine Prog.Triple.ite (fun _ => ?_) fun _ => Prog.Triple.pure fun _ h => h
    exact Prog.Triple.get_bind fun v hv => drvWrite_strays _ _
  · -- the last record cannot be read
    refine Prog.Triple.bind (hbuff k) fun _ v hv => ?_
    have hnext := recordAddr_succ src 16 k
    exact absurd hv.2 (by omega)

/-- An aligned area is erased and written. -/
lemma storeState_strays {addr : ℕ} (hd : 4096 ∣ addr)
    (haddr : ∀ w, Inside size N b w → addr + w.wl.stateSize ≤ size) :
    Prog.Triple (Kept size N b) (storeState addr) (fun _ => Kept size N b)
      fun _ w => w.drv.strayed = true := by
  refine Prog.Triple.get_bind fun w hw => ?_
  have ha := haddr w hw.1
  have hn := hw.1.stateSize_dvd
  refine Prog.Triple.bind (Q := fun _ => Kept size N b) (Prog.Triple.of_ok fun v hv => ?_)
    fun _ => drvWrite_strays _ _
  exact ⟨(), _, drvEraseRange_ok (by rw [hv.1.chipSize_eq]; exact ha)
    (by rw [hv.1.secSize_eq]; exact hn) (by rw [hv.1.secSize_eq]; exact hd),
    { hv.1 with }, trivial⟩

/-- The mount of an aligned partition whose second state is broken asks for an access outside
where the copied records do not fit behind the first state. -/
lemma init_strays (random : ℕ) {w : World} (hw : Inside size N b w) (hd : 4096 ∣ size)
    (hsize : size < recordAddr w.wl.addrState1 16 (size / 4096 * 16))
    (h1 : (storedState w w.wl.addrState1).crcV2 = (storedState w w.wl.addrState1).crc)
    (h2 : (storedState w w.wl.addrState2).crcV2 ≠ (storedState w w.wl.addrState2).crc) :
    (init random w).2.drv.strayed = true := by
  have ha1 := hw.area1_le
  have ha2 := hw.area2_le
  have hst := hw.stateSize_ge
  have hdst := hw.stateSize_dvd
  have h3 := hw.addrCfg_eq
  have h4 := hw.end_eq
  have hda2 : 4096 ∣ w.wl.addrState2 := by omega
  have hpos : 0 < size / 4096 := by omega
  have hsync : Prog.Triple (Kept size N false) resyncState2 (fun _ _ => False)
      fun _ w => w.drv.strayed = true := by
    refine Prog.Triple.get_bind fun v hv => ?_
    rw [hv.1.addr1_eq hw, hv.1.addr2_eq hw]
    exact Prog.Triple.bind (storeState_strays hda2 fun u hu => by
      rw [hw.addr2_eq hu]; exact hu.area2_le) fun _ => copyRecords_strays hpos hsize
  have hbroken : Prog.Triple (Kept size N false)
      (initBroken random (storedState w w.wl.addrState1) (storedState w w.wl.addrState2))
      (fun _ _ => False) fun _ w => w.drv.strayed = true := by
    refine Prog.Triple.get_bind fun v hv => ?_
    refine Prog.Triple.ite (fun _ => ?_) fun hne => absurd h1 hne
    exact Prog.Triple.bind hsync fun _ u hu => hu.elim
  have hfrom : Prog.Triple (Kept size N false)
      (initFrom random (storedState w w.wl.addrState1) (storedState w w.wl.addrState2))
      (fun _ _ => False) fun _ w => w.drv.strayed = true := by
    unfold initFrom
    rw [if_neg (fun h => h2 h.2), if_neg (fun h => h.1 h1)]
    exact hbroken
  obtain ⟨v, hv, hrun⟩ := init_reads random hw
  rw [hrun]
  have hend := Prog.Triple.bind (R := fun _ _ => False)
    (f := fun _ => (Prog.modify fun w => { w with wl := { w.wl with initialized := true } } :
      WlM Unit)) hfrom (fun _ u hu => hu.elim) v ⟨hv.1, trivial⟩
  split at hend
  · exact hend.elim
  · next e u heq =>
    rw [heq]
    exact hend

end Strays

/-- The state that a new memory of 48 sectors is formatted with. -/
def newState : WlState :=
  let s : WlState := ⟨0, 45, 0, 0, 16, 4096, 2, 7, List.replicate 7 0, 0⟩
  { s with crc := s.crcV2 }

/-- A partition of 48 sectors whose first mount was cut off between the two state areas. -/
def halfFormatted : World :=
  ⟨unconfigured, ⟨Mem.program (fun _ => 0xff#8) (45 * 4096) newState.encode, 48 * 4096, 4096, false⟩⟩

/-- The object that is configured for it. -/
def halfConfigured : World := (config (mountConfig (48 * 4096)) (fun _ => 0#8) halfFormatted).2

/-- Its next mount asks for an access outside the partition. -/
theorem run_stays_inside_half_formatted :
    config (mountConfig (48 * 4096)) (fun _ => 0#8) halfFormatted = (.ok (), halfConfigured) ∧
      (init 7 halfConfigured).2.drv.strayed = true := by
  have hconf : config (mountConfig (48 * 4096)) (fun _ => 0#8) halfFormatted =
      (.ok (), halfConfigured) := Prod.ext (by decide +kernel) (by rw [halfConfigured])
  have hin : Inside (48 * 4096) (pagesOf (48 * 4096)) false halfConfigured :=
    config_inside (w := halfFormatted) (by decide) rfl rfl rfl hconf
  exact ⟨hconf, init_strays 7 hin (by decide) (by decide +kernel) (by decide +kernel)
    (by decide +kernel)⟩

/-- An erased partition of seven sectors. -/
def erasedSeven : World := ⟨unconfigured, ⟨fun _ => 0xff#8, 7 * 4096, 4096, false⟩⟩

/-- The object that is configured for it. -/
def configuredSeven : World :=
  ((do construct unconfigured; config (mountConfig (7 * 4096)) fun _ => 0#8 : WlM Unit)
    erasedSeven).2

/-- A new memory is recoverable. -/
lemma recoverable_seven : Recoverable configuredSeven where
  copies_le h := absurd h (by decide +kernel)
  state1 h := absurd h (by decide +kernel)
  state2 h := absurd h (by decide +kernel)
  first h := absurd h (by decide +kernel)

/-- Mounting it and reading across all of it, and more, stays inside. -/
theorem run_stays_inside_seven :
    7 * 4096 < 2 ^ 32 ∧ (init 7 configuredSeven).2.wl.initialized = true ∧
      ((Access.read 5 30000).run (init 7 configuredSeven).2).2.drv.strayed = false := by
  have hi : (init 7 configuredSeven).2.wl.initialized = true := by decide +kernel
  have hrun : Run (7 * 4096) ((Access.read 5 30000).run (init 7 configuredSeven).2).2 :=
    Run.access _ (Run.init 7 (Run.config unconfigured (fun _ => 0#8)
      (Run.start rfl rfl rfl rfl rfl)) (by decide +kernel) recoverable_seven) hi
  exact ⟨by decide, hi, (run_stays_inside (by decide)).2 _ hrun⟩

end EspIdf.WearLevelling
