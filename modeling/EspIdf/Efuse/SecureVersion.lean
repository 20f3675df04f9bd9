/-
# The secure version against rollback

The secure version is the number of programmed bits of an eFuse field.  An update programs the bits
from the present version up to the new one, as if the programmed bits were the lowest ones, and
returns success whatever becomes of the write.
-/
import EspIdf.Efuse.Counting

namespace EspIdf.Efuse

/-- What anti-rollback is configured with: `ESP_EFUSE_SECURE_VERSION`, the block of the field and
`CONFIG_BOOTLOADER_APP_SEC_VER_SIZE_EFUSE_FIELD`. -/
structure AntiRollback where
  field : List Desc
  numBlock : ℕ
  confSize : ℕ

/-- How `esp_efuse_update_secure_version` ends. -/
inductive UpdateErr where
  | ok
  | invalidArg
  | notSupported
  | fail
  deriving DecidableEq, Repr

variable {c : AntiRollback} {e e' : Chip} {v : ℕ}

namespace AntiRollback

/-- The number of bits that are used. -/
def size (c : AntiRollback) : ℕ := min c.confSize (getFieldSize c.field)

/-- `esp_efuse_read_secure_version`. -/
def readSecureVersion (c : AntiRollback) (e : Chip) : Option ℕ := do
  let res ← readFieldBlob e (some c.field) (some 0) c.size
  let secureVersion := BitVec.ofNat 32 (res.2.getD 0)
  return ((secureVersion.setWidth 64 &&& ((1#64 <<< c.size) - 1)).setWidth 32).cpop.toNat

/-- A word as it lies in memory. -/
def bytesOf (w : BitVec 32) : ℕ → BitVec 8 := fun i => w.extractLsb' (8 * i) 8

/-- `write_anti_rollback`, which drops the error. -/
def writeAntiRollback (c : AntiRollback) (e : Chip) (newBits : BitVec 32) : Option Chip :=
  (writeFieldBlob e (some c.field) (some (bytesOf newBits)) c.size).map Prod.snd

/-- `esp_efuse_check_secure_version`; the version is read three times. -/
def checkSecureVersion (c : AntiRollback) (e : Chip) (secureVersion : ℕ) : Option Bool := do
  let secVerHw ← c.readSecureVersion e
  let secVerHwC1 ← c.readSecureVersion e
  let secVerHwC2 ← c.readSecureVersion e
  if secVerHw ≠ secVerHwC1 ∨ secVerHw ≠ secVerHwC2 then none
  else return decide (secVerHw ≤ secureVersion)

/-- The bits that an update from one version to another programs. -/
def newBits (secVerHw secureVersion : ℕ) : BitVec 32 :=
  let numBitHw := ((1#64 <<< secVerHw) - 1).setWidth 32
  let numBitApp := ((1#64 <<< secureVersion) - 1).setWidth 32
  numBitApp - numBitHw

/-- `esp_efuse_update_secure_version`. -/
def updateSecureVersion (c : AntiRollback) (e : Chip) (secureVersion : ℕ) :
    Option (UpdateErr × Chip) :=
  if c.confSize < secureVersion then some (.invalidArg, e)
  else if getCodingScheme e.rdata6 c.numBlock ≠ .none then some (.notSupported, e)
  else do
    let secVerHw ← c.readSecureVersion e
    if secVerHw < secureVersion then
      let e ← c.writeAntiRollback e (newBits secVerHw secureVersion)
      return (.ok, e)
    else if secVerHw > secureVersion then return (.fail, e)
    else return (.ok, e)

/-- The field has different bits in existing registers of one block, and its configured size is
that of a word at most. -/
structure WellFormed (c : AntiRollback) : Prop where
  block : ∀ d ∈ c.field, d.efuseBlock = c.numBlock
  exist : ∀ d ∈ c.field, d.Exists
  nodup : (c.field.flatMap Desc.bits).Nodup
  confSize_le : c.confSize ≤ 32

/-- The bit `i` of the field is programmed. -/
def bit (c : AntiRollback) (r : Regs) (i : ℕ) : Bool := listBit (targetBits c.field c.size) r i

/-- The number of programmed bits that are used. -/
def version (c : AntiRollback) (r : Regs) : ℕ := (List.range c.size).countP (c.bit r)

/-! ### Reading the version -/

lemma length_target (c : AntiRollback) : (targetBits c.field c.size).length = c.size := by
  rw [targetBits, List.length_take, length_flatMap_bits, size]
  omega

lemma min_size (c : AntiRollback) : min c.size (getFieldSize c.field) = c.size := by
  rw [size]
  omega

lemma getLsbD_ones {n i : ℕ} (hn : n ≤ 32) :
    ((1#64 <<< n) - 1).getLsbD i = decide (i < n) := by
  have hone : ∀ n ≤ 32, (1#64 <<< n) - 1 = BitVec.ofNat 64 (2 ^ n - 1) := by decide
  rw [hone n hn, BitVec.getLsbD_ofNat, Nat.testBit_two_pow_sub_one]
  by_cases hi : i < n
  · simp [hi, show i < 64 by omega]
  · simp [hi]

lemma WellFormed.checkRange (hc : c.WellFormed)
    (hnone : getCodingScheme e.rdata6 c.numBlock = .none) :
    ∀ d ∈ c.field, checkRangeOfBits e.rdata6 d.efuseBlock d.bitStart d.bitCount = true :=
  fun d hd => (hc.exist d hd).checkRange (by rw [hc.block d hd, hnone])

lemma WellFormed.exist_clipped (hc : c.WellFormed) {n : ℕ} :
    ∀ p ∈ clip n (c.field.flatMap Desc.pieces) 0, RegExists p.blk p.numReg :=
  clip_exist (field_pieces_exist hc.exist)

lemma countP_range_lt {p : ℕ → Bool} {m n : ℕ} (h : m ≤ n) :
    (List.range n).countP (fun i => decide (i < m) && p i) = (List.range m).countP p := by
  induction n, h using Nat.le_induction with
  | base => exact List.countP_congr fun i hi => by simp [List.mem_range.mp hi]
  | succ n hle ih =>
    rw [List.range_succ, List.countP_append, ih, List.countP_singleton,
      decide_eq_false (Nat.not_lt_of_le hle), Bool.false_and]
    rfl

/-- The version that is read. -/
lemma readSecureVersion_eq (hc : c.WellFormed)
    (hnone : getCodingScheme e.rdata6 c.numBlock = .none) :
    c.readSecureVersion e = some (c.version e.virtBlocks) := by
  have hsize : c.size ≤ 32 := (Nat.min_le_left _ _).trans hc.confSize_le
  obtain ⟨err, dst, hread, hdst⟩ : ∃ err dst,
      readFieldBlob e (some c.field) (some 0) c.size = some (err, some dst) ∧
        ∀ i < c.size, dst.testBit i = c.bit e.virtBlocks i := by
    by_cases hzero : c.size = 0
    · refine ⟨.invalidArg, 0, ?_, fun i hi => by omega⟩
      rw [readFieldBlob, if_pos hzero]
    · obtain ⟨dst, hread, hdst⟩ := @readFieldBlob_eq e c.field c.size 0 hzero
        (hc.checkRange hnone) hc.exist_clipped
      rw [c.min_size] at hdst
      exact ⟨.ok, dst, hread, fun i _ => hdst i⟩
  rw [readSecureVersion, hread]
  refine congrArg some ?_
  rw [cpop_eq_countP, version, ← countP_range_lt hsize]
  refine List.countP_congr fun i hi => ?_
  have hi32 := List.mem_range.mp hi
  rw [Option.getD_some, BitVec.getLsbD_setWidth, BitVec.getLsbD_and, BitVec.getLsbD_setWidth,
    BitVec.getLsbD_ofNat, getLsbD_ones hsize]
  by_cases hlt : i < c.size
  · rw [hdst i hlt]
    simp [hlt, hi32, show i < 64 by omega]
  · simp [hlt]

/-! ### Updating the version -/

lemma getLsbD_newBits {k i : ℕ} (hkv : k ≤ v) (hv : v ≤ 32) :
    (newBits k v).getLsbD i = decide (k ≤ i ∧ i < v) := by
  have hones : ∀ n ≤ 32, (((1#64 <<< n) - 1).setWidth 32).toNat = 2 ^ n - 1 := by decide
  have hle : 2 ^ k ≤ 2 ^ v := Nat.pow_le_pow_right Nat.two_pos hkv
  have hlt : 2 ^ v ≤ 2 ^ 32 := Nat.pow_le_pow_right Nat.two_pos hv
  have hpos : 0 < 2 ^ k := Nat.two_pow_pos k
  have hnat : (newBits k v).toNat = 2 ^ k * (2 ^ (v - k) - 1) := by
    rw [newBits, BitVec.toNat_sub, hones k (by omega), hones v hv, Nat.mul_sub, ← Nat.pow_add,
      Nat.add_sub_cancel' hkv, Nat.mul_one]
    omega
  rw [← BitVec.testBit_toNat, hnat, Nat.testBit_two_pow_mul, Nat.testBit_two_pow_sub_one]
  by_cases hki : k ≤ i
  · simp only [hki, decide_true, Bool.true_and, true_and]
    exact decide_eq_decide.mpr (by omega)
  · simp [hki]

lemma blobBit_bytesOf {w : BitVec 32} {i : ℕ} : blobBit (bytesOf w) i = w.getLsbD i := by
  rw [blobBit, bytesOf, BitVec.getLsbD_extractLsb', decide_eq_true (Nat.mod_lt _ (by omega)),
    Bool.true_and, Nat.div_add_mod]

/-- The call that programs the new bits. -/
def writeCall (c : AntiRollback) (w : BitVec 32) : Call :=
  .writeFieldBlob (some c.field) (some (bytesOf w)) c.size

lemma writeAntiRollback_eq {w : BitVec 32} :
    c.writeAntiRollback e w = ((c.writeCall w).run e).map Prod.snd := rfl

/-- The call is accepted if none of its bits is programmed. -/
lemma writeCall_accepted (hc : c.WellFormed)
    (hnone : getCodingScheme e.rdata6 c.numBlock = .none) {w : BitVec 32} {r : Regs} :
    (c.writeCall w).Accepted e.rdata6 r ↔
      c.size ≠ 0 ∧ ∀ i < c.size, w.getLsbD i = true → c.bit r i = false := by
  have hread : readable e.rdata6 c.field = c.field := readable_eq_self (hc.checkRange hnone)
  have hclear : (∀ u ∈ blobValues e.rdata6 c.field (bytesOf w) c.size, clear r u = true) ↔
      ∀ i < c.size, w.getLsbD i = true → c.bit r i = false := by
    simp only [clear_iff]
    rw [← List.forall_mem_flatMap]
    rw [blobValues, hread, c.min_size]
    simp only [mem_blobWrites field_pieces_le, field_pieces_bits, Nat.sub_zero, Nat.zero_add,
      blobBit_bytesOf]
    constructor
    · intro h i hi hw
      have hget : (targetBits c.field c.size)[i]? = some _ :=
        List.getElem?_eq_getElem (by rw [length_target]; exact hi)
      rw [bit, listBit, hget]
      exact h _ ⟨i, hget, hw⟩
    · rintro h x ⟨i, hget, hw⟩
      obtain ⟨hlt, -⟩ := List.getElem?_eq_some_iff.mp hget
      have hi := h i (by rw [← c.length_target]; exact hlt) hw
      have hget' : (targetBits c.field c.size)[i]? = some x := hget
      rw [bit, listBit, hget'] at hi
      exact hi
  simp only [writeCall, Call.Accepted, hclear, hread, true_or, and_true]

/-- A call that fails outside batch mode burns nothing. -/
lemma finish_failed {err : EspErr} (h : (Chip.finish e err).1 ≠ .ok) :
    (Chip.finish e err).2.virtBlocks = e.virtBlocks ∧
      (Chip.finish e err).2.rdata6 = e.rdata6 := by
  unfold Chip.finish at h ⊢
  split
  · exact ⟨rfl, rfl⟩
  · next hbatch =>
    rw [if_neg hbatch] at h
    dsimp only at h ⊢
    split
    · next hok =>
      rw [if_pos hok] at h
      unfold codeAndBurn at h ⊢
      dsimp only at h ⊢
      split
      · next hcoded =>
        rw [if_pos hcoded] at h
        exact absurd rfl h
      · exact ⟨rfl, rfl⟩
    · exact ⟨rfl, rfl⟩

/-- Empty program registers suit every coding scheme. -/
lemma fitsBlock_of_zero {scheme : CodingScheme} {b w : Block} (h : ∀ i, w i = 0) :
    FitsBlock scheme b w := by
  cases scheme with
  | none => trivial
  | threeQuarters =>
    exact ⟨h 6, h 7, fun g _ => .inl fun n _ => byteAt_of_word_eq_zero (h _)⟩
  | repetition => exact fun i _ => h _

/-- What the call stages can be coded. -/
lemma fits_of_staged (hc : c.WellFormed) (hnone : getCodingScheme e.rdata6 c.numBlock = .none)
    {w : BitVec 32} {ws : Regs} {err : EspErr}
    (h : Staged e.rdata6 e.virtBlocks (fun _ _ => 0) (c.writeCall w) err ws) :
    Fits e.rdata6 e.virtBlocks ws := by
  intro blk _ _
  by_cases hblk : blk = c.numBlock
  · rw [hblk, hnone]
    trivial
  · refine fitsBlock_of_zero fun i => BitVec.eq_of_getLsbD_eq fun n _ => ?_
    refine (Bool.eq_false_iff.mpr fun hbit => ?_).trans BitVec.getLsbD_zero.symm
    rcases (h.adds (blk, i, n)).mp hbit with hzero | hset
    · simp [Regs.has] at hzero
    · obtain ⟨u, hu, hx⟩ := List.mem_flatMap.mp hset
      have hmem : (blk, i, n) ∈ (blobWrites (bytesOf w) (min c.size (getFieldSize c.field))
          (c.field.flatMap Desc.pieces) 0).flatMap valueBits := by
        rw [blobValues, readable_eq_self (hc.checkRange hnone)] at hu
        exact List.mem_flatMap.mpr ⟨u, List.takeWhile_subset _ hu, hx⟩
      rw [mem_blobWrites field_pieces_le, field_pieces_bits] at hmem
      obtain ⟨k, hk, -⟩ := hmem
      obtain ⟨d, hd, hmem⟩ := List.mem_flatMap.mp
        (List.mem_of_mem_take (List.mem_of_getElem? hk))
      rw [Desc.bits, List.mem_map] at hmem
      obtain ⟨m, -, hm⟩ := hmem
      exact hblk ((Prod.mk.inj hm).1.symm.trans (hc.block d hd))

/-- Outside batch mode the call programs its bits if it is accepted, and otherwise it programs
nothing. -/
lemma run_writeCall (hc : c.WellFormed) (hnone : getCodingScheme e.rdata6 c.numBlock = .none)
    (w : BitVec 32) :
    ∃ err e', (c.writeCall w).run e = some (err, e') ∧ e'.rdata6 = e.rdata6 ∧
      (e.batchMode = false ∧ (c.writeCall w).Accepted e.rdata6 e.virtBlocks →
        ∀ i < c.size, c.bit e'.virtBlocks i = (c.bit e.virtBlocks i || w.getLsbD i)) ∧
      (¬ (e.batchMode = false ∧ (c.writeCall w).Accepted e.rdata6 e.virtBlocks) →
        e'.virtBlocks = e.virtBlocks) := by
  have hread : readable e.rdata6 c.field = c.field := readable_eq_self (hc.checkRange hnone)
  obtain ⟨⟨err, e'⟩, hrun⟩ : ∃ res, (c.writeCall w).run e = some res := by
    show ∃ res, writeFieldBlob e (some c.field) (some (bytesOf w)) c.size = some res
    unfold writeFieldBlob
    dsimp only
    split
    · exact ⟨_, rfl⟩
    · next hsize =>
      have hrdata : e.start.rdata6 = e.rdata6 := by
        rw [Chip.start]
        split <;> rfl
      obtain ⟨s, hs⟩ := @writeBlob_total e.start.virtBlocks ⟨.ok, e.start.wdata, 0, 0⟩ _
        (min c.size (getFieldSize c.field)) (bytesOf w) (field_pieces_exist hc.exist)
      rw [utilityProcess, if_neg hsize, processDescs_eq, hrdata, hread, hs]
      exact ⟨_, rfl⟩
  refine ⟨err, e', hrun, ?_⟩
  cases hbatch : e.batchMode with
  | true =>
    obtain ⟨ws, rfl, -⟩ := Call.run_batch hbatch hrun
    exact ⟨rfl, fun h => Bool.noConfusion h.1, fun _ => rfl⟩
  | false =>
    by_cases hacc : (c.writeCall w).Accepted e.rdata6 e.virtBlocks
    · have hok : err = .ok := by
        rcases Call.run_eq (c.writeCall w) e with ⟨-, hstage⟩ | hrun'
        · exact absurd ((Call.stage_spec (hstage e.wdata)).ok_iff.mpr hacc) (by simp)
        · rw [hrun', Option.map_eq_some_iff] at hrun
          obtain ⟨⟨err', ws⟩, hstage, hfinish⟩ := hrun
          have hstart : e.start = e.reset := if_neg (by simp [hbatch])
          rw [hstart] at hstage hfinish
          have hstaged := Call.stage_spec hstage
          obtain rfl := hstaged.ok_iff.mpr hacc
          have hoff : ¬ ({ e.reset with wdata := ws } : Chip).batchMode = true := by
            simp [Chip.reset, hbatch]
          rw [Chip.finish, if_neg hoff, if_pos rfl, Prod.mk.injEq] at hfinish
          rw [← hfinish.1]
          exact (codeAndBurn_eq _).1.mpr (fits_of_staged hc hnone hstaged)
      subst hok
      obtain ⟨-, hrdata, -, hbits⟩ := writeFieldBlob_ok hbatch (hc.checkRange hnone) hrun
      rw [c.min_size] at hbits
      refine ⟨hrdata, fun _ i hi => ?_, fun h => absurd ⟨rfl, hacc⟩ h⟩
      have hdata : ∀ x ∈ targetBits c.field c.size, DataBit e.rdata6 x := by
        intro x hx
        obtain ⟨d, hd, hx⟩ := List.mem_flatMap.mp (List.mem_of_mem_take hx)
        exact dataBit_of_checkRange (hc.checkRange hnone d hd) hx
      have hnodup : (targetBits c.field c.size).Nodup :=
        hc.nodup.sublist (List.take_sublist _ _)
      have hwritten := listBit_written hnodup (fun x hx => hbits x (hdata x hx))
        (by rw [length_target]; exact hi)
      rw [blobBit_bytesOf] at hwritten
      exact hwritten
    · have hne : err ≠ .ok := by
        rintro rfl
        obtain ⟨ws, -, hstaged, -⟩ := Call.run_single hbatch hrun
        exact hacc (hstaged.ok_iff.mp rfl)
      have hkept : e'.virtBlocks = e.virtBlocks ∧ e'.rdata6 = e.rdata6 := by
        rcases Call.run_eq (c.writeCall w) e with ⟨hrun', -⟩ | hrun'
        · rw [hrun', Option.some.injEq, Prod.mk.injEq] at hrun
          rw [← hrun.2]
          exact ⟨rfl, rfl⟩
        · rw [hrun', Option.map_eq_some_iff] at hrun
          obtain ⟨⟨err', ws⟩, -, hfinish⟩ := hrun
          have hstart : e.start = e.reset := if_neg (by simp [hbatch])
          rw [hstart] at hfinish
          have h := @finish_failed { e.reset with wdata := ws } err' (by rw [hfinish]; exact hne)
          rw [hfinish] at h
          exact h
      exact ⟨hkept.2, fun h => absurd h.2 hacc, fun _ => hkept.1⟩

lemma countP_or_interval {p : ℕ → Bool} {k n : ℕ}
    (hdisj : ∀ i < n, k ≤ i → i < v → p i = false) :
    (List.range n).countP (fun i => p i || decide (k ≤ i ∧ i < v)) =
      (List.range n).countP p + (min n v - k) := by
  induction n with
  | zero => simp
  | succ n ih =>
    have hn := hdisj n n.lt_succ_self
    rw [List.range_succ, List.countP_append, List.countP_append, List.countP_singleton,
      List.countP_singleton, ih fun i hi => hdisj i (hi.trans n.lt_succ_self)]
    by_cases hin : k ≤ n ∧ n < v
    · rw [hn hin.1 hin.2, decide_eq_true hin]
      simp only [Bool.or_true, if_true, Bool.false_eq_true, if_false]
      omega
    · rw [decide_eq_false hin, Bool.or_false]
      omega

lemma version_le_size (c : AntiRollback) (r : Regs) : c.version r ≤ c.size := by
  have h := List.countP_le_length (p := c.bit r) (l := List.range c.size)
  rwa [List.length_range] at h

/-- The new bits are accepted if they are all free. -/
lemma writeCall_newBits (hc : c.WellFormed)
    (hnone : getCodingScheme e.rdata6 c.numBlock = .none) {r : Regs} {k : ℕ} (hkv : k ≤ v)
    (hv : v ≤ 32) :
    (c.writeCall (newBits k v)).Accepted e.rdata6 r ↔
      c.size ≠ 0 ∧ ∀ i < c.size, k ≤ i → i < v → c.bit r i = false := by
  have hsize : c.size ≤ 32 := (Nat.min_le_left _ _).trans hc.confSize_le
  rw [writeCall_accepted hc hnone]
  refine and_congr_right fun _ => forall₂_congr fun i hi => ?_
  rw [getLsbD_newBits hkv hv, decide_eq_true_iff, and_imp]

/-- What an update has to keep to. -/
structure Promise (c : AntiRollback) (e : Chip) (v : ℕ) (err : UpdateErr) (e' : Chip) : Prop where
  /-- A successful update stores the version. -/
  stored : err = .ok → ∃ m, c.readSecureVersion e' = some m ∧ v ≤ m ∧
    ∀ w < m, c.checkSecureVersion e' w = some false
  /-- What is handed over to be burned is not programmed yet. -/
  fresh : ∀ m err ws, c.readSecureVersion e = some m →
    (c.writeCall (newBits m v)).stage e.rdata6 e.virtBlocks (fun _ _ => 0) = some (err, ws) →
    ∀ x, ws.has x = true → e.virtBlocks.has x = false
  increases : ∀ m m', c.readSecureVersion e = some m → c.readSecureVersion e' = some m' → m ≤ m'

lemma stage_fresh {w : BitVec 32} {err : EspErr} {ws : Regs} {x : Pos}
    (h : (c.writeCall w).stage e.rdata6 e.virtBlocks (fun _ _ => 0) = some (err, ws))
    (hx : ws.has x = true) : e.virtBlocks.has x = false := by
  rcases ((Call.stage_spec h).adds x).mp hx with hzero | hset
  · simp [Regs.has] at hzero
  · obtain ⟨u, hu, hx⟩ := List.mem_flatMap.mp hset
    exact clear_iff.mp (List.mem_takeWhile_imp hu) x hx

lemma check_lower {m w : ℕ} (h : c.readSecureVersion e = some m) (hw : w < m) :
    c.checkSecureVersion e w = some false := by
  simp [checkSecureVersion, h, hw]

/-- An update that leaves the programmed bits alone keeps its promise if it fails or has nothing
to do. -/
lemma promise_unchanged {err : UpdateErr}
    (h : err = .ok → ∃ m, c.readSecureVersion e = some m ∧ v ≤ m) : Promise c e v err e where
  stored := by
    intro hok
    obtain ⟨m, hm, hle⟩ := h hok
    exact ⟨m, hm, hle, fun w hw => check_lower hm hw⟩
  fresh := fun _ _ _ _ hstage _ hx => stage_fresh hstage hx
  increases := fun m m' hm hm' => (Option.some.inj (hm.symm.trans hm')).le

/-- An update keeps its promise if it is refused, if there is nothing to do or if, outside batch
mode, the bits from the present version up to the new one are in the field and not programmed. -/
theorem updateSecureVersion_iff (hc : c.WellFormed) :
    (∃ err e', c.updateSecureVersion e v = some (err, e') ∧ Promise c e v err e') ↔
      c.confSize < v ∨ getCodingScheme e.rdata6 c.numBlock ≠ .none ∨ v ≤ c.version e.virtBlocks ∨
      (e.batchMode = false ∧ v ≤ c.size ∧
        ∀ i, c.version e.virtBlocks ≤ i → i < v → c.bit e.virtBlocks i = false) := by
  rw [updateSecureVersion]
  by_cases hconf : c.confSize < v
  · simp only [hconf, true_or, iff_true]
    exact ⟨_, _, rfl, promise_unchanged fun h => UpdateErr.noConfusion h⟩
  by_cases hscheme : getCodingScheme e.rdata6 c.numBlock ≠ .none
  · simp only [if_neg hconf, hscheme, ne_eq, not_false_eq_true, true_or, or_true, iff_true]
    exact ⟨_, _, rfl, promise_unchanged fun h => UpdateErr.noConfusion h⟩
  have hnone := not_not.mp hscheme
  have hread := readSecureVersion_eq hc hnone
  rw [if_neg hconf, if_neg hscheme, hread]
  simp only [hconf, hscheme, false_or]
  rw [Option.bind_eq_bind, Option.bind_some]
  by_cases hlt : c.version e.virtBlocks < v
  · rw [if_pos hlt, writeAntiRollback_eq]
    obtain ⟨err, e', hrun, hrdata, hdone, hkept⟩ :=
      run_writeCall hc hnone (newBits (c.version e.virtBlocks) v)
    have hread' : c.readSecureVersion e' = some (c.version e'.virtBlocks) :=
      readSecureVersion_eq hc (by rw [hrdata]; exact hnone)
    have hv : v ≤ 32 := (Nat.not_lt.mp hconf).trans hc.confSize_le
    have hsize : c.size ≤ 32 := (Nat.min_le_left _ _).trans hc.confSize_le
    have hacc := writeCall_newBits (r := e.virtBlocks) hc hnone hlt.le hv
    rw [hrun, Option.map_some, Option.bind_eq_bind, Option.bind_some]
    simp only [Nat.not_le.mpr hlt, false_or]
    have hcount : e.batchMode = false →
        (c.writeCall (newBits (c.version e.virtBlocks) v)).Accepted e.rdata6 e.virtBlocks →
        c.version e'.virtBlocks = min c.size v := by
      intro hbatch hacc'
      have hbits := hdone ⟨hbatch, hacc'⟩
      have hle := c.version_le_size e.virtBlocks
      have hsum : c.version e'.virtBlocks =
          (List.range c.size).countP fun i =>
            c.bit e.virtBlocks i || decide (c.version e.virtBlocks ≤ i ∧ i < v) := by
        refine List.countP_congr fun i hi => ?_
        have hi := List.mem_range.mp hi
        rw [hbits i hi, getLsbD_newBits hlt.le hv]
      rw [hsum, countP_or_interval (hacc.mp hacc').2, ← version]
      omega
    constructor
    · rintro ⟨_, _, heq, hpromise⟩
      obtain ⟨rfl, rfl⟩ := Prod.mk.inj (Option.some.inj heq)
      obtain ⟨m, hm, hle, -⟩ := hpromise.stored rfl
      obtain rfl := Option.some.inj (hread'.symm.trans hm)
      by_cases hdo : e.batchMode = false ∧
          (c.writeCall (newBits (c.version e.virtBlocks) v)).Accepted e.rdata6 e.virtBlocks
      · have hall := hcount hdo.1 hdo.2
        have hvsize : v ≤ c.size := by omega
        exact ⟨hdo.1, hvsize, fun i hi hiv =>
          (hacc.mp hdo.2).2 i (hiv.trans_le hvsize) hi hiv⟩
      · rw [hkept hdo] at hle
        omega
    · rintro ⟨hbatch, hvsize, hclear⟩
      have hall := hcount hbatch (hacc.mpr ⟨by omega, fun i _ hi hiv => hclear i hi hiv⟩)
      refine ⟨_, _, rfl, fun _ => ⟨_, hread', by omega, fun w hw => check_lower hread' hw⟩,
        fun _ _ _ _ hstage _ hx => stage_fresh hstage hx, fun m m' hm hm' => ?_⟩
      rw [hread] at hm
      rw [hread'] at hm'
      have := Option.some.inj hm
      have := Option.some.inj hm'
      omega
  · rw [if_neg hlt]
    have hle := Nat.not_lt.mp hlt
    simp only [hle, true_or, iff_true]
    by_cases hgt : c.version e.virtBlocks > v
    · rw [if_pos hgt]
      exact ⟨_, _, rfl, promise_unchanged fun h => UpdateErr.noConfusion h⟩
    · rw [if_neg hgt]
      exact ⟨_, _, rfl, promise_unchanged fun _ => ⟨_, hread, hle⟩⟩

/-- The field in block 3, of which all bits are used. -/
def esp32Field : AntiRollback := ⟨[⟨3, 128, 32⟩], 3, 32⟩

lemma esp32Field_wellFormed : esp32Field.WellFormed := ⟨by decide, by decide, by decide, by decide⟩

theorem updateSecureVersion_iff_blank :
    (∃ err e', esp32Field.updateSecureVersion blank 3 = some (err, e') ∧
      Promise esp32Field blank 3 err e') ↔
      esp32Field.confSize < 3 ∨ getCodingScheme blank.rdata6 esp32Field.numBlock ≠ .none ∨
      3 ≤ esp32Field.version blank.virtBlocks ∨
      (blank.batchMode = false ∧ 3 ≤ esp32Field.size ∧
        ∀ i, esp32Field.version blank.virtBlocks ≤ i → i < 3 →
          esp32Field.bit blank.virtBlocks i = false) :=
  updateSecureVersion_iff esp32Field_wellFormed

/-- A chip of whose version field only the second bit is programmed. -/
def secondBit : Chip := { blank with virtBlocks := setReg blank.virtBlocks 3 4 2 }

/-- From the second bit alone, version 2 cannot be reached, and the update succeeds. -/
theorem updateSecureVersion_ignores_failure :
    esp32Field.WellFormed ∧
    (esp32Field.updateSecureVersion secondBit 2).bind (fun res =>
      (esp32Field.readSecureVersion res.2).map fun m => (res.1, m)) = some (.ok, 1) ∧
    ¬ ∃ err e', esp32Field.updateSecureVersion secondBit 2 = some (err, e') ∧
      Promise esp32Field secondBit 2 err e' := by
  have hres : (esp32Field.updateSecureVersion secondBit 2).bind (fun res =>
      (esp32Field.readSecureVersion res.2).map fun m => (res.1, m)) = some (.ok, 1) := by
    decide +kernel
  refine ⟨esp32Field_wellFormed, hres, ?_⟩
  rintro ⟨err, e', hupdate, hpromise⟩
  rw [hupdate, Option.bind_some, Option.map_eq_some_iff] at hres
  obtain ⟨m, hm, hpair⟩ := hres
  obtain ⟨rfl, rfl⟩ := Prod.mk.inj hpair
  obtain ⟨m, hm', hle, -⟩ := hpromise.stored rfl
  obtain rfl := Option.some.inj (hm.symm.trans hm')
  omega

end AntiRollback

end EspIdf.Efuse
