/-
# The application and the bootloader select the same slot

The application encodes a slot as a sequence number, by a search from the active one on, and
writes it over the record that is not active; the bootloader decodes the active record.  The
sequence number that the search finds is the first one from the active one on that stands
for the slot, so the new record is active unless the old one has the same number, and then
both stand for the slot.  What the two programs make of arbitrary records is compared as
well.

The one obstacle is the count of slots: with sixteen slots the application goes on to the
subtype of the test app and fails an assertion if there is one.
-/
import EspIdf.Ota.Slots

namespace EspIdf.Ota

open EspIdf.Lib

variable {table : List Partition} {n : ℕ} {dev : Device} {m : Mem}

/-! ### The search for a sequence number -/

/-- The search ends at the first candidate that is not below the active number. -/
lemma searchSeq_spec {seq id : ℕ} : ∀ (fuel i t : ℕ), i ≤ t → t < i + fuel →
    seq ≤ (id + 1) % n + t * n → (id + 1) % n + t * n < 2 ^ 32 →
    ∃ j, i ≤ j ∧ searchSeq seq id n fuel i = some ((id + 1) % n + j * n) ∧
      seq ≤ (id + 1) % n + j * n ∧ (id + 1) % n + j * n ≤ (id + 1) % n + t * n ∧
      ∀ k, i ≤ k → k < j → (id + 1) % n + k * n < seq := by
  intro fuel
  induction fuel with
  | zero => intro i t h1 h2; omega
  | succ fuel ih =>
    intro i t hit htf hseq hlt
    have hmono : i * n ≤ t * n := Nat.mul_le_mul_right n hit
    have hcand : seqCandidate id n i = (id + 1) % n + i * n := by
      rw [seqCandidate, u32_of_lt (show i * n < 2 ^ 32 by omega), u32_of_lt (by omega)]
    rw [searchSeq, hcand]
    by_cases hgt : seq > (id + 1) % n + i * n
    · have hne : i ≠ t := by
        rintro rfl
        omega
      obtain ⟨j, h1, h2, h3, h4, h5⟩ := ih (i + 1) t (by omega) (by omega) hseq hlt
      refine ⟨j, by omega, by rw [if_pos hgt]; exact h2, h3, h4, ?_⟩
      intro k hk hkj
      by_cases hki : k = i
      · subst hki
        exact hgt
      · exact h5 k (by omega) hkj
    · exact ⟨i, Nat.le_refl i, by rw [if_neg hgt], by omega, by omega, fun k h1 h2 => by omega⟩

/-- The number that the search finds is the first from `seq` on that stands for slot `id`. -/
lemma searchSeq_found {seq : ℕ} (id : ℕ) (hn : 0 < n) (hseq : 0 < seq) (hlt : seq + n ≤ 2 ^ 32) :
    ∃ v, searchSeq seq id n (2 ^ 32) 0 = some v ∧ seq ≤ v ∧ v < seq + n ∧
      v % n = (id + 1) % n := by
  have hr : (id + 1) % n < n := Nat.mod_lt _ hn
  -- the round in which the candidate passes the active number
  have hdiv := Nat.div_add_mod (seq + n - 1 - (id + 1) % n) n
  have hmod := Nat.mod_lt (seq + n - 1 - (id + 1) % n) hn
  have hcomm : n * ((seq + n - 1 - (id + 1) % n) / n) =
      (seq + n - 1 - (id + 1) % n) / n * n := Nat.mul_comm _ _
  have hle : (seq + n - 1 - (id + 1) % n) / n ≤ seq + n - 1 - (id + 1) % n := Nat.div_le_self _ _
  obtain ⟨j, -, hj, h3, h4, h5⟩ := searchSeq_spec (n := n) (2 ^ 32) 0
    ((seq + n - 1 - (id + 1) % n) / n) (Nat.zero_le _) (by omega)
    (show seq ≤ (id + 1) % n + (seq + n - 1 - (id + 1) % n) / n * n by omega) (by omega)
  refine ⟨_, hj, h3, by omega, ?_⟩
  rw [Nat.add_mul_mod_self_right, Nat.mod_mod]

/-- What the search finds is not below the active number. -/
lemma le_of_searchSeq {seq id v : ℕ} : ∀ fuel i, searchSeq seq id n fuel i = some v →
    seq ≤ v ∧ v < 2 ^ 32 := by
  intro fuel
  induction fuel with
  | zero => intro i h; simp [searchSeq] at h
  | succ fuel ih =>
    intro i h
    rw [searchSeq] at h
    split at h
    · exact ih _ h
    · obtain rfl := Option.some.inj h
      exact ⟨by omega, u32_lt _⟩

/-! ### Records -/

lemma otaSelectValid_iff {s : SelectEntry} : otaSelectValid s = true ↔
    s.otaSeq ≠ seqErased ∧ s.otaState ≠ imgInvalid ∧ s.otaState ≠ imgAborted ∧
      s.crc = otaSelectCrc s := by
  simp [otaSelectValid, otaSelectInvalid, and_assoc]

lemma otaSelectInvalid_of_valid {s : SelectEntry} (h : otaSelectValid s = true) :
    otaSelectInvalid s = false := by
  simp only [otaSelectValid, Bool.and_eq_true, beq_iff_eq] at h
  exact h.1

/-- A record with a number that is not the erased one is valid in the states of an image that
has not been rejected. -/
lemma valid_withSeq {s : SelectEntry} {state seq : BitVec 32} (hseq : seq ≠ seqErased)
    (h1 : state ≠ imgInvalid) (h2 : state ≠ imgAborted) :
    otaSelectValid ((s.withState state).withSeq seq) = true :=
  otaSelectValid_iff.mpr ⟨hseq, h1, h2, rfl⟩

/-- The state does not enter the checksum. -/
lemma valid_withState_iff {s : SelectEntry} {state : BitVec 32} :
    otaSelectValid (s.withState state) = true ↔ s.otaSeq ≠ seqErased ∧ state ≠ imgInvalid ∧
      state ≠ imgAborted ∧ s.crc = otaSelectCrc s :=
  otaSelectValid_iff

lemma setNewStateOtadata_ne (dev : Device) : setNewStateOtadata dev ≠ imgInvalid ∧
    setNewStateOtadata dev ≠ imgAborted ∧ setNewStateOtadata dev ≠ imgPendingVerify := by
  unfold setNewStateOtadata
  split <;> decide

/-! ### Writing a record -/

lemma rewriteOtaSeq_ok {two : Fin 2 → SelectEntry} {seq : BitVec 32} {i : Fin 2}
    {part : Partition} (hroom : 2 * secSize ≤ part.size) :
    rewriteOtaSeq two seq i part m = (.ok (), storeEntry m i ((two i).withSeq seq)) := by
  have hsec : secSize = 4096 := rfl
  have hi := i.isLt
  rw [hsec] at hroom
  have herase : eraseRange part (secSize * i) secSize m =
      (.ok (), m.erase (secSize * i) secSize) := by
    rw [eraseRange, hsec, if_neg (by omega), if_neg (by omega), if_neg (by omega),
      if_neg (by omega)]
  rw [rewriteOtaSeq, Prog.bind_ok herase, partitionWrite, hsec, if_neg (by omega),
    if_neg (by rw [length_encode]; omega)]
  rfl

lemma readOtadata_eq (dev : Device) (ht : Slots dev.table n) : ∃ part,
    readOtadata dev m = (.ok (some (part, readTwo m)), m) ∧ 2 * secSize ≤ part.size ∧
      findFirst dev.table typeData subtypeDataOta = some part := by
  obtain ⟨part, hpart, -, hroom⟩ := exists_otadata ht
  exact ⟨part, by rw [readOtadata, hpart]; rfl, hroom, hpart⟩

/-- The record that selecting a slot writes, and where. -/
def selectSlot (dev : Device) (n k : ℕ) (m : Mem) : Option Mem :=
  match getActiveOtadata (readTwo m) with
  | some active =>
    (searchSeq (readTwo m active).otaSeq.toNat k n (2 ^ 32) 0).map fun seq =>
      storeEntry m (otherRecord active)
        (((readTwo m (otherRecord active)).withState (setNewStateOtadata dev)).withSeq
          (BitVec.ofNat 32 seq))
  | none => some (storeEntry m 0 (((readTwo m 0).withState (setNewStateOtadata dev)).withSeq
      (BitVec.ofNat 32 (k + 1))))

lemma espRewriteOtaData_eq (dev : Device) (ht : Slots dev.table n) (hov : ¬ OverrunsCount dev.table n) {k : ℕ}
    (hk : k < n) : espRewriteOtaData dev (subtypeOtaMin + k) m =
      match selectSlot dev n k m with
      | some m' => (.ok (), m')
      | none => (.error .hang, m) := by
  obtain ⟨part, hread, hroom, -⟩ := readOtadata_eq (m := m) dev ht
  have hcount := getOtaPartitionCount_eq ht dev rfl m
  rw [if_neg hov] at hcount
  have hid : subTypeId (subtypeOtaMin + k) = k := by
    have := ht.le
    rw [subTypeId, subtypeOtaMin]
    omega
  rw [espRewriteOtaData, Prog.bind_ok hread]
  simp only
  rw [Prog.bind_ok hcount, if_neg (by omega), hid, selectSlot]
  cases hact : getActiveOtadata (readTwo m) with
  | none =>
    simp only
    rw [rewriteOtaSeq_ok hroom, setState, Function.update_self]
  | some active =>
    simp only
    cases hsearch : searchSeq (readTwo m active).otaSeq.toNat k n (2 ^ 32) 0 with
    | none => rfl
    | some seq =>
      simp only [Option.map_some]
      rw [rewriteOtaSeq_ok hroom, setState, Function.update_self]

/-- Selecting a slot whose image verifies. -/
lemma espOtaSetBootPartition_slot {verify : Partition → Bool} {p : Partition} {k : ℕ}
    (hp : findFirst dev.table typeApp (subtypeOtaMin + k) = some p) (hk : k < 16)
    (hv : verify p = true) :
    espOtaSetBootPartition dev verify (some p) m = espRewriteOtaData dev (subtypeOtaMin + k) m := by
  have hmin : subtypeOtaMin = 16 := rfl
  have hmatch := (matches_iff (by omega)).mp (mem_of_findFirst hp).2
  rw [espOtaSetBootPartition, if_pos hv, if_pos hmatch.1, hmatch.2, if_neg (by rw [subtypeFactory]; omega)]

/-! ### The choice of the bootloader -/

/-- What a reset makes of a record when rollback is enabled. -/
def SelectEntry.aborted (s : SelectEntry) : SelectEntry :=
  if s.otaState = imgPendingVerify then s.withState imgAborted else s

/-- The records that the bootloader chooses from. -/
def resetRecords (rollback : Bool) (two : Fin 2 → SelectEntry) : Fin 2 → SelectEntry :=
  fun i => if rollback then (two i).aborted else two i

/-- The memory that the bootloader chooses from. -/
def resetMem (rollback : Bool) (m : Mem) : Mem :=
  if rollback then abortPending (abortPending m 0) 1 else m

lemma readTwo_abortPending (i : Fin 2) :
    readTwo (abortPending m i) = Function.update (readTwo m) i (readTwo m i).aborted := by
  rw [abortPending, SelectEntry.aborted]
  split
  · rw [readTwo_storeEntry]
  · rw [Function.update_eq_self]

lemma readTwo_resetMem (rollback : Bool) :
    readTwo (resetMem rollback m) = resetRecords rollback (readTwo m) := by
  funext i
  cases rollback with
  | false => rfl
  | true =>
    have h10 : (1 : Fin 2) ≠ 0 := by decide
    rw [resetMem, if_pos rfl, readTwo_abortPending, readTwo_abortPending]
    simp only [resetRecords, if_true]
    revert i
    rw [Fin.forall_fin_two]
    constructor
    · rw [Function.update_of_ne h10.symm, Function.update_self]
    · rw [Function.update_self, Function.update_of_ne h10]

@[simp] lemma aborted_otaSeq {s : SelectEntry} : s.aborted.otaSeq = s.otaSeq := by
  unfold SelectEntry.aborted
  split <;> rfl

lemma resetRecords_otaSeq {rollback : Bool} {two : Fin 2 → SelectEntry} {i : Fin 2} :
    (resetRecords rollback two i).otaSeq = (two i).otaSeq := by
  unfold resetRecords
  split
  · exact aborted_otaSeq
  · rfl

/-- A reset keeps a record that does not wait for its confirmation. -/
lemma resetRecords_of_ne {rollback : Bool} {two : Fin 2 → SelectEntry} {i : Fin 2}
    (h : (two i).otaState ≠ imgPendingVerify) : resetRecords rollback two i = two i := by
  unfold resetRecords SelectEntry.aborted
  rw [if_neg h]
  split <;> rfl

/-- A reset makes no record valid. -/
lemma valid_of_resetRecords {rollback : Bool} {two : Fin 2 → SelectEntry} {i : Fin 2}
    (h : otaSelectValid (resetRecords rollback two i) = true) : otaSelectValid (two i) = true := by
  unfold resetRecords SelectEntry.aborted at h
  split at h
  · split at h
    · exact absurd rfl (valid_withState_iff.mp h).2.2.1
    · exact h
  · exact h

lemma getSelectedBootPartition_eq (ht : Slots table n) (rollback : Bool) :
    getSelectedBootPartition rollback (loadPartitionTable table) m =
      selectIndex rollback (loadPartitionTable table) (resetMem rollback m) := by
  obtain ⟨part, hpart, hoff, hroom⟩ := exists_otadata ht
  have hpos : (loadPartitionTable table).otaInfo = part.pos := by
    rw [otaInfo_load ht, hpart]
    rfl
  rw [getSelectedBootPartition, hpos, if_neg (show ¬ part.pos.offset = 0 from hoff),
    if_neg (show ¬ part.pos.size < 2 * secSize from Nat.not_lt.mpr hroom), resetMem]

lemma selectIndex_active (ht : Slots table n) {rollback : Bool} {a : Fin 2}
    (hact : getActiveOtadata (readTwo m) = some a) :
    selectIndex rollback (loadPartitionTable table) m =
      ⟨(u32Sub (readTwo m a).otaSeq.toNat 1 % n : ℕ), false,
        if rollback then monitorFirstBoot m a else m⟩ := by
  have hvalid := otaSelectInvalid_of_valid (getActiveOtadata_eq_some_iff.mp hact).1
  have hboth : (otaSelectInvalid (readTwo m 0) && otaSelectInvalid (readTwo m 1)) = false := by
    revert a
    rw [Fin.forall_fin_two]
    constructor <;> intro _ h <;> simp [h]
  have hn : (n == 0) = false := by
    have := ht.pos
    simp
    omega
  rw [selectIndex, appCount_load ht]
  simp only [hboth, hn, Bool.or_self, Bool.false_eq_true, if_false, hact]

/-- The number of a slot decodes to the slot. -/
lemma slot_of_number {k v : ℕ} (hk : k < n) (hv : 1 ≤ v) (hlt : v < 2 ^ 32)
    (hmod : v % n = (k + 1) % n) : u32Sub v 1 % n = k := by
  rw [u32Sub_of_le hlt hv]
  have h1 : (v - 1 + 1) % n = (k + 1) % n := by rw [Nat.sub_add_cancel hv, hmod]
  have h2 : v - 1 ≡ k [MOD n] := Nat.ModEq.add_right_cancel' 1 h1
  rw [h2, Nat.mod_eq_of_lt hk]

/-! ### Reachable records -/

/-- The contents of the otadata partition that selections, confirmations, rejections and
boots lead to from an erased partition.  A call counts however it ends. -/
inductive Reachable (dev : Device) : Mem → Prop
  | erased : Reachable dev fun _ => 0xff#8
  | setBoot (verify : Partition → Bool) (p : Option Partition) {m : Mem} :
      Reachable dev m → Reachable dev (espOtaSetBootPartition dev verify p m).2
  | markValid (verify : Partition → Bool) {m : Mem} :
      Reachable dev m → Reachable dev (espOtaMarkAppValidCancelRollback dev verify m).2
  | markInvalid (verify : Partition → Bool) {m : Mem} :
      Reachable dev m → Reachable dev (espOtaMarkAppInvalidRollbackAndReboot dev verify m).2
  | boot (loads : PartitionPos → Bool) {m : Mem} :
      Reachable dev m → Reachable dev (boot dev loads m).otadata

/-- No valid record has the number `0`, which would stand for the slot before the first. -/
def Numbered (m : Mem) : Prop := ∀ i, otaSelectValid (readTwo m i) = true → 1 ≤ (readTwo m i).otaSeq.toNat

lemma Numbered.store (h : Numbered m) {i : Fin 2} {s : SelectEntry}
    (hs : otaSelectValid s = true → 1 ≤ s.otaSeq.toNat) : Numbered (storeEntry m i s) := by
  intro j hj
  rw [readTwo_storeEntry] at hj ⊢
  by_cases hij : j = i
  · subst hij
    rw [Function.update_self] at hj ⊢
    exact hs hj
  · rw [Function.update_of_ne hij] at hj ⊢
    exact h j hj

/-- Erased sectors hold no valid record. -/
lemma numbered_of_erased (h : ∀ x < 2 * secSize, m x = 0xff#8) : Numbered m := by
  intro i hi
  have hsec : secSize = 4096 := rfl
  have hlt := i.isLt
  have hff : ∀ k < 4, m (secSize * i + k) = 0xff#8 := fun k hk => h _ (by rw [hsec]; omega)
  have herased : (readTwo m i).otaSeq = seqErased := word_of_erased hff
  exact absurd herased (otaSelectValid_iff.mp hi).1

lemma numbered_rewriteOtaSeq (h : Numbered m) {two : Fin 2 → SelectEntry} {seq : BitVec 32}
    {i : Fin 2} {part : Partition} (hroom : 2 * secSize ≤ part.size) (hseq : 1 ≤ seq.toNat) :
    Numbered (rewriteOtaSeq two seq i part m).2 := by
  rw [rewriteOtaSeq_ok hroom]
  exact h.store fun _ => hseq

/-- The number of a slot in the first round. -/
lemma toNat_first_number {k : ℕ} (hk : k < 16) : (BitVec.ofNat 32 (k + 1)).toNat = k + 1 := by
  rw [BitVec.toNat_ofNat]
  exact Nat.mod_eq_of_lt (by omega)

lemma numbered_espRewriteOtaData (ht : Slots dev.table n) (h : Numbered m) (subtype : ℕ) :
    Numbered (espRewriteOtaData dev subtype m).2 := by
  obtain ⟨part, hread, hroom, -⟩ := readOtadata_eq (m := m) dev ht
  have hcount := getOtaPartitionCount_eq ht dev rfl m
  rw [espRewriteOtaData, Prog.bind_ok hread]
  simp only
  by_cases hov : OverrunsCount dev.table n
  · rw [if_pos hov] at hcount
    rw [Prog.bind_error hcount]
    exact h
  · rw [if_neg hov] at hcount
    rw [Prog.bind_ok hcount]
    split
    · exact h
    · next hid =>
      have hle := ht.le
      cases hact : getActiveOtadata (readTwo m) with
      | none =>
        apply numbered_rewriteOtaSeq h hroom
        rw [toNat_first_number (by omega)]
        omega
      | some active =>
        simp only
        cases hsearch : searchSeq (readTwo m active).otaSeq.toNat (subTypeId subtype) n
            (2 ^ 32) 0 with
        | none => exact h
        | some seq =>
          -- the new number is not below the active one
          have hpos := h active (getActiveOtadata_eq_some_iff.mp hact).1
          have hseq := le_of_searchSeq _ _ hsearch
          apply numbered_rewriteOtaSeq h hroom
          rw [BitVec.toNat_ofNat, Nat.mod_eq_of_lt hseq.2]
          omega

lemma numbered_setBoot (ht : Slots dev.table n) (h : Numbered m) (verify : Partition → Bool)
    (p : Option Partition) : Numbered (espOtaSetBootPartition dev verify p m).2 := by
  obtain ⟨part, hpart, -, hroom⟩ := exists_otadata ht
  unfold espOtaSetBootPartition
  split
  · exact h
  · split
    · split
      · split
        · rw [hpart]
          simp only [eraseRange]
          split
          · exact h
          · split
            · exact h
            · split
              · exact h
              · split
                · exact h
                · exact numbered_of_erased fun x hx => Mem.erase_of_mem (by omega)
        · exact numbered_espRewriteOtaData ht h _
      · exact h
    · exact h

/-- Asking whether a rollback is possible changes nothing. -/
lemma espOtaCheckRollbackIsPossible_snd (ht : Slots dev.table n) (verify : Partition → Bool) :
    (espOtaCheckRollbackIsPossible dev verify m).2 = m := by
  obtain ⟨part, hread, -, -⟩ := readOtadata_eq (m := m) dev ht
  have hcount := getOtaPartitionCount_eq ht dev rfl m
  rw [espOtaCheckRollbackIsPossible, Prog.bind_ok hread]
  simp only
  by_cases hov : OverrunsCount dev.table n
  · rw [if_pos hov] at hcount
    rw [Prog.bind_error hcount]
  · rw [if_neg hov] at hcount
    rw [Prog.bind_ok hcount]
    split
    · rfl
    · cases getActiveOtadata (readTwo m) with
      | none => rfl
      | some active =>
        simp only
        split <;> rfl

lemma numbered_isWorkable (ht : Slots dev.table n) (h : Numbered m) (verify : Partition → Bool)
    (valid : Bool) : Numbered (espOtaCurrentOtaIsWorkable dev verify valid m).2 := by
  obtain ⟨part, hread, hroom, -⟩ := readOtadata_eq (m := m) dev ht
  have hcount := getOtaPartitionCount_eq ht dev rfl m
  rw [espOtaCurrentOtaIsWorkable, Prog.bind_ok hread]
  simp only
  cases hact : getActiveOtadata (readTwo m) with
  | none => exact h
  | some active =>
    have hpos := h active (getActiveOtadata_eq_some_iff.mp hact).1
    simp only
    by_cases hov : OverrunsCount dev.table n
    · rw [if_pos hov] at hcount
      rw [Prog.bind_error hcount]
      exact h
    · rw [if_neg hov] at hcount
      rw [Prog.bind_ok hcount]
      split
      · exact h
      · split
        · split
          · exact h
          · exact numbered_rewriteOtaSeq h hroom hpos
        · have hcheck := espOtaCheckRollbackIsPossible_snd (m := m) ht verify
          cases hc : espOtaCheckRollbackIsPossible dev verify m with
          | mk r m₁ =>
            rw [hc] at hcheck
            obtain rfl : m₁ = m := hcheck
            cases r with
            | error e =>
              rw [Prog.bind_error hc]
              exact h
            | ok possible =>
              rw [Prog.bind_ok hc]
              cases possible with
              | false => exact h
              | true =>
                simp only [if_true]
                rw [Prog.bind_ok (rewriteOtaSeq_ok hroom)]
                exact h.store fun _ => hpos

lemma numbered_abortPending (h : Numbered m) (i : Fin 2) : Numbered (abortPending m i) := by
  unfold abortPending
  split
  · exact h.store fun hv => absurd rfl (valid_withState_iff.mp hv).2.2.1
  · exact h

lemma numbered_monitorFirstBoot (h : Numbered m) {i : Fin 2}
    (hv : otaSelectValid (readTwo m i) = true) : Numbered (monitorFirstBoot m i) := by
  unfold monitorFirstBoot
  split
  · exact h.store fun _ => h i hv
  · exact h

lemma numbered_selectIndex (h : Numbered m) (rollback : Bool) (bs : BootloaderState) :
    Numbered (selectIndex rollback bs m).otadata := by
  simp only [selectIndex]
  split
  · split <;> exact h
  · cases hact : getActiveOtadata (readTwo m) with
    | none => exact h
    | some active =>
      simp only
      split
      · exact numbered_monitorFirstBoot h (getActiveOtadata_eq_some_iff.mp hact).1
      · exact h

lemma numbered_setActualOtaSeq (h : Numbered m) (initial : Bool) {index : ℤ} (hi : index < 16) :
    Numbered (setActualOtaSeq m initial index) := by
  unfold setActualOtaSeq
  split
  · next hgt =>
    have hlt : -1 < index := hgt.1
    apply h.store
    intro _
    change 1 ≤ (BitVec.ofNat 32 (index + 1).toNat).toNat
    rw [BitVec.toNat_ofNat, Nat.mod_eq_of_lt (by omega)]
    omega
  · exact h

/-- Only the indices of slots have a partition. -/
lemma lt_of_mem_triedIndices {bs : BootloaderState} {start index : ℤ}
    (h : index ∈ triedIndices bs start) : index < 16 := by
  have hsize := (List.mem_filter.mp h).2
  simp only [decide_not, Bool.not_eq_eq_eq_not, Bool.not_true, decide_eq_false_iff_not] at hsize
  unfold indexToPartition at hsize
  split at hsize
  · next hi => rw [hi, factoryIndex]; omega
  · split at hsize
    · next hi => rw [hi, testAppIndex]; omega
    · split at hsize
      · next hi => exact hi.2.1
      · exact absurd rfl hsize

lemma numbered_boot (h : Numbered m) (loads : PartitionPos → Bool) :
    Numbered (boot dev loads m).otadata := by
  have hsel : Numbered (getSelectedBootPartition dev.rollback (loadPartitionTable dev.table)
      m).otadata := by
    unfold getSelectedBootPartition
    split
    · exact h
    · split
      · exact h
      · apply numbered_selectIndex
        split
        · exact numbered_abortPending (numbered_abortPending h 0) 1
        · exact h
  simp only [boot]
  split
  · exact hsel
  · unfold loadBootImage
    split
    · next index hfind =>
      exact numbered_setActualOtaSeq hsel _
        (lt_of_mem_triedIndices (List.mem_of_find?_eq_some hfind))
    · split <;> exact hsel

/-- Reachable records are numbered from one on. -/
lemma Reachable.numbered (ht : Slots dev.table n) (h : Reachable dev m) : Numbered m := by
  induction h with
  | erased => exact numbered_of_erased fun _ _ => rfl
  | setBoot verify p _ ih => exact numbered_setBoot ht ih verify p
  | markValid verify _ ih => exact numbered_isWorkable ht ih verify true
  | markInvalid verify _ ih => exact numbered_isWorkable ht ih verify false
  | boot loads _ ih => exact numbered_boot ih loads

/-! ### A selection is what the bootloader reads -/

/-- Selecting any slot whose image verifies succeeds, and the bootloader then reads it. -/
def SelectsSlot (dev : Device) (n : ℕ) (m : Mem) : Prop :=
  ∀ k < n, ∀ (verify : Partition → Bool) (p : Partition),
    findFirst dev.table typeApp (subtypeOtaMin + k) = some p → verify p = true →
    ∃ m', espOtaSetBootPartition dev verify (some p) m = (.ok (), m') ∧
      (getSelectedBootPartition dev.rollback (loadPartitionTable dev.table) m').index = k

/-- After a valid record has been stored whose number is not below that of the other valid
record, the bootloader reads its slot, provided that equal numbers stand for one slot. -/
lemma selected_index_stored (ht : Slots dev.table n) {i : Fin 2} {s : SelectEntry}
    (hs : otaSelectValid s = true) (hstate : s.otaState ≠ imgPendingVerify)
    (hmax : otaSelectValid (readTwo m (otherRecord i)) = true →
      (readTwo m (otherRecord i)).otaSeq.toNat ≤ s.otaSeq.toNat) :
    (getSelectedBootPartition dev.rollback (loadPartitionTable dev.table)
      (storeEntry m i s)).index = (u32Sub s.otaSeq.toNat 1 % n : ℕ) := by
  have hrec : readTwo (resetMem dev.rollback (storeEntry m i s)) =
      resetRecords dev.rollback (Function.update (readTwo m) i s) := by
    rw [readTwo_resetMem, readTwo_storeEntry]
  have hnew : readTwo (resetMem dev.rollback (storeEntry m i s)) i = s := by
    rw [hrec, resetRecords_of_ne (by rw [Function.update_self]; exact hstate),
      Function.update_self]
  have hother : otaSelectValid (readTwo (resetMem dev.rollback (storeEntry m i s))
      (otherRecord i)) = true →
      (readTwo (resetMem dev.rollback (storeEntry m i s)) (otherRecord i)).otaSeq.toNat ≤
        s.otaSeq.toNat := by
    intro hv
    rw [hrec] at hv ⊢
    have := valid_of_resetRecords hv
    rw [resetRecords_otaSeq]
    rw [Function.update_of_ne otherRecord_ne] at this ⊢
    exact hmax this
  rw [getSelectedBootPartition_eq ht]
  -- either record may be the active one; if it is the other one, the numbers agree
  cases hact : getActiveOtadata (readTwo (resetMem dev.rollback (storeEntry m i s))) with
  | none =>
    have := getActiveOtadata_eq_none_iff.mp hact i
    rw [hnew, hs] at this
    exact absurd this (by decide)
  | some a =>
    rw [selectIndex_active ht hact]
    by_cases hai : a = i
    · subst hai
      simp only [hnew]
    · obtain rfl := eq_otherRecord_of_ne hai
      have ha := getActiveOtadata_eq_some_iff.mp hact
      rw [otherRecord_otherRecord, hnew] at ha
      have heq : (readTwo (resetMem dev.rollback (storeEntry m i s)) (otherRecord i)).otaSeq.toNat =
          s.otaSeq.toNat := by
        have h1 := hother ha.1
        have h2 := ha.2 hs
        omega
      simp only [heq]

lemma selectsSlot_of_numbered (ht : Slots dev.table n) (hov : ¬ OverrunsCount dev.table n)
    (hnum : Numbered m) (hlow : ∀ i, otaSelectValid (readTwo m i) = true →
      (readTwo m i).otaSeq.toNat < 2 ^ 32 - 32) : SelectsSlot dev n m := by
  intro k hk verify p hp hv
  have hle := ht.le
  have hnew := setNewStateOtadata_ne dev
  rw [espOtaSetBootPartition_slot hp (by omega) hv, espRewriteOtaData_eq dev ht hov hk, selectSlot]
  cases hact : getActiveOtadata (readTwo m) with
  | none =>
    refine ⟨_, rfl, ?_⟩
    have hnat := toNat_first_number (show k < 16 by omega)
    have hne : BitVec.ofNat 32 (k + 1) ≠ seqErased := by
      intro h
      rw [h] at hnat
      simp [seqErased] at hnat
      omega
    rw [selected_index_stored ht (valid_withSeq hne hnew.1 hnew.2.1) hnew.2.2]
    · change ((u32Sub (BitVec.ofNat 32 (k + 1)).toNat 1 % n : ℕ) : ℤ) = k
      rw [hnat, slot_of_number hk (by omega) (by omega) rfl]
    · intro h
      rw [getActiveOtadata_eq_none_iff.mp hact] at h
      exact absurd h (by decide)
  | some active =>
    have hvalid := (getActiveOtadata_eq_some_iff.mp hact).1
    have h1 := hnum active hvalid
    have h2 := hlow active hvalid
    obtain ⟨v, hfind, hge, hlt, hmod⟩ := searchSeq_found k ht.pos h1 (by omega)
    simp only [hfind, Option.map_some]
    refine ⟨_, rfl, ?_⟩
    have hnat : (BitVec.ofNat 32 v).toNat = v := by
      rw [BitVec.toNat_ofNat, Nat.mod_eq_of_lt (by omega)]
    have hne : BitVec.ofNat 32 v ≠ seqErased := by
      intro h
      rw [h] at hnat
      simp [seqErased] at hnat
      omega
    rw [selected_index_stored ht (valid_withSeq hne hnew.1 hnew.2.1) hnew.2.2]
    · change ((u32Sub (BitVec.ofNat 32 v).toNat 1 % n : ℕ) : ℤ) = k
      rw [hnat, slot_of_number hk (by omega) (by omega) hmod]
    · intro _
      rw [otherRecord_otherRecord]
      change _ ≤ (BitVec.ofNat 32 v).toNat
      omega

/-! ### What the application expects to be booted -/

/-- The partition that the application names is the first one that the bootloader tries. -/
def NamesFirstTried (table : List Partition) (m : Mem) : Prop :=
  ∃ p, espOtaGetBootPartition ⟨table, false⟩ m = (.ok (some p), m) ∧
    (triedIndices (loadPartitionTable table)
      (getSelectedBootPartition false (loadPartitionTable table) m).index).head?.map
        (indexToPartition (loadPartitionTable table)) = some p.pos

/-- The position of a slot in the array of the bootloader. -/
lemma indexToPartition_slot (ht : Slots table n) {k : ℕ} (hk : k < n) {p : Partition}
    (hp : findFirst table typeApp (subtypeOtaMin + k) = some p) :
    indexToPartition (loadPartitionTable table) k = p.pos := by
  have hle := ht.le
  rw [indexToPartition, if_neg (by rw [factoryIndex]; omega),
    if_neg (by rw [testAppIndex]; omega), appCount_load ht,
    if_pos ⟨by omega, by omega, by omega⟩, Int.toNat_natCast, ota_load ht (by omega), hp]
  rfl

/-- The first index is tried first if it has a partition. -/
lemma tried_cons {bs : BootloaderState} {start index : ℤ} {rest : List ℤ}
    (h : bootOrder bs start = index :: rest) (hsize : (indexToPartition bs index).size ≠ 0) :
    (triedIndices bs start).head? = some index := by
  rw [triedIndices, h, List.filter_cons, if_pos (decide_eq_true hsize)]
  rfl

/-- The slot at an index is tried first from that index on. -/
lemma tried_slot (ht : Slots table n) {k : ℕ} (hk : k < n) :
    (triedIndices (loadPartitionTable table) k).head? = some (k : ℤ) := by
  obtain ⟨p, hp, hsize, -⟩ := exists_slot ht hk
  have hfirst : bootOrder (loadPartitionTable table) k = (k : ℤ) ::
      (bootOrder (loadPartitionTable table) k).tail := by
    rw [bootOrder, show ((k : ℤ) + 2).toNat = k + 1 + 1 by omega, List.range_succ_eq_map]
    simp
  exact tried_cons hfirst (by rw [indexToPartition_slot ht hk hp]; exact hsize)

lemma bootOrder_factory (ht : Slots table n) : bootOrder (loadPartitionTable table) factoryIndex =
    [factoryIndex, 0] ++ ((List.range (n - 1)).map fun i : ℕ => ((i + 1 : ℕ) : ℤ)) := by
  have hpos := ht.pos
  rw [bootOrder, appCount_load ht, factoryIndex, show ((-1 : ℤ) + 2).toNat = 1 by decide,
    show ((n : ℤ) - (-1 + 1)).toNat = n - 1 + 1 by omega, List.range_succ_eq_map (n := n - 1)]
  simp [Function.comp_def]

/-- The first slot is the default without a factory partition. -/
lemma findDefaultBootPartition_eq {p₀ : Partition}
    (h0 : findFirst table typeApp (subtypeOtaMin + 0) = some p₀) :
    findDefaultBootPartition ⟨table, false⟩ =
      some ((findFirst table typeApp subtypeFactory).getD p₀) := by
  rw [findDefaultBootPartition]
  cases findFirst table typeApp subtypeFactory with
  | some p => rfl
  | none =>
    rw [show List.range 16 = 0 :: (List.range 15).map (· + 1) from List.range_succ_eq_map]
    simp only [List.findSome?_cons, h0, Option.getD_none]

/-- A factory partition is tried first from the factory index on. -/
lemma tried_factory (ht : Slots table n) {p : Partition}
    (hp : findFirst table typeApp subtypeFactory = some p) :
    (triedIndices (loadPartitionTable table) factoryIndex).head? = some factoryIndex ∧
      indexToPartition (loadPartitionTable table) factoryIndex = p.pos := by
  have hpos : indexToPartition (loadPartitionTable table) factoryIndex = p.pos := by
    rw [indexToPartition, if_pos rfl, factory_load ht, hp]
    rfl
  refine ⟨tried_cons (bootOrder_factory ht) ?_, hpos⟩
  rw [hpos]
  exact (ht.placed p (mem_of_findFirst hp).1).2

/-- Without a factory partition the first slot is tried first from the factory index on. -/
lemma tried_no_factory (ht : Slots table n)
    (hf : findFirst table typeApp subtypeFactory = none) :
    (triedIndices (loadPartitionTable table) factoryIndex).head? = some 0 := by
  obtain ⟨p, hp, hsize, -⟩ := exists_slot ht ht.pos
  have hfac : indexToPartition (loadPartitionTable table) factoryIndex = .unset := by
    rw [indexToPartition, if_pos rfl, factory_load ht, hf]
    rfl
  have hslot : (indexToPartition (loadPartitionTable table) 0).size ≠ 0 := by
    rw [show (0 : ℤ) = ((0 : ℕ) : ℤ) from rfl, indexToPartition_slot ht ht.pos hp]
    exact hsize
  rw [triedIndices, bootOrder_factory ht, List.cons_append, List.filter_cons, hfac,
    if_neg (by decide), List.cons_append, List.filter_cons, if_pos (decide_eq_true hslot)]
  rfl

/-- From the factory index on the default of the application is tried first. -/
lemma tried_default (ht : Slots table n) {p₀ : Partition}
    (h0 : findFirst table typeApp (subtypeOtaMin + 0) = some p₀) :
    (triedIndices (loadPartitionTable table) factoryIndex).head?.map
      (indexToPartition (loadPartitionTable table)) =
        some ((findFirst table typeApp subtypeFactory).getD p₀).pos := by
  cases hf : findFirst table typeApp subtypeFactory with
  | some p =>
    rw [(tried_factory ht hf).1, Option.map_some, (tried_factory ht hf).2]
    rfl
  | none =>
    rw [tried_no_factory ht hf, Option.map_some, show (0 : ℤ) = ((0 : ℕ) : ℤ) from rfl,
      indexToPartition_slot ht ht.pos h0]
    rfl

/-- Without rollback the two programs go through the same cases. -/
lemma namesFirstTried_of_not_overruns (ht : Slots table n) (hov : ¬ OverrunsCount table n) :
    NamesFirstTried table m := by
  obtain ⟨p₀, h0, -⟩ := exists_slot ht ht.pos
  obtain ⟨part, hread, -, -⟩ := readOtadata_eq (m := m) ⟨table, false⟩ ht
  have hcount := getOtaPartitionCount_eq ht ⟨table, false⟩ rfl m
  rw [if_neg hov] at hcount
  have hn : (n == 0) = false := by
    have := ht.pos
    simp
    omega
  rw [NamesFirstTried, getSelectedBootPartition_eq ht, espOtaGetBootPartition,
    Prog.bind_ok hread]
  simp only
  rw [Prog.bind_ok hcount]
  simp only [resetMem, Bool.false_eq_true, if_false, selectIndex, appCount_load ht, hn,
    Bool.or_false]
  have hdefault := findDefaultBootPartition_eq h0
  cases hboth : otaSelectInvalid (readTwo m 0) && otaSelectInvalid (readTwo m 1) with
  | true =>
    refine ⟨_, by rw [if_pos rfl, hdefault]; rfl, ?_⟩
    rw [if_pos rfl, factory_load ht]
    cases hf : findFirst table typeApp subtypeFactory with
    | some p =>
      have hoff := (ht.placed p (mem_of_findFirst hf).1).1
      rw [if_pos (show (foundPos (some p)).offset ≠ 0 from hoff)]
      have := tried_default ht h0
      rw [hf] at this
      exact this
    | none =>
      rw [if_neg (by decide)]
      change (triedIndices (loadPartitionTable table) ((0 : ℕ) : ℤ)).head?.map _ = _
      rw [tried_slot ht ht.pos, Option.map_some, indexToPartition_slot ht ht.pos h0]
      rfl
  | false =>
    rw [if_neg (by decide), if_neg (by decide)]
    cases hact : getActiveOtadata (readTwo m) with
    | none =>
      exact ⟨_, by rw [hdefault]; rfl, tried_default ht h0⟩
    | some active =>
      have hk : u32Sub (readTwo m active).otaSeq.toNat 1 % n < n := Nat.mod_lt _ ht.pos
      obtain ⟨p, hp, -⟩ := exists_slot ht hk
      refine ⟨p, ?_, ?_⟩
      · change ((Except.ok (findFirst table typeApp (subtypeOtaMin + _)), m) :
          Except Stop (Option Partition) × Mem) = _
        rw [hp]
      · rw [tried_slot ht hk, Option.map_some, indexToPartition_slot ht hk hp]

/-- With sixteen slots and a test app the application fails an assertion. -/
lemma espOtaGetBootPartition_of_overruns (ht : Slots table n) (hov : OverrunsCount table n) :
    espOtaGetBootPartition ⟨table, false⟩ m = (.error .abort, m) := by
  obtain ⟨part, hread, -, -⟩ := readOtadata_eq (m := m) ⟨table, false⟩ ht
  have hcount := getOtaPartitionCount_eq ht ⟨table, false⟩ rfl m
  rw [if_pos hov] at hcount
  rw [espOtaGetBootPartition, Prog.bind_ok hread]
  simp only
  rw [Prog.bind_error hcount]

/-- A table with the records, a factory app and two slots. -/
def twoSlotTable : List Partition :=
  [⟨1, 0x00, 0xd000, 0x2000⟩, ⟨0, 0x00, 0x10000, 0x100000⟩, ⟨0, 0x10, 0x110000, 0x100000⟩,
    ⟨0, 0x11, 0x210000, 0x100000⟩]

/-- A table with the records, a test app and all sixteen slots. -/
def sixteenSlotTable : List Partition :=
  [⟨1, 0x00, 0xd000, 0x2000⟩, ⟨0, 0x20, 0x10000, 0x10000⟩] ++
    (List.range 16).map fun i => ⟨0, BitVec.ofNat 8 (0x10 + i), 0x20000 + i * 0x10000, 0x10000⟩

lemma slots_twoSlotTable : Slots twoSlotTable 2 := by
  constructor <;> decide

lemma slots_sixteenSlotTable : Slots sixteenSlotTable 16 := by
  constructor <;> decide

/-- The application and the bootloader agree, on every reachable selection and on every
contents of the records, exactly if the count of the slots does not run into a test app. -/
theorem selectors_agree_iff (ht : Slots table n) :
    ((∀ rollback m, Reachable ⟨table, rollback⟩ m →
        (∀ i, otaSelectValid (readTwo m i) = true →
          (readTwo m i).otaSeq.toNat < 2 ^ 32 - 32) →
        SelectsSlot ⟨table, rollback⟩ n m) ∧
      ∀ m, NamesFirstTried table m) ↔ ¬ OverrunsCount table n := by
  constructor
  · rintro ⟨-, h⟩ hov
    obtain ⟨p, hp, -⟩ := h fun _ => 0
    rw [espOtaGetBootPartition_of_overruns ht hov] at hp
    simp at hp
  · intro hov
    refine ⟨fun rollback m hreach hlow => ?_, fun m => namesFirstTried_of_not_overruns ht hov⟩
    exact selectsSlot_of_numbered ht hov (hreach.numbered ht) hlow

theorem selectors_agree_two_slots :
    (∀ rollback m, Reachable ⟨twoSlotTable, rollback⟩ m →
        (∀ i, otaSelectValid (readTwo m i) = true →
          (readTwo m i).otaSeq.toNat < 2 ^ 32 - 32) →
        SelectsSlot ⟨twoSlotTable, rollback⟩ 2 m) ∧
      ∀ m, NamesFirstTried twoSlotTable m :=
  (selectors_agree_iff slots_twoSlotTable).mpr (by decide)

/-- With erased records the bootloader starts the first of sixteen slots, but the application
does not come to name it. -/
theorem sixteen_slots_and_test_app : Slots sixteenSlotTable 16 ∧
    (espOtaGetBootPartition ⟨sixteenSlotTable, false⟩ fun _ => 0xff#8) =
      (.error .abort, fun _ => 0xff#8) ∧
    ¬ NamesFirstTried sixteenSlotTable fun _ => 0xff#8 := by
  have habort := espOtaGetBootPartition_of_overruns (m := fun _ => 0xff#8) slots_sixteenSlotTable
    (by decide)
  refine ⟨slots_sixteenSlotTable, habort, ?_⟩
  rintro ⟨p, hp, -⟩
  rw [habort] at hp
  simp at hp

end EspIdf.Ota
