/-
# Losing power while the boot partition is changed

A call that selects a slot erases the sector of one record and programs the record word by
word; a call that selects the factory app erases the sectors of the partition one after the
other.  The power may be lost after any of these operations.  A record that has not been
written completely is not mistaken for another one, so what the bootloader selects then
depends on what the records look like without the one that was erased.
-/
import EspIdf.Ota.Confirmation

namespace EspIdf.Ota

open EspIdf.Lib

/-! ### Flash operations of the calls -/

/-- What the flash chip does in one step. -/
inductive FlashOp where
  | erase (offset size : ℕ)
  | program (offset : ℕ) (bytes : List Byte)
deriving DecidableEq

/-- The effect of an operation on the otadata partition. -/
def FlashOp.apply (m : Mem) : FlashOp → Mem
  | .erase offset size => m.erase offset size
  | .program offset bytes => m.program offset bytes

/-- The partition after some operations. -/
def replay (m : Mem) (ops : List FlashOp) : Mem := ops.foldl FlashOp.apply m

/-- The loop of `esp_flash_erase_region`: whole blocks are erased where that is possible, and
sectors otherwise.  `base` is the address of the partition, `block` the size of a block, or
`0` if the chip does not erase blocks. -/
def eraseRegionOps (block base : ℕ) : ℕ → ℕ → ℕ → List FlashOp
  | 0, _, _ => []
  | rounds + 1, start, len =>
    if len < secSize then []
    else if 0 < block ∧ block ≤ len ∧ (base + start) % block = 0 then
      .erase start block :: eraseRegionOps block base rounds (start + block) (len - block)
    else
      .erase start secSize :: eraseRegionOps block base rounds (start + secSize) (len - secSize)

/-- The words of a record are programmed one after the other. -/
def wordOps (offset : ℕ) (bytes : List Byte) (words : ℕ) : List FlashOp :=
  (List.range words).map fun j => .program (offset + 4 * j) ((bytes.drop (4 * j)).take 4)

/-- The operations of `rewrite_ota_seq`, for the record `s`. -/
def rewriteOtaSeqOps (block : ℕ) (part : Partition) (secId : Fin 2) (s : SelectEntry) :
    List FlashOp :=
  eraseRegionOps block part.offset secSize (secSize * secId) secSize ++
    wordOps (secSize * secId) s.encode 8

/-- The operations of `esp_rewrite_ota_data`. -/
def espRewriteOtaDataOps (dev : Device) (block subtype : ℕ) (m : Mem) : List FlashOp :=
  match findFirst dev.table typeData subtypeDataOta with
  | none => []
  | some part =>
    match (getOtaPartitionCount dev m).1 with
    | .error _ => []
    | .ok otaAppCount =>
      if subTypeId subtype ≥ otaAppCount then []
      else
        match getActiveOtadata (readTwo m) with
        | some active =>
          match searchSeq (readTwo m active).otaSeq.toNat (subTypeId subtype) otaAppCount
              (2 ^ 32) 0 with
          | none => []
          | some seq =>
            let next := otherRecord active
            rewriteOtaSeqOps block part next
              (((readTwo m next).withState (setNewStateOtadata dev)).withSeq (BitVec.ofNat 32 seq))
        | none =>
          rewriteOtaSeqOps block part 0 (((readTwo m 0).withState (setNewStateOtadata dev)).withSeq
            (BitVec.ofNat 32 (subTypeId subtype + 1)))

/-- The operations of `esp_ota_set_boot_partition`. -/
def espOtaSetBootPartitionOps (dev : Device) (block : ℕ) (verify : Partition → Bool)
    (p : Partition) (m : Mem) : List FlashOp :=
  if verify p ∧ p.type.toNat = typeApp then
    if p.subtype.toNat = subtypeFactory then
      match findFirst dev.table typeData subtypeDataOta with
      | some part =>
        if part.size % secSize = 0 then eraseRegionOps block part.offset part.size 0 part.size
        else []
      | none => []
    else
      espRewriteOtaDataOps dev block p.subtype.toNat m
  else []

variable {table : List Partition} {n : ℕ} {dev : Device} {m : Mem} {block base : ℕ}

/-! ### The operations are those of the call -/

lemma replay_cons (op : FlashOp) (ops : List FlashOp) :
    replay m (op :: ops) = replay (op.apply m) ops := rfl

lemma replay_append (ops ops' : List FlashOp) :
    replay m (ops ++ ops') = replay (replay m ops) ops' :=
  List.foldl_append ..

/-- One sector is erased in one operation. -/
lemma eraseRegionOps_sector (hblock : secSize ∣ block) (start : ℕ) :
    eraseRegionOps block base secSize start secSize = [.erase start secSize] := by
  have hsec : secSize = 4095 + 1 := rfl
  have hle : block ≤ secSize → 0 < block → block = secSize := fun h1 h2 =>
    Nat.le_antisymm h1 (Nat.le_of_dvd h2 hblock)
  have hrest : ∀ b, eraseRegionOps b base 4095 (start + secSize) (secSize - secSize) = [] := by
    intro b
    rw [Nat.sub_self, eraseRegionOps, if_pos (by decide)]
  conv_lhs => rw [show eraseRegionOps block base secSize start secSize =
    eraseRegionOps block base (4095 + 1) start secSize from rfl, eraseRegionOps]
  rw [if_neg (by omega)]
  split
  · next hcond => rw [hle hcond.2.1 hcond.1, hrest]
  · rw [hrest]

/-- The first words of a record. -/
lemma replay_wordOps (offset : ℕ) (bytes : List Byte) : ∀ words, 4 * words ≤ bytes.length →
    replay m (wordOps offset bytes words) = m.program offset (bytes.take (4 * words)) := by
  intro words
  induction words with
  | zero =>
    intro _
    ext x : 1
    exact (Mem.program_of_not_mem (by simp)).symm
  | succ words ih =>
    intro hlen
    have hsplit : bytes.take (4 * (words + 1)) =
        bytes.take (4 * words) ++ (bytes.drop (4 * words)).take 4 := by
      rw [Nat.mul_succ, List.take_add]
    rw [wordOps, List.range_succ, List.map_append, replay_append, hsplit, ← Mem.program_program]
    rw [show (List.take (4 * words) bytes).length = 4 * words by
      rw [List.length_take]; omega, ← ih (by omega)]
    rfl

/-! ### What the bootloader selects -/

/-- The partition that the bootloader tries first. -/
def selected (dev : Device) (m : Mem) : Option ℤ :=
  (triedIndices (loadPartitionTable dev.table)
    (getSelectedBootPartition dev.rollback (loadPartitionTable dev.table) m).index).head?

/-- What is booted without an active record: the factory app, or else the first slot. -/
def defaultIndex (table : List Partition) : ℤ :=
  if (findFirst table typeApp subtypeFactory).isSome then factoryIndex else 0

/-- What the records of a reset select. -/
def chosen (table : List Partition) (n : ℕ) (two : Fin 2 → SelectEntry) : ℤ :=
  match getActiveOtadata two with
  | some a => (slotOf n (two a) : ℤ)
  | none => defaultIndex table

lemma tried_factoryIndex (ht : Slots table n) :
    (triedIndices (loadPartitionTable table) factoryIndex).head? = some (defaultIndex table) := by
  rw [defaultIndex]
  cases hf : findFirst table typeApp subtypeFactory with
  | some p => exact (tried_factory ht hf).1
  | none => exact tried_no_factory ht hf

/-- The selection depends on what a reset makes of the records. -/
lemma selected_eq (ht : Slots dev.table n) :
    selected dev m = some (chosen dev.table n (resetRecords dev.rollback (readTwo m))) := by
  rw [selected, getSelectedBootPartition_eq ht, ← readTwo_resetMem, chosen]
  cases hact : getActiveOtadata (readTwo (resetMem dev.rollback m)) with
  | some a =>
    rw [selectIndex_active ht hact]
    exact tried_slot ht (Nat.mod_lt _ ht.pos)
  | none =>
    simp only [selectIndex, hact]
    split
    · split
      · exact tried_factoryIndex ht
      · next hoff =>
        -- there is no factory app, and the first slot is tried at once
        have hnone : findFirst dev.table typeApp subtypeFactory = none := by
          cases hf : findFirst dev.table typeApp subtypeFactory with
          | none => rfl
          | some p =>
            rw [factory_load ht, hf] at hoff
            exact absurd (ht.placed p (mem_of_findFirst hf).1).1 hoff
        rw [defaultIndex, hnone]
        exact tried_slot ht ht.pos
    · exact tried_factoryIndex ht

/-! ### Records that are not written completely -/

/-- The sector of record `i` is erased and the first words of `s` are programmed. -/
def torn (m : Mem) (i : Fin 2) (s : SelectEntry) (words : ℕ) : Mem :=
  (m.erase (secSize * i) secSize).program (secSize * i) (s.encode.take (4 * words))

/-- The other record is not touched. -/
lemma readTwo_torn_other (i : Fin 2) (s : SelectEntry) (words : ℕ) :
    readTwo (torn m i s words) (otherRecord i) = readTwo m (otherRecord i) := by
  have hsec : secSize = 4096 := rfl
  apply readEntry_congr
  intro x h1 h2
  have hne : ((otherRecord i : Fin 2) : ℕ) ≠ i := fun h => otherRecord_ne (Fin.ext h)
  have hi := i.isLt
  have hj := (otherRecord i).isLt
  have hlen : (s.encode.take (4 * words)).length ≤ 32 := by
    rw [List.length_take, length_encode]
    omega
  rw [hsec] at h1 h2
  rw [torn, hsec, Mem.program_of_not_mem (by omega), Mem.erase_of_not_mem (by omega)]

/-- A word of the record has been programmed or is still erased. -/
lemma word_torn {i : Fin 2} {s : SelectEntry} {j : ℕ} (words : ℕ) {before after : List Byte}
    {w : BitVec 32} (hs : s.encode = before ++ wordBytes w ++ after) (hj : before.length = 4 * j)
    (hlen : j < 8) :
    (torn m i s words).word (secSize * i + 4 * j) = if j < words then w else BitVec.allOnes 32 := by
  have hsec : secSize = 4096 := rfl
  have herased : ∀ k < 4, m.erase (secSize * i) secSize (secSize * i + 4 * j + k) = 0xff#8 :=
    fun k hk => Mem.erase_of_mem (by omega)
  split
  · next hlt =>
    have htake : s.encode.take (4 * words) =
        before ++ (wordBytes w ++ after.take (4 * words - 4 * j - 4)) := by
      rw [hs, List.append_assoc, List.take_append, List.take_of_length_le (by omega),
        List.take_append, List.take_of_length_le (by rw [length_wordBytes]; omega), hj,
        length_wordBytes]
    rw [torn, htake, ← Mem.program_program, ← Mem.program_program, hj,
      Mem.word_program_of_apart (by left; rw [length_wordBytes])]
    apply word_of_programmed
    intro k hk
    rw [Mem.program_of_not_mem (by omega)]
    exact herased k hk
  · next hlt =>
    apply word_of_erased
    intro k hk
    rw [torn, Mem.program_of_not_mem (by rw [List.length_take]; omega)]
    exact herased k hk

/-- The record has its new number or none, and does not wait for its confirmation unless the
new one does. -/
lemma torn_record (i : Fin 2) (s : SelectEntry) (words : ℕ) :
    ((readTwo (torn m i s words) i).otaSeq = seqErased ∨
      (readTwo (torn m i s words) i).otaSeq = s.otaSeq) ∧
    ((readTwo (torn m i s words) i).otaState = imgUndefined ∨
      (readTwo (torn m i s words) i).otaState = s.otaState) := by
  have hseq := word_torn (m := m) (i := i) (j := 0) words
    (show s.encode = [] ++ wordBytes s.otaSeq ++ (List.ofFn s.seqLabel ++ wordBytes s.otaState ++
      wordBytes s.crc) by simp [SelectEntry.encode]) rfl (by omega)
  have hstate := word_torn (m := m) (i := i) (j := 6) words
    (show s.encode = (wordBytes s.otaSeq ++ List.ofFn s.seqLabel) ++ wordBytes s.otaState ++
      wordBytes s.crc from rfl) (by simp) (by omega)
  constructor
  · change (torn m i s words).word (secSize * i + 4 * 0) = seqErased ∨
      (torn m i s words).word (secSize * i + 4 * 0) = s.otaSeq
    rw [hseq]
    split
    · exact .inr rfl
    · exact .inl rfl
  · change (torn m i s words).word (secSize * i + 4 * 6) = imgUndefined ∨
      (torn m i s words).word (secSize * i + 4 * 6) = s.otaState
    rw [hstate]
    split
    · exact .inr rfl
    · exact .inl rfl

/-! ### Selecting a slot -/

/-- What holds after every prefix of the operations that write a record. -/
lemma forall_prefix_rewriteOtaSeqOps (hblock : secSize ∣ block) (part : Partition) (i : Fin 2)
    (s : SelectEntry) {P : Mem → Prop} :
    (∀ ops, ops <+: rewriteOtaSeqOps block part i s → P (replay m ops)) ↔
      P m ∧ ∀ words ≤ 8, P (torn m i s words) := by
  have htorn : ∀ words ≤ 8, replay m (.erase (secSize * i) secSize ::
      wordOps (secSize * i) s.encode words) = torn m i s words := fun words hle => by
    rw [replay_cons, replay_wordOps _ _ _ (by rw [length_encode]; omega)]
    rfl
  have htake : ∀ words ≤ 8, (wordOps (secSize * i) s.encode 8).take words =
      wordOps (secSize * i) s.encode words := fun words hle => by
    rw [wordOps, ← List.map_take, List.take_range, Nat.min_eq_left hle]
    rfl
  rw [rewriteOtaSeqOps, eraseRegionOps_sector hblock, List.singleton_append]
  constructor
  · intro h
    refine ⟨h [] List.nil_prefix, fun words hle => ?_⟩
    rw [← htorn words hle]
    apply h
    rw [← htake words hle, List.cons_prefix_cons]
    exact ⟨rfl, List.take_prefix ..⟩
  · rintro ⟨h0, h⟩ ops hops
    rcases List.prefix_cons_iff.mp hops with rfl | ⟨rest, rfl, hrest⟩
    · exact h0
    · have hlen : rest.length ≤ 8 := by
        have := hrest.length_le
        simpa [wordOps] using this
      rw [List.prefix_iff_eq_take.mp hrest, htake _ hlen, htorn _ hlen]
      exact h _ hlen

/-- Only one record can be chosen. -/
lemma chosen_of_invalid (table : List Partition) (n : ℕ) {two : Fin 2 → SelectEntry} {i : Fin 2}
    (h : otaSelectValid (two (otherRecord i)) = false) : chosen table n two =
      if otaSelectValid (two i) then (slotOf n (two i) : ℤ) else defaultIndex table := by
  by_cases hv : otaSelectValid (two i) = true
  · have hact : getActiveOtadata two = some i := by
      refine getActiveOtadata_eq_some_iff.mpr ⟨hv, fun hv' => ?_⟩
      rw [h] at hv'
      exact absurd hv' (by decide)
    rw [chosen, hact, if_pos hv]
  · have hact : getActiveOtadata two = none := by
      rw [getActiveOtadata_eq_none_iff]
      intro j
      by_cases hj : j = i
      · rw [hj]
        simpa using hv
      · rw [eq_otherRecord_of_ne hj, h]
    rw [chosen, hact, if_neg hv]

/-- The record whose number is not below the other one is chosen; equal numbers stand for the
same slot. -/
lemma chosen_of_newer {two : Fin 2 → SelectEntry} {i : Fin 2} (hv : otaSelectValid (two i) = true)
    (hle : otaSelectValid (two (otherRecord i)) = true →
      (two (otherRecord i)).otaSeq.toNat ≤ (two i).otaSeq.toNat) :
    chosen table n two = slotOf n (two i) := by
  rw [chosen]
  cases hact : getActiveOtadata two with
  | none =>
    rw [getActiveOtadata_eq_none_iff.mp hact] at hv
    exact absurd hv (by decide)
  | some a =>
    by_cases ha : a = i
    · rw [ha]
    · obtain rfl := eq_otherRecord_of_ne ha
      have hiff := getActiveOtadata_eq_some_iff.mp hact
      rw [otherRecord_otherRecord] at hiff
      have heq : (two (otherRecord i)).otaSeq.toNat = (two i).otaSeq.toNat := by
        have h1 := hle hiff.1
        have h2 := hiff.2 hv
        omega
      exact congrArg Nat.cast (by rw [slotOf, slotOf, heq])

/-- What is selected while record `i` cannot be. -/
def selectedWithout (dev : Device) (n : ℕ) (m : Mem) (i : Fin 2) : ℤ :=
  let two := resetRecords dev.rollback (readTwo m)
  if otaSelectValid (two (otherRecord i)) then slotOf n (two (otherRecord i))
  else defaultIndex dev.table

/-- While a record is written the other one is selected, or the new one. -/
lemma selected_torn (ht : Slots dev.table n) {i : Fin 2} {s : SelectEntry}
    (hstate : s.otaState ≠ imgPendingVerify)
    (hnewer : otaSelectValid (readTwo m (otherRecord i)) = true →
      (readTwo m (otherRecord i)).otaSeq.toNat ≤ s.otaSeq.toNat) (words : ℕ) :
    selected dev (torn m i s words) =
      some (if otaSelectValid (readTwo (torn m i s words) i) then (slotOf n s : ℤ)
        else selectedWithout dev n m i) := by
  obtain ⟨hseq, hstate'⟩ := torn_record (m := m) i s words
  have hpend : (readTwo (torn m i s words) i).otaState ≠ imgPendingVerify := by
    rcases hstate' with he | he
    · rw [he]
      decide
    · rw [he]
      exact hstate
  have hself : resetRecords dev.rollback (readTwo (torn m i s words)) i =
      readTwo (torn m i s words) i := resetRecords_of_ne hpend
  have hother : resetRecords dev.rollback (readTwo (torn m i s words)) (otherRecord i) =
      resetRecords dev.rollback (readTwo m) (otherRecord i) := by
    rw [resetRecords, readTwo_torn_other]
    rfl
  rw [selected_eq ht, selectedWithout, Option.some.injEq]
  split
  · next hv =>
    have hnum : (readTwo (torn m i s words) i).otaSeq = s.otaSeq :=
      hseq.resolve_left (otaSelectValid_iff.mp hv).1
    rw [chosen_of_newer (i := i) (by rw [hself]; exact hv), hself, slotOf_congr hnum]
    intro hv'
    rw [hother] at hv' ⊢
    rw [hself, hnum, resetRecords_otaSeq]
    exact hnewer (valid_of_resetRecords hv')
  · next hv =>
    rw [chosen_of_invalid dev.table n (i := otherRecord i)
      (by rw [otherRecord_otherRecord, hself]; simpa using hv), hother]

/-! ### Atomic calls -/

/-- The subtype of slot `r`, or of the factory app. -/
def appSubtype : Option ℕ → ℕ
  | some k => subtypeOtaMin + k
  | none => subtypeFactory

/-- Whichever operation of the call is the last one before the power is lost, the next boot
selects what it would have selected before the call, or the requested partition. -/
def Atomic (dev : Device) (block : ℕ) (verify : Partition → Bool) (p : Partition)
    (r : Option ℕ) (m : Mem) : Prop :=
  ∀ ops, ops <+: espOtaSetBootPartitionOps dev block verify p m →
    selected dev (replay m ops) = selected dev m ∨
      selected dev (replay m ops) = some (appIndex r)

/-- The active record is about to be aborted, so that the other one is in use; it is erased
before the new record is there, and what is booted without it is yet another partition. -/
def LosesPrevious (dev : Device) (n k : ℕ) (m : Mem) (active : Fin 2) : Prop :=
  dev.rollback = true ∧ (readTwo m active).otaState = imgPendingVerify ∧
    otaSelectValid (readTwo m (otherRecord active)) = true ∧
    (readTwo m (otherRecord active)).otaState ≠ imgPendingVerify ∧
    defaultIndex dev.table ≠ slotOf n (readTwo m (otherRecord active)) ∧
    defaultIndex dev.table ≠ k

/-- The search for a number has overflowed and ended at the number of a third slot. -/
def WrongNumber (dev : Device) (n k : ℕ) (m : Mem) (v : ℕ) : Prop :=
  v ≠ 2 ^ 32 - 1 ∧ u32Sub v 1 % n ≠ k ∧ selected dev m ≠ some ((u32Sub v 1 % n : ℕ) : ℤ)

/-- A record is written in a state in which a third partition may be selected. -/
def SlotExposed (dev : Device) (n k : ℕ) (m : Mem) : Prop :=
  ∃ active v, getActiveOtadata (readTwo m) = some active ∧
    searchSeq (readTwo m active).otaSeq.toNat k n (2 ^ 32) 0 = some v ∧
    (LosesPrevious dev n k m active ∨ WrongNumber dev n k m v)

/-- The sector of the first record is erased alone, while that record is in use and the second
one is of another slot. -/
def FactoryExposed (dev : Device) (block n : ℕ) (m : Mem) : Prop :=
  ∃ part, findFirst dev.table typeData subtypeDataOta = some part ∧ part.size % secSize = 0 ∧
    ¬ (2 * secSize ≤ block ∧ block ≤ part.size ∧ part.offset % block = 0) ∧
    getActiveOtadata (resetRecords dev.rollback (readTwo m)) = some 0 ∧
    otaSelectValid (resetRecords dev.rollback (readTwo m) 1) = true ∧
    slotOf n (readTwo m 0) ≠ slotOf n (readTwo m 1)

/-- The states in which a call is not atomic. -/
def Exposed (dev : Device) (block n : ℕ) : Option ℕ → Mem → Prop
  | some k, m => ¬ OverrunsCount dev.table n ∧ SlotExposed dev n k m
  | none, m => FactoryExposed dev block n m

/-- A reset takes the active record out of use only if it waits for its confirmation. -/
lemma valid_reset_iff {two : Fin 2 → SelectEntry} {rollback : Bool} {i : Fin 2} :
    otaSelectValid (resetRecords rollback two i) = true ↔
      otaSelectValid (two i) = true ∧ ¬ (rollback = true ∧ (two i).otaState = imgPendingVerify) := by
  constructor
  · intro h
    refine ⟨valid_of_resetRecords h, ?_⟩
    rintro ⟨rfl, hpend⟩
    simp only [resetRecords, if_true, SelectEntry.aborted, if_pos hpend] at h
    exact absurd rfl (valid_withState_iff.mp h).2.2.1
  · rintro ⟨hv, hne⟩
    cases rollback with
    | false => exact hv
    | true => rwa [resetRecords_of_ne (fun hpend => hne ⟨rfl, hpend⟩)]

lemma slotOf_reset {two : Fin 2 → SelectEntry} {rollback : Bool} {i : Fin 2} :
    slotOf n (resetRecords rollback two i) = slotOf n (two i) :=
  slotOf_congr resetRecords_otaSeq

/-- Without the record that is to be written a third partition is selected exactly if the
previous selection is lost. -/
lemma losesPrevious_iff (ht : Slots dev.table n) {active : Fin 2} {k : ℕ}
    (hact : getActiveOtadata (readTwo m) = some active) :
    LosesPrevious dev n k m active ↔
      selected dev m ≠ some (selectedWithout dev n m (otherRecord active)) ∧
        selectedWithout dev n m (otherRecord active) ≠ k := by
  obtain ⟨hv, hle⟩ := getActiveOtadata_eq_some_iff.mp hact
  rw [selected_eq ht, selectedWithout, otherRecord_otherRecord, Ne, Option.some.injEq]
  by_cases hvr : otaSelectValid (resetRecords dev.rollback (readTwo m) active) = true
  · -- the active record stays in use
    have hsame : chosen dev.table n (resetRecords dev.rollback (readTwo m)) =
        slotOf n (resetRecords dev.rollback (readTwo m) active) := by
      apply chosen_of_newer hvr
      intro hv'
      rw [resetRecords_otaSeq, resetRecords_otaSeq]
      have := hle (valid_of_resetRecords hv')
      omega
    rw [if_pos hvr]
    constructor
    · rintro ⟨hroll, hpend, -⟩
      exact absurd ⟨hroll, hpend⟩ (valid_reset_iff.mp hvr).2
    · exact fun h => absurd hsame h.1
  · have hpend : dev.rollback = true ∧ (readTwo m active).otaState = imgPendingVerify := by
      by_contra hne
      exact hvr (valid_reset_iff.mpr ⟨hv, hne⟩)
    have hchosen := chosen_of_invalid dev.table n (i := otherRecord active)
      (by rw [otherRecord_otherRecord]; simpa using hvr)
    rw [if_neg hvr, hchosen, LosesPrevious, slotOf_reset]
    by_cases hother : otaSelectValid (resetRecords dev.rollback (readTwo m)
        (otherRecord active)) = true
    · have hiff := valid_reset_iff.mp hother
      rw [if_pos hother]
      constructor
      · rintro ⟨-, -, -, -, h1, h2⟩
        exact ⟨fun h => h1 h.symm, h2⟩
      · rintro ⟨h1, h2⟩
        exact ⟨hpend.1, hpend.2, hiff.1, fun h => hiff.2 ⟨hpend.1, h⟩, fun h => h1 h.symm, h2⟩
    · rw [if_neg hother]
      constructor
      · rintro ⟨hroll, -, hvo, hpo, -⟩
        exact absurd (valid_reset_iff.mpr ⟨hvo, fun h => hpo h.2⟩) hother
      · exact fun h => absurd rfl h.1

/-- Nothing is written. -/
lemma atomic_of_no_ops {verify : Partition → Bool} {p : Partition} {r : Option ℕ}
    (h : espOtaSetBootPartitionOps dev block verify p m = []) : Atomic dev block verify p r m := by
  intro ops hops
  rw [h, List.prefix_nil] at hops
  subst hops
  exact .inl rfl

/-- The sector of the record has just been erased. -/
lemma torn_none_invalid (i : Fin 2) (s : SelectEntry) :
    otaSelectValid (readTwo (torn m i s 0) i) = false := by
  have hsec : secSize = 4096 := rfl
  apply invalid_of_initial
  left
  apply word_of_erased
  intro k hk
  rw [torn, Mem.program_of_not_mem (by simp)]
  exact Mem.erase_of_mem (by omega)

/-- The record is complete. -/
lemma torn_all (i : Fin 2) (s : SelectEntry) : readTwo (torn m i s 8) i = s := by
  have hall : torn m i s 8 = storeEntry m i s := by
    rw [torn, List.take_of_length_le (by rw [length_encode]), storeEntry]
  rw [hall, readTwo_storeEntry, Function.update_self]

/-- Writing a record for slot `k` with the number `v` is atomic exactly if neither the
selection without the record nor that of the number is a third one. -/
lemma atomic_rewrite_iff (ht : Slots dev.table n) (hblock : secSize ∣ block) {part : Partition}
    {i : Fin 2} {state : BitVec 32} {v : ℕ} {k : ℤ} (hv : v < 2 ^ 32)
    (h1 : state ≠ imgInvalid) (h2 : state ≠ imgAborted) (h3 : state ≠ imgPendingVerify)
    (hnewer : otaSelectValid (readTwo m (otherRecord i)) = true →
      (readTwo m (otherRecord i)).otaSeq.toNat ≤ v) :
    (∀ ops, ops <+: rewriteOtaSeqOps block part i
        (((readTwo m i).withState state).withSeq (BitVec.ofNat 32 v)) →
      selected dev (replay m ops) = selected dev m ∨ selected dev (replay m ops) = some k) ↔
    (selected dev m = some (selectedWithout dev n m i) ∨ selectedWithout dev n m i = k) ∧
      (v = 2 ^ 32 - 1 ∨ selected dev m = some ((u32Sub v 1 % n : ℕ) : ℤ) ∨
        ((u32Sub v 1 % n : ℕ) : ℤ) = k) := by
  have hnat : (BitVec.ofNat 32 v).toNat = v := by
    rw [BitVec.toNat_ofNat, Nat.mod_eq_of_lt hv]
  have herased : BitVec.ofNat 32 v = seqErased ↔ v = 2 ^ 32 - 1 := by
    rw [← BitVec.toNat_inj, hnat]
    rfl
  have hslot : slotOf n (((readTwo m i).withState state).withSeq (BitVec.ofNat 32 v)) =
      u32Sub v 1 % n := by
    change u32Sub (BitVec.ofNat 32 v).toNat 1 % n = _
    rw [hnat]
  have hsel := selected_torn (m := m) ht (i := i)
    (s := ((readTwo m i).withState state).withSeq (BitVec.ofNat 32 v)) h3
    (fun h => by
      change _ ≤ (BitVec.ofNat 32 v).toNat
      rw [hnat]
      exact hnewer h)
  rw [hslot] at hsel
  rw [forall_prefix_rewriteOtaSeqOps hblock part i _
    (P := fun m' => selected dev m' = selected dev m ∨ selected dev m' = some k)]
  constructor
  · rintro ⟨-, h⟩
    have hfirst := h 0 (by omega)
    have hlast := h 8 (by omega)
    rw [hsel, torn_none_invalid, if_neg (by decide)] at hfirst
    refine ⟨hfirst.imp Eq.symm Option.some.inj, ?_⟩
    by_cases hne : v = 2 ^ 32 - 1
    · exact .inl hne
    · right
      rw [hsel, torn_all, if_pos (valid_withSeq (fun h => hne (herased.mp h)) h1 h2)] at hlast
      exact hlast.imp Eq.symm Option.some.inj
  · rintro ⟨hwithout, hnumber⟩
    refine ⟨.inl rfl, fun words _ => ?_⟩
    rw [hsel]
    split
    · next hvalid =>
      -- a valid record has the new number
      have hne : v ≠ 2 ^ 32 - 1 := by
        intro heq
        have hseq := (otaSelectValid_iff.mp hvalid).1
        rcases (torn_record (m := m) i _ words).1 with h | h
        · exact hseq h
        · exact hseq (h.trans (herased.mpr heq))
      exact (hnumber.resolve_left hne).imp Eq.symm (congrArg some)
    · exact hwithout.imp Eq.symm (congrArg some)

/-- The operations of a call for a slot whose image verifies. -/
lemma espOtaSetBootPartitionOps_slot (block : ℕ) (ht : Slots dev.table n)
    (hov : ¬ OverrunsCount dev.table n) {verify : Partition → Bool} {p : Partition} {k : ℕ}
    (hp : findFirst dev.table typeApp (subtypeOtaMin + k) = some p) (hk : k < n)
    (hv : verify p = true) : ∃ part, espOtaSetBootPartitionOps dev block verify p m =
      match getActiveOtadata (readTwo m) with
      | some active =>
        match searchSeq (readTwo m active).otaSeq.toNat k n (2 ^ 32) 0 with
        | none => []
        | some seq => rewriteOtaSeqOps block part (otherRecord active)
          (((readTwo m (otherRecord active)).withState (setNewStateOtadata dev)).withSeq
            (BitVec.ofNat 32 seq))
      | none => rewriteOtaSeqOps block part 0
          (((readTwo m 0).withState (setNewStateOtadata dev)).withSeq (BitVec.ofNat 32 (k + 1))) := by
  have hle := ht.le
  have hmin : subtypeOtaMin = 16 := rfl
  obtain ⟨part, hpart, -⟩ := exists_otadata ht
  have hcount := getOtaPartitionCount_eq ht dev rfl m
  rw [if_neg hov] at hcount
  have hmatch := (matches_iff (by omega)).mp (mem_of_findFirst hp).2
  have hid : subTypeId (subtypeOtaMin + k) = k := by
    rw [subTypeId, hmin]
    omega
  refine ⟨part, ?_⟩
  rw [espOtaSetBootPartitionOps, if_pos ⟨hv, hmatch.1⟩, hmatch.2,
    if_neg (by rw [hmin, subtypeFactory]; omega), espRewriteOtaDataOps, hpart]
  simp only [hcount]
  rw [hid, if_neg (by omega)]

lemma atomic_slot_iff (ht : Slots dev.table n) (hblock : secSize ∣ block)
    {verify : Partition → Bool} {p : Partition} {k : ℕ}
    (hp : findFirst dev.table typeApp (subtypeOtaMin + k) = some p) (hk : k < n) :
    Atomic dev block verify p (some k) m ↔
      (verify p = true → ¬ (¬ OverrunsCount dev.table n ∧ SlotExposed dev n k m)) := by
  by_cases hv : verify p = true
  swap
  · have hops : espOtaSetBootPartitionOps dev block verify p m = [] := by
      rw [espOtaSetBootPartitionOps, if_neg fun h => hv h.1]
    exact ⟨fun _ h => absurd h hv, fun _ => atomic_of_no_ops hops⟩
  by_cases hov : OverrunsCount dev.table n
  · have hops : espOtaSetBootPartitionOps dev block verify p m = [] := by
      have hle := ht.le
      have hmin : subtypeOtaMin = 16 := rfl
      obtain ⟨part, hpart, -⟩ := exists_otadata ht
      have hcount := getOtaPartitionCount_eq ht dev rfl m
      rw [if_pos hov] at hcount
      have hmatch := (matches_iff (by omega)).mp (mem_of_findFirst hp).2
      rw [espOtaSetBootPartitionOps, if_pos ⟨hv, hmatch.1⟩, hmatch.2,
        if_neg (by rw [hmin, subtypeFactory]; omega), espRewriteOtaDataOps, hpart]
      simp only [hcount]
    exact ⟨fun _ _ h => h.1 hov, fun _ => atomic_of_no_ops hops⟩
  obtain ⟨part, hops⟩ := espOtaSetBootPartitionOps_slot (m := m) block ht hov hp hk hv
  have hnew := setNewStateOtadata_ne dev
  cases hact : getActiveOtadata (readTwo m) with
  | none =>
    have hnone := getActiveOtadata_eq_none_iff.mp hact
    have hreset : ∀ i, otaSelectValid (resetRecords dev.rollback (readTwo m) i) = false := by
      intro i
      rw [Bool.eq_false_iff]
      intro h
      exact Bool.false_ne_true ((hnone i).symm.trans (valid_of_resetRecords h))
    have hbefore : selected dev m = some (selectedWithout dev n m 0) := by
      rw [selected_eq ht, chosen_of_invalid dev.table n (i := 0) (hreset _), hreset, selectedWithout, hreset,
        if_neg Bool.false_ne_true, if_neg Bool.false_ne_true]
    refine ⟨fun _ _ h => ?_, fun _ => ?_⟩
    · obtain ⟨-, active, v, hsome, -⟩ := h
      rw [hact] at hsome
      exact absurd hsome (by simp)
    · rw [Atomic, hops, hact]
      refine (atomic_rewrite_iff ht hblock (by have := ht.le; omega) hnew.1 hnew.2.1 hnew.2.2
        (fun h => ?_)).mpr ⟨.inl hbefore, .inr (.inr ?_)⟩
      · rw [hnone] at h
        exact absurd h (by decide)
      · rw [slot_of_number hk (by omega) (by have := ht.le; omega) rfl]
        rfl
  | some active =>
    simp only [hact] at hops
    cases hfind : searchSeq (readTwo m active).otaSeq.toNat k n (2 ^ 32) 0 with
    | none =>
      simp only [hfind] at hops
      refine ⟨fun _ _ h => ?_, fun _ => atomic_of_no_ops hops⟩
      obtain ⟨-, active', v, hact', hfind', -⟩ := h
      obtain rfl := Option.some.inj (hact.symm.trans hact')
      rw [hfind] at hfind'
      exact absurd hfind' (by simp)
    | some v =>
      simp only [hfind] at hops
      obtain ⟨hge, hlt⟩ := le_of_searchSeq _ _ hfind
      have hexposed : SlotExposed dev n k m ↔
          LosesPrevious dev n k m active ∨ WrongNumber dev n k m v := by
        constructor
        · rintro ⟨active', v', hact', hfind', h⟩
          obtain rfl := Option.some.inj (hact.symm.trans hact')
          obtain rfl := Option.some.inj (hfind.symm.trans hfind')
          exact h
        · exact fun h => ⟨active, v, hact, hfind, h⟩
      rw [Atomic, hops]
      refine (atomic_rewrite_iff ht hblock hlt hnew.1 hnew.2.1 hnew.2.2 fun _ => ?_).trans ?_
      · rw [otherRecord_otherRecord]
        exact hge
      · rw [hexposed, losesPrevious_iff ht hact, WrongNumber, appIndex, Int.natCast_inj]
        constructor
        · rintro ⟨h1, h2⟩ _ ⟨-, ⟨ha, hb⟩ | ⟨ha, hb, hc⟩⟩
          · exact h1.elim ha hb
          · exact h2.elim ha fun h => h.elim hc hb
        · intro h
          constructor
          · by_contra hne
            exact h hv ⟨hov, .inl ⟨fun e => hne (.inl e), fun e => hne (.inr e)⟩⟩
          · by_contra hne
            exact h hv ⟨hov, .inr ⟨fun e => hne (.inl e), fun e => hne (.inr (.inr e)),
              fun e => hne (.inr (.inl e))⟩⟩

/-! ### Selecting the factory app -/

/-- An operation that erases at least a sector. -/
def FlashOp.erases : FlashOp → Prop
  | .erase _ size => secSize ≤ size
  | .program _ _ => False

/-- Erased cells stay erased. -/
lemma replay_erased {x : ℕ} : ∀ (ops : List FlashOp) (m : Mem), (∀ op ∈ ops, op.erases) →
    m x = 0xff#8 → replay m ops x = 0xff#8 := by
  intro ops
  induction ops with
  | nil => exact fun _ _ h => h
  | cons op ops ih =>
    intro m hops hx
    apply ih _ fun op' h => hops op' (List.mem_cons_of_mem _ h)
    cases op with
    | erase offset size =>
      by_cases hmem : offset ≤ x ∧ x < offset + size
      · exact Mem.erase_of_mem hmem
      · exact (Mem.erase_of_not_mem hmem).trans hx
    | program offset bytes => exact (hops _ (List.mem_cons_self ..)).elim

lemma erases_of_mem_eraseRegionOps (base : ℕ) (hblock : secSize ∣ block) : ∀ (rounds start len : ℕ),
    ∀ op ∈ eraseRegionOps block base rounds start len, op.erases := by
  intro rounds
  induction rounds with
  | zero => intro start len op hop; simp [eraseRegionOps] at hop
  | succ rounds ih =>
    intro start len op hop
    rw [eraseRegionOps] at hop
    split at hop
    · simp at hop
    · split at hop
      · next hcond =>
        rcases List.mem_cons.mp hop with rfl | hop
        · exact Nat.le_of_dvd hcond.1 hblock
        · exact ih _ _ op hop
      · rcases List.mem_cons.mp hop with rfl | hop
        · exact Nat.le_refl secSize
        · exact ih _ _ op hop

/-- The first operation on a region of at least one sector. -/
lemma eraseRegionOps_cons (block base start : ℕ) {rounds len : ℕ} (hr : 0 < rounds)
    (hlen : secSize ≤ len) : ∃ size ops,
      eraseRegionOps block base rounds start len = .erase start size :: ops ∧
      ops = eraseRegionOps block base (rounds - 1) (start + size) (len - size) ∧
      (size = secSize ∨ size = block ∧ 0 < block ∧ block ≤ len ∧ (base + start) % block = 0) ∧
      ((2 * secSize ≤ block ∧ block ≤ len ∧ (base + start) % block = 0) → size = block) := by
  obtain ⟨rounds, rfl⟩ : ∃ r, rounds = r + 1 := ⟨rounds - 1, by omega⟩
  rw [eraseRegionOps, if_neg (by omega)]
  split
  · next hcond => exact ⟨_, _, rfl, rfl, .inr ⟨rfl, hcond⟩, fun _ => rfl⟩
  · next hcond =>
    have hsec : secSize = 4096 := rfl
    exact ⟨_, _, rfl, rfl, .inl rfl, fun h => absurd ⟨by omega, h.2⟩ hcond⟩

/-- With both records erased the default is selected. -/
lemma selected_of_erased (ht : Slots dev.table n) (h : ∀ x < 2 * secSize, m x = 0xff#8) :
    selected dev m = some (defaultIndex dev.table) := by
  have hsec : secSize = 4096 := rfl
  have hinvalid : ∀ i, otaSelectValid (resetRecords dev.rollback (readTwo m) i) = false := by
    intro i
    have hi := i.isLt
    apply invalid_of_initial
    left
    rw [resetRecords_otaSeq]
    exact word_of_erased fun k hk => h _ (by rw [hsec]; omega)
  rw [selected_eq ht, chosen_of_invalid dev.table n (i := 0) (hinvalid _), hinvalid,
    if_neg Bool.false_ne_true]

/-- With the first record erased the second one is selected if it is valid. -/
lemma selected_of_first_erased (ht : Slots dev.table n) :
    selected dev (m.erase 0 secSize) =
      some (if otaSelectValid (resetRecords dev.rollback (readTwo m) 1) then
        (slotOf n (readTwo m 1) : ℤ) else defaultIndex dev.table) := by
  have hsec : secSize = 4096 := rfl
  have hfirst : otaSelectValid (resetRecords dev.rollback (readTwo (m.erase 0 secSize)) 0) =
      false := by
    apply invalid_of_initial
    left
    rw [resetRecords_otaSeq]
    exact word_of_erased fun k hk => Mem.erase_of_mem (by rw [hsec, Fin.val_zero]; omega)
  have hsecond : readTwo (m.erase 0 secSize) 1 = readTwo m 1 := by
    apply readEntry_congr
    intro x h1 _
    exact Mem.erase_of_not_mem (by rw [Fin.val_one] at h1; omega)
  have hreset : resetRecords dev.rollback (readTwo (m.erase 0 secSize)) 1 =
      resetRecords dev.rollback (readTwo m) 1 := by
    rw [resetRecords, hsecond]
    rfl
  rw [selected_eq ht, chosen_of_invalid dev.table n (i := 1) hfirst, hreset, slotOf_reset]

/-- After the first sector alone a third partition is selected exactly if the second record is
valid, and was not selected before. -/
lemma first_erased_iff (ht : Slots dev.table n) (hdefault : defaultIndex dev.table = factoryIndex) :
    (selected dev (m.erase 0 secSize) = selected dev m ∨
      selected dev (m.erase 0 secSize) = some factoryIndex) ↔
    ¬ (getActiveOtadata (resetRecords dev.rollback (readTwo m)) = some 0 ∧
      otaSelectValid (resetRecords dev.rollback (readTwo m) 1) = true ∧
      slotOf n (readTwo m 0) ≠ slotOf n (readTwo m 1)) := by
  rw [selected_of_first_erased ht, selected_eq ht, chosen, hdefault]
  by_cases hv : otaSelectValid (resetRecords dev.rollback (readTwo m) 1) = true
  · rw [if_pos hv]
    have hne : (slotOf n (readTwo m 1) : ℤ) ≠ factoryIndex := by
      rw [factoryIndex]
      omega
    cases hact : getActiveOtadata (resetRecords dev.rollback (readTwo m)) with
    | none =>
      rw [getActiveOtadata_eq_none_iff.mp hact] at hv
      exact absurd hv Bool.false_ne_true
    | some a =>
      have ha : a = 0 ∨ a = 1 := by omega
      simp only [slotOf_reset, Option.some.injEq, hv, true_and, Nat.cast_inj]
      rcases ha with rfl | rfl
      · constructor
        · rintro (h | h) ⟨-, h'⟩
          · exact h' h.symm
          · exact hne h
        · intro h
          left
          by_contra h'
          exact h ⟨rfl, fun e => h' e.symm⟩
      · exact ⟨fun _ h => absurd h.1 (by decide), fun _ => .inl rfl⟩
  · rw [if_neg hv]
    exact ⟨fun _ h => hv h.2.1, fun _ => .inr rfl⟩

/-- Erasing the records is atomic exactly if the second one is not left in use alone. -/
lemma atomic_factory_iff (ht : Slots dev.table n) (hblock : secSize ∣ block)
    {verify : Partition → Bool} {p : Partition}
    (hp : findFirst dev.table typeApp subtypeFactory = some p) :
    Atomic dev block verify p none m ↔ (verify p = true → ¬ FactoryExposed dev block n m) := by
  have hsec : secSize = 4096 := rfl
  have hdefault : defaultIndex dev.table = factoryIndex := by rw [defaultIndex, hp]; rfl
  have hmatch := (matches_iff (by decide)).mp (mem_of_findFirst hp).2
  obtain ⟨part, hpart, -, hroom⟩ := exists_otadata ht
  by_cases hv : verify p = true
  swap
  · have hops : espOtaSetBootPartitionOps dev block verify p m = [] := by
      rw [espOtaSetBootPartitionOps, if_neg fun h => hv h.1]
    exact ⟨fun _ h => absurd h hv, fun _ => atomic_of_no_ops hops⟩
  have hops : espOtaSetBootPartitionOps dev block verify p m =
      if part.size % secSize = 0 then eraseRegionOps block part.offset part.size 0 part.size
      else [] := by
    rw [espOtaSetBootPartitionOps, if_pos ⟨hv, hmatch.1⟩, if_pos hmatch.2, hpart]
  by_cases hsize : part.size % secSize = 0
  swap
  · rw [if_neg hsize] at hops
    refine ⟨fun _ _ h => ?_, fun _ => atomic_of_no_ops hops⟩
    obtain ⟨part', hpart', hsize', -⟩ := h
    obtain rfl := Option.some.inj (hpart.symm.trans hpart')
    exact hsize hsize'
  rw [if_pos hsize] at hops
  obtain ⟨size, rest, hcons, hrest, hcase, hlarge⟩ := eraseRegionOps_cons block part.offset 0
    (show 0 < part.size by omega)
    (show secSize ≤ part.size by omega)
  have herases := erases_of_mem_eraseRegionOps part.offset hblock part.size 0 part.size
  rw [hcons] at herases
  have herased : ∀ ops, (∀ x < 2 * secSize, replay (m.erase 0 size) ops x = 0xff#8) →
      selected dev (replay m (.erase 0 size :: ops)) = some (appIndex none) := by
    intro ops hx
    rw [replay_cons, appIndex, ← hdefault]
    exact selected_of_erased ht hx
  by_cases hbig : 2 * secSize ≤ block ∧ block ≤ part.size ∧ part.offset % block = 0
  · -- the first block holds both records
    obtain rfl := hlarge hbig
    refine ⟨fun _ _ h => ?_, fun _ ops hpre => ?_⟩
    · obtain ⟨part', hpart', -, hnot, -⟩ := h
      obtain rfl := Option.some.inj (hpart.symm.trans hpart')
      exact hnot hbig
    · rw [hops, hcons] at hpre
      rcases List.prefix_cons_iff.mp hpre with rfl | ⟨ops, rfl, htail⟩
      · exact .inl rfl
      · refine .inr (herased ops fun x hx => replay_erased ops _ (fun op hop => ?_)
          (Mem.erase_of_mem (by omega)))
        exact herases op (List.mem_cons_of_mem _ (htail.subset hop))
  · have hsector : size = secSize := by
      rcases hcase with h | ⟨h, hpos, hle, hmod⟩
      · exact h
      · rw [h]
        have hdvd := Nat.le_of_dvd hpos hblock
        have hlt : block < 2 * secSize := by
          by_contra hge
          exact hbig ⟨by omega, hle, hmod⟩
        rw [hsec] at hblock hdvd hlt ⊢
        omega
    subst hsector
    have hexposed : FactoryExposed dev block n m ↔
        getActiveOtadata (resetRecords dev.rollback (readTwo m)) = some 0 ∧
        otaSelectValid (resetRecords dev.rollback (readTwo m) 1) = true ∧
        slotOf n (readTwo m 0) ≠ slotOf n (readTwo m 1) := by
      constructor
      · rintro ⟨part', hpart', -, -, h⟩
        exact h
      · exact fun h => ⟨part, hpart, hsize, hbig, h⟩
    rw [hexposed, ← first_erased_iff ht hdefault]
    constructor
    · intro h _
      exact h [.erase 0 secSize] (by rw [hops, hcons]; simp)
    · intro h ops hpre
      rw [hops, hcons] at hpre
      rcases List.prefix_cons_iff.mp hpre with rfl | ⟨ops, rfl, htail⟩
      · exact .inl rfl
      · obtain ⟨size, rest', hcons', -, hcase', -⟩ := eraseRegionOps_cons block
          part.offset (0 + secSize) (show 0 < part.size - 1 by omega)
          (show secSize ≤ part.size - secSize by omega)
        have hge : secSize ≤ size := by
          have := herases (.erase (0 + secSize) size) (by rw [hrest, hcons']; simp)
          exact this
        have htail' := htail
        rw [hrest, hcons'] at htail'
        rcases List.prefix_cons_iff.mp htail' with rfl | ⟨ops, rfl, -⟩
        · exact h hv
        · -- the second sector has been erased as well
          refine .inr (herased _ fun x hx => ?_)
          rw [replay_cons]
          refine replay_erased ops _ (fun op hop => herases op (List.mem_cons_of_mem _
            (htail.subset (List.mem_cons_of_mem _ hop)))) ?_
          rw [FlashOp.apply]
          by_cases hlt : x < secSize
          · rw [Mem.erase_of_not_mem (by omega)]
            exact Mem.erase_of_mem (by omega)
          · exact Mem.erase_of_mem (by omega)

/-! ### The result -/

/-- Changing the boot partition is atomic exactly in the states that are not exposed. -/
theorem set_boot_partition_atomic_iff (ht : Slots dev.table n) (hblock : secSize ∣ block)
    {verify : Partition → Bool} {p : Partition} {r : Option ℕ}
    (hp : findFirst dev.table typeApp (appSubtype r) = some p) (hr : ∀ k, r = some k → k < n) :
    Atomic dev block verify p r m ↔ (verify p = true → ¬ Exposed dev block n r m) := by
  cases r with
  | none => exact atomic_factory_iff ht hblock hp
  | some k => exact atomic_slot_iff ht hblock hp (hr k rfl)

/-- The confirmed app of the first slot selects the second one. -/
theorem select_second_slot_atomic : Atomic ⟨twoSlotTable, true⟩ 0x10000 (fun _ => true)
    ⟨0, 0x11, 0x210000, 0x100000⟩ (some 1) firstSlotConfirmed := by
  have hact : getActiveOtadata (readTwo firstSlotConfirmed) = some 0 := by decide +kernel
  have hstate : (readTwo firstSlotConfirmed 0).otaState ≠ imgPendingVerify := by decide +kernel
  have hfind : searchSeq (readTwo firstSlotConfirmed 0).otaSeq.toNat 1 2 (2 ^ 32) 0 = some 2 := by
    decide +kernel
  refine (set_boot_partition_atomic_iff slots_twoSlotTable (by decide) (by decide)
    (by simp)).mpr ?_
  rintro - ⟨-, active, v, hact', hfind', h⟩
  obtain rfl := Option.some.inj (hact.symm.trans hact')
  obtain rfl := Option.some.inj (hfind.symm.trans hfind')
  rcases h with h | h
  · exact hstate h.2.1
  · exact h.2.1 (by decide)

/-- Both slots are confirmed, and the first one is selected again and confirmed. -/
def bothConfirmed : List Op :=
  confirmedRun ++ [selectOp 1, .boot allLoad, .markValid fun _ => true, selectOp 0, .boot allLoad,
    .markValid fun _ => true]

/-- The first slot is confirmed, and the app in the second one is running on trial. -/
def onTrial : List Op := confirmedRun ++ [selectOp 1, .boot allLoad]

/-- While the factory app is selected instead of the first slot, the second slot is selected;
while an app on trial selects itself, the confirmed first slot is lost to the factory app. -/
theorem set_boot_partition_not_atomic :
    ¬ Atomic ⟨twoSlotTable, true⟩ 0x10000 (fun _ => true) ⟨0, 0x00, 0x10000, 0x100000⟩ none
        (World.after ⟨twoSlotTable, true⟩ .blank bothConfirmed).otadata ∧
      ¬ Atomic ⟨twoSlotTable, true⟩ 0x10000 (fun _ => true) ⟨0, 0x11, 0x210000, 0x100000⟩ (some 1)
        (World.after ⟨twoSlotTable, true⟩ .blank onTrial).otadata := by
  constructor
  · intro h
    have hbefore : selected ⟨twoSlotTable, true⟩
        (World.after ⟨twoSlotTable, true⟩ .blank bothConfirmed).otadata = some 0 := by
      decide +kernel
    have hafter : selected ⟨twoSlotTable, true⟩
        (replay (World.after ⟨twoSlotTable, true⟩ .blank bothConfirmed).otadata
          [.erase 0 secSize]) = some 1 := by
      decide +kernel
    have hatomic := h [.erase 0 secSize] ⟨[.erase secSize secSize], rfl⟩
    rw [hbefore, hafter] at hatomic
    exact absurd hatomic (by decide)
  · intro h
    have hbefore : selected ⟨twoSlotTable, true⟩
        (World.after ⟨twoSlotTable, true⟩ .blank onTrial).otadata = some 0 := by
      decide +kernel
    have hafter : selected ⟨twoSlotTable, true⟩
        (replay (World.after ⟨twoSlotTable, true⟩ .blank onTrial).otadata
          [.erase 0 secSize]) = some factoryIndex := by
      decide +kernel
    have hatomic := h [.erase 0 secSize] (by decide +kernel)
    rw [hbefore, hafter] at hatomic
    exact absurd hatomic (by decide)

example : otherRecord (otherRecord 0) = 0 := by decide +kernel

end EspIdf.Ota
