/-
# An image is confirmed by itself

The calls that confirm or reject an image act on the active record, whichever app is running,
and the query for the state of a slot stops at the first record for that slot.  Both are
right in runs in which only the app of the active record marks it, and in which no slot is
selected again while its record is active: the two records then never stand for one slot
while the second of them is valid.
-/
import EspIdf.Ota.Rollback

namespace EspIdf.Ota

open EspIdf.Lib

variable {table : List Partition} {n : ℕ} {dev : Device} {m m' : Mem}

/-! ### Runs -/

/-- The otadata partition, and the index of the app that is running. -/
structure World where
  otadata : Mem
  running : Option ℤ

/-- The otadata partition is erased and no app has been started yet. -/
def World.blank : World := ⟨fun _ => 0xff#8, none⟩

/-- The boots and the calls of the running app. -/
inductive Op where
  | boot (loads : PartitionPos → Bool)
  | setBoot (verify : Partition → Bool) (partition : Option Partition)
  | markValid (verify : Partition → Bool)
  | markInvalid (verify : Partition → Bool)

/-- The calls that confirm or reject an image. -/
def Op.isMark : Op → Bool
  | .markValid _ => true
  | .markInvalid _ => true
  | _ => false

/-- The app goes on after a call that returns; a restart or a failed assertion ends it. -/
def stillRunning (running : Option ℤ) : Except Stop Unit → Option ℤ
  | .ok _ => running
  | .error (.err _) => running
  | .error _ => none

/-- A call, which can be made if an app is running. -/
def World.call (w : World) (f : OtaM Unit) : World :=
  if w.running.isSome then ⟨(f w.otadata).2, stillRunning w.running (f w.otadata).1⟩ else w

/-- One boot or one call. -/
def World.step (dev : Device) (w : World) : Op → World
  | .boot loads => ⟨(boot dev loads w.otadata).otadata, (boot dev loads w.otadata).started⟩
  | .setBoot verify p => w.call (espOtaSetBootPartition dev verify p)
  | .markValid verify => w.call (espOtaMarkAppValidCancelRollback dev verify)
  | .markInvalid verify => w.call (espOtaMarkAppInvalidRollbackAndReboot dev verify)

/-- The slot that a record selects. -/
def slotOf (n : ℕ) (s : SelectEntry) : ℕ := u32Sub s.otaSeq.toNat 1 % n

/-- A record that has been written becomes valid or invalid only in a call of the app of its
slot that confirms or rejects it. -/
def ConfirmedByItself (dev : Device) (n : ℕ) (w : World) (op : Op) : Prop :=
  ∀ i, (readTwo w.otadata i).otaSeq ≠ seqErased →
    (readTwo w.otadata i).crc = otaSelectCrc (readTwo w.otadata i) →
    ∀ state, (readTwo (w.step dev op).otadata i).otaState = state →
      state ≠ (readTwo w.otadata i).otaState → state = imgValid ∨ state = imgInvalid →
      op.isMark ∧ w.running = some (slotOf n (readTwo w.otadata i) : ℤ)

/-- The record that is active, now or after a reset, has the state that the query for its
slot reports. -/
def ReportsUsed (dev : Device) (n : ℕ) (m : Mem) : Prop :=
  ∀ i, getActiveOtadata (readTwo m) = some i ∨
      getActiveOtadata (readTwo (resetMem dev.rollback m)) = some i →
    ∀ p, findFirst dev.table typeApp (subtypeOtaMin + slotOf n (readTwo m i)) = some p →
      espOtaGetStatePartition dev (some p) m = (.ok (readTwo m i).otaState, m)

/-- Every state of the run reports the states that are used, and in every step an image is
confirmed by itself. -/
def AlwaysByItself (dev : Device) (n : ℕ) : World → List Op → Prop
  | w, [] => ReportsUsed dev n w.otadata
  | w, op :: ops => ReportsUsed dev n w.otadata ∧ ConfirmedByItself dev n w op ∧
      AlwaysByItself dev n (w.step dev op) ops

/-- From `seq` on a number is left that stands for slot `k`. -/
def NumberLeft (n seq k : ℕ) : Prop := ∃ v, seq ≤ v ∧ v < 2 ^ 32 - 1 ∧ v % n = (k + 1) % n

/-- A record is marked by the app of its slot, or has the mark already, and a slot is selected
only while another one is and if it has a number left. -/
def Op.Careful (n : ℕ) (w : World) : Op → Prop
  | .boot _ => True
  | .setBoot verify p => ∀ q, p = some q → verify q = true → q.type.toNat = typeApp →
      q.subtype.toNat ≠ subtypeFactory → subTypeId q.subtype.toNat < n →
      ∀ a, getActiveOtadata (readTwo w.otadata) = some a →
        slotOf n (readTwo w.otadata a) ≠ subTypeId q.subtype.toNat ∧
          NumberLeft n (readTwo w.otadata a).otaSeq.toNat (subTypeId q.subtype.toNat)
  | .markValid _ => ∀ r a, w.running = some r → getActiveOtadata (readTwo w.otadata) = some a →
      r = slotOf n (readTwo w.otadata a) ∨ (readTwo w.otadata a).otaState = imgValid
  | .markInvalid _ => ∀ r a, w.running = some r →
      getActiveOtadata (readTwo w.otadata) = some a → r = slotOf n (readTwo w.otadata a)

/-- All steps of the run are careful. -/
def CarefulRun (dev : Device) (n : ℕ) : World → List Op → Prop
  | _, [] => True
  | w, op :: ops => op.Careful n w ∧ CarefulRun dev n (w.step dev op) ops

/-! ### What the calls do -/

/-- A number that is left is found. -/
lemma searchSeq_left {seq k : ℕ} (h : NumberLeft n seq k) :
    ∃ v, searchSeq seq k n (2 ^ 32) 0 = some v ∧ seq ≤ v ∧ v < 2 ^ 32 - 1 ∧
      v % n = (k + 1) % n := by
  obtain ⟨v, hseq, hlt, hmod⟩ := h
  have hv : (k + 1) % n + v / n * n = v := by
    rw [← hmod, Nat.mul_comm, Nat.mod_add_div]
  have hdiv : v / n ≤ v := Nat.div_le_self v n
  obtain ⟨j, -, hj, h3, h4, -⟩ := searchSeq_spec (n := n) (2 ^ 32) 0 (v / n)
    (Nat.zero_le _) (by omega) (show seq ≤ (k + 1) % n + v / n * n by omega) (by omega)
  refine ⟨_, hj, h3, by omega, ?_⟩
  rw [Nat.add_mul_mod_self_right, Nat.mod_mod]

/-- Selecting a slot writes one record or changes nothing. -/
lemma espRewriteOtaData_cases (ht : Slots dev.table n) (subtype : ℕ) :
    (espRewriteOtaData dev subtype m).2 = m ∨ subTypeId subtype < n ∧
      selectSlot dev n (subTypeId subtype) m = some (espRewriteOtaData dev subtype m).2 := by
  by_cases hid : subTypeId subtype < n
  · have hsame : espRewriteOtaData dev subtype =
        espRewriteOtaData dev (subtypeOtaMin + subTypeId subtype) := by
      have : subTypeId (subtypeOtaMin + subTypeId subtype) = subTypeId subtype := by
        rw [subTypeId, subTypeId, subtypeOtaMin]
        omega
      rw [espRewriteOtaData, espRewriteOtaData, this]
    by_cases hov : OverrunsCount dev.table n
    · left
      obtain ⟨part, hread, -, -⟩ := readOtadata_eq (m := m) dev ht
      have hcount := getOtaPartitionCount_eq ht dev rfl m
      rw [if_pos hov] at hcount
      rw [espRewriteOtaData, Prog.bind_ok hread]
      simp only
      rw [Prog.bind_error hcount]
    · rw [hsame, espRewriteOtaData_eq dev ht hov hid]
      cases selectSlot dev n (subTypeId subtype) m with
      | none => exact .inl rfl
      | some m' => exact .inr ⟨hid, rfl⟩
  · left
    obtain ⟨part, hread, -, -⟩ := readOtadata_eq (m := m) dev ht
    have hcount := getOtaPartitionCount_eq ht dev rfl m
    rw [espRewriteOtaData, Prog.bind_ok hread]
    simp only
    split at hcount
    · rw [Prog.bind_error hcount]
    · rw [Prog.bind_ok hcount, if_pos (by omega)]
      rfl

/-- `esp_ota_set_boot_partition` changes nothing, erases the records, or selects the slot of
an app that verifies. -/
lemma setBoot_cases (dev : Device) (ht : Slots dev.table n) (verify : Partition → Bool) (p : Option Partition) :
    (espOtaSetBootPartition dev verify p m).2 = m ∨
    (∃ size, 2 * secSize ≤ size ∧
      (espOtaSetBootPartition dev verify p m).2 = m.erase 0 size) ∨
    ∃ q, p = some q ∧ verify q = true ∧ q.type.toNat = typeApp ∧
      q.subtype.toNat ≠ subtypeFactory ∧ subTypeId q.subtype.toNat < n ∧
      selectSlot dev n (subTypeId q.subtype.toNat) m =
        some (espOtaSetBootPartition dev verify p m).2 := by
  obtain ⟨part, hpart, -, hroom⟩ := exists_otadata ht
  cases p with
  | none => exact .inl rfl
  | some q =>
    by_cases hv : verify q = true
    · by_cases htype : q.type.toNat = typeApp
      · by_cases hsub : q.subtype.toNat = subtypeFactory
        · simp only [espOtaSetBootPartition, if_pos hv, if_pos htype, if_pos hsub, hpart,
            eraseRange]
          split
          · exact .inl rfl
          · split
            · exact .inl rfl
            · split
              · exact .inl rfl
              · split
                · exact .inl rfl
                · exact .inr (.inl ⟨part.size, hroom, rfl⟩)
        · simp only [espOtaSetBootPartition, if_pos hv, if_pos htype, if_neg hsub]
          rcases espRewriteOtaData_cases (m := m) ht q.subtype.toNat with h | ⟨hid, h⟩
          · exact .inl h
          · exact .inr (.inr ⟨q, rfl, hv, htype, hsub, hid, h⟩)
      · left
        simp only [espOtaSetBootPartition, if_pos hv, if_neg htype]
        rfl
    · left
      simp only [espOtaSetBootPartition, if_neg hv]
      rfl

/-- Confirming and rejecting set the state of the active record or change nothing. -/
lemma isWorkable_cases (ht : Slots dev.table n) (verify : Partition → Bool) (valid : Bool) :
    (espOtaCurrentOtaIsWorkable dev verify valid m).2 = m ∨
    ∃ a, getActiveOtadata (readTwo m) = some a ∧
      (valid = true → (readTwo m a).otaState ≠ imgValid) ∧
      (espOtaCurrentOtaIsWorkable dev verify valid m).2 =
        storeEntry m a ((readTwo m a).withState (if valid then imgValid else imgInvalid)) := by
  obtain ⟨part, hread, hroom, -⟩ := readOtadata_eq (m := m) dev ht
  have hcount := getOtaPartitionCount_eq ht dev rfl m
  rw [espOtaCurrentOtaIsWorkable, Prog.bind_ok hread]
  simp only
  cases hact : getActiveOtadata (readTwo m) with
  | none => exact .inl rfl
  | some active =>
    have hcrc := (otaSelectValid_iff.mp (getActiveOtadata_eq_some_iff.mp hact).1).2.2.2
    -- the number is written again, and with it its checksum
    have hsame : ∀ state, (setState (readTwo m) active state active).withSeq
        (readTwo m active).otaSeq = (readTwo m active).withState state := by
      intro state
      rw [setState, Function.update_self, SelectEntry.withSeq, SelectEntry.withState, hcrc]
      rfl
    simp only
    split at hcount
    · rw [Prog.bind_error hcount]
      exact .inl rfl
    · rw [Prog.bind_ok hcount]
      split
      · exact .inl rfl
      · cases valid with
        | true =>
          simp only [if_true]
          split
          · exact .inl rfl
          · next hstate =>
            rw [rewriteOtaSeq_ok hroom, hsame]
            exact .inr ⟨active, rfl, fun _ => hstate, rfl⟩
        | false =>
          have hcheck := espOtaCheckRollbackIsPossible_snd (m := m) ht verify
          simp only [Bool.false_eq_true, if_false]
          cases hc : espOtaCheckRollbackIsPossible dev verify m with
          | mk r m₁ =>
            rw [hc] at hcheck
            obtain rfl : m₁ = m := hcheck
            cases r with
            | error e =>
              rw [Prog.bind_error hc]
              exact .inl rfl
            | ok possible =>
              rw [Prog.bind_ok hc]
              cases possible with
              | false => exact .inl rfl
              | true =>
                simp only [if_true]
                rw [Prog.bind_ok (rewriteOtaSeq_ok hroom), hsame]
                exact .inr ⟨active, rfl, fun h => absurd h (by decide), rfl⟩

/-- Records that a boot leaves in their place: only the states change, from a new image to
one that waits for its confirmation, and to an aborted one. -/
def KeptByBoot (m m' : Mem) : Prop :=
  ∀ i, (readTwo m' i).otaSeq = (readTwo m i).otaSeq ∧ (readTwo m' i).crc = (readTwo m i).crc ∧
    ((readTwo m' i).otaState = (readTwo m i).otaState ∨ (readTwo m' i).otaState = imgAborted ∨
      (readTwo m i).otaState = imgNew ∧ (readTwo m' i).otaState = imgPendingVerify)

lemma KeptByBoot.refl : KeptByBoot m m := fun _ => ⟨rfl, rfl, .inl rfl⟩

/-- One record is stored again with another state. -/
lemma KeptByBoot.store {i : Fin 2} {state : BitVec 32}
    (h : state = imgAborted ∨ (readTwo m i).otaState = imgNew ∧ state = imgPendingVerify) :
    KeptByBoot m (storeEntry m i ((readTwo m i).withState state)) := by
  intro j
  rw [readTwo_storeEntry]
  by_cases hij : j = i
  · subst hij
    rw [Function.update_self]
    exact ⟨rfl, rfl, .inr h⟩
  · rw [Function.update_of_ne hij]
    exact ⟨rfl, rfl, .inl rfl⟩

lemma keptByBoot_abortPending (i : Fin 2) : KeptByBoot m (abortPending m i) := by
  rw [abortPending]
  split
  · exact KeptByBoot.store (.inl rfl)
  · exact .refl

lemma keptByBoot_monitorFirstBoot (i : Fin 2) : KeptByBoot m (monitorFirstBoot m i) := by
  rw [monitorFirstBoot]
  split
  · next h => exact KeptByBoot.store (.inr ⟨h, rfl⟩)
  · exact .refl

/-- An aborted record is not made to wait for its confirmation. -/
lemma KeptByBoot.trans {m'' : Mem} (h : KeptByBoot m m') (h' : KeptByBoot m' m'') :
    KeptByBoot m m'' := by
  intro i
  obtain ⟨hseq, hcrc, hstate⟩ := h i
  obtain ⟨hseq', hcrc', hstate'⟩ := h' i
  refine ⟨hseq'.trans hseq, hcrc'.trans hcrc, ?_⟩
  have hne : imgAborted ≠ imgNew := by decide
  have hne' : imgPendingVerify ≠ imgNew := by decide
  grind

lemma keptByBoot_resetMem (rollback : Bool) : KeptByBoot m (resetMem rollback m) := by
  rw [resetMem]
  split
  · exact (keptByBoot_abortPending 0).trans (keptByBoot_abortPending 1)
  · exact .refl

/-- Selecting the boot partition keeps the records; the sectors count as initial only if
neither holds a record that has been written. -/
lemma getSelectedBootPartition_kept (rollback : Bool) (bs : BootloaderState) :
    KeptByBoot m (getSelectedBootPartition rollback bs m).otadata ∧
      ((getSelectedBootPartition rollback bs m).initial = true →
        ∀ i, (readTwo m i).otaSeq = seqErased ∨ (readTwo m i).crc ≠ otaSelectCrc (readTwo m i)) := by
  have hreset := keptByBoot_resetMem (m := m) rollback
  rw [getSelectedBootPartition]
  split
  · exact ⟨.refl, fun h => absurd h Bool.false_ne_true⟩
  · split
    · exact ⟨.refl, fun h => absurd h Bool.false_ne_true⟩
    · change KeptByBoot m (selectIndex rollback bs (resetMem rollback m)).otadata ∧
        ((selectIndex rollback bs (resetMem rollback m)).initial = true → _)
      simp only [selectIndex]
      split
      · split
        · exact ⟨hreset, fun h => absurd h Bool.false_ne_true⟩
        · refine ⟨hreset, fun h i => ?_⟩
          obtain ⟨hseq, hcrc, -⟩ := hreset i
          have hi : isInitial (readTwo (resetMem rollback m) i) = true := by
            have h2 := (Bool.and_eq_true _ _).mp h
            revert i
            rw [Fin.forall_fin_two]
            exact ⟨fun _ _ => h2.1, fun _ _ => h2.2⟩
          have hsum : otaSelectCrc (readTwo (resetMem rollback m) i) =
              otaSelectCrc (readTwo m i) := by
            rw [otaSelectCrc, otaSelectCrc, hseq]
          simpa [isInitial, hseq, hcrc, hsum] using hi
      · split
        · refine ⟨?_, fun h => absurd h Bool.false_ne_true⟩
          split
          · exact hreset.trans (keptByBoot_monitorFirstBoot _)
          · exact hreset
        · exact ⟨hreset, fun h => absurd h Bool.false_ne_true⟩

/-- A boot keeps the records, or writes the first one if neither was written before. -/
lemma boot_cases (dev : Device) (loads : PartitionPos → Bool) :
    KeptByBoot m (boot dev loads m).otadata ∨
    (∀ i, (readTwo m i).otaSeq = seqErased ∨ (readTwo m i).crc ≠ otaSelectCrc (readTwo m i)) ∧
      ∃ m₁ s, KeptByBoot m m₁ ∧ (boot dev loads m).otadata = storeEntry m₁ 0 s := by
  obtain ⟨hkept, hinit⟩ :=
    getSelectedBootPartition_kept (m := m) dev.rollback (loadPartitionTable dev.table)
  simp only [boot]
  split
  · exact .inl hkept
  · rw [loadBootImage]
    split
    · rw [setActualOtaSeq]
      split
      · next hset => exact .inr ⟨hinit hset.2, _, _, hkept, rfl⟩
      · exact .inl hkept
    · split <;> exact .inl hkept

/-! ### The two records of a slot -/

/-- If both records stand for one slot, the second one is not valid. -/
def SecondUnused (n : ℕ) (m : Mem) : Prop :=
  (readTwo m 0).crc = otaSelectCrc (readTwo m 0) → (readTwo m 1).crc = otaSelectCrc (readTwo m 1) →
    slotOf n (readTwo m 0) = slotOf n (readTwo m 1) → otaSelectValid (readTwo m 1) = false

lemma otaSelectCrc_congr {s s' : SelectEntry} (h : s.otaSeq = s'.otaSeq) :
    otaSelectCrc s = otaSelectCrc s' := by
  rw [otaSelectCrc, otaSelectCrc, h]

lemma slotOf_congr {s s' : SelectEntry} (h : s.otaSeq = s'.otaSeq) : slotOf n s = slotOf n s' := by
  rw [slotOf, slotOf, h]

/-- An invalid second record makes no difference. -/
lemma secondUnused_of_invalid (h : otaSelectValid (readTwo m 1) = false) : SecondUnused n m :=
  fun _ _ _ => h

/-- New states do not matter unless they make the second record valid. -/
lemma SecondUnused.of_same (h : SecondUnused n m)
    (hseq : ∀ i, (readTwo m' i).otaSeq = (readTwo m i).otaSeq)
    (hcrc : ∀ i, (readTwo m' i).crc = (readTwo m i).crc)
    (hvalid : otaSelectValid (readTwo m' 1) = true → otaSelectValid (readTwo m 1) = true) :
    SecondUnused n m' := by
  intro h0 h1 hslot
  rw [hcrc, otaSelectCrc_congr (hseq 0)] at h0
  rw [hcrc, otaSelectCrc_congr (hseq 1)] at h1
  rw [slotOf_congr (hseq 0), slotOf_congr (hseq 1)] at hslot
  have hinv := h h0 h1 hslot
  rw [Bool.eq_false_iff] at hinv ⊢
  exact fun hv => hinv (hvalid hv)

/-- A boot makes no record valid. -/
lemma KeptByBoot.valid (h : KeptByBoot m m') {i : Fin 2}
    (hv : otaSelectValid (readTwo m' i) = true) : otaSelectValid (readTwo m i) = true := by
  obtain ⟨hseq, hcrc, hstate⟩ := h i
  obtain ⟨h1, h2, h3, h4⟩ := otaSelectValid_iff.mp hv
  rw [hseq] at h1
  rw [hcrc, otaSelectCrc_congr hseq] at h4
  refine otaSelectValid_iff.mpr ⟨h1, ?_, ?_, h4⟩
  · rcases hstate with he | he | ⟨he, -⟩
    · rwa [← he]
    · exact absurd he h3
    · rw [he]
      decide
  · rcases hstate with he | he | ⟨he, -⟩
    · rwa [← he]
    · exact absurd he h3
    · rw [he]
      decide

lemma SecondUnused.keptByBoot (h : SecondUnused n m) (hk : KeptByBoot m m') :
    SecondUnused n m' :=
  h.of_same (fun i => (hk i).1) (fun i => (hk i).2.1) hk.valid

/-- A record that was never written is not valid. -/
lemma invalid_of_initial {s : SelectEntry} (h : s.otaSeq = seqErased ∨ s.crc ≠ otaSelectCrc s) :
    otaSelectValid s = false := by
  rw [Bool.eq_false_iff]
  intro hv
  obtain ⟨hseq, -, -, hcrc⟩ := otaSelectValid_iff.mp hv
  exact h.elim hseq (fun hne => hne hcrc)

lemma secondUnused_boot (h : SecondUnused n m) (loads : PartitionPos → Bool) :
    SecondUnused n (boot dev loads m).otadata := by
  rcases boot_cases (m := m) dev loads with hk | ⟨hinit, m₁, s, hk, heq⟩
  · exact h.keptByBoot hk
  · apply secondUnused_of_invalid
    rw [heq, readTwo_storeEntry, Function.update_of_ne (by decide), Bool.eq_false_iff]
    intro hv
    have hinv := invalid_of_initial (hinit 1)
    rw [hk.valid hv] at hinv
    exact absurd hinv (by decide)

/-- A record for another slot is stored beside record `a`. -/
lemma secondUnused_of_apart {a : Fin 2} {s : SelectEntry}
    (h : slotOf n s ≠ slotOf n (readTwo m a)) : SecondUnused n (storeEntry m (otherRecord a) s) := by
  intro _ _ hslot
  rw [readTwo_storeEntry] at hslot
  have hself := Function.update_self (otherRecord a) s (readTwo m)
  have hother := Function.update_of_ne (otherRecord_ne (i := a)).symm s (readTwo m)
  exfalso
  have ha : a = 0 ∨ a = 1 := by omega
  rcases ha with rfl | rfl
  · rw [hother, show (1 : Fin 2) = otherRecord 0 from rfl, hself] at hslot
    exact h hslot.symm
  · rw [hother, show (0 : Fin 2) = otherRecord 1 from rfl, hself] at hslot
    exact h hslot

/-- A selection of another slot than the active one. -/
lemma secondUnused_selectSlot (hnum : Numbered m) {k : ℕ} (hk : k < n)
    (hcare : ∀ a, getActiveOtadata (readTwo m) = some a →
      slotOf n (readTwo m a) ≠ k ∧ NumberLeft n (readTwo m a).otaSeq.toNat k)
    (h : selectSlot dev n k m = some m') : SecondUnused n m' := by
  rw [selectSlot] at h
  cases hact : getActiveOtadata (readTwo m) with
  | none =>
    -- the first record is written, and the second one is not valid
    rw [hact] at h
    obtain rfl := Option.some.inj h
    apply secondUnused_of_invalid
    rw [readTwo_storeEntry, Function.update_of_ne (by decide)]
    exact getActiveOtadata_eq_none_iff.mp hact 1
  | some a =>
    obtain ⟨hne, hleft⟩ := hcare a hact
    obtain ⟨v, hfind, hge, hlt, hmod⟩ := searchSeq_left hleft
    have hpos := hnum a (getActiveOtadata_eq_some_iff.mp hact).1
    simp only [hact, hfind, Option.map_some, Option.some.injEq] at h
    subst h
    -- the new record stands for slot `k`, the active one does not
    have hnat : (BitVec.ofNat 32 v).toNat = v := by
      rw [BitVec.toNat_ofNat, Nat.mod_eq_of_lt (by omega)]
    have hnew : slotOf n (((readTwo m (otherRecord a)).withState (setNewStateOtadata dev)).withSeq
        (BitVec.ofNat 32 v)) = k := by
      change u32Sub (BitVec.ofNat 32 v).toNat 1 % n = k
      rw [hnat, slot_of_number hk (by omega) (by omega) hmod]
    exact secondUnused_of_apart fun heq => hne (heq.symm.trans hnew)

/-- Erased records are not valid. -/
lemma invalid_of_erased {size : ℕ} (h : 2 * secSize ≤ size) (i : Fin 2) :
    (readTwo (m.erase 0 size) i).otaSeq = seqErased := by
  have hsec : secSize = 4096 := rfl
  have hi := i.isLt
  have hff : ∀ k < 4, m.erase 0 size (secSize * i + k) = 0xff#8 := fun k hk =>
    Mem.erase_of_mem (by rw [hsec] at h ⊢; omega)
  exact word_of_erased hff

lemma secondUnused_setBoot (ht : Slots dev.table n) (hnum : Numbered m) (h : SecondUnused n m)
    {verify : Partition → Bool} {p : Option Partition} {r : Option ℤ}
    (hcare : (Op.setBoot verify p).Careful n ⟨m, r⟩) :
    SecondUnused n (espOtaSetBootPartition dev verify p m).2 := by
  rcases setBoot_cases (m := m) dev ht verify p with heq | ⟨size, hsize, heq⟩ |
    ⟨q, hp, hv, htype, hsub, hid, heq⟩
  · rw [heq]
    exact h
  · rw [heq]
    exact secondUnused_of_invalid (invalid_of_initial (.inl (invalid_of_erased hsize 1)))
  · exact secondUnused_selectSlot hnum hid (hcare q hp hv htype hsub hid) heq

lemma secondUnused_isWorkable (ht : Slots dev.table n) (h : SecondUnused n m)
    (verify : Partition → Bool) (valid : Bool) :
    SecondUnused n (espOtaCurrentOtaIsWorkable dev verify valid m).2 := by
  rcases isWorkable_cases (m := m) ht verify valid with heq | ⟨a, hact, -, heq⟩
  · rw [heq]
    exact h
  · rw [heq]
    have hrec := readTwo_storeEntry (m := m) (i := a)
      (s := (readTwo m a).withState (if valid then imgValid else imgInvalid))
    have hsame : ∀ i, (readTwo (storeEntry m a ((readTwo m a).withState
        (if valid then imgValid else imgInvalid))) i).otaSeq = (readTwo m i).otaSeq ∧
        (readTwo (storeEntry m a ((readTwo m a).withState
          (if valid then imgValid else imgInvalid))) i).crc = (readTwo m i).crc := by
      intro i
      rw [hrec]
      by_cases hi : i = a
      · subst hi
        rw [Function.update_self]
        exact ⟨rfl, rfl⟩
      · rw [Function.update_of_ne hi]
        exact ⟨rfl, rfl⟩
    refine h.of_same (fun i => (hsame i).1) (fun i => (hsame i).2) fun hv => ?_
    by_cases ha : (1 : Fin 2) = a
    · -- the active record was valid before
      rw [ha]
      exact (getActiveOtadata_eq_some_iff.mp hact).1
    · rw [hrec, Function.update_of_ne ha] at hv
      exact hv

/-! ### The reported state -/

/-- The query for a slot reads the first record for it whose checksum is correct. -/
lemma espOtaGetStatePartition_eq (ht : Slots dev.table n) (hov : ¬ OverrunsCount dev.table n)
    {k : ℕ} (hk : k < n) {p : Partition}
    (hp : findFirst dev.table typeApp (subtypeOtaMin + k) = some p) {state : BitVec 32}
    (hstate : stateOfSlot (readTwo m) n k = some state) :
    espOtaGetStatePartition dev (some p) m = (.ok state, m) := by
  have hle := ht.le
  have hmin : subtypeOtaMin = 16 := rfl
  obtain ⟨part, hread, -, -⟩ := readOtadata_eq (m := m) dev ht
  have hcount := getOtaPartitionCount_eq ht dev rfl m
  rw [if_neg hov] at hcount
  have hmatch := (matches_iff (by omega)).mp (mem_of_findFirst hp).2
  have hota : isOtaPartition p = true := by
    rw [isOtaPartition, hmatch.1, hmatch.2, hmin]
    simp
    omega
  rw [espOtaGetStatePartition]
  simp only [hota, if_true]
  rw [Prog.bind_ok hcount, Prog.bind_ok hread]
  simp only
  rw [if_neg (by have := ht.pos; omega), hmatch.2, Nat.add_sub_cancel_left, hstate]
  rfl

/-- A valid record is the first one for its slot. -/
lemma stateOfSlot_of_valid (h : SecondUnused n m) {i : Fin 2}
    (hv : otaSelectValid (readTwo m i) = true) :
    stateOfSlot (readTwo m) n (slotOf n (readTwo m i)) = some (readTwo m i).otaState := by
  have hcrc := (otaSelectValid_iff.mp hv).2.2.2
  have htest : ∀ j, (readTwo m j).isFor n (slotOf n (readTwo m i)) = true ↔
      slotOf n (readTwo m j) = slotOf n (readTwo m i) ∧
        (readTwo m j).crc = otaSelectCrc (readTwo m j) := fun j => by
    rw [SelectEntry.isFor, Bool.and_eq_true, beq_iff_eq, beq_iff_eq]
    rfl
  have hi : i = 0 ∨ i = 1 := by omega
  rw [stateOfSlot]
  rcases hi with rfl | rfl
  · rw [List.find?_cons_of_pos ((htest 0).mpr ⟨rfl, hcrc⟩)]
    rfl
  · rw [List.find?_cons_of_neg, List.find?_cons_of_pos ((htest 1).mpr ⟨rfl, hcrc⟩)]
    · rfl
    · rw [htest]
      rintro ⟨hslot, hcrc0⟩
      rw [h hcrc0 hcrc hslot] at hv
      exact absurd hv (by decide)

lemma reportsUsed_of_secondUnused (ht : Slots dev.table n) (hov : ¬ OverrunsCount dev.table n)
    (h : SecondUnused n m) : ReportsUsed dev n m := by
  intro i hi p hp
  have hvalid : otaSelectValid (readTwo m i) = true := by
    rcases hi with hact | hact
    · exact (getActiveOtadata_eq_some_iff.mp hact).1
    · have hv := (getActiveOtadata_eq_some_iff.mp hact).1
      rw [readTwo_resetMem] at hv
      exact valid_of_resetRecords hv
  exact espOtaGetStatePartition_eq ht hov (Nat.mod_lt _ ht.pos) hp (stateOfSlot_of_valid h hvalid)

/-! ### One step -/

lemma call_otadata (w : World) (f : OtaM Unit) :
    (w.call f).otadata = w.otadata ∨
      (∃ r, w.running = some r) ∧ (w.call f).otadata = (f w.otadata).2 := by
  rw [World.call]
  split
  · next h => exact .inr ⟨Option.isSome_iff_exists.mp h, rfl⟩
  · exact .inl rfl

/-- The records are numbered and the second one is not used where the first is reported. -/
def RecordsOk (n : ℕ) (m : Mem) : Prop := Numbered m ∧ SecondUnused n m

lemma recordsOk_step (ht : Slots dev.table n) {w : World} {op : Op}
    (h : RecordsOk n w.otadata) (hcare : op.Careful n w) :
    RecordsOk n (w.step dev op).otadata := by
  obtain ⟨hnum, hsec⟩ := h
  cases op with
  | boot loads => exact ⟨numbered_boot hnum loads, secondUnused_boot hsec loads⟩
  | setBoot verify p =>
    rcases call_otadata w (espOtaSetBootPartition dev verify p) with heq | ⟨-, heq⟩
    · rw [World.step, heq]
      exact ⟨hnum, hsec⟩
    · rw [World.step, heq]
      exact ⟨numbered_setBoot ht hnum verify p, secondUnused_setBoot ht hnum hsec hcare⟩
  | markValid verify =>
    rcases call_otadata w (espOtaMarkAppValidCancelRollback dev verify) with heq | ⟨-, heq⟩
    · rw [World.step, heq]
      exact ⟨hnum, hsec⟩
    · rw [World.step, heq]
      exact ⟨numbered_isWorkable ht hnum verify true, secondUnused_isWorkable ht hsec verify true⟩
  | markInvalid verify =>
    rcases call_otadata w (espOtaMarkAppInvalidRollbackAndReboot dev verify) with heq | ⟨-, heq⟩
    · rw [World.step, heq]
      exact ⟨hnum, hsec⟩
    · rw [World.step, heq]
      exact ⟨numbered_isWorkable ht hnum verify false,
        secondUnused_isWorkable ht hsec verify false⟩

/-- A boot changes no record that has been written to valid or invalid. -/
lemma state_boot (dev : Device) {i : Fin 2} (hseq : (readTwo m i).otaSeq ≠ seqErased)
    (hcrc : (readTwo m i).crc = otaSelectCrc (readTwo m i)) (loads : PartitionPos → Bool) :
    (readTwo (boot dev loads m).otadata i).otaState = (readTwo m i).otaState ∨
      (readTwo (boot dev loads m).otadata i).otaState = imgAborted ∨
      (readTwo (boot dev loads m).otadata i).otaState = imgPendingVerify := by
  rcases boot_cases (m := m) dev loads with hk | ⟨hinit, -⟩
  · rcases (hk i).2.2 with he | he | ⟨-, he⟩
    · exact .inl he
    · exact .inr (.inl he)
    · exact .inr (.inr he)
  · exact ((hinit i).elim hseq fun hne => hne hcrc).elim

/-- A selection writes new records only. -/
lemma state_setBoot (ht : Slots table n) (verify : Partition → Bool) (p : Option Partition)
    (i : Fin 2) :
    (readTwo (espOtaSetBootPartition ⟨table, true⟩ verify p m).2 i).otaState =
        (readTwo m i).otaState ∨
      (readTwo (espOtaSetBootPartition ⟨table, true⟩ verify p m).2 i).otaState = imgUndefined ∨
      (readTwo (espOtaSetBootPartition ⟨table, true⟩ verify p m).2 i).otaState = imgNew := by
  -- a record that is stored with the state of a new image
  have hstore : ∀ j seq, (readTwo (storeEntry m j (((readTwo m j).withState imgNew).withSeq seq))
      i).otaState = (readTwo m i).otaState ∨ (readTwo (storeEntry m j
        (((readTwo m j).withState imgNew).withSeq seq)) i).otaState = imgNew := by
    intro j seq
    rw [readTwo_storeEntry]
    by_cases hij : i = j
    · subst hij
      rw [Function.update_self]
      exact .inr rfl
    · rw [Function.update_of_ne hij]
      exact .inl rfl
  rcases setBoot_cases (m := m) ⟨table, true⟩ ht verify p with heq |
    ⟨size, hsize, heq⟩ | ⟨q, -, -, -, -, -, heq⟩
  · rw [heq]
    exact .inl rfl
  · have hsec : secSize = 4096 := rfl
    have hi := i.isLt
    have hff : ∀ k < 4, m.erase 0 size (secSize * i + 24 + k) = 0xff#8 := fun k hk =>
      Mem.erase_of_mem (by rw [hsec] at hsize ⊢; omega)
    right
    left
    rw [heq]
    exact word_of_erased hff
  · rw [selectSlot] at heq
    cases hact : getActiveOtadata (readTwo m) with
    | none =>
      rw [hact] at heq
      rw [← Option.some.inj heq]
      exact (hstore _ _).imp id .inr
    | some a =>
      simp only [hact, Option.map_eq_some_iff] at heq
      obtain ⟨v, -, heq⟩ := heq
      rw [← heq]
      exact (hstore _ _).imp id .inr

/-- A call that confirms or rejects changes the active record only. -/
lemma state_isWorkable (dev : Device) (ht : Slots dev.table n) (verify : Partition → Bool) (valid : Bool)
    {i : Fin 2} (hne : (readTwo (espOtaCurrentOtaIsWorkable dev verify valid m).2 i).otaState ≠
      (readTwo m i).otaState) :
    getActiveOtadata (readTwo m) = some i ∧
      (valid = true → (readTwo m i).otaState ≠ imgValid) := by
  rcases isWorkable_cases (m := m) ht verify valid with heq | ⟨a, hact, hstate, heq⟩
  · rw [heq] at hne
    exact absurd rfl hne
  · by_cases hi : i = a
    · subst hi
      exact ⟨hact, hstate⟩
    · rw [heq, readTwo_storeEntry, Function.update_of_ne hi] at hne
      exact absurd rfl hne

lemma confirmedByItself_step (ht : Slots table n) {w : World} {op : Op}
    (hcare : op.Careful n w) : ConfirmedByItself ⟨table, true⟩ n w op := by
  rintro i hseq hcrc state hstate hne hmark
  have h1 : imgAborted ≠ imgValid ∧ imgAborted ≠ imgInvalid := by decide
  have h2 : imgPendingVerify ≠ imgValid ∧ imgPendingVerify ≠ imgInvalid := by decide
  have h3 : imgNew ≠ imgValid ∧ imgNew ≠ imgInvalid := by decide
  have h4 : imgUndefined ≠ imgValid ∧ imgUndefined ≠ imgInvalid := by decide
  cases op with
  | boot loads =>
    have := state_boot ⟨table, true⟩ hseq hcrc loads
    change (readTwo (boot ⟨table, true⟩ loads w.otadata).otadata i).otaState = state at hstate
    grind
  | setBoot verify p =>
    rcases call_otadata w (espOtaSetBootPartition ⟨table, true⟩ verify p) with heq | ⟨-, heq⟩
    · rw [World.step, heq] at hstate
      exact absurd hstate.symm hne
    · rw [World.step, heq] at hstate
      have := state_setBoot (m := w.otadata) ht verify p i
      grind
  | markValid verify =>
    rcases call_otadata w (espOtaMarkAppValidCancelRollback ⟨table, true⟩ verify) with heq |
      ⟨⟨r, hr⟩, heq⟩
    · rw [World.step, heq] at hstate
      exact absurd hstate.symm hne
    · rw [World.step, heq] at hstate
      obtain ⟨hact, hval⟩ := state_isWorkable ⟨table, true⟩ ht verify true
        (by rw [← hstate] at hne; exact hne)
      refine ⟨rfl, ?_⟩
      rw [hr, (hcare r i hr hact).resolve_right (hval rfl)]
  | markInvalid verify =>
    rcases call_otadata w (espOtaMarkAppInvalidRollbackAndReboot ⟨table, true⟩ verify) with heq |
      ⟨⟨r, hr⟩, heq⟩
    · rw [World.step, heq] at hstate
      exact absurd hstate.symm hne
    · rw [World.step, heq] at hstate
      obtain ⟨hact, -⟩ := state_isWorkable ⟨table, true⟩ ht verify false
        (by rw [← hstate] at hne; exact hne)
      exact ⟨rfl, by rw [hr, hcare r i hr hact]⟩

/-! ### Whole runs -/

lemma alwaysByItself_of_recordsOk (ht : Slots table n) (hov : ¬ OverrunsCount table n)
    {ops : List Op} : ∀ {w : World}, RecordsOk n w.otadata → CarefulRun ⟨table, true⟩ n w ops →
      AlwaysByItself ⟨table, true⟩ n w ops := by
  induction ops with
  | nil => exact fun h _ => reportsUsed_of_secondUnused ht hov h.2
  | cons op ops ih =>
    rintro w h ⟨hcare, hrest⟩
    exact ⟨reportsUsed_of_secondUnused ht hov h.2, confirmedByItself_step ht hcare,
      ih (recordsOk_step ht h hcare) hrest⟩

/-- In every run of boots and calls from erased records whose steps are careful, images are
confirmed by themselves only, and the reported states are those of the records in use. -/
theorem confirmed_by_itself (ht : Slots table n) (hov : ¬ OverrunsCount table n)
    {ops : List Op} (hops : CarefulRun ⟨table, true⟩ n .blank ops) :
    AlwaysByItself ⟨table, true⟩ n .blank ops := by
  refine alwaysByItself_of_recordsOk ht hov ⟨numbered_of_erased fun _ _ => rfl, ?_⟩ hops
  apply secondUnused_of_invalid
  exact invalid_of_initial (.inl (by decide))

/-! ### Runs with two slots and a factory app -/

/-- The state after some boots and calls. -/
def World.after (dev : Device) (w : World) (ops : List Op) : World := ops.foldl (World.step dev) w

/-- Select slot `k` of two, which holds a valid image. -/
def selectOp (k : ℕ) : Op :=
  .setBoot (fun _ => true) (findFirst twoSlotTable typeApp (subtypeOtaMin + k))

/-- The factory app selects the first slot, whose image confirms itself. -/
def confirmedRun : List Op :=
  [.boot allLoad, selectOp 0, .boot allLoad, .markValid fun _ => true]

/-- The factory app selects the second slot, and confirms its image without a reset. -/
def confirmedByFactory : List Op := [.boot allLoad, selectOp 1]

/-- Both slots are selected and confirmed in turn; the second one selects itself again, and
its new record is aborted after two resets. -/
def selectedAgain : List Op :=
  confirmedRun ++ [selectOp 1, .boot allLoad, .markValid fun _ => true, selectOp 1,
    .boot allLoad, .boot allLoad]

theorem confirmed_run_by_itself : AlwaysByItself ⟨twoSlotTable, true⟩ 2 .blank confirmedRun := by
  refine confirmed_by_itself slots_twoSlotTable (by decide) ⟨trivial, ?_, trivial, ?_, trivial⟩
  · intro q _ _ _ _ _ a ha
    have hnone : getActiveOtadata (readTwo (World.after ⟨twoSlotTable, true⟩ .blank
        [.boot allLoad]).otadata) = none := by decide +kernel
    exact absurd (ha.symm.trans hnone) (by simp)
  · intro r a hr ha
    have hrun : (World.after ⟨twoSlotTable, true⟩ .blank
        [.boot allLoad, selectOp 0, .boot allLoad]).running = some 0 := by decide +kernel
    have hact : getActiveOtadata (readTwo (World.after ⟨twoSlotTable, true⟩ .blank
        [.boot allLoad, selectOp 0, .boot allLoad]).otadata) = some 0 := by decide +kernel
    have hslot : slotOf 2 (readTwo (World.after ⟨twoSlotTable, true⟩ .blank
        [.boot allLoad, selectOp 0, .boot allLoad]).otadata 0) = 0 := by decide +kernel
    obtain rfl : r = 0 := Option.some.inj (hr.symm.trans hrun)
    obtain rfl : a = 0 := Option.some.inj (ha.symm.trans hact)
    left
    exact congrArg Nat.cast hslot.symm

/-- While the factory app is running the new image in the second slot becomes valid.  After a
slot has been selected twice the active record is the second one, and the state that is
reported is that of the first, aborted one. -/
theorem not_confirmed_by_itself :
    ¬ AlwaysByItself ⟨twoSlotTable, true⟩ 2 .blank
        (confirmedByFactory ++ [.markValid fun _ => true]) ∧
      (World.after ⟨twoSlotTable, true⟩ .blank confirmedByFactory).running = some factoryIndex ∧
      ¬ AlwaysByItself ⟨twoSlotTable, true⟩ 2 .blank selectedAgain := by
  have hrun : (World.after ⟨twoSlotTable, true⟩ .blank confirmedByFactory).running =
      some factoryIndex := by decide +kernel
  refine ⟨?_, hrun, ?_⟩
  · rintro ⟨-, -, -, -, -, hmark, -⟩
    have hby := hmark 0 (by decide +kernel) (by decide +kernel) imgValid (by decide +kernel)
      (by decide +kernel) (.inl rfl)
    have hslot := Option.some.inj (hrun.symm.trans hby.2)
    rw [factoryIndex] at hslot
    omega
  · rintro ⟨-, -, -, -, -, -, -, -, -, -, -, -, -, -, -, -, -, -, -, -, hlast⟩
    have hreport := hlast 1 (.inl (by decide +kernel)) ⟨0, 0x11, 0x210000, 0x100000⟩
      (by decide +kernel)
    have hstate : (espOtaGetStatePartition ⟨twoSlotTable, true⟩
        (some ⟨0, 0x11, 0x210000, 0x100000⟩)
        (World.after ⟨twoSlotTable, true⟩ .blank selectedAgain).otadata).1.toOption =
          some imgAborted := by decide +kernel
    have hsecond : (readTwo (World.after ⟨twoSlotTable, true⟩ .blank selectedAgain).otadata
        1).otaState = imgValid := by decide +kernel
    have hsame := (congrArg (fun r => r.1.toOption) hreport).symm.trans hstate
    rw [Except.toOption, Option.some.injEq] at hsame
    exact absurd (hsecond.symm.trans hsame) (by decide)

example : imgPendingVerify ≠ imgValid := by decide +kernel

end EspIdf.Ota
