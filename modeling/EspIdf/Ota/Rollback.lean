/-
# Rollback to the confirmed image

With the rollback option a newly selected image is booted once; if it is not confirmed before
the next reset, its record is aborted and the other record is active again.  That brings the
confirmed image back as long as its record is still there.  A selection writes over the
record that is not active, so one selection leaves the confirmed record alone; a second one
finds the new record active and writes over the confirmed one.
-/
import EspIdf.Ota.Selection

namespace EspIdf.Ota

open EspIdf.Lib

variable {table : List Partition} {n : ℕ} {dev : Device} {m : Mem}

/-! ### Confirmed images -/

/-- The index of slot `r`, or of the factory app. -/
def appIndex : Option ℕ → ℤ
  | some r => r
  | none => factoryIndex

/-- The image in slot `r`, or the factory app, is selected and does not wait for its
confirmation. -/
def Confirmed (table : List Partition) (n : ℕ) : Option ℕ → Mem → Prop
  | some r, m => ∃ a, getActiveOtadata (readTwo m) = some a ∧
      u32Sub (readTwo m a).otaSeq.toNat 1 % n = r ∧
      (readTwo m a).otaState ≠ imgNew ∧ (readTwo m a).otaState ≠ imgPendingVerify
  | none, m => (findFirst table typeApp subtypeFactory).isSome ∧
      getActiveOtadata (readTwo m) = none

/-- All images load. -/
def allLoad : PartitionPos → Bool := fun _ => true

/-- The otadata partition after calls that select the slots `calls`, all of which hold valid
images. -/
def afterCalls (dev : Device) (calls : List ℕ) (m : Mem) : Mem :=
  calls.foldl (fun m k => (espOtaSetBootPartition dev (fun _ => true)
    (findFirst dev.table typeApp (subtypeOtaMin + k)) m).2) m

/-- The otadata partition after `j` resets. -/
def rebooted (dev : Device) : ℕ → Mem → Mem
  | 0, m => m
  | j + 1, m => (boot dev allLoad (rebooted dev j m)).otadata

/-- After the selections and the first reset every further reset starts the image `r`. -/
def RollsBack (dev : Device) (r : Option ℕ) (calls : List ℕ) (m : Mem) : Prop :=
  ∀ j, 1 ≤ j →
    (boot dev allLoad (rebooted dev j (afterCalls dev calls m))).started = some (appIndex r)

/-! ### Booting from an active record -/

/-- When all images load the first partition that is tried is started. -/
lemma loadBootImage_all {bs : BootloaderState} {start index : ℤ} (initial : Bool)
    (hhead : (triedIndices bs start).head? = some index) :
    loadBootImage bs allLoad ⟨start, initial, m⟩ =
      ⟨some index, setActualOtaSeq m initial index⟩ := by
  have hfind : (triedIndices bs start).find?
      (fun index => allLoad (indexToPartition bs index)) = some index := by
    cases h : triedIndices bs start with
    | nil => simp [h] at hhead
    | cons i rest =>
      rw [h, List.head?_cons, Option.some.injEq] at hhead
      subst hhead
      rfl
  rw [loadBootImage, hfind]

lemma setActualOtaSeq_false {index : ℤ} : setActualOtaSeq m false index = m := by
  rw [setActualOtaSeq, if_neg (by simp)]

/-- The record that is active after a reset is booted. -/
lemma boot_active (ht : Slots table n) {a : Fin 2}
    (hact : getActiveOtadata (readTwo (resetMem true m)) = some a) :
    boot ⟨table, true⟩ allLoad m =
      ⟨some ((u32Sub (readTwo (resetMem true m) a).otaSeq.toNat 1 % n : ℕ) : ℤ),
        monitorFirstBoot (resetMem true m) a⟩ := by
  have hk : u32Sub (readTwo (resetMem true m) a).otaSeq.toNat 1 % n < n := Nat.mod_lt _ ht.pos
  have hne : ((u32Sub (readTwo (resetMem true m) a).otaSeq.toNat 1 % n : ℕ) : ℤ) ≠
      invalidIndex := by
    rw [invalidIndex]
    omega
  simp only [boot, getSelectedBootPartition_eq ht, selectIndex_active ht hact, if_true]
  rw [if_neg hne, loadBootImage_all false (tried_slot ht hk), setActualOtaSeq_false]

/-- Without an active record the factory app is booted. -/
lemma boot_factory (ht : Slots table n)
    (hact : getActiveOtadata (readTwo (resetMem true m)) = none)
    (hf : (findFirst table typeApp subtypeFactory).isSome) :
    boot ⟨table, true⟩ allLoad m = ⟨some factoryIndex, resetMem true m⟩ := by
  obtain ⟨p, hp⟩ := Option.isSome_iff_exists.mp hf
  have hoff : (loadPartitionTable table).factory.offset ≠ 0 := by
    rw [factory_load ht, hp]
    exact (ht.placed p (mem_of_findFirst hp).1).1
  have hsel : selectIndex true (loadPartitionTable table) (resetMem true m) =
      ⟨factoryIndex, false, resetMem true m⟩ := by
    simp only [selectIndex, hact]
    rw [if_pos hoff]
    split <;> rfl
  simp only [boot, getSelectedBootPartition_eq ht, hsel]
  rw [if_neg (by decide), loadBootImage_all false (tried_factory ht hp).1, setActualOtaSeq_false]

/-! ### A confirmed image stays -/

/-- A reset makes no record active that was not. -/
lemma getActiveOtadata_reset_none (h : getActiveOtadata (readTwo m) = none) :
    getActiveOtadata (readTwo (resetMem true m)) = none := by
  rw [getActiveOtadata_eq_none_iff, readTwo_resetMem]
  intro i
  rw [Bool.eq_false_iff]
  intro hv
  have := getActiveOtadata_eq_none_iff.mp h i
  rw [valid_of_resetRecords hv] at this
  exact absurd this (by decide)

/-- A reset keeps the active record unless it waits for its confirmation. -/
lemma getActiveOtadata_reset_some {a : Fin 2} (h : getActiveOtadata (readTwo m) = some a)
    (hpend : (readTwo m a).otaState ≠ imgPendingVerify) :
    readTwo (resetMem true m) a = readTwo m a ∧
      getActiveOtadata (readTwo (resetMem true m)) = some a := by
  have hrec := readTwo_resetMem (m := m) true
  have ha : readTwo (resetMem true m) a = readTwo m a := by rw [hrec, resetRecords_of_ne hpend]
  have hiff := getActiveOtadata_eq_some_iff.mp h
  refine ⟨ha, getActiveOtadata_eq_some_iff.mpr ⟨by rw [ha]; exact hiff.1, ?_⟩⟩
  intro hv
  rw [ha, hrec, resetRecords_otaSeq]
  rw [hrec] at hv
  exact hiff.2 (valid_of_resetRecords hv)

/-- A reset keeps a confirmed image selected. -/
lemma Confirmed.reset {r : Option ℕ} (h : Confirmed table n r m) :
    Confirmed table n r (resetMem true m) := by
  cases r with
  | none => exact ⟨h.1, getActiveOtadata_reset_none h.2⟩
  | some r =>
    obtain ⟨a, hact, hslot, hnew, hpend⟩ := h
    obtain ⟨ha, hact'⟩ := getActiveOtadata_reset_some hact hpend
    exact ⟨a, hact', by rw [ha]; exact hslot, by rw [ha]; exact hnew, by rw [ha]; exact hpend⟩

/-- From a state that is confirmed after the reset, the confirmed image is booted and stays
confirmed. -/
lemma boot_confirmed (ht : Slots table n) {r : Option ℕ}
    (h : Confirmed table n r (resetMem true m)) :
    boot ⟨table, true⟩ allLoad m = ⟨some (appIndex r), resetMem true m⟩ := by
  cases r with
  | none => exact boot_factory ht h.2 h.1
  | some r =>
    obtain ⟨a, hact, hslot, hnew, -⟩ := h
    rw [boot_active ht hact, hslot, monitorFirstBoot, if_neg hnew]
    rfl

/-- From a state that is confirmed after the reset, every reset boots the confirmed image. -/
lemma rebooted_confirmed (ht : Slots table n) {r : Option ℕ} :
    ∀ j, ∀ m, Confirmed table n r (resetMem true m) →
      Confirmed table n r (resetMem true (rebooted ⟨table, true⟩ j m)) := by
  intro j
  induction j with
  | zero => exact fun m h => h
  | succ j ih =>
    intro m h
    rw [rebooted, boot_confirmed ht (ih m h)]
    exact (ih m h).reset

lemma rebooted_succ (dev : Device) (j : ℕ) (m : Mem) :
    rebooted dev (j + 1) m = rebooted dev j (boot dev allLoad m).otadata := by
  induction j with
  | zero => rfl
  | succ j ih => rw [rebooted, ih]; rfl

/-! ### One selection -/

lemma resetRecords_resetRecords (two : Fin 2 → SelectEntry) :
    resetRecords true (resetRecords true two) = resetRecords true two := by
  funext i
  by_cases h : (two i).otaState = imgPendingVerify
  · apply resetRecords_of_ne
    simp only [resetRecords, if_true, SelectEntry.aborted, if_pos h]
    exact (by decide : imgAborted ≠ imgPendingVerify)
  · rw [resetRecords_of_ne (by rw [resetRecords_of_ne h]; exact h)]

/-- A new record that has been booted once is not valid after the next reset, and the other
record is what it was. -/
lemma records_after_trial (ht : Slots table n) {i : Fin 2}
    (hact : getActiveOtadata (readTwo (resetMem true m)) = some i)
    (hnew : (readTwo (resetMem true m) i).otaState = imgNew) :
    otaSelectValid (readTwo (resetMem true (boot ⟨table, true⟩ allLoad m).otadata) i) = false ∧
      readTwo (resetMem true (boot ⟨table, true⟩ allLoad m).otadata) (otherRecord i) =
        readTwo (resetMem true m) (otherRecord i) := by
  rw [boot_active ht hact]
  simp only [monitorFirstBoot, if_pos hnew]
  rw [readTwo_resetMem, readTwo_storeEntry]
  constructor
  · rw [Bool.eq_false_iff]
    intro hv
    simp only [resetRecords, if_true, Function.update_self, SelectEntry.aborted] at hv
    exact absurd rfl (valid_withState_iff.mp hv).2.2.1
  · have hidem := congrFun (resetRecords_resetRecords (readTwo m)) (otherRecord i)
    rw [← readTwo_resetMem] at hidem
    rw [← hidem]
    simp only [resetRecords, Function.update_of_ne otherRecord_ne]

/-- Whether an image is confirmed depends on the valid record only. -/
lemma Confirmed.of_records {r : Option ℕ} {m' : Mem} {i : Fin 2} (h : Confirmed table n r m)
    (hi : ∀ r', r = some r' → getActiveOtadata (readTwo m) = some (otherRecord i))
    (hinv : otaSelectValid (readTwo m' i) = false)
    (hother : readTwo m' (otherRecord i) = readTwo m (otherRecord i)) :
    Confirmed table n r m' := by
  cases r with
  | none =>
    refine ⟨h.1, getActiveOtadata_eq_none_iff.mpr fun j => ?_⟩
    by_cases hj : j = i
    · subst hj
      exact hinv
    · rw [eq_otherRecord_of_ne hj, hother]
      exact getActiveOtadata_eq_none_iff.mp h.2 _
  | some r =>
    obtain ⟨a, hact, hslot, hnew, hpend⟩ := h
    obtain rfl := Option.some.inj (hact.symm.trans (hi r rfl))
    refine ⟨_, getActiveOtadata_eq_some_iff.mpr ⟨?_, ?_⟩, by rw [hother]; exact hslot,
      by rw [hother]; exact hnew, by rw [hother]; exact hpend⟩
    · rw [hother]
      exact (getActiveOtadata_eq_some_iff.mp hact).1
    · intro hv
      rw [otherRecord_otherRecord, hinv] at hv
      exact absurd hv (by decide)

/-- A new record is stored beside a confirmed one: after the first boot and the reset that
follows, the confirmed image is selected again. -/
lemma confirmed_after_trial (ht : Slots table n) {r : Option ℕ} {i : Fin 2} {s : SelectEntry}
    (h : Confirmed table n r m)
    (hi : ∀ r', r = some r' → getActiveOtadata (readTwo m) = some (otherRecord i))
    (hs : s.otaState = imgNew) :
    Confirmed table n r
      (resetMem true (boot ⟨table, true⟩ allLoad (storeEntry m i s)).otadata) := by
  have hne : s.otaState ≠ imgPendingVerify := by rw [hs]; decide
  have hrec : readTwo (resetMem true (storeEntry m i s)) =
      resetRecords true (Function.update (readTwo m) i s) := by
    rw [readTwo_resetMem, readTwo_storeEntry]
  have hnew : readTwo (resetMem true (storeEntry m i s)) i = s := by
    rw [hrec, resetRecords_of_ne (by rw [Function.update_self]; exact hne), Function.update_self]
  have hother : readTwo (resetMem true (storeEntry m i s)) (otherRecord i) =
      readTwo (resetMem true m) (otherRecord i) := by
    rw [hrec, readTwo_resetMem]
    simp only [resetRecords, Function.update_of_ne otherRecord_ne]
  have hactive : ∀ r', r = some r' →
      getActiveOtadata (readTwo (resetMem true m)) = some (otherRecord i) := by
    rintro r' rfl
    obtain ⟨a, hact, -, -, hpend⟩ := h
    obtain rfl := Option.some.inj (hact.symm.trans (hi r' rfl))
    exact (getActiveOtadata_reset_some hact hpend).2
  by_cases hact : getActiveOtadata (readTwo (resetMem true (storeEntry m i s))) = some i
  · -- the new image is tried, and its record aborted
    have htrial := records_after_trial ht hact (by rw [hnew]; exact hs)
    exact h.reset.of_records hactive htrial.1 (htrial.2.trans hother)
  · -- the new record is not selected
    have hconf : Confirmed table n r (resetMem true (storeEntry m i s)) := by
      have hreset := h.reset
      cases hcase : getActiveOtadata (readTwo (resetMem true (storeEntry m i s))) with
      | none =>
        have hinv := getActiveOtadata_eq_none_iff.mp hcase (otherRecord i)
        cases r with
        | none => exact ⟨h.1, hcase⟩
        | some r =>
          rw [hother, (getActiveOtadata_eq_some_iff.mp (hactive r rfl)).1] at hinv
          exact absurd hinv (by decide)
      | some a =>
        obtain rfl : a = otherRecord i := by
          apply eq_otherRecord_of_ne
          rintro rfl
          exact hact hcase
        cases r with
        | none =>
          have hvalid := (getActiveOtadata_eq_some_iff.mp hcase).1
          rw [hother, getActiveOtadata_eq_none_iff.mp hreset.2] at hvalid
          exact absurd hvalid (by decide)
        | some r =>
          obtain ⟨a, hact', hslot, hnew', hpend⟩ := hreset
          obtain rfl := Option.some.inj (hact'.symm.trans (hactive r rfl))
          exact ⟨_, hcase, by rw [hother]; exact hslot, by rw [hother]; exact hnew',
            by rw [hother]; exact hpend⟩
    rw [boot_confirmed ht hconf]
    exact hconf.reset

/-- One call of `esp_ota_set_boot_partition`, for a slot. -/
def selectCall (dev : Device) (k : ℕ) (m : Mem) : Mem :=
  (espOtaSetBootPartition dev (fun _ => true)
    (findFirst dev.table typeApp (subtypeOtaMin + k)) m).2

/-- A call for a slot writes one new record, beside the active one, or changes nothing. -/
lemma selectCall_cases (ht : Slots table n) {k : ℕ} (hk : k < n) :
    selectCall ⟨table, true⟩ k m = m ∨
      ∃ i s, selectCall ⟨table, true⟩ k m = storeEntry m i s ∧ s.otaState = imgNew ∧
        ∀ a, getActiveOtadata (readTwo m) = some a → a = otherRecord i := by
  have hle := ht.le
  obtain ⟨p, hp, -⟩ := exists_slot ht hk
  rw [selectCall, hp, espOtaSetBootPartition_slot hp (by omega) rfl]
  by_cases hov : OverrunsCount table n
  · left
    obtain ⟨part, hread, -, -⟩ := readOtadata_eq (m := m) ⟨table, true⟩ ht
    have hcount := getOtaPartitionCount_eq ht ⟨table, true⟩ rfl m
    rw [if_pos hov] at hcount
    rw [espRewriteOtaData, Prog.bind_ok hread]
    simp only
    rw [Prog.bind_error hcount]
  · rw [espRewriteOtaData_eq ⟨table, true⟩ ht hov hk, selectSlot]
    cases hact : getActiveOtadata (readTwo m) with
    | none => exact .inr ⟨0, _, rfl, rfl, fun a ha => by simp at ha⟩
    | some active =>
      simp only
      cases searchSeq (readTwo m active).otaSeq.toNat k n (2 ^ 32) 0 with
      | none => exact .inl rfl
      | some seq =>
        simp only [Option.map_some]
        refine .inr ⟨otherRecord active, _, rfl, rfl, ?_⟩
        rintro a ha
        rw [otherRecord_otherRecord]
        exact (Option.some.inj ha).symm

/-- With at most one selection the confirmed image comes back. -/
lemma rollsBack_of_single (ht : Slots table n) {r : Option ℕ} (h : Confirmed table n r m)
    {calls : List ℕ} (hcalls : ∀ k ∈ calls, k < n) (hone : calls.length ≤ 1) :
    RollsBack ⟨table, true⟩ r calls m := by
  have hfirst : Confirmed table n r
      (resetMem true (boot ⟨table, true⟩ allLoad (afterCalls ⟨table, true⟩ calls m)).otadata) := by
    match calls, hone with
    | [], _ =>
      change Confirmed table n r (resetMem true (boot ⟨table, true⟩ allLoad m).otadata)
      rw [boot_confirmed ht h.reset]
      exact h.reset.reset
    | [k], _ =>
      change Confirmed table n r
        (resetMem true (boot ⟨table, true⟩ allLoad (selectCall ⟨table, true⟩ k m)).otadata)
      obtain heq | ⟨i, s, heq, hs, hi⟩ := selectCall_cases (m := m) ht (hcalls k (by simp))
      · rw [heq, boot_confirmed ht h.reset]
        exact h.reset.reset
      · rw [heq]
        refine confirmed_after_trial ht h ?_ hs
        rintro r' rfl
        obtain ⟨a, hact, -⟩ := h
        rw [hact, hi a hact]
  intro j hj
  obtain ⟨j, rfl⟩ := Nat.exists_eq_add_of_le' hj
  rw [rebooted_succ, boot_confirmed ht (rebooted_confirmed ht j _ hfirst)]

/-! ### Further selections -/

/-- The valid records have numbers from `1` to `bound`. -/
def NumberedUpTo (bound : ℕ) (m : Mem) : Prop :=
  ∀ i, otaSelectValid (readTwo m i) = true →
    1 ≤ (readTwo m i).otaSeq.toNat ∧ (readTwo m i).otaSeq.toNat ≤ bound

/-- A record of a new image in slot `k`. -/
def NewRecord (n k : ℕ) (s : SelectEntry) : Prop :=
  otaSelectValid s = true ∧ s.otaState = imgNew ∧ u32Sub s.otaSeq.toNat 1 % n = k

/-- A call for a slot writes a new record of this slot beside the active one, with a number
that is not smaller. -/
lemma selectCall_eq (ht : Slots table n) (hov : ¬ OverrunsCount table n) {k bound : ℕ}
    (hk : k < n) (hm : NumberedUpTo bound m) (hb : bound < 2 ^ 32 - 64) :
    ∃ i s, selectCall ⟨table, true⟩ k m = storeEntry m i s ∧ NewRecord n k s ∧
      1 ≤ s.otaSeq.toNat ∧ s.otaSeq.toNat ≤ bound + 16 ∧
      ∀ a, getActiveOtadata (readTwo m) = some a →
        a = otherRecord i ∧ (readTwo m a).otaSeq.toNat ≤ s.otaSeq.toNat := by
  have hle := ht.le
  obtain ⟨p, hp, -⟩ := exists_slot ht hk
  rw [selectCall, hp, espOtaSetBootPartition_slot hp (by omega) rfl,
    espRewriteOtaData_eq ⟨table, true⟩ ht hov hk, selectSlot]
  have hnew : ∀ (s : SelectEntry) (v : ℕ), 1 ≤ v → v < 2 ^ 32 - 1 → v % n = (k + 1) % n →
      NewRecord n k ((s.withState imgNew).withSeq (BitVec.ofNat 32 v)) ∧
        (BitVec.ofNat 32 v).toNat = v := by
    intro s v h1 hlt hmod
    have hnat : (BitVec.ofNat 32 v).toNat = v := by
      rw [BitVec.toNat_ofNat, Nat.mod_eq_of_lt (by omega)]
    have hne : BitVec.ofNat 32 v ≠ seqErased := by
      intro h
      rw [h] at hnat
      simp [seqErased] at hnat
      omega
    refine ⟨⟨valid_withSeq hne (by decide) (by decide), rfl, ?_⟩, hnat⟩
    change u32Sub (BitVec.ofNat 32 v).toNat 1 % n = k
    rw [hnat, slot_of_number hk h1 (by omega) hmod]
  cases hact : getActiveOtadata (readTwo m) with
  | none =>
    obtain ⟨hrec, hnat⟩ := hnew (readTwo m 0) (k + 1) (by omega) (by omega) rfl
    refine ⟨0, _, rfl, hrec, ?_, ?_, fun a ha => by simp at ha⟩
    · exact hnat.symm ▸ (by omega : 1 ≤ k + 1)
    · exact hnat.symm ▸ (by omega : k + 1 ≤ bound + 16)
  | some active =>
    obtain ⟨h1, h2⟩ := hm active (getActiveOtadata_eq_some_iff.mp hact).1
    obtain ⟨v, hfind, hge, hlt, hmod⟩ := searchSeq_found k ht.pos h1 (by omega)
    obtain ⟨hrec, hnat⟩ := hnew (readTwo m (otherRecord active)) v (by omega) (by omega) hmod
    simp only [hfind, Option.map_some]
    refine ⟨otherRecord active, _, rfl, hrec, ?_, ?_, ?_⟩
    · exact hnat.symm ▸ (by omega : 1 ≤ v)
    · exact hnat.symm ▸ (by omega : v ≤ bound + 16)
    · rintro a ha
      obtain rfl := Option.some.inj ha
      rw [otherRecord_otherRecord]
      exact ⟨rfl, hnat.symm ▸ hge⟩

lemma NumberedUpTo.store {bound : ℕ} (h : NumberedUpTo bound m) {i : Fin 2} {s : SelectEntry}
    (h1 : 1 ≤ s.otaSeq.toNat) (h2 : s.otaSeq.toNat ≤ bound + 16) :
    NumberedUpTo (bound + 16) (storeEntry m i s) := by
  intro j hj
  rw [readTwo_storeEntry] at hj ⊢
  by_cases hij : j = i
  · subst hij
    rw [Function.update_self]
    exact ⟨h1, h2⟩
  · rw [Function.update_of_ne hij] at hj ⊢
    have := h j hj
    omega

/-- Both records are of new images, in slots of `calls`. -/
def BothNew (n : ℕ) (calls : List ℕ) (m : Mem) : Prop :=
  ∀ i, ∃ k ∈ calls, NewRecord n k (readTwo m i)

/-- The active record is of a new image, in a slot of `calls`. -/
def ActiveNew (n : ℕ) (calls : List ℕ) (m : Mem) : Prop :=
  ∃ a, getActiveOtadata (readTwo m) = some a ∧ ∃ k ∈ calls, NewRecord n k (readTwo m a)

/-- The first selection makes the new record the active one. -/
lemma activeNew_of_confirmed {r : Option ℕ} (h : Confirmed table n r m) {k : ℕ} (hne : some k ≠ r)
    {i : Fin 2} {s : SelectEntry} (hs : NewRecord n k s)
    (hi : ∀ a, getActiveOtadata (readTwo m) = some a →
      a = otherRecord i ∧ (readTwo m a).otaSeq.toNat ≤ s.otaSeq.toNat) :
    ActiveNew n [k] (storeEntry m i s) := by
  have hrec := readTwo_storeEntry (m := m) (i := i) (s := s)
  have hself : readTwo (storeEntry m i s) i = s := by rw [hrec, Function.update_self]
  have hother : readTwo (storeEntry m i s) (otherRecord i) = readTwo m (otherRecord i) := by
    rw [hrec, Function.update_of_ne otherRecord_ne]
  refine ⟨i, getActiveOtadata_eq_some_iff.mpr ⟨by rw [hself]; exact hs.1, ?_⟩, k, by simp,
    by rw [hself]; exact hs⟩
  intro hv
  rw [hself, hother]
  rw [hother] at hv
  cases r with
  | none =>
    rw [getActiveOtadata_eq_none_iff.mp h.2] at hv
    exact absurd hv (by decide)
  | some r =>
    obtain ⟨a, hact, hslot, -⟩ := h
    obtain ⟨rfl, hle⟩ := hi a hact
    left
    -- equal numbers would stand for the same slot
    refine Nat.lt_of_le_of_ne hle fun heq => hne ?_
    rw [← hs.2.2, ← heq, hslot]

/-- Every further selection writes over a record that is not of a new image, if there is
one. -/
lemma bothNew_of_activeNew {calls : List ℕ} (h : ActiveNew n calls m) {k : ℕ} {i : Fin 2}
    {s : SelectEntry} (hs : NewRecord n k s)
    (hi : ∀ a, getActiveOtadata (readTwo m) = some a → a = otherRecord i) :
    BothNew n (k :: calls) (storeEntry m i s) := by
  obtain ⟨a, hact, k', hk', hrec⟩ := h
  intro j
  rw [readTwo_storeEntry]
  by_cases hij : j = i
  · subst hij
    rw [Function.update_self]
    exact ⟨k, by simp, hs⟩
  · rw [Function.update_of_ne hij, eq_otherRecord_of_ne hij, ← hi a hact]
    exact ⟨k', List.mem_cons_of_mem _ hk', hrec⟩

lemma BothNew.activeNew {calls : List ℕ} (h : BothNew n calls m) : ActiveNew n calls m := by
  cases hact : getActiveOtadata (readTwo m) with
  | none =>
    obtain ⟨k, -, hrec⟩ := h 0
    have := getActiveOtadata_eq_none_iff.mp hact 0
    rw [hrec.1] at this
    exact absurd this (by decide)
  | some a =>
    obtain ⟨k, hk, hrec⟩ := h a
    exact ⟨a, hact, k, hk, hrec⟩

/-- From an active new record on, all further selections end with two new records. -/
lemma bothNew_afterCalls (ht : Slots table n) (hov : ¬ OverrunsCount table n) :
    ∀ (calls done : List ℕ) (m : Mem) (bound : ℕ), calls ≠ [] → (∀ k ∈ calls, k < n) →
      ActiveNew n done m → NumberedUpTo bound m → bound + 16 * calls.length < 2 ^ 32 - 64 →
      ∃ all, (∀ k ∈ all, k ∈ calls ∨ k ∈ done) ∧
        BothNew n all (afterCalls ⟨table, true⟩ calls m) := by
  intro calls
  induction calls with
  | nil => exact fun _ _ _ h => absurd rfl h
  | cons k rest ih =>
    intro done m bound _ hcalls hactive hm hb
    rw [List.length_cons] at hb
    obtain ⟨i, s, heq, hs, h1, h2, hi⟩ :=
      selectCall_eq ht hov (hcalls k (by simp)) hm (by omega)
    have hboth : BothNew n (k :: done) (selectCall ⟨table, true⟩ k m) := by
      rw [heq]
      exact bothNew_of_activeNew hactive hs fun a ha => (hi a ha).1
    have hnum : NumberedUpTo (bound + 16) (selectCall ⟨table, true⟩ k m) := by
      rw [heq]
      exact hm.store h1 h2
    change ∃ all, _ ∧ BothNew n all (afterCalls ⟨table, true⟩ rest (selectCall ⟨table, true⟩ k m))
    by_cases hrest : rest = []
    · subst hrest
      refine ⟨k :: done, fun j hj => ?_, hboth⟩
      rcases List.mem_cons.mp hj with rfl | hj
      · exact .inl (by simp)
      · exact .inr hj
    · obtain ⟨all, hall, hres⟩ := ih (k :: done) _ (bound + 16) hrest
        (fun j hj => hcalls j (List.mem_cons_of_mem _ hj)) hboth.activeNew hnum (by omega)
      refine ⟨all, fun j hj => ?_, hres⟩
      rcases hall j hj with hj | hj
      · exact .inl (List.mem_cons_of_mem _ hj)
      · rcases List.mem_cons.mp hj with rfl | hj
        · exact .inl (by simp)
        · exact .inr hj

/-- With two new records the second boot starts the other new image. -/
lemma second_boot_of_bothNew (ht : Slots table n) {calls : List ℕ} (h : BothNew n calls m) :
    ∃ k ∈ calls, (boot ⟨table, true⟩ allLoad
      (boot ⟨table, true⟩ allLoad m).otadata).started = some (k : ℤ) := by
  obtain ⟨a, hact, k, hk, hrec⟩ := h.activeNew
  have hpend : ∀ i, (readTwo m i).otaState ≠ imgPendingVerify := by
    intro i
    obtain ⟨k, -, hnew⟩ := h i
    rw [hnew.2.1]
    decide
  obtain ⟨ha, hact'⟩ := getActiveOtadata_reset_some hact (hpend a)
  obtain ⟨hinv, hother⟩ := records_after_trial ht hact' (by rw [ha]; exact hrec.2.1)
  obtain ⟨k', hk', hrec'⟩ := h (otherRecord a)
  have hsame : readTwo (resetMem true (boot ⟨table, true⟩ allLoad m).otadata) (otherRecord a) =
      readTwo m (otherRecord a) := by
    rw [hother, readTwo_resetMem, resetRecords_of_ne (hpend _)]
  have hsecond : getActiveOtadata (readTwo (resetMem true
      (boot ⟨table, true⟩ allLoad m).otadata)) = some (otherRecord a) := by
    refine getActiveOtadata_eq_some_iff.mpr ⟨by rw [hsame]; exact hrec'.1, fun hv => ?_⟩
    rw [otherRecord_otherRecord, hinv] at hv
    exact absurd hv (by decide)
  refine ⟨k', hk', ?_⟩
  rw [boot_active ht hsecond, hsame, hrec'.2.2]

/-- With two selections or more the confirmed image does not come back. -/
lemma not_rollsBack_of_several (ht : Slots table n) (hov : ¬ OverrunsCount table n)
    {r : Option ℕ} (h : Confirmed table n r m) {calls : List ℕ}
    (hcalls : ∀ k ∈ calls, k < n ∧ some k ≠ r) (hmany : 2 ≤ calls.length) {bound : ℕ}
    (hm : NumberedUpTo bound m) (hb : bound + 16 * calls.length < 2 ^ 32 - 64) :
    ¬ RollsBack ⟨table, true⟩ r calls m := by
  match calls, hmany with
  | k :: k₂ :: rest, _ =>
    rw [List.length_cons] at hb
    obtain ⟨i, s, heq, hs, h1, h2, hi⟩ :=
      selectCall_eq ht hov (hcalls k (by simp)).1 hm (by omega)
    have hactive : ActiveNew n [k] (selectCall ⟨table, true⟩ k m) := by
      rw [heq]
      exact activeNew_of_confirmed h (hcalls k (by simp)).2 hs hi
    have hnum : NumberedUpTo (bound + 16) (selectCall ⟨table, true⟩ k m) := by
      rw [heq]
      exact hm.store h1 h2
    obtain ⟨all, hall, hboth⟩ := bothNew_afterCalls ht hov (k₂ :: rest) [k] _ (bound + 16)
      (by simp) (fun j hj => (hcalls j (List.mem_cons_of_mem _ hj)).1) hactive hnum (by omega)
    obtain ⟨k', hk', hstart⟩ := second_boot_of_bothNew ht hboth
    intro hroll
    have hback := hroll 1 (Nat.le_refl 1)
    change (boot ⟨table, true⟩ allLoad (boot ⟨table, true⟩ allLoad
      (afterCalls ⟨table, true⟩ (k₂ :: rest) (selectCall ⟨table, true⟩ k m))).otadata).started =
        some (appIndex r) at hback
    rw [hstart, Option.some.injEq] at hback
    cases r with
    | none =>
      change (k' : ℤ) = -1 at hback
      omega
    | some r =>
      have hmem : k' ∈ k :: k₂ :: rest := by
        rcases hall k' hk' with hj | hj
        · exact List.mem_cons_of_mem _ hj
        · rw [List.mem_singleton.mp hj]
          simp
      refine (hcalls k' hmem).2 ?_
      change (k' : ℤ) = (r : ℤ) at hback
      rw [Nat.cast_injective hback]

/-- Starting from a confirmed image, the rollback leads back to it after at most one
selection, and after two or more of other slots it does not. -/
theorem rollback_after_selections (ht : Slots table n) {r : Option ℕ}
    (h : Confirmed table n r m) {calls : List ℕ} (hcalls : ∀ k ∈ calls, k < n ∧ some k ≠ r) :
    (calls.length ≤ 1 → RollsBack ⟨table, true⟩ r calls m) ∧
      (¬ OverrunsCount table n → Reachable ⟨table, true⟩ m →
        ∀ bound, (∀ i, otaSelectValid (readTwo m i) = true → (readTwo m i).otaSeq.toNat ≤ bound) →
          bound + 16 * calls.length < 2 ^ 32 - 64 →
          (RollsBack ⟨table, true⟩ r calls m ↔ calls.length ≤ 1)) := by
  have hsingle := rollsBack_of_single ht h fun k hk => (hcalls k hk).1
  refine ⟨hsingle, fun hov hreach bound hbound hb => ⟨fun hroll => ?_, hsingle⟩⟩
  by_contra hmany
  refine not_rollsBack_of_several ht hov h hcalls (by omega) ?_ hb hroll
  exact fun i hi => ⟨hreach.numbered ht i hi, hbound i hi⟩

/-- The record of a confirmed image in the first slot, with the number `1`. -/
def firstSlotRecord : SelectEntry :=
  SelectEntry.withSeq ⟨0, fun _ => 0xff#8, imgValid, 0⟩ 1#32

/-- The first slot of two is confirmed, the second record is erased. -/
def firstSlotConfirmed : Mem := storeEntry (fun _ => 0xff#8) 0 firstSlotRecord

lemma readTwo_firstSlotConfirmed : readTwo firstSlotConfirmed 0 = firstSlotRecord ∧
    otaSelectValid (readTwo firstSlotConfirmed 1) = false := by
  rw [firstSlotConfirmed, readTwo_storeEntry]
  refine ⟨Function.update_self .., ?_⟩
  rw [Function.update_of_ne (by decide)]
  decide

lemma confirmed_firstSlotConfirmed : Confirmed twoSlotTable 2 (some 0) firstSlotConfirmed := by
  obtain ⟨h0, h1⟩ := readTwo_firstSlotConfirmed
  have hvalid : otaSelectValid firstSlotRecord = true :=
    otaSelectValid_iff.mpr ⟨by decide, by decide, by decide, rfl⟩
  refine ⟨0, getActiveOtadata_eq_some_iff.mpr ⟨by rw [h0]; exact hvalid, fun hv => ?_⟩,
    by rw [h0]; decide, by rw [h0]; decide, by rw [h0]; decide⟩
  change otaSelectValid (readTwo firstSlotConfirmed 1) = true at hv
  rw [h1] at hv
  exact absurd hv (by decide)

theorem rollback_after_one_selection :
    RollsBack ⟨twoSlotTable, true⟩ (some 0) [1] firstSlotConfirmed :=
  (rollback_after_selections slots_twoSlotTable confirmed_firstSlotConfirmed
    (by decide : ∀ k ∈ [1], k < 2 ∧ some k ≠ some 0)).1 (by decide)

/-- Selecting the second slot twice loses the confirmed first one: the unconfirmed image is
booted a second time. -/
theorem no_rollback_after_two_selections :
    Confirmed twoSlotTable 2 (some 0) firstSlotConfirmed ∧
      ¬ RollsBack ⟨twoSlotTable, true⟩ (some 0) [1, 1] firstSlotConfirmed ∧
      (boot ⟨twoSlotTable, true⟩ allLoad
        (afterCalls ⟨twoSlotTable, true⟩ [1, 1] firstSlotConfirmed)).started = some 1 ∧
      (boot ⟨twoSlotTable, true⟩ allLoad (rebooted ⟨twoSlotTable, true⟩ 1
        (afterCalls ⟨twoSlotTable, true⟩ [1, 1] firstSlotConfirmed))).started = some 1 := by
  have hnum : NumberedUpTo 1 firstSlotConfirmed := by
    obtain ⟨h0, h1⟩ := readTwo_firstSlotConfirmed
    refine Fin.forall_fin_two.mpr ⟨fun _ => ?_, fun hv => ?_⟩
    · rw [h0]
      decide
    · rw [h1] at hv
      exact absurd hv (by decide)
  refine ⟨confirmed_firstSlotConfirmed, not_rollsBack_of_several slots_twoSlotTable (by decide)
    confirmed_firstSlotConfirmed (by decide) (by decide) hnum (by decide), ?_, ?_⟩
  · decide +kernel
  · decide +kernel

end EspIdf.Ota
