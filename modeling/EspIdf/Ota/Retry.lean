/-
# Calling esp_ota_write again

A call that the flash driver refuses has already copied bytes into the handle.  The call can be
repeated if and only if the handle still stands for the bytes it stood for before: without
encryption it does, with encryption only where nothing was copied.
-/
import EspIdf.Ota.Reassembly

namespace EspIdf.Ota

open EspIdf.Lib EspIdf.SpiFlash

variable {dev : Board} {part : Partition} {a n : ℕ} {data : List Byte} {s s' t : OpsState}
  {handle e : ℕ} {it it₀ it' : OtaOpsEntry} {verify : Mem → Partition → Bool}

/-! ### The states of the handles -/

/-- The same state with other outcomes of the next flash accesses. -/
def OpsState.withFaults (s : OpsState) (fs : List (Option ℕ)) : OpsState := { s with faults := fs }

/-- A call, with any outcomes of its flash accesses. -/
inductive OpsStep (dev : Board) (verify : Mem → Partition → Bool) : OpsState → OpsState → Prop
  | begin (s : OpsState) (fs : List (Option ℕ)) (part : Partition) (imageSize : ℕ) :
    OpsStep dev verify s (espOtaBegin dev part imageSize (s.withFaults fs)).2
  | write (s : OpsState) (fs : List (Option ℕ)) (handle : ℕ) (data : List Byte) :
    OpsStep dev verify s (espOtaWrite dev handle data (s.withFaults fs)).2
  | finish (s : OpsState) (fs : List (Option ℕ)) (handle : ℕ) :
    OpsStep dev verify s (espOtaEnd dev verify handle (s.withFaults fs)).2

/-- A state that calls have led to, from one without handles. -/
def OpsReachable (dev : Board) (verify : Mem → Partition → Bool) (s : OpsState) : Prop :=
  ∃ s₀ : OpsState, s₀.entries = [] ∧ Relation.ReflTransGen (OpsStep dev verify) s₀ s

/-- No handle carries more than a block. -/
def BlocksFit (s : OpsState) : Prop := ∀ it ∈ s.entries, it.partialBytes ≤ 16

lemma mem_setEntry {es : List OtaOpsEntry} {x : OtaOpsEntry} (h : x ∈ setEntry it es) :
    x = it ∨ x ∈ es := by
  induction es with
  | nil => exact absurd h List.not_mem_nil
  | cons y es ih =>
    rw [setEntry] at h
    split at h
    · exact (List.mem_cons.mp h).imp_right (List.mem_cons_of_mem y)
    · rcases List.mem_cons.mp h with rfl | h
      · exact Or.inr List.mem_cons_self
      · exact (ih h).imp_right (List.mem_cons_of_mem y)

lemma findEntry_mem {es : List OtaOpsEntry} (h : findEntry handle es = some it) : it ∈ es :=
  List.mem_of_find?_eq_some h

/-- A program that keeps the blocks inside the handles, whatever it returns. -/
abbrev KeepsBlocks {α : Type} (m : OpsM α) : Prop :=
  Prog.Triple BlocksFit m (fun _ => BlocksFit) (fun _ => BlocksFit)

/-- Where only the final state of a program matters. -/
lemma KeepsBlocks.final {α : Type} {m : OpsM α} (h : KeepsBlocks m) (hs : BlocksFit s) :
    BlocksFit (m s).2 := by
  have hm := h s hs
  cases hrun : m s with
  | mk r s' =>
    rw [hrun] at hm
    cases r <;> exact hm

lemma KeepsBlocks.of_final {α : Type} {m : OpsM α} (h : ∀ s, BlocksFit s → BlocksFit (m s).2) :
    KeepsBlocks m := by
  intro s hs
  have hm := h s hs
  cases hrun : m s with
  | mk r s' =>
    rw [hrun] at hm
    cases r <;> exact hm

lemma keepsBlocks_putEntry (h : it.partialBytes ≤ 16) : KeepsBlocks (putEntry it) :=
  .modify fun _ hs _ hx => (mem_setEntry hx).elim (fun e => e ▸ h) (hs _)

lemma keepsBlocks_failWith {α : Type} (e : OpsErr) : KeepsBlocks (failWith e : OpsM α) :=
  .throw fun _ hs => hs

lemma keepsBlocks_flashAccess {f : OpsState → OpsState} (hf : ∀ s, (f s).entries = s.entries) :
    KeepsBlocks (flashAccess f) := by
  intro s hs
  unfold flashAccess
  have hkeep : ∀ u : OpsState, u.entries = s.entries → BlocksFit (f u) := by
    intro u hu x hx
    rw [hf, hu] at hx
    exact hs x hx
  cases s.faults with
  | nil => exact hkeep s rfl
  | cons o fs =>
    cases o with
    | none => exact hkeep _ rfl
    | some e => exact hs

lemma keepsBlocks_espPartitionWrite {src : List Byte} :
    KeepsBlocks (espPartitionWrite dev part a src) := by
  refine .ite (fun _ => keepsBlocks_failWith _) fun _ => ?_
  refine .ite (fun _ => keepsBlocks_failWith _) fun _ => ?_
  refine .ite (fun _ => keepsBlocks_failWith _) fun _ => ?_
  refine .ite (fun _ => keepsBlocks_failWith _) fun _ => ?_
  exact keepsBlocks_flashAccess fun _ => rfl

lemma keepsBlocks_espPartitionEraseRange :
    KeepsBlocks (espPartitionEraseRange part a n) := by
  refine .ite (fun _ => keepsBlocks_failWith _) fun _ => ?_
  refine .ite (fun _ => keepsBlocks_failWith _) fun _ => ?_
  refine .ite (fun _ => keepsBlocks_failWith _) fun _ => ?_
  refine .ite (fun _ => keepsBlocks_failWith _) fun _ => ?_
  refine .ite (fun _ => keepsBlocks_failWith _) fun _ => ?_
  exact keepsBlocks_flashAccess fun _ => rfl

lemma keepsBlocks_writeData (h : it.partialBytes ≤ 16) : KeepsBlocks (writeData dev it data) :=
  .bind keepsBlocks_espPartitionWrite fun _ => keepsBlocks_putEntry h

lemma keepsBlocks_writeBlocks : KeepsBlocks (writeBlocks dev it data) := by
  have h : data.length % 16 ≤ 16 := Nat.le_of_lt (Nat.mod_lt _ (by decide))
  exact .bind (keepsBlocks_putEntry h) fun _ => keepsBlocks_writeData h

lemma keepsBlocks_writeEncrypted (h : it.partialBytes ≤ 16) :
    KeepsBlocks (writeEncrypted dev it data) := by
  refine .ite (fun _ => ?_) fun _ => keepsBlocks_writeBlocks
  have hfill : (it.filled data (min (16 - it.partialBytes) data.length)).partialBytes ≤ 16 := by
    change it.partialBytes + min (16 - it.partialBytes) data.length ≤ 16
    omega
  refine .ite (fun _ => keepsBlocks_putEntry hfill) fun _ => ?_
  exact .bind (keepsBlocks_putEntry hfill) fun _ => .bind keepsBlocks_espPartitionWrite fun _ =>
    .bind (keepsBlocks_putEntry (Nat.zero_le _)) fun _ => keepsBlocks_writeBlocks

lemma keepsBlocks_espOtaWrite : KeepsBlocks (espOtaWrite dev handle data) := by
  refine .get_bind fun s hs => ?_
  split
  · exact keepsBlocks_failWith _
  · next it hfind =>
    have h := hs it (findEntry_mem hfind)
    refine .ite (fun _ => .throw fun _ hs => hs) fun _ => ?_
    refine .ite (fun _ => keepsBlocks_failWith _) fun _ => ?_
    exact .ite (fun _ => keepsBlocks_writeEncrypted h) fun _ => keepsBlocks_writeData h

lemma keepsBlocks_runningPendingVerify : KeepsBlocks (runningPendingVerify dev) := by
  refine .of_final fun s hs => ?_
  unfold runningPendingVerify
  split
  · split <;> exact hs
  · exact hs

lemma keepsBlocks_espOtaBegin {imageSize : ℕ} : KeepsBlocks (espOtaBegin dev part imageSize) := by
  refine .ite (fun _ => keepsBlocks_failWith _) fun _ => ?_
  refine .ite (fun _ => keepsBlocks_failWith _) fun _ => ?_
  refine .ite (fun _ => keepsBlocks_failWith _) fun _ => ?_
  refine .bind keepsBlocks_runningPendingVerify fun _ => ?_
  refine .ite (fun _ => keepsBlocks_failWith _) fun _ => ?_
  refine .bind keepsBlocks_espPartitionEraseRange fun _ => .get_bind fun s _ => ?_
  refine .bind (.modify fun t ht x hx => ?_) fun _ => .pure fun _ hs => hs
  rcases List.mem_cons.mp hx with rfl | hx
  · exact Nat.zero_le _
  · exact ht x hx

lemma keepsBlocks_writeLastBlock : KeepsBlocks (writeLastBlock dev it) := by
  refine .of_final fun s hs => ?_
  have hw : KeepsBlocks (espPartitionWrite dev it.part it.wroteSize (List.ofFn it.partialData)) :=
    keepsBlocks_espPartitionWrite
  have hw' := hw.final hs
  unfold writeLastBlock
  by_cases hp : it.partialBytes > 0
  · simp only [if_pos hp]
    cases hrun : espPartitionWrite dev it.part it.wroteSize (List.ofFn it.partialData) s with
    | mk r s' =>
      rw [hrun] at hw'
      cases r <;> exact hw'
  · simp only [if_neg hp]
    exact hs

lemma keepsBlocks_endBody : KeepsBlocks (endBody dev verify it) := by
  refine .ite (fun _ => keepsBlocks_failWith _) fun _ => ?_
  refine .bind keepsBlocks_writeLastBlock fun _ => .get_bind fun s _ => ?_
  exact .ite (fun _ => .pure fun _ hs => hs) fun _ => keepsBlocks_failWith _

lemma keepsBlocks_espOtaEnd : KeepsBlocks (espOtaEnd dev verify handle) := by
  refine .of_final fun s hs => ?_
  unfold espOtaEnd
  cases findEntry handle s.entries with
  | none => exact hs
  | some it =>
    intro x hx
    exact keepsBlocks_endBody.final hs x (List.mem_of_mem_eraseP hx)

lemma OpsStep.blocksFit (h : OpsStep dev verify s s') (hs : BlocksFit s) : BlocksFit s' := by
  cases h with
  | begin fs part imageSize => exact keepsBlocks_espOtaBegin.final hs
  | write fs handle data => exact keepsBlocks_espOtaWrite.final hs
  | finish fs handle => exact keepsBlocks_espOtaEnd.final hs

/-- In every run no handle carries more than a block. -/
theorem OpsReachable.blocksFit (h : OpsReachable dev verify s) : BlocksFit s := by
  obtain ⟨s₀, h0, hrun⟩ := h
  induction hrun with
  | refl => exact fun it hit => absurd (h0 ▸ hit) List.not_mem_nil
  | tail _ hstep ih => exact hstep.blocksFit ih

/-! ### Refused writes -/

/-- The checks of `esp_partition_write` for `n` bytes. -/
def Accepts (dev : Board) (part : Partition) (a n : ℕ) : Prop :=
  a + n ≤ part.size ∧ dev.Aligned (part.offset + a) n

/-- A write that passes the checks is up to the flash driver, any other one fails on its own. -/
lemma espPartitionWrite_cases (dev : Board) (part : Partition) (a : ℕ) (src : List Byte) :
    (Accepts dev part a src.length ∧ espPartitionWrite dev part a src =
        flashAccess (OpsState.store dev (part.offset + a) src)) ∨
      ∃ err, espPartitionWrite dev part a src = failWith err ∧ ∀ e, err ≠ .flash e := by
  unfold espPartitionWrite
  split
  · exact Or.inr ⟨.invalidArg, rfl, fun _ => nofun⟩
  split
  · exact Or.inr ⟨.invalidSize, rfl, fun _ => nofun⟩
  split
  · exact Or.inr ⟨.invalidArg, rfl, fun _ => nofun⟩
  split
  · exact Or.inr ⟨.invalidSize, rfl, fun _ => nofun⟩
  · next _ h2 h3 h4 =>
    have halign : dev.Aligned (part.offset + a) src.length :=
      fun hc => ⟨not_and_not_right.mp h3 hc, not_and_not_right.mp h4 hc⟩
    exact Or.inl ⟨⟨by omega, halign⟩, rfl⟩

lemma espPartitionWrite_eq {src : List Byte} (h : Accepts dev part a src.length) :
    espPartitionWrite dev part a src =
      flashAccess (OpsState.store dev (part.offset + a) src) := by
  obtain ⟨h1, h2⟩ := h
  have h3 : ¬ (dev.cipher.isSome = true ∧ (part.offset + a) % 16 ≠ 0) :=
    fun ⟨hc, hne⟩ => hne (h2 hc).1
  have h4 : ¬ (dev.cipher.isSome = true ∧ src.length % 16 ≠ 0) := fun ⟨hc, hne⟩ => hne (h2 hc).2
  rw [espPartitionWrite, if_neg (by omega), if_neg (by omega), if_neg h3, if_neg h4]

lemma flashAccess_nil {f : OpsState → OpsState} (h : s.faults = []) :
    flashAccess f s = (.ok (), f s) := by
  unfold flashAccess
  rw [h]

lemma flashAccess_error {f : OpsState → OpsState} {e : OpsStop}
    (h : flashAccess f s = (.error e, s')) :
    ∃ code fs, s.faults = some code :: fs ∧ e = .err (.flash code) ∧
      s' = { s with faults := fs } := by
  unfold flashAccess at h
  split at h
  · next code fs heq =>
    cases h
    exact ⟨code, fs, heq, rfl, rfl⟩
  · cases h
  · cases h

/-- A write that succeeds, or that only the flash driver refuses, passes the checks. -/
lemma accepts_of_ok {src : List Byte} (h : espPartitionWrite dev part a src s = (.ok (), s')) :
    Accepts dev part a src.length := by
  rcases espPartitionWrite_cases dev part a src with ⟨hacc, -⟩ | ⟨err, herr, -⟩
  · exact hacc
  · rw [herr] at h
    cases h

lemma espPartitionWrite_refused {src : List Byte}
    (h : espPartitionWrite dev part a src s = (.error (.err (.flash e)), s')) :
    Accepts dev part a src.length ∧
      ∃ fs, s.faults = some e :: fs ∧ s' = { s with faults := fs } := by
  rcases espPartitionWrite_cases dev part a src with ⟨hacc, heq⟩ | ⟨err, herr, hne⟩
  · rw [heq] at h
    obtain ⟨code, fs, hf, hcode, rfl⟩ := flashAccess_error h
    cases hcode
    exact ⟨hacc, fs, hf, rfl⟩
  · rw [herr] at h
    cases h
    exact absurd rfl (hne e)

/-! ### The steps of an encrypted call -/

/-- The handle with the trailing data saved. -/
def OtaOpsEntry.saved (it : OtaOpsEntry) (data : List Byte) : OtaOpsEntry :=
  { it with
    partialBytes := data.length % 16
    partialData := it.partialData.patch 0 (data.drop (data.length - data.length % 16)) }

/-- The handle after `n` more bytes were written. -/
def OtaOpsEntry.advanced (it : OtaOpsEntry) (n : ℕ) : OtaOpsEntry :=
  { it with wroteSize := it.wroteSize + n }

/-- The part of the data that is written at once. -/
def wholeBlocks (data : List Byte) : List Byte := data.take (data.length - data.length % 16)

/-- How many bytes of the data are copied into the block of the handle. -/
def OtaOpsEntry.copyLen (it : OtaOpsEntry) (data : List Byte) : ℕ :=
  min (16 - it.partialBytes) data.length

/-- The handle once these bytes are copied. -/
def OtaOpsEntry.copied (it : OtaOpsEntry) (data : List Byte) : OtaOpsEntry :=
  it.filled data (it.copyLen data)

/-- The handle once its block was written. -/
def OtaOpsEntry.next (it : OtaOpsEntry) (data : List Byte) : OtaOpsEntry := (it.copied data).flushed

/-- The block of the handle. -/
def OtaOpsEntry.block (it : OtaOpsEntry) (data : List Byte) : List Byte :=
  List.ofFn (it.copied data).partialData

/-- The data behind the bytes that were copied. -/
def OtaOpsEntry.rest (it : OtaOpsEntry) (data : List Byte) : List Byte :=
  data.drop (it.copyLen data)

lemma length_wholeBlocks (data : List Byte) :
    (wholeBlocks data).length + data.length % 16 = data.length := by
  have := Nat.mod_le data.length 16
  rw [wholeBlocks, List.length_take]
  omega

lemma length_rest : (it.rest data).length = data.length - it.copyLen data := List.length_drop

lemma putEntry_bind {α : Type} (f : Unit → OpsM α) :
    (putEntry it >>= f) s = f () { s with entries := setEntry it s.entries } := rfl

lemma writeBlocks_eq : writeBlocks dev it data = (do
    putEntry (it.saved data)
    writeData dev (it.saved data) (wholeBlocks data)) := rfl

lemma writeEncrypted_blocks (h : it.partialBytes = 0) :
    writeEncrypted dev it data = writeBlocks dev it data := by
  rw [writeEncrypted, if_neg (not_not.mpr h)]

/-- The chunk ends inside the block of the handle. -/
lemma writeEncrypted_inside (h : it.partialBytes ≠ 0)
    (hne : it.partialBytes + it.copyLen data ≠ 16) :
    writeEncrypted dev it data = putEntry (it.copied data) := by
  rw [writeEncrypted, if_pos h]
  exact if_pos hne

/-- The chunk fills up the block of the handle. -/
lemma writeEncrypted_full (h : it.partialBytes ≠ 0)
    (heq : it.partialBytes + it.copyLen data = 16) :
    writeEncrypted dev it data = (do
      putEntry (it.copied data)
      espPartitionWrite dev it.part it.wroteSize (it.block data)
      putEntry (it.next data)
      writeBlocks dev (it.next data) (it.rest data)) := by
  rw [writeEncrypted, if_pos h]
  exact if_neg (not_not.mpr heq)

/-- The state after the block of the handle was written. -/
def afterBlock (dev : Board) (it : OtaOpsEntry) (data : List Byte) (fs : List (Option ℕ))
    (s : OpsState) : OpsState :=
  { OpsState.store dev (it.part.offset + it.wroteSize) (it.block data) { s with faults := fs } with
    entries := setEntry (it.next data) (setEntry (it.copied data) s.entries) }

lemma findEntry_afterBlock {fs : List (Option ℕ)} (hfind : findEntry handle s.entries = some it) :
    findEntry handle (afterBlock dev it data fs s).entries = some (it.next data) := by
  have hh := findEntry_handle hfind
  have h₁ : (it.copied data).handle = handle := hh
  have h₂ : (it.next data).handle = handle := hh
  exact findEntry_setEntry (findEntry_setEntry hfind h₁) h₂

/-- The driver refuses the first access. -/
def firstRefused (fs : List (Option ℕ)) : Prop := ∃ e, fs.head? = some (some e)

lemma flashAccess_ok_first {f : OpsState → OpsState} (h : flashAccess f s = (.ok (), s')) :
    ¬ firstRefused s.faults := by
  rintro ⟨e, he⟩
  unfold flashAccess at h
  split at h
  · cases h
  · next heq =>
    rw [heq] at he
    cases he
  · next heq =>
    rw [heq] at he
    cases he

lemma full_ok (h0 : it.partialBytes ≠ 0) (hfull : it.partialBytes + it.copyLen data = 16)
    (h : writeEncrypted dev it data s = (.ok (), s')) :
    Accepts dev it.part it.wroteSize (it.block data).length ∧ ∃ fs,
      writeBlocks dev (it.next data) (it.rest data) (afterBlock dev it data fs s) =
        (.ok (), s') := by
  rw [writeEncrypted_full h0 hfull, putEntry_bind] at h
  obtain ⟨_, t, hwrite, h⟩ := Prog.bind_returns h
  obtain ⟨-, fs, rfl⟩ := espPartitionWrite_ok hwrite
  exact ⟨accepts_of_ok hwrite, fs, h⟩

lemma full_refused (h0 : it.partialBytes ≠ 0) (hfull : it.partialBytes + it.copyLen data = 16)
    (h : writeEncrypted dev it data s = (.error (.err (.flash e)), s')) :
    (firstRefused s.faults ∧ s'.flash = s.flash ∧
        s'.entries = setEntry (it.copied data) s.entries) ∨
      (¬ firstRefused s.faults ∧ ∃ fs,
        writeBlocks dev (it.next data) (it.rest data) (afterBlock dev it data fs s) =
          (.error (.err (.flash e)), s')) := by
  rw [writeEncrypted_full h0 hfull, putEntry_bind, Prog.bind_apply] at h
  split at h
  · next u t hwrite =>
    have hacc := accepts_of_ok hwrite
    have haccess := hwrite
    rw [espPartitionWrite_eq hacc] at haccess
    have hfirst := flashAccess_ok_first haccess
    obtain ⟨-, fs, rfl⟩ := espPartitionWrite_ok hwrite
    exact Or.inr ⟨hfirst, fs, h⟩
  · next err t hwrite =>
    cases h
    obtain ⟨-, fs, hfs, rfl⟩ := espPartitionWrite_refused hwrite
    refine Or.inl ⟨⟨e, ?_⟩, rfl, rfl⟩
    rw [show s.faults = some e :: fs from hfs]
    rfl

/-- What a working driver does with a call that fills up the block of the handle. -/
lemma full_works (h0 : it.partialBytes ≠ 0) (hfull : it.partialBytes + it.copyLen data = 16)
    (hacc : Accepts dev it.part it.wroteSize (it.block data).length) (hs : s.faults = []) :
    writeEncrypted dev it data s =
      writeBlocks dev (it.next data) (it.rest data) (afterBlock dev it data s.faults s) := by
  rw [writeEncrypted_full h0 hfull, putEntry_bind]
  have hwrite : espPartitionWrite dev it.part it.wroteSize (it.block data)
      { s with entries := setEntry (it.copied data) s.entries } =
        (.ok (), OpsState.store dev (it.part.offset + it.wroteSize) (it.block data)
          { s with entries := setEntry (it.copied data) s.entries }) := by
    rw [espPartitionWrite_eq hacc]
    exact flashAccess_nil hs
  exact Prog.bind_ok hwrite

lemma writeBlocks_accepts (h : writeBlocks dev it data s = (.ok (), s')) :
    Accepts dev it.part it.wroteSize (wholeBlocks data).length := by
  rw [writeBlocks_eq, putEntry_bind] at h
  obtain ⟨_, t, hwrite, -⟩ := Prog.bind_returns h
  exact accepts_of_ok hwrite

lemma writeBlocks_works (hacc : Accepts dev it.part it.wroteSize (wholeBlocks data).length)
    (hs : s.faults = []) (hfind : findEntry handle s.entries = some it₀) (hh : it.handle = handle) :
    ∃ t, writeBlocks dev it data s = (.ok (), t) ∧
      t.flash = dev.store s.flash (it.part.offset + it.wroteSize) (wholeBlocks data) ∧
      findEntry handle t.entries = some ((it.saved data).advanced (wholeBlocks data).length) := by
  have h₁ : (it.saved data).handle = handle := hh
  have h₂ : ((it.saved data).advanced (wholeBlocks data).length).handle = handle := hh
  have hwrite : espPartitionWrite dev it.part it.wroteSize (wholeBlocks data)
      { s with entries := setEntry (it.saved data) s.entries } =
        (.ok (), OpsState.store dev (it.part.offset + it.wroteSize) (wholeBlocks data)
          { s with entries := setEntry (it.saved data) s.entries }) := by
    rw [espPartitionWrite_eq hacc]
    exact flashAccess_nil hs
  exact ⟨_, Prog.bind_ok hwrite, rfl, findEntry_setEntry (findEntry_setEntry hfind h₁) h₂⟩

lemma writeData_refused (h : writeData dev it data s = (.error (.err (.flash e)), s')) :
    ∃ fs, s' = { s with faults := fs } := by
  unfold writeData at h
  rw [Prog.bind_apply] at h
  split at h
  · cases h
  · next err t hwrite =>
    cases h
    obtain ⟨-, fs, -, rfl⟩ := espPartitionWrite_refused hwrite
    exact ⟨fs, rfl⟩

lemma writeBlocks_refused (h : writeBlocks dev it data s = (.error (.err (.flash e)), s')) :
    s'.flash = s.flash ∧ s'.entries = setEntry (it.saved data) s.entries := by
  rw [writeBlocks_eq, putEntry_bind] at h
  obtain ⟨fs, rfl⟩ := writeData_refused h
  exact ⟨rfl, rfl⟩

/-! ### The bytes that a handle stands for -/

/-- The bytes that were written or are carried. -/
def OtaOpsEntry.total (it : OtaOpsEntry) : ℕ := it.wroteSize + it.partialBytes

lemma total_writeBlocks (hfind : findEntry handle s.entries = some it₀) (hh : it.handle = handle)
    (h : writeBlocks dev it data s = (.ok (), s')) :
    ∃ it', findEntry handle s'.entries = some it' ∧ it'.total = it.wroteSize + data.length := by
  rw [writeBlocks_eq, putEntry_bind] at h
  obtain ⟨-, fs, rfl⟩ := writeData_ok h
  refine ⟨_, findEntry_setEntry (findEntry_setEntry hfind hh) hh, ?_⟩
  change it.wroteSize + (wholeBlocks data).length + data.length % 16 = _
  have := length_wholeBlocks data
  omega

lemma total_writeEncrypted (hfind : findEntry handle s.entries = some it)
    (hp : it.partialBytes ≤ 16) (h : writeEncrypted dev it data s = (.ok (), s')) :
    ∃ it', findEntry handle s'.entries = some it' ∧ it'.total = it.total + data.length := by
  have hh := findEntry_handle hfind
  have hcopy : it.copyLen data = min (16 - it.partialBytes) data.length := rfl
  by_cases h0 : it.partialBytes = 0
  · rw [writeEncrypted_blocks h0] at h
    obtain ⟨it', hfind', htotal⟩ := total_writeBlocks hfind hh h
    refine ⟨it', hfind', htotal.trans ?_⟩
    unfold OtaOpsEntry.total
    omega
  · by_cases hfull : it.partialBytes + it.copyLen data = 16
    · obtain ⟨-, fs, h⟩ := full_ok h0 hfull h
      have h₁ : (it.next data).handle = handle := hh
      obtain ⟨it', hfind', htotal⟩ := total_writeBlocks (findEntry_afterBlock hfind) h₁ h
      refine ⟨it', hfind', htotal.trans ?_⟩
      change it.wroteSize + 16 + (it.rest data).length = it.wroteSize + it.partialBytes + _
      rw [length_rest]
      omega
    · rw [writeEncrypted_inside h0 hfull] at h
      cases h
      have h₁ : (it.copied data).handle = handle := hh
      refine ⟨_, findEntry_setEntry hfind h₁, ?_⟩
      change it.wroteSize + (it.partialBytes + it.copyLen data) = it.wroteSize + it.partialBytes + _
      omega

/-! ### A refused call and its repetition -/

/-- The checks of `esp_ota_write` on the handle that it has found. -/
def OtaOpsEntry.Passes (it : OtaOpsEntry) (data : List Byte) : Prop :=
  it.erasedSize ≠ 0 ∧ ¬ (it.wroteSize = 0 ∧ it.partialBytes = 0 ∧ data ≠ [] ∧
    data.head? ≠ some imageHeaderMagic)

lemma espOtaWrite_eq (hfind : findEntry handle s.entries = some it) (h : it.Passes data) :
    espOtaWrite dev handle data s =
      if dev.cipher.isSome then writeEncrypted dev it data s else writeData dev it data s := by
  unfold espOtaWrite
  rw [Prog.get_bind]
  simp only [hfind]
  rw [if_neg h.1, if_neg h.2]
  split <;> rfl

/-- A call that writes or tries to write has passed the checks. -/
lemma passes_of_refused (hfind : findEntry handle s.entries = some it)
    (h : espOtaWrite dev handle data s = (.error (.err (.flash e)), s')) : it.Passes data := by
  unfold espOtaWrite at h
  rw [Prog.get_bind] at h
  simp only [hfind] at h
  split at h
  · cases h
  split at h
  · cases h
  · next h1 h2 => exact ⟨h1, h2⟩

/-- Where a refused call with encryption has stopped, with the handle and the flash that it has
left: before its whole blocks, or before the block of the handle, or between them. -/
inductive Refused (dev : Board) (it : OtaOpsEntry) (data : List Byte) (first : Prop) (m : Mem) :
    OtaOpsEntry → Mem → Prop
  | blocks (h0 : it.partialBytes = 0) : Refused dev it data first m (it.saved data) m
  | buffer (h0 : it.partialBytes ≠ 0) (hfull : it.partialBytes + it.copyLen data = 16)
      (hfirst : first) : Refused dev it data first m (it.copied data) m
  | behind (h0 : it.partialBytes ≠ 0) (hfull : it.partialBytes + it.copyLen data = 16)
      (hfirst : ¬ first) : Refused dev it data first m ((it.next data).saved (it.rest data))
        (dev.store m (it.part.offset + it.wroteSize) (it.block data))

/-- What a call has done that the driver has refused. -/
lemma writeEncrypted_refused (hfind : findEntry handle s.entries = some it)
    (h : writeEncrypted dev it data s = (.error (.err (.flash e)), s')) :
    ∃ it₁, Refused dev it data (firstRefused s.faults) s.flash it₁ s'.flash ∧
      findEntry handle s'.entries = some it₁ := by
  have hh := findEntry_handle hfind
  by_cases h0 : it.partialBytes = 0
  · rw [writeEncrypted_blocks h0] at h
    obtain ⟨hm, hent⟩ := writeBlocks_refused h
    have h₁ : (it.saved data).handle = handle := hh
    rw [hm, hent]
    exact ⟨_, .blocks h0, findEntry_setEntry hfind h₁⟩
  · by_cases hfull : it.partialBytes + it.copyLen data = 16
    · rcases full_refused h0 hfull h with ⟨hfirst, hm, hent⟩ | ⟨hfirst, fs, h⟩
      · have h₁ : (it.copied data).handle = handle := hh
        rw [hm, hent]
        exact ⟨_, .buffer h0 hfull hfirst, findEntry_setEntry hfind h₁⟩
      · obtain ⟨hm, hent⟩ := writeBlocks_refused h
        have h₁ : ((it.next data).saved (it.rest data)).handle = handle := hh
        rw [hm, hent]
        exact ⟨_, .behind h0 hfull hfirst,
          findEntry_setEntry (findEntry_afterBlock hfind) h₁⟩
    · rw [writeEncrypted_inside h0 hfull] at h
      cases h

/-- The call can be repeated. -/
def OtaOpsEntry.Repeatable (it : OtaOpsEntry) (data : List Byte) (first : Prop) : Prop :=
  (it.partialBytes = 0 ∨ it.partialBytes = 16) ∧
    (16 ∣ data.length ∨ it.partialBytes = 16 ∧ first)

/-- The handle that a refused call leaves stands for as many bytes as before if and only if the
call can be repeated. -/
lemma Refused.total_iff {first : Prop} {m m' : Mem} {it₁ : OtaOpsEntry}
    (h : Refused dev it data first m it₁ m') (hp : it.partialBytes ≤ 16) :
    it₁.total = it.total ↔ it.Repeatable data first := by
  unfold OtaOpsEntry.Repeatable OtaOpsEntry.total
  cases h with
  | blocks h0 =>
    change it.wroteSize + data.length % 16 = _ ↔ _
    omega
  | buffer h0 hfull hfirst =>
    change it.wroteSize + (it.partialBytes + it.copyLen data) = _ ↔ _
    constructor
    · intro h
      exact ⟨Or.inr (by omega), Or.inr ⟨by omega, hfirst⟩⟩
    · rintro ⟨h, -⟩
      omega
  | behind h0 hfull hfirst =>
    change it.wroteSize + 16 + (it.rest data).length % 16 = _ ↔ _
    rw [length_rest]
    constructor
    · intro h
      exact ⟨Or.inr (by omega), Or.inl (by omega)⟩
    · rintro ⟨h, h16 | ⟨-, hf⟩⟩
      · omega
      · exact absurd hf hfirst

/-- The flash and the bytes that the handle stands for are the same. -/
structure Agree (handle : ℕ) (s s' : OpsState) : Prop where
  flash : s.flash = s'.flash
  entry : ∃ it it', findEntry handle s.entries = some it ∧ findEntry handle s'.entries = some it' ∧
    it.wroteSize = it'.wroteSize ∧ it.partialBytes = it'.partialBytes ∧
      ∀ i : Fin 16, i < it.partialBytes → it.partialData i = it'.partialData i

lemma Agree.refl (hfind : findEntry handle s.entries = some it) : Agree handle s s :=
  ⟨rfl, it, it, hfind, hfind, rfl, rfl, fun _ _ => rfl⟩

lemma Agree.total_eq (h : Agree handle s s') (hfind : findEntry handle s.entries = some it)
    (hfind' : findEntry handle s'.entries = some it') : it.total = it'.total := by
  obtain ⟨x, x', hx, hx', hw, hp, -⟩ := h.entry
  rw [hx] at hfind
  rw [hx'] at hfind'
  cases hfind
  cases hfind'
  unfold OtaOpsEntry.total
  rw [hw, hp]

lemma patch_nil (b : Block 16) (p : ℕ) : b.patch p [] = b :=
  funext fun i => patch_of_not_mem (by rw [List.length_nil]; omega)

/-- A full block takes nothing more. -/
lemma copied_of_full (data : List Byte) (h : it.partialBytes = 16) :
    it.copyLen data = 0 ∧ (it.copied data).partialBytes = 16 ∧
      (it.copied data).partialData = it.partialData ∧ it.rest data = data := by
  have hcopy : it.copyLen data = 0 := by
    unfold OtaOpsEntry.copyLen
    omega
  refine ⟨hcopy, ?_, ?_, ?_⟩
  · change it.partialBytes + it.copyLen data = 16
    omega
  · change it.partialData.patch it.partialBytes (data.take (it.copyLen data)) = _
    rw [hcopy, List.take_zero, patch_nil]
  · rw [OtaOpsEntry.rest, hcopy, List.drop_zero]

/-- Where a refused call can be repeated, the repetition does what the first call would have
done. -/
lemma Refused.repeats {first : Prop} {s₁ s₂ : OpsState} {it₁ : OtaOpsEntry}
    (h : Refused dev it data first s.flash it₁ s₁.flash) (hrep : it.Repeatable data first)
    (hfind : findEntry handle s.entries = some it) (hs : s.faults = [])
    (hfind₁ : findEntry handle s₁.entries = some it₁) (hs₁ : s₁.faults = [])
    (hgood : writeEncrypted dev it data s = (.ok (), s₂)) :
    ∃ s₃, writeEncrypted dev it₁ data s₁ = (.ok (), s₃) ∧ Agree handle s₃ s₂ := by
  have hh := findEntry_handle hfind
  have hh₁ := findEntry_handle hfind₁
  obtain ⟨hp, hrep⟩ := hrep
  generalize hm₁ : s₁.flash = m₁ at h
  cases h with
  | blocks h0 =>
    have h16 : data.length % 16 = 0 := by omega
    rw [writeEncrypted_blocks h0] at hgood
    have hacc := writeBlocks_accepts hgood
    obtain ⟨t, ht, hflash, hent⟩ := writeBlocks_works hacc hs hfind hh
    obtain rfl : t = s₂ := (Prod.mk.inj (ht.symm.trans hgood)).2
    have hacc₁ : Accepts dev (it.saved data).part (it.saved data).wroteSize
        (wholeBlocks data).length := hacc
    obtain ⟨t₁, ht₁, hflash₁, hent₁⟩ := writeBlocks_works hacc₁ hs₁ hfind₁ hh₁
    refine ⟨t₁, by rw [writeEncrypted_blocks h16, ht₁], ?_, _, _, hent₁, hent, rfl, rfl, ?_⟩
    · rw [hflash₁, hflash, hm₁]
      rfl
    · intro i hi
      exact absurd (show (i : ℕ) < data.length % 16 from hi) (by omega)
  | buffer h0 hfull hfirst =>
    have hp16 : it.partialBytes = 16 := by omega
    obtain ⟨hcopy, hpart, hdata, hrest⟩ := copied_of_full data hp16
    obtain ⟨hcopy', -, hdata', hrest'⟩ := copied_of_full data hpart
    obtain ⟨haccb, -⟩ := full_ok h0 hfull hgood
    rw [full_works h0 hfull haccb hs] at hgood
    have hacc := writeBlocks_accepts hgood
    have hs' : (afterBlock dev it data s.faults s).faults = [] := hs
    obtain ⟨t, ht, hflash, hent⟩ := writeBlocks_works hacc hs' (findEntry_afterBlock hfind) hh
    obtain rfl : t = s₂ := (Prod.mk.inj (ht.symm.trans hgood)).2
    have hblock : (it.copied data).block data = it.block data := by
      rw [OtaOpsEntry.block, OtaOpsEntry.block, hdata']
    have hrest₁ : (it.copied data).rest data = it.rest data := by rw [hrest', hrest]
    have hnext : (it.copied data).next data = it.next data := rfl
    have hacc₁ : Accepts dev ((it.copied data).next data).part
        ((it.copied data).next data).wroteSize (wholeBlocks ((it.copied data).rest data)).length := by
      rw [hnext, hrest₁]
      exact hacc
    have hs₁' : (afterBlock dev (it.copied data) data s₁.faults s₁).faults = [] := hs₁
    obtain ⟨t₁, ht₁, hflash₁, hent₁⟩ :=
      writeBlocks_works hacc₁ hs₁' (findEntry_afterBlock hfind₁) hh₁
    refine ⟨t₁, ?_, ?_, _, _, hent₁, hent, ?_, ?_, ?_⟩
    · rw [full_works (by omega) (by omega) (by rw [hblock]; exact haccb) hs₁]
      exact ht₁
    · rw [hflash₁, hflash, hrest₁]
      change dev.store (dev.store s₁.flash _ ((it.copied data).block data)) _ _ =
        dev.store (dev.store s.flash _ (it.block data)) _ _
      rw [hblock, hm₁]
      rfl
    · rw [hrest₁]
      rfl
    · rw [hrest₁]
      rfl
    · intro i _
      rw [hrest₁]
      rfl
  | behind h0 hfull hfirst =>
    have hp16 : it.partialBytes = 16 := by omega
    have h16 : data.length % 16 = 0 := by
      rcases hrep with h | ⟨-, h⟩
      · omega
      · exact absurd h hfirst
    obtain ⟨-, -, -, hrest⟩ := copied_of_full data hp16
    obtain ⟨haccb, -⟩ := full_ok h0 hfull hgood
    rw [full_works h0 hfull haccb hs, hrest] at hgood
    rw [hrest] at hfind₁ hh₁ ⊢
    have hacc := writeBlocks_accepts hgood
    have hs' : (afterBlock dev it data s.faults s).faults = [] := hs
    obtain ⟨t, ht, hflash, hent⟩ := writeBlocks_works hacc hs' (findEntry_afterBlock hfind) hh
    obtain rfl : t = s₂ := (Prod.mk.inj (ht.symm.trans hgood)).2
    have hacc₁ : Accepts dev ((it.next data).saved data).part ((it.next data).saved data).wroteSize
        (wholeBlocks data).length := hacc
    obtain ⟨t₁, ht₁, hflash₁, hent₁⟩ := writeBlocks_works hacc₁ hs₁ hfind₁ hh₁
    refine ⟨t₁, by rw [writeEncrypted_blocks h16, ht₁], ?_, _, _, hent₁, hent, rfl, rfl, ?_⟩
    · rw [hflash₁, hflash, hm₁]
      rfl
    · intro i hi
      exact absurd (show (i : ℕ) < data.length % 16 from hi) (by omega)

lemma Refused.passes {first : Prop} {m m' : Mem} {it₁ : OtaOpsEntry}
    (h : Refused dev it data first m it₁ m') (hpass : it.Passes data) : it₁.Passes data := by
  cases h with
  | blocks h0 =>
    refine ⟨hpass.1, fun ⟨hw, _, hdata⟩ => hpass.2 ⟨hw, h0, hdata⟩⟩
  | buffer h0 hfull _ =>
    refine ⟨hpass.1, fun ⟨_, hp, _⟩ => ?_⟩
    change it.partialBytes + it.copyLen data = 0 at hp
    omega
  | behind =>
    refine ⟨hpass.1, fun ⟨hw, _⟩ => ?_⟩
    exact absurd (show it.wroteSize + 16 = 0 from hw) (Nat.succ_ne_zero _)

/-- A call that only the flash driver has refused, and without changing the flash, does on its
repetition what it would have done at once, if and only if there is no encryption, or the block
of the handle was empty or full already and the call got stuck in front of that block or leaves
no trailing data. -/
theorem retry_same_iff {fs : List (Option ℕ)} {s₁ s₂ s₃ : OpsState} {r : Except OpsStop Unit}
    (hreach : OpsReachable dev verify s) (hfind : findEntry handle s.entries = some it)
    (hfail : espOtaWrite dev handle data (s.withFaults fs) = (.error (.err (.flash e)), s₁))
    (hgood : espOtaWrite dev handle data (s.withFaults []) = (.ok (), s₂))
    (hretry : espOtaWrite dev handle data (s₁.withFaults []) = (r, s₃)) :
    (r = .ok () ∧ Agree handle s₃ s₂) ↔
      dev.cipher = none ∨ it.Repeatable data (firstRefused fs) := by
  have hfits : BlocksFit (s.withFaults fs) := hreach.blocksFit
  have hp : it.partialBytes ≤ 16 := hfits it (findEntry_mem hfind)
  have hpass := passes_of_refused (s := s.withFaults fs) hfind hfail
  rw [espOtaWrite_eq (s := s.withFaults fs) hfind hpass] at hfail
  rw [espOtaWrite_eq (s := s.withFaults []) hfind hpass] at hgood
  cases hc : dev.cipher with
  | none =>
    simp only [hc, Option.isSome_none, Bool.false_eq_true, if_false] at hfail hgood
    obtain ⟨fs', rfl⟩ := writeData_refused hfail
    refine iff_of_true ?_ (Or.inl rfl)
    change espOtaWrite dev handle data (s.withFaults []) = _ at hretry
    rw [espOtaWrite_eq (s := s.withFaults []) hfind hpass] at hretry
    simp only [hc, Option.isSome_none, Bool.false_eq_true, if_false] at hretry
    obtain ⟨rfl, rfl⟩ := Prod.mk.inj (hretry.symm.trans hgood)
    obtain ⟨-, fs'', rfl⟩ := writeData_ok hgood
    have h₀ := findEntry_handle hfind
    have hh : (it.advanced data.length).handle = handle := h₀
    exact ⟨rfl, .refl (findEntry_setEntry hfind hh)⟩
  | some c =>
    simp only [hc, Option.isSome_some, if_true] at hfail hgood
    obtain ⟨it₁, hst, hfind₁⟩ := writeEncrypted_refused (s := s.withFaults fs) hfind hfail
    have hkeeps : KeepsBlocks (writeEncrypted dev it data) := keepsBlocks_writeEncrypted hp
    have hfits₁ : BlocksFit s₁ := by
      have := hkeeps.final hfits
      rwa [hfail] at this
    have hp₁ := hfits₁ it₁ (findEntry_mem hfind₁)
    rw [espOtaWrite_eq (s := s₁.withFaults []) hfind₁ (hst.passes hpass)] at hretry
    simp only [hc, Option.isSome_some, if_true] at hretry
    have hnone : ¬ (some c = none) := Option.some_ne_none c
    rw [or_iff_right hnone]
    constructor
    · rintro ⟨rfl, hagree⟩
      obtain ⟨x₃, hx₃, ht₃⟩ := total_writeEncrypted (s := s₁.withFaults []) hfind₁ hp₁ hretry
      obtain ⟨x₂, hx₂, ht₂⟩ := total_writeEncrypted (s := s.withFaults []) hfind hp hgood
      have := hagree.total_eq hx₃ hx₂
      exact (hst.total_iff hp).mp (by omega)
    · intro hrep
      have hst' : Refused dev it data (firstRefused fs) (s.withFaults []).flash it₁
          (s₁.withFaults []).flash := hst
      obtain ⟨t, ht, hagree⟩ := hst'.repeats hrep hfind rfl hfind₁ rfl hgood
      obtain ⟨rfl, rfl⟩ := Prod.mk.inj (ht.symm.trans hretry)
      exact ⟨rfl, hagree⟩

/-- The encrypted stream with one byte in the block of its handle. -/
def oneCarried : OpsState := streamed (some xorCipher) [[0xe9#8]]

/-- The next chunk of it. -/
def nextChunk : List Byte := (List.range 31).map (BitVec.ofNat 8)

/-- The state after the driver has refused the chunk, and after one that it has written. -/
def refusedOnce : OpsState :=
  (espOtaWrite (factoryBoard (some xorCipher)) 1 nextChunk (oneCarried.withFaults [some 1])).2

def atOnce : OpsState :=
  (espOtaWrite (factoryBoard (some xorCipher)) 1 nextChunk (oneCarried.withFaults [])).2

def repeated : OpsState :=
  (espOtaWrite (factoryBoard (some xorCipher)) 1 nextChunk (refusedOnce.withFaults [])).2

/-- The repetition writes the first bytes of the chunk a second time. -/
theorem chunk_duplicated :
    espOtaWrite (factoryBoard (some xorCipher)) 1 nextChunk (oneCarried.withFaults [some 1]) =
        (.error (.err (.flash 1)), refusedOnce) ∧
      espOtaWrite (factoryBoard (some xorCipher)) 1 nextChunk (oneCarried.withFaults []) =
        (.ok (), atOnce) ∧
      espOtaWrite (factoryBoard (some xorCipher)) 1 nextChunk (refusedOnce.withFaults []) =
        (.ok (), repeated) ∧
      (factoryBoard (some xorCipher)).view repeated.flash (slot0.offset + 16) = 0x00#8 ∧
      (factoryBoard (some xorCipher)).view atOnce.flash (slot0.offset + 16) = 0x0f#8 ∧
      ¬ Agree 1 repeated atOnce :=
  ⟨Prod.ext (by decide +kernel) rfl, Prod.ext (by decide +kernel) rfl,
    Prod.ext (by decide +kernel) rfl, by decide +kernel, by decide +kernel, fun h =>
      absurd (congrFun h.flash (slot0.offset + 16)) (by decide +kernel)⟩

/-- A chunk of a whole block. -/
def blockChunk : List Byte := 0xe9#8 :: List.replicate 15 0x11#8

/-- The states after this chunk was refused, after it was written at once and after it was
repeated. -/
def blockRefused : OpsState :=
  (espOtaWrite (factoryBoard (some xorCipher)) 1 blockChunk
    ((opened (some xorCipher)).withFaults [some 1])).2

def blockAtOnce : OpsState :=
  (espOtaWrite (factoryBoard (some xorCipher)) 1 blockChunk
    ((opened (some xorCipher)).withFaults [])).2

def blockRepeated : OpsState :=
  (espOtaWrite (factoryBoard (some xorCipher)) 1 blockChunk (blockRefused.withFaults [])).2

/-- A chunk of whole blocks after whole blocks can be repeated. -/
theorem chunk_repeated : Agree 1 blockRepeated blockAtOnce := by
  have hreach : OpsReachable (factoryBoard (some xorCipher)) (fun _ _ => true)
      (opened (some xorCipher)) :=
    ⟨idle, rfl, .single (.begin idle [] slot0 otaSizeUnknown)⟩
  have hfind : findEntry 1 (opened (some xorCipher)).entries =
      some ⟨1, slot0, slot0.size, 0, 0, fun _ => 0⟩ := rfl
  have hfail : espOtaWrite (factoryBoard (some xorCipher)) 1 blockChunk
      ((opened (some xorCipher)).withFaults [some 1]) =
        (.error (.err (.flash 1)), blockRefused) := rfl
  have hgood : espOtaWrite (factoryBoard (some xorCipher)) 1 blockChunk
      ((opened (some xorCipher)).withFaults []) = (.ok (), blockAtOnce) := rfl
  have hretry : espOtaWrite (factoryBoard (some xorCipher)) 1 blockChunk
      (blockRefused.withFaults []) = (.ok (), blockRepeated) := rfl
  exact ((retry_same_iff hreach hfind hfail hgood hretry).mpr
    (Or.inr ⟨Or.inl rfl, Or.inl (by decide)⟩)).2

end EspIdf.Ota
