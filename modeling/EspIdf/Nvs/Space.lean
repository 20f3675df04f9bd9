/-
# Running out of space

With three free pages a write of a value, or of a blob that fits into one page, finds room: it
closes the current page and the one after it at most.  The exception is an empty blob while the
current page has no room for data: the loop over the chunks gives up before it closes the page.
-/
import EspIdf.Nvs.Entries
import EspIdf.Nvs.PageLists

namespace EspIdf.Nvs

open EspIdf.Lib Prog PageManager Storage

variable {α : Type} {s s' : Partition} {ns ci : Byte} {T : ItemType} {key data : List Byte}
  {start : VerOffset} {n page : ℕ}

/-! ### Free pages -/

/-- At least `n` pages are free. -/
structure Spare (n : ℕ) (s : Partition) : Prop extends Lists s where
  le : n ≤ s.freePageList.length

/-- The current page has just been activated. -/
def Fresh (s : Partition) : Prop := (s.pages (back s)).state = .uninitialized

lemma Spare.mono {m : ℕ} (h : Spare n s) (hm : m ≤ n) : Spare m s := ⟨h.toLists, hm.trans h.le⟩

lemma Calm.spare (h : Calm s s') (hs : Spare n s) : Spare n s' :=
  ⟨Calm.lists h hs.toLists, by rw [h.freePageList]; exact hs.le⟩

/-- A calm program does not run out of space. -/
lemma triple_calms {m : NvsM α} (h : Calms m) :
    Triple (Spare n) m (fun _ => Spare n) fun x _ => x ∉ noSpace :=
  (h.triple fun _ _ hs hc => Calm.spare hc hs).conseq (fun _ h => h) (fun _ _ h => h)
    fun _ _ h => h.2

lemma ne_of_not_noSpace {x : Exit} (h : x ∉ noSpace) : x ≠ .code .notEnoughSpace :=
  fun he => h (.inr he)

/-- A calm program keeps the free pages. -/
lemma triple_calms_fits {m : NvsM α} (h : Calms m) :
    Triple (Spare n) m (fun _ => Spare n) fun x _ => x ≠ .code .notEnoughSpace :=
  (triple_calms h).conseq (fun _ h => h) (fun _ _ h => h) fun _ _ h => ne_of_not_noSpace h

lemma tailroom_fresh (h : Fresh s) : tailroom s = chunkMaxSize := if_pos h

/-- With two free pages the current page is closed and a new one is activated. -/
lemma triple_switchPage (page : ℕ) : Triple (Spare (n + 2)) (switchPage page)
    (fun _ s => Spare (n + 1) s ∧ Fresh s) fun x _ => x ∉ noSpace := by
  intro s hs
  refine Triple.bind (P := ListsAre s.pageList s.freePageList)
    ((triple_markFull page).conseq (fun _ h => h) (fun _ _ h => h) fun x t ht => ?_)
    (fun _ => ((triple_requestNewPage (by have := hs.le; omega)).conseq (fun _ h => h)
      (fun _ t ht => ?_) fun _ _ h => h.elim)) s (.of_lists hs.toLists)
  · rw [ht.2]
    exact not_mem_noSpace (by decide)
  · obtain ⟨q, rest, hfree, ht, hfresh⟩ := ht
    have hlen := hs.le
    rw [hfree, List.length_cons] at hlen
    refine ⟨⟨ht.lists, by rw [ht.free_eq]; omega⟩, ?_⟩
    rw [Fresh, back, ht.used_eq, List.getLastD_concat]
    exact hfresh

/-! ### Writing to a page -/

namespace Page

lemma triple_tames {m : PageM α} (h : Tames m) :
    Triple (fun _ => True) m (fun _ _ => True) fun x _ => x ∉ noSpace :=
  (h.triple fun _ _ _ _ => trivial).conseq (fun _ h => h) (fun _ _ h => h) fun _ _ h => h.2

lemma tames_writeEntries (ns : Byte) (T : ItemType) (key data : List Byte) (ci : Byte) :
    Tames (writeEntries ns T key data ci) := by
  have hdata : ∀ bs, Tames (writeEntryData bs) := fun bs =>
    .bind .get fun _ => .bind (tames_assert _) fun _ => .bind (tames_assert _) fun _ =>
      .bind (tames_assert _) fun _ => .bind (tames_assert _) fun _ =>
        .bind (tames_nvsFlashWrite _ _) fun _ => .bind (tames_alterEntryRangeState _ _ _) fun _ =>
          tames_modifyPage fun _ => ⟨rfl, Nat.le_add_right _ _⟩
  refine .bind .get fun c => .bind (tames_insertHash _ _) fun _ => .ite (fun _ => ?_) fun _ =>
    tames_writeEntry _
  exact .bind (tames_writeEntry _) fun _ =>
    .bind (.ite (fun _ => hdata _) fun _ => .pure _) fun _ =>
      .ite (fun _ => tames_writeEntry _) fun _ => .pure _

/-- The page is active and empty afterwards, if it has not been written to. -/
lemma triple_ensureInitialized : Triple (fun _ => True) ensureInitialized (fun _ _ => True)
    (fun x _ => x ∉ noSpace) ∧
    Triple (fun c => c.page.state = .uninitialized) ensureInitialized
      (fun _ c => c.page.state = .active ∧ c.page.nextFreeEntry = 0) fun x _ => x ∉ noSpace := by
  have hinit : Triple (fun _ => True) initializePage
      (fun _ c => c.page.state = .active ∧ c.page.nextFreeEntry = 0) fun x _ => x ∉ noSpace := by
    refine .get_bind fun c _ => .bind (triple_tames (tames_assert _)) fun _ => ?_
    refine .bind (Q := fun _ c => c.page.state = .active) (.modify fun _ _ => rfl) fun _ => ?_
    refine .bind (Q := fun _ c => c.page.state = .active)
      ((tames_spiFlashWrite _ _).triple (fun c c' hc htame => htame.state.trans hc)
        |>.conseq (fun _ h => h) (fun _ _ h => h) fun _ _ h => h.2) fun _ => ?_
    exact .modify fun c hc => ⟨hc, rfl⟩
  constructor
  · exact .get_bind fun c _ => .ite
      (fun _ => hinit.conseq (fun _ _ => trivial) (fun _ _ _ => trivial) fun _ _ h => h)
      fun _ => .pure fun _ _ => trivial
  · refine .get_bind_eq fun c hc => ?_
    rw [if_pos hc]
    exact hinit.conseq (fun _ _ => trivial) (fun _ _ h => h) fun _ _ h => h

/-- A page does not return the code of a partition without space. -/
lemma triple_writeItem (ns : Byte) (T : ItemType) (key data : List Byte) (ci : Byte) :
    Triple (fun _ => True) (writeItem ns T key data ci) (fun _ _ => True)
      fun x _ => x ≠ .code .notEnoughSpace := by
  refine .get_bind fun c _ => .ite (fun _ => .throw fun _ _ => by decide) fun _ => ?_
  refine .bind (triple_ensureInitialized.1.conseq (fun _ h => h) (fun _ _ h => h)
    fun _ _ h => ne_of_not_noSpace h) fun _ => .get_bind fun c' _ => ?_
  refine .ite (fun _ => .throw fun _ _ => by decide) fun _ =>
    .ite (fun _ => .throw fun _ _ => by decide) fun _ =>
    .ite (fun _ => .throw fun _ _ => by decide) fun _ =>
    .ite (fun _ => .throw fun _ _ => by decide) fun _ =>
    .ite (fun _ => .throw fun _ _ => by decide) fun _ => ?_
  exact (triple_tames (tames_writeEntries ns T key data ci)).conseq (fun _ h => h)
    (fun _ _ h => h) fun _ _ h => ne_of_not_noSpace h

/-- A page that has not been written to has room for what may be on a page at all. -/
lemma triple_writeItem_fresh (ns : Byte) (T : ItemType) (key data : List Byte) (ci : Byte) :
    Triple (fun c => c.page.state = .uninitialized) (writeItem ns T key data ci)
      (fun _ _ => True) fun x _ => x ∉ noSpace := by
  refine .get_bind_eq fun c hc => ?_
  rw [if_neg (by rw [hc]; decide)]
  refine .bind (triple_ensureInitialized.2.conseq (fun _ h => h ▸ hc) (fun _ _ h => h)
    fun _ _ h => h) fun _ => .get_bind_eq fun c' hc' => ?_
  rw [if_neg (by rw [hc'.1]; decide)]
  refine .ite (fun _ => .throw fun _ _ => not_mem_noSpace (by decide)) fun _ =>
    .ite (fun _ => .throw fun _ _ => not_mem_noSpace (by decide)) fun hsize =>
    .ite (fun _ => .throw fun _ _ => not_mem_noSpace (by decide)) fun _ => ?_
  have hroom : ¬ (c'.page.nextFreeEntry = invalidEntry ∨
      entryCount < c'.page.nextFreeEntry + entriesFor T data) := by
    rw [hc'.2, entriesFor]
    simp only [chunkMaxSize, entrySize, entryCount, invalidEntry] at hsize ⊢
    split <;> omega
  rw [if_neg hroom]
  exact (triple_tames (tames_writeEntries ns T key data ci)).conseq (fun _ _ => trivial)
    (fun _ _ h => h) fun _ _ h => h

end Page

/-- A program of one page. -/
lemma triple_onPage {m : PageM α} {P : PageCtx → Prop} {E : Exit → Prop} {i : ℕ}
    (h : Triple P m (fun _ _ => True) fun x _ => E x) :
    Triple (fun s => P (s.ctx i)) (onPage i m) (fun _ _ => True) fun x _ => E x := by
  intro s hs
  have := h (s.ctx i) hs
  unfold onPage
  cases hrun : m (s.ctx i) with
  | mk r c =>
    rw [hrun] at this
    cases r with
    | ok a => trivial
    | error e => exact this

/-- A program of the current page keeps the free pages. -/
lemma triple_onBack {m : PageM α} {E : Exit → Prop} {P : PageCtx → Prop} (hs : Spare n s)
    (hP : P (s.ctx (back s))) (h : Triple P m (fun _ _ => True) fun x _ => E x) :
    Triple (fun t => t = s) (onPage (back s) m) (fun _ => Spare n) fun x t => Spare n t ∧ E x := by
  have hkeep : ∀ t, ListsAre s.pageList s.freePageList t → Spare n t := fun t ht =>
    ⟨ht.lists, by rw [ht.free_eq]; exact hs.le⟩
  refine ((keepsThese_onPage m hs.back_mem).and (triple_onPage h)).conseq
    (fun t ht => ?_) (fun _ t ht => hkeep t ht.1) fun _ t ht => ⟨hkeep t ht.1, ht.2⟩
  rw [ht]
  exact ⟨.of_lists hs.toLists, hP⟩

/-! ### Values -/

lemma triple_assert {σ : Type} {P : σ → Prop} {E : Exit → σ → Prop} {p : Prop} [Decidable p]
    (hE : ∀ s, P s → E .assertion s) : Triple P (assert p) (fun _ s => p ∧ P s) E :=
  .ite (fun h => .pure fun _ hs => ⟨h, hs⟩) fun _ => .throw hE

namespace Storage

lemma triple_writeToCurrent : Triple (Spare (n + 2)) (writeToCurrent ns T key data)
    (fun _ => Spare (n + 1)) fun x _ => x ≠ .code .notEnoughSpace := by
  refine .get_bind_eq fun s hs => ?_
  refine .bind ((triple_attempt (triple_onBack hs (P := fun _ => True) trivial
    (Page.triple_writeItem ns T key data chunkAny))).conseq (fun _ h => h) (fun _ _ h => h)
    fun _ _ h => h.2) fun r => ?_
  cases r with
  | ok _ => exact .pure fun t ht => Spare.mono ht (Nat.le_succ _)
  | error e =>
    refine .ite (fun _ => ?_) fun _ => .throw fun t ht => ht.2
    refine .bind ((triple_switchPage (back s)).conseq (fun t ht => ht.1) (fun _ _ h => h)
      fun _ _ h => ne_of_not_noSpace h) fun _ => .get_bind_eq fun s' hs' => ?_
    refine .bind ((triple_attempt (triple_onBack hs'.1 hs'.2
      (Page.triple_writeItem_fresh ns T key data chunkAny))).conseq (fun _ h => h) (fun _ _ h => h)
      fun _ _ h => ne_of_not_noSpace h.2) fun r => ?_
    cases r with
    | ok _ => exact .pure fun t ht => ht
    | error e =>
      refine .throw fun t ht => ?_
      rw [if_neg fun he => ht.2 (.inl (by rw [he]))]
      exact ne_of_not_noSpace ht.2

lemma triple_writeValue : Triple (Spare (n + 2)) (writeValue ns T key data) (fun _ _ => True)
    fun x _ => x ≠ .code .notEnoughSpace := by
  refine .bind (triple_calms_fits (calms_findItem _)) fun found => ?_
  cases found with
  | none =>
    exact triple_writeToCurrent.conseq (fun _ h => h) (fun _ _ _ => trivial) fun _ _ h => h
  | some found =>
    refine .bind (triple_calms_fits (confined_attempt (calms_onPage (Page.tames_cmpItem _ data) _)))
      fun same => ?_
    cases same with
    | ok _ => exact .pure fun _ _ => trivial
    | error _ =>
      exact .bind triple_writeToCurrent fun _ => (triple_calms_fits (calms_eraseOld _ _ _ _)).conseq
        (fun _ h => h) (fun _ _ _ => trivial) fun _ _ h => h

/-! ### Blobs -/

/-- A code that is returned is not one of missing room. -/
def Roomy (rc : Option Err) : Prop := ∀ e, rc = some e → Exit.code e ∉ noSpace

lemma roomy_none : Roomy none := fun _ h => by cases h

lemma triple_writeBlobItem_roomy (hs : Spare n s) : Triple (fun t => t = s)
    (writeBlobItem (back s) ns T key data ci) (fun rc t => Roomy rc ∧ Spare n t)
      fun x _ => x ∉ noSpace := by
  refine .bind (Q := fun r t => Spare n t ∧ ∀ e, r = .error e → e ≠ .notEnoughSpace) ?_ fun r => ?_
  · intro t ht
    have hrun := triple_onBack hs (P := fun _ => True) trivial
      (Page.triple_writeItem ns T key data ci) t ht
    unfold attempt
    cases hm : onPage (back s) (Page.writeItem ns T key data ci) t with
    | mk r t' =>
      rw [hm] at hrun
      rcases r with (e | - | -) | a
      · exact ⟨hrun.1, fun e' he => by cases he; exact fun he => hrun.2 (by rw [he])⟩
      · exact not_mem_noSpace (by decide)
      · exact not_mem_noSpace (by decide)
      · exact ⟨hrun, fun e' he => by cases he⟩
  · cases r with
    | ok _ => exact .pure fun t ht => ⟨roomy_none, ht.1⟩
    | error e =>
      refine .bind (triple_assert fun _ _ => not_mem_noSpace (by decide)) fun _ =>
        .pure fun t ht => ⟨fun e' he => ?_, ht.2.1⟩
      cases he
      exact not_mem_noSpace (by
        rintro (he | he)
        · exact ht.1 (Exit.code.inj he)
        · exact ht.2.2 e rfl (Exit.code.inj he))

lemma triple_closeAfterChunk (page remaining room : ℕ) : Triple (Spare (n + 2))
    (closeAfterChunk page remaining room)
    (fun rc t => Roomy rc ∧ (rc = none → Spare (n + 1) t ∧ (remaining ≠ 0 → Fresh t)))
      fun x _ => x ∉ noSpace := by
  refine .ite (fun _ => ?_) fun hnot => .pure fun t ht => ⟨roomy_none, fun _ =>
    ⟨ht.mono (Nat.le_succ _), fun hne => absurd (.inl hne) hnot⟩⟩
  refine .bind (triple_attempt (triple_switchPage page)) fun r => ?_
  cases r with
  | ok _ => exact .pure fun t ht => ⟨roomy_none, fun _ => ⟨ht.1, fun _ => ht.2⟩⟩
  | error e =>
    exact .pure fun t ht => ⟨fun e' he => by cases he; exact ht, fun he => by cases he⟩

/-- A pass of the loop of `writeMultiPageBlob` that writes a chunk, and what follows it. -/
def chunkPass (ns : Byte) (key data : List Byte) (start : VerOffset) (page room n : ℕ)
    (usedPages : List ℕ) (offset : ℕ) (next : NvsM (Option Err × List ℕ)) :
    NvsM (Option Err × List ℕ) := do
  let chunkSize := min room (data.length - offset)
  let rc ← writeBlobItem page ns .blobData key ((data.drop offset).take chunkSize) (chunkAt start n)
  if rc ≠ none then pure (rc, usedPages)
  else do
    let remaining := data.length - offset - chunkSize
    let rc ← closeAfterChunk page remaining (room - chunkSize)
    if rc ≠ none then pure (rc, usedPages ++ [page])
    else if remaining = 0 then do
      let s ← Prog.get
      let rc ← writeBlobItem (back s) ns .blobIdx key (blobIndexData data.length (n + 1) start)
        chunkAny
      pure (rc, usedPages ++ [page])
    else next

lemma writeChunks_succ (fuel : ℕ) (usedPages : List ℕ) (offset : ℕ) :
    writeChunks ns key data start (fuel + 1) n usedPages offset =
      (Prog.get >>= fun s : Partition =>
        if n = 0 ∧ tailroom s < data.length ∧ tailroom s < chunkMaxSize / 10 then do
          switchPage (back s)
          let s' ← Prog.get
          if tailroom s' = tailroom s then fail Err.notEnoughSpace
          else writeChunks ns key data start fuel n usedPages offset
        else if tailroom s = 0 then pure (some Err.notEnoughSpace, usedPages)
        else chunkPass ns key data start (back s) (tailroom s) n usedPages offset
          (writeChunks ns key data start fuel ((n + 1) % 256) (usedPages ++ [back s])
            (offset + min (tailroom s) (data.length - offset)))) := rfl

lemma triple_chunkPass {room offset k : ℕ} {usedPages : List ℕ}
    {next : NvsM (Option Err × List ℕ)} (hs : Spare (n + 2) s)
    (hnext : data.length - offset - min room (data.length - offset) ≠ 0 →
      Triple (fun t => Spare (n + 1) t ∧ Fresh t) next (fun r _ => Roomy r.1)
        fun x _ => x ∉ noSpace) :
    Triple (fun t => t = s) (chunkPass ns key data start (back s) room k usedPages offset next)
      (fun r _ => Roomy r.1) fun x _ => x ∉ noSpace := by
  refine .bind (triple_writeBlobItem_roomy hs) fun rc => .ite (fun _ => .pure fun t ht => ht.1)
    fun _ => ?_
  refine .bind ((triple_closeAfterChunk _ _ _).conseq (fun t ht => ht.2) (fun _ _ h => h)
    fun _ _ h => h) fun rc' => .ite (fun _ => .pure fun t ht => ht.1) fun hnone => ?_
  refine .ite (fun _ => .get_bind_eq fun t ht => ?_) fun hne =>
    (hnext hne).conseq (fun t ht => ?_) (fun _ _ h => h) fun _ _ h => h
  · exact .bind (triple_writeBlobItem_roomy (ht.2 (not_not.mp hnone)).1) fun rc =>
      .pure fun t ht => ht.1
  · obtain ⟨hspare, hfresh⟩ := ht.2 (not_not.mp hnone)
    exact ⟨hspare, hfresh hne⟩

/-- What is left of the blob is written to a page that has just been activated. -/
lemma triple_writeChunks_fresh {fuel k offset : ℕ} {usedPages : List ℕ}
    (hlen : data.length ≤ chunkMaxSize) : Triple (fun t => Spare 2 t ∧ Fresh t)
      (writeChunks ns key data start (fuel + 1) k usedPages offset) (fun r _ => Roomy r.1)
        fun x _ => x ∉ noSpace := by
  rw [writeChunks_succ]
  refine .get_bind_eq fun s hs => ?_
  rw [tailroom_fresh hs.2, if_neg (by omega), if_neg (by decide)]
  exact triple_chunkPass hs.1 fun hne => absurd (by omega) hne

/-- The exception is an empty blob on a page without room. -/
lemma triple_writeChunks {fuel : ℕ} (hlen : data.length ≤ chunkMaxSize) :
    Triple (fun t => Spare 3 t ∧ (data = [] → tailroom t ≠ 0))
      (writeChunks ns key data start (fuel + 2) 0 [] 0) (fun r _ => Roomy r.1)
        fun x _ => x ∉ noSpace := by
  rw [writeChunks_succ]
  refine .get_bind_eq fun s hs => .ite (fun hsmall => ?_) fun hbig => .ite (fun hzero => ?_)
    fun _ => ?_
  · refine .bind ((triple_switchPage (back s)).conseq (fun t ht => by rw [ht]; exact hs.1)
      (fun _ _ h => h) fun _ _ h => h) fun _ => .get_bind_eq fun s' hs' => ?_
    rw [tailroom_fresh hs'.2, if_neg]
    · exact (triple_writeChunks_fresh hlen).conseq (fun t ht => ht ▸ hs') (fun _ _ h => h)
        fun _ _ h => h
    · intro he
      have hlt := hsmall.2.2
      rw [← he] at hlt
      exact absurd hlt (by decide)
  · have hempty : data.length = 0 := by
      by_contra hne
      exact hbig ⟨rfl, by omega, by rw [hzero]; decide⟩
    exact absurd hzero (hs.2 (List.length_eq_zero_iff.mp hempty))
  · exact triple_chunkPass hs.1 fun _ => triple_writeChunks_fresh hlen

lemma triple_writeMultiPageBlob (hlen : data.length ≤ chunkMaxSize) :
    Triple (fun t => Spare 3 t ∧ (data = [] → tailroom t ≠ 0))
      (writeMultiPageBlob ns key data start) (fun _ _ => True) fun x _ => x ∉ noSpace := by
  refine .get_bind_eq fun s hs => .ite (fun _ => .throw fun _ _ => not_mem_noSpace (by decide))
    fun _ => ?_
  refine .bind ((triple_writeChunks hlen).conseq (fun t ht => ht ▸ hs) (fun _ _ h => h)
    fun _ _ h => h) fun r => ?_
  obtain ⟨rc, usedPages⟩ := r
  cases rc with
  | none => exact .pure fun _ _ => trivial
  | some e =>
    refine .bind (Q := fun _ _ => Exit.code e ∉ noSpace) ?_ fun _ => .throw fun _ h => h
    intro t ht
    have := calms_rollBack ns key usedPages 0 t
    cases hrun : rollBack ns key 0 usedPages t with
    | mk r t' =>
      rw [hrun] at this
      cases r with
      | ok _ => exact ht e rfl
      | error x => exact this.2 x rfl

/-! ### What is looked up before a blob is written -/

/-- The version under which `writeItem` writes a blob and the version that it erases afterwards,
if there is one; nothing if the blob is stored already. -/
def blobVersions (nsIndex : Byte) (key data : List Byte) :
    NvsM (Option (VerOffset × Option VerOffset)) := do
  checkActive
  let found ← findItem (indexQuery nsIndex key verAny)
  match found with
  | none => pure (some (ver0, none))
  | some found => do
    let same ← attempt (cmpMultiPageBlob nsIndex key data)
    match same with
    | .ok () => pure none
    | .error _ => do
      let (_, it) ← refind nsIndex key found
      assert (it.chunkStart = ver0 ∨ it.chunkStart = ver1)
      pure (some (if it.chunkStart = ver1 then ver0 else ver1, some it.chunkStart))

/-- Erase what a blob has replaced: its other version, or an item of the first format. -/
def eraseReplacedBlob (nsIndex : Byte) (key : List Byte) : Option VerOffset → NvsM Unit
  | some old => eraseMultiPageBlob nsIndex key old
  | none => do
    let found ← findItem (valueQuery nsIndex .blob key)
    match found with
    | none => pure ()
    | some (page, _) => eraseOld nsIndex .blob key page

/-- The rest of `writeItem` of a blob. -/
def writeVersion (nsIndex : Byte) (key data : List Byte) :
    Option (VerOffset × Option VerOffset) → NvsM Unit
  | none => pure ()
  | some (start, old) => do
    pageFullToNotEnough (writeMultiPageBlob nsIndex key data start)
    eraseReplacedBlob nsIndex key old

lemma writeItem_blob :
    writeItem ns .blob key data = blobVersions ns key data >>= writeVersion ns key data := by
  rw [writeItem, blobVersions, bind_bind]
  congr 1
  funext _
  rw [if_pos rfl, writeBlob, bind_bind]
  congr 1
  funext found
  cases found with
  | none => rfl
  | some found =>
    dsimp only
    rw [bind_bind]
    congr 1
    funext same
    cases same with
    | ok _ => rfl
    | error _ =>
      dsimp only
      rw [replaceBlob, bind_bind]
      congr 1
      funext again
      obtain ⟨page, it⟩ := again
      dsimp only
      rw [bind_bind]
      rfl

lemma calms_blobVersions : Calms (blobVersions ns key data) :=
  .bind calms_checkActive fun _ => .bind (calms_findItem _) fun found => by
    cases found with
    | none => exact .pure _
    | some found =>
      refine .bind (confined_attempt (calms_cmpMultiPageBlob ns key data)) fun same => ?_
      cases same with
      | ok _ => exact .pure _
      | error _ =>
        exact .bind (calms_refind ns key _) fun _ => .bind (calms_assert _) fun _ => .pure _

lemma calms_eraseReplacedBlob (old : Option VerOffset) :
    Calms (eraseReplacedBlob ns key old) := by
  cases old with
  | some start => exact calms_eraseMultiPageBlob ns key start
  | none => exact calms_found (.pure _) fun page _ => calms_eraseOld ns key .blob page

/-- The lookups of an empty blob call for a write while the current page has no room for data. -/
def EmptyBlobStuck (nsIndex : Byte) (key : List Byte) (s : Partition) : Prop :=
  ∃ v s', blobVersions nsIndex key [] s = (.ok (some v), s') ∧ tailroom s' = 0

/-- A calm program that is run from one state. -/
lemma triple_calms_from {m : NvsM α} (h : Calms m) (hs : Spare n s) : Triple (fun t => t = s) m
    (fun a t => Spare n t ∧ m s = (.ok a, t)) fun x _ => x ≠ .code .notEnoughSpace := by
  rintro t rfl
  have hrun := triple_calms_fits h t hs
  cases hm : m t with
  | mk r t' =>
    rw [hm] at hrun
    cases r with
    | ok a => exact ⟨hrun, rfl⟩
    | error x => exact hrun

/-- A write that has left with another code than the ones of missing room leaves with this code. -/
lemma triple_pageFullToNotEnough_roomy {P : Partition → Prop} {m : NvsM α}
    {Q : α → Partition → Prop} (h : Triple P m Q fun x _ => x ∉ noSpace) :
    Triple P (pageFullToNotEnough m) Q fun x _ => x ≠ .code .notEnoughSpace := by
  refine .bind ((triple_attempt h).conseq (fun _ h => h) (fun _ _ h => h)
    fun _ _ h he => h (.inr he)) fun r => ?_
  cases r with
  | ok _ => exact .pure fun _ h => h
  | error e =>
    refine .throw fun _ h => ?_
    rw [if_neg fun he => h (.inl (by rw [he]))]
    exact fun he => h (.inr he)

lemma triple_writeBlob (hs : Spare 3 s) (hlen : data.length ≤ chunkMaxSize)
    (hnot : data = [] → ¬ EmptyBlobStuck ns key s) :
    Triple (fun t => t = s) (Storage.writeItem ns .blob key data) (fun _ _ => True)
      fun x _ => x ≠ .code .notEnoughSpace := by
  rw [writeItem_blob]
  refine .bind (triple_calms_from calms_blobVersions hs) fun v => ?_
  cases v with
  | none => exact .pure fun _ _ => trivial
  | some v =>
    have hroom : ∀ t, Spare 3 t ∧ blobVersions ns key data s = (.ok (some v), t) →
        Spare 3 t ∧ (data = [] → tailroom t ≠ 0) := fun t ht =>
      ⟨ht.1, fun he hz => hnot he ⟨v, t, by rw [← ht.2, he], hz⟩⟩
    refine .bind (triple_pageFullToNotEnough_roomy
      ((triple_writeMultiPageBlob hlen).conseq hroom (fun _ _ h => h) fun _ _ h => h)) fun _ => ?_
    exact ((calms_eraseReplacedBlob v.2).triple fun _ _ _ _ => trivial).conseq (fun _ h => h)
      (fun _ _ h => h) fun _ _ h he => h.2 (.inr he)

/-- On a page without room the loop over the chunks of an empty blob ends at once. -/
lemma writeMultiPageBlob_stuck (hroom : tailroom s = 0) :
    writeMultiPageBlob ns key [] start s = (.error (.code .notEnoughSpace), s) := by
  have hloop : writeChunks ns key [] start 4 0 [] 0 s =
      (.ok (some Err.notEnoughSpace, []), s) := by
    rw [writeChunks_succ, get_bind, if_neg (by simp), if_pos hroom]
    rfl
  rw [writeMultiPageBlob, get_bind, if_neg (by simp)]
  exact bind_ok hloop

end Storage

/-! ### A new partition -/

/-- The objects of a partition whose flash has not been written to. -/
def newPartition : Partition where
  flash := fun _ _ => 0xff
  log := []
  xts := []
  pages := Page.new
  pageList := []
  freePageList := []
  seqNumber := 0
  baseSector := 0
  pageCount := 0
  namespaces := []
  namespaceUsage := fun _ => 0
  state := .invalid

/-- Four new pages after the initialisation. -/
def initialised : Partition := (Storage.init 0 4 newPartition).2

lemma returned {m : NvsM α} {a : α} (h : (m s).1 = .ok a) : m s = (.ok a, (m s).2) :=
  Prod.ext h rfl

lemma run_initialised : (Storage.init 0 4 newPartition).1 = .ok () ∧
    3 ≤ initialised.freePageList.length := by decide +kernel

lemma reachable_initialised : Reachable initialised := by
  unfold initialised
  exact .init newPartition _ 0 4 (returned run_initialised.1)

/-! ### Three free pages -/

/-- With three free pages there is room for every value and for every blob that fits into one
chunk, but for an empty blob while the current page has no room for data. -/
theorem Reachable.writeItem_room_iff (hs : Reachable s) (hfree : 3 ≤ s.freePageList.length)
    (hdata : T = .blob → data.length ≤ 4000) :
    (Storage.writeItem ns T key data s).1 ≠ .error (.code .notEnoughSpace) ↔
      ¬ (T = .blob ∧ data = [] ∧ EmptyBlobStuck ns key s) := by
  have hspare : Spare 3 s := ⟨hs.lists, hfree⟩
  constructor
  · rintro hroom ⟨rfl, rfl, v, s', hrun, hzero⟩
    apply hroom
    rw [writeItem_blob, bind_ok hrun]
    have hwrite : pageFullToNotEnough (writeMultiPageBlob ns key [] v.1) s' =
        (.error (.code .notEnoughSpace), s') := by
      rw [pageFullToNotEnough, bind_apply, attempt, writeMultiPageBlob_stuck hzero]
      rfl
    exact congrArg Prod.fst (bind_error hwrite)
  · intro hnot
    have htriple : Triple (fun t => t = s) (Storage.writeItem ns T key data) (fun _ _ => True)
        fun x _ => x ≠ .code .notEnoughSpace := by
      by_cases hT : T = .blob
      · subst hT
        exact triple_writeBlob hspare (hdata rfl) fun he hstuck => hnot ⟨rfl, he, hstuck⟩
      · refine .bind (triple_calms_from calms_checkActive hspare) fun _ => ?_
        rw [if_neg hT]
        exact triple_writeValue.conseq (fun _ h => h.1) (fun _ _ h => h) fun _ _ h => h
    have := htriple s rfl
    cases hrun : Storage.writeItem ns T key data s with
    | mk r s' =>
      rw [hrun] at this
      cases r with
      | ok _ =>
        intro he
        cases he
      | error x => exact fun he => this (Except.error.inj he)

theorem writeItem_room_new : 3 ≤ initialised.freePageList.length ∧
    ((Storage.writeItem 1 .blob [0x62, 0] [] initialised).1 ≠ .error (.code .notEnoughSpace) ↔
      ¬ (ItemType.blob = .blob ∧ ([] : List Byte) = [] ∧
        EmptyBlobStuck 1 [0x62, 0] initialised)) :=
  ⟨run_initialised.2, reachable_initialised.writeItem_room_iff run_initialised.2
    fun _ => Nat.zero_le _⟩

/-! ### An empty blob behind a full page -/

/-- A string of 4000 bytes. -/
def longString : List Byte := List.replicate 3999 0x61 ++ [0]

/-- The string takes all the entries of the first page. -/
def filled : Partition := (Storage.writeItem 1 .sz [0x6b, 0] longString initialised).2

lemma run_filled : (Storage.writeItem 1 .sz [0x6b, 0] longString initialised).1 = .ok () ∧
    filled.freePageList.length = 3 ∧
    (Storage.writeItem 1 .blob [0x62, 0] [] filled).1 = .error (.code .notEnoughSpace) := by
  decide +kernel

lemma reachable_filled : Reachable filled := by
  unfold filled
  exact .call initialised _ (.writeItem 1 .sz [0x6b, 0] longString) (.ok ()) reachable_initialised
    (attempt_ok (returned run_filled.1))

/-- With three free pages left the empty blob is refused. -/
theorem writeItem_no_room_filled : Reachable filled ∧ filled.freePageList.length = 3 ∧
    (Storage.writeItem 1 .blob [0x62, 0] [] filled).1 = .error (.code .notEnoughSpace) :=
  ⟨reachable_filled, run_filled.2⟩

example : longString.length = 4000 := by decide +kernel

end EspIdf.Nvs
