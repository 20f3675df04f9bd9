/-
# What lookups leave alone

A search may erase entries with a wrong checksum, and a read may erase an item with wrong data,
but no lookup changes the state of a page, makes room on it or moves a page from one list to
the other.  This holds for every content of the flash.
-/
import EspIdf.Lib.Confined
import EspIdf.Nvs.Storage

namespace EspIdf.Nvs

open EspIdf.Lib Prog

variable {α : Type}

/-! ### Control -/

section Control

variable {σ : Type} {R : σ → σ → Prop} {B : Set Exit}

lemma confined_assert [Std.Refl R] (hB : Exit.assertion ∉ B) (p : Prop) [Decidable p] :
    Confined R B (assert p) :=
  .ite (fun _ => .pure ()) fun _ => .throw hB

lemma confined_fail [Std.Refl R] {e : Err} (hB : Exit.code e ∉ B) :
    Confined R B (fail e : Prog σ Exit α) :=
  .throw hB

lemma confined_attempt {m : Prog σ Exit α} (h : Confined R B m) : Confined R B (attempt m) := by
  intro s
  obtain ⟨hR, hB⟩ := h s
  unfold attempt
  cases hrun : m s with
  | mk r s' =>
    rw [hrun] at hR hB
    rcases r with (e | - | -) | a
    · exact ⟨hR, fun _ he => nomatch he⟩
    · refine ⟨hR, fun e' he => ?_⟩
      cases he
      exact hB _ rfl
    · refine ⟨hR, fun e' he => ?_⟩
      cases he
      exact hB _ rfl
    · exact ⟨hR, fun _ he => nomatch he⟩

/-- The code that has been looked at is one with which the program may leave. -/
lemma confined_attempt_bind [IsTrans σ R] {β : Type} {m : Prog σ Exit α}
    {f : Except Err α → Prog σ Exit β} (h : Confined R B m) (hok : ∀ a, Confined R B (f (.ok a)))
    (herr : ∀ e, Exit.code e ∉ B → Confined R B (f (.error e))) :
    Confined R B (attempt m >>= f) := by
  refine (confined_attempt h).bind_of (φ := fun r => ∀ e, r = .error e → Exit.code e ∉ B)
    ?_ fun r hr => ?_
  · rintro s r s' hrun e rfl
    unfold attempt at hrun
    split at hrun
    · cases hrun
    · next e' s'' hm =>
      cases hrun
      exact (h.of_error hm).2
    · cases hrun
  · cases r with
    | ok a => exact hok a
    | error e => exact herr e (hr e rfl)

end Control

/-! ### Pages -/

/-- The codes of a page and of a partition without room. -/
def noSpace : Set Exit := {x | x = .code .pageFull ∨ x = .code .notEnoughSpace}

lemma not_mem_noSpace {x : Exit} (h : ¬ (x = .code .pageFull ∨ x = .code .notEnoughSpace)) :
    x ∉ noSpace := h

/-- The state of the page is the same, and its free entries have not become more. -/
structure Tame (c c' : PageCtx) : Prop where
  state : c'.page.state = c.page.state
  next : c.page.nextFreeEntry ≤ c'.page.nextFreeEntry

instance : IsPreorder PageCtx Tame where
  refl _ := ⟨rfl, le_rfl⟩
  trans _ _ _ h h' := ⟨h'.state.trans h.state, h.next.trans h'.next⟩

/-- A tame program of a page. -/
abbrev Tames (m : PageM α) : Prop := Confined Tame noSpace m

lemma tames_assert (p : Prop) [Decidable p] : Tames (assert p) :=
  confined_assert (not_mem_noSpace (by decide)) p

lemma tames_fail {e : Err} (h : Exit.code e ∉ noSpace) : Tames (fail e : PageM α) :=
  confined_fail h

lemma tames_modifyPage {f : Page → Page}
    (h : ∀ p, (f p).state = p.state ∧ p.nextFreeEntry ≤ (f p).nextFreeEntry) :
    Tames (modifyPage f) :=
  .modify fun c => ⟨(h c.page).1, (h c.page).2⟩

namespace Page

lemma tames_hang : Tames (Prog.throw .hang : PageM α) := .throw (not_mem_noSpace (by decide))

lemma tames_spiFlashRead (off n : ℕ) : Tames (spiFlashRead off n) :=
  .bind .get fun _ => .pure _

lemma tames_spiFlashWrite (off : ℕ) (bs : List Byte) : Tames (spiFlashWrite off bs) :=
  .modify fun _ => ⟨rfl, le_rfl⟩

lemma tames_nvsFlashWrite (off : ℕ) (bs : List Byte) : Tames (nvsFlashWrite off bs) := by
  refine .bind .get fun c => ?_
  dsimp only
  split
  · exact tames_spiFlashWrite _ _
  · exact .bind (tames_assert _) fun _ => tames_spiFlashWrite _ _

lemma tames_nvsFlashRead (off n : ℕ) : Tames (nvsFlashRead off n) := by
  refine .bind .get fun c => .bind (tames_spiFlashRead _ _) fun bs => ?_
  split
  · exact .pure _
  · exact .bind (tames_assert _) fun _ => .pure _

lemma tames_entryState (i : ℕ) : Tames (entryState i) :=
  .bind (tames_assert _) fun _ => .bind .get fun _ => .pure _

lemma tames_readEntry (i : ℕ) : Tames (readEntry i) :=
  .bind (tames_assert _) fun _ => .bind (tames_nvsFlashRead _ _) fun _ => .pure _

lemma tames_writeTableWord (k : ℕ) : Tames (writeTableWord k) :=
  .bind .get fun _ => tames_spiFlashWrite _ _

lemma tames_setEntryState (i : ℕ) (state : EntryState) : Tames (setEntryState i state) :=
  tames_modifyPage fun _ => ⟨rfl, le_rfl⟩

lemma tames_alterEntryState (i : ℕ) (state : EntryState) : Tames (alterEntryState i state) :=
  .bind (tames_assert _) fun _ => .bind (tames_setEntryState i state) fun _ =>
    tames_writeTableWord _

lemma tames_alterEntries (first : ℕ) (state : EntryState) :
    ∀ n, Tames (alterEntries first state n)
  | 0 => .pure ()
  | n + 1 => .bind (tames_setEntryState _ _) fun _ =>
      .bind (.ite (fun _ => tames_writeTableWord _) fun _ => .pure ()) fun _ =>
        tames_alterEntries first state n

lemma tames_alterEntryRangeState (first last : ℕ) (state : EntryState) :
    Tames (alterEntryRangeState first last state) :=
  .bind (tames_assert _) fun _ => .bind (tames_assert _) fun _ => tames_alterEntries _ _ _

lemma tames_writeEntry (it : Item) : Tames (writeEntry it) :=
  .bind .get fun _ => .bind (tames_assert _) fun _ => .bind (tames_nvsFlashWrite _ _) fun _ =>
    .bind (tames_alterEntryState _ _) fun _ => tames_modifyPage fun _ => ⟨rfl, Nat.le_succ _⟩

lemma tames_insertHash (it : Item) (i : ℕ) : Tames (insertHash it i) :=
  tames_modifyPage fun _ => ⟨rfl, le_rfl⟩

lemma tames_eraseHash (i : ℕ) (itemShouldExist : Bool) : Tames (eraseHash i itemShouldExist) :=
  .bind .get fun _ => .bind (tames_modifyPage fun _ => ⟨rfl, le_rfl⟩) fun _ => tames_assert _

/-! ### Erasing an entry -/

lemma tames_eraseBadEntry (index : ℕ) : Tames (eraseBadEntry index) :=
  .bind (tames_eraseHash _ _) fun _ => .bind (tames_alterEntryState _ _) fun _ =>
    .bind (tames_modifyPage fun _ => ⟨rfl, le_rfl⟩) fun _ => .pure _

lemma tames_eraseSpan (index span : ℕ) : Tames (eraseSpan index span) :=
  .bind (tames_eraseHash _ _) fun _ => .bind (tames_assert _) fun _ =>
    .bind (tames_modifyPage fun _ => ⟨rfl, le_rfl⟩) fun _ =>
      .bind (.ite (fun _ => tames_alterEntryState _ _) fun _ => tames_alterEntryRangeState _ _ _)
        fun _ => .pure _

lemma tames_eraseEntries (index : ℕ) (state : EntryState) : Tames (eraseEntries index state) :=
  .ite
    (fun _ => .bind (tames_readEntry _) fun _ =>
      .ite (fun _ => tames_eraseSpan _ _) fun _ => tames_eraseBadEntry _)
    fun _ => .bind (tames_alterEntryState _ _) fun _ => .pure _

lemma tames_eraseEntryAndSpan (index : ℕ) : Tames (eraseEntryAndSpan index) :=
  .bind (tames_entryState _) fun _ => .bind (tames_assert _) fun _ =>
    .bind (tames_eraseEntries _ _) fun _ =>
      .bind (.bind .get fun _ => .ite (fun _ => tames_modifyPage fun _ => ⟨rfl, le_rfl⟩)
        fun _ => .pure ()) fun _ => tames_modifyPage fun _ => ⟨rfl, le_max_left _ _⟩

/-! ### Finding, reading and comparing -/

lemma tames_findLoop (q : Query) (itemIndex stop : ℕ) :
    ∀ fuel i item, Tames (findLoop q itemIndex stop fuel i item)
  | 0, _, _ => tames_hang
  | fuel + 1, i, item => by
    rw [findLoop]
    refine .ite (fun _ => .bind (tames_entryState _) fun state => ?_) fun _ => .pure _
    refine .ite (fun _ => .bind (tames_readEntry _) fun it => ?_) fun _ =>
      tames_findLoop q itemIndex stop fuel _ _
    refine .ite (fun _ => ?_) fun _ => .bind (tames_eraseEntryAndSpan _) fun _ =>
      tames_findLoop q itemIndex stop fuel _ _
    cases q.verdict it with
    | next => exact tames_findLoop q itemIndex stop fuel _ _
    | mismatch => exact .pure _
    | found => exact .pure _

lemma tames_findItem (q : Query) (itemIndex : ℕ) (item : Item) :
    Tames (findItem q itemIndex item) := by
  refine .bind .get fun c => .ite (fun _ => .pure _) fun _ => .ite (fun _ => .pure _) fun _ => ?_
  cases findStart c.page q itemIndex with
  | none => exact .pure _
  | some start => exact tames_findLoop _ _ _ _ _ _

/-- A search finds an item, none, or one of another type. -/
lemma findItem_rc (q : Query) (itemIndex : ℕ) (item : Item) :
    Triple (fun _ => True) (findItem q itemIndex item) (fun r _ => ∀ e, r.rc = some e → e = .notFound ∨ e = .typeMismatch)
      fun _ _ => True := by
  have hloop : ∀ stop fuel i item, Triple (fun _ => True) (findLoop q itemIndex stop fuel i item)
      (fun r _ => ∀ e, r.rc = some e → e = .notFound ∨ e = .typeMismatch) fun _ _ => True := by
    intro stop fuel
    induction fuel with
    | zero => exact fun _ _ => .throw fun _ _ => trivial
    | succ fuel ih =>
      intro i item
      rw [findLoop]
      refine .ite (fun _ => ?_) fun _ => .pure fun _ _ => by simp
      refine .bind (Q := fun _ _ => True) (fun _ _ => by split <;> trivial) fun state => ?_
      refine .ite (fun _ => ?_) fun _ => ih _ _
      refine .bind (Q := fun _ _ => True) (fun _ _ => by split <;> trivial) fun it => ?_
      refine .ite (fun _ => ?_) fun _ => ?_
      · cases q.verdict it with
        | next => exact ih _ _
        | mismatch => exact .pure fun _ _ => by simp
        | found => exact .pure fun _ _ => by simp
      · exact .bind (Q := fun _ _ => True) (fun _ _ => by split <;> trivial) fun _ => ih _ _
  refine .get_bind fun c _ => .ite (fun _ => .pure fun _ _ => by simp) fun _ =>
    .ite (fun _ => .pure fun _ _ => by simp) fun _ => ?_
  cases findStart c.page q itemIndex with
  | none => exact .pure fun _ _ => by simp
  | some start => exact hloop _ _ _ _

lemma tames_lookup (q : Query) : Tames (lookup q) := by
  refine (tames_findItem q 0 noItem).bind_of
    (fun s a s' h => (findItem_rc q 0 noItem).returns trivial h) fun r hr => ?_
  cases hrc : r.rc with
  | none => exact .pure _
  | some e => rcases hr e hrc with rfl | rfl <;> exact tames_fail (not_mem_noSpace (by decide))

lemma tames_eraseItem (q : Query) : Tames (eraseItem q) :=
  .bind (tames_lookup q) fun _ => tames_eraseEntryAndSpan _

lemma tames_readData : ∀ n i left, Tames (readData n i left)
  | 0, _, _ => .pure _
  | n + 1, _, _ => .bind (tames_readEntry _) fun _ => .bind (tames_readData n _ _) fun _ => .pure _

lemma tames_readItem (q : Query) (buf : List Byte) : Tames (readItem q buf) :=
  .bind .get fun _ => .ite (fun _ => tames_fail (not_mem_noSpace (by decide))) fun _ =>
    .bind (tames_lookup q) fun _ =>
      .ite (fun _ => .ite (fun _ => tames_fail (not_mem_noSpace (by decide))) fun _ =>
        .bind (tames_readData _ _ _) fun _ => .ite (fun _ => .pure _) fun _ =>
          .bind (tames_eraseEntryAndSpan _) fun _ => tames_fail (not_mem_noSpace (by decide))) fun _ =>
        .ite (fun _ => tames_fail (not_mem_noSpace (by decide))) fun _ => .pure _

lemma tames_cmpData : ∀ n i left data, Tames (cmpData n i left data)
  | 0, _, _, _ => .pure _
  | n + 1, _, _, _ => .bind (tames_readEntry _) fun _ =>
      .ite (fun _ => tames_cmpData n _ _ _) fun _ => tames_fail (not_mem_noSpace (by decide))

lemma tames_cmpItem (q : Query) (data : List Byte) : Tames (cmpItem q data) :=
  .bind .get fun _ => .ite (fun _ => tames_fail (not_mem_noSpace (by decide))) fun _ =>
    .bind (tames_lookup q) fun _ =>
      .ite (fun _ => .ite (fun _ => tames_fail (not_mem_noSpace (by decide))) fun _ =>
        .bind (tames_cmpData _ _ _ _) fun _ => .ite (fun _ => .pure _) fun _ =>
          tames_fail (not_mem_noSpace (by decide))) fun _ =>
        .ite (fun _ => tames_fail (not_mem_noSpace (by decide))) fun _ =>
          .ite (fun _ => .pure _) fun _ => tames_fail (not_mem_noSpace (by decide))

end Page

/-! ### Partitions -/

/-- The pages keep their lists and their states, and none has more free entries than before. -/
structure Calm (s s' : Partition) : Prop where
  pageList : s'.pageList = s.pageList
  freePageList : s'.freePageList = s.freePageList
  pageCount : s'.pageCount = s.pageCount
  page : ∀ i, (s'.pages i).state = (s.pages i).state ∧
    (s.pages i).nextFreeEntry ≤ (s'.pages i).nextFreeEntry

instance : IsPreorder Partition Calm where
  refl _ := ⟨rfl, rfl, rfl, fun _ => ⟨rfl, le_rfl⟩⟩
  trans _ _ _ h h' := ⟨h'.pageList.trans h.pageList, h'.freePageList.trans h.freePageList,
    h'.pageCount.trans h.pageCount, fun i =>
      ⟨(h'.page i).1.trans (h.page i).1, (h.page i).2.trans (h'.page i).2⟩⟩

/-- A calm program of a partition. -/
abbrev Calms (m : NvsM α) : Prop := Confined Calm noSpace m

lemma calms_onPage {m : PageM α} (h : Tames m) (i : ℕ) : Calms (onPage i m) := by
  intro s
  obtain ⟨htame, hB⟩ := h (s.ctx i)
  refine ⟨⟨rfl, rfl, rfl, fun j => ?_⟩, hB⟩
  by_cases hj : j = i
  · subst hj
    rw [show (onPage j m s).2.pages j = (m (s.ctx j)).2.page from Function.update_self ..]
    exact ⟨htame.state, htame.next⟩
  · rw [show (onPage i m s).2.pages j = s.pages j from Function.update_of_ne hj ..]
    exact ⟨rfl, le_rfl⟩

lemma calms_assert (p : Prop) [Decidable p] : Calms (assert p) :=
  confined_assert (not_mem_noSpace (by decide)) p

lemma calms_fail {e : Err} (h : Exit.code e ∉ noSpace) : Calms (fail e : NvsM α) :=
  confined_fail h

lemma calms_throw {x : Exit} (h : ¬ (x = .code .pageFull ∨ x = .code .notEnoughSpace)) : Calms (Prog.throw x : NvsM α) :=
  .throw (not_mem_noSpace h)

namespace Storage

lemma calms_findInPages (q : Page.Query) : ∀ l, Calms (findInPages q l)
  | [] => .pure _
  | _ :: l => .bind (calms_onPage (Page.tames_findItem _ _ _) _) fun _ =>
      .ite (fun _ => .pure _) fun _ => calms_findInPages q l

lemma calms_findItem (q : Page.Query) : Calms (findItem q) :=
  .bind .get fun _ => calms_findInPages q _

lemma calms_checkActive : Calms checkActive :=
  .bind .get fun _ => .ite (fun _ => .pure _) fun _ => calms_fail (not_mem_noSpace (by decide))

/-- A program that goes on with what a search has found, or without. -/
lemma calms_found {q : Page.Query} {f : Option (ℕ × Item) → NvsM α} (hnone : Calms (f none))
    (hsome : ∀ page it, Calms (f (some (page, it)))) : Calms (findItem q >>= f) := by
  refine .bind (calms_findItem q) fun found => ?_
  cases found with
  | none => exact hnone
  | some r => exact hsome r.1 r.2

lemma calms_notFound : Calms (fail .notFound : NvsM α) := calms_fail (not_mem_noSpace (by decide))

/-! ### Blobs -/

variable (ns : Byte) (key : List Byte) (start : VerOffset)

lemma calms_eraseChunks : ∀ n k, Calms (eraseChunks ns key start n k)
  | 0, _ => .pure _
  | n + 1, _ => calms_found (calms_eraseChunks n _) fun _ _ =>
      .bind (calms_onPage (Page.tames_eraseItem _) _) fun _ => calms_eraseChunks n _

lemma calms_eraseMultiPageBlob : Calms (eraseMultiPageBlob ns key start) :=
  .bind calms_checkActive fun _ => calms_found calms_notFound fun _ _ =>
    .bind (calms_onPage (Page.tames_eraseItem _) _) fun _ => .bind (calms_assert _) fun _ =>
      calms_eraseChunks _ _ _ _ _

lemma calms_readChunks : ∀ n k buf offset, Calms (readChunks ns key start n k buf offset)
  | 0, _, _, _ => .pure _
  | n + 1, _, _, _ => calms_found (.pure _) fun _ _ =>
      .bind (calms_onPage (Page.tames_readItem _ _) _) fun _ => .bind (calms_assert _) fun _ =>
        calms_readChunks n _ _ _

/-- The only code that the loop over the chunks returns is that of a missing chunk. -/
lemma readChunks_rc : ∀ n k buf offset, Triple (fun _ => True)
    (readChunks ns key start n k buf offset) (fun r _ => r.1 = none ∨ r.1 = some .notFound)
      fun _ _ => True
  | 0, _, _, _ => .pure fun _ _ => .inl rfl
  | n + 1, k, buf, offset => by
    have hany : ∀ {β : Type} (m : NvsM β), Triple (fun _ => True) m (fun _ _ => True)
        fun _ _ => True := fun m s _ => by split <;> trivial
    refine .bind (hany _) fun found => ?_
    cases found with
    | none => exact .pure fun _ _ => .inr rfl
    | some r => exact .bind (hany _) fun _ => .bind (hany _) fun _ => readChunks_rc n _ _ _

lemma calms_readMultiPageBlob (buf : List Byte) : Calms (readMultiPageBlob ns key buf) := by
  refine calms_found calms_notFound fun page it => .bind (calms_assert _) fun _ => ?_
  refine (calms_readChunks ns key _ _ _ _ _).bind_of
    (fun s a s' h => (readChunks_rc ns key _ _ _ _ _).returns trivial h) fun r hr => ?_
  obtain ⟨rc, out, offset⟩ := r
  rcases hr with hr | hr <;> cases hr
  · exact .bind (calms_assert _) fun _ => .pure _
  · exact .bind (confined_attempt (calms_eraseMultiPageBlob ns key _)) fun _ => calms_notFound

lemma calms_cmpChunks (data : List Byte) :
    ∀ n k offset, Calms (cmpChunks ns key start data n k offset)
  | 0, _, _ => .pure _
  | n + 1, _, _ => calms_found calms_notFound fun _ _ =>
      .bind (calms_onPage (Page.tames_cmpItem _ _) _) fun _ => .bind (calms_assert _) fun _ =>
        calms_cmpChunks data n _ _

lemma calms_cmpMultiPageBlob (data : List Byte) : Calms (cmpMultiPageBlob ns key data) :=
  calms_found calms_notFound fun _ _ =>
    .ite (fun _ => calms_fail (not_mem_noSpace (by decide))) fun _ =>
      .bind (calms_cmpChunks _ _ _ _ _ _ _) fun _ => calms_assert _

/-! ### The other calls -/

lemma calms_refind (found : ℕ × Item) : Calms (refind ns key found) :=
  .bind .get fun _ => .ite
    (fun _ => calms_found (calms_throw (by decide)) fun _ _ => .pure _) fun _ => .pure _

lemma calms_eraseOld (T : ItemType) (findPage : ℕ) : Calms (eraseOld ns T key findPage) :=
  .bind .get fun _ => .ite
    (fun _ => calms_found (calms_throw (by decide)) fun _ _ =>
      calms_onPage (Page.tames_eraseItem _) _)
    fun _ => calms_onPage (Page.tames_eraseItem _) _

lemma calms_readValue (T : ItemType) (buf : List Byte) : Calms (readValue ns T key buf) :=
  calms_found calms_notFound fun _ _ => calms_onPage (Page.tames_readItem _ _) _

lemma calms_readItem (T : ItemType) (buf : List Byte) : Calms (readItem ns T key buf) :=
  .bind calms_checkActive fun _ => .ite
    (fun _ => confined_attempt_bind (calms_readMultiPageBlob ns key buf) (fun _ => .pure _)
      fun _ he => .ite (fun _ => calms_readValue ns key T buf) fun _ => calms_fail he)
    fun _ => calms_readValue ns key T buf

lemma calms_eraseItem (T : ItemType) : Calms (eraseItem ns T key) :=
  .bind calms_checkActive fun _ => .ite (fun _ => calms_eraseMultiPageBlob ns key verAny)
    fun _ => calms_found calms_notFound fun _ _ =>
      .ite (fun _ => calms_eraseMultiPageBlob ns key verAny)
        fun _ => calms_onPage (Page.tames_eraseItem _) _

lemma calms_eraseAllOnPage (page : ℕ) : ∀ fuel, Calms (eraseAllOnPage ns page fuel)
  | 0 => calms_throw (by decide)
  | fuel + 1 => confined_attempt_bind (calms_onPage (Page.tames_eraseItem _) _)
      (fun _ => calms_eraseAllOnPage page fuel) fun _ he =>
        .ite (fun _ => .pure _) fun _ => calms_fail he

lemma calms_eraseAllOnPages : ∀ l, Calms (eraseAllOnPages ns l)
  | [] => .pure _
  | _ :: l => .bind (calms_eraseAllOnPage ns _ _) fun _ => calms_eraseAllOnPages l

lemma calms_eraseNamespace : Calms (eraseNamespace ns) :=
  .bind calms_checkActive fun _ => .bind .get fun _ => calms_eraseAllOnPages ns _

lemma calms_getItemDataSize (T : ItemType) : Calms (getItemDataSize ns T key) :=
  .bind calms_checkActive fun _ => calms_found
    (.ite (fun _ => calms_found calms_notFound fun _ _ => .pure _) fun _ => calms_notFound)
    fun _ _ => .pure _

end Storage

end EspIdf.Nvs
