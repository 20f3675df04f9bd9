/-
# The lists of pages

The page manager keeps every page in one of its lists, and the free pages hold nothing.  This
is so after the initialisation on a flash with any contents, and after every call.
-/
import EspIdf.Nvs.Lookups
import EspIdf.Nvs.Partition

namespace EspIdf.Nvs

open EspIdf.Lib Prog PageManager

variable {α : Type} {s s' : Partition} {p : ℕ} {rest : List ℕ}

/-! ### Runs -/

/-- A call of the storage. -/
inductive Call where
  | writeItem (nsIndex : Byte) (datatype : ItemType) (key data : List Byte)
  | readItem (nsIndex : Byte) (datatype : ItemType) (key buf : List Byte)
  | eraseItem (nsIndex : Byte) (datatype : ItemType) (key : List Byte)
  | eraseNamespace (nsIndex : Byte)
  | getItemDataSize (nsIndex : Byte) (datatype : ItemType) (key : List Byte)
  | createOrOpenNamespace (name : List Byte) (canCreate : Bool)

/-- The program of a call; what it returns is not looked at. -/
def Call.run : Call → NvsM Unit
  | writeItem ns T key data => Storage.writeItem ns T key data
  | readItem ns T key buf => do let _ ← Storage.readItem ns T key buf
  | eraseItem ns T key => Storage.eraseItem ns T key
  | eraseNamespace ns => Storage.eraseNamespace ns
  | getItemDataSize ns T key => do let _ ← Storage.getItemDataSize ns T key
  | createOrOpenNamespace name canCreate => do
    let _ ← Storage.createOrOpenNamespace name canCreate

/-- The states into which a storage gets: it has been initialised on a flash with any contents,
such as a loss of power leaves them, and called. -/
inductive Reachable : Partition → Prop
  | init (s₀ s : Partition) (baseSector sectorCount : ℕ)
      (h : Storage.init baseSector sectorCount s₀ = (.ok (), s)) : Reachable s
  | call (s s' : Partition) (c : Call) (r : Except Err Unit) (hs : Reachable s)
      (h : attempt c.run s = (.ok r, s')) : Reachable s'

/-! ### The invariant -/

/-- A page object that stands for a page without items. -/
def Page.Blank (p : Page) : Prop := p.state = .uninitialized ∨ p.state = .corrupt

/-- The pages are in one list each, and the free pages are blank. -/
structure Parted (s : Partition) : Prop where
  nodup : (s.pageList ++ s.freePageList).Nodup
  blank : ∀ p ∈ s.freePageList, (s.pages p).Blank

/-- There is a current page as well. -/
structure Lists (s : Partition) : Prop extends Parted s where
  nonempty : s.pageList ≠ []

/-- The program keeps the lists, whichever way it leaves. -/
def KeepsLists (m : NvsM α) : Prop := Triple Lists m (fun _ => Lists) fun _ => Lists

lemma Calm.lists (h : Calm s s') (hs : Lists s) : Lists s' where
  nodup := by rw [h.pageList, h.freePageList]; exact hs.nodup
  nonempty := by rw [h.pageList]; exact hs.nonempty
  blank := by
    intro p hp
    rw [h.freePageList] at hp
    rw [Page.Blank, (h.page p).1]
    exact hs.blank p hp

lemma Lists.of_eq (h : Lists s) (h1 : s'.pageList = s.pageList)
    (h2 : s'.freePageList = s.freePageList) (h3 : s'.pages = s.pages) : Lists s' :=
  ⟨⟨by rw [h1, h2]; exact h.nodup, by rw [h2, h3]; exact h.blank⟩, by rw [h1]; exact h.nonempty⟩

lemma keepsLists_calms {m : NvsM α} (h : Calms m) : KeepsLists m :=
  (h.triple fun _ _ hs hc => Calm.lists hc hs).conseq (fun _ h => h) (fun _ _ h => h)
    fun _ _ h => h.1

lemma triple_attempt {σ : Type} {P : σ → Prop} {m : Prog σ Exit α} {Q : α → σ → Prop}
    {E : Exit → σ → Prop} (h : Triple P m Q E) :
    Triple P (attempt m) (fun r s => match r with
      | .ok a => Q a s
      | .error e => E (.code e) s) E := by
  intro s hs
  have := h s hs
  unfold attempt
  cases hrun : m s with
  | mk r s' =>
    rw [hrun] at this
    rcases r with (e | - | -) | a <;> exact this

/-- A program whose outcome is looked at. -/
lemma KeepsLists.attempt_bind {β : Type} {m : NvsM α} {f : Except Err α → NvsM β}
    (h : KeepsLists m) (hf : ∀ r, KeepsLists (f r)) : KeepsLists (attempt m >>= f) :=
  Triple.bind ((triple_attempt h).conseq (fun _ h => h) (fun r s h => by cases r <;> exact h)
    fun _ _ h => h) hf

lemma KeepsLists.bind {β : Type} {m : NvsM α} {f : α → NvsM β} (h : KeepsLists m)
    (hf : ∀ a, KeepsLists (f a)) : KeepsLists (m >>= f) := Triple.bind h hf

/-- A program of a page that is not free, and one that does not write to a blank page. -/
lemma Lists.onPage {m : PageM α} {i : ℕ} (hs : Lists s)
    (hi : i ∉ s.freePageList ∨ ((s.pages i).Blank → (m (s.ctx i)).2.page.Blank)) :
    Lists (onPage i m s).2 := by
  refine ⟨⟨hs.nodup, fun p hp => ?_⟩, hs.nonempty⟩
  by_cases hpi : p = i
  · subst hpi
    rw [show (Nvs.onPage p m s).2.pages p = (m (s.ctx p)).2.page from Function.update_self ..]
    exact hi.resolve_left (fun h => h hp) (hs.blank p hp)
  · rw [show (Nvs.onPage i m s).2.pages p = s.pages p from Function.update_of_ne hpi ..]
    exact hs.blank p hp

lemma Lists.back_mem (hs : Lists s) : back s ∈ s.pageList := by
  rw [back, List.getLastD_eq_getLast?, List.getLast?_eq_some_getLast hs.nonempty]
  exact List.getLast_mem hs.nonempty

lemma Lists.not_free (hs : Lists s) {i : ℕ} (hi : i ∈ s.pageList) : i ∉ s.freePageList :=
  fun hf => (List.nodup_append.mp hs.nodup).2.2 i hi i hf rfl

/-! ### Activating a page -/

/-- A blank page is erased if need be. -/
lemma eraseCorrupt_blank (hb : (s.pages p).Blank) :
    ∃ s', eraseCorrupt p s = (.ok (), s') ∧ s'.pageList = s.pageList ∧
      s'.freePageList = s.freePageList ∧ s'.seqNumber = s.seqNumber ∧
      (s'.pages p).state = .uninitialized ∧ ∀ i ≠ p, s'.pages i = s.pages i := by
  by_cases hc : (s.pages p).state = .corrupt
  · have hself : (onPage p Page.erase s).2.pages p = (Page.erase (s.ctx p)).2.page :=
      Function.update_self ..
    refine ⟨(onPage p Page.erase s).2, ?_, rfl, rfl, rfl, ?_, fun i hi => ?_⟩
    · rw [eraseCorrupt, Prog.get_bind, if_pos hc]
      rfl
    · rw [hself]
      rfl
    · exact Function.update_of_ne hi ..
  · exact ⟨s, by rw [eraseCorrupt, Prog.get_bind, if_neg hc]; rfl, rfl, rfl, rfl,
      hb.resolve_right hc, fun _ _ => rfl⟩

/-- The first free page becomes the current one. -/
lemma activatePage_lists (h : Parted s) (hfree : s.freePageList = p :: rest) :
    ∃ s', activatePage s = (.ok (), s') ∧ Lists s' ∧ s'.pageList = s.pageList ++ [p] ∧
      s'.freePageList = rest ∧ (s'.pages p).state = .uninitialized ∧
      ∀ i ≠ p, s'.pages i = s.pages i := by
  obtain ⟨s₁, hrun₁, hlist₁, -, -, hstate₁, hpages₁⟩ :=
    eraseCorrupt_blank (h.blank p (by rw [hfree]; exact List.mem_cons_self))
  set s₂ : Partition := { s₁ with
    freePageList := rest, pageList := s₁.pageList ++ [p], seqNumber := u32 (s₁.seqNumber + 1) }
  have hseq : (Page.setSeqNumber s.seqNumber (s₂.ctx p)).2.page.state = .uninitialized := by
    show (if (s₁.pages p).state = .uninitialized then
      { s₁.pages p with seqNumber := s.seqNumber } else s₁.pages p).state = _
    rw [if_pos hstate₁]
    exact hstate₁
  have hpages : ∀ i ≠ p, (onPage p (Page.setSeqNumber s.seqNumber) s₂).2.pages i = s.pages i :=
    fun i hi => (Function.update_of_ne hi ..).trans (hpages₁ i hi)
  have hnodup := h.nodup
  rw [hfree] at hnodup
  have hlist : (onPage p (Page.setSeqNumber s.seqNumber) s₂).2.pageList = s.pageList ++ [p] :=
    congrArg (· ++ [p]) hlist₁
  refine ⟨(onPage p (Page.setSeqNumber s.seqNumber) s₂).2, ?_, ⟨⟨?_, ?_⟩, ?_⟩, hlist, rfl, ?_, hpages⟩
  · rw [activatePage, Prog.get_bind]
    simp only [hfree]
    rw [Prog.bind_ok hrun₁, Prog.modify_bind]
    rfl
  · rw [hlist, show (onPage p (Page.setSeqNumber s.seqNumber) s₂).2.freePageList = rest from rfl,
      List.append_assoc, List.singleton_append]
    exact hnodup
  · intro i hi
    have hip : i ≠ p := by
      rintro rfl
      exact (List.nodup_cons.mp (List.nodup_append.mp hnodup).2.1).1 hi
    rw [hpages i hip]
    exact h.blank i (by rw [hfree]; exact List.mem_cons_of_mem _ hi)
  · rw [hlist]
    exact List.append_ne_nil_of_right_ne_nil _ (List.cons_ne_nil _ _)
  · rw [show (onPage p (Page.setSeqNumber s.seqNumber) s₂).2.pages p =
      (Page.setSeqNumber s.seqNumber (s₂.ctx p)).2.page from Function.update_self ..]
    exact hseq

/-! ### Compacting a page -/

/-- The lists are these. -/
structure ListsAre (used free : List ℕ) (s : Partition) : Prop where
  lists : Lists s
  used_eq : s.pageList = used
  free_eq : s.freePageList = free

variable {used free : List ℕ}

lemma ListsAre.of_lists (h : Lists s) : ListsAre s.pageList s.freePageList s := ⟨h, rfl, rfl⟩

/-- The page that has been activated last is another one. -/
lemma ListsAre.fresh_ne {q : ℕ} (h : ListsAre (used ++ [q]) free s) (hp : p ∈ used) : q ≠ p := by
  rintro rfl
  have hnd := (List.nodup_append.mp h.lists.nodup).1
  rw [h.used_eq] at hnd
  exact (List.nodup_append.mp hnd).2.2 q hp q (List.mem_singleton.mpr rfl) rfl

/-- The program keeps these lists. -/
def KeepsThese (used free : List ℕ) (m : NvsM α) : Prop :=
  Triple (ListsAre used free) m (fun _ => ListsAre used free) fun _ => ListsAre used free

lemma KeepsThese.bind {β : Type} {m : NvsM α} {f : α → NvsM β} (h : KeepsThese used free m)
    (hf : ∀ a, KeepsThese used free (f a)) : KeepsThese used free (m >>= f) := Triple.bind h hf

lemma KeepsThese.attempt_bind {β : Type} {m : NvsM α} {f : Except Err α → NvsM β}
    (h : KeepsThese used free m) (hf : ∀ r, KeepsThese used free (f r)) :
    KeepsThese used free (attempt m >>= f) :=
  Triple.bind ((triple_attempt h).conseq (fun _ h => h) (fun r s h => by cases r <;> exact h)
    fun _ _ h => h) hf

lemma KeepsThese.at {m : NvsM α} (h : KeepsThese s.pageList s.freePageList m) (hs : Lists s) :
    Triple (fun t => t = s) m (fun _ => Lists) fun _ => Lists := by
  refine h.conseq ?_ (fun _ _ h => h.lists) fun _ _ h => h.lists
  rintro t rfl
  exact .of_lists hs

lemma keepsThese_calms {m : NvsM α} (h : Calms m) : KeepsThese used free m :=
  (h.triple fun _ _ hs hc =>
    ⟨Calm.lists hc hs.lists, hc.pageList.trans hs.used_eq, hc.freePageList.trans hs.free_eq⟩).conseq
    (fun _ h => h) (fun _ _ h => h) fun _ _ h => h.1

/-- A program of a page in use. -/
lemma keepsThese_onPage {i : ℕ} (m : PageM α) (hi : i ∈ used) :
    KeepsThese used free (onPage i m) := by
  intro s hs
  have h := hs.lists.onPage (m := m) (.inl (hs.lists.not_free (by rw [hs.used_eq]; exact hi)))
  unfold onPage at h ⊢
  cases (m (s.ctx i)).1 with
  | ok a => exact ⟨h, hs.used_eq, hs.free_eq⟩
  | error e => exact ⟨h, hs.used_eq, hs.free_eq⟩

lemma calms_copyEntries (src dst : ℕ) : ∀ n i, Calms (copyEntries src dst n i)
  | 0, _ => .pure _
  | n + 1, _ => .bind (calms_onPage (Page.tames_readEntry _) _) fun _ =>
      .bind (calms_onPage (Page.tames_writeEntry _) _) fun _ => calms_copyEntries src dst n _

lemma calms_copyItem (src dst i : ℕ) : Calms (copyItem src dst i) :=
  .bind (calms_onPage (Page.tames_readEntry _) _) fun _ => .bind .get fun _ =>
    .bind (calms_onPage (Page.tames_insertHash _ _) _) fun _ =>
      .bind (calms_onPage (Page.tames_writeEntry _) _) fun _ => .bind (calms_assert _) fun _ =>
        .bind (calms_copyEntries _ _ _ _) fun _ => .pure _

lemma calms_copyLoop (src dst : ℕ) : ∀ fuel i, Calms (copyLoop src dst fuel i)
  | 0, _ => calms_throw (by decide)
  | fuel + 1, _ => .ite
      (fun _ => .bind (calms_onPage (Page.tames_entryState _) _) fun _ =>
        .ite (fun _ => .bind (calms_copyItem _ _ _) fun _ => calms_copyLoop src dst fuel _)
          fun _ => .bind .get fun _ => .bind (calms_assert _) fun _ =>
            calms_copyLoop src dst fuel _)
      fun _ => .pure _

lemma keepsThese_copyItemsIfAny {src dst : ℕ} (hdst : dst ∈ used) :
    KeepsThese used free (copyItemsIfAny src dst) := by
  have hcopy : KeepsThese used free (copyItems src dst) :=
    .get_bind fun s _ => .ite (fun _ => .throw fun _ h => h) fun _ =>
      KeepsThese.bind (keepsThese_onPage _ hdst) fun _ => keepsThese_calms (calms_copyLoop _ _ _ _)
  refine hcopy.attempt_bind fun r => ?_
  cases r with
  | ok _ => exact .pure fun _ h => h
  | error e => exact .ite (fun _ => .pure fun _ h => h) fun _ => .throw fun _ h => h

/-- The page that has been copied and erased becomes a free one. -/
lemma release_lists {q : ℕ} (h : ListsAre used free s) (hp : p ∈ used) (hq : q ∈ used)
    (hpq : q ≠ p) (hb : (s.pages p).Blank) :
    Lists { s with pageList := s.pageList.erase p, freePageList := s.freePageList ++ [p] } := by
  have hp' : p ∈ s.pageList := by rw [h.used_eq]; exact hp
  refine ⟨⟨?_, ?_⟩, ?_⟩
  · have hperm : List.Perm (s.pageList ++ s.freePageList)
        (s.pageList.erase p ++ (s.freePageList ++ [p])) := by
      rw [← List.append_assoc]
      exact ((List.perm_cons_erase hp').append_right _).trans (List.perm_append_singleton p _).symm
    exact hperm.nodup h.lists.nodup
  · intro i hi
    rcases List.mem_append.mp hi with hi | hi
    · exact h.lists.blank i hi
    · rw [List.mem_singleton.mp hi]
      exact hb
  · exact List.ne_nil_of_mem ((List.mem_erase_of_ne hpq).mpr (h.used_eq ▸ hq))

lemma triple_activatePage : Triple (ListsAre used free) activatePage
    (fun _ s => ∃ q, ∃ rest, free = q :: rest ∧ ListsAre (used ++ [q]) rest s ∧
      (s.pages q).state = .uninitialized) (fun _ s => ListsAre used free s ∧ free = []) := by
  intro s hs
  cases hfree : s.freePageList with
  | nil =>
    have hrun : activatePage s = (.error (.code .notEnoughSpace), s) := by
      rw [activatePage, Prog.get_bind]
      simp only [hfree]
      rfl
    rw [hrun]
    exact ⟨hs, hs.free_eq.symm.trans hfree⟩
  | cons p rest =>
    obtain ⟨s', hrun, hs', hlist, hrest, hstate, -⟩ := activatePage_lists hs.lists.toParted hfree
    rw [hrun]
    exact ⟨p, rest, hs.free_eq.symm.trans hfree, ⟨hs', by rw [hlist, hs.used_eq], hrest⟩, hstate⟩

/-- A page in use is erased. -/
lemma triple_erase (hp : p ∈ used) : Triple (ListsAre used free) (onPage p Page.erase)
    (fun _ s => ListsAre used free s ∧ (s.pages p).Blank) fun _ => ListsAre used free := by
  intro s hs
  have h := keepsThese_onPage Page.erase hp s hs
  refine ⟨h, .inl ?_⟩
  rw [show (s.putCtx p (s.pages p).sector (Page.erase (s.ctx p)).2).pages p =
    (Page.erase (s.ctx p)).2.page from Function.update_self ..]
  rfl

lemma triple_compact (hp : p ∈ used) :
    Triple (ListsAre used free) (compact p) (fun _ => Lists) fun _ => Lists := by
  refine .bind (triple_activatePage.conseq (fun _ h => h) (fun _ _ h => h)
    fun _ _ h => h.1.lists) fun _ => .of_exists fun q => .of_exists fun rest => ?_
  refine .assume fun _ => Triple.conseq (P := ListsAre (used ++ [q]) rest) ?_ (fun _ h => h.1)
    (fun _ _ h => h) fun _ _ (h : Lists _) => h
  have hp' : p ∈ used ++ [q] := List.mem_append_left _ hp
  have hq : q ∈ used ++ [q] := List.mem_append_right _ (List.mem_singleton.mpr rfl)
  refine .get_bind fun s hs => ?_
  have hback : back s = q := by rw [back, hs.used_eq, List.getLastD_concat]
  have hpq : q ≠ p := hs.fresh_ne hp
  rw [hback]
  have hlists : ∀ {β : Type} {m : NvsM β}, KeepsThese (used ++ [q]) rest m →
      Triple (ListsAre (used ++ [q]) rest) m (fun _ => ListsAre (used ++ [q]) rest) fun _ => Lists :=
    fun h => h.conseq (fun _ h => h) (fun _ _ h => h) fun _ _ h => h.lists
  refine .bind (hlists (keepsThese_onPage _ hp')) fun _ =>
    .bind (hlists (keepsThese_copyItemsIfAny hq)) fun _ =>
      .bind ((triple_erase hp').conseq (fun _ h => h) (fun _ _ h => h) fun _ _ h => h.lists)
        fun _ => .get_bind fun s' _ => .bind (Q := fun _ t => ListsAre (used ++ [q]) rest t ∧
          (t.pages p).Blank) ?_ fun _ => .modify fun t ht => release_lists ht.1 hp' hq hpq ht.2
  exact .ite (fun _ => .pure fun _ h => h) fun _ => .throw fun _ h => h.1.lists

lemma keepsLists_requestNewPage : KeepsLists requestNewPage := by
  refine .get_bind_eq fun s hs => ?_
  have hs' : ∀ t, t = s → ListsAre s.pageList s.freePageList t := fun t ht => by subst ht; exact .of_lists hs
  refine .ite (fun _ => .throw fun t ht => ht ▸ hs) fun _ => .ite (fun _ => ?_) fun _ => ?_
  · refine (triple_activatePage).conseq hs' ?_ fun _ _ h => h.1.lists
    rintro _ t ⟨q, rest, -, ht, -⟩
    exact ht.lists
  · cases hmax : (maxUnusedItems s.pages s.pageList).1 with
    | none => exact .throw fun t ht => ht ▸ hs
    | some p =>
      exact (triple_compact (maxUnusedItems_some hmax).1).conseq hs' (fun _ _ h => h) fun _ _ h => h

/-- With two free pages one of them is taken. -/
lemma triple_requestNewPage (h2 : 2 ≤ free.length) : Triple (ListsAre used free) requestNewPage
    (fun _ s => ∃ q, ∃ rest, free = q :: rest ∧ ListsAre (used ++ [q]) rest s ∧
      (s.pages q).state = .uninitialized) (fun _ _ => False) := by
  refine .get_bind fun s hs => ?_
  have hne : s.freePageList ≠ [] := by
    rw [hs.free_eq]
    exact List.ne_nil_of_length_pos (by omega)
  rw [if_neg hne, if_pos (by rw [hs.free_eq]; exact h2)]
  refine triple_activatePage.conseq (fun _ h => h) (fun _ _ h => h) ?_
  rintro _ t ⟨-, rfl⟩
  simp at h2

/-! ### Writing -/

namespace Storage

variable (ns : Byte) (T : ItemType) (key data : List Byte)

lemma markFull_of_ne {c : PageCtx} (h : c.page.state ≠ .active) :
    Page.markFull c = (.error (.code .invalidState), c) := by
  rw [Page.markFull, Prog.get_bind, if_neg h]
  rfl

/-- Only an active page is marked as full. -/
lemma triple_markFull (page : ℕ) : Triple (ListsAre used free) (markFull page)
    (fun _ => ListsAre used free) fun x s => ListsAre used free s ∧ x = .code .invalidState := by
  refine .get_bind_eq fun s hs => .ite (fun _ => .pure fun t ht => ht ▸ hs) fun _ => ?_
  rintro t rfl
  have h := hs.lists.onPage (i := page) (m := Page.markFull) (.inr fun hb => by
    have hne : (t.pages page).state ≠ .active := by
      rcases hb with hb | hb <;> rw [hb] <;> decide
    rw [markFull_of_ne (c := t.ctx page) hne]
    exact hb)
  by_cases hact : (t.pages page).state = .active
  · have hrun : Page.markFull (t.ctx page) = Page.alterPageState .full (t.ctx page) := by
      rw [Page.markFull, Prog.get_bind]
      exact congrFun (if_pos hact) _
    unfold onPage at h ⊢
    rw [hrun] at h ⊢
    exact ⟨h, hs.used_eq, hs.free_eq⟩
  · unfold onPage at h ⊢
    rw [markFull_of_ne (c := t.ctx page) hact] at h ⊢
    exact ⟨⟨h, hs.used_eq, hs.free_eq⟩, rfl⟩

lemma keepsLists_markFull (page : ℕ) : KeepsLists (markFull page) := by
  intro s hs
  exact (triple_markFull page).conseq (fun _ h => h) (fun _ _ h => h.lists)
    (fun _ _ h => h.1.lists) s (.of_lists hs)

lemma keepsLists_switchPage (page : ℕ) : KeepsLists (switchPage page) :=
  (keepsLists_markFull page).bind fun _ => keepsLists_requestNewPage

/-- Writing to the current page. -/
lemma triple_writeBack (ci : Byte) (hs : Lists s) : Triple (fun t => t = s)
    (onPage (back s) (Page.writeItem ns T key data ci)) (fun _ => Lists) fun _ => Lists :=
  (keepsThese_onPage _ hs.back_mem).at hs

lemma triple_attempt_lists {P : Partition → Prop} {m : NvsM α}
    (h : Triple P m (fun _ => Lists) fun _ => Lists) :
    Triple P (attempt m) (fun _ => Lists) fun _ => Lists :=
  (triple_attempt h).conseq (fun _ h => h) (fun r _ h => by cases r <;> exact h) fun _ _ h => h

lemma triple_writeBlobItem (ci : Byte) (hs : Lists s) : Triple (fun t => t = s)
    (writeBlobItem (back s) ns T key data ci) (fun _ => Lists) fun _ => Lists := by
  refine .bind (triple_attempt_lists (triple_writeBack ns T key data ci hs)) fun r => ?_
  cases r with
  | ok _ => exact .pure fun _ h => h
  | error e => exact KeepsLists.bind (keepsLists_calms (calms_assert _)) fun _ => .pure fun _ h => h

lemma keepsLists_closeAfterChunk (page remaining room : ℕ) :
    KeepsLists (closeAfterChunk page remaining room) := by
  refine .ite (fun _ => ?_) fun _ => .pure fun _ h => h
  refine (keepsLists_switchPage page).attempt_bind fun r => ?_
  cases r with
  | ok _ => exact .pure fun _ h => h
  | error e => exact .pure fun _ h => h

lemma keepsLists_fail {e : Err} : KeepsLists (fail e : NvsM α) := .throw fun _ h => h

lemma keepsLists_pure (a : α) : KeepsLists (pure a) := .pure fun _ h => h

lemma keepsLists_writeChunks (start : VerOffset) : ∀ fuel n used offset,
    KeepsLists (writeChunks ns key data start fuel n used offset)
  | 0, _, _, _ => .throw fun _ h => h
  | fuel + 1, n, used, offset => by
    rw [writeChunks]
    refine .get_bind_eq fun s hs => ?_
    have hat : ∀ {β : Type} {m : NvsM β}, KeepsLists m →
        Triple (fun t => t = s) m (fun _ => Lists) fun _ => Lists :=
      fun h => h.conseq (fun _ ht => ht ▸ hs) (fun _ _ h => h) fun _ _ h => h
    refine .ite (fun _ => hat ?_) fun _ => .ite (fun _ => hat (keepsLists_pure _)) fun _ => ?_
    · exact (keepsLists_switchPage _).bind fun _ => .get_bind fun _ _ =>
        .ite (fun _ => keepsLists_fail) fun _ => keepsLists_writeChunks start fuel _ _ _
    · refine .bind (triple_writeBlobItem ns _ key _ _ hs) fun rc => ?_
      refine .ite (fun _ => keepsLists_pure _) fun _ => ?_
      refine KeepsLists.bind (keepsLists_closeAfterChunk _ _ _) fun rc => ?_
      refine .ite (fun _ => keepsLists_pure _) fun _ => .ite (fun _ => ?_) fun _ =>
        keepsLists_writeChunks start fuel _ _ _
      exact .get_bind_eq fun s' hs' => .bind (triple_writeBlobItem ns _ key _ _ hs') fun _ =>
        keepsLists_pure _

lemma calms_rollBack : ∀ pages ii, Calms (rollBack ns key ii pages)
  | [], _ => .pure _
  | _ :: pages, _ => .bind (confined_attempt (calms_onPage (Page.tames_eraseItem _) _)) fun _ =>
      calms_rollBack pages _

lemma keepsLists_writeMultiPageBlob (start : VerOffset) :
    KeepsLists (writeMultiPageBlob ns key data start) := by
  refine .get_bind fun s _ => .ite (fun _ => keepsLists_fail) fun _ => ?_
  refine KeepsLists.bind (keepsLists_writeChunks ns key data start _ _ _ _) fun r => ?_
  obtain ⟨rc, used⟩ := r
  cases rc with
  | none => exact keepsLists_pure _
  | some e => exact KeepsLists.bind (keepsLists_calms (calms_rollBack ns key _ _)) fun _ =>
      keepsLists_fail

lemma triple_pageFullToNotEnough {P : Partition → Prop} {m : NvsM α}
    (h : Triple P m (fun _ => Lists) fun _ => Lists) :
    Triple P (pageFullToNotEnough m) (fun _ => Lists) fun _ => Lists := by
  refine .bind (triple_attempt_lists h) fun r => ?_
  cases r with
  | ok _ => exact keepsLists_pure _
  | error _ => exact keepsLists_fail

lemma keepsLists_writeBlob : KeepsLists (writeBlob ns key data) := by
  refine KeepsLists.bind (keepsLists_calms (calms_findItem _)) fun found => ?_
  cases found with
  | none =>
    refine KeepsLists.bind (triple_pageFullToNotEnough
      (keepsLists_writeMultiPageBlob ns key data _)) fun _ => ?_
    exact keepsLists_calms (calms_found (.pure _) fun _ _ => calms_eraseOld _ _ _ _)
  | some found =>
    refine (keepsLists_calms (calms_cmpMultiPageBlob ns key data)).attempt_bind fun same => ?_
    cases same with
    | ok _ => exact keepsLists_pure _
    | error _ =>
      refine KeepsLists.bind (keepsLists_calms (calms_refind ns key found)) fun r => ?_
      exact KeepsLists.bind (keepsLists_calms (calms_assert _)) fun _ => KeepsLists.bind
        (triple_pageFullToNotEnough (keepsLists_writeMultiPageBlob ns key data _)) fun _ =>
          keepsLists_calms (calms_eraseMultiPageBlob ns key _)

lemma keepsLists_writeToCurrent : KeepsLists (writeToCurrent ns T key data) := by
  refine .get_bind_eq fun s hs => ?_
  refine .bind (triple_attempt_lists (triple_writeBack ns T key data chunkAny hs)) fun r => ?_
  cases r with
  | ok _ => exact keepsLists_pure _
  | error e =>
    refine .ite (fun _ => KeepsLists.bind (keepsLists_switchPage _) fun _ => ?_) fun _ =>
      keepsLists_fail
    exact .get_bind_eq fun s' hs' => triple_pageFullToNotEnough (triple_writeBack ns T key data _ hs')

lemma keepsLists_writeValue : KeepsLists (writeValue ns T key data) := by
  refine KeepsLists.bind (keepsLists_calms (calms_findItem _)) fun found => ?_
  cases found with
  | none => exact keepsLists_writeToCurrent ns T key data
  | some found =>
    refine (keepsLists_calms (calms_onPage (Page.tames_cmpItem _ data) _)).attempt_bind fun same => ?_
    cases same with
    | ok _ => exact keepsLists_pure _
    | error _ => exact KeepsLists.bind (keepsLists_writeToCurrent ns T key data) fun _ =>
        keepsLists_calms (calms_eraseOld _ _ _ _)

lemma keepsLists_writeItem : KeepsLists (writeItem ns T key data) :=
  KeepsLists.bind (keepsLists_calms calms_checkActive) fun _ =>
    .ite (fun _ => keepsLists_writeBlob ns key data) fun _ => keepsLists_writeValue ns T key data

lemma keepsLists_createOrOpenNamespace (name : List Byte) (canCreate : Bool) :
    KeepsLists (createOrOpenNamespace name canCreate) := by
  refine KeepsLists.bind (keepsLists_calms calms_checkActive) fun _ => .get_bind fun s _ => ?_
  cases s.namespaces.find? fun e => strncmpEq maxKeyLength name e.name with
  | some e => exact keepsLists_pure _
  | none =>
    refine .ite (fun _ => .get_bind fun s' _ => .ite (fun _ => keepsLists_fail) fun _ => ?_)
      fun _ => keepsLists_fail
    exact KeepsLists.bind (keepsLists_writeItem _ _ _ _) fun _ =>
      KeepsLists.bind (.modify fun _ h => h.of_eq rfl rfl rfl) fun _ => keepsLists_pure _

end Storage

open Storage in
/-- Every call keeps the lists. -/
lemma Call.keepsLists (c : Call) : KeepsLists c.run := by
  cases c with
  | writeItem ns T key data => exact keepsLists_writeItem ns T key data
  | readItem ns T key buf =>
    exact KeepsLists.bind (keepsLists_calms (calms_readItem ns key T buf)) fun _ => keepsLists_pure _
  | eraseItem ns T key => exact keepsLists_calms (calms_eraseItem ns key T)
  | eraseNamespace ns => exact keepsLists_calms (calms_eraseNamespace ns)
  | getItemDataSize ns T key =>
    exact KeepsLists.bind (keepsLists_calms (calms_getItemDataSize ns key T)) fun _ =>
      keepsLists_pure _
  | createOrOpenNamespace name canCreate =>
    exact KeepsLists.bind (keepsLists_createOrOpenNamespace name canCreate) fun _ =>
      keepsLists_pure _

/-! ### Loading the pages -/

/-- The state of the page is the same. -/
def SameState (c c' : PageCtx) : Prop := c'.page.state = c.page.state

instance : IsPreorder PageCtx SameState where
  refl _ := rfl
  trans _ _ _ h h' := Eq.trans h' h

lemma sameState_of_tames {m : PageM α} (h : Tames m) : Confined SameState noSpace m :=
  h.mono fun _ _ h => h.state

namespace Page

lemma sameState_skipHalfWritten : ∀ n, Confined SameState noSpace (skipHalfWritten n)
  | 0 => .pure _
  | n + 1 => .bind .get fun _ => .ite
      (fun _ => .bind (sameState_of_tames (tames_spiFlashRead _ _)) fun _ =>
        .ite (fun _ => .pure _) fun _ => .bind
          (.bind (sameState_of_tames (tames_entryState _)) fun _ =>
            .bind (sameState_of_tames (tames_alterEntryState _ _)) fun _ => .modify fun _ => rfl)
          fun _ => sameState_skipHalfWritten n)
      fun _ => .pure _

lemma tames_allWritten : ∀ n i, Tames (allWritten i n)
  | 0, _ => .pure _
  | n + 1, _ => .bind (tames_entryState _) fun _ => .ite (fun _ => tames_allWritten n _)
      fun _ => .pure _

lemma tames_eraseDuplicate (d : Option ℕ) (i : ℕ) : Tames (eraseDuplicate d i) := by
  cases d with
  | none => exact .pure _
  | some d => exact .ite (fun _ => tames_eraseEntryAndSpan _) fun _ => .pure _

lemma tames_loadActiveItems (stop : ℕ) : ∀ fuel i last item,
    Tames (loadActiveItems stop fuel i last item)
  | 0, _, _, _ => tames_hang
  | fuel + 1, i, last, item => by
    rw [loadActiveItems]
    refine .ite (fun _ => .bind (tames_entryState _) fun state => ?_) fun _ => .pure _
    refine .ite (fun _ => tames_loadActiveItems stop fuel _ _ _) fun _ => ?_
    refine .bind (tames_readEntry _) fun it => .ite (fun _ => ?_) fun _ =>
      .bind (tames_eraseEntryAndSpan _) fun _ => tames_loadActiveItems stop fuel _ _ _
    refine .bind (tames_insertHash _ _) fun _ => .bind .get fun c => .ite (fun _ => ?_) fun _ =>
      .bind (tames_eraseDuplicate _ _) fun _ => tames_loadActiveItems stop fuel _ _ _
    exact .bind (tames_allWritten _ _) fun _ => .ite
      (fun _ => .bind (tames_eraseDuplicate _ _) fun _ => tames_loadActiveItems stop fuel _ _ _)
      fun _ => .bind (tames_eraseEntryAndSpan _) fun _ => tames_loadActiveItems stop fuel _ _ _

lemma tames_eraseTwinOfLast (last : ℕ) (item : Item) : Tames (eraseTwinOfLast last item) :=
  .ite (fun _ => .pure _) fun _ => .bind (tames_findItem _ _ _) fun _ =>
    .ite (fun _ => tames_eraseEntryAndSpan _) fun _ => .pure _

lemma tames_loadFullItems : ∀ n i, Tames (loadFullItems n i)
  | 0, _ => .pure _
  | n + 1, i => by
    rw [loadFullItems]
    refine .ite (fun _ => .bind (tames_entryState _) fun state => ?_) fun _ => .pure _
    refine .ite (fun _ => .bind (tames_readEntry _) fun it => ?_) fun _ => tames_loadFullItems n _
    refine .ite (fun _ => ?_) fun _ => .bind (tames_eraseEntryAndSpan _) fun _ =>
      tames_loadFullItems n _
    refine .bind (tames_assert _) fun _ => .bind (tames_insertHash _ _) fun _ => .bind ?_ fun _ =>
      tames_loadFullItems n _
    exact .ite (fun _ => .bind (tames_allWritten _ _) fun _ => .ite (fun _ => .pure _)
      fun _ => tames_eraseEntryAndSpan _) fun _ => .pure _

lemma sameState_loadEntryTable : Confined SameState noSpace loadEntryTable := by
  refine .bind (.modify fun _ => rfl) fun _ => .bind (.modify fun _ => rfl) fun _ =>
    .bind .get fun c => .ite (fun _ => ?_) fun _ => ?_
  · exact .bind (.modify fun _ => rfl) fun _ => .bind (sameState_skipHalfWritten _) fun _ =>
      .bind .get fun _ => .bind (sameState_of_tames (tames_loadActiveItems _ _ _ _ _)) fun _ =>
        sameState_of_tames (tames_eraseTwinOfLast _ _)
  · exact .bind .get fun _ => sameState_of_tames (tames_loadFullItems _ _)

/-- A page that has been loaded is not invalid. -/
lemma load_state : Triple (fun _ => True) load (fun _ c => c.page.state ≠ .invalid)
    fun _ _ => True := by
  have hany : ∀ {β : Type} (m : PageM β), Triple (fun _ => True) m (fun _ _ => True)
      fun _ _ => True := fun m s _ => by split <;> trivial
  refine .bind (hany _) fun _ => .bind (hany _) fun _ => .get_bind_eq fun c _ => ?_
  have hload : ∀ state, c.page.state = state → state ≠ .invalid →
      Triple (fun t => t = c) loadEntryTable (fun _ c => c.page.state ≠ .invalid)
        fun _ _ => True := by
    intro state hstate hne
    refine (sameState_loadEntryTable.triple (P := fun t => t = c)
      (Q := fun c => c.page.state ≠ .invalid) ?_).conseq (fun _ h => h) (fun _ _ h => h)
      fun _ _ _ => trivial
    rintro t t' rfl h
    rw [show t'.page.state = t.page.state from h, hstate]
    exact hne
  cases hc : c.page.state with
  | uninitialized => exact .pure fun t ht => by rw [ht, hc]; decide
  | active => exact hload _ hc (by decide)
  | full => exact hload _ hc (by decide)
  | freeing => exact hload _ hc (by decide)
  | corrupt => exact .modify fun t _ => by simp
  | invalid => exact .modify fun t _ => by simp

end Page

/-! ### The page manager -/

lemma insertBySeqNumber_perm (pages : ℕ → Page) (i n : ℕ) :
    ∀ l, List.Perm (insertBySeqNumber pages i n l) (i :: l) := by
  intro l
  induction l with
  | nil => exact .refl _
  | cons j l ih =>
    have hswap : List.Perm (j :: insertBySeqNumber pages i n l) (i :: j :: l) :=
      (ih.cons j).trans (List.Perm.swap i j l)
    rw [insertBySeqNumber]
    cases (pages j).getSeqNumber with
    | none => exact hswap
    | some other =>
      simp only
      split
      · exact .refl _
      · exact hswap

/-- What holds when the pages before `i` have been loaded. -/
structure Loaded (i : ℕ) (s : Partition) : Prop where
  perm : List.Perm (s.pageList ++ s.freePageList) (List.range i)
  blank : ∀ p ∈ s.freePageList, (s.pages p).Blank

lemma Loaded.parted {n : ℕ} (h : Loaded n s) : Parted s :=
  ⟨h.perm.nodup_iff.mpr List.nodup_range, h.blank⟩

lemma triple_loadPage (i : ℕ) : Triple (Loaded i) (do onPage i Page.load; listPage i)
    (fun _ => Loaded (i + 1)) fun _ _ => True := by
  refine .bind (Q := fun _ s => Loaded i s ∧ (s.pages i).state ≠ .invalid) ?_ fun _ => .modify ?_
  · intro s hs
    have h := Page.load_state (s.ctx i) trivial
    have hnot : i ∉ s.freePageList := by
      intro hi
      have := hs.perm.mem_iff.mp (List.mem_append_right _ hi)
      simp at this
    unfold onPage
    cases hrun : Page.load (s.ctx i) with
    | mk r c' =>
      rw [hrun] at h
      cases r with
      | error e => trivial
      | ok a =>
        refine ⟨⟨hs.perm, fun p hp => ?_⟩, ?_⟩
        · have hne : p ≠ i := by
            rintro rfl
            exact hnot hp
          rw [show (s.putCtx i (s.pages i).sector c').pages p = s.pages p from
            Function.update_of_ne hne ..]
          exact hs.blank p hp
        · rw [show (s.putCtx i (s.pages i).sector c').pages i = c'.page from
            Function.update_self ..]
          exact h
  · rintro s ⟨hs, hne⟩
    cases hseq : (s.pages i).getSeqNumber with
    | none =>
      have hblank : (s.pages i).Blank := by
        rw [Page.getSeqNumber] at hseq
        cases hst : (s.pages i).state <;> simp_all [Page.Blank]
      refine ⟨?_, fun p hp => ?_⟩
      · rw [List.range_succ, ← List.append_assoc]
        exact hs.perm.append_right [i]
      · rcases List.mem_append.mp hp with hp | hp
        · exact hs.blank p hp
        · rw [List.mem_singleton.mp hp]
          exact hblank
    | some n =>
      refine ⟨?_, hs.blank⟩
      rw [List.range_succ]
      refine ((insertBySeqNumber_perm s.pages i n s.pageList).append_right _).trans ?_
      exact (hs.perm.cons i).trans (List.perm_append_singleton i _).symm

lemma triple_loadPages (n : ℕ) : Triple (Loaded 0) (loadPages n) (fun _ => Loaded n)
    fun _ _ => True := by
  induction n with
  | zero => exact .pure fun _ h => h
  | succ n ih => exact .bind ih fun _ => triple_loadPage n

/-! ### Repairing -/

lemma calms_findLastItem (page : ℕ) : ∀ fuel i item found, Calms (findLastItem page fuel i item found)
  | 0, _, _, _ => calms_throw (by decide)
  | fuel + 1, _, _, _ => .bind (calms_onPage (Page.tames_findItem _ _ _) _) fun _ =>
      .ite (fun _ => calms_findLastItem page fuel _ _ _) fun _ => .pure _

lemma calms_eraseFirst (q : Page.Query) : ∀ l, Calms (eraseFirst q l)
  | [] => .pure _
  | _ :: l => .bind .get fun _ => .ite (fun _ => calms_eraseFirst q l) fun _ =>
      confined_attempt_bind (calms_onPage (Page.tames_eraseItem _) _) (fun _ => .pure _)
        fun _ _ => calms_eraseFirst q l

lemma calms_eraseDuplicateOfLast : Calms eraseDuplicateOfLast := by
  refine .bind .get fun s => .bind (calms_findLastItem _ _ _ _ _) fun last => ?_
  cases last with
  | none => exact .pure _
  | some item =>
    exact .bind .get fun _ => .bind (calms_eraseFirst _ _) fun _ => .ite
      (fun _ => .bind (calms_eraseFirst _ _) fun _ => .pure _) fun _ => .pure _

/-- Dropping the new page leaves the page that is being freed in use. -/
lemma triple_dropNewPage (hs : Lists s) (hp : p ∈ s.pageList) (hst : (s.pages p).state = .freeing) :
    Triple (fun t => t = s) dropNewPage (fun _ t => Lists t ∧ p ∈ t.pageList) fun _ _ => True := by
  refine .get_bind fun t ht => ?_
  subst ht
  refine .ite (fun hact => ?_) fun _ => .pure fun t' ht' => by subst ht'; exact ⟨hs, hp⟩
  have hne : p ≠ back t := by
    rintro rfl
    rw [hst] at hact
    cases hact
  have herase : Triple (ListsAre t.pageList t.freePageList) (onPage (back t) Page.erase) _ _ :=
    triple_erase hs.back_mem
  refine .bind ((herase.at_state (.of_lists hs)).conseq (fun _ h => h) (fun _ _ h => h)
    fun _ _ _ => trivial) fun _ => .modify fun t' ht' => ?_
  refine ⟨release_lists ht'.1 hs.back_mem hp hne ht'.2, ?_⟩
  exact (List.mem_erase_of_ne hne).mpr (ht'.1.used_eq ▸ hp)

lemma keepsLists_finishFreeing : Triple Lists finishFreeing (fun _ => Lists) fun _ _ => True := by
  refine .get_bind_eq fun s hs => ?_
  cases hfind : s.pageList.find? fun i => (s.pages i).state = .freeing with
  | none => exact .pure fun t ht => ht ▸ hs
  | some p =>
    have hp := List.mem_of_find?_eq_some hfind
    have hst : (s.pages p).state = .freeing := by simpa using List.find?_some hfind
    refine .bind (triple_dropNewPage hs hp hst) fun _ => ?_
    intro t ht
    refine Triple.bind (P := ListsAre t.pageList t.freePageList)
      (triple_activatePage.conseq (fun _ h => h) (fun _ _ h => h) fun _ _ _ => trivial)
      (fun _ => .of_exists fun q => .of_exists fun rest => .assume fun _ => ?_) t (.of_lists ht.1)
    refine Triple.conseq (P := ListsAre (t.pageList ++ [q]) rest) (.get_bind fun u hu => ?_)
      (fun _ h => h.1) (fun _ _ h => h) fun _ _ h => h
    have hp' : p ∈ t.pageList ++ [q] := List.mem_append_left _ ht.2
    have hq : q ∈ t.pageList ++ [q] := List.mem_append_right _ (List.mem_singleton.mpr rfl)
    have hback : back u = q := by rw [back, hu.used_eq, List.getLastD_concat]
    have hpq : q ≠ p := hu.fresh_ne ht.2
    rw [hback]
    exact .bind ((keepsThese_copyItemsIfAny hq).conseq (fun _ h => h) (fun _ _ h => h)
      fun _ _ _ => trivial) fun _ => .bind ((triple_erase hp').conseq (fun _ h => h)
        (fun _ _ h => h) fun _ _ _ => trivial) fun _ => .modify fun v hv =>
          release_lists hv.1 hp' hq hpq hv.2

/-- The lists after the pages have been loaded. -/
lemma load_lists (baseSector sectorCount : ℕ) : Triple (fun _ => True)
    (PageManager.load baseSector sectorCount) (fun _ => Lists) fun _ _ => True := by
  refine .modify_bind (J := Loaded 0) (fun s _ => ⟨.refl _, fun p hp => nomatch hp⟩) ?_
  refine .bind (triple_loadPages sectorCount) fun _ => .get_bind_eq fun s hs => ?_
  refine .ite (fun hnil => ?_) fun hne => ?_
  · refine .modify_bind (J := Parted) (fun t ht => ?_) fun t ht => ?_
    · subst ht
      exact ⟨hs.parted.nodup, hs.parted.blank⟩
    · cases hfree : t.freePageList with
      | nil =>
        rw [show activatePage t = (.error (.code .notEnoughSpace), t) by
          rw [activatePage, Prog.get_bind]
          simp only [hfree]
          rfl]
        trivial
      | cons p rest =>
        obtain ⟨s', hrun, hs', -⟩ := activatePage_lists ht hfree
        rw [hrun]
        exact hs'
  · have hlists : Lists s := ⟨hs.parted, hne⟩
    refine .modify_bind (J := Lists) (fun t ht => ?_) ?_
    · subst ht
      exact hlists.of_eq rfl rfl rfl
    · refine .bind ((keepsLists_calms calms_eraseDuplicateOfLast).conseq (fun _ h => h)
        (fun _ _ h => h) fun _ _ _ => trivial) fun _ => .bind keepsLists_finishFreeing fun _ => ?_
      exact .get_bind_eq fun t ht => .ite (fun _ => .throw fun _ _ => trivial) fun _ =>
        .pure fun u hu => hu ▸ ht

/-! ### The storage -/

namespace Storage

lemma calms_loadNamespaces (page : ℕ) : ∀ fuel i item, Calms (loadNamespaces page fuel i item)
  | 0, _, _ => calms_throw (by decide)
  | fuel + 1, _, _ => .bind (calms_onPage (Page.tames_findItem _ _ _) _) fun _ => .ite
      (fun _ => .bind (.modify fun _ => ⟨rfl, rfl, rfl, fun _ => ⟨rfl, le_rfl⟩⟩) fun _ =>
        calms_loadNamespaces page fuel _ _) fun _ => .pure _

lemma calms_populateBlobIndices (page : ℕ) :
    ∀ fuel i item, Calms (populateBlobIndices page fuel i item)
  | 0, _, _ => calms_throw (by decide)
  | fuel + 1, _, _ => .bind (calms_onPage (Page.tames_findItem _ _ _) _) fun _ => .ite
      (fun _ => .bind (calms_populateBlobIndices page fuel _ _) fun _ => .pure _) fun _ => .pure _

lemma calms_eraseOrphanDataBlobs (page : ℕ) (indices : List BlobIndexNode) :
    ∀ fuel i item, Calms (eraseOrphanDataBlobs page indices fuel i item)
  | 0, _, _ => calms_throw (by decide)
  | fuel + 1, _, _ => .bind (calms_onPage (Page.tames_findItem _ _ _) _) fun _ => .ite
      (fun _ => .bind (.ite (fun _ => .pure _) fun _ =>
        .bind (confined_attempt (calms_onPage (Page.tames_eraseItem _) _)) fun _ => .pure _)
        fun _ => calms_eraseOrphanDataBlobs page indices fuel _ _) fun _ => .pure _

lemma calms_forPages {f : ℕ → NvsM Unit} (h : ∀ i, Calms (f i)) : ∀ l, Calms (forPages f l)
  | [] => .pure _
  | i :: l => .bind (h i) fun _ => calms_forPages h l

lemma calms_allBlobIndices : ∀ l, Calms (allBlobIndices l)
  | [] => .pure _
  | _ :: l => .bind (calms_populateBlobIndices _ _ _ _) fun _ =>
      .bind (calms_allBlobIndices l) fun _ => .pure _

lemma keepsLists_loadItems : KeepsLists loadItems := by
  refine .modify_bind (fun s hs => hs.of_eq rfl rfl rfl) (.get_bind fun s _ => ?_)
  refine KeepsLists.bind (keepsLists_calms
    (calms_forPages (fun _ => calms_loadNamespaces _ _ _ _) _)) fun _ => ?_
  refine .modify_bind (fun s hs => hs.of_eq rfl rfl rfl) ?_
  exact KeepsLists.bind (keepsLists_calms (calms_allBlobIndices _)) fun _ =>
    keepsLists_calms (calms_forPages (fun _ => calms_eraseOrphanDataBlobs _ _ _ _ _) _)

lemma init_lists (baseSector sectorCount : ℕ) : Triple (fun _ => True)
    (init baseSector sectorCount) (fun _ => Lists) fun _ _ => True := by
  refine .bind (triple_attempt (load_lists baseSector sectorCount)) fun r => ?_
  cases r with
  | ok _ => exact keepsLists_loadItems.conseq (fun _ h => h) (fun _ _ h => h) fun _ _ _ => trivial
  | error e =>
    exact .modify_bind (J := fun _ => True) (fun _ _ => trivial) (.throw fun _ _ => trivial)

end Storage

/-- The lists of a storage that has been initialised. -/
theorem Reachable.lists (h : Reachable s) : Lists s := by
  induction h with
  | init s₀ s base count h => exact (Storage.init_lists base count).returns trivial h
  | call s s' c r hs h ih =>
    have hkeep := triple_attempt (c.keepsLists) s ih
    rw [h] at hkeep
    cases r <;> exact hkeep

end EspIdf.Nvs
