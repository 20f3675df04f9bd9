/-
# Held mappings

While a handle is held, the entries behind its address map the pages that were asked for, as
long as no count of 255 is counted up, no page number is too large for an entry and no handle
comes back while it is held.
-/
import EspIdf.SpiFlash.Mmap

namespace EspIdf.SpiFlash

/-! ### Runs -/

/-- A mapping that is held: what was returned, and what was asked for. -/
structure Mapping where
  handle : ℕ
  ptr : ℕ
  memory : Memory
  pages : List ℕ

variable (t : Target)

/-- The entry behind the address. -/
def Mapping.first (m : Mapping) : ℕ :=
  (getMmuRegion t m.memory).start + (m.ptr - (getMmuRegion t m.memory).addr) / mmuPageSize

/-- The mapping is one of entry `i`. -/
def Mapping.covers (i : ℕ) (m : Mapping) : Bool :=
  m.first t ≤ i ∧ i < m.first t + m.pages.length

/-- The mapping in the list of the code. -/
def Mapping.entry (m : Mapping) : MmapEntry := ⟨m.handle, m.first t, m.pages.length⟩

/-- The tables, and the mappings that are held. -/
structure World where
  tables : MmapState
  held : List Mapping

/-- The calls. -/
inductive Op where
  | mmap (srcAddr size : ℕ) (memory : Memory) (memPages memEntry : Bool)
  | mmapPages (pages : List ℤ) (memory : Memory) (internal mem : Bool)
  | munmap (handle : ℕ)

/-- After a call that maps pages, its mapping is held. -/
def World.mapped (w : World) (memory : Memory) (pages : List ℤ) :
    Except Err (ℕ × ℕ) × MmapState → World
  | (.ok (ptr, handle), s) => ⟨s, ⟨handle, ptr, memory, pages.map Int.toNat⟩ :: w.held⟩
  | (.error _, s) => ⟨s, w.held⟩

/-- A call; there is no next state if an assertion fails. -/
def World.step (chipSize : ℕ) (w : World) : Op → Option World
  | .mmap srcAddr size memory memPages memEntry =>
    (spiFlashMmap t chipSize w.tables srcAddr size memory memPages memEntry).map
      (w.mapped memory (pagesOf srcAddr size))
  | .mmapPages pages memory internal mem =>
    (spiFlashMmapPages t chipSize w.tables pages memory internal mem).map
      (w.mapped memory pages)
  | .munmap handle =>
    (spiFlashMunmap t w.tables handle).map fun s =>
      ⟨s, w.held.eraseP fun m => m.handle == handle⟩

/-- The tables after `spi_flash_mmap_init`, from what the bootloader left. -/
def World.init (pro app : ℕ → ℕ) : World :=
  ⟨spiFlashMmapInit t ⟨pro, app, fun _ => 0, [], 0⟩, []⟩

/-- Each mapping that is held maps its pages, the counts are those of the mappings, and
entries that are not counted are invalid. -/
structure Held (boot : ℕ → ℕ) (w : World) : Prop where
  distinct : (w.held.map Mapping.handle).Nodup
  maps : ∀ m ∈ w.held, ∀ k p, m.pages[k]? = some p →
    t.physPage (w.tables.pro (m.first t + k)) = some p ∧
      (t.unicore = false → t.physPage (w.tables.app (m.first t + k)) = some p)
  refcnt : ∀ i, w.tables.refcnt i = boot i + w.held.countP (Mapping.covers t i)
  invalid : ∀ i < t.pages, w.tables.refcnt i = 0 →
    w.tables.pro i = t.invalidEntryVal ∧
      (t.unicore = false → w.tables.app i = t.invalidEntryVal)

/-- No assertion fails, and the mappings are good at every moment. -/
def AlwaysHeld (chipSize : ℕ) (boot : ℕ → ℕ) : World → List Op → Prop
  | w, [] => Held t boot w
  | w, op :: ops => Held t boot w ∧
      ∃ w', w.step t chipSize op = some w' ∧ AlwaysHeld chipSize boot w' ops

/-- Only handles that are held are unmapped. -/
def Op.Valid (w : World) : Op → Prop
  | .munmap handle => ∃ m ∈ w.held, m.handle = handle
  | _ => True

/-- All calls of the run that are reached are valid. -/
def ValidRun (chipSize : ℕ) : World → List Op → Prop
  | _, [] => True
  | w, op :: ops => op.Valid w ∧
      ∀ w', w.step t chipSize op = some w' → ValidRun chipSize w' ops

/-- If pages are mapped, no count overflows, the page numbers fit into an entry, and the next
handle is not held. -/
def PagesRegular (chipSize : ℕ) (w : World) (pages : List ℤ) (memory : Memory)
    (internal mem : Bool) : Prop :=
  internal = true → pagesAccepted chipSize pages = true → mem = true →
    pages.length ≤ (getMmuRegion t memory).size →
    ∀ start, findStart t w.tables (pages.map Int.toNat) (getMmuRegion t memory) = some start →
      (∀ k < pages.length, w.tables.refcnt (start + k) < 255) ∧
      (∀ p ∈ pages, p.toNat ≤ t.mmuAddrMask) ∧
      ∀ m ∈ w.held, m.handle ≠ (w.tables.lastHandle + 1) % 2 ^ 32

/-- The call does not run into an overflow. -/
def Op.Regular (chipSize : ℕ) (w : World) : Op → Prop
  | .mmap srcAddr size memory memPages memEntry =>
    srcAddr % mmuPageSize = 0 → (srcAddr + size) % 2 ^ 32 ≤ chipSize → memPages = true →
      PagesRegular t chipSize w (pagesOf srcAddr size) memory true memEntry
  | .mmapPages pages memory internal mem => PagesRegular t chipSize w pages memory internal mem
  | .munmap _ => True

/-- No call of the run runs into an overflow. -/
def RegularRun (chipSize : ℕ) : World → List Op → Prop
  | _, [] => True
  | w, op :: ops => op.Regular t chipSize w ∧
      ∀ w', w.step t chipSize op = some w' → RegularRun chipSize w' ops

/-! The conditions can be evaluated. -/

instance decidableForallSome {α : Type} (o : Option α) (P : α → Prop) [DecidablePred P] :
    Decidable (∀ a, o = some a → P a) :=
  match o with
  | none => isTrue fun _ h => absurd h (by simp)
  | some a => decidable_of_iff (P a) (by simp)

instance (w : World) : (op : Op) → Decidable (op.Valid w)
  | .munmap handle => inferInstanceAs (Decidable (∃ m ∈ w.held, m.handle = handle))
  | .mmap .. => isTrue trivial
  | .mmapPages .. => isTrue trivial

instance (chipSize : ℕ) (w : World) (pages : List ℤ) (memory : Memory) (internal mem : Bool) :
    Decidable (PagesRegular t chipSize w pages memory internal mem) :=
  inferInstanceAs (Decidable (_ → _ → _ → _ → _))

instance (chipSize : ℕ) (w : World) : (op : Op) → Decidable (op.Regular t chipSize w)
  | .mmap .. => inferInstanceAs (Decidable (_ → _ → _ → _))
  | .mmapPages .. => inferInstanceAs (Decidable (PagesRegular ..))
  | .munmap _ => isTrue trivial

instance decidableValidRun (chipSize : ℕ) : (w : World) → (ops : List Op) →
    Decidable (ValidRun t chipSize w ops)
  | _, [] => isTrue trivial
  | w, op :: ops =>
    have (w' : World) : Decidable (ValidRun t chipSize w' ops) := decidableValidRun chipSize w' ops
    inferInstanceAs (Decidable (op.Valid w ∧ ∀ w', w.step t chipSize op = some w' → _))

instance decidableRegularRun (chipSize : ℕ) : (w : World) → (ops : List Op) →
    Decidable (RegularRun t chipSize w ops)
  | _, [] => isTrue trivial
  | w, op :: ops =>
    have (w' : World) : Decidable (RegularRun t chipSize w' ops) :=
      decidableRegularRun chipSize w' ops
    inferInstanceAs (Decidable (op.Regular t chipSize w ∧
      ∀ w', w.step t chipSize op = some w' → _))

/-! ### What the loops do -/

variable {t}

lemma rangeMatches_iff {s : MmapState} : ∀ {pages : List ℕ} {i : ℕ},
    rangeMatches t s pages i = true ↔ ∀ k p, pages[k]? = some p →
      s.refcnt (i + k) = 0 ∨ s.pro (i + k) = t.pageInFlash p := by
  intro pages
  induction pages with
  | nil => simp [rangeMatches]
  | cons p pages ih =>
    intro i
    rw [rangeMatches, Bool.and_eq_true, ih]
    constructor
    · rintro ⟨hfirst, hrest⟩ (_ | k) q hk
      · obtain rfl : p = q := by simpa using hk
        rw [Nat.add_zero]
        by_contra hno
        exact absurd hfirst (by simpa [not_or] using hno)
      · have := hrest k q (by simpa using hk)
        rwa [Nat.add_right_comm, Nat.add_assoc] at this
    · rintro h
      constructor
      · have := h 0 p rfl
        rw [Nat.add_zero] at this
        simp only [Bool.not_eq_true', decide_eq_false_iff_not, not_and_or, not_not]
        exact this
      · rintro k q hk
        have := h (k + 1) q (by simpa using hk)
        rwa [Nat.add_right_comm, Nat.add_assoc]

lemma findStart_eq_some {s : MmapState} {pages : List ℕ} {r : Region} {start : ℕ}
    (h : findStart t s pages r = some start) (hlen : pages.length ≤ r.size) :
    r.start ≤ start ∧ start + pages.length ≤ r.start + r.size ∧
      rangeMatches t s pages start = true := by
  rw [findStart] at h
  have hmem := List.mem_of_find?_eq_some h
  rw [List.mem_range'_1] at hmem
  exact ⟨hmem.1, by omega, List.find?_some h⟩

/-- The entries `i`, `i + 1`, … map the pages, and are counted once more. -/
structure SetUp (t : Target) (pages : List ℕ) (i : ℕ) (s s' : MmapState) : Prop where
  entries : s'.entries = s.entries
  lastHandle : s'.lastHandle = s.lastHandle
  outside : ∀ j, (j < i ∨ i + pages.length ≤ j) →
    s'.pro j = s.pro j ∧ s'.app j = s.app j ∧ s'.refcnt j = s.refcnt j
  inside : ∀ k p, pages[k]? = some p →
    s'.pro (i + k) = t.pageInFlash p ∧ (t.unicore = false → s'.app (i + k) = t.pageInFlash p) ∧
      s'.refcnt (i + k) = s.refcnt (i + k) + 1

/-- One round of the loop, for an entry that is unused or maps the page. -/
lemma setUp_cons {s : MmapState} {p : ℕ} {pages : List ℕ} {i : ℕ} (hcount : s.refcnt i < 255)
    (hmatch : s.refcnt i = 0 ∨ s.pro i = t.pageInFlash p)
    (happ : t.unicore = false → s.app i = s.pro i) :
    setUp t (p :: pages) i s = setUp t pages (i + 1)
      { s with
        pro := Function.update s.pro i (t.pageInFlash p)
        app := if t.unicore then s.app else Function.update s.app i (t.pageInFlash p)
        refcnt := Function.update s.refcnt i (s.refcnt i + 1) } := by
  have hmod : (s.refcnt i + 1) % 2 ^ 8 = s.refcnt i + 1 := Nat.mod_eq_of_lt (by omega)
  have hassert : s.refcnt i = 0 ∨
      s.pro i = t.pageInFlash p ∧ (t.unicore = true ∨ s.app i = t.pageInFlash p) := by
    rcases hmatch with h | h
    · exact .inl h
    · refine .inr ⟨h, ?_⟩
      cases huni : t.unicore with
      | true => exact .inl rfl
      | false => exact .inr ((happ huni).trans h)
  rw [setUp, if_pos hassert]
  by_cases hwrite : s.refcnt i = 0 ∧ (s.pro i ≠ t.pageInFlash p ∨
      t.unicore = false ∧ s.app i ≠ t.pageInFlash p)
  · simp only [if_pos hwrite, hmod]
    cases huni : t.unicore with
    | true => rfl
    | false => rw [t.pageInFlash_app huni]
  · -- the entry maps the page already
    have hpro : s.pro i = t.pageInFlash p := by
      rcases hmatch with h | h
      · by_contra hne
        exact hwrite ⟨h, .inl hne⟩
      · exact h
    have hupdate : Function.update s.pro i (t.pageInFlash p) = s.pro := by
      rw [← hpro, Function.update_eq_self]
    simp only [if_neg hwrite, hmod, hupdate]
    cases huni : t.unicore with
    | true => rfl
    | false =>
      have : Function.update s.app i (t.pageInFlash p) = s.app := by
        rw [← hpro, ← happ huni, Function.update_eq_self]
      simp [this]

lemma setUp_spec : ∀ (pages : List ℕ) (i : ℕ) (s : MmapState),
    (∀ k p, pages[k]? = some p → s.refcnt (i + k) < 255 ∧
      (s.refcnt (i + k) = 0 ∨ s.pro (i + k) = t.pageInFlash p) ∧
      (t.unicore = false → s.app (i + k) = s.pro (i + k))) →
    ∃ s', setUp t pages i s = some s' ∧ SetUp t pages i s s' := by
  intro pages
  induction pages with
  | nil => exact fun _ _ _ => ⟨_, rfl, rfl, rfl, fun _ _ => ⟨rfl, rfl, rfl⟩, by simp⟩
  | cons p pages ih =>
    intro i s h
    obtain ⟨hcount, hmatch, happ⟩ := h 0 p rfl
    rw [Nat.add_zero] at hcount hmatch happ
    rw [setUp_cons hcount hmatch happ]
    -- the rest of the entries are as they were
    have hrest (j : ℕ) (hj : j ≠ i) : (if t.unicore then s.app
        else Function.update s.app i (t.pageInFlash p)) j = s.app j := by
      split
      · rfl
      · exact Function.update_of_ne hj ..
    obtain ⟨s', heq, hs'⟩ := ih (i + 1)
      { s with
        pro := Function.update s.pro i (t.pageInFlash p)
        app := if t.unicore then s.app else Function.update s.app i (t.pageInFlash p)
        refcnt := Function.update s.refcnt i (s.refcnt i + 1) } (by
      rintro k q hk
      have := h (k + 1) q (by simpa using hk)
      rw [← Nat.add_assoc, Nat.add_right_comm] at this
      simp only [hrest (i + 1 + k) (by omega)]
      rw [Function.update_of_ne (by omega), Function.update_of_ne (by omega)]
      exact this)
    refine ⟨s', heq, hs'.entries, hs'.lastHandle, ?_, ?_⟩
    · rintro j hj
      rw [List.length_cons] at hj
      obtain ⟨hp, ha, hr⟩ := hs'.outside j (by omega)
      simp only [hrest j (by omega)] at ha
      rw [hp, ha, hr]
      exact ⟨Function.update_of_ne (by omega) .., rfl, Function.update_of_ne (by omega) ..⟩
    · rintro (_ | k) q hk
      · obtain rfl : p = q := by simpa using hk
        obtain ⟨hp, ha, hr⟩ := hs'.outside i (by omega)
        rw [Nat.add_zero, hp, ha, hr]
        refine ⟨Function.update_self .., fun huni => ?_, Function.update_self ..⟩
        rw [huni]
        exact Function.update_self ..
      · obtain ⟨hp, ha, hr⟩ := hs'.inside k q (by simpa using hk)
        rw [Nat.add_right_comm, Nat.add_assoc] at hp ha hr
        refine ⟨hp, ha, hr.trans (congrArg (· + 1) ?_)⟩
        exact Function.update_of_ne (by omega) ..

/-- The entries from `i` on are counted once less, and those that reach zero are invalid. -/
structure Released (t : Target) (count i : ℕ) (s s' : MmapState) : Prop where
  entries : s'.entries = s.entries
  lastHandle : s'.lastHandle = s.lastHandle
  outside : ∀ j, (j < i ∨ i + count ≤ j) →
    s'.pro j = s.pro j ∧ s'.app j = s.app j ∧ s'.refcnt j = s.refcnt j
  inside : ∀ j, i ≤ j → j < i + count → s.refcnt j = s'.refcnt j + 1 ∧
    if s'.refcnt j = 0 then
      s'.pro j = t.invalidEntryVal ∧ (t.unicore = false → s'.app j = t.invalidEntryVal)
    else s'.pro j = s.pro j ∧ s'.app j = s.app j

/-- One round of the loop. -/
lemma release_succ (count : ℕ) {i : ℕ} {s : MmapState} (hpos : 0 < s.refcnt i) :
    ∃ s₁, release t (count + 1) i s = release t count (i + 1) s₁ ∧ Released t 1 i s s₁ := by
  rw [release, if_pos hpos]
  refine ⟨_, rfl, ?_⟩
  split
  · next hzero =>
    simp only [Function.update_self] at hzero
    refine ⟨rfl, rfl, fun j hj => ?_, fun j h1 h2 => ?_⟩
    · refine ⟨Function.update_of_ne (by omega) .., ?_, Function.update_of_ne (by omega) ..⟩
      change (if t.unicore = true then s.app else Function.update s.app i _) j = s.app j
      split
      · rfl
      · exact Function.update_of_ne (by omega) ..
    · obtain rfl : j = i := by omega
      change s.refcnt j = Function.update s.refcnt j (s.refcnt j - 1) j + 1 ∧
        if Function.update s.refcnt j (s.refcnt j - 1) j = 0 then _ else _
      rw [Function.update_self, if_pos hzero]
      refine ⟨by omega, Function.update_self .., fun huni => ?_⟩
      simp [huni]
  · next hzero =>
    simp only [Function.update_self] at hzero
    refine ⟨rfl, rfl, fun j hj => ⟨rfl, rfl, Function.update_of_ne (by omega) ..⟩,
      fun j h1 h2 => ?_⟩
    obtain rfl : j = i := by omega
    change s.refcnt j = Function.update s.refcnt j (s.refcnt j - 1) j + 1 ∧
      if Function.update s.refcnt j (s.refcnt j - 1) j = 0 then _ else _
    rw [Function.update_self, if_neg hzero]
    exact ⟨by omega, rfl, rfl⟩

lemma release_spec (t : Target) : ∀ (count i : ℕ) (s : MmapState),
    (∀ j, i ≤ j → j < i + count → 0 < s.refcnt j) →
    ∃ s', release t count i s = some s' ∧ Released t count i s s' := by
  intro count
  induction count with
  | zero =>
    intro i s _
    exact ⟨s, rfl, rfl, rfl, fun _ _ => ⟨rfl, rfl, rfl⟩, fun j _ _ => by omega⟩
  | succ count ih =>
    intro i s h
    obtain ⟨s₁, heq, hs₁⟩ := release_succ (t := t) count (h i (Nat.le_refl _) (by omega))
    obtain ⟨s', heq', hs'⟩ := ih (i + 1) s₁ (by
      rintro j h1 h2
      rw [(hs₁.outside j (by omega)).2.2]
      exact h j (by omega) (by omega))
    refine ⟨s', heq.trans heq', hs'.entries.trans hs₁.entries,
      hs'.lastHandle.trans hs₁.lastHandle, ?_, ?_⟩
    · rintro j hj
      obtain ⟨hp, ha, hr⟩ := hs'.outside j (by omega)
      rw [hp, ha, hr]
      exact hs₁.outside j (by omega)
    · rintro j h1 h2
      by_cases hj : j = i
      · obtain ⟨hp, ha, hr⟩ := hs'.outside j (by omega)
        rw [hp, ha, hr]
        exact hs₁.inside j (by omega) (by omega)
      · obtain ⟨hp, ha, hr⟩ := hs₁.outside j (by omega)
        rw [← hp, ← ha, ← hr]
        exact hs'.inside j (by omega) (by omega)

/-! ### The invariant -/

variable {chipSize : ℕ} {boot : ℕ → ℕ} {w : World}

/-- The list of the code is the list of the held mappings, the counts are right, and both
tables say the same. -/
structure Inv (t : Target) (boot : ℕ → ℕ) (w : World) : Prop where
  entries : w.tables.entries = w.held.map (Mapping.entry t)
  distinct : (w.held.map Mapping.handle).Nodup
  inside : ∀ m ∈ w.held, m.first t + m.pages.length ≤ t.pages
  maps : ∀ m ∈ w.held, ∀ k p, m.pages[k]? = some p →
    p ≤ t.mmuAddrMask ∧ w.tables.pro (m.first t + k) = t.pageInFlash p
  same : t.unicore = false → ∀ i < t.pages, w.tables.app i = w.tables.pro i
  refcnt : ∀ i, w.tables.refcnt i = boot i + w.held.countP (Mapping.covers t i)
  invalid : ∀ i < t.pages, w.tables.refcnt i = 0 → w.tables.pro i = t.invalidEntryVal
  booted : boot t.drom0PagesStart ≠ 0

lemma Mapping.covers_iff {m : Mapping} {i : ℕ} :
    m.covers t i = true ↔ m.first t ≤ i ∧ i < m.first t + m.pages.length := by
  rw [covers, decide_eq_true_eq]

lemma Inv.lt_pages (h : Inv t boot w) {m : Mapping} (hm : m ∈ w.held) {k p : ℕ}
    (hk : m.pages[k]? = some p) : m.first t + k < t.pages := by
  have hlen := (List.getElem?_eq_some_iff.mp hk).1
  have := h.inside m hm
  omega

/-- What is mapped is counted. -/
lemma Inv.refcnt_ne_zero (h : Inv t boot w) {m : Mapping} (hm : m ∈ w.held) {k p : ℕ}
    (hk : m.pages[k]? = some p) : w.tables.refcnt (m.first t + k) ≠ 0 := by
  have hlen := (List.getElem?_eq_some_iff.mp hk).1
  have hpos : 0 < w.held.countP (Mapping.covers t (m.first t + k)) :=
    List.countP_pos_iff.mpr ⟨m, hm, Mapping.covers_iff.mpr (by omega)⟩
  rw [h.refcnt]
  omega

lemma Inv.held (h : Inv t boot w) : Held t boot w where
  distinct := h.distinct
  refcnt := h.refcnt
  maps := by
    rintro m hm k p hk
    obtain ⟨hle, hpro⟩ := h.maps m hm k p hk
    have hphys := t.physPage_pageInFlash hle
    refine ⟨by rw [hpro, hphys], fun huni => ?_⟩
    rw [h.same huni _ (h.lt_pages hm hk), hpro, hphys]
  invalid := by
    rintro i hi hzero
    have hpro := h.invalid i hi hzero
    exact ⟨hpro, fun huni => (h.same huni i hi).trans hpro⟩

/-- The mappings are initialised once. -/
lemma Inv.spiFlashMmapInit_eq (h : Inv t boot w) :
    spiFlashMmapInit t w.tables = w.tables := by
  rw [spiFlashMmapInit, if_pos]
  have := h.booted
  rw [h.refcnt]
  omega

lemma inv_init (pro app : ℕ → ℕ)
    (hdrom : (World.init t pro app).tables.refcnt t.drom0PagesStart ≠ 0) :
    Inv t (World.init t pro app).tables.refcnt (World.init t pro app) where
  entries := rfl
  distinct := List.nodup_nil
  inside := fun _ h => absurd h List.not_mem_nil
  maps := fun _ h => absurd h List.not_mem_nil
  refcnt := fun _ => rfl
  booted := hdrom
  same := by
    rintro huni i hi
    change (if i < t.pages ∧ ¬ t.Keeps _ i ∧ t.unicore = false then t.invalidEntryVal
      else app i) = if i < t.pages ∧ ¬ t.Keeps _ i then t.invalidEntryVal else pro i
    by_cases hkeeps : t.Keeps ⟨pro, app, fun _ => 0, [], 0⟩ i
    · rw [if_neg (fun h => h.2.1 hkeeps), if_neg (fun h => h.2 hkeeps)]
      rcases hkeeps.1 with h | h
      · exact absurd (h.symm.trans huni) (by decide)
      · exact h.symm
    · rw [if_pos ⟨hi, hkeeps, huni⟩, if_pos ⟨hi, hkeeps⟩]
  invalid := by
    rintro i hi hzero
    change (if i < t.pages ∧ t.Keeps _ i then 1 else 0) = 0 at hzero
    change (if i < t.pages ∧ ¬ t.Keeps _ i then t.invalidEntryVal else pro i) = _
    by_cases hkeeps : t.Keeps ⟨pro, app, fun _ => 0, [], 0⟩ i
    · rw [if_pos ⟨hi, hkeeps⟩] at hzero
      exact absurd hzero Nat.one_ne_zero
    · rw [if_pos ⟨hi, hkeeps⟩]

/-- The region lies in the tables, and its addresses in the address space. -/
lemma getMmuRegion_le (t : Target) (memory : Memory) :
    (getMmuRegion t memory).start + (getMmuRegion t memory).size ≤ t.pages ∧
      (getMmuRegion t memory).addr + (getMmuRegion t memory).size * mmuPageSize < 2 ^ 32 := by
  cases memory with
  | data => exact ⟨t.drom0_le, t.vaddr0_lt⟩
  | inst => exact ⟨t.iram0_le, t.vaddr1_lt⟩

/-- The address that is returned leads back to the entry. -/
lemma first_eq (t : Target) (memory : Memory) (handle : ℕ) (pages : List ℕ) {start : ℕ}
    (hle : (getMmuRegion t memory).start ≤ start)
    (hlt : start ≤ (getMmuRegion t memory).start + (getMmuRegion t memory).size) :
    (Mapping.mk handle (((getMmuRegion t memory).addr +
      (start - (getMmuRegion t memory).start) * mmuPageSize) % 2 ^ 32) memory pages).first t =
        start := by
  have haddr := (getMmuRegion_le t memory).2
  have hmul : (start - (getMmuRegion t memory).start) * mmuPageSize ≤
      (getMmuRegion t memory).size * mmuPageSize := Nat.mul_le_mul_right _ (by omega)
  rw [Mapping.first, Nat.mod_eq_of_lt (by omega), Nat.add_sub_cancel_left,
    Nat.mul_div_cancel _ (by decide)]
  exact Nat.add_sub_cancel' hle

/-- A mapping is set up. -/
lemma Inv.setUp (h : Inv t boot w) {m : Mapping} {s : MmapState} (lastHandle : ℕ)
    (hset : SetUp t m.pages (m.first t) w.tables s)
    (hmatch : ∀ k p, m.pages[k]? = some p → w.tables.refcnt (m.first t + k) = 0 ∨
      w.tables.pro (m.first t + k) = t.pageInFlash p)
    (hinside : m.first t + m.pages.length ≤ t.pages) (hmask : ∀ p ∈ m.pages, p ≤ t.mmuAddrMask)
    (hfresh : ∀ m' ∈ w.held, m'.handle ≠ m.handle) :
    Inv t boot ⟨{ s with
      entries := m.entry t :: s.entries
      lastHandle := lastHandle }, m :: w.held⟩ := by
  -- an entry that is counted keeps what it maps
  have hkeep (j : ℕ) (hj : w.tables.refcnt j ≠ 0) : s.pro j = w.tables.pro j := by
    by_cases hin : m.first t ≤ j ∧ j < m.first t + m.pages.length
    · obtain ⟨k, rfl⟩ := Nat.exists_eq_add_of_le hin.1
      have hk := List.getElem?_eq_getElem (show k < m.pages.length by omega)
      rw [(hset.inside k _ hk).1, (hmatch k _ hk).resolve_left hj]
    · exact (hset.outside j (by omega)).1
  constructor
  case entries =>
    change m.entry t :: s.entries = _
    rw [hset.entries, h.entries, List.map_cons]
  case distinct =>
    rw [List.map_cons, List.nodup_cons]
    refine ⟨?_, h.distinct⟩
    rintro hmem
    obtain ⟨m', hm', heq⟩ := List.mem_map.mp hmem
    exact hfresh m' hm' heq
  case inside =>
    rintro m' hm'
    rcases List.mem_cons.mp hm' with rfl | hm'
    · exact hinside
    · exact h.inside m' hm'
  case maps =>
    rintro m' hm' k p hk
    rcases List.mem_cons.mp hm' with rfl | hm'
    · exact ⟨hmask p (List.mem_of_getElem? hk), (hset.inside k p hk).1⟩
    · obtain ⟨hle, hpro⟩ := h.maps m' hm' k p hk
      exact ⟨hle, (hkeep _ (h.refcnt_ne_zero hm' hk)).trans hpro⟩
  case same =>
    rintro huni i hi
    by_cases hin : m.first t ≤ i ∧ i < m.first t + m.pages.length
    · obtain ⟨k, rfl⟩ := Nat.exists_eq_add_of_le hin.1
      have hk := List.getElem?_eq_getElem (show k < m.pages.length by omega)
      obtain ⟨hp, ha, -⟩ := hset.inside k _ hk
      exact (ha huni).trans hp.symm
    · obtain ⟨hp, ha, -⟩ := hset.outside i (by omega)
      exact ha.trans ((h.same huni i hi).trans hp.symm)
  case refcnt =>
    rintro i
    change s.refcnt i = _
    by_cases hin : m.first t ≤ i ∧ i < m.first t + m.pages.length
    · obtain ⟨k, rfl⟩ := Nat.exists_eq_add_of_le hin.1
      have hk := List.getElem?_eq_getElem (show k < m.pages.length by omega)
      rw [(hset.inside k _ hk).2.2, h.refcnt,
        List.countP_cons_of_pos (Mapping.covers_iff.mpr hin), Nat.add_assoc]
    · rw [(hset.outside i (by omega)).2.2, h.refcnt,
        List.countP_cons_of_neg (fun hc => hin (Mapping.covers_iff.mp hc))]
  case invalid =>
    rintro i hi hzero
    change s.refcnt i = 0 at hzero
    by_cases hin : m.first t ≤ i ∧ i < m.first t + m.pages.length
    · obtain ⟨k, rfl⟩ := Nat.exists_eq_add_of_le hin.1
      have hk := List.getElem?_eq_getElem (show k < m.pages.length by omega)
      rw [(hset.inside k _ hk).2.2] at hzero
      exact absurd hzero (Nat.succ_ne_zero _)
    · obtain ⟨hp, -, hr⟩ := hset.outside i (by omega)
      exact hp.trans (h.invalid i hi (hr.symm.trans hzero))
  case booted => exact h.booted

/-- A call that maps pages goes through, and its mapping is held with the others. -/
lemma Inv.mapPages (h : Inv t boot w) {pages : List ℤ} {memory : Memory} {internal mem : Bool}
    (hreg : PagesRegular t chipSize w pages memory internal mem) :
    ∃ r, spiFlashMmapPages t chipSize w.tables pages memory internal mem = some r ∧
      Inv t boot (w.mapped memory pages r) := by
  rw [spiFlashMmapPages]
  split
  · exact ⟨_, rfl, h⟩
  next hargs =>
  split
  · exact ⟨_, rfl, h⟩
  next hmem =>
  simp only [h.spiFlashMmapInit_eq]
  split
  · exact ⟨_, rfl, h⟩
  next hsize =>
  cases hfind : findStart t w.tables (pages.map Int.toNat) (getMmuRegion t memory) with
  | none => exact ⟨_, rfl, h⟩
  | some start =>
    simp only [Bool.or_eq_true, Bool.not_eq_true', not_or, Bool.not_eq_false] at hargs hmem
    obtain ⟨hcount, hmask, hfresh⟩ := hreg hargs.1 hargs.2 hmem (by omega) start hfind
    obtain ⟨hle, hlt, hmatch⟩ := findStart_eq_some hfind (by rw [List.length_map]; omega)
    rw [List.length_map] at hlt
    rw [rangeMatches_iff] at hmatch
    have hregion := (getMmuRegion_le t memory).1
    obtain ⟨s, heq, hset⟩ := setUp_spec (t := t) (pages.map Int.toNat) start w.tables (by
        rintro k p hk
        have hk' := (List.getElem?_eq_some_iff.mp hk).1
        rw [List.length_map] at hk'
        exact ⟨hcount k hk', hmatch k p hk, fun huni => h.same huni _ (by omega)⟩)
    simp only [heq]
    refine ⟨_, rfl, ?_⟩
    have hfirst := first_eq t memory ((s.lastHandle + 1) % 2 ^ 32) (pages.map Int.toNat) hle (by omega)
    rw [← hfirst] at hset hmatch
    have hnew := h.setUp ((s.lastHandle + 1) % 2 ^ 32) hset hmatch
      (by rw [hfirst, List.length_map]; omega)
      (fun p hp => by
        obtain ⟨q, hq, rfl⟩ := List.mem_map.mp hp
        exact hmask q hq)
      (fun m hm => by
        rw [hset.lastHandle]
        exact hfresh m hm)
    rw [Mapping.entry, hfirst, List.length_map] at hnew
    exact hnew

/-- A mapping is released. -/
lemma Inv.munmap (h : Inv t boot w) {handle : ℕ} (hheld : ∃ m ∈ w.held, m.handle = handle) :
    ∃ s, spiFlashMunmap t w.tables handle = some s ∧
      Inv t boot ⟨s, w.held.eraseP fun m => m.handle == handle⟩ := by
  obtain ⟨m', hm', hhandle⟩ := hheld
  obtain ⟨m, l₁, l₂, hl₁, hm, hsplit, herase⟩ :=
    List.exists_of_eraseP (p := fun m : Mapping => m.handle == handle) hm' (by simpa using hhandle)
  have hmem : m ∈ w.held := by
    rw [hsplit]
    exact List.mem_append_right _ List.mem_cons_self
  have hsub : ∀ m' ∈ l₁ ++ l₂, m' ∈ w.held := by
    rintro m' hm'
    rw [← herase] at hm'
    exact List.mem_of_mem_eraseP hm'
  have hcount (i : ℕ) : w.held.countP (Mapping.covers t i) =
      (l₁ ++ l₂).countP (Mapping.covers t i) + if m.covers t i then 1 else 0 := by
    rw [hsplit, List.countP_append, List.countP_append, List.countP_cons]
    omega
  have hfind : w.tables.entries.find? (fun it => it.handle == handle) = some (m.entry t) := by
    rw [h.entries, List.find?_map, hsplit, List.find?_append, List.find?_eq_none.mpr]
    · have hhead : (m :: l₂).find? (fun m => m.handle == handle) = some m :=
        List.find?_cons_of_pos hm
      exact congrArg (Option.map (Mapping.entry t)) hhead
    · exact fun b hb => hl₁ b hb
  obtain ⟨s, heq, hrel⟩ := release_spec t m.pages.length (m.first t) w.tables (by
      rintro j h1 h2
      have hc := hcount j
      rw [if_pos (Mapping.covers_iff.mpr ⟨h1, h2⟩)] at hc
      rw [h.refcnt]
      omega)
  -- an entry that is still counted keeps what it maps
  have hkeep (j : ℕ) (hj : s.refcnt j ≠ 0) :
      s.pro j = w.tables.pro j ∧ s.app j = w.tables.app j := by
    by_cases hin : m.first t ≤ j ∧ j < m.first t + m.pages.length
    · have := (hrel.inside j hin.1 hin.2).2
      rwa [if_neg hj] at this
    · exact ⟨(hrel.outside j (by omega)).1, (hrel.outside j (by omega)).2.1⟩
  have hrefcnt (i : ℕ) : s.refcnt i = boot i + (l₁ ++ l₂).countP (Mapping.covers t i) := by
    have hold := h.refcnt i
    rw [hcount] at hold
    by_cases hin : m.first t ≤ i ∧ i < m.first t + m.pages.length
    · have := (hrel.inside i hin.1 hin.2).1
      rw [if_pos (Mapping.covers_iff.mpr hin)] at hold
      omega
    · rw [if_neg (fun hc => hin (Mapping.covers_iff.mp hc))] at hold
      rw [(hrel.outside i (by omega)).2.2, hold]
      rfl
  rw [spiFlashMunmap, hfind]
  simp only [Mapping.entry, heq]
  refine ⟨_, rfl, ?_⟩
  rw [herase]
  constructor
  case entries =>
    change s.entries.eraseP _ = _
    rw [hrel.entries, h.entries, List.eraseP_map, ← herase]
    rfl
  case distinct =>
    rw [← herase]
    exact h.distinct.sublist ((List.eraseP_sublist ..).map _)
  case inside => exact fun m' hm' => h.inside m' (hsub m' hm')
  case maps =>
    rintro m' hm' k p hk
    obtain ⟨hle, hpro⟩ := h.maps m' (hsub m' hm') k p hk
    refine ⟨hle, (hkeep _ ?_).1.trans hpro⟩
    have hlen := (List.getElem?_eq_some_iff.mp hk).1
    have hpos : 0 < (l₁ ++ l₂).countP (Mapping.covers t (m'.first t + k)) :=
      List.countP_pos_iff.mpr ⟨m', hm', Mapping.covers_iff.mpr (by omega)⟩
    rw [hrefcnt]
    omega
  case same =>
    rintro huni i hi
    by_cases hin : m.first t ≤ i ∧ i < m.first t + m.pages.length
    · have hif := (hrel.inside i hin.1 hin.2).2
      split at hif
      · exact (hif.2 huni).trans hif.1.symm
      · exact hif.2.trans ((h.same huni i hi).trans hif.1.symm)
    · obtain ⟨hp, ha, -⟩ := hrel.outside i (by omega)
      exact ha.trans ((h.same huni i hi).trans hp.symm)
  case refcnt => exact hrefcnt
  case invalid =>
    rintro i hi hzero
    change s.refcnt i = 0 at hzero
    by_cases hin : m.first t ≤ i ∧ i < m.first t + m.pages.length
    · have hif := (hrel.inside i hin.1 hin.2).2
      rw [if_pos hzero] at hif
      exact hif.1
    · obtain ⟨hp, -, hr⟩ := hrel.outside i (by omega)
      exact hp.trans (h.invalid i hi (hr.symm.trans hzero))
  case booted => exact h.booted

/-! ### Runs without overflows -/

lemma inv_step (h : Inv t boot w) {op : Op} (hvalid : op.Valid w)
    (hreg : op.Regular t chipSize w) :
    ∃ w', w.step t chipSize op = some w' ∧ Inv t boot w' := by
  cases op with
  | mmap srcAddr size memory memPages memEntry =>
    rw [World.step, spiFlashMmap]
    split
    · exact ⟨_, rfl, h⟩
    next hargs =>
    split
    · exact ⟨_, rfl, h⟩
    next hmem =>
    rw [not_or, not_not, not_lt] at hargs
    obtain ⟨r, heq, hinv⟩ := h.mapPages (hreg hargs.1 hargs.2 (by simpa using hmem))
    exact ⟨_, by rw [heq]; rfl, hinv⟩
  | mmapPages pages memory internal mem =>
    obtain ⟨r, heq, hinv⟩ := h.mapPages hreg
    exact ⟨_, by rw [World.step, heq]; rfl, hinv⟩
  | munmap handle =>
    obtain ⟨s, heq, hinv⟩ := h.munmap hvalid
    exact ⟨_, by rw [World.step, heq]; rfl, hinv⟩

lemma Inv.alwaysHeld {ops : List Op} (h : Inv t boot w) (hvalid : ValidRun t chipSize w ops)
    (hreg : RegularRun t chipSize w ops) : AlwaysHeld t chipSize boot w ops := by
  induction ops generalizing w with
  | nil => exact h.held
  | cons op ops ih =>
    obtain ⟨w', heq, hinv⟩ := inv_step h hvalid.1 hreg.1
    exact ⟨h.held, w', heq, ih hinv (hvalid.2 w' heq) (hreg.2 w' heq)⟩

/-- In every run without overflows no assertion fails, and what is held is mapped. -/
theorem mappings_held (t : Target) (chipSize : ℕ) (pro app : ℕ → ℕ) (ops : List Op)
    (hdrom : (World.init t pro app).tables.refcnt t.drom0PagesStart ≠ 0)
    (hvalid : ValidRun t chipSize (World.init t pro app) ops)
    (hreg : RegularRun t chipSize (World.init t pro app) ops) :
    AlwaysHeld t chipSize (World.init t pro app).tables.refcnt (World.init t pro app) ops :=
  (inv_init pro app hdrom).alwaysHeld hvalid hreg

/-- Two mappings share an entry, one is unmapped, and the entry is mapped still. -/
theorem mappings_held_example :
    AlwaysHeld (Target.esp32 true) 0x400000
      (World.init (Target.esp32 true) (fun i => if i = 0 then 0 else 0x100) fun _ => 0).tables.refcnt
      (World.init (Target.esp32 true) (fun i => if i = 0 then 0 else 0x100) fun _ => 0)
      [.mmap 0x50000 0x20000 .data true true, .mmapPages [5] .data true true, .munmap 1] := by
  exact mappings_held _ _ _ _ _ (by decide) (by decide +kernel) (by decide +kernel)

/-! ### The overflow of a count -/

/-- The calls one after the other. -/
def World.run (t : Target) (chipSize : ℕ) (w : World) (ops : List Op) : Option World :=
  ops.foldlM (World.step t chipSize) w

lemma AlwaysHeld.run {ops : List Op} (h : AlwaysHeld t chipSize boot w ops) {w' : World}
    (hrun : w.run t chipSize ops = some w') : Held t boot w' := by
  induction ops generalizing w with
  | nil =>
    obtain rfl : w = w' := Option.some.inj hrun
    exact h
  | cons op ops ih =>
    obtain ⟨-, w₁, heq, hrest⟩ := h
    rw [World.run, List.foldlM_cons, heq] at hrun
    exact ih hrest hrun

/-- The 256th mapping of a page brings its count back to zero, and the next mapping takes the
entry away from the 256 mappings that are held. -/
theorem mapping_lost :
    (World.init (Target.esp32 true) (fun i => if i = 0 then 0 else 0x100)
      fun _ => 0).tables.refcnt (Target.esp32 true).drom0PagesStart = 1 ∧
    ValidRun (Target.esp32 true) 0x400000
      (World.init (Target.esp32 true) (fun i => if i = 0 then 0 else 0x100) fun _ => 0)
      (List.replicate 256 (.mmapPages [5] .data true true) ++
        [.mmapPages [6] .data true true]) ∧
    ¬ AlwaysHeld (Target.esp32 true) 0x400000
      (World.init (Target.esp32 true) (fun i => if i = 0 then 0 else 0x100)
        fun _ => 0).tables.refcnt
      (World.init (Target.esp32 true) (fun i => if i = 0 then 0 else 0x100) fun _ => 0)
      (List.replicate 256 (.mmapPages [5] .data true true) ++
        [.mmapPages [6] .data true true]) := by
  refine ⟨by decide, by decide +kernel, fun h => ?_⟩
  have hrun : ((World.init (Target.esp32 true) (fun i => if i = 0 then 0 else 0x100)
      fun _ => 0).run (Target.esp32 true) 0x400000
      (List.replicate 256 (.mmapPages [5] .data true true) ++
        [.mmapPages [6] .data true true])).any (fun w => w.tables.pro 1 == 6 &&
          w.held.any fun m => m.first (Target.esp32 true) == 1 && m.pages == [5]) = true := by
    decide +kernel
  rw [Option.any_eq_true] at hrun
  obtain ⟨w, hw, hlost⟩ := hrun
  rw [Bool.and_eq_true, List.any_eq_true, beq_iff_eq] at hlost
  obtain ⟨hpro, m, hm, hfirst⟩ := hlost
  rw [Bool.and_eq_true, beq_iff_eq, beq_iff_eq] at hfirst
  have hmaps := ((h.run hw).maps m hm 0 5 (by rw [hfirst.2]; rfl)).1
  rw [hfirst.1, hpro] at hmaps
  exact absurd hmaps (by decide)

end EspIdf.SpiFlash
