/-
# Integrity of the descriptor table

Every used descriptor names a registered filesystem, and a descriptor that was returned by an
open reaches the filesystem that opened it, with the local descriptor there, until it is
closed or the filesystem is unregistered.  This holds in runs in which permanent descriptors
are claimed for registered filesystems only, and in which a range of descriptors is claimed
only if none of them is in use.
-/
import EspIdf.Vfs.Table

namespace EspIdf.Vfs

variable {D : Type} {maxFds : ℕ} {s : State D}

/-! ### Runs -/

/-- The calls, with what the functions of the filesystems return. -/
inductive Op (D : Type) where
  | register (basePath : List Char) (before : Char) (vfs : D) (mem : Bool)
  | registerFdRange (vfs : D) (mem : Bool) (minFd maxFd : ℤ)
  | registerWithId (vfs : D) (mem idPtr : Bool)
  | registerFd (vfsId : ℤ) (fdPtr : Bool)
  | unregisterFd (vfsId fd : ℤ)
  | unregister (basePath : List Char)
  | openPath (path : List Char) (driver : Option ℤ)
  | closeFd (fd : ℤ) (driver : Option ℤ)

/-- Whether a call returns an error, and the tables afterwards. -/
def Op.run (maxFds : ℕ) (s : State D) : Op D → Bool × State D
  | .register basePath before vfs mem =>
    ((espVfsRegister s basePath before vfs mem).1.toOption.isNone,
      (espVfsRegister s basePath before vfs mem).2)
  | .registerFdRange vfs mem minFd maxFd =>
    ((espVfsRegisterFdRange maxFds s vfs mem minFd maxFd).1.toOption.isNone,
      (espVfsRegisterFdRange maxFds s vfs mem minFd maxFd).2)
  | .registerWithId vfs mem idPtr =>
    ((espVfsRegisterWithId s vfs mem idPtr).1.toOption.isNone,
      (espVfsRegisterWithId s vfs mem idPtr).2)
  | .registerFd vfsId fdPtr =>
    ((espVfsRegisterFd maxFds s vfsId fdPtr).1.toOption.isNone,
      (espVfsRegisterFd maxFds s vfsId fdPtr).2)
  | .unregisterFd vfsId fd =>
    ((espVfsUnregisterFd maxFds s vfsId fd).1.toOption.isNone,
      (espVfsUnregisterFd maxFds s vfsId fd).2)
  | .unregister basePath =>
    ((espVfsUnregister s basePath).1.toOption.isNone, (espVfsUnregister s basePath).2)
  | .openPath path driver =>
    ((espVfsOpen maxFds s path driver).1.ret < 0, (espVfsOpen maxFds s path driver).2)
  | .closeFd fd driver =>
    ((espVfsClose maxFds s fd driver).1.ret < 0, (espVfsClose maxFds s fd driver).2)

/-- The filesystem stands in `s_vfs`. -/
def Registered (s : State D) (e : Entry D) : Prop := ∃ i, s.vfs i = some e

/-- The tables, and which descriptors are open: for which filesystem, and its own descriptor. -/
structure World (D : Type) where
  tables : State D
  opened : ℤ → Entry D → ℕ → Prop

/-- Nothing is registered or open. -/
def World.init : World D := ⟨.init, fun _ _ _ => False⟩

/-- The descriptors that are open after a call. -/
def openedAfter (maxFds : ℕ) (w : World D) (op : Op D) (fd : ℤ) (e : Entry D) (localFd : ℕ) :
    Prop :=
  match op with
  | .openPath path driver =>
    if 0 ≤ fd ∧ (espVfsOpen maxFds w.tables path driver).1.ret = fd then
      (espVfsOpen maxFds w.tables path driver).1.reached = some (e, localFd)
    else w.opened fd e localFd
  | .closeFd fd' driver =>
    w.opened fd e localFd ∧
      ¬ (fd' = fd ∧ (espVfsClose maxFds w.tables fd' driver).1.reached.isSome)
  | _ => w.opened fd e localFd

/-- A call.  When a filesystem is unregistered, what is open there is no longer open. -/
def World.step (maxFds : ℕ) (w : World D) (op : Op D) : World D where
  tables := (op.run maxFds w.tables).2
  opened := fun fd e localFd =>
    openedAfter maxFds w op fd e localFd ∧ Registered (op.run maxFds w.tables).2 e

/-- Used entries name registered filesystems, and calls on an open descriptor reach what was
opened. -/
structure Intact (maxFds : ℕ) (w : World D) : Prop where
  registered : ∀ fd < maxFds, (w.tables.fdTable fd).vfsIndex ≠ -1 →
    ∃ e, getVfsForIndex w.tables (w.tables.fdTable fd).vfsIndex = some e
  reaches : ∀ fd e localFd, w.opened fd e localFd → ∀ ret : ℤ,
    (espVfsRead maxFds w.tables fd (some ret)).reached = some (e, localFd) ∧
      (espVfsWrite maxFds w.tables fd (some ret)).reached = some (e, localFd) ∧
      (espVfsClose maxFds w.tables fd (some ret)).1.reached = some (e, localFd)

/-- The call changes neither table. -/
def SameTables (maxFds : ℕ) (s s' : State D) : Prop :=
  s'.vfs = s.vfs ∧ ∀ fd < maxFds, s'.fdTable fd = s.fdTable fd

/-- A call that returns an error changes neither table, except that closing a descriptor
releases it if it is not permanent. -/
def ErrorKeeps (maxFds : ℕ) (s : State D) (op : Op D) : Prop :=
  (op.run maxFds s).1 = true →
    match op with
    | .closeFd fd _ =>
      SameTables maxFds s (op.run maxFds s).2 ∨
        (s.fdTable fd.toNat).permanent = false ∧
          SameTables maxFds (s.setFd fd.toNat .unused) (op.run maxFds s).2
    | _ => SameTables maxFds s (op.run maxFds s).2

/-- All states of the run are intact, and errors change nothing. -/
def AlwaysIntact (maxFds : ℕ) : World D → List (Op D) → Prop
  | w, [] => Intact maxFds w
  | w, op :: ops => Intact maxFds w ∧ ErrorKeeps maxFds w.tables op ∧
      AlwaysIntact maxFds (w.step maxFds op) ops

/-- Permanent descriptors are claimed for registered filesystems, ranges of descriptors only
if they are unused or the call fails before it looks at them, and local descriptors are below
255. -/
def Op.Regular (maxFds : ℕ) (s : State D) : Op D → Prop
  | .registerFd vfsId _ => 0 ≤ vfsId → vfsId < s.vfsCount → (s.vfs vfsId.toNat).isSome
  | .registerFdRange vfs mem minFd maxFd => 0 ≤ minFd → minFd ≤ maxFd → maxFd ≤ maxFds →
      (∃ i, (espVfsRegisterCommon s [] none vfs mem).1 = .ok i) →
      ∀ fd : ℕ, minFd ≤ fd → fd < maxFd → (s.fdTable fd).vfsIndex = -1
  | .openPath _ driver => ∀ r, driver = some r → r < 255
  | _ => True

/-- All calls of the run are regular. -/
def RegularRun (maxFds : ℕ) : World D → List (Op D) → Prop
  | _, [] => True
  | w, op :: ops => op.Regular maxFds w.tables ∧ RegularRun maxFds (w.step maxFds op) ops

/-! ### The invariant -/

/-- The tables fit together, and the open descriptors are in them. -/
structure Inv (maxFds : ℕ) (w : World D) : Prop where
  count : w.tables.vfsCount ≤ vfsMaxCount
  beyond : ∀ i, w.tables.vfsCount ≤ i → w.tables.vfs i = none
  offset : ∀ i e, w.tables.vfs i = some e → e.offset = i
  used : ∀ fd, w.tables.fdTable fd = .unused ∨
    ∃ i e, (w.tables.fdTable fd).vfsIndex = (i : ℕ) ∧ w.tables.vfs i = some e
  opened : ∀ fd e localFd, w.opened fd e localFd →
    0 ≤ fd ∧ fd < maxFds ∧ Registered w.tables e ∧
      w.tables.fdTable fd.toNat = ⟨false, e.offset, localFd⟩

lemma Inv.getVfsForIndex_eq {w : World D} (h : Inv maxFds w) {i : ℕ} {e : Entry D}
    (hi : w.tables.vfs i = some e) : getVfsForIndex w.tables i = some e := by
  have hlt : i < w.tables.vfsCount := by
    by_contra hge
    rw [h.beyond i (by omega)] at hi
    exact absurd hi (by simp)
  rw [getVfsForIndex, if_neg (by omega), Int.toNat_natCast, hi]

lemma Inv.target_eq {w : World D} (h : Inv maxFds w) {fd : ℤ} {e : Entry D} {localFd : ℕ}
    (hopen : w.opened fd e localFd) : target maxFds w.tables fd = some (e, localFd) := by
  obtain ⟨h0, hlt, ⟨i, hi⟩, hfd⟩ := h.opened fd e localFd hopen
  have hvfs := h.getVfsForIndex_eq hi
  rw [← h.offset i e hi] at hvfs
  rw [target, if_pos ⟨h0, hlt⟩, hfd, hvfs]
  rfl

lemma Inv.intact {w : World D} (h : Inv maxFds w) : Intact maxFds w where
  registered := by
    rintro fd - hne
    rcases h.used fd with hu | ⟨i, e, hindex, hi⟩
    · rw [hu] at hne
      exact absurd rfl hne
    · exact ⟨e, by rw [hindex]; exact h.getVfsForIndex_eq hi⟩
  reaches := by
    rintro fd e localFd hopen ret
    have htarget := h.target_eq hopen
    simp [espVfsRead, espVfsWrite, callOnFd, espVfsClose, htarget]

lemma inv_init : Inv maxFds (World.init : World D) where
  count := Nat.zero_le _
  beyond := fun _ _ => rfl
  offset := by simp [World.init, State.init]
  used := fun _ => .inl rfl
  opened := fun _ _ _ h => h.elim

/-! ### What the calls do -/

/-- Registering puts an entry where none was, or changes nothing. -/
lemma espVfsRegisterCommon_cases (hcount : s.vfsCount ≤ vfsMaxCount)
    (hbeyond : ∀ i, s.vfsCount ≤ i → s.vfs i = none) (pathPrefix : List Char) (len : Option ℕ)
    (vfs : D) (mem : Bool) :
    espVfsRegisterCommon s pathPrefix len vfs mem = (.error .noMem, s) ∨
    ∃ i e count, s.vfs i = none ∧ e = ⟨vfs, pathPrefix, len, i⟩ ∧ i < count ∧ s.vfsCount ≤ count ∧
      count ≤ vfsMaxCount ∧ espVfsRegisterCommon s pathPrefix len vfs mem =
        (.ok i, { s with vfs := Function.update s.vfs i (some e), vfsCount := count }) := by
  have hfree : s.vfs (freeIndex s) = none ∧ freeIndex s ≤ s.vfsCount := by
    rw [freeIndex]
    cases hfind : (List.range s.vfsCount).find? fun i => (s.vfs i).isNone with
    | none => exact ⟨hbeyond _ (Nat.le_refl _), Nat.le_refl _⟩
    | some i =>
      have hi := List.find?_some hfind
      have hmem := List.mem_range.mp (List.mem_of_find?_eq_some hfind)
      exact ⟨by simpa using hi, Nat.le_of_lt hmem⟩
  rw [espVfsRegisterCommon]
  by_cases hmem : mem = true
  · simp only [hmem, Bool.not_true, Bool.false_eq_true, if_false]
    split
    · exact .inl rfl
    · next hfull =>
      refine .inr ⟨freeIndex s, _, _, hfree.1, rfl, ?_, ?_, ?_, rfl⟩
      · split <;> omega
      · split <;> omega
      · split <;> omega
  · left
    simp [hmem]

/-- The matched filesystem is the best one so far or the one at hand. -/
lemma matchPath_fst (path : List Char) (best : Option (Entry D) × ℤ) (vfs : Option (Entry D)) :
    (matchPath path best vfs).1 = best.1 ∨ (matchPath path best vfs).1 = vfs := by
  cases vfs with
  | none => exact .inl rfl
  | some e =>
    simp only [matchPath]
    split
    · exact .inl rfl
    · split
      · exact .inl rfl
      · split
        · exact .inr rfl
        · split
          · exact .inl rfl
          · split
            · exact .inr rfl
            · exact .inl rfl

lemma foldl_matchPath (path : List Char) (vfss : List (Option (Entry D)))
    (best : Option (Entry D) × ℤ) :
    (vfss.foldl (matchPath path) best).1 = best.1 ∨
      (vfss.foldl (matchPath path) best).1 ∈ vfss := by
  induction vfss generalizing best with
  | nil => exact .inl rfl
  | cons vfs vfss ih =>
    rw [List.foldl_cons]
    rcases ih (matchPath path best vfs) with h | h
    · rcases matchPath_fst path best vfs with h' | h'
      · exact .inl (h.trans h')
      · exact .inr (by rw [h, h']; exact List.mem_cons_self ..)
    · exact .inr (List.mem_cons_of_mem _ h)

lemma registered_of_getVfsForPath {path : List Char} {e : Entry D}
    (h : getVfsForPath s path = some e) : Registered s e := by
  rw [getVfsForPath] at h
  rcases foldl_matchPath path ((List.range s.vfsCount).map s.vfs) (none, -1) with h' | h'
  · rw [h'] at h
    exact absurd h (by simp)
  · rw [h] at h'
    obtain ⟨i, -, hi⟩ := List.mem_map.mp h'
    exact ⟨i, hi⟩

lemma freeFd_eq_some {i : ℕ} (h : freeFd maxFds s = some i) :
    i < maxFds ∧ (s.fdTable i).vfsIndex = -1 := by
  rw [freeFd] at h
  exact ⟨List.mem_range.mp (List.mem_of_find?_eq_some h), by simpa using List.find?_some h⟩

/-- A range of unused descriptors is claimed. -/
lemma claimRange_eq (index minFd : ℕ) : ∀ (left fd : ℕ) (s : State D),
    (∀ j, fd ≤ j → j < fd + left → (s.fdTable j).vfsIndex = -1) →
    claimRange index minFd left fd s = (.ok index,
      { s with
        fdTable := fun j =>
          if fd ≤ j ∧ j < fd + left then ⟨true, index, j % 256⟩ else s.fdTable j }) := by
  intro left
  induction left with
  | zero =>
    intro fd s _
    rw [claimRange, Prod.mk.injEq]
    refine ⟨rfl, State.ext rfl rfl ?_⟩
    ext j : 1
    exact (if_neg (by omega)).symm
  | succ left ih =>
    intro fd s hfree
    rw [claimRange, hfree fd (Nat.le_refl _) (by omega), if_neg (by simp), ih]
    · congr 2
      funext j
      by_cases hj : j = fd
      · subst hj
        rw [if_neg (by omega), if_pos (by omega)]
        exact Function.update_self ..
      · have hset : (s.setFd fd ⟨true, index, fd % 256⟩).fdTable j = s.fdTable j :=
          Function.update_of_ne hj ..
        by_cases hin : fd + 1 ≤ j ∧ j < fd + 1 + left
        · rw [if_pos hin, if_pos (by omega)]
        · rw [if_neg hin, hset, if_neg (by omega)]
    · intro j h1 h2
      have hset : (s.setFd fd ⟨true, index, fd % 256⟩).fdTable j = s.fdTable j :=
        Function.update_of_ne (by omega) ..
      rw [hset]
      exact hfree j (by omega) (by omega)

/-! ### Steps -/

variable {w : World D} {P : ℤ → Entry D → ℕ → Prop}

/-- What is open has a used entry. -/
lemma Inv.ne_of_opened (h : Inv maxFds w) {fd : ℤ} {e : Entry D} {localFd i : ℕ}
    (hopen : w.opened fd e localFd) (hi : (w.tables.fdTable i).vfsIndex = -1) :
    fd.toNat ≠ i := by
  rintro rfl
  obtain ⟨-, -, -, hfd⟩ := h.opened fd e localFd hopen
  rw [hfd] at hi
  change (e.offset : ℤ) = -1 at hi
  omega

/-- A filesystem is registered. -/
lemma Inv.addVfs (h : Inv maxFds w) {i count : ℕ} {e : Entry D} (hfree : w.tables.vfs i = none)
    (hoff : e.offset = i) (hi : i < count) (hle : w.tables.vfsCount ≤ count)
    (hmax : count ≤ vfsMaxCount)
    (hP : ∀ fd e localFd, P fd e localFd → w.opened fd e localFd) :
    Inv maxFds ⟨{ w.tables with
      vfs := Function.update w.tables.vfs i (some e)
      vfsCount := count }, P⟩ where
  count := hmax
  beyond := by
    rintro j hj
    change count ≤ j at hj
    exact (Function.update_of_ne (by omega) ..).trans (h.beyond j (by omega))
  offset := by
    rintro j e' hj
    change Function.update w.tables.vfs i (some e) j = some e' at hj
    by_cases hji : j = i
    · subst hji
      rw [Function.update_self, Option.some.injEq] at hj
      rw [← hj, hoff]
    · rw [Function.update_of_ne hji] at hj
      exact h.offset j e' hj
  used := by
    rintro fd
    rcases h.used fd with hu | ⟨j, e', hindex, hj⟩
    · exact .inl hu
    · refine .inr ⟨j, e', hindex, ?_⟩
      have hji : j ≠ i := by
        rintro rfl
        rw [hfree] at hj
        exact absurd hj (by simp)
      exact (Function.update_of_ne hji ..).trans hj
  opened := by
    rintro fd e' localFd hopen
    obtain ⟨h0, hlt, ⟨j, hj⟩, hfd⟩ := h.opened fd e' localFd (hP _ _ _ hopen)
    refine ⟨h0, hlt, ⟨j, ?_⟩, hfd⟩
    have hji : j ≠ i := by
      rintro rfl
      rw [hfree] at hj
      exact absurd hj (by simp)
    exact (Function.update_of_ne hji ..).trans hj

/-- Unused descriptors are claimed, permanently or by an open. -/
lemma Inv.claim (h : Inv maxFds w) {table : ℕ → FdEntry}
    (hsame : ∀ j, table j = w.tables.fdTable j ∨ (w.tables.fdTable j).vfsIndex = -1 ∧
      ∃ i e, (table j).vfsIndex = (i : ℕ) ∧ w.tables.vfs i = some e)
    (hP : ∀ fd e localFd, P fd e localFd → w.opened fd e localFd ∨
      0 ≤ fd ∧ fd < maxFds ∧ Registered w.tables e ∧ table fd.toNat = ⟨false, e.offset, localFd⟩) :
    Inv maxFds ⟨{ w.tables with fdTable := table }, P⟩ where
  count := h.count
  beyond := h.beyond
  offset := h.offset
  used := by
    rintro fd
    rcases hsame fd with hs | ⟨-, hi⟩
    · rcases h.used fd with hu | hu
      · exact .inl (hs.trans hu)
      · refine .inr ?_
        change ∃ i e, (table fd).vfsIndex = (i : ℕ) ∧ w.tables.vfs i = some e
        rw [hs]
        exact hu
    · exact .inr hi
  opened := by
    rintro fd e localFd hopen
    rcases hP fd e localFd hopen with hold | hnew
    · obtain ⟨h0, hlt, hreg, hfd⟩ := h.opened fd e localFd hold
      refine ⟨h0, hlt, hreg, ?_⟩
      rcases hsame fd.toNat with hs | ⟨hunused, -⟩
      · exact hs.trans hfd
      · exact absurd rfl (h.ne_of_opened hold hunused)
    · exact hnew

/-- Descriptors are released. -/
lemma Inv.release (h : Inv maxFds w) {table : ℕ → FdEntry}
    (hsame : ∀ j, table j = w.tables.fdTable j ∨ table j = .unused)
    (hP : ∀ fd e localFd, P fd e localFd → w.opened fd e localFd ∧
      table fd.toNat = w.tables.fdTable fd.toNat) :
    Inv maxFds ⟨{ w.tables with fdTable := table }, P⟩ where
  count := h.count
  beyond := h.beyond
  offset := h.offset
  used := by
    rintro fd
    rcases hsame fd with hs | hs
    · rcases h.used fd with hu | hu
      · exact .inl (hs.trans hu)
      · refine .inr ?_
        change ∃ i e, (table fd).vfsIndex = (i : ℕ) ∧ w.tables.vfs i = some e
        rw [hs]
        exact hu
    · exact .inl hs
  opened := by
    rintro fd e localFd hopen
    obtain ⟨hold, hs⟩ := hP fd e localFd hopen
    obtain ⟨h0, hlt, hreg, hfd⟩ := h.opened fd e localFd hold
    exact ⟨h0, hlt, hreg, hs.trans hfd⟩

/-- Nothing changes. -/
lemma Inv.keep (h : Inv maxFds w)
    (hP : ∀ fd e localFd, P fd e localFd → w.opened fd e localFd) :
    Inv maxFds ⟨w.tables, P⟩ :=
  h.release (fun _ => .inl rfl) fun fd e localFd hopen => ⟨hP fd e localFd hopen, rfl⟩

/-- A filesystem is unregistered, and its descriptors are released. -/
lemma Inv.removeVfs (h : Inv maxFds w) {i : ℕ}
    (hP : ∀ fd e localFd, P fd e localFd → w.opened fd e localFd ∧
      ∃ j, Function.update w.tables.vfs i none j = some e) :
    Inv maxFds ⟨{ w.tables with
      vfs := Function.update w.tables.vfs i none
      fdTable := fun j =>
        if (w.tables.fdTable j).vfsIndex = i then .unused else w.tables.fdTable j }, P⟩ where
  count := h.count
  beyond := by
    rintro j hj
    change Function.update w.tables.vfs i none j = none
    by_cases hji : j = i
    · rw [hji, Function.update_self]
    · rw [Function.update_of_ne hji]
      exact h.beyond j hj
  offset := by
    rintro j e hj
    change Function.update w.tables.vfs i none j = some e at hj
    by_cases hji : j = i
    · rw [hji, Function.update_self] at hj
      exact absurd hj (by simp)
    · rw [Function.update_of_ne hji] at hj
      exact h.offset j e hj
  used := by
    rintro fd
    change (if (w.tables.fdTable fd).vfsIndex = i then FdEntry.unused else w.tables.fdTable fd) =
        .unused ∨ ∃ j e, (if (w.tables.fdTable fd).vfsIndex = i then FdEntry.unused
          else w.tables.fdTable fd).vfsIndex = (j : ℕ) ∧
            Function.update w.tables.vfs i none j = some e
    split
    · exact .inl rfl
    · next hne =>
      rcases h.used fd with hu | ⟨j, e, hindex, hj⟩
      · exact .inl hu
      · refine .inr ⟨j, e, hindex, ?_⟩
        rw [Function.update_of_ne]
        · exact hj
        · rintro rfl
          exact hne hindex
  opened := by
    rintro fd e localFd hopen
    obtain ⟨hold, j, hj⟩ := hP fd e localFd hopen
    obtain ⟨h0, hlt, -, hfd⟩ := h.opened fd e localFd hold
    refine ⟨h0, hlt, ⟨j, hj⟩, ?_⟩
    have hji : j ≠ i := by
      rintro rfl
      rw [Function.update_self] at hj
      exact absurd hj (by simp)
    rw [Function.update_of_ne hji] at hj
    change (if (w.tables.fdTable fd.toNat).vfsIndex = i then FdEntry.unused
      else w.tables.fdTable fd.toNat) = _
    rw [hfd, if_neg]
    change ¬ ((e.offset : ℤ) = i)
    rw [h.offset j e hj]
    omega

/-- The invariant of a step, with the tables computed. -/
lemma inv_of_tables {op : Op D} (tables : State D) (htables : (op.run maxFds w.tables).2 = tables)
    (h : Inv maxFds ⟨tables, (w.step maxFds op).opened⟩) : Inv maxFds (w.step maxFds op) := by
  subst htables
  exact h

/-- The three ways to register a filesystem. -/
lemma inv_registerCommon (h : Inv maxFds w) (pathPrefix : List Char) (len : Option ℕ) (vfs : D)
    (mem : Bool) (hP : ∀ fd e localFd, P fd e localFd → w.opened fd e localFd) :
    Inv maxFds ⟨(espVfsRegisterCommon w.tables pathPrefix len vfs mem).2, P⟩ := by
  rcases espVfsRegisterCommon_cases h.count h.beyond pathPrefix len vfs mem with heq |
    ⟨i, e, count, hfree, he, hi, hle, hmax, heq⟩
  · rw [heq]
    exact h.keep hP
  · rw [heq]
    exact h.addVfs hfree (by rw [he]) hi hle hmax hP

lemma inv_registerFdRange (h : Inv maxFds w) (vfs : D) (mem : Bool) (minFd maxFd : ℤ)
    (hreg : (Op.registerFdRange vfs mem minFd maxFd).Regular maxFds w.tables)
    (hP : ∀ fd e localFd, P fd e localFd → w.opened fd e localFd) :
    Inv maxFds ⟨(espVfsRegisterFdRange maxFds w.tables vfs mem minFd maxFd).2, P⟩ := by
  rw [espVfsRegisterFdRange]
  split
  · exact h.keep hP
  · next hargs =>
    rcases espVfsRegisterCommon_cases h.count h.beyond [] none vfs mem with heq |
      ⟨i, e, count, hfree, he, hi, hle, hmax, heq⟩
    · rw [heq]
      exact h.keep hP
    · have hunused := hreg (by omega) (by omega) (by omega) ⟨i, by rw [heq]⟩
      simp only [heq]
      rw [claimRange_eq]
      · refine (h.addVfs hfree (by rw [he]) hi hle hmax hP).claim (fun j => ?_)
          (fun fd e localFd hopen => .inl hopen)
        by_cases hj : minFd.toNat ≤ j ∧ j < minFd.toNat + (maxFd.toNat - minFd.toNat)
        · rw [if_pos hj]
          refine .inr ⟨hunused j (by omega) (by omega), i, e, rfl, ?_⟩
          exact Function.update_self ..
        · rw [if_neg hj]
          exact .inl rfl
      · intro j h1 h2
        exact hunused j (by omega) (by omega)

/-- What an open that fails or succeeds does. -/
lemma espVfsOpen_cases (maxFds : ℕ) (s : State D) (path : List Char) (driver : Option ℤ) :
    ((espVfsOpen maxFds s path driver).1.ret = -1 ∧ (espVfsOpen maxFds s path driver).2 = s) ∨
    ∃ vfs r i, Registered s vfs ∧ driver = some r ∧ 0 ≤ r ∧ freeFd maxFds s = some i ∧
      espVfsOpen maxFds s path driver =
        (⟨i, some (vfs, r.toNat)⟩, s.setFd i ⟨false, vfs.offset, r.toNat % 256⟩) := by
  rw [espVfsOpen]
  cases hpath : getVfsForPath s path with
  | none => exact .inl ⟨rfl, rfl⟩
  | some vfs =>
    cases driver with
    | none => exact .inl ⟨rfl, rfl⟩
    | some r =>
      simp only
      split
      · next hr =>
        cases hfree : freeFd maxFds s with
        | none => exact .inl ⟨rfl, rfl⟩
        | some i => exact .inr ⟨vfs, r, i, registered_of_getVfsForPath hpath, rfl, hr, rfl, rfl⟩
      · exact .inl ⟨rfl, rfl⟩

lemma inv_open (h : Inv maxFds w) (path : List Char) (driver : Option ℤ)
    (hreg : (Op.openPath path driver).Regular maxFds w.tables) :
    Inv maxFds (w.step maxFds (.openPath path driver)) := by
  rcases espVfsOpen_cases maxFds w.tables path driver with ⟨hret, htables⟩ |
    ⟨vfs, r, i, hvfs, hdriver, hr, hfree, heq⟩
  · refine inv_of_tables _ htables (h.keep fun fd e localFd hopen => ?_)
    have hold := hopen.1
    rw [openedAfter, hret, if_neg (by omega)] at hold
    exact hold
  · have htables : ((Op.openPath path driver).run maxFds w.tables).2 =
        w.tables.setFd i ⟨false, vfs.offset, r.toNat % 256⟩ := by
      simp only [Op.run, heq]
    refine inv_of_tables _ htables (h.claim (fun j => ?_) fun fd e localFd hopen => ?_)
    · by_cases hj : j = i
      · subst hj
        obtain ⟨k, hk⟩ := hvfs
        refine .inr ⟨(freeFd_eq_some hfree).2, vfs.offset, vfs, ?_, ?_⟩
        · rw [Function.update_self]
        · rw [h.offset k vfs hk]
          exact hk
      · exact .inl (Function.update_of_ne hj ..)
    · have hnew := hopen.1
      rw [openedAfter, heq] at hnew
      simp only at hnew
      split at hnew
      · next hfd =>
        right
        obtain ⟨rfl, rfl⟩ : vfs = e ∧ r.toNat = localFd := by simpa using hnew
        have hlt := hreg r hdriver
        refine ⟨hfd.1, ?_, hvfs, ?_⟩
        · have := (freeFd_eq_some hfree).1
          omega
        · rw [show fd.toNat = i by omega, Function.update_self,
            Nat.mod_eq_of_lt (by omega)]
      · exact .inl hnew

/-- What a close does. -/
lemma espVfsClose_cases (maxFds : ℕ) (s : State D) (fd : ℤ) (driver : Option ℤ) :
    ((espVfsClose maxFds s fd driver).1.reached = none ∧ (espVfsClose maxFds s fd driver).2 = s) ∨
    0 ≤ fd ∧ (espVfsClose maxFds s fd driver).1.reached.isSome ∧
      ((s.fdTable fd.toNat).permanent = true ∧ (espVfsClose maxFds s fd driver).2 = s ∨
        (s.fdTable fd.toNat).permanent = false ∧
          (espVfsClose maxFds s fd driver).2 = s.setFd fd.toNat .unused) := by
  rw [espVfsClose]
  cases htarget : target maxFds s fd with
  | none => exact .inl ⟨rfl, rfl⟩
  | some t =>
    have h0 : 0 ≤ fd := by
      rw [target] at htarget
      split at htarget
      · next h => exact h.1
      · exact absurd htarget (by simp)
    cases driver with
    | none => exact .inl ⟨rfl, rfl⟩
    | some ret =>
      right
      refine ⟨h0, rfl, ?_⟩
      cases hperm : (s.fdTable fd.toNat).permanent with
      | true => exact .inl ⟨rfl, by simp⟩
      | false => exact .inr ⟨rfl, by simp⟩

lemma inv_close (h : Inv maxFds w) (fd : ℤ) (driver : Option ℤ) :
    Inv maxFds (w.step maxFds (.closeFd fd driver)) := by
  rcases espVfsClose_cases maxFds w.tables fd driver with ⟨-, htables⟩ |
    ⟨h0, hreached, ⟨-, htables⟩ | ⟨-, htables⟩⟩
  · exact inv_of_tables _ htables (h.keep fun _ _ _ hopen => hopen.1.1)
  · exact inv_of_tables _ htables (h.keep fun _ _ _ hopen => hopen.1.1)
  · refine inv_of_tables _ htables (h.release (fun j => ?_) fun fd' e localFd hopen => ?_)
    · by_cases hj : j = fd.toNat
      · exact .inr (by rw [hj, Function.update_self])
      · exact .inl (Function.update_of_ne hj ..)
    · obtain ⟨hold, hnot⟩ := hopen.1
      refine ⟨hold, Function.update_of_ne ?_ ..⟩
      -- another descriptor is closed
      intro heq
      have hpos := (h.opened fd' e localFd hold).1
      exact hnot ⟨by omega, hreached⟩

lemma inv_step (h : Inv maxFds w) {op : Op D} (hreg : op.Regular maxFds w.tables) :
    Inv maxFds (w.step maxFds op) := by
  cases op with
  | register basePath before vfs mem =>
    have hP : ∀ fd e localFd, (w.step maxFds (.register basePath before vfs mem)).opened fd e
        localFd → w.opened fd e localFd := fun _ _ _ ho => ho.1
    by_cases hpath : pathAccepted basePath before = true
    · refine inv_of_tables _ ?_ (inv_registerCommon h basePath (some basePath.length) vfs mem hP)
      simp [Op.run, espVfsRegister, hpath]
    · refine inv_of_tables _ ?_ (h.keep hP)
      simp [Op.run, espVfsRegister, hpath]
  | registerFdRange vfs mem minFd maxFd =>
    exact inv_registerFdRange h vfs mem minFd maxFd hreg fun _ _ _ ho => ho.1
  | registerWithId vfs mem idPtr =>
    have hP : ∀ fd e localFd, (w.step maxFds (.registerWithId vfs mem idPtr)).opened fd e
        localFd → w.opened fd e localFd := fun _ _ _ ho => ho.1
    cases idPtr with
    | true => exact inv_registerCommon h [] none vfs mem hP
    | false => exact h.keep hP
  | registerFd vfsId fdPtr =>
    have hP : ∀ fd e localFd, (w.step maxFds (.registerFd vfsId fdPtr)).opened fd e
        localFd → w.opened fd e localFd := fun _ _ _ ho => ho.1
    by_cases hargs : vfsId < 0 ∨ vfsId ≥ w.tables.vfsCount ∨ fdPtr = false
    · refine inv_of_tables _ ?_ (h.keep hP)
      simp only [Op.run, espVfsRegisterFd, if_pos hargs]
    · cases hfree : freeFd maxFds w.tables with
      | none =>
        refine inv_of_tables _ ?_ (h.keep hP)
        simp only [Op.run, espVfsRegisterFd, if_neg hargs, hfree]
      | some i =>
        refine inv_of_tables (w.tables.setFd i ⟨true, vfsId, i % 256⟩) ?_ ?_
        · simp only [Op.run, espVfsRegisterFd, if_neg hargs, hfree]
        · obtain ⟨e, he⟩ := Option.isSome_iff_exists.mp (hreg (by omega) (by omega))
          refine h.claim (fun j => ?_) fun fd e localFd hopen => .inl (hP _ _ _ hopen)
          by_cases hj : j = i
          · subst hj
            refine .inr ⟨(freeFd_eq_some hfree).2, vfsId.toNat, e, ?_, he⟩
            rw [Function.update_self]
            change vfsId = (vfsId.toNat : ℤ)
            omega
          · exact .inl (Function.update_of_ne hj ..)
  | unregisterFd vfsId fd =>
    have hP : ∀ fd' e localFd, (w.step maxFds (.unregisterFd vfsId fd)).opened fd' e
        localFd → w.opened fd' e localFd := fun _ _ _ ho => ho.1
    by_cases hargs : vfsId < 0 ∨ vfsId ≥ w.tables.vfsCount ∨ fd < 0 ∨ fd ≥ maxFds
    · refine inv_of_tables _ ?_ (h.keep hP)
      simp only [Op.run, espVfsUnregisterFd, if_pos hargs]
    · by_cases hitem : (w.tables.fdTable fd.toNat).permanent = true ∧
        (w.tables.fdTable fd.toNat).vfsIndex = vfsId ∧
          ((w.tables.fdTable fd.toNat).localFd : ℤ) = fd
      · refine inv_of_tables (w.tables.setFd fd.toNat .unused) ?_ ?_
        · simp only [Op.run, espVfsUnregisterFd, if_neg hargs, if_pos hitem]
        · refine h.release (fun j => ?_) fun fd' e localFd hopen => ⟨hP _ _ _ hopen, ?_⟩
          · by_cases hj : j = fd.toNat
            · exact .inr (by rw [hj, Function.update_self])
            · exact .inl (Function.update_of_ne hj ..)
          · -- what is open is not permanent
            apply Function.update_of_ne
            intro heq
            obtain ⟨-, -, -, hfd⟩ := h.opened fd' e localFd (hP _ _ _ hopen)
            rw [heq] at hfd
            rw [hfd] at hitem
            exact absurd hitem.1 Bool.false_ne_true
      · refine inv_of_tables _ ?_ (h.keep hP)
        simp only [Op.run, espVfsUnregisterFd, if_neg hargs, if_neg hitem]
  | unregister basePath =>
    cases hfind : (List.range w.tables.vfsCount).find?
        fun i => (w.tables.vfs i).any (Entry.isAt basePath) with
    | none =>
      refine inv_of_tables _ ?_ (h.keep fun _ _ _ ho => ho.1)
      simp only [Op.run, espVfsUnregister, hfind]
    | some i =>
      have htables : ((Op.unregister basePath).run maxFds w.tables).2 =
          { w.tables with
            vfs := Function.update w.tables.vfs i none
            fdTable := fun j =>
              if (w.tables.fdTable j).vfsIndex = i then .unused else w.tables.fdTable j } := by
        simp only [Op.run, espVfsUnregister, hfind]
      refine inv_of_tables _ htables (h.removeVfs fun fd e localFd hopen => ⟨hopen.1, ?_⟩)
      have hreg' := hopen.2
      rw [htables] at hreg'
      exact hreg'
  | openPath path driver => exact inv_open h path driver hreg
  | closeFd fd driver => exact inv_close h fd driver

/-! ### Calls that return an error -/

lemma SameTables.refl (maxFds : ℕ) (s : State D) : SameTables maxFds s s :=
  ⟨rfl, fun _ _ => rfl⟩

lemma SameTables.of_eq {s' : State D} (h : s' = s) : SameTables maxFds s s' := by
  subst h
  exact SameTables.refl maxFds _

/-- Registering fails without a trace. -/
lemma sameTables_registerCommon (h : Inv maxFds w) (pathPrefix : List Char) (len : Option ℕ)
    (vfs : D) (mem : Bool)
    (herr : (espVfsRegisterCommon w.tables pathPrefix len vfs mem).1.toOption.isNone) :
    (espVfsRegisterCommon w.tables pathPrefix len vfs mem).2 = w.tables := by
  rcases espVfsRegisterCommon_cases h.count h.beyond pathPrefix len vfs mem with heq |
    ⟨i, e, count, -, -, -, -, -, heq⟩
  · rw [heq]
  · rw [heq] at herr
    exact absurd herr (by simp [Except.toOption])

lemma sameTables_registerFdRange (h : Inv maxFds w) (vfs : D) (mem : Bool) (minFd maxFd : ℤ)
    (hreg : (Op.registerFdRange vfs mem minFd maxFd).Regular maxFds w.tables)
    (herr : (espVfsRegisterFdRange maxFds w.tables vfs mem minFd maxFd).1.toOption.isNone) :
    (espVfsRegisterFdRange maxFds w.tables vfs mem minFd maxFd).2 = w.tables := by
  rw [espVfsRegisterFdRange] at herr ⊢
  split
  · rfl
  · next hargs =>
    rw [if_neg hargs] at herr
    rcases espVfsRegisterCommon_cases h.count h.beyond [] none vfs mem with heq |
      ⟨i, e, count, -, -, -, -, -, heq⟩
    · rw [heq]
    · -- all of the range is claimed
      have hunused := hreg (by omega) (by omega) (by omega) ⟨i, by rw [heq]⟩
      simp only [heq] at herr
      rw [claimRange_eq] at herr
      · exact absurd herr (by simp [Except.toOption])
      · intro j h1 h2
        exact hunused j (by omega) (by omega)

lemma errorKeeps_step (h : Inv maxFds w) {op : Op D} (hreg : op.Regular maxFds w.tables) :
    ErrorKeeps maxFds w.tables op := by
  intro herr
  cases op with
  | register basePath before vfs mem =>
    refine SameTables.of_eq ?_
    simp only [Op.run, espVfsRegister] at herr ⊢
    split
    · next hpath =>
      rw [if_pos hpath] at herr
      exact sameTables_registerCommon h basePath _ vfs mem herr
    · rfl
  | registerFdRange vfs mem minFd maxFd =>
    exact SameTables.of_eq (sameTables_registerFdRange h vfs mem minFd maxFd hreg herr)
  | registerWithId vfs mem idPtr =>
    refine SameTables.of_eq ?_
    cases idPtr with
    | true => exact sameTables_registerCommon h [] none vfs mem herr
    | false => rfl
  | registerFd vfsId fdPtr =>
    refine SameTables.of_eq ?_
    simp only [Op.run, espVfsRegisterFd] at herr ⊢
    split
    · rfl
    · next hargs =>
      rw [if_neg hargs] at herr
      cases hfree : freeFd maxFds w.tables with
      | none => rfl
      | some i =>
        rw [hfree] at herr
        exact absurd herr (by simp [Except.toOption])
  | unregisterFd vfsId fd =>
    refine SameTables.of_eq ?_
    simp only [Op.run, espVfsUnregisterFd] at herr ⊢
    split
    · rfl
    · next hargs =>
      rw [if_neg hargs] at herr
      split
      · next hitem =>
        rw [if_pos hitem] at herr
        exact absurd herr (by simp [Except.toOption])
      · rfl
  | unregister basePath =>
    refine SameTables.of_eq ?_
    simp only [Op.run, espVfsUnregister] at herr ⊢
    split
    · next i hfind =>
      rw [hfind] at herr
      exact absurd herr (by simp [Except.toOption])
    · rfl
  | openPath path driver =>
    refine SameTables.of_eq ?_
    rcases espVfsOpen_cases maxFds w.tables path driver with ⟨-, htables⟩ |
      ⟨vfs, r, i, -, -, -, -, heq⟩
    · exact htables
    · simp only [Op.run, heq, decide_eq_true_eq] at herr
      omega
  | closeFd fd driver =>
    rcases espVfsClose_cases maxFds w.tables fd driver with ⟨-, htables⟩ |
      ⟨-, -, ⟨-, htables⟩ | ⟨hperm, htables⟩⟩
    · exact .inl (SameTables.of_eq htables)
    · exact .inl (SameTables.of_eq htables)
    · exact .inr ⟨hperm, SameTables.of_eq htables⟩

/-! ### Runs of regular calls -/

lemma Inv.alwaysIntact {ops : List (Op D)} (h : Inv maxFds w) (hreg : RegularRun maxFds w ops) :
    AlwaysIntact maxFds w ops := by
  induction ops generalizing w with
  | nil => exact h.intact
  | cons op ops ih =>
    obtain ⟨hop, hops⟩ := hreg
    exact ⟨h.intact, errorKeeps_step h hop, ih (inv_step h hop) hops⟩

/-- In every run of regular calls from the empty tables, used entries name registered
filesystems, what is open is reached with its local descriptor, and errors leave no trace but
the release of a descriptor by a close that fails. -/
theorem descriptor_table_integrity (maxFds : ℕ) (ops : List (Op D))
    (hreg : RegularRun maxFds World.init ops) : AlwaysIntact maxFds World.init ops :=
  inv_init.alwaysIntact hreg

/-- A file is opened and closed, and descriptors are claimed one by one and as a range. -/
theorem descriptor_table_integrity_example :
    AlwaysIntact 8 World.init
      [.register ['/', 'a'] 'x' () true, .openPath ['/', 'a', '/', 'f'] (some 3), .registerFd 0 true,
        .registerFdRange () true 2 4, .closeFd 0 (some 0)] := by
  refine descriptor_table_integrity 8 _ ⟨trivial, ?_, ?_, ?_, trivial, trivial⟩
  · rintro r h
    cases h
    decide
  · rintro - -
    decide
  · rintro - - - - fd h2 h4
    obtain rfl | rfl : fd = 2 ∨ fd = 3 := by omega
    · decide
    · decide

/-- A close that fails releases the descriptor; a range that fails takes away the filesystem
whose index is the descriptor in use and keeps its own; and a descriptor is claimed for a
filesystem that is unregistered. -/
theorem descriptor_table_not_intact :
    (let s := ((World.init.step 8 (.register ['/', 'a'] 'x' () true)).step 8
        (.openPath ['/', 'a', '/', 'f'] (some 3))).tables
      let op : Op Unit := .closeFd 0 (some (-1))
      (op.run 8 s).1 = true ∧ s.fdTable 0 = ⟨false, 0, 3⟩ ∧
        (op.run 8 s).2.fdTable 0 = .unused) ∧
    (let s := ((World.init.step 8 (.register ['/', 'a'] 'x' () true)).step 8
        (.openPath ['/', 'a', '/', 'f'] (some 3))).tables
      let op : Op Unit := .registerFdRange () true 0 2
      (op.run 8 s).1 = true ∧ (s.vfs 0).isSome ∧ s.vfs 1 = none ∧
        (op.run 8 s).2.vfs 0 = none ∧ ((op.run 8 s).2.vfs 1).isSome ∧
        (op.run 8 s).2.fdTable 0 = ⟨false, 0, 3⟩) ∧
    (let s := ((World.init.step 8 (.register ['/', 'a'] 'x' () true)).step 8
        (.unregister ['/', 'a'])).tables
      let op : Op Unit := .registerFd 0 true
      (op.run 8 s).1 = false ∧ (op.run 8 s).2.fdTable 0 = ⟨true, 0, 0⟩ ∧
        getVfsForIndex (op.run 8 s).2 0 = none) := by
  decide

end EspIdf.Vfs
