/-
# Waiting for descriptors

`esp_vfs_select` hands the descriptors of each filesystem to it under their local numbers, and
maps the local numbers that are left back to descriptors.  The way back walks the whole
descriptor table for each filesystem and compares the local numbers only.  It is faithful
exactly if no local number that a filesystem leaves in a set is that of a descriptor of another
filesystem, or of a descriptor that was not in the set.
-/
import EspIdf.Vfs.Integrity

namespace EspIdf.Vfs

variable {D : Type}

/-! ### Sets of descriptors -/

/-- `fd_set`. -/
abbrev FdSet := ℕ → Bool

/-- `FD_ISSET`, which looks at the descriptors below `FD_SETSIZE` only. -/
def fdIsset (maxFds n : ℕ) (p : FdSet) : Bool := decide (n < maxFds) && p n

/-- `FD_SET`. -/
def fdSet (maxFds n : ℕ) (p : FdSet) : FdSet := if n < maxFds then Function.update p n true else p

/-- `FD_CLR`. -/
def fdClr (maxFds n : ℕ) (p : FdSet) : FdSet :=
  if n < maxFds then Function.update p n false else p

/-- `FD_ZERO`. -/
def fdZero : FdSet := fun _ => false

/-- The three sets. -/
inductive Kind where
  | readfds
  | writefds
  | errorfds
deriving DecidableEq

instance : Fintype Kind where
  elems := {.readfds, .writefds, .errorfds}
  complete := by rintro (_ | _ | _) <;> decide

/-- The order in which the sets are treated. -/
def kinds : List Kind := [.readfds, .writefds, .errorfds]

/-- `fds_triple_t`. -/
structure FdsTriple where
  isset : Bool
  fds : Kind → FdSet

/-- A triple after `calloc`. -/
def FdsTriple.zero : FdsTriple := ⟨false, fun _ => fdZero⟩

/-- The arguments of `select`; `none` is a null pointer. -/
abbrev FdSets := Kind → Option FdSet

/-- `esp_vfs_safe_fd_isset`. -/
def espVfsSafeFdIsset (maxFds fd : ℕ) (fds : Option FdSet) : Bool := fds.any (fdIsset maxFds fd)

/-! ### The functions of the filesystems -/

/-- What the functions of the filesystems do in one call, by index in `s_vfs`. -/
structure Drivers where
  /-- `socket_select`: what it returns, and the sets that it leaves. -/
  socketSelect : ℕ → Option (FdSets → ℤ × FdSets)
  /-- `start_select`: whether it succeeds, and the sets that it leaves. -/
  startSelect : ℕ → Option ((Kind → FdSet) → Bool × (Kind → FdSet))
  /-- What becomes of the sets until `end_select` has returned. -/
  endSelect : ℕ → (Kind → FdSet) → Kind → FdSet

/-! ### The way to the filesystems -/

/-- The triples, the sets of the caller and the `socket_select` that was found. -/
structure Gathered where
  triples : ℕ → FdsTriple
  sets : FdSets
  socket : Option (FdSets → ℤ × FdSets)

/-- Move a descriptor from a set of the caller to the filesystem that it belongs to. -/
def moveLocal (maxFds fd index localFd : ℕ) (g : Gathered) (k : Kind) : Gathered :=
  if espVfsSafeFdIsset maxFds fd (g.sets k) then
    { g with
      triples := Function.update g.triples index
        ⟨true, Function.update (g.triples index).fds k
          (fdSet maxFds localFd ((g.triples index).fds k))⟩
      sets := Function.update g.sets k ((g.sets k).map (fdClr maxFds fd)) }
  else g

/-- One round of the first loop of `esp_vfs_select`. -/
def gather (maxFds : ℕ) (s : State D) (drivers : Drivers) (g : Gathered) (fd : ℕ) : Gathered :=
  let e := s.fdTable fd
  if e.vfsIndex < 0 then g
  else if e.permanent then
    if g.socket.isNone ∧ ∃ k, espVfsSafeFdIsset maxFds fd (g.sets k) = true then
      { g with socket := drivers.socketSelect e.vfsIndex.toNat }
    else g
  else kinds.foldl (moveLocal maxFds fd e.vfsIndex.toNat e.localFd) g

/-- The first loop of `esp_vfs_select`. -/
def gathered (maxFds : ℕ) (s : State D) (drivers : Drivers) (nfds : ℕ) (sets : FdSets) : Gathered :=
  (List.range nfds).foldl (gather maxFds s drivers) ⟨fun _ => .zero, sets, none⟩

/-- The loop that calls `start_select`.  The index of a filesystem at which it fails comes
with the triples. -/
def startSelects (s : State D) (drivers : Drivers) :
    List ℕ → (ℕ → FdsTriple) → Option ℕ × (ℕ → FdsTriple)
  | [], t => (none, t)
  | i :: is, t =>
    match drivers.startSelect i with
    | some start =>
      if (getVfsForIndex s i).isSome && (t i).isset then
        let t' := Function.update t i { t i with fds := (start (t i).fds).2 }
        if (start (t i).fds).1 then startSelects s drivers is t' else (some i, t')
      else startSelects s drivers is t
    | none => startSelects s drivers is t

/-- The triples when `call_end_selects` has returned. -/
def endSelects (s : State D) (drivers : Drivers) (endIndex : ℕ) (t : ℕ → FdsTriple) (i : ℕ) :
    FdsTriple :=
  if i < endIndex ∧ (drivers.startSelect i).isSome ∧ (getVfsForIndex s i).isSome ∧
      (t i).isset = true then
    { t i with fds := drivers.endSelect i (t i).fds }
  else t i

/-- What the filesystems leave when all of them have started and ended. -/
def ready (maxFds : ℕ) (s : State D) (drivers : Drivers) (nfds : ℕ) (sets : FdSets) :
    ℕ → FdsTriple :=
  endSelects s drivers s.vfsCount
    (startSelects s drivers (List.range s.vfsCount) (gathered maxFds s drivers nfds sets).triples).2

/-! ### The way back -/

/-- One of the tests of `set_global_fd_sets`. -/
def markGlobal (maxFds localFd fd : ℕ) (item : FdsTriple) (acc : ℕ × FdSets) (k : Kind) :
    ℕ × FdSets :=
  match acc.2 k with
  | some p =>
    if espVfsSafeFdIsset maxFds localFd (some (item.fds k)) then
      (acc.1 + 1, Function.update acc.2 k (some (fdSet maxFds fd p)))
    else acc
  | none => acc

/-- The walk of `set_global_fd_sets` over the descriptors, for one filesystem. -/
def globalRound (maxFds : ℕ) (s : State D) (item : FdsTriple) (acc : ℕ × FdSets) : ℕ × FdSets :=
  if item.isset then
    (List.range maxFds).foldl (fun acc fd =>
      kinds.foldl (markGlobal maxFds (s.fdTable fd).localFd fd item) acc) acc
  else acc

/-- `set_global_fd_sets`: the number of bits that it sets, and the sets. -/
def setGlobalFdSets (maxFds : ℕ) (s : State D) (t : ℕ → FdsTriple) (size : ℕ) (sets : FdSets) :
    ℕ × FdSets :=
  (List.range size).foldl (fun acc i => globalRound maxFds s (t i) acc) (0, sets)

/-- The values of `errno`. -/
inductive SelectErr where
  | einval
  | enomem
  | eintr
deriving DecidableEq

/-- What `esp_vfs_select` returns, `errno` if it sets it, and the sets that it leaves. -/
structure Selected where
  ret : ℤ
  errno : Option SelectErr
  sets : FdSets

/-- `esp_vfs_select`.  `mem` is which of its allocations succeed. -/
def espVfsSelect (maxFds : ℕ) (s : State D) (drivers : Drivers) (mem : ℕ → Bool) (nfds : ℤ)
    (sets : FdSets) : Selected :=
  if nfds > maxFds ∨ nfds < 0 then ⟨-1, some .einval, sets⟩
  else if mem 0 = false then ⟨-1, some .enomem, sets⟩
  else
    let g := gathered maxFds s drivers nfds.toNat sets
    if g.socket.isNone ∧ mem 1 = false ∨ mem 2 = false then ⟨-1, some .enomem, g.sets⟩
    else
      match startSelects s drivers (List.range s.vfsCount) g.triples with
      | (some i, t) =>
        ⟨-1, some .eintr,
          (setGlobalFdSets maxFds s (endSelects s drivers i t) s.vfsCount g.sets).2⟩
      | (none, t) =>
        let waited : ℤ × FdSets :=
          match g.socket with
          | some socketSelect => socketSelect g.sets
          | none => (0, fun k => (g.sets k).map fun _ => fdZero)
        if waited.1 ≥ 0 then
          let r := setGlobalFdSets maxFds s (endSelects s drivers s.vfsCount t) s.vfsCount waited.2
          ⟨waited.1 + r.1, none, r.2⟩
        else ⟨waited.1, none, waited.2⟩

/-! ### The bits that are set -/

variable {maxFds : ℕ} {s : State D} {drivers : Drivers} {sets : FdSets}

@[simp] lemma fdIsset_fdZero (n : ℕ) : fdIsset maxFds n fdZero = false := by
  simp [fdIsset, fdZero]

lemma fdIsset_lt {n : ℕ} {p : FdSet} (h : fdIsset maxFds n p = true) : n < maxFds := by
  simp only [fdIsset, Bool.and_eq_true, decide_eq_true_eq] at h
  exact h.1

lemma fdIsset_fdSet {fd n : ℕ} {p : FdSet} (hfd : fd < maxFds) :
    fdIsset maxFds n (fdSet maxFds fd p) = true ↔ n = fd ∨ fdIsset maxFds n p = true := by
  rw [fdSet, if_pos hfd]
  by_cases h : n = fd
  · subst h
    simp [fdIsset, hfd]
  · simp [fdIsset, h]

/-- `set_global_fd_sets` sets the bit of a descriptor for a filesystem. -/
def Hit (maxFds : ℕ) (s : State D) (t : ℕ → FdsTriple) (sets : FdSets) (i fd : ℕ) (k : Kind) :
    Prop :=
  (t i).isset = true ∧ (sets k).isSome = true ∧
    fdIsset maxFds (s.fdTable fd).localFd ((t i).fds k) = true

instance (t : ℕ → FdsTriple) (i fd : ℕ) (k : Kind) : Decidable (Hit maxFds s t sets i fd k) :=
  inferInstanceAs (Decidable (_ ∧ _ ∧ _))

/-- The bit of a descriptor is set in a set of the caller. -/
def FdSets.Isset (maxFds : ℕ) (sets : FdSets) (fd : ℕ) (k : Kind) : Prop :=
  espVfsSafeFdIsset maxFds fd (sets k) = true

instance (fd : ℕ) (k : Kind) : Decidable (sets.Isset maxFds fd k) :=
  inferInstanceAs (Decidable (_ = _))

/-- The sets have got the bits of a relation. -/
structure Marked (maxFds : ℕ) (R : ℕ → Kind → Prop) (sets sets' : FdSets) : Prop where
  isSome : ∀ k, (sets' k).isSome = (sets k).isSome
  isset : ∀ fd k, sets'.Isset maxFds fd k ↔ sets.Isset maxFds fd k ∨ R fd k

/-- Which of the pointers are not null. -/
def FdSets.given (sets : FdSets) (k : Kind) : Bool := (sets k).isSome

lemma Marked.given {R : ℕ → Kind → Prop} {sets sets' : FdSets} (h : Marked maxFds R sets sets') :
    sets'.given = sets.given := funext h.isSome

lemma marked_refl : Marked maxFds (fun _ _ => False) sets sets :=
  ⟨fun _ => rfl, fun _ _ => by simp⟩

/-- A loop counts and sets what its rounds count and set. -/
lemma foldl_marked {α : Type} {f : ℕ × FdSets → α → ℕ × FdSets} {w : Kind → Bool} {T : α → ℕ}
    {R : α → ℕ → Kind → Prop} (l : List α)
    (hf : ∀ a ∈ l, ∀ acc, acc.2.given = w → (f acc a).1 = acc.1 + T a ∧
      Marked maxFds (R a) acc.2 (f acc a).2) :
    ∀ acc : ℕ × FdSets, acc.2.given = w → (l.foldl f acc).1 = acc.1 + (l.map T).sum ∧
      Marked maxFds (fun fd k => ∃ a ∈ l, R a fd k) acc.2 (l.foldl f acc).2 := by
  induction l with
  | nil =>
    intro acc _
    refine ⟨rfl, fun _ => rfl, fun fd k => ?_⟩
    simp
  | cons a l ih =>
    intro acc hw
    obtain ⟨hcount, hmark⟩ := hf a List.mem_cons_self acc hw
    obtain ⟨hcounts, hmarks⟩ := ih (fun b hb => hf b (List.mem_cons_of_mem a hb)) (f acc a)
      (hmark.given.trans hw)
    refine ⟨?_, fun k => ?_, fun fd k => ?_⟩
    · rw [List.foldl_cons, hcounts, hcount, List.map_cons, List.sum_cons, Nat.add_assoc]
    · rw [List.foldl_cons, hmarks.isSome, hmark.isSome]
    · rw [List.foldl_cons, hmarks.isset, hmark.isset]
      simp only [List.mem_cons, exists_eq_or_imp, or_assoc]

/-- One test sets at most the bit that it is about. -/
lemma markGlobal_marked {localFd fd : ℕ} {item : FdsTriple} (hfd : fd < maxFds)
    (acc : ℕ × FdSets) (k : Kind) :
    (markGlobal maxFds localFd fd item acc k).1 = acc.1 +
      (if acc.2.given k = true ∧ fdIsset maxFds localFd (item.fds k) = true then 1 else 0) ∧
    Marked maxFds (fun fd' k' => fd' = fd ∧ k' = k ∧ acc.2.given k = true ∧
      fdIsset maxFds localFd (item.fds k) = true) acc.2
      (markGlobal maxFds localFd fd item acc k).2 := by
  unfold markGlobal
  cases hk : acc.2 k with
  | none => simpa [FdSets.given, hk] using marked_refl
  | some p =>
    by_cases hset : fdIsset maxFds localFd (item.fds k) = true
    · have hany : espVfsSafeFdIsset maxFds localFd (some (item.fds k)) = true := hset
      simp only [hany, if_true, FdSets.given, hk, hset, Option.isSome_some, and_self, and_true,
        true_and]
      refine ⟨fun k' => ?_, fun fd' k' => ?_⟩
      · by_cases h : k' = k
        · subst h
          simp [hk]
        · rw [Function.update_of_ne h]
      · by_cases h : k' = k
        · subst h
          simp only [FdSets.Isset, Function.update_self, hk, espVfsSafeFdIsset, Option.any_some,
            fdIsset_fdSet hfd, and_true]
          exact or_comm
        · simp [FdSets.Isset, h]
    · have hany : ¬ espVfsSafeFdIsset maxFds localFd (some (item.fds k)) = true := hset
      simpa [hany, hset] using marked_refl

/-- The tests for one descriptor of the table. -/
lemma foldl_kinds_marked {t : ℕ → FdsTriple} {i fd : ℕ} (hi : (t i).isset = true)
    (hfd : fd < maxFds) (acc : ℕ × FdSets) (hw : acc.2.given = sets.given) :
    (kinds.foldl (markGlobal maxFds (s.fdTable fd).localFd fd (t i)) acc).1 = acc.1 +
      ∑ k, (if Hit maxFds s t sets i fd k then 1 else 0) ∧
    Marked maxFds (fun fd' k => fd' = fd ∧ Hit maxFds s t sets i fd k) acc.2
      (kinds.foldl (markGlobal maxFds (s.fdTable fd).localFd fd (t i)) acc).2 := by
  have hhit : ∀ k, Hit maxFds s t sets i fd k ↔
      sets.given k = true ∧ fdIsset maxFds (s.fdTable fd).localFd ((t i).fds k) = true :=
    fun k => and_iff_right hi
  obtain ⟨hcount, hmark⟩ := foldl_marked kinds (f := markGlobal maxFds (s.fdTable fd).localFd fd (t i))
    (w := sets.given) (T := fun k => if Hit maxFds s t sets i fd k then 1 else 0)
    (R := fun k fd' k' => fd' = fd ∧ k' = k ∧ Hit maxFds s t sets i fd k)
    (fun k _ acc hw => by simpa only [hhit, hw] using markGlobal_marked hfd acc k) acc hw
  refine ⟨hcount, hmark.isSome, fun fd' k => ?_⟩
  rw [hmark.isset]
  refine or_congr_right ⟨?_, ?_⟩
  · rintro ⟨k', -, hfd', rfl, h⟩
    exact ⟨hfd', h⟩
  · rintro ⟨hfd', h⟩
    exact ⟨k, by cases k <;> simp [kinds], hfd', rfl, h⟩

/-- The walk over the descriptors for one filesystem. -/
lemma globalRound_marked (t : ℕ → FdsTriple) (i : ℕ) (acc : ℕ × FdSets)
    (hw : acc.2.given = sets.given) :
    (globalRound maxFds s (t i) acc).1 = acc.1 + ∑ fd ∈ Finset.range maxFds, ∑ k,
      (if Hit maxFds s t sets i fd k then 1 else 0) ∧
    Marked maxFds (fun fd k => fd < maxFds ∧ Hit maxFds s t sets i fd k) acc.2
      (globalRound maxFds s (t i) acc).2 := by
  by_cases hi : (t i).isset = true
  · rw [globalRound, if_pos hi]
    obtain ⟨hcount, hmark⟩ := foldl_marked (List.range maxFds)
      (fun fd hfd acc hw => foldl_kinds_marked hi (List.mem_range.mp hfd) acc hw) acc hw
    refine ⟨hcount, hmark.isSome, fun fd k => ?_⟩
    rw [hmark.isset]
    refine or_congr_right ⟨?_, ?_⟩
    · rintro ⟨fd', hfd', rfl, h⟩
      exact ⟨List.mem_range.mp hfd', h⟩
    · rintro ⟨hfd, h⟩
      exact ⟨fd, List.mem_range.mpr hfd, rfl, h⟩
  · have hno : ∀ fd k, ¬ Hit maxFds s t sets i fd k := fun fd k h => hi h.1
    rw [globalRound, if_neg hi]
    simpa [hno] using marked_refl

/-- What `set_global_fd_sets` counts and sets. -/
theorem setGlobalFdSets_marked (t : ℕ → FdsTriple) (size : ℕ) (sets : FdSets) :
    (setGlobalFdSets maxFds s t size sets).1 =
      ∑ i ∈ Finset.range size, ∑ fd ∈ Finset.range maxFds, ∑ k,
        (if Hit maxFds s t sets i fd k then 1 else 0) ∧
    Marked maxFds (fun fd k => fd < maxFds ∧ ∃ i < size, Hit maxFds s t sets i fd k) sets
      (setGlobalFdSets maxFds s t size sets).2 := by
  obtain ⟨hcount, hmark⟩ := foldl_marked (List.range size)
    (fun i _ acc hw => globalRound_marked t i acc hw) ((0, sets) : ℕ × FdSets) rfl
  refine ⟨hcount.trans (Nat.zero_add _), hmark.isSome, fun fd k => ?_⟩
  rw [setGlobalFdSets, hmark.isset]
  refine or_congr_right ⟨?_, ?_⟩
  · rintro ⟨i, hi, hfd, h⟩
    exact ⟨hfd, i, List.mem_range.mp hi, h⟩
  · rintro ⟨hfd, i, hi, h⟩
    exact ⟨i, List.mem_range.mpr hi, hfd, h⟩

/-! ### When the way back is faithful -/

/-- The number of bits that are set. -/
def FdSets.count (maxFds : ℕ) (sets : FdSets) : ℕ :=
  ∑ fd ∈ Finset.range maxFds, ∑ k, if sets.Isset maxFds fd k then 1 else 0

/-- The filesystem of a descriptor leaves its local descriptor in the set. -/
def Reported (maxFds : ℕ) (s : State D) (t : ℕ → FdsTriple) (fd : ℕ) (k : Kind) : Prop :=
  ∃ i : ℕ, (s.fdTable fd).vfsIndex = i ∧
    fdIsset maxFds (s.fdTable fd).localFd ((t i).fds k) = true

/-- The descriptors that are set on return are those of the input that their filesystems
report, and their number is returned. -/
structure MapsBack (maxFds : ℕ) (s : State D) (t : ℕ → FdsTriple) (sets : FdSets)
    (out : Selected) : Prop where
  given : out.sets.given = sets.given
  isset : ∀ fd k, out.sets.Isset maxFds fd k ↔
    sets.Isset maxFds fd k ∧ Reported maxFds s t fd k
  ret : out.ret = out.sets.count maxFds

/-- A local descriptor that a filesystem leaves in a set is, of all descriptors of the table,
the local descriptor of such ones only that belong to the filesystem and were in the set. -/
def Unambiguous (maxFds : ℕ) (s : State D) (t : ℕ → FdsTriple) (sets : FdSets) : Prop :=
  ∀ i < s.vfsCount, ∀ k, sets.given k = true → ∀ fd < maxFds,
    fdIsset maxFds (s.fdTable fd).localFd ((t i).fds k) = true →
      (s.fdTable fd).vfsIndex = i ∧ sets.Isset maxFds fd k

instance (t : ℕ → FdsTriple) : Decidable (Unambiguous maxFds s t sets) :=
  inferInstanceAs (Decidable (∀ i < _, ∀ _ : Kind, _ → ∀ fd < _, _ → _ ∧ _))

/-- The number that is returned is that of the bits exactly if no bit is set twice. -/
lemma count_eq_iff {size : ℕ} {H : ℕ → ℕ → Kind → Prop} [∀ i fd k, Decidable (H i fd k)]
    {out : FdSets} (hout : ∀ fd < maxFds, ∀ k, out.Isset maxFds fd k ↔ ∃ i < size, H i fd k) :
    (∑ i ∈ Finset.range size, ∑ fd ∈ Finset.range maxFds, ∑ k, (if H i fd k then 1 else 0)) =
        out.count maxFds ↔
      ∀ fd < maxFds, ∀ k, ∀ i < size, ∀ j < size, H i fd k → H j fd k → i = j := by
  have hswap : (∑ i ∈ Finset.range size, ∑ fd ∈ Finset.range maxFds, ∑ k,
      (if H i fd k then 1 else 0)) = ∑ x ∈ Finset.range maxFds ×ˢ (Finset.univ : Finset Kind),
        ((Finset.range size).filter fun i => H i x.1 x.2).card := by
    rw [Finset.sum_comm, Finset.sum_product]
    refine Finset.sum_congr rfl fun fd _ => ?_
    rw [Finset.sum_comm]
    exact Finset.sum_congr rfl fun k _ => (Finset.card_filter _ _).symm
  have hbits : out.count maxFds = ∑ x ∈ Finset.range maxFds ×ˢ (Finset.univ : Finset Kind),
      (if out.Isset maxFds x.1 x.2 then 1 else 0) := by
    rw [FdSets.count, Finset.sum_product]
  have hmem : ∀ {fd k i}, i ∈ (Finset.range size).filter (fun i => H i fd k) ↔
      i < size ∧ H i fd k := by simp
  have hle : ∀ x ∈ Finset.range maxFds ×ˢ (Finset.univ : Finset Kind),
      (if out.Isset maxFds x.1 x.2 then 1 else 0) ≤
        ((Finset.range size).filter fun i => H i x.1 x.2).card := by
    rintro ⟨fd, k⟩ hx
    have hfd : fd < maxFds := by simpa using hx
    split
    · next h =>
      obtain ⟨i, hi, hH⟩ := (hout fd hfd k).mp h
      exact Finset.card_pos.mpr ⟨i, hmem.mpr ⟨hi, hH⟩⟩
    · exact Nat.zero_le _
  rw [hswap, hbits, eq_comm, Finset.sum_eq_sum_iff_of_le hle]
  constructor
  · intro h fd hfd k i hi j hj hHi hHj
    have hone := h (fd, k) (by simpa using hfd)
    rw [if_pos ((hout fd hfd k).mpr ⟨i, hi, hHi⟩)] at hone
    exact Finset.card_le_one.mp hone.ge i (hmem.mpr ⟨hi, hHi⟩) j (hmem.mpr ⟨hj, hHj⟩)
  · rintro h ⟨fd, k⟩ hx
    have hfd : fd < maxFds := by simpa using hx
    refine le_antisymm (hle _ hx) ?_
    split
    · refine Finset.card_le_one.mpr fun i hi j hj => ?_
      exact h fd hfd k i (hmem.mp hi).1 j (hmem.mp hj).1 (hmem.mp hi).2 (hmem.mp hj).2
    · next hno =>
      refine (Finset.card_eq_zero.mpr (Finset.eq_empty_of_forall_notMem fun i hi => ?_)).le
      exact hno ((hout fd hfd k).mpr ⟨i, hmem.mp hi⟩)

/-- The way back over sets that have been cleared. -/
lemma setGlobalFdSets_mapsBack_iff {t : ℕ → FdsTriple} {zero : FdSets}
    (hindex : ∀ fd < maxFds, (s.fdTable fd).vfsIndex < s.vfsCount)
    (hisset : ∀ i k n, fdIsset maxFds n ((t i).fds k) = true → (t i).isset = true)
    (hgiven : zero.given = sets.given) (hzero : ∀ fd k, ¬ zero.Isset maxFds fd k) :
    MapsBack maxFds s t sets
        ⟨(setGlobalFdSets maxFds s t s.vfsCount zero).1, none,
          (setGlobalFdSets maxFds s t s.vfsCount zero).2⟩ ↔
      Unambiguous maxFds s t sets := by
  obtain ⟨hcount, hmark⟩ := @setGlobalFdSets_marked _ maxFds s t s.vfsCount zero
  have hhit : ∀ i fd k, Hit maxFds s t zero i fd k ↔
      sets.given k = true ∧ fdIsset maxFds (s.fdTable fd).localFd ((t i).fds k) = true := by
    intro i fd k
    rw [← hgiven]
    exact ⟨fun h => h.2, fun h => ⟨hisset i k _ h.2, h⟩⟩
  have hout : ∀ fd < maxFds, ∀ k,
      (setGlobalFdSets maxFds s t s.vfsCount zero).2.Isset maxFds fd k ↔
        ∃ i < s.vfsCount, Hit maxFds s t zero i fd k := by
    intro fd hfd k
    rw [hmark.isset, or_iff_right (hzero fd k), and_iff_right hfd]
  constructor
  · intro h i hi k hk fd hfd hready
    have hret := h.ret
    simp only [hcount, Int.natCast_inj] at hret
    have hHi : Hit maxFds s t zero i fd k := (hhit i fd k).mpr ⟨hk, hready⟩
    obtain ⟨hin, j, hj, hown⟩ := (h.isset fd k).mp ((hout fd hfd k).mpr ⟨i, hi, hHi⟩)
    have hj' : j < s.vfsCount := by
      have := hindex fd hfd
      omega
    obtain rfl := (count_eq_iff hout).mp hret fd hfd k i hi j hj' hHi
      ((hhit j fd k).mpr ⟨hk, hown⟩)
    exact ⟨hj, hin⟩
  · intro h
    refine ⟨hmark.given.trans hgiven, fun fd k => ?_, ?_⟩
    · constructor
      · intro hset
        obtain ⟨hfd, i, hi, hH⟩ := ((hmark.isset fd k).mp hset).resolve_left (hzero fd k)
        obtain ⟨hk, hready⟩ := (hhit i fd k).mp hH
        obtain ⟨hown, hin⟩ := h i hi k hk fd hfd hready
        exact ⟨hin, i, hown, hready⟩
      · rintro ⟨hin, i, hi, hready⟩
        have hk : sets.given k = true := Option.isSome_of_any hin
        have hfd : fd < maxFds := by
          obtain ⟨p, hp⟩ := Option.isSome_iff_exists.mp hk
          rw [FdSets.Isset, hp] at hin
          exact fdIsset_lt hin
        have hi' : i < s.vfsCount := by
          have := hindex fd hfd
          omega
        exact (hout fd hfd k).mpr ⟨i, hi', (hhit i fd k).mpr ⟨hk, hready⟩⟩
    · simp only [hcount, Int.natCast_inj]
      refine (count_eq_iff hout).mpr fun fd hfd k i hi j hj hHi hHj => ?_
      obtain ⟨hk, hreadyi⟩ := (hhit i fd k).mp hHi
      obtain ⟨-, hreadyj⟩ := (hhit j fd k).mp hHj
      have hown := (h i hi k hk fd hfd hreadyi).1.symm.trans (h j hj k hk fd hfd hreadyj).1
      exact_mod_cast hown

/-! ### The indices in the descriptor table -/

/-- Descriptors and filesystems have indices in `s_vfs`. -/
structure Indexed (maxFds : ℕ) (s : State D) : Prop where
  entry : ∀ fd < maxFds, (s.fdTable fd).vfsIndex < s.vfsCount
  offset : ∀ i e, s.vfs i = some e → e.offset < s.vfsCount

/-! ### The sets of the filesystems -/

/-- What holds during the first loop, if no descriptor in the sets is a socket. -/
structure GatherInv (maxFds : ℕ) (sets : FdSets) (g : Gathered) : Prop where
  given : g.sets.given = sets.given
  subset : ∀ fd k, g.sets.Isset maxFds fd k → sets.Isset maxFds fd k
  isset : ∀ i k n, fdIsset maxFds n ((g.triples i).fds k) = true → (g.triples i).isset = true
  socket : g.socket = none

lemma fdIsset_fdClr {fd n : ℕ} {p : FdSet} (h : fdIsset maxFds n (fdClr maxFds fd p) = true) :
    fdIsset maxFds n p = true := by
  by_cases hfd : fd < maxFds
  · by_cases hn : n = fd
    · simp [fdClr, hfd, hn, fdIsset] at h
    · simpa [fdClr, hfd, hn, fdIsset] using h
  · simpa [fdClr, hfd] using h

lemma GatherInv.moveLocal {g : Gathered} (h : GatherInv maxFds sets g) (fd i localFd : ℕ)
    (k : Kind) : GatherInv maxFds sets (moveLocal maxFds fd i localFd g k) := by
  unfold Vfs.moveLocal
  by_cases hset : espVfsSafeFdIsset maxFds fd (g.sets k) = true
  · rw [if_pos hset]
    refine ⟨?_, fun fd' k' hin => ?_, fun j k' n hin => ?_, h.socket⟩
    · rw [← h.given]
      ext k'
      by_cases hk : k' = k
      · subst hk
        simp [FdSets.given]
      · simp [FdSets.given, hk]
    · refine h.subset fd' k' ?_
      by_cases hk : k' = k
      · subst hk
        cases hp : g.sets k' with
        | none => simp [FdSets.Isset, espVfsSafeFdIsset, hp] at hin
        | some p =>
          simp only [FdSets.Isset, espVfsSafeFdIsset, hp, Function.update_self, Option.map_some,
            Option.any_some] at hin ⊢
          exact fdIsset_fdClr hin
      · simpa [FdSets.Isset, hk] using hin
    · by_cases hj : j = i
      · subst hj
        simp
      · simp only [Function.update_of_ne hj] at hin ⊢
        exact h.isset j k' n hin
  · rw [if_neg hset]
    exact h

lemma GatherInv.gather {g : Gathered} (h : GatherInv maxFds sets g) {fd : ℕ}
    (hsocket : (s.fdTable fd).permanent = true → 0 ≤ (s.fdTable fd).vfsIndex →
      ∀ k, ¬ sets.Isset maxFds fd k) :
    GatherInv maxFds sets (gather maxFds s drivers g fd) := by
  unfold Vfs.gather
  by_cases hused : (s.fdTable fd).vfsIndex < 0
  · rwa [if_pos hused]
  · rw [if_neg hused]
    by_cases hperm : (s.fdTable fd).permanent = true
    · rw [if_pos hperm, if_neg]
      · exact h
      · rintro ⟨-, k, hk⟩
        exact hsocket hperm (not_lt.mp hused) k (h.subset fd k hk)
    · rw [if_neg hperm]
      simp only [kinds, List.foldl_cons, List.foldl_nil]
      exact ((h.moveLocal _ _ _ _).moveLocal _ _ _ _).moveLocal _ _ _ _

lemma gathered_inv {nfds : ℕ}
    (hsocket : ∀ fd < nfds, (s.fdTable fd).permanent = true → 0 ≤ (s.fdTable fd).vfsIndex →
      ∀ k, ¬ sets.Isset maxFds fd k) :
    GatherInv maxFds sets (gathered maxFds s drivers nfds sets) := by
  induction nfds with
  | zero => exact ⟨rfl, fun _ _ => id, fun i k n h => by simp [FdsTriple.zero, gathered] at h, rfl⟩
  | succ n ih =>
    rw [gathered, List.range_succ, List.foldl_append, List.foldl_cons, List.foldl_nil]
    exact (ih fun fd hfd => hsocket fd (by omega)).gather (hsocket n (by omega))

lemma startSelects_isset (l : List ℕ) (t : ℕ → FdsTriple) (i : ℕ) :
    ((startSelects s drivers l t).2 i).isset = (t i).isset := by
  induction l generalizing t with
  | nil => rfl
  | cons j js ih =>
    have hupdate : ∀ fds, (Function.update t j { t j with fds := fds } i).isset = (t i).isset := by
      intro fds
      by_cases hi : i = j
      · subst hi
        simp
      · rw [Function.update_of_ne hi]
    unfold startSelects
    split
    · split
      · split
        · rw [ih, hupdate]
        · exact hupdate _
      · exact ih t
    · exact ih t

lemma endSelects_isset (n : ℕ) (t : ℕ → FdsTriple) (i : ℕ) :
    (endSelects s drivers n t i).isset = (t i).isset := by
  unfold endSelects
  split <;> rfl

/-- A call of `select` for descriptors of filesystems, all of which start, maps the local
descriptors that are left back to exactly the descriptors that they stand for, if and only if
they are local descriptors of no others. -/
theorem select_maps_back_iff {mem : ℕ → Bool} {nfds : ℕ} (hnfds : nfds ≤ maxFds)
    (hmem : ∀ n, mem n = true)
    (hindex : ∀ fd < maxFds, (s.fdTable fd).vfsIndex < s.vfsCount)
    (hsocket : ∀ fd < nfds, (s.fdTable fd).permanent = true → 0 ≤ (s.fdTable fd).vfsIndex →
      ∀ k, ¬ sets.Isset maxFds fd k)
    (hstart : (startSelects s drivers (List.range s.vfsCount)
      (gathered maxFds s drivers nfds sets).triples).1 = none)
    (hleft : ∀ i k n, fdIsset maxFds n ((ready maxFds s drivers nfds sets i).fds k) = true →
      fdIsset maxFds n (((gathered maxFds s drivers nfds sets).triples i).fds k) = true) :
    MapsBack maxFds s (ready maxFds s drivers nfds sets) sets
        (espVfsSelect maxFds s drivers mem nfds sets) ↔
      Unambiguous maxFds s (ready maxFds s drivers nfds sets) sets := by
  have hinv : GatherInv maxFds sets (gathered maxFds s drivers nfds sets) := gathered_inv hsocket
  have hisset : ∀ i k n, fdIsset maxFds n ((ready maxFds s drivers nfds sets i).fds k) = true →
      (ready maxFds s drivers nfds sets i).isset = true := by
    intro i k n h
    rw [ready, endSelects_isset, startSelects_isset]
    exact hinv.isset i k n (hleft i k n h)
  have hstarted : startSelects s drivers (List.range s.vfsCount)
      (gathered maxFds s drivers nfds sets).triples = (none, (startSelects s drivers
        (List.range s.vfsCount) (gathered maxFds s drivers nfds sets).triples).2) :=
    Prod.ext hstart rfl
  have hselect : espVfsSelect maxFds s drivers mem nfds sets =
      ⟨(setGlobalFdSets maxFds s (ready maxFds s drivers nfds sets) s.vfsCount
          fun k => ((gathered maxFds s drivers nfds sets).sets k).map fun _ => fdZero).1, none,
        (setGlobalFdSets maxFds s (ready maxFds s drivers nfds sets) s.vfsCount
          fun k => ((gathered maxFds s drivers nfds sets).sets k).map fun _ => fdZero).2⟩ := by
    rw [espVfsSelect, if_neg (by omega), if_neg (by simp [hmem])]
    simp only [hmem, Int.toNat_natCast, hinv.socket]
    rw [if_neg (by simp), hstarted]
    simp [ready]
  rw [hselect]
  refine setGlobalFdSets_mapsBack_iff hindex hisset ?_ fun fd k => ?_
  · rw [← hinv.given]
    ext k
    simp [FdSets.given]
  · rw [FdSets.Isset, espVfsSafeFdIsset]
    cases (gathered maxFds s drivers nfds sets).sets k <;> simp

/-- Two filesystems with the descriptors `0` and `1`, whose local numbers are `a` and `b`. -/
def twoFilesystems (a b : ℕ) : State Unit where
  vfs i := if i < 2 then some ⟨(), [], none, i⟩ else none
  vfsCount := 2
  fdTable fd := if fd = 0 then ⟨false, 0, a⟩ else if fd = 1 then ⟨false, 1, b⟩ else .unused

/-- Filesystems that report all that they are asked for. -/
def allReady : Drivers := ⟨fun _ => none, fun _ => some fun fds => (true, fds), fun _ fds => fds⟩

lemma startSelects_allReady (l : List ℕ) (t : ℕ → FdsTriple) :
    startSelects s allReady l t = (none, t) := by
  induction l with
  | nil => rfl
  | cons i is ih =>
    simp only [startSelects, allReady, Function.update_eq_self, if_true, ite_self]
    exact ih

lemma ready_allReady {nfds : ℕ} :
    ready maxFds s allReady nfds sets = (gathered maxFds s allReady nfds sets).triples := by
  ext i : 1
  simp only [ready, startSelects_allReady, endSelects]
  split <;> rfl

/-- Both descriptors are waited for, and both are ready. -/
theorem select_maps_back_example :
    MapsBack 4 (twoFilesystems 1 2)
      (ready 4 (twoFilesystems 1 2) allReady 2 fun _ => some fun fd => fd < 2)
      (fun _ => some fun fd => fd < 2)
      (espVfsSelect 4 (twoFilesystems 1 2) allReady (fun _ => true) (2 : ℕ)
        fun _ => some fun fd => fd < 2) := by
  refine (select_maps_back_iff (by decide) (fun _ => rfl) ?_ ?_ ?_ ?_).mpr ?_
  · rintro fd -
    obtain rfl | rfl | h : fd = 0 ∨ fd = 1 ∨ 2 ≤ fd := by omega
    · decide
    · decide
    · have hunused : (twoFilesystems 1 2).fdTable fd = .unused := by
        simp [twoFilesystems, show fd ≠ 0 by omega, show fd ≠ 1 by omega]
      rw [hunused]
      decide
  · intro fd hfd hperm
    obtain rfl | rfl : fd = 0 ∨ fd = 1 := by omega
    all_goals exact absurd hperm (by decide)
  · rw [startSelects_allReady]
  · intro i k n
    rw [ready_allReady]
    exact id
  · rw [ready_allReady]
    decide

/-- Only descriptor `0` is waited for, and it is ready; descriptor `1` of the other filesystem,
which has the same local number, is set too, and counted. -/
theorem select_does_not_map_back :
    let s := twoFilesystems 1 1
    let sets : FdSets := fun k => if k = .readfds then some fun fd => fd == 0 else none
    let out := espVfsSelect 4 s allReady (fun _ => true) 2 sets
    out.ret = 2 ∧ out.sets.Isset 4 1 .readfds ∧ ¬ sets.Isset 4 1 .readfds ∧
      ¬ Reported 4 s (ready 4 s allReady 2 sets) 1 .readfds := by
  refine ⟨by decide, by decide, by decide, ?_⟩
  rintro ⟨i, hi, hready⟩
  obtain rfl : i = 1 := by
    have : ((1 : ℕ) : ℤ) = i := hi
    omega
  exact absurd hready (by rw [ready_allReady]; decide)

end EspIdf.Vfs
