/-
# The mode is what the locks demand

The two cores keep the power mode at what the locks demand in every run in which no core decides
on a mode that it has computed too early, and no core takes a lock of a mode for which the other
core is still switching.
-/
import EspIdf.Pm.Locks

namespace EspIdf.Pm

variable {L : Type} {s s' : Power L} {c : Core} {l : L}

/-! ### Modes -/

lemma PmMode.index_le_cpuMax (m : PmMode) : m.index ≤ PmMode.cpuMax.index := by
  cases m <;> decide

lemma PmMode.eq_cpuMax {m : PmMode} (h : LockType.cpuFreqMax.mode.index ≤ m.index) :
    m = .cpuMax := by
  revert h
  cases m <;> decide

/-- The mask of a set of modes. -/
def maskOf (f : PmMode → Bool) : BitVec 32 :=
  (if f .lightSleep then PmMode.lightSleep.bit else 0) |||
    (if f .apbMin then PmMode.apbMin.bit else 0) |||
    (if f .apbMax then PmMode.apbMax.bit else 0) ||| if f .cpuMax then PmMode.cpuMax.bit else 0

/-- `maskOf` for the four modes. -/
lemma forall_maskOf {p : (PmMode → Bool) → Prop}
    (h : ∀ a b c d : Bool, p fun | .lightSleep => a | .apbMin => b | .apbMax => c | .cpuMax => d)
    (f : PmMode → Bool) : p f := by
  convert h (f .lightSleep) (f .apbMin) (f .apbMax) (f .cpuMax) using 1
  ext m
  cases m <;> rfl

lemma maskOf_getLsbD (f : PmMode → Bool) (m : PmMode) : (maskOf f).getLsbD m.index = f m := by
  induction f using forall_maskOf with
  | h a b c d => cases m <;> revert a b c d <;> decide

lemma maskOf_or (f : PmMode → Bool) (m : PmMode) :
    maskOf f ||| m.bit = maskOf (Function.update f m true) := by
  induction f using forall_maskOf with
  | h a b c d => cases m <;> revert a b c d <;> decide

lemma maskOf_and (f : PmMode → Bool) (m : PmMode) :
    maskOf f &&& ~~~m.bit = maskOf (Function.update f m false) := by
  induction f using forall_maskOf with
  | h a b c d => cases m <;> revert a b c d <;> decide

/-- The lowest allowed mode is not below any mode of the mask. -/
lemma index_le_lowest (f : PmMode → Bool) (lightSleepEn : Bool) {m : PmMode} (h : f m = true) :
    m.index ≤ (getLowestAllowedMode lightSleepEn (maskOf f)).index := by
  revert h
  induction f using forall_maskOf with
  | h a b c d => cases m <;> revert lightSleepEn a b c d <;> decide

/-! ### What holds of the locks -/

/-- The mode in which a core may run: the current mode, and the one that is switched to. -/
def Power.Runs (s : Power L) (m : PmMode) : Prop :=
  m = s.sMode ∨ ∃ c l, s.phase c = .switching l m

/-- The mode that is reached without further decisions. -/
def Power.Final (s : Power L) (m : PmMode) : Prop :=
  (∃ c l, s.phase c = .switching l m) ∨ (∀ c l m', s.phase c ≠ .switching l m') ∧ m = s.sMode

/-- The locks hold: the counts and the mask say which modes are locked, no count underflows at a
release, the mode is the one that is demanded when no call is in progress, and no core runs in a
mode below that of a lock that has been acquired. -/
structure LocksHold (lightSleepEn : Bool) (type : L → LockType) (s : Power L) : Prop where
  mask : ∀ m : PmMode, s.modeMask.getLsbD m.index = true ↔ 0 < s.modeLockCounts m
  counts : ∀ m, 0 < s.modeLockCounts m ↔ ∃ l, (type l).mode = m ∧ 0 < s.held l
  count : ∀ l, s.count l = s.held l
  noUnderflow : ∀ l, 0 < s.count l → 0 < s.modeLockCounts (type l).mode
  quiet : (∀ c, s.phase c = .outside) → s.sMode = getLowestAllowedMode lightSleepEn s.modeMask
  returned : ∀ l, 0 < s.held l → (∀ c, (s.phase c).handle ≠ some l) →
    ∀ m, s.Runs m → (type l).mode.index ≤ m.index

/-- A lock is not acquired more often than its count can say, and when another lock of its mode
is held and it is acquired without a switch, no core runs in a lower mode.  What a core decides
on is demanded at that time, or the other core has still to decide and all other locks allow
it. -/
def Event.Timely (lightSleepEn : Bool) (type : L → LockType) (s : Power L) : Event L → Prop
  | .acquire _ l => s.held l + 1 < 2 ^ 32 ∧ (s.held l = 0 →
      0 < s.modeLockCounts (type l).mode → ∀ m, s.Runs m → (type l).mode.index ≤ m.index)
  | .decide c => ∀ l m, s.phase c = .deciding l m →
      m = getLowestAllowedMode lightSleepEn s.modeMask ∨
        ∃ l' m', s.phase c.other = .deciding l' m' ∧
          ∀ k, 0 < s.held k → k ≠ l' → (type k).mode.index ≤ m.index
  | _ => True

/-- A run from a state, all of whose steps are timely. -/
inductive TimelyRun [DecidableEq L] (lightSleepEn : Bool) (type : L → LockType) :
    Power L → Power L → Prop where
  | refl (s : Power L) : TimelyRun lightSleepEn type s s
  | step {s s' s'' : Power L} {e : Event L} (hrun : TimelyRun lightSleepEn type s s')
      (htimely : e.Timely lightSleepEn type s') (hstep : s'.step lightSleepEn type e = some s'') :
      TimelyRun lightSleepEn type s s''

/-! ### The counts -/

section Counts

variable [Fintype L] {lightSleepEn : Bool} {type : L → LockType}

/-- The locks of a mode that are held. -/
def heldOf (type : L → LockType) (held : L → ℕ) (m : PmMode) : Finset L :=
  Finset.univ.filter fun l => (type l).mode = m ∧ 0 < held l

lemma mem_heldOf {held : L → ℕ} {m : PmMode} :
    l ∈ heldOf type held m ↔ (type l).mode = m ∧ 0 < held l := by
  simp [heldOf]

/-- The counts of the handles are how often they are held, those of the modes how many of the
locks, and the mask says which are not `0`. -/
structure Tallied (type : L → LockType) (s : Power L) : Prop where
  count : ∀ l, s.count l = s.held l
  lt : ∀ l, s.held l < 2 ^ 32
  counts : ∀ m, s.modeLockCounts m = (heldOf type s.held m).card
  mask : s.modeMask = maskOf fun m => 0 < s.modeLockCounts m

/-- What the beginning of a call on `l` does to the modes. -/
structure Begun (lightSleepEn : Bool) (s s' : Power L) (c : Core) (l : L) : Prop where
  sMode : s'.sMode = s.sMode
  isSwitching : s'.isSwitching = s.isSwitching
  held : ∀ k ≠ l, s'.held k = s.held k
  phase : s'.phase = s.phase ∧ s'.modeMask = s.modeMask ∨
    s'.phase =
      Function.update s.phase c (.deciding l (getLowestAllowedMode lightSleepEn s'.modeMask))

lemma Tallied.pos_iff (h : Tallied type s) (m : PmMode) :
    0 < s.modeLockCounts m ↔ ∃ l, (type l).mode = m ∧ 0 < s.held l := by
  rw [h.counts, Finset.card_pos]
  exact exists_congr fun l => mem_heldOf

/-- The demanded mode is not below that of a lock that is held. -/
lemma Tallied.index_le (h : Tallied type s) (hl : 0 < s.held l) :
    (type l).mode.index ≤ (getLowestAllowedMode lightSleepEn s.modeMask).index := by
  rw [h.mask]
  exact index_le_lowest _ _ (decide_eq_true ((h.pos_iff _).mpr ⟨l, rfl, hl⟩))

/-- A mode whose count stays positive keeps its bit. -/
lemma Tallied.mask_keep (h : Tallied type s) {m : PmMode} {k : ℕ} (hpos : 0 < s.modeLockCounts m)
    (hk : 0 < k) :
    s.modeMask = maskOf (Function.update (fun m => decide (0 < s.modeLockCounts m)) m
      (decide (0 < k))) := by
  rw [decide_eq_true hk, ← decide_eq_true hpos, Function.update_eq_self]
  exact h.mask

variable [DecidableEq L]

lemma heldOf_update_of_ne {held : L → ℕ} {n : ℕ} {m : PmMode} (hm : m ≠ (type l).mode) :
    heldOf type (Function.update held l n) m = heldOf type held m := by
  ext k
  rw [mem_heldOf, mem_heldOf]
  by_cases hk : k = l
  · subst hk
    exact iff_of_false (fun h => hm h.1.symm) (fun h => hm h.1.symm)
  · rw [Function.update_of_ne hk]

lemma heldOf_update_succ (held : L → ℕ) (n : ℕ) :
    heldOf type (Function.update held l (n + 1)) (type l).mode =
      insert l (heldOf type held (type l).mode) := by
  ext k
  rw [Finset.mem_insert, mem_heldOf, mem_heldOf]
  by_cases hk : k = l
  · subst hk
    simp
  · simp [hk]

lemma heldOf_update_zero (held : L → ℕ) :
    heldOf type (Function.update held l 0) (type l).mode =
      (heldOf type held (type l).mode).erase l := by
  ext k
  rw [Finset.mem_erase, mem_heldOf, mem_heldOf]
  by_cases hk : k = l
  · subst hk
    simp
  · simp [hk]

lemma decide_pos_update (counts : PmMode → ℕ) (m : PmMode) (n : ℕ) :
    (fun m' => decide (0 < Function.update counts m n m')) =
      Function.update (fun m' => decide (0 < counts m')) m (decide (0 < n)) := by
  ext m'
  by_cases hm : m' = m
  · subst hm
    simp
  · simp [hm]

/-- A lock that is held is acquired once more, or released not for the last time. -/
lemma Tallied.nested (h : Tallied type s) {n : ℕ} (hl : 0 < s.held l) (hn : 0 < n)
    (hlt : n < 2 ^ 32) :
    Tallied type { s with
      count := Function.update s.count l n
      held := Function.update s.held l n } := by
  have hheld : ∀ m, heldOf type (Function.update s.held l n) m = heldOf type s.held m := by
    intro m
    by_cases hm : m = (type l).mode
    · subst hm
      obtain ⟨k, rfl⟩ := Nat.exists_eq_succ_of_ne_zero hn.ne'
      rw [heldOf_update_succ, Finset.insert_eq_of_mem (mem_heldOf.mpr ⟨rfl, hl⟩)]
    · exact heldOf_update_of_ne hm
  refine ⟨fun k => ?_, fun k => ?_, fun m => (h.counts m).trans (by rw [hheld]), h.mask⟩
  · by_cases hk : k = l
    · subst hk
      simp
    · simpa [hk] using h.count k
  · by_cases hk : k = l
    · subst hk
      simpa using hlt
    · simpa [hk] using h.lt k

/-- The count of the mode changes with the set of the locks that are held. -/
lemma Tallied.changed (h : Tallied type s) {n k : ℕ} {phase : Core → Phase L} (hn : n < 2 ^ 32)
    (hk : k = (heldOf type (Function.update s.held l n) (type l).mode).card) :
    Tallied type { s with
      count := Function.update s.count l n
      held := Function.update s.held l n
      modeLockCounts := Function.update s.modeLockCounts (type l).mode k
      modeMask := maskOf (Function.update (fun m => decide (0 < s.modeLockCounts m)) (type l).mode
        (decide (0 < k)))
      phase := phase } := by
  refine ⟨fun i => ?_, fun i => ?_, fun m => ?_, ?_⟩
  · by_cases hi : i = l
    · subst hi
      simp
    · simpa [hi] using h.count i
  · by_cases hi : i = l
    · subst hi
      simpa using hn
    · simpa [hi] using h.lt i
  · dsimp only
    by_cases hm : m = (type l).mode
    · subst hm
      rw [Function.update_self, hk]
    · rw [Function.update_of_ne hm, h.counts, heldOf_update_of_ne hm]
  · dsimp only
    rw [decide_pos_update]

lemma Tallied.acquire (h : Tallied type s) (hcard : Fintype.card L < 2 ^ 32)
    (hlt : s.held l + 1 < 2 ^ 32) :
    Tallied type (s.acquire lightSleepEn type c l) ∧
      Begun lightSleepEn s (s.acquire lightSleepEn type c l) c l ∧
      ((s.acquire lightSleepEn type c l).phase = s.phase → s.phase c = .outside →
        0 < s.held l ∨ 0 < s.modeLockCounts (type l).mode) := by
  have hheld : ∀ k ≠ l, Function.update s.held l (s.held l + 1) k = s.held k :=
    fun k hk => Function.update_of_ne hk _ _
  unfold Power.acquire
  simp only [h.count l, Nat.mod_eq_of_lt hlt]
  by_cases hl : s.held l = 0
  · rw [if_pos hl]
    have hnotMem : l ∉ heldOf type s.held (type l).mode :=
      fun hmem => absurd (mem_heldOf.mp hmem).2 (by omega)
    have hinsert := Finset.card_insert_of_notMem hnotMem
    have hle : (insert l (heldOf type s.held (type l).mode)).card ≤ Fintype.card L :=
      Finset.card_le_univ _
    have hcount : s.modeLockCounts (type l).mode + 1 =
        (heldOf type (Function.update s.held l (s.held l + 1)) (type l).mode).card := by
      rw [heldOf_update_succ, hinsert, h.counts]
    have hcounts := h.counts (type l).mode
    unfold Power.switchModeLock
    simp only [Nat.mod_eq_of_lt (show s.modeLockCounts (type l).mode + 1 < 2 ^ 32 by omega)]
    by_cases hzero : s.modeLockCounts (type l).mode = 0
    · -- the first lock of its mode
      rw [if_pos (by omega)]
      have hmask : s.modeMask ||| (type l).mode.bit =
          maskOf (Function.update (fun m => decide (0 < s.modeLockCounts m)) (type l).mode
            (decide (0 < s.modeLockCounts (type l).mode + 1))) := by
        rw [h.mask, maskOf_or, decide_eq_true (Nat.succ_pos _)]
      refine ⟨?_, ⟨rfl, rfl, hheld, .inr rfl⟩, fun hphase hout => ?_⟩
      · rw [goOn, hmask]
        exact h.changed hlt hcount
      · have hc := congrFun hphase c
        rw [hout] at hc
        exact absurd hc (by simp [goOn])
    · rw [if_neg (by omega)]
      refine ⟨?_, ⟨rfl, rfl, hheld, .inl ⟨rfl, rfl⟩⟩, fun _ _ => .inr (by omega)⟩
      rw [h.mask_keep (by omega : 0 < s.modeLockCounts (type l).mode) (Nat.succ_pos _)]
      exact h.changed hlt hcount
  · rw [if_neg hl]
    exact ⟨h.nested (by omega) (by omega) hlt, ⟨rfl, rfl, hheld, .inl ⟨rfl, rfl⟩⟩,
      fun _ _ => .inl (by omega)⟩

lemma Tallied.release (h : Tallied type s) (hcard : Fintype.card L < 2 ^ 32) :
    Tallied type (s.release lightSleepEn type c l) ∧
      Begun lightSleepEn s (s.release lightSleepEn type c l) c l ∧
      (s.release lightSleepEn type c l).held l ≤ s.held l := by
  have hheld : ∀ k ≠ l, Function.update s.held l (s.held l - 1) k = s.held k :=
    fun k hk => Function.update_of_ne hk _ _
  have hlt := h.lt l
  unfold Power.release
  simp only [h.count l]
  by_cases hl : s.held l = 0
  · rw [if_pos hl]
    exact ⟨h, ⟨rfl, rfl, fun _ _ => rfl, .inl ⟨rfl, rfl⟩⟩, Nat.le_refl _⟩
  rw [if_neg hl]
  by_cases hone : s.held l - 1 = 0
  · rw [if_pos hone]
    have hmem : l ∈ heldOf type s.held (type l).mode := mem_heldOf.mpr ⟨rfl, by omega⟩
    have hcounts := h.counts (type l).mode
    have hpos := Finset.card_pos.mpr ⟨l, hmem⟩
    have hle : (heldOf type s.held (type l).mode).card ≤ Fintype.card L := Finset.card_le_univ _
    have hmod : (s.modeLockCounts (type l).mode + (2 ^ 32 - 1)) % 2 ^ 32 =
        s.modeLockCounts (type l).mode - 1 := by omega
    have hcount : s.modeLockCounts (type l).mode - 1 =
        (heldOf type (Function.update s.held l (s.held l - 1)) (type l).mode).card := by
      rw [hone, heldOf_update_zero, Finset.card_erase_of_mem hmem, h.counts]
    unfold Power.switchModeUnlock
    simp only [hmod]
    by_cases hlast : s.modeLockCounts (type l).mode = 1
    · -- the last lock of its mode
      rw [if_pos hlast]
      have hmask : s.modeMask &&& ~~~(type l).mode.bit =
          maskOf (Function.update (fun m => decide (0 < s.modeLockCounts m)) (type l).mode
            (decide (0 < s.modeLockCounts (type l).mode - 1))) := by
        rw [h.mask, maskOf_and, decide_eq_false (by omega)]
      refine ⟨?_, ⟨rfl, rfl, hheld, .inr rfl⟩, by simp [goOn]⟩
      rw [goOn, hmask]
      exact h.changed (by omega) hcount
    · rw [if_neg hlast]
      refine ⟨?_, ⟨rfl, rfl, hheld, .inl ⟨rfl, rfl⟩⟩, by simp [goOn]⟩
      rw [h.mask_keep (by omega : 0 < s.modeLockCounts (type l).mode)
        (by omega : 0 < s.modeLockCounts (type l).mode - 1)]
      exact h.changed (by omega) hcount
  · rw [if_neg hone]
    refine ⟨h.nested (by omega) (by omega) (by omega), ⟨rfl, rfl, hheld, .inl ⟨rfl, rfl⟩⟩, ?_⟩
    simp

end Counts

/-! ### The two cores -/

lemma Core.other_ne (c : Core) : c.other ≠ c := by cases c <;> decide

@[simp] lemma Core.other_other (c : Core) : c.other.other = c := by cases c <;> rfl

lemma Core.eq_or_eq_other (c c' : Core) : c' = c ∨ c' = c.other := by
  cases c <;> cases c' <;> decide

/-- What the phases and the mode say of the switch in progress. -/
lemma Power.runs_congr (hmode : s'.sMode = s.sMode)
    (hswitch : ∀ c l m, s'.phase c = .switching l m ↔ s.phase c = .switching l m) (m : PmMode) :
    s'.Runs m ↔ s.Runs m := by
  unfold Power.Runs
  simp only [hmode, hswitch]

section Cores

variable [Fintype L] {lightSleepEn : Bool} {type : L → LockType}

/-- The invariant of the two cores. -/
structure Inv (lightSleepEn : Bool) (type : L → LockType) (s : Power L) : Prop where
  tallied : Tallied type s
  /-- The spinlock of a handle is with one core. -/
  distinct : ∀ c l, (s.phase c).handle = some l → (s.phase c.other).handle ≠ some l
  isSwitching : s.isSwitching = false ↔ ∀ c l m, s.phase c ≠ .switching l m
  single : ∀ c l m l' m', s.phase c = .switching l m → s.phase c.other ≠ .switching l' m'
  settled : (∀ c l m, s.phase c ≠ .deciding l m) →
    ∀ m, s.Final m → m = getLowestAllowedMode lightSleepEn s.modeMask
  returned : ∀ l, 0 < s.held l → (∀ c, (s.phase c).handle ≠ some l) →
    ∀ m, s.Runs m → (type l).mode.index ≤ m.index
  own : ∀ c l m, s.phase c = .deciding l m ∨ s.phase c = .switching l m → 0 < s.held l →
    (type l).mode.index ≤ m.index

lemma Inv.locksHold (h : Inv lightSleepEn type s) : LocksHold lightSleepEn type s where
  mask m := by
    rw [h.tallied.mask, maskOf_getLsbD, decide_eq_true_iff]
  counts := h.tallied.pos_iff
  count := h.tallied.count
  noUnderflow l hl := (h.tallied.pos_iff _).mpr ⟨l, rfl, h.tallied.count l ▸ hl⟩
  quiet hout :=
    h.settled (fun c l m => by simp [hout c]) _ (.inr ⟨fun c l m => by simp [hout c], rfl⟩)
  returned := h.returned

/-- The beginning of a call keeps the invariant, when the lock allows the modes in which the
cores may run, or a decision follows. -/
lemma Inv.begin (h : Inv lightSleepEn type s) (hout : s.phase c = .outside)
    (hfree : (s.phase c.other).handle ≠ some l) (hb : Begun lightSleepEn s s' c l)
    (ht : Tallied type s')
    (hl : s'.phase = s.phase → 0 < s'.held l → ∀ m, s.Runs m → (type l).mode.index ≤ m.index) :
    Inv lightSleepEn type s' := by
  have hnot : ∀ c', (s.phase c').handle ≠ some l := by
    intro c'
    obtain rfl | rfl := Core.eq_or_eq_other c c'
    · simp [hout, Phase.handle]
    · exact hfree
  have hownOld : ∀ c' k m, s.phase c' = .deciding k m ∨ s.phase c' = .switching k m →
      0 < s'.held k → (type k).mode.index ≤ m.index := by
    intro c' k m hphase hk
    have hne : k ≠ l := by
      rintro rfl
      obtain hphase | hphase := hphase <;> exact hnot c' (by rw [hphase]; rfl)
    exact h.own c' k m hphase (hb.held k hne ▸ hk)
  obtain ⟨hphase, hmask⟩ | hphase := hb.phase
  · have hruns := Power.runs_congr hb.sMode (fun c l m => by rw [hphase])
    refine ⟨ht, hphase ▸ h.distinct, by rw [hphase, hb.isSwitching]; exact h.isSwitching,
      hphase ▸ h.single, ?_, ?_, by rw [hphase]; exact hownOld⟩
    · unfold Power.Final
      rw [hphase, hmask, hb.sMode]
      exact h.settled
    · intro k hk hhandle m hm
      rw [hruns] at hm
      rw [hphase] at hhandle
      by_cases hkl : k = l
      · subst hkl
        exact hl hphase hk m hm
      · exact h.returned k (hb.held k hkl ▸ hk) hhandle m hm
  · have hself : s'.phase c =
        .deciding l (getLowestAllowedMode lightSleepEn s'.modeMask) := by
      rw [hphase, Function.update_self]
    have hother : s'.phase c.other = s.phase c.other := by
      rw [hphase, Function.update_of_ne c.other_ne]
    have hswitch : ∀ c' k m, s'.phase c' = .switching k m ↔ s.phase c' = .switching k m := by
      intro c' k m
      obtain rfl | rfl := Core.eq_or_eq_other c c'
      · simp [hself, hout]
      · rw [hother]
    refine ⟨ht, ?_, ?_, ?_, ?_, ?_, ?_⟩
    · intro c' k hk
      obtain rfl | rfl := Core.eq_or_eq_other c c'
      · rw [hself] at hk
        obtain rfl := Option.some_inj.mp hk
        rwa [hother]
      · rw [hother] at hk
        rw [Core.other_other, hself]
        intro hkl
        obtain rfl := Option.some_inj.mp hkl
        exact hfree hk
    · rw [hb.isSwitching]
      simp only [ne_eq, hswitch]
      exact h.isSwitching
    · intro c' k m k' m'
      rw [hswitch, ne_eq, hswitch]
      exact h.single c' k m k' m'
    · intro hnone
      exact absurd hself (hnone _ _ _)
    · intro k hk hhandle m hm
      have hkl : k ≠ l := by
        rintro rfl
        exact hhandle c (by rw [hself]; rfl)
      rw [Power.runs_congr hb.sMode hswitch] at hm
      refine h.returned k (hb.held k hkl ▸ hk) (fun c' => ?_) m hm
      obtain rfl | rfl := Core.eq_or_eq_other c c'
      · simp [hout, Phase.handle]
      · rw [← hother]
        exact hhandle _
    · intro c' k m hkm hk
      obtain rfl | rfl := Core.eq_or_eq_other c c'
      · -- the mode that the new call has computed is demanded
        rw [hself] at hkm
        obtain ⟨rfl, rfl⟩ : l = k ∧ getLowestAllowedMode lightSleepEn s'.modeMask = m := by
          simpa using hkm
        exact ht.index_le hk
      · rw [hother] at hkm
        exact hownOld _ k m hkm hk

/-- A call returns in the mode `m`. -/
lemma Inv.returns (h : Inv lightSleepEn type s) {m : PmMode} (hl : (s.phase c).handle = some l)
    (hother : ∀ l' m', s.phase c.other ≠ .switching l' m')
    (hown : 0 < s.held l → (type l).mode.index ≤ m.index)
    (hreturned : ∀ k, 0 < s.held k → (∀ c, (s.phase c).handle ≠ some k) →
      (type k).mode.index ≤ m.index)
    (hsettled : (∀ l' m', s.phase c.other ≠ .deciding l' m') →
      m = getLowestAllowedMode lightSleepEn s.modeMask) :
    Inv lightSleepEn type (s.finish c m) := by
  have hself : (s.finish c m).phase c = .outside := Function.update_self _ _ _
  have hphase : (s.finish c m).phase c.other = s.phase c.other :=
    Function.update_of_ne c.other_ne _ _
  have hnone : ∀ c' k m', (s.finish c m).phase c' ≠ .switching k m' := by
    intro c' k m'
    obtain rfl | rfl := Core.eq_or_eq_other c c'
    · simp [hself]
    · rw [hphase]
      exact hother k m'
  have hruns : ∀ m', (s.finish c m).Runs m' → m' = m := by
    rintro m' (hm' | ⟨c', k, hk⟩)
    · exact hm'
    · exact absurd hk (hnone c' k m')
  refine ⟨⟨h.tallied.count, h.tallied.lt, h.tallied.counts, h.tallied.mask⟩, ?_,
    iff_of_true rfl hnone, fun c' k m' k' m'' hk => absurd hk (hnone c' k m'), ?_, ?_, ?_⟩
  · intro c' k hk
    obtain rfl | rfl := Core.eq_or_eq_other c c'
    · rw [hself] at hk
      exact absurd hk (by simp [Phase.handle])
    · rw [Core.other_other, hself]
      simp [Phase.handle]
  · intro hdeciding m' hm'
    obtain ⟨c', k, hk⟩ | ⟨-, rfl⟩ := hm'
    · exact absurd hk (hnone c' k m')
    · exact hsettled fun l' m'' hl' => hdeciding c.other l' m'' (hphase.trans hl')
  · intro k hk hhandle m' hm'
    rw [hruns m' hm']
    by_cases hkl : k = l
    · subst hkl
      exact hown hk
    · refine hreturned k hk fun c' => ?_
      obtain rfl | rfl := Core.eq_or_eq_other c c'
      · rw [hl]
        exact fun heq => hkl (Option.some_inj.mp heq).symm
      · rw [← hphase]
        exact hhandle _
  · intro c' k m' hkm hk
    obtain rfl | rfl := Core.eq_or_eq_other c c'
    · simp [hself] at hkm
    · rw [hphase] at hkm
      exact h.own c.other k m' hkm hk

/-- A decision that the condition allows keeps the invariant. -/
lemma Inv.decide (h : Inv lightSleepEn type s) {m : PmMode} (hphase : s.phase c = .deciding l m)
    (hidle : s.isSwitching = false)
    (htimely : (Event.decide c : Event L).Timely lightSleepEn type s) :
    Inv lightSleepEn type (s.decide c l m) := by
  have hnone := h.isSwitching.mp hidle
  have hl : (s.phase c).handle = some l := by rw [hphase]; rfl
  have hown := h.own c l m (.inl hphase)
  have htimely := htimely l m hphase
  by_cases hm : m = s.sMode
  · -- nothing is to be done
    have heq : s.decide c l m = s.finish c m := by
      rw [Power.decide, if_pos hm, Power.finish, hm, ← hidle]
    rw [heq]
    refine h.returns hl (hnone c.other) hown (fun k hk hhandle => ?_) fun hdeciding => ?_
    · exact h.returned k hk hhandle m (.inl hm)
    · obtain hm | ⟨l', m', hl', -⟩ := htimely
      · exact hm
      · exact absurd hl' (hdeciding l' m')
  have heq : s.decide c l m = { s with
      isSwitching := true
      phase := Function.update s.phase c (.switching l m) } := if_neg hm
  have hself : (s.decide c l m).phase c = .switching l m := by
    rw [heq]
    exact Function.update_self _ _ _
  have hother : (s.decide c l m).phase c.other = s.phase c.other := by
    rw [heq]
    exact Function.update_of_ne c.other_ne _ _
  have hmode : (s.decide c l m).sMode = s.sMode := by rw [heq]
  have hheld : (s.decide c l m).held = s.held := by rw [heq]
  have hmask : (s.decide c l m).modeMask = s.modeMask := by rw [heq]
  have hswitch : ∀ c' k m', (s.decide c l m).phase c' = .switching k m' → c' = c ∧ m' = m := by
    intro c' k m' hk
    obtain rfl | rfl := Core.eq_or_eq_other c c'
    · rw [hself] at hk
      exact ⟨rfl, (Phase.switching.inj hk).2.symm⟩
    · exact absurd (hother.symm.trans hk) (hnone c.other k m')
  refine ⟨?_, ?_, ?_, ?_, ?_, ?_, ?_⟩
  · rw [heq]
    exact ⟨h.tallied.count, h.tallied.lt, h.tallied.counts, h.tallied.mask⟩
  · intro c' k hk
    obtain rfl | rfl := Core.eq_or_eq_other c c'
    · rw [hself] at hk
      rw [hother]
      exact h.distinct _ k (hl.trans hk)
    · rw [hother] at hk
      rw [Core.other_other, hself]
      have hdistinct := h.distinct _ k hk
      rwa [Core.other_other, hl] at hdistinct
  · refine iff_of_false (by rw [heq]; simp) fun hnot => hnot c l m hself
  · intro c' k m' k' m'' hk hk'
    obtain ⟨rfl, -⟩ := hswitch c' k m' hk
    exact Core.other_ne _ (hswitch _ k' m'' hk').1
  · intro hdeciding m' hm'
    rw [hmask]
    obtain hlow | ⟨l', m'', hl', -⟩ := htimely
    · obtain ⟨c', k, hk⟩ | ⟨hnot, -⟩ := hm'
      · rw [(hswitch c' k m' hk).2]
        exact hlow
      · exact absurd hself (hnot c l m)
    · exact absurd (hother.trans hl') (hdeciding _ l' m'')
  · intro k hk hhandle m' hm'
    rw [hheld] at hk
    have hkl : k ≠ l := by
      rintro rfl
      exact hhandle c (by rw [hself]; rfl)
    have hkother : (s.phase c.other).handle ≠ some k := by
      rw [← hother]
      exact hhandle _
    obtain hm' | ⟨c', k', hk'⟩ := hm'
    · refine h.returned k hk (fun c' => ?_) m' (.inl (hm'.trans hmode))
      obtain rfl | rfl := Core.eq_or_eq_other c c'
      · rw [hl]
        exact fun hlk => hkl (Option.some_inj.mp hlk).symm
      · exact hkother
    · rw [(hswitch c' k' m' hk').2]
      obtain rfl | ⟨l', m'', hl', hallowed⟩ := htimely
      · exact h.tallied.index_le hk
      · refine hallowed k hk ?_
        rintro rfl
        exact hkother (by rw [hl']; rfl)
  · intro c' k m' hkm hk
    rw [hheld] at hk
    obtain rfl | rfl := Core.eq_or_eq_other c c'
    · rw [hself] at hkm
      obtain ⟨rfl, rfl⟩ : l = k ∧ m = m' := by simpa using hkm
      exact hown hk
    · rw [hother] at hkm
      exact h.own _ k m' hkm hk

/-- The end of a switch keeps the invariant. -/
lemma Inv.finish (h : Inv lightSleepEn type s) {m : PmMode} (hphase : s.phase c = .switching l m) :
    Inv lightSleepEn type (s.finish c m) := by
  have hother := fun l' m' => h.single c l m l' m' hphase
  refine h.returns (by rw [hphase]; rfl) hother (h.own c l m (.inr hphase))
    (fun k hk hhandle => h.returned k hk hhandle m (.inr ⟨c, l, hphase⟩)) fun hdeciding => ?_
  refine h.settled (fun c' l' m' => ?_) m (.inl ⟨c, l, hphase⟩)
  obtain rfl | rfl := Core.eq_or_eq_other c c'
  · simp [hphase]
  · exact hdeciding l' m'

variable [DecidableEq L]

/-- A timely step keeps the invariant. -/
lemma Inv.step (h : Inv lightSleepEn type s) (hcard : Fintype.card L < 2 ^ 32) {e : Event L}
    (htimely : e.Timely lightSleepEn type s) (hstep : s.step lightSleepEn type e = some s') :
    Inv lightSleepEn type s' := by
  cases e with
  | acquire c l =>
    obtain ⟨⟨hout, hfree⟩, hs⟩ := Option.ite_none_right_eq_some.mp hstep
    obtain rfl := Option.some_inj.mp hs
    obtain ⟨htallied, hbegun, hquick⟩ := h.tallied.acquire hcard htimely.1
    refine h.begin hout hfree hbegun htallied fun hphase _ m hm => ?_
    by_cases hl : s.held l = 0
    · exact htimely.2 hl ((hquick hphase hout).resolve_left (by omega)) m hm
    · -- the lock is held, and nobody is in a call on it
      refine h.returned l (by omega) (fun c' => ?_) m hm
      obtain rfl | rfl := Core.eq_or_eq_other c c'
      · simp [hout, Phase.handle]
      · exact hfree
  | release c l =>
    obtain ⟨⟨hout, hfree⟩, hs⟩ := Option.ite_none_right_eq_some.mp hstep
    obtain rfl := Option.some_inj.mp hs
    obtain ⟨htallied, hbegun, hle⟩ := h.tallied.release hcard
    refine h.begin hout hfree hbegun htallied fun _ hl m hm => ?_
    refine h.returned l (by omega) (fun c' => ?_) m hm
    obtain rfl | rfl := Core.eq_or_eq_other c c'
    · simp [hout, Phase.handle]
    · exact hfree
  | decide c =>
    unfold Power.step at hstep
    dsimp only at hstep
    split at hstep
    · next l m hphase =>
      cases hidle : s.isSwitching with
      | true => simp [hidle] at hstep
      | false =>
        obtain rfl : s.decide c l m = s' := by simpa [hidle] using hstep
        exact h.decide hphase hidle htimely
    · exact absurd hstep (by simp)
  | finish c =>
    unfold Power.step at hstep
    dsimp only at hstep
    split at hstep
    · next l m hphase =>
      obtain rfl := Option.some_inj.mp hstep
      exact h.finish hphase
    · exact absurd hstep (by simp)

lemma TimelyRun.inv (hcard : Fintype.card L < 2 ^ 32) (hrun : TimelyRun lightSleepEn type s s')
    (h : Inv lightSleepEn type s) : Inv lightSleepEn type s' := by
  induction hrun with
  | refl => exact h
  | step _ htimely hstep ih => exact ih.step hcard htimely hstep

omit [DecidableEq L] in
lemma Tallied.decide (h : Tallied type s) (c : Core) (l : L) (m : PmMode) :
    Tallied type (s.decide c l m) := by
  unfold Power.decide
  split
  · exact ⟨h.count, h.lt, h.counts, h.mask⟩
  · exact ⟨h.count, h.lt, h.counts, h.mask⟩

omit [Fintype L] [DecidableEq L] in
lemma Power.decide_held (s : Power L) (c : Core) (l : L) (m : PmMode) :
    (s.decide c l m).held = s.held := by
  unfold Power.decide
  split <;> rfl

lemma tallied_init (lightSleepEn : Bool) (type : L → LockType) (hcard : Fintype.card L < 2 ^ 32)
    {rtos : Core → L} (hrtos : rtos .app ≠ rtos .pro) :
    Tallied type (.init lightSleepEn type rtos) := by
  have hboot : Tallied type (Power.boot : Power L) :=
    ⟨fun _ => rfl, fun _ => Nat.two_pow_pos 32, fun m => by simp [Power.boot, heldOf],
      by simp [Power.boot, maskOf]⟩
  have hfirst : Tallied type (Power.boot.acquire lightSleepEn type .pro (rtos .pro)) :=
    (hboot.acquire hcard (show 0 + 1 < 2 ^ 32 by decide)).1
  have hbegun : Begun lightSleepEn Power.boot
      (Power.boot.acquire lightSleepEn type .pro (rtos .pro)) .pro (rtos .pro) :=
    (hboot.acquire hcard (show 0 + 1 < 2 ^ 32 by decide)).2.1
  refine ((hfirst.decide _ _ _).acquire hcard ?_).1
  rw [Power.decide_held, hbegun.held _ hrtos]
  exact show 0 + 1 < 2 ^ 32 by decide

omit [Fintype L] in
/-- After `esp_pm_impl_init` no core is in a call, and the mode is that of the two locks. -/
lemma init_quiet (lightSleepEn : Bool) {rtos : Core → L} (hrtos : rtos .app ≠ rtos .pro)
    (htype : ∀ c, type (rtos c) = .cpuFreqMax) :
    (Power.init lightSleepEn type rtos).sMode = .cpuMax ∧
      (∀ c, (Power.init lightSleepEn type rtos).phase c = .outside) ∧
      (Power.init lightSleepEn type rtos).isSwitching = false ∧
      0 < (Power.init lightSleepEn type rtos).held (rtos .pro) := by
  simp [Power.init, Power.acquire, Power.switchModeLock, Power.decide, Power.boot, goOn, htype,
    LockType.mode, hrtos, hrtos.symm]

/-- The state after `esp_pm_impl_init`. -/
lemma inv_init (hcard : Fintype.card L < 2 ^ 32) {rtos : Core → L}
    (hrtos : rtos .app ≠ rtos .pro) (htype : ∀ c, type (rtos c) = .cpuFreqMax) :
    Inv lightSleepEn type (.init lightSleepEn type rtos) := by
  obtain ⟨hmode, hout, hidle, hheld⟩ := init_quiet lightSleepEn hrtos htype
  have htallied := tallied_init lightSleepEn type hcard hrtos
  have hruns : ∀ m, (Power.init lightSleepEn type rtos).Runs m → m = .cpuMax := by
    rintro m (hm | ⟨c, l, hc⟩)
    · exact hm.trans hmode
    · exact absurd hc (by simp [hout c])
  refine ⟨htallied, fun c l hl => ?_, iff_of_true hidle fun c l m => by simp [hout c],
    fun c l m l' m' hc => ?_, fun _ m hm => ?_, fun l _ _ m hm => ?_, fun c l m hc => ?_⟩
  · exact absurd hl (by simp [hout c, Phase.handle])
  · exact absurd hc (by simp [hout c])
  · obtain ⟨c, l, hc⟩ | ⟨-, rfl⟩ := hm
    · exact absurd hc (by simp [hout c])
    · have hle : _ ≤ (getLowestAllowedMode lightSleepEn _).index := htallied.index_le hheld
      rw [htype] at hle
      rw [hmode]
      exact (PmMode.eq_cpuMax hle).symm
  · rw [hruns m hm]
    exact PmMode.index_le_cpuMax _
  · exact absurd hc (by simp [hout c])

/-- In every run from `esp_pm_impl_init` on all of whose steps are timely, the locks hold in
every state.  The locks have different addresses, so that there are fewer than `2 ^ 32`. -/
theorem locks_hold (hcard : Fintype.card L < 2 ^ 32) (rtos : Core → L)
    (hrtos : rtos .app ≠ rtos .pro) (htype : ∀ c, type (rtos c) = .cpuFreqMax)
    (hrun : TimelyRun lightSleepEn type (.init lightSleepEn type rtos) s) :
    LocksHold lightSleepEn type s :=
  (hrun.inv hcard (inv_init hcard hrtos htype)).locksHold

end Cores

instance : Fintype Core := ⟨{.pro, .app}, fun c => by cases c <;> decide⟩

/-- Both cores become idle: the second lock is the last one, and the mode goes down. -/
theorem locks_hold_idle :
    ∃ s : Power Core, s.sMode = .apbMin ∧ LocksHold false (fun _ => .cpuFreqMax) s := by
  refine ⟨_, ?_, locks_hold (by decide) id (by decide) (fun _ => rfl) (.step (.step (.step
    (.step (.refl _) (e := .release .pro .pro) trivial rfl) (e := .release .app .app) trivial rfl)
    (e := .decide .app) (fun l m h => .inl ?_) rfl) (e := .finish .app) trivial rfl)⟩
  · rfl
  · cases h
    decide

/-- The state after a list of steps. -/
def Power.run [DecidableEq L] (lightSleepEn : Bool) (type : L → LockType) (s : Power L)
    (es : List (Event L)) : Option (Power L) :=
  es.foldlM (Power.step lightSleepEn type) s

/-- A core switches down to the mode that it has computed before the other core has taken a
lock; and a core takes a lock of a mode to which the other core has not switched yet. -/
theorem locks_do_not_hold :
    (∃ s : Power Core,
      (Power.init false (fun _ => .cpuFreqMax) id).run false (fun _ => .cpuFreqMax)
        [.release .pro .pro, .release .app .app, .acquire .pro .pro, .decide .pro, .decide .app,
          .finish .app] = some s ∧
      (∀ c, s.phase c = .outside) ∧ s.held .pro = 1 ∧ s.sMode = .apbMin ∧
      ¬ LocksHold false (fun _ => .cpuFreqMax) s) ∧
    ∃ s : Power Core,
      (Power.init false (fun _ => .cpuFreqMax) id).run false (fun _ => .cpuFreqMax)
        [.release .pro .pro, .release .app .app, .decide .app, .finish .app, .acquire .pro .pro,
          .acquire .app .app] = some s ∧
      s.phase .app = .outside ∧ s.held .app = 1 ∧ s.sMode = .apbMin ∧
      ¬ LocksHold false (fun _ => .cpuFreqMax) s := by
  refine ⟨⟨_, rfl, fun c => by cases c <;> rfl, rfl, rfl, fun h => ?_⟩, _, rfl, rfl, rfl, rfl,
    fun h => ?_⟩
  · exact absurd (h.quiet fun c => by cases c <;> rfl) (by decide)
  · have hle := h.returned .app (by decide) (fun c => by cases c <;> decide) .apbMin (.inl rfl)
    exact absurd hle (by decide)

end EspIdf.Pm
