/-
# Resolving paths

A path belongs to the filesystem with the longest prefix above it, and to the default filesystem
if there is none.  The filesystems stand in `s_vfs` in any order, and the loop over them keeps the
best match so far; a match with the default filesystem leaves the length of the best match as it
was.
-/
import EspIdf.Vfs.Integrity

namespace EspIdf.Vfs

variable {D : Type} {maxFds : ℕ} {s s' : State D} {e : Entry D} {path p q : List Char} {d : D}

/-- `translate_path`; the assertion fails for a filesystem above which the path does not lie. -/
def translatePath (vfs : Entry D) (srcPath : List Char) : Option (List Char) :=
  match vfs.pathPrefixLen with
  | none => none
  | some len =>
    if srcPath.take len = vfs.pathPrefix.take len then
      some (if srcPath.length = len then ['/'] else srcPath.drop len)
    else none

/-! ### What is mounted -/

/-- The path is the prefix or lies below it. -/
def Under (p path : List Char) : Prop := path = p ∨ p ++ ['/'] <+: path

instance (p path : List Char) : Decidable (Under p path) := inferInstanceAs (Decidable (_ ∨ _))

/-- The names between the slashes of a path. -/
def components (path : List Char) : List (List Char) :=
  (path.splitOnP (· == '/')).filter fun name => !name.isEmpty

/-- What is mounted where. -/
abbrev Mounts (D : Type) := List Char → D → Prop

/-- The path belongs to the filesystem mounted at `p`: to the one with the longest prefix, or to
the default one if no other has a prefix above the path. -/
def Resolves (m : Mounts D) (path p : List Char) (d : D) : Prop :=
  m p d ∧
    ((p ≠ [] ∧ Under p path ∧ ∀ q d', q ≠ [] → m q d' → Under q path → q.length ≤ p.length) ∨
      (p = [] ∧ ∀ q d', q ≠ [] → m q d' → ¬ Under q path))

/-- The entry is recognised at the prefix. -/
def Entry.At (e : Entry D) (p : List Char) : Prop :=
  e.pathPrefixLen = some p.length ∧ e.pathPrefix = p

def MountedAt (s : State D) : Mounts D := fun p d => ∃ i e, s.vfs i = some e ∧ e.At p ∧ e.vfs = d

/-- The entries with a prefix are those that are mounted, each at a prefix of its own. -/
structure Mounted (s : State D) (m : Mounts D) : Prop where
  count : s.vfsCount ≤ vfsMaxCount
  beyond : ∀ i, s.vfsCount ≤ i → s.vfs i = none
  prefixLen : ∀ i e n, s.vfs i = some e → e.pathPrefixLen = some n → e.At e.pathPrefix
  distinct : ∀ i j e e' p, s.vfs i = some e → s.vfs j = some e' → e.At p → e'.At p → i = j
  mounts : ∀ p d, m p d ↔ MountedAt s p d

/-- What is mounted after a call.  A range of descriptors that fails takes a filesystem away. -/
def mountsAfter (maxFds : ℕ) (s : State D) (m : Mounts D) (op : Op D) : Mounts D :=
  match op with
  | .register basePath _ vfs _ => fun p d =>
    m p d ∨ ((op.run maxFds s).1 = false ∧ p = basePath ∧ d = vfs)
  | .unregister basePath => fun p d => m p d ∧ ((op.run maxFds s).1 = true ∨ p ≠ basePath)
  | .registerFdRange _ _ _ _ => fun p d => m p d ∧ MountedAt (op.run maxFds s).2 p d
  | _ => m

/-- Nothing is registered at a prefix that is in use. -/
def Op.Distinct (m : Mounts D) : Op D → Prop
  | .register basePath _ _ _ => ∀ d, ¬ m basePath d
  | _ => True

/-- The tables and what is mounted after a run. -/
def runMounts (maxFds : ℕ) : State D → Mounts D → List (Op D) → State D × Mounts D
  | s, m, [] => (s, m)
  | s, m, op :: ops => runMounts maxFds (op.run maxFds s).2 (mountsAfter maxFds s m op) ops

/-- All registrations of the run are at distinct prefixes. -/
def DistinctRun (maxFds : ℕ) : State D → Mounts D → List (Op D) → Prop
  | _, _, [] => True
  | s, m, op :: ops =>
    op.Distinct m ∧ DistinctRun maxFds (op.run maxFds s).2 (mountsAfter maxFds s m op) ops

/-! ### The loop over the filesystems -/

lemma Entry.At.eq (h : e.At p) (h' : e.At q) : p = q := h.2.symm.trans h'.2

/-- How the comparison of a prefix is made. -/
lemma under_iff :
    Under p path ↔ path.take p.length = p ∧ (path.length > p.length → path[p.length]? = some '/') := by
  constructor
  · rintro (rfl | ⟨t, rfl⟩)
    · exact ⟨List.take_length, fun h => absurd h (Nat.lt_irrefl _)⟩
    · refine ⟨by simp, fun _ => ?_⟩
      simp
  · rintro ⟨htake, hslash⟩
    have happ : p ++ path.drop p.length = path := by
      rw [← congrArg (· ++ path.drop p.length) htake]
      exact List.take_append_drop ..
    cases hdrop : path.drop p.length with
    | nil =>
      left
      rw [← happ, hdrop, List.append_nil]
    | cons c t =>
      right
      have hlen : path.length > p.length := by
        have := congrArg List.length hdrop
        rw [List.length_drop, List.length_cons] at this
        omega
      have hc := hslash hlen
      rw [← List.head?_drop, hdrop, List.head?_cons, Option.some.injEq] at hc
      refine ⟨t, ?_⟩
      rw [List.append_assoc, List.singleton_append, ← hc, ← hdrop, happ]

/-- A round with a filesystem at the prefix `p`. -/
lemma matchPath_at (h : e.At p) (best : Option (Entry D) × ℤ) :
    matchPath path best (some e) =
      if p = [] ∧ best.1 = none then (some e, best.2)
      else if Under p path ∧ best.2 < p.length then (some e, (p.length : ℤ)) else best := by
  obtain ⟨hlen, rfl⟩ := h
  simp only [matchPath, hlen, List.take_length]
  by_cases hmatch : path.take e.pathPrefix.length = e.pathPrefix
  · have hle : ¬ path.length < e.pathPrefix.length := by
      have := congrArg List.length hmatch
      rw [List.length_take] at this
      omega
    rw [if_neg (not_or.mpr ⟨hle, not_not.mpr hmatch⟩)]
    simp only [List.length_eq_zero_iff]
    by_cases hdef : e.pathPrefix = [] ∧ best.1 = none
    · rw [if_pos hdef, if_pos hdef]
    · rw [if_neg hdef, if_neg hdef]
      simp only [under_iff, hmatch, true_and]
      by_cases hslash : path.length > e.pathPrefix.length ∧ path[e.pathPrefix.length]? ≠ some '/'
      · rw [if_pos hslash, if_neg fun hunder => hslash.2 (hunder.1 hslash.1)]
      · have hok : path.length > e.pathPrefix.length → path[e.pathPrefix.length]? = some '/' :=
          fun hlt => by_contra fun hne => hslash ⟨hlt, hne⟩
        rw [if_neg hslash]
        by_cases hbest : best.2 < e.pathPrefix.length
        · rw [if_pos hbest, if_pos ⟨hok, hbest⟩]
        · rw [if_neg hbest, if_neg fun hunder => hbest hunder.2]
  · have hne : e.pathPrefix ≠ [] := by
      intro hnil
      rw [hnil] at hmatch
      exact hmatch rfl
    have hnot : ¬ Under e.pathPrefix path := fun hunder => hmatch (under_iff.mp hunder).1
    rw [if_pos (.inr hmatch), if_neg fun hdef => hne hdef.1, if_neg fun hunder => hnot hunder.1]

/-- What the loop has found in the first `n` entries. -/
inductive Best (s : State D) (path : List Char) (n : ℕ) : Option (Entry D) × ℤ → Prop where
  | fallback (best : Option (Entry D))
      (hnone : ∀ i < n, ∀ e, s.vfs i = some e → ∀ p, e.At p → p ≠ [] → ¬ Under p path)
      (hdef : ∀ e, best = some e ↔ ∃ i < n, s.vfs i = some e ∧ e.At []) : Best s path n (best, -1)
  | longest (i : ℕ) (e : Entry D) (p : List Char) (hi : i < n) (he : s.vfs i = some e)
      (hat : e.At p) (hne : p ≠ []) (hunder : Under p path)
      (hmax : ∀ j < n, ∀ e', s.vfs j = some e' → ∀ q, e'.At q → q ≠ [] → Under q path →
        q.length ≤ p.length) : Best s path n (some e, p.length)

variable {m : Mounts D} {n : ℕ} {best : Option (Entry D) × ℤ}

/-- The match stays the best one if the next entry has no longer prefix. -/
lemma Best.keep (h : Best s path n best)
    (hn : ∀ e, s.vfs n = some e → ∀ p, e.At p →
      (p = [] → 0 ≤ best.2) ∧ (p ≠ [] → Under p path → (p.length : ℤ) ≤ best.2)) :
    Best s path (n + 1) best := by
  cases h with
  | fallback best hnone hdef =>
    refine .fallback best (fun i hi e he p hat hp hunder => ?_) fun e => (hdef e).trans ⟨?_, ?_⟩
    · rcases Nat.lt_succ_iff_lt_or_eq.mp hi with hi | rfl
      · exact hnone i hi e he p hat hp hunder
      · have hle : (p.length : ℤ) ≤ -1 := (hn e he p hat).2 hp hunder
        omega
    · rintro ⟨i, hi, he⟩
      exact ⟨i, Nat.lt_succ_of_lt hi, he⟩
    · rintro ⟨i, hi, he, hat⟩
      rcases Nat.lt_succ_iff_lt_or_eq.mp hi with hi | rfl
      · exact ⟨i, hi, he, hat⟩
      · have hle : (0 : ℤ) ≤ -1 := (hn e he [] hat).1 rfl
        omega
  | longest i e p hi he hat hne hunder hmax =>
    refine .longest i e p (Nat.lt_succ_of_lt hi) he hat hne hunder fun j hj e' he' q hat' hq hu => ?_
    rcases Nat.lt_succ_iff_lt_or_eq.mp hj with hj | rfl
    · exact hmax j hj e' he' q hat' hq hu
    · exact Int.ofNat_le.mp ((hn e' he' q hat').2 hq hu)

/-- The next entry is a better match. -/
lemma Best.better (h : Best s path n best) (hn : s.vfs n = some e) (hat : e.At p) (hne : p ≠ [])
    (hunder : Under p path) (hlt : best.2 < p.length) :
    Best s path (n + 1) (some e, p.length) := by
  refine .longest n e p n.lt_succ_self hn hat hne hunder fun j hj e' he' q hat' hq hu => ?_
  rcases Nat.lt_succ_iff_lt_or_eq.mp hj with hj | rfl
  · cases h with
    | fallback best hnone hdef => exact absurd hu (hnone j hj e' he' q hat' hq)
    | longest i e₀ p₀ hi he₀ hat₀ hne₀ hunder₀ hmax =>
      have := hmax j hj e' he' q hat' hq hu
      have : (p₀.length : ℤ) < p.length := hlt
      omega
  · rw [hn, Option.some.injEq] at he'
    subst he'
    exact Nat.le_of_eq (congrArg List.length (hat'.eq hat))

/-- The next entry is the default filesystem, and nothing is found yet. -/
lemma Best.default (h : Best s path n best) (hbest : best.1 = none) (hn : s.vfs n = some e)
    (hat : e.At []) : Best s path (n + 1) (some e, best.2) := by
  cases h with
  | fallback best hnone hdef =>
    obtain rfl : best = none := hbest
    refine .fallback _ (fun i hi e' he' q hat' hq => ?_) fun e' => ⟨fun he' => ?_, ?_⟩
    · rcases Nat.lt_succ_iff_lt_or_eq.mp hi with hi | rfl
      · exact hnone i hi e' he' q hat' hq
      · rw [hn, Option.some.injEq] at he'
        subst he'
        exact absurd (hat'.eq hat) hq
    · obtain rfl := Option.some.inj he'
      exact ⟨n, n.lt_succ_self, hn, hat⟩
    · rintro ⟨i, hi, he', hat'⟩
      rcases Nat.lt_succ_iff_lt_or_eq.mp hi with hi | rfl
      · exact absurd ((hdef e').mpr ⟨i, hi, he', hat'⟩) (by simp)
      · exact hn.symm.trans he'
  | longest => exact absurd hbest (by simp)

/-- There is only one default filesystem. -/
lemma Best.nonneg (h : Best s path n best) (hs : Mounted s m) (hbest : best.1 ≠ none)
    (hn : s.vfs n = some e) (hat : e.At []) : 0 ≤ best.2 := by
  cases h with
  | fallback best hnone hdef =>
    obtain ⟨e', he'⟩ := Option.ne_none_iff_exists'.mp hbest
    obtain ⟨i, hi, hvfs, hat'⟩ := (hdef e').mp he'
    exact absurd (hs.distinct i n e' e [] hvfs hn hat' hat) (Nat.ne_of_lt hi)
  | longest i e p => exact Int.natCast_nonneg p.length

/-- What a round does. -/
lemma Best.step (h : Best s path n best) (hs : Mounted s m) :
    Best s path (n + 1) (matchPath path best (s.vfs n)) := by
  cases hn : s.vfs n with
  | none => exact h.keep fun e he => by rw [hn] at he; cases he
  | some e =>
    cases hlen : e.pathPrefixLen with
    | none =>
      have hsame : matchPath path best (some e) = best := by simp only [matchPath, hlen]
      rw [hsame]
      refine h.keep fun e' he' p hat => ?_
      rw [hn, Option.some.injEq] at he'
      subst he'
      exact absurd (hat.1.symm.trans hlen) (by simp)
    | some len =>
      have hat := hs.prefixLen n e len hn hlen
      rw [matchPath_at hat]
      by_cases hdef : e.pathPrefix = [] ∧ best.1 = none
      · rw [if_pos hdef]
        exact h.default hdef.2 hn (hdef.1 ▸ hat)
      · rw [if_neg hdef]
        have hnonneg : e.pathPrefix = [] → 0 ≤ best.2 := fun hnil =>
          h.nonneg hs (fun hbest => hdef ⟨hnil, hbest⟩) hn (hnil ▸ hat)
        by_cases hbetter : Under e.pathPrefix path ∧ best.2 < e.pathPrefix.length
        · rw [if_pos hbetter]
          refine h.better hn hat (fun hnil => ?_) hbetter.1 hbetter.2
          have hlt := hbetter.2
          rw [hnil] at hlt
          exact absurd (hnonneg hnil) (Int.not_le.mpr hlt)
        · rw [if_neg hbetter]
          refine h.keep fun e' he' p hat' => ?_
          rw [hn, Option.some.injEq] at he'
          subst he'
          obtain rfl := hat.eq hat'
          exact ⟨hnonneg, fun _ hunder => Int.not_lt.mp fun hlt => hbetter ⟨hunder, hlt⟩⟩

lemma best_foldl (hs : Mounted s m) (path : List Char) (n : ℕ) :
    Best s path n (((List.range n).map s.vfs).foldl (matchPath path) (none, -1)) := by
  induction n with
  | zero => exact .fallback none (fun i hi => absurd hi i.not_lt_zero) fun e => by simp
  | succ n ih =>
    rw [List.range_succ, List.map_append, List.foldl_append]
    exact ih.step hs

/-- What is found is recognised. -/
lemma Best.at_begin (h : Best s path n best) (hbest : best.1 = some e) : e.At e.pathPrefix := by
  cases h with
  | fallback best hnone hdef =>
    obtain ⟨i, -, -, hat⟩ := (hdef e).mp hbest
    exact hat.2 ▸ hat
  | longest i e' p hi he hat =>
    obtain rfl := Option.some.inj hbest
    exact hat.2 ▸ hat

/-- Which filesystem is found. -/
theorem getVfsForPath_iff (hs : Mounted s m) (path p : List Char) (d : D) :
    (getVfsForPath s path).map (fun e => (e.pathPrefix, e.vfs)) = some (p, d) ↔
      Resolves m path p d := by
  have hbest := best_foldl hs path s.vfsCount
  have hslot : ∀ i e, s.vfs i = some e → i < s.vfsCount := fun i e he =>
    Nat.lt_of_not_le fun hle => by rw [hs.beyond i hle] at he; cases he
  rw [getVfsForPath]
  generalize ((List.range s.vfsCount).map s.vfs).foldl (matchPath path) (none, -1) = best at hbest
  simp only [Option.map_eq_some_iff, Prod.mk.injEq]
  cases hbest with
  | fallback best hnone hdef =>
    have hnone' : ∀ q d', q ≠ [] → m q d' → ¬ Under q path := by
      intro q d' hq hm
      obtain ⟨i, e, he, hat, -⟩ := (hs.mounts q d').mp hm
      exact hnone i (hslot i e he) e he q hat hq
    constructor
    · rintro ⟨e, he, rfl, rfl⟩
      obtain ⟨i, -, hi, hat⟩ := (hdef e).mp he
      exact ⟨(hs.mounts _ _).mpr ⟨i, e, hi, hat.2 ▸ hat, rfl⟩, .inr ⟨hat.2, hnone'⟩⟩
    · rintro ⟨hm, ⟨hp, hunder, -⟩ | ⟨rfl, -⟩⟩
      · exact absurd hunder (hnone' p d hp hm)
      · obtain ⟨i, e, he, hat, rfl⟩ := (hs.mounts [] d).mp hm
        exact ⟨e, (hdef e).mpr ⟨i, hslot i e he, he, hat⟩, hat.2, rfl⟩
  | longest i e p₀ hi he hat hne hunder hmax =>
    have hmax' : ∀ q d', q ≠ [] → m q d' → Under q path → q.length ≤ p₀.length := by
      intro q d' hq hm hu
      obtain ⟨j, e', he', hat', -⟩ := (hs.mounts q d').mp hm
      exact hmax j (hslot j e' he') e' he' q hat' hq hu
    have hm₀ : m p₀ e.vfs := (hs.mounts _ _).mpr ⟨i, e, he, hat, rfl⟩
    constructor
    · rintro ⟨e', he', rfl, rfl⟩
      obtain rfl := Option.some.inj he'
      rw [hat.2]
      exact ⟨hm₀, .inl ⟨hne, hunder, hmax'⟩⟩
    · rintro ⟨hm, ⟨hp, hunder', hle⟩ | ⟨-, hnot⟩⟩
      · -- prefixes of one path that are equally long are equal
        have hlen : p.length = p₀.length :=
          Nat.le_antisymm (hmax' p d hp hm hunder') (hle p₀ e.vfs hne hm₀ hunder)
        have hp : p = p₀ := by
          rw [← (under_iff.mp hunder').1, ← (under_iff.mp hunder).1, hlen]
        subst hp
        obtain ⟨j, e', he', hat', rfl⟩ := (hs.mounts p d).mp hm
        obtain rfl := hs.distinct i j e e' p he he' hat hat'
        obtain rfl := Option.some.inj (he.symm.trans he')
        exact ⟨e, rfl, hat.2, rfl⟩
      · exact absurd hunder (hnot p₀ e.vfs hne hm₀)

/-! ### The rest of the path -/

lemma components_append_slash (p : List Char) : components (p ++ ['/']) = components p := by
  rw [components, List.splitOnP_append_cons p [] (by rfl), List.splitOnP_nil, List.filter_append]
  exact List.append_nil _

/-- Prefix and translated path denote the path. -/
lemma translatePath_eq (hat : e.At p) (hunder : p = [] ∨ Under p path) :
    ∃ t, translatePath e path = some t ∧ (path = p → t = ['/']) ∧ (path ≠ p → p ++ t = path) ∧
      components (p ++ t) = components path := by
  have htake : path.take p.length = p := by
    rcases hunder with rfl | hunder
    · rfl
    · exact (under_iff.mp hunder).1
  have happ : p ++ path.drop p.length = path := by
    rw [← congrArg (· ++ path.drop p.length) htake]
    exact List.take_append_drop ..
  have hlen : path.length = p.length ↔ path = p := by
    refine ⟨fun h => ?_, congrArg List.length⟩
    rw [← htake, ← h, List.take_length]
  rw [translatePath, hat.1, hat.2]
  simp only [List.take_length, htake, if_true]
  by_cases heq : path = p
  · rw [if_pos (hlen.mpr heq)]
    refine ⟨_, rfl, fun _ => rfl, fun h => absurd heq h, ?_⟩
    rw [components_append_slash, heq]
  · rw [if_neg fun h => heq (hlen.mp h)]
    exact ⟨_, rfl, fun h => absurd h heq, fun _ => happ, congrArg components happ⟩

/-! ### Runs -/

lemma mounted_init : Mounted (State.init : State D) fun _ _ => False where
  count := Nat.zero_le _
  beyond := fun _ _ => rfl
  prefixLen := fun _ _ _ h => by cases h
  distinct := fun _ _ _ _ _ h => by cases h
  mounts := fun p d => ⟨False.elim, fun ⟨_, _, h, _⟩ => by cases h⟩

lemma Mounted.congr (h : Mounted s m) (hvfs : s'.vfs = s.vfs) (hcount : s'.vfsCount = s.vfsCount) :
    Mounted s' m := by
  obtain ⟨h₁, h₂, h₃, h₄, h₅⟩ := h
  simp only [MountedAt, ← hvfs, ← hcount] at h₁ h₂ h₃ h₄ h₅
  exact ⟨h₁, h₂, h₃, h₄, h₅⟩

lemma Mounted.of_iff {m' : Mounts D} (h : Mounted s m) (hm : ∀ p d, m' p d ↔ m p d) :
    Mounted s m' :=
  { h with mounts := fun p d => (hm p d).trans (h.mounts p d) }

/-- A new entry is recognised at its prefix if it has one, where nothing is mounted. -/
lemma Mounted.add (h : Mounted s m) {i : ℕ} {len : Option ℕ} (hfree : s.vfs i = none)
    (hvfs : s'.vfs = Function.update s.vfs i (some ⟨d, p, len, i⟩)) (hi : i < s'.vfsCount)
    (hle : s.vfsCount ≤ s'.vfsCount) (hmax : s'.vfsCount ≤ vfsMaxCount)
    (hlen : len = none ∨ (len = some p.length ∧ ∀ d, ¬ m p d)) :
    Mounted s' fun q d' => m q d' ∨ (len.isSome = true ∧ q = p ∧ d' = d) := by
  have hslot : ∀ j e, s'.vfs j = some e → (j = i ∧ e = ⟨d, p, len, i⟩) ∨ s.vfs j = some e := by
    intro j e he
    rw [hvfs] at he
    by_cases hj : j = i
    · rw [hj, Function.update_self] at he
      exact .inl ⟨hj, (Option.some.inj he).symm⟩
    · rw [Function.update_of_ne hj] at he
      exact .inr he
  have hnew : ∀ q, Entry.At (⟨d, p, len, i⟩ : Entry D) q → len.isSome = true ∧ q = p ∧
      ∀ d, ¬ m p d := by
    rintro q ⟨hlen', rfl⟩
    rcases hlen with rfl | ⟨rfl, hm⟩
    · cases hlen'
    · exact ⟨rfl, rfl, hm⟩
  -- what stands in another slot is mounted at another prefix
  have hother : ∀ j e q, s.vfs j = some e → e.At q →
      ¬ Entry.At (⟨d, p, len, i⟩ : Entry D) q := by
    intro j e q he hat hat'
    obtain ⟨-, rfl, hm⟩ := hnew q hat'
    exact hm e.vfs ((h.mounts _ _).mpr ⟨j, e, he, hat, rfl⟩)
  refine ⟨hmax, fun j hj => ?_, fun j e n he hn => ?_, fun j k e e' q he he' hat hat' => ?_,
    fun q d' => ⟨?_, ?_⟩⟩
  · rw [hvfs, Function.update_of_ne (Nat.ne_of_gt (Nat.lt_of_lt_of_le hi hj))]
    exact h.beyond j (Nat.le_trans hle hj)
  · rcases hslot j e he with ⟨-, rfl⟩ | he
    · rcases hlen with rfl | ⟨rfl, -⟩
      · cases hn
      · exact ⟨rfl, rfl⟩
    · exact h.prefixLen j e n he hn
  · rcases hslot j e he with ⟨rfl, rfl⟩ | he
    · rcases hslot k e' he' with ⟨rfl, -⟩ | he'
      · rfl
      · exact absurd hat (hother k e' q he' hat')
    · rcases hslot k e' he' with ⟨rfl, rfl⟩ | he'
      · exact absurd hat' (hother j e q he hat)
      · exact h.distinct j k e e' q he he' hat hat'
  · rintro (hm | ⟨hsome, rfl, rfl⟩)
    · obtain ⟨j, e, he, hat, hd⟩ := (h.mounts q d').mp hm
      have hj : j ≠ i := by
        rintro rfl
        rw [hfree] at he
        cases he
      exact ⟨j, e, by rw [hvfs, Function.update_of_ne hj, he], hat, hd⟩
    · refine ⟨i, _, by rw [hvfs, Function.update_self], ⟨?_, rfl⟩, rfl⟩
      rcases hlen with rfl | ⟨hlen, -⟩
      · cases hsome
      · exact hlen
  · rintro ⟨j, e, he, hat, rfl⟩
    rcases hslot j e he with ⟨-, rfl⟩ | he
    · exact .inr ⟨(hnew q hat).1, (hnew q hat).2.1, rfl⟩
    · exact .inl ((h.mounts q _).mpr ⟨j, e, he, hat, rfl⟩)

/-- What stands in the other slots stays when an entry is taken away. -/
lemma Mounted.remove (h : Mounted s m) {i : ℕ} (hvfs : s'.vfs = Function.update s.vfs i none)
    (hcount : s'.vfsCount = s.vfsCount) : Mounted s' fun p d => m p d ∧ MountedAt s' p d := by
  have hold : ∀ j e, s'.vfs j = some e → s.vfs j = some e := by
    intro j e he
    rw [hvfs] at he
    by_cases hj : j = i
    · rw [hj, Function.update_self] at he
      cases he
    · rwa [Function.update_of_ne hj] at he
  refine ⟨hcount ▸ h.count, fun j hj => ?_, fun j e n he => h.prefixLen j e n (hold j e he),
    fun j k e e' q he he' => h.distinct j k e e' q (hold j e he) (hold k e' he'),
    fun p d => ⟨And.right, fun hmounted => ⟨?_, hmounted⟩⟩⟩
  · rw [hvfs]
    by_cases hji : j = i
    · rw [hji, Function.update_self]
    · rw [Function.update_of_ne hji]
      exact h.beyond j (hcount ▸ hj)
  · obtain ⟨j, e, he, hat, hd⟩ := hmounted
    exact (h.mounts p d).mpr ⟨j, e, hold j e he, hat, hd⟩

lemma Mounted.registerCommon (h : Mounted s m) {len : Option ℕ}
    (hlen : len = none ∨ (len = some p.length ∧ ∀ d, ¬ m p d)) (vfs : D) (mem : Bool) :
    espVfsRegisterCommon s p len vfs mem = (.error .noMem, s) ∨
    ∃ i s', espVfsRegisterCommon s p len vfs mem = (.ok i, s') ∧
      Mounted s' fun q d' => m q d' ∨ (len.isSome = true ∧ q = p ∧ d' = vfs) := by
  rcases espVfsRegisterCommon_cases h.count h.beyond p len vfs mem with heq |
    ⟨i, e, count, hfree, rfl, hi, hle, hmax, heq⟩
  · exact .inl heq
  · exact .inr ⟨i, _, heq, h.add hfree rfl hi hle hmax hlen⟩

/-- Claiming a range takes away one entry at most. -/
lemma claimRange_vfs {index minFd left fd : ℕ} : ∀ {s : State D},
    (claimRange index minFd left fd s).2.vfsCount = s.vfsCount ∧
    ((claimRange index minFd left fd s).2.vfs = s.vfs ∨
      ∃ i, (claimRange index minFd left fd s).2.vfs = Function.update s.vfs i none) := by
  induction left generalizing fd with
  | zero => exact ⟨rfl, .inl rfl⟩
  | succ left ih =>
    intro s
    rw [claimRange]
    split
    · split
      · exact ⟨rfl, .inr ⟨fd, rfl⟩⟩
      · exact ⟨rfl, .inl rfl⟩
    · exact ih

/-- The other calls leave the filesystems as they are. -/
lemma run_vfs {op : Op D} (hop : match op with
      | .registerFd .. | .unregisterFd .. | .openPath .. | .closeFd .. => True
      | _ => False) :
    (op.run maxFds s).2.vfs = s.vfs ∧ (op.run maxFds s).2.vfsCount = s.vfsCount := by
  cases op with
  | registerFd vfsId fdPtr =>
    simp only [Op.run, espVfsRegisterFd]
    split
    · exact ⟨rfl, rfl⟩
    · split <;> exact ⟨rfl, rfl⟩
  | unregisterFd vfsId fd =>
    simp only [Op.run, espVfsUnregisterFd]
    split
    · exact ⟨rfl, rfl⟩
    · split <;> exact ⟨rfl, rfl⟩
  | openPath path driver =>
    rcases espVfsOpen_cases maxFds s path driver with ⟨-, heq⟩ | ⟨_, _, _, -, -, -, -, heq⟩
    · simp only [Op.run, heq, and_self]
    · simp only [Op.run, heq]
      exact ⟨rfl, rfl⟩
  | closeFd fd driver =>
    rcases espVfsClose_cases maxFds s fd driver with ⟨-, heq⟩ | ⟨-, -, ⟨-, heq⟩ | ⟨-, heq⟩⟩
    · simp only [Op.run, heq, and_self]
    · simp only [Op.run, heq, and_self]
    · simp only [Op.run, heq]
      exact ⟨rfl, rfl⟩
  | _ => exact hop.elim

lemma Mounted.unregister (h : Mounted s m) (basePath : List Char) :
    Mounted ((Op.unregister basePath).run maxFds s).2
      (mountsAfter maxFds s m (.unregister basePath)) := by
  have hat : ∀ {i e}, s.vfs i = some e → (e.isAt basePath = true ↔ e.At basePath) := by
    intro i e he
    rw [Entry.isAt, Bool.and_eq_true, beq_iff_eq, beq_iff_eq]
    refine and_congr_right fun hlen => ?_
    have hbegin := (h.prefixLen i e _ he hlen).1
    rw [hlen, Option.some.injEq] at hbegin
    rw [hbegin, List.take_length]
    exact eq_comm
  simp only [Op.run, espVfsUnregister, mountsAfter]
  cases hfind : (List.range s.vfsCount).find? fun i => (s.vfs i).any (Entry.isAt basePath) with
  | none =>
    exact h.of_iff fun p d => by simp [Except.toOption]
  | some i =>
    have hi := List.find?_some hfind
    rw [Option.any_eq_true] at hi
    obtain ⟨e, he, hise⟩ := hi
    have hate := (hat he).mp hise
    refine Mounted.of_iff (h.remove (i := i) rfl rfl) fun p d => and_congr_right fun hm => ?_
    simp only [Except.toOption, Option.isNone_some, Bool.false_eq_true, false_or]
    constructor
    · -- what is mounted elsewhere stands in another slot
      intro hne
      obtain ⟨j, e', he', hat', hd⟩ := (h.mounts p d).mp hm
      have hj : j ≠ i := by
        rintro rfl
        rw [he, Option.some.injEq] at he'
        subst he'
        exact hne (hat'.eq hate)
      exact ⟨j, e', (Function.update_of_ne hj ..).trans he', hat', hd⟩
    · rintro ⟨j, e', he', hat', -⟩ rfl
      have hj : j ≠ i := by
        rintro rfl
        dsimp only at he'
        rw [Function.update_self] at he'
        cases he'
      exact hj (h.distinct j i e' e p ((Function.update_of_ne hj ..).symm.trans he') he hat' hate)

lemma Mounted.step (h : Mounted s m) {op : Op D} (hop : op.Distinct m) :
    Mounted (op.run maxFds s).2 (mountsAfter maxFds s m op) := by
  cases op with
  | register basePath before vfs mem =>
    simp only [mountsAfter, Op.run, espVfsRegister]
    split
    · rcases h.registerCommon (.inr ⟨rfl, hop⟩) vfs mem with heq | ⟨i, s', heq, hs'⟩
      · rw [heq]
        exact h.of_iff fun p d => by simp [Except.toOption]
      · rw [heq]
        exact hs'.of_iff fun p d => by simp [Except.toOption]
    · exact h.of_iff fun p d => by simp [Except.toOption]
  | registerWithId vfs mem idPtr =>
    simp only [mountsAfter, Op.run, espVfsRegisterWithId]
    split
    · rcases h.registerCommon (p := []) (.inl rfl) vfs mem with heq | ⟨i, s', heq, hs'⟩
      · rw [heq]
        exact h
      · rw [heq]
        exact hs'.of_iff fun p d => by simp
    · exact h
  | registerFdRange vfs mem minFd maxFd =>
    have hkept : ∀ {s'}, Mounted s' m → Mounted s' fun p d => m p d ∧ MountedAt s' p d :=
      fun hs' => hs'.of_iff fun p d => and_iff_left_of_imp (hs'.mounts p d).mp
    simp only [mountsAfter, Op.run, espVfsRegisterFdRange]
    split
    · exact hkept h
    · rcases h.registerCommon (p := []) (.inl rfl) vfs mem with heq | ⟨i, s', heq, hs'⟩
      · simp only [heq]
        exact hkept h
      · simp only [heq]
        have hs' : Mounted s' m := hs'.of_iff fun p d => by simp
        obtain ⟨hcount, hvfs | ⟨fd, hvfs⟩⟩ := @claimRange_vfs D i minFd.toNat
          (maxFd.toNat - minFd.toNat) minFd.toNat s'
        · exact hkept (hs'.congr hvfs hcount)
        · exact hs'.remove hvfs hcount
  | unregister basePath => exact h.unregister basePath
  | registerFd vfsId fdPtr =>
    exact h.congr (run_vfs trivial).1 (run_vfs trivial).2
  | unregisterFd vfsId fd =>
    exact h.congr (run_vfs trivial).1 (run_vfs trivial).2
  | openPath path driver =>
    exact h.congr (run_vfs trivial).1 (run_vfs trivial).2
  | closeFd fd driver =>
    exact h.congr (run_vfs trivial).1 (run_vfs trivial).2

lemma Mounted.run {ops : List (Op D)} (h : Mounted s m) (hops : DistinctRun maxFds s m ops) :
    Mounted (runMounts maxFds s m ops).1 (runMounts maxFds s m ops).2 := by
  induction ops generalizing s m with
  | nil => exact h
  | cons op ops ih => exact ih (h.step hops.1) hops.2

/-- After every run that registers at distinct prefixes, a path is resolved by the filesystem with
the longest prefix or by the default one, and prefix and translated path denote the path. -/
theorem paths_resolve {ops : List (Op D)} (hops : DistinctRun maxFds .init (fun _ _ => False) ops)
    (path : List Char) :
    (∀ p d, (getVfsForPath (runMounts maxFds .init (fun _ _ => False) ops).1 path).map
        (fun e => (e.pathPrefix, e.vfs)) = some (p, d) ↔
      Resolves (runMounts maxFds .init (fun _ _ => False) ops).2 path p d) ∧
    ∀ e, getVfsForPath (runMounts maxFds .init (fun _ _ => False) ops).1 path = some e →
      ∃ t, translatePath e path = some t ∧ (path = e.pathPrefix → t = ['/']) ∧
        (path ≠ e.pathPrefix → e.pathPrefix ++ t = path) ∧
        components (e.pathPrefix ++ t) = components path := by
  have hs := mounted_init.run hops
  refine ⟨getVfsForPath_iff hs path, fun e he => ?_⟩
  have hres := (getVfsForPath_iff hs path e.pathPrefix e.vfs).mp (by rw [he]; rfl)
  refine translatePath_eq ((best_foldl hs path _).at_begin he) ?_
  rcases hres.2 with ⟨-, hunder, -⟩ | ⟨hnil, -⟩
  · exact .inr hunder
  · exact .inl hnil

/-- A filesystem below another one. -/
def nested : List (Op ℕ) :=
  [.register ['/', 'f'] 'x' 0 true, .register ['/', 'f', '/', 'b'] 'x' 1 true]

theorem paths_resolve_nested :
    (∀ p d, (getVfsForPath (runMounts 8 .init (fun _ _ => False) nested).1
        ['/', 'f', '/', 'b', '/', 'c']).map (fun e => (e.pathPrefix, e.vfs)) = some (p, d) ↔
      Resolves (runMounts 8 .init (fun _ _ => False) nested).2
        ['/', 'f', '/', 'b', '/', 'c'] p d) ∧
    ∀ e, getVfsForPath (runMounts 8 .init (fun _ _ => False) nested).1
        ['/', 'f', '/', 'b', '/', 'c'] = some e →
      ∃ t, translatePath e ['/', 'f', '/', 'b', '/', 'c'] = some t ∧
        (['/', 'f', '/', 'b', '/', 'c'] = e.pathPrefix → t = ['/']) ∧
        (['/', 'f', '/', 'b', '/', 'c'] ≠ e.pathPrefix →
          e.pathPrefix ++ t = ['/', 'f', '/', 'b', '/', 'c']) ∧
        components (e.pathPrefix ++ t) = components ['/', 'f', '/', 'b', '/', 'c'] := by
  have hdist : DistinctRun 8 .init (fun _ _ => False) nested := by
    refine ⟨fun _ => id, fun d => ?_, trivial⟩
    rintro (h | ⟨-, h, -⟩)
    · exact h
    · exact absurd h (by decide)
  exact paths_resolve hdist _

/-- The nested filesystem takes what lies below it. -/
example : (getVfsForPath (runMounts 8 .init (fun _ _ => False) nested).1
    ['/', 'f', '/', 'b', '/', 'c']).map Entry.vfs = some 1 := by decide

end EspIdf.Vfs
