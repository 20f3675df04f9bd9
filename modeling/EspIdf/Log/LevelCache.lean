/-
# The log levels and their cache

The levels that are set for tags stand in a list, and the levels of the tags that have been used in
a cache of pointers.  The cache is a min-heap, ordered by the generation of its entries: the oldest
one makes room when it is full.  Two pointers may hold the same tag.
-/
import EspIdf.Lib.MinHeap

namespace EspIdf.Log

open Lib

/-- `esp_log_level_t`. -/
inductive EspLogLevel where
  | none
  | error
  | warn
  | info
  | debug
  | verbose
deriving DecidableEq

/-- Their values. -/
def EspLogLevel.toNat : EspLogLevel → ℕ
  | .none => 0
  | .error => 1
  | .warn => 2
  | .info => 3
  | .debug => 4
  | .verbose => 5

/-- `cached_tag_entry_t`; the tag is a pointer. -/
structure CachedTagEntry where
  tag : ℕ
  level : EspLogLevel
  generation : ℕ
deriving DecidableEq

/-- The variables of the library.  Of `cache` the first `entryCount` entries are used. -/
structure LogState where
  defaultLevel : EspLogLevel
  tags : List (String × EspLogLevel)
  cache : ℕ → CachedTagEntry
  maxGeneration : ℕ
  entryCount : ℕ

/-- `TAG_CACHE_SIZE`. -/
def tagCacheSize : ℕ := 31

/-- How the variables are initialised. -/
def LogState.init : LogState := ⟨.verbose, [], fun _ => ⟨0, .none, 0⟩, 0, 0⟩

/-! ### The cache -/

/-- `heap_swap`. -/
def heapSwap (cache : ℕ → CachedTagEntry) (i j : ℕ) : ℕ → CachedTagEntry :=
  Function.update (Function.update cache i (cache j)) j (cache i)

/-- `heap_bubble_down`. -/
def heapBubbleDown (cache : ℕ → CachedTagEntry) (index : ℕ) : ℕ → CachedTagEntry :=
  if index < tagCacheSize / 2 then
    let next := if (cache (index * 2 + 1)).generation < (cache (index * 2 + 1 + 1)).generation
      then index * 2 + 1 else index * 2 + 1 + 1
    heapBubbleDown (heapSwap cache index next) next
  else cache
termination_by tagCacheSize - index
decreasing_by
  simp only [tagCacheSize] at *
  split <;> omega

/-- The loops over the cache, with `n` rounds left: the index of the first entry for which `p`
holds, or the number of entries.  At each one the order of the heap is asserted. -/
def findEntry (cache : ℕ → CachedTagEntry) (p : CachedTagEntry → Bool) : ℕ → ℕ → Option ℕ
  | 0, i => some i
  | n + 1, i =>
    if i = 0 ∨ (cache ((i - 1) / 2)).generation < (cache i).generation then
      if p (cache i) then some i else findEntry cache p n (i + 1)
    else none

/-- `get_cached_log_level`. -/
def getCachedLogLevel (s : LogState) (tag : ℕ) : Option (Option EspLogLevel × LogState) := do
  let i ← findEntry s.cache (fun e => e.tag = tag) s.entryCount 0
  if i = s.entryCount then some (none, s)
  else
    let level := (s.cache i).level
    if s.entryCount = tagCacheSize then
      let entry := { s.cache i with generation := s.maxGeneration % 2 ^ 29 }
      some (some level, { s with
        cache := heapBubbleDown (Function.update s.cache i entry) i
        maxGeneration := (s.maxGeneration + 1) % 2 ^ 32 })
    else some (some level, s)

/-- `add_to_cache`. -/
def addToCache (s : LogState) (tag : ℕ) (level : EspLogLevel) : LogState :=
  let entry : CachedTagEntry := ⟨tag, level, s.maxGeneration % 2 ^ 29⟩
  if s.entryCount < tagCacheSize then
    { s with
      cache := Function.update s.cache s.entryCount entry
      maxGeneration := (s.maxGeneration + 1) % 2 ^ 32
      entryCount := s.entryCount + 1 }
  else
    { s with
      cache := heapBubbleDown (Function.update s.cache 0 entry) 0
      maxGeneration := (s.maxGeneration + 1) % 2 ^ 32 }

/-! ### The levels -/

/-- `get_uncached_log_level`, for the string of the tag. -/
def getUncachedLogLevel (s : LogState) (tag : String) : Option EspLogLevel :=
  (s.tags.find? fun e => tag = e.1).map Prod.snd

/-- The search for an existing tag, whose level is updated. -/
def updateTag (tag : String) (level : EspLogLevel) :
    List (String × EspLogLevel) → Option (List (String × EspLogLevel))
  | [] => none
  | e :: tags =>
    if e.1 = tag then some ((e.1, level) :: tags) else (updateTag tag level tags).map (e :: ·)

/-- `clear_log_level_list`. -/
def clearLogLevelList (s : LogState) : LogState :=
  { s with tags := [], entryCount := 0, maxGeneration := 0 }

/-- `esp_log_level_set`; the string that a pointer holds is `str` of it. -/
def espLogLevelSet (str : ℕ → String) (s : LogState) (tag : ℕ) (level : EspLogLevel) :
    Option LogState :=
  if str tag = "*" then some (clearLogLevelList { s with defaultLevel := level })
  else do
    let s := { s with
      tags := (updateTag (str tag) level s.tags).getD ((str tag, level) :: s.tags) }
    let i ← findEntry s.cache (fun e => str e.tag = str tag) s.entryCount 0
    if i = s.entryCount then some s
    else some { s with cache := Function.update s.cache i { s.cache i with level := level } }

/-- `should_output`. -/
def shouldOutput (levelForMessage levelForTag : EspLogLevel) : Bool :=
  levelForMessage.toNat ≤ levelForTag.toNat

/-- `esp_log_writev`, and whether it prints. -/
def espLogWrite (str : ℕ → String) (s : LogState) (level : EspLogLevel) (tag : ℕ) :
    Option (LogState × Bool) := do
  let (cached, s) ← getCachedLogLevel s tag
  match cached with
  | some levelForTag => some (s, shouldOutput level levelForTag)
  | none =>
    let levelForTag := (getUncachedLogLevel s (str tag)).getD s.defaultLevel
    some (addToCache s tag levelForTag, shouldOutput level levelForTag)

/-! ### Runs -/

inductive LogOp where
  | levelSet (tag : ℕ) (level : EspLogLevel)
  | write (level : EspLogLevel) (tag : ℕ)
deriving DecidableEq

/-- One call; an assertion that fires is `none`. -/
def step (str : ℕ → String) (s : LogState) : LogOp → Option LogState
  | .levelSet tag level => espLogLevelSet str s tag level
  | .write level tag => (espLogWrite str s level tag).map Prod.fst

/-- The calls of a history, the last one first. -/
def run (str : ℕ → String) : List LogOp → Option LogState
  | [] => some .init
  | op :: earlier => (run str earlier).bind fun s => step str s op

/-- The level that is configured for a tag: the one of the latest call that sets it, or that sets
all of them. -/
def configured (str : ℕ → String) : List LogOp → String → EspLogLevel
  | [], _ => .verbose
  | .levelSet tag level :: earlier, t =>
    if str tag = "*" ∨ str tag = t then level else configured str earlier t
  | .write _ _ :: earlier, t => configured str earlier t

variable {str : ℕ → String} {s : LogState} {tag i n : ℕ} {level : EspLogLevel}
  {cache : ℕ → CachedTagEntry}

/-! ### What the loops do -/

lemma findEntry_spec (h : HeapOrder CachedTagEntry.generation n cache) (p : CachedTagEntry → Bool)
    {m : ℕ} (hm : i + m = n) :
    ∃ j, findEntry cache p m i = some j ∧ i ≤ j ∧ j ≤ n ∧ (∀ k, i ≤ k → k < j → ¬ p (cache k)) ∧
      (j < n → p (cache j)) := by
  induction m generalizing i with
  | zero =>
    exact ⟨i, rfl, le_rfl, by omega, fun k hge hlt => absurd hge (by omega), fun h => by omega⟩
  | succ m ih =>
    have hassert : i = 0 ∨ (cache ((i - 1) / 2)).generation < (cache i).generation := by
      rcases Nat.eq_zero_or_pos i with hzero | hpos
      · exact .inl hzero
      · exact .inr (h i hpos (by omega))
    rw [findEntry, if_pos hassert]
    split
    · next hp =>
      exact ⟨i, rfl, le_rfl, by omega, fun k hge hlt => absurd hge (by omega), fun _ => hp⟩
    · next hp =>
      obtain ⟨j, hj, hge, hle, hnone, hfound⟩ := ih (i := i + 1) (by omega)
      refine ⟨j, hj, by omega, hle, fun k hik hkj => ?_, hfound⟩
      rcases Nat.eq_or_lt_of_le hik with rfl | hlt
      · exact hp
      · exact hnone k hlt hkj

lemma heapSwap_eq (cache : ℕ → CachedTagEntry) (i j : ℕ) :
    heapSwap cache i j = cache ∘ Equiv.swap i j := by
  funext k
  rw [heapSwap, Function.comp_apply, Equiv.swap_apply_def]
  by_cases hj : k = j
  · rw [hj, Function.update_self, if_pos rfl]
    split_ifs with h
    · rw [h]
    · rfl
  · rw [Function.update_of_ne hj, if_neg hj]
    split_ifs with h
    · rw [h, Function.update_self]
    · rw [Function.update_of_ne h]

/-- The heap is in order again, and the entries are still the same. -/
lemma heapBubbleDown_spec (h : Sinking CachedTagEntry.generation tagCacheSize cache i) :
    HeapOrder CachedTagEntry.generation tagCacheSize (heapBubbleDown cache i) ∧
      ∃ σ : Equiv.Perm ℕ, (∀ j, σ j < tagCacheSize ↔ j < tagCacheSize) ∧
        heapBubbleDown cache i = cache ∘ σ := by
  induction cache, i using heapBubbleDown.induct with
  | case1 cache i hlt next ih =>
    have hround : heapBubbleDown cache i = heapBubbleDown (cache ∘ Equiv.swap i next) next := by
      rw [heapBubbleDown, if_pos hlt, ← heapSwap_eq]
      rfl
    simp only [tagCacheSize] at hlt
    have hnext : next = i * 2 + 1 ∨ next = i * 2 + 1 + 1 := by
      simp only [next]
      split
      · exact .inl rfl
      · exact .inr rfl
    have hsmall : next < tagCacheSize := by
      rw [tagCacheSize]
      omega
    -- the smaller one of the two children comes up
    have hmin : ∀ j, 0 < j → j < tagCacheSize → (j - 1) / 2 = i →
        (cache next).generation ≤ (cache j).generation := by
      intro j hpos hj hparent
      have hchild : j = i * 2 + 1 ∨ j = i * 2 + 1 + 1 := by omega
      simp only [next]
      split
      · next hless =>
        rcases hchild with rfl | rfl
        · exact le_rfl
        · exact hless.le
      · next hless =>
        rcases hchild with rfl | rfl
        · exact Nat.not_lt.mp hless
        · exact le_rfl
    rw [heapSwap_eq] at ih
    obtain ⟨horder, σ, hσ, heq⟩ := ih (h.swap (by omega) hsmall (by omega) hmin)
    rw [hround]
    refine ⟨horder, σ.trans (Equiv.swap i next), fun j => ?_, heq⟩
    rw [Equiv.trans_apply, swap_lt_iff (by rw [tagCacheSize]; omega) hsmall, hσ]
  | case2 cache i hlt =>
    rw [heapBubbleDown, if_neg hlt]
    refine ⟨h.leaf ?_, Equiv.refl ℕ, fun j => Iff.rfl, rfl⟩
    simp only [tagCacheSize] at hlt ⊢
    omega

/-! ### What the calls keep -/

/-- The cache is a heap, and no two of its entries are for the same pointer. -/
structure CacheOk (s : LogState) : Prop where
  count_le : s.entryCount ≤ tagCacheSize
  order : HeapOrder CachedTagEntry.generation s.entryCount s.cache
  distinct : DistinctKeys CachedTagEntry.generation s.entryCount s.cache
  tags : DistinctKeys CachedTagEntry.tag s.entryCount s.cache
  lt_max : ∀ j < s.entryCount, (s.cache j).generation < s.maxGeneration

/-- An entry that is cached. -/
def LogState.Cached (s : LogState) (e : CachedTagEntry) : Prop :=
  ∃ j < s.entryCount, s.cache j = e

/-- A full cache after an entry in it has been replaced by one of the next generation. -/
lemma CacheOk.replace (h : CacheOk s) (hfull : s.entryCount = tagCacheSize) (hi : i < tagCacheSize)
    {e : CachedTagEntry} (he : e.generation = s.maxGeneration)
    (htag : ∀ j < tagCacheSize, j ≠ i → (s.cache j).tag ≠ e.tag) :
    CacheOk { s with
        cache := heapBubbleDown (Function.update s.cache i e) i
        maxGeneration := s.maxGeneration + 1 } ∧
      ∀ e', (∃ j < tagCacheSize, heapBubbleDown (Function.update s.cache i e) i j = e') ↔
        e' = e ∨ ∃ j < tagCacheSize, j ≠ i ∧ s.cache j = e' := by
  obtain ⟨-, horder, hdistinct, htags, hmax⟩ := h
  rw [hfull] at horder hdistinct htags hmax
  have hlast : ∀ j < tagCacheSize, (s.cache j).generation < e.generation := fun j hj => by
    rw [he]
    exact hmax j hj
  have hsink := horder.sinking hdistinct hi hlast
  obtain ⟨hheap, σ, hσ, heq⟩ := heapBubbleDown_spec hsink
  have hgen : ∀ j < tagCacheSize, (Function.update s.cache i e j).generation <
      s.maxGeneration + 1 := by
    intro j hj
    by_cases hji : j = i
    · rw [hji, Function.update_self, he]
      exact Nat.lt_succ_self _
    · rw [Function.update_of_ne hji]
      exact Nat.lt_succ_of_lt (hmax j hj)
  constructor
  · refine ⟨Nat.le_of_eq hfull, ?_, ?_, ?_, ?_⟩ <;> dsimp only <;> rw [hfull]
    · exact hheap
    · rw [heq]
      exact hsink.distinct.comp hσ
    · rw [heq]
      exact (htags.update htag).comp hσ
    · intro j hj
      rw [heq]
      exact hgen _ ((hσ j).mpr hj)
  · intro e'
    rw [heq]
    constructor
    · rintro ⟨j, hj, rfl⟩
      rw [Function.comp_apply]
      by_cases hji : σ j = i
      · rw [hji, Function.update_self]
        exact .inl rfl
      · rw [Function.update_of_ne hji]
        exact .inr ⟨σ j, (hσ j).mpr hj, hji, rfl⟩
    · have hback : ∀ k, σ.symm k < tagCacheSize ↔ k < tagCacheSize := fun k => by
        rw [← hσ, Equiv.apply_symm_apply]
      rintro (rfl | ⟨j, hj, hji, rfl⟩)
      · refine ⟨σ.symm i, (hback i).mpr hi, ?_⟩
        rw [Function.comp_apply, Equiv.apply_symm_apply, Function.update_self]
      · refine ⟨σ.symm j, (hback j).mpr hj, ?_⟩
        rw [Function.comp_apply, Equiv.apply_symm_apply, Function.update_of_ne hji]

/-- What a call of `esp_log_write` leaves as it is. -/
structure Kept (s s' : LogState) : Prop where
  cache : CacheOk s'
  defaultLevel : s'.defaultLevel = s.defaultLevel
  tags : s'.tags = s.tags
  max_le : s'.maxGeneration ≤ s.maxGeneration + 1

lemma getCachedLogLevel_spec (h : CacheOk s) (hmax : s.maxGeneration < 2 ^ 29) :
    (∃ e, s.Cached e ∧ e.tag = tag ∧ ∃ s', getCachedLogLevel s tag = some (some e.level, s') ∧
      Kept s s' ∧ ∀ e', s'.Cached e' → ∃ e, s.Cached e ∧ e'.tag = e.tag ∧ e'.level = e.level) ∨
    ((∀ e, s.Cached e → e.tag ≠ tag) ∧ getCachedLogLevel s tag = some (none, s)) := by
  obtain ⟨i, hfind, -, hle, hnone, hfound⟩ :=
    findEntry_spec h.order (fun e => e.tag = tag) (Nat.zero_add s.entryCount)
  rcases Nat.eq_or_lt_of_le hle with rfl | hlt
  · right
    refine ⟨?_, ?_⟩
    · rintro e ⟨j, hj, rfl⟩ htag
      exact hnone j (Nat.zero_le j) hj (decide_eq_true htag)
    · rw [getCachedLogLevel, hfind]
      exact if_pos rfl
  · left
    refine ⟨s.cache i, ⟨i, hlt, rfl⟩, of_decide_eq_true (hfound hlt), ?_⟩
    rw [getCachedLogLevel, hfind]
    by_cases hfull : s.entryCount = tagCacheSize
    · refine ⟨_, (if_neg (Nat.ne_of_lt hlt)).trans (if_pos hfull), ?_⟩
      rw [Nat.mod_eq_of_lt hmax, Nat.mod_eq_of_lt (by omega)]
      obtain ⟨hok, hentries⟩ := h.replace hfull (hfull ▸ hlt)
        (e := { s.cache i with generation := s.maxGeneration }) rfl fun j hj hji htag =>
          hji (h.tags j (hfull ▸ hj) i hlt htag)
      refine ⟨⟨hok, rfl, rfl, le_rfl⟩, fun e' he' => ?_⟩
      rw [LogState.Cached, hfull] at he'
      rcases (hentries e').mp he' with rfl | ⟨j, hj, -, rfl⟩
      · exact ⟨s.cache i, ⟨i, hlt, rfl⟩, rfl, rfl⟩
      · exact ⟨s.cache j, ⟨j, hfull ▸ hj, rfl⟩, rfl, rfl⟩
    · exact ⟨s, (if_neg (Nat.ne_of_lt hlt)).trans (if_neg hfull),
        ⟨h, rfl, rfl, Nat.le_succ _⟩, fun e' he' => ⟨e', he', rfl, rfl⟩⟩

/-- What makes room for an entry in a full cache is one of the smallest generation. -/
def ReplacesOldest (s s' : LogState) (e : CachedTagEntry) : Prop :=
  ∃ old < tagCacheSize, (∀ j < tagCacheSize, (s.cache old).generation ≤ (s.cache j).generation) ∧
    ∀ e', s'.Cached e' ↔ e' = e ∨ ∃ j < tagCacheSize, j ≠ old ∧ s.cache j = e'

lemma addToCache_spec (level : EspLogLevel) (h : CacheOk s) (hmax : s.maxGeneration < 2 ^ 29)
    (htag : ∀ e, s.Cached e → e.tag ≠ tag) :
    Kept s (addToCache s tag level) ∧
      (∀ e', (addToCache s tag level).Cached e' →
        e' = ⟨tag, level, s.maxGeneration⟩ ∨ s.Cached e') ∧
      (s.entryCount = tagCacheSize →
        ReplacesOldest s (addToCache s tag level) ⟨tag, level, s.maxGeneration⟩) := by
  rw [addToCache, Nat.mod_eq_of_lt hmax, Nat.mod_eq_of_lt (by omega : _ < 2 ^ 32)]
  split
  · next hlt =>
    have hne : ∀ j < s.entryCount, (s.cache j).tag ≠ tag := fun j hj => htag _ ⟨j, hj, rfl⟩
    refine ⟨⟨⟨hlt, h.order.append h.lt_max, h.distinct.append fun j hj => (h.lt_max j hj).ne,
      h.tags.append hne, fun j hj => ?_⟩, rfl, rfl, le_rfl⟩, ?_, fun hfull => absurd hfull hlt.ne⟩
    · by_cases hlast : j = s.entryCount
      · rw [hlast]
        dsimp only
        rw [Function.update_self]
        exact Nat.lt_succ_self _
      · dsimp only at hj ⊢
        rw [Function.update_of_ne hlast]
        exact Nat.lt_succ_of_lt (h.lt_max j (by omega))
    · rintro e' ⟨j, hj, rfl⟩
      dsimp only at hj ⊢
      by_cases hlast : j = s.entryCount
      · rw [hlast, Function.update_self]
        exact .inl rfl
      · rw [Function.update_of_ne hlast]
        exact .inr ⟨j, by omega, rfl⟩
  · next hlt =>
    have hfull : s.entryCount = tagCacheSize := le_antisymm h.count_le (Nat.not_lt.mp hlt)
    obtain ⟨hok, hentries⟩ := h.replace hfull (i := 0) (by decide)
      (e := ⟨tag, level, s.maxGeneration⟩) rfl fun j hj _ => htag _ ⟨j, hfull ▸ hj, rfl⟩
    rw [← hfull] at hentries
    refine ⟨⟨hok, rfl, rfl, le_rfl⟩, fun e' he' => ?_, fun _ => ⟨0, by decide, fun j hj => ?_,
      fun e' => ?_⟩⟩
    · exact ((hentries e').mp he').imp_right fun ⟨j, hj, _, heq⟩ => ⟨j, hj, heq⟩
    · exact h.order.root_le (hfull ▸ hj)
    · rw [← hfull]
      exact hentries e'

/-- The level that a tag has that is not cached. -/
def LogState.uncachedLevel (s : LogState) (t : String) : EspLogLevel :=
  (getUncachedLogLevel s t).getD s.defaultLevel

/-- Every cached level is the one that `f` gives for the tag. -/
def LogState.Agrees (s : LogState) (str : ℕ → String) (f : String → EspLogLevel) : Prop :=
  ∀ e, s.Cached e → e.level = f (str e.tag)

/-- No assertion fires, and an entry that is added takes the place of an oldest one. -/
lemma espLogWrite_spec (str : ℕ → String) (level : EspLogLevel) (tag : ℕ) (h : CacheOk s)
    (hmax : s.maxGeneration < 2 ^ 29) :
    ∃ s' l, espLogWrite str s level tag = some (s', shouldOutput level l) ∧ Kept s s' ∧
      (∀ f, s.Agrees str f → s.uncachedLevel = f → l = f (str tag) ∧ s'.Agrees str f) ∧
      (∀ e, s.Cached e → e.tag = tag → l = e.level) ∧
      (s.entryCount = tagCacheSize → (∀ e, s.Cached e → e.tag ≠ tag) →
        ReplacesOldest s s' ⟨tag, l, s.maxGeneration⟩) := by
  rcases getCachedLogLevel_spec h hmax with
    ⟨e, he, htag, s', hget, hkept, hentries⟩ | ⟨hnone, hget⟩
  · refine ⟨s', e.level, by rw [espLogWrite, hget]; rfl, hkept, fun f hf _ => ⟨?_, ?_⟩, ?_,
      fun _ hno => absurd htag (hno e he)⟩
    · rw [hf e he, htag]
    · intro e' he'
      obtain ⟨e, he, htag, hlevel⟩ := hentries e' he'
      rw [hlevel, htag]
      exact hf e he
    · rintro e' ⟨j, hj, rfl⟩ htag'
      obtain ⟨i, hi, rfl⟩ := he
      rw [h.tags i hi j hj (htag.trans htag'.symm)]
  · obtain ⟨hkept, hentries, hreplace⟩ :=
      addToCache_spec (s.uncachedLevel (str tag)) h hmax hnone
    refine ⟨_, s.uncachedLevel (str tag), by rw [espLogWrite, hget]; rfl, hkept,
      fun f hf hlist => ⟨by rw [hlist], fun e' he' => ?_⟩,
      fun e he htag => absurd htag (hnone e he), fun hfull _ => hreplace hfull⟩
    rcases hentries e' he' with rfl | he'
    · rw [hlist]
    · exact hf e' he'

lemma find_updateTag {t : String} (l : List (String × EspLogLevel)) (u : String) :
    (((updateTag t level l).getD ((t, level) :: l)).find? fun e => u = e.1).map Prod.snd =
      if u = t then some level else (l.find? fun e => u = e.1).map Prod.snd := by
  have hhead : ∀ (e : String × EspLogLevel) (l : List (String × EspLogLevel)),
      ((e :: l).find? fun e => u = e.1).map Prod.snd =
        if u = e.1 then some e.2 else (l.find? fun e => u = e.1).map Prod.snd := by
    intro e l
    rw [List.find?_cons]
    by_cases hu : u = e.1
    · rw [if_pos hu, decide_eq_true hu]
      rfl
    · rw [if_neg hu, decide_eq_false hu]
  induction l with
  | nil => exact hhead (t, level) []
  | cons e l ih =>
    rw [updateTag]
    split
    · next he =>
      rw [Option.getD_some, hhead, hhead e, he]
      by_cases hu : u = t
      · rw [if_pos hu, if_pos hu]
      · rw [if_neg hu, if_neg hu, if_neg hu]
    · next he =>
      cases hupdate : updateTag t level l with
      | none => exact hhead (t, level) (e :: l)
      | some l' =>
        rw [hupdate, Option.getD_some] at ih
        rw [Option.map_some, Option.getD_some, hhead, hhead e, ih]
        by_cases hu : u = e.1
        · rw [if_pos hu, if_pos hu, if_neg (by rwa [hu])]
        · rw [if_neg hu, if_neg hu]

/-- A change of a level alone. -/
lemma CacheOk.setLevel (h : CacheOk s) {tags : List (String × EspLogLevel)} :
    CacheOk { s with
      tags := tags
      cache := Function.update s.cache i { s.cache i with level := level } } := by
  have hgen : ∀ j, (Function.update s.cache i { s.cache i with level := level } j).generation =
      (s.cache j).generation := by
    intro j
    by_cases hji : j = i
    · rw [hji, Function.update_self]
    · rw [Function.update_of_ne hji]
  have htag : ∀ j, (Function.update s.cache i { s.cache i with level := level } j).tag =
      (s.cache j).tag := by
    intro j
    by_cases hji : j = i
    · rw [hji, Function.update_self]
    · rw [Function.update_of_ne hji]
  refine ⟨h.count_le, fun j hpos hj => ?_, fun j hj k hk heq => ?_, fun j hj k hk heq => ?_,
    fun j hj => ?_⟩
  · rw [hgen, hgen]
    exact h.order j hpos hj
  · rw [hgen, hgen] at heq
    exact h.distinct j hj k hk heq
  · rw [htag, htag] at heq
    exact h.tags j hj k hk heq
  · rw [hgen]
    exact h.lt_max j hj

/-- The entry that `esp_log_level_set` updates is the first one with the tag. -/
lemma espLogLevelSet_spec (str : ℕ → String) (tag : ℕ) (level : EspLogLevel) (h : CacheOk s) :
    ∃ s', espLogLevelSet str s tag level = some s' ∧ CacheOk s' ∧
      s'.maxGeneration ≤ s.maxGeneration ∧
      s'.uncachedLevel = (fun t => if str tag = "*" ∨ str tag = t then level
        else s.uncachedLevel t) ∧
      (str tag = "*" → s'.entryCount = 0) ∧
      (str tag ≠ "*" → s'.entryCount = s.entryCount ∧ ∀ j < s.entryCount,
        (s'.cache j).tag = (s.cache j).tag ∧
        (s'.cache j).level =
          if str (s.cache j).tag = str tag ∧ ∀ k < j, str (s.cache k).tag ≠ str tag then level
          else (s.cache j).level) := by
  by_cases hstar : str tag = "*"
  · refine ⟨_, if_pos hstar, ?_, Nat.zero_le _, ?_, fun _ => rfl, fun hne => absurd hstar hne⟩
    · exact ⟨Nat.zero_le _, fun j _ hj => absurd hj (Nat.not_lt_zero j),
        fun j hj => absurd hj (Nat.not_lt_zero j), fun j hj => absurd hj (Nat.not_lt_zero j),
        fun j hj => absurd hj (Nat.not_lt_zero j)⟩
    · funext t
      rw [if_pos (.inl hstar)]
      rfl
  · obtain ⟨i, hfind, -, hle, hnone, hfound⟩ :=
      findEntry_spec h.order (fun e => str e.tag = str tag) (Nat.zero_add s.entryCount)
    have hbefore : ∀ k < i, str (s.cache k).tag ≠ str tag := fun k hk htag =>
      hnone k (Nat.zero_le k) hk (decide_eq_true htag)
    have hlist : ∀ cache, LogState.uncachedLevel { s with
        tags := (updateTag (str tag) level s.tags).getD ((str tag, level) :: s.tags)
        cache := cache } = fun t => if str tag = "*" ∨ str tag = t then level
          else s.uncachedLevel t := by
      intro cache
      funext t
      rw [LogState.uncachedLevel, getUncachedLogLevel, find_updateTag]
      by_cases ht : t = str tag
      · rw [if_pos ht, if_pos (.inr ht.symm)]
        rfl
      · rw [if_neg ht, if_neg (not_or_intro hstar (Ne.symm ht))]
        rfl
    rw [espLogLevelSet, if_neg hstar]
    dsimp only
    rw [hfind]
    rcases Nat.eq_or_lt_of_le hle with rfl | hlt
    · refine ⟨_, if_pos rfl, ⟨h.count_le, h.order, h.distinct, h.tags, h.lt_max⟩, le_rfl,
        hlist s.cache, fun h => absurd h hstar, fun _ => ⟨rfl, fun j hj => ⟨rfl, ?_⟩⟩⟩
      rw [if_neg fun hfirst => hbefore j hj hfirst.1]
    · refine ⟨_, if_neg hlt.ne, h.setLevel, le_rfl, hlist _, fun h => absurd h hstar,
        fun _ => ⟨rfl, fun j hj => ?_⟩⟩
      dsimp only
      by_cases hji : j = i
      · rw [hji, Function.update_self, if_pos ⟨of_decide_eq_true (hfound hlt), hbefore⟩]
        exact ⟨rfl, rfl⟩
      · rw [Function.update_of_ne hji, if_neg]
        · exact ⟨rfl, rfl⟩
        · rintro ⟨htag, hfirst⟩
          rcases Nat.lt_or_gt_of_ne hji with hlt' | hgt
          · exact hbefore j hlt' htag
          · exact hfirst i hgt (of_decide_eq_true (hfound hlt))

/-! ### Whole histories -/

/-- The loop of `esp_log_level_set` stops at the first entry with the tag; those behind it have the
level already. -/
def LevelSetReaches (str : ℕ → String) (s : LogState) : LogOp → Prop
  | .levelSet tag level => str tag ≠ "*" → ∀ j < s.entryCount, str (s.cache j).tag = str tag →
      (∃ k < j, str (s.cache k).tag = str tag) → (s.cache j).level = level
  | .write _ _ => True

/-- So it is at every call of the history. -/
def AllReach (str : ℕ → String) : List LogOp → Prop
  | [] => True
  | op :: earlier => AllReach str earlier ∧ ∀ s, run str earlier = some s → LevelSetReaches str s op

/-- After the history each write prints if and only if its level is at most the configured one. -/
def PrintsRight (str : ℕ → String) (history : List LogOp) : Prop :=
  ∃ s, run str history = some s ∧ ∀ level tag, ∃ s', espLogWrite str s level tag =
    some (s', shouldOutput level (configured str history (str tag)))

/-- What every history leads to. -/
structure Reached (str : ℕ → String) (history : List LogOp) (s : LogState) : Prop where
  cache : CacheOk s
  max_le : s.maxGeneration ≤ history.length
  uncached : s.uncachedLevel = configured str history

variable {history : List LogOp}

lemma configured_levelSet (t : String) :
    configured str (.levelSet tag level :: history) t =
      if str tag = "*" ∨ str tag = t then level else configured str history t := rfl

/-- One call; it keeps the agreement of the cache exactly when it reaches all entries. -/
lemma Reached.step (h : Reached str history s) (hlen : history.length < 2 ^ 29) (op : LogOp) :
    ∃ s', step str s op = some s' ∧ Reached str (op :: history) s' ∧
      (s.Agrees str (configured str history) →
        (s'.Agrees str (configured str (op :: history)) ↔ LevelSetReaches str s op)) := by
  cases op with
  | write level tag =>
    obtain ⟨s', l, hwrite, hkept, hagrees, -⟩ :=
      espLogWrite_spec str level tag h.cache (h.max_le.trans_lt hlen)
    refine ⟨s', by rw [Log.step, hwrite]; rfl, ⟨hkept.cache, ?_, ?_⟩, fun hold => ?_⟩
    · exact hkept.max_le.trans (Nat.succ_le_succ h.max_le)
    · show s'.uncachedLevel = configured str history
      rw [← h.uncached]
      funext t
      rw [LogState.uncachedLevel, getUncachedLogLevel, hkept.tags, hkept.defaultLevel]
      rfl
    · exact iff_of_true (hagrees _ hold h.uncached).2 trivial
  | levelSet tag level =>
    obtain ⟨s', hset, hok, hmax, hlist, hstar, hplain⟩ :=
      espLogLevelSet_spec str tag level h.cache
    refine ⟨s', hset, ⟨hok, hmax.trans (Nat.le_succ_of_le h.max_le), ?_⟩, fun hold => ?_⟩
    · funext t
      rw [hlist, configured_levelSet, h.uncached]
    · rw [LevelSetReaches]
      by_cases hall : str tag = "*"
      · refine iff_of_true ?_ fun hne => absurd hall hne
        rintro e ⟨j, hj, -⟩
        rw [hstar hall] at hj
        exact absurd hj (Nat.not_lt_zero j)
      · obtain ⟨hcount, hentry⟩ := hplain hall
        constructor
        · rintro hnew - j hj htag ⟨k, hk, hktag⟩
          have hlevel := hnew _ ⟨j, by rwa [hcount], rfl⟩
          obtain ⟨htag', hlevel'⟩ := hentry j hj
          rw [if_neg fun hfirst => hfirst.2 k hk hktag] at hlevel'
          rw [← hlevel', hlevel, configured_levelSet, htag', if_pos (.inr htag.symm)]
        · rintro hreach e ⟨j, hj, rfl⟩
          rw [hcount] at hj
          obtain ⟨htag', hlevel'⟩ := hentry j hj
          rw [htag', hlevel', configured_levelSet]
          by_cases htag : str (s.cache j).tag = str tag
          · have hthis : str tag = "*" ∨ str tag = str (s.cache j).tag := .inr htag.symm
            rw [if_pos hthis]
            split
            · rfl
            · next hfirst =>
              -- another entry with this tag comes first
              have hother : ∃ k < j, str (s.cache k).tag = str tag := by
                by_contra hnone
                exact hfirst ⟨htag, fun k hk hktag => hnone ⟨k, hk, hktag⟩⟩
              exact hreach hall j hj htag hother
          · rw [if_neg fun hfirst => htag hfirst.1,
              if_neg (not_or_intro hall fun h => htag h.symm)]
            exact hold _ ⟨j, hj, rfl⟩

lemma Reached.init : Reached str [] .init where
  cache := ⟨Nat.zero_le _, fun j _ hj => absurd hj (Nat.not_lt_zero j),
    fun j hj => absurd hj (Nat.not_lt_zero j), fun j hj => absurd hj (Nat.not_lt_zero j),
    fun j hj => absurd hj (Nat.not_lt_zero j)⟩
  max_le := le_rfl
  uncached := rfl

/-- No assertion fires. -/
lemma run_reached (str : ℕ → String) (hlen : history.length ≤ 2 ^ 29) :
    ∃ s, run str history = some s ∧ Reached str history s := by
  induction history with
  | nil => exact ⟨.init, rfl, .init⟩
  | cons op earlier ih =>
    rw [List.length_cons] at hlen
    obtain ⟨s, hrun, h⟩ := ih (by omega)
    obtain ⟨s', hstep, hnext, -⟩ := h.step hlen op
    exact ⟨s', by rw [run, hrun]; exact hstep, hnext⟩

lemma shouldOutput_inj {l l' : EspLogLevel}
    (h : ∀ level, shouldOutput level l = shouldOutput level l') : l = l' := by
  have hle : l.toNat ≤ l'.toNat := of_decide_eq_true ((h l).symm.trans (decide_eq_true le_rfl))
  have hge : l'.toNat ≤ l.toNat := of_decide_eq_true ((h l').trans (decide_eq_true le_rfl))
  have heq := le_antisymm hle hge
  cases l <;> cases l' <;> first | rfl | cases heq

/-- The writes tell whether the cache agrees with the configuration. -/
lemma Reached.printsRight_iff (h : Reached str history s) (hrun : run str history = some s)
    (hlen : history.length < 2 ^ 29) :
    PrintsRight str history ↔ s.Agrees str (configured str history) := by
  constructor
  · rintro ⟨s₀, hrun', hprints⟩ e he
    obtain rfl := Option.some.inj (hrun.symm.trans hrun')
    refine shouldOutput_inj fun level => ?_
    obtain ⟨s', l, hwrite, -, -, hcached, -⟩ := espLogWrite_spec str level e.tag h.cache
      (h.max_le.trans_lt hlen)
    obtain ⟨s'', hright⟩ := hprints level e.tag
    rw [hwrite, hcached e he rfl] at hright
    exact congrArg Prod.snd (Option.some.inj hright)
  · intro hagrees
    refine ⟨s, hrun, fun level tag => ?_⟩
    obtain ⟨s', l, hwrite, -, hlevel, -⟩ := espLogWrite_spec str level tag h.cache
      (h.max_le.trans_lt hlen)
    exact ⟨s', by rw [hwrite, (hlevel _ hagrees h.uncached).1]⟩

/-- In every history the cache stays a heap of which no assertion fires, and an entry that is added
to the full cache replaces an oldest one.  All writes print by the configured level exactly when
each `esp_log_level_set` reaches all entries that it has to change. -/
theorem espLog_iff (str : ℕ → String) {history : List LogOp} (hlen : history.length < 2 ^ 29) :
    (∃ s, run str history = some s ∧
      HeapOrder CachedTagEntry.generation s.entryCount s.cache ∧
      ∀ level tag, ∃ s' out, espLogWrite str s level tag = some (s', out) ∧
        (s.entryCount = tagCacheSize → (∀ e, s.Cached e → e.tag ≠ tag) →
          ∃ l, ReplacesOldest s s' ⟨tag, l, s.maxGeneration⟩)) ∧
    ((∀ earlier, earlier <:+ history → PrintsRight str earlier) ↔ AllReach str history) := by
  constructor
  · obtain ⟨s, hrun, h⟩ := run_reached str hlen.le
    refine ⟨s, hrun, h.cache.order, fun level tag => ?_⟩
    obtain ⟨s', l, hwrite, -, -, -, hreplace⟩ := espLogWrite_spec str level tag h.cache
      (h.max_le.trans_lt hlen)
    exact ⟨s', _, hwrite, fun hfull hnone => ⟨l, hreplace hfull hnone⟩⟩
  · induction history with
    | nil =>
      refine iff_of_true (fun earlier hsuffix => ?_) trivial
      rw [List.suffix_nil.mp hsuffix]
      exact (Reached.init.printsRight_iff rfl (by decide)).mpr
        fun e ⟨j, hj, _⟩ => absurd hj (Nat.not_lt_zero j)
    | cons op earlier ih =>
      rw [List.length_cons] at hlen
      obtain ⟨s, hrun, h⟩ := run_reached str (show earlier.length ≤ 2 ^ 29 by omega)
      obtain ⟨s', hstep, hnext, hagrees⟩ := h.step (by omega) op
      have hrun' : run str (op :: earlier) = some s' := by
        rw [run, hrun]
        exact hstep
      have hright := hnext.printsRight_iff hrun' hlen
      have hreach : (∀ s, run str earlier = some s → LevelSetReaches str s op) ↔
          LevelSetReaches str s op :=
        ⟨fun hall => hall s hrun, fun hone s₀ hs₀ => by
          obtain rfl := Option.some.inj (hrun.symm.trans hs₀)
          exact hone⟩
      rw [AllReach, ← ih (by omega), hreach]
      simp only [List.suffix_cons_iff, or_imp, forall_and, forall_eq]
      rw [and_comm]
      refine and_congr_right fun hearlier => ?_
      have hold := (h.printsRight_iff hrun (by omega)).mp (hearlier earlier List.suffix_rfl)
      rw [hright]
      exact hagrees hold

theorem espLog_iff_warn :
    (∃ s, run (fun _ => "wifi") [.write .info 0, .levelSet 1 .warn] = some s ∧
      HeapOrder CachedTagEntry.generation s.entryCount s.cache ∧
      ∀ level tag, ∃ s' out, espLogWrite (fun _ => "wifi") s level tag = some (s', out) ∧
        (s.entryCount = tagCacheSize → (∀ e, s.Cached e → e.tag ≠ tag) →
          ∃ l, ReplacesOldest s s' ⟨tag, l, s.maxGeneration⟩)) ∧
    ((∀ earlier, earlier <:+ [.write .info 0, .levelSet 1 .warn] →
      PrintsRight (fun _ => "wifi") earlier) ↔
        AllReach (fun _ => "wifi") [.write .info 0, .levelSet 1 .warn]) :=
  espLog_iff (fun _ => "wifi") (by decide)

/-- Two pointers to the same tag are cached; the level of the second one stays. -/
theorem espLogWrite_stale_level :
    ((run (fun _ => "wifi") [.levelSet 0 .none, .write .info 1, .write .info 0]).bind fun s =>
        (espLogWrite (fun _ => "wifi") s .error 1).map Prod.snd) = some true ∧
      configured (fun _ => "wifi") [.levelSet 0 .none, .write .info 1, .write .info 0] "wifi" =
        .none ∧
      shouldOutput .error .none = false := by
  decide +kernel

end EspIdf.Log
