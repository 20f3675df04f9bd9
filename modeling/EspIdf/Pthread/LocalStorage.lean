/-
# Thread-specific data

Keys stand in one list, and each thread has a list of values for key numbers.  A new key gets
the number after that of the head of the list of keys, so that the number of a deleted key is
handed out again, and deleting a key leaves the values of the threads as they are.  The data are
a map for each key and thread in exactly the runs in which no thread holds a value for a number
when it is handed out.
-/
import Mathlib

namespace EspIdf.Pthread

/-- `key_entry_t`; `F` are the destructors. -/
structure KeyEntry (F : Type) where
  key : ℕ
  destructor : Option F

/-- `value_entry_t`; `none` is a null pointer. -/
structure ValueEntry (V : Type) where
  key : ℕ
  value : Option V

/-- `s_keys`, and the value list of each thread; a thread without one has a null pointer. -/
structure Storage (T F V : Type) where
  keys : List (KeyEntry F)
  tls : T → Option (List (ValueEntry V))

/-- The error codes. -/
inductive Errno where
  | ok
  | enoent
deriving DecidableEq

variable {T F V : Type}

/-- No key, and no thread with a value list. -/
def Storage.init : Storage T F V := ⟨[], fun _ => none⟩

/-! ### Keys -/

/-- The number that the next key gets. -/
def Storage.nextKey (s : Storage T F V) : ℕ :=
  match s.keys with
  | [] => 1
  | head :: _ => (head.key + 1) % 2 ^ 32

/-- `pthread_key_create`: the key and the lists afterwards. -/
def pthreadKeyCreate (s : Storage T F V) (destructor : Option F) : ℕ × Storage T F V :=
  (s.nextKey, { s with keys := ⟨s.nextKey, destructor⟩ :: s.keys })

/-- `find_key`. -/
def findKey (s : Storage T F V) (key : ℕ) : Option (KeyEntry F) :=
  s.keys.find? fun e => e.key == key

/-- `pthread_key_delete`. -/
def pthreadKeyDelete (s : Storage T F V) (key : ℕ) : Storage T F V :=
  match findKey s key with
  | some _ => { s with keys := s.keys.eraseP fun e => e.key == key }
  | none => s

/-! ### Values -/

/-- `find_value`. -/
def findValue (list : List (ValueEntry V)) (key : ℕ) : Option (ValueEntry V) :=
  list.find? fun e => e.key == key

/-- `pthread_getspecific` in a thread. -/
def pthreadGetspecific (s : Storage T F V) (thread : T) (key : ℕ) : Option V :=
  match s.tls thread with
  | none => none
  | some tls =>
    match findValue tls key with
    | some entry => entry.value
    | none => none

/-- Set the value of the entry that `find_value` finds. -/
def setEntry (key : ℕ) (value : Option V) : List (ValueEntry V) → List (ValueEntry V)
  | [] => []
  | e :: es => if e.key == key then { e with value := value } :: es else e :: setEntry key value es

/-- The value list after `pthread_setspecific`. -/
def setValue (tls : List (ValueEntry V)) (key : ℕ) (value : Option V) : List (ValueEntry V) :=
  match findValue tls key, value with
  | some _, some v => setEntry key (some v) tls
  | some _, none => tls.eraseP fun e => e.key == key
  | none, some v => ⟨key, some v⟩ :: tls
  | none, none => tls

/-- `pthread_setspecific` in a thread. -/
def pthreadSetspecific [DecidableEq T] (s : Storage T F V) (thread : T) (key : ℕ)
    (value : Option V) : Errno × Storage T F V :=
  match findKey s key with
  | none => (.enoent, s)
  | some _ =>
    (.ok, { s with
      tls := Function.update s.tls thread (some (setValue ((s.tls thread).getD []) key value)) })

/-! ### Runs and the map that they stand for -/

/-- The calls. -/
inductive Call (T F V : Type) where
  | keyCreate (destructor : Option F)
  | keyDelete (key : ℕ)
  | setspecific (thread : T) (key : ℕ) (value : Option V)
  | getspecific (thread : T) (key : ℕ)

/-- The lists after a call. -/
def Call.run [DecidableEq T] (s : Storage T F V) : Call T F V → Storage T F V
  | .keyCreate destructor => (pthreadKeyCreate s destructor).2
  | .keyDelete key => pthreadKeyDelete s key
  | .setspecific thread key value => (pthreadSetspecific s thread key value).2
  | .getspecific _ _ => s

/-- The keys that were created and not deleted since, and what each thread has set for a key
since it was created. -/
structure Specific (T V : Type) where
  live : List ℕ
  value : ℕ → T → Option V

/-- No key. -/
def Specific.init : Specific T V := ⟨[], fun _ _ => none⟩

/-- What a call does to the map; a creation goes by the number that it returned. -/
def Specific.step [DecidableEq T] (s : Storage T F V) (a : Specific T V) :
    Call T F V → Specific T V
  | .keyCreate destructor =>
    ⟨(pthreadKeyCreate s destructor).1 :: a.live,
      Function.update a.value (pthreadKeyCreate s destructor).1 fun _ => none⟩
  | .keyDelete key => { a with live := a.live.erase key }
  | .setspecific thread key value =>
    if key ∈ a.live then
      { a with value := Function.update a.value key (Function.update (a.value key) thread value) }
    else a
  | .getspecific _ _ => a

/-- The live keys are distinct, and each thread reads what the map holds for them. -/
structure IsMap (s : Storage T F V) (a : Specific T V) : Prop where
  distinct : a.live.Nodup
  reads : ∀ key ∈ a.live, ∀ thread, pthreadGetspecific s thread key = a.value key thread

/-- All states of the run are maps. -/
def AlwaysMap [DecidableEq T] : Storage T F V → Specific T V → List (Call T F V) → Prop
  | s, a, [] => IsMap s a
  | s, a, call :: calls => IsMap s a ∧ AlwaysMap (call.run s) (a.step s call) calls

/-- When a number is handed out, no thread holds a value for it. -/
def Call.Fresh (s : Storage T F V) : Call T F V → Prop
  | .keyCreate _ => ∀ thread, pthreadGetspecific s thread s.nextKey = none
  | _ => True

/-- No thread holds a value for a number that is handed out in the run. -/
def AlwaysFresh [DecidableEq T] : Storage T F V → List (Call T F V) → Prop
  | _, [] => True
  | s, call :: calls => call.Fresh s ∧ AlwaysFresh (call.run s) calls

/-- The number of keys that are created. -/
def creations : List (Call T F V) → ℕ
  | [] => 0
  | .keyCreate _ :: calls => creations calls + 1
  | _ :: calls => creations calls

/-! ### Value lists -/

/-- The value that a list holds for a key. -/
def lookup (tls : List (ValueEntry V)) (key : ℕ) : Option V :=
  (findValue tls key).bind ValueEntry.value

lemma pthreadGetspecific_eq (s : Storage T F V) (thread : T) (key : ℕ) :
    pthreadGetspecific s thread key = lookup ((s.tls thread).getD []) key := by
  unfold pthreadGetspecific
  cases s.tls thread with
  | none => rfl
  | some tls =>
    simp only [lookup, Option.getD_some]
    cases findValue tls key <;> rfl

lemma lookup_cons (e : ValueEntry V) (tls : List (ValueEntry V)) (key : ℕ) :
    lookup (e :: tls) key = if e.key = key then e.value else lookup tls key := by
  by_cases h : e.key = key
  · simp [lookup, findValue, h]
  · simp [lookup, findValue, h]

/-- No two entries of the list have the same key. -/
def Keyed (tls : List (ValueEntry V)) : Prop := (tls.map ValueEntry.key).Nodup

lemma lookup_eq_none {tls : List (ValueEntry V)} {key : ℕ}
    (h : key ∉ tls.map ValueEntry.key) : lookup tls key = none := by
  induction tls with
  | nil => rfl
  | cons e tls ih =>
    rw [List.map_cons, List.mem_cons, not_or] at h
    rw [lookup_cons, if_neg fun he => h.1 he.symm, ih h.2]

lemma lookup_setEntry {key : ℕ} {v : Option V} {tls : List (ValueEntry V)} {e : ValueEntry V}
    (h : findValue tls key = some e) (key' : ℕ) :
    lookup (setEntry key v tls) key' = if key' = key then v else lookup tls key' := by
  induction tls with
  | nil => simp [findValue] at h
  | cons e' tls ih =>
    by_cases he : e'.key = key
    · simp only [setEntry, he, beq_self_eq_true, if_true, lookup_cons]
      by_cases hk : key = key'
      · simp [hk]
      · simp [hk, Ne.symm hk]
    · have htl : findValue tls key = some e := by simpa [findValue, he] using h
      simp only [setEntry, beq_iff_eq, he, if_false, lookup_cons, ih htl]
      by_cases hk : e'.key = key'
      · have hne : key' ≠ key := fun h => he (hk.trans h)
        simp [hk, hne]
      · simp [hk]

lemma map_key_setEntry (key : ℕ) (v : Option V) (tls : List (ValueEntry V)) :
    (setEntry key v tls).map ValueEntry.key = tls.map ValueEntry.key := by
  induction tls with
  | nil => rfl
  | cons e tls ih =>
    unfold setEntry
    split
    · rfl
    · rw [List.map_cons, List.map_cons, ih]

lemma lookup_eraseP {key : ℕ} {tls : List (ValueEntry V)} (h : Keyed tls) (key' : ℕ) :
    lookup (tls.eraseP fun e => e.key == key) key' =
      if key' = key then none else lookup tls key' := by
  induction tls with
  | nil => simp [lookup, findValue]
  | cons e tls ih =>
    obtain ⟨hnot, hrest⟩ := List.nodup_cons.mp h
    by_cases he : e.key = key
    · rw [List.eraseP_cons_of_pos (by simpa using he), lookup_cons]
      by_cases hk : key' = key
      · subst hk he
        rw [if_pos rfl, lookup_eq_none hnot]
      · rw [if_neg hk, if_neg fun h => hk (h.symm.trans he)]
    · rw [List.eraseP_cons_of_neg (by simpa using he), lookup_cons, lookup_cons, ih hrest]
      by_cases hk : e.key = key'
      · rw [if_pos hk, if_pos hk, if_neg fun h => he (hk.trans h)]
      · rw [if_neg hk, if_neg hk]

/-- Setting a value changes what the list holds for its key. -/
lemma lookup_setValue {tls : List (ValueEntry V)} (h : Keyed tls) (key key' : ℕ)
    (v : Option V) :
    lookup (setValue tls key v) key' = if key' = key then v else lookup tls key' := by
  unfold setValue
  cases hfind : findValue tls key with
  | some e =>
    cases v with
    | some v => exact lookup_setEntry hfind key'
    | none => exact lookup_eraseP h key'
  | none =>
    cases v with
    | some v =>
      simp only [lookup_cons, eq_comm]
    | none =>
      by_cases hk : key' = key
      · subst hk
        simp [lookup, hfind]
      · simp [hk]

lemma Keyed.setValue {tls : List (ValueEntry V)} (h : Keyed tls) (key : ℕ) (v : Option V) :
    Keyed (setValue tls key v) := by
  unfold Pthread.setValue
  cases hfind : findValue tls key with
  | some e =>
    cases v with
    | some v => simpa only [Keyed, map_key_setEntry] using h
    | none => exact h.sublist (List.eraseP_sublist.map _)
  | none =>
    cases v with
    | some v =>
      refine List.nodup_cons.mpr ⟨fun hmem => ?_, h⟩
      obtain ⟨e, he, hkey⟩ := List.mem_map.mp hmem
      exact List.find?_eq_none.mp hfind e he (by simpa using hkey)
    | none => exact h

/-! ### The invariant -/

/-- The lists stand for the map, and the keys have been numbered up to `n`. -/
structure StorageInv (n : ℕ) (s : Storage T F V) (a : Specific T V) : Prop where
  live : s.keys.map KeyEntry.key = a.live
  sorted : a.live.Pairwise (· > ·)
  bound : ∀ key ∈ a.live, key ≤ n
  keyed : ∀ thread, Keyed ((s.tls thread).getD [])
  reads : ∀ key ∈ a.live, ∀ thread, pthreadGetspecific s thread key = a.value key thread

lemma storageInv_init : StorageInv 0 (Storage.init : Storage T F V) Specific.init where
  live := rfl
  sorted := List.Pairwise.nil
  bound := by simp [Specific.init]
  keyed := fun _ => List.nodup_nil
  reads := by simp [Specific.init]

variable {n : ℕ} {s : Storage T F V} {a : Specific T V}

lemma StorageInv.isMap (h : StorageInv n s a) : IsMap s a :=
  ⟨h.sorted.imp fun hgt => Nat.ne_of_gt hgt, h.reads⟩

/-- The next number is above those of the live keys. -/
lemma StorageInv.nextKey_gt (h : StorageInv n s a) (hn : n + 1 < 2 ^ 32) :
    s.nextKey ≤ n + 1 ∧ ∀ key ∈ a.live, key < s.nextKey := by
  have hlive := h.live
  unfold Storage.nextKey
  cases hkeys : s.keys with
  | nil =>
    rw [hkeys] at hlive
    simp [← hlive]
  | cons head rest =>
    rw [hkeys, List.map_cons] at hlive
    have hsorted := h.sorted
    rw [← hlive, List.pairwise_cons] at hsorted
    have hle : head.key ≤ n := h.bound _ (hlive ▸ List.mem_cons_self)
    dsimp only
    rw [Nat.mod_eq_of_lt (by omega)]
    refine ⟨by omega, fun key hkey => ?_⟩
    rw [← hlive, List.mem_cons] at hkey
    rcases hkey with rfl | hkey
    · exact Nat.lt_succ_self _
    · exact Nat.lt_succ_of_lt (hsorted.1 key hkey)

lemma StorageInv.keyCreate (h : StorageInv n s a) (hn : n + 1 < 2 ^ 32) (destructor : Option F)
    (hfresh : ∀ thread, pthreadGetspecific s thread s.nextKey = none) [DecidableEq T] :
    StorageInv (n + 1) (pthreadKeyCreate s destructor).2 (a.step s (.keyCreate destructor)) := by
  obtain ⟨hle, hgt⟩ := h.nextKey_gt hn
  refine ⟨?_, ?_, ?_, h.keyed, ?_⟩
  · exact congrArg (s.nextKey :: ·) h.live
  · exact List.pairwise_cons.mpr ⟨hgt, h.sorted⟩
  · intro key hkey
    rcases List.mem_cons.mp hkey with rfl | hkey
    · exact hle
    · exact Nat.le_succ_of_le (h.bound key hkey)
  · intro key hkey thread
    by_cases hk : key = s.nextKey
    · subst hk
      exact (hfresh thread).trans (by simp [Specific.step, pthreadKeyCreate])
    · have hold : key ∈ a.live := (List.mem_cons.mp hkey).resolve_left hk
      exact (h.reads key hold thread).trans (by simp [Specific.step, pthreadKeyCreate, hk])

lemma findKey_isSome_iff (h : StorageInv n s a) (key : ℕ) :
    (findKey s key).isSome = true ↔ key ∈ a.live := by
  rw [findKey, List.find?_isSome, ← h.live, List.mem_map]
  simp

lemma StorageInv.keyDelete [DecidableEq T] (h : StorageInv n s a) (key : ℕ) :
    StorageInv n (pthreadKeyDelete s key) (a.step s (.keyDelete key)) := by
  have hsub : (a.live.erase key).Sublist a.live := List.erase_sublist
  have hlive : (pthreadKeyDelete s key).keys.map KeyEntry.key = a.live.erase key := by
    unfold pthreadKeyDelete
    cases hfind : findKey s key with
    | some e =>
      dsimp only
      rw [← h.live, List.erase_eq_eraseP, List.eraseP_map]
      congr 2
      ext e
      exact BEq.comm
    | none =>
      have hnot : key ∉ a.live := by simpa [hfind] using findKey_isSome_iff h key
      rw [List.erase_of_not_mem hnot]
      exact h.live
  have htls : (pthreadKeyDelete s key).tls = s.tls := by
    unfold pthreadKeyDelete
    split <;> rfl
  refine ⟨hlive, h.sorted.sublist hsub, fun k hk => h.bound k (hsub.subset hk), ?_, ?_⟩
  · intro thread
    rw [htls]
    exact h.keyed thread
  · intro k hk thread
    rw [pthreadGetspecific_eq, htls, ← pthreadGetspecific_eq]
    exact h.reads k (hsub.subset hk) thread

lemma StorageInv.setspecific [DecidableEq T] (h : StorageInv n s a) (thread : T) (key : ℕ)
    (value : Option V) : StorageInv n (pthreadSetspecific s thread key value).2
      (a.step s (.setspecific thread key value)) := by
  have hiff := findKey_isSome_iff h key
  unfold pthreadSetspecific Specific.step
  cases hfind : findKey s key with
  | none =>
    have hnot : key ∉ a.live := by simpa [hfind] using hiff
    simpa [hnot] using h
  | some e =>
    have hmem : key ∈ a.live := by simpa [hfind] using hiff
    simp only [hmem, if_true]
    refine ⟨h.live, h.sorted, h.bound, fun t => ?_, fun k hk t => ?_⟩
    · by_cases ht : t = thread
      · subst ht
        simpa using (h.keyed t).setValue key value
      · simpa [ht] using h.keyed t
    · rw [pthreadGetspecific_eq]
      have hold := h.reads k hk t
      rw [pthreadGetspecific_eq] at hold
      by_cases ht : t = thread
      · subst ht
        simp only [Function.update_self, Option.getD_some, lookup_setValue (h.keyed t), hold]
        by_cases hkey : k = key
        · subst hkey
          simp
        · simp [hkey]
      · by_cases hkey : k = key
        · subst hkey
          simp [ht, hold]
        · simp [ht, hkey, hold]

/-- One call keeps the invariant, unless it hands out a number for which a value is held. -/
lemma StorageInv.run [DecidableEq T] (h : StorageInv n s a) (call : Call T F V)
    (hn : n + creations [call] < 2 ^ 32) (hfresh : call.Fresh s) :
    StorageInv (n + creations [call]) (call.run s) (a.step s call) := by
  cases call with
  | keyCreate destructor => exact h.keyCreate hn destructor hfresh
  | keyDelete key => exact h.keyDelete key
  | setspecific thread key value => exact h.setspecific thread key value
  | getspecific thread key => exact h

lemma creations_cons (call : Call T F V) (calls : List (Call T F V)) :
    creations (call :: calls) = creations [call] + creations calls := by
  cases call <;> simp [creations, Nat.add_comm]

/-- A key that reads null in all threads has a fresh number. -/
lemma IsMap.fresh [DecidableEq T] {call : Call T F V}
    (h : IsMap (call.run s) (a.step s call)) : call.Fresh s := by
  cases call with
  | keyCreate destructor =>
    intro thread
    have hread := h.reads s.nextKey List.mem_cons_self thread
    simpa [Specific.step, pthreadKeyCreate, Call.run, pthreadGetspecific_eq] using hread
  | keyDelete key => trivial
  | setspecific thread key value => trivial
  | getspecific thread key => trivial

lemma AlwaysMap.head [DecidableEq T] {calls : List (Call T F V)} (h : AlwaysMap s a calls) :
    IsMap s a := by
  cases calls with
  | nil => exact h
  | cons call calls => exact h.1

lemma StorageInv.alwaysMap_iff [DecidableEq T] {calls : List (Call T F V)}
    (h : StorageInv n s a) (hn : n + creations calls < 2 ^ 32) :
    AlwaysMap s a calls ↔ AlwaysFresh s calls := by
  induction calls generalizing n s a with
  | nil => exact iff_of_true h.isMap trivial
  | cons call calls ih =>
    rw [creations_cons, ← Nat.add_assoc] at hn
    constructor
    · rintro ⟨-, hrest⟩
      have hfresh := hrest.head.fresh
      exact ⟨hfresh, (ih (h.run call (by omega) hfresh) hn).mp hrest⟩
    · rintro ⟨hfresh, hrest⟩
      exact ⟨h.isMap, (ih (h.run call (by omega) hfresh) hn).mpr hrest⟩

end EspIdf.Pthread
