/-
# Thread-specific data at the exit of a thread

The value entries of a thread are nodes of a linked list.  When the thread exits, the list is
walked: the destructor of each entry's key is called, and then the entry is freed.  A destructor may
itself get and set values, and so search the same list, from its head.  The exit is as it should be
exactly if the destructors keep away from their own keys, look only for what they have added
themselves once an entry has been freed, and remove what they add.
-/
import EspIdf.Lib.SList
import EspIdf.Pthread.LocalStorage

namespace EspIdf.Pthread.ThreadExit

open EspIdf.Lib

/-- What `pthread_setspecific` returns. -/
inductive SetRet where
  | ok
  | enoent
  | enomem
deriving DecidableEq

/-- What a destructor does: calls, the next of which may depend on what the ones before returned,
and the state that it leaves the rest of the program in. -/
inductive Prog (G V : Type) where
  | done (g : G)
  | getspecific (key : ℕ) (k : Option V → Prog G V)
  | setspecific (key : ℕ) (value : Option V) (k : SetRet → Prog G V)

/-- `pthread_destructor_t`. -/
abbrev Destructor (G V : Type) := Option V → G → Prog G V

/-- What happened to the values: a destructor was called, or a value was set. -/
inductive Event (V : Type) where
  | call (key : ℕ) (value : Option V)
  | set (key : ℕ) (value : Option V)

/-- The value entries, and `slh_first` of their list; allocations and calls of `malloc` are
counted. -/
structure Thread (V : Type) where
  cells : SList.Nodes (ValueEntry V)
  first : Option ℕ
  used : ℕ
  mallocs : ℕ
  log : List (Event V)

variable {G V : Type}

/-! ### The code -/

/-- `find_key`. -/
def findKey (keys : List (KeyEntry (Destructor G V))) (key : ℕ) :
    Option (KeyEntry (Destructor G V)) :=
  keys.find? fun e => e.key == key

/-- The destructor of a key, if the key is live and has one. -/
def destructorOf (keys : List (KeyEntry (Destructor G V))) (key : ℕ) : Option (Destructor G V) :=
  (findKey keys key).bind KeyEntry.destructor

/-- `find_value`. -/
def findValue (s : Thread V) (key : ℕ) : Except SList.Fault (Option ℕ) :=
  SList.find s.cells (fun e => e.key == key) s.used s.first

/-- `pthread_getspecific`. -/
def pthreadGetspecific (s : Thread V) (key : ℕ) : Except SList.Fault (Option V) :=
  match findValue s key with
  | .error e => .error e
  | .ok none => .ok none
  | .ok (some entry) => (SList.read s.cells entry).map fun node => node.data.value

/-- The part of `pthread_setspecific` after `find_value`. -/
def setFound (mallocOk : ℕ → Bool) (s : Thread V) (key : ℕ) (value : Option V) :
    Option ℕ → Except SList.Fault (SetRet × Thread V)
  | some entry =>
    match value with
    | some v =>
      match SList.modify s.cells entry fun e => { e with value := some v } with
      | .error e => .error e
      | .ok cells => .ok (.ok, { s with cells := cells, log := s.log ++ [.set key (some v)] })
    | none =>
      match SList.remove s.cells s.used s.first entry with
      | .error e => .error e
      | .ok (first, cells) =>
        match SList.free cells entry with
        | .error e => .error e
        | .ok cells =>
          .ok (.ok, { s with cells := cells, first := first, log := s.log ++ [.set key none] })
  | none =>
    match value with
    | some v =>
      if mallocOk s.mallocs then
        .ok (.ok, ⟨Function.update s.cells s.used (some ⟨⟨key, some v⟩, s.first⟩), some s.used,
          s.used + 1, s.mallocs + 1, s.log ++ [.set key (some v)]⟩)
      else .ok (.enomem, { s with mallocs := s.mallocs + 1 })
    | none => .ok (.ok, { s with log := s.log ++ [.set key none] })

/-- `pthread_setspecific`, in a thread with a list. -/
def pthreadSetspecific (keys : List (KeyEntry (Destructor G V))) (mallocOk : ℕ → Bool)
    (s : Thread V) (key : ℕ) (value : Option V) : Except SList.Fault (SetRet × Thread V) :=
  match findKey keys key with
  | none => .ok (.enoent, s)
  | some _ =>
    match findValue s key with
    | .error e => .error e
    | .ok entry => setFound mallocOk s key value entry

/-- The calls of a destructor. -/
def Prog.run (keys : List (KeyEntry (Destructor G V))) (mallocOk : ℕ → Bool) :
    Prog G V → Thread V → Except SList.Fault (G × Thread V)
  | .done g, s => .ok (g, s)
  | .getspecific key k, s =>
    match pthreadGetspecific s key with
    | .error e => .error e
    | .ok value => (k value).run keys mallocOk s
  | .setspecific key value k, s =>
    match pthreadSetspecific keys mallocOk s key value with
    | .error e => .error e
    | .ok (ret, s') => (k ret).run keys mallocOk s'

/-- The destructor is called for an entry, if its key is live and has one. -/
def callDestructor (keys : List (KeyEntry (Destructor G V))) (mallocOk : ℕ → Bool)
    (e : ValueEntry V) (g : G) (s : Thread V) : Except SList.Fault (G × Thread V) :=
  match destructorOf keys e.key with
  | some destructor =>
    (destructor e.value g).run keys mallocOk { s with log := s.log ++ [.call e.key e.value] }
  | none => .ok (g, s)

/-- The loop of `pthread_local_storage_thread_deleted_callback`, from `entry` on. -/
def walk (keys : List (KeyEntry (Destructor G V))) (mallocOk : ℕ → Bool) :
    ℕ → Option ℕ → G → Thread V → Except SList.Fault (G × Thread V)
  | _, none, g, s => .ok (g, s)
  | 0, some _, _, _ => .error .endless
  | n + 1, some entry, g, s =>
    match SList.read s.cells entry with
    | .error e => .error e
    | .ok node =>
      match callDestructor keys mallocOk node.data g s with
      | .error e => .error e
      | .ok (g, s) =>
        -- `SLIST_NEXT` is read after the destructor has returned
        match SList.read s.cells entry with
        | .error e => .error e
        | .ok node =>
          match SList.free s.cells entry with
          | .error e => .error e
          | .ok cells => walk keys mallocOk n node.next g { s with cells := cells }

/-- `pthread_local_storage_thread_deleted_callback`. -/
def threadDeletedCallback (keys : List (KeyEntry (Destructor G V))) (mallocOk : ℕ → Bool) (g : G)
    (s : Thread V) : Except SList.Fault (G × Thread V) :=
  walk keys mallocOk s.used s.first g s

/-! ### What should happen -/

/-- The values that the thread holds for its keys, and that no destructor was called with. -/
def heldAfter (held : ℕ → Option V) : List (Event V) → ℕ → Option V
  | [] => held
  | .call key _ :: es => heldAfter (Function.update held key none) es
  | .set key value :: es => heldAfter (Function.update held key value) es

/-- A destructor is only called with a value that the thread holds, and that none was called
with. -/
def CallsHeld (held : ℕ → Option V) : List (Event V) → Prop
  | [] => True
  | .call key value :: es =>
    value ≠ none ∧ held key = value ∧ CallsHeld (Function.update held key none) es
  | .set key value :: es => CallsHeld (Function.update held key value) es

/-- The value list of a thread that has not begun to exit; entries were added at its head. -/
structure ValueList (V : Type) where
  thread : Thread V
  entries : List (ℕ × ValueEntry V)
  chain : SList.Chain thread.cells thread.first entries none
  sorted : (SList.ids entries).Pairwise (· > ·)
  keyed : Keyed (entries.map Prod.snd)
  nonnull : ∀ e ∈ entries.map Prod.snd, e.value ≠ none
  used : ∀ i ∈ SList.ids entries, i < thread.used
  others : ∀ i ∉ SList.ids entries, thread.cells i = none
  log : thread.log = []

/-- The values of the list. -/
def ValueList.held (t : ValueList V) : ℕ → Option V := lookup (t.entries.map Prod.snd)

/-- The exit reads, writes and frees no entry that has been freed, and frees all of them; each
destructor is called exactly once for each value that the thread holds for its key. -/
def ExitRight (keys : List (KeyEntry (Destructor G V))) (mallocOk : ℕ → Bool) (g : G)
    (t : ValueList V) : Prop :=
  ∃ g' s', threadDeletedCallback keys mallocOk g t.thread = .ok (g', s') ∧
    (∀ i, s'.cells i = none) ∧ CallsHeld t.held s'.log ∧
    ∀ key, destructorOf keys key ≠ none → heldAfter t.held s'.log key = none

/-! ### When it does -/

/-- The entries that a destructor can find, and the value that a destructor has set for its own
key. -/
structure Held (V : Type) where
  list : List (ValueEntry V)
  mallocs : ℕ
  lost : Option V

/-- The list has an entry with the key. -/
def Held.has (h : Held V) (key : ℕ) : Bool := (Pthread.findValue h.list key).isSome

/-- A value is set in the list, if `malloc` has room for an entry that is new. -/
def Held.set (mallocOk : ℕ → Bool) (h : Held V) (key : ℕ) (value : Option V) : SetRet × Held V :=
  if h.has key ∨ value = none then (.ok, { h with list := setValue h.list key value })
  else if mallocOk h.mallocs then
    (.ok, { h with list := setValue h.list key value, mallocs := h.mallocs + 1 })
  else (.enomem, { h with mallocs := h.mallocs + 1 })

/-- The calls of the first destructor, while no entry has been freed.  It must not remove the value
of its own key. -/
def Prog.first (keys : List (KeyEntry (Destructor G V))) (mallocOk : ℕ → Bool) (own : ℕ) :
    Prog G V → Held V → Option (G × Held V)
  | .done g, h => some (g, h)
  | .getspecific key k, h => (k (lookup h.list key)).first keys mallocOk own h
  | .setspecific key value k, h =>
    match findKey keys key with
    | none => (k .enoent).first keys mallocOk own h
    | some _ =>
      if key = own then
        match value with
        | none => none
        | some v =>
          (k .ok).first keys mallocOk own
            { h with list := setValue h.list key (some v), lost := some v }
      else (k (h.set mallocOk key value).1).first keys mallocOk own (h.set mallocOk key value).2

/-- The calls of a later destructor.  It must only look for what destructors have added: the list
goes on with an entry that was freed. -/
def Prog.later (keys : List (KeyEntry (Destructor G V))) :
    Prog G V → Held V → Option (G × Held V)
  | .done g, h => some (g, h)
  | .getspecific key k, h => if h.has key then (k (lookup h.list key)).later keys h else none
  | .setspecific key value k, h =>
    match findKey keys key with
    | none => (k .enoent).later keys h
    | some _ =>
      if h.has key then (k .ok).later keys { h with list := setValue h.list key value } else none

/-- The entries after the first one. -/
def laterEntries (keys : List (KeyEntry (Destructor G V))) :
    List (ValueEntry V) → G → Held V → Option (Held V)
  | [], _, h => some h
  | e :: es, g, h =>
    match destructorOf keys e.key with
    | none => laterEntries keys es g h
    | some destructor =>
      match (destructor e.value g).later keys h with
      | none => none
      | some (g', h') => laterEntries keys es g' h'

/-- The entries that stand before the one with a key. -/
def beforeKey (key : ℕ) (list : List (ValueEntry V)) : List (ValueEntry V) :=
  list.takeWhile fun e => e.key != key

/-- The entries that stand after the one with a key. -/
def afterKey (key : ℕ) (list : List (ValueEntry V)) : List (ValueEntry V) :=
  (list.dropWhile fun e => e.key != key).tail

/-- All entries of a list. -/
def allEntries (keys : List (KeyEntry (Destructor G V))) (mallocOk : ℕ → Bool) (mallocs : ℕ)
    (g : G) : List (ValueEntry V) → Option (Held V)
  | [] => some ⟨[], mallocs, none⟩
  | e :: es =>
    match destructorOf keys e.key with
    | none => laterEntries keys es g ⟨[], mallocs, none⟩
    | some destructor =>
      match (destructor e.value g).first keys mallocOk e.key ⟨e :: es, mallocs, none⟩ with
      | none => none
      | some (g', h) =>
        laterEntries keys (afterKey e.key h.list) g' { h with list := beforeKey e.key h.list }

/-- The destructors make no call that they must not make, remove again the values that they add,
and set none for their own keys. -/
def Polite (keys : List (KeyEntry (Destructor G V))) (mallocOk : ℕ → Bool) (g : G)
    (t : ValueList V) : Prop :=
  ∃ h, allEntries keys mallocOk t.thread.mallocs g (t.entries.map Prod.snd) = some h ∧
    h.list = [] ∧ h.lost = none

/-! ### Value lists -/

section Lists

variable {list rest l l' : List (ValueEntry V)} {e : ValueEntry V} {key : ℕ} {v : V}
  {held : ℕ → Option V}

lemma heldAfter_append (held : ℕ → Option V) (es es' : List (Event V)) :
    heldAfter held (es ++ es') = heldAfter (heldAfter held es) es' := by
  induction es generalizing held with
  | nil => rfl
  | cons ev es ih =>
    cases ev with
    | call key value => exact ih _
    | set key value => exact ih _

lemma callsHeld_append (held : ℕ → Option V) (es es' : List (Event V)) :
    CallsHeld held (es ++ es') ↔ CallsHeld held es ∧ CallsHeld (heldAfter held es) es' := by
  induction es generalizing held with
  | nil => exact (iff_of_eq (true_and _)).symm
  | cons ev es ih =>
    cases ev with
    | call key value =>
      rw [List.cons_append, CallsHeld, CallsHeld, ih, and_assoc, and_assoc]
      rfl
    | set key value => exact ih _

lemma findValue_isSome_iff : (Pthread.findValue list key).isSome = true ↔
    key ∈ list.map ValueEntry.key := by
  rw [Pthread.findValue, List.find?_isSome, List.mem_map]
  simp only [beq_iff_eq]

/-- A key has one entry. -/
lemma not_mem_middle (h : Keyed (l ++ e :: l')) : e.key ∉ (l ++ l').map ValueEntry.key := by
  rw [Keyed, List.map_append, List.map_cons, List.nodup_middle, List.nodup_cons,
    ← List.map_append] at h
  exact h.1

lemma keyed_middle (h : Keyed (l ++ e :: l')) : Keyed (l ++ l') := by
  rw [Keyed, List.map_append, List.map_cons, List.nodup_middle, List.nodup_cons,
    ← List.map_append] at h
  exact h.2

lemma not_mem_of_keyed (h : Keyed (l ++ e :: l')) : ∀ x ∈ l, ¬ (x.key == e.key) = true := by
  intro x hx heq
  refine not_mem_middle h (List.mem_map.2 ⟨x, List.mem_append_left _ hx, beq_iff_eq.1 heq⟩)

lemma findValue_middle (h : Keyed (l ++ e :: l')) :
    Pthread.findValue (l ++ e :: l') e.key = some e := by
  rw [Pthread.findValue, List.find?_eq_some_iff_append]
  exact ⟨beq_self_eq_true _, l, l', rfl, fun x hx => by simpa using not_mem_of_keyed h x hx⟩

lemma setEntry_middle (h : ∀ x ∈ l, ¬ (x.key == e.key) = true) (value : Option V) :
    setEntry e.key value (l ++ e :: l') = l ++ { e with value := value } :: l' := by
  induction l with
  | nil => simp only [List.nil_append, setEntry, beq_self_eq_true, if_true]
  | cons x l ih =>
    simp only [List.cons_append, setEntry]
    rw [if_neg (h x List.mem_cons_self), ih fun y hy => h y (List.mem_cons_of_mem _ hy)]

/-- The value of an entry changes where it stands, and an entry is removed where it stands. -/
lemma setValue_middle (h : Keyed (l ++ e :: l')) (value : Option V) :
    setValue (l ++ e :: l') e.key value =
      l ++ (value.elim [] fun v => [{ e with value := some v }]) ++ l' := by
  have hnot := not_mem_of_keyed h
  unfold setValue
  rw [findValue_middle h]
  cases value with
  | some v =>
    dsimp only [Option.elim_some]
    rw [setEntry_middle hnot, List.append_assoc, List.singleton_append]
  | none =>
    dsimp only [Option.elim_none]
    rw [List.eraseP_append_right _ hnot,
      List.eraseP_cons_of_pos (p := fun x : ValueEntry V => x.key == e.key)
        (beq_self_eq_true e.key), List.append_nil]

/-- A value is added at the head of the list. -/
lemma setValue_new (h : key ∉ list.map ValueEntry.key) (value : Option V) :
    setValue list key value = (value.elim [] fun v => [⟨key, some v⟩]) ++ list := by
  have hfind : Pthread.findValue list key = none :=
    Option.not_isSome_iff_eq_none.1 fun hsome => h (findValue_isSome_iff.1 hsome)
  unfold setValue
  rw [hfind]
  cases value <;> rfl

/-- The list is split at the entry with a key. -/
lemma exists_middle (h : key ∈ list.map ValueEntry.key) : ∃ l e l', list = l ++ e :: l' ∧
    e.key = key := by
  obtain ⟨e, he, hkey⟩ := List.mem_map.1 h
  obtain ⟨l, l', hlist⟩ := List.append_of_mem he
  exact ⟨l, e, l', hlist, hkey⟩

/-- The entries behind stay when a value before them is set. -/
lemma setValue_append (h : key ∈ list.map ValueEntry.key) (hkeyed : Keyed (list ++ rest))
    (value : Option V) : setValue (list ++ rest) key value = setValue list key value ++ rest := by
  obtain ⟨l, e, l', rfl, rfl⟩ := exists_middle h
  have hfirst : Keyed (l ++ e :: l') := by
    rw [Keyed, List.map_append] at hkeyed
    exact hkeyed.of_append_left
  rw [setValue_middle hfirst, List.append_assoc, List.cons_append,
    setValue_middle (by rwa [List.append_assoc] at hkeyed)]
  simp only [List.append_assoc]

lemma lookup_middle (h : Keyed (l ++ e :: l')) : lookup (l ++ e :: l') e.key = e.value := by
  rw [lookup, findValue_middle h]
  rfl

lemma beforeKey_middle (h : Keyed (l ++ e :: l')) : beforeKey e.key (l ++ e :: l') = l := by
  have hnot := not_mem_of_keyed h
  rw [beforeKey, List.takeWhile_append_of_pos fun x hx => by simpa using hnot x hx,
    List.takeWhile_cons_of_neg (by simp), List.append_nil]

lemma afterKey_middle (h : Keyed (l ++ e :: l')) : afterKey e.key (l ++ e :: l') = l' := by
  have hnot := not_mem_of_keyed h
  rw [afterKey, List.dropWhile_append_of_pos fun x hx => by simpa using hnot x hx,
    List.dropWhile_cons_of_neg (by simp), List.tail_cons]

end Lists

/-! ### The entries in memory -/

/-- The values that the thread holds and that a destructor was not called with are those of the
list; the values of one key are of the destructor that is running, or that ran first. -/
def Pending (keys : List (KeyEntry (Destructor G V))) (own : ℕ) (held : ℕ → Option V)
    (list : List (ValueEntry V)) (lost : Option V) : Prop :=
  ∀ key, key ∈ list.map ValueEntry.key ∨ destructorOf keys key ≠ none →
    held key = if key = own then lost else lookup list key

/-- The list that is searched is a chain of `xs`, up to `q`; it stands for the entries `h.list`, and
the entries that are walked later are `rest`. -/
structure Rep (keys : List (KeyEntry (Destructor G V))) (held : ℕ → Option V) (own : ℕ)
    (s : Thread V) (xs : List (ℕ × ValueEntry V)) (q : Option ℕ) (h : Held V)
    (rest : List (ValueEntry V)) : Prop where
  chain : SList.Chain s.cells s.first xs q
  sorted : (SList.ids xs).Pairwise (· > ·)
  used : ∀ i ∈ SList.ids xs, i < s.used
  fresh : ∀ i, s.used ≤ i → s.cells i = none
  stop : ∀ i, q = some i → i < s.used ∧ s.cells i = none
  list : xs.map Prod.snd = h.list
  mallocs : s.mallocs = h.mallocs
  keyed : Keyed (h.list ++ rest)
  nonnull : ∀ e ∈ h.list ++ rest, e.value ≠ none
  calls : CallsHeld held s.log
  pending : Pending keys own (heldAfter held s.log) (h.list ++ rest) h.lost
  lost : h.lost ≠ none → destructorOf keys own ≠ none

/-- What is in memory outside of the list stays there, and what is no longer in the list has been
freed. -/
structure Frame (s s' : Thread V) (xs xs' : List (ℕ × ValueEntry V)) : Prop where
  used : s.used ≤ s'.used
  out : ∀ j ∉ SList.ids xs', s'.cells j = if j ∈ SList.ids xs then none else s.cells j
  new : ∀ j ∈ SList.ids xs', j ∈ SList.ids xs ∨ s.used ≤ j

variable {keys : List (KeyEntry (Destructor G V))} {mallocOk : ℕ → Bool} {held : ℕ → Option V}
  {own : ℕ} {s s' s'' : Thread V} {xs xs' xs'' : List (ℕ × ValueEntry V)} {q : Option ℕ}
  {hd hd' : Held V} {rest : List (ValueEntry V)} {key : ℕ} {value : Option V}

lemma Frame.refl (s : Thread V) (xs : List (ℕ × ValueEntry V))
    (hs : ∀ j ∉ SList.ids xs, s'.cells j = s.cells j) (hused : s'.used = s.used) :
    Frame s s' xs xs := by
  refine ⟨Nat.le_of_eq hused.symm, fun j hj => ?_, fun j hj => Or.inl hj⟩
  rw [if_neg hj]
  exact hs j hj

lemma Frame.trans (h1 : Frame s s' xs xs') (h2 : Frame s' s'' xs' xs'')
    (hfresh : ∀ i, s.used ≤ i → s.cells i = none) : Frame s s'' xs xs'' where
  used := Nat.le_trans h1.used h2.used
  out := by
    intro j hj
    rw [h2.out j hj]
    by_cases hj' : j ∈ SList.ids xs'
    · rw [if_pos hj']
      rcases h1.new j hj' with hmem | hge
      · rw [if_pos hmem]
      · rw [hfresh j hge, ite_self]
    · rw [if_neg hj', h1.out j hj']
  new := by
    intro j hj
    rcases h2.new j hj with hmem | hge
    · exact h1.new j hmem
    · exact Or.inr (Nat.le_trans h1.used hge)

lemma Rep.nodup (h : Rep keys held own s xs q hd rest) : (SList.ids xs).Nodup :=
  h.sorted.imp fun hgt => Nat.ne_of_gt hgt

/-- What was freed is not in the list. -/
lemma Rep.not_mem_of_freed {i : ℕ} (h : Rep keys held own s xs q hd rest) (hi : s.cells i = none) :
    i ∉ SList.ids xs := by
  intro hmem
  obtain ⟨node, hnode⟩ := h.chain.allocated hmem
  rw [hi] at hnode
  cases hnode

/-- The search finds the entry with the key, or goes on where the chain ends. -/
lemma Rep.findValue (h : Rep keys held own s xs q hd rest) (key : ℕ) :
    ThreadExit.findValue s key = match xs.find? fun x => x.2.key == key with
      | some x => .ok (some x.1)
      | none => if q = none then .ok none else .error .freed := by
  rw [ThreadExit.findValue,
    SList.find_chain h.chain (by simpa [SList.ids] using SList.length_le h.nodup h.used)]
  cases xs.find? fun x => x.2.key == key with
  | some x => rfl
  | none =>
    cases q with
    | none =>
      dsimp only
      rw [SList.find, if_pos rfl]
    | some a =>
      obtain ⟨hlt, hfreed⟩ := h.stop a rfl
      have hnd : (a :: SList.ids xs).Nodup :=
        List.nodup_cons.2 ⟨h.not_mem_of_freed hfreed, h.nodup⟩
      have hlen : (a :: SList.ids xs).length ≤ s.used :=
        SList.length_le hnd (List.forall_mem_cons.2 ⟨hlt, h.used⟩)
      rw [List.length_cons, SList.ids, List.length_map] at hlen
      obtain ⟨n, hn⟩ : ∃ n, s.used - xs.length = n + 1 := ⟨s.used - xs.length - 1, by omega⟩
      dsimp only
      rw [hn]
      simp only [SList.find, hfreed, reduceCtorEq, if_false]

/-! ### One call -/

lemma mem_setValue {list : List (ValueEntry V)} (hkeyed : Keyed list) {k : ℕ}
    (h : k ∈ (setValue list key value).map ValueEntry.key) :
    k = key ∨ k ∈ list.map ValueEntry.key := by
  by_cases hmem : key ∈ list.map ValueEntry.key
  · obtain ⟨l, e, l', rfl, rfl⟩ := exists_middle hmem
    right
    rw [setValue_middle hkeyed] at h
    cases value with
    | some v => simpa using h
    | none =>
      simp only [Option.elim_none, List.append_nil, List.map_append, List.mem_append] at h
      simp only [List.map_append, List.map_cons, List.mem_append, List.mem_cons]
      exact h.imp_right Or.inr
  · rw [setValue_new hmem] at h
    cases value with
    | some v => simpa using h
    | none => exact Or.inr h

lemma nonnull_setValue {list : List (ValueEntry V)} (hkeyed : Keyed list)
    (h : ∀ e ∈ list, e.value ≠ none) : ∀ e ∈ setValue list key value, e.value ≠ none := by
  intro e he
  by_cases hmem : key ∈ list.map ValueEntry.key
  · obtain ⟨l, x, l', rfl, rfl⟩ := exists_middle hmem
    rw [setValue_middle hkeyed] at he
    simp only [List.mem_append] at he
    rcases he with (he | he) | he
    · exact h e (List.mem_append_left _ he)
    · cases value with
      | some v =>
        rw [List.mem_singleton.1 he]
        exact Option.some_ne_none v
      | none => cases he
    · exact h e (List.mem_append_right _ (List.mem_cons_of_mem _ he))
  · rw [setValue_new hmem] at he
    cases value with
    | some v =>
      rcases List.mem_cons.1 he with rfl | he
      · exact Option.some_ne_none v
      · exact h e he
    | none => exact h e he

/-- A value is set for the key of the destructor, which is lost, or for another one. -/
def LostAfter (keys : List (KeyEntry (Destructor G V))) (own key : ℕ) (value lost : Option V)
    (lost' : Option V) : Prop :=
  if key = own then lost' = value ∧ destructorOf keys own ≠ none else lost' = lost

lemma Pending.set {H : ℕ → Option V} {list : List (ValueEntry V)} {lost lost' : Option V}
    (h : Pending keys own H list lost) (hkeyed : Keyed list)
    (hlost : LostAfter keys own key value lost lost') :
    Pending keys own (Function.update H key value) (setValue list key value) lost' := by
  intro k hk
  rw [LostAfter] at hlost
  by_cases hkey : k = key
  · subst hkey
    rw [Function.update_self, lookup_setValue hkeyed, if_pos rfl]
    split_ifs at hlost ⊢ with hown
    · exact hlost.1.symm
    · rfl
  · rw [Function.update_of_ne hkey, lookup_setValue hkeyed, if_neg hkey,
      h k (hk.imp_left fun hmem => (mem_setValue hkeyed hmem).resolve_left hkey)]
    split_ifs at hlost ⊢ with h1 h2
    · exact absurd (h2.trans h1.symm) (Ne.symm hkey)
    · exact hlost.symm
    · rfl
    · rfl

/-- The list after a value was set. -/
lemma Rep.afterSet {lost' : Option V} (h : Rep keys held own s xs q hd rest)
    (hchain : SList.Chain s'.cells s'.first xs' q) (hsorted : (SList.ids xs').Pairwise (· > ·))
    (hused : ∀ i ∈ SList.ids xs', i < s'.used) (hframe : Frame s s' xs xs')
    (hlist : xs'.map Prod.snd = setValue hd.list key value)
    (happ : setValue (hd.list ++ rest) key value = setValue hd.list key value ++ rest)
    (hlog : s'.log = s.log ++ [.set key value])
    (hlost : LostAfter keys own key value hd.lost lost') :
    Rep keys held own s' xs' q ⟨setValue hd.list key value, s'.mallocs, lost'⟩ rest where
  chain := hchain
  sorted := hsorted
  used := hused
  fresh := by
    intro i hi
    have hnot : i ∉ SList.ids xs' := fun hmem => Nat.not_lt.2 hi (hused i hmem)
    rw [hframe.out i hnot, h.fresh i (Nat.le_trans hframe.used hi), ite_self]
  stop := by
    intro i hq
    obtain ⟨hlt, hfreed⟩ := h.stop i hq
    have hnot : i ∉ SList.ids xs' := fun hmem =>
      (hframe.new i hmem).elim (h.not_mem_of_freed hfreed) fun hge => Nat.not_lt.2 hge hlt
    refine ⟨Nat.lt_of_lt_of_le hlt hframe.used, ?_⟩
    rw [hframe.out i hnot, hfreed, ite_self]
  list := hlist
  mallocs := rfl
  keyed := happ ▸ h.keyed.setValue key value
  nonnull := happ ▸ nonnull_setValue h.keyed h.nonnull
  calls := by
    rw [hlog, callsHeld_append]
    exact ⟨h.calls, trivial⟩
  pending := by
    rw [hlog, heldAfter_append]
    exact happ ▸ h.pending.set h.keyed hlost
  lost := by
    intro hne
    rw [LostAfter] at hlost
    split_ifs at hlost
    · exact hlost.2
    · exact h.lost (hlost ▸ hne)

/-- What a call leaves of a list: an entry stays at its place unless it is removed, and is freed
then. -/
structure Keeps (key : ℕ) (value : Option V) (s' : Thread V) (xs xs' : List (ℕ × ValueEntry V)) :
    Prop where
  stays : ∀ x ∈ xs, x.2.key ≠ key ∨ value ≠ none → ∃ e, (x.1, e) ∈ xs' ∧ e.key = x.2.key
  freed : value = none → ∀ x ∈ xs, x.2.key = key → s'.cells x.1 = none

variable {i : ℕ} {e : ValueEntry V} {l l' : List (ℕ × ValueEntry V)}

lemma Rep.keyed_list (h : Rep keys held own s xs q hd rest) : Keyed (xs.map Prod.snd) := by
  have hkeyed := h.keyed
  rw [Keyed, List.map_append] at hkeyed
  rw [h.list]
  exact hkeyed.of_append_left

/-- The value of an entry is set where it stands. -/
lemma Rep.setFound_some (h : Rep keys held own s (l ++ (i, e) :: l') q hd rest)
    (mallocOk : ℕ → Bool) (v : V) :
    ∃ s', setFound mallocOk s e.key (some v) (some i) = .ok (.ok, s') ∧
      s'.mallocs = s.mallocs ∧
      Frame s s' (l ++ (i, e) :: l') (l ++ (i, { e with value := some v }) :: l') ∧
      Keeps e.key (some v) s' (l ++ (i, e) :: l') (l ++ (i, { e with value := some v }) :: l') ∧
      ∀ lost', LostAfter keys own e.key (some v) hd.lost lost' →
        Rep keys held own s' (l ++ (i, { e with value := some v }) :: l') q
          ⟨setValue hd.list e.key (some v), s'.mallocs, lost'⟩ rest := by
  obtain ⟨cells, hcells, hchain, hframe⟩ :=
    h.chain.modify h.nodup fun e => { e with value := some v }
  have hids : SList.ids (l ++ (i, { e with value := some v }) :: l') =
      SList.ids (l ++ (i, e) :: l') := by simp
  have hkeyed := h.keyed_list
  rw [List.map_append, List.map_cons] at hkeyed
  have hkey : e.key ∈ hd.list.map ValueEntry.key := by simp [← h.list]
  have hout : Frame s { s with cells := cells, log := s.log ++ [.set e.key (some v)] }
      (l ++ (i, e) :: l') (l ++ (i, { e with value := some v }) :: l') := by
    refine ⟨Nat.le_refl _, fun j hj => ?_, fun j hj => Or.inl (hids ▸ hj)⟩
    rw [hids] at hj
    rw [if_neg hj]
    exact hframe j fun hji => hj (hji ▸ by simp)
  refine ⟨{ s with cells := cells, log := s.log ++ [.set e.key (some v)] }, ?_, rfl, hout, ?_, ?_⟩
  · simp only [setFound, hcells]
  · refine ⟨fun x hx _ => ?_, fun hnone => absurd hnone (Option.some_ne_none v)⟩
    rw [List.mem_append, List.mem_cons] at hx
    rcases hx with hx | rfl | hx
    · exact ⟨x.2, List.mem_append_left _ hx, rfl⟩
    · exact ⟨{ e with value := some v }, by simp, rfl⟩
    · exact ⟨x.2, List.mem_append_right _ (List.mem_cons_of_mem _ hx), rfl⟩
  · intro lost' hlost
    refine h.afterSet hchain (hids ▸ h.sorted) (hids ▸ h.used) hout ?_
      (setValue_append hkey h.keyed _) rfl hlost
    rw [← h.list, List.map_append, List.map_cons, List.map_append, List.map_cons,
      setValue_middle hkeyed]
    simp

/-- An entry is removed, and freed. -/
lemma Rep.setFound_none (h : Rep keys held own s (l ++ (i, e) :: l') q hd rest)
    (mallocOk : ℕ → Bool) : ∃ s', setFound mallocOk s e.key none (some i) = .ok (.ok, s') ∧
      s'.mallocs = s.mallocs ∧
      Frame s s' (l ++ (i, e) :: l') (l ++ l') ∧ Keeps e.key none s' (l ++ (i, e) :: l') (l ++ l') ∧
      ∀ lost', LostAfter keys own e.key none hd.lost lost' →
        Rep keys held own s' (l ++ l') q ⟨setValue hd.list e.key none, s'.mallocs, lost'⟩ rest := by
  have hlen := SList.length_le h.nodup h.used
  rw [SList.ids, List.length_map, List.length_append] at hlen
  obtain ⟨first, cells, hcells, hchain, hframe⟩ :=
    h.chain.remove (n := s.used) h.nodup (by omega)
  have hnd := h.nodup
  rw [SList.ids_append, SList.ids_cons, List.nodup_middle, List.nodup_cons] at hnd
  obtain ⟨hnot, hnd⟩ := hnd
  rw [← SList.ids_append] at hnot hnd
  have hkeyed := h.keyed_list
  rw [List.map_append, List.map_cons] at hkeyed
  have hkey : e.key ∈ hd.list.map ValueEntry.key := by simp [← h.list]
  obtain ⟨node, hnode⟩ : ∃ node, cells i = some node := by
    obtain ⟨node, hnode⟩ := h.chain.allocated (i := i) (by simp)
    refine ⟨node, ?_⟩
    rw [hframe i fun hmem => hnot ?_, hnode]
    rw [SList.ids_append]
    exact List.mem_append_left _ hmem
  let s' : Thread V := { s with
    cells := Function.update cells i none, first := first, log := s.log ++ [.set e.key none] }
  have hmem : ∀ j, j ∈ SList.ids (l ++ (i, e) :: l') ↔ j = i ∨ j ∈ SList.ids (l ++ l') := by
    intro j
    simp only [SList.ids_append, SList.ids_cons, List.mem_append, List.mem_cons]
    exact or_left_comm
  have hout : Frame s s' (l ++ (i, e) :: l') (l ++ l') := by
    refine ⟨Nat.le_refl _, fun j hj => ?_, fun j hj => Or.inl ((hmem j).2 (Or.inr hj))⟩
    by_cases hji : j = i
    · rw [if_pos ((hmem j).2 (Or.inl hji)), hji]
      exact Function.update_self _ _ _
    · rw [if_neg fun hin => ((hmem j).1 hin).elim hji hj]
      refine (Function.update_of_ne hji _ _).trans (hframe j fun hin => hj ?_)
      rw [SList.ids_append]
      exact List.mem_append_left _ hin
  refine ⟨s', ?_, rfl, hout, ⟨?_, ?_⟩, ?_⟩
  · simp only [setFound, hcells, SList.free, hnode]
    rfl
  · rintro x hx (hne | hne)
    · rw [List.mem_append, List.mem_cons] at hx
      rcases hx with hx | rfl | hx
      · exact ⟨x.2, List.mem_append_left _ hx, rfl⟩
      · exact absurd rfl hne
      · exact ⟨x.2, List.mem_append_right _ hx, rfl⟩
    · exact absurd rfl hne
  · intro _ x hx hxkey
    have hxi : x.1 = i := by
      by_contra hne
      have hin : x.2 ∈ l.map Prod.snd ++ l'.map Prod.snd := by
        rw [List.mem_append, List.mem_cons] at hx
        rcases hx with hx | rfl | hx
        · exact List.mem_append_left _ (List.mem_map_of_mem hx)
        · exact absurd rfl hne
        · exact List.mem_append_right _ (List.mem_map_of_mem hx)
      exact not_mem_middle hkeyed (hxkey ▸ List.mem_map_of_mem hin)
    rw [hxi]
    exact Function.update_self _ _ _
  · intro lost' hlost
    refine h.afterSet ?_ (h.sorted.sublist ?_) ?_ hout ?_ (setValue_append hkey h.keyed _) rfl hlost
    · refine hchain.congr fun j hj => Function.update_of_ne ?_ _ _
      rintro rfl
      exact hnot hj
    · exact ((List.sublist_cons_self _ _).append_left _).map _
    · exact fun j hj => h.used j ((hmem j).2 (Or.inr hj))
    · rw [← h.list, List.map_append, List.map_append, List.map_cons, setValue_middle hkeyed]
      simp

/-- An entry is added at the head of the list. -/
lemma Rep.setFound_new (h : Rep keys held own s xs q hd []) {mallocOk : ℕ → Bool} (v : V)
    (hmalloc : mallocOk s.mallocs = true) (hkey : key ∉ hd.list.map ValueEntry.key) :
    ∃ s', setFound mallocOk s key (some v) none = .ok (.ok, s') ∧ s'.mallocs = s.mallocs + 1 ∧
      Frame s s' xs ((s.used, ⟨key, some v⟩) :: xs) ∧
      Keeps key (some v) s' xs ((s.used, ⟨key, some v⟩) :: xs) ∧
      ∀ lost', LostAfter keys own key (some v) hd.lost lost' →
        Rep keys held own s' ((s.used, ⟨key, some v⟩) :: xs) q
          ⟨setValue hd.list key (some v), s'.mallocs, lost'⟩ [] := by
  let s' : Thread V := ⟨Function.update s.cells s.used (some ⟨⟨key, some v⟩, s.first⟩), some s.used,
    s.used + 1, s.mallocs + 1, s.log ++ [.set key (some v)]⟩
  have hnot : s.used ∉ SList.ids xs := fun hmem => Nat.lt_irrefl _ (h.used _ hmem)
  have hcells : ∀ j, j ≠ s.used → s'.cells j = s.cells j := fun j hj => Function.update_of_ne hj _ _
  have hout : Frame s s' xs ((s.used, ⟨key, some v⟩) :: xs) := by
    refine ⟨Nat.le_succ _, fun j hj => ?_, fun j hj => ?_⟩
    · rw [SList.ids_cons, List.mem_cons, not_or] at hj
      rw [if_neg hj.2, hcells j hj.1]
    · rcases List.mem_cons.1 hj with rfl | hj
      · exact Or.inr (Nat.le_refl _)
      · exact Or.inl hj
  refine ⟨s', ?_, rfl, hout, ⟨fun x hx _ => ?_, fun hnone => absurd hnone (Option.some_ne_none v)⟩,
    ?_⟩
  · simp only [setFound, hmalloc, if_true]
    rfl
  · exact ⟨x.2, List.mem_cons_of_mem _ hx, rfl⟩
  · intro lost' hlost
    refine h.afterSet ⟨rfl, s.first, Function.update_self _ _ _, ?_⟩
      (List.pairwise_cons.2 ⟨h.used, h.sorted⟩) ?_ hout ?_ ?_ rfl hlost
    · refine h.chain.congr fun j hj => hcells j ?_
      rintro rfl
      exact hnot hj
    · exact List.forall_mem_cons.2
        ⟨Nat.lt_succ_self _, fun j hj => Nat.lt_succ_of_lt (h.used j hj)⟩
    · rw [setValue_new hkey, ← h.list]
      rfl
    · rw [List.append_nil, List.append_nil]

lemma has_iff : hd.has key = true ↔ key ∈ hd.list.map ValueEntry.key := findValue_isSome_iff

/-- An entry with the key is found. -/
lemma Rep.findValue_has (h : Rep keys held own s xs q hd rest) (hhas : hd.has key = true) :
    ∃ l i e l', xs = l ++ (i, e) :: l' ∧ e.key = key ∧
      ThreadExit.findValue s key = .ok (some i) := by
  rw [has_iff, ← h.list] at hhas
  obtain ⟨e, he, hkey⟩ := List.mem_map.1 hhas
  obtain ⟨⟨i, e'⟩, hx, rfl⟩ := List.mem_map.1 he
  obtain ⟨l, l', rfl⟩ := List.append_of_mem hx
  have hkeyed := h.keyed_list
  rw [List.map_append, List.map_cons] at hkeyed
  have hfind : (l ++ (i, e') :: l').find? (fun x => x.2.key == key) = some (i, e') := by
    rw [List.find?_eq_some_iff_append]
    refine ⟨by simpa using hkey, l, l', rfl, fun x hx => ?_⟩
    have hne := not_mem_of_keyed hkeyed x.2 (List.mem_map_of_mem hx)
    simpa [← hkey] using hne
  refine ⟨l, i, e', l', rfl, hkey, ?_⟩
  rw [h.findValue, hfind]

/-- No entry with the key is found, unless the search gets to one that was freed. -/
lemma Rep.findValue_not_has (h : Rep keys held own s xs q hd rest) (hhas : ¬ hd.has key = true) :
    ThreadExit.findValue s key = if q = none then .ok none else .error .freed := by
  have hfind : xs.find? (fun x => x.2.key == key) = none := by
    rw [List.find?_eq_none]
    intro x hx heq
    refine hhas (has_iff.2 ?_)
    rw [← h.list, ← beq_iff_eq.1 heq]
    exact List.mem_map_of_mem (List.mem_map_of_mem hx)
  rw [h.findValue, hfind]

lemma Rep.getspecific_has (h : Rep keys held own s xs q hd rest) (hhas : hd.has key = true) :
    pthreadGetspecific s key = .ok (lookup hd.list key) := by
  obtain ⟨l, i, e, l', rfl, rfl, hfind⟩ := h.findValue_has hhas
  have hkeyed := h.keyed_list
  rw [List.map_append, List.map_cons] at hkeyed
  obtain ⟨r, -, -, next, hi, -⟩ := SList.chain_append.1 h.chain
  dsimp only at hi
  rw [← h.list, List.map_append, List.map_cons, lookup_middle hkeyed, pthreadGetspecific, hfind]
  simp only [SList.read, hi, Except.map]

lemma Rep.getspecific_not_has (h : Rep keys held own s xs q hd rest) (hhas : ¬ hd.has key = true) :
    pthreadGetspecific s key = if q = none then .ok (lookup hd.list key) else .error .freed := by
  have hlookup : lookup hd.list key = none := lookup_eq_none fun hmem => hhas (has_iff.2 hmem)
  rw [pthreadGetspecific, h.findValue_not_has hhas]
  split_ifs
  · rw [hlookup]
  · rfl

/-- A value is set for a key that has one. -/
lemma Rep.setspecific_has (h : Rep keys held own s xs q hd rest) (mallocOk : ℕ → Bool)
    (hlive : (findKey keys key).isSome) (hhas : hd.has key = true) (value : Option V) :
    ∃ s' xs', pthreadSetspecific keys mallocOk s key value = .ok (.ok, s') ∧ Frame s s' xs xs' ∧
      Keeps key value s' xs xs' ∧ ∀ lost', LostAfter keys own key value hd.lost lost' →
        Rep keys held own s' xs' q ⟨setValue hd.list key value, hd.mallocs, lost'⟩ rest := by
  obtain ⟨l, i, e, l', rfl, rfl, hfind⟩ := h.findValue_has hhas
  obtain ⟨ke, hke⟩ := Option.isSome_iff_exists.1 hlive
  rw [← h.mallocs]
  simp only [pthreadSetspecific, hke, hfind]
  cases value with
  | some v =>
    obtain ⟨s', hs', hmallocs, hframe, hkeeps, hrep⟩ := h.setFound_some mallocOk v
    exact ⟨s', _, hs', hframe, hkeeps, hmallocs ▸ hrep⟩
  | none =>
    obtain ⟨s', hs', hmallocs, hframe, hkeeps, hrep⟩ := h.setFound_none mallocOk
    exact ⟨s', _, hs', hframe, hkeeps, hmallocs ▸ hrep⟩

/-- While no entry of the list was freed, the list that is in memory changes as a list of entries
does. -/
lemma Rep.setspecific_first (h : Rep keys held own s xs none hd []) (mallocOk : ℕ → Bool)
    (hlive : (findKey keys key).isSome) (hne : key ≠ own) (value : Option V) :
    ∃ s' xs', pthreadSetspecific keys mallocOk s key value =
        .ok ((hd.set mallocOk key value).1, s') ∧ Frame s s' xs xs' ∧ Keeps key value s' xs xs' ∧
      Rep keys held own s' xs' none (hd.set mallocOk key value).2 [] := by
  have hlost : LostAfter keys own key value hd.lost hd.lost := by rw [LostAfter, if_neg hne]
  by_cases hhas : hd.has key = true
  · obtain ⟨s', xs', hs', hframe, hkeeps, hrep⟩ := h.setspecific_has mallocOk hlive hhas value
    rw [Held.set, if_pos (Or.inl hhas)]
    exact ⟨s', xs', hs', hframe, hkeeps, hrep _ hlost⟩
  · obtain ⟨ke, hke⟩ := Option.isSome_iff_exists.1 hlive
    have hkey : key ∉ hd.list.map ValueEntry.key := fun hmem => hhas (has_iff.2 hmem)
    have hkeeps : ∀ s', Keeps key value s' xs xs := by
      refine fun s' => ⟨fun x hx _ => ⟨x.2, hx, rfl⟩, fun _ x hx hxkey => absurd ?_ hkey⟩
      rw [← h.list, ← hxkey]
      exact List.mem_map_of_mem (List.mem_map_of_mem hx)
    have hrun : pthreadSetspecific keys mallocOk s key value =
        setFound mallocOk s key value none := by
      simp only [pthreadSetspecific, hke, h.findValue_not_has hhas, if_true]
    rw [hrun]
    cases value with
    | none =>
      rw [Held.set, if_pos (Or.inr rfl)]
      have hframe : Frame s { s with log := s.log ++ [.set key none] } xs xs :=
        Frame.refl s xs (fun _ _ => rfl) rfl
      have hsame : setValue hd.list key none = hd.list := setValue_new hkey none
      refine ⟨{ s with log := s.log ++ [.set key none] }, xs, rfl, hframe, hkeeps _, ?_⟩
      rw [← h.mallocs]
      exact h.afterSet h.chain h.sorted h.used hframe (by rw [hsame, h.list]) (by simp) rfl hlost
    | some v =>
      rw [Held.set, if_neg (by simp [hhas]), ← h.mallocs]
      by_cases hmalloc : mallocOk s.mallocs = true
      · obtain ⟨s', hs', hmallocs, hframe, hk, hrep⟩ := h.setFound_new v hmalloc hkey
        rw [if_pos hmalloc]
        exact ⟨s', _, hs', hframe, hk, hmallocs ▸ hrep _ hlost⟩
      · rw [if_neg hmalloc]
        refine ⟨{ s with mallocs := s.mallocs + 1 }, xs, ?_, Frame.refl s xs (fun _ _ => rfl) rfl,
          hkeeps _, ?_⟩
        · simp only [setFound, if_neg hmalloc]
        · exact ⟨h.chain, h.sorted, h.used, h.fresh, h.stop, h.list, rfl, h.keyed, h.nonnull,
            h.calls, h.pending, h.lost⟩

/-! ### One destructor -/

/-- An entry that was freed stays so. -/
lemma setFound_freed {entry : Option ℕ} {ret : SetRet} {c : ℕ}
    (h : setFound mallocOk s key value entry = .ok (ret, s')) (hc : s.cells c = none)
    (hlt : c < s.used) : s'.cells c = none ∧ c < s'.used := by
  cases entry with
  | some entry =>
    cases value with
    | some v =>
      simp only [setFound] at h
      split at h
      · cases h
      · next hm =>
        cases h
        exact ⟨SList.modify_freed hm hc, hlt⟩
    | none =>
      simp only [setFound] at h
      split at h
      · cases h
      · next hm =>
        split at h
        · cases h
        · next hf =>
          cases h
          exact ⟨SList.free_freed hf (SList.remove_freed hm hc), hlt⟩
  | none =>
    cases value with
    | some v =>
      simp only [setFound] at h
      split at h
      · cases h
        exact ⟨(Function.update_of_ne (Nat.ne_of_lt hlt) _ _).trans hc, Nat.lt_succ_of_lt hlt⟩
      · cases h
        exact ⟨hc, hlt⟩
    | none =>
      cases h
      exact ⟨hc, hlt⟩

lemma setspecific_freed {ret : SetRet} {c : ℕ}
    (h : pthreadSetspecific keys mallocOk s key value = .ok (ret, s')) (hc : s.cells c = none)
    (hlt : c < s.used) : s'.cells c = none ∧ c < s'.used := by
  rw [pthreadSetspecific] at h
  split at h
  · cases h
    exact ⟨hc, hlt⟩
  · split at h
    · cases h
    · exact setFound_freed h hc hlt

lemma run_freed {p : Prog G V} {g' : G} {c : ℕ} (h : p.run keys mallocOk s = .ok (g', s'))
    (hc : s.cells c = none) (hlt : c < s.used) : s'.cells c = none := by
  induction p generalizing s with
  | done g =>
    cases h
    exact hc
  | getspecific key k ih =>
    rw [Prog.run] at h
    split at h
    · cases h
    · exact ih _ h hc hlt
  | setspecific key value k ih =>
    rw [Prog.run] at h
    split at h
    · cases h
    · next hset =>
      obtain ⟨hc', hlt'⟩ := setspecific_freed hset hc hlt
      exact ih _ h hc' hlt'

/-- The first destructor does to memory what it does to a list of entries; but if it removes its own
entry, that has been freed when it returns. -/
lemma Rep.first (mallocOk : ℕ → Bool) (p : Prog G V) {c : ℕ}
    (h : Rep keys held own s xs none hd []) (hc : ∃ e, (c, e) ∈ xs ∧ e.key = own)
    (hown : destructorOf keys own ≠ none) :
    match p.first keys mallocOk own hd with
    | none => ∀ g' s', p.run keys mallocOk s = .ok (g', s') → s'.cells c = none
    | some (g', hd') => ∃ s' xs', p.run keys mallocOk s = .ok (g', s') ∧ Frame s s' xs xs' ∧
        (∃ e, (c, e) ∈ xs' ∧ e.key = own) ∧ Rep keys held own s' xs' none hd' [] := by
  induction p generalizing s xs hd with
  | done g => exact ⟨s, xs, rfl, Frame.refl s xs (fun _ _ => rfl) rfl, hc, h⟩
  | getspecific key k ih =>
    have hget : pthreadGetspecific s key = .ok (lookup hd.list key) := by
      by_cases hhas : hd.has key = true
      · exact h.getspecific_has hhas
      · rw [h.getspecific_not_has hhas, if_pos rfl]
    simp only [Prog.first, Prog.run, hget]
    exact ih _ h hc
  | setspecific key value k ih =>
    cases hkey : findKey keys key with
    | none =>
      simp only [Prog.first, Prog.run, pthreadSetspecific, hkey]
      exact ih _ h hc
    | some ke =>
      have hlive : (findKey keys key).isSome := by rw [hkey]; rfl
      obtain ⟨e, he, hekey⟩ := hc
      by_cases hne : key = own
      · subst hne
        have hhas : hd.has key = true := by
          rw [has_iff, ← h.list, ← hekey]
          exact List.mem_map_of_mem (List.mem_map_of_mem he)
        obtain ⟨s', xs', hs', hframe, hkeeps, hrep⟩ :=
          h.setspecific_has mallocOk hlive hhas value
        simp only [Prog.first, Prog.run, hkey, hs', if_true]
        cases value with
        | none =>
          have hlt : c < s.used := h.used c (List.mem_map_of_mem he)
          exact fun g' s'' hrun =>
            run_freed hrun (hkeeps.freed rfl _ he hekey) (Nat.lt_of_lt_of_le hlt hframe.used)
        | some v =>
          obtain ⟨e', he', hkey'⟩ := hkeeps.stays _ he (Or.inr (Option.some_ne_none v))
          have hrep' := hrep (some v) (by rw [LostAfter, if_pos rfl]; exact ⟨rfl, hown⟩)
          have hrest := ih .ok hrep' ⟨e', he', hkey'.trans hekey⟩
          dsimp only
          split at hrest
          · exact hrest
          · obtain ⟨s'', xs'', hrun, hframe', hc'', hrep''⟩ := hrest
            exact ⟨s'', xs'', hrun, hframe.trans hframe' h.fresh, hc'', hrep''⟩
      · obtain ⟨s', xs', hs', hframe, hkeeps, hrep⟩ := h.setspecific_first mallocOk hlive hne value
        obtain ⟨e', he', hkey'⟩ := hkeeps.stays _ he (Or.inl fun heq => hne (heq.symm.trans hekey))
        simp only [Prog.first, Prog.run, hkey, hs', if_neg hne]
        have hrest := ih (hd.set mallocOk key value).1 hrep ⟨e', he', hkey'.trans hekey⟩
        split at hrest
        · exact hrest
        · obtain ⟨s'', xs'', hrun, hframe', hc'', hrep''⟩ := hrest
          exact ⟨s'', xs'', hrun, hframe.trans hframe' h.fresh, hc'', hrep''⟩

/-- A later destructor reads an entry that was freed, or does to memory what it does to a list. -/
lemma Rep.later (mallocOk : ℕ → Bool) (p : Prog G V) {a : ℕ}
    (h : Rep keys held own s xs (some a) hd rest) (hown : own ∉ hd.list.map ValueEntry.key) :
    match p.later keys hd with
    | none => ∃ e, p.run keys mallocOk s = .error e
    | some (g', hd') => ∃ s' xs', p.run keys mallocOk s = .ok (g', s') ∧ Frame s s' xs xs' ∧
        own ∉ hd'.list.map ValueEntry.key ∧ Rep keys held own s' xs' (some a) hd' rest := by
  induction p generalizing s xs hd with
  | done g => exact ⟨s, xs, rfl, Frame.refl s xs (fun _ _ => rfl) rfl, hown, h⟩
  | getspecific key k ih =>
    by_cases hhas : hd.has key = true
    · simp only [Prog.later, Prog.run, h.getspecific_has hhas, if_pos hhas]
      exact ih _ h hown
    · simp only [Prog.later, Prog.run, h.getspecific_not_has hhas, if_neg hhas, reduceCtorEq,
        if_false]
      exact ⟨_, rfl⟩
  | setspecific key value k ih =>
    cases hkey : findKey keys key with
    | none =>
      simp only [Prog.later, Prog.run, pthreadSetspecific, hkey]
      exact ih _ h hown
    | some ke =>
      have hlive : (findKey keys key).isSome := by rw [hkey]; rfl
      by_cases hhas : hd.has key = true
      · have hne : key ≠ own := fun heq => hown (heq ▸ has_iff.1 hhas)
        obtain ⟨s', xs', hs', hframe, -, hrep⟩ := h.setspecific_has mallocOk hlive hhas value
        have hrep' := hrep hd.lost (by rw [LostAfter, if_neg hne])
        have hown' : own ∉ (setValue hd.list key value).map ValueEntry.key := fun hmem =>
          (mem_setValue (h.list ▸ h.keyed_list) hmem).elim (fun heq => hne heq.symm) hown
        simp only [Prog.later, Prog.run, hkey, hs', if_pos hhas]
        have hrest := ih .ok hrep' hown'
        split at hrest
        · exact hrest
        · obtain ⟨s'', xs'', hrun, hframe', hown'', hrep''⟩ := hrest
          exact ⟨s'', xs'', hrun, hframe.trans hframe' h.fresh, hown'', hrep''⟩
      · simp only [Prog.later, Prog.run, pthreadSetspecific, hkey, h.findValue_not_has hhas,
          if_neg hhas, reduceCtorEq, if_false]
        exact ⟨_, rfl⟩

/-! ### The entries that are walked -/

lemma lookup_middle_ne {list list' : List (ValueEntry V)} {e : ValueEntry V} (hne : key ≠ e.key) :
    lookup (list ++ e :: list') key = lookup (list ++ list') key := by
  induction list with
  | nil => rw [List.nil_append, List.nil_append, lookup_cons, if_neg (Ne.symm hne)]
  | cons x list ih => rw [List.cons_append, List.cons_append, lookup_cons, lookup_cons, ih]

/-- An entry leaves the list: its key has no destructor, or is the one that lost its value. -/
lemma Pending.drop {H : ℕ → Option V} {list list' : List (ValueEntry V)} {e : ValueEntry V}
    {lost : Option V} (h : Pending keys own H (list ++ e :: list') lost)
    (hkeyed : Keyed (list ++ e :: list')) (hdrop : destructorOf keys e.key = none ∨ e.key = own) :
    Pending keys own H (list ++ list') lost := by
  intro k hk
  have hsub : k ∈ (list ++ list').map ValueEntry.key →
      k ∈ (list ++ e :: list').map ValueEntry.key := by
    simp only [List.map_append, List.map_cons, List.mem_append, List.mem_cons]
    exact Or.imp_right Or.inr
  rw [h k (hk.imp_left hsub)]
  by_cases hown : k = own
  · rw [if_pos hown, if_pos hown]
  · rw [if_neg hown, if_neg hown, lookup_middle_ne]
    rintro rfl
    rcases hdrop with hnone | heq
    · exact not_mem_middle hkeyed (hk.resolve_right fun hne => hne hnone)
    · exact hown heq

/-- A destructor is called with the value of an entry, which leaves the list. -/
lemma Pending.call {H : ℕ → Option V} {list list' : List (ValueEntry V)} {e : ValueEntry V}
    {lost : Option V} (h : Pending keys own H (list ++ e :: list') lost)
    (hkeyed : Keyed (list ++ e :: list')) (hne : e.key ≠ own) :
    H e.key = e.value ∧
      Pending keys own (Function.update H e.key none) (list ++ list') lost := by
  have hmem : e.key ∈ (list ++ e :: list').map ValueEntry.key := by simp
  refine ⟨?_, fun k hk => ?_⟩
  · rw [h _ (Or.inl hmem), if_neg hne, lookup_middle hkeyed]
  · by_cases hkey : k = e.key
    · subst hkey
      rw [Function.update_self, if_neg hne, lookup_eq_none (not_mem_middle hkeyed)]
    · have hsub : k ∈ (list ++ list').map ValueEntry.key →
          k ∈ (list ++ e :: list').map ValueEntry.key := by
        simp only [List.map_append, List.map_cons, List.mem_append, List.mem_cons]
        exact Or.imp_right Or.inr
      rw [Function.update_of_ne hkey, h k (hk.imp_left hsub), lookup_middle_ne hkey]

/-- The entries that are walked later are a chain of their own, and there are no others. -/
structure Ahead (s : Thread V) (xs : List (ℕ × ValueEntry V)) (p : Option ℕ)
    (ys : List (ℕ × ValueEntry V)) : Prop where
  chain : SList.Chain s.cells p ys none
  nodup : (SList.ids ys).Nodup
  apart : ∀ i ∈ SList.ids ys, i ∉ SList.ids xs ∧ i < s.used
  others : ∀ i, s.cells i ≠ none → i ∈ SList.ids xs ∨ i ∈ SList.ids ys

/-- What a destructor does to its list leaves the entries ahead alone. -/
lemma Ahead.frame {p : Option ℕ} {ys : List (ℕ × ValueEntry V)} (h : Ahead s xs p ys)
    (hframe : Frame s s' xs xs') : Ahead s' xs' p ys := by
  have hnot : ∀ i ∈ SList.ids ys, i ∉ SList.ids xs' := fun i hi hmem =>
    (hframe.new i hmem).elim (h.apart i hi).1 fun hge => Nat.not_lt.2 hge (h.apart i hi).2
  refine ⟨h.chain.congr fun i hi => ?_, h.nodup, fun i hi => ⟨hnot i hi, ?_⟩, fun i hne => ?_⟩
  · rw [hframe.out i (hnot i hi), if_neg (h.apart i hi).1]
  · exact Nat.lt_of_lt_of_le (h.apart i hi).2 hframe.used
  · by_cases hi : i ∈ SList.ids xs'
    · exact Or.inl hi
    · rw [hframe.out i hi] at hne
      by_cases hxs : i ∈ SList.ids xs
      · rw [if_pos hxs] at hne
        exact absurd rfl hne
      · rw [if_neg hxs] at hne
        exact Or.inr ((h.others i hne).resolve_left hxs)

/-- An entry that is not in the list is freed. -/
lemma Rep.free {c : ℕ} (h : Rep keys held own s xs q hd rest) (hc : c ∉ SList.ids xs) :
    Rep keys held own { s with cells := Function.update s.cells c none } xs q hd rest := by
  refine ⟨h.chain.congr fun i hi => Function.update_of_ne ?_ _ _, h.sorted, h.used,
    fun i hi => SList.update_none_freed c (h.fresh i hi),
    fun i hq => ⟨(h.stop i hq).1, SList.update_none_freed c (h.stop i hq).2⟩, h.list, h.mallocs,
    h.keyed, h.nonnull, h.calls, h.pending, h.lost⟩
  rintro rfl
  exact hc hi

/-- The first of the entries ahead is freed. -/
lemma Ahead.free {c : ℕ} {e : ValueEntry V} {p : Option ℕ} {ys : List (ℕ × ValueEntry V)}
    (h : Ahead s xs p ((c, e) :: ys)) : ∃ next, s.cells c = some ⟨e, next⟩ ∧
      Ahead { s with cells := Function.update s.cells c none } xs next ys := by
  obtain ⟨-, next, hc, hchain⟩ := h.chain
  obtain ⟨hnot, hnodup⟩ := List.nodup_cons.1 h.nodup
  refine ⟨next, hc, hchain.congr fun i hi => Function.update_of_ne ?_ _ _, hnodup,
    fun i hi => h.apart i (List.mem_cons_of_mem _ hi), fun i hne => ?_⟩
  · rintro rfl
    exact hnot hi
  · by_cases hic : i = c
    · subst hic
      exact absurd (Function.update_self _ _ _) hne
    · have hne' : s.cells i ≠ none := by
        have hsame : Function.update s.cells c none i = s.cells i := Function.update_of_ne hic _ _
        exact hsame ▸ hne
      refine (h.others i hne').imp_right fun hmem => ?_
      exact (List.mem_cons.1 hmem).resolve_left hic

lemma nonnull_middle {list list' : List (ValueEntry V)} {e : ValueEntry V}
    (h : ∀ x ∈ list ++ e :: list', x.value ≠ none) : ∀ x ∈ list ++ list', x.value ≠ none := by
  intro x hx
  refine h x ?_
  rw [List.mem_append] at hx
  rw [List.mem_append, List.mem_cons]
  exact hx.imp_right Or.inr

/-- An entry is passed whose key has no destructor. -/
lemma Rep.skip {e : ValueEntry V} (h : Rep keys held own s xs q hd (e :: rest))
    (hdtor : destructorOf keys e.key = none) : Rep keys held own s xs q hd rest :=
  ⟨h.chain, h.sorted, h.used, h.fresh, h.stop, h.list, h.mallocs, keyed_middle h.keyed,
    nonnull_middle h.nonnull, h.calls, h.pending.drop h.keyed (Or.inl hdtor), h.lost⟩

/-- The destructor of an entry's key is called. -/
lemma Rep.call {e : ValueEntry V} (h : Rep keys held own s xs q hd (e :: rest))
    (hne : e.key ≠ own) :
    Rep keys held own { s with log := s.log ++ [.call e.key e.value] } xs q hd rest := by
  obtain ⟨hvalue, hpending⟩ := h.pending.call h.keyed hne
  refine ⟨h.chain, h.sorted, h.used, h.fresh, h.stop, h.list, h.mallocs, keyed_middle h.keyed,
    nonnull_middle h.nonnull, ?_, ?_, h.lost⟩
  · rw [callsHeld_append]
    exact ⟨h.calls, h.nonnull e (by simp), hvalue, trivial⟩
  · rw [heldAfter_append]
    exact hpending

/-- The loop, from the second entry on. -/
lemma walk_later (mallocOk : ℕ → Bool) (ys : List (ℕ × ValueEntry V)) {a n : ℕ} {p : Option ℕ}
    {g : G}
    (h : Rep keys held own s xs (some a) hd (ys.map Prod.snd))
    (hahead : Ahead s xs p ys) (hn : ys.length ≤ n) (hown : own ∉ hd.list.map ValueEntry.key)
    (hown' : own ∉ (ys.map Prod.snd).map ValueEntry.key) :
    match laterEntries keys (ys.map Prod.snd) g hd with
    | none => ∃ e, walk keys mallocOk n p g s = .error e
    | some hd' => ∃ g' s' xs', walk keys mallocOk n p g s = .ok (g', s') ∧
        Rep keys held own s' xs' (some a) hd' [] ∧ ∀ i ∉ SList.ids xs', s'.cells i = none := by
  induction ys generalizing n p g s xs hd with
  | nil =>
    obtain rfl : p = none := hahead.chain
    refine ⟨g, s, xs, by rw [walk], h, fun i hi => ?_⟩
    by_contra hne
    exact (hahead.others i hne).elim hi (fun hmem => by cases hmem)
  | cons y ys ih =>
    obtain ⟨c, e⟩ := y
    obtain ⟨n, rfl⟩ : ∃ k, n = k + 1 := ⟨n - 1, by rw [List.length_cons] at hn; omega⟩
    rw [List.length_cons] at hn
    obtain ⟨rfl, next, hc, -⟩ := id hahead.chain
    rw [List.map_cons, List.map_cons, List.mem_cons, not_or] at hown'
    obtain ⟨hne, hown'⟩ := hown'
    have hcxs : c ∉ SList.ids xs := (hahead.apart c List.mem_cons_self).1
    cases hdtor : destructorOf keys e.key with
    | none =>
      obtain ⟨next, hc, hahead'⟩ := hahead.free
      have hrest := ih (n := n) (g := g) ((h.skip hdtor).free hcxs) hahead' (by omega) hown hown'
      simp only [List.map_cons, laterEntries, hdtor, walk, SList.read, hc, callDestructor,
        SList.free]
      exact hrest
    | some destructor =>
      have hcall := (h.call (fun heq => hne heq.symm)).later mallocOk
        (destructor e.value g) hown
      simp only [List.map_cons, laterEntries, hdtor, walk, SList.read, hc, callDestructor]
      split at hcall
      · obtain ⟨err, herr⟩ := hcall
        simp only [herr]
        exact ⟨err, rfl⟩
      · obtain ⟨s', xs', hrun, hframe, hownlist, hrep⟩ := hcall
        have hcalled : Ahead { s with log := s.log ++ [.call e.key e.value] } xs (some c)
            ((c, e) :: ys) := ⟨hahead.chain, hahead.nodup, hahead.apart, hahead.others⟩
        have hreturned := hcalled.frame hframe
        obtain ⟨next', hc', hahead'⟩ := hreturned.free
        have hcxs' := (hreturned.apart c List.mem_cons_self).1
        simp only [hrun, hc', SList.free]
        exact ih (hrep.free hcxs') hahead' (by omega) hownlist hown'

/-! ### The exit -/

/-- What is in memory and in the log after the last entry. -/
lemma Rep.ends_right_iff {t : ValueList V} {g g' : G} (h : Rep keys t.held own s xs q hd [])
    (honly : ∀ i ∉ SList.ids xs, s.cells i = none)
    (hrun : threadDeletedCallback keys mallocOk g t.thread = .ok (g', s)) :
    ExitRight keys mallocOk g t ↔ hd.list = [] ∧ hd.lost = none := by
  constructor
  · rintro ⟨g'', s'', hrun', hfree, -, hheld⟩
    rw [hrun] at hrun'
    cases hrun'
    constructor
    · rw [← h.list, List.map_eq_nil_iff, List.eq_nil_iff_forall_not_mem]
      exact fun x hx => h.not_mem_of_freed (hfree x.1) (List.mem_map_of_mem hx)
    · by_contra hlost
      have hown := h.lost hlost
      have hpending := h.pending own (Or.inr hown)
      rw [hheld own hown, if_pos rfl] at hpending
      exact hlost hpending.symm
  · rintro ⟨hlist, hlost⟩
    have hxs : xs = [] := List.map_eq_nil_iff.1 (h.list.trans hlist)
    subst hxs
    refine ⟨g', s, hrun, fun i => honly i List.not_mem_nil, h.calls, fun key hdtor => ?_⟩
    rw [h.pending key (Or.inr hdtor), hlist, hlost, List.append_nil, ite_eq_left_iff]
    exact fun _ => rfl

/-- The entry of the first destructor is freed.  What stood before it can still be found, and what
stood after it is walked. -/
lemma Rep.freeFirst {c : ℕ} {e : ValueEntry V}
    (h : Rep keys held own s (l ++ (c, e) :: l') none hd []) (hkey : e.key = own)
    (honly : ∀ i, s.cells i ≠ none → i ∈ SList.ids (l ++ (c, e) :: l')) :
    ∃ next, s.cells c = some ⟨e, next⟩ ∧
      Rep keys held own { s with cells := Function.update s.cells c none } l (some c)
        { hd with list := l.map Prod.snd } (l'.map Prod.snd) ∧
      Ahead { s with cells := Function.update s.cells c none } l next l' := by
  obtain ⟨r, hl, rfl, hrest⟩ := SList.chain_append.1 h.chain
  obtain ⟨-, hnd, hdisj⟩ := List.nodup_append'.1 (SList.ids_append l _ ▸ h.nodup)
  have hsorted := (List.pairwise_append.1 (SList.ids_append l _ ▸ h.sorted)).1
  have hcl : c ∉ SList.ids l := fun hmem => hdisj hmem List.mem_cons_self
  have hmem : ∀ i ∈ SList.ids ((c, e) :: l'), i ∈ SList.ids (l ++ (c, e) :: l') := by
    intro i hi
    rw [SList.ids_append]
    exact List.mem_append_right _ hi
  have hahead : Ahead s l (some c) ((c, e) :: l') := by
    refine ⟨⟨rfl, hrest⟩, hnd, fun i hi => ⟨fun hil => hdisj hil hi, h.used i (hmem i hi)⟩, ?_⟩
    intro i hi
    have hin := honly i hi
    rwa [SList.ids_append, List.mem_append] at hin
  obtain ⟨next, hc, hahead'⟩ := hahead.free
  have hlist : hd.list = l.map Prod.snd ++ e :: l'.map Prod.snd := by
    rw [← h.list, List.map_append, List.map_cons]
  have hkeyed := h.keyed_list
  rw [h.list, hlist] at hkeyed
  have hpending := h.pending
  rw [List.append_nil, hlist] at hpending
  have hnonnull := h.nonnull
  rw [List.append_nil, hlist] at hnonnull
  refine ⟨next, hc, ⟨?_, hsorted, fun i hi => h.used i ?_,
    fun i hi => SList.update_none_freed c (h.fresh i hi), ?_, rfl, h.mallocs, keyed_middle hkeyed,
    nonnull_middle hnonnull, h.calls, hpending.drop hkeyed (Or.inr hkey), h.lost⟩, hahead'⟩
  · refine hl.congr fun i hi => Function.update_of_ne ?_ _ _
    rintro rfl
    exact hcl hi
  · rw [SList.ids_append]
    exact List.mem_append_left _ hi
  · rintro i ⟨⟩
    exact ⟨(hahead.apart c List.mem_cons_self).2, Function.update_self _ _ _⟩

lemma ValueList.nodup (t : ValueList V) : (SList.ids t.entries).Nodup :=
  t.sorted.imp fun hgt => Nat.ne_of_gt hgt

/-- The entries of a thread are ahead of the loop. -/
lemma ValueList.ahead (t : ValueList V) : Ahead t.thread [] t.thread.first t.entries := by
  refine ⟨t.chain, t.nodup, fun i hi => ⟨List.not_mem_nil, t.used i hi⟩, fun i hi => Or.inr ?_⟩
  by_contra hnot
  exact hi (t.others i hnot)

lemma ValueList.fresh (t : ValueList V) : ∀ i, t.thread.used ≤ i → t.thread.cells i = none :=
  fun i hi => t.others i fun hmem => Nat.not_lt.2 hi (t.used i hmem)

/-- The destructor of the first entry's key is called. -/
lemma ValueList.rep_call (keys : List (KeyEntry (Destructor G V))) (t : ValueList V)
    {e : ValueEntry V} {rest : List (ValueEntry V)}
    (hentries : t.entries.map Prod.snd = e :: rest) :
    Rep keys t.held e.key { t.thread with log := t.thread.log ++ [.call e.key e.value] } t.entries
      none ⟨e :: rest, t.thread.mallocs, none⟩ [] := by
  have hheld : t.held e.key = e.value := by
    rw [ValueList.held, hentries, lookup_cons, if_pos rfl]
  have hkeyed := t.keyed
  have hnonnull := t.nonnull
  rw [hentries] at hkeyed hnonnull
  refine ⟨t.chain, t.sorted, t.used, t.fresh, (fun i hi => by cases hi), hentries, rfl,
    by rwa [List.append_nil], by rwa [List.append_nil], ?_, ?_, fun hne => absurd rfl hne⟩
  · rw [t.log]
    exact ⟨hnonnull e List.mem_cons_self, hheld, trivial⟩
  · rw [t.log, List.append_nil]
    intro k _
    by_cases hk : k = e.key
    · rw [if_pos hk, hk]
      exact Function.update_self _ _ _
    · rw [if_neg hk, ← hentries]
      exact Function.update_of_ne hk _ _

/-- No destructor is called for the first entry, which is freed. -/
lemma ValueList.rep_skip (t : ValueList V) {c : ℕ} {e : ValueEntry V}
    {ys : List (ℕ × ValueEntry V)} (hentries : t.entries = (c, e) :: ys)
    (hdtor : destructorOf keys e.key = none) :
    Rep keys t.held e.key { t.thread with cells := Function.update t.thread.cells c none } []
      (some c) ⟨[], t.thread.mallocs, none⟩ (ys.map Prod.snd) := by
  have hkeyed := t.keyed
  have hnonnull := t.nonnull
  have hchain := t.chain
  rw [hentries] at hkeyed hnonnull hchain
  have hc : c < t.thread.used := t.used c (hentries ▸ List.mem_cons_self)
  obtain ⟨hnot, hkeyed'⟩ := List.nodup_cons.1 hkeyed
  refine ⟨hchain.1, List.Pairwise.nil, fun i hi => absurd hi List.not_mem_nil,
    fun i hi => SList.update_none_freed c (t.fresh i hi), ?_, rfl, rfl, hkeyed',
    fun x hx => hnonnull x (List.mem_cons_of_mem _ hx), ?_, ?_, fun hne => absurd rfl hne⟩
  · rintro i ⟨⟩
    exact ⟨hc, Function.update_self _ _ _⟩
  · rw [t.log]
    trivial
  · rw [t.log]
    intro k hk
    have hne : k ≠ e.key := by
      rintro rfl
      exact hk.elim hnot fun hne => hne hdtor
    rw [if_neg hne]
    change t.held k = _
    rw [ValueList.held, hentries, List.map_cons, lookup_cons, if_neg (Ne.symm hne)]
    rfl

/-- The rest of the entries. -/
lemma Rep.exitRight_later_iff {t : ValueList V} {g g' : G} {c n : ℕ} {p : Option ℕ}
    {ys : List (ℕ × ValueEntry V)}
    (h : Rep keys t.held own s xs (some c) hd (ys.map Prod.snd)) (hahead : Ahead s xs p ys)
    (hn : ys.length ≤ n) (hown : own ∉ (hd.list ++ ys.map Prod.snd).map ValueEntry.key)
    (hrun : threadDeletedCallback keys mallocOk g t.thread = walk keys mallocOk n p g' s) :
    ExitRight keys mallocOk g t ↔ ∃ h, laterEntries keys (ys.map Prod.snd) g' hd = some h ∧
      h.list = [] ∧ h.lost = none := by
  rw [List.map_append, List.mem_append, not_or] at hown
  have hwalk := walk_later mallocOk (g := g') ys h hahead hn hown.1 hown.2
  split at hwalk
  · next hlater =>
    obtain ⟨err, herr⟩ := hwalk
    refine iff_of_false ?_ ?_
    · rintro ⟨g'', s'', hrun', -⟩
      rw [hrun, herr] at hrun'
      cases hrun'
    · rintro ⟨h, hsome, -⟩
      rw [hlater] at hsome
      cases hsome
  · next hd' hlater =>
    obtain ⟨g'', s'', xs'', hrun', hrep, honly⟩ := hwalk
    rw [hrep.ends_right_iff honly (hrun.trans hrun'), hlater]
    simp only [Option.some.injEq, exists_eq_left']

/-- A thread exits as it should exactly if its destructors are polite. -/
theorem exitRight_iff (keys : List (KeyEntry (Destructor G V))) (mallocOk : ℕ → Bool) (g : G)
    (t : ValueList V) : ExitRight keys mallocOk g t ↔ Polite keys mallocOk g t := by
  rw [Polite]
  cases hentries : t.entries with
  | nil =>
    have hchain := t.chain
    have honly := t.others
    rw [hentries] at hchain honly
    have hfirst : t.thread.first = none := hchain
    have hrun : threadDeletedCallback keys mallocOk g t.thread = .ok (g, t.thread) := by
      rw [threadDeletedCallback, hfirst, walk]
    refine iff_of_true ⟨g, t.thread, hrun, fun i => honly i List.not_mem_nil, ?_, ?_⟩
      ⟨_, rfl, rfl, rfl⟩
    · rw [t.log]
      trivial
    · intro key _
      rw [t.log, heldAfter, ValueList.held, hentries]
      rfl
  | cons x ys =>
    obtain ⟨c, e⟩ := x
    have hlen := SList.length_le t.nodup t.used
    rw [hentries, SList.ids, List.length_map, List.length_cons] at hlen
    obtain ⟨n, hn⟩ : ∃ n, t.thread.used = n + 1 := ⟨t.thread.used - 1, by omega⟩
    have hahead := t.ahead
    rw [hentries] at hahead
    obtain ⟨hfirst, next, hc, -⟩ := id hahead.chain
    dsimp only at hfirst hc
    have hkeyed := t.keyed
    rw [hentries] at hkeyed
    cases hdtor : destructorOf keys e.key with
    | none =>
      obtain ⟨next, hc, hahead'⟩ := hahead.free
      have hrun : threadDeletedCallback keys mallocOk g t.thread = walk keys mallocOk n next g
          { t.thread with cells := Function.update t.thread.cells c none } := by
        rw [threadDeletedCallback, hfirst, hn]
        simp only [walk, SList.read, hc, callDestructor, hdtor, SList.free]
      rw [(t.rep_skip hentries hdtor).exitRight_later_iff hahead' (by omega)
        (List.nodup_cons.1 hkeyed).1 hrun]
      simp only [List.map_cons, allEntries, hdtor]
    | some destructor =>
      have hlist : t.entries.map Prod.snd = e :: ys.map Prod.snd := by
        rw [hentries, List.map_cons]
      have hcall := (t.rep_call keys hlist).first mallocOk (destructor e.value g) (c := c)
        ⟨e, hentries ▸ List.mem_cons_self, rfl⟩ (by rw [hdtor]; exact Option.some_ne_none _)
      have hwalk : threadDeletedCallback keys mallocOk g t.thread =
          walk keys mallocOk (n + 1) (some c) g t.thread := by
        rw [threadDeletedCallback, hfirst, hn]
      simp only [walk, SList.read, hc, callDestructor, hdtor] at hwalk
      simp only [List.map_cons, allEntries, hdtor]
      split at hcall
      · -- the first entry has been freed when its destructor returns
        refine iff_of_false ?_ ?_
        · rintro ⟨g', s', hrun, -⟩
          rw [hwalk] at hrun
          split at hrun
          · cases hrun
          · next g'' s'' hdtorRun =>
            simp only [hcall g'' s'' hdtorRun] at hrun
            cases hrun
        · rintro ⟨h, hnone, -⟩
          cases hnone
      · next g' hd' hfirstRun =>
        obtain ⟨s', xs', hrun, hframe, ⟨e', he', hkey'⟩, hrep⟩ := hcall
        obtain ⟨l, l', rfl⟩ := List.append_of_mem he'
        have honly : ∀ i, s'.cells i ≠ none → i ∈ SList.ids (l ++ (c, e') :: l') := by
          intro i hi
          by_contra hnot
          rw [hframe.out i hnot] at hi
          by_cases hmem : i ∈ SList.ids t.entries
          · exact hi (if_pos hmem)
          · exact hi ((if_neg hmem).trans (t.others i hmem))
        obtain ⟨next', hc', hrep', hahead'⟩ := hrep.freeFirst hkey' honly
        simp only [hrun, hc', SList.free] at hwalk
        have hmiddle := hrep.keyed_list
        have hmap : hd'.list = l.map Prod.snd ++ e' :: l'.map Prod.snd := by
          rw [← hrep.list, List.map_append, List.map_cons]
        rw [hrep.list, hmap] at hmiddle
        rw [hmap, ← hkey', beforeKey_middle hmiddle, afterKey_middle hmiddle]
        have hlen' : l'.length ≤ n := by
          have hsorted := hrep.sorted
          rw [SList.ids_append, List.pairwise_append] at hsorted
          have hle : (SList.ids l').length ≤ c :=
            SList.length_le hahead'.nodup (List.pairwise_cons.1 hsorted.2.1).1
          have hcused := t.used c (hentries ▸ List.mem_cons_self)
          rw [SList.ids, List.length_map] at hle
          omega
        refine hrep'.exitRight_later_iff hahead' hlen' ?_ hwalk
        exact hkey' ▸ not_mem_middle hmiddle

/-- One value, for the first key. -/
def oneValue : ValueList ℕ where
  thread := ⟨fun i => if i = 0 then some ⟨⟨1, some 7⟩, none⟩ else none, some 0, 1, 1, []⟩
  entries := [(0, ⟨1, some 7⟩)]
  chain := ⟨rfl, none, rfl, rfl⟩
  sorted := List.pairwise_singleton _ _
  keyed := List.nodup_singleton _
  nonnull := by simp
  used := by simp
  others := by
    intro i hi
    exact if_neg fun h => hi (List.mem_singleton.2 h)
  log := rfl

/-- The entry is freed under the loop if the destructor removes the value of its own key. -/
theorem exit_reads_freed :
    ¬ ∀ (keys : List (KeyEntry (Destructor Unit ℕ))) (mallocOk : ℕ → Bool) (t : ValueList ℕ),
      ExitRight keys mallocOk () t := by
  intro h
  obtain ⟨g', s', hrun, -⟩ :=
    h [⟨1, some fun _ g => .setspecific 1 none fun _ => .done g⟩] (fun _ => true) oneValue
  have hfreed : threadDeletedCallback
      [⟨1, some fun _ g => .setspecific 1 none fun _ => .done g⟩] (fun _ => true) ()
      oneValue.thread = .error .freed := rfl
  rw [hfreed] at hrun
  cases hrun

end EspIdf.Pthread.ThreadExit
