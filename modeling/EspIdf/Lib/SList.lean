/-
# Singly linked lists

The nodes of a list are allocated and freed one at a time, and an allocation has a number of its
own.  A chain leads from a pointer through nodes that are allocated to another pointer, which need
not be null: what it points to may have been freed.
-/
import Mathlib

namespace EspIdf.Lib.SList

variable {α : Type}

/-- A node, and the pointer to the next one. -/
structure Node (α : Type) where
  data : α
  next : Option ℕ

/-- The nodes that are allocated. -/
abbrev Nodes (α : Type) := ℕ → Option (Node α)

/-- What an operation must not do. -/
inductive Fault where
  /-- Read, write or free what has been freed. -/
  | freed
  /-- Follow a null pointer. -/
  | null
  /-- Go round in a cycle. -/
  | endless
deriving DecidableEq

/-! ### Operations -/

/-- Read a node. -/
def read (m : Nodes α) (i : ℕ) : Except Fault (Node α) :=
  match m i with
  | some node => .ok node
  | none => .error .freed

/-- The first node from a pointer on whose data has a property. -/
def find (m : Nodes α) (p : α → Bool) : ℕ → Option ℕ → Except Fault (Option ℕ)
  | _, none => .ok none
  | 0, some _ => .error .endless
  | n + 1, some i =>
    match m i with
    | none => .error .freed
    | some node => if p node.data then .ok (some i) else find m p n node.next

/-- Change the data of a node. -/
def modify (m : Nodes α) (i : ℕ) (f : α → α) : Except Fault (Nodes α) :=
  match m i with
  | some node => .ok (Function.update m i (some ⟨f node.data, node.next⟩))
  | none => .error .freed

/-- Free a node. -/
def free (m : Nodes α) (i : ℕ) : Except Fault (Nodes α) :=
  match m i with
  | some _ => .ok (Function.update m i none)
  | none => .error .freed

/-- Unlink `elm` from the node before it, which is looked for from a node on. -/
def unlink (m : Nodes α) (elm : ℕ) : ℕ → ℕ → Except Fault (Nodes α)
  | 0, _ => .error .endless
  | n + 1, cur =>
    match m cur with
    | none => .error .freed
    | some node =>
      if node.next = some elm then
        match m elm with
        | none => .error .freed
        | some node' => .ok (Function.update m cur (some ⟨node.data, node'.next⟩))
      else
        match node.next with
        | none => .error .null
        | some next => unlink m elm n next

/-- Unlink `elm` from the list that starts at a pointer: the pointer and the nodes afterwards. -/
def remove (m : Nodes α) (n : ℕ) (first : Option ℕ) (elm : ℕ) :
    Except Fault (Option ℕ × Nodes α) :=
  if first = some elm then
    match m elm with
    | none => .error .freed
    | some node => .ok (node.next, m)
  else
    match first with
    | none => .error .null
    | some i => (unlink m elm n i).map fun m => (first, m)

/-! ### Chains -/

/-- From a pointer the nodes lead to another pointer. -/
def Chain (m : Nodes α) : Option ℕ → List (ℕ × α) → Option ℕ → Prop
  | p, [], q => p = q
  | p, x :: xs, q => p = some x.1 ∧ ∃ next, m x.1 = some ⟨x.2, next⟩ ∧ Chain m next xs q

/-- The numbers of the nodes. -/
def ids (xs : List (ℕ × α)) : List ℕ := xs.map Prod.fst

@[simp] lemma ids_nil : ids ([] : List (ℕ × α)) = [] := rfl

@[simp] lemma ids_cons (x : ℕ × α) (xs : List (ℕ × α)) : ids (x :: xs) = x.1 :: ids xs := rfl

@[simp] lemma ids_append (xs ys : List (ℕ × α)) : ids (xs ++ ys) = ids xs ++ ids ys :=
  List.map_append

variable {m m' : Nodes α} {p q : Option ℕ} {xs ys : List (ℕ × α)} {i j n : ℕ} {a b : α}

/-- A chain depends on its nodes only. -/
lemma Chain.congr (h : Chain m p xs q) (hm : ∀ i ∈ ids xs, m' i = m i) : Chain m' p xs q := by
  induction xs generalizing p with
  | nil => exact h
  | cons x xs ih =>
    obtain ⟨hp, next, hx, hrest⟩ := h
    refine ⟨hp, next, ?_, ih hrest fun i hi => hm i (List.mem_cons_of_mem _ hi)⟩
    rw [hm x.1 List.mem_cons_self, hx]

lemma chain_append : Chain m p (xs ++ ys) q ↔ ∃ r, Chain m p xs r ∧ Chain m r ys q := by
  induction xs generalizing p with
  | nil =>
    constructor
    · exact fun h => ⟨p, rfl, h⟩
    · rintro ⟨r, rfl, h⟩
      exact h
  | cons x xs ih =>
    constructor
    · rintro ⟨hp, next, hx, hrest⟩
      obtain ⟨r, h1, h2⟩ := ih.1 hrest
      exact ⟨r, ⟨hp, next, hx, h1⟩, h2⟩
    · rintro ⟨r, ⟨hp, next, hx, h1⟩, h2⟩
      exact ⟨hp, next, hx, ih.2 ⟨r, h1, h2⟩⟩

lemma Chain.allocated (h : Chain m p xs q) (hi : i ∈ ids xs) : ∃ node, m i = some node := by
  induction xs generalizing p with
  | nil => cases hi
  | cons x xs ih =>
    obtain ⟨-, next, hx, hrest⟩ := h
    rcases List.mem_cons.1 hi with rfl | hi
    · exact ⟨_, hx⟩
    · exact ih hrest hi

/-- The list is searched in the order of the chain, and the search goes on where the chain ends. -/
lemma find_chain {pr : α → Bool} (h : Chain m p xs q) (hn : xs.length ≤ n) :
    find m pr n p = match xs.find? fun x => pr x.2 with
      | some x => .ok (some x.1)
      | none => find m pr (n - xs.length) q := by
  induction xs generalizing p n with
  | nil =>
    obtain rfl : p = q := h
    rfl
  | cons x xs ih =>
    obtain ⟨rfl, next, hx, hrest⟩ := h
    obtain ⟨n, rfl⟩ : ∃ k, n = k + 1 := ⟨n - 1, by rw [List.length_cons] at hn; omega⟩
    rw [List.length_cons] at hn
    simp only [find, hx]
    by_cases hpr : pr x.2 = true
    · rw [if_pos hpr, List.find?_cons_of_pos (p := fun x : ℕ × α => pr x.2) hpr]
    · rw [if_neg hpr, List.find?_cons_of_neg (p := fun x : ℕ × α => pr x.2) hpr,
        ih hrest (by omega), List.length_cons, Nat.add_sub_add_right]

/-- Chains without a cycle are no longer than the number of allocations. -/
lemma length_le {used : ℕ} {is : List ℕ} (hnd : is.Nodup) (hlt : ∀ i ∈ is, i < used) :
    is.length ≤ used := by
  have hsub : is.Subperm (List.range used) :=
    hnd.subperm fun i hi => List.mem_range.2 (hlt i hi)
  simpa only [List.length_range] using hsub.length_le

/-! ### What was freed -/

lemma update_freed {node : Node α} (hi : m i ≠ none) (hj : m j = none) :
    Function.update m i (some node) j = none := by
  rw [Function.update_of_ne, hj]
  rintro rfl
  exact hi hj

lemma modify_freed {f : α → α} (h : modify m i f = .ok m') (hj : m j = none) : m' j = none := by
  rw [modify] at h
  split at h
  · next hi =>
    cases h
    exact update_freed (by rw [hi]; exact Option.some_ne_none _) hj
  · cases h

lemma update_none_freed (i : ℕ) (hj : m j = none) : Function.update m i none j = none := by
  by_cases hji : j = i
  · rw [hji, Function.update_self]
  · rw [Function.update_of_ne hji, hj]

lemma free_freed (h : free m i = .ok m') (hj : m j = none) : m' j = none := by
  rw [free] at h
  split at h
  · cases h
    exact update_none_freed i hj
  · cases h

lemma unlink_freed {cur : ℕ} (h : unlink m i n cur = .ok m') (hj : m j = none) : m' j = none := by
  induction n generalizing cur with
  | zero => cases h
  | succ n ih =>
    rw [unlink] at h
    split at h
    · cases h
    · next hcur =>
      split at h
      · split at h
        · cases h
        · cases h
          exact update_freed (by rw [hcur]; exact Option.some_ne_none _) hj
      · split at h
        · cases h
        · exact ih h

/-- No operation on the list brings back what was freed. -/
lemma remove_freed {first : Option ℕ} (h : remove m n first i = .ok (p, m')) (hj : m j = none) :
    m' j = none := by
  unfold remove at h
  split at h
  · split at h
    · cases h
    · cases h
      exact hj
  · split at h
    · cases h
    · next i' _ =>
      cases hm : unlink m i n i' with
      | error e => rw [hm] at h; cases h
      | ok m'' =>
        rw [hm] at h
        cases h
        exact unlink_freed hm hj

/-! ### Changes -/

/-- The data of a node on the chain change. -/
lemma Chain.modify (h : Chain m p (xs ++ (i, a) :: ys) q)
    (hnd : (ids (xs ++ (i, a) :: ys)).Nodup) (f : α → α) :
    ∃ m', SList.modify m i f = .ok m' ∧ Chain m' p (xs ++ (i, f a) :: ys) q ∧
      ∀ j, j ≠ i → m' j = m j := by
  obtain ⟨r, h1, hr, next, hi, h2⟩ := chain_append.1 h
  rw [ids_append, ids_cons, List.nodup_middle, List.nodup_cons, List.mem_append, not_or] at hnd
  obtain ⟨⟨hxs, hys⟩, -⟩ := hnd
  have hframe : ∀ j, j ≠ i →
      Function.update m i (some ⟨f a, next⟩) j = m j := fun j hj => Function.update_of_ne hj _ _
  refine ⟨_, by rw [SList.modify, hi], chain_append.2 ⟨r, ?_, hr, next, ?_, ?_⟩, hframe⟩
  · exact h1.congr fun j hj => hframe j (by rintro rfl; exact hxs hj)
  · exact Function.update_self _ _ _
  · exact h2.congr fun j hj => hframe j (by rintro rfl; exact hys hj)

/-- The node before another one on the chain is made to point past it. -/
lemma Chain.unlink (h : Chain m (some j) (((j, b) :: xs) ++ (i, a) :: ys) q)
    (hnd : (ids ((j, b) :: xs ++ (i, a) :: ys)).Nodup) (hn : xs.length < n) :
    ∃ m', SList.unlink m i n j = .ok m' ∧ Chain m' (some j) ((j, b) :: xs ++ ys) q ∧
      ∀ k ∉ ids ((j, b) :: xs), m' k = m k := by
  induction xs generalizing j b n with
  | nil =>
    obtain ⟨n, rfl⟩ : ∃ k, n = k + 1 := ⟨n - 1, by omega⟩
    obtain ⟨-, next, hj, rfl, next', hi, hrest⟩ := h
    simp only [SList.unlink, hj, hi, if_true]
    refine ⟨_, rfl, ⟨rfl, next', Function.update_self _ _ _, ?_⟩, fun k hk => ?_⟩
    · refine hrest.congr fun k hk => Function.update_of_ne ?_ _ _
      rintro rfl
      exact (List.nodup_cons.1 hnd).1 (List.mem_cons_of_mem _ hk)
    · exact Function.update_of_ne (fun hkj => hk (List.mem_cons.2 (Or.inl hkj))) _ _
  | cons x xs ih =>
    obtain ⟨n, rfl⟩ : ∃ k, n = k + 1 := ⟨n - 1, by omega⟩
    obtain ⟨-, next, hj, hrest⟩ := h
    have hrest' := hrest
    obtain ⟨rfl, -⟩ := hrest'
    obtain ⟨hnotin, hnd'⟩ := List.nodup_cons.1 hnd
    have hne : ¬ some x.1 = some i := by
      intro heq
      have hmem : i ∈ ids (xs ++ (i, a) :: ys) := by simp
      exact (List.nodup_cons.1 hnd').1 (Option.some.inj heq ▸ hmem)
    obtain ⟨m', hm', hchain, hframe⟩ :=
      ih (n := n) hrest hnd' (by rw [List.length_cons] at hn; omega)
    simp only [SList.unlink, hj, if_neg hne]
    refine ⟨m', hm', ⟨rfl, some x.1, ?_, hchain⟩, fun k hk => hframe k fun hmem => hk ?_⟩
    · rw [hframe j fun hmem => hnotin ?_, hj]
      change j ∈ ids (x :: xs ++ (i, a) :: ys)
      rw [ids_append]
      exact List.mem_append_left _ hmem
    · exact List.mem_cons_of_mem _ hmem

/-- A node is taken off the chain, and keeps its contents. -/
lemma Chain.remove (h : Chain m p (xs ++ (i, a) :: ys) q)
    (hnd : (ids (xs ++ (i, a) :: ys)).Nodup) (hn : xs.length ≤ n) :
    ∃ p' m', SList.remove m n p i = .ok (p', m') ∧ Chain m' p' (xs ++ ys) q ∧
      ∀ k ∉ ids xs, m' k = m k := by
  cases xs with
  | nil =>
    obtain ⟨rfl, next, hi, hrest⟩ := h
    exact ⟨next, m, by simp only [SList.remove, if_true, hi], hrest, fun _ _ => rfl⟩
  | cons x xs =>
    obtain ⟨rfl, -⟩ := id h
    have hne : ¬ some x.1 = some i := by
      intro heq
      have hmem : i ∈ ids (xs ++ (i, a) :: ys) := by simp
      exact (List.nodup_cons.1 hnd).1 (Option.some.inj heq ▸ hmem)
    obtain ⟨m', hm', hchain, hframe⟩ := Chain.unlink h hnd (n := n) hn
    refine ⟨some x.1, m', ?_, hchain, hframe⟩
    simp only [SList.remove, if_neg hne, hm', Except.map]

end EspIdf.Lib.SList
