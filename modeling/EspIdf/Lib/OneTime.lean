/-
# Elements that can be set only once

A store grows by requests.  A request names the elements to be set, or it asks for a number of
elements of a list that are not set yet.  The requests can be served one by one, each of them
seeing what the ones before it have set, or together, when all of them see the first contents.
-/
import Mathlib

namespace EspIdf.OneTime

inductive Request (α : Type) where
  | exact (s : List α)
  | count (l : List α) (n : ℕ)

variable {α : Type} {b : α → Bool} {l : List α} {n : ℕ} {x : α}

/-- The elements of a list that are not set. -/
def free (b : α → Bool) (l : List α) : List α := l.filter fun x => !b x

lemma mem_free : x ∈ free b l ↔ x ∈ l ∧ b x = false := by simp [free]

/-- The first elements that survive a filter are among its first ones. -/
lemma mem_take_filter {p : α → Bool} (hx : x ∈ l.take n) (hp : p x = true) :
    x ∈ (l.filter p).take n := by
  induction l generalizing n with
  | nil => simp at hx
  | cons a l ih =>
    cases n with
    | zero => simp at hx
    | succ n =>
      rw [List.take_succ_cons, List.mem_cons] at hx
      rcases hx with rfl | hx
      · rw [List.filter_cons_of_pos hp, List.take_succ_cons]
        exact List.mem_cons_self
      · cases ha : p a with
        | true =>
          rw [List.filter_cons_of_pos ha, List.take_succ_cons]
          exact List.mem_cons_of_mem _ (ih hx)
        | false =>
          rw [List.filter_cons_of_neg (by simp [ha])]
          exact (List.take_subset_take_left _ (Nat.le_succ n)) (ih hx)

lemma take_filter_eq {p : α → Bool} (h : ∀ x ∈ l.take n, p x = true)
    (hn : n ≤ l.length) : (l.filter p).take n = l.take n := by
  conv_lhs => rw [← List.take_append_drop n l]
  rw [List.filter_append, List.filter_eq_self.mpr h,
    List.take_append_of_le_length (by rw [List.length_take]; omega), List.take_take, Nat.min_self]

variable [DecidableEq α] {q : Request α} {qs : List (Request α)} {S T T' : Finset α}

/-- The elements a request sets. -/
def Request.want (b : α → Bool) : Request α → Finset α
  | .exact s => s.toFinset
  | .count l n => ((free b l).take n).toFinset

def Request.Granted (b : α → Bool) : Request α → Prop
  | .exact s => ∀ x ∈ s, b x = false
  | .count l n => n ≤ (free b l).length

/-- The contents after `T` has been set. -/
def grow (b : α → Bool) (T : Finset α) : α → Bool := fun x => b x || decide (x ∈ T)

lemma grow_eq_false : grow b T x = false ↔ b x = false ∧ x ∉ T := by simp [grow]

/-- What is set after the requests are served together, with `S` set before. -/
def together (b : α → Bool) : List (Request α) → Finset α → Finset α
  | [], S => S
  | q :: qs, S => together b qs (S ∪ q.want b)

/-- The requests are granted one by one and lead from `T` to `T'`. -/
def OneByOne (b : α → Bool) : List (Request α) → Finset α → Finset α → Prop
  | [], T, T' => T' = T
  | q :: qs, T, T' => q.Granted (grow b T) ∧ OneByOne b qs (T ∪ q.want (grow b T)) T'

/-- The request does not count an element that is set by then. -/
def Request.Fresh (b : α → Bool) (S : Finset α) : Request α → Prop
  | .exact _ => True
  | .count l n => ∀ x ∈ (free b l).take n, x ∉ S

/-- Served together, no request counts an element that another one before it has set. -/
def AllFresh (b : α → Bool) : List (Request α) → Finset α → Prop
  | [], _ => True
  | q :: qs, S => q.Fresh b S ∧ AllFresh b qs (S ∪ q.want b)

/-- The list a request counts in names no element twice. -/
def Request.Plain : Request α → Prop
  | .exact _ => True
  | .count l _ => l.Nodup

/-! ### Free elements of a larger store -/

lemma free_grow : free (grow b T) l = (free b l).filter fun x => decide (x ∉ T) := by
  rw [free, free, List.filter_filter]
  refine List.filter_congr fun x _ => ?_
  rw [grow]
  cases b x <;> simp

/-! ### One request -/

/-- A request granted later sets what it sets at first, or some of that is set already. -/
lemma Request.want_subset : q.want b ⊆ T ∪ q.want (grow b T) := by
  intro x hx
  cases q with
  | exact s => exact Finset.mem_union_right _ hx
  | count l n =>
    by_cases hxT : x ∈ T
    · exact Finset.mem_union_left _ hxT
    · refine Finset.mem_union_right _ ?_
      rw [Request.want, List.mem_toFinset, free_grow]
      exact mem_take_filter (List.mem_toFinset.mp hx) (by simpa using hxT)

/-- A granted request sets elements that were free. -/
lemma Request.free_of_mem_want (hq : q.Granted b) (hx : x ∈ q.want b) : b x = false := by
  cases q with
  | exact s => exact hq x (List.mem_toFinset.mp hx)
  | count l n => exact (mem_free.mp (List.mem_of_mem_take (List.mem_toFinset.mp hx))).2

/-- What is set one by one is new. -/
lemma Request.disjoint_want (hq : q.Granted (grow b T)) : Disjoint T (q.want (grow b T)) := by
  rw [Finset.disjoint_right]
  intro x hx
  exact (grow_eq_false.mp (free_of_mem_want hq hx)).2

lemma Request.length_free_grow_le : (free (grow b T) l).length ≤ (free b l).length := by
  rw [free_grow]
  exact List.length_filter_le _ _

/-- A request that counts nothing set already sets the same in both orders. -/
lemma Request.want_grow (hq : q.Granted (grow b T)) (hf : q.Fresh b T) :
    q.want (grow b T) = q.want b := by
  cases q with
  | exact s => rfl
  | count l n =>
    rw [Request.want, Request.want, free_grow, take_filter_eq (fun x hx => by simpa using hf x hx)]
    exact Nat.le_trans hq Request.length_free_grow_le

/-- A granted count sets as many elements as it was asked for. -/
lemma Request.card_want_count (hp : l.Nodup) (hq : Request.Granted b (.count l n)) :
    (Request.want b (.count l n)).card = n := by
  have hnodup : ((free b l).take n).Nodup := (hp.filter _).sublist (List.take_sublist _ _)
  rw [Request.want, List.toFinset_card_of_nodup hnodup, List.length_take]
  exact Nat.min_eq_left hq

/-- A request sets the same number of elements in both orders. -/
lemma Request.card_want (hq : q.Granted (grow b T)) (hp : q.Plain) :
    (q.want (grow b T)).card = (q.want b).card := by
  cases q with
  | exact s => rfl
  | count l n =>
    rw [card_want_count hp hq,
      card_want_count hp (Nat.le_trans hq length_free_grow_le)]

/-! ### All requests -/

/-- What is set together is set one by one as well. -/
theorem together_subset (h : OneByOne b qs T T') (hS : S ⊆ T) : together b qs S ⊆ T' := by
  induction qs generalizing S T with
  | nil =>
    rw [show T' = T from h]
    exact hS
  | cons q qs ih =>
    exact ih h.2 (Finset.union_subset (hS.trans Finset.subset_union_left) Request.want_subset)

/-- Requests that count nothing twice set the same one by one as together. -/
theorem together_eq (h : OneByOne b qs T T') (hf : AllFresh b qs T) : together b qs T = T' := by
  induction qs generalizing T with
  | nil => exact Eq.symm h
  | cons q qs ih =>
    obtain ⟨hq, h⟩ := h
    have hwant := Request.want_grow hq hf.1
    rw [hwant] at h
    exact ih h hf.2

/-- Less is set together as soon as less has been set. -/
lemma card_together_lt (h : OneByOne b qs T T') (hp : ∀ q ∈ qs, q.Plain) (hS : S.card < T.card) :
    (together b qs S).card < T'.card := by
  induction qs generalizing S T with
  | nil =>
    rw [show T' = T from h]
    exact hS
  | cons q qs ih =>
    obtain ⟨hq, h⟩ := h
    refine ih h (fun q hq => hp q (List.mem_cons_of_mem _ hq)) ?_
    have hle := Finset.card_union_le S (q.want b)
    rw [Finset.card_union_of_disjoint (Request.disjoint_want hq),
      Request.card_want hq (hp q List.mem_cons_self)]
    omega

/-- If the requests set the same one by one as together, they count nothing twice. -/
theorem allFresh_of_together_eq (h : OneByOne b qs T T') (hp : ∀ q ∈ qs, q.Plain)
    (heq : together b qs T = T') : AllFresh b qs T := by
  induction qs generalizing T with
  | nil => exact trivial
  | cons q qs ih =>
    obtain ⟨hq, h⟩ := h
    have hp' : ∀ q ∈ qs, q.Plain := fun q hq => hp q (List.mem_cons_of_mem _ hq)
    by_cases hf : q.Fresh b T
    · have hwant := Request.want_grow hq hf
      rw [hwant] at h
      exact ⟨hf, ih h hp' heq⟩
    · -- an element counted twice is missing for good
      exfalso
      have hcommon : (T ∩ q.want b).Nonempty := by
        cases q with
        | exact s => exact absurd trivial hf
        | count l n =>
          simp only [Request.Fresh, not_forall, not_not] at hf
          obtain ⟨x, hx, hxT⟩ := hf
          exact ⟨x, Finset.mem_inter.mpr ⟨hxT, List.mem_toFinset.mpr hx⟩⟩
      have hadd := Finset.card_union_add_card_inter T (q.want b)
      have hpos := hcommon.card_pos
      have hlt : (T ∪ q.want b).card < (T ∪ q.want (grow b T)).card := by
        rw [Finset.card_union_of_disjoint (Request.disjoint_want hq),
          Request.card_want hq (hp q List.mem_cons_self)]
        omega
      have hless := card_together_lt h hp' hlt
      rw [← heq] at hless
      exact Nat.lt_irrefl _ hless

end EspIdf.OneTime
