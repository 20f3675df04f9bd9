/-
# Lists ordered by deadline

An element is inserted into a list behind all elements whose deadlines are not later.  If each
inserted element has a later stamp than those before, elements with equal deadlines stand in
the order of their stamps.
-/
import Mathlib

namespace EspIdf.Deadlines

variable {α : Type} {deadline stamp : α → ℕ} {a b : α} {l : List α}

/-- The deadline of `a` is earlier, or it is the same and `a` was inserted earlier. -/
def Before (deadline stamp : α → ℕ) (a b : α) : Prop :=
  deadline a < deadline b ∨ deadline a = deadline b ∧ stamp a < stamp b

lemma Before.le (h : Before deadline stamp a b) : deadline a ≤ deadline b := by
  rcases h with h | h
  · exact Nat.le_of_lt h
  · exact Nat.le_of_eq h.1

/-- Insert an element in front of the first one with a later deadline. -/
def insert (deadline : α → ℕ) (a : α) : List α → List α
  | [] => [a]
  | b :: l => if deadline a < deadline b then a :: b :: l else b :: insert deadline a l

lemma perm_insert (deadline : α → ℕ) (a : α) (l : List α) :
    (insert deadline a l).Perm (a :: l) := by
  induction l with
  | nil => exact List.Perm.refl _
  | cons b l ih =>
    rw [insert]
    split
    · exact List.Perm.refl _
    · exact (ih.cons b).trans (List.Perm.swap a b l)

@[simp] lemma mem_insert : b ∈ insert deadline a l ↔ b = a ∨ b ∈ l := by
  rw [(perm_insert deadline a l).mem_iff, List.mem_cons]

lemma nodup_insert (ha : a ∉ l) (hl : l.Nodup) : (insert deadline a l).Nodup := by
  rw [(perm_insert deadline a l).nodup_iff, List.nodup_cons]
  exact ⟨ha, hl⟩

/-- The head is the new element, or it is the old head and its deadline is not later. -/
lemma head?_insert (deadline : α → ℕ) (a : α) (l : List α) :
    (insert deadline a l).head? = some a ∨
    ∃ b, (insert deadline a l).head? = some b ∧ l.head? = some b ∧ deadline b ≤ deadline a := by
  cases l with
  | nil => exact .inl rfl
  | cons b l =>
    rw [insert]
    split
    · exact .inl rfl
    · next h => exact .inr ⟨b, rfl, rfl, Nat.le_of_not_lt h⟩

/-- The list stays ordered if the new element has the latest stamp. -/
lemma pairwise_insert (hl : l.Pairwise (Before deadline stamp)) (ha : ∀ b ∈ l, stamp b < stamp a) :
    (insert deadline a l).Pairwise (Before deadline stamp) := by
  induction l with
  | nil => exact List.pairwise_singleton ..
  | cons b l ih =>
    obtain ⟨hb, hl⟩ := List.pairwise_cons.mp hl
    rw [insert]
    split
    · next hlt =>
      refine List.pairwise_cons.mpr ⟨fun c hc => .inl ?_, List.pairwise_cons.mpr ⟨hb, hl⟩⟩
      rcases List.mem_cons.mp hc with rfl | hc
      · exact hlt
      · exact Nat.lt_of_lt_of_le hlt (hb c hc).le
    · next hge =>
      refine List.pairwise_cons.mpr ⟨fun c hc => ?_, ih hl fun c hc => ha c (.tail _ hc)⟩
      rcases mem_insert.mp hc with rfl | hc
      · -- the new element comes after `b`
        rcases Nat.lt_or_eq_of_le (Nat.le_of_not_lt hge) with hlt | heq
        · exact .inl hlt
        · exact .inr ⟨heq, ha b List.mem_cons_self⟩
      · exact hb c hc

/-- The order depends on the elements of the list only. -/
lemma pairwise_congr {deadline' stamp' : α → ℕ} (hl : l.Pairwise (Before deadline stamp))
    (hd : ∀ b ∈ l, deadline' b = deadline b) (hs : ∀ b ∈ l, stamp' b = stamp b) :
    l.Pairwise (Before deadline' stamp') := by
  refine hl.imp_of_mem fun {b c} hb hc h => ?_
  rw [Before, hd b hb, hd c hc, hs b hb, hs c hc]
  exact h

/-- No deadline is earlier than that of the head. -/
lemma head_le (hl : (a :: l).Pairwise (Before deadline stamp)) (hb : b ∈ a :: l) :
    deadline a ≤ deadline b := by
  rcases List.mem_cons.mp hb with rfl | hb
  · exact Nat.le_refl _
  · exact ((List.pairwise_cons.mp hl).1 b hb).le

end EspIdf.Deadlines
