/-
# Binary min-heaps in an array

The element at each index comes behind the one at its parent's, strictly.  An element that comes
behind all the others is put in order again by letting it sink to a leaf: at each node it is
exchanged with the smaller one of the two children.
-/
import Mathlib

namespace EspIdf.Lib

variable {α κ : Type} [LinearOrder κ] {key : α → κ} {n i : ℕ} {c : ℕ → α} {e : α}

/-- The first `n` elements of `c` are a min-heap. -/
def HeapOrder (key : α → κ) (n : ℕ) (c : ℕ → α) : Prop :=
  ∀ j, 0 < j → j < n → key (c ((j - 1) / 2)) < key (c j)

/-- No two of the first `n` elements have the same key. -/
def DistinctKeys (key : α → κ) (n : ℕ) (c : ℕ → α) : Prop :=
  ∀ j < n, ∀ k < n, key (c j) = key (c k) → j = k

/-- The element at index `i` comes behind all others and is what the heap is out of order by. -/
structure Sinking (key : α → κ) (n : ℕ) (c : ℕ → α) (i : ℕ) : Prop where
  order : ∀ j, 0 < j → j < n → (j - 1) / 2 ≠ i → key (c ((j - 1) / 2)) < key (c j)
  grand : 0 < i → ∀ j, 0 < j → j < n → (j - 1) / 2 = i → key (c ((i - 1) / 2)) < key (c j)
  last : ∀ j < n, j ≠ i → key (c j) < key (c i)
  distinct : DistinctKeys key n c

lemma HeapOrder.root_le (h : HeapOrder key n c) {j : ℕ} (hj : j < n) : key (c 0) ≤ key (c j) := by
  induction j using Nat.strongRecOn with
  | _ j ih =>
    by_cases hzero : j = 0
    · rw [hzero]
    · have hparent := ih ((j - 1) / 2) (by omega) (by omega)
      exact hparent.trans (h j (by omega) hj).le

/-- An element behind all others is appended. -/
lemma HeapOrder.append (h : HeapOrder key n c) (he : ∀ j < n, key (c j) < key e) :
    HeapOrder key (n + 1) (Function.update c n e) := by
  intro j hpos hj
  have hparent : (j - 1) / 2 ≠ n := by omega
  rw [Function.update_of_ne hparent]
  by_cases hlast : j = n
  · rw [hlast, Function.update_self]
    exact he _ (by omega)
  · rw [Function.update_of_ne hlast]
    exact h j hpos (by omega)

omit [LinearOrder κ] in
lemma DistinctKeys.update (h : DistinctKeys key n c) (he : ∀ j < n, j ≠ i → key (c j) ≠ key e) :
    DistinctKeys key n (Function.update c i e) := by
  intro j hj k hk heq
  by_cases hji : j = i <;> by_cases hki : k = i
  · rw [hji, hki]
  · rw [hji, Function.update_self, Function.update_of_ne hki] at heq
    exact absurd heq.symm (he k hk hki)
  · rw [hki, Function.update_self, Function.update_of_ne hji] at heq
    exact absurd heq (he j hj hji)
  · rw [Function.update_of_ne hji, Function.update_of_ne hki] at heq
    exact h j hj k hk heq

omit [LinearOrder κ] in
lemma DistinctKeys.append (h : DistinctKeys key n c) (he : ∀ j < n, key (c j) ≠ key e) :
    DistinctKeys key (n + 1) (Function.update c n e) := by
  intro j hj k hk heq
  by_cases hjn : j = n <;> by_cases hkn : k = n
  · rw [hjn, hkn]
  · rw [hjn, Function.update_self, Function.update_of_ne hkn] at heq
    exact absurd heq.symm (he k (by omega))
  · rw [hkn, Function.update_self, Function.update_of_ne hjn] at heq
    exact absurd heq (he j (by omega))
  · rw [Function.update_of_ne hjn, Function.update_of_ne hkn] at heq
    exact h j (by omega) k (by omega) heq

omit [LinearOrder κ] in
lemma DistinctKeys.comp (h : DistinctKeys key n c) {σ : Equiv.Perm ℕ} (hσ : ∀ j, σ j < n ↔ j < n) :
    DistinctKeys key n (c ∘ σ) :=
  fun j hj k hk heq => σ.injective (h _ ((hσ j).mpr hj) _ ((hσ k).mpr hk) heq)

/-- In place of an element of a heap, one that comes behind all others. -/
lemma HeapOrder.sinking (h : HeapOrder key n c) (hd : DistinctKeys key n c) (hi : i < n)
    (he : ∀ j < n, key (c j) < key e) : Sinking key n (Function.update c i e) i where
  order := by
    intro j hpos hj hparent
    rw [Function.update_of_ne hparent]
    by_cases hji : j = i
    · rw [hji, Function.update_self]
      exact he _ (by omega)
    · rw [Function.update_of_ne hji]
      exact h j hpos hj
  grand := by
    intro hpos j hjpos hj hparent
    have hup := h i hpos hi
    have hdown := h j hjpos hj
    rw [hparent] at hdown
    rw [Function.update_of_ne (by omega), Function.update_of_ne (by omega)]
    exact hup.trans hdown
  last := by
    intro j hj hji
    rw [Function.update_self, Function.update_of_ne hji]
    exact he j hj
  distinct := hd.update fun j hj _ => (he j hj).ne

lemma swap_lt_iff {j k : ℕ} (hj : j < n) (hk : k < n) (m : ℕ) :
    Equiv.swap j k m < n ↔ m < n := by
  rw [Equiv.swap_apply_def]
  split_ifs with h h'
  · rw [h]
    exact iff_of_true hk hj
  · rw [h']
    exact iff_of_true hj hk
  · exact Iff.rfl

/-- The exchange with the smallest child. -/
lemma Sinking.swap (h : Sinking key n c i) {next : ℕ} (hpos : 0 < next) (hnext : next < n)
    (hchild : (next - 1) / 2 = i)
    (hmin : ∀ j, 0 < j → j < n → (j - 1) / 2 = i → key (c next) ≤ key (c j)) :
    Sinking key n (c ∘ Equiv.swap i next) next where
  order := by
    intro j hjpos hj hparent
    simp only [Function.comp_apply]
    have hne : i ≠ next := by omega
    by_cases hup : (j - 1) / 2 = i
    · -- the parent is now the child that came up
      rw [hup, Equiv.swap_apply_left]
      by_cases hjn : j = next
      · rw [hjn, Equiv.swap_apply_right]
        exact h.last next hnext hne.symm
      · rw [Equiv.swap_apply_of_ne_of_ne (by omega) hjn]
        exact (hmin j hjpos hj hup).lt_of_ne fun heq =>
          hjn (h.distinct next hnext j hj heq).symm
    · rw [Equiv.swap_apply_of_ne_of_ne hup hparent]
      by_cases hji : j = i
      · rw [hji, Equiv.swap_apply_left]
        exact h.grand (hji ▸ hjpos) next hpos hnext hchild
      · rw [Equiv.swap_apply_of_ne_of_ne hji (by rintro rfl; exact hup hchild)]
        exact h.order j hjpos hj hup
  grand := by
    intro _ j hjpos hj hparent
    simp only [Function.comp_apply]
    rw [hchild, Equiv.swap_apply_left, Equiv.swap_apply_of_ne_of_ne (by omega) (by omega)]
    have := h.order j hjpos hj (by omega)
    rwa [hparent] at this
  last := by
    intro j hj hjn
    simp only [Function.comp_apply]
    rw [Equiv.swap_apply_right]
    by_cases hji : j = i
    · rw [hji, Equiv.swap_apply_left]
      exact h.last next hnext (by omega)
    · rw [Equiv.swap_apply_of_ne_of_ne hji hjn]
      exact h.last j hj hji
  distinct := h.distinct.comp (swap_lt_iff (by omega) hnext)

/-- At a leaf it is in order. -/
lemma Sinking.leaf (h : Sinking key n c i) (hleaf : n ≤ 2 * i + 1) : HeapOrder key n c :=
  fun j hpos hj => h.order j hpos hj (by omega)

end EspIdf.Lib
