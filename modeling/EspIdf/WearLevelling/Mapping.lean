/-
# A rotation with a moving hole

`N` logical pages lie in `N + 1` physical slots.  The pages are rotated by `m` and skip the
slot `p`, the hole.  Moving the hole from `p` to `p + 1` changes the slot of exactly the page
that lay in `p + 1`: it now lies in `p`.  Moving it from the last slot back to the first
while the rotation grows by one changes the slot of exactly the page in slot `0`, which now
lies in the last slot.
-/
import Mathlib

namespace EspIdf.WearLevelling

/-- The position of page `l` in the rotation by `m`. -/
def rot (N m l : ℕ) : ℕ := (N - m + l) % N

/-- The slot of page `l`: rotated by `m`, and past the hole `p`. -/
def slot (N m p l : ℕ) : ℕ := if rot N m l < p then rot N m l else rot N m l + 1

/-- The slot whose page moves into the hole `p`. -/
def nextSlot (N p : ℕ) : ℕ := if p = N then 0 else p + 1

/-- The rotation after a round of the hole. -/
def nextMove (N m p : ℕ) : ℕ := if p = N then (if m + 1 = N then 0 else m + 1) else m

variable {N m p l l' : ℕ}

lemma rot_lt (hN : 0 < N) : rot N m l < N := Nat.mod_lt _ hN

lemma rot_eq (hm : m < N) (hl : l < N) : rot N m l = if m ≤ l then l - m else N - m + l := by
  unfold rot
  split
  · rw [show N - m + l = (l - m) + N by omega, Nat.add_mod_right, Nat.mod_eq_of_lt (by omega)]
  · exact Nat.mod_eq_of_lt (by omega)

lemma rot_injective (hm : m < N) (hl : l < N) (hl' : l' < N) (h : rot N m l = rot N m l') :
    l = l' := by
  rw [rot_eq hm hl, rot_eq hm hl'] at h
  split at h <;> split at h <;> omega

/-- Every position of the rotation is taken. -/
lemma rot_surjective (hm : m < N) {r : ℕ} (hr : r < N) : ∃ l < N, rot N m l = r := by
  by_cases h : r + m < N
  · refine ⟨r + m, h, ?_⟩
    rw [rot_eq hm h, if_pos (by omega)]
    omega
  · refine ⟨r + m - N, by omega, ?_⟩
    rw [rot_eq hm (by omega), if_neg (by omega)]
    omega

lemma slot_le (hN : 0 < N) : slot N m p l ≤ N := by
  have := rot_lt (m := m) (l := l) hN
  unfold slot
  split <;> omega

lemma slot_ne_hole : slot N m p l ≠ p := by
  unfold slot
  split <;> omega

lemma slot_injective (hm : m < N) (hl : l < N) (hl' : l' < N)
    (h : slot N m p l = slot N m p l') : l = l' := by
  apply rot_injective hm hl hl'
  unfold slot at h
  split at h <;> split at h <;> omega

/-- Every slot other than the hole holds a page. -/
lemma slot_surjective (hm : m < N) (hp : p ≤ N) {q : ℕ} (hq : q ≤ N) (hne : q ≠ p) :
    ∃ l < N, slot N m p l = q := by
  by_cases h : q < p
  · obtain ⟨l, hl, hr⟩ := rot_surjective hm (r := q) (by omega)
    exact ⟨l, hl, by rw [slot, hr, if_pos h]⟩
  · obtain ⟨l, hl, hr⟩ := rot_surjective hm (r := q - 1) (by omega)
    exact ⟨l, hl, by rw [slot, hr, if_neg (by omega)]; omega⟩

lemma nextMove_lt (hm : m < N) : nextMove N m p < N := by
  unfold nextMove
  split
  · split <;> omega
  · exact hm

lemma nextSlot_ne (hN : 0 < N) : nextSlot N p ≠ p := by
  unfold nextSlot
  split <;> omega

lemma nextSlot_le (hp : p ≤ N) : nextSlot N p ≤ N := by
  unfold nextSlot
  split <;> omega

/-- One more round turns every page back by one position. -/
lemma rot_nextMove (hm : m < N) (hl : l < N) :
    rot N (nextMove N m N) l = if rot N m l = 0 then N - 1 else rot N m l - 1 := by
  have hN : 0 < N := by omega
  rw [rot_eq (nextMove_lt hm) hl, rot_eq hm hl]
  unfold nextMove
  rw [if_pos rfl]
  by_cases h1 : m + 1 = N
  · rw [if_pos h1, if_pos (Nat.zero_le _)]
    split <;> split <;> omega
  · rw [if_neg h1]
    split <;> split <;> split <;> omega

/-- Moving the hole moves exactly the page of the next slot, into the old hole. -/
lemma slot_next (hm : m < N) (hp : p ≤ N) (hl : l < N) :
    slot N (nextMove N m p) (nextSlot N p) l =
      if slot N m p l = nextSlot N p then p else slot N m p l := by
  have hr := rot_lt (m := m) (l := l) (show 0 < N by omega)
  by_cases hpN : p = N
  · subst hpN
    have hrot := rot_nextMove hm hl
    have hs : nextSlot p p = 0 := if_pos rfl
    rw [hs]
    unfold slot
    rw [hrot]
    split <;> split <;> omega
  · have hs : nextSlot N p = p + 1 := if_neg hpN
    have hmv : nextMove N m p = m := if_neg hpN
    rw [hs, hmv]
    unfold slot
    split <;> split <;> split <;> omega

end EspIdf.WearLevelling
