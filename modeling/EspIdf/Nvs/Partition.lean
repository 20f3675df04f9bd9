/-
# The page to compact

`requestNewPage` compacts the page with the most unused entries.
-/
import EspIdf.Nvs.PageManager

namespace EspIdf.Nvs

open EspIdf.Lib PageManager

variable {p : ℕ}

/-- The search for the page with the most unused entries. -/
lemma foldl_maxUnused (pages : ℕ → Page) : ∀ (list : List ℕ) (best : Option ℕ × ℕ),
    let r := list.foldl (fun best i =>
      if best.2 < unused (pages i) then (some i, unused (pages i)) else best) best
    best.2 ≤ r.2 ∧ (∀ i ∈ list, unused (pages i) ≤ r.2) ∧
      (r = best ∨ ∃ p ∈ list, r = (some p, unused (pages p)) ∧ best.2 < unused (pages p)) := by
  intro list
  induction list with
  | nil =>
    intro best
    exact ⟨Nat.le_refl _, by simp, .inl rfl⟩
  | cons i list ih =>
    intro best
    simp only [List.foldl_cons]
    by_cases hlt : best.2 < unused (pages i)
    · rw [if_pos hlt]
      obtain ⟨h1, h2, h3⟩ := ih (some i, unused (pages i))
      refine ⟨Nat.le_trans (Nat.le_of_lt hlt) h1, ?_, .inr ?_⟩
      · rintro j (_ | ⟨_, hj⟩)
        · exact h1
        · exact h2 j hj
      · rcases h3 with h3 | ⟨p, hp, h3, h4⟩
        · exact ⟨i, List.mem_cons_self, h3, hlt⟩
        · exact ⟨p, List.mem_cons_of_mem _ hp, h3, Nat.lt_trans hlt h4⟩
    · rw [if_neg hlt]
      obtain ⟨h1, h2, h3⟩ := ih best
      refine ⟨h1, ?_, ?_⟩
      · rintro j (_ | ⟨_, hj⟩)
        · exact Nat.le_trans (Nat.le_of_not_lt hlt) h1
        · exact h2 j hj
      · rcases h3 with h3 | ⟨p, hp, h3, h4⟩
        · exact .inl h3
        · exact .inr ⟨p, List.mem_cons_of_mem _ hp, h3, h4⟩

lemma maxUnusedItems_some {pages : ℕ → Page} {list : List ℕ}
    (h : (maxUnusedItems pages list).1 = some p) : p ∈ list ∧ 0 < unused (pages p) := by
  obtain ⟨-, -, h3 | ⟨p', hp', h3, h4⟩⟩ := foldl_maxUnused pages list (none, 0)
  · rw [maxUnusedItems, h3] at h
    cases h
  · rw [maxUnusedItems, h3, Option.some_inj] at h
    subst h
    exact ⟨hp', h4⟩

end EspIdf.Nvs
