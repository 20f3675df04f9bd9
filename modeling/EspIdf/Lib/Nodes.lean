/-
# Lists of nodes

Two loops over a list of nodes: one that finds the last node with some property, and one that
removes something from the nodes and drops a node that has become empty.
-/
import Mathlib

namespace EspIdf.Lib

variable {γ δ ε : Type}

/-- The last element with the property, between what comes before and after it. -/
def splitLast (p : γ → Bool) : List γ → Option (List γ × γ × List γ)
  | [] => none
  | x :: xs =>
    match splitLast p xs with
    | some (before, y, after) => some (x :: before, y, after)
    | none => if p x then some ([], x, xs) else none

/-- Remove from every selected node in turn, until one that something was removed from is
empty: it is dropped, and the loop ends.  The flag says whether it ended so. -/
def removeIn (sel : γ → Bool) (remove : γ → Bool × γ) (empty : γ → Bool) :
    List γ → Bool × List γ
  | [] => (false, [])
  | it :: rest =>
    if sel it then
      if (remove it).1 && empty (remove it).2 then (true, rest)
      else ((removeIn sel remove empty rest).1,
        (remove it).2 :: (removeIn sel remove empty rest).2)
    else ((removeIn sel remove empty rest).1, it :: (removeIn sel remove empty rest).2)

example : splitLast (fun n : ℕ => n < 3) [1, 5] = some ([], 1, [5]) := by
  rw [splitLast, splitLast]
  rfl

example : removeIn (fun _ : ℕ => true) (fun n => (true, n - 1)) (· = 0) [1, 2] = (true, [2]) := by
  rw [removeIn]
  rfl

/-! ### Replacing a node -/

lemma flatMap_replace_subset {f : γ → List ε} {x y : γ} (h : f x ⊆ f y) (before after : List γ) :
    (before ++ x :: after).flatMap f ⊆ (before ++ y :: after).flatMap f := by
  intro e he
  simp only [List.flatMap_append, List.flatMap_cons, List.mem_append] at he ⊢
  exact he.imp_right (Or.imp_left (@h e))

/-! ### The last node -/

lemma splitLast_eq_none {p : γ → Bool} {z : γ} : ∀ {xs : List γ}, splitLast p xs = none →
    z ∈ xs → p z = false := by
  intro xs
  induction xs with
  | nil => intro _ hmem; simp at hmem
  | cons x xs ih =>
    intro hnone hmem
    rw [splitLast] at hnone
    cases hrest : splitLast p xs with
    | some r => rw [hrest] at hnone; simp at hnone
    | none =>
      rw [hrest] at hnone
      rcases List.mem_cons.mp hmem with rfl | hmem
      · simpa using hnone
      · exact ih hrest hmem

lemma splitLast_eq_some {p : γ → Bool} {y : γ} : ∀ {xs before after : List γ},
    splitLast p xs = some (before, y, after) →
      xs = before ++ y :: after ∧ p y = true ∧ ∀ z ∈ after, p z = false := by
  intro xs
  induction xs with
  | nil => intro before after h; simp [splitLast] at h
  | cons x xs ih =>
    intro before after h
    rw [splitLast] at h
    cases hrest : splitLast p xs with
    | some r =>
      obtain ⟨b, y', a⟩ := r
      rw [hrest] at h
      obtain ⟨rfl, rfl, rfl⟩ : x :: b = before ∧ y' = y ∧ a = after := by simpa using h
      obtain ⟨h1, h2, h3⟩ := ih hrest
      exact ⟨by rw [h1]; rfl, h2, h3⟩
    | none =>
      rw [hrest] at h
      by_cases hx : p x = true
      · obtain ⟨rfl, rfl, rfl⟩ : [] = before ∧ x = y ∧ xs = after := by simpa [hx] using h
        exact ⟨rfl, hx, fun z hz => splitLast_eq_none hrest hz⟩
      · simp [hx] at h

/-- The last node of all. -/
lemma splitLast_true {xs before after : List γ} {y : γ}
    (h : splitLast (fun _ => true) xs = some (before, y, after)) : xs = before ++ [y] := by
  obtain ⟨heq, -, hafter⟩ := splitLast_eq_some h
  cases after with
  | nil => exact heq
  | cons z after => exact absurd (hafter z (by simp)) (by decide)

/-- The last node in a view of the nodes. -/
lemma splitLast_map (f : γ → δ) (p : δ → Bool) (xs : List γ) :
    splitLast p (xs.map f) = (splitLast (fun x => p (f x)) xs).map
      fun r => (r.1.map f, f r.2.1, r.2.2.map f) := by
  induction xs with
  | nil => rfl
  | cons x xs ih =>
    rw [List.map_cons, splitLast, splitLast, ih]
    cases splitLast (fun x => p (f x)) xs with
    | some r => rfl
    | none =>
      by_cases hx : p (f x) = true
      · simp [hx]
      · simp [hx]

/-! ### Removing -/

lemma mem_removeIn {sel : γ → Bool} {remove : γ → Bool × γ} {empty : γ → Bool} {y : γ} :
    ∀ {xs : List γ}, y ∈ (removeIn sel remove empty xs).2 →
      y ∈ xs ∨ ∃ x ∈ xs, y = (remove x).2 := by
  intro xs
  induction xs with
  | nil => exact fun h => .inl h
  | cons x xs ih =>
    intro h
    have hrest : y ∈ xs ∨ (∃ x ∈ xs, y = (remove x).2) →
        y ∈ x :: xs ∨ ∃ z ∈ x :: xs, y = (remove z).2 := by
      rintro (h | ⟨z, hz, h⟩)
      · exact .inl (List.mem_cons_of_mem _ h)
      · exact .inr ⟨z, List.mem_cons_of_mem _ hz, h⟩
    rw [removeIn] at h
    split at h
    · split at h
      · exact hrest (.inl h)
      · rcases List.mem_cons.mp h with h | h
        · exact .inr ⟨x, List.mem_cons_self .., h⟩
        · exact hrest (ih h)
    · rcases List.mem_cons.mp h with h | h
      · exact .inl (by rw [h]; exact List.mem_cons_self ..)
      · exact hrest (ih h)

/-- What the removal keeps in a node stays as it is, or goes with the node. -/
lemma map_removeIn_sublist {sel : γ → Bool} {remove : γ → Bool × γ} {empty : γ → Bool}
    (f : γ → ε) (hf : ∀ x, f (remove x).2 = f x) (xs : List γ) :
    ((removeIn sel remove empty xs).2.map f).Sublist (xs.map f) := by
  induction xs with
  | nil => exact List.Sublist.slnil
  | cons x xs ih =>
    rw [removeIn, List.map_cons]
    split
    · split
      · exact List.sublist_cons_self ..
      · rw [List.map_cons, hf]
        exact ih.cons_cons _
    · exact ih.cons_cons _

/-- Removing in a view of the nodes. -/
lemma removeIn_map (f : γ → δ) {sel : γ → Bool} {remove : γ → Bool × γ} {empty : γ → Bool}
    {sel' : δ → Bool} {remove' : δ → Bool × δ} {empty' : δ → Bool}
    (hsel : ∀ x, sel' (f x) = sel x)
    (hremove : ∀ x, remove' (f x) = ((remove x).1, f (remove x).2))
    (hempty : ∀ x, empty' (f x) = empty x) (xs : List γ) :
    removeIn sel' remove' empty' (xs.map f) =
      ((removeIn sel remove empty xs).1, (removeIn sel remove empty xs).2.map f) := by
  induction xs with
  | nil => rfl
  | cons x xs ih =>
    rw [List.map_cons, removeIn, removeIn, hsel, hremove, hempty, ih]
    split
    · split <;> rfl
    · rfl

/-- What no removal takes out of a node stays. -/
lemma mem_flatMap_removeIn {sel : γ → Bool} {remove : γ → Bool × γ} {empty : γ → Bool}
    {contents : γ → List ε} {e : ε}
    (hremove : ∀ x, sel x = true → e ∈ contents x → e ∈ contents (remove x).2)
    (hempty : ∀ x, empty x = true → contents x = []) : ∀ {xs : List γ},
    e ∈ xs.flatMap contents → e ∈ (removeIn sel remove empty xs).2.flatMap contents := by
  intro xs
  induction xs with
  | nil => exact id
  | cons x xs ih =>
    intro he
    rw [List.flatMap_cons, List.mem_append] at he
    rw [removeIn]
    split
    · next hsel =>
      split
      · next hdone =>
        -- the node is empty, so that it did not hold this
        rw [Bool.and_eq_true] at hdone
        rcases he with he | he
        · have := hremove x hsel he
          rw [hempty _ hdone.2] at this
          exact absurd this List.not_mem_nil
        · exact he
      · rw [List.flatMap_cons, List.mem_append]
        exact he.imp (hremove x hsel) ih
    · rw [List.flatMap_cons, List.mem_append]
      exact he.imp_right ih

/-- The loop ends early only if something was there to be removed. -/
lemma exists_of_removeIn {sel : γ → Bool} {remove : γ → Bool × γ} {empty : γ → Bool}
    (contents : γ → List ε) (q : ε → Bool) : ∀ {xs : List γ},
    (∀ x ∈ xs, sel x = true → (remove x).1 = true → ∃ e ∈ contents x, q e = true) →
    (removeIn sel remove empty xs).1 = true → ∃ e ∈ xs.flatMap contents, q e = true := by
  intro xs
  induction xs with
  | nil => exact fun _ h => absurd h Bool.false_ne_true
  | cons x xs ih =>
    intro hok h
    have hrest : (removeIn sel remove empty xs).1 = true →
        ∃ e ∈ (x :: xs).flatMap contents, q e = true := fun h => by
      obtain ⟨e, he, hq⟩ := ih (fun y hy => hok y (List.mem_cons_of_mem _ hy)) h
      exact ⟨e, by rw [List.flatMap_cons]; exact List.mem_append_right _ he, hq⟩
    rw [removeIn] at h
    split at h
    · next hsel =>
      split at h
      · next hdone =>
        rw [Bool.and_eq_true] at hdone
        obtain ⟨e, he, hq⟩ := hok x (List.mem_cons_self ..) hsel hdone.1
        exact ⟨e, by rw [List.flatMap_cons]; exact List.mem_append_left _ he, hq⟩
      · exact hrest h
    · exact hrest h

/-- If at most one entry of all nodes is to be removed, then exactly it is removed. -/
lemma flatMap_removeIn {sel : γ → Bool} {remove : γ → Bool × γ} {empty : γ → Bool}
    (contents : γ → List ε) (q : ε → Bool) : ∀ {xs : List γ},
    (∀ x ∈ xs, sel x = false → ∀ e ∈ contents x, q e = false) →
    (∀ x ∈ xs, sel x = true → (contents x).countP q ≤ 1 →
      contents (remove x).2 = (contents x).filter (fun e => !q e)) →
    (∀ x ∈ xs, sel x = true → (remove x).1 = true → ∃ e ∈ contents x, q e = true) →
    (∀ x, empty x = true → contents x = []) →
    (xs.flatMap contents).countP q ≤ 1 →
    (removeIn sel remove empty xs).2.flatMap contents =
      (xs.flatMap contents).filter (fun e => !q e) := by
  intro xs
  induction xs with
  | nil => exact fun _ _ _ _ _ => rfl
  | cons x xs ih =>
    intro hskip hremove hok hempty hone
    rw [List.flatMap_cons, List.countP_append] at hone
    have hrest := ih (fun y hy => hskip y (List.mem_cons_of_mem _ hy))
      (fun y hy => hremove y (List.mem_cons_of_mem _ hy))
      (fun y hy => hok y (List.mem_cons_of_mem _ hy)) hempty (by omega)
    have hx : x ∈ x :: xs := List.mem_cons_self ..
    rw [removeIn, List.flatMap_cons, List.filter_append]
    by_cases hsel : sel x = true
    · rw [if_pos hsel]
      have hfilter := hremove x hx hsel (by omega)
      by_cases hdone : ((remove x).1 && empty (remove x).2) = true
      · -- the node is dropped, and nothing is to be removed from the rest
        rw [if_pos hdone]
        rw [Bool.and_eq_true] at hdone
        obtain ⟨e, he, hq⟩ := hok x hx hsel hdone.1
        have hpos : 0 < (contents x).countP q := List.countP_pos_iff.mpr ⟨e, he, hq⟩
        have hzero : (xs.flatMap contents).countP q = 0 := by omega
        rw [← hfilter, hempty _ hdone.2, List.nil_append, List.filter_eq_self.mpr]
        intro e' he'
        simpa using List.countP_eq_zero.mp hzero e' he'
      · rw [if_neg hdone, List.flatMap_cons, hrest, hfilter]
    · rw [if_neg hsel, List.flatMap_cons, hrest]
      congr 1
      refine (List.filter_eq_self.mpr fun e he => ?_).symm
      rw [hskip x hx (by simpa using hsel) e he]
      rfl

end EspIdf.Lib
