/-
# Positions on a ring

A ring of `n` places is walked by positions that only grow; position `p` stands at place
`p % n`.  Two positions less than a round apart stand at different places, and two stretches
that do not cross the end of the ring and lie within one round do not overlap.
-/
import Mathlib

namespace EspIdf.Lib.Ring

variable {n p q d s t : ℕ}

/-- The place reached after at most one round. -/
lemma add_mod_of_le (hn : 0 < n) (hd : d ≤ n) :
    (p + d) % n = if p % n + d < n then p % n + d else p % n + d - n := by
  have hp : p % n < n := Nat.mod_lt _ hn
  rw [← Nat.mod_add_mod]
  split_ifs with h
  · exact Nat.mod_eq_of_lt h
  · rw [Nat.mod_eq_sub_mod (by omega), Nat.mod_eq_of_lt (by omega)]

/-- The place reached before the end of the ring. -/
lemma add_mod_of_lt (h : p % n + d < n) : (p + d) % n = p % n + d := by
  rw [add_mod_of_le (by omega) (by omega), if_pos h]

/-- Two positions at most a round apart stand at one place only when they are equal or a full
round apart. -/
lemma mod_eq_mod_iff (hn : 0 < n) (hpq : p ≤ q) (hq : q ≤ p + n) :
    q % n = p % n ↔ q = p ∨ q = p + n := by
  obtain ⟨d, rfl⟩ := Nat.exists_eq_add_of_le hpq
  have hp : p % n < n := Nat.mod_lt _ hn
  rw [add_mod_of_le hn (by omega)]
  split_ifs with h <;> omega

/-- Two stretches of one round are apart when the second does not cross the end of the ring. -/
lemma apart (hn : 0 < n) (hqt : q % n + t ≤ n) (hpq : p + s ≤ q) (hq : q + t ≤ p + n) :
    p % n + s ≤ q % n ∨ q % n + t ≤ p % n := by
  obtain ⟨d, rfl⟩ := Nat.exists_eq_add_of_le (show p ≤ q by omega)
  have hp : p % n < n := Nat.mod_lt _ hn
  rw [add_mod_of_le hn (by omega)] at hqt ⊢
  split_ifs at hqt ⊢ with h <;> omega

/-- The place at the end of a stretch that does not cross the end of the ring. -/
lemma add_mod_of_within (hn : 0 < n) (hps : p % n + s ≤ n) :
    (p + s) % n = if p % n + s = n then 0 else p % n + s := by
  rw [add_mod_of_le hn (by omega)]
  split_ifs <;> omega

/-! ### Stretches laid end to end -/

section Chain

variable {α : Type*} (pos span : α → ℕ)

/-- The stretches `cs` lie end to end from position `p` to position `q`. -/
def Chain : ℕ → List α → ℕ → Prop
  | p, [], q => p = q
  | p, c :: cs, q => pos c = p ∧ Chain (p + span c) cs q

variable {pos span} {cs ds : List α} {c : α}

@[simp] lemma chain_nil : Chain pos span p [] q ↔ p = q := Iff.rfl

@[simp] lemma chain_cons :
    Chain pos span p (c :: cs) q ↔ pos c = p ∧ Chain pos span (p + span c) cs q := Iff.rfl

lemma chain_append :
    Chain pos span p (cs ++ ds) q ↔
      ∃ r, Chain pos span p cs r ∧ Chain pos span r ds q := by
  induction cs generalizing p with
  | nil => simp
  | cons c cs ih =>
    simp only [List.cons_append, chain_cons, ih]
    constructor
    · rintro ⟨h, r, h1, h2⟩
      exact ⟨r, ⟨h, h1⟩, h2⟩
    · rintro ⟨r, ⟨h, h1⟩, h2⟩
      exact ⟨h, r, h1, h2⟩

lemma chain_le (h : Chain pos span p cs q) : p ≤ q := by
  induction cs generalizing p with
  | nil => exact Nat.le_of_eq h
  | cons c cs ih =>
    have := ih h.2
    omega

/-- The stretches fix the end of a chain. -/
lemma chain_end {r : ℕ} (h : Chain pos span p cs q) (h' : Chain pos span p cs r) : q = r := by
  induction cs generalizing p with
  | nil => exact h.symm.trans h'
  | cons c cs ih => exact ih h.2 h'.2

/-- The stretches and the end fix the start of a chain. -/
lemma chain_begin {r : ℕ} (h : Chain pos span p cs q) (h' : Chain pos span r cs q) : p = r := by
  cases cs with
  | nil => exact Eq.trans h (Eq.symm h')
  | cons c cs => exact h.1.symm.trans h'.1

/-- A stretch of the chain lies between its ends. -/
lemma chain_mem (h : Chain pos span p cs q) (hc : c ∈ cs) :
    p ≤ pos c ∧ pos c + span c ≤ q := by
  induction cs generalizing p with
  | nil => simp at hc
  | cons b cs ih =>
    obtain ⟨hb, h⟩ := h
    rcases List.mem_cons.mp hc with rfl | hc
    · exact ⟨Nat.le_of_eq hb.symm, by rw [hb]; exact chain_le h⟩
    · have := ih h hc
      omega

/-- A chain of stretches that are not empty is itself empty only when it has none. -/
lemma chain_eq_nil (hpos : ∀ c ∈ cs, 0 < span c) (h : Chain pos span p cs p) : cs = [] := by
  cases cs with
  | nil => rfl
  | cons c cs =>
    have h1 := chain_le h.2
    have h2 := hpos c List.mem_cons_self
    omega

/-- Two stretches of a chain come one after the other. -/
lemma chain_pairwise (h : Chain pos span p cs q) :
    cs.Pairwise fun b c => pos b + span b ≤ pos c := by
  induction cs generalizing p with
  | nil => exact List.Pairwise.nil
  | cons b cs ih =>
    refine List.Pairwise.cons (fun c hc => ?_) (ih h.2)
    have := (chain_mem h.2 hc).1
    rw [h.1]
    exact this

lemma chain_congr {f : α → α} (hp : ∀ c ∈ cs, pos (f c) = pos c)
    (hs : ∀ c ∈ cs, span (f c) = span c) :
    Chain pos span p (cs.map f) q ↔ Chain pos span p cs q := by
  induction cs generalizing p with
  | nil => rfl
  | cons c cs ih =>
    simp only [List.map_cons, chain_cons, hp c List.mem_cons_self, hs c List.mem_cons_self]
    rw [ih (fun c hc => hp c (List.mem_cons_of_mem _ hc))
      (fun c hc => hs c (List.mem_cons_of_mem _ hc))]

end Chain

end EspIdf.Lib.Ring
