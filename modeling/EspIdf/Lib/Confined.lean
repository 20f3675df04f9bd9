/-
# Confined programs

A program is confined to a relation when every run of it ends in a state that the relation
allows, whichever way it leaves, and when it never leaves in some of the ways.  Over a preorder
the confined programs are closed under everything that programs are built from.
-/
import EspIdf.Lib.Prog

namespace EspIdf.Lib.Prog

variable {σ ε α β : Type} {R R' : σ → σ → Prop} {B : Set ε} {m : Prog σ ε α}
  {f : α → Prog σ ε β}

/-- Every run of `m` ends within `R`, and none leaves with an outcome of `B`. -/
def Confined (R : σ → σ → Prop) (B : Set ε) (m : Prog σ ε α) : Prop :=
  ∀ s, R s (m s).2 ∧ ∀ e, (m s).1 = .error e → e ∉ B

namespace Confined

lemma pure [Std.Refl R] (a : α) : Confined R B (Pure.pure a : Prog σ ε α) :=
  fun s => ⟨refl_of R s, fun _ he => nomatch he⟩

lemma get [Std.Refl R] : Confined R B (Prog.get : Prog σ ε σ) :=
  fun s => ⟨refl_of R s, fun _ he => nomatch he⟩

lemma throw [Std.Refl R] {e : ε} (he : e ∉ B) : Confined R B (Prog.throw e : Prog σ ε α) := by
  intro s
  refine ⟨refl_of R s, fun e' he' => ?_⟩
  cases he'
  exact he

lemma modify {g : σ → σ} (h : ∀ s, R s (g s)) : Confined R B (Prog.modify g) :=
  fun s => ⟨h s, fun _ he => nomatch he⟩

/-- A bind whose second part is confined for what the first one returns. -/
lemma bind_of [IsTrans σ R] {φ : α → Prop} (hm : Confined R B m)
    (hφ : ∀ s a s', m s = (.ok a, s') → φ a) (hf : ∀ a, φ a → Confined R B (f a)) :
    Confined R B (m >>= f) := by
  intro s
  obtain ⟨hR, hB⟩ := hm s
  rw [bind_apply]
  cases hrun : m s with
  | mk r s' =>
    rw [hrun] at hR hB
    cases r with
    | error e =>
      refine ⟨hR, fun e' he => ?_⟩
      cases he
      exact hB e rfl
    | ok a =>
      have h := hf a (hφ s a s' hrun) s'
      exact ⟨trans_of R hR h.1, h.2⟩

lemma bind [IsTrans σ R] (hm : Confined R B m) (hf : ∀ a, Confined R B (f a)) :
    Confined R B (m >>= f) :=
  hm.bind_of (fun _ _ _ _ => trivial) fun a _ => hf a

lemma ite {c : Prop} [Decidable c] {m' : Prog σ ε α} (ht : c → Confined R B m)
    (he : ¬ c → Confined R B m') : Confined R B (if c then m else m') := by
  split
  · next h => exact ht h
  · next h => exact he h

lemma mono (h : Confined R B m) (hR : ∀ s s', R s s' → R' s s') : Confined R' B m :=
  fun s => ⟨hR _ _ (h s).1, (h s).2⟩

/-- The state and the outcome after a run that returns. -/
lemma of_ok (h : Confined R B m) {s s' : σ} {a : α} (hrun : m s = (.ok a, s')) : R s s' := by
  have := (h s).1
  rwa [hrun] at this

/-- The state and the outcome after a run that leaves. -/
lemma of_error (h : Confined R B m) {s s' : σ} {e : ε} (hrun : m s = (.error e, s')) :
    R s s' ∧ e ∉ B := by
  have := h s
  rw [hrun] at this
  exact ⟨this.1, this.2 e rfl⟩

/-- A confined program keeps what the relation keeps. -/
lemma triple (h : Confined R B m) {P Q : σ → Prop} (hPQ : ∀ s s', P s → R s s' → Q s') :
    Triple P m (fun _ => Q) (fun e s => Q s ∧ e ∉ B) := by
  intro s hs
  cases hrun : m s with
  | mk r s' =>
    cases r with
    | ok a => exact hPQ s s' hs (h.of_ok hrun)
    | error e => exact ⟨hPQ s s' hs (h.of_error hrun).1, (h.of_error hrun).2⟩

end Confined

end EspIdf.Lib.Prog
