/-
# State-passing programs with an abnormal outcome

Firmware functions read and update a state and either return a value or leave abnormally.
A program keeps the state it had reached when it left: what had been written before the
abnormal outcome stays written.  The rules below run a program forward one bind at a time,
and carry an invariant through a counted loop.
-/
import Mathlib

namespace EspIdf.Lib

/-- A program over the state `σ` that returns an `α` or leaves with an `ε`. -/
def Prog (σ ε α : Type) : Type := σ → Except ε α × σ

namespace Prog

variable {σ ε α β : Type}

instance : Monad (Prog σ ε) where
  pure a := fun s => (.ok a, s)
  bind m f := fun s =>
    match m s with
    | (.ok a, s') => f a s'
    | (.error e, s') => (.error e, s')

/-- The current state. -/
def get : Prog σ ε σ := fun s => (.ok s, s)

/-- Change the state. -/
def modify (f : σ → σ) : Prog σ ε Unit := fun s => (.ok (), f s)

/-- Leave with `e`. -/
def throw (e : ε) : Prog σ ε α := fun s => (.error e, s)

/-- `m` started in `s` returns `a` and ends in `s'`. -/
def Returns (m : Prog σ ε α) (s : σ) (a : α) (s' : σ) : Prop := m s = (.ok a, s')

lemma pure_apply (a : α) (s : σ) : (pure a : Prog σ ε α) s = (.ok a, s) := rfl

lemma bind_apply (m : Prog σ ε α) (f : α → Prog σ ε β) (s : σ) :
    (m >>= f) s = match m s with
      | (.ok a, s') => f a s'
      | (.error e, s') => (.error e, s') := rfl

lemma bind_ok {m : Prog σ ε α} {f : α → Prog σ ε β} {s s' : σ} {a : α}
    (h : m s = (.ok a, s')) : (m >>= f) s = f a s' := by
  rw [bind_apply, h]

lemma bind_error {m : Prog σ ε α} {f : α → Prog σ ε β} {s s' : σ} {e : ε}
    (h : m s = (.error e, s')) : (m >>= f) s = (.error e, s') := by
  rw [bind_apply, h]

lemma get_bind (f : σ → Prog σ ε β) (s : σ) : (get >>= f) s = f s s := rfl

lemma modify_bind (g : σ → σ) (f : Unit → Prog σ ε β) (s : σ) :
    (modify g >>= f) s = f () (g s) := rfl

lemma pure_bind_apply (a : α) (f : α → Prog σ ε β) (s : σ) :
    ((pure a : Prog σ ε α) >>= f) s = f a s := rfl

lemma bind_bind {γ : Type} (m : Prog σ ε α) (f : α → Prog σ ε β) (g : β → Prog σ ε γ) :
    (m >>= f) >>= g = m >>= fun a => f a >>= g := by
  funext s
  simp only [bind_apply]
  cases m s with
  | mk r s' => cases r <;> rfl

/-- What a bind that returns has done. -/
lemma bind_returns {m : Prog σ ε α} {f : α → Prog σ ε β} {s s'' : σ} {b : β}
    (h : (m >>= f) s = (.ok b, s'')) : ∃ a s', m s = (.ok a, s') ∧ f a s' = (.ok b, s'') := by
  rw [bind_apply] at h
  cases hm : m s with
  | mk r s' =>
    rw [hm] at h
    cases r with
    | error e => simp at h
    | ok a => exact ⟨a, s', rfl, h⟩

/-- Run `f 0, …, f (n - 1)` in turn. -/
def upTo (f : ℕ → Prog σ ε Unit) : ℕ → Prog σ ε Unit
  | 0 => pure ()
  | n + 1 => do upTo f n; f n

/-- The loop rule: an invariant that every pass moves one index further holds after the
last one. -/
lemma upTo_returns {f : ℕ → Prog σ ε Unit} {I : ℕ → σ → Prop} {n : ℕ}
    (hstep : ∀ i < n, ∀ s, I i s → ∃ s', f i s = (.ok (), s') ∧ I (i + 1) s')
    {s : σ} (h0 : I 0 s) : ∃ s', upTo f n s = (.ok (), s') ∧ I n s' := by
  induction n with
  | zero => exact ⟨s, rfl, h0⟩
  | succ n ih =>
    obtain ⟨s₁, h1, hI⟩ := ih (fun i hi => hstep i (by omega))
    obtain ⟨s₂, h2, hI2⟩ := hstep n (by omega) s₁ hI
    exact ⟨s₂, by rw [upTo, bind_ok h1, h2], hI2⟩

/-! ### Triples -/

/-- Started in a state with `P`, `m` returns in a state with `Q` or leaves in a state with `E`. -/
def Triple (P : σ → Prop) (m : Prog σ ε α) (Q : α → σ → Prop) (E : ε → σ → Prop) : Prop :=
  ∀ s, P s → match m s with
    | (.ok a, s') => Q a s'
    | (.error e, s') => E e s'

namespace Triple

variable {P P' J : σ → Prop} {Q Q' : α → σ → Prop} {R : β → σ → Prop} {E E' : ε → σ → Prop}
  {m : Prog σ ε α} {f : α → Prog σ ε β}

lemma of_ok (h : ∀ s, P s → ∃ a s', m s = (.ok a, s') ∧ Q a s') : Triple P m Q E := by
  intro s hs
  obtain ⟨a, s', hrun, hq⟩ := h s hs
  rw [hrun]
  exact hq

lemma returns (h : Triple P m Q E) {s s' : σ} {a : α} (hs : P s) (hrun : m s = (.ok a, s')) :
    Q a s' := by
  have := h s hs
  rwa [hrun] at this

lemma pure {a : α} (h : ∀ s, P s → Q a s) : Triple P (Pure.pure a : Prog σ ε α) Q E :=
  fun s hs => h s hs

lemma throw {e : ε} (h : ∀ s, P s → E e s) : Triple P (Prog.throw e : Prog σ ε α) Q E :=
  fun s hs => h s hs

lemma modify {g : σ → σ} {Q : Unit → σ → Prop} (h : ∀ s, P s → Q () (g s)) :
    Triple P (Prog.modify g : Prog σ ε Unit) Q E :=
  fun s hs => h s hs

lemma bind (hm : Triple P m Q E) (hf : ∀ a, Triple (Q a) (f a) R E) :
    Triple P (m >>= f) R E := by
  intro s hs
  have h := hm s hs
  rw [bind_apply]
  split at h
  · next a s' hrun =>
    exact hf a s' h
  · next e s' hrun =>
    exact h

/-- A program that starts with a look at the state. -/
lemma get_bind {f : σ → Prog σ ε β} (h : ∀ s, P s → Triple P (f s) R E) :
    Triple P (Prog.get >>= f) R E :=
  fun s hs => h s hs s hs

/-- A look at the state with what the rest of the program knows of it. -/
lemma get_bind_eq {f : σ → Prog σ ε β} (h : ∀ s, P s → Triple (fun t => t = s) (f s) R E) :
    Triple P (Prog.get >>= f) R E :=
  fun s hs => h s hs s rfl

lemma modify_bind {g : σ → σ} {f : Unit → Prog σ ε β} (hg : ∀ s, P s → J (g s))
    (hf : Triple J (f ()) R E) : Triple P (Prog.modify g >>= f) R E :=
  fun s hs => hf (g s) (hg s hs)

lemma conseq (h : Triple P m Q E) (hP : ∀ s, P' s → P s) (hQ : ∀ a s, Q a s → Q' a s)
    (hE : ∀ e s, E e s → E' e s) : Triple P' m Q' E' := by
  intro s hs
  have hm := h s (hP s hs)
  split at hm
  · next a s' hrun =>
    exact hQ a s' hm
  · next e s' hrun =>
    exact hE e s' hm

/-- What is known of one run from two triples. -/
lemma and (h : Triple P m Q E) (h' : Triple P' m Q' E') :
    Triple (fun s => P s ∧ P' s) m (fun a s => Q a s ∧ Q' a s) fun x s => E x s ∧ E' x s := by
  intro s hs
  have h1 := h s hs.1
  have h2 := h' s hs.2
  cases hrun : m s with
  | mk r s' =>
    rw [hrun] at h1 h2
    cases r with
    | ok a => exact ⟨h1, h2⟩
    | error e => exact ⟨h1, h2⟩

/-- What is known whatever the state is a hypothesis. -/
lemma assume {φ : Prop} (h : φ → Triple P m Q E) : Triple (fun s => φ ∧ P s) m Q E :=
  fun s hs => h hs.1 s hs.2

/-- The run from one state. -/
lemma at_state {s : σ} (h : Triple P m Q E) (hs : P s) : Triple (fun t => t = s) m Q E :=
  fun t ht => h t (ht ▸ hs)

/-- What is known to exist has a name. -/
lemma of_exists {ι : Sort*} {P : ι → σ → Prop} (h : ∀ i, Triple (P i) m Q E) :
    Triple (fun s => ∃ i, P i s) m Q E := by
  rintro s ⟨i, hs⟩
  exact h i s hs

lemma ite {c : Prop} [Decidable c] {m' : Prog σ ε α} (ht : c → Triple P m Q E)
    (he : ¬ c → Triple P m' Q E) : Triple P (if c then m else m') Q E := by
  split
  · next h => exact ht h
  · next h => exact he h

/-- Passes that each keep an invariant keep it together. -/
lemma upTo {g : ℕ → Prog σ ε Unit} {n : ℕ} (h : ∀ i < n, Triple P (g i) (fun _ => P) E) :
    Triple P (Prog.upTo g n) (fun _ => P) E := by
  induction n with
  | zero => exact pure fun _ hs => hs
  | succ n ih => exact bind (ih fun i hi => h i (by omega)) fun _ => h n (by omega)

end Triple

end Prog
end EspIdf.Lib
