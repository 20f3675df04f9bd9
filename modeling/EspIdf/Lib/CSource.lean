/-
# Source text of C

The first phases of a compiler: a line that ends in a backslash goes on in the next one, and a
comment behind `//` goes up to the end of its line.
-/
import Mathlib

namespace EspIdf.Lib

/-- The line goes on in the next one. -/
def IsContinued (l : List Char) : Prop := l.getLast? = some '\\'

instance (l : List Char) : Decidable (IsContinued l) :=
  inferInstanceAs (Decidable (l.getLast? = some '\\'))

/-- The lines after splicing, where `cur` is what has been spliced so far. -/
def splice : List Char → List (List Char) → List (List Char)
  | cur, [] => if cur = [] then [] else [cur]
  | cur, l :: ls =>
    if IsContinued l then splice (cur ++ l.dropLast) ls else (cur ++ l) :: splice [] ls

/-- A line without its comment. -/
def uncomment : List Char → List Char
  | [] => []
  | [c] => [c]
  | c :: d :: s => if c = '/' ∧ d = '/' then [] else c :: uncomment (d :: s)

/-- The lines of a text as a compiler reads them. -/
def logicalLines (ls : List (List Char)) : List (List Char) := (splice [] ls).map uncomment

/-- What is left of the lines when the comment before them goes on. -/
def dropContinued : List (List Char) → List (List Char)
  | [] => []
  | l :: ls => if IsContinued l then dropContinued ls else ls

example : splice [] [['a', '\\'], ['b']] = [['a', 'b']] := by
  rw [splice, splice, splice]
  rfl

example : uncomment ['a', '/', '/', 'b'] = ['a'] := by
  rw [uncomment, uncomment]
  rfl

variable {l s t : List Char} {ls ls' : List (List Char)}

lemma uncomment_eq_self (h : '/' ∉ s) : uncomment s = s := by
  fun_induction uncomment s with
  | case1 => rfl
  | case2 => rfl
  | case3 c d s hslash => exact absurd (hslash.1 ▸ List.mem_cons_self) h
  | case4 c d s hslash ih => rw [ih fun hmem => h (List.mem_cons_of_mem _ hmem)]

lemma uncomment_comment (h : '/' ∉ s) : uncomment (s ++ '/' :: '/' :: t) = s := by
  induction s with
  | nil => rfl
  | cons c s ih =>
    have hc : c ≠ '/' := fun heq => h (heq ▸ List.mem_cons_self)
    have ih := ih fun hmem => h (List.mem_cons_of_mem _ hmem)
    cases s with
    | nil => simp [uncomment, hc]
    | cons d s =>
      rw [List.cons_append, List.cons_append, uncomment, if_neg (fun heq => hc heq.1),
        ← List.cons_append, ih]

lemma isContinued_append (h : t ≠ []) : IsContinued (s ++ t) ↔ IsContinued t := by
  rw [IsContinued, IsContinued, List.getLast?_append_of_ne_nil _ h]

/-- Lines that do not go on are spliced with nothing. -/
lemma logicalLines_append (h : ∀ l ∈ ls, ¬ IsContinued l) :
    logicalLines (ls ++ ls') = ls.map uncomment ++ logicalLines ls' := by
  induction ls with
  | nil => rfl
  | cons l ls ih =>
    have ih := ih fun l hl => h l (List.mem_cons_of_mem _ hl)
    rw [logicalLines] at ih ⊢
    rw [List.cons_append, splice, if_neg (h l List.mem_cons_self), List.map_cons, ih]
    rfl

lemma logicalLines_cons (h : ¬ IsContinued l) :
    logicalLines (l :: ls) = uncomment l :: logicalLines ls :=
  logicalLines_append (fun l' hl' => by rwa [List.mem_singleton.1 hl'])

/-- A comment that goes on takes the next lines with it. -/
lemma splice_comment (h : '/' ∉ s) :
    (splice (s ++ '/' :: '/' :: t) ls).map uncomment = s :: logicalLines (dropContinued ls) := by
  induction ls generalizing t with
  | nil => simp [splice, uncomment_comment h, logicalLines, dropContinued]
  | cons l ls ih =>
    rw [splice, dropContinued]
    split
    · rw [List.append_assoc]
      exact ih
    · rw [List.map_cons, List.append_assoc, List.cons_append, List.cons_append,
        uncomment_comment h]
      rfl

lemma logicalLines_comment (h : '/' ∉ s) (hl : IsContinued (s ++ '/' :: '/' :: ' ' :: t)) :
    logicalLines ((s ++ '/' :: '/' :: ' ' :: t) :: ls) = s :: logicalLines (dropContinued ls) := by
  have hdrop : (s ++ '/' :: '/' :: ' ' :: t).dropLast =
      s ++ '/' :: '/' :: (' ' :: t).dropLast := by
    rw [List.dropLast_append_of_ne_nil (by simp)]
    simp
  rw [logicalLines, splice, if_pos hl, List.nil_append, hdrop, splice_comment h]

end EspIdf.Lib
