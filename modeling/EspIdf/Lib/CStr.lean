/-
# Strings of C

A string is the list of its bytes without the `NUL`, a pointer into it the rest of the string from
there on.  Letters are compared as the ASCII locale does.
-/
import EspIdf.Lib.Crc32

namespace EspIdf.Lib

/-- `tolower`. -/
def toLower (b : Byte) : Byte := if 0x41 ≤ b ∧ b ≤ 0x5a then b + 0x20 else b

/-- A string in small letters. -/
def fold (s : List Byte) : List Byte := s.map toLower

/-- Whether `strncasecmp` finds no difference. -/
def strncasecmpEq : List Byte → List Byte → ℕ → Bool
  | _, _, 0 => true
  | [], [], _ + 1 => true
  | a :: s, b :: t, n + 1 => toLower a == toLower b && strncasecmpEq s t n
  | _, _, _ + 1 => false

/-- `strchr`. -/
def strchr (c : Byte) : List Byte → Option (List Byte)
  | [] => none
  | b :: s => if b = c then some (b :: s) else strchr c s

/-- `strrchr`: the string in front of the last `c`, and what stands behind it. -/
def strrchr (c : Byte) : List Byte → Option (List Byte × List Byte)
  | [] => none
  | b :: s =>
    match strrchr c s with
    | some (pre, rest) => some (b :: pre, rest)
    | none => if b = c then some ([], s) else none

/-- `strlcpy` to a buffer, of which `size` bytes may be used. -/
def strlcpy (dst src : List Byte) (size : ℕ) : List Byte :=
  if size = 0 then dst
  else src.take (size - 1) ++ 0 :: dst.drop ((src.take (size - 1)).length + 1)

example : strncasecmpEq [0x41] [0x61, 0x62] 1 = true := by
  rw [strncasecmpEq, strncasecmpEq]
  rfl

example : strchr 0x2e [0x2e, 0x62] = some [0x2e, 0x62] := by rw [strchr, if_pos rfl]

example : strrchr 0x2e [0x2e] = some ([], []) := by
  rw [strrchr, strrchr]
  rfl

/-! ### Searching -/

variable {c : Byte} {s t : List Byte}

lemma strchr_append (h : c ∉ s) : strchr c (s ++ c :: t) = some (c :: t) := by
  induction s with
  | nil => simp [strchr]
  | cons b s ih =>
    rw [List.mem_cons, not_or] at h
    rw [List.cons_append, strchr, if_neg (Ne.symm h.1), ih h.2]

lemma strchr_eq_none (h : c ∉ s) : strchr c s = none := by
  induction s with
  | nil => rfl
  | cons b s ih =>
    rw [List.mem_cons, not_or] at h
    rw [strchr, if_neg (Ne.symm h.1), ih h.2]

/-- What is found is a part of the string. -/
lemma strchr_length (h : strchr c s = some t) : t.length ≤ s.length ∧ t ≠ [] := by
  induction s with
  | nil => simp [strchr] at h
  | cons b s ih =>
    rw [strchr] at h
    split at h
    · cases h
      simp
    · have := ih h
      exact ⟨by simp only [List.length_cons]; omega, this.2⟩

lemma strrchr_eq_none (h : c ∉ s) : strrchr c s = none := by
  induction s with
  | nil => rfl
  | cons b s ih =>
    rw [List.mem_cons, not_or] at h
    rw [strrchr, ih h.2]
    exact if_neg (Ne.symm h.1)

lemma notMem_of_strrchr (h : strrchr c s = none) : c ∉ s := by
  induction s with
  | nil => exact List.not_mem_nil
  | cons b s ih =>
    rw [strrchr] at h
    split at h
    · cases h
    · next heq =>
      split at h
      · cases h
      · next hb =>
        rw [List.mem_cons, not_or]
        exact ⟨Ne.symm hb, ih heq⟩

lemma strrchr_append (pre : List Byte) (h : c ∉ t) : strrchr c (pre ++ c :: t) = some (pre, t) := by
  induction pre with
  | nil => rw [List.nil_append, strrchr, strrchr_eq_none h, if_pos rfl]
  | cons b pre ih => rw [List.cons_append, strrchr, ih]

lemma strrchr_some {pre : List Byte} (h : strrchr c s = some (pre, t)) :
    s = pre ++ c :: t ∧ c ∉ t := by
  induction s generalizing pre with
  | nil => cases h
  | cons b s ih =>
    rw [strrchr] at h
    split at h
    · next p r heq =>
      cases h
      obtain ⟨rfl, hnot⟩ := ih heq
      exact ⟨rfl, hnot⟩
    · next heq =>
      split at h
      · next hb =>
        cases h
        exact ⟨by rw [hb, List.nil_append], notMem_of_strrchr heq⟩
      · cases h

/-! ### Comparing -/

@[simp] lemma length_fold (s : List Byte) : (fold s).length = s.length := by simp [fold]

/-- A comparison of as many bytes as the first string has, when the second one is as long. -/
lemma strncasecmpEq_append (r : List Byte) (h : s.length = t.length) :
    strncasecmpEq (s ++ r) t s.length = true ↔ fold s = fold t := by
  induction s generalizing t with
  | nil =>
    cases t with
    | nil => simp [strncasecmpEq]
    | cons b t => simp at h
  | cons a s ih =>
    cases t with
    | nil => simp at h
    | cons b t =>
      have hlen : s.length = t.length := by simpa using h
      simp only [List.cons_append, List.length_cons, strncasecmpEq, Bool.and_eq_true, beq_iff_eq,
        ih hlen, fold, List.map_cons, List.cons.injEq]

/-- A byte that is no letter is in a string in small letters if it is in the string. -/
lemma mem_fold (hc : ∀ b, toLower b = c ↔ b = c) : c ∈ fold s ↔ c ∈ s := by
  simp [fold, hc]

end EspIdf.Lib
