/-
# Text in Python

What the table generator uses of Python 3 on text: lines, white space and numbers.
-/
import EspIdf.PartitionTable.Generator

namespace EspIdf.PartitionTable

open Lib

/-! ### Lines and white space -/

/-- The characters at which `str.splitlines` ends a line. -/
def isLineBoundary (c : Char) : Bool :=
  c ∈ ['\n', '\r', '\x0b', '\x0c', '\x1c', '\x1d', '\x1e', '\x85', '\u2028', '\u2029']

/-- `str.isspace` for one character. -/
def isSpace (c : Char) : Bool :=
  isLineBoundary c ||
    c ∈ ['\t', '\x1f', ' ', '\xa0', '\u1680', '\u202f', '\u205f', '\u3000'] ||
    ('\u2000' ≤ c && c ≤ '\u200a')

/-- `str.splitlines` with the current line so far. -/
def splitlinesFrom : Str → Str → List Str
  | cur, [] => if cur = [] then [] else [cur]
  | cur, '\r' :: '\n' :: s => cur :: splitlinesFrom [] s
  | cur, c :: s =>
    if isLineBoundary c then cur :: splitlinesFrom [] s else splitlinesFrom (cur ++ [c]) s

/-- `str.splitlines`. -/
def splitlines (s : Str) : List Str := splitlinesFrom [] s

/-- `str.strip`. -/
def strip (s : Str) : Str := ((s.dropWhile isSpace).reverse.dropWhile isSpace).reverse

lemma splitlinesFrom_cons {c : Char} (hc : isLineBoundary c = false) (cur s : Str) :
    splitlinesFrom cur (c :: s) = splitlinesFrom (cur ++ [c]) s := by
  rw [splitlinesFrom]
  · rw [if_neg (by simp [hc])]
  · rintro s' rfl
    simp [isLineBoundary] at hc

/-- A line is read up to its end. -/
lemma splitlinesFrom_append {line : Str} (h : ∀ c ∈ line, isLineBoundary c = false)
    (cur s : Str) : splitlinesFrom cur (line ++ s) = splitlinesFrom (cur ++ line) s := by
  induction line generalizing cur with
  | nil => simp
  | cons c line ih =>
    rw [List.cons_append, splitlinesFrom_cons (h c List.mem_cons_self),
      ih (fun c hc => h c (List.mem_cons_of_mem _ hc)), List.append_assoc]
    rfl

lemma splitlines_line {line : Str} (h : ∀ c ∈ line, isLineBoundary c = false) (s : Str) :
    splitlines (line ++ '\n' :: s) = line :: splitlines s := by
  rw [splitlines, splitlinesFrom_append h, List.nil_append, splitlinesFrom, if_pos (by decide)]
  · rfl
  · rintro s' h' -
    exact absurd h' (by decide)

/-- A boundary ends the line. -/
lemma splitlines_boundary {line : Str} (h : ∀ c ∈ line, isLineBoundary c = false) {c : Char}
    (hc : isLineBoundary c = true) (s : Str) :
    ∃ lines, splitlines (line ++ c :: s) = line :: lines := by
  rw [splitlines, splitlinesFrom_append h, List.nil_append]
  cases s with
  | nil =>
    rw [splitlinesFrom, if_pos hc]
    · exact ⟨_, rfl⟩
    · rintro s' - h'
      cases h'
  | cons d s =>
    by_cases hcrlf : c = '\r' ∧ d = '\n'
    · obtain ⟨rfl, rfl⟩ := hcrlf
      exact ⟨_, by rw [splitlinesFrom]⟩
    · rw [splitlinesFrom, if_pos hc]
      · exact ⟨_, rfl⟩
      · rintro s' rfl h'
        exact hcrlf ⟨rfl, (List.cons.inj h').1⟩

lemma dropWhile_eq_self {s : Str} (h : ∀ c, s.head? = some c → isSpace c = false) :
    s.dropWhile isSpace = s := by
  cases s with
  | nil => rfl
  | cons c s => exact List.dropWhile_cons_of_neg (by simp [h c rfl])

/-- Text that neither begins nor ends with white space. -/
lemma strip_eq_self {s : Str} (hhead : ∀ c, s.head? = some c → isSpace c = false)
    (hlast : ∀ c, s.getLast? = some c → isSpace c = false) : strip s = s := by
  rw [strip, dropWhile_eq_self hhead, dropWhile_eq_self (by rwa [List.head?_reverse]),
    List.reverse_reverse]

lemma head_of_strip {s : Str} (h : strip s = s) : ∀ c, s.head? = some c → isSpace c = false := by
  cases s with
  | nil => exact fun c hc => by cases hc
  | cons d s =>
    rintro c ⟨⟩
    by_contra hspace
    have hlen := congrArg List.length h
    rw [strip, List.dropWhile_cons_of_pos (by simpa using hspace), List.length_reverse] at hlen
    have h1 := (List.dropWhile_suffix isSpace (l := (s.dropWhile isSpace).reverse)).length_le
    have h2 := (List.dropWhile_suffix isSpace (l := s)).length_le
    rw [List.length_reverse] at h1
    rw [List.length_cons] at hlen
    omega

/-- What is stripped from text that begins with no white space is at its end. -/
lemma strip_cons {c : Char} (hc : isSpace c = false) (s : Str) :
    ∃ s', strip (c :: s) = c :: s' ∧ ∀ d ∈ s', d ∈ s := by
  refine ⟨(s.reverse.dropWhile isSpace).reverse, ?_, fun d hd => ?_⟩
  · rw [strip, List.dropWhile_cons_of_neg (by simp [hc]), List.reverse_cons, List.dropWhile_append]
    split
    · next hempty =>
      rw [List.isEmpty_iff.mp hempty, List.dropWhile_cons_of_neg (by simp [hc])]
      rfl
    · rw [List.reverse_append]
      rfl
  · have := (List.dropWhile_suffix isSpace).subset (List.mem_reverse.mp hd)
    exact List.mem_reverse.mp this

/-! ### Numbers -/

/-- `"%d" % n`. -/
def dec (n : ℤ) : Str :=
  if n < 0 then '-' :: Nat.toDigits 10 n.natAbs else Nat.toDigits 10 n.natAbs

/-- `"0x%x" % n`. -/
def hex (n : ℤ) : Str :=
  '0' :: 'x' :: (if n < 0 then '-' :: Nat.toDigits 16 n.natAbs else Nat.toDigits 16 n.natAbs)

/-- The characters of numbers and keywords. -/
def isWordChar (c : Char) : Bool := c.isAlphanum || c == '_'

lemma isDigitChar_of_lt {d : ℕ} (h : d < 16) : d.digitChar ∈ "0123456789abcdef".toList := by
  interval_cases d <;> decide

lemma mem_toDigits {b n : ℕ} (hb : 1 < b) (hb' : b ≤ 16) {c : Char} (hc : c ∈ Nat.toDigits b n) :
    c ∈ "0123456789abcdef".toList := by
  induction n using Nat.strongRecOn with
  | _ n ih =>
    rw [Nat.toDigits_eq_if hb] at hc
    split at hc
    · rw [List.mem_singleton.mp hc]
      exact isDigitChar_of_lt (by omega)
    · rcases List.mem_append.mp hc with hc | hc
      · exact ih (n / b) (Nat.div_lt_self (by omega) hb) hc
      · rw [List.mem_singleton.mp hc]
        exact isDigitChar_of_lt (Nat.lt_of_lt_of_le (Nat.mod_lt _ (by omega)) hb')

example : strip [' ', 'a', ' '] = ['a'] := by decide +kernel

end EspIdf.PartitionTable
