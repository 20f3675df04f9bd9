/-
# Numbers in strings of C

`%d` prints a number in decimal, and `strtol` reads one back, behind white space and a sign and as
far as it fits into a `long` of 32 bits.
-/
import EspIdf.Lib.CStr

namespace EspIdf.Lib

/-- `isspace`. -/
def isspace (b : Byte) : Bool := b == 0x20 || (0x09 ≤ b && b ≤ 0x0d)

/-- `isdigit`. -/
def isDigit (b : Byte) : Bool := 0x30 ≤ b && b ≤ 0x39

/-- A number in decimal. -/
def decimal (n : ℕ) : List Byte := (Nat.toDigits 10 n).map fun c => BitVec.ofNat 8 c.toNat

/-- `%d`. -/
def printInt (i : ℤ) : List Byte := if i < 0 then 0x2d :: decimal i.natAbs else decimal i.natAbs

/-- The number that a string of digits stands for. -/
def digitsVal (s : List Byte) : ℕ := s.foldl (fun n b => 10 * n + (b.toNat - 0x30)) 0

/-- `LONG_MAX`, and `INT_MAX`. -/
def longMax : ℕ := 2 ^ 31 - 1

/-- An `int` after an operation that may overflow. -/
def wrapInt (i : ℤ) : ℤ := (i + 2 ^ 31) % 2 ^ 32 - 2 ^ 31

/-- The sign in front of a number: whether it is negative. -/
def readSign : List Byte → Bool × List Byte
  | [] => (false, [])
  | b :: s => if b = 0x2d then (true, s) else if b = 0x2b then (false, s) else (false, b :: s)

/-- `strtol` with the base 10: the number, and what stands behind it. -/
def strtol (s : List Byte) : ℤ × List Byte :=
  let (neg, t) := readSign (s.dropWhile isspace)
  let digits := t.takeWhile isDigit
  if digits = [] then (0, s)
  else
    (if neg then max (-(longMax : ℤ) - 1) (-digitsVal digits) else min (digitsVal digits) longMax,
      t.drop digits.length)

/-! ### Digits -/

variable {s : List Byte} {n : ℕ}

lemma decimal_of_lt (h : n < 10) : decimal n = [BitVec.ofNat 8 (0x30 + n)] := by
  rw [decimal, Nat.toDigits_of_lt_base h, List.map_singleton]
  decide +revert

lemma decimal_of_ge (h : 10 ≤ n) : decimal n = decimal (n / 10) ++ decimal (n % 10) := by
  rw [decimal, Nat.toDigits_of_base_le (by decide) h, List.map_append, decimal, decimal,
    Nat.toDigits_of_lt_base (Nat.mod_lt _ (by decide))]

lemma decimal_spec (n : ℕ) :
    (∀ b ∈ decimal n, isDigit b = true) ∧ digitsVal (decimal n) = n := by
  induction n using Nat.strong_induction_on with
  | _ n ih =>
    have hdigit : ∀ d < 10, isDigit (BitVec.ofNat 8 (0x30 + d)) = true ∧
        (BitVec.ofNat 8 (0x30 + d)).toNat - 0x30 = d := by
      decide
    by_cases h : n < 10
    · obtain ⟨hd1, hd2⟩ := hdigit n h
      rw [decimal_of_lt h]
      refine ⟨fun b hb => by rwa [List.mem_singleton.1 hb], ?_⟩
      rw [digitsVal, List.foldl_cons, List.foldl_nil, hd2]
      omega
    · obtain ⟨hall, hval⟩ := ih (n / 10) (by omega)
      obtain ⟨hd1, hd2⟩ := hdigit (n % 10) (Nat.mod_lt _ (by decide))
      rw [decimal_of_ge (Nat.not_lt.1 h), decimal_of_lt (Nat.mod_lt _ (by decide))]
      constructor
      · intro b hb
        rcases List.mem_append.1 hb with hb | hb
        · exact hall b hb
        · rwa [List.mem_singleton.1 hb]
      · rw [digitsVal, List.foldl_append, ← digitsVal, hval, List.foldl_cons, List.foldl_nil, hd2]
        omega

lemma decimal_ne_nil (n : ℕ) : decimal n ≠ [] := by
  simp [decimal, Nat.toDigits_ne_nil]

lemma length_decimal_le_iff {k : ℕ} (hk : 0 < k) : (decimal n).length ≤ k ↔ n < 10 ^ k := by
  rw [decimal, List.length_map, Nat.length_toDigits_le_iff (by decide) hk]

lemma isDigit_toNat {b : Byte} (h : isDigit b = true) : b.toNat - 0x30 < 10 := by
  simp only [isDigit, Bool.and_eq_true, decide_eq_true_eq, BitVec.le_def] at h
  have := h.2
  change b.toNat ≤ 57 at this
  omega

/-- The number has at most as many digits as the string. -/
lemma digitsVal_lt (h : ∀ b ∈ s, isDigit b = true) : digitsVal s < 10 ^ s.length := by
  have hfold : ∀ acc, s.foldl (fun n b => 10 * n + (b.toNat - 0x30)) acc <
      (acc + 1) * 10 ^ s.length := by
    induction s with
    | nil => simp
    | cons b s ih =>
      intro acc
      have hb := isDigit_toNat (h b (by simp))
      have hs := ih (fun c hc => h c (List.mem_cons_of_mem _ hc)) (10 * acc + (b.toNat - 0x30))
      refine hs.trans_le ?_
      rw [List.length_cons, Nat.pow_succ, Nat.mul_comm (10 ^ s.length), ← Nat.mul_assoc]
      exact Nat.mul_le_mul_right _ (by omega)
  have hzero := hfold 0
  rwa [Nat.zero_add, Nat.one_mul] at hzero

/-! ### Reading a number -/

/-- A string of digits is read as a whole. -/
lemma strtol_digits (h : ∀ b ∈ s, isDigit b = true) (hne : s ≠ []) :
    strtol s = (min (digitsVal s : ℤ) longMax, []) := by
  obtain ⟨b, t, rfl⟩ := List.exists_cons_of_ne_nil hne
  have hb : isDigit b = true := h b (by simp)
  have hspace : ∀ c, isDigit c = true → isspace c = false ∧ c ≠ 0x2d ∧ c ≠ 0x2b := by decide
  obtain ⟨h1, h2, h3⟩ := hspace b hb
  have hdrop : (b :: t).dropWhile isspace = b :: t := by
    rw [List.dropWhile_cons_of_neg (by simp [h1])]
  have htake : (b :: t).takeWhile isDigit = b :: t := List.takeWhile_eq_self_iff.2 h
  rw [strtol, hdrop, readSign, if_neg h2, if_neg h3]
  simp [htake]

/-- What a string without a `-` can be read as. -/
lemma strtol_range (h : 0x2d ∉ s) :
    0 ≤ (strtol s).1 ∧ (strtol s).1 ≤ longMax ∧ (strtol s).1 < (10 ^ s.length : ℕ) := by
  have hsign : ∀ t : List Byte, 0x2d ∉ t →
      (readSign t).1 = false ∧ (readSign t).2.length ≤ t.length := by
    intro t ht
    cases t with
    | nil => exact ⟨rfl, le_rfl⟩
    | cons b t =>
      rw [List.mem_cons, not_or] at ht
      rw [readSign, if_neg (Ne.symm ht.1)]
      split
      · exact ⟨rfl, by simp⟩
      · exact ⟨rfl, le_rfl⟩
  have hdrop : 0x2d ∉ s.dropWhile isspace := fun hmem => h ((List.dropWhile_sublist _).subset hmem)
  obtain ⟨hneg, hlen⟩ := hsign _ hdrop
  have hlen' : (s.dropWhile isspace).length ≤ s.length := (List.dropWhile_sublist _).length_le
  rw [strtol]
  generalize readSign (s.dropWhile isspace) = r at *
  obtain ⟨neg, t⟩ := r
  dsimp only at hneg hlen ⊢
  subst hneg
  have hdigits : ∀ b ∈ t.takeWhile isDigit, isDigit b = true := fun b hb =>
    List.mem_takeWhile_imp hb
  have hval := digitsVal_lt hdigits
  have hle : (t.takeWhile isDigit).length ≤ s.length :=
    ((List.takeWhile_sublist _).length_le.trans hlen).trans hlen'
  have hpow := Nat.pow_le_pow_right (show 0 < 10 by decide) hle
  split
  · have hpos : 0 < 10 ^ s.length := Nat.pow_pos (by decide)
    refine ⟨le_rfl, Int.natCast_nonneg _, ?_⟩
    dsimp only
    omega
  · dsimp only
    rw [if_neg Bool.false_ne_true]
    omega

end EspIdf.Lib
