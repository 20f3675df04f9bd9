/-
# Renaming after a conflict

`_mdns_mangle_name` counts up the number behind the last `-`, or appends `-2`.  The names that it
makes one from the other are all different, but they grow.
-/
import EspIdf.Lib.CNumber
import EspIdf.Mdns.Append

namespace EspIdf.Mdns

open Lib

def dash : Byte := 0x2d

/-- The new name, and how many bytes have been allocated for it. -/
structure Mangled where
  ret : List Byte
  allocated : ℕ

/-- `_mdns_mangle_name`. -/
def mangleName (name : List Byte) : Mangled :=
  let appended : Mangled := ⟨name ++ [dash, 0x32], name.length + 3⟩
  match strrchr dash name with
  | none => appended
  | some (base, tail) =>
    let (suffix, endp) := strtol tail
    if endp ≠ [] then appended
    else ⟨base ++ dash :: printInt (wrapInt (suffix + 1)), name.length + 2⟩

/-- The number behind the last `-`, and what stands in front of it. -/
def numbered (name : List Byte) : Option (List Byte × ℕ) :=
  match strrchr dash name with
  | none => none
  | some (base, tail) =>
    if (strtol tail).2 ≠ [] then none else some (base, (strtol tail).1.toNat)

/-! ### One renaming -/

variable {name base : List Byte} {v : ℕ}

lemma dash_notMem_decimal (n : ℕ) : dash ∉ decimal n := fun h =>
  absurd ((decimal_spec n).1 dash h) (by decide)

/-- A name that ends in a printed number. -/
lemma numbered_append (base : List Byte) (n : ℕ) :
    numbered (base ++ dash :: decimal n) = some (base, min n longMax) := by
  rw [numbered, strrchr_append base (dash_notMem_decimal n)]
  dsimp only
  rw [strtol_digits (decimal_spec n).1 (decimal_ne_nil n), (decimal_spec n).2, if_neg (by simp)]
  simp only [Option.some.injEq, Prod.mk.injEq, true_and]
  omega

/-- The number fits into an `int`, and has at most as many digits as what it was read from. -/
lemma numbered_spec (h : numbered name = some (base, v)) :
    v ≤ longMax ∧ ∃ tail, name = base ++ dash :: tail ∧ v < 10 ^ tail.length := by
  unfold numbered at h
  split at h
  · cases h
  · next b tail heq =>
    obtain ⟨hname, hdash⟩ := strrchr_some heq
    have hrange := strtol_range hdash
    split at h
    · cases h
    · cases h
      exact ⟨by omega, tail, hname, by omega⟩

lemma mangleName_none (h : numbered name = none) :
    mangleName name = ⟨name ++ dash :: decimal 2, name.length + 3⟩ := by
  unfold numbered at h
  rw [mangleName]
  split at h
  · rfl
  · split at h
    · next hend =>
      dsimp only
      rw [if_pos hend]
      rfl
    · cases h

lemma mangleName_some (h : numbered name = some (base, v)) :
    mangleName name =
      ⟨base ++ dash :: printInt (wrapInt (v + 1)), name.length + 2⟩ := by
  unfold numbered at h
  rw [mangleName]
  split at h
  · cases h
  · next b tail heq =>
    split at h
    · cases h
    · next hend =>
      have hrange := strtol_range (strrchr_some heq).2
      cases h
      dsimp only
      rw [if_neg hend, Int.toNat_of_nonneg hrange.1]

lemma wrapInt_of_lt (h : v < longMax) : printInt (wrapInt (v + 1)) = decimal (v + 1) := by
  have hwrap : wrapInt (v + 1) = (v + 1 : ℕ) := by
    simp only [longMax] at h
    rw [wrapInt]
    omega
  rw [hwrap, printInt, if_neg (by omega), Int.natAbs_natCast]

lemma wrapInt_longMax : printInt (wrapInt (longMax + 1)) = dash :: decimal 2147483648 := rfl

/-- The name after a conflict. -/
def mangle (name : List Byte) : List Byte := (mangleName name).ret

/-- What stands in a new name. -/
lemma numbered_mangle (name : List Byte) :
    numbered (mangle name) = some (match numbered name with
      | none => (name, 2)
      | some (base, v) => if v < longMax then (base, v + 1) else (base ++ [dash], longMax)) := by
  rw [mangle]
  cases h : numbered name with
  | none =>
    rw [mangleName_none h, numbered_append]
    rfl
  | some bv =>
    obtain ⟨base, v⟩ := bv
    have hle := (numbered_spec h).1
    rw [mangleName_some h]
    dsimp only
    split
    · next hlt =>
      rw [wrapInt_of_lt hlt, numbered_append, Nat.min_eq_left (by omega)]
    · next hlt =>
      obtain rfl : v = longMax := by omega
      have hsplit : base ++ dash :: dash :: decimal 2147483648 =
          (base ++ [dash]) ++ dash :: decimal 2147483648 := by simp
      rw [wrapInt_longMax, hsplit, numbered_append]
      rfl

/-! ### The names are different -/

/-- A measure that every renaming makes larger: the length of what stands in front of the number,
then the number. -/
def rank (name : List Byte) : ℕ ×ₗ ℕ :=
  match numbered name with
  | none => toLex (0, 0)
  | some (base, v) => toLex (base.length + 1, v)

lemma rank_lt (name : List Byte) : rank name < rank (mangle name) := by
  have hnext := numbered_mangle name
  rw [rank, rank, hnext]
  cases numbered name with
  | none => exact Prod.Lex.toLex_lt_toLex.2 (.inl (Nat.succ_pos _))
  | some bv =>
    obtain ⟨base, v⟩ := bv
    dsimp only
    split
    · exact Prod.Lex.toLex_lt_toLex.2 (.inr ⟨rfl, Nat.lt_succ_self v⟩)
    · exact Prod.Lex.toLex_lt_toLex.2 (.inl (by simp))

/-- The names after any numbers of conflicts are different. -/
lemma iterate_mangle_injective (name : List Byte) :
    Function.Injective fun k => mangle^[k] name := by
  have hmono : StrictMono fun k => rank (mangle^[k] name) := by
    refine strictMono_nat_of_lt_succ fun k => ?_
    rw [Function.iterate_succ_apply']
    exact rank_lt _
  intro i j hij
  exact hmono.injective (congrArg rank hij)

/-! ### The buffer -/

lemma length_mangle_none (h : numbered name = none) :
    (mangle name).length = name.length + 2 := by
  rw [mangle, mangleName_none h]
  simp [decimal_of_lt]

lemma length_mangle_some (h : numbered name = some (base, v)) :
    (mangle name).length =
      base.length + 1 + if v < longMax then (decimal (v + 1)).length else 11 := by
  have hle := (numbered_spec h).1
  rw [mangle, mangleName_some h]
  split
  · next hlt =>
    rw [wrapInt_of_lt hlt, List.length_append, List.length_cons]
    omega
  · next hlt =>
    obtain rfl : v = longMax := by omega
    rw [wrapInt_longMax, List.length_append, List.length_cons,
      show (dash :: decimal 2147483648).length = 11 from rfl]

/-- A new name is written inside its buffer, with its `NUL`, and so is the copy of the old one that
it is made from. -/
lemma mangleName_allocated (name : List Byte) :
    (mangle name).length < (mangleName name).allocated ∧
      name.length < (mangleName name).allocated := by
  cases h : numbered name with
  | none =>
    rw [length_mangle_none h, mangleName_none h]
    dsimp only
    omega
  | some bv =>
    obtain ⟨base, v⟩ := bv
    obtain ⟨hle, tail, hname, hdigits⟩ := numbered_spec h
    have hlen : name.length = base.length + (tail.length + 1) := by
      rw [hname, List.length_append, List.length_cons]
    rw [length_mangle_some h, mangleName_some h]
    dsimp only
    refine ⟨?_, by omega⟩
    split
    · -- one digit more than the old number has at most
      have hnext : (decimal (v + 1)).length ≤ tail.length + 1 := by
        rw [length_decimal_le_iff (Nat.succ_pos _), Nat.pow_succ]
        omega
      omega
    · next hlt =>
      -- the largest number has ten digits
      have hten : 10 ≤ tail.length := by
        by_contra hlt9
        have := Nat.pow_le_pow_right (show 0 < 10 by decide) (show tail.length ≤ 9 by omega)
        simp only [longMax] at hlt
        omega
      omega

/-! ### A label of a packet -/

/-- There is room for the name after a conflict: behind a name without a number for `-2`, otherwise
for the number that follows, or for the `-2147483648` that follows the largest one. -/
def Room (name : List Byte) : Prop :=
  match numbered name with
  | none => name.length ≤ 61
  | some (base, v) =>
    if v < longMax then base.length + 1 + (decimal (v + 1)).length ≤ 63 else base.length ≤ 51

lemma length_mangle_le_iff (name : List Byte) : (mangle name).length ≤ 63 ↔ Room name := by
  unfold Room
  cases h : numbered name with
  | none =>
    rw [length_mangle_none h]
    dsimp only
    omega
  | some bv =>
    obtain ⟨base, v⟩ := bv
    rw [length_mangle_some h]
    dsimp only
    split <;> omega

/-- A packet with room carries `string`: `_mdns_append_string` and a zero byte put it there, and
`_mdns_read_fqdn` reads it as a name of one part. -/
def Carried (string : List Byte) : Prop :=
  ∀ o : Out, o.packet.length = maxPacketSize → o.index + string.length + 1 < maxPacketSize →
    (appendString o string).1 = string.length + 1 ∧
    ∃ r, readFqdn (appendU8 (appendString o string).2 0).2.packet o.index 0
        ⟨.cleared false, []⟩ = (.found (appendU8 (appendString o string).2 0).2.index, r) ∧
      r.name.host = string ∧ r.name.parts = 1

/-- A name of a host or an instance that is a label. -/
structure IsLabel (string : List Byte) : Prop where
  ne_nil : string ≠ []
  length : string.length ≤ 63
  noNul : 0 ∉ string

/-- The names that are made after a conflict have a `-` in them, so that they are not taken for
`_sub`. -/
lemma carried_of_dash {string : List Byte} (h : IsLabel string) (hdash : dash ∈ string) :
    Carried string := by
  intro o hlen hfits
  have happ := appendString_eq hlen h.length
  rw [if_neg (by omega)] at happ
  have hsub : fold string ≠ fold subStr := by
    intro heq
    have hmem : dash ∈ fold string := (mem_fold (by decide)).2 hdash
    rw [heq] at hmem
    exact absurd hmem (by decide)
  rw [happ]
  refine ⟨rfl, ?_⟩
  rw [appendU8_eq (by dsimp only; omega)]
  dsimp only
  rw [show o.index + (string.length + 1) = o.index + (labelBytes string).length from rfl,
    putBytes_putBytes _ (by simp [labelBytes]; omega)]
  have hdrop := drop_putBytes (labelBytes string ++ [0]) (show o.index ≤ o.packet.length by omega)
  rw [readFqdn_labelBytes h.ne_nil h.length (by rw [Nat.add_zero, hdrop, List.append_assoc]),
    readFqdn_last]
  · rw [Nat.zero_add]
    refine ⟨_, rfl, ?_⟩
    rw [Reader.take_first rfl rfl h.noNul hsub]
    exact ⟨rfl, rfl⟩
  · rw [← List.head?_drop, Nat.zero_add, ← List.drop_drop, hdrop, List.append_assoc,
      show string.length + 1 = (labelBytes string).length from rfl, List.drop_left]
    rfl

/-! ### A run of conflicts -/

/-- The names that are made in `n` conflicts one after the other are different, each is written
inside its buffer, and each is a label that a packet carries. -/
structure KeepsFresh (name : List Byte) (n : ℕ) : Prop where
  different : ∀ i ≤ n, ∀ j ≤ n, mangle^[i] name = mangle^[j] name → i = j
  inside : ∀ k < n, (mangle (mangle^[k] name)).length < (mangleName (mangle^[k] name)).allocated ∧
    (mangle^[k] name).length < (mangleName (mangle^[k] name)).allocated
  label : ∀ k ≤ n, IsLabel (mangle^[k] name)
  carried : ∀ k < n, Carried (mangle (mangle^[k] name))

lemma dash_mem_mangle (name : List Byte) : dash ∈ mangle name := by
  rw [mangle]
  cases h : numbered name with
  | none =>
    rw [mangleName_none h]
    simp
  | some bv =>
    rw [mangleName_some h]
    simp

lemma isLabel_mangle (h : IsLabel name) (hroom : Room name) : IsLabel (mangle name) := by
  refine ⟨List.ne_nil_of_mem (dash_mem_mangle name), (length_mangle_le_iff name).2 hroom, ?_⟩
  have hdec : ∀ n, 0 ∉ decimal n := fun n h0 => absurd ((decimal_spec n).1 0 h0) (by decide)
  have hdash : (0 : Byte) ≠ dash := by decide
  rw [mangle]
  cases hnum : numbered name with
  | none =>
    rw [mangleName_none hnum]
    rw [List.mem_append, List.mem_cons, not_or, not_or]
    exact ⟨h.noNul, hdash, hdec 2⟩
  | some bv =>
    obtain ⟨base, v⟩ := bv
    obtain ⟨-, tail, rfl, -⟩ := numbered_spec hnum
    have hbase : 0 ∉ base := fun h0 => h.noNul (List.mem_append_left _ h0)
    have hprint : ∀ i, 0 ∉ printInt i := by
      intro i
      rw [printInt]
      split
      · rw [List.mem_cons, not_or]
        exact ⟨hdash, hdec _⟩
      · exact hdec _
    rw [mangleName_some hnum]
    rw [List.mem_append, List.mem_cons, not_or, not_or]
    exact ⟨hbase, hdash, hprint _⟩

/-- Conflicts, however many, make fresh names that fit, if and only if there is room for each. -/
theorem keepsFresh_iff (name : List Byte) (h : IsLabel name) (n : ℕ) :
    KeepsFresh name n ↔ ∀ k < n, Room (mangle^[k] name) := by
  constructor
  · intro hfresh k hk
    have hlabel := (hfresh.label (k + 1) hk).length
    rwa [Function.iterate_succ_apply', length_mangle_le_iff] at hlabel
  · intro hroom
    have hlabel : ∀ k ≤ n, IsLabel (mangle^[k] name) := by
      intro k hk
      induction k with
      | zero => exact h
      | succ k ih =>
        rw [Function.iterate_succ_apply']
        exact isLabel_mangle (ih (by omega)) (hroom k hk)
    refine ⟨fun i _ j _ hij => iterate_mangle_injective name hij,
      fun k _ => mangleName_allocated _, hlabel, fun k hk => ?_⟩
    have hnext := hlabel (k + 1) hk
    rw [Function.iterate_succ_apply'] at hnext
    exact carried_of_dash hnext (dash_mem_mangle _)

theorem keepsFresh_two : KeepsFresh [0x61] 2 :=
  (keepsFresh_iff [0x61] ⟨by decide, by decide, by decide⟩ 2).2 fun k hk => by
    obtain rfl | rfl : k = 0 ∨ k = 1 := by omega
    · exact (length_mangle_le_iff _).1 (by decide +kernel)
    · exact (length_mangle_le_iff _).1 (by decide +kernel)

/-- A name of 62 bytes without a number gets one of 64. -/
theorem mangle_too_long :
    IsLabel (List.replicate 62 0x61) ∧ ¬ (mangle (List.replicate 62 0x61)).length ≤ 63 :=
  ⟨⟨by decide, by decide, by decide⟩, by decide +kernel⟩

end EspIdf.Mdns
