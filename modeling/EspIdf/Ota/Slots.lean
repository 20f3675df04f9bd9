/-
# Partition tables with slots

What the application and the bootloader make of a partition table whose OTA slots are
`ota_0, …, ota_(n-1)`: the application searches the table, the bootloader enters every
partition into an array.  Where no subtype stands twice the two see the same partitions.
-/
import EspIdf.Ota.Bootloader

namespace EspIdf.Ota

open EspIdf.Lib

/-- The partitions of a table with the given type and subtype. -/
def partitionsOf (table : List Partition) (type subtype : ℕ) : List Partition :=
  table.filter (Partition.matches type subtype)

/-- A partition table whose OTA app partitions are exactly `ota_0, …, ota_(n-1)`, with a
partition for the records and at most one factory and one test app. -/
structure Slots (table : List Partition) (n : ℕ) : Prop where
  pos : 1 ≤ n
  le : n ≤ 16
  ota : ∀ i < 16, (partitionsOf table typeApp (subtypeOtaMin + i)).length = if i < n then 1 else 0
  factory : (partitionsOf table typeApp subtypeFactory).length ≤ 1
  test : (partitionsOf table typeApp subtypeTest).length ≤ 1
  otadata : (partitionsOf table typeData subtypeDataOta).length = 1
  placed : ∀ p ∈ table, p.offset ≠ 0 ∧ p.size ≠ 0
  room : ∀ p ∈ partitionsOf table typeData subtypeDataOta, 2 * secSize ≤ p.size

/-- The position that a search finds; none is unset. -/
def foundPos (p : Option Partition) : PartitionPos := (p.map Partition.pos).getD .unset

variable {table : List Partition} {n : ℕ} {type subtype : ℕ}

/-! ### Searching -/

lemma findFirst_eq_head? : findFirst table type subtype = (partitionsOf table type subtype).head? :=
  (List.head?_filter ..).symm

lemma mem_of_findFirst {p : Partition} (h : findFirst table type subtype = some p) :
    p ∈ table ∧ p.matches type subtype = true :=
  ⟨List.mem_of_find?_eq_some h, List.find?_some h⟩

lemma findFirst_isSome_iff :
    (findFirst table type subtype).isSome ↔ (partitionsOf table type subtype).length ≠ 0 := by
  rw [findFirst_eq_head?]
  cases partitionsOf table type subtype <;> simp

/-! ### Entering -/

/-- What the last of some partitions leaves in a field. -/
def lastPos (ps : List Partition) (old : PartitionPos) : PartitionPos :=
  (ps.getLast?.map Partition.pos).getD old

lemma lastPos_cons (p : Partition) (ps : List Partition) (old : PartitionPos) :
    lastPos (p :: ps) old = lastPos ps p.pos := by
  cases ps with
  | nil => rfl
  | cons q qs =>
    rw [lastPos, lastPos, List.getLast?_cons_cons]
    cases h : (q :: qs).getLast? with
    | none => simp at h
    | some r => rfl

lemma lastPos_of_length_le {ps : List Partition} (h : ps.length ≤ 1) :
    lastPos ps .unset = foundPos ps.head? := by
  match ps, h with
  | [], _ => rfl
  | [p], _ => rfl

/-- A field that a partition replaces exactly if it matches holds the last one that does. -/
lemma field_foldl (f : BootloaderState → PartitionPos)
    (henter : ∀ (bs : BootloaderState) (p : Partition),
      f (bs.enter p) = if p.matches type subtype then p.pos else f bs)
    (bs : BootloaderState) :
    f (table.foldl BootloaderState.enter bs) = lastPos (partitionsOf table type subtype) (f bs) := by
  induction table generalizing bs with
  | nil => rfl
  | cons p ps ih =>
    rw [List.foldl_cons, ih, henter, partitionsOf, partitionsOf, List.filter_cons]
    split
    · rw [lastPos_cons]
    · rfl

lemma field_load (f : BootloaderState → PartitionPos) (h0 : f .empty = .unset)
    (henter : ∀ (bs : BootloaderState) (p : Partition),
      f (bs.enter p) = if p.matches type subtype then p.pos else f bs)
    (huniq : (partitionsOf table type subtype).length ≤ 1) :
    f (loadPartitionTable table) = foundPos (findFirst table type subtype) := by
  rw [loadPartitionTable, field_foldl f henter, h0, lastPos_of_length_le huniq,
    findFirst_eq_head?]

lemma matches_iff {p : Partition} (h : subtype ≠ 0xff) :
    p.matches type subtype = true ↔ p.type.toNat = type ∧ p.subtype.toNat = subtype := by
  simp [Partition.matches, h]

lemma enter_factory (bs : BootloaderState) (p : Partition) :
    (bs.enter p).factory = if p.matches typeApp subtypeFactory then p.pos else bs.factory := by
  simp only [matches_iff (show subtypeFactory ≠ 0xff by decide), BootloaderState.enter]
  grind

lemma enter_otaInfo (bs : BootloaderState) (p : Partition) :
    (bs.enter p).otaInfo = if p.matches typeData subtypeDataOta then p.pos else bs.otaInfo := by
  have hne : typeApp ≠ typeData := by decide
  simp only [matches_iff (show subtypeDataOta ≠ 0xff by decide), BootloaderState.enter]
  grind

lemma enter_ota (bs : BootloaderState) (p : Partition) {i : ℕ} (hi : i < 16) :
    (bs.enter p).ota i = if p.matches typeApp (subtypeOtaMin + i) then p.pos else bs.ota i := by
  have h16 : subtypeOtaMin = 16 := rfl
  have h0 : subtypeFactory = 0 := rfl
  have h32 : subtypeTest = 32 := rfl
  have hmatch : p.matches typeApp (16 + i) = true ↔
      p.type.toNat = typeApp ∧ p.subtype.toNat = 16 + i := matches_iff (by omega)
  have hiff : p.subtype.toNat / 16 * 16 = 16 ∧ p.subtype.toNat % 16 = i ↔
      p.subtype.toNat = 16 + i := by omega
  rw [BootloaderState.enter, h16, h0, h32]
  by_cases ht : p.type.toNat = typeApp
  · rw [if_pos ht]
    by_cases hm : p.subtype.toNat / 16 * 16 = 16
    · rw [if_neg (by omega), if_neg (by omega), if_pos hm]
      by_cases hp : p.subtype.toNat % 16 = i
      · subst hp
        rw [if_pos (hmatch.mpr ⟨ht, by omega⟩)]
        exact Function.update_self ..
      · rw [if_neg (fun h => hp (hiff.mpr (hmatch.mp h).2).2)]
        exact Function.update_of_ne (Ne.symm hp) ..
    · rw [if_neg (fun h => hm (hiff.mpr (hmatch.mp h).2).1), if_neg hm]
      split
      · rfl
      · split <;> rfl
  · rw [if_neg ht, if_neg (fun h => ht (hmatch.mp h).1)]
    split
    · split <;> rfl
    · rfl

/-- The OTA app partitions of any slot. -/
def Partition.isOta (p : Partition) : Bool :=
  p.type.toNat == typeApp && p.subtype.toNat / 16 * 16 == subtypeOtaMin

lemma enter_appCount (bs : BootloaderState) (p : Partition) :
    (bs.enter p).appCount = bs.appCount + if p.isOta then 1 else 0 := by
  have h16 : subtypeOtaMin = 16 := rfl
  have h0 : subtypeFactory = 0 := rfl
  have h32 : subtypeTest = 32 := rfl
  simp only [Partition.isOta, BootloaderState.enter, h16, h0, h32, Bool.and_eq_true, beq_iff_eq]
  grind

lemma appCount_foldl (bs : BootloaderState) :
    (table.foldl BootloaderState.enter bs).appCount =
      bs.appCount + table.countP Partition.isOta := by
  induction table generalizing bs with
  | nil => rfl
  | cons p ps ih => rw [List.foldl_cons, ih, enter_appCount, List.countP_cons]; omega

/-- Every OTA app partition belongs to one slot. -/
lemma isOta_eq_sum (p : Partition) :
    (if p.isOta then 1 else 0) =
      ∑ i ∈ Finset.range 16, if p.matches typeApp (subtypeOtaMin + i) then 1 else 0 := by
  have h16 : subtypeOtaMin = 16 := rfl
  by_cases ht : p.type.toNat = typeApp
  · by_cases hs : p.subtype.toNat / 16 * 16 = 16
    · have hi : p.isOta = true := by simp [Partition.isOta, ht, h16, hs]
      rw [if_pos hi, Finset.sum_eq_single (p.subtype.toNat % 16)]
      · rw [if_pos]
        rw [matches_iff (by omega)]
        exact ⟨ht, by omega⟩
      · intro j hj hne
        rw [if_neg]
        rw [matches_iff (by simp at hj; omega)]
        rintro ⟨-, h⟩
        omega
      · intro h
        exact absurd (Finset.mem_range.mpr (Nat.mod_lt _ (by decide))) h
    · have hi : p.isOta = false := by simp [Partition.isOta, h16, hs]
      rw [hi, Finset.sum_eq_zero]
      · rfl
      · intro j hj
        rw [if_neg]
        rw [matches_iff (by simp at hj; omega)]
        simp at hj
        rintro ⟨-, h⟩
        omega
  · have hi : p.isOta = false := by simp [Partition.isOta, ht]
    rw [hi, Finset.sum_eq_zero]
    · rfl
    · intro j hj
      rw [if_neg]
      rw [matches_iff (by simp at hj; omega)]
      exact fun h => ht h.1

lemma countP_isOta : table.countP Partition.isOta =
    ∑ i ∈ Finset.range 16, (partitionsOf table typeApp (subtypeOtaMin + i)).length := by
  induction table with
  | nil => simp [partitionsOf]
  | cons p ps ih =>
    rw [List.countP_cons, ih, isOta_eq_sum, ← Finset.sum_add_distrib]
    apply Finset.sum_congr rfl
    intro i _
    rw [partitionsOf, partitionsOf, List.filter_cons]
    split <;> simp

/-! ### The two views of a table -/

/-- The count of the application runs on into the subtype of the test app, which follows
that of the sixteenth slot. -/
def OverrunsCount (table : List Partition) (n : ℕ) : Prop :=
  n = 16 ∧ (findFirst table typeApp subtypeTest).isSome

instance : Decidable (OverrunsCount table n) := instDecidableAnd

section Slots

variable (ht : Slots table n)
include ht

lemma appCount_load : (loadPartitionTable table).appCount = n := by
  have hsum : ∑ i ∈ Finset.range 16, (if i < n then 1 else 0) = n := by
    have h1 := ht.pos
    have h2 := ht.le
    interval_cases n <;> rfl
  rw [loadPartitionTable, appCount_foldl, countP_isOta]
  rw [Finset.sum_congr rfl fun i hi => ht.ota i (Finset.mem_range.mp hi), hsum]
  exact Nat.zero_add n

lemma factory_load :
    (loadPartitionTable table).factory = foundPos (findFirst table typeApp subtypeFactory) :=
  field_load BootloaderState.factory rfl enter_factory ht.factory

lemma otaInfo_load :
    (loadPartitionTable table).otaInfo = foundPos (findFirst table typeData subtypeDataOta) :=
  field_load BootloaderState.otaInfo rfl enter_otaInfo (Nat.le_of_eq ht.otadata)

lemma ota_load {i : ℕ} (hi : i < 16) :
    (loadPartitionTable table).ota i = foundPos (findFirst table typeApp (subtypeOtaMin + i)) := by
  refine field_load (fun bs => bs.ota i) rfl (fun bs p => enter_ota bs p hi) ?_
  rw [ht.ota i hi]
  split <;> omega

lemma exists_slot {i : ℕ} (hi : i < n) :
    ∃ p, findFirst table typeApp (subtypeOtaMin + i) = some p ∧ p.size ≠ 0 ∧ p.offset ≠ 0 := by
  have hsome : (findFirst table typeApp (subtypeOtaMin + i)).isSome := by
    rw [findFirst_isSome_iff, ht.ota i (by have := ht.le; omega), if_pos hi]
    decide
  obtain ⟨p, hp⟩ := Option.isSome_iff_exists.mp hsome
  have := ht.placed p (mem_of_findFirst hp).1
  exact ⟨p, hp, this.2, this.1⟩

lemma no_slot {i : ℕ} (hi : n ≤ i) (h16 : i < 16) :
    findFirst table typeApp (subtypeOtaMin + i) = none := by
  have hnone : ¬ (findFirst table typeApp (subtypeOtaMin + i)).isSome := by
    rw [findFirst_isSome_iff, ht.ota i h16, if_neg (by omega)]
    simp
  simpa using hnone

lemma exists_otadata : ∃ part, findFirst table typeData subtypeDataOta = some part ∧
    part.offset ≠ 0 ∧ 2 * secSize ≤ part.size := by
  have hsome : (findFirst table typeData subtypeDataOta).isSome := by
    rw [findFirst_isSome_iff, ht.otadata]
    decide
  obtain ⟨p, hp⟩ := Option.isSome_iff_exists.mp hsome
  have hmem := mem_of_findFirst hp
  exact ⟨p, hp, (ht.placed p hmem.1).1, ht.room p (List.mem_filter.mpr hmem)⟩

lemma countSlots_eq (m : Mem) : ∀ left count : ℕ, left + count = 16 → count ≤ n →
    countSlots table left count m =
      if OverrunsCount table n then (.error .abort, m) else (.ok n, m) := by
  intro left
  induction left with
  | zero =>
    intro count hsum hle
    have hn : n = 16 := by have := ht.le; omega
    obtain rfl : count = 16 := by omega
    have h32 : subtypeOtaMin + 16 = subtypeTest := rfl
    rw [countSlots, h32]
    cases h : findFirst table typeApp subtypeTest with
    | none => rw [if_neg (by simp [OverrunsCount, h]), hn]; rfl
    | some p => rw [if_pos ⟨hn, by simp [h]⟩]; rfl
  | succ left ih =>
    intro count hsum hle
    by_cases hc : count = n
    · subst hc
      rw [countSlots, no_slot ht (Nat.le_refl _) (by omega), if_neg]
      · rfl
      · rintro ⟨h, -⟩
        omega
    · obtain ⟨p, hp, -⟩ := exists_slot ht (show count < n by omega)
      rw [countSlots, hp]
      exact ih (count + 1) (by omega) (by omega)

lemma getOtaPartitionCount_eq (dev : Device) (hd : dev.table = table) (m : Mem) :
    getOtaPartitionCount dev m =
      if OverrunsCount table n then (.error .abort, m) else (.ok n, m) := by
  rw [getOtaPartitionCount, hd]
  exact countSlots_eq ht m 16 0 rfl (Nat.zero_le n)

end Slots

end EspIdf.Ota
