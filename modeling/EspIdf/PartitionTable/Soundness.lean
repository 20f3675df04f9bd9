/-
# What a verified table promises

The bootloader takes its regions from the first entries of a table that verifies.  The check adds
offset and size as 32-bit numbers, and the entry with the digest may stand anywhere before the end
marker, while it is only subtracted from the count.
-/
import EspIdf.PartitionTable.Loader
import EspIdf.Ota.Bootloader

namespace EspIdf.PartitionTable

open Lib
open EspIdf.Ota (BootloaderState PartitionPos)

variable {chipSize : ℕ} {mem : Mem} {n : ℕ}

/-! ### The consumer -/

/-- What the bootloader uses of an entry. -/
def PartitionInfo.toBoot (info : PartitionInfo) : Ota.Partition where
  type := BitVec.ofNat 8 info.type
  subtype := BitVec.ofNat 8 info.subtype
  offset := info.offset
  size := info.size

/-- The entries that `bootloader_utility_load_partition_table` goes through. -/
def usedEntries (mem : Mem) (numPartitions : ℕ) : List PartitionInfo :=
  (List.range numPartitions).map (infoAt mem)

/-- `bootloader_utility_load_partition_table`; nothing is loaded from a table that does not
verify. -/
def bootTable (chipSize : ℕ) (mem : Mem) : Option BootloaderState :=
  match tableVerify chipSize mem with
  | (.ok, n) => some (Ota.loadPartitionTable ((usedEntries mem n).map PartitionInfo.toBoot))
  | _ => none

/-- A region that the bootloader holds. -/
inductive Region (bs : BootloaderState) : PartitionPos → Prop where
  | otaInfo : Region bs bs.otaInfo
  | factory : Region bs bs.factory
  | test : Region bs bs.test
  | ota (i : ℕ) : Region bs (bs.ota i)

lemma Region.enter {bs : BootloaderState} {p : Ota.Partition} {pos : PartitionPos}
    (h : Region (bs.enter p) pos) : Region bs pos ∨ pos = p.pos := by
  rw [BootloaderState.enter] at h
  split_ifs at h
  · cases h
    · exact .inl .otaInfo
    · exact .inr rfl
    · exact .inl .test
    · exact .inl (.ota _)
  · cases h
    · exact .inl .otaInfo
    · exact .inl .factory
    · exact .inr rfl
    · exact .inl (.ota _)
  · cases h with
    | otaInfo => exact .inl .otaInfo
    | factory => exact .inl .factory
    | test => exact .inl .test
    | ota i =>
      by_cases hi : i = p.subtype.toNat % 16
      · rw [hi]
        exact .inr (Function.update_self ..)
      · change Region bs (Function.update bs.ota _ _ i) ∨ Function.update bs.ota _ _ i = p.pos
        rw [Function.update_of_ne hi]
        exact .inl (.ota i)
  · exact .inl h
  · cases h
    · exact .inr rfl
    · exact .inl .factory
    · exact .inl .test
    · exact .inl (.ota _)
  · exact .inl h
  · exact .inl h

/-- Every region is unset or that of an entry that was gone through. -/
lemma Region.of_load {table : List Ota.Partition} {pos : PartitionPos}
    (h : Region (Ota.loadPartitionTable table) pos) :
    pos = .unset ∨ ∃ p ∈ table, pos = p.pos := by
  have hgen : ∀ (table : List Ota.Partition) (bs : BootloaderState),
      Region (table.foldl BootloaderState.enter bs) pos →
        Region bs pos ∨ ∃ p ∈ table, pos = p.pos := by
    intro table
    induction table with
    | nil => exact fun bs h => .inl h
    | cons p table ih =>
      intro bs h
      rcases ih _ h with h | ⟨q, hq, heq⟩
      · rcases h.enter with h | h
        · exact .inl h
        · exact .inr ⟨p, List.mem_cons_self, h⟩
      · exact .inr ⟨q, List.mem_cons_of_mem _ hq, heq⟩
  rcases hgen table _ h with h | h
  · cases h <;> exact .inl rfl
  · exact .inr h

/-! ### The check -/

/-- The end marker. -/
def IsEnd (mem : Mem) (e : ℕ) : Prop :=
  (infoAt mem e).magic = 0xFFFF ∧ (infoAt mem e).type = partTypeEnd ∧
    (infoAt mem e).subtype = partTypeEnd

/-- Entry `i` is a partition. -/
def IsPartition (mem : Mem) (i : ℕ) : Prop := (infoAt mem i).magic = partitionMagic

/-- Entry `i` is the one with the digest. -/
def IsMd5 (mem : Mem) (i : ℕ) : Prop := (infoAt mem i).magic = partitionMagicMd5

/-- Entry `m` holds the digest of the entries before it. -/
def Digest (mem : Mem) (m : ℕ) : Prop :=
  mem.read (infoSize * m + partitionMd5Offset) 16 = md5 (mem.read 0 (m * infoSize))

/-- The table ends at its first end marker. -/
structure EndsAt (mem : Mem) (e : ℕ) : Prop where
  isEnd : IsEnd mem e
  first : ∀ i < e, ¬ IsEnd mem i

lemma IsPartition.not_md5 {i : ℕ} (h : IsPartition mem i) : ¬ IsMd5 mem i := by
  intro h'
  exact absurd (h.symm.trans h') (by decide)

lemma IsEnd.not_partition {i : ℕ} (h : IsEnd mem i) : ¬ IsPartition mem i := by
  intro h'
  exact absurd (h.1.symm.trans h') (by decide)

lemma IsEnd.not_md5 {i : ℕ} (h : IsEnd mem i) : ¬ IsMd5 mem i := by
  intro h'
  exact absurd (h.1.symm.trans h') (by decide)

lemma EndsAt.unique {e f : ℕ} (he : EndsAt mem e) (hf : EndsAt mem f) : e = f := by
  rcases Nat.lt_trichotomy e f with h | h | h
  · exact absurd he.isEnd (hf.first e h)
  · exact h
  · exact absurd hf.isEnd (he.first f h)

/-- What `esp_partition_table_verify` has checked of a partition. -/
structure Checked (chipSize : ℕ) (mem : Mem) (i : ℕ) : Prop where
  partition : IsPartition mem i
  offset_le : (infoAt mem i).offset ≤ chipSize
  sum_le : u32 ((infoAt mem i).offset + (infoAt mem i).size) ≤ chipSize

/-- What the loop has gone through from entry `k` up to the end marker `e`. -/
structure Passed (chipSize : ℕ) (mem : Mem) (k e md5Found n : ℕ) : Prop where
  le : k ≤ e
  isEnd : IsEnd mem e
  entries : ∀ i, k ≤ i → i < e → Checked chipSize mem i ∨ IsMd5 mem i
  count : (∀ i, k ≤ i → i < e → ¬ IsMd5 mem i) ∧ n = e - md5Found ∨
    md5Found = 0 ∧ n = e - 1 ∧ ∃ m, k ≤ m ∧ m < e ∧ IsMd5 mem m ∧ Digest mem m ∧
      ∀ i, k ≤ i → i < e → IsMd5 mem i → i = m

lemma verifyLoop_ok : ∀ {fuel k md5Found : ℕ}, verifyLoop chipSize mem fuel k md5Found = (.ok, n) →
    ∃ e, Passed chipSize mem k e md5Found n := by
  intro fuel
  induction fuel with
  | zero =>
    intro k md5Found h
    rw [verifyLoop] at h
    cases h
  | succ fuel ih =>
    intro k md5Found h
    rw [verifyLoop] at h
    simp only at h
    split_ifs at h with hpart hout hmd5 hfound hdigest hend
    · cases h
    · obtain ⟨e, he⟩ := ih h
      have hk : Checked chipSize mem k := ⟨hpart, by omega, by omega⟩
      refine ⟨e, by have := he.le; omega, he.isEnd, fun i hi hie => ?_, ?_⟩
      · rcases Nat.eq_or_lt_of_le hi with rfl | hi
        · exact .inl hk
        · exact he.entries i hi hie
      · rcases he.count with ⟨hnone, hn⟩ | ⟨hf, hn, m, hkm, hme, hm, hd, huniq⟩
        · refine .inl ⟨fun i hi hie => ?_, hn⟩
          rcases Nat.eq_or_lt_of_le hi with rfl | hi
          · exact hk.partition.not_md5
          · exact hnone i hi hie
        · refine .inr ⟨hf, hn, m, by omega, hme, hm, hd, fun i hi hie hi' => ?_⟩
          rcases Nat.eq_or_lt_of_le hi with rfl | hi
          · exact absurd hi' hk.partition.not_md5
          · exact huniq i hi hie hi'
    · cases h
    · cases h
    · obtain ⟨e, he⟩ := ih h
      have hcount : (∀ i, k + 1 ≤ i → i < e → ¬ IsMd5 mem i) ∧ n = e - 1 := by
        rcases he.count with hc | ⟨hf, _⟩
        · exact hc
        · exact absurd hf (by decide)
      refine ⟨e, by have := he.le; omega, he.isEnd, fun i hi hie => ?_,
        .inr ⟨by omega, hcount.2, k, Nat.le_refl k, he.le, hmd5, not_not.mp hdigest, fun i hi hie hi' => ?_⟩⟩
      · rcases Nat.eq_or_lt_of_le hi with rfl | hi
        · exact .inr hmd5
        · exact he.entries i hi hie
      · rcases Nat.eq_or_lt_of_le hi with rfl | hi
        · rfl
        · exact absurd hi' (hcount.1 i hi hie)
    · cases h
      exact ⟨k, Nat.le_refl k, hend, fun i hi hie => by omega, .inl ⟨fun i hi hie => by omega, rfl⟩⟩
    · cases h

lemma Passed.endsAt {e : ℕ} (h : Passed chipSize mem 0 e 0 n) : EndsAt mem e := by
  refine ⟨h.isEnd, fun i hi hend => ?_⟩
  rcases h.entries i (Nat.zero_le _) hi with hc | hm
  · exact hend.not_partition hc.partition
  · exact hend.not_md5 hm

/-! ### The promise -/

/-- The first `n` entries are partitions in the chip, before the entry with the digest if there is
one, and the bootloader's regions are theirs. -/
structure Sound (chipSize : ℕ) (mem : Mem) (n : ℕ) : Prop where
  genuine : ∀ i < n, IsPartition mem i
  inside : ∀ i < n, (infoAt mem i).offset + (infoAt mem i).size ≤ chipSize
  covered : ∀ e, EndsAt mem e → ∀ m < e, IsMd5 mem m → n ≤ m ∧ Digest mem m
  regions : ∀ bs, bootTable chipSize mem = some bs → ∀ pos, Region bs pos → pos = .unset ∨
    pos.offset + pos.size ≤ chipSize ∧
      ∃ i, IsPartition mem i ∧ pos = (infoAt mem i).toBoot.pos

/-- The entry with the digest, if there is one, is the last one. -/
def TrailingMd5 (mem : Mem) : Prop :=
  ∀ e, EndsAt mem e → ∀ m < e, IsMd5 mem m → m + 1 = e

/-- No partition of the table reaches beyond the 32-bit addresses. -/
def NoWrap (mem : Mem) : Prop :=
  ∀ e, EndsAt mem e → ∀ i < e, IsPartition mem i →
    (infoAt mem i).offset + (infoAt mem i).size < 2 ^ 32

/-- A table that verifies keeps the promise just when nothing follows its digest and no sum of
offset and size wraps around. -/
theorem tableVerify_sound_iff (hchip : chipSize < 2 ^ 32)
    (h : tableVerify chipSize mem = (.ok, n)) :
    Sound chipSize mem n ↔ TrailingMd5 mem ∧ NoWrap mem := by
  obtain ⟨e, he⟩ := verifyLoop_ok h
  have hend := he.endsAt
  constructor
  · intro hs
    have htrail : TrailingMd5 mem := by
      intro f hf m hm hmd5
      obtain rfl := hend.unique hf
      have hle := (hs.covered e hend m hm hmd5).1
      rcases he.count with ⟨hnone, _⟩ | ⟨_, hn, _⟩
      · exact absurd hmd5 (hnone m (Nat.zero_le _) hm)
      · omega
    refine ⟨htrail, fun f hf i hi hpart => ?_⟩
    obtain rfl := hend.unique hf
    have hin : i < n := by
      rcases he.count with ⟨_, hn⟩ | ⟨_, hn, m, _, hme, hmd5, _⟩
      · omega
      · have := htrail e hend m hme hmd5
        have hne : i ≠ m := fun heq => hpart.not_md5 (heq ▸ hmd5)
        omega
    exact Nat.lt_of_le_of_lt (hs.inside i hin) hchip
  · rintro ⟨htrail, hwrap⟩
    have hbefore : n ≤ e ∧ ∀ m < e, IsMd5 mem m → n ≤ m ∧ Digest mem m := by
      rcases he.count with ⟨hnone, hn⟩ | ⟨_, hn, m, _, hme, hmd5, hd, huniq⟩
      · exact ⟨by omega, fun m hm hmd5 => absurd hmd5 (hnone m (Nat.zero_le _) hm)⟩
      · refine ⟨by omega, fun m' hm' hmd5' => ?_⟩
        obtain rfl := huniq m' (Nat.zero_le _) hm' hmd5'
        have := htrail e hend m' hme hmd5
        exact ⟨by omega, hd⟩
    have hchecked : ∀ i < n, Checked chipSize mem i := by
      intro i hi
      rcases he.entries i (Nat.zero_le _) (by omega) with hc | hm
      · exact hc
      · have := (hbefore.2 i (by omega) hm).1
        omega
    have hinside : ∀ i < n, (infoAt mem i).offset + (infoAt mem i).size ≤ chipSize := by
      intro i hi
      have hc := hchecked i hi
      have hsum := hc.sum_le
      rwa [u32_of_lt (hwrap e hend i (by omega) hc.partition)] at hsum
    refine ⟨fun i hi => (hchecked i hi).partition, hinside, fun f hf m hm => ?_, ?_⟩
    · obtain rfl := hend.unique hf
      exact hbefore.2 m hm
    · intro bs hbs pos hpos
      rw [bootTable, h] at hbs
      obtain rfl := Option.some.inj hbs
      rcases hpos.of_load with h0 | ⟨p, hp, rfl⟩
      · exact .inl h0
      · obtain ⟨info, hinfo, rfl⟩ := List.mem_map.mp hp
        obtain ⟨i, hi, rfl⟩ := List.mem_map.mp hinfo
        have hi := List.mem_range.mp hi
        exact .inr ⟨hinside i hi, i, (hchecked i hi).partition, rfl⟩

/-- A table of one application that ends beyond the 32-bit addresses. -/
def wrappedTable : Mem := fun a =>
  ([0xAA, 0x50, 0x00, 0x00, 0x00, 0x00, 0x01, 0x00, 0xFF, 0xFF, 0xFF, 0xFF] ++
    List.replicate 20 0x00 : List Byte).getD a 0xFF

lemma verify_wrappedTable : tableVerify 0x400000 wrappedTable = (.ok, 1) := by decide +kernel

theorem tableVerify_sound_iff_wrapped :
    Sound 0x400000 wrappedTable 1 ↔ TrailingMd5 wrappedTable ∧ NoWrap wrappedTable :=
  tableVerify_sound_iff (by decide) verify_wrappedTable

/-- The check accepts an application of nearly 4 GB. -/
theorem tableVerify_not_sound : ¬ ∀ (chipSize : ℕ) (mem : Mem) (n : ℕ), chipSize < 2 ^ 32 →
    tableVerify chipSize mem = (.ok, n) → Sound chipSize mem n := by
  intro h
  have hs := (h 0x400000 wrappedTable 1 (by decide) verify_wrappedTable).inside 0 (by decide)
  exact absurd hs (by decide +kernel)

end EspIdf.PartitionTable
