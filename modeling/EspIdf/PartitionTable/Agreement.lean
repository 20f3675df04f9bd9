/-
# Generator, bootloader and application agree

A table that the generator accepts is written as its entries, an entry with their digest and
padding.  The bootloader and the application walk over the same entries, and the application
gets back the partitions of the rows.
-/
import EspIdf.PartitionTable.Generator
import EspIdf.PartitionTable.Loader

namespace EspIdf.PartitionTable

open Lib

variable {py : Python} {p q : PartitionDefinition} {table rest : Table} {mem : Mem}
  {chipSize : ℕ} {offsetPartTable : ℤ} {secure : Bool}

/-! ### Written entries -/

/-- The numbers of the row can be packed, and its partition lies in the flash. -/
structure Writable (py : Python) (chipSize : ℕ) (p : PartitionDefinition) : Prop where
  name_le : (py.encode p.name).length ≤ 16
  name_ne : 0 ∉ py.encode p.name
  type : 0 ≤ p.type ∧ p.type < 256
  subtype : 0 ≤ p.subtype ∧ p.subtype < 256
  start : 0 ≤ p.start
  size : 0 ≤ p.size
  inside : p.start + p.size ≤ chipSize

/-- The numbers of the row can be packed. -/
structure Packed (p : PartitionDefinition) : Prop where
  type : 0 ≤ p.type ∧ p.type < 256
  subtype : 0 ≤ p.subtype ∧ p.subtype < 256
  start : 0 ≤ p.start ∧ p.start < 2 ^ 32
  size : 0 ≤ p.size ∧ p.size < 2 ^ 32

lemma Writable.packed (h : Writable py chipSize p) (hchip : chipSize < 2 ^ 32) : Packed p := by
  have := h.start
  have := h.size
  have := h.inside
  exact ⟨h.type, h.subtype, ⟨h.start, by omega⟩, ⟨h.size, by omega⟩⟩

/-- The entry of a row. -/
def entryBytes (py : Python) (p : PartitionDefinition) : List Byte :=
  magicBytes ++ [BitVec.ofNat 8 p.type.toNat] ++ [BitVec.ofNat 8 p.subtype.toNat] ++
    le32 p.start.toNat ++ le32 p.size.toNat ++ pack16s (py.encode p.name) ++
    le32 (if p.encrypted then 1 else 0)

@[simp] lemma length_pack16s (s : List Byte) : (pack16s s).length = 16 := by
  rw [pack16s, List.length_append, List.length_take, List.length_replicate]
  omega

@[simp] lemma length_entryBytes (py : Python) (p : PartitionDefinition) :
    (entryBytes py p).length = 32 := by
  simp [entryBytes, magicBytes]

lemma toBinary_entry (h : Packed p) : p.toBinary py = .ok (entryBytes py p) := by
  rw [PartitionDefinition.toBinary, packB, packB, packL, packL, if_pos h.type, if_pos h.subtype,
    if_pos h.start, if_pos h.size]
  rfl

/-- The entries of all rows. -/
def entries (py : Python) (table : Table) : List Byte := (table.map (entryBytes py)).flatten

lemma length_entries (py : Python) (table : Table) :
    (entries py table).length = 32 * table.length := by
  induction table with
  | nil => rfl
  | cons p table ih =>
    rw [entries] at ih ⊢
    rw [List.map_cons, List.flatten_cons, List.length_append, ih, length_entryBytes,
      List.length_cons]
    omega

/-- The table in binary form. -/
def tableBytes (py : Python) (table : Table) : List Byte :=
  entries py table ++ (md5PartitionBegin ++ md5 (entries py table)) ++
    List.replicate (maxPartitionLength - 32 * (table.length + 1)) 0xFF

lemma length_tableBytes (hlen : table.length ≤ 94) :
    (tableBytes py table).length = maxPartitionLength := by
  rw [tableBytes, List.length_append, List.length_append, List.length_append, length_entries,
    length_md5, List.length_replicate, show md5PartitionBegin.length = 16 from rfl,
    maxPartitionLength]
  omega

lemma mapM_toBinary (h : ∀ p ∈ table, Packed p) :
    table.mapM (PartitionDefinition.toBinary py) = .ok (table.map (entryBytes py)) := by
  induction table with
  | nil => rfl
  | cons p table ih =>
    rw [List.mapM_cons, toBinary_entry (h p List.mem_cons_self),
      ih fun p hp => h p (List.mem_cons_of_mem _ hp)]
    rfl

theorem toBinary_eq (h : ∀ p ∈ table, Packed p)
    (hlen : table.length ≤ 94) : toBinary py table = .ok (tableBytes py table) := by
  have hresult : ((table.map (entryBytes py)).flatten ++ md5PartitionBegin ++
      md5 (table.map (entryBytes py)).flatten).length = 32 * (table.length + 1) := by
    rw [List.length_append, List.length_append, length_md5]
    have := length_entries py table
    rw [entries] at this
    rw [this]
    simp [md5PartitionBegin]
    omega
  rw [toBinary, mapM_toBinary h]
  simp only [bind, Except.bind, hresult]
  rw [if_neg (by rw [maxPartitionLength]; omega), tableBytes, entries, List.append_assoc _ _ (md5 _)]
  rfl

/-! ### Read entries -/

lemma leVal_byte {n : ℤ} (h : 0 ≤ n ∧ n < 256) : leVal [BitVec.ofNat 8 n.toNat] = n.toNat := by
  rw [leVal, leVal, BitVec.toNat_ofNat]
  omega

lemma ofBytes_entryBytes (h : Packed p) :
    PartitionInfo.ofBytes (entryBytes py p) = {
      magic := partitionMagic
      type := p.type.toNat
      subtype := p.subtype.toNat
      offset := p.start.toNat
      size := p.size.toNat
      label := pack16s (py.encode p.name)
      flags := if p.encrypted then 1 else 0 } := by
  have hstart : p.start.toNat < 2 ^ 32 := by
    have := h.start
    omega
  have hsize : p.size.toNat < 2 ^ 32 := by
    have := h.size
    omega
  have hflags : (if p.encrypted then 1 else 0) < 2 ^ 32 := by split <;> omega
  have hfield : ∀ {a b c : List Byte} {n m : ℕ}, entryBytes py p = a ++ (b ++ c) →
      a.length = n → b.length = m → ((entryBytes py p).drop n).take m = b := by
    intro a b c n m heq ha hb
    rw [heq, List.drop_left' ha, List.take_left' hb]
  have hmagic : (entryBytes py p).take 2 = magicBytes := by
    simp only [entryBytes, List.append_assoc]
    exact List.take_left' rfl
  have htype : ((entryBytes py p).drop 2).take 1 = [BitVec.ofNat 8 p.type.toNat] :=
    hfield (a := magicBytes) (by simp only [entryBytes, List.append_assoc]; rfl) rfl rfl
  have hsubtype : ((entryBytes py p).drop 3).take 1 = [BitVec.ofNat 8 p.subtype.toNat] :=
    hfield (a := magicBytes ++ [BitVec.ofNat 8 p.type.toNat])
      (by simp only [entryBytes, List.append_assoc]; rfl) rfl rfl
  have hoffset : ((entryBytes py p).drop 4).take 4 = le32 p.start.toNat :=
    hfield (a := magicBytes ++ [BitVec.ofNat 8 p.type.toNat] ++
      [BitVec.ofNat 8 p.subtype.toNat])
      (by simp only [entryBytes, List.append_assoc]; rfl) rfl (length_le32 _)
  have hlength : ((entryBytes py p).drop 8).take 4 = le32 p.size.toNat :=
    hfield (a := magicBytes ++ [BitVec.ofNat 8 p.type.toNat] ++
      [BitVec.ofNat 8 p.subtype.toNat] ++ le32 p.start.toNat)
      (by simp only [entryBytes, List.append_assoc]; rfl) rfl (length_le32 _)
  have hlabel : ((entryBytes py p).drop 12).take 16 = pack16s (py.encode p.name) :=
    hfield (a := magicBytes ++ [BitVec.ofNat 8 p.type.toNat] ++
      [BitVec.ofNat 8 p.subtype.toNat] ++ le32 p.start.toNat ++ le32 p.size.toNat)
      (by simp only [entryBytes, List.append_assoc]; rfl) rfl (length_pack16s _)
  have hlast : ((entryBytes py p).drop 28).take 4 = le32 (if p.encrypted then 1 else 0) :=
    hfield (a := magicBytes ++ [BitVec.ofNat 8 p.type.toNat] ++
      [BitVec.ofNat 8 p.subtype.toNat] ++ le32 p.start.toNat ++ le32 p.size.toNat ++
      pack16s (py.encode p.name)) (c := [])
      (by simp only [entryBytes, List.append_assoc, List.append_nil])
      (by simp only [List.length_append, length_pack16s, length_le32]; rfl) (length_le32 _)
  simp only [PartitionInfo.ofBytes, hmagic, htype, hsubtype, hoffset, hlength, hlabel, hlast,
    leVal_byte h.type, leVal_byte h.subtype, leVal_le32 hstart, leVal_le32 hsize,
    leVal_le32 hflags]
  rfl

/-- A label of up to sixteen bytes is copied with a zero after it. -/
lemma strncpy_pack16s {name : List Byte} (hle : name.length ≤ 16) (hne : 0 ∉ name) :
    strncpy 16 (pack16s name) = name ++ List.replicate (17 - name.length) 0 := by
  have htake : (pack16s name).take 16 = name ++ List.replicate (16 - name.length) 0 := by
    rw [List.take_of_length_le (Nat.le_of_eq (length_pack16s _)), pack16s,
      List.take_of_length_le hle]
  have hwhile : (name ++ List.replicate (16 - name.length) 0).takeWhile (fun b => b ≠ (0 : Byte)) =
      name := by
    rw [List.takeWhile_append_of_pos fun b hb => by
      rw [decide_eq_true_eq]
      rintro rfl
      exact hne hb]
    cases 16 - name.length with
    | zero => simp
    | succ n => simp [List.replicate_succ]
  simp only [strncpy, htake, hwhile]

/-! ### Walking over the table -/

/-- Entry `i` is the entry of the row. -/
lemma infoAt_eq {i : ℕ} (h : mem.read (32 * i) 32 = entryBytes py p) :
    infoAt mem i = PartitionInfo.ofBytes (entryBytes py p) := by
  rw [infoAt, infoSize, h]

/-- The memory holds the table from address 0 on. -/
structure Holds (py : Python) (table : Table) (mem : Mem) : Prop where
  entries : mem.read 0 (32 * table.length) = entries py table
  md5 : mem.read (32 * table.length) 32 = md5PartitionBegin ++ md5 (PartitionTable.entries py table)
  padding : mem.read (32 * (table.length + 1)) 32 = List.replicate 32 0xFF

lemma holds_of_read (hlen : table.length ≤ 94)
    (h : mem.read 0 maxPartitionLength = tableBytes py table) : Holds py table mem := by
  obtain ⟨k, hk⟩ : ∃ k, maxPartitionLength - 32 * (table.length + 1) = 32 + k :=
    Nat.exists_eq_add_of_le (by rw [maxPartitionLength]; omega)
  have hsplit : maxPartitionLength = 32 * table.length + 32 + (32 + k) := by
    rw [maxPartitionLength] at hk ⊢
    omega
  rw [tableBytes, hk, hsplit, Mem.read_append, Mem.read_append, Nat.zero_add] at h
  obtain ⟨h, hpad⟩ := List.append_inj h (by
    simp [length_entries, md5PartitionBegin])
  obtain ⟨hentries, hmd5⟩ := List.append_inj h (by simp [length_entries])
  refine ⟨hentries, hmd5, ?_⟩
  rw [Mem.read_append, ← List.replicate_append_replicate] at hpad
  have hread := (List.append_inj hpad (by simp)).1
  rwa [Nat.zero_add] at hread

/-- The part of the table from entry `i` on. -/
structure HoldsFrom (py : Python) (table : Table) (mem : Mem) (i : ℕ) (rest : Table) : Prop where
  length : i + rest.length = table.length
  read : mem.read (32 * i) (32 * rest.length) = entries py rest
  mem : ∀ p ∈ rest, p ∈ table

lemma Holds.from_zero (h : Holds py table mem) : HoldsFrom py table mem 0 table :=
  ⟨Nat.zero_add _, h.entries, fun _ hp => hp⟩

lemma HoldsFrom.head {i : ℕ} (h : HoldsFrom py table mem i (p :: rest)) :
    mem.read (32 * i) 32 = entryBytes py p ∧ HoldsFrom py table mem (i + 1) rest := by
  have hread := h.read
  rw [List.length_cons, Nat.mul_succ, Nat.add_comm, Mem.read_append, entries, List.map_cons,
    List.flatten_cons] at hread
  obtain ⟨hhead, htail⟩ := List.append_inj hread (by simp)
  refine ⟨hhead, ?_, htail, fun q hq => h.mem q (List.mem_cons_of_mem _ hq)⟩
  have hlength := h.length
  rw [List.length_cons] at hlength
  omega

/-- After the entries there is one with the digest. -/
lemma Holds.magic_md5 (h : Holds py table mem) :
    (infoAt mem table.length).magic = partitionMagicMd5 := by
  have htake : (md5PartitionBegin ++ Lib.md5 (PartitionTable.entries py table)).take 2 =
      [0xEB, 0xEB] := by
    rw [List.take_append_of_le_length (by decide)]
    rfl
  rw [infoAt, infoSize, h.md5]
  simp only [PartitionInfo.ofBytes, htake]
  rfl

lemma Holds.digest (h : Holds py table mem) :
    mem.read (infoSize * table.length + partitionMd5Offset) 16 =
      Lib.md5 (PartitionTable.entries py table) := by
  have hread := h.md5
  rw [show 32 = 16 + 16 from rfl, Mem.read_append] at hread
  exact (List.append_inj hread rfl).2

/-- The bootloader accepts the table and counts its rows. -/
theorem verifyLoop_eq (hchip : chipSize < 2 ^ 32) (hw : ∀ p ∈ table, Writable py chipSize p)
    (h : Holds py table mem) : ∀ {rest : Table} {i fuel : ℕ}, HoldsFrom py table mem i rest →
      rest.length + 2 ≤ fuel → verifyLoop chipSize mem fuel i 0 = (.ok, table.length) := by
  intro rest
  induction rest with
  | nil =>
    intro i fuel hfrom hfuel
    obtain rfl : i = table.length := hfrom.length
    obtain ⟨fuel, rfl⟩ : ∃ k, fuel = k + 1 + 1 := ⟨fuel - 2, by simp at hfuel; omega⟩
    have hend : infoAt mem (table.length + 1) =
        PartitionInfo.ofBytes (List.replicate 32 0xFF) := by
      rw [infoAt, infoSize, h.padding]
    have hentries : mem.read 0 (table.length * infoSize) = PartitionTable.entries py table := by
      rw [infoSize, Nat.mul_comm, h.entries]
    have hmagic : partitionMagicMd5 ≠ partitionMagic := by decide
    rw [verifyLoop]
    simp only [h.magic_md5, h.digest, hentries, hmagic, if_false, if_true, ne_eq, not_true_eq_false]
    rw [verifyLoop]
    simp only [hend]
    rw [if_neg (by decide), if_neg (by decide), if_pos (by decide), Nat.add_sub_cancel]
  | cons p rest ih =>
    intro i fuel hfrom hfuel
    obtain ⟨fuel, rfl⟩ : ∃ k, fuel = k + 1 := ⟨fuel - 1, by rw [List.length_cons] at hfuel; omega⟩
    rw [List.length_cons] at hfuel
    obtain ⟨hread, hnext⟩ := hfrom.head
    have hp := hw p (hfrom.mem p List.mem_cons_self)
    have hinfo := infoAt_eq hread
    rw [ofBytes_entryBytes (hp.packed hchip)] at hinfo
    have hinside : p.start.toNat + p.size.toNat ≤ chipSize := by
      have := hp.start
      have := hp.size
      have := hp.inside
      omega
    rw [verifyLoop]
    simp only [hinfo, if_true]
    rw [u32_of_lt (by omega), if_neg (by omega)]
    exact ih hnext (by omega)

/-- What the application makes of a row. -/
def PartitionDefinition.partition (py : Python) (encryptionEnabled : Bool)
    (p : PartitionDefinition) : Partition where
  address := p.start.toNat
  size := p.size.toNat
  type := p.type.toNat
  subtype := p.subtype.toNat
  -- applications, OTA data and NVS keys are always encrypted
  encrypted := encryptionEnabled && (p.encrypted || decide (p.type = appType) ||
    decide (p.type = dataType) && (decide (p.subtype = 0) || decide (p.subtype = 4)))
  label := py.encode p.name ++ List.replicate (17 - (py.encode p.name).length) 0

lemma ofInfo_eq (hchip : chipSize < 2 ^ 32) (hp : Writable py chipSize p)
    (encryptionEnabled : Bool) :
    Partition.ofInfo encryptionEnabled (PartitionInfo.ofBytes (entryBytes py p)) =
      p.partition py encryptionEnabled := by
  rw [ofBytes_entryBytes (hp.packed hchip), Partition.ofInfo, PartitionDefinition.partition,
    strncpy_pack16s hp.name_le hp.name_ne]
  congr 1
  cases encryptionEnabled with
  | false => rfl
  | true =>
    have htype := hp.type.1
    have hsubtype := hp.subtype.1
    have happ : p.type.toNat = 0x00 ↔ p.type = appType := by rw [appType]; omega
    have hdata : p.type.toNat = 0x01 ↔ p.type = dataType := by rw [dataType]; omega
    have hota : p.subtype.toNat = 0x00 ↔ p.subtype = 0 := by omega
    have hkeys : p.subtype.toNat = 0x04 ↔ p.subtype = 4 := by omega
    simp only [happ, hdata, hota, hkeys]
    rw [Bool.eq_iff_iff]
    cases p.encrypted with
    | false => simp [and_or_left]
    | true => simp

/-- The application loads the rows. -/
theorem loadLoop_eq (hchip : chipSize < 2 ^ 32) (hw : ∀ p ∈ table, Writable py chipSize p)
    (h : Holds py table mem) {encryptionEnabled : Bool} {calloc : ℕ → Bool}
    (hcalloc : ∀ n, calloc n = true) : ∀ {rest : Table} {i fuel : ℕ} {input : List Byte}
      {list : List Partition}, HoldsFrom py table mem i rest → rest.length + 1 ≤ fuel →
      loadLoop encryptionEnabled calloc mem fuel i input list =
        ⟨.ok, some table.length, input ++ entries py rest,
          list ++ rest.map (PartitionDefinition.partition py encryptionEnabled)⟩ := by
  intro rest
  induction rest with
  | nil =>
    intro i fuel input list hfrom hfuel
    obtain rfl : i = table.length := hfrom.length
    obtain ⟨fuel, rfl⟩ : ∃ k, fuel = k + 1 := ⟨fuel - 1, by simp at hfuel; omega⟩
    rw [loadLoop]
    simp only [h.magic_md5, if_true]
    simp [entries]
  | cons p rest ih =>
    intro i fuel input list hfrom hfuel
    obtain ⟨fuel, rfl⟩ : ∃ k, fuel = k + 1 := ⟨fuel - 1, by rw [List.length_cons] at hfuel; omega⟩
    rw [List.length_cons] at hfuel
    obtain ⟨hread, hnext⟩ := hfrom.head
    have hp := hw p (hfrom.mem p List.mem_cons_self)
    have hmagic : (PartitionInfo.ofBytes (entryBytes py p)).magic = partitionMagic := by
      rw [ofBytes_entryBytes (hp.packed hchip)]
    have hother : partitionMagic ≠ partitionMagicMd5 := by decide
    rw [loadLoop]
    simp only [infoAt_eq hread, hmagic, hother, hcalloc, if_false, if_true, ne_eq,
      not_true_eq_false, infoSize, hread, ofInfo_eq hchip hp]
    rw [ih hnext (by omega)]
    simp [entries]

/-- The bootloader accepts the binary form of the table and counts its rows. -/
theorem tableVerify_eq (hchip : chipSize < 2 ^ 32) (hw : ∀ p ∈ table, Writable py chipSize p)
    (hlen : table.length ≤ 94) (hmem : mem.read 0 maxPartitionLength = tableBytes py table) :
    tableVerify chipSize mem = (.ok, table.length) := by
  have hholds := holds_of_read hlen hmem
  refine verifyLoop_eq hchip hw hholds hholds.from_zero ?_
  rw [show partitionTableMaxEntries = 96 from rfl]
  omega

/-- The application loads the partitions of the rows from the binary form of the table. -/
theorem loadPartitions_eq (hchip : chipSize < 2 ^ 32) (hw : ∀ p ∈ table, Writable py chipSize p)
    (hlen : table.length ≤ 94) (hmem : mem.read 0 maxPartitionLength = tableBytes py table)
    {encryptionEnabled : Bool} {calloc : ℕ → Bool} (hcalloc : ∀ n, calloc n = true) :
    loadPartitions encryptionEnabled .ok calloc mem =
      (.ok, table.map (PartitionDefinition.partition py encryptionEnabled)) := by
  have hholds := holds_of_read hlen hmem
  have hload : loadLoop encryptionEnabled calloc mem (0x1000 / infoSize) 0 [] [] =
      ⟨.ok, some table.length, [] ++ entries py table,
        [] ++ table.map (PartitionDefinition.partition py encryptionEnabled)⟩ :=
    loadLoop_eq hchip hw hholds hcalloc hholds.from_zero
      (by rw [show 0x1000 / infoSize = 128 from rfl]; omega)
  rw [loadPartitions, if_neg (by simp)]
  simp only [hload, List.nil_append, hholds.digest, ne_eq, not_true_eq_false, if_false, if_true]

/-! ### What the generator checks -/

/-- The partitions have no byte in common. -/
def Apart (p q : PartitionDefinition) : Prop :=
  p.start + p.size ≤ q.start ∨ q.start + q.size ≤ p.start

lemma Apart.symm (h : Apart p q) : Apart q p := Or.symm h

/-- In the order of the check, every partition ends before the next ones begin. -/
lemma checkOverlaps_pairwise : ∀ {ps : Table} {last : Option PartitionDefinition},
    (∀ p ∈ ps, 0 ≤ p.size) → checkOverlaps offsetPartTable last ps = .ok () →
    ps.Pairwise (fun p q => p.start + p.size ≤ q.start) ∧
    (∀ p ∈ ps, offsetPartTable + partitionTableSize ≤ p.start) ∧
    ∀ l, last = some l → ∀ p ∈ ps, l.start + l.size ≤ p.start := by
  intro ps
  induction ps with
  | nil =>
    intro last _ _
    exact ⟨List.Pairwise.nil, fun p hp => absurd hp List.not_mem_nil,
      fun _ _ p hp => absurd hp List.not_mem_nil⟩
  | cons p ps ih =>
    intro last hsize h
    rw [checkOverlaps] at h
    split at h
    · exact absurd h (by simp)
    · next habove =>
      split at h
      · exact absurd h (by simp)
      · next hlast =>
        obtain ⟨hpair, hall, hnext⟩ := ih (fun q hq => hsize q (List.mem_cons_of_mem _ hq)) h
        refine ⟨List.pairwise_cons.mpr ⟨hnext p rfl, hpair⟩, ?_, ?_⟩
        · rw [List.forall_mem_cons]
          exact ⟨Int.not_lt.mp habove, hall⟩
        · rintro l rfl
          have hfirst : l.start + l.size ≤ p.start := by simpa using hlast
          rw [List.forall_mem_cons]
          refine ⟨hfirst, fun q hq => ?_⟩
          have := hnext p rfl q hq
          have := hsize p List.mem_cons_self
          omega

/-- The checks of `verify` that the layout depends on. -/
lemma verify_ok (h : verify offsetPartTable secure table = .ok ()) :
    checkOverlaps offsetPartTable none (table.mergeSort fun a b => a.start ≤ b.start) = .ok () := by
  simp only [verify, bind, Except.bind, pure, Except.pure, throw, throwThe, MonadExceptOf.throw] at h
  split at h
  · exact absurd h (by simp)
  · split at h
    · exact absurd h (by simp)
    · split at h
      · exact absurd h (by simp)
      · next hcheck => exact hcheck

theorem verify_layout (hsize : ∀ p ∈ table, 0 ≤ p.size)
    (h : verify offsetPartTable secure table = .ok ()) :
    table.Pairwise Apart ∧ ∀ p ∈ table, offsetPartTable + partitionTableSize ≤ p.start := by
  have hperm := List.mergeSort_perm table fun a b => a.start ≤ b.start
  obtain ⟨hpair, habove, _⟩ := checkOverlaps_pairwise
    (fun p hp => hsize p (hperm.mem_iff.mp hp)) (verify_ok h)
  refine ⟨?_, fun p hp => habove p (hperm.mem_iff.mpr hp)⟩
  rw [← hperm.pairwise_iff Apart.symm]
  exact hpair.imp Or.inl

lemma accept_ok {csv : Str} (h : accept py offsetPartTable secure csv = .ok table) :
    fromCsv py offsetPartTable csv = .ok table ∧
    verify offsetPartTable secure table = .ok () := by
  simp only [accept, bind, Except.bind, pure, Except.pure] at h
  split at h
  · exact absurd h (by simp)
  · next t hcsv =>
    split at h
    · exact absurd h (by simp)
    · next hverify =>
      obtain rfl : t = table := by simpa using h
      exact ⟨hcsv, hverify⟩

/-! ### Agreement -/

/-- The binary form of an accepted table is verified by the bootloader, which counts the rows, and
the application loads the partitions of the rows in their order.  The partitions lie apart from
each other and above the table. -/
theorem table_agrees {csv : Str} (offsetPartTable : ℕ)
    (h : accept py offsetPartTable secure csv = .ok table)
    (hname : ∀ p ∈ table, 1 ≤ (py.encode p.name).length ∧ (py.encode p.name).length ≤ 16 ∧
      0 ∉ py.encode p.name)
    (htype : ∀ p ∈ table, 0 ≤ p.type ∧ p.type < 256 ∧ 0 ≤ p.subtype ∧ p.subtype < 256)
    (hlen : table.length ≤ 94) (hchip : chipSize < 2 ^ 32)
    (hinside : ∀ p ∈ table, 0 ≤ p.size ∧ p.start + p.size ≤ chipSize) :
    ∃ bin, toBinary py table = .ok bin ∧
      (∀ mem : Mem, mem.read 0 maxPartitionLength = bin →
        tableVerify chipSize mem = (.ok, table.length) ∧
        ∀ encryptionEnabled calloc, (∀ n, calloc n = true) →
          loadPartitions encryptionEnabled .ok calloc mem =
            (.ok, table.map (PartitionDefinition.partition py encryptionEnabled))) ∧
      table.Pairwise Apart ∧ ∀ p ∈ table, offsetPartTable + partitionTableSize ≤ p.start := by
  obtain ⟨hapart, habove⟩ := verify_layout (fun p hp => (hinside p hp).1) (accept_ok h).2
  have hw : ∀ p ∈ table, Writable py chipSize p := by
    intro p hp
    have habove := habove p hp
    obtain ⟨_, hle, hne⟩ := hname p hp
    obtain ⟨ht, ht', hs, hs'⟩ := htype p hp
    rw [partitionTableSize] at habove
    exact ⟨hle, hne, ⟨ht, ht'⟩, ⟨hs, hs'⟩, by omega, (hinside p hp).1, (hinside p hp).2⟩
  exact ⟨tableBytes py table, toBinary_eq (fun p hp => (hw p hp).packed hchip) hlen, fun mem hmem =>
    ⟨tableVerify_eq hchip hw hlen hmem, fun _ _ hcalloc =>
      loadPartitions_eq hchip hw hlen hmem hcalloc⟩, hapart, habove⟩

/-- Python's string functions on ASCII text without variables, with decimal numbers. -/
def ascii : Python where
  splitlines := fun s => s.splitOn '\n'
  expandvars := id
  strip := fun s => ((s.dropWhile Char.isWhitespace).reverse.dropWhile Char.isWhitespace).reverse
  lower := List.map Char.toLower
  int0 := fun s => if s = [] ∨ s.any (fun c => !c.isDigit) then none
    else some (s.foldl (fun n c => 10 * n + (c.toNat - 48 : ℕ)) 0)
  encode := List.map fun c => BitVec.ofNat 8 c.toNat

/-- A table with one application. -/
def factory : PartitionDefinition where
  name := "factory".toList
  type := 0
  subtype := 0
  offset := some 0x10000
  size := 0x100000
  encrypted := false
  lineNo := 1

lemma accept_factory :
    accept ascii 0x8000 false "factory,app,factory,,1M,".toList = .ok [factory] := by
  decide +kernel

theorem table_agrees_example :
    ∃ bin, toBinary ascii [factory] = .ok bin ∧
      (∀ mem : Mem, mem.read 0 maxPartitionLength = bin →
        tableVerify 0x400000 mem = (.ok, 1) ∧
        ∀ encryptionEnabled calloc, (∀ n, calloc n = true) →
          loadPartitions encryptionEnabled .ok calloc mem =
            (.ok, [factory.partition ascii encryptionEnabled])) ∧
      [factory].Pairwise Apart ∧ ∀ p ∈ [factory], 0x8000 + partitionTableSize ≤ p.start :=
  table_agrees 0x8000 accept_factory (by decide +kernel) (by decide) (by decide) (by decide)
    (by decide)

/-- With flash encryption an application is loaded as encrypted even if its row is not marked so. -/
theorem application_always_encrypted :
    ¬ ∀ (py : Python) (offsetPartTable : ℕ) secure csv table bin (mem : Mem) calloc,
      accept py offsetPartTable secure csv = .ok table → toBinary py table = .ok bin →
      mem.read 0 maxPartitionLength = bin → (∀ n, calloc n = true) →
      (loadPartitions true .ok calloc mem).2.map Partition.encrypted =
        table.map PartitionDefinition.encrypted := by
  intro h
  have hw : ∀ p ∈ [factory], Writable ascii 0x400000 p := by
    intro p hp
    rw [List.mem_singleton.mp hp]
    exact ⟨by decide +kernel, by decide +kernel, by decide, by decide, by decide, by decide,
      by decide⟩
  have hmem : Mem.read (fun a => (tableBytes ascii [factory]).getD a 0xFF) 0 maxPartitionLength =
      tableBytes ascii [factory] :=
    Mem.read_eq_of_getD (length_tableBytes (by decide)) fun i _ => by
      rw [Nat.zero_add]
      rfl
  have hload := h ascii 0x8000 false _ _ _ _ (fun _ => true) accept_factory
    (toBinary_eq (fun p hp => (hw p hp).packed (by decide)) (by decide)) hmem fun _ => rfl
  rw [loadPartitions_eq (by decide) hw (by decide) hmem fun _ => rfl] at hload
  exact absurd hload (by decide)

example : factory.start + factory.size = 0x110000 := by decide +kernel

end EspIdf.PartitionTable
