/-
# Partition accesses are confined

Partitions that are registered lie in their chip and apart from the others on it, and an access
that is not refused stays in its partition.  A mapping starts at a page of the cache, below the
partition if need be.  The sums of offset and size must not wrap around.
-/
import EspIdf.PartitionTable.External

namespace EspIdf.PartitionTable

open Lib

variable {build : Build} {chipSize : ℕ → ℕ} {mem : Mem} {items items' : List Item}

/-- The partition lies in its chip. -/
def Item.Inside (chipSize : ℕ → ℕ) (it : Item) : Prop :=
  it.info.address + it.info.size ≤ chipSize it.flashChip

/-- Two partitions on one chip, of which one has been registered, have no byte in common. -/
def Item.Apart (a b : Item) : Prop :=
  a.flashChip = b.flashChip → (a.userRegistered = true ∨ b.userRegistered = true) →
    a.info.address + a.info.size ≤ b.info.address ∨
      b.info.address + b.info.size ≤ a.info.address

/-- What holds of the list at any time. -/
structure Confined (build : Build) (chipSize : ℕ → ℕ) (items : List Item) : Prop where
  inside : ∀ it ∈ items, it.Inside chipSize
  apart : items.Pairwise Item.Apart
  legacy : build.legacyImpl = true → ∀ it ∈ items, it.flashChip = 0

/-! ### The table -/

/-- The partitions of the list are those of entries of the table. -/
lemma loadLoop_mem {encryptionEnabled : Bool} {calloc : ℕ → Bool} {p : Partition} :
    ∀ {fuel n : ℕ} {input : List Byte} {list : List Partition}, (∀ i < n, IsPartition mem i) →
      p ∈ (loadLoop encryptionEnabled calloc mem fuel n input list).list → p ∈ list ∨
        ∃ i, (∀ j ≤ i, IsPartition mem j) ∧
          p = Partition.ofInfo encryptionEnabled (infoAt mem i) := by
  intro fuel
  induction fuel with
  | zero => exact fun _ h => .inl h
  | succ fuel ih =>
    intro n input list hn h
    rw [loadLoop] at h
    simp only at h
    split_ifs at h with hmd5 hpart hcalloc
    · exact .inl h
    · exact .inl h
    · have hle : ∀ j ≤ n, IsPartition mem j := fun j hj => by
        rcases Nat.eq_or_lt_of_le hj with rfl | hj
        · exact not_not.mp hpart
        · exact hn j hj
      rcases ih (fun i hi => hle i (by omega)) h with h | h
      · rcases List.mem_append.mp h with h | h
        · exact .inl h
        · exact .inr ⟨n, hle, List.mem_singleton.mp h⟩
      · exact .inr h
    · exact .inl h

lemma loadPartitions_mem {encryptionEnabled : Bool} {mmapErr : EspErr} {calloc : ℕ → Bool}
    {p : Partition} (h : p ∈ (loadPartitions encryptionEnabled mmapErr calloc mem).2) :
    ∃ i, (∀ j ≤ i, IsPartition mem j) ∧
      p = Partition.ofInfo encryptionEnabled (infoAt mem i) := by
  rw [loadPartitions] at h
  simp only at h
  split_ifs at h with hmmap hok
  · cases h
  · have hlist := loadLoop_mem (fun i hi => absurd hi (Nat.not_lt_zero i)) h
    rcases hlist with hnil | hentry
    · cases hnil
    · exact hentry
  · cases h

/-- The partitions of a verified table lie in the main chip. -/
lemma entry_inside {n i : ℕ} (h : tableVerify (chipSize 0) mem = (.ok, n)) (hwrap : NoWrap mem)
    (hi : ∀ j ≤ i, IsPartition mem j) :
    (infoAt mem i).offset + (infoAt mem i).size ≤ chipSize 0 := by
  obtain ⟨e, he⟩ := verifyLoop_ok h
  have hie : i < e := by
    by_contra hle
    exact he.isEnd.not_partition (hi e (by omega))
  rcases he.entries i (Nat.zero_le _) hie with hc | hm
  · have hsum := hc.sum_le
    rwa [u32_of_lt (hwrap e he.endsAt i hie hc.partition)] at hsum
  · exact absurd hm (hi i (Nat.le_refl i)).not_md5

lemma confined_itemsOfTable {n : ℕ} (h : tableVerify (chipSize 0) mem = (.ok, n))
    (hwrap : NoWrap mem) (env : Loading) :
    Confined build chipSize (itemsOfTable env
      (loadPartitions env.encryptionEnabled env.mmapErr env.calloc mem).2) := by
  have hitem : ∀ it ∈ itemsOfTable env
      (loadPartitions env.encryptionEnabled env.mmapErr env.calloc mem).2,
      it.userRegistered = false ∧ it.flashChip = 0 ∧ it.Inside chipSize := by
    intro it hit
    obtain ⟨k, hk, rfl⟩ := List.mem_mapIdx.mp hit
    obtain ⟨i, hi, heq⟩ := loadPartitions_mem (List.getElem_mem hk)
    refine ⟨rfl, rfl, ?_⟩
    change (_ : Partition).address + (_ : Partition).size ≤ chipSize 0
    rw [heq]
    exact entry_inside h hwrap hi
  refine ⟨fun it hit => (hitem it hit).2.2,
    List.pairwise_of_forall_mem_list fun a ha b hb _ hu => ?_, fun _ it hit => (hitem it hit).2.1⟩
  rw [(hitem a ha).1, (hitem b hb).1] at hu
  simp at hu

/-! ### The operations -/

lemma Confined.ensureLoaded {n : ℕ} (hc : Confined build chipSize items)
    (h : tableVerify (chipSize 0) mem = (.ok, n)) (hwrap : NoWrap mem) (env : Loading) :
    Confined build chipSize (ensurePartitionsLoaded env mem items).2 := by
  rw [ensurePartitionsLoaded]
  split_ifs
  · exact confined_itemsOfTable h hwrap env
  · exact hc

/-- Regions that the signed comparison finds apart are apart. -/
lemma regionsOverlap_false {s e s' e' : ℕ}
    (h : Bootloader.regionsOverlap (intptr s) (intptr e) (intptr s') (intptr e') = some false)
    (he : e < 2 ^ 32) (he' : e' < 2 ^ 32) (hs : s ≤ e) (hs' : s' ≤ e') : e ≤ s' ∨ e' ≤ s := by
  unfold Bootloader.regionsOverlap at h
  split at h
  · next hassert =>
    have hno : ¬ (intptr s' < intptr e ∧ intptr s < intptr e') := by simpa using h
    unfold intptr at hassert hno
    split_ifs at hassert hno <;> omega
  · cases h

/-- A region that overlaps no partition of its chip is apart from all of them. -/
lemma overlapsAny_false {chip offset size : ℕ} (hsum : offset + size < 2 ^ 32)
    (hlt : ∀ c, chipSize c < 2 ^ 32) : ∀ {items : List Item},
      (∀ it ∈ items, it.Inside chipSize) → overlapsAny chip offset size items = some false →
      ∀ it ∈ items, it.flashChip = chip →
        it.info.address + it.info.size ≤ offset ∨ offset + size ≤ it.info.address := by
  intro items
  induction items with
  | nil => exact fun _ _ it hit => absurd hit List.not_mem_nil
  | cons d items ih =>
    intro hin h it hit hchip
    have hin' : ∀ it ∈ items, it.Inside chipSize := fun it hit =>
      hin it (List.mem_cons_of_mem _ hit)
    rw [overlapsAny] at h
    split_ifs at h with hd
    · split at h
      · cases h
      · cases h
      · next hoverlap =>
        rcases List.mem_cons.mp hit with rfl | hit
        · have hinside : it.info.address + it.info.size ≤ chipSize it.flashChip :=
            hin it List.mem_cons_self
          have := hlt it.flashChip
          rw [u32_of_lt hsum, u32_of_lt (by omega)] at hoverlap
          exact (regionsOverlap_false hoverlap hsum (by omega) (by omega) (by omega)).symm
        · exact ih hin' h it hit hchip
    · rcases List.mem_cons.mp hit with rfl | hit
      · exact absurd hchip hd
      · exact ih hin' h it hit hchip

lemma Confined.register {n : ℕ} (hc : Confined build chipSize items) (hlt : ∀ c, chipSize c < 2 ^ 32)
    (h : tableVerify (chipSize 0) mem = (.ok, n)) (hwrap : NoWrap mem) {env : Loading}
    {calloc : Option ℕ} {e : External} (hsum : e.offset + e.size < 2 ^ 32)
    {r : Except AccessErr ℕ}
    (hreg : registerExternal build chipSize env mem calloc e items = some (r, items')) :
    Confined build chipSize items' := by
  have hloaded := hc.ensureLoaded h hwrap env
  unfold registerExternal at hreg
  split_ifs at hreg with hlegacy hsize
  · cases hreg
    exact hc
  · cases hreg
    exact hc
  · simp only at hreg
    split_ifs at hreg with herr
    · cases hreg
      exact hloaded
    · split at hreg
      · cases hreg
        exact hloaded
      · split at hreg
        · cases hreg
        · cases hreg
          exact hloaded
        · next hfree =>
          cases hreg
          rw [u32_of_lt hsum] at hsize
          have hapart := overlapsAny_false hsum hlt hloaded.inside hfree
          refine ⟨fun it hit => ?_, List.pairwise_append.mpr ⟨hloaded.apart,
            List.pairwise_singleton _ _, fun a ha b hb hchip _ => ?_⟩,
            fun hl => absurd hl hlegacy⟩
          · rcases List.mem_append.mp hit with hit | hit
            · exact hloaded.inside it hit
            · obtain rfl := List.mem_singleton.mp hit
              exact Nat.le_of_not_lt hsize
          · obtain rfl := List.mem_singleton.mp hb
            exact hapart a ha hchip

lemma Confined.deregister (hc : Confined build chipSize items) (ptr : ℕ) :
    Confined build chipSize (deregisterExternal ptr items) := by
  have hsub : (deregisterExternal ptr items).Sublist items := by
    rw [deregisterExternal]
    split
    · split_ifs
      · exact List.erase_sublist
      · exact List.Sublist.refl _
    · exact List.Sublist.refl _
  exact ⟨fun it hit => hc.inside it (hsub.subset hit), hc.apart.sublist hsub,
    fun hl it hit => hc.legacy hl it (hsub.subset hit)⟩

/-- The sum of offset and size is a 32-bit number. -/
def Op.Sums : Op → Prop
  | .register _ _ e => e.offset + e.size < 2 ^ 32
  | _ => True

lemma Confined.step {n : ℕ} (hc : Confined build chipSize items) (hlt : ∀ c, chipSize c < 2 ^ 32)
    (h : tableVerify (chipSize 0) mem = (.ok, n)) (hwrap : NoWrap mem) {op : Op} (hop : op.Sums)
    (hstep : PartitionTable.step build chipSize mem items op = some items') :
    Confined build chipSize items' := by
  cases op with
  | find env =>
    cases hstep
    exact hc.ensureLoaded h hwrap env
  | register env calloc e =>
    obtain ⟨⟨r, list⟩, hreg, rfl⟩ := Option.map_eq_some_iff.mp hstep
    exact hc.register hlt h hwrap hop hreg
  | deregister ptr =>
    cases hstep
    exact hc.deregister ptr

lemma Confined.run {n : ℕ} (hlt : ∀ c, chipSize c < 2 ^ 32)
    (h : tableVerify (chipSize 0) mem = (.ok, n)) (hwrap : NoWrap mem) : ∀ {ops : List Op}
      {items : List Item}, Confined build chipSize items → (∀ op ∈ ops, op.Sums) →
      PartitionTable.run build chipSize mem items ops = some items' → Confined build chipSize items' := by
  intro ops
  induction ops with
  | nil =>
    intro items hc _ hrun
    cases hrun
    exact hc
  | cons op ops ih =>
    intro items hc hops hrun
    rw [PartitionTable.run, List.foldlM_cons] at hrun
    obtain ⟨mid, hstep, hrun⟩ := Option.bind_eq_some_iff.mp hrun
    exact ih (hc.step hlt h hwrap (hops op List.mem_cons_self) hstep)
      (fun o ho => hops o (List.mem_cons_of_mem _ ho)) hrun

/-! ### Accesses -/

/-- The driver is called for a range of the partition.  A mapping starts at the page of the cache
that the range starts in, and its pointer is moved on to the range. -/
def DriverCall.Within (it : Item) : DriverCall → Prop
  | .read flashChip addr size => flashChip = it.flashChip ∧ it.info.address ≤ addr ∧
    addr + size ≤ it.info.address + it.info.size
  | .write flashChip addr size => flashChip = it.flashChip ∧ it.info.address ≤ addr ∧
    addr + size ≤ it.info.address + it.info.size
  | .writeEncrypted addr size => it.flashChip = 0 ∧ it.info.address ≤ addr ∧
    addr + size ≤ it.info.address + it.info.size
  | .erase flashChip addr size => flashChip = it.flashChip ∧ it.info.address ≤ addr ∧
    addr + size ≤ it.info.address + it.info.size
  | .mmap addr size regionOffset => it.flashChip = 0 ∧ addr % 0x10000 = 0 ∧
    regionOffset < 0x10000 ∧ it.info.address ≤ addr + regionOffset ∧
    addr + size ≤ it.info.address + it.info.size

section Accesses

variable {it : Item} {offset size : ℕ} {call : DriverCall}

/-- An access that is not refused has passed the check, and its sum does not exceed the size. -/
lemma checkRange_passed {f : Unit → Except AccessErr DriverCall} (hsum : offset + size < 2 ^ 32)
    (h : (checkRange it offset size >>= f) = .ok call) :
    offset + size ≤ it.info.size ∧ f () = .ok call := by
  unfold checkRange at h
  split_ifs at h with h1 h2
  · cases h
  · cases h
  · rw [u32_of_lt hsum] at h2
    exact ⟨by omega, h⟩

lemma Confined.chip_eq (hc : Confined build chipSize items) (hit : it ∈ items) :
    (if build.legacyImpl then 0 else it.flashChip) = it.flashChip := by
  split_ifs with hl
  · exact (hc.legacy hl it hit).symm
  · rfl

lemma partitionMmap_within (hin : it.info.address + it.info.size < 2 ^ 32)
    (hsum : offset + size < 2 ^ 32) (h : partitionMmap it offset size = .ok call) :
    call.Within it := by
  obtain ⟨hle, h⟩ := checkRange_passed hsum h
  simp only [u32_of_lt (show it.info.address + offset < 2 ^ 32 by omega)] at h
  rw [u32_of_lt (by omega)] at h
  split_ifs at h with hchip
  · cases h
  · cases h
    exact ⟨not_not.mp hchip, by omega, by omega, by omega, by omega⟩

lemma partitionRead_within (hc : Confined build chipSize items) (hit : it ∈ items)
    (hin : it.info.address + it.info.size < 2 ^ 32) (hsum : offset + size < 2 ^ 32)
    (h : partitionRead build it offset size = .ok call) : call.Within it := by
  obtain ⟨hle, h⟩ := checkRange_passed hsum h
  simp only [u32_of_lt (show it.info.address + offset < 2 ^ 32 by omega), hc.chip_eq hit] at h
  split_ifs at h with henc hrw hchip
  · cases h
    exact ⟨rfl, by omega, by omega⟩
  · cases h
  · exact partitionMmap_within hin hsum h

lemma partitionWrite_within (hc : Confined build chipSize items) (hit : it ∈ items)
    (hin : it.info.address + it.info.size < 2 ^ 32) (hsum : offset + size < 2 ^ 32)
    (h : partitionWrite build it offset size = .ok call) : call.Within it := by
  obtain ⟨hle, h⟩ := checkRange_passed hsum h
  simp only [u32_of_lt (show it.info.address + offset < 2 ^ 32 by omega), hc.chip_eq hit] at h
  split_ifs at h with henc hrw hchip
  · cases h
    exact ⟨rfl, by omega, by omega⟩
  · cases h
  · cases h
    exact ⟨not_not.mp hchip, by omega, by omega⟩

lemma partitionEraseRange_within (hc : Confined build chipSize items) (hit : it ∈ items)
    (hin : it.info.address + it.info.size < 2 ^ 32) (hsum : offset + size < 2 ^ 32)
    (h : partitionEraseRange build it offset size = .ok call) : call.Within it := by
  obtain ⟨hle, h⟩ := checkRange_passed hsum h
  simp only [u32_of_lt (show it.info.address + offset < 2 ^ 32 by omega), hc.chip_eq hit] at h
  split_ifs at h
  · cases h
  · cases h
  · cases h
  · cases h
    exact ⟨rfl, by omega, by omega⟩

end Accesses

/-- The call of an access, if it is not refused. -/
def Accesses (build : Build) (it : Item) (offset size : ℕ) (call : DriverCall) : Prop :=
  partitionRead build it offset size = .ok call ∨ partitionWrite build it offset size = .ok call ∨
    partitionEraseRange build it offset size = .ok call ∨
    partitionMmap it offset size = .ok call

/-- A table that holds only the entry with the digest. -/
def emptyTable : Mem := fun a => ([0xEB, 0xEB] ++ List.replicate 14 0xFF ++ md5 []).getD a 0xFF

lemma verify_emptyTable : tableVerify 0x400000 emptyTable = (.ok, 0) := by decide +kernel

lemma noWrap_emptyTable : NoWrap emptyTable := by
  have hend : EndsAt emptyTable 1 := by
    refine ⟨by unfold IsEnd; decide +kernel, fun i hi => ?_⟩
    obtain rfl : i = 0 := by omega
    unfold IsEnd
    decide +kernel
  intro e he i hi hpart
  obtain rfl := he.unique hend
  obtain rfl : i = 0 := by omega
  exact absurd hpart (by unfold IsPartition; decide +kernel)

/-- A partition that does not start at a page of the cache. -/
def unalignedExternal : External := ⟨0, 0x9000, 0x6000, [0x78], 1, 0x40⟩

def plainBuild : Build := ⟨false, true⟩

def loading : Loading := ⟨false, .ok, fun _ => true, fun n => n⟩

lemma run_unaligned :
    run plainBuild (fun _ => 0x400000) emptyTable [] [.register loading (some 7) unalignedExternal] =
      some [unalignedExternal.item 7] := by
  decide +kernel

/-- The range that the driver is called for. -/
def DriverCall.range : DriverCall → ℕ × ℕ
  | .read _ addr size => (addr, size)
  | .write _ addr size => (addr, size)
  | .writeEncrypted addr size => (addr, size)
  | .erase _ addr size => (addr, size)
  | .mmap addr size _ => (addr, size)

example : (DriverCall.mmap 0 0xA000 0x9000).range = (0, 0xA000) := by decide +kernel

end EspIdf.PartitionTable
