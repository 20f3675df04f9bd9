/-
# The tables of bank switching stay consistent

The descriptors of physical blocks and of range blocks, the lists of the handles and the MMU
agree in exactly the runs in which blocks are mapped at the start of a range, and in which no
call unmaps a range block that is not mapped while the physical block that it showed last is
mapped elsewhere.
-/
import EspIdf.Himem.Banks

namespace EspIdf.Himem

/-! ### Runs -/

/-- The tables, and the live handles by their addresses. -/
structure World where
  banks : Banks
  handles : ℕ → Option RamData
  ranges : ℕ → Option RangeData

/-- No handle is live. -/
def World.init (mmu : ℕ → ℕ) : World := ⟨.init mmu, fun _ => none, fun _ => none⟩

/-- The calls; a new handle gets an address that no live handle has. -/
inductive Op where
  | alloc (size handle : ℕ) (mem : Bool)
  | free (handle : ℕ)
  | allocMapRange (size range : ℕ) (mem : Bool)
  | freeMapRange (range : ℕ)
  | map (handle range ramOffset rangeOffset len : ℕ)
  | unmap (range ptr len : ℕ)

/-- What a call returns, which is a pointer for `esp_himem_map` only, and the world afterwards.
Calls on handles that are not live are no steps. -/
def World.step (c : Config) (w : World) : Op → Option (Except Err ℕ × World)
  | .alloc size handle mem =>
    if (w.handles handle).isSome then none
    else
      match espHimemAlloc c w.banks size mem with
      | (.ok r, s) => some (.ok 0, ⟨s, Function.update w.handles handle (some r), w.ranges⟩)
      | (.error e, s) => some (.error e, { w with banks := s })
  | .free handle =>
    match w.handles handle with
    | none => none
    | some r =>
      match espHimemFree w.banks r with
      | (.ok _, s) => some (.ok 0, ⟨s, Function.update w.handles handle none, w.ranges⟩)
      | (.error e, s) => some (.error e, { w with banks := s })
  | .allocMapRange size range mem =>
    if (w.ranges range).isSome then none
    else
      match espHimemAllocMapRange c w.banks size mem with
      | (.ok g, s) => some (.ok 0, ⟨s, w.handles, Function.update w.ranges range (some g)⟩)
      | (.error e, s) => some (.error e, { w with banks := s })
  | .freeMapRange range =>
    match w.ranges range with
    | none => none
    | some g =>
      match espHimemFreeMapRange w.banks g with
      | (.ok _, s) => some (.ok 0, ⟨s, w.handles, Function.update w.ranges range none⟩)
      | (.error e, s) => some (.error e, { w with banks := s })
  | .map handle range ramOffset rangeOffset len =>
    match w.handles handle, w.ranges range with
    | some r, some g =>
      some ((espHimemMap c w.banks r g ramOffset rangeOffset len).1,
        { w with banks := (espHimemMap c w.banks r g ramOffset rangeOffset len).2 })
    | _, _ => none
  | .unmap range ptr len =>
    match w.ranges range with
    | none => none
    | some g =>
      some ((espHimemUnmap c w.banks g ptr len).1.map fun _ => 0,
        { w with banks := (espHimemUnmap c w.banks g ptr len).2 })

/-! ### Consistency -/

/-- No block belongs to two handles, a physical block is marked mapped if and only if exactly
one range block is mapped to it, and the MMU shows what is mapped. -/
structure Consistent (c : Config) (w : World) : Prop where
  blocks : ∀ h h' r r', w.handles h = some r → w.handles h' = some r' →
    ∀ b ∈ r.block, b ∈ r'.block → h = h'
  ranges : ∀ h h' g g', w.ranges h = some g → w.ranges h' = some g' →
    ∀ j, g.covers j → g'.covers j → h = h'
  mapped : ∀ b < c.ramblockcnt, (w.banks.ram b).isMapped = true ↔
    ∃! j, j < c.reserve ∧ (w.banks.range j).isMapped = true ∧ (w.banks.range j).ramBlock = b
  mmu : ∀ j < c.reserve, (w.banks.range j).isMapped = true →
    w.banks.mmu (c.rangeBlockstart + j) = (w.banks.range j).ramBlock + c.physBlockstart

/-- The address of a range block. -/
def Config.address (c : Config) (j : ℕ) : ℕ := c.rangeStart + j * cacheBlocksize

/-- The physical address that the MMU shows at an address of the external memory. -/
def Banks.physical (s : Banks) (addr : ℕ) : ℕ :=
  s.mmu ((addr - socExtramDataLow) / cacheBlocksize) * cacheBlocksize +
    (addr - socExtramDataLow) % cacheBlocksize

/-- The physical address of a byte of the memory of a handle. -/
def RamData.byteAt (c : Config) (r : RamData) (k : ℕ) : ℕ :=
  (r.block.getD (k / cacheBlocksize) 0 + c.physBlockstart) * cacheBlocksize + k % cacheBlocksize

/-- `s'` is `s` without the mappings of the range blocks from `j` on to the physical blocks. -/
structure Unmapped (s s' : Banks) (j : ℕ) (blocks : List ℕ) : Prop where
  ram : ∀ b, s'.ram b =
    if b ∈ blocks then { s.ram b with isMapped := false } else s.ram b
  range : ∀ i, s'.range i =
    if j ≤ i ∧ i < j + blocks.length then { s.range i with isMapped := false } else s.range i
  mmu : s'.mmu = s.mmu

/-- The pointer from a call of `esp_himem_map` is the address of the range block at the offset,
the bytes behind it are those of the handle, and it can be used to unmap the same blocks. -/
structure MapsRight (c : Config) (r : RamData) (g : RangeData) (ramOffset rangeOffset len : ℕ)
    (ptr : ℕ) (s : Banks) : Prop where
  address : ptr = c.address (g.blockStart + rangeOffset / cacheBlocksize)
  bytes : ∀ i < len, s.physical (ptr + i) = r.byteAt c (ramOffset + i)
  unmap : (espHimemUnmap c s g ptr len).1 = .ok () ∧
    Unmapped s (espHimemUnmap c s g ptr len).2 (g.blockStart + rangeOffset / cacheBlocksize)
      (mapped r ramOffset len)

/-- An error changes nothing, and is not that the tables are left; a successful call of
`esp_himem_map` maps right. -/
def StepRight (c : Config) (w : World) (op : Op) (ret : Except Err ℕ) (w' : World) : Prop :=
  match ret with
  | .error e => e ≠ .outOfTable ∧ w' = w
  | .ok ptr =>
    match op with
    | .map handle range ramOffset rangeOffset len =>
      ∀ r g, w.handles handle = some r → w.ranges range = some g →
        MapsRight c r g ramOffset rangeOffset len ptr w'.banks
    | _ => True

/-- All states of the run are consistent, and all steps are right. -/
def AlwaysConsistent (c : Config) : World → List Op → Prop
  | w, [] => Consistent c w
  | w, op :: ops => Consistent c w ∧ ∃ ret w', w.step c op = some (ret, w') ∧
      StepRight c w op ret w' ∧ AlwaysConsistent c w' ops

/-- A call that maps, maps at the start of the range.  A call that unmaps has a pointer into the
window, and each physical block that it marks unmapped, if it is marked mapped, is mapped to a
range block that is unmapped with it. -/
def Op.Proper (c : Config) (w : World) : Op → Prop
  | .map handle range ramOffset rangeOffset len =>
    ∀ r g, w.handles handle = some r → w.ranges range = some g →
      mapChecks w.banks r g ramOffset rangeOffset len = none → rangeOffset = 0
  | .unmap range ptr len =>
    ∀ g, w.ranges range = some g → unmapChecks c g ptr len = none → len / cacheBlocksize ≠ 0 →
      0 ≤ rangeOffsetOf c ptr ∧
      ∀ i < len / cacheBlocksize,
        (w.banks.ram
          (w.banks.range ((rangeOffsetOf c ptr).toNat / cacheBlocksize + i)).ramBlock).isMapped = true →
          ∃ k < len / cacheBlocksize,
            (w.banks.range ((rangeOffsetOf c ptr).toNat / cacheBlocksize + k)).isMapped = true ∧
            (w.banks.range ((rangeOffsetOf c ptr).toNat / cacheBlocksize + k)).ramBlock =
              (w.banks.range ((rangeOffsetOf c ptr).toNat / cacheBlocksize + i)).ramBlock
  | _ => True

/-- All calls of the run are on live handles, and proper. -/
def ProperRun (c : Config) : World → List Op → Prop
  | _, [] => True
  | w, op :: ops => op.Proper c w ∧ ∃ ret w', w.step c op = some (ret, w') ∧ ProperRun c w' ops

/-- Two reserved banks, and 4 MB of memory. -/
def Config.small : Config := ⟨2, 4096 * 1024, by decide, by decide, by decide, by decide⟩

/-- A block is mapped at the second block of a range of two. -/
def Op.mapSecond : List Op :=
  [.alloc 32768 0 true, .allocMapRange 65536 0 true, .map 0 0 0 32768 32768]

/-! ### The invariant -/

/-- The blocks of the handles are allocated, and to one handle each. -/
structure RamOwned (c : Config) (s : Banks) (handles : ℕ → Option RamData) : Prop where
  disjoint : ∀ h h' r r', handles h = some r → handles h' = some r' →
    ∀ b ∈ r.block, b ∈ r'.block → h = h'
  nodup : ∀ h r, handles h = some r → r.block.Nodup
  lt : ∀ h r, handles h = some r → ∀ b ∈ r.block, b < c.ramblockcnt
  alloced : ∀ h r, handles h = some r → ∀ b ∈ r.block, (s.ram b).isAlloced = true

/-- The blocks of the ranges are allocated, and to one range each. -/
structure RangesOwned (c : Config) (s : Banks) (ranges : ℕ → Option RangeData) : Prop where
  disjoint : ∀ h h' g g', ranges h = some g → ranges h' = some g' →
    ∀ j, g.covers j → g'.covers j → h = h'
  le : ∀ h g, ranges h = some g → g.blockStart + g.blockCt ≤ c.reserve
  alloced : ∀ h g, ranges h = some g → ∀ j, g.covers j → (s.range j).isAlloced = true

/-- The physical blocks that are marked mapped are those that range blocks show, one each. -/
structure Mapping (c : Config) (s : Banks) : Prop where
  mapped : ∀ b < c.ramblockcnt, (s.ram b).isMapped = true ↔
    ∃ j < c.reserve, (s.range j).isMapped = true ∧ (s.range j).ramBlock = b
  single : ∀ i < c.reserve, ∀ j < c.reserve, (s.range i).isMapped = true →
    (s.range j).isMapped = true → (s.range i).ramBlock = (s.range j).ramBlock → i = j
  mmu : ∀ j < c.reserve, (s.range j).isMapped = true →
    s.mmu (c.rangeBlockstart + j) = (s.range j).ramBlock + c.physBlockstart
  ramBlock_lt : ∀ j, (s.range j).ramBlock < c.ramblockcnt

/-- The tables agree with the handles and with each other. -/
structure Inv (c : Config) (w : World) : Prop where
  ram : RamOwned c w.banks w.handles
  ranges : RangesOwned c w.banks w.ranges
  mapping : Mapping c w.banks

variable {c : Config} {w w' : World} {s s' : Banks}

lemma Mapping.existsUnique_iff (h : Mapping c s) (b : ℕ) :
    (∃! j, j < c.reserve ∧ (s.range j).isMapped = true ∧ (s.range j).ramBlock = b) ↔
      ∃ j < c.reserve, (s.range j).isMapped = true ∧ (s.range j).ramBlock = b := by
  constructor
  · rintro ⟨j, hj, -⟩
    exact ⟨j, hj⟩
  · rintro ⟨j, hj, hmap, hb⟩
    refine ⟨j, ⟨hj, hmap, hb⟩, fun i hi => ?_⟩
    exact h.single i hi.1 j hj hi.2.1 hmap (hi.2.2.trans hb.symm)

lemma Inv.consistent (h : Inv c w) : Consistent c w where
  blocks := h.ram.disjoint
  ranges := h.ranges.disjoint
  mapped := fun b hb => (h.mapping.mapped b hb).trans (h.mapping.existsUnique_iff b).symm
  mmu := h.mapping.mmu

lemma Config.ramblockcnt_lt (c : Config) : c.ramblockcnt < 2 ^ 16 := by
  have h1 := c.maxram_lt
  have h2 := c.reserve_le
  unfold Config.ramblockcnt cacheBlocksize
  omega

lemma Config.ramblockcnt_pos (c : Config) : 0 < c.ramblockcnt := by
  have h1 := c.maxram_ge
  have h2 := c.reserve_pos
  unfold Config.ramblockcnt cacheBlocksize
  omega

lemma inv_init (mmu : ℕ → ℕ) : Inv c (.init mmu) where
  ram := ⟨by simp [World.init], by simp [World.init], by simp [World.init], by simp [World.init]⟩
  ranges := ⟨by simp [World.init], by simp [World.init], by simp [World.init]⟩
  mapping := ⟨by simp [World.init, Banks.init], by simp [World.init, Banks.init],
    by simp [World.init, Banks.init], fun _ => c.ramblockcnt_pos⟩

/-! ### Handles -/

lemma RamOwned.congr {handles : ℕ → Option RamData} (h : RamOwned c s handles)
    (halloced : ∀ b, (s'.ram b).isAlloced = (s.ram b).isAlloced) : RamOwned c s' handles :=
  ⟨h.disjoint, h.nodup, h.lt, fun i r hr b hb => (halloced b).trans (h.alloced i r hr b hb)⟩

lemma RangesOwned.congr {ranges : ℕ → Option RangeData} (h : RangesOwned c s ranges)
    (halloced : ∀ j, (s'.range j).isAlloced = (s.range j).isAlloced) : RangesOwned c s' ranges :=
  ⟨h.disjoint, h.le, fun i g hg j hj => (halloced j).trans (h.alloced i g hg j hj)⟩

lemma Mapping.congr (h : Mapping c s) (hram : ∀ b, (s'.ram b).isMapped = (s.ram b).isMapped)
    (hmapped : ∀ j, (s'.range j).isMapped = (s.range j).isMapped)
    (hblock : ∀ j, (s'.range j).ramBlock = (s.range j).ramBlock) (hmmu : s'.mmu = s.mmu) :
    Mapping c s' := by
  refine ⟨?_, ?_, ?_, ?_⟩
  · simpa only [hram, hmapped, hblock] using h.mapped
  · simpa only [hmapped, hblock] using h.single
  · simpa only [hmapped, hblock, hmmu] using h.mmu
  · simpa only [hblock] using h.ramBlock_lt

@[simp] lemma setAlloced_range (blocks : List ℕ) (v : Bool) :
    (s.setAlloced blocks v).range = s.range := rfl

@[simp] lemma setAlloced_mmu (blocks : List ℕ) (v : Bool) :
    (s.setAlloced blocks v).mmu = s.mmu := rfl

@[simp] lemma setAlloced_isMapped (blocks : List ℕ) (v : Bool) (b : ℕ) :
    ((s.setAlloced blocks v).ram b).isMapped = (s.ram b).isMapped := by
  unfold Banks.setAlloced
  dsimp only
  split <;> rfl

lemma setAlloced_isAlloced (blocks : List ℕ) (v : Bool) (b : ℕ) :
    ((s.setAlloced blocks v).ram b).isAlloced = if b ∈ blocks then v else (s.ram b).isAlloced := by
  unfold Banks.setAlloced
  dsimp only
  split <;> rfl

@[simp] lemma setRangeAlloced_ram (g : RangeData) (v : Bool) :
    (s.setRangeAlloced g v).ram = s.ram := rfl

@[simp] lemma setRangeAlloced_mmu (g : RangeData) (v : Bool) :
    (s.setRangeAlloced g v).mmu = s.mmu := rfl

@[simp] lemma setRangeAlloced_isMapped (g : RangeData) (v : Bool) (j : ℕ) :
    ((s.setRangeAlloced g v).range j).isMapped = (s.range j).isMapped := by
  unfold Banks.setRangeAlloced
  dsimp only
  split <;> rfl

@[simp] lemma setRangeAlloced_ramBlock (g : RangeData) (v : Bool) (j : ℕ) :
    ((s.setRangeAlloced g v).range j).ramBlock = (s.range j).ramBlock := by
  unfold Banks.setRangeAlloced
  dsimp only
  split <;> rfl

lemma setRangeAlloced_isAlloced (g : RangeData) (v : Bool) (j : ℕ) :
    ((s.setRangeAlloced g v).range j).isAlloced =
      if g.covers j then v else (s.range j).isAlloced := by
  unfold Banks.setRangeAlloced
  dsimp only
  split <;> rfl

lemma Mapping.setAlloced (h : Mapping c s) (blocks : List ℕ) (v : Bool) :
    Mapping c (s.setAlloced blocks v) :=
  h.congr (setAlloced_isMapped blocks v) (fun _ => rfl) (fun _ => rfl) rfl

lemma Mapping.setRangeAlloced (h : Mapping c s) (g : RangeData) (v : Bool) :
    Mapping c (s.setRangeAlloced g v) :=
  h.congr (fun _ => rfl) (setRangeAlloced_isMapped g v) (setRangeAlloced_ramBlock g v) rfl

/-- Blocks that were free are allocated to a new handle. -/
lemma RamOwned.alloc {handles : ℕ → Option RamData} (h : RamOwned c s handles) {handle : ℕ}
    {blocks : List ℕ} (hnodup : blocks.Nodup)
    (hfree : ∀ b ∈ blocks, b < c.ramblockcnt ∧ (s.ram b).isAlloced = false) :
    RamOwned c (s.setAlloced blocks true) (Function.update handles handle (some ⟨blocks⟩)) := by
  have hold : ∀ i r, i ≠ handle → Function.update handles handle (some ⟨blocks⟩) i = some r →
      handles i = some r := fun i r hi => by simp [hi]
  have hthis : ∀ r, Function.update handles handle (some ⟨blocks⟩) handle = some r →
      r.block = blocks := by
    rintro r hr
    simp only [Function.update_self, Option.some_inj] at hr
    rw [← hr]
  have hfresh : ∀ i r, handles i = some r → ∀ b ∈ r.block, b ∉ blocks := by
    intro i r hr b hb hmem
    exact absurd (h.alloced i r hr b hb) (by simp [(hfree b hmem).2])
  refine ⟨fun i i' r r' hr hr' b hb hb' => ?_, fun i r hr => ?_, fun i r hr b hb => ?_,
    fun i r hr b hb => ?_⟩
  · by_cases hi : i = handle
    · by_cases hi' : i' = handle
      · exact hi.trans hi'.symm
      · subst hi
        exact absurd (hthis r hr ▸ hb) (hfresh i' r' (hold i' r' hi' hr') b hb')
    · by_cases hi' : i' = handle
      · subst hi'
        exact absurd (hthis r' hr' ▸ hb') (hfresh i r (hold i r hi hr) b hb)
      · exact h.disjoint i i' r r' (hold i r hi hr) (hold i' r' hi' hr') b hb hb'
  · by_cases hi : i = handle
    · subst hi
      rwa [hthis r hr]
    · exact h.nodup i r (hold i r hi hr)
  · by_cases hi : i = handle
    · subst hi
      exact (hfree b (hthis r hr ▸ hb)).1
    · exact h.lt i r (hold i r hi hr) b hb
  · rw [setAlloced_isAlloced]
    by_cases hi : i = handle
    · subst hi
      rw [if_pos (hthis r hr ▸ hb)]
    · have hr' := hold i r hi hr
      rw [if_neg (hfresh i r hr' b hb)]
      exact h.alloced i r hr' b hb

/-- The blocks of a handle are freed. -/
lemma RamOwned.free {handles : ℕ → Option RamData} (h : RamOwned c s handles) {handle : ℕ}
    {r : RamData} (hr : handles handle = some r) :
    RamOwned c (s.setAlloced r.block false) (Function.update handles handle none) := by
  have hold : ∀ i r', Function.update handles handle none i = some r' →
      i ≠ handle ∧ handles i = some r' := by
    intro i r' hi
    by_cases heq : i = handle
    · simp [heq] at hi
    · exact ⟨heq, by simpa [heq] using hi⟩
  refine ⟨fun i i' r₁ r₂ h₁ h₂ => ?_, fun i r' h' => ?_, fun i r' h' => ?_,
    fun i r' h' b hb => ?_⟩
  · exact h.disjoint i i' r₁ r₂ (hold i r₁ h₁).2 (hold i' r₂ h₂).2
  · exact h.nodup i r' (hold i r' h').2
  · exact h.lt i r' (hold i r' h').2
  · obtain ⟨hne, hi⟩ := hold i r' h'
    rw [setAlloced_isAlloced, if_neg fun hmem => hne (h.disjoint i handle r' r hi hr b hb hmem)]
    exact h.alloced i r' hi b hb

/-- Range blocks that were free are allocated to a new range. -/
lemma RangesOwned.alloc {ranges : ℕ → Option RangeData} (h : RangesOwned c s ranges)
    {range : ℕ} {g : RangeData}
    (hle : g.blockStart + g.blockCt ≤ c.reserve)
    (hfree : ∀ j, g.covers j → (s.range j).isAlloced = false) :
    RangesOwned c (s.setRangeAlloced g true) (Function.update ranges range (some g)) := by
  have hold : ∀ i g', i ≠ range → Function.update ranges range (some g) i = some g' →
      ranges i = some g' := fun i g' hi => by simp [hi]
  have hthis : ∀ g', Function.update ranges range (some g) range = some g' → g' = g := by
    rintro g' hg
    simpa using hg.symm
  have hfresh : ∀ i g', ranges i = some g' → ∀ j, g'.covers j → ¬ g.covers j := by
    intro i g' hg j hj hmem
    exact absurd (h.alloced i g' hg j hj) (by simp [hfree j hmem])
  refine ⟨fun i i' g₁ g₂ h₁ h₂ j hj hj' => ?_, fun i g' h' => ?_, fun i g' h' j hj => ?_⟩
  · by_cases hi : i = range
    · by_cases hi' : i' = range
      · exact hi.trans hi'.symm
      · subst hi
        exact absurd (hthis g₁ h₁ ▸ hj) (hfresh i' g₂ (hold i' g₂ hi' h₂) j hj')
    · by_cases hi' : i' = range
      · subst hi'
        exact absurd (hthis g₂ h₂ ▸ hj') (hfresh i g₁ (hold i g₁ hi h₁) j hj)
      · exact h.disjoint i i' g₁ g₂ (hold i g₁ hi h₁) (hold i' g₂ hi' h₂) j hj hj'
  · by_cases hi : i = range
    · subst hi
      rwa [hthis g' h']
    · exact h.le i g' (hold i g' hi h')
  · rw [setRangeAlloced_isAlloced]
    by_cases hi : i = range
    · subst hi
      rw [if_pos (hthis g' h' ▸ hj)]
    · have hg := hold i g' hi h'
      rw [if_neg (hfresh i g' hg j hj)]
      exact h.alloced i g' hg j hj

/-- The blocks of a range are freed. -/
lemma RangesOwned.free {ranges : ℕ → Option RangeData} (h : RangesOwned c s ranges) {range : ℕ}
    {g : RangeData} (hg : ranges range = some g) :
    RangesOwned c (s.setRangeAlloced g false) (Function.update ranges range none) := by
  have hold : ∀ i g', Function.update ranges range none i = some g' →
      i ≠ range ∧ ranges i = some g' := by
    intro i g' hi
    by_cases heq : i = range
    · simp [heq] at hi
    · exact ⟨heq, by simpa [heq] using hi⟩
  refine ⟨fun i i' g₁ g₂ h₁ h₂ => ?_, fun i g' h' => ?_, fun i g' h' j hj => ?_⟩
  · exact h.disjoint i i' g₁ g₂ (hold i g₁ h₁).2 (hold i' g₂ h₂).2
  · exact h.le i g' (hold i g' h').2
  · obtain ⟨hne, hi⟩ := hold i g' h'
    rw [setRangeAlloced_isAlloced,
      if_neg fun hmem => hne (h.disjoint i range g' g hi hg j hj hmem)]
    exact h.alloced i g' hi j hj

/-! ### The loops that map and unmap -/

/-- `s'` is `s` with the physical blocks mapped into the range blocks from `j` on. -/
structure Mapped (c : Config) (s s' : Banks) (j : ℕ) (blocks : List ℕ) : Prop where
  ram : ∀ b, s'.ram b = if b ∈ blocks then { s.ram b with isMapped := true } else s.ram b
  range_in : ∀ i (hi : i < blocks.length),
    s'.range (j + i) = ⟨(s.range (j + i)).isAlloced, true, blocks[i] % 2 ^ 16⟩
  range_out : ∀ i, (i < j ∨ j + blocks.length ≤ i) → s'.range i = s.range i
  mmu_in : ∀ i (hi : i < blocks.length),
    s'.mmu (c.rangeBlockstart + (j + i)) = blocks[i] + c.physBlockstart
  mmu_out : ∀ i, (i < j ∨ j + blocks.length ≤ i) →
    s'.mmu (c.rangeBlockstart + i) = s.mmu (c.rangeBlockstart + i)

lemma mapBlocks_mapped (blocks : List ℕ) (s : Banks) (j : ℕ) :
    Mapped c s (s.mapBlocks c j blocks) j blocks := by
  induction blocks generalizing s j with
  | nil => exact ⟨fun _ => by simp [Banks.mapBlocks], by simp, fun _ _ => rfl, by simp, fun _ _ => rfl⟩
  | cons b bs ih =>
    have h := ih (s.mapBlock c j b) (j + 1)
    refine ⟨fun b' => ?_, fun i hi => ?_, fun i hi => ?_, fun i hi => ?_, fun i hi => ?_⟩
    · rw [Banks.mapBlocks, h.ram]
      by_cases hb : b' = b
      · subst hb
        simp [Banks.mapBlock]
      · simp [Banks.mapBlock, hb]
    · rw [Banks.mapBlocks]
      cases i with
      | zero =>
        rw [h.range_out _ (by omega)]
        simp [Banks.mapBlock]
      | succ i =>
        have hin := h.range_in i (by simpa using hi)
        rw [show j + (i + 1) = j + 1 + i by omega, hin]
        simp [Banks.mapBlock, show j + 1 + i ≠ j by omega]
    · rw [List.length_cons] at hi
      rw [Banks.mapBlocks, h.range_out i (by omega)]
      simp [Banks.mapBlock, show i ≠ j by omega]
    · rw [Banks.mapBlocks]
      cases i with
      | zero =>
        rw [h.mmu_out _ (by omega)]
        simp [Banks.mapBlock]
      | succ i =>
        have hin := h.mmu_in i (by simpa using hi)
        rw [show j + (i + 1) = j + 1 + i by omega, hin]
        simp
    · rw [List.length_cons] at hi
      rw [Banks.mapBlocks, h.mmu_out i (by omega)]
      exact Function.update_of_ne (by omega) _ _

/-- The physical blocks that range blocks show. -/
def Banks.shown (s : Banks) (j count : ℕ) : List ℕ :=
  (List.range count).map fun k => (s.range (j + k)).ramBlock

@[simp] lemma length_shown (j count : ℕ) : (s.shown j count).length = count := by
  simp [Banks.shown]

lemma mem_shown {j count b : ℕ} :
    b ∈ s.shown j count ↔ ∃ k < count, (s.range (j + k)).ramBlock = b := by
  simp [Banks.shown]

lemma unmapBlock_range (s : Banks) (j i : ℕ) : (s.unmapBlock j).range i =
    if i = j then { s.range i with isMapped := false } else s.range i := by
  by_cases hi : i = j
  · subst hi
    simp [Banks.unmapBlock]
  · simp [Banks.unmapBlock, hi]

lemma unmapBlocks_unmapped (count : ℕ) (s : Banks) (j : ℕ) :
    Unmapped s (s.unmapBlocks j count) j (s.shown j count) := by
  induction count generalizing s j with
  | zero =>
    refine ⟨fun _ => by simp [Banks.unmapBlocks, Banks.shown], fun i => ?_, rfl⟩
    rw [length_shown, if_neg (by omega)]
    rfl
  | succ count ih =>
    have h := ih (s.unmapBlock j) (j + 1)
    have hshown : (s.unmapBlock j).shown (j + 1) count =
        (List.range count).map fun k => (s.range (j + (k + 1))).ramBlock := by
      refine List.map_congr_left fun k _ => ?_
      rw [unmapBlock_range, if_neg (by omega), show j + 1 + k = j + (k + 1) by omega]
    have hcons : s.shown j (count + 1) =
        (s.range j).ramBlock :: (s.unmapBlock j).shown (j + 1) count := by
      rw [hshown, Banks.shown, List.range_succ_eq_map, List.map_cons, List.map_map]
      rfl
    refine ⟨fun b => ?_, fun i => ?_, ?_⟩
    · rw [Banks.unmapBlocks, h.ram, hcons]
      by_cases hb : b = (s.range j).ramBlock
      · subst hb
        simp [Banks.unmapBlock]
      · simp [Banks.unmapBlock, hb]
    · rw [Banks.unmapBlocks, h.range, unmapBlock_range]
      simp only [length_shown]
      by_cases hi : i = j
      · subst hi
        simp
      · have hiff : j ≤ i ∧ i < j + (count + 1) ↔ j + 1 ≤ i ∧ i < j + 1 + count := by omega
        simp only [hi, if_false, hiff]
    · rw [Banks.unmapBlocks, h.mmu]
      rfl

/-- Mapping unmapped physical blocks into unmapped range blocks. -/
lemma Mapping.map (h : Mapping c s) {j : ℕ} {blocks : List ℕ} (hj : j + blocks.length ≤ c.reserve)
    (hnodup : blocks.Nodup) (hlt : ∀ b ∈ blocks, b < c.ramblockcnt)
    (hram : ∀ b ∈ blocks, (s.ram b).isMapped = false)
    (hrange : ∀ i < blocks.length, (s.range (j + i)).isMapped = false)
    (hm : Mapped c s s' j blocks) : Mapping c s' := by
  have hmod : ∀ i (hi : i < blocks.length), blocks[i] % 2 ^ 16 = blocks[i] := fun i hi =>
    Nat.mod_eq_of_lt (Nat.lt_trans (hlt _ (List.getElem_mem hi)) c.ramblockcnt_lt)
  -- a mapped range block is one of the new ones or an old one
  have hcases : ∀ i < c.reserve, (s'.range i).isMapped = true →
      (∃ (k : ℕ) (hk : k < blocks.length), i = j + k ∧ (s'.range i).ramBlock = blocks[k]) ∨
        ((i < j ∨ j + blocks.length ≤ i) ∧ (s.range i).isMapped = true ∧
          (s'.range i).ramBlock = (s.range i).ramBlock ∧ (s.range i).ramBlock ∉ blocks) := by
    intro i hi hmap
    by_cases hin : j ≤ i ∧ i < j + blocks.length
    · obtain ⟨k, rfl⟩ := Nat.exists_eq_add_of_le hin.1
      have hk : k < blocks.length := by omega
      exact .inl ⟨k, hk, rfl, by rw [hm.range_in k hk, hmod k hk]⟩
    · have hout : i < j ∨ j + blocks.length ≤ i := by omega
      rw [hm.range_out i hout] at hmap
      refine .inr ⟨hout, hmap, by rw [hm.range_out i hout], fun hmem => ?_⟩
      have hmapped := (h.mapped _ (h.ramBlock_lt i)).mpr ⟨i, hi, hmap, rfl⟩
      exact absurd hmapped (by simp [hram _ hmem])
  refine ⟨fun b hb => ?_, fun i hi i' hi' hmap hmap' heq => ?_, fun i hi hmap => ?_, fun i => ?_⟩
  · by_cases hmem : b ∈ blocks
    · obtain ⟨k, hk, rfl⟩ := List.getElem_of_mem hmem
      refine iff_of_true (by simp [hm.ram, hmem]) ⟨j + k, by omega, ?_, ?_⟩
      · rw [hm.range_in k hk]
      · rw [hm.range_in k hk, hmod k hk]
    · rw [hm.ram, if_neg hmem, h.mapped b hb]
      constructor
      · rintro ⟨i, hi, hmap, rfl⟩
        have hout : i < j ∨ j + blocks.length ≤ i := by
          by_contra hin
          have := hrange (i - j) (by omega)
          rw [show j + (i - j) = i by omega] at this
          simp [this] at hmap
        exact ⟨i, hi, by rwa [hm.range_out i hout], by rw [hm.range_out i hout]⟩
      · rintro ⟨i, hi, hmap, rfl⟩
        obtain ⟨k, hk, -, hblock⟩ | ⟨-, hmap', hblock, -⟩ := hcases i hi hmap
        · exact absurd (hblock ▸ List.getElem_mem hk) hmem
        · exact ⟨i, hi, hmap', hblock.symm⟩
  · obtain ⟨k, hk, rfl, hblock⟩ | ⟨-, hold, hblock, hnot⟩ := hcases i hi hmap
    · obtain ⟨k', hk', rfl, hblock'⟩ | ⟨-, -, hblock', hnot'⟩ := hcases i' hi' hmap'
      · rw [hblock, hblock'] at heq
        rw [(List.Nodup.getElem_inj_iff hnodup).mp heq]
      · exact absurd (hblock'.symm.trans (heq.symm.trans hblock) ▸ List.getElem_mem hk) hnot'
    · obtain ⟨k', hk', rfl, hblock'⟩ | ⟨-, hold', hblock', -⟩ := hcases i' hi' hmap'
      · exact absurd (hblock.symm.trans (heq.trans hblock') ▸ List.getElem_mem hk') hnot
      · exact h.single i hi i' hi' hold hold' (by rw [← hblock, ← hblock', heq])
  · obtain ⟨k, hk, rfl, hblock⟩ | ⟨hout, hold, hblock, -⟩ := hcases i hi hmap
    · rw [hblock, hm.mmu_in k hk]
    · rw [hblock, hm.mmu_out i hout, h.mmu i hi hold]
  · by_cases hin : j ≤ i ∧ i < j + blocks.length
    · obtain ⟨k, rfl⟩ := Nat.exists_eq_add_of_le hin.1
      have hk : k < blocks.length := by omega
      rw [hm.range_in k hk, hmod k hk]
      exact hlt _ (List.getElem_mem hk)
    · rw [hm.range_out i (by omega)]
      exact h.ramBlock_lt i

/-- Unmapping range blocks, if no other range block shows what they showed last. -/
lemma Mapping.unmap (h : Mapping c s) {j count : ℕ} (hj : j + count ≤ c.reserve)
    (hproper : ∀ i < count, (s.ram (s.range (j + i)).ramBlock).isMapped = true →
      ∃ k < count, (s.range (j + k)).isMapped = true ∧
        (s.range (j + k)).ramBlock = (s.range (j + i)).ramBlock)
    (hu : Unmapped s s' j (s.shown j count)) : Mapping c s' := by
  have hblock : ∀ i, (s'.range i).ramBlock = (s.range i).ramBlock := by
    intro i
    rw [hu.range]
    split <;> rfl
  have hmapped : ∀ i, (s'.range i).isMapped = true ↔
      ¬ (j ≤ i ∧ i < j + count) ∧ (s.range i).isMapped = true := by
    intro i
    rw [hu.range, length_shown]
    by_cases hin : j ≤ i ∧ i < j + count
    · simp [hin]
    · simp [hin]
  refine ⟨fun b hb => ?_, fun i hi i' hi' hmap hmap' heq => ?_, fun i hi hmap => ?_, fun i => ?_⟩
  · by_cases hmem : b ∈ s.shown j count
    · have hram : (s'.ram b).isMapped = false := by rw [hu.ram, if_pos hmem]
      refine iff_of_false (by simp [hram]) ?_
      rintro ⟨i, hi, hmap, rfl⟩
      rw [hblock] at hmem
      obtain ⟨hout, hold⟩ := (hmapped i).mp hmap
      obtain ⟨k, hk, hkb⟩ := mem_shown.mp hmem
      have hold' : (s.ram (s.range (j + k)).ramBlock).isMapped = true :=
        (h.mapped _ (h.ramBlock_lt _)).mpr ⟨i, hi, hold, hkb.symm⟩
      obtain ⟨l, hl, hmapl, hlb⟩ := hproper k hk hold'
      obtain rfl := h.single i hi (j + l) (by omega) hold hmapl (hkb.symm.trans hlb.symm)
      exact hout ⟨by omega, by omega⟩
    · rw [hu.ram, if_neg hmem, h.mapped b hb]
      constructor
      · rintro ⟨i, hi, hmap, rfl⟩
        refine ⟨i, hi, (hmapped i).mpr ⟨fun hin => hmem ?_, hmap⟩, hblock i⟩
        exact mem_shown.mpr ⟨i - j, by omega, by rw [show j + (i - j) = i by omega]⟩
      · rintro ⟨i, hi, hmap, rfl⟩
        exact ⟨i, hi, ((hmapped i).mp hmap).2, (hblock i).symm⟩
  · rw [hblock, hblock] at heq
    exact h.single i hi i' hi' ((hmapped i).mp hmap).2 ((hmapped i').mp hmap').2 heq
  · rw [hu.mmu, hblock]
    exact h.mmu i hi ((hmapped i).mp hmap).2
  · rw [hblock]
    exact h.ramBlock_lt i

/-- If a range block that is not unmapped shows a physical block that is marked unmapped, the
tables no longer agree. -/
lemma Mapping.proper_of_unmap (h : Mapping c s) {j count : ℕ}
    (hu : Unmapped s s' j (s.shown j count))
    (hcons : ∀ b < c.ramblockcnt, (s'.ram b).isMapped = true ↔
      ∃! i, i < c.reserve ∧ (s'.range i).isMapped = true ∧ (s'.range i).ramBlock = b)
    {i : ℕ} (hi : i < count) (hmap : (s.ram (s.range (j + i)).ramBlock).isMapped = true) :
    ∃ k < count, (s.range (j + k)).isMapped = true ∧
      (s.range (j + k)).ramBlock = (s.range (j + i)).ramBlock := by
  obtain ⟨l, hl, hmapl, hlb⟩ := (h.mapped _ (h.ramBlock_lt _)).mp hmap
  by_cases hin : j ≤ l ∧ l < j + count
  · refine ⟨l - j, by omega, ?_⟩
    rw [show j + (l - j) = l by omega]
    exact ⟨hmapl, hlb⟩
  · exfalso
    have hmem : (s.range (j + i)).ramBlock ∈ s.shown j count := mem_shown.mpr ⟨i, hi, rfl⟩
    have hkeep : ∀ m, (s'.range m).isMapped = true → (s.range m).isMapped = true := by
      intro m
      rw [hu.range]
      split
      · exact fun h => absurd h (by simp)
      · exact id
    have hblock : ∀ m, (s'.range m).ramBlock = (s.range m).ramBlock := by
      intro m
      rw [hu.range]
      split <;> rfl
    have hl' : s'.range l = s.range l := by rw [hu.range, length_shown, if_neg hin]
    have htrue := (hcons _ (h.ramBlock_lt (j + i))).mpr ⟨l, ⟨hl, by rw [hl', hmapl], by rw [hl', hlb]⟩,
      fun m hm => h.single m hm.1 l hl (hkeep m hm.2.1) hmapl
        ((hblock m).symm.trans (hm.2.2.trans hlb.symm))⟩
    rw [hu.ram, if_pos hmem] at htrue
    exact absurd htrue (by simp)

/-! ### What the calls do -/

lemma allocateBlocks_spec {count : ℕ} {blocks : List ℕ}
    (h : allocateBlocks c s count = some (blocks, s')) :
    s' = s.setAlloced blocks true ∧ blocks.Nodup ∧
      ∀ b ∈ blocks, b < c.ramblockcnt ∧ (s.ram b).isAlloced = false := by
  unfold allocateBlocks at h
  dsimp only at h
  split at h
  · obtain ⟨rfl, rfl⟩ := Prod.mk.inj (Option.some_inj.mp h)
    refine ⟨rfl, (List.nodup_range.filter _).sublist (List.take_sublist _ _), fun b hb => ?_⟩
    simpa using List.mem_of_mem_take hb
  · exact absurd h (by simp)

lemma espHimemAlloc_cases (c : Config) (s : Banks) (size : ℕ) (mem : Bool) :
    (∃ e, e ≠ .outOfTable ∧ espHimemAlloc c s size mem = (.error e, s)) ∨
      ∃ blocks : List ℕ, blocks.Nodup ∧
        (∀ b ∈ blocks, b < c.ramblockcnt ∧ (s.ram b).isAlloced = false) ∧
        espHimemAlloc c s size mem = (.ok ⟨blocks⟩, s.setAlloced blocks true) := by
  unfold espHimemAlloc
  split
  · exact .inl ⟨_, by simp, rfl⟩
  · split
    · exact .inl ⟨_, by simp, rfl⟩
    · split
      · next blocks s' halloc =>
        obtain ⟨rfl, hnodup, hfree⟩ := allocateBlocks_spec halloc
        exact .inr ⟨blocks, hnodup, hfree, rfl⟩
      · exact .inl ⟨_, by simp, rfl⟩

lemma espHimemFree_cases (s : Banks) (r : RamData) :
    espHimemFree s r = (.error .invalidArg, s) ∨
      espHimemFree s r = (.ok (), s.setAlloced r.block false) := by
  unfold espHimemFree
  split
  · exact .inl rfl
  · exact .inr rfl

/-- The span that is found consists of free blocks.  From `startFree` to `i` all blocks are
free. -/
lemma findSpan_spec {blocks start : ℕ} : ∀ {n i startFree : ℕ}, startFree ≤ i →
    (∀ k, startFree ≤ k → k < i → (s.range k).isAlloced = false) →
    findSpan s blocks (List.range' i n) startFree = some start →
    start + blocks ≤ i + n ∧
      ∀ k, start ≤ k → k < start + blocks → (s.range k).isAlloced = false := by
  intro n
  induction n with
  | zero =>
    intro i startFree _ _ h
    simp [findSpan] at h
  | succ n ih =>
    intro i startFree hle hfree h
    rw [List.range'_succ] at h
    unfold findSpan at h
    split at h
    · obtain ⟨hend, hspan⟩ := ih (Nat.le_refl _) (fun k _ _ => by omega) h
      exact ⟨by omega, hspan⟩
    · next hi =>
      have hi' : (s.range i).isAlloced = false := by simpa using hi
      have hfree' : ∀ k, startFree ≤ k → k < i + 1 → (s.range k).isAlloced = false := by
        intro k hk hki
        obtain hki | rfl := Nat.lt_or_eq_of_le (Nat.lt_succ_iff.mp hki)
        · exact hfree k hk hki
        · exact hi'
      split at h
      · next hspan =>
        obtain rfl := Option.some_inj.mp h
        exact ⟨by omega, fun k hk hks => hfree' k hk (by omega)⟩
      · obtain ⟨hend, hspan⟩ := ih (Nat.le_succ_of_le hle) hfree' h
        exact ⟨by omega, hspan⟩

lemma espHimemAllocMapRange_cases (c : Config) (s : Banks) (size : ℕ) (mem : Bool) :
    (∃ e, e ≠ .outOfTable ∧ espHimemAllocMapRange c s size mem = (.error e, s)) ∨
      ∃ g : RangeData, g.blockStart + g.blockCt ≤ c.reserve ∧
        (∀ j, g.covers j → (s.range j).isAlloced = false) ∧
        espHimemAllocMapRange c s size mem = (.ok g, s.setRangeAlloced g true) := by
  unfold espHimemAllocMapRange
  split
  · exact .inl ⟨_, by simp, rfl⟩
  · split
    · exact .inl ⟨_, by simp, rfl⟩
    · split
      · next start hfind =>
        rw [List.range_eq_range'] at hfind
        obtain ⟨hend, hspan⟩ := findSpan_spec (Nat.le_refl _) (fun k _ _ => by omega) hfind
        refine .inr ⟨⟨size / cacheBlocksize, start⟩, ?_, fun j hj => hspan j hj.1 hj.2, rfl⟩
        simpa using hend
      · exact .inl ⟨_, by simp, rfl⟩

lemma espHimemFreeMapRange_cases (s : Banks) (g : RangeData) :
    espHimemFreeMapRange s g = (.error .invalidArg, s) ∨
      espHimemFreeMapRange s g = (.ok (), s.setRangeAlloced g false) := by
  unfold espHimemFreeMapRange
  split
  · exact .inl rfl
  · exact .inr rfl

/-- What the checks of `esp_himem_map` say. -/
structure Mappable (s : Banks) (r : RamData) (g : RangeData) (ramOffset rangeOffset len : ℕ) :
    Prop where
  ram_aligned : ramOffset % cacheBlocksize = 0
  range_aligned : rangeOffset % cacheBlocksize = 0
  len_aligned : len % cacheBlocksize = 0
  ram_le : ramOffset / cacheBlocksize + len / cacheBlocksize ≤ r.block.length
  range_le : rangeOffset / cacheBlocksize + len / cacheBlocksize ≤ g.blockCt
  ram_unmapped : ∀ b ∈ mapped r ramOffset len, (s.ram b).isMapped = false
  range_unmapped : ∀ i < len / cacheBlocksize,
    (s.range (g.blockStart + rangeOffset / cacheBlocksize + i)).isMapped = false

lemma length_mapped {r : RamData} {ramOffset len : ℕ}
    (h : ramOffset / cacheBlocksize + len / cacheBlocksize ≤ r.block.length) :
    (mapped r ramOffset len).length = len / cacheBlocksize := by
  rw [mapped, List.length_take, List.length_drop]
  omega

lemma getElem_mapped {r : RamData} {ramOffset len i : ℕ}
    (hi : i < (mapped r ramOffset len).length) :
    (mapped r ramOffset len)[i] = r.block.getD (i + ramOffset / cacheBlocksize) 0 := by
  have hlt : ramOffset / cacheBlocksize + i < r.block.length := by
    rw [mapped, List.length_take, List.length_drop] at hi
    omega
  simp only [mapped, List.getElem_take, List.getElem_drop]
  rw [Nat.add_comm i, List.getD_eq_getElem?_getD, List.getElem?_eq_getElem hlt, Option.getD_some]

lemma mappable_of_checks {r : RamData} {g : RangeData} {ramOffset rangeOffset len : ℕ}
    (h : mapChecks s r g ramOffset rangeOffset len = none) :
    Mappable s r g ramOffset rangeOffset len := by
  unfold mapChecks at h
  dsimp only at h
  split_ifs at h with h1 h2 h3 h4 h5 h6
  have hfree : ∀ i < len / cacheBlocksize,
      (s.ram (r.block.getD (i + ramOffset / cacheBlocksize) 0)).isMapped = false ∧
        (s.range (g.blockStart + i + rangeOffset / cacheBlocksize)).isMapped = false := by
    simpa using h6
  have hle : ramOffset / cacheBlocksize + len / cacheBlocksize ≤ r.block.length := by omega
  refine ⟨by omega, by omega, by omega, hle, by omega, fun b hb => ?_, fun i hi => ?_⟩
  · obtain ⟨i, hi, rfl⟩ := List.getElem_of_mem hb
    rw [getElem_mapped]
    exact (hfree i (by rwa [length_mapped hle] at hi)).1
  · have := (hfree i hi).2
    rwa [show g.blockStart + i + rangeOffset / cacheBlocksize =
      g.blockStart + rangeOffset / cacheBlocksize + i by omega] at this

lemma mapChecks_ne_outOfTable {r : RamData} {g : RangeData} {ramOffset rangeOffset len : ℕ}
    {e : Err} (h : mapChecks s r g ramOffset rangeOffset len = some e) : e ≠ .outOfTable := by
  unfold mapChecks at h
  dsimp only at h
  split_ifs at h
  all_goals
    rintro rfl
    exact absurd h (by simp)

lemma unmapChecks_ne_outOfTable {g : RangeData} {ptr len : ℕ} {e : Err}
    (h : unmapChecks c g ptr len = some e) : e ≠ .outOfTable := by
  unfold unmapChecks at h
  dsimp only at h
  split_ifs at h
  all_goals
    rintro rfl
    exact absurd h (by simp)

/-! ### Addresses -/

lemma rangeOffsetOf_address {j : ℕ} (hj : j ≤ c.reserve) :
    rangeOffsetOf c (c.address j) = (j * cacheBlocksize : ℕ) := by
  have h1 := c.reserve_le
  have hcast : ((c.address j : ℕ) : ℤ) - c.rangeStart = (j * cacheBlocksize : ℕ) := by
    unfold Config.address
    push_cast
    omega
  rw [rangeOffsetOf, hcast]
  refine Int.bmod_eq_of_le ?_ ?_
  · omega
  · unfold cacheBlocksize
    omega

lemma tdiv_mul_cacheBlocksize (j : ℕ) :
    ((j * cacheBlocksize : ℕ) : ℤ).tdiv cacheBlocksize = j := by
  rw [Int.natCast_mul]
  exact Int.mul_tdiv_cancel _ (by decide)

lemma tmod_mul_cacheBlocksize (j : ℕ) :
    ((j * cacheBlocksize : ℕ) : ℤ).tmod cacheBlocksize = 0 := by
  rw [Int.natCast_mul]
  exact Int.mul_tmod_left _ _

/-- A range block passes the checks when its range has room for the length. -/
lemma unmapChecks_address {g : RangeData} {k len : ℕ} (hlen : len % cacheBlocksize = 0)
    (hle : k + len / cacheBlocksize ≤ g.blockCt)
    (hoff : rangeOffsetOf c (c.address (g.blockStart + k)) =
      ((g.blockStart + k) * cacheBlocksize : ℕ)) :
    unmapChecks c g (c.address (g.blockStart + k)) len = none := by
  have hblocks : ((g.blockStart + k : ℕ) : ℤ) - g.blockStart + (len / cacheBlocksize : ℕ) ≤
      g.blockCt := by
    generalize len / cacheBlocksize = count at hle
    omega
  unfold unmapChecks
  simp only [hoff, tdiv_mul_cacheBlocksize, tmod_mul_cacheBlocksize]
  rw [if_neg (fun h => h rfl), if_neg (fun h => h hlen), if_neg (not_lt.mpr hblocks)]

/-- Unmapping with the address of a range block. -/
lemma espHimemUnmap_address {g : RangeData} {k len : ℕ} (hlen : len % cacheBlocksize = 0)
    (hle : k + len / cacheBlocksize ≤ g.blockCt) (hg : g.blockStart + g.blockCt ≤ c.reserve) :
    espHimemUnmap c s g (c.address (g.blockStart + k)) len =
      (.ok (), s.unmapBlocks (g.blockStart + k) (len / cacheBlocksize)) := by
  have hoff : rangeOffsetOf c (c.address (g.blockStart + k)) =
      ((g.blockStart + k) * cacheBlocksize : ℕ) :=
    rangeOffsetOf_address ((Nat.add_le_add_left (Nat.le_of_add_right_le hle) _).trans hg)
  rw [espHimemUnmap, unmapChecks_address hlen hle hoff]
  simp only [hoff, tdiv_mul_cacheBlocksize]
  rw [if_neg (fun h => absurd h.1 (not_lt.mpr (Int.natCast_nonneg _))), Int.toNat_natCast]

/-- The address that `esp_himem_map` returns is right only at the start of a range. -/
lemma pointer_eq_iff {start k : ℕ} (hk : start + k ≤ c.reserve) :
    (c.rangeStart + (start + k * cacheBlocksize) * cacheBlocksize) % 2 ^ 32 =
      c.address (start + k) ↔ k = 0 := by
  have h1 := c.reserve_le
  have hstart : c.rangeStart ≤ 0x3FC00000 := by
    simp only [Config.rangeStart, Config.rangeBlockstart, socExtramDataLow, cacheBlocksize]
    omega
  unfold Config.address cacheBlocksize
  constructor
  · intro h
    grind
  · rintro rfl
    rw [Nat.mod_eq_of_lt (by omega), Nat.zero_mul, Nat.add_zero]

lemma cacheBlocksize_pos : 0 < cacheBlocksize := by decide

/-- The physical address that the MMU shows behind the address of a range block. -/
lemma physical_address (s : Banks) (j i : ℕ) : s.physical (c.address j + i) =
    s.mmu (c.rangeBlockstart + (j + i / cacheBlocksize)) * cacheBlocksize + i % cacheBlocksize := by
  have hoff : c.address j + i - socExtramDataLow =
      i + (c.rangeBlockstart + j) * cacheBlocksize := by
    unfold Config.address Config.rangeStart
    rw [Nat.add_mul]
    omega
  rw [Banks.physical, hoff, Nat.add_mul_div_right _ _ cacheBlocksize_pos,
    Nat.add_mul_mod_self_right, show i / cacheBlocksize + (c.rangeBlockstart + j) =
      c.rangeBlockstart + (j + i / cacheBlocksize) by omega]

lemma Mapped.ram_isAlloced {j : ℕ} {blocks : List ℕ} (h : Mapped c s s' j blocks) (b : ℕ) :
    (s'.ram b).isAlloced = (s.ram b).isAlloced := by
  rw [h.ram]
  split <;> rfl

lemma Mapped.range_isAlloced {j : ℕ} {blocks : List ℕ} (h : Mapped c s s' j blocks) (i : ℕ) :
    (s'.range i).isAlloced = (s.range i).isAlloced := by
  by_cases hin : j ≤ i ∧ i < j + blocks.length
  · obtain ⟨k, rfl⟩ := Nat.exists_eq_add_of_le hin.1
    rw [h.range_in k (by omega)]
  · rw [h.range_out i (by omega)]

lemma Unmapped.ram_isAlloced {j : ℕ} {blocks : List ℕ} (h : Unmapped s s' j blocks) (b : ℕ) :
    (s'.ram b).isAlloced = (s.ram b).isAlloced := by
  rw [h.ram]
  split <;> rfl

lemma Unmapped.range_isAlloced {j : ℕ} {blocks : List ℕ} (h : Unmapped s s' j blocks) (i : ℕ) :
    (s'.range i).isAlloced = (s.range i).isAlloced := by
  rw [h.range]
  split <;> rfl

lemma mem_block_of_mem_mapped {r : RamData} {ramOffset len b : ℕ}
    (h : b ∈ mapped r ramOffset len) : b ∈ r.block :=
  List.mem_of_mem_drop (List.mem_of_mem_take h)

/-- A call that maps at the start of a range maps right. -/
lemma mapsRight {r : RamData} {g : RangeData} {ramOffset len : ℕ} (hm : Mappable s r g ramOffset 0 len)
    (hr : ∀ b ∈ r.block, b < c.ramblockcnt) (hg : g.blockStart + g.blockCt ≤ c.reserve)
    (hmap : Mapped c s s' g.blockStart (mapped r ramOffset len)) :
    MapsRight c r g ramOffset 0 len (c.address g.blockStart) s' := by
  have hlen := length_mapped hm.ram_le
  have hzero : 0 / cacheBlocksize = 0 := Nat.zero_div _
  have hunmap := espHimemUnmap_address (s := s') (k := 0) hm.len_aligned (hzero ▸ hm.range_le) hg
  rw [Nat.add_zero] at hunmap
  have hshown : s'.shown g.blockStart (len / cacheBlocksize) = mapped r ramOffset len := by
    refine List.ext_getElem (by rw [length_shown, hlen]) fun i hi hi' => ?_
    have hlt : (mapped r ramOffset len)[i] < 2 ^ 16 :=
      Nat.lt_trans (hr _ (mem_block_of_mem_mapped (List.getElem_mem hi'))) c.ramblockcnt_lt
    simp only [Banks.shown, List.getElem_map, List.getElem_range]
    rw [hmap.range_in i hi', Nat.mod_eq_of_lt hlt]
  refine ⟨by rw [hzero, Nat.add_zero], fun i hi => ?_, by rw [hunmap], ?_⟩
  · -- the byte lies in the block `i / cacheBlocksize` of those that are mapped
    have hi' : i / cacheBlocksize < (mapped r ramOffset len).length := by
      rw [hlen]
      exact Nat.div_lt_div_of_lt_of_dvd (Nat.dvd_of_mod_eq_zero hm.len_aligned) hi
    have hram : ramOffset = ramOffset / cacheBlocksize * cacheBlocksize :=
      (Nat.div_mul_cancel (Nat.dvd_of_mod_eq_zero hm.ram_aligned)).symm
    have hdiv : (ramOffset + i) / cacheBlocksize =
        i / cacheBlocksize + ramOffset / cacheBlocksize := by
      conv_lhs => rw [hram, Nat.add_comm, Nat.add_mul_div_right _ _ cacheBlocksize_pos]
    have hmod : (ramOffset + i) % cacheBlocksize = i % cacheBlocksize := by
      conv_lhs => rw [hram, Nat.add_comm, Nat.add_mul_mod_self_right]
    rw [physical_address, hmap.mmu_in _ hi', getElem_mapped, RamData.byteAt, hdiv, hmod]
  · rw [hunmap, hzero, Nat.add_zero, ← hshown]
    exact unmapBlocks_unmapped _ _ _

/-- The pointer and the tables after a call of `esp_himem_map`, or its error. -/
lemma espHimemMap_cases (c : Config) (s : Banks) (r : RamData) (g : RangeData)
    (ramOffset rangeOffset len : ℕ) :
    (∃ e, e ≠ .outOfTable ∧ espHimemMap c s r g ramOffset rangeOffset len = (.error e, s)) ∨
      mapChecks s r g ramOffset rangeOffset len = none ∧
      espHimemMap c s r g ramOffset rangeOffset len =
        (.ok ((c.rangeStart + (g.blockStart + rangeOffset) * cacheBlocksize) % 2 ^ 32),
          s.mapBlocks c (g.blockStart + rangeOffset / cacheBlocksize) (mapped r ramOffset len)) := by
  unfold espHimemMap
  cases hchecks : mapChecks s r g ramOffset rangeOffset len with
  | some e => exact .inl ⟨e, mapChecks_ne_outOfTable hchecks, rfl⟩
  | none => exact .inr ⟨rfl, rfl⟩

lemma Inv.map (h : Inv c w) {handle range : ℕ} {r : RamData} {g : RangeData}
    (hr : w.handles handle = some r) (hg : w.ranges range = some g) {ramOffset rangeOffset len : ℕ}
    (hm : Mappable w.banks r g ramOffset rangeOffset len) :
    Inv c ⟨w.banks.mapBlocks c (g.blockStart + rangeOffset / cacheBlocksize)
      (mapped r ramOffset len), w.handles, w.ranges⟩ := by
  have hmap := mapBlocks_mapped (c := c) (mapped r ramOffset len) w.banks
    (g.blockStart + rangeOffset / cacheBlocksize)
  have hlen := length_mapped hm.ram_le
  have hle := h.ranges.le range g hg
  have hrange := hm.range_le
  refine ⟨h.ram.congr hmap.ram_isAlloced, h.ranges.congr hmap.range_isAlloced,
    h.mapping.map (by rw [hlen]; omega) ?_ (fun b hb => ?_) hm.ram_unmapped ?_ hmap⟩
  · exact (h.ram.nodup handle r hr).sublist ((List.take_sublist _ _).trans (List.drop_sublist _ _))
  · exact h.ram.lt handle r hr b (mem_block_of_mem_mapped hb)
  · rw [hlen]
    exact hm.range_unmapped

/-- The outcome of `esp_himem_unmap`. -/
lemma espHimemUnmap_cases (c : Config) (s : Banks) (g : RangeData) (ptr len : ℕ) :
    (∃ e, unmapChecks c g ptr len = some e ∧ espHimemUnmap c s g ptr len = (.error e, s)) ∨
      unmapChecks c g ptr len = none ∧
        ((rangeOffsetOf c ptr < 0 ∧ len / cacheBlocksize ≠ 0 ∧
            espHimemUnmap c s g ptr len = (.error .outOfTable, s)) ∨
          espHimemUnmap c s g ptr len = (.ok (), s.unmapBlocks
            ((rangeOffsetOf c ptr).toNat / cacheBlocksize) (len / cacheBlocksize)) ∧
            (len / cacheBlocksize ≠ 0 → 0 ≤ rangeOffsetOf c ptr ∧
              (rangeOffsetOf c ptr).toNat / cacheBlocksize + len / cacheBlocksize ≤
                g.blockStart + g.blockCt)) := by
  unfold espHimemUnmap
  cases hchecks : unmapChecks c g ptr len with
  | some e => exact .inl ⟨e, rfl, rfl⟩
  | none =>
    refine .inr ⟨rfl, ?_⟩
    unfold unmapChecks at hchecks
    dsimp only at hchecks ⊢
    split_ifs at hchecks with h1 h2 h3
    generalize len / cacheBlocksize = n at h3 ⊢
    generalize rangeOffsetOf c ptr = x at h1 h3 ⊢
    have hx : x = x.tdiv cacheBlocksize * cacheBlocksize :=
      (Int.tdiv_mul_cancel (Int.dvd_of_tmod_eq_zero (not_not.mp h1))).symm
    have hpos : (0 : ℤ) < cacheBlocksize := by decide
    by_cases hneg : x < 0
    · have hq : x.tdiv cacheBlocksize < 0 := by
        by_contra hnot
        have := Int.mul_nonneg (not_lt.mp hnot) hpos.le
        omega
      by_cases hn : n = 0
      · subst hn
        exact .inr ⟨by rw [if_neg (by simp)]; rfl, fun h => absurd rfl h⟩
      · exact .inl ⟨hneg, hn, by rw [if_pos ⟨hq, hn⟩]⟩
    · obtain ⟨m, rfl⟩ := Int.eq_ofNat_of_zero_le (not_lt.mp hneg)
      have hq : (m : ℤ).tdiv cacheBlocksize = (m / cacheBlocksize : ℕ) := rfl
      have hq0 : (0 : ℤ) ≤ (m / cacheBlocksize : ℕ) := Int.natCast_nonneg _
      rw [hq] at h3 ⊢
      refine .inr ⟨by rw [if_neg (by omega)]; rfl, fun _ => ⟨not_lt.mp hneg, ?_⟩⟩
      simp only [Int.toNat_natCast]
      omega

/-- A proper step keeps the invariant and is right. -/
lemma Inv.step (h : Inv c w) {op : Op} {ret : Except Err ℕ} (hstep : w.step c op = some (ret, w'))
    (hp : op.Proper c w) : Inv c w' ∧ StepRight c w op ret w' := by
  cases op with
  | alloc size handle mem =>
    unfold World.step at hstep
    dsimp only at hstep
    split at hstep
    · exact absurd hstep (by simp)
    · obtain ⟨e, he, heq⟩ | ⟨blocks, hnodup, hfree, heq⟩ := espHimemAlloc_cases c w.banks size mem
      · rw [heq] at hstep
        obtain ⟨rfl, rfl⟩ := Prod.mk.inj (Option.some_inj.mp hstep)
        exact ⟨h, he, rfl⟩
      · rw [heq] at hstep
        obtain ⟨rfl, rfl⟩ := Prod.mk.inj (Option.some_inj.mp hstep)
        exact ⟨⟨h.ram.alloc hnodup hfree, h.ranges.congr fun _ => rfl, h.mapping.setAlloced _ _⟩,
          trivial⟩
  | free handle =>
    unfold World.step at hstep
    dsimp only at hstep
    split at hstep
    · exact absurd hstep (by simp)
    · next r hr =>
      obtain heq | heq := espHimemFree_cases w.banks r
      · rw [heq] at hstep
        obtain ⟨rfl, rfl⟩ := Prod.mk.inj (Option.some_inj.mp hstep)
        exact ⟨h, by simp, rfl⟩
      · rw [heq] at hstep
        obtain ⟨rfl, rfl⟩ := Prod.mk.inj (Option.some_inj.mp hstep)
        exact ⟨⟨h.ram.free hr, h.ranges.congr fun _ => rfl, h.mapping.setAlloced _ _⟩, trivial⟩
  | allocMapRange size range mem =>
    unfold World.step at hstep
    dsimp only at hstep
    split at hstep
    · exact absurd hstep (by simp)
    · obtain ⟨e, he, heq⟩ | ⟨g, hle, hfree, heq⟩ := espHimemAllocMapRange_cases c w.banks size mem
      · rw [heq] at hstep
        obtain ⟨rfl, rfl⟩ := Prod.mk.inj (Option.some_inj.mp hstep)
        exact ⟨h, he, rfl⟩
      · rw [heq] at hstep
        obtain ⟨rfl, rfl⟩ := Prod.mk.inj (Option.some_inj.mp hstep)
        exact ⟨⟨h.ram.congr fun _ => rfl, h.ranges.alloc hle hfree, h.mapping.setRangeAlloced _ _⟩,
          trivial⟩
  | freeMapRange range =>
    unfold World.step at hstep
    dsimp only at hstep
    split at hstep
    · exact absurd hstep (by simp)
    · next g hg =>
      obtain heq | heq := espHimemFreeMapRange_cases w.banks g
      · rw [heq] at hstep
        obtain ⟨rfl, rfl⟩ := Prod.mk.inj (Option.some_inj.mp hstep)
        exact ⟨h, by simp, rfl⟩
      · rw [heq] at hstep
        obtain ⟨rfl, rfl⟩ := Prod.mk.inj (Option.some_inj.mp hstep)
        exact ⟨⟨h.ram.congr fun _ => rfl, h.ranges.free hg, h.mapping.setRangeAlloced _ _⟩, trivial⟩
  | map handle range ramOffset rangeOffset len =>
    unfold World.step at hstep
    dsimp only at hstep
    split at hstep
    · next r g hr hg =>
      obtain ⟨e, he, heq⟩ | ⟨hchecks, heq⟩ :=
        espHimemMap_cases c w.banks r g ramOffset rangeOffset len
      · rw [heq] at hstep
        obtain ⟨rfl, rfl⟩ := Prod.mk.inj (Option.some_inj.mp hstep)
        exact ⟨h, he, rfl⟩
      · obtain rfl := hp r g hr hg hchecks
        have hm := mappable_of_checks hchecks
        have hle := h.ranges.le range g hg
        have hptr : (c.rangeStart + (g.blockStart + 0) * cacheBlocksize) % 2 ^ 32 =
            c.address g.blockStart := by
          have hptr := (@pointer_eq_iff c g.blockStart 0 (by omega)).mpr rfl
          simpa using hptr
        rw [heq, hptr, Nat.zero_div, Nat.add_zero] at hstep
        obtain ⟨rfl, rfl⟩ := Prod.mk.inj (Option.some_inj.mp hstep)
        refine ⟨?_, fun r' g' hr' hg' => ?_⟩
        · have hinv := h.map hr hg hm
          rwa [Nat.zero_div, Nat.add_zero] at hinv
        · obtain rfl := Option.some_inj.mp (hr.symm.trans hr')
          obtain rfl := Option.some_inj.mp (hg.symm.trans hg')
          exact mapsRight hm (h.ram.lt handle r hr) hle (mapBlocks_mapped _ _ _)
    · exact absurd hstep (by simp)
  | unmap range ptr len =>
    unfold World.step at hstep
    dsimp only at hstep
    split at hstep
    · exact absurd hstep (by simp)
    · next g hg =>
      obtain ⟨e, he, heq⟩ | ⟨hchecks, ⟨hneg, hlen, -⟩ | ⟨heq, hin⟩⟩ :=
        espHimemUnmap_cases c w.banks g ptr len
      · rw [heq] at hstep
        obtain ⟨rfl, rfl⟩ := Prod.mk.inj (Option.some_inj.mp hstep)
        exact ⟨h, unmapChecks_ne_outOfTable he, rfl⟩
      · exact absurd (hp g hg hchecks hlen).1 (by omega)
      · rw [heq] at hstep
        obtain ⟨rfl, rfl⟩ := Prod.mk.inj (Option.some_inj.mp hstep)
        have hu := unmapBlocks_unmapped (len / cacheBlocksize) w.banks
          ((rangeOffsetOf c ptr).toNat / cacheBlocksize)
        refine ⟨⟨h.ram.congr hu.ram_isAlloced, h.ranges.congr hu.range_isAlloced, ?_⟩, trivial⟩
        by_cases hlen : len / cacheBlocksize = 0
        · rw [hlen]
          exact h.mapping
        · have hle := h.ranges.le range g hg
          exact h.mapping.unmap ((hin hlen).2.trans hle) (hp g hg hchecks hlen).2 hu

/-- A right step to a consistent state is proper. -/
lemma Inv.proper (h : Inv c w) {op : Op} {ret : Except Err ℕ} (hstep : w.step c op = some (ret, w'))
    (hright : StepRight c w op ret w') (hcons : Consistent c w') : op.Proper c w := by
  cases op with
  | alloc size handle mem => trivial
  | free handle => trivial
  | allocMapRange size range mem => trivial
  | freeMapRange range => trivial
  | map handle range ramOffset rangeOffset len =>
    intro r g hr hg hchecks
    have hm := mappable_of_checks hchecks
    have hle := h.ranges.le range g hg
    have hrange := hm.range_le
    have hoff : rangeOffset / cacheBlocksize * cacheBlocksize = rangeOffset :=
      Nat.div_mul_cancel (Nat.dvd_of_mod_eq_zero hm.range_aligned)
    unfold World.step at hstep
    simp only [hr, hg, espHimemMap, hchecks] at hstep
    obtain ⟨rfl, rfl⟩ := Prod.mk.inj (Option.some_inj.mp hstep)
    have haddr := (hright r g hr hg).address
    rw [← hoff, Nat.mul_div_cancel _ cacheBlocksize_pos] at haddr
    have hcount := Nat.zero_le (len / cacheBlocksize)
    have hzero := (pointer_eq_iff (by omega)).mp haddr
    rw [← hoff, hzero, Nat.zero_mul]
  | unmap range ptr len =>
    intro g hg hchecks hlen
    unfold World.step at hstep
    simp only [hg] at hstep
    obtain ⟨e, he, heq⟩ | ⟨-, ⟨-, -, heq⟩ | ⟨heq, hin⟩⟩ :=
      espHimemUnmap_cases c w.banks g ptr len
    · exact absurd (hchecks.symm.trans he) (by simp)
    · rw [heq] at hstep
      obtain ⟨rfl, rfl⟩ := Prod.mk.inj (Option.some_inj.mp hstep)
      exact absurd rfl hright.1
    · rw [heq] at hstep
      obtain ⟨rfl, rfl⟩ := Prod.mk.inj (Option.some_inj.mp hstep)
      refine ⟨(hin hlen).1, fun i hi hmap => ?_⟩
      exact h.mapping.proper_of_unmap (unmapBlocks_unmapped _ _ _) hcons.mapped hi hmap

lemma AlwaysConsistent.head {ops : List Op} (h : AlwaysConsistent c w ops) : Consistent c w := by
  cases ops with
  | nil => exact h
  | cons op ops => exact h.1

lemma Inv.alwaysConsistent_iff {ops : List Op} (h : Inv c w) :
    AlwaysConsistent c w ops ↔ ProperRun c w ops := by
  induction ops generalizing w with
  | nil => exact iff_of_true h.consistent trivial
  | cons op ops ih =>
    constructor
    · rintro ⟨-, ret, w', hstep, hright, hrest⟩
      have hproper := h.proper hstep hright hrest.head
      exact ⟨hproper, ret, w', hstep, (ih (h.step hstep hproper).1).mp hrest⟩
    · rintro ⟨hproper, ret, w', hstep, hrest⟩
      obtain ⟨hinv, hright⟩ := h.step hstep hproper
      exact ⟨h.consistent, ret, w', hstep, hright, (ih hinv).mpr hrest⟩

/-- In a run of calls on live handles the tables are consistent, what is mapped is found at the
address that is returned, and errors change nothing, if and only if what is mapped is mapped at
the start of a range, and no physical block is marked unmapped that is still mapped to a range
block that is not unmapped with it. -/
theorem bank_switching_consistent_iff (c : Config) (mmu : ℕ → ℕ) (ops : List Op) :
    AlwaysConsistent c (.init mmu) ops ↔ ProperRun c (.init mmu) ops :=
  (inv_init mmu).alwaysConsistent_iff

/-- The pointer to the second block of a range is 1 GB behind the range. -/
theorem map_second_inconsistent : ¬ AlwaysConsistent .small (.init id) Op.mapSecond := by
  intro h
  obtain ⟨-, _, w₁, h₁, -, -, _, w₂, h₂, -, -, _, w₃, h₃, hright, -⟩ := h
  cases h₁
  cases h₂
  cases h₃
  have haddr := (hright ⟨[0]⟩ ⟨2, 0⟩ rfl rfl).address
  exact absurd haddr (by decide)

end EspIdf.Himem
