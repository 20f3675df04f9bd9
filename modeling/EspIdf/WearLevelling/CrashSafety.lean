/-
# Power losses in safety mode

As long as `recover` finds no record, the FAT sectors are as they were or as they should be.
When it finds one, it erases the FAT sector that has the number of the state sector; a record
that was not written completely does further damage.
-/
import EspIdf.WearLevelling.ExtSafe

namespace EspIdf.WearLevelling.Ext

variable {flash flash' : Flash} {ops ops' : List FlashOp} {a : ℕ}

/-! ### Operations -/

lemma replay_cons {op : FlashOp} : replay flash (op :: ops) = replay (op.apply flash) ops := rfl

lemma replay_append : replay flash (ops ++ ops') = replay (replay flash ops) ops' :=
  List.foldl_append ..

lemma erased_and (w : Word) : erased &&& w = w := BitVec.allOnes_and

/-- The sector of an operation. -/
def FlashOp.sector : FlashOp → ℕ
  | .erase sector => sector
  | .program addr _ => addr / 1024

lemma FlashOp.apply_of_ne {op : FlashOp} (h : a / 1024 ≠ op.sector) :
    op.apply flash a = flash a := by
  cases op with
  | erase sector => exact if_neg h
  | program addr word =>
    refine Function.update_of_ne ?_ ..
    rintro rfl
    exact h rfl

/-- Operations leave other sectors alone. -/
lemma replay_of_ne (h : ∀ op ∈ ops, a / 1024 ≠ op.sector) : replay flash ops a = flash a := by
  induction ops generalizing flash with
  | nil => rfl
  | cons op ops ih =>
    rw [replay_cons, ih fun op' hop => h op' (.tail _ hop),
      FlashOp.apply_of_ne (h op List.mem_cons_self)]

/-- Consecutive words are programmed. -/
lemma replay_program (addr words : ℕ) (data : ℕ → Word) (a : ℕ) :
    replay flash ((List.range words).map fun j => .program (addr + j) (data j)) a =
      if addr ≤ a ∧ a < addr + words then flash a &&& data (a - addr) else flash a := by
  induction words generalizing a with
  | zero => exact (if_neg (by omega)).symm
  | succ words ih =>
    have hlast (flash : Flash) :
        replay flash ([words].map fun j => .program (addr + j) (data j)) =
          Function.update flash (addr + words) (flash (addr + words) &&& data words) := rfl
    rw [List.range_succ, List.map_append, replay_append, hlast]
    by_cases ha : a = addr + words
    · rw [ha, Function.update_self, ih, if_neg (by omega), if_pos (by omega),
        Nat.add_sub_cancel_left]
    · rw [Function.update_of_ne ha, ih]
      by_cases hin : addr ≤ a ∧ a < addr + words
      · rw [if_pos hin, if_pos (by omega)]
      · rw [if_neg hin, if_neg (by omega)]

namespace Device

variable {d : Device} {base shift count : ℕ} {buffer : ℕ → Word}

lemma fold_of_lt (h : a < flashSectorSize * d.sectors) : fold d.sectors a = a := by
  have := d.size_lt
  rw [fold, Nat.mod_eq_of_lt (show a < 2 ^ 32 by omega),
    Nat.mod_eq_of_lt (show flashSectorSize * d.sectors + a < 2 ^ 32 by omega), Nat.add_mod_left,
    Nat.mod_eq_of_lt h]

/-- An erased address is found in the last sector. -/
lemma fold_erased {i : ℕ} (hi : i < sizeFactor) :
    fold d.sectors ((2 ^ 32 - 1) * flashSectorSize + i * fatSectorSize) =
      (d.sectors - 1) * flashSectorSize + i * fatSectorSize := by
  have := d.size_lt
  have := d.two_lt
  simp only [flashSectorSize, fatSectorSize, sizeFactor, fold] at *
  have hlow : ((2 ^ 32 - 1) * 4096 + i * 512) % 2 ^ 32 = 2 ^ 32 - 4096 + i * 512 := by omega
  have hsum : (4096 * d.sectors + (2 ^ 32 - 4096 + i * 512)) % 2 ^ 32 =
      (d.sectors - 1) * 4096 + i * 512 := by omega
  rw [hlow, hsum, Nat.mod_eq_of_lt (by omega)]

/-- The sector of an operation on a sector of the flash. -/
lemma eraseSector_eq {sector : ℕ} (h : sector < d.sectors) :
    eraseSector d.sectors sector = .erase sector := by
  have hlt : sector * flashSectorSize < flashSectorSize * d.sectors := by
    rw [Nat.mul_comm]
    exact Nat.mul_lt_mul_of_pos_left h (by decide)
  rw [eraseSector, fold_of_lt hlt, Nat.mul_div_cancel _ (by decide)]

lemma writeWords_eq {sector words : ℕ} (h : sector < d.sectors) (data : ℕ → Word) :
    writeWords d.sectors (sector * flashSectorSize) words data =
      (List.range words).map fun j => .program (1024 * sector + j) (data j) := by
  have hlt : sector * flashSectorSize < flashSectorSize * d.sectors := by
    rw [Nat.mul_comm]
    exact Nat.mul_lt_mul_of_pos_left h (by decide)
  rw [writeWords, fold_of_lt hlt]
  have : sector * flashSectorSize / 4 = 1024 * sector := by
    rw [flashSectorSize]
    omega
  rw [this]

/-! ### Writing back -/

/-- The FAT sectors that are kept are programmed in sector `c`. -/
lemma replay_writeBack {c : ℕ} (hc : ∀ i < sizeFactor,
    fold d.sectors (base * flashSectorSize + i * fatSectorSize) =
      c * flashSectorSize + i * fatSectorSize) :
    replay flash (d.writeBack base shift count buffer) a =
      if a / 1024 = c ∧ keeps shift count (a % 1024 / 128) = true then
        flash a &&& buffer (a % 1024)
      else flash a := by
  have hrounds : ∀ n ≤ sizeFactor, ∀ a, replay flash ((List.range n).flatMap fun i =>
      if keeps shift count i then
        writeWords d.sectors (base * flashSectorSize + i * fatSectorSize) 128
          fun j => buffer (128 * i + j)
      else []) a =
      if a / 1024 = c ∧ a % 1024 / 128 < n ∧ keeps shift count (a % 1024 / 128) = true then
        flash a &&& buffer (a % 1024)
      else flash a := by
    intro n
    induction n with
    | zero => exact fun _ a => (if_neg (by omega)).symm
    | succ n ih =>
      intro hn a
      have ih := ih (by omega) a
      have hfold : fold d.sectors (base * flashSectorSize + n * fatSectorSize) / 4 =
          1024 * c + 128 * n := by
        rw [hc n (by omega), flashSectorSize, fatSectorSize]
        omega
      rw [List.range_succ, List.flatMap_append, replay_append, List.flatMap_singleton]
      by_cases hkeep : keeps shift count n = true
      · rw [if_pos hkeep, writeWords, hfold, replay_program, ih]
        by_cases hin : 1024 * c + 128 * n ≤ a ∧ a < 1024 * c + 128 * n + 128
        · have hslot : a % 1024 / 128 = n := by
            simp only [sizeFactor] at hn
            omega
          rw [if_pos hin, if_neg (by omega), hslot,
            if_pos ⟨by simp only [sizeFactor] at hn; omega, by omega, hkeep⟩]
          congr 2
          simp only [sizeFactor] at hn
          omega
        · rw [if_neg hin]
          have hiff : (a / 1024 = c ∧ a % 1024 / 128 < n) ↔ (a / 1024 = c ∧ a % 1024 / 128 < n + 1) := by
            omega
          simp only [← and_assoc, hiff]
      · rw [if_neg hkeep]
        change replay flash _ a = _
        rw [ih]
        by_cases hslot : a % 1024 / 128 = n
        · rw [hslot, if_neg (by omega), if_neg fun h => hkeep h.2.2]
        · have hiff : a % 1024 / 128 < n ↔ a % 1024 / 128 < n + 1 := by omega
          simp only [hiff]
  have hall := hrounds sizeFactor (Nat.le_refl _) a
  have hslot : a % 1024 / 128 < sizeFactor := by
    simp only [sizeFactor]
    omega
  simp only [hslot, true_and] at hall
  exact hall

/-- A sector is erased and written back. -/
lemma replay_restore {c : ℕ} (hc : ∀ i < sizeFactor,
    fold d.sectors (base * flashSectorSize + i * fatSectorSize) =
      c * flashSectorSize + i * fatSectorSize) :
    replay flash (eraseSector d.sectors base :: d.writeBack base shift count buffer) a =
      if a / 1024 = c then
        if keeps shift count (a % 1024 / 128) = true then buffer (a % 1024) else erased
      else flash a := by
  have herase : eraseSector d.sectors base = .erase c := by
    have := hc 0 (by decide)
    rw [Nat.zero_mul, Nat.add_zero, Nat.add_zero] at this
    rw [eraseSector, this, Nat.mul_div_cancel _ (by decide)]
  rw [replay_cons, replay_writeBack hc, herase]
  change (if _ then (if a / 1024 = c then erased else flash a) &&& _
    else if a / 1024 = c then erased else flash a) = _
  by_cases hsector : a / 1024 = c
  · simp only [hsector, true_and, if_true, erased_and]
  · simp only [hsector, false_and, if_false]

/-- A sector of the flash is found where it is. -/
lemma fold_base (h : base < d.sectors) : ∀ i < sizeFactor,
    fold d.sectors (base * flashSectorSize + i * fatSectorSize) =
      base * flashSectorSize + i * fatSectorSize := by
  intro i hi
  refine fold_of_lt ?_
  simp only [sizeFactor, flashSectorSize, fatSectorSize] at *
  omega

/-! ### A call that is not interrupted -/

lemma dumpSector_lt (d : Device) : d.dumpSector < d.sectors := by
  have := d.two_lt
  rw [dumpSector]
  omega

lemma stateSector_lt (d : Device) : d.stateSector < d.sectors := by
  have := d.two_lt
  rw [stateSector]
  omega

lemma dumpSector_eq (d : Device) : d.dumpSector = d.stateSector + 1 := by
  have := d.two_lt
  rw [dumpSector, stateSector]
  omega

/-- `erase_sector_fit` up to the record, the record, and the rest. -/
lemma eraseSectorFit_eq {startSector : ℕ} :
    d.eraseSectorFit flash buffer startSector count =
      (FlashOp.erase d.dumpSector :: ((List.range 1024).map fun j =>
        .program (1024 * d.dumpSector + j) (readBack flash (startSector / sizeFactor)
          (startSector % sizeFactor) count buffer j)) ++ [.erase d.stateSector]) ++
      ((List.range 4).map fun j => .program (1024 * d.stateSector + j)
        (stateWords (startSector / sizeFactor) (startSector % sizeFactor) count j)) ++
      ((eraseSector d.sectors (startSector / sizeFactor) ::
        d.writeBack (startSector / sizeFactor) (startSector % sizeFactor) count
          (readBack flash (startSector / sizeFactor) (startSector % sizeFactor) count buffer)) ++
        [.erase d.stateSector]) := by
  rw [eraseSectorFit, writeWords_eq d.dumpSector_lt, writeWords_eq d.stateSector_lt,
    eraseSector_eq d.dumpSector_lt, eraseSector_eq d.stateSector_lt]
  simp only [List.cons_append, List.nil_append, List.append_assoc]

/-- The operations of `restore` are on one sector. -/
lemma sector_of_mem_restore (h : base < d.sectors) {op : FlashOp}
    (hop : op ∈ eraseSector d.sectors base :: d.writeBack base shift count buffer) :
    op.sector = base := by
  rcases List.mem_cons.mp hop with rfl | hop
  · rw [eraseSector_eq h]
    rfl
  · obtain ⟨i, hi, hop⟩ := List.mem_flatMap.mp hop
    have hi := List.mem_range.mp hi
    split at hop
    · obtain ⟨j, hj, rfl⟩ := List.mem_map.mp hop
      have hj := List.mem_range.mp hj
      rw [fold_base h i hi]
      simp only [FlashOp.sector, flashSectorSize, fatSectorSize, sizeFactor] at *
      omega
    · exact absurd hop List.not_mem_nil

/-- The dump is written, and `words` words of the record. -/
def pending (d : Device) (flash : Flash) (base shift count : ℕ) (buffer : ℕ → Word) (words : ℕ) :
    Flash :=
  fun a =>
    if a / 1024 = d.dumpSector then buffer (a % 1024)
    else if a / 1024 = d.stateSector then
      if a % 1024 < words then stateWords base shift count (a % 1024) else erased
    else flash a

lemma replay_dump : replay flash (FlashOp.erase d.dumpSector :: ((List.range 1024).map fun j =>
      .program (1024 * d.dumpSector + j) (buffer j)) ++ [.erase d.stateSector]) =
    d.pending flash base shift count buffer 0 := by
  funext a
  have hne := d.dumpSector_eq
  rw [replay_append]
  change (if a / 1024 = d.stateSector then erased else replay _ _ a) = _
  rw [replay_cons, replay_program, pending]
  change (if _ then erased else if _ then
    (if a / 1024 = d.dumpSector then erased else flash a) &&& _
    else if a / 1024 = d.dumpSector then erased else flash a) = _
  by_cases hdump : a / 1024 = d.dumpSector
  · have hstate : ¬ a / 1024 = d.stateSector := by omega
    have hin : 1024 * d.dumpSector ≤ a ∧ a < 1024 * d.dumpSector + 1024 := by omega
    have hmod : a - 1024 * d.dumpSector = a % 1024 := by omega
    rw [if_neg hstate, if_pos hin, if_pos hdump, if_pos hdump, erased_and, hmod]
  · have hout : ¬ (1024 * d.dumpSector ≤ a ∧ a < 1024 * d.dumpSector + 1024) := by omega
    rw [if_neg hout, if_neg hdump, if_neg hdump, if_neg (Nat.not_lt_zero _)]

lemma replay_record {words : ℕ} (hwords : words ≤ 4) :
    replay (d.pending flash base shift count buffer 0)
      ((List.range words).map fun j => .program (1024 * d.stateSector + j)
        (stateWords base shift count j)) =
      d.pending flash base shift count buffer words := by
  funext a
  have hne := d.dumpSector_eq
  rw [replay_program]
  by_cases hin : 1024 * d.stateSector ≤ a ∧ a < 1024 * d.stateSector + words
  · have hdump : ¬ a / 1024 = d.dumpSector := by omega
    have hstate : a / 1024 = d.stateSector := by omega
    have hmod : a - 1024 * d.stateSector = a % 1024 := by omega
    have hlt : a % 1024 < words := by omega
    simp only [pending, if_pos hin, if_neg hdump, if_pos hstate, if_pos hlt, Nat.not_lt_zero,
      if_false, erased_and, hmod]
  · rw [if_neg hin, pending, pending]
    by_cases hstate : a / 1024 = d.stateSector
    · rw [if_neg (Nat.not_lt_zero _), if_neg (show ¬ a % 1024 < words by omega)]
    · rw [if_neg hstate, if_neg hstate]

/-- The FAT sectors of the range are erased, the others keep their contents, and the record is
erased. -/
lemma replay_eraseSectorFit (flash : Flash) (buffer : ℕ → Word) {startSector : ℕ} (count : ℕ)
    (hbase : startSector / sizeFactor < d.stateSector) :
    (∀ a, a / 1024 < d.stateSector →
      replay flash (d.eraseSectorFit flash buffer startSector count) a =
        if a / 1024 = startSector / sizeFactor ∧
            keeps (startSector % sizeFactor) count (a % 1024 / 128) = false then erased
        else flash a) ∧
    replay flash (d.eraseSectorFit flash buffer startSector count) (1024 * d.stateSector) =
      erased := by
  have hlt := d.stateSector_lt
  have hne := d.dumpSector_eq
  rw [eraseSectorFit_eq, replay_append, replay_append, replay_append, replay_dump,
    replay_record (Nat.le_refl 4)]
  constructor
  · intro a ha
    change (if a / 1024 = d.stateSector then erased else replay _ _ a) = _
    rw [if_neg (Nat.ne_of_lt ha), replay_restore (fold_base (Nat.lt_trans hbase hlt)), pending]
    have hdump : ¬ a / 1024 = d.dumpSector := by omega
    rw [if_neg hdump, if_neg (Nat.ne_of_lt ha)]
    by_cases hsector : a / 1024 = startSector / sizeFactor
    · have haddr : 1024 * (startSector / sizeFactor) + a % 1024 = a := by omega
      cases hkeep : keeps (startSector % sizeFactor) count (a % 1024 / 128) with
      | true => simp [hsector, readBack, hkeep, haddr]
      | false => simp [hsector]
    · simp [hsector]
  · change (if 1024 * d.stateSector / 1024 = d.stateSector then erased else _) = _
    rw [if_pos (Nat.mul_div_cancel_left _ (by decide))]

/-! ### Where the power is lost -/

lemma length_eraseSectorFit_gt {startSector : ℕ} :
    1030 < (d.eraseSectorFit flash buffer startSector count).length := by
  rw [eraseSectorFit_eq]
  simp only [List.length_append, List.length_cons, List.length_map, List.length_range,
    List.length_nil]
  omega

/-- While the dump is written, the record is as it was or erased. -/
lemma replay_dumping (hops : ∀ op ∈ ops, op.sector = d.dumpSector ∨ op = .erase d.stateSector) :
    (∀ a, a / 1024 < d.stateSector → replay flash ops a = flash a) ∧
    (replay flash ops (1024 * d.stateSector) = flash (1024 * d.stateSector) ∨
      replay flash ops (1024 * d.stateSector) = erased) := by
  have hne := d.dumpSector_eq
  constructor
  · intro a ha
    refine replay_of_ne fun op hop => ?_
    rcases hops op hop with h | rfl
    · omega
    · exact Nat.ne_of_lt ha
  · induction ops generalizing flash with
    | nil => exact .inl rfl
    | cons op ops ih =>
      rw [replay_cons]
      rcases @ih (op.apply flash) fun op' hop => hops op' (.tail _ hop) with h | h
      · rw [h]
        rcases hops op List.mem_cons_self with hsector | rfl
        · exact .inl (FlashOp.apply_of_ne (by omega))
        · exact .inr (if_pos (Nat.mul_div_cancel_left _ (by decide)))
      · exact .inr h

/-- Before the record, the FAT sectors are as they were, and there is no new record. -/
lemma replay_take_before (flash : Flash) (buffer : ℕ → Word) (count : ℕ) {startSector k : ℕ}
    (hk : k ≤ 1026) :
    (∀ a, a / 1024 < d.stateSector →
      replay flash ((d.eraseSectorFit flash buffer startSector count).take k) a = flash a) ∧
    (replay flash ((d.eraseSectorFit flash buffer startSector count).take k)
        (1024 * d.stateSector) = flash (1024 * d.stateSector) ∨
      replay flash ((d.eraseSectorFit flash buffer startSector count).take k)
        (1024 * d.stateSector) = erased) := by
  rw [eraseSectorFit_eq, List.append_assoc, List.take_append_of_le_length (by simp; omega)]
  refine replay_dumping fun op hop => ?_
  rcases List.mem_append.mp (List.mem_of_mem_take hop) with hop | hop
  · left
    rcases List.mem_cons.mp hop with rfl | hop
    · rfl
    · obtain ⟨j, hj, rfl⟩ := List.mem_map.mp hop
      have hj := List.mem_range.mp hj
      simp only [FlashOp.sector]
      omega
  · exact .inr (List.mem_singleton.mp hop)

/-- With words of the record written, the sector at hand may have been erased, and it may have
been written back in part. -/
lemma replay_take_within {startSector k : ℕ} (hbase : startSector / sizeFactor < d.stateSector)
    (hk : 1026 ≤ k) (hlt : k < (d.eraseSectorFit flash buffer startSector count).length)
    (ha : 1030 < k → a / 1024 ≠ startSector / sizeFactor) :
    replay flash ((d.eraseSectorFit flash buffer startSector count).take k) a =
      d.pending flash (startSector / sizeFactor) (startSector % sizeFactor) count
        (readBack flash (startSector / sizeFactor) (startSector % sizeFactor) count buffer)
        (min (k - 1026) 4) a := by
  rw [eraseSectorFit_eq] at hlt ⊢
  generalize readBack flash (startSector / sizeFactor) (startSector % sizeFactor) count buffer =
    dump at *
  obtain ⟨m, rfl⟩ := Nat.exists_eq_add_of_le hk
  have hdump : (FlashOp.erase d.dumpSector :: ((List.range 1024).map fun j =>
      FlashOp.program (1024 * d.dumpSector + j) (dump j)) ++
        [FlashOp.erase d.stateSector]).length = 1026 := by
    simp
  rw [List.append_assoc, List.take_append, hdump, List.take_of_length_le (by omega),
    replay_append, replay_dump, Nat.add_sub_cancel_left, List.take_append, List.length_map,
    List.length_range, replay_append, ← List.map_take, List.take_range,
    replay_record (Nat.min_le_right ..)]
  rw [List.length_append, List.length_append, hdump, List.length_map,
    List.length_range, List.length_append, List.length_singleton] at hlt
  refine replay_of_ne fun op hop => ?_
  by_cases hm : m ≤ 4
  · rw [Nat.sub_eq_zero_of_le hm, List.take_zero] at hop
    exact absurd hop List.not_mem_nil
  · rw [List.take_append_of_le_length (by omega)] at hop
    rw [sector_of_mem_restore (Nat.lt_trans hbase d.stateSector_lt) (List.mem_of_mem_take hop)]
    exact ha (by omega)

/-! ### Recovering -/

/-- Without a record there is nothing to recover. -/
lemma recovered_of_ne (h : flash (1024 * d.stateSector) ≠ wlExtSafeOk) (cuts : List ℕ) :
    d.recovered flash cuts = flash := by
  have hnone : d.recover flash = [] := if_neg h
  induction cuts with
  | nil => rw [recovered, hnone]; rfl
  | cons cut cuts ih =>
    rw [recovered, hnone, List.take_nil]
    exact ih

lemma keeps_eq_false {i : ℕ} (h : count + shift < 2 ^ 32) :
    keeps shift count i = false ↔ shift ≤ i ∧ i < count + shift := by
  rw [keeps, Nat.mod_eq_of_lt h, Bool.or_eq_false_iff, decide_eq_false_iff_not,
    decide_eq_false_iff_not]
  omega

lemma recover_eq (hok : flash (1024 * d.stateSector) = wlExtSafeOk) :
    d.recover flash =
      (eraseSector d.sectors (flash (1024 * d.stateSector + 1)).toNat ::
        d.writeBack (flash (1024 * d.stateSector + 1)).toNat
          (flash (1024 * d.stateSector + 2)).toNat (flash (1024 * d.stateSector + 3)).toNat
          fun j => flash (1024 * d.dumpSector + j)) ++
      d.eraseRange (replay flash (eraseSector d.sectors (flash (1024 * d.stateSector + 1)).toNat ::
        d.writeBack (flash (1024 * d.stateSector + 1)).toNat
          (flash (1024 * d.stateSector + 2)).toNat (flash (1024 * d.stateSector + 3)).toNat
          fun j => flash (1024 * d.dumpSector + j)))
        (fun j => flash (1024 * d.dumpSector + j)) (d.stateSector * flashSectorSize) :=
  if_pos hok

/-- The number of the state sector is that of a FAT sector. -/
lemma stateSector_div_lt (d : Device) : d.stateSector / sizeFactor < d.stateSector := by
  have := d.two_lt
  rw [stateSector, sizeFactor]
  omega

/-- The recovery restores the sector of the record, and then erases the FAT sector that has
the number of the state sector. -/
lemma replay_recover {c : ℕ} (hok : flash (1024 * d.stateSector) = wlExtSafeOk)
    (hc : ∀ i < sizeFactor, fold d.sectors
      ((flash (1024 * d.stateSector + 1)).toNat * flashSectorSize + i * fatSectorSize) =
        c * flashSectorSize + i * fatSectorSize) (ha : a / 1024 < d.stateSector) :
    replay flash (d.recover flash) a =
      if a / 128 = d.stateSector then erased
      else if a / 1024 = c then
        if keeps (flash (1024 * d.stateSector + 2)).toNat
            (flash (1024 * d.stateSector + 3)).toNat (a % 1024 / 128) = true then
          flash (1024 * d.dumpSector + a % 1024)
        else erased
      else flash a := by
  rw [recover_eq hok, replay_append, eraseRange, eraseFatSector,
    Nat.mul_div_cancel _ (by decide), (replay_eraseSectorFit _ _ 1 d.stateSector_div_lt).1 a ha,
    replay_restore hc]
  have hmod : d.stateSector % sizeFactor < 8 := Nat.mod_lt _ (by decide)
  have hiff : (a / 1024 = d.stateSector / sizeFactor ∧
      keeps (d.stateSector % sizeFactor) 1 (a % 1024 / 128) = false) ↔
        a / 128 = d.stateSector := by
    rw [keeps_eq_false (by omega)]
    simp only [sizeFactor] at *
    omega
  simp only [hiff]

/-- `WL_Ext_Safe::init` leaves no record. -/
lemma no_record_after_recover (d : Device) (flash : Flash) :
    replay flash (d.recover flash) (1024 * d.stateSector) ≠ wlExtSafeOk := by
  by_cases hok : flash (1024 * d.stateSector) = wlExtSafeOk
  · rw [recover_eq hok, replay_append, eraseRange, eraseFatSector,
      Nat.mul_div_cancel _ (by decide), (replay_eraseSectorFit _ _ 1 d.stateSector_div_lt).2]
    decide
  · have := recovered_of_ne hok []
    rw [recovered] at this
    rw [this]
    exact hok

/-! ### What is left of the FAT sectors -/

/-- The sector at hand after it was restored, for a power loss after `k` operations: it has not
been touched, all of the dump was written to it, nothing was, or what the record says. -/
def restored (flash : Flash) (base shift count : ℕ) (dump : ℕ → Word) (k : ℕ) : Flash := fun a =>
  if a / 1024 = base ∧ k ≠ 1027 then
    if k = 1028 ∨ (k = 1029 ∧ shift ≠ 0) then dump (a % 1024)
    else if k = 1029 then erased
    else if keeps shift count (a % 1024 / 128) = true then dump (a % 1024)
    else erased
  else flash a

/-- The FAT sectors after a recovery that is not interrupted. -/
lemma recovered_within {startSector k : ℕ} (hbase : startSector / sizeFactor < d.stateSector)
    (hcount : count ≤ sizeFactor - startSector % sizeFactor) (hk : 1026 < k)
    (hlt : k < (d.eraseSectorFit flash buffer startSector count).length)
    (ha : a / 1024 < d.stateSector) :
    d.recovered (replay flash ((d.eraseSectorFit flash buffer startSector count).take k)) [] a =
      if a / 128 = d.stateSector then erased
      else restored flash (startSector / sizeFactor) (startSector % sizeFactor) count
        (readBack flash (startSector / sizeFactor) (startSector % sizeFactor) count buffer) k a := by
  have hpending := fun a => replay_take_within (a := a) hbase (Nat.le_of_lt hk) hlt
  generalize replay flash ((d.eraseSectorFit flash buffer startSector count).take k) = flash' at *
  generalize readBack flash (startSector / sizeFactor) (startSector % sizeFactor) count buffer =
    dump at *
  have hshift : startSector % sizeFactor < 8 := Nat.mod_lt _ (by decide)
  generalize startSector % sizeFactor = shift at *
  generalize startSector / sizeFactor = base at *
  have hne := d.dumpSector_eq
  have hsize := d.size_lt
  simp only [flashSectorSize, sizeFactor] at hsize hcount
  have hsectors := d.stateSector_lt
  -- the words of the record and the dump
  have hword (i : ℕ) (hi : i < 4) : flash' (1024 * d.stateSector + i) =
      if i < min (k - 1026) 4 then stateWords base shift count i else erased := by
    have hsector : (1024 * d.stateSector + i) / 1024 = d.stateSector := by omega
    have hmod : (1024 * d.stateSector + i) % 1024 = i := by omega
    rw [hpending _ fun _ => by omega, pending, hsector, hmod, if_neg (by omega), if_pos rfl]
  have hdump (j : ℕ) (hj : j < 1024) : flash' (1024 * d.dumpSector + j) = dump j := by
    have hsector : (1024 * d.dumpSector + j) / 1024 = d.dumpSector := by omega
    have hmod : (1024 * d.dumpSector + j) % 1024 = j := by omega
    rw [hpending _ fun _ => by omega, pending, hsector, hmod, if_pos rfl]
  have hdata (a : ℕ) (ha : a / 1024 < d.stateSector) (hother : 1030 < k → a / 1024 ≠ base) :
      flash' a = flash a := by
    rw [hpending a hother, pending, if_neg (by omega), if_neg (by omega)]
  have hok : flash' (1024 * d.stateSector) = wlExtSafeOk := by
    have := hword 0 (by decide)
    rw [if_pos (by omega)] at this
    exact this
  have hbaseWord (h : 1027 < k) : (flash' (1024 * d.stateSector + 1)).toNat = base := by
    rw [hword 1 (by decide), if_pos (by omega)]
    exact Nat.mod_eq_of_lt (by omega)
  have hshiftWord : (flash' (1024 * d.stateSector + 2)).toNat =
      if 1028 < k then shift else 2 ^ 32 - 1 := by
    rw [hword 2 (by decide)]
    by_cases h : 1028 < k
    · rw [if_pos (by omega), if_pos h]
      exact Nat.mod_eq_of_lt (by omega)
    · rw [if_neg (by omega), if_neg h]
      rfl
  have hcountWord : (flash' (1024 * d.stateSector + 3)).toNat =
      if 1029 < k then count else 2 ^ 32 - 1 := by
    rw [hword 3 (by decide)]
    by_cases h : 1029 < k
    · rw [if_pos (by omega), if_pos h]
      exact Nat.mod_eq_of_lt (by omega)
    · rw [if_neg (by omega), if_neg h]
      rfl
  rw [recovered]
  obtain rfl | hk : k = 1027 ∨ 1027 < k := by omega
  · -- an erased base lies in the dump
    have herased : (flash' (1024 * d.stateSector + 1)).toNat = 2 ^ 32 - 1 := by
      rw [hword 1 (by decide), if_neg (by decide)]
      rfl
    have hother : ¬ a / 1024 = d.dumpSector := by omega
    rw [replay_recover hok (c := d.dumpSector) (fun i hi => by rw [herased]; exact fold_erased hi)
      ha, restored]
    congr 1
    rw [if_neg hother, hdata a ha (fun h => by omega),
      if_neg (show ¬ (a / 1024 = base ∧ 1027 ≠ 1027) by omega)]
  rw [replay_recover hok (c := base) (by
    rw [hbaseWord hk]
    exact fold_base (by omega)) ha, restored]
  congr 1
  by_cases hsector : a / 1024 = base
  · rw [if_pos hsector, if_pos (show a / 1024 = base ∧ k ≠ 1027 by omega),
      hdump _ (Nat.mod_lt _ (by decide))]
    have hslot : a % 1024 / 128 < 8 := by omega
    obtain rfl | rfl | hk : k = 1028 ∨ k = 1029 ∨ 1029 < k := by omega
    · -- shift and count are erased, and all is written back
      rw [hshiftWord, hcountWord, if_neg (Nat.lt_irrefl _), if_neg (show ¬ 1029 < 1028 by decide),
        if_pos (show keeps (2 ^ 32 - 1) (2 ^ 32 - 1) (a % 1024 / 128) = true by
          rw [keeps, Bool.or_eq_true, decide_eq_true_eq]
          omega), if_pos (.inl rfl)]
    · -- count is erased, and all is written back if the sum wraps
      rw [hshiftWord, hcountWord, if_pos (show 1028 < 1029 by decide), if_neg (Nat.lt_irrefl _)]
      by_cases hzero : shift = 0
      · rw [hzero, if_neg (show ¬ keeps 0 (2 ^ 32 - 1) (a % 1024 / 128) = true by
          rw [keeps, Bool.or_eq_true, decide_eq_true_eq, decide_eq_true_eq]
          omega), if_neg (show ¬ (1029 = 1028 ∨ 1029 = 1029 ∧ 0 ≠ 0) by decide), if_pos rfl]
      · rw [if_pos (show keeps shift (2 ^ 32 - 1) (a % 1024 / 128) = true by
          rw [keeps, Bool.or_eq_true, decide_eq_true_eq, decide_eq_true_eq]
          omega), if_pos (.inr ⟨rfl, hzero⟩)]
    · rw [hshiftWord, hcountWord, if_pos (show 1028 < k by omega), if_pos hk,
        if_neg (show ¬ (k = 1028 ∨ k = 1029 ∧ shift ≠ 0) by omega),
        if_neg (show ¬ k = 1029 by omega)]
  · rw [if_neg hsector, if_neg (fun h : a / 1024 = base ∧ k ≠ 1027 => hsector h.1),
      hdata a ha fun _ => hsector]

/-- The FAT sectors as `sector_buffer` holds them. -/
def buffered (buffer : ℕ → Word) : Flash := fun a => buffer (a % 1024)

/-- The FAT sector that is erased lies in the range or was erased; if the record stops before
its count or its shift, what is written back to the range from the dump was there or is
erased; and if nothing is written back, the rest of the sector was erased. -/
def Recoverable (d : Device) (flash : Flash) (buffer : ℕ → Word) (startSector count k : ℕ) :
    Prop :=
  ((startSector ≤ d.stateSector ∧ d.stateSector < startSector + count) ∨
    Erased flash d.stateSector) ∧
  (k = 1028 ∨ k = 1029 ∧ startSector % sizeFactor ≠ 0 →
    ∀ sector, startSector ≤ sector → sector < startSector + count → sector ≠ d.stateSector →
      Same flash (buffered buffer) sector ∨ Erased (buffered buffer) sector) ∧
  (k = 1029 ∧ startSector % sizeFactor = 0 →
    ∀ sector, sector / sizeFactor = startSector / sizeFactor →
      ¬ (startSector ≤ sector ∧ sector < startSector + count) → Erased flash sector)

lemma same_congr {flash₁ flash₂ : Flash} {sector : ℕ}
    (h : ∀ j < 128, flash₁ (128 * sector + j) = flash₂ (128 * sector + j)) :
    Same flash flash₁ sector ↔ Same flash flash₂ sector := by
  constructor
  · exact fun hs j hj => (h j hj).symm.trans (hs j hj)
  · exact fun hs j hj => (h j hj).trans (hs j hj)

lemma erased_congr {flash₁ flash₂ : Flash} {sector : ℕ}
    (h : ∀ j < 128, flash₁ (128 * sector + j) = flash₂ (128 * sector + j)) :
    Erased flash₁ sector ↔ Erased flash₂ sector := by
  constructor
  · exact fun hs j hj => (h j hj).symm.trans (hs j hj)
  · exact fun hs j hj => (h j hj).trans (hs j hj)

/-- The FAT sectors are safe if the one that is erased may be, and the others are safe in the
restored sector. -/
lemma safe_iff {startSector : ℕ} {final : Flash} (rest : Flash)
    (hfinal : ∀ a, a / 1024 < d.stateSector →
      final a = if a / 128 = d.stateSector then erased else rest a) :
    d.Safe startSector count flash final ↔
      ((startSector ≤ d.stateSector ∧ d.stateSector < startSector + count) ∨
        Erased flash d.stateSector) ∧
      ∀ sector < sizeFactor * d.stateSector, sector ≠ d.stateSector →
        if startSector ≤ sector ∧ sector < startSector + count then
          Same flash rest sector ∨ Erased rest sector
        else Same flash rest sector := by
  have htwo := d.two_lt
  have hlost (j : ℕ) (hj : j < 128) : final (128 * d.stateSector + j) = erased := by
    rw [hfinal _ (by rw [stateSector] at *; omega), if_pos (by omega)]
  have hother (sector : ℕ) (hsector : sector < sizeFactor * d.stateSector)
      (hne : sector ≠ d.stateSector) (j : ℕ) (hj : j < 128) :
      final (128 * sector + j) = rest (128 * sector + j) := by
    rw [sizeFactor] at hsector
    rw [hfinal _ (by omega), if_neg (by omega)]
  have hmem : d.stateSector < sizeFactor * d.stateSector := by
    rw [stateSector, sizeFactor]
    omega
  constructor
  · intro h
    refine ⟨?_, fun sector hsector hne => ?_⟩
    · have hsafe := h d.stateSector hmem
      split at hsafe
      · next hin => exact .inl hin
      · exact .inr fun j hj => (hsafe j hj).symm.trans (hlost j hj)
    · have hsafe := h sector hsector
      rw [same_congr (hother sector hsector hne), erased_congr (hother sector hsector hne)] at hsafe
      exact hsafe
  · rintro ⟨hstate, hrest⟩ sector hsector
    by_cases hne : sector = d.stateSector
    · subst hne
      split
      · exact .inr hlost
      · next hout =>
        exact fun j hj => (hlost j hj).trans ((hstate.resolve_left hout) j hj).symm
    · rw [same_congr (hother sector hsector hne), erased_congr (hother sector hsector hne)]
      exact hrest sector hsector hne

/-- In the sector at hand, the FAT sectors of the range are those that are not kept. -/
lemma keeps_iff {startSector sector : ℕ} (hcount : count ≤ sizeFactor - startSector % sizeFactor)
    (hbase : sector / sizeFactor = startSector / sizeFactor) :
    keeps (startSector % sizeFactor) count (sector % sizeFactor) = false ↔
      startSector ≤ sector ∧ sector < startSector + count := by
  have hmod := Nat.mod_lt startSector (show 0 < sizeFactor by decide)
  simp only [sizeFactor] at *
  rw [keeps_eq_false (by omega)]
  omega

/-- The words of a FAT sector in the sector at hand after it was restored. -/
lemma restored_apply {startSector k sector j : ℕ} (hk : 1026 < k)
    (hcount : count ≤ sizeFactor - startSector % sizeFactor) (hj : j < 128)
    (hbase : sector / sizeFactor = startSector / sizeFactor) :
    restored flash (startSector / sizeFactor) (startSector % sizeFactor) count
      (readBack flash (startSector / sizeFactor) (startSector % sizeFactor) count buffer) k
        (128 * sector + j) =
      if k = 1029 ∧ startSector % sizeFactor = 0 then erased
      else if k ≠ 1027 ∧ startSector ≤ sector ∧ sector < startSector + count then
        if k ≤ 1029 then buffer ((128 * sector + j) % 1024) else erased
      else flash (128 * sector + j) := by
  have hsector : (128 * sector + j) / 1024 = startSector / sizeFactor := by
    rw [← hbase, sizeFactor]
    omega
  have hslot : (128 * sector + j) % 1024 / 128 = sector % sizeFactor := by
    rw [sizeFactor]
    omega
  have haddr : 1024 * (startSector / sizeFactor) + (128 * sector + j) % 1024 = 128 * sector + j := by
    omega
  have hrange := keeps_iff hcount hbase
  simp only [restored, readBack, hsector, hslot, haddr, true_and]
  cases hkeeps : keeps (startSector % sizeFactor) count (sector % sizeFactor) with
  | false =>
    have hin := hrange.mp hkeeps
    generalize startSector % sizeFactor = shift
    simp only [Bool.false_eq_true, if_false, hin, and_true]
    split_ifs <;> first | rfl | omega
  | true =>
    have hout : ¬ (startSector ≤ sector ∧ sector < startSector + count) := by
      rw [← hrange, hkeeps]
      decide
    generalize startSector % sizeFactor = shift
    simp only [if_true, hout, and_false, if_false]
    split_ifs <;> first | rfl | omega

/-- After words of the record were written, an uninterrupted recovery leaves the FAT sectors
safe exactly if it can. -/
lemma safe_within_iff {startSector k : ℕ} (hbase : startSector / sizeFactor < d.stateSector)
    (hcount : count ≤ sizeFactor - startSector % sizeFactor) (hk : 1026 < k)
    (hlt : k < (d.eraseSectorFit flash buffer startSector count).length) :
    d.Safe startSector count flash
        (d.recovered (replay flash ((d.eraseSectorFit flash buffer startSector count).take k)) []) ↔
      d.Recoverable flash buffer startSector count k := by
  obtain ⟨rest, hdef⟩ : ∃ rest, rest = restored flash (startSector / sizeFactor)
      (startSector % sizeFactor) count (readBack flash (startSector / sizeFactor)
        (startSector % sizeFactor) count buffer) k := ⟨_, rfl⟩
  rw [safe_iff rest fun a ha => by rw [hdef]; exact recovered_within hbase hcount hk hlt ha,
    Recoverable]
  refine and_congr_right fun hstate => ?_
  have hmod := Nat.mod_lt startSector (show 0 < sizeFactor by decide)
  -- the range lies in one sector
  have hrange (sector : ℕ) (hin : startSector ≤ sector ∧ sector < startSector + count) :
      sector / sizeFactor = startSector / sizeFactor := by
    simp only [sizeFactor] at *
    omega
  have hdata (sector : ℕ) (hsector : sector / sizeFactor = startSector / sizeFactor) :
      sector < sizeFactor * d.stateSector := by
    simp only [sizeFactor] at *
    omega
  have hbuffer (sector : ℕ) (hin : startSector ≤ sector ∧ sector < startSector + count)
      (hstale : k = 1028 ∨ k = 1029 ∧ startSector % sizeFactor ≠ 0) (j : ℕ) (hj : j < 128) :
      rest (128 * sector + j) = buffered buffer (128 * sector + j) := by
    rw [buffered, hdef, restored_apply hk hcount hj (hrange sector hin), if_neg (by omega),
      if_pos ⟨by omega, hin⟩, if_pos (by omega)]
  constructor
  · intro h
    constructor
    · rintro hstale sector h1 h2 hne
      have hsafe := h sector (hdata _ (hrange sector ⟨h1, h2⟩)) hne
      rw [if_pos ⟨h1, h2⟩, same_congr (hbuffer sector ⟨h1, h2⟩ hstale),
        erased_congr (hbuffer sector ⟨h1, h2⟩ hstale)] at hsafe
      exact hsafe
    · rintro hempty sector hsector hout
      by_cases hne : sector = d.stateSector
      · subst hne
        exact hstate.resolve_left hout
      · have hsafe := h sector (hdata _ hsector) hne
        rw [if_neg hout] at hsafe
        intro j hj
        rw [← hsafe j hj, hdef, restored_apply hk hcount hj hsector, if_pos hempty]
  · rintro ⟨hstale, hempty⟩ sector - hne
    by_cases hsector : sector / sizeFactor = startSector / sizeFactor
    · by_cases hnone : k = 1029 ∧ startSector % sizeFactor = 0
      · -- nothing is written back
        have herased : Erased rest sector := by
          intro j hj
          rw [hdef, restored_apply hk hcount hj hsector, if_pos hnone]
        split
        · exact .inr herased
        · next hout =>
          exact fun j hj => (herased j hj).trans (hempty hnone sector hsector hout j hj).symm
      · split
        · next hin =>
          by_cases hold : k = 1028 ∨ k = 1029 ∧ startSector % sizeFactor ≠ 0
          · rw [same_congr (hbuffer sector hin hold), erased_congr (hbuffer sector hin hold)]
            exact hstale hold sector hin.1 hin.2 hne
          · by_cases hfirst : k = 1027
            · refine .inl fun j hj => ?_
              rw [hdef, restored_apply hk hcount hj hsector, if_neg hnone,
                if_neg fun h => h.1 hfirst]
            · refine .inr fun j hj => ?_
              rw [hdef, restored_apply hk hcount hj hsector, if_neg hnone, if_pos ⟨hfirst, hin⟩,
                if_neg (by omega)]
        · next hout =>
          intro j hj
          rw [hdef, restored_apply hk hcount hj hsector, if_neg hnone, if_neg fun h => hout h.2]
    · rw [if_neg fun hin => hsector (hrange sector hin)]
      intro j hj
      rw [hdef, restored, if_neg]
      rintro ⟨heq, -⟩
      refine hsector (Eq.trans ?_ heq)
      rw [sizeFactor]
      omega

/-- If the power is lost before the record is begun or after it was erased, the FAT sectors are
safe, however often the power is lost afterwards.  In between, they are safe after a recovery
that is not interrupted exactly if the recovery can be. -/
theorem power_loss_safe (d : Device) (flash : Flash) (buffer : ℕ → Word) (startSector count k : ℕ)
    (hbase : startSector / sizeFactor < d.stateSector)
    (hcount : count ≤ sizeFactor - startSector % sizeFactor)
    (hclean : flash (1024 * d.stateSector) ≠ wlExtSafeOk) :
    ((k ≤ 1026 ∨ (d.eraseSectorFit flash buffer startSector count).length ≤ k) →
      ∀ cuts, d.Safe startSector count flash (d.recovered
        (replay flash ((d.eraseSectorFit flash buffer startSector count).take k)) cuts)) ∧
    (1026 < k → k < (d.eraseSectorFit flash buffer startSector count).length →
      (d.Safe startSector count flash (d.recovered
          (replay flash ((d.eraseSectorFit flash buffer startSector count).take k)) []) ↔
        d.Recoverable flash buffer startSector count k)) := by
  refine ⟨fun hk cuts => ?_, safe_within_iff hbase hcount⟩
  have herased : erased ≠ wlExtSafeOk := by decide
  rcases hk with hk | hk
  · -- the FAT sectors have not been touched
    obtain ⟨hdata, hstate⟩ := replay_take_before (d := d) flash buffer count hk
    rw [recovered_of_ne (by
      rcases hstate with h | h
      · rwa [h]
      · rwa [h])]
    rintro sector hsector
    have hsame : Same flash
        (replay flash ((d.eraseSectorFit flash buffer startSector count).take k)) sector := by
      intro j hj
      rw [sizeFactor] at hsector
      exact hdata _ (by omega)
    split
    · exact .inl hsame
    · exact hsame
  · -- the call has been completed
    obtain ⟨hdata, hstate⟩ := replay_eraseSectorFit (d := d) flash buffer count hbase
    rw [List.take_of_length_le hk, recovered_of_ne (by rwa [hstate])]
    rintro sector hsector
    have hword (j : ℕ) (hj : j < 128) := hdata (128 * sector + j) (by
      rw [sizeFactor] at hsector
      omega)
    have hslot (j : ℕ) (hj : j < 128) : (128 * sector + j) / 1024 = sector / sizeFactor ∧
        (128 * sector + j) % 1024 / 128 = sector % sizeFactor := by
      rw [sizeFactor]
      omega
    split
    · next hin =>
      have hsame : sector / sizeFactor = startSector / sizeFactor := by
        have hmod := Nat.mod_lt startSector (show 0 < sizeFactor by decide)
        simp only [sizeFactor] at *
        omega
      refine .inr fun j hj => ?_
      rw [hword j hj, (hslot j hj).1, (hslot j hj).2,
        if_pos ⟨hsame, (keeps_iff hcount hsame).mpr hin⟩]
    · next hout =>
      intro j hj
      rw [hword j hj, (hslot j hj).1, (hslot j hj).2, if_neg]
      rintro ⟨hsame, hkeeps⟩
      exact hout ((keeps_iff hcount hsame).mp hkeeps)

/-- One FAT sector of an erased flash with four sectors. -/
theorem power_loss_safe_example :
    (Device.mk 4 (by decide) (by decide)).Safe 8 1 (fun _ => erased)
      ((Device.mk 4 (by decide) (by decide)).recovered
        (replay (fun _ => erased)
          (((Device.mk 4 (by decide) (by decide)).eraseSectorFit (fun _ => erased)
            (fun _ => 0) 8 1).take 1000)) [3, 5]) :=
  (power_loss_safe _ _ _ 8 1 1000 (by decide) (by decide) (by decide)).1 (.inl (by decide)) _

/-- The power is lost when the record is complete.  FAT sector 2, which has the number of the
state sector and is not near the range, is erased. -/
theorem power_loss_not_safe :
    (fun a => if a = 256 then 0 else erased : Flash) (1024 * 2) ≠ wlExtSafeOk ∧
    ¬ (Device.mk 4 (by decide) (by decide)).Safe 8 1 (fun a => if a = 256 then 0 else erased)
      ((Device.mk 4 (by decide) (by decide)).recovered
        (replay (fun a => if a = 256 then 0 else erased)
          (((Device.mk 4 (by decide) (by decide)).eraseSectorFit
            (fun a => if a = 256 then 0 else erased) (fun _ => 0) 8 1).take 1030)) []) := by
  refine ⟨by decide, fun h => ?_⟩
  rw [safe_within_iff (by decide) (by decide) (by decide) length_eraseSectorFit_gt]
    at h
  rcases h.1 with hin | herased
  · exact absurd hin (by decide)
  · exact absurd (herased 0 (by decide)) (by decide)

end Device

end EspIdf.WearLevelling.Ext
