/-
# Coding and burning

The coding scheme of a block restricts what may be written to it.  With 3/4 coding a group of
six bytes can be written once; with repetition the second half of the block holds a copy of the
first.  Registers that satisfy the restrictions are burned as they are, apart from the copies.
-/
import EspIdf.Efuse.Registers

namespace EspIdf.Efuse

variable {scheme : CodingScheme} {r w w' out : Block} {rs ws ws' : Regs} {e : Chip}

/-- The bytes of a group are zero. -/
def GroupZero (b : Block) (g : ℕ) : Prop := ∀ n < 6, byteAt b (6 * g + n) = 0

/-- The block may be written when it reads `r`. -/
def FitsBlock (scheme : CodingScheme) (r w : Block) : Prop :=
  match scheme with
  | .none => True
  | .threeQuarters => w 6 = 0 ∧ w 7 = 0 ∧ ∀ g < 4, GroupZero w g ∨ GroupZero r g
  | .repetition => ∀ i < 4, w (i + 4) = 0

/-- What the block reads after it has been burned, if it was empty. -/
def codedBlock (scheme : CodingScheme) (w : Block) : Block := fun i =>
  if scheme = .repetition ∧ 4 ≤ i ∧ i < 8 then w (i - 4) else w i

/-! ### Bytes and words -/

lemma extractLsb'_wordAt (f : ℕ → BitVec 8) (n : ℕ) :
    (wordAt f (n / 4)).extractLsb' (8 * (n % 4)) 8 = f n := by
  have hn : n = 4 * (n / 4) + n % 4 := by omega
  have hlt : n % 4 < 4 := Nat.mod_lt _ (by omega)
  generalize n / 4 = k at *
  generalize n % 4 = j at *
  subst hn
  refine BitVec.eq_of_getLsbD_eq fun i hi => ?_
  rw [BitVec.getLsbD_extractLsb', wordAt, BitVec.getLsbD_append, BitVec.getLsbD_append,
    BitVec.getLsbD_append, decide_eq_true hi, Bool.true_and]
  obtain rfl | rfl | rfl | rfl : j = 0 ∨ j = 1 ∨ j = 2 ∨ j = 3 := by omega
  · rw [if_pos (by omega)]
    congr 1
    omega
  · rw [if_neg (by omega), if_pos (by omega)]
    congr 1
    omega
  · rw [if_neg (by omega), if_neg (by omega), if_pos (by omega)]
    congr 1
    omega
  · rw [if_neg (by omega), if_neg (by omega), if_neg (by omega)]
    congr 1
    omega

lemma wordAt_byteAt (b : Block) (k : ℕ) : wordAt (byteAt b) k = b k := by
  refine BitVec.eq_of_getLsbD_eq fun i hi => ?_
  have hbyte : ∀ j < 4, 8 * j ≤ i → i < 8 * j + 8 →
      (byteAt b (4 * k + j)).getLsbD (i - 8 * j) = (b k).getLsbD i := by
    intro j hj hle hlt
    rw [byteAt, BitVec.getLsbD_extractLsb', decide_eq_true (by omega), Bool.true_and]
    rw [show (4 * k + j) / 4 = k by omega, show (4 * k + j) % 4 = j by omega,
      Nat.add_sub_cancel' hle]
  rw [wordAt, BitVec.getLsbD_append, BitVec.getLsbD_append, BitVec.getLsbD_append]
  split
  · next h => exact hbyte 0 (by omega) (by omega) h
  · split
    · next h => exact hbyte 1 (by omega) (by omega) (by omega)
    · split
      · next h =>
        rw [Nat.sub_sub]
        exact hbyte 2 (by omega) (by omega) (by omega)
      · rw [Nat.sub_sub, Nat.sub_sub]
        exact hbyte 3 (by omega) (by omega) (by omega)

/-- A word with fewer bits has bytes with fewer bits. -/
lemma byteAt_eq_zero (h : ∀ i n, (w i).getLsbD n = true → (w' i).getLsbD n = true) {n : ℕ}
    (hn : byteAt w' n = 0) : byteAt w n = 0 := by
  refine BitVec.eq_of_getLsbD_eq fun i hi => ?_
  have hbit := congrArg (fun v => v.getLsbD i) hn
  simp only [byteAt, BitVec.getLsbD_extractLsb', decide_eq_true hi, Bool.true_and] at hbit ⊢
  cases hw : (w (n / 4)).getLsbD (8 * (n % 4) + i) with
  | false => simp
  | true =>
    rw [h _ _ hw] at hbit
    exact hbit

/-! ### The loop over the bytes -/

/-- From byte `i` on, the group has something to write. -/
def Wanted (w : Block) (i g : ℕ) : Prop := ∃ n < 6, i ≤ 6 * g + n ∧ byteAt w (6 * g + n) ≠ 0

lemma wanted_zero {g : ℕ} : ¬ Wanted w 0 g ↔ GroupZero w g := by
  simp [Wanted, GroupZero]

lemma not_wanted_of_le {i g : ℕ} (hi : 24 ≤ i) (hg : g < 4) : ¬ Wanted w i g := by
  rintro ⟨n, hn, hle, _⟩
  omega

lemma wanted_succ {i g : ℕ} (h : byteAt w i = 0) : Wanted w i g ↔ Wanted w (i + 1) g := by
  constructor
  · rintro ⟨n, hn, hle, hne⟩
    refine ⟨n, hn, Nat.lt_of_le_of_ne hle fun heq => ?_, hne⟩
    exact hne (heq ▸ h)
  · rintro ⟨n, hn, hle, hne⟩
    exact ⟨n, hn, by omega, hne⟩

lemma wanted_next {i g : ℕ} (h : byteAt w i ≠ 0) :
    Wanted w i g ↔ g = i / 6 ∨ Wanted w (i / 6 * 6 + 6) g := by
  constructor
  · rintro ⟨n, hn, hle, hne⟩
    by_cases hg : g = i / 6
    · exact .inl hg
    · exact .inr ⟨n, hn, by omega, hne⟩
  · rintro (rfl | ⟨n, hn, hle, hne⟩)
    · have hi : 6 * (i / 6) + i % 6 = i := by omega
      exact ⟨i % 6, Nat.mod_lt _ (by omega), by omega, by rwa [hi]⟩
    · exact ⟨n, hn, by omega, hne⟩

lemma all_group_iff {g : ℕ} :
    ((List.range 6).all fun n => byteAt r (g * 6 + n) = 0) = true ↔ GroupZero r g := by
  simp [GroupZero, Nat.mul_comm g]

/-- The loop succeeds if the groups it has to write are free. -/
lemma code34Loop_ok : ∀ {fuel i : ℕ} {out : Block}, 24 ≤ i + fuel →
    ((code34Loop r w fuel i out).1 = .ok ↔ ∀ g < 4, Wanted w i g → GroupZero r g) := by
  intro fuel
  induction fuel with
  | zero =>
    intro i out hfuel
    exact ⟨fun _ g hg hw => absurd hw (not_wanted_of_le hfuel hg), fun _ => rfl⟩
  | succ fuel ih =>
    intro i out hfuel
    rw [code34Loop]
    by_cases hi : i < 24
    · rw [if_pos hi]
      by_cases hbyte : byteAt w i = 0
      · rw [if_neg (not_not.mpr hbyte), ih (by omega)]
        simp only [wanted_succ hbyte]
      · rw [if_pos hbyte]
        by_cases hfree : GroupZero r (i / 6)
        · simp only [if_pos (all_group_iff.mpr hfree)]
          rw [ih (by omega)]
          constructor
          · intro h g hg hw
            rcases (wanted_next hbyte).mp hw with rfl | hw
            · exact hfree
            · exact h g hg hw
          · intro h g hg hw
            exact h g hg ((wanted_next hbyte).mpr (.inr hw))
        · simp only [if_neg fun h => hfree (all_group_iff.mp h)]
          refine ⟨fun h => EspErr.noConfusion h, fun h => ?_⟩
          exact absurd (h (i / 6) (by omega) ((wanted_next hbyte).mpr (.inl rfl))) hfree
    · rw [if_neg hi]
      exact ⟨fun _ g hg hw => absurd hw (not_wanted_of_le (by omega) hg), fun _ => rfl⟩

/-- The loop writes the code words of the groups it has to write. -/
lemma code34Loop_out : ∀ {fuel i : ℕ} {out : Block} {k : ℕ}, 24 ≤ i + fuel →
    (code34Loop r w fuel i out).1 = .ok → k < 8 →
    (Wanted w i (k / 2) → (code34Loop r w fuel i out).2 k =
      wordAt (apply34Encoding fun n => byteAt w (k / 2 * 6 + n)) (k % 2)) ∧
    (¬ Wanted w i (k / 2) → (code34Loop r w fuel i out).2 k = out k) := by
  intro fuel
  induction fuel with
  | zero =>
    intro i out k hfuel _ hk
    exact ⟨fun hw => absurd hw (not_wanted_of_le hfuel (by omega)), fun _ => rfl⟩
  | succ fuel ih =>
    intro i out k hfuel hok hk
    rw [code34Loop] at hok ⊢
    by_cases hi : i < 24
    · rw [if_pos hi] at hok ⊢
      by_cases hbyte : byteAt w i = 0
      · rw [if_neg (not_not.mpr hbyte)] at hok ⊢
        rw [wanted_succ hbyte]
        exact ih (by omega) hok hk
      · rw [if_pos hbyte] at hok ⊢
        by_cases hfree : GroupZero r (i / 6)
        · simp only [if_pos (all_group_iff.mpr hfree)] at hok ⊢
          obtain ⟨hcode, hkeep⟩ := ih (by omega) hok hk
          rw [wanted_next hbyte]
          have hnum : i / 6 * 6 / 6 * 2 = i / 6 * 2 := by omega
          by_cases hnext : Wanted w (i / 6 * 6 + 6) (k / 2)
          · exact ⟨fun _ => hcode hnext, fun h => absurd (.inr hnext) h⟩
          · rw [hkeep hnext, hnum]
            refine ⟨fun h => ?_, fun h => ?_⟩
            · -- the two words of this group
              have hg : k / 2 = i / 6 := h.resolve_right hnext
              rw [hg]
              rcases Nat.mod_two_eq_zero_or_one k with hmod | hmod
              · rw [show k = i / 6 * 2 by omega, Function.update_of_ne (by omega),
                  Function.update_self, show i / 6 * 2 % 2 = 0 by omega]
              · rw [show k = i / 6 * 2 + 1 by omega, Function.update_self,
                  show (i / 6 * 2 + 1) % 2 = 1 by omega]
            · have hg : k / 2 ≠ i / 6 := fun hg => h (.inl hg)
              rw [Function.update_of_ne (by omega), Function.update_of_ne (by omega)]
        · simp only [if_neg fun h => hfree (all_group_iff.mp h)] at hok
          exact EspErr.noConfusion hok
    · rw [if_neg hi] at hok ⊢
      exact ⟨fun hw => absurd hw (not_wanted_of_le (by omega) (by omega)), fun _ => rfl⟩

/-! ### One block -/

lemma wordAt_congr {f g : ℕ → BitVec 8} {k : ℕ} (h : ∀ n, n / 4 = k → f n = g n) :
    wordAt f k = wordAt g k := by
  rw [wordAt, wordAt, h _ (by omega), h _ (by omega), h _ (by omega), h (4 * k) (by omega)]

lemma byteAt_of_word_eq_zero {n : ℕ} (h : w (n / 4) = 0) : byteAt w n = 0 := by
  rw [byteAt, h]
  exact BitVec.extractLsb'_zero

/-- A group is written as its six bytes, and the burned block has them at their places. -/
lemma decode_code34 (hok : (code34Loop r w 24 0 out).1 = .ok) (hout : ∀ k < 8, out k = 0)
    (h6 : w 6 = 0) (h7 : w 7 = 0) {k : ℕ} (hk : k < 8) :
    decodeBlock .threeQuarters (code34Loop r w 24 0 out).2 k = w k := by
  rw [decodeBlock, if_pos rfl, ← wordAt_byteAt w k]
  refine wordAt_congr fun n hn => ?_
  by_cases hlt : n < 24
  · rw [if_pos hlt]
    have hword : (n / 6 * 8 + n % 6) / 4 = 2 * (n / 6) + n % 6 / 4 := by omega
    have hgroup : (2 * (n / 6) + n % 6 / 4) / 2 = n / 6 := by omega
    obtain ⟨hcode, hkeep⟩ := code34Loop_out (k := 2 * (n / 6) + n % 6 / 4) (by omega) hok
      (by omega)
    rw [hgroup] at hcode hkeep
    rw [byteAt, hword]
    by_cases hw : Wanted w 0 (n / 6)
    · rw [hcode hw, show (2 * (n / 6) + n % 6 / 4) % 2 = n % 6 / 4 by omega,
        show (n / 6 * 8 + n % 6) % 4 = n % 6 % 4 by omega, extractLsb'_wordAt, apply34Encoding,
        if_pos (Nat.mod_lt _ (by omega)), show n / 6 * 6 + n % 6 = n by omega]
    · have hzero := wanted_zero.mp hw (n % 6) (Nat.mod_lt _ (by omega))
      rw [show 6 * (n / 6) + n % 6 = n by omega] at hzero
      rw [hkeep hw, hout _ (by omega), hzero]
      exact BitVec.extractLsb'_zero
  · rw [if_neg hlt]
    refine (byteAt_of_word_eq_zero ?_).symm
    obtain h | h : n / 4 = 6 ∨ n / 4 = 7 := by omega
    · rw [h, h6]
    · rw [h, h7]

lemma codeBlock_ok : (codeBlock scheme r w).1 = .ok ↔ FitsBlock scheme r w := by
  rw [codeBlock.eq_def]
  split
  · next hzero =>
    have hw : ∀ i < 8, w i = 0 := by simpa using hzero
    refine ⟨fun _ => ?_, fun _ => rfl⟩
    cases scheme with
    | none => trivial
    | threeQuarters =>
      refine ⟨hw 6 (by omega), hw 7 (by omega), fun g hg => .inl fun n hn => ?_⟩
      exact byteAt_of_word_eq_zero (hw _ (by omega))
    | repetition => exact fun i hi => hw _ (by omega)
  · cases scheme with
    | none => exact ⟨fun _ => trivial, fun _ => rfl⟩
    | threeQuarters =>
      simp only [FitsBlock]
      by_cases h67 : w 6 ≠ 0 ∨ w 7 ≠ 0
      · rw [if_pos h67]
        refine ⟨fun h => EspErr.noConfusion h, fun h => ?_⟩
        exact absurd h67 (by simp [h.1, h.2.1])
      · rw [if_neg h67, code34Loop_ok (by omega)]
        rw [not_or, not_not, not_not] at h67
        refine ⟨fun h => ⟨h67.1, h67.2, fun g hg => ?_⟩, fun h g hg hw => ?_⟩
        · by_cases hw : Wanted w 0 g
          · exact .inr (h g hg hw)
          · exact .inl (wanted_zero.mp hw)
        · exact (h.2.2 g hg).resolve_left fun hzero => wanted_zero.mpr hzero hw
    | repetition =>
      simp only [FitsBlock]
      by_cases hhigh : (List.range 4).all (fun i => w (i + 4) = 0) = true
      · rw [if_pos hhigh]
        exact ⟨fun _ => by simpa using hhigh, fun _ => rfl⟩
      · rw [if_neg hhigh]
        exact ⟨fun h => EspErr.noConfusion h, fun h => absurd (by simpa using h) hhigh⟩

/-- A block that fits is burned as it is, apart from the copies. -/
lemma decode_codeBlock (h : FitsBlock scheme r w) {k : ℕ} (hk : k < 8) :
    decodeBlock scheme (codeBlock scheme r w).2 k = codedBlock scheme w k := by
  have hok := codeBlock_ok.mpr h
  rw [codeBlock.eq_def] at hok ⊢
  by_cases hzero : (List.range 8).all (fun i => w i = 0) = true
  · have hw : ∀ i < 8, w i = 0 := by simpa using hzero
    have hcoded : codedBlock scheme w k = 0 := by
      rw [codedBlock, hw k hk]
      split
      · exact hw _ (by omega)
      · rfl
    rw [if_pos hzero, hcoded, decodeBlock]
    split
    · rw [← hw k hk, ← wordAt_byteAt w k]
      refine wordAt_congr fun n hn => ?_
      rw [byteAt_of_word_eq_zero (hw (n / 4) (by omega))]
      split
      · exact byteAt_of_word_eq_zero (hw _ (by omega))
      · rfl
    · exact hw k hk
  · rw [if_neg hzero] at hok ⊢
    cases scheme with
    | none => rfl
    | threeQuarters =>
      have h67 : ¬ (w 6 ≠ 0 ∨ w 7 ≠ 0) := by simp [h.1, h.2.1]
      simp only [if_neg h67] at hok ⊢
      exact decode_code34 hok (fun k hk => if_pos hk) h.1 h.2.1 hk
    | repetition =>
      have hhigh : (List.range 4).all (fun i => w (i + 4) = 0) = true := by
        simpa [FitsBlock] using h
      simp only [if_pos hhigh, decodeBlock, codedBlock]
      rw [if_neg (by simp)]
      by_cases h4 : k < 4
      · rw [if_pos h4, if_neg fun h => Nat.not_le_of_lt h4 h.2.1]
      · rw [if_neg h4, if_pos hk, if_pos ⟨trivial, Nat.le_of_not_lt h4, hk⟩]

/-! ### All blocks -/

/-- The program registers may be coded and burned over `rs`. -/
def Fits (rdata6 : BitVec 32) (rs ws : Regs) : Prop :=
  ∀ blk, 1 ≤ blk → blk < 4 → FitsBlock (getCodingScheme rdata6 blk) (rs blk) (ws blk)

/-- What the blocks read after burning the program registers. -/
def burned (rdata6 : BitVec 32) (rs ws : Regs) : Regs := fun blk numReg =>
  if RegExists blk numReg then
    rs blk numReg ||| codedBlock (getCodingScheme rdata6 blk) (ws blk) numReg
  else rs blk numReg

lemma codeBlocks_eq : ∀ {n blk : ℕ} {ws : Regs},
    ((codeBlocks e n blk ws).1 = .ok ↔ ∀ b, blk ≤ b → b < blk + n →
      FitsBlock (getCodingScheme e.rdata6 b) (e.virtBlocks b) (ws b)) ∧
    ((codeBlocks e n blk ws).1 = .ok → ∀ b, (codeBlocks e n blk ws).2 b =
      if blk ≤ b ∧ b < blk + n then
        (codeBlock (getCodingScheme e.rdata6 b) (e.virtBlocks b) (ws b)).2 else ws b) := by
  intro n
  induction n with
  | zero =>
    intro blk ws
    refine ⟨⟨fun _ b h h' => absurd h' (by omega), fun _ => rfl⟩, fun _ b => ?_⟩
    rw [if_neg (by omega)]
    rfl
  | succ n ih =>
    intro blk ws
    rw [codeBlocks]
    by_cases hok : (codeBlock (getCodingScheme e.rdata6 blk) (e.virtBlocks blk) (ws blk)).1 = .ok
    · simp only [if_pos hok]
      obtain ⟨hfits, hblocks⟩ := @ih (blk + 1) (Function.update ws blk
        (codeBlock (getCodingScheme e.rdata6 blk) (e.virtBlocks blk) (ws blk)).2)
      refine ⟨?_, fun h b => ?_⟩
      · rw [hfits]
        constructor
        · intro h b hle hlt
          rcases Nat.eq_or_lt_of_le hle with rfl | hgt
          · exact codeBlock_ok.mp hok
          · have hb := h b hgt (by omega)
            rwa [Function.update_of_ne (by omega)] at hb
        · intro h b hle hlt
          rw [Function.update_of_ne (by omega)]
          exact h b (by omega) (by omega)
      · rw [hblocks h b]
        by_cases hb : b = blk
        · subst hb
          rw [if_neg (by omega), if_pos (by omega), Function.update_self]
        · rw [Function.update_of_ne hb]
          split_ifs <;> first | rfl | omega
    · simp only [if_neg hok]
      refine ⟨⟨fun h => absurd h hok, fun h => ?_⟩, fun h => absurd h hok⟩
      exact absurd (codeBlock_ok.mpr (h blk (Nat.le_refl _) (by omega))) hok

lemma applyNewCodingScheme_ok (e : Chip) :
    (applyNewCodingScheme e).1 = .ok ↔ Fits e.rdata6 e.virtBlocks e.wdata :=
  codeBlocks_eq.1

/-- The block 0 is never coded. -/
lemma getCodingScheme_zero (rdata6 : BitVec 32) : getCodingScheme rdata6 0 = .none := if_pos rfl

/-- Coding and burning succeeds if the program registers fit, and then burns them. -/
theorem codeAndBurn_eq (e : Chip) :
    ((codeAndBurn e).1 = .ok ↔ Fits e.rdata6 e.virtBlocks e.wdata) ∧
    (Fits e.rdata6 e.virtBlocks e.wdata → (codeAndBurn e).2 =
      Chip.reset { e with virtBlocks := burned e.rdata6 e.virtBlocks e.wdata }) ∧
    (codeAndBurn e).2.batchMode = e.batchMode := by
  have hok := applyNewCodingScheme_ok e
  rw [codeAndBurn]
  by_cases hfits : Fits e.rdata6 e.virtBlocks e.wdata
  · rw [if_pos (hok.mpr hfits)]
    refine ⟨⟨fun _ => hfits, fun _ => rfl⟩, fun _ => ?_, rfl⟩
    have hblocks := codeBlocks_eq.2 (hok.mpr hfits)
    have hburned : ∀ blk numReg, RegExists blk numReg →
        decodeBlock (getCodingScheme e.rdata6 blk) ((applyNewCodingScheme e).2.wdata blk) numReg =
          codedBlock (getCodingScheme e.rdata6 blk) (e.wdata blk) numReg := by
      rintro blk numReg ⟨hblk, hreg⟩
      have hwdata : (applyNewCodingScheme e).2.wdata blk = _ := hblocks blk
      rw [hwdata]
      by_cases hzero : blk = 0
      · subst hzero
        rw [if_neg (by omega), getCodingScheme_zero]
        rfl
      · rw [if_pos ⟨by omega, hblk⟩]
        rw [maxNumReg, if_neg hzero] at hreg
        exact decode_codeBlock (hfits blk (by omega) hblk) (by omega)
    have hvirt : (burnEfuses (applyNewCodingScheme e).2).virtBlocks =
        burned e.rdata6 e.virtBlocks e.wdata := by
      funext blk numReg
      simp only [burnEfuses, Chip.reset, burned]
      split
      · next hex => exact congrArg _ (hburned blk numReg hex)
      · rfl
    rw [← hvirt]
    rfl
  · rw [if_neg fun h => hfits (hok.mp h)]
    exact ⟨hok, fun h => absurd h hfits, rfl⟩

end EspIdf.Efuse
