/-
# A field counts what is added to it

A field can be used as a counter: its value is the number of its programmed bits, and adding to
it programs the first free ones.  Where there are not enough of these nothing is programmed.
-/
import EspIdf.Efuse.RoundTrip

namespace EspIdf.Efuse

open OneTime

variable {r w : Regs} {s s' : Progress} {ps : List Piece} {x : Pos} {req : ℕ}
  {rdata6 : BitVec 32} {field : List Desc} {e : Chip}

/-- The bits of the descriptor are in registers that exist. -/
def Desc.Exists (d : Desc) : Prop :=
  d.efuseBlock < blkMax ∧ d.bitStart + d.bitCount ≤ 32 * (maxNumReg d.efuseBlock + 1)

instance (d : Desc) : Decidable d.Exists := inferInstanceAs (Decidable (_ ∧ _))

/-- The number of bits of a field that are programmed. -/
def programmedBits (r : Regs) (field : List Desc) : ℕ :=
  ((field.flatMap Desc.bits).filter r.has).length

/-- The number of bits of a field that are not. -/
def freeBits (r : Regs) (field : List Desc) : ℕ := (free r.has (field.flatMap Desc.bits)).length

/-! ### Descriptors of existing registers -/

lemma Desc.Exists.pieces {d : Desc} (h : d.Exists) :
    ∀ p ∈ d.pieces, RegExists p.blk p.numReg := by
  obtain ⟨hblk, hend⟩ := h
  have hfrom : ∀ {fuel iReg : ℕ}, ∀ p ∈ piecesFrom d fuel iReg, RegExists p.blk p.numReg := by
    intro fuel
    induction fuel with
    | zero => exact fun p hp => absurd hp List.not_mem_nil
    | succ fuel ih =>
      intro iReg
      rw [piecesFrom]
      unfold getRegNum
      dsimp only
      split_ifs with hlast
      · exact fun p hp => absurd hp List.not_mem_nil
      · refine List.forall_mem_cons.mpr ⟨⟨hblk, ?_⟩, ih⟩
        show iReg + d.bitStart / 32 ≤ maxNumReg d.efuseBlock
        omega
  exact hfrom

lemma Desc.Exists.checkRange {d : Desc} (h : d.Exists)
    (hnone : getCodingScheme rdata6 d.efuseBlock = .none) :
    checkRangeOfBits rdata6 d.efuseBlock d.bitStart d.bitCount = true := by
  have hend := h.2
  have hmax : maxNumReg d.efuseBlock ≤ 7 := by
    unfold maxNumReg
    split <;> omega
  unfold checkRangeOfBits
  dsimp only
  rw [if_neg (by omega), hnone]

lemma field_pieces_exist (hfield : ∀ d ∈ field, d.Exists) :
    ∀ p ∈ field.flatMap Desc.pieces, RegExists p.blk p.numReg := by
  intro p hp
  obtain ⟨d, hd, hp⟩ := List.mem_flatMap.mp hp
  exact (hfield d hd).pieces p hp

/-! ### Counting the bits of a field -/

lemma cpop_eq_countP (v : BitVec 32) : v.cpop.toNat = (List.range 32).countP v.getLsbD := by
  have hrec : ∀ n, v.cpopNatRec n 0 = (List.range n).countP v.getLsbD := by
    intro n
    induction n with
    | zero => rfl
    | succ n ih =>
      rw [BitVec.cpopNatRec_succ, BitVec.cpopNatRec_add, ih, List.range_succ, List.countP_append,
        List.countP_singleton]
      cases v.getLsbD n <;> rfl
  rw [BitVec.toNat_cpop, hrec]

/-- The ones under a mask are those of the piece. -/
lemma cpop_getMask {reg : BitVec 32} {p : Piece} (hp : p.bitStart + p.bitCount ≤ 32)
    (hreg : r p.blk p.numReg = reg) :
    (reg &&& getMask p.bitCount p.bitStart).cpop.toNat = (p.bits.filter r.has).length := by
  have hsplit : List.range 32 = List.range' 0 p.bitStart ++
      (List.range' p.bitStart p.bitCount ++
        List.range' (p.bitStart + p.bitCount) (32 - (p.bitStart + p.bitCount))) := by
    rw [List.range'_append_1, List.range_eq_range']
    have h := @List.range'_append_1 0 p.bitStart (p.bitCount + (32 - (p.bitStart + p.bitCount)))
    rw [Nat.zero_add] at h
    rw [h]
    congr 1
    omega
  have hzero : ∀ {i n : ℕ}, (∀ b, i ≤ b → b < i + n →
      ¬ (p.bitStart ≤ b ∧ b < p.bitStart + p.bitCount)) →
      (List.range' i n).countP (reg &&& getMask p.bitCount p.bitStart).getLsbD = 0 := by
    intro i n hout
    refine List.countP_eq_zero.mpr fun b hb => ?_
    rw [List.mem_range'_1] at hb
    rw [BitVec.getLsbD_and, getLsbD_getMask hp, decide_eq_false (hout b hb.1 hb.2)]
    simp
  have hlow := @hzero 0 p.bitStart fun b _ _ => by omega
  have hhigh := @hzero (p.bitStart + p.bitCount) (32 - (p.bitStart + p.bitCount))
    fun b _ _ => by omega
  rw [cpop_eq_countP, hsplit, List.countP_append, List.countP_append, hlow, hhigh, Nat.zero_add,
    Nat.add_zero,
    ← List.countP_eq_length_filter, Piece.bits, List.countP_map]
  refine List.countP_congr fun b hb => ?_
  rw [List.mem_range'_1] at hb
  rw [BitVec.getLsbD_and, getLsbD_getMask hp, decide_eq_true hb, Bool.and_true, ← hreg]
  rfl

/-- Counting in pieces adds up their programmed bits. -/
lemma countOnce_run (hps : ∀ p ∈ ps, p.bitStart + p.bitCount ≤ 32)
    (hex : ∀ p ∈ ps, RegExists p.blk p.numReg) (hs : s.err = .ok)
    (hreq : s.bitsCounter + (ps.flatMap Piece.bits).length ≤ req) :
    ∃ s', runPieces (utilityCountOnce r) req ps s = some s' ∧ s'.err = .ok ∧
      s'.cnt = s.cnt + ((ps.flatMap Piece.bits).filter r.has).length := by
  induction ps generalizing s with
  | nil => exact ⟨s, rfl, hs, rfl⟩
  | cons p ps ih =>
    rw [List.flatMap_cons, List.length_append, length_piece_bits] at hreq
    by_cases hc : s.bitsCounter < req
    · have hp := hps p List.mem_cons_self
      obtain ⟨s', hrun, hok, hcnt⟩ := @ih ⟨.ok, s.wdata,
        s.cnt + (p.bits.filter r.has).length, s.bitsCounter + p.bitCount⟩
        (fun q hq => hps q (List.mem_cons_of_mem _ hq))
        (fun q hq => hex q (List.mem_cons_of_mem _ hq)) rfl (by dsimp only; omega)
      refine ⟨s', ?_, hok, ?_⟩
      · rw [runPieces, if_pos ⟨hs, hc⟩, Nat.min_eq_left (by omega), utilityCountOnce, readReg,
          if_pos (hex p List.mem_cons_self), ← hrun, ← cpop_getMask hp rfl]
        rfl
      · rw [hcnt, List.flatMap_cons, List.filter_append, List.length_append, Nat.add_assoc]
    · have hnil : (p :: ps).flatMap Piece.bits = [] := by
        refine List.length_eq_zero_iff.mp ?_
        rw [List.flatMap_cons, List.length_append, length_piece_bits]
        omega
      exact ⟨s, runPieces_of_not_going fun hgo => hc hgo.2, hs, by rw [hnil]; rfl⟩

/-- The value of a counter is the number of its programmed bits. -/
lemma readFieldCnt_eq {n : ℕ} (hfield : ∀ d ∈ field, d.Exists)
    (hnone : ∀ blk, getCodingScheme e.rdata6 blk = .none) :
    readFieldCnt e (some field) (some n) =
      some (.ok, some (programmedBits e.virtBlocks field)) := by
  have hread : readable e.rdata6 field = field :=
    readable_eq_self fun d hd => (hfield d hd).checkRange (hnone _)
  obtain ⟨s, hrun, hok, hcnt⟩ := @countOnce_run e.virtBlocks ⟨.ok, e.wdata, 0, 0⟩ _
    (getFieldSize field) field_pieces_le (field_pieces_exist hfield) rfl
    (by rw [field_pieces_bits, length_flatMap_bits, Nat.zero_add])
  rw [field_pieces_bits, Nat.zero_add] at hcnt
  simp only [readFieldCnt, utilityProcess, if_pos, processDescs_eq, hread, hrun, Option.map_some]
  rw [if_neg fun h => h.2 rfl, programmedBits, ← hcnt, ← hok]
  rfl

/-! ### Adding to a counter -/

/-- Pieces of existing registers can be counted in. -/
lemma writeCnt_total (hps : ∀ p ∈ ps, p.bitStart + p.bitCount ≤ 32)
    (hex : ∀ p ∈ ps, RegExists p.blk p.numReg) :
    ∃ s', runPieces (utilityWriteCnt r) req ps s = some s' := by
  induction ps generalizing s with
  | nil => exact ⟨s, rfl⟩
  | cons p ps ih =>
    rw [runPieces]
    by_cases hgo : s.Going req
    · have hp := hps p List.mem_cons_self
      have hreg := hex p List.mem_cons_self
      obtain ⟨s₁, h₁⟩ : ∃ s₁, utilityWriteCnt r p.numReg p.blk p.bitStart
          (min p.bitCount (req - s.bitsCounter)) s = some s₁ := by
        unfold utilityWriteCnt
        rw [readReg, if_pos hreg]
        dsimp only [Option.bind_eq_bind, Option.bind_some]
        split
        · rw [setCntInReg, if_pos (by omega)]
          dsimp only [Option.bind_some]
          rw [writeReg, if_pos hreg]
          exact ⟨_, rfl⟩
        · exact ⟨_, rfl⟩
      rw [if_pos hgo, h₁]
      exact ih (fun q hq => hps q (List.mem_cons_of_mem _ hq))
        (fun q hq => hex q (List.mem_cons_of_mem _ hq))
    · exact ⟨s, if_neg hgo⟩

/-- A blob can be written to pieces of existing registers. -/
lemma writeBlob_total {blob : ℕ → BitVec 8} (hex : ∀ p ∈ ps, RegExists p.blk p.numReg) :
    ∃ s', runPieces (utilityWriteBlob r blob) req ps s = some s' := by
  induction ps generalizing s with
  | nil => exact ⟨s, rfl⟩
  | cons p ps ih =>
    rw [runPieces]
    by_cases hgo : s.Going req
    · have hreg := hex p List.mem_cons_self
      obtain ⟨s₁, h₁⟩ : ∃ s₁, utilityWriteBlob r blob p.numReg p.blk p.bitStart
          (min p.bitCount (req - s.bitsCounter)) s = some s₁ := by
        unfold utilityWriteBlob utilityWriteReg
        rw [readReg, if_pos hreg]
        dsimp only [Option.bind_eq_bind, Option.bind_some]
        split
        · exact ⟨_, rfl⟩
        · rw [writeReg, if_pos hreg]
          exact ⟨_, rfl⟩
      rw [if_pos hgo, h₁]
      exact ih fun q hq => hex q (List.mem_cons_of_mem _ hq)
    · exact ⟨s, if_neg hgo⟩

/-- In a list without repetitions the elements after the first `n` are those that are not among
them. -/
lemma filter_not_mem_take {α : Type} [DecidableEq α] {l : List α} (h : l.Nodup) (n : ℕ) :
    l.filter (fun a => a ∉ l.take n) = l.drop n := by
  have hdisj := List.disjoint_take_drop h (Nat.le_refl n)
  conv_lhs => rw [← List.take_append_drop n l]
  rw [List.filter_append, List.take_append_drop]
  have htake : (l.take n).filter (fun a => a ∉ l.take n) = [] :=
    List.filter_eq_nil_iff.mpr fun a ha => by simpa using ha
  have hdrop : (l.drop n).filter (fun a => a ∉ l.take n) = l.drop n :=
    List.filter_eq_self.mpr fun a ha => by simpa using fun hmem => hdisj hmem ha
  rw [htake, hdrop, List.nil_append]

/-- The programmed and the free bits are all bits. -/
lemma programmedBits_add_freeBits (r : Regs) (field : List Desc) :
    programmedBits r field + freeBits r field = (field.flatMap Desc.bits).length :=
  (List.length_eq_length_filter_add r.has).symm

/-- Programming the first free bits adds their number. -/
lemma programmedBits_take {r' : Regs} {cnt : ℕ} (hdisj : (field.flatMap Desc.bits).Nodup)
    (hcnt : cnt ≤ freeBits r field)
    (hbits : ∀ x ∈ field.flatMap Desc.bits, r'.has x = true ↔ r.has x = true ∨
      x ∈ (free r.has (field.flatMap Desc.bits)).take cnt) :
    programmedBits r' field = programmedBits r field + cnt := by
  have hfree : free r'.has (field.flatMap Desc.bits) =
      (free r.has (field.flatMap Desc.bits)).drop cnt := by
    have hnodup : (free r.has (field.flatMap Desc.bits)).Nodup := hdisj.filter _
    rw [← filter_not_mem_take hnodup, free, free, List.filter_filter]
    refine List.filter_congr fun x hx => ?_
    have hx' := hbits x hx
    rw [free] at hx'
    cases hr : r.has x with
    | true =>
      rw [hr] at hx'
      simp [hx'.mpr (.inl rfl)]
    | false =>
      rw [hr] at hx'
      simp only [Bool.false_eq_true, false_or] at hx'
      rw [Bool.eq_iff_iff]
      simp [← hx']
  have h := programmedBits_add_freeBits r field
  have h' := programmedBits_add_freeBits r' field
  rw [freeBits, hfree, List.length_drop, ← freeBits] at h'
  omega

/-- Without a coding scheme the program registers are burned as they are. -/
lemma codeAndBurn_none (hnone : ∀ blk, getCodingScheme e.rdata6 blk = .none)
    {l : List Pos} (hadds : Adds (fun _ _ => 0) e.wdata l)
    (hex : ∀ x ∈ l, RegExists x.1 x.2.1) :
    (codeAndBurn e).1 = .ok ∧ (codeAndBurn e).2.rdata6 = e.rdata6 ∧
      ∀ x, (codeAndBurn e).2.virtBlocks.has x = true ↔ e.virtBlocks.has x = true ∨ x ∈ l := by
  have hfits : Fits e.rdata6 e.virtBlocks e.wdata := fun blk _ _ => by
    rw [hnone]
    trivial
  obtain ⟨hok, hburn, -⟩ := codeAndBurn_eq e
  refine ⟨hok.mpr hfits, by rw [hburn hfits]; rfl, fun x => ?_⟩
  rw [hburn hfits]
  show (burned e.rdata6 e.virtBlocks e.wdata).has x = true ↔ _
  have hprimary : Primary e.rdata6 x := fun h => by
    rw [hnone] at h
    cases h
  by_cases hx : RegExists x.1 x.2.1
  · rw [has_burned hx hprimary, Bool.or_eq_true, hadds x]
    simp [Regs.has]
  · rw [has_burned_of_not_exists hx]
    exact ⟨.inl, fun h => h.resolve_right fun hmem => hx (hex x hmem)⟩

/-- A field counts exactly what is added to it, and nothing is programmed where it has not enough
free bits. -/
theorem writeFieldCnt_exact {cnt n : ℕ} (he : e.batchMode = false) (hcnt : 1 ≤ cnt)
    (hnone : ∀ blk, getCodingScheme e.rdata6 blk = .none) (hfield : ∀ d ∈ field, d.Exists)
    (hdisj : (field.flatMap Desc.bits).Nodup) :
    ∃ err e', writeFieldCnt e (some field) cnt = some (err, e') ∧
      (err = .ok ↔ cnt ≤ freeBits e.virtBlocks field) ∧
      (err = .ok →
        (∃ m, readFieldCnt e (some field) (some n) = some (.ok, some m) ∧
          readFieldCnt e' (some field) (some n) = some (.ok, some (m + cnt))) ∧
        ∀ x, e'.virtBlocks.has x ≠ e.virtBlocks.has x →
          x ∈ field.flatMap Desc.bits ∧ e.virtBlocks.has x = false) ∧
      (err ≠ .ok → err = .cntIsFull ∧ e'.virtBlocks = e.virtBlocks) := by
  have hread : readable e.rdata6 field = field :=
    readable_eq_self fun d hd => (hfield d hd).checkRange (hnone _)
  have hstart : e.start = e.reset := if_neg (by simp [he])
  obtain ⟨s, hs⟩ := @writeCnt_total e.virtBlocks ⟨.ok, e.reset.wdata, cnt, 0⟩ _
    (getFieldSize field) field_pieces_le (field_pieces_exist hfield)
  obtain ⟨hadds, hleft, herr, hex⟩ := writeCnt_run field_pieces_le rfl (Nat.lt_of_lt_of_le
    Nat.zero_lt_one hcnt) (by rw [field_pieces_bits, length_flatMap_bits, Nat.zero_add]) hs
  rw [field_pieces_bits] at hadds hleft hex
  dsimp only at hadds hleft hex
  have hproc : utilityProcess e.rdata6 field e.reset.wdata cnt 0 (utilityWriteCnt e.virtBlocks) =
      some s := by
    rw [utilityProcess, if_pos rfl, processDescs_eq, hread, hs, Option.map_some,
      if_neg fun h => h.2 rfl]
  have hrun : ∀ {err}, (if s.cnt ≠ 0 then .cntIsFull else s.err) = err →
      writeFieldCnt e (some field) cnt = some (Chip.finish { e.reset with wdata := s.wdata }
        (if err = .okCnt then .ok else err)) := by
    rintro err rfl
    have hne : ¬ cnt = 0 := by omega
    simp only [writeFieldCnt, if_neg hne, hstart]
    rw [show (e.reset).rdata6 = e.rdata6 from rfl,
      show (e.reset).virtBlocks = e.virtBlocks from rfl, hproc]
    rfl
  have hbatch : ∀ {w}, ¬ ({ e.reset with wdata := w } : Chip).batchMode = true := by
    simp [Chip.reset, he]
  by_cases hfit : cnt ≤ freeBits e.virtBlocks field
  · have hzero : s.cnt = 0 := by
      rw [hleft]
      exact Nat.sub_eq_zero_of_le hfit
    rw [hzero, if_pos rfl] at herr
    obtain ⟨hok, hrdata, hbits⟩ :=
      @codeAndBurn_none { e.reset with wdata := s.wdata } hnone _ hadds hex
    refine ⟨.ok, (codeAndBurn { e.reset with wdata := s.wdata }).2.reset, ?_,
      ⟨fun _ => hfit, fun _ => rfl⟩, fun _ => ⟨⟨programmedBits e.virtBlocks field,
        readFieldCnt_eq hfield hnone, ?_⟩, fun x hx => ?_⟩, fun h => absurd rfl h⟩
    · rw [hrun (if_neg (not_not.mpr hzero)), herr, if_pos rfl, Chip.finish, if_neg hbatch,
        if_pos rfl]
      exact congrArg some (Prod.ext hok rfl)
    · rw [readFieldCnt_eq hfield fun blk => by rw [← hnone blk]; exact congrArg₂ _ hrdata rfl]
      rw [← programmedBits_take hdisj hfit fun x _ => hbits x]
      rfl
    · have hnew : x ∈ (free e.virtBlocks.has (field.flatMap Desc.bits)).take cnt := by
        by_contra hnot
        refine hx (Bool.eq_iff_iff.mpr ((hbits x).trans ⟨fun h => h.resolve_right hnot, .inl⟩))
      exact mem_free.mp (List.mem_of_mem_take hnew)
  · have hleft' : s.cnt ≠ 0 := by
      rw [hleft]
      rw [freeBits] at hfit
      omega
    refine ⟨.cntIsFull, ({ e.reset with wdata := s.wdata } : Chip).reset, ?_,
      ⟨fun h => EspErr.noConfusion h, fun h => absurd h hfit⟩, fun h => EspErr.noConfusion h,
      fun _ => ⟨rfl, rfl⟩⟩
    rw [hrun (if_pos hleft'), if_neg (by simp), Chip.finish, if_neg hbatch]
    rfl

/-- A field of two descriptors in two registers. -/
def counterField : List Desc := [⟨3, 30, 4⟩, ⟨3, 100, 3⟩]

theorem writeFieldCnt_exact_blank :
    ∃ err e', writeFieldCnt blank (some counterField) 5 = some (err, e') ∧
      (err = .ok ↔ 5 ≤ freeBits blank.virtBlocks counterField) := by
  obtain ⟨err, e', h, hok, -⟩ := @writeFieldCnt_exact counterField blank 5 0 rfl (by decide)
    (fun blk => by
      unfold getCodingScheme
      split <;> rfl)
    (by decide) (by decide)
  exact ⟨err, e', h, hok⟩

end EspIdf.Efuse
