/-
# A field is read as it was written

The bits of a blob go to the bits of the field in order, and reading takes them from there in the
same order.  So a field with no programmed bit reads as the blob that was written to it, with any
coding scheme, and the other data bits stay as they are.
-/
import EspIdf.Efuse.Batch
import EspIdf.Efuse.Reading

namespace EspIdf.Efuse

variable {r w : Regs} {s s' t : Progress} {ps : List Piece} {x : Pos} {req : ℕ}
  {rdata6 : BitVec 32} {blob : ℕ → BitVec 8}

/-! ### The bits of one piece -/

/-- A bit of a blob. -/
def blobBit (blob : ℕ → BitVec 8) (k : ℕ) : Bool := (blob (k / 8)).getLsbD (k % 8)

lemma getLsbD_byte_shifted {byte : BitVec 8} {n shift b : ℕ} (h : shift + n ≤ 32) :
    ((byte.setWidth 32 &&& getMask n 0) <<< shift).getLsbD b =
      (decide (shift ≤ b ∧ b < shift + n) && byte.getLsbD (b - shift)) := by
  rw [BitVec.getLsbD_shiftLeft, BitVec.getLsbD_and, BitVec.getLsbD_setWidth,
    getLsbD_getMask (by omega)]
  by_cases hb : shift ≤ b ∧ b < shift + n
  · simp [hb, show b < 32 by omega, show ¬ b < shift by omega, show b - shift < n by omega,
      show b - shift < 32 by omega]
  · rw [decide_eq_false hb, Bool.false_and]
    by_cases hlt : b < shift
    · simp [hlt]
    · simp [show ¬ b - shift < n by omega]

lemma fillRegLoop_zero {fuel shiftReg filled : ℕ} {v : BitVec 32} :
    fillRegLoop blob fuel 0 shiftReg v filled = (v, filled) := by
  cases fuel with
  | zero => rfl
  | succ fuel => rw [fillRegLoop, if_neg (Nat.lt_irrefl 0)]

lemma getLsbD_blob {filled k : ℕ} (h : filled % 8 + k < 8) :
    (blob (filled / 8)).getLsbD (filled % 8 + k) = blobBit blob (filled + k) := by
  rw [blobBit, show (filled + k) / 8 = filled / 8 by omega,
    show (filled + k) % 8 = filled % 8 + k by omega]

/-- The loop takes the bits of the blob from a whole byte on. -/
lemma fillRegLoop_eq : ∀ {fuel bitCount shiftReg filled : ℕ} {v : BitVec 32}, bitCount ≤ fuel →
    filled % 8 = 0 → shiftReg + bitCount ≤ 32 → ∀ b,
    (fillRegLoop blob fuel bitCount shiftReg v filled).1.getLsbD b =
      (v.getLsbD b || (decide (shiftReg ≤ b ∧ b < shiftReg + bitCount) &&
        blobBit blob (filled + (b - shiftReg)))) := by
  intro fuel
  induction fuel with
  | zero =>
    intro bitCount shiftReg filled v hfuel hfilled hle b
    rw [decide_eq_false (by omega), Bool.false_and, Bool.or_false]
    rfl
  | succ fuel ih =>
    intro bitCount shiftReg filled v hfuel hfilled hle b
    have hbyte : ∀ {k}, k < 8 → (blob (filled / 8)).getLsbD k = blobBit blob (filled + k) := by
      intro k hk
      rw [← getLsbD_blob (by omega), hfilled, Nat.zero_add]
    by_cases hpos : bitCount > 0
    · rw [fillRegLoop, if_pos hpos]
      by_cases h8 : bitCount > 8
      · simp only [if_pos h8]
        rw [ih (by omega) (by omega) (by omega), BitVec.getLsbD_or,
          getLsbD_byte_shifted (by omega), Bool.or_assoc]
        congr 1
        by_cases hb : shiftReg ≤ b ∧ b < shiftReg + bitCount
        · rw [decide_eq_true hb, Bool.true_and]
          by_cases hlt : b < shiftReg + 8
          · rw [decide_eq_true (by omega), decide_eq_false (by omega), hbyte (by omega)]
            simp
          · rw [decide_eq_false (by omega), decide_eq_true (by omega)]
            rw [show filled + 8 + (b - (shiftReg + 8)) = filled + (b - shiftReg) by omega]
            simp
        · rw [decide_eq_false hb, decide_eq_false (by omega), decide_eq_false (by omega)]
          simp
      · simp only [if_neg h8, Nat.sub_self, fillRegLoop_zero]
        rw [BitVec.getLsbD_or, getLsbD_byte_shifted hle]
        congr 1
        by_cases hb : shiftReg ≤ b ∧ b < shiftReg + bitCount
        · rw [hbyte (by omega)]
        · rw [decide_eq_false hb, Bool.false_and, Bool.false_and]
    · rw [fillRegLoop, if_neg hpos, decide_eq_false (by omega), Bool.false_and, Bool.or_false]

/-- A piece is given the bits of the blob from the counter on. -/
lemma fillReg_eq {bitStart n filled : ℕ} (h : bitStart + n ≤ 32) (b : ℕ) :
    (fillReg bitStart n blob filled).1.getLsbD b =
      (decide (bitStart ≤ b ∧ b < bitStart + n) && blobBit blob (filled + (b - bitStart))) := by
  suffices hvalue : ∀ {v : BitVec 32}, (∀ i < 32, v.getLsbD i =
      (decide (i < n) && blobBit blob (filled + i))) →
      (v <<< bitStart).getLsbD b =
        (decide (bitStart ≤ b ∧ b < bitStart + n) && blobBit blob (filled + (b - bitStart))) by
    unfold fillReg
    refine hvalue fun i hi => ?_
    by_cases hf : filled % 8 = 0
    · simp only [if_pos hf]
      rw [fillRegLoop_eq (by omega) (by omega) (by omega)]
      simp
    · simp only [if_neg hf]
      have hfirst : ∀ {k}, k ≤ 8 - filled % 8 →
          (((blob (filled / 8)).setWidth 32 >>> (filled % 8)) &&& getMask k 0).getLsbD i =
            (decide (i < k) && blobBit blob (filled + i)) := by
        intro k hk
        rw [BitVec.getLsbD_and, getLsbD_getMask (by omega), BitVec.getLsbD_ushiftRight,
          BitVec.getLsbD_setWidth]
        by_cases hik : i < k
        · rw [getLsbD_blob (by omega)]
          simp [hik, show filled % 8 + i < 32 by omega]
        · simp [hik]
      by_cases hfit : 8 - filled % 8 < n
      · simp only [if_pos hfit]
        rw [fillRegLoop_eq (by omega) (by omega) (by omega), hfirst (by omega)]
        by_cases hi : i < 8 - filled % 8
        · simp [hi, show i < n by omega, show ¬ 8 - filled % 8 ≤ i by omega]
        · have hidx : filled + (8 - filled % 8) + (i - (8 - filled % 8)) = filled + i := by omega
          rw [hidx, decide_eq_false hi, Bool.false_and, Bool.false_or]
          congr 1
          exact decide_eq_decide.mpr (by omega)
      · simp only [if_neg hfit, Nat.sub_self, fillRegLoop_zero]
        exact hfirst (by omega)
  intro v hv
  rw [BitVec.getLsbD_shiftLeft]
  by_cases hb : bitStart ≤ b ∧ b < bitStart + n
  · rw [hv _ (by omega), decide_eq_true hb]
    simp [show b < 32 by omega, show ¬ b < bitStart by omega, show b - bitStart < n by omega]
  · rw [decide_eq_false hb, Bool.false_and]
    by_cases hlt : b < bitStart
    · simp [hlt]
    · by_cases h32 : b < 32
      · rw [hv _ (by omega), decide_eq_false (show ¬ b - bitStart < n by omega)]
        simp
      · simp [h32]

/-! ### The pieces that are processed -/

/-- The parts of pieces that are processed from a bit of the blob on. -/
def clip (req : ℕ) : List Piece → ℕ → List Piece
  | [], _ => []
  | p :: ps, c =>
    if c < req then
      { p with bitCount := min p.bitCount (req - c) } :: clip req ps (c + min p.bitCount (req - c))
    else []

lemma clip_bits {c : ℕ} :
    (clip req ps c).flatMap Piece.bits = (ps.flatMap Piece.bits).take (req - c) := by
  induction ps generalizing c with
  | nil => simp [clip]
  | cons p ps ih =>
    by_cases hc : c < req
    · have hpiece : Piece.bits { p with bitCount := min p.bitCount (req - c) } =
          p.bits.take (req - c) := by
        rw [Piece.bits, Piece.bits, ← List.map_take]
        congr 1
        rcases Nat.le_total p.bitCount (req - c) with hle | hle
        · rw [List.take_range'_of_length_le hle, Nat.min_eq_left hle]
        · rw [List.take_range'_of_length_ge hle, Nat.min_eq_right hle]
      rw [clip, if_pos hc, List.flatMap_cons, ih, hpiece, List.flatMap_cons, List.take_append,
        length_piece_bits]
      congr 2
      omega
    · rw [clip, if_neg hc, Nat.sub_eq_zero_of_le (by omega)]
      rfl

lemma clip_exist (hex : ∀ p ∈ ps, RegExists p.blk p.numReg) {c : ℕ} :
    ∀ p ∈ clip req ps c, RegExists p.blk p.numReg := by
  induction ps generalizing c with
  | nil => exact fun p hp => absurd hp List.not_mem_nil
  | cons p ps ih =>
    rw [clip]
    split
    · exact List.forall_mem_cons.mpr ⟨hex p List.mem_cons_self,
        ih fun q hq => hex q (List.mem_cons_of_mem _ hq)⟩
    · exact fun p hp => absurd hp List.not_mem_nil

/-- A blob that has been written has been written to registers that exist. -/
lemma exists_of_writeBlob (h : runPieces (utilityWriteBlob r blob) req ps s = some s')
    (hs : s.err = .ok) (hok : s'.err = .ok) :
    ∀ p ∈ clip req ps s.bitsCounter, RegExists p.blk p.numReg := by
  induction ps generalizing s with
  | nil => exact fun p hp => absurd hp List.not_mem_nil
  | cons p ps ih =>
    by_cases hc : s.bitsCounter < req
    · rw [runPieces, if_pos ⟨hs, hc⟩, Option.bind_eq_bind, Option.bind_eq_some_iff] at h
      obtain ⟨s₁, hpiece, h⟩ := h
      simp only [utilityWriteBlob, Option.bind_eq_bind, Option.bind_eq_some_iff,
        Option.pure_def, Option.some.injEq] at hpiece
      obtain ⟨⟨err, w⟩, hwrite, rfl⟩ := hpiece
      have hspec := utilityWriteReg_eq hwrite
      rw [fillReg_filled] at h
      have hex : err = .ok ∧ RegExists p.blk p.numReg := by
        split_ifs at hspec
        · exact ⟨hspec.1, hspec.2.1⟩
        · rw [runPieces_of_not_going (fun hgo => by rw [hspec.1] at hgo; cases hgo.1),
            Option.some.injEq] at h
          rw [← h, hspec.1] at hok
          cases hok
      rw [clip, if_pos hc]
      exact List.forall_mem_cons.mpr ⟨hex.2, ih h hex.1⟩
    · rw [clip, if_neg hc]
      exact fun p hp => absurd hp List.not_mem_nil

/-- The bit `k` of the array is that of the element `k` of the list. -/
def listBit (l : List Pos) (r : Regs) (k : ℕ) : Bool := (l[k]?).any r.has

lemma listBit_append {l m : List Pos} {k : ℕ} :
    listBit (l ++ m) r k = if k < l.length then listBit l r k else listBit m r (k - l.length) := by
  rw [listBit, List.getElem?_append]
  split <;> rfl

lemma listBit_of_le {l : List Pos} {k : ℕ} (h : l.length ≤ k) : listBit l r k = false := by
  rw [listBit, List.getElem?_eq_none h]
  rfl

lemma listBit_piece {p : Piece} {k : ℕ} :
    listBit p.bits r k =
      (decide (k < p.bitCount) && (r p.blk p.numReg).getLsbD (p.bitStart + k)) := by
  by_cases hk : k < p.bitCount
  · have hget : p.bits[k]? = some (p.blk, p.numReg, p.bitStart + k) := by
      simp [Piece.bits, hk]
    rw [listBit, hget, decide_eq_true hk]
    rfl
  · rw [listBit_of_le (by rw [length_piece_bits]; omega), decide_eq_false hk]
    rfl

lemma listBit_eq_false {l : List Pos} {k : ℕ} (h : ∀ x ∈ l, r.has x = false) :
    listBit l r k = false := by
  rw [listBit, Option.any_eq_false]
  intro x hx
  exact h x (List.mem_of_getElem? hx)

/-- A list of different bits to which a blob has been written. -/
lemma listBit_written {r' : Regs} {l : List Pos} {k : ℕ} (hnodup : l.Nodup)
    (hbits : ∀ x ∈ l, r'.has x = true ↔ r.has x = true ∨
      ∃ k, l[k]? = some x ∧ blobBit blob k = true) (hk : k < l.length) :
    listBit l r' k = (listBit l r k || blobBit blob k) := by
  have hget : l[k]? = some l[k] := List.getElem?_eq_getElem hk
  have hx := hbits l[k] (List.getElem_mem hk)
  rw [listBit, listBit, hget, Option.any_some, Option.any_some]
  refine Bool.eq_iff_iff.mpr (hx.trans ?_)
  rw [Bool.or_eq_true]
  refine or_congr_right ⟨?_, fun h => ⟨k, hget, h⟩⟩
  rintro ⟨j, hj, hbit⟩
  obtain rfl := (List.getElem?_inj hk hnodup).mp (hget.trans hj.symm)
  exact hbit

/-- Reading pieces takes their bits in order. -/
lemma fillBuff_run (hps : ∀ p ∈ ps, p.bitStart + p.bitCount ≤ 32) (ht : t.err = .ok)
    (hex : ∀ p ∈ clip req ps t.bitsCounter, RegExists p.blk p.numReg) :
    ∃ t', runPieces (utilityFillBuff r) req ps t = some t' ∧ t'.err = .ok ∧
      ∀ j, t'.cnt.testBit j = (t.cnt.testBit j || (decide (t.bitsCounter ≤ j) &&
        listBit ((ps.flatMap Piece.bits).take (req - t.bitsCounter)) r (j - t.bitsCounter))) := by
  rw [← clip_bits]
  induction ps generalizing t with
  | nil => exact ⟨t, rfl, ht, fun j => by simp [clip, listBit]⟩
  | cons p ps ih =>
    by_cases hc : t.bitsCounter < req
    · have hn : p.bitStart + min p.bitCount (req - t.bitsCounter) ≤ 32 := by
        have := hps p List.mem_cons_self
        omega
      rw [clip, if_pos hc] at hex
      obtain ⟨hexp, hex⟩ := List.forall_mem_cons.mp hex
      obtain ⟨hcounter, hbits⟩ := @fillBuff_eq (r p.blk p.numReg) p.bitStart
        (min p.bitCount (req - t.bitsCounter)) t.cnt t.bitsCounter hn
      obtain ⟨t', hrun, hok, ht'⟩ := @ih ⟨.ok, t.wdata,
        (fillBuff (r p.blk p.numReg) p.bitStart (min p.bitCount (req - t.bitsCounter)) t.cnt
          t.bitsCounter).1,
        (fillBuff (r p.blk p.numReg) p.bitStart (min p.bitCount (req - t.bitsCounter)) t.cnt
          t.bitsCounter).2⟩
        (fun q hq => hps q (List.mem_cons_of_mem _ hq)) rfl (by rw [hcounter]; exact hex)
      refine ⟨t', ?_, hok, fun j => ?_⟩
      · rw [runPieces, if_pos ⟨ht, hc⟩, utilityFillBuff, readReg, if_pos hexp]
        exact hrun
      · rw [ht' j, clip, if_pos hc, List.flatMap_cons, listBit_append, length_piece_bits,
          listBit_piece]
        dsimp only
        rw [hbits j, hcounter, Bool.or_assoc]
        congr 1
        by_cases hj : t.bitsCounter ≤ j
        · by_cases hlt : j < t.bitsCounter + min p.bitCount (req - t.bitsCounter)
          · rw [if_pos (by omega), decide_eq_true ⟨hj, hlt⟩, decide_eq_false (by omega),
              decide_eq_true hj, decide_eq_true (by omega)]
            simp
          · rw [if_neg (by omega), decide_eq_false (by omega), decide_eq_true (by omega),
              decide_eq_true hj, Nat.sub_sub]
            simp
        · rw [decide_eq_false (by omega), decide_eq_false (by omega), decide_eq_false hj]
          simp
    · refine ⟨t, runPieces_of_not_going fun hgo => hc hgo.2, ht, fun j => ?_⟩
      simp [clip, if_neg hc, listBit]

lemma exists_getElem?_append {α : Type} {l m : List α} {a : α} {P : ℕ → Prop} :
    (∃ k, (l ++ m)[k]? = some a ∧ P k) ↔
      (∃ k, l[k]? = some a ∧ P k) ∨ ∃ k, m[k]? = some a ∧ P (l.length + k) := by
  constructor
  · rintro ⟨k, hk, hP⟩
    rw [List.getElem?_append] at hk
    split at hk
    · exact .inl ⟨k, hk, hP⟩
    · next hlt => exact .inr ⟨k - l.length, hk, by rwa [Nat.add_sub_cancel' (by omega)]⟩
  · rintro (⟨k, hk, hP⟩ | ⟨k, hk, hP⟩)
    · obtain ⟨hlt, -⟩ := List.getElem?_eq_some_iff.mp hk
      exact ⟨k, by rw [List.getElem?_append_left hlt, hk], hP⟩
    · refine ⟨l.length + k, ?_, hP⟩
      rw [List.getElem?_append_right (Nat.le_add_right _ _), Nat.add_sub_cancel_left, hk]

/-- The bits that are set for a blob are those of the list at which the blob has a one. -/
lemma mem_blobWrites (hps : ∀ p ∈ ps, p.bitStart + p.bitCount ≤ 32) {c : ℕ} :
    x ∈ (blobWrites blob req ps c).flatMap valueBits ↔
      ∃ k, ((ps.flatMap Piece.bits).take (req - c))[k]? = some x ∧
        blobBit blob (c + k) = true := by
  rw [← clip_bits]
  induction ps generalizing c with
  | nil => simp [blobWrites, clip]
  | cons p ps ih =>
    by_cases hc : c < req
    · have hn : p.bitStart + min p.bitCount (req - c) ≤ 32 := by
        have := hps p List.mem_cons_self
        omega
      rw [blobWrites, if_pos hc, clip, if_pos hc, List.flatMap_cons, List.mem_append,
        ih fun q hq => hps q (List.mem_cons_of_mem _ hq), List.flatMap_cons,
        exists_getElem?_append, length_piece_bits, mem_valueBits, fillReg_eq hn]
      dsimp only
      refine or_congr ?_ ?_
      · simp only [Bool.and_eq_true, decide_eq_true_eq]
        constructor
        · rintro ⟨hblk, hreg, ⟨hle, hlt⟩, hbit⟩
          refine ⟨x.2.2 - p.bitStart, ?_, hbit⟩
          have hx : x = (p.blk, p.numReg, p.bitStart + (x.2.2 - p.bitStart)) := by
            rw [← hblk, ← hreg, Nat.add_sub_cancel' hle]
          have hk : x.2.2 - p.bitStart < min p.bitCount (req - c) := by omega
          rw [Piece.bits, List.getElem?_map, List.getElem?_range' hk]
          exact congrArg some (by rw [Nat.one_mul]; exact hx.symm)
        · rintro ⟨k, hk, hbit⟩
          rw [Piece.bits, List.getElem?_map, Option.map_eq_some_iff] at hk
          obtain ⟨n, hn, rfl⟩ := hk
          obtain ⟨hlt, rfl⟩ := List.getElem?_eq_some_iff.mp hn
          rw [List.length_range'] at hlt
          rw [List.getElem_range', Nat.one_mul]
          dsimp only at hlt ⊢
          refine ⟨rfl, rfl, ⟨Nat.le_add_right _ _, by omega⟩, ?_⟩
          rwa [Nat.add_sub_cancel_left]
      · simp only [Nat.add_assoc]
    · simp [blobWrites, clip, if_neg hc]

/-! ### The whole field -/

/-- The bits that a call with a blob of `n` bits is about. -/
def targetBits (field : List Desc) (n : ℕ) : List Pos := (field.flatMap Desc.bits).take n

/-- A bit that carries data; with 3/4 coding these are the first 192 bits of a block, and with
repetition the first 128 bits. -/
def DataBit (rdata6 : BitVec 32) (x : Pos) : Prop :=
  match getCodingScheme rdata6 x.1 with
  | .none => True
  | .threeQuarters => x.2.1 < 6
  | .repetition => x.2.1 < 4

lemma DataBit.primary (h : DataBit rdata6 x) : Primary rdata6 x := by
  intro hscheme
  rw [DataBit, hscheme] at h
  exact h

/-- A descriptor that suits the coding scheme names data bits. -/
lemma dataBit_of_checkRange {d : Desc}
    (h : checkRangeOfBits rdata6 d.efuseBlock d.bitStart d.bitCount = true) (hx : x ∈ d.bits) :
    DataBit rdata6 x := by
  rw [Desc.bits, List.mem_map] at hx
  obtain ⟨n, hn, rfl⟩ := hx
  rw [List.mem_range'_1] at hn
  unfold checkRangeOfBits at h
  dsimp only at h
  split_ifs at h
  rw [DataBit]
  dsimp only
  cases hscheme : getCodingScheme rdata6 d.efuseBlock with
  | none => trivial
  | threeQuarters =>
    rw [hscheme] at h
    have hle : d.bitStart + d.bitCount ≤ 192 := of_decide_eq_true h
    show n / 32 < 6
    omega
  | repetition =>
    rw [hscheme] at h
    have hle : d.bitStart + d.bitCount ≤ 128 := of_decide_eq_true h
    show n / 32 < 4
    omega

lemma readable_eq_self {field : List Desc}
    (h : ∀ d ∈ field, checkRangeOfBits rdata6 d.efuseBlock d.bitStart d.bitCount = true) :
    readable rdata6 field = field := List.takeWhile_eq_self_iff.mpr h

lemma field_pieces_le {field : List Desc} :
    ∀ p ∈ field.flatMap Desc.pieces, p.bitStart + p.bitCount ≤ 32 := by
  intro p hp
  obtain ⟨d, -, hp⟩ := List.mem_flatMap.mp hp
  exact pieces_le hp

lemma field_pieces_bits {field : List Desc} :
    (field.flatMap Desc.pieces).flatMap Piece.bits = field.flatMap Desc.bits := by
  rw [List.flatMap_assoc]
  congr 1
  funext d
  exact pieces_bits d

/-- The length of a field. -/
lemma length_flatMap_bits (field : List Desc) :
    (field.flatMap Desc.bits).length = getFieldSize field := by
  rw [List.length_flatMap, getFieldSize]
  congr 2
  funext d
  simp [Desc.bits]

/-- Reading a field of existing registers takes its bits in order. -/
lemma readFieldBlob_eq {e : Chip} {field : List Desc} {n d : ℕ} (hn : n ≠ 0)
    (hrange : ∀ d ∈ field, checkRangeOfBits e.rdata6 d.efuseBlock d.bitStart d.bitCount = true)
    (hex : ∀ p ∈ clip (min n (getFieldSize field)) (field.flatMap Desc.pieces) 0,
      RegExists p.blk p.numReg) :
    ∃ dst, readFieldBlob e (some field) (some d) n = some (.ok, some dst) ∧
      ∀ j, dst.testBit j = listBit (targetBits field (min n (getFieldSize field)))
        e.virtBlocks j := by
  obtain ⟨t, hrun, hok, hbits⟩ := @fillBuff_run e.virtBlocks ⟨.ok, e.wdata, 0, 0⟩ _
    (min n (getFieldSize field)) field_pieces_le rfl hex
  refine ⟨t.cnt, ?_, fun j => ?_⟩
  · simp only [readFieldBlob, if_neg hn, utilityProcess, processDescs_eq, readable_eq_self hrange,
      hrun, Option.map_some]
    rw [if_neg fun h => h.2 rfl]
    simp [hok]
  · rw [hbits j, field_pieces_bits]
    simp [targetBits]

/-- What a successful write of a blob outside batch mode leaves. -/
lemma writeFieldBlob_ok {e e' : Chip} {field : List Desc} {src : ℕ → BitVec 8} {n : ℕ}
    (he : e.batchMode = false)
    (hrange : ∀ d ∈ field, checkRangeOfBits e.rdata6 d.efuseBlock d.bitStart d.bitCount = true)
    (h : writeFieldBlob e (some field) (some src) n = some (.ok, e')) :
    n ≠ 0 ∧ e'.rdata6 = e.rdata6 ∧
      (∀ p ∈ clip (min n (getFieldSize field)) (field.flatMap Desc.pieces) 0,
        RegExists p.blk p.numReg) ∧
      ∀ x, DataBit e.rdata6 x → (e'.virtBlocks.has x = true ↔ e.virtBlocks.has x = true ∨
        ∃ k, (targetBits field (min n (getFieldSize field)))[k]? = some x ∧
          blobBit src k = true) := by
  obtain ⟨w, hw, hstaged, -⟩ := Call.run_single (c := .writeFieldBlob (some field) (some src) n) he h
  have hacc := hstaged.ok_iff.mp rfl
  refine ⟨hacc.1, by rw [hw]; rfl, ?_, fun x hx => ?_⟩
  · simp only [writeFieldBlob, if_neg hacc.1, Option.bind_eq_bind, Option.bind_eq_some_iff,
      utilityProcess, processDescs_eq, Option.map_eq_some_iff, Option.pure_def,
      Option.some.injEq] at h
    obtain ⟨s, ⟨s₁, hrun, rfl⟩, hfinish⟩ := h
    have hstart : e.start = e.reset := if_neg (by simp [he])
    rw [hstart] at hrun hfinish
    rw [show (e.reset).rdata6 = e.rdata6 from rfl, readable_eq_self hrange] at hrun hfinish
    rw [if_neg fun h => h.2 rfl] at hfinish
    refine exists_of_writeBlob hrun rfl ?_
    by_contra hne
    have hbatch : ¬ ({ e.reset with wdata := s₁.wdata } : Chip).batchMode = true := by
      simp [Chip.reset, he]
    rw [Chip.finish, if_neg hbatch, if_neg hne, Prod.mk.injEq] at hfinish
    exact hne hfinish.1
  · have hsets : x ∈ Call.sets e.rdata6 e.virtBlocks (.writeFieldBlob (some field) (some src) n) ↔
        ∃ k, (targetBits field (min n (getFieldSize field)))[k]? = some x ∧
          blobBit src k = true := by
      rw [Call.sets, List.takeWhile_eq_self_iff.mpr hacc.2.1, blobValues,
        readable_eq_self hrange, mem_blobWrites field_pieces_le, field_pieces_bits, targetBits]
      simp only [Nat.sub_zero, Nat.zero_add]
    rw [← hsets, hw]
    show (burned e.rdata6 e.virtBlocks w).has x = true ↔ _
    by_cases hex : RegExists x.1 x.2.1
    · rw [has_burned hex hx.primary, Bool.or_eq_true, hstaged.adds x]
      simp [Regs.has]
    · rw [has_burned_of_not_exists hex]
      exact ⟨.inl, fun h => h.resolve_right fun hmem => hex (hstaged.exist x hmem)⟩

/-- A field with no programmed bit reads as the bits of the blob that was written to it, and the
other data bits of the eFuses are as before. -/
theorem readFieldBlob_writeFieldBlob {e e' : Chip} {field : List Desc} {src : ℕ → BitVec 8}
    {n d : ℕ} (he : e.batchMode = false) (hdisj : (field.flatMap Desc.bits).Nodup)
    (hrange : ∀ d ∈ field, checkRangeOfBits e.rdata6 d.efuseBlock d.bitStart d.bitCount = true)
    (hzero : ∀ x ∈ targetBits field (min n (getFieldSize field)), e.virtBlocks.has x = false)
    (h : writeFieldBlob e (some field) (some src) n = some (.ok, e')) :
    (∃ dst, readFieldBlob e' (some field) (some d) n = some (.ok, some dst) ∧
      ∀ j, dst.testBit j = (decide (j < min n (getFieldSize field)) && blobBit src j)) ∧
    ∀ x, DataBit e.rdata6 x → x ∉ targetBits field (min n (getFieldSize field)) →
      e'.virtBlocks.has x = e.virtBlocks.has x := by
  obtain ⟨hn, hrdata, hex, hbits⟩ := writeFieldBlob_ok he hrange h
  rw [← hrdata] at hrange
  obtain ⟨dst, hread, hdst⟩ := @readFieldBlob_eq e' field n d hn hrange hex
  have hlen : (targetBits field (min n (getFieldSize field))).length =
      min n (getFieldSize field) := by
    rw [targetBits, List.length_take, length_flatMap_bits, Nat.min_assoc, Nat.min_self]
  have hnodup : (targetBits field (min n (getFieldSize field))).Nodup :=
    hdisj.sublist (List.take_sublist _ _)
  have hdata : ∀ x ∈ targetBits field (min n (getFieldSize field)), DataBit e.rdata6 x := by
    intro x hx
    obtain ⟨d, hd, hx⟩ := List.mem_flatMap.mp (List.mem_of_mem_take hx)
    exact dataBit_of_checkRange (hrdata ▸ hrange d hd) hx
  refine ⟨⟨dst, hread, fun j => ?_⟩, fun x hx hnot => ?_⟩
  · rw [hdst j]
    by_cases hj : j < min n (getFieldSize field)
    · rw [decide_eq_true hj, Bool.true_and,
        listBit_written hnodup (fun x hx => hbits x (hdata x hx)) (by rw [hlen]; exact hj),
        listBit_eq_false hzero, Bool.false_or]
    · rw [decide_eq_false hj, Bool.false_and]
      exact listBit_of_le (by rw [hlen]; omega)
  · refine Bool.eq_iff_iff.mpr ((hbits x hx).trans ⟨fun h => h.resolve_right ?_, .inl⟩)
    rintro ⟨k, hk, -⟩
    exact hnot (List.mem_of_getElem? hk)

/-- A chip without a burned bit and with 3/4 coding. -/
def blankCoded : Chip := { blank with rdata6 := 1 }

/-- 37 bits, all of them ones, in two blocks. -/
def twoBlocks : List Desc := [⟨1, 29, 30⟩, ⟨2, 5, 7⟩]

theorem readFieldBlob_writeFieldBlob_coded :
    ∃ e', writeFieldBlob blankCoded (some twoBlocks) (some fun _ => 0xff) 37 = some (.ok, e') ∧
      ∃ dst, readFieldBlob e' (some twoBlocks) (some 0) 37 = some (.ok, some dst) ∧
        ∀ j, dst.testBit j = (decide (j < 37) && blobBit (fun _ => 0xff) j) := by
  have hok : (writeFieldBlob blankCoded (some twoBlocks) (some fun _ => 0xff) 37).map Prod.fst =
      some .ok := by decide +kernel
  obtain ⟨⟨err, e'⟩, h, herr⟩ := Option.map_eq_some_iff.mp hok
  obtain rfl : err = .ok := herr
  exact ⟨e', h, (readFieldBlob_writeFieldBlob rfl (by decide) (by decide) (by decide) h).1⟩

end EspIdf.Efuse
