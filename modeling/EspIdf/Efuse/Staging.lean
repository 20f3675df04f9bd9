/-
# What a writing function stages

A blob is written register by register until a register with an already programmed bit stops it;
a count sets the first free bits of its field.  Both look at the burned bits only.
-/
import EspIdf.Efuse.Fields
import EspIdf.Lib.OneTime

namespace EspIdf.Efuse

open OneTime

variable {r w w' : Regs} {s s' : Progress} {ps qs : List Piece} {x : Pos} {req : ℕ}

/-- The bit is one. -/
def Regs.has (w : Regs) (x : Pos) : Bool := (w x.1 x.2.1).getLsbD x.2.2

/-! ### Masks -/

lemma getLsbD_one_shiftLeft {i b : ℕ} (hi : i < 32) :
    (1#32 <<< i).getLsbD b = decide (i = b) := by
  rw [← BitVec.twoPow_eq, BitVec.getLsbD_twoPow]
  by_cases h : i = b <;> simp [h]
  omega

lemma getLsbD_getMask {bitCount shift b : ℕ} (h : shift + bitCount ≤ 32) :
    (getMask bitCount shift).getLsbD b = decide (shift ≤ b ∧ b < shift + bitCount) := by
  have hones : ∀ n ≤ 32, (if n ≠ 32 then (1#32 <<< n) - 1 else 0xFFFFFFFF) =
      BitVec.ofNat 32 (2 ^ n - 1) := by
    decide +kernel
  rw [getMask, hones _ (by omega), BitVec.getLsbD_shiftLeft, BitVec.getLsbD_ofNat,
    Nat.testBit_two_pow_sub_one, Bool.eq_iff_iff]
  simp only [Bool.and_eq_true, Bool.not_eq_true', decide_eq_true_eq, decide_eq_false_iff_not]
  omega

lemma and_one_shiftLeft_eq_zero {m : BitVec 32} {i : ℕ} (hi : i < 32) :
    m &&& (1#32 <<< i) = 0 ↔ m.getLsbD i = false := by
  rw [← BitVec.twoPow_eq, BitVec.and_twoPow]
  cases m.getLsbD i with
  | false => simp
  | true =>
    simp only [if_true, Bool.true_eq_false, iff_false]
    intro h
    have hbit := congrArg (fun v => v.getLsbD i) h
    simp [hi] at hbit

/-! ### Adding bits to registers -/

/-- The bits of the list have been added to the registers. -/
def Adds (w w' : Regs) (l : List Pos) : Prop :=
  ∀ x, w'.has x = true ↔ w.has x = true ∨ x ∈ l

lemma Adds.refl (w : Regs) : Adds w w [] := fun x => by simp

lemma Adds.trans {w₁ w₂ w₃ : Regs} {l m : List Pos} (h : Adds w₁ w₂ l) (h' : Adds w₂ w₃ m) :
    Adds w₁ w₃ (l ++ m) := by
  intro x
  rw [h' x, h x, List.mem_append, or_assoc]

/-- The bits of a value written to a register. -/
def valueBits (u : ℕ × ℕ × BitVec 32) : List Pos :=
  ((List.range 32).filter u.2.2.getLsbD).map fun n => (u.1, u.2.1, n)

lemma mem_valueBits {u : ℕ × ℕ × BitVec 32} :
    x ∈ valueBits u ↔ x.1 = u.1 ∧ x.2.1 = u.2.1 ∧ u.2.2.getLsbD x.2.2 = true := by
  obtain ⟨blk, numReg, n⟩ := x
  simp only [valueBits, List.mem_map, List.mem_filter, List.mem_range, Prod.mk.injEq]
  constructor
  · rintro ⟨m, ⟨_, hm⟩, rfl, rfl, rfl⟩
    exact ⟨rfl, rfl, hm⟩
  · rintro ⟨rfl, rfl, hn⟩
    exact ⟨n, ⟨BitVec.lt_of_getLsbD hn, hn⟩, rfl, rfl, rfl⟩

lemma has_setReg {blk numReg : ℕ} {value : BitVec 32} :
    (setReg w blk numReg value).has x =
      if x.1 = blk ∧ x.2.1 = numReg then value.getLsbD x.2.2 else w.has x := by
  rw [Regs.has, setReg]
  by_cases hblk : x.1 = blk
  · by_cases hreg : x.2.1 = numReg
    · rw [if_pos ⟨hblk, hreg⟩, hblk, hreg, Function.update_self, Function.update_self]
    · rw [if_neg (fun h => hreg h.2), Regs.has, hblk, Function.update_self,
        Function.update_of_ne hreg]
  · rw [if_neg (fun h => hblk h.1), Regs.has, Function.update_of_ne hblk]

lemma writeReg_adds {blk numReg : ℕ} {value : BitVec 32}
    (h : writeReg w blk numReg value = some w') :
    RegExists blk numReg ∧ Adds w w' (valueBits (blk, numReg, value)) := by
  rw [writeReg] at h
  split at h
  · next hex =>
    rw [Option.some.injEq] at h
    subst h
    refine ⟨hex, fun x => ?_⟩
    rw [has_setReg, mem_valueBits]
    split
    · next hx =>
      rw [BitVec.getLsbD_or, Bool.or_eq_true, Regs.has, hx.1, hx.2]
      simp
    · next hx =>
      simp only [not_and] at hx
      constructor
      · exact .inl
      · rintro (h | ⟨hblk, hreg, _⟩)
        · exact h
        · exact absurd hreg (hx hblk)
  · exact absurd h (by simp)

lemma readReg_eq {blk numReg : ℕ} {value : BitVec 32} (h : readReg r blk numReg = some value) :
    RegExists blk numReg ∧ value = r blk numReg := by
  rw [readReg] at h
  split at h
  · next hex => exact ⟨hex, (Option.some.inj h).symm⟩
  · exact absurd h (by simp)

/-! ### Counting in a register -/

lemma setCntLoop_eq {m : BitVec 32} : ∀ {n i cnt : ℕ} {v : BitVec 32}, i + n ≤ 32 → 0 < cnt →
    (∀ b, (setCntLoop m n i v cnt).1.getLsbD b = true ↔
      v.getLsbD b = true ∨ b ∈ (free m.getLsbD (List.range' i n)).take cnt) ∧
    (setCntLoop m n i v cnt).2 = cnt - (free m.getLsbD (List.range' i n)).length := by
  intro n
  induction n with
  | zero =>
    intro i cnt v _ _
    simp [setCntLoop, free]
  | succ n ih =>
    intro i cnt v hle hcnt
    have hzero := and_one_shiftLeft_eq_zero (m := m) (show i < 32 by omega)
    rw [setCntLoop, List.range'_succ]
    have hor : ∀ b, (v ||| 1#32 <<< i).getLsbD b = true ↔ v.getLsbD b = true ∨ b = i := by
      intro b
      rw [BitVec.getLsbD_or, getLsbD_one_shiftLeft (by omega), Bool.or_eq_true, decide_eq_true_eq]
      exact or_congr_right eq_comm
    by_cases hfree : m.getLsbD i = false
    · have hcons : free m.getLsbD (i :: List.range' (i + 1) n) =
          i :: free m.getLsbD (List.range' (i + 1) n) :=
        List.filter_cons_of_pos (by simp [hfree])
      rw [if_pos (hzero.mpr hfree), hcons]
      obtain ⟨cnt, rfl⟩ := Nat.exists_eq_succ_of_ne_zero (Nat.pos_iff_ne_zero.mp hcnt)
      simp only [Nat.succ_eq_add_one, Nat.add_sub_cancel, List.take_succ_cons, List.mem_cons,
        List.length_cons]
      by_cases hlast : cnt = 0
      · subst hlast
        simp only [if_true, List.take_zero, List.not_mem_nil, or_false]
        exact ⟨hor, by omega⟩
      · rw [if_neg hlast]
        obtain ⟨hbits, hcount⟩ := @ih (i + 1) cnt (v ||| 1#32 <<< i)
          (by omega) (by omega)
        refine ⟨fun b => ?_, by omega⟩
        rw [hbits, hor, or_assoc]
    · have hcons : free m.getLsbD (i :: List.range' (i + 1) n) =
          free m.getLsbD (List.range' (i + 1) n) :=
        List.filter_cons_of_neg (by simpa using hfree)
      rw [if_neg fun h => hfree (hzero.mp h), hcons]
      exact ih (by omega) hcnt

/-- The free bits of a piece, by their numbers in the register. -/
lemma free_piece_bits (r : Regs) (p : Piece) :
    free r.has p.bits = (free (r p.blk p.numReg).getLsbD (List.range' p.bitStart p.bitCount)).map
      fun n => (p.blk, p.numReg, n) := by
  rw [free, free, Piece.bits, List.filter_map]
  rfl

/-- Counting in a piece sets its first free bits. -/
lemma writeCnt_piece {p : Piece} (hp : p.bitStart + p.bitCount ≤ 32) (hcnt : 0 < s.cnt)
    (h : utilityWriteCnt r p.numReg p.blk p.bitStart p.bitCount s = some s') :
    RegExists p.blk p.numReg ∧ Adds s.wdata s'.wdata ((free r.has p.bits).take s.cnt) ∧
    s'.cnt = s.cnt - (free r.has p.bits).length ∧
    s'.err = (if s'.cnt = 0 then .okCnt else .ok) ∧
    s'.bitsCounter = s.bitsCounter + p.bitCount := by
  simp only [utilityWriteCnt, Option.bind_eq_bind, Option.bind_eq_some_iff, Option.pure_def] at h
  obtain ⟨reg, hread, ⟨w, cnt⟩, hset, h⟩ := h
  obtain ⟨hex, rfl⟩ := readReg_eq hread
  rw [Option.some.injEq] at h
  subst h
  refine ⟨hex, ?_⟩
  have hfree : free (r p.blk p.numReg &&& getMask p.bitCount p.bitStart).getLsbD
      (List.range' p.bitStart p.bitCount) =
      free (r p.blk p.numReg).getLsbD (List.range' p.bitStart p.bitCount) := by
    refine List.filter_congr fun n hn => ?_
    rw [List.mem_range'_1] at hn
    rw [BitVec.getLsbD_and, getLsbD_getMask hp, decide_eq_true hn, Bool.and_true]
  split at hset
  · simp only [Option.bind_eq_some_iff, setCntInReg, if_pos hp, Option.some.injEq,
      Prod.mk.injEq] at hset
    obtain ⟨v, rfl, w', hw, rfl, rfl⟩ := hset
    obtain ⟨hbits, hcount⟩ := setCntLoop_eq
      (m := r p.blk p.numReg &&& getMask p.bitCount p.bitStart) (v := 0) hp hcnt
    rw [hfree] at hbits hcount
    refine ⟨fun x => ?_, ?_, rfl, rfl⟩
    · rw [(writeReg_adds hw).2 x, mem_valueBits, free_piece_bits, ← List.map_take, List.mem_map]
      refine or_congr_right ?_
      simp only [hbits]
      constructor
      · rintro ⟨hblk, hreg, hv | hx⟩
        · exact absurd hv (by simp)
        · exact ⟨_, hx, by rw [← hblk, ← hreg]⟩
      · rintro ⟨n, hn, rfl⟩
        exact ⟨rfl, rfl, .inr hn⟩
    · rw [free_piece_bits, List.length_map]
      exact hcount
  · next hfull =>
    rw [Option.some.injEq, Prod.mk.injEq] at hset
    obtain ⟨rfl, rfl⟩ := hset
    have hnone : free r.has p.bits = [] := by
      rw [free_piece_bits, ← hfree, List.map_eq_nil_iff, free, List.filter_eq_nil_iff]
      intro n hn
      rw [List.mem_range'_1] at hn
      have hmask : r p.blk p.numReg &&& getMask p.bitCount p.bitStart =
          getMask p.bitCount p.bitStart := BitVec.xor_eq_zero_iff.mp (not_not.mp hfull)
      rw [hmask, getLsbD_getMask hp, decide_eq_true hn]
      simp
    rw [hnone, List.take_nil]
    exact ⟨Adds.refl _, rfl, rfl, rfl⟩

/-! ### The pieces of a field -/

/-- A function applied to pieces in turn. -/
def runPieces (func : FuncProc) (req : ℕ) : List Piece → Progress → Option Progress
  | [], s => some s
  | p :: ps, s =>
    if s.Going req then do
      let s ← func p.numReg p.blk p.bitStart (min p.bitCount (req - s.bitsCounter)) s
      runPieces func req ps s
    else some s

lemma runPieces_of_not_going {func : FuncProc} (h : ¬ s.Going req) :
    runPieces func req ps s = some s := by
  cases ps with
  | nil => rfl
  | cons p ps => rw [runPieces, if_neg h]

lemma runPieces_append {func : FuncProc} :
    runPieces func req (ps ++ qs) s = (runPieces func req ps s).bind (runPieces func req qs) := by
  induction ps generalizing s with
  | nil => rfl
  | cons p ps ih =>
    rw [List.cons_append, runPieces, runPieces]
    split
    · simp only [Option.bind_eq_bind, Option.bind_assoc, ih]
    · next h => exact (runPieces_of_not_going h).symm

lemma processRegs_eq {func : FuncProc} {d : Desc} : ∀ {fuel iReg : ℕ} {s : Progress},
    processRegs func req d fuel iReg s = runPieces func req (piecesFrom d fuel iReg) s := by
  intro fuel
  induction fuel with
  | zero => intro iReg s; rfl
  | succ fuel ih =>
    intro iReg s
    rw [processRegs, piecesFrom]
    by_cases hgo : s.Going req
    · rw [if_pos hgo]
      cases getRegNum d.bitStart d.bitCount iReg with
      | none => rfl
      | some numReg =>
        have hmin : ∀ n, (if s.bitsCounter + n > req then req - s.bitsCounter else n) =
            min n (req - s.bitsCounter) := by
          intro n
          have := hgo.2
          split_ifs <;> omega
        simp only [runPieces, if_pos hgo, hmin, ih]
    · rw [if_neg hgo, runPieces_of_not_going hgo]

/-- The descriptors before the first one that does not suit the coding scheme. -/
def readable (rdata6 : BitVec 32) (field : List Desc) : List Desc :=
  field.takeWhile fun d => checkRangeOfBits rdata6 d.efuseBlock d.bitStart d.bitCount

/-- Processing a field is processing the pieces of its readable descriptors; a descriptor that
does not suit the coding scheme stops it. -/
lemma processDescs_eq {rdata6 : BitVec 32} {func : FuncProc} {ds : List Desc} :
    processDescs rdata6 func req ds s =
      (runPieces func req ((readable rdata6 ds).flatMap Desc.pieces) s).map fun s =>
        if s.Going req ∧ readable rdata6 ds ≠ ds then { s with err := .coding } else s := by
  induction ds generalizing s with
  | nil => simp [processDescs, readable, runPieces]
  | cons d ds ih =>
    by_cases hgo : s.Going req
    · rw [processDescs, if_pos hgo]
      simp only [processRegs_eq]
      cases hok : checkRangeOfBits rdata6 d.efuseBlock d.bitStart d.bitCount with
      | true =>
        have hcons : readable rdata6 (d :: ds) = d :: readable rdata6 ds :=
          List.takeWhile_cons_of_pos hok
        rw [if_pos rfl, hcons, List.flatMap_cons, runPieces_append, Option.map_bind]
        simp only [Option.bind_eq_bind, Desc.pieces, ih, ne_eq, List.cons.injEq, true_and]
        rfl
      | false =>
        have hnil : readable rdata6 (d :: ds) = [] :=
          List.takeWhile_cons_of_neg (by simp [hok])
        have hstop : ¬ Progress.Going req { s with err := .coding } := fun h => by
          cases h.1
        rw [hnil, if_neg (by simp), runPieces_of_not_going hstop]
        simp only [Option.bind_eq_bind, Option.bind_some, List.flatMap_nil, runPieces,
          Option.map_some, ih, runPieces_of_not_going hstop]
        rw [if_neg (fun h => hstop h.1), if_pos ⟨hgo, by simp⟩]
    · rw [processDescs, if_neg hgo, runPieces_of_not_going hgo, Option.map_some,
        if_neg (fun h => hgo h.1)]

/-! ### Counting in a field -/

lemma length_piece_bits (p : Piece) : p.bits.length = p.bitCount := by simp [Piece.bits]

lemma mem_piece_bits {p : Piece} (h : x ∈ p.bits) : x.1 = p.blk ∧ x.2.1 = p.numReg := by
  obtain ⟨n, _, rfl⟩ := List.mem_map.mp h
  exact ⟨rfl, rfl⟩

/-- Counting in pieces sets the first free bits of all of them. -/
lemma writeCnt_run (hps : ∀ p ∈ ps, p.bitStart + p.bitCount ≤ 32) (herr : s.err = .ok)
    (hcnt : 0 < s.cnt) (hreq : s.bitsCounter + (ps.flatMap Piece.bits).length ≤ req)
    (h : runPieces (utilityWriteCnt r) req ps s = some s') :
    Adds s.wdata s'.wdata ((free r.has (ps.flatMap Piece.bits)).take s.cnt) ∧
    s'.cnt = s.cnt - (free r.has (ps.flatMap Piece.bits)).length ∧
    s'.err = (if s'.cnt = 0 then .okCnt else .ok) ∧
    ∀ x ∈ (free r.has (ps.flatMap Piece.bits)).take s.cnt, RegExists x.1 x.2.1 := by
  induction ps generalizing s with
  | nil =>
    rw [runPieces, Option.some.injEq] at h
    subst h
    rw [if_neg (Nat.pos_iff_ne_zero.mp hcnt)]
    exact ⟨by simpa [free] using Adds.refl _, by simp [free], herr, by simp [free]⟩
  | cons p ps ih =>
    rw [List.flatMap_cons, List.length_append, length_piece_bits] at hreq
    have hsplit : free r.has (p.bits ++ ps.flatMap Piece.bits) =
        free r.has p.bits ++ free r.has (ps.flatMap Piece.bits) := List.filter_append ..
    rw [List.flatMap_cons, hsplit, List.take_append]
    by_cases hgo : s.Going req
    · rw [runPieces, if_pos hgo, Nat.min_eq_left (by omega), Option.bind_eq_bind,
        Option.bind_eq_some_iff] at h
      obtain ⟨s₁, hpiece, h⟩ := h
      obtain ⟨hex, hadds, hcnt₁, herr₁, hbits₁⟩ :=
        writeCnt_piece (hps p List.mem_cons_self) hcnt hpiece
      have hexp : ∀ x ∈ (free r.has p.bits).take s.cnt, RegExists x.1 x.2.1 := by
        intro x hx
        obtain ⟨hblk, hreg⟩ := mem_piece_bits (mem_free.mp (List.mem_of_mem_take hx)).1
        rw [hblk, hreg]
        exact hex
      by_cases hdone : s₁.cnt = 0
      · -- the piece has enough free bits, and the code for that ends the loop
        have hstop : ¬ s₁.Going req := by
          rintro ⟨hok, _⟩
          rw [herr₁, if_pos hdone] at hok
          cases hok
        rw [runPieces_of_not_going hstop, Option.some.injEq] at h
        subst h
        rw [show s.cnt - (free r.has p.bits).length = 0 by omega, List.take_zero,
          List.append_nil, List.length_append]
        exact ⟨hadds, by omega, herr₁, hexp⟩
      · obtain ⟨hadds', hcnt', herr', hex'⟩ := ih
          (fun p hp => hps p (List.mem_cons_of_mem _ hp)) (by rw [herr₁, if_neg hdone])
          (by omega) (by omega) h
        rw [hcnt₁] at hadds' hex'
        refine ⟨hadds.trans hadds', ?_, herr', ?_⟩
        · rw [List.length_append]
          omega
        · intro x hx
          exact (List.mem_append.mp hx).elim (hexp x) (hex' x)
    · rw [runPieces_of_not_going hgo, Option.some.injEq] at h
      subst h
      have hfull : ¬ s.bitsCounter < req := fun hlt => hgo ⟨herr, hlt⟩
      have hp : p.bits = [] := List.length_eq_zero_iff.mp (by rw [length_piece_bits]; omega)
      have hrest : ps.flatMap Piece.bits = [] := List.length_eq_zero_iff.mp (by omega)
      rw [hp, hrest, if_neg (Nat.pos_iff_ne_zero.mp hcnt)]
      exact ⟨by simpa [free] using Adds.refl _, by simp [free], herr, by simp [free]⟩

/-! ### Writing a blob -/

lemma fillRegLoop_filled {blob : ℕ → BitVec 8} : ∀ {fuel bitCount shiftReg filled : ℕ}
    {v : BitVec 32}, bitCount ≤ fuel →
    (fillRegLoop blob fuel bitCount shiftReg v filled).2 = filled + bitCount := by
  intro fuel
  induction fuel with
  | zero =>
    intro bitCount shiftReg filled v hle
    rw [Nat.le_zero.mp hle]
    rfl
  | succ fuel ih =>
    intro bitCount shiftReg filled v hle
    rw [fillRegLoop]
    by_cases hpos : bitCount > 0
    · rw [if_pos hpos]
      split
      · rw [ih (by omega)]
        omega
      · rw [ih (by omega)]
        omega
    · rw [if_neg hpos]
      omega

lemma fillReg_filled (bitStart bitCount : ℕ) (blob : ℕ → BitVec 8) (filled : ℕ) :
    (fillReg bitStart bitCount blob filled).2 = filled + bitCount := by
  rw [fillReg]
  dsimp only
  rw [fillRegLoop_filled (by omega)]
  split_ifs <;> omega

/-- The values the pieces are asked to hold, from a bit of the blob on. -/
def blobWrites (blob : ℕ → BitVec 8) (req : ℕ) : List Piece → ℕ → List (ℕ × ℕ × BitVec 32)
  | [], _ => []
  | p :: ps, bits =>
    if bits < req then
      (p.blk, p.numReg, (fillReg p.bitStart (min p.bitCount (req - bits)) blob bits).1) ::
        blobWrites blob req ps (bits + min p.bitCount (req - bits))
    else []

/-- No bit of the value is burned yet. -/
def clear (r : Regs) (u : ℕ × ℕ × BitVec 32) : Bool := r u.1 u.2.1 &&& u.2.2 = 0

lemma clear_iff {u : ℕ × ℕ × BitVec 32} :
    clear r u = true ↔ ∀ x ∈ valueBits u, r.has x = false := by
  rw [clear, decide_eq_true_eq]
  constructor
  · intro h x hx
    obtain ⟨hblk, hreg, hbit⟩ := mem_valueBits.mp hx
    have hand := congrArg (fun v => v.getLsbD x.2.2) h
    rw [Regs.has, hblk, hreg]
    simpa [hbit] using hand
  · intro h
    refine BitVec.eq_of_getLsbD_eq fun n _ => ?_
    rw [BitVec.getLsbD_and]
    cases hbit : u.2.2.getLsbD n with
    | false => simp
    | true =>
      have hx := h (u.1, u.2.1, n) (mem_valueBits.mpr ⟨rfl, rfl, hbit⟩)
      rw [Regs.has] at hx
      simp [hx]

lemma utilityWriteReg_eq {blk numReg : ℕ} {value : BitVec 32} {err : EspErr}
    (h : utilityWriteReg r w blk numReg value = some (err, w')) :
    if clear r (blk, numReg, value) then
      err = .ok ∧ RegExists blk numReg ∧ Adds w w' (valueBits (blk, numReg, value))
    else err = .repeatedProg ∧ w' = w := by
  rw [utilityWriteReg, Option.bind_eq_bind, Option.bind_eq_some_iff] at h
  obtain ⟨reg, hread, h⟩ := h
  obtain ⟨hex, rfl⟩ := readReg_eq hread
  rw [clear]
  by_cases hzero : r blk numReg &&& value = 0
  · rw [if_neg (not_not.mpr hzero), Option.bind_eq_bind, Option.bind_eq_some_iff] at h
    obtain ⟨w₁, hw, h⟩ := h
    rw [Option.pure_def, Option.some.injEq, Prod.mk.injEq] at h
    obtain ⟨rfl, rfl⟩ := h
    rw [if_pos (decide_eq_true hzero)]
    exact ⟨rfl, writeReg_adds hw⟩
  · rw [if_pos hzero, Option.pure_def, Option.some.injEq, Prod.mk.injEq] at h
    rw [if_neg (by simpa using hzero)]
    exact ⟨h.1.symm, h.2.symm⟩

/-- A blob is written up to the first value with a burned bit. -/
lemma writeBlob_run {blob : ℕ → BitVec 8} (herr : s.err = .ok)
    (h : runPieces (utilityWriteBlob r blob) req ps s = some s') :
    Adds s.wdata s'.wdata
      (((blobWrites blob req ps s.bitsCounter).takeWhile (clear r)).flatMap valueBits) ∧
    (s'.err = .ok ↔ ∀ u ∈ blobWrites blob req ps s.bitsCounter, clear r u = true) ∧
    (s'.err = .ok → s.bitsCounter ≤ req →
      s'.bitsCounter = min req (s.bitsCounter + (ps.flatMap Piece.bits).length)) ∧
    ∀ x ∈ ((blobWrites blob req ps s.bitsCounter).takeWhile (clear r)).flatMap valueBits,
      RegExists x.1 x.2.1 := by
  induction ps generalizing s with
  | nil =>
    rw [runPieces, Option.some.injEq] at h
    subst h
    refine ⟨by simpa [blobWrites] using Adds.refl _, by simp [blobWrites, herr], fun _ hle => ?_,
      by simp [blobWrites]⟩
    exact (Nat.min_eq_right hle).symm
  | cons p ps ih =>
    by_cases hgo : s.Going req
    · rw [runPieces, if_pos hgo, Option.bind_eq_bind, Option.bind_eq_some_iff] at h
      obtain ⟨s₁, hpiece, h⟩ := h
      simp only [utilityWriteBlob, Option.bind_eq_bind, Option.bind_eq_some_iff,
        Option.pure_def, Option.some.injEq] at hpiece
      obtain ⟨⟨err, w⟩, hwrite, rfl⟩ := hpiece
      have hspec := utilityWriteReg_eq hwrite
      rw [fillReg_filled] at h
      rw [blobWrites, if_pos hgo.2]
      cases hclear : clear r (p.blk, p.numReg,
          (fillReg p.bitStart (min p.bitCount (req - s.bitsCounter)) blob s.bitsCounter).1) with
      | true =>
        rw [hclear, if_pos rfl] at hspec
        obtain ⟨rfl, hex, hadds⟩ := hspec
        obtain ⟨hadds', hclear', hbits', hex'⟩ := ih rfl h
        rw [List.takeWhile_cons_of_pos hclear, List.flatMap_cons]
        refine ⟨hadds.trans hadds', ?_, fun hok hle => ?_, fun x hx => ?_⟩
        · rw [hclear', List.forall_mem_cons, hclear, eq_self_iff_true, true_and]
        · have hlt := hgo.2
          rw [hbits' hok (by dsimp only; omega), List.flatMap_cons, List.length_append,
            length_piece_bits]
          dsimp only
          omega
        · rcases List.mem_append.mp hx with hx | hx
          · obtain ⟨hblk, hreg, _⟩ := mem_valueBits.mp hx
            rw [hblk, hreg]
            exact hex
          · exact hex' x hx
      | false =>
        rw [hclear, if_neg (by simp)] at hspec
        obtain ⟨rfl, rfl⟩ := hspec
        rw [runPieces_of_not_going (fun h => by cases h.1), Option.some.injEq] at h
        subst h
        rw [List.takeWhile_cons_of_neg (by simp [hclear]), List.flatMap_nil, List.forall_mem_cons,
          hclear]
        exact ⟨Adds.refl _, by simp, fun hok => EspErr.noConfusion hok,
          fun x hx => absurd hx List.not_mem_nil⟩
    · rw [runPieces_of_not_going hgo, Option.some.injEq] at h
      subst h
      have hfull : ¬ s.bitsCounter < req := fun hlt => hgo ⟨herr, hlt⟩
      rw [blobWrites, if_neg hfull]
      refine ⟨Adds.refl _, by simp [herr], fun _ _ => by omega, fun x hx => absurd hx (by simp)⟩

/-! ### The bits of the pieces -/

lemma pieces_le {d : Desc} {p : Piece} (h : p ∈ d.pieces) : p.bitStart + p.bitCount ≤ 32 := by
  have hfrom : ∀ {fuel iReg : ℕ}, p ∈ piecesFrom d fuel iReg →
      p.bitStart + p.bitCount ≤ 32 := by
    intro fuel
    induction fuel with
    | zero => intro iReg h; exact absurd h List.not_mem_nil
    | succ fuel ih =>
      intro iReg h
      rw [piecesFrom] at h
      split at h
      · exact absurd h List.not_mem_nil
      · rcases List.mem_cons.mp h with rfl | h
        · exact piece_le ..
        · exact ih h
  exact hfrom h

/-- The bits of a field up to the first descriptor that does not suit the coding scheme. -/
def fieldBits (rdata6 : BitVec 32) (field : List Desc) : List Pos :=
  (readable rdata6 field).flatMap Desc.bits

lemma pieces_fieldBits (rdata6 : BitVec 32) (field : List Desc) :
    ((readable rdata6 field).flatMap Desc.pieces).flatMap Piece.bits =
      fieldBits rdata6 field := by
  rw [List.flatMap_assoc, fieldBits]
  congr 1
  funext d
  exact pieces_bits d

lemma length_fieldBits_le (rdata6 : BitVec 32) (field : List Desc) :
    (fieldBits rdata6 field).length ≤ getFieldSize field := by
  have hlen : (fun d : Desc => d.bits.length) = Desc.bitCount := by
    funext d
    simp [Desc.bits]
  have hsplit : getFieldSize field = ((readable rdata6 field).map Desc.bitCount).sum +
      ((field.dropWhile fun d =>
        checkRangeOfBits rdata6 d.efuseBlock d.bitStart d.bitCount).map Desc.bitCount).sum := by
    rw [← List.sum_append, ← List.map_append, readable, List.takeWhile_append_dropWhile]
    rfl
  rw [fieldBits, List.length_flatMap, hlen, hsplit]
  exact Nat.le_add_right ..

end EspIdf.Efuse
