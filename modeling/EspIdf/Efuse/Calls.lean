/-
# One call

What a call sets in the program registers depends on the burned bits and not on what is staged
already.  So a call in batch mode adds to the program registers what the same call outside
batch mode burns, as long as both see the same bits burned.
-/
import EspIdf.Efuse.Coding
import EspIdf.Efuse.Staging

namespace EspIdf.Efuse

open OneTime

/-- A call of one of the writing functions. -/
inductive Call where
  | writeFieldBlob (field : Option (List Desc)) (src : Option (ℕ → BitVec 8)) (srcSizeBits : ℕ)
  | writeFieldCnt (field : Option (List Desc)) (cnt : ℕ)
  | writeReg (blk numReg : ℕ) (val : BitVec 32)

def Call.run (e : Chip) : Call → Option (EspErr × Chip)
  | .writeFieldBlob field src srcSizeBits => Efuse.writeFieldBlob e field src srcSizeBits
  | .writeFieldCnt field cnt => Efuse.writeFieldCnt e field cnt
  | .writeReg blk numReg val => efuseWriteReg e blk numReg val

/-- The values a blob writes to the registers of its field in turn. -/
def blobValues (rdata6 : BitVec 32) (field : List Desc) (src : ℕ → BitVec 8)
    (srcSizeBits : ℕ) : List (ℕ × ℕ × BitVec 32) :=
  blobWrites src (min srcSizeBits (getFieldSize field))
    ((readable rdata6 field).flatMap Desc.pieces) 0

variable {rdata6 : BitVec 32} {r w w' : Regs} {c : Call} {err : EspErr} {e e' : Chip} {x : Pos}

/-- The bits a call sets when the bits of `r` are burned: the values of a blob up to the first
one with a burned bit, the first free bits of a field that is counted in. -/
def Call.sets (rdata6 : BitVec 32) (r : Regs) : Call → List Pos
  | .writeFieldBlob (some field) (some src) srcSizeBits =>
    ((blobValues rdata6 field src srcSizeBits).takeWhile (clear r)).flatMap valueBits
  | .writeFieldCnt (some field) cnt => (free r.has (fieldBits rdata6 field)).take cnt
  | .writeReg blk numReg val =>
    if clear r (blk, numReg, val) then valueBits (blk, numReg, val) else []
  | _ => []

/-- The call can do all it is asked for when the bits of `r` are burned. -/
def Call.Accepted (rdata6 : BitVec 32) (r : Regs) : Call → Prop
  | .writeFieldBlob (some field) (some src) srcSizeBits =>
    srcSizeBits ≠ 0 ∧ (∀ u ∈ blobValues rdata6 field src srcSizeBits, clear r u = true) ∧
    (readable rdata6 field = field ∨
      min srcSizeBits (getFieldSize field) ≤ (fieldBits rdata6 field).length)
  | .writeFieldCnt (some field) cnt =>
    cnt ≠ 0 ∧ cnt ≤ (free r.has (fieldBits rdata6 field)).length
  | .writeReg blk numReg val => clear r (blk, numReg, val) = true
  | _ => False

/-- The call as a request for bits. -/
def Call.request (rdata6 : BitVec 32) : Call → Request Pos
  | .writeFieldBlob (some field) (some src) srcSizeBits =>
    .exact ((blobValues rdata6 field src srcSizeBits).flatMap valueBits)
  | .writeFieldCnt (some field) cnt => .count (fieldBits rdata6 field) cnt
  | .writeReg blk numReg val => .exact (valueBits (blk, numReg, val))
  | _ => .exact []

/-- What a call does to the program registers, before anything is burned. -/
def Call.stage (rdata6 : BitVec 32) (r w : Regs) : Call → Option (EspErr × Regs)
  | .writeFieldBlob (some field) (some src) srcSizeBits =>
    if srcSizeBits = 0 then some (.invalidArg, w)
    else (utilityProcess rdata6 field w 0 srcSizeBits (utilityWriteBlob r src)).map fun s =>
      (s.err, s.wdata)
  | .writeFieldCnt (some field) cnt =>
    if cnt = 0 then some (.invalidArg, w)
    else (utilityProcess rdata6 field w cnt 0 (utilityWriteCnt r)).map fun s =>
      let err := if s.cnt ≠ 0 then .cntIsFull else s.err
      (if err = .okCnt then .ok else err, s.wdata)
  | .writeReg blk numReg val => utilityWriteReg r w blk numReg val
  | _ => some (.invalidArg, w)

/-! ### Staging -/

/-- What staging a call comes to. -/
structure Staged (rdata6 : BitVec 32) (r w : Regs) (c : Call) (err : EspErr) (w' : Regs) :
    Prop where
  adds : Adds w w' (c.sets rdata6 r)
  exist : ∀ x ∈ c.sets rdata6 r, RegExists x.1 x.2.1
  ok_iff : err = .ok ↔ c.Accepted rdata6 r

lemma staged_blob {field : List Desc} {src : ℕ → BitVec 8} {srcSizeBits : ℕ}
    (hsize : srcSizeBits ≠ 0) {s : Progress}
    (h : utilityProcess rdata6 field w 0 srcSizeBits (utilityWriteBlob r src) = some s) :
    Staged rdata6 r w (.writeFieldBlob (some field) (some src) srcSizeBits) s.err s.wdata := by
  rw [utilityProcess] at h
  simp only [if_neg hsize, processDescs_eq, Option.map_eq_some_iff] at h
  obtain ⟨s₁, hrun, rfl⟩ := h
  obtain ⟨hadds, hok, hbits, hex⟩ := writeBlob_run rfl hrun
  rw [pieces_fieldBits] at hbits
  dsimp only at hadds hok hbits hex
  rw [Nat.zero_add] at hbits
  have hmore : s₁.err = .ok → (s₁.Going (min srcSizeBits (getFieldSize field)) ↔
      ¬ min srcSizeBits (getFieldSize field) ≤ (fieldBits rdata6 field).length) := by
    intro hs
    rw [Progress.Going, hbits hs (Nat.zero_le _)]
    simp only [hs, true_and]
    omega
  by_cases hstop : s₁.Going (min srcSizeBits (getFieldSize field)) ∧ readable rdata6 field ≠ field
  · rw [if_pos hstop]
    refine ⟨hadds, hex, fun h => EspErr.noConfusion h, ?_⟩
    rintro ⟨_, _, hread | hlen⟩
    · exact absurd hread hstop.2
    · exact absurd hlen ((hmore hstop.1.1).mp hstop.1)
  · rw [if_neg hstop]
    refine ⟨hadds, hex, fun hs => ⟨hsize, hok.mp hs, ?_⟩, fun hacc => hok.mpr hacc.2.1⟩
    by_cases hread : readable rdata6 field = field
    · exact .inl hread
    · refine .inr ?_
      by_contra hlen
      exact hstop ⟨(hmore hs).mpr hlen, hread⟩

lemma staged_cnt {field : List Desc} {cnt : ℕ} (hcnt : cnt ≠ 0) {s : Progress}
    (h : utilityProcess rdata6 field w cnt 0 (utilityWriteCnt r) = some s)
    (herr : err = if s.cnt ≠ 0 then .cntIsFull else s.err) :
    Staged rdata6 r w (.writeFieldCnt (some field) cnt) (if err = .okCnt then .ok else err)
      s.wdata := by
  rw [utilityProcess, if_pos rfl, processDescs_eq, Option.map_eq_some_iff] at h
  obtain ⟨s₁, hrun, hs⟩ := h
  have hps : ∀ p ∈ (readable rdata6 field).flatMap Desc.pieces, p.bitStart + p.bitCount ≤ 32 := by
    intro p hp
    obtain ⟨d, _, hp⟩ := List.mem_flatMap.mp hp
    exact pieces_le hp
  obtain ⟨hadds, hleft, herr₁, hex⟩ := writeCnt_run hps rfl (Nat.pos_iff_ne_zero.mpr hcnt)
    (by rw [pieces_fieldBits, Nat.zero_add]; exact length_fieldBits_le ..) hrun
  rw [pieces_fieldBits] at hadds hleft hex
  dsimp only at hadds hleft hex
  -- a refused descriptor changes only the error
  have hcnt' : s.cnt = s₁.cnt := by
    rw [← hs]
    split <;> rfl
  have hwdata : s.wdata = s₁.wdata := by
    rw [← hs]
    split <;> rfl
  rw [hwdata]
  rw [hcnt'] at herr
  by_cases hdone : s₁.cnt = 0
  · have hstop : ¬ (s₁.Going (getFieldSize field) ∧ readable rdata6 field ≠ field) := by
      rintro ⟨⟨hok, _⟩, _⟩
      rw [herr₁, if_pos hdone] at hok
      exact EspErr.noConfusion hok
    rw [if_neg hstop] at hs
    rw [herr, if_neg (not_not.mpr hdone), ← hs, herr₁, if_pos hdone, if_pos rfl]
    exact ⟨hadds, hex, fun _ => ⟨hcnt, by omega⟩, fun _ => rfl⟩
  · rw [herr, if_pos hdone, if_neg (by simp)]
    refine ⟨hadds, hex, fun h => EspErr.noConfusion h, ?_⟩
    rintro ⟨_, hle⟩
    omega

lemma staged_writeReg {blk numReg : ℕ} {val : BitVec 32}
    (h : utilityWriteReg r w blk numReg val = some (err, w')) :
    Staged rdata6 r w (.writeReg blk numReg val) err w' := by
  have hspec := utilityWriteReg_eq h
  by_cases hclear : clear r (blk, numReg, val) = true
  · rw [if_pos hclear] at hspec
    obtain ⟨rfl, hex, hadds⟩ := hspec
    have hsets : Call.sets rdata6 r (.writeReg blk numReg val) = valueBits (blk, numReg, val) :=
      if_pos hclear
    refine ⟨by rwa [hsets], fun x hx => ?_, fun _ => hclear, fun _ => rfl⟩
    rw [hsets] at hx
    obtain ⟨hblk, hreg, _⟩ := mem_valueBits.mp hx
    rw [hblk, hreg]
    exact hex
  · rw [if_neg hclear] at hspec
    obtain ⟨rfl, rfl⟩ := hspec
    have hsets : Call.sets rdata6 r (.writeReg blk numReg val) = [] := if_neg hclear
    refine ⟨by rw [hsets]; exact Adds.refl _, fun x hx => ?_, fun h => EspErr.noConfusion h,
      fun h => absurd h hclear⟩
    rw [hsets] at hx
    exact absurd hx List.not_mem_nil

/-- A refused argument leaves the registers alone. -/
lemma staged_invalid (hsets : c.sets rdata6 r = []) (hacc : ¬ c.Accepted rdata6 r) :
    Staged rdata6 r w c .invalidArg w where
  adds := hsets ▸ Adds.refl w
  exist := fun _ hx => absurd (hsets ▸ hx) List.not_mem_nil
  ok_iff := ⟨fun h => EspErr.noConfusion h, fun h => absurd h hacc⟩

theorem Call.stage_spec (h : c.stage rdata6 r w = some (err, w')) :
    Staged rdata6 r w c err w' := by
  have hnone : some (EspErr.invalidArg, w) = some (err, w') → c.sets rdata6 r = [] →
      ¬ c.Accepted rdata6 r → Staged rdata6 r w c err w' := by
    intro h hsets hacc
    rw [Option.some.injEq, Prod.mk.injEq] at h
    obtain ⟨rfl, rfl⟩ := h
    exact staged_invalid hsets hacc
  cases c with
  | writeFieldBlob field src srcSizeBits =>
    cases field with
    | none => exact hnone h rfl id
    | some field =>
      cases src with
      | none => exact hnone h rfl id
      | some src =>
        by_cases hsize : srcSizeBits = 0
        · subst hsize
          refine hnone h ?_ (fun hacc => hacc.1 rfl)
          simp only [Call.sets, blobValues, Nat.zero_min]
          cases (readable rdata6 field).flatMap Desc.pieces <;> rfl
        · simp only [Call.stage, if_neg hsize, Option.map_eq_some_iff, Prod.mk.injEq] at h
          obtain ⟨s, hs, rfl, rfl⟩ := h
          exact staged_blob hsize hs
  | writeFieldCnt field cnt =>
    cases field with
    | none => exact hnone h rfl id
    | some field =>
      by_cases hcnt : cnt = 0
      · subst hcnt
        exact hnone h rfl (fun hacc => hacc.1 rfl)
      · simp only [Call.stage, if_neg hcnt, Option.map_eq_some_iff, Prod.mk.injEq] at h
        obtain ⟨s, hs, rfl, rfl⟩ := h
        exact staged_cnt hcnt hs rfl
  | writeReg blk numReg val => exact staged_writeReg h

/-- An accepted call is a granted request and sets what the request wants. -/
lemma Call.Accepted.request (h : c.Accepted rdata6 r) :
    (c.request rdata6).Granted r.has ∧
    (c.request rdata6).want r.has = (c.sets rdata6 r).toFinset := by
  cases c with
  | writeFieldBlob field src srcSizeBits =>
    cases field with
    | none => exact h.elim
    | some field =>
      cases src with
      | none => exact h.elim
      | some src =>
        refine ⟨fun x hx => ?_, ?_⟩
        · obtain ⟨u, hu, hx⟩ := List.mem_flatMap.mp hx
          exact clear_iff.mp (h.2.1 u hu) x hx
        · rw [Call.sets, List.takeWhile_eq_self_iff.mpr h.2.1]
          rfl
  | writeFieldCnt field cnt =>
    cases field with
    | none => exact h.elim
    | some field => exact ⟨h.2, rfl⟩
  | writeReg blk numReg val =>
    have hclear : clear r (blk, numReg, val) = true := h
    refine ⟨fun x hx => clear_iff.mp hclear x hx, ?_⟩
    rw [Call.sets, if_pos hclear]
    rfl

/-! ### Running a call -/

/-- A call with refused arguments does nothing; any other stages its bits and finishes. -/
lemma Call.run_eq (c : Call) (e : Chip) :
    (c.run e = some (.invalidArg, e) ∧
      ∀ w, c.stage e.rdata6 e.virtBlocks w = some (.invalidArg, w)) ∨
    c.run e = (c.stage e.rdata6 e.virtBlocks e.start.wdata).map fun s =>
      Chip.finish { e.start with wdata := s.2 } s.1 := by
  have hstart : e.start.rdata6 = e.rdata6 ∧ e.start.virtBlocks = e.virtBlocks := by
    rw [Chip.start]
    split <;> exact ⟨rfl, rfl⟩
  cases c with
  | writeFieldBlob field src srcSizeBits =>
    cases field with
    | none => exact .inl ⟨rfl, fun _ => rfl⟩
    | some field =>
      cases src with
      | none => exact .inl ⟨rfl, fun _ => rfl⟩
      | some src =>
        rw [Call.run, Efuse.writeFieldBlob, Call.stage]
        by_cases hsize : srcSizeBits = 0
        · exact .inl ⟨if_pos hsize, fun _ => if_pos hsize⟩
        · simp only [if_neg hsize, hstart]
          right
          cases utilityProcess e.rdata6 field e.start.wdata 0 srcSizeBits
            (utilityWriteBlob e.virtBlocks src) <;> rfl
  | writeFieldCnt field cnt =>
    cases field with
    | none => exact .inl ⟨rfl, fun _ => rfl⟩
    | some field =>
      rw [Call.run, Efuse.writeFieldCnt, Call.stage]
      by_cases hcnt : cnt = 0
      · exact .inl ⟨if_pos hcnt, fun _ => if_pos hcnt⟩
      · simp only [if_neg hcnt, hstart]
        right
        cases utilityProcess e.rdata6 field e.start.wdata cnt 0
          (utilityWriteCnt e.virtBlocks) <;> rfl
  | writeReg blk numReg val =>
    right
    simp only [Call.run, efuseWriteReg, Call.stage, hstart]
    cases utilityWriteReg e.virtBlocks e.start.wdata blk numReg val <;> rfl

/-- In batch mode a call stages its bits and burns nothing. -/
lemma Call.run_batch (he : e.batchMode = true) (h : c.run e = some (err, e')) :
    ∃ w, e' = { e with wdata := w } ∧ Staged e.rdata6 e.virtBlocks e.wdata c err w := by
  have hstart : e.start = e := if_pos he
  rcases c.run_eq e with ⟨hrun, hstage⟩ | hrun
  · rw [hrun, Option.some.injEq, Prod.mk.injEq] at h
    obtain ⟨rfl, rfl⟩ := h
    exact ⟨e.wdata, rfl, c.stage_spec (hstage _)⟩
  · rw [hrun, hstart, Option.map_eq_some_iff] at h
    obtain ⟨⟨err', w⟩, hstage, h⟩ := h
    rw [Chip.finish, if_pos he, Prod.mk.injEq] at h
    obtain ⟨rfl, rfl⟩ := h
    exact ⟨w, rfl, c.stage_spec hstage⟩

/-- Outside batch mode a successful call burns what it has staged. -/
lemma Call.run_single (he : e.batchMode = false) (h : c.run e = some (.ok, e')) :
    ∃ w, e' = Chip.reset { e with virtBlocks := burned e.rdata6 e.virtBlocks w } ∧
      Staged e.rdata6 e.virtBlocks (fun _ _ => 0) c .ok w ∧
      Fits e.rdata6 e.virtBlocks w := by
  have hstart : e.start = e.reset := if_neg (by simp [he])
  rcases c.run_eq e with ⟨hrun, _⟩ | hrun
  · rw [hrun, Option.some.injEq, Prod.mk.injEq] at h
    exact EspErr.noConfusion h.1
  · rw [hrun, hstart, Option.map_eq_some_iff] at h
    obtain ⟨⟨err', w⟩, hstage, h⟩ := h
    have hfalse : ¬ ({ e.reset with wdata := w } : Chip).batchMode = true := by
      simp [Chip.reset, he]
    rw [Chip.finish, if_neg hfalse] at h
    by_cases hok : err' = .ok
    · subst hok
      rw [if_pos rfl, Prod.mk.injEq] at h
      obtain ⟨hok, rfl⟩ := h
      obtain ⟨hfits, hburn, _⟩ := codeAndBurn_eq { e.reset with wdata := w }
      have hw := hfits.mp hok
      refine ⟨w, ?_, c.stage_spec hstage, hw⟩
      rw [hburn hw]
      rfl
    · rw [if_neg hok, Prod.mk.injEq] at h
      exact absurd h.1 hok

end EspIdf.Efuse
