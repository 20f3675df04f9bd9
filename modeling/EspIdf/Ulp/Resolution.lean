/-
# A single reference is resolved

What the relocation of one branch or move does to the instruction, and what a label means for all
the instructions that refer to it.
-/
import EspIdf.Ulp.Macros

namespace EspIdf.Ulp

open Lib

/-! ### One instruction -/

/-- The instruction is of the right kind for a relocation. -/
def Accepts : RelocType → Insn → Prop
  | .branch, insn => opcode insn = 8 ∧ (isRelative insn ∨ subOpcode insn = 0 ∧ bxReg insn = 0)
  | .labelpc, insn => opcode insn = 7 ∧ subOpcode insn = 1 ∧ aluSel insn = 4
  | .label, _ => True

/-- The instruction at `addr` with the target that its label has: a signed offset in a relative
branch, and the address elsewhere. -/
def resolve (type : RelocType) (insn : Insn) (addr target : ℕ) : Insn :=
  match type with
  | .branch =>
    if isRelative insn then setOffset insn (target - addr) else setBxAddr insn target
  | .labelpc => setAluImm insn target
  | .label => insn

/-- The instruction can hold the target. -/
def InReach (type : RelocType) (insn : Insn) (addr target : ℕ) : Prop :=
  type = .branch → isRelative insn → ((target : ℤ) - addr).natAbs ≤ 127

variable {insn insn' : Insn} {type type' : RelocType} {addr target target' : ℕ}

lemma resolve_relative (h : isRelative insn) :
    resolve .branch insn addr target = setOffset insn (target - addr) := if_pos h

lemma resolve_absolute (h : ¬ isRelative insn) :
    resolve .branch insn addr target = setBxAddr insn target := if_neg h

/-- No relocation changes a field above the sign of an offset. -/
lemma field_resolve {lo w : ℕ} (hlo : 25 ≤ lo) :
    field (resolve type insn addr target) lo w = field insn lo w := by
  cases type with
  | label => rfl
  | branch =>
    by_cases hrel : isRelative insn
    · rw [resolve_relative hrel]
      unfold setOffset
      rw [field_setField_of_apart _ _ (by omega), field_setField_of_apart _ _ (by omega)]
    · rw [resolve_absolute hrel]
      exact field_setField_of_apart _ _ (by omega)
  | labelpc => exact field_setField_of_apart _ _ (by omega)

lemma opcode_resolve : opcode (resolve type insn addr target) = opcode insn :=
  field_resolve (by decide)

lemma subOpcode_resolve : subOpcode (resolve type insn addr target) = subOpcode insn :=
  field_resolve (by decide)

lemma isRelative_resolve : isRelative (resolve type insn addr target) = isRelative insn := by
  unfold isRelative
  rw [subOpcode_resolve]

lemma Accepts.resolve (h : Accepts type insn) : Accepts type (resolve type insn addr target) := by
  cases type with
  | label => trivial
  | branch =>
    obtain ⟨hop, hsub⟩ := h
    refine ⟨by rw [opcode_resolve, hop], ?_⟩
    rw [isRelative_resolve, subOpcode_resolve]
    by_cases hrel : isRelative insn
    · exact .inl hrel
    · obtain ⟨hsub, hreg⟩ := hsub.resolve_left hrel
      refine .inr ⟨hsub, ?_⟩
      rw [resolve_absolute hrel]
      exact (field_setField_of_apart _ _ (by omega)).trans hreg
  | labelpc =>
    obtain ⟨hop, hsub, hsel⟩ := h
    exact ⟨by rw [opcode_resolve, hop], by rw [subOpcode_resolve, hsub],
      (field_setField_of_apart _ _ (by omega)).trans hsel⟩

/-- Only the last relocation of an instruction counts. -/
lemma resolve_resolve :
    resolve type (resolve type insn addr target) addr target' = resolve type insn addr target' := by
  cases type with
  | label => rfl
  | labelpc => exact setField_setField _ _ _ _
  | branch =>
    by_cases hrel : isRelative insn
    · rw [resolve_relative (isRelative_resolve.trans hrel), resolve_relative hrel,
        resolve_relative hrel]
      unfold setOffset
      rw [setField_comm _ _ _ (by omega), setField_setField, setField_comm _ _ _ (by omega),
        setField_setField]
    · rw [resolve_absolute (by rwa [isRelative_resolve]), resolve_absolute hrel,
        resolve_absolute hrel]
      exact setField_setField _ _ _ _

/-- An instruction takes one kind of relocation only. -/
lemma Accepts.unique (h : Accepts type insn) (h' : Accepts type' insn) (ht : type ≠ .label)
    (ht' : type' ≠ .label) : type = type' := by
  cases type <;> cases type' <;> first | rfl | contradiction | skip
  · exact absurd (h.1.symm.trans h'.1) (by decide)
  · exact absurd (h.1.symm.trans h'.1) (by decide)

lemma setOffset_injective {offset offset' : ℤ} (h : offset.natAbs ≤ 127) (h' : offset'.natAbs ≤ 127)
    (heq : setOffset insn offset = setOffset insn offset') : offset = offset' := by
  unfold setOffset at heq
  have hsign := congrArg (field · 24 1) heq
  have habs := congrArg (field · 17 7) heq
  simp only [field_setField _ _ (show 24 + 1 ≤ 32 by decide)] at hsign
  simp only [field_setField_of_apart _ _ (show 24 + 1 ≤ 17 ∨ 17 + 7 ≤ 24 by omega),
    field_setField _ _ (show 17 + 7 ≤ 32 by decide)] at habs
  have habs := congrArg BitVec.toNat habs
  simp only [BitVec.toNat_ofNat] at habs
  split_ifs at hsign
  · omega
  · exact absurd hsign (by decide)
  · exact absurd hsign (by decide)
  · omega

/-- The instruction tells which target it has got. -/
lemma resolve_injective (h : Accepts type insn) (ht : type ≠ .label) (htarget : target < 2048)
    (htarget' : target' < 2048) (hreach : InReach type insn addr target)
    (hreach' : InReach type insn addr target')
    (heq : resolve type insn addr target = resolve type insn addr target') : target = target' := by
  cases type with
  | label => contradiction
  | branch =>
    by_cases hrel : isRelative insn
    · rw [resolve_relative hrel, resolve_relative hrel] at heq
      have := setOffset_injective (hreach rfl hrel) (hreach' rfl hrel) heq
      omega
    · rw [resolve_absolute hrel, resolve_absolute hrel] at heq
      have := congrArg (field · 2 11) heq
      simp only [setBxAddr, field_setField _ _ (show 2 + 11 ≤ 32 by decide)] at this
      have := congrArg BitVec.toNat this
      simp only [BitVec.toNat_ofNat] at this
      omega
  | labelpc =>
    have := congrArg (field · 4 16) heq
    simp only [resolve, setAluImm, field_setField _ _ (show 4 + 16 ≤ 32 by decide)] at this
    have := congrArg BitVec.toNat this
    simp only [BitVec.toNat_ofNat] at this
    omega

/-- `do_single_reloc` on an instruction of the right kind. -/
lemma doSingleReloc_eq {program : List Insn} {loadAddr : ℕ} (labelInfo : RelocInfo)
    {theReloc : RelocInfo}
    (hinsn : program[theReloc.addr - loadAddr]? = some insn) (h : Accepts theReloc.type insn)
    (ht : theReloc.type ≠ .label) :
    (InReach theReloc.type insn theReloc.addr labelInfo.addr →
      doSingleReloc program loadAddr labelInfo theReloc =
        some (.ok, program.set (theReloc.addr - loadAddr)
          (resolve theReloc.type insn theReloc.addr labelInfo.addr))) ∧
    (¬ InReach theReloc.type insn theReloc.addr labelInfo.addr →
      doSingleReloc program loadAddr labelInfo theReloc = some (.branchOutOfRange, program)) := by
  obtain ⟨label, addr, type⟩ := theReloc
  unfold doSingleReloc
  simp only [hinsn]
  cases type with
  | label => contradiction
  | branch =>
    obtain ⟨hop, hsub⟩ := h
    simp only [hop, ne_eq, not_true_eq_false, if_false]
    by_cases hrel : isRelative insn
    · simp only [hrel, if_true, InReach, resolve, forall_const]
      constructor
      · intro hreach
        rw [if_neg (by omega)]
      · intro hreach
        rw [if_pos (by omega)]
    · obtain ⟨hsub, hreg⟩ := hsub.resolve_left hrel
      simp [hrel, hsub, hreg, InReach, resolve]
  | labelpc =>
    obtain ⟨hop, hsub, hsel⟩ := h
    simp [hop, hsub, hsel, InReach, resolve]

end EspIdf.Ulp
