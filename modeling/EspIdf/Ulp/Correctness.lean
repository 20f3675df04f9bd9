/-
# When a program is loaded as it should be

The walk starts with the lowest label that a macro names, and takes it for granted that this label
is defined.  Of several faults it reports the one at the lowest label.
-/
import EspIdf.Ulp.Loading

namespace EspIdf.Ulp

open Lib

variable {qsort : List RelocInfo → List RelocInfo} {reserveMem loadAddr : ℕ} {malloc : Bool}
  {program : List Insn}

/-! ### From the verdict to the error code -/

variable {relocs : List RelocInfo} {prog : List Insn} {rc : EspErr}

lemma Undefined.not_twice {ℓ : ℕ} (h : Undefined relocs ℓ) : ¬ Twice relocs ℓ := by
  intro htwice
  obtain ⟨addr, hdef⟩ := htwice.defines
  exact h.2 addr hdef

lemma Verdict.duplicate_iff (h : Verdict loadAddr prog relocs rc)
    (htwice : ∀ ℓ, Twice relocs ℓ →
      ∃ ℓ', Twice relocs ℓ' ∧ ∀ j < ℓ', Sound loadAddr prog relocs j) :
    rc = .duplicateLabel ↔ ∃ ℓ, Twice relocs ℓ := by
  constructor
  · rintro rfl
    cases h with
    | twice ℓ fault below => exact ⟨ℓ, fault⟩
  · rintro ⟨ℓ, hℓ⟩
    obtain ⟨ℓ', hℓ', hbelow'⟩ := htwice ℓ hℓ
    cases h with
    | ok sound => exact absurd hℓ' (sound ℓ').once
    | twice => rfl
    | undefined ℓ₁ fault below =>
      exfalso
      rcases lt_trichotomy ℓ₁ ℓ' with hlt | rfl | hlt
      · exact (hbelow' ℓ₁ hlt).defined fault
      · exact fault.not_twice hℓ'
      · exact (below ℓ' hlt).once hℓ'
    | reach ℓ₁ fault once below =>
      exfalso
      rcases lt_trichotomy ℓ₁ ℓ' with hlt | rfl | hlt
      · exact (hbelow' ℓ₁ hlt).reach fault
      · exact once hℓ'
      · exact (below ℓ' hlt).once hℓ'

lemma Verdict.undefined_iff (h : Verdict loadAddr prog relocs rc)
    (hundef : (∀ ℓ, ¬ Twice relocs ℓ) → ∀ ℓ, Undefined relocs ℓ →
      ∃ ℓ', Undefined relocs ℓ' ∧ ∀ j < ℓ', Sound loadAddr prog relocs j)
    (hdup : rc = .duplicateLabel ↔ ∃ ℓ, Twice relocs ℓ) :
    rc = .undefinedLabel ↔ (∃ ℓ, Undefined relocs ℓ) ∧ ∀ ℓ, ¬ Twice relocs ℓ := by
  constructor
  · rintro rfl
    cases h with
    | undefined ℓ fault below =>
      exact ⟨⟨ℓ, fault⟩, fun ℓ' hℓ' => by cases hdup.mpr ⟨ℓ', hℓ'⟩⟩
  · rintro ⟨⟨ℓ, hℓ⟩, hno⟩
    obtain ⟨ℓ', hℓ', hbelow'⟩ := hundef hno ℓ hℓ
    cases h with
    | ok sound => exact absurd hℓ' (sound ℓ').defined
    | twice ℓ₁ fault below => exact absurd fault (hno ℓ₁)
    | undefined => rfl
    | reach ℓ₁ fault once below =>
      exfalso
      rcases lt_trichotomy ℓ₁ ℓ' with hlt | rfl | hlt
      · exact (hbelow' ℓ₁ hlt).reach fault
      · obtain ⟨r, -, -, -, target, hdef, -⟩ := fault
        exact hℓ'.2 target hdef
      · exact (below ℓ' hlt).defined hℓ'

/-! ### The program is loaded -/

/-- An assembled program has one of four outcomes. -/
lemma Assembled.err {result : Option Loaded} (h : Assembled loadAddr program result) :
    ∃ r, result = some r ∧ (r.err = .ok ∨ r.err = .duplicateLabel ∨ r.err = .undefinedLabel ∨
      r.err = .branchOutOfRange) := by
  obtain ⟨r, hr, -, -, -, hok⟩ := h
  refine ⟨r, hr, ?_⟩
  by_cases hdup : r.err = .duplicateLabel
  · exact .inr (.inl hdup)
  by_cases hundef : r.err = .undefinedLabel
  · exact .inr (.inr (.inl hundef))
  by_cases hrange : r.err = .branchOutOfRange
  · exact .inr (.inr (.inr hrange))
  exact .inl (hok hdup hundef hrange).1

lemma strip_length : (strip program).length = program.length - program.countP isMacro := by
  have h := List.length_eq_countP_add_countP (p := isMacro) (l := program)
  have hstrip : (strip program).length = program.countP fun insn => ¬ isMacro insn := by
    simp [strip, List.countP_eq_length_filter]
  omega

lemma countP_isMacro_eq_zero :
    program.countP isMacro = 0 ↔ ∀ insn ∈ program, isMacro insn = false := by
  simp [List.countP_eq_zero]

lemma processMacrosAndLoad_not_fits (h : ¬ (strip program).length + loadAddr ≤ reserveMem / 4) :
    ¬ Assembled loadAddr program
      (processMacrosAndLoad qsort reserveMem malloc loadAddr program) := by
  intro ha
  obtain ⟨r, hr, herr⟩ := ha.err
  rw [strip_length] at h
  unfold processMacrosAndLoad at hr
  simp only at hr
  by_cases hload : reserveMem / 4 < loadAddr
  · rw [if_pos hload] at hr
    obtain rfl := Option.some.inj hr
    simp at herr
  · rw [if_neg hload, if_pos (by omega)] at hr
    obtain rfl := Option.some.inj hr
    simp at herr

/-- A program that fits, without macros. -/
lemma processMacrosAndLoad_plain (hfit : (strip program).length + loadAddr ≤ reserveMem / 4)
    (h : ∀ insn ∈ program, isMacro insn = false) :
    Assembled loadAddr program (processMacrosAndLoad qsort reserveMem malloc loadAddr program) := by
  have hstrip : strip program = program :=
    List.filter_eq_self.mpr fun insn hinsn => by simp [h insn hinsn]
  have hzero := countP_isMacro_eq_zero.mpr h
  rw [strip_length, hzero] at hfit
  refine ⟨⟨.ok, program, program.length⟩, ?_, ?_⟩
  · unfold processMacrosAndLoad
    simp only [hzero]
    rw [if_neg (by omega), if_neg (by omega), if_pos trivial]
  · rw [marks_eq_nil h, hstrip]
    refine ⟨?_, ?_, ?_, fun _ _ _ => ⟨rfl, rfl, ?_⟩⟩
    · simp [Twice]
    · simp [Undefined]
    · simp
    · exact ⟨rfl, fun k insn hk _ => hk, fun r hr => absurd hr List.not_mem_nil⟩

/-- A program that fits, with macros. -/
lemma processMacrosAndLoad_macros (hfit : (strip program).length + loadAddr ≤ reserveMem / 4)
    (h : ¬ ∀ insn ∈ program, isMacro insn = false) :
    processMacrosAndLoad qsort reserveMem malloc loadAddr program =
      if malloc = false then some ⟨.noMem, [], program.length⟩
      else
        match recordMacros loadAddr program with
        | none => none
        | some (relocs, output) =>
          match fixInstructions loadAddr none (qsort relocs) output with
          | none => none
          | some (.ok, output) => some ⟨.ok, output, (strip program).length⟩
          | some (rc, output) => some ⟨rc, output, program.length⟩ := by
  rw [← countP_isMacro_eq_zero] at h
  unfold processMacrosAndLoad
  rw [strip_length] at hfit ⊢
  dsimp only
  exact (if_neg (by omega)).trans ((if_neg (by omega)).trans (if_neg h))

/-- The outcome of a program with known macros. -/
lemma assembled_iff_of_verdict (output : List Insn) (hw : WellFormed program)
    (hfit : loadAddr + (strip program).length ≤ 2048) {result : Loaded}
    (hv : Verdict loadAddr (strip program) (marks loadAddr program) rc) (herr : result.err = rc)
    (hok : rc = .ok → result = ⟨.ok, output, (strip program).length⟩ ∧
      ∃ done, (∀ r ∈ marks loadAddr program, r ∈ done) ∧
        Patched loadAddr (strip program) (marks loadAddr program) done output)
    (hlowest : ∀ ℓ, Undefined (marks loadAddr program) ℓ →
      ∃ r ∈ marks loadAddr program, r.label < ℓ)
    (hmacros : ∀ insn ∈ program, isMacro insn → (macroType insn).isSome)
    (hreserve : (strip program).length + loadAddr ≤ reserveMem / 4) :
    Assembled loadAddr program (some result) ↔ Orderly reserveMem true loadAddr program := by
  have hm : Marked loadAddr (strip program) (marks loadAddr program) := hw.marked
  constructor
  · rintro ⟨r, hr, hdup, hundef, -, hloaded⟩
    obtain rfl := Option.some.inj hr
    refine ⟨hmacros, hreserve, .inl rfl, hlowest, fun ℓ hℓ => ?_, fun hno ℓ hℓ => ?_, ?_⟩
    · have := hdup.mpr ⟨ℓ, hℓ⟩
      rw [herr] at this
      subst this
      cases hv with
      | twice ℓ' fault below => exact ⟨ℓ', fault, below⟩
    · have := hundef.mpr ⟨⟨ℓ, hℓ⟩, hno⟩
      rw [herr] at this
      subst this
      cases hv with
      | undefined ℓ' fault below => exact ⟨ℓ', fault, below⟩
    · intro hsound r hr r' hr' ht ht' haddr target target' hdef hdef'
      have hloaded := hloaded (fun h => by
        obtain ⟨ℓ, hℓ⟩ := hdup.mp h
        exact (hsound ℓ).once hℓ) (fun h => by
        obtain ⟨⟨ℓ, hℓ⟩, -⟩ := hundef.mp h
        exact (hsound ℓ).defined hℓ) (fun h => by
        rw [herr] at h
        subst h
        cases hv with
        | reach ℓ fault => exact (hsound ℓ).reach fault)
      refine hloaded.2.2.agree hm (fun r hr => ?_) hsound hr hr' ht ht' haddr hdef hdef'
      have := (marks_addr hw.ends hr).2
      omega
  · intro ho
    have hdup := hv.duplicate_iff ho.twice
    refine ⟨result, rfl, ?_, ?_, ?_, ?_⟩
    · rw [herr]
      exact hdup
    · rw [herr]
      exact hv.undefined_iff ho.undefined hdup
    · rw [herr]
      rintro rfl
      cases hv with
      | reach ℓ fault => exact ⟨ℓ, fault⟩
    · rw [herr]
      intro h1 h2 h3
      cases hv with
      | twice => exact absurd rfl h1
      | undefined => exact absurd rfl h2
      | reach => exact absurd rfl h3
      | ok sound =>
        obtain ⟨rfl, done, hall, hp⟩ := hok rfl
        exact ⟨rfl, rfl, hp.resolved hm hall (ho.agree sound)⟩

/-- A program is loaded as it should be if and only if it fits, the lowest label that its macros
name is defined, a label that is defined twice comes before all other faults, and otherwise one
that is not defined does. -/
theorem processMacrosAndLoad_assembled_iff (qsort : List RelocInfo → List RelocInfo)
    (hsort : Sorts relocSortFunc qsort) (reserveMem : ℕ) (hreserve : reserveMem ≤ 8192)
    (malloc : Bool) (loadAddr : ℕ) (program : List Insn) (hw : WellFormed program) :
    Assembled loadAddr program (processMacrosAndLoad qsort reserveMem malloc loadAddr program) ↔
      Orderly reserveMem malloc loadAddr program := by
  by_cases hfit : (strip program).length + loadAddr ≤ reserveMem / 4
  swap
  · exact ⟨fun h => absurd h (processMacrosAndLoad_not_fits hfit), fun h => absurd h.fits hfit⟩
  by_cases hplain : ∀ insn ∈ program, isMacro insn = false
  · refine ⟨fun _ => ?_, fun _ => processMacrosAndLoad_plain hfit hplain⟩
    have hnil : marks loadAddr program = [] := marks_eq_nil hplain
    refine ⟨fun insn hi hmac => ?_, hfit, .inr hplain, ?_, ?_, ?_, ?_⟩
    · rw [hplain insn hi] at hmac
      cases hmac
    · simp [hnil, Undefined]
    · simp [hnil, Twice]
    · simp [hnil, Undefined]
    · simp [hnil]
  rw [processMacrosAndLoad_macros hfit hplain]
  cases malloc with
  | false =>
    refine ⟨fun h => ?_, fun h => absurd (h.memory.resolve_left (by decide)) hplain⟩
    obtain ⟨r, hr, herr⟩ := h.err
    rw [if_pos rfl] at hr
    obtain rfl := Option.some.inj hr
    simp at herr
  | true =>
    rw [if_neg (by decide)]
    by_cases hmacros : ∀ insn ∈ program, isMacro insn → (macroType insn).isSome
    swap
    · -- the macro is unknown
      refine ⟨fun h => ?_, fun h => absurd h.macros hmacros⟩
      obtain ⟨r, hr, -⟩ := h
      push Not at hmacros
      obtain ⟨insn, hi, hmac, hnone⟩ := hmacros
      rw [recordMacros_eq_none ⟨insn, hi, hmac, by simpa using hnone⟩] at hr
      cases hr
    have hsmall : loadAddr + (strip program).length ≤ 2048 := by omega
    rw [recordMacros_eq hw.ends hmacros hsmall]
    have hm : Marked loadAddr (strip program) (marks loadAddr program) := hw.marked
    rcases fixInstructions_none hsort hm with
      ⟨hlowest, rc, output, heq, hv, hok⟩ | ⟨hlowest, heq⟩
    · simp only [heq]
      have hall : ∀ r ∈ marks loadAddr program, r ∈ qsort (marks loadAddr program) :=
        fun r hr => (hsort.perm _).mem_iff.mpr hr
      cases rc with
      | ok =>
        exact assembled_iff_of_verdict output hw hsmall hv rfl (fun _ => ⟨rfl, _, hall, hok rfl⟩) hlowest
          hmacros hfit
      | _ =>
        exact assembled_iff_of_verdict output hw hsmall hv rfl (fun h => by cases h)
          hlowest hmacros hfit
    · -- the `assert` on the first relocation fires
      refine ⟨fun h => ?_, fun h => absurd h.lowest hlowest⟩
      obtain ⟨r, hr, -⟩ := h
      simp only [heq] at hr
      cases hr

/-! ### Sorting by insertion -/

lemma relocSortFunc_total (lhs rhs : RelocInfo) :
    relocSortFunc lhs rhs ≤ 0 ∨ relocSortFunc rhs lhs ≤ 0 := by
  unfold relocSortFunc
  split_ifs <;> omega

lemma relocSortFunc_trans {r r' r'' : RelocInfo} (h : relocSortFunc r r' ≤ 0)
    (h' : relocSortFunc r' r'' ≤ 0) : relocSortFunc r r'' ≤ 0 := by
  unfold relocSortFunc at *
  split_ifs at * <;> omega

/-- A stable `qsort`. -/
def stableSort (relocs : List RelocInfo) : List RelocInfo :=
  relocs.insertionSort fun lhs rhs => relocSortFunc lhs rhs ≤ 0

lemma sorts_stableSort : Sorts relocSortFunc stableSort where
  perm relocs := List.perm_insertionSort _ relocs
  sorted relocs := by
    have : Std.Total fun lhs rhs : RelocInfo => relocSortFunc lhs rhs ≤ 0 :=
      ⟨relocSortFunc_total⟩
    have : IsTrans RelocInfo fun lhs rhs => relocSortFunc lhs rhs ≤ 0 :=
      ⟨fun _ _ _ => relocSortFunc_trans⟩
    exact List.pairwise_insertionSort _ relocs

/-- `M_LABEL(1), M_BX(1)`: a loop. -/
def loopProgram : List Insn := [0xF0000004, 0xF1000004, 0x80000000]

/-- `M_BX(1)`: a branch to a label that is not there. -/
def lostProgram : List Insn := [0xF1000004, 0x80000000]

lemma wellFormed_loopProgram : WellFormed loopProgram where
  ends := by
    rintro insn ⟨⟩
    decide
  kinds := by
    intro r hr ht
    have hmarks : marks 0 loopProgram = [⟨1, 0, .label⟩, ⟨1, 0, .branch⟩] := by decide
    rw [hmarks] at hr
    refine ⟨0x80000000, ?_⟩
    rcases List.mem_cons.mp hr with rfl | hr
    · exact absurd rfl ht
    · obtain rfl := List.mem_singleton.mp hr
      exact ⟨by decide, by decide, .inr ⟨by decide, by decide⟩⟩

lemma wellFormed_lostProgram : WellFormed lostProgram where
  ends := by
    rintro insn ⟨⟩
    decide
  kinds := by
    intro r hr ht
    have hmarks : marks 0 lostProgram = [⟨1, 0, .branch⟩] := by decide
    rw [hmarks] at hr
    obtain rfl := List.mem_singleton.mp hr
    exact ⟨0x80000000, by decide, by decide, .inr ⟨by decide, by decide⟩⟩

/-- A loop is loaded at address 16 if and only if it is in order. -/
theorem processMacrosAndLoad_assembled_iff_loop :
    Assembled 16 loopProgram (processMacrosAndLoad stableSort 512 true 16 loopProgram) ↔
      Orderly 512 true 16 loopProgram :=
  processMacrosAndLoad_assembled_iff stableSort sorts_stableSort 512 (by decide) true 16 loopProgram
    wellFormed_loopProgram

/-- A branch to the only label of a program, without a definition, lets the `assert` fire. -/
theorem processMacrosAndLoad_not_assembled :
    WellFormed lostProgram ∧ processMacrosAndLoad stableSort 512 true 16 lostProgram = none ∧
      ¬ Assembled 16 lostProgram (processMacrosAndLoad stableSort 512 true 16 lostProgram) := by
  have hnone : processMacrosAndLoad stableSort 512 true 16 lostProgram = none := by decide
  refine ⟨wellFormed_lostProgram, hnone, ?_⟩
  rintro ⟨r, hr, -⟩
  rw [hnone] at hr
  cases hr

end EspIdf.Ulp
