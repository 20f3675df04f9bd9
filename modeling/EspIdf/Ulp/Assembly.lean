/-
# Loading a program

The relocations are sorted by label, and the walk over them stops at the lowest label that is
at fault: one that is defined twice, one without a definition, or one that a branch cannot reach.
-/
import EspIdf.Ulp.Resolution

namespace EspIdf.Ulp

open Lib

/-! ### What a program means -/

/-- The program without macros. -/
def strip (program : List Insn) : List Insn := program.filter fun insn => !isMacro insn

/-- The macros of a program, each with the address of the instruction that follows. -/
def marks (addr : ℕ) : List Insn → List RelocInfo
  | [] => []
  | insn :: rest =>
    if isMacro insn then
      (macroType insn).toList.map (⟨macroLabel insn, addr, ·⟩) ++ marks addr rest
    else
      marks (addr + 1) rest

/-- A label is defined at an address. -/
def Defines (relocs : List RelocInfo) (ℓ addr : ℕ) : Prop := ⟨ℓ, addr, .label⟩ ∈ relocs

/-- A label is defined twice. -/
def Twice (relocs : List RelocInfo) (ℓ : ℕ) : Prop :=
  2 ≤ relocs.countP fun r => r.type = .label ∧ r.label = ℓ

/-- A label that is referenced has no definition. -/
def Undefined (relocs : List RelocInfo) (ℓ : ℕ) : Prop :=
  (∃ r ∈ relocs, r.type ≠ .label ∧ r.label = ℓ) ∧ ∀ addr, ¬ Defines relocs ℓ addr

/-- A relative branch to a label has an offset above 127.  `program` is loaded at `loadAddr`. -/
def OutOfReach (loadAddr : ℕ) (program : List Insn) (relocs : List RelocInfo) (ℓ : ℕ) : Prop :=
  ∃ r ∈ relocs, r.type ≠ .label ∧ r.label = ℓ ∧ ∃ target, Defines relocs ℓ target ∧
    ∃ insn, program[r.addr - loadAddr]? = some insn ∧ ¬ InReach r.type insn r.addr target

/-- There is nothing wrong with a label. -/
structure Sound (loadAddr : ℕ) (program : List Insn) (relocs : List RelocInfo) (ℓ : ℕ) : Prop where
  once : ¬ Twice relocs ℓ
  defined : ¬ Undefined relocs ℓ
  reach : ¬ OutOfReach loadAddr program relocs ℓ

/-- Every reference is replaced by the address, or the offset, of its label, and the other
instructions are those of the program. -/
structure Resolved (loadAddr : ℕ) (program : List Insn) (relocs : List RelocInfo)
    (output : List Insn) : Prop where
  length : output.length = program.length
  other : ∀ k insn, program[k]? = some insn →
    (∀ r ∈ relocs, r.type ≠ .label → r.addr ≠ loadAddr + k) → output[k]? = some insn
  reference : ∀ r ∈ relocs, r.type ≠ .label → ∀ target, Defines relocs r.label target →
    ∀ insn, program[r.addr - loadAddr]? = some insn →
      output[r.addr - loadAddr]? = some (resolve r.type insn r.addr target)

/-- The outcome of loading a program is that of an assembler. -/
def Assembled (loadAddr : ℕ) (program : List Insn) (result : Option Loaded) : Prop :=
  ∃ r, result = some r ∧
    (r.err = .duplicateLabel ↔ ∃ ℓ, Twice (marks loadAddr program) ℓ) ∧
    (r.err = .undefinedLabel ↔ (∃ ℓ, Undefined (marks loadAddr program) ℓ) ∧
      ∀ ℓ, ¬ Twice (marks loadAddr program) ℓ) ∧
    (r.err = .branchOutOfRange →
      ∃ ℓ, OutOfReach loadAddr (strip program) (marks loadAddr program) ℓ) ∧
    (r.err ≠ .duplicateLabel → r.err ≠ .undefinedLabel → r.err ≠ .branchOutOfRange →
      r.err = .ok ∧ r.size = (strip program).length ∧
        Resolved loadAddr (strip program) (marks loadAddr program) r.output)

/-- A program does not end in a macro, and its branch and label-pc macros mark instructions of the
right kind. -/
structure WellFormed (program : List Insn) : Prop where
  ends : ∀ insn, program.getLast? = some insn → isMacro insn = false
  kinds : ∀ r ∈ marks 0 program, r.type ≠ .label →
    ∃ insn, (strip program)[r.addr]? = some insn ∧ Accepts r.type insn

/-- The programs that are loaded as they should be. -/
structure Orderly (reserveMem : ℕ) (malloc : Bool) (loadAddr : ℕ) (program : List Insn) : Prop where
  macros : ∀ insn ∈ program, isMacro insn → (macroType insn).isSome
  fits : (strip program).length + loadAddr ≤ reserveMem / 4
  memory : malloc = true ∨ ∀ insn ∈ program, isMacro insn = false
  lowest : ∀ ℓ, Undefined (marks loadAddr program) ℓ → ∃ r ∈ marks loadAddr program, r.label < ℓ
  twice : ∀ ℓ, Twice (marks loadAddr program) ℓ → ∃ ℓ', Twice (marks loadAddr program) ℓ' ∧
    ∀ j < ℓ', Sound loadAddr (strip program) (marks loadAddr program) j
  undefined : (∀ ℓ, ¬ Twice (marks loadAddr program) ℓ) →
    ∀ ℓ, Undefined (marks loadAddr program) ℓ → ∃ ℓ', Undefined (marks loadAddr program) ℓ' ∧
      ∀ j < ℓ', Sound loadAddr (strip program) (marks loadAddr program) j
  agree : (∀ ℓ, Sound loadAddr (strip program) (marks loadAddr program) ℓ) →
    ∀ r ∈ marks loadAddr program, ∀ r' ∈ marks loadAddr program, r.type ≠ .label →
      r'.type ≠ .label → r.addr = r'.addr → ∀ target target',
        Defines (marks loadAddr program) r.label target →
          Defines (marks loadAddr program) r'.label target' → target = target'

variable {loadAddr : ℕ} {program : List Insn} {relocs relocs' : List RelocInfo} {ℓ : ℕ}

/-! ### The lowest fault -/

/-- The first thing that is wrong with a list of relocations, from the lowest label up. -/
inductive Verdict (loadAddr : ℕ) (program : List Insn) (relocs : List RelocInfo) : EspErr → Prop
  | ok (sound : ∀ ℓ, Sound loadAddr program relocs ℓ) : Verdict loadAddr program relocs .ok
  | twice (ℓ : ℕ) (fault : Twice relocs ℓ) (below : ∀ j < ℓ, Sound loadAddr program relocs j) :
    Verdict loadAddr program relocs .duplicateLabel
  | undefined (ℓ : ℕ) (fault : Undefined relocs ℓ)
    (below : ∀ j < ℓ, Sound loadAddr program relocs j) :
    Verdict loadAddr program relocs .undefinedLabel
  | reach (ℓ : ℕ) (fault : OutOfReach loadAddr program relocs ℓ) (once : ¬ Twice relocs ℓ)
    (below : ∀ j < ℓ, Sound loadAddr program relocs j) :
    Verdict loadAddr program relocs .branchOutOfRange

/-- A label without entries is sound. -/
lemma sound_of_forall_ne (h : ∀ r ∈ relocs, r.label ≠ ℓ) : Sound loadAddr program relocs ℓ where
  once := by
    intro htwice
    have : 0 < relocs.countP fun r => r.type = .label ∧ r.label = ℓ :=
      Nat.lt_of_lt_of_le Nat.zero_lt_two htwice
    obtain ⟨r, hr, hlabel⟩ := List.countP_pos_iff.mp this
    exact h r hr (by simpa using (of_decide_eq_true hlabel).2)
  defined := by
    rintro ⟨⟨r, hr, -, hlabel⟩, -⟩
    exact h r hr hlabel
  reach := by
    rintro ⟨r, hr, -, hlabel, -⟩
    exact h r hr hlabel

lemma Twice.defines (h : Twice relocs ℓ) : ∃ addr, Defines relocs ℓ addr := by
  have : 0 < relocs.countP fun r => r.type = .label ∧ r.label = ℓ :=
    Nat.lt_of_lt_of_le Nat.zero_lt_two h
  obtain ⟨⟨label, addr, type⟩, hr, hlabel⟩ := List.countP_pos_iff.mp this
  obtain ⟨rfl, rfl⟩ := of_decide_eq_true hlabel
  exact ⟨addr, hr⟩

/-- Lists of relocations with the same faults. -/
structure SameFaults (loadAddr : ℕ) (program : List Insn) (relocs relocs' : List RelocInfo) :
    Prop where
  twice : ∀ ℓ, Twice relocs ℓ ↔ Twice relocs' ℓ
  undefined : ∀ ℓ, Undefined relocs ℓ ↔ Undefined relocs' ℓ
  reach : ∀ ℓ, OutOfReach loadAddr program relocs ℓ ↔ OutOfReach loadAddr program relocs' ℓ

lemma SameFaults.sound (h : SameFaults loadAddr program relocs relocs')
    (hs : Sound loadAddr program relocs ℓ) : Sound loadAddr program relocs' ℓ :=
  ⟨fun h' => hs.once ((h.twice ℓ).mpr h'), fun h' => hs.defined ((h.undefined ℓ).mpr h'),
    fun h' => hs.reach ((h.reach ℓ).mpr h')⟩

lemma SameFaults.verdict {rc : EspErr} (h : SameFaults loadAddr program relocs relocs')
    (hv : Verdict loadAddr program relocs rc) : Verdict loadAddr program relocs' rc := by
  cases hv with
  | ok sound => exact .ok fun ℓ => h.sound (sound ℓ)
  | twice ℓ fault below => exact .twice ℓ ((h.twice ℓ).mp fault) fun j hj => h.sound (below j hj)
  | undefined ℓ fault below =>
    exact .undefined ℓ ((h.undefined ℓ).mp fault) fun j hj => h.sound (below j hj)
  | reach ℓ fault once below =>
    exact .reach ℓ ((h.reach ℓ).mp fault) (fun h' => once ((h.twice ℓ).mpr h'))
      fun j hj => h.sound (below j hj)

/-- The order of the relocations does not matter. -/
lemma sameFaults_of_perm (h : relocs.Perm relocs') :
    SameFaults loadAddr program relocs relocs' where
  twice ℓ := by
    unfold Twice
    rw [h.countP_eq]
  undefined ℓ := by
    unfold Undefined Defines
    simp only [h.mem_iff]
  reach ℓ := by
    unfold OutOfReach Defines
    simp only [h.mem_iff]

section Cons

variable {l r : RelocInfo} {rs : List RelocInfo}

/-- A label that comes before all others has no effect on them. -/
lemma sameFaults_cons (loadAddr : ℕ) (program : List Insn) (hlt : ∀ r ∈ rs, l.label < r.label)
    (hne : ℓ ≠ l.label) :
    (Twice rs ℓ ↔ Twice (l :: rs) ℓ) ∧ (Undefined rs ℓ ↔ Undefined (l :: rs) ℓ) ∧
      (OutOfReach loadAddr program rs ℓ ↔ OutOfReach loadAddr program (l :: rs) ℓ) := by
  have hdef : ∀ addr, Defines (l :: rs) ℓ addr ↔ Defines rs ℓ addr := by
    intro addr
    unfold Defines
    rw [List.mem_cons, or_iff_right]
    rintro rfl
    exact hne rfl
  refine ⟨?_, ?_, ?_⟩
  · unfold Twice
    rw [List.countP_cons_of_neg (by simp [hne.symm])]
  · unfold Undefined
    simp [hdef, hne.symm]
  · unfold OutOfReach
    simp [hdef, hne.symm]

/-- The verdict of the relocations after a label without references. -/
lemma Verdict.cons {rc : EspErr} (hl : l.type = .label) (hlt : ∀ r ∈ rs, l.label < r.label)
    (h : Verdict loadAddr program rs rc) : Verdict loadAddr program (l :: rs) rc := by
  have hfirst : Sound loadAddr program (l :: rs) l.label := by
    have hno : Sound loadAddr program rs l.label := sound_of_forall_ne fun r hr => (hlt r hr).ne'
    refine ⟨?_, ?_, ?_⟩
    · have := hno.once
      unfold Twice at this ⊢
      rw [List.countP_cons_of_pos (by simp [hl])]
      have hzero : (rs.countP fun r => r.type = .label ∧ r.label = l.label) = 0 :=
        List.countP_eq_zero.mpr fun r hr => by simp [(hlt r hr).ne']
      omega
    · rintro ⟨-, hdef⟩
      refine hdef l.addr ?_
      unfold Defines
      rw [← hl]
      exact List.mem_cons_self
    · rintro ⟨r, hr, ht, hlabel, -⟩
      rcases List.mem_cons.mp hr with rfl | hr
      · exact ht hl
      · exact (hlt r hr).ne' hlabel
  have hsound : ∀ {ℓ}, Sound loadAddr program rs ℓ → Sound loadAddr program (l :: rs) ℓ := by
    intro ℓ hs
    by_cases hne : ℓ = l.label
    · exact hne ▸ hfirst
    · obtain ⟨h1, h2, h3⟩ := sameFaults_cons loadAddr program hlt hne
      exact ⟨fun h => hs.once (h1.mpr h), fun h => hs.defined (h2.mpr h),
        fun h => hs.reach (h3.mpr h)⟩
  -- a fault is not at the first label, which has no entries in the rest
  have hfault : ∀ {ℓ}, ¬ Sound loadAddr program rs ℓ → ℓ ≠ l.label := by
    rintro ℓ hs rfl
    exact hs (sound_of_forall_ne fun r hr => (hlt r hr).ne')
  cases h with
  | ok sound => exact .ok fun ℓ => hsound (sound ℓ)
  | twice ℓ fault below =>
    have hne := hfault fun h => h.once fault
    exact .twice ℓ ((sameFaults_cons loadAddr program hlt hne).1.mp fault)
      fun j hj => hsound (below j hj)
  | undefined ℓ fault below =>
    have hne := hfault fun h => h.defined fault
    exact .undefined ℓ
      ((sameFaults_cons loadAddr program hlt hne).2.1.mp fault)
      fun j hj => hsound (below j hj)
  | reach ℓ fault once below =>
    have hne := hfault fun h => h.reach fault
    have hsame := sameFaults_cons loadAddr program hlt hne
    exact .reach ℓ (hsame.2.2.mp fault) (fun h => once (hsame.1.mpr h))
      fun j hj => hsound (below j hj)

end Cons

end EspIdf.Ulp
