/-
# The walk over the relocations

The nested loops find the lowest fault, or patch every reference, whatever order `qsort` gives to
relocations of the same label and type.
-/
import EspIdf.Ulp.Assembly

namespace EspIdf.Ulp

open Lib

variable {loadAddr : ℕ} {program output : List Insn} {relocs done rs : List RelocInfo}
  {l r : RelocInfo}

/-! ### The patched program -/

/-- The references are to instructions of the program, and of the right kind. -/
def Marked (loadAddr : ℕ) (program : List Insn) (relocs : List RelocInfo) : Prop :=
  ∀ r ∈ relocs, r.type ≠ .label → loadAddr ≤ r.addr ∧
    ∃ insn, program[r.addr - loadAddr]? = some insn ∧ Accepts r.type insn

/-- The references among `done` have been patched in, the last one of each instruction. -/
structure Patched (loadAddr : ℕ) (program : List Insn) (relocs done : List RelocInfo)
    (output : List Insn) : Prop where
  length : output.length = program.length
  mem : ∀ r ∈ done, r ∈ relocs
  words : ∀ k insn, program[k]? = some insn →
    (output[k]? = some insn ∧ ∀ r ∈ done, r.type ≠ .label → r.addr ≠ loadAddr + k) ∨
      ∃ r ∈ done, r.type ≠ .label ∧ r.addr = loadAddr + k ∧
        ∃ target, Defines relocs r.label target ∧
          output[k]? = some (resolve r.type insn r.addr target)

lemma Patched.label (h : Patched loadAddr program relocs done output) (hr : r ∈ relocs)
    (ht : r.type = .label) : Patched loadAddr program relocs (done ++ [r]) output where
  length := h.length
  mem := by
    intro r' hr'
    rcases List.mem_append.mp hr' with hr' | hr'
    · exact h.mem r' hr'
    · rwa [List.mem_singleton.mp hr']
  words := by
    intro k insn hk
    rcases h.words k insn hk with ⟨hout, hno⟩ | ⟨r', hr', hrest⟩
    · refine .inl ⟨hout, fun r' hr' ht' => ?_⟩
      rcases List.mem_append.mp hr' with hr' | hr'
      · exact hno r' hr' ht'
      · rw [List.mem_singleton.mp hr'] at ht'
        exact absurd ht ht'
    · exact .inr ⟨r', List.mem_append_left _ hr', hrest⟩

/-- The instruction that a reference is about, as the references before have left it. -/
lemma Patched.insn (h : Patched loadAddr program relocs done output)
    (hm : Marked loadAddr program relocs) (hr : r ∈ relocs) (ht : r.type ≠ .label) {insn : Insn}
    (hk : program[r.addr - loadAddr]? = some insn) :
    ∃ insn', output[r.addr - loadAddr]? = some insn' ∧ Accepts r.type insn' ∧
      isRelative insn' = isRelative insn ∧
        ∀ target, resolve r.type insn' r.addr target = resolve r.type insn r.addr target := by
  obtain ⟨hge, insn₀, hk₀, hacc⟩ := hm r hr ht
  obtain rfl : insn₀ = insn := Option.some.inj (hk₀.symm.trans hk)
  rcases h.words _ _ hk with ⟨hout, -⟩ | ⟨r', hr', ht', haddr, target', -, hout⟩
  · exact ⟨insn₀, hout, hacc, rfl, fun _ => rfl⟩
  · have haddr' : r'.addr = r.addr := by omega
    obtain ⟨-, insn₁, hk₁, hacc₁⟩ := hm r' (h.mem r' hr') ht'
    rw [haddr', hk] at hk₁
    obtain rfl := Option.some.inj hk₁
    rw [hacc₁.unique hacc ht' ht, haddr'] at hout
    exact ⟨_, hout, hacc.resolve, isRelative_resolve, fun _ => resolve_resolve⟩

lemma Patched.reference (h : Patched loadAddr program relocs done output)
    (hm : Marked loadAddr program relocs) (hr : r ∈ relocs) (ht : r.type ≠ .label) {target : ℕ}
    (hdef : Defines relocs r.label target) {insn insn' : Insn}
    (hk : program[r.addr - loadAddr]? = some insn)
    (heq : resolve r.type insn' r.addr target = resolve r.type insn r.addr target) :
    Patched loadAddr program relocs (done ++ [r])
      (output.set (r.addr - loadAddr) (resolve r.type insn' r.addr target)) where
  length := by rw [List.length_set, h.length]
  mem := by
    intro r' hr'
    rcases List.mem_append.mp hr' with hr' | hr'
    · exact h.mem r' hr'
    · rwa [List.mem_singleton.mp hr']
  words := by
    intro k insn₀ hk₀
    have hge := (hm r hr ht).1
    by_cases hkr : r.addr = loadAddr + k
    · obtain rfl : k = r.addr - loadAddr := by omega
      obtain rfl := Option.some.inj (hk.symm.trans hk₀)
      have hlt : r.addr - loadAddr < output.length := by
        rw [h.length]
        exact (List.getElem?_eq_some_iff.mp hk).1
      refine .inr ⟨r, by simp, ht, hkr, target, hdef, ?_⟩
      rw [List.getElem?_set_self hlt, heq]
    · rw [List.getElem?_set_ne (by omega)]
      rcases h.words k insn₀ hk₀ with ⟨hout, hno⟩ | ⟨r', hr', hrest⟩
      · refine .inl ⟨hout, fun r' hr' ht' => ?_⟩
        rcases List.mem_append.mp hr' with hr' | hr'
        · exact hno r' hr' ht'
        · rwa [List.mem_singleton.mp hr']
      · exact .inr ⟨r', List.mem_append_left _ hr', hrest⟩

/-! ### The loops -/

/-- The order of `reloc_sort_func`. -/
lemma relocSortFunc_nonpos {lhs rhs : RelocInfo} (h : relocSortFunc lhs rhs ≤ 0) :
    lhs.label < rhs.label ∨ lhs.label = rhs.label ∧ lhs.type.toNat ≤ rhs.type.toNat := by
  unfold relocSortFunc at h
  split_ifs at h <;> omega

/-- A reference in reach to the label before it. -/
lemma sameFaults_reference (hl : l.type = .label) (ht : r.type ≠ .label) (hlabel : r.label = l.label)
    (honly : ∀ x ∈ rs, x.type = .label → x.label ≠ l.label)
    (hreach : ∀ insn, program[r.addr - loadAddr]? = some insn → InReach r.type insn r.addr l.addr) :
    SameFaults loadAddr program (l :: rs) (l :: r :: rs) := by
  have hdef : ∀ ℓ addr, Defines (l :: r :: rs) ℓ addr ↔ Defines (l :: rs) ℓ addr := by
    intro ℓ addr
    have hne : (⟨ℓ, addr, .label⟩ : RelocInfo) ≠ r := by
      rintro rfl
      exact ht rfl
    simp [Defines, hne]
  have hfirst : Defines (l :: rs) l.label l.addr := by
    unfold Defines
    rw [← hl]
    exact List.mem_cons_self
  have hunique : ∀ addr, Defines (l :: rs) l.label addr → addr = l.addr := by
    intro addr h
    rcases List.mem_cons.mp h with h | h
    · rw [← h]
    · exact absurd rfl (honly ⟨l.label, addr, .label⟩ h rfl)
  refine ⟨fun ℓ => ?_, fun ℓ => ?_, fun ℓ => ?_⟩
  · unfold Twice
    simp [List.countP_cons, ht]
  · unfold Undefined
    simp only [hdef]
    refine ⟨fun ⟨⟨x, hx, h⟩, hno⟩ => ⟨⟨x, ?_, h⟩, hno⟩, fun ⟨⟨x, hx, h⟩, hno⟩ => ⟨⟨x, ?_, h⟩, hno⟩⟩
    · rcases List.mem_cons.mp hx with rfl | hx
      · exact List.mem_cons_self
      · exact List.mem_cons_of_mem _ (List.mem_cons_of_mem _ hx)
    · rcases List.mem_cons.mp hx with rfl | hx
      · exact List.mem_cons_self
      · rcases List.mem_cons.mp hx with rfl | hx
        · -- the label of the reference is defined
          exact absurd hfirst (by rw [← hlabel, h.2]; exact hno _)
        · exact List.mem_cons_of_mem _ hx
  · unfold OutOfReach
    simp only [hdef]
    refine ⟨fun ⟨x, hx, h⟩ => ⟨x, ?_, h⟩, fun ⟨x, hx, h⟩ => ⟨x, ?_, h⟩⟩
    · rcases List.mem_cons.mp hx with rfl | hx
      · exact List.mem_cons_self
      · exact List.mem_cons_of_mem _ (List.mem_cons_of_mem _ hx)
    · rcases List.mem_cons.mp hx with rfl | hx
      · exact List.mem_cons_self
      · rcases List.mem_cons.mp hx with rfl | hx
        · obtain ⟨-, rfl, target, htarget, insn, hinsn, hno⟩ := h
          rw [hlabel] at htarget
          rw [hunique _ htarget] at hno
          exact absurd (hreach insn hinsn) hno
        · exact List.mem_cons_of_mem _ hx

/-- The verdict when the label before a reference is another one. -/
lemma verdict_undefined (hl : l.type = .label) (ht : r.type ≠ .label) (hlt : l.label < r.label)
    (hsort : ∀ x ∈ rs, r.label < x.label ∨ r.label = x.label ∧ r.type.toNat ≤ x.type.toNat) :
    Verdict loadAddr program (l :: r :: rs) .undefinedLabel := by
  refine Verdict.cons hl ?_ (.undefined r.label ⟨⟨r, List.mem_cons_self, ht, rfl⟩, ?_⟩ ?_)
  · intro x hx
    rcases List.mem_cons.mp hx with rfl | hx
    · exact hlt
    · rcases hsort x hx with h | h <;> omega
  · intro addr h
    rcases List.mem_cons.mp h with h | h
    · exact ht (by rw [← h])
    · rcases hsort _ h with h | ⟨-, h⟩
      · exact absurd h (lt_irrefl _)
      · cases ht' : r.type <;> simp [ht', RelocType.toNat] at h ht
  · intro j hj
    refine sound_of_forall_ne fun x hx => ?_
    rcases List.mem_cons.mp hx with rfl | hx
    · omega
    · rcases hsort x hx with h | h <;> omega

/-- What the loops do from a label on. -/
lemma fixInstructions_spec (hm : Marked loadAddr program relocs) :
    ∀ (rs : List RelocInfo) (l : RelocInfo) (done : List RelocInfo) (output : List Insn),
      l.type = .label → (l :: rs).Pairwise (fun lhs rhs => relocSortFunc lhs rhs ≤ 0) →
      (∀ x ∈ l :: rs, x ∈ relocs) → Patched loadAddr program relocs done output →
      ∃ rc output', fixInstructions loadAddr (some l) rs output = some (rc, output') ∧
        Verdict loadAddr program (l :: rs) rc ∧
        (rc = .ok → Patched loadAddr program relocs (done ++ rs) output') := by
  intro rs
  induction rs with
  | nil =>
    intro l done output hl _ _ hp
    refine ⟨.ok, output, rfl, .cons hl (by simp) (.ok fun ℓ => ?_), by simpa using hp⟩
    exact sound_of_forall_ne (by simp)
  | cons r rs ih =>
    intro l done output hl hsort hmem hp
    have hr : r ∈ relocs := hmem r (by simp)
    obtain ⟨hfirst, hsort'⟩ := List.pairwise_cons.mp hsort
    obtain ⟨hsecond, hsort''⟩ := List.pairwise_cons.mp hsort'
    have hlr := relocSortFunc_nonpos (hfirst r List.mem_cons_self)
    have hrs : ∀ x ∈ rs, r.label < x.label ∨ r.label = x.label ∧ r.type.toNat ≤ x.type.toNat :=
      fun x hx => relocSortFunc_nonpos (hsecond x hx)
    rw [fixInstructions]
    by_cases ht : r.type = .label
    · rw [if_pos ht]
      by_cases hlabel : r.label = l.label
      · rw [if_pos hlabel]
        refine ⟨.duplicateLabel, output, rfl, .twice l.label ?_ ?_, by simp⟩
        · unfold Twice
          rw [List.countP_cons_of_pos (by simp [hl]), List.countP_cons_of_pos (by simp [ht, hlabel])]
          omega
        · intro j hj
          refine sound_of_forall_ne fun x hx => ?_
          rcases List.mem_cons.mp hx with rfl | hx
          · omega
          · have := relocSortFunc_nonpos (hfirst x hx)
            omega
      · -- the inner loop breaks, and the outer one takes the next label
        rw [if_neg hlabel]
        obtain ⟨rc, output', hfix, hv, hok⟩ := ih r (done ++ [r]) output ht hsort'
          (fun x hx => hmem x (List.mem_cons_of_mem _ hx)) (hp.label hr ht)
        refine ⟨rc, output', hfix, hv.cons hl ?_, by simpa using hok⟩
        intro x hx
        rcases List.mem_cons.mp hx with rfl | hx
        · omega
        · rcases hrs x hx with h | h <;> omega
    · rw [if_neg ht]
      by_cases hlabel : r.label = l.label
      · rw [if_neg (by simpa using hlabel)]
        obtain ⟨hge, insn, hinsn, hacc⟩ := hm r hr ht
        obtain ⟨insn', hout, hacc', hrel, hres⟩ := hp.insn hm hr ht hinsn
        obtain ⟨hyes, hno⟩ := doSingleReloc_eq l hout hacc' ht
        have hdef : Defines relocs r.label l.addr := by
          unfold Defines
          rw [hlabel, ← hl]
          exact hmem l List.mem_cons_self
        have honly : ∀ x ∈ rs, x.type = .label → x.label ≠ l.label := by
          intro x hx hxt hxl
          rcases hrs x hx with h | ⟨-, h⟩
          · omega
          · rw [hxt] at h
            cases ht' : r.type <;> simp [ht', RelocType.toNat] at h ht
        by_cases hreach : InReach r.type insn' r.addr l.addr
        · rw [hyes hreach]
          simp only [ne_eq, not_true_eq_false, if_false]
          obtain ⟨rc, output', hfix, hv, hok⟩ := ih l (done ++ [r]) _ hl
            (List.pairwise_cons.mpr ⟨fun x hx => hfirst x (List.mem_cons_of_mem _ hx), hsort''⟩)
            (fun x hx => hmem x (by
              rcases List.mem_cons.mp hx with rfl | hx
              · exact List.mem_cons_self
              · exact List.mem_cons_of_mem _ (List.mem_cons_of_mem _ hx)))
            (hp.reference hm hr ht hdef hinsn (hres l.addr))
          refine ⟨rc, output', hfix, (sameFaults_reference hl ht hlabel honly ?_).verdict hv,
            by simpa using hok⟩
          intro insn₀ hinsn₀
          obtain rfl := Option.some.inj (hinsn.symm.trans hinsn₀)
          exact fun hb h => hreach hb (hrel.trans h)
        · rw [hno hreach]
          refine ⟨.branchOutOfRange, output, rfl, .reach l.label ?_ ?_ ?_, by simp⟩
          · refine ⟨r, by simp, ht, hlabel, l.addr, ?_, insn, hinsn, ?_⟩
            · unfold Defines
              rw [← hl]
              exact List.mem_cons_self
            · exact fun h => hreach fun hb h' => h hb (hrel.symm.trans h')
          · unfold Twice
            rw [List.countP_cons_of_pos (by simp [hl]), List.countP_cons_of_neg (by simp [ht])]
            have hzero : (rs.countP fun r => r.type = .label ∧ r.label = l.label) = 0 :=
              List.countP_eq_zero.mpr fun x hx => by simpa using honly x hx
            omega
          · intro j hj
            refine sound_of_forall_ne fun x hx => ?_
            rcases List.mem_cons.mp hx with rfl | hx
            · omega
            · have := relocSortFunc_nonpos (hfirst x hx)
              omega
      · rw [if_pos hlabel]
        exact ⟨.undefinedLabel, output, rfl, verdict_undefined hl ht (by omega) hrs, by simp⟩

/-- The whole walk: an `assert` fires if and only if the lowest label is not defined. -/
lemma fixInstructions_none {qsort : List RelocInfo → List RelocInfo}
    (hsort : Sorts relocSortFunc qsort) (hm : Marked loadAddr program relocs) :
    ((∀ ℓ, Undefined relocs ℓ → ∃ r ∈ relocs, r.label < ℓ) ∧
      ∃ rc output, fixInstructions loadAddr none (qsort relocs) program = some (rc, output) ∧
        Verdict loadAddr program relocs rc ∧
        (rc = .ok → Patched loadAddr program relocs (qsort relocs) output)) ∨
    ((¬ ∀ ℓ, Undefined relocs ℓ → ∃ r ∈ relocs, r.label < ℓ) ∧
      fixInstructions loadAddr none (qsort relocs) program = none) := by
  have hperm := hsort.perm relocs
  have hpair := hsort.sorted relocs
  have hstart : ∀ done : List RelocInfo, (∀ r ∈ done, r ∈ relocs) → (∀ r ∈ done, r.type = .label) →
      Patched loadAddr program relocs done program := fun done hmem hlabel =>
    ⟨rfl, hmem, fun k insn hk => .inl ⟨hk, fun r hr ht => absurd (hlabel r hr) ht⟩⟩
  rcases hq : qsort relocs with _ | ⟨l, rs⟩
  · rw [hq] at hperm
    obtain rfl : relocs = [] := List.nil_perm.mp hperm
    refine .inl ⟨?_, .ok, program, by rw [fixInstructions], .ok fun ℓ => ?_, fun _ => ?_⟩
    · rintro ℓ ⟨⟨r, hr, -⟩, -⟩
      exact absurd hr List.not_mem_nil
    · exact sound_of_forall_ne (by simp)
    · exact hstart [] (by simp) (by simp)
  · rw [hq] at hperm hpair
    have hle : ∀ x ∈ relocs, l.label < x.label ∨ l.label = x.label ∧ l.type.toNat ≤ x.type.toNat := by
      intro x hx
      rcases List.mem_cons.mp (hperm.mem_iff.mpr hx) with rfl | hx
      · exact .inr ⟨rfl, le_rfl⟩
      · exact relocSortFunc_nonpos ((List.pairwise_cons.mp hpair).1 x hx)
    have hl : l ∈ relocs := hperm.mem_iff.mp List.mem_cons_self
    rw [fixInstructions]
    by_cases ht : l.type = .label
    · rw [if_pos ht]
      obtain ⟨rc, output, hfix, hv, hok⟩ := fixInstructions_spec hm rs l [l] program ht hpair
        (fun x hx => hperm.mem_iff.mp hx) (hstart [l] (by simpa using hl) (by simpa using ht))
      refine .inl ⟨?_, rc, output, hfix, (sameFaults_of_perm hperm).verdict hv, hok⟩
      rintro ℓ ⟨⟨r, hr, hrt, rfl⟩, hno⟩
      refine ⟨l, hl, ?_⟩
      rcases hle r hr with h | ⟨h, -⟩
      · exact h
      · refine absurd ?_ (hno l.addr)
        unfold Defines
        rw [← h, ← ht]
        exact hl
    · rw [if_neg ht]
      refine .inr ⟨fun h => absurd (h l.label ⟨⟨l, hl, ht, rfl⟩, ?_⟩) ?_, rfl⟩
      · intro addr hdef
        rcases hle _ hdef with h | ⟨-, h⟩
        · exact absurd h (lt_irrefl _)
        · cases ht' : l.type <;> simp [ht', RelocType.toNat] at h ht
      · rintro ⟨r, hr, hlt⟩
        rcases hle r hr with h | h <;> omega

/-! ### The references -/

lemma Patched.resolved (h : Patched loadAddr program relocs done output)
    (hm : Marked loadAddr program relocs) (hall : ∀ r ∈ relocs, r ∈ done)
    (hagree : ∀ r ∈ relocs, ∀ r' ∈ relocs, r.type ≠ .label → r'.type ≠ .label → r.addr = r'.addr →
      ∀ target target', Defines relocs r.label target → Defines relocs r'.label target' →
        target = target') : Resolved loadAddr program relocs output where
  length := h.length
  other := by
    intro k insn hk hno
    rcases h.words k insn hk with ⟨hout, -⟩ | ⟨r, hr, ht, haddr, -⟩
    · exact hout
    · exact absurd haddr (hno r (h.mem r hr) ht)
  reference := by
    intro r hr ht target hdef insn hk
    obtain ⟨hge, insn₀, hk₀, hacc⟩ := hm r hr ht
    obtain rfl := Option.some.inj (hk₀.symm.trans hk)
    rcases h.words _ _ hk with ⟨-, hno⟩ | ⟨r', hr', ht', haddr, target', hdef', hout⟩
    · exact absurd (by omega) (hno r (hall r hr) ht)
    · have haddr' : r'.addr = r.addr := by omega
      obtain ⟨-, insn₁, hk₁, hacc₁⟩ := hm r' (h.mem r' hr') ht'
      rw [haddr', hk] at hk₁
      obtain rfl := Option.some.inj hk₁
      rw [hout, hacc₁.unique hacc ht' ht, haddr',
        hagree r' (h.mem r' hr') r hr ht' ht haddr' target' target hdef' hdef]

/-- Where every reference is replaced by its target, references from one instruction have the same
target. -/
lemma Resolved.agree (h : Resolved loadAddr program relocs output)
    (hm : Marked loadAddr program relocs) (hlt : ∀ r ∈ relocs, r.addr < 2048)
    (hsound : ∀ ℓ, Sound loadAddr program relocs ℓ) {r' : RelocInfo} (hr : r ∈ relocs)
    (hr' : r' ∈ relocs) (ht : r.type ≠ .label) (ht' : r'.type ≠ .label) (haddr : r.addr = r'.addr)
    {target target' : ℕ} (hdef : Defines relocs r.label target)
    (hdef' : Defines relocs r'.label target') : target = target' := by
  obtain ⟨-, insn, hk, hacc⟩ := hm r hr ht
  obtain ⟨-, insn₁, hk₁, hacc₁⟩ := hm r' hr' ht'
  have hk' := hk₁
  rw [← haddr, hk] at hk₁
  obtain rfl := Option.some.inj hk₁
  have htype := hacc₁.unique hacc ht' ht
  have hout := h.reference r hr ht target hdef insn hk
  have hout' := h.reference r' hr' ht' target' hdef' insn hk'
  rw [← haddr, hout, htype] at hout'
  have hreach : InReach r.type insn r.addr target := by
    by_contra hno
    exact (hsound r.label).reach ⟨r, hr, ht, rfl, target, hdef, insn, hk, hno⟩
  have hreach' : InReach r.type insn r.addr target' := by
    by_contra hno
    rw [← htype, haddr] at hno
    exact (hsound r'.label).reach ⟨r', hr', ht', rfl, target', hdef', insn, hk', hno⟩
  exact resolve_injective hacc ht (hlt _ hdef) (hlt _ hdef') hreach hreach' (Option.some.inj hout')

/-! ### The macros of the program -/

lemma marks_eq_nil (h : ∀ insn ∈ program, isMacro insn = false) : marks loadAddr program = [] := by
  induction program generalizing loadAddr with
  | nil => rfl
  | cons insn rest ih =>
    rw [marks, if_neg (by simp [h insn List.mem_cons_self])]
    exact ih fun x hx => h x (List.mem_cons_of_mem _ hx)

lemma marks_add (n : ℕ) :
    marks (loadAddr + n) program =
      (marks loadAddr program).map fun r => ⟨r.label, r.addr + n, r.type⟩ := by
  induction program generalizing loadAddr with
  | nil => rfl
  | cons insn rest ih =>
    rw [marks, marks]
    split
    · rw [List.map_append, ih, List.map_map]
      rfl
    · rw [Nat.add_right_comm, ih]

/-- A program that does not end in a macro. -/
def EndsPlain (program : List Insn) : Prop :=
  ∀ insn, program.getLast? = some insn → isMacro insn = false

lemma EndsPlain.tail {insn : Insn} {rest : List Insn} (h : EndsPlain (insn :: rest)) :
    EndsPlain rest := by
  cases rest with
  | nil => simp [EndsPlain]
  | cons a rest => simpa [EndsPlain, List.getLast?_cons_cons] using h

lemma strip_cons_of_macro_insn {insn : Insn} {rest : List Insn} (h : isMacro insn = true) :
    strip (insn :: rest) = strip rest := by
  simp [strip, h]

lemma strip_cons_plain {insn : Insn} {rest : List Insn} (h : isMacro insn = false) :
    strip (insn :: rest) = insn :: strip rest := by
  simp [strip, h]

lemma EndsPlain.strip_pos (h : EndsPlain program) (hne : program ≠ []) :
    0 < (strip program).length := by
  have hlast := h _ (List.getLast?_eq_some_getLast hne)
  exact List.length_pos_of_mem
    (List.mem_filter.mpr ⟨List.getLast_mem hne, by simp [hlast]⟩)

lemma marks_addr (h : EndsPlain program) (hr : r ∈ marks loadAddr program) :
    loadAddr ≤ r.addr ∧ r.addr < loadAddr + (strip program).length := by
  induction program generalizing loadAddr with
  | nil => exact absurd hr List.not_mem_nil
  | cons insn rest ih =>
    rw [marks] at hr
    by_cases hmac : isMacro insn
    · rw [if_pos hmac] at hr
      rw [strip_cons_of_macro_insn hmac]
      rcases List.mem_append.mp hr with hr | hr
      · obtain ⟨type, -, rfl⟩ := List.mem_map.mp hr
        have hne : rest ≠ [] := by
          rintro rfl
          simp [h insn rfl] at hmac
        have := h.tail.strip_pos hne
        simp only
        omega
      · exact ih h.tail hr
    · rw [if_neg hmac] at hr
      rw [strip_cons_plain (by simpa using hmac), List.length_cons]
      have := ih h.tail hr
      omega

/-- Step 2 on a program whose macros are known. -/
lemma recordMacros_eq (h : EndsPlain program)
    (hmacros : ∀ insn ∈ program, isMacro insn → (macroType insn).isSome)
    (hlt : loadAddr + (strip program).length ≤ 2048) :
    recordMacros loadAddr program = some (marks loadAddr program, strip program) := by
  induction program generalizing loadAddr with
  | nil => rfl
  | cons insn rest ih =>
    have hmacros' := fun x hx => hmacros x (List.mem_cons_of_mem _ hx)
    rw [recordMacros, marks]
    by_cases hmac : isMacro insn
    · rw [strip_cons_of_macro_insn hmac] at hlt ⊢
      have hne : rest ≠ [] := by
        rintro rfl
        simp [h insn rfl] at hmac
      have := h.tail.strip_pos hne
      obtain ⟨type, htype⟩ := Option.isSome_iff_exists.mp (hmacros insn List.mem_cons_self hmac)
      simp only [hmac, if_true, htype, if_neg hne, ih h.tail hmacros' hlt, Option.map_some,
        Option.toList_some, List.map_cons, List.map_nil, List.singleton_append, relocInfo,
        Nat.mod_eq_of_lt (show loadAddr < 2 ^ 11 by omega)]
    · have hplain : isMacro insn = false := by simpa using hmac
      rw [strip_cons_plain hplain] at hlt ⊢
      rw [List.length_cons] at hlt
      rw [if_neg hmac, if_neg hmac, ih h.tail hmacros' (by omega)]
      rfl

/-- Step 2 on a program with an unknown macro. -/
lemma recordMacros_eq_none (h : ∃ insn ∈ program, isMacro insn ∧ macroType insn = none) :
    recordMacros loadAddr program = none := by
  induction program generalizing loadAddr with
  | nil =>
    obtain ⟨insn, hmem, -⟩ := h
    exact absurd hmem List.not_mem_nil
  | cons a rest ih =>
    obtain ⟨insn, hmem, hmac, hnone⟩ := h
    rw [recordMacros]
    rcases List.mem_cons.mp hmem with rfl | hmem
    · rw [if_pos hmac, hnone]
    · rw [ih ⟨insn, hmem, hmac, hnone⟩, ih ⟨insn, hmem, hmac, hnone⟩]
      split
      · cases macroType a with
        | none => rfl
        | some type => simp
      · rfl

lemma WellFormed.marked (h : WellFormed program) :
    Marked loadAddr (strip program) (marks loadAddr program) := by
  intro r hr ht
  have hmarks : marks (0 + loadAddr) program = _ := marks_add loadAddr
  rw [Nat.zero_add] at hmarks
  rw [hmarks] at hr
  obtain ⟨r', hr', rfl⟩ := List.mem_map.mp hr
  obtain ⟨insn, hinsn, hacc⟩ := h.kinds r' hr' ht
  refine ⟨Nat.le_add_left _ _, insn, ?_, hacc⟩
  simpa using hinsn

end EspIdf.Ulp
