/-
# Batch mode

In batch mode every call looks at the bits burned before the batch.  The batch burns what the
calls would burn one after the other if no counted bit has been staged before, and otherwise
some bits are missing.
-/
import EspIdf.Efuse.Calls

namespace EspIdf.Efuse

open OneTime

variable {rdata6 : BitVec 32} {r u v w w' : Regs} {x : Pos} {e e' : Chip} {c : Call}
  {calls : List Call} {T : Finset Pos}

/-! ### Registers by their bits -/

lemma Regs.ext_has (h : ∀ x, w.has x = true ↔ w'.has x = true) : w = w' := by
  funext blk numReg
  refine BitVec.eq_of_getLsbD_eq fun n _ => ?_
  exact Bool.eq_iff_iff.mpr (h (blk, numReg, n))

def Regs.or (u w : Regs) : Regs := fun blk numReg => u blk numReg ||| w blk numReg

@[simp] lemma Regs.has_or : (u.or w).has x = (u.has x || w.has x) := BitVec.getLsbD_or

/-- With repetition, the bit is in the half that is written. -/
def Primary (rdata6 : BitVec 32) (x : Pos) : Prop :=
  getCodingScheme rdata6 x.1 = .repetition → x.2.1 < 4

lemma codedBlock_of_primary (hx : Primary rdata6 x) :
    codedBlock (getCodingScheme rdata6 x.1) (w x.1) x.2.1 = w x.1 x.2.1 := by
  rw [codedBlock, if_neg]
  rintro ⟨hscheme, hle, _⟩
  exact absurd (hx hscheme) (Nat.not_lt_of_le hle)

lemma has_burned (hex : RegExists x.1 x.2.1) (hx : Primary rdata6 x) :
    (burned rdata6 r w).has x = (r.has x || w.has x) := by
  rw [Regs.has, burned, if_pos hex, BitVec.getLsbD_or, codedBlock_of_primary hx]
  rfl

lemma has_burned_of_not_exists (hex : ¬ RegExists x.1 x.2.1) :
    (burned rdata6 r w).has x = r.has x := by
  rw [Regs.has, burned, if_neg hex]
  rfl

lemma burned_burned : burned rdata6 (burned rdata6 r u) w = burned rdata6 r (u.or w) := by
  funext blk numReg
  by_cases hex : RegExists blk numReg
  · simp only [burned, if_pos hex, codedBlock]
    split <;> exact BitVec.or_assoc ..
  · simp only [burned, if_neg hex]

lemma has_burned_of_has (h : r.has x = true) : (burned rdata6 r w).has x = true := by
  rw [Regs.has] at h ⊢
  rw [burned]
  split
  · rw [BitVec.getLsbD_or, h]
    rfl
  · exact h

/-! ### What fits -/

lemma GroupZero.mono {b b' : Block} {g : ℕ}
    (h : ∀ i n, (b i).getLsbD n = true → (b' i).getLsbD n = true) (hg : GroupZero b' g) :
    GroupZero b g :=
  fun n hn => byteAt_eq_zero h (hg n hn)

lemma eq_zero_mono {a b : BitVec 32} (h : ∀ n, a.getLsbD n = true → b.getLsbD n = true)
    (hb : b = 0) : a = 0 := by
  subst hb
  refine BitVec.eq_of_getLsbD_eq fun n _ => ?_
  cases ha : a.getLsbD n with
  | false => simp
  | true => exact absurd (h n ha) (by simp)

/-- Fewer bits fit as well. -/
lemma Fits.mono (h : ∀ x, w.has x = true → w'.has x = true) (hw : Fits rdata6 r w') :
    Fits rdata6 r w := by
  intro blk hle hlt
  have hblk := hw blk hle hlt
  have hbits : ∀ i n, (w blk i).getLsbD n = true → (w' blk i).getLsbD n = true :=
    fun i n => h (blk, i, n)
  cases hscheme : getCodingScheme rdata6 blk with
  | none => trivial
  | threeQuarters =>
    rw [hscheme] at hblk
    refine ⟨eq_zero_mono (hbits 6) hblk.1, eq_zero_mono (hbits 7) hblk.2.1, fun g hg => ?_⟩
    exact (hblk.2.2 g hg).imp_left (GroupZero.mono hbits)
  | repetition =>
    rw [hscheme] at hblk
    exact fun i hi => eq_zero_mono (hbits (i + 4)) (hblk i hi)

lemma groupZero_or {b b' : Block} {g : ℕ} (h : GroupZero b g) (h' : GroupZero b' g) :
    GroupZero (fun i => b i ||| b' i) g := by
  intro n hn
  have hb := h n hn
  have hb' := h' n hn
  rw [byteAt] at hb hb' ⊢
  rw [BitVec.extractLsb'_or, hb, hb']
  rfl

/-- What fits after something has been burned fits together with it. -/
lemma Fits.or (hu : Fits rdata6 r u) (hw : Fits rdata6 (burned rdata6 r u) w) :
    Fits rdata6 r (u.or w) := by
  intro blk hle hlt
  have hu := hu blk hle hlt
  have hw := hw blk hle hlt
  cases hscheme : getCodingScheme rdata6 blk with
  | none => trivial
  | threeQuarters =>
    rw [hscheme] at hu hw
    refine ⟨?_, ?_, fun g hg => ?_⟩
    · rw [Regs.or, hu.1, hw.1]
      rfl
    · rw [Regs.or, hu.2.1, hw.2.1]
      rfl
    · have hr : GroupZero (burned rdata6 r u blk) g → GroupZero (r blk) g :=
        GroupZero.mono fun i n => has_burned_of_has (x := (blk, i, n))
      rcases hu.2.2 g hg with hzero | hfree
      · exact (hw.2.2 g hg).imp (groupZero_or hzero) hr
      · exact .inr hfree
  | repetition =>
    rw [hscheme] at hu hw
    intro i hi
    rw [Regs.or, hu i hi, hw i hi]
    rfl

lemma Fits.primary (h : Fits rdata6 r w) (hex : RegExists x.1 x.2.1) (hx : w.has x = true) :
    Primary rdata6 x := by
  intro hscheme
  obtain ⟨blk, numReg, n⟩ := x
  obtain ⟨hblk, hreg⟩ := hex
  dsimp only at hscheme hblk hreg ⊢
  have hpos : blk ≠ 0 := by
    rintro rfl
    rw [getCodingScheme_zero] at hscheme
    cases hscheme
  have hfits := h blk (by omega) hblk
  rw [hscheme] at hfits
  rw [maxNumReg, if_neg hpos] at hreg
  by_contra hle
  have hzero := hfits (numReg - 4) (by omega)
  rw [Nat.sub_add_cancel (by omega)] at hzero
  rw [Regs.has, hzero] at hx
  simp at hx

/-- A field is in the half that is written. -/
lemma primary_of_mem_fieldBits {field : List Desc} (h : x ∈ fieldBits rdata6 field) :
    Primary rdata6 x := by
  obtain ⟨d, hd, hx⟩ := List.mem_flatMap.mp h
  have hrange := List.mem_takeWhile_imp hd
  obtain ⟨n, hn, rfl⟩ := List.mem_map.mp hx
  rw [List.mem_range'_1] at hn
  intro hscheme
  dsimp only at hscheme ⊢
  simp only [checkRangeOfBits, hscheme] at hrange
  split at hrange
  · exact absurd hrange Bool.false_ne_true
  · rw [decide_eq_true_eq] at hrange
    omega

/-! ### Calls made one after the other -/

/-- The calls are made one after the other, and all of them return `ESP_OK`. -/
def individually : Chip → List Call → Option Chip
  | e, [] => some e
  | e, c :: cs =>
    match c.run e with
    | some (.ok, e') => individually e' cs
    | _ => none

/-- The bits `T` have been burned over `r`, by way of the program registers `u`. -/
structure Burned (rdata6 : BitVec 32) (r : Regs) (T : Finset Pos) (u v : Regs) : Prop where
  eq : v = burned rdata6 r u
  has_iff : ∀ x, u.has x = true ↔ x ∈ T
  fits : Fits rdata6 r u
  exist : ∀ x ∈ T, RegExists x.1 x.2.1
  new : ∀ x ∈ T, r.has x = false

lemma Burned.refl (rdata6 : BitVec 32) (r : Regs) : Burned rdata6 r ∅ (fun _ _ => 0) r where
  eq := by
    funext blk numReg
    simp [burned, codedBlock]
  has_iff := fun x => by simp [Regs.has]
  fits := fun blk _ _ => by
    cases getCodingScheme rdata6 blk with
    | none => trivial
    | threeQuarters =>
      exact ⟨rfl, rfl, fun g _ => .inl fun n _ => byteAt_of_word_eq_zero rfl⟩
    | repetition => exact fun _ _ => rfl
  exist := fun x hx => absurd hx (Finset.notMem_empty x)
  new := fun x hx => absurd hx (Finset.notMem_empty x)

/-- Where a call may look, just the bits in `T` have been added. -/
lemma Burned.has_eq (h : Burned rdata6 r T u v) (hx : Primary rdata6 x) :
    v.has x = grow r.has T x := by
  rw [h.eq, grow]
  by_cases hex : RegExists x.1 x.2.1
  · rw [has_burned hex hx]
    congr 1
    exact Bool.eq_iff_iff.mpr (by rw [h.has_iff, decide_eq_true_eq])
  · rw [has_burned_of_not_exists hex, decide_eq_false fun hT => hex (h.exist x hT), Bool.or_false]

/-- Everything in `T` is burned. -/
lemma Burned.le (h : Burned rdata6 r T u v) (hx : v.has x = false) : grow r.has T x = false := by
  rw [grow_eq_false]
  constructor
  · cases hr : r.has x with
    | false => rfl
    | true =>
      rw [h.eq, has_burned_of_has hr] at hx
      exact absurd hx (by simp)
  · intro hT
    have hu := (h.has_iff x).mpr hT
    rw [h.eq, has_burned (h.exist x hT) (h.fits.primary (h.exist x hT) hu), hu] at hx
    simp at hx

/-- A call that is accepted with `T` burned is a request granted after `T`. -/
lemma Burned.request (h : Burned rdata6 r T u v) (hc : c.Accepted rdata6 v) :
    (c.request rdata6).Granted (grow r.has T) ∧
    (c.request rdata6).want (grow r.has T) = (c.sets rdata6 v).toFinset := by
  obtain ⟨hgranted, hwant⟩ := hc.request
  rw [← hwant]
  have hexact : ∀ s, c.request rdata6 = .exact s →
      (c.request rdata6).Granted (grow r.has T) ∧
      (c.request rdata6).want (grow r.has T) = (c.request rdata6).want v.has := by
    intro s hs
    rw [hs] at hgranted ⊢
    exact ⟨fun x hx => h.le (hgranted x hx), rfl⟩
  cases c with
  | writeFieldBlob field src srcSizeBits =>
    cases field with
    | none => exact hexact _ rfl
    | some field =>
      cases src with
      | none => exact hexact _ rfl
      | some src => exact hexact _ rfl
  | writeFieldCnt field cnt =>
    cases field with
    | none => exact hexact _ rfl
    | some field =>
      have hfree : free (grow r.has T) (fieldBits rdata6 field) =
          free v.has (fieldBits rdata6 field) := by
        refine List.filter_congr fun x hx => ?_
        rw [h.has_eq (primary_of_mem_fieldBits hx)]
      refine ⟨?_, ?_⟩
      · rw [Call.request, Request.Granted, hfree]
        exact hgranted
      · rw [Call.request, Request.want, hfree]
        rfl
  | writeReg blk numReg val => exact hexact _ rfl

/-- One more call. -/
lemma Burned.step (h : Burned rdata6 r T u v)
    (hs : Staged rdata6 v (fun _ _ => 0) c .ok w) (hfits : Fits rdata6 v w) :
    Burned rdata6 r (T ∪ (c.request rdata6).want (grow r.has T)) (u.or w)
      (burned rdata6 v w) := by
  have hacc : c.Accepted rdata6 v := hs.ok_iff.mp rfl
  obtain ⟨hgranted, hwant⟩ := h.request hacc
  have hw : ∀ x, w.has x = true ↔ x ∈ c.sets rdata6 v := by
    intro x
    rw [hs.adds x]
    simp [Regs.has]
  rw [hwant]
  refine ⟨?_, fun x => ?_, ?_, fun x hx => ?_, fun x hx => ?_⟩
  · rw [h.eq, burned_burned]
  · rw [Regs.has_or, Bool.or_eq_true, h.has_iff, hw, Finset.mem_union, List.mem_toFinset]
  · rw [h.eq] at hfits
    exact h.fits.or hfits
  · rcases Finset.mem_union.mp hx with hx | hx
    · exact h.exist x hx
    · exact hs.exist x (List.mem_toFinset.mp hx)
  · rcases Finset.mem_union.mp hx with hx | hx
    · exact h.new x hx
    · rw [← hwant] at hx
      exact (grow_eq_false.mp (Request.free_of_mem_want hgranted hx)).1

/-- Calls that all succeed are requests granted one by one. -/
theorem individually_oneByOne (h : Burned e.rdata6 r T u e.virtBlocks) (he : e.batchMode = false)
    (hrun : individually e calls = some e') :
    ∃ T' u', OneByOne r.has (calls.map (Call.request e.rdata6)) T T' ∧
      Burned e.rdata6 r T' u' e'.virtBlocks := by
  induction calls generalizing e T u with
  | nil =>
    rw [individually, Option.some.injEq] at hrun
    subst hrun
    exact ⟨T, u, rfl, h⟩
  | cons c calls ih =>
    rw [individually] at hrun
    split at hrun
    · next e₁ hcall =>
      obtain ⟨w, rfl, hs, hfits⟩ := Call.run_single he hcall
      obtain ⟨T', u', hone, hburned⟩ :=
        ih (e := Chip.reset { e with virtBlocks := burned e.rdata6 e.virtBlocks w })
          (h.step hs hfits) he hrun
      exact ⟨T', u', ⟨(h.request (hs.ok_iff.mp rfl)).1, hone⟩, hburned⟩
    · exact absurd hrun (by simp)

/-! ### Calls made in batch mode -/

/-- A call with the states of the chip before and after it. -/
structure Step where
  before : Chip
  call : Call
  err : EspErr
  after : Chip

def runCalls : Chip → List Call → Option (List Step × Chip)
  | e, [] => some ([], e)
  | e, c :: cs => do
    let (err, e₁) ← c.run e
    let (steps, e₂) ← runCalls e₁ cs
    return (⟨e, c, err, e₁⟩ :: steps, e₂)

/-- The calls that returned `ESP_OK`. -/
def succeeded (steps : List Step) : List Call :=
  (steps.filter fun s => s.err = .ok).map Step.call

/-- A call that returned an error left the program registers unchanged. -/
def FailuresKeep (steps : List Step) : Prop :=
  ∀ s ∈ steps, s.err ≠ .ok → s.after.wdata = s.before.wdata

/-- A call that cannot do all it is asked for finds all the bits staged that it sets before it
notices. -/
def QuietFailures (steps : List Step) : Prop :=
  ∀ s ∈ steps, ¬ s.call.Accepted s.before.rdata6 s.before.virtBlocks →
    ∀ x ∈ s.call.sets s.before.rdata6 s.before.virtBlocks, s.before.wdata.has x = true

/-- The first free bits of a field that is counted in have not been staged before. -/
def FreshCounts (steps : List Step) : Prop :=
  ∀ s ∈ steps, s.call.Accepted s.before.rdata6 s.before.virtBlocks →
    ∀ field cnt, s.call = .writeFieldCnt field cnt →
      ∀ x ∈ s.call.sets s.before.rdata6 s.before.virtBlocks, s.before.wdata.has x = false

/-- The commit burns what the successful calls would have burned one after the other. -/
def CommitsTheSame (e : Chip) (steps : List Step) (e' : Chip) : Prop :=
  ∀ e₁, individually e (succeeded steps) = some e₁ →
    (batchWriteCommit e').2.virtBlocks = e₁.virtBlocks

lemma runCalls_cons {steps : List Step} (h : runCalls e (c :: calls) = some (steps, e')) :
    ∃ err e₁ rest, c.run e = some (err, e₁) ∧ runCalls e₁ calls = some (rest, e') ∧
      steps = ⟨e, c, err, e₁⟩ :: rest := by
  simp only [runCalls, Option.bind_eq_bind, Option.bind_eq_some_iff, Option.pure_def,
    Option.some.injEq, Prod.mk.injEq] at h
  obtain ⟨⟨err, e₁⟩, hcall, ⟨rest, e₂⟩, hrest, rfl, rfl⟩ := h
  exact ⟨err, e₁, rest, hcall, hrest, rfl⟩

/-- Every step of a batch stages the bits of its call, seeing the bits burned before. -/
lemma runCalls_staged {steps : List Step} (he : e.batchMode = true)
    (h : runCalls e calls = some (steps, e')) :
    ∀ s ∈ steps, s.before.rdata6 = e.rdata6 ∧ s.before.virtBlocks = e.virtBlocks ∧
      s.call ∈ calls ∧
      Staged e.rdata6 e.virtBlocks s.before.wdata s.call s.err s.after.wdata := by
  induction calls generalizing e steps with
  | nil =>
    rw [runCalls, Option.some.injEq, Prod.mk.injEq] at h
    rw [← h.1]
    exact fun s hs => absurd hs List.not_mem_nil
  | cons c calls ih =>
    obtain ⟨err, e₁, rest, hcall, hrest, rfl⟩ := runCalls_cons h
    obtain ⟨w, rfl, hstaged⟩ := Call.run_batch he hcall
    intro s hs
    rcases List.mem_cons.mp hs with rfl | hs
    · exact ⟨rfl, rfl, List.mem_cons_self, hstaged⟩
    · obtain ⟨hrd, hvirt, hmem, hs⟩ := ih (e := { e with wdata := w }) he hrest s hs
      exact ⟨hrd, hvirt, List.mem_cons_of_mem _ hmem, hs⟩

/-- Failed calls leave the registers unchanged just when their bits are all staged before. -/
lemma failuresKeep_iff {steps : List Step} (he : e.batchMode = true)
    (h : runCalls e calls = some (steps, e')) : FailuresKeep steps ↔ QuietFailures steps := by
  have hsteps := runCalls_staged he h
  constructor
  · intro hkeep s hs hacc x hx
    obtain ⟨hrd, hvirt, _, hstaged⟩ := hsteps s hs
    rw [hrd, hvirt] at hacc hx
    rw [← hkeep s hs fun hok => hacc (hstaged.ok_iff.mp hok)]
    exact (hstaged.adds x).mpr (.inr hx)
  · intro hquiet s hs herr
    obtain ⟨hrd, hvirt, _, hstaged⟩ := hsteps s hs
    have hacc : ¬ s.call.Accepted e.rdata6 e.virtBlocks := fun hacc => herr (hstaged.ok_iff.mpr hacc)
    have hall := hquiet s hs
    rw [hrd, hvirt] at hall
    refine Regs.ext_has fun x => ?_
    rw [hstaged.adds x]
    exact ⟨fun hx => hx.elim id (hall hacc x), .inl⟩

/-- A request counts nothing twice if its call does not. -/
lemma fresh_request_iff {S : Finset Pos} (hS : ∀ x, w.has x = true ↔ x ∈ S) :
    (∀ field cnt, c = .writeFieldCnt field cnt →
      ∀ x ∈ c.sets rdata6 r, w.has x = false) ↔ (c.request rdata6).Fresh r.has S := by
  have hnot : ∀ x, w.has x = false ↔ x ∉ S := fun x => by rw [← hS, Bool.not_eq_true]
  cases c with
  | writeFieldBlob field src srcSizeBits =>
    refine ⟨fun _ => ?_, fun _ field cnt h => Call.noConfusion h⟩
    cases field with
    | none => trivial
    | some field => cases src <;> trivial
  | writeFieldCnt field cnt =>
    cases field with
    | none => exact ⟨fun _ => trivial, fun _ _ _ _ x hx => absurd hx List.not_mem_nil⟩
    | some field =>
      exact ⟨fun h x hx => (hnot x).mp (h _ _ rfl x hx),
        fun h _ _ _ x hx => (hnot x).mpr (h x hx)⟩
  | writeReg blk numReg val => exact ⟨fun _ => trivial, fun _ field cnt h => Call.noConfusion h⟩

/-- If failed calls change nothing, the batch stages what the other calls request together. -/
theorem runCalls_together {steps : List Step} {S : Finset Pos} (he : e.batchMode = true)
    (hS : ∀ x, e.wdata.has x = true ↔ x ∈ S) (h : runCalls e calls = some (steps, e'))
    (hquiet : QuietFailures steps) :
    (∃ w, e' = { e with wdata := w } ∧ ∀ x, w.has x = true ↔
      x ∈ together e.virtBlocks.has ((succeeded steps).map (Call.request e.rdata6)) S) ∧
    (FreshCounts steps ↔
      AllFresh e.virtBlocks.has ((succeeded steps).map (Call.request e.rdata6)) S) := by
  induction calls generalizing e steps S with
  | nil =>
    rw [runCalls, Option.some.injEq, Prod.mk.injEq] at h
    obtain ⟨rfl, rfl⟩ := h
    exact ⟨⟨_, rfl, hS⟩, fun _ => trivial, fun _ s hs => absurd hs List.not_mem_nil⟩
  | cons c calls ih =>
    obtain ⟨err, e₁, rest, hcall, hrest, rfl⟩ := runCalls_cons h
    obtain ⟨w, rfl, hstaged⟩ := Call.run_batch he hcall
    have hquiet' : QuietFailures rest := fun s hs => hquiet s (List.mem_cons_of_mem _ hs)
    by_cases hok : err = .ok
    · -- the bits of the request are added
      subst hok
      have hacc := hstaged.ok_iff.mp rfl
      obtain ⟨_, hwant⟩ := hacc.request
      have hS' : ∀ x, w.has x = true ↔
          x ∈ S ∪ (c.request e.rdata6).want e.virtBlocks.has := by
        intro x
        rw [hstaged.adds x, hS, Finset.mem_union, hwant, List.mem_toFinset]
      obtain ⟨hlast, hfresh⟩ :=
        ih (e := { e with wdata := w }) he hS' hrest hquiet'
      refine ⟨hlast, ?_⟩
      have hcons : FreshCounts (⟨e, c, .ok, { e with wdata := w }⟩ :: rest) ↔
          (∀ field cnt, c = .writeFieldCnt field cnt →
            ∀ x ∈ c.sets e.rdata6 e.virtBlocks, e.wdata.has x = false) ∧ FreshCounts rest := by
        rw [FreshCounts, List.forall_mem_cons]
        exact and_congr_left' ⟨fun h => h hacc, fun h _ => h⟩
      rw [hcons, hfresh, fresh_request_iff hS]
      rfl
    · -- a failed call adds nothing
      have hacc : ¬ c.Accepted e.rdata6 e.virtBlocks := fun hacc => hok (hstaged.ok_iff.mpr hacc)
      have hS' : ∀ x, w.has x = true ↔ x ∈ S := by
        intro x
        rw [hstaged.adds x, ← hS]
        exact ⟨fun hx => hx.elim id (hquiet _ List.mem_cons_self hacc x), .inl⟩
      have hrest' : succeeded (⟨e, c, err, { e with wdata := w }⟩ :: rest) = succeeded rest := by
        rw [succeeded, List.filter_cons_of_neg (by simpa using hok), succeeded]
      rw [hrest']
      obtain ⟨hlast, hfresh⟩ :=
        ih (e := { e with wdata := w }) he hS' hrest hquiet'
      refine ⟨hlast, ?_⟩
      rw [← hfresh, FreshCounts, List.forall_mem_cons]
      exact ⟨And.right, fun h => ⟨fun h' => absurd h' hacc, h⟩⟩

/-! ### The batch and the single calls -/

/-- No field that is counted in names a bit twice. -/
def NamesOnce (calls : List Call) : Prop :=
  ∀ field cnt, .writeFieldCnt (some field) cnt ∈ calls → (field.flatMap Desc.bits).Nodup

lemma plain_request (h : ∀ field cnt, c = .writeFieldCnt (some field) cnt →
    (field.flatMap Desc.bits).Nodup) : (c.request rdata6).Plain := by
  cases c with
  | writeFieldBlob field src srcSizeBits =>
    cases field with
    | none => trivial
    | some field => cases src <;> trivial
  | writeFieldCnt field cnt =>
    cases field with
    | none => trivial
    | some field =>
      have hfield := h field cnt rfl
      rw [← List.takeWhile_append_dropWhile (l := field) (p := fun d =>
        checkRangeOfBits rdata6 d.efuseBlock d.bitStart d.bitCount), List.flatMap_append] at hfield
      exact (List.nodup_append.mp hfield).1
  | writeReg blk numReg val => trivial

lemma mem_calls_of_mem_succeeded {steps : List Step} (he : e.batchMode = true)
    (h : runCalls e calls = some (steps, e')) (hc : c ∈ succeeded steps) : c ∈ calls := by
  obtain ⟨s, hs, rfl⟩ := List.mem_map.mp hc
  exact (runCalls_staged he h s (List.mem_of_mem_filter hs)).2.2.1

/-- The committed registers and the ones burned call by call. -/
lemma commit_eq_iff {S T : Finset Pos} (he : e.batchMode = true)
    (hS : ∀ x, e.wdata.has x = true ↔ x ∈ S) (hsub : S ⊆ T)
    (hT : Burned e.rdata6 e.virtBlocks T u v) :
    (batchWriteCommit e).2.virtBlocks = v ↔ S = T := by
  have hle : ∀ x, e.wdata.has x = true → u.has x = true :=
    fun x hx => (hT.has_iff x).mpr (hsub ((hS x).mp hx))
  have hcommit : (batchWriteCommit e).2.virtBlocks = burned e.rdata6 e.virtBlocks e.wdata := by
    simp only [batchWriteCommit, if_pos he, (codeAndBurn_eq e).2.1 (hT.fits.mono hle),
      batchWriteCancel]
    split <;> rfl
  rw [hcommit, hT.eq]
  constructor
  · intro heq
    refine Finset.Subset.antisymm hsub fun x hx => ?_
    have hu := (hT.has_iff x).mpr hx
    have hex := hT.exist x hx
    have hprimary := hT.fits.primary hex hu
    have hbit : (burned e.rdata6 e.virtBlocks e.wdata).has x = true := by
      rw [heq, has_burned hex hprimary, hu, Bool.or_true]
    rw [has_burned hex hprimary, hT.new x hx, Bool.false_or] at hbit
    exact (hS x).mp hbit
  · rintro rfl
    have hsame : e.wdata = u := Regs.ext_has fun x => by rw [hS, hT.has_iff]
    rw [hsame]

/-- In a batch, failed calls leave the program registers unchanged and the commit burns what the
other calls would burn one after the other, if a call that is not accepted finds its bits staged
and, where the others succeed one after the other, no counted bit has been staged before.
Unless a field names a bit twice, this condition is also necessary. -/
theorem batch_equals_individual {steps : List Step} (he : e.batchMode = false)
    (h : runCalls (batchWriteBegin e) calls = some (steps, e')) :
    ((QuietFailures steps ∧
        ((∃ e₁, individually e (succeeded steps) = some e₁) → FreshCounts steps)) →
      FailuresKeep steps ∧ CommitsTheSame e steps e') ∧
    (NamesOnce calls → FailuresKeep steps ∧ CommitsTheSame e steps e' →
      QuietFailures steps ∧
        ((∃ e₁, individually e (succeeded steps) = some e₁) → FreshCounts steps)) := by
  have hbatch : (batchWriteBegin e).batchMode = true := rfl
  have hempty : ∀ x, (batchWriteBegin e).wdata.has x = true ↔ x ∈ (∅ : Finset Pos) := by
    intro x
    simp [batchWriteBegin, Chip.reset, Regs.has]
  rw [failuresKeep_iff hbatch h]
  constructor
  · rintro ⟨hquiet, hfresh⟩
    refine ⟨hquiet, fun e₁ hsingle => ?_⟩
    obtain ⟨⟨w, rfl, hw⟩, hall⟩ := runCalls_together hbatch hempty h hquiet
    obtain ⟨T, u, hone, hT⟩ := individually_oneByOne (Burned.refl _ _) he hsingle
    refine (commit_eq_iff (e := { batchWriteBegin e with wdata := w }) hbatch hw ?_ hT).mpr ?_
    · exact together_subset hone (Finset.Subset.refl _)
    · exact together_eq hone (hall.mp (hfresh ⟨e₁, hsingle⟩))
  · rintro honce ⟨hquiet, hcommit⟩
    refine ⟨hquiet, ?_⟩
    rintro ⟨e₁, hsingle⟩
    obtain ⟨⟨w, rfl, hw⟩, hall⟩ := runCalls_together hbatch hempty h hquiet
    obtain ⟨T, u, hone, hT⟩ := individually_oneByOne (Burned.refl _ _) he hsingle
    have heq := (commit_eq_iff (e := { batchWriteBegin e with wdata := w }) hbatch hw
      (together_subset hone (Finset.Subset.refl _)) hT).mp (hcommit e₁ hsingle)
    refine hall.mpr (allFresh_of_together_eq hone (fun q hq => ?_) heq)
    obtain ⟨c, hc, rfl⟩ := List.mem_map.mp hq
    refine plain_request fun field cnt hfield => honce field cnt ?_
    rw [← hfield]
    exact mem_calls_of_mem_succeeded hbatch h hc

/-- A chip without a burned bit and without a coding scheme. -/
def blank : Chip where
  rdata6 := 0
  virtBlocks := fun _ _ => 0
  wdata := fun _ _ => 0
  batchMode := false

/-- Count in the first eight bits of block 3. -/
def countIn (cnt : ℕ) : Call := .writeFieldCnt (some [⟨3, 0, 8⟩]) cnt

theorem batch_equals_individual_example :
    ∃ steps e', runCalls (batchWriteBegin blank) [countIn 2] = some (steps, e') ∧
      FailuresKeep steps ∧ CommitsTheSame blank steps e' := by
  have hok : (runCalls (batchWriteBegin blank) [countIn 2]).map
      (fun s => s.1.map Step.err) = some [.ok] := by decide +kernel
  obtain ⟨⟨steps, e'⟩, hrun, herr⟩ := Option.map_eq_some_iff.mp hok
  refine ⟨steps, e', hrun, (batch_equals_individual rfl hrun).1 ?_⟩
  have hstaged := runCalls_staged rfl hrun
  obtain ⟨err, e₁, rest, _, hrest, rfl⟩ := runCalls_cons hrun
  rw [runCalls, Option.some.injEq, Prod.mk.injEq] at hrest
  obtain ⟨rfl, rfl⟩ := hrest
  obtain rfl : err = .ok := by simpa using herr
  constructor
  · intro s hs hacc
    rw [List.mem_singleton.mp hs] at hacc
    exact absurd ((hstaged _ List.mem_cons_self).2.2.2.ok_iff.mp rfl) hacc
  · intro _ s hs _ _ _ _ x _
    rw [List.mem_singleton.mp hs]
    simp [batchWriteBegin, Chip.reset, Regs.has]

/-- Two calls that count one bit each set one bit in a batch and two bits otherwise. -/
theorem batch_differs_from_individual :
    ¬ ∀ e calls steps e', e.batchMode = false →
      runCalls (batchWriteBegin e) calls = some (steps, e') →
      FailuresKeep steps ∧ CommitsTheSame e steps e' := by
  intro h
  have hbatch : (runCalls (batchWriteBegin blank) [countIn 1, countIn 1]).map
      (fun s => (s.1.map Step.err, (batchWriteCommit s.2).2.virtBlocks 3 0)) =
        some ([.ok, .ok], 1) := by decide +kernel
  have hsingle : (individually blank [countIn 1, countIn 1]).map (fun e => e.virtBlocks 3 0) =
      some 3 := by decide +kernel
  obtain ⟨⟨steps, e'⟩, hrun, hres⟩ := Option.map_eq_some_iff.mp hbatch
  obtain ⟨e₁, hind, hthree⟩ := Option.map_eq_some_iff.mp hsingle
  have hkeep := h blank _ steps e' rfl hrun
  obtain ⟨err, e₂, rest, _, hrest, rfl⟩ := runCalls_cons hrun
  obtain ⟨err', e₃, rest, _, hnil, rfl⟩ := runCalls_cons hrest
  rw [runCalls, Option.some.injEq, Prod.mk.injEq] at hnil
  obtain ⟨rfl, rfl⟩ := hnil
  simp only [List.map_cons, List.map_nil, Prod.mk.injEq, List.cons.injEq, and_true] at hres
  obtain ⟨⟨rfl, rfl⟩, hone⟩ := hres
  have heq := hkeep.2 e₁ hind
  rw [heq, hthree] at hone
  exact absurd hone (by decide)

end EspIdf.Efuse
