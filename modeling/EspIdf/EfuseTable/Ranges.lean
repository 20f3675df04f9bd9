/-
# The bits of the entries

Only neighbours in the order of the starts are compared.  The starts grow along that order, so
that an entry that begins behind its neighbour begins behind all entries before it.
-/
import EspIdf.EfuseTable.Fields

namespace EspIdf.EfuseTable

open Lib
open PartitionTable (Str Python)

variable {opts : Options} {rows : List Row} {entries : List Entry} {fields : List Field}

/-- The bits that an entry takes. -/
def Entry.bits (p : Entry) : Set ℤ := Set.Ico p.bitStart (p.bitStart + p.bitCount)

/-- Both entries may be in one table. -/
def Apart (p q : Entry) : Prop := p.efuseBlock = q.efuseBlock → Disjoint p.bits q.bits

/-- An entry in the same block that begins behind the end of the other. -/
def Behind (p q : Entry) : Prop :=
  p.efuseBlock = q.efuseBlock → p.bitStart + p.bitCount ≤ q.bitStart

lemma Behind.apart {p q : Entry} (h : Behind p q) : Apart p q := by
  intro hblock
  have hle := h hblock
  refine Set.disjoint_left.2 fun b hb hb' => ?_
  have h1 := hb.2
  have h2 := hb'.1
  omega

lemma Apart.symm {p q : Entry} (h : Apart p q) : Apart q p := fun hblock => (h hblock.symm).symm

/-! ### Overlaps -/

lemma key_le {p q : Entry} : p.key ≤ q.key ↔
    p.efuseBlock < q.efuseBlock ∨ p.efuseBlock = q.efuseBlock ∧ p.bitStart ≤ q.bitStart :=
  Prod.Lex.toLex_le_toLex

/-- What begins behind a neighbour begins behind the entry in front of it. -/
lemma Behind.trans {l p q : Entry} (h : Behind l p) (hlp : l.key ≤ p.key) (hpq : p.key ≤ q.key) :
    Behind l q := by
  intro hblock
  rcases key_le.1 hlp with h1 | ⟨h1, h1'⟩
  · rcases key_le.1 hpq with h2 | ⟨h2, -⟩
    · exact absurd (h1.trans h2) (hblock ▸ lt_irrefl _)
    · exact absurd h1 (h2 ▸ hblock ▸ lt_irrefl _)
  · rcases key_le.1 hpq with h2 | ⟨-, h2'⟩
    · exact absurd h2 (h1 ▸ hblock ▸ lt_irrefl _)
    · exact (h h1).trans h2'

lemma behind_of_checkOverlaps : ∀ {ps : List Entry} {last : Option Entry},
    ps.Pairwise (fun p q => p.key ≤ q.key) → (∀ l, last = some l → ∀ p ∈ ps, l.key ≤ p.key) →
    checkOverlaps last ps = .ok () →
    (∀ l, last = some l → ∀ p ∈ ps, Behind l p) ∧ ps.Pairwise Behind := by
  intro ps
  induction ps with
  | nil =>
    intro last _ _ _
    exact ⟨fun l _ p hp => absurd hp List.not_mem_nil, List.Pairwise.nil⟩
  | cons p ps ih =>
    intro last hsorted hlast h
    rw [checkOverlaps] at h
    rw [List.pairwise_cons] at hsorted
    split at h
    · cases h
    · next hnone =>
      obtain ⟨hp, hps⟩ := ih hsorted.2 (by
        rintro l ⟨⟩
        exact hsorted.1) h
      refine ⟨fun l hl => ?_, List.pairwise_cons.2 ⟨hp p rfl, hps⟩⟩
      have hlp : Behind l p := by
        intro hblock
        rw [hl, Option.filter_some] at hnone
        split_ifs at hnone with hcond
        by_contra hlt
        exact hcond (decide_eq_true ⟨hblock, by omega⟩)
      intro q hq
      rcases List.mem_cons.1 hq with rfl | hq
      · exact hlp
      · exact hlp.trans (hlast l hl p List.mem_cons_self) (hsorted.1 q hq)

lemma pairwise_key (entries : List Entry) :
    (entries.mergeSort fun a b => a.key ≤ b.key).Pairwise (fun p q => p.key ≤ q.key) := by
  have htrans : ∀ a b c : Entry, decide (a.key ≤ b.key) = true → decide (b.key ≤ c.key) = true →
      decide (a.key ≤ c.key) = true := fun a b c hab hbc => by
    simp only [decide_eq_true_eq] at hab hbc ⊢
    exact hab.trans hbc
  have htotal : ∀ a b : Entry, (decide (a.key ≤ b.key) || decide (b.key ≤ a.key)) = true :=
    fun a b => by
      simp only [Bool.or_eq_true, decide_eq_true_eq]
      exact le_total _ _
  have h := List.pairwise_mergeSort htrans htotal entries
  exact h.imp fun hle => of_decide_eq_true hle

lemma forM_ok {α : Type} {check : α → Except FuseError Unit} {l : List α}
    (h : l.forM check = .ok ()) : ∀ a ∈ l, check a = .ok () := by
  induction l with
  | nil => exact fun a ha => nomatch ha
  | cons b l ih =>
    rw [List.forM] at h
    simp only [bind, Except.bind] at h
    split at h
    · cases h
    · next hb =>
      intro a ha
      rcases List.mem_cons.1 ha with rfl | ha
      · exact hb
      · exact ih h a ha

/-- What `verify` has checked of the places. -/
theorem apart_of_verify {typeTable : Option TypeTable} {table : FuseTable}
    (h : FuseTable.verify opts typeTable table = .ok ()) :
    table.entries.Pairwise Apart ∧
      ∀ p ∈ table.entries, p.bitStart + p.bitCount ≤ maxBitsOfBlock opts p.efuseBlock := by
  simp only [FuseTable.verify, bind, Except.bind] at h
  split at h
  · cases h
  · next hforM =>
    split at h
    · cases h
    · constructor
      · have hbehind := (behind_of_checkOverlaps (pairwise_key _) (by simp) h).2
        exact ((List.mergeSort_perm _ _).pairwise_iff fun hab => hab.symm).1
          (hbehind.imp fun hpq => hpq.apart)
      · intro p hp
        have hverify := forM_ok hforM p hp
        rw [Entry.verify] at hverify
        split_ifs at hverify with h1 h2
        exact not_lt.1 h2

/-! ### Starts -/

/-- Where the run of a block has ended in front of place `i`. -/
def runEnd (entries : List Entry) (i : ℕ) (efuseBlock : Str) : ℤ :=
  match i with
  | 0 => 0
  | i + 1 =>
    match entries[i]? with
    | some last => if last.efuseBlock = efuseBlock then last.bitStart + last.bitCount else 0
    | none => 0

lemma fillStarts_spec : ∀ {rows : List Row} {last : Option Str} {lastEnd : ℤ} {i : ℕ} {e : Row}
    {p : Entry}, rows[i]? = some e → (fillStarts last lastEnd rows)[i]? = some p →
    p.efuseBlock = e.efuseBlock ∧ p.bitCount = e.bitCount ∧
      p.bitStart = e.bitStart.getD
        (if i = 0 then if last = some e.efuseBlock then lastEnd else 0
        else runEnd (fillStarts last lastEnd rows) i e.efuseBlock) := by
  intro rows
  induction rows with
  | nil => exact fun h => nomatch h
  | cons e' es ih =>
    intro last lastEnd i e p he hp
    rw [fillStarts] at hp ⊢
    cases i with
    | zero =>
      cases he
      cases hp
      refine ⟨rfl, rfl, ?_⟩
      simp
    | succ i =>
      rw [List.getElem?_cons_succ] at he hp
      obtain ⟨h1, h2, h3⟩ := ih he hp
      refine ⟨h1, h2, ?_⟩
      rw [h3, if_neg (Nat.succ_ne_zero i)]
      cases i with
      | zero => simp [runEnd]
      | succ i => simp [runEnd]

lemma length_fillStarts (rows : List Row) (last : Option Str) (lastEnd : ℤ) :
    (fillStarts last lastEnd rows).length = rows.length := by
  induction rows generalizing last lastEnd with
  | nil => rfl
  | cons e es ih => rw [fillStarts, List.length_cons, ih, List.length_cons]

/-- Starts that are given and counts without a sign leave no start below zero. -/
lemma fillStarts_nonneg (hstart : ∀ e ∈ rows, ∀ s, e.bitStart = some s → 0 ≤ s)
    (hcount : ∀ e ∈ rows, 0 < e.bitCount) {last : Option Str} {lastEnd : ℤ} (hend : 0 ≤ lastEnd) :
    ∀ p ∈ fillStarts last lastEnd rows, 0 ≤ p.bitStart := by
  induction rows generalizing last lastEnd with
  | nil => exact fun p hp => nomatch hp
  | cons e es ih =>
    have hfirst : 0 ≤ e.bitStart.getD (if last ≠ some e.efuseBlock then 0 else lastEnd) := by
      cases he : e.bitStart with
      | none =>
        rw [Option.getD_none]
        split_ifs
        · exact le_rfl
        · exact hend
      | some s => exact hstart e List.mem_cons_self s he
    intro p hp
    rw [fillStarts] at hp
    rcases List.mem_cons.1 hp with rfl | hp
    · exact hfirst
    · have := hcount e List.mem_cons_self
      exact ih (fun e he => hstart e (List.mem_cons_of_mem _ he))
        (fun e he => hcount e (List.mem_cons_of_mem _ he)) (by omega) p hp

/-! ### The entries of the rows -/

lemma Made.map {β : Type} (h : Made opts rows entries fields) {g : Entry → β} {g' : Row → β}
    (hg : ∀ p, g p.anonymous = g p) (hg' : ∀ (e : Row) (start : ℤ),
      g { e with bitStart := start } = g' e) : entries.map g = rows.map g' := by
  have hmap := congrArg (List.map g) h.anonymous
  rw [List.map_map, List.map_map, show g ∘ Entry.anonymous = g from funext hg] at hmap
  rw [hmap, fillStarts_map hg']

lemma runEnd_anonymous (entries : List Entry) (i : ℕ) (efuseBlock : Str) :
    runEnd (entries.map Entry.anonymous) i efuseBlock = runEnd entries i efuseBlock := by
  cases i with
  | zero => rfl
  | succ i =>
    rw [runEnd, runEnd, List.getElem?_map]
    cases entries[i]? <;> rfl

/-- Where the entry of a row begins. -/
lemma Made.bitStart (h : Made opts rows entries fields) {i : ℕ} {e : Row} {p : Entry}
    (he : rows[i]? = some e) (hp : entries[i]? = some p) :
    p.efuseBlock = e.efuseBlock ∧ p.bitCount = e.bitCount ∧
      p.bitStart = e.bitStart.getD (runEnd entries i e.efuseBlock) := by
  have hanon := congrArg (fun l => l[i]?) h.anonymous
  simp only [List.getElem?_map, hp, Option.map_some] at hanon
  obtain ⟨q, hq, hqp⟩ := Option.map_eq_some_iff.1 hanon.symm
  obtain ⟨h1, h2, h3⟩ := fillStarts_spec he hq
  have hend : (if i = 0 then if none = some e.efuseBlock then 0 else 0
      else runEnd (fillStarts none 0 rows) i e.efuseBlock) = runEnd entries i e.efuseBlock := by
    rw [← runEnd_anonymous entries, h.anonymous, runEnd_anonymous]
    cases i <;> simp [runEnd]
  rw [hend] at h3
  simp only [Entry.anonymous, FuseDefinition.mk.injEq] at hqp
  obtain ⟨-, -, hblock, hstart, hcount, -⟩ := hqp
  exact ⟨hblock ▸ h1, hcount ▸ h2, hstart ▸ h3⟩

lemma Made.length (h : Made opts rows entries fields) : entries.length = rows.length := by
  have hlen := congrArg List.length h.anonymous
  rwa [List.length_map, List.length_map, length_fillStarts] at hlen

end EspIdf.EfuseTable
