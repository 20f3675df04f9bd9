/-
# The fields of a table

In an accepted table the entries of one name stand one after the other, and they are numbered from
zero.  The starts, counts and comments of the rows are kept in their order.
-/
import EspIdf.EfuseTable.CFile

namespace EspIdf.EfuseTable

open Lib
open PartitionTable (Str Python)

variable {py : Python} {opts : Options} {σ : Type}

/-! ### Rows -/

/-- What `from_csv` has checked of a row. -/
structure Parsed (opts : Options) (e : FuseDefinition σ) : Prop where
  group : e.group = []
  efuseBlock : e.efuseBlock ∈ blocks opts.idfTarget
  define : e.define = none ∨ e.define = some "MAX_BLK_LEN".toList
  bitCount : e.define.isSome = true → e.bitCount = maxBitsOfBlock opts e.efuseBlock

lemma parsed_of_fromCsv {line : Str} {e : Row} (h : Row.fromCsv py opts line = .ok e) :
    Parsed opts e := by
  simp only [Row.fromCsv, parseBlock, parseBitCount, bind, Except.bind, pure, Except.pure,
    throw, throwThe, MonadExceptOf.throw] at h
  split at h
  · cases h
  · next hblock =>
    split at h
    · cases h
    · split at h
      · cases h
      · next hcount =>
        split at h
        · cases h
        · next hsome =>
          split at h
          · cases h
          · cases h
            refine ⟨rfl, ?_, ?_, ?_⟩
            · split_ifs at hblock with h1 h2
              cases hblock
              exact h2
            · split_ifs at hcount with h1
              · cases hcount
                exact .inr (congrArg some h1)
              · split at hcount
                · cases hcount
                · cases hcount
                  exact .inl rfl
            · intro hdefine
              split_ifs at hcount with h1
              · cases hcount
                exact (Option.some.inj hsome).symm
              · split at hcount
                · cases hcount
                · cases hcount
                  cases hdefine

lemma parsed_of_parseLines : ∀ {lines : List Str} {lineNo : ℕ} {rows : List Row},
    parseLines py opts lineNo lines = .ok rows → ∀ e ∈ rows, Parsed opts e := by
  intro lines
  induction lines with
  | nil =>
    intro lineNo rows h
    cases h
    exact fun e he => nomatch he
  | cons l lines ih =>
    intro lineNo rows h
    rw [parseLines] at h
    simp only [bind, Except.bind] at h
    split at h
    · cases h
    · split at h
      · exact ih h
      · split at h
        · cases h
        · next e he =>
          split at h
          · cases h
          · next rows' hrows =>
            cases h
            intro e' he'
            rcases List.mem_cons.1 he' with rfl | he'
            · exact parsed_of_fromCsv he
            · exact ih hrows e' he'

/-! ### Names -/

/-- The entries of one name. -/
structure Field where
  name : Str
  entries : List Entry

/-- The entries stand under the name of the field. -/
structure Field.Named (f : Field) : Prop where
  name_ne : f.name ≠ []
  ne_nil : f.entries ≠ []
  fieldName : ∀ p ∈ f.entries, p.fieldName = f.name

/-- The entries are numbered in their order. -/
structure Field.Numbered (f : Field) : Prop extends f.Named where
  index : ∀ i p, f.entries[i]? = some p → p.index = Nat.toDigits 10 i

/-- The entries of all fields. -/
def flat (fields : List Field) : List Entry := fields.flatMap Field.entries

/-- What an entry keeps when the names and numbers are filled in. -/
def Entry.anonymous (p : Entry) : Entry := { p with fieldName := [], group := [] }

/-- The names that the rows give. -/
def givenNames (es : List (FuseDefinition σ)) : List Str :=
  (es.map FuseDefinition.fieldName).filter (· ≠ [])

/-- What the entries `es` become behind an entry of the name `name`. -/
structure Filled (name : Str) (es ps : List Entry) (fields : List Field) : Prop where
  fieldName : ∀ p ∈ ps, p.fieldName = name
  names : fields.map Field.name = givenNames es
  named : ∀ f ∈ fields, f.Named
  anonymous : (ps ++ flat fields).map Entry.anonymous = es.map Entry.anonymous
  group : (ps ++ flat fields).map FuseDefinition.group = es.map FuseDefinition.group

/-- An entry with a name begins a field. -/
lemma Filled.begins {e : Entry} {es ps : List Entry} {fields : List Field} (name : Str)
    (he : e.fieldName ≠ []) (h : Filled e.fieldName es ps fields) :
    Filled name (e :: es) [] (⟨e.fieldName, e :: ps⟩ :: fields) where
  fieldName p hp := nomatch hp
  names := by
    rw [List.map_cons, h.names, givenNames, givenNames, List.map_cons,
      List.filter_cons_of_pos (by simp [he])]
  named f hf := by
    rcases List.mem_cons.1 hf with rfl | hf
    · refine ⟨he, List.cons_ne_nil _ _, fun p hp => ?_⟩
      rcases List.mem_cons.1 hp with rfl | hp
      · rfl
      · exact h.fieldName p hp
    · exact h.named f hf
  anonymous := by
    rw [List.map_cons, ← h.anonymous]
    rfl
  group := by
    rw [List.map_cons, ← h.group]
    rfl

lemma fillNames_some : ∀ {es res : List Entry} {name : Str},
    fillNames (some name) es = .ok res →
    ∃ (ps : List Entry) (fields : List Field), res = ps ++ flat fields ∧
      Filled name es ps fields := by
  intro es
  induction es with
  | nil =>
    intro res name h
    cases h
    exact ⟨[], [], rfl, by simp, rfl, by simp, rfl, rfl⟩
  | cons e es ih =>
    intro res name h
    rw [fillNames] at h
    simp only [bind, Except.bind] at h
    split_ifs at h with he
    · split at h
      · cases h
      · next res' hres' =>
        cases h
        obtain ⟨ps, fields, rfl, hfilled⟩ := ih hres'
        refine ⟨{ e with fieldName := name } :: ps, fields, rfl, ?_, ?_, hfilled.named, ?_, ?_⟩
        · intro p hp
          rcases List.mem_cons.1 hp with rfl | hp
          · rfl
          · exact hfilled.fieldName p hp
        · rw [hfilled.names, givenNames, givenNames, List.map_cons,
            List.filter_cons_of_neg (by simp [he])]
        · rw [List.map_cons, ← hfilled.anonymous]
          rfl
        · rw [List.map_cons, ← hfilled.group]
          rfl
    · split at h
      · cases h
      · next res' hres' =>
        cases h
        obtain ⟨ps, fields, rfl, hfilled⟩ := ih hres'
        exact ⟨[], _, rfl, hfilled.begins name he⟩

lemma fillNames_none {es res : List Entry} (h : fillNames none es = .ok res) :
    ∃ fields : List Field, res = flat fields ∧ Filled [] es [] fields := by
  cases es with
  | nil =>
    cases h
    exact ⟨[], rfl, by simp, rfl, by simp, rfl, rfl⟩
  | cons e es =>
    rw [fillNames] at h
    simp only [bind, Except.bind] at h
    split_ifs at h with he
    split at h
    · cases h
    · next res' hres' =>
      cases h
      obtain ⟨ps, fields, rfl, hfilled⟩ := fillNames_some hres'
      exact ⟨_, rfl, hfilled.begins [] he⟩

/-- The names that are given differ. -/
lemma nodup_of_verifyDuplicateName {es : List Entry} (hgroup : ∀ p ∈ es, p.group = [])
    (h : verifyDuplicateName es = .ok ()) : (givenNames es).Nodup := by
  rw [verifyDuplicateName] at h
  split_ifs at h with hany
  rw [List.nodup_iff_count]
  intro n
  by_contra hcount
  have hmem : n ∈ givenNames es := List.count_pos_iff.1 (by omega)
  obtain ⟨hn, hne⟩ := List.mem_filter.1 hmem
  obtain ⟨p, hp, rfl⟩ := List.mem_map.1 hn
  rw [givenNames, List.count_filter (p := fun n => n ≠ []) hne] at hcount
  refine hany (List.any_eq_true.2 ⟨p, hp, ?_⟩)
  rw [hgroup p hp, List.append_nil, decide_eq_true_eq]
  refine ⟨by simpa using hne, ?_⟩
  rw [duplicates, List.mem_dedup, List.mem_filter]
  exact ⟨hn, by simpa using hcount⟩

/-! ### Numbers -/

variable {fields : List Field}

/-- The field with its entries numbered. -/
def Field.number (f : Field) : Field :=
  { f with entries := f.entries.mapIdx fun i p => { p with group := Nat.toDigits 10 i } }

@[simp] lemma flat_nil : flat [] = [] := rfl

@[simp] lemma flat_cons (f : Field) (fields : List Field) :
    flat (f :: fields) = f.entries ++ flat fields := rfl

/-- In the table, the entries of a name are those of its field. -/
lemma filter_flat (hnamed : ∀ f ∈ fields, f.Named) (hnodup : (fields.map Field.name).Nodup)
    {f : Field} (hf : f ∈ fields) :
    (flat fields).filter (fun p => p.fieldName = f.name) = f.entries := by
  have hother : ∀ g ∈ fields, g.name ≠ f.name →
      g.entries.filter (fun p => p.fieldName = f.name) = [] := fun g hg hne =>
    List.filter_eq_nil_iff.2 fun p hp => by simp [(hnamed g hg).fieldName p hp, hne]
  have hself : f.entries.filter (fun p => p.fieldName = f.name) = f.entries :=
    List.filter_eq_self.2 fun p hp => by simp [(hnamed f hf).fieldName p hp]
  induction fields with
  | nil => cases hf
  | cons g fields ih =>
    rw [List.map_cons, List.nodup_cons] at hnodup
    rw [flat_cons, List.filter_append]
    rcases List.mem_cons.1 hf with rfl | hf
    · have hrest : (flat fields).filter (fun p => p.fieldName = f.name) = [] := by
        refine List.filter_eq_nil_iff.2 fun p hp => ?_
        obtain ⟨g, hg, hpg⟩ := List.mem_flatMap.1 hp
        have hne : g.name ≠ f.name := fun heq => hnodup.1 (heq ▸ List.mem_map_of_mem hg)
        simp [(hnamed g (List.mem_cons_of_mem _ hg)).fieldName p hpg, hne]
      rw [hself, hrest, List.append_nil]
    · have hne : g.name ≠ f.name := fun heq => hnodup.1 (heq ▸ List.mem_map_of_mem hf)
      rw [hother g List.mem_cons_self hne, List.nil_append]
      exact ih (fun f hf => hnamed f (List.mem_cons_of_mem _ hf)) hnodup.2 hf
        (fun g hg => hother g (List.mem_cons_of_mem _ hg))

lemma fillGroup_ne {dname : Str} {ps : List Entry} (h : ∀ p ∈ ps, p.fieldName ≠ dname) (i : ℕ)
    (rest : List Entry) : fillGroup dname i (ps ++ rest) = ps ++ fillGroup dname i rest := by
  induction ps with
  | nil => rfl
  | cons p ps ih =>
    rw [List.cons_append, fillGroup, if_pos (h p List.mem_cons_self),
      ih fun p hp => h p (List.mem_cons_of_mem _ hp)]
    rfl

lemma fillGroup_eq {dname : Str} {ps : List Entry} (h : ∀ p ∈ ps, p.fieldName = dname) (i : ℕ)
    (rest : List Entry) : fillGroup dname i (ps ++ rest) =
      (ps.mapIdx fun k p => { p with group := Nat.toDigits 10 (i + k) }) ++
        fillGroup dname (i + ps.length) rest := by
  induction ps generalizing i with
  | nil => rfl
  | cons p ps ih =>
    rw [List.cons_append, fillGroup, if_neg (not_not.2 (h p List.mem_cons_self)),
      ih fun p hp => h p (List.mem_cons_of_mem _ hp)]
    simp [List.mapIdx_cons, Nat.add_assoc, Nat.add_comm 1]

/-- One round numbers the entries of one field. -/
lemma fillGroup_flat (hnamed : ∀ f ∈ fields, ∀ p ∈ f.entries, p.fieldName = f.name)
    (hnodup : (fields.map Field.name).Nodup) (dname : Str) : fillGroup dname 0 (flat fields) =
      flat (fields.map fun f => if f.name = dname then f.number else f) := by
  have hnone : ∀ i, ∀ fields : List Field, (∀ f ∈ fields, ∀ p ∈ f.entries, p.fieldName = f.name) →
      dname ∉ fields.map Field.name → fillGroup dname i (flat fields) = flat fields := by
    intro i fields hnamed hmem
    have hne : ∀ p ∈ flat fields, p.fieldName ≠ dname := by
      intro p hp heq
      obtain ⟨f, hf, hpf⟩ := List.mem_flatMap.1 hp
      exact hmem (heq ▸ hnamed f hf p hpf ▸ List.mem_map_of_mem hf)
    have h := fillGroup_ne hne i []
    rwa [List.append_nil, fillGroup, List.append_nil] at h
  induction fields with
  | nil => rfl
  | cons f fields ih =>
    rw [List.map_cons, List.nodup_cons] at hnodup
    have hrest : ∀ f ∈ fields, ∀ p ∈ f.entries, p.fieldName = f.name :=
      fun f hf => hnamed f (List.mem_cons_of_mem _ hf)
    rw [flat_cons, List.map_cons, flat_cons]
    by_cases hf : f.name = dname
    · rw [fillGroup_eq (fun p hp => (hnamed f List.mem_cons_self p hp).trans hf), if_pos hf,
        hnone _ fields hrest (hf ▸ hnodup.1)]
      have hsame : (fields.map fun f => if f.name = dname then f.number else f) = fields := by
        refine (List.map_congr_left fun g hg => if_neg fun heq : g.name = dname => ?_).trans
          (List.map_id _)
        exact hnodup.1 (hf.trans heq.symm ▸ List.mem_map_of_mem hg)
      rw [hsame]
      simp [Field.number]
    · rw [fillGroup_ne fun p hp heq => hf ((hnamed f List.mem_cons_self p hp).symm.trans heq),
        if_neg hf, ih hrest hnodup.2]

lemma Field.number_number (f : Field) : f.number.number = f.number := by
  simp [Field.number, Function.comp_def]

lemma Field.Named.number {f : Field} (h : f.Named) : f.number.Numbered where
  name_ne := h.name_ne
  ne_nil := by simpa [Field.number] using h.ne_nil
  fieldName p hp := by
    obtain ⟨i, hi, rfl⟩ := List.mem_mapIdx.1 hp
    exact h.fieldName f.entries[i] (List.getElem_mem hi)
  index i p hp := by
    simp only [Field.number, List.getElem?_mapIdx, Option.map_eq_some_iff] at hp
    obtain ⟨q, -, rfl⟩ := hp
    rw [Entry.index, if_neg Nat.toDigits_ne_nil]

lemma foldl_fillGroup (ds : List Str) {fields : List Field} (hnamed : ∀ f ∈ fields, f.Named)
    (hnodup : (fields.map Field.name).Nodup) :
    ds.foldl (fun res dname => fillGroup dname 0 res) (flat fields) =
      flat (fields.map fun f => if f.name ∈ ds then f.number else f) := by
  induction ds generalizing fields with
  | nil => simp
  | cons d ds ih =>
    rw [List.foldl_cons, fillGroup_flat (fun f hf => (hnamed f hf).fieldName) hnodup, ih]
    · rw [List.map_map]
      congr 1
      refine List.map_congr_left fun f hf => ?_
      rw [Function.comp_apply]
      by_cases hd : f.name = d
      · rw [if_pos hd, if_pos (show f.name ∈ d :: ds by simp [hd])]
        split_ifs
        · exact f.number_number
        · rfl
      · rw [if_neg hd]
        simp only [List.mem_cons, hd, false_or]
    · intro f hf
      obtain ⟨g, hg, rfl⟩ := List.mem_map.1 hf
      split_ifs
      · exact (hnamed g hg).number.toNamed
      · exact hnamed g hg
    · rw [List.map_map]
      convert hnodup using 1
      refine List.map_congr_left fun f hf => ?_
      rw [Function.comp_apply]
      split_ifs <;> rfl

lemma count_flat (hnamed : ∀ f ∈ fields, f.Named) (hnodup : (fields.map Field.name).Nodup)
    {f : Field} (hf : f ∈ fields) :
    ((flat fields).map FuseDefinition.fieldName).count f.name = f.entries.length := by
  rw [List.count, List.countP_map, List.countP_eq_length_filter, ← filter_flat hnamed hnodup hf]
  refine congrArg _ (List.filter_congr fun p _ => ?_)
  rw [Function.comp_apply, beq_eq_decide]

/-- The entries of a name are numbered where there are several; a single one has the index 0. -/
lemma fillGroups_flat (hnamed : ∀ f ∈ fields, f.Named) (hnodup : (fields.map Field.name).Nodup)
    (hgroup : ∀ p ∈ flat fields, p.group = []) :
    ∃ fields' : List Field, fillGroups (flat fields) = flat fields' ∧
      fields'.map Field.name = fields.map Field.name ∧ ∀ f ∈ fields', f.Numbered := by
  refine ⟨_, foldl_fillGroup _ hnamed hnodup, ?_, fun f' hf' => ?_⟩
  · rw [List.map_map]
    refine List.map_congr_left fun f hf => ?_
    rw [Function.comp_apply]
    split_ifs <;> rfl
  · obtain ⟨f, hf, rfl⟩ := List.mem_map.1 hf'
    split_ifs with hdup
    · exact (hnamed f hf).number
    · refine ⟨hnamed f hf, fun i p hp => ?_⟩
      have hlen : f.entries.length ≤ 1 := by
        by_contra hlen
        refine hdup (List.mem_dedup.2 (List.mem_filter.2 ⟨?_, ?_⟩))
        · rw [← List.count_pos_iff, count_flat hnamed hnodup hf]
          omega
        · rw [count_flat hnamed hnodup hf]
          simpa using hlen
      have hi : i = 0 := by
        have := (List.getElem?_eq_some_iff.1 hp).1
        omega
      have hp' : p ∈ flat fields :=
        List.mem_flatMap.2 ⟨f, hf, List.mem_of_getElem? hp⟩
      rw [Entry.index, hgroup p hp', if_pos rfl, hi]

lemma fillGroup_anonymous (dname : Str) (i : ℕ) (res : List Entry) :
    (fillGroup dname i res).map Entry.anonymous = res.map Entry.anonymous := by
  induction res generalizing i with
  | nil => rfl
  | cons p ps ih =>
    rw [fillGroup]
    split_ifs
    · rw [List.map_cons, List.map_cons, ih]
    · rw [List.map_cons, List.map_cons, ih]
      rfl

lemma fillGroups_anonymous (res : List Entry) :
    (fillGroups res).map Entry.anonymous = res.map Entry.anonymous := by
  have hfold : ∀ (ds : List Str) (res : List Entry),
      (ds.foldl (fun res dname => fillGroup dname 0 res) res).map Entry.anonymous =
        res.map Entry.anonymous := by
    intro ds
    induction ds with
    | nil => exact fun res => rfl
    | cons d ds ih =>
      intro res
      rw [List.foldl_cons, ih, fillGroup_anonymous]
  exact hfold _ _

/-! ### The table -/

/-- The rows that a table is made from, and its fields. -/
structure Made (opts : Options) (rows : List Row) (entries : List Entry) (fields : List Field) :
    Prop where
  parsed : ∀ e ∈ rows, Parsed opts e
  entries_eq : entries = flat fields
  names : fields.map Field.name = givenNames rows
  nodup : (fields.map Field.name).Nodup
  numbered : ∀ f ∈ fields, f.Numbered
  anonymous : entries.map Entry.anonymous = (fillStarts none 0 rows).map Entry.anonymous

lemma fillStarts_map {β : Type} {g : Entry → β} {g' : Row → β}
    (h : ∀ (e : Row) (start : ℤ), g { e with bitStart := start } = g' e) :
    ∀ (rows : List Row) (last : Option Str) (lastEnd : ℤ),
      (fillStarts last lastEnd rows).map g = rows.map g' := by
  intro rows
  induction rows with
  | nil => exact fun last lastEnd => rfl
  | cons e es ih =>
    intro last lastEnd
    rw [fillStarts, List.map_cons, List.map_cons, ih, h]

/-- An accepted text is made into fields. -/
theorem made_of_fromCsv {csvContents : Str} {table : FuseTable}
    (h : FuseTable.fromCsv py opts csvContents = .ok table) :
    ∃ rows fields, parseRows py opts csvContents = .ok rows ∧
      Made opts rows table.entries fields := by
  simp only [FuseTable.fromCsv, bind, Except.bind, pure, Except.pure, throw, throwThe,
    MonadExceptOf.throw] at h
  split at h
  · cases h
  · next rows hrows =>
    have hparsed := parsed_of_parseLines hrows
    split at h
    · cases h
    · next hverify =>
      split at h
      · cases h
      · next res hres =>
        split at h
        · cases h
        · cases h
          obtain ⟨fields, rfl, hfilled⟩ := fillNames_none hres
          have hgroups : (fillStarts none 0 rows).map FuseDefinition.group =
              rows.map FuseDefinition.group := fillStarts_map (fun e start => rfl) rows none 0
          have hnames : givenNames (fillStarts none 0 rows) = givenNames rows := by
            rw [givenNames, fillStarts_map (fun e start => rfl) rows none 0]
            rfl
          have hgroup : ∀ p ∈ fillStarts none 0 rows, p.group = [] := by
            intro p hp
            have hmem : p.group ∈ rows.map FuseDefinition.group :=
              hgroups ▸ List.mem_map_of_mem hp
            obtain ⟨e, he, heq⟩ := List.mem_map.1 hmem
            rw [← heq, (hparsed e he).group]
          have hnodup := nodup_of_verifyDuplicateName hgroup hverify
          rw [← hfilled.names] at hnodup
          obtain ⟨fields', hfields', hnames', hnumbered⟩ :=
            fillGroups_flat hfilled.named hnodup (fun p hp => by
              have hmem : p.group ∈ rows.map FuseDefinition.group :=
                hgroups ▸ hfilled.group ▸ List.mem_map_of_mem hp
              obtain ⟨e, he, heq⟩ := List.mem_map.1 hmem
              rw [← heq, (hparsed e he).group])
          refine ⟨rows, fields', hrows, hparsed, hfields', ?_, hnames' ▸ hnodup, hnumbered, ?_⟩
          · rw [hnames', hfilled.names, hnames]
          · rw [fillGroups_anonymous]
            exact hfilled.anonymous

example : duplicates [['a'], ['b'], ['a']] = [['a']] := by decide +kernel

end EspIdf.EfuseTable
