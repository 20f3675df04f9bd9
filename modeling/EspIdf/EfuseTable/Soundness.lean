/-
# Accepted tables

The checks of the generator leave out the signs of the numbers, the names as identifiers of C, and
a backslash at the end of a comment.  A table whose rows keep to these is sound.
-/
import EspIdf.EfuseTable.Meanings
import EspIdf.EfuseTable.Ranges
import EspIdf.PartitionTable.CsvRoundTrip

namespace EspIdf.EfuseTable

open Lib
open PartitionTable (Str Python)

variable {py : Python} {opts : Options} {reserved : Str → Bool} {fileName : Str} {debug : Bool}
  {rows : List Row} {table : FuseTable} {fields : List Field}

/-! ### Soundness -/

/-- The count of an entry in C.  The file defines the macro `MAX_BLK_LEN` for the ESP32, as the
length that the generator is given. -/
def Entry.countInC (opts : Options) (p : Entry) : Option ℤ :=
  match p.define with
  | none => some p.bitCount
  | some _ => if opts.idfTarget = .esp32 then some opts.maxBlkLen else none

/-- A table that is made from `rows`, and its C file. -/
structure Sound (opts : Options) (reserved : Str → Bool) (fileName : Str) (debug : Bool)
    (rows : List Row) (table : FuseTable) : Prop where
  disjoint : table.entries.Pairwise Apart
  inside : ∀ p ∈ table.entries,
    p.bits.Nonempty ∧ p.bits ⊆ Set.Ico 0 (maxBitsOfBlock opts p.efuseBlock)
  starts : ∀ (i : ℕ) (e : Row) (p : Entry), rows[i]? = some e → e.bitStart = none →
    table.entries[i]? = some p → p.bitStart = runEnd table.entries i p.efuseBlock
  /-- The name of an entry is defined once, as the list of the entries of that name. -/
  fields : ∀ p ∈ table.entries,
    meanings (definitions reserved (table.toCFile opts fileName debug)) (espEfuse p.fieldName) =
      [some ((table.entries.filter fun q => q.fieldName = p.fieldName).map
        (Entry.initialiser debug))]
  counts : ∀ p ∈ table.entries, p.countInC opts = some p.bitCount

/-- What the rows keep to, as the head of the CSV file asks for the numbers. -/
structure WellFormed (opts : Options) (reserved : Str → Bool) (rows : List Row) : Prop where
  start : ∀ e ∈ rows, ∀ s, e.bitStart = some s → 0 ≤ s
  count : ∀ e ∈ rows, 0 < e.bitCount
  name : ∀ n ∈ givenNames rows, IsFree reserved n ∧ IsFree reserved (espEfuse n)
  apart : ∀ n ∈ givenNames rows, espEfuse n ∉ givenNames rows
  comment : ∀ e ∈ rows, ¬ IsContinued e.comment
  /-- The macro is defined, and the first block has the length of the others. -/
  define : ∀ e ∈ rows, e.define.isSome = true → opts.idfTarget = .esp32 ∧
    (e.efuseBlock = "EFUSE_BLK0".toList → opts.maxBlkLen = 256)

/-- The texts are within their lines; a variable of the environment may break one. -/
structure OneLine (fileName : Str) (rows : List Row) : Prop where
  file : '\n' ∉ fileName
  comment : ∀ e ∈ rows, '\n' ∉ e.comment

/-! ### Numbers -/

lemma Made.inside_iff (h : Made opts rows table.entries fields)
    (hmax : ∀ p ∈ table.entries, p.bitStart + p.bitCount ≤ maxBitsOfBlock opts p.efuseBlock) :
    (∀ p ∈ table.entries,
      p.bits.Nonempty ∧ p.bits ⊆ Set.Ico 0 (maxBitsOfBlock opts p.efuseBlock)) ↔
    (∀ e ∈ rows, ∀ s, e.bitStart = some s → 0 ≤ s) ∧ ∀ e ∈ rows, 0 < e.bitCount := by
  have hentry : ∀ {i : ℕ} {e : Row}, rows[i]? = some e → ∃ p, table.entries[i]? = some p := by
    intro i e he
    have hi := (List.getElem?_eq_some_iff.1 he).1
    rw [← h.length] at hi
    exact ⟨_, List.getElem?_eq_getElem hi⟩
  constructor
  · intro hinside
    constructor
    · intro e he s hs
      obtain ⟨i, hi⟩ := List.mem_iff_getElem?.1 he
      obtain ⟨p, hp⟩ := hentry hi
      obtain ⟨hne, hsub⟩ := hinside p (List.mem_of_getElem? hp)
      have hstart := (h.bitStart hi hp).2.2
      rw [hs, Option.getD_some] at hstart
      obtain ⟨b, hb⟩ := hne
      have hmem : p.bitStart ∈ p.bits := ⟨le_rfl, hb.1.trans_lt hb.2⟩
      exact hstart ▸ (hsub hmem).1
    · intro e he
      obtain ⟨i, hi⟩ := List.mem_iff_getElem?.1 he
      obtain ⟨p, hp⟩ := hentry hi
      obtain ⟨⟨b, hb⟩, -⟩ := hinside p (List.mem_of_getElem? hp)
      have hcount := (h.bitStart hi hp).2.1
      have hlt := hb.1.trans_lt hb.2
      omega
  · rintro ⟨hstart, hcount⟩ p hp
    have hnonneg : ∀ q ∈ (fillStarts none 0 rows).map Entry.anonymous, 0 ≤ q.bitStart := by
      intro q hq
      obtain ⟨r, hr, rfl⟩ := List.mem_map.1 hq
      exact fillStarts_nonneg hstart hcount le_rfl r hr
    rw [← h.anonymous] at hnonneg
    have hp0 : 0 ≤ p.bitStart := hnonneg p.anonymous (List.mem_map_of_mem hp)
    obtain ⟨i, hi⟩ := List.mem_iff_getElem?.1 hp
    obtain ⟨e, he⟩ : ∃ e, rows[i]? = some e := by
      have hlt := (List.getElem?_eq_some_iff.1 hi).1
      rw [h.length] at hlt
      exact ⟨_, List.getElem?_eq_getElem hlt⟩
    have hcount' := hcount e (List.mem_of_getElem? he)
    rw [← (h.bitStart he hi).2.1] at hcount'
    refine ⟨⟨p.bitStart, le_rfl, by omega⟩, fun b hb => ⟨hp0.trans hb.1, ?_⟩⟩
    exact hb.2.trans_le (hmax p hp)

lemma Made.starts (h : Made opts rows table.entries fields) (i : ℕ) (e : Row) (p : Entry)
    (he : rows[i]? = some e) (hnone : e.bitStart = none) (hp : table.entries[i]? = some p) :
    p.bitStart = runEnd table.entries i p.efuseBlock := by
  obtain ⟨hblock, -, hstart⟩ := h.bitStart he hp
  rw [hstart, hnone, Option.getD_none, hblock]

/-- The counts in C are those of the table when the macro stands for them. -/
lemma Made.counts_iff (h : Made opts rows table.entries fields) :
    (∀ p ∈ table.entries, p.countInC opts = some p.bitCount) ↔
      ∀ e ∈ rows, e.define.isSome = true → opts.idfTarget = .esp32 ∧
        (e.efuseBlock = "EFUSE_BLK0".toList → opts.maxBlkLen = 256) := by
  have hmap : table.entries.map (fun p => (p.countInC opts, p.bitCount)) =
      rows.map fun e => (Entry.countInC opts { e with bitStart := 0 }, e.bitCount) :=
    h.map (fun p => rfl) (fun e start => rfl)
  have hrows : (∀ p ∈ table.entries, p.countInC opts = some p.bitCount) ↔
      ∀ e ∈ rows, Entry.countInC opts { e with bitStart := 0 } = some e.bitCount := by
    have hall := congrArg (fun l => ∀ c ∈ l, c.1 = some c.2) hmap
    simp only [List.forall_mem_map] at hall
    exact iff_of_eq hall
  rw [hrows]
  refine forall₂_congr fun e he => ?_
  have hparsed := h.parsed e he
  rcases hparsed.define with hdefine | hdefine
  · simp [Entry.countInC, hdefine]
  · have hcount := hparsed.bitCount (by rw [hdefine]; rfl)
    have hsome : e.define.isSome = true := by rw [hdefine]; rfl
    simp only [Entry.countInC, hdefine, hcount, maxBitsOfBlock, Option.isSome_some, true_implies]
    by_cases htarget : opts.idfTarget = .esp32
    · rw [if_pos htarget, Option.some.injEq]
      by_cases hblock : e.efuseBlock = "EFUSE_BLK0".toList
      · rw [if_pos hblock]
        exact ⟨fun h => ⟨htarget, fun _ => h⟩, fun h => h.2 hblock⟩
      · rw [if_neg hblock]
        exact ⟨fun _ => ⟨htarget, fun h => absurd h hblock⟩, fun _ => rfl⟩
    · rw [if_neg htarget]
      constructor
      · intro h
        cases h
      · intro h
        exact absurd h.1 htarget

/-! ### Names -/

lemma isFree_of_opening {l : Str} {d : Definition} (h : opening reserved l = some d) :
    IsFree reserved d.name := by
  have hopened : ∀ {start name : Str}, openedBy reserved start l = some name →
      IsFree reserved name := fun h => of_decide_eq_true (Option.filter_eq_some_iff.1 h).2
  rw [opening] at h
  split at h
  · next hname =>
    cases h
    exact hopened hname
  · obtain ⟨name, hname, rfl⟩ := Option.map_eq_some_iff.1 h
    exact hopened hname

/-- The names that are read are those that can be defined. -/
lemma isFree_of_readLines : ∀ {ls : List Str} {d : Option Definition},
    (∀ e, d = some e → IsFree reserved e.name) →
    ∀ e ∈ (readLines reserved d ls).2, IsFree reserved e.name := by
  intro ls
  induction ls with
  | nil => exact fun _ e he => nomatch he
  | cons l ls ih =>
    intro d hd e he
    rw [readLines] at he
    cases d with
    | none => exact ih (fun e' h => isFree_of_opening h) e he
    | some d =>
      have hfree := hd d rfl
      rw [readLine] at he
      split_ifs at he
      · rcases List.mem_cons.1 he with rfl | he
        · exact hfree
        · exact ih (fun e' h => by cases h) e he
      · exact ih (fun e' h => by cases h; exact hfree) e he
      · exact ih (fun e' h => by cases h; exact hfree) e he

lemma isWord_of_isFree {name : Str} (h : IsFree reserved name) : ∀ c ∈ name, isWord c = true := by
  have hall := h.1
  rw [isIdentifier, Bool.and_eq_true, List.all_eq_true] at hall
  exact hall.1

/-- Names of letters make the text of the fields plain. -/
lemma Made.plain (h : Made opts rows table.entries fields) (hline : OneLine fileName rows)
    (hword : ∀ n ∈ givenNames rows, ∀ c ∈ n, isWord c = true) : ∀ f ∈ fields, f.Plain opts := by
  intro f hf
  have hname : ∀ c ∈ f.name, isWord c = true :=
    hword f.name (h.names ▸ List.mem_map_of_mem hf)
  refine ⟨hname, fun p hp => ?_⟩
  have hnumbered := h.numbered f hf
  have hmem : p ∈ table.entries := h.entries_eq ▸ List.mem_flatMap.2 ⟨f, hf, hp⟩
  obtain ⟨i, hi⟩ := List.mem_iff_getElem?.1 hp
  have hmap : table.entries.map (fun p => (p.efuseBlock, p.define, p.comment)) =
      rows.map fun e => (e.efuseBlock, e.define, e.comment) :=
    h.map (fun p => rfl) (fun e start => rfl)
  obtain ⟨e, he, heq⟩ := List.mem_map.1 (hmap ▸ List.mem_map_of_mem hmem)
  simp only [Prod.mk.injEq] at heq
  obtain ⟨hblock, hdefine, hcomment⟩ := heq
  exact ⟨hblock ▸ (h.parsed e he).efuseBlock, hdefine ▸ (h.parsed e he).define,
    (hnumbered.fieldName p hp).symm ▸ hname, ⟨i, hnumbered.index i p hi⟩,
    hcomment ▸ hline.comment e he⟩

lemma Made.define (h : Made opts rows table.entries fields) :
    ∀ p ∈ table.entries, p.define = none ∨ p.define = some "MAX_BLK_LEN".toList := by
  intro p hp
  have hmap : table.entries.map FuseDefinition.define = rows.map FuseDefinition.define :=
    h.map (fun p => rfl) (fun e start => rfl)
  obtain ⟨e, he, heq⟩ := List.mem_map.1 (hmap ▸ List.mem_map_of_mem hp)
  exact heq ▸ (h.parsed e he).define

/-- The comments of the rows are those of the fields. -/
lemma Made.comment_iff (h : Made opts rows table.entries fields) :
    (∀ f ∈ fields, ∀ p ∈ f.entries, ¬ IsContinued p.comment) ↔
      ∀ e ∈ rows, ¬ IsContinued e.comment := by
  have hmap : table.entries.map FuseDefinition.comment = rows.map FuseDefinition.comment :=
    h.map (fun p => rfl) (fun e start => rfl)
  constructor
  · intro hfields e he
    obtain ⟨p, hp, heq⟩ := List.mem_map.1 (hmap ▸ List.mem_map_of_mem he)
    rw [h.entries_eq] at hp
    obtain ⟨f, hf, hp⟩ := List.mem_flatMap.1 hp
    exact heq ▸ hfields f hf p hp
  · intro hrows f hf p hp
    have hmem : p ∈ table.entries := h.entries_eq ▸ List.mem_flatMap.2 ⟨f, hf, hp⟩
    obtain ⟨e, he, heq⟩ := List.mem_map.1 (hmap ▸ List.mem_map_of_mem hmem)
    exact heq ▸ hrows e he

/-- The lists of pointers stand for the entries exactly when this is asked of the fields. -/
lemma Made.fields_iff (h : Made opts rows table.entries fields) (hline : OneLine fileName rows)
    (hmd5 : IsTame table.md5DigestTable) :
    (∀ p ∈ table.entries,
      meanings (definitions reserved (table.toCFile opts fileName debug)) (espEfuse p.fieldName) =
        [some ((table.entries.filter fun q => q.fieldName = p.fieldName).map
          (Entry.initialiser debug))]) ↔ Defined reserved fields := by
  have hnamed : ∀ f ∈ fields, f.Named := fun f hf => (h.numbered f hf).toNamed
  by_cases hne : fields = []
  · subst hne
    have hempty : table.entries = [] := h.entries_eq
    rw [hempty]
    exact ⟨fun _ => ⟨by simp, by simp, by simp⟩, fun _ p hp => nomatch hp⟩
  -- an entry stands for its field
  have hentries : (∀ p ∈ table.entries,
      meanings (definitions reserved (table.toCFile opts fileName debug)) (espEfuse p.fieldName) =
        [some ((table.entries.filter fun q => q.fieldName = p.fieldName).map
          (Entry.initialiser debug))]) ↔
      ∀ f ∈ fields, meanings (definitions reserved (table.toCFile opts fileName debug))
        (espEfuse f.name) = [some (f.entries.map (Entry.initialiser debug))] := by
    have hfilter : ∀ f ∈ fields,
        table.entries.filter (fun q => q.fieldName = f.name) = f.entries := fun f hf => by
      rw [h.entries_eq]
      exact filter_flat hnamed h.nodup hf
    constructor
    · intro hp f hf
      obtain ⟨p, ps, hps⟩ := List.exists_cons_of_ne_nil (hnamed f hf).ne_nil
      have hpf : p ∈ f.entries := hps ▸ List.mem_cons_self
      have hmem : p ∈ table.entries := h.entries_eq ▸ List.mem_flatMap.2 ⟨f, hf, hpf⟩
      have := hp p hmem
      rwa [(hnamed f hf).fieldName p hpf, hfilter f hf] at this
    · intro hf p hp
      rw [h.entries_eq] at hp
      obtain ⟨f, hff, hpf⟩ := List.mem_flatMap.1 hp
      rw [(hnamed f hff).fieldName p hpf, hfilter f hff]
      exact hf f hff
  rw [hentries]
  have hidle : ∀ l ∈ headerRows opts fileName table, Idle reserved l :=
    idle_headerRows hline.file hmd5 h.define
  have hiff : (∀ f ∈ fields, f.Plain opts) →
      ((∀ f ∈ fields, meanings (definitions reserved (table.toCFile opts fileName debug))
        (espEfuse f.name) = [some (f.entries.map (Entry.initialiser debug))]) ↔
      Defined reserved fields) := fun hplain =>
    meanings_iff (definitions_toCFile hne h.entries_eq hnamed h.nodup hplain hidle) h.numbered
      h.nodup hplain
  have hword : (∀ f ∈ fields, ∀ c ∈ f.name, isWord c = true) → ∀ f ∈ fields, f.Plain opts := by
    refine fun hw => h.plain hline fun n hn => ?_
    rw [← h.names] at hn
    obtain ⟨f, hf, rfl⟩ := List.mem_map.1 hn
    exact hw f hf
  constructor
  · intro hmeanings
    refine (hiff (hword fun f hf c hc => ?_)).1 hmeanings
    have hlist := hmeanings f hf
    rw [meanings] at hlist
    obtain ⟨d, hd⟩ : ∃ d, d ∈ (definitions reserved (table.toCFile opts fileName debug)).filter
        fun d => d.name = espEfuse f.name := by
      by_contra hnone
      rw [List.eq_nil_iff_forall_not_mem.2 fun d hd => hnone ⟨d, hd⟩] at hlist
      cases hlist
    obtain ⟨hd, hdname⟩ := List.mem_filter.1 hd
    have hfree : IsFree reserved (espEfuse f.name) :=
      of_decide_eq_true hdname ▸ isFree_of_readLines (fun e he => by cases he) d hd
    exact isWord_of_isFree hfree c (List.mem_append_right _ hc)
  · intro hdefined
    exact (hiff (hword fun f hf => isWord_of_isFree (hdefined.free f hf).1)).2 hdefined

/-- What is asked of the names of the rows is what is asked of the fields. -/
lemma Made.defined_iff (h : Made opts rows table.entries fields) : Defined reserved fields ↔
    (∀ n ∈ givenNames rows, IsFree reserved n ∧ IsFree reserved (espEfuse n)) ∧
      (∀ n ∈ givenNames rows, espEfuse n ∉ givenNames rows) ∧
      ∀ e ∈ rows, ¬ IsContinued e.comment := by
  rw [← h.comment_iff, ← h.names]
  constructor
  · intro hd
    refine ⟨fun n hn => ?_, fun n hn => ?_, hd.comment⟩
    · obtain ⟨f, hf, rfl⟩ := List.mem_map.1 hn
      exact hd.free f hf
    · obtain ⟨f, hf, rfl⟩ := List.mem_map.1 hn
      exact hd.apart f hf
  · rintro ⟨hfree, hapart, hcomment⟩
    exact ⟨fun f hf => hfree _ (List.mem_map_of_mem hf),
      fun f hf => hapart _ (List.mem_map_of_mem hf), hcomment⟩

/-! ### Accepted tables -/

lemma md5_of_fromCsv {csvContents : Str}
    (h : FuseTable.fromCsv py opts csvContents = .ok table) : IsTame table.md5DigestTable := by
  simp only [FuseTable.fromCsv, bind, Except.bind, pure, Except.pure, throw, throwThe,
    MonadExceptOf.throw] at h
  repeat' split at h
  all_goals cases h
  exact isTame_hexdigest _

/-- A table that is accepted is sound when its rows are well formed, and only then as long as all
texts keep to their lines. -/
theorem sound_iff (py : Python) (opts : Options) (reserved : Str → Bool) (fileName : Str)
    (debug : Bool) (typeTable : Option TypeTable) (csvContents : Str) (rows : List Row)
    (table : FuseTable) (hrows : parseRows py opts csvContents = .ok rows)
    (htable : FuseTable.fromCsv py opts csvContents = .ok table)
    (hverify : FuseTable.verify opts typeTable table = .ok ()) :
    (WellFormed opts reserved rows ∧ OneLine fileName rows →
      Sound opts reserved fileName debug rows table) ∧
    (OneLine fileName rows → Sound opts reserved fileName debug rows table →
      WellFormed opts reserved rows) := by
  obtain ⟨rows', fields, hrows', hmade⟩ := made_of_fromCsv htable
  obtain rfl : rows = rows' := Except.ok.inj (hrows.symm.trans hrows')
  obtain ⟨hapart, hmax⟩ := apart_of_verify hverify
  have hmd5 := md5_of_fromCsv htable
  constructor
  · rintro ⟨hwell, hline⟩
    have hdefined : Defined reserved fields :=
      hmade.defined_iff.2 ⟨hwell.name, hwell.apart, hwell.comment⟩
    exact ⟨hapart, (hmade.inside_iff hmax).2 ⟨hwell.start, hwell.count⟩, hmade.starts,
      (hmade.fields_iff hline hmd5).2 hdefined, hmade.counts_iff.2 hwell.define⟩
  · intro hline hsound
    obtain ⟨hstart, hcount⟩ := (hmade.inside_iff hmax).1 hsound.inside
    obtain ⟨hname, happ, hcomment⟩ :=
      hmade.defined_iff.1 ((hmade.fields_iff hline hmd5).1 hsound.fields)
    exact ⟨hstart, hcount, hname, happ, hcomment, hmade.counts_iff.1 hsound.counts⟩

/-- Python's string functions for text without variables, and `int(v, 0)` with a sign. -/
def signed : Python :=
  { PartitionTable.posix with
    int0 := fun v => match v with
      | '-' :: digits => (PartitionTable.parseDigits 10 digits).map fun n => -(n : ℤ)
      | _ => PartitionTable.int0 v }

/-- Two fields, the first one of two entries; the starts behind the first row are left out. -/
def smallText : Str :=
  "KEY, EFUSE_BLK3, 0, 8, low\n, EFUSE_BLK3, , 8, high\nFLAG, EFUSE_BLK3, , 1,".toList

def smallRows : List Row :=
  [⟨"KEY".toList, [], "EFUSE_BLK3".toList, some 0, 8, none, "low".toList⟩,
    ⟨[], [], "EFUSE_BLK3".toList, none, 8, none, "high".toList⟩,
    ⟨"FLAG".toList, [], "EFUSE_BLK3".toList, none, 1, none, []⟩]

def smallEntries : List Entry :=
  [⟨"KEY".toList, "0".toList, "EFUSE_BLK3".toList, 0, 8, none, "low".toList⟩,
    ⟨"KEY".toList, "1".toList, "EFUSE_BLK3".toList, 8, 8, none, "high".toList⟩,
    ⟨"FLAG".toList, [], "EFUSE_BLK3".toList, 16, 1, none, []⟩]

/-- What the steps of reading and of checking the small table give. -/
lemma steps_small :
    (parseRows signed ⟨.esp32, 256⟩ smallText = .ok smallRows ∧
      verifyDuplicateName (fillStarts none 0 smallRows) = .ok () ∧
      fillNames none (fillStarts none 0 smallRows) =
        .ok (smallEntries.map fun p => { p with group := [] }) ∧
      fillGroups (smallEntries.map fun p => { p with group := [] }) = smallEntries) ∧
    smallEntries.forM (Entry.verify ⟨.esp32, 256⟩ (some .customTable)) = .ok () ∧
    verifyDuplicateName smallEntries = .ok () ∧ checkOverlaps none smallEntries = .ok () := by
  decide

lemma fromCsv_small : FuseTable.fromCsv signed ⟨.esp32, 256⟩ smallText =
    .ok ⟨smallEntries, calcMd5 signed smallEntries⟩ := by
  obtain ⟨⟨hrows, hstarts, hnames, hgroups⟩, -, hentries, -⟩ := steps_small
  simp only [FuseTable.fromCsv, hrows, hstarts, hnames, hgroups, hentries, bind, Except.bind, pure,
    Except.pure]

lemma verify_small : FuseTable.verify ⟨.esp32, 256⟩ (some .customTable)
    ⟨smallEntries, calcMd5 signed smallEntries⟩ = .ok () := by
  have hsort : (smallEntries.mergeSort fun a b => a.key ≤ b.key) = smallEntries :=
    List.mergeSort_of_pairwise (by decide)
  obtain ⟨-, heach, hnames, hoverlaps⟩ := steps_small
  simp only [FuseTable.verify, hsort, heach, hnames, hoverlaps, bind, Except.bind]

theorem sound_small : Sound ⟨.esp32, 256⟩ (fun name => name = "NULL".toList)
    "esp_efuse_table".toList false smallRows ⟨smallEntries, calcMd5 signed smallEntries⟩ :=
  (sound_iff signed ⟨.esp32, 256⟩ _ "esp_efuse_table".toList false (some .customTable) smallText
    smallRows _ steps_small.1.1 fromCsv_small verify_small).1
    ⟨⟨by simp [smallRows], by decide, by decide, by decide, by decide, by decide⟩,
      ⟨by decide, by decide⟩⟩

/-- A start below zero is accepted. -/
theorem fromCsv_negative : ∃ rows table,
    parseRows signed ⟨.esp32, 256⟩ "KEY, EFUSE_BLK3, -8, 8, key".toList = .ok rows ∧
    FuseTable.fromCsv signed ⟨.esp32, 256⟩ "KEY, EFUSE_BLK3, -8, 8, key".toList = .ok table ∧
    FuseTable.verify ⟨.esp32, 256⟩ (some .customTable) table = .ok () ∧
    ∀ reserved fileName debug, ¬ Sound ⟨.esp32, 256⟩ reserved fileName debug rows table := by
  let rows : List Row :=
    [⟨"KEY".toList, [], "EFUSE_BLK3".toList, some (-8), 8, none, "key".toList⟩]
  let entries : List Entry :=
    [⟨"KEY".toList, [], "EFUSE_BLK3".toList, -8, 8, none, "key".toList⟩]
  have hrows : parseRows signed ⟨.esp32, 256⟩ "KEY, EFUSE_BLK3, -8, 8, key".toList = .ok rows := by
    decide
  obtain ⟨hstarts, hnames, hgroups, hentries⟩ :
      verifyDuplicateName (fillStarts none 0 rows) = .ok () ∧
        fillNames none (fillStarts none 0 rows) = .ok entries ∧ fillGroups entries = entries ∧
        verifyDuplicateName entries = .ok () := by decide
  refine ⟨rows, ⟨entries, calcMd5 signed entries⟩, hrows, ?_, by decide +kernel, ?_⟩
  · simp only [FuseTable.fromCsv, hrows, hstarts, hnames, hgroups, hentries, bind, Except.bind,
      pure, Except.pure]
  · intro reserved fileName debug hsound
    have hsub := (hsound.inside _ List.mem_cons_self).2
    have hmem : (-8 : ℤ) ∈ Entry.bits ⟨"KEY".toList, [], "EFUSE_BLK3".toList, -8, 8, none,
        "key".toList⟩ := ⟨le_rfl, by decide⟩
    exact absurd (hsub hmem).1 (by decide)

end EspIdf.EfuseTable
