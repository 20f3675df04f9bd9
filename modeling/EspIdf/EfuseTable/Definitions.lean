/-
# The definitions in the C file

Nothing is defined in the header of the file.  Behind it stand the arrays and the lists of pointers
of all fields.
-/
import EspIdf.EfuseTable.Reading

namespace EspIdf.EfuseTable

open Lib
open PartitionTable (Str dec strip)

variable {reserved : Str → Bool} {debug : Bool} {opts : Options} {fields : List Field}

/-! ### The header -/

/-- The row is a line of its own, in which nothing is defined. -/
def Idle (reserved : Str → Bool) (l : Str) : Prop :=
  '\n' ∉ l ∧ ¬ IsContinued l ∧ opening reserved (code l) = none

/-- Text that neither breaks a line nor goes on. -/
def IsTame (s : Str) : Prop := ∀ c ∈ s, c ≠ '\n' ∧ c ≠ '\\'

instance (s : Str) : Decidable (IsTame s) :=
  inferInstanceAs (Decidable (∀ c ∈ s, c ≠ '\n' ∧ c ≠ '\\'))

lemma IsTame.append {s t : Str} (hs : IsTame s) (ht : IsTame t) : IsTame (s ++ t) := by
  intro c hc
  rcases List.mem_append.1 hc with hc | hc
  · exact hs c hc
  · exact ht c hc

lemma IsTame.newline {s : Str} (h : IsTame s) : '\n' ∉ s := fun hmem => (h _ hmem).1 rfl

lemma IsTame.not_isContinued {s : Str} (h : IsTame s) : ¬ IsContinued s :=
  fun hcont => (h _ (List.mem_of_getLast? hcont)).2 rfl

lemma isTame_dec (n : ℤ) : IsTame (dec n) := by
  have hdigits : ∀ c ∈ "0123456789abcdef".toList, c ≠ '\n' ∧ c ≠ '\\' := by decide
  have htame : IsTame (Nat.toDigits 10 n.natAbs) := fun c hc =>
    hdigits c (PartitionTable.mem_toDigits (by decide) (by decide) hc)
  rw [dec]
  split_ifs
  · exact IsTame.append (s := ['-']) (by decide) htame
  · exact htame

lemma isTame_hexdigest (digest : List Byte) : IsTame (hexdigest digest) := by
  have hdigits : ∀ c ∈ "0123456789abcdef".toList, c ≠ '\n' ∧ c ≠ '\\' := by decide
  intro c hc
  obtain ⟨b, -, hc⟩ := List.mem_flatMap.1 hc
  simp only [List.mem_cons, List.not_mem_nil, or_false] at hc
  rcases hc with rfl | rfl
  · exact hdigits _ (PartitionTable.isDigitChar_of_lt (by omega))
  · exact hdigits _ (PartitionTable.isDigitChar_of_lt (by omega))

lemma isTame_lastFreeBit {blk bits : Str} : ∀ {entries : List Entry} {used : ℤ},
    (∀ p ∈ entries, p.define = none ∨ p.define = some "MAX_BLK_LEN".toList) →
    lastFreeBitInBlk blk used entries = some bits → IsTame bits := by
  intro entries
  induction entries with
  | nil =>
    intro used _ h
    rw [lastFreeBitInBlk] at h
    split_ifs at h
    cases h
    exact isTame_dec _
  | cons p ps ih =>
    intro used hdefine h
    have hrest : ∀ p ∈ ps, p.define = none ∨ p.define = some "MAX_BLK_LEN".toList :=
      fun p hp => hdefine p (List.mem_cons_of_mem _ hp)
    rw [lastFreeBitInBlk] at h
    split_ifs at h with hblk hsome
    · cases h
      rcases hdefine p List.mem_cons_self with hp | hp
      · rw [hp] at hsome
        cases hsome
      · rw [Entry.getBitCount, hp, Option.getD_some]
        decide
    · exact ih hrest h
    · exact ih hrest h

lemma isTame_freeBits {table : FuseTable} {free : Str × Str}
    (hdefine : ∀ p ∈ table.entries, p.define = none ∨ p.define = some "MAX_BLK_LEN".toList)
    (h : free ∈ freeBits table) : IsTame free.1 ∧ IsTame free.2 := by
  obtain ⟨k, hk, hbits⟩ := List.mem_filterMap.1 h
  obtain ⟨bits, hlast, rfl⟩ := Option.map_eq_some_iff.1 hbits
  have hall : ∀ k ∈ ["1".toList, "2".toList, "3".toList], IsTame k := by decide
  exact ⟨hall k hk, isTame_lastFreeBit hdefine hlast⟩

lemma idle_directive {l : Str} (hhead : l.head? = some '#' ∨ l.head? = some '_')
    (hnewline : '\n' ∉ l) (hcont : ¬ IsContinued l) : Idle reserved l := by
  refine ⟨hnewline, hcont, ?_⟩
  cases l with
  | nil => simp at hhead
  | cons c s =>
    simp only [List.head?_cons, Option.some.injEq] at hhead
    obtain ⟨t, ht⟩ := code_cons (c := c) (by rcases hhead with rfl | rfl <;> decide)
      (by rcases hhead with rfl | rfl <;> decide) s
    rw [ht]
    refine opening_eq_none ?_ ?_ <;> rcases hhead with rfl | rfl <;> simp

lemma idle_comment {l : Str} (hhead : l.take 2 = ['/', '/']) (hnewline : '\n' ∉ l)
    (hcont : ¬ IsContinued l) : Idle reserved l := by
  refine ⟨hnewline, hcont, ?_⟩
  have hcode : code l = [] := by
    rw [← List.take_append_drop 2 l, hhead]
    exact congrArg strip (uncomment_comment (s := []) (by simp))
  rw [hcode]
  rfl

lemma idle_nil : Idle reserved [] := ⟨by simp, by decide, rfl⟩

/-- The rows in front of the arrays. -/
lemma idle_headerRows {fileName : Str} {table : FuseTable} (hname : '\n' ∉ fileName)
    (hmd5 : IsTame table.md5DigestTable)
    (hdefine : ∀ p ∈ table.entries, p.define = none ∨ p.define = some "MAX_BLK_LEN".toList) :
    ∀ l ∈ headerRows opts fileName table, Idle reserved l := by
  have hnamed : ∀ before after : Str, '\n' ∉ before → '\n' ∉ after → after ≠ [] →
      ¬ IsContinued after → '\n' ∉ before ++ fileName ++ after ∧
        ¬ IsContinued (before ++ fileName ++ after) := by
    intro before after hb ha hne hcont
    refine ⟨fun hmem => ?_, fun h => hcont ((isContinued_append hne).1 h)⟩
    simp only [List.mem_append] at hmem
    rcases hmem with (hmem | hmem) | hmem
    · exact hb hmem
    · exact hname hmem
    · exact ha hmem
  intro l hl
  rw [headerRows] at hl
  rcases List.mem_append.1 hl with hl | hl
  · simp only [List.mem_cons, List.not_mem_nil, or_false] at hl
    rcases hl with rfl | rfl | rfl | rfl | rfl | rfl | rfl | rfl | rfl | rfl | rfl
    · exact idle_directive (by decide) (by decide) (by decide)
    · exact idle_directive (by decide) (by decide) (by decide)
    · exact idle_directive (by decide) (by decide) (by decide)
    · obtain ⟨h1, h2⟩ := hnamed "#include \"".toList ".h\"".toList
        (by decide) (by decide) (by decide) (by decide)
      exact idle_directive (.inl rfl) h1 h2
    · exact idle_nil
    · have htame := IsTame.append (s := "// md5_digest_table ".toList) (by decide) hmd5
      exact idle_comment rfl htame.newline htame.not_isContinued
    · obtain ⟨h1, h2⟩ := hnamed "// This file was generated from the file ".toList
        ".csv. DO NOT CHANGE THIS FILE MANUALLY.".toList
        (by decide) (by decide) (by decide) (by decide)
      exact idle_comment rfl h1 h2
    · obtain ⟨h1, h2⟩ := hnamed
        "// If you want to change some fields, you need to change ".toList ".csv file".toList
        (by decide) (by decide) (by decide) (by decide)
      exact idle_comment rfl h1 h2
    · exact idle_comment (by decide) (by decide) (by decide)
    · exact idle_comment (by decide) (by decide) (by decide)
    · exact idle_nil
  · split_ifs at hl
    · simp only [List.mem_append, List.mem_cons, List.not_mem_nil, or_false] at hl
      rcases hl with ((((rfl | rfl | rfl) | hl) | rfl) | hl) | rfl
      · exact idle_directive (by decide) (by decide) (by decide)
      · exact idle_nil
      · exact idle_comment (by decide) (by decide) (by decide)
      · obtain ⟨free, hfree, rfl⟩ := List.mem_map.1 hl
        obtain ⟨hk, hbits⟩ := isTame_freeBits hdefine hfree
        have htame : IsTame ("#define LAST_FREE_BIT_BLK".toList ++ free.1 ++ ' ' :: free.2) :=
          (IsTame.append (by decide) hk).append (IsTame.append (s := [' ']) (by decide) hbits)
        exact idle_directive (.inl rfl) htame.newline htame.not_isContinued
      · exact idle_nil
      · obtain ⟨free, hfree, rfl⟩ := List.mem_map.1 hl
        have hassert : IsTame assertText := by decide +kernel
        have htame : IsTame ("_Static_assert(LAST_FREE_BIT_BLK".toList ++ free.1 ++ assertText) :=
          (IsTame.append (by decide) (isTame_freeBits hdefine hfree).1).append hassert
        exact idle_directive (.inr rfl) htame.newline htame.not_isContinued
      · exact idle_nil
    · cases hl

/-! ### The file -/

lemma lines_flatMap {g h : Field → List Str} (hgh : ∀ f ∈ fields,
    (g f).flatMap (fun l => l.splitOn '\n') = h f) :
    (fields.flatMap g).flatMap (fun l => l.splitOn '\n') = fields.flatMap h := by
  rw [List.flatMap_assoc]
  exact List.flatMap_congr hgh

lemma readLines_header {header : List Str} (h : ∀ l ∈ header, Idle reserved l) :
    readLines reserved none (header.map code) = (none, []) := by
  refine readLines_idle fun l hl => ?_
  obtain ⟨row, hrow, rfl⟩ := List.mem_map.1 hl
  exact (h row hrow).2.2

/-- The file defines the arrays and the lists of pointers of its fields, those whose names can be
defined. -/
theorem definitions_toCFile {fileName : Str} {table : FuseTable} (hne : fields ≠ [])
    (hentries : table.entries = flat fields) (hnamed : ∀ f ∈ fields, f.Named)
    (hnodup : (fields.map Field.name).Nodup) (hplain : ∀ f ∈ fields, f.Plain opts)
    (hidle : ∀ l ∈ headerRows opts fileName table, Idle reserved l) :
    definitions reserved (table.toCFile opts fileName debug) =
      (fields.filter fun f => IsFree reserved f.name).map (Field.array debug) ++
        (fields.filter fun f => IsFree reserved (espEfuse f.name)).map Field.pointers := by
  have hempty : [] ∉ fields.map Field.name := by
    intro hmem
    obtain ⟨f, hf, hname⟩ := List.mem_map.1 hmem
    exact (hnamed f hf).name_ne hname
  have harrays : (arrayRows debug table.entries).flatMap (fun l => l.splitOn '\n') =
      fields.flatMap (arrayLines debug) := by
    rw [arrayRows, hentries, rowsFrom_flat hnamed hnodup hempty, if_neg (by simp [hne]),
      List.nil_append]
    exact lines_flatMap fun f hf => lines_array (hplain f hf)
  have hpointers : (pointerRows table.entries).flatMap (fun l => l.splitOn '\n') =
      fields.flatMap pointerLines := by
    rw [pointerRows, hentries, rowsFrom_flat hnamed hnodup hempty, if_neg (by simp [hne]),
      List.nil_append]
    exact lines_flatMap fun f hf => lines_pointers (hplain f hf)
  have hblank : ["\n\n\n".toList].flatMap (fun l => l.splitOn '\n') = [[], [], [], []] := by decide
  have hheader := lines_of_newline fun l hl => (hidle l hl).1
  have hlines : (table.toCFile opts fileName debug).splitOn '\n' =
      (headerRows opts fileName table ++ fields.flatMap (arrayLines debug) ++ [[], [], [], []]) ++
        (fields.flatMap pointerLines ++ [[]]) := by
    rw [FuseTable.toCFile, splitOn_rows (by simp), List.flatMap_append, List.flatMap_append,
      List.flatMap_append, hheader, harrays, hblank, hpointers, List.append_assoc]
  have hcont : ∀ l ∈ headerRows opts fileName table ++ fields.flatMap (arrayLines debug) ++
      [[], [], [], []], ¬ IsContinued l := by
    intro l hl
    rcases List.mem_append.1 hl with hl | hl
    · rcases List.mem_append.1 hl with hl | hl
      · exact (hidle l hl).2.1
      · obtain ⟨f, -, hl⟩ := List.mem_flatMap.1 hl
        exact not_isContinued_arrayLines l hl
    · have hall : ∀ l ∈ ([[], [], [], []] : List Str), ¬ IsContinued l := by decide
      exact hall l hl
  have hread : readLines reserved none ([[], [], [], []].map code) = (none, []) :=
    readLines_header fun l hl => by
      have hall : ∀ l ∈ ([[], [], [], []] : List Str), l = [] := by decide
      rw [hall l hl]
      exact idle_nil
  rw [definitions, hlines, logicalLines_append hcont, List.map_append, List.map_map,
    show strip ∘ uncomment = code from rfl, List.map_append, List.map_append, readLines_append,
    readLines_append, readLines_append, readLines_header hidle]
  rw [readLines_arrays hplain, hread, readLines_pointers_all hplain]
  simp

end EspIdf.EfuseTable
