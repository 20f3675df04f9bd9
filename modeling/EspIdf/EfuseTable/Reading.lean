/-
# Reading the C file back

The rows of a field are read one section after the other.  A field whose name cannot be defined is
passed over, and a comment that ends in a backslash hides the row behind it.
-/
import EspIdf.EfuseTable.Fields
import EspIdf.PartitionTable.Csv

namespace EspIdf.EfuseTable

open Lib
open PartitionTable (Str Python dec strip isSpace strip_eq_self strip_cons)

variable {reserved : Str → Bool} {debug : Bool} {p : Entry} {ps : List Entry}

/-! ### Lines -/

example : readLines (fun _ => false) (some ⟨.array, ['a'], []⟩) [['x', ','], closeBrace] =
    (none, [⟨.array, ['a'], [['x']]⟩]) := by
  rw [readLines, readLine]
  rfl

lemma splitOn_rows {rows : List Str} (h : rows ≠ []) :
    (['\n'].intercalate rows ++ ['\n']).splitOn '\n' =
      rows.flatMap (fun row => row.splitOn '\n') ++ [[]] := by
  induction rows with
  | nil => exact absurd rfl h
  | cons row rows ih =>
    cases rows with
    | nil => simp [List.splitOn_append_cons_self]
    | cons row' rows =>
      rw [List.intercalate_cons_cons, List.append_assoc, List.append_assoc, List.singleton_append,
        List.splitOn_append_cons_self, ih (by simp)]
      simp only [List.flatMap_cons, List.append_assoc]

/-- A line as it is read. -/
def code (l : Str) : Str := strip (uncomment l)

/-- Text between blanks. -/
lemma strip_padded {before s after : Str} (hbefore : ∀ c ∈ before, isSpace c = true)
    (hafter : ∀ c ∈ after, isSpace c = true) (hs : strip s = s) (hne : s ≠ []) :
    strip (before ++ s ++ after) = s := by
  obtain ⟨c, t, rfl⟩ := List.exists_cons_of_ne_nil hne
  have hc : isSpace c = false := PartitionTable.head_of_strip hs c rfl
  have hfirst : (before ++ (c :: t) ++ after).dropWhile isSpace = c :: t ++ after := by
    rw [List.append_assoc, List.dropWhile_append_of_pos hbefore, List.cons_append,
      List.dropWhile_cons_of_neg (by simp [hc])]
  have hlast : ((c :: t ++ after).reverse).dropWhile isSpace =
      (c :: t).reverse.dropWhile isSpace := by
    rw [List.reverse_append, List.dropWhile_append_of_pos]
    exact fun d hd => hafter d (List.mem_reverse.1 hd)
  rw [strip, hfirst, hlast]
  rw [strip, List.dropWhile_cons_of_neg (by simp [hc])] at hs
  exact hs

lemma code_cons {c : Char} (hspace : isSpace c = false) (hc : c ≠ '/') (s : Str) :
    ∃ t, code (c :: s) = c :: t := by
  have huncomment : ∃ t, uncomment (c :: s) = c :: t := by
    cases s with
    | nil => exact ⟨[], rfl⟩
    | cons d s => exact ⟨_, by rw [uncomment, if_neg (fun h => hc h.1)]⟩
  obtain ⟨t, ht⟩ := huncomment
  obtain ⟨t', ht', -⟩ := strip_cons hspace t
  exact ⟨t', by rw [code, ht, ht']⟩

/-! ### One definition -/

lemma openedBy_eq_none {start l : Str} (h : start.head? ≠ l.head?) (hne : start ≠ []) :
    openedBy reserved start l = none := by
  have hdrop : l.dropPrefix? start = none := by
    by_contra hsome
    obtain ⟨s, hs⟩ := Option.ne_none_iff_exists'.1 hsome
    obtain ⟨p', rfl, hp'⟩ := List.dropPrefix?_eq_some_iff.1 hs
    rw [beq_iff_eq.1 hp', List.head?_append_of_ne_nil _ hne] at h
    exact h rfl
  rw [openedBy, hdrop]
  rfl

lemma opening_eq_none {l : Str} (hs : l.head? ≠ some 's') (hc : l.head? ≠ some 'c') :
    opening reserved l = none := by
  rw [opening, openedBy_eq_none (fun h => hs h.symm) (by decide),
    openedBy_eq_none (fun h => hc h.symm) (by decide)]
  rfl

lemma openedBy_eq {start name : Str} :
    openedBy reserved start (start ++ name ++ openBrace) =
      if IsFree reserved name then some name else none := by
  have hdrop : (start ++ (name ++ openBrace)).dropPrefix? start =
      some (name ++ openBrace) := List.dropPrefix?_eq_some_iff.2 ⟨start, rfl, by simp⟩
  have hdrop' : (name ++ openBrace).dropSuffix? openBrace = some name :=
    List.dropSuffix?_eq_some_iff.2 ⟨_, rfl, by simp⟩
  rw [openedBy, List.append_assoc, hdrop, Option.bind_some, hdrop', Option.filter_some]
  simp

@[simp] lemma head_arrayType (s : Str) : (arrayType ++ s).head? = some 's' := rfl

@[simp] lemma head_pointerType (s : Str) : (pointerType ++ s).head? = some 'c' := rfl

lemma opening_array (name : Str) : opening reserved (arrayHeading name) =
    if IsFree reserved name then some ⟨.array, name, []⟩ else none := by
  rw [opening, arrayHeading, openedBy_eq]
  by_cases h : IsFree reserved name
  · rw [if_pos h, if_pos h]
  · rw [if_neg h, if_neg h]
    change (openedBy reserved pointerType (arrayType ++ name ++ openBrace)).map _ = none
    have hc : openedBy reserved pointerType (arrayType ++ name ++ openBrace) = none :=
      openedBy_eq_none (by rw [List.append_assoc, head_arrayType]; decide) (by decide)
    rw [hc]
    rfl

lemma opening_pointers (name : Str) : opening reserved (pointerHeading name) =
    if IsFree reserved (espEfuse name) then some ⟨.pointers, espEfuse name, []⟩ else none := by
  have harray : openedBy reserved arrayType (pointerHeading name) = none :=
    openedBy_eq_none (by rw [pointerHeading, List.append_assoc, head_pointerType]; decide)
      (by decide)
  rw [opening, harray, pointerHeading, openedBy_eq]
  split_ifs <;> rfl

lemma readLines_append (d : Option Definition) (ls ls' : List Str) :
    readLines reserved d (ls ++ ls') =
      ((readLines reserved (readLines reserved d ls).1 ls').1,
        (readLines reserved d ls).2 ++ (readLines reserved (readLines reserved d ls).1 ls').2) := by
  induction ls generalizing d with
  | nil => rfl
  | cons l ls ih => simp [readLines, ih]

/-- Lines that begin nothing are passed over. -/
lemma readLines_idle {ls : List Str} (h : ∀ l ∈ ls, opening reserved l = none) :
    readLines reserved none ls = (none, []) := by
  induction ls with
  | nil => rfl
  | cons l ls ih =>
    rw [readLines, readLine, h l List.mem_cons_self]
    simp [ih fun l hl => h l (List.mem_cons_of_mem _ hl)]

lemma readLines_elems {ls : List Str} (h : ∀ l ∈ ls, l ≠ closeBrace ∧ l ≠ [])
    (d : Definition) : readLines reserved (some d) ls =
      (some { d with elems := d.elems ++ ls.map element }, []) := by
  induction ls generalizing d with
  | nil => simp [readLines]
  | cons l ls ih =>
    obtain ⟨hl, hne⟩ := h l List.mem_cons_self
    rw [readLines, readLine, if_neg hl, if_neg hne]
    simp [ih fun l hl => h l (List.mem_cons_of_mem _ hl)]

/-- The lines of a definition, from its heading to its end. -/
lemma readLines_section {heading : Str} {d : Definition} {ls : List Str} {b : Prop} [Decidable b]
    (hopen : opening reserved heading = if b then some { d with elems := [] } else none)
    (hls : ∀ l ∈ ls, l ≠ [] ∧ l.head? ≠ some 's' ∧ l.head? ≠ some 'c' ∧ l.head? ≠ some '\x7d')
    (hd : d.elems = ls.map element) :
    readLines reserved none (heading :: ls ++ [closeBrace, []]) =
      (none, if b then [d] else []) := by
  have hend : ∀ l ∈ [closeBrace, []], opening reserved l = none := fun l hl =>
    opening_eq_none (by simp at hl; rcases hl with rfl | rfl <;> decide)
      (by simp at hl; rcases hl with rfl | rfl <;> decide)
  rw [List.cons_append, readLines, readLine, hopen]
  by_cases hb : b
  · simp only [if_pos hb]
    rw [readLines_append, readLines_elems (fun l hl => ⟨by
      rintro rfl
      exact (hls _ hl).2.2.2 rfl, (hls l hl).1⟩), List.nil_append, ← hd]
    simp [readLines, readLine, hend]
  · simp only [if_neg hb]
    rw [readLines_idle]
    · rfl
    · intro l hl
      rcases List.mem_append.1 hl with hl | hl
      · exact opening_eq_none (hls l hl).2.1 (hls l hl).2.2.1
      · exact hend l hl

/-! ### The rows of the loops -/

section Rows

variable {heading : Str → Str} {row : Entry → Str} {ending : List Str} {fields : List Field}

lemma rowsFrom_same {name : Str} (h : ∀ p ∈ ps, p.fieldName = name) (rest : List Entry) :
    rowsFrom heading row ending name (ps ++ rest) =
      ps.map row ++ rowsFrom heading row ending name rest := by
  induction ps with
  | nil => rfl
  | cons p ps ih =>
    have hp : p.fieldName = name := h p List.mem_cons_self
    rw [List.cons_append, rowsFrom, if_neg (not_not.2 hp), hp,
      ih fun p hp => h p (List.mem_cons_of_mem _ hp)]
    rfl

/-- The rows of a field. -/
def sectionRows (heading : Str → Str) (row : Entry → Str) (ending : List Str) (f : Field) :
    List Str := heading f.name :: f.entries.map row ++ ending

lemma rowsFrom_field {f : Field} (hf : f.Named) {lastName : Str} (hne : f.name ≠ lastName)
    (rest : List Entry) : rowsFrom heading row ending lastName (f.entries ++ rest) =
      (if lastName ≠ [] then ending else []) ++ heading f.name :: f.entries.map row ++
        rowsFrom heading row ending f.name rest := by
  obtain ⟨p, ps, hps⟩ := List.exists_cons_of_ne_nil hf.ne_nil
  have hp : p.fieldName = f.name := hf.fieldName p (by simp [hps])
  rw [hps, List.cons_append, rowsFrom, hp, if_pos hne, rowsFrom_same fun q hq =>
    hf.fieldName q (by simp [hps, hq])]
  simp

/-- The loop writes a section for each field. -/
lemma rowsFrom_flat (hnamed : ∀ f ∈ fields, f.Named) (hnodup : (fields.map Field.name).Nodup)
    {lastName : Str} (hlast : lastName ∉ fields.map Field.name) :
    rowsFrom heading row ending lastName (flat fields) ++ ending =
      (if lastName ≠ [] ∨ fields = [] then ending else []) ++
        fields.flatMap (sectionRows heading row ending) := by
  induction fields generalizing lastName with
  | nil => simp [rowsFrom]
  | cons f fields ih =>
    have hf := hnamed f List.mem_cons_self
    rw [List.map_cons, List.nodup_cons] at hnodup
    rw [List.map_cons, List.mem_cons, not_or] at hlast
    have hrest := ih (fun f hf => hnamed f (List.mem_cons_of_mem _ hf)) hnodup.2 hnodup.1
    rw [if_pos (.inl hf.name_ne)] at hrest
    rw [flat_cons, rowsFrom_field hf (Ne.symm hlast.1), List.append_assoc, hrest, List.flatMap_cons]
    simp [sectionRows]

end Rows

/-! ### Text without breaks -/

/-- Text that neither a comment begins in nor a line ends in. -/
def IsClean (s : Str) : Prop := ∀ c ∈ s, c ≠ '/' ∧ c ≠ '\n'

instance (s : Str) : Decidable (IsClean s) :=
  inferInstanceAs (Decidable (∀ c ∈ s, c ≠ '/' ∧ c ≠ '\n'))

lemma IsClean.append {s t : Str} (hs : IsClean s) (ht : IsClean t) : IsClean (s ++ t) := by
  intro c hc
  rcases List.mem_append.1 hc with hc | hc
  · exact hs c hc
  · exact ht c hc

lemma IsClean.cons {c : Char} {t : Str} (hc : c ≠ '/' ∧ c ≠ '\n') (ht : IsClean t) :
    IsClean (c :: t) := by
  intro d hd
  rcases List.mem_cons.1 hd with rfl | hd
  · exact hc
  · exact ht d hd

lemma IsClean.slash {s : Str} (h : IsClean s) : '/' ∉ s := fun hmem => (h _ hmem).1 rfl

lemma IsClean.newline {s : Str} (h : IsClean s) : '\n' ∉ s := fun hmem => (h _ hmem).2 rfl

lemma isClean_toDigits (n : ℕ) : IsClean (Nat.toDigits 10 n) := by
  have hdigits : ∀ c ∈ "0123456789abcdef".toList, c ≠ '/' ∧ c ≠ '\n' := by decide
  exact fun c hc => hdigits c (PartitionTable.mem_toDigits (by decide) (by decide) hc)

lemma isClean_dec (n : ℤ) : IsClean (dec n) := by
  rw [dec]
  split_ifs
  · exact .cons (by decide) (isClean_toDigits _)
  · exact isClean_toDigits _

lemma isClean_word {s : Str} (h : ∀ c ∈ s, isWord c = true) : IsClean s := by
  refine fun c hc => ⟨?_, ?_⟩ <;> rintro rfl <;> exact absurd (h _ hc) (by decide)

lemma isClean_block {opts : Options} {s : Str} (h : s ∈ blocks opts.idfTarget) : IsClean s := by
  cases htarget : opts.idfTarget with
  | esp32 =>
    rw [htarget, blocks] at h
    obtain ⟨k, -, rfl⟩ := List.mem_map.1 h
    exact .append (by decide) (isClean_toDigits k)
  | esp32s2beta =>
    rw [htarget, blocks] at h
    obtain ⟨k, -, rfl⟩ := List.mem_map.1 h
    exact .append (by decide) (isClean_toDigits k)

lemma splitOn_of_newline {s : Str} (h : '\n' ∉ s) : s.splitOn '\n' = [s] :=
  List.splitOn_eq_singleton h

/-! ### The rows of an entry -/

/-- What the text of an entry is made of. -/
structure Entry.Plain (opts : Options) (p : Entry) : Prop where
  efuseBlock : p.efuseBlock ∈ blocks opts.idfTarget
  define : p.define = none ∨ p.define = some "MAX_BLK_LEN".toList
  fieldName : ∀ c ∈ p.fieldName, isWord c = true
  index : ∃ i : ℕ, p.index = Nat.toDigits 10 i
  comment : '\n' ∉ p.comment

/-- The initialiser of an entry in the array of its name. -/
def Entry.initialiser (debug : Bool) (p : Entry) : Str :=
  '\x7b' :: (if debug then '"' :: p.fieldName ++ "\" ,".toList else []) ++ p.efuseBlock ++
    ", ".toList ++ dec p.bitStart ++ ", ".toList ++ p.getBitCount ++ ['\x7d']

/-- The pointer to an entry in the array of its name. -/
def Entry.pointer (p : Entry) : Str := '&' :: p.fieldName ++ '[' :: p.index ++ [']']

variable {opts : Options}

lemma toStruct_eq (debug : Bool) (p : Entry) : p.toStruct debug ++ [','] =
    "    ".toList ++ (p.initialiser debug ++ [',']) ++ " \t ".toList ++
      '/' :: '/' :: ' ' :: (p.comment ++ [',']) := by
  have hstart : "    \x7b".toList = "    ".toList ++ ['\x7b'] := by decide
  have hend : "\x7d, \t // ".toList = '\x7d' :: ',' :: " \t ".toList ++ ['/', '/', ' '] := by decide
  cases debug <;> simp only [Entry.toStruct, Entry.initialiser, hstart, hend,
    List.intercalate_cons_cons, List.intercalate_singleton, List.append_assoc, List.cons_append,
    List.nil_append, if_true, Bool.false_eq_true, if_false]

lemma pointerRow_eq (p : Entry) : p.pointerRow =
    "    ".toList ++ (p.pointer ++ [',']) ++ "    \t\t".toList ++
      '/' :: '/' :: ' ' :: p.comment := by
  have hstart : "    &".toList = "    ".toList ++ ['&'] := by decide
  have hend : "],    \t\t// ".toList =
      ']' :: ',' :: "    \t\t".toList ++ ['/', '/', ' '] := by
    decide
  have hbracket : "[".toList = ['['] := by decide
  unfold Entry.pointerRow Entry.pointer
  simp only [hstart, hend, hbracket, List.append_assoc, List.cons_append, List.nil_append]

lemma Entry.Plain.getBitCount (h : p.Plain opts) : IsClean p.getBitCount := by
  rw [Entry.getBitCount]
  rcases h.define with h | h
  · rw [h]
    exact isClean_dec _
  · rw [h, Option.getD_some]
    decide

lemma Entry.Plain.initialiser (h : p.Plain opts) (debug : Bool) :
    IsClean (p.initialiser debug) := by
  have hdebug : IsClean (if debug then '"' :: p.fieldName ++ "\" ,".toList else []) := by
    cases debug
    · exact fun c hc => nomatch hc
    · exact (IsClean.cons (by decide) (isClean_word h.fieldName)).append (by decide)
  have hcomma : IsClean ", ".toList := by decide
  have hbrace : IsClean ['\x7d'] := by decide
  rw [Entry.initialiser]
  exact ((((((IsClean.cons (by decide) hdebug).append (isClean_block h.efuseBlock)).append
    hcomma).append (isClean_dec _)).append hcomma).append h.getBitCount).append hbrace

lemma Entry.Plain.pointer (h : p.Plain opts) : IsClean p.pointer := by
  obtain ⟨i, hi⟩ := h.index
  rw [Entry.pointer, hi]
  exact ((IsClean.cons (by decide) (isClean_word h.fieldName)).append
    (.cons (by decide) (isClean_toDigits i))).append (by decide)

lemma strip_comma {s : Str} (hs : ∀ c, s.head? = some c → isSpace c = false) (hne : s ≠ []) :
    strip (s ++ [',']) = s ++ [','] := by
  refine strip_eq_self (fun c hc => ?_) (fun c hc => ?_)
  · rw [List.head?_append_of_ne_nil _ hne] at hc
    exact hs c hc
  · rw [List.getLast?_append_of_ne_nil _ (by simp)] at hc
    cases hc
    decide

lemma element_comma (s : Str) : element (s ++ [',']) = s := by
  rw [element, List.getLast?_append_of_ne_nil _ (by simp)]
  simp

/-- A text between blanks, in front of a comment. -/
lemma strip_uncomment {s before after : Str} (hs : ∀ c, s.head? = some c → isSpace c = false)
    (hne : s ≠ []) (hclean : IsClean s) (hbefore : ∀ d ∈ before, isSpace d = true ∧ d ≠ '/')
    (hafter : ∀ d ∈ after, isSpace d = true ∧ d ≠ '/') :
    '/' ∉ before ++ (s ++ [',']) ++ after ∧
      strip (before ++ (s ++ [',']) ++ after) = s ++ [','] := by
  refine ⟨fun hmem => ?_, strip_padded (fun d hd => (hbefore d hd).1) (fun d hd => (hafter d hd).1)
    (strip_comma hs hne) (by simp)⟩
  rcases List.mem_append.1 hmem with hmem | hmem
  · rcases List.mem_append.1 hmem with hmem | hmem
    · exact (hbefore _ hmem).2 rfl
    · exact (hclean.append (t := [',']) (by decide)).slash hmem
  · exact (hafter _ hmem).2 rfl

lemma head_initialiser {c : Char} (hc : (p.initialiser debug).head? = some c) :
    isSpace c = false := by
  cases hc
  decide

lemma head_pointer {c : Char} (hc : p.pointer.head? = some c) : isSpace c = false := by
  cases hc
  decide

/-! ### Sections -/

variable {f : Field} {fields : List Field}

lemma lines_of_newline {ls : List Str} (h : ∀ l ∈ ls, '\n' ∉ l) :
    ls.flatMap (fun l => l.splitOn '\n') = ls := by
  induction ls with
  | nil => rfl
  | cons l ls ih =>
    rw [List.flatMap_cons, splitOn_of_newline (h l List.mem_cons_self),
      ih fun l hl => h l (List.mem_cons_of_mem _ hl), List.singleton_append]

/-- The text of the field keeps to its lines. -/
structure Field.Plain (opts : Options) (f : Field) : Prop where
  name : ∀ c ∈ f.name, isWord c = true
  entries : ∀ p ∈ f.entries, p.Plain opts

lemma isClean_arrayHeading {name : Str} (h : ∀ c ∈ name, isWord c = true) :
    IsClean (arrayHeading name) :=
  (IsClean.append (by decide) (isClean_word h)).append (by decide)

lemma isClean_pointerHeading {name : Str} (h : ∀ c ∈ name, isWord c = true) :
    IsClean (pointerHeading name) := by
  have hesp : IsClean (espEfuse name) := .append (by decide) (isClean_word h)
  exact (IsClean.append (by decide) hesp).append (by decide)

lemma strip_heading {c : Char} (hc : isSpace c = false) (s : Str) :
    strip (c :: s ++ openBrace) = c :: s ++ openBrace := by
  refine strip_eq_self (fun d hd => ?_) (fun d hd => ?_)
  · rw [List.cons_append, List.head?_cons, Option.some.injEq] at hd
    rwa [← hd]
  · rw [List.getLast?_append_of_ne_nil _ (by decide)] at hd
    have hd' : d = '\x7b' := by
      have : openBrace.getLast? = some '\x7b' := by decide
      rw [this] at hd
      exact (Option.some.inj hd).symm
    rw [hd']
    decide

lemma code_arrayHeading {name : Str} (h : ∀ c ∈ name, isWord c = true) :
    code (arrayHeading name) = arrayHeading name := by
  rw [code, uncomment_eq_self (isClean_arrayHeading h).slash]
  exact strip_heading (c := 's') (by decide) _

lemma code_pointerHeading {name : Str} (h : ∀ c ∈ name, isWord c = true) :
    code (pointerHeading name) = pointerHeading name := by
  rw [code, uncomment_eq_self (isClean_pointerHeading h).slash]
  exact strip_heading (c := 'c') (by decide) _

lemma not_isContinued_heading (s : Str) : ¬ IsContinued (s ++ openBrace) := by
  rw [isContinued_append (by decide)]
  decide

/-! #### Arrays -/

/-- The array of a field. -/
def Field.array (debug : Bool) (f : Field) : Definition :=
  ⟨.array, f.name, f.entries.map (Entry.initialiser debug)⟩

/-- The row of an entry in the array. -/
def Entry.arrayRow (debug : Bool) (p : Entry) : Str := p.toStruct debug ++ [',']

lemma Entry.Plain.code_arrayRow (h : p.Plain opts) :
    code (p.arrayRow debug) = p.initialiser debug ++ [','] := by
  have hbefore : ∀ d ∈ "    ".toList, isSpace d = true ∧ d ≠ '/' := by decide
  have hafter : ∀ d ∈ " \t ".toList, isSpace d = true ∧ d ≠ '/' := by decide
  obtain ⟨hslash, hstrip⟩ := strip_uncomment (fun c hc => head_initialiser hc)
    (List.cons_ne_nil _ _) (h.initialiser debug) hbefore hafter
  rw [Entry.arrayRow, toStruct_eq, code, uncomment_comment hslash]
  exact hstrip

lemma Entry.Plain.newline_arrayRow (h : p.Plain opts) : '\n' ∉ p.arrayRow debug := by
  rw [Entry.arrayRow, toStruct_eq]
  have hclean : IsClean ("    ".toList ++ (p.initialiser debug ++ [',']) ++ " \t ".toList) :=
    (IsClean.append (by decide) ((h.initialiser debug).append (by decide))).append (by decide)
  rw [List.mem_append, not_or]
  exact ⟨hclean.newline, by simp [h.comment]⟩

/-- The lines of the section of a field. -/
def arrayLines (debug : Bool) (f : Field) : List Str :=
  arrayHeading f.name :: f.entries.map (Entry.arrayRow debug) ++ [closeBrace, []]

lemma lines_array (h : f.Plain opts) :
    (sectionRows arrayHeading (Entry.arrayRow debug) arrayEnding f).flatMap
      (fun l => l.splitOn '\n') = arrayLines debug f := by
  have hend : arrayEnding.flatMap (fun l => l.splitOn '\n') = [closeBrace, []] := by decide
  rw [sectionRows, List.flatMap_append, hend, lines_of_newline, arrayLines]
  intro l hl
  rcases List.mem_cons.1 hl with rfl | hl
  · exact (isClean_arrayHeading h.name).newline
  · obtain ⟨p, hp, rfl⟩ := List.mem_map.1 hl
    exact (h.entries p hp).newline_arrayRow

lemma not_isContinued_arrayLines : ∀ l ∈ arrayLines debug f, ¬ IsContinued l := by
  intro l hl
  rcases List.mem_append.1 hl with hl | hl
  · rcases List.mem_cons.1 hl with rfl | hl
    · exact not_isContinued_heading _
    · obtain ⟨p, -, rfl⟩ := List.mem_map.1 hl
      rw [Entry.arrayRow, isContinued_append (by decide)]
      decide
  · have hend : ∀ l ∈ [closeBrace, []], ¬ IsContinued l := by decide
    exact hend l hl

/-- Reading the section of a field gives its array, if its name can be defined. -/
lemma readLines_array (h : f.Plain opts) :
    readLines reserved none ((arrayLines debug f).map code) =
      (none, if IsFree reserved f.name then [f.array debug] else []) := by
  have hend : [closeBrace, []].map code = [closeBrace, []] := by decide
  have hrows : (f.entries.map (Entry.arrayRow debug)).map code =
      f.entries.map fun p => p.initialiser debug ++ [','] := by
    rw [List.map_map]
    exact List.map_congr_left fun p hp => (h.entries p hp).code_arrayRow
  rw [arrayLines, List.map_append, List.map_cons, code_arrayHeading h.name, hrows, hend]
  refine readLines_section (opening_array _) (fun l hl => ?_) ?_
  · obtain ⟨p, -, rfl⟩ := List.mem_map.1 hl
    simp [Entry.initialiser]
  · rw [List.map_map]
    exact List.map_congr_left fun p _ => (element_comma _).symm

lemma readLines_arrays (h : ∀ f ∈ fields, f.Plain opts) :
    readLines reserved none ((fields.flatMap (arrayLines debug)).map code) =
      (none, (fields.filter fun f => IsFree reserved f.name).map (Field.array debug)) := by
  induction fields with
  | nil => rfl
  | cons f fields ih =>
    rw [List.flatMap_cons, List.map_append, readLines_append,
      readLines_array (h f List.mem_cons_self)]
    rw [ih fun f hf => h f (List.mem_cons_of_mem _ hf), List.filter_cons]
    split_ifs with h1 h2 h2
    · rfl
    · exact absurd (decide_eq_true h1) h2
    · exact absurd (of_decide_eq_true h2) h1
    · rfl

/-! #### Lists of pointers -/

/-- The lines of a list of pointers as they are read, up to the `NULL`; the first one is hidden
when the comment in front of it goes on. -/
def pointerCodes : Bool → List Entry → List Str
  | hidden, [] => if hidden then [] else ["NULL".toList]
  | hidden, p :: ps =>
    (if hidden then [] else [p.pointer ++ [',']]) ++ pointerCodes (IsContinued p.comment) ps

/-- The list of pointers of a field. -/
def Field.pointers (f : Field) : Definition :=
  ⟨.pointers, espEfuse f.name, (pointerCodes false f.entries).map element⟩

/-- The lines, or what is left of them when the comment in front of them goes on. -/
def hideFirst (hidden : Bool) (ls : List Str) : List Str :=
  if hidden then dropContinued ls else ls

lemma isContinued_pointerRow : IsContinued p.pointerRow ↔ IsContinued p.comment := by
  rw [pointerRow_eq]
  cases hcomment : p.comment with
  | nil =>
    rw [isContinued_append (by simp)]
    decide
  | cons c s =>
    rw [show '/' :: '/' :: ' ' :: c :: s = ['/', '/', ' '] ++ c :: s from rfl, ← List.append_assoc,
      isContinued_append (by simp)]

lemma Entry.Plain.code_pointerRow (h : p.Plain opts) (ls : List Str) :
    (logicalLines (p.pointerRow :: ls)).map strip =
      (p.pointer ++ [',']) ::
        (logicalLines (hideFirst (IsContinued p.comment) ls)).map strip := by
  have hbefore : ∀ d ∈ "    ".toList, isSpace d = true ∧ d ≠ '/' := by decide
  have hafter : ∀ d ∈ "    \t\t".toList, isSpace d = true ∧ d ≠ '/' := by decide
  obtain ⟨hslash, hstrip⟩ := strip_uncomment (fun c hc => head_pointer hc)
    (List.cons_ne_nil _ _) h.pointer hbefore hafter
  have hiff := isContinued_pointerRow (p := p)
  rw [pointerRow_eq] at hiff ⊢
  by_cases hcont : IsContinued p.comment
  · rw [logicalLines_comment hslash (hiff.2 hcont), List.map_cons, hstrip]
    simp [hideFirst, hcont]
  · rw [logicalLines_cons (fun h => hcont (hiff.1 h)), uncomment_comment hslash, List.map_cons,
      hstrip]
    simp [hideFirst, hcont]

lemma Entry.Plain.newline_pointerRow (h : p.Plain opts) : '\n' ∉ p.pointerRow := by
  rw [pointerRow_eq]
  have hclean : IsClean ("    ".toList ++ (p.pointer ++ [',']) ++ "    \t\t".toList) :=
    (IsClean.append (by decide) (h.pointer.append (by decide))).append (by decide)
  rw [List.mem_append, not_or]
  exact ⟨hclean.newline, by simp [h.comment]⟩

lemma logicalLines_pointerRows (h : ∀ p ∈ ps, p.Plain opts) (hidden : Bool) (rest : List Str) :
    (logicalLines (hideFirst hidden (ps.map Entry.pointerRow ++ "    NULL".toList :: rest))).map
        strip = pointerCodes hidden ps ++ (logicalLines rest).map strip := by
  have hnull : ¬ IsContinued "    NULL".toList := by decide
  induction ps generalizing hidden with
  | nil =>
    cases hidden with
    | false =>
      rw [hideFirst, if_neg (by simp), List.map_nil, List.nil_append, logicalLines_cons hnull,
        List.map_cons, show strip (uncomment "    NULL".toList) = "NULL".toList by decide]
      rfl
    | true =>
      rw [hideFirst, if_pos rfl, List.map_nil, List.nil_append, dropContinued, if_neg hnull]
      rfl
  | cons p ps ih =>
    have hp := h p List.mem_cons_self
    have ih := ih (fun p hp => h p (List.mem_cons_of_mem _ hp)) (IsContinued p.comment)
    cases hidden with
    | false =>
      rw [hideFirst, if_neg (by simp), List.map_cons, List.cons_append, hp.code_pointerRow, ih]
      rfl
    | true =>
      rw [hideFirst, if_pos rfl, List.map_cons, List.cons_append, dropContinued]
      rw [pointerCodes, if_pos rfl, List.nil_append, ← ih, hideFirst]
      by_cases hcont : IsContinued p.comment
      · rw [if_pos (isContinued_pointerRow.2 hcont), if_pos (decide_eq_true hcont)]
      · rw [if_neg fun h => hcont (isContinued_pointerRow.1 h), if_neg (by simp [hcont])]

/-- The lines of the section of a field. -/
def pointerLines (f : Field) : List Str :=
  pointerHeading f.name ::
    (f.entries.map Entry.pointerRow ++ "    NULL".toList :: [closeBrace, []])

lemma lines_pointers (h : f.Plain opts) :
    (sectionRows pointerHeading Entry.pointerRow pointerEnding f).flatMap
      (fun l => l.splitOn '\n') = pointerLines f := by
  have hend : pointerEnding.flatMap (fun l => l.splitOn '\n') =
      "    NULL".toList :: [closeBrace, []] := by decide
  rw [sectionRows, List.flatMap_append, hend, lines_of_newline, pointerLines, List.cons_append]
  intro l hl
  rcases List.mem_cons.1 hl with rfl | hl
  · exact (isClean_pointerHeading h.name).newline
  · obtain ⟨p, hp, rfl⟩ := List.mem_map.1 hl
    exact (h.entries p hp).newline_pointerRow

lemma head_pointerCodes : ∀ {ps : List Entry} {hidden : Bool}, ∀ l ∈ pointerCodes hidden ps,
    l.head? = some '&' ∨ l.head? = some 'N' := by
  intro ps
  induction ps with
  | nil =>
    intro hidden l hl
    rw [pointerCodes] at hl
    split_ifs at hl
    · cases hl
    · rw [List.mem_singleton.1 hl]
      exact .inr rfl
  | cons p ps ih =>
    intro hidden l hl
    rw [pointerCodes] at hl
    rcases List.mem_append.1 hl with hl | hl
    · split_ifs at hl
      · cases hl
      · rw [List.mem_singleton.1 hl]
        exact .inl rfl
    · exact ih l hl

/-- Reading the section of a field gives its list of pointers, if its name can be defined. -/
lemma readLines_pointers (h : f.Plain opts) (rest : List Str) :
    (logicalLines (pointerLines f ++ rest)).map strip =
        pointerHeading f.name :: pointerCodes false f.entries ++ [closeBrace, []] ++
          (logicalLines rest).map strip ∧
      readLines reserved none
          (pointerHeading f.name :: pointerCodes false f.entries ++ [closeBrace, []]) =
        (none, if IsFree reserved (espEfuse f.name) then [f.pointers] else []) := by
  constructor
  · have hend : ∀ l ∈ [closeBrace, []], ¬ IsContinued l := by decide
    have hrows := logicalLines_pointerRows h.entries false ([closeBrace, []] ++ rest)
    rw [hideFirst, if_neg (by simp)] at hrows
    rw [pointerLines, List.cons_append, List.append_assoc, List.cons_append,
      logicalLines_cons (show ¬ IsContinued (pointerHeading f.name) from
        not_isContinued_heading _), List.map_cons, hrows,
      logicalLines_append hend, List.map_append]
    have hcode := code_pointerHeading h.name
    rw [code] at hcode
    rw [hcode, show ([closeBrace, []].map uncomment).map strip = [closeBrace, []] by decide]
    simp
  · refine readLines_section (opening_pointers _) (fun l hl => ?_) rfl
    have hhead := head_pointerCodes l hl
    have hne : l ≠ [] := by
      rintro rfl
      simp at hhead
    refine ⟨hne, ?_⟩
    rcases hhead with hhead | hhead
    · rw [hhead]
      decide
    · rw [hhead]
      decide

lemma readLines_pointers_all (h : ∀ f ∈ fields, f.Plain opts) :
    readLines reserved none ((logicalLines (fields.flatMap pointerLines ++ [[]])).map strip) =
      (none, (fields.filter fun f => IsFree reserved (espEfuse f.name)).map Field.pointers) := by
  induction fields with
  | nil =>
    have hlast : (logicalLines ([] ++ [[]])).map strip = [[]] := by decide
    rw [List.flatMap_nil, hlast]
    rfl
  | cons f fields ih =>
    obtain ⟨hlines, hread⟩ := readLines_pointers (h f List.mem_cons_self)
      (fields.flatMap pointerLines ++ [[]])
    rw [List.flatMap_cons, List.append_assoc, hlines, readLines_append, hread]
    rw [ih fun f hf => h f (List.mem_cons_of_mem _ hf), List.filter_cons]
    split_ifs with h1 h2 h2
    · rfl
    · exact absurd (decide_eq_true h1) h2
    · exact absurd (of_decide_eq_true h2) h1
    · rfl

example : code [' ', 'a', ',', '/', '/', 'b'] = ['a', ','] := by decide +kernel

end EspIdf.EfuseTable
